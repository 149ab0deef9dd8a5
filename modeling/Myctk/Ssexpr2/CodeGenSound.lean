import Myctk.Ssexpr2.Pieces

/-! The labels of generated code: those of an operator carry the number it got from the cursor, so that every jump has
    one target. -/

namespace Myctk.Ssexpr2
open Lib Instr Label List Access

def Label.number : Label → Option Nat
  | condTestPtr n | condTestValue n | condTestTrue n | condTestFalse n | condTestExit n => some n
  | andOrPtr n | andOr n | fastRet n | ret n => some n
  | errExit | errExitLoop | finalErrExit | okExit => none

def Fresh (l : Label) (code : List Instr) : Prop := ∀ i ∈ code, i.label? ≠ some l

section
variable {l : Label} {i : Instr} {code code' : List Instr}

@[simp] lemma fresh_nil : Fresh l [] := fun _ member => by cases member

@[simp] lemma fresh_cons : Fresh l (i :: code) ↔ i.label? ≠ some l ∧ Fresh l code := forall_mem_cons

lemma codeAfter_of_fresh (fresh : Fresh l code) : codeAfter label? l (code ++ code') = codeAfter label? l code' :=
  codeAfter_append code' fresh

lemma codeAfter_cons (i : Instr) (code : List Instr) : codeAfter label? l (i :: code) =
      if i.label? = some l then some code else codeAfter label? l code := rfl

end

/-- The labels of the code have numbers from `a` on and below `b`. -/
def Within (a b : Nat) (code : List Instr) : Prop :=
  ∀ i ∈ code, ∀ l, i.label? = some l → ∃ k, l.number = some k ∧ a ≤ k ∧ k < b

section
variable {a b a' b' : Nat} {i : Instr} {code code' : List Instr}

@[simp] lemma within_nil : Within a b [] := fun _ member => by cases member

@[simp] lemma within_cons :
    Within a b (i :: code) ↔ (∀ l, i.label? = some l → ∃ k, l.number = some k ∧ a ≤ k ∧ k < b) ∧ Within a b code :=
  forall_mem_cons

@[simp] lemma within_append : Within a b (code ++ code') ↔ Within a b code ∧ Within a b code' :=
  forall_mem_append

lemma Within.mono (within : Within a b code) (lower : a' ≤ a) (upper : b ≤ b') : Within a' b' code := by
  intro i member l here
  obtain ⟨k, number, left, right⟩ := within i member l here
  exact ⟨k, number, le_trans lower left, lt_of_lt_of_le right upper⟩

lemma Within.fresh {l : Label} {k : Nat} (within : Within a b code) (number : l.number = some k)
    (outside : k < a ∨ b ≤ k) : Fresh l code := by
  intro i member here
  obtain ⟨k', number', left, right⟩ := within i member l here
  rw [number] at number'
  cases number'
  omega

lemma Within.fresh_of_none {l : Label} (within : Within a b code) (number : l.number = none) : Fresh l code := by
  intro i member here
  obtain ⟨k, number', _⟩ := within i member l here
  rw [number] at number'
  cases number'

lemma within_of_unlabelled (unlabelled : ∀ i ∈ code, i.label? = none) : Within a b code := by
  intro i member l here
  rw [unlabelled i member] at here
  cases here

end

/-- Code that was generated from the cursor `c` on. -/
structure Numbered (c : Nat) (r : List Instr × Nat) : Prop where
  le : c ≤ r.2
  within : Within c r.2 r.1

lemma Access.within (access : Access) (a b : Nat) : Within a b access.code := by
  refine within_of_unlabelled ?_
  cases access with
  | embedded => simp [code, label?]
  | pointer => simp [code, label?]
  | function vtype address =>
    simp only [code]
    split <;> simp [label?]

lemma within_popArgs (k a b : Nat) : Within a b (popArgs k) := by
  refine within_of_unlabelled ?_
  unfold popArgs
  split <;> simp [popPair, label?]

lemma within_condStart (n : Nat) : Within n (n + 1)
    (testOperand (.condTestPtr n) (.condTestValue n) ++ [.je (.condTestFalse n), .label (.condTestTrue n)]) := by
  simp [testOperand, label?, number]

lemma within_opStart (op : Optoken) (n : Nat) :
    Within n (n + 1) ((if op = .and ∨ op = .or then testAndOr op n else []) ++ pushRegisters) := by
  refine within_append.mpr ⟨?_, by simp [pushRegisters, label?]⟩
  split_ifs
  · simp only [testAndOr, testOperand, within_append]
    split_ifs <;> simp [label?, number]
  · exact within_nil

section
variable (h : Helpers)

lemma within_opFinish (op : Optoken) (n : Nat) : Within n (n + 1)
    (callPair h op ++ [.jmp (.ret n), .label (.fastRet n)] ++ fastRet op ++ [.label (.ret n)]) := by
  simp only [within_append]
  refine ⟨⟨⟨?_, ?_⟩, ?_⟩, ?_⟩
  · simp [callPair, popValue, popPair, label?]
  · simp [label?, number]
  · unfold fastRet
    split_ifs <;> simp [label?]
  · simp [label?, number]

mutual

theorem gen_numbered : ∀ (e : Operand) (c : Nat), Numbered c (gen h e c)
  | .int64 _, c | .double _, c | .bool _, c | .string _, c =>
    ⟨le_refl c, by simp [gen, saveRegisterValue, label?]⟩
  | .variable accesses, c => by
    refine ⟨le_refl c, ?_⟩
    simp only [gen, within_cons, label?, reduceCtorEq, false_implies, implies_true, true_and]
    intro i member
    obtain ⟨access, _, here⟩ := mem_flatMap.mp member
    exact access.within c c i here
  | .dynamicVariable _, c => ⟨le_refl c, by simp [gen, label?]⟩
  | .condExpr lhs rhsTrue rhsFalse, c => by
    have ⟨le₁, within₁⟩ := gen_numbered lhs (c + 1)
    have ⟨le₂, within₂⟩ := gen_numbered rhsTrue (gen h lhs (c + 1)).2
    have ⟨le₃, within₃⟩ := gen_numbered rhsFalse (gen h rhsTrue (gen h lhs (c + 1)).2).2
    refine ⟨by simp only [gen]; omega, ?_⟩
    simp only [gen, within_append]
    refine ⟨⟨⟨⟨⟨⟨within₁.mono (by omega) (by omega), ?_⟩, ?_⟩, within₂.mono (by omega) (by omega)⟩, ?_⟩,
      within₃.mono (by omega) le_rfl⟩, ?_⟩ <;> simp [testOperand, label?, number] <;> omega
  | .funcCall functor args, c => by
    have ⟨le₁, within₁⟩ := genStackArgs_numbered 3 args c
    have ⟨le₂, within₂⟩ := genArgs_numbered 3 args (genStackArgs h 3 args c).2
    refine ⟨le_trans le₁ le₂, ?_⟩
    simp only [gen, within_append]
    refine ⟨⟨⟨⟨within₁.mono le_rfl le₂, within₂.mono le₁ le_rfl⟩, within_popArgs _ _ _⟩, ?_⟩, ?_⟩
    · simp [label?]
    · split <;> simp [label?]
  | .unary op operand, c => by
    have ⟨le, within⟩ := gen_numbered operand c
    refine ⟨le, ?_⟩
    simp only [gen, within_append]
    refine ⟨within, ?_⟩
    split_ifs <;> simp [callUnary, label?]
  | .expression first rest, c => by
    have ⟨le₁, within₁⟩ := gen_numbered first c
    have ⟨le₂, within₂⟩ := genRest_numbered rest (gen h first c).2
    refine ⟨le_trans le₁ le₂, ?_⟩
    simp only [gen, within_append]
    exact ⟨within₁.mono le_rfl le₂, within₂.mono le₁ le_rfl⟩

theorem genStackArgs_numbered : ∀ (skip : Nat) (args : Operands) (c : Nat), Numbered c (genStackArgs h skip args c)
  | skip, .nil, c => by cases skip <;> exact ⟨le_refl c, by simp [genStackArgs]⟩
  | 0, .cons arg args, c => by
    have ⟨le₁, within₁⟩ := genStackArgs_numbered 0 args c
    have ⟨le₂, within₂⟩ := gen_numbered arg (genStackArgs h 0 args c).2
    refine ⟨le_trans le₁ le₂, ?_⟩
    simp only [genStackArgs, within_append]
    exact ⟨⟨within₁.mono le_rfl le₂, within₂.mono le₁ le_rfl⟩, by simp [label?]⟩
  | skip + 1, .cons _ args, c => genStackArgs_numbered skip args c

theorem genArgs_numbered : ∀ (n : Nat) (args : Operands) (c : Nat), Numbered c (genArgs h n args c)
  | n, .nil, c => by cases n <;> exact ⟨le_refl c, by simp [genArgs]⟩
  | 0, .cons _ _, c => ⟨le_refl c, by simp [genArgs]⟩
  | n + 1, .cons arg args, c => by
    have ⟨le₁, within₁⟩ := gen_numbered arg c
    have ⟨le₂, within₂⟩ := genArgs_numbered n args (gen h arg c).2
    refine ⟨le_trans le₁ le₂, ?_⟩
    simp only [genArgs, within_append]
    exact ⟨⟨within₁.mono le_rfl le₂, by simp [pushRegisters, label?]⟩, within₂.mono le₁ le_rfl⟩

theorem genRest_numbered : ∀ (rest : Operations) (c : Nat), Numbered c (genRest h rest c)
  | .nil, c => ⟨le_refl c, by simp [genRest]⟩
  | .cons op operand rest, c => by
    have ⟨le₁, within₁⟩ := gen_numbered operand (c + 1)
    have ⟨le₂, within₂⟩ := genRest_numbered rest (gen h operand (c + 1)).2
    refine ⟨by simp only [genRest]; omega, ?_⟩
    have start := (within_opStart op c).mono (le_refl c) (le₁.trans le₂)
    have finish := (within_opFinish h op c).mono (le_refl c) (le₁.trans le₂)
    simp only [within_append] at start finish
    simp only [genRest, within_append]
    exact ⟨⟨⟨⟨⟨⟨start, within₁.mono (by omega) le₂⟩, finish.1.1.1⟩, finish.1.1.2⟩, finish.1.2⟩, finish.2⟩,
      within₂.mono (by omega) le_rfl⟩

end

end

/-! The code of an operand computes its value, wherever in a program it stands. -/

open Machine Nat

@[simp] lemma size_append (code code' : List Instr) : size (code ++ code') = size code + size code' := by
  simp [size]

variable {ω : Type} {out : Outside ω} {h : Helpers} {c : Callees ω} {prog err : List Instr} {obj ctx : Word}

structure Stands (prog err : List Instr) (cursor : Nat) (code : List Instr) : Prop where
  after : ∃ before, prog = before ++ code ∧ Within 0 cursor before
  err : codeAfter label? .errExit prog = some err

lemma Stands.skip {cursor cursor' : Nat} {before code : List Instr} (stands : Stands prog err cursor (before ++ code))
    (le : cursor ≤ cursor') (within : Within 0 cursor' before) : Stands prog err cursor' code := by
  obtain ⟨before', whole, within'⟩ := stands.after
  refine ⟨⟨before' ++ before, ?_, ?_⟩, stands.err⟩
  · rw [whole, append_assoc]
  · exact within_append.mpr ⟨within'.mono (le_refl 0) le, within⟩

lemma Stands.mono {cursor cursor' : Nat} {code : List Instr} (stands : Stands prog err cursor code) (le : cursor ≤ cursor') :
    Stands prog err cursor' code := by
  obtain ⟨before, whole, within⟩ := stands.after
  exact ⟨⟨before, whole, within.mono (le_refl 0) le⟩, stands.err⟩

lemma genStackArgs_of_le (args : Operands) (k cursor : Nat) (few : args.length ≤ k) :
    genStackArgs h k args cursor = ([], cursor) := by
  induction k generalizing args with
  | zero =>
    cases args with
    | nil => rfl
    | cons => simp [Operands.length] at few
  | succ k ih =>
    cases args with
    | nil => rfl
    | cons arg args => exact ih args (by simpa [Operands.length] using few)

section
variable {m m' : Machine ω} {n : Nat} {after : List Instr} {v : Value}

lemma run_constant (plain : v.len = 0) : Gets out prog (Ends m n err after m.Holds (Eval.pure v m.world))
      (.running (saveRegisterValue v ++ after) m) := by
  refine run_saveRegisterValue plain fun m' holds world => .now ?_
  rw [Eval.pure, ← world]
  exact .value holds

lemma run_variable (follows : out.Follows h c) {accesses : List Access}
    (conforms : accesses ≠ [] ∧ ∀ a ∈ accesses, a.Conforms c) (r12 : m.reg .r12 = obj) : Gets out prog
      (Ends m n err after m.Holds (evalAccesses out.memory c accesses ⟨obj, 0, 0⟩ m.world))
      (.running (.mov .rdi .r12 :: .mov .rax .rdi :: accesses.flatMap Access.code ++ after) m) := by
  subst r12
  obtain ⟨some, conforms⟩ := conforms
  let m' := (m.set .rdi (m.reg .r12)).set .rax (m.reg .r12)
  have above : m.Above [] m' := ((Above.refl m).set rfl _).set rfl _
  refine .succ (.succ ?_)
  show Gets _ _ _ (Status.running (accesses.flatMap Access.code ++ after) m')
  match accesses, some with
  | access :: accesses, _ =>
    rw [flatMap_cons, append_assoc]
    exact run_bind (run_access follows (conforms access mem_cons_self) above rfl rfl) fun v m'' there =>
      run_accesses follows accesses (fun a member => conforms a (mem_cons_of_mem _ member)) there

lemma run_dynamicVariable (follows : out.Follows h c) (fullName : Word) (r14 : m.reg .r14 = ctx) : Gets out prog
      (Ends m n err after m.Holds (some (.value (findVarValue c ctx fullName m.world) m.world)))
      (.running ([.mov .rdi .r14, .movImm .rsi fullName, .movImm .rax h.findVarValue, .call .rax] ++ after) m) := by
  subst r14
  let m' := ((m.set .rdi (m.reg .r14)).set .rsi fullName).set .rax h.findVarValue
  have above : m.Above [] m' := (((Above.refl m).set rfl _).set rfl _).set rfl _
  refine .succ (.succ (.succ ?_))
  exact run_ofCall (f := fun w => some (findVarValue c (m.reg .r14) fullName w, w)) follows (m := m') rfl
    (follows.findVarValue _ _ _) above

lemma run_unary (follows : out.Follows h c) (op : Optoken) (holds : m.Holds v m') :
    Gets out prog (Ends m n err after m.Holds (evalUnary out.memory op v m'.world))
      (.running ((if op = .not then callUnary h.notValue else if op = .negative then callUnary h.negValue else []) ++ after) m') := by
  unfold evalUnary
  split_ifs
  · exact run_callUnary follows holds fun reg stack passes => follows.notValue reg stack _ v passes
  · exact run_callUnary follows holds fun reg stack passes => follows.negValue reg stack _ v passes
  · exact .now (.value holds)

end

section
variable {lhs rhsTrue rhsFalse : List Instr} {cursor₁ cursor₂ cursor₃ cursor n : Nat} {after : List Instr}
  {m : Machine ω}

def condEnd (cursor : Nat) (after : List Instr) : List Instr :=
  .jmp (.condTestExit cursor) :: .label (.condTestExit cursor) :: after

def condElse (cursor : Nat) (rhsFalse after : List Instr) : List Instr :=
  .jmp (.condTestExit cursor) :: .label (.condTestFalse cursor) :: (rhsFalse ++ condEnd cursor after)

def condThen (cursor : Nat) (rhsTrue rhsFalse after : List Instr) : List Instr :=
  .je (.condTestFalse cursor) :: .label (.condTestTrue cursor) :: (rhsTrue ++ condElse cursor rhsFalse after)

def condTest (cursor : Nat) (rhsTrue rhsFalse after : List Instr) : List Instr :=
  testOperand (.condTestPtr cursor) (.condTestValue cursor) ++ condThen cursor rhsTrue rhsFalse after

structure CondLabels (prog : List Instr) (cursor : Nat) (rhsTrue rhsFalse after : List Instr) : Prop where
  ptr : codeAfter label? (.condTestPtr cursor) prog =
    some (.movImm .rdx (vBoolValue.setWidth 64) :: .load .rax .rax :: .label (.condTestValue cursor) :: .cmp .rax 0 ::
      condThen cursor rhsTrue rhsFalse after)
  value : codeAfter label? (.condTestValue cursor) prog =
    some (.cmp .rax 0 :: condThen cursor rhsTrue rhsFalse after)
  no : codeAfter label? (.condTestFalse cursor) prog = some (rhsFalse ++ condEnd cursor after)
  exit : codeAfter label? (.condTestExit cursor) prog = some after

lemma condLabels_of_stands (stands : Stands prog err cursor (lhs ++ condTest cursor rhsTrue rhsFalse after))
    (within1 : Within (cursor + 1) cursor₁ lhs) (within2 : Within (cursor + 1) cursor₂ rhsTrue)
    (within3 : Within (cursor + 1) cursor₃ rhsFalse) : CondLabels prog cursor rhsTrue rhsFalse after := by
  obtain ⟨before, whole, within⟩ := stands.after
  have fresh : ∀ l : Label, l.number = some cursor → Fresh l before ∧ Fresh l lhs ∧ Fresh l rhsTrue ∧ Fresh l rhsFalse :=
    fun l number => ⟨within.fresh number (.inr le_rfl), within1.fresh number (.inl (lt_succ_self _)),
      within2.fresh number (.inl (lt_succ_self _)), within3.fresh number (.inl (lt_succ_self _))⟩
  obtain ⟨ptr1, ptr2, -, -⟩ := fresh (.condTestPtr cursor) rfl
  obtain ⟨value1, value2, -, -⟩ := fresh (.condTestValue cursor) rfl
  obtain ⟨no1, no2, no3, -⟩ := fresh (.condTestFalse cursor) rfl
  obtain ⟨exit1, exit2, exit3, exit4⟩ := fresh (.condTestExit cursor) rfl
  subst whole
  refine ⟨?_, ?_, ?_, ?_⟩
  · rw [codeAfter_of_fresh ptr1, codeAfter_of_fresh ptr2]
    simp [condTest, testOperand, codeAfter_cons, label?]
  · rw [codeAfter_of_fresh value1, codeAfter_of_fresh value2]
    simp [condTest, testOperand, codeAfter_cons, label?]
  · rw [codeAfter_of_fresh no1, codeAfter_of_fresh no2]
    simp [condTest, testOperand, condThen, condElse, codeAfter_cons, codeAfter_of_fresh no3, label?]
  · rw [codeAfter_of_fresh exit1, codeAfter_of_fresh exit2]
    simp [condTest, testOperand, condThen, condElse, condEnd, codeAfter_cons, codeAfter_of_fresh exit3,
      codeAfter_of_fresh exit4, label?]

lemma run_condThen {y z : Eval ω Value} {b : Value} {m' : Machine ω}
    (labels : CondLabels prog cursor rhsTrue rhsFalse after) (tested : m.Tested b m') (runTrue : ∀ m', m.Above [] m' → Gets out prog
      (Ends m n err (condElse cursor rhsFalse after) m.Holds (y m'.world)) (.running (rhsTrue ++ condElse cursor rhsFalse after) m'))
    (runFalse : ∀ m', m.Above [] m' → Gets out prog
      (Ends m n err (condEnd cursor after) m.Holds (z m'.world)) (.running (rhsFalse ++ condEnd cursor after) m')) :
    Gets out prog (Ends m n err after m.Holds ((if b.val = 0 then z else y) m'.world))
      (.running (condThen cursor rhsTrue rhsFalse after) m') := by
  have leave : ∀ (a : Value) (m'' : Machine ω) (code : List Instr), m.Holds a m'' →
      Gets out prog (Ends m n err after m.Holds (some (.value a m''.world)))
        (.running (.jmp (.condTestExit cursor) :: code) m'') := by
    intro a m'' code holds
    refine .succ ?_
    rw [step, exec, jump_eq labels.exit]
    exact .now (.value holds)
  refine .succ ?_
  rw [condThen, step, exec, tested.zf, jump_eq labels.no]
  by_cases zero : b.val = 0
  · rw [decide_eq_true zero, if_pos rfl, if_pos zero]
    exact run_after (runFalse m' tested.above) fun a m'' holds => leave a m'' _ holds
  · rw [decide_eq_false zero, if_neg Bool.false_ne_true, if_neg zero]
    exact .succ (run_after (runTrue m' tested.above) fun a m'' holds => leave a m'' _ holds)

end

section
variable {operand after : List Instr} {op : Optoken} {cursor cursor₁ k n : Nat} {m m' : Machine ω} {left : Value}
  {right : Eval ω Value}

def opEnd (op : Optoken) (cursor : Nat) (after : List Instr) : List Instr :=
  .jmp (.ret cursor) :: .label (.fastRet cursor) :: (fastRet op ++ (.label (.ret cursor) :: after))

def opRight (h : Helpers) (op : Optoken) (cursor : Nat) (operand after : List Instr) : List Instr :=
  pushRegisters ++ (operand ++ (callPair h op ++ opEnd op cursor after))

def opTest (h : Helpers) (op : Optoken) (cursor : Nat) (operand after : List Instr) : List Instr :=
  (if op = .and then .je (.fastRet cursor) else .jne (.fastRet cursor)) :: opRight h op cursor operand after

def opCode (h : Helpers) (op : Optoken) (cursor : Nat) (operand after : List Instr) : List Instr :=
  if op = .and ∨ op = .or then
    testOperand (.andOrPtr cursor) (.andOr cursor) ++ opTest h op cursor operand after
  else opRight h op cursor operand after

structure OpLabels (prog : List Instr) (h : Helpers) (op : Optoken) (cursor : Nat) (operand after : List Instr) : Prop where
  ptr : op = .and ∨ op = .or → codeAfter label? (.andOrPtr cursor) prog =
    some (.movImm .rdx (vBoolValue.setWidth 64) :: .load .rax .rax :: .label (.andOr cursor) :: .cmp .rax 0 ::
      opTest h op cursor operand after)
  value : op = .and ∨ op = .or → codeAfter label? (.andOr cursor) prog =
    some (.cmp .rax 0 :: opTest h op cursor operand after)
  fast : codeAfter label? (.fastRet cursor) prog = some (fastRet op ++ (.label (.ret cursor) :: after))
  ret : codeAfter label? (.ret cursor) prog = some after

lemma opCode_eq : opCode h op cursor operand after = ((if op = .and ∨ op = .or then testAndOr op cursor else []) ++ pushRegisters) ++
      (operand ++ (callPair h op ++ opEnd op cursor after)) := by
  by_cases logical : op = .and ∨ op = .or <;> simp [opCode, opTest, opRight, testAndOr, logical]

lemma opLabels_of_stands (stands : Stands prog err cursor (opCode h op cursor operand after))
    (within1 : Within (cursor + 1) cursor₁ operand) : OpLabels prog h op cursor operand after := by
  obtain ⟨before, whole, within⟩ := stands.after
  have fresh : ∀ l : Label, l.number = some cursor → Fresh l before ∧ Fresh l operand := fun l number =>
    ⟨within.fresh number (.inr le_rfl), within1.fresh number (.inl (lt_succ_self _))⟩
  have piece : ∀ l, Fresh l pushRegisters ∧ Fresh l (callPair h op) ∧ Fresh l (fastRet op) := by
    intro l
    refine ⟨by simp [pushRegisters, label?], by simp [callPair, popValue, popPair, label?], ?_⟩
    unfold fastRet
    split_ifs <;> simp [label?]
  have right : ∀ l, Fresh l operand → codeAfter label? l (opRight h op cursor operand after) =
      codeAfter label? l (opEnd op cursor after) := by
    intro l here
    rw [opRight, codeAfter_of_fresh (piece l).1, codeAfter_of_fresh here, codeAfter_of_fresh (piece l).2.1]
  have code : ∀ l, (∀ i ∈ testOperand (.andOrPtr cursor) (.andOr cursor), i.label? ≠ some l) → Fresh l operand →
      codeAfter label? l (opCode h op cursor operand after) =
      codeAfter label? l (opEnd op cursor after) := by
    intro l test here
    unfold opCode
    split
    · rw [codeAfter_of_fresh test, opTest, codeAfter_cons, if_neg, right l here]
      split <;> simp [label?]
    · exact right l here
  obtain ⟨ptr1, -⟩ := fresh (.andOrPtr cursor) rfl
  obtain ⟨value1, -⟩ := fresh (.andOr cursor) rfl
  obtain ⟨fast1, fast2⟩ := fresh (.fastRet cursor) rfl
  obtain ⟨ret1, ret2⟩ := fresh (.ret cursor) rfl
  subst whole
  refine ⟨fun logical => ?_, fun logical => ?_, ?_, ?_⟩
  · rw [codeAfter_of_fresh ptr1, opCode, if_pos logical]
    simp [testOperand, codeAfter_cons, label?]
  · rw [codeAfter_of_fresh value1, opCode, if_pos logical]
    simp [testOperand, codeAfter_cons, label?]
  · rw [codeAfter_of_fresh fast1, code _ (by simp [testOperand, label?]) fast2]
    simp [opEnd, codeAfter_cons, label?]
  · rw [codeAfter_of_fresh ret1, code _ (by simp [testOperand, label?]) ret2]
    simp [opEnd, codeAfter_cons, codeAfter_of_fresh (piece (.ret cursor)).2.2, label?]

lemma run_opRight (follows : out.Follows h c) (labels : OpLabels prog h op cursor operand after) (holds : m.Holds left m')
    (runOperand : ∀ m₁, m'.Above [left] m₁ → Gets out prog
      (Ends m₁ k err (callPair h op ++ opEnd op cursor after) m₁.Holds (right m₁.world))
      (.running (operand ++ (callPair h op ++ opEnd op cursor after)) m₁)) (few : 1 + k ≤ n) : Gets out prog
      (Ends m n err after m.Holds (right.bind (evalPair out.memory op left) m'.world))
      (.running (opRight h op cursor operand after) m') := by
  refine run_pushRegisters holds.rax holds.rdx fun m₁ pushed world => ?_
  have above : m.Above [left] m₁ := holds.above.trans pushed
  rw [← world]
  refine run_bind (run_above (runOperand m₁ pushed) above few fun _ _ => id) fun v m₂ there => ?_
  refine run_after (run_callPair follows op (above.trans there.above) there.rax there.rdx) fun v m₃ done => .succ ?_
  show Gets _ _ _ (jump prog (.ret cursor) m₃)
  rw [jump_eq labels.ret]
  exact .now (.value done)

lemma run_fastRet (logical : op = .and ∨ op = .or) (above : m.Above [] m') : Gets out prog
      (Ends m n err after m.Holds (some (.value (.ofBool (op = .or)) m'.world)))
      (.running (fastRet op ++ (.label (.ret cursor) :: after)) m') := by
  have code : fastRet op = saveRegisterValue (.ofBool (op = .or)) := by
    rcases logical with rfl | rfl <;> rfl
  rw [code]
  refine run_saveRegisterValue rfl fun m'' holds world => .succ (.now ?_)
  rw [← world]
  exact .value (.trans above holds)

lemma run_opCode (follows : out.Follows h c) (labels : OpLabels prog h op cursor operand after)
    (errAt : codeAfter label? .errExit prog = some err) (holds : m.Holds left m')
    (runOperand : ∀ v m₀ m₁, m.Holds v m₀ → m₀.Above [v] m₁ → Gets out prog
      (Ends m₁ k err (callPair h op ++ opEnd op cursor after) m₁.Holds (right m₁.world))
      (.running (operand ++ (callPair h op ++ opEnd op cursor after)) m₁)) (few : 1 + k ≤ n) :
    Gets out prog (Ends m n err after m.Holds (operate out.memory c op left right m'.world))
      (.running (opCode h op cursor operand after) m') := by
  unfold operate opCode
  split
  case isFalse => exact run_opRight follows labels holds (fun m₁ => runOperand left m' m₁ holds) few
  case isTrue logical =>
    refine run_bind (run_testOperand follows holds (labels.ptr logical) (labels.value logical) errAt) fun v m₁ tested => ?_
    have go : Gets out prog
        (Ends m n err after m.Holds (right.bind (evalPair out.memory op v) m₁.world))
        (.running (opRight h op cursor operand after) m₁) :=
      run_opRight follows labels tested.toHolds (fun m₂ => runOperand v m₁ m₂ tested.toHolds) few
    have fast : Gets out prog
        (Ends m n err after m.Holds (Eval.pure (.ofBool (op = .or)) m₁.world)) (jump prog (.fastRet cursor) m₁) := by
      rw [jump_eq labels.fast]
      exact run_fastRet logical tested.above
    refine .succ ?_
    rcases logical with rfl | rfl
    · simp only [opTest, shortCircuits, if_true, step, exec, tested.zf, decide_eq_true_eq]
      split_ifs
      · exact fast
      · exact go
    · simp only [opTest, shortCircuits, reduceCtorEq, if_false, step, exec, tested.zf, decide_eq_true_eq,
        ne_eq, ite_not]
      split_ifs
      · exact go
      · exact fast

end

lemma gen_condExpr_append (lhs rhsTrue rhsFalse : Operand) (cursor : Nat) (after : List Instr) :
    (gen h (.condExpr lhs rhsTrue rhsFalse) cursor).1 ++ after =
      (gen h lhs (cursor + 1)).1 ++ condTest cursor (gen h rhsTrue (gen h lhs (cursor + 1)).2).1
        (gen h rhsFalse (gen h rhsTrue (gen h lhs (cursor + 1)).2).2).1 after := by
  simp [gen, condTest, condThen, condElse, condEnd]

lemma gen_funcCall_append (functor : Word) (args : Operands) (few : args.length ≤ 3) (cursor : Nat) (after : List Instr) :
    (gen h (.funcCall functor args) cursor).1 ++ after =
      (genArgs h 3 args cursor).1 ++ (popArgs args.length ++ (.movImm .rax functor :: .call .rax :: after)) := by
  simp [gen, genStackArgs_of_le args 3 cursor few, not_lt.mpr few]

lemma genRest_cons_append (op : Optoken) (operand : Operand) (rest : Operations) (cursor : Nat) (after : List Instr) :
    (genRest h (.cons op operand rest) cursor).1 ++ after =
      opCode h op cursor (gen h operand (cursor + 1)).1 ((genRest h rest (gen h operand (cursor + 1)).2).1 ++ after) := by
  simp [genRest, opCode_eq, opEnd]

lemma stands_condExpr {lhs rhsTrue rhsFalse : Operand} {cursor : Nat} {after : List Instr}
    (stands : Stands prog err cursor ((gen h (.condExpr lhs rhsTrue rhsFalse) cursor).1 ++ after)) :
    let lhs := gen h lhs (cursor + 1)
    let rhsTrue := gen h rhsTrue lhs.2
    let rhsFalse := gen h rhsFalse rhsTrue.2
    CondLabels prog cursor rhsTrue.1 rhsFalse.1 after ∧
      Stands prog err (cursor + 1) (lhs.1 ++ condTest cursor rhsTrue.1 rhsFalse.1 after) ∧
      Stands prog err lhs.2 (rhsTrue.1 ++ condElse cursor rhsFalse.1 after) ∧
      Stands prog err rhsTrue.2 (rhsFalse.1 ++ condEnd cursor after) := by
  obtain ⟨le1, within1⟩ := gen_numbered h lhs (cursor + 1)
  obtain ⟨le2, within2⟩ := gen_numbered h rhsTrue (gen h lhs (cursor + 1)).2
  obtain ⟨_, within3⟩ := gen_numbered h rhsFalse (gen h rhsTrue (gen h lhs (cursor + 1)).2).2
  rw [gen_condExpr_append] at stands
  have standsTest := stands.skip (le_of_succ_le le1) (within1.mono (zero_le _) (le_refl _))
  have start := (within_condStart cursor).mono (zero_le cursor) le1
  have standsTrue : Stands prog err _ (_ ++ condElse cursor _ after) :=
    Stands.skip (by rw [append_assoc]; exact standsTest) le_rfl start
  have standsElse := standsTrue.skip le2 (within2.mono (zero_le _) (le_refl _))
  refine ⟨?_, stands.mono (le_succ cursor), standsTrue, ?_⟩
  · exact condLabels_of_stands stands within1 (within2.mono le1 le_rfl) (within3.mono (by omega) le_rfl)
  · have finish : Within 0 (gen h rhsTrue (gen h lhs (cursor + 1)).2).2
        [.jmp (.condTestExit cursor), .label (.condTestFalse cursor)] := by
      simp [label?, Label.number]
      omega
    exact Stands.skip standsElse le_rfl finish

lemma stands_genRest {op : Optoken} {operand : Operand} {rest : Operations} {cursor : Nat} {after : List Instr}
    (stands : Stands prog err cursor ((genRest h (.cons op operand rest) cursor).1 ++ after)) :
    let operand := gen h operand (cursor + 1)
    let after := (genRest h rest operand.2).1 ++ after
    OpLabels prog h op cursor operand.1 after ∧
      Stands prog err (cursor + 1) (operand.1 ++ (callPair h op ++ opEnd op cursor after)) ∧
      Stands prog err operand.2 after := by
  obtain ⟨le1, within1⟩ := gen_numbered h operand (cursor + 1)
  rw [genRest_cons_append] at stands
  have labels := opLabels_of_stands stands within1
  have start := (within_opStart op cursor).mono (zero_le cursor) le_rfl
  have finish := (within_opFinish h op cursor).mono (zero_le cursor) le1
  rw [opCode_eq] at stands
  have standsOperand := stands.skip (le_succ cursor) start
  have standsCall := standsOperand.skip le1 (within1.mono (zero_le _) (le_refl _))
  refine ⟨labels, standsOperand, Stands.skip ?_ le_rfl finish⟩
  simpa only [opEnd, append_assoc, cons_append, nil_append] using standsCall

mutual

theorem gen_runs (follows : out.Follows h c) :
    ∀ (e : Operand) (cursor : Nat) {after : List Instr} {m : Machine ω} {n : Nat}, e.Conforms c →
    Stands prog err cursor ((gen h e cursor).1 ++ after) → m.reg .r12 = obj → m.reg .r14 = ctx →
    size (gen h e cursor).1 ≤ n →
    Gets out prog (Ends m n err after m.Holds (eval out.memory c obj ctx e m.world))
      (.running ((gen h e cursor).1 ++ after) m)
  | .int64 _, _, _, _, _, _, _, _, _, _ => run_constant rfl
  | .double _, _, _, _, _, _, _, _, _, _ => run_constant rfl
  | .bool _, _, _, _, _, _, _, _, _, _ => run_constant rfl
  | .string _, _, _, _, _, _, _, _, _, _ => run_constant rfl
  | .variable _, _, _, _, _, conforms, _, r12, _, _ => run_variable follows conforms r12
  | .dynamicVariable fullName, _, _, _, _, _, _, _, r14, _ => run_dynamicVariable follows fullName r14
  | .condExpr lhs rhsTrue rhsFalse, cursor, after, m, n, conforms, stands, r12, r14, few => by
    obtain ⟨conforms₁, conforms₂, conforms₃⟩ := conforms
    obtain ⟨labels, stands₁, stands₂, stands₃⟩ := stands_condExpr stands
    obtain ⟨few₁, few₂, few₃⟩ : size (gen h lhs (cursor + 1)).1 ≤ n ∧ size (gen h rhsTrue (gen h lhs (cursor + 1)).2).1 ≤ n ∧
        size (gen h rhsFalse (gen h rhsTrue (gen h lhs (cursor + 1)).2).2).1 ≤ n := by
      simp only [gen, size_append] at few
      omega
    rw [gen_condExpr_append]
    refine run_bind (gen_runs follows lhs (cursor + 1) conforms₁ stands₁ r12 r14 few₁) fun v m₁ holds => ?_
    refine run_bind (run_testOperand follows holds labels.ptr labels.value stands.err) fun b m₂ tested => ?_
    refine run_condThen labels tested (fun m₃ above => ?_) fun m₃ above => ?_
    · exact run_above (gen_runs follows rhsTrue _ conforms₂ stands₂ (above.r12.trans r12) (above.r14.trans r14) few₂) above
        (le_of_eq (zero_add n)) fun _ _ => .trans above
    · exact run_above (gen_runs follows rhsFalse _ conforms₃ stands₃ (above.r12.trans r12) (above.r14.trans r14) few₃) above
        (le_of_eq (zero_add n)) fun _ _ => .trans above
  | .funcCall functor args, cursor, after, m, n, ⟨short, takes, conforms⟩, stands, r12, r14, few => by
    rw [gen_funcCall_append functor args short] at stands ⊢
    have few₁ : size (genArgs h 3 args cursor).1 ≤ n := by
      simp only [gen, size_append, genStackArgs_of_le args 3 cursor short] at few
      omega
    refine run_bind (genArgs_runs follows args 3 cursor short conforms stands r12 r14 few₁) fun vs m₁ ⟨above, length⟩ => ?_
    rw [← length] at short takes ⊢
    refine run_popArgs short above fun m₂ above₂ passes world => .succ ?_
    rw [← world]
    exact run_ofCall follows (m := m₂.set .rax functor) rfl (follows.functions functor vs takes _ _ _ passes) (above₂.set rfl _)
  | .unary op operand, cursor, after, m, n, conforms, stands, r12, r14, few => by
    have few₁ : size (gen h operand cursor).1 ≤ n := by
      simp only [gen, size_append] at few
      omega
    simp only [gen, append_assoc] at stands ⊢
    exact run_bind (gen_runs follows operand cursor conforms stands r12 r14 few₁) fun v m₁ holds => run_unary follows op holds
  | .expression first rest, cursor, after, m, n, ⟨conforms₁, conforms₂⟩, stands, r12, r14, few => by
    have ⟨le, within⟩ := gen_numbered h first cursor
    obtain ⟨few₁, few₂⟩ : size (gen h first cursor).1 ≤ n ∧ size (genRest h rest (gen h first cursor).2).1 ≤ n := by
      simp only [gen, size_append] at few
      omega
    simp only [gen, append_assoc] at stands ⊢
    have standsRest := stands.skip le (within.mono (zero_le _) (le_refl _))
    exact run_bind (gen_runs follows first cursor conforms₁ stands r12 r14 few₁) fun v m₁ holds =>
      genRest_runs follows rest _ conforms₂ standsRest r12 r14 few₂ holds

theorem genArgs_runs (follows : out.Follows h c) :
    ∀ (args : Operands) (k cursor : Nat) {after : List Instr} {m : Machine ω} {n : Nat},
    args.length ≤ k → args.Conforms c → Stands prog err cursor ((genArgs h k args cursor).1 ++ after) →
    m.reg .r12 = obj → m.reg .r14 = ctx → size (genArgs h k args cursor).1 ≤ n →
    Gets out prog
      (Ends m n err after (fun vs m' => m.Above vs.reverse m' ∧ vs.length = args.length)
        (evalArgs out.memory c obj ctx args m.world))
      (.running ((genArgs h k args cursor).1 ++ after) m)
  | .nil, k, cursor, after, m, n, _, _, _, _, _, _ => by
    cases k <;> exact .now (.value ⟨.refl m, rfl⟩)
  | .cons arg args, k + 1, cursor, after, m, n, short, ⟨conforms₁, conforms₂⟩, stands, r12, r14, few => by
    have ⟨le, within⟩ := gen_numbered h arg cursor
    obtain ⟨few₁, few₂⟩ : size (gen h arg cursor).1 ≤ n ∧ 1 + size (genArgs h k args (gen h arg cursor).2).1 ≤ n := by
      have one : 1 ≤ size pushRegisters := by decide
      simp only [genArgs, size_append] at few
      omega
    simp only [genArgs, append_assoc] at stands ⊢
    have standsArgs := (stands.skip le (within.mono (zero_le _) (le_refl _))).skip (le_refl _)
      (within_of_unlabelled (by simp [pushRegisters, label?]))
    refine run_bind (gen_runs follows arg cursor conforms₁ stands r12 r14 few₁) fun v m₁ holds => ?_
    refine run_pushRegisters holds.rax holds.rdx fun m₂ pushed world => ?_
    have above : m.Above [v] m₂ := holds.above.trans pushed
    rw [← world]
    refine run_bind (run_above (genArgs_runs follows args k _ (le_of_succ_le_succ short) conforms₂ standsArgs
      (above.r12.trans r12) (above.r14.trans r14) le_rfl) above few₂ fun _ _ => id) fun vs m₃ ⟨above', length⟩ => ?_
    refine .now (.value ⟨?_, congrArg (· + 1) length⟩)
    rw [reverse_cons]
    exact above.trans above'

theorem genRest_runs (follows : out.Follows h c) :
    ∀ (rest : Operations) (cursor : Nat) {after : List Instr} {v : Value} {m m' : Machine ω} {n : Nat},
    rest.Conforms c → Stands prog err cursor ((genRest h rest cursor).1 ++ after) → m.reg .r12 = obj → m.reg .r14 = ctx →
    size (genRest h rest cursor).1 ≤ n → m.Holds v m' →
    Gets out prog (Ends m n err after m.Holds (evalRest out.memory c obj ctx rest v m'.world))
      (.running ((genRest h rest cursor).1 ++ after) m')
  | .nil, _, _, _, _, _, _, _, _, _, _, _, holds => .now (.value holds)
  | .cons op operand rest, cursor, after, v, m, m', n, ⟨conforms₁, conforms₂⟩, stands, r12, r14, few, holds => by
    obtain ⟨labels, stands₁, stands₂⟩ := stands_genRest stands
    obtain ⟨few₁, few₂⟩ : 1 + size (gen h operand (cursor + 1)).1 ≤ n ∧
        size (genRest h rest (gen h operand (cursor + 1)).2).1 ≤ n := by
      have one : 1 ≤ size pushRegisters := by decide
      simp only [genRest, size_append] at few
      omega
    rw [genRest_cons_append]
    refine run_bind (run_opCode follows labels stands.err holds (fun v m₀ m₁ holds pushed => ?_) few₁) fun v m₁ holds =>
      genRest_runs follows rest _ conforms₂ stands₂ r12 r14 few₂ holds
    have above := holds.above.trans pushed
    exact gen_runs follows operand _ conforms₁ stands₁ (above.r12.trans r12) (above.r14.trans r14) le_rfl

end

end Myctk.Ssexpr2
