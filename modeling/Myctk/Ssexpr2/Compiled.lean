import Myctk.Ssexpr2.CodeGenSound

/-! Compiled expressions: called as a function, the code returns the value of the expression and gives back the stack and
    the registers as it found them. -/

namespace Myctk.Ssexpr2

open Lib Value Function Machine Instr

variable {ω : Type} {out : Outside ω} {h : Helpers} {c : Callees ω} {prog : List Instr} {m m₀ m' : Machine ω} {e : Operand}
  {v : Value} {address : Word} {stack : List Word} {P : Status ω → Prop}

/-- The caller gets a value: `m` is the machine before the call and `m'` the one after it. -/
structure Machine.Back (m : Machine ω) (stack : List Word) (v : Value) (m' : Machine ω) : Prop where
  stack : m'.stack = stack
  saved : ∀ r : Reg, r.calleeSaved → m'.reg r = m.reg r
  rax : m'.reg .rax = v.val
  rdx : m'.reg .rdx = v.second

inductive Returns (m : Machine ω) (address : Word) (stack : List Word) : Outcome Value ω → Status ω → Prop
  | value {v : Value} {m' : Machine ω} (back : m.Back stack v m') :
    Returns m address stack (.value v m'.world) (.returned address m')
  | aborted {m' : Machine ω} (back : m.Back stack (.err errInvalidOperandType) m') :
    Returns m address stack (.aborted m'.world) (.returned address m')
  | trapped : Returns m address stack .trapped .trapped

structure Machine.Entered (m m₀ : Machine ω) : Prop where
  stack : m₀.stack = m.reg .r15 :: m.reg .r14 :: m.reg .r13 :: m.reg .r12 :: m.reg .rbp :: m.stack
  rbx : m₀.reg .rbx = m.reg .rbx
  r12 : m₀.reg .r12 = m.reg .rdi
  r13 : m₀.reg .r13 = 0
  r14 : m₀.reg .r14 = m.reg .rsi
  world : m₀.world = m.world

lemma run_prologue {rest : List Instr} (later : ∀ m₀, m.Entered m₀ → Gets out prog P (.running rest m₀)) :
    Gets out prog P (.running (prologue ++ rest) m) :=
  .succ (.succ (.succ (.succ (.succ (.succ (.succ (.succ (later _ ⟨rfl, rfl, rfl, rfl, rfl, rfl⟩))))))))

lemma run_epilogue (called : m.stack = address :: stack) (entered : m.Entered m₀) (holds : m₀.Holds v m')
    (later : ∀ m'', m.Back stack v m'' → m''.world = m'.world → P (.returned address m'')) :
    Gets out prog P (.running epilogue m') := by
  obtain ⟨reg, zf, stack', world⟩ := m'
  obtain rfl : stack' = m.reg .r15 :: m.reg .r14 :: m.reg .r13 :: m.reg .r12 :: m.reg .rbp :: address :: stack := by
    rw [← called, ← entered.stack]
    exact holds.above.stack
  refine .succ (.succ (.succ (.succ (.succ (.succ (.now (later _ ⟨rfl, fun r here => ?_, holds.rax, holds.rdx⟩ rfl)))))))
  cases r with
  | rbx => exact (holds.above.saved .rbx rfl (by decide)).trans entered.rbx
  | rbp | r12 | r13 | r14 | r15 => rfl
  | _ => cases here

section
variable {rest : List Instr}

def finalErrExit (rest : List Instr) : List Instr := .mov .rax .r10 :: .movImm .rdx 0 :: rest

def errExitLoop (rest : List Instr) : List Instr :=
  popValue ++ (.jne .errExitLoop :: .label .finalErrExit :: finalErrExit rest)

lemma errExit_append : errExit ++ rest = .cmp .r13 0 :: .je .finalErrExit :: .label .errExitLoop :: errExitLoop rest := rfl

lemma run_finalErrExit (above : m₀.Above [] m') (code : m'.reg .r10 = errInvalidOperandType)
    (later : ∀ m'', m₀.Holds (.err errInvalidOperandType) m'' → m''.world = m'.world → Gets out prog P (.running rest m'')) :
    Gets out prog P (.running (finalErrExit rest) m') := by
  refine .succ (.succ (later ((m'.set .rax (m'.reg .r10)).set .rdx 0) ⟨?_, code, rfl⟩ rfl))
  exact (above.set rfl _).set rfl _

lemma Machine.Above.r13_eq_zero {held : List Value} (above : m₀.Above held m') (zero : m₀.reg .r13 = 0)
    (few : held.length < 2 ^ 64) : m'.reg .r13 = 0 ↔ held = [] := by
  rw [above.r13, zero, zero_add, ← BitVec.toNat_inj, BitVec.toNat_ofNat, Nat.mod_eq_of_lt few]
  exact List.length_eq_zero_iff

lemma run_errExitLoop (loopAt : codeAfter label? .errExitLoop prog = some (errExitLoop rest))
    (zero : m₀.reg .r13 = 0) (held : List Value) (v : Value) (above : m₀.Above (v :: held) m')
    (few : held.length < 2 ^ 64) (code : m'.reg .r10 = errInvalidOperandType)
    (later : ∀ m'', m₀.Holds (.err errInvalidOperandType) m'' → m''.world = m'.world → Gets out prog P (.running rest m'')) :
    Gets out prog P (.running (errExitLoop rest) m') := by
  -- each pass pops one of the values that the counter stands for
  induction held generalizing v m' with
  | nil =>
    refine run_popPair above ⟨rfl, rfl⟩ (by decide) fun m1 pops => .succ ?_
    have done : m1.zf = true := by
      rw [pops.zf, decide_eq_true ((pops.above.r13_eq_zero zero few).mpr rfl)]
    have code1 := (pops.others .r10 rfl (by decide) (by decide)).trans code
    simp only [step, exec, done, if_true]
    refine .succ (run_finalErrExit pops.above code1 fun m'' holds world => ?_)
    exact later m'' holds (world.trans pops.world)
  | cons w held ih =>
    refine run_popPair above ⟨rfl, rfl⟩ (by decide) fun m1 pops => .succ ?_
    have more : m1.zf = false := by
      rw [pops.zf, decide_eq_false]
      intro none
      cases (pops.above.r13_eq_zero zero few).mp none
    have code1 := (pops.others .r10 rfl (by decide) (by decide)).trans code
    simp only [step, exec, more, Bool.false_eq_true, if_false, jump_eq loopAt]
    exact ih w pops.above (Nat.lt_of_succ_lt few) code1 fun m'' holds world => later m'' holds (world.trans pops.world)

lemma run_errExit (loopAt : codeAfter label? .errExitLoop prog = some (errExitLoop rest))
    (finalAt : codeAfter label? .finalErrExit prog = some (finalErrExit rest))
    (zero : m₀.reg .r13 = 0) {held : List Value} (above : m₀.Above held m')
    (few : held.length < 2 ^ 64) (code : m'.reg .r10 = errInvalidOperandType)
    (later : ∀ m'', m₀.Holds (.err errInvalidOperandType) m'' → m''.world = m'.world → Gets out prog P (.running rest m'')) :
    Gets out prog P (.running (errExit ++ rest) m') := by
  rw [errExit_append]
  refine .succ (.succ ?_)
  simp only [step, exec, decide_eq_true_eq, above.r13_eq_zero zero few]
  cases held with
  | nil =>
    rw [if_pos rfl, jump_eq finalAt]
    exact run_finalErrExit (above.flag _) code later
  | cons v held =>
    rw [if_neg (List.cons_ne_nil v held)]
    exact .succ (run_errExitLoop loopAt zero held v (above.flag _) (Nat.lt_of_succ_lt few) code later)

end

def exits : List Instr := .jmp .okExit :: .label .errExit :: (errExit ++ (.label .okExit :: epilogue))

lemma compile_eq : compile h e = prologue ++ ((gen h e 0).1 ++ exits) := by
  simp [compile, exits]

lemma codeAfter_compile {l : Label} (unnumbered : l.number = none) : codeAfter label? l (compile h e) = codeAfter label? l exits := by
  have inPrologue : Within 0 0 prologue := within_of_unlabelled (by simp [prologue, label?])
  rw [compile_eq, codeAfter_of_fresh (inPrologue.fresh_of_none unnumbered),
    codeAfter_of_fresh ((gen_numbered h e 0).within.fresh_of_none unnumbered)]

lemma stands_compile (h : Helpers) (e : Operand) :
    Stands (compile h e) (errExit ++ (.label .okExit :: epilogue)) 0 ((gen h e 0).1 ++ exits) where
  after := ⟨prologue, compile_eq, within_of_unlabelled (by simp [prologue, label?])⟩
  err := codeAfter_compile rfl

lemma run_compile (follows : out.Follows h c) (small : size (compile h e) < 2 ^ 64) (conforms : e.Conforms c)
    (called : m.stack = address :: stack) {o : Outcome Value ω}
    (evaluated : eval out.memory c (m.reg .rdi) (m.reg .rsi) e m.world = some o) :
    Eventually (step out (compile h e)) (Returns m address stack o) (.running (compile h e) m) := by
  have small : size (gen h e 0).1 < 2 ^ 64 := by
    simp only [compile, size_append] at small
    omega
  have okAt : codeAfter label? .okExit (compile h e) = some epilogue := codeAfter_compile rfl
  have loopAt : codeAfter label? .errExitLoop (compile h e) = some (errExitLoop (.label .okExit :: epilogue)) :=
    codeAfter_compile rfl
  have finalAt : codeAfter label? .finalErrExit (compile h e) = some (finalErrExit (.label .okExit :: epilogue)) :=
    codeAfter_compile rfl
  nth_rewrite 2 [compile_eq]
  refine run_prologue fun m₀ entered => ?_
  have run := gen_runs follows e 0 conforms (stands_compile h e) entered.r12 entered.r14 le_rfl
  rw [entered.world, evaluated] at run
  refine run.bind fun s ends => ?_
  generalize result : some o = r at ends
  cases ends with
  | value holds =>
    cases result
    refine .succ ?_
    show Gets _ _ _ (jump _ _ _)
    rw [jump_eq okAt]
    refine run_epilogue called entered holds fun m'' back world => ?_
    rw [← world]
    exact .value back
  | aborted above few code =>
    cases result
    refine run_errExit loopAt finalAt entered.r13 above (Nat.lt_of_le_of_lt few small) code fun m1 holds world1 => .succ ?_
    refine run_epilogue called entered holds fun m'' back world => ?_
    rw [← world1, ← world]
    exact .aborted back
  | trapped =>
    cases result
    exact .now .trapped
  | unknown => cases result

def sampleHelpers : Helpers := ⟨1, 2, 3, 4⟩

def sampleCallees : Callees Unit where
  takes address n := address = 5 ∧ n = 1
  functions _ args w := args.head?.map (·, w)
  isMember _ _ := False
  members _ _ _ _ := none
  vars _ _ _ := none
  deref _ _ := none

def sampleOps : List Optoken :=
  [.plus, .minus, .times, .divide, .positive, .negative, .not, .equal, .notEqual, .less, .lessEqual, .greater, .greaterEqual,
    .and, .or, .modulus]

def sampleCall (address : Word) (reg : Reg → Word) : Option Value :=
  let first := Value.ofWords (reg .rdi) (reg .rsi)
  if address = 1 then
    (sampleOps.find? fun op => reg .r8 = .ofNat _ op.number).bind
      (calcPairValue sampleMemory first (.ofWords (reg .rdx) (reg .rcx)))
  else if address = 2 then some (notValue sampleMemory first)
  else if address = 3 then some (negValue first)
  else if address = 4 then some (findVarValue sampleCallees (reg .rdi) (reg .rsi) ())
  else if address = 5 then some first
  else none

def sampleOutside : Outside Unit where
  memory _ := sampleMemory
  call address reg _ w := (sampleCall address reg).map fun v =>
    (update (update reg .rax v.val) .rdx v.second, false, w)

lemma sampleOutside_returns (address : Word) (reg : Reg → Word) (stack : List Word) (w : Unit) :
    sampleOutside.returns address reg stack w = (sampleCall address reg).map (·, w) := by
  simp only [Outside.returns, sampleOutside, Option.map_map]
  congr 1
  funext v
  simp [ofWords_second]

lemma sampleOutside_follows : sampleOutside.Follows sampleHelpers sampleCallees where
  saved address reg stack w reg' zf w' called r here := by
    obtain ⟨v, -, same⟩ := Option.map_eq_some_iff.mp called
    obtain ⟨rfl, -⟩ := Prod.mk.inj same
    have notRax : r ≠ .rax := by rintro rfl; cases here
    have notRdx : r ≠ .rdx := by rintro rfl; cases here
    rw [update_of_ne notRdx, update_of_ne notRax]
  calcPairValue reg stack w left right op passes number := by
    obtain ⟨rdi, rsi, rdx, rcx⟩ := passes
    have found : (sampleOps.find? fun op => reg .r8 = .ofNat _ op.number) = some op := by
      rw [number]
      cases op <;> decide
    rw [sampleOutside_returns, sampleHelpers, sampleCall, if_pos rfl, found, rdi, rsi, rdx, rcx, ofWords_second,
      ofWords_second]
    rfl
  notValue reg stack w v passes := by
    rw [sampleOutside_returns, sampleHelpers, sampleCall, passes.1, passes.2, ofWords_second]
    rfl
  negValue reg stack w v passes := by
    rw [sampleOutside_returns, sampleHelpers, sampleCall, passes.1, passes.2, ofWords_second]
    rfl
  findVarValue reg stack w := sampleOutside_returns _ _ _ _
  functions address args takes reg stack w passes := by
    obtain ⟨rfl, one⟩ := takes
    obtain ⟨v, rfl⟩ := List.length_eq_one_iff.mp one
    rw [sampleOutside_returns, sampleCall, passes.1, passes.2, ofWords_second]
    rfl
  members _ _ none := none.elim
  deref _ _ _ none := nomatch none

/-- `f(true) && !(1 == 2)`. -/
def sampleExpression : Operand :=
  .expression (.funcCall 5 (.cons (.bool true) .nil))
    (.cons .and (.unary .not (.expression (.int64 1) (.cons .equal (.int64 2) .nil))) .nil)

def sampleMachine : Machine Unit := ⟨fun _ => 0, false, [77], ()⟩

end Myctk.Ssexpr2
