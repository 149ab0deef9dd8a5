import Myctk.Ssexpr2.Eval

/-! What the pieces of generated code do: each takes the machine from one evaluation to the next. -/

namespace Myctk.Ssexpr2

open Value List Function Lib Machine Instr Option Eval
open BitVec hiding append_assoc cast cons cons_append

variable {ω α β : Type}

namespace Value

def words (v : Value) : List Word := [v.second, v.val]

@[simp] lemma setWidth_second (v : Value) : v.second.setWidth 32 = v.type := by
  apply eq_of_toNat_eq
  simp only [second, toNat_setWidth, toNat_ofNat]
  omega

lemma second_mk_zero (x : Word) (type : BitVec 32) : second ⟨x, type, 0⟩ = type.setWidth 64 := by
  apply eq_of_toNat_eq
  simp [second]

lemma second_ofWords (x y : Word) : (ofWords x y).second = y := by
  apply eq_of_toNat_eq
  simp only [ofWords, second, toNat_setWidth, toNat_ofNat]
  omega

lemma ofWords_second (v : Value) : ofWords v.val v.second = v := by
  obtain ⟨val, type, len⟩ := v
  have len' : BitVec.ofNat 32 ((second ⟨val, type, len⟩).toNat / 2 ^ 32) = len := by
    apply eq_of_toNat_eq
    simp only [second, toNat_ofNat]
    omega
  rw [ofWords, setWidth_second, len']

end Value

/-- `m'` has what `m` had, and above it the values `held`, the last one in front, which `r13` counts. -/
structure Machine.Above (m : Machine ω) (held : List Value) (m' : Machine ω) : Prop where
  stack : m'.stack = held.flatMap Value.words ++ m.stack
  r13 : m'.reg .r13 = m.reg .r13 + .ofNat _ held.length
  saved : ∀ r : Reg, r.calleeSaved → r ≠ .r13 → m'.reg r = m.reg r

namespace Machine.Above
variable {m m' m'' : Machine ω} {held held' : List Value}

lemma refl (m : Machine ω) : m.Above [] m := ⟨rfl, by simp, fun _ _ _ => rfl⟩

lemma trans (first : m.Above held m') (second : m'.Above held' m'') : m.Above (held' ++ held) m'' where
  stack := by rw [second.stack, first.stack, flatMap_append, append_assoc]
  r13 := by
    rw [second.r13, first.r13, length_append, ofNat_add]
    ac_rfl
  saved r saved other := (second.saved r saved other).trans (first.saved r saved other)

section
variable (above : m.Above held m')
include above

lemma r12 : m'.reg .r12 = m.reg .r12 := above.saved .r12 rfl (by decide)

lemma r14 : m'.reg .r14 = m.reg .r14 := above.saved .r14 rfl (by decide)

lemma congr (stack : m''.stack = m'.stack) (saved : ∀ r : Reg, r.calleeSaved → m''.reg r = m'.reg r) : m.Above held m'' where
  stack := stack.trans above.stack
  r13 := (saved .r13 rfl).trans above.r13
  saved r here other := (saved r here).trans (above.saved r here other)

lemma set {r : Reg} (scratch : r.calleeSaved = false) (x : Word) : m.Above held (m'.set r x) :=
  above.congr rfl fun q here => by
    refine update_of_ne ?_ _ _
    rintro rfl
    rw [scratch] at here
    cases here

lemma setFlag {r : Reg} (scratch : r.calleeSaved = false) (x : Word) : m.Above held (m'.setFlag r x) :=
  (above.set scratch x).congr rfl fun _ _ => rfl

lemma flag (zf : Bool) : m.Above held { m' with zf } := above.congr rfl fun _ _ => rfl

end

end Machine.Above

/-- `m'` is `m` again, with a value in `rax` and `rdx`. -/
structure Machine.Holds (m : Machine ω) (v : Value) (m' : Machine ω) : Prop where
  above : m.Above [] m'
  rax : m'.reg .rax = v.val
  rdx : m'.reg .rdx = v.second

/-- How the code of an evaluation ends: at the code after it, at the error exit with at most `n` values pushed, or in
    a call that does not return. -/
inductive Ends (m : Machine ω) (n : Nat) (err rest : List Instr) (ok : α → Machine ω → Prop) :
    Option (Outcome α ω) → Status ω → Prop
  | value {a : α} {m' : Machine ω} (holds : ok a m') : Ends m n err rest ok (some (.value a m'.world)) (.running rest m')
  | aborted {held : List Value} {m' : Machine ω} (above : m.Above held m') (few : held.length ≤ n)
      (code : m'.reg .r10 = errInvalidOperandType) : Ends m n err rest ok (some (.aborted m'.world)) (.running err m')
  | trapped : Ends m n err rest ok (some .trapped) .trapped
  | unknown (s : Status ω) : Ends m n err rest ok none s

/-- The code gets there. -/
abbrev Gets (out : Outside ω) (prog : List Instr) : (Status ω → Prop) → Status ω → Prop := Eventually (step out prog)

variable {out : Outside ω} {prog err rest rest' : List Instr} {m m' : Machine ω} {s : Status ω} {n n' : Nat}
  {P : Status ω → Prop} {ok ok' : α → Machine ω → Prop} {r : Option (Outcome α ω)}

lemma run_above {held : List Value} (run : Gets out prog (Ends m' n' err rest ok r) s) (above : m.Above held m')
    (few : held.length + n' ≤ n) (imp : ∀ a m'', ok a m'' → ok' a m'') : Gets out prog (Ends m n err rest ok' r) s := by
  refine run.mono fun t ends => ?_
  cases ends with
  | value holds => exact .value (imp _ _ holds)
  | aborted above' few' code =>
    exact .aborted (above.trans above') (by rw [length_append]; omega) code
  | trapped => exact .trapped
  | unknown => exact .unknown t

lemma run_after
    (first : Gets out prog (Ends m n err rest ok r) s) (later : ∀ a m', ok a m' →
      Gets out prog (Ends m n err rest' ok' (some (.value a m'.world))) (.running rest m')) :
    Gets out prog (Ends m n err rest' ok' r) s := by
  refine first.bind fun t ends => ?_
  cases ends with
  | value holds => exact later _ _ holds
  | aborted above few code => exact .now (.aborted above few code)
  | trapped => exact .now .trapped
  | unknown => exact .now (.unknown t)

lemma run_bind {x : Eval ω α} {f : α → Eval ω β} {w : ω} {ok' : β → Machine ω → Prop}
    (first : Gets out prog (Ends m n err rest ok (x w)) s) (later : ∀ a m', ok a m' →
      Gets out prog (Ends m n err rest' ok' (f a m'.world)) (.running rest m')) :
    Gets out prog (Ends m n err rest' ok' (x.bind f w)) s := by
  refine first.bind fun t ends => ?_
  unfold Eval.bind
  generalize x w = r at ends
  cases ends with
  | value holds => exact later _ _ holds
  | aborted above few code => exact .now (.aborted above few code)
  | trapped => exact .now .trapped
  | unknown => exact .now (.unknown t)

lemma Machine.Holds.trans {v : Value} {m'' : Machine ω} (first : m.Above [] m') (second : m'.Holds v m'') : m.Holds v m'' :=
  ⟨first.trans second.above, second.rax, second.rdx⟩

lemma run_saveRegisterValue {v : Value} (plain : v.len = 0)
    (later : ∀ m', m.Holds v m' → m'.world = m.world → Gets out prog P (.running rest m')) :
    Gets out prog P (.running (saveRegisterValue v ++ rest) m) := by
  refine .succ (.succ (later ((m.set .rdx (v.type.setWidth 64)).set .rax v.val) ⟨?_, rfl, ?_⟩ rfl))
  · exact ((Above.refl m).set rfl _).set rfl _
  · obtain ⟨val, type, len⟩ := v
    obtain rfl : len = 0 := plain
    rw [second_mk_zero]
    rfl

lemma run_pushRegisters {v : Value} (rax : m.reg .rax = v.val) (rdx : m.reg .rdx = v.second)
    (later : ∀ m', m.Above [v] m' → m'.world = m.world → Gets out prog P (.running rest m')) :
    Gets out prog P (.running (pushRegisters ++ rest) m) := by
  refine .succ (.succ (.succ (later _ ⟨?_, rfl, fun r here other => ?_⟩ rfl)))
  · simp [Machine.setFlag, Machine.set, words, rax, rdx]
  · exact update_of_ne other _ _

structure Machine.Pops (m : Machine ω) (held : List Value) (v : Value) (second first : Reg) (m' m'' : Machine ω) : Prop where
  above : m.Above held m''
  val : m''.reg first = v.val
  type : m''.reg second = v.second
  others : ∀ r : Reg, r.calleeSaved = false → r ≠ first → r ≠ second → m''.reg r = m'.reg r
  world : m''.world = m'.world
  zf : m''.zf = decide (m''.reg .r13 = 0)

lemma run_popPair {v : Value} {held : List Value} {second first : Reg} (above : m.Above (v :: held) m')
    (scratch : second.calleeSaved = false ∧ first.calleeSaved = false) (distinct : second ≠ first)
    (later : ∀ m'', m.Pops held v second first m' m'' → Gets out prog P (.running rest m'')) :
    Gets out prog P (.running (popPair second first ++ rest) m') := by
  obtain ⟨reg, zf, stack, world⟩ := m'
  obtain rfl : stack = v.second :: v.val :: (held.flatMap words ++ m.stack) := above.stack
  let popped : Machine ω := ⟨update (update reg second v.second) first v.val, zf,
    held.flatMap words ++ m.stack, world⟩
  have saved : ∀ r : Reg, r.calleeSaved → popped.reg r = reg r := by
    intro r here
    have notFirst : r ≠ first := by rintro rfl; simp [scratch.2] at here
    have notSecond : r ≠ second := by rintro rfl; simp [scratch.1] at here
    exact (update_of_ne notFirst _ _).trans (update_of_ne notSecond _ _)
  have counter : popped.reg .r13 - 1 = m.reg .r13 + .ofNat _ held.length := by
    rw [saved .r13 rfl, show reg .r13 = _ from above.r13, length_cons, ofNat_add, ← add_assoc]
    exact add_sub_cancel _ _
  have pops : m.Pops held v second first ⟨reg, zf, v.second :: v.val :: (held.flatMap words ++ m.stack), world⟩
      (popped.setFlag .r13 (popped.reg .r13 - 1)) := by
    have other : ∀ r : Reg, r ≠ .r13 → (popped.setFlag .r13 (popped.reg .r13 - 1)).reg r = popped.reg r :=
      fun r other => update_of_ne other _ _
    have notCounter : ∀ r : Reg, r.calleeSaved = false → r ≠ .r13 := by rintro r scratch rfl; cases scratch
    refine ⟨⟨rfl, counter, fun r here apart => ?_⟩, ?_, ?_, fun r scratch' notFirst notSecond => ?_, rfl, rfl⟩
    · exact (other r apart).trans ((saved r here).trans (above.saved r here apart))
    · exact (other _ (notCounter _ scratch.2)).trans (update_self _ _ _)
    · rw [other _ (notCounter _ scratch.1)]
      exact (update_of_ne distinct _ _).trans (update_self _ _ _)
    · rw [other _ (notCounter _ scratch')]
      exact (update_of_ne notFirst _ _).trans (update_of_ne notSecond _ _)
  exact .succ (.succ (.succ (later _ pops)))

section
variable {h : Helpers} {c : Callees ω} {address : Word} {v : Value} {w : ω}

lemma run_call_some {reg : Reg → Word} {zf : Bool} (called : out.call (m.reg .rax) m.reg m.stack m.world = some (reg, zf, w))
    (later : Gets out prog P (.running rest ⟨reg, zf, m.stack, w⟩)) : Gets out prog P (.running (.call .rax :: rest) m) := by
  refine .succ ?_
  simp only [step, exec, called]
  exact later

lemma run_call (follows : out.Follows h c) (rax : m.reg .rax = address)
    (returns : out.returns address m.reg m.stack m.world = some (v, w))
    (later : ∀ m', m.Holds v m' → m'.world = w → Gets out prog P (.running rest m')) :
    Gets out prog P (.running (.call .rax :: rest) m) := by
  obtain ⟨⟨reg, zf, w'⟩, called, same⟩ := map_eq_some_iff.mp returns
  obtain ⟨rfl, rfl⟩ := Prod.mk.inj same
  subst rax
  refine run_call_some called (later _ ⟨⟨rfl, ?_, fun r here _ => follows.saved _ _ _ _ _ _ _ called r here⟩, rfl, ?_⟩ rfl)
  · simpa using follows.saved _ _ _ _ _ _ _ called .r13 rfl
  · exact (second_ofWords _ _).symm

lemma run_call_trapped (rax : m.reg .rax = address) (traps : out.returns address m.reg m.stack m.world = none)
    (ends : P .trapped) : Gets out prog P (.running (.call .rax :: rest) m) := by
  refine .succ (.now ?_)
  simp only [step, exec, rax, map_eq_none_iff.mp traps]
  exact ends

lemma run_ofCall (follows : out.Follows h c) (rax : m.reg .rax = address) {f : ω → Option (Value × ω)}
    (returns : out.returns address m.reg m.stack m.world = f m.world) {m0 : Machine ω} (above : m0.Above [] m) :
    Gets out prog (Ends m0 n err rest m0.Holds (ofCall f m.world)) (.running (.call .rax :: rest) m) := by
  unfold ofCall
  rcases result : f m.world with _ | ⟨v, w⟩
  · exact run_call_trapped rax (returns.trans result) .trapped
  · refine run_call follows rax (returns.trans result) fun m' holds world => .now ?_
    subst world
    exact .value (.trans above holds)

lemma run_callUnary (follows : out.Follows h c) (holds : m.Holds v m') {f : Value}
    (returns : ∀ reg stack, Passes reg [v] → out.returns address reg stack m'.world = some (f, m'.world)) :
    Gets out prog (Ends m n err rest m.Holds (some (.value f m'.world))) (.running (callUnary address ++ rest) m') := by
  refine .succ (.succ (.succ ?_))
  let m'' := ((m'.set .rdi (m'.reg .rax)).set .rsi (m'.reg .rdx)).set .rax address
  have above : m.Above [] m'' := ((holds.above.set rfl _).set rfl _).set rfl _
  exact run_ofCall (f := fun w => some (f, w)) follows (m := m'') rfl (returns _ _ ⟨holds.rax, holds.rdx⟩) above

lemma run_callPair (follows : out.Follows h c) {left right : Value} (op : Optoken) (above : m.Above [left] m')
    (rax : m'.reg .rax = right.val) (rdx : m'.reg .rdx = right.second) :
    Gets out prog (Ends m n err rest m.Holds (evalPair out.memory op left right m'.world)) (.running (callPair h op ++ rest) m') := by
  simp only [callPair, append_assoc]
  let saved := (m'.set .r11 (m'.reg .rdx)).set .r10 (m'.reg .rax)
  have above' : m.Above [left] saved := (above.set rfl _).set rfl _
  refine .succ (.succ (run_popPair above' ⟨rfl, rfl⟩ (by decide) fun popped pops => ?_))
  refine .succ (.succ (.succ (.succ (.succ (.succ ?_)))))
  let ready := (((((popped.set .rdi (popped.reg .rax)).set .rsi (popped.reg .rdx)).set .rdx (popped.reg .r10)).set .rcx
    (popped.reg .r11)).set .r8 (.ofNat _ op.number)).set .rax h.calcPairValue
  have aboveReady : m.Above [] ready := (((((pops.above.set rfl _).set rfl _).set rfl _).set rfl _).set rfl _).set rfl _
  have passes : Passes ready.reg [left, right] :=
    ⟨pops.val, pops.type, (pops.others .r10 rfl (by decide) (by decide)).trans rax,
      (pops.others .r11 rfl (by decide) (by decide)).trans rdx⟩
  have same : ready.world = m'.world := pops.world
  rw [evalPair, ← same]
  exact run_ofCall (f := fun w => (calcPairValue (out.memory w) left right op).map (·, w)) follows (m := ready) rfl
    (follows.calcPairValue _ _ _ left right op passes rfl) aboveReady

/-- The object at an address is in `rax` and `rdi`, with its type in `rdx`. -/
structure Machine.At (m : Machine ω) (v : Value) (m' : Machine ω) : Prop extends m.Holds v m' where
  rdi : m'.reg .rdi = v.val

lemma run_access (follows : out.Follows h c) {access : Access} (conforms : access.Conforms c) {obj : Word}
    (above : m.Above [] m') (rax : m'.reg .rax = obj) (rdi : m'.reg .rdi = obj) :
    Gets out prog (Ends m n err rest m.At (evalAccess out.memory c obj access m'.world)) (.running (access.code ++ rest) m') := by
  subst rax
  cases access with
  | embedded vtype offset =>
    let m'' := ((m'.set .rdx (vtype.setWidth 64)).setFlag .rax (m'.reg .rax + offset)).set .rdi (m'.reg .rax + offset)
    have at'' : m.At ⟨m'.reg .rax + offset, vtype, 0⟩ m'' :=
      ⟨⟨((above.set rfl _).setFlag rfl _).set rfl _, rfl, (second_mk_zero _ _).symm⟩, rfl⟩
    exact .succ (.succ (.succ (.now (.value at''))))
  | pointer vtype offset =>
    let x : Word := .ofNat _ ((out.memory m'.world).read 8 (m'.reg .rax + offset))
    let m'' := (((m'.set .rdx (vtype.setWidth 64)).setFlag .rax (m'.reg .rax + offset)).set .rax x).set .rdi x
    have at'' : m.At ⟨x, vtype, 0⟩ m'' :=
      ⟨⟨(((above.set rfl _).setFlag rfl _).set rfl _).set rfl _, rfl, (second_mk_zero _ _).symm⟩, rfl⟩
    exact .succ (.succ (.succ (.succ (.now (.value at'')))))
  | function vtype address =>
    let called := m'.set .rax address
    have member := follows.members address vtype conforms called.reg m'.stack m'.world
    rw [show called.reg .rdi = m'.reg .rax from rdi] at member
    let result := if vtype = vDoubleValue ∨ vtype = vFloatValue then [mov .rax .xmm0, .mov .rdi .xmm0]
      else [.mov .rdi .rax]
    rw [evalAccess, ofCall, ← member]
    refine .succ ?_
    rcases returned : out.call address called.reg m'.stack m'.world with _ | ⟨reg, zf, w⟩
    · exact run_call_trapped rfl (map_eq_none_iff.mpr returned) .trapped
    · let m1 : Machine ω := (mk reg zf m'.stack w).set .rdx (vtype.setWidth 64)
      have back : m.Above [] (mk reg zf m'.stack w) :=
        (above.set (r := .rax) rfl address).congr rfl (follows.saved _ _ _ _ _ _ _ returned)
      have above1 : m.Above [] m1 := back.set rfl _
      refine run_call_some returned (.succ ?_)
      show Gets _ _ _ (Status.running (result ++ rest) m1)
      simp only [result, map_some]
      split
      · have at'' : m.At ⟨reg .xmm0, vtype, 0⟩ ((m1.set .rax (reg .xmm0)).set .rdi (reg .xmm0)) :=
          ⟨⟨(above1.set rfl _).set rfl _, rfl, (second_mk_zero _ _).symm⟩, rfl⟩
        exact .succ (.succ (.now (.value at'')))
      · have at'' : m.At ⟨reg .rax, vtype, 0⟩ (m1.set .rdi (reg .rax)) :=
          ⟨⟨above1.set rfl _, rfl, (second_mk_zero _ _).symm⟩, rfl⟩
        exact .succ (.now (.value at''))

lemma run_accesses (follows : out.Follows h c) (accesses : List Access) (conforms : ∀ a ∈ accesses, a.Conforms c)
    (here : m.At v m') : Gets out prog (Ends m n err rest m.Holds (evalAccesses out.memory c accesses v m'.world))
      (.running (accesses.flatMap Access.code ++ rest) m') := by
  induction accesses generalizing v m' with
  | nil => exact .now (.value here.toHolds)
  | cons access accesses ih =>
    rw [flatMap_cons, append_assoc]
    exact run_bind (run_access follows (conforms access mem_cons_self) here.above here.rax here.rdi)
      fun v m'' there => ih (fun a member => conforms a (mem_cons_of_mem _ member)) there

end

lemma Machine.jump_eq {l : Label} {code : List Instr} (there : codeAfter label? l prog = some code) :
    jump prog l m = .running code m := by
  simp only [jump, there]

/-- A tested operand: `rax` holds it as a bool by value, and the flag tells whether it is zero. -/
structure Machine.Tested (m : Machine ω) (v : Value) (m' : Machine ω) : Prop extends m.Holds v m' where
  zf : m'.zf = decide (v.val = 0)

lemma run_testOperand {h : Helpers} {c : Callees ω} {v : Value} (follows : out.Follows h c) (holds : m.Holds v m')
    {ptr value : Label} (ptrAt : codeAfter label? ptr prog =
      some (.movImm .rdx (vBoolValue.setWidth 64) :: .load .rax .rax :: .label value :: .cmp .rax 0 :: rest))
    (valueAt : codeAfter label? value prog = some (.cmp .rax 0 :: rest)) (errAt : codeAfter label? .errExit prog = some err) :
    Gets out prog (Ends m n err rest m.Tested (test c v m'.world)) (.running (testOperand ptr value ++ rest) m') := by
  have type : (m'.reg .rdx).setWidth 32 = v.type := by rw [holds.rdx, setWidth_second]
  refine .succ (.succ ?_)
  simp only [testOperand, cons_append, nil_append, step, exec, type]
  by_cases byAddress : v.type = vBool
  · rw [test, if_pos byAddress, decide_eq_true byAddress, if_pos rfl, jump_eq ptrAt]
    rcases found : c.deref m'.world v.val with _ | x
    · exact .now (.unknown _)
    · have word : .ofNat _ ((out.memory m'.world).read 8 (m'.reg .rax)) = x := by
        rw [holds.rax, follows.deref _ _ _ found]
      let loaded := ((mk m'.reg true m'.stack m'.world).set .rdx (vBoolValue.setWidth 64)).set .rax x
      have tested : m.Tested ⟨x, vBoolValue, 0⟩ { loaded with zf := x = 0 } :=
        ⟨⟨((((holds.above.flag true).set rfl _).set rfl _).flag _), rfl, (second_mk_zero _ _).symm⟩, rfl⟩
      have run : (step out prog)^[4] (.running (.movImm .rdx (vBoolValue.setWidth 64) :: .load .rax .rax ::
          .label value :: .cmp .rax 0 :: rest) ⟨m'.reg, true, m'.stack, m'.world⟩) =
          .running rest { loaded with zf := x = 0 } := by
        simp only [loaded, ← word]
        rfl
      exact ⟨4, run ▸ .value tested⟩
  · rw [test, if_neg byAddress, decide_eq_false byAddress, if_neg Bool.false_ne_true]
    refine .succ (.succ ?_)
    simp only [step, exec, type]
    by_cases byValue : v.type = vBoolValue
    · rw [if_pos byValue, decide_eq_true byValue, if_pos rfl, jump_eq valueAt]
      have tested : m.Tested v { m' with zf := m'.reg .rax = 0 } :=
        ⟨⟨holds.above.flag _, holds.rax, holds.rdx⟩, by rw [holds.rax]⟩
      exact .succ (.now (.value tested))
    · rw [if_neg byValue, decide_eq_false byValue, if_neg Bool.false_ne_true]
      refine .succ (.succ ?_)
      simp only [step, exec, jump_eq errAt]
      exact .now (.aborted (((holds.above.flag _).flag _).set rfl _) (Nat.zero_le n) rfl)

lemma run_popArgs {vs : List Value} (few : vs.length ≤ 3) (above : m.Above vs.reverse m')
    (later : ∀ m'', m.Above [] m'' → Passes m''.reg vs → m''.world = m'.world → Gets out prog P (.running rest m'')) :
    Gets out prog P (.running (popArgs vs.length ++ rest) m') := by
  match vs, few with
  | [], _ => exact later _ above trivial rfl
  | [a], _ =>
    refine run_popPair above ⟨rfl, rfl⟩ (by decide) fun m1 pop1 => ?_
    exact later _ pop1.above ⟨pop1.val, pop1.type⟩ pop1.world
  | [a, b], _ =>
    refine run_popPair above ⟨rfl, rfl⟩ (by decide) fun m1 pop1 => ?_
    refine run_popPair pop1.above ⟨rfl, rfl⟩ (by decide) fun m2 pop2 => ?_
    refine later _ pop2.above ⟨pop2.val, pop2.type, ?_, ?_⟩ (pop2.world.trans pop1.world)
    · exact (pop2.others .rdx rfl (by decide) (by decide)).trans pop1.val
    · exact (pop2.others .rcx rfl (by decide) (by decide)).trans pop1.type
  | [a, b, c], _ =>
    refine run_popPair above ⟨rfl, rfl⟩ (by decide) fun m1 pop1 => ?_
    refine run_popPair pop1.above ⟨rfl, rfl⟩ (by decide) fun m2 pop2 => ?_
    refine run_popPair pop2.above ⟨rfl, rfl⟩ (by decide) fun m3 pop3 => ?_
    refine later _ pop3.above ⟨pop3.val, pop3.type, ?_, ?_, ?_, ?_⟩ (pop3.world.trans (pop2.world.trans pop1.world))
    · exact (pop3.others .rdx rfl (by decide) (by decide)).trans pop2.val
    · exact (pop3.others .rcx rfl (by decide) (by decide)).trans pop2.type
    · exact (pop3.others .r8 rfl (by decide) (by decide)).trans
        ((pop2.others .r8 rfl (by decide) (by decide)).trans pop1.val)
    · exact (pop3.others .r9 rfl (by decide) (by decide)).trans
        ((pop2.others .r9 rfl (by decide) (by decide)).trans pop1.type)

end Myctk.Ssexpr2
