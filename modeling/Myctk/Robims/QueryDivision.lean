import Myctk.Robims.Query
import Myctk.Ssexpr.Division
import Myctk.Ssexpr2.Resolve

/-! Divisions: where the evaluation of a query ends the process. -/

namespace Myctk.Robims
open Option Lib Operand

def Undivided {β : Type} : Optoken → QueryValue β → QueryValue β → Prop
  | .divide, .int a, .int b => b = 0 ∨ (a = -2 ^ 63 ∧ b = -1)
  | _, _, _ => False

section
variable (deref : FieldRef → Option (Bitmap × Index))

mutual

def Operand.Divides : Operand → Prop
  | .unary _ operand => operand.Divides
  | .cond lhs rhsTrue rhsFalse =>
    lhs.Divides ∨ (lhs.eval (setMachine deref) = some (.bool true) ∧ rhsTrue.Divides) ∨
      (lhs.eval (setMachine deref) = some (.bool false) ∧ rhsFalse.Divides)
  | .expression first rest => first.Divides ∨ ∃ v, first.eval (setMachine deref) = some v ∧ rest.Divides v
  | _ => False

def Operations.Divides : Operations → QueryValue Bitmap → Prop
  | .nil, _ => False
  | .cons op operand rest, state =>
    operand.Divides ∨ ∃ v, operand.eval (setMachine deref) = some v ∧
      (Undivided op state v ∨ ∃ state', queryCalc (setMachine deref) op state v = some state' ∧ rest.Divides state')

end

end

section
variable {deref : FieldRef → Option (Bitmap × Index)} {op : Optoken} {left right : QueryValue Bitmap}

lemma calcArithmetic_eq_none : calcArithmetic (setMachine deref) op left right = none ↔ Undivided op left right := by
  cases left with
  | int a =>
    cases right with
    | int b =>
      cases op with
      | divide =>
        rw [calcArithmetic, Undivided, divideInts]
        split
        next bad => exact iff_of_true rfl bad
        next good => exact iff_of_false (some_ne_none _) good
      | _ => simp [calcArithmetic, Undivided]
    | _ => simp [calcArithmetic, Undivided]
  | double a => cases right <;> simp [calcArithmetic, Undivided]
  | _ => simp [calcArithmetic, Undivided]

lemma calcSelect_isSome (valid : ∀ f, (deref f).isSome) (c : Comparison) (side : String) (f : FieldRef) (direct : FieldOperator)
    (operand : QueryValue Bitmap) : (calcSelect (setMachine deref) c side f direct operand).isSome := by
  unfold calcSelect
  cases fieldArg c.strings operand with
  | none => rfl
  | some arg =>
    obtain ⟨⟨table, index⟩, found⟩ := isSome_iff_exists.mp (valid f)
    cases selected : index.select table direct arg <;> simp [setMachine, found, selected]

lemma calcCompare_isSome (valid : ∀ f, (deref f).isSome) (c : Comparison) : (calcCompare (setMachine deref) c left right).isSome := by
  unfold calcCompare
  split
  · rfl
  · split
    · exact calcSelect_isSome valid c _ _ _ _
    · exact calcSelect_isSome valid c _ _ _ _
    · rfl

lemma calcLogical_isSome (name : String) (bools : Bool → Bool → Bool) {bitmaps : Bitmap → Bitmap → Option Bitmap}
    (total : ∀ a b, (bitmaps a b).isSome) : (calcLogical name bools bitmaps left right).isSome := by
  unfold calcLogical
  split
  · rfl
  next a b =>
    obtain ⟨c, joined⟩ := isSome_iff_exists.mp (total a b)
    simp [joined]
  · rfl

lemma queryCalc_eq_none (valid : ∀ f, (deref f).isSome) :
    queryCalc (setMachine deref) op left right = none ↔ Undivided op left right := by
  have returns {x : Option (QueryValue Bitmap)} (some : x.isSome) : x = none ↔ False :=
    iff_of_false (isSome_iff_ne_none.mp some) id
  cases op with
  | plus | minus | times | divide => rw [queryCalc, calcArithmetic_eq_none]
  | and => exact returns (calcLogical_isSome "AND" Bool.and fun _ _ => rfl)
  | or => exact returns (calcLogical_isSome "OR" Bool.or fun _ _ => rfl)
  | equal | notEqual | less | lessEqual | greater | greaterEqual => exact returns (calcCompare_isSome valid _)
  | positive | negative | andNot => exact returns rfl

lemma applyUnary_isSome (v : QueryValue Bitmap) : (applyUnary (setMachine deref) op v).isSome := by
  unfold applyUnary
  split <;> simp [dropValue_set]

mutual

theorem Operand.eval_eq_none (valid : ∀ f, (deref f).isSome) (e : Operand) :
    e.eval (setMachine deref) = none ↔ e.Divides deref := by
  match e with
  | .nil | .int _ | .double _ | .bool _ | .str _ | .dynamicVar _ | .func _ _ => simp [eval, Divides]
  | .var _ field => cases field <;> simp [eval, Divides]
  | .unary op operand =>
    rw [eval, bind_eq_bind, bind_eq_none_or, operand.eval_eq_none valid, Divides]
    refine or_iff_left ?_
    rintro ⟨v, -, fails⟩
    exact isSome_iff_ne_none.mp (applyUnary_isSome v) fails
  | .cond lhs rhsTrue rhsFalse =>
    rw [eval, Divides, ← lhs.eval_eq_none valid, ← rhsTrue.eval_eq_none valid, ← rhsFalse.eval_eq_none valid]
    cases lhs.eval (setMachine deref) with
    | none => simp
    | some v =>
      cases v with
      | bool test => cases test <;> simp
      | _ => simp
  | .expression first rest =>
    rw [eval, bind_eq_bind, bind_eq_none_or, first.eval_eq_none valid, Divides]
    exact or_congr_right (exists_congr fun v => and_congr_right fun _ => rest.eval_eq_none valid v)

theorem Operations.eval_eq_none (valid : ∀ f, (deref f).isSome) (rest : Operations) (state : QueryValue Bitmap) :
    rest.eval (setMachine deref) state = none ↔ rest.Divides deref state := by
  match rest with
  | .nil => simp [Operations.eval, Operations.Divides]
  | .cons op operand rest =>
    rw [Operations.eval, bind_eq_bind, bind_eq_none_or, operand.eval_eq_none valid, Operations.Divides]
    refine or_congr_right (exists_congr fun v => and_congr_right fun _ => ?_)
    rw [bind_eq_none_or, operate_set, queryCalc_eq_none valid]
    simp [rest.eval_eq_none valid]

end

end

/-- In the three languages an evaluation ends the process exactly where it comes to a division or a remainder of two integers that
    do not have one, given that the fields are there and the functions it calls return. -/
theorem evaluation_ends_iff {ω : Type} (deref : FieldRef → Option (Bitmap × Index)) (valid : ∀ f, (deref f).isSome) (q : Operand)
    (ctx : Ssexpr.EvalContext) (returns : ctx.Return) (e : Ssexpr.Operand)
    (memory : ω → Ssexpr2.Memory) (c : Ssexpr2.Callees ω) (returns' : c.Return) (obj evalCtx : Ssexpr2.Word) (e' : Ssexpr2.Operand)
    (w : ω) :
    (q.eval (setMachine deref) = none ↔ q.Divides deref) ∧
    (Ssexpr.interpret ctx e = none ↔ e.Divides ctx) ∧
    (Ssexpr2.eval memory c obj evalCtx e' w = some .trapped ↔ e'.Divides memory c obj evalCtx w) :=
  ⟨q.eval_eq_none valid, Ssexpr.interpret_eq_none returns e, Ssexpr2.eval_eq_trapped returns' e' w⟩

/-! The expression `1 / 0`, with no names in it. -/

def oneOverZero : Operand := .expression (.int 1) (.cons .divide (.int 0) .nil)

def oneOverZeroTree : Ssexpr.Operand := .expression (.int64 1) (.cons .divide (.int64 0) .nil)

def oneOverZeroResolved : Ssexpr2.Operand := .expression (.int64 1) (.cons .divide (.int64 0) .nil)

def nullary : Ssexpr2.Callees Unit where
  takes _ _ := False
  functions _ _ w := some (.err 0, w)
  isMember _ _ := False
  members _ _ _ w := some (0, w)
  vars _ _ _ := none
  deref _ _ := none

theorem evaluation_ends_iff_oneOverZero :
    oneOverZero.Divides (fun _ => some (∅, .set [])) ∧ oneOverZeroTree.Divides ⟨none, none, fun _ => none⟩ ∧
      oneOverZeroResolved.Divides (fun _ => Ssexpr2.sampleMemory) nullary 0 0 () := by
  have ends := evaluation_ends_iff (fun _ => some (∅, .set [])) (fun _ => rfl) oneOverZero ⟨none, none, fun _ => none⟩
    (fun _ _ found => by cases found) oneOverZeroTree (fun _ => Ssexpr2.sampleMemory) nullary ⟨fun _ _ _ => rfl, fun _ _ _ _ => rfl⟩ 0 0
    oneOverZeroResolved ()
  exact ⟨ends.1.mp rfl, ends.2.1.mp rfl, ends.2.2.mp rfl⟩

theorem oneOverZero_accepted_ends :
    (oneOverZero.init ⟨fun _ => none, fun _ _ => none⟩).isOk = true ∧ oneOverZero.eval (setMachine fun _ => none) = none ∧
    Ssexpr.initOperand ⟨fun _ => none, none, none⟩ oneOverZeroTree = 0 ∧
    Ssexpr.interpret ⟨none, none, fun _ => none⟩ oneOverZeroTree = none ∧
    Ssexpr2.Resolves ⟨fun _ => none, fun _ => none⟩ Ssexpr2.sampleMemory oneOverZeroTree oneOverZeroResolved ∧
    (Ssexpr2.init ⟨1, 2, 3, 4⟩ ⟨4096, by decide⟩ oneOverZeroResolved).isSome = true ∧
    Ssexpr2.eval (fun _ => Ssexpr2.sampleMemory) nullary 0 0 oneOverZeroResolved () = some .trapped :=
  ⟨rfl, rfl, rfl, rfl, .expression (.int64 1) (.cons (.int64 0) .nil), rfl, rfl⟩

end Myctk.Robims
