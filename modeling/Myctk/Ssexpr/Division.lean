import Myctk.Lib.Traversal
import Myctk.Ssexpr.Interpreter
import Myctk.Ssexpr2.Division

/-! Divisions: where the evaluation of a tree ends the process. -/

namespace Myctk.Ssexpr
open Lib Ssexpr2 Option

def Undivided : Optoken → Value → Value → Prop
  | .divide, .int64 l, .int64 r => NoQuotient l r
  | _, _, _ => False

lemma calcVisitor_eq_none {op : Optoken} {left right : Value} : calcVisitor op left right = none ↔ Undivided op left right := by
  cases op with
  | divide =>
    cases left with
    | int64 l =>
      cases right with
      | int64 r => simp [calcVisitor, arithmetic, Undivided, dividing_eq_none]
      | _ => simp [calcVisitor, arithmetic, Undivided]
    | double l => cases right <;> simp [calcVisitor, arithmetic, Undivided]
    | _ => simp [calcVisitor, arithmetic, Undivided]
  | plus | minus | times =>
    cases left with
    | int64 l => cases right <;> simp [calcVisitor, arithmetic, Undivided]
    | double l => cases right <;> simp [calcVisitor, arithmetic, Undivided]
    | _ => simp [calcVisitor, arithmetic, Undivided]
  | _ => simp [calcVisitor, Undivided]

def EvalContext.Return (ctx : EvalContext) : Prop :=
  ∀ func functor, ctx.functions func = some functor → ∀ args, (functor args).isSome

section
variable (ctx : EvalContext)

mutual

def Operand.Divides : Operand → Prop
  | .funcCall func args => (ctx.functions func).isSome ∧ args.Divides
  | .unary _ operand => operand.Divides
  | .condExpr lhs rhsTrue rhsFalse =>
    lhs.Divides ∨ (interpret ctx lhs = some (.bool true) ∧ rhsTrue.Divides) ∨
      (interpret ctx lhs = some (.bool false) ∧ rhsFalse.Divides)
  | .expression first rest => first.Divides ∨ ∃ v, interpret ctx first = some v ∧ rest.Divides v
  | _ => False

def Operands.Divides : Operands → Prop
  | .nil => False
  | .cons arg args => arg.Divides ∨ ∃ v, interpret ctx arg = some v ∧ args.Divides

def Operations.Divides : Operations → Value → Prop
  | .nil, _ => False
  | .cons op operand rest, state =>
    (¬ settles op state ∧ (operand.Divides ∨ ∃ v, interpret ctx operand = some v ∧ Undivided op state v)) ∨
      ∃ state', operate op state (interpret ctx operand) = some state' ∧ rest.Divides state'

end

end

section
variable {ctx : EvalContext}

lemma operate_eq_none {op : Optoken} {lhs : Value} {rhs : Option Value} :
    operate op lhs rhs = none ↔ ¬ settles op lhs ∧ (rhs = none ∨ ∃ v, rhs = some v ∧ Undivided op lhs v) := by
  unfold operate
  split
  next short => simp [short]
  next long =>
    rw [bind_eq_none_or, and_iff_right long]
    simp [calcVisitor_eq_none]

mutual

theorem interpret_eq_none (returns : ctx.Return) (e : Operand) : interpret ctx e = none ↔ e.Divides ctx := by
  match e with
  | .int64 _ | .double _ | .bool _ | .string _ => simp [interpret, Operand.Divides]
  | .variable v =>
    rw [interpret]
    cases ctx.structVisitor <;> simp [Operand.Divides]
  | .dynamicVariable v =>
    rw [interpret]
    cases ctx.dynamicVarAccess <;> simp [Operand.Divides]
  | .funcCall func args =>
    rw [interpret, Operand.Divides]
    cases found : ctx.functions func with
    | none => simp
    | some functor =>
      have later (vs : List Value) : functor vs ≠ none := isSome_iff_ne_none.mp (returns func functor found vs)
      simp only [bind_eq_none_or, later, and_false, exists_false, or_false, interpretArgs_eq_none returns args,
        isSome_some, true_and]
  | .unary op operand => rw [interpret, map_eq_none_iff, interpret_eq_none returns operand, Operand.Divides]
  | .condExpr lhs rhsTrue rhsFalse =>
    rw [interpret, Operand.Divides, ← interpret_eq_none returns lhs, ← interpret_eq_none returns rhsTrue,
      ← interpret_eq_none returns rhsFalse]
    cases interpret ctx lhs with
    | none => simp
    | some v =>
      cases v with
      | bool test => cases test <;> simp
      | _ => simp
  | .expression first rest =>
    rw [interpret, bind_eq_none_or, interpret_eq_none returns first, Operand.Divides]
    exact or_congr_right (exists_congr fun v => and_congr_right fun _ => interpretRest_eq_none returns rest v)

theorem interpretArgs_eq_none (returns : ctx.Return) (args : Operands) : interpretArgs ctx args = none ↔ args.Divides ctx := by
  match args with
  | .nil => simp [interpretArgs, Operands.Divides]
  | .cons arg args =>
    rw [interpretArgs, bind_eq_none_or, interpret_eq_none returns arg, Operands.Divides]
    simp [interpretArgs_eq_none returns args]

theorem interpretRest_eq_none (returns : ctx.Return) (rest : Operations) (state : Value) :
    interpretRest ctx rest state = none ↔ rest.Divides ctx state := by
  match rest with
  | .nil => simp [interpretRest, Operations.Divides]
  | .cons op operand rest =>
    rw [interpretRest, bind_eq_none_or, operate_eq_none, interpret_eq_none returns operand, Operations.Divides]
    simp [interpretRest_eq_none returns rest]

end

end

end Myctk.Ssexpr
