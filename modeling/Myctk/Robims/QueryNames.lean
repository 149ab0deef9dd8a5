import Myctk.Lib.Outcome
import Myctk.Robims.QueryGrammar
import Myctk.Ssexpr.Interpreter

/-! The names in a query, and which of them `Initializer` (`robims/robims_query.cpp`) looks up. -/

namespace Myctk.Robims

open List Operand

inductive QueryName where
  | variable (v : List Text)
  | dynamicVariable (v : List Text)
  | function (name : Text)

def Lookup.resolves (L : Lookup) : QueryName → Bool
  | .variable [table, field] => (L.getTable table).any fun t => (L.getField t field).isSome
  | .variable _ | .dynamicVariable _ | .function _ => false

/-- The test that `Initializer` makes of a name. -/
def Lookup.accepts (L : Lookup) : QueryName → Bool
  | .variable [table, _] => (L.getTable table).isSome
  | .variable _ => false
  | .dynamicVariable _ | .function _ => true

mutual

def Operand.outside : Operand → List QueryName
  | .nil | .int _ | .double _ | .bool _ | .str _ => []
  | .var v _ => [.variable v]
  | .dynamicVar v => [.dynamicVariable v]
  | .func name _ => [.function name]
  | .unary _ operand => operand.outside
  | .cond lhs rhsTrue rhsFalse => lhs.outside ++ (rhsTrue.outside ++ rhsFalse.outside)
  | .expression first rest => first.outside ++ rest.outside

def Operations.outside : Operations → List QueryName
  | .nil => []
  | .cons _ operand rest => operand.outside ++ rest.outside

end

mutual

def Operand.names : Operand → List QueryName
  | .nil | .int _ | .double _ | .bool _ | .str _ => []
  | .var v _ => [.variable v]
  | .dynamicVar v => [.dynamicVariable v]
  | .func name args => .function name :: args.names
  | .unary _ operand => operand.names
  | .cond lhs rhsTrue rhsFalse => lhs.names ++ (rhsTrue.names ++ rhsFalse.names)
  | .expression first rest => first.names ++ rest.names

def Operations.names : Operations → List QueryName
  | .nil => []
  | .cons _ operand rest => operand.names ++ rest.names

def Operands.names : Operands → List QueryName
  | .nil => []
  | .cons operand rest => operand.names ++ rest.names

end

section
variable {L : Lookup}

mutual

theorem Operand.names_resolve (e : Operand) : (∀ n ∈ e.names, L.resolves n) ↔ ∀ n ∈ e.outside, L.resolves n := by
  match e with
  | .nil | .int _ | .double _ | .bool _ | .str _ | .var _ _ | .dynamicVar _ => rw [names, outside]
  | .func name args => simp [names, outside, Lookup.resolves]
  | .unary op operand =>
    rw [names, outside]
    exact operand.names_resolve
  | .cond lhs rhsTrue rhsFalse =>
    simp only [names, outside, forall_mem_append, lhs.names_resolve, rhsTrue.names_resolve,
      rhsFalse.names_resolve]
  | .expression first rest =>
    simp only [names, outside, forall_mem_append, first.names_resolve, rest.names_resolve]

theorem Operations.names_resolve (rest : Operations) :
    (∀ n ∈ rest.names, L.resolves n) ↔ ∀ n ∈ rest.outside, L.resolves n := by
  match rest with
  | .nil => rw [Operations.names, Operations.outside]
  | .cons op operand rest =>
    simp only [Operations.names, Operations.outside, forall_mem_append, operand.names_resolve, rest.names_resolve]

end

mutual

theorem Operand.init_isOk (e : Operand) : (e.init L).isOk ↔ ∀ n ∈ e.outside, L.accepts n := by
  match e with
  | .nil | .int _ | .double _ | .bool _ | .str _ => simp [init, outside, Except.isOk, Except.toBool]
  | .var [table, field] _ =>
    rw [init, outside, forall_mem_singleton, Lookup.accepts]
    cases L.getTable table <;> simp [Except.isOk, Except.toBool]
  | .var [] _ | .var [_] _ | .var (_ :: _ :: _ :: _) _ =>
    simp [init, outside, Lookup.accepts, Except.isOk, Except.toBool]
  | .dynamicVar _ | .func _ _ => simp [init, outside, Lookup.accepts, Except.isOk, Except.toBool]
  | .unary op operand =>
    rw [init, Lib.isOk_bind_pure, operand.init_isOk, outside]
  | .cond lhs rhsTrue rhsFalse =>
    rw [init, outside, forall_mem_append, forall_mem_append, ← lhs.init_isOk, ← rhsTrue.init_isOk,
      ← rhsFalse.init_isOk]
    refine Lib.isOk_bind fun a => Lib.isOk_bind fun b => ?_
    rw [Lib.isOk_bind_pure]
  | .expression first rest =>
    rw [init, outside, forall_mem_append, ← first.init_isOk, ← rest.init_isOk]
    refine Lib.isOk_bind fun a => ?_
    rw [Lib.isOk_bind_pure]

theorem Operations.init_isOk (rest : Operations) : (rest.init L).isOk ↔ ∀ n ∈ rest.outside, L.accepts n := by
  match rest with
  | .nil => simp [Operations.init, Operations.outside, Except.isOk, Except.toBool]
  | .cons op operand rest =>
    rw [Operations.init, Operations.outside, forall_mem_append, ← operand.init_isOk, ← rest.init_isOk]
    refine Lib.isOk_bind fun a => ?_
    rw [Lib.isOk_bind_pure]

end

end

/-- A query has what `Initializer` looks for, and a name outside of call arguments that stands for nothing. -/
def Operand.Overlooked (e : Operand) (L : Lookup) : Prop :=
  (∀ n ∈ e.outside, L.accepts n) ∧ ∃ n ∈ e.outside, ¬ L.resolves n

/-- What `Initializer` asks of the names outside of call arguments is true of them, and yet some name stands for nothing. -/
def NamesOverlooked (e : Ssexpr.Operand) (options : Ssexpr.ExprOptions) : Prop :=
  (∀ n ∈ e.outside, options.accepts n) ∧ ∃ n ∈ e.names, ¬ options.resolves n

/-- The names of a query, and of an expression, all stand for something where `Initializer` succeeds, exactly if
    it is not one of those with a name that goes unchecked. -/
theorem accepted_resolves_iff (L : Lookup) (e : Operand) (options : Ssexpr.ExprOptions) (e' : Ssexpr.Operand) :
    (((e.init L).isOk → ∀ n ∈ e.names, L.resolves n) ↔ ¬ e.Overlooked L) ∧
    ((Ssexpr.initOperand options e' = 0 → ∀ n ∈ e'.names, options.resolves n) ↔ ¬ NamesOverlooked e' options) := by
  rw [e.init_isOk, e.names_resolve, Ssexpr.initOperand_eq_zero, Overlooked, NamesOverlooked, not_and, not_and]
  simp only [not_exists, not_and, not_not, and_self]

/-- A table `t` without fields. -/
def fieldless : Lookup := ⟨fun _ => some 0, fun _ _ => none⟩

/-- A function `f`, and a structure with one member `u`, a structure without members. -/
def memberless : Ssexpr.ExprOptions := ⟨fun _ => some fun _ => none, some (.struct [117] .nil .nil), none⟩

theorem unresolved_accepted :
    ((var [[116], [120]] none).init fieldless).isOk = true ∧
    (var [[116], [120]] none).names.any (fun n => !fieldless.resolves n) = true ∧
    Ssexpr.initOperand memberless (.funcCall [102] (.cons (.variable [[121]]) .nil)) = 0 ∧
    (Ssexpr.Operand.funcCall [102] (.cons (.variable [[121]]) .nil)).names.any (fun n => !memberless.resolves n) = true ∧
    Ssexpr.initOperand memberless (.variable [[117], [120]]) = 0 ∧
    (Ssexpr.Operand.variable [[117], [120]]).names.any (fun n => !memberless.resolves n) = true :=
  ⟨rfl, rfl, rfl, rfl, rfl, rfl⟩

end Myctk.Robims
