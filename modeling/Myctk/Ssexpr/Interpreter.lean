import Myctk.Ssexpr.Grammar

/-! The evaluation of a syntax tree (`CalcVisitor`, `Initializer`, `Interpreter` and `SpiritExpression` of
    `ssexpr/spirit_expression.cpp`). -/

namespace Myctk.Ssexpr
open Ssexpr2

abbrev errInvalidOperator : Int := 10001
abbrev errInvalidOperandType : Int := 10002
abbrev errInvalidFunction : Int := 10003
abbrev errInvalidStructMember : Int := 10004
abbrev errEmptyStructVisitor : Int := 10005
abbrev errNilInterpreter : Int := 10006
abbrev errEmptyDynamicVarVisitor : Int := 10007

inductive Value where
  | error (code : Int) (reason : String)
  | bool (b : Bool)
  | int64 (n : Word)
  | double (x : Float)
  | string (s : List Byte)
  | pointer (address : Word)

namespace Value

def unset : Value := .error (-1) "unknown error"

def isError : Value → Bool
  | error _ _ => true
  | _ => false

end Value

/-! ### Operators

An operator leaves the result unset for operands that it does not take; `none` where the processor traps. -/

def arithmetic (double : Float → Float → Float) (int : Word → Word → Option Word) : Value → Value → Option Value
  | .int64 l, .int64 r => (int l r).map .int64
  | .int64 l, .double r => some (.double (double (intToDouble l) r))
  | .double l, .double r => some (.double (double l r))
  | .double l, .int64 r => some (.double (double l (intToDouble r)))
  | _, _ => some .unset

/-- The comparisons of an order; `<`, `<=`, `>` and `>=` do not take bools. -/
def relational (int : Int → Int → Bool) (double : Float → Float → Bool) (string : List Byte → List Byte → Bool) :
    Value → Value → Value
  | .int64 l, .int64 r => .bool (int l.toInt r.toInt)
  | .int64 l, .double r => .bool (double (intToDouble l) r)
  | .double l, .double r => .bool (double l r)
  | .double l, .int64 r => .bool (double l (intToDouble r))
  | .string l, .string r => .bool (string l r)
  | _, _ => .unset

def equality (bool : Bool → Bool → Bool) (int : Int → Int → Bool) (double : Float → Float → Bool)
    (string : List Byte → List Byte → Bool) : Value → Value → Value
  | .bool l, .bool r => .bool (bool l r)
  | l, r => relational int double string l r

def logical (bool : Bool → Bool → Bool) : Value → Value → Value
  | .bool l, .bool r => .bool (bool l r)
  | _, _ => .unset

def calcVisitor (op : Optoken) (left right : Value) : Option Value :=
  match op with
  | .plus => arithmetic (· + ·) (fun l r => some (l + r)) left right
  | .minus => arithmetic (· - ·) (fun l r => some (l - r)) left right
  | .times => arithmetic (· * ·) (fun l r => some (l * r)) left right
  | .divide => arithmetic (· / ·) (dividing BitVec.sdiv) left right
  | .equal => some (equality (· == ·) (· == ·) (· == ·) (· == ·) left right)
  | .notEqual => some (equality (· != ·) (· != ·) (· != ·) (· != ·) left right)
  | .less => some (relational (fun l r => l < r) (fun l r => l < r) (fun l r => l < r) left right)
  | .lessEqual => some (relational (fun l r => l ≤ r) (fun l r => l ≤ r) (fun l r => ¬ r < l) left right)
  | .greater => some (relational (fun l r => r < l) (fun l r => r < l) (fun l r => r < l) left right)
  | .greaterEqual => some (relational (fun l r => r ≤ l) (fun l r => r ≤ l) (fun l r => ¬ l < r) left right)
  | .and => some (logical (· && ·) left right)
  | .or => some (logical (· || ·) left right)
  | .positive | .negative | .not | .modulus => some (.error errInvalidOperator "invalid operator")

/-- The operators of one operand, as `operator()(Unary)` applies them. -/
def calcUnary (op : Optoken) (v : Value) : Value :=
  match op, v with
  | .not, .bool b => .bool !b
  | .positive, .int64 n => .int64 n
  | .positive, .double x => .double x
  | .negative, .int64 n => .int64 (0 - n)
  | .negative, .double x => .double (0 - x)
  | .not, _ | .positive, _ | .negative, _ => .error errInvalidOperandType "invalid operaand type"
  | _, _ => .error errInvalidOperator "invalid operator"

/-- The left operand of `&&` or `||` settles the result. -/
def settles : Optoken → Value → Bool
  | .and, .bool b => !b
  | .or, .bool b => b
  | _, _ => false

abbrev ExprFunction := List Value → Option Value

structure EvalContext where
  structVisitor : Option (List (List Byte) → Value)
  dynamicVarAccess : Option (List (List Byte) → Value)
  functions : List Byte → Option ExprFunction

/-- An operation on the value so far; `rhs` is used where it is evaluated. -/
def operate (op : Optoken) (lhs : Value) (rhs : Option Value) : Option Value :=
  if settles op lhs then some (.bool (op = .or)) else rhs.bind (calcVisitor op lhs)

section
variable (ctx : EvalContext)

mutual

def interpret : Operand → Option Value
  | .int64 n => some (.int64 n)
  | .double bits => some (.double (Ssexpr2.toDouble bits))
  | .bool b => some (.bool b)
  | .string s => some (.string s)
  | .variable v =>
    match ctx.structVisitor with
    | some visitor => some (visitor v)
    | none => some (.error errEmptyStructVisitor "empty struct visitor")
  | .dynamicVariable v =>
    match ctx.dynamicVarAccess with
    | some access => some (access v)
    | none => some (.error errEmptyStructVisitor "empty struct visitor")
  | .funcCall func args =>
    match ctx.functions func with
    | some functor => (interpretArgs args).bind functor
    | none => some (.error errInvalidFunction "invalid func name")
  | .unary op operand => (interpret operand).map (calcUnary op)
  | .condExpr lhs rhsTrue rhsFalse =>
    match interpret lhs with
    | some (.bool true) => interpret rhsTrue
    | some (.bool false) => interpret rhsFalse
    | test => test
  | .expression first rest => (interpret first).bind (interpretRest rest)

def interpretArgs : Operands → Option (List Value)
  | .nil => some []
  | .cons arg args => (interpret arg).bind fun v => (interpretArgs args).map (v :: ·)

def interpretRest : Operations → Value → Option Value
  | .nil, state => some state
  | .cons op operand rest, state => (operate op state (interpret operand)).bind (interpretRest rest)

end

end

/-- The members of a structure (`ssexpr/expr_struct.h`): plain ones, and structures with a table of their own. -/
inductive FieldAccessorTable where
  | nil
  | field (name : List Byte) (rest : FieldAccessorTable)
  | struct (name : List Byte) (members rest : FieldAccessorTable)

namespace FieldAccessorTable

/-- A member, with its own table if it is a structure. -/
def find : FieldAccessorTable → List Byte → Option (Option FieldAccessorTable)
  | nil, _ => none
  | field name rest, key => if name = key then some none else rest.find key
  | struct name members rest, key => if name = key then some (some members) else rest.find key

/-- The accessors, by their names, and the return code; those found before an error stay. -/
def getFieldAccessors (table : FieldAccessorTable) : List (List Byte) → List (List Byte) × Int
  | [] => ([], 0)
  | [name] =>
    match table.find name with
    | some none => ([name], 0)
    | _ => ([], -1)
  | name :: next :: names =>
    match table.find name with
    | some (some members) =>
      let (accessors, rc) := members.getFieldAccessors (next :: names)
      (name :: accessors, rc)
    | _ => ([], -1)

end FieldAccessorTable

structure ExprOptions where
  functions : List Byte → Option ExprFunction
  /-- The table of the structure that `Init` was called for. -/
  getMemberAccess : Option FieldAccessorTable
  dynamicVarAccess : Option (List (List Byte) → Value)

section
variable (options : ExprOptions)

mutual

/-- `Initializer`: the arguments of a call are visited, whatever comes of it. -/
def initOperand : Operand → Int
  | .int64 _ | .double _ | .bool _ | .string _ => 0
  | .variable v =>
    match options.getMemberAccess with
    | some table => if (table.getFieldAccessors v).1 = [] then errInvalidStructMember else 0
    | none => errInvalidStructMember
  | .dynamicVariable _ => if options.dynamicVarAccess.isSome then 0 else errEmptyDynamicVarVisitor
  | .funcCall func _ => if (options.functions func).isSome then 0 else errInvalidFunction
  | .unary _ operand => initOperand operand
  | .condExpr lhs rhsTrue rhsFalse =>
    let rc := initOperand lhs
    if rc ≠ 0 then rc
    else
      let rc := initOperand rhsTrue
      if rc ≠ 0 then rc else initOperand rhsFalse
  | .expression first rest =>
    let rc := initOperand first
    if rc ≠ 0 then rc else initRest rest

def initRest : Operations → Int
  | .nil => 0
  | .cons _ operand rest =>
    let rc := initOperand operand
    if rc ≠ 0 then rc else initRest rest

end

def init (x : X3) (text : List Byte) : Option Operand × Option Int :=
  match phraseParse x additiveOp text with
  | .matched first _ =>
    let rc := initOperand options (.expression first .nil)
    (if rc = 0 then some (.expression first .nil) else none, some rc)
  | .failed => (none, some (-1))
  | .thrown | .unfinished => (none, none)

def ExprOptions.context (structVisitor : Option (List (List Byte) → Value)) : EvalContext :=
  ⟨structVisitor, options.dynamicVarAccess, options.functions⟩

def eval (x : X3) (structVisitor : Option (List (List Byte) → Value)) (text : List Byte) : Option Value :=
  match (init options x text).1 with
  | some e => interpret (options.context structVisitor) e
  | none => some (.error errNilInterpreter "SpiritExpression is not inited success")

end

/-! The names in an expression, and which of them `Initializer` (`ssexpr/spirit_expression.cpp`) looks up. -/

open List Operand ExprOptions

inductive Name where
  | variable (v : List (List Byte))
  | dynamicVariable (v : List (List Byte))
  | function (func : List Byte)

/-- The names lead through structures to a plain member. -/
def FieldAccessorTable.hasMember (table : FieldAccessorTable) : List (List Byte) → Bool
  | [] => false
  | [name] => (table.find name).any (·.isNone)
  | name :: next :: names =>
    match table.find name with
    | some (some members) => members.hasMember (next :: names)
    | _ => false

/-- The first of the names is a member of the kind that its place asks for. -/
def FieldAccessorTable.hasFirst (table : FieldAccessorTable) : List (List Byte) → Bool
  | [] => false
  | [name] => (table.find name).any (·.isNone)
  | name :: _ :: _ => (table.find name).any (·.isSome)

def ExprOptions.accepts (options : ExprOptions) : Name → Bool
  | .variable v => options.getMemberAccess.any (·.hasFirst v)
  | .dynamicVariable _ => options.dynamicVarAccess.isSome
  | .function func => (options.functions func).isSome

def ExprOptions.resolves (options : ExprOptions) : Name → Bool
  | .variable v => options.getMemberAccess.any (·.hasMember v)
  | .dynamicVariable _ => options.dynamicVarAccess.isSome
  | .function func => (options.functions func).isSome

mutual

def Operand.outside : Operand → List Name
  | .int64 _ | .double _ | .bool _ | .string _ => []
  | .variable v => [.variable v]
  | .dynamicVariable v => [.dynamicVariable v]
  | .funcCall func _ => [.function func]
  | .unary _ operand => operand.outside
  | .condExpr lhs rhsTrue rhsFalse => lhs.outside ++ (rhsTrue.outside ++ rhsFalse.outside)
  | .expression first rest => first.outside ++ rest.outside

def Operations.outside : Operations → List Name
  | .nil => []
  | .cons _ operand rest => operand.outside ++ rest.outside

end

mutual

def Operand.names : Operand → List Name
  | .int64 _ | .double _ | .bool _ | .string _ => []
  | .variable v => [.variable v]
  | .dynamicVariable v => [.dynamicVariable v]
  | .funcCall func args => .function func :: args.names
  | .unary _ operand => operand.names
  | .condExpr lhs rhsTrue rhsFalse => lhs.names ++ (rhsTrue.names ++ rhsFalse.names)
  | .expression first rest => first.names ++ rest.names

def Operations.names : Operations → List Name
  | .nil => []
  | .cons _ operand rest => operand.names ++ rest.names

def Operands.names : Operands → List Name
  | .nil => []
  | .cons operand rest => operand.names ++ rest.names

end

section
variable {options : ExprOptions}

/-- `Initializer` asks whether there are accessors, not for the return code. -/
lemma FieldAccessorTable.getFieldAccessors_ne_nil (table : FieldAccessorTable) {v : List (List Byte)} :
    (table.getFieldAccessors v).1 ≠ [] ↔ table.hasFirst v := by
  match v with
  | [] => simp [getFieldAccessors, hasFirst]
  | [name] => rcases found : table.find name with _ | _ | _ <;> simp [getFieldAccessors, hasFirst, found]
  | name :: _ :: _ => rcases found : table.find name with _ | _ | _ <;> simp [getFieldAccessors, hasFirst, found]

lemma first_code_eq_zero {rc rest : Int} : (if rc ≠ 0 then rc else rest) = 0 ↔ rc = 0 ∧ rest = 0 := by
  by_cases zero : rc = 0
  · simp [zero]
  · simp [zero]

mutual

theorem initOperand_eq_zero (e : Operand) : initOperand options e = 0 ↔ ∀ n ∈ e.outside, options.accepts n := by
  match e with
  | .int64 _ | .double _ | .bool _ | .string _ => simp [initOperand, outside]
  | .variable v =>
    rw [initOperand, outside, forall_mem_singleton, accepts]
    cases options.getMemberAccess with
    | none => simp
    | some table =>
      rw [Option.any_some, ← table.getFieldAccessors_ne_nil]
      by_cases none : (table.getFieldAccessors v).1 = [] <;> simp [none]
  | .dynamicVariable v =>
    rw [initOperand, outside, forall_mem_singleton, accepts]
    cases options.dynamicVarAccess.isSome <;> simp
  | .funcCall func args =>
    rw [initOperand, outside, forall_mem_singleton, accepts]
    cases (options.functions func).isSome <;> simp
  | .unary op operand =>
    rw [initOperand, outside]
    exact initOperand_eq_zero operand
  | .condExpr lhs rhsTrue rhsFalse =>
    rw [initOperand, first_code_eq_zero, first_code_eq_zero, initOperand_eq_zero lhs, initOperand_eq_zero rhsTrue,
      initOperand_eq_zero rhsFalse, outside, forall_mem_append, forall_mem_append]
  | .expression first rest =>
    rw [initOperand, first_code_eq_zero, initOperand_eq_zero first, initRest_eq_zero rest, outside,
      forall_mem_append]

theorem initRest_eq_zero (rest : Operations) : initRest options rest = 0 ↔ ∀ n ∈ rest.outside, options.accepts n := by
  match rest with
  | .nil => simp [initRest, Operations.outside]
  | .cons op operand rest =>
    rw [initRest, first_code_eq_zero, initOperand_eq_zero operand, initRest_eq_zero rest, Operations.outside,
      forall_mem_append]

end

end

end Myctk.Ssexpr
