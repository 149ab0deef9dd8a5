import Myctk.Robims.Field

/-! Queries (`robims/robims_query.cpp`): the syntax tree, `Initializer`, `QueryCalc` and `QueryInterpreter`. -/

namespace Myctk.Robims

def errQueryInvalidOperator : Int := -20000

def errQueryInvalidFieldArgs : Int := -20001

def errQueryInvalidTableName : Int := -20002

def errQueryEmptyFieldInstance : Int := -20004

def errQueryInvalidOperand : Int := -20005

inductive Optoken where
  | plus
  | minus
  | times
  | divide
  | positive
  | negative
  | equal
  | notEqual
  | less
  | lessEqual
  | greater
  | greaterEqual
  | and
  | or
  | andNot
  deriving DecidableEq

structure FieldRef where
  table : Nat
  field : Text
  deriving DecidableEq

mutual

/-- A variable has the pointer that `Initializer` found. -/
inductive Operand where
  | nil
  | int (n : Int)
  | double (v : Float)
  | bool (b : Bool)
  | str (s : Text)
  | var (v : List Text) (field : Option FieldRef)
  | dynamicVar (v : List Text)
  | func (name : Text) (args : Operands)
  | unary (op : Optoken) (operand : Operand)
  | cond (lhs rhsTrue rhsFalse : Operand)
  | expression (first : Operand) (rest : Operations)

inductive Operations where
  | nil
  | cons (op : Optoken) (operand : Operand) (rest : Operations)

inductive Operands where
  | nil
  | cons (operand : Operand) (rest : Operands)

end

/-- `GetTable` and `GetField` of a database. -/
structure Lookup where
  getTable : Text → Option Nat
  getField : Nat → Text → Option FieldRef

mutual

def Operand.init (L : Lookup) : Operand → Except Int Operand
  | .var [table, field] _ =>
    match L.getTable table with
    | none => .error errQueryInvalidTableName
    | some t => .ok (.var [table, field] (L.getField t field))
  | .var _ _ => .error errQueryInvalidFieldArgs
  | .unary op operand => do return .unary op (← operand.init L)
  | .cond lhs rhsTrue rhsFalse => do return .cond (← lhs.init L) (← rhsTrue.init L) (← rhsFalse.init L)
  | .expression first rest => do return .expression (← first.init L) (← rest.init L)
  | operand => .ok operand

def Operations.init (L : Lookup) : Operations → Except Int Operations
  | .nil => .ok .nil
  | .cons op operand rest => do return .cons op (← operand.init L) (← rest.init L)

end

inductive QueryValue (β : Type) where
  | error (code : Int) (reason : String)
  | bool (b : Bool)
  | int (n : Int)
  | double (v : Float)
  | str (s : Text)
  | field (f : FieldRef)
  | bitmap (b : β)

def QueryValue.unset {β : Type} : QueryValue β := .error (-1) "unknown error"

/-- What the interpreter needs. -/
structure Machine (m : Type → Type) (β : Type) where
  trap : {α : Type} → m α
  /-- `Select`, into a bitmap that is taken for it. -/
  select : FieldRef → FieldOperator → FieldArg → m (Except Int β)
  idle : m Unit
  and : β → β → m β
  or : β → β → m β
  drop : β → m Unit

section
variable {m : Type → Type} [Monad m] {β : Type} (M : Machine m β)

def doubleOf (n : Int) : Float := (Int64.ofInt n).toFloat

/-- The quotient of two `int64_t`; the processor traps where there is none. -/
def divideInts (a b : Int) : m (QueryValue β) :=
  if b = 0 ∨ (a = -2 ^ 63 ∧ b = -1) then M.trap else pure (.int (a.tdiv b))

def calcDoubles (op : Optoken) (a b : Float) : QueryValue β :=
  match op with
  | .plus => .double (a + b)
  | .minus => .double (a - b)
  | .times => .double (a * b)
  | .divide => .double (a / b)
  | _ => .unset

def calcArithmetic (op : Optoken) (left right : QueryValue β) : m (QueryValue β) :=
  match left, right with
  | .int a, .int b =>
    match op with
    | .plus => pure (.int (i64 (a + b)))
    | .minus => pure (.int (i64 (a - b)))
    | .times => pure (.int (i64 (a * b)))
    | .divide => divideInts M a b
    | _ => pure .unset
  | .int a, .double b => pure (calcDoubles op (doubleOf a) b)
  | .double a, .int b => pure (calcDoubles op a (doubleOf b))
  | .double a, .double b => pure (calcDoubles op a b)
  | _, _ => pure .unset

/-- One of the six comparisons of `QueryCalc`: the operators for a field on the left and on the right, the name in the messages, and
    whether a field may be compared with a string. -/
structure Comparison where
  direct : FieldOperator
  mirrored : FieldOperator
  name : String
  strings : Bool

def comparison : Optoken → Option Comparison
  | .equal => some ⟨.eq, .eq, "EQ", true⟩
  | .notEqual => some ⟨.neq, .neq, "NEQ", true⟩
  | .less => some ⟨.lt, .gt, "LT", false⟩
  | .lessEqual => some ⟨.lte, .gte, "LTE", false⟩
  | .greater => some ⟨.gt, .lt, "GT", false⟩
  | .greaterEqual => some ⟨.gte, .lte, "GTE", false⟩
  | _ => none

/-- How two numbers or two strings compare, by `==` and `<`. -/
def compareWith (direct : FieldOperator) (eq lt gt : Bool) : Bool :=
  match direct with
  | .eq => eq
  | .neq => !eq
  | .lt => lt
  | .lte => lt || eq
  | .gt => gt
  | .gte => gt || eq
  | _ => false

def compareDoubles (direct : FieldOperator) (a b : Float) : Bool := compareWith direct (a == b) (a < b) (b < a)

def compareConstants (direct : FieldOperator) : QueryValue β → QueryValue β → Option Bool
  | .int a, .int b => some (compareWith direct (a == b) (a < b) (b < a))
  | .int a, .double b => some (compareDoubles direct (doubleOf a) b)
  | .double a, .int b => some (compareDoubles direct a (doubleOf b))
  | .double a, .double b => some (compareDoubles direct a b)
  | .str a, .str b => some (compareWith direct (a == b) (a < b) (b < a))
  | _, _ => none

def fieldArg (strings : Bool) : QueryValue β → Option FieldArg
  | .int n => some (.int n)
  | .double v => some (.double v)
  | .str s => if strings then some (.str s) else none
  | _ => none

def calcSelect (c : Comparison) (side : String) (f : FieldRef) (op : FieldOperator) (operand : QueryValue β) : m (QueryValue β) :=
  match fieldArg c.strings operand with
  | none => do
    M.idle
    return .error errQueryInvalidOperand ("invalid " ++ side ++ " operand type for " ++ c.name ++ " operator")
  | some arg => do
    match ← M.select f op arg with
    | .ok ids => return .bitmap ids
    | .error rc => return .error rc ("invalid result for " ++ c.name ++ " operator")

def calcCompare (c : Comparison) (left right : QueryValue β) : m (QueryValue β) :=
  match compareConstants c.direct left right with
  | some b => pure (.bool b)
  | none =>
    match left, right with
    | .field f, right => calcSelect M c "right" f c.direct right
    | left, .field f => calcSelect M c "left" f c.mirrored left
    | _, _ => pure (.error errQueryInvalidOperand ("invalid operand for " ++ c.name ++ " operator"))

def calcLogical (name : String) (bools : Bool → Bool → Bool) (bitmaps : β → β → m β) (left right : QueryValue β) :
    m (QueryValue β) :=
  match left, right with
  | .bool a, .bool b => pure (.bool (bools a b))
  | .bitmap a, .bitmap b => do return .bitmap (← bitmaps a b)
  | _, _ => pure (.error errQueryInvalidOperand ("invalid operand for " ++ name ++ " operator"))

def queryCalc (op : Optoken) (left right : QueryValue β) : m (QueryValue β) :=
  match op with
  | .plus | .minus | .times | .divide => calcArithmetic M op left right
  | .and => calcLogical "AND" Bool.and M.and left right
  | .or => calcLogical "OR" Bool.or M.or left right
  | op =>
    match comparison op with
    | some c => calcCompare M c left right
    | none => pure (.error errQueryInvalidOperator "invalid operator with invalid args")

def dropValue : QueryValue β → m Unit
  | .bitmap b => M.drop b
  | _ => pure ()

def takesBoth : Optoken → QueryValue β → QueryValue β → Bool
  | .and, .bitmap _, .bitmap _ => true
  | .or, .bitmap _, .bitmap _ => true
  | _, _, _ => false

def operate (op : Optoken) (left right : QueryValue β) : m (QueryValue β) := do
  let result ← queryCalc M op left right
  if takesBoth op left right then return result
  dropValue M right
  dropValue M left
  return result

def applyUnary (op : Optoken) (v : QueryValue β) : m (QueryValue β) :=
  match op, v with
  | .positive, .int n => pure (.int n)
  | .positive, .double x => pure (.double x)
  | .negative, .int n => pure (.int (i64 (0 - n)))
  | .negative, .double x => pure (.double (0 - x))
  | .positive, v | .negative, v => do
    dropValue M v
    return .error errQueryInvalidOperand "invalid operaand type"
  | _, v => do
    dropValue M v
    return .error errQueryInvalidOperator "invalid operator"

mutual

/-- `QueryInterpreter`. -/
def Operand.eval : Operand → m (QueryValue β)
  | .nil => pure .unset
  | .int n => pure (.int n)
  | .double v => pure (.double v)
  | .bool b => pure (.bool b)
  | .str s => pure (.str s)
  | .var _ none => pure (.error errQueryEmptyFieldInstance "empty field instance")
  | .var _ (some f) => pure (.field f)
  | .dynamicVar _ => pure .unset
  | .func _ _ => pure .unset
  | .unary op operand => do applyUnary M op (← operand.eval)
  | .cond lhs rhsTrue rhsFalse => do
    match ← lhs.eval with
    | .bool true => rhsTrue.eval
    | .bool false => rhsFalse.eval
    | test => pure test
  | .expression first rest => do rest.eval (← first.eval)

def Operations.eval : Operations → QueryValue β → m (QueryValue β)
  | .nil, state => pure state
  | .cons op operand rest, state => do
    let rhs ← operand.eval
    rest.eval (← operate M op state rhs)

end

end

def setMachine (deref : FieldRef → Option (Bitmap × Index)) : Machine Option Bitmap where
  trap := none
  select f op arg := (deref f).map fun (table, index) => index.select table op arg
  idle := some ()
  and a b := some (a ∩ b)
  or a b := some (a ∪ b)
  drop _ := some ()

lemma dropValue_set (deref : FieldRef → Option (Bitmap × Index)) (v : QueryValue Bitmap) :
    dropValue (setMachine deref) v = some () := by
  cases v <;> rfl

lemma operate_set (deref : FieldRef → Option (Bitmap × Index)) (op : Optoken) (left right : QueryValue Bitmap) :
    operate (setMachine deref) op left right = queryCalc (setMachine deref) op left right := by
  unfold operate
  cases queryCalc (setMachine deref) op left right with
  | none => rfl
  | some v =>
    rw [dropValue_set, dropValue_set]
    exact ite_self _

/-! Errors in queries: what an operator makes of an operand that is an error. -/

open Operand

variable {β : Type}

def QueryValue.error? : QueryValue β → Option (Int × String)
  | .error code reason => some (code, reason)
  | _ => none

def firstError (left right : QueryValue β) : Option (Int × String) := left.error?.or right.error?

def comparisonError (c : Comparison) : QueryValue β → QueryValue β → Int × String
  | .field _, _ => (errQueryInvalidOperand, "invalid right operand type for " ++ c.name ++ " operator")
  | _, .field _ => (errQueryInvalidOperand, "invalid left operand type for " ++ c.name ++ " operator")
  | _, _ => (errQueryInvalidOperand, "invalid operand for " ++ c.name ++ " operator")

def ownError (op : Optoken) (left right : QueryValue β) : Int × String :=
  match op with
  | .plus | .minus | .times | .divide => (-1, "unknown error")
  | .and => (errQueryInvalidOperand, "invalid operand for AND operator")
  | .or => (errQueryInvalidOperand, "invalid operand for OR operator")
  | op =>
    match comparison op with
    | none => (errQueryInvalidOperator, "invalid operator with invalid args")
    | some c => comparisonError c left right

def ownUnaryError : Optoken → Int × String
  | .positive | .negative => (errQueryInvalidOperand, "invalid operaand type")
  | _ => (errQueryInvalidOperator, "invalid operator")

section
variable (deref : FieldRef → Option (Bitmap × Index))

def HandsOn (op : Optoken) (left right : QueryValue Bitmap) : Prop :=
  ∀ code reason, firstError left right = some (code, reason) →
    operate (setMachine deref) op left right = some (.error code reason)

def UnaryHandsOn (op : Optoken) (v : QueryValue Bitmap) : Prop :=
  ∀ code reason, v.error? = some (code, reason) → applyUnary (setMachine deref) op v = some (.error code reason)

end

def Matches (op : Optoken) (left right : QueryValue β) : Prop :=
  ∀ e, firstError left right = some e → e = ownError op left right

def UnaryMatches (op : Optoken) (v : QueryValue β) : Prop := ∀ e, v.error? = some e → e = ownUnaryError op

section
variable {deref : FieldRef → Option (Bitmap × Index)} {op : Optoken} {left right v : QueryValue Bitmap}
  {e : Int × String} {c : Comparison}

lemma calcCompare_of_error (c : Comparison) (error : firstError left right = some e) : calcCompare (setMachine deref) c left right =
      some (.error (comparisonError c left right).1 (comparisonError c left right).2) := by
  cases left with
  | error code reason => cases right <;> rfl
  | _ => cases right with
    | error code reason => rfl
    | _ => cases error

lemma queryCalc_of_comparison (named : comparison op = some c) :
    queryCalc (setMachine deref) op left right = calcCompare (setMachine deref) c left right := by
  cases op with
  | equal | notEqual | less | lessEqual | greater | greaterEqual =>
    cases named
    rfl
  | _ => cases named

lemma ownError_of_comparison (named : comparison op = some c) : ownError op left right = comparisonError c left right := by
  cases op with
  | equal | notEqual | less | lessEqual | greater | greaterEqual =>
    cases named
    rfl
  | _ => cases named

lemma operate_of_error (error : firstError left right = some e) :
    operate (setMachine deref) op left right = some (.error (ownError op left right).1 (ownError op left right).2) := by
  rw [operate_set]
  cases named : comparison op with
  | some c => rw [queryCalc_of_comparison named, ownError_of_comparison named, calcCompare_of_error c error]
  | none =>
    cases op with
    | equal | notEqual | less | lessEqual | greater | greaterEqual => cases named
    | positive | negative | andNot => rfl
    | plus | minus | times | divide | and | or =>
      cases left with
      | error code reason => rfl
      | _ => cases right with
        | error code reason => rfl
        | _ => cases error

lemma applyUnary_of_error (error : v.error? = some e) :
    applyUnary (setMachine deref) op v = some (.error (ownUnaryError op).1 (ownUnaryError op).2) := by
  cases v with
  | error code reason => cases op <;> rfl
  | _ => cases error

lemma handsOn_iff_matches : HandsOn deref op left right ↔ Matches op left right := by
  constructor
  · intro hands e error
    have same := (operate_of_error error).symm.trans (hands e.1 e.2 error)
    simp only [Option.some.injEq, QueryValue.error.injEq] at same
    exact Prod.ext same.1.symm same.2.symm
  · intro matched code reason error
    rw [operate_of_error error, ← matched _ error]

lemma unaryHandsOn_iff_matches : UnaryHandsOn deref op v ↔ UnaryMatches op v := by
  constructor
  · intro hands e error
    have same := (applyUnary_of_error error).symm.trans (hands e.1 e.2 error)
    simp only [Option.some.injEq, QueryValue.error.injEq] at same
    exact Prod.ext same.1.symm same.2.symm
  · intro matched code reason error
    rw [applyUnary_of_error error, ← matched _ error]

end

section
variable (deref : FieldRef → Option (Bitmap × Index))

section
variable (B : Optoken → QueryValue Bitmap → QueryValue Bitmap → Prop) (U : Optoken → QueryValue Bitmap → Prop)

mutual

def Operand.Applies : Operand → Prop
  | .unary op operand => operand.Applies ∧ ∀ v, operand.eval (setMachine deref) = some v → U op v
  | .cond lhs rhsTrue rhsFalse => lhs.Applies ∧ (lhs.eval (setMachine deref) = some (.bool true) → rhsTrue.Applies) ∧
      (lhs.eval (setMachine deref) = some (.bool false) → rhsFalse.Applies)
  | .expression first rest => first.Applies ∧ ∀ v, first.eval (setMachine deref) = some v → rest.Applies v
  | _ => True

def Operations.Applies : Operations → QueryValue Bitmap → Prop
  | .nil, _ => True
  | .cons op operand rest, state => operand.Applies ∧ ∀ v, operand.eval (setMachine deref) = some v →
      B op state v ∧ ∀ result, operate (setMachine deref) op state v = some result → rest.Applies result

end

end

def operateOrRaise (op : Optoken) (left right : QueryValue Bitmap) : Option (QueryValue Bitmap) :=
  match firstError left right with
  | some (code, reason) => some (.error code reason)
  | none => operate (setMachine deref) op left right

def applyUnaryOrRaise (op : Optoken) (v : QueryValue Bitmap) : Option (QueryValue Bitmap) :=
  match v.error? with
  | some (code, reason) => some (.error code reason)
  | none => applyUnary (setMachine deref) op v

mutual

def Operand.report : Operand → Option (QueryValue Bitmap)
  | .unary op operand => do applyUnaryOrRaise deref op (← operand.report)
  | .cond lhs rhsTrue rhsFalse => do
    match ← lhs.report with
    | .bool true => rhsTrue.report
    | .bool false => rhsFalse.report
    | test => pure test
  | .expression first rest => do rest.report (← first.report)
  | operand => operand.eval (setMachine deref)

def Operations.report : Operations → QueryValue Bitmap → Option (QueryValue Bitmap)
  | .nil, state => pure state
  | .cons op operand rest, state => do
    let rhs ← operand.report
    rest.report (← operateOrRaise deref op state rhs)

end

end

section
variable {deref : FieldRef → Option (Bitmap × Index)}

lemma HandsOn.operate_eq {op : Optoken} {left right : QueryValue Bitmap} (hands : HandsOn deref op left right) :
    operate (setMachine deref) op left right = operateOrRaise deref op left right := by
  unfold operateOrRaise
  cases error : firstError left right with
  | none => rfl
  | some e => exact hands e.1 e.2 error

lemma UnaryHandsOn.applyUnary_eq {op : Optoken} {v : QueryValue Bitmap} (hands : UnaryHandsOn deref op v) :
    applyUnary (setMachine deref) op v = applyUnaryOrRaise deref op v := by
  unfold applyUnaryOrRaise
  cases error : v.error? with
  | none => rfl
  | some e => exact hands e.1 e.2 error

mutual

theorem Operand.eval_eq_report (e : Operand) (hands : e.Applies deref (HandsOn deref) (UnaryHandsOn deref)) :
    e.eval (setMachine deref) = e.report deref := by
  match e with
  | .unary op operand =>
    rw [Applies] at hands
    rw [eval, report, ← operand.eval_eq_report hands.1]
    cases value : operand.eval (setMachine deref) with
    | none => rfl
    | some v => exact (hands.2 v value).applyUnary_eq
  | .cond lhs rhsTrue rhsFalse =>
    rw [Applies] at hands
    rw [eval, report, ← lhs.eval_eq_report hands.1]
    cases value : lhs.eval (setMachine deref) with
    | none => rfl
    | some v =>
      cases v with
      | bool test =>
        cases test with
        | true => exact rhsTrue.eval_eq_report (hands.2.1 value)
        | false => exact rhsFalse.eval_eq_report (hands.2.2 value)
      | _ => rfl
  | .expression first rest =>
    rw [Applies] at hands
    rw [eval, report, ← first.eval_eq_report hands.1]
    cases value : first.eval (setMachine deref) with
    | none => rfl
    | some v => exact rest.eval_eq_report v (hands.2 v value)
  | .nil | .int _ | .double _ | .bool _ | .str _ | .var _ _ | .dynamicVar _ | .func _ _ => rfl

theorem Operations.eval_eq_report (rest : Operations) (state : QueryValue Bitmap)
    (hands : rest.Applies deref (HandsOn deref) (UnaryHandsOn deref) state) :
    rest.eval (setMachine deref) state = rest.report deref state := by
  match rest with
  | .nil => rfl
  | .cons op operand rest =>
    rw [Operations.Applies] at hands
    rw [Operations.eval, Operations.report, ← operand.eval_eq_report hands.1]
    cases value : operand.eval (setMachine deref) with
    | none => rfl
    | some v =>
      obtain ⟨here, later⟩ := hands.2 v value
      show (operate (setMachine deref) op state v).bind _ = (operateOrRaise deref op state v).bind _
      rw [← here.operate_eq]
      cases applied : operate (setMachine deref) op state v with
      | none => rfl
      | some result => exact rest.eval_eq_report result (later result applied)

end

end

/-- The operators of a query hand on the first error of their operands exactly where that error is the one that the operator reports
    for itself; and a query in which they do reports its first error. -/
theorem errors_handed_on_iff (deref : FieldRef → Option (Bitmap × Index)) (e : Operand) :
    (e.Applies deref (HandsOn deref) (UnaryHandsOn deref) ↔ e.Applies deref Matches UnaryMatches) ∧
    (e.Applies deref Matches UnaryMatches → e.eval (setMachine deref) = e.report deref) := by
  have binary : HandsOn deref = Matches := by
    funext op left right
    exact propext handsOn_iff_matches
  have unary : UnaryHandsOn deref = UnaryMatches := by
    funext op v
    exact propext unaryHandsOn_iff_matches
  refine ⟨by rw [binary, unary], fun applies => e.eval_eq_report ?_⟩
  rw [binary, unary]
  exact applies

/-- The query `t.f + 1`, where the table has no field `f`. -/
def missingPlusOne : Operand := .expression (.var [[116], [102]] none) (.cons .plus (.int 1) .nil)

theorem missingPlusOne_reports :
    (missingPlusOne.init ⟨fun _ => some 0, fun _ _ => none⟩).toOption = some missingPlusOne ∧
    (var [[116], [102]] none).eval (setMachine fun _ => none) =
      some (.error errQueryEmptyFieldInstance "empty field instance") ∧
    missingPlusOne.eval (setMachine fun _ => none) = some (.error (-1) "unknown error") :=
  ⟨rfl, rfl, rfl⟩

end Myctk.Robims
