import Myctk.Robims.Query
import Myctk.Ssexpr.Grammar

/-! The texts of queries (`robims/robims_query.cpp`). The rules for constants and names are those of `ssexpr`. -/

namespace Myctk.Robims.Grammar

open Lib.Peg Ssexpr UInt8 Nat

def ofBytes (s : List Byte) : Text := s.map ofBitVec

def logicalOp : Parser Byte Optoken := symbols [(['&', '&'], .and), (['|', '|'], .or), (['&', '&', '!'], .andNot)]

def equalityOp : Parser Byte Optoken := symbols [(['=', '='], .equal), (['!', '='], .notEqual)]

def relationalOp : Parser Byte Optoken :=
  symbols [(['<'], .less), (['<', '='], .lessEqual), (['>'], .greater), (['>', '='], .greaterEqual)]

def additiveOp : Parser Byte Optoken := symbols [(['+'], .plus), (['-'], .minus)]

def multiplicativeOp : Parser Byte Optoken := symbols [(['*'], .times), (['/'], .divide)]

def unaryOp : Parser Byte Optoken := symbols [(['+'], .positive), (['-'], .negative)]

def ofOperations : List (Optoken × Operand) → Operations
  | [] => .nil
  | (op, operand) :: rest => .cons op operand (ofOperations rest)

def ofOperands : List Operand → Operands
  | [] => .nil
  | operand :: rest => .cons operand (ofOperands rest)

def forms : Forms Optoken Operand :=
  ⟨fun bits => .double (.ofBits (.ofBitVec bits)), fun n => .int n.toInt, .bool, fun s => .str (ofBytes s), fun v => .var (v.map ofBytes) none,
    fun v => .dynamicVar (v.map ofBytes), fun name args => .func (ofBytes name) (ofOperands args), .unary, .cond,
    fun first rest => .expression first (ofOperations rest)⟩

def operations (op : Parser Byte Optoken) (operand : Parser Byte Operand) : Parser Byte Operand := .chain op operand forms.expression

section
variable (x : X3) (expression : Parser Byte Operand)

def unaryExpr : Parser Byte Operand := forms.unaryRule expression x unaryOp

def equalityExpr : Parser Byte Operand :=
  operations equalityOp <| operations relationalOp <| operations additiveOp <| operations multiplicativeOp <| unaryExpr x expression

def logicalExpr : Parser Byte Operand := operations logicalOp (equalityExpr x expression)

def condExpr : Parser Byte Operand := forms.condRule expression (logicalExpr x expression)

end

/-- `phrase_parse` of a query. -/
def phraseParse (x : X3) (text : Text) : Result Byte Operand := Parser.phrase isSpace (condExpr x) (text.map toBitVec)

lemma phraseParse_ne_unfinished {x : X3} (text : Text) : phraseParse x text ≠ .unfinished := by
  refine Parser.phrase_ne_unfinished (fun inner => Forms.shrinks_condRule inner ?_) _
  exact .chain (shrinks_symbols (by decide)) <| .chain (shrinks_symbols (by decide)) <| .chain (shrinks_symbols (by decide)) <|
    .chain (shrinks_symbols (by decide)) <| .chain (shrinks_symbols (by decide)) <|
      Forms.shrinks_unaryRule inner (shrinks_symbols (by decide))

lemma logicalOp_andNot {s rest : List Byte} (here : s.dropWhile isSpace = ch '&' :: ch '&' :: ch '!' :: rest) :
    logicalOp s = .matched .andNot rest := by
  have longer : 2 + rest.length ≤ rest.length + 1 + 1 + 1 := by omega
  rw [logicalOp, symbols, skip, Parser.skipping, here]
  simp [Parser.symbols, ch, longer]

lemma logicalExpr_andNot {x : X3} {e : Parser Byte Operand} {s t u rest : List Byte} {a b : Operand}
    (left : equalityExpr x e s = .matched a t) (operator : t.dropWhile isSpace = ch '&' :: ch '&' :: ch '!' :: u)
    (right : equalityExpr x e u = .matched b rest) (last : logicalOp rest = .failed) :
    logicalExpr x e s = .matched (.expression a (.cons .andNot b .nil)) rest := by
  refine Parser.chain_of_two left (fun none => ?_) (logicalOp_andNot operator) right last
  rw [none] at operator
  cases operator

end Myctk.Robims.Grammar

namespace Myctk.Robims

/-- No rule calls itself before it has read something, so that every text is parsed to an end. -/
theorem parsers_end {x : Ssexpr.X3} (query : Text) (expr : List Ssexpr.Byte) : Grammar.phraseParse x query ≠ .unfinished ∧
    Ssexpr.phraseParse x Ssexpr.additiveOp expr ≠ .unfinished ∧ Ssexpr.phraseParse x Ssexpr2.additiveOp expr ≠ .unfinished :=
  ⟨Grammar.phraseParse_ne_unfinished query, Ssexpr.phraseParse_ne_unfinished (fun _ => Ssexpr.shrinks_symbols (by decide)) expr,
    Ssexpr.phraseParse_ne_unfinished (fun _ => Ssexpr.shrinks_symbols (by decide)) expr⟩

def Operations.snoc : Operations → Optoken → Operand → Operations
  | .nil, op, operand => .cons op operand .nil
  | .cons op operand rest, op', operand' => .cons op operand (rest.snoc op' operand')

lemma Operations.eval_snoc {M : Machine Option Bitmap} {rest : Operations} {state left right : QueryValue Bitmap} {op : Optoken}
    {operand : Operand} (before : rest.eval M state = some left) (value : operand.eval M = some right) :
    (rest.snoc op operand).eval M state = operate M op left right := by
  match rest with
  | .nil =>
    cases before
    rw [snoc, Operations.eval, value, Option.bind_eq_bind, Option.bind_some]
    cases operate M op state right with
    | none => rfl
    | some result => rfl
  | .cons op' operand' rest =>
    rw [Operations.eval] at before
    obtain ⟨rhs, first, before⟩ := Option.bind_eq_some_iff.mp before
    obtain ⟨state', second, before⟩ := Option.bind_eq_some_iff.mp before
    rw [snoc, Operations.eval, first, Option.bind_eq_bind, Option.bind_some, second, Option.bind_some]
    exact eval_snoc before value

/-- `&&!` is parsed as an operator between two operands, and its execution is an error whatever the sets of the operands
    are. -/
theorem andNot_never_difference (x : Ssexpr.X3) :
    (∀ {e : Lib.Peg.Parser Ssexpr.Byte Operand} {s t u rest : List Ssexpr.Byte} {a b : Operand},
      Grammar.equalityExpr x e s = .matched a t →
      t.dropWhile Ssexpr.isSpace = Ssexpr.ch '&' :: Ssexpr.ch '&' :: Ssexpr.ch '!' :: u →
      Grammar.equalityExpr x e u = .matched b rest → Grammar.logicalOp rest = .failed →
      Grammar.logicalExpr x e s = .matched (.expression a (.cons .andNot b .nil)) rest) ∧
    ∀ {deref : FieldRef → Option (Bitmap × Index)} {first operand : Operand} {rest : Operations} {left right : Bitmap},
      (Operand.expression first rest).eval (setMachine deref) = some (.bitmap left) →
      operand.eval (setMachine deref) = some (.bitmap right) →
      (Operand.expression first (rest.snoc .andNot operand)).eval (setMachine deref) =
          some (.error errQueryInvalidOperator "invalid operator with invalid args") ∧
        (Operand.expression first (rest.snoc .andNot operand)).eval (setMachine deref) ≠ some (.bitmap (left \ right)) := by
  refine ⟨Grammar.logicalExpr_andNot, fun {deref first operand rest left right} before value => ?_⟩
  have result : (Operand.expression first (rest.snoc .andNot operand)).eval (setMachine deref) =
      some (.error errQueryInvalidOperator "invalid operator with invalid args") := by
    rw [Operand.eval] at before ⊢
    obtain ⟨state, start, before⟩ := Option.bind_eq_some_iff.mp before
    rw [start, Option.bind_eq_bind, Option.bind_some, Operations.eval_snoc before value, operate_set]
    rfl
  refine ⟨result, fun difference => ?_⟩
  rw [result] at difference
  cases difference

/-! A query on a set field: 7 and 8 have "y", and 7 has "x". -/

def differenceText : Text :=
  ['t', '.', 'a', '=', '=', '"', 'y', '"', ' ', '&', '&', '!', ' ', 't', '.', 'a', '=', '=', '"', 'x', '"'].map fun c => UInt8.ofNat c.toNat

def differenceLookup : Lookup := ⟨fun _ => some 0, fun n name => some ⟨n, name⟩⟩

def differenceDeref (_ : FieldRef) : Option (Bitmap × Index) := some ({7, 8}, .set [([120], {7}), ([121], {7, 8})])

theorem difference_is_error : ∃ tree first operand,
    Grammar.phraseParse Ssexpr.noDoubles differenceText = .matched tree [] ∧
    tree.init differenceLookup = .ok (.expression first (.cons .andNot operand .nil)) ∧
    first.eval (setMachine differenceDeref) = some (.bitmap {7, 8}) ∧ operand.eval (setMachine differenceDeref) = some (.bitmap {7}) ∧
    (Operand.expression first (.cons .andNot operand .nil)).eval (setMachine differenceDeref) ≠ some (.bitmap ({7, 8} \ {7})) := by
  refine ⟨_, _, _, rfl, rfl, rfl, rfl, fun difference => ?_⟩
  cases difference

/-- The operand `t.a == v`, initialized. -/
def comparedWith (v : Text) : Operand := .expression (.var [[116], [97]] (some ⟨0, [97]⟩)) (.cons .equal (.str v) .nil)

theorem andNot_never_difference_sample : (comparedWith [120]).eval (setMachine differenceDeref) = some (.bitmap {7}) ∧
    (Operand.expression (comparedWith [121]) (.cons .andNot (comparedWith [120]) .nil)).eval (setMachine differenceDeref) =
      some (.error errQueryInvalidOperator "invalid operator with invalid args") := by
  have left : (Operand.expression (comparedWith [121]) .nil).eval (setMachine differenceDeref) = some (.bitmap {7, 8}) := rfl
  have right : (comparedWith [120]).eval (setMachine differenceDeref) = some (.bitmap {7}) := rfl
  exact ⟨right, ((andNot_never_difference Ssexpr.noDoubles).2 left right).1⟩

end Myctk.Robims
