import Myctk.Lib.Peg
import Myctk.Ssexpr2.Eval

/-! The texts of expressions. The grammars of `ssexpr/spirit_expression.cpp` and `ssexpr2/spirit_jit_expression.cpp`
    are one grammar with two tables of additive operators. -/

namespace Myctk.Ssexpr
open Lib.Peg Ssexpr2 Parser

abbrev Byte := BitVec 8

def ch (c : Char) : Byte := .ofNat 8 c.toNat

mutual

inductive Operand where
  | int64 (n : Word)
  | double (bits : Word)
  | bool (b : Bool)
  | string (s : List Byte)
  | variable (v : List (List Byte))
  | dynamicVariable (v : List (List Byte))
  | funcCall (func : List Byte) (args : Operands)
  | unary (op : Optoken) (operand : Operand)
  | condExpr (lhs rhsTrue rhsFalse : Operand)
  | expression (first : Operand) (rest : Operations)

inductive Operands where
  | nil
  | cons (arg : Operand) (args : Operands)

inductive Operations where
  | nil
  | cons (op : Optoken) (operand : Operand) (rest : Operations)

end

def Operands.ofList : List Operand → Operands
  | [] => nil
  | arg :: args => cons arg (ofList args)

def Operations.ofList : List (Optoken × Operand) → Operations
  | [] => nil
  | (op, operand) :: rest => cons op operand (ofList rest)

def isSpace (b : Byte) : Bool := b = 32 || (9 ≤ b && b ≤ 13)

def isDigit (b : Byte) : Bool := ch '0' ≤ b && b ≤ ch '9'

def isAlpha (b : Byte) : Bool := (ch 'a' ≤ b && b ≤ ch 'z') || (ch 'A' ≤ b && b ≤ ch 'Z')

/-- The parser of doubles that Spirit has. -/
structure X3 where
  strictDouble : Parser Byte Word
  shrinks : ∀ n, strictDouble.Shrinks n

/-- For texts without a number that has a dot. -/
def noDoubles : X3 := ⟨fun _ => .failed, fun _ _ _ => trivial⟩

def skip {α : Type} (p : Parser Byte α) : Parser Byte α := p.skipping isSpace

def symbols {α : Type} (table : List (List Char × α)) : Parser Byte α :=
  skip (.symbols (table.map fun (key, a) => (key.map ch, a)))

def lit (c : Char) : Parser Byte Unit := skip ((satisfy (· == ch c)).map fun _ => ())

def parseSign : List Byte → Bool × List Byte
  | [] => (false, [])
  | b :: s => if b = ch '-' then (true, s) else if b = ch '+' then (false, s) else (false, b :: s)

def int64Bound (negative : Bool) : Nat := if negative then 2 ^ 63 else 2 ^ 63 - 1

def parseInt64 : Parser Byte Word := fun s =>
  let (negative, s) := parseSign s
  let digits := s.takeWhile isDigit
  let n := digits.foldl (fun n d => 10 * n + (d - ch '0').toNat) 0
  if digits = [] ∨ int64Bound negative < n then .failed
  else .matched (if negative then -.ofNat 64 n else .ofNat 64 n) (s.dropWhile isDigit)

def bool : Parser Byte Bool := symbols [(['t', 'r', 'u', 'e'], true), (['f', 'a', 'l', 's', 'e'], false)]

def quotedString : Parser Byte (List Byte) :=
  skip ((satisfy (· == ch '"')).bind fun _ => (span (· != ch '"')).bind fun s =>
    (satisfy (· == ch '"')).map fun _ => s)

def identifierRule : Parser Byte (List Byte) :=
  skip ((satisfy fun b => isAlpha b || b == ch '_').bind fun first =>
    (span fun b => isAlpha b || isDigit b || b == ch '_').map (first :: ·))

/-- What a language of expressions makes of the parts of a text. -/
structure Forms (ω σ : Type) where
  double : Word → σ
  int64 : Word → σ
  bool : Bool → σ
  string : List Byte → σ
  var : List (List Byte) → σ
  dynamicVar : List (List Byte) → σ
  func : List Byte → List σ → σ
  unary : ω → σ → σ
  cond : σ → σ → σ → σ
  expression : σ → List (ω × σ) → σ

/-! The rules that all three languages have. -/

section
variable {σ ω : Type} (expression : Parser Byte σ)

def parenthesised : Parser Byte σ :=
  (lit '(').bind fun _ => expression.expect.bind fun operand => (lit ')').expect.map fun _ => operand

def branches : Parser Byte (σ × σ) :=
  (lit '?').bind fun _ => expression.expect.bind fun rhsTrue => (lit ':').expect.bind fun _ =>
    expression.expect.map fun rhsFalse => (rhsTrue, rhsFalse)

namespace Forms
variable (f : Forms ω σ) (x : X3)

def constantRule : Parser Byte σ :=
  ((skip x.strictDouble).map f.double).orElse (((skip parseInt64).map f.int64).orElse
    ((Ssexpr.bool.map f.bool).orElse (quotedString.map f.string)))

def varRule : Parser Byte σ := (identifierRule.sepBy (lit '.')).map f.var

def dynamicVarRule : Parser Byte σ := (lit '$').bind fun _ => (identifierRule.sepBy (lit '.')).map f.dynamicVar

def funcRule : Parser Byte σ :=
  identifierRule.bind fun name => (lit '(').bind fun _ => (expression.sepBy (lit ',')).optional.bind fun args =>
    (lit ')').map fun _ => f.func name (args.getD [])

def primaryRule : Parser Byte σ :=
  (f.constantRule x).orElse ((f.funcRule expression).orElse (f.dynamicVarRule.orElse (f.varRule.orElse (parenthesised expression))))

def unaryRule (op : Parser Byte ω) : Parser Byte σ :=
  (f.primaryRule expression x).orElse (op.bind fun op => (f.primaryRule expression x).expect.map (f.unary op))

def condRule (logical : Parser Byte σ) : Parser Byte σ :=
  logical.bind fun lhs => (branches expression).optional.map fun
    | some (rhsTrue, rhsFalse) => f.cond lhs rhsTrue rhsFalse
    | none => lhs

end Forms

end

/-! The rules of `ssexpr` and `ssexpr2`. -/

def forms : Forms Optoken Operand :=
  ⟨.double, .int64, .bool, .string, .variable, .dynamicVariable, fun name args => .funcCall name (.ofList args), .unary, .condExpr,
    fun first rest => .expression first (.ofList rest)⟩

def logicalOp : Parser Byte Optoken := symbols [(['&', '&'], .and), (['|', '|'], .or)]

def equalityOp : Parser Byte Optoken := symbols [(['=', '='], .equal), (['!', '='], .notEqual)]

def relationalOp : Parser Byte Optoken :=
  symbols [(['<'], .less), (['<', '='], .lessEqual), (['>'], .greater), (['>', '='], .greaterEqual)]

def multiplicativeOp : Parser Byte Optoken := symbols [(['*'], .times), (['/'], .divide)]

def unaryOp : Parser Byte Optoken := symbols [(['+'], .positive), (['-'], .negative), (['!'], .not)]

def operations (op : Parser Byte Optoken) (operand : Parser Byte Operand) : Parser Byte Operand := .chain op operand forms.expression

section
variable (x : X3) (additiveOp : Parser Byte Optoken) (expression : Parser Byte Operand)

def primaryExpr : Parser Byte Operand := forms.primaryRule expression x

def unaryExpr : Parser Byte Operand := forms.unaryRule expression x unaryOp

def logicalExpr : Parser Byte Operand :=
  operations logicalOp <| operations equalityOp <| operations relationalOp <| operations additiveOp <|
    operations multiplicativeOp <| unaryExpr x expression

def condExpr : Parser Byte Operand := forms.condRule expression (logicalExpr x additiveOp expression)

end

/-- `phrase_parse` of an expression. -/
def phraseParse (x : X3) (additiveOp : Parser Byte Optoken) : Parser Byte Operand := phrase isSpace (condExpr x additiveOp)

def additiveOp : Parser Byte Optoken := symbols [(['+'], .plus), (['-'], .minus)]

end Myctk.Ssexpr

def Myctk.Ssexpr2.additiveOp : Lib.Peg.Parser Ssexpr.Byte Optoken :=
  Ssexpr.symbols [(['+'], .plus), (['-'], .minus), (['%'], .modulus)]

/-! The parse of a text ends, and how the operators of a level decide about the parse of the others. -/

namespace Myctk.Ssexpr
open Lib.Peg Parser List Ssexpr2

variable {x : X3} {additive : Parser Byte Optoken} {n : Nat}

lemma shrinks_symbols {α : Type} {table : List (List Char × α)} (proper : ∀ entry ∈ table, entry.1 ≠ []) :
    (symbols table).Shrinks n := by
  refine (Parser.shrinks_symbols ?_).skipping
  rintro _ member none
  obtain ⟨entry, here, rfl⟩ := mem_map.mp member
  exact proper entry here (map_eq_nil_iff.mp none)

lemma shrinks_lit (c : Char) : (lit c).Shrinks n := (shrinks_satisfy _).map.skipping

lemma parseSign_suffix (s : List Byte) : (parseSign s).2 <:+ s := by
  unfold parseSign
  split
  · exact suffix_rfl
  · split_ifs
    · exact suffix_cons _ _
    · exact suffix_cons _ _
    · exact suffix_rfl

lemma parseInt64_matched {s rest : List Byte} {a : Word} (here : parseInt64 s = .matched a rest) :
    rest.length < s.length := by
  have signed := parseSign_suffix s
  unfold parseInt64 at here
  generalize parseSign s = parts at here signed
  obtain ⟨negative, digits⟩ := parts
  dsimp only at here signed
  split at here
  · cases here
  · rename_i some
    cases here
    have positive := length_pos_iff.mpr fun none => some (.inl none)
    have parts := congrArg length (takeWhile_append_dropWhile (p := isDigit) (l := digits))
    rw [length_append] at parts
    have le := signed.length_le
    omega

lemma shrinks_parseInt64 : parseInt64.Shrinks n := by
  intro s _
  cases here : parseInt64 s with
  | matched a rest => exact parseInt64_matched here
  | failed | thrown => trivial
  | unfinished =>
    unfold parseInt64 at here
    generalize parseSign s = parts at here
    obtain ⟨negative, digits⟩ := parts
    dsimp only at here
    split at here <;> cases here

lemma shrinks_bool : bool.Shrinks n := shrinks_symbols (by decide)

lemma shrinks_quotedString : quotedString.Shrinks n := by
  refine Shrinks.skipping ((shrinks_satisfy _).bind fun _ => ?_)
  exact (ends_span _).bind fun _ => (shrinks_satisfy _).map.ends

lemma shrinks_identifierRule : identifierRule.Shrinks n :=
  Shrinks.skipping ((shrinks_satisfy _).bind fun _ => (ends_span _).map)

section
variable {σ ω : Type} {f : Forms ω σ} {e logical : Parser Byte σ} {op : Parser Byte ω} (inner : e.Shrinks n)
include inner

lemma Forms.shrinks_primaryRule : (f.primaryRule e x).Shrinks (n + 1) := by
  have constant : (f.constantRule x).Shrinks (n + 1) := (x.shrinks _).skipping.map.orElse <|
    shrinks_parseInt64.skipping.map.orElse <| shrinks_bool.map.orElse shrinks_quotedString.map
  have names (n : Nat) : (identifierRule.sepBy (lit '.')).Shrinks n := shrinks_identifierRule.sepBy (shrinks_lit _)
  have func : (f.funcRule e).Shrinks (n + 1) := by
    refine shrinks_identifierRule.bind fun _ => (shrinks_lit _).ends.bind fun _ => ?_
    exact (inner.sepBy (shrinks_lit _)).optional.bind fun _ => (shrinks_lit _).map.ends
  have dynamicVar : f.dynamicVarRule.Shrinks (n + 1) := (shrinks_lit _).bind fun _ => (names _).map.ends
  have parenthesised : (parenthesised e).Shrinks (n + 1) :=
    (shrinks_lit _).bind fun _ => inner.expect.ends.bind fun _ => (shrinks_lit _).expect.map.ends
  exact constant.orElse <| func.orElse <| dynamicVar.orElse <| Shrinks.orElse (names _).map parenthesised

lemma Forms.shrinks_unaryRule (ops : op.Shrinks (n + 1)) : (f.unaryRule e x op).Shrinks (n + 1) :=
  (shrinks_primaryRule inner).orElse <| ops.bind fun _ => ((shrinks_primaryRule inner).mono (Nat.le_succ n)).expect.map.ends

lemma Forms.shrinks_condRule (before : logical.Shrinks (n + 1)) : (f.condRule e logical).Shrinks (n + 1) := by
  have branches : (branches e).Shrinks (n + 1) := (shrinks_lit _).bind fun _ => inner.expect.ends.bind fun _ =>
    (shrinks_lit _).expect.ends.bind fun _ => inner.expect.map.ends
  exact before.bind fun _ => (branches.mono (Nat.le_succ n)).optional.map

end

lemma phraseParse_ne_unfinished (additives : ∀ n, additive.Shrinks n) (text : List Byte) :
    phraseParse x additive text ≠ .unfinished := by
  refine phrase_ne_unfinished (fun inner => Forms.shrinks_condRule inner ?_) text
  exact .chain (shrinks_symbols (by decide)) <| .chain (shrinks_symbols (by decide)) <| .chain (shrinks_symbols (by decide)) <|
    .chain (additives _) <| .chain (shrinks_symbols (by decide)) <| Forms.shrinks_unaryRule inner (shrinks_symbols (by decide))

end Myctk.Ssexpr
