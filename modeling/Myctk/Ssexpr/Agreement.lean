import Myctk.Ssexpr.Interpreter
import Myctk.Ssexpr2.Compiled
import Myctk.Ssexpr2.Resolve

/-! The common language of the two libraries. -/

namespace Myctk.Ssexpr
open Lib.Peg Parser Ssexpr2 List

mutual

/-- Made of `int64`, `bool` and string constants, binary operators, `?:` and the two signs. -/
def Operand.Common : Operand → Prop
  | .int64 _ | .bool _ | .string _ => True
  | .double _ | .variable _ | .dynamicVariable _ | .funcCall _ _ => False
  | .unary op operand => (op = .positive ∨ op = .negative) ∧ operand.Common
  | .condExpr lhs rhsTrue rhsFalse => lhs.Common ∧ rhsTrue.Common ∧ rhsFalse.Common
  | .expression first rest => first.Common ∧ rest.Common

def Operations.Common : Operations → Prop
  | .nil => True
  | .cons _ operand rest => operand.Common ∧ rest.Common

end

lemma Operations.common_ofList {rest : List (Optoken × Operand)} : (ofList rest).Common ↔ ∀ operation ∈ rest, operation.2.Common := by
  induction rest with
  | nil => simp [ofList, Common]
  | cons operation rest ih => simp [ofList, Common, ih]

def IsCommon (x : X3) (text : List Byte) (e : Operand) : Prop :=
  phraseParse x additiveOp text = .matched e [] ∧ e.Common

def AtModulus (s : List Byte) : Prop := (s.dropWhile isSpace).head? = some (ch '%')

lemma symbols_of_atModulus {α : Type} {table : List (List Char × α)} {s : List Byte} (stops : AtModulus s)
    (other : ∀ entry ∈ table, entry.1 ≠ [] ∧ (entry.1.map ch).head? ≠ some (ch '%')) : symbols table s = .failed := by
  obtain ⟨rest, here⟩ := head?_eq_some_iff.mp stops
  show Parser.symbols _ (s.dropWhile isSpace) = .failed
  rw [here]
  refine symbols_of_head ?_
  intro _ member
  obtain ⟨entry, here, rfl⟩ := mem_map.mp member
  exact ⟨fun none => (other entry here).1 (map_eq_nil_iff.mp none), (other entry here).2⟩

lemma lit_of_atModulus {c : Char} {s : List Byte} (stops : AtModulus s) (other : ch '%' ≠ ch c) : lit c s = .failed := by
  obtain ⟨rest, here⟩ := head?_eq_some_iff.mp stops
  refine bind_of_failed ?_
  rw [here, satisfy, if_neg]
  exact fun same => other (beq_iff_eq.mp same)

lemma additiveOp_cases (s : List Byte) : (∃ op rest, additiveOp s = .matched op rest ∧ Ssexpr2.additiveOp s = .matched op rest) ∨
      additiveOp s = .failed ∧ (Ssexpr2.additiveOp s = .failed ∨ AtModulus s) := by
  unfold additiveOp Ssexpr2.additiveOp symbols skip skipping AtModulus
  cases s.dropWhile isSpace with
  | nil => exact .inr ⟨rfl, .inl rfl⟩
  | cons b rest =>
    by_cases plus : b = ch '+'
    · subst plus
      exact .inl ⟨.plus, rest, rfl, rfl⟩
    · by_cases minus : b = ch '-'
      · subst minus
        exact .inl ⟨.minus, rest, rfl, rfl⟩
      · have neither : Parser.symbols [([ch '+'], Optoken.plus), ([ch '-'], .minus)] (b :: rest) = .failed :=
          symbols_of_head (by simp [Ne.symm plus, Ne.symm minus])
        refine .inr ⟨neither, ?_⟩
        by_cases modulus : b = ch '%'
        · exact .inr (congrArg some modulus)
        · exact .inl (symbols_of_head (by simp [Ne.symm plus, Ne.symm minus, Ne.symm modulus]))

section
variable {x : X3} {e e' operand operand' : Parser Byte Operand} {op op' : Parser Byte Optoken} {s : List Byte}

lemma parenthesised_failed (none : parenthesised e s = .failed) : lit '(' s = .failed := by
  rcases bind_eq_failed.mp none with none | ⟨_, _, _, none⟩
  · exact none
  · rcases bind_eq_failed.mp none with none | ⟨_, _, _, none⟩
    · exact absurd none expect_ne_failed
    · exact absurd (map_eq_failed none) expect_ne_failed

lemma identifierRule_failed (none : forms.varRule s = .failed) : identifierRule s = .failed :=
  sepBy_eq_failed (map_eq_failed none)

lemma primaryExpr_failed (none : primaryExpr x e s = .failed) : primaryExpr x e' s = .failed := by
  obtain ⟨noConstant, none⟩ := orElse_eq_failed.mp none
  obtain ⟨-, none⟩ := orElse_eq_failed.mp none
  obtain ⟨noDynamicVar, none⟩ := orElse_eq_failed.mp none
  obtain ⟨noVar, none⟩ := orElse_eq_failed.mp none
  have noFunc : forms.funcRule e' s = .failed := bind_of_failed (identifierRule_failed noVar)
  have noParenthesis : parenthesised e' s = .failed := bind_of_failed (parenthesised_failed none)
  simp only [primaryExpr, Forms.primaryRule, orElse_eq_failed]
  exact ⟨noConstant, noFunc, noDynamicVar, noVar, noParenthesis⟩

section
variable (inner : e.Follows Operand.Common AtModulus e')
include inner

lemma follows_parenthesised : (parenthesised e).Follows Operand.Common AtModulus (parenthesised e') := by
  intro s a rest here common
  obtain ⟨⟨⟩, afterOpen, opened, here⟩ := bind_eq_matched.mp here
  obtain ⟨operand, afterOperand, inside, here⟩ := bind_eq_matched.mp here
  obtain ⟨⟨⟩, closed, rfl⟩ := map_eq_matched.mp here
  rcases inner.expect afterOpen operand afterOperand inside common with there | stops
  · left
    refine bind_eq_matched.mpr ⟨(), afterOpen, opened, ?_⟩
    exact bind_eq_matched.mpr ⟨operand, afterOperand, there, map_of_matched closed⟩
  · -- a `%` is no closing parenthesis
    rw [expect_eq_matched, lit_of_atModulus stops (by decide)] at closed
    cases closed

lemma follows_primaryExpr : (primaryExpr x e).Follows Operand.Common AtModulus (primaryExpr x e') := by
  intro s a rest here common
  rcases orElse_eq_matched.mp here with here | ⟨noConstant, here⟩
  · exact .inl (orElse_of_matched here)
  rcases orElse_eq_matched.mp here with here | ⟨-, here⟩
  · obtain ⟨_, _, -, here⟩ := bind_eq_matched.mp here
    obtain ⟨_, _, -, here⟩ := bind_eq_matched.mp here
    obtain ⟨_, _, -, here⟩ := bind_eq_matched.mp here
    obtain ⟨_, -, rfl⟩ := map_eq_matched.mp here
    exact common.elim
  rcases orElse_eq_matched.mp here with here | ⟨noDynamicVar, here⟩
  · obtain ⟨_, _, -, here⟩ := bind_eq_matched.mp here
    obtain ⟨_, -, rfl⟩ := map_eq_matched.mp here
    exact common.elim
  rcases orElse_eq_matched.mp here with here | ⟨noVar, here⟩
  · obtain ⟨_, -, rfl⟩ := map_eq_matched.mp here
    exact common.elim
  have noFunc : forms.funcRule e' s = .failed := bind_of_failed (identifierRule_failed noVar)
  rw [primaryExpr, Forms.primaryRule, orElse_of_failed noConstant, orElse_of_failed noFunc, orElse_of_failed noDynamicVar,
    orElse_of_failed noVar]
  exact follows_parenthesised inner s a rest here common

lemma follows_unaryExpr : (unaryExpr x e).Follows Operand.Common AtModulus (unaryExpr x e') := by
  intro s a rest here common
  rcases orElse_eq_matched.mp here with here | ⟨none, here⟩
  · rcases follows_primaryExpr inner s a rest here common with there | stops
    · exact .inl (orElse_of_matched there)
    · exact .inr stops
  · obtain ⟨op, afterOp, sign, here⟩ := bind_eq_matched.mp here
    obtain ⟨operand, signed, rfl⟩ := map_eq_matched.mp here
    rcases (follows_primaryExpr inner).expect afterOp operand rest signed common.2 with there | stops
    · left
      have failed : forms.primaryRule e' x s = .failed := primaryExpr_failed none
      rw [unaryExpr, Forms.unaryRule, orElse_of_failed failed, bind_of_matched sign]
      exact map_of_matched there
    · exact .inr stops

end

lemma follows_operations (inner : operand.Follows Operand.Common AtModulus operand')
    (ops : ∀ s o rest, op s = .matched o rest → op' s = .matched o rest)
    (fails : ∀ s, op s = .failed → op' s = .failed ∨ AtModulus s) (halts : ∀ s, AtModulus s → op s = .failed) :
    (operations op operand).Follows Operand.Common AtModulus (operations op' operand') := by
  have items : (op.bind fun o => operand.expect.map (o, ·)).Follows (fun operation => operation.2.Common) AtModulus
      (op'.bind fun o => operand'.expect.map (o, ·)) := by
    intro s operation rest here common
    obtain ⟨o, between, before, here⟩ := bind_eq_matched.mp here
    rw [bind_of_matched (ops s o between before)]
    have operands : (operand.expect.map (o, ·)).Follows (fun operation => operation.2.Common) AtModulus
        (operand'.expect.map (o, ·)) := inner.expect.map fun _ common => common
    exact operands between operation rest here common
  have itemsFail (s : List Byte) (none : (op.bind fun o => operand.expect.map (o, ·)) s = .failed) :
      (op'.bind fun o => operand'.expect.map (o, ·)) s = .failed ∨ AtModulus s := by
    rcases bind_eq_failed.mp none with none | ⟨_, _, _, none⟩
    · exact (fails s none).imp_left bind_of_failed
    · exact absurd (map_eq_failed none) expect_ne_failed
  have itemsHalt (s : List Byte) (stops : AtModulus s) : (op.bind fun o => operand.expect.map (o, ·)) s = .failed :=
    bind_of_failed (halts s stops)
  refine inner.bind (fun first => (items.many itemsFail itemsHalt).map fun rest common => ?_) ?_ ?_
  · exact Operations.common_ofList.mp common.2
  · intro first s b rest here common
    obtain ⟨_, -, rfl⟩ := map_eq_matched.mp here
    exact common.1
  · intro first s b rest stops here
    obtain ⟨_, here, -⟩ := map_eq_matched.mp here
    rwa [manyWithin_of_failed (itemsHalt s stops) here]

lemma follows_operations_symbols {table : List (List Char × Optoken)} (inner : operand.Follows Operand.Common AtModulus operand')
    (other : ∀ entry ∈ table, entry.1 ≠ [] ∧ (entry.1.map ch).head? ≠ some (ch '%')) :
    (operations (symbols table) operand).Follows Operand.Common AtModulus (operations (symbols table) operand') :=
  follows_operations inner (fun _ _ _ here => here) (fun _ none => .inl none) fun _ stops =>
    symbols_of_atModulus stops other

lemma branches_failed (none : branches e s = .failed) : lit '?' s = .failed := by
  rcases bind_eq_failed.mp none with none | ⟨_, _, _, none⟩
  · exact none
  · rcases bind_eq_failed.mp none with none | ⟨_, _, _, none⟩
    · exact absurd none expect_ne_failed
    · rcases bind_eq_failed.mp none with none | ⟨_, _, _, none⟩
      · exact absurd none expect_ne_failed
      · exact absurd (map_eq_failed none) expect_ne_failed

section
variable (inner : e.Follows Operand.Common AtModulus e')
include inner

lemma follows_logicalExpr : (logicalExpr x additiveOp e).Follows Operand.Common AtModulus (logicalExpr x Ssexpr2.additiveOp e') := by
  refine follows_operations_symbols (follows_operations_symbols (follows_operations_symbols ?_ (by decide)) (by decide))
    (by decide)
  refine follows_operations (follows_operations_symbols (follows_unaryExpr inner) (by decide)) ?_ ?_ ?_
  · intro s o rest here
    rcases additiveOp_cases s with ⟨o', rest', first, second⟩ | ⟨none, -⟩
    · rw [first] at here
      rw [second, here]
    · rw [none] at here
      cases here
  · intro s none
    rcases additiveOp_cases s with ⟨o', rest', first, second⟩ | ⟨-, last⟩
    · rw [first] at none
      cases none
    · exact last
  · exact fun s stops => symbols_of_atModulus stops (by decide)

lemma follows_branches : (branches e).Follows (fun both => both.1.Common ∧ both.2.Common) AtModulus (branches e') := by
  intro s both rest here common
  obtain ⟨⟨⟩, afterQuestion, asked, here⟩ := bind_eq_matched.mp here
  obtain ⟨rhsTrue, afterTrue, yes, here⟩ := bind_eq_matched.mp here
  obtain ⟨⟨⟩, afterColon, colon, here⟩ := bind_eq_matched.mp here
  obtain ⟨rhsFalse, no, rfl⟩ := map_eq_matched.mp here
  rcases inner.expect _ _ _ yes common.1 with yes | stops
  · rcases inner.expect _ _ _ no common.2 with no | stops
    · left
      refine bind_eq_matched.mpr ⟨(), afterQuestion, asked, ?_⟩
      refine bind_eq_matched.mpr ⟨rhsTrue, afterTrue, yes, ?_⟩
      exact bind_eq_matched.mpr ⟨(), afterColon, colon, map_of_matched no⟩
    · exact .inr stops
  · rw [expect_eq_matched, lit_of_atModulus stops (by decide)] at colon
    cases colon

lemma follows_condExpr : (condExpr x additiveOp e).Follows Operand.Common AtModulus (condExpr x Ssexpr2.additiveOp e') := by
  have optional := (follows_branches inner).optional fun s none => .inl (bind_of_failed (branches_failed none))
  refine (follows_logicalExpr inner).bind (fun lhs => optional.map ?_) ?_ ?_
  · rintro _ common both rfl
    exact common.2
  · intro lhs s b rest here common
    obtain ⟨both, -, rfl⟩ := map_eq_matched.mp here
    cases both with
    | none => exact common
    | some both => exact common.1
  · intro lhs s b rest stops here
    have none : branches e s = .failed := bind_of_failed (lit_of_atModulus stops (by decide))
    rw [map_of_matched (optional_of_failed none)] at here
    cases here
    exact stops

end

lemma follows_expression (depth : Nat) :
    (nested (condExpr x additiveOp) depth).Follows Operand.Common AtModulus (nested (condExpr x Ssexpr2.additiveOp) depth) := by
  induction depth with
  | zero => intro s a rest here; cases here
  | succ depth ih => exact follows_condExpr ih

lemma IsCommon.phraseParse_eq {text : List Byte} {a : Operand} (common : IsCommon x text a) :
    phraseParse x Ssexpr2.additiveOp text = .matched a [] := by
  obtain ⟨parsed, common⟩ := common
  unfold phraseParse phrase at parsed ⊢
  cases here : nested (condExpr x additiveOp) (text.length + 1) text with
  | matched b rest =>
    rw [here] at parsed
    obtain ⟨rfl, whole⟩ := Result.matched.inj parsed
    rcases follows_expression (text.length + 1) text b rest here common with there | stops
    · rw [there]
      exact parsed
    · rw [AtModulus, whole] at stops
      cases stops
  | _ =>
    rw [here] at parsed
    cases parsed

end

/-! The two libraries side by side: where the interpreter of `ssexpr` gives a value, what does the code that `ssexpr2`
    compiles of the same text return? -/

open Option Ssexpr2.Value

section
variable (ctx : EvalContext)

mutual

def evaluated : Operand → List Operand
  | .unary op operand => .unary op operand :: evaluated operand
  | .condExpr lhs rhsTrue rhsFalse =>
    .condExpr lhs rhsTrue rhsFalse :: evaluated lhs ++
      match interpret ctx lhs with
      | some (.bool true) => evaluated rhsTrue
      | some (.bool false) => evaluated rhsFalse
      | _ => []
  | .funcCall func args => .funcCall func args :: evaluatedArgs args
  | .expression first rest =>
    .expression first rest :: evaluated first ++
      match interpret ctx first with
      | some v => evaluatedRest rest v
      | none => []
  | e => [e]

def evaluatedArgs : Operands → List Operand
  | .nil => []
  | .cons arg args => evaluated arg ++ evaluatedArgs args

def evaluatedRest : Operations → Value → List Operand
  | .nil, _ => []
  | .cons op operand rest, state =>
    (if settles op state then [] else evaluated operand) ++
      match operate op state (interpret ctx operand) with
      | some state => evaluatedRest rest state
      | none => []

end

def SignKept : Operand → Prop
  | .unary .negative operand => ∀ n, interpret ctx operand = some (.int64 n) → 0 - n = n
  | _ => True

def TestIsBool : Operand → Prop
  | .condExpr lhs _ _ => ∃ b, interpret ctx lhs = some (.bool b)
  | _ => True

def Every (P : Operand → Prop) (e : Operand) : Prop := ∀ operand ∈ evaluated ctx e, P operand

def EveryRest (P : Operand → Prop) (rest : Operations) (state : Value) : Prop :=
  ∀ operand ∈ evaluatedRest ctx rest state, P operand

end

section
variable {ctx : EvalContext} {P : Operand → Prop} {op : Optoken} {operand lhs rhsTrue rhsFalse : Operand} {rest : Operations}

lemma every_unary : Every ctx P (.unary op operand) ↔ P (.unary op operand) ∧ Every ctx P operand := by
  simp [Every, evaluated]

lemma every_condExpr_lhs (all : Every ctx P (.condExpr lhs rhsTrue rhsFalse)) :
    P (.condExpr lhs rhsTrue rhsFalse) ∧ Every ctx P lhs := by
  simp only [Every, evaluated, List.mem_append, List.mem_cons] at all
  exact ⟨all _ (.inl (.inl rfl)), fun operand member => all operand (.inl (.inr member))⟩

lemma every_condExpr {b : Bool} (test : interpret ctx lhs = some (.bool b)) : Every ctx P (.condExpr lhs rhsTrue rhsFalse) ↔
      P (.condExpr lhs rhsTrue rhsFalse) ∧ Every ctx P lhs ∧ Every ctx P (if b then rhsTrue else rhsFalse) := by
  cases b <;> simp [Every, evaluated, test, or_imp, forall_and]

lemma every_expression {first : Operand} {v : Value} (begins : interpret ctx first = some v) :
    Every ctx P (.expression first rest) ↔ P (.expression first rest) ∧ Every ctx P first ∧ EveryRest ctx P rest v := by
  simp [Every, EveryRest, evaluated, begins, or_imp, forall_and]

lemma everyRest_cons {v v' : Value} (result : operate op v (interpret ctx operand) = some v') :
    EveryRest ctx P (.cons op operand rest) v ↔ (settles op v = false → Every ctx P operand) ∧ EveryRest ctx P rest v' := by
  cases settled : settles op v <;> simp [Every, EveryRest, evaluatedRest, result, settled, or_imp, forall_and]

end

section
variable {mem : Memory} {u v v' : Value} {w w' : Ssexpr2.Value}

def Same (mem : Memory) : Value → Ssexpr2.Value → Prop
  | .bool b, w => w = .ofBool b
  | .int64 n, w => w = ⟨n, Ssexpr2.vInt64Value, 0⟩
  | .string s, w => ∃ address, w = ⟨address, Ssexpr2.vStdString, 0⟩ ∧ mem.Has address s
  | _, _ => False

lemma Same.type_ne_zero (same : Same mem v w) : w.type ≠ 0 := by
  cases v with
  | bool b =>
    subst same
    exact (by decide : Ssexpr2.vBoolValue ≠ 0)
  | int64 n =>
    subst same
    exact (by decide : Ssexpr2.vInt64Value ≠ 0)
  | string s =>
    obtain ⟨_, rfl, -⟩ := same
    exact (by decide : Ssexpr2.vStdString ≠ 0)
  | _ => exact same.elim

lemma Same.normValue (same : Same mem v w) : Ssexpr2.normValue mem w = w := by
  cases v with
  | bool b => subst same; rfl
  | int64 n => subst same; rfl
  | string s => obtain ⟨_, rfl, -⟩ := same; rfl
  | _ => exact same.elim

lemma getBool_ofBool (b : Bool) : mem.getBool (.ofBool b) = b := by cases b <;> rfl

lemma getString_has {address : Word} {s : List Byte} (placed : mem.Has address s) :
    mem.getString ⟨address, Ssexpr2.vStdString, 0⟩ = s := by
  rw [Memory.getString, if_neg placed.1, if_pos rfl, placed.2]

lemma bools_of_logical {bool : Bool → Bool → Bool} (fine : (logical bool v v').isError = false) :
    ∃ b b', v = .bool b ∧ v' = .bool b' := by
  cases v with
  | bool b =>
    cases v' with
    | bool b' => exact ⟨b, b', rfl, rfl⟩
    | _ => cases fine
  | _ => cases fine

section
variable (left : Same mem v w) (right : Same mem v' w')
include left right

lemma same_arithmetic {double : Float → Float → Float} {int : Word → Word → Option Word}
    (here : arithmetic double int v v' = some u) (fine : u.isError = false) :
    ∃ u', Ssexpr2.doArithmetic double int w w' = some u' ∧ Same mem u u' := by
  cases v with
  | int64 n =>
    cases v' with
    | int64 n' =>
      subst left right
      obtain ⟨k, result, rfl⟩ := map_eq_some_iff.mp here
      refine ⟨⟨k, Ssexpr2.vInt64Value, 0⟩, ?_, rfl⟩
      show (int n n').map _ = _
      rw [result]
      rfl
    | error _ _ | double _ | pointer _ => exact right.elim
    | _ => cases here; cases fine
  | error _ _ | double _ | pointer _ => exact left.elim
  | _ =>
    cases v' with
    | error _ _ | double _ | pointer _ => exact right.elim
    | _ => cases here; cases fine

variable {string : List Byte → List Byte → Bool} {double : Float → Float → Bool} {int : Int → Int → Bool}

lemma same_compare {bool : Bool → Bool → Bool} (fine : (equality bool int double string v v').isError = false) :
    Same mem (equality bool int double string v v') (Ssexpr2.doCompare mem bool string double int w w') := by
  cases v with
  | bool b =>
    cases v' with
    | bool b' =>
      subst left right
      show ofBool (bool (mem.getBool (.ofBool b)) (mem.getBool (.ofBool b'))) = _
      rw [getBool_ofBool, getBool_ofBool]
    | _ => cases fine
  | int64 n =>
    cases v' with
    | int64 n' =>
      subst left right
      rfl
    | error _ _ | double _ | pointer _ => exact right.elim
    | _ => cases fine
  | string s =>
    cases v' with
    | string s' =>
      obtain ⟨address, rfl, placed⟩ := left
      obtain ⟨address', rfl, placed'⟩ := right
      show ofBool (string (mem.getString _) (mem.getString _)) = _
      rw [getString_has placed, getString_has placed']
    | error _ _ | double _ | pointer _ => exact right.elim
    | _ => cases fine
  | _ => exact left.elim

lemma same_relational (bool : Bool → Bool → Bool) (fine : (relational int double string v v').isError = false) :
    Same mem (relational int double string v v') (Ssexpr2.doCompare mem bool string double int w w') := by
  have both : equality bool int double string v v' = relational int double string v v' := by
    cases v with
    | bool b => cases fine
    | _ => rfl
  rw [← both] at fine ⊢
  exact same_compare left right fine

lemma calcVisitor_same {op : Optoken} (here : calcVisitor op v v' = some u) (fine : u.isError = false) :
    ∃ u', Ssexpr2.calcPairValue mem w w' op = some u' ∧ Same mem u u' := by
  unfold Ssexpr2.calcPairValue
  rw [if_neg left.type_ne_zero, if_neg right.type_ne_zero, left.normValue, right.normValue]
  cases op with
  | plus | minus | times | divide => exact same_arithmetic left right here fine
  | equal | notEqual =>
    cases here
    exact ⟨_, rfl, same_compare left right fine⟩
  | less | lessEqual | greater | greaterEqual =>
    cases here
    exact ⟨_, rfl, same_relational left right _ fine⟩
  | and | or =>
    cases here
    obtain ⟨b, b', rfl, rfl⟩ := bools_of_logical fine
    subst left right
    refine ⟨.ofBool _, congrArg some ?_, rfl⟩
    cases b <;> cases b' <;> rfl
  | positive | negative | not | modulus =>
    cases here
    cases fine

end

end

section
variable {ω : Type} {mem : Memory} {memory : ω → Memory} {names : Names} {c : Ssexpr2.Callees ω} {obj evalCtx : Word}
  {ctx : EvalContext} {world : ω} {v v' : Value} {tests tests' : Prop}

inductive Matches (mem : Memory) (world : ω) (v : Value) (tests : Prop) : Option (Ssexpr2.Outcome Ssexpr2.Value ω) → Prop
  | value {w : Ssexpr2.Value} (bools : tests) (same : Same mem v w) : Matches mem world v tests (some (.value w world))
  | aborted (other : ¬ tests) : Matches mem world v tests (some (.aborted world))

lemma Matches.congr {o : Option (Ssexpr2.Outcome Ssexpr2.Value ω)} (here : Matches mem world v tests o)
    (alike : tests ↔ tests') : Matches mem world v tests' o := propext alike ▸ here

variable {e : Ssexpr2.Eval ω Ssexpr2.Value} {op : Optoken}

lemma Matches.bind {f : Ssexpr2.Value → Ssexpr2.Eval ω Ssexpr2.Value} (first : Matches mem world v tests (e world))
    (later : tests → ∀ w, Same mem v w → Matches mem world v' tests' (f w world)) (part : tests' → tests) :
    Matches mem world v' tests' (e.bind f world) := by
  unfold Ssexpr2.Eval.bind
  generalize e world = o at first
  cases first with
  | value bools same => exact later bools _ same
  | aborted other => exact .aborted fun all => other (part all)

lemma calcVisitor_isError {u : Value} (error : v.isError = true ∨ v'.isError = true)
    (here : calcVisitor op v v' = some u) : u.isError = true := by
  rcases error with error | error
  · cases v with
    | error code reason => cases op <;> (cases here; rfl)
    | _ => cases error
  · cases v' with
    | error code reason => cases v <;> cases op <;> (cases here; rfl)
    | _ => cases error

lemma settles_isError (error : v.isError = true) : settles op v = false := by
  cases v with
  | error code reason => cases op <;> rfl
  | _ => cases error

lemma interpretRest_isError :
    ∀ (rest : Operations) {v v' : Value}, interpretRest ctx rest v = some v' → v.isError = true → v'.isError = true
  | .nil, _, _, rfl, error => error
  | .cons op operand rest, v, v', here, error => by
    obtain ⟨u, result, here⟩ := bind_eq_some_iff.mp here
    unfold operate at result
    rw [settles_isError error, if_neg Bool.false_ne_true] at result
    obtain ⟨rhs, -, result⟩ := bind_eq_some_iff.mp result
    exact interpretRest_isError rest here (calcVisitor_isError (.inl error) result)

lemma isError_of_interpretRest {rest : Operations} (here : interpretRest ctx rest v = some v')
    (fine : v'.isError = false) : v.isError = false := by
  cases error : v.isError with
  | false => rfl
  | true =>
    rw [interpretRest_isError rest here error] at fine
    cases fine

lemma isError_of_calcVisitor {u : Value} (here : calcVisitor op v v' = some u) (fine : u.isError = false) : v'.isError = false := by
  cases error : v'.isError with
  | false => rfl
  | true =>
    rw [calcVisitor_isError (.inr error) here] at fine
    cases fine

lemma test_aborted {w : Ssexpr2.Value} (same : Same mem v w) (other : ∀ b, v ≠ .bool b) :
    Ssexpr2.test c w world = some (.aborted world) := by
  cases v with
  | bool b => exact absurd rfl (other b)
  | int64 n =>
    subst same
    rfl
  | string s =>
    obtain ⟨_, rfl, -⟩ := same
    rfl
  | _ => exact same.elim

lemma interpret_condExpr {lhs rhsTrue rhsFalse : Operand} (here : interpret ctx (.condExpr lhs rhsTrue rhsFalse) = some v) :
    (∃ b, interpret ctx lhs = some (.bool b) ∧ interpret ctx (if b then rhsTrue else rhsFalse) = some v) ∨
      interpret ctx lhs = some v ∧ ∀ b, v ≠ .bool b := by
  unfold interpret at here
  split at here
  · rename_i tested
    exact .inl ⟨true, tested, here⟩
  · rename_i tested
    exact .inl ⟨false, tested, here⟩
  · rename_i no yes
    refine .inr ⟨here, ?_⟩
    rintro (_ | _) rfl
    · exact yes here
    · exact no here

lemma settles_eq_true (settled : settles op v = true) : op = .and ∧ v = .bool false ∨ op = .or ∧ v = .bool true := by
  cases v with
  | bool b => cases op <;> cases b <;> simp_all [settles]
  | _ => cases op <;> cases settled

lemma evalPair_matches {u : Value} {w : Ssexpr2.Value}
    (atWorld : memory world = mem) (same : Same mem v w) (right : Matches mem world u tests (e world))
    (here : calcVisitor op v u = some v') (fine : v'.isError = false) :
    Matches mem world v' tests (e.bind (Ssexpr2.evalPair memory op w) world) := by
  refine right.bind (fun bools w' same' => ?_) id
  obtain ⟨result, computed, same''⟩ := calcVisitor_same same same' here fine
  have pair : Ssexpr2.evalPair memory op w w' world = some (.value result world) := by
    simp [Ssexpr2.evalPair, Ssexpr2.Eval.ofCall, atWorld, computed]
  rw [pair]
  exact .value bools same''

lemma operate_matches {rhs : Option Value} {w : Ssexpr2.Value}
    (atWorld : memory world = mem) (same : Same mem v w) (here : operate op v rhs = some v') (fine : v'.isError = false)
    (right : ∀ u, settles op v = false → rhs = some u → u.isError = false → Matches mem world u tests (e world)) :
    Matches mem world v' (settles op v = false → tests) (Ssexpr2.operate memory c op w e world) := by
  unfold operate at here
  cases settled : settles op v with
  | true =>
    rw [settled, if_pos rfl] at here
    cases here
    rcases settles_eq_true settled with ⟨rfl, rfl⟩ | ⟨rfl, rfl⟩
    · subst same
      exact .value (fun other => nomatch other) rfl
    · subst same
      exact .value (fun other => nomatch other) rfl
  | false =>
    rw [settled, if_neg Bool.false_ne_true] at here
    obtain ⟨u, evaluated, here⟩ := bind_eq_some_iff.mp here
    have operand := right u settled evaluated (isError_of_calcVisitor here fine)
    have pair := evalPair_matches atWorld same operand here fine
    refine Matches.congr ?_ (forall_prop_of_true rfl).symm
    cases op with
    | and =>
      cases here
      obtain ⟨b, _, rfl, -⟩ := bools_of_logical fine
      cases b with
      | false => cases settled
      | true =>
        subst same
        exact pair
    | or =>
      cases here
      obtain ⟨b, _, rfl, -⟩ := bools_of_logical fine
      cases b with
      | false =>
        subst same
        exact pair
      | true => cases settled
    | _ => exact pair

mutual

theorem interpret_matches (atWorld : memory world = mem) :
    ∀ (e : Operand) {e' : Ssexpr2.Operand} {v : Value}, e.Common → Resolves names mem e e' → Every ctx (SignKept ctx) e →
    interpret ctx e = some v → v.isError = false →
    Matches mem world v (Every ctx (TestIsBool ctx) e) (Ssexpr2.eval memory c obj evalCtx e' world)
  | .int64 n, _, _, _, .int64 _, _, rfl, _ => .value (by simp [Every, evaluated, TestIsBool]) rfl
  | .bool b, _, _, _, .bool _, _, rfl, _ => .value (by simp [Every, evaluated, TestIsBool]) rfl
  | .string s, _, _, _, .string placed, _, rfl, _ =>
    .value (by simp [Every, evaluated, TestIsBool]) ⟨_, rfl, placed⟩
  | .unary op operand, _, v, ⟨sign, common⟩, .unary inner, signs, here, fine => by
    obtain ⟨u, first, rfl⟩ := map_eq_some_iff.mp here
    obtain ⟨kept, signs⟩ := every_unary.mp signs
    have fine' : u.isError = false := by
      cases u with
      | error _ _ => rcases sign with rfl | rfl <;> cases fine
      | _ => rfl
    have before := interpret_matches atWorld operand common inner signs first fine'
    refine before.bind (fun bools w same => .value (every_unary.mpr ⟨trivial, bools⟩) ?_) fun all => (every_unary.mp all).2
    cases u with
    | int64 n =>
      subst same
      rcases sign with rfl | rfl
      · rfl
      · show _ = _
        rw [kept n first]
        rfl
    | double _ | pointer _ => exact same.elim
    | _ => rcases sign with rfl | rfl <;> cases fine
  | .condExpr lhs rhsTrue rhsFalse, _, v, ⟨common₁, common₂, common₃⟩, .condExpr test yes no, signs, here, fine => by
    have signs₁ := (every_condExpr_lhs signs).2
    rcases interpret_condExpr here with ⟨b, tested, here⟩ | ⟨tested, other⟩
    · have before := interpret_matches atWorld lhs common₁ test signs₁ tested rfl
      have signs₂ := ((every_condExpr tested).mp signs).2.2
      refine before.bind (fun bools w same => ?_) fun all => ((every_condExpr tested).mp all).2.1
      have alike : Every ctx (TestIsBool ctx) (if b then rhsTrue else rhsFalse) ↔
          Every ctx (TestIsBool ctx) (.condExpr lhs rhsTrue rhsFalse) :=
        ⟨fun later => (every_condExpr tested).mpr ⟨⟨b, tested⟩, bools, later⟩, fun all => ((every_condExpr tested).mp all).2.2⟩
      subst same
      cases b with
      | false => exact (interpret_matches atWorld rhsFalse common₃ no signs₂ here fine).congr alike
      | true => exact (interpret_matches atWorld rhsTrue common₂ yes signs₂ here fine).congr alike
    · -- the value of the test is the result in one library and an error in the other
      have before := interpret_matches atWorld lhs common₁ test signs₁ tested fine
      refine before.bind (fun _ w same => ?_) fun all => (every_condExpr_lhs all).2
      unfold Ssexpr2.Eval.bind
      rw [test_aborted same other]
      refine .aborted fun all => ?_
      obtain ⟨b, isBool⟩ := (every_condExpr_lhs all).1
      rw [tested] at isBool
      exact other b (some.inj isBool)
  | .expression first rest, _, v, ⟨common₁, common₂⟩, .expression begins each, signs, here, fine => by
    obtain ⟨u, begun, here⟩ := bind_eq_some_iff.mp here
    obtain ⟨-, signs₁, signs₂⟩ := (every_expression begun).mp signs
    have before := interpret_matches atWorld first common₁ begins signs₁ begun (isError_of_interpretRest here fine)
    refine before.bind (fun bools w same => ?_) fun all => ((every_expression begun).mp all).2.1
    refine (interpretRest_matches atWorld rest common₂ each signs₂ same here fine).congr ⟨fun later => ?_, fun all => ?_⟩
    · exact (every_expression begun).mpr ⟨trivial, bools, later⟩
    · exact ((every_expression begun).mp all).2.2

theorem interpretRest_matches (atWorld : memory world = mem) :
    ∀ (rest : Operations) {rest' : Ssexpr2.Operations} {v v' : Value} {w : Ssexpr2.Value}, rest.Common →
    ResolvesRest names mem rest rest' → EveryRest ctx (SignKept ctx) rest v → Same mem v w →
    interpretRest ctx rest v = some v' → v'.isError = false →
    Matches mem world v' (EveryRest ctx (TestIsBool ctx) rest v) (Ssexpr2.evalRest memory c obj evalCtx rest' w world)
  | .nil, _, _, _, _, _, .nil, _, same, rfl, _ => .value (by simp [EveryRest, evaluatedRest]) same
  | .cons op operand rest, _, v, v', w, ⟨common₁, common₂⟩, .cons first later, signs, same, here, fine => by
    obtain ⟨u, result, here⟩ := bind_eq_some_iff.mp here
    obtain ⟨signs₁, signs₂⟩ := (everyRest_cons result).mp signs
    have fine' := isError_of_interpretRest here fine
    have one := operate_matches (c := c) atWorld same result fine' fun u' needed here fine =>
      interpret_matches atWorld operand common₁ first (signs₁ needed) here fine
    refine one.bind (fun bools w' same' => ?_) fun all => ((everyRest_cons result).mp all).1
    refine (interpretRest_matches atWorld rest common₂ later signs₂ same' here fine).congr ⟨fun later => ?_, fun all => ?_⟩
    · exact (everyRest_cons result).mpr ⟨bools, later⟩
    · exact ((everyRest_cons result).mp all).2

end

end

end Myctk.Ssexpr
