import Myctk.Ssexpr.Grammar

/-! From the tree that is parsed to the tree that code is generated from (`Initializer`,
    `ssexpr2/spirit_jit_expression.cpp`): names become accesses and functions, and the strings lie in memory. -/

namespace Myctk.Ssexpr2
open List Ssexpr

structure Names where
  functions : List Byte → Option Word
  getMemberAccess : List (List Byte) → Option (List Access)

/-- The name of a dynamic variable. -/
def fullName (name : List (List Byte)) : List Byte :=
  name.foldl (fun full v => (if full ≠ [] then full ++ replicate (Ssexpr.ch '.').toNat 1 else full) ++ v) []

def Memory.Has (mem : Memory) (address : Word) (s : List Byte) : Prop := address ≠ 0 ∧ mem.stdString address = s

/-- The parts with single dots between them. -/
def dottedName : List (List Byte) → List Byte
  | [] => []
  | part :: parts => part ++ parts.flatMap (Ssexpr.ch '.' :: ·)

/-- The arguments of `append` are a count and a character, so that 46 bytes 1 stand for a dot. -/
lemma fullName_cons {part : List Byte} (word : part ≠ []) (parts : List (List Byte)) :
    fullName (part :: parts) = part ++ parts.flatMap (replicate 46 1 ++ ·) := by
  show parts.foldl _ part = _
  induction parts generalizing part with
  | nil => exact part.append_nil.symm
  | cons next parts ih =>
    rw [foldl_cons, if_pos word, ih (by simp [word]), flatMap_cons]
    simp [Ssexpr.ch]

theorem dynamicVariable_found_iff {ω : Type} (memory : ω → Memory) (c : Callees ω) (obj ctx address : Word) (w : ω)
    (parts : List (List Byte)) (live : ctx ≠ 0) (placed : (memory w).Has address (fullName parts))
    (nonempty : parts ≠ []) (words : ∀ part ∈ parts, part ≠ []) :
    (fullName parts = dottedName parts ∧ ∀ (vars : List Byte → Option Value) (v : Value), vars (dottedName parts) = some v →
      eval memory { c with vars := fun w _ name => vars ((memory w).stdString name) } obj ctx (.dynamicVariable address) w =
        some (.value v w)) ↔ parts.length = 1 := by
  obtain ⟨part, rest, rfl⟩ := exists_cons_of_ne_nil nonempty
  rw [fullName_cons (words part mem_cons_self)] at placed ⊢
  constructor
  · rintro ⟨same, -⟩
    cases rest with
    | nil => rfl
    | cons next rest =>
      have first : (1 : Byte) = Ssexpr.ch '.' := (cons.inj (append_cancel_left same)).1
      exact absurd first (by decide)
  · intro single
    obtain rfl : rest = [] := length_eq_zero_iff.mp (Nat.succ.inj single)
    refine ⟨rfl, fun vars v stored => ?_⟩
    have text : (memory w).stdString address = dottedName [part] := placed.2
    show some (Outcome.value (findVarValue _ ctx address w) w) = _
    rw [findVarValue, if_neg live]
    simp [text, stored]

theorem dynamicVariable_found_a : fullName [[Ssexpr.ch 'a']] = [Ssexpr.ch 'a'] :=
  ((dynamicVariable_found_iff (fun _ : Unit => ⟨fun _ => 0, fun _ => [Ssexpr.ch 'a'], fun _ => [], fun _ => []⟩)
    ⟨fun _ _ => True, fun _ _ _ => none, fun _ _ => True, fun _ _ _ _ => none, fun _ _ _ => none, fun _ _ => none⟩ 0 1 1 ()
    [[Ssexpr.ch 'a']] (by decide) ⟨by decide, by decide⟩ (by decide) (by decide)).mpr rfl).1

-- `$a.b`
theorem dynamicVariable_not_found :
    fullName [[Ssexpr.ch 'a'], [Ssexpr.ch 'b']] ≠ dottedName [[Ssexpr.ch 'a'], [Ssexpr.ch 'b']] := by decide

variable (names : Names) (mem : Memory)

mutual

/-- `Initializer` finds everything that the tree names. -/
inductive Resolves : Ssexpr.Operand → Operand → Prop
  | int64 (n : Word) : Resolves (.int64 n) (.int64 n)
  | double (bits : Word) : Resolves (.double bits) (.double bits)
  | bool (b : Bool) : Resolves (.bool b) (.bool b)
  | string {s : List Byte} {address : Word} (placed : mem.Has address s) : Resolves (.string s) (.string address)
  | variable {v : List (List Byte)} {accesses : List Access} (found : names.getMemberAccess v = some accesses) :
    Resolves (.variable v) (.variable accesses)
  | dynamicVariable {v : List (List Byte)} {address : Word} (placed : mem.Has address (fullName v)) :
    Resolves (.dynamicVariable v) (.dynamicVariable address)
  | funcCall {func : List Byte} {functor : Word} {args : Ssexpr.Operands} {args' : Operands}
    (found : names.functions func = some functor) (few : args'.length ≤ 10) (each : ResolvesArgs args args') :
    Resolves (.funcCall func args) (.funcCall functor args')
  | unary {op : Optoken} {operand : Ssexpr.Operand} {operand' : Operand} (inner : Resolves operand operand') :
    Resolves (.unary op operand) (.unary op operand')
  | condExpr {lhs rhsTrue rhsFalse : Ssexpr.Operand} {lhs' rhsTrue' rhsFalse' : Operand} (test : Resolves lhs lhs')
    (yes : Resolves rhsTrue rhsTrue') (no : Resolves rhsFalse rhsFalse') :
    Resolves (.condExpr lhs rhsTrue rhsFalse) (.condExpr lhs' rhsTrue' rhsFalse')
  | expression {first : Ssexpr.Operand} {first' : Operand} {rest : Ssexpr.Operations} {rest' : Operations}
    (begins : Resolves first first') (each : ResolvesRest rest rest') :
    Resolves (.expression first rest) (.expression first' rest')

inductive ResolvesArgs : Ssexpr.Operands → Operands → Prop
  | nil : ResolvesArgs .nil .nil
  | cons {arg : Ssexpr.Operand} {arg' : Operand} {args : Ssexpr.Operands} {args' : Operands} (first : Resolves arg arg')
    (later : ResolvesArgs args args') : ResolvesArgs (.cons arg args) (.cons arg' args')

inductive ResolvesRest : Ssexpr.Operations → Operations → Prop
  | nil : ResolvesRest .nil .nil
  | cons {op : Optoken} {operand : Ssexpr.Operand} {operand' : Operand} {rest : Ssexpr.Operations} {rest' : Operations}
    (first : Resolves operand operand') (later : ResolvesRest rest rest') :
    ResolvesRest (.cons op operand rest) (.cons op operand' rest')

end

end Myctk.Ssexpr2
