import Myctk.Lib.IntType
import Myctk.Ssexpr2.Pieces

/-! Comparisons of integers: both operands are first brought to a signed integer of 64 bits. -/

namespace Myctk.Ssexpr2

abbrev vCharValue : BitVec 32 := 100

open Lib BitVec

/-- The type of an operand given by address, and of one given by value; `char` is the signed type of 8 bits. -/
def intTypes : IntType → BitVec 32 × BitVec 32
  | .int8 => (vChar, vCharValue)
  | .uint8 => (vUint8, vUint8Value)
  | .int16 => (vInt16, vInt16Value)
  | .uint16 => (vUint16, vUint16Value)
  | .int32 => (vInt32, vInt32Value)
  | .uint32 => (vUint32, vUint32Value)
  | .int64 => (vInt64, vInt64Value)
  | .uint64 => (vUint64, vUint64Value)

/-- An operand of an integer type, by address or by value. -/
structure IntOperand where
  value : Value
  type : IntType
  typed : value.type = (intTypes type).1 ∨ value.type = (intTypes type).2

namespace IntOperand
variable (m : Memory) (x : IntOperand)

/-- The integer an operand stands for. -/
def integer : Int :=
  let bits := m.get (intTypes x.type).1 x.type.bytes x.value
  if x.type.signed then bits.toInt else bits.toNat

/-- A `char` by value has no row in `normValue`. -/
def Normal : Prop := x.value.type ≠ vCharValue

end IntOperand

def comparison : Optoken → Option (Int → Int → Bool)
  | .equal => some fun l r => l == r
  | .notEqual => some fun l r => l != r
  | .less => some fun l r => l < r
  | .lessEqual => some fun l r => l ≤ r
  | .greater => some fun l r => r < l
  | .greaterEqual => some fun l r => r ≤ l
  | _ => none

variable {m : Memory} {x l r : IntOperand}

lemma toInt_signExtend_eq {n : Nat} (b : BitVec n) (le : n ≤ 64) :
    (b.signExtend 64).toInt = b.toInt - if 2 ^ 63 ≤ b.toInt then 2 ^ 64 else 0 := by
  have same := toInt_signExtend_of_le (x := b) le
  have less : (b.signExtend 64).toInt < 2 ^ 63 := toInt_lt
  rw [if_neg (by omega), same, sub_zero]

lemma toInt_setWidth_eq {n : Nat} (b : BitVec n) (le : n ≤ 64) :
    (b.setWidth 64).toInt = b.toNat - if 2 ^ 63 ≤ (b.toNat : Int) then 2 ^ 64 else 0 := by
  rw [toInt_eq_toNat_cond, toNat_setWidth_of_le le]
  split <;> split <;> omega

lemma IntOperand.normValue_eq (normal : x.Normal) : (normValue m x.value).type = vInt64Value ∧
      (normValue m x.value).val.toInt = x.integer m - if 2 ^ 63 ≤ x.integer m then 2 ^ 64 else 0 := by
  obtain ⟨v, t, typed⟩ := x
  cases t
  all_goals rcases typed with h | h
  case int8.inr => exact absurd h normal
  case int64.inr =>
    have same : m.get vInt64 8 v = v.val := by
      rw [Memory.get, if_neg (by rw [h]; decide), setWidth_eq]
    have norm : normValue m v = v := by simp [normValue, show v.type = _ from h, intTypes]
    have wide := toInt_signExtend_eq v.val (le_refl 64)
    rw [signExtend_eq, ← same] at wide
    exact ⟨by rw [norm]; exact h, by rw [norm, ← same]; exact wide⟩
  all_goals
    refine ⟨by simp [normValue, show v.type = _ from h, intTypes], ?_⟩
    simp only [normValue, show v.type = _ from h, integer, intTypes]
  case int64.inl =>
    have wide := toInt_signExtend_eq (m.get vInt64 8 v) (le_refl 64)
    rwa [signExtend_eq] at wide
  case uint64.inl | uint64.inr =>
    have wide := toInt_setWidth_eq (m.get vUint64 8 v) (le_refl 64)
    rwa [setWidth_eq] at wide
  case int8.inl | int16.inl | int16.inr | int32.inl | int32.inr => exact toInt_signExtend_eq _ (by decide)
  all_goals exact toInt_setWidth_eq _ (by decide)

lemma IntOperand.type_ne_zero (x : IntOperand) : x.value.type ≠ 0#32 := by
  obtain ⟨v, t, typed⟩ := x
  cases t <;> rcases typed with h | h <;> simp [show v.type = _ from h, intTypes]

lemma calcPairValue_comparison {op : Optoken} {f : Int → Int → Bool} (compares : comparison op = some f)
    (left : l.Normal) (right : r.Normal) : calcPairValue m l.value r.value op =
      some (.ofBool (f (normValue m l.value).val.toInt (normValue m r.value).val.toInt)) := by
  have leftType := (IntOperand.normValue_eq (m := m) left).1
  have rightType := (IntOperand.normValue_eq (m := m) right).1
  cases op <;> cases compares <;>
    simp [calcPairValue, l.type_ne_zero, r.type_ne_zero, doEq, doNotEq, doLess, doLessEq, doGt, doGe, doCompare, leftType,
      rightType, isString]

lemma calcPairValue_char (char : ¬l.Normal ∨ ¬r.Normal) :
    calcPairValue m l.value r.value .equal = some (.err errInvalidOperandType) := by
  have skipped : ∀ x : IntOperand, ¬x.Normal → (normValue m x.value).type = vCharValue := by
    intro x char
    have type : x.value.type = vCharValue := not_not.mp char
    simp [normValue, type]
  by_cases left : l.Normal
  · have leftType := (IntOperand.normValue_eq (m := m) left).1
    have rightType := skipped r (char.resolve_left (not_not.mpr left))
    simp [calcPairValue, l.type_ne_zero, r.type_ne_zero, doEq, doCompare, leftType, rightType, isString]
  · simp [calcPairValue, l.type_ne_zero, r.type_ne_zero, doEq, doCompare, skipped l left, isString]

/-- All six comparisons are right exactly if no operand is a `char` by value, and an unsigned integer of 2⁶³ or more
    meets another such or one that is still smaller than it after 2⁶⁴ is taken off. -/
theorem compares_iff (m : Memory) (l r : IntOperand) :
    (∀ op f, comparison op = some f →
      calcPairValue m l.value r.value op = some (.ofBool (f (l.integer m) (r.integer m)))) ↔
    l.Normal ∧ r.Normal ∧ ((2 ^ 63 ≤ l.integer m ↔ 2 ^ 63 ≤ r.integer m) ∨
      2 ^ 63 ≤ l.integer m ∧ r.integer m < l.integer m - 2 ^ 64 ∨
      2 ^ 63 ≤ r.integer m ∧ l.integer m < r.integer m - 2 ^ 64) := by
  by_cases normal : l.Normal ∧ r.Normal
  · obtain ⟨left, right⟩ := normal
    have leftInt := (IntOperand.normValue_eq (m := m) left).2
    have rightInt := (IntOperand.normValue_eq (m := m) right).2
    have ofBool : ∀ a b, some (Value.ofBool a) = some (Value.ofBool b) ↔ a = b := by decide
    constructor
    · intro compares
      refine ⟨left, right, ?_⟩
      have less := compares .less _ rfl
      have greater := compares .greater _ rfl
      rw [calcPairValue_comparison rfl left right, ofBool, decide_eq_decide, leftInt, rightInt] at less greater
      split_ifs at less greater <;> omega
    · rintro ⟨-, -, agree⟩ op f compared
      rw [calcPairValue_comparison compared left right, ofBool, leftInt, rightInt]
      cases op <;> cases compared <;> split_ifs <;> grind
  · refine iff_of_false (fun compares => ?_) fun all => normal ⟨all.1, all.2.1⟩
    have equal := compares .equal _ rfl
    rw [calcPairValue_char (not_and_or.mp normal)] at equal
    have type : (0 : BitVec 32) = vBoolValue := congrArg Value.type (Option.some.inj equal)
    exact absurd type (by decide)

/-- A `char` of 97 given by value is not equal to itself. -/
theorem char_not_equal : calcPairValue ⟨fun _ => 0, fun _ => [], fun _ => [], fun _ => []⟩
    ⟨97, vCharValue, 0⟩ ⟨97, vCharValue, 0⟩ .equal = some (.err errInvalidOperandType) := by decide

/-! The test of a bool given by address: the code loads eight bytes where the bool has one. -/

open Machine Memory

variable {prog rest : List Instr} {ptr value : Label} {m : Machine Memory} {memory : Memory} {a : Word} {n : Nat}

lemma Memory.read_lt : memory.read n a < 256 ^ n := by
  induction n generalizing a with
  | zero => exact Nat.one_pos
  | succ n ih =>
    have := ih (a := a + 1)
    have := (memory.byte a).isLt
    rw [read, pow_succ]
    omega

lemma Memory.read_eq_zero_iff : memory.read n a = 0 ↔ ∀ i < n, memory.byte (a + .ofNat _ i) = 0 := by
  induction n generalizing a with
  | zero => simp [read]
  | succ n ih =>
    have shift : ∀ i, a + 1 + BitVec.ofNat 64 i = a + BitVec.ofNat 64 (i + 1) := fun i => by
      rw [add_assoc, Nat.add_comm i, ofNat_add]
      rfl
    have first : (memory.byte a).toNat = 0 ↔ memory.byte a = 0 := toNat_inj (y := 0)
    have rest := ih (a := a + 1)
    simp only [shift] at rest
    rw [read, Nat.forall_lt_succ_left, ← rest, BitVec.ofNat_eq_ofNat, BitVec.add_zero, ← first]
    omega

/-- Where the code of a test goes on for a bool given by address. -/
abbrev TestAt (prog rest : List Instr) (ptr value : Label) : Prop := Lib.codeAfter Instr.label? ptr prog =
  some (.movImm .rdx (vBoolValue.setWidth 64) :: .load .rax .rax :: .label value :: .cmp .rax 0 :: rest)

/-- The zero flag after `testOperand`, which calls nothing; it decides on the branch. -/
def testFlag (prog rest : List Instr) (ptr value : Label) (m : Machine Memory) (memory : Memory) : Option Bool :=
  match (step ⟨id, fun _ _ _ _ => none⟩ prog)^[6]
    (.running (testOperand ptr value ++ rest) { m with world := memory }) with
  | .running _ m' => some m'.zf
  | _ => none

lemma testFlag_eq (ptrAt : TestAt prog rest ptr value) (byAddress : (m.reg .rdx).setWidth 32 = vBool) :
    testFlag prog rest ptr value m memory = some (decide (memory.read 8 (m.reg .rax) = 0)) := by
  have word : BitVec.ofNat 64 (memory.read 8 (m.reg .rax)) = 0 ↔ memory.read 8 (m.reg .rax) = 0 := by
    rw [← toNat_inj, toNat_ofNat, Nat.mod_eq_of_lt (read_lt.trans_eq (by decide))]
    rfl
  rw [← decide_eq_decide.mpr word]
  simp only [testFlag, testOperand, Function.iterate_succ_apply, List.cons_append, step, exec, byAddress]
  rw [if_pos (by rfl), jump_eq ptrAt]
  rfl

/-- `memory'` is `memory` but for bytes of the object other than the one at `a`. -/
def DiffersBeside (object : Word → Bool) (a : Word) (memory memory' : Memory) : Prop :=
  ∀ x, (object x → x = a) → memory'.byte x = memory.byte x

/-- The branch depends on the byte of the bool alone, unless this byte is zero, some of the seven bytes behind it belong to
    the object, and those that do not are zero too. -/
theorem testFlag_keeps_iff (ptrAt : TestAt prog rest ptr value) (byAddress : (m.reg .rdx).setWidth 32 = vBool)
    (rax : m.reg .rax = a) (object : Word → Bool) :
    (∀ memory', DiffersBeside object a memory memory' →
      testFlag prog rest ptr value m memory' = testFlag prog rest ptr value m memory) ↔
    ¬(memory.byte a = 0 ∧ (∃ i < 8, i ≠ 0 ∧ object (a + .ofNat _ i)) ∧
      ∀ i < 8, object (a + .ofNat _ i) = false → memory.byte (a + .ofNat _ i) = 0) := by
  have self : a + BitVec.ofNat 64 0 = a := BitVec.add_zero a
  simp only [testFlag_eq ptrAt byAddress, rax, Option.some.injEq, decide_eq_decide, read_eq_zero_iff]
  constructor
  · rintro keeps ⟨zero, ⟨i, small, other, inside⟩, outside⟩
    -- The other bytes of the object all zero, and all one.
    let filled (x : BitVec 8) : Memory := { memory with byte := fun y => if object y → y = a then memory.byte y else x }
    have clear : ∀ j < 8, (filled 0).byte (a + .ofNat _ j) = 0 := by
      intro j small
      by_cases same : object (a + .ofNat _ j) → a + BitVec.ofNat 64 j = a
      · rw [show (filled 0).byte _ = _ from if_pos same]
        cases inside : object (a + .ofNat _ j)
        · exact outside j small inside
        · rwa [same inside]
      · exact if_neg same
    have all := (keeps (filled 1) fun _ same => if_pos same).mpr ((keeps (filled 0) fun _ same => if_pos same).mp clear)
    have apart : ¬(object (a + .ofNat _ i) → a + BitVec.ofNat 64 i = a) := fun same => by
      have := same inside
      bv_omega
    exact absurd ((if_neg apart).symm.trans (all i small)) (by decide)
  · intro fine memory' differs
    have keep : ∀ i < 8, (i ≠ 0 → object (a + .ofNat _ i) = false) →
        memory'.byte (a + .ofNat _ i) = memory.byte (a + .ofNat _ i) := fun i _ outside =>
      differs _ fun inside => by
        by_cases zero : i = 0
        · rw [zero, self]
        · simp [outside zero] at inside
    by_cases reads : ∃ i < 8, (i ≠ 0 → object (a + .ofNat _ i) = false) ∧ memory.byte (a + .ofNat _ i) ≠ 0
    · obtain ⟨i, small, outside, nonzero⟩ := reads
      exact iff_of_false (fun all => nonzero ((keep i small outside).symm.trans (all i small))) fun all => nonzero (all i small)
    · push Not at reads
      have zero : memory.byte a = 0 := self ▸ reads 0 (by decide) (absurd rfl)
      have none : ∀ i < 8, i ≠ 0 → object (a + .ofNat _ i) = false := fun i small other =>
        Bool.eq_false_iff.mpr fun inside => fine ⟨zero, ⟨i, small, other, inside⟩, fun j small outside => reads j small fun _ => outside⟩
      exact forall₂_congr fun i small => by rw [keep i small (none i small)]

/-- An object of two bytes at the address 0. -/
def twoBytes (first second : BitVec 8) : Memory :=
  ⟨fun x => if x = 0 then first else if x = 1 then second else 0, fun _ => [], fun _ => [], fun _ => []⟩

/-- The test of the first of the two bytes. -/
def twoBytesFlag (first second : BitVec 8) : Option Bool :=
  testFlag (testOperand (.condTestPtr 0) (.condTestValue 0)) [] (.condTestPtr 0) (.condTestValue 0)
    ⟨fun r => if r = .rdx then 2 else 0, false, [], twoBytes first second⟩ (twoBytes first second)

theorem testFlag_keeps_twoBytes : twoBytesFlag 1 5 = twoBytesFlag 1 0 := by
  refine (@testFlag_keeps_iff _ _ _ _ _ (twoBytes 1 0) _ rfl rfl rfl (· < 2)).mpr ?_ (twoBytes 1 5) fun x same => ?_
  · exact fun wrong => absurd wrong.1 (by decide)
  · simp only [twoBytes]
    grind

/-- A bool member that is false, and behind it a byte that is 0 or 1. -/
theorem bool_read_with_next : DiffersBeside (· < 2) 0 (twoBytes 0 0) (twoBytes 0 1) ∧
    twoBytesFlag 0 0 = some true ∧ twoBytesFlag 0 1 = some false := by
  refine ⟨fun x same => ?_, by decide, by decide⟩
  simp only [twoBytes]
  grind

end Myctk.Ssexpr2
