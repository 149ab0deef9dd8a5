import Mathlib.Data.Nat.Size
import Myctk.Robims.BsiRanges

/-! The greatest and the least value of the bit-sliced index. -/

namespace Myctk.Robims.BitSliceIndex

open Finset BsiOptions Lib Option
open Nat

variable {b : BitSliceIndex} {id : UInt32} {m : UInt32 → Option Nat}

/-- What is added up for the lowest `n` bits of a number. -/
def shiftedSum (v : Nat) : Nat → Nat
  | 0 => 0
  | i + 1 => shiftedSum v i + if v.testBit i then shiftedOne i else 0

lemma shiftedOne_of_ne {i : Nat} (unsigned : i % 32 ≠ 31) : shiftedOne i = 2 ^ (i % 32) := if_neg unsigned

lemma shiftedSum_low (v : Nat) {n : Nat} (low : n ≤ 31) : shiftedSum v n = v % 2 ^ n := by
  induction n with
  | zero => rw [pow_zero, mod_one]; rfl
  | succ i ih =>
    rw [shiftedSum, ih (le_of_succ_le low), mod_pow_succ, testBit_eq_decide_div_mod_eq,
      shiftedOne_of_ne (by omega), mod_eq_of_lt (by omega : i < 32)]
    rcases mod_two_eq_zero_or_one (v / 2 ^ i) with zero | one
    · simp [zero]
    · simp [one]

lemma shiftedSum_high (v : Nat) {n : Nat} (low : n ≤ 31) : shiftedSum v (32 + n) = shiftedSum v 32 + v / 2 ^ 32 % 2 ^ n := by
  induction n with
  | zero => rw [pow_zero, mod_one, add_zero, add_zero]
  | succ i ih =>
    have place : (32 + i) % 32 = i := by omega
    rw [← add_assoc, shiftedSum, ih (le_of_succ_le low), mod_pow_succ, testBit_eq_decide_div_mod_eq,
      shiftedOne_of_ne (by omega), place, Nat.div_div_eq_div_mul, ← Nat.pow_add]
    rcases mod_two_eq_zero_or_one (v / 2 ^ (32 + i)) with zero | one
    · simp [zero]
    · simp [one, add_assoc]

lemma shiftedSum_of_lt {v n : Nat} (small : v < 2 ^ n) (k : Nat) : shiftedSum v (n + k) = shiftedSum v n := by
  induction k with
  | zero => rfl
  | succ k ih =>
    have zero : v.testBit (n + k) = false :=
      Nat.testBit_lt_two_pow (small.trans_le (Nat.pow_le_pow_right Nat.two_pos (Nat.le_add_right n k)))
    rw [← add_assoc, shiftedSum, ih, zero, if_neg Bool.false_ne_true, add_zero]

lemma shiftedSum_eq {v n : Nat} (small : v < 2 ^ n) (shallow : n ≤ 63) :
    shiftedSum v n = v % 2 ^ 31 + (if v / 2 ^ 31 % 2 = 1 then 2 ^ 64 - 2 ^ 31 else 0) + v / 2 ^ 32 := by
  have less : v < 2 ^ 63 := small.trans_le (Nat.pow_le_pow_right Nat.two_pos shallow)
  rw [← shiftedSum_of_lt small (63 - n), Nat.add_sub_cancel' shallow, show 63 = 32 + 31 from rfl,
    shiftedSum_high v (le_refl 31), shiftedSum, shiftedSum_low v (le_refl 31), testBit_eq_decide_div_mod_eq,
    mod_eq_of_lt (by omega : v / 2 ^ 32 < 2 ^ 31)]
  simp only [decide_eq_true_eq]
  rfl

lemma shiftedSum_mod_eq_iff {v n : Nat} (small : v < 2 ^ n) (shallow : n ≤ 63) : shiftedSum v n % 2 ^ 64 = v ↔ v < 2 ^ 31 := by
  have less : v < 2 ^ 63 := small.trans_le (Nat.pow_le_pow_right Nat.two_pos shallow)
  rw [shiftedSum_eq small shallow]
  split <;> omega

def filtered (b : BitSliceIndex) : Option Bitmap → Bitmap
  | none => b.exist
  | some filter => filter ∩ b.exist

lemma restrict_getD {filter : Option Bitmap} (meets : (b.filtered filter).Nonempty) :
    b.restrict (filter.getD ∅) = b.filtered filter := by
  cases filter with
  | none => exact b.restrict_empty
  | some filter =>
    refine if_neg fun empty => ?_
    rw [filtered, show filter = ∅ from empty, empty_inter] at meets
    exact not_nonempty_empty meets

lemma getMaxLoop_count (b : BitSliceIndex) (n : Nat) (s : MaxState) :
    (b.getMaxLoop (n + 1) s).count = (b.getMaxLoop (n + 1) s).last := by
  induction n generalizing s with
  | zero =>
    rw [getMaxLoop, getMaxLoop]
    split
    · rfl
    · rfl
  | succ n ih => exact ih _

section
variable {ids : Bitmap} {x : UInt32 → Nat} {n depth top : Nat}

structure MaxSoFar (ids : Bitmap) (x : UInt32 → Nat) (depth top n : Nat) (s : MaxState) : Prop where
  filters : ∀ id, id ∈ s.filter ↔ id ∈ ids ∧ Alike top (x id) n
  value : (s.maxVal + shiftedSum top n) % 2 ^ 64 = shiftedSum top depth % 2 ^ 64
  small : s.maxVal < 2 ^ 64
  last : s.last = s.filter.card

lemma maxSoFar_getMaxLoop {s : MaxState} (spells : ∀ id ∈ ids, Spells b.row id n (x id))
    (there : ∃ id ∈ ids, x id = top) (most : ∀ id ∈ ids, x id ≤ top) (so : MaxSoFar ids x depth top n s) :
    MaxSoFar ids x depth top 0 (b.getMaxLoop n s) := by
  induction n generalizing s with
  | zero => exact so
  | succ i ih =>
    have row : ∀ id ∈ ids, (id ∈ b.row i ↔ (x id).testBit i = true) := fun id inside => spells id inside i (lt_succ_self i)
    have mem : ∀ id, id ∈ s.filter ∩ b.row i ↔ id ∈ ids ∧ Alike top (x id) (i + 1) ∧ (x id).testBit i = true := by
      intro id
      rw [mem_inter, so.filters]
      constructor
      · rintro ⟨⟨inside, alike⟩, set⟩
        exact ⟨inside, alike, (row id inside).mp set⟩
      · rintro ⟨inside, alike, set⟩
        exact ⟨⟨inside, alike⟩, (row id inside).mpr set⟩
    refine ih (fun id inside j lt => spells id inside j (lt_succ_of_lt lt)) ?_
    have sum := so.value
    rw [shiftedSum] at sum
    split
    · rename_i positive
      -- a candidate has the bit, so the greatest value has it
      obtain ⟨j, inside⟩ := card_pos.mp positive
      obtain ⟨inside, alike, set⟩ := (mem j).mp inside
      have bit : top.testBit i = true := by
        by_contra unset
        have above : Above top (x j) i := (above_step i).mpr (.inr ⟨alike, unset, set⟩)
        exact absurd (Above.lt above) (Nat.not_lt_of_le (most j inside))
      refine ⟨fun id => ?_, ?_, Nat.mod_lt _ (Nat.two_pow_pos 64), rfl⟩
      · rw [mem, alike_step i, bit]
        simp
      · rw [if_pos bit] at sum
        rw [mod_add_mod]
        omega
    · rename_i none
      have empty : ∀ id, id ∉ s.filter ∩ b.row i := fun id inside => none (card_pos.mpr ⟨id, inside⟩)
      have bit : ¬ top.testBit i = true := by
        obtain ⟨j, inside, rfl⟩ := there
        exact fun set => empty j ((mem j).mpr ⟨inside, rfl, set⟩)
      refine ⟨fun id => ?_, ?_, so.small, so.last⟩
      · rw [so.filters, alike_step i]
        refine and_congr_right fun inside => (and_iff_left_of_imp fun alike => iff_of_false bit fun set => ?_).symm
        exact empty id ((mem id).mpr ⟨inside, alike, set⟩)
      · rw [if_neg bit] at sum
        exact sum

end

lemma Holds.spells_getD (holds : b.Holds m) (there : id ∈ b.exist) :
    m id = some ((m id).getD 0) ∧ Spells b.row id b.bitDepth ((m id).getD 0) := by
  obtain ⟨x, present⟩ := holds.mem_exist.mp there
  rw [present]
  exact ⟨rfl, holds.spells id x present⟩

lemma filtered_subset (b : BitSliceIndex) (filter : Option Bitmap) : b.filtered filter ⊆ b.exist := by
  cases filter with
  | none => exact Subset.rfl
  | some filter => exact inter_subset_right

def having (b : BitSliceIndex) (m : UInt32 → Option Nat) (filter : Option Bitmap) (v : Nat) : Bitmap :=
  (b.filtered filter).filter fun id => m id = some v

section
variable {filter : Option Bitmap} {v : Nat}

lemma doGetMax_eq (holds : b.Holds m) (there : id ∈ b.filtered filter) (present : m id = some v)
    (most : ∀ j ∈ b.filtered filter, ∀ x, m j = some x → x ≤ v) : b.doGetMax (filter.getD ∅) =
      (shiftedSum v b.bitDepth % 2 ^ 64, if b.bitDepth = 0 then 0 else ((b.having m filter v).card : Int)) := by
  have inside := b.filtered_subset filter
  have found := fun {j} (member : j ∈ b.filtered filter) => holds.spells_getD (inside member)
  have start : MaxSoFar (b.filtered filter) (fun j => (m j).getD 0) b.bitDepth v b.bitDepth
      ⟨b.filtered filter, 0, 0, (b.filtered filter).card⟩ := by
    refine ⟨fun j => (and_iff_left_of_imp fun member => ?_).symm, by rw [zero_add], Nat.two_pow_pos 64, rfl⟩
    exact alike_of_lt (holds.lt id v present) (holds.lt j _ (found member).1)
  have done := maxSoFar_getMaxLoop (fun j member => (found member).2) ⟨id, there, by rw [present]; rfl⟩
    (fun j member => most j member _ (found member).1) start
  have same : (b.getMaxLoop b.bitDepth ⟨b.filtered filter, 0, 0, (b.filtered filter).card⟩).filter = b.having m filter v := by
    ext j
    rw [done.filters, having, mem_filter, alike_zero]
    refine and_congr_right fun member => ?_
    rw [(found member).1]
    exact ⟨fun same => same ▸ rfl, fun same => (some.inj same).symm⟩
  rw [doGetMax, restrict_getD ⟨id, there⟩]
  refine Prod.ext ?_ ?_
  · have value := done.value
    rwa [shiftedSum, add_zero, mod_eq_of_lt done.small] at value
  · show (b.getMaxLoop b.bitDepth ⟨b.filtered filter, 0, 0, (b.filtered filter).card⟩).count = _
    rw [← same, ← done.last]
    cases depth : b.bitDepth with
    | zero => rfl
    | succ n => exact b.getMaxLoop_count n _

lemma i64_eq_iff {x y : Nat} (z : Int) (left : x < 2 ^ 64) (right : y < 2 ^ 64) : i64 (x + z) = i64 (y + z) ↔ x = y := by
  simp only [i64, Int.bmod]
  split <;> split <;> omega

/-- `GetMax` gives the value of an id with the greatest local value, and the number of such ids, precisely when the index
    has a bit and the value is below `2 ^ 31`. -/
theorem getMaxInt_exact_iff (holds : b.Holds m) (shallow : b.bitDepth ≤ 63) (there : id ∈ b.filtered filter)
    (present : m id = some v) (most : ∀ j ∈ b.filtered filter, ∀ x, m j = some x → x ≤ v) :
    b.getMaxInt filter = (b.options.getActualIntVal v, ((b.having m filter v).card : Int)) ↔
      1 ≤ b.bitDepth ∧ v < 2 ^ 31 := by
  have less := holds.lt id v present
  have some : 0 < (b.having m filter v).card := card_pos.mpr ⟨id, mem_filter.mpr ⟨there, present⟩⟩
  have less64 : v < 2 ^ 64 := less.trans_le (Nat.pow_le_pow_right Nat.two_pos (shallow.trans (by decide)))
  rw [getMaxInt, doGetMax_eq holds there present most, Prod.mk.injEq, getActualIntVal, getActualIntVal,
    i64_eq_iff _ (Nat.mod_lt _ (Nat.two_pow_pos 64)) less64, shiftedSum_mod_eq_iff less shallow]
  split <;> omega

end

/-! An index of 32 bits with the value `2 ^ 31`. -/

def bigValue : BitSliceIndex := ((new (BsiOptions.default.setMinMaxInt 0 (2 ^ 31))).doPut 7 (2 ^ 31)).1

def bigValueMap : UInt32 → Option Nat := Function.update (fun _ => none) 7 (some (2 ^ 31))

lemma holds_bigValue : bigValue.Holds bigValueMap :=
  ((holds_new _).doPut 7 (2 ^ 31) (.inr (.inl rfl))).1

lemma bigValue_most : ∀ j ∈ bigValue.filtered none, ∀ x, bigValueMap j = some x → x ≤ 2 ^ 31 := by
  intro j _ x present
  rw [bigValueMap, Function.update_apply] at present
  split at present <;> cases present
  exact le_rfl

theorem big_value_negative : bigValue.Holds bigValueMap ∧ bigValue.bitDepth ≤ 63 ∧ 7 ∈ bigValue.filtered none ∧
    bigValueMap 7 = some (2 ^ 31) ∧ (∀ j ∈ bigValue.filtered none, ∀ x, bigValueMap j = some x → x ≤ 2 ^ 31) ∧
    bigValue.getMaxInt none = (-2 ^ 31, 1) ∧
    ¬ bigValue.getMaxInt none = (bigValue.options.getActualIntVal (2 ^ 31), ((bigValue.having bigValueMap none (2 ^ 31)).card : Int)) := by
  refine ⟨holds_bigValue, ?_, ?_, rfl, bigValue_most, ?_, ?_⟩
  · decide +kernel
  · decide +kernel
  · decide +kernel
  · decide +kernel

theorem getMaxInt_exact_iff_twoValues : twoValues.Holds twoValuesMap ∧
    twoValues.getMaxInt (some {8}) =
      (twoValues.options.getActualIntVal 1, ((twoValues.having twoValuesMap (some {8}) 1).card : Int)) := by
  have there : 8 ∈ twoValues.filtered (some {8}) := by decide
  have most : ∀ j ∈ twoValues.filtered (some {8}), ∀ x, twoValuesMap j = some x → x ≤ 1 :=
    fun j _ x present => le_of_lt_succ (holds_twoValues.lt j x present)
  exact ⟨holds_twoValues, (getMaxInt_exact_iff holds_twoValues (by decide) there rfl most).mpr (by decide)⟩

lemma getMinLoop_count (b : BitSliceIndex) (n : Nat) (s : MinState) :
    (b.getMinLoop (n + 1) s).count = (b.getMinLoop (n + 1) s).last := by
  induction n generalizing s with
  | zero =>
    rw [getMinLoop, getMinLoop]
    split
    · rfl
    · rfl
  | succ n ih => exact ih _

section
variable {ids : Bitmap} {x : UInt32 → Nat} {n depth least : Nat}

/-- The ids with values of at most `n` bits. -/
def short (ids : Bitmap) (x : UInt32 → Nat) (n : Nat) : Bitmap := ids.filter fun id => x id < 2 ^ n

structure MinSoFar (ids : Bitmap) (x : UInt32 → Nat) (depth least n : Nat) (s : MinState) : Prop where
  filters : s.filter = short ids x n
  value : (s.minVal + shiftedSum (2 ^ least.size - 1) n) % 2 ^ 64 = shiftedSum (2 ^ least.size - 1) depth % 2 ^ 64
  small : s.minVal < 2 ^ 64
  last : s.last = if max n least.size < depth then ((short ids x (max n least.size)).card : Int) else -1

lemma short_eq {i : Nat} (spells : ∀ id ∈ ids, Spells b.row id (i + 1) (x id)) : short ids x (i + 1) \ b.row i = short ids x i := by
  ext id
  rw [mem_sdiff, short, short, mem_filter, mem_filter, and_assoc]
  refine and_congr_right fun inside => ?_
  rw [spells id inside i (lt_succ_self i), ← lt_two_pow_iff]

lemma minSoFar_getMinLoop {s : MinState} (spells : ∀ id ∈ ids, Spells b.row id n (x id))
    (there : ∃ id ∈ ids, x id = least) (fewest : ∀ id ∈ ids, least ≤ x id) (within : n ≤ depth) (so : MinSoFar ids x depth least n s) :
    MinSoFar ids x depth least 0 (b.getMinLoop n s) := by
  induction n generalizing s with
  | zero => exact so
  | succ i ih =>
    have next : s.filter \ b.row i = short ids x i := by rw [so.filters, short_eq spells]
    have some : 0 < (short ids x i).card ↔ least.size ≤ i := by
      rw [card_pos, size_le]
      constructor
      · rintro ⟨j, member⟩
        obtain ⟨inside, less⟩ := mem_filter.mp member
        exact (fewest j inside).trans_lt less
      · obtain ⟨j, inside, rfl⟩ := there
        exact fun less => ⟨j, mem_filter.mpr ⟨inside, less⟩⟩
    refine ih (fun id inside j lt => spells id inside j (lt_succ_of_lt lt)) (le_of_succ_le within) ?_
    have sum := so.value
    rw [shiftedSum, testBit_two_pow_sub_one] at sum
    rw [next]
    split
    · rename_i left
      have long := some.mp left
      refine ⟨rfl, ?_, so.small, ?_⟩
      · simpa [Nat.not_lt_of_le long] using sum
      · rw [max_eq_left long, if_pos (lt_of_succ_le within)]
    · rename_i none
      have long : i < least.size := Nat.lt_of_not_le fun le => none (some.mpr le)
      refine ⟨rfl, ?_, Nat.mod_lt _ (Nat.two_pow_pos 64), ?_⟩
      · rw [decide_eq_true long, if_pos rfl] at sum
        rw [mod_add_mod]
        omega
      · have last := so.last
        rwa [max_eq_right long, ← max_eq_right (le_of_lt long)] at last

end

section
variable {filter : Option Bitmap} {v : Nat}

def havingShort (b : BitSliceIndex) (m : UInt32 → Option Nat) (filter : Option Bitmap) (n : Nat) : Bitmap :=
  short (b.filtered filter) (fun id => (m id).getD 0) n

lemma doGetMin_eq (holds : b.Holds m) (there : id ∈ b.filtered filter) (present : m id = some v)
    (fewest : ∀ j ∈ b.filtered filter, ∀ x, m j = some x → v ≤ x) : b.doGetMin (filter.getD ∅) =
      (shiftedSum (2 ^ v.size - 1) b.bitDepth % 2 ^ 64, if b.bitDepth = 0 then 0
        else if v.size < b.bitDepth then ((b.havingShort m filter v.size).card : Int) else -1) := by
  have found := fun {j} (member : j ∈ b.filtered filter) => holds.spells_getD (b.filtered_subset filter member)
  have start : MinSoFar (b.filtered filter) (fun j => (m j).getD 0) b.bitDepth v b.bitDepth ⟨b.filtered filter, 0, 0, -1⟩ := by
    refine ⟨(filter_true_of_mem fun j member => ?_).symm, by rw [zero_add], Nat.two_pow_pos 64, (if_neg ?_).symm⟩
    · exact holds.lt j _ (found member).1
    · exact Nat.not_lt_of_le (Nat.le_max_left _ _)
  have done := minSoFar_getMinLoop (fun j member => (found member).2) ⟨id, there, by rw [present]; rfl⟩
    (fun j member => fewest j member _ (found member).1) le_rfl start
  rw [doGetMin, restrict_getD ⟨id, there⟩]
  refine Prod.ext ?_ ?_
  · have value := done.value
    rwa [shiftedSum, add_zero, mod_eq_of_lt done.small] at value
  · have last := done.last
    rw [zero_max] at last
    rw [havingShort, ← last]
    cases depth : b.bitDepth with
    | zero => rfl
    | succ n => exact b.getMinLoop_count n _

lemma shiftedSum_ones_long {s n : Nat} (long : 31 < s) (within : s ≤ n) (shallow : n ≤ 63) :
    shiftedSum (2 ^ s - 1) n = 2 ^ 64 + 2 ^ (s - 32) - 2 := by
  have positive := Nat.two_pow_pos s
  have ones : 2 ^ s - 1 < 2 ^ n :=
    (Nat.sub_one_lt (ne_of_gt positive)).trans_le (Nat.pow_le_pow_right Nat.two_pos within)
  have whole : 2 ^ s = 2 ^ (s - 32) * 2 ^ 32 := by rw [← pow_add]; congr 1; omega
  have some := Nat.two_pow_pos (s - 32)
  rw [shiftedSum_eq ones shallow, whole]
  generalize 2 ^ (s - 32) = high at *
  rw [if_pos (by omega)]
  omega

lemma shiftedSum_ones_eq_iff {n : Nat} (small : v < 2 ^ n) (shallow : n ≤ 63) :
    shiftedSum (2 ^ v.size - 1) n % 2 ^ 64 = v ↔ v.size ≤ 31 ∧ v = 2 ^ v.size - 1 := by
  have within : v.size ≤ n := size_le.mpr small
  have positive := Nat.two_pow_pos v.size
  have ones : 2 ^ v.size - 1 < 2 ^ n :=
    (Nat.sub_one_lt (ne_of_gt positive)).trans_le (Nat.pow_le_pow_right Nat.two_pos within)
  rcases lt_or_ge 31 v.size with long | low
  · -- both sides are wrong: the sum is either `2 ^ 64 - 1` or below `2 ^ 31`
    have lower : 2 ^ (v.size - 1) ≤ v := lt_size.mp (by omega)
    have half : 2 ^ (v.size - 1) = 2 ^ (v.size - 32) * 2 ^ 31 := by rw [← pow_add]; congr 1; omega
    have bound : 2 ^ (v.size - 32) ≤ 2 ^ 31 := Nat.pow_le_pow_right Nat.two_pos (by omega)
    have upper : v < 2 ^ 63 := small.trans_le (Nat.pow_le_pow_right Nat.two_pos shallow)
    have some := Nat.two_pow_pos (v.size - 32)
    rw [shiftedSum_ones_long long within shallow]
    generalize 2 ^ (v.size - 32) = high at *
    rcases lt_or_ge 1 high with more | one
    · omega
    · omega
  · have fits : 2 ^ v.size - 1 < 2 ^ 31 :=
      (Nat.sub_one_lt (ne_of_gt positive)).trans_le (Nat.pow_le_pow_right Nat.two_pos low)
    rw [(shiftedSum_mod_eq_iff ones shallow).mpr fits, and_iff_right low, eq_comm]

lemma size_ones (k : Nat) : (2 ^ k - 1).size = k := by
  refine Nat.le_antisymm (Nat.size_le.mpr (Nat.sub_one_lt (Nat.ne_of_gt (Nat.two_pow_pos k)))) (Nat.le_of_not_lt fun less => ?_)
  have under := (Nat.lt_size_self (2 ^ k - 1)).trans_le (Nat.pow_le_pow_right Nat.two_pos (Nat.le_sub_one_of_lt less))
  have twice : 2 ^ k = 2 ^ (k - 1) * 2 := by rw [← pow_succ]; congr 1; omega
  have positive := Nat.two_pow_pos (k - 1)
  omega

lemma havingShort_ones {k : Nat} (holds : b.Holds m) (fewest : ∀ j ∈ b.filtered filter, ∀ x, m j = some x → 2 ^ k - 1 ≤ x) :
    b.havingShort m filter k = b.having m filter (2 ^ k - 1) := by
  ext j
  rw [havingShort, short, having, mem_filter, mem_filter]
  refine and_congr_right fun member => ?_
  obtain ⟨x, present⟩ := holds.mem_exist.mp (b.filtered_subset filter member)
  have lower := fewest j member x present
  have positive := Nat.two_pow_pos k
  rw [present, getD_some, some.injEq]
  omega

/-- `GetMin` gives the value of an id with the least local value, and the number of such ids, precisely when the local
    value has only ones, leaves the highest bit free and is below `2 ^ 31`. -/
theorem getMinInt_exact_iff (holds : b.Holds m) (shallow : b.bitDepth ≤ 63) (there : id ∈ b.filtered filter)
    (present : m id = some v) (fewest : ∀ j ∈ b.filtered filter, ∀ x, m j = some x → v ≤ x) :
    b.getMinInt filter = (b.options.getActualIntVal v, ((b.having m filter v).card : Int)) ↔
      ∃ k, k < b.bitDepth ∧ k ≤ 31 ∧ v = 2 ^ k - 1 := by
  have less := holds.lt id v present
  have some : 0 < (b.having m filter v).card := card_pos.mpr ⟨id, mem_filter.mpr ⟨there, present⟩⟩
  have less64 : v < 2 ^ 64 := less.trans_le (Nat.pow_le_pow_right Nat.two_pos (shallow.trans (by decide)))
  rw [getMinInt, doGetMin_eq holds there present fewest, Prod.mk.injEq, getActualIntVal, getActualIntVal,
    i64_eq_iff _ (Nat.mod_lt _ (Nat.two_pow_pos 64)) less64, shiftedSum_ones_eq_iff less shallow]
  constructor
  · rintro ⟨⟨low, ones⟩, count⟩
    refine ⟨v.size, ?_, low, ones⟩
    split_ifs at count with zero free
    · omega
    · exact free
  · rintro ⟨k, free, low, rfl⟩
    rw [size_ones, if_neg (ne_of_gt (zero_lt_of_lt free)), if_pos free, havingShort_ones holds fewest]
    exact ⟨⟨low, rfl⟩, rfl⟩

end

theorem least_value_miscounted : twoValues.Holds twoValuesMap ∧ twoValues.bitDepth ≤ 63 ∧
    8 ∈ twoValues.filtered (some {8}) ∧ twoValuesMap 8 = some 1 ∧
    (∀ j ∈ twoValues.filtered (some {8}), ∀ x, twoValuesMap j = some x → 1 ≤ x) ∧
    twoValues.getMinInt (some {8}) = (1, -1) ∧
    ¬ twoValues.getMinInt (some {8}) =
      (twoValues.options.getActualIntVal 1, ((twoValues.having twoValuesMap (some {8}) 1).card : Int)) := by
  refine ⟨holds_twoValues, by decide, by decide, rfl, ?_, by decide, by decide⟩
  intro j member x present
  rw [filtered, mem_inter, mem_singleton] at member
  rw [member.1] at present
  cases present
  exact le_refl 1

theorem getMinInt_exact_iff_twoValues : twoValues.Holds twoValuesMap ∧
    twoValues.getMinInt none = (twoValues.options.getActualIntVal 0, ((twoValues.having twoValuesMap none 0).card : Int)) := by
  have there : 7 ∈ twoValues.filtered none := by decide
  exact ⟨holds_twoValues,
    (getMinInt_exact_iff holds_twoValues (by decide) there rfl fun _ _ _ _ => zero_le _).mpr ⟨0, by decide, by decide, rfl⟩⟩

end Myctk.Robims.BitSliceIndex
