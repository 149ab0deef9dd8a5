import Myctk.Robims.BsiSpec

/-! The range operations of the bit-sliced index. Each loop goes through the bits from the highest one; after some of
    them the candidates are known by the high parts of their values. -/

namespace Myctk.Robims

open Nat hiding eq_zero_or_pos ne_of_lt
open Finset Lib Bool

namespace BitSliceIndex

variable {b : BitSliceIndex} {id : UInt32} {v x n : Nat} {filter keep : Bitmap} {m : UInt32 → Option Nat}
  {ids out : Bitmap} {allowEq : Bool} {v' : Nat}

lemma mem_sdiff_unset {row : Bitmap} : id ∈ ids \ ((ids \ row) \ keep) ↔ id ∈ ids ∧ (id ∈ row ∨ id ∈ keep) := by
  simp only [mem_sdiff]
  tauto

lemma mem_sdiff_set {row : Bitmap} : id ∈ ids \ (row \ keep) ↔ id ∈ ids ∧ (id ∈ row → id ∈ keep) := by
  simp only [mem_sdiff]
  tauto

lemma mem_rangeGTLoop (spells : Spells b.row id n x) (last : n = 0 → allowEq = true)
    (filters : id ∈ filter ↔ Above v x n ∨ Alike v x n) (keeps : 0 < n → (id ∈ keep ↔ Above v x n)) :
    id ∈ b.rangeGTLoop v allowEq n filter keep ↔ v < x ∨ allowEq = true ∧ v = x := by
  induction n generalizing filter keep with
  | zero => rw [rangeGTLoop, filters, and_iff_right (last rfl), above_zero, alike_zero]
  | succ i ih =>
    have row := spells i (lt_succ_self i)
    have lower : Spells b.row id i x := fun j lt => spells j (lt_succ_of_lt lt)
    have keeps := keeps (succ_pos i)
    have above := above_step (v := v) (x := x) i
    have alike := alike_step (v := v) (x := x) i
    rw [rangeGTLoop]
    split_ifs with strict bit bit positive
    · -- the last bit is set: greater is only what is so already
      obtain ⟨rfl, strict⟩ := strict
      rw [← above_zero, keeps, above]
      simp [bit, strict]
    · obtain ⟨rfl, strict⟩ := strict
      rw [← above_zero, above, mem_sdiff_unset, filters, row, keeps]
      by_cases greater : Above v x (0 + 1) <;> simp [greater, bit, strict]
    · refine ih lower (fun zero => ?_) ?_ fun _ => ?_
      · simpa [zero] using strict
      · rw [above, alike, mem_sdiff_unset, filters, row, keeps]
        by_cases greater : Above v x (i + 1) <;> simp [greater, bit]
      · rw [keeps, above]
        simp [bit]
    · refine ih lower (fun zero => absurd zero (ne_of_gt positive)) ?_ fun _ => ?_
      · rw [filters, above, alike]
        by_cases set : x.testBit i = true <;> simp [set, bit]
      · rw [above]
        simp only [mem_union, mem_inter, filters, row, keeps]
        by_cases greater : Above v x (i + 1) <;> simp [greater, bit]
    · refine ih lower (fun zero => ?_) ?_ fun positive' => absurd positive' positive
      · simpa [zero] using strict
      · rw [filters, above, alike]
        by_cases set : x.testBit i = true <;> simp [set, bit]

lemma rangeGTLoop_congr (same : ∀ i < n, v.testBit i = v'.testBit i) :
    b.rangeGTLoop v allowEq n filter keep = b.rangeGTLoop v' allowEq n filter keep := by
  induction n generalizing filter keep with
  | zero => rfl
  | succ i ih =>
    have lower : ∀ filter keep, b.rangeGTLoop v allowEq i filter keep = b.rangeGTLoop v' allowEq i filter keep :=
      fun _ _ => ih fun j lt => same j (lt_succ_of_lt lt)
    simp [rangeGTLoop, same i (lt_succ_self i), lower]

lemma rangeLTLoop_congr {leadingZero : Bool} (same : ∀ i < n, v.testBit i = v'.testBit i) :
    b.rangeLTLoop v allowEq n leadingZero filter keep = b.rangeLTLoop v' allowEq n leadingZero filter keep := by
  induction n generalizing leadingZero filter keep with
  | zero => rfl
  | succ i ih =>
    have lower : ∀ leadingZero filter keep,
        b.rangeLTLoop v allowEq i leadingZero filter keep = b.rangeLTLoop v' allowEq i leadingZero filter keep :=
      fun _ _ _ => ih fun j lt => same j (lt_succ_of_lt lt)
    simp [rangeLTLoop, same i (lt_succ_self i), lower]

lemma testBit_mod_depth (v : Nat) {d i : Nat} (lt : i < d) : v.testBit i = (v % 2 ^ d).testBit i := by
  rw [testBit_mod_two_pow, decide_eq_true lt, Bool.true_and]

lemma doRangeGT_mod (b : BitSliceIndex) (v : Nat) (allowEq : Bool) (out : Bitmap) :
    b.doRangeGT v allowEq out = b.doRangeGT (v % 2 ^ b.bitDepth) allowEq out :=
  rangeGTLoop_congr fun _ lt => testBit_mod_depth v lt

lemma doRangeLT_mod (b : BitSliceIndex) (v : Nat) (allowEq : Bool) (out : Bitmap) :
    b.doRangeLT v allowEq out = b.doRangeLT (v % 2 ^ b.bitDepth) allowEq out :=
  rangeLTLoop_congr fun _ lt => testBit_mod_depth v lt

lemma doRangeGT_subset (b : BitSliceIndex) (v : Nat) (allowEq : Bool) : b.doRangeGT v allowEq ∅ ⊆ b.exist := by
  rw [doRangeGT, restrict_empty]
  exact rangeGTLoop_subset b v allowEq _ Subset.rfl (empty_subset _)

lemma Holds.mem_exist (holds : b.Holds m) : id ∈ b.exist ↔ ∃ x, m id = some x := by
  rw [holds.ids, Option.isSome_iff_exists]

lemma Holds.notMem_exist (holds : b.Holds m) (none : m id = none) : id ∉ b.exist := by
  intro there
  simpa [none] using holds.mem_exist.mp there

/-! An index of one bit with the values 0 and 1. -/

def oneBit : BitSliceIndex := new (BsiOptions.default.setMinMaxInt 0 1)

def twoValues : BitSliceIndex := ((oneBit.doPut 7 0).1.doPut 8 1).1

def twoValuesMap : UInt32 → Option Nat := Function.update (Function.update (fun _ => none) 7 (some 0)) 8 (some 1)

lemma holds_twoValues : twoValues.Holds twoValuesMap := by
  have first : oneBit.Holds fun _ => none := holds_new _
  have second := (first.doPut 7 0 (.inr (.inl rfl))).1
  exact (second.doPut 8 1 (.inr (.inl rfl))).1

lemma mem_doRangeGT (holds : b.Holds m) (deep : 1 ≤ b.bitDepth) (small : v < 2 ^ b.bitDepth) (allowEq : Bool)
    (present : m id = some x) : id ∈ b.doRangeGT v allowEq ∅ ↔ v < x ∨ allowEq = true ∧ v = x := by
  have there : id ∈ b.exist := holds.mem_exist.mpr ⟨x, present⟩
  have alike : Alike v x b.bitDepth := alike_of_lt small (holds.lt id x present)
  have notAbove : ¬ Above v x b.bitDepth := not_above_of_lt (holds.lt id x present)
  rw [doRangeGT, restrict_empty, mem_rangeGTLoop (holds.spells id x present) (fun zero => absurd zero (ne_of_gt deep))]
  · exact iff_of_true there (.inr alike)
  · exact fun _ => iff_of_false (notMem_empty id) notAbove

/-- `RangeGT` has the ids with greater values, and with the same value where it is allowed. -/
theorem rangeGT_exact (holds : b.Holds m) (deep : 1 ≤ b.bitDepth) (small : v < 2 ^ b.bitDepth) (allowEq : Bool) (id : UInt32) :
    id ∈ b.doRangeGT v allowEq ∅ ↔ ∃ x, m id = some x ∧ (v < x ∨ allowEq = true ∧ v = x) := by
  cases present : m id with
  | none =>
    simpa using fun there => holds.notMem_exist present (b.doRangeGT_subset v allowEq there)
  | some x =>
    rw [mem_doRangeGT holds deep small allowEq present]
    simp

theorem rangeGT_exact_twoValues :
    twoValues.Holds twoValuesMap ∧
      (8 ∈ twoValues.doRangeGT 0 false ∅ ↔ ∃ x, twoValuesMap 8 = some x ∧ (0 < x ∨ false = true ∧ 0 = x)) :=
  ⟨holds_twoValues, rangeGT_exact holds_twoValues (by decide) (by decide) false 8⟩

/-- `filter` has what is less or equal in the high part, `keep` what is less; zeros lead where nothing is less. -/
structure LessSoFar (id : UInt32) (v x n : Nat) (leadingZero : Bool) (filter keep : Bitmap) : Prop where
  filters : id ∈ filter ↔ Above x v n ∨ Alike x v n
  keeps : 0 < n → (id ∈ keep ↔ Above x v n)
  zeros : leadingZero = true ↔ v / 2 ^ n = 0

section
variable {i : Nat} {leadingZero : Bool} (so : LessSoFar id v x (i + 1) leadingZero filter keep)
  (row : id ∈ b.row i ↔ x.testBit i = true)
include so row

lemma LessSoFar.leading (zeros : leadingZero = true) (bit : ¬ v.testBit i = true) :
    LessSoFar id v x i true (filter \ b.row i) keep := by
  have zero := so.zeros.mp zeros
  have notAbove : ¬ Above x v (i + 1) := by
    rw [Above, zero]
    exact not_lt_zero _
  refine ⟨?_, fun _ => ?_, ?_⟩
  · rw [alike_step i, above_step i, mem_sdiff, so.filters, row]
    simp [notAbove, bit]
  · rw [above_step i, so.keeps (succ_pos i)]
    simp [bit]
  · rw [div_two_pow_eq, zero]
    simp [bit]

lemma LessSoFar.unset (zeros : ¬ leadingZero = true) (bit : ¬ v.testBit i = true) :
    LessSoFar id v x i false (filter \ (b.row i \ keep)) keep := by
  refine ⟨?_, fun _ => ?_, ?_⟩
  · rw [alike_step i, above_step i, mem_sdiff_set, so.filters, row, so.keeps (succ_pos i)]
    by_cases less : Above x v (i + 1) <;> simp [less, bit]
  · rw [above_step i, so.keeps (succ_pos i)]
    simp [bit]
  · have positive := mt so.zeros.mpr zeros
    rw [div_two_pow_eq]
    simp only [false_eq_true, false_iff]
    omega

lemma LessSoFar.set (bit : v.testBit i = true) (kept : Bitmap)
    (keeps : 0 < i → kept = keep ∪ (filter \ b.row i)) : LessSoFar id v x i false filter kept := by
  refine ⟨?_, fun positive => ?_, ?_⟩
  · rw [alike_step i, above_step i, so.filters]
    by_cases one : x.testBit i = true <;> simp [one, bit]
  · rw [keeps positive, above_step i, mem_union, mem_sdiff, so.filters, row, so.keeps (succ_pos i)]
    by_cases less : Above x v (i + 1) <;> simp [less, bit]
  · rw [div_two_pow_eq, bit]
    simp

end

lemma LessSoFar.step {i : Nat} {leadingZero : Bool} {P : Prop}
    (so : LessSoFar id v x (i + 1) leadingZero filter keep) (row : id ∈ b.row i ↔ x.testBit i = true)
    (on : ¬ (i = 0 ∧ ¬ allowEq = true)) (later : ∀ leadingZero filter keep, LessSoFar id v x i leadingZero filter keep →
      (id ∈ b.rangeLTLoop v allowEq i leadingZero filter keep ↔ P)) :
    id ∈ b.rangeLTLoop v allowEq (i + 1) leadingZero filter keep ↔ P := by
  rw [rangeLTLoop]
  by_cases leading : leadingZero = true ∧ ¬ v.testBit i = true
  · rw [if_pos leading]
    exact later _ _ _ (so.leading row leading.1 leading.2)
  rw [if_neg leading, if_neg on]
  by_cases bit : v.testBit i = true
  · rw [if_neg (not_not_intro bit)]
    split
    · exact later _ _ _ (so.set row bit _ fun _ => rfl)
    · rename_i last
      exact later _ _ _ (so.set row bit keep fun positive => absurd positive last)
  · rw [if_pos bit]
    exact later _ _ _ (so.unset row (fun zeros => leading ⟨zeros, bit⟩) bit)

lemma mem_rangeLTLoop_true {leadingZero : Bool} (spells : Spells b.row id n x) (so : LessSoFar id v x n leadingZero filter keep) :
    id ∈ b.rangeLTLoop v true n leadingZero filter keep ↔ x < v ∨ x = v := by
  induction n generalizing leadingZero filter keep with
  | zero => rw [rangeLTLoop, so.filters, above_zero, alike_zero]
  | succ i ih =>
    refine so.step (spells i (lt_succ_self i)) (fun strict => strict.2 rfl) fun _ _ _ so => ?_
    exact ih (fun j lt => spells j (lt_succ_of_lt lt)) so

def StrictAnswer (v x : Nat) : Prop :=
  if v = 0 then x = 0
  else if v.testBit 0 = true then Alike x v 1 ∨ Above x v 1 ∧ x.testBit 0 = true
  else x < v

lemma LessSoFar.last {leadingZero : Bool} (so : LessSoFar id v x 1 leadingZero filter keep)
    (row : id ∈ b.row 0 ↔ x.testBit 0 = true) : id ∈ b.rangeLTLoop v false 1 leadingZero filter keep ↔ StrictAnswer v x := by
  have halves := div_two_pow_eq v 0
  rw [pow_zero, Nat.div_one] at halves
  rw [rangeLTLoop, StrictAnswer]
  by_cases bit : v.testBit 0 = true
  · have positive : v ≠ 0 := by
      rintro rfl
      cases bit
    rw [if_neg fun leading => leading.2 bit, if_pos ⟨rfl, false_ne_true⟩, if_neg (not_not_intro bit), if_neg positive,
      if_pos bit]
    simp only [mem_sdiff, mem_symmDiff, so.filters, so.keeps one_pos, row]
    by_cases less : Above x v 1
    · have apart : ¬ Alike x v 1 := ne_of_lt less
      by_cases one : x.testBit 0 = true <;> simp only [less, apart, one] <;> decide
    · simp only [less]
      tauto
  by_cases leading : leadingZero = true
  · have zero : v = 0 := by
      rw [so.zeros.mp leading] at halves
      simpa [bit] using halves
    subst zero
    rw [if_pos ⟨leading, bit⟩, if_pos rfl, rangeLTLoop, (so.leading row leading bit).filters, above_zero, alike_zero]
    omega
  · have positive : v ≠ 0 := by
      rintro rfl
      exact leading (so.zeros.mpr (Nat.zero_div _))
    rw [if_neg fun both => leading both.1, if_pos ⟨rfl, false_ne_true⟩, if_pos bit, if_neg positive, if_neg bit,
      so.keeps one_pos, ← above_zero, above_step 0]
    simp [bit]

lemma mem_rangeLTLoop_false {leadingZero : Bool} (spells : Spells b.row id n x) (positive : 0 < n)
    (so : LessSoFar id v x n leadingZero filter keep) : id ∈ b.rangeLTLoop v false n leadingZero filter keep ↔ StrictAnswer v x := by
  induction n generalizing leadingZero filter keep with
  | zero => exact absurd positive (lt_irrefl 0)
  | succ i ih =>
    have row := spells i (lt_succ_self i)
    rcases eq_zero_or_pos i with rfl | more
    · exact so.last row
    · refine so.step row (fun strict => ne_of_gt more strict.1) fun _ _ _ so => ?_
      exact ih (fun j lt => spells j (lt_succ_of_lt lt)) more so

lemma doRangeLT_subset (b : BitSliceIndex) (v : Nat) (allowEq : Bool) : b.doRangeLT v allowEq ∅ ⊆ b.exist := by
  rw [doRangeLT, restrict_empty]
  exact rangeLTLoop_subset b v allowEq _ _ Subset.rfl (empty_subset _)

lemma mem_doRangeLT (holds : b.Holds m) (deep : 1 ≤ b.bitDepth) (small : v < 2 ^ b.bitDepth) (allowEq : Bool)
    (present : m id = some x) : id ∈ b.doRangeLT v allowEq ∅ ↔ if allowEq then x < v ∨ x = v else StrictAnswer v x := by
  have so : LessSoFar id v x b.bitDepth true b.exist ∅ := by
    refine ⟨?_, fun _ => ?_, iff_of_true rfl (div_eq_of_lt small)⟩
    · exact iff_of_true (holds.mem_exist.mpr ⟨x, present⟩) (.inr (alike_of_lt (holds.lt id x present) small))
    · exact iff_of_false (notMem_empty id) (not_above_of_lt small)
  rw [doRangeLT, restrict_empty]
  cases allowEq with
  | true => exact mem_rangeLTLoop_true (holds.spells id x present) so
  | false => exact mem_rangeLTLoop_false (holds.spells id x present) deep so

lemma strictAnswer_iff : (StrictAnswer v x ↔ x < v) ↔ (v = 0 → x ≠ 0) ∧ (v % 2 = 1 → x ≠ v ∧ ¬ (x % 2 = 0 ∧ x + 1 < v)) := by
  simp only [StrictAnswer, Above, Alike, testBit_zero, decide_eq_true_eq, pow_one]
  split_ifs with zero odd
  · omega
  · omega
  · omega

/-- `RangeLT` has the ids with less values, and with the same value where it is allowed, precisely when the bound is
    inclusive, or even and positive, or no value is there that the last step gets wrong. -/
theorem rangeLT_exact_iff (holds : b.Holds m) (deep : 1 ≤ b.bitDepth) (small : v < 2 ^ b.bitDepth) (allowEq : Bool) :
    (∀ id, id ∈ b.doRangeLT v allowEq ∅ ↔ ∃ x, m id = some x ∧ (x < v ∨ allowEq = true ∧ x = v)) ↔
      (allowEq = false → ∀ id x, m id = some x →
        (v = 0 → x ≠ 0) ∧ (v % 2 = 1 → x ≠ v ∧ ¬ (x % 2 = 0 ∧ x + 1 < v))) := by
  constructor
  · rintro exact rfl id x present
    rw [← strictAnswer_iff]
    have here := exact id
    rw [mem_doRangeLT holds deep small false present] at here
    simpa [present] using here
  · intro right id
    cases present : m id with
    | none =>
      simpa using fun there => holds.notMem_exist present (b.doRangeLT_subset v allowEq there)
    | some x =>
      rw [mem_doRangeLT holds deep small allowEq present]
      cases allowEq with
      | true => simp
      | false =>
        have here := strictAnswer_iff.mpr (right rfl id x present)
        simpa using here

theorem strict_bound_keeps_equal :
    twoValues.Holds twoValuesMap ∧ 1 ≤ twoValues.bitDepth ∧ 1 < 2 ^ twoValues.bitDepth ∧
      ¬ ∀ id, id ∈ twoValues.doRangeLT 1 false ∅ ↔ ∃ x, twoValuesMap id = some x ∧ (x < 1 ∨ false = true ∧ x = 1) := by
  refine ⟨holds_twoValues, by decide, by decide, fun exact => ?_⟩
  obtain ⟨x, present, less | ⟨other, -⟩⟩ := (exact 8).mp (by decide)
  · cases present
    exact absurd less (by decide)
  · cases other

theorem rangeLT_exact_iff_inclusive : twoValues.Holds twoValuesMap ∧
    ∀ id, id ∈ twoValues.doRangeLT 0 true ∅ ↔ ∃ x, twoValuesMap id = some x ∧ (x < 0 ∨ true = true ∧ x = 0) :=
  ⟨holds_twoValues, (rangeLT_exact_iff holds_twoValues (by decide) (by decide) true).mpr fun other => nomatch other⟩

section
variable {lo hi i : Nat} {keep1 keep2 : Bitmap}

/-- `filter` has what is within the bounds in the high part; of it `keep1` has what is above the lower one and `keep2` what
    is below the upper one. -/
structure WithinSoFar (id : UInt32) (lo hi x n : Nat) (filter keep1 keep2 : Bitmap) : Prop where
  filters : id ∈ filter ↔ (Above lo x n ∨ Alike lo x n) ∧ (Above x hi n ∨ Alike x hi n)
  keeps1 : id ∈ filter → 0 < n → (id ∈ keep1 ↔ Above lo x n)
  keeps2 : id ∈ filter → 0 < n → (id ∈ keep2 ↔ Above x hi n)

lemma betweenMin_subset (b : BitSliceIndex) (lo i : Nat) (filter keep : Bitmap) : (b.betweenMin lo i filter keep).1 ⊆ filter := by
  rw [betweenMin]
  split_ifs
  · exact sdiff_subset
  · exact Subset.rfl
  · exact Subset.rfl

lemma betweenMax_subset (b : BitSliceIndex) (hi i : Nat) (filter keep : Bitmap) : (b.betweenMax hi i filter keep).1 ⊆ filter := by
  rw [betweenMax]
  split_ifs
  · exact Subset.rfl
  · exact Subset.rfl
  · exact sdiff_subset

lemma betweenMin_spec (row : id ∈ b.row i ↔ x.testBit i = true) (within : id ∈ filter → Above lo x (i + 1) ∨ Alike lo x (i + 1))
    (keeps : id ∈ filter → (id ∈ keep ↔ Above lo x (i + 1))) :
    (id ∈ (b.betweenMin lo i filter keep).1 ↔ id ∈ filter ∧ (Above lo x i ∨ Alike lo x i)) ∧
      (id ∈ filter → 0 < i → (id ∈ (b.betweenMin lo i filter keep).2 ↔ Above lo x i)) := by
  by_cases there : id ∈ filter
  · rw [betweenMin, alike_step i, above_step i]
    have within := within there
    have keeps := keeps there
    split_ifs with bit positive
    · simp only [mem_sdiff_unset, there, row, keeps, bit]
      by_cases greater : Above lo x (i + 1)
      · simp [greater]
      · simp [greater, within.resolve_left greater]
    · simp only [mem_union, mem_inter, there, row, keeps, bit]
      by_cases greater : Above lo x (i + 1)
      · simp [greater]
      · by_cases one : x.testBit i = true <;> simp [greater, within.resolve_left greater, one]
    · refine ⟨?_, fun _ positive' => absurd positive' positive⟩
      by_cases one : x.testBit i = true <;> simpa [there, bit, one] using within
  · exact ⟨iff_of_false (fun inside => there (b.betweenMin_subset lo i _ _ inside)) fun both => there both.1,
      fun inside => absurd inside there⟩

lemma betweenMax_spec (row : id ∈ b.row i ↔ x.testBit i = true) (within : id ∈ filter → Above x hi (i + 1) ∨ Alike x hi (i + 1))
    (keeps : id ∈ filter → (id ∈ keep ↔ Above x hi (i + 1))) :
    (id ∈ (b.betweenMax hi i filter keep).1 ↔ id ∈ filter ∧ (Above x hi i ∨ Alike x hi i)) ∧
      (id ∈ filter → 0 < i → (id ∈ (b.betweenMax hi i filter keep).2 ↔ Above x hi i)) := by
  by_cases there : id ∈ filter
  · rw [betweenMax, alike_step i, above_step i]
    have within := within there
    have keeps := keeps there
    split_ifs with bit positive
    · simp only [mem_union, mem_sdiff, there, row, keeps, bit]
      by_cases less : Above x hi (i + 1)
      · simp [less]
      · by_cases one : x.testBit i = true <;> simp [less, within.resolve_left less, one]
    · refine ⟨?_, fun _ positive' => absurd positive' positive⟩
      by_cases one : x.testBit i = true <;> simpa [there, bit, one] using within
    · simp only [mem_sdiff_set, there, row, keeps, bit]
      by_cases less : Above x hi (i + 1)
      · simp [less]
      · simp [less, within.resolve_left less]
  · exact ⟨iff_of_false (fun inside => there (b.betweenMax_subset hi i _ _ inside)) fun both => there both.1,
      fun inside => absurd inside there⟩

lemma rangeBetweenLoop_succ (b : BitSliceIndex) (lo hi i : Nat) (filter keep1 keep2 : Bitmap) :
    b.rangeBetweenLoop lo hi (i + 1) filter keep1 keep2 =
      b.rangeBetweenLoop lo hi i (b.betweenMax hi i (b.betweenMin lo i filter keep1).1 keep2).1
        (b.betweenMin lo i filter keep1).2 (b.betweenMax hi i (b.betweenMin lo i filter keep1).1 keep2).2 := rfl

lemma mem_rangeBetweenLoop (spells : Spells b.row id n x) (so : WithinSoFar id lo hi x n filter keep1 keep2) :
    id ∈ b.rangeBetweenLoop lo hi n filter keep1 keep2 ↔ lo ≤ x ∧ x ≤ hi := by
  induction n generalizing filter keep1 keep2 with
  | zero =>
    rw [rangeBetweenLoop, so.filters, above_zero, alike_zero, above_zero, alike_zero]
    omega
  | succ i ih =>
    have row := spells i (lt_succ_self i)
    obtain ⟨filters1, keeps1⟩ := betweenMin_spec row (fun there => (so.filters.mp there).1)
      fun there => so.keeps1 there (succ_pos i)
    have upper := fun there => (so.filters.mp (filters1.mp there).1).2
    obtain ⟨filters2, keeps2⟩ := betweenMax_spec row upper fun there => so.keeps2 (filters1.mp there).1 (succ_pos i)
    rw [rangeBetweenLoop_succ]
    refine ih (fun j lt => spells j (lt_succ_of_lt lt)) ⟨?_, fun there => ?_, fun there => ?_⟩
    · rw [filters2, filters1, so.filters]
      constructor
      · rintro ⟨⟨-, lower⟩, upper⟩
        exact ⟨lower, upper⟩
      · rintro ⟨lower, upper⟩
        exact ⟨⟨⟨above_or_alike_succ lower, above_or_alike_succ upper⟩, lower⟩, upper⟩
    · exact keeps1 (filters1.mp (filters2.mp there).1).1
    · exact keeps2 (filters2.mp there).1

lemma rangeBetweenLoop_subset (b : BitSliceIndex) (lo hi n : Nat) (filter keep1 keep2 : Bitmap) :
    b.rangeBetweenLoop lo hi n filter keep1 keep2 ⊆ filter := by
  induction n generalizing filter keep1 keep2 with
  | zero => exact Subset.rfl
  | succ i ih =>
    rw [rangeBetweenLoop_succ]
    exact (ih _ _ _).trans ((b.betweenMax_subset hi i _ _).trans (b.betweenMin_subset lo i _ _))

lemma mem_doRangeBetween (holds : b.Holds m) (small : lo < 2 ^ b.bitDepth) (small' : hi < 2 ^ b.bitDepth) :
    id ∈ b.doRangeBetween lo hi ∅ ↔ ∃ x, m id = some x ∧ lo ≤ x ∧ x ≤ hi := by
  rw [doRangeBetween, restrict_empty]
  cases present : m id with
  | none =>
    simpa using fun there => holds.notMem_exist present (b.rangeBetweenLoop_subset lo hi _ _ _ _ there)
  | some x =>
    have there : id ∈ b.exist := holds.mem_exist.mpr ⟨x, present⟩
    have less := holds.lt id x present
    rw [mem_rangeBetweenLoop (holds.spells id x present) ⟨?_, fun _ _ => ?_, fun _ _ => ?_⟩]
    · simp
    · exact iff_of_true there ⟨.inr (alike_of_lt small less), .inr (alike_of_lt less small')⟩
    · exact iff_of_false (notMem_empty id) (not_above_of_lt less)
    · exact iff_of_false (notMem_empty id) (not_above_of_lt small')

/-- `RangeBetween` has the ids with values within the bounds, and `RangeEQ` is the case of equal bounds. -/
theorem rangeBetween_exact (holds : b.Holds m) (small : lo < 2 ^ b.bitDepth) (small' : hi < 2 ^ b.bitDepth) :
    (∀ id, id ∈ b.doRangeBetween lo hi ∅ ↔ ∃ x, m id = some x ∧ lo ≤ x ∧ x ≤ hi) ∧
      b.doRangeEQ lo ∅ = b.doRangeBetween lo lo ∅ := by
  refine ⟨fun id => mem_doRangeBetween holds small small', ext fun id => ?_⟩
  rw [mem_doRangeBetween holds small small, mem_doRangeEQ, holds.mem_exist]
  constructor
  · rintro ⟨⟨x, present⟩, spells⟩
    have same : lo = x := (spells.sliced_eq small).symm.trans ((holds.spells id x present).sliced_eq (holds.lt id x present))
    exact ⟨x, present, le_of_eq same, le_of_eq same.symm⟩
  · rintro ⟨x, present, lower, upper⟩
    cases le_antisymm lower upper
    exact ⟨⟨lo, present⟩, holds.spells id lo present⟩

theorem rangeBetween_exact_twoValues : twoValues.Holds twoValuesMap ∧
    ∀ id, id ∈ twoValues.doRangeBetween 1 0 ∅ ↔ ∃ x, twoValuesMap id = some x ∧ 1 ≤ x ∧ x ≤ 0 :=
  ⟨holds_twoValues, (rangeBetween_exact holds_twoValues (by decide) (by decide)).1⟩

end

inductive RangeOp where
  | lt (expect : Nat) (allowEq : Bool)
  | gt (expect : Nat) (allowEq : Bool)
  | eq (expect : Nat)
  | neq (expect : Nat)
  | between (expectMin expectMax : Nat)

def doRange (b : BitSliceIndex) (op : RangeOp) (out : Bitmap) : Bitmap :=
  match op with
  | .lt expect allowEq => b.doRangeLT expect allowEq out
  | .gt expect allowEq => b.doRangeGT expect allowEq out
  | .eq expect => b.doRangeEQ expect out
  | .neq expect => b.doRangeNEQ expect out
  | .between expectMin expectMax => b.doRangeBetween expectMin expectMax out

lemma restrict_inter (b : BitSliceIndex) (answer : Bitmap → Bitmap) (subset : ∀ filter, answer filter ⊆ filter)
    (congr : ∀ {id filter filter'}, (id ∈ filter ↔ id ∈ filter') → (id ∈ answer filter ↔ id ∈ answer filter'))
    (some : out ≠ ∅) : answer (b.restrict out) = out ∩ answer (b.restrict ∅) := by
  ext id
  rw [restrict_empty, restrict, if_neg some, mem_inter]
  by_cases there : id ∈ out
  · rw [and_iff_right there]
    exact congr (by rw [mem_inter, and_iff_right there])
  · refine iff_of_false (fun inside => there ?_) fun both => there both.1
    exact (mem_inter.mp (subset _ inside)).1

lemma mem_rangeBetweenLoop_congr {filter filter' keep1 keep1' keep2 keep2' : Bitmap} (lo hi n : Nat)
    (filters : id ∈ filter ↔ id ∈ filter') (keeps1 : id ∈ keep1 ↔ id ∈ keep1') (keeps2 : id ∈ keep2 ↔ id ∈ keep2') :
    id ∈ b.rangeBetweenLoop lo hi n filter keep1 keep2 ↔ id ∈ b.rangeBetweenLoop lo hi n filter' keep1' keep2' := by
  induction n generalizing filter filter' keep1 keep1' keep2 keep2' with
  | zero => exact filters
  | succ i ih =>
    have lower : (id ∈ (b.betweenMin lo i filter keep1).1 ↔ id ∈ (b.betweenMin lo i filter' keep1').1) ∧
        (id ∈ (b.betweenMin lo i filter keep1).2 ↔ id ∈ (b.betweenMin lo i filter' keep1').2) := by
      rw [betweenMin, betweenMin]
      split_ifs <;> simp [filters, keeps1]
    have upper : ∀ {f f' : Bitmap}, (id ∈ f ↔ id ∈ f') →
        (id ∈ (b.betweenMax hi i f keep2).1 ↔ id ∈ (b.betweenMax hi i f' keep2').1) ∧
        (id ∈ (b.betweenMax hi i f keep2).2 ↔ id ∈ (b.betweenMax hi i f' keep2').2) := by
      intro f f' same
      rw [betweenMax, betweenMax]
      split_ifs <;> simp [same, keeps2]
    rw [rangeBetweenLoop_succ, rangeBetweenLoop_succ]
    exact ih (upper lower.1).1 lower.2 (upper lower.1).2

lemma mem_doRangeNEQ (v : Nat) : id ∈ b.doRangeNEQ v out ↔ ∃ x, b.doGet id = some x ∧ x ≠ v % 2 ^ b.bitDepth := by
  rw [doRangeNEQ, mem_sdiff, mem_doRangeEQ, spells_iff, doGet, foldl_eq_sliced]
  by_cases there : id ∈ b.exist <;> simp [there]

/-- A range operation restricts its answer to the ids it was given, except that `DoRangeNEQ` does so only where all the
    ids with other values were given. -/
theorem doRange_inter_iff (b : BitSliceIndex) (op : RangeOp) {out : Bitmap} (some : out ≠ ∅) :
    b.doRange op out = out ∩ b.doRange op ∅ ↔
      ∀ v, op = .neq v → ∀ id x, b.doGet id = .some x → x ≠ v % 2 ^ b.bitDepth → id ∈ out := by
  have noRows : ∀ {id} (i : Nat), i < b.bitDepth → (id ∈ b.row i ↔ id ∈ b.row i) := fun _ _ => Iff.rfl
  cases op with
  | lt v allowEq =>
    refine iff_of_true (b.restrict_inter (b.rangeLTLoop v allowEq b.bitDepth true · ∅) (fun filter => ?_) (fun same => ?_) some)
      fun _ other => nomatch other
    · exact rangeLTLoop_subset b v allowEq _ _ Subset.rfl (empty_subset _)
    · exact mem_rangeLTLoop_congr v allowEq true noRows same Iff.rfl
  | gt v allowEq =>
    refine iff_of_true (b.restrict_inter (b.rangeGTLoop v allowEq b.bitDepth · ∅) (fun filter => ?_) (fun same => ?_) some)
      fun _ other => nomatch other
    · exact rangeGTLoop_subset b v allowEq _ Subset.rfl (empty_subset _)
    · exact mem_rangeGTLoop_congr v allowEq noRows same Iff.rfl
  | eq v =>
    refine iff_of_true (b.restrict_inter (b.rangeEQLoop v b.bitDepth) (fun filter => ?_) (fun same => ?_) some)
      fun _ other => nomatch other
    · exact b.rangeEQLoop_subset v _ _
    · exact mem_rangeEQLoop_congr v noRows same
  | between lo hi =>
    refine iff_of_true (b.restrict_inter (b.rangeBetweenLoop lo hi b.bitDepth · ∅ ∅) (fun filter => ?_) (fun same => ?_) some)
      fun _ other => nomatch other
    · exact b.rangeBetweenLoop_subset lo hi _ _ _ _
    · exact mem_rangeBetweenLoop_congr lo hi _ same Iff.rfl Iff.rfl
  | neq v =>
    have same : b.doRangeNEQ v out = b.doRangeNEQ v ∅ := rfl
    show b.doRangeNEQ v out = out ∩ b.doRangeNEQ v ∅ ↔ _
    rw [same, eq_comm, inter_eq_right]
    constructor
    · rintro inside _ ⟨⟩ id x present other
      exact inside ((mem_doRangeNEQ v).mpr ⟨x, present, other⟩)
    · intro given id there
      obtain ⟨x, present, other⟩ := (mem_doRangeNEQ v).mp there
      exact given v rfl id x present other

theorem neq_ignores_given : ({8} : Bitmap) ≠ ∅ ∧
    ¬ twoValues.doRange (.neq 1) {8} = {8} ∩ twoValues.doRange (.neq 1) ∅ := by decide

theorem doRange_inter_iff_gt : ({8} : Bitmap) ≠ ∅ ∧
    twoValues.doRange (.gt 0 true) {8} = {8} ∩ twoValues.doRange (.gt 0 true) ∅ :=
  ⟨by decide, (doRange_inter_iff twoValues (.gt 0 true) (by decide)).mpr fun _ other => nomatch other⟩

end BitSliceIndex

end Myctk.Robims
