import Myctk.Robims.Field

/-! The bit-sliced index is a map from ids to values. -/

namespace Myctk.Robims

open List Function Lib BitSliceIndex Int Option
open Finset
open Function

namespace BitSliceIndex

variable {b b' : BitSliceIndex} {id : UInt32} {val n : Nat}

def Whole (b : BitSliceIndex) : Prop := ∀ i ≤ b.bitDepth, ∃ s, b.bitmaps[i]? = some (some s)

variable (options : BsiOptions) (expect : Nat)

lemma whole_new : (new options).Whole := by
  intro i le
  refine ⟨∅, ?_⟩
  rw [new, getElem?_replicate]
  exact if_pos (Nat.lt_succ_of_le le)

lemma bitmap_new (i : Nat) : (new options).bitmap i = ∅ := by
  rw [bitmap, new, getD_eq_getElem?_getD, getElem?_replicate]
  split <;> rfl

lemma Whole.update (whole : b.Whole) (i : Nat) (f : Bitmap → Bitmap) : (b.update i f).Whole := by
  intro j le
  obtain ⟨s, there⟩ := whole j le
  by_cases same : i = j
  · exact ⟨f s, by simp [BitSliceIndex.update, there, same]⟩
  · exact ⟨s, by simp [BitSliceIndex.update, there, same]⟩

lemma Whole.bitmap_update (whole : b.Whole) {i : Nat} (le : i ≤ b.bitDepth) (f : Bitmap → Bitmap) :
    (b.update i f).bitmap = Function.update b.bitmap i (f (b.bitmap i)) := by
  funext j
  obtain ⟨s, there⟩ := whole i le
  rcases eq_or_ne j i with rfl | other
  · simp [bitmap, BitSliceIndex.update, there]
  · rw [update_of_ne other, bitmap, bitmap, BitSliceIndex.update, getD_eq_getElem?_getD,
      getElem?_modify_ne _ _ other.symm, getD_eq_getElem?_getD]

/-- `b'` is `b` with other ids in its bitmaps. -/
structure Shaped (b b' : BitSliceIndex) : Prop where
  options : b'.options = b.options
  depth : b'.bitDepth = b.bitDepth
  whole : b.Whole → b'.Whole
  length : b'.bitmaps.length = b.bitmaps.length

lemma Shaped.refl (b : BitSliceIndex) : b.Shaped b := ⟨rfl, rfl, fun whole => whole, rfl⟩

lemma Shaped.trans {b'' : BitSliceIndex} (first : b.Shaped b') (second : b'.Shaped b'') : b.Shaped b'' :=
  ⟨second.options.trans first.options, second.depth.trans first.depth, fun whole => second.whole (first.whole whole),
    second.length.trans first.length⟩

lemma shaped_update (b : BitSliceIndex) (i : Nat) (f : Bitmap → Bitmap) : b.Shaped (b.update i f) :=
  ⟨rfl, rfl, fun whole => whole.update i f, length_modify _ _ _⟩

variable {f : BitSliceIndex → Nat → BitSliceIndex} {ids filter keep out filter' keep' : Bitmap}

lemma shaped_foldl (step : ∀ (b : BitSliceIndex) i, b.Shaped (f b i)) (is : List Nat)
    (b : BitSliceIndex) : b.Shaped (is.foldl f b) := by
  induction is generalizing b with
  | nil => exact .refl b
  | cons i is ih => exact (step b i).trans (ih (f b i))

lemma shaped_writeBit (b : BitSliceIndex) (id : UInt32) (val i : Nat) : b.Shaped (b.writeBit id val i) := by
  rw [writeBit]
  split
  · exact shaped_update _ _ _
  · exact shaped_update _ _ _

lemma shaped_doRemove (b : BitSliceIndex) (id : UInt32) (val : Nat) : b.Shaped (b.doRemove id val) := by
  refine (shaped_update b 0 _).trans (shaped_foldl (fun b i => ?_) _ _)
  split
  · exact shaped_update _ _ _
  · exact .refl b

lemma shaped_doRemoveMin (b : BitSliceIndex) : b.Shaped b.doRemoveMin.1 := by
  rw [doRemoveMin]
  dsimp only
  split
  · split
    · exact shaped_doRemove _ _ _
    · exact .refl b
  · exact .refl b

lemma shaped_foldl_old (id : UInt32) (val : Nat) (is : List Nat) (b : BitSliceIndex) (old : Nat) :
    b.Shaped (is.foldl (fun (b, oldVal) i => (b.writeBit id val i, if id ∈ b.row i then oldVal + 2 ^ i else oldVal)) (b, old)).1 := by
  induction is generalizing b old with
  | nil => exact .refl b
  | cons i is ih => exact (shaped_writeBit b id val i).trans (ih _ _)

def inserted (b : BitSliceIndex) (id : UInt32) (val : Nat) : BitSliceIndex :=
  (List.range b.bitDepth).foldl (fun b i => b.writeBit id val i) (b.update 0 (insert id))

lemma doPut_of_new (new : id ∉ b.exist) (val : Nat) : b.doPut id val =
    if 0 < (b.inserted id val).options.limitTopK ∧ (b.inserted id val).options.limitTopK < (b.inserted id val).exist.card then
      ((b.inserted id val).doRemoveMin.1, none) else (b.inserted id val, none) :=
  if_pos new

lemma shaped_inserted (b : BitSliceIndex) (id : UInt32) (val : Nat) : b.Shaped (b.inserted id val) :=
  (shaped_update b 0 (insert id)).trans (shaped_foldl (fun b i => shaped_writeBit b id val i) (range b.bitDepth) _)

lemma shaped_doPut (b : BitSliceIndex) (id : UInt32) (val : Nat) : b.Shaped (b.doPut id val).1 := by
  by_cases known : id ∈ b.exist
  · rw [doPut, if_neg (not_not_intro known)]
    exact shaped_foldl_old id val _ b 0
  · rw [doPut_of_new known]
    split
    · exact (b.shaped_inserted id val).trans (shaped_doRemoveMin _)
    · exact b.shaped_inserted id val

/-- `b'` has the bits of the number for the id, in the lowest `n` rows. -/
structure Wrote (b : BitSliceIndex) (id : UInt32) (val n : Nat) (b' : BitSliceIndex) : Prop where
  whole : b'.Whole
  options : b'.options = b.options
  depth : b'.bitDepth = b.bitDepth
  ids : b'.exist = b.exist
  written : Spells b'.row id n val
  others : ∀ j i, j ≠ id ∨ n ≤ i → (j ∈ b'.row i ↔ j ∈ b.row i)

lemma Wrote.refl (whole : b.Whole) : b.Wrote id val 0 b :=
  ⟨whole, rfl, rfl, rfl, fun i lt => absurd lt (Nat.not_lt_zero i), fun _ _ _ => Iff.rfl⟩

lemma Wrote.step (wrote : b.Wrote id val n b') (lt : n < b.bitDepth) : b.Wrote id val (n + 1) (b'.writeBit id val n) := by
  have le : n + 1 ≤ b'.bitDepth := wrote.depth ▸ lt
  obtain ⟨f, eq, here, others⟩ : ∃ f, b'.writeBit id val n = b'.update (n + 1) f ∧
      (∀ s, id ∈ f s ↔ val.testBit n) ∧ ∀ s, ∀ j ≠ id, j ∈ f s ↔ j ∈ s := by
    rw [writeBit]
    cases val.testBit n with
    | true => exact ⟨insert id, rfl, fun s => by simp, fun s j other => by simp [other]⟩
    | false => exact ⟨(·.erase id), rfl, fun s => by simp, fun s j other => by simp [other]⟩
  rw [eq]
  have bitmaps := wrote.whole.bitmap_update le f
  have row_ne : ∀ i, i ≠ n → (b'.update (n + 1) f).row i = b'.row i := by
    intro i other
    rw [row, bitmaps, update_of_ne fun same => other (Nat.succ_injective same)]
    rfl
  have row_eq : (b'.update (n + 1) f).row n = f (b'.row n) := by
    rw [row, bitmaps, update_self]
    rfl
  refine ⟨wrote.whole.update _ _, wrote.options, wrote.depth, ?_, fun i less => ?_, fun j i far => ?_⟩
  · rw [exist, bitmaps, update_of_ne (Nat.succ_ne_zero n).symm]
    exact wrote.ids
  · rcases eq_or_ne i n with rfl | other
    · rw [row_eq, here]
    · rw [row_ne i other, wrote.written i (lt_of_le_of_ne (Nat.le_of_lt_succ less) other)]
  · rcases eq_or_ne i n with rfl | other
    · have different := far.resolve_right (Nat.not_succ_le_self i)
      rw [row_eq, others _ j different, wrote.others j i (.inl different)]
    · rw [row_ne i other, wrote.others j i (far.imp_right Nat.le_of_succ_le)]

lemma wrote_foldl (id : UInt32) (val : Nat) (whole : b.Whole) (le : n ≤ b.bitDepth) :
    b.Wrote id val n ((List.range n).foldl (fun b i => b.writeBit id val i) b) := by
  induction n with
  | zero => exact .refl whole
  | succ n ih =>
    rw [range_succ, foldl_concat]
    exact (ih (Nat.le_of_succ_le le)).step le

lemma wrote_foldl_old (id : UInt32) (val : Nat) (whole : b.Whole) (le : n ≤ b.bitDepth) :
    let result := (List.range n).foldl
      (fun (b, oldVal) i => (b.writeBit id val i, if id ∈ b.row i then oldVal + 2 ^ i else oldVal)) (b, 0)
    b.Wrote id val n result.1 ∧ result.2 = sliced b.row id n := by
  induction n with
  | zero => exact ⟨.refl whole, rfl⟩
  | succ n ih =>
    obtain ⟨wrote, old⟩ := ih (Nat.le_of_succ_le le)
    rw [List.range_succ, List.foldl_concat]
    refine ⟨wrote.step le, ?_⟩
    rw [sliced, ← old]
    exact if_congr (wrote.others id n (.inr (le_refl n))) rfl rfl

lemma foldl_eq_sliced (b : BitSliceIndex) (id : UInt32) (n : Nat) :
    (List.range n).foldl (fun val i => if id ∈ b.row i then val + 2 ^ i else val) 0 = sliced b.row id n := by
  induction n with
  | zero => rfl
  | succ n ih =>
    rw [range_succ, foldl_concat, ih]
    rfl

lemma erased_foldl (id : UInt32) (val : Nat) (whole : b.Whole) (le : n ≤ b.bitDepth) :
    let b' := (List.range n).foldl (fun b i => if val.testBit i then b.update (i + 1) (·.erase id) else b) b
    b'.Whole ∧ b'.options = b.options ∧ b'.bitDepth = b.bitDepth ∧ b'.exist = b.exist ∧
      ∀ j ≠ id, ∀ i, j ∈ b'.row i ↔ j ∈ b.row i := by
  induction n with
  | zero => exact ⟨whole, rfl, rfl, rfl, fun _ _ _ => Iff.rfl⟩
  | succ n ih =>
    obtain ⟨whole', options, depth, exist', rows⟩ := ih (Nat.le_of_succ_le le)
    rw [List.range_succ, List.foldl_concat]
    split
    case isFalse => exact ⟨whole', options, depth, exist', rows⟩
    case isTrue =>
      have bitmaps := whole'.bitmap_update (show n + 1 ≤ _ by rw [depth]; exact le) (·.erase id)
      refine ⟨whole'.update _ _, options, depth, ?_, fun j other i => ?_⟩
      · rw [exist, bitmaps, update_of_ne (Nat.succ_ne_zero n).symm]
        exact exist'
      · rw [← rows j other i, row, bitmaps, row]
        rcases eq_or_ne (i + 1) (n + 1) with same | different
        · rw [same, update_self, mem_erase, and_iff_right other]
        · rw [update_of_ne different]

lemma doRemove_spec (whole : b.Whole) (id : UInt32) (val : Nat) : (b.doRemove id val).exist = b.exist.erase id ∧
    ∀ j ≠ id, ∀ i, j ∈ (b.doRemove id val).row i ↔ j ∈ b.row i := by
  have bitmaps := whole.bitmap_update zero_le (·.erase id)
  obtain ⟨-, -, -, ids, rows⟩ := erased_foldl id val (whole.update 0 (·.erase id)) (Nat.le_refl b.bitDepth)
  refine ⟨?_, fun j other i => ?_⟩
  · rw [show (b.doRemove id val).exist = _ from ids, exist, bitmaps, update_self]
    rfl
  · rw [show j ∈ (b.doRemove id val).row i ↔ _ from rows j other i, row, bitmaps, update_of_ne (Nat.succ_ne_zero i)]
    rfl

lemma exist_update_succ (b : BitSliceIndex) (i : Nat) (f : Bitmap → Bitmap) : (b.update (i + 1) f).exist = b.exist := by
  rw [exist, exist, bitmap, bitmap, update, getD_eq_getElem?_getD, getElem?_modify_ne _ _ (Nat.succ_ne_zero i),
    getD_eq_getElem?_getD]

lemma exist_update_zero (b : BitSliceIndex) (f : Bitmap → Bitmap) : (b.update 0 f).exist ⊆ f b.exist := by
  simp only [exist, bitmap, update, getD_eq_getElem?_getD]
  cases b.bitmaps with
  | nil => simp
  | cons first rest => cases first <;> simp

lemma exist_foldl (step : ∀ (b : BitSliceIndex) i, (f b i).exist = b.exist)
    (is : List Nat) (b : BitSliceIndex) : (is.foldl f b).exist = b.exist := by
  induction is generalizing b with
  | nil => rfl
  | cons i is ih => exact (ih (f b i)).trans (step b i)

lemma exist_writeBit (b : BitSliceIndex) (id : UInt32) (val i : Nat) : (b.writeBit id val i).exist = b.exist := by
  rw [writeBit]
  split <;> exact exist_update_succ _ _ _

lemma exist_foldl_old (id : UInt32) (val : Nat) (is : List Nat) (b : BitSliceIndex) (old : Nat) :
    (is.foldl (fun (b, oldVal) i => (b.writeBit id val i, if id ∈ b.row i then oldVal + 2 ^ i else oldVal)) (b, old)).1.exist =
      b.exist := by
  induction is generalizing b old with
  | nil => rfl
  | cons i is ih => exact (ih _ _).trans (exist_writeBit b id val i)

lemma exist_doRemove (b : BitSliceIndex) (id : UInt32) (val : Nat) : (b.doRemove id val).exist ⊆ b.exist := by
  have kept : (b.doRemove id val).exist = (b.update 0 (·.erase id)).exist := by
    refine exist_foldl (fun b i => ?_) _ _
    split
    · exact exist_update_succ _ _ _
    · rfl
  rw [kept]
  exact (exist_update_zero b _).trans (erase_subset _ _)

lemma exist_doRemoveMin (b : BitSliceIndex) : b.doRemoveMin.1.exist ⊆ b.exist := by
  rw [doRemoveMin]
  dsimp only
  split
  · split
    · exact exist_doRemove _ _ _
    · exact Subset.rfl
  · exact Subset.rfl

lemma exist_doPut (b : BitSliceIndex) (id : UInt32) (val : Nat) : (b.doPut id val).1.exist ⊆ insert id b.exist := by
  by_cases known : id ∈ b.exist
  · rw [doPut, if_neg (not_not_intro known)]
    rw [exist_foldl_old]
    exact subset_insert _ _
  · have wrote : (b.inserted id val).exist ⊆ insert id b.exist := by
      rw [inserted, exist_foldl fun b i => exist_writeBit b id val i]
      exact exist_update_zero b _
    rw [doPut_of_new known]
    split
    · exact (exist_doRemoveMin _).trans wrote
    · exact wrote

lemma rangeEQLoop_subset (b : BitSliceIndex) (expect n : Nat) (out : Bitmap) : b.rangeEQLoop expect n out ⊆ out := by
  induction n generalizing out with
  | zero => exact Subset.rfl
  | succ i ih =>
    refine (ih _).trans ?_
    split
    · exact inter_subset_left
    · exact sdiff_subset

lemma rangeLTLoop_subset (b : BitSliceIndex) (expect : Nat) (allowEq leadingZero : Bool) (n : Nat)
    (inside : filter ⊆ ids) (kept : keep ⊆ ids) : b.rangeLTLoop expect allowEq n leadingZero filter keep ⊆ ids := by
  induction n generalizing leadingZero filter keep with
  | zero => exact inside
  | succ i ih =>
    rw [rangeLTLoop]
    split_ifs
    · exact ih _ (sdiff_subset.trans inside) kept
    · exact sdiff_subset.trans inside
    · exact kept
    · exact ih _ inside (union_subset kept (sdiff_subset.trans inside))
    · exact ih _ inside kept
    · exact ih _ (sdiff_subset.trans inside) kept

lemma rangeGTLoop_subset (b : BitSliceIndex) (expect : Nat) (allowEq : Bool) (n : Nat)
    (inside : filter ⊆ ids) (kept : keep ⊆ ids) : b.rangeGTLoop expect allowEq n filter keep ⊆ ids := by
  induction n generalizing filter keep with
  | zero => exact inside
  | succ i ih =>
    rw [rangeGTLoop]
    split_ifs
    · exact kept
    · exact sdiff_subset.trans inside
    · exact ih (sdiff_subset.trans inside) kept
    · exact ih inside (union_subset kept (inter_subset_left.trans inside))
    · exact ih inside kept

lemma restrict_empty (b : BitSliceIndex) : b.restrict ∅ = b.exist := if_pos rfl

lemma doRangeGT_zero (b : BitSliceIndex) : b.doRangeGT 0 true ∅ = b.exist := by
  have loop : ∀ n filter keep, b.rangeGTLoop 0 true n filter keep = filter := by
    intro n
    induction n with
    | zero => exact fun _ _ => rfl
    | succ i ih =>
      intro filter keep
      rw [rangeGTLoop, if_neg (fun strict => strict.2 rfl), if_neg (by simp), ih, ih, ite_self]
  rw [doRangeGT, loop, restrict_empty]

lemma mem_rangeEQLoop_congr {out' : Bitmap} {n : Nat} (rows : ∀ i < n, id ∈ b.row i ↔ id ∈ b'.row i)
    (outs : id ∈ out ↔ id ∈ out') : id ∈ b.rangeEQLoop expect n out ↔ id ∈ b'.rangeEQLoop expect n out' := by
  induction n generalizing out out' with
  | zero => exact outs
  | succ i ih =>
    have here := rows i (Nat.lt_succ_self i)
    refine ih (fun j lt => rows j (Nat.lt_succ_of_lt lt)) ?_
    split
    · rw [mem_inter, mem_inter, outs, here]
    · rw [mem_sdiff, mem_sdiff, outs, here]

lemma mem_rangeEQLoop (n : Nat) : id ∈ b.rangeEQLoop expect n out ↔ id ∈ out ∧ Spells b.row id n expect := by
  induction n generalizing out with
  | zero => exact (and_iff_left fun i lt => absurd lt (Nat.not_lt_zero i)).symm
  | succ n ih =>
    rw [rangeEQLoop, ih, Spells, Spells, Nat.forall_lt_succ_right]
    cases top : expect.testBit n with
    | true => simp [and_assoc, and_comm]
    | false => simp [and_assoc, and_comm]

lemma mem_doRangeEQ : id ∈ b.doRangeEQ expect ∅ ↔ id ∈ b.exist ∧ Spells b.row id b.bitDepth expect := by
  rw [doRangeEQ, mem_rangeEQLoop, restrict_empty]

lemma mem_rangeLTLoop_congr (allowEq leadingZero : Bool) {n : Nat}
    (rows : ∀ i < n, id ∈ b.row i ↔ id ∈ b'.row i) (filters : id ∈ filter ↔ id ∈ filter') (keeps : id ∈ keep ↔ id ∈ keep') :
    id ∈ b.rangeLTLoop expect allowEq n leadingZero filter keep ↔ id ∈ b'.rangeLTLoop expect allowEq n leadingZero filter' keep' := by
  induction n generalizing leadingZero filter filter' keep keep' with
  | zero => exact filters
  | succ i ih =>
    have here := rows i (Nat.lt_succ_self i)
    have lower : ∀ j < i, id ∈ b.row j ↔ id ∈ b'.row j := fun j lt => rows j (Nat.lt_succ_of_lt lt)
    rw [rangeLTLoop, rangeLTLoop]
    split_ifs
    · exact ih _ lower (by simp only [mem_sdiff, filters, here]) keeps
    · simp only [mem_sdiff, mem_symmDiff, filters, here, keeps]
    · exact keeps
    · exact ih _ lower filters (by simp only [mem_union, mem_sdiff, filters, here, keeps])
    · exact ih _ lower filters keeps
    · exact ih _ lower (by simp only [mem_sdiff, filters, here, keeps]) keeps

lemma mem_rangeGTLoop_congr (allowEq : Bool) {n : Nat}
    (rows : ∀ i < n, id ∈ b.row i ↔ id ∈ b'.row i) (filters : id ∈ filter ↔ id ∈ filter') (keeps : id ∈ keep ↔ id ∈ keep') :
    id ∈ b.rangeGTLoop expect allowEq n filter keep ↔ id ∈ b'.rangeGTLoop expect allowEq n filter' keep' := by
  induction n generalizing filter filter' keep keep' with
  | zero => exact filters
  | succ i ih =>
    have here := rows i (Nat.lt_succ_self i)
    have lower : ∀ j < i, id ∈ b.row j ↔ id ∈ b'.row j := fun j lt => rows j (Nat.lt_succ_of_lt lt)
    rw [rangeGTLoop, rangeGTLoop]
    split_ifs
    · exact keeps
    · simp only [mem_sdiff, filters, here, keeps]
    · exact ih lower (by simp only [mem_sdiff, filters, here, keeps]) keeps
    · exact ih lower filters (by simp only [mem_union, mem_inter, filters, here, keeps])
    · exact ih lower filters keeps

/-- The slices spell these numbers. -/
structure Holds (b : BitSliceIndex) (m : UInt32 → Option Nat) : Prop where
  whole : b.Whole
  ids : ∀ id, id ∈ b.exist ↔ (m id).isSome
  spells : ∀ id v, m id = some v → Spells b.row id b.bitDepth v
  lt : ∀ id v, m id = some v → v < 2 ^ b.bitDepth

variable {m : UInt32 → Option Nat}

lemma holds_new : (new options).Holds fun _ => none :=
  ⟨whole_new options, fun id => by rw [exist, bitmap_new]; simp, fun _ _ none => (nomatch none), fun _ _ none => (nomatch none)⟩

lemma Holds.doGet (holds : b.Holds m) (id : UInt32) : b.doGet id = m id := by
  rw [BitSliceIndex.doGet, foldl_eq_sliced]
  cases present : m id with
  | none => rw [if_pos fun there => by simpa [present] using (holds.ids id).mp there]
  | some v =>
    have there : id ∈ b.exist := (holds.ids id).mpr (by rw [present]; rfl)
    rw [if_neg fun absent => absent there, (holds.spells id v present).sliced_eq (holds.lt id v present)]

def value (b : BitSliceIndex) (id : UInt32) : Nat := sliced b.row id b.bitDepth

lemma doGet_eq_some_iff {v : Nat} : b.doGet id = some v ↔ id ∈ b.exist ∧ b.value id = v := by
  rw [doGet, foldl_eq_sliced]
  by_cases there : id ∈ b.exist <;> simp [there, value]

lemma Whole.holds (whole : b.Whole) : b.Holds b.doGet := by
  refine ⟨whole, fun id => ?_, fun id v present => ?_, fun id v present => ?_⟩
  · rw [doGet]
    by_cases there : id ∈ b.exist <;> simp [there]
  · obtain ⟨-, rfl⟩ := doGet_eq_some_iff.mp present
    exact Lib.spells_sliced b.row id b.bitDepth
  · obtain ⟨-, rfl⟩ := doGet_eq_some_iff.mp present
    exact Lib.sliced_lt b.row id b.bitDepth

lemma Holds.written (holds : b.Holds m) (b0 : BitSliceIndex) {b' : BitSliceIndex}
    (rows : ∀ i, b0.row i = b.row i) (depth : b0.bitDepth = b.bitDepth)
    (ids : ∀ j, j ∈ b0.exist ↔ j = id ∨ j ∈ b.exist) (wrote : b0.Wrote id val b.bitDepth b') :
    b'.Holds (Function.update m id (some (val % 2 ^ b.bitDepth))) := by
  have depth' : b'.bitDepth = b.bitDepth := wrote.depth.trans depth
  refine ⟨wrote.whole, fun j => ?_, fun j v found => ?_, fun j v found => ?_⟩
  · rw [wrote.ids, ids j, holds.ids j]
    rcases eq_or_ne j id with rfl | other
    · simp
    · simp [other]
  · rw [depth']
    rcases eq_or_ne j id with rfl | other
    · rw [update_self, some.injEq] at found
      exact found ▸ wrote.written.mod
    · rw [update_of_ne other] at found
      refine (holds.spells j v found).congr fun i _ => ?_
      rw [wrote.others j i (.inl other), rows i]
  · rw [depth']
    rcases eq_or_ne j id with rfl | other
    · rw [update_self, some.injEq] at found
      exact found ▸ Nat.mod_lt _ (Nat.two_pow_pos _)
    · rw [update_of_ne other] at found
      exact holds.lt j v found

def Room (b : BitSliceIndex) (id : UInt32) : Prop :=
  id ∈ b.exist ∨ b.options.limitTopK = 0 ∨ b.exist.card < b.options.limitTopK

lemma exist_inserted (whole : b.Whole) (id : UInt32) (val : Nat) : (b.inserted id val).exist = insert id b.exist := by
  have wrote := wrote_foldl id val (whole.update 0 (insert id)) (Nat.le_refl b.bitDepth)
  refine wrote.ids.trans ?_
  rw [exist, whole.bitmap_update zero_le, update_self]
  rfl

lemma Holds.inserted (holds : b.Holds m) (id : UInt32) (val : Nat) :
    (b.inserted id val).Holds (Function.update m id (some (val % 2 ^ b.bitDepth))) := by
  have bitmaps := holds.whole.bitmap_update zero_le (insert id)
  have wrote := wrote_foldl id val (holds.whole.update 0 (insert id)) (Nat.le_refl b.bitDepth)
  refine holds.written (b.update 0 (insert id)) (fun i => ?_) rfl (fun j => ?_) wrote
  · rw [row, bitmaps, update_of_ne (Nat.succ_ne_zero i)]
    rfl
  · rw [exist, bitmaps, update_self, mem_insert]
    rfl

lemma Holds.doPut (holds : b.Holds m) (id : UInt32) (val : Nat) (room : b.Room id) :
    (b.doPut id val).1.Holds (Function.update m id (some (val % 2 ^ b.bitDepth))) ∧ (b.doPut id val).2 = m id := by
  by_cases there : id ∈ b.exist
  · rw [BitSliceIndex.doPut, if_neg fun absent => absent there]
    obtain ⟨wrote, old⟩ := wrote_foldl_old id val holds.whole le_rfl
    refine ⟨holds.written b (fun _ => rfl) rfl (fun j => ?_) wrote, ?_⟩
    · exact ⟨.inr, fun member => member.elim (fun same => same ▸ there) (fun inside => inside)⟩
    · obtain ⟨v, present⟩ := isSome_iff_exists.mp ((holds.ids id).mp there)
      show some _ = _
      rw [old, (holds.spells id v present).sliced_eq (holds.lt id v present), present]
  · have none : m id = none := by
      rw [← not_isSome_iff_eq_none, ← holds.ids id]
      exact there
    have full : ¬ (0 < (b.inserted id val).options.limitTopK ∧
        (b.inserted id val).options.limitTopK < (b.inserted id val).exist.card) := by
      rw [(b.shaped_inserted id val).options, exist_inserted holds.whole, card_insert_of_notMem there]
      rintro ⟨limited, more⟩
      have less := (room.resolve_left there).resolve_left (ne_of_gt limited)
      exact absurd less (Nat.not_lt_of_le (Nat.le_of_lt_succ more))
    rw [doPut_of_new there, if_neg full, none]
    exact ⟨holds.inserted id val, rfl⟩

lemma Holds.doRemove (holds : b.Holds m) (id : UInt32) (val : Nat) : (b.doRemove id val).Holds (Function.update m id none) := by
  have bitmaps := holds.whole.bitmap_update zero_le (·.erase id)
  obtain ⟨whole, -, depth, ids, rows⟩ :=
    erased_foldl id val (holds.whole.update 0 (·.erase id)) (Nat.le_refl b.bitDepth)
  have depth' : (b.doRemove id val).bitDepth = b.bitDepth := depth
  have row_eq : ∀ i, (b.update 0 (·.erase id)).row i = b.row i := by
    intro i
    rw [row, bitmaps, update_of_ne (Nat.succ_ne_zero i)]
    rfl
  have kept : ∀ {j v}, Function.update m id none j = some v → j ≠ id ∧ m j = some v := by
    intro j v found
    rcases eq_or_ne j id with rfl | other
    · rw [update_self] at found
      cases found
    · rw [update_of_ne other] at found
      exact ⟨other, found⟩
  refine ⟨whole, fun j => ?_, fun j v found => ?_, fun j v found => ?_⟩
  · rw [show (b.doRemove id val).exist = _ from ids, exist, bitmaps, update_self, mem_erase,
      show b.bitmap 0 = b.exist from rfl, holds.ids j]
    rcases eq_or_ne j id with rfl | other
    · simp
    · simp [other]
  · rw [depth']
    obtain ⟨other, before⟩ := kept found
    refine (holds.spells j v before).congr fun i _ => ?_
    rw [show j ∈ (b.doRemove id val).row i ↔ _ from rows j other i, row_eq]
  · rw [depth']
    exact holds.lt j v (kept found).2

end BitSliceIndex

lemma map_update {α β : Type} (f : α → β) (m : UInt32 → Option α) (id : UInt32) (x : Option α) :
    (fun j => (update m id x j).map f) = update (fun j => (m j).map f) id (x.map f) := by
  funext j
  rcases eq_or_ne j id with rfl | other
  · rw [update_self, update_self]
  · rw [update_of_ne other, update_of_ne other]

lemma BsiOptions.distance_lt {o : BsiOptions} (small : o.distance < 2 ^ 63) : o.distance < 2 ^ o.bitDepth := by
  rw [bitDepth]
  cases found : (List.range 64).find? fun i => decide (o.distance < 2 ^ i) with
  | none =>
    have never := List.find?_eq_none.mp found 63 (List.mem_range.mpr (by decide))
    exact absurd (decide_eq_true small) never
  | some i => exact of_decide_eq_true (find?_some (p := fun i => decide (o.distance < 2 ^ i)) found)

lemma BsiOptions.bitDepth_le (o : BsiOptions) : o.bitDepth ≤ 63 := by
  rw [bitDepth]
  cases found : (List.range 64).find? fun i => decide (o.distance < 2 ^ i) with
  | none => exact Nat.zero_le 63
  | some i => exact Nat.le_of_lt_succ (List.mem_range.mp (List.mem_of_find?_eq_some found))

section
variable {lo hi : Int64}

def intOptions (lo hi : Int64) : BsiOptions := BsiOptions.default.setMinMaxInt lo.toInt hi.toInt

/-- The range is proper, and its length is a positive `int64`. -/
def ProperRange (lo hi : Int64) : Prop := 0 < hi.toInt - lo.toInt ∧ hi.toInt - lo.toInt < 2 ^ 63

lemma u64_of_range {x : Int} (nonneg : 0 ≤ x) (lt : x < 2 ^ 63) : u64 x = x.toNat := by
  rw [u64, emod_eq_of_lt nonneg (lt_trans lt (by decide))]

section
variable {v : Int} (short : hi.toInt - lo.toInt < 2 ^ 63) (above : lo.toInt ≤ v) (under : v ≤ hi.toInt)
include short above under

lemma intOptions_toLocalVal : (intOptions lo hi).toLocalVal v = (v - lo.toInt).toNat :=
  u64_of_range (sub_nonneg_of_le above) (lt_of_le_of_lt (sub_le_sub_right under _) short)

lemma intOptions_getActualIntVal : (intOptions lo hi).getActualIntVal ((intOptions lo hi).toLocalVal v) = v := by
  have least := lo.le_toInt
  have greatest := hi.toInt_lt
  rw [intOptions_toLocalVal short above under]
  show i64 ((v - lo.toInt).toNat + lo.toInt) = v
  rw [toNat_of_nonneg (sub_nonneg_of_le above), sub_add_cancel, i64, bmod_def]
  omega

end

section
variable (proper : ProperRange lo hi)
include proper

lemma ProperRange.distance : (intOptions lo hi).distance = (hi.toInt - lo.toInt).toNat := by
  have some : ¬ (lo.toInt = 0 ∧ hi.toInt = 0) := fun ⟨zero, zero'⟩ => by
    have := proper.1
    omega
  have nonneg := le_of_lt proper.1
  show u64 ((u64 ((if lo.toInt = 0 ∧ hi.toInt = 0 then intMax else hi.toInt) - lo.toInt) : Nat) - (0 : Nat)) = _
  rw [if_neg some, u64_of_range nonneg proper.2, Nat.cast_zero, sub_zero, toNat_of_nonneg nonneg,
    u64_of_range nonneg proper.2]

lemma ProperRange.toLocalVal_lt {v : Int} (above : lo.toInt ≤ v) (under : v ≤ hi.toInt) :
    (intOptions lo hi).toLocalVal v < 2 ^ (intOptions lo hi).bitDepth := by
  have distance := proper.distance
  have length := proper.2
  refine lt_of_le_of_lt ?_ (BsiOptions.distance_lt (by rw [distance]; omega))
  rw [distance, intOptions_toLocalVal length above under]
  exact toNat_le_toNat (sub_le_sub_right under _)

end

/-- No depth is found for a range of `2 ^ 63` values or more, which keeps the depth 0. -/
theorem intOptions_local_iff (lo hi : Int64) (le : lo ≤ hi) :
    (∀ v : Int, lo.toInt ≤ v → v ≤ hi.toInt → (intOptions lo hi).toLocalVal v < 2 ^ (intOptions lo hi).bitDepth ∧
      (intOptions lo hi).getActualIntVal ((intOptions lo hi).toLocalVal v) = v) ↔ hi.toInt - lo.toInt < 2 ^ 63 := by
  have le := Int64.le_iff_toInt_le.mp le
  constructor
  · intro all
    by_contra long
    have top : u64 (hi.toInt - lo.toInt) < 2 ^ (intOptions lo hi).bitDepth := (all hi.toInt le le_rfl).1
    have depth := pow_le_pow_right₀ (by decide : 1 ≤ 2) (intOptions lo hi).bitDepth_le
    have least := lo.le_toInt
    have greatest := hi.toInt_lt
    rw [u64, emod_eq_of_lt (by omega) (by omega)] at top
    omega
  · intro short v above under
    refine ⟨?_, intOptions_getActualIntVal short above under⟩
    rcases lt_or_eq_of_le le with less | same
    · exact ProperRange.toLocalVal_lt ⟨sub_pos_of_lt less, short⟩ above under
    · rw [intOptions_toLocalVal short above under, show (v - lo.toInt).toNat = 0 by omega]
      exact Nat.two_pow_pos _

theorem intOptions_local_month :
    (intOptions (-31) 31).toLocalVal 31 < 2 ^ (intOptions (-31) 31).bitDepth :=
  ((intOptions_local_iff (-31) 31 (by decide)).mpr (by decide) 31 (by decide) (by decide)).1

theorem intOptions_local_half :
    ¬ (intOptions Int64.minValue 0).toLocalVal 0 < 2 ^ (intOptions Int64.minValue 0).bitDepth := by decide

end

inductive IntRun (lo hi : Int64) : BitSliceIndex → (UInt32 → Option Int) → Prop
  | init : IntRun lo hi (.new (intOptions lo hi)) fun _ => none
  | put {b m} (run : IntRun lo hi b m) (id : UInt32) {v : Int} (above : lo.toInt ≤ v) (under : v ≤ hi.toInt) :
      IntRun lo hi (b.putInt id v) (update m id (some v))
  | remove {b m} (run : IntRun lo hi b m) (id : UInt32) {v : Int} (current : m id = some v) :
      IntRun lo hi (b.removeInt id v) (update m id none)

lemma IntRun.spec {lo hi : Int64} (proper : ProperRange lo hi) {b : BitSliceIndex} {m : UInt32 → Option Int}
    (run : IntRun lo hi b m) : b.options = intOptions lo hi ∧ b.bitDepth = (intOptions lo hi).bitDepth ∧
      (∀ id v, m id = some v → lo.toInt ≤ v ∧ v ≤ hi.toInt) ∧ b.Holds fun id => (m id).map (intOptions lo hi).toLocalVal := by
  induction run with
  | init => exact ⟨rfl, rfl, fun _ _ none => (nomatch none), holds_new _⟩
  | @put b m run id v above under ih =>
    obtain ⟨options, depth, range, holds⟩ := ih
    have shaped := b.shaped_doPut id (b.options.toLocalVal v)
    refine ⟨shaped.options.trans options, shaped.depth.trans depth, fun j w found => ?_, ?_⟩
    · rcases eq_or_ne j id with rfl | other
      · rw [update_self, some.injEq] at found
        exact found ▸ ⟨above, under⟩
      · rw [update_of_ne other] at found
        exact range j w found
    · rw [map_update, putInt, options]
      have put := (holds.doPut id ((intOptions lo hi).toLocalVal v) (.inr (.inl (by rw [options]; rfl)))).1
      rw [depth, Nat.mod_eq_of_lt (proper.toLocalVal_lt above under)] at put
      exact put
  | @remove b m run id v current ih =>
    obtain ⟨options, depth, range, holds⟩ := ih
    have shaped := b.shaped_doRemove id (b.options.toLocalVal v)
    refine ⟨shaped.options.trans options, shaped.depth.trans depth, fun j w found => ?_, ?_⟩
    · rcases eq_or_ne j id with rfl | other
      · rw [update_self] at found
        cases found
      · rw [update_of_ne other] at found
        exact range j w found
    · rw [map_update]
      exact holds.doRemove id _

end Myctk.Robims
