import Mathlib.Data.FinEnum
import Myctk.Lib.Greatest
import Myctk.Robims.BsiRanges

/-! The ids with the greatest values. -/

namespace Myctk.Robims.BitSliceIndex

open Finset Lib UInt32 Nat Option

variable {b : BitSliceIndex} {id : UInt32} {ids filter out : Bitmap} {x : UInt32 → Nat} {k n p : Nat}

lemma card_eq_iff : ids.card = 2 ^ 32 ↔ ∀ id, id ∈ ids := by
  have count : Fintype.card UInt32 = 2 ^ 32 := FinEnum.card_eq_fintypeCard.symm
  rw [← count, card_eq_iff_eq_univ, eq_univ_iff_forall]

lemma card_le (ids : Bitmap) : ids.card ≤ 2 ^ 32 := by
  have count : Fintype.card UInt32 = 2 ^ 32 := FinEnum.card_eq_fintypeCard.symm
  exact count ▸ card_le_univ ids

lemma ofNat_card_of_all (all : ∀ id, id ∈ ids) : ofNat ids.card = 0 := by
  rw [card_eq_iff.mpr all]
  rfl

lemma toNat_card (absent : ¬ ∀ id, id ∈ ids) : (ofNat ids.card).toNat = ids.card := by
  have less : ids.card < 2 ^ 32 := lt_of_le_of_ne (card_le ids) (mt card_eq_iff.mp absent)
  rw [toNat_ofNat', mod_eq_of_lt less]

/-- The candidates have the high part `p`, the output has what is greater, and the candidates are more than are asked for or
    reach down to the least values. -/
structure TopSoFar (ids : Bitmap) (x : UInt32 → Nat) (k n p : Nat) (filter out : Bitmap) : Prop where
  filters : ∀ id, id ∈ filter ↔ id ∈ ids ∧ x id / 2 ^ n = p
  outs : ∀ id, id ∈ out ↔ id ∈ ids ∧ p < x id / 2 ^ n
  few : out.card ≤ k
  more : p = 0 ∨ k < out.card + filter.card

lemma TopSoFar.disjoint (so : TopSoFar ids x k n p filter out) : Disjoint out filter := by
  rw [disjoint_left]
  intro id greater candidate
  have less := ((so.outs id).mp greater).2
  exact absurd ((so.filters id).mp candidate).2 (ne_of_gt less)

lemma TopSoFar.card_taken (so : TopSoFar ids x k n p filter out) (row : Bitmap) :
    (out ∪ filter ∩ row).card = out.card + (filter ∩ row).card :=
  card_union_of_disjoint (so.disjoint.mono_right inter_subset_left)

section
variable {i : Nat} (so : TopSoFar ids x k (i + 1) p filter out)
  (row : ∀ id ∈ ids, (id ∈ b.row i ↔ (x id).testBit i = true))
include so row

lemma TopSoFar.mem_ones (id : UInt32) : id ∈ filter ∩ b.row i ↔ id ∈ ids ∧ x id / 2 ^ i = 2 * p + 1 := by
  rw [mem_inter, so.filters, and_assoc]
  refine and_congr_right fun there => ?_
  rw [row id there, div_eq_odd_iff]

lemma TopSoFar.mem_greater (id : UInt32) : id ∈ out ∪ filter ∩ b.row i ↔ id ∈ ids ∧ 2 * p < x id / 2 ^ i := by
  rw [mem_union, so.mem_ones row, so.outs, ← and_or_left, even_lt_div_iff, div_eq_odd_iff]

lemma TopSoFar.ones (many : k < out.card + (filter ∩ b.row i).card) : TopSoFar ids x k i (2 * p + 1) (filter ∩ b.row i) out := by
  refine ⟨so.mem_ones row, fun id => ?_, so.few, .inr many⟩
  rw [so.outs, odd_lt_div_iff]

lemma TopSoFar.zeros (fits : out.card + (filter ∩ b.row i).card ≤ k) :
    TopSoFar ids x k i (2 * p) (filter \ (out ∪ filter ∩ b.row i)) (out ∪ filter ∩ b.row i) := by
  have apart := so.disjoint
  have taken := so.card_taken (b.row i)
  have left : filter \ (out ∪ filter ∩ b.row i) = filter \ b.row i := by
    rw [sdiff_union_distrib, sdiff_eq_self_of_disjoint apart.symm, sdiff_inter_self_left,
      inter_eq_right]
    exact sdiff_subset
  refine ⟨fun id => ?_, so.mem_greater row, taken ▸ fits, ?_⟩
  · rw [left, mem_sdiff, so.filters, div_eq_even_iff, and_assoc]
    refine and_congr_right fun there => ?_
    rw [row id there]
  · have count := card_sdiff_add_card_inter filter (b.row i)
    rw [left, taken]
    have more := so.more
    omega

lemma TopSoFar.finish (exact : out.card + (filter ∩ b.row i).card = k) :
    out ∪ filter ∩ b.row i = (leading ids x k).filter fun id => 0 < x id := by
  have taken := (so.card_taken (b.row i)).trans exact
  have greater := so.mem_greater row
  have closed : ∀ j ∈ out ∪ filter ∩ b.row i, ∀ l ∈ ids, x j ≤ x l → l ∈ out ∪ filter ∩ b.row i := fun j member l there le =>
    (greater l).mpr ⟨there, ((greater j).mp member).2.trans_le (Nat.div_le_div_right le)⟩
  refine eq_leading_above (fun j member => ((greater j).mp member).1) (le_of_eq taken) closed (fun j member => ?_)
    fun j there absent _ => ?_
  · have positive := zero_lt_of_lt ((greater j).mp member).2
    exact positive.trans_le (div_le_self _ _)
  · -- with one that is not taken there are all those taken, and itself
    have more : insert j (out ∪ filter ∩ b.row i) ⊆ atLeast ids x (x j) := by
      intro l member
      rcases mem_insert.mp member with rfl | member
      · exact mem_atLeast.mpr ⟨there, le_refl _⟩
      · have inside := ((greater l).mp member).1
        exact mem_atLeast.mpr ⟨inside, Nat.le_of_lt (Nat.lt_of_not_le fun le => absent (closed l member j there le))⟩
    have count := card_le_card more
    rwa [card_insert_of_notMem absent, taken] at count

end

lemma TopSoFar.done (so : TopSoFar ids x k 0 p filter out) : out = (leading ids x k).filter fun id => 0 < x id := by
  have outs : ∀ j, j ∈ out ↔ j ∈ ids ∧ p < x j := by simpa using so.outs
  have filters : ∀ j, j ∈ filter ↔ j ∈ ids ∧ x j = p := by simpa using so.filters
  refine eq_leading_above (fun j member => ((outs j).mp member).1) so.few (fun j member l there le => ?_)
    (fun j member => zero_lt_of_lt ((outs j).mp member).2) fun j there absent positive => ?_
  · exact (outs l).mpr ⟨there, ((outs j).mp member).2.trans_le le⟩
  · have small : x j ≤ p := Nat.le_of_not_lt fun less => absent ((outs j).mpr ⟨there, less⟩)
    have many := so.more.resolve_left (ne_of_gt (positive.trans_le small))
    rw [← card_union_of_disjoint so.disjoint] at many
    refine many.trans_le (card_le_card fun l member => ?_)
    rcases mem_union.mp member with greater | candidate
    · exact mem_atLeast.mpr ⟨((outs l).mp greater).1, small.trans ((outs l).mp greater).2.le⟩
    · exact mem_atLeast.mpr ⟨((filters l).mp candidate).1, small.trans ((filters l).mp candidate).2.ge⟩

def Fits (b : BitSliceIndex) (n : Nat) (filter : Bitmap) (restK : UInt32) : Prop :=
  (∀ id, id ∈ filter) → (restK = 0 → ∀ i, n = i + 1 → ∃ id, id ∉ b.row i) ∧
    (restK ≠ 0 → 0 < n → (∃ id, id ∉ b.row 0) ∨ ∃ i < n, ∃ j l, j ∈ b.row i ∧ l ∉ b.row i)

variable {restK : UInt32}

lemma fits_of_absent (absent : ¬ ∀ id, id ∈ filter) : b.Fits n filter restK := fun all => absurd all absent

lemma fits_zero : b.Fits 0 filter restK :=
  fun _ => ⟨fun _ _ more => (nomatch more), fun _ more => absurd more (lt_irrefl 0)⟩

lemma Fits.next {i : Nat} (fits : b.Fits (i + 1) filter restK) (some : restK ≠ 0)
    (same : (∀ id, id ∈ filter) → ∀ j l, j ∈ b.row i → l ∈ b.row i) : b.Fits i filter restK := by
  intro all
  refine ⟨fun zero => absurd zero some, fun _ positive => ?_⟩
  rcases (fits all).2 some (succ_pos i) with last | ⟨i', lt, j, l, set, unset⟩
  · exact .inl last
  · have other : i' ≠ i := by
      rintro rfl
      exact unset (same all j l set)
    exact .inr ⟨i', lt_of_le_of_ne (le_of_lt_succ lt) other, j, l, set, unset⟩

lemma Fits.of_full {i : Nat} (fits : b.Fits (i + 1) filter restK) (all : ∀ id, id ∈ filter ∩ b.row i) :
    restK ≠ 0 ∧ 0 < i ∧ b.Fits i filter restK := by
  have set : ∀ id, id ∈ b.row i := fun id => (mem_inter.mp (all id)).2
  obtain ⟨notNone, split⟩ := fits fun id => (mem_inter.mp (all id)).1
  have some : restK ≠ 0 := by
    intro zero
    obtain ⟨id, absent⟩ := notNone zero i rfl
    exact absent (set id)
  refine ⟨some, pos_of_ne_zero fun zero => ?_, fits.next some fun _ _ l _ => set l⟩
  subst zero
  rcases split some one_pos with ⟨id, absent⟩ | ⟨i, lt, j, l, -, absent⟩
  · exact absent (set id)
  · obtain rfl := lt_one_iff.mp lt
    exact absent (set l)

lemma Fits.of_empty {i : Nat} (fits : b.Fits (i + 1) filter restK) (some : restK ≠ 0)
    (empty : filter ∩ b.row i = ∅) : b.Fits i filter restK :=
  fits.next some fun all j _ set => absurd (mem_inter.mpr ⟨all j, set⟩) (empty ▸ notMem_empty j)

lemma fits_of_taken {i : Nat} (taken : i = 0 ∨ (filter ∩ b.row i).Nonempty) : b.Fits i (filter \ (out ∪ filter ∩ b.row i)) restK := by
  rcases taken with rfl | ⟨id, there⟩
  · exact fits_zero
  · exact fits_of_absent fun all => (mem_sdiff.mp (all id)).2 (mem_union_right _ there)

lemma rest_toNat {k : UInt32} {count : Nat} (le : count ≤ k.toNat) : count + (k - UInt32.ofNat count).toNat = k.toNat := by
  have number : (ofNat count).toNat = count := by
    rw [toNat_ofNat', mod_eq_of_lt (le.trans_lt k.toNat_lt)]
  rw [UInt32.toNat_sub_of_le _ _ (UInt32.le_iff_toNat_le.mpr (number.le.trans le)), number]
  omega

lemma topKLoop_eq {k : UInt32} (spells : ∀ id ∈ ids, Spells b.row id n (x id))
    (so : TopSoFar ids x k.toNat n p filter out) (rest : out.card + restK.toNat = k.toNat) (fits : b.Fits n filter restK) :
    b.topKLoop k n filter restK out = (leading ids x k.toNat).filter fun id => 0 < x id := by
  induction n generalizing p filter out restK with
  | zero => exact so.done
  | succ i ih =>
    have row : ∀ id ∈ ids, (id ∈ b.row i ↔ (x id).testBit i = true) := fun id there => spells id there i (lt_succ_self i)
    have lower : ∀ id ∈ ids, Spells b.row id i (x id) := fun id there j lt => spells id there j (lt_succ_of_lt lt)
    have bound := k.toNat_lt
    rw [topKLoop]
    by_cases all : ∀ id, id ∈ filter ∩ b.row i
    · -- every id is a candidate with the bit, and the number of them is taken for zero
      obtain ⟨some, more, fits⟩ := fits.of_full all
      have whole : filter ∩ b.row i = filter := inter_eq_left.mpr fun id _ => (mem_inter.mp (all id)).2
      have full := card_eq_iff.mpr all
      have next := so.ones row (by omega)
      rw [ofNat_card_of_all all, if_neg (by simp), if_pos (UInt32.pos_iff_ne_zero.mpr some), if_pos ⟨rfl, more⟩]
      rw [whole] at next
      exact ih lower next rest fits
    · have count := toNat_card all
      rcases lt_trichotomy restK.toNat (filter ∩ b.row i).card with many | exact | fewer
      · rw [if_pos (lt_iff_toNat_lt.mpr (by rwa [count]))]
        exact ih lower (so.ones row (by omega)) rest (fits_of_absent all)
      · have same := UInt32.toNat_inj.mp (count.trans exact.symm)
        rw [same, if_neg (UInt32.lt_irrefl _), if_neg (UInt32.lt_irrefl _)]
        exact so.finish row (by omega)
      · have lt : ofNat (filter ∩ b.row i).card < restK := lt_iff_toNat_lt.mpr (by rwa [count])
        have next := so.zeros row (by omega)
        rw [if_neg (UInt32.lt_asymm lt), if_pos lt]
        split
        · rename_i zero
          have empty : filter ∩ b.row i = ∅ := by
            rw [← Finset.card_eq_zero, ← count, zero.1]
            rfl
          rw [empty, union_empty, sdiff_eq_self_of_disjoint so.disjoint.symm] at next
          exact ih lower next rest (fits.of_empty (UInt32.pos_iff_ne_zero.mp (zero.1 ▸ lt)) empty)
        · rename_i on
          refine ih lower next (rest_toNat next.few) (fits_of_taken ?_)
          rcases (filter ∩ b.row i).eq_empty_or_nonempty with empty | taken
          · exact .inl (Nat.eq_zero_of_not_pos fun more => on ⟨by rw [empty]; rfl, more⟩)
          · exact .inr taken

/-- All of the `2 ^ 32` ids are there, and in the end `TopK` takes them all as none. -/
def Overrun (b : BitSliceIndex) (k : UInt32) : Prop :=
  if k = 0 then 0 < b.bitDepth ∧ ∀ id, ∃ v, b.doGet id = some v ∧ 2 ^ (b.bitDepth - 1) ≤ v
  else ∃ v, v % 2 = 1 ∧ ∀ id, b.doGet id = some v

lemma fits_of_not_overrun {k : UInt32} (not : ¬ b.Overrun k) : b.Fits b.bitDepth b.exist k := by
  intro all
  rw [Overrun] at not
  refine ⟨fun zero i depth => ?_, fun some positive => ?_⟩
  · by_contra full
    rw [not_exists_not] at full
    rw [if_pos zero] at not
    refine not ⟨depth ▸ succ_pos i, fun id => ⟨b.value id, doGet_eq_some_iff.mpr ⟨all id, rfl⟩, ?_⟩⟩
    have set := (spells_sliced b.row id b.bitDepth i (by omega)).mp (full id)
    rw [depth, Nat.add_sub_cancel]
    exact ge_two_pow_of_testBit set
  · by_contra same
    rw [not_or, not_exists_not] at same
    rw [if_neg some] at not
    refine not ⟨b.value 0, ?_, fun id => doGet_eq_some_iff.mpr ⟨all id, sliced_congr fun i lt => ?_⟩⟩
    · have odd := (spells_sliced b.row 0 b.bitDepth 0 positive).mp (same.1 0)
      rw [testBit_zero, decide_eq_true_eq] at odd
      exact odd
    · have alike : ∀ j l, j ∈ b.row i → l ∈ b.row i :=
        fun j l set => by_contra fun unset => same.2 ⟨i, lt, j, l, set, unset⟩
      exact ⟨alike id 0, alike 0 id⟩

lemma topK_eq {k : UInt32} (not : ¬ b.Overrun k) :
    b.topK k ∅ = (leading b.exist b.value k.toNat).filter fun id => 0 < b.value id := by
  have high : ∀ id, b.value id / 2 ^ b.bitDepth = 0 := fun id => div_eq_of_lt (sliced_lt b.row id b.bitDepth)
  have start : TopSoFar b.exist b.value k.toNat b.bitDepth 0 b.exist ∅ :=
    ⟨fun id => by simp [high], fun id => by simp [high], zero_le _, .inl rfl⟩
  exact topKLoop_eq (fun id _ => spells_sliced b.row id b.bitDepth) start (zero_add _) (fits_of_not_overrun not)

lemma mem_topKLoop_of_all {k : UInt32} {v : Nat} (odd : v.testBit 0 = true)
    (spells : ∀ id, Spells b.row id (n + 1) v) (all : ∀ id, id ∈ filter) (some : restK ≠ 0) (id : UInt32) :
    id ∈ b.topKLoop k (n + 1) filter restK out := by
  induction n with
  | zero =>
    have full : ∀ id, id ∈ filter ∩ b.row 0 := fun id => mem_inter.mpr ⟨all id, (spells id 0 one_pos).mpr odd⟩
    rw [topKLoop]
    rw [ofNat_card_of_all full, if_neg (by simp), if_pos (UInt32.pos_iff_ne_zero.mpr some), if_neg fun more => absurd more.2 (lt_irrefl 0)]
    exact mem_union_right _ (full id)
  | succ i ih =>
    have none : ofNat (filter ∩ b.row (i + 1)).card = 0 := by
      have row := fun id => spells id (i + 1) (lt_succ_self _)
      cases bit : v.testBit (i + 1) with
      | true => exact ofNat_card_of_all fun id => mem_inter.mpr ⟨all id, (row id).mpr bit⟩
      | false =>
        have empty : filter ∩ b.row (i + 1) = ∅ := by
          refine eq_empty_of_forall_notMem fun id member => ?_
          rw [mem_inter, row, bit] at member
          cases member.2
        rw [empty]
        rfl
    rw [topKLoop]
    rw [none, if_neg (by simp), if_pos (UInt32.pos_iff_ne_zero.mpr some), if_pos ⟨rfl, succ_pos i⟩]
    exact ih fun id j lt => spells id j (lt_succ_of_lt lt)

lemma mem_topK_of_overrun {k : UInt32} (overrun : b.Overrun k) (id : UInt32) : id ∈ b.topK k ∅ := by
  rw [Overrun] at overrun
  split at overrun
  · rename_i zero
    subst zero
    obtain ⟨positive, all⟩ := overrun
    obtain ⟨i, depth⟩ := Nat.exists_eq_add_of_lt positive
    rw [zero_add] at depth
    have full : ∀ id, id ∈ b.exist ∩ b.row i := by
      intro id
      obtain ⟨v, present, high⟩ := all id
      obtain ⟨there, rfl⟩ := doGet_eq_some_iff.mp present
      have small : b.value id < 2 ^ (i + 1) := depth ▸ sliced_lt b.row id b.bitDepth
      rw [depth, Nat.add_sub_cancel] at high
      refine mem_inter.mpr ⟨there, (spells_sliced b.row id b.bitDepth i (by omega)).mpr ?_⟩
      by_contra unset
      exact absurd (lt_two_pow_iff.mpr ⟨small, unset⟩) (Nat.not_lt_of_le high)
    rw [topK, depth, topKLoop]
    rw [ofNat_card_of_all full, if_neg (UInt32.lt_irrefl 0), if_neg (UInt32.lt_irrefl 0)]
    exact mem_union_right _ (full id)
  · rename_i some
    obtain ⟨v, odd, all⟩ := overrun
    have there : ∀ id, id ∈ b.exist := fun id => (doGet_eq_some_iff.mp (all id)).1
    have spells : ∀ id, Spells b.row id b.bitDepth v := fun id =>
      (doGet_eq_some_iff.mp (all id)).2 ▸ spells_sliced b.row id b.bitDepth
    have bit : v.testBit 0 = true := by rw [testBit_zero, odd]; rfl
    cases depth : b.bitDepth with
    | zero =>
      have small := sliced_lt b.row 0 b.bitDepth
      rw [← value, (doGet_eq_some_iff.mp (all 0)).2, depth] at small
      omega
    | succ i =>
      rw [topK, depth]
      exact mem_topKLoop_of_all bit (depth ▸ spells) there some id

lemma card_topK_of_overrun {k : UInt32} (overrun : b.Overrun k) : (b.topK k ∅).card = 2 ^ 32 :=
  card_eq_iff.mpr (mem_topK_of_overrun overrun)

/-- `TopK` gives at most `k` ids, whose values are greater than all others, precisely when it does not take all of the ids for
    none. -/
theorem topK_above_iff (b : BitSliceIndex) (k : UInt32) :
    ((b.topK k ∅).card ≤ k.toNat ∧
      ∀ i ∈ b.topK k ∅, ∃ v, b.doGet i = some v ∧ ∀ j, j ∉ b.topK k ∅ → ∀ w, b.doGet j = some w → w < v) ↔
      ¬ b.Overrun k := by
  constructor
  · rintro ⟨few, -⟩ overrun
    rw [card_topK_of_overrun overrun] at few
    exact absurd k.toNat_lt (Nat.not_lt_of_le few)
  · intro not
    have inside := topK_eq not ▸ filter_subset _ _
    refine ⟨card_le_of_upper inside, fun i taken => ?_⟩
    refine ⟨b.value i, doGet_eq_some_iff.mpr ⟨(mem_leading.mp (inside taken)).1, rfl⟩, fun j left w present => ?_⟩
    obtain ⟨there, rfl⟩ := doGet_eq_some_iff.mp present
    by_contra greater
    rw [topK_eq not, mem_filter] at taken
    have le := Nat.le_of_not_lt greater
    refine left ?_
    rw [topK_eq not, mem_filter]
    exact ⟨mem_leading_of_le taken.1 there le, taken.2.trans_le le⟩

/-! An index of one bit into which ids are put one after the other, all with the value 1. -/

def filled : Nat → BitSliceIndex
  | 0 => oneBit
  | n + 1 => ((filled n).doPut (ofNat n) 1).1

lemma holds_filled (within : n ≤ 2 ^ 32) : (filled n).Holds (fun id => if id.toNat < n then some 1 else none) ∧
    (filled n).options = oneBit.options ∧ (filled n).bitDepth = oneBit.bitDepth := by
  induction n with
  | zero => exact ⟨holds_new _, rfl, rfl⟩
  | succ n ih =>
    obtain ⟨holds, options, depth⟩ := ih (le_of_succ_le within)
    have shaped := (filled n).shaped_doPut (ofNat n) 1
    refine ⟨?_, shaped.options.trans options, shaped.depth.trans depth⟩
    have put := (holds.doPut (ofNat n) 1 (.inr (.inl (by rw [options]; rfl)))).1
    have one : 1 % 2 ^ (filled n).bitDepth = 1 := by rw [depth]; rfl
    have map : (fun id : UInt32 => if id.toNat < n + 1 then some 1 else none) =
        Function.update (fun id : UInt32 => if id.toNat < n then some 1 else none) (ofNat n) (some 1) := by
      funext id
      have number : id = ofNat n ↔ id.toNat = n := by
        rw [← UInt32.toNat_inj, UInt32.toNat_ofNat', mod_eq_of_lt within]
      simp only [Function.update_apply, number]
      split_ifs <;> first | rfl | omega
    rw [map]
    rw [one] at put
    exact put

lemma doGet_filled (id : UInt32) : (filled (2 ^ 32)).doGet id = some 1 := by
  rw [(holds_filled le_rfl).1.doGet, if_pos id.toNat_lt]

lemma overrun_of_ones (all : ∀ id, b.doGet id = some 1) : b.Overrun 1 := by
  rw [Overrun, if_neg (by decide)]
  exact ⟨1, rfl, all⟩

theorem all_ids_given : (∀ id, (filled (2 ^ 32)).doGet id = some 1) ∧ ((filled (2 ^ 32)).topK 1 ∅).card = 2 ^ 32 ∧
    ¬ (((filled (2 ^ 32)).topK 1 ∅).card ≤ (1 : UInt32).toNat ∧
      ∀ i ∈ (filled (2 ^ 32)).topK 1 ∅, ∃ v, (filled (2 ^ 32)).doGet i = some v ∧
        ∀ j, j ∉ (filled (2 ^ 32)).topK 1 ∅ → ∀ w, (filled (2 ^ 32)).doGet j = some w → w < v) := by
  have all := doGet_filled
  generalize filled (2 ^ 32) = b at all ⊢
  have full := card_topK_of_overrun (overrun_of_ones all)
  refine ⟨all, full, fun right => ?_⟩
  rw [full] at right
  exact absurd right.1 (by decide)

lemma mem_leading_of_zero {k : Nat} (zero : b.value id = 0) : id ∈ leading b.exist b.value k ↔ id ∈ b.exist ∧ b.exist.card ≤ k := by
  have all : atLeast b.exist b.value (b.value id) = b.exist :=
    filter_true_of_mem fun j _ => zero.symm ▸ zero_le (b.value j)
  rw [mem_leading, all]

lemma card_leading_positive {k : Nat} (distinct : Set.InjOn b.value b.exist) :
    ((leading b.exist b.value k).filter fun id => 0 < b.value id).card = min k b.exist.card ↔
      ¬ (b.exist.card ≤ k ∧ ∃ id, b.doGet id = some 0) := by
  rw [← card_leading distinct k, card_filter_eq_iff]
  constructor
  · rintro positive ⟨few, id, present⟩
    obtain ⟨there, zero⟩ := doGet_eq_some_iff.mp present
    exact absurd (positive id ((mem_leading_of_zero zero).mpr ⟨there, few⟩)) (Nat.not_lt_of_le (Nat.le_of_eq zero))
  · intro not id member
    refine pos_of_ne_zero fun zero => not ?_
    obtain ⟨there, few⟩ := (mem_leading_of_zero zero).mp member
    exact ⟨few, id, doGet_eq_some_iff.mpr ⟨there, zero⟩⟩

/-- Of ids with different values `TopK` gives `k`, or all, precisely when it does not take all of the ids for none and is not
    asked for all of the ids while one has the value zero. -/
theorem topK_card_iff (b : BitSliceIndex) (distinct : ∀ i j v, b.doGet i = some v → b.doGet j = some v → i = j) (k : UInt32) :
    (b.topK k ∅).card = min k.toNat b.exist.card ↔
      ¬ b.Overrun k ∧ ¬ (b.exist.card ≤ k.toNat ∧ ∃ id, b.doGet id = some 0) := by
  have injective : Set.InjOn b.value b.exist := fun i there j there' same =>
    distinct i j (b.value j) (doGet_eq_some_iff.mpr ⟨there, same⟩) (doGet_eq_some_iff.mpr ⟨there', rfl⟩)
  by_cases overrun : b.Overrun k
  · have full := card_topK_of_overrun overrun
    have bound := k.toNat_lt
    rw [full]
    refine iff_of_false (fun same => ?_) fun right => right.1 overrun
    have le := min_le_left k.toNat b.exist.card
    omega
  · rw [and_iff_right overrun, topK_eq overrun]
    exact card_leading_positive injective

lemma twoValues_distinct : ∀ i j v, twoValues.doGet i = some v → twoValues.doGet j = some v → i = j := by
  have cases : ∀ i v, twoValues.doGet i = some v → i = 7 ∧ v = 0 ∨ i = 8 ∧ v = 1 := by
    intro i v present
    rw [holds_twoValues.doGet, twoValuesMap, Function.update_apply, Function.update_apply] at present
    split_ifs at present with second first
    · exact .inr ⟨second, (some.inj present).symm⟩
    · exact .inl ⟨first, (some.inj present).symm⟩
  intro i j v present present'
  rcases cases i v present with ⟨rfl, rfl⟩ | ⟨rfl, rfl⟩
  · rcases cases j 0 present' with ⟨rfl, -⟩ | ⟨-, other⟩
    · rfl
    · cases other
  · rcases cases j 1 present' with ⟨-, other⟩ | ⟨rfl, -⟩
    · cases other
    · rfl

theorem least_of_all_left_out : (∀ i j v, twoValues.doGet i = some v → twoValues.doGet j = some v → i = j) ∧
    twoValues.topK 2 ∅ = {8} ∧ ¬ (twoValues.topK 2 ∅).card = min (2 : UInt32).toNat twoValues.exist.card :=
  ⟨twoValues_distinct, by decide, by decide⟩

theorem topK_card_iff_twoValues : (∀ i j v, twoValues.doGet i = some v → twoValues.doGet j = some v → i = j) ∧
    (twoValues.topK 1 ∅).card = min (1 : UInt32).toNat twoValues.exist.card := by
  refine ⟨twoValues_distinct, (topK_card_iff twoValues twoValues_distinct 1).mpr ⟨fun overrun => ?_, by decide⟩⟩
  rw [Overrun, if_neg (by decide)] at overrun
  obtain ⟨v, -, all⟩ := overrun
  have absent : twoValues.doGet 0 = none := by decide
  exact absurd (absent.symm.trans (all 0)) (some_ne_none v).symm

end Myctk.Robims.BitSliceIndex
