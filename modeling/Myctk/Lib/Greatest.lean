import Mathlib.Tactic

/-! The greatest elements of a finite set by a value. -/

namespace Myctk.Lib
open Finset

variable {ι α : Type} [LinearOrder α] {ids held : Finset ι} {x : ι → α} {i j : ι} {k : Nat}

/-- The elements whose value is at least `v`. -/
def atLeast (ids : Finset ι) (x : ι → α) (v : α) : Finset ι := ids.filter fun i => v ≤ x i

lemma mem_atLeast {v : α} : i ∈ atLeast ids x v ↔ i ∈ ids ∧ v ≤ x i := mem_filter

lemma atLeast_subset_of_le {v w : α} (le : v ≤ w) : atLeast ids x w ⊆ atLeast ids x v := fun i member => by
  rw [mem_atLeast] at member ⊢
  exact ⟨member.1, le.trans member.2⟩

lemma card_atLeast_le (ids : Finset ι) (x : ι → α) (v : α) : (atLeast ids x v).card ≤ ids.card :=
  card_le_card (filter_subset _ _)

/-- The elements that are among the `k` greatest with all of their equals. -/
def leading (ids : Finset ι) (x : ι → α) (k : Nat) : Finset ι := ids.filter fun i => (atLeast ids x (x i)).card ≤ k

lemma mem_leading : i ∈ leading ids x k ↔ i ∈ ids ∧ (atLeast ids x (x i)).card ≤ k := mem_filter

lemma card_le_of_upper (inside : held ⊆ leading ids x k) : held.card ≤ k := by
  rcases held.eq_empty_or_nonempty with rfl | some
  · exact Nat.zero_le k
  · obtain ⟨i, member, least⟩ := held.exists_min_image x some
    have below : held ⊆ atLeast ids x (x i) :=
      fun j there => mem_atLeast.mpr ⟨(mem_leading.mp (inside there)).1, least j there⟩
    exact (card_le_card below).trans (mem_leading.mp (inside member)).2

lemma mem_leading_of_le (member : i ∈ leading ids x k) (there : j ∈ ids) (le : x i ≤ x j) : j ∈ leading ids x k :=
  mem_leading.mpr ⟨there, (card_le_card (atLeast_subset_of_le le)).trans (mem_leading.mp member).2⟩

lemma card_atLeast_lt (there : i ∈ ids) (less : x i < x j) : (atLeast ids x (x j)).card < (atLeast ids x (x i)).card := by
  refine Finset.card_lt_card (Finset.ssubset_iff_subset_ne.mpr ⟨atLeast_subset_of_le less.le, fun same => ?_⟩)
  have member : i ∈ atLeast ids x (x j) := same ▸ mem_atLeast.mpr ⟨there, le_refl _⟩
  exact absurd (mem_atLeast.mp member).2 (not_le_of_gt less)

lemma eq_leading_above {low : α} (inside : held ⊆ ids) (small : held.card ≤ k) (closed : ∀ i ∈ held, ∀ j ∈ ids, x i ≤ x j → j ∈ held)
    (above : ∀ i ∈ held, low < x i) (most : ∀ i ∈ ids, i ∉ held → low < x i → k < (atLeast ids x (x i)).card) :
    held = (leading ids x k).filter fun i => low < x i := by
  ext i
  rw [mem_filter, mem_leading]
  constructor
  · intro there
    have upper : atLeast ids x (x i) ⊆ held :=
      fun j member => closed i there j (mem_atLeast.mp member).1 (mem_atLeast.mp member).2
    exact ⟨⟨inside there, (card_le_card upper).trans small⟩, above i there⟩
  · rintro ⟨⟨there, few⟩, positive⟩
    by_contra absent
    exact absurd few (Nat.not_le_of_lt (most i there absent positive))

lemma rank_injOn (distinct : Set.InjOn x ids) : Set.InjOn (fun i => (atLeast ids x (x i)).card) ids := by
  intro i there j there' same
  rcases lt_trichotomy (x i) (x j) with less | equal | greater
  · exact absurd same (card_atLeast_lt there less).ne'
  · exact distinct there there' equal
  · exact absurd same (card_atLeast_lt there' greater).ne

lemma image_rank (distinct : Set.InjOn x ids) : ids.image (fun i => (atLeast ids x (x i)).card) = Icc 1 ids.card := by
  refine eq_of_subset_of_card_le (fun r member => ?_) ?_
  · obtain ⟨i, there, rfl⟩ := mem_image.mp member
    have some : 0 < (atLeast ids x (x i)).card := card_pos.mpr ⟨i, mem_atLeast.mpr ⟨there, le_refl _⟩⟩
    exact mem_Icc.mpr ⟨some, card_atLeast_le ids x _⟩
  · rw [Nat.card_Icc, Nat.add_sub_cancel, card_image_of_injOn (rank_injOn distinct)]

lemma card_leading (distinct : Set.InjOn x ids) (k : Nat) : (leading ids x k).card = min k ids.card := by
  have ranks : (leading ids x k).image (fun i => (atLeast ids x (x i)).card) = Icc 1 (min k ids.card) := by
    ext r
    have all := congrArg (r ∈ ·) (image_rank distinct)
    simp only [mem_image, mem_Icc, eq_iff_iff] at all
    simp only [mem_image, mem_leading, mem_Icc, le_min_iff]
    constructor
    · rintro ⟨i, ⟨there, small⟩, rfl⟩
      have range := all.mp ⟨i, there, rfl⟩
      exact ⟨range.1, small, range.2⟩
    · rintro ⟨positive, small, within⟩
      obtain ⟨i, there, rfl⟩ := all.mpr ⟨positive, within⟩
      exact ⟨i, ⟨there, small⟩, rfl⟩
  have count := congrArg card ranks
  have inside : (leading ids x k : Set ι) ⊆ ids := fun i member => (mem_leading.mp member).1
  rw [Nat.card_Icc, Nat.add_sub_cancel, card_image_of_injOn ((rank_injOn distinct).mono inside)] at count
  exact count

/-- `held` are the `k` greatest elements, or all where there are no more than `k`. -/
structure Largest (ids : Finset ι) (x : ι → α) (k : Nat) (held : Finset ι) : Prop where
  subset : held ⊆ ids
  card : held.card = min k ids.card
  above : ∀ i ∈ held, ∀ j ∈ ids, j ∉ held → x j ≤ x i

lemma Largest.congr {y : ι → α} (largest : Largest ids x k held) (same : ∀ i ∈ ids, y i = x i) : Largest ids y k held :=
  ⟨largest.subset, largest.card, fun i member j there absent => by
    rw [same i (largest.subset member), same j there]
    exact largest.above i member j there absent⟩

lemma largest_self (few : ids.card ≤ k) : Largest ids x k ids :=
  ⟨Subset.rfl, (min_eq_right few).symm, fun _ _ _ there absent => absurd there absent⟩

lemma Largest.eq_of_lt (largest : Largest ids x k held) (room : held.card < k) : held = ids := by
  have count := largest.card
  exact eq_of_subset_of_card_le largest.subset (by omega)

lemma Largest.evict [DecidableEq ι] (largest : Largest ids x k held) (full : held.card = k) (new : i ∉ ids) (least : j ∈ insert i held)
    (fewest : ∀ l ∈ insert i held, x j ≤ x l) : Largest (insert i ids) x k ((insert i held).erase j) := by
  have newly : i ∉ held := fun there => new (largest.subset there)
  have within : insert i held ⊆ insert i ids := insert_subset_insert i largest.subset
  refine ⟨(erase_subset _ _).trans within, ?_, fun l kept other there out => ?_⟩
  · have count := largest.card
    rw [card_erase_of_mem least, card_insert_of_notMem newly, card_insert_of_notMem new]
    omega
  · obtain ⟨kept', kept⟩ := mem_erase.mp kept
    by_cases last : other = j
    · exact last ▸ fewest l kept
    · have outside : other ∉ insert i held := fun inside => out (mem_erase.mpr ⟨last, inside⟩)
      rw [mem_insert, not_or] at outside
      have old : other ∈ ids := (mem_insert.mp there).resolve_left outside.1
      rcases mem_insert.mp kept with rfl | before
      · -- the new element stays, so that the one given up was held before
        have earlier : j ∈ held := (mem_insert.mp least).resolve_left fun same => kept' same.symm
        exact (largest.above j earlier other old outside.2).trans (fewest l (mem_insert_self l held))
      · exact largest.above l before other old outside.2

end Myctk.Lib
