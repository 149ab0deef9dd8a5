import Mathlib.Data.List.Basic

/-! Records one after the other: where each of them starts. -/

namespace Myctk.Lib

open List

variable {ρ α : Type} (encode : ρ → List α)

def StartsAt (recs : List ρ) (o : Nat) (r : ρ) : Prop :=
  ∃ before after, recs = before ++ r :: after ∧ o = (before.flatMap encode).length

/-- The offsets of the records with `p`, where the first record starts at `o`. -/
def starts (p : ρ → Bool) : Nat → List ρ → List Nat
  | _, [] => []
  | o, r :: recs => if p r then o :: starts p (o + (encode r).length) recs else starts p (o + (encode r).length) recs

variable {encode} {p : ρ → Bool} {recs recs' : List ρ} {o : Nat} {r : ρ}

lemma StartsAt.drop (there : StartsAt encode recs o r) : ∃ rest, (recs.flatMap encode).drop o = encode r ++ rest := by
  obtain ⟨before, after, rfl, rfl⟩ := there
  refine ⟨after.flatMap encode, ?_⟩
  rw [flatMap_append, flatMap_cons, drop_left]

lemma StartsAt.append (there : StartsAt encode recs o r) (recs' : List ρ) : StartsAt encode (recs ++ recs') o r := by
  obtain ⟨before, after, rfl, rfl⟩ := there
  exact ⟨before, after ++ recs', by simp, rfl⟩

lemma starts_append : starts encode p o (recs ++ recs') =
    starts encode p o recs ++ starts encode p (o + (recs.flatMap encode).length) recs' := by
  induction recs generalizing o with
  | nil => rfl
  | cons r recs ih =>
    simp only [cons_append, starts, ih, flatMap_cons, length_append, Nat.add_assoc]
    split <;> rfl

lemma startsAt_of_mem {i : Nat} (member : i ∈ starts encode p o recs) :
    ∃ before r after, recs = before ++ r :: after ∧ p r ∧ i = o + (before.flatMap encode).length := by
  induction recs generalizing o with
  | nil => cases member
  | cons r recs ih =>
    rw [starts] at member
    rcases eq_or_ne i o with rfl | other
    · split at member
      case isTrue here => exact ⟨[], r, recs, rfl, here, rfl⟩
      case isFalse =>
        obtain ⟨before, r', after, rfl, here, eq⟩ := ih member
        exact ⟨r :: before, r', after, rfl, here, by rw [flatMap_cons, length_append]; omega⟩
    · have later : i ∈ starts encode p (o + (encode r).length) recs := by
        split at member
        · exact (mem_cons.mp member).resolve_left other
        · exact member
      obtain ⟨before, r', after, rfl, here, eq⟩ := ih later
      exact ⟨r :: before, r', after, rfl, here, by rw [flatMap_cons, length_append]; omega⟩

section
variable {before after : List ρ} {r' : ρ} {i : Nat}

lemma starts_replace (same : (encode r').length = (encode r).length) (old : p r) (new : p r' = false) :
    (starts encode p o (before ++ r :: after)).Perm
      ((o + (before.flatMap encode).length) :: starts encode p o (before ++ r' :: after)) := by
  rw [starts_append, starts_append, starts, starts, if_pos old, new, if_neg Bool.false_ne_true, same]
  exact perm_middle

lemma startsAt_replace (same : (encode r').length = (encode r).length) (new : p r' = false)
    (member : i ∈ starts encode p 0 (before ++ r' :: after)) :
    ∃ q, StartsAt encode (before ++ r :: after) i q ∧ StartsAt encode (before ++ r' :: after) i q := by
  rw [starts_append, starts, new, if_neg Bool.false_ne_true, Nat.zero_add] at member
  rcases mem_append.mp member with inside | behind
  · obtain ⟨a, q, b, rfl, -, there⟩ := startsAt_of_mem inside
    rw [Nat.zero_add] at there
    exact ⟨q, ⟨a, b ++ r :: after, by simp, there⟩, a, b ++ r' :: after, by simp, there⟩
  · obtain ⟨a, q, b, rfl, -, there⟩ := startsAt_of_mem behind
    have place : ∀ x, (encode x).length = (encode r).length → i = ((before ++ x :: a).flatMap encode).length := by
      intro x length
      rw [there, flatMap_append, flatMap_cons, length_append, length_append, length, same, Nat.add_assoc]
    exact ⟨q, ⟨before ++ r :: a, b, by simp, place r rfl⟩, before ++ r' :: a, b, by simp, place r' same⟩

end

lemma starts_add (n : Nat) : starts encode p (n + o) recs = (starts encode p o recs).map (n + ·) := by
  induction recs generalizing o with
  | nil => rfl
  | cons r recs ih =>
    simp only [starts, Nat.add_assoc, ih]
    split <;> rfl

end Myctk.Lib
