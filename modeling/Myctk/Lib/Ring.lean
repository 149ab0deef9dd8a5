import Mathlib.Tactic

/-! Robin-hood order on a ring of places. -/

namespace Myctk.Lib.Ring

open Function Nat

def next (n i : Nat) : Nat := if i + 1 = n then 0 else i + 1

/-- The place that is `t` places on. -/
def walk (n start t : Nat) : Nat := (start + t) % n

section
variable {n start t i j : Nat}

lemma walk_zero (inside : start < n) : walk n start 0 = start := mod_eq_of_lt inside

lemma walk_lt (inside : start < n) : walk n start t < n := mod_lt _ (zero_lt_of_lt inside)

lemma next_walk (inside : start < n) : next n (walk n start t) = walk n start (t + 1) := by
  have here : walk n start t < n := walk_lt inside
  have there : walk n start (t + 1) = (walk n start t + 1) % n := by
    rw [walk, walk, mod_add_mod, add_assoc]
  rw [there, next]
  split
  case isTrue last => rw [last, mod_self]
  case isFalse inner => exact (mod_eq_of_lt (by omega)).symm

lemma walk_one (inside : start < n) : walk n start 1 = next n start := by
  rw [← next_walk inside, walk_zero inside]

lemma walk_walk : walk n (walk n start i) j = walk n start (i + j) := by
  rw [walk, walk, mod_add_mod, add_assoc, walk]

lemma next_inj (_ : i < n) (_ : j < n) (same : next n i = next n j) : i = j := by
  simp only [next] at same
  split at same <;> split at same <;> omega

lemma next_ne (two : 2 ≤ n) : next n i ≠ i := by
  rw [next]
  split <;> omega

lemma exists_walk (inside : start < n) (there : i < n) : ∃ t < n, walk n start t = i := by
  rcases lt_or_ge i start with before | after
  · exact ⟨n - start + i, by omega, by rw [walk, show start + (n - start + i) = i + n by omega, add_mod_right,
      mod_eq_of_lt there]⟩
  · exact ⟨i - start, by omega, by rw [walk, Nat.add_sub_cancel' after, Nat.mod_eq_of_lt there]⟩

end

def Follows (b previous word : Nat) : Prop := word < 2 * b ∨ previous ≠ 0 ∧ word ≤ previous + b

def Ordered (b n : Nat) (words : Nat → Nat) : Prop := ∀ i < n, Follows b (words i) (words (next n i))

/-- What has gone `t` places from `start` has passed no smaller word than its own on the way. -/
def Reached (b n : Nat) (words : Nat → Nat) (start f t : Nat) : Prop :=
  ∀ j < t, b * (j + 1) + f ≤ words (walk n start j)

section
variable {b n start f t i : Nat} {words : Nat → Nat}

lemma Reached.succ (reached : Reached b n words start f t) (le : b * (t + 1) + f ≤ words (walk n start t)) :
    Reached b n words start f (t + 1) := by
  intro j lt
  rcases Nat.lt_succ_iff_lt_or_eq.mp lt with before | rfl
  · exact reached j before
  · exact le

lemma Ordered.reached (ordered : Ordered b n words) (inside : start < n)
    (word : b * (t + 1) + f ≤ words (walk n start t)) : Reached b n words start f (t + 1) := by
  induction t with
  | zero =>
    intro j lt
    obtain rfl : j = 0 := lt_one_iff.mp lt
    exact word
  | succ t ih =>
    refine Reached.succ (ih ?_) word
    have follows := ordered _ (walk_lt (t := t) inside)
    rw [next_walk inside] at follows
    rw [mul_succ b (t + 1), mul_succ b t] at word
    rw [mul_succ b t]
    rcases follows with first | ⟨-, le⟩ <;> omega

lemma Reached.update (reached : Reached b n words start f t) {word : Nat} (le : words i ≤ word) :
    Reached b n (update words i word) start f t := by
  intro j lt
  rcases eq_or_ne (walk n start j) i with rfl | other
  · rw [update_self]
    exact le_trans (reached j lt) le
  · rw [update_of_ne other]
    exact reached j lt

lemma Reached.lt (reached : Reached b n words start f t) (positive : 0 < b) (inside : start < n) (there : i < n)
    (free : words i = 0) : t < n := by
  obtain ⟨j, lt, rfl⟩ := exists_walk inside there
  by_contra far
  have passed := reached j (by omega)
  rw [free, mul_succ] at passed
  omega

lemma Ordered.update (ordered : Ordered b n words) (two : 2 ≤ n) (positive : 0 < b) (fits : f < b) (inside : start < n)
    (reached : Reached b n words start f t) (le : words (walk n start t) ≤ b * (t + 1) + f) :
    Ordered b n (update words (walk n start t) (b * (t + 1) + f)) := by
  intro j lt
  rcases eq_or_ne j (walk n start t) with rfl | other
  · rw [update_self, update_of_ne (next_ne two)]
    rcases ordered _ lt with first | ⟨some, step⟩
    · exact .inl first
    · exact .inr ⟨by rw [mul_succ]; omega, by omega⟩
  · rw [update_of_ne other]
    rcases eq_or_ne (next n j) (walk n start t) with here | there
    · rw [here, update_self]
      cases t with
      | zero => exact .inl (by omega)
      | succ t =>
        rw [← next_walk inside] at here
        obtain rfl := next_inj lt (walk_lt inside) here
        have passed := reached t (lt_succ_self t)
        rw [mul_succ] at passed
        exact .inr ⟨by omega, by rw [mul_succ b (t + 1), mul_succ]; omega⟩
    · rw [update_of_ne there]
      exact ordered j lt

end

end Myctk.Lib.Ring
