import Mathlib.Tactic

/-! Numbers kept in bit slices: the number of an id is spelled by the sets that hold the id. -/

namespace Myctk.Lib
open Nat

variable {ι : Type} [DecidableEq ι]

/-- The number of an id in the lowest `n` slices. -/
def sliced (slice : Nat → Finset ι) (id : ι) : Nat → Nat
  | 0 => 0
  | n + 1 => if id ∈ slice n then sliced slice id n + 2 ^ n else sliced slice id n

/-- The slices spell the number `v` for the id. -/
def Spells (slice : Nat → Finset ι) (id : ι) (n v : Nat) : Prop := ∀ i < n, id ∈ slice i ↔ v.testBit i

variable {slice slice' : Nat → Finset ι} {id : ι} {n v : Nat}

lemma Spells.sliced_eq_mod (spells : Spells slice id n v) : sliced slice id n = v % 2 ^ n := by
  induction n with
  | zero => rw [pow_zero, mod_one]; rfl
  | succ n ih =>
    have lower := ih fun i lt => spells i (lt_succ_of_lt lt)
    have top := spells n (lt_succ_self n)
    rw [testBit_eq_decide_div_mod_eq, decide_eq_true_eq] at top
    rw [sliced, lower, mod_pow_succ]
    rcases mod_two_eq_zero_or_one (v / 2 ^ n) with zero | one
    · rw [if_neg (by rw [top, zero]; decide), zero, Nat.mul_zero, Nat.add_zero]
    · rw [if_pos (top.mpr one), one, mul_one]

lemma Spells.sliced_eq (spells : Spells slice id n v) (lt : v < 2 ^ n) : sliced slice id n = v := by
  rw [spells.sliced_eq_mod, mod_eq_of_lt lt]

omit [DecidableEq ι] in
lemma Spells.congr (spells : Spells slice id n v) (same : ∀ i < n, id ∈ slice' i ↔ id ∈ slice i) : Spells slice' id n v :=
  fun i lt => (same i lt).trans (spells i lt)

omit [DecidableEq ι] in
lemma Spells.mod (spells : Spells slice id n v) : Spells slice id n (v % 2 ^ n) := by
  intro i lt
  rw [spells i lt, testBit_mod_two_pow, decide_eq_true lt, Bool.true_and]

lemma sliced_lt (slice : Nat → Finset ι) (id : ι) (n : Nat) : sliced slice id n < 2 ^ n := by
  induction n with
  | zero => exact Nat.one_pos
  | succ n ih =>
    rw [sliced, pow_succ]
    split <;> omega

lemma sliced_congr {id' : ι} (same : ∀ i < n, id ∈ slice i ↔ id' ∈ slice i) : sliced slice id n = sliced slice id' n := by
  induction n with
  | zero => rfl
  | succ n ih =>
    rw [sliced, sliced, ih fun i lt => same i (lt_succ_of_lt lt)]
    exact if_congr (same n (lt_succ_self n)) rfl rfl

lemma spells_sliced (slice : Nat → Finset ι) (id : ι) (n : Nat) : Spells slice id n (sliced slice id n) := by
  induction n with
  | zero => exact fun i lt => absurd lt (not_lt_zero i)
  | succ n ih =>
    intro i lt
    rw [sliced]
    rcases Nat.lt_succ_iff_lt_or_eq.mp lt with below | rfl
    · split
      · rw [add_comm, testBit_two_pow_add_gt below]
        exact ih i below
      · exact ih i below
    · have top := testBit_lt_two_pow (sliced_lt slice id i)
      split
      · rename_i there
        rw [add_comm, testBit_two_pow_add_eq, top]
        exact iff_of_true there rfl
      · rename_i absent
        rw [top]
        exact iff_of_false absent Bool.false_ne_true

lemma spells_iff : Spells slice id n v ↔ sliced slice id n = v % 2 ^ n := by
  refine ⟨Spells.sliced_eq_mod, fun same i lt => ?_⟩
  rw [spells_sliced slice id n i lt, same, testBit_mod_two_pow, decide_eq_true lt, Bool.true_and]

lemma div_two_pow_eq (x i : Nat) : x / 2 ^ i = 2 * (x / 2 ^ (i + 1)) + (x.testBit i).toNat := by
  rw [pow_succ, ← Nat.div_div_eq_div_mul, Nat.testBit_eq_decide_div_mod_eq]
  rcases mod_two_eq_zero_or_one (x / 2 ^ i) with zero | one
  · rw [zero]
    simp only [Nat.zero_ne_one, decide_false, Bool.toNat_false]
    omega
  · rw [one]
    simp only [decide_true, Bool.toNat_true]
    omega

section
variable {x p : Nat} (i : Nat)

/-! One more bit of the high part, against a given high part `p`. -/

lemma div_eq_odd_iff : x / 2 ^ i = 2 * p + 1 ↔ x / 2 ^ (i + 1) = p ∧ x.testBit i = true := by
  rw [div_two_pow_eq x i]
  cases x.testBit i <;> grind

lemma div_eq_even_iff : x / 2 ^ i = 2 * p ↔ x / 2 ^ (i + 1) = p ∧ ¬ x.testBit i = true := by
  rw [div_two_pow_eq x i]
  cases x.testBit i <;> grind

lemma odd_lt_div_iff : 2 * p + 1 < x / 2 ^ i ↔ p < x / 2 ^ (i + 1) := by
  rw [div_two_pow_eq x i]
  cases x.testBit i <;> grind

lemma even_lt_div_iff : 2 * p < x / 2 ^ i ↔ p < x / 2 ^ (i + 1) ∨ x / 2 ^ (i + 1) = p ∧ x.testBit i = true := by
  rw [div_two_pow_eq x i]
  cases x.testBit i <;> grind

end

lemma lt_two_pow_iff {x i : Nat} : x < 2 ^ i ↔ x < 2 ^ (i + 1) ∧ ¬ x.testBit i = true := by
  rw [← Nat.div_eq_zero_iff_lt (Nat.two_pow_pos i), ← Nat.div_eq_zero_iff_lt (Nat.two_pow_pos (i + 1)), div_two_pow_eq x i]
  cases x.testBit i with
  | true => simp
  | false =>
    simp only [Bool.toNat_false, Bool.false_eq_true, not_false_eq_true, and_true]
    omega

def Above (v x n : Nat) : Prop := v / 2 ^ n < x / 2 ^ n

/-- The numbers differ in the lowest `n` bits at most. -/
def Alike (v x n : Nat) : Prop := v / 2 ^ n = x / 2 ^ n

lemma above_step {v x : Nat} (i : Nat) :
    Above v x i ↔ Above v x (i + 1) ∨ Alike v x (i + 1) ∧ ¬ v.testBit i = true ∧ x.testBit i = true := by
  unfold Above Alike
  rw [div_two_pow_eq v i, div_two_pow_eq x i]
  cases v.testBit i <;> cases x.testBit i <;> simp <;> omega

lemma alike_step {v x : Nat} (i : Nat) : Alike v x i ↔ Alike v x (i + 1) ∧ (v.testBit i = true ↔ x.testBit i = true) := by
  unfold Alike
  rw [div_two_pow_eq v i, div_two_pow_eq x i]
  cases v.testBit i <;> cases x.testBit i <;> simp <;> omega

lemma above_or_alike_succ {v x i : Nat} (here : Above v x i ∨ Alike v x i) : Above v x (i + 1) ∨ Alike v x (i + 1) := by
  rcases here with above | alike
  · exact ((above_step i).mp above).imp_right And.left
  · exact .inr ((alike_step i).mp alike).1

lemma Above.lt {v x n : Nat} (above : Above v x n) : v < x := by
  by_contra less
  exact absurd (Nat.div_le_div_right (Nat.le_of_not_lt less)) (Nat.not_le_of_lt above)

lemma above_zero {v x : Nat} : Above v x 0 ↔ v < x := by
  rw [Above, pow_zero, Nat.div_one, Nat.div_one]

lemma alike_zero {v x : Nat} : Alike v x 0 ↔ v = x := by
  rw [Alike, pow_zero, Nat.div_one, Nat.div_one]

lemma alike_of_lt {v x n : Nat} (left : v < 2 ^ n) (right : x < 2 ^ n) : Alike v x n := by
  rw [Alike, div_eq_of_lt left, div_eq_of_lt right]

lemma not_above_of_lt {v x n : Nat} (right : x < 2 ^ n) : ¬ Above v x n := by
  rw [Above, div_eq_of_lt right]
  exact not_lt_zero _

end Myctk.Lib
