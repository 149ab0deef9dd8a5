import Mathlib.Tactic

/-! Several files that are addressed by one offset, and writes into a file. -/

namespace Myctk.Lib.Extents

open List

/-- The extent that has an offset, and where it starts. -/
def locate (offset : Nat) : (i start : Nat) → List Nat → Option (Nat × Nat)
  | _, _, [] => none
  | i, start, size :: sizes => if offset < start + size then some (i, start) else locate offset (i + 1) (start + size) sizes

/-- Where the extent with the number `k` starts. -/
def base (sizes : List Nat) (k : Nat) : Nat := (sizes.take k).sum

variable {sizes : List Nat} {k offset b : Nat}

lemma base_succ {size : Nat} (there : sizes[k]? = some size) : base sizes (k + 1) = base sizes k + size := by
  rw [base, take_add_one, there, Option.toList_some, sum_append, sum_singleton, base]

lemma base_cons (size : Nat) (sizes : List Nat) (k : Nat) : base (size :: sizes) (k + 1) = size + base sizes k := by
  rw [base, take_succ_cons, sum_cons, base]

lemma base_mono (sizes : List Nat) {j : Nat} (le : j ≤ k) : base sizes j ≤ base sizes k := by
  obtain ⟨d, rfl⟩ := Nat.exists_eq_add_of_le le
  rw [base, base, take_add, sum_append]
  exact Nat.le_add_right _ _

lemma base_le_sum (sizes : List Nat) (k : Nat) : base sizes k ≤ sizes.sum := by
  rw [← take_append_drop k sizes, sum_append, take_append_drop, base]
  exact Nat.le_add_right _ _

lemma exists_extent {n : Nat} (lt : offset < base sizes n) :
    ∃ k size, sizes[k]? = some size ∧ base sizes k ≤ offset ∧ offset < base sizes k + size := by
  induction n with
  | zero => exact absurd lt (Nat.not_lt_zero _)
  | succ n ih =>
    by_cases before : offset < base sizes n
    · exact ih before
    · cases there : sizes[n]? with
      | none =>
        rw [base, take_add_one, there, Option.toList_none, append_nil] at lt
        exact absurd lt before
      | some size =>
        rw [base_succ there] at lt
        exact ⟨n, size, there, Nat.not_lt.mp before, lt⟩

lemma locate_shift {i start : Nat} (after : start ≤ offset) : locate offset i start sizes = some (k, b) ↔
      ∃ j size, k = i + j ∧ b = start + base sizes j ∧ sizes[j]? = some size ∧ b ≤ offset ∧ offset < b + size := by
  induction sizes generalizing i start with
  | nil => simp [locate]
  | cons size sizes ih =>
    rw [locate]
    split
    case isTrue inside =>
      constructor
      · intro found
        cases found
        exact ⟨0, size, rfl, rfl, rfl, after, inside⟩
      · rintro ⟨j, size', rfl, rfl, there, le, lt⟩
        cases j with
        | zero => rfl
        | succ j =>
          rw [base_cons] at le
          omega
    case isFalse outside =>
      rw [ih (Nat.not_lt.mp outside)]
      constructor
      · rintro ⟨j, size', rfl, rfl, there, le, lt⟩
        refine ⟨j + 1, size', by omega, ?_, there, le, lt⟩
        rw [base_cons]
        omega
      · rintro ⟨j, size', rfl, rfl, there, le, lt⟩
        cases j with
        | zero =>
          cases there
          exact absurd lt outside
        | succ j =>
          refine ⟨j, size', by omega, ?_, there, le, lt⟩
          rw [base_cons]
          omega

lemma locate_eq_some : locate offset 0 0 sizes = some (k, b) ↔
    b = base sizes k ∧ ∃ size, sizes[k]? = some size ∧ b ≤ offset ∧ offset < b + size := by
  rw [locate_shift (Nat.zero_le _)]
  constructor
  · rintro ⟨j, size, rfl, rfl, rest⟩
    rw [Nat.zero_add, Nat.zero_add] at *
    exact ⟨rfl, size, rest⟩
  · rintro ⟨rfl, size, rest⟩
    exact ⟨k, size, (Nat.zero_add k).symm, (Nat.zero_add _).symm, rest⟩

section
variable {α : Type} {pos p : Nat} {fill : α} {b data : List α}

lemma flatten_drop {parts : List (List α)} {part : List α} {k : Nat} (there : parts[k]? = some part) (inside : pos ≤ part.length) :
    parts.flatten.drop (base (parts.map length) k + pos) = part.drop pos ++ (parts.drop (k + 1)).flatten := by
  induction parts generalizing k with
  | nil => cases there
  | cons first parts ih =>
    cases k with
    | zero =>
      cases there
      rw [flatten_cons, base, take_zero, sum_nil, zero_add, drop_append_of_le_length inside]
      rfl
    | succ k =>
      rw [map_cons, base_cons, add_assoc, flatten_cons, ← drop_drop, drop_left]
      exact ih there

def patch (fill : α) (b : List α) (pos : Nat) (data : List α) : List α :=
  b.take pos ++ List.replicate (pos - b.length) fill ++ data ++ b.drop (pos + data.length)

lemma getElem?_patch_inside (after : pos ≤ p) (before : p < pos + data.length) : (patch fill b pos data)[p]? = data[p - pos]? := by
  have front : (b.take pos ++ replicate (pos - b.length) fill).length = pos := by
    rw [length_append, length_take, length_replicate]
    omega
  rw [patch, append_assoc _ data, getElem?_append_right (by omega), front, getElem?_append_left (by omega)]

lemma getElem?_patch_outside (inside : p < b.length)
    (outside : p < pos ∨ pos + data.length ≤ p) : (patch fill b pos data)[p]? = b[p]? := by
  have front : (b.take pos ++ replicate (pos - b.length) fill).length = pos := by
    rw [length_append, length_take, length_replicate]
    omega
  rw [patch, append_assoc _ data]
  rcases outside with before | after
  · rw [getElem?_append_left (by omega), getElem?_append_left (by rw [length_take]; omega), getElem?_take_of_lt before]
  · rw [getElem?_append_right (by omega), front, getElem?_append_right (by omega), getElem?_drop]
    congr 1
    omega

lemma length_patch (fill : α) (b data : List α) (pos : Nat) : (patch fill b pos data).length = max b.length (pos + data.length) := by
  rw [patch, length_append, length_append, length_append, length_take, length_replicate, length_drop]
  omega

end

end Myctk.Lib.Extents
