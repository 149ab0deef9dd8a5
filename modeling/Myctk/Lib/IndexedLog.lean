import Mathlib.Data.List.Basic

/-! A log as its users see it: a first index and the values from there on. -/

namespace Myctk.Lib
open List

structure Log (α : Type) where
  first : Int
  entries : List α
  deriving DecidableEq

namespace Log

variable {α β : Type}

/-- The index of the last value, one below `first` when there is none. -/
def last (l : Log α) : Int := l.first + l.entries.length - 1

def get? (l : Log α) (i : Int) : Option α := if l.first ≤ i then l.entries[(i - l.first).toNat]? else none

def append (l : Log α) (x : α) : Log α := ⟨l.first, l.entries ++ [x]⟩

/-- Drops the values below `k`. -/
def truncatePrefix (l : Log α) (k : Int) : Log α :=
  if k ≤ l.first then l else ⟨k, l.entries.drop (k - l.first).toNat⟩

/-- Drops the values above `k`. -/
def truncateSuffix (l : Log α) (k : Int) : Log α := ⟨l.first, l.entries.take (k + 1 - l.first).toNat⟩

def map (f : α → β) (l : Log α) : Log β := ⟨l.first, l.entries.map f⟩

variable {l : Log α} {i j k : Int} {x : α}

lemma first_le_last : l.first ≤ l.last + 1 := by
  simp only [last]
  omega

lemma get?_eq_none (h : i < l.first ∨ l.last < i) : l.get? i = none := by
  simp only [get?, last] at *
  split
  · rw [getElem?_eq_none]
    omega
  · rfl

lemma exists_get? (h1 : l.first ≤ i) (h2 : i ≤ l.last) : ∃ x, l.get? i = some x := by
  simp only [last] at h2
  rw [get?, if_pos h1, getElem?_eq_getElem (by omega)]
  exact ⟨_, rfl⟩

lemma get?_last_append : (l.append x).get? (l.last + 1) = some x := by
  have : (l.last + 1 - l.first).toNat = l.entries.length := by
    simp only [last]
    omega
  simp only [append, get?, if_pos first_le_last, this, getElem?_concat_length]

lemma truncatePrefix_of_le (h : k ≤ l.first) : l.truncatePrefix k = l := if_pos h

lemma truncatePrefix_of_lt (h : l.first < k) : l.truncatePrefix k = ⟨k, l.entries.drop (k - l.first).toNat⟩ := if_neg (by omega)

lemma first_truncatePrefix : (l.truncatePrefix k).first = max l.first k := by
  simp only [truncatePrefix]
  split
  · omega
  · simp only
    omega

lemma last_truncatePrefix : (l.truncatePrefix k).last = max l.last (k - 1) := by
  simp only [truncatePrefix, last] at *
  split
  · omega
  · simp only [length_drop]
    omega

lemma last_truncateSuffix (h1 : l.first - 1 ≤ k) (h2 : k ≤ l.last) : (l.truncateSuffix k).last = k := by
  simp only [truncateSuffix, last, length_take] at *
  omega

lemma get?_truncatePrefix (h : k ≤ i) : (l.truncatePrefix k).get? i = l.get? i := by
  simp only [truncatePrefix]
  split
  · rfl
  · simp only [get?, getElem?_drop]
    rw [if_pos h, if_pos (by omega)]
    congr 1
    omega

lemma truncatePrefix_truncatePrefix (h : j ≤ k) : (l.truncatePrefix j).truncatePrefix k = l.truncatePrefix k := by
  by_cases hj : j ≤ l.first
  · rw [truncatePrefix_of_le hj]
  · rw [truncatePrefix_of_lt (l := l) (k := j) (by omega)]
    by_cases hk : k ≤ j
    · obtain rfl : j = k := by omega
      rw [truncatePrefix_of_le (by exact hk), truncatePrefix_of_lt (by omega)]
    · rw [truncatePrefix_of_lt (by simp only; omega), truncatePrefix_of_lt (by omega), drop_drop]
      congr 2
      simp only
      omega

lemma truncatePrefix_append_left {a b : List α} (h : i + a.length ≤ k) :
    truncatePrefix ⟨i, a ++ b⟩ k = truncatePrefix ⟨i + a.length, b⟩ k := by
  simp only [truncatePrefix]
  split <;> split
  · have : a = [] := eq_nil_of_length_eq_zero (by omega)
    simp [this]
  · have : a = [] := eq_nil_of_length_eq_zero (by omega)
    omega
  · have hk : (k - i).toNat = a.length := by omega
    rw [hk, drop_left]
    congr 1
    omega
  · have hk : (k - i).toNat = a.length + (k - (i + a.length)).toNat := by omega
    rw [hk, ← drop_drop, drop_left]

lemma append_truncatePrefix (h : k ≤ l.last + 1) : (l.truncatePrefix k).append x = (l.append x).truncatePrefix k := by
  by_cases hk : k ≤ l.first
  · rw [truncatePrefix_of_le hk, truncatePrefix_of_le (by exact hk)]
  · rw [truncatePrefix_of_lt (by omega), truncatePrefix_of_lt (by simp only [append]; omega)]
    simp only [append, last] at *
    rw [drop_append_of_le_length (by omega)]

lemma truncateSuffix_truncatePrefix (h : k ≤ j + 1) :
    (l.truncatePrefix k).truncateSuffix j = (l.truncateSuffix j).truncatePrefix k := by
  by_cases hk : k ≤ l.first
  · rw [truncatePrefix_of_le hk, truncatePrefix_of_le (by exact hk)]
  · rw [truncatePrefix_of_lt (by omega), truncatePrefix_of_lt (by simp only [truncateSuffix]; omega)]
    simp only [truncateSuffix]
    rw [drop_take]
    congr 2
    omega

lemma get?_truncateSuffix (h : i ≤ k) : (l.truncateSuffix k).get? i = l.get? i := by
  by_cases hi : l.first ≤ i
  · have hlt : (i - l.first).toNat < (k + 1 - l.first).toNat := by omega
    simp only [get?, truncateSuffix, if_pos hi, getElem?_take_of_lt hlt]
  · simp [get?, truncateSuffix, hi]

lemma truncateSuffix_truncateSuffix (h : k ≤ j) : (l.truncateSuffix j).truncateSuffix k = l.truncateSuffix k := by
  simp only [truncateSuffix, take_take]
  congr 2
  omega

lemma truncateSuffix_append_right {a b : List α} (h : k < i + a.length) : truncateSuffix ⟨i, a ++ b⟩ k = truncateSuffix ⟨i, a⟩ k := by
  simp only [truncateSuffix]
  rw [take_append_of_le_length (by omega)]

variable {f : α → β}

@[simp] lemma first_map : (l.map f).first = l.first := rfl

@[simp] lemma last_map : (l.map f).last = l.last := by simp [map, last]

lemma get?_map : (l.map f).get? i = (l.get? i).map f := by
  simp only [get?, map, getElem?_map]
  split <;> rfl

lemma map_append : (l.append x).map f = (l.map f).append (f x) := by simp [append, map]

lemma map_truncatePrefix : (l.truncatePrefix k).map f = (l.map f).truncatePrefix k := by
  by_cases hk : k ≤ l.first
  · rw [truncatePrefix_of_le hk, truncatePrefix_of_le (by exact hk)]
  · rw [truncatePrefix_of_lt (by omega), truncatePrefix_of_lt (by simp only [map]; omega)]
    simp [map]

lemma map_truncateSuffix : (l.truncateSuffix k).map f = (l.map f).truncateSuffix k := by
  simp [truncateSuffix, map]

end Log

/-! Lists of things that occupy half-open ranges of indices, one directly after the other. -/

variable {α β : Type} {lo hi : α → Int}

/-- The elements occupy `[lo x, hi x)`, and together `[i, j)` without gap or overlap. -/
def Tiles (lo hi : α → Int) : Int → List α → Int → Prop
  | i, [], j => i = j
  | i, x :: l, j => lo x = i ∧ i ≤ hi x ∧ Tiles lo hi (hi x) l j

variable {i j : Int} {l m : List α} {x : α}

lemma tiles_append : Tiles lo hi i (l ++ m) j ↔ ∃ k, Tiles lo hi i l k ∧ Tiles lo hi k m j := by
  induction l generalizing i with
  | nil => simp [Tiles]
  | cons x l ih =>
    simp only [cons_append, Tiles, ih]
    constructor
    · rintro ⟨h1, h2, k, h3, h4⟩
      exact ⟨k, ⟨h1, h2, h3⟩, h4⟩
    · rintro ⟨k, ⟨h1, h2, h3⟩, h4⟩
      exact ⟨h1, h2, k, h3, h4⟩

lemma tiles_concat : Tiles lo hi i (l ++ [x]) j ↔ Tiles lo hi i l (lo x) ∧ lo x ≤ hi x ∧ hi x = j := by
  rw [tiles_append]
  constructor
  · rintro ⟨k, hl, rfl, hx, rfl⟩
    exact ⟨hl, hx, rfl⟩
  · rintro ⟨hl, hx, rfl⟩
    exact ⟨lo x, hl, rfl, hx, rfl⟩

section
variable (h : Tiles lo hi i l j)
include h

lemma Tiles.le : i ≤ j := by
  induction l generalizing i with
  | nil => exact Int.le_of_eq h
  | cons x l ih => exact Int.le_trans h.2.1 (ih h.2.2)

lemma Tiles.le_of_forall {k : Int} (hi' : i ≤ k) (hk : ∀ x ∈ l, hi x ≤ k) : j ≤ k := by
  induction l generalizing i with
  | nil => exact h ▸ hi'
  | cons x l ih => exact ih h.2.2 (hk x mem_cons_self) fun y hy => hk y (mem_cons_of_mem _ hy)

lemma Tiles.mem (hx : x ∈ l) : i ≤ lo x ∧ lo x ≤ hi x ∧ hi x ≤ j := by
  obtain ⟨a, b, rfl⟩ := append_of_mem hx
  obtain ⟨k, ha, hk, hle, hb⟩ := tiles_append.mp h
  exact ⟨by have := ha.le; omega, by omega, hb.le⟩

lemma Tiles.exists_mem {n : Int} (hi' : i ≤ n) (hj : n < j) : ∃ x ∈ l, lo x ≤ n ∧ n < hi x := by
  induction l generalizing i with
  | nil => exact absurd h (by simp only [Tiles]; omega)
  | cons x l ih =>
    obtain ⟨rfl, hle, ht⟩ := h
    by_cases hn : n < hi x
    · exact ⟨x, mem_cons_self, hi', hn⟩
    · obtain ⟨y, hy, hlo, hhi⟩ := ih ht (by omega)
      exact ⟨y, mem_cons_of_mem _ hy, hlo, hhi⟩

lemma Tiles.pairwise : l.Pairwise fun x y => hi x ≤ lo y := by
  induction l generalizing i with
  | nil => exact .nil
  | cons x l ih => exact .cons (fun y hy => (h.2.2.mem hy).1) (ih h.2.2)

end

/-! ### Contents

An element that occupies `n` indices has `n` values, one for each. -/

variable {f : α → List β}

lemma Tiles.length_flatMap (h : Tiles lo hi i l j) (hf : ∀ x ∈ l, ((f x).length : Int) = hi x - lo x) :
    ((l.flatMap f).length : Int) = j - i := by
  induction l generalizing i with
  | nil =>
    have : i = j := h
    simp [this]
  | cons x l ih =>
    have hl := ih h.2.2 fun y hy => hf y (mem_cons_of_mem _ hy)
    have hx := hf x mem_cons_self
    have hlo := h.1
    rw [flatMap_cons, length_append]
    omega

lemma Tiles.getElem?_flatMap (h : Tiles lo hi i l j) (hf : ∀ x ∈ l, ((f x).length : Int) = hi x - lo x)
    (hx : x ∈ l) {n : Int} (hlo : lo x ≤ n) (hhi : n < hi x) : (l.flatMap f)[(n - i).toNat]? = (f x)[(n - lo x).toNat]? := by
  obtain ⟨a, b, rfl⟩ := append_of_mem hx
  obtain ⟨k, ha, hk, -, -⟩ := tiles_append.mp h
  have hlen := ha.length_flatMap fun y hy => hf y (mem_append_left _ hy)
  have hfx := hf x hx
  have hik := ha.le
  rw [flatMap_append, getElem?_append_right (by omega), flatMap_cons,
    getElem?_append_left (by omega)]
  congr 1
  omega

end Myctk.Lib
