import Mathlib.Data.List.Basic

/-! Traversals of a list by a function that may fail. -/

namespace Myctk.Lib

open List Option

variable {α β σ : Type} {f : σ → α → Option σ} {xs : List α} {s t : σ} {g : σ → β → σ} {p : α → Option Bool}

lemma bind_eq_none_or {x : Option α} {f : α → Option β} : x.bind f = none ↔ x = none ∨ ∃ a, x = some a ∧ f a = none := by
  cases x with
  | none => simp
  | some a => simp

lemma foldlM_invariant (P : σ → Prop) (start : P s)
    (step : ∀ s x, x ∈ xs → P s → ∀ t, f s x = some t → P t) (runs : xs.foldlM f s = some t) : P t := by
  induction xs generalizing s with
  | nil =>
    simp only [List.foldlM_nil, Option.pure_def, Option.some.injEq] at runs
    exact runs ▸ start
  | cons x xs ih =>
    simp only [List.foldlM_cons, Option.bind_eq_bind, Option.bind_eq_some_iff] at runs
    obtain ⟨u, first, rest⟩ := runs
    exact ih (step s x List.mem_cons_self start u first) (fun s y member => step s y (List.mem_cons_of_mem _ member)) rest

lemma foldlM_eq_foldl_flatMap {h : α → List β}
    (step : ∀ s x t, f s x = some t → t = (h x).foldl g s) (runs : xs.foldlM f s = some t) :
    t = (xs.flatMap h).foldl g s := by
  induction xs generalizing s with
  | nil => exact (some.inj runs).symm
  | cons x xs ih =>
    simp only [foldlM_cons, bind_eq_bind, bind_eq_some_iff] at runs
    obtain ⟨u, first, rest⟩ := runs
    rw [ih rest, step s x u first, flatMap_cons, foldl_append]

lemma foldlM_eq_foldl {h : α → Option β}
    (step : ∀ s x t, f s x = some t → t = (h x).toList.foldl g s) (runs : xs.foldlM f s = some t) :
    t = (xs.filterMap h).foldl g s := by
  rw [foldlM_eq_foldl_flatMap step runs, filterMap_eq_flatMap_toList]

lemma anyM_eq_some_false : xs.anyM p = some false ↔ ∀ x ∈ xs, p x = some false := by
  induction xs with
  | nil => simp [anyM]
  | cons x xs ih =>
    rcases head : p x with _ | _ | _ <;> simp [anyM, head, ih]

lemma exists_of_anyM (found : xs.anyM p = some true) : ∃ x ∈ xs, p x = some true := by
  induction xs with
  | nil => cases found
  | cons x xs ih =>
    rcases head : p x with _ | _ | _
    · simp [anyM, head] at found
    · simp only [anyM, head, bind_eq_bind, bind_some] at found
      obtain ⟨y, member, here⟩ := ih found
      exact ⟨y, mem_cons_of_mem _ member, here⟩
    · exact ⟨x, mem_cons_self, head⟩

lemma isSome_anyM (all : ∀ x ∈ xs, (p x).isSome) : (xs.anyM p).isSome := by
  induction xs with
  | nil => rfl
  | cons x xs ih =>
    have rest := ih fun y member => all y (mem_cons_of_mem _ member)
    rcases head : p x with _ | _ | _
    · simp [head] at all
    · simpa [anyM, head] using rest
    · simp [anyM, head]

lemma anyM_mono {q : α → Option Bool} (le : ∀ x ∈ xs, ∀ b, p x = some b → q x = some b) {b : Bool}
    (found : xs.anyM p = some b) : xs.anyM q = some b := by
  induction xs with
  | nil => exact found
  | cons x xs ih =>
    have rest := ih fun y member => le y (mem_cons_of_mem _ member)
    rcases head : p x with _ | _ | _
    · simp [anyM, head] at found
    · simp only [anyM, head, le x mem_cons_self false head, bind_eq_bind, bind_some] at found ⊢
      exact rest found
    · simp only [anyM, head, le x mem_cons_self true head, bind_eq_bind, bind_some] at found ⊢
      exact found

lemma exists_bound {P : α → Nat → Prop} (mono : ∀ x n m, n ≤ m → P x n → P x m) (xs : List α)
    (each : ∀ x ∈ xs, ∃ n, P x n) : ∃ n, ∀ x ∈ xs, P x n := by
  induction xs with
  | nil => exact ⟨0, fun x member => by cases member⟩
  | cons x xs ih =>
    obtain ⟨n, here⟩ := each x mem_cons_self
    obtain ⟨m, rest⟩ := ih fun y member => each y (mem_cons_of_mem _ member)
    refine ⟨max n m, fun y member => ?_⟩
    rcases mem_cons.mp member with rfl | member
    · exact mono y n _ (Nat.le_max_left n m) here
    · exact mono y m _ (Nat.le_max_right n m) (rest y member)

end Myctk.Lib
