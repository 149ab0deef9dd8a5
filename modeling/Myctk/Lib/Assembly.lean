import Mathlib.Logic.Function.Iterate

/-! Machines that run labelled code. The program counter is the code that is still to run, and a jump goes on after
    its label in the whole program. -/

namespace Myctk.Lib
open Function

variable {ι κ : Type} [DecidableEq κ]

def codeAfter (label : ι → Option κ) (l : κ) : List ι → Option (List ι)
  | [] => none
  | i :: code => if label i = some l then some code else codeAfter label l code

lemma codeAfter_append {label : ι → Option κ} {l : κ} {before : List ι} (after : List ι)
    (fresh : ∀ j ∈ before, label j ≠ some l) : codeAfter label l (before ++ after) = codeAfter label l after := by
  induction before with
  | nil => rfl
  | cons j before ih =>
    rw [List.cons_append, codeAfter, if_neg (fresh j List.mem_cons_self)]
    exact ih fun k member => fresh k (List.mem_cons_of_mem _ member)

variable {σ : Type} {step : σ → σ} {P Q : σ → Prop} {s : σ}

/-- The run from `s` comes to a state with `P`. -/
def Eventually (step : σ → σ) (P : σ → Prop) (s : σ) : Prop := ∃ n, P (step^[n] s)

lemma Eventually.now (holds : P s) : Eventually step P s := ⟨0, holds⟩

lemma Eventually.succ (later : Eventually step P (step s)) : Eventually step P s := by
  obtain ⟨n, holds⟩ := later
  exact ⟨n + 1, holds⟩

lemma Eventually.bind (first : Eventually step P s) (later : ∀ t, P t → Eventually step Q t) : Eventually step Q s := by
  obtain ⟨n, holds⟩ := first
  obtain ⟨k, holds'⟩ := later _ holds
  exact ⟨k + n, by rwa [iterate_add_apply]⟩

lemma Eventually.mono (first : Eventually step P s) (imp : ∀ t, P t → Q t) : Eventually step Q s :=
  first.bind fun t holds => .now (imp t holds)

lemma Eventually.both (first : Eventually step P s) (second : Eventually step Q s) (rests : ∀ t, P t → step t = t)
    (rests' : ∀ t, Q t → step t = t) : ∃ t, P t ∧ Q t := by
  obtain ⟨n, here⟩ := first
  obtain ⟨k, there⟩ := second
  have later (i j : Nat) (t : σ) (rest : step t = t) (reached : step^[i] s = t) : step^[j + i] s = t := by
    rw [iterate_add_apply, reached, iterate_fixed rest]
  rcases Nat.le_total n k with le | le
  · refine ⟨_, here, ?_⟩
    have same := later n (k - n) _ (rests _ here) rfl
    rw [Nat.sub_add_cancel le] at same
    rwa [← same]
  · refine ⟨_, ?_, there⟩
    have same := later k (n - k) _ (rests' _ there) rfl
    rw [Nat.sub_add_cancel le] at same
    rwa [← same]

end Myctk.Lib
