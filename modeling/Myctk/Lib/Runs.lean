import Mathlib.Tactic

/-! Loops as programs. A pass of a loop goes on with a new state or leaves with a result; `loop` makes as
    many passes as its fuel allows, and `Leaves` says that some fuel is enough. -/

namespace Myctk.Lib

variable {σ ρ : Type}

/-- At most `fuel` passes of `body`, from the given state; `none` when that is not enough to leave. -/
def loop (body : σ → σ ⊕ ρ) : Nat → σ → Option ρ
  | 0, _ => none
  | fuel + 1, s =>
    match body s with
    | .inl s' => loop body fuel s'
    | .inr r => some r

/-- The loop ends, with result `r`. -/
def Leaves (body : σ → σ ⊕ ρ) (s : σ) (r : ρ) : Prop := ∃ fuel, loop body fuel s = some r

variable {body : σ → σ ⊕ ρ} {s s' : σ} {r : ρ}

@[simp] lemma loop_zero : loop body 0 s = none := rfl

lemma loop_inl {fuel : Nat} (h : body s = .inl s') : loop body (fuel + 1) s = loop body fuel s' := by
  simp [loop, h]

lemma loop_inr {fuel : Nat} (h : body s = .inr r) : loop body (fuel + 1) s = some r := by
  simp [loop, h]

lemma loop_mono {n m : Nat} (h : loop body n s = some r) (hle : n ≤ m) : loop body m s = some r := by
  induction n generalizing s m with
  | zero => cases h
  | succ n ih =>
    obtain ⟨m, rfl⟩ : ∃ k, m = k + 1 := ⟨m - 1, by omega⟩
    cases hb : body s with
    | inl s' =>
      rw [loop_inl hb] at h ⊢
      exact ih h (by omega)
    | inr r' =>
      rw [loop_inr hb] at h ⊢
      exact h

lemma leaves_inr (h : body s = .inr r) : Leaves body s r := ⟨1, loop_inr h⟩

lemma leaves_inl (h : body s = .inl s') : Leaves body s r ↔ Leaves body s' r := by
  constructor
  · rintro ⟨_ | n, hn⟩
    · cases hn
    · exact ⟨n, loop_inl h ▸ hn⟩
  · rintro ⟨n, hn⟩
    exact ⟨n + 1, (loop_inl h).trans hn⟩

lemma not_leaves_of_idle (h : body s = .inl s) : ¬ Leaves body s r := by
  rintro ⟨n, hn⟩
  induction n with
  | zero => cases hn
  | succ n ih => exact ih (loop_inl h ▸ hn)

lemma loop_exit {P : ρ → Prop} (hexit : ∀ s r, body s = .inr r → P r) {fuel : Nat} (h : loop body fuel s = some r) : P r := by
  induction fuel generalizing s with
  | zero => cases h
  | succ n ih =>
    cases hb : body s with
    | inl s' => exact ih (loop_inl hb ▸ h)
    | inr r' =>
      rw [loop_inr hb] at h
      exact Option.some.inj h ▸ hexit s r' hb

/-! Traces of events. -/

open List

variable {ε : Type} {allowed : List ε → ε → Prop} {events : List ε} {e : ε}

def Causal (allowed : List ε → ε → Prop) (events : List ε) : Prop :=
  ∀ before e after, events = before ++ e :: after → allowed before e

lemma causal_nil : Causal allowed [] := by
  intro before e after split
  simp at split

lemma causal_concat : Causal allowed (events ++ [e]) ↔ Causal allowed events ∧ allowed events e := by
  constructor
  · intro causal
    refine ⟨fun before e' after split => causal before e' (after ++ [e]) ?_, causal events e [] rfl⟩
    rw [split, append_assoc, cons_append]
  · rintro ⟨causal, last⟩ before e' after split
    rcases eq_nil_or_concat after with rfl | ⟨after, e'', rfl⟩
    · obtain ⟨rfl, same⟩ := append_inj' split rfl
      cases same
      exact last
    · rw [concat_eq_append, ← cons_append, ← append_assoc] at split
      exact causal before e' after (append_inj' split rfl).1

lemma forall_step_iff {keeps : List ε → Prop} {gives fit : List ε → ε → Prop}
    (step : ∀ done e, done ++ [e] <+: events → keeps done → (keeps (done ++ [e]) ∧ gives done e ↔ fit done e)) (start : keeps []) :
    (∀ done e, done ++ [e] <+: events → keeps (done ++ [e]) ∧ gives done e) ↔ ∀ done e, done ++ [e] <+: events → fit done e := by
  constructor
  · intro right done e here
    refine (step done e here ?_).mp (right done e here)
    rcases eq_nil_or_concat' done with rfl | ⟨earlier, e', rfl⟩
    · exact start
    · exact (right earlier e' ((prefix_append _ _).trans here)).1
  · intro fits
    have kept : ∀ done, done <+: events → keeps done := by
      intro done
      induction done using reverseRecOn with
      | nil => exact fun _ => start
      | append_singleton done e ih =>
        intro here
        exact ((step done e here (ih ((prefix_append _ _).trans here))).mpr (fits done e here)).1
    intro done e here
    exact (step done e here (kept done ((prefix_append _ _).trans here))).mpr (fits done e here)

lemma forall_prefix_iff {keeps : List ε → Prop} {fit : List ε → ε → Prop}
    (step : ∀ done e, done ++ [e] <+: events → keeps done → (keeps (done ++ [e]) ↔ fit done e)) (start : keeps []) :
    (∀ done, done <+: events → keeps done) ↔ ∀ done e, done ++ [e] <+: events → fit done e := by
  have steps : (∀ done e, done ++ [e] <+: events → keeps (done ++ [e]) ∧ True) ↔ ∀ done e, done ++ [e] <+: events → fit done e := by
    refine forall_step_iff (fun done e here kept => ?_) start
    rw [and_true]
    exact step done e here kept
  rw [← steps]
  constructor
  · exact fun kept done e here => ⟨kept _ here, trivial⟩
  · intro right done here
    rcases eq_nil_or_concat' done with rfl | ⟨earlier, e, rfl⟩
    · exact start
    · exact (right earlier e here).1

/-! Paths that come to a cycle, and induction along a relation where there is none. -/

open Relation

variable {α : Type} {r : α → α → Prop} {u v : α}

/-- A path from `u` leads to a cycle. -/
def Strays (r : α → α → Prop) (u : α) : Prop := ∃ w, ReflTransGen r u w ∧ TransGen r w w

lemma Strays.next (strays : Strays r u) : ∃ s, r u s ∧ Strays r s := by
  obtain ⟨w, path, cycle⟩ := strays
  rcases Relation.ReflTransGen.cases_head path with rfl | ⟨s, edge, rest⟩
  · obtain ⟨s, edge, back⟩ := Relation.TransGen.head'_iff.mp cycle
    exact ⟨s, edge, u, back, cycle⟩
  · exact ⟨s, edge, w, rest, cycle⟩

lemma induction_of_not_strays (finite : { w | ReflTransGen r v w }.Finite) (straight : ¬ Strays r v) {P : α → Prop}
    (step : ∀ u, ReflTransGen r v u → (∀ s, r u s → P s) → P u) : P v := by
  let after : α → α → Prop := fun s u => ReflTransGen r v u ∧ TransGen r u s
  have order : IsStrictOrder α after :=
    { irrefl := fun u cycle => straight ⟨u, cycle.1, cycle.2⟩
      trans := fun _ _ _ first second => ⟨second.1, second.2.trans first.2⟩ }
  have wellFounded : Set.WellFoundedOn { w | ReflTransGen r v w } after := finite.wellFoundedOn
  refine wellFounded.induction (P := P) (x := v) .refl fun u reached ih => step u reached fun s edge => ?_
  exact ih s (reached.tail edge) ⟨reached, .single edge⟩

end Myctk.Lib
