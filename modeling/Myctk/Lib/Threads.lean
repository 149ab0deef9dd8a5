import Mathlib.Data.Set.Lattice
import Mathlib.Order.CompletePartialOrder

/-! Threads that take turns. -/

namespace Myctk.Lib

open Relation Function

structure Threads (τ σ κ β : Type) where
  ready : τ → (τ → σ) → Prop
  step : τ → (τ → σ) → (κ → β) → σ × (κ → β)
  sees : τ → Set τ
  reads : τ → (τ → σ) → Set κ
  writes : τ → (τ → σ) → Set κ
  ready_congr : ∀ {t l l'}, (∀ u ∈ sees t, l u = l' u) → ready t l → ready t l'
  step_congr : ∀ {t l l'} (m), (∀ u ∈ sees t, l u = l' u) → step t l m = step t l' m
  frame : ∀ {t l k} (m), k ∉ writes t l → (step t l m).2 k = m k
  state_within : ∀ {t l m m'}, (∀ k ∈ reads t l, m k = m' k) → (step t l m).1 = (step t l m').1
  memory_within : ∀ {t l m m' k}, (∀ k ∈ reads t l, m k = m' k) → k ∈ writes t l → (step t l m).2 k = (step t l m').2 k

@[ext] structure Threads.State (τ σ κ β : Type) where
  threads : τ → σ
  memory : κ → β

namespace Threads

variable {τ σ κ β : Type} [DecidableEq τ] (x : Threads τ σ κ β)

def fire (t : τ) (c : State τ σ κ β) : State τ σ κ β where
  threads := Function.update c.threads t (x.step t c.threads c.memory).1
  memory := (x.step t c.threads c.memory).2

/-- Any thread of `turn` that is ready takes a step. -/
def Step (turn : Set τ) (c c' : State τ σ κ β) : Prop := ∃ t ∈ turn, x.ready t c.threads ∧ c' = x.fire t c

def Steps (turn : Set τ) : State τ σ κ β → State τ σ κ β → Prop := ReflTransGen (x.Step turn)

def Ended (c : State τ σ κ β) : Prop := ∀ t, ¬ x.ready t c.threads

structure Independent (l : τ → σ) (t u : τ) : Prop where
  unseen : t ∉ x.sees u
  unseeing : u ∉ x.sees t
  writes_reads : Disjoint (x.writes t l) (x.reads u l)
  reads_writes : Disjoint (x.reads t l) (x.writes u l)
  writes_writes : Disjoint (x.writes t l) (x.writes u l)

variable {x} {c c' d : State τ σ κ β} {l : τ → σ} {t u : τ} {turn : Set τ}

omit [DecidableEq τ] in
lemma Independent.symm (independent : x.Independent l t u) : x.Independent l u t :=
  ⟨independent.unseeing, independent.unseen, independent.reads_writes.symm, independent.writes_reads.symm,
    independent.writes_writes.symm⟩

lemma threads_fire_self : (x.fire t c).threads t = (x.step t c.threads c.memory).1 := update_self ..

lemma threads_fire_of_ne (different : u ≠ t) : (x.fire t c).threads u = c.threads u := update_of_ne different ..

lemma agree_fire (unseen : t ∉ x.sees u) (w : τ) (seen : w ∈ x.sees u) : c.threads w = (x.fire t c).threads w := by
  have different : w ≠ t := fun same => unseen (same ▸ seen)
  exact (threads_fire_of_ne different).symm

section
variable (independent : x.Independent c.threads t u)
include independent

lemma Independent.ready (ready : x.ready u c.threads) : x.ready u (x.fire t c).threads :=
  x.ready_congr (agree_fire independent.unseen) ready

lemma Independent.unread (k : κ) (read : k ∈ x.reads u c.threads) : (x.fire t c).memory k = c.memory k :=
  x.frame c.memory fun written => Set.disjoint_left.mp independent.writes_reads written read

lemma Independent.state_eq : (x.step u (x.fire t c).threads (x.fire t c).memory).1 = (x.step u c.threads c.memory).1 := by
  rw [← x.step_congr _ (agree_fire independent.unseen)]
  exact x.state_within independent.unread

end

open Classical in
lemma Independent.memory_eq (independent : x.Independent c.threads t u) (k : κ) :
    (x.step u (x.fire t c).threads (x.fire t c).memory).2 k =
      if k ∈ x.writes u c.threads then (x.step u c.threads c.memory).2 k else (x.step t c.threads c.memory).2 k := by
  rw [← x.step_congr _ (agree_fire independent.unseen)]
  split
  · next written => exact x.memory_within independent.unread written
  · next unwritten => exact x.frame _ unwritten

lemma Independent.comm (independent : x.Independent c.threads t u) (different : t ≠ u) :
    x.fire t (x.fire u c) = x.fire u (x.fire t c) := by
  refine State.ext ?_ (funext fun k => ?_)
  · show update (update _ u _) t _ = update (update _ t _) u _
    rw [independent.state_eq, independent.symm.state_eq, update_comm different.symm]
  · show (x.step t _ _).2 k = (x.step u _ _).2 k
    rw [independent.memory_eq, independent.symm.memory_eq]
    have disjoint : k ∈ x.writes t c.threads → k ∉ x.writes u c.threads := fun written =>
      Set.disjoint_left.mp independent.writes_writes written
    split_ifs with first second second
    · exact absurd second (disjoint first)
    · rfl
    · rfl
    · rw [x.frame _ first, x.frame _ second]

lemma Steps.invariant {P : State τ σ κ β → Prop} (run : x.Steps turn c c') (here : P c)
    (kept : ∀ c, ∀ t ∈ turn, x.ready t c.threads → P c → P (x.fire t c)) : P c' := by
  induction run with
  | refl => exact here
  | tail before last ih =>
    obtain ⟨t, member, ready, rfl⟩ := last
    exact kept _ t member ready ih

lemma exists_stuck (left : (τ → σ) → Nat)
    (decreases : ∀ (c : State τ σ κ β) (t : τ), x.ready t c.threads → left (x.fire t c).threads < left c.threads)
    (turn : Set τ) (c : State τ σ κ β) : ∃ c', x.Steps turn c c' ∧ ∀ t ∈ turn, ¬ x.ready t c'.threads := by
  induction n : left c.threads using Nat.strong_induction_on generalizing c with
  | _ n ih =>
    by_cases stuck : ∀ t ∈ turn, ¬ x.ready t c.threads
    · exact ⟨c, .refl, stuck⟩
    · push Not at stuck
      obtain ⟨t, member, ready⟩ := stuck
      obtain ⟨c', run, stuck⟩ := ih _ (n ▸ decreases c t ready) (x.fire t c) rfl
      exact ⟨c', run.head ⟨t, member, ready, rfl⟩, stuck⟩

lemma ended_unique {init : State τ σ κ β}
    (independent : ∀ c, x.Steps turn init c → ∀ t ∈ turn, ∀ u ∈ turn, t ≠ u → x.ready t c.threads → x.ready u c.threads →
      x.Independent c.threads t u)
    (run : x.Steps turn init c) (run' : x.Steps turn init c') (ended : x.Ended c) (ended' : x.Ended c') : c = c' := by
  -- the diamond is there for the states of the run only
  let step : State τ σ κ β → State τ σ κ β → Prop := fun a b => x.Steps turn init a ∧ x.Step turn a b
  have restrict : ∀ {a}, x.Steps turn init a → ReflTransGen step init a := by
    intro a run
    induction run with
    | refl => exact .refl
    | tail before last ih => exact ih.tail ⟨before, last⟩
  have stays : ∀ {a b}, x.Ended a → ReflTransGen step a b → a = b := by
    intro a b ended rest
    rcases ReflTransGen.cases_head rest with rfl | ⟨d, ⟨-, t, -, ready, -⟩, -⟩
    · rfl
    · exact absurd ready (ended t)
  have diamond : ∀ a b d, step a b → step a d → ∃ e, ReflGen step b e ∧ ReflTransGen step d e := by
    rintro a _ _ ⟨run, t, turnT, readyT, rfl⟩ ⟨-, u, turnU, readyU, rfl⟩
    rcases eq_or_ne t u with rfl | different
    · exact ⟨_, .refl, .refl⟩
    · have both := independent a run t turnT u turnU different readyT readyU
      refine ⟨x.fire u (x.fire t a), .single ⟨run.tail ⟨t, turnT, readyT, rfl⟩, u, turnU, both.ready readyU, rfl⟩, .single ?_⟩
      exact ⟨run.tail ⟨u, turnU, readyU, rfl⟩, t, turnT, both.symm.ready readyT, (both.comm different).symm⟩
  obtain ⟨e, left, right⟩ := church_rosser diamond (restrict run) (restrict run')
  rw [stays ended left, stays ended' right]

end Threads

end Myctk.Lib
