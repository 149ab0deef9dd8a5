import Mathlib.Tactic

/-! Cells that are taken from a pool and given back to it. A cell in the pool is empty. What a program leaves of the cells that
    it does not own is said by `Keeps`. -/

namespace Myctk.Lib

open List Function

/-- `free` are the cells of the pool, and no cell from `next` on was made. -/
structure Pool (α : Type) where
  mem : Nat → α
  free : List Nat
  next : Nat
  recycles : Bool

namespace Pool

variable {α : Type} [EmptyCollection α]

def acquire (p : Pool α) : Nat × Pool α :=
  match p.free with
  | a :: free => (a, { p with free })
  | [] => (p.next, { p with mem := Function.update p.mem p.next ∅, next := p.next + 1 })

def release (p : Pool α) (a : Nat) : Pool α :=
  if p.recycles then { p with mem := Function.update p.mem a ∅, free := p.free ++ [a] } else p

omit [EmptyCollection α] in
def onMem (p : Pool α) (f : (Nat → α) → Nat → α) : Pool α := { p with mem := f p.mem }

structure Sound (p : Pool α) : Prop where
  nodup : p.free.Nodup
  made : ∀ a ∈ p.free, a < p.next
  empty : ∀ a ∈ p.free, p.mem a = ∅

def Live (p : Pool α) (a : Nat) : Prop := a < p.next ∧ a ∉ p.free

structure Keeps (p p' : Pool α) (touched : Set Nat) : Prop where
  sound : p'.Sound
  kept : ∀ a, p.Live a → a ∉ touched → p'.Live a ∧ p'.mem a = p.mem a

variable {p p' p'' : Pool α} {a b : Nat} {touched touched' : Set Nat}

lemma Keeps.refl (sound : p.Sound) : p.Keeps p ∅ := ⟨sound, fun _ live _ => ⟨live, rfl⟩⟩

lemma Keeps.trans (first : p.Keeps p' touched) (second : p'.Keeps p'' touched')
    (within : ∀ a ∈ touched', p.Live a → a ∈ touched) : p.Keeps p'' touched := by
  refine ⟨second.sound, fun a live outside => ?_⟩
  obtain ⟨live', same⟩ := first.kept a live outside
  obtain ⟨live'', same'⟩ := second.kept a live' fun inside => outside (within a inside live)
  exact ⟨live'', same'.trans same⟩

lemma Keeps.live (keeps : p.Keeps p' touched) (live : p.Live a) (outside : a ∉ touched) : p'.Live a :=
  (keeps.kept a live outside).1

lemma Keeps.mem_eq (keeps : p.Keeps p' touched) (live : p.Live a) (outside : a ∉ touched) : p'.mem a = p.mem a :=
  (keeps.kept a live outside).2

structure Acquired (p : Pool α) (a : Nat) (p' : Pool α) : Prop where
  keeps : p.Keeps p' ∅
  fresh : ¬ p.Live a
  live : p'.Live a
  empty : p'.mem a = ∅

lemma acquired (sound : p.Sound) : p.Acquired p.acquire.1 p.acquire.2 := by
  rw [acquire]
  split
  case h_1 a free eq =>
    have nodup := sound.nodup
    rw [eq] at nodup
    obtain ⟨absent, nodup⟩ := nodup_cons.mp nodup
    have there : a ∈ p.free := by rw [eq]; exact mem_cons_self
    have rest : ∀ b ∈ free, b ∈ p.free := fun b member => by rw [eq]; exact mem_cons_of_mem a member
    refine ⟨⟨⟨nodup, fun b member => sound.made b (rest b member), fun b member => sound.empty b (rest b member)⟩, ?_⟩,
      fun live => live.2 there, ⟨sound.made a there, absent⟩, sound.empty a there⟩
    exact fun b live _ => ⟨⟨live.1, fun member => live.2 (rest b member)⟩, rfl⟩
  case h_2 eq =>
    have outside : ∀ b, b < p.next → b ≠ p.next := fun b lt same => Nat.lt_irrefl b (same ▸ lt)
    have sound' : Sound { p with mem := update p.mem p.next ∅, next := p.next + 1 } := by
      refine ⟨sound.nodup, fun b member => Nat.lt_succ_of_lt (sound.made b member), fun b member => ?_⟩
      exact (update_of_ne (outside b (sound.made b member)) _ _).trans (sound.empty b member)
    refine ⟨⟨sound', fun b live _ => ⟨⟨Nat.lt_succ_of_lt live.1, live.2⟩, ?_⟩⟩, fun live => outside _ live.1 rfl,
      ⟨Nat.lt_succ_self _, ?_⟩, update_self _ _ _⟩
    · exact update_of_ne (outside b live.1) _ _
    · exact fun member => outside _ (sound.made _ member) rfl

lemma keeps_release (sound : p.Sound) (live : p.Live a) : p.Keeps (p.release a) {a} := by
  rw [release]
  split
  case isFalse => exact ⟨sound, fun b live _ => ⟨live, rfl⟩⟩
  case isTrue =>
    have differs : ∀ b ∈ p.free, b ≠ a := fun b member same => live.2 (same ▸ member)
    refine ⟨⟨?_, fun b member => ?_, fun b member => ?_⟩, fun b live' outside => ?_⟩
    · show (p.free ++ [a]).Nodup
      rw [← concat_eq_append]
      exact List.Nodup.concat live.2 sound.nodup
    · rcases mem_append.mp member with old | new
      · exact sound.made b old
      · rw [mem_singleton.mp new]
        exact live.1
    · rcases mem_append.mp member with old | new
      · exact (update_of_ne (differs b old) _ _).trans (sound.empty b old)
      · rw [mem_singleton.mp new]
        exact update_self _ _ _
    · have other : b ≠ a := outside
      refine ⟨⟨live'.1, fun member => ?_⟩, update_of_ne other _ _⟩
      rcases mem_append.mp member with old | new
      · exact live'.2 old
      · exact other (mem_singleton.mp new)

lemma keeps_onMem (sound : p.Sound) {f : (Nat → α) → Nat → α} (live : ∀ a ∈ touched, p.Live a)
    (only : ∀ a, a ∉ touched → f p.mem a = p.mem a) : p.Keeps (p.onMem f) touched := by
  refine ⟨⟨sound.nodup, sound.made, fun a member => ?_⟩, fun a live' outside => ⟨live', only a outside⟩⟩
  exact (only a fun inside => (live a inside).2 member).trans (sound.empty a member)

end Pool

end Myctk.Lib
