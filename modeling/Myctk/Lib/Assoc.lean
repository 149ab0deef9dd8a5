import Mathlib.Data.List.Nodup

/-! Tables that are lists of keys and values. -/

namespace Myctk.Lib.Assoc

open List
open Prod hiding map map_map

variable {α β γ : Type} [DecidableEq α]

def get (k : α) : List (α × β) → Option β
  | [] => none
  | (k', v) :: m => if k' = k then some v else get k m

def alter (k : α) (f : Option β → β) : List (α × β) → List (α × β)
  | [] => [(k, f none)]
  | (k', v) :: m => if k' = k then (k', f (some v)) :: m else (k', v) :: alter k f m

def mapValues (f : β → γ) (m : List (α × β)) : List (α × γ) := m.map fun (k, v) => (k, f v)

def set (k : α) (v : Option β) (m : List (α × β)) : List (α × β) :=
  match v with
  | some v => alter k (fun _ => v) m
  | none => m.filter fun e => e.1 ≠ k

variable {k k' : α} {m : List (α × β)}

lemma get_alter (f : Option β → β) (m : List (α × β)) : get k' (alter k f m) = if k = k' then some (f (get k m)) else get k' m := by
  induction m with
  | nil => rfl
  | cons entry m ih =>
    obtain ⟨k0, v⟩ := entry
    simp only [alter, get]
    by_cases here : k0 = k
    · subst here
      rw [if_pos rfl, if_pos rfl, get]
      by_cases same : k0 = k'
      · rw [if_pos same, if_pos same]
      · rw [if_neg same, if_neg same, if_neg same]
    · rw [if_neg here, if_neg here, get, ih]
      by_cases same : k = k'
      · subst same
        rw [if_neg here, if_pos rfl, if_pos rfl]
      · rw [if_neg same, if_neg same]

lemma get_alter_self (f : Option β → β) (m : List (α × β)) : get k (alter k f m) = some (f (get k m)) := by
  rw [get_alter, if_pos rfl]

lemma get_alter_ne (other : k ≠ k') (f : Option β → β) (m : List (α × β)) : get k' (alter k f m) = get k' m := by
  rw [get_alter, if_neg other]

lemma get_filter_ne (m : List (α × β)) : get k' (m.filter fun e => e.1 ≠ k) = if k = k' then none else get k' m := by
  induction m with
  | nil => simp [get]
  | cons entry m ih =>
    obtain ⟨k0, v⟩ := entry
    by_cases here : k0 = k
    · subst here
      rw [filter_cons_of_neg (by simp), ih, get]
      by_cases same : k0 = k' <;> simp [same]
    · rw [filter_cons_of_pos (by simpa using here), get, ih, get]
      by_cases same : k = k'
      · subst same
        rw [if_neg here, if_pos rfl, if_pos rfl]
      · rw [if_neg same, if_neg same]

lemma get_set (v : Option β) (m : List (α × β)) : get k' (set k v m) = if k = k' then v else get k' m := by
  cases v with
  | none => exact get_filter_ne m
  | some v => exact get_alter _ m

lemma get_mapValues (f : β → γ) (m : List (α × β)) : get k (mapValues f m) = (get k m).map f := by
  induction m with
  | nil => rfl
  | cons entry m ih =>
    obtain ⟨k0, v⟩ := entry
    simp only [mapValues, map_cons, get]
    split
    · rfl
    · exact ih

lemma isSome_get : (get k m).isSome ↔ k ∈ m.map fst := by
  induction m with
  | nil => simp [get]
  | cons entry m ih =>
    obtain ⟨k0, v⟩ := entry
    rw [get, map_cons, mem_cons]
    split
    case isTrue same => simp [same]
    case isFalse other => rw [ih, or_iff_right (Ne.symm other)]

lemma map_fst_alter (f : Option β → β) (m : List (α × β)) :
    (alter k f m).map fst = if k ∈ m.map fst then m.map fst else m.map fst ++ [k] := by
  induction m with
  | nil => rfl
  | cons entry m ih =>
    obtain ⟨k0, v⟩ := entry
    rw [alter]
    split
    case isTrue same => simp [same]
    case isFalse other =>
      simp only [map_cons, ih, mem_cons, or_iff_right (Ne.symm other)]
      split <;> rfl

lemma nodup_alter (nodup : (m.map fst).Nodup) (f : Option β → β) : ((alter k f m).map fst).Nodup := by
  rw [map_fst_alter]
  split
  case isTrue => exact nodup
  case isFalse absent =>
    rw [← concat_eq_append]
    exact List.Nodup.concat absent nodup

lemma nodup_set (nodup : (m.map fst).Nodup) (v : Option β) : ((set k v m).map fst).Nodup := by
  cases v with
  | none => exact nodup.sublist (filter_sublist.map _)
  | some v => exact nodup_alter nodup _

variable {v : β} {entries : List (α × β)}

lemma mem_of_get (found : get k m = some v) : (k, v) ∈ m := by
  induction m with
  | nil => cases found
  | cons entry m ih =>
    obtain ⟨k0, v0⟩ := entry
    rw [get] at found
    split at found
    case isTrue same =>
      cases found
      rw [same]
      exact mem_cons_self
    case isFalse => exact mem_cons_of_mem _ (ih found)

section
variable (nodup : (m.map fst).Nodup)
include nodup

lemma get_of_mem (member : (k, v) ∈ m) : get k m = some v := by
  induction m with
  | nil => cases member
  | cons entry m ih =>
    obtain ⟨k0, v0⟩ := entry
    obtain ⟨absent, nodup⟩ := nodup_cons.mp nodup
    rw [get]
    rcases mem_cons.mp member with here | later
    · cases here
      exact if_pos rfl
    · have known : k ∈ m.map fst := mem_map.mpr ⟨(k, v), later, rfl⟩
      have other : k0 ≠ k := fun same => absent (by rw [same]; exact known)
      rw [if_neg other]
      exact ih nodup later

lemma get_eq_some : get k m = some v ↔ (k, v) ∈ m := ⟨mem_of_get, get_of_mem nodup⟩

lemma get_perm {m' : List (α × β)} (perm : m.Perm m') (k : α) : get k m = get k m' := by
  have nodup' : (m'.map fst).Nodup := (perm.map fst).nodup_iff.mp nodup
  ext v
  rw [get_eq_some nodup, get_eq_some nodup', perm.mem_iff]

lemma filterMap_get : ((m.map fst).filterMap fun k => (get k m).map fun v => (k, v)) = m := by
  rw [filterMap_map]
  refine (filterMap_congr fun entry member => ?_).trans filterMap_some
  show (get entry.1 m).map _ = some entry
  rw [get_of_mem nodup member, Option.map_some]

end

lemma get_foldl_alter (nodup : (entries.map fst).Nodup) (m : List (α × β)) (k : α) :
    get k (entries.foldl (fun m entry => alter entry.1 (fun _ => entry.2) m) m) = (get k entries).or (get k m) := by
  induction entries generalizing m with
  | nil => rfl
  | cons entry entries ih =>
    obtain ⟨k0, v0⟩ := entry
    obtain ⟨absent, nodup⟩ := nodup_cons.mp nodup
    rw [foldl_cons, ih nodup, get_alter, get]
    by_cases here : k0 = k
    · have none : get k entries = none := by
        rw [← Option.not_isSome_iff_eq_none, isSome_get]
        exact here ▸ absent
      rw [if_pos here, if_pos here, none]
      rfl
    · rw [if_neg here, if_neg here]

lemma alter_of_absent (absent : k ∉ m.map fst) (f : Option β → β) : alter k f m = m ++ [(k, f none)] := by
  induction m with
  | nil => rfl
  | cons entry m ih =>
    obtain ⟨k0, v⟩ := entry
    obtain ⟨other, absent⟩ := ne_and_not_mem_of_not_mem_cons absent
    rw [alter, if_neg (Ne.symm other), ih absent, cons_append]

lemma foldl_alter_of_nodup (nodup : ((m ++ entries).map fst).Nodup) :
    entries.foldl (fun m entry => alter entry.1 (fun _ => entry.2) m) m = m ++ entries := by
  induction entries generalizing m with
  | nil => exact (append_nil m).symm
  | cons entry entries ih =>
    have absent : entry.1 ∉ m.map fst := fun there => by
      rw [map_append, map_cons] at nodup
      exact disjoint_of_nodup_append nodup there mem_cons_self
    rw [foldl_cons, alter_of_absent absent, ih (by rwa [append_assoc]), append_assoc]
    rfl

lemma mem_map_fst_foldl_alter (member : k ∈ (entries.foldl (fun m entry => alter entry.1 (fun _ => entry.2) m) m).map fst) :
    k ∈ m.map fst ∨ k ∈ entries.map fst := by
  induction entries generalizing m with
  | nil => exact .inl member
  | cons entry entries ih =>
    rcases ih member with before | later
    · rw [map_fst_alter] at before
      split at before
      case isTrue => exact .inl before
      case isFalse =>
        rcases mem_append.mp before with before | here
        · exact .inl before
        · exact .inr (mem_singleton.mp here ▸ mem_cons_self)
    · exact .inr (mem_cons_of_mem _ later)

omit [DecidableEq α] in
lemma map_fst_mapValues (f : β → γ) (m : List (α × β)) : (mapValues f m).map fst = m.map fst := by
  rw [mapValues, map_map]
  rfl

end Myctk.Lib.Assoc
