import Myctk.Robims.FileSpec

/-! The mapping of ids over any number of calls, and over a file. -/

namespace Myctk.Robims

open List Option Prod Lib Lib.Stream
open Lib.Assoc

namespace IDMapping

def getLocalIDs (m : IDMapping) : List Text → Option (List UInt32 × IDMapping)
  | [] => some ([], m)
  | id :: ids => do
    let (localId, m) ← m.getLocalID id true
    let (localIds, m) ← m.getLocalIDs ids
    return (localId :: localIds, m)

def numberOf (m : IDMapping) (id : Text) : Option UInt32 := (m.getLocalID id false).map fst

def reload (P : Platform) (m : IDMapping) : Option IDMapping := do
  let file ← m.save P
  match (empty.load.run file).1 with
  | .ok m' => some m'
  | .error _ => none

structure Bijection (m : IDMapping) (ids : List Text) : Prop where
  known : ∀ id, (m.numberOf id).isSome ↔ id ∈ ids
  inverse : ∀ id localId, m.numberOf id = some localId ↔ m.getID localId = some id

def Restored (P : Platform) (m : IDMapping) (ids : List Text) : Prop :=
  ∃ m', m.reload P = some m' ∧ (∀ id, m'.numberOf id = m.numberOf id) ∧ (∀ localId, m'.getID localId = m.getID localId) ∧
    ∀ more : List Text, (ids ++ more).toFinset.card < 2 ^ 32 → ∃ localIds m'', m'.getLocalIDs more = some (localIds, m'') ∧
      m''.Bijection (ids ++ more) ∧ (∀ call ∈ more.zip localIds, m''.numberOf call.1 = some call.2) ∧
      (∀ id ∈ ids, m''.numberOf id = m.numberOf id) ∧
      ∀ id localId, id ∉ ids → m''.numberOf id = some localId → m.getID localId = none

variable {P : Platform} {m m' : IDMapping} {id : Text} {ids : List Text} {localId : UInt32}

lemma numberOf_eq (m : IDMapping) (id : Text) : m.numberOf id = get id m.realLocal := by
  rw [numberOf, getLocalID]
  cases get id m.realLocal <;> rfl

structure Knows (m : IDMapping) (ids : List Text) : Prop where
  sound : m.Sound
  keys : ∀ id, id ∈ m.realLocal.map fst ↔ id ∈ ids

lemma knows_empty : empty.Knows [] := ⟨sound_empty, fun _ => Iff.rfl⟩

lemma Knows.length (knows : m.Knows ids) : m.realLocal.length = ids.toFinset.card := by
  have same : (m.realLocal.map fst).toFinset = ids.toFinset := by
    ext id
    rw [List.mem_toFinset, List.mem_toFinset, knows.keys]
  rw [← same, toFinset_card_of_nodup knows.sound.nodup, length_map]

lemma Knows.bijection (knows : m.Knows ids) (few : ids.toFinset.card < 2 ^ 32) : m.Bijection ids := by
  have twoWay := knows.sound.twoWay (knows.length ▸ few)
  refine ⟨fun id => ?_, fun id localId => ?_⟩
  · rw [numberOf_eq, isSome_get, knows.keys]
  · rw [numberOf_eq, get_eq_some knows.sound.nodup]
    exact (twoWay.inverse localId id).symm

lemma Knows.getLocalID (knows : m.Knows ids) (id : Text) : ∃ localId m', m.getLocalID id true = some (localId, m') ∧
    m'.Knows (ids ++ [id]) ∧ m'.numberOf id = some localId ∧ ∀ old ∈ ids, m'.numberOf old = m.numberOf old := by
  have call : ∃ localId m', m.getLocalID id true = some (localId, m') ∧ m'.numberOf id = some localId := by
    rw [IDMapping.getLocalID]
    cases known : get id m.realLocal with
    | some old => exact ⟨old, m, rfl, (numberOf_eq m id).trans known⟩
    | none => exact ⟨_, _, rfl, by rw [numberOf_eq, get_alter_self]⟩
  obtain ⟨localId, m', found, number⟩ := call
  refine ⟨localId, m', found, ⟨knows.sound.getLocalID found, fun i => ?_⟩, number, fun old before => ?_⟩
  · have here : id ∈ m'.realLocal.map fst := by
      rw [← isSome_get, ← numberOf_eq, number]
      rfl
    rcases getLocalID_cases found with rfl | ⟨absent, -, real', -⟩
    · rw [mem_append, mem_singleton, knows.keys]
      exact ⟨.inl, fun either => either.elim (fun old => old) fun same => same ▸ (knows.keys id).mp here⟩
    · rw [real', map_append, mem_append, mem_append, knows.keys]
      rfl
  · rcases getLocalID_cases found with rfl | ⟨absent, -, real', -⟩
    · rfl
    · have other : id ≠ old := fun same => absent ((knows.keys id).mpr (same ▸ before))
      rw [numberOf_eq, numberOf_eq, real', ← alter_of_absent absent (fun _ => m.idSeed), get_alter_ne other]

lemma Knows.getLocalIDs (knows : m.Knows ids) (more : List Text) : ∃ localIds m', m.getLocalIDs more = some (localIds, m') ∧
    m'.Knows (ids ++ more) ∧ (∀ call ∈ more.zip localIds, m'.numberOf call.1 = some call.2) ∧
    ∀ old ∈ ids, m'.numberOf old = m.numberOf old := by
  induction more generalizing m ids with
  | nil => exact ⟨[], m, rfl, (append_nil ids).symm ▸ knows, fun _ none => (nomatch none), fun _ _ => rfl⟩
  | cons id more ih =>
    obtain ⟨localId, m1, first, knows1, number, kept1⟩ := knows.getLocalID id
    obtain ⟨localIds, m', rest, knows', numbers, kept⟩ := ih knows1
    have called : m.getLocalIDs (id :: more) = some (localId :: localIds, m') := by
      rw [IDMapping.getLocalIDs, first]
      exact congrArg (· >>= _) rest
    rw [append_assoc] at knows'
    refine ⟨localId :: localIds, m', called, knows', fun call member => ?_, fun old before => ?_⟩
    · rcases mem_cons.mp member with rfl | later
      · exact (kept id (mem_append_right _ (mem_singleton_self id))).trans number
      · exact numbers call later
    · exact (kept old (mem_append_left _ before)).trans (kept1 old before)

lemma length_fileReadString {b rest : Bytes} {s : Text} (ok : fileReadString.run b = (.ok s, rest)) : s.length < 2 ^ 32 := by
  obtain ⟨size, mid, number, item⟩ := run_bind_eq_ok ok
  obtain ⟨bytes, mid', four, same⟩ := run_bind_eq_ok number
  have read : ∀ {n : Nat} {b rest : Bytes} {s : Text}, (fread n).run b = (.ok s, rest) → s.length = n := by
    intro n b rest s ok
    change (if n = 0 then _ else if b.length < n then _ else _) = _ at ok
    split_ifs at ok with zero short
    · cases ok
    · cases ok
    · cases ok
      rw [length_take]
      omega
  cases same
  rw [read item]
  have bound := beNat_lt bytes
  rwa [read four] at bound

lemma length_of_load {b rest : Bytes} (ok : empty.load.run b = (.ok m', rest)) : ∀ id ∈ m'.realLocal.map fst, id.length < 2 ^ 32 := by
  obtain ⟨seed, mid, -, ok⟩ := run_bind_eq_ok ok
  obtain ⟨n, mid', -, ok⟩ := run_bind_eq_ok ok
  obtain ⟨entries, mid'', read, ok⟩ := run_bind_eq_ok ok
  cases ok
  have short : ∀ e ∈ entries, e.1.length < 2 ^ 32 := forall_mem_many (fun {b rest e} ok => by
    obtain ⟨localId, mid, -, ok⟩ := run_bind_eq_ok ok
    obtain ⟨realId, mid', read, ok⟩ := run_bind_eq_ok ok
    cases ok
    exact length_fileReadString read) read
  intro id member
  rw [realLocal_enter] at member
  obtain ⟨e, known, rfl⟩ := mem_map.mp ((mem_map_fst_foldl_alter member).resolve_left (not_mem_nil))
  exact short e known

lemma load_of_reload (loaded : m.reload P = some m') : ∃ file rest, m.save P = some file ∧ empty.load.run file = (.ok m', rest) := by
  obtain ⟨file, saved, loaded⟩ := bind_eq_some_iff.mp loaded
  split at loaded
  case h_1 read =>
    cases loaded
    exact ⟨file, _, saved, Prod.ext read rfl⟩
  case h_2 => cases loaded

lemma Same.numberOf (sound : m.Sound) (same : m.Same m') (id : Text) : m'.numberOf id = m.numberOf id := by
  rw [numberOf_eq, numberOf_eq]
  exact (get_perm sound.nodup same.realLocal.symm id).symm

lemma Knows.same (knows : m.Knows ids) (same : m.Same m') : m'.Knows ids :=
  ⟨knows.sound.same same, fun id => by rw [(same.realLocal.map fst).mem_iff, knows.keys]⟩

lemma Knows.restored_iff (knows : m.Knows ids) (few : ids.toFinset.card < 2 ^ 32) :
    m.Restored P ids ↔ ∀ id ∈ ids, id ≠ [] ∧ id.length < 2 ^ 32 := by
  constructor
  · rintro ⟨m', loaded, numbers, -⟩ id member
    obtain ⟨file, rest, saved, read⟩ := load_of_reload loaded
    refine ⟨fun empty => ?_, length_of_load read id ?_⟩
    · have named := (isSome_save knows.sound).mp (isSome_of_mem saved)
      exact named ((knows.keys []).mpr (empty ▸ member))
    · rw [← isSome_get, ← numberOf_eq, numbers, numberOf_eq, isSome_get, knows.keys]
      exact member
  · intro proper
    have short : ∀ e ∈ m.realLocal, e.1.length < 2 ^ 32 := fun e member =>
      (proper e.1 ((knows.keys e.1).mp (mem_map_of_mem member))).2
    obtain ⟨m', reads, same⟩ := reads_mapping knows.sound (knows.length ▸ few) short (P := P)
    obtain ⟨file, saved⟩ := isSome_iff_exists.mp ((isSome_save knows.sound).mpr fun member =>
      (proper [] ((knows.keys []).mp member)).1 rfl)
    have read := reads file saved []
    rw [append_nil] at read
    refine ⟨m', ?_, same.numberOf knows.sound, same.getID, fun more few' => ?_⟩
    · rw [reload, saved]
      simp [bind_eq_bind, bind_some, read]
    · obtain ⟨localIds, m'', called, knows'', numbers, kept⟩ := (knows.same same).getLocalIDs more
      have bijection := knows''.bijection few'
      have kept' : ∀ id ∈ ids, m''.numberOf id = m.numberOf id := fun id before =>
        (kept id before).trans (same.numberOf knows.sound id)
      refine ⟨localIds, m'', called, bijection, numbers, kept', fun id localId new number => ?_⟩
      by_contra taken
      obtain ⟨old, before⟩ := ne_none_iff_exists'.mp taken
      have number' := ((knows.bijection few).inverse old localId).mpr before
      have known : old ∈ ids := ((knows.bijection few).known old).mp (isSome_of_mem number')
      -- both ids have the number in the mapping at the end
      have first := (bijection.inverse old localId).mp ((kept' old known).trans number')
      have second := (bijection.inverse id localId).mp number
      exact new (some.inj (second.symm.trans first) ▸ known)

/-- The ids that were seen and their numbers correspond to each other, each call gave the number that the id has in the end, and the
    mapping is found again in a file exactly if each id has bytes, and fewer of them than 32 bits can count. -/
theorem bijection_and_restored_iff (P : Platform) (ids : List Text) (few : ids.toFinset.card < 2 ^ 32) :
    ∃ localIds m, empty.getLocalIDs ids = some (localIds, m) ∧ m.Bijection ids ∧
      (∀ call ∈ ids.zip localIds, m.numberOf call.1 = some call.2) ∧
      (m.Restored P ids ↔ ∀ id ∈ ids, id ≠ [] ∧ id.length < 2 ^ 32) := by
  obtain ⟨localIds, m, called, knows, numbers, -⟩ := knows_empty.getLocalIDs ids
  rw [nil_append] at knows
  exact ⟨localIds, m, called, knows.bijection few, numbers, knows.restored_iff few⟩

lemma getLocalIDs_singleton (id : Text) : empty.getLocalIDs [id] = some ([0], ⟨1, [(id, 0)], [(0, id)]⟩) := rfl

theorem long_id_not_restored :
    ∃ m, empty.getLocalIDs [List.replicate (2 ^ 32) 0] = some ([0], m) ∧ m.numberOf (List.replicate (2 ^ 32) 0) = some 0 ∧
      (m.save samplePlatform).isSome ∧
      ∀ m', m.reload samplePlatform = some m' → m'.numberOf (List.replicate (2 ^ 32) 0) = none := by
  obtain ⟨id, long⟩ : ∃ id : Text, replicate (2 ^ 32) 0 = id := ⟨_, rfl⟩
  have size : id.length = 2 ^ 32 := by rw [← long, length_replicate]
  rw [long]
  obtain ⟨localIds, m, called, knows, -⟩ := knows_empty.getLocalIDs [id]
  rw [getLocalIDs_singleton] at called
  cases called
  refine ⟨_, getLocalIDs_singleton id, ?_, ?_, fun m' loaded => ?_⟩
  · rw [numberOf_eq, Lib.Assoc.get, if_pos rfl]
  · refine (isSome_save knows.sound).mpr fun member => ?_
    have empty : id = [] := (mem_singleton.mp member).symm
    rw [empty, length_nil] at size
    exact absurd size (by decide)
  · obtain ⟨file, rest, -, read⟩ := load_of_reload loaded
    by_contra known
    rw [← ne_eq, ne_none_iff_isSome, numberOf_eq, isSome_get] at known
    have short := length_of_load read id known
    rw [size] at short
    exact lt_irrefl _ short

theorem bijection_and_restored_iff_sample : ∃ m, empty.getLocalIDs [[97], [98], [97]] = some ([0, 1, 0], m) ∧
    m.Bijection [[97], [98], [97]] ∧ m.Restored samplePlatform [[97], [98], [97]] := by
  obtain ⟨localIds, m, called, bijection, -, restored⟩ :=
    bijection_and_restored_iff samplePlatform [[97], [98], [97]] (by decide)
  cases called
  exact ⟨_, rfl, bijection, restored.mpr (by decide)⟩

end IDMapping

end Myctk.Robims
