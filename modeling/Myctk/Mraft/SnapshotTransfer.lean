import Myctk.Lib.Extents
import Myctk.Mraft.PbFile
import Myctk.Lib.Countable

/-! Snapshots (`mraft/snapshot.cpp`): a directory of files and a record of their names and sizes. A snapshot is sent in chunks, which
    are addressed by an offset into all its files. -/

namespace Myctk.Mraft
open Function Lib

abbrev Dir := String → Option Bytes

structure SnapshotFileMeta where
  name : String
  size : Nat
  deriving DecidableEq

abbrev SnapshotMeta := List SnapshotFileMeta

def kSnapshotMeta : String := "snapshot_meta"

/-- An object of the source, and the directory that it is of. -/
structure Snapshot where
  dir : Dir
  fileMetas : SnapshotMeta
  files : List (Option String)

namespace Snapshot

variable (c : Codec SnapshotMeta) (s : Snapshot)

def new (dir : Dir) : Snapshot := ⟨dir, [], []⟩

def size : Nat := (s.fileMetas.map SnapshotFileMeta.size).sum

def syncMeta : Snapshot := { s with dir := update s.dir kSnapshotMeta (some (pbWriteFile c s.fileMetas)) }

/-- `GetWritableFile`, the content that is written to the file, and `Add` once the file is closed. -/
def saveFile (name : String) (content : Bytes) : Snapshot :=
  syncMeta c { s with dir := update s.dir name (some content), fileMetas := s.fileMetas ++ [⟨name, content.length⟩] }

def openFiles : SnapshotMeta → Snapshot → Snapshot
  | [], s => s
  | f :: rest, s =>
    openFiles rest <|
      if (s.dir f.name).isSome then { s with dir := update s.dir f.name (some []), files := s.files ++ [some f.name] }
      else { s with files := s.files ++ [none] }

def openRecord : Snapshot × Int :=
  if s.fileMetas = [] then (s, -1) else (openFiles s.fileMetas s, 0)

def openWith : Option SnapshotMeta → Snapshot × Int
  | some m => (syncMeta c { s with fileMetas := m }).openRecord
  | none =>
    match s.dir kSnapshotMeta with
    | none => s.openRecord
    | some file =>
      match pbReadFile c file with
      | none => (s, -1)
      | some m => openRecord { s with fileMetas := m }

def getFileByOffset (offset : Nat) : Option (Nat × Nat) :=
  Lib.Extents.locate offset 0 0 (s.fileMetas.map SnapshotFileMeta.size)

def maxChunkSize : Nat := 32 * 1024

/-- What `Read` gives: an error, pages that the file does not have, or a chunk and whether it is the last one. -/
inductive Chunk where
  | error
  | trap
  | data (bytes : Bytes) (last : Bool)
  deriving DecidableEq

def read (offset : Nat) : Chunk :=
  match s.getFileByOffset offset with
  | none => .error
  | some (i, start) =>
    match s.fileMetas[i]? with
    | none => .error
    | some f =>
      let count := min maxChunkSize (f.size - (offset - start))
      match s.dir f.name with
      | none => .error
      | some content =>
        if content.length < offset - start + count then .trap
        else .data ((content.drop (offset - start)).take count) (i + 1 = s.files.length ∧ offset + count = s.size)

def write (offset : Nat) (data : Bytes) : Snapshot × Int :=
  match s.getFileByOffset offset with
  | none => (s, -1)
  | some (i, start) =>
    match s.files[i]? with
    | some (some name) =>
      let content := Lib.Extents.patch 0 ((s.dir name).getD []) (offset - start) data
      ({ s with dir := update s.dir name (some content) }, 0)
    | _ => (s, -1)

def sendChunk (sender receiver : Snapshot) (offset : Nat) : Snapshot :=
  match sender.read offset with
  | .data bytes _ => (receiver.write offset bytes).1
  | _ => receiver

def chunkOffsets (sender : Snapshot) : Nat → Nat → List Nat
  | 0, _ => []
  | fuel + 1, offset =>
    match sender.read offset with
    | .data bytes _ => offset :: chunkOffsets sender fuel (offset + bytes.length)
    | _ => []

end Snapshot

/-! What becomes of the files of a snapshot that is sent to another node, or opened. -/

open List Option Prod Lib.Extents Snapshot Extents
open SnapshotFileMeta hiding size

def recordOf (files : List (String × Bytes)) : SnapshotMeta := files.map fun f => ⟨f.1, f.2.length⟩

structure SavedSnapshot (c : Codec SnapshotMeta) where
  files : List (String × Bytes)
  distinct : (files.map fst).Nodup
  unreserved : kSnapshotMeta ∉ files.map fst
  small : ∀ f ∈ files, f.2.length < 2 ^ 63
  encoded : (c.encode (recordOf files)).length < 2 ^ 32

variable {c : Codec SnapshotMeta}

def saveFiles (c : Codec SnapshotMeta) (s : Snapshot) (files : List (String × Bytes)) : Snapshot :=
  files.foldl (fun s f => s.saveFile c f.1 f.2) s

def SavedSnapshot.object (S : SavedSnapshot c) (old : Dir) : Snapshot := saveFiles c (.new old) S.files

section
variable {files : List (String × Bytes)} {s : Snapshot} {name : String}

lemma saveFiles_record (files : List (String × Bytes)) (s : Snapshot) :
    (saveFiles c s files).fileMetas = s.fileMetas ++ recordOf files ∧ (saveFiles c s files).files = s.files := by
  induction files generalizing s with
  | nil => exact ⟨(append_nil _).symm, rfl⟩
  | cons f files ih =>
    obtain ⟨record, handles⟩ := ih (s.saveFile c f.1 f.2)
    refine ⟨?_, handles⟩
    rw [saveFiles, foldl_cons]
    exact record.trans (append_assoc _ _ _)

lemma saveFiles_other (other : name ≠ kSnapshotMeta) (absent : name ∉ files.map fst) :
    (saveFiles c s files).dir name = s.dir name := by
  induction files generalizing s with
  | nil => rfl
  | cons f files ih =>
    obtain ⟨differ, absent⟩ := ne_and_not_mem_of_not_mem_cons absent
    rw [saveFiles, foldl_cons]
    refine (ih absent).trans ?_
    exact (update_of_ne other _ _).trans (update_of_ne differ _ _)

lemma saveFiles_dir (distinct : (files.map fst).Nodup) (unreserved : kSnapshotMeta ∉ files.map fst) :
    ∀ f ∈ files, (saveFiles c s files).dir f.1 = some f.2 := by
  induction files generalizing s with
  | nil => exact fun _ none => (nomatch none)
  | cons f files ih =>
    obtain ⟨absent, distinct⟩ := nodup_cons.mp distinct
    obtain ⟨other, unreserved⟩ := ne_and_not_mem_of_not_mem_cons unreserved
    intro g member
    rw [saveFiles, foldl_cons]
    rcases mem_cons.mp member with rfl | later
    · refine (saveFiles_other other.symm absent).trans ?_
      exact (update_of_ne other.symm _ _).trans (update_self ..)
    · exact ih distinct unreserved g later

lemma saveFiles_meta (some : files ≠ []) :
    (saveFiles c s files).dir kSnapshotMeta = Option.some (pbWriteFile c (s.fileMetas ++ recordOf files)) := by
  obtain ⟨before, last, rfl⟩ := (List.eq_nil_or_concat files).resolve_left some
  rw [concat_eq_append, saveFiles, foldl_append, foldl_cons, foldl_nil]
  have record : (before.foldl (fun s f => s.saveFile c f.1 f.2) s).fileMetas = s.fileMetas ++ recordOf before :=
    (saveFiles_record before s).1
  have wrote : ∀ s : Snapshot, (s.saveFile c last.1 last.2).dir kSnapshotMeta =
      Option.some (pbWriteFile c (s.fileMetas ++ [⟨last.1, last.2.length⟩])) := by
    intro s
    simp [saveFile, syncMeta, update_self]
  rw [wrote, record, recordOf, recordOf, map_append, append_assoc]
  rfl

end

section
variable {metas : SnapshotMeta} {s : Snapshot}

lemma openFiles_spec (metas : SnapshotMeta) (s : Snapshot) : (∀ name, (openFiles metas s).dir name =
      if name ∈ metas.map SnapshotFileMeta.name ∧ (s.dir name).isSome then some [] else s.dir name) ∧
    (openFiles metas s).files = s.files ++ metas.map (fun f => if (s.dir f.name).isSome then some f.name else none) ∧
    (openFiles metas s).fileMetas = s.fileMetas := by
  induction metas generalizing s with
  | nil => exact ⟨fun _ => rfl, (append_nil _).symm, rfl⟩
  | cons f metas ih =>
    rw [openFiles]
    split
    case isTrue there =>
      obtain ⟨dir, handles, record⟩ := ih { s with dir := update s.dir f.name (some []), files := s.files ++ [some f.name] }
      have known : ∀ name, (update s.dir f.name (some []) name).isSome = (s.dir name).isSome := by
        intro name
        rcases eq_or_ne name f.name with rfl | other
        · rw [update_self, there]
          rfl
        · rw [update_of_ne other]
      refine ⟨fun name => ?_, ?_, record⟩
      · rw [dir]
        simp only [known]
        rcases eq_or_ne name f.name with rfl | other
        · rw [update_self, ite_self, if_pos ⟨mem_cons_self, there⟩]
        · simp only [update_of_ne other, map_cons, mem_cons, other, false_or]
      · rw [handles]
        simp only [known, map_cons, there, if_true, append_assoc, cons_append, nil_append]
    case isFalse absent =>
      obtain ⟨dir, handles, record⟩ := ih { s with files := s.files ++ [none] }
      refine ⟨fun name => ?_, ?_, record⟩
      · rw [dir]
        rcases eq_or_ne name f.name with rfl | other
        · rw [if_neg fun both => absent both.2, if_neg fun both => absent both.2]
        · simp only [map_cons, mem_cons, other, false_or]
      · rw [handles]
        simp only [map_cons, if_neg absent, append_assoc, cons_append, nil_append]

end

section
variable {S : SavedSnapshot c} {old there : Dir}

lemma SavedSnapshot.object_record (S : SavedSnapshot c) (old : Dir) :
    (S.object old).fileMetas = recordOf S.files ∧ (S.object old).files = [] :=
  saveFiles_record S.files (.new old)

lemma SavedSnapshot.object_dir (S : SavedSnapshot c) (old : Dir) {f : String × Bytes} (member : f ∈ S.files) :
    (S.object old).dir f.1 = some f.2 :=
  saveFiles_dir S.distinct S.unreserved f member

lemma map_name_recordOf (files : List (String × Bytes)) : (recordOf files).map name = files.map fst := by
  rw [recordOf, List.map_map]
  rfl

lemma openWith_unread {dir : Dir} {file : Bytes} (record : dir kSnapshotMeta = some file) (read : pbReadFile c file = none) :
    (new dir).openWith c none = (new dir, -1) := by
  rw [openWith, show (new dir).dir kSnapshotMeta = _ from record]
  simp [read]

lemma openWith_read {dir : Dir} {file : Bytes} {metas : SnapshotMeta} (record : dir kSnapshotMeta = some file)
    (read : pbReadFile c file = some metas) : (new dir).openWith c none = openRecord ⟨dir, metas, []⟩ := by
  rw [openWith, show (new dir).dir kSnapshotMeta = _ from record]
  simp only [read]
  rfl

lemma SavedSnapshot.opened_dir_iff (S : SavedSnapshot c) (old : Dir) {f : String × Bytes} (member : f ∈ S.files) :
    ((new (S.object old).dir).openWith c none).1.dir f.1 = some f.2 ↔
      ∀ metas, pbReadFile c (pbWriteFile c (recordOf S.files)) = some metas → f.1 ∈ metas.map name → f.2 = [] := by
  have record : (S.object old).dir kSnapshotMeta = some (pbWriteFile c (recordOf S.files)) :=
    saveFiles_meta (ne_nil_of_mem member)
  have content := S.object_dir old member
  have present : ((S.object old).dir f.1).isSome := by rw [content]; rfl
  cases read : pbReadFile c (pbWriteFile c (recordOf S.files)) with
  | none =>
    rw [openWith_unread record read]
    exact iff_of_true content fun _ none => (nomatch none)
  | some metas =>
    rw [openWith_read record read, openRecord]
    simp only [some.injEq, forall_eq']
    by_cases named : f.1 ∈ metas.map name
    · have some : metas ≠ [] := by
        rintro rfl
        cases named
      rw [if_neg some, (openFiles_spec _ _).1, if_pos ⟨named, present⟩, some_inj, eq_comm]
      exact ⟨fun same _ => same, fun same => same named⟩
    · refine iff_of_true ?_ fun there => absurd there named
      split
      · exact content
      · rw [(openFiles_spec _ _).1, if_neg fun both => named both.1]
        exact content

end

section
variable {files : List (String × Bytes)} {k o : Nat} {f : String × Bytes}

def start (files : List (String × Bytes)) (k : Nat) : Nat := base (files.map fun f => f.2.length) k

lemma sizes_recordOf (files : List (String × Bytes)) :
    (recordOf files).map SnapshotFileMeta.size = files.map fun f => f.2.length := by
  rw [recordOf, List.map_map]
  rfl

lemma getElem?_recordOf (there : files[k]? = some f) : (recordOf files)[k]? = some ⟨f.1, f.2.length⟩ := by
  rw [recordOf, getElem?_map, there]
  rfl

lemma start_succ (there : files[k]? = some f) : start files (k + 1) = start files k + f.2.length :=
  base_succ (by rw [getElem?_map, there]; rfl)

lemma start_unique {j : Nat} {g : String × Bytes} (here : files[k]? = some f) (there : files[j]? = some g)
    (after : start files k ≤ o) (before : o < start files k + f.2.length) (after' : start files j ≤ o)
    (before' : o < start files j + g.2.length) : j = k := by
  have next := start_succ here
  have next' := start_succ there
  rcases lt_trichotomy j k with lt | same | gt
  · have mono : start files (j + 1) ≤ start files k := base_mono _ lt
    omega
  · exact same
  · have mono : start files (k + 1) ≤ start files j := base_mono _ gt
    omega

lemma getFileByOffset_eq {s : Snapshot} (record : s.fileMetas = recordOf files) {b : Nat} : s.getFileByOffset o = some (k, b) ↔
      b = start files k ∧ ∃ f, files[k]? = some f ∧ b ≤ o ∧ o < b + f.2.length := by
  rw [getFileByOffset, record, sizes_recordOf, locate_eq_some]
  refine and_congr_right fun _ => ⟨?_, ?_⟩
  · rintro ⟨size, there, rest⟩
    rw [getElem?_map] at there
    obtain ⟨f, found, rfl⟩ := map_eq_some_iff.mp there
    exact ⟨f, found, rest⟩
  · rintro ⟨f, found, rest⟩
    exact ⟨f.2.length, by rw [getElem?_map, found]; rfl, rest⟩

def chunkAt (content : Bytes) (pos : Nat) : Bytes := (content.drop pos).take (min maxChunkSize (content.length - pos))

lemma length_chunkAt (content : Bytes) (pos : Nat) : (chunkAt content pos).length = min maxChunkSize (content.length - pos) := by
  rw [chunkAt, length_take, length_drop]
  omega

lemma getElem?_chunkAt {content : Bytes} {pos p : Nat} (inside : p < (chunkAt content pos).length) :
    (chunkAt content pos)[p]? = content[pos + p]? := by
  rw [length_chunkAt] at inside
  rw [chunkAt, getElem?_take_of_lt inside, getElem?_drop]

end

section
variable {files : List (String × Bytes)} {s : Snapshot} {S : SavedSnapshot c} {old : Dir} {k o : Nat} {f : String × Bytes}

lemma read_inside (record : s.fileMetas = recordOf files) (content : s.dir f.1 = some f.2) (there : files[k]? = some f)
    (after : start files k ≤ o) (before : o < start files k + f.2.length) : s.read o = .data (chunkAt f.2 (o - start files k))
      (k + 1 = s.files.length ∧ o + min maxChunkSize (f.2.length - (o - start files k)) = s.size) := by
  have located := (getFileByOffset_eq record).mpr ⟨rfl, f, there, after, before⟩
  have entry := record ▸ getElem?_recordOf there
  have enough : ¬ f.2.length < o - start files k + min maxChunkSize (f.2.length - (o - start files k)) := by omega
  rw [Snapshot.read]
  simp only [located, entry, content, if_neg enough]
  rfl

lemma SavedSnapshot.read_inside (S : SavedSnapshot c) (old : Dir) (there : S.files[k]? = some f) (after : start S.files k ≤ o)
    (before : o < start S.files k + f.2.length) : ∃ last, (S.object old).read o = .data (chunkAt f.2 (o - start S.files k)) last :=
  ⟨_, Mraft.read_inside (S.object_record old).1 (S.object_dir old (mem_of_getElem? there)) there after before⟩

lemma SavedSnapshot.read_cases {bytes : Bytes} {last : Bool} (S : SavedSnapshot c) (old : Dir)
    (read : (S.object old).read o = .data bytes last) : ∃ k f, S.files[k]? = some f ∧ start S.files k ≤ o ∧
      o < start S.files k + f.2.length ∧ bytes = chunkAt f.2 (o - start S.files k) := by
  cases located : (S.object old).getFileByOffset o with
  | none => rw [Snapshot.read, located] at read; cases read
  | some found =>
    obtain ⟨k, b⟩ := found
    obtain ⟨rfl, f, there, after, before⟩ := (getFileByOffset_eq (S.object_record old).1).mp located
    obtain ⟨last', same⟩ := S.read_inside old there after before
    rw [same] at read
    cases read
    exact ⟨k, f, there, after, before, rfl⟩

end

namespace SavedSnapshot

variable {S : SavedSnapshot c} {old there : Dir} {sent : List Nat} {r : Snapshot}

def Covered (S : SavedSnapshot c) (old : Dir) (sent : List Nat) (g : Nat) : Prop :=
  ∃ o ∈ sent, ∃ bytes last, (S.object old).read o = .data bytes last ∧ o ≤ g ∧ g < o + bytes.length

structure Progress (S : SavedSnapshot c) (old there : Dir) (sent : List Nat) (r : Snapshot) : Prop where
  record : r.fileMetas = recordOf S.files
  handles : ∀ (k : Nat) (f : String × Bytes), S.files[k]? = some f → r.files[k]? = some (if (there f.1).isSome then some f.1 else none)
  absent : ∀ f ∈ S.files, there f.1 = none → r.dir f.1 = none
  present : ∀ (k : Nat) (f : String × Bytes), S.files[k]? = some f → (there f.1).isSome → ∃ content, r.dir f.1 = some content ∧
    content.length ≤ f.2.length ∧ ∀ p < f.2.length, S.Covered old sent (start S.files k + p) → content[p]? = f.2[p]?

lemma ne_kSnapshotMeta (S : SavedSnapshot c) {f : String × Bytes} (member : f ∈ S.files) : f.1 ≠ kSnapshotMeta :=
  fun same => S.unreserved (same ▸ mem_map_of_mem member)

lemma progress_open (S : SavedSnapshot c) (old there : Dir) (any : S.files ≠ []) :
    S.Progress old there [] ((new there).openWith c (some (S.object old).fileMetas)).1 := by
  have metas : recordOf S.files ≠ [] := fun none => any (map_eq_nil_iff.mp none)
  have opened : ((new there).openWith c (some (S.object old).fileMetas)).1 = openFiles (recordOf S.files)
      (syncMeta c ⟨there, recordOf S.files, []⟩) := by
    rw [openWith, (S.object_record old).1]
    exact congrArg fst (if_neg metas)
  obtain ⟨dir, handles, record⟩ := openFiles_spec (recordOf S.files) (syncMeta c ⟨there, recordOf S.files, []⟩)
  have same : ∀ f ∈ S.files, (syncMeta c ⟨there, recordOf S.files, []⟩).dir f.1 = there f.1 :=
    fun f member => update_of_ne (S.ne_kSnapshotMeta member) _ _
  rw [opened]
  refine ⟨record, fun k f found => ?_, fun f member none => ?_, fun k f found known => ?_⟩
  · rw [handles]
    show ((recordOf S.files).map _)[k]? = _
    rw [getElem?_map, getElem?_recordOf found, map_some]
    rw [same f (mem_of_getElem? found)]
  · rw [dir, same f member, none]
    exact if_neg fun both => (nomatch both.2)
  · have member := mem_of_getElem? found
    refine ⟨[], ?_, Nat.zero_le _, fun p _ covered => ?_⟩
    · rw [dir, map_name_recordOf]
      exact if_pos ⟨mem_map_of_mem member, by rw [same f member]; exact known⟩
    · obtain ⟨o, none, -⟩ := covered
      cases none

lemma name_unique (S : SavedSnapshot c) {j k : Nat} {f g : String × Bytes} (here : S.files[k]? = some f) (there : S.files[j]? = some g)
    (same : f.1 = g.1) : j = k := by
  have first : (S.files.map fst)[k]? = some f.1 := by rw [getElem?_map, here]; rfl
  have second : (S.files.map fst)[j]? = some g.1 := by rw [getElem?_map, there]; rfl
  have lt : k < (S.files.map fst).length := (List.getElem?_eq_some_iff.mp first).1
  exact ((getElem?_inj lt S.distinct).mp (first.trans (same ▸ second.symm))).symm

lemma covered_cons {o k p : Nat} {f : String × Bytes} (found : S.files[k]? = some f) (inside : p < f.2.length)
    (covered : S.Covered old (o :: sent) (start S.files k + p)) : S.Covered old sent (start S.files k + p) ∨
      (start S.files k ≤ o ∧ o < start S.files k + f.2.length ∧ o - start S.files k ≤ p ∧
        p < o - start S.files k + (chunkAt f.2 (o - start S.files k)).length) := by
  obtain ⟨o', member, bytes, last, read, le, lt⟩ := covered
  rcases mem_cons.mp member with rfl | old
  · obtain ⟨j, g, there, after, before, rfl⟩ := S.read_cases _ read
    have length := length_chunkAt g.2 (o' - start S.files j)
    obtain rfl : k = j := start_unique there found (o := start S.files k + p) (by omega) (by omega) (by omega) (by omega)
    obtain rfl : g = f := some.inj (there.symm.trans found)
    exact .inr ⟨after, before, by omega, by omega⟩
  · exact .inl ⟨o', old, bytes, last, read, le, lt⟩

section
variable (progress : S.Progress old there sent r)
include progress

lemma Progress.idle {o : Nat}
    (lost : ∀ (k : Nat) (f : String × Bytes), S.files[k]? = some f → (there f.1).isSome → start S.files k ≤ o →
      ¬ o < start S.files k + f.2.length) : S.Progress old there (o :: sent) r := by
  refine ⟨progress.record, progress.handles, progress.absent, fun k f found known => ?_⟩
  obtain ⟨content, dir, short, bytes⟩ := progress.present k f found known
  refine ⟨content, dir, short, fun p inside covered => ?_⟩
  rcases covered_cons found inside covered with before | ⟨after, lt, -⟩
  · exact bytes p inside before
  · exact absurd lt (lost k f found known after)

lemma Progress.written {o k : Nat} {f : String × Bytes} (found : S.files[k]? = some f)
    (known : (there f.1).isSome) (after : start S.files k ≤ o) (before : o < start S.files k + f.2.length) :
    S.Progress old there (o :: sent)
      { r with
        dir := update r.dir f.1 <| some <|
          patch 0 ((r.dir f.1).getD []) (o - start S.files k) (chunkAt f.2 (o - start S.files k)) } := by
  have length := length_chunkAt f.2 (o - start S.files k)
  refine ⟨progress.record, progress.handles, fun g member none => ?_, fun j g there' known' => ?_⟩
  · have other : g.1 ≠ f.1 := fun same => by rw [same] at none; rw [none] at known; cases known
    exact (update_of_ne other _ _).trans (progress.absent g member none)
  obtain ⟨content, dir, short, bytes⟩ := progress.present j g there' known'
  by_cases here : j = k
  · subst here
    obtain rfl : g = f := some.inj (there'.symm.trans found)
    refine ⟨_, update_self .., ?_, fun p inside covered => ?_⟩
    · rw [dir, getD_some, length_patch]
      omega
    · rw [dir, getD_some]
      by_cases new : o - start S.files j ≤ p ∧ p < o - start S.files j + (chunkAt g.2 (o - start S.files j)).length
      · rw [getElem?_patch_inside new.1 new.2, getElem?_chunkAt (by omega)]
        congr 1
        omega
      · have covered := (covered_cons found inside covered).resolve_right fun chunk => new ⟨chunk.2.2.1, chunk.2.2.2⟩
        have kept := bytes p inside covered
        have within : p < content.length := by
          rw [getElem?_eq_getElem inside] at kept
          exact (List.getElem?_eq_some_iff.mp kept).1
        rw [getElem?_patch_outside within (by omega), kept]
  · have other : g.1 ≠ f.1 := fun same => here (S.name_unique found there' same.symm)
    refine ⟨content, (update_of_ne other _ _).trans dir, short, fun p inside covered => ?_⟩
    rcases covered_cons there' inside covered with covered | ⟨after', before', -⟩
    · exact bytes p inside covered
    · exact absurd (start_unique found there' after before after' before') here

lemma Progress.send (o : Nat) : S.Progress old there (o :: sent) ((S.object old).sendChunk r o) := by
  by_cases inside : ∃ (k : Nat) (f : String × Bytes), S.files[k]? = some f ∧ start S.files k ≤ o ∧ o < start S.files k + f.2.length
  · obtain ⟨k, f, found, after, before⟩ := inside
    obtain ⟨last, read⟩ := S.read_inside old found after before
    have located : r.getFileByOffset o = some (k, start S.files k) :=
      (getFileByOffset_eq progress.record).mpr ⟨rfl, f, found, after, before⟩
    have handle := progress.handles k f found
    rw [sendChunk, read]
    dsimp only
    rw [write, located]
    dsimp only
    rw [handle]
    by_cases known : (there f.1).isSome
    · rw [if_pos known]
      exact progress.written found known after before
    · rw [if_neg known]
      refine progress.idle fun j g there' known' after' before' => known ?_
      obtain rfl : j = k := start_unique found there' after before after' before'
      rw [some.inj (found.symm.trans there')]
      exact known'
  · have lost : (S.object old).sendChunk r o = r := by
      rw [sendChunk]
      cases read : (S.object old).read o with
      | error => rfl
      | trap => rfl
      | data bytes last =>
        obtain ⟨k, f, found, after, before, -⟩ := S.read_cases old read
        exact absurd ⟨k, f, found, after, before⟩ inside
    rw [lost]
    exact progress.idle fun k f found _ after before => inside ⟨k, f, found, after, before⟩

lemma Progress.sendAll (os : List Nat) : S.Progress old there (os.reverse ++ sent) (os.foldl (S.object old).sendChunk r) := by
  induction os generalizing sent r with
  | nil => exact progress
  | cons o os ih =>
    have rest := ih (progress.send o)
    rw [reverse_cons, append_assoc]
    exact rest

end

lemma covered_chunkOffsets (S : SavedSnapshot c) (old : Dir) (fuel o : Nat) {k p : Nat} {f : String × Bytes} (found : S.files[k]? = some f)
    (inside : p < f.2.length) (after : o ≤ start S.files k + p) (enough : start S.files k + p < o + fuel) :
    S.Covered old ((S.object old).chunkOffsets fuel o) (start S.files k + p) := by
  induction fuel generalizing o with
  | zero => omega
  | succ fuel ih =>
    obtain ⟨j, g, there, low, high⟩ : ∃ (j : Nat) (g : String × Bytes), S.files[j]? = some g ∧ start S.files j ≤ o ∧
        o < start S.files j + g.2.length := by
      have lt : o < start S.files (k + 1) := by
        rw [start_succ found]
        omega
      obtain ⟨j, size, there, low, high⟩ := exists_extent lt
      rw [getElem?_map] at there
      obtain ⟨g, known, rfl⟩ := map_eq_some_iff.mp there
      exact ⟨j, g, known, low, high⟩
    obtain ⟨last, read⟩ := S.read_inside old there low high
    have length := length_chunkAt g.2 (o - start S.files j)
    have some : 0 < (chunkAt g.2 (o - start S.files j)).length := by
      rw [length, maxChunkSize]
      omega
    rw [chunkOffsets, read]
    by_cases here : start S.files k + p < o + (chunkAt g.2 (o - start S.files j)).length
    · exact ⟨o, mem_cons_self, _, last, read, after, here⟩
    · obtain ⟨o', member, rest⟩ := ih (o + (chunkAt g.2 (o - start S.files j)).length) (by omega) (by omega)
      exact ⟨o', mem_cons_of_mem _ member, rest⟩

def received (S : SavedSnapshot c) (old there : Dir) (os : List Nat) : Dir :=
  (os.foldl (S.object old).sendChunk ((new there).openWith c (some (S.object old).fileMetas)).1).dir

lemma received_iff (S : SavedSnapshot c) (old there : Dir) {os : List Nat}
    (every : ∀ o ∈ (S.object old).chunkOffsets (S.object old).size 0, o ∈ os) :
    (∀ f ∈ S.files, S.received old there os f.1 = some f.2) ↔ ∀ f ∈ S.files, (there f.1).isSome := by
  refine forall₂_congr fun f member => ?_
  have progress := (S.progress_open old there (ne_nil_of_mem member)).sendAll os
  obtain ⟨k, lt, found⟩ := mem_iff_getElem.mp member
  have found : S.files[k]? = some f := by rw [getElem?_eq_getElem lt, found]
  cases known : there f.1 with
  | none =>
    refine iff_of_false (fun same => ?_) Bool.false_ne_true
    rw [received, progress.absent f member known] at same
    cases same
  | some before =>
    refine iff_of_true ?_ rfl
    obtain ⟨content, dir, short, bytes⟩ := progress.present k f found (by rw [known]; rfl)
    have total : start S.files (k + 1) ≤ (S.object old).size := by
      rw [size, (S.object_record old).1, sizes_recordOf]
      exact base_le_sum _ _
    rw [start_succ found] at total
    have same : content = f.2 := by
      refine ext_getElem? fun p => ?_
      by_cases inside : p < f.2.length
      · obtain ⟨o, sent, rest⟩ := S.covered_chunkOffsets old (S.object old).size 0 found inside zero_le (by omega)
        refine bytes p inside ⟨o, ?_, rest⟩
        rw [append_nil, mem_reverse]
        exact every o sent
      · rw [getElem?_eq_none (by omega), getElem?_eq_none (by omega)]
    rw [received, dir, same]

/-- A transfer reproduces the files that the receiver has already, and opening a snapshot leaves those files unchanged that
    are empty, or not named by the record as it is read. -/
theorem transfer_and_open_iff (S : SavedSnapshot c) (old there : Dir) {os : List Nat}
    (every : ∀ o ∈ (S.object old).chunkOffsets (S.object old).size 0, o ∈ os) :
    ((∀ f ∈ S.files, S.received old there os f.1 = some f.2) ↔ ∀ f ∈ S.files, (there f.1).isSome) ∧
    ((∀ f ∈ S.files, ((new (S.object old).dir).openWith c none).1.dir f.1 = some f.2) ↔
      ∀ f ∈ S.files, ∀ metas, pbReadFile c (pbWriteFile c (recordOf S.files)) = some metas →
        f.1 ∈ metas.map name → f.2 = []) :=
  ⟨S.received_iff old there every, forall₂_congr fun _ member => S.opened_dir_iff old member⟩

end SavedSnapshot

section
deriving instance Countable for SnapshotFileMeta

def counterFile : List (String × Bytes) := [("counter", [1])]

lemma exists_counterSnapshot : ∃ c : Codec SnapshotMeta, (∀ m, c.Faithful m) ∧ ∃ S : SavedSnapshot c, S.files = counterFile ∧
      pbReadFile c (pbWriteFile c (recordOf S.files)) = some (recordOf S.files) := by
  obtain ⟨c, faithful, -, short⟩ := Codec.exists_short ([] : SnapshotMeta) (recordOf counterFile)
  refine ⟨c, faithful, ⟨counterFile, by decide, by decide, by decide, short⟩, rfl, ?_⟩
  exact pbReadFile_pbWriteFile (faithful _) short

lemma chunkOffsets_counterFile {S : SavedSnapshot c} (files : S.files = counterFile) (old : Dir) :
    (S.object old).chunkOffsets (S.object old).size 0 = [0] := by
  have size : (S.object old).size = 1 := by
    rw [size, (S.object_record old).1, files]
    rfl
  obtain ⟨last, read⟩ := S.read_inside (k := 0) (o := 0) (f := ("counter", [1])) old (by rw [files]; rfl) (le_refl 0) one_pos
  rw [size, chunkOffsets, read]
  rfl

lemma named_counterFile {S : SavedSnapshot c} (files : S.files = counterFile) : "counter" ∈ (recordOf S.files).map name := by
  rw [map_name_recordOf, files]
  exact mem_singleton_self _

theorem counterFile_lost : ∃ c : Codec SnapshotMeta, (∀ m, c.Faithful m) ∧ ∃ S : SavedSnapshot c, S.files = [("counter", [1])] ∧
    (S.object fun _ => none).chunkOffsets (S.object fun _ => none).size 0 = [0] ∧
    S.received (fun _ => none) (fun _ => none) [0] "counter" = none ∧
    ((new (S.object fun _ => none).dir).openWith c none).1.dir "counter" ≠ some [1] := by
  obtain ⟨c, faithful, S, files, read⟩ := exists_counterSnapshot
  have member : ("counter", [1]) ∈ S.files := files ▸ mem_singleton_self _
  have progress := (S.progress_open (fun _ => none) (fun _ => none) (ne_nil_of_mem member)).sendAll [0]
  refine ⟨c, faithful, S, files, chunkOffsets_counterFile files _, progress.absent _ member rfl, fun same => ?_⟩
  exact absurd ((S.opened_dir_iff _ member).mp same _ read (named_counterFile files)) (by decide)

theorem transfer_and_open_iff_counterFile : ∃ c : Codec SnapshotMeta, ∃ S : SavedSnapshot c, S.files = counterFile ∧
    (∀ f ∈ S.files, S.received (fun _ => none) (fun _ => some []) [0] f.1 = some f.2) ∧
    ¬ ∀ f ∈ S.files, ((new (S.object fun _ => none).dir).openWith c none).1.dir f.1 = some f.2 := by
  obtain ⟨c, faithful, S, files, read⟩ := exists_counterSnapshot
  have every : ∀ o ∈ (S.object fun _ => none).chunkOffsets (S.object fun _ => none).size 0, o ∈ [0] := by
    rw [chunkOffsets_counterFile files]
    exact fun _ sent => sent
  obtain ⟨received, unchanged⟩ := SavedSnapshot.transfer_and_open_iff S (fun _ => none) (fun _ => some []) every
  refine ⟨c, S, files, received.mpr fun _ _ => rfl, fun same => ?_⟩
  have empty := unchanged.mp same ("counter", [1]) (files ▸ mem_singleton_self _) _ read (named_counterFile files)
  cases empty

end

end Myctk.Mraft
