import Myctk.Mraft.SnapshotTransfer

/-! The chunks of a snapshot, read one after the other. -/

namespace Myctk.Mraft

open List Lib Lib.Extents Snapshot

namespace Snapshot

/-- Calls of `Read`, each at the offset where the chunk before ends, until one gives an error. -/
inductive Delivers (s : Snapshot) : Nat → List (Bytes × Bool) → Prop where
  | stop {o : Nat} : s.read o = .error → Delivers s o []
  | chunk {o : Nat} {bytes : Bytes} {last : Bool} {chunks : List (Bytes × Bool)} :
      s.read o = .data bytes last → Delivers s (o + bytes.length) chunks → Delivers s o ((bytes, last) :: chunks)

def Partitions (s : Snapshot) (content : Bytes) (chunks : List (Bytes × Bool)) : Prop :=
  s.Delivers 0 chunks ∧ (chunks.map Prod.fst).flatten = content

def MarksLast (chunks : List (Bytes × Bool)) : Prop :=
  ∀ k c, chunks[k]? = some c → (c.2 = true ↔ k + 1 = chunks.length)

end Snapshot

def allBytes (files : List (String × Bytes)) : Bytes := (files.map Prod.snd).flatten

section
variable {files : List (String × Bytes)} {s : Snapshot} {o : Nat}

lemma length_allBytes (files : List (String × Bytes)) : (allBytes files).length = (files.map fun f => f.2.length).sum := by
  rw [allBytes, length_flatten, map_map]
  rfl

lemma allBytes_eq_nil_iff : allBytes files = [] ↔ ∀ f ∈ files, f.2 = [] := by
  rw [allBytes, flatten_eq_nil_iff]
  exact forall_mem_map

lemma exists_file (before : o < (allBytes files).length) :
    ∃ k f, files[k]? = some f ∧ start files k ≤ o ∧ o < start files k + f.2.length := by
  rw [length_allBytes] at before
  have whole : base (files.map fun f => f.2.length) (files.map fun f => f.2.length).length = (files.map fun f => f.2.length).sum := by
    rw [base, take_length]
  obtain ⟨k, size, there, after, before⟩ := exists_extent (whole ▸ before)
  rw [getElem?_map] at there
  obtain ⟨f, found, rfl⟩ := Option.map_eq_some_iff.mp there
  exact ⟨k, f, found, after, before⟩

lemma read_end (record : s.fileMetas = recordOf files) (after : (allBytes files).length ≤ o) : s.read o = .error := by
  cases located : s.getFileByOffset o with
  | none => rw [Snapshot.read, located]
  | some found =>
    obtain ⟨k, b⟩ := found
    obtain ⟨rfl, f, there, -, before⟩ := (getFileByOffset_eq record).mp located
    have total : start files (k + 1) ≤ (files.map fun f => f.2.length).sum := Lib.Extents.base_le_sum _ _
    rw [start_succ there, ← length_allBytes] at total
    omega

lemma chunkAt_eq {k : Nat} {f : String × Bytes} (there : files[k]? = some f) (after : start files k ≤ o)
    (before : o < start files k + f.2.length) :
    chunkAt f.2 (o - start files k) = ((allBytes files).drop o).take (chunkAt f.2 (o - start files k)).length := by
  have part : (files.map Prod.snd)[k]? = some f.2 := by
    rw [getElem?_map, there]
    rfl
  have sizes : (files.map Prod.snd).map length = files.map fun f => f.2.length := by
    rw [map_map]
    rfl
  have rest := flatten_drop part (show o - start files k ≤ f.2.length by omega)
  rw [sizes, show base (files.map fun f => f.2.length) k = start files k from rfl, Nat.add_sub_cancel' after] at rest
  have length := length_chunkAt f.2 (o - start files k)
  rw [allBytes, rest, take_append_of_le_length (by rw [length, length_drop]; omega), length]
  rfl

lemma exists_delivers (record : s.fileMetas = recordOf files) (contents : ∀ f ∈ files, s.dir f.1 = some f.2)
    (within : o ≤ (allBytes files).length) :
    ∃ chunks, s.Delivers o chunks ∧ (chunks.map Prod.fst).flatten = (allBytes files).drop o := by
  induction left : (allBytes files).length - o using Nat.strongRecOn generalizing o with
  | ind left' ih =>
    rcases lt_or_ge o (allBytes files).length with before | after
    · obtain ⟨k, f, there, first, last⟩ := exists_file before
      have content := contents f (mem_of_getElem? there)
      have bytes := chunkAt_eq there first last
      have length := length_chunkAt f.2 (o - start files k)
      have some : 0 < (chunkAt f.2 (o - start files k)).length := by
        rw [length]
        have limit : 0 < Snapshot.maxChunkSize := by decide
        omega
      have inside : (chunkAt f.2 (o - start files k)).length ≤ (allBytes files).length - o := by
        rw [bytes, length_take, length_drop]
        omega
      obtain ⟨chunks, delivers, rest⟩ := ih ((allBytes files).length - (o + (chunkAt f.2 (o - start files k)).length)) (by omega)
        (o := o + (chunkAt f.2 (o - start files k)).length) (by omega) rfl
      refine ⟨_, .chunk (read_inside record content there first last) delivers, ?_⟩
      rw [map_cons, flatten_cons, rest, ← drop_drop]
      conv => lhs; lhs; rw [bytes]
      exact take_append_drop _ _
    · refine ⟨[], .stop (read_end record after), ?_⟩
      rw [drop_eq_nil_of_le after]
      rfl

lemma read_last_false {bytes : Bytes} {last : Bool} (none : s.files = []) (read : s.read o = .data bytes last) : last = false := by
  rw [Snapshot.read] at read
  split at read
  · cases read
  split at read
  · cases read
  dsimp only at read
  split at read
  · cases read
  split at read
  · cases read
  · cases read
    simp [none]

lemma delivers_unmarked {chunks : List (Bytes × Bool)} (none : s.files = []) (delivers : s.Delivers o chunks) :
    ∀ c ∈ chunks, c.2 = false := by
  induction delivers with
  | stop => exact fun _ none => (nomatch none)
  | chunk read _ ih =>
    intro c member
    rcases mem_cons.mp member with rfl | later
    · exact read_last_false none read
    · exact ih c later

lemma partitions_nil (record : s.fileMetas = recordOf files) (empty : allBytes files = []) : s.Partitions (allBytes files) [] :=
  ⟨.stop (read_end record (by rw [empty]; exact le_refl 0)), by rw [empty]; rfl⟩

lemma marksLast_nil : MarksLast [] := fun _ _ none => (nomatch none)

lemma marked_iff_of_saved (record : s.fileMetas = recordOf files) (none : s.files = []) :
    (∃ chunks, s.Partitions (allBytes files) chunks ∧ MarksLast chunks) ↔ ∀ f ∈ files, f.2 = [] := by
  rw [← allBytes_eq_nil_iff]
  refine ⟨?_, fun empty => ⟨[], partitions_nil record empty, marksLast_nil⟩⟩
  rintro ⟨chunks, ⟨delivers, all⟩, marks⟩
  rcases eq_nil_or_concat chunks with rfl | ⟨before, c, rfl⟩
  · exact all.symm
  · rw [concat_eq_append] at delivers marks
    have unmarked := delivers_unmarked none delivers c (mem_append_right _ (mem_singleton_self c))
    have marked := (marks before.length c (by simp)).mpr (by simp)
    rw [unmarked] at marked
    cases marked

lemma marked_iff_of_truncated (record : s.fileMetas = recordOf files) (empty : ∀ f ∈ files, s.dir f.1 = some []) :
    (∃ chunks, s.Partitions (allBytes files) chunks ∧ MarksLast chunks) ↔ ∀ f ∈ files, f.2 = [] := by
  rw [← allBytes_eq_nil_iff]
  refine ⟨?_, fun empty => ⟨[], partitions_nil record empty, marksLast_nil⟩⟩
  rintro ⟨chunks, ⟨delivers, -⟩, -⟩
  by_contra some
  obtain ⟨k, f, there, after, before⟩ := exists_file (length_pos_iff.mpr some)
  have located := (getFileByOffset_eq record).mpr ⟨rfl, f, there, after, before⟩
  have entry := record ▸ getElem?_recordOf there
  have trap : s.read 0 = .trap := by
    rw [Snapshot.read]
    simp only [located, entry, empty f (mem_of_getElem? there)]
    refine if_pos ?_
    have limit : 0 < Snapshot.maxChunkSize := by decide
    rw [length_nil]
    omega
  cases delivers with
  | stop read => rw [trap] at read; cases read
  | chunk read => rw [trap] at read; cases read

end

/-- A saved snapshot delivers all its bytes, and marks the last chunk precisely when there is none. -/
theorem chunks_marked_iff {c : Codec SnapshotMeta} :
    (∀ (S : SavedSnapshot c) (old : Dir), (∃ chunks, (S.object old).Partitions (allBytes S.files) chunks) ∧
      ((∃ chunks, (S.object old).Partitions (allBytes S.files) chunks ∧ MarksLast chunks) ↔ ∀ f ∈ S.files, f.2 = [])) ∧
    ∀ (dir : Dir) (record : Bytes) (files : List (String × Bytes)), dir kSnapshotMeta = some record →
      pbReadFile c record = some (recordOf files) → (∀ f ∈ files, dir f.1 = some f.2) →
      ((∃ chunks, ((Snapshot.new dir).openWith c none).1.Partitions (allBytes files) chunks ∧ MarksLast chunks) ↔
        ∀ f ∈ files, f.2 = []) := by
  refine ⟨fun S old => ⟨?_, ?_⟩, fun dir record files there read contents => ?_⟩
  · obtain ⟨chunks, delivers, all⟩ := exists_delivers (S.object_record old).1 (fun f => S.object_dir old) zero_le
    exact ⟨chunks, delivers, all⟩
  · exact marked_iff_of_saved (S.object_record old).1 (S.object_record old).2
  · rw [openWith_read there read, Snapshot.openRecord]
    split
    · exact marked_iff_of_saved rfl rfl
    · refine marked_iff_of_truncated (openFiles_spec _ _).2.2 fun f member => ?_
      rw [(openFiles_spec _ _).1, map_name_recordOf]
      refine if_pos ⟨mem_map_of_mem member, ?_⟩
      show (dir f.1).isSome = true
      rw [contents f member]
      rfl

theorem counterFile_unmarked : ∃ c : Codec SnapshotMeta, ∃ S : SavedSnapshot c, S.files = [("counter", [1])] ∧
    (S.object fun _ => none).Partitions (allBytes S.files) [([1], false)] ∧
    ¬ ∃ chunks, (S.object fun _ => none).Partitions (allBytes S.files) chunks ∧ MarksLast chunks := by
  obtain ⟨c, -, S, files, -⟩ := exists_counterSnapshot
  refine ⟨c, S, files, ?_, fun right => ?_⟩
  · have there : S.files[0]? = some ("counter", [1]) := by rw [files]; rfl
    obtain ⟨last, read⟩ := S.read_inside (o := 0) (fun _ => none) there (le_refl 0) one_pos
    obtain rfl := read_last_false (S.object_record fun _ => none).2 read
    refine ⟨.chunk read (.stop (read_end (S.object_record fun _ => none).1 ?_)), ?_⟩
    · rw [files]
      exact le_refl 1
    · rw [files]
      rfl
  · have empty := (marked_iff_of_saved (S.object_record fun _ => none).1 (S.object_record fun _ => none).2).mp right
    exact absurd (empty ("counter", [1]) (by rw [files]; exact mem_singleton_self _)) (by decide)

theorem chunks_marked_iff_counterFile : ∃ c : Codec SnapshotMeta, ∃ S : SavedSnapshot c, S.files = counterFile ∧
    ∃ chunks, (S.object fun _ => none).Partitions (allBytes S.files) chunks := by
  obtain ⟨c, -, S, files, -⟩ := exists_counterSnapshot
  exact ⟨c, S, files, (chunks_marked_iff.1 S fun _ => none).1⟩

end Myctk.Mraft
