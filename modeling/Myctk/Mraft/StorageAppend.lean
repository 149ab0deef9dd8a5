import Myctk.Lib.IndexedLog
import Myctk.Mraft.Storage

/-! The state of a storage that works: the closed segments and then the open one tile a range of indices, their files hold the
    records of that range, and the directory has the files of the segments and no others. -/

namespace Myctk.Mraft

section
open Lib Segment List SegmentMap Log

namespace Storage

def all (s : Storage) : List Segment := s.segments ++ s.openSegment.toList

/-- The segments occupy `[i, j)` without gap or overlap. -/
abbrev Contiguous : Int → List Segment → Int → Prop := Tiles Segment.firstIndex fun seg => seg.lastIndex + 1

/-- The storage works, and the file behind a descriptor holds the records that `recs` gives. -/
structure Inv (env : Env) (s : Storage) (recs : Nat → List Record) (base : Int) : Prop where
  tiles : Contiguous base s.all (s.lastLogIndex + 1)
  holds : ∀ seg ∈ s.all, seg.Holds env s.disk (recs seg.fd)
  fds : (s.all.map (·.fd)).Nodup
  fresh : ∀ seg ∈ s.all, seg.fd < s.disk.next
  dir : ∀ name fd, s.disk.lookup name = some fd ↔ ∃ seg ∈ s.all, seg.path = name ∧ seg.fd = fd
  closed : ∀ seg ∈ s.segments,
    seg.isOpen = false ∧ seg.firstIndex ≤ seg.lastIndex ∧ s.firstLogIndex ≤ seg.lastIndex
  opened : ∀ seg ∈ s.openSegment,
    seg.isOpen = true ∧ (seg.lastIndex < seg.firstIndex ∨ s.firstLogIndex ≤ seg.lastIndex)
  base_le : base ≤ s.firstLogIndex
  first_le : s.firstLogIndex ≤ s.lastLogIndex + 1
  logMeta : s.disk.logMeta = some s.firstLogIndex

def stored (s : Storage) (recs : Nat → List Record) (base : Int) : Log Record :=
  ⟨base, s.all.flatMap fun seg => recs seg.fd⟩

def records (s : Storage) (recs : Nat → List Record) (base : Int) : Log Record :=
  (s.stored recs base).truncatePrefix s.firstLogIndex

variable {env : Env} {s : Storage} {recs : Nat → List Record} {base : Int} {seg : Segment}

namespace Inv

lemma setCache (h : Inv env s recs base) (cache : List LogEntry) (latest : Option LogEntry) :
    Inv env { s with latestEntriesCache := cache, latestEntry := latest } recs base :=
  ⟨h.tiles, h.holds, h.fds, h.fresh, h.dir, h.closed, h.opened, h.base_le, h.first_le, h.logMeta⟩

lemma mem_all : seg ∈ s.all ↔ seg ∈ s.segments ∨ s.openSegment = some seg := by
  simp [all]

section
variable (h : Inv env s recs base)
include h

lemma path_of_closed (hs : seg ∈ s.segments) : seg.path = .closed seg.firstIndex seg.lastIndex := by
  simp [path, getPath, (h.closed seg hs).1]

lemma path_of_opened (hs : s.openSegment = some seg) : seg.path = .inprogress seg.firstIndex := by
  simp [path, getPath, (h.opened seg hs).1]

lemma sorted : s.all.Pairwise fun x y => x.lastIndex + 1 ≤ y.firstIndex :=
  h.tiles.pairwise

lemma segments_sorted : s.segments.Pairwise fun x y => x.lastIndex + 1 ≤ y.firstIndex :=
  (pairwise_append.mp h.sorted).1

lemma paths : (s.all.map (·.path)).Nodup := by
  have hpair : s.all.Pairwise fun x y => x.path ≠ y.path := by
    refine pairwise_append.mpr ⟨?_, by cases s.openSegment <;> simp, ?_⟩
    · refine h.segments_sorted.imp_of_mem ?_
      intro x y hx hy hxy heq
      rw [h.path_of_closed hx, h.path_of_closed hy] at heq
      have hne := (h.closed x hx).2.1
      injection heq with hfirst
      omega
    · intro x hx y hy heq
      rw [h.path_of_closed hx, h.path_of_opened (Option.mem_toList.mp hy)] at heq
      cases heq
  exact pairwise_map.mpr hpair

lemma lookup_path (hs : seg ∈ s.all) : s.disk.lookup seg.path = some seg.fd :=
  (h.dir _ _).mpr ⟨seg, hs, rfl, rfl⟩

lemma lookup_tmp (name : FileName) : s.disk.lookup (.tmp name) = none := by
  rcases hl : s.disk.lookup (.tmp name) with _ | fd
  · rfl
  · obtain ⟨seg, hs, hp, -⟩ := (h.dir _ _).mp hl
    rcases mem_all.mp hs with hs | hs
    · rw [h.path_of_closed hs] at hp
      cases hp
    · rw [h.path_of_opened hs] at hp
      cases hp

lemma length_recs : ∀ seg ∈ s.all, ((recs seg.fd).length : Int) = (seg.lastIndex + 1) - seg.firstIndex := by
  intro seg hs
  have := (h.holds seg hs).lastIndex
  omega

lemma last_stored : (s.stored recs base).last = s.lastLogIndex := by
  have hlen := h.tiles.length_flatMap h.length_recs
  simp only [stored, last]
  omega

lemma first_records : (s.records recs base).first = s.firstLogIndex := by
  have := h.base_le
  rw [records, first_truncatePrefix]
  simp only [stored]
  omega

lemma last_records : (s.records recs base).last = s.lastLogIndex := by
  have := h.first_le
  rw [records, last_truncatePrefix, h.last_stored]
  omega

lemma get?_records (hs : seg ∈ s.all) {i : Int} (hfirst : s.firstLogIndex ≤ i) (hlo : seg.firstIndex ≤ i) (hhi : i ≤ seg.lastIndex) :
    (s.records recs base).get? i = (recs seg.fd)[(i - seg.firstIndex).toNat]? := by
  have hb := h.base_le
  rw [records, get?_truncatePrefix hfirst, get?, if_pos (by simp only [stored]; omega)]
  exact h.tiles.getElem?_flatMap h.length_recs hs hlo (by omega)

end

end Inv

lemma beforeUpperBound_eq {l : List Segment} (hl : l.Pairwise fun x y => x.lastIndex + 1 ≤ y.firstIndex)
    (hne : ∀ x ∈ l, x.firstIndex ≤ x.lastIndex) (hs : seg ∈ l) {i : Int} (hlo : seg.firstIndex ≤ i)
    (hhi : i ≤ seg.lastIndex) : beforeUpperBound i l = some seg := by
  obtain ⟨a, b, rfl⟩ := append_of_mem hs
  obtain ⟨-, hb, hab⟩ := pairwise_append.mp hl
  have ha : ∀ x ∈ a, decide (x.firstIndex ≤ i) = true := by
    intro x hx
    have := hab x hx seg mem_cons_self
    have := hne x (mem_append_left _ hx)
    simp only [decide_eq_true_eq]
    omega
  have hb' : b.takeWhile (fun x => decide (x.firstIndex ≤ i)) = [] := by
    cases b with
    | nil => rfl
    | cons y b =>
      have := (pairwise_cons.mp hb).1 y mem_cons_self
      exact takeWhile_cons_of_neg (by simp only [decide_eq_true_eq]; omega)
  unfold beforeUpperBound
  rw [takeWhile_append_of_pos ha, takeWhile_cons_of_pos (by simpa using hlo), hb']
  simp

namespace Inv

lemma getSegment_none (h : Inv env s recs base) {i : Int} (hi : i < s.firstLogIndex ∨ s.lastLogIndex < i) :
    s.getSegment i = none := by
  unfold getSegment
  split
  · rfl
  · by_cases hlast : i = s.lastLogIndex + 1
    · rw [if_neg (by have := h.first_le; omega), if_pos hlast]
    · rw [if_pos (by omega)]

lemma getSegment_some (h : Inv env s recs base) {i : Int} (hlo : s.firstLogIndex ≤ i) (hhi : i ≤ s.lastLogIndex) :
    ∃ seg ∈ s.all, s.getSegment i = some seg ∧ seg.firstIndex ≤ i ∧ i ≤ seg.lastIndex := by
  have hb := h.base_le
  obtain ⟨seg, hs, hfirst, hlast⟩ := h.tiles.exists_mem (n := i) (by omega) (by omega)
  refine ⟨seg, hs, ?_, hfirst, by omega⟩
  unfold getSegment
  rw [if_neg (by omega), if_neg (by omega), if_neg (by omega)]
  have hclosed : seg ∈ s.segments → beforeUpperBound i s.segments = some seg := fun hs =>
    beforeUpperBound_eq h.segments_sorted (fun x hx => (h.closed x hx).2.1) hs hfirst (by omega)
  rcases mem_all.mp hs with hs | hs
  · cases ho : s.openSegment with
    | none => exact hclosed hs
    | some o =>
      -- The open segment starts behind every closed one.
      have := (pairwise_append.mp h.sorted).2.2 seg hs o (by simp [ho])
      simp only [if_neg (show ¬ i ≥ o.firstIndex by omega)]
      exact hclosed hs
  · simp only [hs]
    exact if_pos hfirst

lemma getTerm_eq (h : Inv env s recs base) (i : Int) : s.getTerm i = (((s.records recs base).get? i).map (·.entry.term)).getD 0 := by
  unfold getTerm
  by_cases hi : s.firstLogIndex ≤ i ∧ i ≤ s.lastLogIndex
  · obtain ⟨seg, hs, hget, hlo, hhi⟩ := h.getSegment_some hi.1 hi.2
    have hlen := h.length_recs seg hs
    have hr := getElem?_eq_getElem (l := recs seg.fd) (i := (i - seg.firstIndex).toNat) (by omega)
    rw [hget, h.get?_records hs hi.1 hlo hhi, hr]
    exact getTerm_of_mem (h.holds seg hs).lists hr hlo
  · rw [h.getSegment_none (by omega), get?_eq_none (by rw [h.first_records, h.last_records]; omega)]
    rfl

end Inv

end Storage

end

/-! `AppendEntry` on a storage that works: a full segment is rolled, a missing one created, and the entry
    becomes the last record of the log. -/

section
open Disk List Option Function Segment SegmentMap
open Lib

namespace SegmentMap

variable {seg last : Segment} {l : SegmentMap}

lemma insert_concat (h : ∀ x ∈ l, x.firstIndex < seg.firstIndex) : insert seg l = l ++ [seg] := by
  induction l with
  | nil => rfl
  | cons x l ih =>
    have hx := h x mem_cons_self
    rw [insert, if_neg (by omega), if_neg (by omega), ih fun y hy => h y (mem_cons_of_mem _ hy)]
    rfl

lemma insert_replace (h : ∀ x ∈ l, x.firstIndex < seg.firstIndex) (hlast : last.firstIndex = seg.firstIndex) :
    insert seg (l ++ [last]) = l ++ [seg] := by
  induction l with
  | nil =>
    rw [nil_append, insert, if_neg (by omega), if_pos hlast.symm]
    rfl
  | cons x l ih =>
    have hx := h x mem_cons_self
    rw [cons_append, insert, if_neg (by omega), if_neg (by omega), ih fun y hy => h y (mem_cons_of_mem _ hy)]
    rfl

end SegmentMap

namespace Storage

variable {env : Env} {io : Io} {s : Storage} {recs : Nat → List Record} {base : Int} {seg : Segment}

lemma flatMap_update {l : List Segment} {fd : Nat} {v : List Record} (h : ∀ x ∈ l, x.fd ≠ fd) :
    (l.flatMap fun x => update recs fd v x.fd) = l.flatMap fun x => recs x.fd := by
  induction l with
  | nil => rfl
  | cons x l ih =>
    rw [flatMap_cons, flatMap_cons, ih fun y hy => h y (mem_cons_of_mem _ hy),
      update_of_ne (h x mem_cons_self)]

structure Frame (s t : Storage) : Prop where
  firstLogIndex : t.firstLogIndex = s.firstLogIndex
  lastLogIndex : t.lastLogIndex = s.lastLogIndex
  latestEntriesCache : t.latestEntriesCache = s.latestEntriesCache
  latestEntry : t.latestEntry = s.latestEntry

lemma all_concat {rest : List Segment} (hall : s.all = rest ++ [seg]) :
    s.openSegment = some seg ∧ s.segments = rest ∨ s.openSegment = none ∧ s.segments = rest ++ [seg] := by
  cases ho : s.openSegment with
  | none => exact .inr ⟨rfl, by simpa [all, ho] using hall⟩
  | some o =>
    have heq : s.segments ++ [o] = rest ++ [seg] := by rw [← hall, all, ho]; rfl
    obtain ⟨hrest, ho'⟩ := append_inj' heq rfl
    exact .inl ⟨by simpa using ho', hrest⟩

lemma mem_segments_of_all {rest : List Segment} (hall : s.all = rest ++ [seg]) : ∀ x ∈ rest, x ∈ s.segments := by
  intro x hx
  rcases all_concat hall with ⟨-, hseg⟩ | ⟨-, hseg⟩
  · exact hseg ▸ hx
  · exact hseg ▸ mem_append_left _ hx

def withCreated (s : Storage) : Storage :=
  { s with
      openSegment := some (.created s.disk (s.lastLogIndex + 1))
      disk := s.disk.added (.inprogress (s.lastLogIndex + 1)) }

def withClosed (s : Storage) (seg : Segment) : Storage :=
  { s with
      segments := s.segments ++ [{ seg with isOpen := false }]
      openSegment := none
      disk := s.disk.move (.inprogress seg.firstIndex) (.closed seg.firstIndex seg.lastIndex) seg.fd }

namespace Inv

variable {d : Disk} {rest : List Segment} {seg' : Segment}

section
variable (h : Inv env s recs base)
include h

lemma setDisk (hc : d.content = s.disk.content) (hn : d.next = s.disk.next)
    (hm : d.logMeta = s.disk.logMeta) (hl : ∀ name, d.lookup name = s.disk.lookup name) : Inv env { s with disk := d } recs base where
  tiles := h.tiles
  holds x hx := (h.holds x hx).congr (congrFun hc _)
  fds := h.fds
  fresh x hx := (h.fresh x hx).trans_eq hn.symm
  dir name fd := (by rw [hl]; exact h.dir name fd)
  closed := h.closed
  opened := h.opened
  base_le := h.base_le
  first_le := h.first_le
  logMeta := hm.trans h.logMeta

lemma lookup_inprogress {i : Int} (hi : ∀ seg, s.openSegment = some seg → seg.firstIndex ≠ i) :
    s.disk.lookup (.inprogress i) = none := by
  rcases hl : s.disk.lookup (.inprogress i) with _ | fd
  · rfl
  · obtain ⟨seg, hs, hp, -⟩ := (h.dir _ _).mp hl
    rcases mem_all.mp hs with hs | hs
    · rw [h.path_of_closed hs] at hp
      cases hp
    · rw [h.path_of_opened hs] at hp
      injection hp with hp
      exact absurd hp (hi seg hs)

lemma withCreated (ho : s.openSegment = none) : Inv env s.withCreated (update recs s.disk.next []) base := by
  have hall : s.all = s.segments := by simp [all, ho]
  have hall' : s.withCreated.all = s.all ++ [.created s.disk (s.lastLogIndex + 1)] := by
    rw [hall]
    rfl
  have hne : ∀ x ∈ s.all, x.fd ≠ s.disk.next := fun x hx => ne_of_lt (h.fresh x hx)
  have hnone := h.lookup_inprogress (i := s.lastLogIndex + 1) (by simp [ho])
  refine ⟨?_, ?_, ?_, ?_, ?_, h.closed, ?_, h.base_le, h.first_le, h.logMeta⟩
  · rw [hall']
    exact tiles_concat.mpr ⟨h.tiles, by simp [Segment.created, Segment.opened],
      by simp [Segment.created, Segment.opened, Storage.withCreated]⟩
  · intro x hx
    rw [hall'] at hx
    rcases mem_append.mp hx with hx | hx
    · rw [update_of_ne (hne x hx)]
      exact (h.holds x hx).congr (content_added_ne (hne x hx))
    · rw [mem_singleton.mp hx, show (created s.disk (s.lastLogIndex + 1)).fd = s.disk.next from rfl,
        update_self]
      exact created_holds
  · rw [hall', map_append]
    refine nodup_append.mpr ⟨h.fds, by simp, ?_⟩
    intro fd hfd fd' hfd' heq
    obtain ⟨x, hx, rfl⟩ := mem_map.mp hfd
    simp only [map_cons, map_nil, mem_singleton] at hfd'
    exact hne x hx (heq.trans hfd')
  · intro x hx
    rw [hall'] at hx
    rcases mem_append.mp hx with hx | hx
    · exact Nat.lt_succ_of_lt (h.fresh x hx)
    · rw [mem_singleton.mp hx]
      exact Nat.lt_succ_self _
  · intro name fd
    have hpath : (created s.disk (s.lastLogIndex + 1)).path = .inprogress (s.lastLogIndex + 1) := rfl
    have hfd : (created s.disk (s.lastLogIndex + 1)).fd = s.disk.next := rfl
    rw [hall', show s.withCreated.disk = s.disk.added (.inprogress (s.lastLogIndex + 1)) from rfl, lookup_added]
    simp only [mem_append, mem_singleton, or_and_right, exists_or, exists_eq_left, hpath, hfd]
    by_cases hn : name = .inprogress (s.lastLogIndex + 1)
    · subst hn
      rw [if_pos rfl, ← h.dir, hnone]
      simp
    · rw [if_neg hn, h.dir]
      simp [Ne.symm hn]
  · intro x hx
    obtain rfl := some.inj hx
    exact ⟨rfl, .inl (by simp [Segment.created, Segment.opened])⟩

lemma records_withCreated (ho : s.openSegment = none) :
    s.withCreated.records (update recs s.disk.next []) base = s.records recs base := by
  have hne : ∀ x ∈ s.segments, x.fd ≠ s.disk.next := fun x hx =>
    ne_of_lt (h.fresh x (mem_append_left _ hx))
  have hfd : (created s.disk (s.lastLogIndex + 1)).fd = s.disk.next := rfl
  simp only [records, stored, all, Storage.withCreated, toList_some, ho, toList_none, append_nil,
    flatMap_append, flatMap_update hne, flatMap_cons, flatMap_nil, hfd, update_self]

section
variable (hall : s.all = rest ++ [seg])
include hall

lemma fd_ne_last : ∀ x ∈ rest, x.fd ≠ seg.fd := by
  have hfds := h.fds
  rw [hall, map_append, nodup_append] at hfds
  exact fun x hx => hfds.2.2 _ (mem_map_of_mem hx) _ (by simp)

lemma path_ne_last : ∀ x ∈ rest, x.path ≠ seg.path := by
  have hpaths := h.paths
  rw [hall, map_append, nodup_append] at hpaths
  exact fun x hx => hpaths.2.2 _ (mem_map_of_mem hx) _ (by simp)

lemma firstIndex_lt_last : ∀ x ∈ rest, x.firstIndex < seg.firstIndex := by
  intro x hx
  have hsorted := h.sorted
  rw [hall] at hsorted
  have := (pairwise_append.mp hsorted).2.2 x hx seg (by simp)
  have := (h.closed x (mem_segments_of_all hall x hx)).2.1
  omega

lemma dir_replaceLast (hfd : seg'.fd = seg.fd) (hfree : ∀ x ∈ rest, x.path ≠ seg'.path) (hlookup : ∀ name, d.lookup name =
      if name = seg'.path then some seg.fd else if name = seg.path then none else s.disk.lookup name)
    (name : FileName) (fd : Nat) : d.lookup name = some fd ↔ ∃ x ∈ rest ++ [seg'], x.path = name ∧ x.fd = fd := by
  have hother := h.path_ne_last hall
  have hdir := h.dir name fd
  rw [hall] at hdir
  simp only [hlookup, mem_append, mem_singleton, or_and_right, exists_or, exists_eq_left, hfd] at hdir ⊢
  by_cases hnew : name = seg'.path
  · subst hnew
    rw [if_pos rfl]
    constructor
    · intro hsome
      exact .inr ⟨rfl, some.inj hsome⟩
    · rintro (⟨x, hx, hp, -⟩ | ⟨-, rfl⟩)
      · exact absurd hp (hfree x hx)
      · rfl
  · rw [if_neg hnew]
    by_cases hold : name = seg.path
    · subst hold
      rw [if_pos rfl]
      simp only [reduceCtorEq, false_iff]
      rintro (⟨x, hx, hp, -⟩ | ⟨hp, -⟩)
      · exact hother x hx hp
      · exact hnew hp.symm
    · rw [if_neg hold, hdir]
      simp [Ne.symm hold, Ne.symm hnew]

end

lemma replaceLast {t : Storage} (recs' : Nat → List Record)
    (hall : s.all = rest ++ [seg]) (hall' : t.all = rest ++ [seg']) (hfd : seg'.fd = seg.fd)
    (hfree : ∀ x ∈ rest, x.path ≠ seg'.path) (hrecs : ∀ fd, fd ≠ seg.fd → recs' fd = recs fd)
    (hcontent : ∀ fd, fd ≠ seg.fd → t.disk.content fd = s.disk.content fd) (hholds : seg'.Holds env t.disk (recs' seg.fd))
    (hnext : t.disk.next = s.disk.next) (hlookup : ∀ name, t.disk.lookup name =
      if name = seg'.path then some seg.fd else if name = seg.path then none else s.disk.lookup name) :
    (∀ x ∈ t.all, x.Holds env t.disk (recs' x.fd)) ∧ (t.all.map (·.fd)).Nodup ∧ (∀ x ∈ t.all, x.fd < t.disk.next) ∧
      ∀ name fd, t.disk.lookup name = some fd ↔ ∃ x ∈ t.all, x.path = name ∧ x.fd = fd := by
  have hne := h.fd_ne_last hall
  have hmem : ∀ x ∈ t.all, x ∈ rest ∨ x = seg' := fun x hx => by simpa [hall'] using hx
  refine ⟨fun x hx => ?_, ?_, fun x hx => ?_, hall' ▸ h.dir_replaceLast hall hfd hfree hlookup⟩
  · rcases hmem x hx with hx | rfl
    · rw [hrecs x.fd (hne x hx)]
      exact (h.holds x (by simp [hall, hx])).congr (hcontent x.fd (hne x hx))
    · rw [hfd]
      exact hholds
  · have hfds := h.fds
    rw [hall] at hfds
    rw [hall']
    simpa [hfd] using hfds
  · rw [hnext]
    rcases hmem x hx with hx | rfl
    · exact h.fresh x (by simp [hall, hx])
    · rw [hfd]
      exact h.fresh seg (by simp [hall])

lemma withClosed (ho : s.openSegment = some seg) (hne : recs seg.fd ≠ []) : Inv env (s.withClosed seg) recs base := by
  have hall : s.all = s.segments ++ [seg] := by simp [all, ho]
  have hall' : (s.withClosed seg).all = s.segments ++ [{ seg with isOpen := false }] := by simp [all, Storage.withClosed]
  have hseg : seg ∈ s.all := by simp [hall]
  have hlen := h.length_recs seg hseg
  have hpos := length_pos_iff.mpr hne
  have hopen := h.opened seg ho
  have hpath : path { seg with isOpen := false } = .closed seg.firstIndex seg.lastIndex := by
    simp [path, getPath]
  -- An older segment of the closed name would start where this one does.
  have hfree : ∀ x ∈ s.segments, x.path ≠ path { seg with isOpen := false } := by
    intro x hx hp
    rw [hpath, h.path_of_closed hx] at hp
    injection hp with hfirst
    exact Int.ne_of_lt (h.firstIndex_lt_last hall x hx) hfirst
  obtain ⟨hholds, hfds, hfresh, hdir⟩ := h.replaceLast (t := s.withClosed seg) recs hall hall' rfl hfree (fun _ _ => rfl)
    (fun _ _ => rfl) (((h.holds seg hseg).setIsOpen false).congr rfl) rfl
    (by rw [hpath, h.path_of_opened ho]; exact fun _ => lookup_move)
  refine ⟨?_, hholds, hfds, hfresh, hdir, ?_, by simp [Storage.withClosed], h.base_le, h.first_le, h.logMeta⟩
  · have htiles := h.tiles
    rw [hall, Contiguous, tiles_concat] at htiles
    rw [hall', Contiguous, tiles_concat]
    exact htiles
  · intro x hx
    rcases mem_append.mp hx with hx | hx
    · exact h.closed x hx
    · obtain rfl := mem_singleton.mp hx
      refine ⟨rfl, ?_, ?_⟩
      · show seg.firstIndex ≤ seg.lastIndex
        omega
      · show s.firstLogIndex ≤ seg.lastIndex
        rcases hopen.2 with hempty | hle
        · omega
        · exact hle

end

lemma records_withClosed (ho : s.openSegment = some seg) : (s.withClosed seg).records recs base = s.records recs base := by
  simp [records, stored, all, Storage.withClosed, ho]

lemma withRolled (h : Inv env s recs base) (ho : s.openSegment = some seg) (hne : recs seg.fd ≠ []) : Inv env
      { (s.withClosed seg).withCreated with
          disk := (s.disk.added (.inprogress (s.lastLogIndex + 1))).move (.inprogress seg.firstIndex)
            (.closed seg.firstIndex seg.lastIndex) seg.fd }
      (update recs s.disk.next []) base := by
  have hseg : seg ∈ s.all := mem_all.mpr (.inr ho)
  have hlen := h.length_recs seg hseg
  have hpos := length_pos_iff.mpr hne
  have hlast := (h.tiles.mem hseg).2.2
  refine ((h.withClosed ho hne).withCreated rfl).setDisk rfl rfl rfl ?_
  intro name
  show lookup _ name = lookup (added (move ..) (.inprogress (s.lastLogIndex + 1))) name
  rw [lookup_added, lookup_move, lookup_move, lookup_added]
  -- The new segment starts behind the closed one, so the three names differ.
  by_cases hc : name = .closed seg.firstIndex seg.lastIndex
  · simp [hc]
  · by_cases hn : name = .inprogress (s.lastLogIndex + 1)
    · have hp : ¬ s.lastLogIndex + 1 = seg.firstIndex := by omega
      simp [hn, hp, move]
    · simp [hc, hn]

lemma getOpenSegment_spec (hio : io.Ok) (henv : 0 ≤ env.raftMaxSegmentSize) (h : Inv env s recs base) :
    ∃ seg t recs', s.getOpenSegment env io = (some seg, t) ∧ t.openSegment = some seg ∧ Inv env t recs' base ∧
      t.records recs' base = s.records recs base ∧ Frame s t := by
  cases ho : s.openSegment with
  | none =>
    have hnone := h.lookup_inprogress (i := s.lastLogIndex + 1) (by simp [ho])
    refine ⟨_, s.withCreated, _, ?_, rfl, h.withCreated ho, h.records_withCreated ho, ⟨rfl, rfl, rfl, rfl⟩⟩
    simp [getOpenSegment, ho, create_spec hio hnone, Storage.withCreated]
  | some seg =>
    have hseg : seg ∈ s.all := mem_all.mpr (.inr ho)
    by_cases hfull : (seg.bytes : Int) > env.raftMaxSegmentSize
    · have hne : recs seg.fd ≠ [] := by
        intro hnil
        have := (h.holds seg hseg).bytes
        rw [hnil] at this
        simp only [encodeAll_nil, length_nil] at this
        omega
      have hlen := h.length_recs seg hseg
      have hpos := length_pos_iff.mpr hne
      have hlast := (h.tiles.mem hseg).2.2
      have hnone := h.lookup_inprogress (i := s.lastLogIndex + 1) (by
        intro x hx
        obtain rfl := some.inj (ho.symm.trans hx)
        omega)
      have hsorted := h.firstIndex_lt_last (show s.all = s.segments ++ [seg] by simp [all, ho])
      have hclose := close_spec hio (h.opened seg ho).1
        (d := s.disk.added (.inprogress (s.lastLogIndex + 1))) (by
          have hl := h.lookup_path hseg
          rw [h.path_of_opened ho] at hl
          rw [show seg.getPath true = .inprogress seg.firstIndex from rfl, lookup_added, if_neg (by
            intro heq
            injection heq
            omega), hl])
      refine ⟨_, _, _, ?_, rfl, h.withRolled ho hne, ?_, ⟨rfl, rfl, rfl, rfl⟩⟩
      · have hreplace : insert { seg with isOpen := false } (s.segments ++ [seg]) =
            s.segments ++ [{ seg with isOpen := false }] := insert_replace hsorted rfl
        have hfilter := filter_some_pos (p := fun x : Segment => (x.bytes : Int) > env.raftMaxSegmentSize)
          (by simpa using hfull)
        simp only [getOpenSegment, ho, hfilter, create_spec hio hnone, insert_concat hsorted,
          hclose, hreplace]
        rfl
      · exact ((h.withClosed ho hne).records_withCreated rfl).trans (records_withClosed ho)
    · refine ⟨seg, s, recs, ?_, ho, h, rfl, ⟨rfl, rfl, rfl, rfl⟩⟩
      have hfilter := filter_some_neg (p := fun x : Segment => (x.bytes : Int) > env.raftMaxSegmentSize)
        (by simpa using hfull)
      simp only [getOpenSegment, ho, hfilter]

end Inv

def withAppended (env : Env) (s : Storage) (recs : Nat → List Record) (seg : Segment) (r : Record) : Storage :=
  { s with
      openSegment := some (seg.appended env r)
      disk := s.disk.setContent seg.fd (encodeAll env (recs seg.fd ++ [r]))
      latestEntriesCache := s.latestEntriesCache ++ [r.entry]
      latestEntry := some r.entry
      lastLogIndex := s.lastLogIndex + 1 }

namespace Inv

variable {r : Record}

section
variable (h : Inv env s recs base)
include h

section
variable (ho : s.openSegment = some seg)
include ho

lemma lastIndex_opened : seg.lastIndex = s.lastLogIndex := by
  have htiles := h.tiles
  rw [show s.all = s.segments ++ [seg] by simp [all, ho], Contiguous, tiles_concat] at htiles
  omega

lemma fd_ne_opened : ∀ x ∈ s.segments, x.fd ≠ seg.fd :=
  h.fd_ne_last (by simp [all, ho])

lemma withAppended (hi : r.entry.index = s.lastLogIndex + 1) :
    Inv env (s.withAppended env recs seg r) (update recs seg.fd (recs seg.fd ++ [r])) base := by
  have hall : s.all = s.segments ++ [seg] := by simp [all, ho]
  have hall' : (s.withAppended env recs seg r).all = s.segments ++ [seg.appended env r] := rfl
  have hseg : seg ∈ s.all := by simp [hall]
  have hlast := h.lastIndex_opened ho
  have hpath : (seg.appended env r).path = seg.path := by
    have := (h.opened seg ho).1
    simp [path, getPath, appended, this]
  have hfirst := h.first_le
  obtain ⟨hholds, hfds, hfresh, hdir⟩ := h.replaceLast (t := s.withAppended env recs seg r)
    (update recs seg.fd (recs seg.fd ++ [r])) hall hall' fd_appended
    (hpath ▸ h.path_ne_last hall) (fun _ hfd => update_of_ne hfd _ _) (fun _ hfd => content_setContent_ne hfd)
    (by rw [update_self]; exact appended_holds (h.holds seg hseg) (by omega)) rfl
    (fun name => by
      rw [hpath]
      split
      · next hname => rw [hname]; exact h.lookup_path hseg
      · rfl)
  refine ⟨?_, hholds, hfds, hfresh, hdir, h.closed, ?_, h.base_le, ?_, h.logMeta⟩
  · have htiles := h.tiles
    rw [hall, Contiguous, tiles_concat] at htiles
    rw [hall', Contiguous, tiles_concat, lastIndex_appended, firstIndex_appended]
    exact ⟨htiles.1, by omega, by simp only [Storage.withAppended]; omega⟩
  · intro x hx
    obtain rfl := some.inj hx
    rw [isOpen_appended, lastIndex_appended, hlast]
    exact ⟨(h.opened seg ho).1, .inr hfirst⟩
  · show s.firstLogIndex ≤ s.lastLogIndex + 1 + 1
    omega

lemma records_withAppended : (s.withAppended env recs seg r).records (update recs seg.fd (recs seg.fd ++ [r])) base =
      (s.records recs base).append r := by
  have hfirst := h.first_le
  have hstored : (s.withAppended env recs seg r).stored (update recs seg.fd (recs seg.fd ++ [r])) base =
      (s.stored recs base).append r := by
    simp [stored, all, Storage.withAppended, ho, flatMap_update (h.fd_ne_opened ho), Log.append]
  rw [records, hstored, records, Log.append_truncatePrefix (by rw [h.last_stored]; omega)]
  rfl

end

end

lemma appendEntry_spec (hio : io.Ok) (henv : 0 ≤ env.raftMaxSegmentSize) (h : Inv env s recs base) (entry : LogEntry)
    (hi : entry.index = s.lastLogIndex + 1) : ∃ t recs', s.appendEntry env io entry = (0, t) ∧ Inv env t recs' base ∧
      t.records recs' base = (s.records recs base).append ⟨entry, io.reserved⟩ ∧
      t.latestEntriesCache = s.latestEntriesCache ++ [entry] ∧ t.latestEntry = some entry := by
  obtain ⟨seg, t, recs', hget, ho, ht, hrec, hframe⟩ := h.getOpenSegment_spec hio henv
  have hseg : seg ∈ t.all := mem_all.mpr (.inr ho)
  have hlast := ht.lastIndex_opened ho
  have hlast' := hframe.lastLogIndex
  have happ := append_spec hio (ht.holds seg hseg) (ht.opened seg ho).1 (show entry.index = seg.lastIndex + 1 by
    omega)
  refine ⟨t.withAppended env recs' seg ⟨entry, io.reserved⟩, _, ?_, ht.withAppended ho ?_,
    hrec ▸ ht.records_withAppended ho, ?_, rfl⟩
  · simp only [appendEntry, hget, happ]
    rfl
  · show entry.index = t.lastLogIndex + 1
    omega
  · simp [Storage.withAppended, hframe.latestEntriesCache]

lemma appendEntry_erange (hio : io.Ok) (henv : 0 ≤ env.raftMaxSegmentSize) (h : Inv env s recs base)
    (entry : LogEntry) (hi : entry.index ≠ s.lastLogIndex + 1) :
    ∃ t recs', s.appendEntry env io entry = (erange, t) ∧ Inv env t recs' base ∧
      t.records recs' base = s.records recs base ∧ Frame s t := by
  obtain ⟨seg, t, recs', hget, ho, ht, hrec, hframe⟩ := h.getOpenSegment_spec hio henv
  have hlast := ht.lastIndex_opened ho
  have hlast' := hframe.lastLogIndex
  have happ : seg.append env io t.disk entry = (erange, seg, t.disk) :=
    append_erange (ht.opened seg ho).1 (by omega)
  refine ⟨t, recs', ?_, ht, hrec, hframe⟩
  simp only [appendEntry, hget, happ, erange]
  rw [← ho]
  rfl

end Inv

end Storage

end

end Myctk.Mraft
