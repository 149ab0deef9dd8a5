import Mathlib.Data.List.DropRight
import Myctk.Mraft.StorageAppend

/-! `TruncatePrefix` and `TruncateSuffix` on a storage that works, when they return. -/

namespace Myctk.Mraft
open Lib Storage Disk List Option Function Segment SegmentMap

structure Disk.Without (d : Disk) (names : List FileName) (d' : Disk) : Prop where
  content : d'.content = d.content
  next : d'.next = d.next
  logMeta : d'.logMeta = d.logMeta
  lookup : ∀ n, d'.lookup n = if n ∈ names then none else d.lookup n

lemma Disk.Without.congr {d d' : Disk} {a b : List FileName} (h : d.Without a d') (hab : ∀ n, n ∈ a ↔ n ∈ b) : d.Without b d' :=
  ⟨h.content, h.next, h.logMeta, fun n => by simp only [h.lookup, hab]⟩

namespace Storage

variable {env : Env} {io : Io} {s t : Storage} {recs : Nat → List Record} {base : Int} {seg : Segment}

lemma unlink_spec (hio : io.Ok) (popped : List Segment) (d : Disk) (ret : Int)
    (hthere : ∀ x ∈ popped, ∃ fd, d.lookup x.path = some fd) (hnodup : (popped.map (·.path)).Nodup)
    (htmp : ∀ n, d.lookup (.tmp n) = none) :
    unlinkUntil io popped ret d = (if popped.isEmpty then ret else 0, unlinkAll io d popped) ∧
      d.Without (popped.map (·.path)) (unlinkAll io d popped) := by
  induction popped generalizing d ret with
  | nil => exact ⟨rfl, rfl, rfl, rfl, by simp [unlinkAll]⟩
  | cons x popped ih =>
    obtain ⟨hx, hpopped⟩ := nodup_cons.mp hnodup
    obtain ⟨fd, hfd⟩ := hthere x mem_cons_self
    have hstep := Segment.unlink_spec hio hfd
    have hlookup : ∀ n, (removed d x fd).lookup n = if n = x.path then none else d.lookup n := fun n =>
      lookup_removed (htmp _)
    obtain ⟨hun, hout⟩ := ih (removed d x fd) 0
      (by
        intro y hy
        obtain ⟨fd', hfd'⟩ := hthere y (mem_cons_of_mem _ hy)
        refine ⟨fd', ?_⟩
        rw [hlookup, if_neg, hfd']
        intro heq
        exact hx (mem_map.mpr ⟨y, hy, heq⟩))
      hpopped (by intro n; rw [hlookup]; split <;> simp [htmp])
    have hall : unlinkAll io d (x :: popped) = unlinkAll io (Segment.removed d x fd) popped := by
      simp [unlinkAll, foldl_cons, hstep]
    rw [hall]
    refine ⟨?_, hout.content, hout.next, hout.logMeta, ?_⟩
    · simp only [unlinkUntil, hstep, hun]
      simp
    · intro n
      rw [hout.lookup, hlookup, map_cons]
      by_cases hn : n = x.path
      · simp [hn]
      · simp [hn]

variable {dropped : List Segment} {fuel : Nat} {cache out : List LogEntry} {rc : Int}

lemma Inv.keep (h : Inv env s recs base) {d : Disk}
    (hall : s.all.Perm (dropped ++ t.all)) (hd : d.Without (dropped.map (·.path)) t.disk)
    (hcontent : d.content = s.disk.content) (hnext : d.next = s.disk.next) (hlookup : ∀ n, d.lookup n = s.disk.lookup n) :
    (∀ x ∈ t.all, x.Holds env t.disk (recs x.fd)) ∧ (t.all.map (·.fd)).Nodup ∧ (∀ x ∈ t.all, x.fd < t.disk.next) ∧
      ∀ name fd, t.disk.lookup name = some fd ↔ ∃ x ∈ t.all, x.path = name ∧ x.fd = fd := by
  have hmem : ∀ x, x ∈ s.all ↔ x ∈ dropped ∨ x ∈ t.all := fun x => by rw [hall.mem_iff, mem_append]
  have hfds := (hall.map (·.fd)).nodup_iff.mp h.fds
  have hpaths := (hall.map (·.path)).nodup_iff.mp h.paths
  rw [map_append] at hfds hpaths
  refine ⟨?_, (nodup_append.mp hfds).2.1, ?_, ?_⟩
  · intro x hx
    exact (h.holds x ((hmem x).mpr (.inr hx))).congr (by rw [hd.content, hcontent])
  · intro x hx
    rw [hd.next, hnext]
    exact h.fresh x ((hmem x).mpr (.inr hx))
  · intro name fd
    rw [hd.lookup]
    split
    · next hname =>
      simp only [reduceCtorEq, false_iff]
      rintro ⟨x, hx, rfl, -⟩
      exact (nodup_append.mp hpaths).2.2 _ hname _ (mem_map_of_mem hx) rfl
    · next hname =>
      rw [hlookup, h.dir]
      constructor
      · rintro ⟨x, hx, rfl, rfl⟩
        rcases (hmem x).mp hx with hx | hx
        · exact absurd (mem_map_of_mem hx) hname
        · exact ⟨x, hx, rfl, rfl⟩
      · rintro ⟨x, hx, hp, hfd⟩
        exact ⟨x, (hmem x).mpr (.inr hx), hp, hfd⟩

lemma loop_popFrontPass {k : Int} (h : loop (popFrontPass k) fuel cache = some out) : out = [] := by
  refine loop_exit (P := fun r => r = []) (fun c r hr => ?_) h
  cases c with
  | nil => exact (Sum.inr.inj hr).symm
  | cons e c =>
    simp only [popFrontPass] at hr
    split at hr <;> cases hr

/-- What `PopSegments` leaves: the segments that reach up to `k`. -/
structure Popped (s : Storage) (k : Int) (dropped : List Segment) (t : Storage) : Prop where
  all : s.all = dropped ++ t.all
  below : ∀ x ∈ dropped, x.lastIndex < k
  closed : ∀ x ∈ t.segments, x ∈ s.segments ∧ k ≤ x.lastIndex
  opened : ∀ x, t.openSegment = some x → s.openSegment = some x ∧ k ≤ x.lastIndex
  last : t.all = [] ∧ t.lastLogIndex = k - 1 ∨ t.lastLogIndex = s.lastLogIndex ∧ k ≤ s.lastLogIndex
  first : t.firstLogIndex = k
  disk : t.disk = s.disk
  cache : t.latestEntriesCache = s.latestEntriesCache
  latest : t.latestEntry = s.latestEntry

/-- No closed segment ends before `k`, so that `PopSegments` erases none. -/
def KeepsClosed (s : Storage) (k : Int) : Prop := ∀ seg ∈ s.segments.head?, k ≤ seg.lastIndex

instance (s : Storage) (k : Int) : Decidable (s.KeepsClosed k) := inferInstanceAs (Decidable (∀ seg ∈ s.segments.head?, _))

lemma Inv.popSegments_spec (io : Io) (h : Inv env s recs base) {k : Int} (keeps : s.KeepsClosed k) :
    ∃ dropped t, s.popSegments io k = some (dropped, t) ∧ Popped s k dropped t := by
  cases hs : s.segments with
  | cons x rest =>
    -- The first closed segment reaches up to `k`, and the others lie behind it.
    have hx : k ≤ x.lastIndex := keeps x (by rw [hs]; rfl)
    have hafter : ∀ y ∈ s.all, k ≤ y.lastIndex := by
      intro y hy
      have hsorted := h.sorted
      rw [all, hs, cons_append] at hsorted
      have h2 := (h.tiles.mem hy).2.1
      rw [all, hs, cons_append] at hy
      rcases mem_cons.mp hy with rfl | hy
      · exact hx
      · have h1 := (pairwise_cons.mp hsorted).1 y hy
        omega
    have hxs := (h.tiles.mem (x := x) (by simp [all, hs])).2.2
    have hstop : ¬ x.lastIndex < k := by omega
    refine ⟨[], { s with firstLogIndex := k }, by simp [popSegments, popLoop, hs, hstop], rfl, by simp, ?_, ?_,
      .inr ⟨rfl, by omega⟩, rfl, rfl, rfl, rfl⟩
    · exact fun y hy => ⟨hy, hafter y (mem_all.mpr (.inl hy))⟩
    · exact fun y hy => ⟨hy, hafter y (mem_all.mpr (.inr hy))⟩
  | nil =>
    cases ho : s.openSegment with
    | none =>
      refine ⟨[], { s with firstLogIndex := k, lastLogIndex := k - 1 }, by simp [popSegments, popLoop, hs, ho], ?_⟩
      exact ⟨rfl, by simp, by simp [hs], by simp [ho], .inl ⟨by simp [all, hs, ho], rfl⟩, rfl, rfl, rfl, rfl⟩
    | some o =>
      by_cases hlt : o.lastIndex < k
      · refine ⟨[o], { s with firstLogIndex := k, openSegment := none, lastLogIndex := k - 1 },
          by simp [popSegments, popLoop, hs, ho, hlt], ?_⟩
        exact ⟨by simp [all, hs, ho], by simpa using hlt, by simp [hs], by simp, .inl ⟨by simp [all, hs], rfl⟩, rfl, rfl,
          rfl, rfl⟩
      · have hlast := h.lastIndex_opened ho
        refine ⟨[], { s with firstLogIndex := k }, by simp [popSegments, popLoop, hs, ho, hlt], rfl, by simp, by simp [hs], ?_,
          .inr ⟨rfl, by omega⟩, rfl, rfl, rfl, rfl⟩
        intro x hx
        obtain rfl := some.inj (ho.symm.trans hx)
        exact ⟨ho, by omega⟩

lemma popSegments_setDisk (io : Io) (d : Disk) (k : Int) :
    popSegments io { s with disk := d } k = (s.popSegments io k).map fun p => (p.1, { p.2 with disk := d }) := by
  simp only [popSegments, Option.map_map]
  congr 1
  funext ⟨popped, segments, atEnd⟩
  cases atEnd with
  | false => rfl
  | true =>
    simp only [comp_apply]
    cases s.openSegment with
    | none => rfl
    | some o => by_cases hlt : o.lastIndex < k <;> simp [hlt]

lemma Inv.truncatePrefix_spec (hio : io.Ok) (h : Inv env s recs base) {k : Int} (keeps : s.KeepsClosed k)
    (hret : s.truncatePrefix io fuel k = some (rc, t)) :
    rc = 0 ∧ ∃ base', Inv env t recs base' ∧ t.records recs base' = (s.records recs base).truncatePrefix k ∧
      t.latestEntry = s.latestEntry ∧ (t = s ∧ k ≤ s.firstLogIndex ∨ t.latestEntriesCache = []) := by
  by_cases hk : s.firstLogIndex ≥ k
  · rw [truncatePrefix, if_pos hk] at hret
    cases hret
    refine ⟨rfl, base, h, ?_, rfl, .inl ⟨rfl, hk⟩⟩
    rw [Log.truncatePrefix_of_le (by rw [h.first_records]; exact hk)]
  · obtain ⟨d, hd⟩ : ∃ d : Disk, d = { s.disk with logMeta := some k } := ⟨_, rfl⟩
    obtain ⟨dropped, t0, heq, hpop⟩ := h.popSegments_spec io keeps
    obtain ⟨cache, hcache, rfl, rfl⟩ : ∃ cache, cache = [] ∧ rc = 0 ∧
        t = { t0 with disk := unlinkAll io d dropped, latestEntriesCache := cache } := by
      simp only [truncatePrefix, if_neg hk, saveMeta, hio.saveMetaOk, if_true, ← hd, popSegments_setDisk, heq, map_some,
        bind_some, ne_eq, not_true_eq_false, if_false, map_eq_some_iff, Prod.mk.injEq] at hret
      obtain ⟨cache, hloop, hrc, ht⟩ := hret
      exact ⟨cache, loop_popFrontPass hloop, hrc.symm, ht.symm⟩
    have hmem : ∀ x ∈ dropped, x ∈ s.all := fun x hx => hpop.all ▸ mem_append_left _ hx
    have hpaths := h.paths
    rw [hpop.all, map_append] at hpaths
    have hun := unlink_spec hio dropped d 0
      (fun x hx => ⟨x.fd, by rw [hd]; exact h.lookup_path (hmem x hx)⟩) (nodup_append.mp hpaths).1
      (fun n => by rw [hd]; exact h.lookup_tmp n)
    obtain ⟨hholds, hfds, hfresh, hdir⟩ := h.keep
      (t := { t0 with disk := unlinkAll io d dropped, latestEntriesCache := cache })
      (by rw [hpop.all]; rfl) hun.2 (by rw [hd]) (by rw [hd]) (fun n => by rw [hd]; rfl)
    have htiles := h.tiles
    rw [hpop.all] at htiles
    obtain ⟨mid, hdrop, hrest⟩ := tiles_append.mp htiles
    have hbase := h.base_le
    have hmid : mid ≤ k := hdrop.le_of_forall (by omega) fun x hx => by
      have := hpop.below x hx
      omega
    have hlen := hdrop.length_flatMap fun x hx => h.length_recs x (hmem x hx)
    have hrecords : (s.records recs base).truncatePrefix k =
        Log.truncatePrefix ⟨mid, t0.all.flatMap fun x => recs x.fd⟩ k := by
      have hmid' : base + ((dropped.flatMap fun x => recs x.fd).length : Int) = mid := by omega
      rw [records, Log.truncatePrefix_truncatePrefix (by omega), stored, hpop.all, flatMap_append,
        Log.truncatePrefix_append_left (by omega), hmid']
    have hmeta : (unlinkAll io d dropped).logMeta = some t0.firstLogIndex := by
      rw [hun.2.logMeta, hd, hpop.first]
    have hclosed : ∀ x ∈ t0.segments,
        x.isOpen = false ∧ x.firstIndex ≤ x.lastIndex ∧ t0.firstLogIndex ≤ x.lastIndex := fun x hx =>
      ⟨(h.closed x (hpop.closed x hx).1).1, (h.closed x (hpop.closed x hx).1).2.1, hpop.first ▸ (hpop.closed x hx).2⟩
    have hopened : ∀ x ∈ t0.openSegment,
        x.isOpen = true ∧ (x.lastIndex < x.firstIndex ∨ t0.firstLogIndex ≤ x.lastIndex) := fun x hx =>
      ⟨(h.opened x (hpop.opened x hx).1).1, .inr (hpop.first ▸ (hpop.opened x hx).2)⟩
    rcases hpop.last with ⟨hnil, hlast⟩ | ⟨hlast, hle⟩
    · refine ⟨rfl, k, ⟨?_, hholds, hfds, hfresh, hdir, hclosed, hopened, ?_, ?_, hmeta⟩, ?_, hpop.latest, .inr hcache⟩
      · show Contiguous k t0.all (t0.lastLogIndex + 1)
        rw [hnil, hlast]
        simp only [Tiles]
        omega
      · exact Int.le_of_eq hpop.first.symm
      · show t0.firstLogIndex ≤ t0.lastLogIndex + 1
        rw [hpop.first, hlast]
        omega
      · show Log.truncatePrefix ⟨k, t0.all.flatMap fun x => recs x.fd⟩ t0.firstLogIndex = _
        rw [hrecords, hpop.first, hnil]
        simp only [Log.truncatePrefix, flatMap_nil, drop_nil, Int.le_refl, if_true]
        split
        · rw [show mid = k by omega]
        · rfl
    · refine ⟨rfl, mid, ⟨?_, hholds, hfds, hfresh, hdir, hclosed, hopened, ?_, ?_, hmeta⟩, ?_, hpop.latest, .inr hcache⟩
      · show Contiguous mid t0.all (t0.lastLogIndex + 1)
        rw [hlast]
        exact hrest
      · exact hpop.first ▸ hmid
      · show t0.firstLogIndex ≤ t0.lastLogIndex + 1
        rw [hpop.first, hlast]
        omega
      · rw [hrecords, records, ← hpop.first]
        rfl

lemma loop_popBackPass {k : Int} (h : loop (popBackPass k) fuel cache = some out) : out = [] := by
  refine loop_exit (P := fun r => r = []) (fun c r hr => ?_) h
  simp only [popBackPass] at hr
  split at hr
  · exact (Sum.inr.inj hr).symm
  · split at hr <;> cases hr

structure PoppedBack (s : Storage) (k : Int) (dropped : List Segment) (t : Storage) : Prop where
  all : s.all = t.all ++ dropped
  above : ∀ x ∈ dropped, k < x.firstIndex
  below : ∀ x, t.all.getLast? = some x → x.firstIndex ≤ k
  empty : t.all = [] → k + 1 = s.firstLogIndex
  closed : ∀ x ∈ t.segments, x ∈ s.segments
  opened : ∀ x, t.openSegment = some x → s.openSegment = some x
  first : t.firstLogIndex = s.firstLogIndex
  last : t.lastLogIndex = k
  disk : t.disk = s.disk
  latest : t.latestEntry = s.latestEntry

lemma split_back (p : Segment → Bool) (l : List Segment) :
    ∃ kept pop, l = kept ++ pop ∧ l.reverse.takeWhile p = pop.reverse ∧ (∀ x ∈ pop, p x = true) ∧
      ∀ x, kept.getLast? = some x → ¬ p x = true := by
  refine ⟨l.rdropWhile p, l.rtakeWhile p, ?_, ?_, fun x hx => mem_rtakeWhile_imp hx, ?_⟩
  · rw [rdropWhile, rtakeWhile, ← reverse_append, takeWhile_append_dropWhile, reverse_reverse]
  · rw [rtakeWhile, reverse_reverse]
  · intro x hx
    have hne : l.rdropWhile p ≠ [] := by
      intro hnil
      rw [hnil] at hx
      cases hx
    rw [getLast?_eq_getLast_of_ne_nil hne] at hx
    exact some.inj hx ▸ rdropWhile_last_not p l hne

lemma foldl_erase (popped l : List Segment) : popped.foldl (fun l y => erase y.firstIndex l) l =
    l.filter fun x => ∀ y ∈ popped, x.firstIndex ≠ y.firstIndex := by
  induction popped generalizing l with
  | nil => simp
  | cons y popped ih =>
    rw [List.foldl_cons, ih, erase, List.filter_filter]
    congr 1
    funext x
    simp [Bool.and_comm]

lemma erase_popped {kept popped : List Segment} (h : ∀ x ∈ kept, ∀ y ∈ popped, x.firstIndex ≠ y.firstIndex)
    (l : List Segment) (hl : ∀ x ∈ l, x ∈ popped) : popped.foldl (fun l y => erase y.firstIndex l) (kept ++ l) = kept := by
  rw [foldl_erase, filter_append, filter_eq_self.mpr, filter_eq_nil_iff.mpr, append_nil]
  · intro x hx
    simpa using ⟨x, hl x hx, rfl⟩
  · intro x hx
    simpa using h x hx

lemma Inv.popSegmentsFromBack_spec (h : Inv env s recs base) {k : Int} (hk : s.firstLogIndex - 1 ≤ k) (hk' : k ≤ s.lastLogIndex) :
    ∃ dropped t, s.popSegmentsFromBack k = (dropped.reverse, t.all.getLast?, t) ∧ PoppedBack s k dropped t := by
  cases hopen : s.openSegment.filter fun seg => decide (seg.firstIndex ≤ k) with
  | some seg =>
    obtain ⟨ho, hle⟩ : s.openSegment = some seg ∧ seg.firstIndex ≤ k := by
      simpa [filter_eq_some_iff] using hopen
    refine ⟨[], { s with lastLogIndex := k }, ?_, by simp [all], by simp, ?_, by simp [all, ho], fun _ hx => hx,
      fun _ hx => hx, rfl, rfl, rfl, rfl⟩
    · simp only [popSegmentsFromBack, hopen, all]
      simp [ho]
    · intro x hx
      simp only [all, ho, toList_some, getLast?_append, getLast?_singleton, some_or,
        some.injEq] at hx
      exact hx ▸ hle
  | none =>
    obtain ⟨kept, pop, hsplit, hrev, hp, hlast⟩ := split_back (fun seg : Segment => decide (seg.firstIndex > k)) s.segments
    have hall : s.all = kept ++ (pop ++ s.openSegment.toList) := by rw [all, hsplit, append_assoc]
    have hpopped : s.openSegment.toList ++ (s.segments.reverse.takeWhile fun seg => decide (seg.firstIndex > k)) =
        (pop ++ s.openSegment.toList).reverse := by
      have hopen : s.openSegment.toList.reverse = s.openSegment.toList := by cases s.openSegment <;> rfl
      rw [reverse_append, hopen, hrev]
    have habove : ∀ x ∈ pop ++ s.openSegment.toList, k < x.firstIndex := by
      intro x hx
      rcases mem_append.mp hx with hx | hx
      · exact of_decide_eq_true (hp x hx)
      · have hnot := filter_eq_none_iff.mp hopen x (mem_toList.mp hx)
        simp only [decide_eq_true_eq] at hnot
        omega
    have hkept : ∀ x ∈ kept, ∀ y ∈ (pop ++ s.openSegment.toList).reverse, x.firstIndex ≠ y.firstIndex := by
      intro x hx y hy
      have hsorted := h.sorted
      rw [hall] at hsorted
      have := (pairwise_append.mp hsorted).2.2 x hx y (mem_reverse.mp hy)
      have := (h.closed x (hsplit ▸ mem_append_left _ hx)).2.1
      omega
    have herase := erase_popped hkept pop (fun x hx => mem_reverse.mpr (mem_append_left _ hx))
    rw [← hsplit] at herase
    -- Where nothing is left, `k` lies right below the log.
    have hempty : kept = [] → k + 1 = s.firstLogIndex := by
      intro hnil
      have htiles := h.tiles
      have hbase := h.base_le
      have hle := h.first_le
      rw [hall, hnil, nil_append] at htiles
      cases hd : pop ++ s.openSegment.toList with
      | nil =>
        rw [hd] at htiles
        simp only [Tiles] at htiles
        omega
      | cons x l =>
        rw [hd] at htiles
        have := habove x (by simp [hd])
        have := htiles.1
        omega
    have hpb : ∀ t : Storage, t.segments = kept → t.openSegment = none → t.firstLogIndex = s.firstLogIndex →
        t.lastLogIndex = k → t.disk = s.disk → t.latestEntry = s.latestEntry →
        PoppedBack s k (pop ++ s.openSegment.toList) t := by
      intro t hseg ho hfirst hlast' hdisk hlatest
      have htall : t.all = kept := by simp [all, hseg, ho]
      refine ⟨by rw [htall, hall], habove, ?_, htall ▸ hempty, ?_, by simp [ho], hfirst, hlast', hdisk, hlatest⟩
      · intro x hx
        have hnot := hlast x (htall ▸ hx)
        simp only [decide_eq_true_eq] at hnot
        omega
      · intro x hx
        rw [hsplit]
        exact mem_append_left _ (hseg ▸ hx)
    cases hl : kept.getLast? with
    | some x =>
      refine ⟨_, { s with lastLogIndex := k, openSegment := none, segments := kept }, ?_,
        hpb _ rfl rfl rfl rfl rfl rfl⟩
      simp only [popSegmentsFromBack, hopen, hpopped, herase, hl]
      simp [all, hl]
    | none =>
      have hfirst := hempty (getLast?_eq_none_iff.mp hl)
      refine ⟨_, { s with lastLogIndex := k, openSegment := none, segments := kept, firstLogIndex := k + 1 }, ?_,
        hpb _ rfl rfl hfirst rfl rfl rfl⟩
      simp only [popSegmentsFromBack, hopen, hpopped, herase, hl]
      simp [all, hl]

lemma Inv.dropAll (h : Inv env s recs base) (hnil : t.all = []) (hfirst : t.firstLogIndex = s.firstLogIndex)
    (hlast : t.lastLogIndex + 1 = s.firstLogIndex) (hd : s.disk.Without (s.all.map (·.path)) t.disk) :
    Inv env t recs (t.lastLogIndex + 1) ∧
      t.records recs (t.lastLogIndex + 1) = (s.records recs base).truncateSuffix t.lastLogIndex := by
  obtain ⟨hholds, hfds, hfresh, hdir⟩ := h.keep (t := t) (d := s.disk) (by simp [hnil]) hd rfl rfl
    fun _ => rfl
  have hclosed : t.segments = [] := (append_eq_nil_iff.mp hnil).1
  have hopened : t.openSegment = none := toList_eq_nil_iff.mp (append_eq_nil_iff.mp hnil).2
  refine ⟨⟨?_, hholds, hfds, hfresh, hdir, by simp [hclosed], by simp [hopened], ?_, ?_, ?_⟩, ?_⟩
  · rw [hnil]
    rfl
  · omega
  · omega
  · rw [hd.logMeta, h.logMeta, hfirst]
  · have hrec := h.first_records
    simp only [Log.truncateSuffix, records, stored, hnil, flatMap_nil] at hrec ⊢
    rw [Log.truncatePrefix_of_le (by simp only; omega), hrec, show (t.lastLogIndex + 1 - s.firstLogIndex).toNat = 0 by omega,
      hlast]
    rfl

lemma Inv.dropBack (h : Inv env s recs base) {rest : List Segment} (hall : s.all = t.all ++ dropped)
    (hclosed : ∀ x ∈ t.segments, x ∈ s.segments) (hopened : ∀ x, t.openSegment = some x → s.openSegment = some x)
    (hfirst : t.firstLogIndex = s.firstLogIndex) (hrest : t.all = rest ++ [seg])
    (hlast : t.lastLogIndex = seg.lastIndex) (hle : s.firstLogIndex ≤ seg.lastIndex)
    (hd : s.disk.Without (dropped.map (·.path)) t.disk) :
    Inv env t recs base ∧ t.records recs base = (s.records recs base).truncateSuffix seg.lastIndex := by
  obtain ⟨hholds, hfds, hfresh, hdir⟩ := h.keep (t := t) (d := s.disk) (by rw [hall]; exact perm_append_comm) hd rfl
    rfl fun _ => rfl
  have htiles := h.tiles
  rw [hall] at htiles
  obtain ⟨mid, hkeep, hdrop⟩ := tiles_append.mp htiles
  have hmid : seg.lastIndex + 1 = mid := by
    rw [hrest, tiles_concat] at hkeep
    exact hkeep.2.2
  refine ⟨⟨?_, hholds, hfds, hfresh, hdir, ?_, ?_, ?_, ?_, ?_⟩, ?_⟩
  · rw [hlast, hmid]
    exact hkeep
  · rw [hfirst]
    exact fun x hx => h.closed x (hclosed x hx)
  · rw [hfirst]
    exact fun x hx => h.opened x (hopened x hx)
  · rw [hfirst]
    exact h.base_le
  · omega
  · rw [hd.logMeta, h.logMeta, hfirst]
  · have hlen := hkeep.length_flatMap fun x hx => h.length_recs x (hall ▸ mem_append_left _ hx)
    rw [records, records, hfirst, Log.truncateSuffix_truncatePrefix (by omega), stored, stored, hall,
      flatMap_append, Log.truncateSuffix_append_right (by omega), Log.truncateSuffix, take_of_length_le (by
        simp only
        omega)]

lemma setSegment_self {rest : List Segment} (hall : s.all = rest ++ [seg])
    (hsorted : ∀ x ∈ rest, x.firstIndex < seg.firstIndex) : s.setSegment seg = s := by
  obtain ⟨d, segments, o, last, first, cache, latest⟩ := s
  rcases all_concat hall with ⟨rfl, -⟩ | ⟨rfl, rfl⟩
  · rfl
  · simp [setSegment, insert_replace hsorted rfl]

/-- The storage with its last segment cut behind `k` and open. -/
def withTruncated (env : Env) (s : Storage) (recs : Nat → List Record) (rest : List Segment) (seg : Segment) (k : Int) :
    Storage :=
  { s with
      segments := rest
      openSegment := some (seg.truncated env (recs seg.fd) (k + 1 - seg.firstIndex).toNat)
      lastLogIndex := k
      disk := Disk.setContent (if seg.isOpen then s.disk else s.disk.move (seg.getPath false) (seg.getPath true) seg.fd)
        seg.fd (encodeAll env ((recs seg.fd).take (k + 1 - seg.firstIndex).toNat)) }

lemma truncateLast_nop {rest : List Segment} (hall : s.all = rest ++ [seg])
    (hsorted : ∀ x ∈ rest, x.firstIndex < seg.firstIndex) (io : Io) {k : Int} (hk : seg.lastIndex ≤ k) :
    s.truncateLast io seg k = (0, s) := by
  have hopen : ¬ (True ∧ (!seg.isOpen) = true ∧ seg.isOpen = true) := by cases seg.isOpen <;> simp
  simp [truncateLast, truncate_nop hk, setSegment_self hall hsorted]

lemma truncateLast_cut (hio : io.Ok) {rest : List Segment} (hall : s.all = rest ++ [seg])
    (hsorted : ∀ x ∈ rest, x.firstIndex < seg.firstIndex) (hclosed : ∀ x ∈ s.segments, x.isOpen = false)
    (hopened : ∀ x ∈ s.openSegment, x.isOpen = true) (hholds : seg.Holds env s.disk (recs seg.fd))
    (hl : s.disk.lookup seg.path = some seg.fd) {k : Int} (hlast : s.lastLogIndex = k) (hk : seg.firstIndex ≤ k)
    (hk' : k < seg.lastIndex) : s.truncateLast io seg k = (0, s.withTruncated env recs rest seg k) := by
  have htrunc := truncate_spec hio hholds (show seg.firstIndex - 1 ≤ k by omega) hk' hl
  have hopenT : ∀ n, (seg.truncated env (recs seg.fd) n).isOpen = true := fun n => by simp only [truncated]
  rcases all_concat hall with ⟨ho, hseg⟩ | ⟨ho, hseg⟩
  · have hopen := hopened seg ho
    simp only [truncateLast, htrunc, hopen, hopenT, setSegment, ho, withTruncated, hseg, hlast]
    rfl
  · have hopen := hclosed seg (by simp [hseg])
    have herase : erase seg.firstIndex (rest ++ [seg]) = rest := by
      rw [erase, filter_append, filter_eq_self.mpr]
      · simp
      · intro x hx
        simpa using Int.ne_of_lt (hsorted x hx)
    simp only [truncateLast, htrunc, hopen, hopenT, withTruncated, hseg, hlast, firstIndex_truncated, herase]
    rfl

section
variable {rest : List Segment} {k : Int}

lemma Inv.lookup_withTruncated (h : Inv env s recs base) (hseg : seg ∈ s.all) (name : FileName) :
    (s.withTruncated env recs rest seg k).disk.lookup name = if name = .inprogress seg.firstIndex then some seg.fd
      else if name = seg.path then none else s.disk.lookup name := by
  have hl := h.lookup_path hseg
  simp only [withTruncated, lookup_setContent]
  cases ho : seg.isOpen with
  | true =>
    have hp : seg.path = .inprogress seg.firstIndex := by simp [path, getPath, ho]
    rw [hp] at hl ⊢
    by_cases hname : name = .inprogress seg.firstIndex
    · simp [hname, hl]
    · simp [hname]
  | false =>
    have hp : seg.path = seg.getPath false := by simp [path, ho]
    simp only [Bool.false_eq_true, if_false, lookup_move, hp, getPath, if_true]

lemma content_withTruncated_ne {fd : Nat} (hfd : fd ≠ seg.fd) :
    (s.withTruncated env recs rest seg k).disk.content fd = s.disk.content fd := by
  simp only [withTruncated]
  rw [content_setContent_ne hfd]
  split <;> rfl

lemma next_withTruncated : (s.withTruncated env recs rest seg k).disk.next = s.disk.next := by
  simp only [withTruncated, setContent]
  split <;> rfl

lemma logMeta_withTruncated : (s.withTruncated env recs rest seg k).disk.logMeta = s.disk.logMeta := by
  simp only [withTruncated, setContent]
  split <;> rfl

variable (h : Inv env s recs base) (hall : s.all = rest ++ [seg])
include h hall

lemma Inv.withTruncated (hfirst : s.firstLogIndex ≤ k) (hk : seg.firstIndex ≤ k) (hk' : k < seg.lastIndex) :
    Inv env (s.withTruncated env recs rest seg k) (update recs seg.fd ((recs seg.fd).take (k + 1 - seg.firstIndex).toNat)) base := by
  obtain ⟨n, hn⟩ : ∃ n, (k + 1 - seg.firstIndex).toNat = n := ⟨_, rfl⟩
  have hseg : seg ∈ s.all := by simp [hall]
  have hlen := h.length_recs seg hseg
  have hrestmem := mem_segments_of_all hall
  have hall' : (s.withTruncated env recs rest seg k).all = rest ++ [seg.truncated env (recs seg.fd) n] := hn ▸ rfl
  have hpath : (seg.truncated env (recs seg.fd) n).path = .inprogress seg.firstIndex := by
    simp [path, getPath, truncated]
  have hcut : (s.withTruncated env recs rest seg k).disk.content seg.fd = encodeAll env ((recs seg.fd).take n) :=
    hn ▸ content_setContent
  have hlast : (seg.truncated env (recs seg.fd) n).lastIndex = k := by
    simp only [truncated]
    omega
  rw [hn]
  obtain ⟨hholds, hfds, hfresh, hdir⟩ := h.replaceLast (update recs seg.fd ((recs seg.fd).take n)) hall hall'
    fd_truncated (fun x hx => by rw [hpath, h.path_of_closed (hrestmem x hx)]; simp)
    (fun _ hfd => update_of_ne hfd _ _) (fun _ hfd => content_withTruncated_ne hfd)
    (by
      rw [update_self]
      refine (truncated_holds (n := n) (h.holds seg hseg) (by omega)).congr ?_
      rw [fd_truncated, hcut, content_setContent])
    next_withTruncated (hpath ▸ h.lookup_withTruncated hseg)
  refine ⟨?_, hholds, hfds, hfresh, hdir, fun x hx => h.closed x (hrestmem x hx), fun x hx => ?_, h.base_le, ?_,
    logMeta_withTruncated.trans h.logMeta⟩
  · have htiles := h.tiles
    rw [hall, Contiguous, tiles_concat] at htiles
    rw [hall', Contiguous, tiles_concat, firstIndex_truncated, hlast]
    exact ⟨htiles.1, by omega, rfl⟩
  · obtain rfl : seg.truncated env (recs seg.fd) n = x := hn ▸ some.inj hx
    rw [hlast]
    exact ⟨by simp only [truncated], .inr hfirst⟩
  · show s.firstLogIndex ≤ k + 1
    omega

lemma Inv.records_withTruncated (hfirst : s.firstLogIndex ≤ k) (hk : seg.firstIndex ≤ k) :
    (s.withTruncated env recs rest seg k).records (update recs seg.fd ((recs seg.fd).take (k + 1 - seg.firstIndex).toNat)) base =
        (s.records recs base).truncateSuffix k := by
  have htiles := h.tiles
  rw [hall, Contiguous, tiles_concat] at htiles
  have hlen := htiles.1.length_flatMap fun x hx => h.length_recs x (by simp [hall, hx])
  have hlo := htiles.1.le
  have hall' : (s.withTruncated env recs rest seg k).all =
      rest ++ [seg.truncated env (recs seg.fd) (k + 1 - seg.firstIndex).toNat] := rfl
  rw [records, records, show (s.withTruncated env recs rest seg k).firstLogIndex = s.firstLogIndex from rfl,
    Log.truncateSuffix_truncatePrefix (by omega), stored, stored, hall', hall]
  congr 1
  simp only [Log.truncateSuffix, flatMap_append, flatMap_cons, flatMap_nil, append_nil,
    flatMap_update (h.fd_ne_last hall), fd_truncated, update_self, take_append]
  rw [take_of_length_le (l := rest.flatMap fun x => recs x.fd) (by omega)]
  congr 3
  omega

end

lemma Inv.unlink_popped (hio : io.Ok) (h : Inv env s recs base) (popped rest : List Segment)
    (hall : s.all.Perm (popped ++ rest)) (ret : Int) :
    unlinkUntil io popped ret s.disk = (if popped.isEmpty then ret else 0, unlinkAll io s.disk popped) ∧
      s.disk.Without (popped.map (·.path)) (unlinkAll io s.disk popped) := by
  have hpaths := (hall.map (·.path)).nodup_iff.mp h.paths
  rw [map_append] at hpaths
  exact unlink_spec hio popped s.disk ret
    (fun x hx => ⟨x.fd, h.lookup_path (hall.mem_iff.mpr (mem_append_left _ hx))⟩)
    (nodup_append.mp hpaths).1 h.lookup_tmp

lemma PoppedBack.reaches (h : Inv env s recs base) {k : Int} {rest : List Segment} (hp : PoppedBack s k dropped t)
    (hk : k ≤ s.lastLogIndex) (hrest : t.all = rest ++ [seg]) : k ≤ seg.lastIndex := by
  have htiles := h.tiles
  rw [hp.all, hrest] at htiles
  obtain ⟨mid, hkeep, hdrop⟩ := tiles_append.mp htiles
  have hmid := (tiles_concat.mp hkeep).2.2
  cases hdr : dropped with
  | nil =>
    rw [hdr] at hdrop
    simp only [Tiles] at hdrop
    omega
  | cons x l =>
    rw [hdr] at hdrop
    have := hp.above x (by simp [hdr])
    have := hdrop.1
    omega

lemma PoppedBack.alone (h : Inv env s recs base) {k : Int} {rest : List Segment} (hp : PoppedBack s k dropped t)
    (hk : k < s.firstLogIndex) (hrest : t.all = rest ++ [seg]) : rest = [] := by
  rcases rest with _ | ⟨x, rest⟩
  · rfl
  · have hx := h.closed x (hp.closed x (mem_segments_of_all hrest x mem_cons_self))
    have hsorted := h.sorted
    rw [hp.all, hrest] at hsorted
    have := (pairwise_append.mp (pairwise_append.mp hsorted).1).2.2 x mem_cons_self seg (by simp)
    have := hp.below seg (by rw [hrest, getLast?_concat])
    omega

lemma Inv.truncateSuffix_spec (hio : io.Ok) (h : Inv env s recs base) {k : Int}
    (hk : s.firstLogIndex - 1 ≤ k) (hk' : k ≤ s.lastLogIndex) (hret : s.truncateSuffix io fuel k = some (rc, t)) :
    ∃ recs' base', Inv env t recs' base' ∧ t.records recs' base' = (s.records recs base).truncateSuffix k ∧
      t.latestEntry = s.latestEntry ∧ t.latestEntriesCache = [] := by
  obtain ⟨dropped, t1, hpop, hp⟩ := h.popSegmentsFromBack_spec hk hk'
  have hfirst := hp.first
  have hlast1 := hp.last
  have hrc : ∀ {l : List Segment} {r : Int}, ¬ (l ≠ [] ∧ (if l.isEmpty then r else 0) ≠ 0) := by
    intro l r
    cases l <;> simp
  cases hlast : t1.all.getLast? with
  | none =>
    have hnil := getLast?_eq_none_iff.mp hlast
    have hall : s.all = dropped := by rw [hp.all, hnil, nil_append]
    have hun := h.unlink_popped hio dropped.reverse []
      (by rw [hall, append_nil]; exact (reverse_perm _).symm) (-1)
    simp only [truncateSuffix, hpop, hlast, hp.disk, hun.1, if_neg hrc, map_eq_some_iff, Prod.mk.injEq] at hret
    obtain ⟨cache, hloop, -, rfl⟩ := hret
    have hempty := hp.empty hnil
    obtain ⟨hinv, hrec⟩ := h.dropAll
      (t := { t1 with disk := unlinkAll io s.disk dropped.reverse, latestEntriesCache := cache }) hnil hfirst
      (show t1.lastLogIndex + 1 = s.firstLogIndex by omega)
      (hun.2.congr (by simp [hall]))
    refine ⟨_, _, hinv, hrec.trans ?_, hp.latest, loop_popBackPass hloop⟩
    rw [hlast1]
  | some seg =>
    obtain ⟨rest, hrest⟩ := getLast?_eq_some_iff.mp hlast
    have hbelow := hp.below seg hlast
    by_cases hle : t1.firstLogIndex ≤ t1.lastLogIndex
    · have hun := h.unlink_popped hio dropped.reverse t1.all
        (by rw [hp.all]; exact perm_append_comm.trans ((reverse_perm dropped).symm.append_right _)) (-1)
      obtain ⟨d, hd⟩ : ∃ d, unlinkAll io s.disk dropped.reverse = d := ⟨_, rfl⟩
      rw [hd] at hun
      have hreach := hp.reaches h hk' hrest
      -- The segments behind `seg` are gone; what is left ends with `seg`.
      obtain ⟨hinv, hrec⟩ := h.dropBack
        (t := { t1 with disk := d, lastLogIndex := seg.lastIndex, latestEntriesCache := [] })
        hp.all hp.closed hp.opened hfirst hrest rfl (by omega) (hun.2.congr (by simp))
      have hsorted := hinv.firstIndex_lt_last hrest
      by_cases hcut : k = seg.lastIndex
      · have hnop := truncateLast_nop (s := { t1 with disk := d }) hrest hsorted io (Int.le_of_eq hcut.symm)
        simp only [truncateSuffix, hpop, hlast, hle, if_true, hp.disk, hun.1, if_neg hrc, hnop, isSome_some,
          and_self, map_eq_some_iff, Prod.mk.injEq] at hret
        obtain ⟨cache, hloop, -, rfl⟩ := hret
        have hl : seg.lastIndex = t1.lastLogIndex := by omega
        rw [hl] at hinv hrec
        exact ⟨recs, base, hinv.setCache cache _, hrec.trans (by rw [hlast1]), hp.latest, loop_popBackPass hloop⟩
      · have hseg : seg ∈ t1.all := by simp [hrest]
        have hcutlast := truncateLast_cut (s := { t1 with disk := d }) hio hrest hsorted
          (fun x hx => (hinv.closed x hx).1) (fun x hx => (hinv.opened x hx).1) (hinv.holds seg hseg)
          (hinv.lookup_path hseg) hlast1 hbelow (by omega)
        simp only [truncateSuffix, hpop, hlast, hle, if_true, hp.disk, hun.1, if_neg hrc, hcutlast, isSome_some,
          and_self, map_eq_some_iff, Prod.mk.injEq] at hret
        obtain ⟨cache, hloop, -, rfl⟩ := hret
        have hfirst' : t1.firstLogIndex ≤ k := by omega
        refine ⟨_, base, (hinv.withTruncated hrest hfirst' hbelow (by omega)).setCache cache _,
          (hinv.records_withTruncated hrest hfirst' hbelow).trans ?_, hp.latest, loop_popBackPass hloop⟩
        rw [hrec, Log.truncateSuffix_truncateSuffix hreach]
    · rw [hp.alone h (by omega) hrest, nil_append] at hrest
      have hall : s.all = seg :: dropped := by rw [hp.all, hrest]; rfl
      have hun := h.unlink_popped hio (dropped.reverse ++ [seg]) []
        (by rw [hall, append_nil]; exact (reverse_perm (seg :: dropped)).symm.trans (by simp)) (-1)
      have herase : erase seg.firstIndex t1.segments = [] := by
        rcases all_concat (show t1.all = [] ++ [seg] from hrest) with ⟨-, hseg⟩ | ⟨-, hseg⟩
        · rw [hseg]
          rfl
        · rw [hseg]
          simp [erase]
      simp only [truncateSuffix, hpop, hlast, hle, if_false, hp.disk, hun.1, if_neg hrc, and_false, herase,
        map_eq_some_iff, Prod.mk.injEq] at hret
      obtain ⟨cache, hloop, -, rfl⟩ := hret
      obtain ⟨hinv, hrec⟩ := h.dropAll
        (t := { t1 with disk := unlinkAll io s.disk (dropped.reverse ++ [seg]), segments := [], openSegment := none,
                        latestEntriesCache := cache }) rfl hfirst
        (show t1.lastLogIndex + 1 = s.firstLogIndex by omega)
        (hun.2.congr (by simp [hall, or_comm]))
      refine ⟨_, _, hinv, hrec.trans ?_, hp.latest, loop_popBackPass hloop⟩
      rw [hlast1]

end Storage

end Myctk.Mraft
