import Myctk.Mraft.Recovery

/-! What the storage answers to `GetEntry`, and whether the truncations come to an end. -/

namespace Myctk.Mraft
open Lib List Option Storage

namespace Storage

variable {env : Env} {io : Io} {s t : Storage} {l : Log LogEntry} {recs : Nat → List Record} {base : Int}

def readSegment (env : Env) (s : Storage) (i : Int) : Option LogEntry := (s.getSegment i).bind fun seg => seg.get env s.disk i

def Coherent (env : Env) (s : Storage) : Prop :=
  (∀ e, s.latestEntry = some e → s.readSegment env e.index = some e) ∧
    ∀ i e, cachedEntry s.latestEntriesCache i = some e → s.readSegment env i = some e

/-- `GetEntry` gives the entries of the log and no others. -/
def ReadsLog (env : Env) (s : Storage) (l : Log LogEntry) : Prop :=
  s.firstLogIndex = l.first ∧ s.lastLogIndex = l.last ∧ ∀ i, s.getEntry env i = l.get? i

def emptyStorage : Storage := ((new .empty).init sampleEnv sampleIo).2

def appendedStorage : Storage := (emptyStorage.appendEntry sampleEnv sampleIo (sampleEntry 1 1)).2

def cutStorage : Storage := ((appendedStorage.truncateSuffix sampleIo 2 0).map Prod.snd).getD appendedStorage

lemma run_cutStorage : Run sampleEnv Call.Regular emptyStorage
    [.appendEntry (sampleEntry 1 1), .truncateSuffix 0] cutStorage := by
  have range : Call.Regular appendedStorage (.truncateSuffix 0) := ⟨by decide, by decide⟩
  exact .cons trivial (returns 0 rfl) (.cons (t := cutStorage) range (returns 2 rfl) (.nil _))

def getBatchEntries (env : Env) (s : Storage) (index : Int) : Nat → List LogEntry
  | 0 => []
  | n + 1 =>
    match s.getEntry env index with
    | none => []
    | some entry => entry :: s.getBatchEntries env (index + 1) n

lemma Refines.getBatchEntries (h : Refines env s l) {i : Int} (lo : l.first ≤ i) {n : Nat} (hi : i + n ≤ l.last + 1) :
    s.getBatchEntries env i n = (l.entries.drop (i - l.first).toNat).take n := by
  induction n generalizing i with
  | zero => rfl
  | succ n ih =>
    have le : i ≤ l.last := by omega
    have next : (i + 1 - l.first).toNat = (i - l.first).toNat + 1 := by omega
    obtain ⟨e, found⟩ := Log.exists_get? lo le
    rw [Storage.getBatchEntries, h.getEntry_mem lo le, found, ih (by omega) (by omega), next]
    rw [Log.get?, if_pos lo] at found
    obtain ⟨lt, rfl⟩ := List.getElem?_eq_some_iff.mp found
    rw [drop_eq_getElem_cons lt, take_succ_cons]

lemma popFrontPass_leaves_iff (k : Int) (cache : List LogEntry) :
    (∃ out, Leaves (popFrontPass k) cache out) ↔ ∀ e ∈ cache, e.index < k := by
  induction cache with
  | nil => exact iff_of_true ⟨[], leaves_inr rfl⟩ fun _ none => (nomatch none)
  | cons e cache ih =>
    by_cases below : e.index < k
    · have pass : popFrontPass k (e :: cache) = .inl cache := if_pos below
      simp [leaves_inl pass, ih, below]
    · have pass : popFrontPass k (e :: cache) = .inl (e :: cache) := if_neg below
      exact iff_of_false (fun ⟨_, leaves⟩ => not_leaves_of_idle pass leaves) fun all => below (all e mem_cons_self)

lemma popBackPass_leaves_iff (k : Int) (cache : List LogEntry) :
    (∃ out, Leaves (popBackPass k) cache out) ↔ ∀ e ∈ cache, k < e.index := by
  induction cache using reverseRecOn with
  | nil => exact iff_of_true ⟨[], leaves_inr rfl⟩ fun _ none => absurd none not_mem_nil
  | append_singleton cache e ih =>
    have last : (cache ++ [e]).getLast? = some e := getLast?_concat
    by_cases above : k < e.index
    · have pass : popBackPass k (cache ++ [e]) = .inl cache := by
        simp only [popBackPass, last, if_pos above, dropLast_concat]
      simp only [leaves_inl pass, ih, forall_mem_append, forall_mem_singleton, above, and_true]
    · have pass : popBackPass k (cache ++ [e]) = .inl (cache ++ [e]) := by
        simp only [popBackPass, last, if_neg above]
      refine iff_of_false ?_ fun all => above (all e (mem_append_right _ (mem_singleton_self e)))
      rintro ⟨_, leaves⟩
      exact not_leaves_of_idle pass leaves

lemma Inv.truncatePrefix_eq (hio : io.Ok) (h : Inv env s recs base) {k : Int} (above : s.firstLogIndex < k)
    (keeps : s.KeepsClosed k) : ∃ t : Storage, t.firstLogIndex = k ∧ ∀ fuel, s.truncatePrefix io fuel k =
      (loop (popFrontPass k) fuel s.latestEntriesCache).map fun cache => (0, { t with latestEntriesCache := cache }) := by
  obtain ⟨dropped, t, eq, popped⟩ := h.popSegments_spec io keeps
  refine ⟨{ t with disk := unlinkAll io { s.disk with logMeta := some k } dropped }, popped.first, fun fuel => ?_⟩
  rw [← popped.cache]
  simp only [truncatePrefix, if_neg (Int.not_le.mpr above), saveMeta, hio.saveMetaOk, if_true, popSegments_setDisk, eq, map_some,
    bind_some, ne_eq, not_true_eq_false, if_false]

lemma truncatePrefix_eq_none {k : Int} (above : s.firstLogIndex < k) (erases : ¬ s.KeepsClosed k) (fuel : Nat) :
    s.truncatePrefix sampleIo fuel k = none := by
  obtain ⟨seg, rest, split, below⟩ : ∃ seg rest, s.segments = seg :: rest ∧ seg.lastIndex < k := by
    cases split : s.segments with
    | nil => exact absurd (fun seg found => by rw [split] at found; cases found) erases
    | cons seg rest =>
      refine ⟨seg, rest, rfl, ?_⟩
      by_contra reaches
      refine erases fun other found => ?_
      rw [split] at found
      cases found
      exact Int.not_lt.mp reaches
  simp [truncatePrefix, above, saveMeta, sampleIo, popSegments, split, popLoop, below]

lemma Inv.popSegmentsFromBack_perm (h : Inv env s recs base) (k : Int) :
    ∃ rest, s.all.Perm ((s.popSegmentsFromBack k).1 ++ (s.popSegmentsFromBack k).2.1.toList ++ rest) := by
  have distinct : s.all.Nodup := List.Nodup.of_map _ h.fds
  suffices sub : ((s.popSegmentsFromBack k).1 ++ (s.popSegmentsFromBack k).2.1.toList).Subperm s.all by
    obtain ⟨mid, perm, sublist⟩ := subperm_iff.mp sub
    obtain ⟨rest, split⟩ := sublist.exists_perm_append
    exact ⟨rest, perm.symm.trans split⟩
  unfold popSegmentsFromBack
  cases kept : s.openSegment.filter fun seg => decide (seg.firstIndex ≤ k) with
  | some seg =>
    obtain ⟨opened, -⟩ := filter_eq_some_iff.mp kept
    simp only [kept]
    refine subperm_of_subset (nodup_singleton seg) fun x here => ?_
    rw [mem_singleton.mp here, mem_all]
    exact .inr opened
  | none =>
    obtain ⟨pop, closed⟩ : ∃ l, (s.segments.reverse.takeWhile fun seg => decide (seg.firstIndex > k)) = l := ⟨_, rfl⟩
    have sublist : (s.openSegment.toList ++ pop).Sublist (s.openSegment.toList ++ s.segments.reverse) :=
      List.Sublist.append_left (closed ▸ takeWhile_sublist _) _
    have perm : (s.openSegment.toList ++ s.segments.reverse).Perm s.all :=
      perm_append_comm.trans ((reverse_perm _).append_right _)
    have popped := (perm.nodup_iff.mpr distinct).sublist sublist
    have inside : ∀ x ∈ s.openSegment.toList ++ pop, x ∈ s.all := fun x here => perm.subset (sublist.subset here)
    simp only [kept, closed, foldl_erase]
    cases last : (s.segments.filter fun x => ∀ y ∈ s.openSegment.toList ++ pop, x.firstIndex ≠ y.firstIndex).getLast? with
    | none =>
      simp only [toList_none, append_nil]
      exact subperm_of_subset popped inside
    | some seg =>
      obtain ⟨member, apart⟩ := mem_filter.mp (mem_of_getLast? last)
      have new : seg ∉ s.openSegment.toList ++ pop := fun here => of_decide_eq_true apart seg here rfl
      refine subperm_of_subset (concat_eq_append ▸ popped.concat new) fun x here => ?_
      rcases mem_append.mp here with old | only
      · exact inside x old
      · rw [mem_singleton.mp only, mem_all]
        exact .inl member

lemma popSegmentsFromBack_frame (s : Storage) (k : Int) : (s.popSegmentsFromBack k).2.2.lastLogIndex = k ∧
    (s.popSegmentsFromBack k).2.2.disk = s.disk ∧ (s.popSegmentsFromBack k).2.2.latestEntriesCache = s.latestEntriesCache := by
  unfold popSegmentsFromBack
  dsimp only
  split
  · exact ⟨rfl, rfl, rfl⟩
  · split <;> exact ⟨rfl, rfl, rfl⟩

lemma truncateLast_frame (io : Io) (s : Storage) (seg : Segment) (k : Int) :
    (s.truncateLast io seg k).2.lastLogIndex = s.lastLogIndex ∧
      (s.truncateLast io seg k).2.latestEntriesCache = s.latestEntriesCache := by
  unfold truncateLast
  dsimp only
  split
  · exact ⟨rfl, rfl⟩
  · unfold setSegment
    split <;> exact ⟨rfl, rfl⟩

lemma Inv.truncateSuffix_eq (hio : io.Ok) (h : Inv env s recs base) (k : Int) :
    ∃ (ret : Int) (t : Storage), t.lastLogIndex = k ∧ ∀ fuel, s.truncateSuffix io fuel k =
      (loop (popBackPass k) fuel s.latestEntriesCache).map fun cache => (ret, { t with latestEntriesCache := cache }) := by
  obtain ⟨rest, perm⟩ := h.popSegmentsFromBack_perm k
  obtain ⟨last, disk, cache⟩ := popSegmentsFromBack_frame s k
  obtain ⟨⟨popped, lastSegment, s1⟩, calls⟩ : ∃ p, s.popSegmentsFromBack k = p := ⟨_, rfl⟩
  rw [calls] at perm last disk cache
  dsimp only at perm last disk cache
  have removes : ∀ {l more : List Segment}, s.all.Perm (l ++ more) → ¬ (l ≠ [] ∧ (unlinkUntil io l (-1) s.disk).1 ≠ 0) := by
    rintro l more split ⟨some, failed⟩
    rw [(h.unlink_popped hio l more split (-1)).1] at failed
    cases l with
    | nil => exact some rfl
    | cons x l => exact failed rfl
  unfold truncateSuffix
  simp only [calls]
  rw [← cache]
  obtain ⟨disk', removed⟩ : ∃ d, (unlinkUntil io popped (-1) s.disk).2 = d := ⟨_, rfl⟩
  cases lastSegment with
  | none =>
    rw [toList_none, append_nil] at perm
    simp only [disk, if_neg (removes perm), removed]
    exact ⟨_, { s1 with disk := disk' }, last, fun fuel => rfl⟩
  | some seg =>
    by_cases nonempty : s1.firstLogIndex ≤ s1.lastLogIndex
    · rw [append_assoc] at perm
      simp only [nonempty, if_true, disk, if_neg (removes perm), isSome_some, and_self, removed]
      obtain ⟨last', cache'⟩ := truncateLast_frame io { s1 with disk := disk' } seg k
      simp only [cache']
      exact ⟨_, (truncateLast io { s1 with disk := disk' } seg k).2, last'.trans last, fun fuel => rfl⟩
    · rw [toList_some] at perm
      simp only [nonempty, if_false, disk, if_neg (removes perm), and_false]
      exact ⟨_, { s1 with disk := (unlinkUntil io (popped ++ [seg]) (-1) s.disk).2
                          segments := s1.segments.erase seg.firstIndex
                          openSegment := none }, last, fun fuel => rfl⟩

def Prunes (s : Storage) (call : Nat → Option (Int × Storage)) : Prop :=
  ∃ fuel rc t, call fuel = some (rc, t) ∧ t.latestEntriesCache =
    s.latestEntriesCache.filter fun e => t.firstLogIndex ≤ e.index ∧ e.index ≤ t.lastLogIndex

lemma Refines.cached_mem (h : Refines env s l) : ∀ e ∈ s.latestEntriesCache, s.firstLogIndex ≤ e.index ∧ e.index ≤ s.lastLogIndex := by
  intro e member
  obtain ⟨n, there⟩ := mem_iff_getElem?.mp (h.cached.subset member)
  have found : l.get? (l.first + n) = some e := by
    rw [Log.get?, if_pos (by omega), show (l.first + n - l.first).toNat = n by omega, there]
  have index := h.index_eq found
  have inside := (List.getElem?_eq_some_iff.mp there).1
  rw [h.first, h.last, Log.last]
  omega

lemma prunes_iff_leaves {call : Nat → Option (Int × Storage)} {pass : List LogEntry → List LogEntry ⊕ List LogEntry} {rc : Int}
    (calls : ∀ fuel, call fuel = (loop pass fuel s.latestEntriesCache).map fun cache => (rc, { t with latestEntriesCache := cache }))
    (empties : ∀ {fuel out}, loop pass fuel s.latestEntriesCache = some out → out = [])
    (gone : (∃ out, Leaves pass s.latestEntriesCache out) →
      ∀ e ∈ s.latestEntriesCache, ¬ (t.firstLogIndex ≤ e.index ∧ e.index ≤ t.lastLogIndex)) :
    s.Prunes call ↔ ∃ out, Leaves pass s.latestEntriesCache out := by
  constructor
  · rintro ⟨fuel, rc, t', returns, -⟩
    rw [calls] at returns
    obtain ⟨out, leaves, -⟩ := map_eq_some_iff.mp returns
    exact ⟨out, fuel, leaves⟩
  · rintro ⟨out, fuel, leaves⟩
    refine ⟨fuel, rc, { t with latestEntriesCache := out }, by rw [calls, leaves]; rfl, ?_⟩
    rw [empties leaves, eq_comm, filter_eq_nil_iff]
    exact fun e member inside => gone ⟨out, fuel, leaves⟩ e member (of_decide_eq_true inside)

lemma Refines.prefix_prunes_iff (h : Refines env s l) (k : Int) :
    (∀ io : Io, io.Ok → s.Prunes fun fuel => s.truncatePrefix io fuel k) ↔
      k ≤ s.firstLogIndex ∨ s.KeepsClosed k ∧ ∀ e ∈ s.latestEntriesCache, e.index < k := by
  obtain ⟨recs, base, inv, -⟩ := h.inv
  by_cases early : k ≤ s.firstLogIndex
  · refine iff_of_true (fun io hio => ⟨0, 0, s, if_pos early, ?_⟩) (.inl early)
    exact (filter_eq_self.mpr fun e member => decide_eq_true (h.cached_mem e member)).symm
  rw [or_iff_right early]
  by_cases keeps : s.KeepsClosed k
  · rw [and_iff_right keeps, ← popFrontPass_leaves_iff]
    have each : ∀ io : Io, io.Ok → (s.Prunes (fun fuel => s.truncatePrefix io fuel k) ↔
        ∃ out, Leaves (popFrontPass k) s.latestEntriesCache out) := by
      intro io hio
      obtain ⟨t, first, calls⟩ := inv.truncatePrefix_eq hio (Int.not_le.mp early) keeps
      refine prunes_iff_leaves calls loop_popFrontPass fun leaves e member inside => ?_
      have below := (popFrontPass_leaves_iff k _).mp leaves e member
      omega
    exact ⟨fun all => (each sampleIo sampleIo_ok).mp (all _ sampleIo_ok), fun leaves io hio => (each io hio).mpr leaves⟩
  · refine iff_of_false (fun all => ?_) fun both => keeps both.1
    obtain ⟨fuel, rc, t, returns, -⟩ := all sampleIo sampleIo_ok
    have stops := truncatePrefix_eq_none (Int.not_le.mp early) keeps fuel
    exact absurd (stops.symm.trans returns) (by simp)

lemma Refines.suffix_prunes_iff (hio : io.Ok) (h : Refines env s l) (k : Int) :
    s.Prunes (fun fuel => s.truncateSuffix io fuel k) ↔ ∀ e ∈ s.latestEntriesCache, k < e.index := by
  obtain ⟨recs, base, inv, -⟩ := h.inv
  obtain ⟨ret, t, last, calls⟩ := inv.truncateSuffix_eq hio k
  rw [prunes_iff_leaves calls loop_popBackPass, popBackPass_leaves_iff]
  intro leaves e member inside
  have above := (popBackPass_leaves_iff k _).mp leaves e member
  omega

/-- Over every run from an empty log: a truncation returns, and leaves the recent entries that are still in the log, exactly if it has
    nothing to do, or erases no closed segment (`TruncatePrefix`) and none of them is left. -/
theorem prunes_iff_of_run {d : Disk} {s₀ : Storage} {calls : List Call} (hd : d.logMeta = none)
    (hinit : (new d).init env io = (0, s₀)) (hrun : Run env Call.Regular s₀ calls s) (k : Int) :
    ((∀ io : Io, io.Ok → s.Prunes fun fuel => s.truncatePrefix io fuel k) ↔
      k ≤ s.firstLogIndex ∨ s.KeepsClosed k ∧ ∀ e ∈ s.latestEntriesCache, e.index < k) ∧
    ∀ io : Io, io.Ok → (s.Prunes (fun fuel => s.truncateSuffix io fuel k) ↔ ∀ e ∈ s.latestEntriesCache, k < e.index) := by
  obtain ⟨henv, hempty⟩ := refines_init hd hinit
  have h := hempty.run henv (fun _ _ hc => hc) hrun
  exact ⟨h.prefix_prunes_iff k, fun io hio => h.suffix_prunes_iff hio k⟩

theorem truncateSuffix_never_returns : (new .empty).init sampleEnv sampleIo = (0, emptyStorage) ∧
    Run sampleEnv Call.Regular emptyStorage [.appendEntry (sampleEntry 1 1)] appendedStorage ∧
    ∀ fuel, appendedStorage.truncateSuffix sampleIo fuel 1 = none := by
  refine ⟨rfl, .cons trivial (returns 0 rfl) (.nil _), fun fuel => ?_⟩
  have idle : popBackPass 1 [sampleEntry 1 1] = .inl [sampleEntry 1 1] := rfl
  have stays : ∀ n, loop (popBackPass 1) n [sampleEntry 1 1] = none := by
    intro n
    induction n with
    | zero => rfl
    | succ n ih => rw [loop_inl idle, ih]
  exact congrArg (Option.map _) (stays fuel)

theorem prunes_iff_of_run_appended :
    (∀ io : Io, io.Ok → appendedStorage.Prunes fun fuel => appendedStorage.truncatePrefix io fuel 2) ∧
    appendedStorage.Prunes (fun fuel => appendedStorage.truncateSuffix sampleIo fuel 0) := by
  have init : (new .empty).init sampleEnv sampleIo = (0, emptyStorage) := rfl
  have run : Run sampleEnv Call.Regular emptyStorage [.appendEntry (sampleEntry 1 1)] appendedStorage :=
    .cons trivial (returns 0 rfl) (.nil _)
  have cached : appendedStorage.latestEntriesCache = [sampleEntry 1 1] := rfl
  refine ⟨(prunes_iff_of_run (d := .empty) rfl init run 2).1.mpr (.inr ⟨by decide, ?_⟩),
    ((prunes_iff_of_run (d := .empty) rfl init run 0).2 sampleIo sampleIo_ok).mpr ?_⟩
  · rw [cached]
    decide
  · rw [cached]
    decide

end Storage

/-! A roll of the open segment that fails: the new segment is there already when the old one cannot be closed. -/

open Segment

variable {env : Env} {io : Io} {d : Disk} {s : Storage} {seg : Segment}

lemma Segment.close_failed (failed : (seg.close io d).1 ≠ 0) :
    seg.isOpen = true ∧ seg.close io d = (-1, { seg with isOpen := false }, d) := by
  rw [close] at failed ⊢
  cases opened : seg.isOpen with
  | false =>
    rw [opened] at failed
    exact absurd rfl failed
  | true =>
    refine ⟨rfl, ?_⟩
    rw [opened] at failed
    simp only [Bool.not_true, Bool.false_eq_true, if_false] at failed ⊢
    split
    · rfl
    · rename_i renamed
      rw [renamed] at failed
      exact absurd rfl failed

namespace Storage

def createdDisk (io : Io) (s : Storage) : Disk := ((Segment.opened (s.lastLogIndex + 1)).create io s.disk).2.2

structure RollFails (env : Env) (io : Io) (s : Storage) (seg : Segment) : Prop where
  current : s.openSegment = some seg
  full : (seg.bytes : Int) > env.raftMaxSegmentSize
  failed : (seg.close io (s.createdDisk io)).1 ≠ 0

lemma RollFails.getOpenSegment (fails : RollFails env io s seg) : s.getOpenSegment env io = (none, { s with
      segments := SegmentMap.erase seg.firstIndex (SegmentMap.insert seg s.segments)
      openSegment := some { seg with isOpen := false }
      disk := s.createdDisk io }) := by
  obtain ⟨-, closed⟩ := close_failed fails.failed
  have rolled : (s.openSegment.filter fun seg => (seg.bytes : Int) > env.raftMaxSegmentSize) = some seg := by
    rw [fails.current, Option.filter, if_pos (decide_eq_true fails.full)]
  rw [createdDisk] at closed
  simp only [Storage.getOpenSegment, rolled, closed]
  rfl

/-- What a roll that is undone would leave: the old segment takes entries, no file is in progress that was not before, and the
    log that `Init` finds is the same. -/
structure Undone (env : Env) (s t : Storage) (seg : Segment) : Prop where
  appendable : ∃ seg', t.openSegment = some seg' ∧ seg'.firstIndex = seg.firstIndex ∧ ∀ (io : Io) (entry : LogEntry),
    io.shortWrite = none → entry.index = seg'.lastIndex + 1 → (seg'.append env io t.disk entry).1 = 0
  names : ∀ first, t.disk.lookup (.inprogress first) = s.disk.lookup (.inprogress first)
  reopened : ∀ io, ((new t.disk).init env io).1 = ((new s.disk).init env io).1 ∧
    ((new t.disk).init env io).2.segments = ((new s.disk).init env io).2.segments ∧
    ((new t.disk).init env io).2.openSegment = ((new s.disk).init env io).2.openSegment ∧
    ((new t.disk).init env io).2.firstLogIndex = ((new s.disk).init env io).2.firstLogIndex ∧
    ((new t.disk).init env io).2.lastLogIndex = ((new s.disk).init env io).2.lastLogIndex

lemma RollFails.append_refused (fails : RollFails env io s seg) : ∃ seg', (s.getOpenSegment env io).2.openSegment = some seg' ∧
    ∀ io' entry, (seg'.append env io' (s.getOpenSegment env io).2.disk entry).1 = einval := by
  rw [fails.getOpenSegment]
  exact ⟨_, rfl, fun io' entry => rfl⟩

lemma RollFails.not_undone (fails : RollFails env io s seg) : ¬ Undone env s (s.getOpenSegment env io).2 seg := by
  intro undone
  obtain ⟨seg', there, -, appends⟩ := undone.appendable
  obtain ⟨closed, here, refused⟩ := fails.append_refused
  obtain rfl : seg' = closed := some.inj (there.symm.trans here)
  let entry : LogEntry := ⟨seg'.lastIndex + 1, 0, 0, [], by decide⟩
  let fine : Io := ⟨none, true, true, true, true, true, (0, 0, 0), fun _ => none⟩
  have taken := (refused fine entry).symm.trans (appends fine entry rfl rfl)
  exact absurd taken (by decide)

lemma isSome_lookup_create (name : FileName) : ((d.create name).2.lookup name).isSome := by
  cases there : d.lookup name with
  | some fd => simp [Disk.create, there]
  | none => simp [Disk.create_eq there, Disk.lookup_added]

lemma isSome_lookup_create_of_isSome {name other : FileName} (there : (d.lookup other).isSome) :
    ((d.create name).2.lookup other).isSome := by
  cases here : d.lookup name with
  | some fd => simpa [Disk.create, here] using there
  | none =>
    rw [Disk.create_eq here, Disk.lookup_added]
    split
    · rfl
    · exact there

lemma logMeta_create (name : FileName) : (d.create name).2.logMeta = d.logMeta := by
  rw [Disk.create]
  split <;> rfl

lemma createdDisk_eq (ok : io.createOk = true) : s.createdDisk io = (s.disk.create (.inprogress (s.lastLogIndex + 1))).2 := by
  simp [createdDisk, create, opened, getPath, ok]

variable {names : List FileName} {first second : Int}

lemma listSegments_second (opened : s.openSegment.isSome)
    (there : .inprogress first ∈ names) : (s.listSegments false names).1 = -1 := by
  induction names generalizing s with
  | nil => cases there
  | cons name names ih =>
    rw [listSegments]
    cases name with
    | inprogress other => rw [listName, if_pos opened]
    | closed a b => exact ih opened ((mem_cons.mp there).resolve_left (by simp))
    | tmp name => exact ih opened ((mem_cons.mp there).resolve_left (by simp))

lemma listSegments_conflict (differ : first ≠ second)
    (here : .inprogress first ∈ names) (there : .inprogress second ∈ names) : (s.listSegments false names).1 = -1 := by
  induction names generalizing s with
  | nil => cases here
  | cons name names ih =>
    rw [listSegments]
    cases name with
    | closed a b =>
      exact ih ((mem_cons.mp here).resolve_left (by simp)) ((mem_cons.mp there).resolve_left (by simp))
    | tmp name =>
      exact ih ((mem_cons.mp here).resolve_left (by simp)) ((mem_cons.mp there).resolve_left (by simp))
    | inprogress other =>
      by_cases opened : s.openSegment.isSome
      · rw [listName, if_pos opened]
      · rw [listName, if_neg opened]
        -- one of the two is still to come
        rcases eq_or_ne first other with rfl | different
        · have later := (mem_cons.mp there).resolve_left fun same => differ (FileName.inprogress.inj same).symm
          exact listSegments_second rfl later
        · have later := (mem_cons.mp here).resolve_left fun same => different (FileName.inprogress.inj same)
          exact listSegments_second rfl later

lemma init_conflict (differ : first ≠ second) (recorded : d.logMeta.isSome)
    (here : (d.lookup (.inprogress first)).isSome) (there : (d.lookup (.inprogress second)).isSome) :
    ((new d).init env io).1 = -1 := by
  obtain ⟨index, recorded⟩ := isSome_iff_exists.mp recorded
  have conflict : ∀ s : Storage, (s.listSegments false d.dir.keys).1 = -1 := fun s =>
    listSegments_conflict differ (AList.lookup_isSome.mp here) (AList.lookup_isSome.mp there)
  simp only [init, loadMeta, new, recorded]
  split
  · rfl
  · cases io.loadMetaOk with
    | false => rfl
    | true =>
      rename_i nonneg
      simp only [if_true]
      have listed := conflict { new d with firstLogIndex := index }
      rcases eq : listSegments false d.dir.keys { new d with firstLogIndex := index } with ⟨rc, t⟩
      rw [eq] at listed
      obtain rfl : rc = -1 := listed
      simp only [new] at eq
      simp [eq]

lemma RollFails.file_remains (fails : RollFails env io s seg) (ok : io.createOk = true) :
    ((s.getOpenSegment env io).2.disk.lookup (.inprogress (s.lastLogIndex + 1))).isSome := by
  rw [fails.getOpenSegment]
  rw [createdDisk_eq ok]
  exact isSome_lookup_create _

lemma RollFails.init_fails (fails : RollFails env io s seg) (ok : io.createOk = true)
    (there : (s.disk.lookup (.inprogress seg.firstIndex)).isSome) (written : seg.firstIndex ≠ s.lastLogIndex + 1)
    (recorded : s.disk.logMeta.isSome) (io' : Io) : ((new (s.getOpenSegment env io).2.disk).init env io').1 = -1 := by
  have left := fails.file_remains ok
  rw [fails.getOpenSegment] at left ⊢
  refine init_conflict written ?_ ?_ left
  · rw [createdDisk_eq ok, logMeta_create]
    exact recorded
  · rw [createdDisk_eq ok]
    exact isSome_lookup_create_of_isSome there

/-- A roll whose `Close` fails is never undone: the old segment comes back with `is_open_` cleared, and the file of the new one stays,
    so that `Init` fails while the old one is in progress. -/
theorem failed_roll_not_undone (fails : RollFails env io s seg) :
    ¬ Undone env s (s.getOpenSegment env io).2 seg ∧
    (∃ seg', (s.getOpenSegment env io).2.openSegment = some seg' ∧
      ∀ io' entry, (seg'.append env io' (s.getOpenSegment env io).2.disk entry).1 = einval) ∧
    (io.createOk = true → ((s.getOpenSegment env io).2.disk.lookup (.inprogress (s.lastLogIndex + 1))).isSome) ∧
    (io.createOk = true → (s.disk.lookup (.inprogress seg.firstIndex)).isSome → seg.firstIndex ≠ s.lastLogIndex + 1 →
      s.disk.logMeta.isSome → ∀ io', ((new (s.getOpenSegment env io).2.disk).init env io').1 = -1) :=
  ⟨fails.not_undone, fails.append_refused, fails.file_remains, fails.init_fails⟩

/-! The log has one entry, which fills its segment, and the rename fails. -/

def failedRename : Io := { sampleIo with renameOk := false }

lemma rollFails_appendedStorage : ∃ seg, seg.firstIndex = 1 ∧ RollFails sampleEnv failedRename appendedStorage seg :=
  ⟨_, rfl, rfl, by decide, by decide⟩

theorem roll_left_half_done : (new .empty).init sampleEnv sampleIo = (0, emptyStorage) ∧
    Run sampleEnv Call.Regular emptyStorage [.appendEntry (sampleEntry 1 1)] appendedStorage ∧
    ∃ seg, RollFails sampleEnv failedRename appendedStorage seg ∧
      ¬ Undone sampleEnv appendedStorage (appendedStorage.getOpenSegment sampleEnv failedRename).2 seg ∧
      ((new appendedStorage.disk).init sampleEnv sampleIo).1 = 0 ∧
      ((new (appendedStorage.getOpenSegment sampleEnv failedRename).2.disk).init sampleEnv sampleIo).1 = -1 := by
  obtain ⟨seg, -, fails⟩ := rollFails_appendedStorage
  exact ⟨rfl, .cons trivial (returns 0 rfl) (.nil _), seg, fails, fails.not_undone, by decide, by decide⟩

theorem failed_roll_not_undone_appended : (∃ seg, RollFails sampleEnv failedRename appendedStorage seg) ∧
    ∀ io, ((new (appendedStorage.getOpenSegment sampleEnv failedRename).2.disk).init sampleEnv io).1 = -1 := by
  obtain ⟨seg, first, fails⟩ := rollFails_appendedStorage
  refine ⟨⟨seg, fails⟩, (failed_roll_not_undone fails).2.2.2 rfl ?_ ?_ rfl⟩
  · rw [first]
    rfl
  · rw [first]
    decide

end Storage

end Myctk.Mraft
