import Myctk.Mraft.StorageTruncate
import Myctk.Mraft.SegmentLoad

/-! Runs of the storage: whatever is called, in whatever order, the storage is a log. -/

namespace Myctk.Mraft
open Lib Log Storage Call Option

/-- What a call does to a log of entries, seen through `view`. -/
def Call.onLog {α : Type} (view : LogEntry → α) (l : Log α) : Call → Log α
  | .appendEntry entry => if entry.index = l.last + 1 then l.append (view entry) else l
  | .truncatePrefix k => l.truncatePrefix k
  | .truncateSuffix k => l.truncateSuffix k
  | .clearCacheEntry _ => l

lemma Call.onLog_map {α β : Type} (view : LogEntry → α) (f : α → β) (l : Log α) (c : Call) :
    (c.onLog view l).map f = c.onLog (f ∘ view) (l.map f) := by
  cases c with
  | appendEntry entry =>
    simp only [onLog, last_map]
    split
    · exact map_append
    · rfl
  | truncatePrefix k => exact map_truncatePrefix
  | truncateSuffix k => exact map_truncateSuffix
  | clearCacheEntry i => rfl

/-- `TruncateSuffix` is called for an index of the log, or the one before, and `TruncatePrefix` erases no closed segment. -/
def Call.Regular (s : Storage) : Call → Prop
  | .truncatePrefix k => s.KeepsClosed k
  | .truncateSuffix k => s.firstLogIndex - 1 ≤ k ∧ k ≤ s.lastLogIndex
  | _ => True

/-- And `AppendEntry` for the next index. -/
def Call.InRange (s : Storage) : Call → Prop
  | .appendEntry entry => entry.index = s.lastLogIndex + 1
  | c => c.Regular s

inductive Run (env : Env) (allowed : Storage → Call → Prop) : Storage → List Call → Storage → Prop
  | nil (s : Storage) : Run env allowed s [] s
  | cons {s t u : Storage} {c : Call} {calls : List Call} {rc : Int} :
      allowed s c → s.Returns env c rc t → Run env allowed t calls u → Run env allowed s (c :: calls) u

namespace Storage

/-- The storage works, its log is `l`, and the entries it keeps in memory are entries of `l`. -/
structure Refines (env : Env) (s : Storage) (l : Log LogEntry) : Prop where
  inv : ∃ recs base, Inv env s recs base ∧ (s.records recs base).map (·.entry) = l
  cached : s.latestEntriesCache <:+ l.entries
  latest : ∀ e, s.latestEntry = some e → l.first ≤ e.index → e.index ≤ l.last → l.get? e.index = some e

variable {env : Env} {io : Io} {s t : Storage} {l : Log LogEntry}

lemma Refines.first (h : Refines env s l) : s.firstLogIndex = l.first := by
  obtain ⟨recs, base, hinv, rfl⟩ := h.inv
  exact hinv.first_records.symm

lemma Refines.last (h : Refines env s l) : s.lastLogIndex = l.last := by
  obtain ⟨recs, base, hinv, rfl⟩ := h.inv
  rw [last_map]
  exact hinv.last_records.symm

lemma Refines.appendEntry (henv : 0 ≤ env.raftMaxSegmentSize) (hio : io.Ok) (h : Refines env s l) (entry : LogEntry) :
    Refines env (s.appendEntry env io entry).2 (onLog id l (.appendEntry entry)) := by
  have hlast := h.last
  obtain ⟨recs, base, hinv, hl⟩ := h.inv
  simp only [onLog, id]
  by_cases hi : entry.index = l.last + 1
  · obtain ⟨t, recs', heq, hinv', hrec, hcache, hlatest⟩ := hinv.appendEntry_spec hio henv entry (by omega)
    rw [if_pos hi, heq]
    refine ⟨⟨recs', base, hinv', ?_⟩, ?_, ?_⟩
    · rw [hrec, map_append, hl]
    · rw [hcache]
      obtain ⟨before, hbefore⟩ := h.cached
      exact ⟨before, by simp [append, ← hbefore]⟩
    · intro e he _ _
      obtain rfl := some.inj (hlatest.symm.trans he)
      rw [hi]
      exact get?_last_append
  · obtain ⟨t, recs', heq, hinv', hrec, hframe⟩ := hinv.appendEntry_erange hio henv entry (by omega)
    rw [if_neg hi, heq]
    refine ⟨⟨recs', base, hinv', hrec ▸ hl⟩, ?_, ?_⟩
    · rw [hframe.latestEntriesCache]
      exact h.cached
    · rw [hframe.latestEntry]
      exact h.latest

lemma Refines.truncatePrefix (hio : io.Ok) (h : Refines env s l) {k rc : Int} {fuel : Nat} (keeps : s.KeepsClosed k)
    (hret : s.truncatePrefix io fuel k = some (rc, t)) : Refines env t (l.truncatePrefix k) := by
  have hfirst := h.first
  obtain ⟨recs, base, hinv, hl⟩ := h.inv
  obtain ⟨-, base', hinv', hrec, hlatest, hcache⟩ := hinv.truncatePrefix_spec hio keeps hret
  refine ⟨⟨recs, base', hinv', by rw [hrec, map_truncatePrefix, hl]⟩, ?_, ?_⟩
  · rcases hcache with ⟨rfl, hk⟩ | hnil
    · rw [truncatePrefix_of_le (by omega)]
      exact h.cached
    · rw [hnil]
      exact List.nil_suffix
  · intro e he hlo hhi
    rw [first_truncatePrefix] at hlo
    rw [last_truncatePrefix] at hhi
    rw [get?_truncatePrefix (by omega)]
    exact h.latest e (hlatest ▸ he) (by omega) (by omega)

lemma Refines.truncateSuffix (hio : io.Ok) (h : Refines env s l) {k rc : Int} {fuel : Nat}
    (hk : s.firstLogIndex - 1 ≤ k) (hk' : k ≤ s.lastLogIndex) (hret : s.truncateSuffix io fuel k = some (rc, t)) :
    Refines env t (l.truncateSuffix k) := by
  have hfirst := h.first
  have hlast := h.last
  obtain ⟨recs, base, hinv, hl⟩ := h.inv
  obtain ⟨recs', base', hinv', hrec, hlatest, hcache⟩ := hinv.truncateSuffix_spec hio hk hk' hret
  refine ⟨⟨recs', base', hinv', by rw [hrec, map_truncateSuffix, hl]⟩, ?_, ?_⟩
  · rw [hcache]
    exact List.nil_suffix
  · intro e he hlo hhi
    rw [last_truncateSuffix (by omega) (by omega)] at hhi
    rw [get?_truncateSuffix hhi]
    exact h.latest e (hlatest ▸ he) hlo (by omega)

lemma Refines.clearCacheEntry (h : Refines env s l) (i : Int) : Refines env (s.clearCacheEntry i).2 l := by
  have hdrop : ∀ {e cache}, s.latestEntriesCache = e :: cache → Refines env { s with latestEntriesCache := cache } l := by
    intro e cache hc
    obtain ⟨recs, base, hinv, hl⟩ := h.inv
    exact ⟨⟨recs, base, hinv.setCache cache _, hl⟩, (List.suffix_cons e cache).trans (hc ▸ h.cached), h.latest⟩
  unfold Storage.clearCacheEntry
  split
  · exact h
  · next e cache hc =>
    split
    · exact h
    · exact hdrop hc

lemma Refines.step (henv : 0 ≤ env.raftMaxSegmentSize) (h : Refines env s l) {c : Call} {rc : Int}
    (hc : c.Regular s) (hret : s.Returns env c rc t) : Refines env t (c.onLog id l) := by
  obtain ⟨io, hio, fuel, hexec⟩ := hret
  cases c with
  | appendEntry entry =>
    have ht : (s.appendEntry env io entry).2 = t := congrArg Prod.snd (some.inj hexec)
    exact ht ▸ h.appendEntry henv hio entry
  | truncatePrefix k => exact h.truncatePrefix hio hc hexec
  | truncateSuffix k => exact h.truncateSuffix hio hc.1 hc.2 hexec
  | clearCacheEntry i =>
    have ht : (s.clearCacheEntry i).2 = t := congrArg Prod.snd (some.inj hexec)
    exact ht ▸ h.clearCacheEntry i

lemma Refines.run (henv : 0 ≤ env.raftMaxSegmentSize) {allowed : Storage → Call → Prop}
    (hall : ∀ s c, allowed s c → c.Regular s) {calls : List Call} (hrun : Run env allowed s calls t)
    (h : Refines env s l) : Refines env t (calls.foldl (onLog id) l) := by
  induction hrun generalizing l with
  | nil s => exact h
  | cons hc hret _ ih => exact ih (h.step henv (hall _ _ hc) hret)

lemma listSegments_empty (names : List FileName) (s : Storage) : ∃ d : Disk, s.listSegments true names = (0, { s with disk := d }) ∧
      ∀ n, d.lookup n = if n ∈ names then none else s.disk.lookup n := by
  induction names generalizing s with
  | nil => exact ⟨s.disk, rfl, by simp⟩
  | cons name names ih =>
    have hstep : s.listName true name = some { s with disk := s.disk.unlink name } := by cases name <;> rfl
    obtain ⟨d, heq, hd⟩ := ih { s with disk := s.disk.unlink name }
    refine ⟨d, by simp only [listSegments, hstep, heq], ?_⟩
    intro n
    rw [hd, Disk.lookup_unlink]
    by_cases hn : n = name
    · simp [hn]
    · simp [hn]

lemma refines_init {d : Disk} (hd : d.logMeta = none) (hinit : (new d).init env io = (0, s)) :
    0 ≤ env.raftMaxSegmentSize ∧ Refines env s ⟨1, []⟩ := by
  have henv : ¬ env.raftMaxSegmentSize < 0 := by
    intro hneg
    simp [init, hneg] at hinit
  refine ⟨by omega, ?_⟩
  obtain ⟨d', hlist, hlookup⟩ := listSegments_empty d.dir.keys (new d)
  have hnone : ∀ n, d'.lookup n = none := by
    intro n
    rw [hlookup]
    split
    · rfl
    · next hn => exact AList.lookup_eq_none.mpr hn
  simp only [init, if_neg henv, loadMeta, show (new d).disk.logMeta = none from hd,
    show (new d).disk.dir.keys = d.dir.keys from rfl, hlist, saveMeta] at hinit
  cases hsave : io.saveMetaOk with
  | false => simp [hsave] at hinit
  | true =>
    simp only [hsave, ne_eq, not_true_eq_false, if_true, if_false, Prod.mk.injEq, true_and] at hinit
    subst hinit
    refine ⟨⟨fun _ => [], 1, ?_, rfl⟩, List.nil_suffix, by simp [new]⟩
    refine ⟨rfl, by simp [all, new], List.nodup_nil, by simp [all, new], ?_, by simp [new],
      by simp [new], Int.le_refl _, Int.le_refl _, rfl⟩
    intro name fd
    have hl : d'.dir.lookup name = none := hnone name
    simp [all, new, Disk.lookup, hl]

lemma inRange_regular (s : Storage) (c : Call) (h : c.InRange s) : c.Regular s := by
  cases c with
  | appendEntry entry => trivial
  | truncatePrefix k => exact h
  | truncateSuffix k => exact h
  | clearCacheEntry i => trivial

lemma foldl_onLog_map {α : Type} (view : LogEntry → α) (calls : List Call) (l : Log LogEntry) :
    (calls.foldl (onLog id) l).map view = calls.foldl (onLog view) (l.map view) := by
  induction calls generalizing l with
  | nil => rfl
  | cons c calls ih => rw [List.foldl_cons, List.foldl_cons, ih, onLog_map]; rfl

/-- Over every run from an empty log in which `TruncatePrefix` erases no closed segment, the storage is the log of terms that the
    calls describe: its indices, segments that tile a range from below its start to its end, and its terms, with 0 elsewhere. -/
theorem run_refines_log {d : Disk} {s₀ : Storage} {calls : List Call} (hd : d.logMeta = none)
    (hinit : (new d).init env io = (0, s₀)) (hrun : Run env Call.InRange s₀ calls s) :
    let l : Log Int64 := calls.foldl (onLog (·.term)) ⟨1, []⟩
    s.firstLogIndex = l.first ∧ s.lastLogIndex = l.last ∧
      (∃ base ≤ l.first, Contiguous base s.all (l.last + 1)) ∧
      (∀ i, l.first ≤ i → i ≤ l.last → l.get? i = some (s.getTerm i)) ∧
      ∀ i, i < l.first ∨ l.last < i → s.getTerm i = 0 := by
  obtain ⟨henv, hempty⟩ := refines_init hd hinit
  have h := hempty.run henv inRange_regular hrun
  intro l
  have hl : (calls.foldl (onLog id) ⟨1, []⟩).map (·.term) = l := foldl_onLog_map _ calls ⟨1, []⟩
  have hfirst : s.firstLogIndex = l.first := by rw [← hl]; exact h.first
  have hlast : s.lastLogIndex = l.last := by rw [← hl, last_map]; exact h.last
  obtain ⟨recs, base, hinv, hrec⟩ := h.inv
  have hterm : ∀ i, s.getTerm i = (l.get? i).getD 0 := by
    intro i
    rw [hinv.getTerm_eq, ← hl, ← hrec, get?_map, get?_map, map_map]
    rfl
  refine ⟨hfirst, hlast, ⟨base, hfirst ▸ hinv.base_le, hlast ▸ hinv.tiles⟩, ?_, ?_⟩
  · intro i hlo hhi
    obtain ⟨t, ht⟩ := exists_get? hlo hhi
    rw [hterm, ht]
    rfl
  · intro i hi
    rw [hterm, get?_eq_none hi]
    rfl

def sampleEnv : Env := ⟨fun _ => 0, 10⟩

def sampleIo : Io := ⟨none, true, true, true, true, true, (0, 0, 0), fun _ => none⟩

lemma sampleIo_ok : sampleIo.Ok := ⟨rfl, rfl, rfl, rfl, rfl, rfl⟩

lemma returns {c : Call} {rc : Int} (fuel : Nat) (done : s.exec env sampleIo fuel c = some (rc, t)) : s.Returns env c rc t :=
  ⟨sampleIo, sampleIo_ok, fuel, done⟩

lemma length_sampleEntry : ([] : Bytes).length < 2 ^ 32 := by decide

def sampleEntry (index : Int) (term : Int64) : LogEntry := ⟨index, term, 0, [], length_sampleEntry⟩

/-- A storage that fits several entries into a segment. -/
def wideEnv : Env := ⟨fun _ => 0, 100⟩

def sampleCalls : List Call :=
  [.appendEntry (sampleEntry 1 1), .appendEntry (sampleEntry 2 3), .clearCacheEntry 1, .clearCacheEntry 2,
    .truncatePrefix 2]

theorem run_refines_log_sample :
    ∃ s₀ s, (new .empty).init wideEnv sampleIo = (0, s₀) ∧
      Run wideEnv Call.InRange s₀ sampleCalls s ∧ s.firstLogIndex = 2 ∧ s.lastLogIndex = 2 ∧
      some 3 = some (s.getTerm 2) ∧ s.getTerm 1 = 0 := by
  have hinit : (new .empty).init wideEnv sampleIo = (0, _) := rfl
  have hrun : Run wideEnv Call.InRange ((new .empty).init wideEnv sampleIo).2 sampleCalls _ :=
    .cons rfl (returns 0 rfl) (.cons rfl (returns 0 rfl)
      (.cons trivial (returns 0 rfl) (.cons trivial (returns 0 rfl)
        (.cons (show KeepsClosed _ 2 by decide) (returns 1 rfl) (.nil _)))))
  obtain ⟨hfirst, hlast, -, hin, hout⟩ := run_refines_log (d := .empty) rfl hinit hrun
  exact ⟨_, _, hinit, hrun, hfirst, hlast, hin 2 (by decide) (by decide), hout 1 (by decide)⟩

/-- The erase moves the slots of the node one to the left, so that the iterator skips a segment. -/
def shiftIo : Io := { sampleIo with stale := fun _ => some 1 }

def shiftCalls : List Call :=
  [.appendEntry (sampleEntry 1 1), .appendEntry (sampleEntry 2 1), .appendEntry (sampleEntry 3 1), .clearCacheEntry 1,
    .clearCacheEntry 2, .clearCacheEntry 3, .truncateSuffix 2]

/-- Entry 2 is still stored when `PopSegments` takes the log for empty. -/
theorem erased_iterator_skips :
    ∃ s₀ s t, (new .empty).init sampleEnv sampleIo = (0, s₀) ∧ Run sampleEnv Call.InRange s₀ shiftCalls s ∧
      s.Returns sampleEnv (.truncatePrefix 2) 0 t ∧ t.firstLogIndex = 2 ∧ t.lastLogIndex = 1 ∧
      ((shiftCalls ++ [Call.truncatePrefix 2]).foldl (onLog (·.term)) ⟨1, []⟩).last = 2 := by
  have hinit : (new .empty).init sampleEnv sampleIo = (0, _) := rfl
  have hrun : Run sampleEnv Call.InRange ((new .empty).init sampleEnv sampleIo).2 shiftCalls _ :=
    .cons rfl (returns 0 rfl) (.cons rfl (returns 0 rfl) (.cons rfl (returns 0 rfl)
      (.cons trivial (returns 0 rfl) (.cons trivial (returns 0 rfl)
        (.cons trivial (returns 0 rfl) (.cons ⟨by decide, by decide⟩ (returns 1 rfl) (.nil _)))))))
  exact ⟨_, _, _, hinit, hrun, ⟨shiftIo, ⟨rfl, rfl, rfl, rfl, rfl, rfl⟩, 1, rfl⟩, rfl, rfl, by decide⟩

end Storage

/-! `Init` on the directory that a storage has left: which part of its state comes back. -/

open List Segment SegmentMap Inv

lemma SegmentMap.insert_filter {l : List Segment} {seg : Segment}
    (sorted : l.Pairwise fun x y => x.firstIndex < y.firstIndex) (member : seg ∈ l) {p q : Segment → Bool}
    (before : p seg = false) (after : ∀ x ∈ l, q x = true ↔ p x = true ∨ x = seg) :
    insert seg.listed ((l.filter p).map listed) = (l.filter q).map listed := by
  induction l with
  | nil => cases member
  | cons x l ih =>
    obtain ⟨least, rest⟩ := pairwise_cons.mp sorted
    by_cases here : x = seg
    · subst here
      have same : l.filter q = l.filter p := by
        refine filter_congr fun y hy => ?_
        have ne : y ≠ x := fun eq => absurd (least y hy) (by rw [eq]; omega)
        exact Bool.eq_iff_iff.mpr ((after y (mem_cons_of_mem _ hy)).trans (by simp [ne]))
      rw [filter_cons_of_neg (by simp [before]),
        filter_cons_of_pos ((after x mem_cons_self).mpr (.inr rfl)), same, map_cons]
      cases hl : l.filter p with
      | nil => rfl
      | cons y m =>
        have : y ∈ l := (mem_filter.mp (hl ▸ mem_cons_self)).1
        rw [map_cons, insert, if_pos]
        simpa using least y this
    · have member := (mem_cons.mp member).resolve_left (Ne.symm here)
      have tail := ih rest member fun y hy => after y (mem_cons_of_mem _ hy)
      have larger := least seg member
      have agree : q x = p x :=
        Bool.eq_iff_iff.mpr ((after x mem_cons_self).trans (by simp [here]))
      cases hp : p x with
      | false => rw [filter_cons_of_neg (by simp [hp]), filter_cons_of_neg (by simp [agree, hp]), tail]
      | true =>
        rw [filter_cons_of_pos hp, filter_cons_of_pos (by rw [agree, hp]), map_cons, map_cons,
          insert, if_neg (by simp only [firstIndex_listed]; omega),
          if_neg (by simp only [firstIndex_listed]; omega), tail]

namespace Storage

variable {env : Env} {io : Io} {s t : Storage} {recs : Nat → List Record} {base : Int} {l : Log LogEntry}

def listedFrom (s : Storage) (seen : List FileName) (u : Storage) : Storage :=
  { u with
      segments := (s.segments.filter fun x => x.path ∈ seen).map listed
      openSegment := (s.openSegment.filter fun x => x.path ∈ seen).map listed }

lemma Inv.listName_spec (h : Inv env s recs base) (u : Storage) {x : Segment} (member : x ∈ s.all)
    {seen : List FileName} (unseen : x.path ∉ seen) :
    (s.listedFrom seen u).listName false x.path = some (s.listedFrom (x.path :: seen) u) := by
  rcases mem_all.mp member with closed | opened
  · have path := h.path_of_closed closed
    have listed : x.listed = .closed x.firstIndex x.lastIndex := by simp [listed, (h.closed x closed).1]
    have sorted : s.segments.Pairwise fun x y => x.firstIndex < y.firstIndex := by
      refine h.segments_sorted.imp_of_mem fun {a b} ha _ lt => ?_
      have := (h.closed a ha).2.1
      omega
    have insert : insert x.listed ((s.segments.filter fun y => y.path ∈ seen).map Segment.listed) =
        (s.segments.filter fun y => y.path ∈ x.path :: seen).map Segment.listed := by
      refine insert_filter sorted closed (by simpa using unseen) fun y hy => ?_
      have paths : y.path = x.path ↔ y = x := by
        refine ⟨fun eq => ?_, fun eq => eq ▸ rfl⟩
        exact inj_on_of_nodup_map h.paths (mem_all.mpr (.inl hy)) member eq
      simp [paths, or_comm]
    have kept : (s.openSegment.filter fun y => y.path ∈ x.path :: seen) = s.openSegment.filter fun y => y.path ∈ seen := by
      cases ho : s.openSegment with
      | none => rfl
      | some o =>
        have other : o.path ≠ x.path := by
          rw [h.path_of_opened ho, path]
          simp
        simp [Option.filter, other]
    have step : (s.listedFrom seen u).listName false x.path = some { s.listedFrom seen u with
        segments := SegmentMap.insert x.listed ((s.segments.filter fun y => y.path ∈ seen).map Segment.listed) } := by
      rw [path, listed]
      rfl
    rw [step, insert]
    simp only [listedFrom, kept]
  · have path := h.path_of_opened opened
    have listed : x.listed = .opened x.firstIndex := by simp [listed, (h.opened x opened).1]
    have none : (s.listedFrom seen u).openSegment = none := by simp [listedFrom, opened, Option.filter, unseen]
    have kept : (s.segments.filter fun y => y.path ∈ x.path :: seen) = s.segments.filter fun y => y.path ∈ seen := by
      refine filter_congr fun y hy => ?_
      have other : y.path ≠ x.path := by
        rw [h.path_of_closed hy, path]
        simp
      simp [other]
    have step : (s.listedFrom seen u).listName false x.path =
        some { s.listedFrom seen u with openSegment := some x.listed } := by
      rw [path, listed, listName, none]
      rfl
    rw [step]
    simp only [listedFrom, kept]
    simp [opened, Option.filter]

lemma Inv.listSegments_spec (h : Inv env s recs base) (u : Storage) (names seen : List FileName)
    (named : ∀ n ∈ names, ∃ x ∈ s.all, x.path = n) (distinct : names.Nodup) (fresh : ∀ n ∈ names, n ∉ seen) :
    (s.listedFrom seen u).listSegments false names = (0, s.listedFrom (names.reverse ++ seen) u) := by
  induction names generalizing seen with
  | nil => rfl
  | cons name names ih =>
    obtain ⟨missing, others⟩ := nodup_cons.mp distinct
    obtain ⟨x, member, rfl⟩ := named name mem_cons_self
    have step := h.listName_spec u member (fresh x.path mem_cons_self)
    have rest := ih (x.path :: seen) (fun n hn => named n (mem_cons_of_mem _ hn)) others (by
      intro n hn
      rw [mem_cons, not_or]
      exact ⟨fun eq => missing (eq ▸ hn), fresh n (mem_cons_of_mem _ hn)⟩)
    simp only [listSegments, step, rest, reverse_cons, append_assoc, singleton_append]

lemma loadClosed_spec (io : Io) {d : Disk} (l : List Segment) (last : Int)
    (held : ∀ x ∈ l, ∃ rs, x.Holds env d rs) (there : ∀ x ∈ l, d.lookup x.path = some x.fd) :
    loadClosed env io (l.map listed) d last = (0, l, d, ((l.getLast?.map (·.lastIndex)).getD last)) := by
  induction l generalizing last with
  | nil => rfl
  | cons x l ih =>
    obtain ⟨rs, holds⟩ := held x mem_cons_self
    have loaded := load_spec io holds (there x mem_cons_self)
    have rest := ih x.lastIndex (fun y hy => held y (mem_cons_of_mem _ hy)) fun y hy =>
      there y (mem_cons_of_mem _ hy)
    simp only [map_cons, loadClosed, loaded, rest, ne_eq, not_true_eq_false, if_false, getLast?_cons]
    cases l.getLast? <;> rfl

/-- The state of `Init` before it loads: what the names and `log_meta` say. -/
def listedAll (s : Storage) : Storage :=
  { Storage.new s.disk with
      firstLogIndex := s.firstLogIndex
      segments := s.segments.map listed
      openSegment := s.openSegment.map listed }

lemma Inv.init_eq (hio : io.Ok) (henv : 0 ≤ env.raftMaxSegmentSize) (h : Inv env s recs base) : (new s.disk).init env io =
      if (s.listedAll.loadSegments env io).1 ≠ 0 then (-1, (s.listedAll.loadSegments env io).2)
      else (0, (s.listedAll.loadSegments env io).2) := by
  have named : ∀ n ∈ s.disk.dir.keys, ∃ x ∈ s.all, x.path = n := by
    intro n hn
    obtain ⟨fd, hfd⟩ := isSome_iff_exists.mp (AList.lookup_isSome.mpr hn)
    obtain ⟨x, member, path, -⟩ := (h.dir n fd).mp hfd
    exact ⟨x, member, path⟩
  have every : ∀ x ∈ s.all, x.path ∈ s.disk.dir.keys := fun x member =>
    AList.lookup_isSome.mp (isSome_iff_exists.mpr ⟨_, h.lookup_path member⟩)
  have spec := h.listSegments_spec { new s.disk with firstLogIndex := s.firstLogIndex } s.disk.dir.keys []
    named (AList.keys_nodup _) (by simp)
  have start : s.listedFrom [] { new s.disk with firstLogIndex := s.firstLogIndex } =
      { new s.disk with firstLogIndex := s.firstLogIndex } := by
    simp [listedFrom, new]
  have final : s.listedFrom (s.disk.dir.keys.reverse ++ []) { new s.disk with firstLogIndex := s.firstLogIndex } =
      s.listedAll := by
    have segments : (s.segments.filter fun x => x.path ∈ s.disk.dir.keys.reverse ++ []) = s.segments :=
      filter_eq_self.mpr fun x hx => by simpa using every x (mem_all.mpr (.inl hx))
    have opened : (s.openSegment.filter fun x => x.path ∈ s.disk.dir.keys.reverse ++ []) = s.openSegment := by
      cases ho : s.openSegment with
      | none => rfl
      | some o => simp [Option.filter, every o (mem_all.mpr (.inr ho))]
    simp only [listedFrom, segments, opened, listedAll]
  rw [start, final] at spec
  have meta' : (new s.disk).disk.logMeta = some s.firstLogIndex := h.logMeta
  simp only [init, if_neg (show ¬ env.raftMaxSegmentSize < 0 by omega), loadMeta, meta', hio.loadMetaOk, if_true, spec,
    show (new s.disk).disk.dir.keys = s.disk.dir.keys from rfl]
  rfl

lemma Inv.init_nonempty (hio : io.Ok) (henv : 0 ≤ env.raftMaxSegmentSize) (h : Inv env s recs base)
    (positive : 1 ≤ s.firstLogIndex) (nonempty : s.firstLogIndex ≤ s.lastLogIndex) :
    (new s.disk).init env io = (0, { s with latestEntriesCache := [], latestEntry := none }) := by
  have closed := loadClosed_spec io s.segments (1 : Int)
    (fun x hx => ⟨_, h.holds x (mem_all.mpr (.inl hx))⟩) fun x hx => h.lookup_path (mem_all.mpr (.inl hx))
  have last : s.openSegment = none → (s.segments.getLast?.map (·.lastIndex)).getD 1 = s.lastLogIndex := by
    intro ho
    have tiles := h.tiles
    rw [all, ho, toList_none, append_nil] at tiles
    rcases hl : s.segments.getLast? with _ | x
    · have := h.base_le
      rw [getLast?_eq_none_iff.mp hl] at tiles
      simp only [Tiles] at tiles
      omega
    · obtain ⟨rest, eq⟩ := getLast?_eq_some_iff.mp hl
      rw [eq, Contiguous, tiles_concat] at tiles
      simp only [map_some, getD_some]
      omega
  have loaded : s.listedAll.loadSegments env io = (0, { s with latestEntriesCache := [], latestEntry := none }) := by
    have zero : s.lastLogIndex ≠ 0 := by omega
    cases ho : s.openSegment with
    | none =>
      simp only [loadSegments, listedAll, new, closed, loadOpen, ho, last ho, map_none]
      simp [zero]
    | some o =>
      have here : o ∈ s.all := mem_all.mpr (.inr ho)
      have loaded := load_spec io (h.holds o here) (h.lookup_path here)
      have ends := h.lastIndex_opened ho
      have reach : ¬ s.firstLogIndex > o.lastIndex := by omega
      simp only [loadSegments, listedAll, new, closed, loadOpen, ho, map_some, loaded, if_neg reach]
      simp [zero, ends]
  rw [h.init_eq hio henv, loaded]
  rfl

lemma Inv.init_empty (hio : io.Ok) (henv : 0 ≤ env.raftMaxSegmentSize) (h : Inv env s recs base)
    (empty : s.lastLogIndex < s.firstLogIndex) :
    ∃ d, (new s.disk).init env io = (0, { new d with firstLogIndex := s.firstLogIndex }) := by
  have le := h.first_le
  have none : s.segments = [] := by
    rcases hs : s.segments with _ | ⟨x, l⟩
    · rfl
    · have reach := h.closed x (by simp [hs])
      have := (h.tiles.mem (mem_all.mpr (.inl (show x ∈ s.segments by simp [hs])))).2.2
      omega
  have loaded : ∃ d, s.listedAll.loadSegments env io = (0, { new d with firstLogIndex := s.firstLogIndex }) := by
    cases ho : s.openSegment with
    | none =>
      refine ⟨s.disk, ?_⟩
      simp [loadSegments, listedAll, new, loadClosed, loadOpen, ho, none]
    | some o =>
      have here : o ∈ s.all := mem_all.mpr (.inr ho)
      have loaded := load_spec io (h.holds o here) (h.lookup_path here)
      have ends := h.lastIndex_opened ho
      have behind : s.firstLogIndex > o.lastIndex := by omega
      refine ⟨(o.unlink io s.disk).2, ?_⟩
      simp only [loadSegments, listedAll, new, none, map_nil, loadClosed, loadOpen, ho, map_some,
        loaded, if_pos behind]
      simp
  obtain ⟨d, eq⟩ := loaded
  exact ⟨d, by rw [h.init_eq hio henv, eq]; rfl⟩

lemma loadOpen_recent (env : Env) (io : Io) (s : Storage) :
    (s.loadOpen env io).2.latestEntriesCache = s.latestEntriesCache ∧ (s.loadOpen env io).2.latestEntry = s.latestEntry := by
  unfold loadOpen
  split
  · exact ⟨rfl, rfl⟩
  · simp only
    split
    · exact ⟨rfl, rfl⟩
    · split <;> exact ⟨rfl, rfl⟩

lemma loadSegments_recent (env : Env) (io : Io) (s : Storage) : (s.loadSegments env io).2.latestEntriesCache = s.latestEntriesCache ∧
      (s.loadSegments env io).2.latestEntry = s.latestEntry := by
  unfold loadSegments
  rcases loadClosed env io s.segments s.disk s.lastLogIndex with ⟨rc, segments, disk, last⟩
  have opened := loadOpen_recent env io { s with segments := segments, disk := disk, lastLogIndex := last }
  simp only
  split
  · exact ⟨rfl, rfl⟩
  · split
    · exact opened
    · split <;> exact opened

lemma listSegments_recent (isEmpty : Bool) (names : List FileName) (s : Storage) :
    (s.listSegments isEmpty names).2.latestEntriesCache = s.latestEntriesCache ∧
      (s.listSegments isEmpty names).2.latestEntry = s.latestEntry := by
  induction names generalizing s with
  | nil => exact ⟨rfl, rfl⟩
  | cons name names ih =>
    rw [listSegments]
    split
    · exact ⟨rfl, rfl⟩
    · next t listed =>
      have same : t.latestEntriesCache = s.latestEntriesCache ∧ t.latestEntry = s.latestEntry := by
        unfold listName at listed
        split at listed
        · obtain rfl := some.inj listed
          exact ⟨rfl, rfl⟩
        · obtain rfl := some.inj listed
          exact ⟨rfl, rfl⟩
        · split at listed
          · cases listed
          · obtain rfl := some.inj listed
            exact ⟨rfl, rfl⟩
        · obtain rfl := some.inj listed
          exact ⟨rfl, rfl⟩
      exact ⟨(ih t).1.trans same.1, (ih t).2.trans same.2⟩

lemma init_recent (env : Env) (io : Io) (d : Disk) :
    ((new d).init env io).2.latestEntriesCache = [] ∧ ((new d).init env io).2.latestEntry = none := by
  have read : ((new d).loadMeta io).2.2.latestEntriesCache = [] ∧
      ((new d).loadMeta io).2.2.latestEntry = none := by
    unfold loadMeta
    split
    · exact ⟨rfl, rfl⟩
    · split <;> exact ⟨rfl, rfl⟩
  unfold init
  split
  · exact ⟨rfl, rfl⟩
  rcases loaded : (new d).loadMeta io with ⟨rc, isEmpty, s⟩
  rw [loaded] at read
  simp only
  split
  · exact read
  rcases listed : s.listSegments isEmpty s.disk.dir.keys with ⟨rc', t⟩
  have names := listSegments_recent isEmpty s.disk.dir.keys s
  rw [listed, read.1, read.2] at names
  simp only
  split
  · exact names
  split
  · unfold saveMeta
    split <;> exact names
  · have segments := loadSegments_recent env io t
    rw [names.1, names.2] at segments
    split <;> exact segments

variable {i : Int} {e : LogEntry}

lemma Refines.index_eq (h : Refines env s l) (found : l.get? i = some e) : e.index = i := by
  have first := h.first
  have last := h.last
  obtain ⟨rs, b, inv, rfl⟩ := h.inv
  have range : s.firstLogIndex ≤ i ∧ i ≤ s.lastLogIndex := by
    by_contra out
    rw [get?_eq_none (by omega)] at found
    cases found
  obtain ⟨seg, member, -, lo, hi⟩ := inv.getSegment_some range.1 range.2
  rw [get?_map, inv.get?_records member range.1 lo hi] at found
  obtain ⟨r, stored, rfl⟩ := map_eq_some_iff.mp found
  rw [(inv.holds seg member).indexed _ r stored]
  omega

lemma Refines.read_segment (h : Refines env s l) (i : Int) : ((s.getSegment i).bind fun seg => seg.get env s.disk i) = l.get? i := by
  have first := h.first
  have last := h.last
  obtain ⟨rs, b, inv, rfl⟩ := h.inv
  by_cases range : s.firstLogIndex ≤ i ∧ i ≤ s.lastLogIndex
  · obtain ⟨seg, member, found, lo, hi⟩ := inv.getSegment_some range.1 range.2
    have len := inv.length_recs seg member
    have stored := getElem?_eq_getElem (l := rs seg.fd) (i := (i - seg.firstIndex).toNat) (by omega)
    rw [found, get?_map, inv.get?_records member range.1 lo hi, stored]
    exact get_of_mem (inv.holds seg member).lists stored lo
  · rw [inv.getSegment_none (by omega), get?_eq_none (by omega)]
    rfl

lemma Refines.cachedEntry_eq (h : Refines env s l)
    (found : cachedEntry s.latestEntriesCache i = some e) : l.get? i = some e := by
  obtain ⟨older, split⟩ := h.cached
  unfold cachedEntry at found
  split at found
  · next first last hfirst hlast =>
    split at found
    · next range =>
      -- The cache starts at the index behind the older entries, so positions in it are positions in the log.
      have position : ∀ n : Nat, l.get? (l.first + older.length + n) = s.latestEntriesCache[n]? := by
        intro n
        rw [get?, if_pos (by omega), ← split, getElem?_append_right (by omega)]
        congr 1
        omega
      have start : l.get? (l.first + older.length + (0 : Nat)) = some first := by
        rw [position, ← head?_eq_getElem?, hfirst]
      have index := h.index_eq start
      rw [← found, ← position]
      congr 1
      omega
    · cases found
  · cases found

lemma getEntry_of_latest (latest : s.latestEntry = some e) : s.getEntry env e.index = some e := by
  simp [getEntry, latest, Option.filter]

lemma Refines.getEntry_eq (h : Refines env s l) (other : ∀ e, s.latestEntry = some e → e.index ≠ i) :
    s.getEntry env i = l.get? i := by
  have silent : (s.latestEntry.filter fun e => e.index = i) = none :=
    filter_eq_none_iff.mpr fun e he => by simpa using other e he
  simp only [getEntry, silent]
  cases found : cachedEntry s.latestEntriesCache i with
  | some e => exact (h.cachedEntry_eq found).symm
  | none => exact h.read_segment i

lemma Refines.getEntry_mem (h : Refines env s l) (lo : l.first ≤ i) (hi : i ≤ l.last) : s.getEntry env i = l.get? i := by
  by_cases other : ∀ e, s.latestEntry = some e → e.index ≠ i
  · exact h.getEntry_eq other
  · simp only [not_forall, not_not] at other
    obtain ⟨e, latest, rfl⟩ := other
    rw [getEntry_of_latest latest, h.latest e latest lo hi]

/-- Closing the storage and running `Init` on its directory gives the same log: the same indices, and the same
    term and entry at every index. -/
def Restored (env : Env) (s : Storage) : Prop :=
  ∀ io : Io, io.Ok → ∃ t, (Storage.new s.disk).init env io = (0, t) ∧ t.firstLogIndex = s.firstLogIndex ∧
    t.lastLogIndex = s.lastLogIndex ∧ ∀ i, t.getTerm i = s.getTerm i ∧ t.getEntry env i = s.getEntry env i

def LatestInLog (s : Storage) : Prop :=
  ∀ e, s.latestEntry = some e → s.firstLogIndex ≤ e.index ∧ e.index ≤ s.lastLogIndex

lemma Refines.getEntry_eq_iff (h : Refines env s l) : (∀ i, s.getEntry env i = l.get? i) ↔ s.LatestInLog := by
  have first := h.first
  have last := h.last
  constructor
  · intro same e latest
    by_contra out
    have none := same e.index
    rw [getEntry_of_latest latest, get?_eq_none (by omega)] at none
    cases none
  · intro inside i
    by_cases range : l.first ≤ i ∧ i ≤ l.last
    · exact h.getEntry_mem range.1 range.2
    · refine h.getEntry_eq fun e latest index => range ?_
      obtain ⟨lo, hi⟩ := inside e latest
      omega

lemma getTerm_getEntry_hollow (env : Env) (d : Disk) (first i : Int) : getTerm { new d with firstLogIndex := first } i = 0 ∧
      getEntry env { new d with firstLogIndex := first } i = none := by
  have lost : getSegment { new d with firstLogIndex := first } i = none := by
    unfold getSegment
    split
    · rfl
    · split
      · rfl
      · split <;> rfl
  constructor
  · simp only [getTerm, lost]
  · simp only [getEntry, lost]
    rfl

/-- Without what it keeps in memory, the storage reads its entries from the segments. -/
lemma Refines.getEntry_reopened (h : Refines env s l) (i : Int) :
    getEntry env { s with latestEntriesCache := [], latestEntry := none } i = l.get? i := by
  obtain ⟨rs, b, inv, eq⟩ := h.inv
  have reopened : Refines env { s with latestEntriesCache := [], latestEntry := none } l :=
    ⟨⟨rs, b, inv.setCache [] none, eq⟩, nil_suffix, by simp⟩
  exact reopened.getEntry_eq_iff.mpr (by simp [LatestInLog]) i

lemma Refines.opens (henv : 0 ≤ env.raftMaxSegmentSize) (hio : io.Ok) (h : Refines env s l) (positive : 1 ≤ l.first) :
    ∃ t, (new s.disk).init env io = (0, t) ∧ (∀ i, t.getEntry env i = l.get? i) ∧ (l.first ≤ l.last → t.lastLogIndex = l.last) := by
  have first := h.first
  have last := h.last
  have ⟨rs, b, inv, eq⟩ := h.inv
  by_cases nonempty : s.firstLogIndex ≤ s.lastLogIndex
  · exact ⟨_, inv.init_nonempty hio henv (by omega) nonempty, h.getEntry_reopened, fun _ => last⟩
  · obtain ⟨d, empty⟩ := inv.init_empty hio henv (by omega)
    refine ⟨_, empty, fun i => ?_, fun some => absurd some (by omega)⟩
    rw [(getTerm_getEntry_hollow env d s.firstLogIndex i).2, get?_eq_none (by omega)]

lemma Refines.restored_iff (henv : 0 ≤ env.raftMaxSegmentSize) (h : Refines env s l) (positive : 1 ≤ l.first) :
    s.Restored env ↔ (s.firstLogIndex ≤ s.lastLogIndex ∨ s.lastLogIndex = 1) ∧ s.LatestInLog := by
  have first := h.first
  have last := h.last
  have ⟨rs, b, inv, eq⟩ := h.inv
  by_cases nonempty : s.firstLogIndex ≤ s.lastLogIndex
  · have entries := h.getEntry_reopened
    have loaded := fun {io : Io} (hio : io.Ok) => inv.init_nonempty hio henv (by omega) nonempty
    rw [← h.getEntry_eq_iff]
    constructor
    · intro restored
      obtain ⟨t, init, -, -, same⟩ := restored sampleIo sampleIo_ok
      rw [loaded sampleIo_ok] at init
      obtain rfl := (Prod.mk.inj init).2
      exact ⟨.inl nonempty, fun i => (same i).2.symm.trans (entries i)⟩
    · rintro ⟨-, same⟩ io hio
      exact ⟨_, loaded hio, rfl, rfl, fun i => ⟨rfl, (entries i).trans (same i).symm⟩⟩
  · have none := fun (d : Disk) i => getTerm_getEntry_hollow env d s.firstLogIndex i
    have terms : ∀ i, s.getTerm i = 0 := by
      intro i
      simp only [getTerm, inv.getSegment_none (show i < s.firstLogIndex ∨ s.lastLogIndex < i by omega)]
    have absent : ∀ i, l.get? i = Option.none := fun i => get?_eq_none (by omega)
    rw [← h.getEntry_eq_iff]
    constructor
    · intro restored
      obtain ⟨t, init, -, lasts, same⟩ := restored sampleIo sampleIo_ok
      obtain ⟨d, empty⟩ := inv.init_empty sampleIo_ok henv (by omega)
      rw [empty] at init
      obtain rfl := (Prod.mk.inj init).2
      exact ⟨.inr lasts.symm, fun i => (same i).2.symm.trans ((none d i).2.trans (absent i).symm)⟩
    · rintro ⟨one, same⟩ io hio
      obtain ⟨d, empty⟩ := inv.init_empty hio henv (by omega)
      refine ⟨_, empty, rfl, ?_, fun i => ⟨(none d i).1.trans (terms i).symm, ?_⟩⟩
      · exact (one.resolve_left nonempty).symm
      · rw [(none d i).2, same i, absent i]

lemma first_foldl_onLog (calls : List Call) (l : Log LogEntry) : l.first ≤ (calls.foldl (Call.onLog id) l).first := by
  induction calls generalizing l with
  | nil => exact le_rfl
  | cons c calls ih =>
    refine Int.le_trans ?_ (ih (c.onLog id l))
    cases c with
    | appendEntry entry =>
      simp only [Call.onLog]
      split <;> exact le_rfl
    | truncatePrefix k =>
      simp only [Call.onLog, first_truncatePrefix]
      omega
    | truncateSuffix k => exact le_rfl
    | clearCacheEntry i => exact le_rfl

end Storage

end Myctk.Mraft
