import Myctk.Mraft.Node
import Myctk.Mraft.Recovery

/-! Runs of a node: what the library asks of it, and its crashes. -/

namespace Myctk.Mraft

section
open Storage Node Prod

inductive NodeCall where
  | persistTerm (term : Nat) (vote : Int)
  | persistVote (vote : Int)
  | applyLog (entry : LogEntry) (entryIdx : Int) (closure : Bool)
  | log (c : Call)
  | restart (out : Outside)

section
variable {α : Type}

inductive NodeStep (lib : RaftLib (Node α)) (app : App α) (env : Env) (self : RaftNodePeer) :
    RaftServer (Node α) → NodeCall → RaftServer (Node α) → Prop
  | persistTerm {x : RaftServer (Node α)} {n : Node α} {term : Nat} {vote : Int} : x.udata.state = .up →
      x.udata.persistTerm .done term vote = (0, n) →
      NodeStep lib app env self x (.persistTerm term vote) { x with currentTerm := term, votedFor := vote, udata := n }
  | persistVote {x : RaftServer (Node α)} {n : Node α} {vote : Int} : x.udata.state = .up →
      x.udata.persistVote .done vote = (0, n) →
      NodeStep lib app env self x (.persistVote vote) { x with votedFor := vote, udata := n }
  | applyLog {x : RaftServer (Node α)} {n : Node α} {entry : LogEntry} {i rc : Int} {closure : Bool} : x.udata.state = .up →
      x.udata.raftApplyLog lib.logType app closure entry i = (rc, n) →
      NodeStep lib app env self x (.applyLog entry i closure)
        { x with lastAppliedIdx := i, lastAppliedTerm := entry.term.toInt, udata := n }
  | log {x : RaftServer (Node α)} {c : Call} {rc : Int} {s : Storage} : x.udata.state = .up →
      x.udata.store.Returns env c rc s → NodeStep lib app env self x (.log c) { x with udata := { x.udata with store := s } }
  | restart {x y : RaftServer (Node α)} {out : Outside} {rc : Int} : out.Ok →
      init lib app env out self x.udata.store.disk x.udata.metaFile = some (rc, y) →
      NodeStep lib app env self x (.restart out) y

inductive NodeRun (lib : RaftLib (Node α)) (app : App α) (env : Env) (self : RaftNodePeer) (x₀ : RaftServer (Node α)) :
    List (RaftServer (Node α) × NodeCall) → RaftServer (Node α) → Prop
  | nil : NodeRun lib app env self x₀ [] x₀
  | snoc {steps : List (RaftServer (Node α) × NodeCall)} {x y : RaftServer (Node α)} {c : NodeCall} :
      NodeRun lib app env self x₀ steps x → NodeStep lib app env self x c y →
      NodeRun lib app env self x₀ (steps ++ [(x, c)]) y

/-- A record that `Init` can load. -/
structure RaftMeta.Loadable (m : RaftMeta) : Prop where
  snapshot : m.snapshotLastIdx = 0
  snapshotTerm : m.snapshotLastTerm = 0
  id : 0 < m.selfPeer.id

lemma RaftMeta.Loadable.of_peers {m : RaftMeta} (h : m.Loadable) (peers : List (Int × RaftNodePeer)) :
    ({ m with nodePeers := peers } : RaftMeta).Loadable := ⟨h.snapshot, h.snapshotTerm, h.id⟩

/-- The node with a record that is written. -/
abbrev Node.record (n : Node α) (m : RaftMeta) : Node α := { n with raftMeta := m, metaFile := .saved m }

lemma Node.eq_of_persistVote {n n' : Node α} {vote : Int} (written : n.persistVote .done vote = (0, n')) :
    n' = n.record { n.raftMeta with votedFor := vote } := (Prod.mk.inj written).2.symm

lemma Node.eq_of_persistTerm {n n' : Node α} {term vote : Int} (up : n.state = .up)
    (written : n.persistTerm .done term vote = (0, n')) :
    n' = n.record { n.raftMeta with votedFor := vote, lastAppliedTerm := term } := by
  rw [persistTerm, if_neg (by simp [up])] at written
  exact (Prod.mk.inj written).2.symm

structure Ready (x : RaftServer (Node α)) : Prop where
  file : ∃ m, x.udata.metaFile = .saved m ∧ m.Loadable
  record : x.udata.state = .up → x.udata.raftMeta.Loadable

variable {lib : RaftLib (Node α)} {app : App α} {env : Env} {self : RaftNodePeer} {x y : RaftServer (Node α)}
  {steps : List (RaftServer (Node α) × NodeCall)}

lemma Started.ready (h : Started lib app x) : Ready x := by
  obtain ⟨peers, peer, record⟩ := h.record
  have loadable : x.udata.raftMeta.Loadable := ⟨by rw [record]; rfl, by rw [record]; rfl, h.id⟩
  exact ⟨⟨_, h.file, loadable⟩, fun _ => loadable⟩

lemma raftApplyLog_up {n n' : Node α} {logType : UInt8 → LogType} {closure : Bool} {e : LogEntry} {i rc : Int}
    (up : n.state = .up) (applied : n.raftApplyLog logType app closure e i = (rc, n')) :
    n'.metaFile = n.metaFile ∧ n'.state = .up ∧ n'.store = (n.store.clearCacheEntry i).2 ∧
      n'.app = (n.applyEntry logType app closure e).2.app ∧ ∃ peers, n'.raftMeta =
        { n.raftMeta with nodePeers := peers, lastAppliedIdx := i, lastAppliedTerm := e.term.toInt } := by
  have entry := kept_applyEntry logType app closure n e
  have both := entry.trans (kept_clearCache _ i)
  simp only [raftApplyLog, if_pos (entry.state.trans up), Prod.mk.injEq] at applied
  obtain ⟨-, rfl⟩ := applied
  obtain ⟨peers, record⟩ := both.record
  exact ⟨both.metaFile, both.state.trans up, by simp only [store_applyEntry], rfl, peers, by simp only at record; simp only [record]⟩

lemma Ready.restart (h : Ready x) {out : Outside} {rc : Int} (hout : out.Ok)
    (started : init lib app env out self x.udata.store.disk x.udata.metaFile = some (rc, y)) :
    (∃ code s, code ≠ 0 ∧ (new x.udata.store.disk).init env out.io = (code, s) ∧
      y = lib.new ⟨.uninitialized, .cleared, x.udata.metaFile, s, app.initial⟩) ∨
    ∃ s m es z, (new x.udata.store.disk).init env out.io = (0, s) ∧ x.udata.metaFile = .saved m ∧ m.Loadable ∧
      Applies (callbacks lib app env out.saveMeta) (commitAll lib (lib.new (.loading app m s))) es z ∧ Loaded m z y := by
  obtain ⟨m, file, loadable⟩ := h.file
  rcases opened : (new x.udata.store.disk).init env out.io with ⟨code, s⟩
  by_cases zero : code = 0
  · subst zero
    obtain ⟨es, z, y', eq, applies, loaded⟩ := init_saved lib app hout self opened loadable.snapshot loadable.id
    rw [file, eq] at started
    obtain ⟨-, rfl⟩ := mk.inj (Option.some.inj started)
    exact .inr ⟨s, m, es, z, rfl, file, loadable, applies, loaded⟩
  · rw [init_closed self zero opened] at started
    obtain ⟨-, rfl⟩ := mk.inj (Option.some.inj started)
    exact .inl ⟨code, s, zero, rfl, rfl⟩

lemma Loaded.ready {m : RaftMeta} {z : RaftServer (Node α)} (h : Loaded m z y) (loadable : m.Loadable) : Ready y := by
  obtain ⟨peers, saved⟩ := h.file
  obtain ⟨peers', record⟩ := h.record
  exact ⟨⟨_, saved, loadable.of_peers _⟩, fun _ => by rw [record]; exact loadable.of_peers _⟩

lemma Ready.of_record {n : Node α} {m : RaftMeta} (recorded : y.udata = n.record m) (loadable : m.Loadable) : Ready y := by
  refine ⟨⟨m, by rw [recorded], loadable⟩, fun _ => ?_⟩
  rw [recorded]
  exact loadable

lemma Ready.step (h : Ready x) {c : NodeCall} (step : NodeStep lib app env self x c y) : Ready y := by
  cases step with
  | @persistTerm n term vote up written =>
    obtain rfl := eq_of_persistTerm up written
    exact .of_record rfl ⟨(h.record up).snapshot, (h.record up).snapshotTerm, (h.record up).id⟩
  | @persistVote n vote up written =>
    obtain rfl := eq_of_persistVote written
    exact .of_record rfl ⟨(h.record up).snapshot, (h.record up).snapshotTerm, (h.record up).id⟩
  | applyLog up applied =>
    obtain ⟨file, -, -, -, peers, record⟩ := raftApplyLog_up up applied
    obtain ⟨m, saved, loadable⟩ := h.file
    have current := h.record up
    refine ⟨⟨m, file.trans saved, loadable⟩, fun _ => ?_⟩
    simp only [record]
    exact ⟨current.snapshot, current.snapshotTerm, current.id⟩
  | log up returned => exact ⟨h.file, h.record⟩
  | restart hout started =>
    rcases h.restart hout started with ⟨code, s, -, -, rfl⟩ | ⟨s, m, es, z, -, -, loadable, -, loaded⟩
    · rw [lib.new_eq]
      exact ⟨h.file, by simp⟩
    · exact loaded.ready loadable

end

def samplePeer (id : Nat) : RaftNodePeer := ⟨[1], 80 + id, id⟩

def sampleOut (id : Nat) : Outside := ⟨sampleIo, true, .done, true, some (samplePeer id)⟩

def sampleApp : App Nat := ⟨0, fun a _ => (0, a + 1)⟩

def sampleMeta (id : Nat) : RaftMeta := ⟨[(id, samplePeer id)], samplePeer id, 0, 0, 0, 0, 0⟩

def sampleNode (id : Nat) : RaftServer (Node Nat) :=
  ⟨0, -1, 0, 0, 0, .up, sampleMeta id, .saved (sampleMeta id), ((new .empty).init sampleEnv sampleIo).2, 0⟩

lemma sampleNode_started {id : Nat} (positive : 0 < id) : Started (.plain _) sampleApp (sampleNode id) :=
  ⟨rfl, rfl, Int.natCast_pos.mpr positive, ⟨_, _, rfl⟩, rfl, rfl⟩

example : init (.plain _) sampleApp sampleEnv (sampleOut 1) { samplePeer 1 with id := 0 } .empty .missing =
    some (0, sampleNode 1) := rfl

def sampleAhead (id : Nat) : RaftServer (Node Nat) :=
  { sampleNode id with
      udata := { (sampleNode id).udata with
        store := (appendEntry sampleEnv sampleIo
          ((new .empty).init sampleEnv sampleIo).2 (sampleEntry 1 1)).2 } }

lemma sampleAhead_step (id : Nat) (self : RaftNodePeer) :
    NodeStep (.plain _) sampleApp sampleEnv self (sampleNode id) (.log (.appendEntry (sampleEntry 1 1)))
      (sampleAhead id) := .log rfl (returns 0 rfl)

/-! The entries that a start applies: all of its log, as far as no index from 1 on is missing. -/

open List Lib

section
variable {α : Type} {lib : RaftLib (Node α)} {app : App α} {env : Env} {w : Write} {m : RaftMeta} {s : Storage}
  {y : RaftServer (Node α)} {es : List (Int × LogEntry)} {k : Int} {e : LogEntry}

def Replayed (env : Env) (s : Storage) (k : Int) (e : LogEntry) : Prop :=
  1 ≤ k ∧ k ≤ s.lastLogIndex ∧ s.getEntry env k = some e ∧ ∀ j, 1 ≤ j → j < k → s.getEntry env j ≠ none

/-- `OnApplyLog` takes every entry. -/
def App.Accepts (app : App α) : Prop := ∀ a e, (app.onApplyLog a e).1 = 0

lemma clearCacheEntry_nil (recent : s.latestEntriesCache = []) (i : Int) : (s.clearCacheEntry i).2 = s := by
  simp [Storage.clearCacheEntry, recent]

lemma raftApplyLog_loading (lib : RaftLib (Node α)) (app : App α) (recent : s.latestEntriesCache = []) (closure : Bool) {n : Node α}
    (loading : n.state = .loading ∧ n.store = s) (i : Int) : (n.raftApplyLog lib.logType app closure e i).2.state = .loading ∧
      (n.raftApplyLog lib.logType app closure e i).2.store = s ∧
      (n.raftApplyLog lib.logType app closure e i).2.app = (n.applyEntry lib.logType app closure e).2.app := by
  have entry := kept_applyEntry lib.logType app closure n e
  have state := entry.state.trans loading.1
  have store := (store_applyEntry lib.logType app closure n e).trans loading.2
  have down : (n.applyEntry lib.logType app closure e).2.state ≠ .up := by simp [state]
  simp only [raftApplyLog, if_neg down]
  refine ⟨state, ?_, trivial⟩
  rw [store, clearCacheEntry_nil recent]

lemma raftApplyLog_accepts (accepts : app.Accepts) (closure : Bool) (n : Node α) (i : Int) :
    (n.raftApplyLog lib.logType app closure e i).1 = 0 := by
  have entry : (n.applyEntry lib.logType app closure e).1 = 0 := by
    unfold applyEntry
    split <;> simp [accepts n.app e]
  unfold raftApplyLog
  simp only
  split <;> exact entry

lemma commitAll_loading (lib : RaftLib (Node α)) (app : App α) (loadable : m.Loadable) (s : Storage) :
    let x := commitAll lib (lib.new (.loading app m s))
    x.lastAppliedIdx = 0 ∧ x.lastAppliedTerm = 0 ∧ x.commitIdx = max 0 s.lastLogIndex ∧
      x.udata = .loading app m s := by
  obtain ⟨peers, same⟩ := insertPeer_record m m.selfPeer.id m.selfPeer
  simp only [commitAll, lib.new_eq, lib.setCommitIdx_eq, lib.setSnapshotMetadata_eq, loading, same, loadable.snapshot,
    loadable.snapshotTerm]
  split
  · next positive => exact ⟨trivial, trivial, (max_eq_right (Int.le_of_lt positive)).symm, rfl⟩
  · next negative => exact ⟨trivial, trivial, (max_eq_left (Int.not_lt.mp negative)).symm, rfl⟩

section
variable (loadable : m.Loadable) (recent : s.latestEntriesCache = [])
  (h : Applies (Node.callbacks lib app env w) (commitAll lib (lib.new (.loading app m s))) es y)
include loadable recent h

lemma getElem_replay {n : Nat} (member : es[n]? = some (k, e)) : k = n + 1 ∧ k ≤ s.lastLogIndex ∧ s.getEntry env k = some e := by
  obtain ⟨first, -, commit, udata⟩ := commitAll_loading lib app loadable s
  have found := h.getElem (P := fun n => n.state = .loading ∧ n.store = s) (g := fun i => s.getEntry env i)
    (fun n e i kept => by
      obtain ⟨state, store, -⟩ := raftApplyLog_loading lib app recent false kept i
      exact ⟨state, store⟩)
    (fun n i kept => by simp only [callbacks, kept.2]) (by rw [udata]; exact ⟨rfl, rfl⟩) member
  rw [first, commit] at found
  exact ⟨by omega, by omega, found.2.2⟩

lemma replayed_of_mem (member : (k, e) ∈ es) : Replayed env s k e := by
  obtain ⟨n, position⟩ := mem_iff_getElem?.mp member
  obtain ⟨index, bound, entry⟩ := getElem_replay loadable recent h position
  refine ⟨by omega, bound, entry, fun j lo hi => ?_⟩
  obtain ⟨short, -⟩ := List.getElem?_eq_some_iff.mp position
  obtain ⟨⟨j', e'⟩, earlier⟩ : ∃ p, es[(j - 1).toNat]? = some p := ⟨_, getElem?_eq_getElem (by omega)⟩
  obtain ⟨index', -, entry'⟩ := getElem_replay loadable recent h earlier
  obtain rfl : j = j' := by omega
  simp [entry']

lemma mem_of_replayed (accepts : app.Accepts) (replayed : Replayed env s k e) : (k, e) ∈ es := by
  obtain ⟨first, -, commit, udata⟩ := commitAll_loading lib app loadable s
  obtain ⟨lo, hi, entry, before⟩ := replayed
  have stopped := h.stopped (P := fun n => n.state = .loading ∧ n.store = s) (g := fun i => s.getEntry env i)
    (fun n e i kept => by
      obtain ⟨state, store, -⟩ := raftApplyLog_loading lib app recent false kept i
      exact ⟨state, store⟩)
    (fun n i kept => by simp only [callbacks, kept.2]) (fun n e i _ => raftApplyLog_accepts accepts false n i)
    (by rw [udata]; exact ⟨rfl, rfl⟩)
  have length := h.lastAppliedIdx_eq
  rw [first] at length
  rw [h.same.2.2, commit] at stopped
  have reached : k ≤ es.length := by
    by_contra short
    rcases stopped with enough | missing
    · omega
    · by_cases last : y.lastAppliedIdx + 1 = k
      · rw [last, entry] at missing
        cases missing
      · exact before _ (by omega) (by omega) missing
  obtain ⟨⟨k', e'⟩, position⟩ : ∃ p, es[(k - 1).toNat]? = some p := ⟨_, getElem?_eq_getElem (by omega)⟩
  obtain ⟨index, -, entry'⟩ := getElem_replay loadable recent h position
  obtain rfl : k = k' := by omega
  obtain rfl := Option.some.inj (entry.symm.trans entry')
  exact mem_of_getElem? position

end

lemma replay_log {l : Log LogEntry} (accepts : app.Accepts) (loadable : m.Loadable) (recent : s.latestEntriesCache = [])
    (h : Applies (callbacks lib app env w) (commitAll lib (lib.new (.loading app m s))) es y)
    (reads : ∀ i, s.getEntry env i = l.get? i) (last : l.first ≤ l.last → s.lastLogIndex = l.last) :
    (l.first = 1 → es.map Prod.snd = l.entries) ∧ (1 < l.first → es = []) := by
  constructor
  · intro first
    have position : ∀ n : Nat, l.get? (n + 1) = l.entries[n]? := by
      intro n
      rw [Log.get?, if_pos (by omega), first]
      congr 1
      omega
    refine ext_getElem? fun n => ?_
    rw [getElem?_map, ← position]
    cases here : es[n]? with
    | some p =>
      obtain ⟨k, e⟩ := p
      obtain ⟨rfl, -, entry⟩ := getElem_replay loadable recent h here
      rw [← reads, entry]
      rfl
    | none =>
      cases found : l.get? (n + 1) with
      | none => rfl
      | some e =>
        -- The entry could be replayed, so it was, and then at this place.
        have inside : (n : Int) + 1 ≤ l.last := by
          by_contra out
          rw [Log.get?_eq_none (by omega)] at found
          cases found
        have replayed : Replayed env s (n + 1) e := by
          refine ⟨by omega, by rw [last (by omega)]; exact inside, by rw [reads, found], fun j lo hi => ?_⟩
          obtain ⟨e', present⟩ := Log.exists_get? (l := l) (i := j) (by omega) (by omega)
          simp [reads, present]
        obtain ⟨n', there⟩ := mem_iff_getElem?.mp (mem_of_replayed loadable recent h accepts replayed)
        obtain ⟨index, -⟩ := getElem_replay loadable recent h there
        obtain rfl : n = n' := by omega
        rw [here] at there
        cases there
  · intro late
    cases here : es[0]? with
    | none => exact eq_nil_iff_length_eq_zero.mpr (by simpa using here)
    | some p =>
      obtain ⟨k, e⟩ := p
      obtain ⟨rfl, -, entry⟩ := getElem_replay loadable recent h here
      rw [reads, Log.get?_eq_none (by omega)] at entry
      cases entry

end

end

/-! Snapshots and restarts. -/

section
open Lib Storage Log Relation Node Prod

section
variable {α : Type}

structure Home (α : Type) where
  server : RaftServer (Node α)
  snapshots : List (Int × α)

/-- What a node does with committed entries: the library appends and applies them one after the other, and
    `DoSaveSnapshot` saves the state and lets the library drop entries that were applied, but no closed segment, for which
    `TruncatePrefix` has no defined effect. -/
inductive HomeStep (lib : RaftLib (Node α)) (app : App α) (env : Env) (self : RaftNodePeer) : Home α → Home α → Prop
  | append {h : Home α} {y : RaftServer (Node α)} {e : LogEntry} : e.index = h.server.udata.store.lastLogIndex + 1 →
      NodeStep lib app env self h.server (.log (.appendEntry e)) y → HomeStep lib app env self h { h with server := y }
  | apply {h : Home α} {y : RaftServer (Node α)} {e : LogEntry} {closure : Bool} :
      h.server.lastAppliedIdx + 1 ≤ h.server.udata.store.lastLogIndex →
      h.server.udata.store.getEntry env (h.server.lastAppliedIdx + 1) = some e →
      NodeStep lib app env self h.server (.applyLog e (h.server.lastAppliedIdx + 1) closure) y →
      HomeStep lib app env self h { h with server := y }
  | saveSnapshot {h : Home α} {y : RaftServer (Node α)} {k : Int} : k ≤ h.server.lastAppliedIdx →
      h.server.udata.store.KeepsClosed (k + 1) →
      NodeStep lib app env self h.server (.log (.truncatePrefix (k + 1))) y →
      HomeStep lib app env self h ⟨y, h.snapshots ++ [(h.server.udata.store.lastLogIndex, h.server.udata.app)]⟩
  | persistTerm {h : Home α} {y : RaftServer (Node α)} {term : Nat} {vote : Int} :
      NodeStep lib app env self h.server (.persistTerm term vote) y → HomeStep lib app env self h { h with server := y }
  | persistVote {h : Home α} {y : RaftServer (Node α)} {vote : Int} :
      NodeStep lib app env self h.server (.persistVote vote) y → HomeStep lib app env self h { h with server := y }

def App.next (app : App α) (logType : UInt8 → LogType) (a : α) (e : LogEntry) : α :=
  if logType e.type = .normal then (app.onApplyLog a e).2 else a

def App.after (app : App α) (logType : UInt8 → LogType) (es : List LogEntry) : α := es.foldl (app.next logType) app.initial

def lastTerm (es : List LogEntry) : Int := (es.getLast?.map (·.term.toInt)).getD 0

variable {lib : RaftLib (Node α)} {app : App α} {env : Env} {self : RaftNodePeer} {x y : RaftServer (Node α)}

lemma app_applyEntry (logType : UInt8 → LogType) (closure : Bool) (n : Node α) (e : LogEntry) :
    (n.applyEntry logType app closure e).2.app = app.next logType n.app e := by
  unfold applyEntry App.next
  split <;> simp_all

lemma app_raftApplyLog (logType : UInt8 → LogType) (closure : Bool) (n : Node α) (e : LogEntry) (i : Int) :
    (n.raftApplyLog logType app closure e i).2.app = app.next logType n.app e := by
  unfold raftApplyLog
  simp only
  split <;> exact app_applyEntry logType closure n e

variable {es : List (Int × LogEntry)} {s : Storage} {k rc : Int} {e : LogEntry} {h : Home α}

lemma Applies.app_eq {w : Write} (h : Applies (callbacks lib app env w) x es y) :
    y.udata.app = (es.map snd).foldl (app.next lib.logType) x.udata.app := by
  induction h with
  | done => rfl
  | missing => rfl
  | next _ _ _ ih =>
    rw [ih, List.map_cons, List.foldl_cons]
    congr 1
    exact app_raftApplyLog _ _ _ _ _
  | failed => exact app_raftApplyLog _ _ _ _ _

lemma lastTerm_concat (es : List LogEntry) (e : LogEntry) : lastTerm (es ++ [e]) = e.term.toInt := by
  simp [lastTerm]

lemma Applies.lastAppliedTerm_eq {σ : Type} {cbs : Callbacks σ} {x y : RaftServer σ}
    (h : Applies cbs x es y) : y.lastAppliedTerm = ((es.map snd).getLast?.map (·.term.toInt)).getD x.lastAppliedTerm := by
  induction h with
  | done => rfl
  | missing => rfl
  | @next x y e es _ _ _ ih =>
    rw [ih, List.map_cons, List.getLast?_cons]
    cases (es.map snd).getLast? <;> rfl
  | failed => rfl

/-- The node has the entries `committed` from its first index on, and has applied the first of them in order. -/
structure Follows (lib : RaftLib (Node α)) (app : App α) (env : Env) (x : RaftServer (Node α)) (committed : List LogEntry) :
    Prop where
  ready : Ready x
  up : x.udata.state = .up
  positive : 1 ≤ x.udata.store.firstLogIndex
  refines : Storage.Refines env x.udata.store ((⟨1, committed⟩ : Log LogEntry).truncatePrefix x.udata.store.firstLogIndex)
  applied : ∃ n : Nat, x.lastAppliedIdx = n ∧ n ≤ committed.length ∧ x.udata.store.firstLogIndex ≤ n + 1 ∧
    x.udata.app = app.after lib.logType (committed.take n) ∧ x.lastAppliedTerm = lastTerm (committed.take n)

lemma last_entries (es : List LogEntry) : (⟨1, es⟩ : Log LogEntry).last = es.length := by
  simp only [last]
  omega

variable {committed : List LogEntry}

lemma Follows.last (h : Follows lib app env x committed) : x.udata.store.lastLogIndex = committed.length := by
  obtain ⟨n, -, le, first, -⟩ := h.applied
  rw [h.refines.last, last_truncatePrefix, last_entries]
  omega

lemma Follows.start (started : Started lib app x) (refines : Refines env x.udata.store ⟨1, []⟩) : Follows lib app env x [] := by
  have first : x.udata.store.firstLogIndex = 1 := refines.first
  refine ⟨started.ready, started.state, Int.le_of_eq first.symm, ?_, 0, ?_, Nat.le_refl _, ?_, ?_, ?_⟩
  · rwa [first, truncatePrefix_of_le le_rfl]
  · rw [started.server, lib.new_eq]
    rfl
  · omega
  · rw [started.app]
    rfl
  · rw [started.server, lib.new_eq]
    rfl

lemma Follows.with_store (h : Follows lib app env x committed) {es : List LogEntry}
    (prefixed : committed <+: es) (lower : 1 ≤ k) (upper : k ≤ x.lastAppliedIdx + 1)
    (refines : Refines env s ((⟨1, es⟩ : Log LogEntry).truncatePrefix k)) :
    Follows lib app env { x with udata := { x.udata with store := s } } es := by
  have first : s.firstLogIndex = k := by
    rw [refines.first, first_truncatePrefix]
    exact max_eq_right lower
  obtain ⟨n, index, le, -, state, term⟩ := h.applied
  have taken : es.take n = committed.take n := by
    obtain ⟨rest, rfl⟩ := prefixed
    exact List.take_append_of_le_length le
  refine ⟨⟨h.ready.file, h.ready.record⟩, h.up, first.symm ▸ lower, first.symm ▸ refines, n, index,
    le.trans prefixed.length_le, ?_, ?_, ?_⟩
  · simp only [first]
    omega
  · rw [taken]
    exact state
  · rw [taken]
    exact term

lemma Follows.append (henv : 0 ≤ env.raftMaxSegmentSize) (h : Follows lib app env x committed)
    (next : e.index = x.udata.store.lastLogIndex + 1) (returned : x.udata.store.Returns env (.appendEntry e) rc s) :
    Follows lib app env { x with udata := { x.udata with store := s } } (committed ++ [e]) := by
  have last := h.refines.last
  have bound := first_le_last (l := (⟨1, committed⟩ : Log LogEntry).truncatePrefix x.udata.store.firstLogIndex)
  obtain ⟨n, index, le, low, -⟩ := h.applied
  have step := h.refines.step (c := .appendEntry e) henv trivial returned
  rw [Call.onLog, if_pos (by omega), id, append_truncatePrefix (by rw [last_entries]; omega)] at step
  exact h.with_store (List.prefix_append _ _) h.positive (by omega) step

lemma Follows.compact (henv : 0 ≤ env.raftMaxSegmentSize) (h : Follows lib app env x committed)
    (applied : k ≤ x.lastAppliedIdx) (keeps : x.udata.store.KeepsClosed (k + 1))
    (returned : x.udata.store.Returns env (.truncatePrefix (k + 1)) rc s) :
    Follows lib app env { x with udata := { x.udata with store := s } } committed := by
  have positive := h.positive
  obtain ⟨n, index, le, low, -⟩ := h.applied
  have step := h.refines.step (c := .truncatePrefix (k + 1)) henv keeps returned
  have first : ((⟨1, committed⟩ : Log LogEntry).truncatePrefix x.udata.store.firstLogIndex).first =
      x.udata.store.firstLogIndex := h.refines.first.symm
  rw [Call.onLog] at step
  by_cases below : k + 1 ≤ x.udata.store.firstLogIndex
  · rw [truncatePrefix_of_le (by omega)] at step
    exact h.with_store List.prefix_rfl positive (by omega) step
  · rw [truncatePrefix_truncatePrefix (by omega)] at step
    exact h.with_store List.prefix_rfl (by omega) (by omega) step

lemma Follows.entry (h : Follows lib app env x committed) {n : Nat} (index : x.lastAppliedIdx = n)
    (low : x.udata.store.firstLogIndex ≤ n + 1) (inside : x.lastAppliedIdx + 1 ≤ x.udata.store.lastLogIndex)
    (found : x.udata.store.getEntry env (x.lastAppliedIdx + 1) = some e) : committed[n]? = some e := by
  have first := h.refines.first
  have last := h.refines.last
  rw [h.refines.getEntry_mem (by omega) (by omega), get?_truncatePrefix (by omega), get?, if_pos (by simp only; omega)] at found
  rw [← found]
  congr 1
  simp only
  omega

lemma Follows.apply (h : Follows lib app env x committed) {closure : Bool} {n' : Node α}
    (inside : x.lastAppliedIdx + 1 ≤ x.udata.store.lastLogIndex) (found : x.udata.store.getEntry env (x.lastAppliedIdx + 1) = some e)
    (ready : Ready { x with lastAppliedIdx := x.lastAppliedIdx + 1, lastAppliedTerm := e.term.toInt, udata := n' })
    (applied : x.udata.raftApplyLog lib.logType app closure e (x.lastAppliedIdx + 1) = (rc, n')) :
    Follows lib app env { x with lastAppliedIdx := x.lastAppliedIdx + 1, lastAppliedTerm := e.term.toInt, udata := n' }
      committed := by
  obtain ⟨-, state, store, appEq, -⟩ := raftApplyLog_up h.up applied
  have refines := h.refines.clearCacheEntry (x.lastAppliedIdx + 1)
  obtain ⟨n, index, le, low, before, -⟩ := h.applied
  have here := h.entry index low inside found
  obtain ⟨short, -⟩ := List.getElem?_eq_some_iff.mp here
  have taken : committed.take (n + 1) = committed.take n ++ [e] := by rw [List.take_add_one, here]; rfl
  have first : n'.store.firstLogIndex = x.udata.store.firstLogIndex := by
    rw [store, refines.first, ← h.refines.first]
  refine ⟨ready, state, first ▸ h.positive, ?_, n + 1, ?_, short, ?_, ?_, ?_⟩
  · simp only [first]
    rw [store]
    exact refines
  · simp [index]
  · simp only [first, Nat.cast_add, Nat.cast_one]
    omega
  · rw [taken, App.after, List.foldl_append, ← App.after, ← before]
    exact appEq.trans (app_applyEntry _ _ _ _)
  · rw [taken, lastTerm_concat]

lemma Follows.step (henv : 0 ≤ env.raftMaxSegmentSize) {h' : Home α} (follows : Follows lib app env h.server committed)
    (step : HomeStep lib app env self h h') : ∃ es, Follows lib app env h'.server es := by
  cases step with
  | append next step =>
    cases step with
    | log _ returned => exact ⟨_, follows.append henv next returned⟩
  | apply inside found step =>
    have ready := follows.ready.step step
    cases step with
    | applyLog _ applied => exact ⟨_, follows.apply inside found ready applied⟩
  | saveSnapshot applied keeps step =>
    cases step with
    | log _ returned => exact ⟨_, follows.compact henv applied keeps returned⟩
  | persistTerm step =>
    have ready := follows.ready.step step
    cases step with
    | persistTerm up written =>
      obtain rfl := eq_of_persistTerm up written
      exact ⟨committed, ready, up, follows.positive, follows.refines, follows.applied⟩
  | persistVote step =>
    have ready := follows.ready.step step
    cases step with
    | persistVote up written =>
      obtain rfl := eq_of_persistVote written
      exact ⟨committed, ready, up, follows.positive, follows.refines, follows.applied⟩

lemma Follows.run (henv : 0 ≤ env.raftMaxSegmentSize) {h₀ : Home α} (start : Follows lib app env h₀.server [])
    (run : ReflTransGen (HomeStep lib app env self) h₀ h) : ∃ es, Follows lib app env h.server es := by
  induction run with
  | refl => exact ⟨_, start⟩
  | tail _ step ih =>
    obtain ⟨es, follows⟩ := ih
    exact follows.step henv step

structure Recovers (x z : RaftServer (Node α)) : Prop where
  app : z.udata.app = x.udata.app
  lastAppliedIdx : z.lastAppliedIdx = x.lastAppliedIdx
  lastAppliedTerm : z.lastAppliedTerm = x.lastAppliedTerm

lemma Follows.restart (self : RaftNodePeer) (henv : 0 ≤ env.raftMaxSegmentSize) (accepts : app.Accepts)
    (h : Follows lib app env x committed) {out : Outside} (hout : out.Ok) (hio : out.io.Ok) :
    ∃ m z, x.udata.metaFile = .saved m ∧ init lib app env out self x.udata.store.disk x.udata.metaFile = some (0, z) ∧
      (∃ peers, z.udata.raftMeta = { m with nodePeers := peers }) ∧
      let found := if x.udata.store.firstLogIndex = 1 then committed else []
      z.udata.app = app.after lib.logType found ∧ z.lastAppliedIdx = found.length ∧ z.lastAppliedTerm = lastTerm found := by
  have positive := h.positive
  have first := h.refines.first
  obtain ⟨s, opens, reads, last⟩ := h.refines.opens henv hio (by omega)
  obtain ⟨m, file, loadable⟩ := h.ready.file
  obtain ⟨es, y, z, started, applies, loaded⟩ := init_saved lib app hout self opens loadable.snapshot loadable.id
  have recent : s.latestEntriesCache = [] := by
    have recent := (init_recent env out.io x.udata.store.disk).1
    rwa [opens] at recent
  obtain ⟨whole, nothing⟩ := replay_log accepts loadable recent applies reads last
  have entries : es.map snd = if x.udata.store.firstLogIndex = 1 then committed else [] := by
    split
    · next one =>
      rw [whole (by omega), one, truncatePrefix_of_le le_rfl]
    · rw [nothing (by omega)]
      rfl
  obtain ⟨idx, term, -, udata⟩ := commitAll_loading lib app loadable s
  refine ⟨m, z, file, by rw [file, started], loaded.record, ?_, ?_, ?_⟩
  · rw [loaded.app, applies.app_eq, entries, udata]
    rfl
  · rw [loaded.lastAppliedIdx, applies.lastAppliedIdx_eq, idx, ← entries, List.length_map, Int.zero_add]
  · rw [loaded.lastAppliedTerm, applies.lastAppliedTerm_eq, term, entries]
    rfl

end

lemma sampleApp_accepts : sampleApp.Accepts := fun _ _ => rfl

def sampleApplied : RaftServer (Node Nat) :=
  { sampleAhead 1 with
      lastAppliedIdx := 1
      lastAppliedTerm := 1
      udata := ((sampleAhead 1).udata.raftApplyLog (RaftLib.plain (Node Nat)).logType sampleApp false (Storage.sampleEntry 1 1) 1).2 }

lemma sampleApplied_run :
    ReflTransGen (HomeStep (.plain _) sampleApp sampleEnv (samplePeer 1)) ⟨sampleNode 1, []⟩ ⟨sampleApplied, []⟩ :=
  have step : NodeStep (.plain _) sampleApp sampleEnv (samplePeer 1) (sampleAhead 1)
      (.applyLog (sampleEntry 1 1) 1 false) sampleApplied := .applyLog rfl rfl
  .tail (.single (.append rfl (sampleAhead_step 1 _))) (.apply (by decide) rfl step)

end

end Myctk.Mraft
