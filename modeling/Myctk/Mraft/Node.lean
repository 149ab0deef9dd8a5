import Myctk.Mraft.Storage

/-! The raft library behind `mraft/c_raft.h`, which is not in the repository: any library with the functions below that keeps to what
    `raft.h` says about them. -/

namespace Myctk.Mraft

inductive LogType where
  | normal
  | addNonvotingNode
  | addNode
  | removeNode
  | noOp
  | other
  deriving DecidableEq

/-- `raft_server_t`, by its accessors, with the user data that the callbacks get. -/
structure RaftServer (σ : Type) where
  currentTerm : Int
  votedFor : Int
  commitIdx : Int
  lastAppliedIdx : Int
  lastAppliedTerm : Int
  udata : σ

/-- The callbacks that are used here, of `raft_cbs_t` and `raft_log_impl_t`. -/
structure Callbacks (σ : Type) where
  persistVote : σ → Int → Int × σ
  persistTerm : σ → Int → Int → Int × σ
  applyLog : σ → LogEntry → Int → Int × σ
  get : σ → Int → Option LogEntry

section
variable {σ : Type} {cbs : Callbacks σ} {x y : RaftServer σ} {es : List (Int × LogEntry)}

/-- The entry behind the last applied one has been applied, and the callback has left `u`. -/
def RaftServer.applied (x : RaftServer σ) (e : LogEntry) (u : σ) : RaftServer σ :=
  { x with lastAppliedIdx := x.lastAppliedIdx + 1, lastAppliedTerm := e.term.toInt, udata := u }

/-- `raft_apply_all`: the entries up to the commit index are applied one after the other, until one is missing. -/
inductive Applies (cbs : Callbacks σ) : RaftServer σ → List (Int × LogEntry) → RaftServer σ → Prop
  | done {x : RaftServer σ} : x.commitIdx ≤ x.lastAppliedIdx → Applies cbs x [] x
  | missing {x : RaftServer σ} : x.lastAppliedIdx < x.commitIdx → cbs.get x.udata (x.lastAppliedIdx + 1) = none →
      Applies cbs x [] x
  | next {x y : RaftServer σ} {e : LogEntry} {es : List (Int × LogEntry)} : x.lastAppliedIdx < x.commitIdx →
      cbs.get x.udata (x.lastAppliedIdx + 1) = some e →
      Applies cbs (x.applied e (cbs.applyLog x.udata e (x.lastAppliedIdx + 1)).2) es y →
      Applies cbs x ((x.lastAppliedIdx + 1, e) :: es) y
  | failed {x : RaftServer σ} {e : LogEntry} : x.lastAppliedIdx < x.commitIdx →
      cbs.get x.udata (x.lastAppliedIdx + 1) = some e →
      (cbs.applyLog x.udata e (x.lastAppliedIdx + 1)).1 ≠ 0 →
      Applies cbs x [(x.lastAppliedIdx + 1, e)] (x.applied e (cbs.applyLog x.udata e (x.lastAppliedIdx + 1)).2)

structure RaftLib (σ : Type) where
  logType : UInt8 → LogType
  new : σ → RaftServer σ
  setCommitIdx : RaftServer σ → Int → RaftServer σ
  setSnapshotMetadata : RaftServer σ → Int → Int → RaftServer σ
  applyAll : Callbacks σ → RaftServer σ → Int × RaftServer σ
  setCurrentTerm : Callbacks σ → RaftServer σ → Int → Int × RaftServer σ
  voteForNodeid : Callbacks σ → RaftServer σ → Int → Int × RaftServer σ
  new_eq : ∀ u, new u = ⟨0, -1, 0, 0, 0, u⟩
  setCommitIdx_eq : ∀ x i, setCommitIdx x i = { x with commitIdx := i }
  setSnapshotMetadata_eq : ∀ x t i, setSnapshotMetadata x t i = { x with lastAppliedIdx := i, lastAppliedTerm := t }
  applyAll_applies : ∀ cbs x, ∃ es, Applies cbs x es (applyAll cbs x).2
  setCurrentTerm_le : ∀ cbs x t, t ≤ x.currentTerm → setCurrentTerm cbs x t = (0, x)
  setCurrentTerm_lt : ∀ cbs x t u, x.currentTerm < t → cbs.persistTerm x.udata t (-1) = (0, u) →
    setCurrentTerm cbs x t = (0, { x with currentTerm := t, votedFor := -1, udata := u })
  voteForNodeid_eq : ∀ cbs x v u, cbs.persistVote x.udata v = (0, u) →
    voteForNodeid cbs x v = (0, { x with votedFor := v, udata := u })

lemma Applies.keeps {P : σ → Prop} (keep : ∀ u e i, P u → P (cbs.applyLog u e i).2) (h : Applies cbs x es y)
    (start : P x.udata) : P y.udata := by
  induction h with
  | done => exact start
  | missing => exact start
  | next _ _ _ ih => exact ih (keep _ _ _ start)
  | failed => exact keep _ _ _ start

lemma Applies.same (h : Applies cbs x es y) :
    y.currentTerm = x.currentTerm ∧ y.votedFor = x.votedFor ∧ y.commitIdx = x.commitIdx := by
  induction h with
  | done => exact ⟨rfl, rfl, rfl⟩
  | missing => exact ⟨rfl, rfl, rfl⟩
  | next _ _ _ ih => exact ih
  | failed => exact ⟨rfl, rfl, rfl⟩

/-! ### Which entries are applied

Where the log that the callbacks read does not change while entries are applied, they are the entries of
that log, one after the other. -/

section
variable {P : σ → Prop} {g : Int → Option LogEntry}

lemma Applies.lastAppliedIdx_eq (h : Applies cbs x es y) : y.lastAppliedIdx = x.lastAppliedIdx + es.length := by
  induction h with
  | done => simp
  | missing => simp
  | next _ _ _ ih =>
    rw [ih]
    simp only [RaftServer.applied, List.length_cons]
    omega
  | failed => simp [RaftServer.applied]

lemma Applies.getElem (keep : ∀ u e i, P u → P (cbs.applyLog u e i).2) (read : ∀ u i, P u → cbs.get u i = g i)
    (h : Applies cbs x es y) (start : P x.udata) {n : Nat} {k : Int} {e : LogEntry} (member : es[n]? = some (k, e)) :
    k = x.lastAppliedIdx + n + 1 ∧ k ≤ x.commitIdx ∧ g k = some e := by
  induction h generalizing n with
  | done => cases member
  | missing => cases member
  | next more found _ ih =>
    cases n with
    | zero =>
      obtain ⟨rfl, rfl⟩ := Prod.mk.inj (Option.some.inj member)
      exact ⟨by omega, by omega, by rw [← read _ _ start, found]⟩
    | succ n =>
      obtain ⟨index, bound, entry⟩ := ih (keep _ _ _ start) member
      exact ⟨by simp only [RaftServer.applied] at index; omega, bound, entry⟩
  | failed more found _ =>
    cases n with
    | zero =>
      obtain ⟨rfl, rfl⟩ := Prod.mk.inj (Option.some.inj member)
      exact ⟨by omega, by omega, by rw [← read _ _ start, found]⟩
    | succ n => cases member

lemma Applies.stopped (keep : ∀ u e i, P u → P (cbs.applyLog u e i).2) (read : ∀ u i, P u → cbs.get u i = g i)
    (accepts : ∀ u e i, P u → (cbs.applyLog u e i).1 = 0) (h : Applies cbs x es y) (start : P x.udata) :
    y.commitIdx ≤ y.lastAppliedIdx ∨ g (y.lastAppliedIdx + 1) = none := by
  induction h with
  | done reached => exact .inl reached
  | missing _ absent => exact .inr (by rw [← read _ _ start, absent])
  | next _ _ _ ih => exact ih (keep _ _ _ start)
  | failed _ _ error => exact absurd (accepts _ _ _ start) error

end

end

def RaftServer.applyUpTo {σ : Type} (cbs : Callbacks σ) : Nat → RaftServer σ → RaftServer σ
  | 0, x => x
  | n + 1, x =>
    match cbs.get x.udata (x.lastAppliedIdx + 1) with
    | none => x
    | some e => applyUpTo cbs n (x.applied e (cbs.applyLog x.udata e (x.lastAppliedIdx + 1)).2)

lemma RaftServer.applyUpTo_applies {σ : Type} (cbs : Callbacks σ) (n : Nat) (x : RaftServer σ)
    (distance : n = (x.commitIdx - x.lastAppliedIdx).toNat) : ∃ es, Applies cbs x es (x.applyUpTo cbs n) := by
  induction n generalizing x with
  | zero => exact ⟨[], .done (by omega)⟩
  | succ n ih =>
    rw [applyUpTo]
    split
    · next missing => exact ⟨[], .missing (by omega) missing⟩
    · next e found =>
      obtain ⟨es, h⟩ := ih (x.applied e (cbs.applyLog x.udata e (x.lastAppliedIdx + 1)).2) (by
        simp only [applied]
        omega)
      exact ⟨_, .next (by omega) found h⟩

def RaftLib.plain (σ : Type) : RaftLib σ where
  logType b :=
    match b.toNat with
    | 0 => .normal
    | 1 => .addNonvotingNode
    | 2 => .addNode
    | 3 => .removeNode
    | 4 => .noOp
    | _ => .other
  new u := ⟨0, -1, 0, 0, 0, u⟩
  setCommitIdx x i := { x with commitIdx := i }
  setSnapshotMetadata x t i := { x with lastAppliedIdx := i, lastAppliedTerm := t }
  applyAll cbs x := (0, x.applyUpTo cbs (x.commitIdx - x.lastAppliedIdx).toNat)
  setCurrentTerm cbs x t :=
    if x.currentTerm < t then
      match cbs.persistTerm x.udata t (-1) with
      | (rc, u) => if rc ≠ 0 then (rc, { x with udata := u }) else (0, { x with currentTerm := t, votedFor := -1, udata := u })
    else (0, x)
  voteForNodeid cbs x v :=
    match cbs.persistVote x.udata v with
    | (rc, u) => if rc ≠ 0 then (rc, { x with udata := u }) else (0, { x with votedFor := v, udata := u })
  new_eq _ := rfl
  setCommitIdx_eq _ _ := rfl
  setSnapshotMetadata_eq _ _ _ := rfl
  applyAll_applies cbs x := x.applyUpTo_applies cbs _ rfl
  setCurrentTerm_le cbs x t le := by simp [show ¬ x.currentTerm < t by omega]
  setCurrentTerm_lt cbs x t u lt eq := by simp [lt, eq]
  voteForNodeid_eq cbs x v u eq := by simp [eq]

/-! `Raft` (`mraft/mraft.cpp`), the node around the raft library: its meta record, the callbacks that change
    it, and `Init` of a node that joins a cluster or comes back. -/

open Lib

inductive RaftState where
  | uninitialized
  | up
  | loading
  | joining
  | shutdown
  deriving DecidableEq

structure RaftNodePeer where
  host : Bytes
  port : Nat
  id : Int
  deriving DecidableEq

/-- `operator==` leaves the id out. -/
def RaftNodePeer.same (x y : RaftNodePeer) : Bool := x.host = y.host && x.port = y.port

structure RaftMeta where
  nodePeers : List (Int × RaftNodePeer)
  selfPeer : RaftNodePeer
  lastAppliedIdx : Int
  lastAppliedTerm : Int
  snapshotLastIdx : Int
  snapshotLastTerm : Int
  votedFor : Int

def RaftMeta.cleared : RaftMeta := ⟨[], ⟨[], 0, 0⟩, 0, 0, 0, 0, 0⟩

def RaftMeta.insertPeer (m : RaftMeta) (id : Int) (peer : RaftNodePeer) : RaftMeta :=
  if (m.nodePeers.lookup id).isSome then m else { m with nodePeers := m.nodePeers ++ [(id, peer)] }

def RaftMeta.erasePeer (m : RaftMeta) (id : Int) : RaftMeta :=
  { m with nodePeers := m.nodePeers.filter fun p => p.1 ≠ id }

/-- The file that `SaveMeta` writes: not there, not readable, or a record. -/
inductive MetaFile where
  | missing
  | broken
  | saved (m : RaftMeta)

inductive Write where
  | done
  | notOpened
  | cut

structure App (α : Type) where
  initial : α
  onApplyLog : α → LogEntry → Int × α

structure Node (α : Type) where
  state : RaftState
  raftMeta : RaftMeta
  metaFile : MetaFile
  store : Storage
  app : α

structure Outside where
  io : Io
  loadMetaOk : Bool
  saveMeta : Write
  addNodeOk : Bool
  joined : Option RaftNodePeer

structure RaftCfgChange where
  nodeId : Int
  port : Nat
  host : Bytes

def RaftCfgChange.decode (data : Bytes) : RaftCfgChange where
  nodeId := (UInt32.ofNat (beNat (data.take 4).reverse)).toInt32.toInt
  port := beNat ((data.drop 4).take 2).reverse
  host := (data.drop 6).takeWhile fun b => b ≠ 0

def raftErrInvalidNodeid : Int := -8
def raftErrInvalidState : Int := -109

section
variable {α : Type}

namespace Node

def saveMeta (w : Write) (n : Node α) : Int × Node α :=
  match w with
  | .done => (0, { n with metaFile := .saved n.raftMeta })
  | .notOpened => (-1, n)
  | .cut => (-1, { n with metaFile := .broken })

def loadMeta (ok : Bool) (n : Node α) : Int × Bool × Node α :=
  match n.metaFile with
  | .missing => (0, true, n)
  | .broken => (-1, false, n)
  | .saved m => if ok then (0, false, { n with raftMeta := m }) else (-1, false, n)

def persistVote (w : Write) (n : Node α) (nodeId : Int) : Int × Node α :=
  { n with raftMeta := { n.raftMeta with votedFor := nodeId } }.saveMeta w

def persistTerm (w : Write) (n : Node α) (term nodeId : Int) : Int × Node α :=
  if n.state = .loading then (0, n)
  else { n with raftMeta := { n.raftMeta with votedFor := nodeId, lastAppliedTerm := term } }.saveMeta w

def applyEntry (logType : UInt8 → LogType) (app : App α) (closure : Bool) (n : Node α) (entry : LogEntry) : Int × Node α :=
  match logType entry.type with
  | .removeNode => (0, { n with raftMeta := n.raftMeta.erasePeer (RaftCfgChange.decode entry.data).nodeId })
  | .addNonvotingNode | .addNode =>
    let req := RaftCfgChange.decode entry.data
    (0, { n with raftMeta := n.raftMeta.insertPeer req.nodeId ⟨req.host, req.port, req.nodeId⟩ })
  | .normal =>
    let (rc, a) := app.onApplyLog n.app entry
    (if closure then 0 else rc, { n with app := a })
  | .noOp | .other => (0, n)

def raftApplyLog (logType : UInt8 → LogType) (app : App α) (closure : Bool) (n : Node α) (entry : LogEntry)
    (entryIdx : Int) : Int × Node α :=
  let (rc, n) := n.applyEntry logType app closure entry
  let n := { n with store := (n.store.clearCacheEntry entryIdx).2 }
  if n.state = .up then
    (rc, { n with raftMeta := { n.raftMeta with lastAppliedIdx := entryIdx, lastAppliedTerm := entry.term.toInt } })
  else (rc, n)

end Node

variable (lib : RaftLib (Node α)) (app : App α) (env : Env)

/-- The callbacks as `Init` sets them. -/
def Node.callbacks (w : Write) : Callbacks (Node α) where
  persistVote n v := n.persistVote w v
  persistTerm n t v := n.persistTerm w t v
  applyLog n e i := n.raftApplyLog lib.logType app false e i
  get n i := n.store.getEntry env i

def Node.addNode (ok : Bool) (n : Node α) (peer : RaftNodePeer) : Int × Node α :=
  let isSelf := peer.same n.raftMeta.selfPeer
  if peer.id ≤ 0 then (raftErrInvalidNodeid, n)
  else if !ok then (raftErrInvalidState, n)
  else
    let m := n.raftMeta.insertPeer peer.id peer
    (0, { n with raftMeta := if isSelf then { m with selfPeer := peer } else m })

def Node.loadLastSnapshot (n : Node α) : Option Int := if n.raftMeta.snapshotLastIdx ≤ 0 then some 0 else none

/-- `LoadCommitLog` up to `raft_apply_all`: everything in the log counts as committed. -/
def commitAll (x : RaftServer (Node α)) : RaftServer (Node α) :=
  let n := x.udata
  let x := if n.store.lastLogIndex > 0 then lib.setCommitIdx x n.store.lastLogIndex else x
  lib.setSnapshotMetadata x n.raftMeta.snapshotLastTerm n.raftMeta.snapshotLastIdx

def loadCommitLog (w : Write) (x : RaftServer (Node α)) : RaftServer (Node α) :=
  let cbs := Node.callbacks lib app env w
  let x := (lib.applyAll cbs (commitAll lib x)).2
  let x := (lib.setCurrentTerm cbs x x.udata.raftMeta.lastAppliedTerm).2
  if x.udata.raftMeta.votedFor > 0 then (lib.voteForNodeid cbs x x.udata.raftMeta.votedFor).2 else x

def Node.tryJoinExistingCluster (out : Outside) (self : RaftNodePeer) (n : Node α) : Int × Node α :=
  match out.joined with
  | none => (-1, n)
  | some peer =>
    if peer.same self then
      (0, ({ n with raftMeta := { n.raftMeta with selfPeer := peer } }.addNode out.addNodeOk peer).2)
    else (-1, n)

def Node.initEmpty (out : Outside) (self : RaftNodePeer) (n : Node α) : Int × Node α :=
  let (rc, n) := { n with state := .up }.tryJoinExistingCluster out self
  if rc ≠ 0 then (-1, n) else n.saveMeta out.saveMeta

def initLoading (out : Outside) (x : RaftServer (Node α)) : Option (Int × RaftServer (Node α)) :=
  let n := { x.udata with state := .loading }
  match n.loadLastSnapshot with
  | none => none
  | some rc =>
    if rc ≠ 0 then some (rc, { x with udata := n })
    else
      let (rc, n) := n.addNode out.addNodeOk n.raftMeta.selfPeer
      if rc ≠ 0 then some (rc, { x with udata := n })
      else
        let x := loadCommitLog lib app env out.saveMeta { x with udata := n }
        some (0, { x with udata := { x.udata with state := .up } })

def init (out : Outside) (self : RaftNodePeer) (log : Disk) (metaFile : MetaFile) : Option (Int × RaftServer (Node α)) :=
  let (rc, store) := (Storage.new log).init env out.io
  let n : Node α := ⟨.uninitialized, .cleared, metaFile, store, app.initial⟩
  if rc ≠ 0 then some (-1, lib.new n)
  else
    match n.loadMeta out.loadMetaOk with
    | (rc, isEmpty, n) =>
      if rc ≠ 0 then some (-1, lib.new n)
      else if isEmpty then
        let (rc, n) := n.initEmpty out self
        some (rc, lib.new n)
      else initLoading lib app env out (lib.new n)

end

/-! What `Init` leaves of a node that comes back: its term and vote, and the entries it has applied. -/

open Storage RaftMeta Node

def voteOf (votedFor : Int) : Int := if votedFor > 0 then votedFor else -1

/-- Nothing that `Init` asks for outside of the log store fails. -/
structure Outside.Ok (out : Outside) : Prop where
  loadMetaOk : out.loadMetaOk = true
  saveMeta : out.saveMeta = .done
  addNodeOk : out.addNodeOk = true

section
variable {α : Type} {lib : RaftLib (Node α)} {app : App α} {env : Env}

namespace Node

structure Kept (n n' : Node α) : Prop where
  state : n'.state = n.state
  metaFile : n'.metaFile = n.metaFile
  record : ∃ peers, n'.raftMeta = { n.raftMeta with nodePeers := peers }
  store : ∃ cache, n'.store = { n.store with latestEntriesCache := cache }

lemma Kept.refl (n : Node α) : Kept n n := ⟨rfl, rfl, ⟨_, rfl⟩, ⟨_, rfl⟩⟩

lemma Kept.trans {n1 n2 n3 : Node α} (h : Kept n1 n2) (h' : Kept n2 n3) : Kept n1 n3 := by
  obtain ⟨peers, hp⟩ := h.record
  obtain ⟨peers', hp'⟩ := h'.record
  obtain ⟨cache, hc⟩ := h.store
  obtain ⟨cache', hc'⟩ := h'.store
  exact ⟨h'.state.trans h.state, h'.metaFile.trans h.metaFile, ⟨peers', by rw [hp', hp]⟩, ⟨cache', by rw [hc', hc]⟩⟩

lemma insertPeer_record (m : RaftMeta) (id : Int) (peer : RaftNodePeer) :
    ∃ peers, m.insertPeer id peer = { m with nodePeers := peers } := by
  unfold insertPeer
  split
  · exact ⟨_, rfl⟩
  · exact ⟨_, rfl⟩

variable (logType : UInt8 → LogType)

lemma kept_applyEntry (app : App α) (closure : Bool) (n : Node α) (e : LogEntry) : Kept n (n.applyEntry logType app closure e).2 := by
  unfold applyEntry
  split
  · exact ⟨rfl, rfl, ⟨_, rfl⟩, ⟨_, rfl⟩⟩
  · exact ⟨rfl, rfl, insertPeer_record _ _ _, ⟨_, rfl⟩⟩
  · exact ⟨rfl, rfl, insertPeer_record _ _ _, ⟨_, rfl⟩⟩
  · exact ⟨rfl, rfl, ⟨_, rfl⟩, ⟨_, rfl⟩⟩
  · exact .refl n
  · exact .refl n

lemma store_applyEntry (app : App α) (closure : Bool) (n : Node α) (e : LogEntry) :
    (n.applyEntry logType app closure e).2.store = n.store := by
  unfold applyEntry
  split <;> rfl

lemma clearCacheEntry_store (s : Storage) (i : Int) : ∃ cache, (s.clearCacheEntry i).2 = { s with latestEntriesCache := cache } := by
  unfold clearCacheEntry
  split
  · exact ⟨_, rfl⟩
  · split
    · exact ⟨_, rfl⟩
    · exact ⟨_, rfl⟩

lemma kept_clearCache (n : Node α) (i : Int) : Kept n { n with store := (n.store.clearCacheEntry i).2 } :=
  ⟨rfl, rfl, ⟨_, rfl⟩, clearCacheEntry_store _ _⟩

lemma kept_raftApplyLog (closure : Bool) {n : Node α} (loading : n.state = .loading)
    (e : LogEntry) (i : Int) : Kept n (n.raftApplyLog logType app closure e i).2 := by
  have entry := kept_applyEntry logType app closure n e
  have both := entry.trans (kept_clearCache _ i)
  have state : (n.applyEntry logType app closure e).2.state ≠ .up := by simp [entry.state, loading]
  simp only [raftApplyLog, if_neg state]
  exact both

end Node

def Node.loading (app : App α) (m : RaftMeta) (s : Storage) : Node α :=
  ⟨.loading, m.insertPeer m.selfPeer.id m.selfPeer, .saved m, s, app.initial⟩

/-- The server of a node that has come back with the record `m`, where applying the log has led to `y`. -/
structure Loaded (m : RaftMeta) (y z : RaftServer (Node α)) : Prop where
  currentTerm : z.currentTerm = max 0 m.lastAppliedTerm
  votedFor : z.votedFor = voteOf m.votedFor
  lastAppliedIdx : z.lastAppliedIdx = y.lastAppliedIdx
  lastAppliedTerm : z.lastAppliedTerm = y.lastAppliedTerm
  app : z.udata.app = y.udata.app
  store : z.udata.store = y.udata.store
  state : z.udata.state = .up
  record : ∃ peers, z.udata.raftMeta = { m with nodePeers := peers }
  file : ∃ peers, z.udata.metaFile = .saved { m with nodePeers := peers }

variable {out : Outside} {m : RaftMeta} {s : Storage} {x : RaftServer (Node α)} {log : Disk}

lemma kept_loading {y : RaftServer (Node α)} {es : List (Int × LogEntry)} {w : Write}
    (h : Applies (callbacks lib app env w) x es y) (loading : x.udata.state = .loading) : x.udata.Kept y.udata := by
  refine h.keeps (P := fun n => x.udata.Kept n) (fun n e i kept => ?_) (.refl _)
  exact kept.trans (kept_raftApplyLog lib.logType false (kept.state.trans loading) e i)

lemma setCurrentTerm_loading (w : Write) (loading : x.udata.state = .loading)
    (zero : x.currentTerm = 0) (none : x.votedFor = -1) (t : Int) :
    (lib.setCurrentTerm (callbacks lib app env w) x t).2 = { x with currentTerm := max 0 t } := by
  by_cases lt : x.currentTerm < t
  · rw [lib.setCurrentTerm_lt _ x t x.udata lt (by simp [callbacks, persistTerm, loading])]
    rw [max_eq_right (by omega), ← none]
  · rw [lib.setCurrentTerm_le _ x t (by omega), max_eq_left (by omega), ← zero]

lemma loadCommitLog_spec (lib : RaftLib (Node α)) (app : App α) (env : Env) (hout : out.Ok) (m : RaftMeta) (s : Storage) :
    ∃ es y, Applies (callbacks lib app env out.saveMeta) (commitAll lib (lib.new (.loading app m s))) es y ∧
      let z := loadCommitLog lib app env out.saveMeta (lib.new (.loading app m s))
      Loaded m y { z with udata := { z.udata with state := .up } } := by
  have start : commitAll lib (lib.new (.loading app m s)) =
      ⟨0, -1, if s.lastLogIndex > 0 then s.lastLogIndex else 0, m.snapshotLastIdx, m.snapshotLastTerm, .loading app m s⟩ := by
    obtain ⟨peers, hp⟩ := insertPeer_record m m.selfPeer.id m.selfPeer
    simp only [commitAll, lib.new_eq, lib.setCommitIdx_eq, lib.setSnapshotMetadata_eq, loading, hp]
    split <;> rfl
  obtain ⟨es, h⟩ := lib.applyAll_applies (callbacks lib app env out.saveMeta) (commitAll lib (lib.new (.loading app m s)))
  refine ⟨es, _, h, ?_⟩
  generalize hy : (lib.applyAll (callbacks lib app env out.saveMeta) (commitAll lib (lib.new (.loading app m s)))).2 = y at h
  have kept := kept_loading h (by rw [start]; rfl)
  obtain ⟨term, vote, -⟩ := h.same
  rw [start] at kept term vote
  obtain ⟨peers, record⟩ := kept.record
  obtain ⟨before, hbefore⟩ := insertPeer_record m m.selfPeer.id m.selfPeer
  have record : y.udata.raftMeta = { m with nodePeers := peers } := by
    rw [record]
    simp [loading, hbefore]
  simp only [loadCommitLog, hy, setCurrentTerm_loading out.saveMeta kept.state term vote, record]
  by_cases voted : m.votedFor > 0
  · have saved : (callbacks lib app env out.saveMeta).persistVote y.udata m.votedFor =
        (0, { y.udata with metaFile := .saved { m with nodePeers := peers } }) := by
      simp only [Node.callbacks, Node.persistVote, Node.saveMeta, hout.saveMeta, record]
    rw [if_pos voted, lib.voteForNodeid_eq _ { y with currentTerm := max 0 m.lastAppliedTerm } _ _ saved]
    exact ⟨rfl, by simp [voteOf, voted], rfl, rfl, rfl, rfl, rfl, ⟨peers, record⟩, ⟨peers, rfl⟩⟩
  · rw [if_neg voted]
    refine ⟨rfl, by simp [voteOf, voted, vote], rfl, rfl, rfl, rfl, rfl, ⟨peers, record⟩, ⟨m.nodePeers, ?_⟩⟩
    exact kept.metaFile

lemma init_saved (lib : RaftLib (Node α)) (app : App α) (hout : out.Ok) (self : RaftNodePeer) (opens : (new log).init env out.io = (0, s))
    (snapshot : m.snapshotLastIdx = 0) (id : 0 < m.selfPeer.id) : ∃ es y z, init lib app env out self log (.saved m) = some (0, z) ∧
      Applies (Node.callbacks lib app env out.saveMeta) (commitAll lib (lib.new (.loading app m s))) es y ∧ Loaded m y z := by
  obtain ⟨es, y, h, loaded⟩ := loadCommitLog_spec lib app env hout m s
  refine ⟨es, y, _, ?_, h, loaded⟩
  have added : ({ (⟨.uninitialized, m, .saved m, s, app.initial⟩ : Node α) with state := .loading }).addNode true m.selfPeer =
      (0, .loading app m s) := by
    obtain ⟨peers, hp⟩ := insertPeer_record m m.selfPeer.id m.selfPeer
    simp [addNode, show ¬ m.selfPeer.id ≤ 0 by omega, loading, RaftNodePeer.same, hp]
  have new : ∀ n n' : Node α, ({ lib.new n with udata := n' } : RaftServer (Node α)) = lib.new n' := by
    intro n n'
    rw [lib.new_eq, lib.new_eq]
  simp only [init, opens, ne_eq, not_true_eq_false, if_false, Node.loadMeta, hout.loadMetaOk, if_true, initLoading,
    show (lib.new (⟨.uninitialized, m, .saved m, s, app.initial⟩ : Node α)).udata =
      ⟨.uninitialized, m, .saved m, s, app.initial⟩ by rw [lib.new_eq],
    Node.loadLastSnapshot, snapshot, Int.le_refl, hout.addNodeOk, added, new]
  simp

lemma init_closed (self : RaftNodePeer) {file : MetaFile} {rc : Int} (rc_ne : rc ≠ 0) (closed : (new log).init env out.io = (rc, s)) :
    init lib app env out self log file = some (-1, lib.new ⟨.uninitialized, .cleared, file, s, app.initial⟩) := by
  simp [init, closed, rc_ne]

structure Started (lib : RaftLib (Node α)) (app : App α) (x : RaftServer (Node α)) : Prop where
  state : x.udata.state = .up
  file : x.udata.metaFile = .saved x.udata.raftMeta
  id : 0 < x.udata.raftMeta.selfPeer.id
  record : ∃ peers self, x.udata.raftMeta = { RaftMeta.cleared with nodePeers := peers, selfPeer := self }
  server : x = lib.new x.udata
  app : x.udata.app = app.initial

end

end Myctk.Mraft
