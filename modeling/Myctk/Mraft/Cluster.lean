import Myctk.Mraft.NodeRun

/-! The term and the vote of a node over its crashes. -/

namespace Myctk.Mraft

section
open Storage List Prod MetaFile

section
variable {α : Type}

def persisted : Nat × Int → NodeCall → Nat × Int
  | _, .persistTerm term vote => (term, vote)
  | p, .persistVote vote => (p.1, vote)
  | p, _ => p

def lastPersisted (steps : List (RaftServer (Node α) × NodeCall)) : Nat × Int :=
  (steps.map snd).foldl persisted (0, 0)

@[simp] lemma lastPersisted_concat (steps : List (RaftServer (Node α) × NodeCall)) (x : RaftServer (Node α)) (c : NodeCall) :
    lastPersisted (steps ++ [(x, c)]) = persisted (lastPersisted steps) c := by
  simp [lastPersisted]

def votes (steps : List (RaftServer (Node α) × NodeCall)) : List (Int × Int) :=
  steps.filterMap fun p =>
    match p.2 with
    | .persistVote vote => some (p.1.currentTerm, vote)
    | _ => none

def NodeCall.InTerm (x : RaftServer (Node α)) : NodeCall → Prop
  | .persistVote _ => x.udata.raftMeta.lastAppliedTerm = x.currentTerm
  | _ => True

def NodeCall.ByRules (x : RaftServer (Node α)) : NodeCall → Prop
  | .persistTerm term vote => x.currentTerm < term ∧ vote = -1
  | .persistVote vote => 0 < vote ∧ (x.votedFor = -1 ∨ x.votedFor = vote)
  | _ => True

structure Tracks (x : RaftServer (Node α)) (p : Nat × Int) : Prop where
  ready : Ready x
  file : ∀ m, x.udata.metaFile = .saved m → m.lastAppliedTerm = p.1 ∧ m.votedFor = p.2
  server : x.udata.state = .up → x.currentTerm = p.1 ∧ voteOf x.votedFor = voteOf p.2

variable {lib : RaftLib (Node α)} {app : App α} {env : Env} {self : RaftNodePeer} {x y x₀ : RaftServer (Node α)} {p : Nat × Int}
  {steps : List (RaftServer (Node α) × NodeCall)}

lemma Started.tracks (h : Started lib app x) : Tracks x (0, 0) := by
  obtain ⟨peers, peer, record⟩ := h.record
  refine ⟨h.ready, fun m file => ?_, fun _ => ?_⟩
  · obtain rfl := saved.inj (h.file.symm.trans file)
    rw [record]
    exact ⟨rfl, rfl⟩
  · rw [h.server, lib.new_eq]
    exact ⟨rfl, rfl⟩

lemma voteOf_voteOf (v : Int) : voteOf (voteOf v) = voteOf v := by
  by_cases positive : v > 0
  · simp [voteOf, positive]
  · simp [voteOf, positive]

lemma Loaded.tracks {m : RaftMeta} {z : RaftServer (Node α)} (h : Loaded m z y) (loadable : m.Loadable)
    (term : m.lastAppliedTerm = p.1) (vote : m.votedFor = p.2) : Tracks y p ∧ y.currentTerm = p.1 ∧ y.votedFor = voteOf p.2 := by
  have currentTerm : y.currentTerm = p.1 := by
    rw [h.currentTerm, term]
    exact max_eq_right (Int.natCast_nonneg _)
  have votedFor : y.votedFor = voteOf p.2 := by rw [h.votedFor, vote]
  obtain ⟨peers, saved⟩ := h.file
  refine ⟨⟨h.ready loadable, fun m' file => ?_, fun _ => ⟨currentTerm, ?_⟩⟩, currentTerm, votedFor⟩
  · obtain rfl := MetaFile.saved.inj (saved.symm.trans file)
    exact ⟨term, vote⟩
  · rw [votedFor, voteOf_voteOf]

lemma Tracks.step (h : Tracks x p) {c : NodeCall} (inTerm : c.InTerm x) (step : NodeStep lib app env self x c y) :
    Tracks y (persisted p c) := by
  have ready := h.ready.step step
  cases step with
  | @persistTerm n term vote up written =>
    obtain rfl := Node.eq_of_persistTerm up written
    refine ⟨ready, fun m file => ?_, fun _ => ⟨rfl, rfl⟩⟩
    obtain rfl := saved.inj file
    exact ⟨rfl, rfl⟩
  | @persistVote n vote up written =>
    obtain rfl := Node.eq_of_persistVote written
    have term := (h.server up).1
    refine ⟨ready, fun m file => ?_, fun _ => ⟨term, rfl⟩⟩
    obtain rfl := saved.inj file
    exact ⟨inTerm.trans term, rfl⟩
  | applyLog up applied =>
    obtain ⟨kept, -⟩ := raftApplyLog_up up applied
    exact ⟨ready, fun m file => h.file m (kept.symm.trans file), fun _ => h.server up⟩
  | log up returned => exact ⟨ready, h.file, h.server⟩
  | restart hout started =>
    rcases h.ready.restart hout started with ⟨code, s, -, -, rfl⟩ | ⟨s, m, es, z, -, file, loadable, -, loaded⟩
    · rw [lib.new_eq] at ready ⊢
      exact ⟨ready, h.file, by simp⟩
    · obtain ⟨term, vote⟩ := h.file m file
      exact (loaded.tracks loadable term vote).1

lemma Tracks.run (started : Started lib app x₀) (run : NodeRun lib app env self x₀ steps x)
    (inTerm : ∀ q ∈ steps, q.2.InTerm q.1) : Tracks x (lastPersisted steps) := by
  induction run with
  | nil => exact started.tracks
  | snoc run step ih =>
    rw [lastPersisted_concat]
    refine (ih fun q hq => inTerm q (mem_append_left _ hq)).step ?_ step
    exact inTerm _ (mem_append_right _ (mem_singleton_self _))

def Counted (p : Nat × Int) (given : List (Int × Int)) : Prop :=
  ∀ t v, (t, v) ∈ given → t ≤ p.1 ∧ (t = p.1 → v = p.2 ∧ 0 < v)

lemma Counted.persisted {given : List (Int × Int)} {c : NodeCall} (h : Counted p given) (tracks : Tracks x p)
    (rules : c.ByRules x) (other : ∀ v, c ≠ .persistVote v) (step : NodeStep lib app env self x c y) :
    Counted (persisted p c) given := by
  cases step with
  | persistTerm up written =>
    -- The new term is larger than that of every vote.
    intro t v member
    have old := (h t v member).1
    have newer : x.currentTerm < _ := rules.1
    rw [(tracks.server up).1] at newer
    simp only [Mraft.persisted]
    omega
  | persistVote => exact absurd rfl (other _)
  | applyLog => exact h
  | log => exact h
  | restart => exact h

lemma Counted.vote {given : List (Int × Int)} {v : Int} (h : Counted p given) (tracks : Tracks x p) (up : x.udata.state = .up)
    (rules : (NodeCall.persistVote v).ByRules x) :
    (∀ w, (x.currentTerm, w) ∈ given → w = v) ∧ Counted (p.1, v) (given ++ [(x.currentTerm, v)]) := by
  obtain ⟨positive, free⟩ := rules
  obtain ⟨term, vote⟩ := tracks.server up
  have same : ∀ w, (x.currentTerm, w) ∈ given → w = v := by
    intro w member
    obtain ⟨rfl, candidate⟩ := (h _ w member).2 term
    rcases free with none | mine
    · simp [none, voteOf] at vote
      omega
    · simp only [mine, voteOf, positive, candidate, if_true] at vote
      exact vote.symm
  refine ⟨same, fun t w member => ?_⟩
  rcases mem_append.mp member with old | new
  · refine ⟨(h t w old).1, fun now => ⟨?_, ((h t w old).2 now).2⟩⟩
    exact same w (by rwa [term, ← now])
  · obtain ⟨rfl, rfl⟩ := mk.inj (mem_singleton.mp new)
    exact ⟨Int.le_of_eq term, fun _ => ⟨rfl, positive⟩⟩

lemma votes_of_run (started : Started lib app x₀) (run : NodeRun lib app env self x₀ steps x)
    (inTerm : ∀ q ∈ steps, q.2.InTerm q.1) (rules : ∀ q ∈ steps, q.2.ByRules q.1) :
    Counted (lastPersisted steps) (votes steps) ∧ ∀ t v w, (t, v) ∈ votes steps → (t, w) ∈ votes steps → v = w := by
  induction run with
  | nil => simp [Counted, votes]
  | @snoc steps x y c run step ih =>
    have before := fun q hq => inTerm q (mem_append_left _ hq)
    obtain ⟨counted, unique⟩ := ih before fun q hq => rules q (mem_append_left _ hq)
    have tracks := Tracks.run started run before
    have rule : c.ByRules x := rules (x, c) (mem_append_right _ (mem_singleton_self _))
    rw [lastPersisted_concat]
    by_cases vote : ∃ v, c = .persistVote v
    · obtain ⟨v, rfl⟩ := vote
      have given : votes (steps ++ [(x, .persistVote v)]) = votes steps ++ [(x.currentTerm, v)] := by simp [votes]
      have up : x.udata.state = .up := by cases step; assumption
      obtain ⟨same, next⟩ := counted.vote tracks up rule
      rw [given]
      refine ⟨next, fun t a b ha hb => ?_⟩
      rcases mem_append.mp ha with oldA | newA <;> rcases mem_append.mp hb with oldB | newB
      · exact unique t a b oldA oldB
      · obtain ⟨rfl, rfl⟩ := mk.inj (mem_singleton.mp newB)
        exact same a oldA
      · obtain ⟨rfl, rfl⟩ := mk.inj (mem_singleton.mp newA)
        exact (same b oldB).symm
      · obtain ⟨rfl, rfl⟩ := mk.inj (mem_singleton.mp newA)
        exact (mk.inj (mem_singleton.mp newB)).2.symm
    · have other : ∀ v, c ≠ .persistVote v := fun v eq => vote ⟨v, eq⟩
      have given : votes (steps ++ [(x, c)]) = votes steps := by
        cases c with
        | persistVote v => exact absurd rfl (other v)
        | _ => simp [votes]
      rw [given]
      exact ⟨counted.persisted tracks rule other step, unique⟩

/-- A restart comes up with this term and vote. -/
def RestoresTo (lib : RaftLib (Node α)) (app : App α) (env : Env) (self : RaftNodePeer) (x : RaftServer (Node α))
    (p : Nat × Int) : Prop :=
  ∀ out : Outside, out.Ok → ∀ s, (new x.udata.store.disk).init env out.io = (0, s) →
    ∃ y, init lib app env out self x.udata.store.disk x.udata.metaFile = some (0, y) ∧ y.udata.state = .up ∧
      y.currentTerm = p.1 ∧ y.votedFor = voteOf p.2

/-- In every run in which votes are persisted only while the last applied entry is of the current term, the
    node comes back with the term and the vote that it persisted last, and gives one vote in a term. -/
theorem restores_of_run (started : Started lib app x₀) (run : NodeRun lib app env self x₀ steps x)
    (inTerm : ∀ q ∈ steps, q.2.InTerm q.1) :
    RestoresTo lib app env self x (lastPersisted steps) ∧
      ((∀ q ∈ steps, q.2.ByRules q.1) → ∀ t v w, (t, v) ∈ votes steps → (t, w) ∈ votes steps → v = w) := by
  refine ⟨fun out hout s opens => ?_, fun rules => (votes_of_run started run inTerm rules).2⟩
  have tracks := Tracks.run started run inTerm
  obtain ⟨m, file, loadable⟩ := tracks.ready.file
  obtain ⟨es, z, y, eq, -, loaded⟩ := init_saved lib app hout self opens loadable.snapshot loadable.id
  obtain ⟨term, vote⟩ := tracks.file m file
  obtain ⟨-, currentTerm, votedFor⟩ := loaded.tracks loadable term vote
  exact ⟨y, by rw [file, eq], loaded.state, currentTerm, votedFor⟩

end

theorem restores_of_run_sample :
    ∃ steps x, NodeRun (.plain _) sampleApp sampleEnv (samplePeer 1) (sampleNode 1) steps x ∧
      lastPersisted steps = (5, 2) ∧ RestoresTo (.plain _) sampleApp sampleEnv (samplePeer 1) x (5, 2) := by
  have run : NodeRun (.plain _) sampleApp sampleEnv (samplePeer 1) (sampleNode 1)
      [(_, .persistTerm 5 (-1)), (_, .persistVote 2)] _ := .snoc (.snoc .nil (.persistTerm rfl rfl)) (.persistVote rfl rfl)
  refine ⟨_, _, run, rfl, (restores_of_run (sampleNode_started (by decide)) run ?_).1⟩
  intro q member
  simp only [mem_cons, not_mem_nil, or_false] at member
  rcases member with rfl | rfl
  · trivial
  · rfl

/-- In term 5 an entry of term 3 is applied, and then node 2 gets the vote: the node comes back in term 3. -/
theorem not_restored_after_apply :
    ∃ steps x y more z, Started (.plain _) sampleApp (sampleNode 1) ∧
      NodeRun (.plain _) sampleApp sampleEnv (samplePeer 1) (sampleNode 1) steps x ∧ lastPersisted steps = (5, 2) ∧
      (new x.udata.store.disk).init sampleEnv (sampleOut 1).io = (0, y.udata.store) ∧
      init (.plain _) sampleApp sampleEnv (sampleOut 1) (samplePeer 1) x.udata.store.disk x.udata.metaFile = some (0, y) ∧
      y.currentTerm = 3 ∧
      NodeRun (.plain _) sampleApp sampleEnv (samplePeer 1) (sampleNode 1) more z ∧ steps <+: more ∧
      (∀ q ∈ more, q.2.ByRules q.1) ∧ (5, 2) ∈ votes more ∧ (5, 3) ∈ votes more := by
  have run : NodeRun (.plain _) sampleApp sampleEnv (samplePeer 1) (sampleNode 1)
      [(_, .log (.appendEntry (sampleEntry 1 3))), (_, .persistTerm 5 (-1)),
        (_, .applyLog (sampleEntry 1 3) 1 false), (_, .persistVote 2)] _ :=
    .snoc (.snoc (.snoc (.snoc .nil (.log rfl (returns 0 rfl))) (.persistTerm rfl rfl))
      (.applyLog rfl rfl)) (.persistVote rfl rfl)
  have again : NodeRun (.plain _) sampleApp sampleEnv (samplePeer 1) (sampleNode 1)
      (((_ ++ [(_, .restart (sampleOut 1))]) ++ [(_, .persistTerm 5 (-1))]) ++ [(_, .persistVote 3)]) _ :=
    .snoc (.snoc (.snoc run (.restart ⟨rfl, rfl, rfl⟩ rfl)) (.persistTerm rfl rfl)) (.persistVote rfl rfl)
  refine ⟨_, _, _, _, _, sampleNode_started (by decide), run, rfl, rfl, rfl, rfl, again,
    ((prefix_append _ _).trans (prefix_append _ _)).trans (prefix_append _ _), ?_, by decide, by decide⟩
  intro q member
  simp only [cons_append, nil_append, mem_cons, not_mem_nil, or_false] at member
  rcases member with rfl | rfl | rfl | rfl | rfl | rfl | rfl
  · trivial
  · exact ⟨by decide, rfl⟩
  · trivial
  · exact ⟨by decide, .inl rfl⟩
  · trivial
  · exact ⟨by decide, rfl⟩
  · exact ⟨by decide, .inl rfl⟩

end

/-! A cluster whose nodes crash and come back. A start takes the whole log for committed, so it may apply
    entries that no other node has. -/

section
open Finset Storage Function Prod

section
variable {ι α : Type}

inductive AppliedBy (lib : RaftLib (Node α)) (app : App α) (env : Env) (x : RaftServer (Node α)) :
    NodeCall → List (Int × LogEntry) → Prop
  | applyLog {e : LogEntry} {k : Int} {closure : Bool} : AppliedBy lib app env x (.applyLog e k closure) [(k, e)]
  | loaded {out : Outside} {s : Storage} {m : RaftMeta} {es : List (Int × LogEntry)} :
      (new x.udata.store.disk).init env out.io = (0, s) → x.udata.metaFile = .saved m →
      Applies (Node.callbacks lib app env out.saveMeta) (commitAll lib (lib.new (.loading app m s))) es
        (lib.applyAll (Node.callbacks lib app env out.saveMeta) (commitAll lib (lib.new (.loading app m s)))).2 →
      AppliedBy lib app env x (.restart out) es
  | closed {out : Outside} {s : Storage} {rc : Int} : (new x.udata.store.disk).init env out.io = (rc, s) → rc ≠ 0 →
      AppliedBy lib app env x (.restart out) []
  | persistTerm {term : Nat} {vote : Int} : AppliedBy lib app env x (.persistTerm term vote) []
  | persistVote {vote : Int} : AppliedBy lib app env x (.persistVote vote) []
  | log {c : Call} : AppliedBy lib app env x (.log c) []

structure ClusterStep (ι α : Type) where
  before : ι → RaftServer (Node α)
  node : ι
  call : NodeCall
  applied : List (Int × LogEntry)

inductive ClusterRun [DecidableEq ι] (lib : RaftLib (Node α)) (app : App α) (env : Env) (self : ι → RaftNodePeer)
    (c₀ : ι → RaftServer (Node α)) : List (ClusterStep ι α) → (ι → RaftServer (Node α)) → Prop
  | nil : ClusterRun lib app env self c₀ [] c₀
  | snoc {steps : List (ClusterStep ι α)} {c : ι → RaftServer (Node α)} {i : ι} {call : NodeCall} {y : RaftServer (Node α)}
      {es : List (Int × LogEntry)} : ClusterRun lib app env self c₀ steps c →
      NodeStep lib app env (self i) (c i) call y → AppliedBy lib app env (c i) call es →
      ClusterRun lib app env self c₀ (steps ++ [⟨c, i, call, es⟩]) (update c i y)

def Stores (env : Env) (n : Node α) (k : Int) (e : LogEntry) : Prop :=
  ∃ io s, (new n.store.disk).init env io = (0, s) ∧ s.getEntry env k = some e

def OnMajority [Fintype ι] (env : Env) (c : ι → RaftServer (Node α)) (k : Int) (e : LogEntry) : Prop :=
  ∃ Q : Finset ι, Fintype.card ι < 2 * Q.card ∧ ∀ i ∈ Q, Stores env (c i).udata k e

def Committed [Fintype ι] (env : Env) (steps : List (ClusterStep ι α)) (k : Int) (e : LogEntry) : Prop :=
  ∃ r ∈ steps, OnMajority env r.before k e

def LogCommitted [Fintype ι] (env : Env) (steps : List (ClusterStep ι α)) (r : ClusterStep ι α) : Prop :=
  ∀ out s, r.call = .restart out → (new (r.before r.node).udata.store.disk).init env out.io = (0, s) →
    ∀ k e, Replayed env s k e → Committed env steps k e

def LibraryCommits [Fintype ι] (env : Env) (steps : List (ClusterStep ι α)) (r : ClusterStep ι α) : Prop :=
  ∀ e k closure, r.call = .applyLog e k closure → Committed env steps k e

def AppliesCommitted [Fintype ι] (env : Env) (steps : List (ClusterStep ι α)) (r : ClusterStep ι α) : Prop :=
  ∀ k e, (k, e) ∈ r.applied → Committed env steps k e

def Throughout (steps : List (ClusterStep ι α)) (P : List (ClusterStep ι α) → ClusterStep ι α → Prop) : Prop :=
  ∀ earlier r, earlier ++ [r] <+: steps → P (earlier ++ [r]) r

variable {lib : RaftLib (Node α)} {app : App α} {env : Env} {self : ι → RaftNodePeer}
  {c c₀ : ι → RaftServer (Node α)} {steps : List (ClusterStep ι α)} {r : ClusterStep ι α}

lemma ClusterRun.ready [DecidableEq ι] (started : ∀ i, Started lib app (c₀ i)) (run : ClusterRun lib app env self c₀ steps c) (i : ι) :
    Ready (c i) := by
  induction run with
  | nil => exact (started i).ready
  | @snoc steps c j call y es run step applied ih =>
    by_cases same : i = j
    · subst same
      rw [update_self]
      exact ih.step step
    · rw [update_of_ne same]
      exact ih

lemma ClusterRun.step_of_prefix [DecidableEq ι] (started : ∀ i, Started lib app (c₀ i)) (run : ClusterRun lib app env self c₀ steps c)
    {earlier : List (ClusterStep ι α)} (here : earlier ++ [r] <+: steps) :
    Ready (r.before r.node) ∧ AppliedBy lib app env (r.before r.node) r.call r.applied := by
  induction run with
  | nil => simp at here
  | @snoc steps c j call y es run step applied ih =>
    rcases List.prefix_concat_iff.mp here with last | before
    · obtain ⟨-, rfl⟩ := List.append_inj' last rfl |>.imp_right fun eq => List.singleton_inj.mp eq
      exact ⟨run.ready started j, applied⟩
    · exact ih before

lemma recent_of_init {d : Disk} {io : Io} {s : Storage} {rc : Int} (opens : (new d).init env io = (rc, s)) :
    s.latestEntriesCache = [] := by
  have recent := (init_recent env io d).1
  rwa [opens] at recent

variable [Fintype ι]

lemma libraryCommits_of_quiet (quiet : ∀ r ∈ steps, ∀ e k closure, r.call ≠ .applyLog e k closure) :
    Throughout steps (LibraryCommits env) := by
  intro earlier r here e k closure call
  exact absurd call (quiet r (here.subset (by simp)) e k closure)

lemma LogCommitted.applies (ready : Ready (r.before r.node))
    (applied : AppliedBy lib app env (r.before r.node) r.call r.applied) (library : LibraryCommits env steps r)
    (committed : LogCommitted env steps r) : AppliesCommitted env steps r := by
  intro k e member
  obtain ⟨before, i, call, es⟩ := r
  cases applied with
  | applyLog =>
    obtain ⟨rfl, rfl⟩ := mk.inj (List.mem_singleton.mp member)
    exact library _ _ _ rfl
  | @loaded out s m es opens file applies =>
    obtain ⟨m', file', loadable⟩ := ready.file
    obtain rfl := MetaFile.saved.inj (file'.symm.trans file)
    exact committed out s rfl opens k e (replayed_of_mem loadable (recent_of_init opens) applies member)
  | closed => cases member
  | persistTerm => cases member
  | persistVote => cases member
  | log => cases member

lemma AppliesCommitted.log (accepts : app.Accepts) (ready : Ready (r.before r.node))
    (applied : AppliedBy lib app env (r.before r.node) r.call r.applied) (committed : AppliesCommitted env steps r) :
    LogCommitted env steps r := by
  intro out s restart opens k e replayed
  obtain ⟨before, i, call, es⟩ := r
  subst restart
  cases applied with
  | @loaded _ s' m es opens' file applies =>
    obtain rfl := (mk.inj (opens.symm.trans opens')).2
    obtain ⟨m', file', loadable⟩ := ready.file
    obtain rfl := MetaFile.saved.inj (file'.symm.trans file)
    exact committed k e (mem_of_replayed loadable (recent_of_init opens) applies accepts replayed)
  | closed closed nonzero => exact absurd (mk.inj (opens.symm.trans closed)).1.symm nonzero

/-- On a library that applies committed entries only, if every start in a run of a cluster finds the log of its node committed, then
    every entry that is applied anywhere was committed by then. -/
theorem applies_committed_of_run [DecidableEq ι] (started : ∀ i, Started lib app (c₀ i)) (run : ClusterRun lib app env self c₀ steps c)
    (library : Throughout steps (LibraryCommits env)) :
    (Throughout steps (LogCommitted env) → Throughout steps (AppliesCommitted env)) ∧
      (app.Accepts → Throughout steps (AppliesCommitted env) → Throughout steps (LogCommitted env)) := by
  refine ⟨fun committed earlier r here => ?_, fun accepts committed earlier r here => ?_⟩
  · obtain ⟨ready, applied⟩ := run.step_of_prefix started here
    exact (committed earlier r here).applies ready applied (library earlier r here)
  · obtain ⟨ready, applied⟩ := run.step_of_prefix started here
    exact (committed earlier r here).log accepts ready applied

end

def sampleCluster (i : Fin 3) : RaftServer (Node Nat) := sampleNode (i + 1)

def samplePeers (i : Fin 3) : RaftNodePeer := samplePeer (i + 1)

lemma sampleAhead_loads : AppliedBy (.plain _) sampleApp sampleEnv (sampleAhead 1) (.restart (sampleOut 1))
    [(1, sampleEntry 1 1)] := .loaded rfl rfl (.next (by decide) rfl (.done (by decide)))

lemma sampleAhead_stores (id : Nat) : Stores sampleEnv (sampleAhead id).udata 1 (sampleEntry 1 1) :=
  ⟨sampleIo, ((new (sampleAhead 1).udata.store.disk).init sampleEnv sampleIo).2, rfl, by rfl⟩

def sampleSteps : List (ClusterStep (Fin 3) Nat) :=
  [⟨sampleCluster, 0, .log (.appendEntry (sampleEntry 1 1)), []⟩,
    ⟨update sampleCluster 0 (sampleAhead 1), 1, .log (.appendEntry (sampleEntry 1 1)), []⟩,
    ⟨update (update sampleCluster 0 (sampleAhead 1)) 1 (sampleAhead 2), 0, .restart (sampleOut 1),
      [(1, sampleEntry 1 1)]⟩]

theorem applies_committed_of_run_sample :
    ∃ c, ClusterRun (.plain _) sampleApp sampleEnv samplePeers sampleCluster sampleSteps c ∧
      Throughout sampleSteps (AppliesCommitted sampleEnv) := by
  have none : ClusterRun (.plain _) sampleApp sampleEnv samplePeers sampleCluster [] sampleCluster := .nil
  have one := ClusterRun.snoc (i := 0) none (sampleAhead_step 1 (samplePeers 0)) .log
  have two := ClusterRun.snoc (i := 1) one (sampleAhead_step 2 (samplePeers 1)) .log
  have run := ClusterRun.snoc (i := 0) two (.restart ⟨rfl, rfl, rfl⟩ rfl) sampleAhead_loads
  have quiet : Throughout sampleSteps (LibraryCommits sampleEnv) := by
    refine libraryCommits_of_quiet fun r member => ?_
    simp only [sampleSteps, List.mem_cons, List.not_mem_nil, or_false] at member
    rcases member with rfl | rfl | rfl <;> simp
  refine ⟨_, run, (applies_committed_of_run (fun i => sampleNode_started (Nat.succ_pos _)) run quiet).1 ?_⟩
  intro earlier r here out s call opens k e replayed
  have member : r ∈ sampleSteps := here.subset (by simp)
  simp only [sampleSteps, List.mem_cons, List.not_mem_nil, or_false] at member
  rcases member with rfl | rfl | rfl
  · cases call
  · cases call
  · cases call
    obtain rfl := (mk.inj opens).2
    obtain ⟨lo, hi, found, -⟩ := replayed
    obtain rfl : k = 1 := Int.le_antisymm hi lo
    obtain rfl : sampleEntry 1 1 = e := Option.some.inj found
    refine ⟨_, List.mem_append_right _ (List.mem_singleton_self _), {0, 1}, by decide, fun i member => ?_⟩
    rcases mem_insert.mp member with rfl | one
    · exact sampleAhead_stores 1
    · obtain rfl := mem_singleton.mp one
      exact sampleAhead_stores 2

lemma sampleNode_stores_nothing (id : Nat) (k : Int) (e : LogEntry) : ¬ Stores sampleEnv (sampleNode id).udata k e := by
  rintro ⟨⟨short, create, rename, ftruncate, save, load, reserved, stale⟩, s, opens, found⟩
  cases load with
  | false => exact absurd (show (-1 : Int) = 0 from congrArg fst opens) (by decide)
  | true =>
    obtain rfl := (mk.inj opens).2
    have nothing := (getTerm_getEntry_hollow sampleEnv (sampleNode id).udata.store.disk 1 k).2
    exact absurd (nothing.symm.trans found) (by simp)

lemma not_onMajority_sample (x : RaftServer (Node Nat)) (k : Int) (e : LogEntry) :
    ¬ OnMajority sampleEnv (update sampleCluster 0 x) k e := by
  rintro ⟨Q, majority, stored⟩
  have only : Q ⊆ {0} := by
    intro i member
    rw [mem_singleton]
    by_contra other
    have at_i := stored i member
    rw [update_of_ne other] at at_i
    exact sampleNode_stores_nothing _ k e at_i
  have few := card_le_card only
  simp only [card_singleton, Fintype.card_fin] at few majority
  omega

theorem applies_uncommitted :
    ∃ steps c r, (∀ i, Started (.plain _) sampleApp (sampleCluster i)) ∧
      ClusterRun (.plain _) sampleApp sampleEnv samplePeers sampleCluster (steps ++ [r]) c ∧
      Throughout (steps ++ [r]) (LibraryCommits sampleEnv) ∧ r.call = .restart (sampleOut 1) ∧
      (1, sampleEntry 1 1) ∈ r.applied ∧ ¬ Committed sampleEnv (steps ++ [r]) 1 (sampleEntry 1 1) := by
  have run : ClusterRun (.plain _) sampleApp sampleEnv samplePeers sampleCluster
      ([⟨sampleCluster, 0, .log (.appendEntry (sampleEntry 1 1)), []⟩] ++
        [⟨update sampleCluster 0 (sampleAhead 1), 0, .restart (sampleOut 1), [(1, sampleEntry 1 1)]⟩]) _ :=
    .snoc (.snoc .nil (sampleAhead_step 1 _) .log) (.restart ⟨rfl, rfl, rfl⟩ rfl) sampleAhead_loads
  refine ⟨_, _, _, fun i => sampleNode_started (Nat.succ_pos _), run, ?_, rfl, List.mem_singleton_self _, ?_⟩
  · refine libraryCommits_of_quiet fun r member => ?_
    simp only [List.cons_append, List.nil_append, List.mem_cons, List.not_mem_nil, or_false] at member
    rcases member with rfl | rfl <;> simp
  · rintro ⟨r, member, majority⟩
    simp only [List.cons_append, List.nil_append, List.mem_cons, List.not_mem_nil, or_false] at member
    rcases member with rfl | rfl
    · rw [← update_eq_self 0 sampleCluster] at majority
      exact not_onMajority_sample _ _ _ majority
    · exact not_onMajority_sample _ _ _ majority

end

end Myctk.Mraft
