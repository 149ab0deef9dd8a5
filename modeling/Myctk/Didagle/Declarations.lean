import Mathlib.Data.List.Perm.Basic
import Myctk.Didagle.Graph

/-! What a script declares about the edges of a graph, and which declarations an edge keeps: every place that names a vertex is a call
    of `Depend` (`didagle/graph_vertex.cpp`). -/

namespace Myctk.Didagle

section
open Edges List Option Lib

/-- A call of `Depend`: `this` waits for `v` and expects one of the results. -/
structure Declaration where
  this : Ref
  v : Ref
  expected : VertexResult
  deriving DecidableEq

/-- The test that `Execute` makes of a result. -/
def VertexResult.admits (expected r : VertexResult) : Bool := r.bits &&& expected.bits ≠ 0

section
variable (b : Nodes)

def dependencies (this : Ref) (expected : VertexResult) (ids : List String) : List Declaration :=
  ids.filterMap fun id => (b.nodes.lookup id).map fun v => ⟨this, v, expected⟩

def successions (this : Ref) (expected : VertexResult) (ids : List String) : List Declaration :=
  ids.filterMap fun id => (b.nodes.lookup id).map fun v => ⟨v, this, expected⟩

def inputDeclarations (this : Ref) (data : GraphData) : List Declaration :=
  (if data.aggregate = [] then [data.id] else data.aggregate).filterMap fun id =>
    (b.dataMappingTable.lookup id).bind fun v =>
      if data.aggregate = [] ∧ data.isInOut ∧ v = this then none
      else some ⟨this, v, if data.required then .ok else .all⟩

/-- The calls that `Vertex::Build` makes, in their order. -/
def vertexDeclarations (this : Ref) (n : Vertex) : List Declaration :=
  dependencies b this .all n.deps ++ (dependencies b this .ok n.depsOnOk ++ (dependencies b this .err n.depsOnErr ++
    (successions b this .all n.successor ++ (successions b this .ok n.successorOnOk ++
      (successions b this .err n.successorOnErr ++ n.input.flatMap (inputDeclarations b this))))))

def Nodes.declarations : List Declaration := b.entries.flatMap fun p => vertexDeclarations b p.1 p.2

end

def Edges.declare (e : Edges) (ds : List Declaration) : Edges :=
  ds.foldl (fun e d => e.depend d.this d.v d.expected) e

lemma Edges.declare_append (e : Edges) (ds ds' : List Declaration) : e.declare (ds ++ ds') = (e.declare ds).declare ds' :=
  foldl_append

section
variable {c : Cluster} {b : Nodes} {e e' : Edges} {this : Ref} {expected : VertexResult} {ids : List String}

lemma declare_of_buildDeps (builds : buildDeps b this expected ids e = some e') :
    e' = e.declare (dependencies b this expected ids) := by
  refine foldlM_eq_foldl (fun e id e' step => ?_) builds
  obtain ⟨v, found, rfl⟩ := map_eq_some_iff.mp step
  rw [found]
  rfl

lemma declare_of_buildSuccessors
    (builds : buildSuccessors b this expected ids e = some e') : e' = e.declare (successions b this expected ids) := by
  refine foldlM_eq_foldl (fun e id e' step => ?_) builds
  obtain ⟨v, found, rfl⟩ := map_eq_some_iff.mp step
  rw [found]
  rfl

lemma declare_of_buildInput {data : GraphData} (builds : ids.foldlM (buildInput b this data) e = some e') :
    e' = e.declare (ids.filterMap fun id => (b.dataMappingTable.lookup id).bind fun v =>
      if data.aggregate = [] ∧ data.isInOut ∧ v = this then none else some ⟨this, v, if data.required then .ok else .all⟩) := by
  refine foldlM_eq_foldl (fun e id e' step => ?_) builds
  rw [buildInput] at step
  cases found : b.dataMappingTable.lookup id with
  | none =>
    simp only [found] at step
    split at step
    · exact (some.inj step).symm
    · cases step
  | some v =>
    simp only [found] at step
    rw [bind_some]
    split at step
    · next own => rw [if_pos own, ← some.inj step]; rfl
    · next other => rw [if_neg other, ← some.inj step]; rfl

lemma declare_of_buildVertex {n : Vertex} (builds : buildVertex c b this n e = some e') :
    e' = e.declare (vertexDeclarations b this n) := by
  simp only [buildVertex] at builds
  split at builds
  · cases builds
  · simp only [bind_eq_bind, bind_eq_some_iff] at builds
    obtain ⟨e1, deps, e2, depsOnOk, e3, depsOnErr, e4, successor, e5, successorOnOk, e6, successorOnErr, inputs⟩ := builds
    rw [vertexDeclarations, declare_append, ← declare_of_buildDeps deps, declare_append,
      ← declare_of_buildDeps depsOnOk, declare_append, ← declare_of_buildDeps depsOnErr, declare_append,
      ← declare_of_buildSuccessors successor, declare_append, ← declare_of_buildSuccessors successorOnOk,
      declare_append, ← declare_of_buildSuccessors successorOnErr]
    exact foldlM_eq_foldl_flatMap (fun _ _ _ step => declare_of_buildInput step) inputs

end

lemma Graph.declare_of_link {c : Cluster} {g : Graph} {b : Built} (links : g.link c = some b) :
    b.toEdges = none.declare b.declarations := by
  simp only [Graph.link, bind_eq_bind, bind_eq_some_iff] at links
  obtain ⟨nodes, -, edges, builds, verified⟩ := links
  split at verified
  · cases verified
    exact foldlM_eq_foldl_flatMap (fun _ _ _ step => declare_of_buildVertex step) builds
  · cases verified

/-- The results that `this` expects of `v`, if there is an edge. -/
def Edges.expected? (e : Edges) (this v : Ref) : Option VertexResult :=
  ((e.deps this).find? fun dep => dep.1 = v).map Prod.snd

/-- The edge lets `this` run after that result of `v`. -/
def Edges.admits (e : Edges) (this v : Ref) (r : VertexResult) : Bool := (e.expected? this v).any fun x => x.admits r

def Declaration.joins (this v : Ref) (d : Declaration) : Bool := d.this = this ∧ d.v = v

lemma Declaration.joins_iff {this v : Ref} {d : Declaration} : d.joins this v ↔ d.this = this ∧ d.v = v := decide_eq_true_iff

lemma Edges.expected?_depend (e : Edges) (d : Declaration) (this v : Ref) : (e.depend d.this d.v d.expected).expected? this v =
      (e.expected? this v).or (if d.joins this v then some d.expected else .none) := by
  by_cases same : this = d.this
  · subst same
    simp only [expected?, depend, Function.update_self]
    by_cases known : d.v ∈ (e.deps d.this).map Prod.fst
    · rw [if_pos known]
      by_cases here : d.v = v
      · obtain ⟨dep, member, named⟩ := mem_map.mp known
        have found : ((e.deps d.this).find? fun dep => dep.1 = v).isSome := by
          rw [find?_isSome]
          exact ⟨dep, member, by simpa [here] using named⟩
        obtain ⟨first, eq⟩ := isSome_iff_exists.mp found
        rw [eq]
        rfl
      · simp [Declaration.joins, here]
    · rw [if_neg known, find?_append]
      by_cases here : d.v = v
      · simp only [Declaration.joins, here, and_self, decide_true, if_true, find?_cons, map_or]
        rfl
      · simp [Declaration.joins, here]
  · rw [if_neg fun joins => same (Declaration.joins_iff.mp joins).1.symm, or_none]
    simp only [expected?, depend, Function.update_of_ne same]

lemma Edges.expected?_declare (e : Edges) (ds : List Declaration) (this v : Ref) :
    (e.declare ds).expected? this v = (e.expected? this v).or ((ds.find? (Declaration.joins this v)).map Declaration.expected) := by
  induction ds generalizing e with
  | nil => rw [find?_nil, map_none, or_none]; rfl
  | cons d ds ih =>
    have step : e.declare (d :: ds) = (e.depend d.this d.v d.expected).declare ds := rfl
    rw [step, ih, expected?_depend, Option.or_assoc, find?_cons]
    cases d.joins this v <;> rfl

def Nodes.Agree (b : Nodes) : Prop :=
  ∀ d ∈ b.declarations, ∀ d' ∈ b.declarations, d.this = d'.this → d.v = d'.v → d.expected = d'.expected

def Built.Honours (b : Built) : Prop :=
  ∀ ds : List Declaration, ds.Perm b.declarations →
    (∀ d ∈ ds, ∀ r, (Edges.none.declare ds).admits d.this d.v r → d.expected.admits r) ∧
    ∀ this v r, (Edges.none.declare ds).admits this v r = b.admits this v r

lemma VertexResult.eq_of_admits {x y : VertexResult} (forth : ∀ r, x.admits r → y.admits r) (back : ∀ r, y.admits r → x.admits r) :
    x = y := by
  have ok : x.admits .ok = y.admits .ok := Bool.eq_iff_iff.mpr ⟨forth .ok, back .ok⟩
  have err : x.admits .err = y.admits .err := Bool.eq_iff_iff.mpr ⟨forth .err, back .err⟩
  revert ok err
  cases x <;> cases y <;> decide

section
variable {ds : List Declaration} {d : Declaration} {this v : Ref} {r : VertexResult}

lemma Edges.admits_declare : (none.declare ds).admits this v r =
    (ds.find? (Declaration.joins this v)).any fun d => d.expected.admits r := by
  rw [admits, expected?_declare]
  cases ds.find? (Declaration.joins this v) <;> rfl

lemma Nodes.Agree.admits {b : Nodes} (agree : b.Agree) (perm : ds.Perm b.declarations) (member : d ∈ b.declarations)
    (joins : d.joins this v) : (none.declare ds).admits this v r = d.expected.admits r := by
  have some := find?_isSome.mpr ⟨d, perm.mem_iff.mpr member, joins⟩
  obtain ⟨first, found⟩ := isSome_iff_exists.mp some
  have joins' := find?_some found
  have there := perm.mem_iff.mp (mem_of_find?_eq_some found)
  rw [Declaration.joins_iff] at joins joins'
  have same := agree first there d member (joins'.1.trans joins.1.symm) (joins'.2.trans joins.2.symm)
  rw [admits_declare, found, any_some, same]

lemma Edges.admits_declare_cons : (none.declare (d :: ds)).admits d.this d.v r = d.expected.admits r := by
  rw [admits_declare, find?_cons_of_pos (Declaration.joins_iff.mpr ⟨rfl, rfl⟩), any_some]

end

/-- An edge admits what all of its declarations admit, whatever their order, exactly if they expect the same results. -/
theorem honours_iff_agree {c : Cluster} {g : Graph} {b : Built} (links : g.link c = some b) : b.Honours ↔ b.Agree := by
  have built := Graph.declare_of_link links
  constructor
  · intro honours d member d' member' sameThis sameV
    have first : ∀ {d d' : Declaration}, d ∈ b.declarations → d' ∈ b.declarations → d.this = d'.this → d.v = d'.v →
        ∀ r, d.expected.admits r → d'.expected.admits r := by
      intro d d' member member' sameThis sameV r admits
      have perm := perm_cons_erase member
      refine (honours _ perm.symm).1 d' (perm.mem_iff.mp member') r ?_
      rw [← sameThis, ← sameV, admits_declare_cons]
      exact admits
    exact VertexResult.eq_of_admits (first member member' sameThis sameV) (first member' member sameThis.symm sameV.symm)
  · intro agree ds perm
    refine ⟨fun d member r admits => ?_, fun this v r => ?_⟩
    · rwa [agree.admits perm (perm.mem_iff.mp member) (Declaration.joins_iff.mpr ⟨rfl, rfl⟩)] at admits
    · rw [built]
      by_cases declared : ∃ d ∈ b.declarations, d.joins this v
      · obtain ⟨d, member, joins⟩ := declared
        rw [agree.admits perm member joins, agree.admits (.refl _) member joins]
      · have missing : ∀ ds' : List Declaration, ds'.Perm b.declarations → ds'.find? (Declaration.joins this v) = .none := by
          intro ds' perm'
          rw [find?_eq_none]
          exact fun d member joins => declared ⟨d, perm'.mem_iff.mp member, joins⟩
        rw [admits_declare, admits_declare, missing ds perm, missing _ (.refl _)]

def repeatedGraph : Graph :=
  ⟨"g", [{ Vertex.empty with id := "a", processor := "a" },
    { Vertex.empty with id := "b", processor := "b", deps := ["a"], depsOnOk := ["a"] }]⟩

theorem honours_iff_agree_repeated : ∃ b, repeatedGraph.link sampleCluster = some b ∧ (b.Honours ↔ b.Agree) :=
  ⟨(repeatedGraph.link sampleCluster).get rfl, (Option.some_get rfl).symm, honours_iff_agree (Option.some_get rfl).symm⟩

theorem repeated_admits_err : ((repeatedGraph.build sampleCluster 3).join.any fun b =>
    ⟨.declared 1, .declared 0, .ok⟩ ∈ b.declarations && !VertexResult.ok.admits .err &&
      b.admits (.declared 1) (.declared 0) .err) = true := by decide

end

/-! The vertices that `Build` (`didagle/graph.cpp`) generates for conditions: under which ids they are, and what they run after. -/

section
open Didagle.Graph List Relation Nodes AList
open Option hiding or or_assoc

variable {c : Cluster} {graph : String} {b b' : Nodes} {r : Ref} {n : Vertex}

/-! ### Ids -/

/-- Every vertex is in the table under its id. -/
def Nodes.KeepsAll (b : Nodes) : Prop := ∀ r n, b.vertex? r = some n → b.nodes.lookup n.id = some r

/-- If the vertex needs a new condition vertex, the id that is made for that one is not taken. -/
def Nodes.Fresh (c : Cluster) (graph : String) (b : Nodes) (n : Vertex) : Prop :=
  n.expect ≠ "" → b.generatedCondNodes.lookup n.expect = none →
    b.nodes.lookup (generateNodeId graph (b.complete c graph n).1.idx) = none

/-- The ids are fresh throughout the first loop of `Build`. -/
def Nodes.FreshThroughout (c : Cluster) (graph : String) : Nodes → List Vertex → Prop
  | _, [] => True
  | b, n :: ns => b.Fresh c graph n ∧ ∀ b', b.add c graph n = some b' → FreshThroughout c graph b' ns

lemma Nodes.Adds.keepsAll_iff (adds : b.Adds b' r n) (wf : b.Wf) : b'.KeepsAll ↔ b.KeepsAll ∧ b.nodes.lookup n.id = none := by
  constructor
  · intro keeps
    have here := keeps r n (by rw [adds.vertex, if_pos rfl])
    have apart (r' : Ref) (n' : Vertex) (there : b.vertex? r' = some n') : n'.id ≠ n.id := by
      intro same
      have kept := keeps r' n' (adds.keeps there)
      rw [same, here, some.injEq] at kept
      rw [← kept, adds.fresh] at there
      cases there
    refine ⟨fun r' n' there => ?_, eq_none_iff_forall_not_mem.mpr fun r' found => ?_⟩
    · rw [← keeps r' n' (adds.keeps there), adds.nodes, lookup_insert_ne (apart r' n' there)]
    · obtain ⟨n', there, same⟩ := wf.named n.id r' found
      exact apart r' n' there same
  · rintro ⟨keeps, free⟩ r' n' there
    rw [adds.vertex] at there
    rw [adds.nodes]
    split at there
    · next same =>
      cases there
      rw [same, lookup_insert]
    · have other : n'.id ≠ n.id := by
        intro same
        cases free.symm.trans (same ▸ keeps r' n' there)
      rw [lookup_insert_ne other, keeps r' n' there]

lemma Nodes.addExpect_fst : (b.addExpect c graph n).1 =
    if n.expect = "" ∨ (b.generatedCondNodes.lookup n.expect).isSome then b else b.generatedCondVertex c graph n.expect n := by
  simp only [addExpect]
  by_cases none : n.expect = ""
  · simp [none]
  · simp only [none, if_false, false_or]
    split <;> rfl

lemma Nodes.Wf.addExpect_keepsAll_iff (wf : b.Wf) : (b.addExpect c graph n).1.KeepsAll ↔ b.KeepsAll ∧
    (n.expect ≠ "" → b.generatedCondNodes.lookup n.expect = none → b.nodes.lookup (generateNodeId graph b.idx) = none) := by
  rw [addExpect_fst]
  split
  · next old =>
    refine (and_iff_left fun some none => ?_).symm
    rw [none] at old
    exact absurd old (by simp [some])
  · next new =>
    rw [not_or, not_isSome_iff_eq_none] at new
    rw [(adds_generatedCondVertex n.expect).keepsAll_iff wf]
    exact and_congr_right fun _ => ⟨fun free _ _ => free, fun free => free new.1 new.2⟩

lemma Nodes.complete_expect : (b.complete c graph n).2.expect = n.expect := by
  simp only [complete]
  repeat' split
  all_goals rfl

lemma Nodes.Wf.add_keepsAll_iff (wf : b.Wf) (adds : b.add c graph n = some b') : b'.KeepsAll ↔ b.KeepsAll ∧ b.Fresh c graph n := by
  obtain ⟨m, b2, rfl, adds, free, -⟩ := adds_add adds
  rw [adds.keepsAll_iff wf.complete.addExpect, and_iff_left free, wf.complete.addExpect_keepsAll_iff, complete_expect, Fresh]
  obtain ⟨idx, kept⟩ := b.complete_eq c graph n
  rw [kept]
  rfl

variable {ns done : List Vertex} {u v this : Ref} {expected : VertexResult} {ids : List String}

lemma Nodes.Wf.foldlM_keepsAll_iff (wf : b.Wf) (adds : ns.foldlM (fun b n => b.add c graph n) b = some b') :
    b'.KeepsAll ↔ b.KeepsAll ∧ b.FreshThroughout c graph ns := by
  induction ns generalizing b with
  | nil =>
    cases adds
    exact (and_iff_left trivial).symm
  | cons n ns ih =>
    rw [foldlM_cons] at adds
    obtain ⟨b1, first, rest⟩ := bind_eq_some_iff.mp adds
    rw [ih (wf.add first) rest, wf.add_keepsAll_iff first, and_assoc, FreshThroughout]
    refine and_congr_right fun _ => and_congr_right fun _ => ⟨fun later b2 again => ?_, fun later => later b1 first⟩
    cases first.symm.trans again
    exact later

lemma Nodes.KeepsAll.entries_length (keeps : b.KeepsAll) (wf : b.Wf) :
    b.nodes.entries.length = b.declared.length + b.generated.length := by
  have refs : (b.nodes.entries.map Sigma.snd).Perm b.refs := by
    refine (perm_ext_iff_of_nodup wf.values_nodup ?_).mpr fun r => ?_
    · exact List.Nodup.append (nodup_range.map fun _ _ => Ref.declared.inj) (nodup_range.map fun _ _ => Ref.generated.inj)
        (by simp [disjoint_left])
    · have member : r ∈ b.refs ↔ (b.vertex? r).isSome := by cases r <;> simp [refs, vertex?]
      rw [member]
      refine ⟨wf.isSome_of_mem_values, fun there => ?_⟩
      obtain ⟨n, there⟩ := isSome_iff_exists.mp there
      exact mem_map.mpr ⟨⟨n.id, r⟩, mem_lookup_iff.mp (keeps r n there), rfl⟩
  simpa [Nodes.refs] using refs.length_eq

/-- After `Build` every vertex is in the table, and there are as many entries as vertices, exactly if no id that is made for a
    condition vertex was taken when it was made. -/
theorem keepsAll_iff_of_build {c : Cluster} {g : Graph} {fuel : Nat} {b : Built} (builds : g.build c fuel = some (some b)) :
    (b.KeepsAll ∧ b.nodes.entries.length = b.declared.length + b.generated.length) ↔
      empty.FreshThroughout c g.name g.vertex := by
  have wf : b.toNodes.Wf := (link_wf (link_of_build builds)).1
  have none : empty.KeepsAll := by
    intro r n there
    cases r <;> simp [empty, vertex?] at there
  have keeps := wf_empty.foldlM_keepsAll_iff (nodes_of_link (link_of_build builds))
  rw [and_iff_right none] at keeps
  rw [← keeps]
  exact and_iff_left_of_imp fun keeps => keeps.entries_length wf

def expectingVertex (id expect : String) (expectDeps : List String) : Vertex :=
  { Vertex.empty with id, processor := "p", expect, expectDeps }

def freshGraph : Graph := ⟨"g", [expectingVertex "b" "x > 1" []]⟩

/-- One vertex with a condition. -/
theorem keepsAll_iff_of_build_fresh : ∃ b, freshGraph.build sampleCluster 4 = some (some b) ∧
    ((b.KeepsAll ∧ b.nodes.entries.length = b.declared.length + b.generated.length) ↔
      empty.FreshThroughout sampleCluster "g" freshGraph.vertex) :=
  ⟨_, rfl, keepsAll_iff_of_build (show freshGraph.build sampleCluster 4 = some (some _) from rfl)⟩

def takenGraph : Graph := ⟨"g", [{ expectingVertex "g_0" "" [] with isStart := true }, expectingVertex "b" "x > 1" []]⟩

/-- The script has a vertex of the id that is made for the condition: of three vertices two are in the table. -/
theorem taken_id_overwritten : ((takenGraph.build sampleCluster 4).join.map fun b =>
    (b.declared.length, b.generated.length, b.nodes.entries.length, b.nodes.lookup "g_0")) = some (2, 1, 2, some (.generated 0)) := by
  decide

/-! ### Order -/

/-- The vertices that a vertex depends on for the data of its condition. -/
def Vertex.condDeps (n : Vertex) : List String := if n.expectDeps ≠ [] then n.expectDeps else n.deps ++ (n.depsOnOk ++ n.depsOnErr)

def Vertex.successors (n : Vertex) : List String := n.successor ++ (n.successorOnOk ++ n.successorOnErr)

/-- The condition vertices that there are after some vertices of the script: each was made for the first one with its text. -/
structure Nodes.MadeFor (c : Cluster) (done : List Vertex) (b : Nodes) : Prop where
  known : ∀ n ∈ done, n.expect ≠ "" → (b.generatedCondNodes.lookup n.expect).isSome
  first : ∀ text j, b.generatedCondNodes.lookup text = some j →
    ∃ n₀ id, done.find? (·.expect = text) = some n₀ ∧ b.generated[j]? = some (condVertex c id text n₀)

lemma condVertex_complete (id cond : String) : condVertex c id cond (b.complete c graph n).2 = condVertex c id cond n := by
  simp only [complete]
  repeat' split
  all_goals rfl

lemma Nodes.MadeFor.add (made : b.MadeFor c done) (adds : b.add c graph n = some b') : b'.MadeFor c (done ++ [n]) := by
  obtain ⟨m, b2, rfl, -, -, generated, conds⟩ := adds_add adds
  obtain ⟨idx, kept⟩ := b.complete_eq c graph n
  rw [addExpect_fst, complete_expect, kept] at generated conds
  by_cases old : n.expect = "" ∨ (b.generatedCondNodes.lookup n.expect).isSome
  · rw [if_pos old] at generated conds
    refine ⟨fun m member some => ?_, fun text j found => ?_⟩
    · rw [conds]
      rcases mem_append.mp member with before | here
      · exact made.known m before some
      · rw [mem_singleton.mp here] at some ⊢
        exact old.resolve_left some
    · obtain ⟨n₀, id, first, there⟩ := made.first text j (conds ▸ found)
      exact ⟨n₀, id, by rw [find?_append, first, some_or], generated ▸ there⟩
  · rw [if_neg old] at generated conds
    rw [not_or, not_isSome_iff_eq_none] at old
    refine ⟨fun m member some => ?_, fun text j found => ?_⟩
    · rw [conds]
      by_cases same : m.expect = n.expect
      · rw [same]
        exact isSome_iff_exists.mpr ⟨_, lookup_insert _⟩
      · rcases mem_append.mp member with before | here
        · exact (lookup_insert_ne same).symm ▸ made.known m before some
        · exact absurd (congrArg Vertex.expect (mem_singleton.mp here)) same
    · rw [conds] at found
      rw [generated]
      by_cases same : text = n.expect
      · subst same
        have none : done.find? (·.expect = n.expect) = none := by
          refine find?_eq_none.mpr fun m member same => ?_
          have known := made.known m member (of_decide_eq_true same ▸ old.1)
          rw [of_decide_eq_true same, old.2] at known
          cases known
        cases found.symm.trans (lookup_insert _)
        refine ⟨n, generateNodeId graph idx, by simp [find?_append, none], ?_⟩
        exact (getElem?_concat_length ..).trans (congrArg some (condVertex_complete ..))
      · obtain ⟨n₀, id, first, there⟩ := made.first text j ((lookup_insert_ne same).symm.trans found)
        refine ⟨n₀, id, by rw [find?_append, first, some_or], ?_⟩
        exact (getElem?_append_left (List.getElem?_eq_some_iff.mp there).1).trans there

lemma Nodes.MadeFor.foldlM (made : b.MadeFor c done)
    (adds : ns.foldlM (fun b n => b.add c graph n) b = some b') : b'.MadeFor c (done ++ ns) := by
  induction ns generalizing b done with
  | nil =>
    cases adds
    rwa [append_nil]
  | cons n ns ih =>
    rw [foldlM_cons] at adds
    obtain ⟨b1, first, rest⟩ := bind_eq_some_iff.mp adds
    rw [append_cons]
    exact ih (made.add first) rest

lemma Edges.mem_successors_declare {e : Edges} {ds : List Declaration} :
    v ∈ (e.declare ds).successors u ↔ v ∈ e.successors u ∨ ∃ d ∈ ds, d.v = u ∧ d.this = v := by
  induction ds generalizing e with
  | nil => simp [Edges.declare]
  | cons d ds ih =>
    rw [Edges.declare, foldl_cons, ← Edges.declare, ih, Edges.mem_successors_depend, or_assoc]
    simp [eq_comm]

lemma exists_dependency :
    (∃ d ∈ dependencies b this expected ids, d.v = u ∧ d.this = v) ↔ this = v ∧ ∃ id ∈ ids, b.nodes.lookup id = some u := by
  simp only [dependencies, mem_filterMap, map_eq_some_iff]
  constructor
  · rintro ⟨_, ⟨id, member, w, found, rfl⟩, rfl, rfl⟩
    exact ⟨rfl, id, member, found⟩
  · rintro ⟨rfl, id, member, found⟩
    exact ⟨_, ⟨id, member, u, found, rfl⟩, rfl, rfl⟩

lemma exists_succession :
    (∃ d ∈ successions b this expected ids, d.v = u ∧ d.this = v) ↔ this = u ∧ ∃ id ∈ ids, b.nodes.lookup id = some v := by
  simp only [successions, mem_filterMap, map_eq_some_iff]
  constructor
  · rintro ⟨_, ⟨id, member, w, found, rfl⟩, rfl, rfl⟩
    exact ⟨rfl, id, member, found⟩
  · rintro ⟨rfl, id, member, found⟩
    exact ⟨_, ⟨id, member, v, found, rfl⟩, rfl, rfl⟩

lemma this_of_mem_inputs {input : List GraphData} {d : Declaration}
    (member : d ∈ input.flatMap (inputDeclarations b this)) : d.this = this := by
  obtain ⟨data, -, member⟩ := mem_flatMap.mp member
  obtain ⟨id, -, found⟩ := mem_filterMap.mp member
  obtain ⟨v, -, given⟩ := bind_eq_some_iff.mp found
  split at given
  · cases given
  · cases given
    rfl

/-- What a condition vertex waits for: the dependencies that it was made with, and the vertices that name it as a successor. -/
lemma mem_successors_generated {b : Built} (edges : b.toEdges = Edges.none.declare b.declarations) {j : Nat} {id text : String}
    {n₀ : Vertex} (made : b.generated[j]? = some (condVertex c id text n₀)) {w : Ref} :
    .generated j ∈ b.successors w ↔ (∃ id ∈ n₀.condDeps, b.nodes.lookup id = some w) ∨
      ∃ m, b.vertex? w = some m ∧ ∃ id ∈ m.successors, b.nodes.lookup id = some (.generated j) := by
  have waits (this : Ref) (m : Vertex) : (∃ d ∈ vertexDeclarations b.toNodes this m, d.v = w ∧ d.this = .generated j) ↔
      (this = .generated j ∧ ∃ id ∈ m.deps ++ (m.depsOnOk ++ m.depsOnErr), b.nodes.lookup id = some w) ∨
      (this = w ∧ ∃ id ∈ m.successors, b.nodes.lookup id = some (.generated j)) ∨
      ∃ d ∈ m.input.flatMap (inputDeclarations b.toNodes this), d.v = w ∧ d.this = .generated j := by
    simp only [vertexDeclarations, Vertex.successors, mem_append, or_and_right, exists_or, exists_dependency, exists_succession,
      and_or_left, or_assoc]
  have deps : (condVertex c id text n₀).deps ++ ((condVertex c id text n₀).depsOnOk ++ (condVertex c id text n₀).depsOnErr) =
      n₀.condDeps := by
    unfold condVertex Vertex.condDeps
    split <;> simp
  rw [show b.successors w = b.toEdges.successors w from rfl, edges, Edges.mem_successors_declare]
  constructor
  · rintro (none | ⟨d, member, joins⟩)
    · cases none
    · obtain ⟨⟨this, m⟩, entry, member⟩ := mem_flatMap.mp member
      rcases (waits this m).mp ⟨d, member, joins⟩ with ⟨rfl, found⟩ | ⟨rfl, found⟩ | ⟨d, member, -, into⟩
      · cases made.symm.trans (mem_entries.mp entry)
        exact .inl (deps ▸ found)
      · exact .inr ⟨m, mem_entries.mp entry, found⟩
      · rw [this_of_mem_inputs member] at into
        subst into
        cases made.symm.trans (mem_entries.mp entry)
        cases member
  · rintro (found | ⟨m, there, found⟩)
    · obtain ⟨d, member, joins⟩ := (waits (.generated j) (condVertex c id text n₀)).mpr (.inl ⟨rfl, deps ▸ found⟩)
      exact .inr ⟨d, mem_flatMap.mpr ⟨(.generated j, condVertex c id text n₀), mem_entries.mpr made, member⟩, joins⟩
    · obtain ⟨d, member, joins⟩ := (waits w m).mpr (.inr (.inl ⟨rfl, found⟩))
      exact .inr ⟨d, mem_flatMap.mpr ⟨(_, _), mem_entries.mpr there, member⟩, joins⟩

/-- Each condition vertex comes after all that its users depend on for the condition. -/
def Built.CondsOrdered (b : Built) (g : Graph) : Prop :=
  ∀ n ∈ g.vertex, n.expect ≠ "" → ∃ j, b.generatedCondNodes.lookup n.expect = some j ∧
    ∀ id ∈ n.condDeps, ∀ v, b.nodes.lookup id = some v → TransGen (fun u v => v ∈ b.successors u) v (.generated j)

/-- What a vertex depends on for its condition is, or comes before, a dependency of the first vertex with the same condition, or a
    vertex that names the condition vertex as its successor. -/
def Built.Covered (b : Built) (g : Graph) : Prop :=
  ∀ n ∈ g.vertex, n.expect ≠ "" → ∀ n₀, g.vertex.find? (·.expect = n.expect) = some n₀ →
    ∀ id ∈ n.condDeps, ∀ v, b.nodes.lookup id = some v → ∃ w, ReflTransGen (fun u v => v ∈ b.successors u) v w ∧
      ((∃ id₀ ∈ n₀.condDeps, b.nodes.lookup id₀ = some w) ∨ ∃ m, b.vertex? w = some m ∧ ∃ id' ∈ m.successors,
        b.nodes.lookup id' = (b.generatedCondNodes.lookup n.expect).map .generated)

/-- A condition vertex that several vertices share comes after the dependencies of all of them exactly if those are covered by the
    dependencies of the first one. -/
theorem condsOrdered_iff_covered {c : Cluster} {g : Graph} {fuel : Nat} {b : Built} (builds : g.build c fuel = some (some b)) :
    b.CondsOrdered g ↔ b.Covered g := by
  have links := link_of_build builds
  have edges := declare_of_link links
  have start : empty.MadeFor c [] := ⟨fun _ member => absurd member not_mem_nil, fun _ _ found => by cases found⟩
  have made := start.foldlM (nodes_of_link links)
  refine forall₃_congr fun n member some => ?_
  obtain ⟨j, known⟩ := isSome_iff_exists.mp (made.known n member some)
  obtain ⟨n₀, id, first, there⟩ := made.first n.expect j known
  constructor
  · rintro ⟨j', known', ordered⟩ n₀' first' id member v found
    cases known.symm.trans known'
    cases first.symm.trans first'
    obtain ⟨w, path, last⟩ := TransGen.tail'_iff.mp (ordered id member v found)
    rw [known]
    exact ⟨w, path, (mem_successors_generated edges there).mp last⟩
  · intro covered
    refine ⟨j, known, fun id member v found => ?_⟩
    obtain ⟨w, path, last⟩ := covered n₀ first id member v found
    rw [known] at last
    exact TransGen.tail' path ((mem_successors_generated edges there).mpr last)

def startVertex (id : String) : Vertex := { expectingVertex id "" [] with isStart := true }

def coveredGraph : Graph :=
  ⟨"g", [startVertex "a", startVertex "b", expectingVertex "u" "x > 1" ["a", "b"], expectingVertex "v" "x > 1" ["b"]]⟩

lemma covered_coveredGraph (b : Built) : b.Covered coveredGraph := by
  intro n member some n₀ first id dep v found
  have all : ∀ n ∈ coveredGraph.vertex, n.expect ≠ "" → n.expect = "x > 1" ∧ n.condDeps ⊆ ["a", "b"] := by
    intro n member some
    rcases mem_cons.mp member with rfl | member
    · exact absurd rfl some
    rcases mem_cons.mp member with rfl | member
    · exact absurd rfl some
    rcases mem_cons.mp member with rfl | member
    · exact ⟨rfl, List.Subset.refl _⟩
    · cases mem_singleton.mp member
      exact ⟨rfl, subset_cons_self _ _⟩
  obtain ⟨same, few⟩ := all n member some
  rw [same] at first
  obtain rfl : expectingVertex "u" "x > 1" ["a", "b"] = n₀ := Option.some.inj first
  exact ⟨v, .refl, .inl ⟨id, few dep, found⟩⟩

/-- A condition with two users, of which the first has all the dependencies. -/
theorem condsOrdered_iff_covered_two : ∃ b, coveredGraph.build sampleCluster 4 = some (some b) ∧ b.CondsOrdered coveredGraph :=
  ⟨_, rfl, (condsOrdered_iff_covered (show coveredGraph.build sampleCluster 4 = some (some _) from rfl)).mpr
    (covered_coveredGraph _)⟩

def sharedGraph : Graph :=
  ⟨"g", [startVertex "a", startVertex "b", expectingVertex "u" "x > 1" ["a"], expectingVertex "v" "x > 1" ["b"]]⟩

/-- The condition of both vertices does not wait for `b`, on which it depends for the second one. -/
theorem second_user_not_awaited : ∃ b, sharedGraph.build sampleCluster 4 = some (some b) ∧ ¬ b.CondsOrdered sharedGraph := by
  refine ⟨_, rfl, fun ordered => ?_⟩
  obtain ⟨j, known, ordered⟩ := ordered (expectingVertex "v" "x > 1" ["b"]) (by simp [sharedGraph]) (by decide)
  cases known
  exact not_reaches_of_find (show findVertexInSuccessors _ 4 _ _ = some false from rfl) (ordered "b" (by decide) (.declared 1) rfl)

end

end Myctk.Didagle
