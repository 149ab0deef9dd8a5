import Mathlib.Data.List.AList
import Mathlib.Data.List.Sort
import Myctk.Lib.Traversal

/-! `Graph::Build` (`didagle/graph.cpp`, `didagle/graph_vertex.cpp`): from the vertices of a script to the table of nodes and the
    edges between them. -/

namespace Myctk.Didagle

inductive VertexResult where
  | invalid
  | ok
  | err
  | all
  deriving DecidableEq

def VertexResult.bits : VertexResult → Nat
  | .invalid => 0
  | .ok => 1
  | .err => 2
  | .all => 3

structure GraphData where
  id : String
  field : String
  aggregate : List String
  required : Bool
  move : Bool
  isExtern : Bool
  isInOut : Bool
  moveFromWhenSkipped : String

structure Vertex where
  id : String
  processor : String
  /-- The `match` of every entry of `select_args`. -/
  selectArgs : List String
  cond : String
  expect : String
  expectDeps : List String
  expectConfig : String
  isStart : Bool
  cluster : String
  graph : String
  successor : List String
  successorOnOk : List String
  successorOnErr : List String
  consequent : List String
  alternative : List String
  deps : List String
  depsOnOk : List String
  depsOnErr : List String
  input : List GraphData
  output : List GraphData
  ignoreProcessorExecuteError : Bool
  isIdGenerated : Bool

def Vertex.empty : Vertex :=
  ⟨"", "", [], "", "", [], "", false, "", "", [], [], [], [], [], [], [], [], [], [], true, false⟩

def Vertex.isCondVertex (n : Vertex) : Bool := n.cond ≠ ""

structure FieldId where
  name : String
  isExtern : Bool
  isInOut : Bool

structure Cluster where
  name : String
  defaultExprProcessor : String
  configSetting : List String
  strictDsl : Bool
  processors : String → Option (List FieldId × List String)

structure Graph where
  name : String
  vertex : List Vertex

def isCondExpr (text : String) : Bool := text.toList.any fun c => !c.isAlpha && !c.isDigit && c ≠ '_'

def Cluster.containsConfigSetting (c : Cluster) (name : String) : Bool :=
  c.configSetting.any fun cfg =>
    if name.toList.head? = some '!' then cfg.toList = name.toList.tail else cfg = name

/-- Inserting into a `std::set`. -/
def insertId (id : String) (ids : List String) : List String := if id ∈ ids then ids else ids.orderedInsert (· ≤ ·) id

def fillInput (input : List GraphData) (field : FieldId) : List GraphData :=
  match input.findIdx? fun d => d.field = field.name with
  | none => input ++ [⟨field.name, field.name, [], false, field.isInOut, field.isExtern, field.isInOut, ""⟩]
  | some i =>
    if field.isInOut then
      input.modify i fun d => { d with move := true, isInOut := true, isExtern := d.isExtern || field.isExtern }
    else input

def fillOutput (output : List GraphData) (name : String) : List GraphData :=
  if output.any fun d => d.field = name then output
  else output ++ [⟨name, name, [], false, false, false, false, ""⟩]

def Vertex.fillInputOutput (c : Cluster) (n : Vertex) : Option Vertex :=
  if n.processor = "" then some n
  else
    (c.processors n.processor).map fun (inputs, outputs) =>
      { n with input := inputs.foldl fillInput n.input, output := outputs.foldl fillOutput n.output }

def Vertex.filled (c : Cluster) (n : Vertex) : Option Vertex :=
  match n.fillInputOutput c with
  | some n' => some n'
  | none => if c.strictDsl then none else some n

def GraphData.named (d : GraphData) : Option GraphData :=
  if d.field = "" then none else if d.id = "" then some { d with id := d.field } else some d

inductive Ref where
  | declared (i : Nat)
  | generated (j : Nat)
  deriving DecidableEq

structure Nodes where
  declared : List Vertex
  generated : List Vertex
  nodes : AList fun _ : String => Ref
  dataMappingTable : AList fun _ : String => Ref
  idx : Nat
  generatedCondNodes : AList fun _ : String => Nat

def Nodes.empty : Nodes := ⟨[], [], ∅, ∅, 0, ∅⟩

def Nodes.vertex? (b : Nodes) : Ref → Option Vertex
  | .declared i => b.declared[i]?
  | .generated j => b.generated[j]?

def Nodes.refs (b : Nodes) : List Ref :=
  (List.range b.declared.length).map .declared ++ (List.range b.generated.length).map .generated

def generateNodeId (graph : String) (idx : Nat) : String := graph ++ "_" ++ toString idx

def Vertex.mergeSuccessor (n : Vertex) : Vertex :=
  { n with
      successorOnOk := n.consequent.foldl (fun ids id => insertId id ids) n.successorOnOk
      successorOnErr := n.alternative.foldl (fun ids id => insertId id ids) n.successorOnErr }

def Nodes.complete (c : Cluster) (graph : String) (b : Nodes) (n : Vertex) : Nodes × Vertex :=
  let n := if n.processor = "" ∧ n.cond ≠ "" then { n with processor := c.defaultExprProcessor } else n
  let (b, n) :=
    if n.id = "" then
      if n.processor = "" then
        ({ b with idx := b.idx + 1 }, { n with id := generateNodeId graph b.idx, isIdGenerated := true })
      else (b, { n with id := n.processor })
    else (b, n)
  (b, if n.graph ≠ "" ∧ (n.cluster = "." ∨ n.cluster = "") then { n with cluster := c.name } else n)

def condVertex (c : Cluster) (id cond : String) (user : Vertex) : Vertex :=
  { Vertex.empty with
      id, processor := c.defaultExprProcessor, cond, isIdGenerated := true
      deps := if user.expectDeps ≠ [] then user.expectDeps else user.deps
      depsOnErr := if user.expectDeps ≠ [] then [] else user.depsOnErr
      depsOnOk := if user.expectDeps ≠ [] then [] else user.depsOnOk }

/-- `geneatedCondVertex`: the new vertex goes under its id whatever was there. -/
def Nodes.generatedCondVertex (c : Cluster) (graph : String) (b : Nodes) (cond : String) (user : Vertex) : Nodes :=
  let id := generateNodeId graph b.idx
  { b with
      generated := b.generated ++ [condVertex c id cond user]
      nodes := b.nodes.insert id (.generated b.generated.length)
      idx := b.idx + 1
      generatedCondNodes := b.generatedCondNodes.insert cond b.generated.length }

def Nodes.addExpect (c : Cluster) (graph : String) (b : Nodes) (n : Vertex) : Nodes × Vertex :=
  if n.expect = "" then (b, n)
  else
    let b := if (b.generatedCondNodes.lookup n.expect).isSome then b else b.generatedCondVertex c graph n.expect n
    match (b.generatedCondNodes.lookup n.expect).bind fun j => b.generated[j]? with
    | none => (b, n)
    | some cond => (b, { n with depsOnOk := insertId cond.id n.depsOnOk })

/-- The outputs of a vertex in `_data_mapping_table`; `none` on a second producer. -/
def mapOutputs (r : Ref) : List GraphData → (AList fun _ : String => Ref) → Option (AList fun _ : String => Ref)
  | [], table => some table
  | d :: output, table => if (table.lookup d.id).isSome then none else mapOutputs r output (table.insert d.id r)

/-- What the first loop of `Build` does with a vertex. -/
def Nodes.add (c : Cluster) (graph : String) (b : Nodes) (n : Vertex) : Option Nodes := do
  let (b, n) := b.complete c graph n
  if n.expect ≠ "" ∧ n.expectConfig ≠ "" then none
  else if n.expectConfig ≠ "" ∧ !c.containsConfigSetting n.expectConfig then none
  else
    let (b, n) := b.addExpect c graph n
    if (b.nodes.lookup n.id).isSome then none
    else
      let r := Ref.declared b.declared.length
      let n ← n.mergeSuccessor.filled c
      let output ← n.output.mapM GraphData.named
      let dataMappingTable ← mapOutputs r output b.dataMappingTable
      let input ← n.input.mapM GraphData.named
      some { b with
        declared := b.declared ++ [{ n with input, output }], nodes := b.nodes.insert n.id r, dataMappingTable }

/-- The edges: the dependencies of a vertex in the order of `_deps_idx`, with the results that they expect, and
    its successors. -/
structure Edges where
  deps : Ref → List (Ref × VertexResult)
  successors : Ref → List Ref

def Edges.none : Edges := ⟨fun _ => [], fun _ => []⟩

def Edges.depend (this v : Ref) (expected : VertexResult) (e : Edges) : Edges where
  deps := Function.update e.deps this
    (if v ∈ (e.deps this).map Prod.fst then e.deps this else e.deps this ++ [(v, expected)])
  successors := Function.update e.successors v
    (if this ∈ e.successors v then e.successors v else e.successors v ++ [this])

section
variable (c : Cluster) (b : Nodes)

def buildDeps (this : Ref) (expected : VertexResult) (ids : List String) (e : Edges) : Option Edges :=
  ids.foldlM (fun e id => (b.nodes.lookup id).map fun v => e.depend this v expected) e

def buildSuccessors (this : Ref) (expected : VertexResult) (ids : List String) (e : Edges) : Option Edges :=
  ids.foldlM (fun e id => (b.nodes.lookup id).map fun v => e.depend v this expected) e

/-- A dependency on the producer of the data `id`. -/
def buildInput (this : Ref) (data : GraphData) (e : Edges) (id : String) : Option Edges :=
  match b.dataMappingTable.lookup id with
  | none => if data.isExtern then some e else none
  | some v =>
    if data.aggregate = [] ∧ data.isInOut ∧ v = this then some e
    else some (e.depend this v (if data.required then .ok else .all))

def buildVertex (this : Ref) (n : Vertex) (e : Edges) : Option Edges := do
  if n.selectArgs.any fun text => !isCondExpr text && !c.containsConfigSetting text then none
  else
    let e ← buildDeps b this .all n.deps e
    let e ← buildDeps b this .ok n.depsOnOk e
    let e ← buildDeps b this .err n.depsOnErr e
    let e ← buildSuccessors b this .all n.successor e
    let e ← buildSuccessors b this .ok n.successorOnOk e
    let e ← buildSuccessors b this .err n.successorOnErr e
    n.input.foldlM (fun e data =>
      (if data.aggregate = [] then [data.id] else data.aggregate).foldlM (buildInput b this data) e) e

def verify (e : Edges) (this : Ref) (n : Vertex) : Bool :=
  if n.isStart then n.deps = [] && n.depsOnOk = [] && n.depsOnErr = []
  else !((e.successors this).isEmpty && (e.deps this).isEmpty)

def Nodes.entries : List (Ref × Vertex) :=
  (b.declared.mapIdx fun i n => (.declared i, n)) ++ b.generated.mapIdx fun j n => (.generated j, n)

end

structure Built extends Nodes, Edges

def findVertexInSuccessors (successors : Ref → List Ref) : Nat → Ref → Ref → Option Bool
  | 0, _, _ => none
  | fuel + 1, u, v =>
    if v ∈ successors u then some true
    else (successors u).anyM fun s => findVertexInSuccessors successors fuel s v

def Built.testCircle (b : Built) (fuel : Nat) : Option Bool :=
  (b.nodes.entries.map Sigma.snd).anyM fun v => findVertexInSuccessors b.successors fuel v v

/-- `Build` up to the circle test. -/
def Graph.link (c : Cluster) (g : Graph) : Option Built := do
  let b ← g.vertex.foldlM (fun b n => b.add c g.name n) Nodes.empty
  let e ← b.entries.foldlM (fun e p => buildVertex c b p.1 p.2 e) Edges.none
  if b.entries.all fun p => verify e p.1 p.2 then some { b with toNodes := b, toEdges := e } else none

def Graph.build (c : Cluster) (g : Graph) (fuel : Nat) : Option (Option Built) :=
  match g.link c with
  | none => some none
  | some b =>
    (b.testCircle fuel).map fun circle =>
      if circle then none
      else if b.nodes.entries = [] ∧ b.generated = [] then none
      else some b

/-! What a graph is after `Build`: the table leads to vertices, the two directions of an edge agree, and where
    the ids are distinct the circle test rules out every circle. -/

open Lib Didagle.Graph Relation List Option Function Nodes AList Sigma

structure Nodes.Wf (b : Nodes) : Prop where
  named : ∀ id r, b.nodes.lookup id = some r → ∃ n, b.vertex? r = some n ∧ n.id = id
  listed : ∀ r n, b.vertex? r = some n → (b.nodes.lookup n.id).isSome
  produced : ∀ id r, b.dataMappingTable.lookup id = some r → ∃ n, b.vertex? r = some n

lemma Nodes.wf_empty : empty.Wf where
  named id r found := by simp [empty] at found
  listed r n found := by cases r <;> simp [empty, vertex?] at found
  produced id r found := by simp [empty] at found

/-- `b'` is `b` with the vertex `n` at the new place `r`. -/
structure Nodes.Adds (b b' : Nodes) (r : Ref) (n : Vertex) : Prop where
  fresh : b.vertex? r = none
  vertex : ∀ r', b'.vertex? r' = if r' = r then some n else b.vertex? r'
  nodes : b'.nodes = b.nodes.insert n.id r
  produced : ∀ id r', b'.dataMappingTable.lookup id = some r' → r' = r ∨ b.dataMappingTable.lookup id = some r'

variable {r v : Ref} {g : Graph} {fuel : Nat}

lemma Nodes.Adds.keeps {b b' : Nodes} {r' : Ref} {n n' : Vertex} (adds : b.Adds b' r n)
    (found : b.vertex? r' = some n') : b'.vertex? r' = some n' := by
  rw [adds.vertex, if_neg, found]
  rintro rfl
  rw [adds.fresh] at found
  cases found

lemma Nodes.Adds.wf {b b' : Nodes} {n : Vertex} (adds : b.Adds b' r n) (wf : b.Wf) : b'.Wf where
  named id r' found := by
    rw [adds.nodes] at found
    by_cases same : id = n.id
    · subst same
      rw [lookup_insert, some.injEq] at found
      exact ⟨n, by rw [adds.vertex, if_pos found.symm], rfl⟩
    · rw [lookup_insert_ne same] at found
      obtain ⟨n', there, named⟩ := wf.named id r' found
      exact ⟨n', adds.keeps there, named⟩
  listed r' n' found := by
    rw [adds.nodes]
    by_cases same : n'.id = n.id
    · rw [same, lookup_insert]
      rfl
    · rw [lookup_insert_ne same]
      rw [adds.vertex] at found
      split at found
      · simp only [some.injEq] at found
        exact absurd (congrArg Vertex.id found.symm) same
      · exact wf.listed r' n' found
  produced id r' found := by
    rcases adds.produced id r' found with rfl | old
    · exact ⟨n, by rw [adds.vertex, if_pos rfl]⟩
    · obtain ⟨n', there⟩ := wf.produced id r' old
      exact ⟨n', adds.keeps there⟩

lemma getElem?_append_singleton {α : Type} (xs : List α) (x : α) (i : Nat) :
    (xs ++ [x])[i]? = if i = xs.length then some x else xs[i]? := by
  split
  · next same => simp [same]
  · next other =>
    rcases Nat.lt_or_gt_of_ne other with below | above
    · rw [getElem?_append_left below]
    · rw [getElem?_eq_none (by simp; omega), getElem?_eq_none (by omega)]

section
variable {c : Cluster} {graph : String} {b b' : Nodes} {n : Vertex}

lemma Nodes.complete_eq (c : Cluster) (graph : String) (b : Nodes) (n : Vertex) :
    ∃ idx, (b.complete c graph n).1 = { b with idx } := by
  simp only [complete]
  repeat' split
  all_goals exact ⟨_, rfl⟩

lemma Nodes.Wf.complete (wf : b.Wf) : (b.complete c graph n).1.Wf := by
  obtain ⟨idx, kept⟩ := b.complete_eq c graph n
  rw [kept]
  exact ⟨wf.named, wf.listed, wf.produced⟩

lemma Nodes.adds_generatedCondVertex (cond : String) : b.Adds (b.generatedCondVertex c graph cond n) (.generated b.generated.length)
      (condVertex c (generateNodeId graph b.idx) cond n) := by
  refine ⟨by simp [vertex?], fun r' => ?_, rfl, fun id r' found => .inr found⟩
  cases r' with
  | declared i => simp [vertex?, generatedCondVertex]
  | generated j => simp only [vertex?, generatedCondVertex, getElem?_append_singleton, Ref.generated.injEq]

lemma Nodes.Wf.addExpect (wf : b.Wf) : (b.addExpect c graph n).1.Wf := by
  have generated : ∀ cond, (b.generatedCondVertex c graph cond n).Wf := fun cond =>
    (adds_generatedCondVertex cond).wf wf
  simp only [Nodes.addExpect]
  split
  · exact wf
  · split <;> split <;> first | exact wf | exact generated _

lemma mapOutputs_lookup {r : Ref} {output : List GraphData} {table table' : AList fun _ : String => Ref}
    (maps : mapOutputs r output table = some table') (id : String) (r' : Ref) (found : table'.lookup id = some r') :
    r' = r ∨ table.lookup id = some r' := by
  induction output generalizing table with
  | nil =>
    simp only [mapOutputs, some.injEq] at maps
    exact .inr (maps ▸ found)
  | cons d output ih =>
    simp only [mapOutputs] at maps
    split at maps
    · cases maps
    · rcases ih maps with same | old
      · exact .inl same
      · by_cases here : id = d.id
        · rw [here, lookup_insert, some.injEq] at old
          exact .inl old.symm
        · exact .inr (lookup_insert_ne here ▸ old)

lemma Vertex.filled_id {m : Vertex} (filled : n.filled c = some m) : m.id = n.id := by
  simp only [Vertex.filled, Vertex.fillInputOutput] at filled
  split at filled
  · next m' done =>
    split at done
    · cases done; cases filled; rfl
    · obtain ⟨fields, -, rfl⟩ := map_eq_some_iff.mp done
      cases filled
      rfl
  · split at filled
    · cases filled
    · cases filled
      rfl

lemma Nodes.adds_add (adds : b.add c graph n = some b') :
    ∃ m b2, b2 = ((b.complete c graph n).1.addExpect c graph (b.complete c graph n).2).1 ∧
      b2.Adds b' (.declared b2.declared.length) m ∧ b2.nodes.lookup m.id = none ∧
      b'.generated = b2.generated ∧ b'.generatedCondNodes = b2.generatedCondNodes := by
  simp only [add] at adds
  rcases completed : b.complete c graph n with ⟨b1, n1⟩
  rw [completed] at adds
  rcases expected : b1.addExpect c graph n1 with ⟨b2, n2⟩
  simp only [expected] at adds
  split_ifs at adds with _ _ taken
  simp only [bind_eq_bind, bind_eq_some_iff, some.injEq] at adds
  obtain ⟨n3, filled, output, _, table, maps, input, _, rfl⟩ := adds
  refine ⟨{ n3 with input, output }, b2, rfl, ⟨by simp [vertex?], fun r' => ?_, rfl, mapOutputs_lookup maps⟩, ?_, rfl, rfl⟩
  · cases r' with
    | declared i => simp only [vertex?, getElem?_append_singleton, Ref.declared.injEq]
    | generated j => simp [vertex?]
  · rw [not_isSome_iff_eq_none, expected] at taken
    exact Vertex.filled_id filled ▸ taken

lemma Nodes.Wf.add (wf : b.Wf) (adds : b.add c graph n = some b') : b'.Wf := by
  obtain ⟨m, b2, rfl, adds, -, -⟩ := adds_add adds
  exact adds.wf wf.complete.addExpect

end

structure Edges.Wf (b : Nodes) (e : Edges) : Prop where
  mem_successors : ∀ u v, v ∈ e.successors u ↔ u ∈ (e.deps v).map Prod.fst
  deps_nodup : ∀ v, ((e.deps v).map Prod.fst).Nodup
  successors_nodup : ∀ u, (e.successors u).Nodup
  ends : ∀ u v, v ∈ e.successors u → (b.vertex? u).isSome ∧ (b.vertex? v).isSome

lemma Edges.wf_none (b : Nodes) : Edges.none.Wf b where
  mem_successors u v := by simp [Edges.none]
  deps_nodup v := by simp [Edges.none]
  successors_nodup u := by simp [Edges.none]
  ends u v member := by simp [Edges.none] at member

lemma Edges.mem_deps_depend (this v x y : Ref) (expected : VertexResult) (e : Edges) :
    x ∈ ((e.depend this v expected).deps y).map Prod.fst ↔ x ∈ (e.deps y).map Prod.fst ∨ (x = v ∧ y = this) := by
  by_cases here : y = this
  · subst here
    simp only [Edges.depend, update_self]
    split
    · next old => exact ⟨.inl, fun h => h.elim id fun same => same.1 ▸ old⟩
    · simp
  · simp only [Edges.depend, update_of_ne here, here, and_false, or_false]

lemma Edges.mem_successors_depend (this v x y : Ref) (expected : VertexResult) (e : Edges) :
    y ∈ (e.depend this v expected).successors x ↔ y ∈ e.successors x ∨ (x = v ∧ y = this) := by
  by_cases here : x = v
  · subst here
    simp only [Edges.depend, update_self]
    split
    · next old => exact ⟨.inl, fun h => h.elim id fun same => same.2 ▸ old⟩
    · simp
  · simp only [Edges.depend, update_of_ne here, here, false_and, or_false]

lemma Edges.Wf.depend {b : Nodes} {e : Edges} (wf : e.Wf b) {this : Ref} (expected : VertexResult)
    (left : (b.vertex? this).isSome) (right : (b.vertex? v).isSome) : (e.depend this v expected).Wf b where
  mem_successors x y := by rw [Edges.mem_successors_depend, Edges.mem_deps_depend, wf.mem_successors]
  deps_nodup y := by
    by_cases here : y = this
    · subst here
      simp only [Edges.depend, update_self]
      split
      · exact wf.deps_nodup y
      · next new =>
        rw [map_append, map_singleton, ← concat_eq_append, nodup_concat]
        exact ⟨new, wf.deps_nodup y⟩
    · simpa only [Edges.depend, update_of_ne here] using wf.deps_nodup y
  successors_nodup x := by
    by_cases here : x = v
    · subst here
      simp only [Edges.depend, update_self]
      split
      · exact wf.successors_nodup x
      · next new =>
        rw [← concat_eq_append, nodup_concat]
        exact ⟨new, wf.successors_nodup x⟩
    · simpa only [Edges.depend, update_of_ne here] using wf.successors_nodup x
  ends x y member := by
    rcases (Edges.mem_successors_depend ..).mp member with old | ⟨rfl, rfl⟩
    · exact wf.ends x y old
    · exact ⟨right, left⟩

section
variable {c : Cluster} {b : Nodes} {e e' : Edges} {this : Ref} {id : String} {expected : VertexResult} {ids : List String}

lemma Nodes.Wf.isSome_of_lookup (wf : b.Wf) {r : Ref} (found : b.nodes.lookup id = some r) : (b.vertex? r).isSome := by
  obtain ⟨n, there, _⟩ := wf.named id r found
  rw [there]
  rfl

lemma Edges.Wf.buildDeps (wf : e.Wf b) (table : b.Wf) (here : (b.vertex? this).isSome)
    (builds : buildDeps b this expected ids e = some e') : e'.Wf b := by
  refine foldlM_invariant (Edges.Wf b) wf (fun e id _ wf e' step => ?_) builds
  obtain ⟨v, found, rfl⟩ := map_eq_some_iff.mp step
  exact wf.depend expected here (table.isSome_of_lookup found)

lemma Edges.Wf.buildSuccessors (wf : e.Wf b) (table : b.Wf) (here : (b.vertex? this).isSome)
    (builds : buildSuccessors b this expected ids e = some e') : e'.Wf b := by
  refine foldlM_invariant (Edges.Wf b) wf (fun e id _ wf e' step => ?_) builds
  obtain ⟨v, found, rfl⟩ := map_eq_some_iff.mp step
  exact wf.depend expected (table.isSome_of_lookup found) here

lemma Edges.Wf.buildInput (wf : e.Wf b) (table : b.Wf) (here : (b.vertex? this).isSome) {data : GraphData}
    (builds : buildInput b this data e id = some e') : e'.Wf b := by
  simp only [Didagle.buildInput] at builds
  split at builds
  · split at builds
    · exact some.inj builds ▸ wf
    · cases builds
  · next v found =>
    split at builds
    · exact some.inj builds ▸ wf
    · obtain ⟨n, there⟩ := table.produced id v found
      exact some.inj builds ▸ wf.depend _ here (by rw [there]; rfl)

lemma Edges.Wf.buildVertex (wf : e.Wf b) (table : b.Wf) {n : Vertex} (here : (b.vertex? this).isSome)
    (builds : buildVertex c b this n e = some e') : e'.Wf b := by
  simp only [Didagle.buildVertex] at builds
  split at builds
  · cases builds
  · simp only [bind_eq_bind, bind_eq_some_iff] at builds
    obtain ⟨e1, deps, e2, depsOnOk, e3, depsOnErr, e4, successor, e5, successorOnOk, e6, successorOnErr, inputs⟩ := builds
    have wf3 := ((wf.buildDeps table here deps).buildDeps table here depsOnOk).buildDeps table here depsOnErr
    have wf6 := ((wf3.buildSuccessors table here successor).buildSuccessors table here successorOnOk).buildSuccessors
      table here successorOnErr
    exact foldlM_invariant (Edges.Wf b) wf6 (fun e data _ wf e' step =>
      foldlM_invariant (Edges.Wf b) wf (fun e id _ wf e' step => wf.buildInput table here step) step) inputs

end

lemma Nodes.mem_entries {b : Nodes} {n : Vertex} : (r, n) ∈ b.entries ↔ b.vertex? r = some n := by
  cases r <;> simp [entries, vertex?, mem_mapIdx, List.getElem?_eq_some_iff]

lemma Graph.nodes_of_link {c : Cluster} {b : Built} (links : g.link c = some b) :
    g.vertex.foldlM (fun b n => b.add c g.name n) empty = some b.toNodes := by
  simp only [link, bind_eq_bind, bind_eq_some_iff] at links
  obtain ⟨nodes, adds, edges, -, verified⟩ := links
  split at verified
  · cases verified
    exact adds
  · cases verified

lemma Graph.link_of_build {c : Cluster} {b : Built} (builds : g.build c fuel = some (some b)) : g.link c = some b := by
  simp only [build] at builds
  split at builds
  · cases builds
  · next b' links =>
    obtain ⟨circle, -, rest⟩ := map_eq_some_iff.mp builds
    split_ifs at rest
    cases rest
    exact links

lemma Graph.link_wf {c : Cluster} {b : Built} (links : g.link c = some b) : b.toNodes.Wf ∧ b.toEdges.Wf b.toNodes := by
  simp only [link, bind_eq_bind, bind_eq_some_iff] at links
  obtain ⟨nodes, adds, edges, builds, verified⟩ := links
  split at verified
  · have table : nodes.Wf := foldlM_invariant Wf wf_empty (fun _ _ _ wf _ step => wf.add step) adds
    have wf : edges.Wf nodes :=
      foldlM_invariant (Edges.Wf nodes) (Edges.wf_none nodes)
        (fun _ p member wf _ step => wf.buildVertex table (by rw [mem_entries.mp member]; rfl) step) builds
    cases verified
    exact ⟨table, wf⟩
  · cases verified

lemma not_reaches_of_find {successors : Ref → List Ref} {u : Ref}
    (missed : findVertexInSuccessors successors fuel u v = some false) : ¬ TransGen (fun u v => v ∈ successors u) u v := by
  induction fuel generalizing u with
  | zero => cases missed
  | succ fuel ih =>
    simp only [findVertexInSuccessors] at missed
    split at missed
    · cases missed
    · next absent =>
      intro path
      obtain ⟨s, edge, rest⟩ := TransGen.head'_iff.mp path
      rcases reflTransGen_iff_eq_or_transGen.mp rest with rfl | rest
      · exact absent edge
      · exact ih (anyM_eq_some_false.mp missed s edge) rest

structure Built.Sound (b : Built) : Prop where
  wf : b.toEdges.Wf b.toNodes
  values_nodup : (b.nodes.entries.map snd).Nodup
  mem_values : ∀ r, r ∈ b.nodes.entries.map snd ↔ (b.vertex? r).isSome
  nonempty : b.nodes.entries ≠ []
  acyclic : ∀ v, ¬ Relation.TransGen (fun u v => v ∈ b.successors u) v v

lemma Nodes.Wf.isSome_of_mem_values {b : Nodes} (wf : b.Wf) (member : r ∈ b.nodes.entries.map snd) : (b.vertex? r).isSome := by
  obtain ⟨⟨id, r⟩, entry, rfl⟩ := mem_map.mp member
  exact wf.isSome_of_lookup (mem_lookup_iff.mpr entry)

lemma Nodes.Wf.mem_values {b : Nodes} (wf : b.Wf) (distinct : (b.entries.map fun p => p.2.id).Nodup) (r : Ref) :
    r ∈ b.nodes.entries.map snd ↔ (b.vertex? r).isSome := by
  constructor
  · exact wf.isSome_of_mem_values
  · intro here
    obtain ⟨n, there⟩ := isSome_iff_exists.mp here
    obtain ⟨r', found⟩ := isSome_iff_exists.mp (wf.listed r n there)
    obtain ⟨n', there', same⟩ := wf.named n.id r' found
    -- The vertex in the table under the id of `n` is `n`, as no other vertex has that id.
    have unique : (r', n') = (r, n) :=
      inj_on_of_nodup_map distinct (mem_entries.mpr there') (mem_entries.mpr there) same
    obtain ⟨rfl, rfl⟩ := Prod.mk.inj unique
    exact mem_map.mpr ⟨⟨n'.id, r'⟩, mem_lookup_iff.mp found, rfl⟩

lemma Nodes.Wf.values_nodup {b : Nodes} (wf : b.Wf) : (b.nodes.entries.map snd).Nodup := by
  refine List.Nodup.map_on (fun x member y member' same => ?_) b.nodes.nodupKeys.nodup
  obtain ⟨id, r⟩ := x
  obtain ⟨id', r'⟩ := y
  obtain ⟨n, there, rfl⟩ := wf.named id r (mem_lookup_iff.mpr member)
  obtain ⟨n', there', rfl⟩ := wf.named id' r' (mem_lookup_iff.mpr member')
  obtain rfl : r = r' := same
  rw [there] at there'
  cases there'
  rfl

lemma Graph.build_acyclic {c : Cluster} {b : Built} (builds : g.build c fuel = some (some b)) :
    b.toNodes.Wf ∧ b.toEdges.Wf b.toNodes ∧ (∀ v ∈ b.nodes.entries.map snd, ¬ TransGen (fun u v => v ∈ b.successors u) v v) ∧
      ¬ (b.nodes.entries = [] ∧ b.generated = []) := by
  simp only [build] at builds
  split at builds
  · cases builds
  · next b' links =>
    obtain ⟨circle, tested, rest⟩ := map_eq_some_iff.mp builds
    split_ifs at rest with found empty
    cases rest
    obtain ⟨table, wf⟩ := link_wf links
    simp only [Bool.not_eq_true] at found
    rw [Built.testCircle, found] at tested
    exact ⟨table, wf, fun v member => not_reaches_of_find (anyM_eq_some_false.mp tested v member), empty⟩

lemma Graph.build_sound {c : Cluster} {b : Built} (builds : g.build c fuel = some (some b))
    (distinct : (b.entries.map fun p => p.2.id).Nodup) : b.Sound := by
  obtain ⟨table, wf, acyclic, nonempty⟩ := build_acyclic builds
  have members := table.mem_values distinct
  refine ⟨wf, table.values_nodup, members, fun none => ?_, fun v path => ?_⟩
  · -- Without entries there would be no vertex either, and the graph would have been turned down.
    refine nonempty ⟨none, eq_nil_iff_forall_not_mem.mpr fun n member => ?_⟩
    obtain ⟨j, there⟩ := mem_iff_getElem?.mp member
    have := (members (.generated j)).mpr (by simp [vertex?, there])
    simp [none] at this
  · obtain ⟨s, edge, _⟩ := TransGen.head'_iff.mp path
    exact acyclic v ((members v).mpr (wf.ends v s edge).1) path

/-! For examples: a cluster in which every processor exists and has no fields, and vertices of it. -/

def sampleCluster : Cluster := ⟨"s", "expr", [], false, fun _ => some ([], [])⟩

def sampleVertex (id : String) (deps depsOnOk : List String) : Vertex := { Vertex.empty with id, processor := id, deps, depsOnOk }

end Myctk.Didagle
