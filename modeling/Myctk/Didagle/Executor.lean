import Mathlib.Data.Multiset.Bind
import Myctk.Didagle.Graph

/-! One execution of a graph (`didagle/graph_executor.cpp`). -/

namespace Myctk.Didagle
open Function

/-- The contexts of a graph after `GraphContext::Setup`, in the order in which the tables list them. -/
structure Contexts (ν : Type) where
  table : List ν
  /-- `_deps_idx` by index, with `_deps_expected_results`. -/
  deps : ν → List (ν × VertexResult)
  /-- `_successor_ctxs`. -/
  successors : ν → List ν
  processor : ν → Bool
  subgraph : ν → Bool
  isIOProcessor : ν → Bool
  /-- `ignore_processor_execute_error`, of a vertex that is not a condition. -/
  ignoresError : ν → Bool

structure Built.Setup (b : Built) (x : Contexts Ref) : Prop where
  table : x.table.Perm (b.nodes.entries.map Sigma.snd)
  deps : x.deps = b.deps
  successors : ∀ v, (x.successors v).Perm (b.successors v)
  ignoresError : ∀ v n, b.vertex? v = some n → x.ignoresError v = (n.ignoreProcessorExecuteError && !n.isCondVertex)

def Built.contexts (b : Built) : Contexts Ref where
  table := b.nodes.entries.map Sigma.snd
  deps := b.deps
  successors := b.successors
  processor _ := true
  subgraph _ := false
  isIOProcessor _ := false
  ignoresError v := (b.vertex? v).any fun n => n.ignoreProcessorExecuteError && !n.isCondVertex

lemma Built.setup_contexts (b : Built) : b.Setup b.contexts where
  table := .refl _
  deps := rfl
  successors _ := .refl _
  ignoresError v n there := by simp [Built.contexts, there]

inductive Event (ν : Type) where
  | start (v : ν)
  | finish (v : ν)
  | done
  deriving DecidableEq

inductive Task (ν : Type) where
  /-- `Execute` is called. -/
  | execute (v : ν)
  | running (v : ν)
  /-- `FinishVertexProcess` is called. -/
  | finish (v : ν) (code : Int)
  /-- The loop of `OnVertexDone`, with the successors still to tell and those found ready. -/
  | successors (v : ν) (rest ready : List ν)
  /-- Inside `SetDependencyResult` of `w`: the result is stored, the counter not yet read. -/
  | stored (v w : ν) (last : VertexResult) (rest ready : List ν)
  /-- `ExecuteReadyVertexs` with the vertices still to hand over and the one to execute at the end. -/
  | dispatch (others : List ν) (here : ν)
  | done

structure Memory (ν : Type) where
  waitingNum : ν → Nat
  depsResults : ν → Nat → VertexResult
  result : ν → VertexResult
  joinVertexNum : Nat

variable {ν : Type} [DecidableEq ν]

namespace Contexts
variable (x : Contexts ν)

def reset : Memory ν where
  waitingNum v := (x.deps v).length
  depsResults _ _ := .invalid
  result _ := .invalid
  joinVertexNum := x.table.length

def dependencyIndex (w v : ν) : Nat := ((x.deps w).map Prod.fst).idxOf v

def matchesExpected (m : Memory ν) (v : ν) : Bool :=
  (x.processor v || x.subgraph v) && (x.deps v).zipIdx.all fun (d, i) =>
    m.depsResults v i ≠ .invalid && (m.depsResults v i).bits &&& d.2.bits ≠ 0

def executeReadyVertexs : List ν → Multiset (Task ν)
  | [] => 0
  | [v] => {.execute v}
  | v :: w :: ready =>
    let here := ((v :: w :: ready).find? fun u => !x.processor u || !x.isIOProcessor u).getD v
    {.dispatch ((v :: w :: ready).filter (· ≠ here)) here}

def onVertexDone (v : ν) (join : Nat) : Task ν := if join = 1 then .done else .successors v (x.successors v) []

/-- What `OnVertexDone` does with the counter that `SetDependencyResult` returned. -/
def told (v w : ν) (waitNum : Nat) (rest ready : List ν) : Multiset (Task ν) :=
  if waitNum = 1 then
    if rest = [] ∧ ready = [] then {.execute w} else {.successors v rest (ready ++ [w])}
  else {.successors v rest ready}

inductive Fires : Memory ν → Task ν → Memory ν → Multiset (Task ν) → List (Event ν) → Prop
  /-- A vertex is skipped when its dependencies do not match, by its `expect_config`, after the deadline, or when its
      inputs cannot be injected. -/
  | skip (m : Memory ν) (v : ν) : Fires m (.execute v) m {.finish v 3} [.start v]
  | run (m : Memory ν) (v : ν) (expected : x.matchesExpected m v) : Fires m (.execute v) m {.running v} [.start v]
  | report (m : Memory ν) (v : ν) (rc : Int) :
      Fires m (.running v) m {.finish v (if x.processor v ∧ x.ignoresError v then 0 else rc)} []
  | finish (m : Memory ν) (v : ν) (code : Int) :
      Fires m (.finish v code)
        { m with
            result := update m.result v (if code ≠ 0 then .err else .ok)
            joinVertexNum := m.joinVertexNum - 1 }
        {x.onVertexDone v m.joinVertexNum} [.finish v]
  | store (m : Memory ν) (v w : ν) (rest ready : List ν) :
      Fires m (.successors v (w :: rest) ready)
        { m with depsResults :=
            update m.depsResults w (update (m.depsResults w) (x.dependencyIndex w v) (m.result v)) }
        {.stored v w (m.depsResults w (x.dependencyIndex w v)) rest ready} []
  | count (m : Memory ν) (v w : ν) (last : VertexResult) (rest ready : List ν) :
      Fires m (.stored v w last rest ready)
        { m with waitingNum :=
            if last = .invalid then update m.waitingNum w (m.waitingNum w - 1) else m.waitingNum }
        (told v w (m.waitingNum w) rest ready) []
  | leave (m : Memory ν) (v : ν) (ready : List ν) :
      Fires m (.successors v [] ready) m (x.executeReadyVertexs ready) []
  | hand (m : Memory ν) (v : ν) (others : List ν) (here : ν) :
      Fires m (.dispatch (v :: others) here) m {.execute v, .dispatch others here} []
  | keep (m : Memory ν) (here : ν) : Fires m (.dispatch [] here) m {.execute here} []
  | done (m : Memory ν) : Fires m .done m 0 [.done]

end Contexts

structure State (ν : Type) where
  memory : Memory ν
  tasks : Multiset (Task ν)
  events : List (Event ν)

namespace Contexts
variable (x : Contexts ν)

/-- `Execute` of the graph calls `ExecuteReadyVertexs` with the vertices that depend on nothing. -/
def init : State ν := ⟨x.reset, x.executeReadyVertexs (x.table.filter fun v => (x.deps v).isEmpty), []⟩

inductive Step : State ν → State ν → Prop
  | fire {m m' : Memory ν} {task : Task ν} {next : Multiset (Task ν)} {seen : List (Event ν)} (others : Multiset (Task ν))
      (events : List (Event ν)) (fires : x.Fires m task m' next seen) :
      Step ⟨m, task ::ₘ others, events⟩ ⟨m', next + others, events ++ seen⟩

inductive Execution : Nat → State ν → Prop
  | init : Execution 0 x.init
  | step {n : Nat} {s s' : State ν} (before : Execution n s) (step : x.Step s s') : Execution (n + 1) s'

end Contexts

/-! The data of a graph: `GraphDataContext` (`didagle/graph_processor_api.h`), and `ProcessorDI` (`didagle/graph_processor_di.cpp`)
    between it and the processors. -/

open List Prod

variable {α : Type}

structure DIObjectKey where
  name : String
  id : Nat
  deriving DecidableEq

inductive Place where
  | own
  /-- A context that is reached through `_parent`, the nearest first. -/
  | outer (i : Nat)
  /-- `DIContainer`. -/
  | container
  | child (v : Ref)
  deriving DecidableEq

abbrev Cell : Type := Place × DIObjectKey

/-- The values in the cells, `none` for the null pointer. -/
abbrev Data (α : Type) : Type := Cell → Option α

/-- The contexts around that of a graph: the number of those behind `_parent`, and `_executed_childrens`. -/
structure Around where
  outer : Nat
  children : List Ref

/-- The cells that `Get` and `Move` try, in their order. -/
def Around.cells (a : Around) (move : Bool) (cell key : DIObjectKey) : List Cell :=
  (.own, cell) :: ((List.range a.outer).map fun i => (.outer i, key)) ++
    (if move then [] else [(.container, key)]) ++ a.children.map fun v => (.child v, key)

def Data.get (data : Data α) (cells : List Cell) : Option α := cells.findSome? data

def Data.move (data : Data α) (cells : List Cell) : Option α × Data α :=
  match cells.find? fun cell => (data cell).isSome with
  | none => (none, data)
  | some cell => (data cell, Function.update data cell none)

def Data.set (data : Data α) (cell : Cell) (v : Option α) : Data α := Function.update data cell v

structure Types where
  input : String → String → Nat
  output : String → String → Nat
  bool : Nat
  /-- `Move` hands out no `shared_ptr`. -/
  shared : Nat → Bool

/-- A field of a processor. -/
structure FieldData where
  name : String
  key : DIObjectKey
  isExtern : Bool
  isInOut : Bool

/-- `SetupInputOutputIds` for one entry of the script: the field gets the name of the data. -/
def setupId (strictDsl : Bool) (ids : List FieldData) (data : GraphData) : Option (List FieldData) :=
  match ids.findIdx? fun e => e.name = data.field with
  | none => if strictDsl then none else some ids
  | some i => some (ids.modify i fun e => { e with key := { e.key with name := data.id } })

def setupInputOutputIds (strictDsl : Bool) (fields : List FieldData) (config : List GraphData) : Option (List FieldData) :=
  config.foldlM (setupId strictDsl) fields

def Vertex.setup (c : Cluster) (types : Types) (n : Vertex) : Option (Option (List FieldData × List FieldData)) :=
  if c.strictDsl ∧ n.selectArgs.any isCondExpr ∧ (c.processors c.defaultExprProcessor).isNone then none
  else
    match if n.graph ≠ "" ∨ n.processor = "" then none else c.processors n.processor with
    | none => if c.strictDsl ∧ n.processor ≠ "" then none else some none
    | some (inputs, outputs) => do
      let inputs ← setupInputOutputIds c.strictDsl
        (inputs.map fun f => ⟨f.name, ⟨f.name, types.input n.processor f.name⟩, f.isExtern, f.isInOut⟩) n.input
      let outputs ← setupInputOutputIds c.strictDsl
        (outputs.map fun name => ⟨name, ⟨name, types.output n.processor name⟩, false, false⟩) n.output
      some (some (inputs, outputs))

def isVariable (name : String) : Bool := name.toList.head? = some '$'

/-- The name of the data, with a variable replaced; `none` where it is not set. -/
def dataName (vars : List Char → String) (name : String) : Option String :=
  if isVariable name then if vars name.toList.tail = "" then none else some (vars name.toList.tail) else some name

structure Request where
  cell : DIObjectKey
  key : DIObjectKey
  move : Bool

/-- What `InjectInputs` asks for. -/
def FieldData.request (shared : Nat → Bool) (vars : List Char → String) (e : FieldData) : Option Request :=
  if e.isInOut ∧ shared e.key.id then none
  else
    (dataName vars e.key.name).map fun name =>
      ⟨if e.isExtern then ⟨name, e.key.id⟩ else e.key, ⟨name, e.key.id⟩, e.isInOut⟩

/-- The cell that `CollectOutputs` sets. -/
def FieldData.target (registered : List DIObjectKey) (vars : List Char → String) (e : FieldData) : Option DIObjectKey :=
  if isVariable e.key.name then
    (dataName vars e.key.name).bind fun name => if ⟨name, e.key.id⟩ ∈ registered then some ⟨name, e.key.id⟩ else none
  else some e.key

def Data.inject (data : Data α) (a : Around) : Option Request → Option α × Data α
  | none => (none, data)
  | some r =>
    if r.move then data.move (a.cells true r.cell r.key) else (data.get (a.cells false r.cell r.key), data)

def Data.emit (data : Data α) (output : Nat → Option α) (cells : List (Cell × Nat)) : Data α :=
  cells.foldl (fun data p => data.set p.1 (output p.2)) data

section
variable {data data' : Data α} {cells : List Cell} {cell : Cell} {a : Around} {key : DIObjectKey} {r : Request}

lemma Around.mem_cells {move : Bool} {own : DIObjectKey} : cell ∈ a.cells move own key ↔
    cell = (.own, own) ∨ (∃ i < a.outer, cell = (.outer i, key)) ∨ (move = false ∧ cell = (.container, key)) ∨
      ∃ v ∈ a.children, cell = (.child v, key) := by
  cases move <;> simp [Around.cells, eq_comm]

def Request.Covers (r : Request) (cell : Cell) : Prop := cell = (.own, r.cell) ∨ (cell.1 ≠ .own ∧ cell.2 = r.key)

lemma Request.covers_of_mem {move : Bool} (member : cell ∈ a.cells move r.cell r.key) : r.Covers cell := by
  rcases Around.mem_cells.mp member with rfl | ⟨i, -, rfl⟩ | ⟨-, rfl⟩ | ⟨w, -, rfl⟩
  · exact .inl rfl
  · exact .inr ⟨by simp, rfl⟩
  · exact .inr ⟨by simp, rfl⟩
  · exact .inr ⟨by simp, rfl⟩

lemma Request.Covers.both {q : Request} (first : r.Covers cell) (second : q.Covers cell) : r.cell = q.cell ∨ r.key = q.key := by
  rcases first with rfl | ⟨elsewhere, key⟩
  · rcases second with same | ⟨elsewhere, -⟩
    · exact .inl (Prod.mk.inj same).2
    · exact absurd rfl elsewhere
  · rcases second with rfl | ⟨-, key'⟩
    · exact absurd rfl elsewhere
    · exact .inr (key.symm.trans key')

lemma Request.Covers.own (covers : r.Covers (.own, key)) : r.cell = key := by
  rcases covers with same | ⟨elsewhere, -⟩
  · exact (Prod.mk.inj same).2.symm
  · exact absurd rfl elsewhere

lemma Request.Covers.child {w : Ref} (covers : r.Covers (.child w, key)) : r.key = key := by
  rcases covers with same | ⟨-, same⟩
  · cases (Prod.mk.inj same).1
  · exact same.symm

lemma Data.get_congr (agree : ∀ cell ∈ cells, data cell = data' cell) : data.get cells = data'.get cells := by
  induction cells with
  | nil => rfl
  | cons first rest ih =>
    simp only [Data.get, findSome?_cons, agree first (mem_cons_self ..)] at ih ⊢
    rw [ih fun cell member => agree cell (mem_cons_of_mem _ member)]

lemma Data.get_eq_none_iff : data.get cells = none ↔ ∀ cell ∈ cells, data cell = none := findSome?_eq_none_iff

lemma Data.fst_move : (data.move cells).1 = data.get cells := by
  induction cells with
  | nil => rfl
  | cons first rest ih =>
    simp only [Data.move, Data.get, find?_cons, findSome?_cons] at ih ⊢
    cases here : data first with
    | none => simpa [here] using ih
    | some value => simp [here]

lemma Data.snd_move (data : Data α) (cells : List Cell) : (data.move cells).2 =
    ((cells.find? fun cell => (data cell).isSome).map fun cell => update data cell none).getD data := by
  rw [Data.move]
  cases cells.find? fun cell => (data cell).isSome <;> rfl

lemma Data.move_frame (absent : cell ∉ cells) : (data.move cells).2 cell = data cell := by
  rw [Data.snd_move]
  cases found : cells.find? fun cell => (data cell).isSome with
  | none => rfl
  | some other =>
    have different : cell ≠ other := fun same => absent (same ▸ mem_of_find?_eq_some found)
    exact update_of_ne different ..

lemma Data.find_congr (agree : ∀ cell ∈ cells, data cell = data' cell) :
    (cells.find? fun cell => (data cell).isSome) = cells.find? fun cell => (data' cell).isSome := by
  induction cells with
  | nil => rfl
  | cons first rest ih =>
    rw [find?_cons, find?_cons, agree first (mem_cons_self ..),
      ih fun cell member => agree cell (mem_cons_of_mem _ member)]

lemma Data.move_within (agree : ∀ cell ∈ cells, data cell = data' cell) (member : cell ∈ cells) :
    (data.move cells).2 cell = (data'.move cells).2 cell := by
  rw [Data.snd_move, Data.snd_move, Data.find_congr agree]
  cases cells.find? fun cell => (data' cell).isSome with
  | none => exact agree cell member
  | some other => simp [update_apply, agree cell member]

variable {output : Nat → Option α} {puts : List (Cell × Nat)}

lemma Data.emit_cons (put : Cell × Nat) : data.emit output (put :: puts) = (data.set put.1 (output put.2)).emit output puts := rfl

lemma Data.emit_frame (absent : cell ∉ puts.map fst) : data.emit output puts cell = data cell := by
  induction puts generalizing data with
  | nil => rfl
  | cons put puts ih =>
    simp only [map_cons, mem_cons, not_or] at absent
    obtain ⟨different, absent⟩ := absent
    rw [Data.emit_cons, ih absent]
    exact update_of_ne different ..

lemma Data.emit_within (member : cell ∈ puts.map fst) : data.emit output puts cell = data'.emit output puts cell := by
  induction puts generalizing data data' with
  | nil => cases member
  | cons put puts ih =>
    by_cases later : cell ∈ puts.map fst
    · exact ih later
    · have last : cell = put.1 := (mem_cons.mp member).resolve_right later
      rw [Data.emit_cons, Data.emit_cons, Data.emit_frame later, Data.emit_frame later, last]
      simp [Data.set, update_self]

lemma Data.fst_inject (a : Around) (r : Request) : (data.inject a (some r)).1 = data.get (a.cells r.move r.cell r.key) := by
  simp only [inject]
  split
  · next moves => rw [fst_move, moves]
  · next stays =>
    rw [Bool.not_eq_true] at stays
    rw [stays]

end

end Myctk.Didagle
