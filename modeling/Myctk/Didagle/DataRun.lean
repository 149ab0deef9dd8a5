import Myctk.Didagle.Executor
import Myctk.Lib.Threads

/-! What the vertices of a graph do with its data, one access at a time, in every order in which their threads can get to it. -/

namespace Myctk.Didagle
open Lib Data List Prod FieldData

variable {α : Type}

/-- What `GraphContext::Setup` makes of the vertices of a graph. -/
structure Wiring extends Contexts Ref where
  fields : Ref → Option (List FieldData × List FieldData)
  expectConfig : Ref → String
  /-- The entries of `select_args`: the flag that is looked up, or `none` for an expression. -/
  selects : Ref → List (Option Request)
  /-- The vertices with a subgraph, by `_child_idx`. -/
  children : List Ref
  reaches : Ref → List (DIObjectKey × Bool)
  provides : Ref → List DIObjectKey
  registered : List DIObjectKey
  shared : Nat → Bool
  /-- The type `bool`. -/
  bool : Nat

/-- `Get<bool>` of a name. -/
def flagRequest (bool : Nat) (name : String) : Request := ⟨⟨name, bool⟩, ⟨name, bool⟩, false⟩

namespace Wiring

variable (x : Wiring)

def inputs (v : Ref) : List FieldData := ((x.fields v).map fst).getD []

def outputs (v : Ref) : List FieldData := ((x.fields v).map snd).getD []

end Wiring

/-- `GraphContext::Setup` on a graph. -/
structure Built.Wires (c : Cluster) (types : Types) (b : Built) (x : Wiring) : Prop extends b.Setup x.toContexts where
  fields : ∀ v n, b.vertex? v = some n → v ∈ x.table → n.setup c types = some (x.fields v)
  processor : ∀ v, x.processor v = (x.fields v).isSome
  expectConfig : ∀ v n, b.vertex? v = some n → x.expectConfig v = n.expectConfig
  selects : ∀ v n, b.vertex? v = some n → x.selects v = n.selectArgs.map fun text =>
    if isCondExpr text ∧ (c.processors c.defaultExprProcessor).isSome then none else some (flagRequest types.bool text)
  /-- `Duplicate output name`. -/
  distinct : ((x.table.flatMap x.outputs).map key).Nodup
  /-- A successor without a context makes `SetupSuccessors` abort. -/
  successors_table : ∀ v ∈ x.table, ∀ w ∈ x.successors v, w ∈ x.table
  children : ∀ v, v ∈ x.children ↔ v ∈ x.table ∧ ∃ n, b.vertex? v = some n ∧ n.cluster ≠ ""
  subgraph : ∀ v n, b.vertex? v = some n → x.subgraph v = true → n.cluster ≠ ""
  registered : x.registered = x.table.flatMap (fun v =>
      ((x.inputs v).filter fun e => !e.isExtern).map key ++
        ((x.outputs v).filter fun e => !isVariable e.key.name).map key) ++
    c.configSetting.map fun name => ⟨name, types.bool⟩
  shared : x.shared = types.shared
  bool : x.bool = types.bool

inductive Action where
  /-- `Execute` looks at the results of the dependencies, and at the flag of `expect_config`, which may be negated. -/
  | start (flag : Option (Bool × Request))
  /-- `GetExecParams` comes to an entry of `select_args`. -/
  | select (i : Nat) (r : Option Request)
  | inject (r : Option Request)
  | execute
  | emit (cells : List (Cell × Nat))

/-- What the run of a graph depends on: the data that is `true`, the expressions of `select_args`, the number of the contexts
    behind `_parent`, what the processors report and give out, and the data that is there, settings included. -/
structure Environment (α : Type) where
  truth : α → Bool
  cond : Ref → Nat → Bool
  outer : Nat
  rc : Ref → List (Option α) → Int
  output : Ref → List (Option α) → Nat → Option α
  data : Data α

/-- The inputs are what a vertex has looked up: the flags up to the one that selects its arguments, and then its fields. -/
structure VertexState (α : Type) where
  done : Nat
  starts : Bool
  matched : Bool
  inputs : List (Option α)
  result : VertexResult

def VertexState.reset : VertexState α := ⟨0, false, false, [], .invalid⟩

abbrev RunState (α : Type) : Type := Threads.State Ref (VertexState α) Cell (Option α)

namespace Wiring

variable (x : Wiring) (vars : Ref → List Char → String)

def requests (v : Ref) : List (Option Request) :=
  if x.processor v then (x.inputs v).map fun e => e.request x.shared (vars v)
  else (x.reaches v).map fun (key, move) => some ⟨key, key, move⟩

def emits (v : Ref) : List (List (Cell × Nat)) :=
  if x.processor v then
    (x.outputs v).mapIdx fun i e => ((e.target x.registered (vars v)).map fun key => ((.own, key), i)).toList
  else [(x.provides v).mapIdx fun i key => ((.child v, key), i)]

/-- The lookups of `GetExecParams` and `InjectInputs`. -/
def asks (v : Ref) : List Action := (x.selects v).mapIdx .select ++ (x.requests vars v).map .inject

def expectation (v : Ref) : Option (Bool × Request) :=
  match (x.expectConfig v).toList with
  | [] => none
  | '!' :: name => some (true, flagRequest x.bool (.ofList name))
  | name => some (false, flagRequest x.bool (.ofList name))

def actions (v : Ref) : List Action :=
  .start (x.expectation v) :: x.asks vars v ++ .execute :: (x.emits vars v).map .emit

/-- The results of the dependencies are among those that the vertex expects. -/
def matchesDeps (result : Ref → VertexResult) (v : Ref) : Bool :=
  (x.processor v || x.subgraph v) && (x.deps v).all fun d => (result d.1).bits &&& d.2.bits ≠ 0

variable (env : Environment α)

def around : Around := ⟨env.outer, x.children⟩

/-- The code that `FinishVertexProcess` gets. -/
def code (v : Ref) (inputs : List (Option α)) : Int :=
  if x.processor v ∧ x.ignoresError v then 0 else env.rc v inputs

def flag (m : Data α) (r : Request) : Option α := m.get ((x.around env).cells false r.cell r.key)

/-- The flag of `expect_config`, where there is one. -/
def expected (m : Data α) (flag : Option (Bool × Request)) : Bool :=
  flag.all fun (negated, r) => (x.flag env m r).any env.truth != negated

def perform (v : Ref) (l : Ref → VertexState α) (m : Data α) : Action → VertexState α × Data α
  | .start flag =>
    ({ l v with starts := x.matchesDeps (fun u => (l u).result) v && x.expected env m flag }, m)
  | .select i r =>
    if (l v).starts ∧ (l v).matched = false then
      match r with
      | none => ({ l v with matched := env.cond v i }, m)
      | some r => ({ l v with matched := (x.flag env m r).any env.truth, inputs := (l v).inputs ++ [x.flag env m r] }, m)
    else (l v, m)
  | .inject r =>
    if (l v).starts then
      let (value, m) := m.inject (x.around env) r
      ({ l v with inputs := (l v).inputs ++ [value] }, m)
    else (l v, m)
  | .execute =>
    ({ l v with result := if (l v).starts ∧ x.code env v (l v).inputs = 0 then .ok else .err }, m)
  | .emit cells => (l v, if (l v).result = .ok then m.emit (env.output v (l v).inputs) cells else m)

def step (v : Ref) (l : Ref → VertexState α) (m : Data α) : VertexState α × Data α :=
  match (x.actions vars v)[(l v).done]? with
  | none => (l v, m)
  | some a => ({ (x.perform env v l m a).1 with done := (l v).done + 1 }, (x.perform env v l m a).2)

def Finished (l : Ref → VertexState α) (v : Ref) : Prop := (l v).done = (x.actions vars v).length

/-- `_waiting_num` is down to zero, and there is something left to do. -/
structure Ready (v : Ref) (l : Ref → VertexState α) : Prop where
  table : v ∈ x.table
  deps : ∀ d ∈ x.deps v, x.Finished vars l d.1
  left : (l v).done < (x.actions vars v).length

end Wiring

def Action.reads (a : Around) : Action → List Cell
  | .start (some (_, r)) | .select _ (some r) => a.cells false r.cell r.key
  | .inject (some r) => a.cells r.move r.cell r.key
  | _ => []

def Action.writes (a : Around) : Action → List Cell
  | .inject (some r) => if r.move then a.cells true r.cell r.key else []
  | .emit cells => cells.map fst
  | _ => []

namespace Wiring

variable (x : Wiring) (vars : Ref → List Char → String) (env : Environment α)

/-- The action comes to the data at all. -/
def active (v : Ref) (l : Ref → VertexState α) : Action → Bool
  | .start _ => x.matchesDeps (fun u => (l u).result) v
  | .select _ _ => (l v).starts && !(l v).matched
  | .inject _ => (l v).starts
  | .emit _ => (l v).result = .ok
  | .execute => false

def acting (v : Ref) (l : Ref → VertexState α) : Option Action :=
  ((x.actions vars v)[(l v).done]?).filter fun a => x.active v l a

def sees (v : Ref) : Set Ref := { u | u = v ∨ u ∈ (x.deps v).map fst }

variable {x vars env} {v : Ref} {l l' : Ref → VertexState α} {m m' : Data α} {a : Action}

lemma matchesDeps_congr {result result' : Ref → VertexResult} (agree : ∀ d ∈ x.deps v, result d.1 = result' d.1) :
    x.matchesDeps result v = x.matchesDeps result' v := by
  have same : ((x.deps v).all fun d => (result d.1).bits &&& d.2.bits ≠ 0) =
      (x.deps v).all fun d => (result' d.1).bits &&& d.2.bits ≠ 0 := by
    rw [Bool.eq_iff_iff, all_eq_true, all_eq_true]
    exact forall₂_congr fun d member => by rw [agree d member]
  rw [matchesDeps, matchesDeps, same]

lemma perform_congr (agree : ∀ u ∈ x.sees v, l u = l' u) : x.perform env v l m a = x.perform env v l' m a := by
  have here : l v = l' v := agree v (.inl rfl)
  cases a with
  | start flag =>
    have same : x.matchesDeps (fun u => (l u).result) v = x.matchesDeps (fun u => (l' u).result) v :=
      matchesDeps_congr fun d member => congrArg VertexState.result (agree d.1 (.inr (mem_map_of_mem member)))
    simp [perform, here, same]
  | select i r => simp only [perform, here]
  | inject r => simp only [perform, here]
  | execute => simp only [perform, here]
  | emit cells => simp only [perform, here]

lemma memory_select {i : Nat} {r : Option Request} : (x.perform env v l m (.select i r)).2 = m := by
  simp only [perform]
  split
  · cases r <;> rfl
  · rfl

lemma perform_frame {cell : Cell} (unwritten : x.active v l a = true → cell ∉ a.writes (x.around env)) :
    (x.perform env v l m a).2 cell = m cell := by
  cases a with
  | start flag => rfl
  | execute => rfl
  | select i r => rw [memory_select]
  | inject r =>
    simp only [perform]
    split
    · next starts =>
      have absent := unwritten starts
      cases r with
      | none => rfl
      | some r =>
        simp only [inject]
        simp only [Action.writes] at absent
        split
        · next moves => exact move_frame (by simpa [moves] using absent)
        · rfl
    · rfl
  | emit cells =>
    simp only [perform]
    split
    · next ok => exact emit_frame (unwritten (decide_eq_true ok))
    · rfl

lemma perform_state_within (agree : ∀ cell, x.active v l a = true → cell ∈ a.reads (x.around env) → m cell = m' cell) :
    (x.perform env v l m a).1 = (x.perform env v l m' a).1 := by
  cases a with
  | start flag =>
    simp only [perform]
    cases starts : x.matchesDeps (fun u => (l u).result) v with
    | false => rfl
    | true =>
      rcases flag with _ | ⟨negated, r⟩
      · rfl
      · have same : x.flag env m r = x.flag env m' r := get_congr fun cell => agree cell starts
        simp [expected, same]
  | execute => rfl
  | emit cells => rfl
  | select i r =>
    simp only [perform]
    split
    · next asks =>
      cases r with
      | none => rfl
      | some r =>
        have same : x.flag env m r = x.flag env m' r := get_congr fun cell => agree cell (by simp [active, asks])
        simp [same]
    · rfl
  | inject r =>
    simp only [perform]
    split
    · next starts =>
      cases r with
      | none => rfl
      | some r =>
        have found : (m.inject (x.around env) (some r)).1 = (m'.inject (x.around env) (some r)).1 := by
          have same := fun cell => agree cell starts
          simp only [Action.reads] at same
          simp only [inject]
          split
          · next moves =>
            rw [fst_move, fst_move]
            exact get_congr (by simpa [moves] using same)
          · next stays => exact get_congr (by simpa [stays] using same)
        simp [found]
    · rfl

lemma perform_memory_within {cell : Cell} (agree : ∀ cell, x.active v l a = true → cell ∈ a.reads (x.around env) → m cell = m' cell)
    (active : x.active v l a = true) (written : cell ∈ a.writes (x.around env)) :
    (x.perform env v l m a).2 cell = (x.perform env v l m' a).2 cell := by
  cases a with
  | start flag => cases written
  | select i r => cases written
  | execute => cases written
  | emit cells =>
    simp only [perform]
    split
    · exact emit_within written
    · next failed => exact absurd (of_decide_eq_true active) failed
  | inject r =>
    cases r with
    | none => cases written
    | some r =>
      have same := fun cell => agree cell active
      simp only [Action.reads] at same
      simp only [Action.writes] at written
      have starts : (l v).starts = true := active
      split at written
      · next moves =>
        simp only [perform, starts, inject, moves, if_true]
        exact move_within (by simpa [moves] using same) written
      · cases written

end Wiring

namespace Wiring

variable (x : Wiring) (vars : Ref → List Char → String) (env : Environment α)

lemma step_eq {v : Ref} {l : Ref → VertexState α} {m : Data α} {a : Action} (next : (x.actions vars v)[(l v).done]? = some a) :
    x.step vars env v l m = ({ (x.perform env v l m a).1 with done := (l v).done + 1 }, (x.perform env v l m a).2) := by
  rw [step, next]

def threads : Threads Ref (VertexState α) Cell (Option α) where
  ready v l := x.Ready vars v l
  step := x.step vars env
  sees := x.sees
  reads v l := { cell | ∃ a, x.acting vars v l = some a ∧ cell ∈ a.reads (x.around env) }
  writes v l := { cell | ∃ a, x.acting vars v l = some a ∧ cell ∈ a.writes (x.around env) }
  ready_congr {v l l'} agree ready := by
    have here : l v = l' v := agree v (.inl rfl)
    refine ⟨ready.table, fun d member => ?_, here ▸ ready.left⟩
    rw [Finished, ← agree d.1 (.inr (List.mem_map_of_mem member))]
    exact ready.deps d member
  step_congr {v l l'} m agree := by
    have here : l v = l' v := agree v (.inl rfl)
    rw [step, step, here]
    split
    · rfl
    · rw [perform_congr agree]
  frame {v l cell} m unwritten := by
    cases next : (x.actions vars v)[(l v).done]? with
    | none => rw [step, next]
    | some a =>
      rw [x.step_eq vars env next]
      refine perform_frame fun active written => unwritten ⟨a, ?_, written⟩
      rw [acting, next, Option.filter_some, if_pos active]
  state_within {v l m m'} agree := by
    cases next : (x.actions vars v)[(l v).done]? with
    | none => rw [step, step, next]
    | some a =>
      rw [x.step_eq vars env next, x.step_eq vars env next]
      simp only
      rw [perform_state_within fun cell active read => agree cell ⟨a, ?_, read⟩]
      rw [acting, next, Option.filter_some, if_pos active]
  memory_within {v l m m' cell} agree written := by
    obtain ⟨a, acts, written⟩ := written
    obtain ⟨next, active⟩ := Option.filter_eq_some_iff.mp acts
    rw [x.step_eq vars env next, x.step_eq vars env next]
    exact perform_memory_within (fun cell _ read => agree cell ⟨a, acts, read⟩) active written

def init : RunState α := ⟨fun _ => .reset, env.data⟩

def Reaches (c : RunState α) : Prop :=
  (x.threads vars env).Steps Set.univ (init env) c

section
variable {x : Wiring} {vars : Ref → List Char → String} {v : Ref} {i : Nat} {a : Action}

lemma actions_asks (small : i < (x.asks vars v).length) : (x.actions vars v)[i + 1]? = (x.asks vars v)[i]? := by
  simp only [actions, cons_append, getElem?_cons_succ]
  exact getElem?_append_left small

lemma actions_execute : (x.actions vars v)[(x.asks vars v).length + 1]? = some .execute := by
  simp [actions]

lemma actions_emit : (x.actions vars v)[(x.asks vars v).length + 2 + i]? = ((x.emits vars v)[i]?).map .emit := by
  have index : (x.asks vars v).length + 2 + i = (x.asks vars v).length + (i + 1) + 1 := by omega
  simp only [actions, cons_append, index, getElem?_cons_succ]
  rw [getElem?_append_right (by simp)]
  simp

lemma actions_cases (next : (x.actions vars v)[i]? = some a) :
    (i = 0 ∧ a = .start (x.expectation v)) ∨ (a ∈ x.asks vars v ∧ 0 < i ∧ i ≤ (x.asks vars v).length) ∨
      (i = (x.asks vars v).length + 1 ∧ a = .execute) ∨
      ∃ cells ∈ x.emits vars v, (x.asks vars v).length + 1 < i ∧ a = .emit cells := by
  rcases lt_trichotomy i ((x.asks vars v).length + 1) with small | same | large
  · cases i with
    | zero => exact .inl ⟨rfl, (Option.some.inj next).symm⟩
    | succ j =>
      rw [actions_asks (by omega)] at next
      exact .inr (.inl ⟨mem_of_getElem? next, by omega, by omega⟩)
  · rw [same, actions_execute] at next
    exact .inr (.inr (.inl ⟨same, (Option.some.inj next).symm⟩))
  · obtain ⟨j, rfl⟩ : ∃ j, i = (x.asks vars v).length + 2 + j := ⟨i - ((x.asks vars v).length + 2), by omega⟩
    rw [actions_emit] at next
    obtain ⟨cells, there, rfl⟩ := Option.map_eq_some_iff.mp next
    exact .inr (.inr (.inr ⟨cells, mem_of_getElem? there, large, rfl⟩))

lemma asks_cases (member : a ∈ x.asks vars v) : (∃ i, ∃ r ∈ x.selects v, a = .select i r) ∨ ∃ r ∈ x.requests vars v, a = .inject r := by
  rcases mem_append.mp member with select | inject
  · obtain ⟨i, small, rfl⟩ := mem_mapIdx.mp select
    exact .inl ⟨i, _, getElem_mem small, rfl⟩
  · obtain ⟨r, there, rfl⟩ := mem_map.mp inject
    exact .inr ⟨r, there, rfl⟩

end

section
variable {x : Wiring} {vars : Ref → List Char → String} {env : Environment α} {c c' : RunState α} {v u : Ref} {a : Action}

lemma Ready.next {l : Ref → VertexState α} (ready : x.Ready vars v l) : ∃ a, (x.actions vars v)[(l v).done]? = some a :=
  ⟨_, getElem?_eq_getElem ready.left⟩

lemma fire_threads (next : (x.actions vars v)[(c.threads v).done]? = some a) : ((x.threads vars env).fire v c).threads v =
      { (x.perform env v c.threads c.memory a).1 with done := (c.threads v).done + 1 } := by
  rw [Threads.threads_fire_self]
  exact congrArg fst (x.step_eq vars env next)

lemma done_fire (ready : x.Ready vars v c.threads) : (((x.threads vars env).fire v c).threads v).done = (c.threads v).done + 1 := by
  obtain ⟨a, next⟩ := ready.next
  rw [fire_threads next]

lemma starts_perform {l : Ref → VertexState α} {m : Data α} (other : ∀ flag, a ≠ .start flag) :
    (x.perform env v l m a).1.starts = (l v).starts := by
  cases a with
  | start flag => exact absurd rfl (other flag)
  | select i r =>
    simp only [perform]
    split
    · cases r <;> rfl
    · rfl
  | inject r => simp only [perform]; split <;> rfl
  | execute => rfl
  | emit cells => rfl

lemma result_perform {l : Ref → VertexState α} {m : Data α} (other : a ≠ .execute) :
    (x.perform env v l m a).1.result = (l v).result := by
  cases a with
  | start flag => rfl
  | select i r =>
    simp only [perform]
    split
    · cases r <;> rfl
    · rfl
  | inject r => simp only [perform]; split <;> rfl
  | execute => exact absurd rfl other
  | emit cells => rfl

variable (x vars) in
/-- What is true of every vertex at any time: those before one that has begun have ended, one that starts has the results it
    expects, and a result is there once `Execute` has been called. -/
structure Inv (c : RunState α) : Prop where
  begun : ∀ v, 0 < (c.threads v).done → v ∈ x.table ∧ ∀ d ∈ x.deps v, x.Finished vars c.threads d.1
  starts : ∀ v, (c.threads v).starts = true → 0 < (c.threads v).done ∧ x.matchesDeps (fun u => (c.threads u).result) v = true
  settled : ∀ v, (c.threads v).result ≠ .invalid ↔ (x.asks vars v).length + 1 < (c.threads v).done
  outcome : ∀ v, (c.threads v).result ≠ .invalid →
    (c.threads v).result = .ok ∧ (c.threads v).starts = true ∨ (c.threads v).result = .err

lemma inv_init : x.Inv vars (init env) where
  begun _ begun := absurd begun (lt_irrefl 0)
  starts _ starts := by cases starts
  settled _ := iff_of_false (fun set => set rfl) (Nat.not_lt_zero _)
  outcome _ set := absurd rfl set

lemma Finished.ne {l : Ref → VertexState α} (finished : x.Finished vars l u) (ready : x.Ready vars v l) : u ≠ v := by
  rintro rfl
  exact absurd finished ready.left.ne

lemma finished_fire (ready : x.Ready vars v c.threads) (finished : x.Finished vars c.threads u) :
    x.Finished vars ((x.threads vars env).fire v c).threads u ∧ ((x.threads vars env).fire v c).threads u = c.threads u := by
  have same : ((x.threads vars env).fire v c).threads u = c.threads u :=
    Threads.threads_fire_of_ne (finished.ne ready)
  exact ⟨by rw [Finished, same]; exact finished, same⟩

lemma matchesDeps_fire (ready : x.Ready vars v c.threads) (deps : ∀ d ∈ x.deps u, x.Finished vars c.threads d.1) :
    x.matchesDeps (fun w => (((x.threads vars env).fire v c).threads w).result) u =
      x.matchesDeps (fun w => (c.threads w).result) u :=
  matchesDeps_congr fun d member => by rw [(finished_fire ready (deps d member)).2]

lemma Inv.fire (inv : x.Inv vars c) (ready : x.Ready vars v c.threads) : x.Inv vars ((x.threads vars env).fire v c) := by
  obtain ⟨a, next⟩ := ready.next
  have here : ((x.threads vars env).fire v c).threads v =
      { (x.perform env v c.threads c.memory a).1 with done := (c.threads v).done + 1 } := fire_threads next
  have others : ∀ {u}, u ≠ v → ((x.threads vars env).fire v c).threads u = c.threads u := Threads.threads_fire_of_ne
  have deps : ∀ u, 0 < (((x.threads vars env).fire v c).threads u).done →
      u ∈ x.table ∧ ∀ d ∈ x.deps u, x.Finished vars c.threads d.1 := by
    intro u begun
    rcases eq_or_ne u v with rfl | different
    · exact ⟨ready.table, ready.deps⟩
    · rw [others different] at begun
      exact inv.begun u begun
  constructor
  case begun =>
    intro u begun
    obtain ⟨member, finished⟩ := deps u begun
    exact ⟨member, fun d member => (finished_fire ready (finished d member)).1⟩
  case starts =>
    intro u starts
    rcases eq_or_ne u v with rfl | different
    · rw [matchesDeps_fire ready ready.deps]
      rw [here] at starts ⊢
      refine ⟨Nat.succ_pos _, ?_⟩
      by_cases first : ∃ flag, a = .start flag
      · obtain ⟨flag, rfl⟩ := first
        exact (Bool.and_eq_true_iff.mp starts).1
      · rw [starts_perform fun flag same => first ⟨flag, same⟩] at starts
        exact (inv.starts u starts).2
    · rw [others different] at starts ⊢
      obtain ⟨begun, matched⟩ := inv.starts u starts
      exact ⟨begun, matchesDeps_fire ready (inv.begun u begun).2 ▸ matched⟩
  case settled =>
    intro u
    rcases eq_or_ne u v with rfl | different
    · rw [here]
      by_cases last : a = .execute
      · obtain ⟨-, rfl⟩ | ⟨member, -⟩ | ⟨index, -⟩ | ⟨cells, -, -, rfl⟩ := actions_cases next
        · cases last
        · rcases asks_cases member with ⟨i, r, -, rfl⟩ | ⟨r, -, rfl⟩ <;> cases last
        · refine iff_of_true ?_ (show _ < (c.threads u).done + 1 by omega)
          rw [last]
          simp only [perform]
          split <;> simp
        · cases last
      · rw [result_perform last, inv.settled]
        show _ < _ ↔ _ < (c.threads u).done + 1
        rcases actions_cases next with ⟨zero, -⟩ | ⟨-, -, small⟩ | ⟨-, same⟩ | ⟨cells, -, large, -⟩
        · omega
        · omega
        · exact absurd same last
        · omega
    · rw [others different]
      exact inv.settled u
  case outcome =>
    intro u set
    rcases eq_or_ne u v with rfl | different
    · rw [here] at set ⊢
      by_cases last : a = .execute
      · rw [last]
        simp only [perform]
        split
        · next ran => exact .inl ⟨rfl, ran.1⟩
        · exact .inr rfl
      · rw [result_perform last] at set ⊢
        rw [starts_perform ?_]
        · exact inv.outcome u set
        · -- the result is there, so this is not the first action
          rintro flag rfl
          have later := (inv.settled u).mp set
          rcases actions_cases next with ⟨zero, -⟩ | ⟨member, -⟩ | ⟨-, no⟩ | ⟨cells, -, -, no⟩
          · omega
          · rcases asks_cases member with ⟨i, r, -, no⟩ | ⟨r, -, no⟩ <;> cases no
          all_goals cases no
    · rw [others different] at set ⊢
      exact inv.outcome u set

lemma inv_of_steps {turn : Set Ref} (run : (x.threads vars env).Steps turn (init env) c) : x.Inv vars c :=
  run.invariant inv_init fun _ _ _ ready inv => inv.fire ready

end

end Wiring

/-! When the order of the vertices cannot be told from the data: no two vertices that may run in either order touch one cell,
    one of them to change it. -/

open Option

variable {α : Type}

namespace Wiring

section
variable (x : Wiring) (vars : Ref → List Char → String)

/-- A path of edges leads from `u` to `v`. -/
def Before (u v : Ref) : Prop := Relation.TransGen (fun u v => u ∈ (x.deps v).map fst) u v

/-- Results that the vertices of a graph can have at one time. -/
structure Feasible (result : Ref → VertexResult) : Prop where
  decided : ∀ v, result v ≠ .invalid → v ∈ x.table ∧ ∀ d ∈ x.deps v, result d.1 ≠ .invalid
  ok_or_err : ∀ v, result v ≠ .invalid → result v = .ok ∨ result v = .err
  ok : ∀ v, result v = .ok → x.matchesDeps result v = true

def targets (v : Ref) : List DIObjectKey :=
  if x.processor v then (x.outputs v).filterMap fun e => e.target x.registered (vars v) else []

def provided (v : Ref) : List DIObjectKey := if x.processor v then [] else x.provides v

/-- What a vertex looks up: the flag of `expect_config`, those of `select_args`, and its inputs. -/
def lookups (v : Ref) : List Request := ((x.expectation v).map snd).toList ++ (x.selects v ++ x.requests vars v).reduceOption

/-- `v` takes or puts data that `u` looks up, or puts where `u` does. -/
inductive Disturbs (v u : Ref) : Prop
  | move (r q : Request) (here : some r ∈ x.requests vars v) (moves : r.move = true) (there : q ∈ x.lookups vars u)
      (same : r.cell = q.cell ∨ r.key = q.key)
  | set (q : Request) (here : q.cell ∈ x.targets vars v) (there : q ∈ x.lookups vars u)
  | sets (key : DIObjectKey) (here : key ∈ x.targets vars v) (there : key ∈ x.targets vars u)
  | child (q : Request) (here : q.key ∈ x.provided v) (there : q ∈ x.lookups vars u)

/-- No two vertices that no path of edges orders, and that can both come to their data, disturb each other. -/
def RaceFree : Prop :=
  ∀ result, x.Feasible result → ∀ v ∈ x.table, ∀ u ∈ x.table, v ≠ u → ¬ x.Before v u → ¬ x.Before u v →
    x.matchesDeps result v = true → x.matchesDeps result u = true → ¬ x.Disturbs vars v u

/-- Whatever the processors, settings and data: runs that have come to their end had the same inputs and leave the same data. -/
def Confluent : Prop :=
  ∀ (α : Type) (env : Environment α) (c c' : RunState α),
    x.Reaches vars env c → x.Reaches vars env c' → (x.threads vars env).Ended c → (x.threads vars env).Ended c' →
    (∀ v, (c.threads v).inputs = (c'.threads v).inputs) ∧ c.memory = c'.memory

end

section
variable {x : Wiring} {vars : Ref → List Char → String} {v u : Ref} {a b : Action} {ar : Around} {cell : Cell}

lemma actions_mem (member : a ∈ x.actions vars v) : a = .start (x.expectation v) ∨ (∃ i, ∃ r ∈ x.selects v, a = .select i r) ∨
    (∃ r ∈ x.requests vars v, a = .inject r) ∨ a = .execute ∨ ∃ cells ∈ x.emits vars v, a = .emit cells := by
  obtain ⟨i, next⟩ := getElem?_of_mem member
  rcases actions_cases next with ⟨-, same⟩ | ⟨asks, -⟩ | ⟨-, same⟩ | ⟨cells, there, -, same⟩
  · exact .inl same
  · exact .inr ((asks_cases asks).imp_right .inl)
  · exact .inr (.inr (.inr (.inl same)))
  · exact .inr (.inr (.inr (.inr ⟨cells, there, same⟩)))

lemma lookups_of_requests {r : Request} (asks : some r ∈ x.requests vars v) : r ∈ x.lookups vars v :=
  mem_append_right _ (mem_filterMap.mpr ⟨_, mem_append_right _ asks, rfl⟩)

lemma cell_of_emits {cells : List (Cell × Nat)} (member : cells ∈ x.emits vars v) (written : cell ∈ cells.map fst) :
    (∃ key ∈ x.targets vars v, cell = (.own, key)) ∨ ∃ key ∈ x.provided v, cell = (.child v, key) := by
  obtain ⟨⟨_, i⟩, there, rfl⟩ := mem_map.mp written
  rw [emits] at member
  split at member
  · next processor =>
    obtain ⟨j, small, rfl⟩ := mem_mapIdx.mp member
    simp only [mem_toList, map_eq_some_iff, Prod.mk.injEq] at there
    obtain ⟨key, target, rfl, -⟩ := there
    refine .inl ⟨key, ?_, rfl⟩
    rw [targets, if_pos processor]
    exact mem_filterMap.mpr ⟨_, getElem_mem small, target⟩
  · next subgraph =>
    rw [mem_singleton.mp member] at there
    obtain ⟨j, small, same⟩ := mem_mapIdx.mp there
    obtain ⟨rfl, -⟩ := Prod.mk.inj same
    refine .inr ⟨_, ?_, rfl⟩
    rw [provided, if_neg subgraph]
    exact getElem_mem small

lemma covers_of_reads (member : a ∈ x.actions vars v) (read : cell ∈ a.reads ar) : ∃ r ∈ x.lookups vars v, r.Covers cell := by
  rcases actions_mem member with rfl | ⟨i, r, select, rfl⟩ | ⟨r, asks, rfl⟩ | rfl | ⟨cells, -, rfl⟩
  · rcases flag : x.expectation v with _ | ⟨negated, r⟩
    · rw [flag] at read
      cases read
    · rw [flag] at read
      exact ⟨r, mem_append_left _ (by simp [flag]), Request.covers_of_mem read⟩
  · rcases r with _ | r
    · cases read
    · exact ⟨r, mem_append_right _ (mem_filterMap.mpr ⟨_, mem_append_left _ select, rfl⟩), Request.covers_of_mem read⟩
  · rcases r with _ | r
    · cases read
    · exact ⟨r, lookups_of_requests asks, Request.covers_of_mem read⟩
  · cases read
  · cases read

lemma cases_of_writes (member : a ∈ x.actions vars v) (written : cell ∈ a.writes ar) :
    (∃ r, some r ∈ x.requests vars v ∧ r.move = true ∧ r.Covers cell) ∨ (∃ key ∈ x.targets vars v, cell = (.own, key)) ∨
      ∃ key ∈ x.provided v, cell = (.child v, key) := by
  rcases actions_mem member with rfl | ⟨i, r, -, rfl⟩ | ⟨r, asks, rfl⟩ | rfl | ⟨cells, emits, rfl⟩
  · cases written
  · cases written
  · rcases r with _ | r
    · cases written
    · simp only [Action.writes] at written
      split at written
      · next moves => exact .inl ⟨r, asks, moves, Request.covers_of_mem written⟩
      · cases written
  · cases written
  · exact .inr (cell_of_emits emits written)

lemma disturbs_of_reads (here : a ∈ x.actions vars v) (there : b ∈ x.actions vars u) (written : cell ∈ a.writes ar)
    (read : cell ∈ b.reads ar) : x.Disturbs vars v u := by
  obtain ⟨q, asks, covers⟩ := covers_of_reads there read
  rcases cases_of_writes here written with ⟨r, moved, moves, covers'⟩ | ⟨key, target, rfl⟩ | ⟨key, target, rfl⟩
  · exact .move r q moved moves asks (covers'.both covers)
  · exact .set q (covers.own ▸ target) asks
  · exact .child q (covers.child ▸ target) asks

lemma disturbs_of_writes (here : a ∈ x.actions vars v) (there : b ∈ x.actions vars u) (different : v ≠ u)
    (written : cell ∈ a.writes ar) (written' : cell ∈ b.writes ar) : x.Disturbs vars v u ∨ x.Disturbs vars u v := by
  rcases cases_of_writes here written with ⟨r, moved, moves, covers⟩ | ⟨key, target, rfl⟩ | ⟨key, target, rfl⟩
  · rcases cases_of_writes there written' with ⟨q, asks, -, covers'⟩ | ⟨key, target, rfl⟩ | ⟨key, target, rfl⟩
    · exact .inl (.move r q moved moves (lookups_of_requests asks) (covers.both covers'))
    · exact .inr (.set r (covers.own ▸ target) (lookups_of_requests moved))
    · exact .inr (.child r (covers.child ▸ target) (lookups_of_requests moved))
  · rcases cases_of_writes there written' with ⟨q, asks, -, covers⟩ | ⟨key', target', same⟩ | ⟨key', -, same⟩
    · exact .inl (.set q (covers.own ▸ target) (lookups_of_requests asks))
    · obtain rfl : key = key' := (Prod.mk.inj same).2
      exact .inl (.sets key target target')
    · cases (Prod.mk.inj same).1
  · rcases cases_of_writes there written' with ⟨q, asks, -, covers⟩ | ⟨key', -, same⟩ | ⟨key', -, same⟩
    · exact .inl (.child q (covers.child ▸ target) (lookups_of_requests asks))
    · cases (Prod.mk.inj same).1
    · exact absurd (Place.child.inj (Prod.mk.inj same).1) different

end

section
variable {x : Wiring} {vars : Ref → List Char → String} {env : Environment α} {c : RunState α} {v u : Ref} {a b : Action}

lemma length_actions : (x.actions vars v).length = (x.asks vars v).length + 2 + (x.emits vars v).length := by
  simp only [actions, cons_append, length_cons, length_append, length_map]
  omega

section
variable (inv : x.Inv vars c)
include inv

lemma Inv.settled_of_finished (finished : x.Finished vars c.threads v) : (c.threads v).result ≠ .invalid := by
  rw [inv.settled, finished, length_actions]
  omega

lemma Inv.begun_of_settled (settled : (c.threads v).result ≠ .invalid) : 0 < (c.threads v).done := by
  have later := (inv.settled v).mp settled
  omega

lemma Inv.starts_of_ok (ok : (c.threads v).result = .ok) : (c.threads v).starts = true := by
  rcases inv.outcome v (by simp [ok]) with ⟨-, starts⟩ | err
  · exact starts
  · rw [ok] at err
    cases err

lemma Inv.feasible : x.Feasible fun v => (c.threads v).result where
  decided v settled := by
    obtain ⟨member, deps⟩ := inv.begun v (inv.begun_of_settled settled)
    exact ⟨member, fun d dep => inv.settled_of_finished (deps d dep)⟩
  ok_or_err v settled := (inv.outcome v settled).imp_left And.left
  ok v ok := (inv.starts v (inv.starts_of_ok ok)).2

lemma Inv.finished_of_before (before : x.Before u v)
    (deps : ∀ d ∈ x.deps v, x.Finished vars c.threads d.1) : x.Finished vars c.threads u := by
  induction before with
  | single edge =>
    obtain ⟨d, member, rfl⟩ := mem_map.mp edge
    exact deps d member
  | tail _ edge ih =>
    obtain ⟨d, member, rfl⟩ := mem_map.mp edge
    exact ih (inv.begun d.1 (inv.begun_of_settled (inv.settled_of_finished (deps d member)))).2

lemma Inv.not_before (ready : x.Ready vars v c.threads) (ready' : x.Ready vars u c.threads) : ¬ x.Before v u := by
  intro before
  exact (inv.finished_of_before before ready'.deps).ne ready rfl

lemma Inv.matchesDeps_of_acting (acts : x.acting vars v c.threads = some a) :
    a ∈ x.actions vars v ∧ x.matchesDeps (fun u => (c.threads u).result) v = true := by
  obtain ⟨next, active⟩ := filter_eq_some_iff.mp acts
  refine ⟨mem_of_getElem? next, ?_⟩
  cases a with
  | start flag => exact active
  | select i r => exact (inv.starts v (Bool.and_eq_true_iff.mp active).1).2
  | inject r => exact (inv.starts v active).2
  | execute => cases active
  | emit cells => exact (inv.starts v (inv.starts_of_ok (of_decide_eq_true active))).2

lemma Inv.independent (free : x.RaceFree vars) (different : v ≠ u)
    (ready : x.Ready vars v c.threads) (ready' : x.Ready vars u c.threads) : (x.threads vars env).Independent c.threads v u := by
  have unseen : ∀ {v u}, v ≠ u → x.Ready vars v c.threads → x.Ready vars u c.threads → v ∉ x.sees u := by
    rintro v u different ready ready' (rfl | dep)
    · exact different rfl
    · exact inv.not_before ready ready' (.single dep)
  -- two actions that touch data at all are ones of vertices that run
  have quiet : ∀ {a b}, x.acting vars v c.threads = some a → x.acting vars u c.threads = some b →
      ¬ x.Disturbs vars v u ∧ ¬ x.Disturbs vars u v := by
    intro a b acts acts'
    have starts := (inv.matchesDeps_of_acting acts).2
    have starts' := (inv.matchesDeps_of_acting acts').2
    have unordered := inv.not_before ready ready'
    have unordered' := inv.not_before ready' ready
    exact ⟨free _ inv.feasible v ready.table u ready'.table different unordered unordered' starts starts',
      free _ inv.feasible u ready'.table v ready.table different.symm unordered' unordered starts' starts⟩
  refine ⟨unseen different ready ready', unseen different.symm ready' ready, ?_, ?_, ?_⟩
  · refine Set.disjoint_left.mpr ?_
    rintro cell ⟨a, acts, written⟩ ⟨b, acts', read⟩
    exact (quiet acts acts').1 (disturbs_of_reads (inv.matchesDeps_of_acting acts).1 (inv.matchesDeps_of_acting acts').1 written read)
  · refine Set.disjoint_left.mpr ?_
    rintro cell ⟨a, acts, read⟩ ⟨b, acts', written⟩
    exact (quiet acts acts').2 (disturbs_of_reads (inv.matchesDeps_of_acting acts').1 (inv.matchesDeps_of_acting acts).1 written read)
  · refine Set.disjoint_left.mpr ?_
    rintro cell ⟨a, acts, written⟩ ⟨b, acts', written'⟩
    rcases disturbs_of_writes (inv.matchesDeps_of_acting acts).1 (inv.matchesDeps_of_acting acts').1 different written written' with
      disturbs | disturbs
    · exact (quiet acts acts').1 disturbs
    · exact (quiet acts acts').2 disturbs

end

lemma RaceFree.confluent (free : x.RaceFree vars) : x.Confluent vars := by
  intro α env c c' run run' ended ended'
  have same : c = c' := Threads.ended_unique
    (fun d run v _ u _ different ready ready' => (inv_of_steps run).independent free different ready ready')
    run run' ended ended'
  rw [same]
  exact ⟨fun _ => rfl, rfl⟩

end

end Wiring

end Myctk.Didagle
