import Myctk.Didagle.ExecutorInv

/-! Every execution ends, and it ends with all vertices finished and the done closure called. -/

namespace Myctk.Didagle
open Multiset Function

variable {ν : Type} [DecidableEq ν]

def Task.cost : Task ν → Nat
  | execute _ => 3
  | running _ => 2
  | finish _ _ => 1
  | successors _ rest ready => 1 + 6 * rest.length + 4 * ready.length
  | stored _ _ _ rest ready => 6 + 6 * rest.length + 4 * ready.length
  | dispatch others _ => 4 * (others.length + 1)
  | done => 1

namespace Contexts
variable {x : Contexts ν} {m m' : Memory ν} {task : Task ν} {next others : Multiset (Task ν)}
  {events seen : List (Event ν)}

variable (x) in
def ahead (m : Memory ν) : Nat :=
  (x.table.map fun v => if m.result v = .invalid then 6 * (x.successors v).length + 2 else 0).sum

variable (x) in
def work (s : State ν) : Nat := x.ahead s.memory + (s.tasks.map Task.cost).sum

lemma cost_executeReadyVertexs (x : Contexts ν) (ready : List ν) :
    ((x.executeReadyVertexs ready).map Task.cost).sum ≤ 4 * ready.length := by
  unfold executeReadyVertexs
  split
  · simp
  · simp [Task.cost]
  · next v w ready =>
    simp only [map_singleton, sum_singleton, Task.cost]
    refine Nat.mul_le_mul_left 4 (List.length_filter_lt_length_iff_exists.mpr ⟨_, here_mem x v w ready, ?_⟩)
    simp

omit [DecidableEq ν] in
lemma cost_told (v w : ν) (n : Nat) (last : VertexResult) (rest ready : List ν) :
    ((told v w n rest ready).map Task.cost).sum < (Task.stored v w last rest ready).cost := by
  unfold told
  split_ifs <;> simp [Task.cost] <;> omega

lemma ahead_update (cost : ν → Nat) (r : ν → VertexResult) {v : ν} {new : VertexResult} (unset : r v = .invalid)
    (set : new ≠ .invalid) (table : List ν) :
    (table.map fun u => if update r v new u = .invalid then cost u else 0).sum + table.count v * cost v =
      (table.map fun u => if r u = .invalid then cost u else 0).sum := by
  induction table with
  | nil => simp
  | cons u table ih =>
    by_cases here : u = v
    · subst here
      simp only [List.map_cons, List.sum_cons, List.count_cons_self, update_self, set, unset, if_true, if_false,
        add_mul]
      omega
    · simp only [List.map_cons, List.sum_cons, List.count_cons_of_ne here, update_of_ne here]
      omega

lemma Inv.work_finish {v : ν} {code : Int} (inv : x.Inv m (.finish v code ::ₘ others) events) (wf : x.Wf) : x.ahead { m with
        result := update m.result v (if code ≠ 0 then .err else .ok)
        joinVertexNum := m.joinVertexNum - 1 } + (x.onVertexDone v m.joinVertexNum).cost <
      x.ahead m + (Task.finish v code).cost := by
  obtain ⟨member, _, unset, _⟩ := inv.of_held (v := v) (by simp)
  have set : (if code ≠ 0 then VertexResult.err else .ok) ≠ .invalid := by split <;> decide
  have less := ahead_update (fun u => 6 * (x.successors u).length + 2) m.result unset set x.table
  rw [wf.table_nodup.count, if_pos member, one_mul] at less
  have cost : (x.onVertexDone v m.joinVertexNum).cost ≤ 6 * (x.successors v).length + 1 := by
    unfold onVertexDone
    split
    · simp [Task.cost]
    · simp [Task.cost, add_comm]
  have one : (Task.finish v code).cost = 1 := rfl
  simp only [ahead, one]
  omega

lemma Inv.work_fires (inv : x.Inv m (task ::ₘ others) events) (wf : x.Wf) (fires : x.Fires m task m' next seen) :
    x.ahead m' + (next.map Task.cost).sum < x.ahead m + task.cost := by
  cases fires with
  | finish => simpa using inv.work_finish wf
  | store v w rest ready => simp [ahead, Task.cost]; omega
  | count v w last rest ready =>
    exact Nat.add_lt_add_left (cost_told v w _ last rest ready) _
  | leave v ready =>
    have cost := cost_executeReadyVertexs x ready
    simp only [Task.cost, List.length_nil]
    omega
  | hand | skip | run | report | keep | done => simp [Task.cost]; try omega

lemma Execution.work_le (wf : x.Wf) {n : Nat} {s : State ν} (run : x.Execution n s) : n + x.work s ≤ x.work x.init := by
  induction run with
  | init => exact le_of_eq (zero_add _)
  | step before step ih =>
    cases step with
    | fire others events fires =>
      have less := (before.inv wf).work_fires wf fires
      simp only [work, map_cons, sum_cons, map_add, sum_add] at ih less ⊢
      omega

variable (x) in
lemma exists_fires (m : Memory ν) (task : Task ν) : ∃ m' next seen, x.Fires m task m' next seen := by
  cases task with
  | execute v => exact ⟨_, _, _, .skip m v⟩
  | running v => exact ⟨_, _, _, .report m v 0⟩
  | finish v code => exact ⟨_, _, _, .finish m v code⟩
  | successors v rest ready =>
    cases rest with
    | nil => exact ⟨_, _, _, .leave m v ready⟩
    | cons w rest => exact ⟨_, _, _, .store m v w rest ready⟩
  | stored v w last rest ready => exact ⟨_, _, _, .count m v w last rest ready⟩
  | dispatch others here =>
    cases others with
    | nil => exact ⟨_, _, _, .keep m here⟩
    | cons v others => exact ⟨_, _, _, .hand m v others here⟩
  | done => exact ⟨_, _, _, .done m⟩

lemma tasks_eq_zero_of_stuck {s : State ν} (stuck : ¬ ∃ s', x.Step s s') : s.tasks = 0 := by
  by_contra some
  obtain ⟨task, member⟩ := exists_mem_of_ne_zero some
  obtain ⟨others, split⟩ := exists_cons_of_mem member
  obtain ⟨m', next, seen, fires⟩ := x.exists_fires s.memory task
  obtain ⟨m, tasks, events⟩ := s
  obtain rfl : tasks = task ::ₘ others := split
  exact stuck ⟨_, .fire others events fires⟩

lemma Inv.all_finished (inv : x.Inv m 0 events) (wf : x.Wf) (v : ν) (member : v ∈ x.table) : m.result v ≠ .invalid := by
  have : IsStrictOrder ν (Relation.TransGen fun v w => w ∈ x.successors v) :=
    { irrefl := wf.acyclic, trans := fun _ _ _ => Relation.TransGen.trans }
  have wellFounded := (List.finite_toSet x.table).wellFoundedOn (r := Relation.TransGen fun v w => w ∈ x.successors v)
  refine wellFounded.induction (P := fun v => m.result v ≠ .invalid) member ?_
  intro v member before unset
  have held := inv.held v
  rw [zero_bind, count_zero] at held
  have waiting := inv.waiting v
  rw [zero_bind, count_zero, add_zero, List.countP_eq_zero.mpr] at waiting
  · rw [if_pos ⟨member, waiting, unset⟩] at held
    cases held
  · intro u dep
    have edge := (wf.mem_successors u v).mpr dep
    simpa using before u (wf.ends u v edge).1 (.single edge)

end Contexts

/-- Every execution of a graph that was built ends. -/
theorem finishes_once_of_build {c : Cluster} {g : Graph} {fuel : Nat} {b : Built} {x : Contexts Ref}
    (builds : g.build c fuel = some (some b)) (distinct : (b.entries.map fun p => p.2.id).Nodup) (setup : b.Setup x) :
    (∃ bound, ∀ n s, x.Execution n s → n ≤ bound) ∧
    ∀ n s, x.Execution n s →
      Lib.Causal x.Allowed s.events ∧ (∀ v, s.events.count (.finish v) ≤ 1) ∧ s.events.count .done ≤ 1 ∧
      ((¬ ∃ s', x.Step s s') →
        (∀ v, (b.vertex? v).isSome → s.events.count (.finish v) = 1) ∧ s.events.count .done = 1) := by
  have sound := Graph.build_sound builds distinct
  have wf := setup.wf sound
  refine ⟨⟨x.work x.init, fun n s run => ?_⟩, fun n s run => ?_⟩
  · exact le_trans (Nat.le_add_right n _) (run.work_le wf)
  · have inv := run.inv wf
    have dones := inv.dones
    refine ⟨inv.causal, fun v => ?_, ?_, fun stuck => ?_⟩
    · rw [inv.finished v]
      split <;> omega
    · split at dones <;> omega
    · have none := Contexts.tasks_eq_zero_of_stuck stuck
      rw [none] at inv dones
      have finished := inv.all_finished wf
      have join : s.memory.joinVertexNum = 0 := by
        rw [inv.join, List.countP_eq_zero]
        exact fun v member => by simpa using finished v member
      refine ⟨fun v here => ?_, by simpa [join] using dones⟩
      rw [inv.finished v, if_neg (finished v (setup.table.mem_iff.mpr ((sound.mem_values v).mpr here)))]

/-! A script of three vertices: `b` and `c` depend on `a`, and `c` on the success of `b`. -/

def sampleGraph : Graph := ⟨"g", [sampleVertex "a" [] [], sampleVertex "b" ["a"] [], sampleVertex "c" ["a"] ["b"]]⟩

def sampleBuilt : Built := (sampleGraph.build sampleCluster 4).join.get rfl

theorem finishes_once_of_build_sample :
    (∃ bound, ∀ n s, sampleBuilt.contexts.Execution n s → n ≤ bound) ∧
    ∀ n s, sampleBuilt.contexts.Execution n s →
      Lib.Causal sampleBuilt.contexts.Allowed s.events ∧ (∀ v, s.events.count (.finish v) ≤ 1) ∧
      s.events.count .done ≤ 1 ∧
      ((¬ ∃ s', sampleBuilt.contexts.Step s s') →
        (∀ v, (sampleBuilt.vertex? v).isSome → s.events.count (.finish v) = 1) ∧ s.events.count .done = 1) :=
  finishes_once_of_build (show sampleGraph.build sampleCluster 4 = some (some sampleBuilt) from rfl) (by decide)
     sampleBuilt.setup_contexts

/-! How the execution of a processor ends (`VertexContext::ExecuteProcessor`, `didagle/graph_executor.cpp`): with a result, or with an
    exception of the call or of what it waits for. -/

open Didagle.Task List

inductive ExecMode where
  | execSync
  | execAsyncFuture
  | execStdCoroutine
  | execAdaptive
  deriving DecidableEq

inductive Ending where
  | returned (rc : Int)
  | thrown
  | delivered
  deriving DecidableEq

def vCodeErr : Int := 2

def Ending.code : Ending → Int
  | returned rc => rc
  | thrown | delivered => vCodeErr

section
variable (coroutines : Bool)

/-- The mode runs a coroutine, where there are coroutines (`ISPINE_HAS_COROUTINES`). -/
def ExecMode.spawns : ExecMode → Bool
  | execSync | execAsyncFuture => false
  | execStdCoroutine | execAdaptive => coroutines

def Ending.Possible (mode : ExecMode) : Ending → Prop
  | returned _ | thrown => True
  | delivered => mode = .execAsyncFuture ∨ mode.spawns coroutines

def tryExecute (ignores : Bool) (e : Ending) : List Int := [if ignores then 0 else e.code]

/-- A coroutine is spawned without a `try` block; only its result is waited for. -/
def spawn (ignores : Bool) : Ending → List Int
  | .returned rc => [if ignores then 0 else rc]
  | .thrown | .delivered => []

def executeProcessor (mode : ExecMode) (ignores : Bool) (e : Ending) : List Int :=
  match mode with
  | .execAsyncFuture =>
    match e with
    | .returned rc => [if ignores then 0 else rc]
    | .thrown => [if ignores then 0 else vCodeErr]
    -- `thenValue` is not called with an exception
    | .delivered => []
  | .execStdCoroutine => if coroutines then spawn ignores e else tryExecute ignores e
  | .execAdaptive => if coroutines then spawn ignores e else tryExecute ignores e
  | .execSync => tryExecute ignores e

def Ending.caught (mode : ExecMode) : Ending → Bool
  | returned _ => true
  | thrown => !mode.spawns coroutines
  | delivered => false

variable {coroutines} {mode : ExecMode} {e : Ending}

lemma executeProcessor_of_caught (caught : e.caught coroutines mode) (ignores : Bool) :
    executeProcessor coroutines mode ignores e = [if ignores then 0 else e.code] := by
  cases e with
  | returned rc => cases mode <;> cases coroutines <;> rfl
  | thrown =>
    cases mode with
    | execSync | execAsyncFuture => rfl
    | execStdCoroutine | execAdaptive =>
      cases coroutines with
      | false => rfl
      | true => cases caught
  | delivered => cases caught

lemma executeProcessor_of_not_caught (possible : e.Possible coroutines mode) (lost : e.caught coroutines mode = false)
    (ignores : Bool) : executeProcessor coroutines mode ignores e = [] := by
  cases e with
  | returned rc => cases lost
  | thrown =>
    cases mode with
    | execSync | execAsyncFuture => cases lost
    | execStdCoroutine | execAdaptive =>
      cases coroutines with
      | false => cases lost
      | true => rfl
  | delivered =>
    cases mode with
    | execSync => rcases possible with other | other <;> cases other
    | execAsyncFuture => rfl
    | execStdCoroutine | execAdaptive =>
      cases coroutines with
      | false => rcases possible with other | other <;> cases other
      | true => rfl

end

namespace Contexts

variable {ν : Type} [DecidableEq ν] (x : Contexts ν) (coroutines : Bool) (mode : ν → ExecMode)

inductive Goes : Memory ν → Task ν → Memory ν → Multiset (Task ν) → List (Event ν) → List (ν × Ending) → Prop
  | other {m m' : Memory ν} {task : Task ν} {next : Multiset (Task ν)} {seen : List (Event ν)} (fires : x.Fires m task m' next seen)
      (other : ∀ v, task = .running v → x.processor v = false) : Goes m task m' next seen []
  | ends (m : Memory ν) (v : ν) (e : Ending) (processor : x.processor v = true) (possible : e.Possible coroutines (mode v)) :
      Goes m (.running v) m ↑((executeProcessor coroutines (mode v) (x.ignoresError v) e).map (Task.finish v)) [] [(v, e)]

inductive Runs : Nat → State ν → List (ν × Ending) → Prop
  | init : Runs 0 x.init []
  | step {n : Nat} {m m' : Memory ν} {task : Task ν} {next others : Multiset (Task ν)} {events seen : List (Event ν)}
      {ended how : List (ν × Ending)} (before : Runs n ⟨m, task ::ₘ others, events⟩ ended)
      (goes : x.Goes coroutines mode m task m' next seen how) : Runs (n + 1) ⟨m', next + others, events ++ seen⟩ (ended ++ how)

def Over (s : State ν) : Prop :=
  ∀ task ∈ s.tasks, ¬ ∃ m' next seen how, x.Goes coroutines mode s.memory task m' next seen how

def lost (ended : List (ν × Ending)) : List ν := (ended.filter fun p => !p.2.caught coroutines (mode p.1)).map Prod.fst

def outcome (p : ν × Ending) : VertexResult := if (if x.ignoresError p.1 then 0 else p.2.code) ≠ 0 then .err else .ok

structure Completed (s : State ν) (ended : List (ν × Ending)) : Prop where
  finished : ∀ v ∈ x.table, s.events.count (.finish v) = 1
  result : ∀ p ∈ ended, s.memory.result p.1 = x.outcome p
  done : s.events.count .done = 1

variable {x coroutines mode} {m m' : Memory ν} {s : State ν} {task : Task ν} {next others : Multiset (Task ν)}
  {events seen : List (Event ν)} {ended : List (ν × Ending)} {n : Nat}

lemma Runs.parked (runs : x.Runs coroutines mode n s ended) : ∃ k, n = k + (lost coroutines mode ended).length ∧
      x.Execution k ⟨s.memory, s.tasks + ↑((lost coroutines mode ended).map running), s.events⟩ := by
  induction runs with
  | init => exact ⟨0, rfl, by simpa [lost] using Execution.init⟩
  | @step n m m' task next others events seen ended how before goes ih =>
    obtain ⟨k, rfl, run⟩ := ih
    rw [cons_add] at run
    have appended : lost coroutines mode (ended ++ how) = lost coroutines mode ended ++ lost coroutines mode how := by
      rw [lost, filter_append, List.map_append]
      rfl
    rw [appended]
    cases goes with
    | other fires other =>
      refine ⟨k + 1, by simp [lost]; omega, ?_⟩
      simpa [lost, add_assoc] using run.step (.fire _ events fires)
    | ends v e processor possible =>
      cases caught : e.caught coroutines (mode v) with
      | true =>
        have none : lost coroutines mode [(v, e)] = [] := by simp [lost, caught]
        have reported := run.step (.fire _ events (.report m v e.code))
        rw [none, executeProcessor_of_caught caught]
        refine ⟨k + 1, by simp; omega, ?_⟩
        simpa [processor, add_assoc] using reported
      | false =>
        have one : lost coroutines mode [(v, e)] = [v] := by simp [lost, caught]
        rw [one, executeProcessor_of_not_caught possible caught]
        refine ⟨k, by simp; omega, ?_⟩
        have same : (((map (finish v) []) : List (Task ν)) : Multiset (Task ν)) + others +
            ↑((lost coroutines mode ended ++ [v]).map running) =
            running v ::ₘ (others + ↑((lost coroutines mode ended).map running)) := by
          rw [List.map_nil, coe_nil, zero_add, List.map_append, ← coe_add, List.map_singleton,
            coe_singleton, ← add_assoc, add_comm, singleton_add]
        rw [same]
        simpa using run

lemma tasks_eq_zero_of_over (quiet : x.Over coroutines mode s) : s.tasks = 0 := by
  refine eq_zero_of_forall_notMem fun task member => quiet task member ?_
  by_cases running : ∃ v, task = .running v ∧ x.processor v = true
  · obtain ⟨v, rfl, processor⟩ := running
    exact ⟨_, _, _, _, .ends s.memory v (.returned 0) processor trivial⟩
  · obtain ⟨m', next, seen, fires⟩ := x.exists_fires s.memory task
    refine ⟨m', next, seen, [], .other fires fun v same => ?_⟩
    cases processor : x.processor v with
    | false => rfl
    | true => exact absurd ⟨v, same, processor⟩ running

omit [DecidableEq ν] in
lemma outcome_ne_invalid (x : Contexts ν) (p : ν × Ending) : x.outcome p ≠ .invalid := by
  unfold outcome
  split_ifs <;> decide

lemma Fires.result (fires : x.Fires m task m' next seen) : m'.result = m.result ∨
    ∃ v code, task = .finish v code ∧ m'.result = update m.result v (if code ≠ 0 then .err else .ok) := by
  cases fires with
  | finish v code => exact .inr ⟨v, code, rfl, rfl⟩
  | _ => exact .inl rfl

lemma Runs.result (wf : x.Wf) (runs : x.Runs coroutines mode n s ended) : ∀ p ∈ ended, p.2.caught coroutines (mode p.1) →
      .finish p.1 (if x.ignoresError p.1 then 0 else p.2.code) ∈ s.tasks ∨ s.memory.result p.1 = x.outcome p := by
  induction runs with
  | init => intro p member; cases member
  | @step n m m' task next others events seen ended how before goes ih =>
    intro p member caught
    cases goes with
    | other fires other =>
      rw [append_nil] at member
      obtain ⟨k, -, run⟩ := before.parked
      rw [cons_add] at run
      have inv := run.inv wf
      rcases ih p member caught with there | set
      · rcases mem_cons.mp there with rfl | there
        · rcases fires.result with same | ⟨v, code, eq, set⟩
          · cases fires
            exact .inr (update_self ..)
          · cases eq
            exact .inr (by rw [set, update_self]; rfl)
        · exact .inl (mem_add.mpr (.inr there))
      · refine .inr ?_
        rcases fires.result with same | ⟨v, code, rfl, update⟩
        · rw [same, set]
        · obtain ⟨-, -, unset, -⟩ := inv.of_held (v := v) (by simp)
          have apart : p.1 ≠ v := by
            rintro rfl
            exact x.outcome_ne_invalid p (set.symm.trans unset)
          rw [update, update_of_ne apart, set]
    | ends v e processor possible =>
      rcases mem_append.mp member with old | new
      · refine (ih p old caught).imp_left fun there => mem_add.mpr (.inr ?_)
        rcases mem_cons.mp there with impossible | there
        · cases impossible
        · exact there
      · obtain rfl := List.mem_singleton.mp new
        refine .inl (mem_add.mpr (.inl ?_))
        rw [executeProcessor_of_caught caught]
        simp

lemma Runs.length_lost_le (wf : x.Wf) (runs : x.Runs coroutines mode n s ended) :
    (lost coroutines mode ended).length ≤ x.table.length := by
  obtain ⟨k, -, run⟩ := runs.parked
  have inv := run.inv wf
  have le : (↑(lost coroutines mode ended) : Multiset ν) ≤ ↑x.table := by
    rw [le_iff_count]
    intro v
    have held := inv.held v
    have parked : (Multiset.bind ↑((lost coroutines mode ended).map running) holds) =
        (↑(lost coroutines mode ended) : Multiset ν) := by
      generalize lost coroutines mode ended = vs
      induction vs with
      | nil => rfl
      | cons v vs ih => rw [List.map_cons, ← cons_coe, cons_bind, ih]; rfl
    rw [add_bind, count_add, parked] at held
    rw [coe_count, coe_count] at *
    rw [wf.table_nodup.count]
    split at held
    · next ready => rw [if_pos ready.1]; omega
    · omega
  exact card_le_card le

lemma Runs.le (wf : x.Wf) (runs : x.Runs coroutines mode n s ended) : n ≤ x.work x.init + x.table.length := by
  have few := runs.length_lost_le wf
  obtain ⟨k, rfl, run⟩ := runs.parked
  have bound := run.work_le wf
  omega

lemma Runs.count_of_lost (wf : x.Wf) (runs : x.Runs coroutines mode n s ended) {v : ν} (member : v ∈ lost coroutines mode ended) :
    v ∈ x.table ∧ s.events.count (.finish v) = 0 ∧ s.events.count .done = 0 := by
  obtain ⟨k, -, run⟩ := runs.parked
  have there : running v ∈ s.tasks + ↑((lost coroutines mode ended).map running) :=
    mem_add.mpr (.inr (mem_map_of_mem member))
  obtain ⟨others, split⟩ := exists_cons_of_mem there
  have inv := run.inv wf
  rw [split] at inv
  obtain ⟨inside, -, unset, -⟩ := inv.of_held (v := v) (by simp)
  have join : s.memory.joinVertexNum ≠ 0 := by
    rw [inv.join]
    exact Nat.ne_of_gt (countP_pos_iff.mpr ⟨v, inside, by simpa using unset⟩)
  have dones : _ + s.events.count .done = _ := inv.dones
  rw [if_neg join] at dones
  exact ⟨inside, by rw [inv.finished v, if_pos unset], Nat.eq_zero_of_add_eq_zero_left dones⟩

lemma Runs.completed (wf : x.Wf) (runs : x.Runs coroutines mode n s ended) (quiet : x.Over coroutines mode s)
    (caught : ∀ p ∈ ended, p.2.caught coroutines (mode p.1)) : x.Completed s ended := by
  have idle := tasks_eq_zero_of_over quiet
  have none : lost coroutines mode ended = [] := by
    rw [lost, filter_eq_nil_iff.mpr fun p member => by simp [caught p member]]
    rfl
  obtain ⟨k, -, run⟩ := runs.parked
  have inv := run.inv wf
  rw [none, map_nil, coe_nil, add_zero, idle] at inv
  have finished := inv.all_finished wf
  have join : s.memory.joinVertexNum = 0 := by
    rw [inv.join, countP_eq_zero]
    exact fun v member => by simpa using finished v member
  refine ⟨fun v member => ?_, fun p member => ?_, ?_⟩
  · rw [inv.finished v, if_neg (finished v member)]
  · have result := runs.result wf p member (caught p member)
    rw [idle] at result
    exact result.resolve_left (notMem_zero _)
  · have dones := inv.dones
    rwa [join, if_pos rfl, map_zero, sum_zero, Nat.zero_add] at dones

end Contexts

/-- The end of an execution is reported once, with the code that it should have, exactly if it is caught. -/
theorem completed_iff_caught {c : Cluster} {g : Graph} {fuel : Nat} {b : Built} {x : Contexts Ref}
    (builds : g.build c fuel = some (some b)) (distinct : (b.entries.map fun p => p.2.id).Nodup) (setup : b.Setup x)
    (coroutines : Bool) (mode : Ref → ExecMode) :
    (∀ mode ignores, ∀ e : Ending, e.Possible coroutines mode →
      (executeProcessor coroutines mode ignores e = [if ignores then 0 else e.code] ↔ e.caught coroutines mode)) ∧
    (∃ bound, ∀ n s ended, x.Runs coroutines mode n s ended → n ≤ bound) ∧
    ∀ n s ended, x.Runs coroutines mode n s ended → x.Over coroutines mode s →
      (x.Completed s ended ↔ ∀ p ∈ ended, p.2.caught coroutines (mode p.1)) ∧
      (s.events.count .done = 1 ↔ ∀ p ∈ ended, p.2.caught coroutines (mode p.1)) := by
  have wf := setup.wf (Graph.build_sound builds distinct)
  refine ⟨fun mode ignores e possible => ⟨fun reported => ?_, fun caught => executeProcessor_of_caught caught ignores⟩,
    ⟨_, fun n s ended runs => runs.le wf⟩, fun n s ended runs quiet => ?_⟩
  · by_contra lost
    rw [executeProcessor_of_not_caught possible (Bool.eq_false_iff.mpr lost)] at reported
    cases reported
  · have called : s.events.count .done = 1 → ∀ p ∈ ended, p.2.caught coroutines (mode p.1) := by
      intro once p member
      by_contra lost
      have there : p.1 ∈ Contexts.lost coroutines mode ended :=
        mem_map_of_mem (mem_filter.mpr ⟨member, by simpa using lost⟩)
      rw [(runs.count_of_lost wf there).2.2] at once
      cases once
    exact ⟨⟨fun completed => called completed.done, runs.completed wf quiet⟩, called,
      fun caught => (runs.completed wf quiet caught).done⟩

theorem completed_iff_caught_sample :
    (∀ mode ignores, ∀ e : Ending, e.Possible true mode →
      (executeProcessor true mode ignores e = [if ignores then 0 else e.code] ↔ e.caught true mode)) ∧
    (∃ bound, ∀ n s ended, sampleBuilt.contexts.Runs true (fun _ => .execAdaptive) n s ended → n ≤ bound) ∧
    ∀ n s ended, sampleBuilt.contexts.Runs true (fun _ => .execAdaptive) n s ended →
      sampleBuilt.contexts.Over true (fun _ => .execAdaptive) s →
      (sampleBuilt.contexts.Completed s ended ↔ ∀ p ∈ ended, p.2.caught true .execAdaptive) ∧
      (s.events.count .done = 1 ↔ ∀ p ∈ ended, p.2.caught true .execAdaptive) :=
  completed_iff_caught (show sampleGraph.build sampleCluster 4 = some (some sampleBuilt) from rfl) (by decide)
    sampleBuilt.setup_contexts true fun _ => .execAdaptive

theorem delivered_exception_lost :
    executeProcessor false .execAsyncFuture false .delivered = [] ∧
    ∃ n s, sampleBuilt.contexts.Runs false (fun _ => .execAsyncFuture) n s [(.declared 0, .delivered)] ∧
      sampleBuilt.contexts.Over false (fun _ => .execAsyncFuture) s ∧ s.events.count .done = 0 := by
  have started : sampleBuilt.contexts.Runs false (fun _ => .execAsyncFuture) 0
      ⟨sampleBuilt.contexts.reset, .execute (.declared 0) ::ₘ 0, []⟩ [] := .init
  have expected : sampleBuilt.contexts.matchesExpected sampleBuilt.contexts.reset (.declared 0) = true := rfl
  have running : sampleBuilt.contexts.Runs false (fun _ => .execAsyncFuture) 1
      ⟨sampleBuilt.contexts.reset, .running (.declared 0) ::ₘ 0, [.start (.declared 0)]⟩ [] :=
    started.step (.other (.run _ _ expected) fun v other => by cases other)
  have ended := running.step (.ends _ (Ref.declared 0) .delivered rfl (by exact .inl rfl))
  exact ⟨rfl, _, _, ended, fun task member => absurd member (notMem_zero task), rfl⟩

end Myctk.Didagle
