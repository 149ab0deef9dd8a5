import Myctk.Lib.Runs
import Myctk.Didagle.Executor

/-! The invariant of an execution. -/

namespace Myctk.Didagle

open Multiset Prod Function Lib VertexResult

variable {ν : Type} [DecidableEq ν]

/-- The dependencies are an acyclic graph. -/
structure Contexts.Wf (x : Contexts ν) : Prop where
  table_nodup : x.table.Nodup
  table_ne_nil : x.table ≠ []
  deps_nodup : ∀ v, ((x.deps v).map fst).Nodup
  successors_nodup : ∀ v, (x.successors v).Nodup
  mem_successors : ∀ v w, w ∈ x.successors v ↔ v ∈ (x.deps w).map fst
  ends : ∀ v w, w ∈ x.successors v → v ∈ x.table ∧ w ∈ x.table
  acyclic : ∀ v, ¬ Relation.TransGen (fun v w => w ∈ x.successors v) v v

lemma Built.Setup.wf {b : Built} {x : Contexts Ref} (setup : b.Setup x) (sound : b.Sound) : x.Wf where
  table_nodup := setup.table.nodup_iff.mpr sound.values_nodup
  table_ne_nil empty := by
    have perm := setup.table
    rw [empty, List.nil_perm, List.map_eq_nil_iff] at perm
    exact sound.nonempty perm
  deps_nodup v := setup.deps ▸ sound.wf.deps_nodup v
  successors_nodup v := (setup.successors v).nodup_iff.mpr (sound.wf.successors_nodup v)
  mem_successors v w := by rw [(setup.successors v).mem_iff, sound.wf.mem_successors, setup.deps]
  ends v w edge := by
    have ends := sound.wf.ends v w ((setup.successors v).mem_iff.mp edge)
    rwa [← sound.mem_values, ← sound.mem_values, ← setup.table.mem_iff, ← setup.table.mem_iff] at ends
  acyclic v path :=
    sound.acyclic v (Relation.TransGen.mono (fun v _ edge => (setup.successors v).mem_iff.mp edge) v v path)

namespace Task

@[simp] def holds : Task ν → Multiset ν
  | execute v | running v | finish v _ => {v}
  | successors _ _ ready | stored _ _ _ _ ready => ready
  | dispatch others here => here ::ₘ others
  | done => 0

@[simp] def tells : Task ν → Multiset ν
  | successors _ rest _ => rest
  | stored _ w _ rest _ => w ::ₘ rest
  | _ => 0

@[simp] def teller : Task ν → Multiset ν
  | successors v _ _ | stored v _ _ _ _ => {v}
  | _ => 0

@[simp] def dones : Task ν → Nat
  | done => 1
  | _ => 0

/-- The successors still to tell have no result of `v` yet. -/
def Untold (x : Contexts ν) (m : Memory ν) (v : ν) (rest : List ν) : Prop :=
  rest.Nodup ∧ ∀ w ∈ rest, w ∈ x.successors v ∧ m.depsResults w (x.dependencyIndex w v) = .invalid

@[simp] def Fresh (x : Contexts ν) (m : Memory ν) : Task ν → Prop
  | successors v rest _ => Untold x m v rest
  | stored v w last rest _ => last = .invalid ∧ w ∈ x.successors v ∧ Untold x m v rest
  | _ => True

end Task

namespace Contexts
variable (x : Contexts ν)

def Allowed (before : List (Event ν)) : Event ν → Prop
  | .start v => ∀ d ∈ x.deps v, .finish d.1 ∈ before
  | .finish _ => True
  | .done => ∀ v ∈ x.table, .finish v ∈ before

structure Inv (m : Memory ν) (tasks : Multiset (Task ν)) (events : List (Event ν)) : Prop where
  join : m.joinVertexNum = x.table.countP fun v => m.result v = .invalid
  waiting : ∀ v, m.waitingNum v =
    ((x.deps v).map fst).countP (fun u => m.result u = .invalid) + (tasks.bind Task.tells).count v
  held : ∀ v, (tasks.bind Task.holds).count v =
    if v ∈ x.table ∧ m.waitingNum v = 0 ∧ m.result v = .invalid then 1 else 0
  settled : ∀ v, m.result v ≠ .invalid → m.waitingNum v = 0
  tellers : ∀ v, (tasks.bind Task.teller).count v ≤ if m.result v = .invalid then 0 else 1
  untold : ∀ v, m.result v = .invalid → ∀ w ∈ x.successors v, m.depsResults w (x.dependencyIndex w v) = .invalid
  fresh : ∀ task ∈ tasks, task.Fresh x m
  dones : (tasks.map Task.dones).sum + events.count .done = if m.joinVertexNum = 0 then 1 else 0
  finished : ∀ v, events.count (.finish v) = if m.result v = .invalid then 0 else 1
  causal : Causal x.Allowed events

variable {x}

section
variable {m m' : Memory ν} {task : Task ν} {next others : Multiset (Task ν)} {events seen : List (Event ν)}

lemma Inv.of_held {v : ν} (inv : x.Inv m (task ::ₘ others) events) (here : 1 ≤ task.holds.count v) :
    v ∈ x.table ∧ m.waitingNum v = 0 ∧ m.result v = .invalid ∧ (others.bind Task.holds).count v = 0 := by
  have held := inv.held v
  rw [cons_bind, count_add] at held
  split at held
  · next ready => exact ⟨ready.1, ready.2.1, ready.2.2, by omega⟩
  · omega

lemma Inv.of_teller {v : ν} (inv : x.Inv m (task ::ₘ others) events) (here : task.teller = {v}) :
    m.result v ≠ .invalid ∧ (others.bind Task.teller).count v = 0 := by
  have bound := inv.tellers v
  rw [cons_bind, count_add, here, count_singleton_self] at bound
  split at bound
  · omega
  · next settled => exact ⟨settled, by omega⟩

lemma Inv.finish_mem {v : ν} (inv : x.Inv m others events) (settled : m.result v ≠ .invalid) : .finish v ∈ events := by
  have count := inv.finished v
  rw [if_neg settled] at count
  exact List.count_pos_iff.mp (by omega)

lemma Inv.allowed_start {v : ν} (inv : x.Inv m others events) (ready : m.waitingNum v = 0) : x.Allowed events (.start v) := by
  intro d member
  have waiting := inv.waiting v
  have none : ((x.deps v).map fst).countP (fun u => m.result u = .invalid) = 0 := by omega
  have settled := List.countP_eq_zero.mp none d.1 (List.mem_map_of_mem member)
  exact inv.finish_mem (by simpa using settled)

lemma fresh_congr (same : m'.depsResults = m.depsResults) (fresh : task.Fresh x m) : task.Fresh x m' := by
  cases task with
  | successors | stored => simpa only [Task.Fresh, Task.Untold, same] using fresh
  | _ => trivial

lemma Inv.replace (inv : x.Inv m (task ::ₘ others) events)
    (holds : next.bind Task.holds = task.holds) (tells : next.bind Task.tells = task.tells) (teller : next.bind Task.teller ≤ task.teller)
    (dones : (next.map Task.dones).sum + seen.count .done = task.dones) (fresh : ∀ task ∈ next, task.Fresh x m)
    (finishes : ∀ v, seen.count (.finish v) = 0) (causal : Causal x.Allowed (events ++ seen)) :
    x.Inv m (next + others) (events ++ seen) where
  join := inv.join
  waiting v := by
    rw [add_bind, tells, ← cons_bind]
    exact inv.waiting v
  held v := by
    rw [add_bind, holds, ← cons_bind]
    exact inv.held v
  settled := inv.settled
  tellers v := by
    refine le_trans (count_le_of_le v ?_) (inv.tellers v)
    rw [add_bind, cons_bind]
    exact add_le_add_left teller _
  untold := inv.untold
  fresh task' member := by
    rcases mem_add.mp member with new | old
    · exact fresh task' new
    · exact inv.fresh task' (mem_cons_of_mem old)
  dones := by
    rw [← inv.dones, map_add, sum_add, map_cons, sum_cons, List.count_append]
    omega
  finished v := by rw [List.count_append, finishes v, inv.finished v, add_zero]
  causal := causal

end

lemma countP_update (r : ν → VertexResult) {v : ν} {new : VertexResult} (old : r v = .invalid) (set : new ≠ .invalid) (l : List ν) :
    l.countP (fun u => update r v new u = .invalid) + l.count v = l.countP fun u => r u = .invalid := by
  induction l with
  | nil => rfl
  | cons u l ih =>
    by_cases here : u = v
    · subst here
      simp only [List.countP_cons, List.count_cons_self, update_self, set, old, decide_true, decide_false]
      simp only [Bool.false_eq_true, if_false, if_true]
      omega
    · simp only [List.countP_cons, List.count_cons_of_ne here, update_of_ne here]
      omega

section
variable {m : Memory ν} {others : Multiset (Task ν)} {events : List (Event ν)} {v : ν} {code : Int}

lemma Wf.count_successors (wf : x.Wf) (v w : ν) : (x.successors v).count w = ((x.deps w).map fst).count v := by
  rw [(wf.successors_nodup v).count, (wf.deps_nodup w).count]
  simp only [wf.mem_successors]

lemma Inv.successors_of_last (inv : x.Inv m (.finish v code ::ₘ others) events) (wf : x.Wf)
    (last : m.joinVertexNum = 1) : x.successors v = [] := by
  obtain ⟨member, _, unfinished, _⟩ := inv.of_held (v := v) (by simp [Task.holds])
  refine List.eq_nil_iff_forall_not_mem.mpr fun w edge => ?_
  have other : w ≠ v := by
    rintro rfl
    exact wf.acyclic w (.single edge)
  have waits : m.waitingNum w ≠ 0 := by
    have dep : v ∈ (x.deps w).map fst := (wf.mem_successors v w).mp edge
    have counted : 0 < ((x.deps w).map fst).countP fun u => m.result u = .invalid :=
      List.countP_pos_iff.mpr ⟨v, dep, by simpa using unfinished⟩
    have := inv.waiting w
    omega
  -- Neither `v` nor `w` is finished, so both are counted.
  have rest := countP_update m.result unfinished (by decide : ok ≠ .invalid) x.table
  rw [wf.table_nodup.count, if_pos member, ← inv.join, last] at rest
  have none := List.countP_eq_zero.mp (Nat.add_right_cancel (m := 1) rest) w (wf.ends v w edge).2
  rw [update_of_ne other] at none
  exact waits (inv.settled w (by simpa using none))

lemma Inv.tells_onVertexDone (inv : x.Inv m (.finish v code ::ₘ others) events) (wf : x.Wf) :
    (x.onVertexDone v m.joinVertexNum).tells = ↑(x.successors v) := by
  unfold onVertexDone
  split
  · next last => rw [inv.successors_of_last wf last]; rfl
  · rfl

omit [DecidableEq ν] in
@[simp] lemma holds_onVertexDone (v : ν) (join : Nat) : (x.onVertexDone v join).holds = 0 := by
  unfold onVertexDone
  split <;> rfl

omit [DecidableEq ν] in
lemma teller_onVertexDone (v : ν) (join : Nat) : (x.onVertexDone v join).teller ≤ {v} := by
  unfold onVertexDone
  split <;> simp [Task.teller]

omit [DecidableEq ν] in
@[simp] lemma dones_onVertexDone (v : ν) (join : Nat) : (x.onVertexDone v join).dones = if join = 1 then 1 else 0 := by
  unfold onVertexDone
  split <;> rfl

lemma Inv.finish (inv : x.Inv m (.finish v code ::ₘ others) events) (wf : x.Wf) : x.Inv { m with
          result := update m.result v (if code ≠ 0 then .err else .ok)
          joinVertexNum := m.joinVertexNum - 1 }
      ({x.onVertexDone v m.joinVertexNum} + others) (events ++ [.finish v]) := by
  obtain ⟨member, ready, unfinished, alone⟩ := inv.of_held (v := v) (by simp [Task.holds])
  have set : (if code ≠ 0 then err else .ok) ≠ .invalid := by split <;> decide
  generalize (if code ≠ 0 then err else .ok) = new at set ⊢
  have counts := countP_update m.result unfinished set
  have join := counts x.table
  rw [wf.table_nodup.count, if_pos member, ← inv.join] at join
  refine ⟨?_, fun w => ?_, fun w => ?_, fun w settled => ?_, fun w => ?_, fun u unset w edge => ?_,
    fun task present => ?_, ?_, fun w => ?_, ?_⟩
  · show m.joinVertexNum - 1 = x.table.countP fun u => update m.result v new u = .invalid
    omega
  · have waiting := inv.waiting w
    have told := wf.count_successors v w
    have fewer := counts ((x.deps w).map fst)
    rw [cons_bind] at waiting
    simp only [Task.tells, zero_add] at waiting
    simp only [singleton_add, cons_bind, inv.tells_onVertexDone wf, count_add,
      coe_count]
    omega
  · have held := inv.held w
    simp only [singleton_add, cons_bind, count_add, holds_onVertexDone,
      count_zero, Nat.zero_add]
    by_cases here : w = v
    · subst here
      simp only [update_self, set, and_false, if_false]
      exact alone
    · simpa [cons_bind, Task.holds, count_singleton, here] using held
  · by_cases here : w = v
    · exact here ▸ ready
    · exact inv.settled w (by simpa [here] using settled)
  · have bound := inv.tellers w
    simp only [cons_bind, Task.teller, zero_add] at bound
    simp only [singleton_add, cons_bind, count_add]
    have self := count_le_of_le w (teller_onVertexDone (x := x) v m.joinVertexNum)
    by_cases here : w = v
    · subst here
      rw [count_singleton_self] at self
      simp only [update_self, set, if_false, unfinished, if_true] at bound ⊢
      omega
    · rw [count_singleton, if_neg here] at self
      simp only [update_of_ne here]
      omega
  · have other : u ≠ v := by
      rintro rfl
      simp [set] at unset
    exact inv.untold u (by simpa [other] using unset) w edge
  · rcases mem_add.mp present with new | old
    · rw [mem_singleton.mp new]
      unfold onVertexDone
      split
      · trivial
      · exact ⟨wf.successors_nodup v, fun w edge => ⟨edge, inv.untold v unfinished w edge⟩⟩
    · exact fresh_congr rfl (inv.fresh task (mem_cons_of_mem old))
  · have dones := inv.dones
    simp only [map_cons, sum_cons, Task.dones, Nat.zero_add] at dones
    rw [if_neg (by omega)] at dones
    rw [singleton_add, map_cons, sum_cons, List.count_append, dones_onVertexDone]
    show _ + (events.count .done + 0) = if m.joinVertexNum - 1 = 0 then 1 else 0
    split <;> split <;> omega
  · have finished := inv.finished w
    rw [List.count_append, finished]
    by_cases here : w = v
    · subst here
      simp [unfinished, set]
    · simp [here, Ne.symm here]
  · exact causal_concat.mpr ⟨inv.causal, trivial⟩

end

section
variable {m : Memory ν} {others : Multiset (Task ν)} {events : List (Event ν)} {v w : ν} {rest ready : List ν}

lemma Wf.store_other (wf : x.Wf) (m : Memory ν) {v w u w' : ν} (left : w ∈ x.successors v)
    (right : w' ∈ x.successors u) (other : u ≠ v ∨ w' ≠ w) (r : VertexResult) :
    update m.depsResults w (update (m.depsResults w) (x.dependencyIndex w v) r) w'
      (x.dependencyIndex w' u) = m.depsResults w' (x.dependencyIndex w' u) := by
  by_cases here : w' = w
  · subst here
    have apart : x.dependencyIndex w' u ≠ x.dependencyIndex w' v := by
      intro same
      refine other.elim (fun apart => apart ?_) fun apart => apart rfl
      exact (List.idxOf_inj ((wf.mem_successors u w').mp right)).mp same
    rw [update_self, update_of_ne apart]
  · rw [update_of_ne here]

lemma Inv.store (inv : x.Inv m (.successors v (w :: rest) ready ::ₘ others) events) (wf : x.Wf) :
    x.Inv
      { m with depsResults :=
          update m.depsResults w (update (m.depsResults w) (x.dependencyIndex w v) (m.result v)) }
      ({.stored v w (m.depsResults w (x.dependencyIndex w v)) rest ready} + others) events := by
  obtain ⟨settled, alone⟩ := inv.of_teller (v := v) rfl
  obtain ⟨nodup, untold⟩ := inv.fresh _ (mem_cons_self _ _)
  obtain ⟨edge, invalid⟩ := untold w List.mem_cons_self
  have keeps : ∀ {u rest'}, u ≠ v ∨ w ∉ rest' → Task.Untold x m u rest' → Task.Untold x
      { m with depsResults :=
          update m.depsResults w (update (m.depsResults w) (x.dependencyIndex w v) (m.result v)) }
      u rest' := by
    intro u rest' other ⟨nodup, untold⟩
    refine ⟨nodup, fun w' member => ⟨(untold w' member).1, ?_⟩⟩
    rw [← (untold w' member).2]
    refine wf.store_other m edge (untold w' member).1 (other.imp_right fun absent => ?_) _
    rintro rfl
    exact absent member
  refine ⟨inv.join, fun u => ?_, fun u => ?_, inv.settled, fun u => ?_, fun u unset w' edge' => ?_, fun task present => ?_,
    ?_, inv.finished, inv.causal⟩
  · simpa only [singleton_add, cons_bind, Task.tells, cons_coe] using inv.waiting u
  · simpa only [singleton_add, cons_bind, Task.holds] using inv.held u
  · simpa only [singleton_add, cons_bind, Task.teller] using inv.tellers u
  · have other : u ≠ v := by
      rintro rfl
      exact settled unset
    rw [← inv.untold u unset w' edge']
    exact wf.store_other m edge edge' (.inl other) _
  · rcases mem_add.mp present with new | old
    · rw [mem_singleton.mp new]
      rw [List.nodup_cons] at nodup
      exact ⟨invalid, edge, keeps (.inr nodup.1) ⟨nodup.2, fun w' member => untold w' (List.mem_cons_of_mem _ member)⟩⟩
    · -- The task of another thread tells of another vertex.
      have fresh := inv.fresh task (mem_cons_of_mem old)
      have other : v ∉ task.teller := fun member =>
        count_eq_zero.mp alone (mem_bind.mpr ⟨task, old, member⟩)
      cases task with
      | successors u rest' ready' =>
        exact keeps (.inl fun same => other (by simp [Task.teller, same])) fresh
      | stored u w' last rest' ready' =>
        exact ⟨fresh.1, fresh.2.1, keeps (.inl fun same => other (by simp [Task.teller, same])) fresh.2.2⟩
      | _ => trivial
  · simpa only [singleton_add, map_cons, sum_cons, Task.dones] using inv.dones

omit [DecidableEq ν] in
@[simp] lemma tells_told (v w : ν) (n : Nat) (rest ready : List ν) : (told v w n rest ready).bind Task.tells = ↑rest := by
  unfold told
  split_ifs with _ none
  · simp [Task.tells, none.1]
  · simp [Task.tells]
  · simp [Task.tells]

omit [DecidableEq ν] in
@[simp] lemma holds_told (v w : ν) (n : Nat) (rest ready : List ν) :
    (told v w n rest ready).bind Task.holds = ↑ready + if n = 1 then {w} else 0 := by
  unfold told
  split_ifs with _ none
  · simp [Task.holds, none.2]
  · simp only [singleton_bind, Task.holds, ← coe_add]
    rfl
  · simp [Task.holds]

omit [DecidableEq ν] in
lemma teller_told (v w : ν) (n : Nat) (rest ready : List ν) : (told v w n rest ready).bind Task.teller ≤ {v} := by
  unfold told
  split_ifs <;> simp [Task.teller]

omit [DecidableEq ν] in
@[simp] lemma dones_told (v w : ν) (n : Nat) (rest ready : List ν) : ((told v w n rest ready).map Task.dones).sum = 0 := by
  unfold told
  split_ifs <;> simp [Task.dones]

lemma Inv.count {last : VertexResult} (inv : x.Inv m (.stored v w last rest ready ::ₘ others) events) (wf : x.Wf) : x.Inv
      { m with waitingNum :=
          if last = .invalid then update m.waitingNum w (m.waitingNum w - 1) else m.waitingNum }
      (told v w (m.waitingNum w) rest ready + others) events := by
  obtain ⟨rfl, edge, untold⟩ := inv.fresh _ (mem_cons_self _ _)
  have waits : m.waitingNum w =
      ((x.deps w).map fst).countP (fun u => m.result u = .invalid) +
        (1 + rest.count w + (others.bind Task.tells).count w) := by
    rw [inv.waiting w, cons_bind, count_add, Task.tells, count_cons_self, coe_count]
    omega
  have unset : m.result w = .invalid := by
    by_contra settled
    have := inv.settled w settled
    omega
  rw [if_pos rfl]
  refine ⟨inv.join, fun u => ?_, fun u => ?_, fun u settled => ?_, fun u => ?_, inv.untold, fun task present => ?_, ?_,
    inv.finished, inv.causal⟩
  · simp only [add_bind, tells_told, count_add, coe_count]
    by_cases here : u = w
    · subst here
      rw [update_self]
      omega
    · have waiting := inv.waiting u
      rw [cons_bind, count_add, Task.tells, count_cons_of_ne here, coe_count] at waiting
      rw [update_of_ne here, waiting]
  · have held := inv.held u
    rw [cons_bind, count_add, Task.holds] at held
    simp only [add_bind, holds_told, count_add]
    by_cases here : u = w
    · subst here
      rw [if_neg (by omega)] at held
      simp only [update_self, (wf.ends v u edge).2, unset, true_and, and_true, apply_ite (count u),
        count_singleton_self, count_zero]
      split <;> split <;> omega
    · simp only [update_of_ne here]
      rw [← held]
      split <;> simp [here]
  · have ready := inv.settled u settled
    have here : u ≠ w := by
      rintro rfl
      exact settled unset
    simpa [here] using ready
  · refine le_trans ?_ (inv.tellers u)
    rw [add_bind, cons_bind, count_add, count_add]
    exact Nat.add_le_add_right (count_le_of_le u (teller_told ..)) _
  · rcases mem_add.mp present with new | old
    · unfold told at new
      split_ifs at new <;> rw [mem_singleton.mp new]
      · trivial
      · exact untold
      · exact untold
    · exact fresh_congr rfl (inv.fresh task (mem_cons_of_mem old))
  · simpa only [map_add, map_cons, sum_add, sum_cons, dones_told, Task.dones] using
      inv.dones

end

lemma cons_filter_perm {ready : List ν} {here : ν} (nodup : ready.Nodup) (member : here ∈ ready) :
    (here :: ready.filter (· ≠ here)).Perm ready := by
  have erased : ready.erase here = ready.filter (· ≠ here) := by
    rw [nodup.erase_eq_filter]
    exact List.filter_congr fun u _ => by simp [bne, beq_eq_decide]
  exact erased ▸ (List.perm_cons_erase member).symm

omit [DecidableEq ν] in
lemma here_mem (x : Contexts ν) (v w : ν) (ready : List ν) :
    ((v :: w :: ready).find? fun u => !x.processor u || !x.isIOProcessor u).getD v ∈ v :: w :: ready := by
  rcases found : (v :: w :: ready).find? fun u => !x.processor u || !x.isIOProcessor u with _ | u
  · exact List.mem_cons_self
  · exact List.mem_of_find?_eq_some found

section
variable (x)

lemma holds_executeReadyVertexs {ready : List ν} (nodup : ready.Nodup) : (x.executeReadyVertexs ready).bind Task.holds = ↑ready := by
  unfold executeReadyVertexs
  split
  · simp
  · simp [Task.holds]
  · simp only [singleton_bind, Task.holds, cons_coe, coe_eq_coe]
    exact cons_filter_perm nodup (here_mem x ..)

@[simp] lemma tells_executeReadyVertexs (ready : List ν) : (x.executeReadyVertexs ready).bind Task.tells = 0 := by
  unfold executeReadyVertexs
  split <;> simp [Task.tells]

@[simp] lemma teller_executeReadyVertexs (ready : List ν) : (x.executeReadyVertexs ready).bind Task.teller = 0 := by
  unfold executeReadyVertexs
  split <;> simp [Task.teller]

@[simp] lemma dones_executeReadyVertexs (ready : List ν) : ((x.executeReadyVertexs ready).map Task.dones).sum = 0 := by
  unfold executeReadyVertexs
  split <;> simp [Task.dones]

lemma fresh_executeReadyVertexs (m : Memory ν) (ready : List ν) : ∀ task ∈ x.executeReadyVertexs ready, task.Fresh x m := by
  unfold executeReadyVertexs
  split <;> simp [Task.Fresh]

end

variable {m m' : Memory ν} {task : Task ν} {next others : Multiset (Task ν)} {events seen : List (Event ν)}

lemma Inv.ready_nodup {v : ν} {rest ready : List ν} (inv : x.Inv m (.successors v rest ready ::ₘ others) events) : ready.Nodup := by
  refine List.nodup_iff_count_le_one.mpr fun u => ?_
  have held := inv.held u
  rw [cons_bind, count_add, Task.holds, coe_count] at held
  split at held <;> omega

lemma Inv.start {v : ν} (inv : x.Inv m (.execute v ::ₘ others) events) : Causal x.Allowed (events ++ [.start v]) := by
  obtain ⟨_, ready, _⟩ := inv.of_held (v := v) (by simp [Task.holds])
  exact causal_concat.mpr ⟨inv.causal, inv.allowed_start ready⟩

lemma Inv.called (inv : x.Inv m (.done ::ₘ others) events) : Causal x.Allowed (events ++ [.done]) := by
  have dones := inv.dones
  rw [map_cons, sum_cons, Task.dones, inv.join] at dones
  refine causal_concat.mpr ⟨inv.causal, fun v member => ?_⟩
  split at dones
  · next none => exact inv.finish_mem (by simpa using List.countP_eq_zero.mp none v member)
  · omega

lemma Inv.fires (inv : x.Inv m (task ::ₘ others) events) (wf : x.Wf) (fires : x.Fires m task m' next seen) :
    x.Inv m' (next + others) (events ++ seen) := by
  cases fires with
  | skip => refine inv.replace ?_ ?_ ?_ ?_ ?_ ?_ inv.start <;> simp
  | run => refine inv.replace ?_ ?_ ?_ ?_ ?_ ?_ inv.start <;> simp
  | report => refine inv.replace ?_ ?_ ?_ ?_ ?_ ?_ (by simpa using inv.causal) <;> simp
  | finish => exact inv.finish wf
  | store => simpa only [List.append_nil] using inv.store wf
  | count => simpa only [List.append_nil] using inv.count wf
  | leave =>
    refine inv.replace (holds_executeReadyVertexs x inv.ready_nodup) ?_ ?_ ?_ (fresh_executeReadyVertexs x _ _) ?_
      (by simpa using inv.causal) <;> simp
  | hand v rest here =>
    refine inv.replace ?_ ?_ ?_ ?_ ?_ ?_ (by simpa using inv.causal) <;> simp [List.Perm.swap]
  | keep => refine inv.replace ?_ ?_ ?_ ?_ ?_ ?_ (by simpa using inv.causal) <;> simp
  | done => refine inv.replace ?_ ?_ ?_ ?_ ?_ ?_ inv.called <;> simp

lemma inv_init (wf : x.Wf) : x.Inv x.init.memory x.init.tasks x.init.events where
  join := by simp [init, reset]
  waiting v := by simp [init, reset]
  held v := by
    have nodup : (x.table.filter fun v => (x.deps v).isEmpty).Nodup := wf.table_nodup.filter _
    simp [init, reset, holds_executeReadyVertexs x nodup, nodup.count]
  settled v settled := by simp [init, reset] at settled
  tellers v := by simp [init]
  untold v _ w _ := rfl
  fresh := fresh_executeReadyVertexs x _ _
  dones := by simp [init, reset, wf.table_ne_nil]
  finished v := by simp [init, reset]
  causal := causal_nil

lemma Execution.inv (wf : x.Wf) {n : Nat} {s : State ν} (run : x.Execution n s) : x.Inv s.memory s.tasks s.events := by
  induction run with
  | init => exact inv_init wf
  | step _ step ih =>
    cases step with
    | fire others events fires => exact ih.fires wf fires

end Contexts

end Myctk.Didagle
