import Mathlib.Tactic
import Myctk.Didagle.DataRun

/-! The orders in which the vertices of a graph can run: what they all have in common, and a graph whose vertices race. -/

namespace Myctk.Didagle

open Lib Data Relation List Option Prod FieldData Threads Wiring Nat Around Built Set Ready Bool

variable {α : Type}

namespace Wiring

variable {x : Wiring} {vars : Ref → List Char → String} {env : Environment α} {c c' : RunState α} {v : Ref}

variable (x vars) in
/-- The number of actions that are still to come. -/
def left (l : Ref → VertexState α) : Nat := (x.table.map fun w => (x.actions vars w).length - (l w).done).sum

lemma left_fire (ready : x.Ready vars v c.threads) : x.left vars ((x.threads vars env).fire v c).threads < x.left vars c.threads := by
  refine sum_lt_sum _ _ (fun w _ => ?_) ⟨v, ready.table, ?_⟩
  · rcases eq_or_ne w v with rfl | different
    · rw [done_fire ready]
      omega
    · rw [threads_fire_of_ne different]
  · have left := ready.left
    rw [done_fire ready]
    omega

variable (x vars env) in
lemma exists_stuck (turn : Set Ref) (c : RunState α) :
    ∃ c', (x.threads vars env).Steps turn c c' ∧ ∀ v ∈ turn, ¬ x.Ready vars v c'.threads :=
  Threads.exists_stuck (x.left vars) (fun _ _ ready => left_fire ready) turn c

variable (x vars env) in
lemma exists_ended (c : RunState α) : ∃ c', (x.threads vars env).Steps univ c c' ∧ (x.threads vars env).Ended c' := by
  obtain ⟨c', run, stuck⟩ := exists_stuck x vars env univ c
  exact ⟨c', run, fun v => stuck v trivial⟩

end Wiring

def Built.fields (c : Cluster) (types : Types) (b : Built) (v : Ref) : Option (List FieldData × List FieldData) :=
  (b.vertex? v).bind fun n => (n.setup c types).join

def Built.wiring (c : Cluster) (types : Types) (b : Built) : Wiring where
  toContexts := { b.contexts with processor := fun v => (b.fields c types v).isSome }
  fields := b.fields c types
  expectConfig v := ((b.vertex? v).map Vertex.expectConfig).getD ""
  selects v := ((b.vertex? v).map fun n => n.selectArgs.map fun text =>
    if isCondExpr text ∧ (c.processors c.defaultExprProcessor).isSome then none else some (flagRequest types.bool text)).getD []
  children := b.contexts.table.filter fun v => (b.vertex? v).any fun n => n.cluster ≠ ""
  reaches _ := []
  provides _ := []
  registered := b.contexts.table.flatMap (fun v =>
      ((((b.fields c types v).map fst).getD []).filter fun e => !e.isExtern).map key ++
        ((((b.fields c types v).map snd).getD []).filter fun e => !isVariable e.key.name).map key) ++
    c.configSetting.map fun name => ⟨name, types.bool⟩
  shared := types.shared
  bool := types.bool

lemma Built.wires_wiring {c : Cluster} {types : Types} {b : Built}
    (sets : ∀ v ∈ b.contexts.table, ∀ n, b.vertex? v = some n → (n.setup c types).isSome)
    (distinct : ((b.contexts.table.flatMap (b.wiring c types).outputs).map key).Nodup)
    (ends : ∀ v ∈ b.contexts.table, ∀ w ∈ b.successors v, w ∈ b.contexts.table) : b.Wires c types (b.wiring c types) where
  table := .refl _
  deps := rfl
  successors _ := .refl _
  ignoresError := b.setup_contexts.ignoresError
  fields v n there member := by
    obtain ⟨fields, set⟩ := isSome_iff_exists.mp (sets v member n there)
    simp only [Built.wiring, Built.fields, there, set, bind_some]
    rfl
  processor _ := rfl
  expectConfig v n there := by simp [wiring, there]
  selects v n there := by simp [wiring, there]
  distinct := distinct
  successors_table := ends
  children v := by
    show v ∈ filter _ _ ↔ _
    rw [mem_filter]
    refine and_congr_right fun _ => ?_
    cases b.vertex? v <;> simp
  subgraph _ _ _ found := by cases found
  registered := rfl
  shared := rfl
  bool := rfl

namespace Wiring

variable (x : Wiring) (vars : Ref → List Char → String) (env : Environment α)

instance (l : Ref → VertexState α) (v : Ref) : Decidable (x.Finished vars l v) := inferInstanceAs (Decidable (_ = _))

instance (l : Ref → VertexState α) (v : Ref) : Decidable (x.Ready vars v l) :=
  decidable_of_iff (v ∈ x.table ∧ (∀ d ∈ x.deps v, x.Finished vars l d.1) ∧ (l v).done < (x.actions vars v).length)
    ⟨fun ⟨table, deps, left⟩ => ⟨table, deps, left⟩, fun ⟨table, deps, left⟩ => ⟨table, deps, left⟩⟩

def play : List Ref → RunState α → Option (RunState α)
  | [], c => some c
  | v :: schedule, c => if x.Ready vars v c.threads then play schedule ((x.threads vars env).fire v c) else none

variable {x vars env} {c c' : RunState α}

lemma steps_of_play {schedule : List Ref} (plays : x.play vars env schedule c = some c') : (x.threads vars env).Steps univ c c' := by
  induction schedule generalizing c with
  | nil =>
    cases plays
    exact .refl
  | cons v schedule ih =>
    rw [play] at plays
    split at plays
    · next ready => exact (ih plays).head ⟨v, trivial, ready, rfl⟩
    · cases plays

lemma ended_of_finished (finished : ∀ v ∈ x.table, x.Finished vars c.threads v) : (x.threads vars env).Ended c :=
  fun v ready => (finished v (table ready)).ne ready rfl

end Wiring

/-! `p` sets `x`; `a` moves it, changes it and gives it out as `y`, and `b` reads it. -/

def racingVertex (id : String) (output : List GraphData) : Vertex := { Vertex.empty with id, processor := id, output }

def racingGraph : Graph :=
  ⟨"g", [racingVertex "p" [], racingVertex "a" [⟨"y", "x", [], false, false, false, false, ""⟩], racingVertex "b" []]⟩

def racingCluster : Cluster :=
  ⟨"s", "expr", [], true, fun name =>
    if name = "p" then some ([], ["x"])
    else if name = "a" then some ([⟨"x", false, true⟩], ["x"])
    else if name = "b" then some ([⟨"x", false, false⟩], [])
    else none⟩

def racingBuilt : Built := (racingGraph.build racingCluster 4).join.get rfl

def racingTypes : Types := ⟨fun _ _ => 1, fun _ _ => 1, 0, fun _ => false⟩

def racingWiring : Wiring := racingBuilt.wiring racingCluster racingTypes

lemma wires_racing : racingBuilt.Wires racingCluster racingTypes racingWiring :=
  wires_wiring (by decide) (by decide) (by decide)

def racingEnv : Environment Nat where
  truth _ := true
  cond _ _ := false
  outer := 0
  rc _ _ := 0
  output v inputs _ := if v = .declared 0 then some 7 else inputs.head?.join
  data _ := none

def racingRun (order : List Ref) : Option (RunState Nat) :=
  racingWiring.play (fun _ _ => "") racingEnv
    (order.flatMap fun v => replicate (racingWiring.actions (fun _ _ => "") v).length v) (init racingEnv)

lemma reaches_of_racingRun (order : List Ref) (inputs : List (Option Nat)) (runs : ((racingRun order).map fun c =>
      ((c.threads (.declared 2)).inputs, racingWiring.table.all fun v => racingWiring.Finished (fun _ _ => "") c.threads v)) =
        some (inputs, true)) :
    ∃ c, racingWiring.Reaches (fun _ _ => "") racingEnv c ∧ (racingWiring.threads (fun _ _ => "") racingEnv).Ended c ∧
      (c.threads (.declared 2)).inputs = inputs := by
  obtain ⟨c, plays, result⟩ := map_eq_some_iff.mp runs
  obtain ⟨delivered, finished⟩ := mk.inj result
  refine ⟨c, steps_of_play plays, ended_of_finished fun v member => ?_, delivered⟩
  exact of_decide_eq_true (all_eq_true.mp finished v member)

def orderedGraph : Graph := ⟨"g", [racingVertex "p" [], { racingVertex "b" [] with expectConfig := "x" }]⟩

def orderedCluster : Cluster := { racingCluster with configSetting := ["x"] }

def orderedBuilt : Built := (orderedGraph.build orderedCluster 4).join.get rfl

def orderedWiring : Wiring := orderedBuilt.wiring orderedCluster racingTypes

lemma raceFree_ordered : orderedWiring.RaceFree fun _ _ => "" := by
  intro result feasible v member u member' different unordered unordered'
  have before : orderedWiring.Before (.declared 0) (.declared 1) := .single (by decide)
  have two : ∀ w ∈ orderedWiring.table, w = .declared 0 ∨ w = .declared 1 := by decide
  rcases two v member with rfl | rfl
  · rcases two u member' with rfl | rfl
    · exact absurd rfl different
    · exact absurd before unordered
  · rcases two u member' with rfl | rfl
    · exact absurd before unordered'
    · exact absurd rfl different

end Myctk.Didagle
