import Myctk.Lib.Runs
import Myctk.Didagle.Graph

/-! The circle test of `Build` (`FindVertexInSuccessors` and `TestCircle`): a search from every vertex for itself, which does not
    remember where it has been. -/

namespace Myctk.Didagle

open List Option Relation Lib Relation.ReflTransGen

section
variable {successors : Ref → List Ref} {fuel : Nat} {u v : Ref}

lemma find_succ : findVertexInSuccessors successors (fuel + 1) u v =
    if v ∈ successors u then some true else (successors u).anyM fun s => findVertexInSuccessors successors fuel s v := rfl

lemma find_mono {circle : Bool} (found : findVertexInSuccessors successors fuel u v = some circle) {more : Nat}
    (enough : fuel ≤ more) : findVertexInSuccessors successors more u v = some circle := by
  induction fuel generalizing u circle more with
  | zero => cases found
  | succ fuel ih =>
    obtain ⟨more, rfl⟩ : ∃ m, more = m + 1 := ⟨more - 1, by omega⟩
    rw [find_succ] at found ⊢
    split at found
    · next here => rw [if_pos here, found]
    · next absent =>
      rw [if_neg absent]
      exact anyM_mono (fun s _ _ found => ih found (Nat.le_of_succ_le_succ enough)) found

lemma reaches_of_find (found : findVertexInSuccessors successors fuel u v = some true) :
    TransGen (fun u v => v ∈ successors u) u v := by
  induction fuel generalizing u with
  | zero => cases found
  | succ fuel ih =>
    rw [find_succ] at found
    split at found
    · next here => exact .single here
    · obtain ⟨s, edge, later⟩ := exists_of_anyM found
      exact .head edge (ih later)

/-- An edge that the search for `v` follows: it looks for `v` among the successors first. -/
def Follows (successors : Ref → List Ref) (v u s : Ref) : Prop := s ∈ successors u ∧ v ∉ successors u

lemma exists_find (finite : { w | ReflTransGen (fun u s => s ∈ successors u) v w }.Finite)
    (straight : ¬ Strays (Follows successors v) v) : ∃ fuel, (findVertexInSuccessors successors fuel v v).isSome := by
  have within : { w | ReflTransGen (Follows successors v) v w }.Finite :=
    finite.subset fun w path => mono (fun _ _ edge => edge.1) v w path
  refine induction_of_not_strays (P := fun u => ∃ fuel, (findVertexInSuccessors successors fuel u v).isSome)
    within straight fun u _ ih => ?_
  by_cases here : v ∈ successors u
  · exact ⟨1, by rw [find_succ, if_pos here]; rfl⟩
  · obtain ⟨fuel, all⟩ := exists_bound (fun s n m le found => by
      obtain ⟨circle, found⟩ := isSome_iff_exists.mp found
      rw [find_mono found le]
      rfl) (successors u) fun s edge => ih s ⟨edge, here⟩
    exact ⟨fuel + 1, by rw [find_succ, if_neg here]; exact isSome_anyM all⟩

lemma find_eq_none (stays : Ref → Prop) (goes : ∀ u, stays u → v ∉ successors u ∧ ∃ s rest, successors u = s :: rest ∧ stays s)
    (here : stays u) (fuel : Nat) : findVertexInSuccessors successors fuel u v = none := by
  induction fuel generalizing u with
  | zero => rfl
  | succ fuel ih =>
    obtain ⟨absent, s, rest, eq, later⟩ := goes u here
    rw [find_succ, if_neg absent, eq, anyM, ih later]
    rfl

end

namespace Built

def values (b : Built) : List Ref := b.nodes.entries.map Sigma.snd

def Cyclic (b : Built) : Prop := ∃ v, TransGen (fun u v => v ∈ b.successors u) v v

/-- The tables are hashed: `b'` is `b` as its tables may list it. -/
structure Lists (b b' : Built) : Prop where
  nodes : b'.nodes.entries.Perm b.nodes.entries
  generated : b'.generated = b.generated
  successors : ∀ v, (b'.successors v).Perm (b.successors v)

/-- The end of `Build`. -/
def tested (b : Built) (fuel : Nat) : Option (Option Built) :=
  (b.testCircle fuel).map fun circle =>
    if circle then none
    else if b.nodes.entries = [] ∧ b.generated = [] then none
    else some b

def FindsCircles (b : Built) : Prop :=
  ∀ b', b.Lists b' →
    (∀ v ∈ b'.values, ∃ fuel, (findVertexInSuccessors b'.successors fuel v v).isSome) ∧
    ∃ fuel result, b'.tested fuel = some result ∧ (result = none ↔ b.Cyclic)

/-- A circle can be reached from `v` through vertices of which none has `v` as its successor. -/
def Strays (b : Built) (v : Ref) : Prop := Lib.Strays (Follows b.successors v) v

end Built

lemma Graph.build_eq_tested {c : Cluster} {g : Graph} {b : Built} (links : g.link c = some b) (fuel : Nat) :
    g.build c fuel = b.tested fuel := by
  rw [Graph.build, links]
  rfl

section
variable {b b' : Built}

lemma Built.Lists.refl (b : Built) : b.Lists b := ⟨.refl _, rfl, fun _ => .refl _⟩

lemma Built.Lists.mem_values (lists : b.Lists b') (v : Ref) : v ∈ b'.values ↔ v ∈ b.values :=
  (lists.nodes.map Sigma.snd).mem_iff

lemma Built.Lists.edges (lists : b.Lists b') : (fun u v => v ∈ b'.successors u) = fun u v => v ∈ b.successors u := by
  funext u v
  exact propext (lists.successors u).mem_iff

lemma Built.Lists.follows (lists : b.Lists b') (v : Ref) : Follows b'.successors v = Follows b.successors v := by
  funext u s
  exact propext (and_congr (lists.successors u).mem_iff (not_congr (lists.successors u).mem_iff))

lemma Edges.Wf.finite_reached {n : Nodes} {e : Edges} (wf : e.Wf n) (v : Ref) :
    { w | ReflTransGen (fun u s => s ∈ e.successors u) v w }.Finite := by
  refine (finite_toSet (v :: n.entries.map Prod.fst)).subset fun w path => ?_
  rcases cases_tail path with rfl | ⟨u, -, edge⟩
  · exact mem_cons_self
  · obtain ⟨m, there⟩ := isSome_iff_exists.mp (wf.ends u w edge).2
    exact mem_cons_of_mem _ (mem_map.mpr ⟨(w, m), Nodes.mem_entries.mpr there, rfl⟩)

lemma Built.exists_testCircle (ends : ∀ v ∈ b.values, ∃ fuel, (findVertexInSuccessors b.successors fuel v v).isSome) :
    ∃ fuel circle, b.testCircle fuel = some circle ∧
      (circle = true ↔ ∃ v ∈ b.values, TransGen (fun u v => v ∈ b.successors u) v v) := by
  obtain ⟨fuel, all⟩ := exists_bound (fun v n m le found => by
    obtain ⟨circle, found⟩ := isSome_iff_exists.mp found
    rw [find_mono found le]
    rfl) b.values ends
  obtain ⟨circle, tested⟩ := isSome_iff_exists.mp (isSome_anyM all)
  refine ⟨fuel, circle, tested, ?_⟩
  cases circle with
  | true =>
    obtain ⟨v, member, found⟩ := exists_of_anyM tested
    exact ⟨fun _ => ⟨v, member, reaches_of_find found⟩, fun _ => rfl⟩
  | false =>
    refine ⟨fun impossible => (by cases impossible), ?_⟩
    rintro ⟨v, member, cycle⟩
    exact absurd cycle (not_reaches_of_find (anyM_eq_some_false.mp tested v member))

lemma Built.Strays.exists_lists {v : Ref} (strays : b.Strays v) :
    ∃ b', b.Lists b' ∧ ∀ fuel, findVertexInSuccessors b'.successors fuel v v = none := by
  classical
  let follows := Follows b.successors v
  let next : Ref → Ref := fun u => if stays : Lib.Strays follows u then stays.next.choose else u
  have goes : ∀ u, Lib.Strays follows u → follows u (next u) ∧ Lib.Strays follows (next u) := by
    intro u stays
    rw [show next u = stays.next.choose from dif_pos stays]
    exact stays.next.choose_spec
  let successors : Ref → List Ref := fun u =>
    if Lib.Strays follows u then next u :: (b.successors u).erase (next u) else b.successors u
  have perm : ∀ u, (successors u).Perm (b.successors u) := by
    intro u
    by_cases stays : Lib.Strays follows u
    · rw [show successors u = next u :: (b.successors u).erase (next u) from if_pos stays]
      exact (perm_cons_erase (goes u stays).1.1).symm
    · rw [show successors u = b.successors u from if_neg stays]
  refine ⟨{ b with successors }, ⟨.refl _, rfl, perm⟩, find_eq_none (Lib.Strays follows) ?_ strays⟩
  intro u stays
  refine ⟨fun there => (goes u stays).1.2 ((perm u).mem_iff.mp there), next u, (b.successors u).erase (next u), ?_, (goes u stays).2⟩
  exact if_pos stays

end

/-- The circle test ends and turns down the graphs with a circle, exactly if no search can come to a circle that it does not see:
    from a vertex, every path to a circle passes a vertex with an edge back to it. -/
theorem findsCircles_iff {c : Cluster} {g : Graph} {b : Built} (links : g.link c = some b)
    (nonempty : ¬ (b.nodes.entries = [] ∧ b.generated = [])) :
    b.FindsCircles ↔ (∀ v ∈ b.values, ¬ b.Strays v) ∧
      (b.Cyclic → ∃ v ∈ b.values, TransGen (fun u v => v ∈ b.successors u) v v) := by
  have wf := (Graph.link_wf links).2
  constructor
  · intro finds
    refine ⟨fun v member strays => ?_, fun cyclic => ?_⟩
    · obtain ⟨b', lists, endless⟩ := strays.exists_lists
      obtain ⟨fuel, ends⟩ := (finds b' lists).1 v ((lists.mem_values v).mpr member)
      rw [endless] at ends
      cases ends
    · obtain ⟨-, fuel, result, tested, rejects⟩ := finds b (.refl b)
      obtain rfl := rejects.mpr cyclic
      obtain ⟨circle, ended, eq⟩ := map_eq_some_iff.mp tested
      rw [if_neg nonempty] at eq
      cases circle with
      | false => cases eq
      | true =>
        obtain ⟨v, member, found⟩ := exists_of_anyM ended
        exact ⟨v, member, reaches_of_find found⟩
  · rintro ⟨straight, seen⟩ b' lists
    have ends : ∀ v ∈ b'.values, ∃ fuel, (findVertexInSuccessors b'.successors fuel v v).isSome := by
      intro v member
      refine exists_find ?_ ?_
      · rw [lists.edges]
        exact wf.finite_reached v
      · rw [lists.follows]
        exact straight v ((lists.mem_values v).mp member)
    refine ⟨ends, ?_⟩
    obtain ⟨fuel, circle, tested, found⟩ := Built.exists_testCircle ends
    rw [lists.edges] at found
    have nonempty' : ¬ (b'.nodes.entries = [] ∧ b'.generated = []) := by
      rintro ⟨none, none'⟩
      refine nonempty ⟨?_, lists.generated.symm.trans none'⟩
      exact List.Perm.nil_eq (none ▸ lists.nodes) ▸ rfl
    refine ⟨fuel, _, by rw [Built.tested, tested]; rfl, ?_⟩
    rw [if_neg nonempty']
    cases circle with
    | true =>
      obtain ⟨v, -, cycle⟩ := found.mp rfl
      exact ⟨fun _ => ⟨v, cycle⟩, fun _ => rfl⟩
    | false =>
      refine ⟨fun impossible => (by cases impossible), fun cyclic => ?_⟩
      obtain ⟨v, member, cycle⟩ := seen cyclic
      exact absurd (found.mpr ⟨v, (lists.mem_values v).mpr member, cycle⟩) Bool.false_ne_true

/-! A script with the edges from `a` to `b`, from `b` to `c` and back. -/

def lassoGraph : Graph :=
  ⟨"g", [sampleVertex "b" ["a", "c"] [], sampleVertex "c" ["b"] [], { sampleVertex "a" [] [] with isStart := true }]⟩

def lassoBuilt : Built := (lassoGraph.link sampleCluster).get rfl

lemma link_lasso : lassoGraph.link sampleCluster = some lassoBuilt := (some_get rfl).symm

theorem findsCircles_iff_lasso : ¬ (lassoBuilt.nodes.entries = [] ∧ lassoBuilt.generated = []) ∧
    (lassoBuilt.FindsCircles ↔ (∀ v ∈ lassoBuilt.values, ¬ lassoBuilt.Strays v) ∧
      (lassoBuilt.Cyclic → ∃ v ∈ lassoBuilt.values, TransGen (fun u v => v ∈ lassoBuilt.successors u) v v)) := by
  have nonempty : ¬ (lassoBuilt.nodes.entries = [] ∧ lassoBuilt.generated = []) := by
    rintro ⟨impossible, -⟩
    cases impossible
  exact ⟨nonempty, findsCircles_iff link_lasso nonempty⟩

theorem lasso_build_endless : ¬ ∃ fuel, (lassoGraph.build sampleCluster fuel).isSome := by
  have circle : ∀ fuel, findVertexInSuccessors lassoBuilt.successors fuel (.declared 2) (.declared 2) = none := by
    refine find_eq_none (fun u => u ∈ [Ref.declared 0, .declared 1, .declared 2]) ?_ (by decide)
    intro u member
    simp only [mem_cons, not_mem_nil, or_false] at member
    rcases member with rfl | rfl | rfl
    · exact ⟨by decide, .declared 1, [], rfl, by decide⟩
    · exact ⟨by decide, .declared 0, [], rfl, by decide⟩
    · exact ⟨by decide, .declared 0, [], rfl, by decide⟩
  rintro ⟨fuel, returned⟩
  have first : lassoBuilt.testCircle fuel = none := by
    show anyM _ (Ref.declared 2 :: [.declared 1, .declared 0]) = none
    rw [anyM, circle fuel]
    rfl
  rw [Graph.build_eq_tested link_lasso, Built.tested, first] at returned
  cases returned

end Myctk.Didagle
