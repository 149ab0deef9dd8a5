import Myctk.Robims.HeapSpec
import Myctk.Robims.Query

/-! Running a query in memory. The bitmaps of intermediate results are written in place and go back to the pool while the query
    runs; the query owns them, and changes no other one. -/

namespace Myctk.Robims

open Lib Set List Option Function Operand Pool

abbrev HeapM := StateT Heap Option

def heapMachine (deref : FieldRef → Option (Nat × IndexAt)) : Machine HeapM Nat where
  trap := fun _ => none
  select f op arg := fun h =>
    (deref f).map fun (table, index) =>
      let (out, h) := h.acquire
      let (rc, out, h) := index.select table op arg out h
      if rc = 0 then (.ok out, h) else (.error rc, h.release out)
  idle := fun h =>
    let (out, h) := h.acquire
    some ((), h.release out)
  and a b := fun h => some (a, (h.onMem (andInplace a (some b))).release b)
  or a b := fun h => some (a, (h.onMem (orInplace a (some b))).release b)
  drop a := fun h => some ((), h.release a)

def QueryValue.load (mem : Mem) : QueryValue Nat → QueryValue Bitmap
  | .error code reason => .error code reason
  | .bool b => .bool b
  | .int n => .int n
  | .double v => .double v
  | .str s => .str s
  | .field f => .field f
  | .bitmap a => .bitmap (mem a)

def QueryValue.owned : QueryValue Nat → Set Nat
  | .bitmap a => {a}
  | _ => ∅

def loadRef (deref : FieldRef → Option (Nat × IndexAt)) (mem : Mem) (f : FieldRef) : Option (Bitmap × Index) :=
  (deref f).map fun (table, index) => (mem table, index.load mem)

def Stored (deref : FieldRef → Option (Nat × IndexAt)) (h : Heap) : Prop :=
  ∀ f table index, deref f = some (table, index) → ∀ a ∈ table :: index.addresses, h.Live a

def Simulates (h : Heap) (owned : Set Nat) (x : Option (QueryValue Nat × Heap)) (y : Option (QueryValue Bitmap)) : Prop :=
  match x, y with
  | none, none => True
  | some (v, h'), some w => h.Keeps h' owned ∧ v.load h'.mem = w ∧ ∀ a ∈ v.owned, h'.Live a ∧ (h.Live a → a ∈ owned)
  | _, _ => False

section
variable {h h' : Heap} {owned : Set Nat} {x : HeapM (QueryValue Nat)} {y : Option (QueryValue Bitmap)}

lemma QueryValue.load_congr {mem mem' : Mem} {v : QueryValue Nat} (same : ∀ a ∈ v.owned, mem' a = mem a) :
    v.load mem' = v.load mem := by
  cases v with
  | bitmap a => exact congrArg QueryValue.bitmap (same a rfl)
  | _ => rfl

lemma simulates_pure (keeps : h.Keeps h' owned) {v : QueryValue Nat} (none : v.owned = ∅) {w : QueryValue Bitmap}
    (value : v.load h'.mem = w) : Simulates h owned (some (v, h')) (some w) :=
  ⟨keeps, value, fun a inside => absurd (none ▸ inside) (notMem_empty a)⟩

lemma Simulates.bind (first : Simulates h owned (x h) y) {f : QueryValue Nat → HeapM (QueryValue Nat)}
    {g : QueryValue Bitmap → Option (QueryValue Bitmap)}
    (later : ∀ v h', h.Keeps h' owned → (∀ a ∈ v.owned, h'.Live a ∧ (h.Live a → a ∈ owned)) →
      Simulates h' v.owned (f v h') (g (v.load h'.mem))) : Simulates h owned ((x >>= f) h) (y >>= g) := by
  show Simulates h owned ((x h).bind fun (v, h') => f v h') (y.bind g)
  generalize x h = x' at first
  match x', y, first with
  | none, none, _ => trivial
  | some (v, h'), some w, ⟨keeps, value, mine⟩ =>
    subst value
    have rest := later v h' keeps mine
    show Simulates h owned (f v h') (g (v.load h'.mem))
    generalize f v h' = x'' at rest
    generalize g (v.load h'.mem) = y'' at rest
    match x'', y'', rest with
    | none, none, _ => trivial
    | some (u, h''), some w', ⟨keeps', value', mine'⟩ =>
      refine ⟨keeps.trans keeps' fun a inside old => (mine a inside).2 old, value', fun a inside => ?_⟩
      obtain ⟨live, either⟩ := mine' a inside
      refine ⟨live, fun old => ?_⟩
      by_contra outside
      exact outside ((mine a (either (keeps.live old outside))).2 old)

lemma Simulates.frame {owned' : Set Nat} {x : Option (QueryValue Nat × Heap)} (keeps : h.Keeps h' owned)
    (within : ∀ a ∈ owned', h.Live a → a ∈ owned) (later : Simulates h' owned' x y) : Simulates h owned x y := by
  match x, y, later with
  | none, none, _ => trivial
  | some (v, h''), some w, ⟨keeps', value, mine⟩ =>
    refine ⟨keeps.trans keeps' within, value, fun a inside => ?_⟩
    obtain ⟨live, either⟩ := mine a inside
    refine ⟨live, fun old => ?_⟩
    by_contra outside
    exact outside (within a (either (keeps.live old outside)) old)

end

section
variable {deref : FieldRef → Option (Nat × IndexAt)} {h h' : Heap} {mem : Mem} {right : QueryValue Nat}

lemma IndexAt.load_congr {mem mem' : Mem} (index : IndexAt) (same : ∀ a ∈ index.addresses, mem' a = mem a) :
    index.load mem' = index.load mem := by
  have entries : ∀ {β γ : Type} (m : List (Text × β)) {g g' : β → γ}, (∀ entry ∈ m, g' entry.2 = g entry.2) →
      Assoc.mapValues g' m = Assoc.mapValues g m :=
    fun m _ _ all => map_congr_left fun entry member => Prod.ext rfl (all entry member)
  cases index with
  | set bitmaps =>
    refine congrArg Index.set (entries bitmaps fun entry member => same _ (mem_map_of_mem member))
  | bool bitmap => exact congrArg Index.bool (same bitmap mem_cons_self)
  | weightSet bitmaps =>
    refine congrArg Index.weightSet (entries bitmaps fun entry member => ?_)
    rw [same entry.2.bitmap (mem_map.mpr ⟨entry, member, rfl⟩)]
  | int bsi => exact congrArg Index.int (BsiAt.load_congr fun a member => same a (reduceOption_mem_iff.mpr member))
  | float bsi => exact congrArg Index.float (BsiAt.load_congr fun a member => same a (reduceOption_mem_iff.mpr member))

lemma Stored.keeps (stored : Stored deref h) (keeps : h.Keeps h' ∅) :
    Stored deref h' ∧ loadRef deref h'.mem = loadRef deref h.mem := by
  refine ⟨fun f table index found a member => keeps.live (stored f table index found a member) (notMem_empty a), funext fun f => ?_⟩
  rw [loadRef, loadRef]
  cases found : deref f with
  | none => rfl
  | some pair =>
    obtain ⟨table, index⟩ := pair
    have same : ∀ a ∈ table :: index.addresses, h'.mem a = h.mem a :=
      fun a member => keeps.mem_eq (stored f table index found a member) (notMem_empty a)
    show some (h'.mem table, index.load h'.mem) = some (h.mem table, index.load h.mem)
    rw [same table mem_cons_self,
      index.load_congr fun a member => same a (mem_cons_of_mem _ member)]

lemma select_cases (sound : h.Sound) (stored : Stored deref h) (f : FieldRef) (op : FieldOperator) (arg : FieldArg) :
    ((heapMachine deref).select f op arg h = none ∧ (setMachine (loadRef deref h.mem)).select f op arg = none) ∨
      (∃ a h', (heapMachine deref).select f op arg h = some (.ok a, h') ∧
        (setMachine (loadRef deref h.mem)).select f op arg = some (.ok (h'.mem a)) ∧ h.Keeps h' ∅ ∧ h'.Live a ∧ ¬ h.Live a) ∨
      ∃ rc h', (heapMachine deref).select f op arg h = some (.error rc, h') ∧
        (setMachine (loadRef deref h.mem)).select f op arg = some (.error rc) ∧ h.Keeps h' ∅ := by
  simp only [heapMachine, setMachine, loadRef]
  cases found : deref f with
  | none => exact .inl ⟨rfl, rfl⟩
  | some pair =>
    obtain ⟨table, index⟩ := pair
    right
    have taken := acquired sound
    simp only [map_some]
    generalize h.acquire = pair at taken
    obtain ⟨out, h₁⟩ := pair
    have kept : ∀ a ∈ table :: index.addresses, h₁.Live a ∧ h₁.mem a = h.mem a :=
      fun a member => taken.keeps.kept a (stored f table index found a member) (notMem_empty a)
    have answer : Selected h₁ out ((index.load h₁.mem).select (h₁.mem table) op arg) (index.select table op arg out h₁) :=
      IndexAt.select_spec taken.keeps.sound taken.live index fun a member =>
        ⟨(kept a member).1, fun same => taken.fresh (same ▸ stored f table index found a member)⟩
    rw [(kept table mem_cons_self).2, index.load_congr fun a member => (kept a (mem_cons_of_mem _ member)).2] at answer
    generalize index.select table op arg out h₁ = result at answer
    obtain ⟨rc, out', h₂⟩ := result
    have whole : h.Keeps h₂ ∅ :=
      taken.keeps.trans answer.keeps fun a inside old => absurd (mem_singleton_iff.mp inside ▸ old) taken.fresh
    have fresh : ¬ h.Live out' := by
      rcases answer.fresh with same | new
      · rw [show out' = out from same]
        exact taken.fresh
      · exact fun old => new (taken.keeps.live old (notMem_empty _))
    have answers := answer.answers
    cases pure : (index.load h.mem).select (h.mem table) op arg with
    | ok ids =>
      rw [pure] at answers
      obtain ⟨zero, value⟩ := answers
      refine .inl ⟨out', h₂, ?_, ?_, whole, answer.live, fresh⟩
      · rw [show rc = 0 from zero]
        rfl
      · rw [show h₂.mem out' = ids from value]
    | error code =>
      rw [pure] at answers
      obtain ⟨same, bad⟩ := answers
      refine .inr ⟨code, h₂.release out', ?_, rfl, ?_⟩
      · rw [show rc = code from same, if_neg bad]
      · refine whole.trans (keeps_release whole.sound answer.live) fun a inside old => ?_
        exact absurd (mem_singleton_iff.mp inside ▸ old) fresh

end

section
variable {deref : FieldRef → Option (Nat × IndexAt)} {h : Heap} {left right v : QueryValue Nat}

lemma fieldArg_load (strings : Bool) (v : QueryValue Nat) (mem : Mem) : fieldArg strings (v.load mem) = fieldArg strings v := by
  cases v <;> rfl

lemma compareConstants_load (direct : FieldOperator) (left right : QueryValue Nat) (mem : Mem) :
    compareConstants direct (left.load mem) (right.load mem) = compareConstants direct left right := by
  cases left <;> cases right <;> rfl

lemma takesBoth_load (op : Optoken) (left right : QueryValue Nat) (mem : Mem) :
    takesBoth op (left.load mem) (right.load mem) = takesBoth op left right := by
  cases op <;> cases left <;> cases right <;> rfl

lemma calcSelect_simulates (sound : h.Sound) (stored : Stored deref h) (c : Comparison) (side : String) (f : FieldRef)
    (op : FieldOperator) (v : QueryValue Nat) : Simulates h ∅ (calcSelect (heapMachine deref) c side f op v h)
      (calcSelect (setMachine (loadRef deref h.mem)) c side f op (v.load h.mem)) := by
  unfold calcSelect
  rw [fieldArg_load]
  cases fieldArg c.strings v with
  | none =>
    have taken := acquired sound
    have back := taken.keeps.trans (keeps_release taken.keeps.sound taken.live) fun a inside old =>
      absurd (mem_singleton_iff.mp inside ▸ old) taken.fresh
    exact simulates_pure back rfl rfl
  | some arg =>
    dsimp only [bind, StateT.bind]
    rcases select_cases sound stored f op arg with ⟨trap, trap'⟩ | ⟨a, h', found, found', keeps, live, fresh⟩ |
      ⟨rc, h', failed, failed', keeps⟩
    · rw [trap, trap']
      trivial
    · rw [found, found']
      refine ⟨keeps, rfl, fun b inside => ?_⟩
      obtain rfl : b = a := inside
      exact ⟨live, fun old => absurd old fresh⟩
    · rw [failed, failed']
      exact simulates_pure keeps rfl rfl

lemma queryCalc_simulates (sound : h.Sound) (stored : Stored deref h) (op : Optoken) (left right : QueryValue Nat)
    (others : takesBoth op left right = false) : Simulates h ∅ (queryCalc (heapMachine deref) op left right h)
      (queryCalc (setMachine (loadRef deref h.mem)) op (left.load h.mem) (right.load h.mem)) := by
  have value : ∀ {v : QueryValue Nat} {w : QueryValue Bitmap}, v.owned = ∅ → v.load h.mem = w → Simulates h ∅ (some (v, h)) (some w) :=
    fun none same => simulates_pure (.refl sound) none same
  have arithmetic : ∀ op, Simulates h ∅ (calcArithmetic (heapMachine deref) op left right h)
      (calcArithmetic (setMachine (loadRef deref h.mem)) op (left.load h.mem) (right.load h.mem)) := by
    intro op
    have doubles : ∀ a b, (calcDoubles op a b : QueryValue Nat).owned = ∅ ∧
        (calcDoubles op a b : QueryValue Nat).load h.mem = calcDoubles op a b := by
      intro a b
      cases op <;> exact ⟨rfl, rfl⟩
    cases left <;> cases right
    case int.int a b =>
      cases op
      case divide =>
        show Simulates h ∅ (divideInts (heapMachine deref) a b h) (divideInts (setMachine (loadRef deref h.mem)) a b)
        unfold divideInts
        split
        · trivial
        · exact value rfl rfl
      all_goals exact value rfl rfl
    all_goals first
      | exact value rfl rfl
      | exact value (doubles _ _).1 (doubles _ _).2
  have compare : ∀ c, Simulates h ∅ (calcCompare (heapMachine deref) c left right h)
      (calcCompare (setMachine (loadRef deref h.mem)) c (left.load h.mem) (right.load h.mem)) := by
    intro c
    unfold calcCompare
    rw [compareConstants_load]
    cases compareConstants c.direct left right with
    | some b => exact value rfl rfl
    | none =>
      have selected := fun side f op v => calcSelect_simulates sound stored c side f op v
      cases left <;> cases right
      all_goals first
        | exact selected _ _ _ _
        | exact value rfl rfl
  have logical : ∀ name bools (bitmaps : Nat → Nat → HeapM Nat) (bitmaps' : Bitmap → Bitmap → Option Bitmap),
      (∀ a b, left = .bitmap a → right ≠ .bitmap b) →
      Simulates h ∅ (calcLogical name bools bitmaps left right h)
        (calcLogical name bools bitmaps' (left.load h.mem) (right.load h.mem)) := by
    intro name bools bitmaps bitmaps' differ
    cases left <;> cases right
    case bitmap.bitmap a b => exact absurd rfl (differ a b rfl)
    all_goals exact value rfl rfl
  have differ : takesBoth op left right = false → op = .and ∨ op = .or → ∀ a b, left = .bitmap a → right ≠ .bitmap b := by
    rintro none (rfl | rfl) a b rfl rfl <;> cases none
  cases op
  case and => exact logical _ _ _ _ (differ others (.inl rfl))
  case or => exact logical _ _ _ _ (differ others (.inr rfl))
  case plus => exact arithmetic .plus
  case minus => exact arithmetic .minus
  case times => exact arithmetic .times
  case divide => exact arithmetic .divide
  case positive | negative | andNot => exact value rfl rfl
  all_goals exact compare _

end

section
variable {deref : FieldRef → Option (Nat × IndexAt)} {h : Heap} {left right v : QueryValue Nat}

lemma dropValue_heap (deref : FieldRef → Option (Nat × IndexAt)) (sound : h.Sound) (live : ∀ a ∈ v.owned, h.Live a) :
    ∃ h', dropValue (heapMachine deref) v h = some ((), h') ∧ h.Keeps h' v.owned := by
  cases v with
  | bitmap a => exact ⟨h.release a, rfl, keeps_release sound (live a rfl)⟩
  | _ => exact ⟨h, rfl, .refl sound⟩

lemma combined (sound : h.Sound) {a b : Nat} (a_live : h.Live a) (b_live : h.Live b) (differ : a ≠ b) {f : Mem → Mem}
    {ids : Bitmap} (value : f h.mem a = ids) (only : ∀ c, c ≠ a → f h.mem c = h.mem c) :
    Simulates h ({a} ∪ {b}) (some (.bitmap a, (h.onMem f).release b)) (some (.bitmap ids)) := by
  have wrote := puts_onMem sound a_live value only
  have back := keeps_release wrote.keeps.sound (wrote.keeps.live b_live differ.symm)
  have whole : h.Keeps (h.onMem f) ({a} ∪ {b}) :=
    ⟨wrote.keeps.sound, fun c old outside => wrote.keeps.kept c old fun inside => outside (.inl inside)⟩
  refine ⟨whole.trans back fun c inside _ => .inr inside, ?_, fun c inside => ?_⟩
  · rw [QueryValue.load, back.mem_eq wrote.live differ, wrote.value]
  · obtain rfl : c = a := inside
    exact ⟨back.live wrote.live differ, fun _ => .inl rfl⟩

lemma operate_simulates (sound : h.Sound) (stored : Stored deref h) (op : Optoken) (left_live : ∀ a ∈ left.owned, h.Live a)
    (right_live : ∀ a ∈ right.owned, h.Live a) (apart : ∀ a ∈ left.owned, a ∉ right.owned) :
    Simulates h (left.owned ∪ right.owned) (operate (heapMachine deref) op left right h)
      (operate (setMachine (loadRef deref h.mem)) op (left.load h.mem) (right.load h.mem)) := by
  cases takes : takesBoth op left right with
  | true =>
    have bitmaps : ∃ a b, left = .bitmap a ∧ right = .bitmap b ∧ (op = .and ∨ op = .or) := by
      cases op <;> cases left <;> cases right <;> cases takes
      · exact ⟨_, _, rfl, rfl, .inl rfl⟩
      · exact ⟨_, _, rfl, rfl, .inr rfl⟩
    obtain ⟨a, b, rfl, rfl, which⟩ := bitmaps
    have differ : a ≠ b := apart a rfl
    rcases which with rfl | rfl
    · exact combined sound (left_live a rfl) (right_live b rfl) differ (update_self _ _ _)
        fun c other => update_of_ne other _ _
    · exact combined sound (left_live a rfl) (right_live b rfl) differ (update_self _ _ _)
        fun c other => update_of_ne other _ _
  | false =>
    have calculated := queryCalc_simulates sound stored op left right takes
    unfold operate
    rw [takesBoth_load, takes]
    dsimp only [bind, StateT.bind]
    generalize queryCalc (heapMachine deref) op left right h = x at calculated
    generalize queryCalc (setMachine (loadRef deref h.mem)) op (left.load h.mem) (right.load h.mem) = y at calculated
    match x, y, calculated with
    | none, none, _ => trivial
    | some (v, h₁), some w, ⟨keeps, value, mine⟩ =>
      -- the result is new, so that it stays when the operands are given back
      have old : ∀ {u : QueryValue Nat}, (∀ a ∈ u.owned, h.Live a) → ∀ a ∈ v.owned, a ∉ u.owned :=
        fun live a inside there => (mine a inside).2 (live a there)
      obtain ⟨h₂, dropped, keeps₂⟩ := dropValue_heap deref keeps.sound fun a inside => keeps.live (right_live a inside) (notMem_empty a)
      obtain ⟨h3, dropped', keeps3⟩ := dropValue_heap deref keeps₂.sound fun a inside =>
        keeps₂.live (keeps.live (left_live a inside) (notMem_empty a)) (apart a inside)
      have sets : ∀ u, dropValue (setMachine (loadRef deref h.mem)) u = some () := dropValue_set _
      have run : ((dropValue (heapMachine deref) right h₁).bind fun p => (dropValue (heapMachine deref) left p.2).bind fun p =>
          some (v, p.2)) = some (v, h3) := by
        rw [dropped, bind_some, dropped', bind_some]
      show Simulates h (left.owned ∪ right.owned) ((dropValue (heapMachine deref) right h₁).bind fun p =>
          (dropValue (heapMachine deref) left p.2).bind fun p => some (v, p.2))
        ((dropValue (setMachine (loadRef deref h.mem)) _).bind fun _ => (dropValue (setMachine (loadRef deref h.mem)) _).bind fun _ => some w)
      rw [run, sets, sets]
      have whole : h.Keeps h₁ (left.owned ∪ right.owned) := ⟨keeps.sound, fun a live _ => keeps.kept a live (notMem_empty a)⟩
      have kept : ∀ a ∈ v.owned, h3.Live a ∧ h3.mem a = h₁.mem a := by
        intro a inside
        obtain ⟨live2, same2⟩ := keeps₂.kept a (mine a inside).1 (old right_live a inside)
        obtain ⟨live3, same3⟩ := keeps3.kept a live2 (old left_live a inside)
        exact ⟨live3, same3.trans same2⟩
      refine ⟨(whole.trans keeps₂ fun a inside _ => .inr inside).trans keeps3 fun a inside _ => .inl inside, ?_, fun a inside => ?_⟩
      · rw [← value]
        exact QueryValue.load_congr fun a inside => (kept a inside).2
      · exact ⟨(kept a inside).1, fun live => absurd ((mine a inside).2 live) (notMem_empty a)⟩

end

section
variable {deref : FieldRef → Option (Nat × IndexAt)} {h : Heap}

lemma applyUnary_simulates (sound : h.Sound) (op : Optoken) (v : QueryValue Nat) (live : ∀ a ∈ v.owned, h.Live a) :
    Simulates h v.owned (applyUnary (heapMachine deref) op v h) (applyUnary (setMachine (loadRef deref h.mem)) op (v.load h.mem)) := by
  cases v with
  | bitmap a =>
    have back := keeps_release sound (live a rfl)
    cases op <;> exact simulates_pure back rfl rfl
  | _ => cases op <;> exact simulates_pure (.refl sound) rfl rfl

lemma simulates_self (sound : h.Sound) {v : QueryValue Nat} (live : ∀ a ∈ v.owned, h.Live a) :
    Simulates h v.owned (some (v, h)) (some (v.load h.mem)) :=
  ⟨⟨sound, fun _ old _ => ⟨old, rfl⟩⟩, rfl, fun a inside => ⟨live a inside, fun _ => inside⟩⟩

lemma fresh_before {h₀ : Heap} (keeps : h₀.Keeps h ∅) {a : Nat} (fresh : h.Live a → a ∈ (∅ : Set Nat)) : ¬ h₀.Live a :=
  fun old => notMem_empty a (fresh (keeps.live old (notMem_empty a)))

section
variable {h₀ : Heap}

mutual

theorem Operand.simulates (e : Operand) (h : Heap) (stored : Stored deref h₀) (keeps : h₀.Keeps h ∅) :
    Simulates h ∅ (e.eval (heapMachine deref) h) (e.eval (setMachine (loadRef deref h₀.mem))) := by
  have value : ∀ {v : QueryValue Nat} {w : QueryValue Bitmap}, v.owned = ∅ → v.load h.mem = w → Simulates h ∅ (some (v, h)) (some w) :=
    fun none same => simulates_pure (.refl keeps.sound) none same
  have later : ∀ {h' : Heap}, h.Keeps h' ∅ → h₀.Keeps h' ∅ := fun keeps' => keeps.trans keeps' fun _ inside _ => inside
  cases e with
  | var v field => cases field <;> exact value rfl rfl
  | unary op operand =>
    refine (operand.simulates h stored keeps).bind fun v h' keeps' mine => ?_
    rw [← (stored.keeps (later keeps')).2]
    exact applyUnary_simulates keeps'.sound op v fun a inside => (mine a inside).1
  | cond lhs rhsTrue rhsFalse =>
    refine (lhs.simulates h stored keeps).bind fun v h' keeps' mine => ?_
    have whenTrue := rhsTrue.simulates h' stored (later keeps')
    have whenFalse := rhsFalse.simulates h' stored (later keeps')
    have self := simulates_self keeps'.sound fun a inside => (mine a inside).1
    cases v with
    | bool b =>
      cases b with
      | true => exact whenTrue
      | false => exact whenFalse
    | _ => exact self
  | expression first rest =>
    refine (first.simulates h stored keeps).bind fun v h' keeps' mine => ?_
    exact rest.simulates h' v stored (later keeps') fun a inside => ⟨(mine a inside).1, fresh_before keeps (mine a inside).2⟩
  | _ => exact value rfl rfl

theorem Operations.simulates (rest : Operations) (h : Heap) (v : QueryValue Nat) (stored : Stored deref h₀)
    (keeps : h₀.Keeps h ∅) (mine : ∀ a ∈ v.owned, h.Live a ∧ ¬ h₀.Live a) :
    Simulates h v.owned (rest.eval (heapMachine deref) v h) (rest.eval (setMachine (loadRef deref h₀.mem)) (v.load h.mem)) := by
  cases rest with
  | nil => exact simulates_self keeps.sound fun a inside => (mine a inside).1
  | cons op operand rest =>
    have right := operand.simulates h stored keeps
    rw [Operations.eval, Operations.eval]
    dsimp only [bind, StateT.bind]
    generalize operand.eval (heapMachine deref) h = x at right
    generalize operand.eval (setMachine (loadRef deref h₀.mem)) = y at right
    match x, y, right with
    | none, none, _ => trivial
    | some (r, h₁), some w, ⟨keeps₁, value, new⟩ =>
      subst value
      have whole : h₀.Keeps h₁ ∅ := keeps.trans keeps₁ fun _ inside _ => inside
      obtain ⟨stored₁, same⟩ := stored.keeps whole
      have left : v.load h₁.mem = v.load h.mem :=
        QueryValue.load_congr fun a inside => keeps₁.mem_eq (mine a inside).1 (notMem_empty a)
      have operated : Simulates h₁ (v.owned ∪ r.owned) (operate (heapMachine deref) op v r h₁)
          (operate (setMachine (loadRef deref h₀.mem)) op (v.load h.mem) (r.load h₁.mem)) := by
        rw [← same, ← left]
        exact operate_simulates whole.sound stored₁ op (fun a inside => keeps₁.live (mine a inside).1 (notMem_empty a))
          (fun a inside => (new a inside).1) fun a inside there => notMem_empty a ((new a there).2 (mine a inside).1)
      have fresh : ∀ a ∈ v.owned ∪ r.owned, ¬ h₀.Live a := by
        rintro a (inside | inside)
        · exact (mine a inside).2
        · exact fresh_before keeps (new a inside).2
      refine Simulates.frame ⟨keeps₁.sound, fun a old _ => keeps₁.kept a old (notMem_empty a)⟩ ?_
        (operated.bind fun s h₂ keeps₂ mine₂ => ?_)
      · rintro a (inside | inside) old
        · exact inside
        · exact absurd ((new a inside).2 old) (notMem_empty a)
      · refine rest.simulates h₂ s stored (whole.trans keeps₂ fun a inside old => absurd old (fresh a inside)) fun a inside => ?_
        refine ⟨(mine₂ a inside).1, fun old => ?_⟩
        exact fresh a ((mine₂ a inside).2 (whole.live old (notMem_empty a))) old

end

end

end

def Operand.constant : Operand → Option FieldArg
  | .int n => some (.int n)
  | .double v => some (.double v)
  | .str s => some (.str s)
  | .unary .positive operand =>
    match operand.constant with
    | some (.int n) => some (.int n)
    | some (.double x) => some (.double x)
    | _ => none
  | .unary .negative operand =>
    match operand.constant with
    | some (.int n) => some (.int (i64 (0 - n)))
    | some (.double x) => some (.double (0 - x))
    | _ => none
  | .expression first .nil => first.constant
  | _ => none

def Operand.fieldRef : Operand → Option FieldRef
  | .var _ (some f) => some f
  | .expression first .nil => first.fieldRef
  | _ => none

def Optoken.compares : Optoken → Option FieldOperator
  | .equal => some .eq
  | .notEqual => some .neq
  | .less => some .lt
  | .lessEqual => some .lte
  | .greater => some .gt
  | .greaterEqual => some .gte
  | _ => none

def FieldOperator.mirror : FieldOperator → FieldOperator
  | .lt => .gt
  | .lte => .gte
  | .gt => .lt
  | .gte => .lte
  | op => op

/-- The field is there and its `Select` succeeds with these ids. -/
def Answers (deref : FieldRef → Option (Bitmap × Index)) (f : FieldRef) (op : FieldOperator) (arg : FieldArg) (ids : Bitmap) : Prop :=
  ∃ table index, deref f = some (table, index) ∧ index.select table op arg = .ok ids

mutual

/-- A tree of comparisons of a field and a constant, parentheses, `&&` and `||`, whose selects all succeed; read from left to right, it
    has these ids, with intersection for `&&` and union for `||`. -/
inductive Denotes (deref : FieldRef → Option (Bitmap × Index)) : Operand → Bitmap → Prop
  | compare {a b : Operand} {op : Optoken} {c : FieldOperator} {f : FieldRef} {arg : FieldArg} {ids : Bitmap}
      (kind : op.compares = some c) (field : a.fieldRef = some f) (constant : b.constant = some arg)
      (answers : Answers deref f c arg ids) : Denotes deref (.expression a (.cons op b .nil)) ids
  | mirrored {a b : Operand} {op : Optoken} {c : FieldOperator} {f : FieldRef} {arg : FieldArg} {ids : Bitmap}
      (kind : op.compares = some c) (constant : a.constant = some arg) (field : b.fieldRef = some f)
      (answers : Answers deref f c.mirror arg ids) : Denotes deref (.expression a (.cons op b .nil)) ids
  | logical {first : Operand} {rest : Operations} {ids ids' : Bitmap} (start : Denotes deref first ids)
      (more : DenotesRest deref rest ids ids') : Denotes deref (.expression first rest) ids'

inductive DenotesRest (deref : FieldRef → Option (Bitmap × Index)) : Operations → Bitmap → Bitmap → Prop
  | nil (ids : Bitmap) : DenotesRest deref .nil ids ids
  | and {operand : Operand} {rest : Operations} {ids right ids' : Bitmap} (here : Denotes deref operand right)
      (more : DenotesRest deref rest (ids ∩ right) ids') : DenotesRest deref (.cons .and operand rest) ids ids'
  | or {operand : Operand} {rest : Operations} {ids right ids' : Bitmap} (here : Denotes deref operand right)
      (more : DenotesRest deref rest (ids ∪ right) ids') : DenotesRest deref (.cons .or operand rest) ids ids'

end

section
variable {deref : FieldRef → Option (Bitmap × Index)} {e : Operand}

def FieldArg.value : FieldArg → QueryValue Bitmap
  | .str s => .str s
  | .int n => .int n
  | .double v => .double v

lemma Operand.eval_constant {arg : FieldArg} (constant : e.constant = some arg) : e.eval (setMachine deref) = some arg.value := by
  fun_induction Operand.constant e generalizing arg with
  | case1 n => cases constant; rfl
  | case2 v => cases constant; rfl
  | case3 s => cases constant; rfl
  | case4 operand n inner ih =>
    cases constant
    rw [eval, ih inner]
    rfl
  | case5 operand x inner ih =>
    cases constant
    rw [eval, ih inner]
    rfl
  | case6 => cases constant
  | case7 operand n inner ih =>
    cases constant
    rw [eval, ih inner]
    rfl
  | case8 operand x inner ih =>
    cases constant
    rw [eval, ih inner]
    rfl
  | case9 => cases constant
  | case10 first ih =>
    rw [eval, ih constant]
    rfl
  | case11 => cases constant

lemma Operand.eval_fieldRef {f : FieldRef} (field : e.fieldRef = some f) : e.eval (setMachine deref) = some (.field f) := by
  fun_induction fieldRef e with
  | case1 v f' => cases field; rfl
  | case2 first ih =>
    rw [eval, ih field]
    rfl
  | case3 => cases field

lemma compares_eq {op : Optoken} {c : FieldOperator} (kind : op.compares = some c) :
    ∃ comp, comparison op = some comp ∧ comp.direct = c ∧ comp.mirrored = c.mirror ∧
      (comp.strings = false → c ≠ .eq ∧ c ≠ .neq ∧ c ≠ .all) := by
  cases op <;> cases kind <;> exact ⟨_, rfl, rfl, rfl, by simp⟩

lemma Answers.fieldArg_eq {f : FieldRef} {c : FieldOperator} {arg : FieldArg} {ids : Bitmap} (answers : Answers deref f c arg ids)
    {strings : Bool} (order : strings = false → c ≠ .eq ∧ c ≠ .neq ∧ c ≠ .all) : fieldArg strings arg.value = some arg := by
  cases arg with
  | str s =>
    cases strings with
    | true => rfl
    | false =>
      obtain ⟨noEq, noNeq, noAll⟩ := order rfl
      obtain ⟨table, index, -, answer⟩ := answers
      cases index <;> cases c <;> first | exact absurd rfl noEq | exact absurd rfl noNeq | exact absurd rfl noAll | cases answer
  | int n => rfl
  | double v => rfl

lemma calcSelect_answers {f : FieldRef} {op : FieldOperator} {arg : FieldArg} {ids : Bitmap} (answers : Answers deref f op arg ids)
    {c : Comparison} (taken : fieldArg c.strings arg.value = some arg) (side : String) :
    calcSelect (setMachine deref) c side f op arg.value = some (.bitmap ids) := by
  obtain ⟨table, index, found, answer⟩ := answers
  have selected : (setMachine deref).select f op arg = some (.ok ids) := by
    show (deref f).map _ = _
    rw [found, map_some, ← answer]
  unfold calcSelect
  rw [taken]
  show ((setMachine deref).select f op arg).bind _ = _
  rw [selected]
  rfl

lemma mirror_order {c : FieldOperator} (order : c ≠ .eq ∧ c ≠ .neq ∧ c ≠ .all) :
    c.mirror ≠ .eq ∧ c.mirror ≠ .neq ∧ c.mirror ≠ .all := by
  cases c <;> simp_all [FieldOperator.mirror]

lemma calcCompare_mirrored (c : Comparison) (arg : FieldArg) (f : FieldRef) :
    calcCompare (setMachine deref) c arg.value (.field f) = calcSelect (setMachine deref) c "left" f c.mirrored arg.value := by
  cases arg <;> rfl

lemma eval_compare {a b : Operand} {op : Optoken} {u v : QueryValue Bitmap} {comp : Comparison} {ids : Bitmap}
    (kind : comparison op = some comp) (first : a.eval (setMachine deref) = some u) (second : b.eval (setMachine deref) = some v)
    (compared : calcCompare (setMachine deref) comp u v = some (.bitmap ids)) :
    (expression a (.cons op b .nil)).eval (setMachine deref) = some (.bitmap ids) := by
  have calculated : queryCalc (setMachine deref) op u v = some (.bitmap ids) := by
    rw [← compared]
    cases op <;> cases kind <;> rfl
  have others : takesBoth op u v = false := by
    cases op <;> cases kind <;> cases u <;> rfl
  rw [Operand.eval, first]
  show (b.eval (setMachine deref)).bind (fun rhs => (operate (setMachine deref) op u rhs).bind (Operations.nil.eval (setMachine deref))) = _
  rw [second, bind_some, operate, others]
  show ((queryCalc (setMachine deref) op u v).bind fun result => (dropValue (setMachine deref) v).bind fun _ =>
    (dropValue (setMachine deref) u).bind fun _ => some result).bind _ = _
  rw [calculated, bind_some, dropValue_set, bind_some, dropValue_set]
  rfl

lemma eval_logical {operand : Operand} {rest : Operations} {op : Optoken} {ids right out : Bitmap}
    (here : operand.eval (setMachine deref) = some (.bitmap right))
    (operated : operate (setMachine deref) op (.bitmap ids) (.bitmap right) = some (.bitmap out)) :
    (Operations.cons op operand rest).eval (setMachine deref) (.bitmap ids) = rest.eval (setMachine deref) (.bitmap out) := by
  rw [Operations.eval, here]
  show (operate (setMachine deref) op (.bitmap ids) (.bitmap right)).bind (fun v => rest.eval (setMachine deref) v) = _
  rw [operated, bind_some]

mutual

theorem Denotes.eval {e : Operand} {ids : Bitmap} : Denotes deref e ids → e.eval (setMachine deref) = some (.bitmap ids)
  | .compare kind field constant answers => by
    obtain ⟨comp, same, rfl, -, order⟩ := compares_eq kind
    refine eval_compare same (eval_fieldRef field) (eval_constant constant) ?_
    exact calcSelect_answers answers (answers.fieldArg_eq order) "right"
  | .mirrored kind constant field answers => by
    obtain ⟨comp, same, rfl, mirror, order⟩ := compares_eq kind
    refine eval_compare same (eval_constant constant) (eval_fieldRef field) ?_
    have taken := answers.fieldArg_eq fun none => mirror_order (order none)
    rw [← mirror] at answers
    rw [calcCompare_mirrored]
    exact calcSelect_answers answers taken "left"
  | .logical start more => by
    rw [Operand.eval, start.eval]
    exact more.eval

theorem DenotesRest.eval {rest : Operations} {ids ids' : Bitmap} :
    DenotesRest deref rest ids ids' → rest.eval (setMachine deref) (.bitmap ids) = some (.bitmap ids')
  | .nil ids => rfl
  | .and here more => (eval_logical here.eval rfl).trans more.eval
  | .or here more => (eval_logical here.eval rfl).trans more.eval

end

end

/-- A query of comparisons, parentheses, `&&` and `||` whose selects succeed has a bitmap with the ids of the tree. -/
theorem query_evaluates {deref : FieldRef → Option (Nat × IndexAt)} {h : Heap} (sound : h.Sound) (stored : Stored deref h)
    {e : Operand} {ids : Bitmap} (denotes : Denotes (loadRef deref h.mem) e ids) :
    ∃ a h', e.eval (heapMachine deref) h = some (.bitmap a, h') ∧ h'.mem a = ids ∧
      (∀ b, h.Live b → b ≠ a ∧ h'.Live b ∧ h'.mem b = h.mem b) ∧ loadRef deref h'.mem = loadRef deref h.mem ∧ h'.Sound := by
  have run := e.simulates h stored (.refl sound)
  rw [denotes.eval] at run
  generalize e.eval (heapMachine deref) h = x at run
  match x, run with
  | some (.bitmap a, h'), ⟨keeps, value, mine⟩ =>
    refine ⟨a, h', rfl, ?_, fun b live => ?_, (stored.keeps keeps).2, keeps.sound⟩
    · cases value
      rfl
    · refine ⟨fun same => ?_, keeps.kept b live (notMem_empty b)⟩
      exact notMem_empty a ((mine a rfl).2 (same ▸ live))

def sampleDeref (f : FieldRef) : Option (Nat × IndexAt) :=
  if f = ⟨0, [1]⟩ then some (0, .set [([97], 1), ([98], 2)]) else none

def sampleHeap : Heap where
  mem
    | 0 => {7, 8}
    | 1 => {7}
    | 2 => {7, 8}
    | _ => ∅
  free := [3]
  next := 4
  recycles := true

/-- The query `f == "a" || ("b" == f && f != "a")`. -/
def sampleQuery : Operand :=
  let f : Operand := .var [[116], [102]] (some ⟨0, [1]⟩)
  .expression (.expression f (.cons .equal (.str [97]) .nil)) (.cons .or
    (.expression (.expression (.str [98]) (.cons .equal f .nil)) (.cons .and
      (.expression f (.cons .notEqual (.str [97]) .nil)) .nil)) .nil)

theorem query_evaluates_sample : ∃ a h', sampleQuery.eval (heapMachine sampleDeref) sampleHeap = some (.bitmap a, h') ∧
    h'.mem a = {7} ∪ ({7, 8} ∩ ({7, 8} \ {7})) ∧ h'.mem 1 = {7} := by
  have sound : sampleHeap.Sound := ⟨by decide, by decide, by decide⟩
  have stored : Stored sampleDeref sampleHeap := by
    intro f table index found a member
    rw [sampleDeref] at found
    split at found
    · cases found
      have inside : a = 0 ∨ a = 1 ∨ a = 2 := by simpa [IndexAt.addresses] using member
      rcases inside with rfl | rfl | rfl <;> exact ⟨by decide, by decide⟩
    · cases found
  have answers : ∀ {op arg ids}, Index.select {7, 8} op arg (.set [([97], {7}), ([98], {7, 8})]) = .ok ids →
      Answers (loadRef sampleDeref sampleHeap.mem) ⟨0, [1]⟩ op arg ids := fun answer => ⟨_, _, rfl, answer⟩
  have denotes : Denotes (loadRef sampleDeref sampleHeap.mem) sampleQuery ({7} ∪ ({7, 8} ∩ ({7, 8} \ {7}))) :=
    .logical (.compare rfl rfl rfl (answers rfl))
      (.or (.logical (.mirrored rfl rfl rfl (answers rfl)) (.and (.compare rfl rfl rfl (answers rfl)) (.nil _))) (.nil _))
  obtain ⟨a, h', run, value, kept, -, -⟩ := query_evaluates sound stored denotes
  exact ⟨a, h', run, value, (kept 1 ⟨by decide, by decide⟩).2.2⟩

end Myctk.Robims
