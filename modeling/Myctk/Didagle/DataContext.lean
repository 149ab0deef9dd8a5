import Mathlib.Data.Finset.Card
import Mathlib.Data.List.ReduceOption
import Myctk.Didagle.Executor

/-! `GraphDataContext` (`didagle/graph_processor.cpp`): its tables, the lookups through the contexts that are linked to it, and what
    `GraphClusterContext` (`didagle/graph_executor.cpp`) stores in it before a run. -/

namespace Myctk.Didagle

open List Option Function Subset Prod

/-! ### Slots -/

/-- The two tables. A `DataValue` is known by the key that it was made for; `_data_table` never loses one, and has its `_idx`. -/
structure DataContext where
  table : DIObjectKey → Option Nat
  array : List DIObjectKey
  disableEntryCreation : Bool

inductive DataCall where
  | registerData (key : DIObjectKey)
  | set (key : DIObjectKey) (idx : Int)

namespace DataContext

def getDataValue (c : DataContext) (key : DIObjectKey) (idx : Int) : Option DIObjectKey :=
  if 0 ≤ idx ∧ idx.toNat < c.array.length then c.array[idx.toNat]? else (c.table key).map fun _ => key

def insert (c : DataContext) (key : DIObjectKey) (idx : Nat) : DataContext :=
  { c with table := update c.table key (some idx) }

def registerData (c : DataContext) (key : DIObjectKey) : Nat × DataContext :=
  match c.table key with
  | some idx => (idx, c)
  | none => (c.array.length, { c.insert key c.array.length with array := c.array ++ [key] })

/-- `Set`: where it stores the value, if it does. A new entry has the default of `_idx` and is not in the array. -/
def set (c : DataContext) (key : DIObjectKey) (idx : Int) : Option DIObjectKey × DataContext :=
  match c.getDataValue key idx with
  | some slot => (some slot, c)
  | none => if c.disableEntryCreation then (none, c) else (some key, c.insert key 0)

/-- A context, and the indices that it has handed out. -/
structure Used where
  ctx : DataContext
  given : List (DIObjectKey × Nat)

def Used.step (s : Used) : DataCall → Used
  | .registerData key => ⟨(s.ctx.registerData key).2, (key, (s.ctx.registerData key).1) :: s.given⟩
  | .set key idx => ⟨(s.ctx.set key idx).2, s.given⟩

def Used.start (disable : Bool) : Used := ⟨⟨fun _ => none, [], disable⟩, []⟩

/-- An index leads to the slot that the name leads to, and distinct keys to distinct slots. -/
structure Used.Agrees (s : Used) : Prop where
  same : ∀ key i, (key, i) ∈ s.given → (s.ctx.getDataValue key i).isSome ∧ s.ctx.getDataValue key i = s.ctx.getDataValue key (-1)
  distinct : ∀ key i key' i', (key, i) ∈ s.given → (key', i') ∈ s.given →
    s.ctx.getDataValue key i = s.ctx.getDataValue key' i' → key = key'

structure Used.Inv (s : Used) : Prop where
  array : ∀ key ∈ s.ctx.array, s.ctx.table key ≠ none
  listed : ∀ key i, s.ctx.table key = some i → s.ctx.array[i]? = some key ∨ i = 0 ∧ key ∉ s.ctx.array
  given : ∀ key i, (key, i) ∈ s.given → s.ctx.table key = some i

/-- An index was given for an entry that is not in the array. -/
def Used.Unlisted (s : Used) : Prop := ∃ key i, (key, i) ∈ s.given ∧ key ∉ s.ctx.array

/-- The call registers no key whose entry a `Set` has made. -/
def Used.Proper (s : Used) (call : DataCall) : Prop := ∀ key, call = .registerData key → s.ctx.table key ≠ none → key ∈ s.ctx.array

/-- The call registers no key that has no entry. -/
def Used.NotNew (s : Used) (call : DataCall) : Prop := ∀ key, call = .registerData key → s.ctx.table key ≠ none

/-- The property holds of every call, in the state before it. -/
def Used.Throughout (P : Used → DataCall → Prop) : Used → List DataCall → Prop
  | _, [] => True
  | s, call :: calls => P s call ∧ Throughout P (s.step call) calls

/-- Indices and names agree in every state of the calls. -/
def Used.AgreesThroughout : Used → List DataCall → Prop
  | s, [] => s.Agrees
  | s, call :: calls => s.Agrees ∧ AgreesThroughout (s.step call) calls

variable {s t : Used} {call : DataCall}

lemma Used.Inv.agrees_iff (inv : s.Inv) : s.Agrees ↔ ¬ s.Unlisted ∨ s.ctx.array = [] := by
  have named {key i} (given : (key, i) ∈ s.given) : s.ctx.getDataValue key (-1) = some key := by
    rw [getDataValue, if_neg (by simp), inv.given key i given, map_some]
  constructor
  · intro agrees
    by_contra bad
    rw [not_or, not_not] at bad
    obtain ⟨⟨key, i, given, outside⟩, some⟩ := bad
    have first : i = 0 := by
      rcases inv.listed key i (inv.given key i given) with there | ⟨first, -⟩
      · exact absurd (mem_of_getElem? there) outside
      · exact first
    have same := (agrees.same key i given).2
    rw [named given, first, getDataValue, if_pos ⟨le_rfl, length_pos_of_ne_nil some⟩] at same
    exact outside (mem_of_getElem? same)
  · intro fine
    have reads {key i} (given : (key, i) ∈ s.given) : s.ctx.getDataValue key i = some key := by
      rw [getDataValue]
      split
      · next bound =>
        rcases inv.listed key i (inv.given key i given) with there | ⟨-, outside⟩
        · exact there
        · rcases fine with listed | empty
          · exact absurd ⟨key, i, given, outside⟩ listed
          · rw [empty] at bound
            exact absurd bound.2 (Nat.not_lt_zero _)
      · rw [inv.given key i given, map_some]
    refine ⟨fun key i given => ?_, fun key i key' i' given given' same => ?_⟩
    · rw [reads given, named given]
      exact ⟨rfl, rfl⟩
    · rw [reads given, reads given'] at same
      exact some.inj same

/-- What a call can do. -/
inductive Used.Steps (s : Used) : DataCall → Used → Prop
  | registered {key} (absent : s.ctx.table key = none) : Steps s (.registerData key)
      ⟨{ s.ctx.insert key s.ctx.array.length with array := s.ctx.array ++ [key] }, (key, s.ctx.array.length) :: s.given⟩
  | found {key i} (found : s.ctx.table key = some i) : Steps s (.registerData key) ⟨s.ctx, (key, i) :: s.given⟩
  | made {key idx} (absent : s.ctx.table key = none) : Steps s (.set key idx) ⟨s.ctx.insert key 0, s.given⟩
  | same {key idx} : Steps s (.set key idx) s

lemma Used.steps (s : Used) (call : DataCall) : s.Steps call (s.step call) := by
  cases call with
  | registerData key =>
    cases found : s.ctx.table key with
    | none => simpa only [step, registerData, found] using .registered found
    | some e => simpa only [step, registerData, found] using .found found
  | set key idx =>
    cases found : s.ctx.getDataValue key idx with
    | some slot => simpa only [step, set, found] using .same
    | none =>
      simp only [step, set, found]
      split
      · exact .same
      · refine .made ?_
        rw [getDataValue] at found
        split at found
        · next bound => exact absurd found (by simp [bound.2])
        · exact map_eq_none_iff.mp found

lemma insert_self {c : DataContext} {key : DIObjectKey} {idx : Nat} : (c.insert key idx).table key = some idx := update_self ..

lemma insert_ne {c : DataContext} {key key' : DIObjectKey} {idx : Nat} (other : key' ≠ key) :
    (c.insert key idx).table key' = c.table key' := update_of_ne other ..

lemma Used.Inv.insert (inv : s.Inv) {key : DIObjectKey} (absent : s.ctx.table key = none) {idx : Nat} {array : List DIObjectKey} {given}
    (old : ∀ key' ∈ array, key' = key ∨ key' ∈ s.ctx.array)
    (kept : ∀ key' i, key' ≠ key → s.ctx.array[i]? = some key' ∨ i = 0 ∧ key' ∉ s.ctx.array → array[i]? = some key' ∨ i = 0 ∧ key' ∉ array)
    (new : array[idx]? = some key ∨ idx = 0 ∧ key ∉ array)
    (gives : ∀ key' i, (key', i) ∈ given → key' = key ∧ i = idx ∨ (key', i) ∈ s.given) :
    Used.Inv ⟨{ s.ctx.insert key idx with array := array }, given⟩ where
  array key' there := by
    by_cases same : key' = key
    · rw [same, insert_self]
      exact some_ne_none _
    · rw [insert_ne same]
      exact inv.array key' ((old key' there).resolve_left same)
  listed key' i found := by
    by_cases same : key' = key
    · subst same
      cases insert_self.symm.trans found
      exact new
    · rw [insert_ne same] at found
      exact kept key' i same (inv.listed key' i found)
  given key' i member := by
    rcases gives key' i member with ⟨rfl, rfl⟩ | member
    · exact insert_self
    · have found := inv.given key' i member
      have other : key' ≠ key := by
        rintro rfl
        cases absent.symm.trans found
      rw [insert_ne other, found]

lemma Used.Inv.step (inv : s.Inv) (steps : s.Steps call t) : t.Inv := by
  cases steps with
  | registered absent =>
    refine inv.insert absent (fun key' there => ?_) (fun key' i other listed => ?_) (.inl (by simp)) fun key' i member => ?_
    · rcases mem_append.mp there with there | here
      · exact .inr there
      · exact .inl (mem_singleton.mp here)
    · rcases listed with there | ⟨first, outside⟩
      · exact .inl (by rw [getElem?_append_left (List.getElem?_eq_some_iff.mp there).1, there])
      · exact .inr ⟨first, by simp [outside, other]⟩
    · simpa using member
  | found found =>
    refine ⟨inv.array, inv.listed, fun key' i member => ?_⟩
    rcases mem_cons.mp member with same | member
    · cases same
      exact found
    · exact inv.given key' i member
  | made absent =>
    refine inv.insert absent (fun _ => .inr) (fun _ _ _ listed => listed) ?_ fun key' i member => .inr member
    exact .inr ⟨rfl, fun there => inv.array _ there absent⟩
  | same => exact inv

/-- An entry that is not in the array never gets there. -/
lemma Used.Inv.unlisted_step (inv : s.Inv) (steps : s.Steps call t) : t.Unlisted ↔ s.Unlisted ∨ ¬ s.Proper call := by
  cases steps with
  | @registered key absent =>
    constructor
    · rintro ⟨key', i, given, outside⟩
      rw [mem_append, mem_singleton, not_or] at outside
      rcases mem_cons.mp given with same | given
      · exact absurd (Prod.mk.inj same).1 outside.2
      · exact .inl ⟨key', i, given, outside.1⟩
    · rintro (⟨key', i, given, outside⟩ | improper)
      · refine ⟨key', i, mem_cons_of_mem _ given, fun there => ?_⟩
        rcases mem_append.mp there with there | here
        · exact outside there
        · cases mem_singleton.mp here
          cases absent.symm.trans (inv.given _ i given)
      · refine absurd ?_ improper
        rintro _ ⟨⟩ there
        exact absurd absent there
  | @found key i found =>
    constructor
    · rintro ⟨key', i', given, outside⟩
      rcases mem_cons.mp given with same | given
      · cases same
        exact .inr fun proper => outside (proper _ rfl (by simp [found]))
      · exact .inl ⟨key', i', given, outside⟩
    · rintro (⟨key', i', given, outside⟩ | improper)
      · exact ⟨key', i', mem_cons_of_mem _ given, outside⟩
      · refine ⟨key, i, mem_cons_self, fun there => improper ?_⟩
        rintro _ ⟨⟩ -
        exact there
  | made => exact (or_iff_left (not_not.mpr (by rintro _ ⟨⟩))).symm
  | same => exact (or_iff_left (not_not.mpr (by rintro _ ⟨⟩))).symm

lemma Used.array_step (steps : s.Steps call t) : t.ctx.array = [] ↔ s.ctx.array = [] ∧ s.NotNew call := by
  cases steps with
  | registered absent => exact iff_of_false (by simp) fun old => old.2 _ rfl absent
  | found found => exact (and_iff_left (by rintro _ ⟨⟩; simp [found])).symm
  | made => exact (and_iff_left (by rintro _ ⟨⟩)).symm
  | same => exact (and_iff_left (by rintro _ ⟨⟩)).symm

lemma Used.Inv.agreesThroughout_iff (inv : s.Inv) (calls : List DataCall) : s.AgreesThroughout calls ↔
    ¬ s.Unlisted ∧ s.Throughout Proper calls ∨ s.ctx.array = [] ∧ s.Throughout NotNew calls := by
  induction calls generalizing s with
  | nil => rw [AgreesThroughout, inv.agrees_iff, Throughout, and_true, Throughout, and_true]
  | cons call calls ih =>
    have steps := s.steps call
    rw [AgreesThroughout, ih (inv.step steps), inv.agrees_iff, inv.unlisted_step steps, Used.array_step steps, Throughout, Throughout]
    tauto

/-- Indices and names always agree exactly if no key is registered that a `Set` has made an entry for, or none that is new. -/
theorem agreesThroughout_iff_of_calls (disable : Bool) (calls : List DataCall) : (Used.start disable).AgreesThroughout calls ↔
    (Used.start disable).Throughout Used.Proper calls ∨ (Used.start disable).Throughout Used.NotNew calls := by
  have inv : (Used.start disable).Inv := ⟨nofun, nofun, nofun⟩
  have listed : ¬ (Used.start disable).Unlisted := by rintro ⟨_, _, given, -⟩; cases given
  rw [inv.agreesThroughout_iff, and_iff_right listed]
  exact or_congr_right (and_iff_right rfl)

/-- `b` is set, then `a` and `b` are registered: `b` gets the index of `a`. -/
theorem set_before_registered : ¬ (Used.start false).AgreesThroughout
    [.set ⟨"b", 0⟩ (-1), .registerData ⟨"a", 0⟩, .registerData ⟨"b", 0⟩] := by
  rintro ⟨-, -, -, agrees⟩
  exact absurd (agrees.same ⟨"b", 0⟩ 0 (by decide)).2 (by decide)

end DataContext

/-! ### Lookups -/

section

open Relation (ReflTransGen)

variable {Ctx V : Type} [DecidableEq Ctx]

/-- Contexts with their links, and what each one has for the key. -/
structure Links (Ctx V : Type) where
  own : Ctx → Option V
  parent : Ctx → Option Ctx
  executedChildrens : Ctx → List (Option Ctx)

structure GraphDataGetOptions where
  withParent : Bool := true
  withDiContainer : Bool := true
  withChildren : Bool := true

namespace Links

/-- What a search has found, and the contexts that it has been to. -/
abbrev Search (Ctx V : Type) : Type := List Ctx → Option (Option V × List Ctx)

def Search.orElse (first next : Search Ctx V) : Search Ctx V := fun excludes =>
  (first excludes).bind fun out => if out.1.isSome then some out else next out.2

/-- The first of the contexts that gives a value, without those that are excluded. -/
def firstOf (visit : Ctx → Search Ctx V) : List Ctx → Search Ctx V
  | [] => fun excludes => some (none, excludes)
  | c :: cs => Search.orElse (fun excludes => if c ∈ excludes then some (none, excludes) else visit c excludes) (firstOf visit cs)

/-- `Get`, by name. The source clears the options of the children in `opt`, which is not used any more, so that they have all. -/
def get (l : Links Ctx V) (container : Option V) : Nat → GraphDataGetOptions → Ctx → Search Ctx V
  | 0, _, _ => fun _ => none
  | fuel + 1, opt, c => fun excludes =>
    if (l.own c).isSome then some (l.own c, excludes)
    else
      ((firstOf (get l container fuel { withDiContainer := false, withChildren := opt.withChildren })
          (if opt.withParent then (l.parent c).toList else [])).orElse
        (Search.orElse (fun excludes => some (if opt.withDiContainer then container else none, excludes))
        (firstOf (get l container fuel {}) (if opt.withChildren then (l.executedChildrens c).reduceOption else [])))) (c :: excludes)

/-- `GetValue` does not look into `DIContainer`. -/
def getValue (l : Links Ctx V) : Nat → GraphDataGetOptions → Ctx → Search Ctx V := l.get none

def Linked (l : Links Ctx V) (c d : Ctx) : Prop := l.parent c = some d ∨ some d ∈ l.executedChildrens c

/-- There is such a value: in `DIContainer`, or in a context that some of these are linked to. -/
def Has (l : Links Ctx V) (container : Option V) (start : List Ctx) (v : V) : Prop :=
  container = some v ∨ ∃ c ∈ start, ∃ d, ReflTransGen l.Linked c d ∧ l.own d = some v

/-- How a search from some contexts ends. Where it finds nothing, the contexts that are new to it have nothing, nor is there a link
    from them to others. -/
inductive Ends (l : Links Ctx V) (container : Option V) (start excludes : List Ctx) : Option (Option V × List Ctx) → Prop
  | found {v out} (held : l.Has container start v) : Ends l container start excludes (some (some v, out))
  | nothing {out} (old : excludes ⊆ out) (new : start ⊆ out)
      (closed : ∀ c ∈ out, c ∉ excludes → l.own c = none ∧ ∀ d, l.Linked c d → d ∈ out) :
      Ends l container start excludes (some (none, out))

variable {l : Links Ctx V} {container : Option V} {s t excludes : List Ctx} {c : Ctx} {f g : Search Ctx V}

omit [DecidableEq Ctx] in
lemma Has.mono {v : V} (held : l.Has container s v) (more : s ⊆ t) : l.Has container t v := by
  rcases held with inside | ⟨c, member, reach⟩
  · exact .inl inside
  · exact .inr ⟨c, more member, reach⟩

omit [DecidableEq Ctx] in
lemma ends_same (there : s ⊆ excludes) : l.Ends container s excludes (some (none, excludes)) :=
  .nothing (refl _) there fun _ member new => absurd member new

lemma Ends.orElse (one : l.Ends container s excludes (f excludes))
    (other : ∀ more, excludes ⊆ more → l.Ends container t more (g more)) :
    l.Ends container (s ++ t) excludes (f.orElse g excludes) := by
  rw [Search.orElse]
  generalize f excludes = out at one
  cases one with
  | found held => exact .found (held.mono (subset_append_left _ _))
  | @nothing out old new closed =>
    simp only [bind_some, isSome_none, Bool.false_eq_true, if_false]
    have other := other out old
    generalize g out = out' at other ⊢
    cases other with
    | found held => exact .found (held.mono (subset_append_right _ _))
    | nothing old' new' closed' =>
      refine .nothing (Subset.trans old old') (append_subset.mpr ⟨Subset.trans new old', new'⟩) fun c member fresh => ?_
      by_cases before : c ∈ out
      · obtain ⟨absent, links⟩ := closed c before fresh
        exact ⟨absent, fun d link => old' (links d link)⟩
      · exact closed' c member before

lemma ends_firstOf {visit : Ctx → Search Ctx V} {cs : List Ctx} (visits : ∀ c ∈ cs, ∀ more, excludes ⊆ more → c ∉ more →
    l.Ends container [c] more (visit c more)) : l.Ends container cs excludes (firstOf visit cs excludes) := by
  induction cs generalizing excludes with
  | nil => exact ends_same (nil_subset _)
  | cons c cs ih =>
    refine Ends.orElse (s := [c]) ?_ fun more bound => ih fun d member more' bound' =>
      visits d (mem_cons_of_mem _ member) more' (Subset.trans bound bound')
    split
    · next before => exact ends_same (cons_subset.mpr ⟨before, nil_subset _⟩)
    · next new => exact visits c mem_cons_self excludes (refl _) new

lemma ends_get (live : Finset Ctx) (closed : ∀ c ∈ live, ∀ d, l.Linked c d → d ∈ live) (fuel : Nat) (di : Bool) (inside : c ∈ live)
    (new : c ∉ excludes) (enough : (live.filter (· ∉ excludes)).card ≤ fuel) :
    l.Ends container [c] excludes (l.get container fuel { withDiContainer := di } c excludes) := by
  induction fuel generalizing c di excludes with
  | zero => exact absurd (Finset.card_pos.mpr ⟨c, Finset.mem_filter.mpr ⟨inside, new⟩⟩) (Nat.not_lt.mpr enough)
  | succ fuel ih =>
    cases own : l.own c with
    | some v =>
      rw [get, own]
      exact .found (.inr ⟨c, mem_singleton_self c, c, .refl, own⟩)
    | none =>
      -- A search from here has one context fewer to come to.
      have visits (di : Bool) (d : Ctx) (link : l.Linked c d) (more : List Ctx) (bound : c :: excludes ⊆ more) (fresh : d ∉ more) :
          l.Ends container [d] more (l.get container fuel { withDiContainer := di } d more) := by
        have fewer : live.filter (· ∉ more) ⊂ live.filter (· ∉ excludes) := by
          refine Finset.ssubset_iff_of_subset (fun e member => ?_) |>.mpr ⟨c, Finset.mem_filter.mpr ⟨inside, new⟩, fun there => ?_⟩
          · have there := Finset.mem_filter.mp member
            exact Finset.mem_filter.mpr ⟨there.1, fun before => there.2 (bound (mem_cons_of_mem _ before))⟩
          · exact (Finset.mem_filter.mp there).2 (bound mem_cons_self)
        exact ih di (closed c inside d link) fresh (Nat.le_of_lt_succ ((Finset.card_lt_card fewer).trans_le enough))
      have asks (more : List Ctx) : l.Ends container [] more (some (if di then container else none, more)) := by
        cases found : if di then container else none with
        | none => exact ends_same (nil_subset _)
        | some v => exact .found (.inl (by cases di <;> simp_all))
      have linked (d : Ctx) : d ∈ (l.parent c).toList ++ ([] ++ (l.executedChildrens c).reduceOption) ↔ l.Linked c d := by
        simp [Linked, reduceOption_mem_iff, mem_toList]
      have ended := Ends.orElse (ends_firstOf fun d member => visits false d (.inl (mem_toList.mp member))) fun more bound =>
        Ends.orElse (f := fun more => some (if di then container else none, more)) (asks more) fun more' bound' =>
          ends_firstOf fun d member more'' bound'' => visits true d (.inr (reduceOption_mem_iff.mp member)) more''
            (Subset.trans bound (Subset.trans bound' bound''))
      simp only [get, own, isSome_none, Bool.false_eq_true, if_false, if_true]
      generalize Search.orElse _ _ (c :: excludes) = out at ended ⊢
      cases ended with
      | found held =>
        refine .found (held.imp_right ?_)
        rintro ⟨d, member, e, reach, held⟩
        exact ⟨c, mem_singleton_self c, e, .head ((linked d).mp member) reach, held⟩
      | nothing old reached shut =>
        obtain ⟨here, old⟩ := cons_subset.mp old
        refine .nothing old (cons_subset.mpr ⟨here, nil_subset _⟩) fun d member fresh => ?_
        by_cases same : d = c
        · subst same
          exact ⟨own, fun e link => reached ((linked e).mpr link)⟩
        · exact shut d member (not_mem_cons_of_ne_of_not_mem same fresh)

/-- What a lookup should return. -/
structure Answers (l : Links Ctx V) (container : Option V) (c : Ctx) (r : Option V) : Prop where
  own : ∀ v, l.own c = some v → r = some v
  bound : ∀ v, r = some v → l.Has container [c] v
  isSome : ∀ v, l.Has container [c] v → r.isSome

lemma container_of_get {fuel : Nat} {excludes out : List Ctx} (done : l.get container fuel {} c excludes = some (none, out)) :
    container = none := by
  cases fuel with
  | zero => cases done
  | succ fuel =>
    rw [get] at done
    split at done
    · next own =>
      rw [(Prod.mk.inj (some.inj done)).1] at own
      cases own
    · obtain ⟨⟨r, more⟩, -, done⟩ := bind_eq_some_iff.mp done
      split at done
      · next some =>
        cases done
        cases some
      · cases inside : container with
        | none => rfl
        | some v => simp [Search.orElse, inside] at done

lemma answers_get (live : Finset Ctx) (closed : ∀ c ∈ live, ∀ d, l.Linked c d → d ∈ live) (inside : c ∈ live) :
    ∃ fuel r excludes, l.get container fuel {} c [] = some (r, excludes) ∧ l.Answers container c r := by
  refine ⟨live.card + 1, ?_⟩
  have ended : l.Ends container _ _ _ := ends_get live closed (live.card + 1) true inside not_mem_nil
    ((Finset.card_filter_le _ _).trans (Nat.le_succ _))
  cases done : l.get container (live.card + 1) {} c [] with
  | none =>
    rw [done] at ended
    cases ended
  | some out =>
    obtain ⟨r, excludes⟩ := out
    refine ⟨r, excludes, rfl, fun v own => ?_, fun v found => ?_, fun v held => ?_⟩
    · rw [get, own] at done
      exact (congrArg fst (some.inj done)).symm
    · subst found
      rw [done] at ended
      cases ended with
      | found held => exact held
    · cases r with
      | some w => rfl
      | none =>
        rw [done] at ended
        cases ended with
        | nothing old new shut =>
          have nothing (d : Ctx) (reach : ReflTransGen l.Linked c d) : d ∈ excludes := by
            induction reach with
            | refl => exact new mem_cons_self
            | tail _ link ih => exact (shut _ ih not_mem_nil).2 _ link
          rcases held with inside | ⟨_, start, d, reach, held⟩
          · cases (container_of_get done).symm.trans inside
          · cases mem_singleton.mp start
            cases (shut d (nothing d reach) not_mem_nil).1.symm.trans held

/-- Lookups end in finitely many contexts, however they are linked, and find a value exactly if there is one. -/
theorem get_and_getValue_answer (l slots : Links Ctx V) (container : Option V) (live : Finset Ctx)
    (closed : ∀ c ∈ live, ∀ d, l.Linked c d → d ∈ live) (closed' : ∀ c ∈ live, ∀ d, slots.Linked c d → d ∈ live) (c : Ctx)
    (inside : c ∈ live) :
    (∃ fuel r excludes, l.get container fuel {} c [] = some (r, excludes) ∧ l.Answers container c r) ∧
      ∃ fuel r excludes, slots.getValue fuel {} c [] = some (r, excludes) ∧ slots.Answers none c r :=
  ⟨answers_get live closed inside, answers_get live closed' inside⟩

/-- A context and its parent that is its child too. -/
def sampleLinks : Links Bool Nat := ⟨fun c => if c then none else some 5, fun c => some !c, fun c => [none, some !c]⟩

/-- The value is that of the parent. -/
theorem get_and_getValue_answer_sample : (sampleLinks.get none 2 {} true []).map fst = some (some 5) ∧
    ∃ fuel r excludes, sampleLinks.get none fuel {} true [] = some (r, excludes) ∧ sampleLinks.Answers none true r :=
  ⟨by decide, (get_and_getValue_answer sampleLinks sampleLinks none {true, false} (by simp) (by simp) true (by simp)).1⟩

end Links

end

/-! ### Settings -/

structure ConfigSetting where
  name : String
  cond : String
  processor : String
  deriving DecidableEq

/-- `GraphCluster::Build`: the processors that the settings leave out. -/
def buildSettings (defaultExprProcessor : String) (settings : List ConfigSetting) : Option (List ConfigSetting) :=
  settings.mapM fun cfg =>
    if cfg.processor = "" then
      if defaultExprProcessor = "" then none else some { cfg with processor := defaultExprProcessor }
    else some cfg

/-- `GraphClusterContext::Setup`: the processors of the settings, each by the setting that it was made for. -/
def setupSettings (strictDsl : Bool) (exist : String → Bool) (setup : ConfigSetting → Bool) :
    List ConfigSetting → Option (List ConfigSetting)
  | [] => some []
  | cfg :: settings =>
    if exist cfg.processor then if setup cfg then (setupSettings strictDsl exist setup settings).map (cfg :: ·) else none
    else if strictDsl then none else setupSettings strictDsl exist setup settings

/-- `GraphClusterContext::Execute`: what is stored in the data of the graph, under the name of the setting at the same place. -/
def executeSettings (settings : List ConfigSetting) (execute : ConfigSetting → Bool) (processors : List ConfigSetting) :
    List (Option String × Bool) :=
  processors.zipIdx.map fun p => (settings[p.2]?.map (·.name), execute p.1)

variable {strictDsl : Bool} {exist : String → Bool} {setup : ConfigSetting → Bool} {settings processors : List ConfigSetting}

lemma setupSettings_eq (done : setupSettings strictDsl exist setup settings = some processors) :
    processors = settings.filter fun cfg => exist cfg.processor := by
  induction settings generalizing processors with
  | nil => exact (some.inj done).symm
  | cons cfg settings ih =>
    rw [setupSettings] at done
    rw [filter_cons]
    split at done
    · next there =>
      rw [if_pos there]
      obtain ⟨-, rest, others, rfl⟩ : setup cfg ∧ ∃ rest, setupSettings strictDsl exist setup settings = some rest ∧
          cfg :: rest = processors := by simpa [ite_none_right_eq_some] using done
      rw [ih others]
    · next missing =>
      rw [if_neg missing]
      exact ih (ite_none_left_eq_some.mp done).2

lemma buildSettings_names {default : String} {declared : List ConfigSetting} (built : buildSettings default declared = some settings) :
    settings.map (·.name) = declared.map (·.name) := by
  induction declared generalizing settings with
  | nil => cases built; rfl
  | cons cfg declared ih =>
    rw [buildSettings, mapM_cons] at built
    obtain ⟨cfg', one, rest, others, rfl⟩ : ∃ cfg', _ = some cfg' ∧ ∃ rest, _ = some rest ∧ cfg' :: rest = settings := by
      simpa [bind_eq_some_iff] using built
    have name : cfg'.name = cfg.name := by
      split at one
      · obtain ⟨-, rfl⟩ : _ ∧ _ := ite_none_left_eq_some.mp one |>.imp_right some.inj
        rfl
      · rw [some.inj one]
    rw [map_cons, map_cons, name, ih others]

lemma executeSettings_eq_iff : (∀ execute, executeSettings settings execute processors =
    processors.map fun cfg => (some cfg.name, execute cfg)) ↔ processors.map (·.name) <+: settings.map (·.name) := by
  have places (execute : ConfigSetting → Bool) (i : Nat) : (executeSettings settings execute processors)[i]? =
      processors[i]?.map fun cfg => (settings[i]?.map (·.name), execute cfg) := by
    simp [executeSettings, getElem?_zipIdx, comp_def]
  rw [prefix_iff_getElem?]
  constructor
  · intro stores i bound
    rw [length_map] at bound
    have same := places (fun _ => true) i
    rw [stores, getElem?_map, getElem?_eq_getElem bound] at same
    rw [getElem?_map, getElem_map]
    exact (congrArg fst (some.inj same)).symm
  · intro first execute
    refine ext_getElem? fun i => ?_
    rw [places, getElem?_map]
    refine Option.map_congr fun cfg there => ?_
    obtain ⟨bound, rfl⟩ := List.getElem?_eq_some_iff.mp there
    have same := first i (by rwa [length_map])
    rw [getElem?_map, getElem_map] at same
    rw [same]

/-- The results of the settings are stored under their own names exactly if the names of the settings whose processors exist are
    the first ones of all. -/
theorem stores_own_names_iff (strictDsl : Bool) (exist : String → Bool) (setup : ConfigSetting → Bool) {default : String}
    {declared : List ConfigSetting} (built : buildSettings default declared = some settings)
    (done : setupSettings strictDsl exist setup settings = some processors) :
    (∀ execute, executeSettings settings execute processors = processors.map fun cfg => (some cfg.name, execute cfg)) ↔
      (settings.filter fun cfg => exist cfg.processor).map (·.name) <+: declared.map (·.name) := by
  rw [executeSettings_eq_iff, ← setupSettings_eq done, buildSettings_names built]

def sampleSettings : List ConfigSetting := [⟨"a", "x > 1", "old_expr"⟩, ⟨"b", "x > 2", ""⟩]

/-- The last processor does not exist. -/
theorem stores_own_names_iff_sample : ∃ settings processors, buildSettings "expr" sampleSettings = some settings ∧
    setupSettings false (· = "old_expr") (fun _ => true) settings = some processors ∧ processors.map (·.name) = ["a"] ∧
    ∀ execute, executeSettings settings execute processors = processors.map fun cfg => (some cfg.name, execute cfg) :=
  have built : buildSettings "expr" sampleSettings = some [⟨"a", "x > 1", "old_expr"⟩, ⟨"b", "x > 2", "expr"⟩] := rfl
  ⟨_, _, built, rfl, rfl, (stores_own_names_iff false (· = "old_expr") (fun _ => true) built rfl).mpr (by decide)⟩

/-- The first processor does not exist, and the result of the second setting is stored under the name of the first. -/
theorem stored_under_other_name : ∃ settings processors, buildSettings "expr" sampleSettings = some settings ∧
    setupSettings false (· = "expr") (fun _ => true) settings = some processors ∧ processors.map (·.name) = ["b"] ∧
    executeSettings settings (fun _ => true) processors = [(some "a", true)] :=
  ⟨_, _, rfl, rfl, rfl, rfl⟩

end Myctk.Didagle
