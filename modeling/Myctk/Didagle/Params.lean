import Mathlib.Tactic

/-! Parameters (`didagle/graph_params.cpp`): objects with named members, and a parent that is asked for the names that an object
    does not have. -/

namespace Myctk.Didagle

open List Option Function Relation ReflTransGen

abbrev Addr : Type := Nat

abbrev ParamsString : Type := List Char

inductive ParamValueType where
  | invalid
  | string
  | int
  | double
  | bool
  | object
  | array
  deriving DecidableEq

/-- A parameter object. The members are kept inside, the parent is elsewhere. -/
structure Params where
  paramType : ParamValueType
  str : ParamsString
  iv : Int
  dv : UInt64
  bv : Bool
  invalid : Bool
  params : List (ParamsString × Params)
  paramArray : List Params
  parent : Option Addr

namespace Params

def make (invalid : Bool) : Params := ⟨.invalid, [], 0, 0, false, invalid, [], [], none⟩

def get (h : Addr → Params) : Nat → Params → ParamsString → Option Params
  | 0, _, _ => none
  | fuel + 1, p, name =>
    match p.params.lookup name with
    | some member => some member
    | none =>
      match p.parent with
      | none => some (make true)
      | some q => get h fuel (h q) name

/-- The object of which `Get` returns a member. -/
def owner (h : Addr → Params) : Nat → Addr → ParamsString → Option (Option Addr)
  | 0, _, _ => none
  | fuel + 1, a, name =>
    match (h a).params.lookup name with
    | some _ => some (some a)
    | none =>
      match (h a).parent with
      | none => some none
      | some q => owner h fuel q name

def put (p : Params) (name : ParamsString) (v : Params) : Params :=
  { p with params := (name, v) :: p.params.filter (·.1 ≠ name) }

/-- An assignment through `operator[]`, which hands out the member that `Get` finds if it is valid, and makes one otherwise. -/
def assign (h : Addr → Params) (fuel : Nat) (a : Addr) (name : ParamsString) (v : Params) : Option (Addr → Params) :=
  (owner h fuel a name).map fun found =>
    match found with
    | some o =>
      if (((h o).params.lookup name).getD (make true)).invalid then update h a { (h a).put name v with paramType := .object }
      else update h o ((h o).put name v)
    | none => update h a { (h a).put name v with paramType := .object }

def getVar (h : Addr → Params) : Nat → Params → ParamsString → Option Params
  | 0, _, _ => none
  | fuel + 1, p, name =>
    match name.idxOf? '.' with
    | none => p.get h fuel name
    | some pos => (p.get h fuel (name.take pos)).bind fun q => getVar h fuel q (name.drop pos)

def setParent (h : Addr → Params) : Nat → Addr → Option Addr → Option (Addr → Params)
  | 0, _, _ => none
  | _ + 1, a, none => some (update h a { h a with parent := none })
  | fuel + 1, a, some p =>
    if a = p then some h
    else
      match (h a).parent with
      | none => some (update h a { h a with parent := some p })
      | some q => if q = p then some h else setParent h fuel q (some p)

/-! ### Lookups that end -/

def HasParent (h : Addr → Params) (a b : Addr) : Prop := (h a).parent = some b

/-- The parents of the object come to an end. -/
inductive Ends (h : Addr → Params) : Addr → Prop
  | root {a} (none : (h a).parent = none) : Ends h a
  | child {a b} (parent : (h a).parent = some b) (ends : Ends h b) : Ends h a

def Finds (h : Addr → Params) (p : Params) (name : ParamsString) (r : Params) : Prop := ∃ fuel, p.get h fuel name = some r

variable {h h' : Addr → Params} {a b : Addr} {p : Params} {name : ParamsString} {fuel : Nat}

lemma get_succ : p.get h (fuel + 1) name =
    match p.params.lookup name with
    | some member => some member
    | none => match p.parent with
      | none => some (make true)
      | some q => (h q).get h fuel name := rfl

lemma Ends.get (ends : Ends h a) (name : ParamsString) : ∃ r, Finds h (h a) name r := by
  induction ends with
  | @root a none =>
    cases own : (h a).params.lookup name with
    | some member => exact ⟨member, 1, by rw [get_succ, own]⟩
    | none => exact ⟨make true, 1, by rw [get_succ, own, none]⟩
  | @child a b parent _ ih =>
    cases own : (h a).params.lookup name with
    | some member => exact ⟨member, 1, by rw [get_succ, own]⟩
    | none =>
      obtain ⟨r, fuel, found⟩ := ih
      exact ⟨r, fuel + 1, by rw [get_succ, own, parent]; exact found⟩

lemma Ends.of_value (ends : ∀ a, Ends h a) (p : Params) (name : ParamsString) : ∃ r, Finds h p name r := by
  cases own : p.params.lookup name with
  | some member => exact ⟨member, 1, by rw [get_succ, own]⟩
  | none =>
    cases parent : p.parent with
    | none => exact ⟨make true, 1, by rw [get_succ, own, parent]⟩
    | some q =>
      obtain ⟨r, fuel, found⟩ := (ends q).get name
      exact ⟨r, fuel + 1, by rw [get_succ, own, parent]; exact found⟩

lemma Ends.reaches (ends : Ends h a) (path : ReflTransGen (HasParent h) a b) : Ends h b := by
  induction path with
  | refl => exact ends
  | tail _ step ih =>
    cases ih with
    | root none => cases none.symm.trans step
    | child parent ends => cases parent.symm.trans step; exact ends

lemma Ends.acyclic (ends : Ends h a) : ¬ TransGen (HasParent h) a a := by
  intro circle
  induction ends with
  | root none =>
    obtain ⟨b, step, -⟩ := TransGen.head'_iff.mp circle
    cases none.symm.trans step
  | child parent _ ih =>
    obtain ⟨b, step, path⟩ := TransGen.head'_iff.mp circle
    cases parent.symm.trans step
    exact ih (TransGen.tail' path step)

/-! ### Dotted names -/

/-- The members are looked up one after the other. -/
def Follows (h : Addr → Params) : Params → List ParamsString → Params → Prop
  | p, [], r => p = r
  | p, name :: names, r => ∃ q, Finds h p name q ∧ Follows h q names r

lemma getVar_dot (rest : ParamsString) : getVar h fuel p ('.' :: rest) = none := by
  induction fuel generalizing p with
  | zero => rfl
  | succ fuel ih =>
    have first : ('.' :: rest).idxOf? '.' = some 0 := by simp [idxOf?, findIdx?_cons]
    rw [getVar, first]
    show (p.get h fuel []).bind (fun q => getVar h fuel q ('.' :: rest)) = none
    cases p.get h fuel [] with
    | none => rfl
    | some q => exact ih

lemma idxOf?_dot {before rest : ParamsString} (fresh : '.' ∉ before) : (before ++ '.' :: rest).idxOf? '.' = some before.length := by
  induction before with
  | nil => simp [idxOf?_cons]
  | cons first before ih =>
    rw [mem_cons, not_or] at fresh
    rw [cons_append, idxOf?_cons, if_neg (by simpa using Ne.symm fresh.1), ih fresh.2]
    rfl

lemma getVar_dotted (dotted : '.' ∈ name) : getVar h fuel p name = none := by
  cases fuel with
  | zero => rfl
  | succ fuel =>
    obtain ⟨before, rest, rfl, fresh⟩ := eq_append_cons_of_mem dotted
    rw [getVar, idxOf?_dot fresh]
    show (p.get h fuel _).bind (fun q => getVar h fuel q ((before ++ '.' :: rest).drop before.length)) = none
    rw [drop_left]
    cases p.get h fuel _ with
    | none => rfl
    | some q => exact getVar_dot rest

/-- `GetVar` returns what the parts of the name lead to if there is one part, and never returns otherwise. -/
theorem getVar_iff (ends : ∀ a, Ends h a) (p : Params) (name : ParamsString) :
    (∃ fuel r, getVar h fuel p name = some r ∧ Follows h p (name.splitOn '.') r) ↔ '.' ∉ name := by
  constructor
  · rintro ⟨fuel, r, returned, -⟩ dotted
    rw [getVar_dotted dotted] at returned
    cases returned
  · intro plain
    obtain ⟨r, fuel, found⟩ := Ends.of_value ends p name
    have single : name.splitOn '.' = [name] :=
      splitOnP_eq_singleton fun c member => beq_false_of_ne fun same => plain (same ▸ member)
    refine ⟨fuel + 1, r, ?_, ?_⟩
    · rw [getVar, idxOf?_eq_none_iff.mpr plain]
      exact found
    · rw [single]
      exact ⟨r, ⟨fuel, found⟩, rfl⟩

/-- Objects without parents. -/
def fresh : Addr → Params := fun _ => make false

lemma fresh_ends (a : Addr) : Ends fresh a := .root rfl

/-- A child, a parent with a member, and nothing else. -/
def family : Addr → Params
  | 0 => { make false with parent := some 1 }
  | 1 => (make false).put ['v'] (make false)
  | _ => make false

lemma family_ends (a : Addr) : Ends family a := by
  rcases a with _ | _ | a
  · exact .child rfl (.root rfl)
  · exact .root rfl
  · exact .root rfl

/-- A name with one part, which the parent has. -/
theorem getVar_iff_plain : ∃ fuel r, getVar family fuel (family 0) ['v'] = some r ∧ Follows family (family 0) [['v']] r :=
  (getVar_iff family_ends (family 0) ['v']).mpr (by decide)

/-- `a.b`, whatever there is. -/
theorem getVar_two_parts : ¬ ∃ fuel r, getVar fresh fuel (make false) ['a', '.', 'b'] = some r := by
  rintro ⟨fuel, r, returned⟩
  rw [getVar_dotted (by decide)] at returned
  cases returned

/-! ### Parents -/

/-- No circle of parents, so that every lookup returns. -/
structure Sound (h : Addr → Params) : Prop where
  acyclic : ∀ a, ¬ TransGen (HasParent h) a a
  lookups : ∀ a name, ∃ r, Finds h (h a) name r

lemma sound_of_ends (ends : ∀ a, Ends h a) : Sound h := ⟨fun a => (ends a).acyclic, fun a => (ends a).get⟩

/-- The new parent is null, or an ancestor of the object, or they have no ancestor in common. -/
def Harmless (h : Addr → Params) (a : Addr) (new : Option Addr) : Prop :=
  ∀ p, new = some p → ReflTransGen (HasParent h) a p ∨
    ¬ ∃ r, ReflTransGen (HasParent h) a r ∧ ReflTransGen (HasParent h) p r

lemma hasParent_unique : Relator.RightUnique (HasParent h) := fun _ _ _ one other => some.inj (one.symm.trans other)

variable {r s o : Addr} {new : Option Addr} {member : Params}

lemma reaches_root (path : ReflTransGen (HasParent h) a s) (top : ReflTransGen (HasParent h) a r)
    (root : (h r).parent = none) : ReflTransGen (HasParent h) s r := by
  rcases total_of_right_unique hasParent_unique path top with there | back
  · exact there
  · rcases cases_head back with rfl | ⟨b, step, -⟩
    · exact .refl
    · cases root.symm.trans step

lemma Ends.setParent (ends : Ends h a) (new : Option Addr) : ∃ fuel h', setParent h fuel a new = some h' := by
  cases new with
  | none => exact ⟨1, _, rfl⟩
  | some p =>
    induction ends with
    | @root a none =>
      by_cases same : a = p
      · exact ⟨1, h, if_pos same⟩
      · exact ⟨1, _, (if_neg same).trans (by rw [none])⟩
    | @child a b parent _ ih =>
      obtain ⟨fuel, h', done⟩ := ih
      by_cases same : a = p
      · exact ⟨1, h, if_pos same⟩
      · by_cases there : b = p
        · exact ⟨1, h, (if_neg same).trans (by rw [parent]; exact if_pos there)⟩
        · exact ⟨fuel + 1, h', (if_neg same).trans (by rw [parent]; exact (if_neg there).trans done)⟩

/-- What a call does: nothing, or the last of the parents gets the new one. -/
lemma of_setParent {new : Addr} (done : setParent h fuel a (some new) = some h') : (h' = h ∧ ReflTransGen (HasParent h) a new) ∨
      ∃ r, ReflTransGen (HasParent h) a r ∧ (h r).parent = none ∧ ¬ ReflTransGen (HasParent h) a new ∧
        h' = update h r { h r with parent := some new } := by
  induction fuel generalizing a with
  | zero => cases done
  | succ fuel ih =>
    rw [setParent] at done
    by_cases same : a = new
    · rw [if_pos same] at done
      cases done
      exact .inl ⟨rfl, same ▸ .refl⟩
    · rw [if_neg same] at done
      cases parent : (h a).parent with
      | none =>
        rw [parent] at done
        cases done
        refine .inr ⟨a, .refl, parent, fun path => ?_, rfl⟩
        rcases cases_head path with here | ⟨b, step, -⟩
        · exact same here
        · cases parent.symm.trans step
      | some b =>
        rw [parent] at done
        dsimp only at done
        by_cases there : b = new
        · rw [if_pos there] at done
          cases done
          exact .inl ⟨rfl, .single (there ▸ parent)⟩
        · rw [if_neg there] at done
          rcases ih done with ⟨rfl, path⟩ | ⟨r, path, root, apart, rfl⟩
          · exact .inl ⟨rfl, .head parent path⟩
          · refine .inr ⟨r, .head parent path, root, fun path => ?_, rfl⟩
            rcases cases_head path with here | ⟨b', step, path⟩
            · exact same here
            · cases parent.symm.trans step
              exact apart path

lemma hasParent_update (other : s ≠ r) : HasParent (update h r { h r with parent := new }) s = HasParent h s := by
  funext x
  rw [HasParent, update_of_ne other, HasParent]

lemma path_update (root : (h r).parent = none) (path : ReflTransGen (HasParent h) a r) :
    ReflTransGen (HasParent (update h r { h r with parent := new })) a r := by
  induction path using head_induction_on with
  | refl => exact .refl
  | @head b c step _ ih =>
    have other : b ≠ r := by
      rintro rfl
      cases root.symm.trans step
    exact .head ((hasParent_update other).symm ▸ step) ih

/-- Parents that end do so after one of them was set, where the new ones end. -/
lemma Ends.update (ends : Ends h a)
    (top : Ends (update h r { h r with parent := new }) r) : Ends (update h r { h r with parent := new }) a := by
  induction ends with
  | @root a none =>
    by_cases same : a = r
    · exact same ▸ top
    · exact .root (by rw [update_of_ne same, none])
  | @child a b parent _ ih =>
    by_cases same : a = r
    · exact same ▸ top
    · exact .child (by rw [update_of_ne same, parent]) ih

lemma Ends.update_avoiding (ends : Ends h a) (apart : ¬ ReflTransGen (HasParent h) a r) :
    Ends (Function.update h r { h r with parent := new }) a := by
  induction ends with
  | @root a none =>
    have other : a ≠ r := fun same => apart (same ▸ .refl)
    exact .root (by rw [update_of_ne other, none])
  | @child a b parent _ ih =>
    have other : a ≠ r := fun same => apart (same ▸ .refl)
    exact .child (by rw [update_of_ne other, parent]) (ih fun path => apart (.head parent path))

/-- The parents still end after a call that is harmless, and there is a circle after any other. -/
lemma ends_or_circle (ends : ∀ a, Ends h a) (done : setParent h fuel a new = some h') :
    (Harmless h a new ∧ ∀ a, Ends h' a) ∨ (¬ Harmless h a new ∧ ∃ a, TransGen (HasParent h') a a) := by
  cases new with
  | none =>
    cases fuel with
    | zero => cases done
    | succ fuel =>
      cases done
      refine .inl ⟨?_, fun b => (ends b).update (.root (by rw [update_self]))⟩
      rintro p ⟨⟩
  | some p =>
    rcases of_setParent done with ⟨rfl, path⟩ | ⟨r, top, root, apart, rfl⟩
    · exact .inl ⟨fun _ same => .inl (some.inj same ▸ path), ends⟩
    have self : HasParent (update h r { h r with parent := some p }) r p := by rw [HasParent, update_self]
    by_cases meets : ReflTransGen (HasParent h) p r
    · refine .inr ⟨fun harmless => ?_, r, ?_⟩
      · rcases harmless p rfl with path | none
        · exact apart path
        · exact none ⟨r, top, meets⟩
      · -- The path to the last parent has not changed, and now it goes on to where it came from.
        exact TransGen.head' self (path_update root meets)
    · refine .inl ⟨fun q same => .inr ?_, fun b => (ends b).update (.child self ((ends p).update_avoiding meets))⟩
      cases same
      rintro ⟨s, path, meets'⟩
      exact meets (meets'.trans (reaches_root path top root))

/-- The objects are sound before and after each of the calls. -/
def StaysSound : (Addr → Params) → List (Addr × Option Addr) → Prop
  | h, [] => Sound h
  | h, call :: calls => Sound h ∧ ∀ fuel h', setParent h fuel call.1 call.2 = some h' → StaysSound h' calls

/-- Each of the calls is harmless where it is made. -/
def AllHarmless : (Addr → Params) → List (Addr × Option Addr) → Prop
  | _, [] => True
  | h, call :: calls => Harmless h call.1 call.2 ∧ ∀ fuel h', setParent h fuel call.1 call.2 = some h' → AllHarmless h' calls

/-- The parents stay acyclic exactly if no call joins two objects of one tree the wrong way round. -/
theorem staysSound_iff (ends : ∀ a, Ends h a) (calls : List (Addr × Option Addr)) : StaysSound h calls ↔ AllHarmless h calls := by
  induction calls generalizing h with
  | nil => exact iff_of_true (sound_of_ends ends) trivial
  | cons call calls ih =>
    constructor
    · rintro ⟨-, later⟩
      have sound {h'} (stays : StaysSound h' calls) : Sound h' := by
        cases calls with
        | nil => exact stays
        | cons => exact stays.1
      obtain ⟨fuel, h', done⟩ := (ends call.1).setParent call.2
      have harmless : Harmless h call.1 call.2 := by
        rcases ends_or_circle ends done with ⟨harmless, -⟩ | ⟨-, b, circle⟩
        · exact harmless
        · exact absurd circle ((sound (later fuel h' done)).acyclic b)
      refine ⟨harmless, fun fuel h' done => ?_⟩
      rcases ends_or_circle ends done with ⟨-, ends'⟩ | ⟨harmful, -⟩
      · exact (ih ends').mp (later fuel h' done)
      · exact absurd harmless harmful
    · rintro ⟨harmless, later⟩
      refine ⟨sound_of_ends ends, fun fuel h' done => ?_⟩
      rcases ends_or_circle ends done with ⟨-, ends'⟩ | ⟨harmful, -⟩
      · exact (ih ends').mpr (later fuel h' done)
      · exact absurd harmless harmful

/-- One object becomes the parent of another, and again. -/
theorem staysSound_iff_twice : AllHarmless fresh [(0, some 1), (0, some 1)] ∧ StaysSound fresh [(0, some 1), (0, some 1)] := by
  have alone {a r : Addr} (path : ReflTransGen (HasParent fresh) a r) : a = r := by
    rcases path.cases_head with same | ⟨b, parent, -⟩
    · exact same
    · cases parent
  have harmless : AllHarmless fresh [(0, some 1), (0, some 1)] := by
    refine ⟨fun p same => .inr ?_, fun fuel h' done => ⟨fun p same => .inl ?_, fun _ _ _ => trivial⟩⟩
    · rintro ⟨r, path, path'⟩
      cases same
      cases (alone path).trans (alone path').symm
    · cases same
      cases fuel with
      | zero => cases done
      | succ fuel =>
        obtain rfl : update fresh 0 { fresh 0 with parent := some 1 } = h' := Option.some.inj done
        exact .single rfl
  exact ⟨harmless, (staysSound_iff fresh_ends _).mpr harmless⟩

lemma get_round (none : (h a).params.lookup name = none) (none' : (h b).params.lookup name = Option.none)
    (parent : (h a).parent = some b) (parent' : (h b).parent = some a) (fuel : Nat) :
    (h a).get h fuel name = Option.none ∧ (h b).get h fuel name = Option.none := by
  induction fuel with
  | zero => exact ⟨rfl, rfl⟩
  | succ fuel ih => exact ⟨by rw [get_succ, none, parent]; exact ih.2, by rw [get_succ, none', parent']; exact ih.1⟩

/-- Two objects become the parents of each other, and a lookup goes round. -/
theorem two_parents_circle : ∃ h₁ h₂, setParent fresh 1 0 (some 1) = some h₁ ∧ setParent h₁ 1 1 (some 0) = some h₂ ∧
    TransGen (HasParent h₂) 0 0 ∧ ∀ fuel, (h₂ 0).get h₂ fuel ['v'] = none := by
  refine ⟨_, _, rfl, rfl, .tail (.single (b := 1) rfl) rfl, fun fuel => get_round rfl rfl rfl rfl fuel |>.1⟩

/-! ### Assignments -/

lemma get_unique {r r' : Params} (found : Finds h p name r) (again : Finds h p name r') : r = r' := by
  obtain ⟨fuel, found⟩ := found
  obtain ⟨fuel', again⟩ := again
  induction fuel generalizing p fuel' with
  | zero => cases found
  | succ fuel ih =>
    cases fuel' with
    | zero => cases again
    | succ fuel' =>
      rw [get_succ] at found again
      cases own : p.params.lookup name with
      | some member =>
        rw [own] at found again
        exact some.inj (found.symm.trans again)
      | none =>
        rw [own] at found again
        cases parent : p.parent with
        | none =>
          rw [parent] at found again
          exact some.inj (found.symm.trans again)
        | some q =>
          rw [parent] at found again
          exact ih found _ again

lemma get_update {c : Addr} {new : Params} (apart : ¬ ReflTransGen (HasParent h) a c) (key : ParamsString) (fuel : Nat) :
    (update h c new a).get (update h c new) fuel key = (h a).get h fuel key := by
  induction fuel generalizing a with
  | zero => rfl
  | succ fuel ih =>
    have other : a ≠ c := fun same => apart (same ▸ .refl)
    rw [update_of_ne other, get_succ, get_succ]
    cases (h a).params.lookup key with
    | some member => rfl
    | none =>
      cases parent : (h a).parent with
      | none => rfl
      | some q => exact ih fun path => apart (.head parent path)

lemma lookup_put (v : Params) : (p.put name v).params.lookup name = some v := by
  rw [put, lookup_cons, BEq.rfl]

lemma finds_own (own : p.params.lookup name = some member) : Finds h p name member :=
  ⟨1, by rw [get_succ, own]⟩

lemma finds_parent {r : Params} (none : p.params.lookup name = none) (parent : p.parent = some b) (found : Finds h (h b) name r) :
    Finds h p name r := by
  obtain ⟨fuel, found⟩ := found
  exact ⟨fuel + 1, by rw [get_succ, none, parent]; exact found⟩

/-- What `owner` found: the member that `Get` returns, which is read again once it was written. -/
structure Owns (h : Addr → Params) (a : Addr) (name : ParamsString) (o : Addr) (member : Params) : Prop where
  own : (h o).params.lookup name = some member
  finds : Finds h (h a) name member
  near : (h a).params.lookup name = none ∨ o = a
  reads : ∀ v, Finds (update h o ((h o).put name v)) (update h o ((h o).put name v) a) name v

lemma Owns.self (own : (h a).params.lookup name = some member) : Owns h a name a member :=
  ⟨own, finds_own own, .inr rfl, fun v => finds_own (by rw [update_self, lookup_put])⟩

lemma Owns.child (owns : Owns h b name o member) (none : (h a).params.lookup name = none)
    (parent : (h a).parent = some b) : Owns h a name o member := by
  refine ⟨owns.own, finds_parent none parent owns.finds, .inl none, fun v => ?_⟩
  have other : a ≠ o := by
    rintro rfl
    cases none.symm.trans owns.own
  rw [update_of_ne other]
  exact finds_parent none parent (owns.reads v)

lemma owner_succ : owner h (fuel + 1) a name =
    match (h a).params.lookup name with
    | some _ => some (some a)
    | none => match (h a).parent with
      | none => some none
      | some q => owner h fuel q name := rfl

lemma Ends.owner (ends : Ends h a) (name : ParamsString) : ∃ fuel found, owner h fuel a name = some found := by
  induction ends with
  | @root a none =>
    cases own : (h a).params.lookup name with
    | some member => exact ⟨1, some a, by rw [owner_succ, own]⟩
    | none => exact ⟨1, Option.none, by rw [owner_succ, own, none]⟩
  | @child a b parent _ ih =>
    cases own : (h a).params.lookup name with
    | some member => exact ⟨1, some a, by rw [owner_succ, own]⟩
    | none =>
      obtain ⟨fuel, found, done⟩ := ih
      exact ⟨fuel + 1, found, by rw [owner_succ, own, parent]; exact done⟩

lemma of_owner {found : Option Addr} (done : owner h fuel a name = some found) :
    (found = none ∧ Finds h (h a) name (make true)) ∨ ∃ o member, found = some o ∧ Owns h a name o member := by
  induction fuel generalizing a with
  | zero => cases done
  | succ fuel ih =>
    rw [owner_succ] at done
    cases own : (h a).params.lookup name with
    | some member =>
      rw [own] at done
      cases done
      exact .inr ⟨a, member, rfl, .self own⟩
    | none =>
      rw [own] at done
      cases parent : (h a).parent with
      | none =>
        rw [parent] at done
        cases done
        exact .inl ⟨rfl, 1, by rw [get_succ, own, parent]⟩
      | some b =>
        rw [parent] at done
        rcases ih done with ⟨rfl, finds⟩ | ⟨o, member, rfl, owns⟩
        · exact .inl ⟨rfl, finds_parent own parent finds⟩
        · exact .inr ⟨o, member, rfl, owns.child own parent⟩

lemma assign_none (done : owner h fuel a name = some none) (v : Params) :
    assign h fuel a name v = some (update h a { (h a).put name v with paramType := .object }) := by
  rw [assign, done]
  rfl

lemma assign_some (done : owner h fuel a name = some (some o)) (owns : Owns h a name o member)
    (v : Params) : assign h fuel a name v = some (if member.invalid then update h a { (h a).put name v with paramType := .object }
      else update h o ((h o).put name v)) := by
  rw [assign, done, map_some]
  dsimp only
  rw [owns.own]
  rfl

/-- An assignment through the child that its parent does not notice and that the child reads back. -/
def Keeps (h : Addr → Params) (c p : Addr) (name : ParamsString) (v : Params) : Prop :=
  ∃ fuel h', assign h fuel c name v = some h' ∧ (∀ key r, Finds h' (h' p) key r ↔ Finds h (h p) key r) ∧ Finds h' (h' c) name v

/-- An assignment to the child itself. -/
lemma Ends.keeps (ends : Ends h a) (parent : (h a).parent = some b) {v new : Params} (own : new.params.lookup name = some v)
    (done : assign h fuel a name v = some (Function.update h a new)) : Keeps h a b name v := by
  refine ⟨fuel, _, done, fun key r => ?_, ?_⟩
  · have apart : ¬ ReflTransGen (HasParent h) b a := fun path => ends.acyclic (.head' parent path)
    exact exists_congr fun fuel => by rw [get_update apart key fuel]
  · rw [update_self]
    exact finds_own own

/-- An assignment through the child's `operator[]` stays with the child exactly if the name is a member of the child or what the
    parent has under it is invalid. -/
theorem keeps_iff (ends : Ends h a) (parent : (h a).parent = some b) (name : ParamsString) :
    (∀ v, Keeps h a b name v) ↔ ((h a).params.lookup name).isSome ∨ ∀ r, Finds h (h b) name r → r.invalid := by
  have ends' : Ends h b := ends.reaches (.single parent)
  constructor
  · intro keeps
    by_contra shared
    rw [not_or, Bool.not_eq_true, isSome_eq_false_iff, isNone_iff_eq_none] at shared
    obtain ⟨absent, shared⟩ := shared
    refine shared fun r found => ?_
    obtain ⟨fuel, h', done, same, -⟩ := keeps { r with bv := !r.bv }
    cases owned : owner h fuel a name with
    | none => rw [assign, owned] at done; cases done
    | some x =>
      rcases of_owner owned with ⟨rfl, finds⟩ | ⟨o, member, rfl, owns⟩
      · rw [get_unique (finds_parent absent parent found) finds]
        rfl
      · cases get_unique (finds_parent absent parent found) owns.finds
        rw [assign_some owned owns] at done
        by_contra valid
        rw [if_neg valid] at done
        cases done
        -- The parent has the new value, although it should still have the old one.
        have other : a ≠ o := by
          rintro rfl
          cases absent.symm.trans owns.own
        have reads := owns.reads { r with bv := !r.bv }
        rw [update_of_ne other] at reads
        have differ := congrArg Params.bv (get_unique reads (finds_parent absent parent ((same name r).mpr found)))
        exact absurd differ (by simp)
  · intro apart v
    obtain ⟨fuel, found, owned⟩ := ends.owner name
    rcases of_owner owned with ⟨rfl, -⟩ | ⟨o, member, rfl, owns⟩
    · exact ends.keeps parent (by exact lookup_put v) (assign_none owned v)
    · have done := assign_some owned owns v
      by_cases invalid : member.invalid
      · rw [if_pos invalid] at done
        exact ends.keeps parent (by exact lookup_put v) done
      · rw [if_neg invalid] at done
        rcases owns.near with absent | rfl
        · obtain ⟨r, finds⟩ := ends'.get name
          cases get_unique (finds_parent absent parent finds) owns.finds
          rcases apart with own | apart
          · rw [absent] at own
            cases own
          · exact absurd (apart _ finds) invalid
        · exact ends.keeps parent (lookup_put v) done

/-- A name that the parent does not have. -/
theorem keeps_iff_family : (∀ v, Keeps family 0 1 ['w'] v) ↔
    ((family 0).params.lookup ['w']).isSome ∨ ∀ r, Finds family (family 1) ['w'] r → r.invalid :=
  keeps_iff (.child rfl (.root rfl)) rfl ['w']

/-- The parent's member is assigned to through the child. -/
theorem family_assigned : (family 1).get family 1 ['v'] = some (make false) ∧
    ∃ h', assign family 2 0 ['v'] { make false with iv := 7 } = some h' ∧ (h' 1).get h' 1 ['v'] = some { make false with iv := 7 } :=
  ⟨rfl, _, rfl, rfl⟩

end Params

end Myctk.Didagle
