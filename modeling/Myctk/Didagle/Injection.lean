import Myctk.Didagle.Executor

/-! What `ProcessorDI` (`didagle/graph_processor_di.cpp`) does with the names and the flags that a script declares. -/

namespace Myctk.Didagle

open List Option Function Data Around

variable {α : Type} {shared : Nat → Bool} {vars : List Char → String} {a : Around}

/-- Data in one cell of the graph's own context. -/
def only (key : DIObjectKey) (v : α) : Data α := Function.update (fun _ => none) (.own, key) (some v)

lemma only_self (key : DIObjectKey) (v : α) : only key v (.own, key) = some v := update_self ..

variable {move : Bool} {key own other : DIObjectKey}

lemma own_mem_cells : (.own, key) ∈ a.cells move own other ↔ key = own := by
  simp [mem_cells]

lemma get_only {v w : α} (found : (only key v).get (a.cells move own other) = some w) : own = key := by
  by_contra different
  refine some_ne_none w (found.symm.trans (get_eq_none_iff.mpr fun cell member => update_of_ne ?_ ..))
  rintro rfl
  exact different (own_mem_cells.mp member).symm

lemma move_own {data : Data α} : (data.move (a.cells true key other)).2 (.own, key) = none := by
  rw [snd_move, cells, cons_append, cons_append, find?_cons]
  cases held : data (.own, key) with
  | some v => exact update_self ..
  | none =>
    cases find? _ _ with
    | none => exact held
    | some cell =>
      by_cases same : (.own, key) = cell
      · exact same ▸ update_self ..
      · exact (update_of_ne same ..).trans held

/-! ### Variables -/

lemma dataName_variable {name : String} (variable' : isVariable name) (set : vars name.toList.tail ≠ "") :
    dataName vars name = some (vars name.toList.tail) := by rw [dataName, if_pos variable', if_neg set]

/-- An input that is named by a variable gets what the variable names exactly if it has no index, or the variable names itself. An
    output always goes there and nowhere else. -/
theorem variable_data_iff [Nonempty α] (a : Around) (shared : Nat → Bool) (registered : List DIObjectKey) {e o : FieldData} {s t : String}
    (variable' : isVariable e.key.name) (set : vars e.key.name.toList.tail = s) (nonempty : s ≠ "") (reads : e.isInOut = false)
    (variableOut : isVariable o.key.name) (setOut : vars o.key.name.toList.tail = t) (nonemptyOut : t ≠ "")
    (known : ⟨t, o.key.id⟩ ∈ registered) :
    ((∀ (data : Data α) v, data (.own, ⟨s, e.key.id⟩) = some v → (data.inject a (e.request shared vars)).1 = some v) ∧
      ∀ (data : Data α) output j, data.emit output ((o.target registered vars).toList.map fun key => ((.own, key), j)) =
        data.set (.own, ⟨t, o.key.id⟩) (output j)) ↔ e.isExtern ∨ e.key.name = s := by
  subst set setOut
  have target : o.target registered vars = some ⟨vars o.key.name.toList.tail, o.key.id⟩ := by
    rw [FieldData.target, if_pos variableOut, dataName_variable variableOut nonemptyOut, bind_some, if_pos known]
  have request : e.request shared vars = some ⟨if e.isExtern then ⟨vars e.key.name.toList.tail, e.key.id⟩ else e.key,
      ⟨vars e.key.name.toList.tail, e.key.id⟩, false⟩ := by
    rw [FieldData.request, if_neg (by simp [reads]), dataName_variable variable' nonempty, reads]
    rfl
  have emits : ∀ (data : Data α) output j, data.emit output ((o.target registered vars).toList.map fun key => ((.own, key), j)) =
      data.set (.own, ⟨vars o.key.name.toList.tail, o.key.id⟩) (output j) := by
    intro data output j
    rw [target]
    rfl
  rw [request, and_iff_left emits]
  constructor
  · intro gets
    by_contra other
    rw [not_or, Bool.not_eq_true] at other
    obtain ⟨v⟩ := ‹Nonempty α›
    have got := gets (only ⟨vars e.key.name.toList.tail, e.key.id⟩ v) v (only_self ..)
    rw [other.1] at got
    exact other.2 (congrArg DIObjectKey.name (get_only got))
  · intro fine data v held
    have cell : (if e.isExtern then ⟨vars e.key.name.toList.tail, e.key.id⟩ else e.key : DIObjectKey) =
        ⟨vars e.key.name.toList.tail, e.key.id⟩ := by
      split
      · rfl
      · next inside => rw [← fine.resolve_left inside]
    rw [cell]
    simp only [Data.inject, Data.get, cells, Bool.false_eq_true, if_false, cons_append, findSome?_cons, held]

def sampleField (isExtern : Bool) : FieldData := ⟨"f", ⟨"$v", 0⟩, isExtern, false⟩

def sampleData : Data Nat := fun cell => if cell = (.own, ⟨"x", 0⟩) then some 5 else none

/-- An extern input. -/
theorem variable_data_iff_extern : (sampleData.inject ⟨0, []⟩ ((sampleField true).request (fun _ => false) fun _ => "x")).1 = some 5 :=
  ((variable_data_iff (e := sampleField true) (o := sampleField false) (s := "x") (t := "x") ⟨0, []⟩ (fun _ => false) [⟨"x", 0⟩]
    (by decide) rfl (by decide) rfl (by decide) rfl (by decide) (by decide)).mpr (.inl rfl)).1 sampleData 5 (by decide)

/-- The data is there, but the input gets none. -/
theorem variable_input_missing : ∃ data : Data Nat, data (.own, ⟨"x", 0⟩) = some 5 ∧
    (data.inject ⟨0, []⟩ ((sampleField false).request (fun _ => false) fun _ => "x")).1 = none :=
  ⟨sampleData, by decide, by decide⟩

/-! ### Flags -/

/-- A field with the pointer to its declaration. -/
structure Entry extends FieldData where
  data : Option GraphData

/-- `SetupInputOutputIds`, which leaves the pointers null. -/
def setupEntries (strictDsl : Bool) (fields : List FieldData) (config : List GraphData) : Option (List Entry) :=
  (setupInputOutputIds strictDsl fields config).map (·.map fun e => ⟨e, none⟩)

/-- What an injection has come to: whether it failed, the values by their names, and the data that is left. -/
structure Injected (α : Type) where
  failed : Bool
  values : List (String × α)
  data : Data α

section
variable (shared : Nat → Bool) (vars : List Char → String) (a : Around)

/-- `inject` of a field. -/
def Entry.injectName (e : Entry) (move : Bool) (s : Injected α) (name : String) : Injected α :=
  let key : DIObjectKey := ⟨name, e.key.id⟩
  let out := if move ∧ shared e.key.id then (none, s.data)
    else s.data.inject a (some ⟨if e.isExtern then key else e.key, key, move⟩)
  ⟨out.1.isNone, s.values ++ out.1.toList.map (name, ·), out.2⟩

/-- One of the names of an aggregate. A variable is injected under its value, and then under its own name too. -/
def Entry.injectAggregate (e : Entry) (d : GraphData) (s : Injected α) (id : String) : Injected α :=
  if s.failed ∧ d.required then s
  else
    let s := if isVariable id then ((dataName vars id).elim s fun name => e.injectName shared a d.move s name) else s
    e.injectName shared a d.move s id

/-- `InjectInputs` for one field. -/
def Entry.inject (e : Entry) (data : Data α) : Injected α :=
  match e.data.filter fun d => d.aggregate ≠ [] with
  | some d => d.aggregate.foldl (e.injectAggregate shared vars a d) ⟨false, [], data⟩
  | none =>
    (dataName vars e.key.name).elim ⟨true, [], data⟩
      (e.injectName shared a ((e.data.map (·.move)).getD e.isInOut) ⟨false, [], data⟩)

/-- `InjectInputs`: whether the vertex is to be executed, and what the fields have. -/
def injectInputs (data : Data α) : List Entry → Bool × List (List (String × α)) × Data α
  | [] => (true, [], data)
  | e :: es =>
    let s := e.inject shared vars a data
    if s.failed ∧ e.data.any (·.required) then (false, [s.values], s.data)
    else
      let rest := injectInputs s.data es
      (rest.1, s.values :: rest.2.1, rest.2.2)

/-- `MoveDataWhenSkipped`, where the data is in the context of the graph. -/
def moveDataWhenSkipped (data : Data α) (es : List Entry) : Data α :=
  es.foldl (fun data e =>
    match e.data.filter fun d => d.moveFromWhenSkipped ≠ "" with
    | none => data
    | some d => (data.set (.own, e.key) (data (.own, ⟨d.moveFromWhenSkipped, e.key.id⟩))).set
        (.own, ⟨d.moveFromWhenSkipped, e.key.id⟩) none) data

end

/-- The declared flags of an input are in effect: the vertex is not executed without it if it is required, it gets the values of all
    the producers of an aggregate, and one that is moved is taken away from its producer. -/
structure Entry.InEffect (shared : Nat → Bool) (vars : List Char → String) (a : Around) (es : List Entry) (e : Entry) (d : GraphData)
    (data : Data α) : Prop where
  required : d.required → (e.inject shared vars a data).values = [] → (injectInputs shared vars a data es).1 = false
  aggregate : ∀ id ∈ d.aggregate, ∀ s v, dataName vars id = some s → data (.own, ⟨s, e.key.id⟩) = some v →
    (s, v) ∈ (e.inject shared vars a data).values
  move : d.move → ∀ s, dataName vars d.id = some s → (e.inject shared vars a data).data (.own, ⟨s, e.key.id⟩) = none

section
variable {e : Entry} {es : List Entry} {data : Data α}

lemma data_of_setupEntries {strictDsl : Bool} {fields : List FieldData} {config : List GraphData}
    (setup : setupEntries strictDsl fields config = some es) : ∀ e ∈ es, e.data = none := by
  obtain ⟨ids, -, rfl⟩ := map_eq_some_iff.mp setup
  intro e member
  obtain ⟨_, -, rfl⟩ := mem_map.mp member
  rfl

lemma Entry.inject_eq (null : e.data = none) : e.inject shared vars a data =
    (dataName vars e.key.name).elim ⟨true, [], data⟩ (e.injectName shared a e.isInOut ⟨false, [], data⟩) := by
  simp [Entry.inject, null]

lemma injectInputs_eq_true (null : ∀ e ∈ es, e.data = none) : (injectInputs shared vars a data es).1 = true := by
  induction es generalizing data with
  | nil => rfl
  | cons e es ih =>
    rw [injectInputs, if_neg (by simp [null e mem_cons_self])]
    exact ih fun e member => null e (mem_cons_of_mem _ member)

lemma moveDataWhenSkipped_eq (null : ∀ e ∈ es, e.data = none) : moveDataWhenSkipped data es = data := by
  induction es with
  | nil => rfl
  | cons e es ih =>
    rw [moveDataWhenSkipped, foldl_cons, null e mem_cons_self]
    exact ih fun e member => null e (mem_cons_of_mem _ member)

/-- The cell of the context in which the field looks for the name. -/
def Entry.cell (e : Entry) (name : String) : DIObjectKey := if e.isExtern then ⟨name, e.key.id⟩ else e.key

lemma Entry.cell_eq_iff {name : String} : e.cell name = ⟨name, e.key.id⟩ ↔ e.isExtern ∨ e.key.name = name := by
  unfold Entry.cell
  split
  · next outside => exact iff_of_true rfl (.inl outside)
  · next inside =>
    rw [or_iff_right inside]
    exact ⟨congrArg DIObjectKey.name, fun same => by rw [← same]⟩

def Entry.ask (e : Entry) (move : Bool) (name : String) : Option Request := some ⟨e.cell name, ⟨name, e.key.id⟩, move⟩

lemma Entry.injectName_eq {move : Bool} {name : String} (reads : ¬ (move ∧ shared e.key.id)) :
    e.injectName shared a move ⟨false, [], data⟩ name = ⟨(data.inject a (e.ask move name)).1.isNone,
      (data.inject a (e.ask move name)).1.toList.map (name, ·), (data.inject a (e.ask move name)).2⟩ := by
  simp only [Entry.injectName, if_neg reads, nil_append]
  rfl

lemma required_iff {d : GraphData} (null : ∀ e ∈ es, e.data = none) (inside : e ∈ es) : (∀ data : Data α, d.required →
    (e.inject shared vars a data).values = [] → (injectInputs shared vars a data es).1 = false) ↔ d.required = false := by
  constructor
  · intro effective
    by_contra required
    rw [Bool.not_eq_false] at required
    have nothing : (e.inject shared vars a (fun _ => none : Data α)).values = [] := by
      rw [Entry.inject_eq (null e inside)]
      cases dataName vars e.key.name with
      | none => rfl
      | some name =>
        rw [elim_some]
        by_cases reads : e.isInOut ∧ shared e.key.id
        · simp [Entry.injectName, reads]
        · rw [Entry.injectName_eq reads, Entry.ask, fst_inject, get_eq_none_iff.mpr fun _ _ => rfl]
          rfl
    cases (injectInputs_eq_true null).symm.trans (effective _ required nothing)
  · intro optional data required
    cases optional.symm.trans required

variable [Nonempty α]

lemma aggregate_iff (null : e.data = none) {s : String} : (∀ (data : Data α) v, data (.own, ⟨s, e.key.id⟩) = some v →
    (s, v) ∈ (e.inject shared vars a data).values) ↔
      dataName vars e.key.name = some s ∧ (e.isExtern ∨ e.key.name = s) ∧ ¬ (e.isInOut ∧ shared e.key.id) := by
  constructor
  · intro effective
    obtain ⟨v⟩ := ‹Nonempty α›
    have got := effective (only ⟨s, e.key.id⟩ v) v (only_self ..)
    rw [Entry.inject_eq null] at got
    cases named : dataName vars e.key.name with
    | none =>
      rw [named] at got
      cases got
    | some name =>
      rw [named, elim_some] at got
      by_cases reads : e.isInOut ∧ shared e.key.id
      · simp [Entry.injectName, reads] at got
      · rw [Entry.injectName_eq reads] at got
        obtain ⟨w, found, same⟩ := mem_map.mp got
        cases same
        rw [mem_toList, Entry.ask, fst_inject] at found
        exact ⟨rfl, Entry.cell_eq_iff.mp (get_only found), reads⟩
  · rintro ⟨named, cell, reads⟩ data v held
    rw [Entry.inject_eq null, named, elim_some, Entry.injectName_eq reads]
    refine mem_map.mpr ⟨v, mem_toList.mpr ?_, rfl⟩
    rw [Entry.ask, Data.fst_inject, Entry.cell_eq_iff.mpr cell, Data.get, cells, cons_append, cons_append,
      findSome?_cons, held]

lemma move_iff (null : e.data = none) {s : String} (named : dataName vars e.key.name = some s) :
    (∀ data : Data α, (e.inject shared vars a data).data (.own, ⟨s, e.key.id⟩) = none) ↔
      (e.isInOut ∧ ¬ shared e.key.id) ∧ (e.isExtern ∨ e.key.name = s) := by
  have run (data : Data α) : e.inject shared vars a data = e.injectName shared a e.isInOut ⟨false, [], data⟩ s := by
    rw [Entry.inject_eq null, named, elim_some]
  constructor
  · intro effective
    obtain ⟨v⟩ := ‹Nonempty α›
    have taken := effective (only ⟨s, e.key.id⟩ v)
    rw [run] at taken
    by_cases reads : e.isInOut ∧ shared e.key.id
    · simp [Entry.injectName, reads, only_self] at taken
    · rw [Entry.injectName_eq reads] at taken
      cases moves : e.isInOut with
      | false =>
        rw [moves] at taken
        cases (only_self ..).symm.trans taken
      | true =>
        rw [moves] at taken
        refine ⟨⟨rfl, fun both => reads ⟨moves, both⟩⟩, Entry.cell_eq_iff.mp ?_⟩
        by_contra elsewhere
        have kept : ((only ⟨s, e.key.id⟩ v).move (a.cells true (e.cell s) ⟨s, e.key.id⟩)).2 (.own, ⟨s, e.key.id⟩) = some v :=
          (move_frame fun member => elsewhere (own_mem_cells.mp member).symm).trans (only_self ..)
        cases kept.symm.trans taken
  · rintro ⟨⟨moves, reads⟩, cell⟩ data
    rw [run, Entry.injectName_eq fun both => reads both.2, Entry.ask, Entry.cell_eq_iff.mpr cell, moves]
    exact move_own

/-- The declared flags are in effect exactly if the input is not required, all the producers of its aggregate are one, it is moved only
    where the field says so itself, and the output from itself only: the pointers to the declarations are null. -/
theorem flags_in_effect_iff {strictDsl : Bool} {inputs outputs : List FieldData} {config config' : List GraphData} {os : List Entry}
    (setup : setupEntries strictDsl inputs config = some es) (setup' : setupEntries strictDsl outputs config' = some os) {o : Entry}
    (inside : e ∈ es) (d d' : GraphData) (declared : e.key.name = d.id) :
    (∀ data : Data α, e.InEffect shared vars a es d data ∧ (d'.moveFromWhenSkipped ≠ "" →
      moveDataWhenSkipped data os (.own, o.key) = data (.own, ⟨d'.moveFromWhenSkipped, o.key.id⟩))) ↔
    d.required = false ∧
    (∀ id ∈ d.aggregate, ∀ s, dataName vars id = some s →
      dataName vars d.id = some s ∧ (e.isExtern ∨ d.id = s) ∧ ¬ (e.isInOut ∧ shared e.key.id)) ∧
    (d.move → ∀ s, dataName vars d.id = some s → (e.isInOut ∧ ¬ shared e.key.id) ∧ (e.isExtern ∨ d.id = s)) ∧
    (d'.moveFromWhenSkipped = "" ∨ d'.moveFromWhenSkipped = o.key.name) := by
  have null := data_of_setupEntries setup
  have same (data : Data α) : moveDataWhenSkipped data os = data := moveDataWhenSkipped_eq (data_of_setupEntries setup')
  rw [← declared]
  constructor
  · intro effective
    refine ⟨(required_iff null inside).mp fun data => (effective data).1.required, fun id member s named => ?_,
      fun moves s named => ?_, ?_⟩
    · exact (aggregate_iff (null e inside)).mp fun data v => (effective data).1.aggregate id member s v named
    · exact (move_iff (null e inside) named).mp fun data => (effective data).1.move moves s (declared ▸ named)
    · by_contra elsewhere
      rw [not_or] at elsewhere
      obtain ⟨v⟩ := ‹Nonempty α›
      have held := (effective (only ⟨d'.moveFromWhenSkipped, o.key.id⟩ v)).2 elsewhere.1
      rw [same, only_self, only, update_of_ne] at held
      · cases held
      · intro here
        exact elsewhere.2 (congrArg (fun cell : Cell => cell.2.name) here).symm
  · rintro ⟨optional, producers, moves, skipped⟩ data
    refine ⟨⟨fun required => ?_, fun id member s v named => ?_, fun move s named => ?_⟩, fun some => ?_⟩
    · exact (required_iff null inside).mpr optional data required
    · exact (aggregate_iff (null e inside)).mpr (producers id member s named) data v
    · rw [← declared] at named
      exact (move_iff (null e inside) named).mpr (moves move s named) data
    · rw [same, skipped.resolve_left some]

end

def movedData : GraphData := ⟨"x", "f", [], false, true, false, true, ""⟩

/-- An in-out field that is moved. -/
theorem flags_in_effect_iff_moved : ∃ e, setupEntries false [⟨"f", ⟨"f", 0⟩, false, true⟩] [movedData] = some [e] ∧
    ∀ data : Data Nat, e.InEffect (fun _ => false) (fun _ => "") ⟨0, []⟩ [e] movedData data := by
  refine ⟨_, rfl, fun data => ((flags_in_effect_iff (o := ⟨sampleField false, none⟩)
    (show setupEntries false [⟨"f", ⟨"f", 0⟩, false, true⟩] [movedData] = some _ from rfl)
    (show setupEntries false [] [] = some [] from rfl) (mem_singleton_self _) movedData movedData rfl).mpr ?_ data).1⟩
  exact ⟨rfl, nofun, fun _ s named => ⟨⟨rfl, nofun⟩, .inr (some.inj named)⟩, .inl rfl⟩

/-- A required input has no data, and the vertex is executed. -/
theorem required_input_missing : ∃ es, setupEntries false [sampleField false] [⟨"x", "f", [], true, false, false, false, ""⟩] = some es ∧
    (injectInputs (fun _ => false) (fun _ => "") ⟨0, []⟩ (fun _ => none : Data Nat) es).1 = true := ⟨_, rfl, rfl⟩

end Myctk.Didagle
