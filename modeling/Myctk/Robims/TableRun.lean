import Myctk.Robims.Field

/-! A table (`robims/robims_table.cpp`): documents are put under a local id, and fields are selected from. -/

namespace Myctk.Robims
open Lib.Assoc Index

/-- A number is read as an integer, where it is one, or as a `double`. -/
inductive Json where
  | null
  | bool (b : Bool)
  | num (int : Option Int) (double : Float)
  | str (s : Text)
  | arr (xs : List Json)
  | obj (members : List (Text × Json))

abbrev Doc := List (Text × Json)

structure TableSchema where
  name : Text
  idField : Text
  indexField : List FieldMeta
  disableLocalIdCreation : Bool

structure Table where
  schema : TableSchema
  idBitmap : Bitmap
  fields : List (Text × Field)

def putStrings (id : UInt32) : List Json → List (Text × Bitmap) → List (Text × Bitmap) × Bool
  | [], bitmaps => (bitmaps, true)
  | .str s :: xs, bitmaps => putStrings id xs (putName bitmaps id s)
  | _ :: _, bitmaps => (bitmaps, false)

def putWeights (topkLimit : Int) (id : UInt32) : List (Text × Json) → List (Text × WeightBitmap) → List (Text × WeightBitmap) × Bool
  | [], bitmaps => (bitmaps, true)
  | (key, .num _ weight) :: members, bitmaps =>
    putWeights topkLimit id members (putWeight topkLimit bitmaps id key weight.toFloat32.toBits)
  | _ :: _, bitmaps => (bitmaps, false)

def putBool (bitmap : Bitmap) (id : UInt32) (v : Bool) : Bitmap :=
  if v then insert id (bitmap.erase id) else bitmap.erase id

def Field.put (P : Platform) (f : Field) (id : UInt32) (value : Option Json) : Field × Bool :=
  match f.info.indexType, f.index, value with
  | .bool, .bool bitmap, none => ({ f with index := .bool (putBool bitmap id false) }, true)
  | .bool, .bool bitmap, some (.bool v) => ({ f with index := .bool (putBool bitmap id v) }, true)
  | .set, .set bitmaps, some (.arr xs) =>
    let (bitmaps, ok) := putStrings id xs (removeNames bitmaps id)
    ({ f with index := .set bitmaps }, ok)
  | .mutex, .set bitmaps, some (.str s) =>
    ({ f with index := .set (putName (removeNames bitmaps id) id s) }, true)
  | .weightSet, .weightSet bitmaps, some (.obj members) =>
    let removed := removeWeights id (P.order (bitmaps.map Prod.fst)) bitmaps
    let (bitmaps, ok) := putWeights f.info.topkLimit id members removed
    ({ f with index := .weightSet bitmaps }, ok)
  | .int, .int bsi, some (.num (some v) _) => ({ f with index := .int (bsi.putInt id v) }, true)
  | .float, .float bsi, some (.num _ v) => ({ f with index := .float (bsi.putFloat id v.toFloat32.toBits).1 }, true)
  | _, _, none => (f, true)
  | _, _, some _ => (f, false)

def Field.remove (P : Platform) (f : Field) (id : UInt32) : Field := { f with index := f.index.remove P id }

namespace Table

def init (schema : TableSchema) : Option Table := do
  let fields ← schema.indexField.foldlM (fun fields info => do
    let f ← Field.build info
    return alter info.name (fun _ => f) fields) []
  return { schema, idBitmap := ∅, fields }

variable (P : Platform)

def putFields (id : UInt32) (doc : Doc) : List (Text × Field) → List (Text × Field) × Bool
  | [] => ([], true)
  | (name, f) :: fields =>
    match f.put P id (get name doc) with
    | (f, true) =>
      let (fields, ok) := putFields id doc fields
      ((name, f) :: fields, ok)
    | (f, false) => ((name, f) :: fields, false)

def put (t : Table) (id : UInt32) (doc : Doc) : Table × Int :=
  let (fields, ok) := putFields P id doc t.fields
  ({ t with idBitmap := insert id t.idBitmap, fields }, if ok then 0 else -1)

def remove (t : Table) (id : UInt32) : Table × Int :=
  ({ t with fields := mapValues (·.remove P id) t.fields }, 0)

def select (t : Table) (field : Text) (op : FieldOperator) (arg : FieldArg) : Except Int Bitmap :=
  match get field t.fields with
  | none => .error errNotFound
  | some f => f.index.select t.idBitmap op arg

def Selects (t : Table) (field : Text) (op : FieldOperator) (arg : FieldArg) (id : UInt32) : Prop :=
  ∃ ids, t.select field op arg = .ok ids ∧ id ∈ ids

def puts (t : Table) (history : List (UInt32 × Doc)) : Option Table :=
  history.foldlM (fun t entry => match t.put P entry.1 entry.2 with
    | (t, 0) => some t
    | _ => none) t

end Table

/-! Histories of puts: what the set, mutex and bool fields of a table answer is what the last documents say. -/

open Robims.Field Table List Option Lib

def named (bitmaps : List (Text × Bitmap)) (v : Text) : Bitmap := (get v bitmaps).getD ∅

section
variable {bitmaps bitmaps' : List (Text × Bitmap)} {id j : UInt32} {v : Text}

lemma mem_named_putName {s : Text} : j ∈ named (putName bitmaps id s) v ↔ (j = id ∧ v = s) ∨ j ∈ named bitmaps v := by
  rw [named, putName, get_alter]
  by_cases same : s = v
  · subst same
    simp [named]
  · rw [if_neg same]
    simp [named, Ne.symm same]

lemma mem_named_removeNames : j ∈ named (removeNames bitmaps id) v ↔ j ≠ id ∧ j ∈ named bitmaps v := by
  rw [named, removeNames, get_mapValues, named]
  cases get v bitmaps with
  | none => simp
  | some s => simp

lemma mem_named_putStrings {xs : List Json} (ok : putStrings id xs bitmaps = (bitmaps', true)) :
    j ∈ named bitmaps' v ↔ (j = id ∧ .str v ∈ xs) ∨ j ∈ named bitmaps v := by
  induction xs generalizing bitmaps with
  | nil =>
    cases ok
    simp
  | cons x xs ih =>
    cases x with
    | str s =>
      rw [putStrings] at ok
      rw [ih ok, mem_named_putName, mem_cons, Json.str.injEq]
      tauto
    | _ => cases ok

end

section
variable {P : Platform} {t t' : Table} {id : UInt32} {doc : Doc} {history : List (UInt32 × Doc)}

lemma Table.get_putFields {fields fields' : List (Text × Field)} (ok : putFields P id doc fields = (fields', true))
    (name : Text) : get name fields' = (get name fields).map (fun f => (f.put P id (get name doc)).1) ∧
      ∀ f, get name fields = some f → (f.put P id (get name doc)).2 = true := by
  induction fields generalizing fields' with
  | nil =>
    cases ok
    exact ⟨rfl, fun _ none => (nomatch none)⟩
  | cons entry fields ih =>
    obtain ⟨key, f⟩ := entry
    rw [putFields] at ok
    split at ok
    case h_2 => cases ok
    case h_1 f' done =>
      obtain ⟨rest, rest_ok⟩ : ∃ rest, putFields P id doc fields = (rest, true) := by
        cases run : putFields P id doc fields with
        | mk rest ok' =>
          rw [run] at ok
          cases ok
          exact ⟨rest, rfl⟩
      rw [rest_ok] at ok
      cases ok
      obtain ⟨later, all⟩ := ih rest_ok
      simp only [Assoc.get]
      by_cases here : key = name
      · subst here
        rw [if_pos rfl, if_pos rfl]
        refine ⟨by rw [map_some, done], fun g found => ?_⟩
        cases found
        rw [done]
      · rw [if_neg here, if_neg here]
        exact ⟨later, all⟩

lemma Table.put_spec (ok : t.put P id doc = (t', 0)) : t'.idBitmap = insert id t.idBitmap ∧ t'.schema = t.schema ∧
    ∀ name, get name t'.fields = (get name t.fields).map (fun f => (f.put P id (get name doc)).1) ∧
      ∀ f, get name t.fields = some f → (f.put P id (get name doc)).2 = true := by
  rw [put] at ok
  cases run : putFields P id doc t.fields with
  | mk fields done =>
    rw [run] at ok
    cases done with
    | false => cases ok
    | true =>
      cases ok
      exact ⟨rfl, rfl, get_putFields run⟩

lemma Table.puts_concat {entry : UInt32 × Doc} (run : t.puts P (history ++ [entry]) = some t') :
    ∃ t1, t.puts P history = some t1 ∧ t1.put P entry.1 entry.2 = (t', 0) := by
  rw [puts, foldlM_append] at run
  obtain ⟨t1, before, last⟩ := bind_eq_some_iff.mp run
  refine ⟨t1, before, ?_⟩
  rw [foldlM_cons] at last
  obtain ⟨t2, step, same⟩ := bind_eq_some_iff.mp last
  cases same
  cases put : t1.put P entry.1 entry.2 with
  | mk t3 rc =>
    rw [put] at step
    split at step
    case h_1 same => cases same; cases step; rfl
    case h_2 => cases step

def lastCarried (name : Text) (i : UInt32) (history : List (UInt32 × Doc)) : Option Json :=
  history.foldl (fun last entry => if entry.1 = i then (get name entry.2).or last else last) none

def lastDoc (i : UInt32) (history : List (UInt32 × Doc)) : Option Doc :=
  history.foldl (fun last entry => if entry.1 = i then some entry.2 else last) none

lemma lastCarried_concat (name : Text) (i : UInt32) (entry : UInt32 × Doc) : lastCarried name i (history ++ [entry]) =
    if entry.1 = i then (get name entry.2).or (lastCarried name i history) else lastCarried name i history :=
  foldl_concat _ _ _ _

lemma lastDoc_concat (i : UInt32) (entry : UInt32 × Doc) :
    lastDoc i (history ++ [entry]) = if entry.1 = i then some entry.2 else lastDoc i history :=
  foldl_concat _ _ _ _

end

def LastSays (kind : IndexType) (name : Text) (history : List (UInt32 × Doc)) (arg : FieldArg) (i : UInt32) : Prop :=
  match kind, arg with
  | .set, .str v => ∃ xs, lastCarried name i history = some (.arr xs) ∧ .str v ∈ xs
  | .mutex, .str v => lastCarried name i history = some (.str v)
  | .bool, .int v =>
    if v = 0 then ∃ doc, lastDoc i history = some doc ∧ get name doc ≠ some (.bool true)
    else ∃ doc, lastDoc i history = some doc ∧ get name doc = some (.bool true)
  | _, _ => False

def Reflects (name : Text) (history : List (UInt32 × Doc)) (f : Field) : Prop :=
  match f.info.indexType with
  | .set => ∃ bitmaps, f.index = .set bitmaps ∧ ∀ v i, i ∈ named bitmaps v ↔ LastSays .set name history (.str v) i
  | .mutex => ∃ bitmaps, f.index = .set bitmaps ∧ ∀ v i, i ∈ named bitmaps v ↔ LastSays .mutex name history (.str v) i
  | .bool => ∃ bitmap, f.index = .bool bitmap ∧ ∀ i, i ∈ bitmap ↔ LastSays .bool name history (.int 1) i
  | _ => True

section
variable {P : Platform} {name : Text} {history : List (UInt32 × Doc)} {f : Field} {id : UInt32} {doc : Doc}

lemma reflects_build {info : FieldMeta} (built : build info = some f) : f.info = info ∧ Reflects name [] f := by
  unfold build at built
  cases kind : info.indexType <;> rw [kind] at built <;> cases built <;> refine ⟨rfl, ?_⟩ <;> unfold Reflects <;> dsimp only <;>
    rw [kind] <;> dsimp only
  case set => exact ⟨[], rfl, fun v i => by simp [named, Assoc.get, LastSays, lastCarried]⟩
  case mutex => exact ⟨[], rfl, fun v i => by simp [named, Assoc.get, LastSays, lastCarried]⟩
  case bool => exact ⟨∅, rfl, fun i => by simp [LastSays, lastDoc]⟩

lemma lastCarried_absent (member : get name doc = none) (i : UInt32) :
    lastCarried name i (history ++ [(id, doc)]) = lastCarried name i history := by
  rw [lastCarried_concat, member, none_or, ite_self]

lemma lastCarried_present {value : Json} (member : get name doc = some value) (i : UInt32) :
    lastCarried name i (history ++ [(id, doc)]) = if id = i then some value else lastCarried name i history := by
  rw [lastCarried_concat, member, some_or]

section
variable {bitmaps bitmaps' : List (Text × Bitmap)}

lemma set_step {xs : List Json} (before : ∀ v i, i ∈ named bitmaps v ↔ LastSays .set name history (.str v) i)
    (member : get name doc = some (.arr xs))
    (ok : putStrings id xs (removeNames bitmaps id) = (bitmaps', true)) (v : Text) (i : UInt32) :
    i ∈ named bitmaps' v ↔ LastSays .set name (history ++ [(id, doc)]) (.str v) i := by
  rw [mem_named_putStrings ok, mem_named_removeNames, before]
  simp only [LastSays, lastCarried_present member]
  rcases eq_or_ne i id with rfl | other
  · simp
  · simp [other, Ne.symm other]

lemma mutex_step {s : Text} (before : ∀ v i, i ∈ named bitmaps v ↔ LastSays .mutex name history (.str v) i)
    (member : get name doc = some (.str s)) (v : Text) (i : UInt32) : i ∈ named (putName (removeNames bitmaps id) id s) v ↔
      LastSays .mutex name (history ++ [(id, doc)]) (.str v) i := by
  rw [mem_named_putName, mem_named_removeNames, before]
  simp only [LastSays, lastCarried_present member]
  rcases eq_or_ne i id with rfl | other
  · simp [eq_comm]
  · simp [other, Ne.symm other]

lemma bool_step {bitmap : Bitmap} {v : Bool} (before : ∀ i, i ∈ bitmap ↔ LastSays .bool name history (.int 1) i)
    (member : get name doc = some (.bool true) ↔ v = true) (i : UInt32) :
    i ∈ putBool bitmap id v ↔ LastSays .bool name (history ++ [(id, doc)]) (.int 1) i := by
  simp only [LastSays, if_neg Int.one_ne_zero, lastDoc_concat] at before ⊢
  rcases eq_or_ne i id with rfl | other
  · cases v <;> simp [putBool, member]
  · cases v <;> simp [putBool, before, other, Ne.symm other]

end

section
variable {info : FieldMeta} {value : Option Json} {f' : Field}

lemma Field.put_set {bitmaps : List (Text × Bitmap)} (kind : info.indexType = .set)
    (ok : put P ⟨info, .set bitmaps⟩ id value = (f', true)) : (value = none ∧ f' = ⟨info, .set bitmaps⟩) ∨
      ∃ xs bitmaps', value = some (.arr xs) ∧ putStrings id xs (removeNames bitmaps id) = (bitmaps', true) ∧
        f' = ⟨info, .set bitmaps'⟩ := by
  unfold put at ok
  rw [kind] at ok
  rcases value with _ | value
  · cases ok
    exact .inl ⟨rfl, rfl⟩
  · cases value
    case arr xs =>
      dsimp only at ok
      cases run : putStrings id xs (removeNames bitmaps id) with
      | mk bitmaps' done =>
        rw [run] at ok
        cases ok
        exact .inr ⟨xs, bitmaps', rfl, run, rfl⟩
    all_goals cases ok

lemma Field.put_mutex {bitmaps : List (Text × Bitmap)} (kind : info.indexType = .mutex)
    (ok : put P ⟨info, .set bitmaps⟩ id value = (f', true)) : (value = none ∧ f' = ⟨info, .set bitmaps⟩) ∨
      ∃ s, value = some (.str s) ∧ f' = ⟨info, .set (putName (removeNames bitmaps id) id s)⟩ := by
  unfold put at ok
  rw [kind] at ok
  rcases value with _ | value
  · cases ok
    exact .inl ⟨rfl, rfl⟩
  · cases value
    case str s =>
      cases ok
      exact .inr ⟨s, rfl, rfl⟩
    all_goals cases ok

lemma Field.put_bool {bitmap : Bitmap} (kind : info.indexType = .bool) (ok : put P ⟨info, .bool bitmap⟩ id value = (f', true)) :
    ∃ v, (value = some (.bool true) ↔ v = true) ∧ f' = ⟨info, .bool (putBool bitmap id v)⟩ := by
  unfold put at ok
  rw [kind] at ok
  rcases value with _ | value
  · cases ok
    exact ⟨false, by simp, rfl⟩
  · cases value
    case bool v =>
      cases ok
      exact ⟨v, by simp, rfl⟩
    all_goals cases ok

lemma Field.put_info (P : Platform) (f : Field) (id : UInt32) (value : Option Json) : (f.put P id value).1.info = f.info := by
  unfold put
  split <;> rfl

end

lemma reflects_put {f' : Field} (reflects : Reflects name history f) (ok : f.put P id (get name doc) = (f', true)) :
    Reflects name (history ++ [(id, doc)]) f' := by
  have same : f'.info = f.info := by
    rw [← put_info P f id (get name doc), ok]
  obtain ⟨info, index⟩ := f
  unfold Reflects at reflects ⊢
  rw [same]
  cases kind : info.indexType with
  | set =>
    simp only [kind] at reflects
    obtain ⟨bitmaps, rfl, before⟩ := reflects
    rcases put_set kind ok with ⟨absent, rfl⟩ | ⟨xs, bitmaps', present, run, rfl⟩
    · exact ⟨bitmaps, rfl, fun v i => by simp only [LastSays, lastCarried_absent absent]; exact before v i⟩
    · exact ⟨bitmaps', rfl, set_step before present run⟩
  | mutex =>
    simp only [kind] at reflects
    obtain ⟨bitmaps, rfl, before⟩ := reflects
    rcases put_mutex kind ok with ⟨absent, rfl⟩ | ⟨s, present, rfl⟩
    · exact ⟨bitmaps, rfl, fun v i => by simp only [LastSays, lastCarried_absent absent]; exact before v i⟩
    · exact ⟨_, rfl, mutex_step before present⟩
  | bool =>
    simp only [kind] at reflects
    obtain ⟨bitmap, rfl, before⟩ := reflects
    obtain ⟨v, member, rfl⟩ := put_bool kind ok
    exact ⟨_, rfl, bool_step before member⟩
  | _ => trivial

end

section
variable {P : Platform} {schema : TableSchema} {t₀ t t' : Table} {history : List (UInt32 × Doc)} {name : Text} {f : Field}
  {i : UInt32} {arg : FieldArg}

lemma Table.init_induction {motive : List FieldMeta → List (Text × Field) → Prop}
    (step : ∀ done fields info f, motive done fields → build info = some f →
      motive (done ++ [info]) (alter info.name (fun _ => f) fields)) (start : motive [] []) (created : Table.init schema = some t) :
    t.schema = schema ∧ t.idBitmap = ∅ ∧ motive schema.indexField t.fields := by
  obtain ⟨fields, built, same⟩ := bind_eq_some_iff.mp created
  cases same
  have all : ∀ (infos done : List FieldMeta) (before : List (Text × Field)), motive done before →
      infos.foldlM (fun fields info => do
        let f ← build info
        return alter info.name (fun _ => f) fields) before = some fields → motive (done ++ infos) fields := by
    intro infos
    induction infos with
    | nil =>
      intro done before here run
      cases run
      rw [append_nil]
      exact here
    | cons info infos ih =>
      intro done before here run
      rw [foldlM_cons] at run
      obtain ⟨next, first, rest⟩ := bind_eq_some_iff.mp run
      obtain ⟨f, made, same⟩ := bind_eq_some_iff.mp first
      cases same
      rw [append_cons]
      exact ih _ _ (step done before info f here made) rest
  exact ⟨rfl, rfl, all schema.indexField [] [] start built⟩

lemma Table.init_spec (created : Table.init schema = some t) : t.idBitmap = ∅ ∧
    ∀ name f, get name t.fields = some f → ∃ info, build info = some f := by
  refine (init_induction (motive := fun _ fields => ∀ name f, get name fields = some f → ∃ info, build info = some f)
    (fun _ fields info f before made name g found => ?_) (fun _ _ none => nomatch none) created).2
  rw [get_alter] at found
  split at found
  · cases found
    exact ⟨info, made⟩
  · exact before name g found

structure Table.Remembers (t₀ : Table) (history : List (UInt32 × Doc)) (t : Table) : Prop where
  ids : ∀ i, i ∈ t.idBitmap ↔ (lastDoc i history).isSome
  kinds : ∀ name, (get name t.fields).map Field.info = (get name t₀.fields).map Field.info
  fields : ∀ name f, get name t.fields = some f → Reflects name history f

lemma Table.remembers_init (created : Table.init schema = some t) : t.Remembers [] t := by
  obtain ⟨empty, built⟩ := init_spec created
  refine ⟨fun i => by rw [empty]; simp [lastDoc], fun _ => rfl, fun name f found => ?_⟩
  obtain ⟨info, made⟩ := built name f found
  exact (reflects_build made).2

lemma Table.Remembers.put (remembers : t₀.Remembers history t) (entry : UInt32 × Doc)
    (ok : t.put P entry.1 entry.2 = (t', 0)) : t₀.Remembers (history ++ [entry]) t' := by
  obtain ⟨ids, -, fields⟩ := put_spec ok
  refine ⟨fun i => ?_, fun name => ?_, fun name f' found => ?_⟩
  · rw [ids, Finset.mem_insert, remembers.ids, lastDoc_concat]
    rcases eq_or_ne entry.1 i with rfl | other
    · simp
    · simp [other, Ne.symm other]
  · rw [(fields name).1, ← remembers.kinds, Option.map_map]
    exact congrArg (fun g => Option.map g _) (funext fun f => put_info P f _ _)
  · rw [(fields name).1] at found
    obtain ⟨f, before, rfl⟩ := map_eq_some_iff.mp found
    have done := (fields name).2 f before
    exact reflects_put (remembers.fields name f before) (Prod.ext rfl done)

lemma Table.remembers_puts (start : t₀.Remembers [] t₀) (run : t₀.puts P history = some t) : t₀.Remembers history t := by
  induction history using reverseRecOn generalizing t with
  | nil =>
    cases run
    exact start
  | append_singleton history entry ih =>
    obtain ⟨t1, before, ok⟩ := puts_concat run
    exact (ih before).put entry ok

lemma Table.selects_iff {ids : Bitmap} (answer : t.select name .eq arg = .ok ids) : t.Selects name .eq arg i ↔ i ∈ ids := by
  rw [Selects, answer]
  exact ⟨fun ⟨_, same, member⟩ => by cases same; exact member, fun member => ⟨ids, rfl, member⟩⟩

lemma Table.not_selects (rc : Int) (answer : t.select name .eq arg = .error rc) : ¬ t.Selects name .eq arg i := by
  rintro ⟨ids, same, -⟩
  rw [answer] at same
  cases same

section
variable (found : get name t.fields = some f)
include found

lemma Table.selects_find {find : Text → Option Bitmap}
    (finds : ∀ op arg, f.index.select t.idBitmap op arg = selectNamed t.idBitmap op arg find) (v : Text) :
    t.Selects name .eq (.str v) i ↔ i ∈ (find v).getD ∅ := by
  have answer : t.select name .eq (.str v) = selectNamed t.idBitmap .eq (.str v) find := by
    rw [select, found]
    exact finds .eq (.str v)
  cases here : find v with
  | none =>
    have missing : t.select name .eq (.str v) = .error errNotFound := by
      rw [answer]
      simp [selectNamed, here]
    simpa using not_selects _ missing
  | some ids =>
    have matched : t.select name .eq (.str v) = .ok ids := by
      rw [answer]
      simp only [selectNamed, here, if_true]
    exact selects_iff matched

lemma Table.selects_named {bitmaps : List (Text × Bitmap)} (index : f.index = .set bitmaps) (v : Text) :
    t.Selects name .eq (.str v) i ↔ i ∈ named bitmaps v :=
  selects_find found (fun _ _ => by rw [index]; rfl) v

lemma Table.selects_flag {bitmap : Bitmap} (index : f.index = .bool bitmap)
    (v : Int) : t.Selects name .eq (.int v) i ↔ i ∈ (if v = 0 then t.idBitmap \ bitmap else bitmap) := by
  refine selects_iff ?_
  rw [select, found]
  show f.index.select _ _ _ = _
  rw [index]
  rfl

lemma Table.select_invalid (invalid : f.index.select t.idBitmap .eq arg = .error errInvalidArgs) : ¬ t.Selects name .eq arg i := by
  refine not_selects errInvalidArgs ?_
  rw [select, found]
  exact invalid

end

lemma Table.Remembers.selects_iff (remembers : t₀.Remembers history t) (found : get name t.fields = some f)
    (kind : f.info.indexType = .set ∨ f.info.indexType = .mutex ∨ f.info.indexType = .bool) (arg : FieldArg) (i : UInt32) :
    t.Selects name .eq arg i ↔ LastSays f.info.indexType name history arg i := by
  have reflects := remembers.fields name f found
  unfold Reflects at reflects
  rcases kind with kind | kind | kind
  iterate 2
    · simp only [kind] at reflects ⊢
      obtain ⟨bitmaps, index, same⟩ := reflects
      cases arg with
      | str v => rw [selects_named found index, same]
      | _ => exact iff_of_false (select_invalid found (by rw [index]; rfl)) id
  · simp only [kind] at reflects ⊢
    obtain ⟨bitmap, index, same⟩ := reflects
    cases arg with
    | int v =>
      rw [selects_flag found index]
      simp only [LastSays, if_neg Int.one_ne_zero] at same ⊢
      split
      · rw [Finset.mem_sdiff, remembers.ids, same, isSome_iff_exists]
        constructor
        · rintro ⟨⟨doc, last⟩, other⟩
          exact ⟨doc, last, fun here => other ⟨doc, last, here⟩⟩
        · rintro ⟨doc, last, other⟩
          refine ⟨⟨doc, last⟩, ?_⟩
          rintro ⟨doc', last', here⟩
          rw [last] at last'
          cases last'
          exact other here
      · exact same i
    | _ => exact iff_of_false (select_invalid found (by rw [index]; rfl)) id

lemma lastSays_concat {entry : UInt32 × Doc} (other : i ≠ entry.1) (kind : IndexType) :
    LastSays kind name (history ++ [entry]) arg i ↔ LastSays kind name history arg i := by
  unfold LastSays
  simp only [lastCarried_concat, lastDoc_concat, if_neg (Ne.symm other)]

end

/-- The last document of an id decides what the set, mutex and bool fields answer about it. -/
theorem puts_last_write_wins (P : Platform) {schema : TableSchema} {t₀ t : Table} (created : Table.init schema = some t₀)
    {history : List (UInt32 × Doc)} (run : t₀.puts P history = some t) {name : Text} {f₀ : Field}
    (field : get name t₀.fields = some f₀)
    (kind : f₀.info.indexType = .set ∨ f₀.info.indexType = .mutex ∨ f₀.info.indexType = .bool) :
    (∀ arg i, t.Selects name .eq arg i ↔ LastSays f₀.info.indexType name history arg i) ∧
      ∀ j doc t', t.put P j doc = (t', 0) →
        ∀ arg i, i ≠ j → (t'.Selects name .eq arg i ↔ t.Selects name .eq arg i) := by
  have remembers := remembers_puts (remembers_init created) run
  have answers : ∀ {history t}, t₀.Remembers history t → ∀ arg i,
      t.Selects name .eq arg i ↔ LastSays f₀.info.indexType name history arg i := by
    intro history t remembers
    have info := remembers.kinds name
    rw [field] at info
    obtain ⟨f, found, same⟩ := map_eq_some_iff.mp info
    rw [← same] at kind ⊢
    exact remembers.selects_iff found kind
  refine ⟨answers remembers, fun j doc t' ok arg i other => ?_⟩
  rw [answers (remembers.put (j, doc) ok), answers remembers, lastSays_concat other]

def sampleField (name : Text) (kind : IndexType) : FieldMeta := ⟨name, kind, 0, 0, 0, 0⟩

def sampleSchema : TableSchema :=
  ⟨[116], [105], [sampleField [1] .set, sampleField [2] .mutex, sampleField [3] .bool], false⟩

def sampleTable : Table :=
  ⟨sampleSchema, ∅, [([1], ⟨sampleField [1] .set, .set []⟩), ([2], ⟨sampleField [2] .mutex, .set []⟩),
    ([3], ⟨sampleField [3] .bool, .bool ∅⟩)]⟩

def sampleHistory : List (UInt32 × Doc) :=
  [(7, [([1], .arr [.str [97], .str [98]]), ([2], .str [97])]), (8, [([1], .arr [.str [97]]), ([3], .bool true)]),
    (7, [([1], .arr [.str [98]]), ([3], .bool true)])]

theorem puts_last_write_wins_sample : ∃ t, sampleTable.puts samplePlatform sampleHistory = some t ∧
    ∀ arg i, t.Selects [1] .eq arg i ↔ LastSays .set [1] sampleHistory arg i := by
  have created : Table.init sampleSchema = some sampleTable := rfl
  have field : get [1] sampleTable.fields = some ⟨sampleField [1] .set, .set []⟩ := rfl
  exact ⟨_, rfl, (puts_last_write_wins samplePlatform created rfl field (.inl rfl)).1⟩

end Myctk.Robims
