import Myctk.Lib.Countable
import Myctk.Robims.DatabaseRun

/-! A database that is saved and loaded again gives the same answers. -/

namespace Myctk.Robims

open List Option Prod UInt32 Lib Lib.Stream Operand DB Codec
open Lib.Assoc

/-! ### Queries

    What a query answers does not depend on which objects the tables are. -/

section
variable {R : FieldRef → FieldRef → Prop} {D D' : FieldRef → Option (Bitmap × Index)} {L L' : Lookup}

inductive QueryValue.Like {β : Type} (R : FieldRef → FieldRef → Prop) : QueryValue β → QueryValue β → Prop
  | field {f f' : FieldRef} (related : R f f') : Like R (.field f) (.field f')
  | plain {v : QueryValue β} (plain : ∀ f, v ≠ .field f) : Like R v v

def LikeResults (R : FieldRef → FieldRef → Prop) : Option (QueryValue Bitmap) → Option (QueryValue Bitmap) → Prop :=
  Rel (QueryValue.Like R)

variable {x : Option (QueryValue Bitmap)} {left left' right right' v v' : QueryValue Bitmap} {op : Optoken}

lemma LikeResults.bind {x' : Option (QueryValue Bitmap)} {f f' : QueryValue Bitmap → Option (QueryValue Bitmap)}
    (first : LikeResults R x x') (second : ∀ v v', QueryValue.Like R v v' → LikeResults R (f v) (f' v')) :
    LikeResults R (x >>= f) (x' >>= f') := by
  cases first with
  | none => exact .none
  | some like => exact second _ _ like

lemma calcArithmetic_like (op : Optoken) (lefts : QueryValue.Like R left left') (rights : QueryValue.Like R right right') :
    calcArithmetic (setMachine D) op left right = calcArithmetic (setMachine D') op left' right' := by
  cases lefts with
  | field => cases right <;> cases right' <;> rfl
  | plain =>
    cases rights with
    | plain => rfl
    | field => cases left <;> rfl

lemma calcLogical_like (name : String) (bools : Bool → Bool → Bool) (bitmaps : Bitmap → Bitmap → Option Bitmap)
    (lefts : QueryValue.Like R left left') (rights : QueryValue.Like R right right') :
    calcLogical name bools bitmaps left right = calcLogical name bools bitmaps left' right' := by
  cases lefts with
  | field => cases right <;> cases right' <;> rfl
  | plain =>
    cases rights with
    | plain => rfl
    | field => cases left <;> rfl

def SelectsLike (R : FieldRef → FieldRef → Prop) (D D' : FieldRef → Option (Bitmap × Index)) : Prop :=
  ∀ f f', R f f' → ∀ op arg, (setMachine D).select f op arg = (setMachine D').select f' op arg

lemma calcSelect_like (same : SelectsLike R D D') (c : Comparison) (side : String) {f f' : FieldRef} (related : R f f')
    (op : FieldOperator) (like : QueryValue.Like R v v') :
    calcSelect (setMachine D) c side f op v = calcSelect (setMachine D') c side f' op v' := by
  have arg : fieldArg c.strings v = fieldArg c.strings v' := by cases like <;> rfl
  rw [calcSelect, calcSelect, arg]
  cases fieldArg c.strings v' with
  | none => rfl
  | some arg =>
    dsimp only
    rw [same f f' related]

lemma calcCompare_like (same : SelectsLike R D D') (c : Comparison)
    (lefts : QueryValue.Like R left left') (rights : QueryValue.Like R right right') :
    calcCompare (setMachine D) c left right = calcCompare (setMachine D') c left' right' := by
  have constants : compareConstants c.direct left right = compareConstants c.direct left' right' := by
    cases lefts with
    | field => cases right <;> cases right' <;> rfl
    | plain =>
      cases rights with
      | plain => rfl
      | field => cases left <;> rfl
  unfold calcCompare
  rw [constants]
  cases compareConstants c.direct left' right' with
  | some b => rfl
  | none =>
    cases lefts with
    | field related => exact calcSelect_like same c "right" related c.direct rights
    | plain notField =>
      cases rights with
      | field related =>
        have like : QueryValue.Like R left left := .plain notField
        cases left with
        | field f => exact absurd rfl (notField f)
        | _ => exact calcSelect_like same c "left" related c.mirrored like
      | plain notField' =>
        cases left with
        | field f => exact absurd rfl (notField f)
        | _ =>
          cases right with
          | field f => exact absurd rfl (notField' f)
          | _ => rfl

lemma queryCalc_like (same : SelectsLike R D D') (op : Optoken)
    (lefts : QueryValue.Like R left left') (rights : QueryValue.Like R right right') :
    queryCalc (setMachine D) op left right = queryCalc (setMachine D') op left' right' := by
  unfold queryCalc
  split
  case h_7 =>
    split
    · exact calcCompare_like same _ lefts rights
    · rfl
  case h_5 => exact calcLogical_like _ _ _ lefts rights
  case h_6 => exact calcLogical_like _ _ _ lefts rights
  all_goals exact calcArithmetic_like _ lefts rights

lemma calcDoubles_ne (op : Optoken) (a b : Float) (f : FieldRef) : calcDoubles op a b ≠ (.field f : QueryValue Bitmap) := by
  cases op <;> exact nofun

variable (f : FieldRef)

lemma calcArithmetic_plain : calcArithmetic (setMachine D) op left right ≠ some (.field f) := by
  intro result
  unfold calcArithmetic at result
  split at result
  case h_1 =>
    split at result
    case h_4 =>
      unfold divideInts at result
      split at result <;> cases result
    all_goals cases result
  case h_5 => cases result
  all_goals exact calcDoubles_ne op _ _ f (some.inj result)

lemma calcLogical_plain {name : String} {bools : Bool → Bool → Bool} {bitmaps : Bitmap → Bitmap → Option Bitmap} :
    calcLogical name bools bitmaps left right ≠ some (.field f) := by
  intro result
  unfold calcLogical at result
  split at result
  case h_2 =>
    obtain ⟨b, -, same⟩ := bind_eq_some_iff.mp result
    cases same
  all_goals cases result

lemma calcSelect_plain {c : Comparison} {side : String} {g : FieldRef} {op : FieldOperator} :
    calcSelect (setMachine D) c side g op v ≠ some (.field f) := by
  intro result
  unfold calcSelect at result
  split at result
  case h_1 => cases result
  case h_2 =>
    obtain ⟨answer, -, same⟩ := bind_eq_some_iff.mp result
    cases answer <;> cases same

lemma queryCalc_plain : queryCalc (setMachine D) op left right ≠ some (.field f) := by
  intro result
  unfold queryCalc at result
  split at result
  case h_7 =>
    split at result
    case h_1 =>
      unfold calcCompare at result
      split at result
      case h_1 => cases result
      case h_2 =>
        split at result
        · exact calcSelect_plain f result
        · exact calcSelect_plain f result
        · cases result
    case h_2 => cases result
  case h_5 => exact calcLogical_plain f result
  case h_6 => exact calcLogical_plain f result
  all_goals exact calcArithmetic_plain f result

lemma likeResults_of_plain (plain : ∀ f, x ≠ some (.field f)) : LikeResults R x x := by
  cases x with
  | none => exact .none
  | some v => exact .some (.plain fun f same => plain f (congrArg some same))

lemma operate_like (same : SelectsLike R D D') (op : Optoken)
    (lefts : QueryValue.Like R left left') (rights : QueryValue.Like R right right') :
    LikeResults R (operate (setMachine D) op left right) (operate (setMachine D') op left' right') := by
  rw [operate_set, operate_set, queryCalc_like same op lefts rights]
  exact likeResults_of_plain queryCalc_plain

lemma applyUnary_like (op : Optoken) (like : QueryValue.Like R v v') :
    LikeResults R (applyUnary (setMachine D) op v) (applyUnary (setMachine D') op v') := by
  cases like with
  | field => cases op <;> exact .some (.plain nofun)
  | plain notField => cases op <;> cases v <;> exact .some (.plain nofun)

inductive InitLike {α : Type} (Q : α → α → Prop) : Except Int α → Except Int α → Prop
  | error (rc : Int) : InitLike Q (.error rc) (.error rc)
  | ok {x x' : α} (related : Q x x') : InitLike Q (.ok x) (.ok x')

lemma InitLike.bind {α β : Type} {Q : α → α → Prop} {Q' : β → β → Prop} {x x' : Except Int α} {f f' : α → Except Int β}
    (first : InitLike Q x x') (second : ∀ a a', Q a a' → InitLike Q' (f a) (f' a')) : InitLike Q' (x >>= f) (x' >>= f') := by
  cases first with
  | error rc => exact .error rc
  | ok related => exact second _ _ related

def LookupsLike (R : FieldRef → FieldRef → Prop) (L L' : Lookup) : Prop :=
  ∀ table, Rel (fun n n' => ∀ field, Rel R (L.getField n field) (L'.getField n' field)) (L.getTable table) (L'.getTable table)

def EvalLike (R : FieldRef → FieldRef → Prop) (D D' : FieldRef → Option (Bitmap × Index)) (e e' : Operand) : Prop :=
  LikeResults R (e.eval (setMachine D)) (e'.eval (setMachine D'))

def EvalRestLike (R : FieldRef → FieldRef → Prop) (D D' : FieldRef → Option (Bitmap × Index)) (rest rest' : Operations) : Prop :=
  ∀ v v', QueryValue.Like R v v' → LikeResults R (rest.eval (setMachine D) v) (rest'.eval (setMachine D') v')

mutual

theorem Operand.init_like (same : SelectsLike R D D') (lookups : LookupsLike R L L') (e : Operand) :
    InitLike (EvalLike R D D') (e.init L) (e.init L') := by
  match e with
  | .var [table, field] _ =>
    have found := lookups table
    rw [init, init]
    generalize L.getTable table = n, L'.getTable table = n' at found ⊢
    cases found with
    | none => exact .error _
    | some fields =>
      refine .ok ?_
      have there := fields field
      generalize L.getField _ field = r, L'.getField _ field = r' at there ⊢
      cases there with
      | none => exact .some (.plain nofun)
      | some related => exact .some (.field related)
  | .var [] _ | .var [_] _ | .var (_ :: _ :: _ :: _) _ => exact .error _
  | .unary op operand =>
    rw [init, init]
    refine (operand.init_like same lookups).bind fun e e' evals => .ok ?_
    rw [EvalLike, eval, eval]
    exact LikeResults.bind evals fun v v' like => applyUnary_like op like
  | .cond lhs rhsTrue rhsFalse =>
    rw [init, init]
    refine (lhs.init_like same lookups).bind fun e e' test => ?_
    refine (rhsTrue.init_like same lookups).bind fun e₁ e₁' yes => ?_
    refine (rhsFalse.init_like same lookups).bind fun e₂ e₂' no => .ok ?_
    rw [EvalLike, eval, eval]
    refine LikeResults.bind test fun v v' like => ?_
    cases like with
    | field related => exact .some (.field related)
    | plain notField =>
      cases v with
      | bool b =>
        cases b with
        | true => exact yes
        | false => exact no
      | _ => exact .some (.plain notField)
  | .expression first rest =>
    rw [init, init]
    refine (first.init_like same lookups).bind fun e e' start => ?_
    refine (rest.init_like same lookups).bind fun r r' evals => .ok ?_
    rw [EvalLike, eval, eval]
    exact LikeResults.bind start evals
  | .nil | .int _ | .double _ | .bool _ | .str _ | .dynamicVar _ | .func _ _ => exact .ok (.some (.plain nofun))

theorem Operations.init_like (same : SelectsLike R D D') (lookups : LookupsLike R L L') (rest : Operations) :
    InitLike (EvalRestLike R D D') (rest.init L) (rest.init L') := by
  match rest with
  | .nil => exact .ok fun v v' like => .some like
  | .cons op operand rest =>
    rw [Operations.init, Operations.init]
    refine (operand.init_like same lookups).bind fun e e' evals => ?_
    refine (rest.init_like same lookups).bind fun r r' more => .ok fun v v' like => ?_
    rw [Operations.eval, Operations.eval]
    refine LikeResults.bind evals fun w w' like' => ?_
    exact LikeResults.bind (operate_like same op like like') more

end

end

namespace DB

variable {P Q : Platform} {F : Formats} {readonly : Bool} {db db' : DB} {parse : Text → Option Operand}

structure Alike (db db' : DB) : Prop where
  tables : ∀ name, Rel Table.Alike (db.table name) (db'.table name)
  ids : ∀ localId, db'.idMapping.getID localId = db.idMapping.getID localId

def RefsAlike (db db' : DB) (f f' : FieldRef) : Prop :=
  f.field = f'.field ∧ ∃ t t', db.objects f.table = some t ∧ db'.objects f'.table = some t' ∧ t.Alike t'

lemma selectsLike (db db' : DB) : SelectsLike (RefsAlike db db') db.deref db'.deref := by
  rintro f f' ⟨field, t, t', object, object', alike⟩ op arg
  have select : ∀ {db : DB} {f : FieldRef} {t : Table}, db.objects f.table = some t →
      (setMachine db.deref).select f op arg = ((get f.field t.fields).map Field.answers).map fun answers => answers t.idBitmap op arg := by
    intro db f t object
    show ((db.objects f.table).bind fun t => (get f.field t.fields).bind fun field => some (t.idBitmap, field.index)).map _ = _
    rw [object, bind_some]
    cases get f.field t.fields <;> rfl
  rw [select object, select object', alike.fields, alike.idBitmap, field]

lemma getTable_of_table {name : Text} (sound : db.Sound) : (db.table name = none ∧ db.getTable name = none) ∨
    ∃ n t, db.table name = some t ∧ db.getTable name = some n ∧ db.objects n = some t := by
  rw [table]
  cases there : db.getTable name with
  | none => exact .inl ⟨rfl, rfl⟩
  | some n =>
    obtain ⟨t, object⟩ := isSome_iff_exists.mp (sound.live name n there)
    exact .inr ⟨n, t, object, rfl, object⟩

lemma lookupsLike (sound : db.Sound) (sound' : db'.Sound) (alike : db.Alike db') :
    LookupsLike (RefsAlike db db') db.lookup db'.lookup := by
  intro name
  have tables := alike.tables name
  show Rel _ (db.findTable name) (db'.findTable name)
  rw [sound.findTable, sound'.findTable]
  rcases getTable_of_table sound with ⟨none, there⟩ | ⟨n, t, some, there, object⟩ <;>
    rcases getTable_of_table sound' with ⟨none', there'⟩ | ⟨n', t', some', there', object'⟩
  · rw [there, there']
    exact .none
  · rw [none, some'] at tables
    cases tables
  · rw [some, none'] at tables
    cases tables
  · rw [some, some'] at tables
    cases tables with
    | some same =>
      rw [there, there']
      refine .some fun field => ?_
      show Rel _ ((db.objects n).bind _) ((db'.objects n').bind _)
      rw [object, object']
      have fields := same.fields field
      show Rel _ ((get field t.fields).map _) ((get field t'.fields).map _)
      cases found : get field t.fields with
      | none =>
        rw [found, map_none, map_eq_none_iff] at fields
        rw [fields]
        exact .none
      | some f =>
        rw [found, map_some] at fields
        obtain ⟨f', found', -⟩ := map_eq_some_iff.mp fields
        rw [found']
        exact .some ⟨rfl, t, t', object, object', same⟩

lemma answer_like {e e' : Operand} (evals : EvalLike (RefsAlike db db') db.deref db'.deref e e') (alike : db.Alike db')
    (offset limit : Int) : db'.answer e' offset limit = db.answer e offset limit := by
  rw [answer, answer]
  rw [EvalLike] at evals
  generalize e.eval (setMachine db.deref) = x, e'.eval (setMachine db'.deref) = x' at evals ⊢
  cases evals with
  | none => rfl
  | @some v _ like =>
    cases like with
    | field => rfl
    | plain =>
      cases v with
      | bitmap ids => simp only [map_some, realIds_congr db db' alike.ids]
      | _ => rfl

lemma select_like (sound : db.Sound) (sound' : db'.Sound) (alike : db.Alike db') (fresh : db.queryCache = [])
    (fresh' : db'.queryCache = []) (query : Text) (offset limit : Int) :
    (db'.select parse query offset limit).map snd = (db.select parse query offset limit).map snd := by
  have new : ∀ {db : DB}, db.queryCache = [] → (db.select parse query offset limit).map snd =
      match db.compile parse query with
      | none => some (-1, ⟨0, []⟩)
      | some e => db.answer e offset limit := by
    intro db fresh
    rw [select, prepare, fresh, Lib.Assoc.get]
    cases db.compile parse query with
    | none => rfl
    | some e =>
      show ((db.answer e offset limit).map _).map _ = _
      rw [Option.map_map]
      exact map_id'
  rw [new fresh, new fresh', compile, compile]
  cases parse query with
  | none => rfl
  | some e =>
    have inits := e.init_like (selectsLike db db') (lookupsLike sound sound' alike)
    show (match (e.init db'.lookup).toOption with | none => _ | some e => _) = (match (e.init db.lookup).toOption with | none => _ | some e => _)
    generalize e.init db.lookup = x, e.init db'.lookup = x' at inits ⊢
    cases inits with
    | error => rfl
    | ok evals => exact answer_like evals alike offset limit

structure Regular (F : Formats) (db : DB) : Prop where
  fewTables : db.tables.length < 2 ^ 32
  fewIds : db.idMapping.realLocal.length < 2 ^ 32
  shortIds : ∀ e ∈ db.idMapping.realLocal, e.1.length < 2 ^ 32
  tables : ∀ name t, db.table name = some t → t.Regular F

/-- No string that `Save` writes is empty. -/
structure Named (db : DB) : Prop where
  ids : [] ∉ db.idMapping.realLocal.map fst
  tables : ∀ name t, db.table name = some t → t.Named

lemma Formed.table_of_mem (formed : db.Formed) {e : Text × Nat} (member : e ∈ db.tables) :
    ∃ t, db.objects e.2 = some t ∧ db.table e.1 = some t := by
  have there : db.getTable e.1 = some e.2 := get_of_mem formed.nodup member
  obtain ⟨t, object⟩ := isSome_iff_exists.mp (formed.sound.live e.1 e.2 there)
  exact ⟨t, object, by rw [table, there]; exact object⟩

lemma saveObject_eq {e : Text × Nat} {t : Table} (object : db.objects e.2 = some t) :
    db.saveObject P F readonly e = t.save P F readonly := by
  rw [saveObject, object]
  rfl

lemma isSome_save (lawful : F.Lawful) (formed : db.Formed) : (db.save P F readonly).isSome ↔ db.Named := by
  have header : (fileWriteString (F.header.encode ⟨1, false, true, []⟩)).isSome :=
    isSome_fileWriteString.mpr (lawful.header_ne _ (by decide))
  rw [save, isSome_andThen, isSome_andThen, isSome_andThen, isSome_each, IDMapping.isSome_save formed.idMapping,
    and_iff_right header, and_iff_right (isSome_fileWriteUint32 _)]
  simp only [(iterate_perm P formed.nodup).mem_iff]
  constructor
  · rintro ⟨wrote, ids⟩
    refine ⟨ids, fun name t found => ?_⟩
    obtain ⟨n, there, object⟩ := bind_eq_some_iff.mp found
    have here := wrote (name, n) (mem_of_get there)
    rw [saveObject_eq object, Table.isSome_save lawful (formed.tables name t found).2] at here
    exact here
  · rintro ⟨ids, named⟩
    refine ⟨fun e member => ?_, ids⟩
    obtain ⟨t, object, found⟩ := formed.table_of_mem member
    rw [saveObject_eq object, Table.isSome_save lawful (formed.tables e.1 t found).2]
    exact named e.1 t found

lemma reads_tables (lawful : F.Lawful) (formed : db.Formed) (regular : db.Regular F) {entries : List (Text × Nat)}
    (part : ∀ e ∈ entries, e ∈ db.tables) (distinct : (entries.map fst).Nodup) {start : DB} (sound : start.Sound)
    (new : ∀ name ∈ entries.map fst, start.getTable name = none) :
    ∃ loaded, Reads (each (db.saveObject P F readonly) entries) (loadTables F entries.length start) loaded ∧ loaded.Sound ∧
      loaded.idMapping = start.idMapping ∧ loaded.queryCache = start.queryCache ∧
      (∀ name, name ∉ entries.map fst → loaded.table name = start.table name) ∧
      ∀ name ∈ entries.map fst, Rel Table.Alike (db.table name) (loaded.table name) := by
  induction entries generalizing start with
  | nil => exact ⟨start, .pure _, sound, rfl, rfl, fun _ _ => rfl, fun _ none => (nomatch none)⟩
  | cons e entries ih =>
    obtain ⟨t, object, found⟩ := formed.table_of_mem (part e mem_cons_self)
    obtain ⟨named, good⟩ := formed.tables e.1 t found
    obtain ⟨t', reads, alike⟩ := reads_table lawful good (regular.tables e.1 t found) (P := P)
    have name : t'.schema.name = e.1 := (congrArg TableSchema.name alike.schema).trans named
    obtain ⟨loaded, rest, sound', mapping, cache, others, same⟩ :=
      ih (fun e member => part e (mem_cons_of_mem _ member)) (nodup_cons.mp distinct).2 (sound.store (new e.1 mem_cons_self) t')
        fun name member => by
          rw [getTable_store, if_neg (ne_of_mem_of_not_mem member (nodup_cons.mp distinct).1).symm]
          exact new name (mem_cons_of_mem _ member)
    refine ⟨loaded, ?_, sound', mapping, cache, fun other absent => ?_, fun other member => ?_⟩
    · rw [each, saveObject_eq object]
      refine reads.bind ?_
      rw [name]
      exact rest
    · obtain ⟨differ, absent⟩ := ne_and_not_mem_of_not_mem_cons absent
      rw [others other absent, sound.table_store, if_neg (Ne.symm differ)]
    · by_cases later : other ∈ entries.map fst
      · exact same other later
      · have here : other = e.1 := (mem_cons.mp member).resolve_right later
        rw [others other later, sound.table_store, if_pos here.symm, here, found]
        exact .some alike

lemma reads_file (lawful : F.Lawful) (formed : db.Formed) (regular : db.Regular F) (start : DB) :
    ∃ loaded, Reads (db.save P F readonly) (start.loadFile F) (loaded, 0) ∧ loaded.Sound ∧ loaded.queryCache = [] ∧ db.Alike loaded := by
  have perm := iterate_perm P formed.nodup
  obtain ⟨loaded, tables, sound, mapping, cache, others, same⟩ :=
    reads_tables lawful formed regular (fun e member => perm.mem_iff.mp member) ((perm.map fst).nodup_iff.mpr formed.nodup)
      start.sound_cleared (fun _ _ => rfl) (P := P)
  obtain ⟨idMapping, ids, sameIds⟩ := IDMapping.reads_mapping formed.idMapping regular.fewIds regular.shortIds (P := P)
  refine ⟨{ loaded with idMapping }, ?_, ⟨sound.kept, sound.below, sound.live, sound.apart⟩, cache, ⟨fun name => ?_, sameIds.getID⟩⟩
  · refine reads_message (lawful.header ⟨1, false, true, []⟩ (fun _ none => (nomatch none))) lawful.header_lt ?_
    refine ((reads_uint32 regular.fewTables).tryCatch _).bind ?_
    rw [← perm.length_eq]
    refine tables.bind ?_
    rw [mapping]
    exact ids.then fun _ => rfl
  · show Rel _ _ (loaded.table name)
    by_cases member : name ∈ (iterate P db.tables).map fst
    · exact same name member
    · rw [others name member]
      have absent : db.getTable name = none := by
        rw [(perm.map fst).mem_iff, ← isSome_get, not_isSome_iff_eq_none] at member
        exact member
      rw [table, absent]
      exact .none

/-- `Save`, then `Load` into a new database, and the queries there. -/
def Survives (Q : Platform) (F : Formats) (readonly : Bool) (db : DB) : Prop :=
  ∃ file loaded, db.save Q F readonly = some file ∧ empty.load F file = some (loaded, 0) ∧ ∀ parse query offset limit,
    (loaded.select parse query offset limit).map snd = (db.select parse query offset limit).map snd

end DB

/-- Where counts and lengths fit their 32 bits, the strings of the schemas are texts and the fields of a table have different
    names, a database survives if and only if it has no empty string that is written on its own. -/
theorem survives_iff_named {P Q : Platform} {F : Formats} (lawful : F.Lawful) {db : DB} (built : Built P db)
    (regular : db.Regular F) (readonly : Bool) : db.Survives Q F readonly ↔ db.Named := by
  have formed := built.formed
  constructor
  · rintro ⟨file, loaded, saved, -⟩
    rw [← isSome_save lawful formed, saved]
    rfl
  · intro named
    obtain ⟨file, saved⟩ := isSome_iff_exists.mp ((isSome_save lawful formed).mpr named)
    obtain ⟨loaded, reads, sound, fresh, alike⟩ := reads_file lawful formed regular empty
    refine ⟨file, loaded, saved, ?_, fun parse query offset limit => ?_⟩
    · have read := reads file saved []
      rw [append_nil] at read
      rw [load, read]
    · exact select_like formed.sound sound alike formed.fresh fresh query offset limit

lemma table_sampleDB (value name : Text) : (sampleDB value).table name =
    if [116] = name then some ⟨savedSchema, {0}, [([97], ⟨sampleField [97] .set, .set [(value, {0})]⟩)]⟩ else none := by
  show bind (if [116] = name then some 0 else none) (sampleDB value).objects = _
  split_ifs
  · rfl
  · rfl

theorem empty_value_not_saved : Built samplePlatform (sampleDB []) ∧
    ∀ F : Formats, F.Lawful → ∀ readonly, (sampleDB []).save samplePlatform F readonly = none := by
  refine ⟨built_sampleDB [], fun F lawful readonly => ?_⟩
  rw [← not_isSome_iff_eq_none, isSome_save lawful (built_sampleDB []).formed]
  intro named
  have there : (sampleDB []).table [116] = some ⟨savedSchema, {0}, [([97], ⟨sampleField [97] .set, .set [([], {0})]⟩)]⟩ :=
    (table_sampleDB [] [116]).trans (if_pos rfl)
  exact (named.tables _ _ there).2 [97] _ rfl mem_cons_self

deriving instance Countable for IndexType

deriving instance Countable for FieldMeta

deriving instance Countable for TableSchema

deriving instance Countable for DBHeader

def pairBytes (n : Nat) (s : Bitmap) : Bytes :=
  (List.range n).map fun i => (if ofNat (2 * i) ∈ s then 1 else 0) + (if ofNat (2 * i + 1) ∈ s then 2 else 0)

lemma pairBytes_injective {n : Nat} (enough : 2 ^ 32 ≤ 2 * n) (s s' : Bitmap) (same : pairBytes n s = pairBytes n s') : s = s' := by
  have byte : ∀ i < n, (ofNat (2 * i) ∈ s ↔ ofNat (2 * i) ∈ s') ∧
      (ofNat (2 * i + 1) ∈ s ↔ ofNat (2 * i + 1) ∈ s') := by
    intro i lt
    have here := map_eq_map_iff.mp same i (mem_range.mpr lt)
    split_ifs at here <;> simp_all
  ext id
  have small := id.toNat_lt
  obtain ⟨i, even | odd⟩ := Nat.even_or_odd' id.toNat
  · have := (byte i (by omega)).1
    rwa [← even, UInt32.ofNat_toNat] at this
  · have := (byte i (by omega)).2
    rwa [← odd, UInt32.ofNat_toNat] at this

lemma exists_bitmapCodec : ∃ c : Codec Bitmap, ∀ s, c.Faithful s ∧ c.encode s ≠ [] ∧ (c.encode s).length < 2 ^ 32 := by
  obtain ⟨n, enough, fits⟩ : ∃ n, 2 ^ 32 ≤ 2 * n ∧ n < 2 ^ 32 := ⟨2 ^ 31, by decide, by decide⟩
  have length : ∀ s, (pairBytes n s).length = n := fun s => by rw [pairBytes, length_map, length_range]
  refine ⟨.ofEncode (pairBytes n), fun s => ⟨faithful_ofEncode (pairBytes_injective enough) s, fun none => ?_, ?_⟩⟩
  · have zero : n = 0 := (length s).symm.trans (congrArg List.length none)
    omega
  · exact (length s).trans_lt fits

lemma exists_lawful (sample : FieldMeta) : ∃ F : Formats, F.Lawful ∧ (F.schema.encode savedSchema).length < 2 ^ 32 ∧
    (F.info.encode sample).length < 2 ^ 32 := by
  obtain ⟨bitmap, good⟩ := exists_bitmapCodec
  obtain ⟨info, faithful, empty, short⟩ := exists_short (⟨[], .unknown, 0, 0, 0, 0⟩ : FieldMeta) sample
  obtain ⟨schema, faithful', empty', short'⟩ := exists_short (⟨[], [], [], false⟩ : TableSchema) savedSchema
  obtain ⟨header, faithful'', empty'', short''⟩ := exists_short (⟨0, false, false, []⟩ : DBHeader) ⟨1, false, true, []⟩
  refine ⟨⟨fun _ => bitmap, info, schema, header⟩, ?_, short', short⟩
  exact {
    bitmap := fun _ s => (good s).1
    bitmap_ne := fun _ s => (good s).2.1
    bitmap_lt := fun _ s => (good s).2.2
    info := fun info _ => faithful info
    info_ne := fun info known none => known (congrArg FieldMeta.indexType ((empty info).mp none))
    schema := fun schema _ => faithful' schema
    schema_eq_nil := empty'
    header := fun header _ => faithful'' header
    header_ne := fun header version none => version (congrArg DBHeader.version ((empty'' header).mp none))
    header_lt := short'' }

theorem survives_iff_named_sample : ∃ F : Formats, F.Lawful ∧ Built samplePlatform (sampleDB [120]) ∧
    (sampleDB [120]).Survives samplePlatform F true := by
  obtain ⟨F, lawful, short, short'⟩ := exists_lawful (sampleField [97] .set)
  -- every table and every field of the database is the one of the sample
  have only : ∀ {name t}, (sampleDB [120]).table name = some t →
      t.schema = savedSchema ∧ ∀ field f, get field t.fields = some f → f.index = .set [([120], {0})] := by
    intro name t found
    rw [table_sampleDB] at found
    split_ifs at found
    cases found
    refine ⟨rfl, fun field f there => ?_⟩
    rw [Lib.Assoc.get] at there
    split_ifs at there
    · cases there
      rfl
    · cases there
  have proper : savedSchema.Proper := by
    refine ⟨⟨"t", rfl⟩, ⟨"i", rfl⟩, fun info member => ?_⟩
    rw [mem_singleton.mp member]
    exact ⟨⟨"a", rfl⟩, by decide, by decide⟩
  have regular : (sampleDB [120]).Regular F := by
    refine ⟨by decide, by decide, fun e member => ?_, fun name t found => ?_⟩
    · rw [mem_singleton.mp member]
      decide
    · obtain ⟨schema, fields⟩ := only found
      refine ⟨schema ▸ nodup_singleton _, schema ▸ proper, schema ▸ short, fun info member => ?_, fun field f there => ?_⟩
      · rw [schema] at member
        rw [mem_singleton.mp member]
        exact short'
      · rw [fields field f there]
        refine ⟨by decide, by decide, fun bitmaps none => ?_⟩
        cases none
  have named : (sampleDB [120]).Named := by
    refine ⟨by decide, fun name t found => ?_⟩
    obtain ⟨schema, fields⟩ := only found
    refine ⟨fun empty => ?_, fun field f there => ?_⟩
    · rw [schema] at empty
      cases empty
    · rw [fields field f there]
      decide
  exact ⟨F, lawful, built_sampleDB [120], (survives_iff_named lawful (built_sampleDB [120]) regular true).mpr named⟩

end Myctk.Robims
