import Myctk.Robims.Query
import Myctk.Robims.FileSpec

/-! The database (`robims/robims_db_impl.cpp`): tables by name, the mapping of ids, and the cache of queries. -/

namespace Myctk.Robims
open Lib.Assoc Lib Lib.Stream Table

/-- The tables that are alive, the map from their names, the ids, and the queries that were parsed. -/
structure DB where
  objects : Nat → Option Table
  next : Nat
  tables : List (Text × Nat)
  idMapping : IDMapping
  queryCache : List (Text × Operand)
  /-- Names with a table that replaced another one: the key in the map is a `string_view` into the first one, which is gone. -/
  stale : List Text
  /-- The memory of such keys has been given to something else. -/
  reused : Bool

structure SelectResult where
  total : Nat
  ids : List Text
  deriving DecidableEq

namespace DB

def empty : DB := ⟨fun _ => none, 0, [], .empty, [], [], false⟩

variable (db : DB)

def getTable (name : Text) : Option Nat := get name db.tables

/-- `tables.find`, which compares the name with the bytes that the keys point to. -/
def findTable (name : Text) : Option Nat := if db.reused && db.stale.contains name then none else db.getTable name

def table (name : Text) : Option Table := (db.getTable name).bind db.objects

def store (name : Text) (t : Table) : DB :=
  { db with
    objects := fun n => if n = db.next then some t else if db.getTable name = some n then none else db.objects n
    next := db.next + 1
    tables := alter name (fun _ => db.next) db.tables
    stale := if (db.getTable name).isSome then name :: db.stale else db.stale }

def createTable (schema : TableSchema) : DB × Int :=
  match init schema with
  | none => (db, -1)
  | some t => (db.store schema.name t, 0)

variable (P : Platform)

def onDocument (name : Text) (id : Option Text) (change : Table → UInt32 → Table × Int) : DB × Int :=
  match db.findTable name with
  | none => (db, -1)
  | some n =>
    match db.objects n, id with
    | some t, some id =>
      match db.idMapping.getLocalID id (!t.schema.disableLocalIdCreation) with
      | none => (db, -1)
      | some (localId, idMapping) =>
        let (t, rc) := change t localId
        ({ db with idMapping, objects := Function.update db.objects n (some t) }, rc)
    | _, _ => (db, -1)

def put (name : Text) (id : Option Text) (doc : Doc) : DB × Int := db.onDocument name id fun t localId => t.put P localId doc

def remove (name : Text) (id : Option Text) : DB × Int := db.onDocument name id fun t localId => t.remove P localId

/-- `GetTable` of the database and `GetField` of a table. -/
def lookup : Lookup where
  getTable := db.findTable
  getField n name := (db.objects n).bind fun t => (get name t.fields).map fun _ => ⟨n, name⟩

def deref (f : FieldRef) : Option (Bitmap × Index) := do
  let t ← db.objects f.table
  let field ← get f.field t.fields
  return (t.idBitmap, field.index)

def compile (parse : Text → Option Operand) (query : Text) : Option Operand := do
  let e ← parse query
  (e.init db.lookup).toOption

def cacheSize : Nat := 1024

def prepare (parse : Text → Option Operand) (query : Text) : Option (Operand × DB) :=
  match get query db.queryCache with
  | some e => some (e, { db with queryCache := (query, e) :: db.queryCache.filter fun entry => entry.1 ≠ query })
  | none => (db.compile parse query).map fun e => (e, { db with queryCache := ((query, e) :: db.queryCache).take cacheSize })

def localIds (ids : Bitmap) (offset limit : Nat) : List UInt32 :=
  let page := (((ids.image UInt32.toNat).sort (· ≤ ·)).map UInt32.ofNat).drop offset |>.take limit
  page ++ List.replicate (limit - page.length) 0

def realIds (ids : Bitmap) (offset : Nat) : Nat → List UInt32 → List Text
  | _, [] => []
  | i, localId :: rest =>
    if localId = 0 ∧ (0 < i ∨ 0 < offset ∨ 0 ∉ ids) then []
    else (db.idMapping.getID localId).getD [] :: realIds ids offset (i + 1) rest

def answer (e : Operand) (offset limit : Int) : Option (Int × SelectResult) :=
  let limit := if limit ≤ 0 then 100 else limit.toNat
  (e.eval (setMachine db.deref)).map fun
    | .bitmap ids => (0, ⟨ids.card, db.realIds ids offset.toNat 0 (localIds ids offset.toNat limit)⟩)
    | _ => (-1, ⟨0, []⟩)

def select (parse : Text → Option Operand) (query : Text) (offset limit : Int) : Option (DB × Int × SelectResult) :=
  match db.prepare parse query with
  | none => some (db, -1, ⟨0, []⟩)
  | some (e, db') => (db.answer e offset limit).map fun result => (db', result)

variable (F : Formats) (readonly : Bool)

def saveObject (entry : Text × Nat) : Option Bytes := do
  let t ← db.objects entry.2
  t.save P F readonly

def save : Option Bytes :=
  andThen (fileWriteString (F.header.encode ⟨1, false, true, []⟩))
    (andThen (fileWriteUint32 db.tables.length)
      (andThen (each (db.saveObject P F readonly) (iterate P db.tables)) (db.idMapping.save P)))

def loadPartial : List Text → DB → Int → FileReader (DB × Int)
  | [], db, rc => pure (db, rc)
  | name :: names, db, _ =>
    match (db.findTable name).bind db.objects with
    | none => pure (db, -1)
    | some old =>
      match init old.schema with
      | none => pure (db, -1)
      | some _ => fun b =>
        match (load F).run b with
        | (.ok t, rest) => loadPartial names (db.store name t) 0 rest
        | (.error (.code rc), rest) => loadPartial names db rc rest
        | (.error .trap, rest) => (.error .trap, rest)

def loadTables : Nat → DB → FileReader DB
  | 0, db => pure db
  | n + 1, db => do
    let t ← load F
    loadTables n (db.store t.schema.name t)

def cleared : DB := { empty with next := db.next, reused := db.reused }

def loadWhole : FileReader (DB × Int) := do
  let tableSize ← try fileReadUint32 catch _ => pure 0
  let loaded ← loadTables F tableSize db.cleared
  let idMapping ← loaded.idMapping.load
  return ({ loaded with idMapping }, 0)

def loadFile : FileReader (DB × Int) := do
  let header ← parseFrom F.header (← fileReadString)
  if header.wholeDb then db.loadWhole F else loadPartial F header.partialTables db 0

def load (file : Bytes) : Option (DB × Int) :=
  match (db.loadFile F).run file with
  | (.ok result, _) => some result
  | (.error (.code rc), _) => some (db, rc)
  | (.error .trap, _) => none

end DB

/-! What a database keeps while tables are created and documents are put. -/

open List Function Prod Index Option

section
variable {P : Platform} {id : UInt32} {info : FieldMeta} {index index' : Index}

lemma typed_build {f : Field} (built : Field.build info = some f) : f.info = info ∧ f.index.Typed info := by
  unfold Field.build at built
  cases kind : info.indexType <;> rw [kind] at built <;> cases built
  case set => exact ⟨rfl, .inl kind, nodup_nil⟩
  case mutex => exact ⟨rfl, .inr kind, nodup_nil⟩
  case bool => exact ⟨rfl, kind, nodup_nil⟩
  case weightSet => exact ⟨rfl, kind, nodup_nil⟩
  case int => exact ⟨rfl, ⟨kind, .refl _⟩, nodup_nil⟩
  case float => exact ⟨rfl, ⟨kind, .refl _⟩, nodup_nil⟩

lemma nodup_putStrings {xs : List Json} {bitmaps : List (Text × Bitmap)} (nodup : (bitmaps.map fst).Nodup) :
    ((putStrings id xs bitmaps).1.map fst).Nodup := by
  induction xs generalizing bitmaps with
  | nil => exact nodup
  | cons x xs ih =>
    cases x with
    | str s => exact ih (nodup_alter nodup _)
    | _ => exact nodup

lemma nodup_putWeights {topkLimit : Int} {members : List (Text × Json)} {bitmaps : List (Text × WeightBitmap)}
    (nodup : (bitmaps.map fst).Nodup) : ((putWeights topkLimit id members bitmaps).1.map fst).Nodup := by
  induction members generalizing bitmaps with
  | nil => exact nodup
  | cons entry members ih =>
    obtain ⟨key, value⟩ := entry
    cases value with
    | num int weight => exact ih (nodup_alter nodup _)
    | _ => exact nodup

lemma nodup_removeWeights {names : List Text} {bitmaps : List (Text × WeightBitmap)} (nodup : (bitmaps.map fst).Nodup) :
    ((removeWeights id names bitmaps).map fst).Nodup := by
  induction names generalizing bitmaps with
  | nil => exact nodup
  | cons name names ih =>
    rw [removeWeights]
    split
    · exact nodup
    · exact ih (nodup_alter nodup _)

lemma Field.PutStep.typed (step : PutStep P id info index index') (typed : index.Typed info) : index'.Typed info := by
  obtain ⟨kind, nodup⟩ := typed
  cases step with
  | same => exact ⟨kind, nodup⟩
  | bool bitmap v => exact ⟨kind, nodup⟩
  | set bitmaps xs =>
    refine ⟨kind, nodup_putStrings ?_⟩
    rw [removeNames, map_fst_mapValues]
    exact nodup
  | mutex bitmaps s =>
    refine ⟨kind, nodup_alter ?_ _⟩
    rw [removeNames, map_fst_mapValues]
    exact nodup
  | weightSet bitmaps members => exact ⟨kind, nodup_putWeights (nodup_removeWeights nodup)⟩
  | int bsi v => exact ⟨⟨kind.1, kind.2.trans (bsi.shaped_doPut _ _)⟩, nodup⟩
  | float bsi v => exact ⟨⟨kind.1, kind.2.trans (bsi.shaped_doPut _ _)⟩, nodup⟩

end

namespace Table

variable {P : Platform} {t t' : Table} {schema : TableSchema} {id : UInt32} {doc : Doc}

lemma formed_init (created : init schema = some t) : t.schema = schema ∧ t.Formed := by
  -- the fields of the part of the schema that was read
  have formed := init_induction (motive := fun done fields =>
    Formed ⟨⟨schema.name, schema.idField, done, schema.disableLocalIdCreation⟩, ∅, fields⟩) (fun done before info f here made => ?_)
    ⟨fun _ _ none => (nomatch none), fun _ none => (nomatch none)⟩ created
  · obtain ⟨rfl, -, all⟩ := formed
    exact ⟨rfl, all.field, all.complete⟩
  · obtain ⟨rfl, typed⟩ := typed_build made
    refine ⟨fun name g found => ?_, fun info member => ?_⟩
    · rw [get_alter] at found
      split at found
      case isTrue same =>
        cases found
        exact ⟨mem_append_right _ mem_cons_self, same, typed⟩
      case isFalse =>
        obtain ⟨member, rest⟩ := here.field name g found
        exact ⟨mem_append_left _ member, rest⟩
    · show (get info.name (alter f.info.name (fun _ => f) before)).isSome
      rw [get_alter]
      split
      case isTrue => rfl
      case isFalse other =>
        rcases mem_append.mp member with old | new
        · exact here.complete info old
        · exact absurd (congrArg FieldMeta.name (mem_singleton.mp new)).symm other

lemma Formed.put (formed : t.Formed) (ok : t.put P id doc = (t', 0)) : t'.schema = t.schema ∧ t'.Formed := by
  obtain ⟨-, schema, fields⟩ := put_spec ok
  refine ⟨schema, fun name f' found => ?_, fun info member => ?_⟩
  · rw [(fields name).1, map_eq_some_iff] at found
    obtain ⟨f, there, rfl⟩ := found
    obtain ⟨member, same, typed⟩ := formed.field name f there
    rw [Field.put_info, schema]
    exact ⟨member, same, (Field.put_step P f id _).typed typed⟩
  · rw [(fields info.name).1, isSome_map]
    rw [schema] at member
    exact formed.complete info member

end Table

namespace DB

variable {P : Platform} {db db' : DB} {name : Text} {t : Table}

/-- The map leads to tables that are alive, different ones for different names, and none has been replaced. -/
structure Sound (db : DB) : Prop where
  kept : db.stale = []
  below : ∀ name n, db.getTable name = some n → n < db.next
  live : ∀ name n, db.getTable name = some n → (db.objects n).isSome
  apart : ∀ a b n, db.getTable a = some n → db.getTable b = some n → a = b

lemma sound_cleared (db : DB) : db.cleared.Sound :=
  ⟨rfl, fun _ _ none => (nomatch none), fun _ _ none => (nomatch none), fun _ _ _ none => (nomatch none)⟩

lemma getTable_of_findTable {n : Nat} (found : db.findTable name = some n) : db.getTable name = some n := by
  rw [findTable] at found
  split at found
  · cases found
  · exact found

lemma getTable_store (db : DB) (name other : Text) (t : Table) :
    (db.store name t).getTable other = if name = other then some db.next else db.getTable other :=
  get_alter _ _

section
variable (sound : db.Sound)
include sound

lemma Sound.findTable (name : Text) : db.findTable name = db.getTable name := by
  rw [DB.findTable, sound.kept, contains_nil, Bool.and_false]
  rfl

lemma Sound.objects_store {other : Text} {n : Nat} (differ : name ≠ other) (there : db.getTable other = some n) :
    (db.store name t).objects n = db.objects n := by
  have old : n ≠ db.next := Nat.ne_of_lt (sound.below other n there)
  have kept : db.getTable name ≠ some n := fun same => differ (sound.apart name other n same there)
  exact (if_neg old).trans (if_neg kept)

lemma Sound.table_store (name other : Text) (t : Table) :
    (db.store name t).table other = if name = other then some t else db.table other := by
  rw [table, getTable_store]
  split
  case isTrue => exact if_pos rfl
  case isFalse differ =>
    rw [table]
    cases there : db.getTable other with
    | none => rfl
    | some n => exact sound.objects_store differ there

lemma Sound.store (new : db.getTable name = none) (t : Table) : (db.store name t).Sound := by
  refine ⟨?_, fun other n there => ?_, fun other n there => ?_, fun a b n first second => ?_⟩
  · show (if (db.getTable name).isSome then _ else db.stale) = _
    rw [new]
    exact sound.kept
  · rw [getTable_store] at there
    split at there
    · cases there
      exact Nat.lt_succ_self _
    · exact Nat.lt_succ_of_lt (sound.below other n there)
  · rw [getTable_store] at there
    split at there
    case isTrue =>
      cases there
      exact isSome_iff_exists.mpr ⟨t, if_pos rfl⟩
    case isFalse differ =>
      rw [sound.objects_store differ there]
      exact sound.live other n there
  · rw [getTable_store] at first second
    split at first <;> split at second
    · simp_all
    · cases first
      exact absurd (sound.below b _ second) (lt_irrefl _)
    · cases second
      exact absurd (sound.below a _ first) (lt_irrefl _)
    · exact sound.apart a b n first second

lemma Sound.update (n : Nat) (t : Table) (idMapping : IDMapping) :
    Sound { db with idMapping, objects := update db.objects n (some t) } := by
  refine ⟨sound.kept, sound.below, fun name k there => ?_, sound.apart⟩
  show (Function.update db.objects n (some t) k).isSome
  rcases eq_or_ne k n with rfl | other
  · rw [update_self]
    rfl
  · rw [update_of_ne other]
    exact sound.live name k there

lemma Sound.table_update {n : Nat} (there : db.getTable name = some n) (t : Table) (idMapping : IDMapping)
    (other : Text) : table { db with idMapping, objects := Function.update db.objects n (some t) } other =
      if name = other then some t else db.table other := by
  show (db.getTable other).bind (Function.update db.objects n (some t)) = _
  split
  case isTrue same =>
    rw [← same, there]
    exact update_self ..
  case isFalse differ =>
    rw [table]
    cases found : db.getTable other with
    | none => rfl
    | some k =>
      have apart : k ≠ n := fun same => differ (sound.apart name other n there (same ▸ found))
      exact update_of_ne apart _ _

end

lemma onDocument_cases {id : Option Text} {change : Table → UInt32 → Table × Int} {rc : Int}
    (step : db.onDocument name id change = (db', rc)) : (db' = db ∧ rc = -1) ∨
      ∃ n t realId localId idMapping, db.getTable name = some n ∧ db.objects n = some t ∧ id = some realId ∧
        db.idMapping.getLocalID realId (!t.schema.disableLocalIdCreation) = some (localId, idMapping) ∧ rc = (change t localId).2 ∧
        db' = { db with idMapping, objects := update db.objects n (some (change t localId).1) } := by
  unfold onDocument at step
  split at step
  case h_1 =>
    cases step
    exact .inl ⟨rfl, rfl⟩
  case h_2 n there =>
    split at step
    case h_2 =>
      cases step
      exact .inl ⟨rfl, rfl⟩
    case h_1 t realId object =>
      split at step
      case h_1 =>
        cases step
        exact .inl ⟨rfl, rfl⟩
      case h_2 localId idMapping found =>
        cases step
        exact .inr ⟨n, t, realId, localId, idMapping, getTable_of_findTable there, object, rfl, found, rfl, rfl⟩

lemma realIds_congr (db db' : DB) (same : ∀ localId, db'.idMapping.getID localId = db.idMapping.getID localId)
    (ids : Bitmap) (offset : Nat)
    (i : Nat) (page : List UInt32) : db'.realIds ids offset i page = db.realIds ids offset i page := by
  induction page generalizing i with
  | nil => rfl
  | cons localId page ih => rw [realIds, realIds, ih, same]

/-- The databases that `CreateTable` of new tables and puts that succeed can make. -/
inductive Built (P : Platform) : DB → Prop
  | empty : Built P .empty
  | create {db db' : DB} (schema : TableSchema) (built : Built P db) (new : db.getTable schema.name = none)
      (ok : db.createTable schema = (db', 0)) : Built P db'
  | put {db db' : DB} (name : Text) (id : Option Text) (doc : Doc) (built : Built P db) (ok : db.put P name id doc = (db', 0)) :
      Built P db'

structure Formed (db : DB) : Prop where
  sound : db.Sound
  nodup : (db.tables.map fst).Nodup
  tables : ∀ name t, db.table name = some t → t.schema.name = name ∧ t.Formed
  idMapping : db.idMapping.Sound
  fresh : db.queryCache = []

lemma formed_cleared (db : DB) : db.cleared.Formed :=
  ⟨db.sound_cleared, nodup_nil, fun _ _ none => (nomatch none), IDMapping.sound_empty, rfl⟩

lemma Built.formed (built : Built P db) : db.Formed := by
  induction built with
  | empty => exact formed_cleared DB.empty
  | @create db db' schema _ new ok formed =>
    rw [createTable] at ok
    split at ok
    case h_1 => cases ok
    case h_2 t created =>
      cases ok
      obtain ⟨named, good⟩ := Table.formed_init created
      refine ⟨formed.sound.store new _, nodup_alter formed.nodup _, fun name t' found => ?_, formed.idMapping, formed.fresh⟩
      rw [formed.sound.table_store] at found
      split at found
      case isTrue same =>
        cases found
        exact ⟨(congrArg TableSchema.name named).trans same, good⟩
      case isFalse => exact formed.tables name t' found
  | @put db db' name id doc _ ok formed =>
    rcases onDocument_cases ok with ⟨-, failed⟩ | ⟨n, t, realId, localId, idMapping, there, object, -, found, rc, rfl⟩
    · cases failed
    · have here : db.table name = some t := by rw [table, there]; exact object
      obtain ⟨named, good⟩ := formed.tables name t here
      obtain ⟨schema, good'⟩ := good.put (Prod.ext rfl rc.symm)
      refine ⟨formed.sound.update n _ _, formed.nodup, fun other t' after => ?_, formed.idMapping.getLocalID found, formed.fresh⟩
      rw [formed.sound.table_update there] at after
      split at after
      case isTrue same =>
        cases after
        exact ⟨(congrArg TableSchema.name schema).trans (named.trans same), good'⟩
      case isFalse => exact formed.tables other t' after

end DB

def savedSchema : TableSchema := ⟨[116], [105], [sampleField [97] .set], false⟩

def sampleDB (value : Text) : DB :=
  ((DB.empty.createTable savedSchema).1.put samplePlatform [116] (some [49]) [([97], .arr [.str value])]).1

lemma built_sampleDB (value : Text) : DB.Built samplePlatform (sampleDB value) :=
  .put [116] (some [49]) [([97], .arr [.str value])] (.create savedSchema .empty rfl rfl) rfl

end Myctk.Robims
