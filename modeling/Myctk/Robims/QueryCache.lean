import Myctk.Lib.Outcome
import Myctk.Robims.DatabaseRun

/-! The cache of queries: what `Select` answers, with a query of the cache and with one that is parsed anew. -/

namespace Myctk.Robims

section
open Lib List Option Prod Function Operand Stream
open Lib.Assoc

mutual

def Operand.tables : Operand → List Text
  | .var [table, _] _ => [table]
  | .unary _ operand => operand.tables
  | .cond lhs rhsTrue rhsFalse => lhs.tables ++ rhsTrue.tables ++ rhsFalse.tables
  | .expression first rest => first.tables ++ rest.tables
  | _ => []

def Operations.tables : Operations → List Text
  | .nil => []
  | .cons _ operand rest => operand.tables ++ rest.tables

end

def Lookup.Agree (L L' : Lookup) (table : Text) : Prop :=
  L'.getTable table = L.getTable table ∧ ∀ n, L.getTable table = some n → L'.getField n = L.getField n

section
variable {L L' : Lookup}

mutual

theorem Operand.init_congr (e : Operand) (agree : ∀ table ∈ e.tables, L.Agree L' table) : e.init L' = e.init L := by
  match e with
  | .var [table, field] _ =>
    obtain ⟨same, fields⟩ := agree table mem_cons_self
    rw [init, init, same]
    cases found : L.getTable table with
    | none => rfl
    | some n =>
      dsimp only
      rw [fields n found]
  | .var [] _ | .var [_] _ | .var (_ :: _ :: _ :: _) _ => rfl
  | .unary op operand =>
    rw [init, init, operand.init_congr agree]
  | .cond lhs rhsTrue rhsFalse =>
    rw [tables] at agree
    rw [init, init,
      lhs.init_congr fun table member => agree table (mem_append_left _ (mem_append_left _ member)),
      rhsTrue.init_congr fun table member => agree table (mem_append_left _ (mem_append_right _ member)),
      rhsFalse.init_congr fun table member => agree table (mem_append_right _ member)]
  | .expression first rest =>
    rw [tables] at agree
    rw [init, init, first.init_congr fun table member => agree table (mem_append_left _ member),
      rest.init_congr fun table member => agree table (mem_append_right _ member)]
  | .nil | .int _ | .double _ | .bool _ | .str _ | .dynamicVar _ | .func _ _ => rfl

theorem Operations.init_congr (rest : Operations) (agree : ∀ table ∈ rest.tables, L.Agree L' table) : rest.init L' = rest.init L := by
  match rest with
  | .nil => rfl
  | .cons op operand rest =>
    rw [Operations.tables] at agree
    rw [Operations.init, Operations.init, operand.init_congr fun table member => agree table (mem_append_left _ member),
      rest.init_congr fun table member => agree table (mem_append_right _ member)]

end

def Initialized (L : Lookup) (tables tables' : List Text) : Prop := tables' = tables ∧ ∀ table ∈ tables, (L.getTable table).isSome

lemma Initialized.append {a a' b b' : List Text} (first : Initialized L a a') (second : Initialized L b b') :
    Initialized L (a ++ b) (a' ++ b') :=
  ⟨by rw [first.1, second.1], fun table member => (mem_append.mp member).elim (first.2 table) (second.2 table)⟩

mutual

theorem Operand.initialized (e : Operand) {e' : Operand} (ok : e.init L = .ok e') : Initialized L e.tables e'.tables := by
  match e with
  | .var [table, field] _ =>
    rw [init] at ok
    cases found : L.getTable table with
    | none =>
      rw [found] at ok
      cases ok
    | some n =>
      rw [found] at ok
      cases ok
      refine ⟨rfl, fun other member => ?_⟩
      rw [mem_singleton.mp member, found]
      rfl
  | .var [] _ | .var [_] _ | .var (_ :: _ :: _ :: _) _ => cases ok
  | .unary op operand =>
    rw [init] at ok
    obtain ⟨a, init, same⟩ := ok_of_bind ok
    cases same
    rw [tables, tables]
    exact operand.initialized init
  | .cond lhs rhsTrue rhsFalse =>
    rw [init] at ok
    obtain ⟨a, init, ok⟩ := ok_of_bind ok
    obtain ⟨b, init', ok⟩ := ok_of_bind ok
    obtain ⟨c, init'', same⟩ := ok_of_bind ok
    cases same
    rw [tables, tables]
    exact ((lhs.initialized init).append (rhsTrue.initialized init')).append (rhsFalse.initialized init'')
  | .expression first rest =>
    rw [init] at ok
    obtain ⟨a, init, ok⟩ := ok_of_bind ok
    obtain ⟨b, init', same⟩ := ok_of_bind ok
    cases same
    rw [tables, tables]
    exact (first.initialized init).append (rest.initialized init')
  | .nil | .int _ | .double _ | .bool _ | .str _ | .dynamicVar _ | .func _ _ =>
    cases ok
    exact ⟨rfl, fun _ none => (nomatch none)⟩

theorem Operations.initialized (rest : Operations) {rest' : Operations} (ok : rest.init L = .ok rest') :
    Initialized L rest.tables rest'.tables := by
  match rest with
  | .nil =>
    cases ok
    exact ⟨rfl, fun _ none => (nomatch none)⟩
  | .cons op operand rest =>
    rw [Operations.init] at ok
    obtain ⟨a, init, ok⟩ := ok_of_bind ok
    obtain ⟨b, init', same⟩ := ok_of_bind ok
    cases same
    rw [Operations.tables, Operations.tables]
    exact (operand.initialized init).append (rest.initialized init')

end

end

lemma Table.map_fst_putFields (P : Platform) (id : UInt32) (doc : Doc) (fields : List (Text × Field)) :
    (putFields P id doc fields).1.map fst = fields.map fst := by
  induction fields with
  | nil => rfl
  | cons entry fields ih =>
    obtain ⟨name, f⟩ := entry
    rw [putFields]
    split
    · exact congrArg (name :: ·) ih
    · rfl

def Table.KeepsFields (change : Table → UInt32 → Table × Int) : Prop :=
  ∀ t id, (change t id).1.fields.map fst = t.fields.map fst

lemma Table.keepsFields_put (P : Platform) (doc : Doc) : KeepsFields fun t id => t.put P id doc :=
  fun t id => map_fst_putFields P id doc t.fields

lemma Table.keepsFields_remove (P : Platform) : KeepsFields fun t id => t.remove P id :=
  fun t id => map_fst_mapValues (fun f : Field => f.remove P id) t.fields

namespace DB

variable {F : Formats} {parse : Text → Option Operand} {db db' : DB}

def Coherent (parse : Text → Option Operand) (db : DB) : Prop := ∀ entry ∈ db.queryCache, db.compile parse entry.1 = some entry.2

def Unused (db : DB) (name : Text) : Prop := ∀ entry ∈ db.queryCache, name ∉ entry.2.tables

structure Good (parse : Text → Option Operand) (db : DB) : Prop where
  sound : db.Sound
  coherent : db.Coherent parse

lemma good_cleared (db : DB) : db.cleared.Good parse := ⟨db.sound_cleared, fun _ none => (nomatch none)⟩

lemma compile_congr (same : db'.lookup = db.lookup) (query : Text) : db'.compile parse query = db.compile parse query := by
  rw [compile, compile, same]

variable {n : Nat} {name : Text} {b rest : Bytes} {rc : Int}

lemma lookup_update {t t' : Table} (object : db.objects n = some t)
    (keys : t'.fields.map fst = t.fields.map fst) (idMapping : IDMapping) :
    lookup { db with idMapping, objects := update db.objects n (some t') } = db.lookup := by
  have fields : ∀ k name, (lookup { db with idMapping, objects := update db.objects n (some t') }).getField k name =
      db.lookup.getField k name := by
    intro k name
    show (update db.objects n (some t') k).bind _ = (db.objects k).bind _
    rcases eq_or_ne k n with rfl | other
    · have known : (get name t'.fields).isSome = (get name t.fields).isSome := by
        rw [Bool.eq_iff_iff, isSome_get, isSome_get, keys]
      rw [update_self, object]
      show (get name t'.fields).map _ = (get name t.fields).map _
      generalize get name t.fields = f, get name t'.fields = f' at known ⊢
      cases f with
      | none => rw [isSome_eq_false_iff.mp known |> isNone_iff_eq_none.mp]
      | some f =>
        obtain ⟨g, rfl⟩ := isSome_iff_exists.mp known
        rfl
    · rw [update_of_ne other]
  exact congrArg (Lookup.mk db.findTable) (funext fun k => funext fun name => fields k name)

lemma Good.onDocument (good : db.Good parse) {change : Table → UInt32 → Table × Int} (keeps : Table.KeepsFields change)
    (name : Text) (id : Option Text) : (db.onDocument name id change).1.Good parse := by
  rcases onDocument_cases (eta (db.onDocument name id change)).symm with
    ⟨same, -⟩ | ⟨n, t, realId, localId, idMapping, there, object, -, -, -, same⟩
  · rw [same]
    exact good
  · rw [same]
    refine ⟨good.sound.update n _ _, fun entry member => ?_⟩
    rw [compile_congr (lookup_update object (keeps t localId) idMapping)]
    exact good.coherent entry member

lemma Coherent.parsed (coherent : db.Coherent parse) {entry : Text × Operand} (member : entry ∈ db.queryCache) :
    ∃ e, parse entry.1 = some e ∧ e.init db.lookup = .ok entry.2 := by
  obtain ⟨e, parsed, init⟩ := bind_eq_some_iff.mp (coherent entry member)
  refine ⟨e, parsed, ?_⟩
  cases done : e.init db.lookup with
  | error => rw [done] at init; cases init
  | ok e' => rw [done] at init; cases init; rfl

lemma Coherent.unused (coherent : db.Coherent parse) (absent : db.getTable name = none) : db.Unused name := by
  intro entry member used
  obtain ⟨e, -, init⟩ := coherent.parsed member
  obtain ⟨tables, known⟩ := e.initialized init
  obtain ⟨n, there⟩ := isSome_iff_exists.mp (known name (tables ▸ used))
  rw [getTable_of_findTable there] at absent
  cases absent

lemma Sound.lookup_store (sound : db.Sound) (new : db.getTable name = none) {table : Text} (differ : name ≠ table) (t : Table) :
    db.lookup.Agree (db.store name t).lookup table := by
  have same : (db.store name t).findTable table = db.findTable table := by
    rw [(sound.store new t).findTable, sound.findTable, getTable_store, if_neg differ]
  refine ⟨same, fun n there => funext fun field => ?_⟩
  show ((db.store name t).objects n).bind _ = (db.objects n).bind _
  rw [sound.objects_store differ (getTable_of_findTable there)]

lemma Good.store (good : db.Good parse) (new : db.getTable name = none) (t : Table) : (db.store name t).Good parse := by
  refine ⟨good.sound.store new t, fun entry member => ?_⟩
  have notUsed := good.coherent.unused new entry member
  obtain ⟨e, parsed, init⟩ := good.coherent.parsed member
  obtain ⟨tables, -⟩ := e.initialized init
  rw [compile, parsed]
  show (e.init (db.store name t).lookup).toOption = _
  have agree : ∀ table ∈ e.tables, db.lookup.Agree (db.store name t).lookup table := by
    intro table used
    rw [← tables] at used
    exact good.sound.lookup_store new (fun same => notUsed (by rw [same]; exact used)) t
  rw [e.init_congr agree, init]
  rfl

def freshSelect (parse : Text → Option Operand) (db : DB) (query : Text) (offset limit : Int) : Option (Int × SelectResult) :=
  (select { db with queryCache := [] } parse query offset limit).map snd

lemma Coherent.prepare (coherent : db.Coherent parse) (query : Text) :
    (db.prepare parse query).map fst = db.compile parse query ∧ ∀ e db', db.prepare parse query = some (e, db') →
      db' = { db with queryCache := db'.queryCache } ∧ db'.Coherent parse := by
  rw [DB.prepare]
  cases cached : get query db.queryCache with
  | some e =>
    have known := mem_of_get cached
    have here := coherent _ known
    refine ⟨here.symm, fun e' db' found => ?_⟩
    cases found
    refine ⟨rfl, fun entry member => ?_⟩
    rcases mem_cons.mp member with rfl | old
    · exact here
    · exact coherent entry (mem_of_mem_filter old)
  | none =>
    cases compiled : db.compile parse query with
    | none => exact ⟨rfl, fun _ _ found => (nomatch found)⟩
    | some e =>
      refine ⟨rfl, fun e' db' found => ?_⟩
      cases found
      refine ⟨rfl, fun entry member => ?_⟩
      rcases mem_cons.mp (mem_of_mem_take member) with rfl | old
      · exact compiled
      · exact coherent entry old

lemma Coherent.select_eq (coherent : db.Coherent parse) (query : Text) (offset limit : Int) :
    (db.select parse query offset limit).map snd = db.freshSelect parse query offset limit := by
  have fresh : Coherent parse { db with queryCache := [] } := fun _ none => (nomatch none)
  -- only the query that is found counts
  have answers : ∀ {db : DB}, (db.select parse query offset limit).map snd =
      match (db.prepare parse query).map fst with
      | none => some (-1, ⟨0, []⟩)
      | some e => db.answer e offset limit := by
    intro db
    rw [select]
    cases db.prepare parse query with
    | none => rfl
    | some found =>
      rw [Option.map_map]
      exact map_id'
  have same : ∀ e, answer { db with queryCache := [] } e offset limit = db.answer e offset limit := by
    intro e
    have ids := realIds_congr db { db with queryCache := [] } fun _ => rfl
    rw [answer, answer]
    refine congrArg (fun f => Option.map f _) (funext fun v => ?_)
    cases v with
    | bitmap found => simp only [ids]
    | _ => rfl
  rw [freshSelect, answers, answers, (coherent.prepare query).1, (fresh.prepare query).1]
  simp only [same]
  rfl

lemma Good.select (good : db.Good parse) {query : Text} {offset limit : Int} {result : Int × SelectResult}
    (step : db.select parse query offset limit = some (db', result)) : db'.Good parse := by
  rw [DB.select] at step
  cases found : db.prepare parse query with
  | none =>
    rw [found] at step
    cases step
    exact good
  | some next =>
    obtain ⟨e, next⟩ := next
    rw [found] at step
    obtain ⟨answer, -, same⟩ := map_eq_some_iff.mp step
    cases same
    obtain ⟨same, coherent⟩ := (good.coherent.prepare query).2 e _ found
    exact ⟨same ▸ ⟨good.sound.kept, good.sound.below, good.sound.live, good.sound.apart⟩, coherent⟩

/-- The names of the tables of a file. -/
def tableNames (F : Formats) : Nat → FileReader (List Text)
  | 0 => pure []
  | n + 1 => do
    let t ← Table.load F
    return t.schema.name :: (← tableNames F n)

def wholeNames (F : Formats) : FileReader (List Text) := do
  let tableSize ← try fileReadUint32 catch _ => pure 0
  tableNames F tableSize

lemma loadTables_sound (ok : (loadTables F n db).run b = (.ok db', rest)) : ∃ names, (tableNames F n).run b = (.ok names, rest) ∧
    (db.Sound → names.Nodup → (∀ name ∈ names, db.getTable name = none) → db'.Sound ∧ db'.queryCache = db.queryCache) := by
  induction n generalizing db b with
  | zero =>
    cases ok
    exact ⟨[], rfl, fun sound _ _ => ⟨sound, rfl⟩⟩
  | succ n ih =>
    obtain ⟨t, mid, first, next⟩ := run_bind_eq_ok ok
    obtain ⟨names, read, later⟩ := ih next
    refine ⟨t.schema.name :: names, ?_, fun sound distinct new => ?_⟩
    · rw [tableNames, run_bind first, run_bind read]
      rfl
    · obtain ⟨head, distinct⟩ := nodup_cons.mp distinct
      refine later (sound.store (new _ mem_cons_self) t) distinct fun name member => ?_
      rw [getTable_store, if_neg (ne_of_mem_of_not_mem member head).symm]
      exact new name (mem_cons_of_mem _ member)

lemma good_loadWhole (ok : (db.loadWhole F).run b = (.ok (db', rc), rest))
    (distinct : ∀ names rest, (wholeNames F).run b = (.ok names, rest) → names.Nodup) : db'.Good parse := by
  obtain ⟨n, mid, count, ok⟩ := run_bind_eq_ok ok
  obtain ⟨loaded, mid', tables, ok⟩ := run_bind_eq_ok ok
  obtain ⟨idMapping, mid'', -, same⟩ := run_bind_eq_ok ok
  obtain ⟨names, read, later⟩ := loadTables_sound tables
  obtain ⟨sound, cache⟩ := later db.sound_cleared (distinct names mid' (by rw [wholeNames, run_bind count, read])) fun _ _ => rfl
  cases same
  refine ⟨⟨sound.kept, sound.below, sound.live, sound.apart⟩, fun entry member => ?_⟩
  rw [cache] at member
  cases member

lemma loadPartial_new {names : List Text} {rc' : Int} (new : ∀ name ∈ names, db.getTable name = none)
    (ok : (DB.loadPartial F names db rc).run b = (.ok (db', rc'), rest)) : db' = db := by
  cases names with
  | nil =>
    cases ok
    rfl
  | cons name names =>
    have absent : db.findTable name = none := by
      rw [findTable, new name mem_cons_self, ite_self]
    rw [DB.loadPartial, absent] at ok
    cases ok
    rfl

end DB

inductive DBOp where
  | createTable (schema : TableSchema)
  | put (name : Text) (id : Option Text) (doc : Doc)
  | remove (name : Text) (id : Option Text)
  | load (file : Bytes)
  | select (query : Text) (offset limit : Int)

namespace DB

variable {P : Platform} {F : Formats} {parse : Text → Option Operand} {db db' : DB}

def apply (P : Platform) (F : Formats) (parse : Text → Option Operand) (db : DB) : DBOp → Option DB
  | .createTable schema => some (db.createTable schema).1
  | .put name id doc => some (db.put P name id doc).1
  | .remove name id => some (db.remove P name id).1
  | .load file => (db.load F file).map fst
  | .select query offset limit => (db.select parse query offset limit).map fst

/-- Runs whose calls all meet a condition. In between, the memory of old keys can be given to something else. -/
inductive Run (P : Platform) (F : Formats) (parse : Text → Option Operand) (cond : DB → DBOp → Prop) : DB → Prop
  | empty : Run P F parse cond .empty
  | step {db db' : DB} (op : DBOp) (run : Run P F parse cond db) (meets : cond db op) (applied : db.apply P F parse op = some db') :
      Run P F parse cond db'
  | reuse {db : DB} (run : Run P F parse cond db) : Run P F parse cond { db with reused := true }

/-- No table is replaced: a table is created under a new name, a file of single tables has none of the tables that are there, and
    a whole file has no two tables of one name. -/
def ReplacesNone (F : Formats) (db : DB) : DBOp → Prop
  | .createTable schema => db.getTable schema.name = none
  | .load file => ∀ header rest, (do parseFrom F.header (← fileReadString) : FileReader DBHeader).run file = (.ok header, rest) →
      if header.wholeDb then ∀ names rest', (wholeNames F).run rest = (.ok names, rest') → names.Nodup
      else ∀ name ∈ header.partialTables, db.getTable name = none
  | _ => True

lemma Good.createTable (good : db.Good parse) {schema : TableSchema} (new : db.getTable schema.name = none) :
    (db.createTable schema).1.Good parse := by
  rw [DB.createTable]
  split
  · exact good
  · exact good.store new _

lemma Good.load (good : db.Good parse) {file : Bytes} {rc : Int} (keeps : db.ReplacesNone F (.load file))
    (loaded : db.load F file = some (db', rc)) : db'.Good parse := by
  rw [DB.load] at loaded
  split at loaded
  case h_2 =>
    cases loaded
    exact good
  case h_3 => cases loaded
  case h_1 result rest read =>
    cases loaded
    obtain ⟨text, mid, first, second⟩ := run_bind_eq_ok read
    obtain ⟨header, mid', parsed, next⟩ := run_bind_eq_ok second
    have found := keeps header mid' (by rw [run_bind first]; exact parsed)
    split at next
    case isTrue whole => exact good_loadWhole next (by rwa [if_pos whole] at found)
    case isFalse part =>
      rw [if_neg part] at found
      rw [loadPartial_new found next]
      exact good

lemma Good.apply (good : db.Good parse) {op : DBOp} (keeps : db.ReplacesNone F op) (applied : db.apply P F parse op = some db') :
    db'.Good parse := by
  cases op with
  | createTable schema =>
    cases applied
    exact good.createTable keeps
  | put name id doc =>
    cases applied
    exact good.onDocument (Table.keepsFields_put P doc) name id
  | remove name id =>
    cases applied
    exact good.onDocument (Table.keepsFields_remove P) name id
  | load file =>
    obtain ⟨result, loaded, rfl⟩ := map_eq_some_iff.mp applied
    exact good.load keeps loaded
  | select query offset limit =>
    obtain ⟨result, selected, rfl⟩ := map_eq_some_iff.mp applied
    exact good.select selected

lemma Good.reuse (good : db.Good parse) : Good parse { db with reused := true } := by
  have sound : Sound { db with reused := true } := ⟨good.sound.kept, good.sound.below, good.sound.live, good.sound.apart⟩
  have same : lookup { db with reused := true } = db.lookup :=
    congrArg (Lookup.mk · _) (funext fun name => (sound.findTable name).trans (good.sound.findTable name).symm)
  exact ⟨sound, fun entry member => (compile_congr same entry.1).trans (good.coherent entry member)⟩

lemma Run.good (run : Run P F parse (ReplacesNone F) db) : db.Good parse := by
  induction run with
  | empty => exact good_cleared DB.empty
  | step op _ meets applied good => exact good.apply meets applied
  | reuse _ good => exact good.reuse

end DB

/-- In every run that replaces no table, a query answers as one that is parsed anew. -/
theorem select_eq_freshSelect {P : Platform} {F : Formats} {parse : Text → Option Operand} {db : DB}
    (run : DB.Run P F parse (DB.ReplacesNone F) db) (query : Text) (offset limit : Int) :
    (db.select parse query offset limit).map snd = db.freshSelect parse query offset limit :=
  run.good.coherent.select_eq query offset limit

/-- One query, `t.a == "x"`. -/
def sampleParse (query : Text) : Option Operand :=
  if query = [113] then some (.expression (.var [[116], [97]] none) (.cons .equal (.str [120]) .nil)) else none

def sampleFormats : Formats :=
  ⟨fun _ => ⟨fun _ => [], fun _ => none⟩, ⟨fun _ => [], fun _ => none⟩, ⟨fun _ => [], fun _ => none⟩, ⟨fun _ => [], fun _ => none⟩⟩

def queriedDB : DB :=
  { sampleDB [120] with
    queryCache := [([113], .expression (.var [[116], [97]] (some ⟨0, [97]⟩)) (.cons .equal (.str [120]) .nil))] }

lemma run_queriedDB (cond : DB → DBOp → Prop) (create : cond .empty (.createTable savedSchema))
    (put : cond (DB.empty.createTable savedSchema).1 (.put [116] (some [49]) [([97], .arr [.str [120]])]))
    (select : cond (sampleDB [120]) (.select [113] 0 0)) : DB.Run samplePlatform sampleFormats sampleParse cond queriedDB :=
  .step _ (.step _ (.step _ .empty create rfl) put rfl) select rfl

theorem replaced_table_selected : ∃ db, DB.Run samplePlatform sampleFormats sampleParse (fun _ _ => True) db ∧
    db.select sampleParse [113] 0 0 = none ∧ db.freshSelect sampleParse [113] 0 0 = some (-1, ⟨0, []⟩) :=
  ⟨_, .step (.createTable savedSchema) (run_queriedDB _ trivial trivial trivial) trivial rfl, rfl, rfl⟩

theorem select_eq_freshSelect_sample : DB.Run samplePlatform sampleFormats sampleParse (DB.ReplacesNone sampleFormats) queriedDB ∧
    (queriedDB.select sampleParse [113] 0 0).map snd = queriedDB.freshSelect sampleParse [113] 0 0 := by
  have run : DB.Run samplePlatform sampleFormats sampleParse (DB.ReplacesNone sampleFormats) queriedDB := by
    exact run_queriedDB _ rfl trivial trivial
  exact ⟨run, select_eq_freshSelect run [113] 0 0⟩

end

/-! Pages of an answer. `Select` asks the library for the local ids of a page, which it writes over zeros, and takes the first
    zero for the end, unless it is the id of rank zero. -/

section
open Finset List Nat
open Lib.Assoc

def ranked (ids : Bitmap) : List UInt32 := ((ids.image UInt32.toNat).sort (· ≤ ·)).map UInt32.ofNat

section
variable {ids : Bitmap} {offset : Nat}

lemma map_toNat_ranked (ids : Bitmap) : (ranked ids).map UInt32.toNat = (ids.image UInt32.toNat).sort (· ≤ ·) := by
  rw [ranked, List.map_map]
  refine (List.map_congr_left fun n member => ?_).trans (List.map_id _)
  obtain ⟨i, -, rfl⟩ := mem_image.mp ((mem_sort _).mp member)
  exact congrArg UInt32.toNat UInt32.ofNat_toNat

lemma mem_ranked {i : UInt32} : i ∈ ranked ids ↔ i ∈ ids := by
  rw [← mem_map_of_injective (fun _ _ => UInt32.toNat_inj.mp), map_toNat_ranked, mem_sort, mem_image]
  constructor
  · rintro ⟨j, member, same⟩
    rwa [← UInt32.toNat_inj.mp same]
  · exact fun member => ⟨i, member, rfl⟩

lemma ascending_ranked (ids : Bitmap) : (ranked ids).Pairwise fun i j => i.toNat < j.toNat := by
  rw [← pairwise_map, map_toNat_ranked]
  exact (sortedLT_sort _).pairwise

lemma ranked_of_zero_mem (member : 0 ∈ ids) : ∃ rest, ranked ids = 0 :: rest ∧ 0 ∉ rest := by
  have there := mem_ranked.mpr member
  have ascending := ascending_ranked ids
  generalize ranked ids = order at there ascending ⊢
  cases order with
  | nil => cases there
  | cons first rest =>
    obtain ⟨least, -⟩ := pairwise_cons.mp ascending
    have behind : 0 ∉ rest := fun later => absurd (least 0 later) (not_lt_zero _)
    rcases mem_cons.mp there with rfl | later
    · exact ⟨rest, rfl, behind⟩
    · exact absurd later behind

lemma zero_notMem_drop (later : 0 < offset ∨ 0 ∉ ids) : 0 ∉ (ranked ids).drop offset := by
  intro member
  have there := mem_ranked.mp (mem_of_mem_drop member)
  obtain ⟨rest, order, behind⟩ := ranked_of_zero_mem there
  rcases later with later | absent
  · obtain ⟨rank, rfl⟩ := exists_eq_succ_of_ne_zero (ne_of_gt later)
    rw [order, drop_succ_cons] at member
    exact behind (mem_of_mem_drop member)
  · exact absent there

end

namespace DB

variable {db db' : DB} {parse : Text → Option Operand} {query : Text} {e : Operand} {ids : Bitmap} {offset i : Nat}

def realName (db : DB) (localId : UInt32) : Text := (db.idMapping.getID localId).getD []

lemma realIds_of_end (ends : 0 < i ∨ 0 < offset ∨ 0 ∉ ids) {page : List UInt32} (kept : 0 ∉ page) (padding : Nat) :
    db.realIds ids offset i (page ++ replicate padding 0) = page.map db.realName := by
  induction page generalizing i with
  | nil =>
    cases padding with
    | zero => rfl
    | succ padding =>
      rw [replicate_succ, nil_append, realIds, if_pos ⟨rfl, ends⟩]
      rfl
  | cons first page ih =>
    obtain ⟨other, kept⟩ := not_or.mp (mt List.mem_cons.mpr kept)
    rw [cons_append, realIds, if_neg fun zero => other zero.1.symm, ih (.inl (succ_pos i)) kept]
    rfl

lemma realIds_localIds (ids : Bitmap) (offset : Nat) {limit : Nat} (positive : 0 < limit) :
    db.realIds ids offset 0 (localIds ids offset limit) = (((ranked ids).drop offset).take limit).map db.realName := by
  have padded : localIds ids offset limit = ((ranked ids).drop offset).take limit ++
      replicate (limit - (((ranked ids).drop offset).take limit).length) 0 := rfl
  rw [padded]
  by_cases later : 0 < offset ∨ 0 ∉ ids
  · exact realIds_of_end (.inr later) (fun member => zero_notMem_drop later (mem_of_mem_take member)) _
  · -- the first page of an answer that has the id 0
    obtain ⟨first, there⟩ := not_or.mp later
    obtain ⟨rest, order, behind⟩ := ranked_of_zero_mem (not_not.mp there)
    obtain ⟨limit, rfl⟩ := exists_eq_succ_of_ne_zero (ne_of_gt positive)
    obtain rfl : offset = 0 := Nat.eq_zero_of_not_pos first
    rw [order, drop_zero, take_succ_cons, cons_append, realIds, if_neg fun ends => later (ends.2.resolve_left (lt_irrefl 0)),
      realIds_of_end (.inl Nat.one_pos) fun member => behind (mem_of_mem_take member)]
    rfl

def page (db : DB) (ids : Bitmap) (offset limit : Int) : List Text :=
  (((ranked ids).drop offset.toNat).take limit.toNat).map db.realName

lemma select_of_bitmap (prepared : db.prepare parse query = some (e, db')) (set : e.eval (setMachine db.deref) = some (.bitmap ids))
    (offset : Int) {limit : Int} (positive : 0 < limit) :
    db.select parse query offset limit = some (db', 0, ⟨ids.card, db.page ids offset limit⟩) := by
  have count : 0 < limit.toNat := by omega
  rw [select, prepared]
  dsimp only
  rw [answer, set, if_neg (not_le_of_gt positive)]
  simp [realIds_localIds ids offset.toNat count, page]

lemma prepare_again (prepared : db.prepare parse query = some (e, db')) :
    (∃ db'', db'.prepare parse query = some (e, db'')) ∧ db'.deref = db.deref ∧ db'.idMapping = db.idMapping := by
  have again : get query db'.queryCache = some e ∧ db'.deref = db.deref ∧ db'.idMapping = db.idMapping := by
    rw [prepare] at prepared
    split at prepared
    case h_1 =>
      cases prepared
      exact ⟨if_pos rfl, rfl, rfl⟩
    case h_2 =>
      obtain ⟨e', -, same⟩ := Option.map_eq_some_iff.mp prepared
      cases same
      exact ⟨if_pos rfl, rfl, rfl⟩
  have cached : ∃ db'', db'.prepare parse query = some (e, db'') := by
    rw [prepare, again.1]
    exact ⟨_, rfl⟩
  exact ⟨cached, again.2⟩

def readPages (parse : Text → Option Operand) (query : Text) (limit : Nat) : Nat → Nat → DB → Option (List SelectResult)
  | 0, _, _ => some []
  | n + 1, offset, db => do
    let (db, _, result) ← db.select parse query offset limit
    let results ← readPages parse query limit n (offset + limit) db
    return result :: results

lemma readPages_eq (prepared : db.prepare parse query = some (e, db')) (set : e.eval (setMachine db.deref) = some (.bitmap ids))
    {limit : Nat} (positive : 0 < limit) (n offset : Nat) : ∃ results, readPages parse query limit n offset db = some results ∧
      results.length = n ∧ results.flatMap (·.ids) = (((ranked ids).drop offset).take (n * limit)).map db.realName := by
  induction n generalizing offset db db' with
  | zero => exact ⟨[], rfl, rfl, by rw [zero_mul]; rfl⟩
  | succ n ih =>
    obtain ⟨⟨db'', prepared'⟩, derefs, mapping⟩ := prepare_again prepared
    have names : db'.realName = db.realName := by
      funext localId
      rw [realName, mapping, realName]
    obtain ⟨results, rest, length, ids'⟩ := ih prepared' (derefs ▸ set) (offset + limit)
    have first := select_of_bitmap prepared set offset (Int.natCast_pos.mpr positive)
    refine ⟨⟨ids.card, db.page ids offset limit⟩ :: results, ?_, congrArg succ length, ?_⟩
    · rw [readPages, first, Option.bind_eq_bind, Option.bind_some]
      dsimp only
      rw [rest]
      rfl
    · rw [flatMap_cons, ids', names, page, Int.toNat_natCast, Int.toNat_natCast, ← drop_drop, ← map_append, succ_mul,
        add_comm, take_add]

end DB

/-- A page has the names of the ids of its ranks, in ascending order, and the pages make up the whole answer. -/
theorem select_pages {db db' : DB} {parse : Text → Option Operand} {query : Text} {e : Operand}
    (prepared : db.prepare parse query = some (e, db')) {ids : Bitmap} (set : e.eval (setMachine db.deref) = some (.bitmap ids)) :
    ∃ order : List UInt32, (∀ i, i ∈ order ↔ i ∈ ids) ∧ (order.Pairwise fun i j => i.toNat < j.toNat) ∧ ∀ limit : Nat, 0 < limit →
      (∀ offset : Nat, db.select parse query offset limit =
        some (db', 0, ⟨ids.card, ((order.drop offset).take limit).map db.realName⟩)) ∧
      ∀ n, ∃ results, DB.readPages parse query limit n 0 db = some results ∧ results.length = n ∧
        results.flatMap (·.ids) = (order.take (n * limit)).map db.realName := by
  refine ⟨ranked ids, fun i => mem_ranked, ascending_ranked ids, fun limit positive => ⟨fun offset => ?_, fun n => ?_⟩⟩
  · exact DB.select_of_bitmap prepared set offset (Int.natCast_pos.mpr positive)
  · exact DB.readPages_eq prepared set positive n 0

/-- Two more documents with the value. -/
def pagedDB : DB :=
  [[50], [51]].foldl (fun db id => (db.put samplePlatform [116] (some id) [([97], .arr [.str [120]])]).1) (sampleDB [120])

/-- Two pages of an answer with three ids. -/
theorem select_pages_two : ∃ e db', pagedDB.prepare sampleParse [113] = some (e, db') ∧
    e.eval (setMachine pagedDB.deref) = some (.bitmap {2, 1, 0}) ∧
    ∃ order : List UInt32, (∀ i, i ∈ order ↔ i ∈ ({2, 1, 0} : Bitmap)) ∧
      pagedDB.select sampleParse [113] 0 2 = some (db', 0, ⟨3, (order.take 2).map pagedDB.realName⟩) ∧
      pagedDB.select sampleParse [113] 2 2 = some (db', 0, ⟨3, ((order.drop 2).take 2).map pagedDB.realName⟩) := by
  refine ⟨.expression (.var [[116], [97]] (some ⟨0, [97]⟩)) (.cons .equal (.str [120]) .nil), _, rfl, rfl, ?_⟩
  obtain ⟨order, members, -, pages⟩ := select_pages (show pagedDB.prepare sampleParse [113] = some (_, _) from rfl) rfl
  exact ⟨order, members, (pages 2 (by decide)).1 0, (pages 2 (by decide)).1 2⟩

end

end Myctk.Robims
