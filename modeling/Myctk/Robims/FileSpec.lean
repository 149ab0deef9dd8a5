import Myctk.Robims.File
import Myctk.Robims.TableContent

/-! What is saved is loaded again: bitmaps, fields, tables and the mapping of ids. -/

namespace Myctk.Robims

open Index BitSliceIndex Option Lib Lib.Stream Stdio FieldMeta Nat Reads
open Lib.Assoc hiding set

def IsUtf8 (s : Text) : Prop := ∃ text : String, text.toUTF8.data.toList = s

def IsInt64 (v : Int) : Prop := -2 ^ 63 ≤ v ∧ v < 2 ^ 63

instance (v : Int) : Decidable (IsInt64 v) := inferInstanceAs (Decidable (_ ∧ _))

def FieldMeta.Proper (info : FieldMeta) : Prop := IsUtf8 info.name ∧ IsInt64 info.topkLimit ∧ IsInt64 info.maxSetNum

def TableSchema.Proper (schema : TableSchema) : Prop :=
  IsUtf8 schema.name ∧ IsUtf8 schema.idField ∧ ∀ info ∈ schema.indexField, info.Proper

structure Formats.Lawful (F : Formats) : Prop where
  bitmap : ∀ readonly s, (F.bitmap readonly).Faithful s
  bitmap_ne : ∀ readonly s, (F.bitmap readonly).encode s ≠ []
  bitmap_lt : ∀ readonly s, ((F.bitmap readonly).encode s).length < 2 ^ 32
  info : ∀ info, info.Proper → F.info.Faithful info
  info_ne : ∀ info, info.indexType ≠ .unknown → F.info.encode info ≠ []
  schema : ∀ schema, schema.Proper → F.schema.Faithful schema
  schema_eq_nil : ∀ schema, F.schema.encode schema = [] ↔ schema = ⟨[], [], [], false⟩
  header : ∀ header, (∀ name ∈ header.partialTables, IsUtf8 name) → F.header.Faithful header
  header_ne : ∀ header, header.version ≠ 0 → F.header.encode header ≠ []
  header_lt : (F.header.encode ⟨1, false, true, []⟩).length < 2 ^ 32

lemma reads_item (item : Bytes) : Reads (fwrite item) (fread item.length) item := Stdio.reads_item _ _ item

lemma isSome_fileWriteUint32 (n : Nat) : (fileWriteUint32 n).isSome := isSome_writeUint32 n

lemma reads_uint32 {n : Nat} (fits : n < 2 ^ 32) : Reads (fileWriteUint32 n) fileReadUint32 n := Stdio.reads_uint32 _ _ fits

variable {s : Text} {α : Type} {c : Codec α} {x : α}

lemma isSome_fileWriteString : (fileWriteString s).isSome ↔ s ≠ [] := isSome_writeString

lemma reads_string (fits : s.length < 2 ^ 32) : Reads (fileWriteString s) fileReadString s :=
  Stdio.reads_string _ _ fits

lemma run_parseFrom (faithful : c.Faithful x) (b : Bytes) : (parseFrom c (c.encode x)).run b = (.ok x, b) := by
  rw [parseFrom, show c.decode (c.encode x) = some x from faithful]
  rfl

lemma reads_message {β : Type} (faithful : c.Faithful x) (fits : (c.encode x).length < 2 ^ 32)
    {w : Option Bytes} {f : α → FileReader β} {y : β} (after : Reads w (f x) y) :
    Reads (andThen (fileWriteString (c.encode x)) w)
      (do
        let x ← parseFrom c (← fileReadString)
        f x) y := by
  refine (reads_string fits).bind fun b eq rest => ?_
  rw [Stream.run_bind (run_parseFrom faithful _)]
  exact after b eq rest

section
variable {P : Platform} {F : Formats} {readonly : Bool}
  {α β : Type} {info : FieldMeta} {b : BitSliceIndex} {write : Text × α → Option Bytes} {index : Index} {f : Field}

lemma iterate_perm (P : Platform) {m : List (Text × α)} (nodup : (m.map Prod.fst).Nodup) : (iterate P m).Perm m := by
  have perm := (P.order_perm (m.map Prod.fst)).filterMap fun name => (get name m).map fun v => (name, v)
  rw [filterMap_get nodup] at perm
  exact perm

lemma isSome_saveBitmap (lawful : F.Lawful) (s : Bitmap) : (Bitmap.save F readonly s).isSome := by
  rw [Bitmap.save, isSome_andThen, isSome_andThen, isSome_fwrite, isSome_fwrite]
  exact ⟨isSome_fileWriteUint32 _, List.cons_ne_nil _ _, lawful.bitmap_ne readonly s⟩

lemma reads_bitmap (lawful : F.Lawful) (s : Bitmap) : Reads (Bitmap.save F readonly s) (Bitmap.load F) s := by
  have flag : ([if readonly then 1 else 0] != ([0] : Bytes)) = readonly := by cases readonly <;> rfl
  refine (reads_uint32 (lawful.bitmap_lt readonly s)).bind ?_
  refine (reads_item [if readonly then 1 else 0]).bind ?_
  refine (reads_item _).then fun b => ?_
  rw [flag]
  exact run_parseFrom (lawful.bitmap readonly s) b

lemma loadSlots_append (front : List (Option Bitmap)) {slots : List Bitmap} {rest : List (Option Bitmap)}
    (enough : slots.length ≤ rest.length) : loadSlots front.length slots (front ++ rest) =
      front ++ slots.map some ++ rest.drop slots.length ++ List.replicate slots.length none := by
  induction slots generalizing front rest with
  | nil => simp [loadSlots]
  | cons s slots ih =>
    match rest, enough with
    | place :: rest, enough =>
      have le : slots.length ≤ rest.length := le_of_succ_le_succ enough
      have set : (front ++ place :: rest ++ [none]).set front.length (some s) = (front ++ [some s]) ++ (rest ++ [none]) := by
        simp
      have more : slots.length ≤ (rest ++ [none]).length := by
        rw [List.length_append]
        omega
      have next := ih (front ++ [some s]) more
      rw [List.length_append, List.length_singleton, List.drop_append_of_le_length le] at next
      rw [loadSlots, set, next, List.length_cons, List.replicate_succ]
      simp

lemma slots_eq (shaped : (init info).Shaped b) : b.bitmaps = (b.bitmaps.map fun slot => slot.getD ∅).map some := by
  have whole := shaped.whole (whole_new _)
  have length : b.bitmaps.length = b.bitDepth + 1 := by
    rw [shaped.length, shaped.depth]
    exact List.length_replicate
  rw [List.map_map]
  refine (List.map_id _).symm.trans (List.map_congr_left fun slot member => ?_)
  obtain ⟨i, lt, here⟩ := List.mem_iff_getElem.mp member
  obtain ⟨s, there⟩ := whole i (by omega)
  rw [List.getElem?_eq_getElem lt, here] at there
  cases there
  rfl

lemma bitDepth_lt (o : BsiOptions) : o.bitDepth < 64 := by
  rw [BsiOptions.bitDepth]
  cases found : (List.range 64).find? fun i => o.distance < 2 ^ i with
  | none => exact zero_lt_succ _
  | some i => exact List.mem_range.mp (List.mem_of_find?_eq_some found)

lemma selectRange_of_bitmap {b' : BitSliceIndex} (depth : b.bitDepth = b'.bitDepth) (same : ∀ j, b.bitmap j = b'.bitmap j)
    (op : FieldOperator) (expect : Nat) : selectRange b op expect = selectRange b' op expect :=
  selectRange_of_rows depth (same 0) (fun i _ k _ => by rw [row, row, same]) op expect

lemma isSome_saveBsi (lawful : F.Lawful) (shaped : (init info).Shaped b) : (saveBsi F readonly b).isSome := by
  rw [saveBsi, isSome_andThen, isSome_each, slots_eq shaped]
  refine ⟨isSome_fileWriteUint32 _, fun slot member => ?_⟩
  obtain ⟨s, -, rfl⟩ := List.mem_map.mp member
  exact isSome_saveBitmap lawful s

def BitSliceIndex.extended (b : BitSliceIndex) : BitSliceIndex :=
  { b with bitmaps := b.bitmaps ++ List.replicate b.bitmaps.length none }

lemma BitSliceIndex.bitmap_extended (b : BitSliceIndex) (j : Nat) : b.extended.bitmap j = b.bitmap j := by
  rw [bitmap, bitmap, extended, List.getD_eq_getElem?_getD, List.getD_eq_getElem?_getD, List.getElem?_append]
  split
  case isTrue => rfl
  case isFalse out =>
    rw [List.getElem?_replicate, List.getElem?_eq_none (not_lt.mp out)]
    split <;> rfl

lemma selectRange_extended (b : BitSliceIndex) (op : FieldOperator) (expect : Nat) :
    selectRange b.extended op expect = selectRange b op expect := by
  have depth : b.extended.bitDepth = b.bitDepth := rfl
  exact selectRange_of_bitmap depth b.bitmap_extended op expect

lemma reads_bsi (readonly : Bool) (lawful : F.Lawful) (shaped : (init info).Shaped b) :
    Reads (saveBsi F readonly b) (loadBsi F (.init info)) b.extended := by
  have whole := slots_eq shaped
  have length := shaped.length
  have fits : b.bitmaps.length < 2 ^ 32 := by
    rw [length, init, new, List.length_replicate]
    exact lt_trans (succ_lt_succ (bitDepth_lt _)) (by decide)
  generalize b.bitmaps.map (fun slot => slot.getD ∅) = slots at whole
  have count : b.bitmaps.length = slots.length := by rw [whole, List.length_map]
  have loaded : { init info with bitmaps := loadSlots 0 slots (init info).bitmaps } = b.extended := by
    have enough : slots.length ≤ (init info).bitmaps.length := by omega
    have places := loadSlots_append [] enough
    rw [List.drop_of_length_le (by omega), List.nil_append, List.nil_append, List.append_nil, ← whole, ← count] at places
    rw [extended, ← places, shaped.options, shaped.depth]
    rfl
  rw [← loaded]
  refine (reads_uint32 fits).bind (Reads.then ?_ fun _ => rfl)
  rw [count, whole]
  rw [Stream.each_map]
  exact many_self fun s _ => reads_bitmap lawful s

lemma reads_entries {γ : Type} {m : List (Text × α)} (nodup : (m.map Prod.fst).Nodup) (fits : m.length < 2 ^ 32)
    {read : FileReader β} {value : Text × α → β} (reads : ∀ e ∈ m, Reads (write e) read (value e))
    (g : List β → γ) : Reads (andThen (fileWriteUint32 m.length) (each write (iterate P m)))
      (do
        let n ← fileReadUint32
        return g (← many read n)) (g ((iterate P m).map value)) := by
  have perm := iterate_perm P nodup
  refine (reads_uint32 fits).bind (Reads.then ?_ fun _ => rfl)
  rw [← perm.length_eq]
  exact many fun e member => reads e (perm.mem_iff.mp member)

lemma isSome_entries {m : List (Text × α)} (nodup : (m.map Prod.fst).Nodup)
    {name : Text × α → Text} (named : ∀ e, (write e).isSome ↔ name e ≠ []) :
    (andThen (fileWriteUint32 m.length) (each write (iterate P m))).isSome ↔ [] ∉ m.map name := by
  rw [isSome_andThen, isSome_each, and_iff_right (isSome_fileWriteUint32 _)]
  simp [(iterate_perm P nodup).mem_iff, named]

lemma get_enter_iterate {m : List (Text × α)} (nodup : (m.map Prod.fst).Nodup) (f : α → β) (name : Text) :
    get name (enter [] ((iterate P m).map fun e => (e.1, f e.2))) = (get name m).map f := by
  have perm := iterate_perm P nodup
  have nodup' : ((iterate P m).map Prod.fst).Nodup := (perm.map Prod.fst).nodup_iff.mpr nodup
  have keys : (((iterate P m).map fun e => (e.1, f e.2)).map Prod.fst) = (iterate P m).map Prod.fst := by
    rw [List.map_map]
    rfl
  rw [enter, get_foldl_alter (keys ▸ nodup')]
  have values := get_mapValues f (iterate P m) (k := name)
  rw [get_perm nodup' perm] at values
  rw [← values]
  exact or_none

lemma isSome_saveNamed (lawful : F.Lawful) (e : Text × Bitmap) : (saveNamed F readonly e).isSome ↔ e.1 ≠ [] := by
  rw [saveNamed, isSome_andThen, isSome_fileWriteString]
  exact and_iff_left (isSome_saveBitmap lawful e.2)

lemma reads_named (lawful : F.Lawful) {e : Text × Bitmap} (fits : e.1.length < 2 ^ 32) :
    Reads (saveNamed F readonly e) (loadNamed F) (e.1, e.2) :=
  (reads_string fits).bind ((reads_bitmap lawful e.2).then fun _ => rfl)

lemma isSome_saveWeights (weightIds : Finset Nat) : (saveWeights weightIds).isSome := by
  rw [saveWeights, isSome_andThen]
  refine ⟨isSome_fileWriteUint32 _, ?_⟩
  split
  · rfl
  · rename_i some
    refine isSome_fwrite.mpr fun empty => some ?_
    rw [List.flatMap_eq_nil_iff] at empty
    rw [Finset.card_eq_zero, Finset.eq_empty_iff_forall_notMem]
    intro v member
    simpa using congrArg List.length (empty v ((Finset.mem_sort _).mpr member))

lemma isSome_saveWeighted (lawful : F.Lawful) (e : Text × WeightBitmap) : (saveWeighted F readonly e).isSome ↔ e.1 ≠ [] := by
  rw [saveWeighted, isSome_andThen, isSome_andThen, isSome_fileWriteString]
  exact and_iff_left ⟨isSome_saveWeights _, isSome_saveBitmap lawful e.2.bitmap⟩

def writtenWeights (weightIds : Finset Nat) : List Nat :=
  if weightIds.card = 0 then [] else Index.words weightIds.card ((weightIds.sort (· ≥ ·)).flatMap (leBytes 8))

lemma reads_weights {weightIds : Finset Nat} (fits : weightIds.card < 2 ^ 32) :
    Reads (saveWeights weightIds) loadWeights (writtenWeights weightIds) := by
  refine (reads_uint32 fits).bind ?_
  rw [writtenWeights]
  by_cases empty : weightIds.card = 0
  · rw [if_pos empty, if_pos empty, if_pos empty]
    exact .pure []
  · have length : ((weightIds.sort (· ≥ ·)).flatMap (leBytes 8)).length = weightIds.card * 8 := by
      rw [List.length_flatMap, ← Finset.length_sort (· ≥ ·)]
      simp
    rw [if_neg empty, if_neg empty, if_neg empty, ← length]
    exact (reads_item _).then fun _ => rfl

def rewritten (w : WeightBitmap) : WeightBitmap where
  weightIds := (writtenWeights w.weightIds).toFinset
  idWeights := (writtenWeights w.weightIds).foldl
    (fun m v => alter (Index.weightOf v).1 (fun _ => (Index.weightOf v).2) m) []
  bitmap := w.bitmap

lemma reads_weighted (lawful : F.Lawful) {e : Text × WeightBitmap} (fits : e.1.length < 2 ^ 32) (few : e.2.weightIds.card < 2 ^ 32) :
    Reads (saveWeighted F readonly e) (loadWeighted F) (e.1, rewritten e.2) :=
  (reads_string fits).bind ((reads_weights few).bind ((reads_bitmap lawful e.2.bitmap).then fun _ => rfl))

def Index.names : Index → List Text
  | .set bitmaps => bitmaps.map Prod.fst
  | .weightSet bitmaps => bitmaps.map Prod.fst
  | _ => []

def Index.Fits (index : Index) : Prop :=
  index.names.length < 2 ^ 32 ∧ (∀ name ∈ index.names, name.length < 2 ^ 32) ∧
    ∀ bitmaps, index = .weightSet bitmaps → ∀ e ∈ bitmaps, e.2.weightIds.card < 2 ^ 32

def Index.OfKind (info : FieldMeta) : Index → Prop
  | .set _ => info.indexType = .set ∨ info.indexType = .mutex
  | .bool _ => info.indexType = .bool
  | .weightSet _ => info.indexType = .weightSet
  | .int bsi => info.indexType = .int ∧ (init info).Shaped bsi
  | .float bsi => info.indexType = .float ∧ (init info).Shaped bsi

structure Index.Typed (info : FieldMeta) (index : Index) : Prop where
  kind : index.OfKind info
  nodup : index.names.Nodup

lemma isSome_saveIndex (lawful : F.Lawful) (typed : index.Typed info) : (index.save P F readonly).isSome ↔ [] ∉ index.names := by
  cases index with
  | set bitmaps => exact isSome_entries typed.nodup (isSome_saveNamed lawful)
  | bool bitmap => exact iff_of_true (isSome_saveBitmap lawful bitmap) (List.not_mem_nil)
  | weightSet bitmaps => exact isSome_entries typed.nodup (isSome_saveWeighted lawful)
  | int bsi => exact iff_of_true (isSome_saveBsi lawful typed.kind.2) (List.not_mem_nil)
  | float bsi => exact iff_of_true (isSome_saveBsi lawful typed.kind.2) (List.not_mem_nil)

lemma reads_index (lawful : F.Lawful) (typed : index.Typed info) (fits : index.Fits) (built : Field.build info = some f) :
    ∃ index', Reads (index.save P F readonly) (f.index.load F) index' ∧
      ∀ table op arg, index'.select table op arg = index.select table op arg := by
  obtain ⟨few, short, light⟩ := fits
  have kind := typed.kind
  rw [Field.build] at built
  cases index with
  | set bitmaps =>
    obtain rfl : f = ⟨info, .set []⟩ := by
      rcases kind with kind | kind <;> rw [kind] at built <;> cases built <;> rfl
    rw [names, List.length_map] at few
    have entry : ∀ e ∈ bitmaps, Reads (saveNamed F readonly e) (loadNamed F) (e.1, e.2) :=
      fun e member => reads_named lawful (short e.1 (List.mem_map_of_mem member))
    refine ⟨_, reads_entries typed.nodup few entry fun entries => set (enter [] entries), fun table op arg => ?_⟩
    have same := get_enter_iterate (P := P) typed.nodup (fun s : Bitmap => s)
    simp only [select, same, map_id']
  | bool bitmap =>
    rw [show info.indexType = .bool from kind] at built
    cases built
    exact ⟨.bool bitmap, (reads_bitmap lawful bitmap).then fun _ => rfl, fun _ _ _ => rfl⟩
  | weightSet bitmaps =>
    rw [show info.indexType = .weightSet from kind] at built
    cases built
    rw [names, List.length_map] at few
    have entry : ∀ e ∈ bitmaps, Reads (saveWeighted F readonly e) (loadWeighted F) (e.1, rewritten e.2) :=
      fun e member => reads_weighted lawful (short e.1 (List.mem_map_of_mem member)) (light bitmaps rfl e member)
    refine ⟨_, reads_entries typed.nodup few entry fun entries => weightSet (enter [] entries), fun table op arg => ?_⟩
    have same := get_enter_iterate (P := P) typed.nodup rewritten
    simp only [select, same, map_map]
    rfl
  | int bsi =>
    rw [kind.1] at built
    cases built
    refine ⟨.int bsi.extended, (reads_bsi readonly lawful kind.2).then fun _ => rfl, fun table op arg => ?_⟩
    simp only [select, selectRange_extended]
    rfl
  | float bsi =>
    rw [kind.1] at built
    cases built
    refine ⟨.float bsi.extended, (reads_bsi readonly lawful kind.2).then fun _ => rfl, fun table op arg => ?_⟩
    simp only [select, selectRange_extended]
    rfl

lemma Index.OfKind.known (kind : index.OfKind info) : info.indexType ≠ .unknown := by
  intro unknown
  cases index <;> simp [OfKind, unknown] at kind

lemma isSome_build (known : info.indexType ≠ .unknown) : ∃ f, Field.build info = some f := by
  unfold Field.build
  cases kind : info.indexType with
  | unknown => exact absurd kind known
  | _ => exact ⟨_, rfl⟩

lemma isSome_saveField (lawful : F.Lawful) (typed : f.index.Typed f.info) : (f.save P F readonly).isSome ↔ [] ∉ f.index.names := by
  rw [Field.save, isSome_andThen, isSome_fileWriteString, isSome_saveIndex lawful typed]
  exact and_iff_right (lawful.info_ne _ typed.kind.known)

def Field.answers (f : Field) (table : Bitmap) (op : FieldOperator) (arg : FieldArg) : Except Int Bitmap := f.index.select table op arg

lemma reads_field (lawful : F.Lawful) (typed : f.index.Typed f.info) (fits : f.index.Fits) (proper : f.info.Proper)
    (size : (F.info.encode f.info).length < 2 ^ 32) {blank : Field} (built : Field.build f.info = some blank) :
    ∃ f' : Field, Reads (f.save P F readonly) (blank.load F) f' ∧ f'.answers = f.answers := by
  obtain ⟨index, reads, same⟩ := reads_index lawful typed fits built (P := P)
  refine ⟨⟨f.info, index⟩, ?_, funext fun table => funext fun op => funext fun arg => same table op arg⟩
  exact reads_message (lawful.info f.info proper) size (reads.then fun _ => rfl)

structure Table.Formed (t : Table) : Prop where
  field : ∀ name f, get name t.fields = some f → f.info ∈ t.schema.indexField ∧ f.info.name = name ∧ f.index.Typed f.info
  complete : ∀ info ∈ t.schema.indexField, (get info.name t.fields).isSome

structure Table.Regular (F : Formats) (t : Table) : Prop where
  distinct : (t.schema.indexField.map name).Nodup
  proper : t.schema.Proper
  size : (F.schema.encode t.schema).length < 2 ^ 32
  infoSize : ∀ info ∈ t.schema.indexField, (F.info.encode info).length < 2 ^ 32
  fits : ∀ name f, get name t.fields = some f → f.index.Fits

def Table.Named (t : Table) : Prop :=
  t.schema ≠ ⟨[], [], [], false⟩ ∧ ∀ name f, get name t.fields = some f → [] ∉ f.index.names

section
variable {t : Table}

lemma Table.isSome_save (lawful : F.Lawful) (formed : t.Formed) : (t.save P F readonly).isSome ↔ t.Named := by
  rw [Table.save, isSome_andThen, isSome_andThen, isSome_fileWriteString, isSome_each, Ne, lawful.schema_eq_nil,
    and_iff_right (isSome_saveBitmap lawful _)]
  refine and_congr_right fun _ => ⟨fun all name f found => ?_, fun named info member => ?_⟩
  · obtain ⟨member, rfl, typed⟩ := formed.field name f found
    have wrote := all f.info member
    rw [Table.saveField, found] at wrote
    exact (isSome_saveField lawful typed).mp wrote
  · obtain ⟨f, found⟩ := isSome_iff_exists.mp (formed.complete info member)
    rw [Table.saveField, found]
    exact (isSome_saveField lawful (formed.field _ f found).2.2).mpr (named _ f found)

lemma Table.Formed.get_info (formed : t.Formed) (distinct : (t.schema.indexField.map name).Nodup) {info : FieldMeta}
    (member : info ∈ t.schema.indexField) : ∃ f, get info.name t.fields = some f ∧ f.info = info ∧ f.index.Typed info := by
  obtain ⟨f, found⟩ := isSome_iff_exists.mp (formed.complete info member)
  obtain ⟨known, name, typed⟩ := formed.field _ f found
  obtain rfl : f.info = info := List.inj_on_of_nodup_map distinct known member name
  exact ⟨f, found, rfl, typed⟩

lemma reads_fields (lawful : F.Lawful) (formed : t.Formed) (regular : t.Regular F) {infos : List FieldMeta}
    (part : ∀ info ∈ infos, info ∈ t.schema.indexField) (fields : List (Text × Field)) :
    ∃ fields', Reads (each (t.saveField P F readonly) infos) (Table.loadFields F infos fields) fields' ∧
      ∀ name, (get name fields').map Field.answers =
        (if name ∈ infos.map FieldMeta.name then get name t.fields else get name fields).map Field.answers := by
  induction infos generalizing fields with
  | nil => exact ⟨fields, .pure _, fun _ => rfl⟩
  | cons info infos ih =>
    have member := part info List.mem_cons_self
    obtain ⟨f, found, rfl, typed⟩ := formed.get_info regular.distinct member
    obtain ⟨blank, built⟩ := isSome_build typed.kind.known
    obtain ⟨f', reads, same⟩ := reads_field lawful typed (regular.fits _ f found) (regular.proper.2.2 _ member)
      (regular.infoSize _ member) built (P := P)
    obtain ⟨fields', rest, answers⟩ := ih (fun info member => part info (List.mem_cons_of_mem _ member))
      (alter f.info.name (fun _ => f') fields)
    refine ⟨fields', ?_, fun name => ?_⟩
    · rw [each, Table.saveField, found, Table.loadFields, built]
      exact reads.bind rest
    · rw [answers, List.map_cons, get_alter]
      by_cases later : name ∈ infos.map FieldMeta.name
      · rw [if_pos later, if_pos (List.mem_cons_of_mem _ later)]
      · rw [if_neg later]
        by_cases here : f.info.name = name
        · rw [if_pos here, if_pos (here ▸ List.mem_cons_self), ← here, found, map_some, map_some, same]
        · rw [if_neg here, if_neg (List.not_mem_cons_of_ne_of_not_mem (Ne.symm here) later)]

structure Table.Alike (t t' : Table) : Prop where
  schema : t'.schema = t.schema
  idBitmap : t'.idBitmap = t.idBitmap
  fields : ∀ name, (get name t'.fields).map Field.answers = (get name t.fields).map Field.answers

lemma reads_table (lawful : F.Lawful) (formed : t.Formed) (regular : t.Regular F) :
    ∃ t', Reads (t.save P F readonly) (Table.load F) t' ∧ t.Alike t' := by
  obtain ⟨fields', reads, answers⟩ := reads_fields lawful formed regular (fun _ member => member) [] (P := P)
  refine ⟨⟨t.schema, t.idBitmap, fields'⟩, ?_, rfl, rfl, fun name => ?_⟩
  · exact reads_message (lawful.schema _ regular.proper) regular.size
      ((reads_bitmap lawful t.idBitmap).bind (reads.then fun _ => rfl))
  · rw [answers]
    split
    case isTrue => rfl
    case isFalse absent =>
      cases found : get name t.fields with
      | none => rfl
      | some f =>
        obtain ⟨member, rfl, -⟩ := formed.field name f found
        exact absurd (List.mem_map_of_mem member) absent

namespace IDMapping

structure TwoWay (m : IDMapping) : Prop where
  seed : m.idSeed.toNat = m.realLocal.length
  below : ∀ e ∈ m.realLocal, e.2.toNat < m.realLocal.length
  distinct : (m.realLocal.map Prod.snd).Nodup
  inverse : ∀ localId id, get localId m.localReal = some id ↔ (id, localId) ∈ m.realLocal

structure Sound (m : IDMapping) : Prop where
  nodup : (m.realLocal.map Prod.fst).Nodup
  twoWay : m.realLocal.length < 2 ^ 32 → m.TwoWay

lemma sound_empty : empty.Sound :=
  ⟨List.nodup_nil, fun _ => ⟨rfl, fun _ none => (nomatch none), List.nodup_nil, fun _ _ => ⟨fun none => (nomatch none), fun none => (nomatch none)⟩⟩⟩

variable {m m' : IDMapping} {id : Text} {localId : UInt32}

lemma getLocalID_cases {create : Bool} (found : m.getLocalID id create = some (localId, m')) :
    m' = m ∨ (id ∉ m.realLocal.map Prod.fst ∧ m'.idSeed = m.idSeed + 1 ∧ m'.realLocal = m.realLocal ++ [(id, m.idSeed)] ∧
      m'.localReal = alter m.idSeed (fun _ => id) m.localReal) := by
  rw [getLocalID] at found
  cases known : get id m.realLocal with
  | some old =>
    rw [known] at found
    cases found
    exact .inl rfl
  | none =>
    simp only [known] at found
    have absent : id ∉ m.realLocal.map Prod.fst := by
      rw [← isSome_get, known]
      exact Bool.false_ne_true
    split at found
    case isTrue =>
      cases found
      exact .inr ⟨absent, rfl, alter_of_absent absent _, rfl⟩
    case isFalse => cases found

lemma Sound.getLocalID (sound : m.Sound) {create : Bool} (found : m.getLocalID id create = some (localId, m')) : m'.Sound := by
  rcases getLocalID_cases found with rfl | ⟨absent, seed', real', local'⟩
  · exact sound
  refine ⟨?_, fun few => ?_⟩
  · rw [real', ← List.concat_eq_append, List.map_concat]
    exact List.Nodup.concat absent sound.nodup
  · rw [real', List.length_append, List.length_singleton] at few
    obtain ⟨seed, below, distinct, inverse⟩ := sound.twoWay (lt_of_succ_lt few)
    have fresh : m.idSeed ∉ m.realLocal.map Prod.snd := by
      intro member
      obtain ⟨e, known, same⟩ := List.mem_map.mp member
      exact absurd (below e known) (by rw [same, seed]; exact lt_irrefl _)
    refine ⟨?_, fun e member => ?_, ?_, fun l i => ?_⟩
    · rw [seed', real', List.length_append, List.length_singleton, UInt32.toNat_add, seed]
      exact mod_eq_of_lt few
    · rw [real', List.length_append, List.length_singleton]
      rw [real'] at member
      rcases List.mem_append.mp member with old | new
      · exact lt_succ_of_lt (below e old)
      · rw [List.mem_singleton.mp new, seed]
        exact lt_succ_self _
    · rw [real', ← List.concat_eq_append, List.map_concat]
      exact List.Nodup.concat fresh distinct
    · rw [local', get_alter, real', List.mem_append, List.mem_singleton, Prod.mk.injEq, ← inverse]
      split
      case isTrue here =>
        have unknown : get l m.localReal ≠ some i := fun old =>
          fresh (here ▸ List.mem_map_of_mem ((inverse l i).mp old))
        rw [some.injEq, or_iff_right unknown, and_iff_left here.symm, eq_comm]
      case isFalse other => rw [or_iff_left fun both => other both.2.symm]

lemma isSome_save (sound : m.Sound) : (m.save P).isSome ↔ [] ∉ m.realLocal.map Prod.fst := by
  rw [save, isSome_andThen, and_iff_right (isSome_fileWriteUint32 _)]
  refine isSome_entries sound.nodup fun e => ?_
  rw [saveEntry, isSome_andThen, isSome_fileWriteString]
  exact and_iff_right (isSome_fileWriteUint32 _)

lemma reads_entry {e : Text × UInt32} (fits : e.1.length < 2 ^ 32) : Reads (saveEntry e) loadEntry e := by
  refine (reads_uint32 e.2.toNat_lt).bind ((reads_string fits).then fun b => ?_)
  rw [UInt32.ofNat_toNat]
  rfl

lemma localReal_enter (entries : List (Text × UInt32)) (m : IDMapping) : (entries.foldl enter m).localReal =
      (entries.map Prod.swap).foldl (fun m entry => alter entry.1 (fun _ => entry.2) m) m.localReal := by
  induction entries generalizing m with
  | nil => rfl
  | cons e entries ih => exact ih (m.enter e)

structure Same (m m' : IDMapping) : Prop where
  idSeed : m'.idSeed = m.idSeed
  realLocal : m'.realLocal.Perm m.realLocal
  getID : ∀ localId, m'.getID localId = m.getID localId

lemma Sound.same (sound : m.Sound) (same : m.Same m') : m'.Sound := by
  obtain ⟨seed, perm, local'⟩ := same
  refine ⟨(perm.map Prod.fst).nodup_iff.mpr sound.nodup, fun few => ?_⟩
  rw [perm.length_eq] at few
  obtain ⟨seed', below, distinct, inverse⟩ := sound.twoWay few
  refine ⟨?_, fun e member => ?_, (perm.map Prod.snd).nodup_iff.mpr distinct, fun localId id => ?_⟩
  · rw [seed, perm.length_eq, seed']
  · rw [perm.length_eq]
    exact below e (perm.mem_iff.mp member)
  · rw [perm.mem_iff, ← inverse]
    exact Eq.congr_left (local' localId)

lemma realLocal_enter (entries : List (Text × UInt32)) (m : IDMapping) :
    (entries.foldl enter m).realLocal = entries.foldl (fun m entry => alter entry.1 (fun _ => entry.2) m) m.realLocal := by
  induction entries generalizing m with
  | nil => rfl
  | cons e entries ih => exact ih (m.enter e)

lemma reads_mapping (sound : m.Sound) (few : m.realLocal.length < 2 ^ 32) (short : ∀ e ∈ m.realLocal, e.1.length < 2 ^ 32) :
    ∃ m', Reads (m.save P) empty.load m' ∧ m.Same m' := by
  obtain ⟨-, -, distinct, inverse⟩ := sound.twoWay few
  have perm := iterate_perm P sound.nodup
  have entry : ∀ e ∈ m.realLocal, Reads (saveEntry e) loadEntry ((fun e => e) e) := fun e member => reads_entry (short e member)
  have entries := reads_entries (P := P) sound.nodup few entry fun entries : List (Text × UInt32) =>
    ({ entries.foldl enter empty with idSeed := UInt32.ofNat m.idSeed.toNat } : IDMapping)
  refine ⟨_, (reads_uint32 m.idSeed.toNat_lt).bind entries, UInt32.ofNat_toNat, ?_, fun localId => ?_⟩
  · show (((iterate P m.realLocal).map fun e => e).foldl enter empty).realLocal.Perm _
    rw [List.map_id', realLocal_enter, foldl_alter_of_nodup ((perm.map Prod.fst).nodup_iff.mpr sound.nodup)]
    exact perm
  have keys : ((iterate P m.realLocal).map Prod.swap).map Prod.fst = (iterate P m.realLocal).map Prod.snd := by
    rw [List.map_map]
    rfl
  have nodup : (((iterate P m.realLocal).map Prod.swap).map Prod.fst).Nodup := by
    rw [keys]
    exact (perm.map Prod.snd).nodup_iff.mpr distinct
  show get localId (((iterate P m.realLocal).map fun e => e).foldl enter empty).localReal = get localId m.localReal
  rw [List.map_id', localReal_enter, get_foldl_alter nodup]
  ext id
  rw [inverse, show empty.localReal = [] from rfl, Assoc.get, or_none, Assoc.get_eq_some nodup, List.mem_map]
  constructor
  · rintro ⟨e, member, same⟩
    cases same
    exact perm.mem_iff.mp member
  · exact fun member => ⟨_, perm.mem_iff.mpr member, rfl⟩

end IDMapping

end

end

end Myctk.Robims
