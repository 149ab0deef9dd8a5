import Myctk.Robims.SaveLoad

/-! Generations of an index of numbers that is saved and loaded again. -/

namespace Myctk.Robims

open Robims.Field List Option Lib.Stream BitSliceIndex Index

namespace Field

def bsi (f : Field) : Option BitSliceIndex :=
  match f.index with
  | .int b => some b
  | .float b => some b
  | _ => none

def reload (P : Platform) (F : Formats) (f : Field) (readonly : Bool) : Option Field := do
  let file ← f.save P F readonly
  let blank ← Field.build f.info
  ((blank.load F).run file).1.toOption

def generations (P : Platform) (F : Formats) (f : Field) (files : List Bool) : Option Field := files.foldlM (reload P F) f

structure Regained (P : Platform) (F : Formats) (f f' : Field) : Prop where
  bitmaps : f'.bsi.map (·.bitmaps) = f.bsi.map (·.bitmaps)
  places : ∀ b', f'.bsi = some b' → b'.bitmaps.length = b'.bitDepth + 1 ∧ none ∉ b'.bitmaps
  getInt : f'.bsi.map (·.getInt) = f.bsi.map (·.getInt)
  getFloat : f'.bsi.map (·.getFloat) = f.bsi.map (·.getFloat)
  select : ∀ table op arg, f'.index.select table op arg = f.index.select table op arg
  saved : ∀ readonly, (f'.save P F readonly).isSome

def extended (f : Field) : Field :=
  match f.index with
  | .int b => ⟨f.info, .int b.extended⟩
  | .float b => ⟨f.info, .float b.extended⟩
  | _ => f

section
variable {P : Platform} {F : Formats} {readonly : Bool} {f : Field} {b : BitSliceIndex}

lemma cases_bsi {motive : Field → Prop} (numbers : f.bsi = some b) (int : ∀ info, motive ⟨info, .int b⟩)
    (float : ∀ info, motive ⟨info, .float b⟩) : motive f := by
  obtain ⟨info, index⟩ := f
  cases index with
  | int b' =>
    cases numbers
    exact int info
  | float b' =>
    cases numbers
    exact float info
  | _ => cases numbers

lemma select_extended (numbers : f.bsi = some b) (table : Bitmap) (op : FieldOperator) (arg : FieldArg) :
    f.extended.index.select table op arg = f.index.select table op arg := by
  refine cases_bsi (motive := fun f => f.extended.index.select table op arg = f.index.select table op arg) numbers (fun info => ?_)
    fun info => ?_
  all_goals
    simp only [extended, select, selectRange_extended]
    rfl

lemma saveBsi_extended (places : b.bitmaps ≠ []) : saveBsi F readonly b.extended = none := by
  rw [← not_isSome_iff_eq_none, saveBsi, isSome_andThen, isSome_each]
  rintro ⟨-, all⟩
  have empty : none ∈ b.extended.bitmaps := by
    rw [BitSliceIndex.extended, mem_append, mem_replicate]
    exact .inr ⟨mt length_eq_zero_iff.mp places, rfl⟩
  cases all none empty

lemma save_extended (numbers : f.bsi = some b) (places : b.bitmaps ≠ []) : f.extended.save P F readonly = none := by
  refine cases_bsi (motive := fun f => f.extended.save P F readonly = none) numbers (fun info => ?_) fun info => ?_
  all_goals
    rw [← not_isSome_iff_eq_none, save, isSome_andThen]
    intro both
    have index : (saveBsi F readonly b.extended).isSome := both.2
    rw [saveBsi_extended places] at index
    cases index

lemma reads_extended (lawful : F.Lawful) (numbers : f.bsi = some b) (typed : f.index.Typed f.info) (proper : f.info.Proper)
    (size : (F.info.encode f.info).length < 2 ^ 32) {blank : Field} (built : build f.info = some blank) :
    Reads (f.save P F readonly) (blank.load F) f.extended := by
  revert typed proper size built
  refine cases_bsi (motive := fun f => f.index.Typed f.info → f.info.Proper → (F.info.encode f.info).length < 2 ^ 32 →
    build f.info = some blank → Reads (f.save P F readonly) (blank.load F) f.extended) numbers ?_ ?_
  all_goals
    intro info typed proper size built
    have kind := typed.kind.1
    rw [build, kind] at built
    cases built
    have index := reads_bsi readonly lawful typed.kind.2
    exact reads_message (lawful.info info proper) size ((index.then fun _ => rfl).then fun _ => rfl)

lemma isSome_save (P : Platform) (lawful : F.Lawful) (numbers : f.bsi = some b) (typed : f.index.Typed f.info) (readonly : Bool) :
    (f.save P F readonly).isSome := by
  refine (isSome_saveField lawful typed).mpr ?_
  exact cases_bsi (motive := fun f => [] ∉ f.index.names) numbers (fun _ => not_mem_nil) fun _ => not_mem_nil

lemma reload_eq (lawful : F.Lawful) (numbers : f.bsi = some b) (typed : f.index.Typed f.info) (proper : f.info.Proper)
    (size : (F.info.encode f.info).length < 2 ^ 32) : f.reload P F readonly = some f.extended := by
  obtain ⟨file, saved⟩ := isSome_iff_exists.mp (isSome_save P lawful numbers typed readonly)
  obtain ⟨blank, built⟩ := isSome_build typed.kind.known
  have loaded := reads_extended lawful numbers typed proper size built file saved []
  rw [append_nil] at loaded
  rw [reload, saved, bind_eq_bind, bind_some, built, bind_eq_bind, bind_some, loaded]
  rfl

lemma shaped_bsi (numbers : f.bsi = some b) (typed : f.index.Typed f.info) : (init f.info).Shaped b := by
  revert typed
  exact cases_bsi (motive := fun f => f.index.Typed f.info → (init f.info).Shaped b) numbers
    (fun _ typed => typed.kind.2) fun _ typed => typed.kind.2

lemma length_bsi (numbers : f.bsi = some b) (typed : f.index.Typed f.info) : b.bitmaps.length = b.bitDepth + 1 := by
  have shaped := shaped_bsi numbers typed
  rw [shaped.length, shaped.depth]
  exact length_replicate

lemma regained_self (P : Platform) (lawful : F.Lawful) (numbers : f.bsi = some b) (typed : f.index.Typed f.info) : f.Regained P F f where
  bitmaps := rfl
  places b' same := by
    cases numbers.symm.trans same
    refine ⟨length_bsi numbers typed, fun empty => ?_⟩
    rw [slots_eq (shaped_bsi numbers typed)] at empty
    obtain ⟨s, -, none⟩ := mem_map.mp empty
    cases none
  getInt := rfl
  getFloat := rfl
  select _ _ _ := rfl
  saved := isSome_save P lawful numbers typed

end

end Field

/-- No generation is regained: the first one cannot be saved, so that there is no second one. -/
theorem regained_iff (P : Platform) {F : Formats} (lawful : F.Lawful) {f : Field} (numbers : f.bsi.isSome)
    (typed : f.index.Typed f.info) (proper : f.info.Proper) (size : (F.info.encode f.info).length < 2 ^ 32) (files : List Bool) :
    (∃ f', f.generations P F files = some f' ∧ f.Regained P F f') ↔ files = [] := by
  obtain ⟨b, numbers⟩ := isSome_iff_exists.mp numbers
  have places : b.bitmaps ≠ [] := by
    have length := length_bsi numbers typed
    exact ne_nil_of_length_pos (by omega)
  constructor
  · rintro ⟨f', run, regained⟩
    match files with
    | [] => rfl
    | first :: files =>
      rw [generations, foldlM_cons, reload_eq lawful numbers typed proper size, bind_eq_bind,
        bind_some] at run
      match files with
      | [] =>
        cases run
        have saved := regained.saved true
        rw [save_extended numbers places] at saved
        cases saved
      | second :: files =>
        rw [foldlM_cons, reload, save_extended numbers places] at run
        cases run
  · rintro rfl
    exact ⟨f, rfl, regained_self P lawful numbers typed⟩

/-! A field of integers that is new. -/

def intField : Field := ⟨sampleField [110] .int, .int (.init (sampleField [110] .int))⟩

lemma typed_intField : intField.index.Typed intField.info := ⟨⟨rfl, .refl _⟩, nodup_nil⟩

theorem loaded_not_saved : ∃ F : Formats, F.Lawful ∧ intField.bsi.isSome ∧ intField.index.Typed intField.info ∧ intField.info.Proper ∧
    (F.info.encode intField.info).length < 2 ^ 32 ∧ intField.generations samplePlatform F [false] = some intField.extended ∧
    (∀ table op arg, intField.extended.index.select table op arg = intField.index.select table op arg) ∧
    intField.extended.save samplePlatform F false = none ∧
    ¬ ∃ f', intField.generations samplePlatform F [false] = some f' ∧ intField.Regained samplePlatform F f' := by
  obtain ⟨F, lawful, -, short⟩ := exists_lawful intField.info
  have proper : intField.info.Proper := ⟨⟨"n", rfl⟩, by decide, by decide⟩
  have numbers : intField.bsi = some (.init (sampleField [110] .int)) := rfl
  have places := length_bsi numbers typed_intField
  have once : intField.generations samplePlatform F [false] = some intField.extended := by
    rw [generations, foldlM_cons, reload_eq lawful numbers typed_intField proper short]
    rfl
  have stuck : intField.extended.save samplePlatform F false = none :=
    save_extended numbers (ne_nil_of_length_pos (by omega))
  refine ⟨F, lawful, rfl, typed_intField, proper, short, once, select_extended numbers, stuck, ?_⟩
  rintro ⟨f', run, regained⟩
  cases once.symm.trans run
  have saved := regained.saved false
  rw [stuck] at saved
  cases saved

theorem regained_iff_saved_twice : ∃ F : Formats, F.Lawful ∧ intField.bsi.isSome ∧ intField.index.Typed intField.info ∧
    intField.info.Proper ∧ (F.info.encode intField.info).length < 2 ^ 32 ∧
    ¬ ∃ f', intField.generations samplePlatform F [false, true] = some f' ∧ intField.Regained samplePlatform F f' := by
  obtain ⟨F, lawful, -, short⟩ := exists_lawful intField.info
  have proper : intField.info.Proper := ⟨⟨"n", rfl⟩, by decide, by decide⟩
  have never := regained_iff samplePlatform lawful rfl typed_intField proper short [false, true]
  exact ⟨F, lawful, rfl, typed_intField, proper, short, fun regained => cons_ne_nil _ _ (never.mp regained)⟩

end Myctk.Robims
