import Myctk.Robims.BsiSpec
import Myctk.Robims.TableRun

/-! Removing an id from a table: `Remove` leaves the id in the bitmap of the table and in the indexes of numbers, from which
    later answers are taken. -/

namespace Myctk.Robims

open Finset Index BitSliceIndex Robims.Field Table Option
open Lib.Assoc

/-- A bitmap that `Select` reads has the id. -/
def Index.Has (i : UInt32) : Index → Prop
  | .set bitmaps => ∃ v, i ∈ named bitmaps v
  | .bool bitmap => i ∈ bitmap
  | .weightSet bitmaps => ∃ v w, get v bitmaps = some w ∧ i ∈ w.bitmap
  | .int bsi => i ∈ bsi.exist
  | .float bsi => i ∈ bsi.exist

def Index.Numeric : Index → Prop
  | .int _ => True
  | .float _ => True
  | _ => False

section
variable {P : Platform} {i id : UInt32} {table ids : Bitmap} {op : FieldOperator} {arg : FieldArg}

lemma selectRange_subset {bsi : BitSliceIndex} {expect : Nat} (answer : selectRange bsi op expect = .ok ids) : ids ⊆ bsi.exist := by
  have whole : bsi.restrict ∅ ⊆ bsi.exist := by rw [bsi.restrict_empty]
  cases op <;> cases answer
  case eq => exact (bsi.rangeEQLoop_subset _ _ _).trans whole
  case neq => exact sdiff_subset
  all_goals first
    | exact bsi.rangeGTLoop_subset _ _ _ whole (empty_subset _)
    | exact bsi.rangeLTLoop_subset _ _ _ _ whole (empty_subset _)

lemma selectNamed_mem {find : Text → Option Bitmap} (answer : selectNamed table op arg find = .ok ids)
    (member : i ∈ ids) : i ∈ table ∨ ∃ v matched, find v = some matched ∧ i ∈ matched := by
  unfold selectNamed at answer
  split at answer
  case h_1 =>
    cases answer
    exact .inl member
  case h_4 => cases answer
  all_goals
    split at answer
    case h_2 => cases answer
    case h_1 v =>
      split at answer
      case h_1 => cases answer
      case h_2 matched found =>
        cases answer
        split at member
        · exact .inr ⟨v, matched, found, member⟩
        · exact .inl (mem_sdiff.mp member).1

variable {bitmap : Bitmap} {index index' : Index} {bitmaps : List (Text × WeightBitmap)} {v : Text} {info : FieldMeta}

lemma selectBool_mem (answer : selectBool table bitmap op arg = .ok ids) (member : i ∈ ids) : i ∈ table ∨ i ∈ bitmap := by
  have either : ∀ {s : Bitmap}, i ∈ s → s = table \ bitmap ∨ s = bitmap → i ∈ table ∨ i ∈ bitmap := by
    rintro s inside (rfl | rfl)
    · exact .inl (mem_sdiff.mp inside).1
    · exact .inr inside
  unfold selectBool at answer
  split at answer
  case h_1 =>
    cases answer
    exact .inl member
  case h_4 => cases answer
  all_goals
    split at answer
    case h_2 => cases answer
    case h_1 =>
      cases answer
      exact either member (by split <;> simp)

lemma Index.has_of_select (answer : index.select table op arg = .ok ids) (member : i ∈ ids) :
    index.Has i ∨ (i ∈ table ∧ ¬ index.Numeric) := by
  cases index with
  | set bitmaps =>
    rcases selectNamed_mem answer member with inside | ⟨v, matched, found, inside⟩
    · exact .inr ⟨inside, id⟩
    · exact .inl ⟨v, by rw [named, found]; exact inside⟩
  | bool bitmap =>
    rcases selectBool_mem answer member with inside | inside
    · exact .inr ⟨inside, id⟩
    · exact .inl inside
  | weightSet bitmaps =>
    rcases selectNamed_mem answer member with inside | ⟨v, matched, found, inside⟩
    · exact .inr ⟨inside, id⟩
    · obtain ⟨w, there, rfl⟩ := map_eq_some_iff.mp found
      exact .inl ⟨v, w, there, inside⟩
  | int bsi =>
    cases arg <;> simp only [select] at answer
    case int v => exact .inl (selectRange_subset answer member)
    all_goals cases answer
  | float bsi =>
    cases arg <;> simp only [select] at answer
    case str s => cases answer
    all_goals exact .inl (selectRange_subset answer member)

lemma weights_alter {name : Text} {g : Option WeightBitmap → WeightBitmap}
    {w : WeightBitmap} (found : get v (alter name g bitmaps) = some w) :
    (v = name ∧ w = g (get name bitmaps)) ∨ get v bitmaps = some w := by
  rw [get_alter] at found
  split at found
  case isTrue same =>
    cases found
    exact .inl ⟨same.symm, rfl⟩
  case isFalse => exact .inr found

lemma removeWeights_has {names : List Text}
    (has : (weightSet (removeWeights id names bitmaps)).Has i) : (weightSet bitmaps).Has i := by
  induction names generalizing bitmaps with
  | nil => exact has
  | cons name names ih =>
    rw [removeWeights] at has
    split at has
    case h_1 => exact has
    case h_2 weight here =>
      obtain ⟨v, w, found, inside⟩ := ih has
      rcases weights_alter found with ⟨rfl, rfl⟩ | before
      · obtain ⟨old, there, -⟩ := bind_eq_some_iff.mp here
        rw [there] at inside
        exact ⟨v, old, there, (mem_erase.mp inside).2⟩
      · exact ⟨v, w, before, inside⟩

lemma Index.has_of_remove (has : (index.remove P id).Has i) : index.Has i := by
  cases index with
  | set bitmaps =>
    obtain ⟨v, member⟩ := has
    exact ⟨v, (mem_named_removeNames.mp member).2⟩
  | bool bitmap => exact (mem_erase.mp has).2
  | weightSet bitmaps => exact removeWeights_has has
  | int bsi =>
    simp only [remove, Has] at has ⊢
    split at has
    · exact has
    · exact bsi.exist_doRemove _ _ has
  | float bsi =>
    simp only [remove, Has] at has ⊢
    split at has
    · exact has
    · exact bsi.exist_doRemove _ _ has

lemma BitSliceIndex.isSome_doGet (b : BitSliceIndex) (i : UInt32) : (b.doGet i).isSome ↔ i ∈ b.exist := by
  rw [doGet]
  split
  case isTrue absent => simpa using absent
  case isFalse there => simpa using not_not.mp there

lemma Index.has_remove_iff (numeric : index.Numeric) : (index.remove P i).Has i ↔ index.Has i := by
  refine ⟨has_of_remove, fun has => ?_⟩
  cases index with
  | int bsi =>
    have there : (bsi.getInt i).isSome := by
      rw [getInt, isSome_map]
      exact (bsi.isSome_doGet i).mpr has
    simp only [remove, there]
    exact has
  | float bsi =>
    have there : (bsi.getFloat i).isSome := by
      rw [getFloat, isSome_map]
      exact (bsi.isSome_doGet i).mpr has
    simp only [remove, there]
    exact has
  | _ => exact numeric.elim

lemma Index.numeric_remove (index : Index) : (index.remove P id).Numeric ↔ index.Numeric := by
  cases index <;> rfl

lemma putStrings_has {bitmaps : List (Text × Bitmap)} {xs : List Json}
    (member : i ∈ named (putStrings id xs bitmaps).1 v) : i = id ∨ i ∈ named bitmaps v := by
  induction xs generalizing bitmaps with
  | nil => exact .inr member
  | cons x xs ih =>
    cases x with
    | str s =>
      rcases ih member with same | inside
      · exact .inl same
      · rcases mem_named_putName.mp inside with ⟨same, -⟩ | before
        · exact .inl same
        · exact .inr before
    | _ => exact .inr member

lemma WeightBitmap.bitmap_put (w : WeightBitmap) (topkLimit : Int) (id weight : UInt32) :
    (w.put topkLimit id weight).bitmap = insert id w.bitmap := by
  unfold WeightBitmap.put WeightBitmap.trim
  dsimp only
  split
  · split <;> rfl
  · rfl

lemma putWeights_has {topkLimit : Int} {members : List (Text × Json)}
    (has : (weightSet (putWeights topkLimit id members bitmaps).1).Has i) : i = id ∨ (weightSet bitmaps).Has i := by
  induction members generalizing bitmaps with
  | nil => exact .inr has
  | cons entry members ih =>
    obtain ⟨key, value⟩ := entry
    cases value with
    | num int weight =>
      rcases ih has with same | ⟨v, w, found, inside⟩
      · exact .inl same
      · rcases weights_alter found with ⟨rfl, rfl⟩ | before
        · rw [WeightBitmap.bitmap_put] at inside
          rcases mem_insert.mp inside with same | old
          · exact .inl same
          · cases here : get v bitmaps with
            | none =>
              rw [here] at old
              exact absurd old (notMem_empty i)
            | some w =>
              rw [here] at old
              exact .inr ⟨v, w, here, old⟩
        · exact .inr ⟨v, w, before, inside⟩
    | _ => exact .inr has

lemma putBool_mem {v : Bool} (member : i ∈ putBool bitmap id v) : i = id ∨ i ∈ bitmap := by
  rw [putBool] at member
  split at member
  · exact (mem_insert.mp member).imp_right fun inside => (mem_erase.mp inside).2
  · exact .inr (mem_erase.mp member).2

inductive Field.PutStep (P : Platform) (id : UInt32) (info : FieldMeta) : Index → Index → Prop
  | same (index : Index) : PutStep P id info index index
  | bool (bitmap : Bitmap) (v : Bool) : PutStep P id info (.bool bitmap) (.bool (putBool bitmap id v))
  | set (bitmaps : List (Text × Bitmap)) (xs : List Json) :
      PutStep P id info (.set bitmaps) (.set (putStrings id xs (Index.removeNames bitmaps id)).1)
  | mutex (bitmaps : List (Text × Bitmap)) (s : Text) :
      PutStep P id info (.set bitmaps) (.set (Index.putName (Index.removeNames bitmaps id) id s))
  | weightSet (bitmaps : List (Text × WeightBitmap)) (members : List (Text × Json)) :
      PutStep P id info (.weightSet bitmaps) (.weightSet (putWeights info.topkLimit id members
        (Index.removeWeights id (P.order (bitmaps.map Prod.fst)) bitmaps)).1)
  | int (bsi : BitSliceIndex) (v : Int) : PutStep P id info (.int bsi) (.int (bsi.putInt id v))
  | float (bsi : BitSliceIndex) (v : UInt32) : PutStep P id info (.float bsi) (.float (bsi.putFloat id v).1)

lemma Field.put_step (P : Platform) (f : Field) (id : UInt32) (value : Option Json) :
    PutStep P id f.info f.index (f.put P id value).1.index := by
  obtain ⟨info, index⟩ := f
  unfold put
  split
  all_goals
    subst_vars
    constructor

lemma Field.PutStep.has (step : PutStep P id info index index') (has : index'.Has i) : i = id ∨ index.Has i := by
  cases step with
  | same => exact .inr has
  | bool bitmap v => exact putBool_mem has
  | set bitmaps xs =>
    obtain ⟨v, member⟩ := has
    exact (putStrings_has member).imp_right fun inside => ⟨v, (mem_named_removeNames.mp inside).2⟩
  | mutex bitmaps s =>
    obtain ⟨v, member⟩ := has
    exact (mem_named_putName.mp member).imp And.left fun inside => ⟨v, (mem_named_removeNames.mp inside).2⟩
  | weightSet bitmaps members => exact (putWeights_has has).imp_right removeWeights_has
  | int bsi v => exact mem_insert.mp (bsi.exist_doPut _ _ has)
  | float bsi v => exact mem_insert.mp (bsi.exist_doPut _ _ has)

lemma Field.PutStep.numeric (step : PutStep P id info index index') : index'.Numeric ↔ index.Numeric := by
  cases step <;> rfl

def Field.Based (info : FieldMeta) : Index → Prop
  | .float bsi => bsi.options = BitSliceIndex.initOptions info ∧ info.indexType = .float
  | _ => True

lemma Field.PutStep.based (step : PutStep P id info index index') (based : Based info index) : Based info index' := by
  cases step with
  | same => exact based
  | float bsi v => exact ⟨(bsi.shaped_doPut _ _).options.trans based.1, based.2⟩
  | _ => trivial

lemma Index.based_remove (based : Based info index) : Based info (index.remove P id) := by
  cases index with
  | float bsi =>
    refine ⟨?_, based.2⟩
    split
    · exact based.1
    · exact (bsi.shaped_doRemove _ _).options.trans based.1
  | _ => trivial

lemma Field.based_build {f : Field} (built : build info = some f) : Based f.info f.index ∧ ∀ i, ¬ f.index.Has i := by
  unfold build at built
  cases kind : info.indexType <;> rw [kind] at built <;> cases built
  case set => exact ⟨trivial, fun i ⟨v, member⟩ => notMem_empty i member⟩
  case mutex => exact ⟨trivial, fun i ⟨v, member⟩ => notMem_empty i member⟩
  case bool => exact ⟨trivial, fun i => notMem_empty i⟩
  case weightSet => exact ⟨trivial, fun i ⟨v, w, found, _⟩ => by cases found⟩
  case int => exact ⟨trivial, fun i has => by rw [Has, exist, BitSliceIndex.init, bitmap_new] at has; exact notMem_empty i has⟩
  case float => exact ⟨⟨rfl, kind⟩, fun i has => by rw [Has, exist, BitSliceIndex.init, bitmap_new] at has; exact notMem_empty i has⟩

end

inductive TableOp where
  | put (id : UInt32) (doc : Doc)
  | remove (id : UInt32)

namespace Table

variable {P : Platform} {t : Table} {i : UInt32}

def apply (P : Platform) (t : Table) : TableOp → Table
  | .put id doc => (t.put P id doc).1
  | .remove id => (t.remove P id).1

def run (P : Platform) (t : Table) (ops : List TableOp) : Table := ops.foldl (apply P) t

variable {name : Text} {f' f : Field}

lemma putFields_step {id : UInt32} {doc : Doc} {fields : List (Text × Field)}
    (found : get name (putFields P id doc fields).1 = some f') :
    ∃ f, get name fields = some f ∧ f'.info = f.info ∧ PutStep P id f.info f.index f'.index := by
  induction fields with
  | nil => cases found
  | cons entry fields ih =>
    obtain ⟨key, f⟩ := entry
    have here := put_step P f id (get key doc)
    have info := put_info P f id (get key doc)
    simp only [putFields] at found
    split at found
    all_goals
      rename_i g done
      rw [done] at here info
      simp only [Lib.Assoc.get] at found ⊢
      split at found
      · cases found
        rename_i same
        rw [if_pos same]
        exact ⟨f, rfl, info, here⟩
      · rename_i other
        rw [if_neg other]
        first
          | exact ih found
          | exact ⟨f', found, rfl, .same _⟩

structure Sound (t : Table) : Prop where
  known : ∀ name f i, get name t.fields = some f → f.index.Has i → i ∈ t.idBitmap
  based : ∀ name f, get name t.fields = some f → Field.Based f.info f.index

lemma sound_init {schema : TableSchema} (created : init schema = some t) : t.Sound := by
  obtain ⟨-, built⟩ := init_spec created
  refine ⟨fun name f i found has => ?_, fun name f found => ?_⟩
  · obtain ⟨info, made⟩ := built name f found
    exact absurd has ((based_build made).2 i)
  · obtain ⟨info, made⟩ := built name f found
    exact (based_build made).1

lemma get_remove {id : UInt32} (found : get name (t.remove P id).1.fields = some f') :
    ∃ f, get name t.fields = some f ∧ f' = f.remove P id := by
  rw [remove, get_mapValues] at found
  obtain ⟨f, there, same⟩ := map_eq_some_iff.mp found
  exact ⟨f, there, same.symm⟩

lemma Sound.apply (sound : t.Sound) (op : TableOp) : (t.apply P op).Sound := by
  cases op with
  | put id doc =>
    refine ⟨fun name f' i found has => ?_, fun name f' found => ?_⟩
    · obtain ⟨f, before, -, step⟩ := putFields_step found
      rcases step.has has with rfl | old
      · exact mem_insert_self _ _
      · exact mem_insert_of_mem (sound.known name f i before old)
    · obtain ⟨f, before, info, step⟩ := putFields_step found
      rw [info]
      exact step.based (sound.based name f before)
  | remove id =>
    refine ⟨fun name f' i found has => ?_, fun name f' found => ?_⟩
    · obtain ⟨f, before, rfl⟩ := get_remove found
      exact sound.known name f i before (has_of_remove has)
    · obtain ⟨f, before, rfl⟩ := get_remove found
      exact based_remove (sound.based name f before)

lemma Sound.run (sound : t.Sound) (ops : List TableOp) : (t.run P ops).Sound := by
  induction ops generalizing t with
  | nil => exact sound
  | cons op ops ih => exact ih (sound.apply op)

def Quiet (t : Table) (i : UInt32) : Prop :=
  ∀ name f, get name t.fields = some f → ¬ f.index.Has i ∧ (i ∈ t.idBitmap → f.index.Numeric)

lemma Quiet.not_selects (quiet : t.Quiet i) (name : Text) (op : FieldOperator) (arg : FieldArg) : ¬ t.Selects name op arg i := by
  rintro ⟨ids, answer, member⟩
  rw [select] at answer
  split at answer
  case h_1 => cases answer
  case h_2 f found =>
    obtain ⟨hasNot, numeric⟩ := quiet name f found
    rcases has_of_select answer member with has | ⟨inside, other⟩
    · exact hasNot has
    · exact other (numeric inside)

lemma Quiet.apply (quiet : t.Quiet i) (op : TableOp) (other : ∀ doc, op ≠ .put i doc) : (t.apply P op).Quiet i := by
  cases op with
  | put id doc =>
    have different : i ≠ id := fun same => other doc (by rw [same])
    intro name f' found
    obtain ⟨f, before, -, step⟩ := putFields_step found
    obtain ⟨hasNot, numeric⟩ := quiet name f before
    refine ⟨fun has => (step.has has).elim different hasNot, fun inside => step.numeric.mpr (numeric ?_)⟩
    exact (mem_insert.mp inside).resolve_left different
  | remove id =>
    intro name f' found
    obtain ⟨f, before, rfl⟩ := get_remove found
    obtain ⟨hasNot, numeric⟩ := quiet name f before
    exact ⟨fun has => hasNot (has_of_remove has), fun inside => (numeric_remove _).mpr (numeric inside)⟩

lemma Quiet.run (quiet : t.Quiet i) (ops : List TableOp) (others : ∀ doc, .put i doc ∉ ops) : (t.run P ops).Quiet i := by
  induction ops generalizing t with
  | nil => exact quiet
  | cons op ops ih =>
    refine ih (quiet.apply op fun doc same => others doc (by rw [same]; exact List.mem_cons_self)) fun doc member => ?_
    exact others doc (List.mem_cons_of_mem _ member)

lemma selects_of_index (found : get name t.fields = some f) {op : FieldOperator} {arg : FieldArg}
    (ids : Bitmap) (answer : f.index.select t.idBitmap op arg = .ok ids) (member : i ∈ ids) : t.Selects name op arg i := by
  refine ⟨ids, ?_, member⟩
  rw [select, found]
  exact answer

lemma u64_zero : u64 0 = 0 := by decide

lemma selects_of_has (found : get name t.fields = some f) (based : Based f.info f.index)
    (numeric : f.index.Numeric) (has : f.index.Has i) : ∃ op arg, t.Selects name op arg i := by
  obtain ⟨info, index⟩ := f
  cases index with
  | int bsi =>
    refine ⟨.gte, .int bsi.options.minInt, selects_of_index found bsi.exist ?_ has⟩
    show Except.ok (bsi.doRangeGT (u64 (bsi.options.minInt - bsi.options.minInt)) true ∅) = _
    rw [Int.sub_self, u64_zero, bsi.doRangeGT_zero]
  | float bsi =>
    refine ⟨.gte, .double info.min, selects_of_index found bsi.exist ?_ has⟩
    have least : bsi.options.min = (floatToUint32 info.min.toFloat32.toBits).toNat := by
      rw [based.1, initOptions, based.2]
      rfl
    show Except.ok (bsi.doRangeGT (u64 ((floatToUint32 info.min.toFloat32.toBits).toNat - bsi.options.min)) true ∅) = _
    rw [least, Int.sub_self, u64_zero, bsi.doRangeGT_zero]
  | _ => exact numeric.elim

lemma selects_all (found : get name t.fields = some f) (other : ¬ f.index.Numeric)
    (inside : i ∈ t.idBitmap) : t.Selects name .all (.int 0) i := by
  refine selects_of_index found t.idBitmap ?_ inside
  cases index : f.index with
  | int bsi => exact absurd (by rw [index]; trivial) other
  | float bsi => exact absurd (by rw [index]; trivial) other
  | _ => rfl

end Table

/-- After an id is removed no answer has it until it is put again, if it was never put or if the table has only fields of
    numbers, none of which has the id; in all other cases some answer has it. -/
theorem removed_iff (P : Platform) {schema : TableSchema} {t₀ : Table} (created : init schema = some t₀)
    (ops : List TableOp) (i : UInt32) :
    (∀ later, (∀ doc, .put i doc ∉ later) → ∀ name op arg,
        ¬ (((t₀.run P ops).remove P i).1.run P later).Selects name op arg i) ↔
      i ∉ (t₀.run P ops).idBitmap ∨ ∀ name f, get name (t₀.run P ops).fields = some f →
        f.index.Numeric ∧ ¬ f.index.Has i := by
  have sound : (t₀.run P ops).Sound := (sound_init created).run ops
  generalize t₀.run P ops = t at sound
  constructor
  · intro never
    by_contra both
    rw [not_or, not_not] at both
    obtain ⟨inside, notQuiet⟩ := both
    have present : ∀ name f, get name t.fields = some f →
        get name (t.remove P i).1.fields = some (f.remove P i) := by
      intro name f found
      rw [Table.remove, get_mapValues, found]
      rfl
    refine notQuiet fun name f found => ?_
    have numeric : f.index.Numeric := by
      by_contra other
      refine never [] (fun _ member => (nomatch member)) name .all (.int 0) ?_
      exact selects_all (present name f found) (fun numeric => other ((numeric_remove _).mp numeric)) inside
    refine ⟨numeric, fun has => ?_⟩
    obtain ⟨op, arg, selects⟩ := selects_of_has (present name f found) (based_remove (sound.based name f found))
      ((numeric_remove _).mpr numeric) ((has_remove_iff numeric).mpr has)
    exact never [] (fun _ member => (nomatch member)) name op arg selects
  · intro quiet later others
    have removed : (t.remove P i).1.Quiet i := by
      intro name f' found
      obtain ⟨f, before, rfl⟩ := get_remove found
      rcases quiet with unknown | numbers
      · exact ⟨fun has => unknown (sound.known name f i before (has_of_remove has)), fun inside => absurd inside unknown⟩
      · obtain ⟨numeric, hasNot⟩ := numbers name f before
        exact ⟨fun has => hasNot (has_of_remove has), fun _ => (numeric_remove _).mpr numeric⟩
    exact fun name op arg => (removed.run later others).not_selects name op arg

theorem removed_still_selected :
    let t := (sampleTable.put samplePlatform 7 [([1], .arr [.str [97]])]).1
    (t.remove samplePlatform 7).2 = 0 ∧ (t.remove samplePlatform 7).1.Selects [1] .neq (.str [97]) 7 :=
  ⟨rfl, {7}, by decide, by decide⟩

theorem removed_iff_sample :
    ¬ (((sampleTable.run samplePlatform [.put 8 [([1], .arr [.str [97]])]]).remove samplePlatform 7).1.run samplePlatform
      [.put 9 []]).Selects [1] .neq (.str [97]) 7 := by
  have created : init sampleSchema = some sampleTable := rfl
  have gone := (removed_iff samplePlatform created [.put 8 [([1], .arr [.str [97]])]] 7).mpr (.inl (by decide))
  exact gone [.put 9 []] (fun doc member => by cases member with | tail _ member => cases member) [1] .neq (.str [97])

end Myctk.Robims
