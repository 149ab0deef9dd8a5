import Myctk.Robims.BsiEviction
import Myctk.Robims.DatabaseRun

/-! What a put that ends with an error leaves (`RobimsTable::Put`). -/

namespace Myctk.Robims

open Finset Lib BitSliceIndex Robims.Field Prod Index Except
open Lib.Assoc

namespace BitSliceIndex

variable {b : BitSliceIndex} {id : UInt32} {val : Nat}

/-- The least of the numbers of the index and a new one. -/
def leastWith (b : BitSliceIndex) (val : Nat) : Nat := b.exist.fold min (val % 2 ^ b.bitDepth) b.value

/-- The limit of the index would take a new id with this number out again at once: the index is full, and the id is the first one
    with the number that `do_get_min` reads for the least one. -/
def Evicts (b : BitSliceIndex) (id : UInt32) (val : Nat) : Prop :=
  0 < b.options.limitTopK ∧ b.options.limitTopK ≤ b.exist.card ∧ (b.leastWith val).size < b.bitDepth ∧
    val % 2 ^ b.bitDepth = b.readMin (b.leastWith val) % 2 ^ b.bitDepth ∧
    ∀ j ∈ b.exist, b.value j = val % 2 ^ b.bitDepth → id ≤ j

/-- The index has the number for the id, or would not keep it. -/
def Already (b : BitSliceIndex) (id : UInt32) (val : Nat) : Prop :=
  if id ∈ b.exist then Spells b.row id b.bitDepth val else b.Evicts id val

lemma leastWith_le (b : BitSliceIndex) (val : Nat) :
    b.leastWith val ≤ val % 2 ^ b.bitDepth ∧ ∀ j ∈ b.exist, b.leastWith val ≤ b.value j :=
  (le_fold_min _).mp (le_refl (b.leastWith val))

lemma leastWith_mem (b : BitSliceIndex) (val : Nat) :
    b.leastWith val = val % 2 ^ b.bitDepth ∨ ∃ j ∈ b.exist, b.leastWith val = b.value j := by
  have le := (fold_min_le _).mp (le_refl (b.leastWith val))
  refine le.imp (fun least => le_antisymm (b.leastWith_le val).1 least) fun ⟨j, member, least⟩ => ⟨j, member, ?_⟩
  exact le_antisymm ((b.leastWith_le val).2 j member) least

lemma notMem_doPut_iff (whole : b.Whole) (new : id ∉ b.exist) (val : Nat) : id ∉ (b.doPut id val).1.exist ↔ b.Evicts id val := by
  have shaped := b.shaped_inserted id val
  have holds := whole.holds.inserted id val
  have ids := exist_inserted whole id val
  have self : Function.update b.doGet id (some (val % 2 ^ b.bitDepth)) id = some (val % 2 ^ b.bitDepth) := Function.update_self ..
  have other {j n} (member : j ∈ b.exist) : Function.update b.doGet id (some (val % 2 ^ b.bitDepth)) j = some n ↔ b.value j = n := by
    rw [Function.update_of_ne (ne_of_mem_of_not_mem member new), doGet_eq_some_iff, and_iff_right member]
  obtain ⟨first, attained⟩ : ∃ j, Function.update b.doGet id (some (val % 2 ^ b.bitDepth)) j = some (b.leastWith val) := by
    rcases b.leastWith_mem val with same | ⟨j, member, same⟩
    · exact ⟨id, same ▸ self⟩
    · exact ⟨j, (other member).mpr same.symm⟩
  have among {j n} (here : Function.update b.doGet id (some (val % 2 ^ b.bitDepth)) j = some n) : j ∈ insert id b.exist :=
    ids ▸ holds.mem_exist.mpr ⟨n, here⟩
  have out := notMem_doRemoveMin_iff holds attained (fun j n here => ?_) self
  · rw [doPut_of_new new, shaped.options, ids, card_insert_of_notMem new, Evicts]
    split_ifs with limited
    · rw [out, and_iff_right limited.1, and_iff_right (Nat.le_of_lt_succ limited.2), readMin, readMin, shaped.depth]
      refine and_congr_right fun _ => and_congr_right fun _ => ⟨fun least j member same => ?_, fun least j here => ?_⟩
      · exact least j ((other member).mpr same)
      · rcases mem_insert.mp (among here) with rfl | member
        · exact UInt32.le_refl _
        · exact least j member ((other member).mp here)
    · exact iff_of_false (not_not.mpr (ids ▸ mem_insert_self id _)) fun evicts => limited ⟨evicts.1, Nat.lt_succ_of_le evicts.2.1⟩
  · rcases mem_insert.mp (among here) with rfl | member
    · rw [self, Option.some.injEq] at here
      exact here ▸ (b.leastWith_le val).1
    · exact ((other member).mp here) ▸ (b.leastWith_le val).2 j member

lemma doPut_new (whole : b.Whole) (new : id ∉ b.exist) (val : Nat) : ∃ w : BitSliceIndex, w.Whole ∧ w.exist = insert id b.exist ∧
    (∀ j ≠ id, ∀ i, j ∈ w.row i ↔ j ∈ b.row i) ∧
      ((b.doPut id val).1 = w ∨ ∃ removed least, (b.doPut id val).1 = w.doRemove removed least) := by
  have wrote := wrote_foldl id val (whole.update 0 (insert id)) (le_refl b.bitDepth)
  refine ⟨b.inserted id val, wrote.whole, exist_inserted whole id val, fun j other i => ?_, ?_⟩
  · rw [inserted, wrote.others j i (.inl other), row, whole.bitmap_update zero_le, Function.update_of_ne (Nat.succ_ne_zero i)]
    rfl
  · rw [doPut_of_new new]
    split
    case isFalse => exact .inl rfl
    case isTrue =>
      rw [doRemoveMin]
      dsimp only
      split
      case isFalse => exact .inl rfl
      case isTrue =>
        split
        case h_1 removed _ => exact .inr ⟨removed, _, rfl⟩
        case h_2 => exact .inl rfl

lemma doPut_known (whole : b.Whole) (known : id ∈ b.exist) (val : Nat) : b.Wrote id val b.bitDepth (b.doPut id val).1 := by
  rw [doPut, if_neg (not_not_intro known)]
  exact (wrote_foldl_old id val whole (le_refl b.bitDepth)).1

lemma selectRange_of_already (whole : b.Whole) (already : b.Already id val) (op : FieldOperator) (expect : Nat) :
    selectRange (b.doPut id val).1 op expect = selectRange b op expect := by
  have depth := (b.shaped_doPut id val).depth
  rw [Already] at already
  split at already
  case isTrue known =>
    have wrote := doPut_known whole known val
    refine (selectRange_of_rows depth.symm wrote.ids.symm (fun i _ k lt => ?_) op expect).symm
    rcases eq_or_ne i id with rfl | other
    · rw [already k lt, wrote.written k lt]
    · exact (wrote.others i k (.inl other)).symm
  case isFalse new =>
    rw [← notMem_doPut_iff whole new] at already
    obtain ⟨w, whole', ids, rows, same | ⟨removed, least, same⟩⟩ := doPut_new whole new val
    · rw [same, ids] at already
      exact absurd (mem_insert_self id _) already
    · obtain ⟨exist', rows'⟩ := doRemove_spec whole' removed least
      -- the id that the limit takes out is the new one
      have self : removed = id := by
        by_contra other
        rw [same, exist', ids, mem_erase, not_and] at already
        exact already (Ne.symm other) (mem_insert_self id _)
      subst self
      have back : (b.doPut removed val).1.exist = b.exist := by rw [same, exist', ids, erase_insert new]
      refine (selectRange_of_rows depth.symm back.symm (fun i member k _ => ?_) op expect).symm
      have other : i ≠ removed := fun eq => new (eq ▸ member)
      rw [same, rows' i other, rows i other]

lemma already_of_selectRange (whole : b.Whole)
    (same : ∀ op, selectRange (b.doPut id val).1 op val = selectRange b op val) : b.Already id val := by
  have eq := ok.inj (same .eq)
  have neq : (b.doPut id val).1.exist \ (b.doPut id val).1.doRangeEQ val ∅ = b.exist \ b.doRangeEQ val ∅ := ok.inj (same .neq)
  rw [Already]
  split
  case isTrue known =>
    have wrote := doPut_known whole known val
    have found : id ∈ (b.doPut id val).1.doRangeEQ val ∅ := by
      rw [mem_doRangeEQ, wrote.ids, wrote.depth]
      exact ⟨known, wrote.written⟩
    rw [eq, mem_doRangeEQ] at found
    exact found.2
  case isFalse new =>
    rw [← notMem_doPut_iff whole new]
    intro there
    by_cases found : id ∈ (b.doPut id val).1.doRangeEQ val ∅
    · rw [eq, mem_doRangeEQ] at found
      exact new found.1
    · have left := mem_sdiff.mpr ⟨there, found⟩
      rw [neq, mem_sdiff] at left
      exact new left.1

end BitSliceIndex

lemma selectInt_same_iff {b : BitSliceIndex} (whole : b.Whole) {table : Bitmap} {id : UInt32} (v : Int) :
    (∀ op arg, (int (b.putInt id v)).select table op arg = (int b).select table op arg) ↔ b.Already id (b.options.toLocalVal v) := by
  have options : (b.putInt id v).options = b.options := (b.shaped_doPut id _).options
  refine ⟨fun same => already_of_selectRange whole fun op => ?_, fun already op arg => ?_⟩
  · have answer := same op (.int v)
    simp only [select, options] at answer
    exact answer
  · simp only [select, options]
    cases arg with
    | int v => exact selectRange_of_already whole already op _
    | _ => rfl

lemma selectFloat_same_iff {b : BitSliceIndex} (whole : b.Whole) {table : Bitmap} {id : UInt32} (v : Float) :
    (∀ op arg, (float (b.putFloat id v.toFloat32.toBits).1).select table op arg = (float b).select table op arg) ↔
      b.Already id (b.options.toLocalValFloat v.toFloat32.toBits) := by
  have options : (b.putFloat id v.toFloat32.toBits).1.options = b.options := (b.shaped_doPut id _).options
  refine ⟨fun same => already_of_selectRange whole fun op => ?_, fun already op arg => ?_⟩
  · have answer := same op (.double v)
    simp only [select, options] at answer
    exact answer
  · simp only [select, options]
    cases arg with
    | str s => rfl
    | _ => exact selectRange_of_already whole already op _

def leadingStrings : List Json → List Text
  | .str s :: xs => s :: leadingStrings xs
  | _ => []

def leadingNames : List (Text × Json) → List Text
  | (key, .num _ _) :: members => key :: leadingNames members
  | _ => []

/-- The names that `RobimsWeightSetField::Remove` takes from the id: those before the first one without a weight for it. -/
def weighing (id : UInt32) (bitmaps : List (Text × WeightBitmap)) (names : List Text) : List Text :=
  names.takeWhile fun name => ((get name bitmaps).bind fun w => get id w.idWeights).isSome

section
variable {id : UInt32} {v : Text}

lemma get_putStrings (xs : List Json) (bitmaps : List (Text × Bitmap)) : get v (putStrings id xs bitmaps).1 =
    if v ∈ leadingStrings xs then some (insert id (named bitmaps v)) else get v bitmaps := by
  induction xs generalizing bitmaps with
  | nil => rfl
  | cons x xs ih =>
    cases x with
    | str s =>
      rw [putStrings, ih, leadingStrings, named, putName, get_alter]
      rcases eq_or_ne s v with rfl | other
      · simp [named]
      · simp [other, Ne.symm other, named]
    | _ => rfl

lemma bitmap_putWeights (topkLimit : Int) (members : List (Text × Json)) (bitmaps : List (Text × WeightBitmap)) :
    (get v (putWeights topkLimit id members bitmaps).1).map (·.bitmap) =
      if v ∈ leadingNames members then some (insert id (weighted bitmaps v)) else (get v bitmaps).map (·.bitmap) := by
  induction members generalizing bitmaps with
  | nil => rfl
  | cons entry members ih =>
    obtain ⟨key, value⟩ := entry
    cases value with
    | num int weight =>
      rw [putWeights, ih, leadingNames, weighted, putWeight, get_alter]
      rcases eq_or_ne key v with rfl | other
      · cases found : get key bitmaps <;> simp [weighted, found, WeightBitmap.bitmap_put, WeightBitmap.empty]
      · simp [other, Ne.symm other, weighted]
    | _ => rfl

lemma weighing_alter {name : Text} {names : List Text} (fresh : name ∉ names) (g : Option WeightBitmap → WeightBitmap)
    (bitmaps : List (Text × WeightBitmap)) : weighing id (alter name g bitmaps) names = weighing id bitmaps names := by
  induction names with
  | nil => rfl
  | cons other names ih =>
    obtain ⟨differ, fresh⟩ := not_or.mp (mt List.mem_cons.mpr fresh)
    have rest := ih fresh
    rw [weighing, weighing] at rest ⊢
    rw [List.takeWhile_cons, List.takeWhile_cons, get_alter, if_neg differ, rest]

lemma bitmap_removeWeights {names : List Text} (nodup : names.Nodup) (bitmaps : List (Text × WeightBitmap)) :
    (get v (removeWeights id names bitmaps)).map (·.bitmap) =
      (get v bitmaps).map fun w => if v ∈ weighing id bitmaps names then w.bitmap.erase id else w.bitmap := by
  induction names generalizing bitmaps with
  | nil => rfl
  | cons name names ih =>
    obtain ⟨fresh, nodup⟩ := List.nodup_cons.mp nodup
    rw [removeWeights]
    split
    case h_1 absent =>
      have ends : weighing id bitmaps (name :: names) = [] := List.takeWhile_cons_of_neg (by rw [absent]; exact Bool.false_ne_true)
      simp [ends]
    case h_2 weight here =>
      obtain ⟨w, there, -⟩ := Option.bind_eq_some_iff.mp here
      have goes : weighing id bitmaps (name :: names) = name :: weighing id bitmaps names :=
        List.takeWhile_cons_of_pos (by rw [here]; rfl)
      rw [ih nodup, weighing_alter fresh, goes, get_alter]
      rcases eq_or_ne name v with rfl | other
      · -- a name is in the order once
        have once : name ∉ weighing id bitmaps names := fun member => fresh ((List.takeWhile_sublist _).mem member)
        simp [there, once, WeightBitmap.remove]
      · simp [other, Ne.symm other]

end

lemma selectNamed_same_iff {table : Bitmap} {find find' : Text → Option Bitmap} :
    (∀ op arg, selectNamed table op arg find' = selectNamed table op arg find) ↔ ∀ s, find' s = find s := by
  refine ⟨fun same s => ?_, fun same op arg => by rw [show find' = find from funext same]⟩
  have answer := same .eq (.str s)
  simp only [selectNamed, if_true] at answer
  cases found : find s <;> cases found' : find' s <;> rw [found, found'] at answer <;> cases answer
  all_goals rfl

lemma selectBool_same_iff {table bitmap bitmap' : Bitmap} :
    (∀ op arg, selectBool table bitmap' op arg = selectBool table bitmap op arg) ↔ bitmap' = bitmap :=
  ⟨fun same => ok.inj (same .eq (.int 1)), fun same _ _ => by rw [same]⟩

section
variable {id : UInt32}

lemma insert_erase_iff {ids : Bitmap} : insert id (ids.erase id) = ids ↔ id ∈ ids :=
  ⟨fun same => same ▸ mem_insert_self id _, insert_erase⟩

lemma putBool_same_iff {bitmap : Bitmap} {v : Bool} : putBool bitmap id v = bitmap ↔ (id ∈ bitmap ↔ v = true) := by
  rw [putBool]
  cases v with
  | true => simp [insert_erase_iff]
  | false => simp

lemma putStrings_same_iff (bitmaps : List (Text × Bitmap)) (xs : List Json) :
    (∀ name, get name (putStrings id xs (removeNames bitmaps id)).1 = get name bitmaps) ↔
      ∀ name, id ∈ named bitmaps name ↔ name ∈ leadingStrings xs := by
  refine forall_congr' fun name => ?_
  rw [get_putStrings, named, named, removeNames, get_mapValues]
  cases found : get name bitmaps <;> by_cases leads : name ∈ leadingStrings xs <;>
    simp [leads, insert_erase_iff]

lemma putWeights_same_iff (topkLimit : Int) {names : List Text} (nodup : names.Nodup) (bitmaps : List (Text × WeightBitmap))
    (members : List (Text × Json)) :
    (∀ name, (get name (putWeights topkLimit id members (removeWeights id names bitmaps)).1).map (·.bitmap) =
        (get name bitmaps).map (·.bitmap)) ↔ ∀ name, if name ∈ leadingNames members then id ∈ weighted bitmaps name
        else name ∈ weighing id bitmaps names → id ∉ weighted bitmaps name := by
  refine forall_congr' fun name => ?_
  rw [bitmap_putWeights, weighted, bitmap_removeWeights nodup, weighted]
  cases found : get name bitmaps <;> by_cases leads : name ∈ leadingNames members <;>
    by_cases weighs : name ∈ weighing id bitmaps names <;> simp [leads, weighs, insert_erase_iff]

end

def Field.Already (P : Platform) (f : Field) (id : UInt32) (value : Option Json) : Prop :=
  match f.info.indexType, f.index, value with
  | .bool, .bool bitmap, none => id ∉ bitmap
  | .bool, .bool bitmap, some (.bool v) => id ∈ bitmap ↔ v = true
  | .set, .set bitmaps, some (.arr xs) => ∀ name, id ∈ named bitmaps name ↔ name ∈ leadingStrings xs
  | .mutex, .set bitmaps, some (.str s) => ∀ name, id ∈ named bitmaps name ↔ name = s
  | .weightSet, .weightSet bitmaps, some (.obj members) => ∀ name,
    if name ∈ leadingNames members then id ∈ weighted bitmaps name
    else name ∈ weighing id bitmaps (P.order (bitmaps.map fst)) → id ∉ weighted bitmaps name
  | .int, .int bsi, some (.num (some v) _) => bsi.Already id (bsi.options.toLocalVal v)
  | .float, .float bsi, some (.num _ v) => bsi.Already id (bsi.options.toLocalValFloat v.toFloat32.toBits)
  | _, _, _ => True

def Json.isStr : Json → Bool
  | .str _ => true
  | _ => false

def Json.isNum : Json → Bool
  | .num _ _ => true
  | _ => false

def accepts (kind : IndexType) (value : Option Json) : Bool :=
  match kind, value with
  | _, none => true
  | .bool, some (.bool _) => true
  | .set, some (.arr xs) => xs.all Json.isStr
  | .mutex, some (.str _) => true
  | .weightSet, some (.obj members) => members.all fun e => e.2.isNum
  | .int, some (.num (some _) _) => true
  | .float, some (.num _ _) => true
  | _, _ => false

section
variable {P : Platform} {f : Field} {id : UInt32}

lemma ok_putStrings (xs : List Json) (bitmaps : List (Text × Bitmap)) : (putStrings id xs bitmaps).2 = xs.all Json.isStr := by
  induction xs generalizing bitmaps with
  | nil => rfl
  | cons x xs ih =>
    cases x with
    | str s => exact ih _
    | _ => rfl

lemma ok_putWeights (topkLimit : Int) (members : List (Text × Json)) (bitmaps : List (Text × WeightBitmap)) :
    (putWeights topkLimit id members bitmaps).2 = members.all fun e => e.2.isNum := by
  induction members generalizing bitmaps with
  | nil => rfl
  | cons entry members ih =>
    obtain ⟨key, value⟩ := entry
    cases value with
    | num int weight => exact ih _
    | _ => rfl

lemma Field.cases_typed {motive : Field → Prop} (typed : f.index.Typed f.info)
    (bool : ∀ info bitmap, info.indexType = .bool → motive ⟨info, .bool bitmap⟩)
    (set : ∀ info bitmaps, info.indexType = .set → motive ⟨info, .set bitmaps⟩)
    (mutex : ∀ info bitmaps, info.indexType = .mutex → motive ⟨info, .set bitmaps⟩)
    (weightSet : ∀ info bitmaps, info.indexType = .weightSet → (bitmaps.map fst).Nodup → motive ⟨info, .weightSet bitmaps⟩)
    (int : ∀ info bsi, info.indexType = .int → bsi.Whole → motive ⟨info, .int bsi⟩)
    (float : ∀ info bsi, info.indexType = .float → bsi.Whole → motive ⟨info, .float bsi⟩) : motive f := by
  obtain ⟨info, index⟩ := f
  obtain ⟨kind, nodup⟩ := typed
  have whole := whole_new (initOptions info)
  cases index with
  | set bitmaps => exact kind.elim (set info bitmaps) (mutex info bitmaps)
  | bool bitmap => exact bool info bitmap kind
  | weightSet bitmaps => exact weightSet info bitmaps kind nodup
  | int bsi => exact int info bsi kind.1 (kind.2.whole whole)
  | float bsi => exact float info bsi kind.1 (kind.2.whole whole)

lemma Field.ok_put (typed : f.index.Typed f.info) (value : Option Json) : (f.put P id value).2 = accepts f.info.indexType value := by
  refine cases_typed (motive := fun f => (f.put P id value).2 = accepts f.info.indexType value) typed
    (fun info bitmap kind => ?_) (fun info bitmaps kind => ?_) (fun info bitmaps kind => ?_) (fun info bitmaps kind _ => ?_)
    (fun info bsi kind _ => ?_) (fun info bsi kind _ => ?_)
  all_goals
    unfold put accepts
    rw [kind]
    rcases value with _ | _ | v | ⟨_ | v, double⟩ | s | xs | members
  case refine_2.some.arr => exact ok_putStrings xs _
  case refine_4.some.obj => exact ok_putWeights _ members _
  all_goals rfl

lemma Field.select_put_iff (typed : f.index.Typed f.info) (table : Bitmap) (value : Option Json) :
    (∀ op arg, (f.put P id value).1.index.select table op arg = f.index.select table op arg) ↔ f.Already P id value := by
  refine cases_typed
    (motive := fun f => (∀ op arg, (f.put P id value).1.index.select table op arg = f.index.select table op arg) ↔ f.Already P id value)
    typed (fun info bitmap kind => ?_) (fun info bitmaps kind => ?_) (fun info bitmaps kind => ?_) (fun info bitmaps kind nodup => ?_)
    (fun info bsi kind whole => ?_) (fun info bsi kind whole => ?_)
  all_goals
    unfold put Already
    rw [kind]
    rcases value with _ | _ | v | ⟨_ | v, double⟩ | s | xs | members
  case refine_1.none => exact selectBool_same_iff.trans (putBool_same_iff.trans (by simp))
  case refine_1.some.bool => exact selectBool_same_iff.trans putBool_same_iff
  case refine_2.some.arr => exact selectNamed_same_iff.trans (putStrings_same_iff bitmaps xs)
  case refine_3.some.str =>
    exact selectNamed_same_iff.trans ((putStrings_same_iff bitmaps [.str s]).trans (by simp [leadingStrings]))
  case refine_4.some.obj =>
    exact selectNamed_same_iff.trans (putWeights_same_iff _ ((P.order_perm _).nodup_iff.mpr nodup) bitmaps members)
  case refine_5.some.num.some => exact selectInt_same_iff whole v
  case refine_6.some.num.none => exact selectFloat_same_iff whole double
  case refine_6.some.num.some => exact selectFloat_same_iff whole double
  all_goals exact iff_of_true (fun _ _ => rfl) trivial

end

namespace Table

/-- Each field has an index of its kind. -/
structure WellTyped (t : Table) : Prop where
  nodup : (t.fields.map fst).Nodup
  typed : ∀ e ∈ t.fields, e.2.index.Typed e.2.info

def SameAs (t t' : Table) : Prop := t'.idBitmap = t.idBitmap ∧ ∀ name op arg, t'.select name op arg = t.select name op arg

def Takes (doc : Doc) (e : Text × Field) : Bool := accepts e.2.info.indexType (get e.1 doc)

def reached (doc : Doc) : List (Text × Field) → List (Text × Field)
  | [] => []
  | e :: fields => e :: if Takes doc e then reached doc fields else []

section
variable {P : Platform} {id : UInt32} {doc : Doc} {fields : List (Text × Field)} {name : Text}

lemma reached_subset : reached doc fields ⊆ fields := by
  induction fields with
  | nil => exact List.Subset.refl _
  | cons e fields ih =>
    rw [reached]
    refine List.cons_subset_cons e ?_
    split
    · exact ih
    · exact List.nil_subset _

lemma putFields_cons (e : Text × Field) (typed : e.2.index.Typed e.2.info) : putFields P id doc (e :: fields) =
    ((e.1, (e.2.put P id (get e.1 doc)).1) :: if Takes doc e then (putFields P id doc fields).1 else fields,
      Takes doc e && (putFields P id doc fields).2) := by
  obtain ⟨name, f⟩ := e
  have ok : (f.put P id (get name doc)).2 = Takes doc (name, f) := ok_put typed _
  rw [putFields, ← ok]
  cases f.put P id (get name doc) with
  | mk f' done => cases done <;> rfl

lemma ok_putFields (typed : ∀ e ∈ fields, e.2.index.Typed e.2.info) : (putFields P id doc fields).2 = fields.all (Takes doc) := by
  induction fields with
  | nil => rfl
  | cons e fields ih =>
    rw [putFields_cons e (typed e List.mem_cons_self), List.all_cons, ih fun e member => typed e (List.mem_cons_of_mem _ member)]

lemma names_putFields (P : Platform) (id : UInt32) (doc : Doc) (typed : ∀ e ∈ fields, e.2.index.Typed e.2.info) :
    (putFields P id doc fields).1.map fst = fields.map fst := by
  induction fields with
  | nil => rfl
  | cons e fields ih =>
    rw [putFields_cons e (typed e List.mem_cons_self), List.map_cons, List.map_cons]
    refine congrArg (List.cons e.1) ?_
    split
    · exact ih fun e member => typed e (List.mem_cons_of_mem _ member)
    · rfl

lemma mem_putFields (typed : ∀ e ∈ fields, e.2.index.Typed e.2.info) {e' : Text × Field} (member : e' ∈ (putFields P id doc fields).1) :
    (∃ e ∈ reached doc fields, e' = (e.1, (e.2.put P id (get e.1 doc)).1)) ∨ e' ∈ fields := by
  induction fields with
  | nil => cases member
  | cons e fields ih =>
    rw [putFields_cons e (typed e List.mem_cons_self)] at member
    rw [reached]
    rcases List.mem_cons.mp member with rfl | later
    · exact .inl ⟨e, List.mem_cons_self, rfl⟩
    · split at later
      case isFalse => exact .inr (List.mem_cons_of_mem _ later)
      case isTrue takes =>
        rw [if_pos takes]
        rcases ih (fun e member => typed e (List.mem_cons_of_mem _ member)) later with ⟨f, here, same⟩ | stays
        · exact .inl ⟨f, List.mem_cons_of_mem _ here, same⟩
        · exact .inr (List.mem_cons_of_mem _ stays)

lemma put_mem_putFields (typed : ∀ e ∈ fields, e.2.index.Typed e.2.info) {e : Text × Field} (member : e ∈ reached doc fields) :
    (e.1, (e.2.put P id (get e.1 doc)).1) ∈ (putFields P id doc fields).1 := by
  induction fields with
  | nil => cases member
  | cons e' fields ih =>
    rw [putFields_cons e' (typed e' List.mem_cons_self)]
    rw [reached] at member
    rcases List.mem_cons.mp member with rfl | later
    · exact List.mem_cons_self
    · split at later
      case isFalse => cases later
      case isTrue takes =>
        rw [if_pos takes]
        exact List.mem_cons_of_mem _ (ih (fun e member => typed e (List.mem_cons_of_mem _ member)) later)

end

section
variable {P : Platform} {t : Table} {id : UInt32} {doc : Doc}

lemma select_of_get {name : Text} {f : Field} (found : get name t.fields = some f) (op : FieldOperator) (arg : FieldArg) :
    t.select name op arg = f.index.select t.idBitmap op arg := by
  rw [select, found]

lemma WellTyped.sameAs_put_iff (wellTyped : t.WellTyped) : t.SameAs (t.put P id doc).1 ↔
    id ∈ t.idBitmap ∧ ∀ e ∈ reached doc t.fields, e.2.Already P id (get e.1 doc) := by
  have typed : ∀ e ∈ reached doc t.fields, e.2.index.Typed e.2.info := fun e member => wellTyped.typed e (reached_subset member)
  have names := names_putFields P id doc wellTyped.typed
  have nodup : ((putFields P id doc t.fields).1.map fst).Nodup := by
    rw [names]
    exact wellTyped.nodup
  -- what a field that is looked at answers before and after
  have before : ∀ e ∈ reached doc t.fields, ∀ op arg, t.select e.1 op arg = e.2.index.select t.idBitmap op arg :=
    fun e member => select_of_get (get_of_mem wellTyped.nodup (reached_subset member))
  have after : ∀ e ∈ reached doc t.fields, ∀ op arg, (t.put P id doc).1.select e.1 op arg =
      (e.2.put P id (get e.1 doc)).1.index.select (insert id t.idBitmap) op arg :=
    fun e member => select_of_get (t := (t.put P id doc).1) (get_of_mem nodup (put_mem_putFields wellTyped.typed member))
  refine ⟨fun ⟨ids, answers⟩ => ?_, fun ⟨known, already⟩ => ?_⟩
  · have known : id ∈ t.idBitmap := insert_eq_self.mp ids
    refine ⟨known, fun e member => (select_put_iff (typed e member) t.idBitmap _).mp fun op arg => ?_⟩
    have answer := answers e.1 op arg
    rw [after e member, before e member, insert_eq_self.mpr known] at answer
    exact answer
  · have ids := insert_eq_self.mpr known
    refine ⟨ids, fun name op arg => ?_⟩
    cases found : get name (putFields P id doc t.fields).1 with
    | none =>
      have absent : get name t.fields = none := by
        rw [← Option.not_isSome_iff_eq_none, isSome_get, ← names, ← isSome_get, found]
        exact Bool.false_ne_true
      rw [select, select, absent, show get name (t.put P id doc).1.fields = none from found]
    | some f' =>
      rcases mem_putFields wellTyped.typed (mem_of_get found) with ⟨e, member, same⟩ | stays
      · obtain ⟨rfl, -⟩ := Prod.mk.inj same
        rw [after e member, before e member, insert_eq_self.mpr known]
        exact (select_put_iff (typed e member) t.idBitmap _).mpr (already e member) op arg
      · rw [select_of_get (get_of_mem wellTyped.nodup stays), ← ids]
        exact select_of_get (t := (t.put P id doc).1) found op arg

lemma WellTyped.put_error_iff (wellTyped : t.WellTyped) : (t.put P id doc).2 ≠ 0 ↔ ∃ e ∈ t.fields, ¬ Takes doc e := by
  have code : (t.put P id doc).2 = if (putFields P id doc t.fields).2 then 0 else -1 := rfl
  rw [code, ok_putFields wellTyped.typed]
  by_cases all : t.fields.all (Takes doc) = true
  · rw [if_pos all]
    refine iff_of_false (fun error => error rfl) fun ⟨e, member, rejects⟩ => rejects (List.all_eq_true.mp all e member)
  · rw [if_neg all]
    refine iff_of_true (by decide) ?_
    rw [List.all_eq_true] at all
    push Not at all
    exact all

lemma wellTyped_init {schema : TableSchema} (created : init schema = some t) : t.WellTyped := by
  have typed := init_induction (motive := fun _ fields => (fields.map fst).Nodup ∧ ∀ e ∈ fields, e.2.index.Typed e.2.info)
    (fun _ before info f here made => ?_) ⟨List.nodup_nil, fun _ none => nomatch none⟩ created
  · exact ⟨typed.2.2.1, typed.2.2.2⟩
  · obtain ⟨rfl, typed⟩ := typed_build made
    have nodup := nodup_alter here.1 (k := f.info.name) fun _ => f
    refine ⟨nodup, fun e member => ?_⟩
    have found := get_of_mem nodup member
    rw [get_alter] at found
    split at found
    · cases found
      exact typed
    · exact here.2 e (mem_of_get found)

lemma WellTyped.put (wellTyped : t.WellTyped) : (t.put P id doc).1.WellTyped := by
  refine ⟨?_, fun e' member => ?_⟩
  · show ((putFields P id doc t.fields).1.map fst).Nodup
    rw [names_putFields P id doc wellTyped.typed]
    exact wellTyped.nodup
  · rcases mem_putFields wellTyped.typed member with ⟨e, reaches, rfl⟩ | stays
    · show (e.2.put P id _).1.index.Typed (e.2.put P id _).1.info
      rw [put_info]
      exact (put_step P e.2 id _).typed (wellTyped.typed e (reached_subset reaches))
    · exact wellTyped.typed e' stays

end

end Table

/-- A put that ends with an error leaves the table as it was just if the table had the id and all the fields that the put came
    to had what the document says of them. -/
theorem put_error_keeps_iff (P : Platform) {t : Table} (wellTyped : t.WellTyped) (id : UInt32) (doc : Doc) :
    ((t.put P id doc).2 ≠ 0 → t.SameAs (t.put P id doc).1) ↔
      (∀ e ∈ t.fields, Table.Takes doc e) ∨
        (id ∈ t.idBitmap ∧ ∀ e ∈ Table.reached doc t.fields, e.2.Already P id (get e.1 doc)) := by
  rw [wellTyped.put_error_iff, wellTyped.sameAs_put_iff, imp_iff_not_or]
  push Not
  rfl

def taggedTable : Table := (sampleTable.put samplePlatform 7 [([1], .arr [.str [97]])]).1

theorem failed_put_loses_value : (taggedTable.put samplePlatform 7 [([1], .arr [.str [98], .num (some 1) 1])]).2 = -1 ∧
    taggedTable.Selects [1] .eq (.str [97]) 7 ∧
      ¬ (taggedTable.put samplePlatform 7 [([1], .arr [.str [98], .num (some 1) 1])]).1.Selects [1] .eq (.str [97]) 7 := by
  refine ⟨rfl, ⟨{7}, rfl, mem_singleton_self 7⟩, fun ⟨ids, answer, member⟩ => ?_⟩
  cases answer
  revert member
  decide

theorem put_error_keeps_iff_tagged : taggedTable.WellTyped ∧
    ((taggedTable.put samplePlatform 7 [([1], .arr [.str [97], .num (some 1) 1])]).2 ≠ 0 →
      taggedTable.SameAs (taggedTable.put samplePlatform 7 [([1], .arr [.str [97], .num (some 1) 1])]).1) := by
  have created : Table.init sampleSchema = some sampleTable := rfl
  have wellTyped : taggedTable.WellTyped := (Table.wellTyped_init created).put
  refine ⟨wellTyped, (put_error_keeps_iff samplePlatform wellTyped 7 _).mpr (.inr ⟨by decide, fun e member => ?_⟩)⟩
  -- the first field is the only one that is looked at
  obtain rfl := List.mem_singleton.mp (show e ∈ [([1], ⟨sampleField [1] .set, .set [([97], {7})]⟩)] from member)
  intro name
  show 7 ∈ named [([97], {7})] name ↔ name ∈ [[97]]
  rw [named, Lib.Assoc.get, List.mem_singleton]
  split
  case isTrue same => simp [← same]
  case isFalse other => simpa [Lib.Assoc.get] using Ne.symm other

end Myctk.Robims
