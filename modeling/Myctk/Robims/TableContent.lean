import Myctk.Robims.TableRemove

/-! What a table answers as a function of its current documents. -/

namespace Myctk.Robims

open Except Option Function Prod BitSliceIndex
open Finset Lib Index BitSliceIndex Robims.Field
open Lib.Assoc hiding set
open List hiding map map_cons set

def Carries (kind : IndexType) (value : Option Json) (v : Text) : Prop :=
  match kind, value with
  | .set, some (.arr xs) => .str v ∈ xs
  | .mutex, some (.str s) => v = s
  | .weightSet, some (.obj members) => v ∈ members.map fst
  | _, _ => False

def measured (info : FieldMeta) (value : Option Json) : Option Nat :=
  match info.indexType, value with
  | .int, some (.num (some v) _) => some ((initOptions info).toLocalVal v)
  | .float, some (.num _ v) => some ((initOptions info).toLocalValFloat v.toFloat32.toBits)
  | _, _ => none

lemma not_carries_none (kind : IndexType) (v : Text) : ¬ Carries kind none v := by
  cases kind <;> exact id

lemma measured_none (info : FieldMeta) : measured info none = none := by
  cases kind : info.indexType <;> simp [measured, kind]

structure Names (kind : IndexType) (value : UInt32 → Option Json) (find : Text → Option Bitmap) : Prop where
  mem : ∀ v i, i ∈ (find v).getD ∅ ↔ Carries kind (value i) v
  used : ∀ v, (find v).isSome → ∃ i, Carries kind (value i) v

section
variable {kind : IndexType} {value : UInt32 → Option Json} {find find' : Text → Option Bitmap} {id : UInt32} {x : Option Json}

lemma Names.unique (names : Names kind value find) (names' : Names kind value find') : find = find' := by
  have sets : ∀ v, (find v).getD ∅ = (find' v).getD ∅ := fun v => ext fun i => (names.mem v i).trans (names'.mem v i).symm
  -- a name without a bitmap is in no document, so that it has none in the other table either
  have absent : ∀ {find1 find2 : Text → Option Bitmap}, Names kind value find1 → Names kind value find2 → ∀ v,
      find1 v = none → find2 v = none := by
    intro find1 find2 names1 names2 v none
    by_contra some
    obtain ⟨i, carries⟩ := names2.used v (isSome_iff_ne_none.mpr some)
    have member := (names1.mem v i).mpr carries
    rw [none] at member
    exact notMem_empty i member
  funext v
  cases first : find v with
  | none => exact (absent names names' v first).symm
  | some ids =>
    cases second : find' v with
    | none =>
      rw [absent names' names v second] at first
      cases first
    | some ids' =>
      have same := sets v
      rw [first, second] at same
      exact congrArg some same

lemma Names.put (names : Names kind value find)
    (mem : ∀ v i, i ∈ (find' v).getD ∅ ↔ (i = id ∧ Carries kind x v) ∨ (i ≠ id ∧ i ∈ (find v).getD ∅))
    (keys : ∀ v, (find' v).isSome → Carries kind x v ∨ (find v).isSome)
    (tidy : ∀ v, id ∈ (find v).getD ∅ → Carries kind x v ∨ ∃ j ≠ id, j ∈ (find v).getD ∅) : Names kind (update value id x) find' := by
  have own : ∀ v, Carries kind x v → ∃ i, Carries kind (update value id x i) v :=
    fun v carries => ⟨id, by rw [update_self]; exact carries⟩
  have other : ∀ v j, j ≠ id → Carries kind (value j) v → ∃ i, Carries kind (update value id x i) v :=
    fun v j different carries => ⟨j, by rw [update_of_ne different]; exact carries⟩
  refine ⟨fun v i => ?_, fun v there => ?_⟩
  · rw [mem]
    rcases eq_or_ne i id with rfl | different
    · rw [update_self]
      simp
    · rw [update_of_ne different, ← names.mem]
      simp [different]
  · rcases keys v there with carries | before
    · exact own v carries
    · obtain ⟨j, carries⟩ := names.used v before
      rcases eq_or_ne j id with rfl | different
      · rcases tidy v ((names.mem v j).mpr carries) with kept | ⟨k, different, member⟩
        · exact own v kept
        · exact other v k different ((names.mem v k).mp member)
      · exact other v j different carries

lemma Names.absent (names : Names kind value find) (tidy : ∀ v, id ∉ (find v).getD ∅) : Names kind (update value id none) find := by
  refine names.put (fun v i => ?_) (fun v there => .inr there) (fun v member => absurd member (tidy v))
  constructor
  · exact fun member => .inr ⟨fun same => tidy v (same ▸ member), member⟩
  · rintro (⟨-, carries⟩ | ⟨-, member⟩)
    · exact absurd carries (not_carries_none kind v)
    · exact member

end

def weighted (bitmaps : List (Text × WeightBitmap)) (v : Text) : Bitmap := ((get v bitmaps).map (·.bitmap)).getD ∅

section
variable {id j : UInt32} {v name : Text} {bitmaps bitmaps' : List (Text × WeightBitmap)}

lemma weighted_alter (g : Option WeightBitmap → WeightBitmap) :
    weighted (alter name g bitmaps) v = if name = v then (g (get name bitmaps)).bitmap else weighted bitmaps v := by
  rw [weighted, get_alter]
  split <;> rfl

lemma mem_weighted_erase {w : WeightBitmap} (there : get name bitmaps = some w) (id weight j : UInt32) (v : Text) :
    j ∈ weighted (alter name (fun found => (found.getD .empty).remove id weight) bitmaps) v ↔
      j ∈ weighted bitmaps v ∧ ¬ (j = id ∧ v = name) := by
  rw [weighted_alter]
  split
  case isTrue same =>
    subst same
    rw [weighted, there]
    show j ∈ w.bitmap.erase id ↔ j ∈ w.bitmap ∧ _
    rw [mem_erase]
    tauto
  case isFalse other => simp [Ne.symm other]

structure WeightsRemoved (id : UInt32) (names : List Text) (bitmaps bitmaps' : List (Text × WeightBitmap)) : Prop where
  keys : bitmaps'.map fst = bitmaps.map fst
  others : ∀ v, ∀ j ≠ id, j ∈ weighted bitmaps' v ↔ j ∈ weighted bitmaps v
  fewer : ∀ v, weighted bitmaps' v ⊆ weighted bitmaps v
  all : names.Nodup → (∀ v ∈ names, ∃ w, get v bitmaps = some w ∧ (get id w.idWeights).isSome) →
    ∀ v ∈ names, id ∉ weighted bitmaps' v

lemma removeWeights_spec (id : UInt32) (names : List Text) (bitmaps : List (Text × WeightBitmap)) :
    WeightsRemoved id names bitmaps (removeWeights id names bitmaps) := by
  induction names generalizing bitmaps with
  | nil => exact ⟨rfl, fun _ _ _ => Iff.rfl, fun _ => Subset.rfl, fun _ _ v none => (nomatch none)⟩
  | cons name names ih =>
    rw [removeWeights]
    split
    case h_1 absent =>
      refine ⟨rfl, fun _ _ _ => Iff.rfl, fun _ => Subset.rfl, fun _ present => ?_⟩
      obtain ⟨w, there, weight⟩ := present name mem_cons_self
      rw [there, bind_some] at absent
      rw [absent] at weight
      cases weight
    case h_2 weight here =>
      obtain ⟨w, there, -⟩ := bind_eq_some_iff.mp here
      have step := mem_weighted_erase there id weight
      have rest := ih (alter name (fun found => (found.getD .empty).remove id weight) bitmaps)
      refine ⟨rest.keys.trans ?_, fun v j other => ?_, fun v j member => ?_, fun nodup present v member => ?_⟩
      · rw [map_fst_alter, if_pos (isSome_get.mp (by rw [there]; rfl))]
      · rw [rest.others v j other, step]
        exact and_iff_left fun same => other same.1
      · exact ((step _ _).mp (rest.fewer v member)).1
      · obtain ⟨fresh, nodup⟩ := nodup_cons.mp nodup
        rcases mem_cons.mp member with rfl | later
        · exact fun inside => ((step _ _).mp (rest.fewer v inside)).2 ⟨rfl, rfl⟩
        · refine rest.all nodup (fun u other => ?_) v later
          obtain ⟨w', there', weight'⟩ := present u (mem_cons_of_mem _ other)
          refine ⟨w', ?_, weight'⟩
          rw [get_alter, if_neg (fun same : name = u => fresh (same ▸ other)), there']

lemma putWeights_spec {topkLimit : Int} {members : List (Text × Json)}
    (ok : putWeights topkLimit id members bitmaps = (bitmaps', true)) (nodup : (bitmaps.map fst).Nodup) :
    (bitmaps'.map fst).Nodup ∧ (∀ v j, j ∈ weighted bitmaps' v ↔ (j = id ∧ v ∈ members.map fst) ∨ j ∈ weighted bitmaps v) ∧
      ∀ v, (get v bitmaps').isSome → v ∈ members.map fst ∨ (get v bitmaps).isSome := by
  induction members generalizing bitmaps with
  | nil =>
    cases ok
    exact ⟨nodup, fun v j => by simp, fun v there => .inr there⟩
  | cons entry members ih =>
    obtain ⟨key, value⟩ := entry
    cases value with
    | num int weight =>
      rw [putWeights] at ok
      obtain ⟨nodup', mem, keys⟩ := ih ok (nodup_alter nodup _)
      refine ⟨nodup', fun v j => ?_, fun v there => ?_⟩
      · rw [mem, putWeight, weighted_alter, List.map_cons, List.mem_cons]
        split
        case isTrue same =>
          subst same
          rw [WeightBitmap.bitmap_put, mem_insert, weighted]
          cases get key bitmaps <;> simp [WeightBitmap.empty] <;> tauto
        case isFalse other => simp [Ne.symm other]
      · rw [List.map_cons, List.mem_cons]
        rcases keys v there with later | before
        · exact .inl (.inr later)
        · rw [putWeight, get_alter] at before
          split at before
          case isTrue same => exact .inl (.inl same.symm)
          case isFalse => exact .inr before
    | _ => cases ok

end

section
variable {b b' : BitSliceIndex} {m : UInt32 → Option Nat}

lemma selectRange_of_rows (depth : b.bitDepth = b'.bitDepth) (ids : b.exist = b'.exist)
    (rows : ∀ i ∈ b.exist, ∀ k < b.bitDepth, i ∈ b.row k ↔ i ∈ b'.row k) (op : FieldOperator) (expect : Nat) :
    selectRange b op expect = selectRange b' op expect := by
  -- outside of the ids that have a value there is nothing in either answer
  have agree : ∀ {s s' : Bitmap}, s ⊆ b.exist → s' ⊆ b'.exist → (∀ i ∈ b.exist, i ∈ s ↔ i ∈ s') → s = s' := by
    intro s s' inside inside' same
    refine ext fun i => ?_
    by_cases member : i ∈ b.exist
    · exact same i member
    · exact iff_of_false (fun here => member (inside here)) (fun here => member (ids ▸ inside' here))
  have start : ∀ {b : BitSliceIndex}, b.restrict ∅ ⊆ b.exist := fun {b} => by rw [b.restrict_empty]
  have starts : ∀ i, i ∈ b.restrict ∅ ↔ i ∈ b'.restrict ∅ := fun i => by rw [b.restrict_empty, b'.restrict_empty, ids]
  have eq : b.doRangeEQ expect ∅ = b'.doRangeEQ expect ∅ := by
    refine agree ((b.rangeEQLoop_subset _ _ _).trans start) ((b'.rangeEQLoop_subset _ _ _).trans start) fun i member => ?_
    rw [doRangeEQ, doRangeEQ, ← depth]
    exact mem_rangeEQLoop_congr expect (rows i member) (starts i)
  have lt : ∀ allowEq, b.doRangeLT expect allowEq ∅ = b'.doRangeLT expect allowEq ∅ := by
    intro allowEq
    refine agree (b.rangeLTLoop_subset _ _ _ _ start (empty_subset _))
      (b'.rangeLTLoop_subset _ _ _ _ start (empty_subset _)) fun i member => ?_
    rw [doRangeLT, doRangeLT, ← depth]
    exact mem_rangeLTLoop_congr expect allowEq true (rows i member) (starts i) Iff.rfl
  have gt : ∀ allowEq, b.doRangeGT expect allowEq ∅ = b'.doRangeGT expect allowEq ∅ := by
    intro allowEq
    refine agree (b.rangeGTLoop_subset _ _ _ start (empty_subset _))
      (b'.rangeGTLoop_subset _ _ _ start (empty_subset _)) fun i member => ?_
    rw [doRangeGT, doRangeGT, ← depth]
    exact mem_rangeGTLoop_congr expect allowEq (rows i member) (starts i) Iff.rfl
  cases op with
  | eq => exact congrArg ok eq
  | neq => exact congrArg ok (by rw [doRangeNEQ, doRangeNEQ, ids, eq])
  | lt => exact congrArg ok (lt false)
  | lte => exact congrArg ok (lt true)
  | gt => exact congrArg ok (gt false)
  | gte => exact congrArg ok (gt true)
  | between => rfl
  | all => rfl

lemma selectRange_congr (holds : b.Holds m) (holds' : b'.Holds m) (depth : b.bitDepth = b'.bitDepth) (op : FieldOperator)
    (expect : Nat) : selectRange b op expect = selectRange b' op expect := by
  have ids : b.exist = b'.exist := ext fun i => (holds.ids i).trans (holds'.ids i).symm
  refine selectRange_of_rows depth ids (fun i member k lt => ?_) op expect
  obtain ⟨v, found⟩ := isSome_iff_exists.mp ((holds.ids i).mp member)
  rw [holds.spells i v found k lt, holds'.spells i v found k (depth ▸ lt)]

end

structure Numbers (info : FieldMeta) (value : UInt32 → Option Json) (b : BitSliceIndex) : Prop where
  options : b.options = initOptions info
  depth : b.bitDepth = (initOptions info).bitDepth
  holds : b.Holds fun i => (measured info (value i)).map (· % 2 ^ b.bitDepth)

section
variable {info : FieldMeta} {value : UInt32 → Option Json} {b b' : BitSliceIndex} {id : UInt32} {x : Option Json}

lemma numbers_init (info : FieldMeta) : Numbers info (fun _ => none) (.init info) := by
  refine ⟨rfl, rfl, ?_⟩
  simp only [measured_none]
  exact holds_new _

lemma Numbers.update (numbers : Numbers info value b) (shaped : b.Shaped b')
    (holds : b'.Holds (update (fun i => (measured info (value i)).map (· % 2 ^ b.bitDepth)) id
      ((measured info x).map (· % 2 ^ b.bitDepth)))) : Numbers info (update value id x) b' := by
  refine ⟨shaped.options.trans numbers.options, shaped.depth.trans numbers.depth, ?_⟩
  rw [shaped.depth]
  convert holds using 1
  funext i
  rcases eq_or_ne i id with rfl | other
  · rw [update_self, update_self]
  · rw [update_of_ne other, update_of_ne other]

lemma Numbers.put (numbers : Numbers info value b) (room : b.Room id) {val : Nat} (new : measured info x = some val) :
    Numbers info (Function.update value id x) (b.doPut id val).1 := by
  refine numbers.update (b.shaped_doPut id val) ?_
  rw [new]
  exact (numbers.holds.doPut id val room).1

lemma Numbers.absent (numbers : Numbers info value b) (none : measured info x = none) (tidy : id ∉ b.exist) :
    Numbers info (Function.update value id x) b := by
  refine numbers.update (.refl b) ?_
  rw [none, update_eq_self_iff.mpr]
  · exact numbers.holds
  · rw [numbers.holds.ids, not_isSome_iff_eq_none] at tidy
    exact tidy.symm

end

/-- The index of a field has what the documents say, where `value` is their member for the field. -/
def Mirrors (info : FieldMeta) (value : UInt32 → Option Json) (index : Index) : Prop :=
  match info.indexType with
  | .set => ∃ bitmaps, index = .set bitmaps ∧ Names .set value fun v => get v bitmaps
  | .mutex => ∃ bitmaps, index = .set bitmaps ∧ Names .mutex value fun v => get v bitmaps
  | .bool => ∃ bitmap, index = .bool bitmap ∧ ∀ i, i ∈ bitmap ↔ value i = some (.bool true)
  | .weightSet => ∃ bitmaps, index = .weightSet bitmaps ∧ (bitmaps.map fst).Nodup ∧
      Names .weightSet value fun v => (get v bitmaps).map (·.bitmap)
  | .int => ∃ bsi, index = .int bsi ∧ Numbers info value bsi
  | .float => ∃ bsi, index = .float bsi ∧ Numbers info value bsi
  | .unknown => False

def Index.Tidy (kind : IndexType) (id : UInt32) (value : Option Json) : Index → Prop
  | .set bitmaps => ∀ v, id ∈ named bitmaps v →
      value.isSome ∧ (Carries kind value v ∨ ∃ j ≠ id, j ∈ named bitmaps v)
  | .bool _ => True
  | .weightSet bitmaps =>
      (∀ v, id ∈ weighted bitmaps v → Carries kind value v) ∨
        (value.isSome ∧ ∀ v w, get v bitmaps = some w →
          (get id w.idWeights).isSome ∧ (Carries kind value v ∨ ∃ j ≠ id, j ∈ w.bitmap))
  | .int bsi => if value.isSome then bsi.Room id else id ∉ bsi.exist
  | .float bsi => if value.isSome then bsi.Room id else id ∉ bsi.exist

section
variable {P : Platform} {info : FieldMeta} {value : UInt32 → Option Json} {index index' : Index} {f' : Field} {id : UInt32}
  {x : Option Json}

lemma mirrors_build {f : Field} (built : build info = some f) : f.info = info ∧ Mirrors info (fun _ => none) f.index := by
  have names : ∀ kind, Names kind (fun _ => none) fun _ => none := fun kind =>
    ⟨fun v i => iff_of_false (notMem_empty i) (not_carries_none kind v), fun v none => (nomatch none)⟩
  unfold build at built
  cases kind : info.indexType <;> rw [kind] at built <;> cases built <;> refine ⟨rfl, ?_⟩ <;> unfold Mirrors <;> rw [kind]
  case set => exact ⟨[], rfl, names .set⟩
  case mutex => exact ⟨[], rfl, names .mutex⟩
  case bool => exact ⟨∅, rfl, fun i => by simp⟩
  case weightSet => exact ⟨[], rfl, nodup_nil, names .weightSet⟩
  case int => exact ⟨_, rfl, numbers_init info⟩
  case float => exact ⟨_, rfl, numbers_init info⟩

lemma Mirrors.select_eq (mirrors : Mirrors info value index) (mirrors' : Mirrors info value index') (table : Bitmap)
    (op : FieldOperator) (arg : FieldArg) : index.select table op arg = index'.select table op arg := by
  unfold Mirrors at mirrors mirrors'
  have ranges : ∀ {b b' : BitSliceIndex}, Numbers info value b → Numbers info value b' → ∀ expect,
      selectRange b op expect = selectRange b' op expect := by
    intro b b' numbers numbers' expect
    have depth : b.bitDepth = b'.bitDepth := numbers.depth.trans numbers'.depth.symm
    exact selectRange_congr numbers.holds (depth ▸ numbers'.holds) depth op expect
  cases kind : info.indexType <;> simp only [kind] at mirrors mirrors'
  case set =>
    obtain ⟨bitmaps, rfl, names⟩ := mirrors
    obtain ⟨bitmaps', rfl, names'⟩ := mirrors'
    exact congrArg (selectNamed table op arg) (names.unique names')
  case mutex =>
    obtain ⟨bitmaps, rfl, names⟩ := mirrors
    obtain ⟨bitmaps', rfl, names'⟩ := mirrors'
    exact congrArg (selectNamed table op arg) (names.unique names')
  case bool =>
    obtain ⟨bitmap, rfl, mem⟩ := mirrors
    obtain ⟨bitmap', rfl, mem'⟩ := mirrors'
    rw [show bitmap = bitmap' from ext fun i => (mem i).trans (mem' i).symm]
  case weightSet =>
    obtain ⟨bitmaps, rfl, -, names⟩ := mirrors
    obtain ⟨bitmaps', rfl, -, names'⟩ := mirrors'
    exact congrArg (selectNamed table op arg) (names.unique names')
  case int =>
    obtain ⟨bsi, rfl, numbers⟩ := mirrors
    obtain ⟨bsi', rfl, numbers'⟩ := mirrors'
    simp only [select, numbers.options, numbers'.options]
    cases arg with
    | int v => exact ranges numbers numbers' _
    | _ => rfl
  case float =>
    obtain ⟨bsi, rfl, numbers⟩ := mirrors
    obtain ⟨bsi', rfl, numbers'⟩ := mirrors'
    simp only [select, numbers.options, numbers'.options]
    cases arg with
    | str s => rfl
    | _ => exact ranges numbers numbers' _

lemma Field.put_weightSet {bitmaps : List (Text × WeightBitmap)} (kind : info.indexType = .weightSet)
    (ok : put P ⟨info, .weightSet bitmaps⟩ id x = (f', true)) : (x = none ∧ f' = ⟨info, .weightSet bitmaps⟩) ∨
      ∃ members bitmaps', x = some (.obj members) ∧ f' = ⟨info, .weightSet bitmaps'⟩ ∧
        putWeights info.topkLimit id members (removeWeights id (P.order (bitmaps.map fst)) bitmaps) = (bitmaps', true) := by
  unfold put at ok
  rw [kind] at ok
  rcases x with _ | x
  · cases ok
    exact .inl ⟨rfl, rfl⟩
  · cases x
    case obj members =>
      dsimp only at ok
      cases run : putWeights info.topkLimit id members (removeWeights id (P.order (bitmaps.map fst)) bitmaps) with
      | mk bitmaps' done =>
        rw [run] at ok
        cases ok
        exact .inr ⟨members, bitmaps', rfl, rfl, run⟩
    all_goals cases ok

lemma Field.put_int {bsi : BitSliceIndex} (kind : info.indexType = .int)
    (options : bsi.options = initOptions info) (ok : put P ⟨info, .int bsi⟩ id x = (f', true)) : (x = none ∧ f' = ⟨info, .int bsi⟩) ∨
      ∃ val, x.isSome ∧ measured info x = some val ∧ f' = ⟨info, .int (bsi.doPut id val).1⟩ := by
  unfold put at ok
  rw [kind] at ok
  rcases x with _ | x
  · cases ok
    exact .inl ⟨rfl, rfl⟩
  · cases x
    case num int v =>
      rcases int with _ | n
      · cases ok
      · cases ok
        refine .inr ⟨_, rfl, ?_, by rw [putInt, options]⟩
        simp [measured, kind]
    all_goals cases ok

lemma Field.put_float {bsi : BitSliceIndex} (kind : info.indexType = .float)
    (options : bsi.options = initOptions info) (ok : put P ⟨info, .float bsi⟩ id x = (f', true)) :
    (x = none ∧ f' = ⟨info, .float bsi⟩) ∨
      ∃ val, x.isSome ∧ measured info x = some val ∧ f' = ⟨info, .float (bsi.doPut id val).1⟩ := by
  unfold put at ok
  rw [kind] at ok
  rcases x with _ | x
  · cases ok
    exact .inl ⟨rfl, rfl⟩
  · cases x
    case num int v =>
      cases ok
      refine .inr ⟨_, rfl, ?_, by rw [putFloat, options]⟩
      simp [measured, kind]
    all_goals cases ok

section
variable {bitmaps bitmaps' : List (Text × Bitmap)} {v : Text}

lemma isSome_putName {s : Text} (there : (get v (putName bitmaps id s)).isSome) : v = s ∨ (get v bitmaps).isSome := by
  rw [putName, get_alter] at there
  split at there
  case isTrue same => exact .inl same.symm
  case isFalse => exact .inr there

lemma isSome_putStrings {xs : List Json} (ok : putStrings id xs bitmaps = (bitmaps', true))
    (there : (get v bitmaps').isSome) : .str v ∈ xs ∨ (get v bitmaps).isSome := by
  induction xs generalizing bitmaps with
  | nil =>
    cases ok
    exact .inr there
  | cons y xs ih =>
    cases y with
    | str s =>
      rw [putStrings] at ok
      rcases ih ok with later | before
      · exact .inl (mem_cons_of_mem _ later)
      · rcases isSome_putName before with rfl | older
        · exact .inl mem_cons_self
        · exact .inr older
    | _ => cases ok

lemma isSome_removeNames : (get v (removeNames bitmaps id)).isSome = (get v bitmaps).isSome := by
  rw [removeNames, get_mapValues, isSome_map]

lemma Names.put_named {kind : IndexType} (names : Names kind value fun v => get v bitmaps) (tidy : (set bitmaps).Tidy kind id x)
    (mem : ∀ v i, i ∈ named bitmaps' v ↔ (i = id ∧ Carries kind x v) ∨ i ∈ named (removeNames bitmaps id) v)
    (keys : ∀ v, (get v bitmaps').isSome → Carries kind x v ∨ (get v (removeNames bitmaps id)).isSome) :
    Names kind (update value id x) fun v => get v bitmaps' := by
  refine names.put (fun v i => ?_) (fun v there => ?_) fun v member => (tidy v member).2
  · have whole := mem v i
    rw [mem_named_removeNames] at whole
    exact whole
  · have either := keys v there
    rw [isSome_removeNames] at either
    exact either

end

lemma Names.put_weighted {bitmaps bitmaps' : List (Text × WeightBitmap)} {members : List (Text × Json)}
    (nodup : (bitmaps.map fst).Nodup) (names : Names .weightSet value fun v => (get v bitmaps).map (·.bitmap))
    (tidy : (weightSet bitmaps).Tidy .weightSet id (some (.obj members))) {topkLimit : Int}
    (ok : putWeights topkLimit id members (removeWeights id (P.order (bitmaps.map fst)) bitmaps) = (bitmaps', true)) :
    (bitmaps'.map fst).Nodup ∧ Names .weightSet (update value id (some (.obj members))) fun v => (get v bitmaps').map (·.bitmap) := by
  have removed := removeWeights_spec id (P.order (bitmaps.map fst)) bitmaps
  have order := P.order_perm (bitmaps.map fst)
  obtain ⟨nodup', mem, keys⟩ := putWeights_spec ok (by rw [removed.keys]; exact nodup)
  -- what `Remove` left of the id is put again
  have left : ∀ v, id ∈ weighted (removeWeights id (P.order (bitmaps.map fst)) bitmaps) v → v ∈ members.map fst := by
    intro v member
    rcases tidy with carried | ⟨-, all⟩
    · exact carried v (removed.fewer v member)
    · have present : v ∈ bitmaps.map fst := by
        rw [← removed.keys, ← isSome_get]
        by_contra absent
        rw [not_isSome_iff_eq_none] at absent
        rw [weighted, absent] at member
        exact notMem_empty id member
      refine absurd member (removed.all (order.nodup_iff.mpr nodup) (fun u there => ?_) v (order.mem_iff.mpr present))
      obtain ⟨w, found⟩ := isSome_iff_exists.mp (isSome_get.mpr (order.mem_iff.mp there))
      exact ⟨w, found, (all u w found).1⟩
  refine ⟨nodup', names.put (fun v i => ?_) (fun v there => ?_) fun v member => ?_⟩
  · show i ∈ weighted bitmaps' v ↔ (i = id ∧ v ∈ members.map fst) ∨ (i ≠ id ∧ i ∈ weighted bitmaps v)
    rw [mem]
    rcases eq_or_ne i id with rfl | other
    · exact ⟨fun either => .inl ⟨rfl, either.elim And.right (left v)⟩, fun either => either.imp_right fun ⟨self, _⟩ => absurd rfl self⟩
    · rw [removed.others v i other]
      simp [other]
  · rw [isSome_map] at there ⊢
    refine (keys v there).imp_right fun before => ?_
    rw [isSome_get, removed.keys, ← isSome_get] at before
    exact before
  · rcases tidy with carried | ⟨-, all⟩
    · exact .inl (carried v member)
    · cases found : get v bitmaps with
      | none =>
        rw [found] at member
        exact absurd member (notMem_empty id)
      | some w => exact (all v w found).2

lemma Mirrors.put (mirrors : Mirrors info value index) (tidy : index.Tidy info.indexType id x)
    (ok : put P ⟨info, index⟩ id x = (f', true)) : Mirrors info (update value id x) f'.index := by
  unfold Mirrors at mirrors ⊢
  cases kind : info.indexType <;> simp only [kind] at mirrors tidy ⊢
  case set =>
    obtain ⟨bitmaps, rfl, names⟩ := mirrors
    rcases put_set kind ok with ⟨rfl, rfl⟩ | ⟨xs, bitmaps', rfl, run, rfl⟩
    · exact ⟨bitmaps, rfl, names.absent fun v member => by cases (tidy v member).1⟩
    · exact ⟨bitmaps', rfl, names.put_named tidy (fun v i => mem_named_putStrings run) fun v there => isSome_putStrings run there⟩
  case mutex =>
    obtain ⟨bitmaps, rfl, names⟩ := mirrors
    rcases put_mutex kind ok with ⟨rfl, rfl⟩ | ⟨s, rfl, rfl⟩
    · exact ⟨bitmaps, rfl, names.absent fun v member => by cases (tidy v member).1⟩
    · exact ⟨_, rfl, names.put_named tidy (fun v i => mem_named_putName) fun v there => isSome_putName there⟩
  case bool =>
    obtain ⟨bitmap, rfl, mem⟩ := mirrors
    obtain ⟨v, new, rfl⟩ := put_bool kind ok
    refine ⟨_, rfl, fun i => ?_⟩
    rcases eq_or_ne i id with rfl | other
    · rw [update_self, new]
      cases v <;> simp [putBool]
    · rw [update_of_ne other, ← mem]
      cases v <;> simp [putBool, other]
  case weightSet =>
    obtain ⟨bitmaps, rfl, nodup, names⟩ := mirrors
    rcases put_weightSet kind ok with ⟨rfl, rfl⟩ | ⟨members, bitmaps', rfl, rfl, run⟩
    · refine ⟨bitmaps, rfl, nodup, names.absent fun v member => ?_⟩
      rcases tidy with carried | ⟨there, -⟩
      · exact not_carries_none _ v (carried v member)
      · cases there
    · exact ⟨bitmaps', rfl, names.put_weighted nodup tidy run⟩
  case int =>
    obtain ⟨bsi, rfl, numbers⟩ := mirrors
    rcases put_int kind numbers.options ok with ⟨rfl, rfl⟩ | ⟨val, there, new, rfl⟩
    · exact ⟨bsi, rfl, numbers.absent (measured_none info) tidy⟩
    · exact ⟨_, rfl, numbers.put ((if_pos there).mp tidy) new⟩
  case float =>
    obtain ⟨bsi, rfl, numbers⟩ := mirrors
    rcases put_float kind numbers.options ok with ⟨rfl, rfl⟩ | ⟨val, there, new, rfl⟩
    · exact ⟨bsi, rfl, numbers.absent (measured_none info) tidy⟩
    · exact ⟨_, rfl, numbers.put ((if_pos there).mp tidy) new⟩

end

namespace Table

def Tidy (t : Table) (id : UInt32) (doc : Doc) : Prop :=
  ∀ name f, get name t.fields = some f → f.index.Tidy f.info.indexType id (get name doc)

inductive TidyRun (P : Platform) (t₀ : Table) : List (UInt32 × Doc) → Table → Prop
  | nil : TidyRun P t₀ [] t₀
  | put {history : List (UInt32 × Doc)} {t t' : Table} (run : TidyRun P t₀ history t) (id : UInt32) (doc : Doc)
      (tidy : t.Tidy id doc) (ok : t.put P id doc = (t', 0)) : TidyRun P t₀ (history ++ [(id, doc)]) t'

def currentMember (history : List (UInt32 × Doc)) (name : Text) (i : UInt32) : Option Json :=
  (lastDoc i history).bind (get name)

lemma currentMember_concat (history : List (UInt32 × Doc)) (name : Text) (id : UInt32) (doc : Doc) :
    currentMember (history ++ [(id, doc)]) name = update (currentMember history name) id (get name doc) := by
  funext i
  rw [currentMember, lastDoc_concat]
  rcases eq_or_ne i id with rfl | other
  · rw [update_self, if_pos rfl]
    rfl
  · rw [update_of_ne other, if_neg (Ne.symm other)]
    rfl

structure Settled (t₀ : Table) (history : List (UInt32 × Doc)) (t : Table) : Prop where
  ids : ∀ i, i ∈ t.idBitmap ↔ (lastDoc i history).isSome
  infos : ∀ name, (get name t.fields).map Field.info = (get name t₀.fields).map Field.info
  fields : ∀ name f, get name t.fields = some f → Mirrors f.info (currentMember history name) f.index

variable {P : Platform} {schema : TableSchema} {t₀ t t' : Table} {history history' : List (UInt32 × Doc)}

lemma settled_init (created : init schema = some t₀) : t₀.Settled [] t₀ := by
  obtain ⟨empty, built⟩ := init_spec created
  refine ⟨fun i => by rw [empty]; simp [lastDoc], fun _ => rfl, fun name f found => ?_⟩
  obtain ⟨info, made⟩ := built name f found
  obtain ⟨rfl, mirrors⟩ := mirrors_build made
  exact mirrors

lemma Settled.put (settled : t₀.Settled history t) {id : UInt32} {doc : Doc} (tidy : t.Tidy id doc)
    (ok : t.put P id doc = (t', 0)) : t₀.Settled (history ++ [(id, doc)]) t' := by
  obtain ⟨ids, -, fields⟩ := put_spec ok
  refine ⟨fun i => ?_, fun name => ?_, fun name f' found => ?_⟩
  · rw [ids, mem_insert, settled.ids, lastDoc_concat]
    rcases eq_or_ne id i with rfl | other
    · simp
    · simp [other, Ne.symm other]
  · rw [(fields name).1, ← settled.infos, Option.map_map]
    exact congrArg (fun g => Option.map g _) (funext fun f => put_info P f _ _)
  · rw [(fields name).1] at found
    obtain ⟨f, before, rfl⟩ := map_eq_some_iff.mp found
    rw [currentMember_concat, put_info]
    exact (settled.fields name f before).put (tidy name f before) (Prod.ext rfl ((fields name).2 f before))

lemma TidyRun.settled (start : t₀.Settled [] t₀) (run : TidyRun P t₀ history t) : t₀.Settled history t := by
  induction run with
  | nil => exact start
  | put run id doc tidy ok ih => exact ih.put tidy ok

lemma Settled.select_eq (settled : t₀.Settled history t) (settled' : t₀.Settled history' t')
    (current : ∀ i, lastDoc i history = lastDoc i history') (name : Text) (op : FieldOperator) (arg : FieldArg) :
    t.select name op arg = t'.select name op arg := by
  have ids : t.idBitmap = t'.idBitmap := ext fun i => by rw [settled.ids, settled'.ids, current]
  have infos := (settled.infos name).trans (settled'.infos name).symm
  rw [select, select]
  cases found : get name t.fields with
  | none =>
    rw [found, map_none, eq_comm, map_eq_none_iff] at infos
    rw [infos]
  | some f =>
    rw [found, map_some, eq_comm, map_eq_some_iff] at infos
    obtain ⟨f', found', info⟩ := infos
    rw [found', ids]
    refine (settled.fields name f found).select_eq ?_ _ _ _
    have members : currentMember history name = currentMember history' name := by
      funext i
      rw [currentMember, currentMember, current]
    rw [members, ← info]
    exact settled'.fields name f' found'

end Table

/-- Two histories with the same current documents give the same answers, if no put of them leaves something behind. -/
theorem tidy_select_eq {P₁ P₂ : Platform} {schema : TableSchema} {t₀ t₁ t₂ : Table} (created : Table.init schema = some t₀)
    {history₁ history₂ : List (UInt32 × Doc)} (run₁ : t₀.TidyRun P₁ history₁ t₁) (run₂ : t₀.TidyRun P₂ history₂ t₂)
    (current : ∀ i, lastDoc i history₁ = lastDoc i history₂) (name : Text) (op : FieldOperator) (arg : FieldArg) :
    t₁.select name op arg = t₂.select name op arg :=
  (run₁.settled (Table.settled_init created)).select_eq (run₂.settled (Table.settled_init created)) current name op arg

def sampleDoc (v : Text) : Doc := [([1], .arr [.str v])]

theorem replaced_value_found : ∃ t₁ t₂, sampleTable.puts samplePlatform [(7, sampleDoc [97]), (7, sampleDoc [98])] = some t₁ ∧
    sampleTable.puts samplePlatform [(7, sampleDoc [98])] = some t₂ ∧
    (∀ i, lastDoc i [(7, sampleDoc [97]), (7, sampleDoc [98])] = lastDoc i [(7, sampleDoc [98])]) ∧
    t₁.select [1] .eq (.str [97]) = .ok ∅ ∧ t₂.select [1] .eq (.str [97]) = .error errNotFound := by
  refine ⟨_, _, rfl, rfl, fun i => ?_, rfl, rfl⟩
  simp only [lastDoc, foldl_cons, foldl_nil]
  split <;> rfl

def sampleSetTable (ids : Bitmap) (bitmaps : List (Text × Bitmap)) : Table :=
  ⟨⟨[116], [105], [sampleField [1] .set], false⟩, ids, [([1], ⟨sampleField [1] .set, .set bitmaps⟩)]⟩

lemma sampleSetTable_tidy {ids : Bitmap} {bitmaps : List (Text × Bitmap)} {id : UInt32} {w : Text}
    (tidy : ∀ entry ∈ bitmaps, id ∈ entry.2 → entry.1 = w ∨ ∃ j ∈ entry.2, j ≠ id) :
    (sampleSetTable ids bitmaps).Tidy id (sampleDoc w) := by
  intro name f found
  simp only [sampleSetTable, Lib.Assoc.get] at found
  split at found
  case isFalse => cases found
  case isTrue here =>
    cases found
    subst here
    intro v member
    refine ⟨rfl, ?_⟩
    rw [named] at member ⊢
    cases there : get v bitmaps with
    | none =>
      rw [there] at member
      exact absurd member (notMem_empty id)
    | some s =>
      rw [there] at member
      rcases tidy (v, s) (mem_of_get there) member with same | ⟨j, inside, other⟩
      · rw [show v = w from same]
        exact .inl mem_cons_self
      · exact .inr ⟨j, other, inside⟩

theorem tidy_select_eq_sample : ∃ t₁ t₂,
    (sampleSetTable ∅ []).puts samplePlatform [(7, sampleDoc [97]), (8, sampleDoc [97]), (7, sampleDoc [98])] = some t₁ ∧
    (sampleSetTable ∅ []).puts samplePlatform [(8, sampleDoc [97]), (7, sampleDoc [98])] = some t₂ ∧
    t₁.select [1] .eq (.str [97]) = t₂.select [1] .eq (.str [97]) := by
  have created : Table.init ⟨[116], [105], [sampleField [1] .set], false⟩ = some (sampleSetTable ∅ []) := rfl
  have one : (sampleSetTable ∅ []).TidyRun samplePlatform [(7, sampleDoc [97])] (sampleSetTable {7} [([97], {7})]) :=
    Table.TidyRun.nil.put 7 _ (sampleSetTable_tidy (by decide)) rfl
  have two : (sampleSetTable ∅ []).TidyRun samplePlatform [(7, sampleDoc [97]), (8, sampleDoc [97])]
      (sampleSetTable {8, 7} [([97], {8, 7})]) := one.put 8 _ (sampleSetTable_tidy (by decide)) rfl
  have three : (sampleSetTable ∅ []).TidyRun samplePlatform [(7, sampleDoc [97]), (8, sampleDoc [97]), (7, sampleDoc [98])]
      (sampleSetTable {8, 7} [([97], {8}), ([98], {7})]) := two.put 7 _ (sampleSetTable_tidy (by decide)) rfl
  have first : (sampleSetTable ∅ []).TidyRun samplePlatform [(8, sampleDoc [97])] (sampleSetTable {8} [([97], {8})]) :=
    Table.TidyRun.nil.put 8 _ (sampleSetTable_tidy (by decide)) rfl
  have second : (sampleSetTable ∅ []).TidyRun samplePlatform [(8, sampleDoc [97]), (7, sampleDoc [98])]
      (sampleSetTable {7, 8} [([97], {8}), ([98], {7})]) := first.put 7 _ (sampleSetTable_tidy (by decide)) rfl
  refine ⟨_, _, rfl, rfl, tidy_select_eq created three second (fun i => ?_) [1] .eq (.str [97])⟩
  simp only [lastDoc, foldl_cons, foldl_nil]
  split <;> rfl

end Myctk.Robims
