import Myctk.Lib.Runs
import Myctk.Robims.TableAtomic

/-! The three parts of a value of a weighted set: the bitmap that `Select` reads, the weights by id, and the set in which the
    weights are ordered. -/

namespace Myctk.Robims
open Finset Lib List UInt32 WeightBitmap Index
open Lib.Assoc

lemma floatToUint32_of_zero {v : UInt32} (zero : v &&& 0x7FFFFFFF = 0) : floatToUint32 v = 0x80000000 := by
  have low : v.toNat % 2 ^ 31 = 0 := by
    have bits := congrArg toNat zero
    rwa [UInt32.toNat_and, show (0x7FFFFFFF : UInt32).toNat = 2 ^ 31 - 1 from rfl, Nat.and_two_pow_sub_one_eq_mod] at bits
  have less := v.toNat_lt
  have either : v = 0 ∨ v = 0x80000000 := by
    rw [← UInt32.toNat_inj, ← UInt32.toNat_inj, show (0x80000000 : UInt32).toNat = 2 ^ 31 from rfl, UInt32.toNat_zero]
    omega
  rcases either with rfl | rfl <;> rfl

lemma floatToUint32_congr {v w : UInt32} (equal : floatNe v w = false) : floatToUint32 v = floatToUint32 w := by
  simp only [floatNe, Bool.or_eq_false_iff, Bool.not_eq_false', Bool.or_eq_true, decide_eq_true_eq, Bool.and_eq_true] at equal
  rcases equal.2 with rfl | ⟨zero, zero'⟩
  · rfl
  · rw [floatToUint32_of_zero zero, floatToUint32_of_zero zero']

namespace WeightBitmap

variable {w : WeightBitmap} {limit : Int} {id id' weight weight' : UInt32}

lemma weightId_inj : weightId weight id = weightId weight' id' ↔ floatToUint32 weight = floatToUint32 weight' ∧ id = id' := by
  have less := id.toNat_lt
  have less' := id'.toNat_lt
  rw [weightId, weightId, ← UInt32.toNat_inj, ← UInt32.toNat_inj]
  omega

lemma ofNat_weightId (weight id : UInt32) : UInt32.ofNat (weightId weight id % 2 ^ 32) = id := by
  have low : weightId weight id % 2 ^ 32 = id.toNat := by
    rw [weightId, Nat.mul_comm, Nat.mul_add_mod, Nat.mod_eq_of_lt id.toNat_lt]
  rw [low, UInt32.ofNat_toNat]

structure Aligned (w : WeightBitmap) : Prop where
  ids : ∀ id, id ∈ w.bitmap ↔ (get id w.idWeights).isSome
  weights : ∀ x, x ∈ w.weightIds ↔ ∃ id weight, get id w.idWeights = some weight ∧ x = weightId weight id

structure Coherent (limit : Int) (w : WeightBitmap) : Prop extends Aligned w where
  few : 0 < limit → (w.bitmap.card : Int) ≤ limit

lemma coherent_empty (limit : Int) : empty.Coherent limit where
  ids _ := iff_of_false (notMem_empty _) (by simp [empty, Lib.Assoc.get])
  weights _ := iff_of_false (notMem_empty _) (by simp [empty, Lib.Assoc.get])
  few positive := by
    rw [empty, card_empty]
    exact le_of_lt positive

def Keyed (w : WeightBitmap) : Prop := (w.idWeights.map Prod.fst).Nodup

lemma Aligned.length (aligned : w.Aligned) (keyed : w.Keyed) : w.idWeights.length = w.bitmap.card := by
  have same : w.bitmap = (w.idWeights.map Prod.fst).toFinset := by
    ext id
    rw [aligned.ids, mem_toFinset, isSome_get]
  rw [same, toFinset_card_of_nodup keyed, length_map]

lemma get_eraseId (id id' : UInt32) : get id' (w.eraseId id) = if id = id' then none else get id' w.idWeights :=
  get_filter_ne _

lemma Keyed.remove (keyed : w.Keyed) (id weight : UInt32) : (w.remove id weight).Keyed :=
  keyed.sublist (filter_sublist.map _)

lemma Aligned.remove (aligned : w.Aligned) (known : get id w.idWeights = some weight) : (w.remove id weight).Aligned where
  ids id' := by
    rw [WeightBitmap.remove, mem_erase, get_eraseId, aligned.ids]
    rcases eq_or_ne id id' with rfl | other
    · rw [if_pos rfl]
      exact iff_of_false (fun member => member.1 rfl) Bool.false_ne_true
    · rw [if_neg other, and_iff_right (Ne.symm other)]
  weights x := by
    rw [WeightBitmap.remove, mem_erase, aligned.weights]
    constructor
    · rintro ⟨other, id', weight', present, rfl⟩
      refine ⟨id', weight', ?_, rfl⟩
      rw [get_eraseId, if_neg, present]
      rintro rfl
      cases known.symm.trans present
      exact other rfl
    · rintro ⟨id', weight', present, rfl⟩
      rw [get_eraseId] at present
      split at present
      case isTrue => cases present
      case isFalse other => exact ⟨fun same => other (weightId_inj.mp same).2.symm, id', weight', present, rfl⟩

lemma Coherent.remove (coherent : w.Coherent limit) (known : get id w.idWeights = some weight) :
    (w.remove id weight).Coherent limit := by
  refine ⟨coherent.toAligned.remove known, fun positive => ?_⟩
  have less := card_le_card (erase_subset id w.bitmap)
  exact le_trans (by exact_mod_cast less) (coherent.few positive)

/-- What `Put` has made before it looks at the limit. -/
def stored (w : WeightBitmap) (id weight : UInt32) : WeightBitmap where
  weightIds := insert (weightId weight id) (match get id w.idWeights with
    | some old => if floatNe weight old then w.weightIds.erase (weightId old id) else w.weightIds
    | none => w.weightIds)
  idWeights := alter id (fun _ => weight) w.idWeights
  bitmap := insert id w.bitmap

lemma put_eq_trim (w : WeightBitmap) (limit : Int) (id weight : UInt32) : w.put limit id weight = (w.stored id weight).trim limit :=
  rfl

lemma Aligned.mem_stored (aligned : w.Aligned) (id weight : UInt32) (x : Nat) : x ∈ (w.stored id weight).weightIds ↔
    x = weightId weight id ∨ ∃ id' weight', id' ≠ id ∧ get id' w.idWeights = some weight' ∧ x = weightId weight' id' := by
  rw [stored, mem_insert]
  refine or_congr_right' fun new => ?_
  cases known : get id w.idWeights with
  | none =>
    rw [aligned.weights]
    refine exists_congr fun id' => exists_congr fun weight' => ?_
    refine (and_iff_right_of_imp fun present same => ?_).symm
    rw [same, known] at present
    cases present.1
  | some old =>
    -- an old weight that is not erased has the code of the new one
    have erased : x ∈ (if floatNe weight old then w.weightIds.erase (weightId old id) else w.weightIds) ↔
        x ≠ weightId old id ∧ x ∈ w.weightIds := by
      split
      case isTrue => exact mem_erase
      case isFalse equal =>
        have code := floatToUint32_congr (Bool.not_eq_true _ ▸ equal)
        exact (and_iff_right fun same => new (same.trans (weightId_inj.mpr ⟨code.symm, rfl⟩))).symm
    rw [erased, aligned.weights]
    constructor
    · rintro ⟨other, id', weight', present, rfl⟩
      refine ⟨id', weight', ?_, present, rfl⟩
      rintro rfl
      cases known.symm.trans present
      exact other rfl
    · rintro ⟨id', weight', other, present, rfl⟩
      exact ⟨fun same => other (weightId_inj.mp same).2, id', weight', present, rfl⟩

lemma Aligned.stored (aligned : w.Aligned) (id weight : UInt32) : (w.stored id weight).Aligned where
  ids id' := by
    rw [WeightBitmap.stored, mem_insert, get_alter, aligned.ids]
    rcases eq_or_ne id id' with rfl | other
    · rw [if_pos rfl]
      exact iff_of_true (.inl rfl) rfl
    · rw [if_neg other, or_iff_right (Ne.symm other)]
  weights x := by
    rw [aligned.mem_stored id weight]
    constructor
    · rintro (rfl | ⟨id', weight', other, present, rfl⟩)
      · exact ⟨id, weight, get_alter_self _ _, rfl⟩
      · exact ⟨id', weight', (get_alter_ne (Ne.symm other) _ _).trans present, rfl⟩
    · rintro ⟨id', weight', present, rfl⟩
      rcases eq_or_ne id' id with rfl | other
      · cases (get_alter_self _ _).symm.trans present
        exact .inl rfl
      · exact .inr ⟨id', weight', other, (get_alter_ne (Ne.symm other) _ _).symm.trans present, rfl⟩

lemma Aligned.put (aligned : w.Aligned) (unlimited : limit ≤ 0) (id weight : UInt32) : (w.put limit id weight).Aligned := by
  rw [put_eq_trim, trim, if_neg fun beyond => absurd beyond.1 (not_lt_of_ge unlimited)]
  exact aligned.stored id weight

lemma Keyed.put (keyed : w.Keyed) (limit : Int) (id weight : UInt32) : (w.put limit id weight).Keyed := by
  have stored : (w.stored id weight).Keyed := nodup_alter keyed _
  rw [put_eq_trim, trim]
  split
  case isFalse => exact stored
  case isTrue =>
    split
    · exact stored
    · exact stored.sublist (filter_sublist.map _)

lemma Aligned.not_trim (aligned : w.Aligned) (limited : 0 < limit) (beyond : limit < w.idWeights.length) : ¬ (w.trim limit).Aligned := by
  have some : ∃ id weight, get id w.idWeights = some weight := by
    match entries : w.idWeights with
    | [] =>
      rw [entries] at beyond
      exact absurd (limited.trans beyond) (lt_irrefl _)
    | (id, weight) :: rest => exact ⟨id, weight, if_pos rfl⟩
  obtain ⟨id, weight, known⟩ := some
  obtain ⟨least, min⟩ := min_of_mem ((aligned.weights _).mpr ⟨id, weight, known, rfl⟩)
  obtain ⟨evicted, old, present, rfl⟩ := (aligned.weights _).mp (mem_of_min min)
  intro after
  have kept : evicted ∈ (w.trim limit).bitmap := by
    rw [trim, if_pos ⟨limited, beyond⟩, min]
    exact (aligned.ids evicted).mpr (Option.isSome_iff_exists.mpr ⟨old, present⟩)
  have gone : get evicted (w.trim limit).idWeights = none := by
    rw [trim, if_pos ⟨limited, beyond⟩, min]
    show get evicted (w.eraseId (ofNat (weightId old evicted % 2 ^ 32))) = none
    rw [ofNat_weightId, get_eraseId, if_pos rfl]
  rw [after.ids, gone] at kept
  cases kept

def HasRoom (w : WeightBitmap) (limit : Int) (id : UInt32) : Prop :=
  limit ≤ 0 ∨ (get id w.idWeights).isSome ∨ (w.idWeights.length : Int) < limit

lemma length_stored (w : WeightBitmap) (id weight : UInt32) : (w.stored id weight).idWeights.length =
    if (get id w.idWeights).isSome then w.idWeights.length else w.idWeights.length + 1 := by
  have keys := congrArg length (map_fst_alter (k := id) (fun _ => weight) w.idWeights)
  rw [length_map] at keys
  refine keys.trans ?_
  by_cases known : (get id w.idWeights).isSome
  · rw [if_pos known, if_pos (isSome_get.mp known), length_map]
  · rw [if_neg known, if_neg (mt isSome_get.mpr known), length_append, length_map]
    rfl

lemma Coherent.stored_le_iff (coherent : w.Coherent limit) (keyed : w.Keyed) (positive : 0 < limit) (id weight : UInt32) :
    ((w.stored id weight).idWeights.length : Int) ≤ limit ↔ w.HasRoom limit id := by
  have few := coherent.few positive
  rw [← coherent.length keyed] at few
  rw [length_stored, HasRoom, or_iff_right (not_le_of_gt positive)]
  by_cases known : (get id w.idWeights).isSome
  · rw [if_pos known]
    exact iff_of_true few (.inl known)
  · rw [if_neg known, or_iff_right known]
    omega

lemma Coherent.put_iff (coherent : w.Coherent limit) (keyed : w.Keyed) (id weight : UInt32) :
    (w.put limit id weight).Coherent limit ↔ w.HasRoom limit id := by
  have aligned := coherent.toAligned.stored id weight
  have length := aligned.length (nodup_alter keyed _)
  rw [put_eq_trim]
  by_cases positive : 0 < limit
  · rw [← coherent.stored_le_iff keyed positive id weight]
    constructor
    · intro after
      by_contra beyond
      exact aligned.not_trim positive (lt_of_not_ge beyond) after.toAligned
    · intro fits
      rw [trim, if_neg fun beyond => absurd fits (not_le_of_gt beyond.2)]
      exact ⟨aligned, fun _ => by rwa [← length]⟩
  · rw [trim, if_neg fun beyond => positive beyond.1]
    exact iff_of_true ⟨aligned, fun limited => absurd limited positive⟩ (.inl (le_of_not_gt positive))

end WeightBitmap

inductive WeightOp where
  | put (id : UInt32) (val : Text) (weight : UInt32)
  | remove (id : UInt32)

section
variable (P : Platform) (limit : Int)

def WeightOp.apply (bitmaps : List (Text × WeightBitmap)) : WeightOp → List (Text × WeightBitmap)
  | .put id val weight => putWeight limit bitmaps id val weight
  | .remove id => removeWeights id (P.order (bitmaps.map Prod.fst)) bitmaps

def weightRun (ops : List WeightOp) : List (Text × WeightBitmap) := ops.foldl (WeightOp.apply P limit) []

def WeightOp.Fits (bitmaps : List (Text × WeightBitmap)) : WeightOp → Prop
  | .put id val _ => ((get val bitmaps).getD .empty).HasRoom limit id
  | .remove _ => True

end

section
variable {P : Platform} {limit : Int} {bitmaps : List (Text × WeightBitmap)} {kept : WeightBitmap → Prop}

def EachValue (kept : WeightBitmap → Prop) (bitmaps : List (Text × WeightBitmap)) : Prop :=
  ∀ val w, get val bitmaps = some w → kept w

lemma EachValue.getD (each : EachValue kept bitmaps) (empty : kept .empty) (val : Text) : kept ((get val bitmaps).getD .empty) := by
  cases found : get val bitmaps with
  | none => exact empty
  | some w => exact each val w found

lemma eachValue_alter_iff (each : EachValue kept bitmaps) (val : Text) (f : Option WeightBitmap → WeightBitmap) :
    EachValue kept (alter val f bitmaps) ↔ kept (f (get val bitmaps)) := by
  constructor
  · exact fun after => after val _ (get_alter_self _ _)
  · intro holds val' w found
    rcases eq_or_ne val val' with rfl | other
    · cases (get_alter_self _ _).symm.trans found
      exact holds
    · exact each val' w ((get_alter_ne other _ _).symm.trans found)

lemma EachValue.removeWeights {id : UInt32} (step : ∀ w weight, kept w → get id w.idWeights = some weight → kept (w.remove id weight))
    (each : EachValue kept bitmaps) (names : List Text) : EachValue kept (removeWeights id names bitmaps) := by
  induction names generalizing bitmaps with
  | nil => exact each
  | cons name names ih =>
    rw [removeWeights]
    split
    case h_1 => exact each
    case h_2 weight here =>
      obtain ⟨w, found, known⟩ := Option.bind_eq_some_iff.mp here
      refine ih ((eachValue_alter_iff each name _).mpr ?_)
      rw [found]
      exact step w weight (each name w found) known

lemma keyed_weightRun (P : Platform) (limit : Int) (ops : List WeightOp) : EachValue Keyed (weightRun P limit ops) := by
  induction ops using reverseRecOn with
  | nil => exact fun _ _ found => nomatch found
  | append_singleton ops op ih =>
    rw [weightRun, foldl_concat]
    cases op with
    | put id val weight => exact (eachValue_alter_iff ih val _).mpr ((ih.getD nodup_nil val).put limit id weight)
    | remove id => exact ih.removeWeights (fun _ _ keyed _ => keyed.remove _ _) _

lemma EachValue.apply_iff (coherent : EachValue (·.Coherent limit) bitmaps) (keyed : EachValue Keyed bitmaps) (op : WeightOp) :
    EachValue (·.Coherent limit) (op.apply P limit bitmaps) ↔ op.Fits limit bitmaps := by
  cases op with
  | put id val weight =>
    have before := coherent.getD (coherent_empty limit) val
    exact (eachValue_alter_iff coherent val _).trans (before.put_iff (keyed.getD nodup_nil val) id weight)
  | remove id => exact iff_of_true (coherent.removeWeights (fun _ _ holds known => holds.remove known) _) trivial

/-- In every state of a run the parts of each value agree and keep to the limit, precisely when no call evicts an id. -/
theorem weights_coherent_iff (P : Platform) (limit : Int) (ops : List WeightOp) :
    (∀ done, done <+: ops → EachValue (·.Coherent limit) (weightRun P limit done)) ↔
      ∀ done op, done ++ [op] <+: ops → op.Fits limit (weightRun P limit done) := by
  refine forall_prefix_iff (fun done op _ coherent => ?_) fun _ _ found => nomatch found
  rw [weightRun, foldl_concat]
  exact coherent.apply_iff (keyed_weightRun P limit done) op

end

theorem evicted_id_stays :
    (weightRun samplePlatform 1 [.put 7 [97] 0x3F800000, .put 8 [97] 0x40000000]).map (fun e => (e.2.bitmap, e.2.idWeights)) =
        [({7, 8}, [(8, 0x40000000)])] ∧
      ¬ ∀ done, done <+: [.put 7 [97] 0x3F800000, .put 8 [97] 0x40000000] →
        EachValue (·.Coherent 1) (weightRun samplePlatform 1 done) := by
  refine ⟨by decide +kernel, fun right => ?_⟩
  have both := (right _ (prefix_refl _)) [97] _ rfl
  exact absurd (both.few Int.one_pos) (by decide +kernel)

/-! Documents that replace one another in a weighted set without a limit. -/

open Prod Table Option

section
variable {P : Platform} {limit : Int} {id j : UInt32} {v : Text} {bitmaps : List (Text × WeightBitmap)}

def reachedNames (P : Platform) (bitmaps : List (Text × WeightBitmap)) (id : UInt32) : List Text :=
  (P.order (bitmaps.map fst)).takeWhile fun v => id ∈ weighted bitmaps v

lemma weighing_eq_reachedNames (aligned : EachValue WeightBitmap.Aligned bitmaps) :
    weighing id bitmaps (P.order (bitmaps.map fst)) = reachedNames P bitmaps id := by
  have same : (fun name => ((get name bitmaps).bind fun w => get id w.idWeights).isSome) =
      fun v => decide (id ∈ weighted bitmaps v) := by
    funext name
    rw [weighted]
    cases found : get name bitmaps with
    | none => rfl
    | some w => exact Bool.eq_iff_iff.mpr (((aligned name w found).ids id).symm.trans decide_eq_true_iff.symm)
  rw [weighing, reachedNames, same]

lemma mem_weighted_removed (aligned : EachValue WeightBitmap.Aligned bitmaps) (nodup : (bitmaps.map fst).Nodup) :
    j ∈ weighted (Index.removeWeights id (P.order (bitmaps.map fst)) bitmaps) v ↔
      j ∈ weighted bitmaps v ∧ ¬ (j = id ∧ v ∈ reachedNames P bitmaps id) := by
  have order := (P.order_perm _).nodup_iff.mpr nodup
  rw [weighted, bitmap_removeWeights order, weighing_eq_reachedNames aligned, weighted]
  cases get v bitmaps with
  | none => simp
  | some w =>
    by_cases reached : v ∈ reachedNames P bitmaps id
    · simp [reached, and_comm]
    · simp [reached]

lemma EachValue.putWeights (unlimited : limit ≤ 0) (aligned : EachValue WeightBitmap.Aligned bitmaps) (id : UInt32)
    (members : List (Text × Json)) : EachValue WeightBitmap.Aligned (putWeights limit id members bitmaps).1 := by
  induction members generalizing bitmaps with
  | nil => exact aligned
  | cons entry members ih =>
    obtain ⟨key, value⟩ := entry
    cases value with
    | num int weight =>
      have known := aligned.getD (WeightBitmap.coherent_empty limit).toAligned key
      exact ih ((eachValue_alter_iff aligned key _).mpr (known.put unlimited id _))
    | _ => exact aligned

end

namespace Table

variable {P : Platform} {t₀ t t' : Table} {name v : Text} {id i : UInt32} {doc : Doc} {bitmaps : List (Text × WeightBitmap)}

structure Weighs (t : Table) (name : Text) (bitmaps : List (Text × WeightBitmap)) : Prop where
  field : ∃ info, get name t.fields = some ⟨info, .weightSet bitmaps⟩ ∧ info.indexType = .weightSet ∧ info.topkLimit ≤ 0
  nodup : (bitmaps.map fst).Nodup
  aligned : EachValue WeightBitmap.Aligned bitmaps

lemma Weighs.selects_iff (weighs : t.Weighs name bitmaps) (v : Text) (i : UInt32) :
    t.Selects name .eq (.str v) i ↔ i ∈ weighted bitmaps v := by
  obtain ⟨info, found, -⟩ := weighs.field
  exact selects_find found (fun _ _ => rfl) v

lemma Weighs.put (weighs : t.Weighs name bitmaps) (ok : t.put P id doc = (t', 0)) : ∃ bitmaps', t'.Weighs name bitmaps' ∧
    ∀ v i, i ∈ weighted bitmaps' v ↔ (i = id ∧ Carries .weightSet (get name doc) v) ∨
      i ∈ weighted bitmaps v ∧ ¬ (i = id ∧ (get name doc).isSome ∧ v ∈ reachedNames P bitmaps id) := by
  obtain ⟨info, found, kind, unlimited⟩ := weighs.field
  obtain ⟨fields, done⟩ := (put_spec ok).2.2 name
  rw [found, map_some] at fields
  rcases Field.put_weightSet kind (Prod.ext rfl (done _ found)) with ⟨none, same⟩ | ⟨members, bitmaps', some, same, run⟩
  · refine ⟨bitmaps, ⟨⟨info, fields.trans (congrArg some same), kind, unlimited⟩, weighs.nodup, weighs.aligned⟩, fun v i => ?_⟩
    rw [none]
    simp [Carries]
  · have removed := (removeWeights_spec id (P.order (bitmaps.map fst)) bitmaps).keys
    have nodup := weighs.nodup
    rw [← removed] at nodup
    obtain ⟨nodup', mem, -⟩ := putWeights_spec run nodup
    have kept : EachValue WeightBitmap.Aligned (Index.removeWeights id (P.order (bitmaps.map fst)) bitmaps) :=
      weighs.aligned.removeWeights (fun _ _ aligned known => aligned.remove known) _
    have aligned := kept.putWeights unlimited id members
    rw [run] at aligned
    refine ⟨bitmaps', ⟨⟨info, fields.trans (congrArg Option.some same), kind, unlimited⟩, nodup', aligned⟩, fun v i => ?_⟩
    rw [mem, mem_weighted_removed weighs.aligned weighs.nodup, some]
    simp [Carries]

/-- No name of an older document is left to the id: the new document has it, or there is a new one and `Remove` reaches it. -/
def Replaces (P : Platform) (t : Table) (name : Text) (id : UInt32) (doc : Doc) : Prop :=
  ∀ info bitmaps, get name t.fields = some ⟨info, .weightSet bitmaps⟩ → ∀ v, id ∈ weighted bitmaps v →
    Carries .weightSet (get name doc) v ∨ (get name doc).isSome ∧ v ∈ reachedNames P bitmaps id

def Current (t : Table) (name : Text) (history : List (UInt32 × Doc)) : Prop :=
  ∀ v i, t.Selects name .eq (.str v) i ↔ Carries .weightSet (currentMember history name i) v

lemma Weighs.replaces_iff (weighs : t.Weighs name bitmaps) : t.Replaces P name id doc ↔ ∀ v, id ∈ weighted bitmaps v →
    Carries .weightSet (get name doc) v ∨ (get name doc).isSome ∧ v ∈ reachedNames P bitmaps id := by
  obtain ⟨info, found, -⟩ := weighs.field
  constructor
  · exact fun replaces => replaces info bitmaps found
  · intro all info' bitmaps' found'
    cases found.symm.trans found'
    exact all

lemma Weighs.current_put_iff {history : List (UInt32 × Doc)} (weighs : t.Weighs name bitmaps) (current : t.Current name history)
    (ok : t.put P id doc = (t', 0)) : t'.Current name (history ++ [(id, doc)]) ↔ t.Replaces P name id doc := by
  obtain ⟨bitmaps', weighs', mem⟩ := weighs.put ok
  have before : ∀ v i, i ∈ weighted bitmaps v ↔ Carries .weightSet (currentMember history name i) v :=
    fun v i => (weighs.selects_iff v i).symm.trans (current v i)
  rw [Current, weighs.replaces_iff]
  refine forall_congr' fun v => ?_
  have others : ∀ i ≠ id, t'.Selects name .eq (.str v) i ↔ Carries .weightSet (currentMember (history ++ [(id, doc)]) name i) v := by
    intro i other
    rw [weighs'.selects_iff, mem, currentMember_concat, Function.update_of_ne other, before]
    simp [other]
  have self : (t'.Selects name .eq (.str v) id ↔ Carries .weightSet (currentMember (history ++ [(id, doc)]) name id) v) ↔
      (id ∈ weighted bitmaps v → Carries .weightSet (get name doc) v ∨
        (get name doc).isSome ∧ v ∈ reachedNames P bitmaps id) := by
    rw [weighs'.selects_iff, mem, currentMember_concat, Function.update_self]
    tauto
  rw [← self]
  constructor
  · exact fun all => all id
  · intro own i
    rcases eq_or_ne i id with rfl | other
    · exact own
    · exact others i other

lemma weighs_init {schema : TableSchema} {f₀ : Field} (created : init schema = some t₀) (field : get name t₀.fields = some f₀)
    (kind : f₀.info.indexType = .weightSet) (unlimited : f₀.info.topkLimit ≤ 0) : t₀.Weighs name [] := by
  obtain ⟨info, built⟩ := (init_spec created).2 name f₀ field
  have same : f₀.info = info ∧ Reflects name [] f₀ := reflects_build built
  rw [← same.1, Field.build, kind] at built
  exact ⟨⟨f₀.info, field.trans built.symm, kind, unlimited⟩, nodup_nil, fun _ _ none => by cases none⟩

lemma Weighs.puts (weighs : t₀.Weighs name bitmaps) {history : List (UInt32 × Doc)} (run : t₀.puts P history = some t) :
    ∃ bitmaps', t.Weighs name bitmaps' := by
  induction history using reverseRecOn generalizing t with
  | nil =>
    cases run
    exact ⟨bitmaps, weighs⟩
  | append_singleton history entry ih =>
    obtain ⟨t1, before, ok⟩ := puts_concat run
    obtain ⟨bitmaps1, weighs1⟩ := ih before
    obtain ⟨bitmaps', weighs', -⟩ := weighs1.put ok
    exact ⟨bitmaps', weighs'⟩

lemma puts_of_prefix {done history : List (UInt32 × Doc)} (here : done <+: history) (ran : (t₀.puts P history).isSome) :
    ∃ t, t₀.puts P done = some t := by
  obtain ⟨rest, rfl⟩ := here
  obtain ⟨t, run⟩ := isSome_iff_exists.mp ran
  rw [puts, foldlM_append] at run
  obtain ⟨t1, before, -⟩ := bind_eq_some_iff.mp run
  exact ⟨t1, before⟩

end Table

/-- After every put of a history each id has the names of its last document, precisely when no put leaves a name of an
    older document behind. -/
theorem weights_current_iff (P : Platform) {schema : TableSchema} {t₀ : Table} (created : init schema = some t₀) {name : Text}
    {f₀ : Field} (field : get name t₀.fields = some f₀) (kind : f₀.info.indexType = .weightSet)
    (unlimited : f₀.info.topkLimit ≤ 0) {history : List (UInt32 × Doc)} (ran : (t₀.puts P history).isSome) :
    (∀ done, done <+: history → ∀ t, t₀.puts P done = some t → t.Current name done) ↔
      ∀ done entry, done ++ [entry] <+: history → ∀ t, t₀.puts P done = some t → t.Replaces P name entry.1 entry.2 := by
  have start := weighs_init created field kind unlimited
  refine Lib.forall_prefix_iff (fun done entry here current => ?_) fun t run => ?_
  · obtain ⟨t', ran'⟩ := puts_of_prefix here ran
    obtain ⟨t, before, ok⟩ := puts_concat ran'
    obtain ⟨bitmaps, weighs⟩ := start.puts before
    have step := weighs.current_put_iff (current t before) ok
    rw [before, ran']
    constructor
    · rintro after _ ⟨⟩
      exact step.mp (after t' rfl)
    · rintro replaces _ ⟨⟩
      exact step.mpr (replaces t rfl)
  · cases run
    intro v i
    rw [start.selects_iff]
    exact iff_of_false (notMem_empty i) (not_carries_none _ v)

/-! A table with a weighted set, and documents of the id 7 that have one name each. -/

def weightField : Field := ⟨sampleField [119] .weightSet, .weightSet []⟩

def weightTable : Table := ⟨⟨[116], [105], [sampleField [119] .weightSet], false⟩, ∅, [([119], weightField)]⟩

def weightDoc (v : Text) : UInt32 × Doc := (7, [([119], .obj [(v, .num none 1)])])

theorem old_name_left : init weightTable.schema = some weightTable ∧ get [119] weightTable.fields = some weightField ∧
    weightField.info.indexType = .weightSet ∧ weightField.info.topkLimit ≤ 0 ∧
    (weightTable.puts samplePlatform [weightDoc [97], weightDoc [98], weightDoc [99]]).isSome ∧
    ¬ ∀ done, done <+: [weightDoc [97], weightDoc [98], weightDoc [99]] → ∀ t,
      weightTable.puts samplePlatform done = some t → t.Current [119] done := by
  refine ⟨rfl, rfl, rfl, by decide, rfl, fun right => ?_⟩
  have last : [98] ∈ ([[99]] : List Text) := (right _ (prefix_refl _) _ rfl [98] 7).mp ⟨{7}, rfl, by decide⟩
  exact absurd last (by decide)

theorem weights_current_iff_replaced : init weightTable.schema = some weightTable ∧
    (weightTable.puts samplePlatform [weightDoc [97], weightDoc [98]]).isSome ∧
    ∀ done, done <+: [weightDoc [97], weightDoc [98]] → ∀ t, weightTable.puts samplePlatform done = some t → t.Current [119] done := by
  have created : init weightTable.schema = some weightTable := rfl
  have field : get [119] weightTable.fields = some weightField := rfl
  refine ⟨created, rfl, (weights_current_iff samplePlatform created field rfl (by decide) rfl).mpr fun done entry here t run => ?_⟩
  match done, here with
  | [], here =>
    cases run
    rintro info bitmaps ⟨⟩ v member
    exact absurd member (notMem_empty _)
  | [first], here =>
    obtain ⟨rest, same⟩ := here
    cases same
    cases run
    rintro info bitmaps ⟨⟩ v member
    have first : v = [97] := by
      by_contra other
      change 7 ∈ (Option.map WeightBitmap.bitmap (if [97] = v then _ else none)).getD ∅ at member
      rw [if_neg (Ne.symm other)] at member
      exact absurd member (notMem_empty _)
    subst first
    exact .inr ⟨rfl, by decide⟩
  | _ :: _ :: rest, here =>
    have length := here.length_le
    simp only [length_append, length_cons, length_nil] at length
    omega

end Myctk.Robims
