import Mathlib.Data.Nat.Bitwise
import Myctk.Robims.BsiSpec

/-! The float index. A `float` is kept by its bits; `float_to_uint32` turns them into a number that keeps the order. -/

namespace Myctk.Robims

open List Function UInt32 BitSliceIndex Nat BsiOptions

section
variable {v : UInt32}

lemma toNat_setHigh (low : v.toNat < 2 ^ 31) : (v ||| 0x80000000).toNat = v.toNat + 2 ^ 31 := by
  have sum := two_pow_add_eq_or_of_lt low 1
  rw [Nat.mul_one] at sum
  rw [UInt32.toNat_or, Nat.or_comm]
  exact sum.symm.trans (add_comm _ _)

lemma high_iff (v : UInt32) : v &&& 0x80000000 > 0 ↔ 2 ^ 31 ≤ v.toNat := by
  have less := v.toNat_lt
  rw [gt_iff_lt, UInt32.lt_iff_toNat_lt, UInt32.toNat_and, show (0x80000000 : UInt32).toNat = 2 ^ 31 from rfl,
    and_two_pow v.toNat 31, testBit_eq_decide_div_mod_eq]
  by_cases bit : v.toNat / 2 ^ 31 % 2 = 1
  · rw [decide_eq_true bit]
    exact iff_of_true (by decide) (by omega)
  · rw [decide_eq_false bit]
    exact iff_of_false (by decide) (by omega)

lemma toNat_clearHigh (v : UInt32) : (v &&& ~~~ 0x80000000).toNat = v.toNat % 2 ^ 31 := by
  rw [UInt32.toNat_and, show (~~~ 0x80000000 : UInt32).toNat = 2 ^ 31 - 1 from rfl, and_two_pow_sub_one_eq_mod]

lemma toNat_complement (v : UInt32) : (~~~ v).toNat = 2 ^ 32 - 1 - v.toNat := toNat_not v

def floatKey (v : UInt32) : Int := if v.toNat < 2 ^ 31 then v.toNat else 2 ^ 31 - v.toNat

def IsNumber (v : UInt32) : Prop := -0x7F800000 ≤ floatKey v ∧ floatKey v ≤ 0x7F800000

def floatCode (key : Int) : Int := if 0 ≤ key then key + 2 ^ 31 else key + 2 ^ 31 - 1

lemma floatCode_le {key key' : Int} (le : key ≤ key') : floatCode key ≤ floatCode key' := by
  rw [floatCode, floatCode]
  split_ifs <;> omega

lemma floatNonneg_iff (number : IsNumber v) : floatNonneg v = true ↔ 0 ≤ floatKey v := by
  obtain ⟨low, high⟩ := number
  have infinity : (0x7F800000 : UInt32).toNat = 0x7F800000 := rfl
  have zero : (0x80000000 : UInt32).toNat = 2 ^ 31 := rfl
  rw [floatNonneg, Bool.or_eq_true, decide_eq_true_eq, decide_eq_true_eq, UInt32.le_iff_toNat_le, ← UInt32.toNat_inj,
    infinity, zero]
  rw [floatKey] at low high ⊢
  split at low
  · rename_i positive
    rw [if_pos positive] at high ⊢
    omega
  · rename_i negative
    rw [if_neg negative]
    omega

lemma toNat_floatToUint32 (number : IsNumber v) : ((floatToUint32 v).toNat : Int) = floatCode (floatKey v) := by
  have less := v.toNat_lt
  have nonneg := floatNonneg_iff number
  rw [floatToUint32, floatCode]
  by_cases sign : 0 ≤ floatKey v
  · rw [if_pos (nonneg.mpr sign), if_pos sign]
    rw [floatKey] at sign ⊢
    by_cases positive : v.toNat < 2 ^ 31
    · rw [if_pos positive, toNat_setHigh positive]
      exact cast_add _ _
    · rw [if_neg positive] at sign ⊢
      have zero : v = 0x80000000 := UInt32.toNat_inj.mp (show v.toNat = 2 ^ 31 by omega)
      rw [zero]
      rfl
  · rw [if_neg (mt nonneg.mp sign), if_neg sign, toNat_complement]
    rw [floatKey] at sign ⊢
    by_cases positive : v.toNat < 2 ^ 31
    · rw [if_pos positive] at sign
      omega
    · rw [if_neg positive]
      omega

lemma floatKey_uint32ToFloat (n : UInt32) :
    floatKey (uint32ToFloat n) = if 2 ^ 31 ≤ n.toNat then (n.toNat : Int) - 2 ^ 31 else (n.toNat : Int) - 2 ^ 31 + 1 := by
  have less := n.toNat_lt
  rw [uint32ToFloat]
  by_cases high : 2 ^ 31 ≤ n.toNat
  · rw [if_pos ((high_iff n).mpr high), if_pos high, floatKey, toNat_clearHigh, if_pos (mod_lt _ (by decide))]
    omega
  · rw [if_neg (mt (high_iff n).mp high), if_neg high, floatKey, toNat_complement]
    split <;> omega

lemma floatKey_of_code (number : IsNumber v) {n : UInt32} (code : (n.toNat : Int) = floatCode (floatKey v)) :
    floatKey (uint32ToFloat n) = floatKey v := by
  obtain ⟨low, high⟩ := number
  rw [floatKey_uint32ToFloat]
  rw [floatCode] at code
  split at code <;> split <;> omega

lemma uint32ToFloat_floatToUint32 (number : IsNumber v) : uint32ToFloat (floatToUint32 v) = if v = 0x80000000 then 0 else v := by
  have code := toNat_floatToUint32 number
  have less := v.toNat_lt
  rw [uint32ToFloat]
  rw [floatCode] at code
  by_cases sign : 0 ≤ floatKey v
  · rw [if_pos sign] at code
    rw [if_pos ((high_iff _).mpr (by omega)), ← UInt32.toNat_inj, toNat_clearHigh]
    rw [floatKey] at code sign
    split at code
    · rw [if_neg (fun zero => by simp_all)]
      omega
    · rename_i negative
      rw [if_neg negative] at sign
      rw [if_pos (UInt32.toNat_inj.mp (show v.toNat = 2 ^ 31 by omega)), UInt32.toNat_zero]
      omega
  · rw [if_neg sign] at code
    rw [if_neg (mt (high_iff _).mp (by omega)), ← UInt32.toNat_inj, toNat_complement]
    rw [floatKey] at code sign
    rw [if_neg (fun zero => by simp_all)]
    split at code <;> omega

theorem floatToUint32_order (u v : UInt32) (first : IsNumber u) (second : IsNumber v) :
    (floatKey u < floatKey v ↔ floatToUint32 u < floatToUint32 v) ∧
      uint32ToFloat (floatToUint32 v) = if v = 0x80000000 then 0 else v := by
  refine ⟨?_, uint32ToFloat_floatToUint32 second⟩
  have code := toNat_floatToUint32 first
  have code' := toNat_floatToUint32 second
  rw [lt_iff_toNat_lt, ← Int.ofNat_lt, code, code']
  constructor
  · intro less
    rw [floatCode, floatCode]
    split_ifs <;> omega
  · intro less
    by_contra ge
    exact absurd (floatCode_le (Int.not_lt.mp ge)) (Int.not_le.mpr less)

-- from -∞ to -0
theorem floatToUint32_order_infinity :
    floatToUint32 0xFF800000 < floatToUint32 0x80000000 ∧ uint32ToFloat (floatToUint32 0x80000000) = 0 := by
  have order := floatToUint32_order 0xFF800000 0x80000000 (by rw [IsNumber]; decide) (by rw [IsNumber]; decide)
  exact ⟨order.1.mp (by decide), order.2⟩

end

def floatOptions (lo hi : UInt32) (k : Nat) : BsiOptions := { default.setMinMaxFloat lo hi with limitTopK := k }

structure FloatRange (lo hi : UInt32) : Prop where
  low : IsNumber lo
  high : IsNumber hi
  le : floatKey lo ≤ floatKey hi

def Within (lo hi v : UInt32) : Prop := IsNumber v ∧ floatKey lo ≤ floatKey v ∧ floatKey v ≤ floatKey hi

section
variable {lo hi v : UInt32} {k : Nat}

section
variable (range : FloatRange lo hi)
include range

lemma FloatRange.min : ((floatOptions lo hi k).min : Int) = floatCode (floatKey lo) :=
  toNat_floatToUint32 range.low

lemma FloatRange.max : floatCode (floatKey hi) ≤ (floatOptions lo hi k).max ∧ (floatOptions lo hi k).max < 2 ^ 32 := by
  have max : (floatOptions lo hi k).max = (floatToUint32 (if (decide (lo = 0) || decide (lo = 0x80000000)) &&
      (decide (hi = 0) || decide (hi = 0x80000000)) then 0x4F000000 else hi)).toNat := rfl
  rw [max]
  refine ⟨?_, toNat_lt _⟩
  split
  · rename_i zeros
    have zero : floatKey hi = 0 := by
      rcases (Bool.or_eq_true _ _).mp ((Bool.and_eq_true _ _).mp zeros).2 with same | same
      · rw [of_decide_eq_true same]
        rfl
      · rw [of_decide_eq_true same]
        rfl
    rw [zero]
    decide
  · exact Int.le_of_eq (toNat_floatToUint32 range.high).symm

lemma FloatRange.distance : floatCode (floatKey hi) - floatCode (floatKey lo) ≤ (floatOptions lo hi k).distance ∧
      (floatOptions lo hi k).distance < 2 ^ 63 := by
  have min := range.min (k := k)
  obtain ⟨above, bound⟩ := range.max (k := k)
  have le := floatCode_le range.le
  rw [BsiOptions.distance, u64_of_range (by omega) (by omega)]
  omega

section
variable (within : Within lo hi v)
include within

lemma FloatRange.toLocalValFloat :
    ((floatOptions lo hi k).toLocalValFloat v : Int) = floatCode (floatKey v) - floatCode (floatKey lo) := by
  have min := range.min (k := k)
  have code := toNat_floatToUint32 within.1
  have le := floatCode_le within.2.1
  have small := (floatToUint32 v).toNat_lt
  rw [BsiOptions.toLocalValFloat, u64_of_range (by omega) (by omega)]
  omega

lemma FloatRange.toLocalValFloat_lt : (floatOptions lo hi k).toLocalValFloat v < 2 ^ (floatOptions lo hi k).bitDepth := by
  obtain ⟨far, short⟩ := range.distance (k := k)
  have value := range.toLocalValFloat within (k := k)
  have le := floatCode_le within.2.2
  have room := distance_lt short
  omega

lemma FloatRange.getActualFloatVal :
    floatKey ((floatOptions lo hi k).getActualFloatVal ((floatOptions lo hi k).toLocalValFloat v)) = floatKey v := by
  have min := range.min (k := k)
  have value := range.toLocalValFloat within (k := k)
  have code := toNat_floatToUint32 within.1
  have small := (floatToUint32 v).toNat_lt
  refine floatKey_of_code within.1 ?_
  rw [toNat_ofNat', mod_eq_of_lt (by omega)]
  omega

lemma FloatRange.old_ne : floatKey (uint32ToFloat (ofNat ((floatOptions lo hi k).toLocalValFloat v))) ≠ floatKey v := by
  have value := range.toLocalValFloat within (k := k)
  have code := toNat_floatToUint32 within.1
  have small := (floatToUint32 v).toNat_lt
  obtain ⟨low, -⟩ := range.low
  -- the code of the least number is far from zero
  have least : 2 ≤ floatCode (floatKey lo) := by
    rw [floatCode]
    split <;> omega
  rw [floatKey_uint32ToFloat, toNat_ofNat', mod_eq_of_lt (by omega)]
  rw [floatCode] at value code
  split <;> split at value <;> omega

end

end

end

inductive FloatOp where
  | put (id : UInt32) (v : UInt32)
  | remove (id : UInt32) (v : UInt32)

namespace FloatOp

def value : FloatOp → UInt32
  | .put _ v | .remove _ v => v

def apply (b : BitSliceIndex) : FloatOp → BitSliceIndex
  | .put id v => (b.putFloat id v).1
  | .remove id v => b.removeFloat id v

def track (m : UInt32 → Option UInt32) : FloatOp → UInt32 → Option UInt32
  | .put id v => Function.update m id (some v)
  | .remove id _ => Function.update m id none

end FloatOp

def floatIndex (o : BsiOptions) (ops : List FloatOp) : BitSliceIndex := ops.foldl FloatOp.apply (.new o)

def floatMap (ops : List FloatOp) : UInt32 → Option UInt32 := ops.foldl FloatOp.track fun _ => none

def SameFloat (v w : UInt32) : Prop := floatKey v = floatKey w

/-- In every state of the run `Get` gives the last value put, and every put reports the value before it. -/
def RefinesFloats (o : BsiOptions) (ops : List FloatOp) : Prop :=
  ∀ done, done <+: ops →
    (∀ id, Option.Rel SameFloat ((floatIndex o done).getFloat id) (floatMap done id)) ∧
      ∀ id v, done ++ [.put id v] <+: ops → Option.Rel SameFloat ((floatIndex o done).putFloat id v).2 (floatMap done id)

def PutsAbsent (o : BsiOptions) (ops : List FloatOp) : Prop :=
  ∀ done id v, done ++ [.put id v] <+: ops →
    floatMap done id = none ∧ (o.limitTopK = 0 ∨ (floatIndex o done).exist.card < o.limitTopK)

structure FloatHolds (lo hi : UInt32) (k : Nat) (b : BitSliceIndex) (m : UInt32 → Option UInt32) : Prop where
  options : b.options = floatOptions lo hi k
  depth : b.bitDepth = (floatOptions lo hi k).bitDepth
  within : ∀ id v, m id = some v → Within lo hi v
  holds : b.Holds fun id => (m id).map (floatOptions lo hi k).toLocalValFloat

section
variable {lo hi v : UInt32} {k : Nat} {b : BitSliceIndex} {m : UInt32 → Option UInt32} {id : UInt32}

lemma within_update {x : Option UInt32} (within : ∀ id v, m id = some v → Within lo hi v)
    (new : ∀ v, x = some v → Within lo hi v) (j w : UInt32) (found : update m id x j = some w) : Within lo hi w := by
  rcases eq_or_ne j id with rfl | other
  · rw [update_self] at found
    exact new w found
  · rw [update_of_ne other] at found
    exact within j w found

lemma floatHolds_new (lo hi : UInt32) (k : Nat) : FloatHolds lo hi k (.new (floatOptions lo hi k)) fun _ => none :=
  ⟨rfl, rfl, fun _ _ none => (nomatch none), holds_new _⟩

lemma FloatHolds.room (holds : FloatHolds lo hi k b m) (room : k = 0 ∨ b.exist.card < k) : b.Room id := by
  rw [Room, holds.options]
  exact .inr room

lemma FloatHolds.put (range : FloatRange lo hi) (holds : FloatHolds lo hi k b m) (within : Within lo hi v) (room : b.Room id) :
    FloatHolds lo hi k (b.putFloat id v).1 (update m id (some v)) ∧
      (b.putFloat id v).2 = (m id).map fun w => uint32ToFloat (ofNat ((floatOptions lo hi k).toLocalValFloat w)) := by
  have shaped := b.shaped_doPut id (b.options.toLocalValFloat v)
  obtain ⟨after, old⟩ := holds.holds.doPut id (b.options.toLocalValFloat v) room
  refine ⟨⟨shaped.options.trans holds.options, shaped.depth.trans holds.depth, ?_, ?_⟩, ?_⟩
  · exact within_update holds.within fun w same => Option.some.inj same ▸ within
  · rw [map_update]
    rw [holds.options, holds.depth, mod_eq_of_lt (range.toLocalValFloat_lt within)] at after
    rw [putFloat, holds.options]
    exact after
  · show (b.doPut id (b.options.toLocalValFloat v)).2.map _ = _
    rw [old, Option.map_map]
    rfl

lemma FloatHolds.remove (holds : FloatHolds lo hi k b m) (id v : UInt32) :
    FloatHolds lo hi k (b.removeFloat id v) (update m id none) := by
  have shaped := b.shaped_doRemove id (b.options.toLocalValFloat v)
  refine ⟨shaped.options.trans holds.options, shaped.depth.trans holds.depth, ?_, ?_⟩
  · exact within_update holds.within fun w none => (nomatch none)
  · rw [map_update]
    exact holds.holds.doRemove id _

lemma FloatHolds.getFloat (range : FloatRange lo hi) (holds : FloatHolds lo hi k b m) (id : UInt32) :
    Option.Rel SameFloat (b.getFloat id) (m id) := by
  rw [BitSliceIndex.getFloat, holds.holds.doGet, holds.options]
  cases present : m id with
  | none => exact .none
  | some w => exact .some (range.getActualFloatVal (holds.within id w present))

lemma floatIndex_append (o : BsiOptions) (done : List FloatOp) (op : FloatOp) :
    floatIndex o (done ++ [op]) = op.apply (floatIndex o done) := foldl_concat ..

lemma floatMap_append (done : List FloatOp) (op : FloatOp) : floatMap (done ++ [op]) = op.track (floatMap done) :=
  foldl_concat ..

lemma floatHolds_run {ops : List FloatOp} (range : FloatRange lo hi) (within : ∀ op ∈ ops, Within lo hi op.value)
    (room : ∀ done id v, done ++ [.put id v] <+: ops → k = 0 ∨ (floatIndex (floatOptions lo hi k) done).exist.card < k)
    {done : List FloatOp} (here : done <+: ops) : FloatHolds lo hi k (floatIndex (floatOptions lo hi k) done) (floatMap done) := by
  induction done using reverseRecOn with
  | nil => exact floatHolds_new lo hi k
  | append_singleton done op ih =>
    have before := ih ((prefix_append _ _).trans here)
    have value := within op (here.subset (mem_append_right _ (mem_singleton_self op)))
    rw [floatIndex_append, floatMap_append]
    cases op with
    | put id v => exact (before.put range value (before.room (room done id v here))).1
    | remove id v => exact before.remove id v

lemma within_put {ops done : List FloatOp} (within : ∀ op ∈ ops, Within lo hi op.value) (next : done ++ [.put id v] <+: ops) :
    Within lo hi v :=
  within (.put id v) (next.subset (mem_append_right _ (mem_singleton_self _)))

/-- The float index is the map of the last values, and reports the values before, if no put finds its id present (or is beyond
    the limit); and without a limit only then. -/
theorem float_index_refines_map_iff (range : FloatRange lo hi) (k : Nat) (ops : List FloatOp)
    (within : ∀ op ∈ ops, Within lo hi op.value) :
    (PutsAbsent (floatOptions lo hi k) ops → RefinesFloats (floatOptions lo hi k) ops) ∧
      (k = 0 → RefinesFloats (floatOptions lo hi k) ops → PutsAbsent (floatOptions lo hi k) ops) := by
  constructor
  · intro absent done here
    have holds := floatHolds_run (k := k) range within (fun done id v next => (absent done id v next).2) here
    refine ⟨holds.getFloat range, fun id v next => ?_⟩
    obtain ⟨none, room⟩ := absent done id v next
    rw [(holds.put range (within_put within next) (holds.room room)).2, none]
    exact .none
  · rintro rfl refines done id v next
    have here : done <+: ops := (prefix_append _ _).trans next
    have holds := floatHolds_run (k := 0) range within (fun _ _ _ _ => .inl rfl) here
    refine ⟨?_, .inl rfl⟩
    have report := (refines done here).2 id v next
    rw [(holds.put range (within_put within next) (holds.room (.inl rfl))).2] at report
    cases present : floatMap done id with
    | none => rfl
    | some w =>
      rw [present] at report
      cases report with
      | some same => exact absurd same (range.old_ne (holds.within id w present))

end

/-! Two puts of one id on the range from 0 to 1: 0.5 and then 1. -/

lemma unitRange : FloatRange 0 0x3F800000 := ⟨⟨by decide, by decide⟩, ⟨by decide, by decide⟩, by decide⟩

lemma within_unitRange : Within 0 0x3F800000 0x3F000000 ∧ Within 0 0x3F800000 0x3F800000 :=
  ⟨⟨⟨by decide, by decide⟩, by decide, by decide⟩, ⟨⟨by decide, by decide⟩, by decide, by decide⟩⟩

theorem old_value_shifted : FloatRange 0 0x3F800000 ∧
    (∀ op ∈ [FloatOp.put 7 0x3F000000, .put 7 0x3F800000], Within 0 0x3F800000 op.value) ∧
    ((floatIndex (floatOptions 0 0x3F800000 0) [.put 7 0x3F000000]).putFloat 7 0x3F800000).2 = some 0xC0FFFFFF ∧
    ¬ RefinesFloats (floatOptions 0 0x3F800000 0) [.put 7 0x3F000000, .put 7 0x3F800000] := by
  have old : ((floatIndex (floatOptions 0 0x3F800000 0) [.put 7 0x3F000000]).putFloat 7 0x3F800000).2 = some 0xC0FFFFFF := by
    decide +kernel
  refine ⟨unitRange, ?_, old, fun refines => ?_⟩
  · intro op member
    rcases mem_cons.mp member with rfl | member
    · exact within_unitRange.1
    · rw [mem_singleton.mp member]
      exact within_unitRange.2
  · have report := (refines [.put 7 0x3F000000] ⟨[.put 7 0x3F800000], rfl⟩).2 7 0x3F800000 (prefix_refl _)
    rw [old, show floatMap [.put 7 0x3F000000] 7 = some 0x3F000000 from rfl] at report
    cases report with
    | some same => exact absurd same (by unfold SameFloat; decide)

theorem float_index_refines_map_iff_removed : FloatRange 0 0x3F800000 ∧
    (∀ op ∈ [FloatOp.put 7 0x3F000000, .remove 7 0x3F000000, .put 7 0x3F800000], Within 0 0x3F800000 op.value) ∧
    RefinesFloats (floatOptions 0 0x3F800000 0) [.put 7 0x3F000000, .remove 7 0x3F000000, .put 7 0x3F800000] := by
  have within : ∀ op ∈ [FloatOp.put 7 0x3F000000, .remove 7 0x3F000000, .put 7 0x3F800000], Within 0 0x3F800000 op.value := by
    intro op member
    simp only [mem_cons, not_mem_nil, or_false] at member
    rcases member with rfl | rfl | rfl
    · exact within_unitRange.1
    · exact within_unitRange.1
    · exact within_unitRange.2
  refine ⟨unitRange, within, (float_index_refines_map_iff unitRange 0 _ within).1 fun done id v next => ⟨?_, .inl rfl⟩⟩
  match done, next with
  | [], next =>
    obtain ⟨rest, same⟩ := next
    cases same
    rfl
  | [op], next =>
    obtain ⟨rest, same⟩ := next
    cases same
  | [op, op'], next =>
    obtain ⟨rest, same⟩ := next
    cases same
    rfl
  | _ :: _ :: _ :: rest, next =>
    have length := next.length_le
    simp only [length_append, length_cons, length_nil] at length
    omega

end Myctk.Robims
