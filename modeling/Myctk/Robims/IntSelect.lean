import Myctk.Robims.BsiRanges

/-! `Select` of an integer field. The constant becomes a local value of 64 bits, of which the index looks at as many bits as
    it has. -/

namespace Myctk.Robims

open BitSliceIndex Int FieldOperator Index BsiOptions Option Except

section
variable {b : BitSliceIndex} {id : UInt32} {v x d r : Nat} {op : FieldOperator} {out : Bitmap}

def FieldOperator.IsComparison (op : FieldOperator) : Prop := op ≠ .between ∧ op ≠ .all

def RangeAnswer (d r x : Nat) : FieldOperator → Prop
  | .eq => x = r
  | .neq => x ≠ r
  | .gt => d = 0 ∨ r < x
  | .gte => r ≤ x
  | .lt => StrictAnswer r x
  | .lte => x ≤ r
  | .between | .all => False

lemma mem_doRangeGT_iff (whole : b.Whole) (present : b.doGet id = some x) (allowEq : Bool) : id ∈ b.doRangeGT v allowEq ∅ ↔
      b.bitDepth = 0 ∨ v % 2 ^ b.bitDepth < x ∨ allowEq = true ∧ v % 2 ^ b.bitDepth = x := by
  rcases eq_zero_or_pos b.bitDepth with flat | deep
  · have there : id ∈ b.exist := (doGet_eq_some_iff.mp present).1
    rw [doRangeGT, restrict_empty, flat]
    exact iff_of_true there (.inl rfl)
  · rw [doRangeGT_mod, mem_doRangeGT whole.holds deep (Nat.mod_lt _ (Nat.two_pow_pos _)) allowEq present,
      or_iff_right (ne_of_gt deep)]

lemma mem_doRangeLT_iff (whole : b.Whole) (present : b.doGet id = some x) (allowEq : Bool) : id ∈ b.doRangeLT v allowEq ∅ ↔
      b.bitDepth = 0 ∨ if allowEq then x < v % 2 ^ b.bitDepth ∨ x = v % 2 ^ b.bitDepth else StrictAnswer (v % 2 ^ b.bitDepth) x := by
  rcases eq_zero_or_pos b.bitDepth with flat | deep
  · have there : id ∈ b.exist := (doGet_eq_some_iff.mp present).1
    rw [doRangeLT, restrict_empty, flat]
    exact iff_of_true there (.inl rfl)
  · rw [doRangeLT_mod, mem_doRangeLT whole.holds deep (Nat.mod_lt _ (Nat.two_pow_pos _)) allowEq present,
      or_iff_right (ne_of_gt deep)]

lemma mem_doRangeEQ_iff (present : b.doGet id = some x) : id ∈ b.doRangeEQ v ∅ ↔ x = v % 2 ^ b.bitDepth := by
  obtain ⟨there, rfl⟩ := doGet_eq_some_iff.mp present
  rw [mem_doRangeEQ, and_iff_right there, Lib.spells_iff, value]

lemma mem_selectRange (whole : b.Whole) (comparison : op.IsComparison) : ∃ out, selectRange b op v = .ok out ∧
    ∀ id, id ∈ out ↔ ∃ x, b.doGet id = some x ∧ RangeAnswer b.bitDepth (v % 2 ^ b.bitDepth) x op := by
  have within : ∀ {out : Bitmap} {answer : Nat → Prop}, out ⊆ b.exist →
      (∀ {id x}, b.doGet id = some x → (id ∈ out ↔ answer x)) → ∀ id, id ∈ out ↔ ∃ x, b.doGet id = some x ∧ answer x := by
    intro out answer inside right id
    constructor
    · intro member
      have present := doGet_eq_some_iff.mpr ⟨inside member, rfl⟩
      exact ⟨_, present, (right present).mp member⟩
    · rintro ⟨x, present, holds⟩
      exact (right present).mpr holds
  -- without a bit there is the value zero only
  have flat : ∀ {id x}, b.doGet id = some x → b.bitDepth = 0 → x = 0 ∧ v % 2 ^ b.bitDepth = 0 := by
    intro id x present zero
    have less := whole.holds.lt id x present
    rw [zero] at less ⊢
    omega
  cases op with
  | eq =>
    refine ⟨_, rfl, within (fun id member => ?_) mem_doRangeEQ_iff⟩
    exact ((mem_doRangeEQ v).mp member).1
  | neq => exact ⟨_, rfl, fun id => mem_doRangeNEQ v⟩
  | gt =>
    refine ⟨_, rfl, within (b.doRangeGT_subset v false) fun present => ?_⟩
    rw [mem_doRangeGT_iff whole present]
    simp [RangeAnswer]
  | gte =>
    refine ⟨_, rfl, within (b.doRangeGT_subset v true) fun present => ?_⟩
    have none := flat present
    rw [mem_doRangeGT_iff whole present, RangeAnswer]
    generalize v % 2 ^ b.bitDepth = r at none
    simp only [true_and]
    omega
  | lt =>
    refine ⟨_, rfl, within (b.doRangeLT_subset v false) fun present => ?_⟩
    rw [mem_doRangeLT_iff whole present, RangeAnswer]
    simp only [Bool.false_eq_true, if_false, or_iff_right_iff_imp]
    intro zero
    obtain ⟨rfl, none⟩ := flat present zero
    rw [none, StrictAnswer, if_pos rfl]
  | lte =>
    refine ⟨_, rfl, within (b.doRangeLT_subset v true) fun present => ?_⟩
    have none := flat present
    rw [mem_doRangeLT_iff whole present, RangeAnswer]
    generalize v % 2 ^ b.bitDepth = r at none
    simp only [if_true]
    omega
  | between => exact absurd rfl comparison.1
  | all => exact absurd rfl comparison.2

end

section
variable {lo c v : Int} {d : Nat} {op : FieldOperator}

def FieldOperator.Compares (v c : Int) : FieldOperator → Prop
  | .eq => v = c
  | .neq => v ≠ c
  | .gt => c < v
  | .gte => c ≤ v
  | .lt => v < c
  | .lte => v ≤ c
  | .between | .all => False

instance (v c : Int) (op : FieldOperator) : Decidable (op.Compares v c) := by
  cases op <;> unfold Compares <;> infer_instance

/-- The number with the same lowest bits, counted from `lo` on. -/
def folded (d : Nat) (lo c : Int) : Int := lo + (c - lo) % 2 ^ d

/-- A stored value is compared rightly with the constant. -/
def Judged (d : Nat) (lo c v : Int) : FieldOperator → Prop
  | .eq | .neq => v = c ∨ ¬ (2 : Int) ^ d ∣ v - c
  | .gt => if d = 0 then c < v else (c < lo → folded d lo c < v) ∧ (lo + 2 ^ d ≤ c → v ≤ folded d lo c)
  | .gte => (c < lo → folded d lo c ≤ v) ∧ (lo + 2 ^ d ≤ c → v < folded d lo c)
  | .lte => (c < lo → folded d lo c < v) ∧ (lo + 2 ^ d ≤ c → v ≤ folded d lo c)
  | .lt =>
    (lo ≤ c → c < lo + 2 ^ d →
      (c = lo → v ≠ lo) ∧ ((c - lo) % 2 = 1 → v ≠ c ∧ ¬ ((v - lo) % 2 = 0 ∧ v + 1 < c))) ∧
    (c < lo →
      (folded d lo c = lo → v ≠ lo) ∧
      ((folded d lo c - lo) % 2 = 1 → folded d lo c < v ∨ (v - lo) % 2 = 0 ∧ v + 1 < folded d lo c) ∧
      ((folded d lo c - lo) % 2 = 0 → folded d lo c ≠ lo → folded d lo c ≤ v)) ∧
    (lo + 2 ^ d ≤ c →
      (folded d lo c = lo → v = lo) ∧
      ((folded d lo c - lo) % 2 = 1 → v = folded d lo c ∨ v + 1 = folded d lo c ∨ v < folded d lo c ∧ (v - lo) % 2 = 1) ∧
      ((folded d lo c - lo) % 2 = 0 → folded d lo c ≠ lo → v < folded d lo c))
  | .between | .all => True

lemma strictAnswer_cases {r x : Nat} : StrictAnswer r x ↔
    r = 0 ∧ x = 0 ∨ r ≠ 0 ∧ r % 2 = 0 ∧ x < r ∨ r % 2 = 1 ∧ (x = r ∨ x + 1 = r ∨ x < r ∧ x % 2 = 1) := by
  simp only [StrictAnswer, Lib.Above, Lib.Alike, Nat.testBit_zero, decide_eq_true_eq, Nat.pow_one]
  split_ifs <;> omega

lemma folded_spec (d : Nat) (lo c : Int) : ∃ r : Nat, ((c - lo) % 2 ^ d).toNat = r ∧ folded d lo c = lo + r ∧
    (lo ≤ c → c < lo + 2 ^ d → (r : Int) = c - lo) ∧ ∀ x : Nat, x < 2 ^ d → ((2 : Int) ^ d ∣ lo + x - c ↔ x = r) := by
  have positive : (0 : Int) < 2 ^ d := Int.pow_pos (by decide)
  have nonneg := emod_nonneg (c - lo) (ne_of_gt positive)
  have number := toNat_of_nonneg nonneg
  refine ⟨_, rfl, by rw [folded, number], fun above under => ?_, fun x small => ?_⟩
  · rw [number, emod_eq_of_lt (by omega) (by omega)]
  · have less : (x : Int) < 2 ^ d := by exact_mod_cast small
    have same : (x : Int) % 2 ^ d = x := emod_eq_of_lt (natCast_nonneg x) less
    have shift : lo + x - c = x - (c - lo) := by omega
    rw [shift, dvd_iff_emod_eq_zero, ← emod_eq_emod_iff_emod_sub_eq_zero, same, ← number]
    exact ofNat_inj

lemma judged_lt_iff {x : Nat} (small : x < 2 ^ d) :
    (RangeAnswer d ((c - lo) % 2 ^ d).toNat x .lt ↔ lt.Compares (lo + x) c) ↔ Judged d lo c (lo + x) .lt := by
  obtain ⟨r, number, folds, within, -⟩ := folded_spec d lo c
  replace small : (x : Int) < 2 ^ d := by exact_mod_cast small
  have positive : (0 : Int) < 2 ^ d := Int.pow_pos (by decide)
  rw [number, Judged, folds, RangeAnswer, Compares, strictAnswer_cases]
  simp only [add_sub_cancel_left]
  clear number folds
  rcases Int.lt_or_le c lo with below | above
  · have far : ¬ lo + 2 ^ d ≤ c := by omega
    have none : ¬ lo + x < c := by omega
    simp only [below, not_le.mpr below, far, none, false_implies, true_implies, true_and, and_true, iff_false]
    clear within small far positive below none
    omega
  · rcases Int.lt_or_le c (lo + 2 ^ d) with under | beyond
    · obtain rfl : c = lo + r := by
        have same := within above under
        omega
      simp only [above, under, not_lt.mpr above, not_le.mpr under, false_implies, true_implies, and_true]
      clear within small above under positive
      omega
    · have all : lo + x < c := by omega
      simp only [above, beyond, not_lt.mpr above, not_lt.mpr beyond, all, false_implies, true_implies, implies_true,
        true_and, iff_true]
      clear within small above beyond positive all
      omega

lemma judged_iff {x : Nat} (less : x < 2 ^ d) :
    (RangeAnswer d ((c - lo) % 2 ^ d).toNat x op ↔ op.Compares (lo + x) c) ↔ Judged d lo c (lo + x) op := by
  obtain ⟨r, number, folds, within, divides⟩ := folded_spec d lo c
  replace divides := divides x less
  have flat : d = 0 → (2 : Int) ^ d = 1 := by
    rintro rfl
    rfl
  have small : (x : Int) < 2 ^ d := by exact_mod_cast less
  cases op with
  | eq =>
    rw [number, Judged, divides, RangeAnswer, Compares]
    omega
  | neq =>
    rw [number, Judged, divides, RangeAnswer, Compares]
    omega
  | gt =>
    rw [number, Judged, folds, RangeAnswer, Compares]
    split <;> omega
  | gte =>
    rw [number, Judged, folds, RangeAnswer, Compares]
    omega
  | lt => exact judged_lt_iff less
  | lte =>
    rw [number, Judged, folds, RangeAnswer, Compares]
    omega
  | between => simp [Judged, RangeAnswer, Compares]
  | all => simp [Judged, RangeAnswer, Compares]

end

structure IntField (lo hi : Int64) (b : BitSliceIndex) : Prop where
  whole : b.Whole
  options : ∃ k, b.options = { intOptions lo hi with limitTopK := k }
  depth : b.bitDepth = (intOptions lo hi).bitDepth
  stored : ∀ id v, b.getInt id = some v → lo.toInt ≤ v ∧ v ≤ hi.toInt

section
variable {lo hi : Int64} {b : BitSliceIndex} {id : UInt32}

lemma IntField.shallow (field : IntField lo hi b) : b.bitDepth ≤ 63 := field.depth ▸ bitDepth_le _

lemma IntField.minInt (field : IntField lo hi b) : b.options.minInt = lo.toInt := by
  obtain ⟨k, options⟩ := field.options
  rw [options]
  rfl

lemma IntField.getInt_eq_some_iff (field : IntField lo hi b) {v : Int} :
    b.getInt id = some v ↔ ∃ x, b.doGet id = some x ∧ v = lo.toInt + x := by
  have actual : ∀ x, b.doGet id = some x → b.options.getActualIntVal x = lo.toInt + x := by
    intro x present
    have range := field.stored id (b.options.getActualIntVal x) (by rw [getInt, present]; rfl)
    have least := lo.le_toInt
    have greatest := lo.toInt_lt
    have small : x < 2 ^ 63 :=
      (field.whole.holds.lt id x present).trans_le (Nat.pow_le_pow_right Nat.two_pos field.shallow)
    rw [getActualIntVal, field.minInt, i64, bmod_def] at range ⊢
    split at range <;> omega
  rw [getInt, map_eq_some_iff]
  constructor
  · rintro ⟨x, present, rfl⟩
    exact ⟨x, present, actual x present⟩
  · rintro ⟨x, present, rfl⟩
    exact ⟨x, present, actual x present⟩

lemma toLocalVal_mod (x : Int) {d : Nat} (shallow : d ≤ 63) : u64 x % 2 ^ d = (x % 2 ^ d).toNat := by
  have dvd : (2 : Int) ^ d ∣ 2 ^ 64 := pow_dvd_pow 2 (shallow.trans (by decide))
  have nonneg : 0 ≤ x % 2 ^ 64 := emod_nonneg x (by decide)
  zify
  rw [u64, toNat_of_nonneg nonneg, emod_emod_of_dvd x dvd, toNat_of_nonneg]
  exact Int.emod_nonneg x (Int.ne_of_gt (Int.pow_pos (by decide)))

/-- A comparison gives precisely the ids whose values stand to the constant as asked for, if and only if every stored value is
    compared rightly. -/
theorem selectInt_exact_iff (field : IntField lo hi b) {op : FieldOperator} (comparison : op.IsComparison) (c : Int64)
    (table : Bitmap) :
    (∃ out, (int b).select table op (.int c.toInt) = .ok out ∧
      ∀ id, id ∈ out ↔ ∃ v, b.getInt id = some v ∧ op.Compares v c.toInt) ↔
      ∀ id v, b.getInt id = some v → Judged b.bitDepth lo.toInt c.toInt v op := by
  obtain ⟨out, selects, members⟩ := mem_selectRange (v := b.options.toLocalVal c.toInt) field.whole comparison
  have low : b.options.toLocalVal c.toInt % 2 ^ b.bitDepth = ((c.toInt - lo.toInt) % 2 ^ b.bitDepth).toNat := by
    rw [toLocalVal, field.minInt, toLocalVal_mod _ field.shallow]
  rw [low] at members
  have judged : ∀ {id x}, b.doGet id = some x →
      ((RangeAnswer b.bitDepth ((c.toInt - lo.toInt) % 2 ^ b.bitDepth).toNat x op ↔ op.Compares (lo.toInt + x) c.toInt) ↔
        Judged b.bitDepth lo.toInt c.toInt (lo.toInt + x) op) := fun present => judged_iff (field.whole.holds.lt _ _ present)
  constructor
  · rintro ⟨out', selects', exact⟩ id v stored
    cases (show out = out' from ok.inj (selects.symm.trans selects'))
    obtain ⟨x, present, rfl⟩ := field.getInt_eq_some_iff.mp stored
    rw [← judged present]
    have same := (members id).symm.trans (exact id)
    simp only [present, some.injEq, exists_eq_left', stored] at same
    exact same
  · intro right
    refine ⟨out, selects, fun id => ?_⟩
    rw [members id]
    constructor
    · rintro ⟨x, present, answer⟩
      have stored := field.getInt_eq_some_iff.mpr ⟨x, present, rfl⟩
      exact ⟨_, stored, ((judged present).mpr (right id _ stored)).mp answer⟩
    · rintro ⟨v, stored, compares⟩
      obtain ⟨x, present, rfl⟩ := field.getInt_eq_some_iff.mp stored
      exact ⟨x, present, ((judged present).mpr (right id _ stored)).mpr compares⟩

lemma IntRun.field (proper : ProperRange lo hi) {m : UInt32 → Option Int} (run : IntRun lo hi b m) : IntField lo hi b := by
  obtain ⟨options, depth, range, holds⟩ := run.spec proper
  refine ⟨holds.whole, ⟨0, options⟩, depth, fun id v present => ?_⟩
  rw [getInt, holds.doGet, options, map_map, map_eq_some_iff] at present
  obtain ⟨w, put, rfl⟩ := present
  obtain ⟨above, under⟩ := range id w put
  rw [Function.comp_apply, intOptions_getActualIntVal proper.2 above under]
  exact ⟨above, under⟩

end

/-! A field for the numbers from 0 to 5, with the value 5. -/

def upToFive : BitSliceIndex := (new (intOptions 0 5)).putInt 7 5

lemma intField_upToFive : IntField 0 5 upToFive :=
  (IntRun.init.put 7 (v := 5) (by decide) (by decide)).field ⟨by decide, by decide⟩

theorem outside_constant_matches : IntField 0 5 upToFive ∧ eq.IsComparison ∧ upToFive.getInt 7 = some 5 ∧
    (int upToFive).select ∅ .eq (.int (13 : Int64).toInt) = .ok {7} ∧
    ¬ ∃ out, (int upToFive).select ∅ .eq (.int (13 : Int64).toInt) = .ok out ∧
      ∀ id, id ∈ out ↔ ∃ v, upToFive.getInt id = some v ∧ eq.Compares v (13 : Int64).toInt := by
  have stored : upToFive.getInt 7 = some 5 := by decide +kernel
  have matched : (int upToFive).select ∅ .eq (.int (13 : Int64).toInt) = .ok {7} :=
    congrArg ok (show upToFive.doRangeEQ (upToFive.options.toLocalVal (13 : Int64).toInt) ∅ = {7} by decide +kernel)
  refine ⟨intField_upToFive, ⟨nofun, nofun⟩, stored, matched, ?_⟩
  rintro ⟨out, selects, exact⟩
  cases ok.inj (matched.symm.trans selects)
  obtain ⟨v, present, same⟩ := (exact 7).mp (Finset.mem_singleton_self 7)
  rw [stored] at present
  cases present
  exact absurd same (by decide)

theorem selectInt_exact_iff_gte : IntField 0 5 upToFive ∧ gte.IsComparison ∧
    ∃ out, (int upToFive).select ∅ .gte (.int (3 : Int64).toInt) = .ok out ∧
      ∀ id, id ∈ out ↔ ∃ v, upToFive.getInt id = some v ∧ gte.Compares v (3 : Int64).toInt := by
  have comparison : gte.IsComparison := ⟨nofun, nofun⟩
  refine ⟨intField_upToFive, comparison,
    (selectInt_exact_iff intField_upToFive comparison 3 ∅).mpr fun id v _ => ⟨fun below => ?_, fun beyond => ?_⟩⟩
  · exact absurd below (by decide)
  · exact absurd beyond (by decide +kernel)

end Myctk.Robims
