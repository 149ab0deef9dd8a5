import Myctk.Lib.Greatest
import Myctk.Lib.Runs
import Myctk.Robims.BsiExtremes

/-! The limit of the bit-sliced index. -/

namespace Myctk.Robims.BitSliceIndex

open Finset List Option Prod Function Lib Nat UInt32

variable {b : BitSliceIndex} {id j : UInt32} {m : UInt32 → Option Nat} {k v w : Nat}

lemma firstId_eq_none_iff {ids : Bitmap} : firstId ids = none ↔ ids = ∅ := by
  rw [firstId]
  cases least : (ids.image toNat).min with
  | top => simpa using min_eq_top.mp least
  | coe n =>
    refine iff_of_false (fun none => nomatch none) fun empty => ?_
    rw [empty, image_empty, min_empty] at least
    cases least

lemma firstId_eq_some_iff {ids : Bitmap} : firstId ids = some id ↔ id ∈ ids ∧ ∀ j ∈ ids, id ≤ j := by
  rw [firstId]
  cases least : (ids.image toNat).min with
  | top =>
    rw [image_eq_empty.mp (min_eq_top.mp least)]
    simp
  | coe n =>
    obtain ⟨j, member, rfl⟩ := mem_image.mp (mem_of_min least)
    have first : ∀ l ∈ ids, j ≤ l := fun l there => min_le_of_eq (mem_image_of_mem _ there) least
    show some (ofNat j.toNat) = some id ↔ _
    rw [UInt32.ofNat_toNat, some.injEq]
    exact ⟨fun same => same ▸ ⟨member, first⟩, fun both => UInt32.le_antisymm (first id both.1) (both.2 j member)⟩

lemma mem_of_firstId {ids : Bitmap} (first : firstId ids = some id) : id ∈ ids := (firstId_eq_some_iff.mp first).1

/-- The least number can be found: it is a run of ones that `1 << i` adds up. -/
def Findable (b : BitSliceIndex) (least : Nat) : Prop := ∃ s, s < b.bitDepth ∧ s ≤ 31 ∧ least = 2 ^ s - 1

lemma ones_mod {n n' : Nat} (le : n ≤ n') : (2 ^ n' - 1) % 2 ^ n = 2 ^ n - 1 := by
  refine eq_of_testBit_eq fun i => ?_
  rw [testBit_mod_two_pow, testBit_two_pow_sub_one, testBit_two_pow_sub_one]
  rcases lt_or_ge i n with lt | ge
  · rw [decide_eq_true lt, decide_eq_true (lt.trans_le le)]
    rfl
  · rw [decide_eq_false (Nat.not_lt_of_le ge)]
    rfl

lemma shiftedSum_ones_mod_iff {n : Nat} (free : v.size < n) (shallow : n ≤ 63) :
    shiftedSum (2 ^ v.size - 1) n % 2 ^ 64 % 2 ^ n = v ↔ v.size ≤ 31 ∧ v = 2 ^ v.size - 1 := by
  have small : v < 2 ^ n := (Nat.lt_size_self v).trans (Nat.pow_lt_pow_right Nat.one_lt_two free)
  rw [← shiftedSum_ones_eq_iff small shallow]
  constructor
  · intro same
    rcases lt_or_ge 31 v.size with long | low
    · have lower : 2 ^ (v.size - 1) ≤ v := lt_size.mp (by omega)
      rw [shiftedSum_ones_long long free.le shallow] at same
      rcases Nat.eq_or_lt_of_le long with least | longer
      · -- all ones up to the bit 63 are all ones in the lowest bits
        have all : v = 2 ^ n - 1 := by
          rw [← least, show (2 ^ 64 + 2 ^ (31 + 1 - 32) - 2) % 2 ^ 64 = 2 ^ 64 - 1 from rfl,
            ones_mod (shallow.trans (by decide))] at same
          exact same.symm
        rw [all, size_ones] at free
        exact absurd free (lt_irrefl n)
      · have two : 2 ^ 1 ≤ 2 ^ (v.size - 32) := Nat.pow_le_pow_right Nat.two_pos (by omega)
        have bound : 2 ^ (v.size - 32) ≤ 2 ^ 31 := Nat.pow_le_pow_right Nat.two_pos (by omega)
        have half : 2 ^ (v.size - 1) = 2 ^ (v.size - 32) * 2 ^ 31 := by rw [← pow_add]; congr 1; omega
        have less := mod_le ((2 ^ 64 + 2 ^ (v.size - 32) - 2) % 2 ^ 64) (2 ^ n)
        generalize 2 ^ (v.size - 32) = high at *
        omega
    · have ones : 2 ^ v.size - 1 < 2 ^ n := (Nat.sub_one_lt (ne_of_gt (Nat.two_pow_pos _))).trans
        (Nat.pow_lt_pow_right Nat.one_lt_two free)
      have fits : 2 ^ v.size - 1 < 2 ^ 31 :=
        (Nat.sub_one_lt (ne_of_gt (Nat.two_pow_pos _))).trans_le (Nat.pow_le_pow_right Nat.two_pos low)
      rw [(shiftedSum_mod_eq_iff ones shallow).mpr fits] at same ⊢
      rwa [mod_eq_of_lt ones] at same
  · intro same
    rw [same, mod_eq_of_lt small]

/-- The number in which `do_get_min` ends where `least` is the least one: ones below its highest bit, each as `1 << i` adds it. -/
def readMin (b : BitSliceIndex) (least : Nat) : Nat := shiftedSum (2 ^ least.size - 1) b.bitDepth % 2 ^ 64

section
variable (holds : b.Holds m) (present : m id = some v) (fewest : ∀ j x, m j = some x → v ≤ x)
include holds present fewest

lemma doRemoveMin_eq : b.doRemoveMin.1 = if v.size < b.bitDepth then
    (firstId (b.doRangeEQ (b.readMin v) ∅)).elim b fun j => b.doRemove j (b.readMin v) else b := by
  have there : id ∈ b.filtered none := holds.mem_exist.mpr ⟨v, present⟩
  have found := doGetMin_eq holds there present fun j _ x => fewest j x
  rw [doRemoveMin, show b.doGetMin ∅ = _ from found]
  dsimp only
  by_cases free : v.size < b.bitDepth
  · have short : 0 < (b.havingShort m none v.size).card := by
      refine card_pos.mpr ⟨id, mem_filter.mpr ⟨there, ?_⟩⟩
      show (m id).getD 0 < 2 ^ v.size
      rw [present]
      exact lt_size_self v
    rw [if_neg (ne_of_gt (zero_lt_of_lt free)), if_pos free, if_pos free, if_pos (Int.natCast_pos.mpr short)]
    split
    · rename_i j first
      rw [show firstId (b.doRangeEQ (b.readMin v) ∅) = _ from first]
      rfl
    · rename_i first
      rw [show firstId (b.doRangeEQ (b.readMin v) ∅) = _ from first]
      rfl
  · have none : ¬ (0 : Int) < if b.bitDepth = 0 then 0
        else if v.size < b.bitDepth then ((b.havingShort m none v.size).card : Int) else -1 := by
      rw [if_neg free]
      split <;> decide
    rw [if_neg none, if_neg free]

omit present fewest in
lemma mem_doRangeEQ_iff {j : UInt32} {n : Nat} : j ∈ b.doRangeEQ n ∅ ↔ m j = some (n % 2 ^ b.bitDepth) := by
  rw [mem_doRangeEQ, holds.mem_exist]
  constructor
  · rintro ⟨⟨x, here⟩, spells⟩
    rw [here, ← spells.sliced_eq_mod, (holds.spells j x here).sliced_eq (holds.lt j x here)]
  · intro here
    refine ⟨⟨_, here⟩, spells_iff.mpr ?_⟩
    rw [(holds.spells j _ here).sliced_eq (holds.lt j _ here)]

lemma doRemoveMin_cases (shallow : b.bitDepth ≤ 63) : b.doRemoveMin.1 = b ∧ ¬ b.Findable v ∨
      ∃ j x val, m j = some x ∧ b.doRemoveMin.1 = b.doRemove j val ∧ (x = v ↔ b.Findable v) := by
  have findable : b.Findable v ↔ v.size < b.bitDepth ∧ v.size ≤ 31 ∧ v = 2 ^ v.size - 1 := by
    constructor
    · rintro ⟨s, free, low, rfl⟩
      rw [size_ones]
      exact ⟨free, low, rfl⟩
    · exact fun ⟨free, low, ones⟩ => ⟨v.size, free, low, ones⟩
  rw [doRemoveMin_eq holds present fewest]
  split_ifs with free
  · rw [findable, and_iff_right free, ← shiftedSum_ones_mod_iff free shallow]
    cases first : firstId (b.doRangeEQ (b.readMin v) ∅) with
    | some j => exact .inr ⟨j, _, _, (mem_doRangeEQ_iff holds).mp (mem_of_firstId first), rfl, Iff.rfl⟩
    | none =>
      refine .inl ⟨rfl, fun right => ?_⟩
      -- the least value would be found at the id that has it
      have here := (mem_doRangeEQ_iff holds).mpr (present.trans (congrArg some right.symm))
      exact notMem_empty id (firstId_eq_none_iff.mp first ▸ here)
  · exact .inl ⟨rfl, fun right => free (findable.mp right).1⟩

/-- The limit takes out the first id that has the number in which `do_get_min` ends. -/
lemma notMem_doRemoveMin_iff (there : m j = some w) : j ∉ b.doRemoveMin.1.exist ↔
    v.size < b.bitDepth ∧ w = b.readMin v % 2 ^ b.bitDepth ∧ ∀ l, m l = some w → j ≤ l := by
  have member : j ∈ b.exist := holds.mem_exist.mpr ⟨w, there⟩
  rw [doRemoveMin_eq holds present fewest]
  split_ifs with free
  · cases first : firstId (b.doRangeEQ (b.readMin v) ∅) with
    | none =>
      refine iff_of_false (not_not.mpr member) fun ⟨_, same, _⟩ => ?_
      exact notMem_empty j (firstId_eq_none_iff.mp first ▸ (mem_doRangeEQ_iff holds).mpr (same ▸ there))
    | some l =>
      obtain ⟨here, least⟩ := firstId_eq_some_iff.mp first
      rw [Option.elim, (doRemove_spec holds.whole l _).1, mem_erase, not_and]
      simp only [mem_doRangeEQ_iff holds] at here least
      constructor
      · intro removed
        obtain rfl : j = l := by_contra fun other => removed other member
        obtain rfl := some.inj (there.symm.trans here)
        exact ⟨free, rfl, least⟩
      · rintro ⟨-, rfl, before⟩ other
        exact absurd (UInt32.le_antisymm (before l here) (least j there)) other
  · exact iff_of_false (not_not.mpr member) fun taken => free taken.1

end

section
variable {puts : List (UInt32 × Nat)}

def putIds (puts : List (UInt32 × Nat)) : Bitmap := (puts.map fst).toFinset

def putValue (puts : List (UInt32 × Nat)) (id : UInt32) : Nat := (puts.lookup id).getD 0

lemma putIds_append (puts : List (UInt32 × Nat)) (id : UInt32) (v : Nat) : putIds (puts ++ [(id, v)]) = insert id (putIds puts) := by
  rw [putIds, map_append, toFinset_append, union_comm]
  rfl

lemma putValue_append_self (new : id ∉ putIds puts) (v : Nat) : putValue (puts ++ [(id, v)]) id = v := by
  have none : puts.lookup id = none := by
    rw [lookup_eq_none_iff]
    rintro ⟨j, w⟩ member
    refine bne_iff_ne.mpr fun same => new ?_
    rw [putIds, List.mem_toFinset]
    exact mem_map.mpr ⟨(j, w), member, same.symm⟩
  rw [putValue, lookup_append, none, none_or, lookup_cons_self, getD_some]

lemma putValue_append_ne (puts : List (UInt32 × Nat)) (other : j ≠ id) (v : Nat) :
    putValue (puts ++ [(id, v)]) j = putValue puts j := by
  rw [putValue, lookup_append, lookup_cons, beq_eq_false_iff_ne.mpr other, lookup_nil, or_none, putValue]

/-- The index has the `k` greatest of the values that were put. -/
structure HoldsLargest (b : BitSliceIndex) (k : Nat) (puts : List (UInt32 × Nat)) : Prop where
  largest : Largest (putIds puts) (putValue puts) k b.exist
  values : ∀ id ∈ b.exist, b.doGet id = some (putValue puts id)

lemma holdsLargest_new (o : BsiOptions) (k : Nat) : (new o).HoldsLargest k [] := by
  have empty : (new o).exist = ∅ := bitmap_new o 0
  refine ⟨empty ▸ largest_self (zero_le k), fun id member => ?_⟩
  rw [empty] at member
  exact absurd member (notMem_empty id)

def GivesUpLeast (b : BitSliceIndex) (k : Nat) (puts : List (UInt32 × Nat)) (id : UInt32) (v : Nat) : Prop :=
  k ≤ b.exist.card → ∃ j ∈ insert id b.exist,
    (∀ l ∈ insert id b.exist, putValue (puts ++ [(id, v)]) j ≤ putValue (puts ++ [(id, v)]) l) ∧
      (b.doPut id v).1.exist = (insert id b.exist).erase j

def Evictable (b : BitSliceIndex) (v : Nat) : Prop :=
  v < 2 ^ b.bitDepth ∧ (b.options.limitTopK ≤ b.exist.card → ∃ least, b.Findable least ∧ least ≤ v ∧
    (∀ id w, b.doGet id = some w → least ≤ w) ∧ (least = v ∨ ∃ id, b.doGet id = some least))

lemma HoldsLargest.lt_of_put (whole : b.Whole) (new : id ∉ putIds puts) (limited : 1 ≤ k)
    (after : (b.doPut id v).1.HoldsLargest k (puts ++ [(id, v)])) : v < 2 ^ b.bitDepth := by
  have shaped := b.shaped_doPut id v
  have less : ∀ j ∈ (b.doPut id v).1.exist, putValue (puts ++ [(id, v)]) j < 2 ^ b.bitDepth := by
    intro j member
    exact shaped.depth ▸ (shaped.whole whole).holds.lt j _ (after.values j member)
  have self := putValue_append_self new v
  have there := putIds_append puts id v ▸ mem_insert_self id _
  by_cases kept : id ∈ (b.doPut id v).1.exist
  · exact self ▸ less id kept
  · have some : 0 < (b.doPut id v).1.exist.card := by
      have positive := card_pos.mpr ⟨id, there⟩
      have count := after.largest.card
      omega
    obtain ⟨j, member⟩ := card_pos.mp some
    have le := after.largest.above j member id there kept
    exact (self ▸ le).trans_lt (less j member)

section
variable (whole : b.Whole) (limit : b.options.limitTopK = k) (before : b.HoldsLargest k puts) (new : id ∉ putIds puts)
  (small : v < 2 ^ b.bitDepth)
include before new small

omit small in
lemma HoldsLargest.held (member : j ∈ b.exist) : b.doGet j = some (putValue (puts ++ [(id, v)]) j) := by
  have other : j ≠ id := by
    rintro rfl
    exact new (before.largest.subset member)
  rw [putValue_append_ne puts other]
  exact before.values j member

lemma HoldsLargest.update_eq (member : j ∈ insert id b.exist) :
    Function.update b.doGet id (some (v % 2 ^ b.bitDepth)) j = some (putValue (puts ++ [(id, v)]) j) := by
  rcases eq_or_ne j id with rfl | other
  · rw [update_self, putValue_append_self new, mod_eq_of_lt small]
  · rw [update_of_ne other]
    exact before.held new ((mem_insert.mp member).resolve_left other)

include whole limit

lemma HoldsLargest.put_room (room : b.exist.card < k) : (b.doPut id v).1.HoldsLargest k (puts ++ [(id, v)]) := by
  have all := before.largest.eq_of_lt room
  have absent : id ∉ b.exist := all ▸ new
  have put := (whole.holds.doPut id v (.inr (.inr (limit ▸ room)))).1
  have ids : (b.doPut id v).1.exist = insert id b.exist := by
    ext j
    rw [put.ids, mem_insert]
    rcases eq_or_ne j id with rfl | other
    · simp
    · rw [update_of_ne other, ← whole.holds.ids]
      simp [other]
  refine ⟨?_, fun j member => ?_⟩
  · rw [ids, putIds_append, all]
    refine largest_self ?_
    rw [← all, card_insert_of_notMem absent]
    exact room
  · rw [put.doGet]
    exact before.update_eq new small (ids ▸ member)

lemma HoldsLargest.put_full (limited : 1 ≤ k) (full : k ≤ b.exist.card) (shallow : b.bitDepth ≤ 63) (there : j ∈ insert id b.exist)
    (fewest : ∀ l ∈ insert id b.exist, putValue (puts ++ [(id, v)]) j ≤ putValue (puts ++ [(id, v)]) l) :
    (b.doPut id v).1.exist = insert id b.exist ∧ ¬ b.Findable (putValue (puts ++ [(id, v)]) j) ∨
      ∃ gone ∈ insert id b.exist, (b.doPut id v).1.exist = (insert id b.exist).erase gone ∧
        (∀ l ∈ (insert id b.exist).erase gone, (b.doPut id v).1.doGet l = some (putValue (puts ++ [(id, v)]) l)) ∧
        (putValue (puts ++ [(id, v)]) gone = putValue (puts ++ [(id, v)]) j ↔ b.Findable (putValue (puts ++ [(id, v)]) j)) := by
  have absent : id ∉ b.exist := fun member => new (before.largest.subset member)
  have shaped := b.shaped_inserted id v
  have holds := whole.holds.inserted id v
  have ids := exist_inserted whole id v
  have values := fun {l} => before.update_eq new small (j := l)
  have beyond : 0 < (b.inserted id v).options.limitTopK ∧ (b.inserted id v).options.limitTopK < (b.inserted id v).exist.card := by
    rw [shaped.options, limit, ids, card_insert_of_notMem absent]
    exact ⟨limited, lt_succ_of_le full⟩
  have findable : ∀ least, (b.inserted id v).Findable least ↔ b.Findable least := by
    intro least
    rw [Findable, Findable, shaped.depth]
  have least := doRemoveMin_cases holds (values there) (fun l x present => by
    have member : l ∈ insert id b.exist := ids ▸ holds.mem_exist.mpr ⟨x, present⟩
    rw [values member, some.injEq] at present
    exact present ▸ fewest l member) (shaped.depth ▸ shallow)
  rw [doPut_of_new absent, if_pos beyond]
  rcases least with ⟨same, lost⟩ | ⟨gone, x, val, present, same, right⟩
  · rw [same, ids]
    exact .inl ⟨rfl, mt (findable _).mpr lost⟩
  · have member : gone ∈ insert id b.exist := ids ▸ holds.mem_exist.mpr ⟨x, present⟩
    have after := holds.doRemove gone val
    rw [values member, some.injEq] at present
    rw [same]
    refine .inr ⟨gone, member, ?_, fun l kept => ?_, ?_⟩
    · rw [(doRemove_spec holds.whole gone val).1, ids]
    · obtain ⟨other, inside⟩ := mem_erase.mp kept
      rw [after.doGet, update_of_ne other, values inside]
    · rw [present, right, findable]

lemma HoldsLargest.findable_of_put (limited : 1 ≤ k) (full : k ≤ b.exist.card) (shallow : b.bitDepth ≤ 63)
    (after : (b.doPut id v).1.HoldsLargest k (puts ++ [(id, v)])) (there : j ∈ insert id b.exist)
    (fewest : ∀ l ∈ insert id b.exist, putValue (puts ++ [(id, v)]) j ≤ putValue (puts ++ [(id, v)]) l) :
    b.Findable (putValue (puts ++ [(id, v)]) j) := by
  have absent : id ∉ b.exist := fun member => new (before.largest.subset member)
  rcases before.put_full whole limit new small limited full shallow there fewest with ⟨same, -⟩ | ⟨gone, member, ids, -, right⟩
  · -- none has gone
    have card := after.largest.card
    rw [same, card_insert_of_notMem absent] at card
    omega
  · refine right.mp (le_antisymm ?_ (fewest gone member))
    rcases eq_or_ne j gone with rfl | other
    · exact le_rfl
    · have kept : j ∈ (b.doPut id v).1.exist := ids ▸ mem_erase.mpr ⟨other, there⟩
      have out : gone ∉ (b.doPut id v).1.exist := ids ▸ notMem_erase gone _
      have put : gone ∈ putIds (puts ++ [(id, v)]) :=
        putIds_append puts id v ▸ insert_subset_insert id before.largest.subset member
      exact after.largest.above j kept gone put out

lemma HoldsLargest.put_findable (limited : 1 ≤ k) (full : k ≤ b.exist.card) (shallow : b.bitDepth ≤ 63)
    (there : j ∈ insert id b.exist) (fewest : ∀ l ∈ insert id b.exist, putValue (puts ++ [(id, v)]) j ≤ putValue (puts ++ [(id, v)]) l)
    (findable : b.Findable (putValue (puts ++ [(id, v)]) j)) :
    (b.doPut id v).1.HoldsLargest k (puts ++ [(id, v)]) ∧ b.GivesUpLeast k puts id v := by
  rcases before.put_full whole limit new small limited full shallow there fewest with ⟨-, lost⟩ | ⟨gone, member, ids, values, right⟩
  · exact absurd findable lost
  · have least : ∀ l ∈ insert id b.exist, putValue (puts ++ [(id, v)]) gone ≤ putValue (puts ++ [(id, v)]) l :=
      fun l inside => right.mpr findable ▸ fewest l inside
    have old : Largest (putIds puts) (putValue (puts ++ [(id, v)])) k b.exist := by
      refine before.largest.congr fun l there => ?_
      have other : l ≠ id := fun same => new (same ▸ there)
      exact putValue_append_ne puts other v
    have count : b.exist.card = k := by
      have card := before.largest.card
      omega
    refine ⟨⟨?_, fun l kept => values l (ids ▸ kept)⟩, fun _ => ⟨gone, member, least, ids⟩⟩
    rw [ids, putIds_append]
    exact old.evict count new member least

lemma HoldsLargest.put_full_iff (limited : 1 ≤ k) (full : k ≤ b.exist.card) (shallow : b.bitDepth ≤ 63) :
    (b.doPut id v).1.HoldsLargest k (puts ++ [(id, v)]) ∧ b.GivesUpLeast k puts id v ↔
      ∃ least, b.Findable least ∧ least ≤ v ∧ (∀ id w, b.doGet id = some w → least ≤ w) ∧
        (least = v ∨ ∃ id, b.doGet id = some least) := by
  have self := putValue_append_self new v
  have held := fun {l} => before.held new (v := v) (j := l)
  constructor
  · rintro ⟨after, -⟩
    obtain ⟨j, there, fewest⟩ := (insert id b.exist).exists_min_image (putValue (puts ++ [(id, v)])) ⟨id, mem_insert_self id _⟩
    refine ⟨putValue (puts ++ [(id, v)]) j, before.findable_of_put whole limit new small limited full shallow after there fewest,
      (fewest id (mem_insert_self id _)).trans_eq self, fun l w present => ?_, ?_⟩
    · have member := (doGet_eq_some_iff.mp present).1
      rw [held member, some.injEq] at present
      exact present ▸ fewest l (mem_insert_of_mem member)
    · rcases mem_insert.mp there with rfl | member
      · exact .inl self
      · exact .inr ⟨j, held member⟩
  · rintro ⟨least, findable, le, fewest, attained⟩
    obtain ⟨j, there, rfl⟩ : ∃ j ∈ insert id b.exist, putValue (puts ++ [(id, v)]) j = least := by
      rcases attained with rfl | ⟨j, present⟩
      · exact ⟨id, mem_insert_self id _, self⟩
      · have member := (doGet_eq_some_iff.mp present).1
        rw [held member, some.injEq] at present
        exact ⟨j, mem_insert_of_mem member, present⟩
    refine before.put_findable whole limit new small limited full shallow there (fun l member => ?_) findable
    rcases mem_insert.mp member with rfl | member
    · exact self.symm ▸ le
    · exact fewest l _ (held member)

omit small in
lemma HoldsLargest.put_iff (limited : 1 ≤ k) (shallow : b.bitDepth ≤ 63) :
    (b.doPut id v).1.HoldsLargest k (puts ++ [(id, v)]) ∧ b.GivesUpLeast k puts id v ↔ b.Evictable v := by
  rw [Evictable, limit]
  constructor
  · intro right
    have small := right.1.lt_of_put whole new limited
    exact ⟨small, fun full => (before.put_full_iff whole limit new small limited full shallow).mp right⟩
  · rintro ⟨small, right⟩
    rcases lt_or_ge b.exist.card k with room | full
    · exact ⟨before.put_room whole limit new small room, fun full => absurd room (Nat.not_lt_of_le full)⟩
    · exact (before.put_full_iff whole limit new small limited full shallow).mpr (right full)

end

def putAll (o : BsiOptions) (puts : List (UInt32 × Nat)) : BitSliceIndex :=
  puts.foldl (fun b put => (b.doPut put.1 put.2).1) (.new o)

lemma putAll_append (o : BsiOptions) (puts : List (UInt32 × Nat)) (id : UInt32) (v : Nat) :
    putAll o (puts ++ [(id, v)]) = ((putAll o puts).doPut id v).1 := by
  rw [putAll, foldl_concat]
  rfl

lemma shaped_putAll (o : BsiOptions) (puts : List (UInt32 × Nat)) : (BitSliceIndex.new o).Shaped (putAll o puts) := by
  induction puts using reverseRecOn with
  | nil => exact .refl _
  | append_singleton puts put ih =>
    rw [putAll_append]
    exact ih.trans (shaped_doPut _ _ _)

lemma notMem_putIds (distinct : (puts.map fst).Nodup) {done : List (UInt32 × Nat)} (here : done ++ [(id, v)] <+: puts) :
    id ∉ putIds done := by
  obtain ⟨rest, rfl⟩ := here
  rw [append_assoc, map_append, nodup_append] at distinct
  intro member
  exact distinct.2.2 id (mem_toFinset.mp member) id (mem_cons_self ..) rfl

/-- After each put of a new id the index has the greatest values so far, and gives up one of the least if there is one too
    many, precisely when every value has a place and, each time an id has to go, the least value can be found. -/
theorem limit_keeps_largest_iff (o : BsiOptions) (limited : 1 ≤ o.limitTopK) (puts : List (UInt32 × Nat))
    (distinct : (puts.map fst).Nodup) :
    (∀ done id v, done ++ [(id, v)] <+: puts →
      (putAll o (done ++ [(id, v)])).HoldsLargest o.limitTopK (done ++ [(id, v)]) ∧
        (putAll o done).GivesUpLeast o.limitTopK done id v) ↔
      ∀ done id v, done ++ [(id, v)] <+: puts → (putAll o done).Evictable v := by
  have step : ∀ done put, done ++ [put] <+: puts → (putAll o done).HoldsLargest o.limitTopK done →
      ((putAll o (done ++ [put])).HoldsLargest o.limitTopK (done ++ [put]) ∧
        (putAll o done).GivesUpLeast o.limitTopK done put.1 put.2 ↔ (putAll o done).Evictable put.2) := by
    intro done put here before
    have shaped := shaped_putAll o done
    rw [putAll_append]
    refine before.put_iff (shaped.whole (whole_new o)) ?_ (notMem_putIds distinct here) limited ?_
    · rw [shaped.options]
      rfl
    · rw [shaped.depth]
      exact o.bitDepth_le
  have run := forall_step_iff step (holdsLargest_new o _)
  simp only [Prod.forall] at run
  exact run

/-! An index of one bit with room for one id. -/

def roomForOne : BsiOptions := { BsiOptions.default.setMinMaxInt 0 1 with limitTopK := 1 }

theorem limit_exceeded : 1 ≤ roomForOne.limitTopK ∧ (([(7, 1), (8, 1)] : List (UInt32 × Nat)).map fst).Nodup ∧
    (putAll roomForOne [(7, 1), (8, 1)]).exist = {7, 8} ∧
    ¬ ∀ done id v, done ++ [(id, v)] <+: [(7, 1), (8, 1)] →
      (putAll roomForOne (done ++ [(id, v)])).HoldsLargest roomForOne.limitTopK (done ++ [(id, v)]) ∧
        (putAll roomForOne done).GivesUpLeast roomForOne.limitTopK done id v := by
  refine ⟨by decide, by decide, by decide, fun right => ?_⟩
  have card := (right [(7, 1)] 8 1 (prefix_refl _)).1.largest.card
  exact absurd card (by decide)

theorem limit_keeps_largest_iff_zero_evicted :
    1 ≤ roomForOne.limitTopK ∧ (([(7, 0), (8, 1)] : List (UInt32 × Nat)).map fst).Nodup ∧
      ∀ done id v, done ++ [(id, v)] <+: [(7, 0), (8, 1)] →
        (putAll roomForOne (done ++ [(id, v)])).HoldsLargest roomForOne.limitTopK (done ++ [(id, v)]) ∧
          (putAll roomForOne done).GivesUpLeast roomForOne.limitTopK done id v := by
  refine ⟨by decide, by decide, (limit_keeps_largest_iff roomForOne (by decide) _ (by decide)).mpr fun done id v here => ?_⟩
  match done, here with
  | [], here =>
    obtain ⟨rest, same⟩ := here
    cases same
    exact ⟨by decide, fun full => absurd full (by decide)⟩
  | [put], here =>
    obtain ⟨rest, same⟩ := here
    cases same
    exact ⟨by decide, fun _ => ⟨0, ⟨0, by decide, by decide, rfl⟩, by decide, fun _ _ _ => zero_le _, .inr ⟨7, by decide⟩⟩⟩
  | _ :: _ :: rest, here =>
    have length := here.length_le
    simp only [length_append, length_cons, length_nil] at length
    omega

end

end Myctk.Robims.BitSliceIndex
