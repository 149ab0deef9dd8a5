import Myctk.Rdict.Dict

/-! The dictionary as a map: what a layout has to do for it, and what the operations then do. -/

namespace Myctk.Rdict

open Nat hiding ne_of_lt pow_lt_pow_right
open List Function Lib
open Lib.Ring Dict

variable {K V σ π : Type}

inductive Layout.Reads (L : Layout K V σ π) (s : σ) (old : List (Bucket π)) : Nat → Nat → List π → Prop
  | done {n cursor : Nat} : L.Reads s old n cursor []
  | skip {n cursor cursor' : Nat} {vals : List π} (read : L.read s old cursor = .ok (none, cursor'))
      (later : L.Reads s old n cursor' vals) : L.Reads s old (n + 1) cursor vals
  | value {n cursor cursor' : Nat} {c : π} {vals : List π} (read : L.read s old cursor = .ok (some c, cursor'))
      (later : L.Reads s old n cursor' vals) : L.Reads s old (n + 1) cursor (c :: vals)

/-- A rehash comes to the contents `cs`. -/
def Layout.Lists (L : Layout K V σ π) (s : σ) (cs : List π) : Prop :=
  ∀ old, (contents old).Perm cs → ∃ vals, vals.Perm cs ∧ L.Reads s old (L.extent s old) 0 vals

/-- The keys and values of the contents `cs` are the same in both stores. -/
def Layout.Keeps (L : Layout K V σ π) (cs : List π) (s s' : σ) : Prop :=
  ∀ c ∈ cs, L.getKey s' c = L.getKey s c ∧ L.getValue s' c = L.getValue s c

section
variable {L : Layout K V σ π} {s s' : σ} {cs : List π} {k : K}

lemma Layout.Keeps.map (keeps : L.Keeps cs s s') :
    (cs.map fun c => (L.getKey s' c, L.getValue s' c)) = cs.map fun c => (L.getKey s c, L.getValue s c) :=
  map_congr_left fun c member => Prod.ext (keeps c member).1 (keeps c member).2

lemma Layout.Keeps.keys (keeps : L.Keeps cs s s') : cs.map (L.getKey s') = cs.map (L.getKey s) :=
  map_congr_left fun c member => (keeps c member).1

lemma filter_of_fresh [DecidableEq K] (fresh : ∀ c ∈ cs, L.getKey s c ≠ k) :
    (cs.map fun c => (L.getKey s c, L.getValue s c)).filter (·.1 ≠ k) = cs.map fun c => (L.getKey s c, L.getValue s c) := by
  rw [filter_eq_self]
  intro entry member
  obtain ⟨c, there, rfl⟩ := mem_map.mp member
  simpa using fresh c there

lemma entries_of_perm [DecidableEq K] {ds : List π} {c : π} {v : V} (perm : ds.Perm (c :: cs)) (key : L.getKey s' c = k)
    (value : L.getValue s' c = v) (keeps : L.Keeps cs s s') (fresh : ∀ c ∈ cs, L.getKey s c ≠ k) :
    (ds.map fun c => (L.getKey s' c, L.getValue s' c)).Perm
      ((k, v) :: (cs.map fun c => (L.getKey s c, L.getValue s c)).filter (·.1 ≠ k)) ∧
      ((cs.map (L.getKey s)).Nodup → (ds.map (L.getKey s')).Nodup) := by
  constructor
  · refine (perm.map _).trans ?_
    rw [map_cons, key, value, keeps.map, filter_of_fresh fresh]
  · intro nodup
    rw [(perm.map _).nodup_iff, map_cons, key, keeps.keys, nodup_cons]
    refine ⟨fun member => ?_, nodup⟩
    obtain ⟨c', there, same⟩ := mem_map.mp member
    exact fresh c' there same

end

/-- `Holds s cs` says that the store has the contents `cs`. -/
structure Layout.Lawful (L : Layout K V σ π) (Holds : σ → List π → Prop) : Prop where
  perm : ∀ {s cs cs'}, Holds s cs → cs.Perm cs' → Holds s cs'
  lists : ∀ {s cs}, Holds s cs → L.Lists s cs
  newBucket : ∀ {s cs} (k v), Holds s cs →
    Gives (· = .reserved) (fun (c, s') => L.getKey s' c = k ∧ L.getValue s' c = v ∧ L.Keeps cs s s' ∧ Holds s' (c :: cs) ∧
      L.Lists s' cs) (L.newBucket s k v)
  update : ∀ {s cs c} (v), Holds s (c :: cs) →
    Gives (· = .reserved) (fun (c', s') => L.getKey s' c' = L.getKey s c ∧ L.getValue s' c' = v ∧ L.Keeps cs s s' ∧
      Holds s' (c' :: cs)) (L.update s c (L.getKey s c) v)

variable [Inhabited π]

def IndexMeta.home (index : IndexMeta) (hash : K → UInt64) (k : K) : Nat := index.bucketIdxFromHash (hash k)

def fingerprint (hash : K → UInt64) (k : K) : Nat := (hash k).toNat % kDistInc

lemma distAndFingerprint_eq (hash : K → UInt64) (k : K) :
    distAndFingerprintFromHash (hash k) = kDistInc * (0 + 1) + fingerprint hash k := by
  have low : (hash k).toNat % 2 ^ 32 &&& (kDistInc - 1) = fingerprint hash k := by
    rw [show kDistInc - 1 = 2 ^ 8 - 1 from rfl, and_two_pow_sub_one_eq_mod, fingerprint, kDistInc,
      show (256 : Nat) = 2 ^ 8 from rfl, mod_mod_of_dvd _ (pow_dvd_pow 2 (by decide))]
  have lt : fingerprint hash k < 2 ^ 8 := mod_lt _ (by decide)
  rw [distAndFingerprintFromHash, low, show kDistInc = 2 ^ 8 * 1 from rfl, ← two_pow_add_eq_or_of_lt lt,
    mul_one]

/-- The buckets are in the robin-hood order. -/
structure Dict.Arranged (L : Layout K V σ π) (hash : K → UInt64) (d : Dict σ π) : Prop where
  numBuckets : d.index.numBuckets = d.buckets.length
  robin : Robin (d.index.home hash) (fingerprint hash) (L.getKey d.store) d.buckets

section
variable {L : Layout K V σ π} {hash : K → UInt64} {d : Dict σ π} {k : K} {c : π}

lemma Dict.search_spec [DecidableEq K] (arranged : d.Arranged L hash) (k : K) :
    Gives (Fault.Far d.buckets.length) (d.Finds L (d.index.home hash) (fingerprint hash) k) (d.search L hash k) := by
  have start := walk_zero (arranged.robin.home_lt k)
  rw [search, distAndFingerprint_eq, show d.index.bucketIdxFromHash (hash k) = d.index.home hash k from rfl, ← start]
  refine probe_spec arranged.numBuckets arranged.robin ?_ (fun _ lt => nomatch lt) (fun _ lt => nomatch lt)
  exact congrArg (· + 1) arranged.numBuckets

lemma Dict.nextWhileLess_spec (arranged : d.Arranged L hash) (k : K) :
    Gives (Fault.Far d.buckets.length) (fun (i, word) => d.Ends (d.index.home hash) (fingerprint hash) k word i)
      (d.nextWhileLess hash k) := by
  have start := walk_zero (arranged.robin.home_lt k)
  rw [nextWhileLess, distAndFingerprint_eq, show d.index.bucketIdxFromHash (hash k) = d.index.home hash k from rfl,
    ← start]
  refine Gives.bind (nextWhileLessLoop_spec arranged.numBuckets arranged.robin ?_ fun _ lt => nomatch lt) ?_
  · exact congrArg (· + 1) arranged.numBuckets
  · rintro ⟨word, i⟩ ends
    have inside : i < d.buckets.length := by
      obtain ⟨t, -, rfl, -⟩ := ends
      exact walk_lt (arranged.robin.home_lt k)
    exact ((gives_u32 i).weaken fun f ⟨same, wide⟩ => ⟨same, by omega⟩).bind fun j same => same ▸ ends

structure Dict.Filled (L : Layout K V σ π) (hash : K → UInt64) (d : Dict σ π) (cs : List π) (d' : Dict σ π) : Prop where
  arranged : d'.Arranged L hash
  store : d'.store = d.store
  index : d'.index = d.index
  perm : (contents d'.buckets).Perm cs

variable {word i fuel cursor : Nat} {old : List (Bucket π)} {vals : List π}

lemma Dict.place_spec (arranged : d.Arranged L hash) (room : (contents d.buckets).length < d.buckets.length)
    (ends : d.Ends (d.index.home hash) (fingerprint hash) (L.getKey d.store c) word i) :
    Gives (Fault.Far d.buckets.length) (d.Filled L hash (c :: contents d.buckets)) (d.place ⟨c, word⟩ i) := by
  obtain ⟨t, rfl, rfl, reached, le⟩ := ends
  obtain ⟨e, there, empty⟩ := exists_free room
  obtain ⟨s, near, rfl⟩ := exists_walk (walk_lt (t := t) (arranged.robin.home_lt (L.getKey d.store c))) there
  have free : ∃ s < d.passes, wordAt d.buckets (walk d.buckets.length
      (walk d.buckets.length (d.index.home hash (L.getKey d.store c)) t) s) = 0 := by
    refine ⟨s, ?_, empty⟩
    rw [← arranged.numBuckets] at near
    exact lt_succ_of_lt near
  refine (placeAndShiftUp_spec arranged.numBuckets rfl arranged.robin reached le free).bind ?_
  rintro bs ⟨length, robin, perm⟩
  exact ⟨⟨arranged.numBuckets.trans length.symm, robin⟩, rfl, rfl, perm⟩

lemma Dict.place_ofOk (arranged : d.Arranged L hash)
    (ends : d.Ends (d.index.home hash) (fingerprint hash) (L.getKey d.store c) word i) :
    Gives Fault.NoOutcome (d.Filled L hash (c :: contents d.buckets)) (d.place ⟨c, word⟩ i) := by
  by_cases room : (contents d.buckets).length < d.buckets.length
  · exact (place_spec arranged room ends).weaken fun _ far => .inl far.1
  · have full : ∀ j < d.buckets.length, wordAt d.buckets j ≠ 0 := by
      intro j lt free
      have counted := contents_set_free (b := ⟨c, 1⟩) lt one_ne_zero free
      have le : (contents (d.buckets.set j ⟨c, 1⟩)).length ≤ (d.buckets.set j ⟨c, 1⟩).length := length_filterMap_le _ _
      rw [counted.length_eq, length_set, length_cons] at le
      exact room le
    obtain ⟨t, rfl, rfl, -, -⟩ := ends
    refine (placeAndShiftUp_full arranged.numBuckets full (walk_lt (arranged.robin.home_lt _))
      (word_ne_zero t _)).bind fun _ impossible => impossible.elim

lemma Dict.fill_zero : fill L hash old fuel 0 cursor d = .ok d := by
  cases fuel <;> rfl

lemma Dict.Filled.refl (arranged : d.Arranged L hash) : d.Filled L hash (contents d.buckets) d :=
  ⟨arranged, rfl, rfl, .refl _⟩

lemma Dict.Filled.trans {d1 d2 : Dict σ π} (first : d.Filled L hash (c :: contents d.buckets) d1)
    (second : d1.Filled L hash (vals ++ contents d1.buckets) d2) : d.Filled L hash (c :: vals ++ contents d.buckets) d2 where
  arranged := second.arranged
  store := second.store.trans first.store
  index := second.index.trans first.index
  perm := second.perm.trans ((first.perm.append_left vals).trans perm_middle)

lemma Dict.fill_spec {s : σ} {n : Nat}
    (reads : L.Reads s old n cursor vals) (store : d.store = s) (arranged : d.Arranged L hash) (enough : n ≤ fuel)
    (room : (contents d.buckets).length + vals.length ≤ d.buckets.length) :
    Gives (Fault.Far d.buckets.length) (d.Filled L hash (vals ++ contents d.buckets)) (fill L hash old fuel vals.length cursor d) := by
  induction reads generalizing d fuel with
  | done =>
    rw [length_nil, fill_zero]
    exact .refl arranged
  | @skip n cursor cursor' vals read later ih =>
    cases vals with
    | nil =>
      rw [length_nil, fill_zero]
      exact .refl arranged
    | cons c vals =>
      obtain ⟨fuel, rfl⟩ : ∃ m, fuel = m + 1 := ⟨fuel - 1, by omega⟩
      rw [length_cons, fill, store, read]
      exact ih store arranged (le_of_succ_le_succ enough) room
  | @value n cursor cursor' c vals read later ih =>
    obtain ⟨fuel, rfl⟩ : ∃ m, fuel = m + 1 := ⟨fuel - 1, by omega⟩
    rw [length_cons] at room
    rw [length_cons, fill, store, read]
    subst store
    refine (nextWhileLess_spec arranged (L.getKey d.store c)).bind ?_
    rintro ⟨i, word⟩ ends
    refine (place_spec arranged (by omega) ends).bind fun d1 filled => ?_
    have length : d1.buckets.length = d.buckets.length := by
      rw [← filled.arranged.numBuckets, filled.index, arranged.numBuckets]
    have room1 : (contents d1.buckets).length + vals.length ≤ d1.buckets.length := by
      rw [filled.perm.length_eq, length, length_cons]
      omega
    exact length ▸ (ih filled.store filled.arranged (le_of_succ_le_succ enough) room1).mono fun d2 => filled.trans

end

section
variable {factor : LoadFactor} {shifts : Nat}

lemma calcNumBuckets_eq (positive : 1 ≤ shifts) : calcNumBuckets shifts = 2 ^ (64 - shifts) := by
  rw [calcNumBuckets, maxBucketCount]
  exact min_eq_right (Nat.pow_le_pow_right Nat.two_pos (by omega))

lemma two_le_calcNumBuckets (positive : 1 ≤ shifts) (small : shifts ≤ initialShifts) : 2 ≤ calcNumBuckets shifts := by
  rw [calcNumBuckets_eq positive]
  have : 64 - initialShifts ≤ 64 - shifts := by omega
  exact le_trans (by decide) (Nat.pow_le_pow_right Nat.two_pos this)

lemma calcNumBuckets_pred (positive : 2 ≤ shifts) (small : shifts ≤ initialShifts) :
    calcNumBuckets (shifts - 1) = calcNumBuckets shifts + calcNumBuckets shifts := by
  rw [calcNumBuckets_eq (by omega), calcNumBuckets_eq (by omega),
    show 64 - (shifts - 1) = 64 - shifts + 1 by rw [initialShifts] at small; omega, pow_succ, mul_two]

lemma two_le_of_small (small : calcNumBuckets shifts < 2 ^ 32) : 2 ≤ shifts := by
  by_contra few
  have wide : 2 ^ 63 ≤ calcNumBuckets shifts := by
    rw [calcNumBuckets, maxBucketCount, min_eq_left (Nat.pow_le_pow_right Nat.two_pos (by omega))]
  exact absurd (lt_of_le_of_lt wide small) (by decide)

lemma maxBucketCapacity_lt (positive : 2 ≤ shifts) (below : factor.num < 2 ^ factor.exp) (size : Nat) :
    (allocateBuckets factor size shifts).maxBucketCapacity < calcNumBuckets shifts := by
  have few : calcNumBuckets shifts ≠ maxBucketCount := by
    rw [calcNumBuckets_eq (by omega), maxBucketCount]
    exact ne_of_lt (Nat.pow_lt_pow_right (by decide) (by omega))
  have some : 0 < calcNumBuckets shifts := by
    rw [calcNumBuckets_eq (by omega)]
    exact Nat.two_pow_pos _
  rw [allocateBuckets, if_neg few, Nat.div_lt_iff_lt_mul (Nat.two_pow_pos _)]
  exact mul_lt_mul_of_pos_left below some

lemma Dict.arranged_empty {L : Layout K V σ π} {hash : K → UInt64} (positive : 1 ≤ shifts) (small : shifts ≤ initialShifts)
    (store : σ) (size : Nat) :
    Arranged L hash ⟨store, allocateBuckets factor size shifts, replicate (calcNumBuckets shifts) default⟩ := by
  have free : ∀ i, wordAt (replicate (calcNumBuckets shifts) (default : Bucket π)) i = 0 := by
    intro i
    rw [wordAt, getD_eq_getElem?_getD, getElem?_replicate]
    split <;> rfl
  refine ⟨length_replicate.symm, ?_, fun k => ?_, fun k => mod_lt _ kDistInc_pos, fun i lt => .inl ?_,
    fun i lt occupied => absurd (free i) occupied⟩
  · rw [length_replicate]
    exact two_le_calcNumBuckets positive small
  · rw [length_replicate, calcNumBuckets_eq positive]
    show (hash k).toNat >>> shifts < 2 ^ (64 - shifts)
    rw [Nat.shiftRight_eq_div_pow, Nat.div_lt_iff_lt_mul (Nat.two_pow_pos _), ← Nat.pow_add,
      Nat.sub_add_cancel (le_trans small (by decide))]
    exact (hash k).toNat_lt
  · rw [free]
    decide

end

def Dict.entries (L : Layout K V σ π) (d : Dict σ π) : List (K × V) :=
  (contents d.buckets).map fun c => (L.getKey d.store c, L.getValue d.store c)

omit [Inhabited π] in
lemma Dict.mem_entries {L : Layout K V σ π} {d : Dict σ π} {k : K} {v : V} : (k, v) ∈ d.entries L ↔
    ∃ c ∈ contents d.buckets, L.getKey d.store c = k ∧ L.getValue d.store c = v := by
  simp [entries]

structure IndexMeta.Sized (index : IndexMeta) : Prop where
  shifts : 2 ≤ index.shifts ∧ index.shifts ≤ initialShifts
  numBuckets : index.numBuckets = calcNumBuckets index.shifts
  capacity : index.maxBucketCapacity < calcNumBuckets index.shifts

lemma sized_allocateBuckets {factor : LoadFactor} {shifts : Nat} (range : 2 ≤ shifts ∧ shifts ≤ initialShifts)
    (below : factor.num < 2 ^ factor.exp) (size : Nat) : (allocateBuckets factor size shifts).Sized :=
  ⟨range, rfl, maxBucketCapacity_lt range.1 below size⟩

/-- The numbers that follow from the shifts. -/
structure IndexMeta.Laid (index : IndexMeta) : Prop where
  shifts : 1 ≤ index.shifts ∧ index.shifts ≤ initialShifts
  numBuckets : index.numBuckets = calcNumBuckets index.shifts
  capacity : index.shifts = 1 → index.maxBucketCapacity = maxBucketCount

lemma IndexMeta.Laid.two_le {index : IndexMeta} (laid : index.Laid) (limited : index.maxBucketCapacity ≠ maxBucketCount) :
    2 ≤ index.shifts := by
  have := laid.shifts.1
  have : index.shifts ≠ 1 := fun one => limited (laid.capacity one)
  omega

lemma IndexMeta.Sized.laid {index : IndexMeta} (sized : index.Sized) : index.Laid where
  shifts := ⟨le_of_succ_le sized.shifts.1, sized.shifts.2⟩
  numBuckets := sized.numBuckets
  capacity one := absurd (one ▸ sized.shifts.1) (by decide)

lemma laid_allocateBuckets {factor : LoadFactor} {shifts : Nat} (range : 1 ≤ shifts ∧ shifts ≤ initialShifts) (size : Nat) :
    (allocateBuckets factor size shifts).Laid where
  shifts := range
  numBuckets := rfl
  capacity := by
    rintro ⟨⟩
    rfl

/-- In order, and with each key once. -/
structure Dict.Tidy (L : Layout K V σ π) (hash : K → UInt64) (Holds : σ → List π → Prop) (d : Dict σ π) : Prop where
  arranged : d.Arranged L hash
  size : d.index.size = (contents d.buckets).length
  holds : Holds d.store (contents d.buckets)
  keys : ((contents d.buckets).map (L.getKey d.store)).Nodup

/-- And with room for another key. -/
structure Dict.Inv (L : Layout K V σ π) (hash : K → UInt64) (Holds : σ → List π → Prop) (d : Dict σ π) :
    Prop where
  arranged : d.Arranged L hash
  sized : d.index.Sized
  size : d.index.size = (contents d.buckets).length
  holds : Holds d.store (contents d.buckets)
  keys : ((contents d.buckets).map (L.getKey d.store)).Nodup

section
variable {L : Layout K V σ π} {hash : K → UInt64} {factor : LoadFactor} {Holds : σ → List π → Prop} {d : Dict σ π} {k : K}
  {v : V}

lemma Dict.Inv.tidy (inv : d.Inv L hash Holds) : d.Tidy L hash Holds := ⟨inv.arranged, inv.size, inv.holds, inv.keys⟩

lemma Dict.Inv.length (inv : d.Inv L hash Holds) : d.buckets.length = calcNumBuckets d.index.shifts := by
  rw [← inv.arranged.numBuckets, inv.sized.numBuckets]

lemma Dict.Inv.shifts_of_small (inv : d.Inv L hash Holds) (small : d.index.numBuckets < 2 ^ 32) : 3 ≤ d.index.shifts := by
  have less : 2 ^ (64 - d.index.shifts) < 2 ^ 32 := by
    rw [← calcNumBuckets_eq (le_of_succ_le inv.sized.shifts.1), ← inv.sized.numBuckets]
    exact small
  have := (Nat.pow_lt_pow_iff_right (by decide)).mp less
  omega

lemma Dict.contents_empty (n : Nat) : contents (replicate n (default : Bucket π)) = [] := by
  rw [contents, filterMap_eq_nil_iff]
  intro b member
  rw [eq_of_mem_replicate member]
  rfl

lemma calcShiftsForSize_le (factor : LoadFactor) (s shifts : Nat) : calcShiftsForSize factor s shifts ≤ shifts := by
  induction shifts with
  | zero => exact le_refl 0
  | succ shifts ih =>
    rw [calcShiftsForSize]
    split
    · exact le_succ_of_le ih
    · exact le_rfl

lemma Dict.newShifts_le (factor : LoadFactor) (bucketCount : Nat) : newShifts factor bucketCount ≤ initialShifts := by
  rw [newShifts]
  split
  · exact le_rfl
  · exact calcShiftsForSize_le _ _ _

lemma Dict.inv_new {store : σ} (holds : Holds store []) (below : factor.num < 2 ^ factor.exp) {bucketCount : Nat}
    (few : 2 ≤ newShifts factor bucketCount) : (new factor bucketCount store : Dict σ π).Inv L hash Holds where
  arranged := arranged_empty (le_of_succ_le few) (newShifts_le _ _) store 0
  sized := sized_allocateBuckets ⟨few, newShifts_le _ _⟩ below 0
  size := by
    rw [new, contents_empty]
    rfl
  holds := by
    rw [new, contents_empty]
    exact holds
  keys := by
    rw [new, contents_empty]
    exact nodup_nil

lemma Dict.rehash_spec (size : d.index.size = (contents d.buckets).length) (lists : L.Lists d.store (contents d.buckets))
    {shifts : Nat} (range : 1 ≤ shifts ∧ shifts ≤ initialShifts) (room : d.index.size ≤ calcNumBuckets shifts) :
    Gives (Fault.Far (calcNumBuckets shifts)) (fun d' =>
      d'.Arranged L hash ∧ d'.store = d.store ∧ d'.index = allocateBuckets factor d.index.size shifts ∧
      (contents d'.buckets).Perm (contents d.buckets)) (d.rehash L hash factor shifts) := by
  obtain ⟨vals, perm, reads⟩ := lists d.buckets (.refl _)
  have count : vals.length = d.index.size := by rw [perm.length_eq, size]
  let empty : Dict σ π := ⟨d.store, allocateBuckets factor d.index.size shifts,
    replicate (calcNumBuckets shifts) default⟩
  have arranged : empty.Arranged L hash := arranged_empty range.1 range.2 _ _
  have none : contents empty.buckets = [] := contents_empty _
  have room' : (contents empty.buckets).length + vals.length ≤ empty.buckets.length := by
    rw [none, length_nil, zero_add, count, length_replicate]
    exact room
  have run := fill_spec (d := empty) reads rfl arranged le_rfl room'
  rw [count, none, append_nil, show empty.buckets.length = calcNumBuckets shifts from length_replicate] at run
  exact run.mono fun d' filled => ⟨filled.arranged, filled.store, filled.index, filled.perm.trans perm⟩

lemma Dict.increaseSize_spec (arranged : d.Arranged L hash) (laid : d.index.Laid)
    (limited : d.index.maxBucketCapacity ≠ maxBucketCount) (size : d.index.size = (contents d.buckets).length)
    (lists : L.Lists d.store (contents d.buckets)) :
    Gives (Fault.Far (d.buckets.length + d.buckets.length)) (fun d' => d'.Arranged L hash ∧ d'.store = d.store ∧
      d'.index = allocateBuckets factor d.index.size (d.index.shifts - 1) ∧
      (contents d'.buckets).Perm (contents d.buckets)) (d.increaseSize L hash factor) := by
  have few := laid.two_le limited
  have room : d.index.size ≤ calcNumBuckets (d.index.shifts - 1) := by
    have le : (contents d.buckets).length ≤ d.buckets.length := length_filterMap_le _ _
    rw [← arranged.numBuckets, laid.numBuckets] at le
    rw [size, calcNumBuckets_pred few laid.shifts.2]
    exact le_add_right_of_le le
  rw [increaseSize, if_neg limited, ← arranged.numBuckets, laid.numBuckets, ← calcNumBuckets_pred few laid.shifts.2]
  exact rehash_spec size lists ⟨by omega, le_trans (sub_le _ _) laid.shifts.2⟩ room

variable {bs : List (Bucket π)} {i : Nat}

lemma Robin.congr {home fingerprint : K → Nat} {key key' : π → K} {bs' : List (Bucket π)}
    (robin : Robin home fingerprint key bs) (length : bs'.length = bs.length) (words : wordAt bs' = wordAt bs)
    (keys : ∀ i < bs.length, wordAt bs i ≠ 0 → key' (contentAt bs' i) = key (contentAt bs i)) : Robin home fingerprint key' bs' where
  two := length ▸ robin.two
  home_lt := length ▸ robin.home_lt
  fingerprint_lt := robin.fingerprint_lt
  ordered := by
    rw [length, words]
    exact robin.ordered
  placed := by
    rw [length, words]
    intro i lt occupied
    rw [keys i lt occupied]
    exact robin.placed i lt occupied

def others (bs : List (Bucket π)) (i : Nat) : List π := contents (bs.set i default)

section
variable (inside : i < bs.length)
include inside

lemma others_eq : others bs i = contents (bs.take i) ++ contents (bs.drop (i + 1)) := by
  have inside' : i < (bs.set i default).length := by rwa [length_set]
  rw [others, contents_eq inside', wordAt_set inside, update_self, take_set_of_le (le_refl i),
    drop_set_of_lt (lt_succ_self i)]
  rfl

lemma mem_others {j : Nat} (lt : j < bs.length) (other : j ≠ i) (occupied : wordAt bs j ≠ 0) : contentAt bs j ∈ others bs i := by
  refine mem_contents.mpr ⟨j, by rwa [length_set], ?_⟩
  rw [wordAt_set inside, contentAt_set inside, update_of_ne other, update_of_ne other]
  exact ⟨occupied, rfl⟩

lemma contents_perm_others (occupied : wordAt bs i ≠ 0) : (contents bs).Perm (contentAt bs i :: others bs i) := by
  rw [contents_eq inside, if_neg occupied, others_eq inside]
  exact perm_middle

lemma contents_set_perm_others {b : Bucket π} (occupied : b.distAndFingerprint ≠ 0) :
    (contents (bs.set i b)).Perm (b.content :: others bs i) := by
  rw [contents_set inside occupied, others_eq inside]
  exact perm_middle

end

structure Dict.Puts (L : Layout K V σ π) (hash : K → UInt64) (Holds : σ → List π → Prop) [DecidableEq K]
    (d : Dict σ π) (k : K) (v : V) (d' : Dict σ π) : Prop where
  inv : d'.Inv L hash Holds
  entries : (d'.entries L).Perm ((k, v) :: (d.entries L).filter (·.1 ≠ k))

structure Dict.PutsTidily (L : Layout K V σ π) (hash : K → UInt64) (Holds : σ → List π → Prop) [DecidableEq K]
    (d : Dict σ π) (k : K) (v : V) (d' : Dict σ π) : Prop where
  tidy : d'.Tidy L hash Holds
  entries : (d'.entries L).Perm ((k, v) :: (d.entries L).filter (·.1 ≠ k))

section
variable [DecidableEq K] {c : π} {s : σ}

lemma Dict.Tidy.replace (tidy : d.Tidy L hash Holds) (lawful : L.Lawful Holds) {i : Nat} (lt : i < d.buckets.length)
    (occupied : wordAt d.buckets i ≠ 0) (here : L.getKey d.store (contentAt d.buckets i) = k)
    (key : L.getKey s c = k) (value : L.getValue s c = v) (keeps : L.Keeps (others d.buckets i) d.store s)
    (holds : Holds s (c :: others d.buckets i)) :
    d.PutsTidily L hash Holds k v { d with store := s, buckets := d.buckets.set i ⟨c, wordAt d.buckets i⟩ } := by
  have before := contents_perm_others lt occupied
  have after : (contents (d.buckets.set i ⟨c, wordAt d.buckets i⟩)).Perm (c :: others d.buckets i) :=
    contents_set_perm_others lt occupied
  have keys : L.getKey d.store (contentAt d.buckets i) ∉ (others d.buckets i).map (L.getKey d.store) ∧
      ((others d.buckets i).map (L.getKey d.store)).Nodup := by
    rw [← nodup_cons, ← map_cons, ← (before.map _).nodup_iff]
    exact tidy.keys
  have fresh : ∀ c ∈ others d.buckets i, L.getKey d.store c ≠ k := fun c member same =>
    keys.1 (mem_map.mpr ⟨c, member, same.trans here.symm⟩)
  obtain ⟨entries, nodup⟩ := entries_of_perm after key value keeps fresh
  refine ⟨⟨⟨?_, ?_⟩, ?_, lawful.perm holds after.symm, nodup keys.2⟩, entries.trans (.cons _ ?_)⟩
  · rw [length_set]
    exact tidy.arranged.numBuckets
  · refine tidy.arranged.robin.congr length_set ?_ fun j inside taken => ?_
    · rw [wordAt_set lt, Function.update_eq_self]
    · rw [contentAt_set lt]
      rcases eq_or_ne j i with rfl | other
      · rw [update_self, key, here]
      · rw [update_of_ne other]
        exact (keeps _ (mem_others lt inside other taken)).1
  · rw [tidy.size, before.length_eq, after.length_eq]
    rfl
  · refine .trans ?_ (((before.map _).filter _).symm)
    rw [map_cons, filter_cons_of_neg]
    simp [here]

lemma Dict.Tidy.insert (tidy : d.Tidy L hash Holds) (lawful : L.Lawful Holds)
    (fresh : ∀ c ∈ contents d.buckets, L.getKey d.store c ≠ k) (key : L.getKey s c = k) (value : L.getValue s c = v)
    (keeps : L.Keeps (contents d.buckets) d.store s) (holds : Holds s (c :: contents d.buckets)) {d' : Dict σ π}
    (arranged : d'.Arranged L hash) (store : d'.store = s) (size : d'.index.size = d.index.size)
    (perm : (contents d'.buckets).Perm (c :: contents d.buckets)) : d.PutsTidily L hash Holds k v d'.grown := by
  subst store
  obtain ⟨entries, nodup⟩ := entries_of_perm perm key value keeps fresh
  refine ⟨⟨⟨arranged.numBuckets, arranged.robin⟩, ?_, lawful.perm holds perm.symm, nodup tidy.keys⟩, entries⟩
  show d'.index.size + 1 = (contents d'.buckets).length
  rw [perm.length_eq, size, length_cons, ← tidy.size]

/-- What becomes of the index in a `Put`: it may have one entry more, and be a larger one. -/
def Dict.Regrown (factor : LoadFactor) (d d' : Dict σ π) : Prop :=
  d'.index = d.index ∨ d'.index = d.grown.index ∨
    2 ≤ d.index.shifts ∧ d'.index = { allocateBuckets factor d.index.size (d.index.shifts - 1) with size := d.index.size + 1 }

omit [DecidableEq K] [Inhabited π] in
lemma Dict.Regrown.laid {d' : Dict σ π} (regrown : d.Regrown factor d') (laid : d.index.Laid) : d'.index.Laid := by
  obtain same | same | ⟨few, same⟩ := regrown
  · exact same ▸ laid
  · rw [same]
    exact ⟨laid.shifts, laid.numBuckets, laid.capacity⟩
  · rw [same]
    have range : 1 ≤ d.index.shifts - 1 ∧ d.index.shifts - 1 ≤ initialShifts :=
      ⟨le_sub_one_of_lt few, le_trans (sub_le _ _) laid.shifts.2⟩
    have laid' : (allocateBuckets factor d.index.size (d.index.shifts - 1)).Laid := laid_allocateBuckets range d.index.size
    exact ⟨laid'.shifts, laid'.numBuckets, laid'.capacity⟩

lemma Dict.put_gives {E : Fault → Prop} (reserved : E .reserved)
    (far : ∀ f n, n ≤ d.buckets.length + d.buckets.length → f.Far n → E f)
    (careful : (∀ f, E f) ∨ d.index.maxBucketCapacity < d.buckets.length) (lawful : L.Lawful Holds)
    (tidy : d.Tidy L hash Holds) (laid : d.index.Laid) (k : K) (v : V) :
    Gives E (fun d' => d.PutsTidily L hash Holds k v d' ∧ d.Regrown factor d') (d.put L hash factor k v) := by
  have wide : ∀ f : Fault, f.Far d.buckets.length → E f := fun f => far f _ (le_add_right _ _)
  have refused : ∀ f, f = .reserved → E f := fun f same => same ▸ reserved
  refine ((search_spec tidy.arranged k).weaken wide).bind ?_
  rintro (i | ⟨word, i⟩) found
  · obtain ⟨lt, occupied, here⟩ := found
    have holds := lawful.perm tidy.holds (contents_perm_others lt occupied)
    have update := lawful.update v holds
    rw [here] at update
    refine (update.weaken refused).bind ?_
    rintro ⟨c, s⟩ ⟨key, value, keeps, holds'⟩
    exact ⟨tidy.replace lawful lt occupied here key value keeps holds', .inl rfl⟩
  · obtain ⟨fresh, ends⟩ := found
    refine ((lawful.newBucket k v tidy.holds).weaken refused).bind ?_
    rintro ⟨c, s⟩ ⟨key, value, keeps, holds, lists⟩
    have arranged : Arranged L hash { d with store := s } :=
      ⟨tidy.arranged.numBuckets, tidy.arranged.robin.congr rfl rfl fun i lt occupied =>
        (keeps _ (mem_contents.mpr ⟨i, lt, occupied, rfl⟩)).1⟩
    show Gives _ _ (ite _ _ _)
    split
    case isTrue full =>
      by_cases limited : d.index.maxBucketCapacity = maxBucketCount
      · have all : ∀ f, E f := careful.resolve_right fun less => by
          have most : d.buckets.length ≤ maxBucketCount := by
            rw [← tidy.arranged.numBuckets, laid.numBuckets]
            exact min_le_left _ _
          omega
        rw [increaseSize, if_pos limited]
        exact all _
      have few := laid.two_le limited
      refine ((increaseSize_spec arranged laid limited tidy.size lists).weaken fun f => far f _ le_rfl).bind ?_
      rintro d1 ⟨arranged1, store, index, perm⟩
      have double : d1.buckets.length = d.buckets.length + d.buckets.length := by
        rw [← arranged1.numBuckets, index, ← tidy.arranged.numBuckets, laid.numBuckets]
        exact calcNumBuckets_pred few laid.shifts.2
      have wide1 : ∀ f : Fault, f.Far d1.buckets.length → E f := fun f => far f _ (le_of_eq double)
      refine ((nextWhileLess_spec arranged1 k).weaken wide1).bind ?_
      rintro ⟨i, word⟩ ends
      have room : (contents d1.buckets).length < d1.buckets.length := by
        have le : (contents d.buckets).length ≤ d.buckets.length := length_filterMap_le _ _
        have two := tidy.arranged.robin.two
        rw [perm.length_eq, double]
        exact lt_of_le_of_lt le (by omega)
      have same : L.getKey d1.store c = k := (congrArg (L.getKey · c) store).trans key
      refine ((place_spec (c := c) arranged1 room (by rw [same]; exact ends)).weaken wide1).bind fun d2 filled => ?_
      have index' := filled.index.trans index
      refine ⟨tidy.insert lawful fresh key value keeps holds filled.arranged (filled.store.trans store)
        (by rw [index']; rfl) (filled.perm.trans (perm.cons c)), .inr (.inr ⟨few, ?_⟩)⟩
      show { d2.index with size := d2.index.size + 1 } = _
      rw [index']
      rfl
    case isFalse vacant =>
      rw [← key] at ends
      have placed : Gives E (Filled L hash { d with store := s } (c :: contents d.buckets))
          (place { d with store := s } ⟨c, word⟩ i) := by
        rcases careful with all | less
        · exact (place_ofOk arranged ends).weaken fun f _ => all f
        · have few : d.index.size ≤ d.index.maxBucketCapacity := by simpa [IndexMeta.isFull] using vacant
          rw [tidy.size] at few
          exact (place_spec arranged (lt_of_le_of_lt few less) ends).weaken wide
      refine placed.bind fun d2 filled => ?_
      refine ⟨tidy.insert lawful fresh key value keeps holds filled.arranged filled.store
        (congrArg IndexMeta.size filled.index) filled.perm, .inr (.inl ?_)⟩
      show { d2.index with size := d2.index.size + 1 } = _
      rw [filled.index]
      rfl

end

lemma Dict.put_spec [DecidableEq K] (lawful : L.Lawful Holds) (below : factor.num < 2 ^ factor.exp)
    (inv : d.Inv L hash Holds) (small : 3 ≤ d.index.shifts) (k : K) (v : V) :
    Gives (fun f => f = .reserved ∨ f = .overflow ∧ 2 ^ 22 < d.index.numBuckets) (d.Puts L hash Holds k v)
      (d.put L hash factor k v) := by
  have careful : d.index.maxBucketCapacity < d.buckets.length := by
    rw [inv.length]
    exact inv.sized.capacity
  have far : ∀ (f : Fault) n, n ≤ d.buckets.length + d.buckets.length → f.Far n →
      f = .reserved ∨ f = .overflow ∧ 2 ^ 22 < d.index.numBuckets := fun f n le ⟨same, wide⟩ =>
    .inr ⟨same, by rw [inv.arranged.numBuckets]; omega⟩
  refine (put_gives (.inl rfl) far (.inr careful) lawful inv.tidy inv.sized.laid k v).mono ?_
  rintro d' ⟨⟨tidy, entries⟩, regrown⟩
  refine ⟨⟨tidy.arranged, ?_, tidy.size, tidy.holds, tidy.keys⟩, entries⟩
  obtain same | same | ⟨-, same⟩ := regrown
  · rw [same]
    exact inv.sized
  · rw [same]
    exact ⟨inv.sized.shifts, inv.sized.numBuckets, inv.sized.capacity⟩
  · rw [same]
    have range : 2 ≤ d.index.shifts - 1 ∧ d.index.shifts - 1 ≤ initialShifts :=
      ⟨le_sub_one_of_lt small, le_trans (sub_le _ _) inv.sized.shifts.2⟩
    have sized := sized_allocateBuckets range below d.index.size
    exact ⟨sized.shifts, sized.numBuckets, sized.capacity⟩

end

end Myctk.Rdict
