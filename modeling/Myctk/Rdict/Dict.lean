import Mathlib.Data.List.GetD
import Myctk.Lib.Bytes
import Myctk.Lib.Outcome
import Myctk.Lib.Ring

/-! The data file of a dictionary: how a key and a value are packed (`Serializer` and `KeyValPair`, `rdict/rdict.h`) and
    how records are added (`rdict/mmap_file.cc`). -/

namespace Myctk.Rdict
open List Lib

inductive Fault where
  /-- A value does not fit the 32 bits it is kept in: a probe distance of `2 ^ 24`, or an index of `2 ^ 32`. -/
  | overflow
  /-- "Too large data to fit in reserved space." -/
  | reserved
  /-- "unable to write readonly data" -/
  | readonly
  /-- "capacity overflow" -/
  | capacity
  /-- "offset overflow" -/
  | offset
  | outOfRange
  | endless
  /-- A file is not there, or cannot be mapped: "invalid segment file path", "create space" or "read index failed". -/
  | unreadable
  deriving DecidableEq

class Serializer (α : Type) where
  pack : α → Bytes
  unpack : Bytes → α × Nat
  getSize : Bytes → Nat
  unpack_pack : ∀ a rest, unpack (pack a ++ rest) = (a, (pack a).length)
  getSize_pack : ∀ a rest, getSize (pack a ++ rest) = (pack a).length

/-- Types that are copied as they lie in memory. -/
instance : Serializer UInt32 where
  pack n := leBytes 4 n.toNat
  unpack data := (.ofNat (leNat (data.take 4)), 4)
  getSize _ := 4
  unpack_pack n rest := by
    rw [take_left' (length_leBytes 4 _), leNat_leBytes (by exact n.toNat_lt), UInt32.ofNat_toNat,
      length_leBytes]
  getSize_pack n rest := (length_leBytes 4 _).symm

/-- A `std::string_view` whose size fits the 32 bits that it is packed in. -/
abbrev StringView := { s : Bytes // s.length < 256 ^ 4 }

instance : Inhabited StringView := ⟨⟨[], by decide⟩⟩

instance : Serializer StringView where
  pack s := leBytes 4 s.val.length ++ s.val
  unpack data :=
    let len := leNat (data.take 4)
    (⟨(data.drop 4).take len, by
      refine Nat.lt_of_le_of_lt (length_take_le _ _) (Nat.lt_of_lt_of_le (leNat_lt _) ?_)
      exact Nat.pow_le_pow_right (by decide) (length_take_le _ _)⟩, 4 + len)
  getSize data := 4 + leNat (data.take 4)
  unpack_pack s rest := by
    have len : leNat ((leBytes 4 s.val.length ++ s.val ++ rest).take 4) = s.val.length := by
      rw [append_assoc, take_left' (length_leBytes 4 _), leNat_leBytes s.property]
    have text : (leBytes 4 s.val.length ++ s.val ++ rest).drop 4 = s.val ++ rest := by
      rw [append_assoc, drop_left' (length_leBytes 4 _)]
    simp only [len, text, take_left', length_append, length_leBytes]
  getSize_pack s rest := by
    rw [append_assoc, take_left' (length_leBytes 4 _), leNat_leBytes s.property, length_append,
      length_leBytes]

namespace KeyValPair

section
variable {K V : Type} [Serializer K] [Serializer V]

def allignLen (len : Nat) : Nat := (len + 1 + 7) / 8 * 8

def pack (k : K) (v : V) : Bytes :=
  let buffer := Serializer.pack k ++ Serializer.pack v
  buffer ++ replicate (allignLen buffer.length - buffer.length) 0

def unpackKey (K : Type) [Serializer K] (data : Bytes) : K := (Serializer.unpack data).1

end

section
variable (K V : Type) [Serializer K] [Serializer V]

def unpack (data : Bytes) : K × V × Nat :=
  let (k, n₁) := (Serializer.unpack data : K × Nat)
  let (v, n₂) := (Serializer.unpack (data.drop n₁) : V × Nat)
  (k, v, n₁ + n₂)

def flagsAt (data : Bytes) : Nat :=
  let n₁ := Serializer.getSize K data
  n₁ + Serializer.getSize V (data.drop n₁)

def getKeyValuePackSize (data : Bytes) : Nat := allignLen (flagsAt K V data)

/-- The flag `invalid`, the lowest bit. -/
def getFlags (data : Bytes) : Bool := (data.getD (flagsAt K V data) 0).toNat % 2 = 1

def setFlags (data : Bytes) (invalid : Bool) : Bytes := data.set (flagsAt K V data) (if invalid then 1 else 0)

end

end KeyValPair

def kSegmentSize : Nat := 64 * 1024 * 1024

structure MmapFile where
  data : Bytes
  capacity : Nat
  reservedSpaceBytes : Nat
  readonly : Bool

namespace MmapFile

def create (reservedSpaceBytes : Nat) : MmapFile := ⟨[], kSegmentSize, max reservedSpaceBytes kSegmentSize, false⟩

def extendBuffer (f : MmapFile) (len : Nat) : Except Fault MmapFile :=
  let capacity := f.capacity + (len + kSegmentSize) / kSegmentSize * kSegmentSize
  if f.reservedSpaceBytes < capacity then .error .reserved else .ok { f with capacity }

def add (f : MmapFile) (bytes : Bytes) : Except Fault (Nat × MmapFile) := do
  if f.readonly then .error .readonly else
  let offset := f.data.length
  let f ← if f.capacity < offset + bytes.length then f.extendBuffer (offset + bytes.length - f.capacity) else .ok f
  return (offset, { f with data := f.data ++ bytes })

end MmapFile

/-! The dictionary (`ReadonlyDict`, `rdict/rdict.h`): a table of buckets with robin-hood hashing over one of two layouts. -/

open KeyValPair

variable {K V σ π : Type}

structure Bucket (π : Type) where
  content : π
  distAndFingerprint : Nat

instance [Inhabited π] : Inhabited (Bucket π) := ⟨⟨default, 0⟩⟩

structure IndexMeta where
  size : Nat
  numBuckets : Nat
  maxBucketCapacity : Nat
  shifts : Nat

structure Dict (σ π : Type) where
  store : σ
  index : IndexMeta
  buckets : List (Bucket π)

structure Layout (K V σ π : Type) where
  newBucket : σ → K → V → Except Fault (π × σ)
  getKey : σ → π → K
  getValue : σ → π → V
  update : σ → π → K → V → Except Fault (π × σ)
  read : σ → List (Bucket π) → Nat → Except Fault (Option π × Nat)
  extent : σ → List (Bucket π) → Nat
  taken : σ → π → π
  join : σ → σ → Except Fault σ

def kDistInc : Nat := 256

def u32 (x : Nat) : Except Fault Nat := if x < 2 ^ 32 then .ok x else .error .overflow

/-- How words and indices are computed, and how many passes a loop over so many buckets gets. -/
class Words where
  distInc : Nat → Except Fault Nat
  index : Nat → Except Fault Nat
  passes : Nat → Nat

/-- Numbers that leave their 32 bits are a fault. -/
instance Words.checked : Words := ⟨fun x => u32 (x + kDistInc), u32, (· + 1)⟩

/-- `uint32_t` of the source, with any number of passes. -/
@[reducible] def Words.source (passes : Nat) : Words :=
  ⟨fun x => .ok ((x + kDistInc) % 2 ^ 32), fun i => .ok (i % 2 ^ 32), fun _ => passes⟩

def distAndFingerprintFromHash (hash : UInt64) : Nat := kDistInc ||| (hash.toNat % 2 ^ 32 &&& (kDistInc - 1))

def IndexMeta.bucketIdxFromHash (index : IndexMeta) (hash : UInt64) : Nat := hash.toNat >>> index.shifts

def IndexMeta.next (index : IndexMeta) (bucketIdx : Nat) : Nat :=
  if bucketIdx + 1 = index.numBuckets then 0 else bucketIdx + 1

/-- The load factor as a number `num / 2 ^ exp`. -/
structure LoadFactor where
  num : Nat
  exp : Nat

/-- `0.8F`. -/
def kDefaultMaxLoadFactor : LoadFactor := ⟨13421773, 24⟩

def initialShifts : Nat := 64 - 2

def maxBucketCount : Nat := 2 ^ 63

def calcNumBuckets (shifts : Nat) : Nat := min maxBucketCount (2 ^ (64 - shifts))

/-- `allocate_buckets_from_shift`. -/
def allocateBuckets (factor : LoadFactor) (size shifts : Nat) : IndexMeta :=
  let numBuckets := calcNumBuckets shifts
  { size, numBuckets, shifts,
    maxBucketCapacity := if numBuckets = maxBucketCount then maxBucketCount else numBuckets * factor.num / 2 ^ factor.exp }

def calcShiftsForSize (factor : LoadFactor) (s : Nat) : Nat → Nat
  | 0 => 0
  | shifts + 1 =>
    if calcNumBuckets (shifts + 1) * factor.num / 2 ^ factor.exp < s then calcShiftsForSize factor s shifts else shifts + 1

def IndexMeta.isFull (index : IndexMeta) : Bool := index.maxBucketCapacity < index.size

section
variable [Words] [Inhabited π]

def placeAndShiftUp (index : IndexMeta) :
    Nat → List (Bucket π) → Bucket π → Nat → Except Fault (List (Bucket π))
  | 0, _, _, _ => .error .endless
  | fuel + 1, buckets, bucket, place =>
    let here := buckets.getD place default
    if here.distAndFingerprint ≠ 0 then
      (Words.distInc here.distAndFingerprint).bind fun word =>
        placeAndShiftUp index fuel (buckets.set place bucket) { here with distAndFingerprint := word } (index.next place)
    else .ok (buckets.set place bucket)

namespace Dict
variable (L : Layout K V σ π) (hash : K → UInt64) (d : Dict σ π)

/-- The loop of `Put`, `Get` and `Exists`: the bucket of the key, or the word and the place at which the search ends. -/
def probe [DecidableEq K] (key : K) : Nat → Nat → Nat → Except Fault (Nat ⊕ Nat × Nat)
  | 0, _, _ => .error .endless
  | fuel + 1, word, i =>
    let bucket := d.buckets.getD i default
    if word ≤ bucket.distAndFingerprint then
      if word = bucket.distAndFingerprint ∧ key = L.getKey d.store bucket.content then .ok (.inl i)
      else (Words.distInc word).bind fun word => probe key fuel word (d.index.next i)
    else .ok (.inr (word, i))

def nextWhileLessLoop : Nat → Nat → Nat → Except Fault (Nat × Nat)
  | 0, _, _ => .error .endless
  | fuel + 1, word, i =>
    if word < (d.buckets.getD i default).distAndFingerprint then
      (Words.distInc word).bind fun word => nextWhileLessLoop fuel word (d.index.next i)
    else .ok (word, i)

def passes : Nat := Words.passes d.index.numBuckets

def search [DecidableEq K] (key : K) : Except Fault (Nat ⊕ Nat × Nat) :=
  d.probe L key d.passes (distAndFingerprintFromHash (hash key)) (d.index.bucketIdxFromHash (hash key))

def nextWhileLess (key : K) : Except Fault (Nat × Nat) := do
  let (word, i) ← d.nextWhileLessLoop d.passes (distAndFingerprintFromHash (hash key))
    (d.index.bucketIdxFromHash (hash key))
  return (← Words.index i, word)

def place (bucket : Bucket π) (i : Nat) : Except Fault (Dict σ π) := do
  return { d with buckets := ← placeAndShiftUp d.index d.passes d.buckets bucket i }

def fill (old : List (Bucket π)) : Nat → Nat → Nat → Dict σ π → Except Fault (Dict σ π)
  | _, 0, _, d => .ok d
  | 0, _ + 1, _, _ => .error .endless
  | fuel + 1, left + 1, cursor, d => do
    let (content, cursor) ← L.read d.store old cursor
    match content with
    | none => fill old fuel (left + 1) cursor d
    | some content =>
      let (i, word) ← d.nextWhileLess hash (L.getKey d.store content)
      fill old fuel left cursor (← d.place ⟨content, word⟩ i)

def rehash (factor : LoadFactor) (shifts : Nat) : Except Fault (Dict σ π) :=
  let index := allocateBuckets factor d.index.size shifts
  fill L hash d.buckets (L.extent d.store d.buckets) d.index.size 0
    { store := d.store, index, buckets := List.replicate index.numBuckets default }

def increaseSize (factor : LoadFactor) : Except Fault (Dict σ π) :=
  if d.index.maxBucketCapacity = maxBucketCount then .error .capacity
  else d.rehash L hash factor (d.index.shifts - 1)

def reserve (factor : LoadFactor) (capa : Nat) : Except Fault (Dict σ π) :=
  let shifts := calcShiftsForSize factor (max (min capa maxBucketCount) d.index.size) initialShifts
  if d.index.numBuckets = 0 ∨ shifts < d.index.shifts then
    d.rehash L hash factor (if shifts = 0 then d.index.shifts else shifts)
  else .ok d

def newShifts (factor : LoadFactor) (bucketCount : Nat) : Nat :=
  let shifts := calcShiftsForSize factor (min bucketCount maxBucketCount) initialShifts
  if bucketCount = 0 ∨ shifts = 0 then initialShifts else shifts

def new (factor : LoadFactor) (bucketCount : Nat) (store : σ) : Dict σ π :=
  let index := allocateBuckets factor 0 (newShifts factor bucketCount)
  { store, index, buckets := List.replicate index.numBuckets default }

variable [DecidableEq K]

/-- The value of a key; `none` is "not found entry". -/
def get (key : K) : Except Fault (Option V) := do
  match ← d.search L hash key with
  | .inl i => return some (L.getValue d.store (d.buckets.getD i default).content)
  | .inr _ => return none

def exist (key : K) : Except Fault Bool := do
  match ← d.search L hash key with
  | .inl _ => return true
  | .inr _ => return false

def grown : Dict σ π := { d with index.size := d.index.size + 1 }

def put (factor : LoadFactor) (key : K) (val : V) : Except Fault (Dict σ π) := do
  match ← d.search L hash key with
  | .inl i =>
    let bucket := d.buckets.getD i default
    let (content, store) ← L.update d.store bucket.content key val
    return { d with store, buckets := d.buckets.set i { bucket with content } }
  | .inr (word, i) =>
    let (content, store) ← L.newBucket d.store key val
    let d := { d with store }
    if d.index.isFull then
      let d ← d.increaseSize L hash factor
      let (i, word) ← d.nextWhileLess hash key
      return (← d.place ⟨content, word⟩ i).grown
    else return (← d.place ⟨content, word⟩ i).grown

def mergeLoop (other : Dict σ π) : Nat → Nat → Nat → Dict σ π → Except Fault (Dict σ π)
  | _, 0, _, d => .ok d
  | 0, _ + 1, _, _ => .error .endless
  | fuel + 1, left + 1, cursor, d => do
    let (content, cursor) ← L.read other.store other.buckets cursor
    match content with
    | none => mergeLoop other fuel (left + 1) cursor d
    | some content =>
      let (i, word) ← d.nextWhileLess hash (L.getKey other.store content)
      mergeLoop other fuel left cursor (← d.place ⟨L.taken d.store content, word⟩ i).grown

def merge (factor : LoadFactor) (readonly : Bool) (other : Dict σ π) : Except Fault (Dict σ π) := do
  if readonly then .error .readonly else
  let d ← d.reserve L hash factor ((d.index.size + other.index.size) * 2 ^ factor.exp / factor.num)
  let d ← mergeLoop L hash other (L.extent other.store other.buckets) other.index.size 0 d
  return { d with store := ← L.join d.store other.store }

end Dict

end

def flat (K V : Type) : Layout K V Unit (K × V) where
  newBucket _ k v := .ok ((k, v), ())
  getKey _ content := content.1
  getValue _ content := content.2
  update _ content _ v := .ok ((content.1, v), ())
  read _ old cursor :=
    match old[cursor]? with
    | none => .error .outOfRange
    | some bucket =>
      if bucket.distAndFingerprint = 0 then .ok (none, cursor + 1) else .ok (some bucket.content, cursor + 1)
  extent _ old := old.length
  taken _ content := content
  join _ _ := .ok ()

def recordLog (K V : Type) [Serializer K] [Serializer V] : Layout K V MmapFile Nat where
  newBucket f k v := f.add (pack k v)
  getKey f offset := unpackKey K (f.data.drop offset)
  getValue f offset := (unpack K V (f.data.drop offset)).2.1
  update f offset k v := do
    let (added, f) ← f.add (pack k v)
    return (added, { f with data := f.data.take offset ++ setFlags K V (f.data.drop offset) true })
  read f _ offset :=
    if f.data.length ≤ offset then .error .offset
    else
      let data := f.data.drop offset
      .ok (if getFlags K V data then none else some offset, offset + getKeyValuePackSize K V data)
  extent f _ := f.data.length
  taken f offset := f.data.length + offset
  join f other := do return (← f.add other.data).2

abbrev flat32 := flat UInt32 UInt32

abbrev textLog := recordLog StringView StringView

/-! The array of buckets: the robin-hood order, and what the loops over the array do while it holds. -/

open Function Nat IndexMeta
open Lib.Ring

variable {K V σ π : Type} [Inhabited π]

def Fault.Excluded (f : Fault) : Prop := f = .overflow ∨ f = .reserved

def Fault.NoOutcome (f : Fault) : Prop := f = .overflow ∨ f = .endless

/-- A number leaves its 32 bits, in a table of more than `2 ^ 23` buckets. -/
def Fault.Far (n : Nat) (f : Fault) : Prop := f = .overflow ∧ 2 ^ 23 < n

lemma gives_u32 (x : Nat) : Gives (fun f => f = Fault.overflow ∧ 2 ^ 32 ≤ x) (· = x) (u32 x) := by
  unfold u32
  split
  · rfl
  · next wide => exact ⟨rfl, Nat.not_lt.mp wide⟩

lemma gives_distInc {n x : Nat} (lt : x < kDistInc * (n + 1)) : Gives (Fault.Far n) (· = x + kDistInc) (Words.distInc x) := by
  refine (gives_u32 _).weaken fun f ⟨same, wide⟩ => ⟨same, ?_⟩
  rw [kDistInc] at lt wide
  omega

def wordAt (bs : List (Bucket π)) (i : Nat) : Nat := (bs.getD i default).distAndFingerprint

def contentAt (bs : List (Bucket π)) (i : Nat) : π := (bs.getD i default).content

def contents (bs : List (Bucket π)) : List π :=
  bs.filterMap fun b => if b.distAndFingerprint = 0 then none else some b.content

section
variable {bs : List (Bucket π)} {i : Nat} {b : Bucket π}

lemma getD_set (inside : i < bs.length) (j : Nat) : (bs.set i b).getD j default = update (fun j => bs.getD j default) i b j := by
  rcases eq_or_ne j i with rfl | other
  · rw [update_self, getD_eq_getElem?_getD, getElem?_set_self inside, Option.getD_some]
  · rw [update_of_ne other, getD_eq_getElem?_getD, getElem?_set_ne other.symm,
      getD_eq_getElem?_getD]

lemma wordAt_set (inside : i < bs.length) : wordAt (bs.set i b) = update (wordAt bs) i b.distAndFingerprint := by
  funext j
  rw [wordAt, getD_set inside]
  rcases eq_or_ne j i with rfl | other
  · rw [update_self, update_self]
  · rw [update_of_ne other, update_of_ne other, wordAt]

lemma contentAt_set (inside : i < bs.length) : contentAt (bs.set i b) = update (contentAt bs) i b.content := by
  funext j
  rw [contentAt, getD_set inside]
  rcases eq_or_ne j i with rfl | other
  · rw [update_self, update_self]
  · rw [update_of_ne other, update_of_ne other, contentAt]

lemma mem_contents {c : π} : c ∈ contents bs ↔ ∃ i < bs.length, wordAt bs i ≠ 0 ∧ contentAt bs i = c := by
  rw [contents, mem_filterMap]
  constructor
  · rintro ⟨b, member, here⟩
    obtain ⟨i, lt, rfl⟩ := mem_iff_getElem.mp member
    refine ⟨i, lt, ?_⟩
    rw [wordAt, contentAt, getD_eq_getElem _ _ lt]
    split at here
    · cases here
    · exact ⟨by assumption, Option.some.inj here⟩
  · rintro ⟨i, lt, occupied, rfl⟩
    refine ⟨bs[i], getElem_mem lt, ?_⟩
    rw [wordAt, getD_eq_getElem _ _ lt] at occupied
    rw [if_neg occupied, contentAt, getD_eq_getElem _ _ lt]

section
variable (inside : i < bs.length)
include inside

lemma contents_eq :
    contents bs = contents (bs.take i) ++ ((if wordAt bs i = 0 then [] else [contentAt bs i]) ++ contents (bs.drop (i + 1))) := by
  have split : bs = bs.take i ++ bs[i] :: bs.drop (i + 1) := by simp
  nth_rewrite 1 [split]
  rw [contents, filterMap_append, filterMap_cons, wordAt, contentAt, getD_eq_getElem _ _ inside]
  by_cases free : bs[i].distAndFingerprint = 0
  · simp [free, contents]
  · simp [free, contents]

section
variable (occupied : b.distAndFingerprint ≠ 0)
include occupied

lemma contents_set : contents (bs.set i b) = contents (bs.take i) ++ b.content :: contents (bs.drop (i + 1)) := by
  have inside' : i < (bs.set i b).length := by rwa [length_set]
  rw [contents_eq inside', wordAt_set inside, contentAt_set inside, update_self, update_self,
    if_neg occupied, take_set_of_le (le_refl i), drop_set_of_lt (lt_succ_self i)]
  rfl

lemma contents_set_free (free : wordAt bs i = 0) : (contents (bs.set i b)).Perm (b.content :: contents bs) := by
  rw [contents_set inside occupied, contents_eq inside, if_pos free]
  exact perm_middle

lemma contents_set_occupied (taken : wordAt bs i ≠ 0) :
    (contentAt bs i :: contents (bs.set i b)).Perm (b.content :: contents bs) := by
  rw [contents_set inside occupied, contents_eq inside, if_neg taken]
  exact (perm_middle.cons _).trans ((List.Perm.swap _ _ _).trans (perm_middle.symm.cons _))

end

end

lemma exists_free (room : (contents bs).length < bs.length) : ∃ i < bs.length, wordAt bs i = 0 := by
  by_contra none
  have all : contents bs = bs.map (·.content) := by
    rw [contents, ← filterMap_eq_map]
    refine filterMap_congr fun b member => if_neg fun free => ?_
    obtain ⟨i, lt, rfl⟩ := mem_iff_getElem.mp member
    exact none ⟨i, lt, by rw [wordAt, getD_eq_getElem _ _ lt, free]⟩
  rw [all, length_map] at room
  exact lt_irrefl _ room

end

structure Robin (home fingerprint : K → Nat) (key : π → K) (bs : List (Bucket π)) : Prop where
  two : 2 ≤ bs.length
  home_lt : ∀ k, home k < bs.length
  fingerprint_lt : ∀ k, fingerprint k < kDistInc
  ordered : Ordered kDistInc bs.length (wordAt bs)
  placed : ∀ i < bs.length, wordAt bs i ≠ 0 → ∃ t < bs.length, walk bs.length (home (key (contentAt bs i))) t = i ∧
    wordAt bs i = kDistInc * (t + 1) + fingerprint (key (contentAt bs i))

section
variable {home fingerprint : K → Nat} {key : π → K} {bs : List (Bucket π)} {c : π} {t : Nat}

lemma kDistInc_pos : 0 < kDistInc := by decide

lemma word_ne_zero (t f : Nat) : kDistInc * (t + 1) + f ≠ 0 := by
  have := kDistInc_pos
  rw [mul_succ]
  omega

lemma word_succ (t f : Nat) : kDistInc * (t + 1) + f + kDistInc = kDistInc * (t + 1 + 1) + f := by
  rw [mul_succ kDistInc (t + 1), add_right_comm]

section
variable (robin : Robin home fingerprint key bs)
include robin

lemma Robin.reached {k : K} {i : Nat} (there : walk bs.length (home k) t = i)
    (word : wordAt bs i = kDistInc * (t + 1) + fingerprint k) :
    Reached kDistInc bs.length (wordAt bs) (home k) (fingerprint k) (t + 1) :=
  robin.ordered.reached (robin.home_lt k) (by rw [there, word])

lemma Robin.set (free : ∃ i < bs.length, wordAt bs i = 0)
    (reached : Reached kDistInc bs.length (wordAt bs) (home (key c)) (fingerprint (key c)) t)
    (le : wordAt bs (walk bs.length (home (key c)) t) ≤ kDistInc * (t + 1) + fingerprint (key c)) : Robin home fingerprint key
      (bs.set (walk bs.length (home (key c)) t) ⟨c, kDistInc * (t + 1) + fingerprint (key c)⟩) := by
  have inside := robin.home_lt (key c)
  have here : walk bs.length (home (key c)) t < bs.length := walk_lt inside
  refine ⟨?_, ?_, robin.fingerprint_lt, ?_, ?_⟩
  · rw [length_set]
    exact robin.two
  · rw [length_set]
    exact robin.home_lt
  · rw [length_set, wordAt_set here]
    exact robin.ordered.update robin.two kDistInc_pos (robin.fingerprint_lt _) inside reached le
  · rw [length_set, wordAt_set here, contentAt_set here]
    intro i lt
    rcases eq_or_ne i (walk bs.length (home (key c)) t) with rfl | other
    · rw [update_self, update_self]
      obtain ⟨e, there, empty⟩ := free
      exact fun _ => ⟨t, reached.lt kDistInc_pos inside there empty, rfl, rfl⟩
    · rw [update_of_ne other, update_of_ne other]
      exact robin.placed i lt

lemma Robin.displaced {i word : Nat} (lt : i < bs.length) (occupied : wordAt bs i ≠ 0) (le : wordAt bs i ≤ word) :
    ∃ t, next bs.length i = walk bs.length (home (key (contentAt bs i))) t ∧
      wordAt bs i + kDistInc = kDistInc * (t + 1) + fingerprint (key (contentAt bs i)) ∧
      Reached kDistInc bs.length (update (wordAt bs) i word) (home (key (contentAt bs i)))
        (fingerprint (key (contentAt bs i))) t ∧ update (wordAt bs) i word (next bs.length i) ≤ wordAt bs i + kDistInc := by
  obtain ⟨t, -, there, eq⟩ := robin.placed i lt occupied
  refine ⟨t + 1, ?_, ?_, (robin.reached there eq).update le, ?_⟩
  · rw [← next_walk (robin.home_lt _), there]
  · rw [eq, word_succ]
  · rw [update_of_ne (next_ne robin.two)]
    rcases robin.ordered i lt with first | ⟨-, step⟩
    · rw [eq, mul_succ]
      omega
    · exact step

end

lemma Robin.wordAt_lt (robin : Robin home fingerprint key bs) {i : Nat} (lt : i < bs.length) :
    wordAt bs i < kDistInc * (bs.length + 1) := by
  rcases eq_or_ne (wordAt bs i) 0 with free | occupied
  · rw [free]
    exact mul_pos kDistInc_pos (succ_pos _)
  · obtain ⟨t, far, -, eq⟩ := robin.placed i lt occupied
    calc wordAt bs i < kDistInc * (t + 1) + kDistInc := by
          rw [eq]
          exact Nat.add_lt_add_left (robin.fingerprint_lt _) _
      _ ≤ kDistInc * (bs.length + 1) := mul_le_mul_left _ (succ_le_succ far)

lemma placeAndShiftUp_succ [Words] {index : IndexMeta} {fuel i : Nat} {b : Bucket π} : placeAndShiftUp index (fuel + 1) bs b i =
      if wordAt bs i = 0 then .ok (bs.set i b) else (Words.distInc (wordAt bs i)).bind fun word =>
        placeAndShiftUp index fuel (bs.set i b) ⟨contentAt bs i, word⟩ (index.next i) := by
  rw [placeAndShiftUp]
  exact ite_not ..

lemma placeAndShiftUp_full {index : IndexMeta} {fuel i : Nat} {b : Bucket π} (numBuckets : index.numBuckets = bs.length)
    (full : ∀ j < bs.length, wordAt bs j ≠ 0) (inside : i < bs.length) (occupied : b.distAndFingerprint ≠ 0) :
    Gives Fault.NoOutcome (fun _ => False) (placeAndShiftUp index fuel bs b i) := by
  induction fuel generalizing bs b i with
  | zero => exact .inr rfl
  | succ fuel ih =>
    rw [placeAndShiftUp_succ, if_neg (full i inside)]
    refine ((gives_u32 (wordAt bs i + kDistInc)).weaken fun _ far => .inl far.1).bind fun word eq => ?_
    have later : index.next i < bs.length := by
      rw [IndexMeta.next, numBuckets]
      split <;> omega
    refine ih (numBuckets.trans length_set.symm) (fun j lt => ?_) (by rwa [length_set]) ?_
    · rw [length_set] at lt
      rw [wordAt_set inside]
      rcases eq_or_ne j i with rfl | other
      · rw [update_self]
        exact occupied
      · rw [update_of_ne other]
        exact full j lt
    · rw [eq]
      exact ne_of_gt (Nat.add_pos_right _ kDistInc_pos)

lemma placeAndShiftUp_spec {index : IndexMeta} {n fuel : Nat} (numBuckets : index.numBuckets = n) (length : bs.length = n)
    (robin : Robin home fingerprint key bs) (reached : Reached kDistInc n (wordAt bs) (home (key c)) (fingerprint (key c)) t)
    (le : wordAt bs (walk n (home (key c)) t) ≤ kDistInc * (t + 1) + fingerprint (key c))
    (free : ∃ s < fuel, wordAt bs (walk n (walk n (home (key c)) t) s) = 0) : Gives (Fault.Far n)
      (fun bs' => bs'.length = n ∧ Robin home fingerprint key bs' ∧ (contents bs').Perm (c :: contents bs))
      (placeAndShiftUp index fuel bs ⟨c, kDistInc * (t + 1) + fingerprint (key c)⟩ (walk n (home (key c)) t)) := by
  -- the array is in order after every exchange, and the free bucket comes nearer
  induction fuel generalizing bs c t with
  | zero =>
    obtain ⟨_, lt, -⟩ := free
    cases lt
  | succ fuel ih =>
    subst length
    obtain ⟨s, lt, empty⟩ := free
    have here : walk bs.length (home (key c)) t < bs.length := walk_lt (robin.home_lt _)
    have robin' := robin.set ⟨_, walk_lt here, empty⟩ reached le
    rw [placeAndShiftUp_succ]
    generalize walk bs.length (home (key c)) t = i at *
    split_ifs with vacant
    · exact ⟨length_set, robin', contents_set_free here (word_ne_zero _ _) vacant⟩
    · have occupied : wordAt bs i ≠ 0 := vacant
      obtain ⟨t', there, word, reached', le'⟩ := robin.displaced here occupied le
      have words := wordAt_set (b := ⟨c, kDistInc * (t + 1) + fingerprint (key c)⟩) here
      have goes : index.next i = walk bs.length (home (key (contentAt bs i))) t' := by
        rw [← there, IndexMeta.next, numBuckets, Lib.Ring.next]
      refine (gives_distInc (robin.wordAt_lt here)).bind fun w eq => ?_
      subst eq
      rw [goes, word]
      refine (ih length_set robin' ?_ ?_ ?_).mono ?_
      · rw [words]
        exact reached'
      · rw [words, ← there, ← word]
        exact le'
      · cases s with
        | zero => exact absurd (walk_zero here ▸ empty) occupied
        | succ s =>
          have apart : walk bs.length i (s + 1) ≠ i := fun same => occupied (same ▸ empty)
          refine ⟨s, lt_of_succ_lt_succ lt, ?_⟩
          rw [← there, ← walk_one here, walk_walk, add_comm 1 s, words, update_of_ne apart, empty]
      · rintro bs' ⟨length', robin'', perm⟩
        exact ⟨length', robin'', perm.trans (contents_set_occupied here (word_ne_zero _ _) occupied)⟩

end

section
variable {home fingerprint : K → Nat} {L : Layout K V σ π} {d : Dict σ π} {k : K} {fuel t : Nat}

def Dict.Ends (d : Dict σ π) (home fingerprint : K → Nat) (k : K) (word i : Nat) : Prop :=
  ∃ t, word = kDistInc * (t + 1) + fingerprint k ∧ i = walk d.buckets.length (home k) t ∧
    Reached kDistInc d.buckets.length (wordAt d.buckets) (home k) (fingerprint k) t ∧ wordAt d.buckets i ≤ word

def Dict.Finds (L : Layout K V σ π) (d : Dict σ π) (home fingerprint : K → Nat) (k : K) : Nat ⊕ Nat × Nat → Prop
  | .inl i => i < d.buckets.length ∧ wordAt d.buckets i ≠ 0 ∧ L.getKey d.store (contentAt d.buckets i) = k
  | .inr (word, i) => (∀ c ∈ contents d.buckets, L.getKey d.store c ≠ k) ∧ d.Ends home fingerprint k word i

lemma Robin.lt_of_le {key : π → K} {bs : List (Bucket π)} (robin : Robin home fingerprint key bs)
    (le : kDistInc * (t + 1) + fingerprint k ≤ wordAt bs (walk bs.length (home k) t)) : t < bs.length := by
  have lt := robin.wordAt_lt (walk_lt (t := t) (robin.home_lt k))
  have less : kDistInc * (t + 1) < kDistInc * (bs.length + 1) := by omega
  exact Nat.lt_of_succ_lt_succ (Nat.lt_of_mul_lt_mul_left less)

lemma IndexMeta.next_eq {index : IndexMeta} {n : Nat} (numBuckets : index.numBuckets = n) (inside : home k < n) :
    index.next (walk n (home k) t) = walk n (home k) (t + 1) := by
  rw [← next_walk inside, next, numBuckets, Lib.Ring.next]

lemma Dict.probe_succ [Words] [DecidableEq K] {word i : Nat} : d.probe L k (fuel + 1) word i = if word ≤ wordAt d.buckets i then
      if word = wordAt d.buckets i ∧ k = L.getKey d.store (contentAt d.buckets i) then .ok (.inl i)
      else (Words.distInc word).bind fun word => d.probe L k fuel word (d.index.next i) else .ok (.inr (word, i)) := rfl

lemma Dict.nextWhileLessLoop_succ [Words] {word i : Nat} : d.nextWhileLessLoop (fuel + 1) word i =
    if word < wordAt d.buckets i then (Words.distInc word).bind fun word => d.nextWhileLessLoop fuel word (d.index.next i)
    else .ok (word, i) := rfl

lemma Dict.probe_spec [DecidableEq K] (numBuckets : d.index.numBuckets = d.buckets.length)
    (robin : Robin home fingerprint (L.getKey d.store) d.buckets) (enough : fuel + t = d.buckets.length + 1)
    (reached : Reached kDistInc d.buckets.length (wordAt d.buckets) (home k) (fingerprint k) t)
    (passed : ∀ j < t, wordAt d.buckets (walk d.buckets.length (home k) j) = kDistInc * (j + 1) + fingerprint k →
      L.getKey d.store (contentAt d.buckets (walk d.buckets.length (home k) j)) ≠ k) :
    Gives (Fault.Far d.buckets.length) (d.Finds L home fingerprint k)
      (d.probe L k fuel (kDistInc * (t + 1) + fingerprint k) (walk d.buckets.length (home k) t)) := by
  have inside := robin.home_lt k
  induction fuel generalizing t with
  | zero =>
    -- the word of the last place was not smaller than the one of the search, which has gone round
    obtain rfl : t = d.buckets.length + 1 := by omega
    exact absurd (robin.lt_of_le (reached _ (lt_succ_self _))) (lt_irrefl _)
  | succ fuel ih =>
    rw [Dict.probe_succ]
    split_ifs with le found
    · exact ⟨walk_lt inside, found.1 ▸ word_ne_zero _ _, found.2.symm⟩
    · refine (gives_distInc (le.trans_lt (robin.wordAt_lt (walk_lt inside)))).bind fun w eq => ?_
      subst eq
      rw [next_eq numBuckets inside, word_succ]
      refine ih (by omega) (reached.succ le) fun j lt same => ?_
      rcases Nat.lt_succ_iff_lt_or_eq.mp lt with before | rfl
      · exact passed j before same
      · exact fun here => found ⟨same.symm, here.symm⟩
    · refine ⟨fun c member same => ?_, t, rfl, rfl, reached, Nat.le_of_not_le le⟩
      -- a bucket with the key lies on the way of the search, and its word is the one that the search has there
      obtain ⟨i, lt, occupied, rfl⟩ := mem_contents.mp member
      obtain ⟨t', -, there, eq⟩ := robin.placed i lt occupied
      rw [same] at there eq
      have far := robin.reached there eq
      rcases lt_or_ge t' t with before | after
      · exact passed t' before (by rw [there, eq]) (by rw [there, same])
      · exact le (far t (lt_succ_of_le after))

lemma Dict.nextWhileLessLoop_spec (numBuckets : d.index.numBuckets = d.buckets.length)
    (robin : Robin home fingerprint (L.getKey d.store) d.buckets) (enough : fuel + t = d.buckets.length + 1)
    (reached : Reached kDistInc d.buckets.length (wordAt d.buckets) (home k) (fingerprint k) t) :
    Gives (Fault.Far d.buckets.length) (fun (word, i) => d.Ends home fingerprint k word i)
      (d.nextWhileLessLoop fuel (kDistInc * (t + 1) + fingerprint k) (walk d.buckets.length (home k) t)) := by
  have inside := robin.home_lt k
  induction fuel generalizing t with
  | zero =>
    obtain rfl : t = d.buckets.length + 1 := by omega
    exact absurd (robin.lt_of_le (reached _ (lt_succ_self _))) (lt_irrefl _)
  | succ fuel ih =>
    rw [Dict.nextWhileLessLoop_succ]
    split_ifs with less
    · refine (gives_distInc (less.trans (robin.wordAt_lt (walk_lt inside)))).bind fun w eq => ?_
      subst eq
      rw [next_eq numBuckets inside, word_succ]
      exact ih (by omega) (reached.succ (le_of_lt less))
    · exact ⟨t, rfl, rfl, reached, Nat.le_of_not_lt less⟩

end

end Myctk.Rdict
