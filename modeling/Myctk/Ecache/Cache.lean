import Myctk.Lib.Bytes
import Myctk.Lib.Assoc

/-! The keys of items (`ecache/ecache_types.cpp`). All pools and all kinds of values share the key space of one cache. -/

namespace Myctk.Ecache
open List Lib

inductive CacheKeyType where
  | invalid
  | string
  | rangeMap
  | hashMap
  deriving DecidableEq

namespace CacheKeyType

def code : CacheKeyType → UInt8
  | invalid => 0
  | string => 1
  | rangeMap => 2
  | hashMap => 3

def IsMap (type : CacheKeyType) : Prop := type = .rangeMap ∨ type = .hashMap

instance (type : CacheKeyType) : Decidable type.IsMap := inferInstanceAs (Decidable (_ ∨ _))

lemma code_injective {type type' : CacheKeyType} (same : type.code = type'.code) : type = type' := by
  cases type <;> cases type' <;> first | rfl | exact absurd same (by decide)

end CacheKeyType

def getActualKey (poolId : UInt8) (type : CacheKeyType) (key : Bytes) (fieldSize : Nat) : Option Bytes :=
  if type = .invalid then some [poolId]
  else if type.IsMap then
    if 65535 < fieldSize then none else some (poolId :: type.code :: (leBytes 2 fieldSize ++ key))
  else some (poolId :: type.code :: key)

section
variable {poolId poolId' : UInt8} {type type' : CacheKeyType} {key key' actual : Bytes} {fieldSize fieldSize' : Nat}

lemma getActualKey_eq_some (made : getActualKey poolId type key fieldSize = some actual) :
    (type = .invalid ∧ actual = [poolId]) ∨ (type = .string ∧ actual = poolId :: type.code :: key) ∨
    (type.IsMap ∧ fieldSize < 2 ^ 16 ∧ actual = poolId :: type.code :: (leBytes 2 fieldSize ++ key)) := by
  rw [getActualKey] at made
  split at made
  case isTrue invalid =>
    cases made
    exact .inl ⟨invalid, rfl⟩
  case isFalse valid =>
    split at made
    case isTrue map =>
      split at made
      case isTrue => cases made
      case isFalse small =>
        cases made
        exact .inr (.inr ⟨map, by omega, rfl⟩)
    case isFalse other =>
      cases made
      refine .inr (.inl ⟨?_, rfl⟩)
      cases type with
      | invalid => exact absurd rfl valid
      | string => rfl
      | rangeMap => exact absurd (.inl rfl) other
      | hashMap => exact absurd (.inr rfl) other

lemma isSome_getActualKey : (getActualKey poolId type key fieldSize).isSome ↔ (type.IsMap → fieldSize ≤ 65535) := by
  rw [getActualKey]
  by_cases invalid : type = .invalid
  · rw [if_pos invalid]
    exact iff_of_true rfl fun map => absurd (invalid ▸ map) (by decide)
  · rw [if_neg invalid]
    by_cases map : type.IsMap
    · rw [if_pos map]
      by_cases large : 65535 < fieldSize
      · rw [if_pos large]
        exact iff_of_false Bool.false_ne_true fun small => Nat.not_lt.mpr (small map) large
      · rw [if_neg large]
        exact iff_of_true rfl fun _ => Nat.not_lt.mp large
    · rw [if_neg map]
      exact iff_of_true rfl fun other => absurd other map

lemma not_isMap_string : ¬ CacheKeyType.string.IsMap := by decide

lemma getActualKey_injective (made : getActualKey poolId type key fieldSize = some actual)
    (made' : getActualKey poolId' type' key' fieldSize' = some actual) :
    poolId = poolId' ∧ type = type' ∧ (type ≠ .invalid → key = key') ∧ (type.IsMap → fieldSize = fieldSize') := by
  rcases getActualKey_eq_some made with ⟨rfl, eq⟩ | ⟨rfl, eq⟩ | ⟨map, small, eq⟩
  · rcases getActualKey_eq_some made' with ⟨rfl, eq'⟩ | ⟨-, eq'⟩ | ⟨-, -, eq'⟩
    · exact ⟨(cons.inj (eq.symm.trans eq')).1, rfl, fun valid => absurd rfl valid, fun map => absurd map (by decide)⟩
    · cases eq.symm.trans eq'
    · cases eq.symm.trans eq'
  · rcases getActualKey_eq_some made' with ⟨-, eq'⟩ | ⟨rfl, eq'⟩ | ⟨map', -, eq'⟩
    · cases eq.symm.trans eq'
    · obtain ⟨pool, rest⟩ := cons.inj (eq.symm.trans eq')
      exact ⟨pool, rfl, fun _ => (cons.inj rest).2, fun map => absurd map not_isMap_string⟩
    · obtain ⟨-, rest⟩ := cons.inj (eq.symm.trans eq')
      have kind := CacheKeyType.code_injective (cons.inj rest).1
      exact absurd (kind ▸ map') not_isMap_string
  · rcases getActualKey_eq_some made' with ⟨-, eq'⟩ | ⟨rfl, eq'⟩ | ⟨map', small', eq'⟩
    · cases eq.symm.trans eq'
    · obtain ⟨-, rest⟩ := cons.inj (eq.symm.trans eq')
      have kind := CacheKeyType.code_injective (cons.inj rest).1
      exact absurd (kind ▸ map) not_isMap_string
    · obtain ⟨pool, rest⟩ := cons.inj (eq.symm.trans eq')
      obtain ⟨code, rest⟩ := cons.inj rest
      -- the sizes have two bytes in both keys
      obtain ⟨size, keys⟩ := append_inj rest (by rw [length_leBytes, length_leBytes])
      refine ⟨pool, CacheKeyType.code_injective code, fun _ => keys, fun _ => ?_⟩
      rw [← leNat_leBytes (show fieldSize < 256 ^ 2 from small), size, leNat_leBytes (show fieldSize' < 256 ^ 2 from small')]

end

/-! The operations on the values of a pool (`ecache/ecache_impl.hpp`). Each one finds one item by its key and reads or changes
    this item. -/

open Lib.Assoc

inductive InsertOrReplaceResult where
  | inserted
  | replaced
  deriving DecidableEq

inductive RemoveRes where
  | success
  | notFoundInRam
  deriving DecidableEq

structure MapLib where
  Map : Type
  create : Map
  insertOrReplace : Map → (field value : Bytes) → Option (Map × InsertOrReplaceResult)
  insert : Map → (field value : Bytes) → Option Map
  find : Map → Bytes → Option Bytes
  remove : Map → Bytes → Map × Bool
  entries : Map → List (Bytes × Bytes)
  size : Map → Nat
  compact : Map → Map
  sizeInBytes : Map → Nat

structure RangeMapLib extends MapLib where
  rangeLookupApproximate : Map → (min max : Bytes) → List (Bytes × Bytes)
  capacity : Map → Nat
  remainingBytes : Map → Nat
  wastedBytes : Map → Nat

inductive CacheType where
  | unknown
  | lru
  | lru2q
  | tinyLfu
  | lruSpinBucket
  deriving DecidableEq

structure ECacheConfig where
  name : String
  size : Int

structure ECacheManagerConfig where
  name : String
  type : CacheType
  size : Int
  bucketsPower : UInt32
  locksPower : UInt32
  enableTailHitsTracking : Bool
  backgroundReaperIntervalMs : UInt32
  memoryMonitorIntervalMs : UInt32

structure CacheLib where
  range : RangeMapLib
  hash : MapLib
  order : List Bytes → List Bytes
  expired : (now expiryTime : UInt32) → Bool
  allocates : (key : Bytes) → (size : Nat) → Bool
  allocatesMap : (key : Bytes) → Bool
  creates : ECacheManagerConfig → Bool
  room : (cacheSize : Int) → (pools : List Int) → (size : Int) → Bool

variable (L : CacheLib)

inductive Content where
  | string (value : Bytes)
  | rangeMap (map : L.range.Map)
  | hashMap (map : L.hash.Map)

structure Item where
  content : Content L
  expiryTime : UInt32

abbrev Items := List (Bytes × Item L)

variable {L}

def find (now : UInt32) (item : Option (Item L)) : Option (Item L) := item.filter fun item => !L.expired now item.expiryTime

inductive Reply where
  | value (v : Option Bytes)
  | entry (e : Option (Bytes × Bytes))
  | entries (rc : Int) (es : List (Bytes × Bytes))
  | set (res : InsertOrReplaceResult)
  | removed (res : RemoveRes)
  | bool (b : Bool)
  | int (n : Int)
  | thrown
  | fault
  deriving DecidableEq

structure Call (L : CacheLib) where
  type : CacheKeyType
  key : Bytes
  fieldSize : Nat
  act : (actual : Bytes) → Option (Item L) → Option (Item L) × Reply

def Call.run (pool : UInt8) (call : Call L) (items : Items L) : Items L × Reply :=
  match getActualKey pool call.type call.key call.fieldSize with
  | none => (items, .thrown)
  | some actual =>
    let (item, reply) := call.act actual (get actual items)
    (set actual item items, reply)

def expiryAfter (now : UInt32) (expireSecs : Int) (otherwise : UInt32) : UInt32 :=
  if 0 < expireSecs then now + UInt32.ofNat expireSecs.toNat else otherwise

structure MapView (L : CacheLib) where
  type : CacheKeyType
  lib : MapLib
  wrap : lib.Map → Content L
  unwrap : Content L → Option lib.Map

def rangeView : MapView L where
  type := .rangeMap
  lib := L.range.toMapLib
  wrap := .rangeMap
  unwrap | .rangeMap map => some map
         | _ => none

def hashView : MapView L where
  type := .hashMap
  lib := L.hash
  wrap := .hashMap
  unwrap | .hashMap map => some map
         | _ => none

def ValidSize (size : Nat) : Prop := size % 8 = 0 ∧ 8 ≤ size ∧ size ≤ 256

instance (size : Nat) : Decidable (ValidSize size) := inferInstanceAs (Decidable (_ ∧ _))

/-- `DO_MAP_OP`. -/
def doMapOp (size : Nat) (act : Option (Item L) → Option (Item L) × Reply) (item : Option (Item L)) : Option (Item L) × Reply :=
  if ValidSize size then act item else (item, .thrown)

namespace MapView

variable (V : MapView L) (now : UInt32)

def onMap (absent : Reply) (f : V.lib.Map → V.lib.Map × Reply) (item : Option (Item L)) : Option (Item L) × Reply :=
  match find now item with
  | none => (item, absent)
  | some found =>
    match V.unwrap found.content with
    | none => (item, .fault)
    | some map =>
      let (map, reply) := f map
      (some { found with content := V.wrap map }, reply)

/-- `DoHashMapSet` and `DoRangeMapSet`. -/
def doSet (actual field val : Bytes) (expireSecs : Int) (item : Option (Item L)) : Option (Item L) × Reply :=
  match find now item with
  | none =>
    if L.allocatesMap actual then
      match V.lib.insertOrReplace V.lib.create field val with
      | none => (item, .thrown)
      | some (map, result) => (some ⟨V.wrap map, expiryAfter now expireSecs 0⟩, .set result)
    else (item, .thrown)
  | some found =>
    let found := { found with expiryTime := expiryAfter now expireSecs found.expiryTime }
    match V.unwrap found.content with
    | none => (some found, .fault)
    | some map =>
      match V.lib.insertOrReplace map field val with
      | none => (some found, .thrown)
      | some (map, result) => (some { found with content := V.wrap map }, .set result)

def doGet (field : Bytes) : Option (Item L) → Option (Item L) × Reply :=
  V.onMap now (.value none) fun map => (map, .value (V.lib.find map field))

def doDel (field : Bytes) : Option (Item L) → Option (Item L) × Reply :=
  V.onMap now (.bool false) fun map => let (map, done) := V.lib.remove map field; (map, .bool done)

def doGetAll : Option (Item L) → Option (Item L) × Reply :=
  V.onMap now (.entries (-1) []) fun map => (map, .entries 0 (V.lib.entries map))

def doCompact : Option (Item L) → Option (Item L) × Reply :=
  V.onMap now (.int (-1)) fun map => (V.lib.compact map, .int 0)

def doCount (count : V.lib.Map → Nat) : Option (Item L) → Option (Item L) × Reply :=
  V.onMap now (.int (-1)) fun map => (map, .int (count map))

def call (key : Bytes) (fieldSize : Nat) (act : (actual : Bytes) → Option (Item L) → Option (Item L) × Reply) : Call L :=
  ⟨V.type, key, fieldSize, fun actual => doMapOp fieldSize (act actual)⟩

end MapView

namespace ECacheImpl

variable (now : UInt32)

/-- The result of `insertOrReplace` is the item that was replaced. -/
def set (key value : Bytes) (expireSecs : Int) : Call L :=
  ⟨.string, key, 0, fun actual old =>
    if L.allocates actual value.length then
      (some ⟨.string value, expiryAfter now expireSecs 0⟩, old.elim (.value none) fun item =>
        match item.content with
        | .string value => .value (some value)
        | _ => .fault)
    else (old, .thrown)⟩

def get (key : Bytes) : Call L :=
  ⟨.string, key, 0, fun _ item =>
    (item, (find now item).elim (.value none) fun found =>
      match found.content with
      | .string value => .value (some value)
      | _ => .fault)⟩

def del (key : Bytes) (type : CacheKeyType) (fieldSize : Nat) : Call L :=
  ⟨type, key, fieldSize, fun _ item => (none, .removed (if item.isSome then .success else .notFoundInRam))⟩

def existsKey (key : Bytes) (type : CacheKeyType) (fieldSize : Nat) : Call L :=
  ⟨type, key, fieldSize, fun _ item => (item, .bool (find now item).isSome)⟩

/-- `Expire` and `ExpireAt`, by the expiry time they set. -/
def setExpiryTime (expiryTime : UInt32) (item : Option (Item L)) : Option (Item L) × Reply :=
  match find now item with
  | none => (item, .bool false)
  | some found => (some { found with expiryTime }, .bool true)

def expire (key : Bytes) (secs : UInt32) (type : CacheKeyType) (fieldSize : Nat) : Call L :=
  ⟨type, key, fieldSize, fun _ => setExpiryTime now (now + secs)⟩

def expireAt (key : Bytes) (secs : UInt32) (type : CacheKeyType) (fieldSize : Nat) : Call L :=
  ⟨type, key, fieldSize, fun _ => setExpiryTime now secs⟩

def rangeMapGet (key field : Bytes) : Call L := rangeView.call key field.length fun _ => rangeView.doGet now field

def rangeMapRangeGet (key min max : Bytes) : Call L :=
  rangeView.call key min.length fun _ => rangeView.onMap now (.entries (-1) []) fun map =>
    (map, .entries 0 (L.range.rangeLookupApproximate map min (max.take min.length)))

def rangeMapMin (key : Bytes) (fieldSize : Nat) : Call L :=
  rangeView.call key fieldSize fun _ => rangeView.onMap now (.entry none) fun map => (map, .entry (L.range.entries map).head?)

def rangeMapSet (key field val : Bytes) (expireSecs : Int) : Call L :=
  rangeView.call key field.length fun actual => rangeView.doSet now actual field val expireSecs

def rangeMapPop (key : Bytes) (fieldSize : Nat) : Call L :=
  rangeView.call key fieldSize fun _ => rangeView.onMap now (.bool false) fun map =>
    match (L.range.entries map).head? with
    | none => (map, .fault)
    | some e => let (map, done) := L.range.remove map e.1; (map, .bool done)

def rangeMapDel (key field : Bytes) : Call L := rangeView.call key field.length fun _ => rangeView.doDel now field

def rangeMapSize (key : Bytes) (fieldSize : Nat) : Call L :=
  rangeView.call key fieldSize fun _ => rangeView.doCount now L.range.size

def rangeMapCapacity (key : Bytes) (fieldSize : Nat) : Call L :=
  rangeView.call key fieldSize fun _ => rangeView.doCount now L.range.capacity

def rangeMapSizeInBytes (key : Bytes) (fieldSize : Nat) : Call L :=
  rangeView.call key fieldSize fun _ => rangeView.doCount now L.range.sizeInBytes

def rangeMapRemainingBytes (key : Bytes) (fieldSize : Nat) : Call L :=
  rangeView.call key fieldSize fun _ => rangeView.doCount now L.range.remainingBytes

def rangeMapWastedBytes (key : Bytes) (fieldSize : Nat) : Call L :=
  rangeView.call key fieldSize fun _ => rangeView.doCount now L.range.wastedBytes

def rangeMapCompact (key : Bytes) (fieldSize : Nat) : Call L := rangeView.call key fieldSize fun _ => rangeView.doCompact now

def rangeMapGetAll (key : Bytes) (fieldSize : Nat) : Call L := rangeView.call key fieldSize fun _ => rangeView.doGetAll now

def hashMapCompact (key : Bytes) (fieldSize : Nat) : Call L := hashView.call key fieldSize fun _ => hashView.doCompact now

def hashMapSizeInBytes (key : Bytes) (fieldSize : Nat) : Call L :=
  hashView.call key fieldSize fun _ => hashView.doCount now L.hash.sizeInBytes

def hashMapSet (key field val : Bytes) (expireSecs : Int) : Call L :=
  hashView.call key field.length fun actual => hashView.doSet now actual field val expireSecs

def hashMapGet (key field : Bytes) : Call L := hashView.call key field.length fun _ => hashView.doGet now field

def hashMapSize (key : Bytes) (fieldSize : Nat) : Call L := hashView.call key fieldSize fun _ => hashView.doCount now L.hash.size

def hashMapDel (key field : Bytes) : Call L := hashView.call key field.length fun _ => hashView.doDel now field

def hashMapGetAll (key : Bytes) (fieldSize : Nat) : Call L := hashView.call key fieldSize fun _ => hashView.doGetAll now

end ECacheImpl

inductive Op where
  | set (key value : Bytes) (expireSecs : Int)
  | get (key : Bytes)
  | del (key : Bytes) (type : CacheKeyType) (fieldSize : Nat)
  | existsKey (key : Bytes) (type : CacheKeyType) (fieldSize : Nat)
  | expire (key : Bytes) (secs : UInt32) (type : CacheKeyType) (fieldSize : Nat)
  | expireAt (key : Bytes) (secs : UInt32) (type : CacheKeyType) (fieldSize : Nat)
  | rangeMapGet (key field : Bytes)
  | rangeMapRangeGet (key min max : Bytes)
  | rangeMapMin (key : Bytes) (fieldSize : Nat)
  | rangeMapSet (key field val : Bytes) (expireSecs : Int)
  | rangeMapPop (key : Bytes) (fieldSize : Nat)
  | rangeMapDel (key field : Bytes)
  | rangeMapSize (key : Bytes) (fieldSize : Nat)
  | rangeMapCapacity (key : Bytes) (fieldSize : Nat)
  | rangeMapSizeInBytes (key : Bytes) (fieldSize : Nat)
  | rangeMapRemainingBytes (key : Bytes) (fieldSize : Nat)
  | rangeMapWastedBytes (key : Bytes) (fieldSize : Nat)
  | rangeMapCompact (key : Bytes) (fieldSize : Nat)
  | rangeMapGetAll (key : Bytes) (fieldSize : Nat)
  | hashMapCompact (key : Bytes) (fieldSize : Nat)
  | hashMapSizeInBytes (key : Bytes) (fieldSize : Nat)
  | hashMapSet (key field val : Bytes) (expireSecs : Int)
  | hashMapGet (key field : Bytes)
  | hashMapSize (key : Bytes) (fieldSize : Nat)
  | hashMapDel (key field : Bytes)
  | hashMapGetAll (key : Bytes) (fieldSize : Nat)

def Op.call (now : UInt32) : Op → Call L
  | set key value secs => ECacheImpl.set now key value secs
  | get key => ECacheImpl.get now key
  | del key type size => ECacheImpl.del key type size
  | existsKey key type size => ECacheImpl.existsKey now key type size
  | expire key secs type size => ECacheImpl.expire now key secs type size
  | expireAt key secs type size => ECacheImpl.expireAt now key secs type size
  | rangeMapGet key field => ECacheImpl.rangeMapGet now key field
  | rangeMapRangeGet key min max => ECacheImpl.rangeMapRangeGet now key min max
  | rangeMapMin key size => ECacheImpl.rangeMapMin now key size
  | rangeMapSet key field val secs => ECacheImpl.rangeMapSet now key field val secs
  | rangeMapPop key size => ECacheImpl.rangeMapPop now key size
  | rangeMapDel key field => ECacheImpl.rangeMapDel now key field
  | rangeMapSize key size => ECacheImpl.rangeMapSize now key size
  | rangeMapCapacity key size => ECacheImpl.rangeMapCapacity now key size
  | rangeMapSizeInBytes key size => ECacheImpl.rangeMapSizeInBytes now key size
  | rangeMapRemainingBytes key size => ECacheImpl.rangeMapRemainingBytes now key size
  | rangeMapWastedBytes key size => ECacheImpl.rangeMapWastedBytes now key size
  | rangeMapCompact key size => ECacheImpl.rangeMapCompact now key size
  | rangeMapGetAll key size => ECacheImpl.rangeMapGetAll now key size
  | hashMapCompact key size => ECacheImpl.hashMapCompact now key size
  | hashMapSizeInBytes key size => ECacheImpl.hashMapSizeInBytes now key size
  | hashMapSet key field val secs => ECacheImpl.hashMapSet now key field val secs
  | hashMapGet key field => ECacheImpl.hashMapGet now key field
  | hashMapSize key size => ECacheImpl.hashMapSize now key size
  | hashMapDel key field => ECacheImpl.hashMapDel now key field
  | hashMapGetAll key size => ECacheImpl.hashMapGetAll now key size

end Myctk.Ecache
