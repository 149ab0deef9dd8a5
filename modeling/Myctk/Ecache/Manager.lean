import Myctk.Ecache.Cache
import Myctk.Lib.Stdio

/-! A cache manager (`ecache/ecache_manager.cpp`): one cache of CacheLib with pools, each of them reached by its name. -/

namespace Myctk.Ecache
open List Lib ECacheConfig
open Lib.Assoc

structure Allocator (L : CacheLib) where
  size : Int
  pools : List ECacheConfig
  items : Items L

def Allocator.addPool {L : CacheLib} (a : Allocator L) (c : ECacheConfig) : Option (UInt8 × Allocator L) :=
  if a.pools.length < 64 ∧ c.name ∉ a.pools.map ECacheConfig.name ∧ L.room a.size (a.pools.map ECacheConfig.size) c.size then
    some (UInt8.ofNat a.pools.length, { a with pools := a.pools ++ [c] })
  else none

structure Manager (L : CacheLib) where
  config : ECacheManagerConfig
  poolConfigs : List ECacheConfig
  cache : Option (Allocator L)
  poolIdMapping : List (String × UInt8)

namespace Manager

variable {L : CacheLib}

def new : Manager L := ⟨⟨"", .unknown, 0, 0, 0, false, 0, 0⟩, [], none, []⟩

/-- What `Init` sets where the configuration leaves it out. -/
def withDefaults (config : ECacheManagerConfig) : ECacheManagerConfig :=
  { config with
    size := (if config.size ≤ 0 then 1024 * 1024 * 1024 else config.size) + 4 * 1024 * 1024
    bucketsPower := if config.bucketsPower = 0 then 25 else config.bucketsPower
    locksPower := if config.locksPower = 0 then 10 else config.locksPower
    name := if config.name = "" then "ECache" else config.name }

def init (m : Manager L) (config : ECacheManagerConfig) : Manager L × Option Int :=
  let config := withDefaults config
  if config.type = .unknown then (m, some (-1))
  else if L.creates config then ({ m with config, cache := some ⟨config.size, [], []⟩ }, some 0)
  else (m, none)

def newCache (m : Manager L) (c : ECacheConfig) : Manager L × Option UInt8 :=
  match m.cache.bind (·.addPool c) with
  | none => (m, none)
  | some (id, cache) =>
    ({ m with cache := some cache, poolIdMapping := alter c.name (fun _ => id) m.poolIdMapping,
              poolConfigs := m.poolConfigs ++ [c] }, some id)

def getCache (m : Manager L) (name : String) : Option UInt8 := get name m.poolIdMapping

def items (m : Manager L) : Items L := (m.cache.map (·.items)).getD []

def withItems (m : Manager L) (items : Items L) : Manager L := { m with cache := m.cache.map fun a => { a with items } }

/-- A call through the pool of a name. -/
def call (m : Manager L) (name : String) (now : UInt32) (op : Op) : Manager L × Option Reply :=
  match m.getCache name with
  | none => (m, none)
  | some pool =>
    let (items, reply) := (op.call now).run pool m.items
    (m.withItems items, some reply)

inductive Event where
  | newCache (c : ECacheConfig)
  | call (name : String) (now : UInt32) (op : Op)
  | evict (actual : Bytes)

def apply (m : Manager L) : Event → Manager L
  | .newCache c => (m.newCache c).1
  | .call name now op => (m.call name now op).1
  | .evict actual => m.withItems (set actual none m.items)

def run (m : Manager L) (events : List Event) : Manager L := events.foldl apply m

lemma run_append (m : Manager L) (before after : List Event) : m.run (before ++ after) = (m.run before).run after :=
  foldl_append

lemma run_cons (m : Manager L) (e : Event) (events : List Event) : m.run (e :: events) = (m.apply e).run events := rfl

def numbered (pools : List ECacheConfig) : List (String × UInt8) := pools.zipIdx.map fun e => (e.1.name, UInt8.ofNat e.2)

lemma fst_numbered (pools : List ECacheConfig) : (numbered pools).map Prod.fst = pools.map name := by
  rw [numbered, map_map, ← zipIdx_map_fst 0 pools, map_map, zipIdx_map_fst]
  rfl

lemma numbered_concat (pools : List ECacheConfig) (c : ECacheConfig) :
    numbered (pools ++ [c]) = numbered pools ++ [(c.name, UInt8.ofNat pools.length)] := by
  simp [numbered, zipIdx_append]

/-- The pools are those of CacheLib, by their numbers. -/
structure Sound (m : Manager L) : Prop where
  created : ∃ a, m.cache = some a ∧ a.pools = m.poolConfigs
  known : m.config.type ≠ .unknown
  few : m.poolConfigs.length ≤ 64
  distinct : (m.poolConfigs.map name).Nodup
  mapping : m.poolIdMapping = numbered m.poolConfigs

variable {m : Manager L} {name : String} {id : UInt8}

lemma sound_init {config : ECacheManagerConfig} (started : new.init config = (m, some 0)) :
    m.Sound ∧ m.poolConfigs = [] ∧ m.items = [] := by
  rw [init] at started
  split at started
  case isTrue => cases started
  case isFalse known =>
    split at started
    case isTrue =>
      cases started
      exact ⟨⟨⟨_, rfl, rfl⟩, known, Nat.zero_le _, nodup_nil, rfl⟩, rfl, rfl⟩
    case isFalse => cases started

section
variable (sound : m.Sound)
include sound

lemma Sound.newCache_cases (c : ECacheConfig) :
    (m.newCache c).1 = m ∨ ∃ a, m.cache = some a ∧ m.poolConfigs.length < 64 ∧ c.name ∉ m.poolConfigs.map ECacheConfig.name ∧
      L.room a.size (m.poolConfigs.map size) c.size ∧ (m.newCache c).1 = { m with
        cache := some { a with pools := a.pools ++ [c] }
        poolIdMapping := m.poolIdMapping ++ [(c.name, UInt8.ofNat m.poolConfigs.length)]
        poolConfigs := m.poolConfigs ++ [c] } := by
  obtain ⟨a, cache, pools⟩ := sound.created
  rw [newCache, cache, Option.bind_some, Allocator.addPool]
  split
  case h_1 => exact .inl rfl
  case h_2 id cache' added =>
    split at added
    case isFalse => cases added
    case isTrue room =>
      cases added
      rw [pools] at room ⊢
      refine .inr ⟨a, rfl, room.1, room.2.1, room.2.2, ?_⟩
      have absent : c.name ∉ m.poolIdMapping.map Prod.fst := by
        rw [sound.mapping, fst_numbered]
        exact room.2.1
      rw [alter_of_absent absent, pools]

lemma Sound.newCache (c : ECacheConfig) : (m.newCache c).1.Sound := by
  rcases sound.newCache_cases c with same | ⟨a, cache, few, fresh, -, same⟩
  · rw [same]
    exact sound
  · obtain ⟨a', cache', pools⟩ := sound.created
    obtain rfl := Option.some.inj (cache.symm.trans cache')
    rw [same]
    refine ⟨⟨_, rfl, by rw [pools]⟩, sound.known, ?_, ?_, ?_⟩
    · show (m.poolConfigs ++ [c]).length ≤ 64
      rw [length_append]
      exact few
    · show ((m.poolConfigs ++ [c]).map name).Nodup
      rw [map_append]
      exact nodup_append.mpr ⟨sound.distinct, nodup_singleton _, fun name member other here same =>
        fresh (mem_singleton.mp here ▸ same ▸ member)⟩
    · show m.poolIdMapping ++ _ = numbered (m.poolConfigs ++ [c])
      rw [numbered_concat, sound.mapping]

lemma Sound.withItems (items : Items L) : (m.withItems items).Sound := by
  obtain ⟨⟨a, cache, pools⟩, known, few, distinct, mapping⟩ := sound
  exact ⟨⟨{ a with items }, by rw [Manager.withItems, cache]; rfl, pools⟩, known, few, distinct, mapping⟩

lemma items_withItems (items : Items L) : (m.withItems items).items = items := by
  obtain ⟨a, cache, -⟩ := sound.created
  rw [withItems, Manager.items, cache]
  rfl

lemma withItems_items : m.withItems m.items = m := by
  obtain ⟨a, cache, -⟩ := sound.created
  rw [withItems, Manager.items, cache]
  show { m with cache := some a } = m
  rw [← cache]

lemma items_newCache (c : ECacheConfig) : (m.newCache c).1.items = m.items := by
  rcases sound.newCache_cases c with same | ⟨a, cache, -, -, -, same⟩
  · rw [same]
  · rw [same, Manager.items, Manager.items, cache]
    rfl

lemma call_cases (name : String) (now : UInt32) (op : Op) : (m.call name now op).1 = m ∨ ∃ pool actual, m.getCache name = some pool ∧
      getActualKey pool (op.call now : Call L).type (op.call now : Call L).key (op.call now : Call L).fieldSize = some actual ∧
      (m.call name now op).1 = m.withItems (set actual ((op.call now : Call L).act actual (get actual m.items)).1 m.items) := by
  rw [call]
  cases found : m.getCache name with
  | none => exact .inl rfl
  | some pool =>
    dsimp only
    rw [Call.run]
    cases made : getActualKey pool (op.call now : Call L).type (op.call now : Call L).key (op.call now : Call L).fieldSize with
    | none => exact .inl (withItems_items sound)
    | some actual => exact .inr ⟨pool, actual, rfl, made, rfl⟩

lemma Sound.apply (e : Event) : (m.apply e).Sound := by
  cases e with
  | newCache c => exact sound.newCache c
  | call name now op =>
    rcases call_cases sound name now op with same | ⟨pool, actual, -, -, same⟩
    · rw [Manager.apply, same]
      exact sound
    · rw [Manager.apply, same]
      exact sound.withItems _
  | evict actual => exact sound.withItems _

lemma Sound.run (events : List Event) : (m.run events).Sound := by
  induction events generalizing m with
  | nil => exact sound
  | cons e events ih => exact ih (sound.apply e)

lemma Sound.getCache_injective {name' : String}
    (found : m.getCache name = some id) (found' : m.getCache name' = some id) : name = name' := by
  have place : ∀ {name}, m.getCache name = some id → m.poolConfigs[id.toNat]?.map ECacheConfig.name = some name := by
    intro name found
    have member := mem_of_get found
    rw [sound.mapping, numbered, mem_map] at member
    obtain ⟨⟨c, i⟩, there, same⟩ := member
    cases same
    have here : m.poolConfigs[i]? = some c := mem_zipIdx_iff_getElem?.mp there
    have small : i < 256 := by
      have lt := (List.getElem?_eq_some_iff.mp here).1
      have few := sound.few
      omega
    have index : (UInt8.ofNat i).toNat = i := Nat.mod_eq_of_lt small
    rw [index, here]
    rfl
  exact Option.some.inj ((place found).symm.trans (place found'))

lemma Sound.getCache_newCache (found : m.getCache name = some id) (c : ECacheConfig) : (m.newCache c).1.getCache name = some id := by
  have distinct := (sound.newCache c).distinct
  have mapping := (sound.newCache c).mapping
  rcases sound.newCache_cases c with same | ⟨a, -, -, -, -, same⟩
  · rw [same]
    exact found
  · refine get_of_mem ?_ ?_
    · rw [mapping, fst_numbered]
      exact distinct
    · rw [same]
      exact mem_append_left _ (mem_of_get found)

lemma Sound.getCache_run (found : m.getCache name = some id) (events : List Event) : (m.run events).getCache name = some id := by
  induction events generalizing m with
  | nil => exact found
  | cons e events ih =>
    refine ih (sound.apply e) ?_
    cases e with
    | newCache c => exact sound.getCache_newCache found c
    | call name' now op =>
      rcases call_cases sound name' now op with same | ⟨pool, actual, -, -, same⟩
      · rw [Manager.apply, same]
        exact found
      · rw [Manager.apply, same]
        exact found
    | evict actual => exact found

end

end Manager

/-! Files of a cache (`ecache/ecache_manager.cpp`, `ecache/ecache_common.cpp`).

    What is written to a file is a list of bytes, or nothing where `Save` does not return 0. -/

open Lib.Stream Stdio

structure ECacheBackupHeader where
  version : Int32
  config : ECacheManagerConfig
  pools : List ECacheConfig

inductive LoadFailure where
  | eof
  | code (rc : Int)
  | thrown

abbrev FileReader := Reader LoadFailure

def fread (size : Nat) : FileReader Bytes := Stdio.fread .eof (.code (-1)) size

def fileWriteUint32 (n : Nat) : Option Bytes := writeUint32 n

def fileReadUint32 : FileReader Nat := readUint32 .eof (.code (-1))

def fileWriteString (s : Bytes) : Option Bytes := writeString s

def fileReadString : FileReader Bytes := readString .eof (.code (-1))

variable {L : CacheLib}

def kindOf : Bytes → CacheKeyType
  | _ :: 1 :: _ => .string
  | _ :: 2 :: _ => .rangeMap
  | _ :: 3 :: _ => .hashMap
  | _ => .invalid

def poolOf (actual : Bytes) : Nat := (actual.headD 0).toNat

def fieldSizeOf (actual : Bytes) : Nat := leNat ((actual.drop 2).take 2)

namespace MapView

variable (V : MapView L)

def saveEntry (e : Bytes × Bytes) : Option Bytes := andThen (fwrite e.1) (fileWriteString e.2)

def save (size : Nat) (map : V.lib.Map) : Option Bytes :=
  if ValidSize size then andThen (fileWriteUint32 (V.lib.size map)) (each saveEntry (V.lib.entries map)) else none

def loadEntry (size : Nat) : FileReader (Bytes × Bytes) := do
  let field ← fread size
  let value ← fileReadString
  return (field, value)

def loadEntries (size : Nat) : Nat → V.lib.Map → FileReader V.lib.Map
  | 0, map => pure map
  | n + 1, map => do
    let e ← loadEntry size
    match V.lib.insert map e.1 e.2 with
    | none => throw .thrown
    | some map => loadEntries size n map

def load (pools : Nat) (actual : Bytes) (size : Nat) : FileReader (Content L) :=
  if ValidSize size ∧ poolOf actual < pools ∧ L.allocatesMap actual then do
    let n ← fileReadUint32
    return V.wrap (← V.loadEntries size n V.lib.create)
  else throw .thrown

end MapView

def saveContent (actual : Bytes) (content : Content L) : Option Bytes :=
  match kindOf actual, content with
  | .string, .string value => fileWriteString value
  | .rangeMap, .rangeMap map => rangeView.save (fieldSizeOf actual) map
  | .hashMap, .hashMap map => hashView.save (fieldSizeOf actual) map
  | _, _ => none

def saveItem (e : Bytes × Item L) : Option Bytes :=
  andThen (fileWriteString e.1)
    (andThen (fwrite [if 0 < e.2.expiryTime then 1 else 0])
      (andThen (if 0 < e.2.expiryTime then fwrite (leBytes 4 e.2.expiryTime.toNat) else some [])
        (saveContent e.1 e.2.content)))

def iterate (items : Items L) : Items L :=
  (L.order (items.map Prod.fst)).filterMap fun actual => (get actual items).map fun item => (actual, item)

def saveCache (items : Items L) : Option Bytes := each saveItem (iterate items)

def loadExpiryTime : FileReader UInt32 := do
  let flag ← fread 1
  if flag = [0] then return 0
  return UInt32.ofNat (leNat (← fread 4))

def loadContent (pools : Nat) (actual : Bytes) : FileReader (Content L) :=
  match kindOf actual with
  | .string => do
    let value ← fileReadString
    if poolOf actual < pools ∧ L.allocates actual value.length then return .string value else throw .thrown
  | .rangeMap => rangeView.load pools actual (fieldSizeOf actual)
  | .hashMap => hashView.load pools actual (fieldSizeOf actual)
  | .invalid => throw (.code (-1))

def storeLoaded (items : Items L) (actual : Bytes) (item : Item L) : Items L :=
  match item.content with
  | .string _ => if (get actual items).isSome then items else set actual (some item) items
  | _ => set actual (some item) items

def nextKey : FileReader (Option Bytes) :=
  tryCatch (do return some (← fileReadString)) fun
    | .eof => pure none
    | other => throw other

def loadItems (pools : Nat) : Nat → Items L → FileReader (Items L)
  | 0, _ => throw (.code (-1))
  | passes + 1, items => do
    match ← nextKey with
    | none => return items
    | some actual =>
      let expiryTime ← loadExpiryTime
      let content ← loadContent pools actual
      loadItems pools passes (storeLoaded items actual ⟨content, expiryTime⟩)

def loadCache (pools : Nat) (items : Items L) (file : Bytes) : Option (Items L) :=
  match (loadItems pools (file.length + 1) items).run file with
  | (.ok items, _) => some items
  | (.error _, _) => none

namespace Manager

variable (F : Codec ECacheBackupHeader)

def pools (m : Manager L) : Nat := ((m.cache.map (·.pools)).getD []).length

def header (m : Manager L) : ECacheBackupHeader := ⟨1, m.config, m.poolConfigs⟩

def save (m : Manager L) : Option Bytes :=
  if m.config.type = .unknown then none else andThen (fileWriteString (F.encode m.header)) (saveCache m.items)

def reopen (m : Manager L) (pools : List ECacheConfig) : Manager L :=
  pools.foldl (fun m c => (m.newCache c).1) { m with poolIdMapping := [] }

def load (m : Manager L) (file : Bytes) : Option (Manager L) :=
  match fileReadString.run file with
  | (.error _, _) => none
  | (.ok bin, rest) => do
    let header ← F.decode bin
    match m.init header.config with
    | (m, some 0) =>
      let m := m.reopen header.pools
      return m.withItems (← loadCache m.pools m.items rest)
    | _ => none

end Manager

end Myctk.Ecache
