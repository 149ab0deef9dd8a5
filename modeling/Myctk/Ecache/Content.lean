import Mathlib.Data.Finmap
import Myctk.Ecache.Manager

/-! What the items of a cache have in them, in every run: a value of the kind and with the field size that the key says. -/

namespace Myctk.Ecache

section
open Option Lib List
open Lib.Assoc

structure MapLib.Lawful (M : MapLib) : Prop where
  find_create : ∀ field, M.find M.create field = none
  find_insertOrReplace : ∀ {map field v map' result}, M.insertOrReplace map field v = some (map', result) →
    ∀ other, M.find map' other = if field = other then some v else M.find map other
  insert : ∀ {held map field v}, M.find held field = some v → M.find map field = none → M.size map < M.size held →
    ∃ map', M.insert map field v = some map' ∧ ∀ other, M.find map' other = if field = other then some v else M.find map other
  find_remove : ∀ map field other, M.find (M.remove map field).1 other = if field = other then none else M.find map other
  find_compact : ∀ map field, M.find (M.compact map) field = M.find map field
  nodup : ∀ map, ((M.entries map).map Prod.fst).Nodup
  mem_entries : ∀ map field v, (field, v) ∈ M.entries map ↔ M.find map field = some v
  size : ∀ map, M.size map = (M.entries map).length
  size_lt : ∀ map, M.size map < 2 ^ 32
  value_lt : ∀ map field v, M.find map field = some v → v.length < 2 ^ 32

structure CacheLib.Lawful (L : CacheLib) : Prop where
  range : L.range.toMapLib.Lawful
  ordered : ∀ map map', (∀ field, L.range.find map field = L.range.find map' field) →
    L.range.entries map = L.range.entries map' ∧
      ∀ min max, L.range.rangeLookupApproximate map min max = L.range.rangeLookupApproximate map' min max
  hash : L.hash.Lawful
  order : ∀ keys, (L.order keys).Perm keys
  allocates : ∀ key size, L.allocates key size → key.length < 2 ^ 32 ∧ size < 2 ^ 32
  allocatesMap : ∀ key, L.allocatesMap key → key.length < 2 ^ 32
  creates : ∀ config, L.creates config → L.creates { config with size := config.size + 4 * 1024 * 1024 }
  room : ∀ cacheSize cacheSize' pools size, cacheSize ≤ cacheSize' → L.room cacheSize pools size → L.room cacheSize' pools size

variable {L : CacheLib}

/-- What a value of a kind may hold under a key. -/
def Fits (type : CacheKeyType) (size : Nat) (actual : Bytes) (content : Content L) : Prop :=
  match content with
  | .string v => type = .string ∧ L.allocates actual v.length
  | .rangeMap map => type = .rangeMap ∧ ValidSize size ∧ L.allocatesMap actual ∧
    ∀ field v, L.range.find map field = some v → field.length = size
  | .hashMap map => type = .hashMap ∧ ValidSize size ∧ L.allocatesMap actual ∧
    ∀ field v, L.hash.find map field = some v → field.length = size

lemma Fits.congr {type type' : CacheKeyType} {size size' : Nat} {actual : Bytes} {content : Content L}
    (fits : Fits type' size' actual content) (kinds : type = type') (sizes : type.IsMap → size = size') :
    Fits type size actual content := by
  subst kinds
  cases content with
  | string v => exact fits
  | rangeMap map =>
    rw [sizes (.inl fits.1)]
    exact fits
  | hashMap map =>
    rw [sizes (.inr fits.1)]
    exact fits

structure MapView.Exact (V : MapView L) : Prop where
  lawful : V.lib.Lawful
  eq_wrap : ∀ {content map}, V.unwrap content = some map → content = V.wrap map
  fits : ∀ {type size actual map}, Fits type size actual (V.wrap map) ↔ type = V.type ∧ ValidSize size ∧ L.allocatesMap actual ∧
    ∀ field v, V.lib.find map field = some v → field.length = size

lemma exact_rangeView (lawful : L.Lawful) : (rangeView : MapView L).Exact where
  lawful := lawful.range
  eq_wrap {content map} found := by
    cases content with
    | rangeMap map' => exact congrArg Content.rangeMap (some.inj found)
    | _ => cases found
  fits := Iff.rfl

lemma exact_hashView (lawful : L.Lawful) : (hashView : MapView L).Exact where
  lawful := lawful.hash
  eq_wrap {content map} found := by
    cases content with
    | hashMap map' => exact congrArg Content.hashMap (some.inj found)
    | _ => cases found
  fits := Iff.rfl

/-- What an action leaves fits. -/
def Keeps (type : CacheKeyType) (size : Nat) (actual : Bytes) (act : Option (Item L) → Option (Item L) × Reply) : Prop :=
  ∀ item, (∀ before, item = some before → Fits type size actual before.content) →
    ∀ after, (act item).1 = some after → Fits type size actual after.content

lemma find_eq_some {now : UInt32} {item : Option (Item L)} {found : Item L} (eq : find now item = some found) : item = some found :=
  (filter_eq_some_iff.mp eq).1

variable {act : Option (Item L) → Option (Item L) × Reply}

lemma keeps_unchanged {type : CacheKeyType} {size : Nat} {actual : Bytes}
    (same : ∀ item, (act item).1 = item) : Keeps type size actual act :=
  fun item before after eq => before after ((same item).symm.trans eq)

lemma keeps_doMapOp {type : CacheKeyType} {size : Nat} {actual : Bytes}
    (keeps : ValidSize size → Keeps type size actual act) : Keeps type size actual (doMapOp size act) := by
  intro item before after eq
  rw [doMapOp] at eq
  split at eq
  case isTrue valid => exact keeps valid item before after eq
  case isFalse => exact before after eq

section
variable {V : MapView L} {now : UInt32} {type : CacheKeyType} {size : Nat} {actual : Bytes}

lemma MapView.Exact.keeps_onMap (exact_ : V.Exact) {absent : Reply} {f : V.lib.Map → V.lib.Map × Reply}
    (fewer : ∀ map field v, V.lib.find (f map).1 field = some v → (V.lib.find map field).isSome) :
    Keeps type size actual (V.onMap now absent f) := by
  intro item before after eq
  rw [MapView.onMap] at eq
  split at eq
  case h_1 => exact before after eq
  case h_2 found live =>
    have fits := before found (find_eq_some live)
    split at eq
    case h_1 => exact before after eq
    case h_2 map inside =>
      cases eq
      rw [exact_.eq_wrap inside] at fits
      obtain ⟨kind, valid, key, sizes⟩ := exact_.fits.mp fits
      refine exact_.fits.mpr ⟨kind, valid, key, fun field v there => ?_⟩
      obtain ⟨w, was⟩ := isSome_iff_exists.mp (fewer map field v there)
      exact sizes field w was

lemma MapView.Exact.keeps_doSet (exact_ : V.Exact) {field val : Bytes} {expireSecs : Int} (valid : ValidSize field.length) :
    Keeps V.type field.length actual (V.doSet now actual field val expireSecs) := by
  -- the fields after the new one is in
  have sizes : ∀ {map map' : V.lib.Map} {result : InsertOrReplaceResult}, V.lib.insertOrReplace map field val = some (map', result) →
      (∀ other v, V.lib.find map other = some v → other.length = field.length) →
      ∀ other v, V.lib.find map' other = some v → other.length = field.length := by
    intro map map' result done before other v there
    rw [exact_.lawful.find_insertOrReplace done] at there
    split at there
    case isTrue same => rw [same]
    case isFalse => exact before other v there
  intro item before after eq
  rw [MapView.doSet] at eq
  split at eq
  case h_1 =>
    split at eq
    case isFalse => exact before after eq
    case isTrue key =>
      split at eq
      case h_1 => exact before after eq
      case h_2 map result done =>
        cases eq
        refine exact_.fits.mpr ⟨rfl, valid, key, sizes done fun other v there => ?_⟩
        rw [exact_.lawful.find_create] at there
        cases there
  case h_2 found live =>
    have fits := before found (find_eq_some live)
    dsimp only at eq
    split at eq
    case h_1 =>
      cases eq
      exact fits
    case h_2 map inside =>
      split at eq
      case h_1 =>
        cases eq
        exact fits
      case h_2 map' result done =>
        cases eq
        rw [exact_.eq_wrap inside] at fits
        obtain ⟨kind, valid, key, before⟩ := exact_.fits.mp fits
        exact exact_.fits.mpr ⟨kind, valid, key, sizes done before⟩

end

section
variable {V : MapView L} {now : UInt32} {size : Nat} {actual : Bytes}

lemma MapView.Exact.keeps_read (exact_ : V.Exact) {key : Bytes} {absent : Reply} {reply : V.lib.Map → Reply} :
    Keeps V.type size actual ((V.call key size fun _ => V.onMap now absent fun map => (map, reply map)).act actual) :=
  keeps_doMapOp fun _ => exact_.keeps_onMap fun _ _ _ there => isSome_of_eq_some there

lemma MapView.Exact.keeps_doDel (exact_ : V.Exact) {field : Bytes} : Keeps V.type size actual (V.doDel now field) := by
  refine exact_.keeps_onMap fun map other v there => ?_
  rw [exact_.lawful.find_remove] at there
  split at there
  case isTrue => cases there
  case isFalse => exact isSome_of_eq_some there

lemma MapView.Exact.keeps_doCompact (exact_ : V.Exact) : Keeps V.type size actual (V.doCompact now) := by
  refine exact_.keeps_onMap fun map field v there => ?_
  rw [exact_.lawful.find_compact] at there
  exact isSome_of_eq_some there

lemma keeps_rangeMapPop (lawful : L.Lawful) {key : Bytes} :
    Keeps .rangeMap size actual ((ECacheImpl.rangeMapPop now key size : Call L).act actual) := by
  refine keeps_doMapOp fun _ => (exact_rangeView lawful).keeps_onMap fun map field v there => ?_
  split at there
  case h_1 => exact isSome_of_eq_some there
  case h_2 first _ =>
    have left : rangeView.lib.find (rangeView.lib.remove map first.1).1 field = some v := there
    rw [(exact_rangeView lawful).lawful.find_remove] at left
    split at left
    case isTrue => cases left
    case isFalse => exact isSome_of_eq_some left

lemma keeps_setExpiryTime {type : CacheKeyType} {expiryTime : UInt32} :
    Keeps type size actual (ECacheImpl.setExpiryTime now expiryTime : Option (Item L) → _) := by
  intro item before after eq
  rw [ECacheImpl.setExpiryTime] at eq
  split at eq
  case h_1 => exact before after eq
  case h_2 found live =>
    cases eq
    exact before found (find_eq_some live)

lemma keeps_set {key value : Bytes} {expireSecs : Int} :
    Keeps .string size actual ((ECacheImpl.set now key value expireSecs : Call L).act actual) := by
  intro item before after eq
  dsimp only [ECacheImpl.set] at eq
  split at eq
  case isTrue takes =>
    cases eq
    exact ⟨rfl, takes⟩
  case isFalse => exact before after eq

lemma Op.keeps (lawful : L.Lawful) (op : Op) (now : UInt32) (actual : Bytes) :
    Keeps (op.call now : Call L).type (op.call now : Call L).fieldSize actual ((op.call now : Call L).act actual) := by
  have range := exact_rangeView lawful
  have hash := exact_hashView lawful
  cases op with
  | set key value secs => exact keeps_set
  | get key => exact keeps_unchanged fun _ => rfl
  | del key type size => exact fun _ _ after eq => (nomatch eq)
  | existsKey key type size => exact keeps_unchanged fun _ => rfl
  | expire key secs type size => exact keeps_setExpiryTime
  | expireAt key secs type size => exact keeps_setExpiryTime
  | rangeMapSet key field val secs => exact keeps_doMapOp fun valid => range.keeps_doSet valid
  | rangeMapDel key field => exact keeps_doMapOp fun _ => range.keeps_doDel
  | rangeMapCompact key size => exact keeps_doMapOp fun _ => range.keeps_doCompact
  | rangeMapPop key size => exact keeps_rangeMapPop lawful
  | hashMapSet key field val secs => exact keeps_doMapOp fun valid => hash.keeps_doSet valid
  | hashMapDel key field => exact keeps_doMapOp fun _ => hash.keeps_doDel
  | hashMapCompact key size => exact keeps_doMapOp fun _ => hash.keeps_doCompact
  | hashMapSizeInBytes key size => exact hash.keeps_read
  | hashMapGet key field => exact hash.keeps_read
  | hashMapSize key size => exact hash.keeps_read
  | hashMapGetAll key size => exact hash.keeps_read
  | _ => exact range.keeps_read

end

namespace Manager

structure Stored (m : Manager L) : Prop where
  nodup : (m.items.map Prod.fst).Nodup
  fits : ∀ actual item, get actual m.items = some item → ∃ pool type key size, pool.toNat < m.poolConfigs.length ∧
    getActualKey pool type key size = some actual ∧ Fits type size actual item.content

variable {m : Manager L}

lemma Sound.getCache_lt (sound : m.Sound) {name : String} {pool : UInt8} (found : m.getCache name = some pool) :
    pool.toNat < m.poolConfigs.length := by
  have member := mem_of_get found
  rw [sound.mapping, numbered, List.mem_map] at member
  obtain ⟨⟨c, i⟩, there, same⟩ := member
  cases same
  have here : m.poolConfigs[i]? = some c := mem_zipIdx_iff_getElem?.mp there
  have lt := (List.getElem?_eq_some_iff.mp here).1
  exact (Nat.mod_le i 256).trans_lt lt

lemma Stored.withItems (sound : m.Sound) (stored : m.Stored) {actual : Bytes} {item : Option (Item L)}
    (fits : ∀ after, item = some after → ∃ pool type key size, pool.toNat < m.poolConfigs.length ∧
      getActualKey pool type key size = some actual ∧ Fits type size actual after.content) :
    (m.withItems (set actual item m.items)).Stored := by
  refine ⟨?_, fun other after found => ?_⟩
  · rw [items_withItems sound]
    exact nodup_set stored.nodup item
  · rw [items_withItems sound, get_set] at found
    split at found
    case isTrue same => exact same ▸ fits after found
    case isFalse => exact stored.fits other after found

lemma Stored.apply (lawful : L.Lawful) (sound : m.Sound) (stored : m.Stored) (e : Event) : (m.apply e).Stored := by
  cases e with
  | newCache c =>
    rw [Manager.apply]
    have items := items_newCache sound c
    refine ⟨by rw [items]; exact stored.nodup, fun actual item found => ?_⟩
    rw [items] at found
    obtain ⟨pool, type, key, size, lt, made, fits⟩ := stored.fits actual item found
    refine ⟨pool, type, key, size, ?_, made, fits⟩
    rcases sound.newCache_cases c with same | ⟨a, -, -, -, -, same⟩
    · rw [same]
      exact lt
    · rw [same]
      exact lt.trans_le (by rw [length_append]; exact Nat.le_add_right _ _)
  | call name now op =>
    rw [Manager.apply]
    rcases call_cases sound name now op with same | ⟨pool, actual, found, made, same⟩
    · rw [same]
      exact stored
    · rw [same]
      refine stored.withItems sound fun after eq => ?_
      refine ⟨pool, _, _, _, sound.getCache_lt found, made, op.keeps lawful now actual _ (fun before there => ?_) after eq⟩
      -- the key says the same as when the item was put
      obtain ⟨pool', type', key', size', -, made', fits⟩ := stored.fits actual before there
      obtain ⟨-, kinds, -, sizes⟩ := getActualKey_injective made made'
      exact fits.congr kinds sizes
  | evict actual =>
    refine stored.withItems sound fun after eq => ?_
    cases eq

lemma Stored.run (lawful : L.Lawful) (sound : m.Sound) (stored : m.Stored) (events : List Event) : (m.run events).Stored := by
  induction events generalizing m with
  | nil => exact stored
  | cons e events ih => exact ih (sound.apply e) (stored.apply lawful sound e)

end Manager

end

/-! A library that does what CacheLib is known to do: its maps are finite maps. -/

section
open Lib Finmap Multiset

def Bounded (m : Finmap fun _ : Bytes => Bytes) : Prop := m.keys.card < 2 ^ 32 ∧ ∀ field v, m.lookup field = some v → v.length < 2 ^ 32

lemma Bounded.insert {m : Finmap fun _ : Bytes => Bytes} (bounded : Bounded m) {field v : Bytes}
    (few : (m.insert field v).keys.card < 2 ^ 32) (short : v.length < 2 ^ 32) : Bounded (m.insert field v) := by
  refine ⟨few, fun other w found => ?_⟩
  rcases eq_or_ne other field with rfl | differ
  · rw [lookup_insert] at found
    cases found
    exact short
  · rw [lookup_insert_of_ne _ differ] at found
    exact bounded.2 other w found

lemma Bounded.erase {m : Finmap fun _ : Bytes => Bytes} (bounded : Bounded m) (field : Bytes) : Bounded (m.erase field) := by
  refine ⟨?_, fun other w found => ?_⟩
  · rw [keys_erase]
    exact (Finset.card_erase_le).trans_lt bounded.1
  · rcases eq_or_ne other field with rfl | differ
    · rw [lookup_erase] at found
      cases found
    · rw [lookup_erase_ne differ] at found
      exact bounded.2 other w found

noncomputable def finiteMaps : RangeMapLib where
  Map := { m : Finmap fun _ : Bytes => Bytes // Bounded m }
  create := ⟨∅, by rw [keys_empty]; decide, fun field v found => by simp at found⟩
  insertOrReplace m field v :=
    if fits : (m.1.insert field v).keys.card < 2 ^ 32 ∧ v.length < 2 ^ 32 then
      some (⟨m.1.insert field v, m.2.insert fits.1 fits.2⟩, if field ∈ m.1 then .replaced else .inserted)
    else none
  insert m field v :=
    if field ∈ m.1 then some m
    else if fits : (m.1.insert field v).keys.card < 2 ^ 32 ∧ v.length < 2 ^ 32 then some ⟨m.1.insert field v, m.2.insert fits.1 fits.2⟩
    else none
  find m field := m.1.lookup field
  remove m field := (⟨m.1.erase field, m.2.erase field⟩, decide (field ∈ m.1))
  entries m := m.1.entries.toList.map fun e => (e.1, e.2)
  size m := m.1.keys.card
  compact m := m
  sizeInBytes m := m.1.keys.card
  rangeLookupApproximate m min max := (m.1.entries.toList.map fun e => (e.1, e.2)).filter fun e => min ≤ e.1 ∧ e.1 ≤ max
  capacity m := m.1.keys.card
  remainingBytes _ := 0
  wastedBytes _ := 0

lemma keys_insert (m : Finmap fun _ : Bytes => Bytes) (field v : Bytes) : (m.insert field v).keys = insert field m.keys := by
  refine Finset.ext fun other => ?_
  rw [mem_keys, mem_insert, Finset.mem_insert, mem_keys]

lemma mem_entries_finiteMaps (m : finiteMaps.Map) (field v : Bytes) :
    (field, v) ∈ finiteMaps.entries m ↔ finiteMaps.find m field = some v := by
  show (field, v) ∈ m.1.entries.toList.map (fun e => (e.1, e.2)) ↔ v ∈ m.1.lookup field
  rw [mem_lookup_iff, List.mem_map]
  refine ⟨fun ⟨e, there, same⟩ => ?_, fun there => ⟨⟨field, v⟩, mem_toList.mpr there, rfl⟩⟩
  cases same
  exact mem_toList.mp there

lemma lookup_insert_eq (m : Finmap fun _ : Bytes => Bytes) (field v other : Bytes) :
    (m.insert field v).lookup other = if field = other then some v else m.lookup other := by
  split
  case isTrue same =>
    subst same
    exact lookup_insert m
  case isFalse differ => exact lookup_insert_of_ne m (Ne.symm differ)

lemma lawful_finiteMaps : finiteMaps.toMapLib.Lawful where
  find_create field := by
    show (∅ : Finmap fun _ : Bytes => Bytes).lookup field = none
    exact lookup_empty field
  find_insertOrReplace {map field v map' result} done other := by
    change (if fits : (map.1.insert field v).keys.card < 2 ^ 32 ∧ v.length < 2 ^ 32 then _ else none) = _ at done
    split at done
    case isTrue =>
      cases done
      exact lookup_insert_eq map.1 field v other
    case isFalse => cases done
  insert {held map field v} found new larger := by
    have fresh : field ∉ map.1 := lookup_eq_none.mp new
    have fits : (map.1.insert field v).keys.card < 2 ^ 32 ∧ v.length < 2 ^ 32 := by
      refine ⟨?_, held.2.2 field v found⟩
      rw [keys_insert]
      exact (Finset.card_insert_le _ _).trans_lt ((Nat.succ_le_of_lt larger).trans_lt held.2.1)
    refine ⟨⟨map.1.insert field v, map.2.insert fits.1 fits.2⟩, ?_, lookup_insert_eq map.1 field v⟩
    show (if field ∈ map.1 then some map else if fits : _ ∧ _ then some _ else none) = _
    rw [if_neg fresh, dif_pos fits]
  find_remove map field other := by
    split
    case isTrue same =>
      subst same
      exact lookup_erase field map.1
    case isFalse differ => exact lookup_erase_ne (Ne.symm differ)
  find_compact _ _ := rfl
  nodup map := by
    show ((map.1.entries.toList.map fun e => (e.1, e.2)).map Prod.fst).Nodup
    rw [List.map_map, ← coe_nodup, ← map_coe, coe_toList]
    exact map.1.nodupKeys.nodup_keys
  mem_entries := mem_entries_finiteMaps
  size map := by
    show map.1.keys.card = (map.1.entries.toList.map fun e => (e.1, e.2)).length
    rw [List.length_map, length_toList]
    exact card_map _ _
  size_lt map := map.2.1
  value_lt map := map.2.2

noncomputable def sampleLib : CacheLib where
  range := finiteMaps
  hash := finiteMaps.toMapLib
  order keys := keys
  expired now expiryTime := 0 < expiryTime && expiryTime < now
  allocates key size := key.length ≤ 255 && size < 4 * 1024 * 1024
  allocatesMap key := key.length ≤ 255
  creates _ := true
  room cacheSize pools size := pools.sum + size ≤ cacheSize

def sampleConfig : ECacheManagerConfig := ⟨"", .lru, 0, 0, 0, false, 0, 0⟩

lemma started_sample : (Manager.new.init sampleConfig : Manager sampleLib × Option Int) =
    (⟨Manager.withDefaults sampleConfig, [], some ⟨(Manager.withDefaults sampleConfig).size, [], []⟩, []⟩, some 0) := rfl

lemma lawful_sampleLib : sampleLib.Lawful where
  range := lawful_finiteMaps
  ordered map map' same := by
    obtain rfl : map = map' := Subtype.ext (ext_lookup same)
    exact ⟨rfl, fun _ _ => rfl⟩
  hash := lawful_finiteMaps
  order _ := .refl _
  allocates key size takes := by
    have both := Bool.and_eq_true_iff.mp takes
    have short := of_decide_eq_true both.1
    have small := of_decide_eq_true both.2
    exact ⟨by omega, by omega⟩
  allocatesMap key takes := by
    have short := of_decide_eq_true takes
    omega
  creates _ _ := rfl
  room cacheSize cacheSize' pools size le room := by
    have enough := of_decide_eq_true room
    exact decide_eq_true (by omega)

end

/-! Values are apart (`ecache/ecache_impl.hpp`): a call changes nothing that a call of another pool, kind, field size or key can
    see. -/

section
open Lib.Assoc Option Lib Manager Allocator Call
open Lib.Assoc

structure Target where
  type : CacheKeyType
  fieldSize : Nat
  key : Bytes
  deriving DecidableEq

def Target.of (type : CacheKeyType) (key : Bytes) (fieldSize : Nat) : Target :=
  match type with
  | .invalid => ⟨.invalid, 0, []⟩
  | .string => ⟨.string, 0, key⟩
  | .rangeMap => ⟨.rangeMap, fieldSize, key⟩
  | .hashMap => ⟨.hashMap, fieldSize, key⟩

def Op.target : Op → Target
  | set key _ _ | get key => ⟨.string, 0, key⟩
  | del key type size | existsKey key type size | expire key _ type size | expireAt key _ type size => .of type key size
  | rangeMapGet key field | rangeMapSet key field _ _ | rangeMapDel key field => ⟨.rangeMap, field.length, key⟩
  | rangeMapRangeGet key min _ => ⟨.rangeMap, min.length, key⟩
  | rangeMapMin key size | rangeMapPop key size | rangeMapSize key size | rangeMapCapacity key size | rangeMapSizeInBytes key size
  | rangeMapRemainingBytes key size | rangeMapWastedBytes key size | rangeMapCompact key size | rangeMapGetAll key size =>
    ⟨.rangeMap, size, key⟩
  | hashMapGet key field | hashMapSet key field _ _ | hashMapDel key field => ⟨.hashMap, field.length, key⟩
  | hashMapCompact key size | hashMapSizeInBytes key size | hashMapSize key size | hashMapGetAll key size => ⟨.hashMap, size, key⟩

variable {L : CacheLib}

lemma Op.target_call (op : Op) (now : UInt32) :
    Target.of (op.call now : Call L).type (op.call now : Call L).key (op.call now : Call L).fieldSize = op.target := by
  cases op <;> rfl

lemma getActualKey_apart {pool pool' : UInt8} {type type' : CacheKeyType} {key key' actual : Bytes} {size size' : Nat}
    (made : getActualKey pool type key size = some actual) (made' : getActualKey pool' type' key' size' = some actual) :
    pool = pool' ∧ Target.of type key size = Target.of type' key' size' := by
  obtain ⟨pools, rfl, keys, sizes⟩ := getActualKey_injective made made'
  refine ⟨pools, ?_⟩
  cases type with
  | invalid => rfl
  | string => rw [keys (by decide)]; rfl
  | rangeMap => rw [keys (by decide), sizes (.inl rfl)]
  | hashMap => rw [keys (by decide), sizes (.inr rfl)]

lemma Call.get_run (call : Call L) (pool : UInt8) (items : Items L) {actual : Bytes}
    (other : getActualKey pool call.type call.key call.fieldSize ≠ some actual) :
    get actual (call.run pool items).1 = get actual items := by
  rw [run]
  split
  case h_1 => rfl
  case h_2 made =>
    rw [get_set, if_neg fun same => other (made.trans (congrArg some same))]

lemma Call.run_congr (call : Call L) (pool : UInt8) {items items' : Items L}
    (same : ∀ actual, getActualKey pool call.type call.key call.fieldSize = some actual → get actual items = get actual items') :
    (call.run pool items).2 = (call.run pool items').2 ∧ ∀ actual, getActualKey pool call.type call.key call.fieldSize = some actual →
        get actual (call.run pool items).1 = get actual (call.run pool items').1 := by
  rw [run, run]
  split
  case h_1 none =>
    refine ⟨rfl, fun actual made => ?_⟩
    cases none.symm.trans made
  case h_2 actual made =>
    rw [same actual made]
    refine ⟨rfl, fun actual' made' => ?_⟩
    obtain rfl := some.inj (made.symm.trans made')
    rw [get_set, get_set, if_pos rfl, if_pos rfl]

namespace Manager

/-- Managers that differ only in the item of one key. -/
structure AgreeOff (hidden : Bytes) (m m' : Manager L) : Prop where
  sound : m.Sound
  sound' : m'.Sound
  pools : m.poolConfigs = m'.poolConfigs
  size : m.cache.map size = m'.cache.map size
  items : ∀ actual ≠ hidden, get actual m.items = get actual m'.items

variable {m m' : Manager L} {hidden : Bytes}

section
variable (agree : AgreeOff hidden m m')
include agree

lemma AgreeOff.getCache (name : String) : m.getCache name = m'.getCache name := by
  rw [Manager.getCache, Manager.getCache, agree.sound.mapping, agree.sound'.mapping, agree.pools]

lemma AgreeOff.withItems {items items' : Items L} (same : ∀ actual ≠ hidden, get actual items = get actual items') :
    AgreeOff hidden (m.withItems items) (m'.withItems items') := by
  refine ⟨agree.sound.withItems _, agree.sound'.withItems _, agree.pools, ?_, fun actual other => ?_⟩
  · have size := agree.size
    rw [Manager.withItems, Manager.withItems, map_map, map_map]
    exact size
  · rw [items_withItems agree.sound, items_withItems agree.sound']
    exact same actual other

lemma AgreeOff.newCache (c : ECacheConfig) : AgreeOff hidden (m.newCache c).1 (m'.newCache c).1 := by
  obtain ⟨⟨size, pools, items⟩, cache, samePools⟩ := agree.sound.created
  obtain ⟨⟨size', pools', items'⟩, cache', samePools'⟩ := agree.sound'.created
  have sizes := agree.size
  rw [cache, cache'] at sizes
  obtain rfl : size = size' := some.inj sizes
  obtain rfl : pools = pools' := samePools.trans (agree.pools.trans samePools'.symm)
  have both : (m.newCache c).1.poolConfigs = (m'.newCache c).1.poolConfigs ∧
      (m.newCache c).1.cache.map Allocator.size = (m'.newCache c).1.cache.map Allocator.size := by
    rw [Manager.newCache, Manager.newCache, cache, cache', bind_some, bind_some, addPool, addPool]
    by_cases room : pools.length < 64 ∧ c.name ∉ pools.map ECacheConfig.name ∧ L.room size (pools.map ECacheConfig.size) c.size
    · rw [if_pos room, if_pos room]
      exact ⟨congrArg (· ++ [c]) agree.pools, rfl⟩
    · rw [if_neg room, if_neg room]
      exact ⟨agree.pools, agree.size⟩
  refine ⟨agree.sound.newCache c, agree.sound'.newCache c, both.1, both.2, fun actual other => ?_⟩
  rw [items_newCache agree.sound, items_newCache agree.sound']
  exact agree.items actual other

lemma AgreeOff.call (name : String) (now : UInt32) (op : Op) : AgreeOff hidden (m.call name now op).1 (m'.call name now op).1 := by
  rw [Manager.call, Manager.call, ← agree.getCache]
  cases m.getCache name with
  | none => exact agree
  | some pool =>
    refine agree.withItems fun actual other => ?_
    by_cases mine : getActualKey pool (op.call now : Call L).type (op.call now : Call L).key (op.call now : Call L).fieldSize = some actual
    · refine ((op.call now).run_congr pool fun actual' made => ?_).2 actual mine
      obtain rfl := some.inj (mine.symm.trans made)
      exact agree.items actual other
    · rw [get_run _ _ _ mine, get_run _ _ _ mine]
      exact agree.items actual other

lemma AgreeOff.apply (e : Event) : AgreeOff hidden (m.apply e) (m'.apply e) := by
  cases e with
  | newCache c => exact agree.newCache c
  | call name now op => exact agree.call name now op
  | evict actual =>
    refine agree.withItems fun actual' other => ?_
    rw [get_set, get_set, agree.items actual' other]

lemma AgreeOff.run (events : List Event) : AgreeOff hidden (m.run events) (m'.run events) := by
  induction events generalizing m m' with
  | nil => exact agree
  | cons e events ih => exact ih (agree.apply e)

lemma AgreeOff.reply {name : String} (now : UInt32) (op : Op) (other : ∀ pool, m.getCache name = some pool →
      getActualKey pool (op.call now : Call L).type (op.call now : Call L).key (op.call now : Call L).fieldSize ≠ some hidden) :
    (m.call name now op).2 = (m'.call name now op).2 := by
  rw [Manager.call, Manager.call, ← agree.getCache]
  cases found : m.getCache name with
  | none => rfl
  | some pool =>
    refine congrArg some ((op.call now).run_congr pool fun actual made => agree.items actual fun same => ?_).1
    exact other pool found (made.trans (congrArg some same))

end

lemma agreeOff_call (sound : m.Sound) {pool : UInt8} {name : String} {now : UInt32} {op : Op} (found : m.getCache name = some pool)
    (made : getActualKey pool (op.call now : Call L).type (op.call now : Call L).key (op.call now : Call L).fieldSize = some hidden) :
    AgreeOff hidden (m.call name now op).1 m := by
  have agree : AgreeOff hidden m m := ⟨sound, sound, rfl, rfl, fun _ _ => rfl⟩
  have after := agree.withItems fun actual other =>
    (op.call now).get_run pool m.items fun same => other (some.inj (same.symm.trans made))
  rw [withItems_items sound] at after
  rw [call, found]
  exact after

lemma reply_without_call (sound : m.Sound) (before after : List Event) {name name' : String} (now now' : UInt32) {op op' : Op}
    (apart : (name, op.target) ≠ (name', op'.target)) :
    ((m.run (before ++ .call name now op :: after)).call name' now' op').2 = ((m.run (before ++ after)).call name' now' op').2 := by
  rw [run_append, run_append, run_cons]
  have sound := sound.run before
  rcases call_cases sound name now op with same | ⟨pool, hidden, hit, made, -⟩
  · rw [show (m.run before).apply (.call name now op) = m.run before from same]
  · have agree := agreeOff_call sound hit made
    refine (agree.run after).reply now' op' fun pool' found made' => apart ?_
    -- one key would be one pool and one target
    obtain ⟨rfl, targets⟩ := getActualKey_apart made made'
    rw [Op.target_call, Op.target_call] at targets
    rw [(agree.run after).getCache] at found
    have names := (sound.run after).getCache_injective (sound.getCache_run hit after) found
    rw [names, targets]

end Manager

/-- Whatever calls are made through the pools of a manager, and whatever CacheLib removes in between, a call changes nothing for
    calls of another pool, kind, field size or key. -/
theorem calls_are_isolated {config : ECacheManagerConfig} {m : Manager L} (started : new.init config = (m, some 0)) :
    (∀ pool type key size, (getActualKey pool type key size).isSome ↔ type.IsMap → size ≤ 65535) ∧
    (∀ pool type key size pool' type' key' size' actual, getActualKey pool type key size = some actual →
      getActualKey pool' type' key' size' = some actual → pool = pool' ∧ Target.of type key size = Target.of type' key' size') ∧
    ∀ before after name now op name' now' op', (name, op.target) ≠ (name', op'.target) →
      ((m.run (before ++ .call name now op :: after)).call name' now' op').2 =
        ((m.run (before ++ after)).call name' now' op').2 := by
  refine ⟨fun _ _ _ _ => isSome_getActualKey, fun _ _ _ _ _ _ _ _ _ => getActualKey_apart, fun before after _ now _ _ now' _ => ?_⟩
  exact reply_without_call (sound_init started).1 before after now now'

theorem calls_are_isolated_sample : ∃ m : Manager sampleLib, new.init sampleConfig = (m, some 0) ∧
    ((m.run [.newCache ⟨"p", 16777216⟩, .call "p" 1 (.set [97] [98] 0), .call "p" 2 (.hashMapSet [97] [0, 0, 0, 0, 0, 0, 0, 0] [99] 0)]).call
        "p" 3 (.get [97])).2 =
      ((m.run [.newCache ⟨"p", 16777216⟩, .call "p" 1 (.set [97] [98] 0)]).call "p" 3 (.get [97])).2 :=
  ⟨_, started_sample, (calls_are_isolated started_sample).2.2
    [.newCache ⟨"p", 16777216⟩, .call "p" 1 (.set [97] [98] 0)] [] "p" 2 (.hashMapSet [97] [0, 0, 0, 0, 0, 0, 0, 0] [99] 0) "p" 3 (.get [97])
    (by decide)⟩

end

end Myctk.Ecache
