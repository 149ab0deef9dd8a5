import Myctk.Ecache.Content
import Myctk.Lib.Countable

/-! A cache that is saved is loaded again (`ecache/ecache_manager.cpp`), if no value in it is empty. -/

namespace Myctk.Ecache

open Lib.Assoc MapView List Option Lib Lib.Stream Lib.Stdio Manager Stream Allocator Reply Stdio
open Lib.Assoc

variable {L : CacheLib}

section
variable {pool : UInt8} {type : CacheKeyType} {key actual : Bytes} {size : Nat}

section
variable (made : getActualKey pool type key size = some actual)
include made

lemma kindOf_actual : kindOf actual = type := by
  rcases getActualKey_eq_some made with ⟨rfl, rfl⟩ | ⟨rfl, rfl⟩ | ⟨map, -, rfl⟩
  · rfl
  · rfl
  · rcases map with rfl | rfl
    · rfl
    · rfl

lemma poolOf_actual : poolOf actual = pool.toNat := by
  rcases getActualKey_eq_some made with ⟨-, rfl⟩ | ⟨-, rfl⟩ | ⟨-, -, rfl⟩
  · rfl
  · rfl
  · rfl

lemma actual_ne_nil : actual ≠ [] := by
  rcases getActualKey_eq_some made with ⟨-, rfl⟩ | ⟨-, rfl⟩ | ⟨-, -, rfl⟩
  · exact cons_ne_nil _ _
  · exact cons_ne_nil _ _
  · exact cons_ne_nil _ _

lemma fieldSizeOf_actual (map : type.IsMap) : fieldSizeOf actual = size := by
  rcases getActualKey_eq_some made with ⟨rfl, rfl⟩ | ⟨rfl, rfl⟩ | ⟨-, small, rfl⟩
  · exact absurd map (by decide)
  · exact absurd map not_isMap_string
  · show leNat ((leBytes 2 size ++ key).take 2) = size
    rw [take_append_of_le_length (by rw [length_leBytes]), take_of_length_le (by rw [length_leBytes]),
      leNat_leBytes (show size < 256 ^ 2 from small)]

end

end

namespace MapLib.Lawful

variable {M : MapLib} (lawful : M.Lawful) {map map' : M.Map}

include lawful in
lemma entries_perm {es : List (Bytes × Bytes)} (nodup : (es.map Prod.fst).Nodup)
    (mem : ∀ field v, (field, v) ∈ es ↔ M.find map field = some v) : (M.entries map).Perm es := by
  refine (perm_ext_iff_of_nodup (lawful.nodup map).of_map nodup.of_map).mpr fun e => ?_
  rw [lawful.mem_entries map e.1 e.2, mem e.1 e.2]

include lawful in
lemma entries_congr (same : ∀ field, M.find map field = M.find map' field) : (M.entries map).Perm (M.entries map') :=
  lawful.entries_perm (lawful.nodup map') fun field v => by rw [lawful.mem_entries, same]

include lawful in
lemma size_congr (same : ∀ field, M.find map field = M.find map' field) : M.size map = M.size map' := by
  rw [lawful.size, lawful.size, (lawful.entries_congr same).length_eq]

include lawful in
lemma size_create : M.size M.create = 0 := by
  have none : (M.entries M.create).Perm [] :=
    lawful.entries_perm nodup_nil fun field v => by simp [lawful.find_create]
  rw [lawful.size, none.length_eq]
  rfl

include lawful in
lemma size_of_find {field v : Bytes} (new : M.find map field = none)
    (find : ∀ other, M.find map' other = if field = other then some v else M.find map other) : M.size map' = M.size map + 1 := by
  have fresh : field ∉ (M.entries map).map Prod.fst := by
    intro member
    obtain ⟨⟨other, w⟩, there, rfl⟩ := mem_map.mp member
    rw [lawful.mem_entries, new] at there
    cases there
  have perm : (M.entries map').Perm ((field, v) :: M.entries map) := by
    refine lawful.entries_perm (nodup_cons.mpr ⟨fresh, lawful.nodup map⟩) fun other w => ?_
    rw [mem_cons, lawful.mem_entries, find]
    split
    case isTrue same =>
      subst same
      rw [new]
      simp [eq_comm]
    case isFalse differ => simp [Ne.symm differ]
  rw [lawful.size, lawful.size, perm.length_eq]
  rfl

end MapLib.Lawful

lemma reads_fread (item : Bytes) : Reads (fwrite item) (fread item.length) item := reads_item _ _ item

lemma reads_fileReadString {s : Bytes} (fits : s.length < 2 ^ 32) : Reads (fileWriteString s) fileReadString s :=
  reads_string _ _ fits

section
variable {V : MapView L} {size : Nat}

lemma MapView.Exact.reads_entries (exact_ : V.Exact) (held : V.lib.Map) (rest : List (Bytes × Bytes)) (map : V.lib.Map)
    (from_ : ∀ e ∈ rest, e.1.length = size ∧ V.lib.find held e.1 = some e.2) (nodup : (rest.map Prod.fst).Nodup)
    (new : ∀ e ∈ rest, V.lib.find map e.1 = none) (fits : V.lib.size map + rest.length ≤ V.lib.size held) :
    ∃ map', Reads (each saveEntry rest) (V.loadEntries size rest.length map) map' ∧
      ∀ field, V.lib.find map' field = (get field rest).or (V.lib.find map field) := by
  induction rest generalizing map with
  | nil => exact ⟨map, .pure map, fun field => rfl⟩
  | cons e rest ih =>
    obtain ⟨⟨length, here⟩, later⟩ := forall_mem_cons.mp from_
    obtain ⟨fresh, nodup⟩ := nodup_cons.mp nodup
    obtain ⟨absent, news⟩ := forall_mem_cons.mp new
    rw [length_cons] at fits
    obtain ⟨map1, inserted, find⟩ := exact_.lawful.insert here absent (by omega)
    have grown := exact_.lawful.size_of_find absent find
    have others : ∀ e' ∈ rest, V.lib.find map1 e'.1 = none := by
      intro e' member
      have differ : e.1 ≠ e'.1 := fun same => fresh (same ▸ mem_map_of_mem member)
      rw [find, if_neg differ]
      exact news e' member
    obtain ⟨map', reads, result⟩ := ih map1 later nodup others (by omega)
    refine ⟨map', ?_, fun field => ?_⟩
    · have first : Reads (saveEntry e) (loadEntry size) e := by
        subst length
        exact (reads_fread e.1).bind ((reads_fileReadString (exact_.lawful.value_lt _ _ _ here)).then fun _ => rfl)
      refine first.bind fun b eq more => ?_
      rw [inserted]
      exact reads b eq more
    · rw [result, find]
      obtain ⟨name, v⟩ := e
      simp only [Assoc.get]
      split
      case isTrue same =>
        subst same
        have gone : get name rest = none := by
          rw [← not_isSome_iff_eq_none, isSome_get]
          exact fresh
        rw [gone]
        rfl
      case isFalse => rfl

lemma MapView.Exact.save_load (exact_ : V.Exact) {actual : Bytes} {pools : Nat} {map : V.lib.Map} (valid : ValidSize size)
    (there : poolOf actual < pools) (key : L.allocatesMap actual)
    (sizes : ∀ field v, V.lib.find map field = some v → field.length = size) :
    ((V.save size map).isSome ↔ ∀ field v, V.lib.find map field = some v → v ≠ []) ∧
      ∃ map', Reads (V.save size map) (V.load pools actual size) (V.wrap map') ∧
        ∀ field, V.lib.find map' field = V.lib.find map field := by
  have mem := exact_.lawful.mem_entries map
  rw [save, if_pos valid, load, if_pos ⟨valid, there, key⟩]
  constructor
  · have number : (fileWriteUint32 (V.lib.size map)).isSome := isSome_writeUint32 _
    rw [isSome_andThen, isSome_each, and_iff_right number]
    refine ⟨fun all field v found => ?_, fun full e member => ?_⟩
    · have both := all (field, v) ((mem field v).mpr found)
      rw [saveEntry, isSome_andThen] at both
      exact isSome_writeString.mp both.2
    · have found := (mem e.1 e.2).mp member
      rw [saveEntry, isSome_andThen]
      refine ⟨isSome_fwrite.mpr fun empty => ?_, isSome_writeString.mpr (full e.1 e.2 found)⟩
      have length := sizes e.1 e.2 found
      rw [empty, length_nil] at length
      have large := valid.2.1
      omega
  · obtain ⟨map', reads, find⟩ := exact_.reads_entries map (V.lib.entries map) V.lib.create
      (fun e member => ⟨sizes e.1 e.2 ((mem e.1 e.2).mp member), (mem e.1 e.2).mp member⟩) (exact_.lawful.nodup map)
      (fun e _ => exact_.lawful.find_create e.1) (by rw [exact_.lawful.size_create, zero_add, exact_.lawful.size])
    refine ⟨map', ?_, fun field => ?_⟩
    · refine (reads_uint32 _ _ (exact_.lawful.size_lt map)).bind ?_
      rw [exact_.lawful.size]
      exact reads.then fun _ => rfl
    · rw [find, exact_.lawful.find_create, or_none]
      refine ext fun v => ?_
      rw [get_eq_some (exact_.lawful.nodup map), mem]

end

def Alike : Content L → Content L → Prop
  | .string v, .string v' => v = v'
  | .rangeMap map, .rangeMap map' => ∀ field, L.range.find map field = L.range.find map' field
  | .hashMap map, .hashMap map' => ∀ field, L.hash.find map field = L.hash.find map' field
  | _, _ => False

def Full : Content L → Prop
  | .string v => v ≠ []
  | .rangeMap map => ∀ field v, L.range.find map field = some v → v ≠ []
  | .hashMap map => ∀ field v, L.hash.find map field = some v → v ≠ []

section
variable {pool : UInt8} {type : CacheKeyType} {key actual : Bytes} {size pools : Nat} {content : Content L}

lemma save_load_content (lawful : L.Lawful) (made : getActualKey pool type key size = some actual) (fits : Fits type size actual content)
    (there : pool.toNat < pools) : ((saveContent actual content).isSome ↔ Full content) ∧
      ∃ content', Reads (saveContent actual content) (loadContent pools actual) content' ∧ Alike content content' := by
  have kind := kindOf_actual made
  rw [← poolOf_actual made] at there
  unfold saveContent loadContent
  rw [kind]
  cases content with
  | string v =>
    obtain ⟨rfl, takes⟩ := fits
    refine ⟨isSome_writeString, .string v, (reads_fileReadString (lawful.allocates _ _ takes).2).then fun b => ?_, rfl⟩
    rw [if_pos ⟨there, takes⟩]
    rfl
  | rangeMap map =>
    obtain ⟨rfl, valid, takes, sizes⟩ := fits
    rw [fieldSizeOf_actual made (.inl rfl)]
    obtain ⟨isSome, map', reads, same⟩ := (exact_rangeView lawful).save_load valid there takes sizes
    exact ⟨isSome, .rangeMap map', reads, fun field => (same field).symm⟩
  | hashMap map =>
    obtain ⟨rfl, valid, takes, sizes⟩ := fits
    rw [fieldSizeOf_actual made (.inr rfl)]
    obtain ⟨isSome, map', reads, same⟩ := (exact_hashView lawful).save_load valid there takes sizes
    exact ⟨isSome, .hashMap map', reads, fun field => (same field).symm⟩

lemma key_lt (lawful : L.Lawful) (fits : Fits type size actual content) : actual.length < 2 ^ 32 := by
  cases content with
  | string v => exact (lawful.allocates _ _ fits.2).1
  | rangeMap map => exact lawful.allocatesMap _ fits.2.2.1
  | hashMap map => exact lawful.allocatesMap _ fits.2.2.1

end

lemma reads_expiryTime (t : UInt32) :
    Reads (andThen (fwrite [if 0 < t then 1 else 0]) (if 0 < t then fwrite (leBytes 4 t.toNat) else some [])) loadExpiryTime t := by
  refine (reads_fread [if 0 < t then 1 else 0]).bind ?_
  by_cases expires : 0 < t
  · rw [if_pos expires, if_pos expires, if_neg (by decide)]
    have number := reads_fread (leBytes 4 t.toNat)
    rw [length_leBytes] at number
    refine number.then fun b => ?_
    rw [leNat_leBytes (show t.toNat < 256 ^ 4 from t.toNat_lt), UInt32.ofNat_toNat]
    rfl
  · rw [if_neg expires, if_neg expires, if_pos rfl]
    have zero : t = 0 := UInt32.le_antisymm (UInt32.not_lt.mp expires) (UInt32.zero_le)
    rw [zero]
    exact .pure 0

lemma reads_nextKey {actual : Bytes} (fits : actual.length < 2 ^ 32) : Reads (fileWriteString actual) nextKey (some actual) :=
  Reads.tryCatch ((reads_fileReadString fits).then fun _ => rfl) _

/-- Items that reads cannot tell apart. -/
def Similar : Option (Item L) → Option (Item L) → Prop
  | some item, some item' => item'.expiryTime = item.expiryTime ∧ Alike item.content item'.content
  | none, none => True
  | _, _ => False

def Storable (pools : Nat) (e : Bytes × Item L) : Prop := ∃ pool type key size, pool.toNat < pools ∧
  getActualKey pool type key size = some e.1 ∧ Fits type size e.1 e.2.content

variable {e : Bytes × Item L} {b : Bytes} {items : Items L}

lemma isSome_saveItem (lawful : L.Lawful) {pools : Nat} (storable : Storable pools e) : (saveItem e).isSome ↔ Full e.2.content := by
  obtain ⟨pool, type, key, size, lt, made, fits⟩ := storable
  rw [saveItem, isSome_andThen, isSome_andThen, isSome_andThen, (save_load_content lawful made fits lt).1]
  have first : (fileWriteString e.1).isSome := isSome_writeString.mpr (actual_ne_nil made)
  have flag : (fwrite [if 0 < e.2.expiryTime then 1 else 0]).isSome := isSome_fwrite.mpr (cons_ne_nil _ _)
  have time : (if 0 < e.2.expiryTime then fwrite (leBytes 4 e.2.expiryTime.toNat) else some []).isSome := by
    split
    · exact isSome_fwrite.mpr fun empty => by simpa using congrArg length empty
    · rfl
  rw [and_iff_right first, and_iff_right flag, and_iff_right time]

lemma saveItem_ne_nil (wrote : saveItem e = some b) : b ≠ [] := by
  obtain ⟨b1, b2, key, -, rfl⟩ := andThen_eq_some.mp wrote
  exact fun empty => writeString_ne_nil key (append_eq_nil_iff.mp empty).1

lemma loadItems_pass (lawful : L.Lawful) {pools : Nat} (storable : Storable pools e)
    (wrote : saveItem e = some b) : ∃ item', Similar (some e.2) (some item') ∧ ∀ passes items rest,
      (loadItems pools (passes + 1) items).run (b ++ rest) = (loadItems pools passes (storeLoaded items e.1 item')).run rest := by
  obtain ⟨pool, type, key, size, lt, made, fits⟩ := storable
  obtain ⟨content', reads, alike⟩ := (save_load_content lawful made fits lt).2
  refine ⟨⟨content', e.2.expiryTime⟩, ⟨rfl, alike⟩, fun passes items rest => ?_⟩
  rw [saveItem, ← andThen_assoc (fwrite _)] at wrote
  obtain ⟨b1, b2, wroteKey, wrote2, rfl⟩ := andThen_eq_some.mp wrote
  obtain ⟨b3, b4, wroteTime, wroteContent, rfl⟩ := andThen_eq_some.mp wrote2
  rw [append_assoc, append_assoc, loadItems, run_bind (reads_nextKey (key_lt lawful fits) b1 wroteKey _)]
  rw [run_bind (reads_expiryTime e.2.expiryTime b3 wroteTime _), run_bind (reads b4 wroteContent rest)]

lemma loadItems_nil (pools passes : Nat) (items : Items L) : (loadItems pools (passes + 1) items).run [] = (.ok items, []) := rfl

lemma get_storeLoaded {actual : Bytes} (new : get actual items = none) (item : Item L) (other : Bytes) :
    get other (storeLoaded items actual item) = if actual = other then some item else get other items := by
  have stored : get other (set actual (some item) items) = if actual = other then some item else get other items :=
    get_set _ _
  rw [storeLoaded, new]
  split
  · exact stored
  · exact stored

lemma loadItems_spec (lawful : L.Lawful) {pools : Nat} {entries : Items L} (storable : ∀ e ∈ entries, Storable pools e)
    (nodup : (entries.map Prod.fst).Nodup) (new : ∀ e ∈ entries, get e.1 items = none)
    (wrote : each saveItem entries = some b) {passes : Nat} (enough : entries.length < passes) :
    ∃ items', (loadItems pools passes items).run b = (.ok items', []) ∧
      (∀ actual item, get actual entries = some item → Similar (some item) (get actual items')) ∧
      ∀ actual, get actual entries = none → get actual items' = get actual items := by
  induction entries generalizing items b passes with
  | nil =>
    cases wrote
    obtain ⟨passes, rfl⟩ := Nat.exists_eq_succ_of_ne_zero (ne_of_gt enough)
    exact ⟨items, loadItems_nil pools passes items, fun _ _ found => (nomatch found), fun _ _ => rfl⟩
  | cons e entries ih =>
    obtain ⟨here, later⟩ := forall_mem_cons.mp storable
    obtain ⟨fresh, nodup⟩ := nodup_cons.mp nodup
    obtain ⟨absent, news⟩ := forall_mem_cons.mp new
    obtain ⟨b1, b2, first, others, rfl⟩ := andThen_eq_some.mp wrote
    obtain ⟨passes, rfl⟩ := Nat.exists_eq_succ_of_ne_zero (ne_of_gt (Nat.zero_lt_of_lt enough))
    obtain ⟨item', similar, pass⟩ := loadItems_pass lawful here first
    have stored := get_storeLoaded absent item'
    have news' : ∀ e' ∈ entries, get e'.1 (storeLoaded items e.1 item') = none := by
      intro e' member
      have differ : e.1 ≠ e'.1 := fun same => fresh (same ▸ mem_map_of_mem member)
      rw [stored, if_neg differ]
      exact news e' member
    obtain ⟨items', run, loaded, kept⟩ := ih later nodup news' others (Nat.lt_of_succ_lt_succ enough)
    obtain ⟨key, item⟩ := e
    have gone : get key entries = none := by
      rw [← not_isSome_iff_eq_none, isSome_get]
      exact fresh
    refine ⟨items', (pass passes items b2).trans run, fun actual item0 found => ?_, fun actual none => ?_⟩
    · rw [Assoc.get] at found
      split at found
      case isTrue mine =>
        cases found
        subst mine
        rw [kept key gone, stored, if_pos rfl]
        exact similar
      case isFalse => exact loaded actual item0 found
    · rw [Assoc.get] at none
      split at none
      case isTrue => cases none
      case isFalse other => rw [kept actual none, stored, if_neg other]

lemma iterate_perm (lawful : L.Lawful) (nodup : (items.map Prod.fst).Nodup) : (iterate items).Perm items := by
  have perm := (lawful.order (items.map Prod.fst)).filterMap fun actual => (get actual items).map fun item => (actual, item)
  rw [filterMap_get nodup] at perm
  exact perm

lemma save_load_cache (lawful : L.Lawful) {pools : Nat} (nodup : (items.map Prod.fst).Nodup)
    (storable : ∀ e ∈ items, Storable pools e) : ((saveCache items).isSome ↔ ∀ e ∈ items, Full e.2.content) ∧
      ∀ file, saveCache items = some file → ∃ items', loadCache pools [] file = some items' ∧
        ∀ actual, Similar (get actual items) (get actual items') := by
  have perm := iterate_perm lawful nodup
  have storable' : ∀ e ∈ iterate items, Storable pools e := fun e member => storable e (perm.mem_iff.mp member)
  refine ⟨?_, fun file wrote => ?_⟩
  · rw [saveCache, isSome_each]
    refine ⟨fun all e member => ?_, fun full e member => ?_⟩
    · exact (isSome_saveItem lawful (storable e member)).mp (all e (perm.mem_iff.mpr member))
    · exact (isSome_saveItem lawful (storable' e member)).mpr (full e (perm.mem_iff.mp member))
  · have enough : (iterate items).length < file.length + 1 :=
      Nat.lt_succ_of_le (length_le_of_each (fun _ _ => saveItem_ne_nil) wrote)
    have nodup' : ((iterate items).map Prod.fst).Nodup := (perm.map _).nodup_iff.mpr nodup
    have none : ∀ e ∈ iterate items, get e.1 ([] : Items L) = none := fun _ _ => rfl
    obtain ⟨items', run, loaded, kept⟩ := loadItems_spec lawful storable' nodup' none wrote enough
    refine ⟨items', by rw [loadCache, run], fun actual => ?_⟩
    have same := get_perm nodup' perm actual
    cases found : get actual items with
    | some item => exact loaded actual item (same.trans found)
    | none =>
      rw [kept actual (same.trans found)]
      trivial

namespace Manager

structure Makeable (m : Manager L) : Prop where
  defaults : withDefaults m.config = { m.config with size := m.config.size + 4 * 1024 * 1024 }
  creates : L.creates m.config
  size : m.cache.map size = some m.config.size
  rooms : ∀ before c after, m.poolConfigs = before ++ c :: after → L.room m.config.size (before.map ECacheConfig.size) c.size

variable {config : ECacheManagerConfig} {m : Manager L}

lemma withDefaults_of_set (size : ¬ config.size ≤ 0) (buckets : config.bucketsPower ≠ 0)
    (locks : config.locksPower ≠ 0) (name : config.name ≠ "") :
    withDefaults config = { config with size := config.size + 4 * 1024 * 1024 } := by
  rw [withDefaults, if_neg size, if_neg buckets, if_neg locks, if_neg name]

lemma withDefaults_twice (config : ECacheManagerConfig) :
    withDefaults (withDefaults config) = { withDefaults config with size := (withDefaults config).size + 4 * 1024 * 1024 } := by
  refine withDefaults_of_set ?_ ?_ ?_ ?_
  all_goals
    dsimp only [withDefaults]
    split
  · omega
  · omega
  · decide
  · assumption
  · decide
  · assumption
  · decide
  · assumption

lemma makeable_init (started : new.init config = (m, some 0)) : m.Makeable := by
  rw [init] at started
  split at started
  case isTrue => cases started
  case isFalse =>
    split at started
    case isTrue creates =>
      cases started
      exact ⟨withDefaults_twice config, creates, rfl, fun before c after eq => absurd eq (by simp [new])⟩
    case isFalse => cases started

lemma Makeable.withItems (makeable : m.Makeable) (items : Items L) : (m.withItems items).Makeable := by
  refine ⟨makeable.defaults, makeable.creates, ?_, makeable.rooms⟩
  rw [Manager.withItems, Option.map_map]
  exact makeable.size

lemma Makeable.apply (sound : m.Sound) (makeable : m.Makeable) (e : Event) : (m.apply e).Makeable := by
  cases e with
  | newCache c =>
    rw [Manager.apply]
    rcases sound.newCache_cases c with same | ⟨a, cache, -, -, room, same⟩
    · rw [same]
      exact makeable
    · have size := makeable.size
      rw [cache] at size
      have size : a.size = m.config.size := some.inj size
      rw [same]
      refine ⟨makeable.defaults, makeable.creates, congrArg some size, fun before c' after eq => ?_⟩
      -- a pool of before, or the new one
      rcases eq_nil_or_concat after with rfl | ⟨after, last, rfl⟩
      · obtain ⟨pools, last⟩ := append_inj' eq rfl
        obtain rfl := (cons.inj last).1
        rw [← pools, ← size]
        exact room
      · rw [concat_eq_append, ← cons_append, ← append_assoc] at eq
        exact makeable.rooms before c' after (append_inj' eq rfl).1
  | call name now op =>
    rw [Manager.apply]
    rcases call_cases sound name now op with same | ⟨pool, actual, -, -, same⟩
    · rw [same]
      exact makeable
    · rw [same]
      exact makeable.withItems _
  | evict actual => exact makeable.withItems _

lemma Makeable.run (sound : m.Sound) (makeable : m.Makeable) (events : List Event) : (m.run events).Makeable := by
  induction events generalizing m with
  | nil => exact makeable
  | cons e events ih => exact ih (sound.apply e) (makeable.apply sound e)

lemma Makeable.init_again (lawful : L.Lawful) (sound : m.Sound) (makeable : m.Makeable) :
    ∃ m1 : Manager L, new.init m.config = (m1, some 0) ∧ m1.cache.map Allocator.size = some (m.config.size + 4 * 1024 * 1024) := by
  refine ⟨⟨withDefaults m.config, [], some ⟨(withDefaults m.config).size, [], []⟩, []⟩, ?_, ?_⟩
  · have known : (withDefaults m.config).type ≠ .unknown := sound.known
    have creates : L.creates (withDefaults m.config) := by
      rw [makeable.defaults]
      exact lawful.creates _ makeable.creates
    rw [init, if_neg known, if_pos creates]
    rfl
  · rw [makeable.defaults]
    rfl

lemma newCaches_spec {cacheSize : Int} {pools : List ECacheConfig} (sound : m.Sound)
    (size : m.cache.map size = some cacheSize) (few : (m.poolConfigs ++ pools).length ≤ 64)
    (distinct : ((m.poolConfigs ++ pools).map ECacheConfig.name).Nodup)
    (rooms : ∀ before c after, m.poolConfigs ++ pools = before ++ c :: after → L.room cacheSize (before.map ECacheConfig.size) c.size) :
    let m' := pools.foldl (fun m c => (m.newCache c).1) m
    m'.Sound ∧ m'.poolConfigs = m.poolConfigs ++ pools ∧ m'.items = m.items := by
  induction pools generalizing m with
  | nil => exact ⟨sound, (append_nil _).symm, rfl⟩
  | cons c pools ih =>
    obtain ⟨a, cache, samePools⟩ := sound.created
    rw [cache] at size
    obtain rfl : a.size = cacheSize := some.inj size
    have added : (m.newCache c).1.poolConfigs = m.poolConfigs ++ [c] ∧ (m.newCache c).1.cache.map Allocator.size = some a.size := by
      have room := rooms m.poolConfigs c pools rfl
      have few : m.poolConfigs.length < 64 := by
        rw [length_append, length_cons] at few
        omega
      have fresh : c.name ∉ m.poolConfigs.map ECacheConfig.name := by
        rw [map_append, nodup_append] at distinct
        exact fun member => distinct.2.2 _ member _ mem_cons_self rfl
      rw [newCache, cache, bind_some, addPool, samePools, if_pos ⟨few, fresh, room⟩]
      exact ⟨rfl, rfl⟩
    have again : m.poolConfigs ++ c :: pools = (m.newCache c).1.poolConfigs ++ pools := by rw [added.1, append_assoc]; rfl
    rw [again] at few distinct rooms
    obtain ⟨sound', pools', items'⟩ := ih (sound.newCache c) added.2 few distinct rooms
    exact ⟨sound', pools'.trans again.symm, items'.trans (items_newCache sound c)⟩

end Manager

def Op.Reads : Op → Prop
  | get _ | existsKey _ _ _ | rangeMapGet _ _ | rangeMapRangeGet _ _ _ | rangeMapMin _ _ | rangeMapSize _ _ | rangeMapGetAll _ _
  | hashMapGet _ _ | hashMapSize _ _ => True
  | _ => False

lemma Similar.symm {item item' : Option (Item L)} (similar : Similar item item') : Similar item' item := by
  match item, item', similar with
  | none, none, _ => trivial
  | some ⟨.string _, _⟩, some ⟨.string _, _⟩, ⟨time, same⟩ => exact ⟨time.symm, same.symm⟩
  | some ⟨.rangeMap _, _⟩, some ⟨.rangeMap _, _⟩, ⟨time, same⟩ => exact ⟨time.symm, fun field => (same field).symm⟩
  | some ⟨.hashMap _, _⟩, some ⟨.hashMap _, _⟩, ⟨time, same⟩ => exact ⟨time.symm, fun field => (same field).symm⟩

lemma similar_find {item item' : Option (Item L)} (similar : Similar item item') (now : UInt32) :
    Similar (find now item) (find now item') := by
  match item, item', similar with
  | none, none, _ => trivial
  | some item, some item', similar =>
    rw [find, find, filter_some, filter_some, similar.1]
    split
    · exact similar
    · trivial

def MapView.Respects (V : MapView L) : Prop := ∀ content content', Alike content content' →
  (V.unwrap content = none ∧ V.unwrap content' = none) ∨
    ∃ map map', V.unwrap content = some map ∧ V.unwrap content' = some map' ∧ ∀ field, V.lib.find map field = V.lib.find map' field

lemma respects_rangeView : (rangeView : MapView L).Respects := by
  intro content content' alike
  match content, content', alike with
  | .string _, .string _, _ => exact .inl ⟨rfl, rfl⟩
  | .rangeMap map, .rangeMap map', same => exact .inr ⟨map, map', rfl, rfl, same⟩
  | .hashMap _, .hashMap _, _ => exact .inl ⟨rfl, rfl⟩

lemma respects_hashView : (hashView : MapView L).Respects := by
  intro content content' alike
  match content, content', alike with
  | .string _, .string _, _ => exact .inl ⟨rfl, rfl⟩
  | .rangeMap _, .rangeMap _, _ => exact .inl ⟨rfl, rfl⟩
  | .hashMap map, .hashMap map', same => exact .inr ⟨map, map', rfl, rfl, same⟩

section
variable {V : MapView L} {item item' : Option (Item L)}

lemma MapView.Respects.reply (respects : V.Respects) (similar : Similar item item') (r : Reply → Reply → Prop) (refl : ∀ reply, r reply reply)
    {now : UInt32} {key : Bytes} {size : Nat} {absent : Reply} {reply : V.lib.Map → Reply}
    (same : ∀ map map', (∀ field, V.lib.find map field = V.lib.find map' field) → r (reply map) (reply map')) (actual : Bytes) :
    r ((V.call key size fun _ => V.onMap now absent fun map => (map, reply map)).act actual item).2
      ((V.call key size fun _ => V.onMap now absent fun map => (map, reply map)).act actual item').2 := by
  dsimp only [call, doMapOp]
  split
  case isFalse => exact refl _
  case isTrue =>
    have found := similar_find similar now
    rw [onMap, onMap]
    generalize find now item = live at found ⊢
    generalize find now item' = live' at found ⊢
    cases live with
    | none =>
      cases live' with
      | none => exact refl _
      | some => exact found.elim
    | some live =>
      cases live' with
      | none => exact found.elim
      | some live' =>
        rcases respects _ _ found.2 with ⟨none1, none2⟩ | ⟨map, map', some1, some2, fields⟩
        · dsimp only
          rw [none1, none2]
          exact refl _
        · dsimp only
          rw [some1, some2]
          exact same map map' fields

lemma MapView.Respects.reply_eq (respects : V.Respects) (similar : Similar item item') {now : UInt32} {key : Bytes} {size : Nat}
    {absent : Reply} {reply : V.lib.Map → Reply}
    (same : ∀ map map', (∀ field, V.lib.find map field = V.lib.find map' field) → reply map = reply map') (actual : Bytes) :
    ((V.call key size fun _ => V.onMap now absent fun map => (map, reply map)).act actual item).2 =
      ((V.call key size fun _ => V.onMap now absent fun map => (map, reply map)).act actual item').2 :=
  respects.reply similar (· = ·) (fun _ => rfl) same actual

lemma Op.Reads.reply (lawful : L.Lawful) {op : Op} (reads : op.Reads) (now : UInt32) (actual : Bytes) (similar : Similar item item') :
    ((op.call now).act actual item).2 = ((op.call now).act actual item').2 := by
  cases op with
  | get key =>
    have found := similar_find similar now
    dsimp only [Op.call, ECacheImpl.get]
    match find now item, find now item', found with
    | none, none, _ => rfl
    | some ⟨.string _, _⟩, some ⟨.string _, _⟩, ⟨_, rfl⟩ => rfl
    | some ⟨.rangeMap _, _⟩, some ⟨.rangeMap _, _⟩, _ => rfl
    | some ⟨.hashMap _, _⟩, some ⟨.hashMap _, _⟩, _ => rfl
  | existsKey key type size =>
    have found := similar_find similar now
    dsimp only [Op.call, ECacheImpl.existsKey]
    match find now item, find now item', found with
    | none, none, _ => rfl
    | some _, some _, _ => rfl
  | rangeMapGet key field => exact respects_rangeView.reply_eq similar (fun map map' same => congrArg value (same field)) actual
  | rangeMapRangeGet key min max =>
    exact respects_rangeView.reply_eq similar (fun map map' same => congrArg (entries 0) ((lawful.ordered map map' same).2 min _)) actual
  | rangeMapMin key size =>
    exact respects_rangeView.reply_eq similar (fun map map' same => congrArg (fun es => entry es.head?) (lawful.ordered map map' same).1) actual
  | rangeMapSize key size =>
    exact respects_rangeView.reply_eq similar (fun map map' same => congrArg (fun n : Nat => int n) (lawful.range.size_congr same)) actual
  | rangeMapGetAll key size => exact respects_rangeView.reply_eq similar (fun map map' same => congrArg (entries 0) (lawful.ordered map map' same).1) actual
  | hashMapGet key field => exact respects_hashView.reply_eq similar (fun map map' same => congrArg value (same field)) actual
  | hashMapSize key size =>
    exact respects_hashView.reply_eq similar (fun map map' same => congrArg (fun n : Nat => int n) (lawful.hash.size_congr same)) actual
  | _ => exact reads.elim

def Reply.Reordered (reply reply' : Reply) : Prop :=
  reply = reply' ∨ ∃ rc es es', reply = .entries rc es ∧ reply' = .entries rc es' ∧ es.Perm es'

lemma reordered_hashMapGetAll (lawful : L.Lawful) (now : UInt32) (key : Bytes) (size : Nat) (actual : Bytes)
    (similar : Similar item item') : Reordered ((ECacheImpl.hashMapGetAll now key size).act actual item).2
      ((ECacheImpl.hashMapGetAll now key size).act actual item').2 := by
  refine respects_hashView.reply similar Reordered (fun _ => .inl rfl) (fun map map' same => ?_) actual
  exact .inr ⟨0, _, _, rfl, rfl, lawful.hash.entries_congr same⟩

end

namespace Manager

def expiryTime (m : Manager L) (name : String) (type : CacheKeyType) (key : Bytes) (fieldSize : Nat) : Option UInt32 := do
  let pool ← m.getCache name
  let actual ← getActualKey pool type key fieldSize
  let item ← get actual m.items
  return item.expiryTime

/-- Every read gives the same, but for the order of unordered maps. -/
structure Restored (m m' : Manager L) : Prop where
  replies : ∀ name now op, op.Reads → (m'.call name now op).2 = (m.call name now op).2
  fields : ∀ name now key size, Option.Rel Reordered (m'.call name now (.hashMapGetAll key size)).2
    (m.call name now (.hashMapGetAll key size)).2
  expiry : ∀ name type key size, m'.expiryTime name type key size = m.expiryTime name type key size

lemma eq_of_rel {α : Type} {a b : Option α} (rel : Option.Rel (· = ·) a b) : a = b := by
  cases rel with
  | none => rfl
  | some same => rw [same]

variable {m m' : Manager L}

lemma call_snd_rel (r : Reply → Reply → Prop) (refl : ∀ reply, r reply reply)
    (pools : ∀ name, m'.getCache name = m.getCache name) {name : String} {now : UInt32} {op : Op}
    (same : ∀ actual, r ((op.call now).act actual (get actual m'.items)).2 ((op.call now).act actual (get actual m.items)).2) :
    Option.Rel r (m'.call name now op).2 (m.call name now op).2 := by
  rw [call, call, pools]
  cases m.getCache name with
  | none => exact .none
  | some pool =>
    refine .some ?_
    rw [Call.run, Call.run]
    cases getActualKey pool (op.call now : Call L).type (op.call now : Call L).key (op.call now : Call L).fieldSize with
    | none => exact refl _
    | some actual => exact same actual

lemma restored_of_similar (lawful : L.Lawful) (pools : ∀ name, m'.getCache name = m.getCache name)
    (items : ∀ actual, Similar (get actual m.items) (get actual m'.items)) : Restored m m' := by
  refine ⟨fun name now op reads => ?_, fun name now key size => ?_, fun name type key size => ?_⟩
  · exact eq_of_rel (call_snd_rel (· = ·) (fun _ => rfl) pools fun actual => reads.reply lawful now actual (items actual).symm)
  · exact call_snd_rel _ (fun _ => .inl rfl) pools fun actual => reordered_hashMapGetAll lawful now key size actual (items actual).symm
  · rw [expiryTime, expiryTime, pools]
    refine congrArg (Option.bind (m.getCache name)) (funext fun pool => ?_)
    refine congrArg (Option.bind (getActualKey pool type key size)) (funext fun actual => ?_)
    match get actual m.items, get actual m'.items, items actual with
    | none, none, _ => rfl
    | some _, some _, ⟨time, _⟩ => exact congrArg some time

lemma Sound.length_pools (sound : m.Sound) : m.pools = m.poolConfigs.length := by
  obtain ⟨a, cache, same⟩ := sound.created
  rw [pools, cache, ← same]
  rfl

lemma save_load (lawful : L.Lawful) {F : Codec ECacheBackupHeader} (faithful : ∀ header, F.Faithful header)
    (nonempty : ∀ header, header.version ≠ 0 → F.encode header ≠ []) (sound : m.Sound) (stored : m.Stored)
    (makeable : m.Makeable) (small : (F.encode m.header).length < 2 ^ 32) : ((m.save F).isSome ↔ ∀ e ∈ m.items, Full e.2.content) ∧
      ∀ file, m.save F = some file → ∃ m', new.load F file = some m' ∧ Restored m m' := by
  have storable : ∀ e ∈ m.items, Storable m.poolConfigs.length e := by
    intro e member
    exact stored.fits e.1 e.2 (get_of_mem stored.nodup member)
  obtain ⟨isSome, loads⟩ := save_load_cache lawful stored.nodup storable
  rw [save, if_neg sound.known]
  refine ⟨?_, fun file wrote => ?_⟩
  · have header : (fileWriteString (F.encode m.header)).isSome :=
      isSome_writeString.mpr (nonempty _ (show (1 : Int32) ≠ 0 by decide))
    rw [isSome_andThen, isSome, and_iff_right header]
  · obtain ⟨b1, b2, wroteHeader, wroteItems, rfl⟩ := andThen_eq_some.mp wrote
    obtain ⟨items', loaded, similar⟩ := loads b2 wroteItems
    obtain ⟨m1, started, size⟩ := makeable.init_again lawful sound
    obtain ⟨sound1, none, empty⟩ := sound_init started
    have few := sound.few
    have distinct := sound.distinct
    have rooms := makeable.rooms
    rw [← nil_append m.poolConfigs, ← none] at few distinct rooms
    obtain ⟨sound2, pools, items⟩ := newCaches_spec sound1 size few distinct fun before c after eq =>
      lawful.room _ _ _ _ (by omega) (rooms before c after eq)
    rw [none, nil_append] at pools
    have reopened : m1.reopen m.poolConfigs = m.poolConfigs.foldl (fun m c => (m.newCache c).1) m1 := by
      have mapping := sound1.mapping
      rw [none] at mapping
      rw [reopen, show ([] : List (String × UInt8)) = m1.poolIdMapping from mapping.symm]
    rw [← reopened] at sound2 pools items
    refine ⟨(m1.reopen m.poolConfigs).withItems items', ?_, restored_of_similar lawful ?_ ?_⟩
    · rw [load, show fileReadString.run (b1 ++ b2) = (.ok (F.encode m.header), b2) from reads_fileReadString small b1 wroteHeader b2]
      dsimp only
      rw [show F.decode (F.encode m.header) = some m.header from faithful _, bind_eq_bind, bind_some]
      rw [show (new.init m.header.config : Manager L × Option Int) = (m1, some 0) from started]
      show (do return (m1.reopen m.poolConfigs).withItems (← loadCache (m1.reopen m.poolConfigs).pools (m1.reopen m.poolConfigs).items b2)) = _
      rw [sound2.length_pools, pools, items, empty, loaded]
      rfl
    · intro name
      show get name (m1.reopen m.poolConfigs).poolIdMapping = get name m.poolIdMapping
      rw [sound2.mapping, pools, sound.mapping]
    · intro actual
      rw [items_withItems sound2]
      exact similar actual

end Manager

/-- A manager that is saved is loaded with all that it had just if none of its values is the empty string. -/
theorem save_load_iff (lawful : L.Lawful) {F : Codec ECacheBackupHeader} (faithful : ∀ header, F.Faithful header)
    (nonempty : ∀ header, header.version ≠ 0 → F.encode header ≠ []) {config : ECacheManagerConfig} {m : Manager L}
    (started : new.init config = (m, some 0)) (events : List Event)
    (small : (F.encode (m.run events).header).length < 2 ^ 32) :
    (∃ file m', (m.run events).save F = some file ∧ new.load F file = some m' ∧ Restored (m.run events) m') ↔
      ∀ e ∈ (m.run events).items, Full e.2.content := by
  obtain ⟨sound, -, none⟩ := sound_init started
  have stored : m.Stored := by
    refine ⟨by rw [none]; exact nodup_nil, fun actual item found => ?_⟩
    rw [none] at found
    cases found
  obtain ⟨saves, loads⟩ := save_load lawful faithful nonempty (sound.run events) (stored.run lawful sound events)
    ((makeable_init started).run sound events) small
  refine ⟨fun ⟨file, _, wrote, _⟩ => saves.mp (isSome_of_eq_some wrote), fun full => ?_⟩
  obtain ⟨file, wrote⟩ := isSome_iff_exists.mp (saves.mpr full)
  obtain ⟨m', loaded, restored⟩ := loads file wrote
  exact ⟨file, m', wrote, loaded, restored⟩

def sampleEvents (value : Bytes) : List Event := [.newCache ⟨"p", 16777216⟩, .call "p" 1 (.set [97] value 0)]

theorem empty_string_not_saved : ∃ m : Manager sampleLib, new.init sampleConfig = (m, some 0) ∧
    (m.run (sampleEvents [])).items = [([0, 1, 97], ⟨.string [], 0⟩)] ∧ ∀ F, (m.run (sampleEvents [])).save F = none := by
  refine ⟨_, started_sample, rfl, fun F => ?_⟩
  rw [Manager.save, if_neg (by decide), show saveCache _ = none from rfl]
  cases fileWriteString _ <;> rfl

section
deriving instance Countable for CacheType

deriving instance Countable for ECacheConfig

deriving instance Countable for ECacheManagerConfig

deriving instance Countable for ECacheBackupHeader

theorem save_load_iff_sample : ∃ (F : Codec ECacheBackupHeader) (m : Manager sampleLib), new.init sampleConfig = (m, some 0) ∧
    ∃ file m', (m.run (sampleEvents [98])).save F = some file ∧ new.load F file = some m' ∧
      Restored (m.run (sampleEvents [98])) m' := by
  obtain ⟨F, faithful, empty, small⟩ := Codec.exists_short (⟨0, sampleConfig, []⟩ : ECacheBackupHeader)
    ⟨1, withDefaults sampleConfig, [⟨"p", 16777216⟩]⟩
  have nonempty : ∀ header : ECacheBackupHeader, header.version ≠ 0 → F.encode header ≠ [] := fun header known none =>
    known (congrArg ECacheBackupHeader.version ((empty header).mp none))
  refine ⟨F, _, started_sample, ?_⟩
  refine (save_load_iff lawful_sampleLib faithful nonempty started_sample (sampleEvents [98]) small).mpr fun e member => ?_
  obtain rfl := mem_singleton.mp (show e ∈ [([0, 1, 97], ⟨.string [98], 0⟩)] from member)
  exact cons_ne_nil _ _

end

end Myctk.Ecache
