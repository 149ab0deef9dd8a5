import Myctk.Rdict.DictRun

/-! What a `Put` that succeeds has done, whatever the keys, the values and the load factor are. -/

namespace Myctk.Rdict
open Dict Lib

variable {K V σ π : Type}

section
variable {bs : List (Bucket π)} {b : Bucket π} {c : π} {i : Nat}

lemma mem_contents_iff : c ∈ contents bs ↔ ∃ b ∈ bs, b.distAndFingerprint ≠ 0 ∧ b.content = c := by
  rw [contents, List.mem_filterMap]
  refine exists_congr fun b => and_congr_right fun _ => ?_
  by_cases free : b.distAndFingerprint = 0 <;> simp [free]

lemma mem_contents_set (member : c ∈ contents (bs.set i b)) : c = b.content ∨ c ∈ contents bs := by
  obtain ⟨b', there, occupied, rfl⟩ := mem_contents_iff.mp member
  obtain there | rfl := List.mem_or_eq_of_mem_set there
  · exact .inr (mem_contents_iff.mpr ⟨b', there, occupied, rfl⟩)
  · exact .inl rfl

variable [Inhabited π]

lemma contentAt_mem (occupied : wordAt bs i ≠ 0) : contentAt bs i ∈ contents bs := by
  rcases Nat.lt_or_ge i bs.length with inside | outside
  · exact mem_contents.mpr ⟨i, inside, occupied, rfl⟩
  · rw [wordAt, List.getD_eq_default _ _ outside] at occupied
    exact absurd rfl occupied

lemma mem_contents_placeAndShiftUp {index : IndexMeta} {fuel : Nat} {bs' : List (Bucket π)}
    (placed : placeAndShiftUp index fuel bs b i = .ok bs') (member : c ∈ contents bs') : c = b.content ∨ c ∈ contents bs := by
  induction fuel generalizing bs b i with
  | zero => cases placed
  | succ fuel ih =>
    rw [placeAndShiftUp_succ] at placed
    split at placed
    · cases placed
      exact mem_contents_set member
    next occupied =>
      obtain ⟨word, -, later⟩ := ok_of_bind placed
      rcases ih later with rfl | there
      · exact .inr (contentAt_mem occupied)
      · exact mem_contents_set there

end

inductive Layout.Reaches (L : Layout K V σ π) (s : σ) (old : List (Bucket π)) : Nat → Prop
  | start : L.Reaches s old 0
  | next {cursor cursor' : Nat} {content : Option π} (before : L.Reaches s old cursor)
      (read : L.read s old cursor = .ok (content, cursor')) : L.Reaches s old cursor'

def Layout.Readable (L : Layout K V σ π) (s : σ) (old : List (Bucket π)) (c : π) : Prop :=
  ∃ cursor cursor', L.Reaches s old cursor ∧ L.read s old cursor = .ok (some c, cursor')

section
variable [Inhabited π] {L : Layout K V σ π} {hash : K → UInt64} {factor : LoadFactor} {d d' : Dict σ π} {b : Bucket π} {i : Nat}

/-- `d'` has the store of `d`, and in its buckets only what was there or has the property. -/
structure Dict.Gains (d : Dict σ π) (P : π → Prop) (d' : Dict σ π) : Prop where
  store : d'.store = d.store
  contents : ∀ c ∈ contents d'.buckets, c ∈ contents d.buckets ∨ P c

lemma Dict.place_gains (placed : d.place b i = .ok d') : d.Gains (· = b.content) d' := by
  obtain ⟨bs, there, same⟩ := ok_of_bind placed
  cases same
  exact ⟨rfl, fun c member => (mem_contents_placeAndShiftUp there member).symm⟩

lemma Dict.fill_gains {old : List (Bucket π)} {fuel left cursor : Nat} (reaches : L.Reaches d.store old cursor)
    (filled : fill L hash old fuel left cursor d = .ok d') : d.Gains (L.Readable d.store old) d' := by
  induction fuel generalizing d left cursor with
  | zero =>
    cases left with
    | zero =>
      cases filled
      exact ⟨rfl, fun _ => .inl⟩
    | succ left => cases filled
  | succ fuel ih =>
    cases left with
    | zero =>
      cases filled
      exact ⟨rfl, fun _ => .inl⟩
    | succ left =>
      rw [fill] at filled
      obtain ⟨⟨content, cursor'⟩, read, filled⟩ := ok_of_bind filled
      cases content with
      | none => exact ih (reaches.next read) filled
      | some content =>
        obtain ⟨⟨i, word⟩, -, filled⟩ := ok_of_bind filled
        obtain ⟨d1, placed, filled⟩ := ok_of_bind filled
        have here := place_gains placed
        have later := ih (d := d1) (by rw [here.store]; exact reaches.next read) filled
        rw [here.store] at later
        refine ⟨later.store.trans here.store, fun c member => ?_⟩
        rcases later.contents c member with there | readable
        · rcases here.contents c there with old | rfl
          · exact .inl old
          · exact .inr ⟨cursor, cursor', reaches, read⟩
        · exact .inr readable

lemma Dict.increaseSize_gains (increased : d.increaseSize L hash factor = .ok d') :
    d'.store = d.store ∧ ∀ c ∈ contents d'.buckets, L.Readable d.store d.buckets c := by
  rw [increaseSize] at increased
  split at increased
  · cases increased
  · have gains := fill_gains .start increased
    refine ⟨gains.store, fun c member => ?_⟩
    rcases gains.contents c member with there | readable
    · rw [contents_empty] at there
      cases there
    · exact readable

lemma Dict.probe_occupied [DecidableEq K] {k : K} {fuel word j : Nat} (positive : word ≠ 0)
    (found : d.probe L k fuel word i = .ok (.inl j)) : wordAt d.buckets j ≠ 0 := by
  induction fuel generalizing word i with
  | zero => cases found
  | succ fuel ih =>
    rw [probe_succ] at found
    split_ifs at found with le same
    · cases found
      rw [← same.1]
      exact positive
    · obtain ⟨word', increased, later⟩ := ok_of_bind found
      refine ih ?_ later
      have next := gives_u32 (word + kDistInc)
      rw [show u32 (word + kDistInc) = .ok word' from increased] at next
      rw [show word' = word + kDistInc from next]
      exact Nat.ne_of_gt (Nat.add_pos_right _ kDistInc_pos)
    · cases found

/-- What a `Put` has done to the store, and where the contents of its buckets come from: a new or replaced record and, if the table was
    full, what a rehash reads. -/
structure Dict.PutCases (L : Layout K V σ π) (d : Dict σ π) (k : K) (v : V) (d' : Dict σ π) (added : π) : Prop where
  store : L.newBucket d.store k v = .ok (added, d'.store) ∨
    ∃ c ∈ contents d.buckets, L.update d.store c k v = .ok (added, d'.store)
  contents : ∀ c ∈ contents d'.buckets, c ∈ contents d.buckets ∨ c = added ∨ L.Readable d'.store d.buckets c

lemma Dict.put_cases [DecidableEq K] {k : K} {v : V} (put : d.put L hash factor k v = .ok d') :
    ∃ added, d.PutCases L k v d' added := by
  obtain ⟨found, searched, put⟩ := ok_of_bind put
  cases found with
  | inl i =>
    obtain ⟨⟨added, s⟩, updated, same⟩ := ok_of_bind put
    cases same
    have positive : distAndFingerprintFromHash (hash k) ≠ 0 := by
      rw [distAndFingerprint_eq]
      exact word_ne_zero _ _
    have occupied := probe_occupied positive searched
    refine ⟨added, .inr ⟨_, contentAt_mem occupied, updated⟩, fun c member => ?_⟩
    rcases mem_contents_set member with rfl | there
    · exact .inr (.inl rfl)
    · exact .inl there
  | inr place =>
    obtain ⟨word, i⟩ := place
    obtain ⟨⟨added, s⟩, new, put⟩ := ok_of_bind put
    refine ⟨added, ?_⟩
    dsimp only at put
    split at put
    · obtain ⟨d1, increased, put⟩ := ok_of_bind put
      obtain ⟨⟨i', word'⟩, -, put⟩ := ok_of_bind put
      obtain ⟨d2, placed, same⟩ := ok_of_bind put
      cases same
      obtain ⟨store1, readable⟩ := increaseSize_gains increased
      have here := place_gains placed
      have store : d2.store = s := here.store.trans store1
      refine ⟨.inl ?_, fun c member => ?_⟩
      · show L.newBucket d.store k v = .ok (added, d2.store)
        rw [store]
        exact new
      · show _ ∨ _ ∨ L.Readable d2.store d.buckets c
        rw [store]
        rcases here.contents c member with there | rfl
        · exact .inr (.inr (readable c there))
        · exact .inr (.inl rfl)
    · obtain ⟨d2, placed, same⟩ := ok_of_bind put
      cases same
      have here := place_gains placed
      refine ⟨.inl ?_, fun c member => ?_⟩
      · show L.newBucket d.store k v = .ok (added, d2.store)
        rw [here.store]
        exact new
      · rcases here.contents c member with there | rfl
        · exact .inl there
        · exact .inr (.inl rfl)

end

/-! The walk over the records of a data file, as a rehash makes it. -/

open Rec List KeyValPair MmapFile

def offsets : Nat → List Nat → List Nat
  | _, [] => []
  | o, n :: ns => o :: offsets (o + n) ns

lemma starts_true {ρ : Type} (encode : ρ → Bytes) (o : Nat) (recs : List ρ) :
    starts encode (fun _ => true) o recs = offsets o (recs.map fun r => (encode r).length) := by
  induction recs generalizing o with
  | nil => rfl
  | cons r recs ih => rw [starts, if_pos rfl, ih, map_cons, offsets]

section
variable (K V : Type) [Serializer K] [Serializer V]

def walkLog (data : Bytes) : Nat → Nat → List Nat × Nat
  | 0, offset => ([], offset)
  | fuel + 1, offset =>
    if data.length ≤ offset then ([], offset)
    else
      let (later, last) := walkLog data fuel (offset + getKeyValuePackSize K V (data.drop offset))
      (offset :: later, last)

def validAt (data : Bytes) (offsets : List Nat) : List Nat :=
  offsets.filter fun o => !getFlags K V (data.drop o)

structure LogWalks (records : List Nat) (d : Dict MmapFile Nat) : Prop where
  walk : walkLog K V d.store.data (d.store.data.length + 1) 0 = (records, d.store.data.length)
  keys : ((validAt K V d.store.data records).map ((recordLog K V).getKey d.store)).Nodup
  size : (validAt K V d.store.data records).length = d.index.size
  buckets : (validAt K V d.store.data records).Perm (contents d.buckets)

end

variable {K V : Type} [Serializer K] [Serializer V]

def lengths (recs : List (Rec K V)) : List Nat := recs.map fun r => r.bytes.length

lemma lengths_cons (r : Rec K V) (recs : List (Rec K V)) : lengths (r :: recs) = r.bytes.length :: lengths recs := rfl

section
variable {data : Bytes} {recs : List (Rec K V)}

lemma walkLog_end {fuel offset : Nat} (outside : data.length ≤ offset) : walkLog K V data fuel offset = ([], offset) := by
  cases fuel with
  | zero => rfl
  | succ fuel => rw [walkLog, if_pos outside]

lemma walkLog_records (before after : List (Rec K V)) (fuel : Nat) {extra : Bytes}
    (all : data = (before ++ after).flatMap bytes ++ extra) : walkLog K V data (after.length + fuel) (before.flatMap bytes).length =
      (offsets (before.flatMap bytes).length (lengths after) ++ (walkLog K V data fuel ((before ++ after).flatMap bytes).length).1,
        (walkLog K V data fuel ((before ++ after).flatMap bytes).length).2) := by
  induction after generalizing before with
  | nil => rw [append_nil, length_nil, zero_add]; rfl
  | cons r after ih =>
    have later := ih (before ++ [r]) (by rw [all, append_assoc, singleton_append])
    rw [append_assoc, singleton_append] at later
    have len : ((before ++ [r]).flatMap bytes).length = (before.flatMap bytes).length + r.bytes.length := by
      rw [flatMap_append, length_append, flatMap_singleton]
    obtain ⟨⟨rest, here⟩, inside⟩ := drop_record all
    rw [length_cons, add_right_comm, walkLog, if_neg inside, here, r.getKeyValuePackSize_bytes, ← len, later, len]
    rfl

lemma walkLog_whole (all : data = recs.flatMap bytes) :
    walkLog K V data (data.length + 1) 0 = (offsets 0 (lengths recs), data.length) := by
  have enough : recs.length ≤ data.length := all ▸ length_le_bytes recs
  obtain ⟨fuel, eq⟩ : ∃ fuel, data.length + 1 = recs.length + fuel := ⟨data.length + 1 - recs.length, by omega⟩
  have all' : data = ([] ++ recs).flatMap bytes ++ [] := by
    rw [nil_append, append_nil]
    exact all
  have walk := walkLog_records [] recs fuel all'
  rw [← eq, nil_append, ← all, walkLog_end le_rfl, append_nil] at walk
  exact walk

lemma starts_valid (before after : List (Rec K V)) (all : data = (before ++ after).flatMap bytes) :
    starts bytes (fun r => !r.invalid) (before.flatMap bytes).length after =
      validAt K V data (offsets (before.flatMap bytes).length (lengths after)) := by
  induction after generalizing before with
  | nil => rfl
  | cons r after ih =>
    have later := ih (before ++ [r]) (by rw [all, append_assoc, singleton_append])
    rw [flatMap_append, length_append, flatMap_singleton] at later
    obtain ⟨⟨rest, here⟩, -⟩ := drop_record (all.trans (append_nil _).symm)
    rw [starts, later, lengths_cons, offsets]
    simp only [validAt, filter_cons, here, r.getFlags_bytes]

lemma live_eq (all : data = recs.flatMap bytes) : live recs = validAt K V data (offsets 0 (lengths recs)) :=
  starts_valid [] recs all

lemma exists_record {o : Nat} (member : o ∈ offsets 0 (lengths recs)) :
    ∃ before r after, recs = before ++ r :: after ∧ o = (before.flatMap bytes).length := by
  rw [lengths, ← starts_true] at member
  obtain ⟨before, r, after, rfl, -, rfl⟩ := startsAt_of_mem member
  exact ⟨before, r, after, rfl, zero_add _⟩

lemma setFlags_record {before after : List (Rec K V)} {r : Rec K V} {extra : Bytes}
    (all : data = (before ++ r :: after).flatMap bytes ++ extra) : data.take (before.flatMap bytes).length ++
        setFlags K V (data.drop (before.flatMap bytes).length) true =
      (before ++ { r with invalid := true } :: after).flatMap bytes ++ extra := by
  have split : data = before.flatMap bytes ++ (r.bytes ++ (after.flatMap bytes ++ extra)) := by
    rw [all, flatMap_append, flatMap_cons, append_assoc, append_assoc]
  rw [split, take_left, drop_left, r.setFlags_bytes, flatMap_append, flatMap_cons, append_assoc,
    append_assoc]

lemma lengths_marked (before after : List (Rec K V)) (r : Rec K V) :
    lengths (before ++ { r with invalid := true } :: after) = lengths (before ++ r :: after) := by
  have same : (bytes { r with invalid := true }).length = r.bytes.length := by
    rw [length_bytes, length_bytes]
    rfl
  simp only [lengths, map_append, map_cons, same]

end

lemma add_of_ok {f f' : MmapFile} {bytes : Bytes} {o : Nat} (added : f.add bytes = .ok (o, f')) :
    o = f.data.length ∧ f'.data = f.data ++ bytes ∧ f'.data.length ≤ f'.capacity := by
  rw [add] at added
  split at added
  · cases added
  dsimp only at added
  split at added
  · obtain ⟨f1, extended, same⟩ := ok_of_bind added
    cases same
    rw [extendBuffer] at extended
    split at extended
    · cases extended
    · cases extended
      refine ⟨rfl, rfl, ?_⟩
      have := Nat.lt_div_mul_add (a := f.data.length + bytes.length - f.capacity) (b := kSegmentSize) (by decide)
      simp only [length_append, Nat.add_div_right _ (show 0 < kSegmentSize by decide), Nat.succ_mul]
      omega
  next fits =>
    cases added
    exact ⟨rfl, rfl, by simpa using fits⟩

section
variable {hash : K → UInt64} {factor : LoadFactor} {d d' : Dict MmapFile Nat} {lens : List Nat} {k : K} {v : V}

structure Logged (K V : Type) [Serializer K] [Serializer V] (hash : K → UInt64) (lens : List Nat) (d : Dict MmapFile Nat) : Prop where
  tidy : d.Tidy (recordLog K V) hash (LogHolds K V)
  laid : d.index.Laid
  records : ∃ recs : List (Rec K V), d.store.data = recs.flatMap Rec.bytes ∧ lengths recs = lens

section
variable (logged : Logged K V hash lens d)
include logged

lemma Logged.perm : (validAt K V d.store.data (offsets 0 lens)).Perm (contents d.buckets) := by
  obtain ⟨recs, data, rfl⟩ := logged.records
  obtain ⟨-, recs', data', perm⟩ := logged.tidy.holds
  have same : offsets 0 (lengths recs') = offsets 0 (lengths recs) :=
    congrArg Prod.fst ((walkLog_whole data').symm.trans (walkLog_whole data))
  rwa [live_eq data', same] at perm

lemma Logged.mem_offsets {c : Nat} (member : c ∈ contents d.buckets) : c ∈ offsets 0 lens :=
  mem_of_mem_filter (logged.perm.mem_iff.mpr member)

lemma Logged.logWalks : LogWalks K V (offsets 0 lens) d := by
  obtain ⟨recs, data, same⟩ := logged.records
  have perm := logged.perm
  refine ⟨same ▸ walkLog_whole data, ?_, ?_, perm⟩
  · rw [(perm.map _).nodup_iff]
    exact logged.tidy.keys
  · rw [perm.length_eq, logged.tidy.size]

lemma Logged.put [DecidableEq K] (put : d.put (recordLog K V) hash factor k v = .ok d') :
    Logged K V hash (lens ++ [(pack k v).length]) d' := by
  have gives : Gives (fun _ => True) (fun d' => d.PutsTidily (recordLog K V) hash (LogHolds K V) k v d' ∧ d.Regrown factor d')
      (d.put (recordLog K V) hash factor k v) :=
    put_gives trivial (fun _ _ _ _ => trivial) (.inl fun _ => trivial) recordLog_lawful logged.tidy logged.laid k v
  rw [put] at gives
  obtain ⟨⟨tidy, -⟩, regrown⟩ := gives
  obtain ⟨recs, data, rfl⟩ := logged.records
  obtain ⟨added, cases⟩ := put_cases put
  refine ⟨tidy, regrown.laid logged.laid, ?_⟩
  have new (recs : List (Rec K V)) : lengths (recs ++ [⟨k, v, false⟩]) = lengths recs ++ [(pack k v).length] := by
    rw [pack_eq, lengths, map_append]
    rfl
  rcases cases.store with fresh | ⟨c, member, updated⟩
  · refine ⟨recs ++ [⟨k, v, false⟩], ?_, new recs⟩
    rw [(add_of_ok fresh).2.1, data, pack_eq, flatMap_append, flatMap_singleton]
  · obtain ⟨before, r, after, rfl, rfl⟩ := exists_record (logged.mem_offsets member)
    obtain ⟨⟨o, f⟩, appended, same⟩ := ok_of_bind updated
    refine ⟨before ++ { r with invalid := true } :: after ++ [⟨k, v, false⟩], ?_, ?_⟩
    · have all : f.data = (before ++ r :: after).flatMap bytes ++ pack k v := by
        rw [(add_of_ok appended).2.1, data]
      rw [← (Prod.mk.inj (Except.ok.inj same)).2, flatMap_append, flatMap_singleton, ← pack_eq]
      exact setFlags_record all
    · rw [new, lengths_marked]

lemma Logged.putAll [DecidableEq K] {puts : List (K × V)} (run : d.putAll (recordLog K V) hash factor puts = .ok d') :
    Logged K V hash (lens ++ puts.map fun put => (pack put.1 put.2).length) d' := by
  induction puts generalizing d lens with
  | nil =>
    cases run
    rw [map_nil, append_nil]
    exact logged
  | cons put puts ih =>
    rw [putAll, foldlM_cons] at run
    obtain ⟨d1, first, later⟩ := ok_of_bind run
    have := ih (logged.put first) later
    rwa [append_assoc] at this

end

lemma one_le_newShifts (factor : LoadFactor) (bucketCount : Nat) : 1 ≤ newShifts factor bucketCount := by
  rw [newShifts]
  split
  · decide
  next some => exact Nat.one_le_iff_ne_zero.mpr fun none => some (.inr none)

lemma logged_new (hash : K → UInt64) (factor : LoadFactor) (bucketCount reservedSpaceBytes : Nat) :
    Logged K V hash [] (new factor bucketCount (create reservedSpaceBytes)) := by
  have range : 1 ≤ newShifts factor bucketCount ∧ newShifts factor bucketCount ≤ initialShifts :=
    ⟨one_le_newShifts _ _, newShifts_le _ _⟩
  have none : contents (new factor bucketCount (create reservedSpaceBytes) : Dict MmapFile Nat).buckets = [] :=
    contents_empty _
  refine ⟨⟨arranged_empty range.1 range.2 _ 0, ?_, ?_, ?_⟩, laid_allocateBuckets range 0, [], rfl, rfl⟩
  · rw [none]
    rfl
  · rw [none]
    exact ⟨rfl, [], rfl, .refl _⟩
  · rw [none]
    exact nodup_nil

end

end Myctk.Rdict
