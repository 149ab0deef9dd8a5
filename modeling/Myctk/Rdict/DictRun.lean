import Myctk.Lib.Records
import Myctk.Rdict.Table

/-! The two layouts do what a dictionary needs. -/

namespace Myctk.Rdict
open KeyValPair List Lib Nat

variable {K V : Type}

lemma flat_reads (s : Unit) (before after : List (Bucket (K × V))) :
    (flat K V).Reads s (before ++ after) after.length before.length (contents after) := by
  induction after generalizing before with
  | nil => exact .done
  | cons bucket after ih =>
    have later := ih (before ++ [bucket])
    rw [append_assoc, length_append, length_singleton] at later
    have here : (before ++ bucket :: after)[before.length]? = some bucket := by simp
    by_cases free : bucket.distAndFingerprint = 0
    · have none : contents (bucket :: after) = contents after := by simp [contents, free]
      rw [none]
      exact .skip (by simp only [flat, here, free, if_true]) later
    · have some : contents (bucket :: after) = bucket.content :: contents after := by simp [contents, free]
      rw [some]
      exact .value (by simp only [flat, here, free, if_false]) later

lemma flat_lawful : (flat K V).Lawful fun _ _ => True where
  perm _ _ := trivial
  lists _ old perm := ⟨contents old, perm, flat_reads () [] old⟩
  newBucket _ _ _ := ⟨rfl, rfl, fun _ _ => ⟨rfl, rfl⟩, trivial, fun old perm => ⟨contents old, perm, flat_reads () [] old⟩⟩
  update _ _ := ⟨rfl, rfl, fun _ _ => ⟨rfl, rfl⟩, trivial⟩

structure Rec (K V : Type) where
  key : K
  value : V
  invalid : Bool

variable [Serializer K] [Serializer V]

namespace Rec

def len (r : Rec K V) : Nat := (Serializer.pack r.key).length + (Serializer.pack r.value).length

def bytes (r : Rec K V) : Bytes :=
  Serializer.pack r.key ++ (Serializer.pack r.value ++
    ((if r.invalid then 1 else 0) :: List.replicate (KeyValPair.allignLen r.len - r.len - 1) 0))

lemma lt_allignLen (n : Nat) : n < allignLen n := by
  rw [allignLen]
  omega

lemma length_bytes (r : Rec K V) : r.bytes.length = allignLen r.len := by
  have lt := lt_allignLen r.len
  simp only [bytes, length_append, length_cons, length_replicate]
  rw [← add_assoc, ← len]
  omega

lemma pack_eq (k : K) (v : V) : pack k v = bytes ⟨k, v, false⟩ := by
  have lt := lt_allignLen (Rec.len ⟨k, v, false⟩)
  have length : (Serializer.pack k ++ Serializer.pack v).length = Rec.len ⟨k, v, false⟩ := length_append
  obtain ⟨n, pad⟩ : ∃ n, allignLen (Rec.len ⟨k, v, false⟩) - Rec.len ⟨k, v, false⟩ = n + 1 :=
    ⟨_, (Nat.sub_add_cancel (by omega)).symm⟩
  simp only [pack, length, bytes, pad, replicate_succ, append_assoc]
  rfl

variable (r : Rec K V) (rest : Bytes)

lemma bytes_append : r.bytes ++ rest = Serializer.pack r.key ++ (Serializer.pack r.value ++
    ((if r.invalid then 1 else 0) :: (replicate (allignLen r.len - r.len - 1) 0 ++ rest))) := by
  simp [bytes, cons_append]

lemma unpackKey_bytes : unpackKey K (r.bytes ++ rest) = r.key := by
  rw [unpackKey, bytes_append, Serializer.unpack_pack]

lemma unpack_bytes : (unpack K V (r.bytes ++ rest)).2.1 = r.value := by
  simp only [unpack, bytes_append, Serializer.unpack_pack, drop_left]

lemma flagsAt_bytes : flagsAt K V (r.bytes ++ rest) = r.len := by
  simp only [flagsAt, bytes_append, Serializer.getSize_pack, drop_left]
  rfl

lemma getKeyValuePackSize_bytes : getKeyValuePackSize K V (r.bytes ++ rest) = r.bytes.length := by
  rw [getKeyValuePackSize, flagsAt_bytes, length_bytes]

lemma getFlags_bytes : getFlags K V (r.bytes ++ rest) = r.invalid := by
  rw [getFlags, flagsAt_bytes, bytes_append, ← append_assoc]
  have at' : r.len = (Serializer.pack r.key ++ Serializer.pack r.value).length := length_append.symm
  rw [at', getD_eq_getElem?_getD, getElem?_append_right le_rfl, Nat.sub_self]
  cases r.invalid <;> rfl

lemma setFlags_bytes (invalid : Bool) : setFlags K V (r.bytes ++ rest) invalid = bytes { r with invalid } ++ rest := by
  have set : ∀ (tail : Bytes) (x : UInt8), (Serializer.pack r.key ++ Serializer.pack r.value ++ tail).set r.len x =
      Serializer.pack r.key ++ Serializer.pack r.value ++ tail.set 0 x := by
    intro tail x
    rw [len, ← length_append, set_append_right _ _ le_rfl, Nat.sub_self]
  rw [setFlags, flagsAt_bytes, bytes_append, bytes_append, ← append_assoc, set, set_cons_zero,
    append_assoc]
  rfl

end Rec

def live (recs : List (Rec K V)) : List Nat := starts Rec.bytes (fun r => !r.invalid) 0 recs

def LogHolds (K V : Type) [Serializer K] [Serializer V] (f : MmapFile) (cs : List Nat) : Prop :=
  f.readonly = false ∧ ∃ recs : List (Rec K V), f.data = recs.flatMap Rec.bytes ∧ (live recs).Perm cs

section
variable {f f' : MmapFile} {recs recs' : List (Rec K V)} {o : Nat} {r : Rec K V}

section
variable (data : f.data = recs.flatMap Rec.bytes)
include data

lemma getKey_of_startsAt (there : StartsAt Rec.bytes recs o r) : (recordLog K V).getKey f o = r.key := by
  obtain ⟨rest, eq⟩ := there.drop
  rw [← data] at eq
  show unpackKey K (f.data.drop o) = r.key
  rw [eq, r.unpackKey_bytes]

lemma getValue_of_startsAt (there : StartsAt Rec.bytes recs o r) : (recordLog K V).getValue f o = r.value := by
  obtain ⟨rest, eq⟩ := there.drop
  rw [← data] at eq
  show (unpack K V (f.data.drop o)).2.1 = r.value
  rw [eq, r.unpack_bytes]

lemma log_keeps {cs : List Nat} (data' : f'.data = recs'.flatMap Rec.bytes)
    (same : ∀ o ∈ cs, ∃ r, StartsAt Rec.bytes recs o r ∧ StartsAt Rec.bytes recs' o r) : (recordLog K V).Keeps cs f f' := by
  intro o member
  obtain ⟨r, before, after⟩ := same o member
  rw [getKey_of_startsAt data before, getKey_of_startsAt data' after, getValue_of_startsAt data before,
    getValue_of_startsAt data' after]
  exact ⟨rfl, rfl⟩

end

lemma drop_record {data extra : Bytes} {before after : List (Rec K V)}
    (all : data = (before ++ r :: after).flatMap Rec.bytes ++ extra) :
    (∃ rest, data.drop (before.flatMap Rec.bytes).length = r.bytes ++ rest) ∧ ¬ data.length ≤ (before.flatMap Rec.bytes).length := by
  have here : data.drop (before.flatMap Rec.bytes).length = r.bytes ++ (after.flatMap Rec.bytes ++ extra) := by
    rw [all, flatMap_append, flatMap_cons, append_assoc, drop_left, append_assoc]
  refine ⟨⟨_, here⟩, ?_⟩
  have := Rec.lt_allignLen r.len
  have length := congrArg length here
  rw [length_drop, length_append, r.length_bytes] at length
  omega

lemma log_reads (before : List (Rec K V)) {after : List (Rec K V)} {extra : Bytes}
    (data : f.data = (before ++ after).flatMap Rec.bytes ++ extra) {n : Nat} (enough : after.length ≤ n) (old : List (Bucket Nat)) :
    (recordLog K V).Reads f old n (before.flatMap Rec.bytes).length
      (starts Rec.bytes (fun r => !r.invalid) (before.flatMap Rec.bytes).length after) := by
  induction after generalizing before n with
  | nil => exact .done
  | cons r after ih =>
    obtain ⟨n, rfl⟩ : ∃ m, n = m + 1 := ⟨n - 1, by rw [length_cons] at enough; omega⟩
    have later := ih (before ++ [r]) (by rw [data, append_assoc, singleton_append])
      (le_of_succ_le_succ enough)
    have len : ((before ++ [r]).flatMap Rec.bytes).length = (before.flatMap Rec.bytes).length + r.bytes.length := by
      rw [flatMap_append, length_append, flatMap_singleton]
    rw [len] at later
    obtain ⟨⟨rest, here⟩, inside⟩ := drop_record data
    have read : (recordLog K V).read f old (before.flatMap Rec.bytes).length =
        .ok (if r.invalid then none else some (before.flatMap Rec.bytes).length,
          (before.flatMap Rec.bytes).length + r.bytes.length) := by
      show (if f.data.length ≤ _ then _ else _) = _
      rw [if_neg inside, here, r.getFlags_bytes, r.getKeyValuePackSize_bytes]
    rw [starts]
    cases invalid : r.invalid with
    | true =>
      rw [invalid] at read
      exact .skip read later
    | false =>
      rw [invalid] at read
      exact .value read later

end

section
variable {f : MmapFile}

omit [Serializer K] [Serializer V] in
lemma extendBuffer_spec (f : MmapFile) (len : Nat) :
    Gives (· = .reserved) (fun f' => f'.data = f.data ∧ f'.readonly = f.readonly) (f.extendBuffer len) := by
  show Gives _ _ (if _ then _ else _)
  split
  · rfl
  · exact ⟨rfl, rfl⟩

lemma add_spec (writable : f.readonly = false) (bytes : Bytes) :
    Gives (· = .reserved) (fun (o, f') => o = f.data.length ∧ f'.data = f.data ++ bytes ∧ f'.readonly = false) (f.add bytes) := by
  rw [MmapFile.add, writable, if_neg Bool.false_ne_true]
  show Gives _ _ (ite _ _ _)
  split
  · refine (extendBuffer_spec f _).bind fun f' ⟨data, readonly⟩ => ⟨rfl, ?_, readonly.trans writable⟩
    rw [← data]
  · exact ⟨rfl, rfl, writable⟩

end

section
variable {recs : List (Rec K V)}

lemma live_append (recs recs' : List (Rec K V)) :
    live (recs ++ recs') = live recs ++ starts Rec.bytes (fun r => !r.invalid) (recs.flatMap Rec.bytes).length recs' := by
  rw [live, starts_append, zero_add, live]

lemma startsAt_of_mem_live {o : Nat} (member : o ∈ live recs) : ∃ r, StartsAt Rec.bytes recs o r := by
  obtain ⟨before, r, after, eq, -, rfl⟩ := startsAt_of_mem member
  exact ⟨r, before, after, eq, zero_add _⟩

lemma length_le_bytes (recs : List (Rec K V)) : recs.length ≤ (recs.flatMap Rec.bytes).length := by
  induction recs with
  | nil => exact le_refl 0
  | cons r recs ih =>
    have := Rec.lt_allignLen r.len
    rw [flatMap_cons, length_append, r.length_bytes, length_cons]
    omega

lemma log_lists {f : MmapFile} {cs : List Nat} {extra : Bytes} (data : f.data = recs.flatMap Rec.bytes ++ extra)
    (perm : (live recs).Perm cs) : (recordLog K V).Lists f cs := by
  intro old _
  have enough : recs.length ≤ f.data.length := by
    rw [data, length_append]
    exact le_trans (length_le_bytes recs) (le_add_right _ _)
  exact ⟨live recs, perm, log_reads [] data enough old⟩

end

lemma recordLog_lawful : (recordLog K V).Lawful (LogHolds K V) where
  perm := by
    rintro f cs cs' ⟨writable, recs, data, live⟩ perm
    exact ⟨writable, recs, data, live.trans perm⟩
  lists := by
    rintro f cs ⟨-, recs, data, perm⟩
    exact log_lists (by rw [data, append_nil]) perm
  newBucket := by
    rintro f cs k v ⟨writable, recs, data, perm⟩
    refine (add_spec writable _).mono ?_
    rintro ⟨o, f'⟩ ⟨rfl, data', writable'⟩
    rw [Rec.pack_eq] at data'
    let new : Rec K V := ⟨k, v, false⟩
    have all : f'.data = (recs ++ [new]).flatMap Rec.bytes := by
      rw [data', data, flatMap_append, flatMap_singleton]
    have here : StartsAt Rec.bytes (recs ++ [new]) f.data.length new := ⟨recs, [], rfl, by rw [data]⟩
    refine ⟨getKey_of_startsAt all here, getValue_of_startsAt all here, ?_, ⟨writable', _, all, ?_⟩, ?_⟩
    · refine log_keeps data all fun o member => ?_
      obtain ⟨r, there⟩ := startsAt_of_mem_live (perm.mem_iff.mpr member)
      exact ⟨r, there, there.append _⟩
    · rw [live_append, ← data]
      exact (perm_append_singleton _ _).trans (perm.cons _)
    · exact log_lists (by rw [data', data]) perm
  update := by
    rintro f cs o v ⟨writable, recs, data, perm⟩
    obtain ⟨before, r, after, rfl, valid, eq⟩ := startsAt_of_mem (perm.mem_iff.mpr mem_cons_self)
    rw [zero_add] at eq
    have key := getKey_of_startsAt data ⟨before, after, rfl, eq⟩
    let new : Rec K V := ⟨r.key, v, false⟩
    let stale : Rec K V := { r with invalid := true }
    have len : stale.bytes.length = r.bytes.length := by rw [stale.length_bytes, r.length_bytes]; rfl
    have left : (live (before ++ stale :: after)).Perm cs := by
      have both := (starts_replace len valid rfl).symm.trans perm
      rw [zero_add, ← eq] at both
      exact (perm_cons o).mp both
    rw [key]
    refine (add_spec writable _).bind ?_
    rintro ⟨added, f1⟩ ⟨rfl, data1, writable1⟩
    rw [Rec.pack_eq] at data1
    have split : f1.data = before.flatMap Rec.bytes ++ (r.bytes ++ (after ++ [new]).flatMap Rec.bytes) := by
      simp only [data1, data, flatMap_append, flatMap_cons, append_assoc, flatMap_nil, append_nil]
      rfl
    let f2 : MmapFile := { f1 with data := f1.data.take o ++ setFlags K V (f1.data.drop o) true }
    have all : f2.data = (before ++ stale :: after ++ [new]).flatMap Rec.bytes := by
      show f1.data.take o ++ setFlags K V (f1.data.drop o) true = _
      rw [split, eq, take_left, drop_left, r.setFlags_bytes]
      simp [flatMap_append, flatMap_cons, stale]
    have last : f.data.length = ((before ++ stale :: after).flatMap Rec.bytes).length := by
      rw [data]
      simp only [flatMap_append, flatMap_cons, length_append, len]
    have here : StartsAt Rec.bytes (before ++ stale :: after ++ [new]) f.data.length new :=
      ⟨before ++ stale :: after, [], rfl, last⟩
    refine ⟨(getKey_of_startsAt all here : _ = new.key), getValue_of_startsAt all here, ?_, writable1, _, all, ?_⟩
    · refine log_keeps data all fun x member => ?_
      obtain ⟨q, old, there⟩ := startsAt_replace len rfl (left.mem_iff.mpr member)
      exact ⟨q, old, there.append _⟩
    · rw [live_append, ← last]
      exact (perm_append_singleton _ _).trans (left.cons _)

/-! Runs of `Put` on a dictionary: it is the map of the last values, across all rehashes. -/

open Dict MmapFile

variable {K V σ π : Type} [Inhabited π] [DecidableEq K]

/-- Puts one after the other, up to the first that fails. -/
def Dict.putAll [Words] (L : Layout K V σ π) (hash : K → UInt64) (factor : LoadFactor) (d : Dict σ π) (puts : List (K × V)) :
    Except Fault (Dict σ π) :=
  puts.foldlM (fun d put => d.put L hash factor put.1 put.2) d

def afterPuts (m : K → Option V) (puts : List (K × V)) (k : K) : Option V :=
  puts.foldl (fun found put => if put.1 = k then some put.2 else found) (m k)

def lastPut (puts : List (K × V)) : K → Option V := afterPuts (fun _ => none) puts

def Dict.Represents (L : Layout K V σ π) (d : Dict σ π) (m : K → Option V) : Prop :=
  ∀ k v, (k, v) ∈ d.entries L ↔ m k = some v

section
variable {L : Layout K V σ π} {hash : K → UInt64} {factor : LoadFactor} {Holds : σ → List π → Prop} {d : Dict σ π}
  {m : K → Option V} {k : K} {v : V}

omit [Inhabited π] [DecidableEq K] in
lemma Dict.Represents.eq_none (represents : d.Represents L m) (absent : ∀ c ∈ contents d.buckets, L.getKey d.store c ≠ k) :
    m k = none := by
  cases present : m k with
  | none => rfl
  | some v =>
    obtain ⟨c, member, same, -⟩ := mem_entries.mp ((represents k v).mpr present)
    exact absurd same (absent c member)

lemma Dict.get_spec (arranged : d.Arranged L hash) (represents : d.Represents L m) (k : K) :
    Gives (· = .overflow) (· = m k) (d.get L hash k) := by
  refine ((search_spec arranged k).weaken fun _ far => far.1).bind ?_
  rintro (i | ⟨word, i⟩) found
  · obtain ⟨lt, occupied, here⟩ := found
    exact ((represents k _).mp (mem_entries.mpr ⟨_, mem_contents.mpr ⟨i, lt, occupied, rfl⟩, here, rfl⟩)).symm
  · exact (represents.eq_none found.1).symm

lemma Dict.exist_spec (arranged : d.Arranged L hash) (represents : d.Represents L m) (k : K) :
    Gives (· = .overflow) (· = (m k).isSome) (d.exist L hash k) := by
  refine ((search_spec arranged k).weaken fun _ far => far.1).bind ?_
  rintro (i | ⟨word, i⟩) found
  · obtain ⟨lt, occupied, here⟩ := found
    have present := (represents k _).mp (mem_entries.mpr ⟨_, mem_contents.mpr ⟨i, lt, occupied, rfl⟩, here, rfl⟩)
    rw [present]
    rfl
  · show false = (m k).isSome
    rw [represents.eq_none found.1]
    rfl

lemma Dict.Puts.represents {d' : Dict σ π} (puts : d.Puts L hash Holds k v d') (represents : d.Represents L m) :
    d'.Represents L (afterPuts m [(k, v)]) := by
  intro k' v'
  rw [puts.entries.mem_iff, mem_cons, mem_filter, represents k' v']
  show _ ↔ (if k = k' then some v else m k') = some v'
  rcases eq_or_ne k k' with rfl | other
  · simp [eq_comm]
  · simp [other, other.symm]

/-- The buckets number less than `2 ^ 32` from the start to the end. -/
def Dict.StaysSmall (L : Layout K V σ π) (hash : K → UInt64) (factor : LoadFactor) (d : Dict σ π) (puts : List (K × V)) : Prop :=
  ∀ n d', d.putAll L hash factor (puts.take n) = .ok d' → d'.index.numBuckets < 2 ^ 32

lemma Dict.StaysSmall.nil (small : d.index.numBuckets < 2 ^ 32) : d.StaysSmall L hash factor [] := by
  intro n d' run
  rw [take_nil] at run
  cases run
  exact small

lemma Dict.StaysSmall.cons {d1 : Dict σ π} {puts : List (K × V)} (small : d.index.numBuckets < 2 ^ 32)
    (run : d.put L hash factor k v = .ok d1) (later : d1.StaysSmall L hash factor puts) :
    d.StaysSmall L hash factor ((k, v) :: puts) := by
  rintro (_ | n) d' done
  · cases done
    exact small
  · rw [putAll, take_succ_cons, foldlM_cons, run] at done
    exact later n d' done

/-- The table comes to more than `2 ^ 22` buckets. -/
def Dict.Grows (L : Layout K V σ π) (hash : K → UInt64) (factor : LoadFactor) (d : Dict σ π) (puts : List (K × V)) : Prop :=
  ∃ n d', d.putAll L hash factor (puts.take n) = .ok d' ∧ 2 ^ 22 < d'.index.numBuckets

/-- The data fits its reserved space, and no probe comes to a distance of `2 ^ 24`, which can only happen in large tables. -/
def Dict.Bounded (L : Layout K V σ π) (hash : K → UInt64) (factor : LoadFactor) (d : Dict σ π) (puts : List (K × V)) : Prop :=
  d.putAll L hash factor puts ≠ .error .reserved ∧
    (d.Grows L hash factor puts → d.putAll L hash factor puts ≠ .error .overflow)

lemma Dict.putAll_spec (lawful : L.Lawful Holds) (below : factor.num < 2 ^ factor.exp) (puts : List (K × V))
    (inv : d.Inv L hash Holds) (represents : d.Represents L m) (small : d.StaysSmall L hash factor puts) :
    Gives (fun f => f = .reserved ∨ f = .overflow ∧ d.Grows L hash factor puts)
      (fun d' => d'.Inv L hash Holds ∧ d'.Represents L (afterPuts m puts)) (d.putAll L hash factor puts) := by
  induction puts generalizing d m with
  | nil => exact ⟨inv, represents⟩
  | cons put puts ih =>
    have first := put_spec lawful below inv (inv.shifts_of_small (small 0 d rfl)) put.1 put.2
    rw [putAll, foldlM_cons]
    cases run : d.put L hash factor put.1 put.2 with
    | error fault =>
      rw [run] at first
      exact first.imp_right fun far => ⟨far.1, 0, d, rfl, far.2⟩
    | ok d1 =>
      rw [run] at first
      have later : ∀ n, d.putAll L hash factor ((put :: puts).take (n + 1)) = d1.putAll L hash factor (puts.take n) := by
        intro n
        rw [putAll, take_succ_cons, foldlM_cons, run]
        rfl
      refine (ih first.inv (first.represents represents) fun n d' done => small (n + 1) d' (later n ▸ done)).weaken fun f => ?_
      exact Or.imp_right fun ⟨same, n, d', done, wide⟩ => ⟨same, n + 1, d', later n ▸ done, wide⟩

lemma Dict.putAll_ok (lawful : L.Lawful Holds) (below : factor.num < 2 ^ factor.exp) {puts : List (K × V)}
    (inv : d.Inv L hash Holds) (represents : d.Represents L m) (small : d.StaysSmall L hash factor puts)
    (bounded : d.Bounded L hash factor puts) :
    ∃ d', d.putAll L hash factor puts = .ok d' ∧ d'.Inv L hash Holds ∧ d'.Represents L (afterPuts m puts) := by
  have spec := putAll_spec lawful below puts inv represents small
  cases run : d.putAll L hash factor puts with
  | ok d' =>
    rw [run] at spec
    exact ⟨d', rfl, spec⟩
  | error f =>
    rw [run] at spec
    rcases spec with rfl | ⟨rfl, grows⟩
    · exact absurd run bounded.1
    · exact absurd run (bounded.2 grows)

omit [Inhabited π] [DecidableEq K] in
lemma Dict.mem_keys (represents : d.Represents L m) (k : K) : k ∈ (d.entries L).map Prod.fst ↔ (m k).isSome := by
  rw [mem_map, Option.isSome_iff_exists]
  constructor
  · rintro ⟨⟨k, v⟩, member, rfl⟩
    exact ⟨v, (represents k v).mp member⟩
  · rintro ⟨v, present⟩
    exact ⟨(k, v), (represents k v).mpr present, rfl⟩

omit [DecidableEq K] in
lemma Dict.Inv.nodup_keys (inv : d.Inv L hash Holds) : ((d.entries L).map Prod.fst).Nodup := by
  rw [entries, map_map]
  exact inv.keys

lemma Dict.Inv.size_eq (inv : d.Inv L hash Holds) (represents : d.Represents L m) {keys : List K}
    (domain : ∀ k, k ∈ keys ↔ (m k).isSome) : d.index.size = keys.dedup.length := by
  have perm : ((d.entries L).map Prod.fst).Perm keys.dedup := by
    refine (perm_ext_iff_of_nodup inv.nodup_keys (nodup_dedup keys)).mpr fun k => ?_
    rw [mem_dedup, domain, mem_keys represents]
  rw [inv.size, ← perm.length_eq, length_map, entries, length_map]

end

lemma isSome_afterPuts (m : K → Option V) (puts : List (K × V)) (k : K) :
    (afterPuts m puts k).isSome ↔ k ∈ puts.map Prod.fst ∨ (m k).isSome := by
  induction puts generalizing m with
  | nil => simp [afterPuts]
  | cons put puts ih =>
    have step : afterPuts m (put :: puts) k = afterPuts (afterPuts m [put]) puts k := rfl
    rw [step, ih, map_cons, mem_cons]
    show _ ∨ (if put.1 = k then some put.2 else m k).isSome ↔ _
    split
    case isTrue same => simp [same]
    case isFalse other => simp [Ne.symm other]

lemma isSome_lastPut (puts : List (K × V)) (k : K) : (lastPut puts k).isSome ↔ k ∈ puts.map Prod.fst := by
  rw [lastPut, isSome_afterPuts]
  simp

lemma lastPut_append (puts more : List (K × V)) : lastPut (puts ++ more) = afterPuts (lastPut puts) more := by
  funext k
  exact foldl_append

/-- `Get` and `Exists` find what was put last, where the probe stays below a distance of `2 ^ 24`, and the size counts the keys. -/
structure Dict.Serves (L : Layout K V σ π) (hash : K → UInt64) (d : Dict σ π) (puts : List (K × V)) : Prop where
  lookup : ∀ k, (2 ^ 23 < d.index.numBuckets → d.search L hash k ≠ .error .overflow) →
    d.get L hash k = .ok (lastPut puts k) ∧ d.exist L hash k = .ok (lastPut puts k).isSome
  size : d.index.size = (puts.map Prod.fst).dedup.length

lemma Dict.Inv.serves {L : Layout K V σ π} {hash : K → UInt64} {Holds : σ → List π → Prop} {d : Dict σ π} {puts : List (K × V)}
    (inv : d.Inv L hash Holds) (represents : d.Represents L (lastPut puts)) : d.Serves L hash puts := by
  refine ⟨fun k near => ?_, inv.size_eq represents fun k => (isSome_lastPut puts k).symm⟩
  have spec := search_spec inv.arranged k
  have gets := get_spec inv.arranged represents k
  have exists' := exist_spec inv.arranged represents k
  cases found : d.search L hash k with
  | error f =>
    rw [found] at spec
    exact absurd (found.trans (congrArg _ spec.1)) (near (inv.arranged.numBuckets ▸ spec.2))
  | ok place =>
    unfold get at gets ⊢
    unfold exist at exists' ⊢
    rw [found] at gets exists' ⊢
    cases place <;> exact ⟨congrArg _ gets, congrArg _ exists'⟩

/-- While there are less than `2 ^ 32` buckets and the bounds hold, the puts are taken and served. -/
def ServesPuts (L : Layout K V σ π) (hash : K → UInt64) (bucketCount : Nat) (store : σ) (puts : List (K × V)) : Prop :=
  let d := Dict.new kDefaultMaxLoadFactor bucketCount store
  d.StaysSmall L hash kDefaultMaxLoadFactor puts → d.Bounded L hash kDefaultMaxLoadFactor puts →
    ∃ d', d.putAll L hash kDefaultMaxLoadFactor puts = .ok d' ∧ d'.Serves L hash puts

section
variable {L : Layout K V σ π} {Holds : σ → List π → Prop} {store : σ} {hash : K → UInt64} {factor : LoadFactor} {bucketCount : Nat}
  {puts : List (K × V)}

omit [DecidableEq K] in
lemma Dict.represents_new : (new factor bucketCount store : Dict σ π).Represents L fun _ => none := by
  intro k v
  rw [mem_entries, new, contents_empty]
  simp

lemma Dict.putAll_new_spec (lawful : L.Lawful Holds) (holds : Holds store []) (below : factor.num < 2 ^ factor.exp)
    (small : (new factor bucketCount store).StaysSmall L hash factor puts) :
    Gives Fault.Excluded (fun d => d.Inv L hash Holds ∧ d.Represents L (lastPut puts))
      ((new factor bucketCount store).putAll L hash factor puts) :=
  (putAll_spec lawful below puts (inv_new holds below (two_le_of_small (small 0 _ rfl))) represents_new small).weaken
    fun _ fault => fault.symm.imp_left And.left

lemma servesPuts_of_lawful (lawful : L.Lawful Holds) (holds : Holds store []) : ServesPuts L hash bucketCount store puts := by
  intro small bounded
  obtain ⟨d', run, inv, represents⟩ :=
    putAll_ok lawful (by decide) (inv_new holds (by decide) (two_le_of_small (small 0 _ rfl))) represents_new small bounded
  exact ⟨d', run, inv.serves represents⟩

end

/-- A dictionary of either layout takes the puts, and is then the map of the last ones. -/
theorem puts_refine_map {K V : Type} [DecidableEq K] [Inhabited K] [Inhabited V] [Serializer K] [Serializer V]
    (hash : K → UInt64) (bucketCount reservedSpaceBytes : Nat) (puts : List (K × V)) :
    ServesPuts (flat K V) hash bucketCount () puts ∧
      ServesPuts (recordLog K V) hash bucketCount (create reservedSpaceBytes) puts :=
  ⟨servesPuts_of_lawful flat_lawful trivial, servesPuts_of_lawful recordLog_lawful ⟨rfl, [], rfl, .refl _⟩⟩

def samplePuts : List (UInt32 × UInt32) := [(1, 10), (2, 20), (3, 30), (1, 11), (4, 40), (5, 50), (6, 60)]

/-- The table grows on the way. -/
theorem puts_refine_map_sample : ∃ d,
    (new kDefaultMaxLoadFactor 0 ()).putAll flat32 (fun _ => 7) kDefaultMaxLoadFactor samplePuts = .ok d ∧
      d.index.numBuckets = 8 ∧ d.get flat32 (fun _ => 7) 1 = .ok (some 11) ∧
      d.exist flat32 (fun _ => 7) 9 = .ok false ∧ d.index.size = 6 := by
  have small : (new kDefaultMaxLoadFactor 0 ()).StaysSmall flat32 (fun _ => 7) kDefaultMaxLoadFactor samplePuts :=
    .cons (by decide) rfl (.cons (by decide) rfl (.cons (by decide) rfl (.cons (by decide) rfl (.cons (by decide) rfl
      (.cons (by decide) rfl (.cons (by decide) rfl (.nil (by decide))))))))
  obtain ⟨d, run, serves⟩ := (puts_refine_map (fun _ => 7) 0 0 samplePuts).1 small
    ⟨fun failed => (nomatch failed), fun _ failed => (nomatch failed)⟩
  cases run
  exact ⟨_, rfl, rfl, (serves.lookup 1 (absurd · (by decide))).1, (serves.lookup 9 (absurd · (by decide))).2, serves.size⟩

end Myctk.Rdict
