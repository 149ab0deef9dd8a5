import Myctk.Rdict.LogWalk

/-! Dictionaries of strings of any length (`Serializer<std::string_view>`, `rdict/rdict.h`). The length of a string is packed in 32
    bits, whatever it is. -/

namespace Myctk.Rdict

open Lib Rec KeyValPair List Dict MmapFile Subtype

def packString (s : Bytes) : Bytes := Lib.leBytes 4 s.length ++ s

def packStrings (k v : Bytes) : Bytes :=
  let buffer := packString k ++ packString v
  buffer ++ List.replicate (allignLen buffer.length - buffer.length) 0

/-- The record log of strings. -/
def stringLog : Layout Bytes Bytes MmapFile Nat where
  newBucket f k v := f.add (packStrings k v)
  getKey f offset := (unpackKey StringView (f.data.drop offset)).val
  getValue f offset := (unpack StringView StringView (f.data.drop offset)).2.1.val
  update f offset k v := do
    let (added, f) ← f.add (packStrings k v)
    return (added, { f with data := f.data.take offset ++ setFlags StringView StringView (f.data.drop offset) true })
  read := textLog.read
  extent := textLog.extent
  taken := textLog.taken
  join := textLog.join

section
variable {K V K' V' σ π : Type}

structure Layout.Mirrors (L : Layout K V σ π) (L' : Layout K' V' σ π) (f : K → K') (g : V → V') : Prop where
  injective : Function.Injective f
  getKey : ∀ s c, L'.getKey s c = f (L.getKey s c)
  read : L'.read = L.read
  extent : L'.extent = L.extent
  newBucket : ∀ s k v, L'.newBucket s (f k) (g v) = L.newBucket s k v
  update : ∀ s c k v, L'.update s c (f k) (g v) = L.update s c k v

variable {L : Layout K V σ π} {L' : Layout K' V' σ π} {f : K → K'} {g : V → V'} {hash : K' → UInt64} {factor : LoadFactor}
  [Inhabited π]

section
variable (mirrors : L.Mirrors L' f g)
include mirrors

lemma Layout.Mirrors.probe [DecidableEq K] [DecidableEq K'] (d : Dict σ π) (k : K) (fuel word i : Nat) :
    d.probe L' (f k) fuel word i = d.probe L k fuel word i := by
  induction fuel generalizing word i with
  | zero => rfl
  | succ fuel ih =>
    have same : f k = L'.getKey d.store (contentAt d.buckets i) ↔ k = L.getKey d.store (contentAt d.buckets i) := by
      rw [mirrors.getKey]
      exact mirrors.injective.eq_iff
    simp [probe_succ, same, ih]

lemma Layout.Mirrors.fill (old : List (Bucket π)) (fuel left cursor : Nat) (d : Dict σ π) :
    fill L' hash old fuel left cursor d = fill L (hash ∘ f) old fuel left cursor d := by
  induction fuel generalizing left cursor d with
  | zero => cases left <;> rfl
  | succ fuel ih =>
    cases left with
    | zero => rfl
    | succ left =>
      have hashed (d : Dict σ π) (k : K) : d.nextWhileLess hash (f k) = d.nextWhileLess (hash ∘ f) k := rfl
      simp [Dict.fill, mirrors.read, mirrors.getKey, hashed, ih]

lemma Layout.Mirrors.put [DecidableEq K] [DecidableEq K'] (d : Dict σ π) (k : K) (v : V) :
    d.put L' hash factor (f k) (g v) = d.put L (hash ∘ f) factor k v := by
  have searched : d.search L' hash (f k) = d.search L (hash ∘ f) k := mirrors.probe d k _ _ _
  have increased (d : Dict σ π) : d.increaseSize L' hash factor = d.increaseSize L (hash ∘ f) factor := by
    simp [increaseSize, rehash, mirrors.extent, mirrors.fill]
  have hashed (d : Dict σ π) : d.nextWhileLess hash (f k) = d.nextWhileLess (hash ∘ f) k := rfl
  simp only [Dict.put, searched, mirrors.update, mirrors.newBucket, increased, hashed]

lemma Layout.Mirrors.putAll [DecidableEq K] [DecidableEq K'] (d : Dict σ π) (puts : List (K × V)) :
    d.putAll L' hash factor (puts.map fun put => (f put.1, g put.2)) = d.putAll L (hash ∘ f) factor puts := by
  rw [Dict.putAll, foldlM_map]
  simp [mirrors.put, Dict.putAll]

end

end

lemma stringLog_mirrors : textLog.Mirrors stringLog val val where
  injective := val_injective
  getKey _ _ := rfl
  read := rfl
  extent := rfl
  newBucket _ _ _ := rfl
  update _ _ _ _ := rfl

variable {bucketCount reservedSpaceBytes : Nat} {puts : List (Bytes × Bytes)}

lemma logged_short {hash : Bytes → UInt64} {factor : LoadFactor}
    {d : Dict MmapFile Nat} (short : ∀ put ∈ puts, put.1.length < 256 ^ 4 ∧ put.2.length < 256 ^ 4)
    (run : (new factor bucketCount (create reservedSpaceBytes)).putAll stringLog hash factor puts = .ok d) :
    Logged StringView StringView (hash ∘ val) (puts.map fun put => (packStrings put.1 put.2).length) d := by
  obtain ⟨puts, rfl⟩ : ∃ puts' : List (StringView × StringView), puts = puts'.map fun put => (put.1.val, put.2.val) := by
    refine ⟨puts.pmap (fun put fits => (⟨put.1, fits.1⟩, ⟨put.2, fits.2⟩)) short, ?_⟩
    simp [map_pmap]
  rw [stringLog_mirrors.putAll] at run
  have logged := (logged_new (hash ∘ val) factor bucketCount reservedSpaceBytes).putAll run
  rw [map_map]
  exact logged

def header (k v : Bytes) : Bytes := packString k ++ Lib.leBytes 4 v.length

def leap (k v : Bytes) : Nat := allignLen (k.length + 8 + v.length % 256 ^ 4)

section
variable {k v : Bytes}

lemma length_header : (header k v).length = k.length + 8 := by
  simp only [header, packString, length_append, length_leBytes]
  omega

lemma header_le_leap : (header k v).length ≤ leap k v := by
  have := lt_allignLen (k.length + 8 + v.length % 256 ^ 4)
  rw [length_header, leap]
  omega

lemma flagsAt_header (short : k.length < 256 ^ 4) (tail : Bytes) :
    flagsAt StringView StringView (header k v ++ tail) = k.length + 8 + v.length % 256 ^ 4 := by
  have key : Serializer.getSize StringView (header k v ++ tail) = 4 + k.length := by
    show 4 + leNat ((header k v ++ tail).take 4) = _
    rw [header, packString, append_assoc, append_assoc, take_left' (length_leBytes 4 _),
      leNat_leBytes short]
  have rest : (header k v ++ tail).drop (4 + k.length) = leBytes 4 v.length ++ tail := by
    rw [header, append_assoc]
    refine drop_left' ?_
    rw [packString, length_append, length_leBytes]
  have value : Serializer.getSize StringView (leBytes 4 v.length ++ tail) = 4 + v.length % 256 ^ 4 := by
    show 4 + leNat ((leBytes 4 v.length ++ tail).take 4) = _
    rw [take_left' (length_leBytes 4 _), leNat_leBytes_mod]
  rw [flagsAt, key, rest, value]
  omega

lemma packStrings_eq : ∃ tail, packStrings k v = header k v ++ tail := by
  refine ⟨v ++ replicate (allignLen (packString k ++ packString v).length - (packString k ++ packString v).length) 0, ?_⟩
  simp [packStrings, header, packString]

lemma leap_lt (long : 256 ^ 4 ≤ v.length) : leap k v < (packStrings k v).length := by
  have := lt_allignLen (packString k ++ packString v).length
  have length : (packStrings k v).length = allignLen (packString k ++ packString v).length := by
    simp only [packStrings, length_append, length_replicate] at *
    omega
  have less : v.length % 256 ^ 4 + 256 ^ 4 ≤ v.length := by
    omega
  rw [length, leap]
  simp only [packString, length_append, length_leBytes, allignLen]
  omega

end

/-- The offsets that a walk can come to where the record at `start` is long: records before it, the record itself, and what is
    behind its header. -/
def Astray (k v : Bytes) (lens : List Nat) (start c : Nat) : Prop := c ∈ offsets 0 lens ∨ c = start ∨ start + leap k v ≤ c

structure Derails (k v : Bytes) (lens : List Nat) (start : Nat) (data : Bytes) : Prop where
  begins : ∃ (recs : List (Rec StringView StringView)) (tail : Bytes), data = recs.flatMap Rec.bytes ++ (header k v ++ tail) ∧
    lengths recs = lens ∧ (recs.flatMap Rec.bytes).length = start
  long : start + leap k v < data.length

section
variable {k v : Bytes} {lens : List Nat} {start c : Nat} {data : Bytes}

lemma next_offset (before after : List (Rec StringView StringView)) (r : Rec StringView StringView) :
    (before.flatMap bytes).length + r.bytes.length ∈ offsets 0 (lengths (before ++ r :: after)) ∨
      (before.flatMap bytes).length + r.bytes.length = ((before ++ r :: after).flatMap bytes).length := by
  cases after with
  | nil => right; simp
  | cons r' after =>
    left
    rw [lengths, ← starts_true, starts_append, mem_append]
    right
    simp [starts]

lemma Derails.next (derails : Derails k v lens start data) (short : k.length < 256 ^ 4) (here : Astray k v lens start c) :
    Astray k v lens start (c + getKeyValuePackSize StringView StringView (data.drop c)) := by
  obtain ⟨recs, tail, all, rfl, rfl⟩ := derails.begins
  rcases here with member | rfl | behind
  · obtain ⟨before, r, after, rfl, rfl⟩ := exists_record member
    obtain ⟨⟨rest, there⟩, -⟩ := drop_record all
    rw [there, r.getKeyValuePackSize_bytes]
    rcases next_offset before after r with inside | last
    · exact .inl inside
    · exact .inr (.inl last)
  · rw [all, drop_left, getKeyValuePackSize, flagsAt_header short]
    exact .inr (.inr le_rfl)
  · exact .inr (.inr (le_trans behind (Nat.le_add_right _ _)))

lemma Derails.reaches {f : MmapFile} (derails : Derails k v lens start f.data) (short : k.length < 256 ^ 4)
    {old : List (Bucket Nat)} (reaches : stringLog.Reaches f old c) : Astray k v lens start c := by
  induction reaches with
  | start =>
    obtain ⟨recs, tail, -, rfl, rfl⟩ := derails.begins
    cases recs with
    | nil => exact .inr (.inl rfl)
    | cons r recs => exact .inl mem_cons_self
  | next before read ih =>
    change (if _ then _ else _) = _ at read
    split at read
    · cases read
    · cases read
      exact derails.next short ih

lemma Derails.readable {f : MmapFile} (derails : Derails k v lens start f.data) (short : k.length < 256 ^ 4)
    {old : List (Bucket Nat)} (readable : stringLog.Readable f old c) : Astray k v lens start c := by
  obtain ⟨cursor, cursor', reaches, read⟩ := readable
  change (if _ then _ else _) = _ at read
  split at read
  · cases read
  · have here := derails.reaches short reaches
    have content := (Prod.mk.inj (Except.ok.inj read)).1
    split at content
    · cases content
    · cases content
      exact here

lemma Derails.append (derails : Derails k v lens start data) (more : Bytes) : Derails k v lens start (data ++ more) := by
  obtain ⟨recs, tail, rfl, same, length⟩ := derails.begins
  refine ⟨⟨recs, tail ++ more, by simp only [append_assoc], same, length⟩, ?_⟩
  have := derails.long
  rw [length_append]
  omega

lemma take_append_set (data : Bytes) (c i : Nat) (x : UInt8) : data.take c ++ (data.drop c).set i x = data.set (c + i) x := by
  rcases lt_or_ge data.length c with outside | inside
  · rw [drop_eq_nil_of_le (le_of_lt outside), set_nil, append_nil, take_of_length_le (le_of_lt outside),
      set_eq_of_length_le (by omega)]
  · have length : (data.take c).length = c := length_take_of_le inside
    nth_rewrite 3 [← take_append_drop c data]
    rw [set_append_right _ _ (by omega), length, Nat.add_sub_cancel_left]

lemma Derails.setFlags (derails : Derails k v lens start data) (short : k.length < 256 ^ 4) (here : Astray k v lens start c) :
    Derails k v lens start (data.take c ++ setFlags StringView StringView (data.drop c) true) := by
  obtain ⟨recs, tail, all, rfl, rfl⟩ := derails.begins
  have length : (data.take c ++ setFlags StringView StringView (data.drop c) true).length = data.length := by
    rw [setFlags, take_append_set, length_set]
  refine ⟨?_, by rw [length]; exact derails.long⟩
  have behind (beyond : (recs.flatMap bytes).length + (header k v).length ≤
      c + flagsAt StringView StringView (data.drop c)) :
      ∃ tail', data.take c ++ setFlags StringView StringView (data.drop c) true =
        recs.flatMap bytes ++ (header k v ++ tail') := by
    rw [setFlags, take_append_set]
    nth_rewrite 1 [all]
    rw [← append_assoc, set_append_right _ _ (by rw [length_append]; exact beyond), append_assoc]
    exact ⟨_, rfl⟩
  have enough := header_le_leap (k := k) (v := v)
  rcases here with member | rfl | far
  · obtain ⟨before, r, after, rfl, rfl⟩ := exists_record member
    refine ⟨_, tail, setFlags_record all, lengths_marked before after r, ?_⟩
    have same : (bytes { r with invalid := true }).length = r.bytes.length := by
      rw [length_bytes, length_bytes]
      rfl
    simp [flatMap_append, flatMap_cons, same]
  · obtain ⟨tail', marked⟩ := behind (by
      rw [all, drop_left, flagsAt_header short, length_header]
      omega)
    exact ⟨recs, tail', marked, rfl, rfl⟩
  · obtain ⟨tail', marked⟩ := behind (by omega)
    exact ⟨recs, tail', marked, rfl, rfl⟩

lemma offsets_lengths (recs : List (Rec StringView StringView)) (later : List Nat) (o : Nat) :
    offsets o (lengths recs ++ later) = offsets o (lengths recs) ++ offsets (o + (recs.flatMap bytes).length) later := by
  induction recs generalizing o with
  | nil => rfl
  | cons r recs ih =>
    rw [lengths_cons, cons_append, offsets, offsets, ih, flatMap_cons, length_append, add_assoc]
    rfl

lemma Derails.walkLog_ne (derails : Derails k v lens start data) (short : k.length < 256 ^ 4) (long : 256 ^ 4 ≤ v.length)
    (later : List Nat) :
    (walkLog StringView StringView data (data.length + 1) 0).1 ≠ offsets 0 (lens ++ (packStrings k v).length :: later) := by
  obtain ⟨recs, tail, all, rfl, rfl⟩ := derails.begins
  have enough := length_le_bytes recs
  have inside := derails.long
  have : 0 < leap k v := lt_of_lt_of_le (by rw [length_header]; omega) header_le_leap
  obtain ⟨fuel, eq⟩ : ∃ fuel, data.length + 1 = recs.length + (fuel + 2) := ⟨data.length - recs.length - 1, by omega⟩
  have walk : (walkLog StringView StringView data (recs.length + (fuel + 2)) 0).1 = offsets 0 (lengths recs) ++ _ :=
    congrArg Prod.fst (walkLog_records [] recs (fuel + 2) all)
  have size : getKeyValuePackSize StringView StringView (data.drop (recs.flatMap bytes).length) = leap k v := by
    rw [all, drop_left, getKeyValuePackSize, flagsAt_header short]
    rfl
  rw [eq, walk, nil_append, walkLog, if_neg (by omega), size, walkLog, if_neg (by omega), offsets_lengths, zero_add, offsets]
  intro same
  have behind := (cons.inj (append_cancel_left same)).2
  have short := leap_lt (k := k) long
  cases later with
  | nil => cases behind
  | cons n later =>
    have := (cons.inj behind).1
    omega

end

structure Derailed (k v : Bytes) (lens : List Nat) (start : Nat) (d : Dict MmapFile Nat) : Prop where
  data : Derails k v lens start d.store.data
  contents : ∀ c ∈ contents d.buckets, Astray k v lens start c

section
variable {hash : Bytes → UInt64} {factor : LoadFactor} {k v : Bytes} {lens : List Nat} {start : Nat} {d d' : Dict MmapFile Nat}
  {k' v' : Bytes}

lemma stringLog_store {added : Nat} (cases : d.PutCases stringLog k' v' d' added) : added = d.store.data.length ∧
      (d'.store.data = d.store.data ++ packStrings k' v' ∨
        ∃ c ∈ contents d.buckets, d'.store.data = (d.store.data ++ packStrings k' v').take c ++
          setFlags StringView StringView ((d.store.data ++ packStrings k' v').drop c) true) := by
  rcases cases.store with fresh | ⟨c, member, updated⟩
  · exact ⟨(add_of_ok fresh).1, .inl (add_of_ok fresh).2.1⟩
  · obtain ⟨⟨o, f⟩, appended, same⟩ := ok_of_bind updated
    obtain ⟨rfl, store⟩ := Prod.mk.inj (Except.ok.inj same)
    refine ⟨(add_of_ok appended).1, .inr ⟨c, member, ?_⟩⟩
    rw [← store, ← (add_of_ok appended).2.1]

lemma derailed_of_append (short : k.length < 256 ^ 4) (contents : ∀ c ∈ contents d.buckets, Astray k v lens start c)
    (here : Astray k v lens start d.store.data.length) (derails : Derails k v lens start (d.store.data ++ packStrings k' v'))
    (put : d.put stringLog hash factor k' v' = .ok d') : Derailed k v lens start d' := by
  obtain ⟨added, cases⟩ := put_cases put
  obtain ⟨rfl, store⟩ := stringLog_store cases
  have data : Derails k v lens start d'.store.data := by
    rcases store with fresh | ⟨c, member, marked⟩
    · rw [fresh]
      exact derails
    · rw [marked]
      exact derails.setFlags short (contents c member)
  refine ⟨data, fun c member => ?_⟩
  rcases cases.contents c member with old | rfl | readable
  · exact contents c old
  · exact here
  · exact data.readable short readable

lemma Derailed.put (derailed : Derailed k v lens start d) (short : k.length < 256 ^ 4)
    (put : d.put stringLog hash factor k' v' = .ok d') : Derailed k v lens start d' :=
  derailed_of_append short derailed.contents (.inr (.inr (le_of_lt derailed.data.long))) (derailed.data.append _) put

lemma Derailed.putAll {puts : List (Bytes × Bytes)} (derailed : Derailed k v lens start d) (short : k.length < 256 ^ 4)
    (run : d.putAll stringLog hash factor puts = .ok d') : Derailed k v lens start d' := by
  induction puts generalizing d with
  | nil =>
    cases run
    exact derailed
  | cons put puts ih =>
    rw [putAll, foldlM_cons] at run
    obtain ⟨d1, first, later⟩ := ok_of_bind run
    exact ih (derailed.put short first) later

lemma Logged.derailed (logged : Logged StringView StringView (hash ∘ val) lens d) (short : k.length < 256 ^ 4)
    (long : 256 ^ 4 ≤ v.length) (put : d.put stringLog hash factor k v = .ok d') : Derailed k v lens d.store.data.length d' := by
  obtain ⟨recs, data, lens⟩ := logged.records
  obtain ⟨tail, packed⟩ := packStrings_eq (k := k) (v := v)
  refine derailed_of_append short (fun c member => .inl (logged.mem_offsets member)) (.inr (.inl rfl)) ⟨?_, ?_⟩ put
  · exact ⟨recs, tail, by rw [packed, data], lens, by rw [data]⟩
  · rw [length_append]
    exact Nat.add_lt_add_left (leap_lt long) _

end

def packLengths (puts : List (Bytes × Bytes)) : List Nat := puts.map fun put => (packStrings put.1 put.2).length

lemma exists_first_long (long : ¬∀ put ∈ puts, put.2.length < 256 ^ 4) :
    ∃ before k v after, puts = before ++ (k, v) :: after ∧ (∀ put ∈ before, put.2.length < 256 ^ 4) ∧ 256 ^ 4 ≤ v.length := by
  cases first : puts.find? fun put => 256 ^ 4 ≤ put.2.length with
  | none => exact absurd (by simpa using find?_eq_none.mp first) long
  | some put =>
    obtain ⟨here, before, after, split, short⟩ := find?_eq_some_iff_append.mp first
    exact ⟨before, put.1, put.2, after, split, by simpa using short, by simpa using here⟩

lemma not_logWalks_of_long {hash : Bytes → UInt64} {factor : LoadFactor} {d : Dict MmapFile Nat}
    (run : (new factor bucketCount (create reservedSpaceBytes)).putAll stringLog hash factor puts = .ok d)
    (keys : ∀ put ∈ puts, put.1.length < 256 ^ 4) (long : ¬∀ put ∈ puts, put.2.length < 256 ^ 4) :
    ¬LogWalks StringView StringView (offsets 0 (packLengths puts)) d := by
  obtain ⟨before, k, v, after, rfl, short, long⟩ := exists_first_long long
  rw [putAll, foldlM_append] at run
  obtain ⟨d1, first, run⟩ := ok_of_bind run
  rw [foldlM_cons] at run
  obtain ⟨d2, put, later⟩ := ok_of_bind run
  have key : k.length < 256 ^ 4 := keys (k, v) (by simp)
  have logged := logged_short (fun put member => ⟨keys put (mem_append_left _ member), short put member⟩) first
  have derailed := (logged.derailed key long put).putAll key later
  intro walks
  refine derailed.data.walkLog_ne key long (packLengths after) ?_
  rw [walks.walk, packLengths, map_append]
  rfl

def fourGigabytes : Bytes := List.replicate (256 ^ 4) 0

lemma length_fourGigabytes : fourGigabytes.length = 256 ^ 4 := length_replicate

lemma add_fourGigabytes : ∃ file, (create (2 ^ 40)).add (packStrings [] fourGigabytes) = .ok (0, file) := by
  have length : (packStrings [] fourGigabytes).length = 2 ^ 32 + 16 := by
    simp only [packStrings, packString, length_append, length_replicate, length_leBytes, length_fourGigabytes]
    rfl
  rw [add, if_neg (by decide)]
  rw [length, if_pos (by decide), extendBuffer, if_neg (by decide)]
  exact ⟨_, rfl⟩

lemma first_put {v : Bytes} {f file : MmapFile} (added : f.add (packStrings [] v) = .ok (0, file)) :
    ∃ d, (Dict.new kDefaultMaxLoadFactor 0 f).putAll stringLog (fun _ => 7) kDefaultMaxLoadFactor [([], v)] = .ok d := by
  have searched : (new kDefaultMaxLoadFactor 0 f).search stringLog (fun _ => 7) [] = .ok (.inr (263, 0)) := rfl
  have new : stringLog.newBucket f [] v = .ok (0, file) := added
  rw [putAll, foldlM_cons, put, searched]
  simp only [bind, Except.bind]
  rw [show (Dict.new kDefaultMaxLoadFactor 0 f : Dict MmapFile Nat).store = f from rfl, new]
  exact ⟨_, rfl⟩

end Myctk.Rdict
