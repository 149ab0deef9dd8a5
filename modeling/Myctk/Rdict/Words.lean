import Myctk.Rdict.Merge

/-! The words of the buckets as `uint32_t` computes them (`dist_inc`, `rdict/rdict.h`): where no distance leaves its 24 bits the
    table works as with the faults, and what happens where one does. -/

namespace Myctk.Rdict
open Dict Lib MmapFile List

/-- Unless the first run comes to the end of its bounds, the second one is the same. -/
def Mirrors {α : Type} (x y : Except Fault α) : Prop := x = .error .overflow ∨ x = .error .endless ∨ y = x

section
variable {α β : Type} {x y : Except Fault α} {f g : α → Except Fault β}

lemma Mirrors.refl (x : Except Fault α) : Mirrors x x := .inr (.inr rfl)

lemma Mirrors.bind (first : Mirrors x y) (later : ∀ a, x = .ok a → Mirrors (f a) (g a)) : Mirrors (x.bind f) (y.bind g) := by
  rcases first with rfl | rfl | rfl
  · exact .inl rfl
  · exact .inr (.inl rfl)
  · cases y with
    | error e => exact .refl _
    | ok a => exact later a rfl

lemma mirrors_u32 (n : Nat) : Mirrors (u32 n) (.ok (n % 2 ^ 32)) := by
  unfold u32
  split
  · next small => exact .inr (.inr (by rw [Nat.mod_eq_of_lt small]))
  · exact .inl rfl

end

variable {K V σ π : Type} [Inhabited π] {L : Layout K V σ π} {hash : K → UInt64} {factor : LoadFactor} {d d' : Dict σ π}
  {N fuel fuel' word i : Nat} {k : K} {v : V} {old : List (Bucket π)} {b : Bucket π}

lemma placeAndShiftUp_mirrors {index : IndexMeta} {bs : List (Bucket π)} (le : fuel ≤ fuel') :
    Mirrors (placeAndShiftUp index fuel bs b i) (letI : Words := .source N; placeAndShiftUp index fuel' bs b i) := by
  induction fuel generalizing fuel' bs b i with
  | zero => exact .inr (.inl rfl)
  | succ fuel ih =>
    obtain ⟨fuel', rfl⟩ : ∃ n, fuel' = n + 1 := ⟨fuel' - 1, by omega⟩
    unfold placeAndShiftUp
    dsimp only
    split
    · exact (mirrors_u32 _).bind fun word _ => ih (Nat.le_of_succ_le_succ le)
    · exact .refl _

namespace Dict

lemma probe_mirrors [DecidableEq K] (le : fuel ≤ fuel') :
    Mirrors (d.probe L k fuel word i) (letI : Words := .source N; d.probe L k fuel' word i) := by
  induction fuel generalizing fuel' word i with
  | zero => exact .inr (.inl rfl)
  | succ fuel ih =>
    obtain ⟨fuel', rfl⟩ : ∃ n, fuel' = n + 1 := ⟨fuel' - 1, by omega⟩
    unfold probe
    dsimp only
    split
    · split
      · exact .refl _
      · exact (mirrors_u32 _).bind fun word _ => ih (Nat.le_of_succ_le_succ le)
    · exact .refl _

lemma nextWhileLessLoop_mirrors (le : fuel ≤ fuel') :
    Mirrors (d.nextWhileLessLoop fuel word i) (letI : Words := .source N; d.nextWhileLessLoop fuel' word i) := by
  induction fuel generalizing fuel' word i with
  | zero => exact .inr (.inl rfl)
  | succ fuel ih =>
    obtain ⟨fuel', rfl⟩ : ∃ n, fuel' = n + 1 := ⟨fuel' - 1, by omega⟩
    unfold nextWhileLessLoop
    split
    · exact (mirrors_u32 _).bind fun word _ => ih (Nat.le_of_succ_le_succ le)
    · exact .refl _

section
variable (few : d.index.numBuckets < N)
include few

lemma search_mirrors [DecidableEq K] (k : K) : Mirrors (d.search L hash k) (letI : Words := .source N; d.search L hash k) :=
  probe_mirrors few

lemma nextWhileLess_mirrors (k : K) : Mirrors (d.nextWhileLess hash k) (letI : Words := .source N; d.nextWhileLess hash k) :=
  (nextWhileLessLoop_mirrors few).bind fun found _ => (mirrors_u32 found.2).bind fun _ _ => .refl _

lemma place_mirrors (b : Bucket π) (i : Nat) : Mirrors (d.place b i) (letI : Words := .source N; d.place b i) :=
  (placeAndShiftUp_mirrors few).bind fun _ _ => .refl _

lemma get_mirrors [DecidableEq K] (k : K) : Mirrors (d.get L hash k) (letI : Words := .source N; d.get L hash k) :=
  (search_mirrors few k).bind fun _ _ => .refl _

lemma exist_mirrors [DecidableEq K] (k : K) : Mirrors (d.exist L hash k) (letI : Words := .source N; d.exist L hash k) :=
  (search_mirrors few k).bind fun _ _ => .refl _

end

lemma place_index (placed : d.place b i = .ok d') : d'.index = d.index := by
  obtain ⟨bs, -, same⟩ := ok_of_bind placed
  cases same
  rfl

lemma fill_mirrors {left cursor : Nat} (few : d.index.numBuckets < N) :
    Mirrors (fill L hash old fuel left cursor d) (letI : Words := .source N; fill L hash old fuel left cursor d) := by
  induction fuel generalizing left cursor d with
  | zero => cases left <;> exact .refl _
  | succ fuel ih =>
    cases left with
    | zero => exact .refl _
    | succ left =>
      refine (Mirrors.refl (L.read d.store old cursor)).bind fun ⟨content, cursor⟩ _ => ?_
      cases content with
      | none => exact ih few
      | some content =>
        refine (nextWhileLess_mirrors few _).bind fun found _ => (place_mirrors few _ _).bind fun d1 placed => ih ?_
        rwa [place_index placed]

lemma fill_index {left cursor : Nat} (filled : fill L hash old fuel left cursor d = .ok d') : d'.index = d.index := by
  induction fuel generalizing left cursor d with
  | zero =>
    cases left with
    | zero => cases filled; rfl
    | succ left => cases filled
  | succ fuel ih =>
    cases left with
    | zero => cases filled; rfl
    | succ left =>
      obtain ⟨⟨content, cursor⟩, -, filled⟩ := ok_of_bind filled
      cases content with
      | none => exact ih filled
      | some content =>
        obtain ⟨found, -, filled⟩ := ok_of_bind filled
        obtain ⟨d1, placed, filled⟩ := ok_of_bind filled
        exact (ih filled).trans (place_index placed)

lemma increaseSize_numBuckets (grown : d.increaseSize L hash factor = .ok d') : d'.index.numBuckets ≤ maxBucketCount := by
  unfold increaseSize at grown
  split at grown
  · cases grown
  · rw [fill_index grown]
    exact Nat.min_le_left _ _

section
variable (many : maxBucketCount < N)
include many

lemma rehash_mirrors (shifts : Nat) :
    Mirrors (d.rehash L hash factor shifts) (letI : Words := .source N; d.rehash L hash factor shifts) :=
  fill_mirrors (lt_of_le_of_lt (Nat.min_le_left _ _) many)

lemma increaseSize_mirrors :
    Mirrors (d.increaseSize L hash factor) (letI : Words := .source N; d.increaseSize L hash factor) := by
  unfold increaseSize
  split
  · exact .refl _
  · exact rehash_mirrors many _

lemma reserve_mirrors (capa : Nat) :
    Mirrors (d.reserve L hash factor capa) (letI : Words := .source N; d.reserve L hash factor capa) := by
  unfold reserve
  dsimp only
  split
  · exact rehash_mirrors many _
  · exact .refl _

variable [DecidableEq K]

lemma put_mirrors (few : d.index.numBuckets < N) (k : K) (v : V) :
    Mirrors (d.put L hash factor k v) (letI : Words := .source N; d.put L hash factor k v) := by
  refine (search_mirrors few k).bind fun found _ => ?_
  rcases found with i | ⟨word, i⟩
  · exact .refl _
  · refine (Mirrors.refl (L.newBucket d.store k v)).bind fun ⟨content, store⟩ _ => ?_
    show Mirrors (ite _ _ _) (ite _ _ _)
    split
    · refine (increaseSize_mirrors many).bind fun d1 grown => ?_
      have few1 : d1.index.numBuckets < N := lt_of_le_of_lt (increaseSize_numBuckets grown) many
      exact (nextWhileLess_mirrors few1 k).bind fun found _ => (place_mirrors few1 _ _).bind fun _ _ => .refl _
    · exact (place_mirrors (d := { d with store }) few _ _).bind fun _ _ => .refl _

end

end Dict

/-! ### The order of the buckets -/

/-- No distance of the run leaves its 24 bits: where that is a fault, the run has none and comes to an end. -/
def Near {α : Type} (x : Except Fault α) : Prop := x ≠ .error .overflow ∧ x ≠ .error .endless

lemma Mirrors.eq {α : Type} {x y : Except Fault α} (mirrors : Mirrors x y) (near : Near x) : y = x :=
  (mirrors.resolve_left near.1).resolve_left near.2

lemma Mirrors.arranged {x y : Except Fault (Dict σ π)} (mirrors : Mirrors x y) (near : Near x)
    (gives : Gives (fun _ => True) (·.Arranged L hash) x) (done : y = .ok d') : d'.Arranged L hash := by
  rw [← mirrors.eq near, done] at gives
  exact gives

section
open Lib.Ring

variable {m n : Nat}

/-- Keys with one home, one behind the other. -/
@[irreducible] def ladder (m n : Nat) : List (Bucket (UInt32 × UInt32)) :=
  (range m).map fun i => if i < n then ⟨(.ofNat (i + 1), 0), kDistInc * (i + 1) + 1⟩ else default

def ladderKey : UInt32 := 0xFFFFFFFF

def ladderHash (k : UInt32) : UInt64 := if k = ladderKey then 0 else 1

def ladderDict (n : Nat) : Dict Unit (UInt32 × UInt32) := ⟨(), allocateBuckets kDefaultMaxLoadFactor n 39, ladder (2 ^ 25) n⟩

lemma getD_ladder {i : Nat} (lt : i < m) :
    (ladder m n).getD i default = if i < n then ⟨(.ofNat (i + 1), 0), kDistInc * (i + 1) + 1⟩ else default := by
  simp [ladder, lt]

lemma wordAt_ladder {i : Nat} (lt : i < 2 ^ 25) : wordAt (ladderDict n).buckets i = if i < n then kDistInc * (i + 1) + 1 else 0 := by
  rw [wordAt, ladderDict, getD_ladder lt]
  split <;> rfl

lemma home_ladder (k : UInt32) : (ladderDict n).index.home ladderHash k = 0 := by
  show (ladderHash k).toNat >>> 39 = 0
  rw [ladderHash]
  split <;> decide

lemma length_ladder : (ladderDict n).buckets.length = 2 ^ 25 := by
  rw [ladderDict, ladder, length_map, length_range]

lemma arranged_ladder : (ladderDict n).Arranged flat32 ladderHash := by
  refine ⟨by rw [length_ladder]; rfl, ⟨by rw [length_ladder]; decide, fun k => by rw [home_ladder, length_ladder]; decide,
    fun k => Nat.mod_lt _ (by decide), fun i inside => ?_, fun i inside occupied => ?_⟩⟩
  · have next := walk_one inside ▸ walk_lt (t := 1) inside
    rw [length_ladder] at inside next ⊢
    rw [wordAt_ladder inside, wordAt_ladder next, Follows, Ring.next, kDistInc]
    split_ifs <;> omega
  · rw [length_ladder] at inside ⊢
    rw [wordAt_ladder inside] at occupied ⊢
    split at occupied
    · next here =>
      have other : (UInt32.ofNat (i + 1)) ≠ ladderKey := by
        intro same
        have := congrArg UInt32.toNat same
        rw [UInt32.toNat_ofNat', show ladderKey.toNat = 2 ^ 32 - 1 from rfl] at this
        omega
      have key : flat32.getKey () (contentAt (ladderDict n).buckets i) = .ofNat (i + 1) := by
        rw [contentAt, ladderDict, getD_ladder inside, if_pos here]
        rfl
      rw [if_pos here, home_ladder]
      refine ⟨i, inside, by rw [walk, Nat.zero_add, Nat.mod_eq_of_lt inside], ?_⟩
      rw [show (ladderDict n).store = () from rfl, key, fingerprint, ladderHash, if_neg other]
      rfl
    · exact absurd rfl occupied

lemma probe_source [DecidableEq K] {word i : Nat} : (letI : Words := .source N; d.probe L k (fuel + 1) word i) =
    if word ≤ wordAt d.buckets i then
      if word = wordAt d.buckets i ∧ k = L.getKey d.store (contentAt d.buckets i) then .ok (.inl i)
      else (letI : Words := .source N; d.probe L k fuel ((word + kDistInc) % 2 ^ 32) (d.index.next i))
    else .ok (.inr (word, i)) := rfl

/-- A put of a key that is not there, into a table that need not grow. -/
lemma put_of_room [DecidableEq K] {word i : Nat} {content : π} {store : σ} {P : Except Fault (Dict σ π) → Prop}
    (found : (letI : Words := .source N; d.search L hash k) = .ok (.inr (word, i)))
    (fits : L.newBucket d.store k v = .ok (content, store)) (room : d.index.isFull = false)
    (placed : P (letI : Words := .source N; (place { d with store } ⟨content, word⟩ i).bind fun d => .ok d.grown)) :
    P (letI : Words := .source N; d.put L hash factor k v) := by
  unfold put
  rw [found]
  show P ((L.newBucket d.store k v).bind _)
  rw [fits]
  show P (ite (d.index.isFull = true) _ _)
  rw [room, if_neg Bool.false_ne_true]
  exact placed

lemma place_free {i : Nat} {b : Bucket π} (free : wordAt d.buckets i = 0) :
    (letI : Words := .source (N + 1); d.place b i) = .ok ⟨d.store, d.index, d.buckets.set i b⟩ := by
  have stop : (letI : Words := .source (N + 1); placeAndShiftUp d.index (N + 1) d.buckets b i) = .ok (d.buckets.set i b) :=
    if_neg (not_not.mpr free)
  show (letI : Words := .source (N + 1); (placeAndShiftUp d.index (N + 1) d.buckets b i).bind _) = _
  rw [stop]
  rfl

section
variable (full : n + 1 = 2 ^ 24)
include full

lemma probe_ladder (fuel : Nat) {j : Nat} (le : j ≤ n) :
    (letI : Words := .source N; (ladderDict n).probe flat32 ladderKey (fuel + j) (kDistInc * (n - j + 1) % 2 ^ 32) (n - j)) =
      (letI : Words := .source N; (ladderDict n).probe flat32 ladderKey fuel (kDistInc * (n + 1) % 2 ^ 32) n) := by
  induction j with
  | zero => rfl
  | succ j ih =>
    have word : wordAt (ladderDict n).buckets (n - (j + 1)) = kDistInc * (n - (j + 1) + 1) + 1 := by
      rw [wordAt_ladder (by omega), if_pos (by omega)]
    have small : kDistInc * (n - (j + 1) + 1) % 2 ^ 32 = kDistInc * (n - (j + 1) + 1) := by
      rw [kDistInc, Nat.mod_eq_of_lt (by omega)]
    have next : (ladderDict n).index.next (n - (j + 1)) = n - j := by
      rw [show (ladderDict n).index.next (n - (j + 1)) = if n - (j + 1) + 1 = 2 ^ 25 then 0 else n - (j + 1) + 1 from rfl,
        if_neg (by omega)]
      omega
    rw [← ih (by omega), ← Nat.add_assoc, small, probe_source, word, if_pos (by omega),
      if_neg fun same => absurd same.1 (by omega), next, show n - (j + 1) + 1 = n - j by omega, ← Nat.mul_succ]

/-- The word of the search wraps to 0 behind the last key and the next one is 256, the word of a key at home. -/
lemma put_ladder (many : Nat) (passes : N = many + n + 2) : ∃ d', (letI : Words := .source N;
    (ladderDict n).put flat32 ladderHash kDefaultMaxLoadFactor ladderKey 0) = .ok d' ∧
    d'.buckets = (ladderDict n).buckets.set (n + 1) ⟨(ladderKey, 0), kDistInc⟩ ∧ d'.store = () ∧
    d'.index.shifts = 39 := by
  subst passes
  have free {i : Nat} (lt : i < 2 ^ 25) (le : n ≤ i) : wordAt (ladderDict n).buckets i = 0 := by
    rw [wordAt_ladder lt, if_neg (by omega)]
  have other : ladderKey ≠ flat32.getKey (ladderDict n).store (contentAt (ladderDict n).buckets n) := by
    rw [contentAt, ladderDict, getD_ladder (by omega), if_neg (lt_irrefl n)]
    exact show ladderKey ≠ 0 by decide
  have next : (ladderDict n).index.next n = n + 1 := if_neg (show ¬ n + 1 = 2 ^ 25 by omega)
  have found : (letI : Words := .source (many + n + 2); (ladderDict n).search flat32 ladderHash ladderKey) =
      .ok (.inr (kDistInc, n + 1)) := by
    have way := probe_ladder (N := many + n + 2) full (many + 2) (le_refl n)
    rw [Nat.sub_self, show many + 2 + n = many + n + 2 by omega] at way
    refine way.trans ?_
    rw [full, show kDistInc * 2 ^ 24 % 2 ^ 32 = 0 from rfl, probe_source, free (by omega) le_rfl, if_pos le_rfl,
      if_neg fun same => other same.2, next, probe_source, free (by omega) (by omega), if_neg (by decide), full]
    rfl
  have vacant : (ladderDict n).index.isFull = false := by
    show decide (_ < n) = false
    exact decide_eq_false (by rw [show n = 2 ^ 24 - 1 by omega]; decide)
  have placed := place_free (N := many + n + 1) (b := ⟨(ladderKey, 0), kDistInc⟩) (free (i := n + 1) (by omega) (by omega))
  refine ⟨⟨(), { (ladderDict n).index with size := n + 1 }, (ladderDict n).buckets.set (n + 1) ⟨(ladderKey, 0), kDistInc⟩⟩,
    ?_, rfl, rfl, rfl⟩
  exact put_of_room (P := (· = _)) found rfl vacant (congrArg (Except.bind · _) placed)

end

end

lemma Mirrors.ne_endless {α : Type} {x y : Except Fault α} {P : α → Prop} (mirrors : Mirrors x y)
    (gives : Gives (· = .overflow) P x) (near : x ≠ .error .overflow) : y ≠ .error .endless := by
  rcases mirrors with far | endless | rfl
  · exact absurd far near
  · rw [endless] at gives
    cases gives
  · rintro rfl
    cases gives

section
variable [DecidableEq K] {puts : List (K × V)}

/-- The puts end on the machine of the source, in some number of passes of its loops, and so do lookups after them. Left out are
    tables of `2 ^ 32` buckets, and distances that leave their 24 bits, which only large tables can reach. -/
def Dict.PutsEnd (L : Layout K V σ π) (hash : K → UInt64) (factor : LoadFactor) (d : Dict σ π) (puts : List (K × V)) : Prop :=
  d.StaysSmall L hash factor puts → (d.Grows L hash factor puts → d.putAll L hash factor puts ≠ .error .overflow) →
    ∃ N, (letI : Words := .source N; d.putAll L hash factor puts) ≠ .error .endless ∧
      ∀ d', (letI : Words := .source N; d.putAll L hash factor puts) = .ok d' → ∀ k,
        (d'.get L hash k ≠ .error .overflow → (letI : Words := .source N; d'.get L hash k) ≠ .error .endless) ∧
          (d'.exist L hash k ≠ .error .overflow → (letI : Words := .source N; d'.exist L hash k) ≠ .error .endless)

lemma Dict.putAll_mirrors (many : maxBucketCount < N) (small : d.StaysSmall L hash factor puts) :
    Mirrors (d.putAll L hash factor puts) (letI : Words := .source N; d.putAll L hash factor puts) := by
  induction puts generalizing d with
  | nil => exact .refl _
  | cons put puts ih =>
    have few : d.index.numBuckets < N := (small 0 d rfl).trans (lt_trans (by decide) many)
    refine (put_mirrors many few put.1 put.2).bind fun d1 run => ih fun n d' done => small (n + 1) d' ?_
    rw [putAll, take_succ_cons, foldlM_cons, run]
    exact done

lemma Dict.putsEnd_of_below {Holds : σ → List π → Prop} {m : K → Option V} (lawful : L.Lawful Holds)
    (below : factor.num < 2 ^ factor.exp) (new : d.index.numBuckets < 2 ^ 32 → d.Inv L hash Holds) (represents : d.Represents L m) :
    d.PutsEnd L hash factor puts := by
  intro small near
  have spec := putAll_spec lawful below puts (new (small 0 d rfl)) represents small
  have many : maxBucketCount < maxBucketCount + 1 := Nat.lt_succ_self _
  have noFar : d.putAll L hash factor puts ≠ .error .overflow := fun far => by
    rw [far] at spec
    rcases spec with same | ⟨-, grows⟩
    · cases same
    · exact near grows far
  have ends : d.putAll L hash factor puts ≠ .error .endless := fun endless => by
    rw [endless] at spec
    rcases spec with same | ⟨same, -⟩ <;> cases same
  refine ⟨maxBucketCount + 1, ?_⟩
  rw [(putAll_mirrors many small).eq ⟨noFar, ends⟩]
  refine ⟨ends, fun d' done k => ?_⟩
  have few : d'.index.numBuckets < maxBucketCount + 1 := (small puts.length d' (by rwa [take_length])).trans (by decide)
  rw [done] at spec
  exact ⟨(get_mirrors few k).ne_endless (get_spec spec.1.arranged spec.2 k),
    (exist_mirrors few k).ne_endless (exist_spec spec.1.arranged spec.2 k)⟩

/-- In a table without an empty bucket whose words all have the fingerprint 1 the displacement loop goes round for ever: it adds
    `kDistInc` to a word until it wraps, and no word becomes 0. -/
lemma placeAndShiftUp_round {index : IndexMeta} {bs : List (Bucket π)} (numBuckets : index.numBuckets = bs.length)
    (ones : ∀ j < bs.length, wordAt bs j % kDistInc = 1) (one : b.distAndFingerprint % kDistInc = 1) (inside : i < bs.length) :
    (letI : Words := .source N; placeAndShiftUp index fuel bs b i) = .error .endless := by
  induction fuel generalizing bs b i with
  | zero => rfl
  | succ fuel ih =>
    have here := ones i inside
    have occupied : (bs.getD i default).distAndFingerprint ≠ 0 := fun empty => by
      rw [wordAt, empty] at here
      cases here
    unfold placeAndShiftUp
    rw [if_pos occupied]
    have later : index.next i < bs.length := by
      rw [IndexMeta.next, numBuckets]
      split <;> omega
    refine ih (numBuckets.trans length_set.symm) (fun j lt => ?_) ?_ (by rwa [length_set])
    · rw [length_set] at lt
      rw [wordAt_set inside, Function.update_apply]
      split
      · exact one
      · exact ones j lt
    · show (wordAt bs i + kDistInc) % 2 ^ 32 % kDistInc = 1
      rw [kDistInc] at here ⊢
      omega

lemma Dict.place_round (numBuckets : d.index.numBuckets = d.buckets.length)
    (ones : ∀ j < d.buckets.length, wordAt d.buckets j % kDistInc = 1) (one : b.distAndFingerprint % kDistInc = 1)
    (inside : i < d.buckets.length) : (letI : Words := .source N; d.place b i) = .error .endless := by
  show (letI : Words := .source N; (placeAndShiftUp d.index N d.buckets b i).bind _) = _
  rw [placeAndShiftUp_round numBuckets ones one inside]
  rfl

lemma allocateBuckets_one (e size shifts : Nat) : allocateBuckets ⟨2 ^ e, e⟩ size shifts = allocateBuckets ⟨1, 0⟩ size shifts := by
  simp [allocateBuckets, pow_zero]

lemma Dict.putAll_one {w : Words} (L : Layout K V σ π) (hash : K → UInt64) (e : Nat) :
    putAll L hash ⟨2 ^ e, e⟩ = putAll L hash ⟨1, 0⟩ := by
  have rehash (d : Dict σ π) (shifts : Nat) : d.rehash L hash ⟨2 ^ e, e⟩ shifts = d.rehash L hash ⟨1, 0⟩ shifts := by
    rw [rehash, allocateBuckets_one, rehash]
  have put (d : Dict σ π) (k : K) (v : V) : d.put L hash ⟨2 ^ e, e⟩ k v = d.put L hash ⟨1, 0⟩ k v := by
    simp [put, increaseSize, rehash]
  funext d puts
  simp only [putAll, put]

end

def collidingPuts : List (StringView × StringView) := [1, 2, 3, 4, 5].map fun n => (sampleText n, sampleText n)

set_option maxRecDepth 4000 in
lemma colliding_round (N : Nat) : (letI : Words := .source N; (new ⟨1, 0⟩ 0 (create 4096)).putAll textLog
    (fun _ => 1) ⟨1, 0⟩ collidingPuts) = .error .endless := by
  rcases N with _ | _ | _ | _ | _ | N
  on_goal 6 =>
    -- after four puts the words are 257, 513, 769 and 1025, and the fifth is to be placed with 1281
    obtain ⟨d, four, store, word, found, one, numBuckets, length, ones, room, content, fits⟩ : ∃ d : Dict MmapFile Nat,
        (letI : Words := .source (N + 5); (new ⟨1, 0⟩ 0 (create 4096)).putAll textLog (fun _ => 1) ⟨1, 0⟩
          (collidingPuts.take 4)) = .ok d ∧ ∃ store word,
        (letI : Words := .source (N + 5); d.search textLog (fun _ => 1) (sampleText 5)) = .ok (.inr (word, 0)) ∧
        word % kDistInc = 1 ∧ d.index.numBuckets = 4 ∧ d.buckets.length = 4 ∧ (∀ j < 4, wordAt d.buckets j % kDistInc = 1) ∧ d.index.isFull = false ∧
        ∃ content, textLog.newBucket d.store (sampleText 5) (sampleText 5) = .ok (content, store) :=
      ⟨_, rfl, _, _, rfl, rfl, rfl, rfl, by decide, rfl, _, rfl⟩
    show (letI : Words := .source (N + 5); ((new ⟨1, 0⟩ 0 (create 4096)).putAll textLog (fun _ => 1) ⟨1, 0⟩
      (collidingPuts.take 4)).bind fun d => (d.put textLog (fun _ => 1) ⟨1, 0⟩ (sampleText 5)
        (sampleText 5)).bind .ok) = _
    rw [four]
    refine put_of_room (P := fun put => put.bind _ = _) found fits room ?_
    have round := place_round (N := N + 5) (d := { d with store }) (b := ⟨content, word⟩) (i := 0) (numBuckets.trans length.symm)
      (length ▸ ones) one (length ▸ by decide)
    rw [round]
    rfl
  all_goals rfl

lemma colliding_endless :
    ¬ (new ⟨1, 0⟩ 0 (create 4096)).PutsEnd textLog (fun _ => 1) ⟨1, 0⟩ collidingPuts := by
  intro ends
  have small : (new ⟨1, 0⟩ 0 (create 4096)).StaysSmall textLog (fun _ => 1) ⟨1, 0⟩ collidingPuts := by
    refine .cons (by decide) rfl (.cons (by decide) rfl (.cons (by decide) rfl (.cons (by decide) rfl ?_)))
    rintro (_ | n) d run
    · cases run
      decide
    · rw [take_of_length_le (by simp)] at run
      cases run
  obtain ⟨N, ends, -⟩ := ends small fun _ far => nomatch far
  exact ends (colliding_round N)

end Myctk.Rdict
