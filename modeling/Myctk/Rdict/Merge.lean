import Myctk.Rdict.DictRun

/-! Committing a dictionary and opening its path again (`Init`, `LoadIndex` and `Commit` of `rdict/rdict.h`, `MmapFile::Init`
    and `ShrinkToFit` of `rdict/mmap_file.cc`). -/

namespace Myctk.Rdict
open Dict Lib MmapFile KeyValPair

variable {K V σ π : Type}

structure Files (π : Type) where
  index : Option (IndexMeta × List (Bucket π))
  data : Option Bytes

def Files.none : Files π := ⟨.none, .none⟩

/-- The options, and whether `mmap` grants a number of bytes. -/
structure Options where
  readonly : Bool
  reservedSpaceBytes : Nat
  bucketCount : Nat
  maxLoadFactor : LoadFactor
  maps : Nat → Bool

def Options.Granted (opts : Options) : Prop := ∀ n, opts.maps n = true

namespace MmapFile

def segmentsFor (fileSize : Nat) : Nat :=
  if fileSize < kSegmentSize then kSegmentSize
  else
    let rest := fileSize % kSegmentSize
    if 0 < rest then fileSize + (kSegmentSize - rest) else fileSize

def init (opts : Options) (file : Option Bytes) : Except Fault MmapFile :=
  if opts.readonly then
    match file with
    | none => .error .unreadable
    | some data =>
      if data = [] ∨ opts.maps data.length = false then .error .unreadable else .ok ⟨data, data.length, data.length, false⟩
  else
    let data := file.getD []
    let fileSize := segmentsFor data.length
    let reserved := max opts.reservedSpaceBytes fileSize
    if opts.maps reserved then .ok ⟨data, fileSize, reserved, false⟩ else .error .unreadable

def shrinkToFit (f : MmapFile) : MmapFile × Bytes := ({ f with readonly := true }, f.data)

variable {opts : Options} {f : MmapFile}

lemma init_none (opened : init opts none = .ok f) : f = create opts.reservedSpaceBytes := by
  unfold init at opened
  split at opened
  · cases opened
  · dsimp only at opened
    split at opened
    · exact (Except.ok.inj opened).symm
    · cases opened

lemma init_some {data : Bytes} (opened : init opts (some data) = .ok f) : f.data = data ∧ f.readonly = false := by
  unfold init at opened
  dsimp only at opened
  split at opened <;> split at opened
  all_goals
    cases opened
    try exact ⟨rfl, rfl⟩

lemma exists_init {data : Bytes} (filled : data ≠ []) (granted : opts.Granted) : ∃ f, init opts (some data) = .ok f := by
  unfold init
  simp only [granted _, filled, if_true]
  split <;> exact ⟨_, rfl⟩

end MmapFile

/-- The parts of `Init` and `Commit` that depend on the layout. -/
structure Medium (K V σ π : Type) where
  layout : Layout K V σ π
  factor : Options → LoadFactor
  init : (K → UInt64) → Options → Files π → Except Fault (Dict σ π)
  commit : Dict σ π → Dict σ π × Files π

def flatFiles (K V : Type) [Inhabited K] [Inhabited V] : Medium K V Unit (K × V) where
  layout := flat K V
  factor _ := kDefaultMaxLoadFactor
  init hash opts files :=
    match files.index with
    | none => .ok (.new kDefaultMaxLoadFactor opts.bucketCount ())
    | some (index, buckets) =>
      if 0 < index.size then .ok ⟨(), index, buckets⟩
      else if opts.bucketCount ≠ 0 then
        Dict.reserve (flat K V) hash ⟨(), index, buckets⟩ kDefaultMaxLoadFactor opts.bucketCount
      else
        let index := allocateBuckets kDefaultMaxLoadFactor index.size index.shifts
        .ok ⟨(), index, List.replicate index.numBuckets default⟩
  commit d := (d, ⟨some (d.index, d.buckets), none⟩)

def recordLogFiles (K V : Type) [Serializer K] [Serializer V] : Medium K V MmapFile Nat where
  layout := recordLog K V
  factor opts := opts.maxLoadFactor
  init _ opts files := do
    let f ← init opts files.data
    if f.data.length = 0 then .ok (.new opts.maxLoadFactor opts.bucketCount f)
    else
      match files.index with
      | none => .error .unreadable
      | some (index, buckets) => .ok ⟨f, index, buckets⟩
  commit d :=
    let (f, data) := d.store.shrinkToFit
    ({ d with store := f }, ⟨some (d.index, d.buckets), some data⟩)

abbrev textFiles := recordLogFiles StringView StringView

/-- What was put and committed is there when the path is opened again, and further puts within the bounds are taken. -/
def Resumes [Inhabited π] [DecidableEq K] (M : Medium K V σ π) (hash : K → UInt64) (opts opts' : Options) (puts : List (K × V)) :
    Prop :=
  ∀ d₀ d, M.init hash opts .none = .ok d₀ → d₀.StaysSmall M.layout hash (M.factor opts) puts →
    d₀.putAll M.layout hash (M.factor opts) puts = .ok d → 0 < d.index.size →
    opts'.Granted →
    ∃ d', M.init hash opts' (M.commit d).2 = .ok d' ∧ (∀ k, d'.get M.layout hash k = d.get M.layout hash k) ∧
      d'.index.size = d.index.size ∧
      (opts'.readonly = false → ∀ more, d'.StaysSmall M.layout hash (M.factor opts') more →
        d'.Bounded M.layout hash (M.factor opts') more →
        ∃ d'', d'.putAll M.layout hash (M.factor opts') more = .ok d'' ∧ d''.Serves M.layout hash (puts ++ more))

structure Medium.Lawful [Inhabited π] (M : Medium K V σ π) (Holds : σ → List π → Prop) : Prop where
  layout : M.layout.Lawful Holds
  below : ∀ {opts}, opts.maxLoadFactor.num < 2 ^ opts.maxLoadFactor.exp → (M.factor opts).num < 2 ^ (M.factor opts).exp
  fresh : ∀ {hash opts d}, M.init hash opts .none = .ok d →
    ∃ store, Holds store [] ∧ d = .new (M.factor opts) opts.bucketCount store
  again : ∀ {d d'} {hash opts}, Holds d.store (contents d.buckets) → 0 < (contents d.buckets).length →
    d.index.size = (contents d.buckets).length → M.init hash opts (M.commit d).2 = .ok d' →
    ∃ store, d' = { d with store } ∧ Holds store (contents d.buckets) ∧
      M.layout.getKey store = M.layout.getKey d.store ∧ M.layout.getValue store = M.layout.getValue d.store
  opens : ∀ {d} (hash) {opts}, Holds d.store (contents d.buckets) → 0 < (contents d.buckets).length →
    d.index.size = (contents d.buckets).length → opts.Granted → ∃ d', M.init hash opts (M.commit d).2 = .ok d'

section
variable [Inhabited π] [DecidableEq K] {L : Layout K V σ π} {hash : K → UInt64} {d : Dict σ π} {store : σ}

lemma Dict.probe_congr (keys : L.getKey store = L.getKey d.store) (key : K) (fuel word i : Nat) :
    probe L { d with store } key fuel word i = d.probe L key fuel word i := by
  induction fuel generalizing word i with
  | zero => rfl
  | succ fuel ih => simp [probe, keys, ih]

lemma Dict.get_congr (keys : L.getKey store = L.getKey d.store) (values : L.getValue store = L.getValue d.store) (k : K) :
    get L hash { d with store } k = d.get L hash k := by
  simp only [get, search, passes, probe_congr keys, values]

omit [DecidableEq K] in
lemma Dict.Tidy.reopened {Holds Holds' : σ → List π → Prop} (tidy : d.Tidy L hash Holds)
    (holds : Holds' store (contents d.buckets)) (keys : L.getKey store = L.getKey d.store) : Tidy L hash Holds' { d with store } where
  arranged := ⟨tidy.arranged.numBuckets, tidy.arranged.robin.congr rfl rfl fun i _ _ => congrFun keys _⟩
  size := tidy.size
  holds := holds
  keys := by
    rw [keys]
    exact tidy.keys

omit [DecidableEq K] in
lemma Dict.Inv.reopened {Holds : σ → List π → Prop} (inv : d.Inv L hash Holds) (holds : Holds store (contents d.buckets))
    (keys : L.getKey store = L.getKey d.store) : Inv L hash Holds { d with store } :=
  have tidy := inv.tidy.reopened holds keys
  ⟨tidy.arranged, inv.sized, tidy.size, tidy.holds, tidy.keys⟩

omit [Inhabited π] [DecidableEq K] in
lemma Dict.Represents.reopened {m : K → Option V} (represents : d.Represents L m) (keys : L.getKey store = L.getKey d.store)
    (values : L.getValue store = L.getValue d.store) : Represents L { d with store } m := by
  rw [Represents, entries, keys, values]
  exact represents

end

lemma Medium.Lawful.resumes [Inhabited π] [DecidableEq K] {M : Medium K V σ π} {Holds : σ → List π → Prop}
    (lawful : M.Lawful Holds) (hash : K → UInt64) {opts opts' : Options} (below : opts.maxLoadFactor.num < 2 ^ opts.maxLoadFactor.exp)
    (below' : opts'.maxLoadFactor.num < 2 ^ opts'.maxLoadFactor.exp) (puts : List (K × V)) : Resumes M hash opts opts' puts := by
  intro d₀ d opened small built filled granted
  obtain ⟨store, holds, rfl⟩ := lawful.fresh opened
  have run := putAll_new_spec lawful.layout holds (lawful.below below) small
  rw [built] at run
  obtain ⟨inv, represents⟩ := run
  obtain ⟨d', reopened⟩ := lawful.opens hash inv.holds (inv.size ▸ filled) inv.size granted
  obtain ⟨store', rfl, holds', keys, values⟩ := lawful.again inv.holds (inv.size ▸ filled) inv.size reopened
  refine ⟨_, reopened, get_congr keys values, rfl, fun _ more small' bounded => ?_⟩
  obtain ⟨d'', run, inv', represents'⟩ := putAll_ok lawful.layout (lawful.below below') (inv.reopened holds' keys)
    (represents.reopened keys values) small' bounded
  rw [← lastPut_append] at represents'
  exact ⟨d'', run, inv'.serves represents'⟩

lemma flatFiles_lawful [Inhabited K] [Inhabited V] : (flatFiles K V).Lawful fun _ _ => True where
  layout := flat_lawful
  below := fun {_} _ => (by decide : kDefaultMaxLoadFactor.num < 2 ^ kDefaultMaxLoadFactor.exp)
  fresh := fun {_ _ _} opened => ⟨(), trivial, (Except.ok.inj opened).symm⟩
  again := by
    intro d d' hash opts _ some size opened
    exact ⟨(), (Except.ok.inj ((if_pos (size ▸ some)).symm.trans opened)).symm, trivial, rfl, rfl⟩
  opens := fun {_} _ {_} _ some size _ => ⟨_, if_pos (size ▸ some)⟩

lemma LogHolds.data_ne_nil [Serializer K] [Serializer V] {f : MmapFile} {cs : List Nat} (holds : LogHolds K V f cs)
    (some : 0 < cs.length) : f.data ≠ [] := by
  obtain ⟨-, recs, data, perm⟩ := holds
  intro empty
  have none : recs.length = 0 := by
    have le := length_le_bytes recs
    rw [← data, empty] at le
    exact Nat.le_zero.mp le
  rw [List.length_eq_zero_iff.mp none] at perm
  rw [← perm.length_eq] at some
  exact absurd some (Nat.lt_irrefl 0)

lemma recordLogFiles_lawful [Serializer K] [Serializer V] : (recordLogFiles K V).Lawful (LogHolds K V) where
  layout := recordLog_lawful
  below := id
  fresh := by
    intro hash opts d opened
    obtain ⟨f, created, rest⟩ := ok_of_bind opened
    obtain rfl := init_none created
    exact ⟨_, ⟨rfl, [], rfl, .refl _⟩, (Except.ok.inj rest).symm⟩
  again := by
    intro d d' hash opts holds nonempty _ opened
    obtain ⟨f, created, rest⟩ := ok_of_bind opened
    obtain ⟨data, writable⟩ := init_some created
    have filled : f.data.length ≠ 0 := fun empty => holds.data_ne_nil nonempty (data ▸ List.length_eq_zero_iff.mp empty)
    obtain ⟨-, recs, records, perm⟩ := holds
    refine ⟨f, (Except.ok.inj ((if_neg filled).symm.trans rest)).symm, ⟨writable, recs, data.trans records, perm⟩, ?_, ?_⟩
    · funext o
      show unpackKey K (f.data.drop o) = unpackKey K (d.store.data.drop o)
      rw [data]
    · funext o
      show (unpack K V (f.data.drop o)).2.1 = (unpack K V (d.store.data.drop o)).2.1
      rw [data]
  opens := by
    intro d hash opts holds nonempty _ granted
    obtain ⟨f, created⟩ := exists_init (holds.data_ne_nil nonempty) granted
    have filled : f.data.length ≠ 0 := fun empty =>
      holds.data_ne_nil nonempty ((init_some created).1 ▸ List.length_eq_zero_iff.mp empty)
    refine ⟨⟨f, d.index, d.buckets⟩, ?_⟩
    show (init opts (some d.store.data)).bind _ = _
    rw [created]
    exact if_neg filled

def Options.default : Options := ⟨false, 100 * 1024 * 1024 * 1024, 0, kDefaultMaxLoadFactor, fun _ => true⟩

def sampleText (n : UInt8) : StringView := ⟨[n], (by decide : 1 < 256 ^ 4)⟩

def textPuts : List (StringView × StringView) := [(sampleText 1, sampleText 10), (sampleText 2, sampleText 20)]

def morePuts : List (StringView × StringView) := [(sampleText 3, sampleText 30), (sampleText 1, sampleText 11)]

open List Nat

variable {K V σ π : Type} [Inhabited π]

section
variable {L : Layout K V σ π} {hash : K → UInt64} {factor : LoadFactor} {Holds : σ → List π → Prop} {d d' : Dict σ π}

lemma calcNumBuckets_anti {a b : Nat} (le : a ≤ b) : calcNumBuckets b ≤ calcNumBuckets a := by
  rw [calcNumBuckets, calcNumBuckets]
  exact Nat.le_min.mpr ⟨min_le_left _ _,
    le_trans (min_le_right _ _) (Nat.pow_le_pow_right Nat.two_pos (Nat.sub_le_sub_left le 64))⟩

structure Dict.Reserved (L : Layout K V σ π) (hash : K → UInt64) (factor : LoadFactor) (d d' : Dict σ π) : Prop where
  arranged : d'.Arranged L hash
  store : d'.store = d.store
  index : d'.index = d.index ∨ ∃ shifts, (1 ≤ shifts ∧ shifts ≤ initialShifts) ∧
    d'.index = allocateBuckets factor d.index.size shifts
  perm : (contents d'.buckets).Perm (contents d.buckets)

lemma Dict.Reserved.size (reserved : d.Reserved L hash factor d') : d'.index.size = d.index.size := by
  rcases reserved.index with same | ⟨shifts, -, same⟩ <;> rw [same]
  rfl

lemma Dict.reserve_spec (tidy : d.Tidy L hash Holds) (laid : d.index.Laid) (lists : L.Lists d.store (contents d.buckets))
    (capa : Nat) : Gives (· = .overflow) (d.Reserved L hash factor) (d.reserve L hash factor capa) := by
  rw [reserve]
  split
  case isFalse => exact ⟨tidy.arranged, rfl, .inl rfl, .refl _⟩
  case isTrue cond =>
    have occupied : (contents d.buckets).length ≤ calcNumBuckets d.index.shifts := by
      rw [← laid.numBuckets, tidy.arranged.numBuckets]
      exact length_filterMap_le _ _
    have less := cond.resolve_left (ne_of_gt (by
      rw [tidy.arranged.numBuckets]
      exact lt_of_lt_of_le two_pos tidy.arranged.robin.two))
    obtain ⟨shifts, eq, range, le⟩ : ∃ shifts, shifts =
        (if calcShiftsForSize factor (max (min capa maxBucketCount) d.index.size) initialShifts = 0 then d.index.shifts
          else calcShiftsForSize factor (max (min capa maxBucketCount) d.index.size) initialShifts) ∧
        (1 ≤ shifts ∧ shifts ≤ initialShifts) ∧ shifts ≤ d.index.shifts := by
      refine ⟨_, rfl, ?_⟩
      have := laid.shifts
      split <;> omega
    rw [← eq]
    have room : d.index.size ≤ calcNumBuckets shifts := by
      rw [tidy.size]
      exact le_trans occupied (calcNumBuckets_anti le)
    exact ((rehash_spec tidy.size lists range room).weaken fun _ far => far.1).mono fun d' ⟨arranged, store, index, perm⟩ =>
      ⟨arranged, store, .inr ⟨shifts, range, index⟩, perm⟩

def Layout.seenFrom (L : Layout K V σ π) (s : σ) : Layout K V σ π := { L with getKey := fun _ => L.getKey s }

variable {other : Dict σ π} {fuel cursor n : Nat} {s : σ} {vals : List π}

lemma Dict.mergeLoop_zero : mergeLoop L hash other fuel 0 cursor d = .ok d := by
  cases fuel <;> rfl

structure Dict.Merged (L : Layout K V σ π) (hash : K → UInt64) (d : Dict σ π) (cs : List π) (d' : Dict σ π) : Prop where
  arranged : d'.Arranged L hash
  store : d'.store = d.store
  index : d'.index = { d.index with size := d.index.size + cs.length }
  perm : (contents d'.buckets).Perm (cs ++ contents d.buckets)

lemma Dict.mergeLoop_spec (reads : L.Reads other.store other.buckets n cursor vals) (enough : n ≤ fuel)
    (keys : ∀ c ∈ vals, L.getKey s (L.taken d.store c) = L.getKey other.store c) (arranged : d.Arranged (L.seenFrom s) hash) :
    Gives Fault.NoOutcome (d.Merged (L.seenFrom s) hash (vals.map (L.taken d.store)))
      (mergeLoop L hash other fuel vals.length cursor d) := by
  induction reads generalizing d fuel with
  | done =>
    rw [length_nil, mergeLoop_zero]
    exact ⟨arranged, rfl, rfl, .refl _⟩
  | @skip n cursor cursor' vals read later ih =>
    cases vals with
    | nil =>
      rw [length_nil, mergeLoop_zero]
      exact ⟨arranged, rfl, rfl, .refl _⟩
    | cons c vals =>
      obtain ⟨fuel, rfl⟩ : ∃ m, fuel = m + 1 := ⟨fuel - 1, by omega⟩
      rw [length_cons, mergeLoop, read]
      exact ih (le_of_succ_le_succ enough) keys arranged
  | @value n cursor cursor' c vals read later ih =>
    obtain ⟨fuel, rfl⟩ : ∃ m, fuel = m + 1 := ⟨fuel - 1, by omega⟩
    rw [length_cons, mergeLoop, read]
    have key := keys c mem_cons_self
    refine ((nextWhileLess_spec arranged (L.getKey other.store c)).weaken fun _ far => .inl far.1).bind ?_
    rintro ⟨i, word⟩ ends
    rw [← key] at ends
    refine (place_ofOk arranged ends).bind fun d1 filled => ?_
    have store : d1.grown.store = d.store := filled.store
    have arranged1 : d1.grown.Arranged (L.seenFrom s) hash := ⟨filled.arranged.numBuckets, filled.arranged.robin⟩
    have rest := ih (d := d1.grown) (le_of_succ_le_succ enough)
      (fun c member => by rw [store]; exact keys c (mem_cons_of_mem _ member)) arranged1
    refine rest.mono fun d2 merged => ⟨merged.arranged, merged.store.trans store, ?_, ?_⟩
    · rw [merged.index, grown, filled.index, length_map, length_map, length_cons, add_assoc,
        add_comm 1]
    · refine merged.perm.trans ?_
      rw [store, map_cons]
      exact (filled.perm.append_left _).trans perm_middle

lemma Dict.Reserved.merge (reserved : d.Reserved L hash factor d')
    (keeps : L.Keeps (contents d.buckets) d.store s) (reads : L.Reads other.store other.buckets n 0 vals)
    (takes : ∀ c ∈ vals, L.getKey s (L.taken d.store c) = L.getKey other.store c) :
    Gives Fault.NoOutcome (d'.Merged (L.seenFrom s) hash (vals.map (L.taken d'.store)))
      (mergeLoop L hash other n vals.length 0 d') := by
  refine mergeLoop_spec reads le_rfl (fun c member => ?_) ?_
  · rw [reserved.store]
    exact takes c member
  · refine ⟨reserved.arranged.numBuckets, reserved.arranged.robin.congr rfl rfl fun i lt occupied => ?_⟩
    have member := reserved.perm.mem_iff.mp (mem_contents.mpr ⟨i, lt, occupied, rfl⟩)
    rw [reserved.store]
    exact (keeps _ member).1

end

def Layout.Joins (L : Layout K V σ π) (Holds : σ → List π → Prop) : Prop :=
  ∀ {s t cs ds}, Holds s cs → Holds t ds → ∃ s', L.Keeps cs s s' ∧
    (∀ c ∈ ds, L.getKey s' (L.taken s c) = L.getKey t c ∧ L.getValue s' (L.taken s c) = L.getValue t c) ∧
    Gives Fault.Excluded (fun s'' => Holds s'' (ds.map (L.taken s) ++ cs) ∧ L.getKey s'' = L.getKey s' ∧
      L.getValue s'' = L.getValue s') (L.join s t)

section
variable {L : Layout K V σ π} {hash : K → UInt64} {factor : LoadFactor} {Holds : σ → List π → Prop} {a b d : Dict σ π}

/-- The merged dictionary: the entries of both, in the table of the first or a larger one. -/
structure Dict.Unites (L : Layout K V σ π) (hash : K → UInt64) (factor : LoadFactor) (Holds : σ → List π → Prop) (a b d : Dict σ π) :
    Prop where
  store : L.join a.store b.store = .ok d.store
  size : d.index.size = a.index.size + b.index.size
  entries : (d.entries L).Perm (b.entries L ++ a.entries L)
  index : d.index = { a.index with size := d.index.size } ∨
    ∃ shifts, (1 ≤ shifts ∧ shifts ≤ initialShifts) ∧ d.index = allocateBuckets factor d.index.size shifts
  tidy : ((b.entries L ++ a.entries L).map Prod.fst).Nodup → d.Tidy L hash Holds

lemma Dict.Unites.laid (unites : a.Unites L hash factor Holds b d) (laid : a.index.Laid) : d.index.Laid := by
  rcases unites.index with same | ⟨shifts, range, same⟩ <;> rw [same]
  · exact ⟨laid.shifts, laid.numBuckets, laid.capacity⟩
  · exact laid_allocateBuckets range _

lemma Dict.Unites.inv (unites : a.Unites L hash factor Holds b d) (below : factor.num < 2 ^ factor.exp) (sized : a.index.Sized)
    (small : d.index.numBuckets < 2 ^ 32) (nodup : ((b.entries L ++ a.entries L).map Prod.fst).Nodup) : d.Inv L hash Holds := by
  have tidy := unites.tidy nodup
  refine ⟨tidy.arranged, ?_, tidy.size, tidy.holds, tidy.keys⟩
  rcases unites.index with same | ⟨shifts, range, same⟩ <;> rw [same] at small ⊢
  · exact ⟨sized.shifts, sized.numBuckets, sized.capacity⟩
  · exact sized_allocateBuckets ⟨two_le_of_small small, range.2⟩ below _

lemma Dict.merge_spec (lawful : L.Lawful Holds) (joins : L.Joins Holds) (tidyA : a.Tidy L hash Holds) (laid : a.index.Laid)
    (tidyB : b.Tidy L hash Holds) (factor : LoadFactor) (readonly : Bool) :
    Gives (fun _ => True) (a.Unites L hash factor Holds b) (a.merge L hash factor readonly b) := by
  rw [merge]
  split
  · exact trivial
  refine (reserve_spec tidyA laid (lawful.lists tidyA.holds) _).ofOk.bind fun d1 reserved => ?_
  obtain ⟨vals, listed, reads⟩ := lawful.lists tidyB.holds b.buckets (.refl _)
  obtain ⟨s, keeps, takes, joined⟩ := joins tidyA.holds (lawful.perm tidyB.holds listed.symm)
  have count : b.index.size = vals.length := by rw [tidyB.size, listed.length_eq]
  rw [count]
  refine (reserved.merge keeps reads fun c member => (takes c member).1).ofOk.bind fun d2 merged => ?_
  have store : d2.store = a.store := merged.store.trans reserved.store
  rw [store]
  cases join : L.join a.store b.store with
  | error f => exact trivial
  | ok s' =>
    rw [join] at joined
    obtain ⟨holds, keys, values⟩ := joined
    have perm : (contents d2.buckets).Perm (vals.map (L.taken a.store) ++ contents a.buckets) := by
      have all := merged.perm
      rw [reserved.store] at all
      exact all.trans (reserved.perm.append_left _)
    have size : d2.index.size = a.index.size + b.index.size := by
      rw [merged.index, length_map, reserved.size, count]
    have entries : (entries L { d2 with store := s' }).Perm (b.entries L ++ a.entries L) := by
      refine (perm.map _).trans ?_
      rw [map_append, map_map, keys, values, keeps.map]
      refine List.Perm.append_right _ ((List.Perm.of_eq (map_congr_left fun c member => ?_)).trans (listed.map _))
      exact Prod.ext (takes c member).1 (takes c member).2
    refine ⟨join, size, entries, ?_, fun nodup => ⟨⟨merged.arranged.numBuckets, ?_⟩, ?_, lawful.perm holds perm.symm, ?_⟩⟩
    · rw [merged.index]
      rcases reserved.index with same | ⟨shifts, range, same⟩ <;> rw [same]
      · exact .inl rfl
      · exact .inr ⟨shifts, range, rfl⟩
    · rw [keys]
      exact merged.arranged.robin
    · show d2.index.size = (contents d2.buckets).length
      rw [size, perm.length_eq, length_append, length_map, ← count, tidyA.size, add_comm]
    · rw [← (entries.map Prod.fst).nodup_iff, Dict.entries, map_map] at nodup
      exact nodup

end

variable [DecidableEq K]

/-- The dictionaries that come from puts and from opening a committed path again, with the puts so far. -/
inductive Medium.Built (M : Medium K V σ π) (hash : K → UInt64) : Options → List (K × V) → Dict σ π → Prop
  | fresh {opts d} (below : opts.maxLoadFactor.num < 2 ^ opts.maxLoadFactor.exp) (opened : M.init hash opts .none = .ok d)
      (small : d.index.numBuckets < 2 ^ 32) : M.Built hash opts [] d
  | put {opts puts d d' k v} (built : M.Built hash opts puts d) (writable : opts.readonly = false)
      (put : d.put M.layout hash (M.factor opts) k v = .ok d') (small : d'.index.numBuckets < 2 ^ 32) :
      M.Built hash opts (puts ++ [(k, v)]) d'
  | again {opts opts' puts d d'} (built : M.Built hash opts puts d) (filled : 0 < d.index.size)
      (below : opts'.maxLoadFactor.num < 2 ^ opts'.maxLoadFactor.exp) (opened : M.init hash opts' (M.commit d).2 = .ok d') :
      M.Built hash opts' puts d'

section
variable {M : Medium K V σ π} {hash : K → UInt64} {Holds : σ → List π → Prop} {d : Dict σ π} {opts : Options}
  {puts : List (K × V)}

lemma Medium.Built.spec (lawful : M.Lawful Holds) (built : M.Built hash opts puts d) :
    opts.maxLoadFactor.num < 2 ^ opts.maxLoadFactor.exp ∧ d.index.numBuckets < 2 ^ 32 ∧ d.Inv M.layout hash Holds ∧
      d.Represents M.layout (lastPut puts) := by
  induction built with
  | @fresh opts d below opened small =>
    obtain ⟨store, holds, rfl⟩ := lawful.fresh opened
    exact ⟨below, small, putAll_new_spec lawful.layout holds (lawful.below below) (.nil small)⟩
  | @put opts puts d d' k v _ _ run small ih =>
    obtain ⟨below, small0, inv, represents⟩ := ih
    have stored := put_spec lawful.layout (lawful.below below) inv (inv.shifts_of_small small0) k v
    rw [run] at stored
    rw [lastPut_append]
    exact ⟨below, small, stored.inv, stored.represents represents⟩
  | again _ filled below opened ih =>
    obtain ⟨-, small, inv, represents⟩ := ih
    obtain ⟨store, rfl, holds, keys, values⟩ := lawful.again inv.holds (inv.size ▸ filled) inv.size opened
    exact ⟨below, small, inv.reopened holds keys, represents.reopened keys values⟩

/-- Whatever was put in all the sessions is served in the last one, which takes further puts within the bounds, and what it
    commits can be opened. -/
def Medium.Serves (M : Medium K V σ π) (hash : K → UInt64) : Prop :=
  ∀ {opts puts d}, M.Built hash opts puts d → d.Serves M.layout hash puts ∧
    (∀ more, d.StaysSmall M.layout hash (M.factor opts) more → d.Bounded M.layout hash (M.factor opts) more →
      ∃ d', d.putAll M.layout hash (M.factor opts) more = .ok d' ∧ d'.Serves M.layout hash (puts ++ more)) ∧
    (puts ≠ [] → ∀ opts' : Options, opts'.Granted → ∃ d', M.init hash opts' (M.commit d).2 = .ok d')

lemma Medium.Lawful.serves (lawful : M.Lawful Holds) (hash : K → UInt64) : M.Serves hash := by
  intro opts puts d built
  obtain ⟨below, -, inv, represents⟩ := built.spec lawful
  have serves := inv.serves represents
  refine ⟨serves, fun more small bounded => ?_, fun some opts' granted => ?_⟩
  · obtain ⟨d', run, inv', represents'⟩ := putAll_ok lawful.layout (lawful.below below) inv represents small bounded
    rw [← lastPut_append] at represents'
    exact ⟨d', run, inv'.serves represents'⟩
  · have filled : 0 < d.index.size := by
      rw [serves.size, length_pos_iff, Ne, dedup_eq_nil]
      simpa using some
    exact lawful.opens hash inv.holds (inv.size ▸ filled) inv.size granted

structure Dict.IsUnion (L : Layout K V σ π) (hash : K → UInt64) (factor : LoadFactor) (putsA putsB : List (K × V))
    (d : Dict σ π) : Prop where
  get : ∀ k, Gives Fault.Excluded (· = (lastPut putsB k).or (lastPut putsA k)) (d.get L hash k)
  size : d.index.size = ((putsA ++ putsB).map Prod.fst).dedup.length
  later : ∀ more, d.StaysSmall L hash factor more → Gives Fault.Excluded (fun d' =>
    (∀ k, Gives Fault.Excluded (· = afterPuts (fun k => (lastPut putsB k).or (lastPut putsA k)) more k) (d'.get L hash k)) ∧
    d'.index.size = ((putsA ++ putsB ++ more).map Prod.fst).dedup.length) (d.putAll L hash factor more)

def UnionIffDisjoint (M : Medium K V σ π) (hash : K → UInt64) : Prop :=
  ∀ {optsA optsB putsA putsB a b d}, M.Built hash optsA putsA a → M.Built hash optsB putsB b →
    a.merge M.layout hash (M.factor optsA) optsA.readonly b = .ok d → d.index.numBuckets < 2 ^ 32 →
    (d.IsUnion M.layout hash (M.factor optsA) putsA putsB ↔ (putsA.map Prod.fst).Disjoint (putsB.map Prod.fst))

lemma length_dedup_append {xs ys : List K} (length : (xs ++ ys).dedup.length = xs.dedup.length + ys.dedup.length) :
    xs.Disjoint ys := by
  rw [← card_toFinset, ← card_toFinset, ← card_toFinset, toFinset_append,
    Finset.card_union_eq_card_add_card] at length
  exact disjoint_toFinset_iff_disjoint.mp length

omit [Inhabited π] [DecidableEq K] in
lemma represents_or {L : Layout K V σ π} {entriesA entriesB : List (K × V)} {f g : K → Option V}
    (mapA : ∀ k v, (k, v) ∈ entriesA ↔ f k = some v) (mapB : ∀ k v, (k, v) ∈ entriesB ↔ g k = some v)
    (disjoint : ∀ k, (f k).isSome → (g k).isSome → False) (perm : (d.entries L).Perm (entriesB ++ entriesA)) :
    d.Represents L fun k => (g k).or (f k) := by
  intro k v
  show _ ↔ (g k).or (f k) = some v
  rw [perm.mem_iff, mem_append, mapA, mapB]
  cases here : g k with
  | none => simp
  | some w =>
    have missing : f k = none := by
      rw [← Option.not_isSome_iff_eq_none]
      exact fun there => disjoint k there (by rw [here]; rfl)
    simp [missing]

lemma unionIffDisjoint_of_lawful (lawful : M.Lawful Holds) (joins : M.layout.Joins Holds) : UnionIffDisjoint M hash := by
  intro optsA optsB putsA putsB a b d builtA builtB run small
  obtain ⟨below, -, invA, representsA⟩ := builtA.spec lawful
  obtain ⟨-, -, invB, representsB⟩ := builtB.spec lawful
  have unites := merge_spec lawful.layout joins invA.tidy invA.sized.laid invB.tidy (M.factor optsA) optsA.readonly
  rw [run] at unites
  have sizeA := invA.size_eq representsA fun k => (isSome_lastPut putsA k).symm
  have sizeB := invB.size_eq representsB fun k => (isSome_lastPut putsB k).symm
  constructor
  · intro union
    refine length_dedup_append ?_
    rw [← sizeA, ← sizeB, ← unites.size, union.size, map_append]
  · intro disjoint
    have apart : ∀ k, (lastPut putsA k).isSome → (lastPut putsB k).isSome → False := fun k inA inB =>
      disjoint ((isSome_lastPut putsA k).mp inA) ((isSome_lastPut putsB k).mp inB)
    have represents := represents_or representsA representsB apart unites.entries
    have nodup : ((b.entries M.layout ++ a.entries M.layout).map Prod.fst).Nodup := by
      rw [map_append, nodup_append']
      refine ⟨invB.nodup_keys, invA.nodup_keys, fun k inB inA => ?_⟩
      exact apart k ((mem_keys representsA k).mp inA) ((mem_keys representsB k).mp inB)
    have inv := unites.inv (lawful.below below) invA.sized small nodup
    have domain : ∀ k, k ∈ (putsA ++ putsB).map Prod.fst ↔ ((lastPut putsB k).or (lastPut putsA k)).isSome := by
      intro k
      rw [map_append, mem_append, ← isSome_lastPut, ← isSome_lastPut, Option.isSome_or, Bool.or_eq_true, or_comm]
    refine ⟨fun k => (get_spec inv.arranged represents k).weaken fun _ => .inl, inv.size_eq represents domain, fun more stays => ?_⟩
    have later := putAll_spec lawful.layout (lawful.below below) more inv represents stays
    refine (later.weaken fun _ fault => fault.symm.imp_left And.left).mono fun d' ⟨inv', represents'⟩ => ?_
    refine ⟨fun k => (get_spec inv'.arranged represents' k).weaken fun _ => .inl, inv'.size_eq represents' fun k => ?_⟩
    rw [isSome_afterPuts, ← domain, map_append, mem_append, or_comm]

end

section
variable {K V : Type}

lemma flat_joins : (flat K V).Joins fun _ _ => True :=
  fun {_ _ _ _} _ _ => ⟨(), fun _ _ => ⟨rfl, rfl⟩, fun _ _ => ⟨rfl, rfl⟩, trivial, rfl, rfl⟩

lemma recordLog_joins [Serializer K] [Serializer V] : (recordLog K V).Joins (LogHolds K V) := by
  rintro f g cs ds ⟨writable, recs, data, perm⟩ ⟨-, recs', data', perm'⟩
  let joined : MmapFile := { f with data := f.data ++ g.data }
  have all : joined.data = (recs ++ recs').flatMap Rec.bytes := by
    show f.data ++ g.data = _
    rw [data, data', flatMap_append]
  have shifted : ∀ o ∈ ds, ∃ r, StartsAt Rec.bytes recs' o r ∧ StartsAt Rec.bytes (recs ++ recs') (f.data.length + o) r := by
    intro o member
    obtain ⟨r, before, after, rfl, rfl⟩ := startsAt_of_mem_live (perm'.mem_iff.mpr member)
    refine ⟨r, ⟨before, after, rfl, rfl⟩, recs ++ before, after, by rw [append_assoc], ?_⟩
    rw [data, flatMap_append, length_append]
  refine ⟨joined, log_keeps data all fun o member => ?_, fun o member => ?_, ?_⟩
  · obtain ⟨r, there⟩ := startsAt_of_mem_live (perm.mem_iff.mpr member)
    exact ⟨r, there, there.append _⟩
  · obtain ⟨r, before, after⟩ := shifted o member
    exact ⟨(getKey_of_startsAt all after).trans (getKey_of_startsAt data' before).symm,
      (getValue_of_startsAt all after).trans (getValue_of_startsAt data' before).symm⟩
  · refine ((add_spec writable g.data).weaken fun _ => .inr).bind ?_
    rintro ⟨_, f'⟩ ⟨-, eq, writable'⟩
    have same : f'.data = joined.data := eq
    refine ⟨⟨writable', recs ++ recs', same.trans all, ?_⟩, ?_, ?_⟩
    · rw [live_append, ← data, ← add_zero f.data.length, Lib.starts_add]
      exact (perm.append (perm'.map _)).trans perm_append_comm
    · funext o
      show unpackKey K (f'.data.drop o) = unpackKey K (joined.data.drop o)
      rw [same]
    · funext o
      show (unpack K V (f'.data.drop o)).2.1 = (unpack K V (joined.data.drop o)).2.1
      rw [same]

theorem sessions_serve [DecidableEq K] [Inhabited K] [Inhabited V] [Serializer K] [Serializer V] (hash : K → UInt64) :
    (flatFiles K V).Serves hash ∧ (recordLogFiles K V).Serves hash :=
  ⟨flatFiles_lawful.serves hash, recordLogFiles_lawful.serves hash⟩

/-- Two sessions, and a third one that reads. -/
theorem sessions_serve_sample : ∃ d,
    textFiles.Built (fun _ => 1) .default [(sampleText 1, sampleText 10), (sampleText 1, sampleText 11)] d ∧
      d.get textLog (fun _ => 1) (sampleText 1) = .ok (some (sampleText 11)) ∧ d.index.size = 1 := by
  have fresh : textFiles.Built (fun _ => 1) .default [] _ := .fresh (by decide) rfl (by decide)
  have first : textFiles.Built (fun _ => 1) .default ([] ++ [(sampleText 1, sampleText 10)]) _ :=
    .again (.put fresh rfl rfl (by decide)) (by decide) (by decide) rfl
  have built : textFiles.Built (fun _ => 1) .default
      ([] ++ [(sampleText 1, sampleText 10)] ++ [(sampleText 1, sampleText 11)]) _ :=
    .again (.put first rfl rfl (by decide)) (by decide) (by decide) rfl
  obtain ⟨serves, -⟩ := (sessions_serve fun _ => 1).2 built
  exact ⟨_, built, (serves.lookup _ (absurd · (by decide))).1, serves.size⟩

end

end Myctk.Rdict
