import Myctk.Rdict.LogWalk
import Myctk.Rdict.Merge

/-! A `Merge` that fails (`rdict/rdict.h`). The data of the other dictionary are added last, when the buckets and the size have
    changed, and nothing is undone if that fails. -/

namespace Myctk.Rdict

open List Lib MmapFile Dict

section
variable {K V σ π : Type} [Inhabited π]

/-- The status of `Merge`, and the dictionary that it leaves behind. -/
def Dict.mergeRun (L : Layout K V σ π) (hash : K → UInt64) (d : Dict σ π) (factor : LoadFactor) (readonly : Bool)
    (other : Dict σ π) : Except Fault (Option Fault × Dict σ π) := do
  if readonly then .ok (some .readonly, d) else
  let d ← d.reserve L hash factor ((d.index.size + other.index.size) * 2 ^ factor.exp / factor.num)
  let d ← mergeLoop L hash other (L.extent other.store other.buckets) other.index.size 0 d
  match L.join d.store other.store with
  | .ok store => .ok (none, { d with store })
  | .error f => .ok (some f, d)

/-- `merge` is `mergeRun` without the dictionary that an error leaves. -/
lemma Dict.merge_eq_mergeRun (L : Layout K V σ π) (hash : K → UInt64) (d : Dict σ π) (factor : LoadFactor) (readonly : Bool)
    (other : Dict σ π) : d.merge L hash factor readonly other =
      (d.mergeRun L hash factor readonly other).bind fun out => out.1.elim (.ok out.2) .error := by
  unfold merge mergeRun
  split
  · rfl
  cases d.reserve L hash factor ((d.index.size + other.index.size) * 2 ^ factor.exp / factor.num) with
  | error f => rfl
  | ok d1 =>
    show (mergeLoop L hash other _ _ 0 d1).bind _ = ((mergeLoop L hash other _ _ 0 d1).bind _).bind _
    cases mergeLoop L hash other (L.extent other.store other.buckets) other.index.size 0 d1 with
    | error f => rfl
    | ok d2 =>
      show (L.join d2.store other.store).bind _ = Except.bind (match L.join d2.store other.store with
        | .ok store => .ok (none, { d2 with store })
        | .error f => .ok (some f, d2)) _
      cases L.join d2.store other.store <;> rfl

def Agrees {α : Type} (r : α → α → Prop) (x y : Except Fault α) : Prop :=
  x = .error .overflow ∨ y = .error .overflow ∨ (∃ f, x = .error f ∧ y = .error f) ∨ ∃ a b, x = .ok a ∧ y = .ok b ∧ r a b

lemma Agrees.refl {α : Type} {r : α → α → Prop} (same : ∀ a, r a a) (x : Except Fault α) : Agrees r x x := by
  cases x with
  | error f => exact .inr (.inr (.inl ⟨f, rfl, rfl⟩))
  | ok a => exact .inr (.inr (.inr ⟨a, a, rfl, rfl, same a⟩))

lemma agrees_of_gives {α : Type} {v : α} {x y : Except Fault α} (first : Gives (· = .overflow) (· = v) x)
    (second : Gives (· = .overflow) (· = v) y) : Agrees Eq x y := by
  cases x with
  | error f => exact .inl (congrArg _ first)
  | ok a =>
    cases y with
    | error f => exact .inr (.inl (congrArg _ second))
    | ok b => exact .inr (.inr (.inr ⟨a, b, rfl, rfl, first.trans second.symm⟩))

variable [DecidableEq K]

structure Dict.Twin (L : Layout K V σ π) (hash : K → UInt64) (a d : Dict σ π) : Prop where
  store : d.store = a.store
  size : d.index.size = a.index.size
  get : ∀ k, Agrees Eq (a.get L hash k) (d.get L hash k)

lemma Dict.Tidy.represents {L : Layout K V σ π} {hash : K → UInt64} {Holds : σ → List π → Prop} {d : Dict σ π}
    (tidy : d.Tidy L hash Holds) : ∃ m, d.Represents L m := by
  have nodup : ((d.entries L).map Prod.fst).Nodup := by
    rw [entries, map_map]
    exact tidy.keys
  unfold Represents
  generalize d.entries L = entries at nodup
  induction entries with
  | nil => exact ⟨fun _ => none, fun _ _ => iff_of_false not_mem_nil (Option.some_ne_none _).symm⟩
  | cons entry entries ih =>
    rw [map_cons, nodup_cons] at nodup
    obtain ⟨m, represents⟩ := ih nodup.2
    refine ⟨Function.update m entry.1 (some entry.2), fun k v => ?_⟩
    rcases eq_or_ne k entry.1 with rfl | other
    · have once : (entry.1, v) ∉ entries := fun member => nodup.1 (mem_map.mpr ⟨_, member, rfl⟩)
      simp [once, Prod.ext_iff, eq_comm]
    · simp [other, represents, Prod.ext_iff]

structure Medium.Unchanged (M : Medium K V σ π) (hash : K → UInt64) (opts : Options) (a d : Dict σ π) : Prop where
  puts : ∀ puts, Agrees (Twin M.layout hash) (a.putAll M.layout hash (M.factor opts) puts)
    (d.putAll M.layout hash (M.factor opts) puts)
  commit : ∀ puts a' d', a.putAll M.layout hash (M.factor opts) puts = .ok a' →
    d.putAll M.layout hash (M.factor opts) puts = .ok d' → ∀ opts',
      Agrees (Twin M.layout hash) (M.init hash opts' (M.commit a').2) (M.init hash opts' (M.commit d').2)

/-- The dictionaries that come from opening a path, puts, commits and merges of dictionaries that have no key in common. -/
inductive Medium.Handled (M : Medium K V σ π) (hash : K → UInt64) : Options → Dict σ π → Prop
  | fresh {opts d} (opened : M.init hash opts .none = .ok d) : M.Handled hash opts d
  | put {opts d d' k v} (handled : M.Handled hash opts d) (writable : opts.readonly = false)
      (put : d.put M.layout hash (M.factor opts) k v = .ok d') : M.Handled hash opts d'
  | commit {opts d} (handled : M.Handled hash opts d) : M.Handled hash opts (M.commit d).1
  | again {opts opts' d d'} (handled : M.Handled hash opts d) (opened : M.init hash opts' (M.commit d).2 = .ok d') :
      M.Handled hash opts' d'
  | merge {opts opts' a b d} (handledA : M.Handled hash opts a) (handledB : M.Handled hash opts' b)
      (apart : ((b.entries M.layout ++ a.entries M.layout).map Prod.fst).Nodup)
      (merged : a.mergeRun M.layout hash (M.factor opts) opts.readonly b = .ok (none, d)) : M.Handled hash opts d

variable {M : Medium K V σ π} {L : Layout K V σ π} {hash : K → UInt64} {opts : Options} {a d : Dict σ π}

lemma Dict.Twin.refl (d : Dict σ π) : d.Twin L hash d := ⟨rfl, rfl, fun _ => .refl (fun _ => rfl) _⟩

lemma Medium.Unchanged.refl (d : Dict σ π) : M.Unchanged hash opts d d where
  puts _ := .refl Twin.refl _
  commit puts a' d' one other opts' := by
    cases one.symm.trans other
    exact .refl Twin.refl _

lemma Medium.Unchanged.size (unchanged : M.Unchanged hash opts a d) : d.index.size = a.index.size := by
  obtain failed | failed | ⟨f, failed, -⟩ | ⟨a', d', here, there, twin⟩ := unchanged.puts []
  · cases failed
  · cases failed
  · cases failed
  · cases here
    cases there
    exact twin.size

end

section
variable {K V : Type} [Serializer K] [Serializer V] {hash : K → UInt64} {factor : LoadFactor} {opts : Options}
  {optsA optsB : Options}
  {a b d d' : Dict MmapFile Nat} {f f' : MmapFile} {bytes : Bytes} {o : Nat}

def MmapFile.Takes (f : MmapFile) (len : Nat) : Prop :=
  f.readonly = false ∧ (f.data.length + len ≤ f.capacity ∨
    f.capacity + (f.data.length + len - f.capacity + kSegmentSize) / kSegmentSize * kSegmentSize ≤ f.reservedSpaceBytes)

lemma add_ok_iff : (∃ out, f.add bytes = .ok out) ↔ f.Takes bytes.length := by
  rw [add, Takes, ← not_lt, ← not_lt]
  cases f.readonly with
  | true => exact iff_of_false (by rintro ⟨_, ok⟩; cases ok) (by rintro ⟨no, -⟩; cases no)
  | false =>
    rw [if_neg Bool.false_ne_true]
    dsimp only
    split
    next more =>
      rw [extendBuffer]
      split
      next outside => exact iff_of_false (by rintro ⟨_, ok⟩; cases ok) fun takes => takes.2.elim (· more) (· outside)
      next inside => exact iff_of_true ⟨_, rfl⟩ ⟨rfl, .inr inside⟩
    next less => exact iff_of_true ⟨_, rfl⟩ ⟨rfl, .inl less⟩

def LogLists (K V : Type) [Serializer K] [Serializer V] (f : MmapFile) (cs : List Nat) : Prop :=
  ∃ recs : List (Rec K V), f.data = recs.flatMap Rec.bytes ∧ (live recs).Perm cs

structure LogSound (K V : Type) [Serializer K] [Serializer V] (hash : K → UInt64) (d : Dict MmapFile Nat) : Prop where
  tidy : d.Tidy (recordLog K V) hash (LogLists K V)
  laid : d.index.Laid
  empty : d.index.size = 0 → d.store.data = []
  fits : d.store.data.length ≤ d.store.capacity

lemma recordLog_getKey {f f' : MmapFile} (data : f'.data = f.data) : (recordLog K V).getKey f' = (recordLog K V).getKey f := by
  funext o
  show KeyValPair.unpackKey K (f'.data.drop o) = _
  rw [data]
  rfl

lemma LogSound.reopened (sound : LogSound K V hash d) (data : f.data = d.store.data) (fits : f.data.length ≤ f.capacity) :
    LogSound K V hash { d with store := f } := by
  obtain ⟨recs, all, perm⟩ := sound.tidy.holds
  exact ⟨sound.tidy.reopened ⟨recs, data.trans all, perm⟩ (recordLog_getKey data), sound.laid,
    fun none => data.trans (sound.empty none), fits⟩

lemma LogSound.lists (sound : LogSound K V hash d) : (recordLog K V).Lists d.store (contents d.buckets) := by
  obtain ⟨recs, all, perm⟩ := sound.tidy.holds
  exact log_lists (by rw [all, append_nil]) perm

lemma logSound_new (hash : K → UInt64) (factor : LoadFactor) (bucketCount : Nat) (data : f.data = []) :
    LogSound K V hash (new factor bucketCount f) := by
  have logged : Logged K V hash [] _ := logged_new hash factor bucketCount 0
  have sound : LogSound K V hash (new factor bucketCount (create 0)) :=
    ⟨logged.tidy.reopened logged.tidy.holds.2 rfl, logged.laid, fun _ => rfl, Nat.zero_le _⟩
  exact sound.reopened data (by rw [data]; exact Nat.zero_le _)

lemma MmapFile.of_init {file : Option Bytes} (opened : init opts file = .ok f) :
    f.data = file.getD [] ∧ f.data.length ≤ f.capacity := by
  unfold init at opened
  split at opened
  · cases file with
    | none => cases opened
    | some data =>
      dsimp only at opened
      split at opened
      · cases opened
      · cases opened
        exact ⟨rfl, le_refl _⟩
  · dsimp only at opened
    split at opened
    · cases opened
      refine ⟨rfl, ?_⟩
      unfold segmentsFor
      dsimp only
      split_ifs <;> omega
    · cases opened

lemma LogSound.init {files : Files Nat} (opened : (recordLogFiles K V).init hash opts files = .ok d')
    (before : ∀ index, files.index = some index → ∃ f, files.data = some f.data ∧ LogSound K V hash ⟨f, index.1, index.2⟩) :
    LogSound K V hash d' := by
  obtain ⟨f, file, opened⟩ := ok_of_bind opened
  obtain ⟨data, fits⟩ := of_init file
  split at opened
  next none =>
    cases opened
    exact logSound_new hash _ _ (length_eq_zero_iff.mp none)
  · cases index : files.index with
    | none =>
      rw [index] at opened
      cases opened
    | some index' =>
      rw [index] at opened
      cases opened
      obtain ⟨f', same, sound⟩ := before index' index
      rw [same] at data
      exact sound.reopened data fits

lemma mergeLoop_readonly (readonly : Bool) (fuel left cursor : Nat) :
    mergeLoop (recordLog K V) hash { b with store := { b.store with readonly } } fuel left cursor d =
      mergeLoop (recordLog K V) hash b fuel left cursor d := by
  induction fuel generalizing left cursor d with
  | zero => cases left <;> rfl
  | succ fuel ih =>
    cases left with
    | zero => rfl
    | succ left =>
      simp only [mergeLoop, ih]
      rfl

lemma LogSound.mergeTable (soundA : LogSound K V hash a) (soundB : LogSound K V hash b)
    (reserved : a.Reserved (recordLog K V) hash factor d) : Gives Fault.NoOutcome
      (fun d' => d'.store = a.store ∧ d'.index.size = a.index.size + b.index.size ∧
        (b.index.size = 0 → a.Reserved (recordLog K V) hash factor d'))
      (mergeLoop (recordLog K V) hash b b.store.data.length b.index.size 0 d) := by
  obtain ⟨vals, listed, reads⟩ := soundB.lists b.buckets (.refl _)
  have count : b.index.size = vals.length := by rw [soundB.tidy.size, listed.length_eq]
  by_cases none : b.index.size = 0
  · rw [none, mergeLoop_zero]
    exact ⟨reserved.store, reserved.size, fun _ => reserved⟩
  · obtain ⟨s, keeps, takes, -⟩ := recordLog_joins (s := { a.store with readonly := false })
      (t := { b.store with readonly := false }) ⟨rfl, soundA.tidy.holds⟩ ⟨rfl, soundB.tidy.holds⟩
    rw [count]
    refine (reserved.merge keeps reads fun c member => (takes c (listed.mem_iff.mp member)).1).mono fun d₂ merged => ?_
    refine ⟨merged.store.trans reserved.store, ?_, fun empty => absurd empty (count ▸ none)⟩
    rw [merged.index, length_map, reserved.size]

/-- A merge that succeeds had room for the data of the other dictionary. -/
lemma LogSound.add_of_merge (soundA : LogSound K V hash a) (soundB : LogSound K V hash b)
    (merged : a.merge (recordLog K V) hash factor false b = .ok d) : ∃ out, a.store.add b.store.data = .ok out := by
  rw [Dict.merge, if_neg Bool.false_ne_true] at merged
  obtain ⟨d₁, reserved, merged⟩ := ok_of_bind merged
  obtain ⟨d₂, table, merged⟩ := ok_of_bind merged
  obtain ⟨f, joined, -⟩ := ok_of_bind merged
  obtain ⟨out, added, -⟩ := ok_of_bind joined
  have spec : Gives (· = Fault.overflow) (a.Reserved (recordLog K V) hash factor) _ :=
    reserve_spec soundA.tidy soundA.laid soundA.lists ((a.index.size + b.index.size) * 2 ^ factor.exp / factor.num)
  rw [reserved] at spec
  have store := soundA.mergeTable soundB spec
  rw [show mergeLoop _ hash b b.store.data.length _ 0 d₁ = _ from table] at store
  exact ⟨out, store.1 ▸ added⟩

lemma LogSound.merge (soundA : LogSound K V hash a) (soundB : LogSound K V hash b)
    (apart : ((b.entries (recordLog K V) ++ a.entries (recordLog K V)).map Prod.fst).Nodup)
    (merged : a.merge (recordLog K V) hash factor false b = .ok d) : LogSound K V hash d := by
  obtain ⟨⟨offset, grown⟩, added⟩ := soundA.add_of_merge soundB merged
  have writable : a.store.readonly = false := (add_ok_iff.mp ⟨_, added⟩).1
  have tidyA : a.Tidy (recordLog K V) hash (LogHolds K V) := soundA.tidy.reopened ⟨writable, soundA.tidy.holds⟩ rfl
  -- the other dictionary may be closed, which makes no difference to a reader
  have tidyB : Tidy (recordLog K V) hash (LogHolds K V) { b with store := { b.store with readonly := false } } :=
    soundB.tidy.reopened ⟨rfl, soundB.tidy.holds⟩ rfl
  have unites := merge_spec recordLog_lawful recordLog_joins tidyA soundA.laid tidyB factor false
  have same : a.merge (recordLog K V) hash factor false { b with store := { b.store with readonly := false } } = .ok d := by
    rw [← merged, Dict.merge, Dict.merge]
    simp only [mergeLoop_readonly]
    rfl
  rw [same] at unites
  have store : (a.store.add b.store.data).bind (fun out => .ok out.2) = .ok d.store := unites.store
  rw [added] at store
  obtain rfl : grown = d.store := Except.ok.inj store
  obtain ⟨-, data, fits⟩ := add_of_ok added
  have tidy := unites.tidy apart
  refine ⟨tidy.reopened tidy.holds.2 rfl, unites.laid soundA.laid, fun none => ?_, fits⟩
  have size : d.index.size = a.index.size + b.index.size := unites.size
  rw [data, soundA.empty (by omega), soundB.empty (by omega)]
  rfl

variable [DecidableEq K]

lemma put_closed (arranged : d.Arranged (recordLog K V) hash) (closed : d.store.readonly = true) (factor : LoadFactor)
    (k : K) (v : V) :
    d.put (recordLog K V) hash factor k v = .error .readonly ∨ d.put (recordLog K V) hash factor k v = .error .overflow := by
  have add (bytes : Bytes) : d.store.add bytes = .error .readonly := if_pos closed
  have search := search_spec arranged k
  rw [put]
  cases run : d.search (recordLog K V) hash k with
  | error f =>
    rw [run] at search
    exact .inr (congrArg _ search.1)
  | ok found =>
    left
    cases found with
    | inl i =>
      show ((d.store.add _).bind _).bind _ = _
      rw [add]
      rfl
    | inr place =>
      show (d.store.add _).bind _ = _
      rw [add]
      rfl

lemma LogSound.put {k : K} {v : V} (sound : LogSound K V hash d) (put : d.put (recordLog K V) hash factor k v = .ok d') :
    LogSound K V hash d' := by
  have writable : d.store.readonly = false := by
    cases closed : d.store.readonly with
    | false => rfl
    | true =>
      obtain failed | failed := put_closed sound.tidy.arranged closed factor k v <;> cases put.symm.trans failed
  have tidy : d.Tidy (recordLog K V) hash (LogHolds K V) := sound.tidy.reopened ⟨writable, sound.tidy.holds⟩ rfl
  have gives : Gives (fun _ => True) (fun d' => d.PutsTidily (recordLog K V) hash (LogHolds K V) k v d' ∧ d.Regrown factor d')
      (d.put (recordLog K V) hash factor k v) :=
    put_gives trivial (fun _ _ _ _ => trivial) (.inl fun _ => trivial) recordLog_lawful tidy sound.laid k v
  obtain ⟨added, cases⟩ := put_cases put
  rw [put] at gives
  obtain ⟨⟨tidy', entries⟩, regrown⟩ := gives
  refine ⟨tidy'.reopened tidy'.holds.2 rfl, regrown.laid sound.laid, fun none => ?_, ?_⟩
  · have length := entries.length_eq
    rw [Dict.entries, length_map, ← tidy'.size, none] at length
    cases length
  · rcases cases.store with new | ⟨c, -, updated⟩
    · exact (add_of_ok new).2.2
    · obtain ⟨⟨o, f⟩, appended, same⟩ := ok_of_bind updated
      rw [← (Prod.mk.inj (Except.ok.inj same)).2]
      refine le_trans (le_of_eq ?_) (add_of_ok appended).2.2
      rw [length_append, KeyValPair.setFlags, length_set, ← length_append, take_append_drop]

lemma Medium.Handled.sound (handled : (recordLogFiles K V).Handled hash opts d) : LogSound K V hash d := by
  induction handled with
  | fresh opened => exact .init opened fun _ none => nomatch none
  | put _ _ put ih => exact ih.put put
  | commit _ ih => exact ih.reopened rfl ih.fits
  | @again _ _ d _ _ opened ih =>
    refine .init opened fun index same => ⟨d.store, rfl, ?_⟩
    cases same
    exact ih
  | @merge opts _ a b d _ _ apart merged ihA ihB =>
    cases readonly : opts.readonly with
    | true =>
      rw [readonly] at merged
      cases merged
    | false =>
      have united : a.merge (recordLog K V) hash opts.maxLoadFactor false b = .ok d := by
        rw [merge_eq_mergeRun, ← readonly]
        exact congrArg (Except.bind · _) merged
      exact ihA.merge ihB apart united

lemma unchanged_of_closed (sound : LogSound K V hash a) (closed : a.store.readonly = true)
    (reserved : a.Reserved (recordLog K V) hash factor d) : (recordLogFiles K V).Unchanged hash opts a d := by
  have twin (f : MmapFile) (data : f.data = a.store.data) (fits : f.data.length ≤ f.capacity) :
      Twin (recordLog K V) hash { a with store := f } { d with store := f } := by
    obtain ⟨m, represents⟩ := (sound.reopened data fits).tidy.represents
    have keys : (recordLog K V).getKey f = (recordLog K V).getKey d.store := recordLog_getKey (by rw [data, reserved.store])
    have arranged : Arranged (recordLog K V) hash { d with store := f } :=
      ⟨reserved.arranged.numBuckets, reserved.arranged.robin.congr rfl rfl fun _ _ _ => congrFun keys _⟩
    have represents' : Represents (recordLog K V) { d with store := f } m := fun k v =>
      (reserved.perm.map _).mem_iff.trans (represents k v)
    exact ⟨rfl, reserved.size, fun k =>
      agrees_of_gives (get_spec (sound.reopened data fits).tidy.arranged represents k) (get_spec arranged represents' k)⟩
  have fails {d : Dict MmapFile Nat} (arranged : d.Arranged (recordLog K V) hash) (closed : d.store.readonly = true) (put : K × V)
      (puts : List (K × V)) : d.putAll (recordLog K V) hash opts.maxLoadFactor (put :: puts) = .error .readonly ∨
        d.putAll (recordLog K V) hash opts.maxLoadFactor (put :: puts) = .error .overflow := by
    rw [putAll, foldlM_cons]
    obtain failed | failed := put_closed arranged closed opts.maxLoadFactor put.1 put.2 <;> rw [failed]
    · exact .inl rfl
    · exact .inr rfl
  have closed' : d.store.readonly = true := by rw [reserved.store, closed]
  constructor
  · intro puts
    cases puts with
    | nil =>
      have now := twin a.store rfl sound.fits
      nth_rewrite 2 [← reserved.store] at now
      exact .inr (.inr (.inr ⟨a, d, rfl, rfl, now⟩))
    | cons put puts =>
      obtain failed | failed := fails sound.tidy.arranged closed put puts
      · obtain failed' | failed' := fails reserved.arranged closed' put puts
        · exact .inr (.inr (.inl ⟨_, failed, failed'⟩))
        · exact .inr (.inl failed')
      · exact .inl failed
  · intro puts a' d' ranA ranD opts'
    cases puts with
    | cons put puts => obtain failed | failed := fails sound.tidy.arranged closed put puts <;> cases ranA.symm.trans failed
    | nil =>
      cases ranA
      cases ranD
      show Agrees _ ((init opts' (some a.store.data)).bind _) ((init opts' (some d.store.data)).bind _)
      rw [reserved.store]
      cases file : init opts' (some a.store.data) with
      | error f => exact .inr (.inr (.inl ⟨f, rfl, rfl⟩))
      | ok f =>
        show Agrees _ (ite _ _ _) (ite _ _ _)
        split
        · exact .refl Twin.refl _
        · exact .inr (.inr (.inr ⟨_, _, rfl, rfl, twin f (of_init file).1 (of_init file).2⟩))

/-- A new dictionary from texts to texts. -/
def emptyLog : Dict MmapFile Nat := .new kDefaultMaxLoadFactor 0 (.create Options.default.reservedSpaceBytes)

lemma emptyLog_handled : textFiles.Handled (fun _ => 1) .default emptyLog := .fresh rfl

end

end Myctk.Rdict
