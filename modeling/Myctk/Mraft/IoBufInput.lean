import Myctk.Lib.Bytes
import Myctk.Lib.Chain
import Myctk.Lib.Runs

/-! The streams of protobuf on chains of buffers (`mraft/iobuf.cpp`). -/

namespace Myctk.Mraft
open Lib List

structure IOBuf where
  buffer : Bytes
  headroom : Nat
  length : Nat
  inside : headroom + length ≤ buffer.length

namespace IOBuf

variable (b : IOBuf)

def tailroom : Nat := b.buffer.length - b.headroom - b.length

def data : Bytes := (b.buffer.drop b.headroom).take b.length

def create (capacity : Nat) : IOBuf := ⟨replicate capacity 0, 0, 0, Nat.zero_le _⟩

def append (n : Nat) (fits : n ≤ b.tailroom) : IOBuf :=
  { b with
    length := b.length + n
    inside := by
      have inside := b.inside
      rw [tailroom] at fits
      omega }

def trimEnd (n : Nat) : IOBuf :=
  { b with
    length := b.length - n
    inside := by
      have inside := b.inside
      omega }

def overwrite (bytes : Bytes) : IOBuf :=
  let start := b.headroom + (b.length - bytes.length)
  { b with
    buffer := b.buffer.take start ++ (bytes ++ b.buffer.drop (start + bytes.length))
    inside := by
      have inside := b.inside
      simp only [length_append, length_take, length_drop]
      omega }

lemma length_data : b.data.length = b.length := by
  have inside := b.inside
  rw [data, length_take, length_drop]
  omega

end IOBuf

def int32 (x : Int) : Int := x.bmod (2 ^ 32)

lemma int32_eq_iff {n : Nat} : int32 n = n ↔ n < 2 ^ 31 := by
  rw [int32, Int.bmod]
  split <;> omega

structure InputStream where
  chain : Chain IOBuf
  byteCount : Int

namespace InputStream

def new (chain : Chain IOBuf) : InputStream := ⟨chain, 0⟩

/-- A pass of the loop of `Next`, which leaves at a buffer with data, or with false. -/
def skipEmpty (chain : Chain IOBuf) : Chain IOBuf ⊕ Option (Chain IOBuf) :=
  if chain.current.length = 0 then
    if chain.isChained then .inl chain.next else .inr none
  else .inr (some chain)

/-- The region that `Next` hands out, and its size. -/
structure Region where
  bytes : Bytes
  size : Int

def next (fuel : Nat) (s : InputStream) : Option (InputStream × Option Region) := do
  match ← Lib.loop skipEmpty fuel s.chain with
  | none => return (s, none)
  | some chain =>
    let n := chain.current.length
    return (⟨chain.set (chain.current.trimEnd n), s.byteCount + n⟩, some ⟨chain.current.data, int32 n⟩)

/-- A pass of the loop of `BackUp`. -/
def restore : Chain IOBuf × Nat → Chain IOBuf × Nat ⊕ Chain IOBuf
  | (chain, count) =>
    if 0 < count then
      if fits : count ≤ chain.current.tailroom then .inl (chain.set (chain.current.append count fits), 0)
      else
        .inl ((chain.set (chain.current.append chain.current.tailroom le_rfl)).prev, count - chain.current.tailroom)
    else .inr chain

def backUp (fuel : Nat) (s : InputStream) (count : Nat) : Option InputStream := do
  return { s with chain := ← Lib.loop restore fuel (s.chain, count) }

end InputStream

structure OutputStream where
  chain : Chain IOBuf
  blockSize : Nat
  byteCount : Int

namespace OutputStream

/-- `capacity` is what `folly::IOBuf::create` allocates for a size. -/
def new (capacity : Nat → Nat) (blockSize : Nat) : OutputStream := ⟨.single (.create (capacity blockSize)), blockSize, 0⟩

variable (capacity : Nat → Nat) (s : OutputStream)

/-- `Next` goes on from a full buffer. -/
def room : Chain IOBuf :=
  if s.chain.current.tailroom = 0 then (s.chain.insertBefore (.create (capacity s.blockSize))).next else s.chain

def next : OutputStream × Int :=
  let chain := s.room capacity
  let n := chain.current.tailroom
  ({ s with chain := chain.set (chain.current.append n (le_refl n)), byteCount := s.byteCount + n }, int32 n)

/-- The loop of `BackUp`. -/
def release : (before : List IOBuf) → IOBuf → (after : List IOBuf) → Nat → Option (Chain IOBuf)
  | before, current, after, 0 => some ⟨before, current, after⟩
  | before, current, after, count + 1 =>
    if count + 1 ≤ current.length then
      let chain : Chain IOBuf := ⟨before, current.trimEnd (count + 1), after⟩
      if chain.isChained ∧ chain.current.length = 0 then chain.unlink else some chain
    else
      match before with
      | [] => none
      | previous :: before => release before previous after (count + 1 - current.length)

def backUp (count : Nat) : Option OutputStream := do
  return { s with
    chain := ← release s.chain.before s.chain.current s.chain.after count
    byteCount := s.byteCount - count }

def write (content : Bytes) : OutputStream := { s with chain := s.chain.set (s.chain.current.overwrite content) }

def contents : Bytes := (s.chain.toList.map IOBuf.data).flatten

end OutputStream

/-! The input stream against the contract of protobuf. -/

open Option

namespace InputStream

inductive Call where
  | next
  | backUp (count : Nat)
  deriving DecidableEq

/-- The calls that the contract allows on a stream with pieces of these sizes, after a call that gave `last` bytes. -/
def Allowed : List Nat → Nat → List Call → Prop
  | _, _, [] => True
  | [], _, .next :: calls => Allowed [] 0 calls
  | n :: sizes, _, .next :: calls => Allowed sizes n calls
  | sizes, last, .backUp count :: calls => count ≤ last ∧ Allowed (if count = 0 then sizes else count :: sizes) 0 calls

/-- What is right for a stream of some bytes of which `pos` are handed out and not given back: all calls return; `Next` hands out
    the following bytes, precisely those that were given back before it, or is false at the end; `ByteCount` is `pos`. -/
def Conforms (whole : Bytes) : InputStream → (pos given : Nat) → List Call → Prop
  | _, _, _, [] => True
  | s, pos, given, .next :: calls =>
    ∃ fuel s' region, s.next fuel = some (s', region) ∧
      match region with
      | none => pos = whole.length ∧ s'.byteCount = pos ∧ Conforms whole s' pos 0 calls
      | some r =>
        r.bytes ≠ [] ∧ r.size = r.bytes.length ∧ r.bytes <+: whole.drop pos ∧ (0 < given → r.bytes.length = given) ∧
          s'.byteCount = (pos + r.bytes.length : Nat) ∧ Conforms whole s' (pos + r.bytes.length) 0 calls
  | s, pos, _, .backUp count :: calls =>
    ∃ fuel s', s.backUp fuel count = some s' ∧ s'.byteCount = (pos - count : Nat) ∧ Conforms whole s' (pos - count) count calls

def filled (buffers : List IOBuf) : List IOBuf := buffers.filter fun b => b.length ≠ 0

def contents (buffers : List IOBuf) : Bytes := (buffers.map IOBuf.data).flatten

section
variable {chain : Chain IOBuf} {b : IOBuf} {bs : List IOBuf}

structure Left (chain : Chain IOBuf) (left : List IOBuf) : Prop where
  read : ∀ b ∈ chain.before, b.length = 0
  left : filled (chain.current :: chain.after) = left

lemma loop_skipEmpty (so : Left chain (b :: bs)) :
    ∃ fuel found, loop skipEmpty fuel chain = some (some found) ∧ found.current = b ∧ Left found (b :: bs) ∧
      found.isChained = chain.isChained := by
  obtain ⟨before, current, after⟩ := chain
  induction after generalizing before current with
  | nil =>
    by_cases here : current.length = 0
    · have left := so.left
      rw [filled, filter_cons_of_neg (by simpa using here)] at left
      cases left
    · refine ⟨1, _, loop_inr (if_neg here), ?_, so, rfl⟩
      have left := so.left
      rw [filled, filter_cons_of_pos (by simpa using here)] at left
      exact (cons.inj left).1
  | cons x after ih =>
    by_cases here : current.length = 0
    · have next : Left ⟨current :: before, x, after⟩ (b :: bs) := by
        refine ⟨fun b member => (mem_cons.mp member).elim (fun same => same ▸ here) (so.read b), ?_⟩
        have left := so.left
        rwa [filled, filter_cons_of_neg (by simpa using here)] at left
      obtain ⟨fuel, found, leaves, rest⟩ := ih _ _ next
      have pass : skipEmpty ⟨before, current, x :: after⟩ = .inl ⟨current :: before, x, after⟩ := by
        rw [skipEmpty, if_pos here]
        simp [Chain.isChained, Chain.next]
      refine ⟨fuel + 1, found, (loop_inl pass).trans leaves, rest.1, rest.2.1, rest.2.2.trans ?_⟩
      simp [Chain.isChained]
    · refine ⟨1, _, loop_inr (if_neg here), ?_, so, rfl⟩
      have left := so.left
      rw [filled, filter_cons_of_pos (by simpa using here)] at left
      exact (cons.inj left).1

lemma loop_skipEmpty_chained (chained : chain.isChained = true) (empty : ∀ b ∈ chain.toList, b.length = 0) (fuel : Nat) :
    loop skipEmpty fuel chain = none := by
  induction fuel generalizing chain with
  | zero => rfl
  | succ fuel ih =>
    have here : chain.current.length = 0 := empty _ (mem_append_right _ mem_cons_self)
    have pass : skipEmpty chain = .inl chain.next := by rw [skipEmpty, if_pos here, if_pos chained]
    rw [loop_inl pass]
    exact ih (chain.isChained_next chained) (by rwa [chain.toList_next])

lemma Left.empty (so : Left chain []) : ∀ b ∈ chain.toList, b.length = 0 := by
  intro b member
  rcases mem_append.mp member with before | after
  · exact so.read b (mem_reverse.mp before)
  · by_contra some
    have member : b ∈ filled (chain.current :: chain.after) := mem_filter.mpr ⟨after, by simpa using some⟩
    rw [so.left] at member
    cases member

lemma Left.pos (so : Left chain (b :: bs)) : 0 < b.length := by
  have member := so.left ▸ mem_cons_self
  exact pos_of_ne_zero (by simpa using (mem_filter.mp member).2)

lemma Left.set (so : Left chain (b :: bs)) (here : chain.current = b) : Left (chain.set (b.trimEnd b.length)) bs := by
  refine ⟨so.read, ?_⟩
  have left := so.left
  rw [here, filled, filter_cons_of_pos (by simpa using ne_of_gt so.pos)] at left
  show filled (b.trimEnd b.length :: chain.after) = bs
  rw [filled, filter_cons_of_neg (by simp [IOBuf.trimEnd])]
  exact (cons.inj left).2

end

section
variable {s : InputStream} {b : IOBuf} {left bs : List IOBuf} {whole : Bytes} {pos last given : Nat} {calls : List Call}
  {fuel count : Nat} {s' : InputStream}

lemma next_unique {fuel' : Nat} {r r' : InputStream × Option Region} (here : s.next fuel = some r)
    (there : s.next fuel' = some r') : r = r' := by
  have more : ∀ {n m : Nat} {r}, n ≤ m → s.next n = some r → s.next m = some r := by
    intro n m r le here
    rw [next] at here ⊢
    obtain ⟨found, leaves, rest⟩ := bind_eq_some_iff.mp here
    exact bind_eq_some_iff.mpr ⟨found, loop_mono leaves le, rest⟩
  exact some.inj ((more (le_max_left fuel fuel') here).symm.trans (more (le_max_right fuel fuel') there))

/-- The stream has handed out `pos` of the bytes and has the other ones left. -/
structure Reading (whole : Bytes) (chained : Bool) (s : InputStream) (pos : Nat) (left : List IOBuf) : Prop where
  ahead : Left s.chain left
  rest : whole.drop pos = contents left
  within : pos ≤ whole.length
  count : s.byteCount = pos
  chained : s.chain.isChained = chained

variable {chained : Bool}

lemma Reading.next (so : Reading whole chained s pos (b :: bs)) :
    ∃ fuel s', s.next fuel = some (s', some ⟨b.data, int32 b.length⟩) ∧ Reading whole chained s' (pos + b.length) bs := by
  obtain ⟨fuel, found, leaves, rfl, ahead, same⟩ := loop_skipEmpty so.ahead
  refine ⟨fuel, ⟨found.set (found.current.trimEnd found.current.length), s.byteCount + found.current.length⟩, ?_, ?_⟩
  · simp [next, leaves]
  · have rest := so.rest
    rw [contents, map_cons, flatten_cons] at rest
    have length := congrArg length rest
    rw [length_append, IOBuf.length_data, length_drop] at length
    have within := so.within
    refine ⟨ahead.set rfl, ?_, by omega, ?_, same.trans so.chained⟩
    · rw [← drop_drop, rest, ← IOBuf.length_data, drop_left]
      rfl
    · rw [so.count]
      rfl

lemma Reading.at_end (so : Reading whole chained s pos []) : pos = whole.length :=
  le_antisymm so.within (drop_eq_nil_iff.mp so.rest)

lemma Reading.next_false (so : Reading whole false s pos []) : s.next 1 = some (s, none) := by
  have here : s.chain.current.length = 0 := so.ahead.empty _ (mem_append_right _ mem_cons_self)
  have pass : skipEmpty s.chain = .inr none := by
    rw [skipEmpty, if_pos here, so.chained]
    rfl
  rw [InputStream.next, loop_inr pass]
  rfl

lemma Reading.next_endless (so : Reading whole true s pos []) (fuel : Nat) : s.next fuel = none := by
  rw [InputStream.next, loop_skipEmpty_chained so.chained so.ahead.empty]
  rfl

lemma backUp_byteCount (backed : s.backUp fuel count = some s') : s'.byteCount = s.byteCount := by
  rw [backUp] at backed
  obtain ⟨chain, -, same⟩ := bind_eq_some_iff.mp backed
  cases same
  rfl

lemma backUp_zero (backed : s.backUp fuel 0 = some s') : s' = s := by
  cases fuel with
  | zero => cases backed
  | succ fuel =>
    cases backed
    rfl

/-- The calls that the stream serves rightly: nothing is given back, a ring is not asked for more than it has, and the sizes are
    of type `int`. -/
def Served (chained : Bool) (left : List IOBuf) (calls : List Call) : Prop :=
  (∀ count, .backUp count ∈ calls → count = 0) ∧ (chained = true → calls.count .next ≤ left.length) ∧
    ∀ b ∈ left.take (calls.count .next), b.length < 2 ^ 31

lemma served_next : Served chained (b :: bs) (.next :: calls) ↔ b.length < 2 ^ 31 ∧ Served chained bs calls := by
  simp only [Served, mem_cons, reduceCtorEq, false_or, count_cons_self, length_cons, Nat.add_le_add_iff_right,
    take_succ_cons, forall_eq_or_imp]
  tauto

lemma served_next_nil : Served chained [] (.next :: calls) ↔ chained = false ∧ Served chained [] calls := by
  cases chained <;> simp [Served]

lemma served_backUp : Served chained left (.backUp count :: calls) ↔ count = 0 ∧ Served chained left calls := by
  simp only [Served, mem_cons, Call.backUp.injEq, or_imp, forall_and, forall_eq]
  rw [count_cons_of_ne (by simp)]
  tauto

lemma Reading.conforms_from_iff (so : Reading whole chained s pos left) (enough : last ≤ pos)
    (allowed : Allowed (left.map IOBuf.length) last calls) : Conforms whole s pos 0 calls ↔ Served chained left calls := by
  induction calls generalizing s pos left last with
  | nil => exact iff_of_true trivial ⟨fun _ none => (nomatch none), fun _ => Nat.zero_le _, fun _ none => (nomatch none)⟩
  | cons call calls ih =>
    cases call with
    | next =>
      cases left with
      | nil =>
        rw [served_next_nil]
        cases chained with
        | true =>
          refine iff_of_false ?_ fun both => nomatch both.1
          rintro ⟨fuel, s', region, returned, -⟩
          rw [so.next_endless] at returned
          cases returned
        | false =>
          rw [and_iff_right rfl, ← ih so zero_le allowed]
          constructor
          · rintro ⟨fuel, s', region, returned, right⟩
            cases next_unique returned so.next_false
            exact right.2.2
          · exact fun right => ⟨1, s, none, so.next_false, so.at_end, so.count, right⟩
      | cons b bs =>
        obtain ⟨fuel, s', returned, later⟩ := so.next
        rw [served_next, ← ih later (Nat.le_add_left _ _) allowed, ← int32_eq_iff]
        constructor
        · rintro ⟨fuel', s'', region, returned', right⟩
          cases next_unique returned' returned
          obtain ⟨-, size, -, -, -, right⟩ := right
          dsimp only at size
          rw [b.length_data] at size right
          exact ⟨size, right⟩
        · rintro ⟨size, right⟩
          refine ⟨fuel, s', _, returned, ?_, ?_, ?_, fun given => absurd given (lt_irrefl 0), ?_, ?_⟩
          · rw [← length_pos_iff, b.length_data]
            exact so.ahead.pos
          · dsimp only
            rw [b.length_data]
            exact size
          · rw [so.rest]
            exact ⟨contents bs, rfl⟩
          · rw [b.length_data]
            exact later.count
          · rw [b.length_data]
            exact right
    | backUp count =>
      obtain ⟨within, allowed⟩ := allowed
      rw [served_backUp]
      rcases eq_zero_or_pos count with rfl | some
      · rw [and_iff_right rfl, ← ih so zero_le allowed]
        constructor
        · rintro ⟨fuel, s', backed, -, right⟩
          rw [backUp_zero backed] at right
          exact right
        · exact fun right => ⟨1, s, rfl, so.count, right⟩
      · -- the count is not changed
        refine iff_of_false ?_ fun both => ne_of_gt some both.1
        rintro ⟨fuel, s', backed, count', -⟩
        rw [backUp_byteCount backed, so.count] at count'
        omega

lemma contents_filled (buffers : List IOBuf) : contents (filled buffers) = contents buffers := by
  induction buffers with
  | nil => rfl
  | cons b buffers ih =>
    have split : contents (b :: buffers) = b.data ++ contents buffers := rfl
    rw [split, filled]
    by_cases empty : b.length = 0
    · have none : b.data = [] := by rw [← length_eq_zero_iff, b.length_data, empty]
      rw [filter_cons_of_neg (by simpa using empty), none, nil_append]
      exact ih
    · rw [filter_cons_of_pos (by simpa using empty)]
      exact congrArg (b.data ++ ·) ih

lemma reading_new (first : IOBuf) (others : List IOBuf) :
    Reading (contents (first :: others)) (!others.isEmpty) (new ⟨[], first, others⟩) 0 (filled (first :: others)) := by
  refine ⟨⟨fun _ none => (nomatch none), rfl⟩, ?_, Nat.zero_le _, rfl, rfl⟩
  rw [drop_zero, contents_filled]

/-- The stream on a chain of buffers does what the contract says for the calls precisely when nothing is given back, `Next` is
    not called at the end of several buffers, and what is handed out has a size of type `int`. -/
theorem conforms_iff (first : IOBuf) (others : List IOBuf)
    (allowed : Allowed ((filled (first :: others)).map IOBuf.length) 0 calls) :
    Conforms (contents (first :: others)) (new ⟨[], first, others⟩) 0 0 calls ↔
      (∀ count, .backUp count ∈ calls → count = 0) ∧
        (others ≠ [] → calls.count .next ≤ (filled (first :: others)).length) ∧
        ∀ b ∈ (filled (first :: others)).take (calls.count .next), b.length < 2 ^ 31 := by
  rw [(reading_new first others).conforms_from_iff (le_refl 0) allowed, Served]
  simp

end

def threeBytes : IOBuf := ⟨[1, 2, 3], 0, 3, le_refl 3⟩

theorem given_back_from_start : Allowed ((filled [threeBytes]).map IOBuf.length) 0 [.next, .backUp 1, .next] ∧
    (∃ s₁ s₂ s₃ r₁ r₃, (new ⟨[], threeBytes, []⟩).next 1 = some (s₁, some r₁) ∧ r₁.bytes = [1, 2, 3] ∧
      s₁.backUp 2 1 = some s₂ ∧ s₂.byteCount = 3 ∧ s₂.next 1 = some (s₃, some r₃) ∧ r₃.bytes = [1]) ∧
    ¬ Conforms (contents [threeBytes]) (new ⟨[], threeBytes, []⟩) 0 0 [.next, .backUp 1, .next] := by
  have allowed : Allowed ((filled [threeBytes]).map IOBuf.length) 0 [.next, .backUp 1, .next] := by
    exact ⟨by decide, trivial⟩
  refine ⟨allowed, ⟨_, _, _, _, _, rfl, rfl, rfl, rfl, rfl, rfl⟩, fun right => ?_⟩
  have served := ((reading_new threeBytes []).conforms_from_iff (le_refl 0) allowed).mp right
  exact absurd (served.1 1 (by decide)) (by decide)

theorem conforms_iff_threeBytes : Allowed ((filled [threeBytes]).map IOBuf.length) 0 [.next, .next] ∧
    Conforms (contents [threeBytes]) (new ⟨[], threeBytes, []⟩) 0 0 [.next, .next] := by
  have allowed : Allowed ((filled [threeBytes]).map IOBuf.length) 0 [.next, .next] := trivial
  refine ⟨allowed, (conforms_iff threeBytes [] allowed).mpr ⟨?_, fun more => absurd rfl more, ?_⟩⟩
  · simp
  · decide

end InputStream

end Myctk.Mraft
