import Myctk.Mraft.IoBufInput
import Myctk.Lib.Stream

/-! The output stream against the contract of protobuf, and messages that are written to a file and read back. -/

namespace Myctk.Mraft
open List Lib OutputStream Chain IOBuf Int

namespace IOBuf

variable {b : IOBuf} {c : Nat} {d bytes : Bytes}

structure Block (c : Nat) (d : Bytes) (b : IOBuf) : Prop where
  headroom : b.headroom = 0
  size : b.buffer.length = c
  data : b.data = d

lemma Block.length (block : Block c d b) : b.length = d.length := by rw [← block.data, b.length_data]

lemma Block.le (block : Block c d b) : d.length ≤ c := by
  have inside := b.inside
  rw [block.headroom, block.size, block.length] at inside
  omega

lemma Block.tailroom (block : Block c d b) : b.tailroom = c - d.length := by
  rw [IOBuf.tailroom, block.headroom, block.size, block.length, Nat.sub_zero]

lemma block_create (c : Nat) : Block c [] (create c) := ⟨rfl, length_replicate, rfl⟩

lemma Block.data_eq (block : Block c d b) : b.buffer.take d.length = d := by
  have data := block.data
  rwa [IOBuf.data, block.headroom, drop_zero, block.length] at data

lemma Block.append (block : Block c d b) (all : bytes.length = b.tailroom) :
    Block c (d ++ bytes) ((b.append b.tailroom le_rfl).overwrite bytes) := by
  have le := block.le
  have room := block.tailroom
  have start : 0 + (b.length + b.tailroom - bytes.length) = d.length := by rw [block.length]; omega
  have buffer : ((b.append b.tailroom le_rfl).overwrite bytes).buffer = d ++ bytes := by
    show b.buffer.take (b.headroom + (b.length + b.tailroom - bytes.length)) ++
      (bytes ++ b.buffer.drop (b.headroom + (b.length + b.tailroom - bytes.length) + bytes.length)) = _
    rw [block.headroom, start, block.data_eq, drop_eq_nil_of_le (by rw [block.size]; omega), append_nil]
  refine ⟨block.headroom, ?_, ?_⟩
  · rw [buffer, length_append]
    omega
  · show (drop b.headroom _).take (b.length + b.tailroom) = _
    rw [buffer, block.headroom, drop_zero, take_of_length_le]
    rw [length_append, block.length, all]

lemma Block.trimEnd (block : Block c d b) (n : Nat) : Block c (d.take (d.length - n)) (b.trimEnd n) := by
  refine ⟨block.headroom, block.size, ?_⟩
  have data := block.data
  show (b.buffer.drop b.headroom).take (b.length - n) = _
  rw [← block.length]
  conv => rhs; rw [← data, IOBuf.data, take_take, min_eq_left (Nat.sub_le _ _)]

end IOBuf

namespace OutputStream

open IOBuf (Block)

inductive Call where
  | next
  | backUp (count : Nat)
  deriving DecidableEq

variable (capacity : Nat → Nat)

/-- What is right for a stream whose caller keeps some bytes and was given `last` of them by the call before: a region has a size,
    and whatever is written to it, the chain holds the bytes that are kept, as many as `ByteCount` says. -/
def Conforms : OutputStream → (kept : Bytes) → (last : Nat) → List Call → Prop
  | _, _, _, [] => True
  | s, kept, _, .next :: calls =>
    0 ≤ (s.next capacity).2 ∧ ∀ bytes : Bytes, (bytes.length : Int) = (s.next capacity).2 →
      ((s.next capacity).1.write bytes).contents = kept ++ bytes ∧
        ((s.next capacity).1.write bytes).byteCount = ((kept ++ bytes).length : Nat) ∧
        Conforms ((s.next capacity).1.write bytes) (kept ++ bytes) bytes.length calls
  | s, kept, last, .backUp count :: calls =>
    count ≤ last → ∃ s', s.backUp count = some s' ∧ s'.contents = kept.take (kept.length - count) ∧
      s'.byteCount = ((kept.take (kept.length - count)).length : Nat) ∧
      Conforms s' (kept.take (kept.length - count)) 0 calls

/-- `Next` is called only while the chain has at most two blocks, and the size of a block is of type `int`. -/
def Served : OutputStream → (last : Nat) → List Call → Prop
  | _, _, [] => True
  | s, _, .next :: calls =>
    capacity s.blockSize < 2 ^ 31 ∧ s.chain.toList.length ≤ 2 ∧ ∀ bytes : Bytes, (bytes.length : Int) = (s.next capacity).2 →
      Served ((s.next capacity).1.write bytes) bytes.length calls
  | s, last, .backUp count :: calls => count ≤ last → ∀ s', s.backUp count = some s' → Served s' 0 calls

inductive Phase (c : Nat) : Chain IOBuf → (kept : Bytes) → (last : Nat) → Prop where
  | one {b kept last} : Block c kept b → last ≤ kept.length → (kept = [] ∨ c < 2 ^ 31) → Phase c ⟨[], b, []⟩ kept last
  | two {b₀ b₁ d₀ d₁ last} : Block c d₀ b₀ → d₀.length = c → Block c d₁ b₁ → d₁ ≠ [] → last ≤ d₁.length → c < 2 ^ 31 →
      Phase c ⟨[b₀], b₁, []⟩ (d₀ ++ d₁) last
  | three {b₀ b₁ b₂ d₀ d₁} : Block c d₀ b₀ → d₀.length = c → Block c d₁ b₁ → d₁.length = c → Block c [] b₂ → c < 2 ^ 31 →
      Phase c ⟨[], b₀, [b₂, b₁]⟩ (d₀ ++ d₁) 0

section
variable {capacity} {s s' : OutputStream} {c last count : Nat} {kept bytes : Bytes} {calls : List Call}

lemma Phase.contents (phase : Phase c s.chain kept last) : s.contents = kept := by
  obtain ⟨chain, blockSize, byteCount⟩ := s
  cases phase with
  | one block => simp [contents, toList, block.data]
  | two block0 _ block1 => simp [contents, toList, block0.data, block1.data]
  | three block0 _ block1 _ block2 => simp [contents, toList, block0.data, block1.data, block2.data]

lemma Phase.last_le (phase : Phase c s.chain kept last) : last ≤ kept.length := by
  obtain ⟨chain, blockSize, byteCount⟩ := s
  cases phase with
  | one _ le => exact le
  | two _ _ _ _ le =>
    rw [length_append]
    omega
  | three => exact zero_le

lemma room_of_ne (some : s.chain.current.tailroom ≠ 0) : s.room capacity = s.chain := if_neg some

lemma room_of_eq (full : s.chain.current.tailroom = 0) :
    s.room capacity = (s.chain.insertBefore (.create (capacity s.blockSize))).next := if_pos full

lemma chain_write_next (bytes : Bytes) : ((s.next capacity).1.write bytes).chain = (s.room capacity).set
    (((s.room capacity).current.append (s.room capacity).current.tailroom le_rfl).overwrite bytes) := rfl

lemma next_size : (s.next capacity).2 = int32 (s.room capacity).current.tailroom := by rw [next]

section
variable (phase : Phase c s.chain kept last)
include phase

lemma Phase.next (size : capacity s.blockSize = c) (positive : 0 < c) (few : s.chain.toList.length ≤ 2) :
    ((s.room capacity).current.tailroom < 2 ^ 31 → c < 2 ^ 31) ∧ (s.room capacity).current.tailroom ≤ c ∧
      ∀ bytes : Bytes, bytes.length = (s.room capacity).current.tailroom → c < 2 ^ 31 →
        Phase c ((s.next capacity).1.write bytes).chain (kept ++ bytes) bytes.length := by
  simp only [chain_write_next]
  obtain ⟨chain, blockSize, byteCount⟩ := s
  have fresh := block_create c
  cases phase with
  | @one b _ _ block le fits =>
    rcases eq_zero_or_pos b.tailroom with full | some
    · have room : room capacity ⟨⟨[], b, []⟩, blockSize, byteCount⟩ = ⟨[b], .create c, []⟩ := by
        rw [room_of_eq full, size]
        rfl
      rw [room]
      have all : kept.length = c := by
        have tailroom := block.tailroom
        have le := block.le
        omega
      refine ⟨fun _ => fits.resolve_left fun none => ?_, fresh.tailroom.trans_le (Nat.sub_le _ _), fun bytes length small => ?_⟩
      · rw [none] at all
        exact ne_of_lt positive all
      · refine .two block all (fresh.append length) ?_ le_rfl small
        rw [fresh.tailroom] at length
        exact length_pos_iff.mp (by rw [length]; exact positive)
    · have room : room capacity ⟨⟨[], b, []⟩, blockSize, byteCount⟩ = ⟨[], b, []⟩ := room_of_ne (ne_of_gt some)
      rw [room]
      refine ⟨fun small => fits.elim (fun none => ?_) fun fits => fits, block.tailroom.trans_le (Nat.sub_le _ _), fun bytes length small => ?_⟩
      · rw [block.tailroom, none] at small
        exact small
      · refine .one (block.append length) ?_ (.inr small)
        rw [length_append]
        omega
  | @two b₀ b₁ d₀ d₁ _ block0 full0 block1 some1 le small =>
    rcases eq_zero_or_pos b₁.tailroom with full | some
    · have room : room capacity ⟨⟨[b₀], b₁, []⟩, blockSize, byteCount⟩ = ⟨[], b₀, [.create c, b₁]⟩ := by
        rw [room_of_eq full, size]
        rfl
      rw [room]
      refine ⟨fun _ => small, block0.tailroom.trans_le (Nat.sub_le _ _), fun bytes length _ => ?_⟩
      have none : bytes = [] := by
        rw [← length_eq_zero_iff, length, block0.tailroom, full0, Nat.sub_self]
      have all : d₁.length = c := by
        have tailroom := block1.tailroom
        have le := block1.le
        omega
      have same := block0.append length
      subst none
      rw [append_nil] at same ⊢
      exact .three same full0 block1 all fresh small
    · have room : room capacity ⟨⟨[b₀], b₁, []⟩, blockSize, byteCount⟩ = ⟨[b₀], b₁, []⟩ := room_of_ne (ne_of_gt some)
      rw [room]
      refine ⟨fun _ => small, block1.tailroom.trans_le (Nat.sub_le _ _), fun bytes length _ => ?_⟩
      rw [append_assoc]
      refine .two block0 full0 (block1.append length) ?_ ?_ small
      · exact fun none => some1 (append_eq_nil_iff.mp none).1
      · rw [length_append]
        omega
  | three => exact absurd few (by simp [toList])

lemma Phase.mono : Phase c s.chain kept 0 := by
  obtain ⟨chain, blockSize, byteCount⟩ := s
  cases phase with
  | one block _ fits => exact .one block zero_le fits
  | two block0 full block1 some _ small => exact .two block0 full block1 some zero_le small
  | three block0 full0 block1 full1 block2 small => exact .three block0 full0 block1 full1 block2 small

lemma Phase.backUp (le : count ≤ last) :
    ∃ s', s.backUp count = some s' ∧ Phase c s'.chain (kept.take (kept.length - count)) 0 ∧ s'.blockSize = s.blockSize ∧
      s'.byteCount = s.byteCount - count := by
  cases count with
  | zero =>
    refine ⟨s, ?_, ?_, rfl, by simp⟩
    · simp [backUp, release]
    · rw [Nat.sub_zero, take_length]
      exact phase.mono
  | succ count =>
    obtain ⟨chain, blockSize, byteCount⟩ := s
    cases phase with
    | @one b _ _ block le' fits =>
      have within : count + 1 ≤ b.length := by
        rw [block.length]
        omega
      have released : release [] b [] (count + 1) = some ⟨[], b.trimEnd (count + 1), []⟩ := by
        rw [release, if_pos within]
        rfl
      refine ⟨⟨⟨[], b.trimEnd (count + 1), []⟩, blockSize, byteCount - (count + 1 : Nat)⟩, ?_, ?_, rfl, rfl⟩
      · simp [backUp, released]
      · exact .one (block.trimEnd _) zero_le (fits.imp_left fun none => by rw [none, take_nil])
    | @two b₀ b₁ d₀ d₁ _ block0 full0 block1 some1 le' small =>
      have within : count + 1 ≤ b₁.length := by
        rw [block1.length]
        omega
      have taken : (d₀ ++ d₁).take ((d₀ ++ d₁).length - (count + 1)) = d₀ ++ d₁.take (d₁.length - (count + 1)) := by
        rw [length_append, Nat.add_sub_assoc (by omega), take_length_add_append]
      rw [taken]
      have trimmed := block1.trimEnd (count + 1)
      by_cases none : (b₁.trimEnd (count + 1)).length = 0
      · have released : release [b₀] b₁ [] (count + 1) = some ⟨[], b₀, []⟩ := by
          rw [release, if_pos within]
          exact if_pos ⟨rfl, none⟩
        refine ⟨⟨⟨[], b₀, []⟩, blockSize, byteCount - (count + 1 : Nat)⟩, ?_, ?_, rfl, rfl⟩
        · simp [backUp, released]
        · rw [trimmed.length, length_eq_zero_iff] at none
          rw [none, append_nil]
          exact .one block0 zero_le (.inr small)
      · have released : release [b₀] b₁ [] (count + 1) = some ⟨[b₀], b₁.trimEnd (count + 1), []⟩ := by
          rw [release, if_pos within]
          exact if_neg fun both => none both.2
        refine ⟨⟨⟨[b₀], b₁.trimEnd (count + 1), []⟩, blockSize, byteCount - (count + 1 : Nat)⟩, ?_, ?_, rfl, rfl⟩
        · simp [backUp, released]
        · rw [trimmed.length, length_eq_zero_iff] at none
          exact .two block0 full0 trimmed none zero_le small
    | three => exact absurd le (Nat.not_succ_le_zero _)

lemma Phase.out_of_order (size : capacity s.blockSize = c) (positive : 0 < c) (many : ¬ s.chain.toList.length ≤ 2) :
    ∃ bytes : Bytes, (bytes.length : Int) = (s.next capacity).2 ∧ ((s.next capacity).1.write bytes).contents ≠ kept ++ bytes := by
  obtain ⟨chain, blockSize, byteCount⟩ := s
  cases phase with
  | one => exact absurd (by simp [toList]) many
  | two => exact absurd (by simp [toList]) many
  | @three b₀ b₁ b₂ d₀ d₁ block0 full0 block1 full1 block2 small =>
    have full : b₀.tailroom = 0 := by rw [block0.tailroom, full0, Nat.sub_self]
    have room : room capacity ⟨⟨[], b₀, [b₂, b₁]⟩, blockSize, byteCount⟩ = ⟨[b₀], b₂, [b₁, .create c]⟩ := by
      rw [room_of_eq full, size]
      rfl
    have empty : b₂.tailroom = c := block2.tailroom
    -- some bytes that are not those of the second block
    obtain ⟨x, rest, rfl⟩ := exists_cons_of_length_pos (full1 ▸ positive)
    let bytes : Bytes := replicate c (if x = 0 then 1 else 0)
    have length : bytes.length = b₂.tailroom := length_replicate.trans empty.symm
    refine ⟨bytes, ?_, fun same => ?_⟩
    · rw [next_size, room, length]
      exact (int32_eq_iff.mpr (empty ▸ small)).symm
    · have written := block2.append length
      rw [OutputStream.contents, chain_write_next, room] at same
      simp only [Chain.set, Chain.toList, reverse_cons, reverse_nil, nil_append, singleton_append, map_cons,
        map_nil, flatten_cons, flatten_nil, block0.data, written.data, block1.data, (block_create c).data,
        append_nil, append_assoc] at same
      have swapped := (append_inj (append_cancel_left same) (length.trans (empty.trans full1.symm))).1
      obtain ⟨c, rfl⟩ := Nat.exists_eq_succ_of_ne_zero (ne_of_gt positive)
      have first := (cons.inj swapped).1
      split at first
      · rename_i zero
        rw [zero] at first
        cases first
      · rename_i other
        exact other first.symm

end

structure Writing (capacity : Nat → Nat) (c : Nat) (s : OutputStream) (kept : Bytes) (last : Nat) : Prop where
  phase : Phase c s.chain kept last
  size : capacity s.blockSize = c
  count : s.byteCount = kept.length

lemma Writing.next (so : Writing capacity c s kept last) (positive : 0 < c) (few : s.chain.toList.length ≤ 2) (small : c < 2 ^ 31)
    (length : (bytes.length : Int) = (s.next capacity).2) :
    Writing capacity c ((s.next capacity).1.write bytes) (kept ++ bytes) bytes.length := by
  obtain ⟨-, most, step⟩ := so.phase.next so.size positive few
  have length' : bytes.length = (s.room capacity).current.tailroom := by
    rw [next_size, int32_eq_iff.mpr (most.trans_lt small)] at length
    exact ofNat.inj length
  refine ⟨step bytes length' small, so.size, ?_⟩
  show s.byteCount + ((s.room capacity).current.tailroom : Nat) = _
  rw [so.count, length_append, length']
  rfl

lemma Writing.conforms_from_iff (so : Writing capacity c s kept last) (positive : 0 < c) :
    Conforms capacity s kept last calls ↔ Served capacity s last calls := by
  induction calls generalizing s kept last with
  | nil => exact Iff.rfl
  | cons call calls ih =>
    cases call with
    | next =>
      by_cases few : s.chain.toList.length ≤ 2
      · constructor
        · rintro ⟨size, right⟩
          have fits : c < 2 ^ 31 := by
            -- the size that is told is the one that is counted
            obtain ⟨-, counted, -⟩ := right (replicate (s.next capacity).2.toNat 0)
              (by rw [length_replicate, toNat_of_nonneg size])
            refine (so.phase.next so.size positive few).1 (int32_eq_iff.mp ?_)
            rw [← next_size]
            change s.byteCount + ((s.room capacity).current.tailroom : Nat) = _ at counted
            rw [so.count, length_append, length_replicate] at counted
            omega
          refine ⟨so.size ▸ fits, few, fun bytes length => ?_⟩
          exact (ih (so.next positive few fits length)).mp (right bytes length).2.2
        · rintro ⟨fits, -, served⟩
          rw [so.size] at fits
          refine ⟨?_, fun bytes length => ?_⟩
          · rw [next_size, int32_eq_iff.mpr ((so.phase.next so.size positive few).2.1.trans_lt fits)]
            exact natCast_nonneg _
          · have later := so.next positive few fits length
            exact ⟨later.phase.contents, later.count, (ih later).mpr (served bytes length)⟩
      · refine iff_of_false ?_ fun served => few served.2.1
        rintro ⟨-, right⟩
        obtain ⟨bytes, length, wrong⟩ := so.phase.out_of_order so.size positive few
        exact wrong (right bytes length).1
    | backUp count =>
      refine forall_congr' fun le => ?_
      obtain ⟨t, backed, phase, size, counted⟩ := so.phase.backUp le
      have enough := so.phase.last_le
      have later : Writing capacity c t (kept.take (kept.length - count)) 0 := by
        refine ⟨phase, by rw [size, so.size], ?_⟩
        rw [counted, so.count, length_take]
        omega
      constructor
      · rintro ⟨t1, backed1, -, -, right⟩ t2 backed2
        cases backed1.symm.trans backed
        cases backed2.symm.trans backed
        exact (ih later).mp right
      · exact fun served => ⟨t, backed, later.phase.contents, later.count, (ih later).mpr (served t backed)⟩

end

section
variable {capacity} {s : OutputStream} {calls : List Call}

lemma conforms_of_no_room (none : capacity s.blockSize = 0) (empty : ∀ b ∈ s.chain.toList, b.buffer = []) (count : s.byteCount = 0) :
    Conforms capacity s [] 0 calls := by
  induction calls generalizing s with
  | nil => trivial
  | cons call calls ih =>
    have void : ∀ {b : IOBuf}, b.buffer = [] → b.tailroom = 0 ∧ b.data = [] := by
      intro b nothing
      simp [tailroom, data, nothing]
    have nothing : ∀ {t : OutputStream}, (∀ b ∈ t.chain.toList, b.buffer = []) → t.contents = [] := by
      intro t empty
      rw [contents, flatten_eq_nil_iff]
      rintro bytes member
      obtain ⟨b, inside, rfl⟩ := mem_map.mp member
      exact (void (empty b inside)).2
    cases call with
    | next =>
      have full := (void (empty s.chain.current (mem_append_right _ mem_cons_self))).1
      have inRoom : ∀ b ∈ (s.room capacity).toList, b.buffer = [] := by
        intro b member
        rw [room_of_eq full, toList_next] at member
        rcases mem_insertBefore.mp member with rfl | member
        · rw [none]
          rfl
        · exact empty b member
      have size := (void (inRoom _ (mem_append_right _ mem_cons_self))).1
      have told : (s.next capacity).2 = 0 := by rw [next_size, size]; decide
      rw [Conforms, told]
      refine ⟨le_refl 0, fun bytes length => ?_⟩
      obtain rfl : bytes = [] := length_eq_zero_iff.mp (ofNat.inj length)
      have later : ∀ b ∈ ((s.next capacity).1.write []).chain.toList, b.buffer = [] := by
        intro b member
        rw [chain_write_next] at member
        rcases mem_set member with rfl | member
        · simp [overwrite, append, inRoom _ (mem_append_right _ mem_cons_self)]
        · exact inRoom b member
      have counted : ((s.next capacity).1.write []).byteCount = 0 := by
        show s.byteCount + ((s.room capacity).current.tailroom : Nat) = 0
        rw [count, size]
        rfl
      exact ⟨nothing later, counted, ih none later counted⟩
    | backUp given =>
      intro le
      obtain rfl : given = 0 := Nat.le_zero.mp le
      have same : s.backUp 0 = some s := by
        simp [backUp, release]
      exact ⟨s, same, nothing empty, count, ih none empty count⟩

end

lemma conforms_new_iff (blockSize : Nat) (calls : List Call) : Conforms capacity (new capacity blockSize) [] 0 calls ↔
      capacity blockSize = 0 ∨ Served capacity (new capacity blockSize) 0 calls := by
  have block := block_create (capacity blockSize)
  rcases eq_zero_or_pos (capacity blockSize) with none | positive
  · refine iff_of_true (conforms_of_no_room none (fun b member => ?_) rfl) (.inl none)
    obtain rfl : b = .create (capacity blockSize) := by simpa [new, single, toList] using member
    rw [none]
    rfl
  · have start : Writing capacity (capacity blockSize) (new capacity blockSize) [] 0 :=
      ⟨.one block (le_refl 0) (.inl rfl), rfl, rfl⟩
    rw [start.conforms_from_iff positive, or_iff_right (ne_of_gt positive)]

end OutputStream

/-! Messages in files (`mraft/utils.cpp`): the length, and what protobuf writes to an output stream. -/

open InputStream

namespace OutputStream

inductive Event where
  | next (bytes : Bytes)
  | backUp (count : Nat)

def Event.call : Event → Call
  | .next _ => .next
  | .backUp count => .backUp count

def run (capacity : Nat → Nat) : OutputStream → (kept : Bytes) → (last : Nat) → List Event → Option (OutputStream × Bytes)
  | s, kept, _, [] => some (s, kept)
  | s, kept, _, .next bytes :: events =>
    if (bytes.length : Int) = (s.next capacity).2 then
      run capacity ((s.next capacity).1.write bytes) (kept ++ bytes) bytes.length events
    else none
  | s, kept, last, .backUp count :: events =>
    if count ≤ last then do run capacity (← s.backUp count) (kept.take (kept.length - count)) 0 events else none

lemma Conforms.run {capacity : Nat → Nat} {s s' : OutputStream} {kept kept' : Bytes} {last : Nat} {events : List Event}
    (conforms : Conforms capacity s kept last (events.map Event.call)) (here : s.contents = kept)
    (done : run capacity s kept last events = some (s', kept')) : s'.contents = kept' := by
  induction events generalizing s kept last with
  | nil =>
    cases done
    exact here
  | cons event events ih =>
    cases event with
    | next bytes =>
      rw [OutputStream.run] at done
      split at done
      · rename_i length
        obtain ⟨held, -, right⟩ := conforms.2 bytes length
        exact ih right held done
      · cases done
    | backUp count =>
      rw [OutputStream.run] at done
      split at done
      · rename_i le
        obtain ⟨t, backed, held, -, right⟩ := conforms le
        rw [backed] at done
        exact ih right held done
      · cases done

end OutputStream

/-- What `pb_write_file` leaves in a file; `encode` gives the bytes as the output stream of the source holds them. -/
def pbWriteFile {α : Type} (c : Codec α) (m : α) : Bytes := beBytes 4 (c.encode m).length ++ c.encode m

def pbReadFile {α : Type} (c : Codec α) (file : Bytes) : Option α :=
  if file.length < 4 then none
  else
    let len := beNat (file.take 4)
    let body := file.drop 4
    if body.length < len then none else c.decode (body.take len)

lemma pbReadFile_pbWriteFile {α : Type} {c : Codec α} {m : α} (faithful : c.Faithful m) (fits : (c.encode m).length < 2 ^ 32) :
    pbReadFile c (pbWriteFile c m) = some m := by
  have header : (beBytes 4 (c.encode m).length).length = 4 := Lib.length_beBytes _ _
  have long : ¬ (pbWriteFile c m).length < 4 := by
    rw [pbWriteFile, length_append, header]
    omega
  have first : (pbWriteFile c m).take 4 = beBytes 4 (c.encode m).length := take_left' header
  have body : (pbWriteFile c m).drop 4 = c.encode m := drop_left' header
  rw [pbReadFile, if_neg long, first, body, Lib.beNat_beBytes fits]
  rw [if_neg (lt_irrefl _), take_length]
  exact faithful

/-- `pb_write_fd`, in the blocks of 4096 bytes that the stream has by default. -/
def pbWriteFd (capacity : Nat → Nat) (events : List Event) : Option Bytes := do
  let (s, _) ← run capacity (.new capacity 4096) [] 0 events
  let len := s.contents.length % 2 ^ 32
  if 4 + s.contents.length = len + 4 then some (beBytes 4 len ++ s.contents) else none

def bodyBuf (capacity : Nat → Nat) (body : Bytes) : IOBuf :=
  ⟨body ++ List.replicate (capacity body.length - body.length) 0, 0, body.length, by simp⟩

/-- Protobuf, as far as it meets the streams: what it does to write a message to the output stream of `pb_write_fd`, the calls
    by which it reads some bytes, and what it makes of an input stream. -/
structure Protobuf (α : Type) where
  codec : Codec α
  writes : α → List Event
  reads : Bytes → List InputStream.Call
  parse : InputStream → Option α

def Protobuf.stored {α : Type} (p : Protobuf α) (capacity : Nat → Nat) : Codec α where
  encode m := ((run capacity (.new capacity 4096) [] 0 (p.writes m)).elim [] fun r => r.1.contents)
  decode body := p.parse (.new (.single (bodyBuf capacity body)))

def pbReadFd {α : Type} (p : Protobuf α) (capacity : Nat → Nat) (file : Bytes) : Option α := pbReadFile (p.stored capacity) file

/-- Protobuf writes the message, and reads it from a stream that does what the contract says. -/
structure Protobuf.Correct {α : Type} (p : Protobuf α) (capacity : Nat → Nat) (m : α) : Prop where
  faithful : p.codec.Faithful m
  small : (p.codec.encode m).length < 2 ^ 31
  written : ∃ s, run capacity (.new capacity 4096) [] 0 (p.writes m) = some (s, p.codec.encode m)
  allowed : Allowed (if p.codec.encode m = [] then [] else [(p.codec.encode m).length]) 0 (p.reads (p.codec.encode m))
  parsed : ∀ s whole, Conforms whole s 0 0 (p.reads whole) → p.parse s = p.codec.decode whole

lemma data_bodyBuf (capacity : Nat → Nat) (body : Bytes) : (bodyBuf capacity body).data = body := by
  rw [bodyBuf, data, drop_zero, take_left]

lemma conforms_bodyBuf {capacity : Nat → Nat} {body : Bytes} {calls : List InputStream.Call} (small : body.length < 2 ^ 31)
    (allowed : Allowed (if body = [] then [] else [body.length]) 0 calls) (kept : ∀ count, .backUp count ∈ calls → count = 0) :
    Conforms body (.new (.single (bodyBuf capacity body))) 0 0 calls := by
  have reading := reading_new (bodyBuf capacity body) []
  have contents : contents [bodyBuf capacity body] = body := by
    simp [InputStream.contents, data_bodyBuf]
  rw [contents] at reading
  have sizes : (filled [bodyBuf capacity body]).map IOBuf.length = if body = [] then [] else [body.length] := by
    by_cases none : body = []
    · subst none
      rfl
    · rw [filled, filter_cons_of_pos (by simpa [bodyBuf] using none), if_neg none]
      rfl
  refine (reading.conforms_from_iff (le_refl 0) (by rwa [sizes])).mpr ⟨kept, fun more => ?_, fun b member => ?_⟩
  · cases more
  · obtain rfl : b = bodyBuf capacity body := mem_singleton.mp (mem_filter.mp (mem_of_mem_take member)).1
    exact small

section
variable {α : Type} {p : Protobuf α} {capacity : Nat → Nat} {m : α} (correct : p.Correct capacity m)
  (conforms : Conforms capacity (.new capacity 4096) [] 0 ((p.writes m).map Event.call))
include correct conforms

lemma stored_encode : (p.stored capacity).encode m = p.codec.encode m ∧
    pbWriteFd capacity (p.writes m) = some (pbWriteFile (p.stored capacity) m) := by
  obtain ⟨s, written⟩ := correct.written
  have empty : (new capacity 4096).contents = [] := rfl
  have held := conforms.run empty written
  have encode : (p.stored capacity).encode m = s.contents := by
    simp [Protobuf.stored, written]
  have small := correct.small
  have short : s.contents.length % 2 ^ 32 = s.contents.length := Nat.mod_eq_of_lt (by rw [held]; omega)
  refine ⟨encode.trans held, ?_⟩
  rw [pbWriteFd, written, pbWriteFile, encode]
  show ite _ _ _ = _
  rw [short, if_pos (add_comm _ _)]

lemma pbReadFd_pbWriteFd (kept : ∀ count, .backUp count ∈ p.reads (p.codec.encode m) → count = 0) :
    (pbWriteFd capacity (p.writes m)).bind (pbReadFd p capacity) = some m := by
  obtain ⟨encode, file⟩ := stored_encode correct conforms
  have small := correct.small
  have faithful : (p.stored capacity).Faithful m := by
    rw [Codec.Faithful, encode]
    exact (correct.parsed _ _ (conforms_bodyBuf small correct.allowed kept)).trans correct.faithful
  rw [file, Option.bind_some]
  exact pbReadFile_pbWriteFile faithful (by rw [encode]; omega)

end

/-- The output stream holds the regions in the order of the calls precisely when `Next` is not called once the chain has three
    blocks. -/
theorem in_order_iff_and_read_back (capacity : Nat → Nat) :
    (∀ blockSize calls, Conforms capacity (.new capacity blockSize) [] 0 calls ↔
      capacity blockSize = 0 ∨ Served capacity (.new capacity blockSize) 0 calls) ∧
    ∀ (α : Type) (p : Protobuf α) (m : α), p.Correct capacity m →
      Served capacity (.new capacity 4096) 0 ((p.writes m).map Event.call) →
      (∀ count, .backUp count ∈ p.reads (p.codec.encode m) → count = 0) →
      (pbWriteFd capacity (p.writes m)).bind (pbReadFd p capacity) = some m := by
  refine ⟨conforms_new_iff capacity, fun α p m correct served kept => ?_⟩
  exact pbReadFd_pbWriteFd correct ((conforms_new_iff capacity 4096 _).mpr (.inr served)) kept

theorem third_block_out_of_order :
    (run id (.new id 1) [] 0 [.next [1], .next [2], .next [], .next [3]]).map (fun r => (r.2, r.1.contents)) =
      some ([1, 2, 3], [1, 3, 2]) ∧
    ¬ Conforms id (.new id 1) [] 0 [.next, .next, .next, .next] := by
  have done : (run id (.new id 1) [] 0 [.next [1], .next [2], .next [], .next [3]]).map (fun r => (r.2, r.1.contents)) =
      some ([1, 2, 3], [1, 3, 2]) := by
    decide +kernel
  refine ⟨done, fun conforms => ?_⟩
  obtain ⟨⟨s, kept⟩, ran, same⟩ := Option.map_eq_some_iff.mp done
  obtain ⟨rfl, contents⟩ := Prod.mk.inj same
  have held := conforms.run rfl ran
  rw [contents] at held
  exact absurd held (by decide)

def oneMessage : Protobuf Unit where
  codec := ⟨fun _ => [5], fun _ => some ()⟩
  writes _ := [.next (5 :: List.replicate 4095 0), .backUp 4095]
  reads _ := [.next, .next]
  parse _ := some ()

lemma oneMessage_correct : oneMessage.Correct id () := by
  refine ⟨rfl, by decide, ?_, trivial, fun _ _ _ => rfl⟩
  have start : Writing id 4096 (.new id 4096) [] 0 :=
    ⟨.one (block_create 4096) (le_refl 0) (.inl rfl), rfl, rfl⟩
  have length : ((5 :: replicate 4095 0 : Bytes).length : Int) = ((new id 4096).next id).2 := by
    have tailroom : (new id 4096).chain.current.tailroom = 4096 := (block_create 4096).tailroom
    have room : (new id 4096).room id = (new id 4096).chain :=
      room_of_ne (by rw [tailroom]; decide)
    rw [next_size, room, tailroom, length_cons, length_replicate]
    exact (int32_eq_iff.mpr (by decide)).symm
  have later := start.next (by decide) (by decide) (by decide) length
  have enough : 4095 ≤ (5 :: replicate 4095 0 : Bytes).length := by
    rw [length_cons, length_replicate]
    decide
  obtain ⟨s, backed, -⟩ := later.phase.backUp enough
  refine ⟨s, ?_⟩
  show run id _ _ _ [.next _, .backUp 4095] = _
  rw [run, if_pos length, run, if_pos enough, backed]
  have kept : ([] ++ 5 :: replicate 4095 0 : Bytes).take (([] ++ 5 :: replicate 4095 0 : Bytes).length - 4095) = [5] := by
    rw [nil_append, length_cons, length_replicate]
    rfl
  rw [kept]
  rfl

theorem in_order_iff_and_read_back_oneMessage :
    oneMessage.Correct id () ∧ (pbWriteFd id (oneMessage.writes ())).bind (pbReadFd oneMessage id) = some () := by
  refine ⟨oneMessage_correct, (in_order_iff_and_read_back id).2 Unit oneMessage () oneMessage_correct ?_ ?_⟩
  · exact ⟨by decide, by decide, fun _ _ _ _ _ => trivial⟩
  · intro count given
    have among : InputStream.Call.backUp count ∈ [InputStream.Call.next, .next] := given
    simp at among

end Myctk.Mraft
