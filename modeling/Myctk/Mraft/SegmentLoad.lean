import Myctk.Mraft.Segment

/-! What `Load` makes of any bytes: it takes frame after frame, and stops at bytes that end too early or whose header is damaged.
    -/

namespace Myctk.Mraft
open Lib Segment List Nat

variable {env : Env} {before b f : Bytes}

def headerOf (b : Bytes) : EntryHeader := EntryHeader.decode (b.take kEntryHeaderLength)

structure Intact (env : Env) (b : Bytes) : Prop where
  header : kEntryHeaderLength ≤ b.length
  checksum : env.crc32 (b.take (kEntryHeaderLength - 4)) = (headerOf b).headerChecksum

def extent (b : Bytes) : Nat := kEntryHeaderLength + (headerOf b).dataLen.toNat

structure IsFrame (env : Env) (b : Bytes) : Prop extends Intact env b where
  length : b.length = extent b

def Torn (env : Env) (b : Bytes) : Prop := b.length < kEntryHeaderLength ∨ (Intact env b ∧ b.length < extent b)

def Damaged (env : Env) (b : Bytes) : Prop := kEntryHeaderLength ≤ b.length ∧ ¬ Intact env b

lemma torn_nil : Torn env [] := .inl (by decide)

lemma headerOf_append (rest : Bytes) (long : kEntryHeaderLength ≤ f.length) : headerOf (f ++ rest) = headerOf f := by
  rw [headerOf, headerOf, take_append_of_le_length long]

lemma intact_append (env : Env) (rest : Bytes) (long : kEntryHeaderLength ≤ f.length) : Intact env (f ++ rest) ↔ Intact env f := by
  have checked : (f ++ rest).take (kEntryHeaderLength - 4) = f.take (kEntryHeaderLength - 4) :=
    take_append_of_le_length (le_trans (sub_le _ _) long)
  constructor
  · exact fun intact => ⟨long, by rw [← checked, ← headerOf_append rest long]; exact intact.checksum⟩
  · refine fun intact => ⟨?_, by rw [checked, headerOf_append rest long]; exact intact.checksum⟩
    rw [length_append]
    exact le_add_right_of_le long

lemma frame_cases (env : Env) (b : Bytes) : Torn env b ∨ Damaged env b ∨ ∃ f rest, b = f ++ rest ∧ IsFrame env f := by
  by_cases long : kEntryHeaderLength ≤ b.length
  · by_cases intact : Intact env b
    · by_cases fits : extent b ≤ b.length
      · refine .inr (.inr ⟨b.take (extent b), b.drop (extent b), (take_append_drop _ _).symm, ?_⟩)
        have length := length_take_of_le fits
        have header : kEntryHeaderLength ≤ (b.take (extent b)).length := by
          rw [length]
          exact le_add_right _ _
        have same : headerOf (b.take (extent b)) = headerOf b := by
          rw [← headerOf_append (b.drop (extent b)) header, take_append_drop]
        refine ⟨(intact_append env (b.drop (extent b)) header).mp ?_, ?_⟩
        · rwa [take_append_drop]
        · exact length.trans (congrArg (fun h => kEntryHeaderLength + h.dataLen.toNat) same.symm)
      · exact .inl (.inr ⟨intact, Nat.lt_of_not_le fits⟩)
    · exact .inr (.inl ⟨long, intact⟩)
  · exact .inl (.inl (Nat.lt_of_not_le long))

lemma loadEntry_at (env : Env) (i : Int) : loadEntry env (before ++ b) i before.length false =
      if b.length < kEntryHeaderLength then .error 1
      else if env.crc32 (b.take (kEntryHeaderLength - 4)) = (headerOf b).headerChecksum then .ok (headerOf b, none) else .error (-1) := by
  have covered : (b.take kEntryHeaderLength).take (kEntryHeaderLength - 4) = b.take (kEntryHeaderLength - 4) := by
    rw [take_take]
    rfl
  simp only [loadEntry, drop_left, covered, length_take, headerOf]
  by_cases short : b.length < kEntryHeaderLength
  · rw [if_pos short, if_pos (by omega)]
  · rw [if_neg short, if_neg (by omega), ite_not]
    rfl

section
variable {st : Segment.LoadState} (here : st.entryOff = before.length)
include here

lemma loadPass_frame (rest : Bytes) (frame : IsFrame env f) : loadPass env (before ++ (f ++ rest)) st =
    .inl ⟨(before ++ f).length, st.offsetAndTerm ++ [(before.length, (headerOf f).term)], st.actualLastIndex + 1⟩ := by
  have header := frame.header
  have length := frame.length
  have intact := (intact_append env rest header).mpr frame.toIntact
  have inside : before.length < (before ++ (f ++ rest)).length := by
    simp only [length_append]
    simp only [kEntryHeaderLength] at header
    omega
  have fits : ¬ before.length + (kEntryHeaderLength + (headerOf f).dataLen.toNat) > (before ++ (f ++ rest)).length := by
    rw [← extent, ← length]
    simp only [length_append]
    omega
  rw [loadPass, here, if_pos inside, loadEntry_at, if_neg (not_lt.mpr intact.header), if_pos intact.checksum,
    headerOf_append rest header]
  simp only [if_neg fits]
  rw [← extent, ← length, length_append]

lemma loadPass_torn (torn : Torn env b) : loadPass env (before ++ b) st = .inr (0, st) := by
  rw [loadPass, here]
  split
  case isFalse => rfl
  case isTrue =>
    rw [loadEntry_at]
    rcases torn with short | ⟨intact, short⟩
    · rw [if_pos short]
      rfl
    · have beyond : before.length + (kEntryHeaderLength + (headerOf b).dataLen.toNat) > (before ++ b).length := by
        rw [← extent, length_append]
        omega
      rw [if_neg (not_lt.mpr intact.header), if_pos intact.checksum]
      simp only [if_pos beyond]

lemma loadPass_damaged (damaged : Damaged env b) : loadPass env (before ++ b) st = .inr (-1, st) := by
  obtain ⟨long, bad⟩ := damaged
  have inside : before.length < (before ++ b).length := by
    rw [length_append]
    simp only [kEntryHeaderLength] at long
    omega
  have checksum : ¬ env.crc32 (b.take (kEntryHeaderLength - 4)) = (headerOf b).headerChecksum := fun same => bad ⟨long, same⟩
  rw [loadPass, here, if_pos inside, loadEntry_at, if_neg (not_lt.mpr long), if_neg checksum]
  rfl

end

def frameTable : Nat → List Bytes → List (Nat × Int64)
  | _, [] => []
  | off, f :: frames => (off, (headerOf f).term) :: frameTable (off + f.length) frames

@[simp] lemma length_frameTable (off : Nat) (frames : List Bytes) : (frameTable off frames).length = frames.length := by
  induction frames generalizing off with
  | nil => rfl
  | cons f frames ih => rw [frameTable, length_cons, ih, length_cons]

lemma load_frames (before : Bytes) {frames : List Bytes} (tail : Bytes) (rc : Int)
    (framed : ∀ f ∈ frames, IsFrame env f) (table : List (Nat × Int64))
    (last : Int) {fuel : Nat} (enough : frames.length < fuel)
    (stops : ∀ st : LoadState, st.entryOff = (before ++ frames.flatten).length →
      loadPass env (before ++ frames.flatten ++ tail) st = .inr (rc, st)) :
    loop (loadPass env (before ++ frames.flatten ++ tail)) fuel ⟨before.length, table, last⟩ =
      some (rc, ⟨(before ++ frames.flatten).length, table ++ frameTable before.length frames, last + frames.length⟩) := by
  induction frames generalizing before table last fuel with
  | nil =>
    obtain ⟨fuel, rfl⟩ : ∃ n, fuel = n + 1 := ⟨fuel - 1, by simp only [length_nil] at enough; omega⟩
    rw [loop_inr (stops _ (by simp))]
    simp [frameTable]
  | cons f frames ih =>
    obtain ⟨fuel, rfl⟩ : ∃ n, fuel = n + 1 := ⟨fuel - 1, by omega⟩
    obtain ⟨frame, framed⟩ := forall_mem_cons.mp framed
    have split : before ++ (f :: frames).flatten = (before ++ f) ++ frames.flatten := by
      rw [flatten_cons, append_assoc]
    have bytes : before ++ (f :: frames).flatten ++ tail = before ++ (f ++ (frames.flatten ++ tail)) := by
      simp
    have pass := @loadPass_frame env before f ⟨before.length, table, last⟩ rfl (frames.flatten ++ tail) frame
    rw [← bytes, split] at pass
    rw [split] at stops ⊢
    rw [loop_inl pass, ih _ framed _ _ (by simpa using enough) stops]
    simp [frameTable, Int.add_assoc, Int.add_comm 1]

lemma length_le_flatten {frames : List Bytes} (framed : ∀ f ∈ frames, IsFrame env f) : frames.length ≤ frames.flatten.length := by
  induction frames with
  | nil => exact le_refl 0
  | cons f frames ih =>
    obtain ⟨frame, framed⟩ := forall_mem_cons.mp framed
    have header := frame.header
    have others := ih framed
    simp only [kEntryHeaderLength] at header
    rw [flatten_cons, length_append, length_cons]
    omega

lemma exists_frames (env : Env) (b : Bytes) :
    ∃ (frames : List Bytes) (tail : Bytes), b = frames.flatten ++ tail ∧ (∀ f ∈ frames, IsFrame env f) ∧
      (Torn env tail ∨ Damaged env tail) := by
  -- by induction on the length: a frame is not empty
  induction size : b.length using Nat.strong_induction_on generalizing b with
  | _ n ih =>
    rcases frame_cases env b with torn | damaged | ⟨f, rest, rfl, frame⟩
    · exact ⟨[], b, rfl, fun _ none => (nomatch none), .inl torn⟩
    · exact ⟨[], b, rfl, fun _ none => (nomatch none), .inr damaged⟩
    · have header := frame.header
      have shorter : rest.length < n := by
        rw [← size, length_append]
        simp only [kEntryHeaderLength] at header
        omega
      obtain ⟨frames, tail, rfl, framed, ends⟩ := ih rest.length shorter rest rfl
      exact ⟨f :: frames, tail, by rw [flatten_cons, append_assoc], forall_mem_cons.mpr ⟨frame, framed⟩, ends⟩

namespace Segment

variable {io : Io} {d : Disk} {seg : Segment} {fd : Nat} {frames : List Bytes} {tail : Bytes}

def loaded (seg : Segment) (fd : Nat) (frames : List Bytes) : Segment :=
  { seg with
    fd
    offset := frames.flatten.length
    bytes := frames.flatten.length
    lastIndex := if seg.isOpen then seg.firstIndex - 1 + frames.length else seg.lastIndex
    offsetAndTerm := frameTable 0 frames }

lemma load_of_torn (seg : Segment) (there : d.lookup (seg.getPath seg.isOpen) = some fd) (fresh : seg.offsetAndTerm = [])
    (bytes : d.content fd = frames.flatten ++ tail) (framed : ∀ f ∈ frames, IsFrame env f) (torn : Torn env tail)
    (cut : tail = [] ∨ io.ftruncateOk = true) : seg.load env io d = (0, seg.loaded fd frames, d.setContent fd frames.flatten) := by
  have enough : frames.length < (d.content fd).length + 1 := by
    have few := length_le_flatten framed
    rw [bytes, length_append]
    omega
  have ends := load_frames [] tail 0 framed [] (seg.firstIndex - 1) enough
    fun st here => loadPass_torn here torn
  rw [nil_append, ← bytes, length_nil, nil_append] at ends
  simp only [load, there, fresh, ends]
  rw [if_neg (not_not.mpr rfl)]
  split
  case isTrue rest =>
    have some : tail ≠ [] := by
      rintro rfl
      rw [bytes, append_nil] at rest
      exact rest rfl
    have short : frames.flatten.length ≤ (d.content fd).length := by
      rw [bytes, length_append]
      exact le_add_right _ _
    rw [if_pos (cut.resolve_left some), Disk.ftruncate_eq short, bytes, take_left]
    rfl
  case isFalse none =>
    rw [not_not, bytes, length_append] at none
    have nil : tail = [] := eq_nil_of_length_eq_zero (by omega)
    rw [nil, append_nil] at bytes
    rw [← bytes, Disk.setContent, Function.update_eq_self, bytes]
    rfl

lemma load_of_damaged (io : Io) (seg : Segment) (there : d.lookup (seg.getPath seg.isOpen) = some fd) (fresh : seg.offsetAndTerm = [])
    (bytes : d.content fd = frames.flatten ++ tail) (framed : ∀ f ∈ frames, IsFrame env f) (damaged : Damaged env tail) :
    (seg.load env io d).1 = -1 := by
  have enough : frames.length < (d.content fd).length + 1 := by
    have few := length_le_flatten framed
    rw [bytes, length_append]
    omega
  have ends := load_frames [] tail (-1) framed [] (seg.firstIndex - 1) enough
    fun st here => loadPass_damaged here damaged
  rw [nil_append, ← bytes, length_nil, nil_append] at ends
  simp only [load, there, fresh, ends]
  rfl

end Segment

/-! Reading a segment file back: what `Append` has written, `LoadEntry` and `Load` find again. -/

open EntryHeader

variable {env : Env} {io : Io} {reserved : Reserved} {before behind : Bytes}

lemma decode_encode (h : EntryHeader) (reserved : Reserved) :
    decode (h.encode env reserved) = { h with headerChecksum := env.crc32 (h.covered reserved) } := by
  obtain ⟨crc, hcrc⟩ : ∃ crc, env.crc32 (h.covered reserved) = crc := ⟨_, rfl⟩
  have bytes : h.encode env reserved = beBytes 8 h.term.toUInt64.toNat ++
      ([h.type, reserved.1, reserved.2.1, reserved.2.2] ++
        (beBytes 4 h.dataLen.toNat ++ (beBytes 4 h.dataChecksum.toNat ++ beBytes 4 crc.toNat))) := by
    rw [encode, hcrc, covered]
    simp
  have term := h.term.toUInt64.toNat_lt
  have len := h.dataLen.toNat_lt
  have sum := h.dataChecksum.toNat_lt
  have head := crc.toNat_lt
  rw [bytes, hcrc, decode]
  simp [drop_append, drop_eq_nil_of_le, take_of_length_le, beNat_beBytes, term, len, sum,
    head]

lemma take_header (h : EntryHeader) :
    ((before ++ (h.encode env reserved ++ behind)).drop before.length).take kEntryHeaderLength = h.encode env reserved := by
  rw [drop_left]
  exact take_left' length_header_encode

lemma take_covered (h : EntryHeader) : (h.encode env reserved).take (kEntryHeaderLength - 4) = h.covered reserved := by
  rw [encode]
  exact take_left' (by simp [covered, kEntryHeaderLength])

lemma toNat_dataLen {e : LogEntry} : (e.header env).dataLen.toNat = e.data.length := by
  simp only [LogEntry.header, UInt32.toNat_ofNat']
  exact Nat.mod_eq_of_lt e.length_lt

section Entry

variable {r : Record} {content : Bytes} (standing : content = before ++ (r.encode env ++ behind))

include standing

lemma standing_header : (content.drop before.length).take kEntryHeaderLength = (r.entry.header env).encode env r.reserved := by
  rw [standing, Record.encode, LogEntry.encode, append_assoc]
  exact take_header _

lemma standing_data : (content.drop (before.length + kEntryHeaderLength)).take r.entry.data.length = r.entry.data := by
  rw [standing, Record.encode, LogEntry.encode, ← drop_drop, drop_left, append_assoc,
    drop_left' length_header_encode, take_left]

lemma loadEntry_data : ∃ head, Segment.loadEntry env content r.entry.index before.length true = .ok (head, some r.entry) := by
  have data := standing_data standing
  have checked : ¬ ((r.entry.header env).dataLen > 0 ∧ env.crc32 r.entry.data ≠ (r.entry.header env).dataChecksum) := by
    rintro ⟨positive, differs⟩
    have : 0 < r.entry.data.length := by
      exact toNat_dataLen (e := r.entry) ▸ positive
    simp [LogEntry.header, this] at differs
  refine ⟨{ r.entry.header env with headerChecksum := env.crc32 ((r.entry.header env).covered r.reserved) }, ?_⟩
  unfold Segment.loadEntry
  simp only [standing_header standing, length_header_encode, take_covered, decode_encode, toNat_dataLen, data, checked]
  rw [if_neg (not_not.mpr rfl), if_neg (not_not.mpr rfl)]
  rfl

end Entry

lemma headerOf_encode (env : Env) (r : Record) : headerOf (r.encode env) =
      { r.entry.header env with headerChecksum := env.crc32 ((r.entry.header env).covered r.reserved) } := by
  rw [headerOf, Record.encode, LogEntry.encode, take_left' length_header_encode, decode_encode]

lemma extent_encode (env : Env) (r : Record) : extent (r.encode env) = (r.encode env).length := by
  rw [extent, headerOf_encode, length_encode]
  exact congrArg (kEntryHeaderLength + ·) (@toNat_dataLen env r.entry)

lemma isFrame_encode (env : Env) (r : Record) : IsFrame env (r.encode env) := by
  refine ⟨⟨length_encode ▸ Nat.le_add_right _ _, ?_⟩, (extent_encode env r).symm⟩
  rw [headerOf_encode, Record.encode, LogEntry.encode, take_append_of_le_length (by rw [length_header_encode]; decide),
    take_covered]

lemma torn_take (env : Env) (r : Record) {n : Nat} (short : n < (r.encode env).length) : Torn env ((r.encode env).take n) := by
  have length := length_take_of_le (Nat.le_of_lt short)
  by_cases header : kEntryHeaderLength ≤ n
  · have same := headerOf_append ((r.encode env).drop n) (length.symm ▸ header : kEntryHeaderLength ≤ ((r.encode env).take n).length)
    have intact := intact_append env ((r.encode env).drop n) (length.symm ▸ header : kEntryHeaderLength ≤ ((r.encode env).take n).length)
    rw [take_append_drop] at same intact
    refine .inr ⟨intact.mp (isFrame_encode env r).toIntact, ?_⟩
    rw [extent, ← same, ← extent, extent_encode, length]
    exact short
  · exact .inl (by omega)

lemma encodeAll_eq_flatten (env : Env) (recs : List Record) : encodeAll env recs = (recs.map (·.encode env)).flatten :=
  flatMap_def ..

lemma frameTable_encode (env : Env) (off : Nat) (recs : List Record) : frameTable off (recs.map (·.encode env)) = layout env off recs := by
  induction recs generalizing off with
  | nil => rfl
  | cons r recs ih =>
    rw [map_cons, frameTable, ih, layout, headerOf_encode]
    rfl

lemma framed_encode (env : Env) (recs : List Record) : ∀ f ∈ recs.map (·.encode env), IsFrame env f := by
  intro f member
  obtain ⟨r, -, rfl⟩ := mem_map.mp member
  exact isFrame_encode env r

namespace Segment

lemma get_of_mem {d : Disk} {seg : Segment} {recs : List Record} {r : Record} {tail : Bytes} (held : seg.Lists env d recs tail) {i : Int}
    (stored : recs[(i - seg.firstIndex).toNat]? = some r) (inside : seg.firstIndex ≤ i) : seg.get env d i = some r.entry := by
  obtain ⟨n, hn⟩ : ∃ n, (i - seg.firstIndex).toNat = n := ⟨_, rfl⟩
  rw [hn] at stored
  obtain ⟨short, eq⟩ := List.getElem?_eq_some_iff.mp stored
  have last := held.lastIndex
  have index : r.entry.index = i := by
    rw [held.indexed n r stored]
    omega
  have cursor : (seg.offsetAndTerm.getD n (0, 0)).1 = (encodeAll env (recs.take n)).length := by
    rw [getD_eq_getElem?_getD, held.offsetAndTerm, getElem?_layout, stored]
    simp
  have standing : d.content seg.fd =
      encodeAll env (recs.take n) ++ (r.encode env ++ (encodeAll env (recs.drop (n + 1)) ++ tail)) := by
    rw [held.content, ← append_assoc (r.encode env), ← encodeAll_cons, ← append_assoc, ← encodeAll_append, ← eq,
      getElem_cons_drop, take_append_drop]
  obtain ⟨head, loaded⟩ := loadEntry_data standing
  rw [index] at loaded
  unfold get getMeta
  rw [if_neg (by omega), if_neg (by omega)]
  simp only [hn, cursor, loaded]

/-- The segment that `ListSegments` makes from the name of a file. -/
def listed (seg : Segment) : Segment :=
  if seg.isOpen then opened seg.firstIndex else closed seg.firstIndex seg.lastIndex

@[simp] lemma firstIndex_listed (seg : Segment) : seg.listed.firstIndex = seg.firstIndex := by
  simp only [listed]
  cases seg.isOpen <;> rfl

lemma load_spec (io : Io) {d : Disk} {seg : Segment} {recs : List Record} (held : seg.Holds env d recs)
    (there : d.lookup seg.path = some seg.fd) : seg.listed.load env io d = (0, seg, d) := by
  have found : d.lookup (seg.listed.getPath seg.listed.isOpen) = some seg.fd := by
    rw [← there]
    simp only [listed, path]
    cases seg.isOpen <;> rfl
  have nothing : seg.listed.offsetAndTerm = [] := by
    simp only [listed]
    cases seg.isOpen <;> rfl
  have bytes : d.content seg.fd = (recs.map (·.encode env)).flatten ++ [] := by
    rw [held.content, encodeAll_eq_flatten, append_nil]
  rw [load_of_torn seg.listed found nothing bytes (framed_encode env recs) torn_nil (.inl rfl), ← encodeAll_eq_flatten, ← held.content,
    Disk.setContent, Function.update_eq_self]
  have last : seg.firstIndex - 1 + recs.length = seg.lastIndex := by
    rw [held.lastIndex]
    omega
  have size : (d.content seg.fd).length = seg.bytes := by rw [held.content, held.bytes]
  rw [loaded, ← encodeAll_eq_flatten, ← held.content, size, frameTable_encode, length_map, firstIndex_listed, last, ← held.offsetAndTerm]
  have same : seg.offset = seg.bytes := held.offset.trans held.bytes.symm
  obtain ⟨fd, offset, bytes, isOpen, firstIndex, lastIndex, offsetAndTerm⟩ := seg
  cases same
  cases isOpen <;> rfl

end Segment

end Myctk.Mraft
