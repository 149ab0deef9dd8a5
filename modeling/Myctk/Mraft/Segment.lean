import Mathlib.Data.List.AList
import Myctk.Lib.Bytes
import Myctk.Lib.Runs

/-! One segment file of the log (`mraft/segment_log_storage.cpp`): the encoded entries, the files of the log directory, and the
    operations of `Segment` with their return codes. -/

namespace Myctk.Mraft
open Lib

/-- What the storage is built with: `folly::crc32` and `FLAGS_raft_max_segment_size`. -/
structure Env where
  crc32 : Bytes → UInt32
  raftMaxSegmentSize : Int

/-- The bytes of an entry header that `Encode` skips: they keep what the allocator left there. -/
abbrev Reserved := UInt8 × UInt8 × UInt8

/-- What the system does in a call: which operations succeed, and `stale`, the place where the iterator of `PopSegments`
    stands after an erase has invalidated it, by the number of segments left (`none`: in freed memory). -/
structure Io where
  shortWrite : Option Nat
  createOk : Bool
  renameOk : Bool
  ftruncateOk : Bool
  saveMetaOk : Bool
  loadMetaOk : Bool
  reserved : Reserved
  stale : Nat → Option Nat

/-- No operation of the system fails. -/
structure Io.Ok (io : Io) : Prop where
  shortWrite : io.shortWrite = none
  createOk : io.createOk = true
  renameOk : io.renameOk = true
  ftruncateOk : io.ftruncateOk = true
  saveMetaOk : io.saveMetaOk = true
  loadMetaOk : io.loadMetaOk = true

def eio : Int := 5
def einval : Int := 22
def erange : Int := 34

/-- A log entry. -/
structure LogEntry where
  index : Int
  term : Int64
  type : UInt8
  data : Bytes
  length_lt : data.length < 2 ^ 32
  deriving DecidableEq

structure EntryHeader where
  term : Int64
  type : UInt8
  dataLen : UInt32
  dataChecksum : UInt32
  headerChecksum : UInt32
  deriving DecidableEq

def kEntryHeaderLength : Nat := 24

def EntryHeader.decode (data : Bytes) : EntryHeader where
  term := (UInt64.ofNat (beNat (data.take 8))).toInt64
  type := (data.drop 8).headD 0
  dataLen := .ofNat (beNat ((data.drop 12).take 4))
  dataChecksum := .ofNat (beNat ((data.drop 16).take 4))
  headerChecksum := .ofNat (beNat ((data.drop 20).take 4))

def EntryHeader.covered (reserved : Reserved) (h : EntryHeader) : Bytes :=
  beBytes 8 h.term.toUInt64.toNat ++ [h.type, reserved.1, reserved.2.1, reserved.2.2] ++
    beBytes 4 h.dataLen.toNat ++ beBytes 4 h.dataChecksum.toNat

def EntryHeader.encode (env : Env) (reserved : Reserved) (h : EntryHeader) : Bytes :=
  h.covered reserved ++ beBytes 4 (env.crc32 (h.covered reserved)).toNat

/-- The header that `Append` writes before an entry. -/
def LogEntry.header (env : Env) (e : LogEntry) : EntryHeader where
  term := e.term
  type := e.type
  dataLen := .ofNat e.data.length
  dataChecksum := if e.data.length > 0 then env.crc32 e.data else 0
  headerChecksum := 0

def LogEntry.encode (env : Env) (reserved : Reserved) (e : LogEntry) : Bytes :=
  (e.header env).encode env reserved ++ e.data

/-- The names of the log directory: `GetPath(true)`, `GetPath(false)`, and the temporary name that `Unlink`
    gives a file before it removes it. -/
inductive FileName where
  | inprogress (firstIndex : Int)
  | closed (firstIndex lastIndex : Int)
  | tmp (name : FileName)
  deriving DecidableEq

/-- The log directory: the files under their descriptors, the names, and the `log_meta` file. -/
structure Disk where
  content : Nat → Bytes
  next : Nat
  dir : AList fun _ : FileName => Nat
  logMeta : Option Int

namespace Disk

def empty : Disk := ⟨fun _ => [], 0, ∅, none⟩

def lookup (d : Disk) (name : FileName) : Option Nat := d.dir.lookup name

def unlink (d : Disk) (name : FileName) : Disk := { d with dir := d.dir.erase name }

def rename (d : Disk) (old new : FileName) : Option Disk :=
  (d.lookup old).map fun fd => { d with dir := (d.dir.erase old).insert new fd }

def setContent (d : Disk) (fd : Nat) (b : Bytes) : Disk := { d with content := Function.update d.content fd b }

/-- `open(2)` with `O_CREAT | O_TRUNC`. -/
def create (d : Disk) (name : FileName) : Nat × Disk :=
  match d.lookup name with
  | some fd => (fd, d.setContent fd [])
  | none => (d.next, { d.setContent d.next [] with next := d.next + 1, dir := d.dir.insert name d.next })

/-- Writes `b` at `offset`; a gap is filled with zeros. -/
def write (d : Disk) (fd offset : Nat) (b : Bytes) : Disk :=
  let c := d.content fd
  d.setContent fd ((c ++ List.replicate (offset - c.length) 0).take offset ++ b ++ c.drop (offset + b.length))

def ftruncate (d : Disk) (fd size : Nat) : Disk :=
  let c := d.content fd
  d.setContent fd ((c ++ List.replicate (size - c.length) 0).take size)

end Disk

/-- A segment. -/
structure Segment where
  fd : Nat
  offset : Nat
  bytes : Nat
  isOpen : Bool
  firstIndex : Int
  lastIndex : Int
  offsetAndTerm : List (Nat × Int64)

structure LogMeta where
  offset : Nat
  length : Int
  term : Int64

namespace Segment

/-- `Segment(path, first_index)`, before `Create` or `Load` opens its file. -/
def opened (firstIndex : Int) : Segment := ⟨0, 0, 0, true, firstIndex, firstIndex - 1, []⟩

/-- `Segment(path, first_index, last_index)`, before `Load` opens its file. -/
def closed (firstIndex lastIndex : Int) : Segment := ⟨0, 0, 0, false, firstIndex, lastIndex, []⟩

def getPath (seg : Segment) (isOpen : Bool) : FileName :=
  if isOpen then .inprogress seg.firstIndex else .closed seg.firstIndex seg.lastIndex

def loadEntry (env : Env) (content : Bytes) (index : Int) (offset : Nat) (withData : Bool) :
    Except Int (EntryHeader × Option LogEntry) :=
  let buf := (content.drop offset).take kEntryHeaderLength
  if buf.length ≠ kEntryHeaderLength then .error 1
  else
    let head := EntryHeader.decode buf
    if env.crc32 (buf.take (kEntryHeaderLength - 4)) ≠ head.headerChecksum then .error (-1)
    else if withData then
      let data := (content.drop (offset + kEntryHeaderLength)).take head.dataLen.toNat
      if h : data.length = head.dataLen.toNat then
        if head.dataLen > 0 ∧ env.crc32 data ≠ head.dataChecksum then .error (-1)
        else .ok (head, some ⟨index, head.term, head.type, data, h ▸ head.dataLen.toNat_lt⟩)
      else .error 1
    else .ok (head, none)

def getMeta (seg : Segment) (index : Int) : Option LogMeta :=
  if index > seg.lastIndex ∨ index < seg.firstIndex then none
  else if seg.lastIndex = seg.firstIndex - 1 then none
  else
    let metaIndex := (index - seg.firstIndex).toNat
    let entryCursor := (seg.offsetAndTerm.getD metaIndex (0, 0)).1
    let nextCursor := if index < seg.lastIndex then (seg.offsetAndTerm.getD (metaIndex + 1) (0, 0)).1 else seg.bytes
    some ⟨entryCursor, nextCursor - entryCursor, (seg.offsetAndTerm.getD metaIndex (0, 0)).2⟩

def getTerm (seg : Segment) (index : Int) : Int64 :=
  match seg.getMeta index with
  | none => 0
  | some m => m.term

def get (env : Env) (d : Disk) (seg : Segment) (index : Int) : Option LogEntry :=
  match seg.getMeta index with
  | none => none
  | some m =>
    match loadEntry env (d.content seg.fd) index m.offset true with
    | .error _ => none
    | .ok (_, entry) => entry

def create (io : Io) (d : Disk) (seg : Segment) : Int × Segment × Disk :=
  if !seg.isOpen then (-1, seg, d)
  else if !io.createOk then (-1, seg, d)
  else
    let (fd, d) := d.create (seg.getPath seg.isOpen)
    (0, { seg with fd, offset := 0 }, d)

def append (env : Env) (io : Io) (d : Disk) (seg : Segment) (entry : LogEntry) : Int × Segment × Disk :=
  if !seg.isOpen then (einval, seg, d)
  else if entry.index ≠ seg.lastIndex + 1 then (erange, seg, d)
  else
    let b := entry.encode env io.reserved
    match io.shortWrite with
    | some n => (eio, { seg with offset := seg.offset + n }, d.write seg.fd seg.offset (b.take n))
    | none =>
      (0, { seg with
              offset := seg.offset + b.length
              offsetAndTerm := seg.offsetAndTerm ++ [(seg.bytes, entry.term)]
              lastIndex := seg.lastIndex + 1
              bytes := seg.bytes + b.length },
        d.write seg.fd seg.offset b)

def close (io : Io) (d : Disk) (seg : Segment) : Int × Segment × Disk :=
  if !seg.isOpen then (0, seg, d)
  else
    let oldPath := seg.getPath true
    let newPath := seg.getPath false
    let seg := { seg with isOpen := false }
    match if io.renameOk then d.rename oldPath newPath else none with
    | none => (-1, seg, d)
    | some d => (0, seg, d)

def unlink (io : Io) (d : Disk) (seg : Segment) : Int × Disk :=
  let oldPath := seg.getPath seg.isOpen
  match if io.renameOk then d.rename oldPath (.tmp oldPath) else none with
  | none => (-1, d)
  | some d => (0, d.unlink (.tmp oldPath))

def truncate (io : Io) (d : Disk) (seg : Segment) (lastIndexKept : Int) : Int × Segment × Disk :=
  if lastIndexKept ≥ seg.lastIndex then (0, seg, d)
  else
    let firstTruncateInOffset := (lastIndexKept + 1 - seg.firstIndex).toNat
    let truncateSize := (seg.offsetAndTerm.getD firstTruncateInOffset (0, 0)).1
    let reopened :=
      if seg.isOpen then some (seg, d)
      else
        (if io.renameOk then d.rename (seg.getPath false) (seg.getPath true) else none).map fun d =>
          ({ seg with isOpen := true }, d)
    match reopened with
    | none => (-1, seg, d)
    | some (seg, d) =>
      if !io.ftruncateOk then (-1, seg, d)
      else
        (0, { seg with
                offset := truncateSize
                offsetAndTerm := seg.offsetAndTerm.take firstTruncateInOffset
                lastIndex := lastIndexKept
                bytes := truncateSize },
          d.ftruncate seg.fd truncateSize)

structure LoadState where
  entryOff : Nat
  offsetAndTerm : List (Nat × Int64)
  actualLastIndex : Int

def loadPass (env : Env) (content : Bytes) (st : LoadState) : LoadState ⊕ (Int × LoadState) :=
  if st.entryOff < content.length then
    match loadEntry env content (st.actualLastIndex + 1) st.entryOff false with
    | .error rc => if rc > 0 then .inr (0, st) else .inr (rc, st)
    | .ok (header, _) =>
      let skipLen := kEntryHeaderLength + header.dataLen.toNat
      if st.entryOff + skipLen > content.length then .inr (0, st)
      else
        .inl { entryOff := st.entryOff + skipLen
               offsetAndTerm := st.offsetAndTerm ++ [(st.entryOff, header.term)]
               actualLastIndex := st.actualLastIndex + 1 }
  else .inr (0, st)

def load (env : Env) (io : Io) (d : Disk) (seg : Segment) : Int × Segment × Disk :=
  match d.lookup (seg.getPath seg.isOpen) with
  | none => (-1, seg, d)
  | some fd =>
    let content := d.content fd
    let seg := { seg with fd, offset := 0 }
    match loop (loadPass env content) (content.length + 1) ⟨0, seg.offsetAndTerm, seg.firstIndex - 1⟩ with
    | none => (-1, seg, d)
    | some (rc, st) =>
      let seg := { seg with offsetAndTerm := st.offsetAndTerm }
      if rc ≠ 0 then (rc, seg, d)
      else
        let seg := { seg with
          lastIndex := if seg.isOpen then st.actualLastIndex else seg.lastIndex
          offset := st.entryOff
          bytes := st.entryOff }
        if st.entryOff ≠ content.length then
          if io.ftruncateOk then (0, seg, d.ftruncate fd st.entryOff) else (-1, seg, d)
        else (0, seg, d)

end Segment

/-! What the operations of a segment do to the entries its file holds, when no system call fails. -/

open Disk List AList

namespace Disk

variable {d : Disk} {name old new n : FileName} {fd : Nat}

/-- The directory after `rename(2)` of a name that is there. -/
def move (d : Disk) (old new : FileName) (fd : Nat) : Disk := { d with dir := (d.dir.erase old).insert new fd }

lemma rename_eq (new : FileName) (h : d.lookup old = some fd) : d.rename old new = some (d.move old new fd) := by
  simp [rename, h, move]

lemma lookup_unlink : (d.unlink name).lookup n = if n = name then none else d.lookup n := by
  split
  · next h => subst h; exact lookup_erase _ _
  · next h => exact lookup_erase_ne h

lemma lookup_move : (d.move old new fd).lookup n = if n = new then some fd else if n = old then none else d.lookup n := by
  unfold lookup move
  split
  · next h => subst h; exact lookup_insert _
  · next h =>
    rw [lookup_insert_ne h]
    exact lookup_unlink

@[simp] lemma content_move : (d.move old new fd).content = d.content := rfl
@[simp] lemma content_unlink : (d.unlink name).content = d.content := rfl
@[simp] lemma lookup_setContent {b : Bytes} : (d.setContent fd b).lookup n = d.lookup n := rfl
@[simp] lemma content_setContent {b : Bytes} : (d.setContent fd b).content fd = b := Function.update_self ..

lemma content_setContent_ne {b : Bytes} {fd' : Nat} (h : fd' ≠ fd) :
    (d.setContent fd b).content fd' = d.content fd' := Function.update_of_ne h ..

def added (d : Disk) (name : FileName) : Disk :=
  { d.setContent d.next [] with next := d.next + 1, dir := d.dir.insert name d.next }

lemma create_eq (h : d.lookup name = none) : d.create name = (d.next, d.added name) := by
  simp [create, h, added]

lemma lookup_added : (d.added name).lookup n = if n = name then some d.next else d.lookup n := by
  split
  · next h => subst h; exact lookup_insert _
  · next h => exact lookup_insert_ne h

lemma content_added_ne {fd : Nat} (h : fd ≠ d.next) : (d.added name).content fd = d.content fd :=
  content_setContent_ne h

lemma write_end {b : Bytes} : d.write fd (d.content fd).length b = d.setContent fd (d.content fd ++ b) := by
  simp [write, drop_eq_nil_of_le]

lemma ftruncate_eq {size : Nat} (h : size ≤ (d.content fd).length) :
    d.ftruncate fd size = d.setContent fd ((d.content fd).take size) := by
  simp [ftruncate, take_append_of_le_length h]

end Disk

structure Record where
  entry : LogEntry
  reserved : Reserved

def Record.encode (env : Env) (r : Record) : Bytes := r.entry.encode env r.reserved

def encodeAll (env : Env) (recs : List Record) : Bytes := recs.flatMap (·.encode env)

/-- The offset and the term of each record of a file, when the first one starts at `off`. -/
def layout (env : Env) : Nat → List Record → List (Nat × Int64)
  | _, [] => []
  | off, r :: recs => (off, r.entry.term) :: layout env (off + (r.encode env).length) recs

variable {env : Env} {io : Io} {a b recs : List Record} {r : Record} {off n : Nat}

@[simp] lemma encodeAll_nil : encodeAll env [] = [] := rfl

@[simp] lemma encodeAll_cons : encodeAll env (r :: recs) = r.encode env ++ encodeAll env recs := rfl

lemma encodeAll_append : encodeAll env (a ++ b) = encodeAll env a ++ encodeAll env b := flatMap_append

lemma encodeAll_take : encodeAll env (recs.take n) <+: encodeAll env recs :=
  ⟨encodeAll env (recs.drop n), by rw [← encodeAll_append, take_append_drop]⟩

lemma layout_append : layout env off (a ++ b) = layout env off a ++ layout env (off + (encodeAll env a).length) b := by
  induction a generalizing off with
  | nil => rfl
  | cons r a ih => simp [layout, ih, add_assoc]

lemma layout_take : (layout env off recs).take n = layout env off (recs.take n) := by
  induction recs generalizing off n with
  | nil => simp [layout]
  | cons r recs ih => cases n <;> simp [layout, ih]

lemma getElem?_layout : (layout env off recs)[n]? =
    recs[n]?.map fun r => (off + (encodeAll env (recs.take n)).length, r.entry.term) := by
  induction recs generalizing off n with
  | nil => rfl
  | cons r recs ih =>
    cases n with
    | zero => simp [layout]
    | succ n => simp [layout, ih, add_assoc]

lemma length_header_encode {h : EntryHeader} {reserved : Reserved} : (h.encode env reserved).length = kEntryHeaderLength := by
  simp [EntryHeader.encode, EntryHeader.covered, kEntryHeaderLength]

lemma length_encode : (r.encode env).length = kEntryHeaderLength + r.entry.data.length := by
  simp [Record.encode, LogEntry.encode, length_header_encode]

namespace Segment

variable {d : Disk} {seg : Segment}

def path (seg : Segment) : FileName := seg.getPath seg.isOpen

structure Holds (env : Env) (d : Disk) (seg : Segment) (recs : List Record) : Prop where
  content : d.content seg.fd = encodeAll env recs
  offset : seg.offset = (encodeAll env recs).length
  bytes : seg.bytes = (encodeAll env recs).length
  lastIndex : seg.lastIndex = seg.firstIndex + recs.length - 1
  offsetAndTerm : seg.offsetAndTerm = layout env 0 recs
  indexed : ∀ (n : Nat) (r : Record), recs[n]? = some r → r.entry.index = seg.firstIndex + n

structure Lists (env : Env) (d : Disk) (seg : Segment) (recs : List Record) (tail : Bytes) : Prop where
  content : d.content seg.fd = encodeAll env recs ++ tail
  bytes : seg.bytes = (encodeAll env recs).length
  lastIndex : seg.lastIndex = seg.firstIndex + recs.length - 1
  offsetAndTerm : seg.offsetAndTerm = layout env 0 recs
  indexed : ∀ (n : Nat) (r : Record), recs[n]? = some r → r.entry.index = seg.firstIndex + n

lemma Holds.lists (h : seg.Holds env d recs) : seg.Lists env d recs [] :=
  ⟨h.content.trans (append_nil _).symm, h.bytes, h.lastIndex, h.offsetAndTerm, h.indexed⟩

lemma Holds.congr (h : seg.Holds env d recs) {d' : Disk} (hc : d'.content seg.fd = d.content seg.fd) :
    seg.Holds env d' recs := { h with content := hc.trans h.content }

lemma Holds.setIsOpen (h : seg.Holds env d recs) (o : Bool) : Holds env d { seg with isOpen := o } recs :=
  ⟨h.content, h.offset, h.bytes, h.lastIndex, h.offsetAndTerm, h.indexed⟩

variable {i k : Int} {entry : LogEntry}

lemma getTerm_of_mem {tail : Bytes} (h : seg.Lists env d recs tail) (hr : recs[(i - seg.firstIndex).toNat]? = some r)
    (hi : seg.firstIndex ≤ i) : seg.getTerm i = r.entry.term := by
  have hlen := (List.getElem?_eq_some_iff.mp hr).1
  have hlast := h.lastIndex
  have hmeta : seg.offsetAndTerm.getD (i - seg.firstIndex).toNat (0, 0) =
      ((encodeAll env (recs.take (i - seg.firstIndex).toNat)).length, r.entry.term) := by
    rw [getD_eq_getElem?_getD, h.offsetAndTerm, getElem?_layout, hr]
    simp
  unfold getTerm getMeta
  rw [if_neg (by omega), if_neg (by omega)]
  simp only [hmeta]

def created (d : Disk) (firstIndex : Int) : Segment := { opened firstIndex with fd := d.next }

lemma create_spec (hio : io.Ok) (h : d.lookup (.inprogress i) = none) :
    (opened i).create io d = (0, created d i, d.added (.inprogress i)) := by
  have hp : (opened i).getPath true = .inprogress i := rfl
  simp only [create, hio.createOk, show (opened i).isOpen = true from rfl, hp, create_eq h]
  rfl

lemma created_holds {name : FileName} : (created d i).Holds env (d.added name) [] where
  content := by simp [created, added, setContent]
  offset := rfl
  bytes := rfl
  lastIndex := by simp [created, opened]
  offsetAndTerm := rfl
  indexed := by simp

def appended (env : Env) (seg : Segment) (r : Record) : Segment :=
  { seg with
      offset := seg.offset + (r.encode env).length
      offsetAndTerm := seg.offsetAndTerm ++ [(seg.bytes, r.entry.term)]
      lastIndex := seg.lastIndex + 1
      bytes := seg.bytes + (r.encode env).length }

@[simp] lemma fd_appended : (seg.appended env r).fd = seg.fd := by simp only [appended]
@[simp] lemma firstIndex_appended : (seg.appended env r).firstIndex = seg.firstIndex := by simp [appended]

@[simp] lemma isOpen_appended : (seg.appended env r).isOpen = seg.isOpen := by simp only [appended]
@[simp] lemma lastIndex_appended : (seg.appended env r).lastIndex = seg.lastIndex + 1 := by simp [appended]

lemma append_spec (hio : io.Ok) (h : seg.Holds env d recs) (ho : seg.isOpen = true) (hi : entry.index = seg.lastIndex + 1) :
    seg.append env io d entry = (0, seg.appended env ⟨entry, io.reserved⟩,
      d.setContent seg.fd (encodeAll env (recs ++ [⟨entry, io.reserved⟩]))) := by
  have hw : d.write seg.fd seg.offset (entry.encode env io.reserved) =
      d.setContent seg.fd (encodeAll env recs ++ entry.encode env io.reserved) := by
    rw [h.offset, ← h.content, write_end]
  simp [append, ho, hi, hio.shortWrite, hw, appended, encodeAll_append, Record.encode]

lemma append_erange (ho : seg.isOpen = true) (hi : entry.index ≠ seg.lastIndex + 1) :
    seg.append env io d entry = (erange, seg, d) := by
  simp [append, ho, hi]

lemma appended_holds (h : seg.Holds env d recs) (hi : r.entry.index = seg.lastIndex + 1) :
    (seg.appended env r).Holds env (d.setContent seg.fd (encodeAll env (recs ++ [r]))) (recs ++ [r]) where
  content := by simp
  offset := by simp [appended, h.offset, encodeAll_append]
  bytes := by simp [appended, h.bytes, encodeAll_append]
  lastIndex := by
    simp only [appended, h.lastIndex, length_append, length_singleton]
    omega
  offsetAndTerm := by simp [appended, h.offsetAndTerm, h.bytes, layout_append, layout]
  indexed := by
    intro n r' hr
    have hlast := h.lastIndex
    rw [getElem?_append] at hr
    rw [firstIndex_appended]
    split at hr
    · exact h.indexed n r' hr
    · obtain ⟨hn, rfl⟩ := List.getElem?_eq_some_iff.mp hr
      simp only [length_singleton] at hn
      simp only [show n - recs.length = 0 by omega, getElem_cons_zero]
      omega

lemma close_spec (hio : io.Ok) (ho : seg.isOpen = true) {fd : Nat} (hl : d.lookup (seg.getPath true) = some fd) :
    seg.close io d = (0, { seg with isOpen := false }, d.move (seg.getPath true) (seg.getPath false) fd) := by
  simp [close, ho, hio.renameOk, rename_eq _ hl]

def removed (d : Disk) (seg : Segment) (fd : Nat) : Disk := (d.move seg.path (.tmp seg.path) fd).unlink (.tmp seg.path)

lemma unlink_spec (hio : io.Ok) {fd : Nat} (hl : d.lookup seg.path = some fd) : seg.unlink io d = (0, removed d seg fd) := by
  have hr := rename_eq (.tmp seg.path) hl
  simp only [path] at hr
  simp [unlink, hio.renameOk, hr, removed, path]

lemma lookup_removed {fd : Nat} {n : FileName} (ht : d.lookup (.tmp seg.path) = none) :
    (removed d seg fd).lookup n = if n = seg.path then none else d.lookup n := by
  rw [removed, lookup_unlink, lookup_move]
  by_cases htmp : n = .tmp seg.path
  · simp [htmp, ht]
  · simp [htmp]

def truncated (env : Env) (seg : Segment) (recs : List Record) (n : Nat) : Segment :=
  { seg with
      isOpen := true
      offset := (encodeAll env (recs.take n)).length
      offsetAndTerm := layout env 0 (recs.take n)
      lastIndex := seg.firstIndex + n - 1
      bytes := (encodeAll env (recs.take n)).length }

@[simp] lemma fd_truncated : (seg.truncated env recs n).fd = seg.fd := by simp only [truncated]
@[simp] lemma firstIndex_truncated : (seg.truncated env recs n).firstIndex = seg.firstIndex := by simp [truncated]

lemma truncated_holds (h : seg.Holds env d recs) (hn : n ≤ recs.length) :
    (seg.truncated env recs n).Holds env (d.setContent seg.fd (encodeAll env (recs.take n))) (recs.take n) where
  content := by simp
  offset := rfl
  bytes := rfl
  lastIndex := by simp [truncated, min_eq_left hn]
  offsetAndTerm := rfl
  indexed := by
    intro m r hr
    rw [getElem?_take] at hr
    rw [firstIndex_truncated]
    split at hr
    · exact h.indexed m r hr
    · cases hr

lemma truncate_nop (hk : seg.lastIndex ≤ k) : seg.truncate io d k = (0, seg, d) := if_pos hk

lemma truncate_spec (hio : io.Ok) (h : seg.Holds env d recs) (hk : seg.firstIndex - 1 ≤ k)
    (hk' : k < seg.lastIndex) {fd : Nat} (hl : d.lookup seg.path = some fd) :
    seg.truncate io d k = (0, seg.truncated env recs (k + 1 - seg.firstIndex).toNat,
      setContent (if seg.isOpen then d else d.move (seg.getPath false) (seg.getPath true) fd) seg.fd
        (encodeAll env (recs.take (k + 1 - seg.firstIndex).toNat))) := by
  have hlast := h.lastIndex
  obtain ⟨n, hn⟩ : ∃ n, (k + 1 - seg.firstIndex).toNat = n := ⟨_, rfl⟩
  rw [hn]
  have hlt : n < recs.length := by omega
  have hsize : (seg.offsetAndTerm.getD n (0, 0)).1 = (encodeAll env (recs.take n)).length := by
    rw [getD_eq_getElem?_getD, h.offsetAndTerm, getElem?_layout, getElem?_eq_getElem hlt]
    simp
  have hcut : ∀ d' : Disk, d'.content = d.content →
      d'.ftruncate seg.fd (encodeAll env (recs.take n)).length =
        d'.setContent seg.fd (encodeAll env (recs.take n)) := by
    intro d' hd
    have hc : d'.content seg.fd = encodeAll env recs := by rw [hd, h.content]
    have hpre : encodeAll env (recs.take n) <+: encodeAll env recs := encodeAll_take
    rw [ftruncate_eq (by rw [hc]; exact hpre.length_le), hc, ← prefix_iff_eq_take.mp hpre]
  have hterm : seg.offsetAndTerm.take n = layout env 0 (recs.take n) := by rw [h.offsetAndTerm, layout_take]
  have hkl : k = seg.firstIndex + n - 1 := by omega
  unfold truncate
  rw [if_neg (by omega)]
  simp only [hn, hsize, hio.renameOk, hio.ftruncateOk]
  cases ho : seg.isOpen with
  | true => simp [hcut d rfl, hterm, truncated, hkl, ho]
  | false =>
    have hr := rename_eq (seg.getPath true) (show d.lookup (seg.getPath false) = some fd by
      simpa [path, ho] using hl)
    simp [hr, hcut (d.move _ _ fd) rfl, hterm, truncated, hkl]

end Segment

end Myctk.Mraft
