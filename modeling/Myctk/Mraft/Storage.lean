import Myctk.Mraft.Segment

/-! `SegmentLogStorage` (`mraft/segment_log_storage.cpp`): a map of closed segments, one open segment, the first and last log
    index, and the caches of recent entries. -/

namespace Myctk.Mraft
open Lib

/-- `absl::btree_map<int64_t, SegmentPtr>`: the segments in the order of their first index, which is
    their key. -/
abbrev SegmentMap := List Segment

namespace SegmentMap

def insert (seg : Segment) : SegmentMap → SegmentMap
  | [] => [seg]
  | x :: l =>
    if seg.firstIndex < x.firstIndex then seg :: x :: l
    else if seg.firstIndex = x.firstIndex then seg :: l
    else x :: insert seg l

def erase (firstIndex : Int) (l : SegmentMap) : SegmentMap := l.filter fun x => x.firstIndex ≠ firstIndex

/-- The segment before `upper_bound(index)`; there is none when `upper_bound` is the first element. -/
def beforeUpperBound (index : Int) (l : SegmentMap) : Option Segment :=
  (l.takeWhile fun x => x.firstIndex ≤ index).getLast?

end SegmentMap

structure Storage where
  disk : Disk
  segments : SegmentMap
  openSegment : Option Segment
  lastLogIndex : Int
  firstLogIndex : Int
  latestEntriesCache : List LogEntry
  latestEntry : Option LogEntry

namespace Storage

/-- `SegmentLogStorage(path)` over the files that are there, with the initial values of the members. -/
def new (disk : Disk) : Storage := ⟨disk, [], none, 1, 0, [], none⟩

def saveMeta (io : Io) (s : Storage) (logIndex : Int) : Int × Storage :=
  if io.saveMetaOk then (0, { s with disk := { s.disk with logMeta := some logIndex } }) else (-1, s)

def loadMeta (io : Io) (s : Storage) : Int × Bool × Storage :=
  match s.disk.logMeta with
  | none => (0, true, s)
  | some first => if io.loadMetaOk then (0, false, { s with firstLogIndex := first }) else (-1, false, s)

/-- What `ListSegments` does with one name of the directory; `none` on a second open segment. -/
def listName (isEmpty : Bool) (s : Storage) (name : FileName) : Option Storage :=
  match isEmpty, name with
  | _, .tmp _ => some { s with disk := s.disk.unlink name }
  | true, _ => some { s with disk := s.disk.unlink name }
  | false, .inprogress first =>
    if s.openSegment.isSome then none else some { s with openSegment := some (.opened first) }
  | false, .closed first last => some { s with segments := s.segments.insert (.closed first last) }

def listSegments (isEmpty : Bool) : List FileName → Storage → Int × Storage
  | [], s => (0, s)
  | name :: names, s =>
    match s.listName isEmpty name with
    | none => (-1, s)
    | some s => listSegments isEmpty names s

/-- The loop of `LoadSegments` over the closed segments: the code, the segments, the files and the last
    index. -/
def loadClosed (env : Env) (io : Io) : List Segment → Disk → Int → Int × SegmentMap × Disk × Int
  | [], d, last => (0, [], d, last)
  | seg :: l, d, last =>
    let (rc, seg, d) := seg.load env io d
    if rc ≠ 0 then (rc, seg :: l, d, last)
    else
      let (rc, l, d, last) := loadClosed env io l d seg.lastIndex
      (rc, seg :: l, d, last)

/-- `LoadSegments` on the open segment. -/
def loadOpen (env : Env) (io : Io) (s : Storage) : Int × Storage :=
  match s.openSegment with
  | none => (0, s)
  | some seg =>
    let (rc, seg, disk) := seg.load env io s.disk
    let s := { s with disk, openSegment := some seg }
    if rc ≠ 0 then (rc, s)
    else if s.firstLogIndex > seg.lastIndex then
      (0, { s with openSegment := none, disk := (seg.unlink io s.disk).2 })
    else (0, { s with lastLogIndex := seg.lastIndex })

def loadSegments (env : Env) (io : Io) (s : Storage) : Int × Storage :=
  let (rc, segments, disk, lastLogIndex) := loadClosed env io s.segments s.disk s.lastLogIndex
  let s := { s with segments, disk, lastLogIndex }
  if rc ≠ 0 then (rc, s)
  else
    let (rc, s) := s.loadOpen env io
    if rc ≠ 0 then (rc, s)
    else if s.lastLogIndex = 0 then (0, { s with lastLogIndex := s.firstLogIndex - 1 })
    else (0, s)

def init (env : Env) (io : Io) (s : Storage) : Int × Storage :=
  if env.raftMaxSegmentSize < 0 then (-1, s)
  else
    let (rc, isEmpty, s) := s.loadMeta io
    if rc ≠ 0 then (-1, s)
    else
      let (rc, s) := s.listSegments isEmpty s.disk.dir.keys
      if rc ≠ 0 then (-1, s)
      else if isEmpty then { s with firstLogIndex := 1, lastLogIndex := 0 }.saveMeta io 1
      else
        let (rc, s) := s.loadSegments env io
        if rc ≠ 0 then (-1, s) else (0, s)

def getSegment (s : Storage) (index : Int) : Option Segment :=
  if s.firstLogIndex = s.lastLogIndex + 1 then none
  else if index < s.firstLogIndex ∨ index > s.lastLogIndex + 1 then none
  else if index = s.lastLogIndex + 1 then none
  else
    match s.openSegment with
    | some seg => if index ≥ seg.firstIndex then some seg else s.segments.beforeUpperBound index
    | none => s.segments.beforeUpperBound index

def getTerm (s : Storage) (index : Int) : Int64 :=
  match s.getSegment index with
  | none => 0
  | some seg => seg.getTerm index

/-- The lookup in `latest_entries_cache_`. -/
def cachedEntry (cache : List LogEntry) (index : Int) : Option LogEntry :=
  match cache.head?, cache.getLast? with
  | some first, some last =>
    if index ≥ first.index ∧ index ≤ last.index then cache[(index - first.index).toNat]? else none
  | _, _ => none

def getEntry (env : Env) (s : Storage) (index : Int) : Option LogEntry :=
  match s.latestEntry.filter fun e => e.index = index with
  | some e => some e
  | none =>
    match cachedEntry s.latestEntriesCache index with
    | some e => some e
    | none => (s.getSegment index).bind fun seg => seg.get env s.disk index

def getOpenSegment (env : Env) (io : Io) (s : Storage) : Option Segment × Storage :=
  let prevOpenSegment := s.openSegment.filter fun seg => (seg.bytes : Int) > env.raftMaxSegmentSize
  let s :=
    match prevOpenSegment with
    | none => s
    | some seg => { s with segments := s.segments.insert seg, openSegment := none }
  let s :=
    match s.openSegment with
    | some _ => s
    | none =>
      let (rc, seg, disk) := (Segment.opened (s.lastLogIndex + 1)).create io s.disk
      { s with openSegment := if rc ≠ 0 then none else some seg, disk }
  match prevOpenSegment with
  | none => (s.openSegment, s)
  | some prev =>
    let (rc, prev, disk) := prev.close io s.disk
    if rc ≠ 0 then
      -- Failed, revert former changes
      (none, { s with segments := s.segments.erase prev.firstIndex, openSegment := some prev, disk })
    else (s.openSegment, { s with segments := s.segments.insert prev, disk })

def appendEntry (env : Env) (io : Io) (s : Storage) (entry : LogEntry) : Int × Storage :=
  match s.getOpenSegment env io with
  | (none, s) => (eio, s)
  | (some segment, s) =>
    let (ret, segment, disk) := segment.append env io s.disk entry
    let s := { s with openSegment := some segment, disk }
    if ret ≠ 0 then (ret, s)
    else
      (0, { s with
              latestEntriesCache := s.latestEntriesCache ++ [entry]
              latestEntry := some entry
              lastLogIndex := s.lastLogIndex + 1 })

/-- The loop of `PopSegments` over a map of `n` segments with `it` at `pos`: the segments it erases, those that stay, and
    whether it came to the end of the map. After `segments_.erase(it++)` the iterator is invalid. -/
def popLoop (io : Io) (firstIndexKept : Int) : Nat → SegmentMap → Nat → Option (List Segment × SegmentMap × Bool)
  | 0, segments, _ => some ([], segments, true)
  | n + 1, segments, pos =>
    match segments[pos]? with
    | none => some ([], segments, true)
    | some seg =>
      if seg.lastIndex < firstIndexKept then
        (io.stale n).bind fun it =>
          (popLoop io firstIndexKept n (segments.eraseIdx pos) it).map fun (popped, rest) => (seg :: popped, rest)
      else some ([], segments, false)

/-- `PopSegments`; `none` when its loop reads freed memory. -/
def popSegments (io : Io) (s : Storage) (firstIndexKept : Int) : Option (List Segment × Storage) :=
  (popLoop io firstIndexKept s.segments.length s.segments 0).map fun (popped, segments, atEnd) =>
    let s := { s with firstLogIndex := firstIndexKept, segments }
    if !atEnd then (popped, s)
    else
      match s.openSegment with
      | some seg =>
        if seg.lastIndex < firstIndexKept then
          (popped ++ [seg], { s with openSegment := none, lastLogIndex := firstIndexKept - 1 })
        else (popped, s)
      | none => (popped, { s with lastLogIndex := firstIndexKept - 1 })

def unlinkAll (io : Io) (d : Disk) (popped : List Segment) : Disk := popped.foldl (fun d seg => (seg.unlink io d).2) d

/-- A pass of the loop at the end of `TruncatePrefix`. -/
def popFrontPass (firstIndexKept : Int) : List LogEntry → List LogEntry ⊕ List LogEntry
  | [] => .inr []
  | e :: cache => if e.index < firstIndexKept then .inl cache else .inl (e :: cache)

def truncatePrefix (io : Io) (fuel : Nat) (s : Storage) (firstIndexKept : Int) : Option (Int × Storage) :=
  if s.firstLogIndex ≥ firstIndexKept then some (0, s)
  else
    match s.saveMeta io firstIndexKept with
    | (rc, s) =>
      if rc ≠ 0 then some (-1, s)
      else
        (s.popSegments io firstIndexKept).bind fun (popped, s) =>
          let s := { s with disk := unlinkAll io s.disk popped }
          (loop (popFrontPass firstIndexKept) fuel s.latestEntriesCache).map fun cache =>
            (0, { s with latestEntriesCache := cache })

/-- `PopSegmentsFromBack`: the segments dropped from the tail, last first, the segment that is then the
    last one, and the state without the dropped ones. -/
def popSegmentsFromBack (s : Storage) (lastIndexKept : Int) : List Segment × Option Segment × Storage :=
  let s := { s with lastLogIndex := lastIndexKept }
  match s.openSegment.filter fun seg => seg.firstIndex ≤ lastIndexKept with
  | some seg => ([], some seg, s)
  | none =>
    let closedPopped := s.segments.reverse.takeWhile fun seg => seg.firstIndex > lastIndexKept
    let popped := s.openSegment.toList ++ closedPopped
    let segments := popped.foldl (fun l seg => SegmentMap.erase seg.firstIndex l) s.segments
    let s := { s with openSegment := none, segments }
    match segments.getLast? with
    | some seg => (popped, some seg, s)
    | none => (popped, none, { s with firstLogIndex := lastIndexKept + 1 })

def unlinkUntil (io : Io) : List Segment → Int → Disk → Int × Disk
  | [], ret, d => (ret, d)
  | seg :: popped, _, d =>
    let (ret, d) := seg.unlink io d
    if ret ≠ 0 then (ret, d) else unlinkUntil io popped ret d

/-- A pass of the loop at the end of `TruncateSuffix`. -/
def popBackPass (lastIndexKept : Int) (cache : List LogEntry) : List LogEntry ⊕ List LogEntry :=
  match cache.getLast? with
  | none => .inr []
  | some e => if e.index > lastIndexKept then .inl cache.dropLast else .inl cache

def setSegment (s : Storage) (seg : Segment) : Storage :=
  match s.openSegment with
  | some _ => { s with openSegment := some seg }
  | none => { s with segments := s.segments.insert seg }

/-- `TruncateSuffix` on the last segment that stays: a closed one that is cut becomes the open one. -/
def truncateLast (io : Io) (s : Storage) (seg : Segment) (lastIndexKept : Int) : Int × Storage :=
  let closed := !seg.isOpen
  let (ret, seg, disk) := seg.truncate io s.disk lastIndexKept
  let s := { s with disk }
  if ret = 0 ∧ closed ∧ seg.isOpen then
    (ret, { s with segments := s.segments.erase seg.firstIndex, openSegment := some seg })
  else (ret, s.setSegment seg)

def truncateSuffix (io : Io) (fuel : Nat) (s : Storage) (lastIndexKept : Int) : Option (Int × Storage) :=
  let (popped, lastSegment, s) := s.popSegmentsFromBack lastIndexKept
  let truncateLastSegment := lastSegment.isSome ∧ s.firstLogIndex ≤ s.lastLogIndex
  let (popped, s) :=
    match lastSegment with
    | none => (popped, s)
    | some seg =>
      if s.firstLogIndex ≤ s.lastLogIndex then (popped, s)
      else
        -- `TruncatePrefix` and `TruncateSuffix` together discard the entire log
        (popped ++ [seg], { s with segments := s.segments.erase seg.firstIndex, openSegment := none })
  let (ret, disk) := unlinkUntil io popped (-1) s.disk
  let s := { s with disk }
  if popped ≠ [] ∧ ret ≠ 0 then some (ret, s)
  else
    let (ret, s) :=
      match lastSegment with
      | none => (ret, s)
      | some seg => if truncateLastSegment then s.truncateLast io seg lastIndexKept else (ret, s)
    (loop (popBackPass lastIndexKept) fuel s.latestEntriesCache).map fun cache =>
      (ret, { s with latestEntriesCache := cache })

def clearCacheEntry (s : Storage) (index : Int) : Int × Storage :=
  match s.latestEntriesCache with
  | [] => (-1, s)
  | e :: cache => if e.index ≠ index then (-1, s) else (0, { s with latestEntriesCache := cache })

end Storage

inductive Call where
  | appendEntry (entry : LogEntry)
  | truncatePrefix (firstIndexKept : Int)
  | truncateSuffix (lastIndexKept : Int)
  | clearCacheEntry (index : Int)

/-- A call, with `fuel` passes for its loops. -/
def Storage.exec (env : Env) (io : Io) (fuel : Nat) (s : Storage) : Call → Option (Int × Storage)
  | .appendEntry entry => some (s.appendEntry env io entry)
  | .truncatePrefix k => s.truncatePrefix io fuel k
  | .truncateSuffix k => s.truncateSuffix io fuel k
  | .clearCacheEntry i => some (s.clearCacheEntry i)

def Storage.Returns (env : Env) (s : Storage) (c : Call) (rc : Int) (t : Storage) : Prop :=
  ∃ io : Io, io.Ok ∧ ∃ fuel, s.exec env io fuel c = some (rc, t)

end Myctk.Mraft
