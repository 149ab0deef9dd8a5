import Myctk.Mraft.SegmentLoad

/-! One segment over its life: entries are appended to it, perhaps not to their end, it is closed, and its file is loaded again. -/

namespace Myctk.Mraft
open Lib List Disk Record Option

variable {env : Env} {io : Io} {recs : List Record} {r : Record} {i : Int} {k : Nat}

def Record.at (i : Int) (r : Record) : Record := ⟨{ r.entry with index := i }, r.reserved⟩

def numbered : Int → List Record → List Record
  | _, [] => []
  | i, r :: recs => r.at i :: numbered (i + 1) recs

lemma map_encode_numbered (env : Env) (i : Int) (recs : List Record) :
    (numbered i recs).map (·.encode env) = recs.map (·.encode env) := by
  induction recs generalizing i with
  | nil => rfl
  | cons r recs ih =>
    rw [numbered, map_cons, ih, map_cons]
    rfl

lemma getElem?_numbered (i : Int) (recs : List Record) (k : Nat) : (numbered i recs)[k]? = recs[k]?.map (·.at (i + k)) := by
  induction recs generalizing i k with
  | nil => rfl
  | cons r recs ih =>
    cases k with
    | zero => simp [numbered]
    | succ k =>
      rw [numbered, getElem?_cons_succ, ih, getElem?_cons_succ, Nat.cast_succ, Int.add_assoc, Int.add_comm 1]

lemma exists_cut (env : Env) (recs : List Record) (n : Nat) : ∃ (m : Nat) (tail : Bytes),
    (encodeAll env recs).take n = encodeAll env (recs.take m) ++ tail ∧ Torn env tail ∧
      ∀ k, k < m ↔ k < recs.length ∧ (encodeAll env (recs.take (k + 1))).length ≤ n := by
  induction recs generalizing n with
  | nil => exact ⟨0, [], take_nil, torn_nil, fun k => by simp⟩
  | cons r recs ih =>
    by_cases whole : (r.encode env).length ≤ n
    · obtain ⟨m, tail, bytes, torn, inside⟩ := ih (n - (r.encode env).length)
      refine ⟨m + 1, tail, ?_, torn, fun k => ?_⟩
      · rw [encodeAll_cons, take_append, take_of_length_le whole, bytes, take_succ_cons, encodeAll_cons, append_assoc]
      · cases k with
        | zero => simp [whole]
        | succ k =>
          have next := inside k
          simp only [take_succ_cons, encodeAll_cons, length_append, length_cons] at next ⊢
          omega
    · refine ⟨0, (r.encode env).take n, ?_, torn_take env r (by omega), fun k => ?_⟩
      · rw [encodeAll_cons, take_append_of_le_length (by omega)]
        rfl
      · simp only [take_succ_cons, encodeAll_cons, length_append]
        omega

namespace Segment

variable {d : Disk} {seg : Segment} {first : Int} {fd : Nat} {tail : Bytes}

lemma Lists.reads (held : seg.Lists env d recs tail) (stored : recs[k]? = some r) :
    seg.getTerm (seg.firstIndex + k) = r.entry.term ∧ seg.get env d (seg.firstIndex + k) = some r.entry := by
  have offset : (seg.firstIndex + k - seg.firstIndex).toNat = k := by omega
  have inside : seg.firstIndex ≤ seg.firstIndex + k := Int.le_add_of_nonneg_right (Int.natCast_nonneg k)
  exact ⟨getTerm_of_mem held (by rw [offset, stored]) inside, get_of_mem held (by rw [offset, stored]) inside⟩

lemma loaded_holds (env : Env) (first : Int) (fd : Nat) (recs : List Record) (d : Disk) :
    ((opened first).loaded fd (recs.map (·.encode env))).Holds env (d.setContent fd (encodeAll env recs)) (numbered first recs) := by
  have bytes : encodeAll env (numbered first recs) = encodeAll env recs := by
    rw [encodeAll_eq_flatten, map_encode_numbered, encodeAll_eq_flatten]
  have length : (numbered first recs).length = recs.length := by
    rw [← length_map (·.encode env), map_encode_numbered, length_map]
  refine ⟨?_, ?_, ?_, ?_, ?_, fun n r there => ?_⟩
  · rw [bytes]
    exact content_setContent
  · rw [bytes, encodeAll_eq_flatten]
    rfl
  · rw [bytes, encodeAll_eq_flatten]
    rfl
  · show first - 1 + ((recs.map _).length : Int) = first + (numbered first recs).length - 1
    rw [length, length_map]
    omega
  · rw [← frameTable_encode, map_encode_numbered]
    rfl
  · rw [getElem?_numbered] at there
    obtain ⟨r, -, rfl⟩ := map_eq_some_iff.mp there
    rfl

/-- The file of an open segment that was cut off at any byte is loaded: the entries that are complete are there, under the indices
    that they had, and the file ends with the last of them. -/
theorem load_cut (env : Env) (ok : io.Ok) (recs : List Record) (n : Nat) (there : d.lookup (.inprogress first) = some fd)
    (cut : d.content fd = (encodeAll env recs).take n) :
    ∃ m seg, (∀ k, k < m ↔ k < recs.length ∧ (encodeAll env (recs.take (k + 1))).length ≤ n) ∧
      (opened first).load env io d = (0, seg, d.setContent fd (encodeAll env (recs.take m))) ∧
      seg.firstIndex = first ∧ seg.lastIndex = first + m - 1 ∧
      ∀ (k : Nat) (r : Record), k < m → recs[k]? = some r →
        seg.getTerm (first + k) = r.entry.term ∧
        seg.get env (d.setContent fd (encodeAll env (recs.take m))) (first + k) = some { r.entry with index := first + k } := by
  obtain ⟨m, tail, bytes, torn, inside⟩ := exists_cut env recs n
  have all : (recs.take m).length = m := by
    rw [length_take]
    refine Nat.min_eq_left (Nat.le_of_not_lt fun beyond => ?_)
    exact absurd ((inside recs.length).mp beyond).1 (lt_irrefl _)
  rw [encodeAll_eq_flatten env (recs.take m)] at bytes
  have loads := load_of_torn (opened first) there rfl (cut.trans bytes) (framed_encode env _) torn (.inr ok.ftruncateOk)
  have held := loaded_holds env first fd (recs.take m) d
  rw [← encodeAll_eq_flatten] at loads
  refine ⟨m, _, inside, loads, rfl, ?_, fun k r before known => ?_⟩
  · show first - 1 + (((recs.take m).map _).length : Int) = first + m - 1
    rw [length_map, all]
    omega
  · have stored : (numbered first (recs.take m))[k]? = some (r.at (first + k)) := by
      rw [getElem?_numbered, getElem?_take_of_lt before, known]
      rfl
    exact held.lists.reads stored

/-! Entries without data, and a checksum that is always 0. -/

def plainEnv : Env := ⟨fun _ => 0, 10⟩

def plainIo : Io := ⟨none, true, true, true, true, true, (0, 0, 0), fun _ => none⟩

lemma plainIo_ok : plainIo.Ok := ⟨rfl, rfl, rfl, rfl, rfl, rfl⟩

def plainRecord (index : Int) (term : Int64) : Record := ⟨⟨index, term, 0, [], by decide⟩, (0, 0, 0)⟩

def cutDisk : Disk :=
  (added .empty (.inprogress 1)).setContent 0 ((encodeAll plainEnv [plainRecord 1 7, plainRecord 2 8]).take 30)

theorem load_cut_second : ∃ seg d', (opened 1).load plainEnv plainIo cutDisk = (0, seg, d') ∧ seg.lastIndex = 1 ∧
    d'.content 0 = encodeAll plainEnv [plainRecord 1 7] ∧ seg.get plainEnv d' 1 = some (plainRecord 1 7).entry := by
  obtain ⟨m, seg, inside, loads, -, last, read⟩ := load_cut plainEnv plainIo_ok
    [plainRecord 1 7, plainRecord 2 8] 30 (show cutDisk.lookup (.inprogress 1) = some 0 by decide) content_setContent
  have first := (inside 0).mpr (by decide)
  have second : ¬ 1 < m := fun beyond => absurd ((inside 1).mp beyond).2 (by decide)
  obtain rfl : m = 1 := by omega
  exact ⟨seg, _, loads, last, content_setContent, (read 0 _ first rfl).2⟩

/-! ### Closed segments

    The name of the file says how many entries it has, but `Load` does not compare. -/

/-- `Load` accepts no closed segment with another number of entries than its name says, exactly if the file is not made of another
    number of frames, with perhaps the start of one more. -/
theorem load_closed_iff (env : Env) {last : Int} (ok : io.Ok) (there : d.lookup (.closed first last) = some fd) :
    (∀ seg d', (closed first last).load env io d = (0, seg, d') → (seg.offsetAndTerm.length : Int) = last - first + 1) ↔
      ∀ (frames : List Bytes) (tail : Bytes), d.content fd = frames.flatten ++ tail → (∀ f ∈ frames, IsFrame env f) → Torn env tail →
        (frames.length : Int) = last - first + 1 := by
  constructor
  · intro counted frames tail bytes framed torn
    have loads := load_of_torn (closed first last) there rfl bytes framed torn (.inr ok.ftruncateOk)
    have count := counted _ _ loads
    rwa [loaded, length_frameTable] at count
  · intro framing seg d' loads
    obtain ⟨frames, tail, bytes, framed, torn | damaged⟩ := exists_frames env (d.content fd)
    · rw [load_of_torn (closed first last) there rfl bytes framed torn (.inr ok.ftruncateOk)] at loads
      cases loads
      rw [loaded, length_frameTable]
      exact framing frames tail bytes framed torn
    · have failed := load_of_damaged io (closed first last) there rfl bytes framed damaged
      rw [loads] at failed
      cases failed

theorem empty_file_loaded : ∃ seg d', (closed 1 2).load plainEnv plainIo (added .empty (.closed 1 2)) = (0, seg, d') ∧
    seg.offsetAndTerm = [] ∧ seg.lastIndex = 2 :=
  ⟨_, _, rfl, rfl, rfl⟩

def oneRecordDisk : Disk := (added .empty (.closed 1 1)).setContent 0 (encodeAll plainEnv [plainRecord 1 7])

theorem load_closed_iff_one : oneRecordDisk.lookup (.closed 1 1) = some 0 ∧
    ∀ (frames : List Bytes) (tail : Bytes), encodeAll plainEnv [plainRecord 1 7] = frames.flatten ++ tail →
      (∀ f ∈ frames, IsFrame plainEnv f) → Torn plainEnv tail → (frames.length : Int) = 1 := by
  have there : oneRecordDisk.lookup (.closed 1 1) = some 0 := by decide
  refine ⟨there, (load_closed_iff plainEnv plainIo_ok there).mp fun seg d' loads => ?_⟩
  have count := congrArg (fun result => (result.2.1.offsetAndTerm.length : Int)) loads
  exact count.symm.trans (by decide)

def appendAll (env : Env) : List (Io × LogEntry) → Segment → Disk → List LogEntry × Segment × Disk
  | [], seg, d => ([], seg, d)
  | (io, entry) :: calls, seg, d =>
    let (rc, seg, d) := seg.append env io d entry
    let (entries, seg, d) := appendAll env calls seg d
    (if rc = 0 then entry :: entries else entries, seg, d)

lemma create_holds (env : Env) (ok : io.Ok) (d : Disk) (first : Int) : ∃ seg d', (opened first).create io d = (0, seg, d') ∧
    seg.Holds env d' [] ∧ seg.isOpen = true ∧ seg.firstIndex = first ∧ d'.lookup (.inprogress first) = some seg.fd := by
  cases found : d.lookup (.inprogress first) with
  | none => exact ⟨_, _, create_spec ok found, created_holds, rfl, rfl, by rw [lookup_added, if_pos rfl]; rfl⟩
  | some fd =>
    have emptied : (opened first).create io d = (0, { opened first with fd }, d.setContent fd []) := by
      have path : (opened first).getPath true = .inprogress first := rfl
      simp only [create, ok.createOk, show (opened first).isOpen = true from rfl, path, Disk.create, found]
      rfl
    refine ⟨_, _, emptied, ⟨content_setContent, rfl, rfl, ?_, rfl, fun n r none => ?_⟩, rfl, rfl, found⟩
    · show first - 1 = first + 0 - 1
      omega
    · cases none

lemma appendAll_ok {calls : List (Io × LogEntry)} (ok : ∀ c ∈ calls, c.1.Ok) (held : seg.Holds env d recs) (isOpen : seg.isOpen = true)
    (follow : ∀ (k : Nat) (c : Io × LogEntry), calls[k]? = some c → c.2.index = seg.lastIndex + 1 + k) :
    ∃ seg' d', appendAll env calls seg d = (calls.map Prod.snd, seg', d') ∧
      seg'.Holds env d' (recs ++ calls.map fun c => ⟨c.2, c.1.reserved⟩) ∧ seg'.isOpen = true ∧ seg'.firstIndex = seg.firstIndex ∧
      seg'.fd = seg.fd ∧ ∀ name, d'.lookup name = d.lookup name := by
  induction calls generalizing seg d recs with
  | nil => exact ⟨seg, d, rfl, by rwa [map_nil, append_nil], isOpen, rfl, rfl, fun _ => rfl⟩
  | cons c calls ih =>
    obtain ⟨io, entry⟩ := c
    obtain ⟨ok0, ok⟩ := forall_mem_cons.mp ok
    have next : entry.index = seg.lastIndex + 1 := by
      have := follow 0 (io, entry) rfl
      simpa using this
    have appends := append_spec ok0 held isOpen next
    have held' := appended_holds held (r := ⟨entry, io.reserved⟩) next
    obtain ⟨seg', d', all, keeps, isOpen', first, fd, names⟩ := ih ok held' (by rw [isOpen_appended]; exact isOpen) fun k c there => by
      have := follow (k + 1) c there
      rw [lastIndex_appended]
      push_cast at this
      omega
    refine ⟨seg', d', ?_, ?_, isOpen', first.trans firstIndex_appended, fd.trans fd_appended, names⟩
    · rw [appendAll]
      simp only [appends, all]
      rfl
    · rwa [append_assoc] at keeps

lemma close_holds (ok : io.Ok) (held : seg.Holds env d recs) (isOpen : seg.isOpen = true) (there : d.lookup seg.path = some seg.fd) :
    ∃ seg' d', seg.close io d = (0, seg', d') ∧ seg'.Holds env d' recs ∧ seg'.isOpen = false ∧ seg'.firstIndex = seg.firstIndex ∧
      seg'.lastIndex = seg.lastIndex ∧ d'.lookup seg'.path = some seg'.fd := by
  rw [path, isOpen] at there
  refine ⟨_, _, close_spec ok isOpen there, (held.setIsOpen false).congr rfl, rfl, rfl, rfl, ?_⟩
  rw [lookup_move]
  exact if_pos rfl

def dataEntry : LogEntry := ⟨1, 7, 2, [1], by decide⟩

def Stops (env : Env) (c : Io × LogEntry) : Prop := ∀ n, c.1.shortWrite = some n → n < (c.2.encode env c.1.reserved).length

def EachAtEnd (env : Env) : List (Io × LogEntry) → Segment → Disk → Prop
  | [], _, _ => True
  | (io, entry) :: calls, seg, d =>
    seg.offset = seg.bytes ∧ EachAtEnd env calls (seg.append env io d entry).2.1 (seg.append env io d entry).2.2

structure Keeps (env : Env) (d : Disk) (seg : Segment) (recs : List Record) (tail : Bytes) : Prop extends Lists env d seg recs tail where
  torn : Torn env tail
  ended : seg.offset = seg.bytes → tail = []
  isOpen : seg.isOpen = true

lemma Keeps.holds (keeps : seg.Keeps env d recs tail) (atEnd : seg.offset = seg.bytes) : seg.Holds env d recs :=
  ⟨by rw [keeps.content, keeps.ended atEnd, append_nil], atEnd.trans keeps.bytes, keeps.bytes, keeps.lastIndex,
    keeps.offsetAndTerm, keeps.indexed⟩

lemma Holds.keeps (held : seg.Holds env d recs) (isOpen : seg.isOpen = true) : seg.Keeps env d recs [] :=
  ⟨held.lists, torn_nil, fun _ => rfl, isOpen⟩

lemma Keeps.append {entry : LogEntry} (keeps : seg.Keeps env d recs tail) (stops : Stops env (io, entry))
    (atEnd : seg.offset = seg.bytes) : ∃ rc seg' d', seg.append env io d entry = (rc, seg', d') ∧
      seg'.firstIndex = seg.firstIndex ∧ seg'.fd = seg.fd ∧ (∀ name, d'.lookup name = d.lookup name) ∧
      ((rc = 0 ∧ ∃ r : Record, r.entry = entry ∧ seg'.Keeps env d' (recs ++ [r]) []) ∨
        (rc ≠ 0 ∧ ∃ tail', seg'.Keeps env d' recs tail')) := by
  have held := keeps.holds atEnd
  by_cases next : entry.index = seg.lastIndex + 1
  · cases write : io.shortWrite with
    | none =>
      have appends : seg.append env io d entry = (0, seg.appended env ⟨entry, io.reserved⟩,
          d.write seg.fd seg.offset (entry.encode env io.reserved)) := by
        simp [Segment.append, keeps.isOpen, next, write, appended, encode]
      have wrote : d.write seg.fd seg.offset (entry.encode env io.reserved) =
          d.setContent seg.fd (encodeAll env (recs ++ [⟨entry, io.reserved⟩])) := by
        rw [held.offset, ← held.content, write_end, held.content, encodeAll_append]
        simp [encode]
      rw [wrote] at appends
      exact ⟨_, _, _, appends, firstIndex_appended, fd_appended, fun _ => rfl, .inl ⟨rfl, ⟨entry, io.reserved⟩, rfl,
        (appended_holds held (r := ⟨entry, io.reserved⟩) next).keeps (isOpen_appended.trans keeps.isOpen)⟩⟩
    | some n =>
      have short := stops n write
      have fails : seg.append env io d entry = (eio, { seg with offset := seg.offset + n },
          d.setContent seg.fd (encodeAll env recs ++ (entry.encode env io.reserved).take n)) := by
        rw [← held.content, ← write_end, held.content, ← held.offset]
        simp [Segment.append, keeps.isOpen, next, write]
      refine ⟨_, _, _, fails, rfl, rfl, fun _ => rfl, .inr ⟨by decide, (entry.encode env io.reserved).take n, ?_⟩⟩
      refine ⟨⟨content_setContent, keeps.bytes, keeps.lastIndex, keeps.offsetAndTerm, keeps.indexed⟩,
        torn_take env ⟨entry, io.reserved⟩ short, fun same => ?_, keeps.isOpen⟩
      have none : n = 0 := by
        change seg.offset + n = seg.bytes at same
        omega
      rw [none, take_zero]
  · exact ⟨_, _, _, append_erange keeps.isOpen next, rfl, rfl, fun _ => rfl, .inr ⟨by decide, tail, keeps⟩⟩

lemma Keeps.appendAll {calls : List (Io × LogEntry)} (keeps : seg.Keeps env d recs tail) (stops : ∀ c ∈ calls, Stops env c)
    (atEnd : EachAtEnd env calls seg d) : ∃ entries seg' d' recs' tail', appendAll env calls seg d = (entries, seg', d') ∧
      recs'.map entry = entries ∧ seg'.Keeps env d' (recs ++ recs') tail' ∧ seg'.firstIndex = seg.firstIndex ∧
      seg'.fd = seg.fd ∧ ∀ name, d'.lookup name = d.lookup name := by
  induction calls generalizing seg d recs tail with
  | nil => exact ⟨[], seg, d, [], tail, rfl, rfl, (append_nil recs).symm ▸ keeps, rfl, rfl, fun _ => rfl⟩
  | cons c calls ih =>
    obtain ⟨io, entry⟩ := c
    obtain ⟨stops0, others⟩ := forall_mem_cons.mp stops
    obtain ⟨here, later⟩ := atEnd
    obtain ⟨rc, seg1, d₁, appends, first1, fd1, names1, outcome⟩ := keeps.append stops0 here
    rw [appends] at later
    rcases outcome with ⟨rfl, r, rfl, keeps1⟩ | ⟨failed, tail1, keeps1⟩
    · obtain ⟨entries, seg', d', recs', tail', all, same, keeps', first, fd, names⟩ := ih keeps1 others later
      refine ⟨r.entry :: entries, seg', d', r :: recs', tail', ?_, congrArg _ same, ?_, first.trans first1, fd.trans fd1,
        fun name => (names name).trans (names1 name)⟩
      · rw [appendAll]
        simp only [appends, all, if_true]
      · rwa [append_assoc] at keeps'
    · obtain ⟨entries, seg', d', recs', tail', all, same, keeps', first, fd, names⟩ := ih keeps1 others later
      refine ⟨entries, seg', d', recs', tail', ?_, same, keeps', first.trans first1, fd.trans fd1,
        fun name => (names name).trans (names1 name)⟩
      rw [appendAll]
      simp only [appends, all, if_neg failed]

lemma numbered_of_indexed (indexed : ∀ (n : Nat) (r : Record), recs[n]? = some r → r.entry.index = first + n) :
    numbered first recs = recs := by
  refine ext_getElem? fun k => ?_
  rw [getElem?_numbered]
  cases there : recs[k]? with
  | none => rfl
  | some r =>
    rw [map_some, Record.at, ← indexed k r there]

def headerOnly : Io := { plainIo with shortWrite := some 24 }

end Segment

end Myctk.Mraft
