import Mathlib.Data.List.ReduceOption
import Myctk.Lib.Pool
import Myctk.Robims.Field

/-! The bitmaps in memory: those of the fields and tables, and those that a query takes from the pool of `robims_cache.cpp`. -/

namespace Myctk.Robims
open Lib.Assoc Function

abbrev Mem := Nat → Bitmap

/-- The memory with the pool of bitmaps: `acquire_bitmap` is `acquire` and `release_bitmap` is `release`. -/
abbrev Heap := Lib.Pool Bitmap

def peek (mem : Mem) : Option Nat → Bitmap
  | some a => mem a
  | none => ∅

section
variable (dst : Nat) (src : Option Nat) (mem : Mem)

def overwrite : Mem := update mem dst (peek mem src)

def andInplace : Mem := update mem dst (mem dst ∩ peek mem src)

def orInplace : Mem := update mem dst (mem dst ∪ peek mem src)

def andnotInplace : Mem := update mem dst (mem dst \ peek mem src)

def xorInplace : Mem := update mem dst (symmDiff (mem dst) (peek mem src))

end

structure BsiAt where
  options : BsiOptions
  bitDepth : Nat
  bitmaps : List (Option Nat)

namespace BsiAt

variable (b : BsiAt)

def load (mem : Mem) : BitSliceIndex := ⟨b.options, b.bitDepth, b.bitmaps.map (Option.map mem)⟩

def bitmap (i : Nat) : Option Nat := b.bitmaps.getD i none

def exist : Option Nat := b.bitmap 0

def row (i : Nat) : Option Nat := b.bitmap (i + 1)

def restrict (out : Nat) (mem : Mem) : Mem := if mem out = ∅ then overwrite out b.exist mem else andInplace out b.exist mem

def rangeEQLoop (expect out : Nat) : Nat → Mem → Mem
  | 0, mem => mem
  | i + 1, mem =>
    rangeEQLoop expect out i (if expect.testBit i then andInplace out (b.row i) mem else andnotInplace out (b.row i) mem)

def doRangeEQ (expect out : Nat) (mem : Mem) : Mem := b.rangeEQLoop expect out b.bitDepth (b.restrict out mem)

def doRangeNEQ (expect out : Nat) (h : Heap) : Heap :=
  let h := h.onMem (overwrite out b.exist)
  let (eq, h) := h.acquire
  let h := h.onMem fun mem => andnotInplace out (some eq) (b.doRangeEQ expect eq mem)
  h.release eq

def rangeLTLoop (expect : Nat) (allowEq : Bool) (filter keep tmp : Nat) : Nat → Bool → Mem → Mem
  | 0, _, mem => mem
  | i + 1, leadingZero, mem =>
    if leadingZero ∧ ¬ expect.testBit i then
      rangeLTLoop expect allowEq filter keep tmp i true (andnotInplace filter (b.row i) mem)
    else if i = 0 ∧ ¬ allowEq then
      if ¬ expect.testBit i then overwrite filter (some keep) mem
      else andnotInplace filter (some keep) (andnotInplace keep (b.row i) (xorInplace keep (b.row i) mem))
    else if ¬ expect.testBit i then
      rangeLTLoop expect allowEq filter keep tmp i false
        (andnotInplace filter (some tmp) (andnotInplace tmp (some keep) (overwrite tmp (b.row i) mem)))
    else if 0 < i then
      rangeLTLoop expect allowEq filter keep tmp i false
        (orInplace keep (some tmp) (andnotInplace tmp (b.row i) (overwrite tmp (some filter) mem)))
    else rangeLTLoop expect allowEq filter keep tmp i false mem

def rangeGTLoop (expect : Nat) (allowEq : Bool) (filter keep tmp : Nat) : Nat → Mem → Mem
  | 0, mem => mem
  | i + 1, mem =>
    let dropped := andnotInplace filter (some tmp) (andnotInplace tmp (some keep) (andnotInplace tmp (b.row i)
      (overwrite tmp (some filter) mem)))
    if i = 0 ∧ ¬ allowEq then
      if expect.testBit i then overwrite filter (some keep) mem else dropped
    else if expect.testBit i then rangeGTLoop expect allowEq filter keep tmp i dropped
    else if 0 < i then
      rangeGTLoop expect allowEq filter keep tmp i
        (orInplace keep (some tmp) (andInplace tmp (b.row i) (overwrite tmp (some filter) mem)))
    else rangeGTLoop expect allowEq filter keep tmp i mem

def withScratch (loop : (keep tmp : Nat) → Mem → Mem) (h : Heap) : Heap :=
  let (keep, h) := h.acquire
  let (tmp, h) := h.acquire
  let h := h.onMem (loop keep tmp)
  (h.release keep).release tmp

def doRangeLT (expect : Nat) (allowEq : Bool) (out : Nat) (h : Heap) : Heap :=
  withScratch (fun keep tmp => b.rangeLTLoop expect allowEq out keep tmp b.bitDepth true) (h.onMem (b.restrict out))

def doRangeGT (expect : Nat) (allowEq : Bool) (out : Nat) (h : Heap) : Heap :=
  withScratch (fun keep tmp => b.rangeGTLoop expect allowEq out keep tmp b.bitDepth) (h.onMem (b.restrict out))

end BsiAt

structure WeightAt where
  weightIds : Finset Nat
  idWeights : List (UInt32 × UInt32)
  bitmap : Nat

inductive IndexAt where
  | set (bitmaps : List (Text × Nat))
  | bool (bitmap : Nat)
  | weightSet (bitmaps : List (Text × WeightAt))
  | int (bsi : BsiAt)
  | float (bsi : BsiAt)

namespace IndexAt

def load (mem : Mem) : IndexAt → Index
  | .set bitmaps => .set (mapValues mem bitmaps)
  | .bool bitmap => .bool (mem bitmap)
  | .weightSet bitmaps => .weightSet (mapValues (fun w => ⟨w.weightIds, w.idWeights, mem w.bitmap⟩) bitmaps)
  | .int bsi => .int (bsi.load mem)
  | .float bsi => .float (bsi.load mem)

def addresses : IndexAt → List Nat
  | .set bitmaps => bitmaps.map Prod.snd
  | .bool bitmap => [bitmap]
  | .weightSet bitmaps => bitmaps.map fun entry => entry.2.bitmap
  | .int bsi => bsi.bitmaps.reduceOption
  | .float bsi => bsi.bitmaps.reduceOption

def reset (out : Nat) (h : Heap) : Nat × Heap :=
  let (a, h) := h.acquire
  (a, h.release out)

/-- The return code, the bitmap that `out` has then, and the memory. -/
def selectNamed (table : Nat) (op : FieldOperator) (arg : FieldArg) (find : Text → Option Nat) (out : Nat) (h : Heap) :
    Int × Nat × Heap :=
  match op with
  | .all =>
    let (out, h) := reset out h
    (0, out, h.onMem (overwrite out (some table)))
  | .eq | .neq =>
    match arg with
    | .str s =>
      match find s with
      | none => (errNotFound, out, h)
      | some matched =>
        let (out, h) := reset out h
        if op = .eq then (0, out, h.onMem (overwrite out (some matched)))
        else (0, out, h.onMem fun mem => andnotInplace out (some matched) (overwrite out (some table) mem))
    | _ => (errInvalidArgs, out, h)
  | _ => (errInvalidOperator, out, h)

def selectBool (table bitmap : Nat) (op : FieldOperator) (arg : FieldArg) (out : Nat) (h : Heap) : Int × Nat × Heap :=
  match op with
  | .all =>
    let (out, h) := reset out h
    (0, out, h.onMem (overwrite out (some table)))
  | .eq | .neq =>
    match arg with
    | .int v =>
      let (out, h) := reset out h
      if op = .eq then
        if v = 0 then (0, out, h.onMem fun mem => andnotInplace out (some bitmap) (overwrite out (some table) mem))
        else (0, out, h.onMem (overwrite out (some bitmap)))
      else
        if v = 0 then (0, out, h.onMem (overwrite out (some bitmap)))
        else (0, out, h.onMem fun mem => andnotInplace out (some bitmap) (overwrite out (some table) mem))
    | _ => (errInvalidArgs, out, h)
  | _ => (errInvalidOperator, out, h)

def selectRange (bsi : BsiAt) (op : FieldOperator) (expect out : Nat) (h : Heap) : Int × Nat × Heap :=
  let (out, h) := reset out h
  match op with
  | .eq => (0, out, h.onMem (bsi.doRangeEQ expect out))
  | .neq => (0, out, bsi.doRangeNEQ expect out h)
  | .lt => (0, out, bsi.doRangeLT expect false out h)
  | .lte => (0, out, bsi.doRangeLT expect true out h)
  | .gt => (0, out, bsi.doRangeGT expect false out h)
  | .gte => (0, out, bsi.doRangeGT expect true out h)
  | _ => (errInvalidOperator, out, h)

def select (table : Nat) (op : FieldOperator) (arg : FieldArg) (out : Nat) (h : Heap) : IndexAt → Int × Nat × Heap
  | .set bitmaps => selectNamed table op arg (fun s => get s bitmaps) out h
  | .bool bitmap => selectBool table bitmap op arg out h
  | .weightSet bitmaps => selectNamed table op arg (fun s => (get s bitmaps).map (·.bitmap)) out h
  | .int bsi =>
    match arg with
    | .int v => selectRange bsi op (bsi.options.toLocalVal v) out h
    | _ => (errInvalidArgs, out, h)
  | .float bsi =>
    match arg with
    | .double v => selectRange bsi op (bsi.options.toLocalValFloat v.toFloat32.toBits) out h
    | .int v => selectRange bsi op (bsi.options.toLocalValFloat (Int64.ofInt v).toFloat32.toBits) out h
    | .str _ => (errInvalidArgs, out, h)

end IndexAt

/-! Selecting in memory gives the answer of the index that is loaded from it, and changes no bitmap but its own. -/

open Lib Set List Pool BsiAt

section
variable {mem : Mem} {x : Nat} {o : Option Nat} {v : Bitmap}

lemma peek_update_of_ne (other : o ≠ some x) : peek (update mem x v) o = peek mem o := by
  cases o with
  | none => rfl
  | some a => exact update_of_ne (fun same => other (congrArg some same)) _ _

lemma peek_some (mem : Mem) (x : Nat) : peek mem (some x) = mem x := rfl

end

namespace BsiAt

variable {b : BsiAt} {mem mem' : Mem} {expect n filter keep tmp : Nat} {allowEq : Bool}

lemma bitmap_ne {x : Nat} (apart : some x ∉ b.bitmaps) (i : Nat) : b.bitmap i ≠ some x := by
  rw [bitmap, getD_eq_getElem?_getD]
  cases found : b.bitmaps[i]? with
  | none => simp
  | some o =>
    intro same
    exact apart (same ▸ mem_of_getElem? found)

lemma bitmap_load (b : BsiAt) (mem : Mem) (i : Nat) : (b.load mem).bitmap i = peek mem (b.bitmap i) := by
  rw [BitSliceIndex.bitmap, load, bitmap, getD_eq_getElem?_getD, getElem?_map, getD_eq_getElem?_getD]
  rcases b.bitmaps[i]? with _ | _ | a <;> rfl

lemma exist_load (b : BsiAt) (mem : Mem) : (b.load mem).exist = peek mem b.exist := b.bitmap_load mem 0

lemma row_load (b : BsiAt) (mem : Mem) (i : Nat) : (b.load mem).row i = peek mem (b.row i) := b.bitmap_load mem (i + 1)

lemma load_congr (same : ∀ a, some a ∈ b.bitmaps → mem' a = mem a) : b.load mem' = b.load mem := by
  rw [load, load, BitSliceIndex.mk.injEq]
  refine ⟨rfl, rfl, map_congr_left fun o member => ?_⟩
  cases o with
  | none => rfl
  | some a => exact congrArg some (same a member)

lemma load_congr_of_touched {touched : Set Nat} (apart : ∀ a ∈ touched, some a ∉ b.bitmaps)
    (same : ∀ a, a ∉ touched → mem' a = mem a) : b.load mem' = b.load mem :=
  load_congr fun a member => same a fun inside => apart a inside member

lemma restrict_spec (out : Nat) (mem : Mem) : b.restrict out mem out = (b.load mem).restrict (mem out) ∧
    ∀ a, a ≠ out → b.restrict out mem a = mem a := by
  rw [restrict, BitSliceIndex.restrict, exist_load]
  split
  · exact ⟨update_self _ _ _, fun a other => update_of_ne other _ _⟩
  · exact ⟨update_self _ _ _, fun a other => update_of_ne other _ _⟩

lemma rangeEQLoop_spec {out : Nat} (apart : some out ∉ b.bitmaps) (expect n : Nat) (mem : Mem) :
    b.rangeEQLoop expect out n mem out = (b.load mem).rangeEQLoop expect n (mem out) ∧
      ∀ a, a ≠ out → b.rangeEQLoop expect out n mem a = mem a := by
  induction n generalizing mem with
  | zero => exact ⟨rfl, fun _ _ => rfl⟩
  | succ i ih =>
    rw [rangeEQLoop, BitSliceIndex.rangeEQLoop, row_load]
    have step : ∀ v, b.rangeEQLoop expect out i (update mem out v) out = (b.load mem).rangeEQLoop expect i v ∧
        ∀ a, a ≠ out → b.rangeEQLoop expect out i (update mem out v) a = mem a := by
      intro v
      have same : b.load (update mem out v) = b.load mem :=
        load_congr fun a member => update_of_ne (fun here : a = out => apart (here ▸ member)) _ _
      obtain ⟨here, others⟩ := ih (update mem out v)
      rw [same, update_self] at here
      exact ⟨here, fun a other => (others a other).trans (update_of_ne other _ _)⟩
    split
    · exact step _
    · exact step _

lemma doRangeEQ_spec {out : Nat} (apart : some out ∉ b.bitmaps) (expect : Nat) (mem : Mem) :
    b.doRangeEQ expect out mem out = (b.load mem).doRangeEQ expect (mem out) ∧
      ∀ a, a ≠ out → b.doRangeEQ expect out mem a = mem a := by
  obtain ⟨restricted, kept⟩ := b.restrict_spec out mem
  obtain ⟨here, others⟩ := rangeEQLoop_spec apart expect b.bitDepth (b.restrict out mem)
  have same : b.load (b.restrict out mem) = b.load mem :=
    load_congr fun a member => kept a fun here : a = out => apart (here ▸ member)
  rw [same, restricted] at here
  exact ⟨here, fun a other => (others a other).trans (kept a other)⟩

structure Apart (b : BsiAt) (filter keep tmp : Nat) : Prop where
  filter_keep : filter ≠ keep
  filter_tmp : filter ≠ tmp
  keep_tmp : keep ≠ tmp
  rows : ∀ a ∈ ({filter, keep, tmp} : Set Nat), some a ∉ b.bitmaps

def Outside (a filter keep tmp : Nat) : Prop := a ≠ filter ∧ a ≠ keep ∧ a ≠ tmp

lemma Apart.load_eq (apart : b.Apart filter keep tmp) (outside : ∀ a, Outside a filter keep tmp → mem' a = mem a) :
    b.load mem' = b.load mem := by
  refine load_congr_of_touched apart.rows fun a out => outside a ?_
  simpa [Outside, not_or] using out

lemma Apart.row_ne (apart : b.Apart filter keep tmp) (i : Nat) : b.row i ≠ some filter ∧ b.row i ≠ some keep ∧ b.row i ≠ some tmp :=
  ⟨bitmap_ne (apart.rows filter (by simp)) _, bitmap_ne (apart.rows keep (by simp)) _, bitmap_ne (apart.rows tmp (by simp)) _⟩

/-- A loop in memory does what the loop on sets does, and leaves the rest of the memory alone. -/
def Tracks (b : BsiAt) (filter keep tmp : Nat) (loop : Mem → Mem) (loop' : BitSliceIndex → Bitmap → Bitmap → Bitmap) : Prop :=
  ∀ mem, loop mem filter = loop' (b.load mem) (mem filter) (mem keep) ∧ ∀ a, Outside a filter keep tmp → loop mem a = mem a

lemma Tracks.after {loop : Mem → Mem} {loop' : BitSliceIndex → Bitmap → Bitmap → Bitmap} {filter' keep' : Bitmap}
    (tracks : b.Tracks filter keep tmp loop loop') (apart : b.Apart filter keep tmp) (filters : mem' filter = filter')
    (keeps : mem' keep = keep') (outside : ∀ a, Outside a filter keep tmp → mem' a = mem a) :
    loop mem' filter = loop' (b.load mem) filter' keep' ∧ ∀ a, Outside a filter keep tmp → loop mem' a = mem a := by
  obtain ⟨here, others⟩ := tracks mem'
  rw [apart.load_eq outside, filters, keeps] at here
  exact ⟨here, fun a out => (others a out).trans (outside a out)⟩

lemma rangeLTLoop_spec (apart : b.Apart filter keep tmp) (expect : Nat) (allowEq : Bool) (n : Nat) (leadingZero : Bool) :
    b.Tracks filter keep tmp (b.rangeLTLoop expect allowEq filter keep tmp n leadingZero)
      fun c => c.rangeLTLoop expect allowEq n leadingZero := by
  induction n generalizing leadingZero with
  | zero => exact fun _ => ⟨rfl, fun _ _ => rfl⟩
  | succ i ih =>
    intro mem
    obtain ⟨row_filter, row_keep, row_tmp⟩ := apart.row_ne i
    have filter_keep := apart.filter_keep
    have filter_tmp := apart.filter_tmp
    have keep_tmp := apart.keep_tmp
    beta_reduce
    rw [rangeLTLoop, BitSliceIndex.rangeLTLoop, row_load]
    split_ifs
    · refine (ih _).after apart ?_ ?_ fun a out => ?_
      · exact update_self _ _ _
      · exact update_of_ne filter_keep.symm _ _
      · exact update_of_ne out.1 _ _
    · refine ⟨?_, fun a out => ?_⟩
      · simp [andnotInplace, xorInplace, peek_some, peek_update_of_ne row_keep, filter_keep]
      · simp [andnotInplace, xorInplace, out.1, out.2.1]
    · exact ⟨update_self _ _ _, fun a out => update_of_ne out.1 _ _⟩
    · refine (ih _).after apart ?_ ?_ fun a out => ?_
      · simp [orInplace, andnotInplace, overwrite, filter_keep, filter_tmp]
      · simp [orInplace, andnotInplace, overwrite, peek_some, peek_update_of_ne row_tmp, keep_tmp]
      · simp [orInplace, andnotInplace, overwrite, out.2.1, out.2.2]
    · exact (ih _).after apart rfl rfl fun _ _ => rfl
    · refine (ih _).after apart ?_ ?_ fun a out => ?_
      · simp [andnotInplace, overwrite, peek_some, filter_tmp, keep_tmp]
      · simp [andnotInplace, overwrite, filter_keep.symm, keep_tmp]
      · simp [andnotInplace, overwrite, out.1, out.2.2]

lemma rangeGTLoop_spec (apart : b.Apart filter keep tmp) (expect : Nat) (allowEq : Bool) (n : Nat) :
    b.Tracks filter keep tmp (b.rangeGTLoop expect allowEq filter keep tmp n) fun c => c.rangeGTLoop expect allowEq n := by
  induction n with
  | zero => exact fun _ => ⟨rfl, fun _ _ => rfl⟩
  | succ i ih =>
    intro mem
    obtain ⟨row_filter, row_keep, row_tmp⟩ := apart.row_ne i
    have filter_keep := apart.filter_keep
    have filter_tmp := apart.filter_tmp
    have keep_tmp := apart.keep_tmp
    beta_reduce
    rw [rangeGTLoop, BitSliceIndex.rangeGTLoop, row_load]
    have dropped : ∀ mem', mem' = andnotInplace filter (some tmp) (andnotInplace tmp (some keep) (andnotInplace tmp (b.row i)
          (overwrite tmp (some filter) mem))) →
        mem' filter = mem filter \ ((mem filter \ peek mem (b.row i)) \ mem keep) ∧ mem' keep = mem keep ∧
          ∀ a, Outside a filter keep tmp → mem' a = mem a := by
      rintro mem' rfl
      refine ⟨?_, ?_, fun a out => ?_⟩
      · simp [andnotInplace, overwrite, peek_some, peek_update_of_ne row_tmp, filter_tmp, keep_tmp]
      · simp [andnotInplace, overwrite, filter_keep.symm, keep_tmp]
      · simp [andnotInplace, overwrite, out.1, out.2.2]
    obtain ⟨value, kept, outside⟩ := dropped _ rfl
    split_ifs
    · exact ⟨update_self _ _ _, fun a out => update_of_ne out.1 _ _⟩
    · exact ⟨value, outside⟩
    · exact ih.after apart value kept outside
    · refine ih.after apart ?_ ?_ fun a out => ?_
      · simp [orInplace, andInplace, overwrite, filter_keep, filter_tmp]
      · simp [orInplace, andInplace, overwrite, peek_some, peek_update_of_ne row_tmp, keep_tmp]
      · simp [orInplace, andInplace, overwrite, out.2.1, out.2.2]
    · exact ih.after apart rfl rfl fun _ _ => rfl

end BsiAt

/-- The bitmap `out` has the ids, and no other bitmap in use was changed. -/
structure Puts (h : Heap) (out : Nat) (ids : Bitmap) (h' : Heap) : Prop where
  keeps : h.Keeps h' {out}
  live : h'.Live out
  value : h'.mem out = ids

section
variable {h h' : Heap} {out : Nat} {ids : Bitmap}

lemma Puts.after (first : h.Keeps h' {out}) {h'' : Heap} (second : Puts h' out ids h'') : Puts h out ids h'' :=
  ⟨first.trans second.keeps fun _ inside _ => inside, second.live, second.value⟩

lemma puts_onMem (sound : h.Sound) (live : h.Live out) {f : Mem → Mem} (value : f h.mem out = ids)
    (only : ∀ a, a ≠ out → f h.mem a = h.mem a) : Puts h out ids (h.onMem f) := by
  refine ⟨keeps_onMem sound (fun a inside => ?_) only, live, value⟩
  rw [mem_singleton_iff.mp inside]
  exact live

lemma withScratch_spec (sound : h.Sound) (live : h.Live out) {loop : (keep tmp : Nat) → Mem → Mem}
    (loops : ∀ keep tmp mem, ¬ h.Live keep → ¬ h.Live tmp → keep ≠ tmp → (∀ a, h.Live a → mem a = h.mem a) → mem keep = ∅ →
      loop keep tmp mem out = ids ∧ ∀ a, Outside a out keep tmp → loop keep tmp mem a = mem a) :
    Puts h out ids (withScratch loop h) := by
  rw [withScratch]
  have first := acquired sound
  generalize h.acquire = taken at first
  obtain ⟨keep, h1⟩ := taken
  dsimp only
  have second := acquired first.keeps.sound
  generalize h1.acquire = taken at second
  obtain ⟨tmp, h2⟩ := taken
  have kept : ∀ a, h.Live a → h2.Live a ∧ h2.mem a = h.mem a :=
    fun a old => (first.keeps.trans second.keeps fun _ inside _ => inside).kept a old (notMem_empty _)
  have keep_live : h2.Live keep := second.keeps.live first.live (notMem_empty _)
  have keep_empty : h2.mem keep = ∅ := (second.keeps.mem_eq first.live (notMem_empty _)).trans first.empty
  have tmp_fresh : ¬ h.Live tmp := fun old => second.fresh (first.keeps.live old (notMem_empty _))
  have keep_tmp : keep ≠ tmp := fun same => second.fresh (same ▸ first.live)
  have out_keep : out ≠ keep := fun same => first.fresh (same ▸ live)
  have out_tmp : out ≠ tmp := fun same => tmp_fresh (same ▸ live)
  obtain ⟨value, only⟩ := loops keep tmp h2.mem first.fresh tmp_fresh keep_tmp (fun a old => (kept a old).2) keep_empty
  have ran : h2.Keeps (h2.onMem (loop keep tmp)) {out, keep, tmp} := by
    refine keeps_onMem second.keeps.sound (fun a inside => ?_) fun a outside => only a ?_
    · rcases inside with rfl | rfl | rfl
      · exact (kept _ live).1
      · exact keep_live
      · exact second.live
    · simpa [Outside, not_or] using outside
  have released := keeps_release ran.sound (a := keep) keep_live
  have tmp_live := released.live (a := tmp) second.live keep_tmp.symm
  have released' := keeps_release released.sound tmp_live
  have out_live := released.live (a := out) (kept out live).1 out_keep
  refine ⟨?_, released'.live out_live out_tmp, ?_⟩
  · have whole : h.Keeps h2 {out} := ⟨second.keeps.sound, fun a old _ => kept a old⟩
    refine ((whole.trans ran fun a inside old => ?_).trans released fun a inside old => ?_).trans released' fun a inside old => ?_
    · rcases inside with rfl | rfl | rfl
      · rfl
      · exact absurd old first.fresh
      · exact absurd old tmp_fresh
    · exact absurd (mem_singleton_iff.mp inside ▸ old) first.fresh
    · exact absurd (mem_singleton_iff.mp inside ▸ old) tmp_fresh
  · rw [released'.mem_eq out_live out_tmp, released.mem_eq (a := out) (kept out live).1 out_keep]
    exact value

end

/-- The bitmaps of the index are in use and `out` is another one. -/
def BsiAt.Stored (b : BsiAt) (h : Heap) (out : Nat) : Prop := ∀ a, some a ∈ b.bitmaps → h.Live a ∧ a ≠ out

namespace BsiAt

variable {b : BsiAt} {h : Heap} {out : Nat} {mem : Mem}

section
variable (stored : b.Stored h out)
include stored

lemma Stored.out_notMem : some out ∉ b.bitmaps := fun member => (stored out member).2 rfl

lemma Stored.fresh_notMem {a : Nat} (fresh : ¬ h.Live a) : some a ∉ b.bitmaps :=
  fun member => fresh (stored a member).1

lemma Stored.load_eq (same : ∀ a, h.Live a → a ≠ out → mem a = h.mem a) : b.load mem = b.load h.mem :=
  load_congr fun a member => same a (stored a member).1 (stored a member).2

lemma Stored.apart (live : h.Live out) {keep tmp : Nat} (keep_fresh : ¬ h.Live keep)
    (tmp_fresh : ¬ h.Live tmp) (keep_tmp : keep ≠ tmp) : b.Apart out keep tmp := by
  refine ⟨fun same => keep_fresh (same ▸ live), fun same => tmp_fresh (same ▸ live), keep_tmp, fun a inside => ?_⟩
  rcases inside with rfl | rfl | rfl
  · exact stored.out_notMem
  · exact stored.fresh_notMem keep_fresh
  · exact stored.fresh_notMem tmp_fresh

end

variable (sound : h.Sound) (live : h.Live out) (stored : b.Stored h out)
include sound live stored

lemma doRangeEQ_puts (expect : Nat) :
    Puts h out ((b.load h.mem).doRangeEQ expect (h.mem out)) (h.onMem (b.doRangeEQ expect out)) := by
  obtain ⟨value, only⟩ := doRangeEQ_spec stored.out_notMem expect h.mem
  exact puts_onMem sound live value only

omit stored in
lemma restrict_puts : Puts h out ((b.load h.mem).restrict (h.mem out)) (h.onMem (b.restrict out)) := by
  obtain ⟨value, only⟩ := b.restrict_spec out h.mem
  exact puts_onMem sound live value only

lemma scratch_puts {loop : (keep tmp : Nat) → Mem → Mem} (range : BitSliceIndex → Bitmap → Bitmap → Bitmap)
    (spec : ∀ keep tmp mem, b.Apart out keep tmp → loop keep tmp mem out = range (b.load mem) (mem out) (mem keep) ∧
      ∀ a, Outside a out keep tmp → loop keep tmp mem a = mem a) :
    Puts h out (range (b.load h.mem) ((b.load h.mem).restrict (h.mem out)) ∅) (withScratch loop (h.onMem (b.restrict out))) := by
  have restricted := restrict_puts (b := b) sound live
  refine .after restricted.keeps (withScratch_spec restricted.keeps.sound restricted.live fun keep tmp mem fresh fresh' differ same empty => ?_)
  obtain ⟨value, outside⟩ := spec keep tmp mem (stored.apart live fresh fresh' differ)
  have loaded : b.load mem = b.load h.mem := stored.load_eq fun a old other =>
    (same a old).trans ((restricted.keeps.mem_eq old other))
  rw [loaded, same out live, restricted.value, empty] at value
  exact ⟨value, outside⟩

lemma doRangeLT_puts (expect : Nat) (allowEq : Bool) :
    Puts h out ((b.load h.mem).doRangeLT expect allowEq (h.mem out)) (b.doRangeLT expect allowEq out h) :=
  scratch_puts sound live stored (fun c => c.rangeLTLoop expect allowEq b.bitDepth true) fun _ _ _ apart =>
    rangeLTLoop_spec apart expect allowEq b.bitDepth true _

lemma doRangeGT_puts (expect : Nat) (allowEq : Bool) :
    Puts h out ((b.load h.mem).doRangeGT expect allowEq (h.mem out)) (b.doRangeGT expect allowEq out h) :=
  scratch_puts sound live stored (fun c => c.rangeGTLoop expect allowEq b.bitDepth) fun _ _ _ apart =>
    rangeGTLoop_spec apart expect allowEq b.bitDepth _

lemma doRangeNEQ_puts (expect : Nat) : Puts h out ((b.load h.mem).doRangeNEQ expect (h.mem out)) (b.doRangeNEQ expect out h) := by
  rw [doRangeNEQ]
  have wrote : Puts h out (peek h.mem b.exist) (h.onMem (overwrite out b.exist)) :=
    puts_onMem sound live (update_self _ _ _) fun a other => update_of_ne other _ _
  generalize h.onMem (overwrite out b.exist) = h1 at wrote
  have taken := acquired wrote.keeps.sound
  generalize h1.acquire = pair at taken
  obtain ⟨eq, h2⟩ := pair
  have first : h.Keeps h2 {out} := wrote.keeps.trans taken.keeps fun _ inside _ => absurd inside (notMem_empty _)
  have eq_fresh : ¬ h.Live eq := by
    intro old
    have other : eq ≠ out := fun same => taken.fresh (same ▸ wrote.live)
    exact taken.fresh (wrote.keeps.live old other)
  have out_eq : out ≠ eq := fun same => eq_fresh (same ▸ live)
  have out_live : h2.Live out := taken.keeps.live wrote.live (notMem_empty _)
  have loaded : b.load h2.mem = b.load h.mem := stored.load_eq fun a old other => first.mem_eq old other
  obtain ⟨equal, kept⟩ := doRangeEQ_spec (stored.fresh_notMem eq_fresh) expect h2.mem
  rw [loaded, taken.empty] at equal
  have out_value : h2.mem out = peek h.mem b.exist :=
    (taken.keeps.mem_eq wrote.live (notMem_empty _)).trans wrote.value
  have ran : h2.Keeps (h2.onMem fun mem => andnotInplace out (some eq) (b.doRangeEQ expect eq mem)) {out, eq} := by
    refine keeps_onMem taken.keeps.sound (fun a inside => ?_) fun a outside => ?_
    · rcases inside with rfl | rfl
      · exact out_live
      · exact taken.live
    · obtain ⟨other, other'⟩ : a ≠ out ∧ a ≠ eq := by simpa [not_or] using outside
      exact (update_of_ne other _ _).trans (kept a other')
  have released := keeps_release ran.sound (a := eq) taken.live
  refine ⟨(first.trans ran fun a inside old => ?_).trans released fun a inside old => ?_, released.live (a := out) out_live out_eq, ?_⟩
  · rcases inside with rfl | rfl
    · rfl
    · exact absurd old eq_fresh
  · exact absurd (mem_singleton_iff.mp inside ▸ old) eq_fresh
  · rw [released.mem_eq (a := out) out_live out_eq, BitSliceIndex.doRangeNEQ, exist_load]
    show update _ out _ out = _
    rw [update_self, peek_some, equal, kept out out_eq, out_value]

end BsiAt

structure Selected (h : Heap) (out : Nat) (answer : Except Int Bitmap) (result : Int × Nat × Heap) : Prop where
  keeps : h.Keeps result.2.2 {out}
  live : result.2.2.Live result.2.1
  fresh : result.2.1 = out ∨ ¬ h.Live result.2.1
  answers : match answer with
    | .ok ids => result.1 = 0 ∧ result.2.2.mem result.2.1 = ids
    | .error rc => result.1 = rc ∧ rc ≠ 0

namespace IndexAt

variable {h : Heap} {out table : Nat} {op : FieldOperator} {arg : FieldArg}

section
variable (sound : h.Sound)
include sound

section
variable (live : h.Live out)
include live

lemma reset_spec : h.Keeps (reset out h).2 {out} ∧
    (reset out h).2.Live (reset out h).1 ∧ ¬ h.Live (reset out h).1 ∧ (reset out h).2.mem (reset out h).1 = ∅ := by
  rw [reset]
  have taken := acquired sound
  generalize h.acquire = pair at taken
  obtain ⟨a, h1⟩ := pair
  have other : a ≠ out := fun same => taken.fresh (same ▸ live)
  have released := keeps_release taken.keeps.sound (taken.keeps.live live (notMem_empty _))
  have whole : h.Keeps h1 {out} := ⟨taken.keeps.sound, fun b old _ => taken.keeps.kept b old (notMem_empty _)⟩
  exact ⟨whole.trans released fun _ inside _ => inside, released.live taken.live other, taken.fresh,
    (released.mem_eq taken.live other).trans taken.empty⟩

lemma selected_error {rc : Int} (bad : rc ≠ 0) : Selected h out (.error rc) (rc, out, h) :=
  ⟨⟨sound, fun _ old _ => ⟨old, rfl⟩⟩, live, .inl rfl, rfl, bad⟩

lemma selected_reset {ids : Bitmap} (write : Nat → Heap → Heap)
    (puts : ∀ out' h', h.Keeps h' {out} → h'.Live out' → ¬ h.Live out' → h'.mem out' = ∅ → Puts h' out' ids (write out' h')) :
    Selected h out (.ok ids) (0, (reset out h).1, write (reset out h).1 (reset out h).2) := by
  obtain ⟨keeps, live', fresh, empty⟩ := reset_spec sound live
  have wrote := puts _ _ keeps live' fresh empty
  refine ⟨keeps.trans wrote.keeps fun a inside old => ?_, wrote.live, .inr fresh, rfl, wrote.value⟩
  exact absurd (mem_singleton_iff.mp inside ▸ old) fresh

lemma selected_copy {src : Nat} (src_live : h.Live src) (other : src ≠ out) :
    Selected h out (.ok (h.mem src)) (0, (reset out h).1, (reset out h).2.onMem (overwrite (reset out h).1 (some src))) := by
  refine selected_reset sound live (fun out' h' => h'.onMem (overwrite out' (some src))) fun out' h' keeps live' fresh _ => ?_
  refine puts_onMem keeps.sound live' ?_ fun a differs => update_of_ne differs _ _
  show update _ out' _ out' = _
  rw [update_self, peek_some, keeps.mem_eq src_live other]

lemma selected_difference {src minus : Nat} (src_live : h.Live src) (other : src ≠ out)
    (minus_live : h.Live minus) (other' : minus ≠ out) :
    Selected h out (.ok (h.mem src \ h.mem minus)) (0, (reset out h).1, (reset out h).2.onMem fun mem =>
      andnotInplace (reset out h).1 (some minus) (overwrite (reset out h).1 (some src) mem)) := by
  refine selected_reset sound live (fun out' h' => h'.onMem fun mem => andnotInplace out' (some minus) (overwrite out' (some src) mem))
    fun out' h' keeps live' fresh _ => ?_
  have differs : minus ≠ out' := fun same => fresh (same ▸ minus_live)
  refine puts_onMem keeps.sound live' ?_ fun a apart => ?_
  · show update _ out' _ out' = _
    rw [update_self, peek_some, overwrite, update_self, update_of_ne differs, peek_some,
      keeps.mem_eq src_live other, keeps.mem_eq minus_live other']
  · exact (update_of_ne apart _ _).trans (update_of_ne apart _ _)

lemma selectNamed_spec (table_live : h.Live table) (table_out : table ≠ out)
    (op : FieldOperator) (arg : FieldArg) (find : Text → Option Nat) (stored : ∀ s a, find s = some a → h.Live a ∧ a ≠ out) :
    Selected h out (Index.selectNamed (h.mem table) op arg fun s => (find s).map h.mem) (selectNamed table op arg find out h) := by
  unfold Index.selectNamed selectNamed
  cases op
  case all => exact selected_copy sound live table_live table_out
  case eq =>
    cases arg with
    | str s =>
      dsimp only
      cases found : find s with
      | none => exact selected_error sound live (by decide)
      | some matched => exact selected_copy sound live (stored s matched found).1 (stored s matched found).2
    | _ => exact selected_error sound live (by decide)
  case neq =>
    cases arg with
    | str s =>
      dsimp only
      cases found : find s with
      | none => exact selected_error sound live (by decide)
      | some matched =>
        exact selected_difference sound live table_live table_out (stored s matched found).1 (stored s matched found).2
    | _ => exact selected_error sound live (by decide)
  all_goals exact selected_error sound live (by decide)

lemma selectBool_spec (table_live : h.Live table) (table_out : table ≠ out) {bitmap : Nat}
    (bitmap_live : h.Live bitmap) (bitmap_out : bitmap ≠ out) :
    Selected h out (Index.selectBool (h.mem table) (h.mem bitmap) op arg) (selectBool table bitmap op arg out h) := by
  have with_ := selected_copy sound live bitmap_live bitmap_out
  have without := selected_difference sound live table_live table_out bitmap_live bitmap_out
  unfold Index.selectBool selectBool
  cases op
  case all => exact selected_copy sound live table_live table_out
  case eq =>
    cases arg with
    | int v =>
      dsimp only
      rw [if_pos rfl]
      split
      · exact without
      · exact with_
    | _ => exact selected_error sound live (by decide)
  case neq =>
    cases arg with
    | int v =>
      have other : FieldOperator.neq ≠ .eq := by decide
      dsimp only
      rw [if_neg other]
      split
      · exact with_
      · exact without
    | _ => exact selected_error sound live (by decide)
  all_goals exact selected_error sound live (by decide)

lemma selectRange_spec (bsi : BsiAt) (stored : bsi.Stored h out) (op : FieldOperator) (expect : Nat) :
    Selected h out (Index.selectRange (bsi.load h.mem) op expect) (selectRange bsi op expect out h) := by
  -- in the memory where the new bitmap was taken, the index is the same one
  have moved : ∀ out' h', h.Keeps h' {out} → ¬ h.Live out' → bsi.Stored h' out' ∧ bsi.load h'.mem = bsi.load h.mem := by
    intro out' h' keeps fresh
    refine ⟨fun a member => ?_, stored.load_eq fun a old other => keeps.mem_eq old other⟩
    obtain ⟨old, other⟩ := stored a member
    exact ⟨keeps.live old other, fun same => fresh (same ▸ old)⟩
  have wrote : ∀ (range : BitSliceIndex → Bitmap → Bitmap) (write : Nat → Heap → Heap),
      (∀ out' h', h'.Sound → h'.Live out' → bsi.Stored h' out' → Puts h' out' (range (bsi.load h'.mem) (h'.mem out')) (write out' h')) →
      Selected h out (.ok (range (bsi.load h.mem) ∅)) (0, (reset out h).1, write (reset out h).1 (reset out h).2) := by
    intro range write puts
    refine selected_reset sound live write fun out' h' keeps live' fresh empty => ?_
    obtain ⟨stored', loaded⟩ := moved out' h' keeps fresh
    have wrote := puts out' h' keeps.sound live' stored'
    rw [loaded, empty] at wrote
    exact wrote
  cases op
  case eq => exact wrote (·.doRangeEQ expect) (fun out' h' => h'.onMem (bsi.doRangeEQ expect out')) fun _ _ s l t => doRangeEQ_puts s l t expect
  case neq => exact wrote (·.doRangeNEQ expect) (bsi.doRangeNEQ expect) fun _ _ s l t => doRangeNEQ_puts s l t expect
  case lt => exact wrote (·.doRangeLT expect false) (bsi.doRangeLT expect false) fun _ _ s l t => doRangeLT_puts s l t expect false
  case lte => exact wrote (·.doRangeLT expect true) (bsi.doRangeLT expect true) fun _ _ s l t => doRangeLT_puts s l t expect true
  case gt => exact wrote (·.doRangeGT expect false) (bsi.doRangeGT expect false) fun _ _ s l t => doRangeGT_puts s l t expect false
  case gte => exact wrote (·.doRangeGT expect true) (bsi.doRangeGT expect true) fun _ _ s l t => doRangeGT_puts s l t expect true
  all_goals
    obtain ⟨keeps, live', fresh, -⟩ := reset_spec sound live
    exact ⟨keeps, live', .inr fresh, rfl, by decide⟩

lemma select_spec (index : IndexAt) (stored : ∀ a ∈ table :: index.addresses, h.Live a ∧ a ≠ out) :
    Selected h out ((index.load h.mem).select (h.mem table) op arg) (index.select table op arg out h) := by
  obtain ⟨table_live, table_out⟩ := stored table mem_cons_self
  have inside : ∀ a ∈ index.addresses, h.Live a ∧ a ≠ out := fun a member => stored a (mem_cons_of_mem _ member)
  cases index with
  | set bitmaps =>
    have spec := selectNamed_spec sound live table_live table_out op arg (fun s => get s bitmaps)
      fun s a found => inside a (mem_map.mpr ⟨(s, a), mem_of_get found, rfl⟩)
    simp only [load, Index.select, get_mapValues]
    exact spec
  | bool bitmap =>
    obtain ⟨bitmap_live, bitmap_out⟩ := inside bitmap mem_cons_self
    exact selectBool_spec sound live table_live table_out bitmap_live bitmap_out
  | weightSet bitmaps =>
    have spec := selectNamed_spec sound live table_live table_out op arg
      (fun s => (get s bitmaps).map (·.bitmap)) fun s a found => by
        obtain ⟨w, there, rfl⟩ := Option.map_eq_some_iff.mp found
        exact inside w.bitmap (mem_map.mpr ⟨(s, w), mem_of_get there, rfl⟩)
    simp only [Option.map_map] at spec
    simp only [load, Index.select, get_mapValues, Option.map_map]
    exact spec
  | int bsi =>
    have spec := selectRange_spec sound live bsi (fun a member => inside a (reduceOption_mem_iff.mpr member)) op
    cases arg with
    | int v => exact spec _
    | _ => exact selected_error sound live (by decide)
  | float bsi =>
    have spec := selectRange_spec sound live bsi (fun a member => inside a (reduceOption_mem_iff.mpr member)) op
    cases arg with
    | str s => exact selected_error sound live (by decide)
    | _ => exact spec _

end

end

end IndexAt

end Myctk.Robims
