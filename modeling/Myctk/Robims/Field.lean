import Myctk.Lib.BitSlice
import Myctk.Lib.Bytes
import Myctk.Lib.Assoc

/-! The bit-sliced index (`robims/robims_bsi.cpp`): the value of an id is kept as the bitmaps that hold the id. -/

namespace Myctk.Robims
open UInt32 List

abbrev Text := Lib.Bytes

abbrev Bitmap := Finset UInt32

inductive IndexType where
  | unknown
  | set
  | weightSet
  | mutex
  | int
  | float
  | bool
  deriving DecidableEq

structure FieldMeta where
  name : Text
  indexType : IndexType
  min : Float
  max : Float
  topkLimit : Int
  maxSetNum : Int

def u64 (x : Int) : Nat := (x % 2 ^ 64).toNat

def i64 (x : Int) : Int := x.bmod (2 ^ 64)

def intMax : Int := 2 ^ 31 - 1

def floatNonneg (v : UInt32) : Bool := v ≤ 0x7F800000 || v = 0x80000000

def floatToUint32 (v : UInt32) : UInt32 := if floatNonneg v then v ||| 0x80000000 else ~~~ v

def uint32ToFloat (v : UInt32) : UInt32 := if v &&& 0x80000000 > 0 then v &&& ~~~ 0x80000000 else ~~~ v

/-- `BitSliceIndexCreateOptions`. -/
structure BsiOptions where
  minInt : Int
  maxInt : Int
  min : Nat
  max : Nat
  limitTopK : Nat

namespace BsiOptions

def setMinMaxInt (o : BsiOptions) (minI maxI : Int) : BsiOptions :=
  let maxInt := if minI = 0 ∧ maxI = 0 then intMax else maxI
  { o with minInt := minI, maxInt, min := 0, max := u64 (maxInt - minI) }

def setMinMaxFloat (o : BsiOptions) (minD maxD : UInt32) : BsiOptions :=
  let zero (v : UInt32) : Bool := v = 0 || v = 0x80000000
  let maxD := if zero minD && zero maxD then 0x4F000000 else maxD
  { o with min := (floatToUint32 minD).toNat, max := (floatToUint32 maxD).toNat }

def default : BsiOptions := setMinMaxInt ⟨0, 0, 0, 0, 0⟩ 0 intMax

def distance (o : BsiOptions) : Nat := u64 (o.max - o.min)

def toLocalVal (o : BsiOptions) (v : Int) : Nat := u64 (v - o.minInt)

def toLocalValFloat (o : BsiOptions) (v : UInt32) : Nat := u64 ((floatToUint32 v).toNat - o.min)

def getActualIntVal (o : BsiOptions) (v : Nat) : Int := i64 (v + o.minInt)

def getActualFloatVal (o : BsiOptions) (v : Nat) : UInt32 := uint32ToFloat (ofNat (v + o.min))

def bitDepth (o : BsiOptions) : Nat := ((range 64).find? fun i => o.distance < 2 ^ i).getD 0

end BsiOptions

/-- `_bitmaps` has the ids that have a value, and then one bitmap for each bit. -/
structure BitSliceIndex where
  options : BsiOptions
  bitDepth : Nat
  bitmaps : List (Option Bitmap)

namespace BitSliceIndex

def initOptions (meta' : FieldMeta) : BsiOptions :=
  let o := match meta'.indexType with
    | .float => BsiOptions.default.setMinMaxFloat meta'.min.toFloat32.toBits meta'.max.toFloat32.toBits
    | .set | .weightSet => BsiOptions.default.setMinMaxInt 0 meta'.maxSetNum
    | _ => BsiOptions.default.setMinMaxInt meta'.min.toInt64.toInt meta'.max.toInt64.toInt
  { o with limitTopK := (meta'.topkLimit % 2 ^ 32).toNat }

def new (options : BsiOptions) : BitSliceIndex :=
  { options, bitDepth := options.bitDepth, bitmaps := replicate (options.bitDepth + 1) (some ∅) }

def init (meta' : FieldMeta) : BitSliceIndex := new (initOptions meta')

variable (b : BitSliceIndex)

def bitmap (i : Nat) : Bitmap := (b.bitmaps.getD i none).getD ∅

def update (i : Nat) (f : Bitmap → Bitmap) : BitSliceIndex := { b with bitmaps := b.bitmaps.modify i (Option.map f) }

def exist : Bitmap := b.bitmap 0

/-- The ids whose value has the bit `i`. -/
def row (i : Nat) : Bitmap := b.bitmap (i + 1)

def restrict (out : Bitmap) : Bitmap := if out = ∅ then b.exist else out ∩ b.exist

def rangeEQLoop (expect : Nat) : Nat → Bitmap → Bitmap
  | 0, out => out
  | i + 1, out => rangeEQLoop expect i (if expect.testBit i then out ∩ b.row i else out \ b.row i)

def doRangeEQ (expect : Nat) (out : Bitmap) : Bitmap := b.rangeEQLoop expect b.bitDepth (b.restrict out)

def doRangeNEQ (expect : Nat) (_out : Bitmap) : Bitmap := b.exist \ b.doRangeEQ expect ∅

def rangeLTLoop (expect : Nat) (allowEq : Bool) : Nat → (leadingZero : Bool) → (filter keep : Bitmap) → Bitmap
  | 0, _, filter, _ => filter
  | i + 1, leadingZero, filter, keep =>
    if leadingZero ∧ ¬ expect.testBit i then rangeLTLoop expect allowEq i true (filter \ b.row i) keep
    else if i = 0 ∧ ¬ allowEq then
      if ¬ expect.testBit i then keep else filter \ (symmDiff keep (b.row i) \ b.row i)
    else if ¬ expect.testBit i then rangeLTLoop expect allowEq i false (filter \ (b.row i \ keep)) keep
    else if 0 < i then rangeLTLoop expect allowEq i false filter (keep ∪ (filter \ b.row i))
    else rangeLTLoop expect allowEq i false filter keep

def doRangeLT (expect : Nat) (allowEq : Bool) (out : Bitmap) : Bitmap :=
  b.rangeLTLoop expect allowEq b.bitDepth true (b.restrict out) ∅

def rangeGTLoop (expect : Nat) (allowEq : Bool) : Nat → (filter keep : Bitmap) → Bitmap
  | 0, filter, _ => filter
  | i + 1, filter, keep =>
    if i = 0 ∧ ¬ allowEq then
      if expect.testBit i then keep else filter \ ((filter \ b.row i) \ keep)
    else if expect.testBit i then rangeGTLoop expect allowEq i (filter \ ((filter \ b.row i) \ keep)) keep
    else if 0 < i then rangeGTLoop expect allowEq i filter (keep ∪ (filter ∩ b.row i))
    else rangeGTLoop expect allowEq i filter keep

def doRangeGT (expect : Nat) (allowEq : Bool) (out : Bitmap) : Bitmap :=
  b.rangeGTLoop expect allowEq b.bitDepth (b.restrict out) ∅

def betweenMin (expectMin i : Nat) (filter keep1 : Bitmap) : Bitmap × Bitmap :=
  if expectMin.testBit i then (filter \ ((filter \ b.row i) \ keep1), keep1)
  else if 0 < i then (filter, keep1 ∪ (filter ∩ b.row i))
  else (filter, keep1)

def betweenMax (expectMax i : Nat) (filter keep2 : Bitmap) : Bitmap × Bitmap :=
  if ¬ expectMax.testBit i then (filter \ (b.row i \ keep2), keep2)
  else if 0 < i then (filter, keep2 ∪ (filter \ b.row i))
  else (filter, keep2)

def rangeBetweenLoop (expectMin expectMax : Nat) : Nat → (filter keep1 keep2 : Bitmap) → Bitmap
  | 0, filter, _, _ => filter
  | i + 1, filter, keep1, keep2 =>
    let (filter, keep1) := b.betweenMin expectMin i filter keep1
    let (filter, keep2) := b.betweenMax expectMax i filter keep2
    rangeBetweenLoop expectMin expectMax i filter keep1 keep2

def doRangeBetween (expectMin expectMax : Nat) (filter : Bitmap) : Bitmap :=
  b.rangeBetweenLoop expectMin expectMax b.bitDepth (b.restrict filter) ∅ ∅

/-- `n` is the cardinality as an `int`, and is compared as an unsigned number. -/
def topKLoop (k : UInt32) : Nat → (filter : Bitmap) → (restK : UInt32) → (out : Bitmap) → Bitmap
  | 0, _, _, out => out
  | i + 1, tmp, restK, out =>
    let filter := tmp ∩ b.row i
    let n := ofNat filter.card
    if restK < n then topKLoop k i filter restK out
    else if n < restK then
      if n = 0 ∧ 0 < i then topKLoop k i tmp restK out
      else
        let out := out ∪ filter
        topKLoop k i (tmp \ out) (k - ofNat out.card) out
    else out ∪ filter

def topK (k : UInt32) (out : Bitmap) : Bitmap := b.topKLoop k b.bitDepth b.exist k out

/-- The number `1 << i`, an `int`, in 64 bits. -/
def shiftedOne (i : Nat) : Nat := if i % 32 = 31 then 2 ^ 64 - 2 ^ 31 else 2 ^ (i % 32)

structure MinState where
  filter : Bitmap
  minVal : Nat
  count : Int
  /-- `last_non_zero_filter_count`. -/
  last : Int

def getMinLoop : Nat → MinState → MinState
  | 0, s => s
  | i + 1, s =>
    let filter := s.filter \ b.row i
    getMinLoop i <|
      if 0 < filter.card then { s with filter, count := filter.card, last := filter.card }
      else
        { s with filter, minVal := (s.minVal + shiftedOne i) % 2 ^ 64, count := if i = 0 then s.last else s.count }

def doGetMin (filter : Bitmap) : Nat × Int :=
  let s := b.getMinLoop b.bitDepth ⟨b.restrict filter, 0, 0, -1⟩
  (s.minVal, s.count)

structure MaxState where
  filter : Bitmap
  maxVal : Nat
  count : Int
  /-- `last_non_zero_filter_count`. -/
  last : Int

def getMaxLoop : Nat → MaxState → MaxState
  | 0, s => s
  | i + 1, s =>
    let tmp := s.filter ∩ b.row i
    getMaxLoop i <|
      if 0 < tmp.card then
        { filter := tmp, maxVal := (s.maxVal + shiftedOne i) % 2 ^ 64, count := tmp.card, last := tmp.card }
      else { s with count := if i = 0 then s.last else s.count }

def doGetMax (filter : Bitmap) : Nat × Int :=
  let s := b.getMaxLoop b.bitDepth ⟨b.restrict filter, 0, 0, (b.restrict filter).card⟩
  (s.maxVal, s.count)

def doRemove (id : UInt32) (val : Nat) : BitSliceIndex :=
  (range b.bitDepth).foldl (fun b i => if val.testBit i then b.update (i + 1) (·.erase id) else b)
    (b.update 0 (·.erase id))

def firstId (ids : Bitmap) : Option UInt32 :=
  match (ids.image toNat).min with
  | ⊤ => none
  | (n : Nat) => some (ofNat n)

def doRemoveMin : BitSliceIndex × Nat :=
  let (minVal, count) := b.doGetMin ∅
  if 0 < count then
    match firstId (b.doRangeEQ minVal ∅) with
    | some id => (b.doRemove id minVal, minVal)
    | none => (b, minVal)
  else (b, 0)

def writeBit (id : UInt32) (val i : Nat) : BitSliceIndex :=
  if val.testBit i then b.update (i + 1) (insert id) else b.update (i + 1) (·.erase id)

def doPut (id : UInt32) (val : Nat) : BitSliceIndex × Option Nat :=
  if id ∉ b.exist then
    let b := (range b.bitDepth).foldl (fun b i => b.writeBit id val i) (b.update 0 (insert id))
    if 0 < b.options.limitTopK ∧ b.options.limitTopK < b.exist.card then (b.doRemoveMin.1, none) else (b, none)
  else
    let (b, oldVal) := (range b.bitDepth).foldl
      (fun (b, oldVal) i => (b.writeBit id val i, if id ∈ b.row i then oldVal + 2 ^ i else oldVal)) (b, 0)
    (b, some oldVal)

def doGet (id : UInt32) : Option Nat :=
  if id ∉ b.exist then none
  else some ((range b.bitDepth).foldl (fun val i => if id ∈ b.row i then val + 2 ^ i else val) 0)

def putInt (id : UInt32) (val : Int) : BitSliceIndex := (b.doPut id (b.options.toLocalVal val)).1

def getInt (id : UInt32) : Option Int := (b.doGet id).map b.options.getActualIntVal

def getMaxInt (filter : Option Bitmap) : Int × Int :=
  let (maxVal, count) := b.doGetMax (filter.getD ∅)
  (b.options.getActualIntVal maxVal, count)

def getMinInt (filter : Option Bitmap) : Int × Int :=
  let (minVal, count) := b.doGetMin (filter.getD ∅)
  (b.options.getActualIntVal minVal, count)

def removeInt (id : UInt32) (val : Int) : BitSliceIndex := b.doRemove id (b.options.toLocalVal val)

def putFloat (id : UInt32) (val : UInt32) : BitSliceIndex × Option UInt32 :=
  let (b', old) := b.doPut id (b.options.toLocalValFloat val)
  (b', old.map fun old => uint32ToFloat (ofNat old))

def getFloat (id : UInt32) : Option UInt32 := (b.doGet id).map b.options.getActualFloatVal

def removeFloat (id : UInt32) (val : UInt32) : BitSliceIndex := b.doRemove id (b.options.toLocalValFloat val)

end BitSliceIndex

/-! The fields of a table (`robims/robims_field*.cpp`): one index for each kind of field. -/

open Lib.Assoc

inductive FieldOperator where
  | eq
  | neq
  | gt
  | gte
  | lt
  | lte
  | between
  | all
  deriving DecidableEq

inductive FieldArg where
  | str (s : Text)
  | int (v : Int)
  | double (v : Float)

def errNotFound : Int := -10001

def errInvalidArgs : Int := -10002

def errInvalidOperator : Int := -10003

structure Platform where
  order : List Text → List Text
  order_perm : ∀ names, (order names).Perm names
  unsetInt : Int
  unsetFloat : UInt32

def samplePlatform : Platform := ⟨fun names => names, fun names => .refl names, 0, 0⟩

def floatNe (v w : UInt32) : Bool :=
  let nan (x : UInt32) : Bool := x &&& 0x7FFFFFFF > 0x7F800000
  let zero (x : UInt32) : Bool := x &&& 0x7FFFFFFF = 0
  nan v || nan w || !(v = w || zero v && zero w)

structure WeightBitmap where
  weightIds : Finset Nat
  idWeights : List (UInt32 × UInt32)
  bitmap : Bitmap

namespace WeightBitmap

def empty : WeightBitmap := ⟨∅, [], ∅⟩

def weightId (weight id : UInt32) : Nat := (floatToUint32 weight).toNat * 2 ^ 32 + id.toNat

variable (w : WeightBitmap)

def eraseId (id : UInt32) : List (UInt32 × UInt32) := w.idWeights.filter fun entry => entry.1 ≠ id

/-- The last element of `weight_ids`, which is in descending order, goes when there are too many weights. -/
def trim (topkLimit : Int) : WeightBitmap :=
  if 0 < topkLimit ∧ topkLimit < w.idWeights.length then
    match w.weightIds.min with
    | ⊤ => w
    | (least : Nat) =>
      { w with idWeights := w.eraseId (UInt32.ofNat (least % 2 ^ 32)), weightIds := w.weightIds.erase least }
  else w

def put (topkLimit : Int) (id weight : UInt32) : WeightBitmap :=
  let weightIds := match get id w.idWeights with
    | some old => if floatNe weight old then w.weightIds.erase (weightId old id) else w.weightIds
    | none => w.weightIds
  WeightBitmap.trim { weightIds := insert (weightId weight id) weightIds, idWeights := alter id (fun _ => weight) w.idWeights,
                      bitmap := insert id w.bitmap } topkLimit

def remove (id weight : UInt32) : WeightBitmap :=
  { weightIds := w.weightIds.erase (weightId weight id), idWeights := w.eraseId id, bitmap := w.bitmap.erase id }

end WeightBitmap

inductive Index where
  | set (bitmaps : List (Text × Bitmap))
  | bool (bitmap : Bitmap)
  | weightSet (bitmaps : List (Text × WeightBitmap))
  | int (bsi : BitSliceIndex)
  | float (bsi : BitSliceIndex)

structure Field where
  info : FieldMeta
  index : Index

def Field.build (info : FieldMeta) : Option Field :=
  match info.indexType with
  | .mutex | .set => some ⟨info, .set []⟩
  | .bool => some ⟨info, .bool ∅⟩
  | .weightSet => some ⟨info, .weightSet []⟩
  | .int => some ⟨info, .int (.init info)⟩
  | .float => some ⟨info, .float (.init info)⟩
  | .unknown => none

namespace Index

def putName (bitmaps : List (Text × Bitmap)) (id : UInt32) (val : Text) : List (Text × Bitmap) :=
  alter val (fun found => insert id (found.getD ∅)) bitmaps

def putWeight (topkLimit : Int) (bitmaps : List (Text × WeightBitmap)) (id : UInt32) (val : Text) (weight : UInt32) :
    List (Text × WeightBitmap) :=
  alter val (fun found => (found.getD .empty).put topkLimit id weight) bitmaps

def removeNames (bitmaps : List (Text × Bitmap)) (id : UInt32) : List (Text × Bitmap) :=
  mapValues (·.erase id) bitmaps

def removeWeights (id : UInt32) : List Text → List (Text × WeightBitmap) → List (Text × WeightBitmap)
  | [], bitmaps => bitmaps
  | name :: names, bitmaps =>
    match (get name bitmaps).bind fun w => get id w.idWeights with
    | none => bitmaps
    | some weight => removeWeights id names (alter name (fun found => (found.getD .empty).remove id weight) bitmaps)

def remove (P : Platform) (id : UInt32) : Index → Index
  | .set bitmaps => .set (removeNames bitmaps id)
  | .bool bitmap => .bool (bitmap.erase id)
  | .weightSet bitmaps => .weightSet (removeWeights id (P.order (bitmaps.map Prod.fst)) bitmaps)
  | .int bsi => .int (if (bsi.getInt id).isSome then bsi else bsi.removeInt id P.unsetInt)
  | .float bsi => .float (if (bsi.getFloat id).isSome then bsi else bsi.removeFloat id P.unsetFloat)

def selectNamed (table : Bitmap) (op : FieldOperator) (arg : FieldArg) (find : Text → Option Bitmap) : Except Int Bitmap :=
  match op with
  | .all => .ok table
  | .eq | .neq =>
    match arg with
    | .str s =>
      match find s with
      | none => .error errNotFound
      | some matched => .ok (if op = .eq then matched else table \ matched)
    | _ => .error errInvalidArgs
  | _ => .error errInvalidOperator

def selectBool (table bitmap : Bitmap) (op : FieldOperator) (arg : FieldArg) : Except Int Bitmap :=
  match op with
  | .all => .ok table
  | .eq =>
    match arg with
    | .int v => .ok (if v = 0 then table \ bitmap else bitmap)
    | _ => .error errInvalidArgs
  | .neq =>
    match arg with
    | .int v => .ok (if v = 0 then bitmap else table \ bitmap)
    | _ => .error errInvalidArgs
  | _ => .error errInvalidOperator

def selectRange (bsi : BitSliceIndex) (op : FieldOperator) (expect : Nat) : Except Int Bitmap :=
  match op with
  | .eq => .ok (bsi.doRangeEQ expect ∅)
  | .neq => .ok (bsi.doRangeNEQ expect ∅)
  | .lt => .ok (bsi.doRangeLT expect false ∅)
  | .lte => .ok (bsi.doRangeLT expect true ∅)
  | .gt => .ok (bsi.doRangeGT expect false ∅)
  | .gte => .ok (bsi.doRangeGT expect true ∅)
  | _ => .error errInvalidOperator

def select (table : Bitmap) (op : FieldOperator) (arg : FieldArg) : Index → Except Int Bitmap
  | .set bitmaps => selectNamed table op arg fun s => get s bitmaps
  | .bool bitmap => selectBool table bitmap op arg
  | .weightSet bitmaps => selectNamed table op arg fun s => (get s bitmaps).map (·.bitmap)
  | .int bsi =>
    match arg with
    | .int v => selectRange bsi op (bsi.options.toLocalVal v)
    | _ => .error errInvalidArgs
  | .float bsi =>
    match arg with
    | .double v => selectRange bsi op (bsi.options.toLocalValFloat v.toFloat32.toBits)
    | .int v => selectRange bsi op (bsi.options.toLocalValFloat (Int64.ofInt v).toFloat32.toBits)
    | .str _ => .error errInvalidArgs

end Index

end Myctk.Robims
