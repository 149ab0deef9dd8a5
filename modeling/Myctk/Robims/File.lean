import Myctk.Lib.Stdio
import Myctk.Robims.TableRun

/-! Files of a database (`robims/robims_common.cpp`, `Save` and `Load` of the fields, the tables and the mapping of ids). -/

namespace Myctk.Robims

open Lib.Assoc Lib Lib.Stream UInt32
open Lib.Stdio (fwrite)

structure DBHeader where
  version : Int32
  readonly : Bool
  wholeDb : Bool
  partialTables : List Text

structure Formats where
  bitmap : Bool → Codec Bitmap
  info : Codec FieldMeta
  schema : Codec TableSchema
  header : Codec DBHeader

inductive LoadFailure where
  | code (rc : Int)
  | trap

abbrev FileReader := Reader LoadFailure

def fread : Nat → FileReader Bytes := Stdio.fread (.code (-1)) (.code (-1))

def fileWriteUint32 (n : Nat) : Option Bytes := fwrite (beBytes 4 n)

def fileReadUint32 : FileReader Nat := do return beNat (← fread 4)

def fileWriteString (s : Text) : Option Bytes := andThen (fileWriteUint32 s.length) (fwrite s)

def fileReadString : FileReader Text := do fread (← fileReadUint32)

def parseFrom {α : Type} (c : Codec α) (b : Bytes) : FileReader α :=
  match c.decode b with
  | some x => pure x
  | none => throw (.code (-1))

def iterate {α : Type} (P : Platform) (m : List (Text × α)) : List (Text × α) :=
  (P.order (m.map Prod.fst)).filterMap fun name => (get name m).map fun v => (name, v)

variable (P : Platform) (F : Formats) (readonly : Bool)

def Bitmap.save (s : Bitmap) : Option Bytes :=
  let image := (F.bitmap readonly).encode s
  andThen (fileWriteUint32 image.length) (andThen (fwrite [if readonly then 1 else 0]) (fwrite image))

def Bitmap.load : FileReader Bitmap := do
  let n ← fileReadUint32
  let flag ← fread 1
  let image ← fread n
  parseFrom (F.bitmap (flag != [0])) image

namespace Index

def saveNamed (entry : Text × Bitmap) : Option Bytes := andThen (fileWriteString entry.1) (Bitmap.save F readonly entry.2)

def loadNamed : FileReader (Text × Bitmap) := do
  let name ← fileReadString
  let s ← Bitmap.load F
  return (name, s)

def saveWeights (weightIds : Finset Nat) : Option Bytes :=
  andThen (fileWriteUint32 weightIds.card)
    (if weightIds.card = 0 then some [] else fwrite ((weightIds.sort (· ≥ ·)).flatMap (leBytes 8)))

def words : Nat → Bytes → List Nat
  | 0, _ => []
  | n + 1, b => leNat (b.take 8) :: words n (b.drop 8)

def loadWeights : FileReader (List Nat) := do
  let count ← fileReadUint32
  if count = 0 then return []
  return words count (← fread (count * 8))

def saveWeighted (entry : Text × WeightBitmap) : Option Bytes :=
  andThen (fileWriteString entry.1) (andThen (saveWeights entry.2.weightIds) (Bitmap.save F readonly entry.2.bitmap))

def weightOf (v : Nat) : UInt32 × UInt32 := (ofNat v, uint32ToFloat (ofNat (v / 2 ^ 32)))

def loadWeighted : FileReader (Text × WeightBitmap) := do
  let name ← fileReadString
  let weights ← loadWeights
  let bitmap ← Bitmap.load F
  let idWeights := weights.foldl (fun m v => alter (weightOf v).1 (fun _ => (weightOf v).2) m) []
  return (name, { weightIds := weights.toFinset, idWeights, bitmap })

def saveSlot : Option Bitmap → Option Bytes
  | none => none
  | some s => Bitmap.save F readonly s

/-- Each bitmap takes the place that `Init` made for it, and a new place is made at the end. -/
def loadSlots : Nat → List Bitmap → List (Option Bitmap) → List (Option Bitmap)
  | _, [], bitmaps => bitmaps
  | i, s :: slots, bitmaps => loadSlots (i + 1) slots ((bitmaps ++ [none]).set i (some s))

def saveBsi (b : BitSliceIndex) : Option Bytes :=
  andThen (fileWriteUint32 b.bitmaps.length) (each (saveSlot F readonly) b.bitmaps)

def loadBsi (b : BitSliceIndex) : FileReader BitSliceIndex := do
  let n ← fileReadUint32
  let slots ← many (Bitmap.load F) n
  return { b with bitmaps := loadSlots 0 slots b.bitmaps }

def enter {α : Type} (m entries : List (Text × α)) : List (Text × α) :=
  entries.foldl (fun m entry => alter entry.1 (fun _ => entry.2) m) m

def save : Index → Option Bytes
  | .set bitmaps => andThen (fileWriteUint32 bitmaps.length) (each (saveNamed F readonly) (iterate P bitmaps))
  | .bool bitmap => Bitmap.save F readonly bitmap
  | .weightSet bitmaps => andThen (fileWriteUint32 bitmaps.length) (each (saveWeighted F readonly) (iterate P bitmaps))
  | .int bsi => saveBsi F readonly bsi
  | .float bsi => saveBsi F readonly bsi

def load : Index → FileReader Index
  | .set bitmaps => do
    let n ← fileReadUint32
    return .set (enter bitmaps (← many (loadNamed F) n))
  | .bool _ => do return .bool (← Bitmap.load F)
  | .weightSet bitmaps => do
    let n ← fileReadUint32
    return .weightSet (enter bitmaps (← many (loadWeighted F) n))
  | .int bsi => do return .int (← loadBsi F bsi)
  | .float bsi => do return .float (← loadBsi F bsi)

end Index

def Field.save (f : Field) : Option Bytes := andThen (fileWriteString (F.info.encode f.info)) (f.index.save P F readonly)

def Field.load (f : Field) : FileReader Field := do
  let info ← parseFrom F.info (← fileReadString)
  return ⟨info, ← f.index.load F⟩

namespace Table

def saveField (t : Table) (info : FieldMeta) : Option Bytes := do
  let f ← get info.name t.fields
  f.save P F readonly

def save (t : Table) : Option Bytes :=
  andThen (fileWriteString (F.schema.encode t.schema))
    (andThen (Bitmap.save F readonly t.idBitmap) (each (t.saveField P F readonly) t.schema.indexField))

def loadFields : List FieldMeta → List (Text × Field) → FileReader (List (Text × Field))
  | [], fields => pure fields
  | info :: infos, fields =>
    match Field.build info with
    | none => throw .trap
    | some built => do
      let f ← built.load F
      loadFields infos (alter info.name (fun _ => f) fields)

def load : FileReader Table := do
  let schema ← parseFrom F.schema (← fileReadString)
  let idBitmap ← Bitmap.load F
  return { schema, idBitmap, fields := ← loadFields F schema.indexField [] }

end Table

structure IDMapping where
  idSeed : UInt32
  realLocal : List (Text × UInt32)
  localReal : List (UInt32 × Text)

namespace IDMapping

def empty : IDMapping := ⟨0, [], []⟩

def getLocalID (m : IDMapping) (id : Text) (createIfNotExist : Bool) : Option (UInt32 × IDMapping) :=
  match get id m.realLocal with
  | some localId => some (localId, m)
  | none =>
    if createIfNotExist then
      some (m.idSeed, { idSeed := m.idSeed + 1, realLocal := alter id (fun _ => m.idSeed) m.realLocal,
                        localReal := alter m.idSeed (fun _ => id) m.localReal })
    else none

def getID (m : IDMapping) (localId : UInt32) : Option Text := get localId m.localReal

def saveEntry (entry : Text × UInt32) : Option Bytes := andThen (fileWriteUint32 entry.2.toNat) (fileWriteString entry.1)

def loadEntry : FileReader (Text × UInt32) := do
  let localId ← fileReadUint32
  let realId ← fileReadString
  return (realId, ofNat localId)

def save (m : IDMapping) : Option Bytes :=
  andThen (fileWriteUint32 m.idSeed.toNat)
    (andThen (fileWriteUint32 m.realLocal.length) (each saveEntry (iterate P m.realLocal)))

def enter (m : IDMapping) (entry : Text × UInt32) : IDMapping :=
  { m with realLocal := alter entry.1 (fun _ => entry.2) m.realLocal,
           localReal := alter entry.2 (fun _ => entry.1) m.localReal }

def load (m : IDMapping) : FileReader IDMapping := do
  let idSeed ← fileReadUint32
  let n ← fileReadUint32
  let entries ← many loadEntry n
  return { entries.foldl enter m with idSeed := ofNat idSeed }

end IDMapping

end Myctk.Robims
