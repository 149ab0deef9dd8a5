import Mathlib.Data.Nat.Bitwise
import Myctk.Lib.Bytes

/-! `b64_encode` and `b64_decode` (`cmod/common_types.cpp`), and a `Base64Value` as a member of a configuration. -/

namespace Myctk.Cmod
open List Lib Nat

def equals : UInt8 := 0x3D

/-- The `lookup` of `b64_encode`. -/
def encodeDigit (n : Nat) : UInt8 :=
  if n < 26 then .ofNat (0x41 + n) else if n < 52 then .ofNat (0x61 + (n - 26))
  else if n < 62 then .ofNat (0x30 + (n - 52)) else if n = 62 then 0x2B else 0x2F

/-- The `lookup` of `b64_decode`, where `0x80` marks what is no digit. -/
def decodeDigit (c : UInt8) : Nat :=
  if 0x41 ≤ c ∧ c ≤ 0x5A then c.toNat - 0x41 else if 0x61 ≤ c ∧ c ≤ 0x7A then c.toNat - 0x61 + 0x1A
  else if 0x30 ≤ c ∧ c ≤ 0x39 then c.toNat - 0x30 + 0x34 else if c = 0x2B then 0x3E else if c = 0x2F then 0x3F
  else if c = equals then 0 else 0x80

def digit (n shift : Nat) : UInt8 := encodeDigit ((n >>> shift) % 2 ^ 8 &&& 0x3F)

def encodeLoop : Bytes → Bytes
  | [] => []
  | [a] =>
    let n := a.toNat <<< 16
    [digit n 18, digit n 12]
  | [a, b] =>
    let n := a.toNat <<< 16 ||| b.toNat <<< 8
    [digit n 18, digit n 12, digit n 6]
  | a :: b :: c :: rest =>
    let n := a.toNat <<< 16 ||| b.toNat <<< 8 ||| c.toNat
    digit n 18 :: digit n 12 :: digit n 6 :: digit n 0 :: encodeLoop rest

def b64Encode (b : Bytes) : Bytes := encodeLoop b ++ replicate ((3 - b.length % 3) % 3) equals

def decodeLoop : Bytes → Except String Bytes
  | s0 :: s1 :: s2 :: s3 :: rest =>
    let n0 := decodeDigit s0
    let n1 := decodeDigit s1
    let n2 := decodeDigit s2
    let n3 := decodeDigit s3
    if 0x80 &&& (n0 ||| n1 ||| n2 ||| n3) ≠ 0 then .error "Invalid hex data "
    else
      let n := n0 <<< 18 ||| n1 <<< 12 ||| n2 <<< 6 ||| n3
      (decodeLoop rest).map fun r => .ofNat (n >>> 16) :: ((if s2 ≠ equals then [.ofNat (n >>> 8)] else []) ++
        ((if s3 ≠ equals then [.ofNat n] else []) ++ r))
  | _ => .ok []

def b64Decode (s : Bytes) : Except String Bytes :=
  if s.length % 4 ≠ 0 then .error "Invalid base64 data size" else decodeLoop s

lemma shiftLeft_or {x y k : Nat} (lt : y < 2 ^ k) : x <<< k ||| y = x * 2 ^ k + y := by
  rw [← shiftLeft_add_eq_or_of_lt lt, shiftLeft_eq]

lemma digit_eq (n shift : Nat) : digit n shift = encodeDigit (n / 2 ^ shift % 64) := by
  rw [digit, shiftRight_eq_div_pow, show 0x3F = 2 ^ 6 - 1 from rfl, and_two_pow_sub_one_eq_mod,
    mod_mod_of_dvd _ (by decide)]

lemma decodeDigit_encodeDigit : ∀ n < 64, decodeDigit (encodeDigit n) = n ∧ encodeDigit n ≠ equals := by
  decide

lemma decodeDigit_digit (n shift : Nat) : decodeDigit (digit n shift) = n / 2 ^ shift % 64 ∧ digit n shift ≠ equals := by
  rw [digit_eq]
  exact decodeDigit_encodeDigit _ (mod_lt _ (by decide))

/-- The digits of a group are put together again. -/
lemma join_digits {n : Nat} (lt : n < 2 ^ 24) :
    (n / 2 ^ 18 % 64) <<< 18 ||| (n / 2 ^ 12 % 64) <<< 12 ||| (n / 2 ^ 6 % 64) <<< 6 ||| n % 64 = n := by
  rw [Nat.or_assoc, Nat.or_assoc, shiftLeft_or (k := 6) (by omega), shiftLeft_or (k := 12) (by omega),
    shiftLeft_or (k := 18) (by omega)]
  omega

lemma no_mark {x y z w : Nat} (hx : x < 64) (hy : y < 64) (hz : z < 64) (hw : w < 64) : 0x80 &&& (x ||| y ||| z ||| w) = 0 := by
  have lt : x ||| y ||| z ||| w < 2 ^ 6 := or_lt_two_pow (or_lt_two_pow (or_lt_two_pow hx hy) hz) hw
  have clear : ∀ m < 64, 0x80 &&& m = 0 := by decide
  exact clear _ lt

/-- A group as it is read: the low digits are there, or are padding for digits that are zero. -/
lemma decodeLoop_group (n : Nat) (s2 s3 : UInt8) (lt : n < 2 ^ 24) (two : decodeDigit s2 = n / 2 ^ 6 % 64)
    (three : decodeDigit s3 = n % 64) (rest : Bytes) :
    decodeLoop (digit n 18 :: digit n 12 :: s2 :: s3 :: rest) = (decodeLoop rest).map fun r => .ofNat (n / 2 ^ 16) ::
      ((if s2 ≠ equals then [.ofNat (n / 2 ^ 8)] else []) ++ ((if s3 ≠ equals then [.ofNat n] else []) ++ r)) := by
  have bound : ∀ m, m % 64 < 64 := fun m => mod_lt m (by decide)
  simp only [decodeLoop, (decodeDigit_digit n _).1, two, three]
  rw [no_mark (bound _) (bound _) (bound _) (bound _), if_neg (not_not.mpr rfl), join_digits lt,
    shiftRight_eq_div_pow, shiftRight_eq_div_pow]

lemma ofNat_toNat_add (a : UInt8) (m : Nat) : UInt8.ofNat (m * 2 ^ 8 + a.toNat) = a := by
  rw [← UInt8.toNat_inj, UInt8.toNat_ofNat', mul_add_mod_of_lt]
  exact a.toNat_lt

lemma decodeLoop_encodeLoop (b : Bytes) : decodeLoop (encodeLoop b ++ replicate ((3 - b.length % 3) % 3) equals) = .ok b := by
  fun_induction encodeLoop b with
  | case1 => rfl
  | case2 a n =>
    have less := a.toNat_lt
    have eq : n = a.toNat * 2 ^ 16 := shiftLeft_eq _ _
    show decodeLoop [digit n 18, digit n 12, equals, equals] = _
    rw [decodeLoop_group n equals equals (by omega) (show 0 = _ by omega) (show 0 = _ by omega)]
    have first : n / 2 ^ 16 = 0 * 2 ^ 8 + a.toNat := by omega
    rw [first, ofNat_toNat_add]
    rfl
  | case3 a b n =>
    have less := a.toNat_lt
    have less' := b.toNat_lt
    have eq : n = a.toNat * 2 ^ 16 + b.toNat * 2 ^ 8 := by
      show _ ||| _ = _
      rw [shiftLeft_eq b.toNat, shiftLeft_or (by omega)]
    show decodeLoop [digit n 18, digit n 12, digit n 6, equals] = _
    rw [decodeLoop_group n (digit n 6) equals (by omega) (decodeDigit_digit n 6).1 (show 0 = _ by omega), if_pos (decodeDigit_digit n 6).2]
    have first : n / 2 ^ 16 = 0 * 2 ^ 8 + a.toNat := by omega
    have second : n / 2 ^ 8 = a.toNat * 2 ^ 8 + b.toNat := by omega
    rw [first, second, ofNat_toNat_add, ofNat_toNat_add]
    rfl
  | case4 a b c rest n ih =>
    have less := a.toNat_lt
    have less' := b.toNat_lt
    have less'' := c.toNat_lt
    have eq : n = (a.toNat * 2 ^ 8 + b.toNat) * 2 ^ 8 + c.toNat := by
      show _ ||| _ ||| _ = _
      rw [Nat.or_assoc, shiftLeft_or (k := 8) (by omega), shiftLeft_or (k := 16) (by omega)]
      omega
    have three : decodeDigit (digit n 0) = n % 64 := by rw [(decodeDigit_digit n 0).1, Nat.pow_zero, Nat.div_one]
    rw [show (a :: b :: c :: rest).length % 3 = rest.length % 3 from add_mod_right _ 3, cons_append, cons_append,
      cons_append, cons_append, decodeLoop_group n _ _ (by omega) (decodeDigit_digit n 6).1 three, ih,
      if_pos (decodeDigit_digit n 6).2, if_pos (decodeDigit_digit n 0).2]
    have first : n / 2 ^ 16 = 0 * 2 ^ 8 + a.toNat := by omega
    have second : n / 2 ^ 8 = a.toNat * 2 ^ 8 + b.toNat := by omega
    rw [first, second, eq, ofNat_toNat_add, ofNat_toNat_add, ofNat_toNat_add]
    rfl

lemma length_encodeLoop (b : Bytes) : (encodeLoop b).length + (3 - b.length % 3) % 3 = 4 * ((b.length + 2) / 3) := by
  fun_induction encodeLoop b with
  | case1 => rfl
  | case2 | case3 => simp
  | case4 a b c rest n ih =>
    simp only [length_cons]
    omega

lemma mem_encodeLoop (b : Bytes) : ∀ c ∈ encodeLoop b, ∃ n < 64, encodeDigit n = c := by
  have each : ∀ n shift, ∃ m < 64, encodeDigit m = digit n shift := fun n shift =>
    ⟨_, mod_lt _ (by decide), (digit_eq n shift).symm⟩
  fun_induction encodeLoop b <;> simp_all

theorem b64Encode_canonical (b : Bytes) :
    b64Decode (b64Encode b) = .ok b ∧ (b64Encode b).length = 4 * ((b.length + 2) / 3) ∧
      (∃ digits, (∀ c ∈ digits, ∃ n < 64, encodeDigit n = c) ∧
        b64Encode b = digits ++ replicate ((3 - b.length % 3) % 3) equals) ∧
      ∀ b', b64Encode b' = b64Encode b → b' = b := by
  have length : ∀ b, (b64Encode b).length = 4 * ((b.length + 2) / 3) := by
    intro b
    rw [b64Encode, length_append, length_replicate, length_encodeLoop]
  have back : ∀ b, b64Decode (b64Encode b) = .ok b := by
    intro b
    rw [b64Decode, length, mul_mod_right, if_neg (not_not.mpr rfl), b64Encode, decodeLoop_encodeLoop]
  refine ⟨back b, length b, ⟨_, mem_encodeLoop b, rfl⟩, fun b' same => ?_⟩
  have read := back b'
  rw [same, back b] at read
  exact (Except.ok.inj read).symm

/-- `rapidjson::Value`. -/
inductive Json where
  | null
  | bool (b : Bool)
  | number (v : Float)
  | string (s : Bytes)
  /-- A string value that points to memory which is gone. -/
  | freed (length : Nat)
  | array (values : List Json)
  | object (members : List (Bytes × Json))

def Json.isObject : Json → Bool
  | object _ => true
  | _ => false

def getJsonFiledValue (json : Json) (name : Bytes) : Option Json :=
  if name = [] then some json
  else match json with
    | .object members => (members.find? (·.1 = name)).map (·.2)
    | _ => none

/-- The name is `none` for `NULL`; without a result an assertion of `rapidjson` on the kind of value fails. -/
def addJsonMember (json : Json) (name : Option Bytes) (value : Json) : Option Json :=
  match name, json with
  | none, _ => some value
  | some [], .array values => some (.array (values ++ [value]))
  | some (c :: cs), .object members => some (.object (members ++ [(c :: cs, value)]))
  | _, _ => none

namespace Base64Value

/-- An exception, or memory that is gone is read. -/
inductive Fault where
  | thrown (what : String)
  | freed

/-- The answer, and the value after it. -/
def praseFromJson (v : Bytes) : Json → Except Fault (Bool × Bytes)
  | .string s => ((b64Decode s).mapError .thrown).map (true, ·)
  | .freed _ => .error .freed
  | _ => .ok (false, v)

/-- `SetString` keeps the pointer to the text, which is a local of the function. -/
def writeToJson (v : Bytes) : Json := .freed (b64Encode v).length

/-- `kcfg::Parse` of a member (`config/kcfg_json.h`). -/
def parse (json : Json) (name v : Bytes) : Except Fault (Bool × Bytes) :=
  match getJsonFiledValue json name with
  | none => .ok (false, v)
  | some value => if value.isObject then praseFromJson v value else .ok (false, v)

/-- `kcfg::Serialize` of a member. -/
def serialize (json : Json) (name : Option Bytes) (v : Bytes) : Option Json := addJsonMember json name (writeToJson v)

end Base64Value

/-- Digits, with padding signs only in the last two positions. -/
def Json.IsBase64 : Json → Prop
  | string s => s.length % 4 = 0 ∧ ∃ digits k, s = digits ++ replicate k equals ∧ k ≤ 2 ∧
    ∀ c ∈ digits, ∃ n < 64, encodeDigit n = c
  | _ => False

/-- `Parse` asks for an object and `PraseFromJson` for a string, so that no value is taken. -/
lemma Base64Value.parse_eq (json : Json) (name v : Bytes) : parse json name v = .ok (false, v) := by
  rw [parse]
  cases getJsonFiledValue json name with
  | none => rfl
  | some value => cases value <;> rfl

/-- No member is restored, whatever stood in it and in the document before; and what is no base64 text is refused. -/
theorem base64Value_never_restored (json : Json) (name b v : Bytes) :
    (¬ ∃ doc, Base64Value.serialize json (some name) b = some doc ∧ Base64Value.parse doc name v = .ok (true, b)) ∧
      ∀ value : Json, ¬ value.IsBase64 → Base64Value.parse (.object [(name, value)]) name v = .ok (false, v) := by
  refine ⟨?_, fun value _ => Base64Value.parse_eq ..⟩
  rintro ⟨doc, -, done⟩
  rw [Base64Value.parse_eq] at done
  cases done

theorem base64Value_not_restored : ∃ doc,
    Base64Value.serialize (.object []) (some [0x6B]) [1, 2, 3] = some doc ∧ Base64Value.parse doc [0x6B] [] = .ok (false, []) :=
  ⟨_, rfl, rfl⟩

/-! `DataImageBuilder::BatchBuild` (`cmod/cmod_util.hpp`). -/

/-- The image with its table, and the entries. Where an image has no result, `std::bad_alloc` is thrown: its space is used up. -/
structure ImageLib (τ ε : Type) where
  empty : τ
  reserve : Nat → τ → Option τ
  parseFromJsonString : Bytes → Option ε
  /-- What the reading of a line takes from the space. -/
  read : Bytes → τ → Option τ
  insert : τ → ε → Option τ
  /-- The error of `MMapBuf::OpenWrite`. -/
  openWrite : Bytes → Int → Option String
  createAllocator : Int → Bool

structure DataImageBuildOptions where
  maxImageSize : Int := 10 * 1024 * 1024 * 1024
  dstFile : Bytes := []
  hasDstBuf : Bool := false
  dstBufSize : Int := 0
  reserveSize : Nat := 0

structure CMODFile where
  file : Bytes
  fileSize : Int := -1

inductive BuildResult (τ : Type) where
  | failed (err : String)
  /-- A member of the table that is `NULL` is called. -/
  | crashed
  /-- `std::bad_alloc` leaves the function. -/
  | threw
  | built (table : Option τ)

section
variable {τ ε : Type} (lib : ImageLib τ ε)

/-- The root table, or `NULL`. -/
def CMOD.loadRootWriteObject (size : Int) : Option τ := if lib.createAllocator size then some lib.empty else none

def CMODFile.loadRootWriteObject (f : CMODFile) : Except String (Option τ) :=
  if f.fileSize ≤ 0 then .error "MMap File size too small or negative."
  else match lib.openWrite f.file f.fileSize with
    | some err => .error err
    | none => .ok (CMOD.loadRootWriteObject lib f.fileSize)

def insertLine (t : τ) (line : Bytes) : Option τ :=
  (lib.read line t).bind fun t => match lib.parseFromJsonString line with
    | none => some t
    | some entry => lib.insert t entry

def insertLines : Option τ → List Bytes → BuildResult τ
  | table, [] => .built table
  | some t, line :: lines =>
    if line = [] then insertLines (some t) lines
    else match insertLine lib t line with
      | none => .threw
      | some t => insertLines (some t) lines
  | none, line :: lines =>
    if line = [] ∨ (lib.parseFromJsonString line).isNone then insertLines none lines else .crashed

/-- The lines of the source, where it can be opened. -/
def batchBuild (source : Option (List Bytes)) (o : DataImageBuildOptions) : BuildResult τ :=
  match source with
  | none => .failed "Open source file failed."
  | some lines =>
    if o.hasDstBuf = false ∧ o.dstFile = [] then .failed "No dst file or buf specified."
    else
      let table := if o.dstFile ≠ [] then ((CMODFile.mk o.dstFile (-1)).loadRootWriteObject lib).toOption.join
        else CMOD.loadRootWriteObject lib o.dstBufSize
      if 0 < o.reserveSize then
        match table with
        | some t => match lib.reserve o.reserveSize t with
          | none => .threw
          | some t => insertLines lib (some t) lines
        | none => .crashed
      else insertLines lib table lines

/-- The table that the lines make, if the space is enough for it. -/
def lineTable (o : DataImageBuildOptions) (lines : List Bytes) : Option τ :=
  (if 0 < o.reserveSize then lib.reserve o.reserveSize lib.empty else some lib.empty).bind fun t =>
    (lines.filter (· ≠ [])).foldlM (insertLine lib) t

lemma insertLines_none (t : τ) (lines : List Bytes) : insertLines lib none lines ≠ .built (some t) := by
  induction lines with
  | nil => simp [insertLines]
  | cons line lines ih =>
    rw [insertLines]
    split
    · exact ih
    · simp

lemma insertLines_some {t t' : τ} {lines : List Bytes} :
    insertLines lib (some t) lines = .built (some t') ↔ (lines.filter (· ≠ [])).foldlM (insertLine lib) t = some t' := by
  induction lines generalizing t with
  | nil => simp [insertLines]
  | cons line lines ih =>
    by_cases blank : line = []
    · simpa [insertLines, blank] using ih
    · cases inserted : insertLine lib t line with
      | none => simp [insertLines, blank, inserted]
      | some t => simpa [insertLines, blank, inserted] using ih

/-- The table of the lines is built in a buffer that has the space for it, and nowhere else. -/
theorem batchBuild_table_iff (lines : List Bytes) (o : DataImageBuildOptions) (t : τ) :
    batchBuild lib (some lines) o = .built (some t) ↔
      o.dstFile = [] ∧ o.hasDstBuf = true ∧ lib.createAllocator o.dstBufSize = true ∧ lineTable lib o lines = some t := by
  by_cases file : o.dstFile = []
  · cases buffer : o.hasDstBuf <;> cases room : lib.createAllocator o.dstBufSize <;> by_cases reserve : 0 < o.reserveSize <;>
      simp [batchBuild, CMOD.loadRootWriteObject, lineTable, insertLines_none, insertLines_some, file, buffer, room, reserve]
    cases lib.reserve o.reserveSize lib.empty with
    | none => simp
    | some t => simp [insertLines_some]
  · -- the file is opened with the size -1 and gives no table
    by_cases reserve : 0 < o.reserveSize <;>
      simp [batchBuild, CMODFile.loadRootWriteObject, insertLines_none, file, reserve, Except.toOption]

/-- The file is opened without `max_image_size`, and its size is then negative. -/
theorem batchBuild_file_never (lib : ImageLib τ ε) (lines : List Bytes) (o : DataImageBuildOptions) (file : o.dstFile ≠ []) (t : τ) :
    batchBuild lib (some lines) o ≠ .built (some t) := by
  have null : ((CMODFile.mk o.dstFile (-1)).loadRootWriteObject lib).toOption.join = none := rfl
  simp only [batchBuild, file, and_false, if_false, ne_eq, not_false_eq_true, if_true, null]
  by_cases reserve : 0 < o.reserveSize
  · simp [reserve]
  · simpa [reserve] using insertLines_none lib _ lines

end

/-- A table that is the list of its entries, and every line is one. -/
def lineLib : ImageLib (List Bytes) Bytes where
  empty := []
  reserve _ t := some t
  parseFromJsonString := some
  read _ t := some t
  insert t e := some (t ++ [e])
  openWrite _ _ := none
  createAllocator _ := true

theorem batchBuild_file_never_line :
    batchBuild lineLib (some [[0x7B, 0x7D]]) { dstFile := [0x64] } ≠ .built (some [[0x7B, 0x7D]]) :=
  batchBuild_file_never lineLib [[0x7B, 0x7D]] { dstFile := [0x64] } (by decide) _

theorem batchBuild_file_crashes :
    batchBuild lineLib (some [[0x7B, 0x7D]]) { dstFile := [0x64] } = .crashed ∧
      lineTable lineLib { dstFile := [0x64] } [[0x7B, 0x7D]] = some [[0x7B, 0x7D]] := ⟨rfl, rfl⟩

end Myctk.Cmod
