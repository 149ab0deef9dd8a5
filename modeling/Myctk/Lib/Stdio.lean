import Myctk.Lib.Stream

/-! Items of bytes in a file, as `fwrite` and `fread` of one item write and read them. -/

namespace Myctk.Lib.Stdio

open List Myctk.Lib.Stream

variable {ε : Type}

def fwrite (item : Bytes) : Option Bytes := if item = [] then none else some item

def fread (eof empty : ε) (size : Nat) : Reader ε Bytes := ExceptT.mk fun b =>
  if size = 0 then (.error empty, b)
  else if b.length < size then (.error eof, [])
  else (.ok (b.take size), b.drop size)

lemma isSome_fwrite {item : Bytes} : (fwrite item).isSome ↔ item ≠ [] := by
  rw [fwrite]
  split
  case isTrue empty => simp [empty]
  case isFalse other => simp [other]

lemma reads_item (eof empty : ε) (item : Bytes) : Reads (fwrite item) (fread eof empty item.length) item := by
  intro b eq rest
  rw [fwrite] at eq
  split at eq
  case isTrue => cases eq
  case isFalse other =>
    cases eq
    have pos : item.length ≠ 0 := fun zero => other (length_eq_zero_iff.mp zero)
    have enough : ¬ (item ++ rest).length < item.length := by rw [length_append]; omega
    show (if item.length = 0 then _ else if (item ++ rest).length < item.length then _ else _) = _
    rw [if_neg pos, if_neg enough, take_left, drop_left]

def writeUint32 (n : Nat) : Option Bytes := fwrite (beBytes 4 n)

def readUint32 (eof empty : ε) : Reader ε Nat := do return beNat (← fread eof empty 4)

def writeString (s : Bytes) : Option Bytes := andThen (writeUint32 s.length) (fwrite s)

def readString (eof empty : ε) : Reader ε Bytes := do fread eof empty (← readUint32 eof empty)

lemma isSome_writeUint32 (n : Nat) : (writeUint32 n).isSome :=
  isSome_fwrite.mpr fun empty => by simpa using congrArg length empty

lemma reads_uint32 (eof empty : ε) {n : Nat} (fits : n < 2 ^ 32) : Reads (writeUint32 n) (readUint32 eof empty) n := by
  have item := reads_item eof empty (beBytes 4 n)
  rw [length_beBytes] at item
  refine item.then fun b => ?_
  rw [beNat_beBytes fits]
  rfl

lemma isSome_writeString {s : Bytes} : (writeString s).isSome ↔ s ≠ [] := by
  rw [writeString, isSome_andThen, isSome_fwrite]
  exact and_iff_right (isSome_writeUint32 _)

lemma reads_string (eof empty : ε) {s : Bytes} (fits : s.length < 2 ^ 32) : Reads (writeString s) (readString eof empty) s :=
  (reads_uint32 eof empty fits).bind (reads_item eof empty s)

lemma writeString_ne_nil {s b : Bytes} (wrote : writeString s = some b) : b ≠ [] := by
  obtain ⟨b1, b2, number, -, rfl⟩ := Stream.andThen_eq_some.mp wrote
  rw [writeUint32, fwrite] at number
  split at number
  case isTrue => cases number
  case isFalse other =>
    cases number
    exact fun empty => other (append_eq_nil_iff.mp empty).1

end Myctk.Lib.Stdio
