import Mathlib.Tactic

/-! The integer types of fixed width. -/

namespace Myctk.Lib

inductive IntType where
  | int8 | uint8 | int16 | uint16 | int32 | uint32 | int64 | uint64
  deriving DecidableEq

namespace IntType

def signed : IntType → Bool
  | int8 | int16 | int32 | int64 => true
  | _ => false

def bytes : IntType → Nat
  | int8 | uint8 => 1
  | int16 | uint16 => 2
  | int32 | uint32 => 4
  | int64 | uint64 => 8

def width (t : IntType) : Nat := 8 * t.bytes

def min (t : IntType) : Int := if t.signed then -2 ^ (t.width - 1) else 0

def max (t : IntType) : Int := if t.signed then 2 ^ (t.width - 1) - 1 else 2 ^ t.width - 1

def Fits (t : IntType) (n : Int) : Prop := t.min ≤ n ∧ n ≤ t.max

instance instDecidableFits (t : IntType) (n : Int) : Decidable (t.Fits n) := inferInstanceAs (Decidable (_ ∧ _))

/-- The conversion of C++ to the type: the remainder modulo a power of two. -/
def cast (t : IntType) (n : Int) : Int := if t.signed then n.bmod (2 ^ t.width) else n % 2 ^ t.width

lemma cast_of_fits {t : IntType} {n : Int} (fits : t.Fits n) : t.cast n = n := by
  obtain ⟨lower, upper⟩ := fits
  cases t <;> simp_all [cast, min, max, signed, width, bytes, Int.bmod] <;> omega

end IntType

end Myctk.Lib
