import Myctk.Lib.IntType

/-! How an integer of a JSON or TOML document is narrowed to the type of the field it is read into. -/

namespace Myctk.Config

open Lib IntType

/-- `IsUint64` with `GetUint64`, and `IsInt64` with `GetInt64`: an integer that no 64-bit type holds is read as a double. -/
def Json.getInteger (t : IntType) (n : Int) : Option Int := if t.Fits n then some n else none

/-- The narrower types check an integer of 64 bits against the upper bound, the signed ones also against the lower. -/
def narrow (t : IntType) (vv : Int) : Option Int :=
  if t.max < vv ∨ t.signed ∧ vv < t.min then none else some (t.cast vv)

namespace Json

def parse : IntType → Int → Option Int
  | uint64, n => getInteger uint64 n
  | int64, n => getInteger int64 n
  | int32, n => (getInteger int64 n).bind (narrow int32)
  | uint32, n => (getInteger uint64 n).bind (narrow uint32)
  | int16, n => (getInteger int64 n).bind (narrow int16)
  | uint16, n => (getInteger uint64 n).bind (narrow uint16)
  | int8, n => (getInteger int64 n).bind (narrow int8)
  -- Through a signed integer, with the upper bound only.
  | uint8, n => (getInteger int64 n).bind (narrow uint8)

end Json

namespace Toml

/-- The integers of a TOML document are of type `std::int64_t`. -/
def parse (t : IntType) (n : Int) : Option Int :=
  match t with
  | uint64 => some (uint64.cast n)
  | int64 => some n
  | int32 => some (int32.cast n)
  | uint32 => some (uint32.cast (uint64.cast n))
  | int16 => narrow int16 n
  | uint16 => narrow uint16 (uint64.cast n)
  | int8 => narrow int8 n
  | uint8 => narrow uint8 n

end Toml

inductive Format where
  | json | toml
  deriving DecidableEq

/-- The integers a document of the format can hold. -/
def Format.Holds : Format → Int → Prop
  | json, _ => True
  | toml, n => int64.Fits n

def Format.parse : Format → IntType → Int → Option Int
  | json => Json.parse
  | toml => Toml.parse

/-- What the reader must not be given: a negative integer for an unsigned byte, and in TOML also one for the widest
    unsigned type and any out of range for the 32-bit types. -/
def Format.Unchecked : Format → IntType → Int → Prop
  | json, uint8, n => int64.min ≤ n ∧ n < 0
  | toml, uint8, n | toml, uint64, n => n < 0
  | toml, int32, n => n < int32.min ∨ int32.max < n
  | toml, uint32, n => n < uint32.min ∨ uint32.max < n
  | _, _, _ => False

/-- An unsigned type lets a negative integer pass. -/
lemma narrow_eq_iff {t : IntType} {n : Int} : narrow t n = (if t.Fits n then some n else none) ↔ t.signed ∨ t.min ≤ n := by
  have ordered : t.min ≤ t.max := by cases t <;> decide
  unfold narrow
  by_cases fits : t.Fits n
  · obtain ⟨lower, upper⟩ := id fits
    simp [fits, cast_of_fits fits, lower, upper, not_lt]
  · grind [Fits]

lemma Json.bind_narrow_iff {t wide : IntType} {n : Int} (lower : wide.min ≤ t.min) (upper : t.max ≤ wide.max) :
    (getInteger wide n).bind (narrow t) = (if t.Fits n then some n else none) ↔ wide.Fits n → t.signed ∨ t.min ≤ n := by
  by_cases held : wide.Fits n
  · rw [getInteger, if_pos held, Option.bind_some, narrow_eq_iff, forall_prop_of_true held]
  · rw [getInteger, if_neg held, if_neg fun fits => held ⟨lower.trans fits.1, fits.2.trans upper⟩]
    simp [held]

lemma some_cast_eq_iff {t : IntType} {n : Int} : some (t.cast n) = (if t.Fits n then some n else none) ↔ t.Fits n := by
  by_cases fits : t.Fits n
  · simp [fits, cast_of_fits fits]
  · simp [fits]

theorem parse_eq_iff (format : Format) (t : IntType) (n : Int) (held : format.Holds n) :
    format.parse t n = (if t.Fits n then some n else none) ↔ ¬format.Unchecked t n := by
  have bounds : int64.min = -2 ^ 63 ∧ int64.max = 2 ^ 63 - 1 ∧ uint64.min = 0 ∧ uint64.max = 2 ^ 64 - 1 ∧ uint8.min = 0 ∧
    uint16.min = 0 ∧ uint32.min = 0 := by decide
  cases format with
  | json =>
    cases t
    case int64 | uint64 => exact iff_of_true rfl id
    all_goals
      refine (Json.bind_narrow_iff (by decide) (by decide)).trans ?_
      grind [signed, Fits, Format.Unchecked]
  | toml =>
    obtain ⟨below, above⟩ := held
    cases t
    case int64 => exact iff_of_true (if_pos ⟨below, above⟩).symm id
    case int8 | int16 | uint8 =>
      refine narrow_eq_iff.trans ?_
      grind [signed, Format.Unchecked]
    case int32 | uint64 =>
      refine some_cast_eq_iff.trans ?_
      simp only [Fits, Format.Unchecked]
      omega
    case uint32 =>
      have twice : uint32.cast (uint64.cast n) = uint32.cast n := Int.emod_emod_of_dvd n (by decide)
      show some (uint32.cast (uint64.cast n)) = _ ↔ _
      rw [twice, some_cast_eq_iff]
      simp only [Fits, Format.Unchecked]
      omega
    case uint16 =>
      refine iff_of_true ?_ id
      show narrow uint16 (uint64.cast n) = _
      by_cases negative : n < 0
      · have large : uint16.max < uint64.cast n := by
          simp [IntType.cast, IntType.max, signed, width, bytes]
          omega
        rw [narrow, if_pos (.inl large), if_neg fun fits => absurd fits.1 (not_le.mpr negative)]
      · rw [cast_of_fits ⟨not_lt.mp negative, by omega⟩, narrow_eq_iff]
        exact .inr (not_lt.mp negative)

theorem parse_three_hundred : Format.toml.parse .uint16 300 = some 300 := by
  have := (parse_eq_iff .toml .uint16 300 (show int64.Fits 300 by decide)).mpr id
  simpa [Fits, IntType.min, IntType.max, signed, width, bytes] using this

theorem parse_minus_one : ¬uint8.Fits (-1) ∧ Format.json.parse .uint8 (-1) = some 255 := by decide

end Myctk.Config
