import Mathlib.Tactic

/-! Types of messages that are countable. -/

namespace Myctk.Lib
open Function

instance countable_char : Countable Char := Injective.countable fun _ _ => Char.toNat_inj.mp

instance countable_string : Countable String := Injective.countable fun _ _ => String.toList_injective

instance countable_float : Countable Float := by
  refine Injective.countable (fun a b same => ?_ : Injective fun x : Float => x.toModel.toBits.toNat)
  obtain ⟨⟨a, _⟩⟩ := a
  obtain ⟨⟨b, _⟩⟩ := b
  obtain rfl : a = b := UInt64.toNat_inj.mp same
  rfl

instance countable_uint8 : Countable UInt8 :=
  Injective.countable (fun _ _ same => UInt8.toNat_inj.mp same : Injective UInt8.toNat)

instance countable_uint32 : Countable UInt32 :=
  Injective.countable (fun _ _ same => UInt32.toNat_inj.mp same : Injective UInt32.toNat)

instance countable_int32 : Countable Int32 :=
  Injective.countable (fun _ _ same => Int32.toInt_inj.mp same : Injective Int32.toInt)

end Myctk.Lib
