import Mathlib.Tactic

/-! Fixed-width integers in bytes, as a file or a message holds them. -/

namespace Myctk.Lib
open List Nat

abbrev Bytes := List UInt8

/-- The low `k` bytes of `n`, most significant byte first. -/
def beBytes : Nat → Nat → Bytes
  | 0, _ => []
  | k + 1, n => beBytes k (n / 256) ++ [UInt8.ofNat n]

def beNat (b : Bytes) : Nat := b.foldl (fun acc x => acc * 256 + x.toNat) 0

variable (k : Nat) (b : Bytes) (n : Nat)

@[simp] lemma length_beBytes : (beBytes k n).length = k := by
  induction k generalizing n with
  | zero => rfl
  | succ k ih => simp [beBytes, ih]

lemma beNat_concat (x : UInt8) : beNat (b ++ [x]) = beNat b * 256 + x.toNat := by
  simp [beNat]

lemma beNat_beBytes_mod : beNat (beBytes k n) = n % 256 ^ k := by
  induction k generalizing n with
  | zero => simp [beBytes, beNat, mod_one]
  | succ k ih =>
    have hx : (UInt8.ofNat n).toNat = n % 256 := rfl
    rw [beBytes, beNat_concat, ih, hx, pow_succ, mul_comm (256 ^ k) 256, mod_mul]
    ring

lemma beNat_beBytes {k n : Nat} (h : n < 256 ^ k) : beNat (beBytes k n) = n := by
  rw [beNat_beBytes_mod, mod_eq_of_lt h]

def leBytes (k n : Nat) : Bytes := (beBytes k n).reverse

def leNat (b : Bytes) : Nat := beNat b.reverse

@[simp] lemma length_leBytes : (leBytes k n).length = k := by
  simp [leBytes]

lemma leNat_leBytes_mod : leNat (leBytes k n) = n % 256 ^ k := by
  rw [leNat, leBytes, reverse_reverse, beNat_beBytes_mod]

lemma leNat_leBytes {k n : Nat} (fits : n < 256 ^ k) : leNat (leBytes k n) = n := by
  rw [leNat_leBytes_mod, mod_eq_of_lt fits]

lemma leNat_lt : leNat b < 256 ^ b.length := by
  induction b with
  | nil => decide
  | cons x b ih =>
    have byte := x.toNat_lt
    rw [leNat] at ih
    rw [leNat, reverse_cons, beNat_concat, length_cons, pow_succ]
    omega

lemma beNat_lt : beNat b < 256 ^ b.length := by
  have bound := leNat_lt b.reverse
  rwa [leNat, reverse_reverse, length_reverse] at bound

end Myctk.Lib
