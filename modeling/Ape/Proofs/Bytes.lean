import Ape.Model.Types

/-!
# `Ape.Proofs.Bytes`: little-endian words

`leBytes` writes a value as little-endian bytes and `leNat` reads them back. The bytes of a value
that fits are read back as it is.
-/

set_option autoImplicit false

namespace Ape

/-- A number in `k` bytes has `k` bytes. -/
@[simp] theorem length_leBytes (k n : Nat) : (leBytes k n).length = k := by
  induction k generalizing n with
  | zero => rfl
  | succ k ih => rw [leBytes, List.length_cons, ih]

/-- A number that is written in `k` bytes is read back, as far as it fits. -/
theorem leNat_leBytes (k n : Nat) : leNat (leBytes k n) = n % 256 ^ k := by
  induction k generalizing n with
  | zero => rw [leBytes, leNat, pow_zero, Nat.mod_one]
  | succ k ih =>
    have hbyte : (UInt8.ofNat (n % 256)).toNat = n % 256 :=
      Nat.mod_eq_of_lt (Nat.mod_lt n (by decide))
    rw [leBytes, leNat, ih, hbyte, pow_succ', Nat.mod_mul]

/-- What is read from bytes fits in them. -/
theorem leNat_lt (bs : List UInt8) : leNat bs < 256 ^ bs.length := by
  induction bs with
  | nil => decide
  | cons b bs ih =>
    have hb : b.toNat < 256 := b.toNat_lt
    rw [leNat, List.length_cons, pow_succ]
    omega

/-- A value that fits is read back. -/
theorem leNat_leBytes_of_lt {k n : Nat} (h : n < 256 ^ k) : leNat (leBytes k n) = n := by
  rw [leNat_leBytes, Nat.mod_eq_of_lt h]

end Ape
