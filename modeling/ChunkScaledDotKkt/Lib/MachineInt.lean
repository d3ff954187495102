import Mathlib.Data.Int.Notation
import Mathlib.Data.Nat.Notation

/-!
# Narrow machine integers as residues of `ℤ`

A cast to a narrow type keeps the residue: `i32` is two's-complement, `u8`, `u16`
and `u32` are non-negative.  The definitions use literals so that `omega` decides
the side conditions of the range lemmas.
-/

namespace MachineInt

/-- Two's-complement wrap to 32 bits. -/
def i32 (x : ℤ) : ℤ := (x + 2147483648) % 4294967296 - 2147483648

/-- Cast to an unsigned 8-bit field. -/
def u8 (x : ℤ) : ℤ := x % 256

/-- Cast to an unsigned 16-bit field. -/
def u16 (x : ℤ) : ℤ := x % 65536

/-- Cast to an unsigned 32-bit field. -/
def u32 (x : ℤ) : ℤ := x % 4294967296

/-- Cast to an unsigned 64-bit size. -/
def u64 (x : ℤ) : ℤ := x % 18446744073709551616

theorem i32_eq_self {x : ℤ} (hlo : -2147483648 ≤ x) (hhi : x < 2147483648) : i32 x = x := by
  unfold i32
  omega

theorem i32_lt (x : ℤ) : i32 x < 2147483648 := by
  unfold i32
  omega

theorem le_i32 (x : ℤ) : -2147483648 ≤ i32 x := by
  unfold i32
  omega

/-- A difference of two 32-bit values wraps at most once. -/
theorem i32_cases {x : ℤ} (hlo : -4294967296 < x) (hhi : x < 4294967296) :
    i32 x = x ∨ (i32 x = x + 4294967296 ∧ x < -2147483648) ∨
      (i32 x = x - 4294967296 ∧ 2147483648 ≤ x) := by
  unfold i32
  omega

theorem u16_eq_self_iff {x : ℤ} (hx : 0 ≤ x) : u16 x = x ↔ x < 65536 := by
  unfold u16
  omega

theorem u16_eq_self {x : ℤ} (hx : 0 ≤ x) (hlt : x < 65536) : u16 x = x :=
  (u16_eq_self_iff hx).mpr hlt

theorem u16_nonneg (x : ℤ) : 0 ≤ u16 x := by
  unfold u16
  omega

theorem u16_le {x : ℤ} (hx : 0 ≤ x) : u16 x ≤ x := by
  unfold u16
  omega

theorem u32_eq_self {x : ℤ} (hx : 0 ≤ x) (hlt : x < 4294967296) : u32 x = x := by
  unfold u32
  omega

end MachineInt
