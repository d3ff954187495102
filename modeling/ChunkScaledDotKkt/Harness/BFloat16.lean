import ChunkScaledDotKkt.Harness.Inputs
import ChunkScaledDotKkt.Lib.FloatFormat

/-!
# The harness's bfloat16

Keys and betas are rounded from single precision by an addition to their bits, and widened
again for the expected values.  A 32-bit pattern has a sign, 8 bits of exponent and 23 of
fraction, of which a `bfloat16` keeps the upper 16.

## Main results

* `floatToBFloat16_spec` — finite values are rounded to nearest, ties to even, and overflow
  to infinity; which NaNs stay NaNs.
-/

namespace ChunkScaledDotKkt.Harness

open FloatFormat

/-- The value of a 32-bit pattern in units of the smallest positive one; infinity counts as
the value after the largest one. -/
def bitsValue (w : ℕ) : ℤ := signed (w / 0x80000000) (magnitude 23 (w % 0x80000000))

/-- The value of a `bfloat16`. -/
def bFloat16Value (h : ℕ) : ℤ := bitsValue (h * 0x10000)

theorem bFloat16Value_eq (h : ℕ) :
    bFloat16Value h = signed (h / 0x8000) (magnitude 23 (h % 0x8000 * 2 ^ 16)) := by
  have hsign : h * 0x10000 / 0x80000000 = h / 0x8000 := by omega
  have hrest : h * 0x10000 % 0x80000000 = h % 0x8000 * 2 ^ 16 := by omega
  rw [bFloat16Value, bitsValue, hsign, hrest]

/-- **Nearest among both signs**: rounding the magnitude is enough. -/
theorem nearest_of_sign {w r : ℕ} (hsign : r / 0x8000 = w / 0x80000000)
    (hround : r % 0x8000 = roundEven 16 (w % 0x80000000)) {h : ℕ} (hh : h < 0x10000)
    (hr : r < 0x10000) :
    |bFloat16Value r - bitsValue w| ≤ |bFloat16Value h - bitsValue w| ∧
      (|bFloat16Value r - bitsValue w| = |bFloat16Value h - bitsValue w| → h ≠ r → r % 2 = 0) := by
  have hparity : r % 2 = roundEven 16 (w % 0x80000000) % 2 := by omega
  simp only [bFloat16Value_eq, bitsValue, hround, hparity]
  rw [signed_sub_same (by rw [hsign])]
  by_cases hsame : h / 0x8000 = 0 ↔ w / 0x80000000 = 0
  · rw [signed_sub_same hsame]
    obtain ⟨hle, htie⟩ := roundEven_nearest (p := 23) (k := 16) (by decide) (by decide)
      (w % 0x80000000) (h % 0x8000)
    exact ⟨hle, fun heq hne => htie heq (by omega)⟩
  · -- the zero of the result's own sign is at least as near
    rw [signed_sub_other hsame]
    obtain ⟨hle, htie⟩ := roundEven_nearest (p := 23) (k := 16) (by decide) (by decide)
      (w % 0x80000000) 0
    have hzero : |(magnitude 23 (0 * 2 ^ 16) : ℤ) - magnitude 23 (w % 0x80000000)| =
        magnitude 23 (w % 0x80000000) := by
      have hmagnitude : magnitude 23 (0 * 2 ^ 16) = 0 := by decide
      rw [hmagnitude, Nat.cast_zero, zero_sub, abs_neg, Nat.abs_cast]
    rw [hzero] at hle htie
    have hpos : (0 : ℤ) ≤ magnitude 23 (h % 0x8000 * 2 ^ 16) := Int.natCast_nonneg _
    have hfar := le_add_of_nonneg_left (a := (magnitude 23 (w % 0x80000000) : ℤ)) hpos
    refine ⟨hle.trans hfar, fun heq _ => ?_⟩
    by_cases hr0 : roundEven 16 (w % 0x80000000) = 0
    · rw [hr0]
    · exact htie (le_antisymm hle (heq ▸ hfar)) (Ne.symm hr0)

variable {F : Type} {fl : HostFloat F} {value : F}

/-- Rounding without the sign bit. -/
theorem floatToBFloat16_eq (hbits : fl.bits value < 0x100000000)
    (hroom : fl.bits value % 0x80000000 < 0x7FFF8000) :
    floatToBFloat16 fl value =
      fl.bits value / 0x80000000 * 0x8000 + roundEven 16 (fl.bits value % 0x80000000) := by
  rw [floatToBFloat16, roundEven]
  simp only [Nat.shiftRight_eq_div_pow, Nat.reducePow, Nat.reduceSub]
  generalize fl.bits value = w at hbits hroom
  have hsplit : w / 0x10000 = w / 0x80000000 * 0x8000 + w % 0x80000000 / 0x10000 := by omega
  have hlsb : w / 0x10000 % 2 = w % 0x80000000 / 0x10000 % 2 := by omega
  rw [hlsb]
  generalize w % 0x80000000 / 0x10000 % 2 = lsb at *
  omega

/-- Where rounding a magnitude leads to infinity, and where past it. -/
theorem roundEven_bounds {m : ℕ} (hm : m < 0x7FFF8000) :
    roundEven 16 m < 0x8000 ∧ (m ≤ 0x7F808000 ↔ roundEven 16 m ≤ 0x7F80) ∧
      (0x7F7F8000 ≤ m ↔ 0x7F80 ≤ roundEven 16 m) := by
  simp only [roundEven, Nat.reducePow, Nat.reduceSub]
  omega

/-- The largest patterns overflow into the sign. -/
theorem floatToBFloat16_overflow (hbits : fl.bits value < 0x100000000)
    (hlarge : 0x7FFF8000 ≤ fl.bits value % 0x80000000) :
    floatToBFloat16 fl value = (1 - fl.bits value / 0x80000000) * 0x8000 := by
  rw [floatToBFloat16]
  simp only [Nat.shiftRight_eq_div_pow, Nat.reducePow]
  omega

/-- **What the conversion does** to every single-precision word.  A widened `bfloat16` comes
back.  A finite or infinite value keeps its sign and goes to a nearest `bfloat16`, to an even
one between two, and to infinity from half-way past the largest one on.  A NaN stays one only
between two bounds: below them it becomes infinity, above them a zero of the other sign. -/
theorem floatToBFloat16_spec (fl : HostFloat F) :
    (∀ h < 0x10000, fl.bits (fl.ofBits (h * 0x10000)) = h * 0x10000 →
      floatToBFloat16 fl (bFloat16ToFloat fl h) = h) ∧
    ∀ value, fl.bits value < 0x100000000 →
      let w := fl.bits value
      let m := w % 0x80000000
      let r := floatToBFloat16 fl value
      (m ≤ 0x7F800000 → r < 0x10000 ∧ r / 0x8000 = w / 0x80000000 ∧ r % 0x8000 ≤ 0x7F80 ∧
        (r % 0x8000 = 0x7F80 ↔ 0x7F7F8000 ≤ m) ∧
        ∀ h < 0x10000, |bFloat16Value r - bitsValue w| ≤ |bFloat16Value h - bitsValue w| ∧
          (|bFloat16Value r - bitsValue w| = |bFloat16Value h - bitsValue w| → h ≠ r →
            r % 2 = 0)) ∧
      (0x7F800000 < m →
        (m ≤ 0x7F808000 ∧ r = w / 0x80000000 * 0x8000 + 0x7F80) ∨
        (0x7F808000 < m ∧ m < 0x7FFF8000 ∧ r / 0x8000 = w / 0x80000000 ∧ 0x7F80 < r % 0x8000) ∨
        (0x7FFF8000 ≤ m ∧ r = (1 - w / 0x80000000) * 0x8000)) := by
  constructor
  · intro h hh hbits
    have hshift : h <<< 16 % 0x100000000 = h * 0x10000 := by
      rw [Nat.shiftLeft_eq]
      omega
    rw [bFloat16ToFloat, hshift, floatToBFloat16, hbits]
    simp only [Nat.shiftRight_eq_div_pow, Nat.reducePow,
      Nat.mul_div_cancel h (show 0 < 0x10000 by decide)]
    have hlsb := Nat.mod_lt h (y := 2) (by decide)
    generalize h % 2 = lsb at *
    omega
  · intro value hbits w m r
    have hsign : w / 0x80000000 < 2 := by omega
    by_cases hlarge : 0x7FFF8000 ≤ m
    · have hr := floatToBFloat16_overflow hbits hlarge
      exact ⟨fun hm => by omega, fun _ => Or.inr (Or.inr ⟨hlarge, hr⟩)⟩
    · have hr : r = w / 0x80000000 * 0x8000 + roundEven 16 m :=
        floatToBFloat16_eq hbits (by omega)
      obtain ⟨hlt, hnan, hinf⟩ := roundEven_bounds (m := m) (by omega)
      have hrsign : r / 0x8000 = w / 0x80000000 := by omega
      have hrest : r % 0x8000 = roundEven 16 m := by omega
      constructor
      · intro hm
        refine ⟨by omega, hrsign, by omega, by omega, fun h hh => ?_⟩
        exact nearest_of_sign hrsign hrest hh (by omega)
      · intro hm
        by_cases hlow : m ≤ 0x7F808000
        · exact Or.inl ⟨hlow, by omega⟩
        · exact Or.inr (Or.inl ⟨by omega, by omega, hrsign, by omega⟩)

/-- Words for values; no arithmetic. -/
def wordFloat : HostFloat ℕ where
  ofInt n := n.toNat
  lit _ := 0
  add a _ := a
  sub a _ := a
  mul a _ := a
  lt a b := a < b
  exp a := a
  bits a := a
  ofBits a := a

/-- Half-way between two values next to 1, the even one is taken. -/
theorem floatToBFloat16_spec_tie : floatToBFloat16 wordFloat 0x3F818000 = 0x3F82 ∧
    ∀ h < 0x10000, |bFloat16Value 0x3F82 - bitsValue 0x3F818000| ≤
      |bFloat16Value h - bitsValue 0x3F818000| := by
  have hrun : floatToBFloat16 wordFloat 0x3F818000 = 0x3F82 := by decide
  obtain ⟨hfinite, -⟩ := (floatToBFloat16_spec wordFloat).2 0x3F818000 (by decide)
  obtain ⟨-, -, -, -, hnearest⟩ := hfinite (by decide)
  rw [hrun] at hnearest
  exact ⟨hrun, fun h hh => (hnearest h hh).1⟩

end ChunkScaledDotKkt.Harness
