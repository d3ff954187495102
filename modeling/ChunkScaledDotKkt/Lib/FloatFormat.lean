import Mathlib.Algebra.Order.Ring.Abs
import Mathlib.Algebra.Order.Ring.Int
import Mathlib.Data.Nat.ModEq
import Mathlib.Order.Monotone.Basic
import Mathlib.Tactic.Linarith
import Mathlib.Tactic.Ring

/-!
# Shortening binary floating-point patterns

The magnitude of a pattern of an exponent field over `p` fraction bits, in units of the
smallest positive one.  Magnitudes grow with the pattern, and they grow evenly between two
patterns that agree in all but their last `k` bits.  Rounding a pattern to fewer fraction
bits as if it were an integer therefore rounds its value.

## Main results

* `magnitude_block` — magnitudes within a block of patterns.
* `roundEven_nearest` — rounding patterns is rounding values to nearest, ties to even.
-/

namespace FloatFormat

/-- The magnitude of a pattern with `p` fraction bits; exponent 0 is subnormal. -/
def magnitude (p m : ℕ) : ℕ :=
  if m / 2 ^ p = 0 then m % 2 ^ p else (2 ^ p + m % 2 ^ p) * 2 ^ (m / 2 ^ p - 1)

/-- The distance from a pattern to the next one. -/
def spacing (p m : ℕ) : ℕ := 2 ^ (m / 2 ^ p - 1)

variable {p k m : ℕ}

theorem spacing_pos (p m : ℕ) : 0 < spacing p m := Nat.two_pow_pos _

/-- **The next pattern** is one spacing away, also across an exponent. -/
theorem magnitude_succ (p m : ℕ) : magnitude p (m + 1) = magnitude p m + spacing p m := by
  have hpos : 0 < 2 ^ p := Nat.two_pow_pos p
  obtain ⟨e, f, hf, rfl⟩ : ∃ e f, f < 2 ^ p ∧ m = 2 ^ p * e + f :=
    ⟨m / 2 ^ p, m % 2 ^ p, Nat.mod_lt m hpos, (Nat.div_add_mod m _).symm⟩
  have hdiv : (2 ^ p * e + f) / 2 ^ p = e := by
    rw [Nat.mul_add_div hpos, Nat.div_eq_of_lt hf, Nat.add_zero]
  have hmod : (2 ^ p * e + f) % 2 ^ p = f := by
    rw [Nat.mul_add_mod, Nat.mod_eq_of_lt hf]
  simp only [magnitude, spacing, hdiv, hmod]
  by_cases hlast : f + 1 < 2 ^ p
  · have hdiv' : (2 ^ p * e + f + 1) / 2 ^ p = e := by
      rw [Nat.add_assoc, Nat.mul_add_div hpos, Nat.div_eq_of_lt hlast, Nat.add_zero]
    have hmod' : (2 ^ p * e + f + 1) % 2 ^ p = f + 1 := by
      rw [Nat.add_assoc, Nat.mul_add_mod, Nat.mod_eq_of_lt hlast]
    rw [hdiv', hmod']
    split_ifs with he
    · simp [he]
    · ring
  · have hfull : f + 1 = 2 ^ p := by omega
    have hnext : 2 ^ p * e + f + 1 = 2 ^ p * (e + 1) := by rw [Nat.add_assoc, hfull]; ring
    rw [hnext, Nat.mul_div_cancel_left _ hpos, Nat.mul_mod_right, if_neg (Nat.succ_ne_zero e)]
    split_ifs with he
    · simp [he, hfull]
    · have hpow : 2 ^ (e + 1 - 1) = 2 * 2 ^ (e - 1) := by
        rw [← pow_succ']
        congr 1
        omega
      calc (2 ^ p + 0) * 2 ^ (e + 1 - 1) = (2 ^ p + 2 ^ p) * 2 ^ (e - 1) := by rw [hpow]; ring
        _ = (2 ^ p + f) * 2 ^ (e - 1) + 2 ^ (e - 1) := by rw [← hfull]; ring

theorem magnitude_strictMono (p : ℕ) : StrictMono (magnitude p) := by
  apply strictMono_nat_of_lt_succ
  intro m
  rw [magnitude_succ]
  exact Nat.lt_add_of_pos_right (spacing_pos p m)

/-- **Within a block** of `2 ^ k` patterns, up to the next block, the magnitude grows evenly. -/
theorem magnitude_block (hk : k ≤ p) (q : ℕ) {l : ℕ} (hl : l ≤ 2 ^ k) :
    magnitude p (q * 2 ^ k + l) = magnitude p (q * 2 ^ k) + l * spacing p (q * 2 ^ k) := by
  induction l with
  | zero => simp
  | succ l ih =>
      have hexp : ∀ l < 2 ^ k, (q * 2 ^ k + l) / 2 ^ p = q / 2 ^ (p - k) := by
        intro l hl
        have hsplit : 2 ^ p = 2 ^ k * 2 ^ (p - k) := by rw [← pow_add, Nat.add_sub_cancel' hk]
        rw [hsplit, ← Nat.div_div_eq_div_mul, Nat.mul_comm q, Nat.mul_add_div (Nat.two_pow_pos k),
          Nat.div_eq_of_lt hl, Nat.add_zero]
      have hsame : spacing p (q * 2 ^ k + l) = spacing p (q * 2 ^ k) := by
        have hzero := hexp 0 (Nat.two_pow_pos k)
        rw [Nat.add_zero] at hzero
        rw [spacing, spacing, hexp l (by omega), hzero]
      rw [← Nat.add_assoc, magnitude_succ, ih (by omega), hsame]
      ring

/-! ## Signs -/

/-- A magnitude with its sign bit. -/
def signed (sign x : ℕ) : ℤ := if sign = 0 then x else -x

theorem signed_sub_same {s s' : ℕ} (h : s = 0 ↔ s' = 0) (x y : ℕ) :
    |signed s x - signed s' y| = |(x : ℤ) - y| := by
  by_cases hs : s = 0
  · rw [signed, signed, if_pos hs, if_pos (h.mp hs)]
  · rw [signed, signed, if_neg hs, if_neg (hs ∘ h.mpr), neg_sub_neg, abs_sub_comm]

theorem signed_sub_other {s s' : ℕ} (h : ¬ (s = 0 ↔ s' = 0)) (x y : ℕ) :
    |signed s x - signed s' y| = x + y := by
  unfold signed
  split_ifs with hs hs' hs'
  · exact absurd ⟨fun _ => hs', fun _ => hs⟩ h
  · rw [abs_of_nonneg (by omega)]
    ring
  · rw [abs_of_nonpos (by omega)]
    ring
  · exact absurd ⟨fun h => absurd h hs, fun h => absurd h hs'⟩ h

/-! ## Rounding -/

/-- Add just under half, and the last bit that is kept; then drop `k` bits. -/
def roundEven (k m : ℕ) : ℕ := (m + (2 ^ (k - 1) - 1 + m / 2 ^ k % 2)) / 2 ^ k

/-- Down below half and at half from an even pattern, up above and at half from an odd one. -/
theorem roundEven_cases (hk : 0 < k) (m : ℕ) :
    (roundEven k m = m / 2 ^ k ∧ 2 * (m % 2 ^ k) ≤ 2 ^ k ∧
      (2 * (m % 2 ^ k) = 2 ^ k → m / 2 ^ k % 2 = 0)) ∨
    (roundEven k m = m / 2 ^ k + 1 ∧ 2 ^ k ≤ 2 * (m % 2 ^ k) ∧
      (2 * (m % 2 ^ k) = 2 ^ k → m / 2 ^ k % 2 = 1)) := by
  have hpos : 0 < 2 ^ k := Nat.two_pow_pos k
  have hhalf : 2 ^ k = 2 * 2 ^ (k - 1) := by
    rw [← pow_succ']
    congr 1
    omega
  have hone : 0 < 2 ^ (k - 1) := Nat.two_pow_pos _
  have hlt := Nat.mod_lt m hpos
  have hbit := Nat.mod_two_eq_zero_or_one (m / 2 ^ k)
  have hround : roundEven k m =
      m / 2 ^ k + (m % 2 ^ k + (2 ^ (k - 1) - 1 + m / 2 ^ k % 2)) / 2 ^ k := by
    rw [roundEven]
    conv_lhs => rw [← Nat.div_add_mod m (2 ^ k), Nat.add_assoc, Nat.mul_add_div hpos]
    simp only [Nat.mul_add_div hpos, Nat.div_eq_of_lt hlt, Nat.add_zero]
  by_cases hdown : m % 2 ^ k + (2 ^ (k - 1) - 1 + m / 2 ^ k % 2) < 2 ^ k
  · left
    rw [hround, Nat.div_eq_of_lt hdown]
    refine ⟨rfl, by omega, by omega⟩
  · right
    have hquot : (m % 2 ^ k + (2 ^ (k - 1) - 1 + m / 2 ^ k % 2)) / 2 ^ k = 1 :=
      Nat.div_eq_of_lt_le (by omega) (by omega)
    rw [hround, hquot]
    refine ⟨rfl, by omega, by omega⟩

/-- How far `m` is from the short patterns below and above it. -/
theorem magnitude_between (hkp : k ≤ p) (m : ℕ) :
    magnitude p m = magnitude p (m / 2 ^ k * 2 ^ k) +
        m % 2 ^ k * spacing p (m / 2 ^ k * 2 ^ k) ∧
      magnitude p ((m / 2 ^ k + 1) * 2 ^ k) = magnitude p m +
        (2 ^ k - m % 2 ^ k) * spacing p (m / 2 ^ k * 2 ^ k) := by
  have hlt : m % 2 ^ k < 2 ^ k := Nat.mod_lt m (Nat.two_pow_pos k)
  have hbelow := magnitude_block hkp (m / 2 ^ k) hlt.le
  have habove := magnitude_block hkp (m / 2 ^ k) le_rfl
  rw [Nat.div_add_mod'] at hbelow
  rw [← Nat.succ_mul] at habove
  refine ⟨hbelow, ?_⟩
  rw [habove, hbelow, Nat.add_assoc, ← Nat.add_mul, Nat.add_sub_cancel' hlt.le]

/-- The nearest short patterns on either side. -/
theorem block_distance (hkp : k ≤ p) (m h : ℕ) :
    let below : ℕ := m % 2 ^ k * spacing p (m / 2 ^ k * 2 ^ k)
    let above : ℕ := (2 ^ k - m % 2 ^ k) * spacing p (m / 2 ^ k * 2 ^ k)
    let distance := |(magnitude p (h * 2 ^ k) : ℤ) - magnitude p m|
    (h ≤ m / 2 ^ k → below ≤ distance ∧ (distance = below ↔ h = m / 2 ^ k)) ∧
      (m / 2 ^ k < h → above ≤ distance ∧ (distance = above ↔ h = m / 2 ^ k + 1)) := by
  intro below above distance
  have hmono : StrictMono fun h => magnitude p (h * 2 ^ k) := fun a b hab =>
    magnitude_strictMono p (Nat.mul_lt_mul_of_pos_right hab (Nat.two_pow_pos k))
  obtain ⟨hbelow, habove⟩ := magnitude_between hkp m
  change _ = _ + below at hbelow
  change _ = _ + above at habove
  constructor
  · intro hle
    have hh : magnitude p (h * 2 ^ k) ≤ magnitude p (m / 2 ^ k * 2 ^ k) := hmono.monotone hle
    have hdistance : distance = magnitude p m - magnitude p (h * 2 ^ k) :=
      (abs_of_nonpos (by omega)).trans (by ring)
    refine ⟨by omega, fun heq => hmono.injective ?_, ?_⟩
    · omega
    · rintro rfl
      omega
  · intro hgt
    have hh : magnitude p ((m / 2 ^ k + 1) * 2 ^ k) ≤ magnitude p (h * 2 ^ k) := hmono.monotone hgt
    have hdistance : distance = magnitude p (h * 2 ^ k) - magnitude p m := abs_of_nonneg (by omega)
    refine ⟨by omega, fun heq => hmono.injective ?_, ?_⟩
    · omega
    · rintro rfl
      omega

/-- **Rounding patterns rounds values**: no other short pattern is nearer, and at the same
distance from another one the result is even. -/
theorem roundEven_nearest (hk : 0 < k) (hkp : k ≤ p) (m h : ℕ) :
    |(magnitude p (roundEven k m * 2 ^ k) : ℤ) - magnitude p m| ≤
        |(magnitude p (h * 2 ^ k) : ℤ) - magnitude p m| ∧
      (|(magnitude p (roundEven k m * 2 ^ k) : ℤ) - magnitude p m| =
        |(magnitude p (h * 2 ^ k) : ℤ) - magnitude p m| → h ≠ roundEven k m →
        roundEven k m % 2 = 0) := by
  have hspacing := spacing_pos p (m / 2 ^ k * 2 ^ k)
  have hlt : m % 2 ^ k < 2 ^ k := Nat.mod_lt m (Nat.two_pow_pos k)
  have hround := block_distance hkp m (roundEven k m)
  have hother := block_distance hkp m h
  simp only at hround hother
  -- the two sides are as far apart as the dropped bits say
  have hle : 2 * (m % 2 ^ k) ≤ 2 ^ k →
      m % 2 ^ k * spacing p (m / 2 ^ k * 2 ^ k) ≤
        (2 ^ k - m % 2 ^ k) * spacing p (m / 2 ^ k * 2 ^ k) :=
    fun h => Nat.mul_le_mul_right _ (by omega)
  have hge : 2 ^ k ≤ 2 * (m % 2 ^ k) →
      (2 ^ k - m % 2 ^ k) * spacing p (m / 2 ^ k * 2 ^ k) ≤
        m % 2 ^ k * spacing p (m / 2 ^ k * 2 ^ k) :=
    fun h => Nat.mul_le_mul_right _ (by omega)
  have htie : m % 2 ^ k * spacing p (m / 2 ^ k * 2 ^ k) =
      (2 ^ k - m % 2 ^ k) * spacing p (m / 2 ^ k * 2 ^ k) → 2 * (m % 2 ^ k) = 2 ^ k := by
    intro heq
    have := Nat.eq_of_mul_eq_mul_right hspacing heq
    omega
  rcases roundEven_cases hk m with ⟨heq, hhalf, heven⟩ | ⟨heq, hhalf, hodd⟩
  · have hself := ((hround.1 heq.le).2).mpr heq
    rw [hself]
    rcases Nat.lt_or_ge (m / 2 ^ k) h with hh | hh
    · obtain ⟨hfar, -⟩ := hother.2 hh
      have := hle hhalf
      refine ⟨by omega, fun hsame _ => ?_⟩
      rw [heq]
      exact heven (htie (by omega))
    · obtain ⟨hfar, hnear⟩ := hother.1 hh
      exact ⟨hfar, fun hsame hne => absurd (hnear.mp hsame.symm) (heq ▸ hne)⟩
  · have hself := ((hround.2 (by omega)).2).mpr heq
    rw [hself]
    rcases Nat.lt_or_ge (m / 2 ^ k) h with hh | hh
    · obtain ⟨hfar, hnear⟩ := hother.2 hh
      exact ⟨hfar, fun hsame hne => absurd (hnear.mp hsame.symm) (heq ▸ hne)⟩
    · obtain ⟨hfar, -⟩ := hother.1 hh
      have := hge hhalf
      refine ⟨by omega, fun hsame _ => ?_⟩
      have := hodd (htie (by omega))
      omega

end FloatFormat
