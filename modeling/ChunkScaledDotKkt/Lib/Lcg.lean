import Mathlib.Algebra.Order.Group.Nat
import Mathlib.Data.Finset.Card
import Mathlib.Data.Nat.ModEq
import Mathlib.Data.Nat.Prime.Basic
import Mathlib.Logic.Function.Iterate
import Mathlib.Tactic.Ring

/-!
# Linear congruential sequences modulo a power of two

The step `x ↦ a * x + c` modulo `2 ^ n`.  When `a` is one modulo four and `c` is odd,
the sequence from any state runs through all states before it comes back, and the low
bit alternates.

## Main results

* `iterate_eq_self_iff` — the period is `2 ^ n`.
* `exists_iterate` — every state is reached from every other.
* `exists_iterate_odd` — the odd turns reach the states of the opposite parity.
-/

namespace Lcg

/-- One step of the generator. -/
def step (a c n x : ℕ) : ℕ := (x * a + c) % 2 ^ n

/-- The geometric sum `1 + a + … + a ^ (k - 1)`. -/
def geom (a : ℕ) : ℕ → ℕ
  | 0 => 0
  | k + 1 => geom a k * a + 1

@[simp] theorem geom_zero (a : ℕ) : geom a 0 = 0 := rfl

theorem geom_succ (a k : ℕ) : geom a (k + 1) = geom a k * a + 1 := rfl

variable {a c n x : ℕ}

/-- The closed form of the sequence. -/
theorem iterate_modEq (a c n x k : ℕ) :
    (step a c n)^[k] x ≡ x * a ^ k + geom a k * c [MOD 2 ^ n] := by
  induction k with
  | zero => simp [Nat.ModEq.refl]
  | succ k ih =>
      rw [Function.iterate_succ_apply']
      calc step a c n ((step a c n)^[k] x)
          ≡ (step a c n)^[k] x * a + c [MOD 2 ^ n] := Nat.mod_modEq _ _
        _ ≡ (x * a ^ k + geom a k * c) * a + c [MOD 2 ^ n] := (ih.mul_right a).add_right c
        _ = x * a ^ (k + 1) + geom a (k + 1) * c := by rw [geom_succ]; ring

/-! ## The geometric sum -/

theorem pow_eq_geom (b k : ℕ) : (b + 1) ^ k = b * geom (b + 1) k + 1 := by
  induction k with
  | zero => rfl
  | succ k ih =>
      rw [pow_succ, ih, geom_succ]
      ring

theorem geom_add (a j k : ℕ) : geom a (j + k) = geom a j * a ^ k + geom a k := by
  induction k with
  | zero => simp
  | succ k ih =>
      rw [Nat.add_succ, geom_succ, ih, geom_succ]
      ring

theorem pow_mod_four (ha : a % 4 = 1) (k : ℕ) : a ^ k % 4 = 1 := by
  simp [Nat.pow_mod, ha]

theorem geom_mod_two (ha : a % 4 = 1) (k : ℕ) : geom a k % 2 = k % 2 := by
  have ha2 : a % 2 = 1 := by omega
  induction k with
  | zero => rfl
  | succ k ih =>
      rw [geom_succ, Nat.add_mod, Nat.mul_mod, ih, ha2]
      omega

/-- **The geometric sum has the powers of two of its length.** -/
theorem two_pow_dvd_geom_iff (ha : a % 4 = 1) (m k : ℕ) : 2 ^ m ∣ geom a k ↔ 2 ^ m ∣ k := by
  induction m generalizing k with
  | zero => simp
  | succ m ih =>
      by_cases hk : k % 2 = 0
      · -- an even sum is the half sum times twice an odd number
        obtain ⟨j, rfl⟩ : ∃ j, k = j + j := ⟨k / 2, by omega⟩
        obtain ⟨u, hu⟩ : ∃ u, a ^ j + 1 = 2 * (2 * u + 1) := by
          have := pow_mod_four ha j
          exact ⟨(a ^ j - 1) / 4, by omega⟩
        have hgeom : geom a (j + j) = 2 * (geom a j * (2 * u + 1)) := by
          calc geom a (j + j) = geom a j * (a ^ j + 1) := by rw [geom_add]; ring
            _ = 2 * (geom a j * (2 * u + 1)) := by rw [hu]; ring
        have hodd : Nat.Coprime (2 ^ m) (2 * u + 1) := by
          apply Nat.Coprime.pow_left
          simp
        rw [hgeom, ← Nat.two_mul, pow_succ', Nat.mul_dvd_mul_iff_left (by omega),
          Nat.mul_dvd_mul_iff_left (by omega), hodd.dvd_mul_right]
        exact ih j
      · have hodd : ∀ i : ℕ, i % 2 ≠ 0 → ¬ 2 ^ (m + 1) ∣ i := by
          intro i hi hdvd
          have : 2 ∣ i := dvd_trans ⟨2 ^ m, pow_succ' 2 m⟩ hdvd
          omega
        have hg : geom a k % 2 ≠ 0 := by rwa [geom_mod_two ha]
        simp [hodd _ hg, hodd _ hk]

/-! ## The period -/

theorem iterate_lt (hx : x < 2 ^ n) (k : ℕ) : (step a c n)^[k] x < 2 ^ n := by
  cases k with
  | zero => exact hx
  | succ k =>
      rw [Function.iterate_succ_apply']
      exact Nat.mod_lt _ (Nat.two_pow_pos n)

/-- **The sequence comes back exactly after multiples of `2 ^ n` turns.** -/
theorem iterate_eq_self_iff (ha : a % 4 = 1) (hc : c % 2 = 1) (hx : x < 2 ^ n) (d : ℕ) :
    (step a c n)^[d] x = x ↔ 2 ^ n ∣ d := by
  obtain ⟨b, rfl⟩ : ∃ b, a = b + 1 := ⟨a - 1, by omega⟩
  -- a turn of `d` steps adds the geometric sum times an odd number
  have hform : x * (b + 1) ^ d + geom (b + 1) d * c = x + geom (b + 1) d * (b * x + c) := by
    rw [pow_eq_geom]
    ring
  have hodd : Nat.Coprime (2 ^ n) (b * x + c) := by
    apply Nat.Coprime.pow_left
    rw [Nat.coprime_two_left, Nat.odd_iff, Nat.add_mod, Nat.mul_mod]
    have hb : b % 2 = 0 := by omega
    simp [hb, hc]
  have hiter := iterate_modEq (b + 1) c n x d
  rw [hform] at hiter
  rw [← two_pow_dvd_geom_iff ha, ← hodd.dvd_mul_right]
  constructor
  · intro heq
    rw [heq] at hiter
    have hzero : x + 0 ≡ x + geom (b + 1) d * (b * x + c) [MOD 2 ^ n] := hiter
    exact Nat.modEq_zero_iff_dvd.mp (Nat.ModEq.add_left_cancel' x hzero).symm
  · intro hdvd
    have hzero := (Nat.modEq_zero_iff_dvd.mpr hdvd).add_left x
    exact Nat.ModEq.eq_of_lt_of_lt (hiter.trans hzero) (iterate_lt hx d) hx

theorem iterate_injOn (ha : a % 4 = 1) (hc : c % 2 = 1) (hx : x < 2 ^ n) :
    Set.InjOn (fun k => (step a c n)^[k] x) (Finset.range (2 ^ n)) := by
  have hlt : ∀ i j : ℕ, i < j → j < 2 ^ n → (step a c n)^[i] x ≠ (step a c n)^[j] x := by
    intro i j hij hj heq
    have hsplit : (step a c n)^[j] x = (step a c n)^[j - i] ((step a c n)^[i] x) := by
      rw [← Function.iterate_add_apply, Nat.sub_add_cancel (le_of_lt hij)]
    rw [hsplit] at heq
    have hdvd := (iterate_eq_self_iff ha hc (iterate_lt hx i) (j - i)).mp heq.symm
    have := Nat.le_of_dvd (by omega) hdvd
    omega
  intro i hi j hj heq
  simp only [Finset.coe_range, Set.mem_Iio] at hi hj
  rcases Nat.lt_trichotomy i j with h | h | h
  · exact absurd heq (hlt i j h hj)
  · exact h
  · exact absurd heq.symm (hlt j i h hi)

/-- **Every state is reached from every other.** -/
theorem exists_iterate (ha : a % 4 = 1) (hc : c % 2 = 1) (hx : x < 2 ^ n) {y : ℕ}
    (hy : y < 2 ^ n) : ∃ k, (step a c n)^[k] x = y := by
  have hmaps : (Finset.range (2 ^ n)).image (fun k => (step a c n)^[k] x) ⊆
      Finset.range (2 ^ n) := by
    intro z hz
    simp only [Finset.mem_image, Finset.mem_range] at hz ⊢
    obtain ⟨k, -, rfl⟩ := hz
    exact iterate_lt hx k
  have hcard := Finset.card_image_of_injOn (iterate_injOn ha hc hx)
  have himage := Finset.eq_of_subset_of_card_le hmaps (le_of_eq hcard.symm)
  have hmem : y ∈ Finset.range (2 ^ n) := Finset.mem_range.mpr hy
  rw [← himage, Finset.mem_image] at hmem
  obtain ⟨k, -, hk⟩ := hmem
  exact ⟨k, hk⟩

/-! ## The low bit -/

theorem step_mod_two (ha : a % 4 = 1) (hc : c % 2 = 1) (hn : 0 < n) (x : ℕ) :
    step a c n x % 2 = (x + 1) % 2 := by
  have hdvd : 2 ∣ 2 ^ n := dvd_pow_self 2 (by omega)
  have ha2 : a % 2 = 1 := by omega
  rw [step, Nat.mod_mod_of_dvd _ hdvd, Nat.add_mod, Nat.mul_mod, ha2, hc]
  omega

theorem iterate_mod_two (ha : a % 4 = 1) (hc : c % 2 = 1) (hn : 0 < n) (x k : ℕ) :
    (step a c n)^[k] x % 2 = (x + k) % 2 := by
  induction k with
  | zero => rfl
  | succ k ih =>
      rw [Function.iterate_succ_apply', step_mod_two ha hc hn]
      omega

/-- **The odd turns reach exactly the states of the opposite parity.** -/
theorem exists_iterate_odd (ha : a % 4 = 1) (hc : c % 2 = 1) (hn : 0 < n) (hx : x < 2 ^ n)
    {y : ℕ} : (∃ i, (step a c n)^[2 * i + 1] x = y) ↔ y < 2 ^ n ∧ y % 2 ≠ x % 2 := by
  constructor
  · intro ⟨i, hi⟩
    have hparity := iterate_mod_two ha hc hn x (2 * i + 1)
    rw [hi] at hparity
    exact ⟨hi ▸ iterate_lt hx _, by omega⟩
  · intro ⟨hy, hparity⟩
    obtain ⟨k, rfl⟩ := exists_iterate ha hc hx hy
    have hk := iterate_mod_two ha hc hn x k
    exact ⟨k / 2, by rw [show 2 * (k / 2) + 1 = k by omega]⟩

/-! ## Draws that take two turns -/

/-- A value made from the two states of draw `i`. -/
def draw {β : Type} (f : ℕ → ℕ) (key : ℕ → ℕ → β) (x i : ℕ) : β :=
  key (f^[2 * i + 1] x) (f^[2 * i + 2] x)

section

variable {β : Type} {f : ℕ → ℕ} {key : ℕ → ℕ → β}

theorem draw_zero : draw f key x 0 = key (f x) (f (f x)) := rfl

theorem draw_succ (i : ℕ) : draw f key (f (f x)) i = draw f key x (i + 1) := rfl

theorem draw_eq (i : ℕ) : draw f key x i = key (f^[2 * i + 1] x) (f (f^[2 * i + 1] x)) := by
  rw [draw, Function.iterate_succ_apply' f (2 * i + 1)]

end

end Lcg
