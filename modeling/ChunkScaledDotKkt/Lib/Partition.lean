import Mathlib.Data.Nat.ModEq
import Mathlib.Data.Set.Function
import Mathlib.Tactic.Linarith
import Mathlib.Tactic.Ring

/-!
# Exact and balanced partitions of an interval

A dealing of the items `0, …, n-1` to `b` workers gives worker `g` a number of
rounds and each round an item.  It is exact when every item is dealt once, and
balanced when two workers differ by at most one round.

Three integer-division schemes are covered: cyclic dealing, contiguous ranges cut
in proportion, and contiguous ranges with the remainder given to the first workers.
Relabelling the items and repeating a dealing per head keep exactness.

## Main definitions

* `Exact n b count item`, `Balanced b count`.
* `exact_of_bounds` — contiguous ranges between monotone bounds are exact.
* `exact_cyclic`, `exact_proportional`, `exact_remainder` — the three schemes.
* `Exact.relabel`, `Exact.perHead` — new dealings from old ones.
-/

namespace Partition

/-- Every item below `n` is dealt to exactly one worker below `b` in exactly one of
its rounds. -/
def Exact (n b : ℕ) (count : ℕ → ℕ) (item : ℕ → ℕ → ℕ) : Prop :=
  Set.BijOn (fun p : ℕ × ℕ => item p.1 p.2) {p | p.1 < b ∧ p.2 < count p.1} (Set.Iio n)

/-- The round counts of two workers differ by at most one. -/
def Balanced (b : ℕ) (count : ℕ → ℕ) : Prop := ∀ g < b, ∀ g' < b, count g ≤ count g' + 1

variable {n b : ℕ} {count : ℕ → ℕ} {item : ℕ → ℕ → ℕ}

/-- A count between `q` and `q + 1` for every worker is balanced. -/
theorem balanced_of_between (q : ℕ) (h : ∀ g < b, q ≤ count g ∧ count g ≤ q + 1) :
    Balanced b count := by
  intro g hg g' hg'
  have h1 := (h g hg).2
  have h2 := (h g' hg').1
  omega

/-- Exactness depends only on the counts and items of the workers below `b`. -/
theorem Exact.congr {count' : ℕ → ℕ} {item' : ℕ → ℕ → ℕ} (h : Exact n b count item)
    (hc : ∀ g < b, count' g = count g) (hi : ∀ g < b, ∀ r < count g, item' g r = item g r) :
    Exact n b count' item' := by
  have hset : {p : ℕ × ℕ | p.1 < b ∧ p.2 < count' p.1} = {p | p.1 < b ∧ p.2 < count p.1} := by
    ext p
    constructor
    · rintro ⟨hg, hr⟩
      exact ⟨hg, by rwa [← hc p.1 hg]⟩
    · rintro ⟨hg, hr⟩
      exact ⟨hg, by rwa [hc p.1 hg]⟩
  unfold Exact
  rw [hset]
  exact Set.BijOn.congr h fun p hp => (hi p.1 hp.1 p.2 hp.2).symm

/-! ## Contiguous ranges -/

/-- The worker whose range holds `x`. -/
theorem exists_range {s : ℕ → ℕ} (h0 : s 0 = 0) {x : ℕ} (hx : x < s b) :
    ∃ g < b, s g ≤ x ∧ x < s (g + 1) := by
  induction b with
  | zero => omega
  | succ b ih =>
      by_cases h : x < s b
      · obtain ⟨g, hg, hr⟩ := ih h
        exact ⟨g, by omega, hr⟩
      · exact ⟨b, by omega, by omega, hx⟩

/-- **Contiguous ranges are exact**: monotone bounds from `0` to `n` cut the
interval into disjoint ranges. -/
theorem exact_of_bounds {s : ℕ → ℕ} (hmono : Monotone s) (h0 : s 0 = 0) (hb : s b = n) :
    Exact n b (fun g => s (g + 1) - s g) (fun g r => s g + r) := by
  refine ⟨?_, ?_, ?_⟩
  · rintro ⟨g, r⟩ ⟨hg, hr⟩
    have hle : s (g + 1) ≤ s b := hmono hg
    simp only [Set.mem_Iio] at hr ⊢
    omega
  · rintro ⟨g, r⟩ ⟨hg, hr⟩ ⟨g', r'⟩ ⟨hg', hr'⟩ heq
    simp only at hr hr' heq
    have hg : g = g' := by
      rcases Nat.lt_trichotomy g g' with h | h | h
      · have := hmono (show g + 1 ≤ g' from h)
        omega
      · exact h
      · have := hmono (show g' + 1 ≤ g from h)
        omega
    subst hg
    have hr : r = r' := by omega
    rw [hr]
  · intro x hx
    obtain ⟨g, hg, hlo, hhi⟩ := exists_range h0 (hb.symm ▸ hx : x < s b)
    exact ⟨(g, x - s g), ⟨hg, by simp only; omega⟩, by simp only; omega⟩

/-! ## The three schemes -/

/-- Bounds cut in proportion to the worker's index. -/
theorem exact_proportional (hb : 0 < b) :
    Exact n b (fun g => n * (g + 1) / b - n * g / b) (fun g r => n * g / b + r) := by
  refine exact_of_bounds (s := fun g => n * g / b) ?_ (by simp) ?_
  · intro g g' h
    exact Nat.div_le_div_right (Nat.mul_le_mul_left n h)
  · exact Nat.mul_div_cancel n hb

theorem balanced_proportional (hb : 0 < b) :
    Balanced b (fun g => n * (g + 1) / b - n * g / b) := by
  refine balanced_of_between (n / b) ?_
  intro g _
  have hlo : n * g / b + n / b ≤ (n * g + n) / b := Nat.div_add_div_le_add_div
  have hhi : (n * g + n) / b ≤ n * g / b + n / b + 1 := by
    rw [Nat.add_div hb]
    split <;> simp
  simp only [Nat.mul_add, Nat.mul_one]
  generalize n / b = q at *
  omega

/-- Contiguous ranges, the first `n % b` of them one item longer. -/
theorem exact_remainder (hb : 0 < b) :
    Exact n b (fun g => n / b + if g < n % b then 1 else 0)
      (fun g r => g * (n / b) + min g (n % b) + r) := by
  let s : ℕ → ℕ := fun g => g * (n / b) + min g (n % b)
  have hmono : Monotone s := by
    intro g g' h
    have := Nat.mul_le_mul_right (n / b) h
    simp only [s]
    omega
  have hend : s b = n := by
    have hlt := Nat.mod_lt n hb
    simp only [s, Nat.min_eq_right hlt.le]
    exact Nat.div_add_mod n b
  refine (exact_of_bounds hmono (by simp [s]) hend).congr ?_ (fun _ _ _ _ => rfl)
  intro g _
  simp only [s, Nat.add_mul, Nat.one_mul]
  generalize n / b = q
  split <;> omega

theorem balanced_remainder : Balanced b (fun g => n / b + if g < n % b then 1 else 0) := by
  refine balanced_of_between (n / b) ?_
  intro g _
  split <;> simp

/-- The rounds of a cyclic dealing: worker `g` takes `g`, `g + b`, `g + 2 * b`, …. -/
def cyclicCount (n b g : ℕ) : ℕ := if n ≤ g then 0 else (n - 1 - g) / b + 1

theorem lt_cyclicCount_iff (hb : 0 < b) {g r : ℕ} : r < cyclicCount n b g ↔ g + r * b < n := by
  unfold cyclicCount
  split
  · constructor
    · omega
    · intro h
      have := Nat.zero_le (r * b)
      omega
  · rw [Nat.lt_succ_iff, Nat.le_div_iff_mul_le hb]
    omega

theorem exact_cyclic (hb : 0 < b) : Exact n b (cyclicCount n b) (fun g r => g + r * b) := by
  refine ⟨?_, ?_, ?_⟩
  · rintro ⟨g, r⟩ ⟨_, hr⟩
    exact (lt_cyclicCount_iff hb).mp hr
  · rintro ⟨g, r⟩ ⟨hg, _⟩ ⟨g', r'⟩ ⟨hg', _⟩ heq
    simp only at hg hg' heq
    have hmod := congrArg (· % b) heq
    have hdiv := congrArg (· / b) heq
    simp only [Nat.add_mul_mod_self_right, Nat.mod_eq_of_lt hg, Nat.mod_eq_of_lt hg'] at hmod
    simp only [Nat.add_mul_div_right _ _ hb, Nat.div_eq_of_lt hg, Nat.div_eq_of_lt hg',
      Nat.zero_add] at hdiv
    rw [hmod, hdiv]
  · intro x hx
    have hsum : x % b + x / b * b = x := Nat.mod_add_div' x b
    refine ⟨(x % b, x / b), ⟨Nat.mod_lt x hb, ?_⟩, hsum⟩
    rw [lt_cyclicCount_iff hb, hsum]
    exact hx

theorem balanced_cyclic (hb : 0 < b) : Balanced b (cyclicCount n b) := by
  intro g hg g' hg'
  by_contra hlt
  have h1 : (cyclicCount n b g - 1) < cyclicCount n b g := by omega
  have h2 : ¬ (cyclicCount n b g - 2) < cyclicCount n b g' := by omega
  rw [lt_cyclicCount_iff hb] at h1 h2
  have hstep : (cyclicCount n b g - 1) * b = (cyclicCount n b g - 2) * b + b := by
    rw [← Nat.succ_mul]
    congr 1
    omega
  omega

/-! ## New dealings from old ones -/

/-- Relabelling the items by a permutation of the interval keeps exactness. -/
theorem Exact.relabel {m : ℕ} {π : ℕ → ℕ} (h : Exact n b count item)
    (hπ : Set.BijOn π (Set.Iio n) (Set.Iio m)) : Exact m b count (fun g r => π (item g r)) :=
  hπ.comp h

/-- Head-major ordinals to chunk-major items: `ordinal = head * m + chunk` becomes
`chunk * h + head`. -/
theorem bijOn_transpose {m h : ℕ} (hh : 0 < h) :
    Set.BijOn (fun x => (x - x / m * m) * h + x / m) (Set.Iio (m * h)) (Set.Iio (m * h)) := by
  have hchunk : ∀ x, x - x / m * m = x % m := by
    intro x
    have := Nat.mod_add_div' x m
    omega
  simp only [hchunk]
  have hm : ∀ {x}, x < m * h → 0 < m := by
    intro x hx
    exact Nat.pos_of_ne_zero (by rintro rfl; omega)
  refine ⟨?_, ?_, ?_⟩
  · intro x hx
    have hlt : x % m < m := Nat.mod_lt x (hm hx)
    have hdiv : x / m < h := Nat.div_lt_of_lt_mul hx
    calc
      x % m * h + x / m < x % m * h + h := by omega
      _ = (x % m + 1) * h := by ring
      _ ≤ m * h := Nat.mul_le_mul_right h hlt
  · intro x hx y hy heq
    have hx' : x / m < h := Nat.div_lt_of_lt_mul hx
    have hy' : y / m < h := Nat.div_lt_of_lt_mul hy
    have hhead : x / m = y / m := by
      have := congrArg (· % h) heq
      simpa [Nat.mul_add_mod_self_right, Nat.mod_eq_of_lt hx', Nat.mod_eq_of_lt hy'] using this
    have hrest : x % m = y % m := by
      have := congrArg (· / h) heq
      simpa [Nat.mul_comm _ h, Nat.mul_add_div hh, Nat.div_eq_of_lt hx',
        Nat.div_eq_of_lt hy'] using this
    rw [← Nat.mod_add_div' x m, ← Nat.mod_add_div' y m, hhead, hrest]
  · intro y hy
    have hlt : y / h < m := Nat.div_lt_of_lt_mul (by rw [Nat.mul_comm]; exact hy)
    have hmod : y % h < h := Nat.mod_lt y hh
    refine ⟨y % h * m + y / h, ?_, ?_⟩
    · calc
        y % h * m + y / h < y % h * m + m := by omega
        _ = (y % h + 1) * m := by ring
        _ ≤ h * m := Nat.mul_le_mul_right m hmod
        _ = m * h := Nat.mul_comm h m
    · have hm0 : 0 < m := Nat.zero_lt_of_lt hlt
      simp only [Nat.mul_add_mod_self_right, Nat.mod_eq_of_lt hlt]
      rw [Nat.mul_comm (y % h) m, Nat.mul_add_div hm0, Nat.div_eq_of_lt hlt, Nat.add_zero]
      exact Nat.div_add_mod' y h

/-- One dealing of `m` chunks to `c` workers, repeated for each of `h` heads by a
team of its own. -/
theorem Exact.perHead {m c h : ℕ} (hx : Exact m c count item) (hc : 0 < c) (hh : 0 < h) :
    Exact (m * h) (h * c) (fun g => count (g % c)) (fun g r => item (g % c) r * h + g / c) := by
  obtain ⟨hmaps, hinj, hsurj⟩ := hx
  refine ⟨?_, ?_, ?_⟩
  · rintro ⟨g, r⟩ ⟨hg, hr⟩
    have hdiv : g / c < h := Nat.div_lt_of_lt_mul (by rw [Nat.mul_comm]; exact hg)
    have hitem : item (g % c) r < m := hmaps (x := (g % c, r)) ⟨Nat.mod_lt g hc, hr⟩
    calc
      item (g % c) r * h + g / c < item (g % c) r * h + h := by omega
      _ = (item (g % c) r + 1) * h := by ring
      _ ≤ m * h := Nat.mul_le_mul_right h hitem
  · rintro ⟨g, r⟩ ⟨hg, hr⟩ ⟨g', r'⟩ ⟨hg', hr'⟩ heq
    have hdiv : g / c < h := Nat.div_lt_of_lt_mul (by rw [Nat.mul_comm]; exact hg)
    have hdiv' : g' / c < h := Nat.div_lt_of_lt_mul (by rw [Nat.mul_comm]; exact hg')
    simp only at heq hr hr'
    have hhead : g / c = g' / c := by
      have := congrArg (· % h) heq
      simpa [Nat.mul_add_mod_self_right, Nat.mod_eq_of_lt hdiv, Nat.mod_eq_of_lt hdiv'] using this
    have hitem : item (g % c) r = item (g' % c) r' := by
      have := congrArg (· / h) heq
      simpa [Nat.mul_comm _ h, Nat.mul_add_div hh, Nat.div_eq_of_lt hdiv,
        Nat.div_eq_of_lt hdiv'] using this
    have hpair : (g % c, r) = (g' % c, r') :=
      hinj ⟨Nat.mod_lt g hc, hr⟩ ⟨Nat.mod_lt g' hc, hr'⟩ hitem
    obtain ⟨hmod, rfl⟩ := Prod.mk.inj hpair
    rw [← Nat.mod_add_div' g c, ← Nat.mod_add_div' g' c, hhead, hmod]
  · intro y hy
    have hlt : y / h < m := Nat.div_lt_of_lt_mul (by rw [Nat.mul_comm]; exact hy)
    have hmod : y % h < h := Nat.mod_lt y hh
    obtain ⟨⟨k, r⟩, ⟨hk, hr⟩, hitem⟩ := hsurj hlt
    simp only at hk hr hitem
    have hkc : (y % h * c + k) % c = k := by
      rw [Nat.mul_add_mod_self_right, Nat.mod_eq_of_lt hk]
    have hdc : (y % h * c + k) / c = y % h := by
      rw [Nat.mul_comm, Nat.mul_add_div hc, Nat.div_eq_of_lt hk, Nat.add_zero]
    refine ⟨(y % h * c + k, r), ⟨?_, ?_⟩, ?_⟩
    · calc
        y % h * c + k < y % h * c + c := by omega
        _ = (y % h + 1) * c := by ring
        _ ≤ h * c := Nat.mul_le_mul_right c hmod
    · simp only [hkc]
      exact hr
    · simp only [hkc, hdc, hitem]
      exact Nat.div_add_mod' y h

theorem Balanced.perHead {c h : ℕ} (hx : Balanced c count) (hc : 0 < c) :
    Balanced (h * c) (fun g => count (g % c)) := by
  intro g _ g' _
  exact hx _ (Nat.mod_lt g hc) _ (Nat.mod_lt g' hc)

end Partition
