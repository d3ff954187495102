import Mathlib.Data.List.Chain
import Mathlib.Data.Nat.Notation
import Mathlib.Order.Lattice
import Mathlib.Tactic.Common

/-!
# Intervals between the bounds of a strictly increasing list

A list of bounds cuts the interval between its first and its last entry into the
half-open intervals of adjacent entries.  When the list is strictly increasing, every
point of the whole interval lies in exactly one of them, and the search for the first
bound above the point finds it.

## Main results

* `countP_intervals` — a point in range lies in exactly one interval.
* `upperBound_spec` — the position before the upper bound is that interval's index.
* `index_unique` — no other index brackets the point.
-/

namespace IntervalChain

variable {α : Type}

/-- Adjacent entries, in order. -/
def intervals : List α → List (α × α)
  | low :: high :: bounds => (low, high) :: intervals (high :: bounds)
  | _ => []

@[simp] theorem intervals_nil : intervals ([] : List α) = [] := rfl

@[simp] theorem intervals_singleton (a : α) : intervals [a] = [] := rfl

@[simp] theorem intervals_cons_cons (a b : α) (bounds : List α) :
    intervals (a :: b :: bounds) = (a, b) :: intervals (b :: bounds) := rfl

/-- A relation holds along a chain exactly when it holds of every interval. -/
theorem isChain_iff_intervals {R : α → α → Prop} {bounds : List α} :
    bounds.IsChain R ↔ ∀ p ∈ intervals bounds, R p.1 p.2 := by
  induction bounds with
  | nil => simp
  | cons a bounds ih =>
      cases bounds with
      | nil => simp
      | cons b bounds => simp [List.isChain_cons_cons, ih]

/-- Both ends of an interval are bounds. -/
theorem mem_of_mem_intervals {bounds : List α} {p : α × α} (h : p ∈ intervals bounds) :
    p.1 ∈ bounds ∧ p.2 ∈ bounds := by
  induction bounds with
  | nil => simp at h
  | cons a bounds ih =>
      cases bounds with
      | nil => simp at h
      | cons b bounds =>
          simp only [intervals_cons_cons, List.mem_cons] at h
          cases h with
          | inl h => simp [h]
          | inr h =>
              have hmem := ih h
              exact ⟨List.mem_cons_of_mem a hmem.1, List.mem_cons_of_mem a hmem.2⟩

/-- Two adjacent bounds are an interval. -/
theorem mem_intervals {bounds : List α} {c : ℕ} {a b : α} (ha : bounds[c]? = some a)
    (hb : bounds[c + 1]? = some b) : (a, b) ∈ intervals bounds := by
  induction bounds generalizing c with
  | nil => simp at ha
  | cons low bounds ih =>
      cases bounds with
      | nil => simp at hb
      | cons high bounds =>
          rw [intervals_cons_cons, List.mem_cons]
          cases c with
          | zero =>
              simp only [List.getElem?_cons_zero, List.getElem?_cons_succ,
                Option.some.injEq] at ha hb
              exact Or.inl (by rw [ha, hb])
          | succ c => exact Or.inr (ih ha hb)

variable [LinearOrder α]

/-- The first position whose bound is above `x`, the length if there is none. -/
def upperBound (bounds : List α) (x : α) : ℕ := bounds.findIdx (fun bound => x < bound)

/-- The point `x` lies in the half-open interval `p`. -/
def inside (x : α) (p : α × α) : Bool := p.1 ≤ x ∧ x < p.2

@[simp] theorem inside_iff {x : α} {p : α × α} : inside x p = true ↔ p.1 ≤ x ∧ x < p.2 := by
  simp [inside]

/-- A point below the first bound of a chain lies in none of its intervals. -/
theorem countP_intervals_of_lt {x a : α} {bounds : List α}
    (hchain : (a :: bounds).IsChain (· < ·)) (hx : x < a) :
    (intervals (a :: bounds)).countP (inside x) = 0 := by
  induction bounds generalizing a with
  | nil => rfl
  | cons b bounds ih =>
      rw [List.isChain_cons_cons] at hchain
      have hb : x < b := lt_trans hx hchain.1
      rw [intervals_cons_cons, List.countP_cons_of_neg (by simp [not_le_of_gt hx]),
        ih hchain.2 hb]

/-- **Each point of the range lies in exactly one interval.** -/
theorem countP_intervals {x a last : α} {bounds : List α}
    (hchain : (a :: bounds).IsChain (· < ·)) (hlast : (a :: bounds).getLast? = some last)
    (hlow : a ≤ x) (hhigh : x < last) :
    (intervals (a :: bounds)).countP (inside x) = 1 := by
  induction bounds generalizing a with
  | nil =>
      have heq : a = last := by simpa using hlast
      exact absurd (lt_of_lt_of_eq hhigh heq.symm) (not_lt_of_ge hlow)
  | cons b bounds ih =>
      rw [List.isChain_cons_cons] at hchain
      rw [List.getLast?_cons_cons] at hlast
      by_cases hb : x < b
      · rw [intervals_cons_cons, List.countP_cons_of_pos (by simp [hlow, hb]),
          countP_intervals_of_lt hchain.2 hb]
      · rw [intervals_cons_cons, List.countP_cons_of_neg (by simp [hb]),
          ih hchain.2 hlast (not_lt.mp hb)]

/-- **The upper bound brackets the point**: the position before it starts the interval
that holds the point. -/
theorem upperBound_spec {x a last : α} {bounds : List α}
    (hchain : (a :: bounds).IsChain (· < ·)) (hlast : (a :: bounds).getLast? = some last)
    (hlow : a ≤ x) (hhigh : x < last) :
    ∃ c, upperBound (a :: bounds) x = c + 1 ∧ c + 1 < (a :: bounds).length ∧
      ∃ low high, (a :: bounds)[c]? = some low ∧ (a :: bounds)[c + 1]? = some high ∧
        low ≤ x ∧ x < high := by
  induction bounds generalizing a with
  | nil =>
      have heq : a = last := by simpa using hlast
      exact absurd (lt_of_lt_of_eq hhigh heq.symm) (not_lt_of_ge hlow)
  | cons b bounds ih =>
      rw [List.isChain_cons_cons] at hchain
      rw [List.getLast?_cons_cons] at hlast
      have hskip : upperBound (a :: b :: bounds) x = upperBound (b :: bounds) x + 1 := by
        rw [upperBound, List.findIdx_cons]
        simp [upperBound, not_lt_of_ge hlow]
      by_cases hb : x < b
      · refine ⟨0, ?_, by simp, a, b, rfl, rfl, hlow, hb⟩
        rw [hskip]
        simp [upperBound, List.findIdx_cons, hb]
      · obtain ⟨c, hc, hlen, low, high, hl, hh, hin⟩ := ih hchain.2 hlast (not_lt.mp hb)
        refine ⟨c + 1, by rw [hskip, hc], ?_, low, high, by simpa using hl, by simpa using hh,
          hin⟩
        simp only [List.length_cons] at hlen ⊢
        omega

/-- Bounds at positions in order are in order. -/
theorem getElem?_lt {bounds : List α} (hchain : bounds.IsChain (· < ·)) {i j : ℕ} (hij : i < j)
    {a b : α} (ha : bounds[i]? = some a) (hb : bounds[j]? = some b) : a < b := by
  rw [List.getElem?_eq_some_iff] at ha hb
  obtain ⟨hi, rfl⟩ := ha
  obtain ⟨hj, rfl⟩ := hb
  exact List.pairwise_iff_getElem.mp hchain.pairwise i j hi hj hij

/-- **No other index brackets the point.** -/
theorem index_unique {bounds : List α} (hchain : bounds.IsChain (· < ·)) {x : α} {c c' : ℕ}
    {low high low' high' : α} (hlow : bounds[c]? = some low)
    (hhigh : bounds[c + 1]? = some high) (hlow' : bounds[c']? = some low')
    (hhigh' : bounds[c' + 1]? = some high') (hin : low ≤ x ∧ x < high)
    (hin' : low' ≤ x ∧ x < high') : c' = c := by
  have hle : ∀ {i j : ℕ} {p q : α}, bounds[i + 1]? = some p → bounds[j]? = some q → x < p →
      q ≤ x → j ≤ i := by
    intro i j p q hp hq hx hx'
    by_contra hji
    have hpq : p ≤ q := by
      by_cases heq : i + 1 = j
      · subst heq
        rw [hp] at hq
        exact le_of_eq (Option.some.inj hq)
      · exact le_of_lt (getElem?_lt hchain (by omega) hp hq)
    exact absurd (lt_of_lt_of_le hx hpq) (not_lt_of_ge hx')
  have h1 := hle hhigh hlow' hin.2 hin'.1
  have h2 := hle hhigh' hlow hin'.2 hin.1
  omega

end IntervalChain
