import Mathlib.Data.Nat.Notation
import Mathlib.Tactic.Common

/-!
# Guarded loops that emit a trace

`loop guard body fuel s` is a `while` loop over a state: each turn of the body emits
events and gives the next state, and `none` means that the fuel ran out.  The rule
`loop_indexed` is for loops whose states lie on a sequence `at 0, at 1, …, at n`
and move forward along it, by one place or by more: enough fuel gives a trace, and
whatever each turn preserves backwards holds of the whole trace.
-/

namespace TraceLoop

variable {σ ε : Type}

/-- A `while` loop that collects the events of its turns. -/
def loop (guard : σ → Bool) (body : σ → List ε × σ) : ℕ → σ → Option (List ε)
  | 0, _ => none
  | fuel + 1, s =>
      if guard s then (loop guard body fuel (body s).2).map ((body s).1 ++ ·) else some []

variable {guard : σ → Bool} {body : σ → List ε × σ} (state : ℕ → σ) (n : ℕ)
  (Spec : ℕ → List ε → Prop)

/-- **Loops along a sequence of states** terminate and meet a specification that
holds of the empty trace at the end and is preserved backwards by each turn. -/
theorem loop_indexed (hguard : ∀ r ≤ n, guard (state r) = decide (r < n))
    (hexit : Spec n [])
    (hstep : ∀ r < n, ∃ r', r < r' ∧ r' ≤ n ∧ (body (state r)).2 = state r' ∧
      ∀ trace, Spec r' trace → Spec r ((body (state r)).1 ++ trace)) :
    ∀ r ≤ n, ∃ trace, (∀ fuel, n - r < fuel → loop guard body fuel (state r) = some trace) ∧
      Spec r trace := by
  intro r hr
  induction hk : n - r using Nat.strongRecOn generalizing r with
  | ind k ih =>
      by_cases hlt : r < n
      · obtain ⟨r', hr', hle, hnext, hspec⟩ := hstep r hlt
        obtain ⟨trace, hrun, htrace⟩ := ih (n - r') (by omega) r' hle rfl
        refine ⟨(body (state r)).1 ++ trace, ?_, hspec trace htrace⟩
        intro fuel hfuel
        obtain ⟨fuel, rfl⟩ : ∃ f, fuel = f + 1 := ⟨fuel - 1, by omega⟩
        have hg : guard (state r) = true := by
          rw [hguard r hr]
          exact decide_eq_true hlt
        rw [loop, if_pos hg, hnext, hrun fuel (by omega)]
        rfl
      · obtain rfl : r = n := by omega
        refine ⟨[], ?_, hexit⟩
        intro fuel hfuel
        obtain ⟨fuel, rfl⟩ : ∃ f, fuel = f + 1 := ⟨fuel - 1, by omega⟩
        have hg : guard (state r) = false := by
          rw [hguard r hr]
          exact decide_eq_false hlt
        rw [loop, hg]
        rfl

/-- The rule for a loop that starts at the first state of the sequence. -/
theorem loop_from_start {s : σ} (hs : s = state 0)
    (hguard : ∀ r ≤ n, guard (state r) = decide (r < n)) (hexit : Spec n [])
    (hstep : ∀ r < n, ∃ r', r < r' ∧ r' ≤ n ∧ (body (state r)).2 = state r' ∧
      ∀ trace, Spec r' trace → Spec r ((body (state r)).1 ++ trace)) :
    ∃ trace, (∀ fuel, n < fuel → loop guard body fuel s = some trace) ∧ Spec 0 trace := by
  subst hs
  exact loop_indexed state n Spec hguard hexit hstep 0 (Nat.zero_le n)

end TraceLoop
