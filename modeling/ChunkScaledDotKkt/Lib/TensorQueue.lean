import Mathlib.Data.Nat.Notation
import Mathlib.Tactic.Common

/-!
# Queues of local tensors

A queue of a given depth over a pool of buffers.  A tensor is allocated, filled,
enqueued, dequeued and freed.  An operation that could not be served without waiting
for another one of the same thread is `none`.

## Main results

* `Bounded` — the queue and the pool are within their sizes, kept by every operation.
-/

/-- The tensors of a queue by what became of them, with what was copied into each. -/
structure TensorQueue (α : Type) where
  fresh : Option (Option α)
  queued : List α
  current : Option α
  deriving Repr, DecidableEq

namespace TensorQueue

variable {α : Type} {depth buffers : ℕ} {q q' : TensorQueue α} {a : α}

def empty : TensorQueue α := ⟨none, [], none⟩

/-- The buffers that are not free. -/
def used (q : TensorQueue α) : ℕ :=
  q.fresh.toList.length + q.queued.length + q.current.toList.length

def allocTensor (buffers : ℕ) (q : TensorQueue α) : Option (TensorQueue α) :=
  if q.fresh.isNone ∧ q.used < buffers then some { q with fresh := some none } else none

/-- Copy into the allocated tensor. -/
def fill (a : α) (q : TensorQueue α) : Option (TensorQueue α) :=
  if q.fresh.isSome then some { q with fresh := some (some a) } else none

def enQue (depth : ℕ) (q : TensorQueue α) : Option (TensorQueue α) :=
  match q.fresh with
  | some (some a) =>
      if q.queued.length < depth then
        some { q with fresh := none, queued := q.queued ++ [a] }
      else none
  | _ => none

/-- The oldest enqueued tensor becomes the one in use. -/
def deQue (q : TensorQueue α) : Option (α × TensorQueue α) :=
  match q.queued, q.current with
  | a :: queued, none => some (a, { q with queued := queued, current := some a })
  | _, _ => none

def freeTensor (q : TensorQueue α) : Option (TensorQueue α) :=
  if q.current.isSome then some { q with current := none } else none

/-! ## Sizes -/

structure Bounded (depth buffers : ℕ) (q : TensorQueue α) : Prop where
  queued : q.queued.length ≤ depth
  used : q.used ≤ buffers

theorem bounded_empty : (empty : TensorQueue α).Bounded depth buffers :=
  ⟨Nat.zero_le _, Nat.zero_le _⟩

namespace Bounded

theorem allocTensor (h : q.Bounded depth buffers) (hq : q.allocTensor buffers = some q') :
    q'.Bounded depth buffers := by
  rw [TensorQueue.allocTensor] at hq
  split at hq
  · rename_i hfree
    cases hq
    refine ⟨h.queued, ?_⟩
    have hnone : q.fresh = none := by simpa using hfree.1
    have hlt := hfree.2
    simp only [TensorQueue.used, hnone, Option.toList_none, List.length_nil] at hlt
    simp only [TensorQueue.used, Option.toList_some, List.length_singleton]
    omega
  · cases hq

theorem fill (h : q.Bounded depth buffers) (hq : q.fill a = some q') :
    q'.Bounded depth buffers := by
  rw [TensorQueue.fill] at hq
  split at hq
  · rename_i hfresh
    cases hq
    refine ⟨h.queued, ?_⟩
    obtain ⟨x, hx⟩ := Option.isSome_iff_exists.mp hfresh
    simpa [TensorQueue.used, hx] using h.used
  · cases hq

theorem enQue (h : q.Bounded depth buffers) (hq : q.enQue depth = some q') :
    q'.Bounded depth buffers := by
  rw [TensorQueue.enQue] at hq
  split at hq
  · rename_i a hfresh
    split at hq
    · rename_i hroom
      cases hq
      have hused := h.used
      simp only [TensorQueue.used, hfresh, Option.toList_some, List.length_singleton] at hused
      refine ⟨?_, ?_⟩
      · rw [List.length_append, List.length_singleton]
        omega
      · simp only [TensorQueue.used, List.length_append, List.length_singleton,
          Option.toList_none, List.length_nil]
        omega
    · cases hq
  · cases hq

theorem deQue (h : q.Bounded depth buffers) (hq : q.deQue = some (a, q')) :
    q'.Bounded depth buffers := by
  rw [TensorQueue.deQue] at hq
  split at hq
  · rename_i b queued hqueued hcurrent
    cases hq
    have hlen := h.queued
    have hused := h.used
    simp only [TensorQueue.used, hqueued, hcurrent, List.length_cons, Option.toList_none,
      List.length_nil] at hlen hused
    refine ⟨by simp only; omega, ?_⟩
    simp only [TensorQueue.used, Option.toList_some, List.length_singleton]
    omega
  · cases hq

theorem freeTensor (h : q.Bounded depth buffers) (hq : q.freeTensor = some q') :
    q'.Bounded depth buffers := by
  rw [TensorQueue.freeTensor] at hq
  split at hq
  · cases hq
    refine ⟨h.queued, Nat.le_trans ?_ h.used⟩
    simp [TensorQueue.used]
  · cases hq

end Bounded

end TensorQueue
