import ChunkScaledDotKkt.Lib.TokenNet
import Mathlib.Data.List.Range

/-!
# Serial programs made of blocks

A serial program is a list of blocks, one for each turn of a loop.  What the token
net needs of it is checked block by block: `Fence.Passes` for the flags and
`Meets` for the assertions, with the count or the condition that holds between two
blocks.  A block whose commands are known is checked by evaluation.

## Main results

* `Fence.Passes.append`, `Fence.Passes.flatMap`, `Fence.Passes.of_inert`.
* `Net.runs_of_passes` — a program runs when every flag passes it.
* `Meets.append`, `Meets.flatMap` — the rules of composition for assertions.
-/

namespace TokenNet

universe u

variable {ι κ φ : Type} {M : Type u} {N : Net ι κ φ}

namespace Fence

variable (F : Fence N)

instance decidableSafe : ∀ (c : ℕ) (p : Bool) (R : List κ), Decidable (F.Safe c p R)
  | _, _, [] => isTrue trivial
  | c, p, k :: R =>
      have : Decidable (F.Safe (c - N.waits k F.flag + N.sets k F.flag)
        (F.earlier k || (p && N.waits k F.flag == 0)) R) := decidableSafe _ _ R
      inferInstanceAs (Decidable (_ ∧ _ ∧ _ ∧ _))

/-- The count that a list leaves behind. -/
def count (c : ℕ) (A : List κ) : ℕ :=
  A.foldl (fun c k => c - N.waits k F.flag + N.sets k F.flag) c

/-- The mark that a list leaves behind. -/
def mark (p : Bool) (A : List κ) : Bool :=
  A.foldl (fun p k => F.earlier k || (p && N.waits k F.flag == 0)) p

/-- From count `c` and mark `p` the list is safe, and leaves count `c'` and at most
mark `p'`. -/
def Passes (c : ℕ) (p : Bool) (A : List κ) (c' : ℕ) (p' : Bool) : Prop :=
  F.Safe c p A ∧ F.count c A = c' ∧ (F.mark p A = true → p' = true)

instance (c : ℕ) (p : Bool) (A : List κ) (c' : ℕ) (p' : Bool) : Decidable (F.Passes c p A c' p') :=
  inferInstanceAs (Decidable (_ ∧ _ ∧ (_ → _)))

variable {F}

theorem scan_eq {c : ℕ} {p : Bool} {A : List κ} : F.scan c p A = (F.count c A, F.mark p A) := by
  induction A generalizing c p with
  | nil => rfl
  | cons k A ih => exact ih

theorem Passes.safe {c c' : ℕ} {p p' : Bool} {A : List κ} (h : F.Passes c p A c' p') :
    F.Safe c p A := h.1

theorem Passes.nil (c : ℕ) (p : Bool) : F.Passes c p [] c p := ⟨trivial, rfl, id⟩

theorem mark_mono {p q : Bool} {A : List κ} (h : p = true → q = true)
    (hp : F.mark p A = true) : F.mark q A = true := by
  induction A generalizing p q with
  | nil => exact h hp
  | cons k A ih =>
      refine ih ?_ hp
      simp only [Bool.or_eq_true, Bool.and_eq_true]
      exact Or.imp_right fun ⟨h1, h2⟩ => ⟨h h1, h2⟩

theorem Passes.append {c c' c'' : ℕ} {p p' p'' : Bool} {A B : List κ}
    (hA : F.Passes c p A c' p') (hB : F.Passes c' p' B c'' p'') :
    F.Passes c p (A ++ B) c'' p'' := by
  obtain ⟨hsafe, hcount, hmark⟩ := hA
  refine ⟨?_, ?_, ?_⟩
  · rw [safe_append, scan_eq, hcount]
    exact ⟨hsafe, hB.1.mono hmark⟩
  · rw [count, List.foldl_append]
    change F.count (F.count c A) B = c''
    rw [hcount, hB.2.1]
  · rw [mark, List.foldl_append]
    exact fun h => hB.2.2 (mark_mono hmark h)

/-- **Blocks with a count between them**: if each block takes the count and mark before
it to those after it, so does the whole loop. -/
theorem Passes.flatMap {c : ℕ → ℕ} {p : ℕ → Bool} {block : ℕ → List κ} {n : ℕ}
    (h : ∀ r < n, F.Passes (c r) (p r) (block r) (c (r + 1)) (p (r + 1))) :
    F.Passes (c 0) (p 0) ((List.range n).flatMap block) (c n) (p n) := by
  induction n with
  | zero => exact .nil _ _
  | succ n ih =>
      rw [List.range_succ, List.flatMap_append, List.flatMap_singleton]
      exact (ih fun r hr => h r (by omega)).append (h n (by omega))

/-- The command neither touches the flag nor belongs to a fenced class. -/
def Inert (F : Fence N) (k : κ) : Prop :=
  N.waits k F.flag = 0 ∧ N.sets k F.flag = 0 ∧ F.earlier k = false ∧ F.later k = false

instance (k : κ) : Decidable (F.Inert k) := inferInstanceAs (Decidable (_ ∧ _ ∧ _ ∧ _))

theorem Inert.passes {k : κ} (h : F.Inert k) (c : ℕ) (p : Bool) : F.Passes c p [k] c p := by
  obtain ⟨hw, hs, he, hl⟩ := h
  simp [Passes, Safe, count, mark, hw, hs, he, hl]

/-- Inert commands may be left out. -/
theorem Passes.of_filter (keep : κ → Bool) {c c' : ℕ} {p p' : Bool} {A : List κ}
    (h : ∀ k ∈ A, keep k = false → F.Inert k) (hA : F.Passes c p (A.filter keep) c' p') :
    F.Passes c p A c' p' := by
  induction A generalizing c p with
  | nil => exact hA
  | cons k A ih =>
      have hrest : ∀ x ∈ A, keep x = false → F.Inert x := fun x hx => h x (by simp [hx])
      cases hk : keep k with
      | false =>
          rw [List.filter_cons_of_neg (by simp [hk])] at hA
          exact ((h k (by simp) hk).passes c p).append (ih hrest hA)
      | true =>
          rw [List.filter_cons_of_pos hk] at hA
          obtain ⟨⟨hw, he, hl, hsafe⟩, hcount, hmark⟩ := hA
          obtain ⟨hs, hc, hm⟩ := ih hrest ⟨hsafe, hcount, hmark⟩
          exact ⟨⟨hw, he, hl, hs⟩, hc, hm⟩

/-- Inert commands leave the count as it is. -/
theorem Passes.of_inert {A : List κ} (h : ∀ k ∈ A, F.Inert k) (c : ℕ) (p : Bool) :
    F.Passes c p A c p := by
  refine of_filter (fun _ => false) (fun k hk _ => h k hk) ?_
  rw [List.filter_false]
  exact .nil c p

/-- Commands that the fence does not tell apart may be exchanged. -/
theorem Passes.map_congr {α : Type} {g g' : α → κ} {c c' : ℕ} {p p' : Bool} {A : List α}
    (h : ∀ x, N.waits (g x) F.flag = N.waits (g' x) F.flag ∧
      N.sets (g x) F.flag = N.sets (g' x) F.flag ∧
      F.earlier (g x) = F.earlier (g' x) ∧ F.later (g x) = F.later (g' x))
    (hA : F.Passes c p (A.map g) c' p') : F.Passes c p (A.map g') c' p' := by
  induction A generalizing c p with
  | nil => exact hA
  | cons x A ih =>
      obtain ⟨hw, hs, he, hl⟩ := h x
      obtain ⟨⟨hwait, hearly, hlate, hsafe⟩, hcount, hmark⟩ := hA
      have hrest := ih ⟨hsafe, hcount, hmark⟩
      rw [hw, hs, he] at hrest
      rw [hw] at hwait
      rw [he] at hearly
      rw [hl, hw] at hlate
      exact ⟨⟨hwait, hearly, hlate, hrest.1⟩, hrest.2⟩

/-- The fence of a flag with no classes: it passes a list exactly when the waits on
the flag are granted. -/
def plain (N : Net ι κ φ) (f : φ) : Fence N where
  flag := f
  earlier _ := false
  later _ := false
  feeds _ _ h := by cases h
  admits _ _ _ h := by cases h

/-- Without later commands the mark of a scan does not matter. -/
theorem Safe.of_plain {f : φ} {c : ℕ} {p q : Bool} {A : List κ} (h : (plain N f).Safe c p A) :
    (plain N f).Safe c q A := by
  induction A generalizing c p q with
  | nil => trivial
  | cons k A ih =>
      refine ⟨h.1, h.2.1, ?_, ih h.2.2.2⟩
      intro hl
      cases hl

/-- A fence grants the waits on its flag. -/
theorem Passes.plain {c c' : ℕ} {p p' q : Bool} {A : List κ} (h : F.Passes c p A c' p') :
    (plain N F.flag).Passes c q A c' true := by
  obtain ⟨hsafe, hcount, -⟩ := h
  refine ⟨?_, hcount, fun _ => rfl⟩
  clear hcount
  induction A generalizing c p with
  | nil => trivial
  | cons k A ih =>
      refine ⟨hsafe.1, ?_, ?_, (ih hsafe.2.2.2).of_plain⟩
      · intro hearly
        cases hearly
      · intro hlate
        cases hlate

end Fence

/-- **A program runs when every flag passes it.** -/
theorem Net.runs_of_passes {A : List κ} {τ τ' : φ → ℕ}
    (h : ∀ f, (Fence.plain N f).Passes (τ f) true A (τ' f) true) :
    N.Runs A τ ∧ N.run A τ = τ' := by
  induction A generalizing τ with
  | nil => exact ⟨trivial, funext fun f => (h f).2.1⟩
  | cons k A ih =>
      have hrest : ∀ f, (Fence.plain N f).Passes (N.spend k τ f) true A (τ' f) true := by
        intro f
        exact ⟨(h f).1.2.2.2.of_plain, (h f).2.1, fun _ => rfl⟩
      obtain ⟨hruns, hrun⟩ := ih hrest
      exact ⟨⟨fun f => (h f).1.1, hruns⟩, hrun⟩

/-! ## Assertions block by block -/

/-- What commands keep as long as they meet their assertions, the list keeps. -/
theorem Net.Asserts.invariant {act : κ → M → M} {good : κ → M → Prop} {I : M → Prop}
    (hstep : ∀ k m, good k m → I m → I (act k m)) {A : List κ} {m : M}
    (h : Net.Asserts act good A m) (hI : I m) : I (Net.exec act A m) := by
  induction A generalizing m with
  | nil => exact hI
  | cons k A ih => exact ih h.2 (hstep k m h.1 hI)

/-- From any memory with `P` the list meets its assertions and ends with `Q`. -/
def Meets (act : κ → M → M) (good : κ → M → Prop) (P : M → Prop) (A : List κ)
    (Q : M → Prop) : Prop :=
  ∀ m, P m → Net.Asserts act good A m ∧ Q (Net.exec act A m)

namespace Meets

variable {act : κ → M → M} {good : κ → M → Prop} {P Q S : M → Prop} {A B : List κ}

theorem nil : Meets act good P [] P := fun _ hm => ⟨trivial, hm⟩

theorem cons {k : κ} (hk : ∀ m, P m → good k m ∧ Q (act k m)) (hA : Meets act good Q A S) :
    Meets act good P (k :: A) S := by
  intro m hm
  obtain ⟨hgood, hq⟩ := hk m hm
  obtain ⟨hasserts, hs⟩ := hA _ hq
  exact ⟨⟨hgood, hasserts⟩, hs⟩

theorem append (hA : Meets act good P A Q) (hB : Meets act good Q B S) :
    Meets act good P (A ++ B) S := by
  intro m hm
  obtain ⟨ha, hq⟩ := hA m hm
  obtain ⟨hb, hs⟩ := hB _ hq
  rw [Net.asserts_append, Net.exec_append]
  exact ⟨⟨ha, hb⟩, hs⟩

theorem weaken {P' Q' : M → Prop} (h : Meets act good P A Q) (hP : ∀ m, P' m → P m)
    (hQ : ∀ m, Q m → Q' m) : Meets act good P' A Q' := by
  intro m hm
  obtain ⟨ha, hq⟩ := h m (hP m hm)
  exact ⟨ha, hQ _ hq⟩

/-- **A loop with an invariant between its turns.** -/
theorem flatMap {I : ℕ → M → Prop} {block : ℕ → List κ} {n : ℕ}
    (h : ∀ r < n, Meets act good (I r) (block r) (I (r + 1))) :
    Meets act good (I 0) ((List.range n).flatMap block) (I n) := by
  induction n with
  | zero => exact nil
  | succ n ih =>
      rw [List.range_succ, List.flatMap_append, List.flatMap_singleton]
      exact (ih fun r hr => h r (by omega)).append (h n (by omega))

/-- Commands that neither change the memory nor assert anything may be left out. -/
theorem of_filter {acts : κ → Bool} (h : ∀ k, acts k = false → ∀ m, good k m ∧ act k m = m)
    (hA : Meets act good P (A.filter acts) Q) : Meets act good P A Q := by
  intro m hm
  induction A generalizing m P with
  | nil => exact hA m hm
  | cons k A ih =>
      cases hk : acts k with
      | false =>
          obtain ⟨hgood, hact⟩ := h k hk m
          rw [List.filter_cons_of_neg (by simp [hk])] at hA
          obtain ⟨ha, hq⟩ := ih hA m hm
          simp only [Net.Asserts, Net.exec, List.foldl_cons, hact]
          exact ⟨⟨hgood, ha⟩, hq⟩
      | true =>
          rw [List.filter_cons_of_pos hk] at hA
          obtain ⟨⟨hgood, -⟩, -⟩ := hA m hm
          have hrest : Meets act good (fun x => x = act k m) (A.filter acts) Q := by
            rintro _ rfl
            exact ⟨(hA m hm).1.2, (hA m hm).2⟩
          obtain ⟨ha, hq⟩ := ih hrest (act k m) rfl
          exact ⟨⟨hgood, ha⟩, hq⟩

/-- Commands without assertions that keep the condition. -/
theorem of_keeps (h : ∀ k ∈ A, ∀ m, P m → good k m ∧ P (act k m)) :
    Meets act good P A P := by
  induction A with
  | nil => exact nil
  | cons k A ih =>
      exact cons (h k (by simp)) (ih fun x hx => h x (by simp [hx]))

/-- Commands that are images of operations. -/
theorem map {α : Type} {g : α → κ} {A : List α}
    (h : Meets (fun x => act (g x)) (fun x => good (g x)) P A Q) :
    Meets act good P (A.map g) Q := by
  induction A generalizing P with
  | nil => exact h
  | cons x A ih =>
      intro m hm
      have hrest : Meets (fun x => act (g x)) (fun x => good (g x)) (fun y => y = act (g x) m)
          A Q := by
        rintro _ rfl
        exact ⟨(h m hm).1.2, (h m hm).2⟩
      obtain ⟨ha, hq⟩ := ih hrest (act (g x) m) rfl
      exact ⟨⟨(h m hm).1.1, ha⟩, hq⟩

end Meets

end TokenNet
