import Mathlib.Data.List.Basic
import Mathlib.Tactic.Common

/-!
# Triples over lists of facts

A straight-line program runs over a state of which a proof tracks a few facts at a
time: what one region of a memory holds, say.  A command keeps the facts it does not
touch, and the test for that is syntactic (`Keeps`); what it adds is one new fact.
A context is a list of facts, and a triple takes a context to a context.

## Main results

* `Triple.step` — a command adds one fact to those it keeps.
* `Triple.frame` — a program keeps the facts each of its commands keeps.
* `Triple.append` — triples compose.
-/

/-- Commands, facts about the state, and a test that a command keeps a fact. -/
structure FactLogic (S C Φ : Type) where
  act : C → S → S
  Holds : Φ → S → Prop
  Keeps : C → Φ → Prop
  sound : ∀ {c φ s}, Keeps c φ → Holds φ s → Holds φ (act c s)

namespace FactLogic

variable {S C Φ : Type} (L : FactLogic S C Φ)

/-- The state after a list of commands. -/
def run (cs : List C) (s : S) : S := cs.foldl (fun s c => L.act c s) s

@[simp] theorem run_append (cs ds : List C) (s : S) :
    L.run (cs ++ ds) s = L.run ds (L.run cs s) := by
  simp [run]

/-- All facts of a context hold. -/
def Sat (Γ : List Φ) (s : S) : Prop := ∀ φ ∈ Γ, L.Holds φ s

@[simp] theorem sat_nil (s : S) : L.Sat [] s := by
  simp [Sat]

@[simp] theorem sat_cons {φ : Φ} {Γ : List Φ} {s : S} :
    L.Sat (φ :: Γ) s ↔ L.Holds φ s ∧ L.Sat Γ s := by
  simp [Sat]

@[simp] theorem sat_append {Γ Δ : List Φ} {s : S} :
    L.Sat (Γ ++ Δ) s ↔ L.Sat Γ s ∧ L.Sat Δ s := by
  simp [Sat, or_imp, forall_and]

/-- The command keeps every fact of the context. -/
def KeepsAll (Γ : List Φ) (c : C) : Prop := ∀ φ ∈ Γ, L.Keeps c φ

@[simp] theorem keepsAll_nil (c : C) : L.KeepsAll [] c := by
  simp [KeepsAll]

@[simp] theorem keepsAll_cons {φ : Φ} {Γ : List Φ} {c : C} :
    L.KeepsAll (φ :: Γ) c ↔ L.Keeps c φ ∧ L.KeepsAll Γ c := by
  simp [KeepsAll]

/-- From any state with the first context, the program ends in a state with the
second. -/
def Triple (Γ : List Φ) (cs : List C) (Δ : List Φ) : Prop := ∀ s, L.Sat Γ s → L.Sat Δ (L.run cs s)

namespace Triple

variable {L} {Γ Γ' Δ Δ' : List Φ} {cs ds : List C} {c : C} {φ : Φ}

theorem nil (h : Δ ⊆ Γ) : L.Triple Γ [] Δ := by
  intro s hs ψ hψ
  exact hs ψ (h hψ)

/-- Nothing is known after any program, and nothing is needed for that. -/
theorem trivial : L.Triple Γ cs [] := by
  intro s _
  exact L.sat_nil _

theorem append (h : L.Triple Γ cs Γ') (h' : L.Triple Γ' ds Δ) : L.Triple Γ (cs ++ ds) Δ := by
  intro s hs
  rw [run_append]
  exact h' _ (h s hs)

theorem cons (h : L.Triple Γ [c] Γ') (h' : L.Triple Γ' cs Δ) : L.Triple Γ (c :: cs) Δ :=
  append h h'

theorem weaken (h : L.Triple Γ cs Δ) (hpre : Γ ⊆ Γ') (hpost : Δ' ⊆ Δ) : L.Triple Γ' cs Δ' := by
  intro s hs ψ hψ
  have hΓ : L.Sat Γ s := fun χ hχ => hs χ (hpre hχ)
  exact h s hΓ ψ (hpost hψ)

/-- A command adds the fact it establishes to facts it keeps. -/
theorem step (heff : ∀ s, L.Sat Γ s → L.Holds φ (L.act c s)) (hsub : Δ ⊆ Γ)
    (hkeep : L.KeepsAll Δ c) : L.Triple Γ [c] (φ :: Δ) := by
  intro s hs
  rw [sat_cons]
  constructor
  · exact heff s hs
  · intro ψ hψ
    exact L.sound (hkeep ψ hψ) (hs ψ (hsub hψ))

/-- Commands keep what each of them keeps. -/
theorem frame (h : ∀ c ∈ cs, L.KeepsAll Γ c) : L.Triple Γ cs Γ := by
  induction cs with
  | nil => exact nil (List.Subset.refl Γ)
  | cons c cs ih =>
      have hc : L.Triple Γ [c] Γ := by
        intro s hs ψ hψ
        exact L.sound (h c (by simp) ψ hψ) (hs ψ hψ)
      exact cons hc (ih fun d hd => h d (by simp [hd]))

/-- A command that keeps the whole context can be passed over. -/
theorem skip (hc : L.KeepsAll Γ c) (h : L.Triple Γ cs Δ) : L.Triple Γ (c :: cs) Δ := by
  apply cons _ h
  apply frame
  simpa using hc

/-- A fact that the program keeps can be carried through. -/
theorem carry (φ : Φ) (h : L.Triple Γ cs Δ) (hkeep : ∀ c ∈ cs, L.Keeps c φ) :
    L.Triple (φ :: Γ) cs (φ :: Δ) := by
  intro s hs
  rw [sat_cons] at hs ⊢
  have hφ : L.Triple [φ] cs [φ] := frame fun c hc => by simpa using hkeep c hc
  exact ⟨hφ s (by simpa using hs.1) φ (by simp), h s hs.2⟩

/-- All facts follow when each does. -/
theorem of_each (h : ∀ φ ∈ Δ, L.Triple Γ cs [φ]) : L.Triple Γ cs Δ := by
  intro s hs φ hφ
  exact h φ hφ s hs φ (List.mem_singleton_self φ)

/-- Two postconditions of one program. -/
theorem and (h : L.Triple Γ cs Δ) (h' : L.Triple Γ cs Δ') : L.Triple Γ cs (Δ ++ Δ') := by
  intro s hs
  rw [sat_append]
  exact ⟨h s hs, h' s hs⟩

end Triple

end FactLogic
