import ChunkScaledDotKkt.Lib.TokenNet
import Mathlib.Algebra.BigOperators.Group.Finset.Basic
import Mathlib.Algebra.Order.BigOperators.Group.Finset

/-!
# Members of a token net over one memory

Several members run the same net, each with its own commands and tokens, on one memory.
Some parties take their commands in program order; the pipes of the others run ahead of
one another as the net allows.  A member is understood from its own net alone when its
commands act on its part of the memory as they do there, and those of the others leave
that part as it is (`Family.Views`).

## Main results

* `Family.Reachable.member` — every run projects to a run of each member's net.
* `Family.Reachable.serial` — what every interleaving of a member's net keeps.
* `Family.exists_step` — a member whose pending commands run in some order can step.
* `Family.Step.size_lt` — every step leaves less to do.
-/

namespace TokenNet

universe u v

/-- The pending commands and the tokens of every member, and the memory of all. -/
structure Family (γ ι κ φ : Type) (M : Type u) where
  todo : γ → ι → List κ
  tokens : γ → φ → ℕ
  mem : M

namespace Family

variable {γ ι κ φ : Type} {M : Type u} {M' : Type v}

/-- A member with a memory of its own. -/
def member (s : Family γ ι κ φ M) (g : γ) (mem : M') : State ι κ φ M' := ⟨s.todo g, s.tokens g, mem⟩

/-- All members have executed all their commands. -/
def Final (s : Family γ ι κ φ M) : Prop := ∀ g i, s.todo g i = []

variable [DecidableEq γ] [DecidableEq ι] (N : Net ι κ φ) (ordered : ι → Prop)
  (act : γ → κ → M → M)

/-- The state after command `k` of party `i` of member `g` has executed. -/
def fire (s : Family γ ι κ φ M) (g : γ) (i : ι) (pre : List κ) (k : κ) (post : List κ) :
    Family γ ι κ φ M where
  todo := Function.update s.todo g (Function.update (s.todo g) i (pre ++ post))
  tokens := Function.update s.tokens g (N.spend k (s.tokens g))
  mem := act g k s.mem

/-- One enabled command of one member executes. -/
inductive Step : Family γ ι κ φ M → Family γ ι κ φ M → Prop
  | fire {s : Family γ ι κ φ M} {g : γ} {i : ι} {pre : List κ} {k : κ} {post : List κ}
      (h : N.Enabled (s.member g s.mem) i pre k post) (hordered : ordered i → pre = []) :
      Step s (s.fire N act g i pre k post)

/-- Reachability by any interleaving of the members and their parties. -/
def Reachable : Family γ ι κ φ M → Family γ ι κ φ M → Prop :=
  Relation.ReflTransGen (Step N ordered act)

variable {N ordered act}

/-! ## Pending commands -/

section

variable {s : Family γ ι κ φ M} {g : γ} {i : ι} {pre post : List κ} {k : κ}

@[simp] theorem fire_todo : (s.fire N act g i pre k post).todo g i = pre ++ post := by
  simp [fire]

theorem fire_todo_of_ne {i' : ι} (h : i' ≠ i) :
    (s.fire N act g i pre k post).todo g i' = s.todo g i' := by
  simp [fire, h]

theorem fire_todo_other {g' : γ} (h : g' ≠ g) :
    (s.fire N act g i pre k post).todo g' = s.todo g' := by
  simp [fire, h]

theorem fire_member_of_ne {g' : γ} (h : g' ≠ g) (m' : M') :
    (s.fire N act g i pre k post).member g' m' = s.member g' m' := by
  simp [member, fire, h]

theorem fire_member {act' : γ → κ → M' → M'} (m' : M') :
    (s.fire N act g i pre k post).member g (act' g k m') =
      N.fire (act' g) (s.member g m') i pre k post := by
  simp [member, fire, Net.fire]

end

theorem Step.sublist {s s' : Family γ ι κ φ M} (h : Step N ordered act s s') (g : γ) (i : ι) :
    (s'.todo g i).Sublist (s.todo g i) := by
  cases h with
  | @fire g' i' pre k post h hordered =>
      by_cases hg : g = g'
      · subst hg
        by_cases hi : i = i'
        · subst hi
          have hsplit : s.todo g i = pre ++ k :: post := h.split
          rw [fire_todo, hsplit]
          exact (List.Sublist.refl pre).append (List.sublist_cons_self k post)
        · rw [fire_todo_of_ne hi]
      · rw [fire_todo_other hg]

/-- Pending commands are commands of the program, in its order. -/
theorem Reachable.sublist {s s' : Family γ ι κ φ M} (h : Reachable N ordered act s s') (g : γ)
    (i : ι) : (s'.todo g i).Sublist (s.todo g i) := by
  induction h with
  | refl => exact List.Sublist.refl _
  | tail _ hstep ih => exact (hstep.sublist g i).trans ih

/-! ## One member -/

/-- The commands that satisfy `P` act on their member's part of the memory, which `rel`
relates to a memory of its own, as in the net of the member, and on no other part. -/
structure Views (act : γ → κ → M → M) (act' : γ → κ → M' → M') (P : γ → κ → Prop)
    (rel : γ → M → M' → Prop) : Prop where
  own : ∀ {g k m m'}, P g k → rel g m m' → rel g (act g k m) (act' g k m')
  other : ∀ {g g' k m m'}, P g k → g' ≠ g → rel g' m m' → rel g' (act g k m) m'

/-- The member is in a state that its net reaches with a memory of its own. -/
def Tracks (act' : γ → κ → M' → M') (rel : γ → M → M' → Prop) (g : γ) (s₀ : State ι κ φ M')
    (N : Net ι κ φ) (s : Family γ ι κ φ M) : Prop :=
  ∃ m', N.Reachable (act' g) s₀ (s.member g m') ∧ rel g s.mem m'

theorem Step.tracks {act' : γ → κ → M' → M'} {P : γ → κ → Prop} {rel : γ → M → M' → Prop}
    (hviews : Views act act' P rel) {s s' : Family γ ι κ φ M} (h : Step N ordered act s s')
    (hP : ∀ g i, ∀ k ∈ s.todo g i, P g k) {g : γ} {s₀ : State ι κ φ M'}
    (htracks : Tracks act' rel g s₀ N s) : Tracks act' rel g s₀ N s' := by
  obtain ⟨m', hreach, hrel⟩ := htracks
  cases h with
  | @fire g' i pre k post h hordered =>
      have hk : P g' k := hP g' i k (by
        have hsplit : s.todo g' i = pre ++ k :: post := h.split
        simp [hsplit])
      by_cases hg : g = g'
      · subst hg
        refine ⟨act' g k m', hreach.tail ?_, hviews.own hk hrel⟩
        have henabled : N.Enabled (s.member g m') i pre k post := ⟨h.split, h.unheld, h.granted⟩
        rw [fire_member]
        exact .fire henabled
      · refine ⟨m', ?_, hviews.other hk hg hrel⟩
        rwa [fire_member_of_ne hg]

/-- **Every run projects to a run of each member's net.** -/
theorem Reachable.member {act' : γ → κ → M' → M'} {P : γ → κ → Prop} {rel : γ → M → M' → Prop}
    (hviews : Views act act' P rel) {s₀ s : Family γ ι κ φ M} (h : Reachable N ordered act s₀ s)
    (hP : ∀ g i, ∀ k ∈ s₀.todo g i, P g k) {g : γ} {m₀ : M'} (hrel : rel g s₀.mem m₀) :
    Tracks act' rel g (s₀.member g m₀) N s := by
  induction h with
  | refl => exact ⟨m₀, .refl, hrel⟩
  | tail hreach hstep ih =>
      exact hstep.tracks hviews
        (fun g i k hk => hP g i k ((Reachable.sublist hreach g i).subset hk)) ih

/-- **A stable invariant of a member's net** holds of the member in every run. -/
theorem Reachable.serial {act' : γ → κ → M' → M'} {P : γ → κ → Prop} {rel : γ → M → M' → Prop}
    (hviews : Views act act' P rel) {s₀ s : Family γ ι κ φ M} (h : Reachable N ordered act s₀ s)
    (hP : ∀ g i, ∀ k ∈ s₀.todo g i, P g k) {g : γ} {m₀ : M'} (hrel : rel g s₀.mem m₀)
    {I : List κ → (φ → ℕ) → M' → Prop} (hI : Net.Stable N (act' g) I) {L : List κ}
    (hL : N.Serial L (s₀.todo g)) (h₀ : I L (s₀.tokens g) m₀) :
    ∃ m' R, rel g s.mem m' ∧ N.Serial R (s.todo g) ∧ I R (s.tokens g) m' := by
  obtain ⟨m', hreach, hrel'⟩ := h.member hviews hP hrel
  have hserial : N.Serial L (s₀.member g m₀).todo := hL
  obtain ⟨R, hR, hIR⟩ := Net.reachable_serial hI hserial h₀ hreach
  exact ⟨m', R, hrel', hR, hIR⟩

/-! ## Progress -/

/-- **A member can step** when its pending commands run in some order. -/
theorem exists_step {s : Family γ ι κ φ M} {g : γ} {R : List κ} (hR : N.Serial R (s.todo g))
    (hruns : N.Runs R (s.tokens g)) {i : ι} (hi : s.todo g i ≠ []) :
    ∃ s', Step N ordered act s s' := by
  have hfinal : ¬ Net.Final (s.member g s.mem) := fun h => hi (h i)
  have hserial : N.Serial R (s.member g s.mem).todo := hR
  obtain ⟨k, post, h⟩ := Net.exists_enabled hserial hruns hfinal
  exact ⟨_, .fire h fun _ => rfl⟩

variable [Fintype ι]

/-- The number of pending commands of some members. -/
def size (G : Finset γ) (s : Family γ ι κ φ M) : ℕ := ∑ g ∈ G, ∑ i, (s.todo g i).length

/-- **A step executes one command.** -/
theorem Step.size_lt {G : Finset γ} {s s' : Family γ ι κ φ M} (h : Step N ordered act s s')
    (hG : ∀ g, g ∉ G → ∀ i, s.todo g i = []) : s'.size G < s.size G := by
  have hle : ∀ g i, (s'.todo g i).length ≤ (s.todo g i).length :=
    fun g i => (h.sublist g i).length_le
  cases h with
  | @fire g i pre k post h hordered =>
      have hsplit : s.todo g i = pre ++ k :: post := h.split
      have hmem : g ∈ G := by
        by_contra hno
        rw [hG g hno i] at hsplit
        simp at hsplit
      refine Finset.sum_lt_sum (fun g' _ => Finset.sum_le_sum fun i' _ => hle g' i') ⟨g, hmem, ?_⟩
      refine Finset.sum_lt_sum (fun i' _ => hle g i') ⟨i, Finset.mem_univ i, ?_⟩
      rw [fire_todo, hsplit]
      simp

end Family

end TokenNet
