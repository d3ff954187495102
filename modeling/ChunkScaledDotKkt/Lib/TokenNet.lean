import Mathlib.Data.List.Basic
import Mathlib.Logic.Function.Basic
import Mathlib.Logic.Relation
import Mathlib.Data.Nat.Notation

/-!
# Token nets: in-order pipes synchronized by counting flags

Several parties each run a fixed list of commands.  A command may execute as soon
as no earlier pending command of its own party holds it back and every flag it
waits on has a token; executing it consumes the tokens it waits for and adds the
tokens it sets.  `before` says which earlier commands hold back which later ones,
so one definition covers an in-order pipe (commands of one pipe hold each other),
an issuing unit that blocks (its commands hold everything after them) and pipes
that run ahead of one another (no relation).

The analysis works on one list that serializes all pending commands.  Three facts
about a serialization survive every out-of-order execution step:

* it can be run in its own order without blocking (`Net.Runs`), so the first
  pending command is always enabled and no state is stuck;
* a flag fences two classes of commands (`Fence.Safe`), so no command of the later
  class executes while one of the earlier class is pending before it;
* assertions that hold in the serial order hold in every interleaving
  (`Net.Asserts`), provided conflicting commands are fenced.

## Main definitions

* `Net`, `State`, `Net.Step` — the parties, flags and transitions.
* `Net.Serial` — one list serializes the pending commands of all parties.
* `Fence` — a flag that separates an earlier class of commands from a later one.
* `Net.reachable_serial` — every reachable state has a serialization that still
  satisfies a stable invariant.
-/

namespace TokenNet

universe u

/-- Commands with their party, the in-order constraint inside a party, and the
tokens each command consumes and produces.  A flag has one consumer: two commands
that wait on it hold each other. -/
structure Net (ι κ φ : Type) where
  /-- The party that runs the command. -/
  party : κ → ι
  /-- `before e k`: while `e` is pending, the later command `k` of its party waits. -/
  before : κ → κ → Bool
  /-- Tokens a command consumes. -/
  waits : κ → φ → ℕ
  /-- Tokens a command produces. -/
  sets : κ → φ → ℕ
  /-- Commands that wait on one flag belong to one in-order pipe. -/
  consumer : ∀ e k f, 0 < waits e f → 0 < waits k f → party e = party k ∧ before e k = true

/-- The pending commands of every party in program order, the tokens, and the
memory the commands act on. -/
structure State (ι κ φ : Type) (M : Type u) where
  todo : ι → List κ
  tokens : φ → ℕ
  mem : M

namespace Net

variable {ι κ φ : Type} {M : Type u} (N : Net ι κ φ)

/-- `e` holds back `k` when both belong to one party that orders them. -/
def Holds (e k : κ) : Prop := N.party e = N.party k ∧ N.before e k = true

/-- The tokens left after a command executes. -/
def spend (k : κ) (τ : φ → ℕ) : φ → ℕ := fun f => τ f - N.waits k f + N.sets k f

/-- Command `k` of party `i` can execute: no pending command before it holds it
back and all its tokens are there. -/
structure Enabled (s : State ι κ φ M) (i : ι) (pre : List κ) (k : κ) (post : List κ) : Prop where
  split : s.todo i = pre ++ k :: post
  unheld : ∀ e ∈ pre, N.before e k = false
  granted : ∀ f, N.waits k f ≤ s.tokens f

/-! ## Serial runs -/

/-- The tokens after the commands of a list have executed in order. -/
def run : List κ → (φ → ℕ) → φ → ℕ
  | [], τ => τ
  | k :: R, τ => run R (N.spend k τ)

/-- Executed in its own order, the list never waits for a missing token. -/
def Runs : List κ → (φ → ℕ) → Prop
  | [], _ => True
  | k :: R, τ => (∀ f, N.waits k f ≤ τ f) ∧ Runs R (N.spend k τ)

variable {N}

/-- Commands that do not hold each other wait on different flags. -/
theorem waits_eq_zero {e k : κ} (h : ¬ N.Holds e k) {f : φ} (hf : 0 < N.waits k f) :
    N.waits e f = 0 := by
  by_contra hne
  exact h (N.consumer e k f (Nat.pos_of_ne_zero hne) hf)

/-- Granted commands that do not hold each other spend tokens in either order. -/
theorem spend_comm {e k : κ} {τ : φ → ℕ} (h : ¬ N.Holds e k)
    (he : ∀ f, N.waits e f ≤ τ f) (hk : ∀ f, N.waits k f ≤ τ f) :
    N.spend e (N.spend k τ) = N.spend k (N.spend e τ) := by
  funext f
  have he := he f
  have hk := hk f
  simp only [spend]
  rcases Nat.eq_zero_or_pos (N.waits k f) with h0 | hpos
  · omega
  · have := waits_eq_zero h hpos
    omega

theorem granted_spend {e k : κ} {τ : φ → ℕ} (h : ¬ N.Holds e k)
    (hk : ∀ f, N.waits k f ≤ τ f) : ∀ f, N.waits k f ≤ N.spend e τ f := by
  intro f
  rcases Nat.eq_zero_or_pos (N.waits k f) with h0 | hpos
  · omega
  · have := waits_eq_zero h hpos
    have := hk f
    simp only [spend]
    omega

theorem granted_spend' {e k : κ} {τ : φ → ℕ} (h : ¬ N.Holds e k)
    (he : ∀ f, N.waits e f ≤ τ f) : ∀ f, N.waits e f ≤ N.spend k τ f := by
  intro f
  have := he f
  simp only [spend]
  rcases Nat.eq_zero_or_pos (N.waits k f) with h0 | hpos
  · omega
  · have := waits_eq_zero h hpos
    omega

/-- Executing a command early leaves the final tokens of the serial run as they are. -/
theorem run_remove {P Q : List κ} {k : κ} {τ : φ → ℕ} (hr : N.Runs (P ++ k :: Q) τ)
    (hk : ∀ e ∈ P, ¬ N.Holds e k) (hf : ∀ f, N.waits k f ≤ τ f) :
    N.run (P ++ Q) (N.spend k τ) = N.run (P ++ k :: Q) τ := by
  induction P generalizing τ with
  | nil => rfl
  | cons e P ih =>
      have hek := hk e (by simp)
      simp only [List.cons_append, run]
      rw [spend_comm hek hr.1 hf]
      exact ih hr.2 (fun x hx => hk x (by simp [hx])) (granted_spend hek hf)

/-- A list that runs in order still does after one of its commands has executed
early: nothing before it waits on the same flags. -/
theorem Runs.remove {P Q : List κ} {k : κ} {τ : φ → ℕ} (hr : N.Runs (P ++ k :: Q) τ)
    (hk : ∀ e ∈ P, ¬ N.Holds e k) (hf : ∀ f, N.waits k f ≤ τ f) :
    N.Runs (P ++ Q) (N.spend k τ) := by
  induction P generalizing τ with
  | nil => exact hr.2
  | cons e P ih =>
      have hek := hk e (by simp)
      refine ⟨granted_spend' hek hr.1, ?_⟩
      have := ih hr.2 (fun x hx => hk x (by simp [hx])) (granted_spend hek hf)
      rwa [← spend_comm hek hr.1 hf] at this

/-! ## Steps and serializations -/

variable (N) [DecidableEq ι]

/-- The state after command `k` of party `i` has executed. -/
def fire (act : κ → M → M) (s : State ι κ φ M) (i : ι) (pre : List κ) (k : κ) (post : List κ) :
    State ι κ φ M where
  todo := Function.update s.todo i (pre ++ post)
  tokens := N.spend k s.tokens
  mem := act k s.mem

/-- One enabled command of one party executes. -/
inductive Step (act : κ → M → M) : State ι κ φ M → State ι κ φ M → Prop
  | fire {s : State ι κ φ M} {i : ι} {pre : List κ} {k : κ} {post : List κ}
      (h : N.Enabled s i pre k post) : Step act s (N.fire act s i pre k post)

/-- Reachability by any interleaving of the parties. -/
def Reachable (act : κ → M → M) : State ι κ φ M → State ι κ φ M → Prop :=
  Relation.ReflTransGen (N.Step act)

/-- All parties have executed all their commands. -/
def Final (s : State ι κ φ M) : Prop := ∀ i, s.todo i = []

/-- `R` lists the pending commands of all parties, each party's in program order. -/
def Serial (R : List κ) (todo : ι → List κ) : Prop :=
  ∀ i, R.filter (fun k => N.party k = i) = todo i

variable {N}

/-- A pending command of one party sits in the serialization between the commands
that come before and after it in its party. -/
theorem Serial.split {R : List κ} {todo : ι → List κ} (h : N.Serial R todo) {i : ι}
    {pre : List κ} {k : κ} {post : List κ} (hs : todo i = pre ++ k :: post) :
    ∃ P Q, R = P ++ k :: Q ∧ N.party k = i ∧
      P.filter (fun e => N.party e = i) = pre ∧ Q.filter (fun e => N.party e = i) = post := by
  have hR := h i
  rw [hs, List.filter_eq_append_iff] at hR
  obtain ⟨P₁, R₁, rfl, hP₁, hR₁⟩ := hR
  rw [List.filter_eq_cons_iff] at hR₁
  obtain ⟨P₂, Q, rfl, hP₂, hk, hQ⟩ := hR₁
  refine ⟨P₁ ++ P₂, Q, by simp, by simpa using hk, ?_, hQ⟩
  have hnil : P₂.filter (fun e => N.party e = i) = [] := List.filter_eq_nil_iff.mpr hP₂
  rw [List.filter_append, hP₁, hnil, List.append_nil]

/-- Removing an executed command from the serialization keeps it a serialization. -/
theorem Serial.remove {P Q : List κ} {k : κ} {todo : ι → List κ}
    (h : N.Serial (P ++ k :: Q) todo) :
    N.Serial (P ++ Q) (Function.update todo (N.party k)
      (P.filter (fun e => N.party e = N.party k) ++
        Q.filter (fun e => N.party e = N.party k))) := by
  intro i
  by_cases hi : i = N.party k
  · subst hi
    rw [Function.update_self, List.filter_append]
  · have hk : ¬ N.party k = i := fun h => hi h.symm
    rw [Function.update_of_ne hi, ← h i]
    simp [List.filter_append, hk]

/-- The serialization orders a command after everything that holds it back. -/
theorem Enabled.not_holds {s : State ι κ φ M} {P : List κ} {k : κ} {post : List κ}
    (h : N.Enabled s (N.party k) (P.filter (fun e => N.party e = N.party k)) k post) :
    ∀ e ∈ P, ¬ N.Holds e k := by
  rintro e he ⟨hp, hb⟩
  have hmem : e ∈ P.filter (fun e => N.party e = N.party k) := by simp [he, hp]
  rw [h.unheld e hmem] at hb
  exact absurd hb (by decide)

/-- An invariant of serializations that survives the execution of any command that
is not held back and has its tokens. -/
def Stable (N : Net ι κ φ) (act : κ → M → M) (I : List κ → (φ → ℕ) → M → Prop) : Prop :=
  ∀ P k Q τ m, I (P ++ k :: Q) τ m → (∀ e ∈ P, ¬ N.Holds e k) → (∀ f, N.waits k f ≤ τ f) →
    I (P ++ Q) (N.spend k τ) (act k m)

/-- **Every reachable state has a serialization that satisfies a stable invariant.** -/
theorem reachable_serial {act : κ → M → M} {I : List κ → (φ → ℕ) → M → Prop}
    (hI : Stable N act I) {s₀ s : State ι κ φ M} {L : List κ}
    (hL : N.Serial L s₀.todo) (h₀ : I L s₀.tokens s₀.mem) (hs : N.Reachable act s₀ s) :
    ∃ R, N.Serial R s.todo ∧ I R s.tokens s.mem := by
  induction hs with
  | refl => exact ⟨L, hL, h₀⟩
  | tail _ hstep ih =>
      obtain ⟨R, hR, hIR⟩ := ih
      obtain ⟨h⟩ := hstep
      obtain ⟨P, Q, rfl, rfl, rfl, rfl⟩ := hR.split h.split
      exact ⟨P ++ Q, hR.remove, hI P _ Q _ _ hIR h.not_holds h.granted⟩

omit [DecidableEq ι] in
theorem Stable.and {act : κ → M → M} {I J : List κ → (φ → ℕ) → M → Prop}
    (hI : Stable N act I) (hJ : Stable N act J) :
    Stable N act (fun R τ m => I R τ m ∧ J R τ m) := by
  intro P k Q τ m h hk hf
  exact ⟨hI P k Q τ m h.1 hk hf, hJ P k Q τ m h.2 hk hf⟩

/-- Only the empty serialization belongs to a final state. -/
theorem Serial.final_iff {R : List κ} {s : State ι κ φ M} (h : N.Serial R s.todo) :
    Final s ↔ R = [] := by
  constructor
  · intro hf
    cases R with
    | nil => rfl
    | cons k R =>
        have := h (N.party k)
        rw [hf] at this
        simp at this
  · rintro rfl i
    exact (h i).symm

omit [DecidableEq ι] in
/-- The pending commands are commands of the program, in its order. -/
theorem stable_sublist (act : κ → M → M) (L : List κ) :
    Stable N act (fun R _ _ => R.Sublist L) := by
  intro P k Q τ m h hk hf
  exact ((List.Sublist.refl P).append (List.sublist_cons_self k Q)).trans h

/-- The first command of a serialization that runs in order is enabled. -/
theorem exists_enabled {s : State ι κ φ M} {R : List κ} (hR : N.Serial R s.todo)
    (hr : N.Runs R s.tokens) (hs : ¬ Final s) : ∃ k post, N.Enabled s (N.party k) [] k post := by
  cases R with
  | nil => exact absurd (hR.final_iff.mpr rfl) hs
  | cons k R =>
      refine ⟨k, R.filter (fun e => N.party e = N.party k), ?_, by simp, hr.1⟩
      rw [← hR (N.party k)]
      simp

/-- **No state is stuck.** -/
theorem exists_step {act : κ → M → M} {s : State ι κ φ M} {R : List κ}
    (hR : N.Serial R s.todo) (hr : N.Runs R s.tokens) (hs : ¬ Final s) :
    ∃ s', N.Step act s s' := by
  obtain ⟨k, post, h⟩ := exists_enabled hR hr hs
  exact ⟨_, .fire h⟩

end Net

/-! ## Fences -/

/-- A flag that separates two classes of commands.  Everything of the `earlier`
class is held before every setter of the flag, and every waiter on the flag holds
the whole `later` class. -/
structure Fence {ι κ φ : Type} (N : Net ι κ φ) where
  flag : φ
  earlier : κ → Bool
  later : κ → Bool
  feeds : ∀ e s, earlier e = true → 0 < N.sets s flag → N.Holds e s
  admits : ∀ w k, 0 < N.waits w flag → later k = true → N.Holds w k

namespace Fence

variable {ι κ φ : Type} {M : Type u} {N : Net ι κ φ} (F : Fence N)

/-- Scan a serialization with the token count `c` of the flag and a mark `p` that
an earlier command has been met since the last wait.  Earlier commands must meet an
empty flag, later ones must be separated by a wait, and waits must be granted. -/
def Safe : ℕ → Bool → List κ → Prop
  | _, _, [] => True
  | c, p, k :: R =>
      N.waits k F.flag ≤ c ∧
      (F.earlier k = true → c = 0) ∧
      (F.later k = true → p = true → 0 < N.waits k F.flag) ∧
      Safe (c - N.waits k F.flag + N.sets k F.flag)
        (F.earlier k || (p && N.waits k F.flag == 0)) R

variable {F}

theorem Safe.mono {c : ℕ} {p q : Bool} {R : List κ} (h : F.Safe c p R)
    (hpq : q = true → p = true) : F.Safe c q R := by
  induction R generalizing c p q with
  | nil => trivial
  | cons k R ih =>
      obtain ⟨hw, he, hl, hrest⟩ := h
      refine ⟨hw, he, fun hlk hq => hl hlk (hpq hq), ih hrest ?_⟩
      simp only [Bool.or_eq_true, Bool.and_eq_true]
      rintro (hk | ⟨hq, hk⟩)
      · exact Or.inl hk
      · exact Or.inr ⟨hpq hq, hk⟩

/-- **A fence survives early execution.**  A setter that ran early meets no earlier
command before it, a waiter none either, and any other command changes nothing. -/
theorem Safe.remove {c : ℕ} {p : Bool} {P Q : List κ} {k : κ} (h : F.Safe c p (P ++ k :: Q))
    (hk : ∀ e ∈ P, ¬ N.Holds e k) (hf : N.waits k F.flag ≤ c) :
    F.Safe (c - N.waits k F.flag + N.sets k F.flag) (p && N.waits k F.flag == 0) (P ++ Q) := by
  induction P generalizing c p with
  | nil =>
      refine h.2.2.2.mono ?_
      simp only [Bool.or_eq_true]
      exact Or.inr
  | cons e P ih =>
      obtain ⟨hwe, hearly, hlate, hrest⟩ := h
      have hek := hk e (by simp)
      have hset : F.earlier e = true → N.sets k F.flag = 0 := by
        intro he
        by_contra hne
        exact hek (F.feeds e k he (Nat.pos_of_ne_zero hne))
      have hwait : N.waits k F.flag = 0 ∨ N.waits e F.flag = 0 := by
        rcases Nat.eq_zero_or_pos (N.waits k F.flag) with h0 | hpos
        · exact Or.inl h0
        · exact Or.inr (Net.waits_eq_zero hek hpos)
      have hrest' := ih hrest (fun x hx => hk x (by simp [hx])) (by omega)
      refine ⟨by omega, ?_, ?_, ?_⟩
      · intro he
        have h1 := hearly he
        have h2 := hset he
        omega
      · intro hl hp
        simp only [Bool.and_eq_true] at hp
        exact hlate hl hp.1
      · have hnat : c - N.waits k F.flag + N.sets k F.flag - N.waits e F.flag +
              N.sets e F.flag =
            c - N.waits e F.flag + N.sets e F.flag - N.waits k F.flag + N.sets k F.flag := by
          omega
        rw [hnat]
        refine hrest'.mono ?_
        simp only [Bool.or_eq_true, Bool.and_eq_true, beq_iff_eq]
        rintro (he | ⟨⟨hp, hwk⟩, hwe'⟩)
        · -- an earlier command meets an empty flag, so the executed one is no waiter
          have := hearly he
          exact ⟨Or.inl he, by omega⟩
        · exact ⟨Or.inr ⟨hp, hwe'⟩, hwk⟩

/-- A flag with a token has no earlier-class command pending before a waiter: that
command would have met an empty flag. -/
theorem Safe.earlier_false_of_pos {c : ℕ} {p : Bool} {P Q : List κ}
    (h : F.Safe c p (P ++ Q)) (hw : ∀ e ∈ P, N.waits e F.flag = 0) (hc : 0 < c) :
    ∀ e ∈ P, F.earlier e = false := by
  induction P generalizing c p with
  | nil => simp
  | cons e P ih =>
      obtain ⟨-, hearly, -, hrest⟩ := h
      have he : F.earlier e = false := by
        by_contra hne
        have := hearly (by simpa using hne)
        omega
      rw [hw e (by simp)] at hrest
      intro x hx
      rcases List.mem_cons.mp hx with rfl | hx
      · exact he
      · exact ih hrest (fun y hy => hw y (by simp [hy])) (by omega) x hx

/-- With the mark set, a later command of the list is preceded by a wait. -/
theorem Safe.exists_wait {c : ℕ} {P Q : List κ} {k : κ} (h : F.Safe c true (P ++ k :: Q))
    (hl : F.later k = true) : 0 < N.waits k F.flag ∨ ∃ w ∈ P, 0 < N.waits w F.flag := by
  induction P generalizing c with
  | nil => exact Or.inl (h.2.2.1 hl rfl)
  | cons e P ih =>
      rcases Nat.eq_zero_or_pos (N.waits e F.flag) with h0 | hpos
      · have hrest := h.2.2.2
        simp only [h0, Bool.true_and, beq_self_eq_true, Bool.or_true] at hrest
        rcases ih hrest with hw | ⟨w, hw, hpos⟩
        · exact Or.inl hw
        · exact Or.inr ⟨w, by simp [hw], hpos⟩
      · exact Or.inr ⟨e, by simp, hpos⟩

/-- Without a wait in between, no earlier command precedes a later one. -/
theorem Safe.earlier_false_of_later {c : ℕ} {p : Bool} {P Q : List κ} {k : κ}
    (h : F.Safe c p (P ++ k :: Q)) (hw : ∀ e ∈ P, N.waits e F.flag = 0)
    (h0 : N.waits k F.flag = 0) (hl : F.later k = true) : ∀ e ∈ P, F.earlier e = false := by
  induction P generalizing c p with
  | nil => simp
  | cons e P ih =>
      have hrest := h.2.2.2
      have hwP : ∀ x ∈ P, N.waits x F.flag = 0 := fun x hx => hw x (by simp [hx])
      intro x hx
      cases he : F.earlier e with
      | false =>
          rcases List.mem_cons.mp hx with rfl | hx
          · exact he
          · exact ih hrest hwP x hx
      | true =>
          rw [he, Bool.true_or] at hrest
          rcases hrest.exists_wait hl with hk | ⟨w, hwmem, hpos⟩
          · omega
          · have := hwP w hwmem
            omega

/-- **No later command overtakes an earlier one.**  When a later-class command can
execute, no earlier-class command is pending before it. -/
theorem Safe.no_pending {τ : φ → ℕ} {p : Bool} {P Q : List κ} {k : κ}
    (h : F.Safe (τ F.flag) p (P ++ k :: Q)) (hk : ∀ e ∈ P, ¬ N.Holds e k)
    (hf : ∀ f, N.waits k f ≤ τ f) (hl : F.later k = true) :
    ∀ e ∈ P, F.earlier e = false := by
  -- a pending waiter on the flag would hold the later command back
  have hw : ∀ e ∈ P, N.waits e F.flag = 0 := by
    intro e he
    by_contra hne
    exact hk e he (F.admits e k (Nat.pos_of_ne_zero hne) hl)
  rcases Nat.eq_zero_or_pos (N.waits k F.flag) with h0 | hpos
  · exact h.earlier_false_of_later hw h0 hl
  · exact h.earlier_false_of_pos hw (Nat.lt_of_lt_of_le hpos (hf F.flag))

theorem stable_safe (F : Fence N) (act : κ → M → M) :
    Net.Stable N act (fun R τ _ => F.Safe (τ F.flag) false R) := by
  intro P k Q τ m h hk hf
  exact (h.remove hk (hf F.flag)).mono (by simp)

/-- The count and the mark that a scan leaves behind. -/
def scan : ℕ → Bool → List κ → ℕ × Bool
  | c, p, [] => (c, p)
  | c, p, k :: R =>
      scan (c - N.waits k F.flag + N.sets k F.flag)
        (F.earlier k || (p && N.waits k F.flag == 0)) R

theorem safe_append {c : ℕ} {p : Bool} {A B : List κ} :
    F.Safe c p (A ++ B) ↔ F.Safe c p A ∧ F.Safe (F.scan c p A).1 (F.scan c p A).2 B := by
  induction A generalizing c p with
  | nil => simp [Safe, scan]
  | cons k A ih => simp only [List.cons_append, Safe, scan, ih, and_assoc]

/-- A setter that meets an empty flag in serial order meets an empty flag whenever
neither a setter nor a waiter is pending before it. -/
theorem Safe.count_eq_zero {c : ℕ} {p : Bool} {P Q : List κ} {k : κ}
    (h : F.Safe c p (P ++ k :: Q)) (hw : ∀ e ∈ P, N.waits e F.flag = 0)
    (hs : ∀ e ∈ P, N.sets e F.flag = 0) (hk : F.earlier k = true) : c = 0 := by
  induction P generalizing c p with
  | nil => exact h.2.1 hk
  | cons e P ih =>
      have hrest := h.2.2.2
      rw [hw e (by simp), hs e (by simp)] at hrest
      exact ih hrest (fun x hx => hw x (by simp [hx])) (fun x hx => hs x (by simp [hx]))

/-- **A counter that never exceeds one.**  `F` says that setters of the flag meet it
empty in serial order, `G` fences the flag's waiters from its later setters. -/
theorem stable_le_one (F G : Fence N) (act : κ → M → M)
    (hset : ∀ k, 0 < N.sets k F.flag → F.earlier k = true ∧ G.later k = true)
    (hwait : ∀ k, 0 < N.waits k F.flag → G.earlier k = true)
    (hone : ∀ k, N.sets k F.flag ≤ 1) :
    Net.Stable N act (fun R τ _ =>
      (F.Safe (τ F.flag) false R ∧ G.Safe (τ G.flag) false R) ∧ τ F.flag ≤ 1) := by
  intro P k Q τ m ⟨⟨hF, hG⟩, hle⟩ hk hf
  refine ⟨⟨stable_safe F act P k Q τ m hF hk hf, stable_safe G act P k Q τ m hG hk hf⟩, ?_⟩
  have hkf := hf F.flag
  have h1 := hone k
  simp only [Net.spend]
  rcases Nat.eq_zero_or_pos (N.sets k F.flag) with h0 | hpos
  · omega
  · obtain ⟨he, hl⟩ := hset k hpos
    have hnowait : ∀ e ∈ P, N.waits e F.flag = 0 := by
      intro e heP
      by_contra hne
      have := hG.no_pending hk hf hl e heP
      rw [hwait e (Nat.pos_of_ne_zero hne)] at this
      exact absurd this (by decide)
    have hnoset : ∀ e ∈ P, N.sets e F.flag = 0 := by
      intro e heP
      by_contra hne
      exact hk e heP (F.feeds e k (hset e (Nat.pos_of_ne_zero hne)).1 hpos)
    have hzero := hF.count_eq_zero hnowait hnoset he
    omega

end Fence

/-! ## Races and assertions -/

namespace Net

variable {ι κ φ : Type} {M : Type u} {N : Net ι κ φ}

/-- The memory after the commands of a list have executed in order. -/
def exec (act : κ → M → M) (R : List κ) (m : M) : M := R.foldl (fun m k => act k m) m

/-- Executed in its own order, every command of the list meets its assertion. -/
def Asserts (act : κ → M → M) (good : κ → M → Prop) : List κ → M → Prop
  | [], _ => True
  | k :: R, m => good k m ∧ Asserts act good R (act k m)

theorem exec_append (act : κ → M → M) (A B : List κ) (m : M) :
    exec act (A ++ B) m = exec act B (exec act A m) := by
  simp [exec, List.foldl_append]

theorem asserts_append {act : κ → M → M} {good : κ → M → Prop} {A B : List κ} {m : M} :
    Asserts act good (A ++ B) m ↔ Asserts act good A m ∧ Asserts act good B (exec act A m) := by
  induction A generalizing m with
  | nil => simp [Asserts, exec]
  | cons k A ih => simp only [List.cons_append, Asserts, ih, exec, List.foldl_cons, and_assoc]

/-- Which pairs of commands may not be swapped, and a fence or an in-order pipe for
each such pair.  Commands that do not conflict commute and leave each other's
assertions alone. -/
structure Discipline (N : Net ι κ φ) (act : κ → M → M) (good : κ → M → Prop) where
  /-- The commands touch common memory and one of them writes it. -/
  conflict : κ → κ → Prop
  /-- The fences in use. -/
  fences : List (Fence N)
  covered : ∀ e k, conflict e k → N.Holds e k ∨
    ∃ F ∈ fences, F.earlier e = true ∧ F.later k = true
  comm : ∀ e k, ¬ conflict e k → ∀ m, act e (act k m) = act k (act e m)
  good_before : ∀ e k, ¬ conflict e k → ∀ m, good k (act e m) → good k m
  good_after : ∀ e k, ¬ conflict e k → ∀ m, good e m → good e (act k m)

namespace Discipline

variable {act : κ → M → M} {good : κ → M → Prop} (D : Discipline N act good)

/-- Every fence of the discipline is safe on the serialization. -/
def Safe (R : List κ) (τ : φ → ℕ) : Prop := ∀ F ∈ D.fences, F.Safe (τ F.flag) false R

variable {D}

/-- **No race**: a command that can execute conflicts with no pending command before
it. -/
theorem Safe.not_conflict {P Q : List κ} {k : κ} {τ : φ → ℕ} (h : D.Safe (P ++ k :: Q) τ)
    (hk : ∀ e ∈ P, ¬ N.Holds e k) (hf : ∀ f, N.waits k f ≤ τ f) :
    ∀ e ∈ P, ¬ D.conflict e k := by
  intro e he hc
  rcases D.covered e k hc with hh | ⟨F, hF, hearly, hlate⟩
  · exact hk e he hh
  · rw [(h F hF).no_pending hk hf hlate e he] at hearly
    exact absurd hearly (by decide)

theorem exec_remove {P Q : List κ} {k : κ} (hc : ∀ e ∈ P, ¬ D.conflict e k) (m : M) :
    exec act (P ++ Q) (act k m) = exec act (P ++ k :: Q) m := by
  induction P generalizing m with
  | nil => rfl
  | cons e P ih =>
      have := ih (fun x hx => hc x (by simp [hx])) (act e m)
      simp only [List.cons_append, exec, List.foldl_cons] at this ⊢
      rw [D.comm e k (hc e (by simp)) m]
      exact this

/-- An assertion met in serial order is met by a command that executes early. -/
theorem good_of_asserts {P Q : List κ} {k : κ} (hc : ∀ e ∈ P, ¬ D.conflict e k) {m : M}
    (h : Asserts act good (P ++ k :: Q) m) : good k m := by
  induction P generalizing m with
  | nil => exact h.1
  | cons e P ih =>
      have := ih (fun x hx => hc x (by simp [hx])) h.2
      exact D.good_before e k (hc e (by simp)) m this

theorem asserts_remove {P Q : List κ} {k : κ} (hc : ∀ e ∈ P, ¬ D.conflict e k) {m : M}
    (h : Asserts act good (P ++ k :: Q) m) : Asserts act good (P ++ Q) (act k m) := by
  induction P generalizing m with
  | nil => exact h.2
  | cons e P ih =>
      have hek := hc e (by simp)
      refine ⟨D.good_after e k hek m h.1, ?_⟩
      have := ih (fun x hx => hc x (by simp [hx])) h.2
      rwa [← D.comm e k hek m] at this

variable (D)

/-- What every reachable state keeps: the pending commands run in order to the same
final tokens and the same final memory, all fences hold, and all assertions ahead
are met. -/
structure Kept (τ₁ : φ → ℕ) (m₁ : M) (R : List κ) (τ : φ → ℕ) (m : M) : Prop where
  runs : N.Runs R τ
  run_eq : N.run R τ = τ₁
  safe : D.Safe R τ
  asserts : Asserts act good R m
  exec_eq : exec act R m = m₁

theorem stable_kept (τ₁ : φ → ℕ) (m₁ : M) : Stable N act (D.Kept τ₁ m₁) := by
  intro P k Q τ m h hk hf
  have hc := h.safe.not_conflict hk hf
  refine ⟨h.runs.remove hk hf, (run_remove h.runs hk hf).trans h.run_eq, ?_,
    asserts_remove hc h.asserts, (exec_remove hc m).trans h.exec_eq⟩
  intro F hF
  exact Fence.stable_safe F act P k Q τ m (h.safe F hF) hk hf

variable [DecidableEq ι] {D}

/-- A command that can execute meets its assertion and conflicts with nothing that is
serialized before it. -/
theorem Kept.split {τ₁ : φ → ℕ} {m₁ : M} {R : List κ} {s : State ι κ φ M}
    (h : D.Kept τ₁ m₁ R s.tokens s.mem) (hR : N.Serial R s.todo) {i : ι} {pre : List κ} {k : κ}
    {post : List κ} (hs : N.Enabled s i pre k post) :
    ∃ P Q, R = P ++ k :: Q ∧ P.filter (fun e => N.party e = i) = pre ∧ good k s.mem ∧
      ∀ e ∈ P, ¬ D.conflict e k := by
  obtain ⟨P, Q, rfl, rfl, rfl, rfl⟩ := hR.split hs.split
  have hc := h.safe.not_conflict hs.not_holds hs.granted
  exact ⟨P, Q, rfl, rfl, good_of_asserts hc h.asserts, hc⟩

/-- **Interleavings keep the serial order's assertions.**  A command that can execute
in a reachable state meets its assertion there, and no pending command of its party
before it conflicts with it. -/
theorem Kept.enabled {τ₁ : φ → ℕ} {m₁ : M} {R : List κ} {s : State ι κ φ M}
    (h : D.Kept τ₁ m₁ R s.tokens s.mem) (hR : N.Serial R s.todo) {i : ι} {pre : List κ} {k : κ}
    {post : List κ} (hs : N.Enabled s i pre k post) :
    good k s.mem ∧ ∀ e ∈ pre, ¬ D.conflict e k := by
  obtain ⟨P, Q, -, rfl, hgood, hc⟩ := h.split hR hs
  refine ⟨hgood, ?_⟩
  intro e he
  exact hc e (List.mem_of_mem_filter he)

/-- All parties done: the flags and the memory are those of the serial run. -/
theorem Kept.final {τ₁ : φ → ℕ} {m₁ : M} {R : List κ} {s : State ι κ φ M}
    (h : D.Kept τ₁ m₁ R s.tokens s.mem) (hR : N.Serial R s.todo) (hs : Final s) :
    s.tokens = τ₁ ∧ s.mem = m₁ := by
  rw [hR.final_iff] at hs
  subst hs
  exact ⟨h.run_eq, h.exec_eq⟩

end Discipline

end Net

end TokenNet
