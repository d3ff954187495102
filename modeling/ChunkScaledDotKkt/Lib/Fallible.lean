import Mathlib.Tactic.Common

/-!
# Computations that may raise

Inversion rules for `Except`: what is known of the parts of a computation that
returned.

## Main results

* `bind_ok` — both parts of a sequence returned.
* `mapM_ok` — a loop that returned is a plain `map`, and every step of it returned.
* `selectM_ok`, `keyed_ok` — the same for filtering and for pairing with a key.
-/

namespace Fallible

variable {α β ε : Type}

/-- The value of a computation that returned. -/
def okValue [Inhabited β] (f : α → Except ε β) (a : α) : β :=
  match f a with
  | .ok b => b
  | .error _ => default

theorem okValue_of_ok [Inhabited β] {f : α → Except ε β} {a : α} {b : β} (h : f a = .ok b) :
    okValue f a = b := by
  rw [okValue, h]

/-- **Both parts of a sequence that returned have returned.** -/
theorem bind_ok {x : Except ε α} {f : α → Except ε β} {b : β} (h : (x >>= f) = .ok b) :
    ∃ a, x = .ok a ∧ f a = .ok b := by
  cases x with
  | error e => cases h
  | ok a => exact ⟨a, rfl, h⟩

theorem pure_ok {a b : α} (h : (pure a : Except ε α) = .ok b) : a = b := by
  cases h
  rfl

/-- **A loop that returned is a `map`.** -/
theorem mapM_ok [Inhabited β] {f : α → Except ε β} {l : List α} {bs : List β}
    (h : l.mapM f = .ok bs) :
    bs = l.map (okValue f) ∧ ∀ a ∈ l, f a = .ok (okValue f a) := by
  induction l generalizing bs with
  | nil =>
      rw [List.mapM_nil] at h
      exact ⟨(pure_ok h).symm, by simp⟩
  | cons a l ih =>
      rw [List.mapM_cons] at h
      obtain ⟨b, hb, h⟩ := bind_ok h
      obtain ⟨rest, hrest, h⟩ := bind_ok h
      obtain ⟨hmap, hall⟩ := ih hrest
      have hvalue := okValue_of_ok hb
      refine ⟨by rw [← pure_ok h, List.map_cons, hvalue, hmap], ?_⟩
      intro a' hmem
      cases List.mem_cons.mp hmem with
      | inl heq => rw [heq, hvalue, hb]
      | inr hmem => exact hall a' hmem

/-- Each result of a loop that returned comes from an entry. -/
theorem mem_of_mapM {f : α → Except ε β} {l : List α} {bs : List β} (h : l.mapM f = .ok bs)
    {b : β} (hb : b ∈ bs) : ∃ a ∈ l, f a = .ok b := by
  induction l generalizing bs with
  | nil =>
      rw [List.mapM_nil] at h
      rw [← pure_ok h] at hb
      cases hb
  | cons a l ih =>
      rw [List.mapM_cons] at h
      obtain ⟨b', hb', h⟩ := bind_ok h
      obtain ⟨rest, hrest, h⟩ := bind_ok h
      rw [← pure_ok h] at hb
      cases List.mem_cons.mp hb with
      | inl heq => exact ⟨a, by simp, by rw [heq, hb']⟩
      | inr hmem =>
          obtain ⟨a', ha', hf⟩ := ih hrest hmem
          exact ⟨a', List.mem_cons_of_mem a ha', hf⟩

/-- A measure of the results that the entries determine. -/
theorem map_of_mapM {γ : Type} {f : α → Except ε β} {l : List α} {bs : List β}
    (h : l.mapM f = .ok bs) {u : β → γ} {v : α → γ}
    (huv : ∀ a ∈ l, ∀ b, f a = .ok b → u b = v a) : bs.map u = l.map v := by
  induction l generalizing bs with
  | nil =>
      rw [List.mapM_nil] at h
      rw [← pure_ok h]
      rfl
  | cons a l ih =>
      rw [List.mapM_cons] at h
      obtain ⟨b, hb, h⟩ := bind_ok h
      obtain ⟨rest, hrest, h⟩ := bind_ok h
      rw [← pure_ok h, List.map_cons, List.map_cons, huv a (by simp) b hb,
        ih hrest fun a' ha' => huv a' (List.mem_cons_of_mem a ha')]

/-- The entries that pass a test. -/
def selectM (p : α → Except ε Bool) (l : List α) : Except ε (List α) := do
  let flags ← l.mapM p
  return ((l.zip flags).filter Prod.snd).map Prod.fst

theorem selectM_ok {p : α → Except ε Bool} {l l' : List α} (h : selectM p l = .ok l') :
    l' = l.filter (okValue p) ∧ ∀ a ∈ l, p a = .ok (okValue p a) := by
  rw [selectM] at h
  obtain ⟨flags, hflags, h⟩ := bind_ok h
  obtain ⟨hmap, hall⟩ := mapM_ok hflags
  have hzip : ∀ l : List α, ((l.zip (l.map (okValue p))).filter Prod.snd).map Prod.fst =
      l.filter (okValue p) := by
    intro l
    induction l with
    | nil => rfl
    | cons a l ih =>
        by_cases ha : okValue p a = true <;> simp [ha, ih]
  exact ⟨by rw [← pure_ok h, hmap, hzip], hall⟩

/-- Every entry with its key. -/
def keyed (key : α → Except ε β) (l : List α) : Except ε (List (β × α)) :=
  l.mapM fun a => do return (← key a, a)

theorem keyed_ok [Inhabited β] {key : α → Except ε β} {l : List α} {ps : List (β × α)}
    (h : keyed key l = .ok ps) :
    ps = l.map (fun a => (okValue key a, a)) ∧ ∀ a ∈ l, key a = .ok (okValue key a) := by
  induction l generalizing ps with
  | nil =>
      rw [keyed, List.mapM_nil] at h
      exact ⟨(pure_ok h).symm, by simp⟩
  | cons a l ih =>
      rw [keyed, List.mapM_cons] at h
      obtain ⟨p, hp, h⟩ := bind_ok h
      obtain ⟨b, hb, hp⟩ := bind_ok hp
      obtain ⟨rest, hrest, h⟩ := bind_ok h
      obtain ⟨hmap, hall⟩ := ih hrest
      have hvalue := okValue_of_ok hb
      refine ⟨by rw [← pure_ok h, ← pure_ok hp, List.map_cons, hvalue, hmap], ?_⟩
      intro a' hmem
      cases List.mem_cons.mp hmem with
      | inl heq => rw [heq, hvalue, hb]
      | inr hmem => exact hall a' hmem

end Fallible
