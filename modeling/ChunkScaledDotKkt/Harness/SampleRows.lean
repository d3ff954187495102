import ChunkScaledDotKkt.Harness.TestCase
import ChunkScaledDotKkt.Lib.Collect
import ChunkScaledDotKkt.Lib.Lcg
import Mathlib.Data.Finset.Prod

/-!
# The row sampler

`BuildSampleRows` takes three fixed rows, the ends of the chunks in turn and then rows
drawn with a linear congruential generator, until it has as many distinct rows as were
asked for.  Nothing bounds the last loop: it ends only if the generator meets enough
rows.

## Main results

* `drawKey_reached` — the rows that the generator ever draws: those of the states whose
  parity is opposite to the seed's.
* `samplesRows_iff` — when the sampler returns enough rows.
-/

namespace ChunkScaledDotKkt.Harness

open MachineInt IntervalChain Collect

/-- The 64-bit step of the generator. -/
@[irreducible]
def lcgStep : ℕ → ℕ := Lcg.step 6364136223846793005 1442695040888963407 64

/-- The rows so far and the keys of the rows seen. -/
structure Sampler where
  rows : List (ℤ × ℤ)
  seen : Finset ℕ

/-- The key of a row, head above token. -/
@[irreducible]
def rowKey (head token : ℤ) : ℕ :=
  (u64 head).toNat <<< 32 % 18446744073709551616 ||| (u32 token).toNat

section

variable (tc : TestCase)

def addRow (head token : ℤ) (s : Sampler) : Sampler :=
  if head < 0 ∨ tc.h ≤ head ∨ token < 0 ∨ tc.t ≤ token then s
  else if rowKey head token ∈ s.seen then s
  else ⟨s.rows ++ [(head, token)], insert (rowKey head token) s.seen⟩

/-- The three rows that come first. -/
def fixedRows : Sampler :=
  addRow tc (tc.h.tdiv 2) (tc.t.tdiv 2)
    (addRow tc (tc.h - 1) (tc.t - 1) (addRow tc 0 0 ⟨[], ∅⟩))

/-- `static_cast<int>(rows.size()) < targetRows`. -/
def Sampler.wants (targetRows : ℤ) (s : Sampler) : Bool := i32 s.rows.length < targetRows

/-- The loop over the chunks. -/
def chunkRows (targetRows : ℤ) : List (ℤ × ℤ) → Sampler → Sampler
  | [], s => s
  | chunk :: chunks, s =>
      if s.wants targetRows then
        chunkRows targetRows chunks (addRow tc (tc.h - 1) (chunk.2 - 1) (addRow tc 0 chunk.1 s))
      else s

/-- The head or token that a state stands for. -/
@[irreducible]
def residue (state : ℕ) (bound : ℤ) : ℤ := state % u64 bound

/-- The loop of draws. -/
def drawRows (targetRows : ℤ) : ℕ → ℕ → Sampler → Option Sampler
  | 0, _, _ => none
  | fuel + 1, state, s =>
      if s.wants targetRows then
        let state := lcgStep state
        let head := residue state tc.h
        let state := lcgStep state
        let token := residue state tc.t
        drawRows targetRows fuel state (addRow tc head token s)
      else some s

@[irreducible]
def seed : ℕ := 0x9E3779B97F4A7C15 ^^^ (u64 (tc.t * 131 + tc.h * 17 + tc.k)).toNat

/-- The target is cut to the number of rows of the output.  The product `tc.h * tc.t` is
the exact one, as in the source while it is below `2^63`; an output of that many rows has
no memory. -/
def cutTarget (targetRows : ℤ) : ℤ := i32 (min targetRows (tc.h * tc.t))

def buildSampleRows (fuel : ℕ) (targetRows : ℤ) : Option (List (ℤ × ℤ)) :=
  let target := cutTarget tc targetRows
  let s := chunkRows tc target (intervals tc.chunkOffsets) (fixedRows tc)
  (drawRows tc target fuel (seed tc) s).map Sampler.rows

end

/-! ## One row -/

variable {tc : TestCase} {s : Sampler}

/-- A row of the output. -/
def InOutput (tc : TestCase) (head token : ℤ) : Prop :=
  0 ≤ head ∧ head < tc.h ∧ 0 ≤ token ∧ token < tc.t

/-- The rows are rows of the output with the keys seen, each once. -/
structure Sampler.Ok (tc : TestCase) (s : Sampler) : Prop where
  inOutput : ∀ r ∈ s.rows, InOutput tc r.1 r.2
  nodup : (s.rows.map fun r => rowKey r.1 r.2).Nodup
  seen : s.seen = (s.rows.map fun r => rowKey r.1 r.2).toFinset

theorem Sampler.Ok.length (h : s.Ok tc) : s.rows.length = s.seen.card := by
  rw [h.seen, List.toFinset_card_of_nodup h.nodup, List.length_map]

/-- Different keys belong to different rows. -/
theorem Sampler.Ok.rows_nodup (h : s.Ok tc) : s.rows.Nodup := List.Nodup.of_map _ h.nodup

theorem Sampler.Ok.wants_iff (h : s.Ok tc) (target : ℤ) :
    s.wants target = true ↔ i32 s.seen.card < target := by
  rw [Sampler.wants, h.length, decide_eq_true_iff]

theorem addRow_seen {head token : ℤ} (hr : InOutput tc head token) :
    (addRow tc head token s).seen = insert (rowKey head token) s.seen := by
  obtain ⟨h1, h2, h3, h4⟩ := hr
  rw [addRow, if_neg (by omega)]
  by_cases hk : rowKey head token ∈ s.seen
  · rw [if_pos hk, Finset.insert_eq_of_mem hk]
  · rw [if_neg hk]

theorem addRow_ok (h : s.Ok tc) (head token : ℤ) : (addRow tc head token s).Ok tc := by
  by_cases hr : head < 0 ∨ tc.h ≤ head ∨ token < 0 ∨ tc.t ≤ token
  · rw [addRow, if_pos hr]
    exact h
  by_cases hk : rowKey head token ∈ s.seen
  · rw [addRow, if_neg hr, if_pos hk]
    exact h
  rw [addRow, if_neg hr, if_neg hk]
  refine ⟨?_, ?_, ?_⟩
  · intro r hmem
    cases List.mem_append.mp hmem with
    | inl hmem => exact h.inOutput r hmem
    | inr hmem =>
        rw [List.mem_singleton] at hmem
        subst hmem
        exact ⟨by omega, by omega, by omega, by omega⟩
  · rw [List.map_append, List.nodup_append]
    refine ⟨h.nodup, by simp, ?_⟩
    intro a ha b hb hab
    rw [h.seen, List.mem_toFinset] at hk
    simp only [List.map_cons, List.map_nil, List.mem_singleton] at hb
    subst hb
    subst hab
    exact hk ha
  · simp only [List.map_append, List.map_cons, List.map_nil, List.toFinset_append, h.seen]
    rw [Finset.union_comm]
    rfl

/-! ## The fixed rows and the chunk ends -/

/-- The keys of the fixed rows. -/
def fixedKeys (tc : TestCase) : Finset ℕ :=
  {rowKey (tc.h.tdiv 2) (tc.t.tdiv 2), rowKey (tc.h - 1) (tc.t - 1), rowKey 0 0}

/-- The keys of the rows taken from the first `j` chunks. -/
def chunkKeys (tc : TestCase) (chunks : List (ℤ × ℤ)) : Finset ℕ :=
  (chunks.flatMap fun chunk =>
    [rowKey (tc.h - 1) (chunk.2 - 1), rowKey 0 chunk.1]).toFinset

theorem fixedRows_ok (tc : TestCase) : (fixedRows tc).Ok tc := by
  have hempty : Sampler.Ok tc ⟨[], ∅⟩ := ⟨by simp, by simp, by simp⟩
  exact addRow_ok (addRow_ok (addRow_ok hempty 0 0) _ _) _ _

theorem fixedRows_seen (ht : 1 ≤ tc.t) (hh : 1 ≤ tc.h) :
    (fixedRows tc).seen = fixedKeys tc := by
  have htdiv : tc.t.tdiv 2 = tc.t / 2 := Int.tdiv_eq_ediv_of_nonneg (by omega)
  have hhdiv : tc.h.tdiv 2 = tc.h / 2 := Int.tdiv_eq_ediv_of_nonneg (by omega)
  rw [fixedRows, addRow_seen ⟨by omega, by omega, by omega, by omega⟩,
    addRow_seen ⟨by omega, by omega, by omega, by omega⟩,
    addRow_seen ⟨le_refl 0, by omega, le_refl 0, by omega⟩]
  rfl

theorem chunkKeys_cons (chunk : ℤ × ℤ) (chunks : List (ℤ × ℤ)) :
    chunkKeys tc (chunk :: chunks) =
      insert (rowKey (tc.h - 1) (chunk.2 - 1))
        (insert (rowKey 0 chunk.1) (chunkKeys tc chunks)) := by
  simp [chunkKeys]

theorem chunkRows_ok (target : ℤ) {chunks : List (ℤ × ℤ)} (hs : s.Ok tc) :
    (chunkRows tc target chunks s).Ok tc := by
  induction chunks generalizing s with
  | nil => exact hs
  | cons chunk chunks ih =>
      rw [chunkRows]
      split
      · exact ih (addRow_ok (addRow_ok hs _ _) _ _)
      · exact hs

/-- The chunk loop takes in the rows of some first chunks; it stops early only with
enough rows. -/
theorem chunkRows_spec (target : ℤ) (hh : 1 ≤ tc.h) {chunks : List (ℤ × ℤ)}
    (hin : ∀ p ∈ chunks, 0 ≤ p.1 ∧ p.1 < p.2 ∧ p.2 ≤ tc.t) (hs : s.Ok tc) :
    ∃ j ≤ chunks.length,
      (chunkRows tc target chunks s).seen = s.seen ∪ chunkKeys tc (chunks.take j) ∧
      (∀ i < j, i32 (s.seen ∪ chunkKeys tc (chunks.take i)).card < target) ∧
      (j = chunks.length ∨ target ≤ i32 (s.seen ∪ chunkKeys tc (chunks.take j)).card) := by
  induction chunks generalizing s with
  | nil => exact ⟨0, le_refl 0, by simp [chunkRows, chunkKeys], by simp, Or.inl rfl⟩
  | cons chunk chunks ih =>
      by_cases hw : s.wants target = true
      · have hp := hin chunk (by simp)
        have hlow : InOutput tc 0 chunk.1 := ⟨le_refl 0, by omega, hp.1, by omega⟩
        have hhigh : InOutput tc (tc.h - 1) (chunk.2 - 1) :=
          ⟨by omega, by omega, by omega, by omega⟩
        obtain ⟨j, hj, hseen, hbefore, hstop⟩ :=
          ih (fun p hmem => hin p (List.mem_cons_of_mem chunk hmem))
            (addRow_ok (addRow_ok hs 0 chunk.1) (tc.h - 1) (chunk.2 - 1))
        have hunion : ∀ i, (addRow tc (tc.h - 1) (chunk.2 - 1) (addRow tc 0 chunk.1 s)).seen ∪
            chunkKeys tc (chunks.take i) =
              s.seen ∪ chunkKeys tc ((chunk :: chunks).take (i + 1)) := by
          intro i
          rw [addRow_seen hhigh, addRow_seen hlow, List.take_succ_cons, chunkKeys_cons,
            Finset.insert_union, Finset.insert_union, Finset.union_insert, Finset.union_insert]
        rw [chunkRows, if_pos hw]
        simp only [hunion] at hseen hbefore hstop
        refine ⟨j + 1, by simpa using hj, hseen, ?_, ?_⟩
        · intro i hi
          cases i with
          | zero => simpa [chunkKeys] using (hs.wants_iff target).mp hw
          | succ i => exact hbefore i (by omega)
        · cases hstop with
          | inl h => exact Or.inl (by simp [h])
          | inr h => exact Or.inr h
      · rw [chunkRows, if_neg hw]
        refine ⟨0, Nat.zero_le _, by simp [chunkKeys], by simp, Or.inr ?_⟩
        have := mt (hs.wants_iff target).mpr hw
        simpa [chunkKeys] using this

/-! ## The draws -/

/-- The key of the row of two states. -/
def pairKey (tc : TestCase) (first second : ℕ) : ℕ :=
  rowKey (residue first tc.h) (residue second tc.t)

/-- The key of draw `i`. -/
def drawKey (tc : TestCase) (state i : ℕ) : ℕ := Lcg.draw lcgStep (pairKey tc) state i

theorem drawKey_succ (state i : ℕ) :
    drawKey tc (lcgStep (lcgStep state)) i = drawKey tc state (i + 1) := Lcg.draw_succ i

theorem residue_inRange {bound : ℤ} (h0 : 1 ≤ bound) (hlt : bound < 9223372036854775808)
    (state : ℕ) : 0 ≤ residue state bound ∧ residue state bound < bound := by
  have hu : u64 bound = bound := by
    unfold u64
    omega
  unfold residue
  rw [hu]
  exact ⟨Int.emod_nonneg _ (by omega), Int.emod_lt_of_pos _ (by omega)⟩

variable {target : ℤ}

section

variable (hh : 1 ≤ tc.h) (ht : 1 ≤ tc.t) (htmax : tc.t < 2147483648)

include hh ht htmax

theorem draw_inOutput (state : ℕ) :
    InOutput tc (residue (lcgStep state) tc.h) (residue (lcgStep (lcgStep state)) tc.t) := by
  have h1 := residue_inRange hh tc.h_lt (lcgStep state)
  have h2 := residue_inRange ht (by omega) (lcgStep (lcgStep state))
  exact ⟨h1.1, h1.2, h2.1, h2.2⟩

/-- What the rows seen are after one draw. -/
theorem draw_seen (state : ℕ) (s : Sampler) :
    (addRow tc (residue (lcgStep state) tc.h) (residue (lcgStep (lcgStep state)) tc.t) s).seen =
      insert (drawKey tc state 0) s.seen := by
  rw [addRow_seen (draw_inOutput hh ht htmax state), drawKey, Lcg.draw_zero, pairKey]

/-- The loop returns at the first turn with enough rows. -/
theorem drawRows_of_first {i state : ℕ} (hs : s.Ok tc)
    (hbefore : ∀ j < i, i32 (after s.seen (drawKey tc state) j).card < target)
    (henough : target ≤ i32 (after s.seen (drawKey tc state) i).card) :
    ∃ r, (∀ fuel, i < fuel → drawRows tc target fuel state s = some r) ∧ r.Ok tc ∧
      r.seen = after s.seen (drawKey tc state) i := by
  induction i generalizing state s with
  | zero =>
      refine ⟨s, ?_, hs, by simp⟩
      intro fuel hfuel
      obtain ⟨fuel, rfl⟩ : ∃ f, fuel = f + 1 := ⟨fuel - 1, by omega⟩
      have hw := mt (hs.wants_iff target).mp (by simpa using henough)
      rw [drawRows, if_neg hw]
  | succ i ih =>
      have hstep := draw_seen hh ht htmax state s
      have hafter : ∀ j, after (insert (drawKey tc state 0) s.seen)
          (drawKey tc (lcgStep (lcgStep state))) j = after s.seen (drawKey tc state) (j + 1) := by
        intro j
        rw [funext (drawKey_succ state), after_insert]
      obtain ⟨r, hrun, hok, hseen⟩ := @ih _ (lcgStep (lcgStep state)) (addRow_ok hs _ _)
        (by
          intro j hj
          rw [hstep, hafter]
          exact hbefore (j + 1) (by omega))
        (by rwa [hstep, hafter])
      rw [hstep, hafter] at hseen
      refine ⟨r, ?_, hok, hseen⟩
      intro fuel hfuel
      obtain ⟨fuel, rfl⟩ : ∃ f, fuel = f + 1 := ⟨fuel - 1, by omega⟩
      have hw := (hs.wants_iff target).mpr (by simpa using hbefore 0 (by omega))
      rw [drawRows, if_pos hw]
      exact hrun fuel (by omega)

/-- Without a turn with enough rows the loop runs out of every fuel. -/
theorem drawRows_eq_none {state : ℕ} (hs : s.Ok tc)
    (hnever : ∀ j, i32 (after s.seen (drawKey tc state) j).card < target) (fuel : ℕ) :
    drawRows tc target fuel state s = none := by
  induction fuel generalizing state s with
  | zero => rfl
  | succ fuel ih =>
      have hw := (hs.wants_iff target).mpr (by simpa using hnever 0)
      rw [drawRows, if_pos hw]
      apply ih (addRow_ok hs _ _)
      intro j
      rw [draw_seen hh ht htmax, funext (drawKey_succ state), after_insert]
      exact hnever (j + 1)

end

theorem drawRows_ok {fuel state : ℕ} {r : Sampler} (hs : s.Ok tc)
    (hrun : drawRows tc target fuel state s = some r) : r.Ok tc := by
  induction fuel generalizing state s with
  | zero => cases hrun
  | succ fuel ih =>
      rw [drawRows] at hrun
      split at hrun
      · exact ih (addRow_ok hs _ _) hrun
      · cases hrun
        exact hs

/-- Whatever is asked for, the rows returned are those of a sampler. -/
theorem buildSampleRows_ok {fuel : ℕ} {targetRows : ℤ} {rows : List (ℤ × ℤ)}
    (hrun : buildSampleRows tc fuel targetRows = some rows) :
    ∃ s : Sampler, s.Ok tc ∧ s.rows = rows := by
  rw [buildSampleRows, Option.map_eq_some_iff] at hrun
  obtain ⟨s, hdraw, hrows⟩ := hrun
  exact ⟨s, drawRows_ok (chunkRows_ok _ (fixedRows_ok tc)) hdraw, hrows⟩

/-- The rows returned are rows of the output. -/
theorem buildSampleRows_inOutput {fuel : ℕ} {targetRows : ℤ} {rows : List (ℤ × ℤ)}
    (hrun : buildSampleRows tc fuel targetRows = some rows) {r : ℤ × ℤ} (hr : r ∈ rows) :
    InOutput tc r.1 r.2 := by
  obtain ⟨s, hs, rfl⟩ := buildSampleRows_ok hrun
  exact hs.inOutput r hr

theorem buildSampleRows_tokens {fuel : ℕ} {targetRows : ℤ} {rows : List (ℤ × ℤ)}
    (hrun : buildSampleRows tc fuel targetRows = some rows) : ∀ r ∈ rows, 0 ≤ r.2 ∧ r.2 < tc.t :=
  fun _ hr => (buildSampleRows_inOutput hrun hr).2.2

/-- No row is returned twice. -/
theorem buildSampleRows_nodup {fuel : ℕ} {targetRows : ℤ} {rows : List (ℤ × ℤ)}
    (hrun : buildSampleRows tc fuel targetRows = some rows) : rows.Nodup := by
  obtain ⟨s, hs, rfl⟩ := buildSampleRows_ok hrun
  exact hs.rows_nodup

/-! ## The rows that are ever drawn -/

theorem seed_lt : seed tc < 2 ^ 64 := by
  unfold seed
  apply Nat.xor_lt_two_pow (by decide)
  unfold u64
  omega

/-- The keys of the rows drawn from the states of one parity. -/
def drawnKeys (tc : TestCase) : Finset ℕ :=
  ((Finset.range (2 ^ 64)).filter fun state => state % 2 ≠ seed tc % 2).image fun state =>
    pairKey tc state (lcgStep state)

/-- **The rows that are ever drawn** are those of the states whose parity is opposite to
the seed's, each of which the generator reaches. -/
theorem drawKey_reached (key : ℕ) :
    (∃ i, drawKey tc (seed tc) i = key) ↔ key ∈ drawnKeys tc := by
  have hreach : ∀ y, (∃ i, lcgStep^[2 * i + 1] (seed tc) = y) ↔
      y < 2 ^ 64 ∧ y % 2 ≠ seed tc % 2 := by
    intro y
    unfold lcgStep
    exact Lcg.exists_iterate_odd (by decide) (by decide) (by decide) seed_lt
  have hkey : ∀ i, drawKey tc (seed tc) i =
      pairKey tc (lcgStep^[2 * i + 1] (seed tc)) (lcgStep (lcgStep^[2 * i + 1] (seed tc))) :=
    fun i => Lcg.draw_eq i
  simp only [drawnKeys, Finset.mem_image, Finset.mem_filter, Finset.mem_range]
  constructor
  · intro ⟨i, hi⟩
    exact ⟨_, (hreach _).mp ⟨i, rfl⟩, by rw [← hi, hkey]⟩
  · intro ⟨state, hstate, hk⟩
    obtain ⟨i, hi⟩ := (hreach state).mpr hstate
    refine ⟨i, ?_⟩
    rw [hkey, ← hk, hi]

/-- The loop of draws up to a number `N` of rows: every smaller size goes on, `N` stops. -/
theorem drawRows_spec (hh : 1 ≤ tc.h) (ht : 1 ≤ tc.t) (htmax : tc.t < 2147483648)
    (hs : s.Ok tc) {N : ℕ} (hN : s.seen.card ≤ N)
    (hless : ∀ v, s.seen.card ≤ v → v < N → i32 (v : ℤ) < target) (hstop : target ≤ i32 (N : ℤ)) :
    (N ≤ (s.seen ∪ drawnKeys tc).card → ∃ n r,
      (∀ fuel, n < fuel → drawRows tc target fuel (seed tc) s = some r) ∧ r.Ok tc ∧
        r.seen.card = N) ∧
    ((s.seen ∪ drawnKeys tc).card < N → ∀ fuel, drawRows tc target fuel (seed tc) s = none) := by
  have hin : ∀ i, drawKey tc (seed tc) i ∈ drawnKeys tc := fun i =>
    (drawKey_reached _).mp ⟨i, rfl⟩
  have hall : ∀ key ∈ drawnKeys tc, ∃ i, drawKey tc (seed tc) i = key := fun key hkey =>
    (drawKey_reached key).mpr hkey
  have hsize : ∀ i, s.seen.card ≤ (after s.seen (drawKey tc (seed tc)) i).card := fun i =>
    Finset.card_le_card (subset_after i)
  constructor
  · intro hle
    have hex := (exists_card_eq_iff hin hall hN).mpr hle
    -- the first turn with `N` rows has fewer rows before it
    have hfirst := Nat.find_spec hex
    have hmin := fun j (hj : j < Nat.find hex) => Nat.find_min hex hj
    obtain ⟨r, hrun, hok, hseen⟩ := drawRows_of_first hh ht htmax hs
      (fun j hj => by
        refine hless _ (hsize j) (lt_of_le_of_ne ?_ (hmin j hj))
        rw [← hfirst]
        exact Finset.card_le_card (after_mono _ _ (le_of_lt hj)))
      (by rwa [hfirst])
    exact ⟨_, r, hrun, hok, by rw [hseen, hfirst]⟩
  · intro hlt
    apply drawRows_eq_none hh ht htmax hs
    intro j
    refine hless _ (hsize j) (lt_of_le_of_lt ?_ hlt)
    exact Finset.card_le_card (after_subset hin j)

/-! ## When the sampler returns -/

/-- The keys of the fixed rows and of the rows of the first `j` chunks. -/
def startKeys (tc : TestCase) (j : ℕ) : Finset ℕ :=
  fixedKeys tc ∪ chunkKeys tc ((intervals tc.chunkOffsets).take j)

/-- All keys that the sampler can ever take in. -/
def allKeys (tc : TestCase) : Finset ℕ :=
  startKeys tc (intervals tc.chunkOffsets).length ∪ drawnKeys tc

/-- The sampler returns at least as many rows as asked for or as there are, each a row
of the output and none twice. -/
def SamplesRows (tc : TestCase) (targetRows : ℤ) : Prop :=
  ∃ n rows, (∀ fuel, n < fuel → buildSampleRows tc fuel targetRows = some rows) ∧
    rows.Nodup ∧ (∀ r ∈ rows, InOutput tc r.1 r.2) ∧
    min targetRows (tc.h * tc.t) ≤ (rows.length : ℤ)

/-- With the largest target, the two rows of a chunk can take the row count past what
`int` holds; its cast is then negative. -/
def Overshoots (tc : TestCase) (targetRows : ℤ) : Prop :=
  min targetRows (tc.h * tc.t) = 2147483647 ∧
    ∃ j < (intervals tc.chunkOffsets).length, (startKeys tc j).card = 2147483646 ∧
      (startKeys tc (j + 1)).card = 2147483648

/-- There are enough keys for the row count, as `int`, to come up to the target. -/
def EnoughKeys (tc : TestCase) (targetRows : ℤ) : Prop :=
  (¬ Overshoots tc targetRows ∧ min targetRows (tc.h * tc.t) ≤ ((allKeys tc).card : ℤ)) ∨
    (Overshoots tc targetRows ∧ 6442450943 ≤ (allKeys tc).card)

theorem startKeys_mono (tc : TestCase) {i j : ℕ} (h : i ≤ j) : startKeys tc i ⊆ startKeys tc j := by
  apply Finset.union_subset_union_right
  intro key hkey
  simp only [chunkKeys, List.mem_toFinset, List.mem_flatMap] at hkey ⊢
  obtain ⟨chunk, hmem, hk⟩ := hkey
  exact ⟨chunk, List.take_subset_take_left _ h hmem, hk⟩

/-- A chunk adds at most two keys. -/
theorem card_startKeys_succ_le (tc : TestCase) (j : ℕ) :
    (startKeys tc (j + 1)).card ≤ (startKeys tc j).card + 2 := by
  have happ : ∀ as bs : List (ℤ × ℤ), chunkKeys tc (as ++ bs) =
      chunkKeys tc as ∪ chunkKeys tc bs := by
    intro as bs
    simp [chunkKeys]
  have hone : (chunkKeys tc (intervals tc.chunkOffsets)[j]?.toList).card ≤ 2 := by
    refine (List.toFinset_card_le _).trans ?_
    cases (intervals tc.chunkOffsets)[j]? <;> simp
  rw [startKeys, startKeys, List.take_add_one, happ, ← Finset.union_assoc]
  exact (Finset.card_union_le _ _).trans (Nat.add_le_add_left hone _)

theorem card_startKeys_le (tc : TestCase) (j : ℕ) : (startKeys tc j).card ≤ 2 * j + 3 := by
  induction j with
  | zero =>
      have hfixed : (fixedKeys tc).card ≤ 3 := Finset.card_le_three
      simpa [startKeys, chunkKeys] using hfixed
  | succ j ih =>
      have := card_startKeys_succ_le tc j
      omega

theorem cutTarget_eq (hh : 1 ≤ tc.h) (ht : 1 ≤ tc.t) {targetRows : ℤ} (h0 : 0 ≤ targetRows)
    (hmax : targetRows < 2147483648) :
    cutTarget tc targetRows = min targetRows (tc.h * tc.t) := by
  have hpos : 0 < tc.h * tc.t := Int.mul_pos (by omega) (by omega)
  exact i32_eq_self (by omega) (by omega)

section

variable (hacc : Accepted tc.t tc.chunkOffsets) (hh : 1 ≤ tc.h) (ht : 1 ≤ tc.t)

include hacc

/-- Even with two rows for every chunk the count stays below the next value that the
cast takes for the largest target. -/
theorem card_startKeys_lt {j : ℕ} (hj : j ≤ (intervals tc.chunkOffsets).length) :
    (startKeys tc j).card < 6442450943 := by
  have htmax := tc.offsets_lt tc.t (List.mem_of_getLast? hacc.last)
  have hlen := hacc.chunks_le
  have := card_startKeys_le tc j
  omega

include hh ht

/-- Where the chunk loop leaves the sampler: with all chunks or enough rows, or past the
range of `int`. -/
theorem chunkRows_outcome {targetRows : ℤ} (h0 : 0 ≤ targetRows)
    (hmax : targetRows < 2147483648) (htarget : target = min targetRows (tc.h * tc.t)) :
    ∃ j ≤ (intervals tc.chunkOffsets).length,
      (chunkRows tc target (intervals tc.chunkOffsets) (fixedRows tc)).seen = startKeys tc j ∧
      ((¬ Overshoots tc targetRows ∧ (startKeys tc j).card < 2147483648 ∧
          (j = (intervals tc.chunkOffsets).length ∨ target ≤ (startKeys tc j).card)) ∨
        (Overshoots tc targetRows ∧ j = (intervals tc.chunkOffsets).length ∧
          2147483648 ≤ (startKeys tc j).card)) := by
  have hpos : 0 < tc.h * tc.t := Int.mul_pos (by omega) (by omega)
  have hbounds : 0 ≤ target ∧ target < 2147483648 := by omega
  obtain ⟨j, hj, hseen, hbefore, hstop⟩ := chunkRows_spec target hh
    (fun p hp => hacc.inRange hp) (fixedRows_ok tc)
  rw [fixedRows_seen ht hh] at hseen hbefore hstop
  have hbefore' : ∀ i < j, i32 ((startKeys tc i).card : ℤ) < target := hbefore
  have hstop' : j = (intervals tc.chunkOffsets).length ∨
      target ≤ i32 ((startKeys tc j).card : ℤ) := hstop
  refine ⟨j, hj, hseen, ?_⟩
  by_cases hsmall : (startKeys tc j).card < 2147483648
  · have hcast : i32 ((startKeys tc j).card : ℤ) = (startKeys tc j).card :=
      i32_eq_self (by omega) (by omega)
    rw [hcast] at hstop'
    refine Or.inl ⟨?_, hsmall, hstop'⟩
    -- an overshoot would have let the loop go past chunk `j`
    intro ⟨htop, i, hi, hcard, hcard'⟩
    have hji : j ≤ i := by
      by_contra hlt
      have := Finset.card_le_card (startKeys_mono tc (show i + 1 ≤ j by omega))
      omega
    have := Finset.card_le_card (startKeys_mono tc hji)
    omega
  · -- the first chunk at which the count leaves the range of `int`
    have hzero : (startKeys tc 0).card < 2147483648 := by
      have := card_startKeys_le tc 0
      omega
    have hex : ∃ i, ¬ (startKeys tc i).card < 2147483648 := ⟨j, hsmall⟩
    have hfind := Nat.find_spec hex
    have hle : Nat.find hex ≤ j := Nat.find_min' hex hsmall
    obtain ⟨i, hi⟩ : ∃ i, Nat.find hex = i + 1 := by
      cases hf : Nat.find hex with
      | zero =>
          rw [hf] at hfind
          exact absurd hzero hfind
      | succ i => exact ⟨i, rfl⟩
    have hprev : (startKeys tc i).card < 2147483648 := by
      by_contra hnot
      have := Nat.find_min' hex hnot
      omega
    rw [hi] at hfind
    have hgo := hbefore' i (by omega)
    have hstep := card_startKeys_succ_le tc i
    rw [i32_eq_self (by omega) (by omega)] at hgo
    have hover : Overshoots tc targetRows := ⟨by omega, i, by omega, by omega, by omega⟩
    refine Or.inr ⟨hover, ?_, by omega⟩
    cases hstop' with
    | inl h => exact h
    | inr h =>
        have := card_startKeys_lt hacc hj
        unfold i32 at h
        omega

/-- The number of rows at which the loop of draws stops, for the sampler that the chunk
loop leaves. -/
theorem exists_stop {targetRows : ℤ} (h0 : 0 ≤ targetRows) (hmax : targetRows < 2147483648)
    (htarget : target = min targetRows (tc.h * tc.t)) (s : Sampler)
    (hs : s = chunkRows tc target (intervals tc.chunkOffsets) (fixedRows tc)) :
    ∃ N : ℕ, s.Ok tc ∧ s.seen.card ≤ N ∧
      (∀ v, s.seen.card ≤ v → v < N → i32 (v : ℤ) < target) ∧ target ≤ i32 (N : ℤ) ∧
      target ≤ (N : ℤ) ∧
      (N ≤ (s.seen ∪ drawnKeys tc).card ↔ EnoughKeys tc targetRows) := by
  obtain ⟨j, hj, hseen, hcase⟩ := chunkRows_outcome hacc hh ht h0 hmax htarget
  have hok : s.Ok tc := hs ▸ chunkRows_ok target (fixedRows_ok tc)
  have hpos : 0 < tc.h * tc.t := Int.mul_pos (by omega) (by omega)
  rw [← hs] at hseen
  rw [hseen]
  have hsub : startKeys tc j ∪ drawnKeys tc ⊆ allKeys tc :=
    Finset.union_subset_union_left (startKeys_mono tc hj)
  rcases hcase with ⟨hover, hsmall, hstop⟩ | ⟨hover, rfl, hlarge⟩
  · by_cases hdone : target ≤ (startKeys tc j).card
    · -- no draw is needed
      have hle : (startKeys tc j).card ≤ (startKeys tc j ∪ drawnKeys tc).card :=
        Finset.card_le_card Finset.subset_union_left
      have hall := Finset.card_le_card hsub
      refine ⟨(startKeys tc j).card, hok, le_refl _, by omega, ?_, hdone, ?_⟩
      · rwa [i32_eq_self (by omega) (by omega)]
      · exact iff_of_true hle (Or.inl ⟨hover, by omega⟩)
    · obtain rfl : j = (intervals tc.chunkOffsets).length := by
        cases hstop with
        | inl h => exact h
        | inr h => exact absurd h hdone
      have hnat : ((target.toNat : ℕ) : ℤ) = target := by omega
      refine ⟨target.toNat, hok, by omega, ?_, ?_, by omega, ?_⟩
      · intro v _ hv
        rw [i32_eq_self (by omega) (by omega)]
        omega
      · rw [hnat, i32_eq_self (by omega) (by omega)]
      · rw [EnoughKeys, ← htarget, and_iff_right hover, or_iff_left fun h => hover h.1, allKeys]
        omega
  · have htop := hover.1
    have hlt := card_startKeys_lt hacc hj
    refine ⟨6442450943, hok, by omega, ?_, ?_, by omega, ?_⟩
    · intro v hv hv'
      unfold i32
      omega
    · rw [htarget, htop]
      decide
    · rw [EnoughKeys, and_iff_right hover, or_iff_right fun h => h.1 hover, allKeys]

/-- **The sampler returns enough rows** when there are enough keys. -/
theorem samplesRows_of_enough {targetRows : ℤ} (h0 : 0 ≤ targetRows)
    (hmax : targetRows < 2147483648) (henough : EnoughKeys tc targetRows) :
    SamplesRows tc targetRows := by
  have htmax := tc.offsets_lt tc.t (List.mem_of_getLast? hacc.last)
  have hcut := cutTarget_eq hh ht h0 hmax
  obtain ⟨N, hok, hN, hless, hstop, hle, hiff⟩ :=
    exists_stop hacc hh ht h0 hmax hcut _ rfl
  obtain ⟨n, r, hrun, hrok, hcard⟩ :=
    (drawRows_spec hh ht htmax hok hN hless hstop).1 (hiff.mpr henough)
  refine ⟨n, r.rows, ?_, hrok.rows_nodup, hrok.inOutput, ?_⟩
  · intro fuel hfuel
    rw [buildSampleRows, hrun fuel hfuel]
    rfl
  · rw [hrok.length, hcard, ← hcut]
    exact hle

/-- **The sampler never returns** when there are not. -/
theorem buildSampleRows_eq_none {targetRows : ℤ} (h0 : 0 ≤ targetRows)
    (hmax : targetRows < 2147483648) (hfew : ¬ EnoughKeys tc targetRows) (fuel : ℕ) :
    buildSampleRows tc fuel targetRows = none := by
  have htmax := tc.offsets_lt tc.t (List.mem_of_getLast? hacc.last)
  have hcut := cutTarget_eq hh ht h0 hmax
  obtain ⟨N, hok, hN, hless, hstop, hle, hiff⟩ :=
    exists_stop hacc hh ht h0 hmax hcut _ rfl
  have hnone := (drawRows_spec hh ht htmax hok hN hless hstop).2
    (Nat.lt_of_not_le (mt hiff.mp hfew)) fuel
  rw [buildSampleRows, hnone]
  rfl

end

/-! ## Shapes with a common power of two -/

theorem residue_eq {bound : ℤ} (h0 : 1 ≤ bound) (hlt : bound < 9223372036854775808)
    (state : ℕ) : residue state bound = ((state % bound.toNat : ℕ) : ℤ) := by
  have hu : u64 bound = bound := by
    unfold u64
    omega
  have hnat : ((bound.toNat : ℕ) : ℤ) = bound := by omega
  unfold residue
  rw [hu, Int.natCast_mod, hnat]

/-- Half the heads are ever drawn, and with each only the tokens of one residue: the low
bits of a state determine those of the next. -/
theorem card_drawnKeys_le (hh : 1 ≤ tc.h) (ht : 1 ≤ tc.t) (htmax : tc.t < 2147483648) {e : ℕ}
    (he : 0 < e) (hdvdH : 2 ^ e ∣ tc.h.toNat) (hdvdT : 2 ^ e ∣ tc.t.toNat) :
    (drawnKeys tc).card ≤ tc.h.toNat / 2 * (tc.t.toNat / 2 ^ e) := by
  let parity := 1 - seed tc % 2
  let key : ℕ × ℕ → ℕ := fun q =>
    rowKey ((2 * q.1 + parity : ℕ) : ℤ)
      ((2 ^ e * q.2 + ((2 * q.1 + parity) * 6364136223846793005 + 1442695040888963407) % 2 ^ e
        : ℕ) : ℤ)
  have he64 : 2 ^ e ∣ 2 ^ 64 := by
    apply Nat.pow_dvd_pow
    have hle := Nat.le_of_dvd (by omega) hdvdT
    have hlt : 2 ^ e < 2 ^ 31 := by omega
    have := (Nat.pow_lt_pow_iff_right (by omega)).mp hlt
    omega
  have htwo : 2 ∣ 2 ^ e := dvd_pow_self 2 (by omega)
  have hsub : drawnKeys tc ⊆
      (Finset.range (tc.h.toNat / 2) ×ˢ Finset.range (tc.t.toNat / 2 ^ e)).image key := by
    intro k hk
    simp only [drawnKeys, Finset.mem_image, Finset.mem_filter, Finset.mem_range] at hk
    obtain ⟨state, ⟨-, hpar⟩, rfl⟩ := hk
    have hhead : state % tc.h.toNat % 2 = parity := by
      rw [Nat.mod_mod_of_dvd _ (htwo.trans hdvdH)]
      omega
    have htoken : lcgStep state % tc.t.toNat % 2 ^ e =
        (state % tc.h.toNat * 6364136223846793005 + 1442695040888963407) % 2 ^ e := by
      rw [Nat.mod_mod_of_dvd _ hdvdT]
      unfold lcgStep
      rw [Lcg.step, Nat.mod_mod_of_dvd _ he64, Nat.add_mod, Nat.mul_mod,
        ← Nat.mod_mod_of_dvd state hdvdH, ← Nat.mul_mod, ← Nat.add_mod]
    have hlt := Nat.mod_lt state (show 0 < tc.h.toNat by omega)
    have hlt' := Nat.mod_lt (lcgStep state) (show 0 < tc.t.toNat by omega)
    have heven := htwo.trans hdvdH
    refine Finset.mem_image.mpr
      ⟨(state % tc.h.toNat / 2, lcgStep state % tc.t.toNat / 2 ^ e), ?_, ?_⟩
    · rw [Finset.mem_product, Finset.mem_range, Finset.mem_range]
      exact ⟨by omega, Nat.div_lt_div_of_lt_of_dvd hdvdT hlt'⟩
    · have hx : 2 * (state % tc.h.toNat / 2) + parity = state % tc.h.toNat := by omega
      simp only [key, hx, ← htoken, Nat.div_add_mod]
      rw [pairKey, residue_eq hh tc.h_lt, residue_eq ht (by omega)]
  calc (drawnKeys tc).card
      ≤ _ := Finset.card_le_card hsub
    _ ≤ _ := Finset.card_image_le
    _ = tc.h.toNat / 2 * (tc.t.toNat / 2 ^ e) := by simp

/-- **Common powers of two in the shape starve the sampler**: it never returns when more
rows are wanted than it can ever meet. -/
theorem buildSampleRows_eq_none_of_two_pow (hacc : Accepted tc.t tc.chunkOffsets)
    (hh : 1 ≤ tc.h) (ht : 1 ≤ tc.t) {targetRows : ℤ} (h0 : 0 ≤ targetRows)
    (hmax : targetRows < 2147483648) {e : ℕ} (he : 0 < e) (hdvdH : 2 ^ e ∣ tc.h.toNat)
    (hdvdT : 2 ^ e ∣ tc.t.toNat)
    (hfew : ((2 * (intervals tc.chunkOffsets).length + 3 +
      tc.h.toNat / 2 * (tc.t.toNat / 2 ^ e) : ℕ) : ℤ) < min targetRows (tc.h * tc.t))
    (fuel : ℕ) : buildSampleRows tc fuel targetRows = none := by
  have htmax := tc.offsets_lt tc.t (List.mem_of_getLast? hacc.last)
  have hdrawn := card_drawnKeys_le hh ht htmax he hdvdH hdvdT
  have hstart := card_startKeys_le tc (intervals tc.chunkOffsets).length
  have hall := Finset.card_union_le (startKeys tc (intervals tc.chunkOffsets).length)
    (drawnKeys tc)
  have hcard : ((allKeys tc).card : ℤ) < min targetRows (tc.h * tc.t) := by
    rw [allKeys]
    omega
  apply buildSampleRows_eq_none hacc hh ht h0 hmax
  rintro (⟨-, hle⟩ | ⟨-, hle⟩) <;> omega

/-! ## The sampler as asked for -/

/-- The built-in case `trace_ratio1_full64_k128`. -/
def traceRatio1 : TestCase where
  t := 1280
  h := 32
  hg := 32
  k := 128
  chunkOffsets := (List.range 21).map fun i : ℕ => 64 * (i : ℤ)
  gatePattern := .monotonicCumsum
  warmup := 3
  repeats := 10
  sampledRows := 12
  h_lt := by decide
  offsets_lt := by decide

example : buildChunkOffsets 30 [0, 1280] = some traceRatio1.chunkOffsets := by decide

/-- **The sampler does not return for every case and count**: 32 heads and 1280 tokens
share the factor 32, so that at most 683 rows are ever met, and 40960 are wanted. -/
theorem not_samplesRows_always : ¬ ∀ (tc : TestCase) (targetRows : ℤ), 1 ≤ tc.t → 1 ≤ tc.h →
    offsetsAccepted tc.t tc.chunkOffsets = true → 0 ≤ targetRows → targetRows < 2147483648 →
    SamplesRows tc targetRows := by
  intro hall
  have haccepted : offsetsAccepted traceRatio1.t traceRatio1.chunkOffsets = true := by decide
  obtain ⟨n, rows, hrun, -⟩ := hall traceRatio1 40960 (by decide) (by decide) haccepted
    (by decide) (by decide)
  have hacc := (offsetsAccepted_iff traceRatio1.offsets_lt).mp haccepted
  have hnone : buildSampleRows traceRatio1 (n + 1) 40960 = none :=
    buildSampleRows_eq_none_of_two_pow (e := 5) hacc (by decide) (by decide) (by decide)
      (by decide) (by decide) (by decide) (by decide) (by decide) (n + 1)
  rw [hrun (n + 1) (Nat.lt_succ_self n)] at hnone
  exact Option.some_ne_none rows hnone

/-- **The sampler returns enough rows exactly when the keys it can meet suffice**, for
shapes whose number of rows `tc.h * tc.t` is within `int64_t`. -/
theorem samplesRows_iff {tc : TestCase} (hh : 1 ≤ tc.h) (ht : 1 ≤ tc.t)
    (haccepted : offsetsAccepted tc.t tc.chunkOffsets = true) {targetRows : ℤ}
    (h0 : 0 ≤ targetRows) (hmax : targetRows < 2147483648) :
    SamplesRows tc targetRows ↔ EnoughKeys tc targetRows := by
  have hacc := (offsetsAccepted_iff tc.offsets_lt).mp haccepted
  constructor
  · intro ⟨n, rows, hrun, _⟩
    by_contra hfew
    have hnone := buildSampleRows_eq_none hacc hh ht h0 hmax hfew (n + 1)
    rw [hrun (n + 1) (Nat.lt_succ_self n)] at hnone
    exact Option.some_ne_none rows hnone
  · exact samplesRows_of_enough hacc hh ht h0 hmax

/-- Three heads of one sequence of five tokens. -/
def fiveTokens : TestCase where
  t := 5
  h := 3
  hg := 3
  k := 128
  chunkOffsets := [0, 5]
  gatePattern := .monotonicCumsum
  warmup := 0
  repeats := 1
  sampledRows := 15
  h_lt := by decide
  offsets_lt := by decide

/-- The even states up to 38 stand for every row of the output. -/
theorem card_allKeys_fiveTokens : 15 ≤ (allKeys fiveTokens).card := by
  let key : ℕ → ℕ := fun i => pairKey fiveTokens (2 * i) (lcgStep (2 * i))
  have hseed : seed fiveTokens % 2 = 1 := by decide +kernel
  have hsub : (Finset.range 20).image key ⊆ drawnKeys fiveTokens := by
    intro k hk
    obtain ⟨i, hi, rfl⟩ := Finset.mem_image.mp hk
    have hlt := Finset.mem_range.mp hi
    refine Finset.mem_image.mpr ⟨2 * i, Finset.mem_filter.mpr ⟨?_, ?_⟩, rfl⟩
    · exact Finset.mem_range.mpr (by omega)
    · omega
  have hcard : ((Finset.range 20).image key).card = 15 := by decide +kernel
  calc 15 = ((Finset.range 20).image key).card := hcard.symm
    _ ≤ (drawnKeys fiveTokens).card := Finset.card_le_card hsub
    _ ≤ (allKeys fiveTokens).card := Finset.card_le_card Finset.subset_union_right

/-- All fifteen rows are found, twelve of them by draws. -/
theorem samplesRows_fiveTokens : SamplesRows fiveTokens 15 := by
  apply (samplesRows_iff (by decide) (by decide) (by decide) (by decide) (by decide)).mpr
  refine Or.inl ⟨fun h => absurd h.1 (by decide), ?_⟩
  exact Int.ofNat_le.mpr card_allKeys_fiveTokens

end ChunkScaledDotKkt.Harness
