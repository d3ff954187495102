import ChunkScaledDotKkt.Lib.IntervalChain
import ChunkScaledDotKkt.Lib.Loop
import ChunkScaledDotKkt.Lib.MachineInt
import Mathlib.Tactic.Ring

/-!
# Test cases of the validation harness

A test case carries its own chunk offsets, built from sequence boundaries or written
out.  The generator of offsets, the check of a case and the search for the chunk of a
token all speak of one partition of `[0, t)`.

## Main results

* `buildChunkOffsets_partitions` — the generator terminates with a partition that
  ends a chunk early only at a sequence boundary.
* `Partitions.accepted` — the case check accepts such a partition.
* `findChunkIndex_spec` — over accepted offsets the search finds the one chunk of the
  token.
-/

namespace ChunkScaledDotKkt.Harness

open MachineInt IntervalChain

def kChunkSize : ℤ := 64

inductive GatePattern where
  | monotonicCumsum | nonMonotonic | rowZeroActive | nearZeroDiff | allEqual | wideRange
  deriving Repr, DecidableEq

/-- A test case; shapes are `int64_t`, offsets `int32_t`, counts `int`. -/
structure TestCase where
  t : ℤ
  h : ℤ
  hg : ℤ
  k : ℤ
  chunkOffsets : List ℤ
  gatePattern : GatePattern
  warmup : ℤ
  repeats : ℤ
  sampledRows : ℤ
  h_lt : h < 9223372036854775808
  offsets_lt : ∀ x ∈ chunkOffsets, x < 2147483648

/-! ## Offsets from sequence boundaries -/

/-- The starts that the inner loop of `BuildChunkOffsets` pushes for one sequence. -/
def pushStarts (fuel : ℕ) (begin stop : ℤ) : Option (List ℤ) :=
  TraceLoop.loop (fun start => decide (start < stop))
    (fun start => ([start], i32 (start + kChunkSize))) fuel begin

/-- The outer loop, over adjacent boundaries. -/
def pushSequences (fuel : ℕ) : List ℤ → Option (List ℤ)
  | begin :: stop :: cuSeqlens => do
      let starts ← pushStarts fuel begin stop
      let later ← pushSequences fuel (stop :: cuSeqlens)
      return starts ++ later
  | _ => some []

def buildChunkOffsets (fuel : ℕ) (cuSeqlens : List ℤ) : Option (List ℤ) := do
  let offsets ← pushSequences fuel cuSeqlens
  return offsets ++ cuSeqlens.getLast?.toList

/-! ## The case check -/

/-- The loop of `ValidateCase` rejects this chunk. -/
def badChunk (t begin stop : ℤ) : Bool :=
  begin < 0 || stop ≤ begin || stop > t || i32 (stop - begin) > kChunkSize

/-- The tests of `ValidateCase` on the offsets. -/
def offsetsAccepted (t : ℤ) (chunkOffsets : List ℤ) : Bool :=
  !(chunkOffsets.length < 2 || chunkOffsets.head? != some 0 ||
      chunkOffsets.getLast? != some t) &&
    (intervals chunkOffsets).all fun p => !badChunk t p.1 p.2

/-- The tests of `ValidateCase` on the other fields. -/
def TestCase.fieldsAccepted (tc : TestCase) : Bool :=
  !(tc.t ≤ 0 || tc.h ≤ 0 || tc.hg ≤ 0 || tc.h % tc.hg != 0 || (tc.k != 128 && tc.k != 256) ||
    tc.warmup < 0 || tc.repeats ≤ 0 || tc.sampledRows < 0)

def validateCase (tc : TestCase) : Bool :=
  tc.fieldsAccepted && offsetsAccepted tc.t tc.chunkOffsets

/-! ## The chunk of a token -/

/-- `std::upper_bound` over the offsets, then the position before it; the number of
offsets stands for "not found". -/
def TestCase.findChunkIndex (tc : TestCase) (token : ℤ) : ℕ :=
  let it := upperBound tc.chunkOffsets (i32 token)
  if it = 0 || it = tc.chunkOffsets.length then tc.chunkOffsets.length else it - 1

/-! ## Partitions -/

/-- The offsets cut `[start, t)` into chunks of 64, shorter ones only before a
boundary. -/
structure Partitions (boundary : ℤ → Prop) (start t : ℤ) (offsets : List ℤ) : Prop where
  head : offsets.head? = some start
  last : offsets.getLast? = some t
  chunks : offsets.IsChain fun a b => a < b ∧ b - a ≤ 64 ∧ (¬ boundary b → b - a = 64)

variable {boundary : ℤ → Prop} {start stop t : ℤ} {offsets : List ℤ}

/-- A chunk in front of a partition. -/
theorem Partitions.cons (h : Partitions boundary start t offsets) {begin : ℤ}
    (hlt : begin < start) (hle : start - begin ≤ 64)
    (hfull : ¬ boundary start → start - begin = 64) :
    Partitions boundary begin t (begin :: offsets) := by
  obtain ⟨head, last, chunks⟩ := h
  obtain ⟨offsets, rfl⟩ := List.head?_eq_some_iff.mp head
  refine ⟨rfl, by rw [List.getLast?_cons_cons]; exact last, ?_⟩
  rw [List.isChain_cons_cons]
  exact ⟨⟨hlt, hle, hfull⟩, chunks⟩

/-- The inner loop extends a partition by one sequence. -/
theorem pushStarts_partitions {begin : ℤ} (hb : 0 ≤ begin) (hle : begin ≤ stop)
    (hmax : stop ≤ 2147483648 - 64) (hstop : boundary stop) :
    ∃ starts, (∀ fuel, (stop - begin).toNat < fuel →
        pushStarts fuel begin stop = some starts) ∧
      ∀ later, Partitions boundary stop t later →
        Partitions boundary begin t (starts ++ later) := by
  -- the loop state after `r` turns is `begin + 64 * r`, cut off at the end of the sequence
  let n := ((stop - begin + 63) / 64).toNat
  let Spec : ℕ → List ℤ → Prop := fun r trace => ∀ later, Partitions boundary stop t later →
    Partitions boundary (min (begin + 64 * r) stop) t (trace ++ later)
  have hloop : ∃ starts, (∀ fuel, n < fuel → pushStarts fuel begin stop = some starts) ∧
      Spec 0 starts := by
    unfold pushStarts
    apply TraceLoop.loop_from_start (fun r : ℕ => begin + 64 * r) n Spec (by simp)
    · intro r hr
      simp only [decide_eq_decide]
      omega
    · intro later hlater
      have hmin : min (begin + 64 * (n : ℤ)) stop = stop := by omega
      rwa [hmin]
    · intro r hr
      have hnext : i32 (begin + 64 * (r : ℤ) + kChunkSize) = begin + 64 * ((r + 1 : ℕ) : ℤ) := by
        rw [i32_eq_self] <;> simp only [kChunkSize] <;> push_cast <;> omega
      refine ⟨r + 1, by omega, by omega, hnext, fun trace hspec later hlater => ?_⟩
      have hrest := hspec later hlater
      have hstart : min (begin + 64 * (r : ℤ)) stop = begin + 64 * r := by omega
      rw [hstart]
      refine hrest.cons (by push_cast; omega) (by push_cast; omega) fun hnot => ?_
      have hne : min (begin + 64 * ((r + 1 : ℕ) : ℤ)) stop ≠ stop := by
        intro heq
        rw [heq] at hnot
        exact hnot hstop
      push_cast at hne ⊢
      omega
  obtain ⟨starts, hrun, hspec⟩ := hloop
  refine ⟨starts, fun fuel hfuel => hrun fuel (by omega), fun later hlater => ?_⟩
  have := hspec later hlater
  simpa [hle] using this

/-- Both loops together: the starts of all sequences, in front of the last boundary. -/
theorem pushSequences_partitions {cuSeqlens : List ℤ} {begin : ℤ} (hb : 0 ≤ begin)
    (hchain : (begin :: cuSeqlens).IsChain (· ≤ ·))
    (hlast : (begin :: cuSeqlens).getLast? = some t) (hmax : t ≤ 2147483648 - 64)
    (hboundary : ∀ b ∈ begin :: cuSeqlens, boundary b) :
    ∃ starts, (∀ fuel, (t - begin).toNat < fuel →
        pushSequences fuel (begin :: cuSeqlens) = some starts) ∧
      Partitions boundary begin t (starts ++ [t]) ∧
      ∀ b ∈ begin :: cuSeqlens, b ∈ starts ++ [t] := by
  induction cuSeqlens generalizing begin with
  | nil =>
      obtain rfl : begin = t := by simpa using hlast
      exact ⟨[], fun _ _ => rfl, ⟨rfl, rfl, by simp⟩, by simp⟩
  | cons stop cuSeqlens ih =>
      rw [List.isChain_cons_cons] at hchain
      rw [List.getLast?_cons_cons] at hlast
      have hle : stop ≤ t := by
        have hpair := List.isChain_iff_pairwise.mp hchain.2
        have hmem := List.mem_of_getLast? hlast
        cases List.mem_cons.mp hmem with
        | inl h => exact le_of_eq h.symm
        | inr h => exact (List.pairwise_cons.mp hpair).1 t h
      have hle' := hchain.1
      obtain ⟨later, hrunLater, hpart, hsub⟩ := ih (by omega) hchain.2 hlast
        fun b hbm => hboundary b (List.mem_cons_of_mem begin hbm)
      obtain ⟨starts, hrun, hstarts⟩ := pushStarts_partitions (t := t) hb hle' (by omega)
        (hboundary stop (by simp))
      have hall := hstarts _ hpart
      refine ⟨starts ++ later, ?_, by rwa [List.append_assoc], ?_⟩
      · intro fuel hfuel
        rw [pushSequences, hrun fuel (by omega), hrunLater fuel (by omega)]
        rfl
      · intro b hbm
        rw [List.append_assoc]
        cases List.mem_cons.mp hbm with
        | inl h =>
            rw [h]
            exact List.mem_of_head? hall.head
        | inr h => exact List.mem_append_right starts (hsub b h)

/-- **The generated offsets partition `[0, t)`** and hold every sequence boundary. -/
theorem buildChunkOffsets_partitions {cuSeqlens : List ℤ}
    (hchain : cuSeqlens.IsChain (· ≤ ·)) (hhead : cuSeqlens.head? = some 0)
    (hlast : cuSeqlens.getLast? = some t) (hmax : t ≤ 2147483648 - 64) :
    ∃ offsets, (∀ fuel, t.toNat < fuel → buildChunkOffsets fuel cuSeqlens = some offsets) ∧
      Partitions (· ∈ cuSeqlens) 0 t offsets ∧ ∀ b ∈ cuSeqlens, b ∈ offsets := by
  cases cuSeqlens with
  | nil => simp at hhead
  | cons begin cuSeqlens =>
      obtain rfl : begin = 0 := by simpa using hhead
      have hboundary : ∀ b ∈ 0 :: cuSeqlens, b ∈ 0 :: cuSeqlens := fun _ hb => hb
      obtain ⟨starts, hrun, hpart, hsub⟩ :=
        pushSequences_partitions (le_refl 0) hchain hlast hmax hboundary
      refine ⟨starts ++ [t], ?_, hpart, hsub⟩
      intro fuel hfuel
      rw [buildChunkOffsets, hrun fuel (by omega), hlast]
      rfl

/-! ## Accepted offsets -/

/-- What the loop of the case check asks of one chunk, over the integers. -/
theorem badChunk_eq_false {begin stop : ℤ} (hstop : stop < 2147483648) :
    badChunk t begin stop = false ↔
      0 ≤ begin ∧ begin < stop ∧ stop ≤ t ∧ stop - begin ≤ 64 := by
  simp only [badChunk, kChunkSize, Bool.or_eq_false_iff, decide_eq_false_iff_not, not_lt, not_le,
    gt_iff_lt]
  constructor
  · intro ⟨⟨⟨h0, hlt⟩, hle⟩, hlen⟩
    rw [i32_eq_self (by omega) (by omega)] at hlen
    exact ⟨h0, hlt, hle, hlen⟩
  · intro ⟨h0, hlt, hle, hlen⟩
    rw [i32_eq_self (by omega) (by omega)]
    exact ⟨⟨⟨h0, hlt⟩, hle⟩, hlen⟩

/-- Entries of a strictly increasing list lie between its ends. -/
theorem between_ends (hchain : offsets.IsChain (· < ·)) (hhead : offsets.head? = some start)
    (hlast : offsets.getLast? = some t) {x : ℤ} (hx : x ∈ offsets) : start ≤ x ∧ x ≤ t := by
  have hpair := hchain.pairwise
  obtain ⟨i, hi, rfl⟩ := List.mem_iff_getElem.mp hx
  have hle : ∀ {p q : ℕ} (hp : p < offsets.length) (hq : q < offsets.length), p ≤ q →
      offsets[p] ≤ offsets[q] := by
    intro p q hp hq hpq
    cases Nat.eq_or_lt_of_le hpq with
    | inl heq => simp [heq]
    | inr hlt => exact le_of_lt (List.pairwise_iff_getElem.mp hpair p q hp hq hlt)
  rw [List.head?_eq_getElem?, List.getElem?_eq_some_iff] at hhead
  rw [List.getLast?_eq_getElem?, List.getElem?_eq_some_iff] at hlast
  obtain ⟨h0, rfl⟩ := hhead
  obtain ⟨hn, rfl⟩ := hlast
  exact ⟨hle h0 hi (Nat.zero_le i), hle hi hn (by omega)⟩

/-- Accepted offsets, as integers. -/
structure Accepted (t : ℤ) (offsets : List ℤ) : Prop where
  two_le : 2 ≤ offsets.length
  head : offsets.head? = some 0
  last : offsets.getLast? = some t
  increasing : offsets.IsChain (· < ·)
  len_le : ∀ p ∈ intervals offsets, p.2 - p.1 ≤ 64

/-- Each chunk takes at least one token. -/
theorem length_intervals_le {a last : ℤ} {bounds : List ℤ}
    (hchain : (a :: bounds).IsChain (· < ·)) (hlast : (a :: bounds).getLast? = some last) :
    ((intervals (a :: bounds)).length : ℤ) ≤ last - a := by
  induction bounds generalizing a with
  | nil =>
      obtain rfl : a = last := by simpa using hlast
      simp
  | cons b bounds ih =>
      rw [List.isChain_cons_cons] at hchain
      rw [List.getLast?_cons_cons] at hlast
      have := ih hchain.2 hlast
      have := hchain.1
      rw [intervals_cons_cons, List.length_cons]
      push_cast
      omega

theorem Accepted.chunks_le {t : ℤ} {offsets : List ℤ} (h : Accepted t offsets) :
    ((intervals offsets).length : ℤ) ≤ t := by
  obtain ⟨-, head, last, increasing, -⟩ := h
  obtain ⟨bounds, rfl⟩ := List.head?_eq_some_iff.mp head
  have := length_intervals_le increasing last
  omega

theorem Accepted.inRange {t : ℤ} {offsets : List ℤ} (h : Accepted t offsets) {p : ℤ × ℤ}
    (hp : p ∈ intervals offsets) : 0 ≤ p.1 ∧ p.1 < p.2 ∧ p.2 ≤ t := by
  have hmem := mem_of_mem_intervals hp
  have h1 := between_ends h.increasing h.head h.last hmem.1
  have h2 := between_ends h.increasing h.head h.last hmem.2
  exact ⟨h1.1, isChain_iff_intervals.mp h.increasing p hp, h2.2⟩

/-- **The offset checks over the integers.** -/
theorem offsetsAccepted_iff (hint : ∀ x ∈ offsets, x < 2147483648) :
    offsetsAccepted t offsets = true ↔ Accepted t offsets := by
  have hbad : ∀ p ∈ intervals offsets, (badChunk t p.1 p.2 = false ↔
      0 ≤ p.1 ∧ p.1 < p.2 ∧ p.2 ≤ t ∧ p.2 - p.1 ≤ 64) := fun p hp =>
    badChunk_eq_false (hint p.2 (mem_of_mem_intervals hp).2)
  simp only [offsetsAccepted, Bool.and_eq_true, Bool.not_eq_true', Bool.or_eq_false_iff,
    decide_eq_false_iff_not, not_lt, bne_eq_false_iff_eq, List.all_eq_true]
  constructor
  · intro ⟨⟨⟨hlen, hhead⟩, hlast⟩, hall⟩
    refine ⟨hlen, hhead, hlast, ?_, fun p hp => ((hbad p hp).mp (hall p hp)).2.2.2⟩
    exact isChain_iff_intervals.mpr fun p hp => ((hbad p hp).mp (hall p hp)).2.1
  · intro h
    refine ⟨⟨⟨h.two_le, h.head⟩, h.last⟩, fun p hp => (hbad p hp).mpr ?_⟩
    obtain ⟨h0, hlt, hle⟩ := h.inRange hp
    exact ⟨h0, hlt, hle, h.len_le p hp⟩

/-- A partition of a non-empty range is accepted. -/
theorem Partitions.accepted (h : Partitions boundary 0 t offsets) (ht : 0 < t) :
    Accepted t offsets where
  two_le := by
    obtain ⟨head, last, -⟩ := h
    cases offsets with
    | nil => simp at head
    | cons a offsets =>
        cases offsets with
        | nil =>
            simp at head last
            omega
        | cons b offsets => simp
  head := h.head
  last := h.last
  increasing := h.chunks.imp fun _ _ hp => hp.1
  len_le := fun p hp => (isChain_iff_intervals.mp h.chunks p hp).2.1

/-- **The search finds the chunk of a token**, and no other chunk holds it. -/
theorem findChunkIndex_spec {tc : TestCase} (h : Accepted tc.t tc.chunkOffsets) {token : ℤ}
    (h0 : 0 ≤ token) (ht : token < tc.t) :
    tc.findChunkIndex token + 1 < tc.chunkOffsets.length ∧
      ∃ begin stop, tc.chunkOffsets[tc.findChunkIndex token]? = some begin ∧
        tc.chunkOffsets[tc.findChunkIndex token + 1]? = some stop ∧
        begin ≤ token ∧ token < stop ∧
        ∀ c begin' stop', tc.chunkOffsets[c]? = some begin' →
          tc.chunkOffsets[c + 1]? = some stop' → begin' ≤ token → token < stop' →
          c = tc.findChunkIndex token := by
  have hmax := tc.offsets_lt tc.t (List.mem_of_getLast? h.last)
  have hi32 : i32 token = token := i32_eq_self (by omega) (by omega)
  obtain ⟨bounds, hbounds⟩ := List.head?_eq_some_iff.mp h.head
  have hchain := h.increasing
  have hlast := h.last
  rw [hbounds] at hchain hlast
  obtain ⟨c, hc, hlen, begin, stop, hb, hs, hin⟩ := upperBound_spec hchain hlast h0 ht
  rw [← hbounds] at hc hlen hb hs hchain
  have hfind : tc.findChunkIndex token = c := by
    rw [TestCase.findChunkIndex, hi32, hc]
    simp [Nat.ne_of_lt hlen]
  rw [hfind]
  exact ⟨hlen, begin, stop, hb, hs, hin.1, hin.2, fun c' begin' stop' hb' hs' hlow hhigh =>
    index_unique hchain hb hs hb' hs' hin ⟨hlow, hhigh⟩⟩

end ChunkScaledDotKkt.Harness
