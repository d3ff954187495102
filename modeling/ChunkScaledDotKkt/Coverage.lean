import ChunkScaledDotKkt.Vector.HeadShare

/-!
# Coverage of the output

Which elements of the output the lanes of a launch write.  The rounds of a group follow
its schedule, the records of a round follow the share of its lane, and the stream
launches every record once; together each element of a valid chunk is written exactly
once, by its owner, and nothing else is written.

## Main results

* `Launch.Trail.writes` — what a lane writes from a round on, by induction over its calls.
* `output_coverage` — the whole launch.
-/

namespace ChunkScaledDotKkt

open VectorStage BlockCopy

namespace VectorStage

/-! ## What a stream has written -/

namespace OutputStream

/-- The records whose copies have been launched, in order. -/
def launchedOutputs (s : OutputStream) : List OutputRecord :=
  s.log.filterMap fun
    | .launch _ _ output => some output
    | _ => none

/-- The elements of `outputGm_` that these copies write, in order. -/
def writes (t : ℤ) (s : OutputStream) : List ℤ :=
  s.launchedOutputs.flatMap fun output => targets (output.launchMoves t)

end OutputStream

/-- The launches among the queued and the launched records of a history. -/
theorem launched_of_records (log : List OutputEvent) :
    (log.filterMap fun
      | .launch _ _ output => some output
      | _ => none) =
    (log.filterMap OutputEvent.record?).filterMap fun
      | (true, _, output) => some output
      | (false, _, _) => none := by
  rw [List.filterMap_filterMap]
  congr 1
  funext e
  cases e <;> rfl

/-- **A settled stream has launched every record once**, in order. -/
theorem Settled.launchedOutputs_eq {env : OutputEnv} {records : List OutputRecord}
    {s : OutputStream} (h : Settled env records s) : s.launchedOutputs = records := by
  rw [OutputStream.launchedOutputs, launched_of_records, h.launched, launchedRecords,
    List.filterMap_flatMap]
  simp only [List.filterMap_cons, List.filterMap_nil]
  rw [← List.map_eq_flatMap]
  exact List.zipIdx_map_fst 0 records

end VectorStage

namespace Launch

variable {L : Launch} {offsets : ChunkOffsets} {g g' r r' lane : ℕ}

/-! ## Rounds and places -/

/-- Two rounds of a launch are for different tasks. -/
theorem place_inj (hg : g < L.groups) (hr : r < L.count g) (hg' : g' < L.groups)
    (hr' : r' < L.count g') (h : L.place g r = L.place g' r') : g = g' ∧ r = r' := by
  have hmem : (g, r) ∈ {p : ℕ × ℕ | p.1 < L.groups ∧ p.2 < L.count p.1} := ⟨hg, hr⟩
  have hmem' : (g', r') ∈ {p : ℕ × ℕ | p.1 < L.groups ∧ p.2 < L.count p.1} := ⟨hg', hr'⟩
  have htask : L.task g r = L.task g' r' := by rw [task_eq, task_eq, h]
  exact Prod.mk.inj (L.exact.2.1 hmem hmem' htask)

/-- Every chunk and KV head is the place of a round. -/
theorem exists_place {c kv : ℕ} (hc : c < L.chunks) (hkv : kv < L.kvHeads) :
    ∃ g r, g < L.groups ∧ r < L.count g ∧ L.place g r = (c, kv) := by
  have hlt : c * L.kvHeads + kv < L.chunks * L.kvHeads :=
    calc c * L.kvHeads + kv < c * L.kvHeads + L.kvHeads := by omega
      _ = (c + 1) * L.kvHeads := (Nat.succ_mul c L.kvHeads).symm
      _ ≤ L.chunks * L.kvHeads := Nat.mul_le_mul_right _ hc
  obtain ⟨⟨g, r⟩, ⟨hg, hr⟩, htask⟩ := L.exact.2.2 (Set.mem_Iio.mpr hlt)
  have hplace := L.task_div_mod hg hr
  simp only at htask
  rw [htask, Nat.mul_comm, Nat.mul_add_div L.kvHeads_pos, Nat.div_eq_of_lt hkv, Nat.add_zero,
    Nat.mul_add_mod, Nat.mod_eq_of_lt hkv] at hplace
  exact ⟨g, r, hg, hr, Prod.ext hplace.1.symm hplace.2.symm⟩

/-! ## A lane from a round on -/

/-- What a lane's records from round `r` on write. -/
structure WritesFrom (L : Launch) (offsets : ChunkOffsets) (g lane r : ℕ)
    (outputs : List OutputRecord) : Prop where
  /-- Each record is a batch of one round or of two. -/
  batch : ∀ output ∈ outputs, ∃ r' b n, r ≤ r' ∧ 0 < n ∧ r' + n ≤ L.count g ∧
    (∀ i < n, L.place g (r' + i) = ((L.place g r').1 + i, (L.place g r').2)) ∧
    WritesBatch L.tiling offsets lane (L.place g r').1 (L.place g r').2 b n output
  /-- Everything owned in these rounds is written. -/
  owned : ∀ r', r ≤ r' → r' < L.count g → ∀ b head token,
    Owns L.tiling offsets lane (L.place g r').1 (L.place g r').2 b head token →
    ∀ col < 64, ∃ output ∈ outputs,
      elementOffset L.tiling.t head token col ∈ targets (output.launchMoves L.tiling.t)
  once : (outputs.flatMap fun output => targets (output.launchMoves L.tiling.t)).Nodup

/-- What is written from a round on has an owner in one of these rounds. -/
theorem WritesFrom.owner {outputs : List OutputRecord} {a : ℤ}
    (h : WritesFrom L offsets g lane r outputs) {output : OutputRecord} (hout : output ∈ outputs)
    (ha : a ∈ targets (output.launchMoves L.tiling.t)) :
    ∃ r', r ≤ r' ∧ r' < L.count g ∧ ∃ b head token, ∃ col < 64,
      Owns L.tiling offsets lane (L.place g r').1 (L.place g r').2 b head token ∧
        a = elementOffset L.tiling.t head token col := by
  obtain ⟨r', b, n, hle, -, hn, hplace, hwrites⟩ := h.batch output hout
  obtain ⟨i, hi, head, token, col, hcol, howns, ha⟩ := (hwrites.mem_iff a).mp ha
  refine ⟨r' + i, by omega, by omega, b, head, token, col, hcol, ?_, ha⟩
  rw [hplace i hi]
  exact howns

/-- The owners of one element are in one round. -/
theorem same_round {b b' : ℕ} {head token head' token' : ℤ} {col col' : ℕ} {lane' : ℕ}
    (hrep : 1 ≤ L.tiling.numRepeat) (hmono : offsets.Nondecreasing L.chunks)
    (hg : g < L.groups) (hr : r < L.count g) (hlane : lane < 2) (hg' : g' < L.groups)
    (hr' : r' < L.count g') (hlane' : lane' < 2)
    (h : Owns L.tiling offsets lane (L.place g r).1 (L.place g r).2 b head token)
    (h' : Owns L.tiling offsets lane' (L.place g' r').1 (L.place g' r').2 b' head' token')
    (hcol : col < 64) (hcol' : col' < 64)
    (heq : elementOffset L.tiling.t head token col = elementOffset L.tiling.t head' token' col') :
    g = g' ∧ r = r' ∧ lane = lane' := by
  obtain ⟨rfl, rfl⟩ := h.same_element h' hcol hcol' heq
  obtain ⟨hc, hkv, rfl, -⟩ := h.unique h' hrep hmono (L.place_lt hg hr).1 (L.place_lt hg' hr').1
    hlane hlane'
  obtain ⟨rfl, rfl⟩ := place_inj hg hr hg' hr' (Prod.ext hc hkv)
  exact ⟨rfl, rfl, rfl⟩

/-! ## The share of a call -/

theorem place_one : ∀ i < 1, L.place g (r + i) = ((L.place g r).1 + i, (L.place g r).2) := by
  intro i hi
  obtain rfl : i = 0 := by omega
  rfl

theorem place_two (h : L.place g (r + 1) = ((L.place g r).1 + 1, (L.place g r).2)) :
    ∀ i < 2, L.place g (r + i) = ((L.place g r).1 + i, (L.place g r).2) := by
  intro i hi
  obtain rfl | rfl : i = 0 ∨ i = 1 := by omega
  · rfl
  · exact h

/-- A fused pair is two full chunks in range when no length wraps. -/
theorem inRange_of_fuse (hg : g < L.groups) (hr : r + 1 < L.count g)
    (hw : ∀ c < L.chunks, ¬ offsets.Wraps c)
    (hplace : L.place g (r + 1) = ((L.place g r).1 + 1, (L.place g r).2))
    (hfuse : canFuseAdjacentFullChunks L.tiling.t offsets (L.place g r).1 = true) :
    offsets.InRange L.tiling.t (L.place g r).1 ∧
      offsets.InRange L.tiling.t ((L.place g r).1 + 1 : ℕ) ∧
      offsets.getValue ((L.place g r).1 + 1) - offsets.getValue (L.place g r).1 = 64 ∧
      offsets.getValue ((L.place g r).1 + 2) - offsets.getValue ((L.place g r).1 + 1) = 64 := by
  have hlt := (L.place_lt hg hr).1
  rw [hplace] at hlt
  have hw' : ¬ offsets.Wraps ((L.place g r).1 + 1 : ℤ) := by
    have := hw _ hlt
    rwa [Nat.cast_succ] at this
  obtain ⟨hin, hin', hlen, hlen'⟩ := (ChunkOffsets.canFuseAdjacentFullChunks_iff
    (hw _ (by omega)) hw').mp hfuse
  exact ⟨hin, by rwa [Nat.cast_succ], hlen, hlen'⟩

theorem single_share (hrep : 1 ≤ L.tiling.numRepeat) (hg : g < L.groups) (hlane : lane < 2)
    (hr : r < L.count g) (hw : ∀ c < L.chunks, ¬ offsets.Wraps c) (localRound : ℤ) (reuse : Bool) :
    WritesShare L.tiling offsets lane (L.place g r).1 (L.place g r).2 1
      ((pipelineTask L.tiling offsets (L.task g r : ℕ) lane localRound reuse).records
        L.tiling) := by
  obtain ⟨hc, hkv⟩ := task_tdiv_tmod hg hr
  exact pipelineTask_writesShare localRound reuse hrep hlane hc hkv (hw _ (L.place_lt hg hr).1)

theorem pair_share (hg : g < L.groups) (hlane : lane < 2) (hr : r + 1 < L.count g)
    (hw : ∀ c < L.chunks, ¬ offsets.Wraps c) (hthree : L.tiling.numRepeat = 3)
    (hplace : L.place g (r + 1) = ((L.place g r).1 + 1, (L.place g r).2))
    (hfuse : canFuseAdjacentFullChunks L.tiling.t offsets (L.place g r).1 = true)
    (localRound localTaskCount : ℤ) :
    WritesShare L.tiling offsets lane (L.place g r).1 (L.place g r).2 2
      [(adjacentFullChunk offsets (lane == 1) (L.place g r).1
        ((L.place g r).2 * 3 + lane : ℕ) localRound localTaskCount).record L.tiling.t] := by
  obtain ⟨hin, hin', hlen, hlen'⟩ := inRange_of_fuse hg hr hw hplace hfuse
  exact adjacentFullChunk_writesShare hthree hlane _ localRound localTaskCount hin hin' hlen hlen'

section Lane

variable (hrep : 1 ≤ L.tiling.numRepeat) (hmono : offsets.Nondecreasing L.chunks)
  (hg : g < L.groups) (hlane : lane < 2)

include hrep hmono hg hlane in
/-- The records of `n` rounds before those of the later ones. -/
theorem WritesFrom.append {n : ℕ} {outputs rest : List OutputRecord} (hr : r + n ≤ L.count g)
    (hn : 0 < n) (hplace : ∀ i < n, L.place g (r + i) = ((L.place g r).1 + i, (L.place g r).2))
    (h : WritesShare L.tiling offsets lane (L.place g r).1 (L.place g r).2 n outputs)
    (hrest : WritesFrom L offsets g lane (r + n) rest) :
    WritesFrom L offsets g lane r (outputs ++ rest) := by
  constructor
  · intro output hout
    rw [List.mem_append] at hout
    cases hout with
    | inl hout =>
        obtain ⟨b, hb⟩ := h.batch output hout
        exact ⟨r, b, n, le_refl r, hn, hr, hplace, hb⟩
    | inr hout =>
        obtain ⟨r', b, m, hle, hm⟩ := hrest.batch output hout
        exact ⟨r', b, m, by omega, hm⟩
  · intro r' hle hlt b head token howns col hcol
    by_cases hlater : r + n ≤ r'
    · obtain ⟨output, hout, ha⟩ := hrest.owned r' hlater hlt b head token howns col hcol
      exact ⟨output, List.mem_append_right _ hout, ha⟩
    · obtain ⟨i, rfl⟩ := Nat.exists_eq_add_of_le hle
      have hi : i < n := by omega
      rw [hplace i hi] at howns
      obtain ⟨output, hout, hwrites⟩ := h.owned i hi b head token howns
      exact ⟨output, List.mem_append_left _ hout,
        (hwrites.mem_iff _).mpr ⟨i, hi, head, token, col, hcol, howns, rfl⟩⟩
  · rw [List.flatMap_append]
    refine List.nodup_append.mpr ⟨h.once, hrest.once, ?_⟩
    intro a ha a' ha' heq
    subst heq
    obtain ⟨output, hout, ha⟩ := List.mem_flatMap.mp ha
    obtain ⟨output', hout', ha'⟩ := List.mem_flatMap.mp ha'
    obtain ⟨b, hwrites⟩ := h.batch output hout
    obtain ⟨i, hi, head, token, col, hcol, howns, rfl⟩ := (hwrites.mem_iff _).mp ha
    obtain ⟨r', hle, hlt, b', head', token', col', hcol', howns', heq⟩ := hrest.owner hout' ha'
    have hround : Owns L.tiling offsets lane (L.place g (r + i)).1 (L.place g (r + i)).2 b head
        token := by
      rw [hplace i hi]
      exact howns
    have := same_round hrep hmono hg (by omega) hlane hg hlt hlane hround howns' hcol hcol' heq
    omega

include hrep hmono hg hlane in
/-- **A lane writes what it owns** in the rounds of its trail. -/
theorem Trail.writes {reuse : ℕ → Bool} {calls : List LaneCall}
    (h : L.Trail offsets reuse g lane r calls) :
    WritesFrom L offsets g lane r
      ((calls.flatMap (LaneCall.items L.tiling offsets)).flatMap (LaneItem.records L.tiling)) := by
  have hw : ∀ c < L.chunks, ¬ offsets.Wraps c := fun c hc => hmono.not_wraps hc
  induction h with
  | done =>
      refine ⟨by simp, ?_, List.nodup_nil⟩
      intro r' hle hlt
      omega
  | test h0 hc rest ih => simpa [LaneCall.items] using ih
  | @single r calls hr rest ih =>
      exact ih.append hrep hmono hg hlane hr Nat.zero_lt_one place_one
        (single_share hrep hg hlane hr hw _ _)
  | @pair r calls hr hthree hplace hfuse rest ih =>
      exact ih.append hrep hmono hg hlane hr Nat.zero_lt_two (place_two hplace)
        (pair_share hg hlane hr hw hthree hplace hfuse _ _)

end Lane

/-! ## The launch -/

/-- What all lanes of all groups have written. -/
def writes (L : Launch) (final : ℕ → ℕ → OutputStream) : List ℤ :=
  (List.range L.groups).flatMap fun g => (List.range 2).flatMap fun lane =>
    (final g lane).writes L.tiling.t

/-- The output that the lanes of a launch leave: each element of a valid chunk is written
once, by its owner, and nothing else is. -/
structure Covered (L : Launch) (offsets : ChunkOffsets) (final : ℕ → ℕ → OutputStream) :
    Prop where
  once : ∀ c < L.chunks, offsets.InRange L.tiling.t c → ∀ head token : ℤ, 0 ≤ head →
    head < L.tiling.hg * L.tiling.numRepeat → offsets.getValue c ≤ token →
    token < offsets.getValue (c + 1) → ∀ col < 64,
    (L.writes final).count (elementOffset L.tiling.t head token col) = 1
  only : ∀ a ∈ L.writes final, ∃ c < L.chunks, offsets.InRange L.tiling.t c ∧
    ∃ head token, 0 ≤ head ∧ head < L.tiling.hg * L.tiling.numRepeat ∧
      offsets.getValue c ≤ token ∧ token < offsets.getValue (c + 1) ∧
      ∃ col < 64, a = elementOffset L.tiling.t head token col
  inside : ∀ a ∈ L.writes final, 0 ≤ a ∧ a < L.tiling.hg * L.tiling.numRepeat * L.tiling.t * 64
  /-- Each copy of a lane is one of its batches. -/
  owner : ∀ g < L.groups, ∀ lane < 2, ∀ output ∈ (final g lane).launchedOutputs,
    ∃ c kv b n, c + n ≤ L.chunks ∧ kv < L.kvHeads ∧
      WritesBatch L.tiling offsets lane c kv b n output

/-- The heads of a KV head are heads of the tensor. -/
theorem head_lt {head : ℤ} {c kv b : ℕ} {token : ℤ} (hrep : 1 ≤ L.tiling.numRepeat)
    (hlane : lane < 2) (hkv : kv < L.kvHeads)
    (h : Owns L.tiling offsets lane c kv b head token) :
    0 ≤ head ∧ head < L.tiling.hg * L.tiling.numRepeat := by
  have hdiv := h.head_div hrep hlane
  have hpos : 0 < L.tiling.numRepeat := by omega
  constructor
  · have : (0 : ℤ) ≤ head / L.tiling.numRepeat := by omega
    exact (Int.ediv_nonneg_iff_of_pos hpos).mp this
  · rw [L.hg_eq]
    refine (Int.ediv_lt_iff_lt_mul hpos).mp ?_
    rw [hdiv]
    exact_mod_cast hkv

/-- An element of the tensor lies inside its buffer. -/
theorem elementOffset_lt {t heads head token : ℤ} {col : ℕ} (hhead : 0 ≤ head ∧ head < heads)
    (htoken : 0 ≤ token ∧ token < t) (hcol : col < 64) :
    0 ≤ elementOffset t head token col ∧ elementOffset t head token col < heads * t * 64 := by
  have h0 : 0 ≤ head * t := mul_nonneg hhead.1 (by omega)
  have hle : (head + 1) * t ≤ heads * t := mul_le_mul_of_nonneg_right (by omega) (by omega)
  rw [Int.add_mul, Int.one_mul] at hle
  rw [elementOffset, ROW_ELEMS]
  omega

/-- **Every token and head has an owner.** -/
theorem exists_owner {c : ℕ} {head token : ℤ} (hrep : 1 ≤ L.tiling.numRepeat) (hc : c < L.chunks)
    (hin : offsets.InRange L.tiling.t c) (h0 : 0 ≤ head)
    (hlt : head < L.tiling.hg * L.tiling.numRepeat) (hstart : offsets.getValue c ≤ token)
    (hend : token < offsets.getValue (c + 1)) :
    ∃ g < L.groups, ∃ r < L.count g, ∃ lane < 2, ∃ b,
      Owns L.tiling offsets lane (L.place g r).1 (L.place g r).2 b head token := by
  have hpos : 0 < L.tiling.numRepeat := by omega
  -- the KV head of the head
  obtain ⟨kv, hkv⟩ := Int.eq_ofNat_of_zero_le (Int.ediv_nonneg h0 hpos.le)
  have hdiv := Int.mul_ediv_add_emod head L.tiling.numRepeat
  have hmod := Int.emod_nonneg head hpos.ne'
  have hmodlt := Int.emod_lt_of_pos head hpos
  rw [hkv, Int.mul_comm] at hdiv
  have hkvlt : kv < L.kvHeads := by
    have : head / L.tiling.numRepeat < L.kvHeads := by
      rw [Int.ediv_lt_iff_lt_mul hpos, ← L.hg_eq]
      exact hlt
    rw [hkv] at this
    exact_mod_cast this
  obtain ⟨g, r, hg, hr, hplace⟩ := exists_place hc hkvlt
  obtain ⟨lane, hlane, b, howns⟩ := exists_owns hin hstart hend hrep
    (by omega : kv * L.tiling.numRepeat ≤ head) (by omega)
  refine ⟨g, hg, r, hr, lane, hlane, b, ?_⟩
  rw [hplace]
  exact howns

/-- **The lanes' shares make up the output.** -/
theorem covered_of_writes (hrep : 1 ≤ L.tiling.numRepeat)
    (hmono : offsets.Nondecreasing L.chunks) {final : ℕ → ℕ → OutputStream}
    (h : ∀ g < L.groups, ∀ lane < 2, WritesFrom L offsets g lane 0 (final g lane).launchedOutputs) :
    L.Covered offsets final := by
  have howner : ∀ g < L.groups, ∀ lane < 2, ∀ a ∈ (final g lane).writes L.tiling.t,
      ∃ r < L.count g, ∃ b head token, ∃ col < 64,
        Owns L.tiling offsets lane (L.place g r).1 (L.place g r).2 b head token ∧
          a = elementOffset L.tiling.t head token col := by
    intro g hg lane hlane a ha
    obtain ⟨output, hout, ha⟩ := List.mem_flatMap.mp ha
    obtain ⟨r, -, hr, hown⟩ := (h g hg lane hlane).owner hout ha
    exact ⟨r, hr, hown⟩
  have hall : ∀ a ∈ L.writes final, ∃ g < L.groups, ∃ lane < 2, ∃ r < L.count g,
      ∃ b head token, ∃ col < 64,
        Owns L.tiling offsets lane (L.place g r).1 (L.place g r).2 b head token ∧
          a = elementOffset L.tiling.t head token col := by
    intro a ha
    obtain ⟨g, hg, ha⟩ := List.mem_flatMap.mp ha
    obtain ⟨lane, hlane, ha⟩ := List.mem_flatMap.mp ha
    rw [List.mem_range] at hg hlane
    exact ⟨g, hg, lane, hlane, howner g hg lane hlane a ha⟩
  have hnodup : (L.writes final).Nodup := by
    rw [writes, List.nodup_flatMap]
    constructor
    · intro g hg
      rw [List.mem_range] at hg
      rw [List.nodup_flatMap]
      constructor
      · intro lane hlane
        exact (h g hg lane (List.mem_range.mp hlane)).once
      · refine List.nodup_range.pairwise_of_forall_ne ?_
        intro lane hlane lane' hlane' hne a ha ha'
        rw [List.mem_range] at hlane hlane'
        obtain ⟨r, hr, b, head, token, col, hcol, howns, rfl⟩ := howner g hg lane hlane a ha
        obtain ⟨r', hr', b', head', token', col', hcol', howns', heq⟩ :=
          howner g hg lane' hlane' _ ha'
        exact hne (same_round hrep hmono hg hr hlane hg hr' hlane' howns howns' hcol hcol' heq).2.2
    · refine List.nodup_range.pairwise_of_forall_ne ?_
      intro g hg g' hg' hne a ha ha'
      rw [List.mem_range] at hg hg'
      obtain ⟨lane, hlane, ha⟩ := List.mem_flatMap.mp ha
      obtain ⟨lane', hlane', ha'⟩ := List.mem_flatMap.mp ha'
      rw [List.mem_range] at hlane hlane'
      obtain ⟨r, hr, b, head, token, col, hcol, howns, rfl⟩ := howner g hg lane hlane a ha
      obtain ⟨r', hr', b', head', token', col', hcol', howns', heq⟩ :=
        howner g' hg' lane' hlane' _ ha'
      exact hne (same_round hrep hmono hg hr hlane hg' hr' hlane' howns howns' hcol hcol' heq).1
  constructor
  · intro c hc hin head token h0 hlt hstart hend col hcol
    refine List.count_eq_one_of_mem hnodup ?_
    obtain ⟨g, hg, r, hr, lane, hlane, b, hround⟩ := exists_owner hrep hc hin h0 hlt hstart hend
    obtain ⟨output, hout, ha⟩ :=
      (h g hg lane hlane).owned r (Nat.zero_le r) hr b head token hround col hcol
    refine List.mem_flatMap.mpr ⟨g, List.mem_range.mpr hg, List.mem_flatMap.mpr ⟨lane,
      List.mem_range.mpr hlane, List.mem_flatMap.mpr ⟨output, hout, ha⟩⟩⟩
  · intro a ha
    obtain ⟨g, hg, lane, hlane, r, hr, b, head, token, col, hcol, howns, ha⟩ := hall a ha
    obtain ⟨hhead0, hhead⟩ := head_lt hrep hlane (L.place_lt hg hr).2 howns
    exact ⟨_, (L.place_lt hg hr).1, howns.inRange, head, token, hhead0, hhead, howns.start_le,
      howns.lt_end, col, hcol, ha⟩
  · intro a ha
    obtain ⟨g, hg, lane, hlane, r, hr, b, head, token, col, hcol, howns, rfl⟩ := hall a ha
    exact elementOffset_lt (head_lt hrep hlane (L.place_lt hg hr).2 howns)
      ⟨howns.token_nonneg, howns.token_lt⟩ hcol
  · intro g hg lane hlane output hout
    obtain ⟨r, b, n, -, hn, hr, hplace, hwrites⟩ := (h g hg lane hlane).batch output hout
    have hfirst := L.place_lt hg (by omega : r < L.count g)
    have hlast := (L.place_lt hg (by omega : r + (n - 1) < L.count g)).1
    rw [hplace (n - 1) (by omega)] at hlast
    exact ⟨_, _, b, n, by omega, hfirst.2, hwrites⟩

/-- A lane of a launch has run to its end, with what its output stream is then. -/
def LaneEnds (L : Launch) (offsets : ChunkOffsets) (env : OutputEnv) (g lane : ℕ)
    (final : OutputStream) : Prop :=
  ∃ calls, (∀ fuel : ℕ, L.tiling.taskCount g < fuel →
      process L.tiling offsets (2 * g + lane : ℕ) fuel = some calls) ∧
    runStream env (laneOps L.tiling g (calls.flatMap (LaneCall.items L.tiling offsets))) .init =
      .ok final

/-- Every lane ends, and has then written what it owns. -/
theorem exists_laneEnds (env : OutputEnv) (hrep : 1 ≤ L.tiling.numRepeat)
    (hmono : offsets.Nondecreasing L.chunks) (hg : g < L.groups) (hlane : lane < 2) :
    ∃ final, L.LaneEnds offsets env g lane final ∧
      WritesFrom L offsets g lane 0 final.launchedOutputs := by
  obtain ⟨calls, hrun, htrail⟩ := L.process_trail offsets hg hlane
  obtain ⟨-, -, -, -, final, -, -, hfinal, htracks⟩ :=
    laneOps_tracks env L.tiling g (calls.flatMap (LaneCall.items L.tiling offsets))
  refine ⟨final, ⟨calls, ?_, hfinal⟩, ?_⟩
  · intro fuel hfuel
    rw [L.taskCount_eq] at hfuel
    exact hrun fuel (by exact_mod_cast hfuel)
  · rw [htracks.settled.launchedOutputs_eq]
    exact htrail.writes hrep hmono hg hlane

end Launch

/-- **Coverage of the output.**  For every launch, every choice of the stream's events and
buffers and every array of nondecreasing offsets, all lanes end, and what they have then
written is each element of each valid chunk, once, by the lane and the batch that own it,
and nothing else. -/
theorem output_coverage (L : Launch) (offsets : ChunkOffsets) (env : OutputEnv)
    (hrep : 1 ≤ L.tiling.numRepeat) (hmono : offsets.Nondecreasing L.chunks) :
    ∃ final : ℕ → ℕ → OutputStream,
      (∀ g < L.groups, ∀ lane < 2, L.LaneEnds offsets env g lane (final g lane)) ∧
      L.Covered offsets final := by
  have hends : ∀ g lane, ∃ final, g < L.groups → lane < 2 →
      L.LaneEnds offsets env g lane final ∧
        Launch.WritesFrom L offsets g lane 0 final.launchedOutputs := by
    intro g lane
    by_cases h : g < L.groups ∧ lane < 2
    · obtain ⟨final, hfinal⟩ := Launch.exists_laneEnds env hrep hmono h.1 h.2
      exact ⟨final, fun _ _ => hfinal⟩
    · exact ⟨.init, fun hg hlane => absurd ⟨hg, hlane⟩ h⟩
  choose final hfinal using hends
  exact ⟨final, fun g hg lane hlane => (hfinal g lane hg hlane).1,
    Launch.covered_of_writes hrep hmono fun g hg lane hlane => (hfinal g lane hg hlane).2⟩

/-- Two events, and the first buffer while it is free. -/
def VectorStage.OutputEnv.first : OutputEnv where
  outputSlotEvent0 := 0
  outputSlotEvent1 := 1
  pick inUse := inUse false
  pick_free inUse b hb := by
    cases hfree : inUse false with
    | false => exact hfree
    | true =>
        cases b with
        | false => exact absurd hb (by simp [hfree])
        | true => exact hb

/-- 40 full chunks of three heads on 20 groups. -/
theorem output_coverage_sample :
    ∃ final : ℕ → ℕ → OutputStream,
      (∀ g < sampleLaunch.groups, ∀ lane < 2,
        sampleLaunch.LaneEnds ChunkOffsets.full OutputEnv.first g lane (final g lane)) ∧
      sampleLaunch.Covered ChunkOffsets.full final :=
  output_coverage sampleLaunch ChunkOffsets.full OutputEnv.first (by decide)
    (ChunkOffsets.full_nondecreasing (by decide))

end ChunkScaledDotKkt
