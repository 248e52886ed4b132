import CoreFlow.Allocator.RangeRuns
import CoreFlow.Allocator.Throughput

/-!
# What the latency predictor is asked

The predictor is a regression over profiled inputs and answers outside of them without complaint. The
search leaves the domain in three ways: the average length of a request can be zero, so that the capacity
is divided by zero; a decode batch larger than the chunk leaves a negative number of prefill tokens; and
the longest sequence can be longer than the whole batch is expected to be, so that the others have a
negative average. Whatever the predictor answers, a search stays in the domain exactly when none of these
happens at a midpoint it tries.
-/

namespace CoreFlow

/-! ## Numbers -/

theorem tiny_pos : 0 < tiny := by
  unfold tiny
  norm_num

theorem pyDiv_of_pos {b : ℚ} (a : ℚ) (h : 0 < b) : pyDiv a b = some (a / b) := if_neg (ne_of_gt h)

theorem pyFloorDiv_of_pos {b : ℚ} (a : ℚ) (h : 0 < b) : pyFloorDiv a b = some ⌊a / b⌋ := by
  rw [pyFloorDiv, pyDiv_of_pos a h, Option.map_some]

theorem truncInt_nonneg (q : ℚ) : 0 ≤ truncInt q ↔ -1 < q := by
  unfold truncInt
  split
  · next h =>
    have hfloor : 0 ≤ ⌊q⌋ := Int.floor_nonneg.mpr h
    exact ⟨fun _ => by linarith, fun _ => hfloor⟩
  · have hceil : 0 ≤ ⌈q⌉ ↔ -1 < ⌈q⌉ := by omega
    rw [hceil, Int.lt_ceil]
    norm_num

namespace PredictCall
variable {call : PredictCall}

/-- The remaining sequences have no negative average when the longest one takes less than the batch has. -/
theorem smallSeqLen_nonneg (h : 1 < call.decodeBatchSize) : (∃ n ∈ call.smallSeqLen, 0 ≤ n) ↔
    call.longestDecodeLength < call.avgDecodeLength * call.decodeBatchSize + (call.decodeBatchSize - 1) := by
  have hpos : (0 : ℚ) < (call.decodeBatchSize - 1 : Int) := by
    exact_mod_cast sub_pos.mpr h
  rw [smallSeqLen, pyDiv_of_pos _ hpos, Option.map_some]
  simp only [Option.mem_some_iff, exists_eq_left', truncInt_nonneg]
  rw [lt_div_iff₀ hpos]
  norm_cast
  omega

/-- The quotient in `predict_latency` is guarded. -/
theorem predictLatency_returns (models : LatencyModels) (call : PredictCall) :
    ∃ latency, call.predictLatency models = some latency := by
  unfold predictLatency
  by_cases h : call.AsksInterference
  · have hne : ((call.decodeBatchSize - 1 : Int) : ℚ) ≠ 0 := by
      exact_mod_cast sub_ne_zero.mpr h.1
    rw [if_pos h, smallSeqLen, pyDiv, if_neg hne]
    exact ⟨_, rfl⟩
  · rw [if_neg h]
    exact ⟨_, rfl⟩

end PredictCall

/-! ## One pass -/

/-- The interval of a search is not empty. -/
def SearchState.Proper (s : SearchState) : Prop := 0 ≤ s.left ∧ s.left < s.right

theorem SearchState.Proper.mid_pos {s : SearchState} (h : s.Proper) : 0 < s.mid := by
  obtain ⟨hleft, hlt⟩ := h
  unfold SearchState.mid
  linarith

/-- Either half of an interval is half as wide. -/
theorem SearchState.Proper.half {s s' : SearchState} (h : s.Proper)
    (hs : s' = { s with right := s.mid } ∨ s' = { s with left := s.mid }) :
    s'.Proper ∧ s'.right - s'.left = (s.right - s.left) / 2 := by
  obtain ⟨hleft, hlt⟩ := h
  have hmid : s.mid = (s.right + s.left) / 2 := rfl
  rcases hs with rfl | rfl
  · refine ⟨⟨hleft, ?_⟩, ?_⟩
    · change s.left < s.mid
      linarith
    · change s.mid - s.left = _
      linarith
  · refine ⟨⟨?_, ?_⟩, ?_⟩
    · change 0 ≤ s.mid
      linarith
    · change s.mid < s.right
      linarith
    · change s.right - s.mid = _
      linarith

namespace Analysis
variable {a : Analysis} {maxBatch batch : Int} {s s' : SearchState} {calls : List PredictCall}

/-- The statistics are not negative, a request decodes something, and a chunk holds a token. -/
structure WellFormed (a : Analysis) : Prop where
  max : 0 ≤ a.stats.max
  prompt : 0 ≤ a.stats.prompt
  decode : 0 < a.stats.decode
  cached : 0 ≤ a.stats.cached
  chunk : 1 ≤ a.estimator.chunkSize

/-- The chunk has room for a decode batch, and the batch as a whole is longer than its longest sequence. -/
def Fits (a : Analysis) (batch : Int) : Prop :=
  batch ≤ a.estimator.chunkSize ∧
    (a.interference = false ∨ batch = 1 ∨ a.stats.max < a.stats.avgLength * batch + (batch - 1))

instance (a : Analysis) (batch : Int) : Decidable (a.Fits batch) := inferInstanceAs (Decidable (_ ∧ _))

/-- The batch size at a midpoint. -/
def batchAt (a : Analysis) (maxBatch : Int) (mid : ℚ) : Int :=
  min maxBatch ⌈a.stats.decode * mid / max (a.stats.prompt * mid / a.estimator.chunkSize) tiny⌉

theorem WellFormed.chunk_pos (h : a.WellFormed) : (0 : ℚ) < a.estimator.chunkSize := by
  exact_mod_cast h.chunk

theorem WellFormed.avgLength_nonneg (h : a.WellFormed) : 0 ≤ a.stats.avgLength := by
  have := h.prompt
  have := h.decode
  have := h.cached
  unfold RequestStats.avgLength
  omega

theorem batchSize_eq (h : a.WellFormed) (maxBatch : Int) (mid : ℚ) :
    a.batchSize maxBatch mid = some (a.batchAt maxBatch mid, a.stats.prompt * mid / a.estimator.chunkSize) := by
  unfold batchSize
  rw [pyDiv_of_pos _ h.chunk_pos]
  dsimp only [Option.bind_eq_bind, Option.bind_some]
  rw [pyDiv_of_pos _ (lt_max_of_lt_right tiny_pos)]
  rfl

theorem one_le_batchAt (h : a.WellFormed) (hmax : 1 ≤ maxBatch) {mid : ℚ} (hmid : 0 < mid) :
    1 ≤ a.batchAt maxBatch mid := by
  have hdecode : (0 : ℚ) < a.stats.decode := by
    exact_mod_cast h.decode
  apply le_min hmax
  apply Int.one_le_ceil_iff.mpr
  apply div_pos (mul_pos hdecode hmid)
  exact lt_max_of_lt_right tiny_pos

/-- A call with a prefill chunk is in the domain exactly when its batch fits. -/
theorem prefillCall_inDomain (h : a.WellFormed) (hbatch : 1 ≤ batch) :
    (a.prefillCall batch).InDomain a.estimator.chunkSize ↔ a.Fits batch := by
  have hmax := h.max
  have hprompt := h.prompt
  have hcached := h.cached
  have havg := h.avgLength_nonneg
  have hasks : (a.prefillCall batch).AsksInterference ↔ batch ≠ 1 ∧ a.interference = true := Iff.rfl
  constructor
  · intro hcall
    refine ⟨?_, ?_⟩
    · have hquery : 0 ≤ min a.stats.prompt (a.estimator.chunkSize - batch) := hcall.query.1
      omega
    · by_cases hone : batch = 1
      · exact Or.inr (Or.inl hone)
      · cases hint : a.interference with
        | false => exact Or.inl rfl
        | true =>
          have hsmall := hcall.remaining (hasks.mpr ⟨hone, hint⟩)
          rw [PredictCall.smallSeqLen_nonneg (by change 1 < batch; omega)] at hsmall
          exact Or.inr (Or.inr hsmall)
  · rintro ⟨hle, hrest⟩
    have hquery : 0 ≤ min a.stats.prompt (a.estimator.chunkSize - batch) ∧
        min a.stats.prompt (a.estimator.chunkSize - batch) ≤ a.estimator.chunkSize := by
      omega
    have hprefill : 0 ≤ a.stats.cached + a.stats.prompt / 2 := by omega
    refine ⟨hbatch, hquery, ⟨havg, hmax, hprefill⟩, ?_⟩
    intro hask
    obtain ⟨hone, hint⟩ := hasks.mp hask
    rw [PredictCall.smallSeqLen_nonneg (by change 1 < batch; omega)]
    rcases hrest with hoff | hrest | hrest
    · rw [hint] at hoff
      cases hoff
    · exact absurd hrest hone
    · exact hrest

/-- The call of a decode iteration asks for less. -/
theorem decodeCall_inDomain (h : a.WellFormed) (hcall : (a.prefillCall batch).InDomain a.estimator.chunkSize) :
    (a.decodeCall batch).InDomain a.estimator.chunkSize where
  batch := hcall.batch
  query := ⟨le_refl 0, by change 0 ≤ a.estimator.chunkSize; have := h.chunk; omega⟩
  lengths := ⟨hcall.lengths.1, hcall.lengths.2.1, le_refl 0⟩
  remaining := hcall.remaining

/-- What a pass of the search does: it halves the interval, and asks the predictor unless the swaps alone
fill the second. -/
theorem searchStep_cases (h : a.WellFormed) (hmax : 1 ≤ maxBatch) (hmid : 0 < s.mid) :
    ∃ s' calls, a.searchStep maxBatch s = some (s', calls) ∧
      (s' = { s with right := s.mid } ∨ s' = { s with left := s.mid }) ∧
      (1 ≤ s.mid * a.estimator.swapLatency ∧ s' = { s with right := s.mid } ∧ calls = [] ∨
        s.mid * a.estimator.swapLatency < 1 ∧ a.prefillCall (a.batchAt maxBatch s.mid) ∈ calls ∧
          ∀ c ∈ calls, c = a.prefillCall (a.batchAt maxBatch s.mid) ∨ c = a.decodeCall (a.batchAt maxBatch s.mid)) := by
  have hbatch : ¬ a.batchAt maxBatch s.mid < 1 := not_lt.mpr (one_le_batchAt h hmax hmid)
  obtain ⟨latencyPrefill, hprefill⟩ :=
    PredictCall.predictLatency_returns a.models (a.prefillCall (a.batchAt maxBatch s.mid))
  obtain ⟨latencyDecode, hdecode⟩ :=
    PredictCall.predictLatency_returns a.models (a.decodeCall (a.batchAt maxBatch s.mid))
  unfold searchStep
  dsimp only
  by_cases hswap : 1 ≤ s.mid * a.estimator.swapLatency
  · rw [if_pos (le_min hswap (le_refl 1))]
    exact ⟨_, _, rfl, Or.inl rfl, Or.inl ⟨hswap, rfl, rfl⟩⟩
  · rw [if_neg fun hle => hswap (le_min_iff.mp hle).1, batchSize_eq h]
    dsimp only [Option.bind_eq_bind, Option.bind_some]
    rw [if_neg hbatch, hprefill]
    dsimp only [Option.bind_some]
    split
    · exact ⟨_, _, rfl, Or.inl rfl, Or.inr ⟨not_le.mp hswap, List.mem_singleton_self _, by simp⟩⟩
    · rw [hdecode]
      dsimp only [Option.bind_some]
      rw [pyFloorDiv_of_pos _ (lt_max_of_lt_right tiny_pos), pyFloorDiv_of_pos _ (lt_max_of_lt_right tiny_pos),
        pyFloorDiv_of_pos _ (lt_max_of_lt_right tiny_pos)]
      dsimp only [Option.bind_some]
      split
      · exact ⟨_, _, rfl, Or.inr rfl, Or.inr ⟨not_le.mp hswap, List.mem_cons_self, by simp⟩⟩
      · exact ⟨_, _, rfl, Or.inl rfl, Or.inr ⟨not_le.mp hswap, List.mem_cons_self, by simp⟩⟩

/-! ## The search -/

/-- The states before the passes of a search. -/
def visited (a : Analysis) (maxBatch : Int) : Nat → SearchState → List SearchState
  | 0, _ => []
  | n + 1, s => s :: ((a.searchStep maxBatch s).map fun r => a.visited maxBatch n r.1).getD []

/-- The midpoints at which the predictor is asked, those whose swaps leave some of the second. -/
def midpoints (a : Analysis) (maxBatch : Int) : List ℚ :=
  ((a.visited maxBatch 20 ⟨0, 20⟩).map SearchState.mid).filter fun mid => mid * a.estimator.swapLatency < 1

/-- A pass asks within the domain exactly when the batch of its midpoint fits, if it asks at all. -/
theorem searchStep_inDomain (h : a.WellFormed) (hmax : 1 ≤ maxBatch) (hmid : 0 < s.mid)
    (hstep : a.searchStep maxBatch s = some (s', calls)) : (∀ c ∈ calls, c.InDomain a.estimator.chunkSize) ↔
      (s.mid * a.estimator.swapLatency < 1 → a.Fits (a.batchAt maxBatch s.mid)) := by
  obtain ⟨s₁, calls₁, hstep₁, -, hcalls⟩ := searchStep_cases h hmax hmid
  cases hstep₁.symm.trans hstep
  have hiff := prefillCall_inDomain h (one_le_batchAt h hmax hmid)
  rcases hcalls with ⟨hfull, -, rfl⟩ | ⟨hasks, hmem, hall⟩
  · exact ⟨fun _ hlt => absurd hlt (not_lt.mpr hfull), fun _ c hc => absurd hc List.not_mem_nil⟩
  · constructor
    · intro hdomain _
      exact hiff.mp (hdomain _ hmem)
    · intro hfits c hc
      have hprefill := hiff.mpr (hfits hasks)
      rcases hall c hc with rfl | rfl
      · exact hprefill
      · exact decodeCall_inDomain h hprefill

/-- A search asks within the domain exactly when every pass does. -/
theorem search_inDomain (h : a.WellFormed) (hmax : 1 ≤ maxBatch) (n : Nat) (hs : s.Proper) :
    ∃ last calls, a.search maxBatch n s = some (last, calls) ∧
      ((∀ c ∈ calls, c.InDomain a.estimator.chunkSize) ↔ ∀ v ∈ a.visited maxBatch n s,
        v.mid * a.estimator.swapLatency < 1 → a.Fits (a.batchAt maxBatch v.mid)) := by
  induction n generalizing s with
  | zero => exact ⟨s, [], rfl, by simp [visited]⟩
  | succ n ih =>
    obtain ⟨s', calls, hstep, hhalf, -⟩ := searchStep_cases (a := a) h hmax hs.mid_pos
    obtain ⟨last, others, hrest, hiff⟩ := ih (hs.half hhalf).1
    refine ⟨last, calls ++ others, ?_, ?_⟩
    · rw [search, hstep]
      dsimp only [Option.bind_eq_bind, Option.bind_some]
      rw [hrest]
      rfl
    · rw [List.forall_mem_append, hiff, searchStep_inDomain h hmax hs.mid_pos hstep, visited, hstep, Option.map_some,
        Option.getD_some, List.forall_mem_cons]

/-- The analysis divides by no zero, and asks the predictor within its domain. -/
def InDomain (a : Analysis) (instanceMemTokens : Int) : Prop :=
  ∃ left calls, a.analyzeThroughput instanceMemTokens = some (left, calls) ∧
    ∀ c ∈ calls, c.InDomain a.estimator.chunkSize

/-- The slots of an instance, at least one. -/
def slots (a : Analysis) (instanceMemTokens : Int) : Int := max 1 ⌊(instanceMemTokens / a.stats.avgLength : ℚ)⌋

theorem one_le_slots (a : Analysis) (instanceMemTokens : Int) : 1 ≤ a.slots instanceMemTokens := le_max_left _ _

theorem proper_start : SearchState.Proper ⟨0, 20⟩ := by
  unfold SearchState.Proper
  norm_num

/-- An analysis stays in the domain exactly when requests have a length and the batches fit. -/
theorem inDomain_iff (h : a.WellFormed) (instanceMemTokens : Int) : a.InDomain instanceMemTokens ↔
    a.stats.avgLength ≠ 0 ∧
      ∀ mid ∈ a.midpoints (a.slots instanceMemTokens), a.Fits (a.batchAt (a.slots instanceMemTokens) mid) := by
  unfold InDomain analyzeThroughput maxBatch
  by_cases hzero : a.stats.avgLength = 0
  · rw [hzero, Int.cast_zero, pyFloorDiv, pyDiv, if_pos rfl]
    constructor
    · rintro ⟨_, _, hnone, -⟩
      cases hnone
    · rintro ⟨hne, -⟩
      exact absurd rfl hne
  · have havg : (0 : ℚ) < a.stats.avgLength := by
      exact_mod_cast lt_of_le_of_ne h.avgLength_nonneg (Ne.symm hzero)
    obtain ⟨last, calls, hsearch, hiff⟩ := search_inDomain h (one_le_slots a instanceMemTokens) 20 proper_start
    rw [pyFloorDiv_of_pos _ havg]
    dsimp only [Option.bind_eq_bind, Option.bind_some]
    rw [show max 1 ⌊(instanceMemTokens / a.stats.avgLength : ℚ)⌋ = a.slots instanceMemTokens from rfl, hsearch]
    simp only [Option.bind_some, Option.some_inj, Prod.mk.injEq]
    have hmids : (∀ mid ∈ a.midpoints (a.slots instanceMemTokens), a.Fits (a.batchAt (a.slots instanceMemTokens) mid)) ↔
        ∀ v ∈ a.visited (a.slots instanceMemTokens) 20 ⟨0, 20⟩,
          v.mid * a.estimator.swapLatency < 1 → a.Fits (a.batchAt (a.slots instanceMemTokens) v.mid) := by
      simp only [midpoints, List.mem_filter, List.mem_map, decide_eq_true_eq, and_imp, forall_exists_index,
        forall_apply_eq_imp_iff₂]
    rw [hmids, ← hiff]
    constructor
    · rintro ⟨_, _, ⟨-, rfl⟩, hcalls⟩
      exact ⟨hzero, hcalls⟩
    · rintro ⟨-, hcalls⟩
      exact ⟨_, _, ⟨rfl, rfl⟩, hcalls⟩

/-! ## The batch of every midpoint -/

/-- No midpoint is below the last width of the interval. -/
theorem le_mid_of_visited (h : a.WellFormed) (hmax : 1 ≤ maxBatch) (n : Nat) (hs : s.Proper) {v : SearchState}
    (hv : v ∈ a.visited maxBatch n s) : (s.right - s.left) / 2 ^ n ≤ v.mid := by
  induction n generalizing s with
  | zero => exact absurd hv List.not_mem_nil
  | succ n ih =>
    obtain ⟨s', calls, hstep, hhalf, -⟩ := searchStep_cases (a := a) h hmax hs.mid_pos
    obtain ⟨hproper, hwidth⟩ := hs.half hhalf
    rw [visited, hstep, Option.map_some, Option.getD_some] at hv
    have hpow : (s.right - s.left) / 2 ^ (n + 1) = (s'.right - s'.left) / 2 ^ n := by
      rw [hwidth, pow_succ']
      field_simp
    rw [hpow]
    rcases List.mem_cons.mp hv with rfl | hv
    · obtain ⟨hleft, hlt⟩ := hs
      have hpos : 0 ≤ s'.right - s'.left := sub_nonneg.mpr (le_of_lt hproper.2)
      calc (s'.right - s'.left) / 2 ^ n ≤ s'.right - s'.left := div_le_self hpos (one_le_pow₀ (by norm_num))
        _ = (v.right - v.left) / 2 := hwidth
        _ ≤ v.mid := by
          unfold SearchState.mid
          linarith
    · exact ih hproper hv

/-- A search that never asks goes down to the last midpoint above zero. -/
theorem swap_of_visited (h : a.WellFormed) (hmax : 1 ≤ maxBatch) (n : Nat) (hs : s.Proper) (hleft : s.left = 0)
    (hnever : ∀ v ∈ a.visited maxBatch (n + 1) s, 1 ≤ v.mid * a.estimator.swapLatency) :
    1 ≤ s.right / 2 ^ (n + 1) * a.estimator.swapLatency := by
  induction n generalizing s with
  | zero =>
    have hfirst := hnever s List.mem_cons_self
    rw [SearchState.mid, hleft, add_zero] at hfirst
    rwa [zero_add, pow_one]
  | succ n ih =>
    obtain ⟨s', calls, hstep, hhalf, hcalls⟩ := searchStep_cases (a := a) h hmax hs.mid_pos
    rw [visited, hstep, Option.map_some, Option.getD_some, List.forall_mem_cons] at hnever
    obtain ⟨hfull, hlater⟩ := hnever
    rcases hcalls with ⟨-, rfl, -⟩ | ⟨hasks, -, -⟩
    · have hright : s.mid / 2 ^ (n + 1) = s.right / 2 ^ (n + 1 + 1) := by
        rw [SearchState.mid, hleft, add_zero, pow_succ' 2 (n + 1)]
        field_simp
      rw [← hright]
      exact ih (hs.half hhalf).1 hleft hlater
    · exact absurd hfull (not_le.mpr hasks)

theorem le_of_mem_midpoints (h : a.WellFormed) (hmax : 1 ≤ maxBatch) {mid : ℚ} (hmid : mid ∈ a.midpoints maxBatch) :
    20 / 2 ^ 20 ≤ mid := by
  obtain ⟨hmem, -⟩ := List.mem_filter.mp hmid
  obtain ⟨v, hv, rfl⟩ := List.mem_map.mp hmem
  have := le_mid_of_visited h hmax 20 proper_start hv
  rwa [sub_zero] at this

/-- The predictor is asked when the swaps of the last midpoint above zero take less than a second. -/
theorem exists_mem_midpoints (h : a.WellFormed) (hmax : 1 ≤ maxBatch) :
    (∃ mid, mid ∈ a.midpoints maxBatch) ↔ 20 / 2 ^ 20 * a.estimator.swapLatency < 1 := by
  constructor
  · rintro ⟨mid, hmid⟩
    have hle := le_of_mem_midpoints h hmax hmid
    obtain ⟨-, hlt⟩ := List.mem_filter.mp hmid
    rw [decide_eq_true_eq] at hlt
    by_cases hneg : a.estimator.swapLatency ≤ 0
    · have : 20 / 2 ^ 20 * a.estimator.swapLatency ≤ 0 := mul_nonpos_of_nonneg_of_nonpos (by norm_num) hneg
      linarith
    · exact lt_of_le_of_lt (mul_le_mul_of_nonneg_right hle (le_of_lt (not_le.mp hneg))) hlt
  · intro hlt
    by_contra hnone
    apply not_le.mpr hlt
    apply swap_of_visited h hmax 19 proper_start rfl
    intro v hv
    by_contra hasks
    apply hnone
    exact ⟨v.mid, List.mem_filter.mpr ⟨List.mem_map_of_mem hv, decide_eq_true (not_le.mp hasks)⟩⟩

/-- The chunk is not that large that the expected number of prefill chunks counts as none. -/
def Ordinary (a : Analysis) : Prop := a.estimator.chunkSize * 2 ^ 20 ≤ 20 * 10 ^ 9 * max a.stats.prompt 1

instance (a : Analysis) : Decidable a.Ordinary := inferInstanceAs (Decidable (_ ≤ _))

/-- The batch size of a chunk: the slots of the instance, or the sequences that decode while a prompt is
prefilled. -/
def commonBatch (a : Analysis) (maxBatch : Int) : Int :=
  if a.stats.prompt = 0 then maxBatch
  else min maxBatch ⌈(a.stats.decode * a.estimator.chunkSize / a.stats.prompt : ℚ)⌉

/-- In an ordinary analysis the batches of all midpoints fit or none does. -/
theorem fits_batchAt (h : a.WellFormed) (hord : a.Ordinary) {mid : ℚ} (hmid : 20 / 2 ^ 20 ≤ mid) :
    a.Fits (a.batchAt maxBatch mid) ↔ a.Fits (a.commonBatch maxBatch) := by
  have hpos : 0 < mid := lt_of_lt_of_le (by norm_num) hmid
  have hchunk := h.chunk_pos
  unfold Ordinary at hord
  by_cases hprompt : a.stats.prompt = 0
  · -- the chunks are counted as `tiny`, and the batch is larger than the chunk unless the slots limit it
    have hdecode : (1 : ℚ) ≤ a.stats.decode := by
      exact_mod_cast h.decode
    have hlarge : a.estimator.chunkSize < ⌈(a.stats.decode * mid / tiny : ℚ)⌉ := by
      rw [hprompt] at hord
      have hint : a.estimator.chunkSize ≤ 19073 := by omega
      have hq : (a.estimator.chunkSize : ℚ) ≤ 19073 := by
        exact_mod_cast hint
      rw [Int.lt_ceil]
      unfold tiny
      have : mid ≤ a.stats.decode * mid := le_mul_of_one_le_left (le_of_lt hpos) hdecode
      rw [lt_div_iff₀ (by norm_num)]
      norm_num at hmid ⊢
      linarith
    have hat : a.batchAt maxBatch mid = min maxBatch ⌈(a.stats.decode * mid / tiny : ℚ)⌉ := by
      rw [batchAt, hprompt, Int.cast_zero, zero_mul, zero_div, max_eq_right (le_of_lt tiny_pos)]
    rw [hat, commonBatch, if_pos hprompt]
    by_cases hslots : maxBatch ≤ a.estimator.chunkSize
    · rw [min_eq_left (le_of_lt (lt_of_le_of_lt hslots hlarge))]
    · constructor
      · intro hfits
        exact absurd hfits.1 (not_le.mpr (lt_min (not_le.mp hslots) hlarge))
      · intro hfits
        exact absurd hfits.1 hslots
  · -- the midpoint cancels
    have hone : 1 ≤ a.stats.prompt := by
      have := h.prompt
      omega
    have hpromptQ : (0 : ℚ) < a.stats.prompt := by
      exact_mod_cast hone
    have htiny : tiny ≤ a.stats.prompt * mid / a.estimator.chunkSize := by
      rw [max_eq_left hone] at hord
      have hordQ : (a.estimator.chunkSize : ℚ) * 2 ^ 20 ≤ 20 * 10 ^ 9 * a.stats.prompt := by
        exact_mod_cast hord
      rw [le_div_iff₀ hchunk]
      have hprod : (a.stats.prompt : ℚ) * (20 / 2 ^ 20) ≤ a.stats.prompt * mid :=
        mul_le_mul_of_nonneg_left hmid (le_of_lt hpromptQ)
      unfold tiny
      norm_num at hprod hordQ ⊢
      linarith
    have hcancel : (a.stats.decode * mid / (a.stats.prompt * mid / a.estimator.chunkSize) : ℚ) =
        a.stats.decode * a.estimator.chunkSize / a.stats.prompt := by
      field_simp
    rw [batchAt, max_eq_left htiny, hcancel, commonBatch, if_neg hprompt]

/-- The condition on the batches: nothing is asked, or the common batch of an ordinary analysis fits. With a
chunk of another size the batch of every midpoint must. -/
def BatchesFit (a : Analysis) (maxBatch : Int) : Prop :=
  if a.Ordinary then 20 / 2 ^ 20 * a.estimator.swapLatency < 1 → a.Fits (a.commonBatch maxBatch)
  else ∀ mid ∈ a.midpoints maxBatch, a.Fits (a.batchAt maxBatch mid)

instance (a : Analysis) (maxBatch : Int) : Decidable (a.BatchesFit maxBatch) := by
  unfold BatchesFit
  infer_instance

theorem batchesFit_iff (h : a.WellFormed) (hmax : 1 ≤ maxBatch) : a.BatchesFit maxBatch ↔
    ∀ mid ∈ a.midpoints maxBatch, a.Fits (a.batchAt maxBatch mid) := by
  unfold BatchesFit
  split
  · next hord =>
    rw [← exists_mem_midpoints h hmax]
    constructor
    · intro hfits mid hmid
      exact (fits_batchAt h hord (le_of_mem_midpoints h hmax hmid)).mpr (hfits ⟨mid, hmid⟩)
    · rintro hfits ⟨mid, hmid⟩
      exact (fits_batchAt h hord (le_of_mem_midpoints h hmax hmid)).mp (hfits mid hmid)
  · exact Iff.rfl

end Analysis

/-! ## The statistics of counted calls -/

/-- No count of a record is negative. -/
def TraceNode.Counted (node : TraceNode) : Prop :=
  0 ≤ node.inputTokens.total ∧ 0 ≤ node.outputTokens.total ∧ 0 ≤ node.cachedTokens.total

instance (node : TraceNode) : Decidable node.Counted := inferInstanceAs (Decidable (_ ∧ _))

/-- Nothing in a tally is negative. -/
structure Tally.Counted (t : Tally) : Prop where
  decode : ∀ n ∈ t.decodeLengths, 0 ≤ n
  prefill : ∀ n ∈ t.prefillLengths, 0 ≤ n
  cached : ∀ n ∈ t.cachedList, 0 ≤ n
  max : 0 ≤ t.maxLength

theorem Tally.Counted.count {t : Tally} (h : t.Counted) (lower upper : Int) (uniqueNid : String) {node : TraceNode}
    (hnode : node.Counted) (next : Option TraceNode) : (t.count lower upper uniqueNid node next).Counted := by
  unfold Tally.count
  split
  · refine ⟨?_, ?_, ?_, ?_⟩
    · exact List.forall_mem_append.mpr ⟨h.decode, by simpa using hnode.2.1⟩
    · exact List.forall_mem_append.mpr ⟨h.prefill, by simpa using hnode.1⟩
    · exact List.forall_mem_append.mpr ⟨h.cached, by simpa using hnode.2.2⟩
    · exact le_max_of_le_left h.max
  · exact h

theorem Tally.Counted.countRepeats {t : Tally} (h : t.Counted) (lower upper : Int) (uniqueNid : String)
    {nodes : List TraceNode} (hnodes : ∀ node ∈ nodes, node.Counted) :
    (t.countRepeats lower upper uniqueNid nodes).Counted := by
  induction nodes generalizing t with
  | nil => exact h
  | cons node rest ih =>
    obtain ⟨hnode, hrest⟩ := List.forall_mem_cons.mp hnodes
    exact ih (h.count lower upper uniqueNid hnode rest.head?) hrest

theorem Tally.Counted.foldl {t : Tally} (h : t.Counted) (lower upper : Int) {invs : List (String × List TraceNode)}
    (hinvs : ∀ i ∈ invs, ∀ node ∈ i.2, node.Counted) : (invs.foldl (Tally.countInvocation lower upper) t).Counted := by
  induction invs generalizing t with
  | nil => exact h
  | cons i invs ih =>
    obtain ⟨hi, hrest⟩ := List.forall_mem_cons.mp hinvs
    apply ih _ hrest
    have hstart : Tally.Counted { t with nodeIdsAll := insert i.1 t.nodeIdsAll } :=
      ⟨h.decode, h.prefill, h.cached, h.max⟩
    exact hstart.countRepeats lower upper i.1 hi

/-- Grouping stores nothing but the records. -/
theorem forall_of_groupNodes {p : TraceNode → Prop} {agentName : String} {records : List TraceNode}
    {d d' : Dict String (Dict Int TraceNode)} (h : records.foldlM (groupNode agentName) d = some d')
    (hd : ∀ nid r node, (groupOf d nid).get? r = some node → p node) (hrecords : ∀ node ∈ records, p node) :
    ∀ nid r node, (groupOf d' nid).get? r = some node → p node := by
  induction records generalizing d with
  | nil =>
    cases h
    exact hd
  | cons record rest ih =>
    rw [List.foldlM_cons] at h
    obtain ⟨d₁, hstep, hrest⟩ := Option.bind_eq_some_iff.mp h
    obtain ⟨hrecord, hothers⟩ := List.forall_mem_cons.mp hrecords
    apply ih hrest _ hothers
    rcases groupNode_cases hstep with ⟨-, rfl⟩ | ⟨-, nid', r', -, rfl⟩
    · exact hd
    · intro nid r node hget
      rw [groupOf_set] at hget
      split at hget
      · rw [Dict.get?_set] at hget
        split at hget
        · cases hget
          exact hrecord
        · exact hd _ _ _ hget
      · exact hd _ _ _ hget

/-- The calls of the invocations are records of the traces. -/
theorem forall_invocations {p : TraceNode → Prop} {nodeList : NodeList} {agentName : String}
    {invs : List (String × List TraceNode)} (h : invocations nodeList agentName = some invs)
    (hnodes : ∀ e ∈ nodeList.entries, ∀ node ∈ e.2, p node) : ∀ i ∈ invs, ∀ node ∈ i.2, p node := by
  unfold invocations at h
  generalize nodeList.entries = entries at h hnodes
  induction entries generalizing invs with
  | nil =>
    cases h
    exact List.forall_mem_nil _
  | cons e entries ih =>
    obtain ⟨grouped, hgrouped, hinvs⟩ := Option.bind_eq_some_iff.mp h
    rw [List.mapM_cons] at hgrouped
    obtain ⟨first, hfirst, hgrouped⟩ := Option.bind_eq_some_iff.mp hgrouped
    obtain ⟨rest, hrest, hgrouped⟩ := Option.bind_eq_some_iff.mp hgrouped
    obtain ⟨agentNodes, hgroups, hfirst⟩ := Option.bind_eq_some_iff.mp hfirst
    obtain ⟨hhere, hothers⟩ := List.forall_mem_cons.mp hnodes
    cases hgrouped
    cases hinvs
    cases hfirst
    rw [List.flatten_cons]
    refine List.forall_mem_append.mpr ⟨?_, @ih rest.flatten (by rw [hrest]; rfl) hothers⟩
    intro i hi node hnode
    obtain ⟨g, hg, rfl⟩ := List.mem_map.mp hi
    obtain ⟨r, -, hget⟩ := List.mem_filterMap.mp hnode
    have hgroup : (groupOf agentNodes g.1).get? r = some node := by
      rw [groupOf, Dict.get?_iff_mem_entries.mpr hg, Option.getD_some]
      exact hget
    exact forall_of_groupNodes hgroups (fun _ _ _ hnone => by cases hnone) hhere _ _ _ hgroup

/-- The averages of a counted tally are not negative. -/
theorem Tally.Counted.stats {t : Tally} (h : t.Counted) (reuse : Bool) : 0 ≤ (t.stats reuse).maxLength ∧
    0 ≤ (t.stats reuse).avgPrefillLength ∧ 0 ≤ (t.stats reuse).avgDecodeLength ∧
    0 ≤ (t.stats reuse).avgCachedTokens := by
  have haverage (lengths : List Int) (hl : ∀ n ∈ lengths, 0 ≤ n) : 0 ≤ lengths.sum.fdiv t.totalLlmCalls :=
    Int.fdiv_nonneg (List.sum_nonneg hl) (Int.natCast_nonneg _)
  have hprefill := haverage _ h.prefill
  have hcached := haverage _ h.cached
  unfold Tally.stats
  split
  · exact ⟨le_refl 0, le_refl 0, le_refl 0, le_refl 0⟩
  · refine ⟨h.max, ?_, haverage _ h.decode, ?_⟩
    · dsimp only
      split
      · exact hprefill
      · exact add_nonneg hprefill hcached
    · dsimp only
      split
      · exact hcached
      · exact le_refl 0

section Range
variable {nodeList : NodeList} {lower upper : Int} {agentName : String} {reuse : Bool} {stats : RangeStats}
  {request : RequestStats}

theorem wellFormed_of_range (hcounts : ∀ e ∈ nodeList.entries, ∀ node ∈ e.2, node.Counted)
    (hstats : computeRangeStats nodeList lower upper agentName reuse = some stats)
    (hkept : stats.requestStats = some request) {estimator : ThroughputEstimator} (hchunk : 1 ≤ estimator.chunkSize)
    (models : LatencyModels) (numLayers : Int) (interference : Bool) :
    (Analysis.mk estimator models numLayers request interference).WellFormed := by
  obtain ⟨t, ht, rfl⟩ := Option.map_eq_some_iff.mp hstats
  obtain ⟨invs, hinvs, rfl⟩ := Option.map_eq_some_iff.mp ht
  have hinit : Tally.init.Counted :=
    ⟨List.forall_mem_nil _, List.forall_mem_nil _, List.forall_mem_nil _, le_refl 0⟩
  obtain ⟨hmax, hprefill, hdecode, hcached⟩ :=
    (hinit.foldl lower upper (forall_invocations hinvs hcounts)).stats reuse
  unfold RangeStats.requestStats at hkept
  split at hkept
  · cases hkept
  · next hne =>
    cases hkept
    exact ⟨hmax, hprefill, lt_of_le_of_ne hdecode (Ne.symm hne), hcached, hchunk⟩

end Range

/-- A trace with one call. -/
def oneCallNodeList (inputTokens outputTokens : Int) : NodeList :=
  Dict.ofPairs [("trace", [⟨"agent", "0:0", .number inputTokens, .number outputTokens, .number 0⟩])]

/-- Profiles that predict a millisecond everywhere. -/
def flatModels : LatencyModels := ⟨fun _ => 1 / 1000, fun _ _ => 1 / 1000, fun _ _ => 1 / 1000, fun _ _ _ => 1 / 1000⟩

end CoreFlow
