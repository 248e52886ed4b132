import CoreFlow.Scheduler.Release

/-!
# How many tokens a group gets

The chunk of a group comes from its uncomputed tokens, the cached prefix and the budget; the tokens
registered as computed when it is allocated come from `_resolve_cached_prefix_len`.
-/

namespace CoreFlow

namespace SchedM
variable (p : SchedulerParams)

/-- `_get_initial_cached_tokens`. -/
def getInitialCachedTokens (g : SequenceGroup) : Int :=
  match g.extraArgs with
  | none => 0
  | some args => max 0 args.cachedTokens

/-- `_get_exact_gpu_cached_tokens`. -/
def getExactGpuCachedTokens (g : SequenceGroup) : SchedM (Option Int) := do
  let s ← Prog.read
  match g.cacheKey with
  | none => pure none
  | some key => pure ((s.blockManager.getGpuCachedEntry key).map fun e => e.tokenIds.length)

/-- `_has_synthetic_cache_source`. -/
def hasSyntheticCacheSource (g : SequenceGroup) : SchedM Bool := do
  let exact ← getExactGpuCachedTokens g
  pure (decide (getInitialCachedTokens g > 0) || exact.isSome)

/-- `_round_cached_tokens`. -/
def roundCachedTokens (cachedTokens : Int) : Int := cachedTokens / p.blockSize * p.blockSize

def getNumCachedTokens (g : SequenceGroup) (d : Device) : SchedM Nat :=
  onManager (ManagerM.getNumCachedTokens p.toManagerParams g d)

/-- `_resolve_cached_prefix_len`: request, then exact entry, then prefix cache. -/
def resolveCachedPrefixLen (g : SequenceGroup) : SchedM Int := do
  let requestCachedTokens := getInitialCachedTokens g
  if requestCachedTokens > 0 then
    pure (roundCachedTokens p (min requestCachedTokens (max (g.getPromptLen - 1) 0)))
  else do
    match ← getExactGpuCachedTokens g with
    | some exactCachedTokens =>
      pure (roundCachedTokens p (min exactCachedTokens (max (g.getPromptLen - 1) 0)))
    | none => do
      let gpuCachedTokens ← getNumCachedTokens p g .gpu
      let cpuCachedTokens ← getNumCachedTokens p g .cpu
      pure (max gpuCachedTokens cpuCachedTokens)

/-- `_get_prompt_limit`. -/
def getPromptLimit : Int :=
  if p.chunkedPrefillEnabled then p.maxModelLen else min p.maxModelLen p.maxNumBatchedTokens

/-- `partial_prefill_budget_lookup_list`. -/
def partialPrefillBudgetLookupList : List Int :=
  p.maxNumBatchedTokens ::
    (List.range p.maxNumPartialPrefills).map fun i => p.maxNumBatchedTokens / (i + 1 : Nat)

/-- `_chunk_new_tokens_to_schedule`. -/
def chunkNewTokensToSchedule (numNewTokens : Int) : SchedM Int := do
  let s ← Prog.read
  let remainingTokenBudget := s.budget.remainingTokenBudget
  let prefillSlotBudget ← (match s.partialPrefillMetadata with
    | none => pure remainingTokenBudget
    | some m => Prog.ofOption ((partialPrefillBudgetLookupList p)[m.schedulablePrefills]?))
  let remainingTokenBudget :=
    min remainingTokenBudget prefillSlotBudget / p.blockSize * p.blockSize
  pure (min (min numNewTokens remainingTokenBudget) prefillSlotBudget)

/-- The cached tokens that `_get_num_new_uncached_and_cached_tokens` sees for a sequence. -/
def getCachedTokensSeq (g : SequenceGroup) : SchedM Int := do
  let initial := getInitialCachedTokens g
  if initial > 0 then pure (min initial g.getLen)
  else do
    let cpuCachedTokens ← getNumCachedTokens p g .cpu
    let gpuCachedTokens ← getNumCachedTokens p g .gpu
    pure (max cpuCachedTokens gpuCachedTokens)

/-- The loop over the sequences in `_get_num_new_uncached_and_cached_tokens`, before chunking. -/
def getNumNewTokens (g : SequenceGroup) : SchedM (Int × Int) :=
  if g.isPrefill = false then pure (1, 0)
  else do
    let remainingTokensSeq := max 0 (g.getLen - g.numComputedTokens)
    let cachedTokensSeq ← getCachedTokensSeq p g
    let numCachedNewTokens := min (max 0 (cachedTokensSeq - g.numComputedTokens)) remainingTokensSeq
    let numUncachedNewTokens := remainingTokensSeq - numCachedNewTokens
    -- a fully cached sequence has its last token recomputed
    pure (if numUncachedNewTokens = 0 ∧ numCachedNewTokens > 0 then (1, numCachedNewTokens - 1)
      else (numUncachedNewTokens, numCachedNewTokens))

/-- `_get_num_new_uncached_and_cached_tokens`. -/
def getNumNewUncachedAndCachedTokens (g : SequenceGroup) (status : SequenceStatus)
    (enableChunking : Bool) : SchedM (Int × Int) :=
  if g.status ≠ status then pure (0, 0)
  else do
    let (numUncachedNewTokens, numCachedNewTokens) ← getNumNewTokens p g
    if enableChunking then do
      let n ← chunkNewTokensToSchedule p numUncachedNewTokens
      pure (n, numCachedNewTokens)
    else pure (numUncachedNewTokens, numCachedNewTokens)

/-- `_get_num_lookahead_slots`. -/
def getNumLookaheadSlots (isPrefill : Bool) : Nat := if isPrefill then 0 else p.numLookaheadSlots

/-- `PartialPrefillMetadata.can_schedule`. -/
def partialPrefillCanSchedule (m : PartialPrefillMetadata) (g : SequenceGroup) : Bool :=
  !(decide (g.getNumNewTokens > p.longPrefillTokenThreshold) &&
    decide (m.longPrefills ≥ p.maxLongPartialPrefills) && decide (p.maxNumPartialPrefills > 1))

/-- `maybe_increment_partial_prefills`. -/
def maybeIncrementPartialPrefills (g : SequenceGroup) : SchedM Unit :=
  Prog.update fun s =>
    { s with partialPrefillMetadata := s.partialPrefillMetadata.map fun m =>
        if g.getNumNewTokens > p.longPrefillTokenThreshold then
          { m with longPrefills := m.longPrefills + 1 }
        else m }

/-- The loop over `waiting` in `from_queues`. -/
def countWaitingPrefills (longPrefills : Int) : Nat → Int → List SequenceGroup → Nat
  | prefills, _, [] => prefills
  | prefills, waitingLongPrefills, g :: gs =>
    if prefills ≥ p.maxNumPartialPrefills then prefills
    else if g.getNumNewTokens > p.longPrefillTokenThreshold then
      if longPrefills + waitingLongPrefills ≥ p.maxLongPartialPrefills then
        countWaitingPrefills longPrefills prefills waitingLongPrefills gs
      else countWaitingPrefills longPrefills (prefills + 1) (waitingLongPrefills + 1) gs
    else countWaitingPrefills longPrefills (prefills + 1) waitingLongPrefills gs

/-- `PartialPrefillMetadata.from_queues`. -/
def fromQueues (running waiting : List SequenceGroup) : PartialPrefillMetadata :=
  let prefilling := running.filter (·.isPrefill)
  let longPrefills : Int :=
    (prefilling.filter fun g => decide (g.getNumNewTokens > p.longPrefillTokenThreshold)).length
  let prefills := countWaitingPrefills p longPrefills prefilling.length 0 waiting
  ⟨min prefills p.maxNumPartialPrefills, longPrefills⟩

end SchedM

end CoreFlow
