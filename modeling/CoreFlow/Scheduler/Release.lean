import CoreFlow.Scheduler.State

/-!
# Releasing sequences

Aborting, preempting and finishing a group: what happens to its status and to its block table.
-/

namespace CoreFlow

namespace SchedM
variable (p : SchedulerParams)

/-- `free_seq`. -/
def freeSeq (seqId : SeqId) : SchedM Unit := onManager (ManagerM.free p.toManagerParams seqId)

/-- `remove_seq_from_computed_blocks_tracker`, of a group with the given status. -/
def removeSeqFromComputedBlocksTracker (seqId : SeqId) (status : SequenceStatus) : SchedM Unit := do
  let g ← getGroup seqId
  Prog.when (g.status = status) (onManager (ManagerM.removeSeqFromComputedBlocksTracker seqId))

/-! ## Aborts -/

/-- The groups of a queue that an abort names. -/
def groupsNamed (requestIds : List RequestId) (queue : List SeqId) : SchedM (List SeqId) := do
  let named ← Prog.mapM (fun id => do
    let g ← getGroup id
    pure (id, decide (g.requestId ∈ requestIds))) queue
  pure ((named.filter (·.2)).map (·.1))

/-- What `abort_seq_group` does to a group it has taken off its queue. -/
def abortGroup (seqId : SeqId) : SchedM Unit := do
  let g ← getGroup seqId
  Prog.when (g.isFinished = false) do
    setStatus seqId .finishedAborted
    freeSeq p seqId

/-- `abort_seq_group`. -/
def abortSeqGroup (requestIds : List RequestId) : SchedM Unit := do
  let s ← Prog.read
  let aborted ← groupsNamed requestIds s.waiting
  Prog.forM (fun id => do
    Prog.update fun s => { s with waiting := s.waiting.erase id }
    abortGroup p id) aborted
  let s ← Prog.read
  let aborted ← groupsNamed requestIds s.running
  Prog.forM (fun id => do
    Prog.update fun s => { s with running := s.running.erase id }
    abortGroup p id) aborted
  let s ← Prog.read
  let aborted ← groupsNamed requestIds s.swapped
  Prog.forM (fun id => do
    Prog.update fun s => { s with swapped := s.swapped.erase id }
    abortGroup p id) aborted

/-! ## Preemption -/

/-- `_preempt_by_recompute`. -/
def preemptByRecompute (seqId : SeqId) : SchedM Unit := do
  let g ← getGroup seqId
  Prog.require (g.status = .running)
  setStatus seqId .waiting
  freeSeq p seqId
  let g ← getGroup seqId
  setGroup seqId g.resetStateForRecompute

/-- `_swap_out`; the pairs are what it adds to `blocks_to_swap_out`. -/
def swapOut (seqId : SeqId) : SchedM (List SwapPair) := do
  let g ← getGroup seqId
  let ok ← onManager (ManagerM.canSwapOut p.toManagerParams g)
  Prog.require (ok = true)
  let now ← time
  let mapping ← onManager (ManagerM.swapOut p.toManagerParams g now)
  Prog.when (g.status = .running) (setStatus seqId .swapped)
  pure mapping

/-- `_preempt_by_swap`. -/
def preemptBySwap (seqId : SeqId) : SchedM (List SwapPair) := do
  let mapping ← swapOut p seqId
  let g ← getGroup seqId
  Prog.when (g.status = .swapped) do
    setGroup seqId { g with status := .waiting }.resetStateForRecompute
    freeSeq p seqId
  pure mapping

/-- The mode that `_preempt` chooses for a group. -/
def preemptionModeOf (g : SequenceGroup) : PreemptionMode :=
  match p.preemptionMode with
  | none => if g.getMaxNumRunningSeqs = 1 then .recompute else .swap
  | some mode => mode

/-- `_preempt`. -/
def preempt (seqId : SeqId) : SchedM (PreemptionMode × List SwapPair) := do
  let g ← getGroup seqId
  match preemptionModeOf p g with
  | .recompute => do
    preemptByRecompute p seqId
    pure (.recompute, [])
  | .swap => do
    let mapping ← preemptBySwap p seqId
    pure (.swap, mapping)

/-! ## Finished groups -/

/-- `_should_keep_cache_in_gpu`. -/
def shouldKeepCacheInGpu (g : SequenceGroup) : Bool :=
  match g.extraArgs with
  | none => false
  | some args => args.keepCacheInGpu

/-- `_should_free_cache`. -/
def shouldFreeCache (g : SequenceGroup) : Bool :=
  match g.extraArgs with
  | none => true
  | some args => args.freeCache

/-- `_request_exceeds_context_range`. -/
def requestExceedsContextRange (g : SequenceGroup) : Bool :=
  match g.extraArgs.bind (·.contextRange) with
  | none => false
  | some (_, upper) => decide (g.getLen ≥ upper)

/-- `_has_cache_entry`. -/
def hasCacheEntry (g : SequenceGroup) : SchedM Bool := do
  let s ← Prog.read
  match g.cacheKey with
  | none => pure false
  | some key => pure (s.blockManager.getGpuCachedEntry key).isSome

/-- `_free_finished_seqs`. -/
def freeFinishedSeqs (seqId : SeqId) : SchedM Unit := do
  let g ← getGroup seqId
  Prog.when (g.isFinished = true) (freeSeq p seqId)

/-- What `_free_finished_seq_group_blocks` does to the cache of a finished group; the result is its
`keep_for_cpu_swap`. -/
def releaseCache (g : SequenceGroup) : SchedM Bool :=
  -- a request that outgrew the context range of its instance is not retained
  if shouldFreeCache g || (shouldKeepCacheInGpu g && requestExceedsContextRange g) then do
    onManager (ManagerM.freeRequestCache p.toManagerParams g)
    pure false
  else if shouldKeepCacheInGpu g then do
    onManager (ManagerM.retainBlocks p.toManagerParams g)
    pure false
  else do
    let now ← time
    match ← onManager (ManagerM.swapOutFinished p.toManagerParams g now) with
    | none => do
      onManager (ManagerM.freeFinishedBlocks p.toManagerParams g)
      pure false
    | some swapOut => do
      Prog.update fun s => { s with pendingFinishedSwapOut := s.pendingFinishedSwapOut ++ swapOut }
      pure true

/-- `_free_finished_seq_group_blocks`. -/
def freeFinishedSeqGroupBlocks (seqId : SeqId) : SchedM Unit := do
  let g ← getGroup seqId
  let keepForCpuSwap ← (if g.isFinished then releaseCache p g else pure false)
  if keepForCpuSwap then
    Prog.update fun s =>
      { s with finishedSeqsPendingSwapOut := s.finishedSeqsPendingSwapOut ++ [seqId] }
  else do
    let hasEntry ← hasCacheEntry g
    Prog.when ((g.isFinished && hasEntry) = false) (freeFinishedSeqs p seqId)

/-- `free_finished_seq_groups`. -/
def freeFinishedSeqGroups : SchedM Unit := do
  let s ← Prog.read
  Prog.require (∀ id ∈ s.waiting, (s.groups.get? id).any (·.isFinished) = false)
  Prog.require (∀ id ∈ s.swapped, (s.groups.get? id).any (·.isFinished) = false)
  Prog.forM (freeFinishedSeqs p) s.finishedSeqsPendingSwapOut
  Prog.update fun s => { s with finishedSeqsPendingSwapOut := [] }
  Prog.forM (freeFinishedSeqGroupBlocks p) s.running
  Prog.update fun s =>
    { s with running := s.running.filter fun id => (s.groups.get? id).any fun g => !g.isFinished }
  Prog.forM (freeFinishedSeqGroupBlocks p) s.asyncStopped
  Prog.update fun s => { s with asyncStopped := [] }

end SchedM

end CoreFlow
