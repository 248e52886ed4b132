import CoreFlow.Scheduler.Running

/-!
# Scheduling the waiting queue

`_schedule_prefills` admits groups from the front of the waiting queue, and
`_schedule_priority_preemption` makes room for it under the priority policy.
-/

namespace CoreFlow

namespace SchedM
variable (p : SchedulerParams)

/-- `_get_priority`, compared as a tuple. -/
def priorityLe (a b : SequenceGroup) : Prop :=
  a.priority < b.priority ∨ (a.priority = b.priority ∧ a.arrivalTime ≤ b.arrivalTime)

instance : DecidableRel priorityLe := fun a b => by unfold priorityLe; infer_instance

/-- The groups of a queue. -/
def getGroups (queue : List SeqId) : SchedM (List SequenceGroup) := Prog.mapM getGroup queue

/-- `sorted(queue, key=self._get_priority)`. -/
def sortedByPriority (queue : List SeqId) : SchedM (List SeqId) := do
  let gs ← getGroups queue
  pure (((queue.zip gs).insertionSort fun a b => priorityLe a.2 b.2).map (·.1))

/-- `_passed_delay`. -/
def passedDelay (now : Int) : SchedM Bool := do
  Prog.update fun s =>
    { s with
      lastPromptLatency := if s.prevPrompt then now - s.prevTime else s.lastPromptLatency
      prevTime := now
      prevPrompt := false }
  let s ← Prog.read
  if p.delayFactor > 0 ∧ s.waiting ≠ [] then do
    let gs ← getGroups s.waiting
    let earliestArrivalTime ← Prog.ofOption (gs.map (·.arrivalTime)).min?
    pure (decide (p.delayFactor * s.lastPromptLatency < ((now - earliestArrivalTime : Int) : Rat) ∨
      s.running = []))
  else pure true

/-- `_allocate_and_set_running`. -/
def allocateAndSetRunning (seqId : SeqId) : SchedM (List SwapPair) := do
  let g ← getGroup seqId
  let blocksToSwapIn ← onManager (ManagerM.allocate p.toManagerParams g)
  let initialCachedTokens ← resolveCachedPrefixLen p g
  let synthetic ← hasSyntheticCacheSource g
  Prog.when (synthetic = true ∧ initialCachedTokens > 0) do
    let n ← onManager
      (ManagerM.registerSyntheticCachedTokens p.toManagerParams g initialCachedTokens)
    Prog.when (n > g.numComputedTokens) do
      let g' ← Prog.ofOption (g.updateNumComputedTokens (n - g.numComputedTokens))
      setGroup seqId g'
  setStatus seqId .running
  pure blocksToSwapIn

/-- `_consume_exact_gpu_cache_hit`. -/
def consumeExactGpuCacheHit (g : SequenceGroup) : SchedM Unit :=
  match g.cacheKey with
  | none => pure ()
  | some key => onManager (ManagerM.consumeGpuCachedEntry p.toManagerParams key)

/-- What one round of the loop of `_schedule_prefills` decides. -/
inductive PrefillStep where
  /-- `break`. -/
  | stop
  /-- The group is put aside and stays waiting. -/
  | leave
  | ignore
  | accept (numUncached numCached : Int)
deriving DecidableEq

/-- The tests of a round of `_schedule_prefills`, down to `# Can schedule this request.` -/
def prefillStep (seqId : SeqId) (enableChunking : Bool) : SchedM PrefillStep := do
  let g ← getGroup seqId
  Prog.require (g.status = .waiting)
  let s ← Prog.read
  if s.partialPrefillMetadata.any (fun m => !partialPrefillCanSchedule p m g) then pure .leave
  else do
    let (numUncached, numCached) ← getNumNewUncachedAndCachedTokens p g .waiting enableChunking
    let numNewTokens := numUncached + numCached
    Prog.require (enableChunking = true ∨ numNewTokens = g.getLen)
    let ignore : SchedM PrefillStep := do
      setStatus seqId .finishedIgnored
      removeSeqFromComputedBlocksTracker seqId .finishedIgnored
      pure .ignore
    let stop : SchedM PrefillStep := do
      removeSeqFromComputedBlocksTracker seqId .waiting
      pure .stop
    if numNewTokens > getPromptLimit p then ignore
    else do
      let s ← Prog.read
      match ← Prog.ofOption (s.blockManager.canAllocate p.toManagerParams g 0) with
      | .later => stop
      | .never => ignore
      | .ok =>
        if s.budget.numBatchedTokens ≥ p.maxNumBatchedTokens then stop
        else if numUncached = 0 then stop
        else do
          let ok ← Prog.ofOption (s.budget.canSchedule numUncached g.getMaxNumRunningSeqs)
          if ok = false then stop else pure (.accept numUncached numCached)

/-- The admission of a group; `before` is the block manager before its table was allocated. -/
def admissionOf (seqId : SeqId) (g : SequenceGroup) (before : BlockSpaceManager) (s : Scheduler) :
    Admission :=
  let entry := g.cacheKey.bind before.getGpuCachedEntry
  let blockIdsOf (m : BlockSpaceManager) (id : SeqId) : List BlockId :=
    ((m.blockTables.get? id).map (·.blockIds)).getD []
  let cachedTokens (d : Device) : Nat :=
    (before.computedBlocksTracker.seqIdToNumTokensComputed.get? (g.seqId, d)).getD 0
  { group := g
    entry := entry
    entryBlockIds := ((entry.map (·.seqIds)).getD []).flatMap (blockIdsOf before)
    gpuCachedTokens := cachedTokens .gpu
    cpuCachedTokens := cachedTokens .cpu
    numComputedTokens := ((s.groups.get? seqId).map (·.numComputedTokens)).getD 0
    blockIds := blockIdsOf s.blockManager g.seqId }

/-- Ghost: record an admission. -/
def recordAdmission (a : Admission) (s : Scheduler) : Scheduler :=
  let m := s.blockManager
  { s with blockManager := { m with trace := { m.trace with admissions := m.trace.admissions ++ [a] } } }

/-- The rest of the round for a group that can be scheduled. -/
def admitPrefill (seqId : SeqId) (numUncached numCached : Int) (ret : SchedulerPrefillOutputs) :
    SchedM SchedulerPrefillOutputs := do
  let g ← getGroup seqId
  let isSyntheticCacheSource ← hasSyntheticCacheSource g
  let before ← Prog.read
  let blocksToSwapIn ← allocateAndSetRunning p seqId
  Prog.update fun s => recordAdmission (admissionOf seqId g before.blockManager s) s
  consumeExactGpuCacheHit p g
  let g ← getGroup seqId
  maybeIncrementPartialPrefills p g
  let tokenChunkSize := if isSyntheticCacheSource then numUncached else numUncached + numCached
  let s ← Prog.read
  let budget ← Prog.ofOption (s.budget.addNumBatchedTokens g.requestId numUncached numCached)
  modifyBudget fun _ => budget.addNumSeqs g.requestId g.getMaxNumRunningSeqs
  pure { ret with
    seqGroups := ret.seqGroups ++ [⟨seqId, tokenChunkSize⟩]
    blocksToSwapIn := ret.blocksToSwapIn ++ blocksToSwapIn }

/-- The loop of `_schedule_prefills`; `leftover` is `leftover_waiting_sequences`. -/
def schedulePrefillsLoop (enableChunking : Bool) :
    Nat → SchedulerPrefillOutputs → List SeqId → SchedM (SchedulerPrefillOutputs × List SeqId)
  | 0, _, _ => Prog.raise
  | n + 1, ret, leftover => do
    let now ← time
    let passed ← passedDelay p now
    let s ← Prog.read
    match s.waiting with
    | [] => pure (ret, leftover)
    | seqId :: rest =>
      if passed = false then pure (ret, leftover)
      else do
        let popleft : SchedM Unit := Prog.update fun s => { s with waiting := rest }
        match ← prefillStep p seqId enableChunking with
        | .stop => pure (ret, leftover)
        | .leave => do
          popleft
          schedulePrefillsLoop enableChunking n ret (seqId :: leftover)
        | .ignore => do
          popleft
          schedulePrefillsLoop enableChunking n
            { ret with ignoredSeqGroups := ret.ignoredSeqGroups ++ [seqId] } leftover
        | .accept numUncached numCached => do
          popleft
          let ret ← admitPrefill p seqId numUncached numCached ret
          schedulePrefillsLoop enableChunking n ret leftover

/-- `_schedule_prefills`. -/
def schedulePrefills (enableChunking : Bool) : SchedM SchedulerPrefillOutputs := do
  let s ← Prog.read
  if s.budget.remainingTokenBudget = 0 then pure .empty
  else do
    let (ret, leftover) ←
      schedulePrefillsLoop p enableChunking (s.waiting.length + 1) .empty []
    Prog.update fun s =>
      { s with
        waiting := leftover.reverse ++ s.waiting
        prevPrompt := if ret.seqGroups = [] then s.prevPrompt else true }
    pure ret

/-- The loop of `_schedule_priority_preemption`: `running` is the sorted queue, and the second list
holds the victims put at the front of the waiting queue. -/
def priorityPreemptionLoop (seqId : SeqId) (numUncached : Int) (numNewSeqs : Int) :
    Nat → List SeqId → List SeqId → SchedM (List SeqId × List SeqId)
  | 0, _, _ => Prog.raise
  | n + 1, running, victims => do
    match running.getLast? with
    | none => pure (running, victims)
    | some victim => do
      let g ← getGroup seqId
      let v ← getGroup victim
      if priorityLe v g then pure (running, victims)
      else do
        let s ← Prog.read
        let canAllocate ← Prog.ofOption (s.blockManager.canAllocate p.toManagerParams g 0)
        let fits ← (if numUncached > 0 ∧ canAllocate = .ok then
            Prog.ofOption (s.budget.canSchedule numUncached numNewSeqs)
          else pure false)
        if fits then pure (running, victims)
        else do
          let (numRunningTokens, _) ← getNumNewUncachedAndCachedTokens p v .running false
          modifyBudget fun b =>
            (b.subtractNumBatchedTokens v.requestId numRunningTokens).subtractNumSeqs v.requestId
              v.getMaxNumRunningSeqs
          -- the pairs go to a local list that nothing reads
          let (_, pairs) ← preempt p victim
          onManager (ManagerM.leaveUnused pairs)
          priorityPreemptionLoop seqId numUncached numNewSeqs n running.dropLast (victim :: victims)

/-- `_schedule_priority_preemption`. -/
def schedulePriorityPreemption : SchedM Unit := do
  let s ← Prog.read
  let running ← sortedByPriority s.running
  match s.waiting with
  | [] => Prog.update fun s => { s with running := running }
  | seqId :: rest => do
    let g ← getGroup seqId
    let (numUncached, _) ← getNumNewUncachedAndCachedTokens p g .waiting false
    let (running, victims) ← priorityPreemptionLoop p seqId numUncached g.getMaxNumRunningSeqs
      (running.length + 1) running []
    removeSeqFromComputedBlocksTracker seqId .waiting
    let waiting ← sortedByPriority (seqId :: (victims ++ rest))
    Prog.update fun s => { s with waiting := waiting, running := running }

end SchedM

end CoreFlow
