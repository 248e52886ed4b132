import CoreFlow.Scheduler.Prefills

/-!
# `schedule`

The two policies, and what `schedule` adds: the pending copies of finished groups, the metadata of
the batch and the marks on the blocks it will have computed.
-/

namespace CoreFlow

namespace SchedM
variable (p : SchedulerParams) (callback : Option (RequestId → SchedM Unit))

/-! ## Sorting by query id -/

/-- `int` of a string of ASCII digits, with a sign and white space around it. -/
def parseInt (chars : List Char) : Option Int :=
  let trim := List.dropWhile Char.isWhitespace
  let digits (ds : List Char) : Option Int :=
    if ds ≠ [] ∧ ds.all Char.isDigit then
      some (ds.foldl (fun n c => 10 * n + (c.toNat - 48 : Nat)) (0 : Int))
    else none
  match (trim (trim chars).reverse).reverse with
  | '-' :: ds => (digits ds).map (- ·)
  | '+' :: ds => digits ds
  | ds => digits ds

/-- `int(parts[0][1:])`, of the `_`-separated parts of a request id. -/
def parseQueryId (requestId : RequestId) : Option Int :=
  parseInt ((requestId.toList.takeWhile (· ≠ '_')).drop 1)

/-- `_extract_query_id_key`; `none` is the key `None`. -/
def extractQueryIdKey (g : SequenceGroup) : Option Int :=
  match g.extraArgs with
  | some args =>
    match args.queryId with
    | some q => q
    | none => some 2147483647
  | none => some ((parseQueryId g.requestId).getD 2147483647)

/-- The body of `_sort_waiting_by_query_id` and `_sort_running_by_query_id`; keys that cannot be
compared raise. -/
def sortByQueryId (queue : List SeqId) : SchedM (List SeqId) :=
  if queue.length ≤ 1 then pure queue
  else do
    let keys ← Prog.mapM (fun id => do
      let g ← getGroup id
      let key ← Prog.ofOption (extractQueryIdKey g)
      pure (id, key)) queue
    pure ((keys.insertionSort fun a b => a.2 ≤ b.2).map (·.1))

/-! ## Policies -/

/-- `SchedulerOutputs(…)`, with the assertion of `__post_init__`. -/
def makeOutputs (o : SchedulerOutputs) : SchedM SchedulerOutputs := do
  Prog.require (o.blocksToSwapIn = [] ∨ o.blocksToSwapOut = [])
  pure o

/-- The two assertions on the budget that end both policies. -/
def checkBudget : SchedM Unit := do
  let s ← Prog.read
  Prog.require (s.budget.numBatchedTokens ≤ p.maxNumBatchedTokens)
  Prog.require (s.budget.numCurrSeqs ≤ p.maxNumSeqs)

/-- `_schedule_default`. -/
def scheduleDefault : SchedM SchedulerOutputs := do
  let s ← Prog.read
  let gs ← getGroups s.running
  let budget := gs.foldl (fun b g => b.addNumSeqs g.requestId g.getMaxNumRunningSeqs)
    (SchedulingBudget.init p.maxNumBatchedTokens p.maxNumSeqs)
  Prog.update fun s => { s with budget := budget, partialPrefillMetadata := none }
  let prefills ← (if s.swapped = [] ∧ s.pendingFinishedSwapOut = [] then schedulePrefills p false
    else pure .empty)
  Prog.when (prefills.seqGroups = [] ∧ p.priorityPolicy = true) (schedulePriorityPreemption p)
  let running ← (if prefills.seqGroups = [] then scheduleRunning p callback false else pure .empty)
  checkBudget p
  Prog.update fun s =>
    { s with
      waiting := running.swappedOut.reverse ++ (running.preempted.reverse ++ s.waiting)
      running := s.running ++ prefills.seqGroups.map (·.seqId) ++
        running.decodeSeqGroups.map (·.seqId) }
  Prog.require (running.prefillSeqGroups = [])
  let s ← Prog.read
  makeOutputs
    { scheduledSeqGroups := prefills.seqGroups ++ running.decodeSeqGroups
      numPrefillGroups := prefills.seqGroups.length
      numBatchedTokens := s.budget.numBatchedTokens + s.budget.numCachedTokens
      blocksToSwapIn := prefills.blocksToSwapIn
      blocksToSwapOut := running.blocksToSwapOut
      blocksToCopy := running.blocksToCopy
      ignoredSeqGroups := prefills.ignoredSeqGroups }

/-- `_order_finishing_prefills_first`. -/
def orderFinishingPrefillsFirst (scheduled : List ScheduledSequenceGroup) : SchedM (List SeqId) := do
  let marked ← Prog.mapM (fun sg : ScheduledSequenceGroup => do
    let g ← getGroup sg.seqId
    -- only the sequences that are not finished count
    let uncomputed := if g.isFinished then 0 else g.getNumUncomputedTokens
    pure (sg.seqId, decide (uncomputed = sg.tokenChunkSize))) scheduled
  pure ((marked.filter (·.2)).map (·.1) ++ (marked.filter (!·.2)).map (·.1))

/-- `_schedule_chunked_prefill`. -/
def scheduleChunkedPrefill : SchedM SchedulerOutputs := do
  let s ← Prog.read
  let runningGroups ← getGroups s.running
  let waitingGroups ← getGroups s.waiting
  Prog.update fun s =>
    { s with
      budget := SchedulingBudget.init p.maxNumBatchedTokens p.maxNumSeqs
      partialPrefillMetadata := some (fromQueues p runningGroups waitingGroups) }
  let running ← scheduleRunning p callback true
  let s ← Prog.read
  let hasSwapOut := !running.blocksToSwapOut.isEmpty || !s.pendingFinishedSwapOut.isEmpty
  let prefills ← (if hasSwapOut = false then schedulePrefills p true else pure .empty)
  checkBudget p
  let finishing ← orderFinishingPrefillsFirst running.prefillSeqGroups
  Prog.update fun s =>
    { s with
      waiting := running.swappedOut.reverse ++ (running.preempted.reverse ++ s.waiting)
      running := s.running ++ running.decodeSeqGroups.map (·.seqId) ++ finishing ++
        prefills.seqGroups.map (·.seqId) }
  let s ← Prog.read
  makeOutputs
    { scheduledSeqGroups := prefills.seqGroups ++ running.prefillSeqGroups ++ running.decodeSeqGroups
      numPrefillGroups := prefills.seqGroups.length + running.prefillSeqGroups.length
      numBatchedTokens := s.budget.numBatchedTokens + s.budget.numCachedTokens
      blocksToSwapIn := prefills.blocksToSwapIn
      blocksToSwapOut := running.blocksToSwapOut
      blocksToCopy := running.blocksToCopy
      ignoredSeqGroups := prefills.ignoredSeqGroups }

/-- `_schedule`. -/
def scheduleQueues : SchedM SchedulerOutputs := do
  let s ← Prog.read
  let waiting ← sortByQueryId s.waiting
  let running ← sortByQueryId s.running
  Prog.update fun s => { s with waiting := waiting, running := running }
  if p.chunkedPrefillEnabled then scheduleChunkedPrefill p callback else scheduleDefault p callback

/-! ## The batch -/

/-- The metadata that `schedule` makes for a scheduled group. -/
def groupMetadata (now : Int) (sg : ScheduledSequenceGroup) : SchedM SequenceGroupMetadata := do
  let g ← getGroup sg.seqId
  let blockTable ← (if g.status = .running then do
      let s ← Prog.read
      let t ← Prog.ofOption (s.blockManager.blockTables.get? sg.seqId)
      onManager (ManagerM.accessAllBlocksInSeq sg.seqId now)
      pure t.blockIds
    else pure [])
  let computedBlockNums ← onManager (ManagerM.getCommonComputedBlockIds p.toManagerParams g)
  pure
    { seqId := sg.seqId
      tokenChunkSize := sg.tokenChunkSize
      isPrompt := g.isPrefill
      doSample := !(g.isPrefill && decide (sg.tokenChunkSize + g.numComputedTokens < g.getLen))
      blockTable := blockTable
      computedBlockNums := computedBlockNums }

/-- `schedule`. -/
def schedule : SchedM (List SequenceGroupMetadata × SchedulerOutputs) := do
  let outputs ← scheduleQueues p callback
  let s ← Prog.read
  let outputs := { outputs with
    blocksToSwapOut := outputs.blocksToSwapOut ++ s.pendingFinishedSwapOut }
  Prog.update fun s => { s with pendingFinishedSwapOut := [] }
  let now ← time
  let metadata ← Prog.mapM (groupMetadata p now) outputs.scheduledSeqGroups
  Prog.forM (fun sg : ScheduledSequenceGroup => do
    let g ← getGroup sg.seqId
    onManager (ManagerM.markBlocksAsComputed p.toManagerParams g sg.tokenChunkSize))
    outputs.scheduledSeqGroups
  pure (metadata, outputs)

end SchedM

end CoreFlow
