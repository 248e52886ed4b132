import CoreFlow.Scheduler.Tokens

/-!
# Scheduling the running queue

`_schedule_running` gives each running group its slots, and preempts groups from the end of the queue
until they fit. `callback` is `output_proc_callback`, which asynchronous output processing sets.
-/

namespace CoreFlow

namespace SchedM
variable (p : SchedulerParams) (callback : Option (RequestId → SchedM Unit))

/-- `_can_append_slots`. -/
def canAppendSlots (seqId : SeqId) : SchedM Bool := do
  let g ← getGroup seqId
  onManager (ManagerM.canAppendSlots p.toManagerParams g (getNumLookaheadSlots p g.isPrefill))

/-- `_append_slots`. -/
def appendSlots (seqId : SeqId) : SchedM (List (BlockId × BlockId)) := do
  let g ← getGroup seqId
  if g.status = .running then
    onManager (ManagerM.appendSlots p.toManagerParams g (getNumLookaheadSlots p g.isPrefill))
  else pure []

/-- The victim of a preemption: it finishes in the callback, or it is preempted. -/
def preemptVictim (victim : SeqId) (ret : SchedulerRunningOutputs) : SchedM SchedulerRunningOutputs := do
  let doPreempt ← (match callback with
    | none => pure true
    | some outputProcCallback => do
      let g ← getGroup victim
      outputProcCallback g.requestId
      let g ← getGroup victim
      if g.isFinished then do
        freeFinishedSeqGroupBlocks p victim
        pure false
      else pure true)
  if doPreempt then do
    let (mode, pairs) ← preempt p victim
    let ret := { ret with blocksToSwapOut := ret.blocksToSwapOut ++ pairs }
    match mode with
    | .recompute => pure { ret with preempted := ret.preempted ++ [victim] }
    | .swap => pure { ret with swappedOut := ret.swappedOut ++ [victim] }
  else pure ret

/-- The slots of a group that fits are appended and the group is scheduled. -/
def scheduleRunningGroup (seqId : SeqId) (numRunningTokens : Int) (enableChunking : Bool)
    (ret : SchedulerRunningOutputs) : SchedM SchedulerRunningOutputs := do
  let cows ← appendSlots p seqId
  let g ← getGroup seqId
  let ret := { ret with blocksToCopy := ret.blocksToCopy ++ cows }
  let ret := if g.isPrefill then
      { ret with prefillSeqGroups := ret.prefillSeqGroups ++ [⟨seqId, numRunningTokens⟩] }
    else { ret with decodeSeqGroups := ret.decodeSeqGroups ++ [⟨seqId, 1⟩] }
  let s ← Prog.read
  let budget ← Prog.ofOption (s.budget.addNumBatchedTokens g.requestId numRunningTokens 0)
  modifyBudget fun _ =>
    if enableChunking then budget.addNumSeqs g.requestId g.getMaxNumRunningSeqs else budget
  pure ret

/-- The inner loop: `while not self._can_append_slots(…)` with its `else` branch. -/
def preemptUntilFits (seqId : SeqId) (numRunningTokens : Int) (enableChunking : Bool) :
    Nat → SchedulerRunningOutputs → SchedM SchedulerRunningOutputs
  | 0, _ => Prog.raise
  | n + 1, ret => do
    if ← canAppendSlots p seqId then
      scheduleRunningGroup p seqId numRunningTokens enableChunking ret
    else do
      let g ← getGroup seqId
      modifyBudget fun b =>
        (b.subtractNumBatchedTokens g.requestId numRunningTokens).subtractNumSeqs g.requestId
          g.getMaxNumRunningSeqs
      let s ← Prog.read
      match s.running.getLast? with
      | none => preemptVictim p callback seqId ret
      | some victim => do
        Prog.update fun s => { s with running := s.running.dropLast }
        let ret ← preemptVictim p callback victim ret
        preemptUntilFits seqId numRunningTokens enableChunking n ret

/-- The outer loop of `_schedule_running`. -/
def scheduleRunningLoop (enableChunking : Bool) :
    Nat → SchedulerRunningOutputs → SchedM SchedulerRunningOutputs
  | 0, _ => Prog.raise
  | n + 1, ret => do
    let s ← Prog.read
    match s.running with
    | [] => pure ret
    | seqId :: rest => do
      let g ← getGroup seqId
      let (numRunningTokens, _) ← getNumNewUncachedAndCachedTokens p g .running enableChunking
      if numRunningTokens = 0 then pure ret
      else do
        Prog.update fun s => { s with running := rest }
        if callback.isSome = true ∧ g.getLen > p.maxModelLen then do
          Prog.update fun s => { s with asyncStopped := s.asyncStopped ++ [seqId] }
          scheduleRunningLoop enableChunking n ret
        else do
          let ret ← preemptUntilFits p callback seqId numRunningTokens enableChunking
            (rest.length + 1) ret
          scheduleRunningLoop enableChunking n ret

/-- `_schedule_running`. -/
def scheduleRunning (enableChunking : Bool) : SchedM SchedulerRunningOutputs := do
  let s ← Prog.read
  Prog.require (s.asyncStopped = [])
  scheduleRunningLoop p callback enableChunking (s.running.length + 1) .empty

end SchedM

end CoreFlow
