import CoreFlow.Manager.BlockManager

/-!
# The state of the scheduler

Queues hold the sequence ids of groups; the groups themselves, which Python shares by reference, are
in `groups`. `budget` and `partialPrefillMetadata` are the locals of the running call of `schedule`,
and `clock` holds the readings that the coming calls of `time.time()` will return.
-/

namespace CoreFlow

inductive PreemptionMode where
  | swap
  | recompute
deriving DecidableEq, Repr

/-- The scheduler's configuration; the priority policy is a flag. -/
structure SchedulerParams extends ManagerParams where
  maxNumBatchedTokens : Int
  maxNumSeqs : Int
  maxModelLen : Int
  chunkedPrefillEnabled : Bool
  priorityPolicy : Bool
  preemptionMode : Option PreemptionMode
  delayFactor : Rat
  maxNumPartialPrefills : Nat
  maxLongPartialPrefills : Int
  longPrefillTokenThreshold : Int
  numLookaheadSlots : Nat

/-- `SchedulingBudget`. -/
structure SchedulingBudget where
  tokenBudget : Int
  maxNumSeqs : Int
  requestIdsNumBatchedTokens : List RequestId
  requestIdsNumCurrSeqs : List RequestId
  numCachedTokens : Int
  numBatchedTokens : Int
  numCurrSeqs : Int
deriving DecidableEq

namespace SchedulingBudget

def init (tokenBudget maxNumSeqs : Int) : SchedulingBudget := ⟨tokenBudget, maxNumSeqs, [], [], 0, 0, 0⟩

/-- `can_schedule`, which asserts on its arguments. -/
def canSchedule (b : SchedulingBudget) (numNewTokens numNewSeqs : Int) : Option Bool :=
  if numNewTokens ≥ 0 ∧ numNewSeqs ≠ 0 then
    some (decide (b.numBatchedTokens + numNewTokens ≤ b.tokenBudget ∧
      b.numCurrSeqs + numNewSeqs ≤ b.maxNumSeqs))
  else none

def remainingTokenBudget (b : SchedulingBudget) : Int := b.tokenBudget - b.numBatchedTokens

def addNumBatchedTokens (b : SchedulingBudget) (reqId : RequestId)
    (numBatchedTokens numCachedTokens : Int) : Option SchedulingBudget :=
  if reqId ∈ b.requestIdsNumBatchedTokens then some b
  else if numCachedTokens ≥ 0 ∧ numBatchedTokens ≥ 0 then
    some { b with
      requestIdsNumBatchedTokens := reqId :: b.requestIdsNumBatchedTokens
      numBatchedTokens := b.numBatchedTokens + numBatchedTokens
      numCachedTokens := b.numCachedTokens + numCachedTokens }
  else none

def subtractNumBatchedTokens (b : SchedulingBudget) (reqId : RequestId) (numBatchedTokens : Int) :
    SchedulingBudget :=
  if reqId ∈ b.requestIdsNumBatchedTokens then
    { b with
      requestIdsNumBatchedTokens := b.requestIdsNumBatchedTokens.erase reqId
      numBatchedTokens := b.numBatchedTokens - numBatchedTokens }
  else b

def addNumSeqs (b : SchedulingBudget) (reqId : RequestId) (numCurrSeqs : Int) : SchedulingBudget :=
  if reqId ∈ b.requestIdsNumCurrSeqs then b
  else
    { b with
      requestIdsNumCurrSeqs := reqId :: b.requestIdsNumCurrSeqs
      numCurrSeqs := b.numCurrSeqs + numCurrSeqs }

def subtractNumSeqs (b : SchedulingBudget) (reqId : RequestId) (numCurrSeqs : Int) :
    SchedulingBudget :=
  if reqId ∈ b.requestIdsNumCurrSeqs then
    { b with
      requestIdsNumCurrSeqs := b.requestIdsNumCurrSeqs.erase reqId
      numCurrSeqs := b.numCurrSeqs - numCurrSeqs }
  else b

end SchedulingBudget

/-- `PartialPrefillMetadata`. -/
structure PartialPrefillMetadata where
  schedulablePrefills : Nat
  longPrefills : Int
deriving DecidableEq

/-- `ScheduledSequenceGroup`. -/
structure ScheduledSequenceGroup where
  seqId : SeqId
  tokenChunkSize : Int
deriving DecidableEq

/-- `SchedulerRunningOutputs`. -/
structure SchedulerRunningOutputs where
  decodeSeqGroups : List ScheduledSequenceGroup
  prefillSeqGroups : List ScheduledSequenceGroup
  preempted : List SeqId
  swappedOut : List SeqId
  blocksToSwapOut : List SwapPair
  blocksToCopy : List (BlockId × BlockId)
deriving DecidableEq

def SchedulerRunningOutputs.empty : SchedulerRunningOutputs := ⟨[], [], [], [], [], []⟩

/-- `SchedulerPrefillOutputs`. -/
structure SchedulerPrefillOutputs where
  seqGroups : List ScheduledSequenceGroup
  ignoredSeqGroups : List SeqId
  blocksToSwapIn : List SwapPair
deriving DecidableEq

def SchedulerPrefillOutputs.empty : SchedulerPrefillOutputs := ⟨[], [], []⟩

/-- `SchedulerOutputs`. -/
structure SchedulerOutputs where
  scheduledSeqGroups : List ScheduledSequenceGroup
  numPrefillGroups : Nat
  numBatchedTokens : Int
  blocksToSwapIn : List SwapPair
  blocksToSwapOut : List SwapPair
  blocksToCopy : List (BlockId × BlockId)
  ignoredSeqGroups : List SeqId
deriving DecidableEq

/-- The part of `SequenceGroupMetadata` that depends on the scheduler. -/
structure SequenceGroupMetadata where
  seqId : SeqId
  tokenChunkSize : Int
  isPrompt : Bool
  doSample : Bool
  blockTable : List BlockId
  computedBlockNums : List BlockId
deriving DecidableEq

/-- `Scheduler`. -/
structure Scheduler where
  blockManager : BlockSpaceManager
  groups : Dict SeqId SequenceGroup
  waiting : List SeqId
  running : List SeqId
  swapped : List SeqId
  asyncStopped : List SeqId
  pendingFinishedSwapOut : List SwapPair
  finishedSeqsPendingSwapOut : List SeqId
  prevTime : Int
  prevPrompt : Bool
  lastPromptLatency : Int
  budget : SchedulingBudget
  partialPrefillMetadata : Option PartialPrefillMetadata
  clock : List Int
deriving DecidableEq

/-- `Scheduler.__init__`. -/
def Scheduler.init (p : SchedulerParams) : Scheduler where
  blockManager := .init p.toManagerParams
  groups := Dict.empty
  waiting := []
  running := []
  swapped := []
  asyncStopped := []
  pendingFinishedSwapOut := []
  finishedSeqsPendingSwapOut := []
  prevTime := 0
  prevPrompt := false
  lastPromptLatency := 0
  budget := .init p.maxNumBatchedTokens p.maxNumSeqs
  partialPrefillMetadata := none
  clock := []

/-- The body of a method of the scheduler. -/
abbrev SchedM (α : Type) := Prog Scheduler α

namespace SchedM

/-- Run a method of the block manager. -/
def onManager {α : Type} (x : ManagerM α) : SchedM α :=
  Prog.zoom (·.blockManager) (fun s m => { s with blockManager := m }) x

def getGroup (seqId : SeqId) : SchedM SequenceGroup := do
  let s ← Prog.read
  Prog.ofOption (s.groups.get? seqId)

/-- Change a group; its `seqId` is its place in `groups`. -/
def setGroup (seqId : SeqId) (g : SequenceGroup) : SchedM Unit :=
  Prog.update fun s => { s with groups := s.groups.set seqId g }

def setStatus (seqId : SeqId) (status : SequenceStatus) : SchedM Unit := do
  let g ← getGroup seqId
  setGroup seqId { g with status := status }

/-- `time.time()`. -/
def time : SchedM Int := do
  let s ← Prog.read
  match s.clock with
  | [] => Prog.raise
  | now :: clock => do
    Prog.update fun s => { s with clock := clock }
    pure now

def modifyBudget (f : SchedulingBudget → SchedulingBudget) : SchedM Unit :=
  Prog.update fun s => { s with budget := f s.budget }

end SchedM

end CoreFlow
