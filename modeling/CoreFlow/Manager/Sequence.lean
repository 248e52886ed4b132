import CoreFlow.Block.Basic

/-!
# Sequences and sequence groups

Every group holds one sequence of a decoder-only model, and the sequence id names the group. Token
counts are integers, as the scheduler subtracts them before it compares them.
-/

namespace CoreFlow

abbrev SeqId := Nat
abbrev RequestId := String

inductive SequenceStatus where
  | waiting
  | running
  | swapped
  | finishedStopped
  | finishedLengthCapped
  | finishedAborted
  | finishedIgnored
deriving DecidableEq, Repr

/-- `SequenceStatus.is_finished`. -/
def SequenceStatus.isFinished : SequenceStatus → Bool
  | .waiting | .running | .swapped => false
  | _ => true

inductive SequenceStage where
  | prefill
  | decode
deriving DecidableEq, Repr

/-- The `extra_args` that the scheduler and the block manager read. A missing `query_id` (`none`)
differs from an explicit `None` (`some none`) when queues are sorted. -/
structure ExtraArgs where
  queryId : Option (Option Int)
  invocationId : Option Int
  cachedTokens : Int
  keepCacheInGpu : Bool
  freeCache : Bool
  contextRange : Option (Int × Int)
deriving DecidableEq

/-- `SequenceGroup`, with its `Sequence` and `SequenceData`. -/
structure SequenceGroup where
  requestId : RequestId
  seqId : SeqId
  promptTokenIds : List TokenId
  outputTokenIds : List TokenId
  numComputedTokens : Int
  stage : SequenceStage
  status : SequenceStatus
  extraArgs : Option ExtraArgs
  priority : Int
  arrivalTime : Int
deriving DecidableEq

namespace SequenceGroup

/-- A new request. -/
def init (requestId : RequestId) (seqId : SeqId) (promptTokenIds : List TokenId)
    (extraArgs : Option ExtraArgs) (priority arrivalTime : Int) : SequenceGroup where
  requestId := requestId
  seqId := seqId
  promptTokenIds := promptTokenIds
  outputTokenIds := []
  numComputedTokens := 0
  stage := .prefill
  status := .waiting
  extraArgs := extraArgs
  priority := priority
  arrivalTime := arrivalTime

def getTokenIds (g : SequenceGroup) : List TokenId := g.promptTokenIds ++ g.outputTokenIds

def getPromptLen (g : SequenceGroup) : Int := g.promptTokenIds.length

def getLen (g : SequenceGroup) : Int := g.getTokenIds.length

def isPrefill (g : SequenceGroup) : Bool := g.stage = .prefill

def isFinished (g : SequenceGroup) : Bool := g.status.isFinished

def getNumUncomputedTokens (g : SequenceGroup) : Int := g.getLen - g.numComputedTokens

/-- `get_num_new_tokens`. -/
def getNumNewTokens (g : SequenceGroup) : Int :=
  if g.stage = .decode then 1 else g.getNumUncomputedTokens

/-- `get_max_num_running_seqs`. -/
def getMaxNumRunningSeqs (g : SequenceGroup) : Int := if g.isFinished then 0 else 1

/-- `SequenceData.update_num_computed_tokens`. -/
def updateNumComputedTokens (g : SequenceGroup) (numNewComputedTokens : Int) : Option SequenceGroup :=
  let n := g.numComputedTokens + numNewComputedTokens
  if n ≤ g.getLen then
    some { g with
      numComputedTokens := n
      stage := if g.getLen - n = 0 then .decode else g.stage }
  else none

/-- `reset_state_for_recompute`. -/
def resetStateForRecompute (g : SequenceGroup) : SequenceGroup :=
  { g with numComputedTokens := 0, stage := .prefill }

def appendTokenId (g : SequenceGroup) (tokenId : TokenId) : SequenceGroup :=
  { g with outputTokenIds := g.outputTokenIds ++ [tokenId] }

/-- The `(query_id, invocation_id)` of a group, when both are given. -/
def cacheKey (g : SequenceGroup) : Option (Int × Int) :=
  match g.extraArgs with
  | none => none
  | some args =>
    match args.queryId, args.invocationId with
    | some (some q), some i => some (q, i)
    | _, _ => none

end SequenceGroup

end CoreFlow
