import CoreFlow.Scheduler.Schedule

/-!
# The engine of an instance

Requests arrive, are aborted, are scheduled and have their outputs processed, in a synchronous
engine: a batch is processed before the next one is scheduled, and requests, aborts and migrated
caches can come at any point between. `outputs` is a ghost: the `SchedulerOutputs` handed to the
worker so far.
-/

namespace CoreFlow

/-- `LLMEngine`, with the batch whose outputs have not been processed. -/
structure Engine where
  scheduler : Scheduler
  seqCounter : Nat
  batch : Option (List SequenceGroupMetadata)
  outputs : List SchedulerOutputs
deriving DecidableEq

def Engine.init (p : SchedulerParams) : Engine := ⟨.init p, 0, none, []⟩

/-- What the model and the stop checker decide for a sampled group. `freed` tells whether the output
processor has freed the sequence when it finished. -/
structure SampleOutput where
  token : TokenId
  finish : Option SequenceStatus
  freed : Bool
deriving DecidableEq

abbrev EngineM (α : Type) := Prog Engine α

namespace EngineM
variable (p : SchedulerParams)

def onScheduler {α : Type} (x : SchedM α) : EngineM α :=
  Prog.zoom (·.scheduler) (fun e s => { e with scheduler := s }) x

/-- The readings of the clock during the coming call. -/
def setClock (clock : List Int) : EngineM Unit :=
  onScheduler (Prog.update fun s => { s with clock := clock })

/-- `next(seq_counter)`. -/
def nextSeqId : EngineM SeqId := do
  let e ← Prog.read
  Prog.update fun e => { e with seqCounter := e.seqCounter + 1 }
  pure e.seqCounter

/-- `add_request`: a new group is appended to the waiting queue. -/
def addSeqGroup (requestId : RequestId) (promptTokenIds : List TokenId)
    (extraArgs : Option ExtraArgs) (priority arrivalTime : Int) : EngineM Unit := do
  let seqId ← nextSeqId
  onScheduler do
    SchedM.setGroup seqId (.init requestId seqId promptTokenIds extraArgs priority arrivalTime)
    Prog.update fun s => { s with waiting := s.waiting ++ [seqId] }

/-- `abort_request`. -/
def abortSeqGroup (requestIds : List RequestId) : EngineM Unit :=
  onScheduler (SchedM.abortSeqGroup p requestIds)

/-- The first half of `step`: `schedule`, and the execution of its outputs. -/
def schedule (clock : List Int) : EngineM Unit := do
  let e ← Prog.read
  Prog.require (e.batch = none)
  setClock clock
  let (metadata, outputs) ← onScheduler (SchedM.schedule p none)
  Prog.update fun e => { e with batch := some metadata, outputs := e.outputs ++ [outputs] }

/-- The round of `_process_model_outputs` for one group; the result says whether it finished now. -/
def processGroup (m : SequenceGroupMetadata) (o : SampleOutput) : SchedM Bool := do
  let g ← SchedM.getGroup m.seqId
  if g.isFinished then pure false
  else do
    let g ← Prog.ofOption (g.updateNumComputedTokens m.tokenChunkSize)
    SchedM.setGroup m.seqId g
    if m.doSample = false then pure false
    else do
      let g := g.appendTokenId o.token
      SchedM.setGroup m.seqId g
      match o.finish with
      | none => pure false
      | some status => do
        Prog.require (status.isFinished = true)
        SchedM.setGroup m.seqId { g with status := status }
        Prog.when (o.freed = true) (SchedM.freeSeq p m.seqId)
        pure true

/-- `_process_model_outputs`. -/
def processModelOutputs (samples : List SampleOutput) (clock : List Int) : EngineM Unit := do
  let e ← Prog.read
  let metadata ← Prog.ofOption e.batch
  Prog.require (samples.length = metadata.length)
  setClock clock
  let finishedNow ← onScheduler
    (Prog.mapM (fun x : SequenceGroupMetadata × SampleOutput => processGroup p x.1 x.2)
      (metadata.zip samples))
  Prog.when (finishedNow.any id = true) (onScheduler (SchedM.freeFinishedSeqGroups p))
  Prog.update fun e => { e with batch := none }

/-- `_register_migrated_gpu_cache`: the group is not added to the scheduler. -/
def registerMigratedGpuCache (tokenIds : List TokenId) (queryId invocationId : Int)
    (requestId : RequestId) (arrivalTime : Int) : EngineM Bool := do
  let seqId ← nextSeqId
  let extraArgs : ExtraArgs := ⟨some (some queryId), some invocationId, 0, true, false, none⟩
  let g := SequenceGroup.init requestId seqId tokenIds (some extraArgs) 0 arrivalTime
  let e ← Prog.read
  match ← Prog.ofOption (e.scheduler.blockManager.canAllocate p.toManagerParams g 0) with
  | .ok => do
    let pairs ← onScheduler (SchedM.onManager (ManagerM.allocate p.toManagerParams g))
    onScheduler (SchedM.onManager (ManagerM.leaveUnused pairs))
    onScheduler (SchedM.onManager
      (ManagerM.retainBlocks p.toManagerParams { g with status := .finishedStopped }))
    pure true
  | _ => pure false

/-- `/migrate_cache`, with its two token lists joined. -/
def migrateCache (tokenIds : List TokenId) (queryId invocationId : Int) (requestId : RequestId)
    (keepCacheInGpu : Bool) (arrivalTime now : Int) : EngineM Unit :=
  if tokenIds = [] then pure ()
  else do
    let registered ← (if keepCacheInGpu then
        registerMigratedGpuCache p tokenIds queryId invocationId requestId arrivalTime
      else pure false)
    Prog.when (registered = false) do
      let _ ← onScheduler (SchedM.onManager
        (ManagerM.registerMigratedCpuCache p.toManagerParams tokenIds now))

end EngineM

/-- What can happen to an engine. -/
inductive EngineOp where
  | addSeqGroup (requestId : RequestId) (promptTokenIds : List TokenId)
      (extraArgs : Option ExtraArgs) (priority arrivalTime : Int)
  | abortSeqGroup (requestIds : List RequestId)
  | schedule (clock : List Int)
  | processModelOutputs (samples : List SampleOutput) (clock : List Int)
  | migrateCache (tokenIds : List TokenId) (queryId invocationId : Int) (requestId : RequestId)
      (keepCacheInGpu : Bool) (arrivalTime now : Int)
deriving DecidableEq

namespace Engine
variable (p : SchedulerParams)

/-- The program of an operation. -/
def perform : EngineOp → EngineM Unit
  | .addSeqGroup requestId promptTokenIds extraArgs priority arrivalTime =>
    EngineM.addSeqGroup requestId promptTokenIds extraArgs priority arrivalTime
  | .abortSeqGroup requestIds => EngineM.abortSeqGroup p requestIds
  | .schedule clock => EngineM.schedule p clock
  | .processModelOutputs samples clock => EngineM.processModelOutputs p samples clock
  | .migrateCache tokenIds queryId invocationId requestId keep arrivalTime now =>
    EngineM.migrateCache p tokenIds queryId invocationId requestId keep arrivalTime now

/-- The state after a run, if no operation raised. -/
def run (e : Engine) (ops : List EngineOp) : Option Engine :=
  ops.foldlM (fun e op => (perform p op e).map (·.2)) e

variable {p} {e e' : Engine}

theorem run_nil_iff : run p e [] = some e' ↔ e' = e := by
  show some e = some e' ↔ _
  rw [Option.some.injEq, eq_comm]

theorem run_cons_iff {op : EngineOp} {ops : List EngineOp} :
    run p e (op :: ops) = some e' ↔ ∃ e₁, perform p op e = some ((), e₁) ∧ run p e₁ ops = some e' := by
  rw [run, List.foldlM_cons]
  show ((perform p op e).map (·.2)).bind _ = _ ↔ _
  cases perform p op e with
  | none => simp
  | some x =>
    constructor
    · intro h
      exact ⟨x.2, rfl, h⟩
    · rintro ⟨e₁, h₁, h⟩
      cases h₁
      exact h

/-- What every operation keeps holds after every run. -/
theorem run_invariant (I : Engine → Prop)
    (step : ∀ op e e', I e → perform p op e = some ((), e') → I e') {ops : List EngineOp}
    (h : run p e ops = some e') (h0 : I e) : I e' := by
  induction ops generalizing e with
  | nil => rw [run_nil_iff.mp h]; exact h0
  | cons op ops ih =>
    obtain ⟨e₁, h₁, h₂⟩ := run_cons_iff.mp h
    exact ih h₂ (step op e e₁ h0 h₁)

end Engine

/-! ## A small instance -/

/-- A hash that is easy to evaluate. -/
def smallSha (isFirstBlock : Bool) (prevBlockHash : Option PrefixHash) (tokenIds : List TokenId) :
    PrefixHash :=
  tokenIds.foldl (fun h t => h * 31 + t + 1) (if isFirstBlock then 7 else 1000 * prevBlockHash.getD 3)

/-- Blocks of two tokens, four on each device, with chunked prefills and swapping. -/
def smallParams : SchedulerParams where
  blockSize := 2
  pos := by decide
  sha := smallSha
  numTotalGpuBlocks := 4
  numTotalCpuBlocks := 4
  watermarkBlocks := 0
  maxNumBatchedTokens := 16
  maxNumSeqs := 4
  maxModelLen := 64
  chunkedPrefillEnabled := true
  priorityPolicy := false
  preemptionMode := some .swap
  delayFactor := 0
  maxNumPartialPrefills := 1
  maxLongPartialPrefills := 1
  longPrefillTokenThreshold := 0
  numLookaheadSlots := 0

end CoreFlow
