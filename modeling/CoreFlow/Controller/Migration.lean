import CoreFlow.Controller.Route
import CoreFlow.Dag.Basic
import CoreFlow.Scheduler.Release

/-!
# Outgrown requests

A node is dispatched to an instance, which generates its tokens, decides whether to retain the cache,
and reports the completion; the controller decides from the report whether the cache is to be migrated.
The instance compares the length of the sequence with the upper bound of its range, the controller the
token counts that were forwarded with the node.
-/

namespace CoreFlow

/-! ## The request and its report -/

/-- `GenerateRequest`, as the controller posts it. -/
structure GenerateRequest where
  queryId : Option Int
  invocationId : Option Int
  agentId : Option AgentId
  inputTokens : List TokenId
  outputTokens : List TokenId
  cachedTokens : Int
  keepCacheInGpu : Bool
  freeCache : Bool
  repeatId : Int
  numInputTokens : Option Int
  numOutputTokens : Option Int
deriving DecidableEq

/-- `node_dict` of `_dispatch_node_async`: `cached_tokens` is left out, and takes its default. -/
def Node.generateRequest (node : Node) (queryId : Int) : GenerateRequest where
  queryId := some queryId
  invocationId := some node.invocationId
  agentId := some node.agentId
  inputTokens := node.inputTokens
  outputTokens := node.outputTokens
  cachedTokens := 0
  keepCacheInGpu := node.keepCacheInGpu
  freeCache := node.freeCache
  repeatId := node.repeatId
  numInputTokens := some node.numInputTokens
  numOutputTokens := some node.numOutputTokens

/-- The globals of an instance server. -/
structure InstanceServer where
  instanceId : Option InstanceId
  contextRange : Option ContextRange
  eosTokenId : Option TokenId
deriving DecidableEq

/-- `str` of an optional integer. -/
def optionalStr : Option Int → String
  | none => "None"
  | some n => toString n

namespace GenerateRequest

/-- `input_tokens or [eos_token_id or 0]`. -/
def prompt (req : GenerateRequest) (server : InstanceServer) : List TokenId :=
  if req.inputTokens = [] then [server.eosTokenId.getD 0] else req.inputTokens

/-- The `cached_tokens` of the sampling parameters; `none` when the request is rejected. -/
def clampedCachedTokens (req : GenerateRequest) : Option Int :=
  if req.cachedTokens < 0 ∨ req.cachedTokens > req.inputTokens.length then none
  else some (min req.cachedTokens (max ((req.inputTokens.length : Int) - 1) 0))

def maxTokens (req : GenerateRequest) : Nat := max req.outputTokens.length 1

def requestId (req : GenerateRequest) : RequestId :=
  "q" ++ optionalStr req.queryId ++ "_i" ++ optionalStr req.invocationId ++ "_r" ++ toString req.repeatId

/-- The group that the engine makes of a request. -/
def group (req : GenerateRequest) (server : InstanceServer) (seqId : SeqId) (arrivalTime : Int) : Option SequenceGroup :=
  req.clampedCachedTokens.map fun cachedTokens =>
    SequenceGroup.init req.requestId seqId (req.prompt server)
      (some {
        queryId := some req.queryId
        invocationId := req.invocationId
        cachedTokens := cachedTokens
        keepCacheInGpu := req.keepCacheInGpu
        freeCache := req.freeCache
        contextRange := server.contextRange }) 0 arrivalTime

/-- `token_match`. -/
def tokenMatch (req : GenerateRequest) (generated : List TokenId) : Bool :=
  if req.outputTokens = [] then true else decide (generated.take req.outputTokens.length = req.outputTokens)

end GenerateRequest

/-- The part of the `/node_complete` message that `maybe_migrate_request` is called with. -/
structure CompletionReport where
  instanceId : Option InstanceId
  queryId : Option Int
  invocationId : Option Int
  keepCacheInGpu : Bool
  freeCache : Bool
  numInputTokens : Option Int
  numOutputTokens : Option Int
  inputTokenIds : List TokenId
  outputTokenIds : List TokenId
  success : Bool
deriving DecidableEq

/-- `count or len(tokens)`. -/
def countOrLength (count : Option Int) (tokens : List TokenId) : Int :=
  match count with
  | none => tokens.length
  | some n => if n = 0 then tokens.length else n

/-- The message that `generate` posts when the engine has returned `generated`. -/
def GenerateRequest.report (req : GenerateRequest) (server : InstanceServer) (generated : List TokenId) :
    CompletionReport where
  instanceId := server.instanceId
  queryId := req.queryId
  invocationId := req.invocationId
  keepCacheInGpu := req.keepCacheInGpu
  freeCache := req.freeCache
  numInputTokens := some (countOrLength req.numInputTokens req.inputTokens)
  numOutputTokens := some (countOrLength req.numOutputTokens req.outputTokens)
  inputTokenIds := req.inputTokens
  outputTokenIds := generated
  success := req.tokenMatch generated

/-! ## Migration -/

namespace CompletionReport

/-- `total_length`. -/
def totalLength (report : CompletionReport) : Int :=
  match report.numInputTokens, report.numOutputTokens with
  | some numInputTokens, some numOutputTokens => numInputTokens + numOutputTokens
  | _, _ => report.inputTokenIds.length + report.outputTokenIds.length

/-- The context range of the source, when the report names a registered instance that has one. -/
def sourceRange (report : CompletionReport) (im : InstanceManager) : Option ContextRange :=
  match report.instanceId with
  | none => none
  | some id => if id = "" then none else (im.instances.get? id).bind (·.contextRange)

/-- The length test of `maybe_migrate_request`. -/
def passesLengthTest (report : CompletionReport) (im : InstanceManager) : Bool :=
  (report.sourceRange im).any fun r => decide (report.totalLength ≥ r.2)

end CompletionReport

/-- What is posted to `/migrate_cache`. -/
structure MigratePayload where
  queryId : Option Int
  invocationId : Option Int
  requestId : RequestId
  inputTokens : List TokenId
  outputTokens : List TokenId
  keepCacheInGpu : Bool
deriving DecidableEq

/-- What `/migrate_cache` answers. -/
structure MigrateResult where
  success : Bool
  device : Option String
deriving DecidableEq

structure Migration where
  sourceInstanceId : Option InstanceId
  targetInstanceId : InstanceId
  device : Option String
deriving DecidableEq

def CompletionReport.migratePayload (report : CompletionReport) : MigratePayload where
  queryId := report.queryId
  invocationId := report.invocationId
  requestId := "q" ++ optionalStr report.queryId ++ "_i" ++ optionalStr report.invocationId ++ "_r0_migrated"
  inputTokens := report.inputTokenIds
  outputTokens := report.outputTokenIds
  keepCacheInGpu := report.keepCacheInGpu

namespace AgentScheduler

/-- The candidates whose state is known, with their states. -/
def available (s : AgentScheduler) (candidates : List InstanceInfo) : List Fetched :=
  candidates.filterMap fun info => (s.instanceCacheStates.get? info.instanceId).map fun state => (info, state)

/-- Post the cache to the candidate of the least score. -/
def migrateTo (s : AgentScheduler) (post : InstanceInfo → MigratePayload → Option MigrateResult)
    (candidates : List InstanceInfo) (report : CompletionReport) : Option Migration × AgentScheduler :=
  match leastScore (s.available candidates) with
  | none => (none, s)
  | some target =>
    match post target.1 report.migratePayload with
    | none => (none, s)
    | some result =>
      if result.success then
        (some ⟨report.instanceId, target.1.instanceId, result.device⟩,
          { s with instanceCacheStates := s.instanceCacheStates.erase target.1.instanceId })
      else (none, s)

/-- `maybe_migrate_request`; the answer is `none` when a lookup of the registry raises. -/
def maybeMigrateRequest (s : AgentScheduler) (im : InstanceManager) (fetch : InstanceInfo → Option CacheState)
    (post : InstanceInfo → MigratePayload → Option MigrateResult) (report : CompletionReport) :
    Option (Option Migration) × AgentScheduler :=
  if report.passesLengthTest im then
    match im.findContextSlot s.agentId report.totalLength with
    | none => (none, s)
    | some none => (some none, s)
    | some (some slot) =>
      match im.getInstancesForContext s.agentId slot with
      | none => (none, s)
      | some infos =>
        let candidates := infos.filter fun info => report.instanceId ≠ some info.instanceId
        let missing := candidates.filter fun info => info.instanceId ∉ s.instanceCacheStates
        let (migration, s) := (s.recordStates (missing.map fun info => (info, fetch info))).migrateTo post candidates report
        (some migration, s)
  else (some none, s)

end AgentScheduler

/-! ## Agreement -/

/-- The instance frees the cache that it was asked to keep, because the sequence reached the upper bound. -/
def refusesRetention (g : SequenceGroup) : Bool :=
  !SchedM.shouldFreeCache g && SchedM.shouldKeepCacheInGpu g && SchedM.requestExceedsContextRange g

namespace Node

/-- The length of the node's sequence when it is finished. -/
def sequenceLength (node : Node) : Int := (max node.inputTokens.length 1 + max node.outputTokens.length 1 : Nat)

/-- The length that the forwarded counts give. -/
def forwardedLength (node : Node) : Int :=
  countOrLength (some node.numInputTokens) node.inputTokens + countOrLength (some node.numOutputTokens) node.outputTokens

end Node

/-- The engine ran the request: it generated something, and stopped at `max_tokens`. -/
def GenerateRequest.Generates (req : GenerateRequest) (generated : List TokenId) : Prop :=
  generated ≠ [] ∧ generated.length ≤ req.maxTokens

theorem GenerateRequest.length_generated {req : GenerateRequest} {generated : List TokenId}
    (ran : req.Generates generated) (hmatch : req.tokenMatch generated = true) : generated.length = req.maxTokens := by
  obtain ⟨hne, hle⟩ := ran
  have hpos : 0 < generated.length := List.length_pos_iff.mpr hne
  unfold maxTokens at hle ⊢
  unfold tokenMatch at hmatch
  split at hmatch
  · rename_i hnil
    simp only [hnil, List.length_nil] at hle ⊢
    omega
  · have hlen := congrArg List.length (of_decide_eq_true hmatch)
    rw [List.length_take] at hlen
    omega

/-- The instance is registered with the range that it was started with. -/
def InstanceServer.RegisteredWith (server : InstanceServer) (im : InstanceManager) (r : ContextRange) : Prop :=
  server.contextRange = some r ∧ ∃ id info, server.instanceId = some id ∧ id ≠ "" ∧
    im.instances.get? id = some info ∧ info.contextRange = some r

/-- The finished group of a request: what the engine generated is appended to it. -/
structure SequenceGroup.FinishedAs (g₀ g : SequenceGroup) (generated : List TokenId) : Prop where
  prompt : g.promptTokenIds = g₀.promptTokenIds
  output : g.outputTokenIds = generated
  args : g.extraArgs = g₀.extraArgs

section
variable {node : Node} {queryId : Int} {server : InstanceServer} {im : InstanceManager} {r : ContextRange}
  {generated : List TokenId} {g₀ g : SequenceGroup} {seqId : SeqId} {arrivalTime : Int}

theorem refusesRetention_iff (hfree : node.freeCache = false) (hkeep : node.keepCacheInGpu = true)
    (hrange : server.contextRange = some r)
    (dispatched : (node.generateRequest queryId).group server seqId arrivalTime = some g₀)
    (finished : g₀.FinishedAs g generated) (ran : (node.generateRequest queryId).Generates generated)
    (hmatch : (node.generateRequest queryId).tokenMatch generated = true) :
    refusesRetention g = true ↔ node.sequenceLength ≥ r.2 := by
  obtain ⟨cached, -, rfl⟩ := Option.map_eq_some_iff.mp dispatched
  have hlen : g.getLen = node.sequenceLength := by
    have hprompt : ((node.generateRequest queryId).prompt server).length = max node.inputTokens.length 1 := by
      unfold GenerateRequest.prompt
      split
      · rename_i hnil
        rw [show node.inputTokens = [] from hnil]
        rfl
      · rename_i hne
        exact (max_eq_left (List.length_pos_iff.mpr hne)).symm
    have hout := GenerateRequest.length_generated ran hmatch
    rw [SequenceGroup.getLen, SequenceGroup.getTokenIds, finished.prompt, finished.output, List.length_append]
    show ((((node.generateRequest queryId).prompt server).length + generated.length : Nat) : Int) = _
    rw [hprompt, hout]
    rfl
  have hargs := finished.args
  simp only [SequenceGroup.init] at hargs
  simp [refusesRetention, SchedM.shouldFreeCache, SchedM.shouldKeepCacheInGpu, SchedM.requestExceedsContextRange,
    hargs, hrange, hlen, Node.generateRequest, hfree, hkeep]

theorem passesLengthTest_iff (registered : server.RegisteredWith im r) :
    ((node.generateRequest queryId).report server generated).passesLengthTest im = true ↔
      node.forwardedLength ≥ r.2 := by
  obtain ⟨-, id, info, hid, hne, hget, hrange⟩ := registered
  have source : ((node.generateRequest queryId).report server generated).sourceRange im = some r := by
    simp [CompletionReport.sourceRange, GenerateRequest.report, hid, hne, hget, hrange]
  rw [CompletionReport.passesLengthTest, source]
  exact decide_eq_true_iff

end

/-- The instance and the controller agree on an outgrown request exactly when the upper bound of the
range is not between the length of the sequence and the length that the forwarded counts give. -/
theorem outgrown_agrees_iff (node : Node) (queryId : Int) (server : InstanceServer) (im : InstanceManager)
    (r : ContextRange) (generated : List TokenId) (g₀ g : SequenceGroup) (seqId : SeqId) (arrivalTime : Int)
    (hfree : node.freeCache = false) (hkeep : node.keepCacheInGpu = true) (registered : server.RegisteredWith im r)
    (dispatched : (node.generateRequest queryId).group server seqId arrivalTime = some g₀)
    (finished : g₀.FinishedAs g generated) (ran : (node.generateRequest queryId).Generates generated)
    (success : ((node.generateRequest queryId).report server generated).success = true) :
    (refusesRetention g = true ↔ ((node.generateRequest queryId).report server generated).passesLengthTest im = true) ↔
      ¬ (node.forwardedLength < r.2 ∧ r.2 ≤ node.sequenceLength) ∧
      ¬ (node.sequenceLength < r.2 ∧ r.2 ≤ node.forwardedLength) := by
  rw [refusesRetention_iff hfree hkeep registered.1 dispatched finished ran success, passesLengthTest_iff registered]
  omega

/-- A node of four new and four cached input tokens and the given output, as it is expanded. -/
def reusingNode (output : List TokenId) : Node where
  agentId := "a"
  invocationId := 1
  repeatId := 1
  status := .executing
  inputTokens := [1, 2, 3, 4, 5, 6, 7, 8]
  outputTokens := output
  cachedTokens := 4
  numInputTokens := 4
  numOutputTokens := output.length
  keepCacheInGpu := true
  freeCache := false

def shortRangeServer : InstanceServer := ⟨some "a-0-8-0", some (0, 8), none⟩

def shortRangeManager : InstanceManager :=
  InstanceManager.init.register "a-0-8-0" "a" "10.0.0.1" none (some (0, 8)) 1

theorem shortRange_registered : shortRangeServer.RegisteredWith shortRangeManager (0, 8) :=
  ⟨rfl, "a-0-8-0", ⟨"a-0-8-0", "a", "10.0.0.1", 8000, some (0, 8), 1, .starting⟩, rfl, by decide, by decide, rfl⟩

/-- The finished group of the node. -/
def reusingGroup (output : List TokenId) : SequenceGroup where
  requestId := "q0_i1_r1"
  seqId := 0
  promptTokenIds := [1, 2, 3, 4, 5, 6, 7, 8]
  outputTokenIds := output
  numComputedTokens := 8
  stage := .decode
  status := .finishedLengthCapped
  extraArgs := some ⟨some (some 0), some 1, 0, true, false, some (0, 8)⟩
  priority := 0
  arrivalTime := 0

theorem outgrown_agrees_iff_long : refusesRetention (reusingGroup [9, 9, 9, 9]) = true ↔
    (((reusingNode [9, 9, 9, 9]).generateRequest 0).report shortRangeServer [9, 9, 9, 9]).passesLengthTest
      shortRangeManager = true :=
  (outgrown_agrees_iff (reusingNode [9, 9, 9, 9]) 0 shortRangeServer shortRangeManager (0, 8) [9, 9, 9, 9]
    _ (reusingGroup [9, 9, 9, 9]) 0 0 rfl rfl shortRange_registered rfl ⟨rfl, rfl, by decide⟩
    ⟨by decide, by decide⟩ (by decide)).mpr (by decide)

/-- With one output token the instance frees the cache, and the controller sees a length of five. -/
theorem outgrown_dropped : refusesRetention (reusingGroup [9]) = true ∧
    (((reusingNode [9]).generateRequest 0).report shortRangeServer [9]).passesLengthTest shortRangeManager = false := by
  decide

end CoreFlow
