import CoreFlow.Block.Basic
import CoreFlow.Controller.Registry

/-!
# Routing

The scheduler of one agent asks every ready instance for its cache state and picks one of those that
answer. The instances are read from the registry before the states are fetched and the context range
after, so the two lookups may see different registries.
-/

namespace CoreFlow

/-- The `hash_blocks` of a cache state. -/
structure HashBlocks where
  gpu : Option (List PrefixHash)
  cpu : Option (List PrefixHash)
deriving DecidableEq

/-- What `/cache_state` answers. A field that is missing or null is `none`. -/
structure CacheState where
  blockSize : Option Int
  noneHash : Option PrefixHash
  activeRequests : Option Int
  gpuEntries : Option (List (Int × Int))
  hashBlocks : Option HashBlocks
deriving DecidableEq

/-- The `input_tokens` of a node. -/
inductive InputTokens where
  | tokens (tokenIds : List TokenId)
  | token (tokenId : TokenId)
  | other
deriving DecidableEq

/-- `_normalize_token_ids`. -/
def normalizeTokenIds : InputTokens → List TokenId
  | .tokens tokenIds => tokenIds
  | .token tokenId => [tokenId]
  | .other => []

/-- An instance and the state it answered with. -/
abbrev Fetched := InstanceInfo × CacheState

/-- `AsyncAgentScheduler`. -/
structure AgentScheduler where
  agentId : AgentId
  instanceCacheStates : Dict InstanceId CacheState
deriving DecidableEq

section
variable (sha : Bool → Option PrefixHash → List TokenId → PrefixHash)

/-- The loop of `_compute_request_block_hashes` over the slices of the token list. -/
def requestHashesLoop (blockSize : Int) (noneHash : PrefixHash) :
    List (List TokenId) → PrefixHash → List PrefixHash
  | [], _ => []
  | blockTokenIds :: rest, prevBlockHash =>
    if (blockTokenIds.length : Int) < blockSize then []
    else
      let blockHash := sha (prevBlockHash == noneHash) (some prevBlockHash) blockTokenIds
      blockHash :: requestHashesLoop blockSize noneHash rest blockHash

/-- `_compute_request_block_hashes`. -/
def computeRequestBlockHashes (tokenIds : List TokenId) (blockSize : Int) (noneHash : PrefixHash) :
    List PrefixHash :=
  requestHashesLoop sha blockSize noneHash (chunkList tokenIds blockSize.toNat) noneHash

namespace CacheState

/-- `gpu_hashes | cpu_hashes`. -/
def cachedHashes (state : CacheState) : List PrefixHash :=
  match state.hashBlocks with
  | none => []
  | some hashBlocks => hashBlocks.gpu.getD [] ++ hashBlocks.cpu.getD []

/-- `_count_hash_hits`. -/
def countHashHits (state : CacheState) (requestHashes : List PrefixHash) : Nat :=
  (requestHashes.takeWhile fun blockHash => decide (blockHash ∈ state.cachedHashes)).length

/-- `_instance_score`. -/
def score (state : CacheState) : Int := state.activeRequests.getD 0 + (state.gpuEntries.getD []).length

/-- `int(state.get("block_size") or 16)`. -/
def blockSizeOr16 (state : CacheState) : Int :=
  match state.blockSize with
  | none => 16
  | some blockSize => if blockSize = 0 then 16 else blockSize

/-- An exact GPU entry for the request key. -/
def hasEntry (state : CacheState) (queryId invocationId : Int) : Bool :=
  (state.gpuEntries.getD []).any fun entry => entry.1 == queryId && entry.2 == invocationId

/-- The prefix-cache hits of a request, for a state that carries a `none_hash`. -/
def hits (tokenIds : List TokenId) (state : CacheState) : Option Nat :=
  state.noneHash.map fun noneHash =>
    state.countHashHits (computeRequestBlockHashes sha tokenIds state.blockSizeOr16 noneHash)

end CacheState

/-- `min(items, key=lambda item: self._instance_score(item[1]))`: the first item of the least score. -/
def leastScore (items : List Fetched) : Option Fetched := items.minOn? fun item => item.2.score

/-- `scored`. -/
def scored (tokenIds : List TokenId) (cacheInfos : List Fetched) : List (Nat × Fetched) :=
  cacheInfos.filterMap fun item => (item.2.hits sha tokenIds).map fun hits => (hits, item)

/-- The items of `scored` that have `max_hits` hits. -/
def tied (scored : List (Nat × Fetched)) : List Fetched :=
  match (scored.map (·.1)).max? with
  | none => []
  | some maxHits => (scored.filter fun entry => entry.1 == maxHits).map (·.2)

/-- `context_ids`: the ready instances of the range of a request, empty when no slot is found. -/
def contextIdsFor (im : InstanceManager) (agentId : AgentId) (numInputTokens : Int) : Option (List InstanceId) :=
  match im.findContextSlot agentId numInputTokens with
  | none => none
  | some none => some []
  | some (some slot) => (im.getInstancesForContext agentId slot).map fun infos => infos.map (·.instanceId)

/-- The last step of `route`, when several instances are tied. -/
def breakTie (im : InstanceManager) (agentId : AgentId) (cacheInfos tied : List Fetched) (numInputTokens : Int) :
    Option (Option InstanceId) :=
  match contextIdsFor im agentId numInputTokens with
  | none => none
  | some contextIds =>
    -- the candidates come from all fetched states, not from the tied ones
    match leastScore (cacheInfos.filter fun item => decide (item.1.instanceId ∈ contextIds)) with
    | some best => some (some best.1.instanceId)
    | none => some ((leastScore tied).map (·.1.instanceId))

/-- The part of `route` that chooses among the fetched states. -/
def choose (im : InstanceManager) (agentId : AgentId) (cacheInfos : List Fetched) (queryId invocationId : Int)
    (inputTokens : InputTokens) (numInputTokens : Int) : Option (Option InstanceId) :=
  match leastScore (cacheInfos.filter fun item => item.2.hasEntry queryId invocationId) with
  | some best => some (some best.1.instanceId)
  | none =>
    match tied (scored sha (normalizeTokenIds inputTokens) cacheInfos) with
    | [] => some none
    | [item] => some (some item.1.instanceId)
    | tied => breakTie im agentId cacheInfos tied numInputTokens

namespace AgentScheduler

/-- Record the fetched states in `_instance_cache_states`. -/
def recordStates (s : AgentScheduler) (results : List (InstanceInfo × Option CacheState)) : AgentScheduler :=
  { s with
    instanceCacheStates := results.foldl (fun states result =>
      match result.2 with
      | none => states
      | some state => states.set result.1.instanceId state) s.instanceCacheStates }

/-- `cache_infos`. -/
def cacheInfos (fetch : InstanceInfo → Option CacheState) (infos : List InstanceInfo) : List Fetched :=
  infos.filterMap fun info => (fetch info).map fun state => (info, state)

/-- `route`, with the registry before and after the states are fetched. The answer is `none` when a
lookup of the registry raises, and otherwise what `route` returns. -/
def route (s : AgentScheduler) (im im' : InstanceManager) (fetch : InstanceInfo → Option CacheState)
    (queryId invocationId : Int) (inputTokens : InputTokens) (numInputTokens : Int) :
    Option (Option InstanceId) × AgentScheduler :=
  match im.getInstancesForAgent s.agentId with
  | none => (none, s)
  | some infos =>
    (choose sha im' s.agentId (cacheInfos fetch infos) queryId invocationId inputTokens numInputTokens,
      s.recordStates (infos.map fun info => (info, fetch info)))

end AgentScheduler

end

end CoreFlow
