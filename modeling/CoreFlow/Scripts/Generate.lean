import CoreFlow.Dag.Basic
import CoreFlow.Manager.BlockManager
import Mathlib.Data.List.Sort
import Mathlib.Data.Prod.Lex

/-!
# Expanding a raw node list into a workload

`scripts/generate.py workload` turns the token counts of a recorded trace into concrete token ids. The
records are expanded in the order of their ids; a call of a later repeat starts with the tokens of the
call before it, and the rest is drawn at random. A call keeps its cache on the GPU when its direct
successor can use it, which is read off the counts of the two records.
-/

namespace CoreFlow.Generate

/-- A token field of a raw record. -/
inductive TokenField where
  | int (n : Int)
  | list (items : List (Option Int))
  | other
deriving DecidableEq

/-- `_count_tokens`; an item of a list that is no integer is `none`. -/
def countTokens : TokenField → Int
  | .int n => n
  | .list [some n] => n
  | .list items => items.length
  | .other => 0

/-- A record of the raw node list; a field that is missing is `none`. -/
structure RawRecord where
  nodeId : String
  agentName : String
  inputTokens : Option TokenField
  outputTokens : Option TokenField
  cachedTokens : Option TokenField
deriving DecidableEq

namespace RawRecord

def numInputTokens (record : RawRecord) : Int := countTokens (record.inputTokens.getD (.int 0))

def numOutputTokens (record : RawRecord) : Int := countTokens (record.outputTokens.getD (.int 0))

def numCachedTokens (record : RawRecord) : Int := countTokens (record.cachedTokens.getD (.int 0))

/-- No count is negative. -/
def Counted (record : RawRecord) : Prop :=
  0 ≤ record.numInputTokens ∧ 0 ≤ record.numOutputTokens ∧ 0 ≤ record.numCachedTokens

instance (record : RawRecord) : Decidable record.Counted :=
  inferInstanceAs (Decidable (_ ∧ _ ∧ _))

end RawRecord

/-- A node list: one list for each trace, or a bare list. -/
inductive RawNodeList where
  | traces (lists : Dict String (List RawRecord))
  | records (list : List RawRecord)

/-- `trace_id` and `raw_nodes`; an `IndexError` when there is no trace. -/
def RawNodeList.firstTrace : RawNodeList → Option (String × List RawRecord)
  | .traces lists => do
    let traceId ← (lists.keys.insertionSort (· ≤ ·)).head?
    let rawNodes ← lists.get? traceId
    some (traceId, rawNodes)
  | .records list => some ("trace_0", list)

/-- A value of a dependency map: the parents of a node, or the map of a trace. -/
inductive DependencyValue where
  | parents (ids : List String)
  | trace (dependencies : Dict String (List String))
deriving DecidableEq

abbrev NodeDependency := Dict String DependencyValue

/-- `raw_dependencies`: the entry of the trace, or the whole map. -/
inductive RawDependencies where
  | entry (value : DependencyValue)
  | whole (map : NodeDependency)
deriving DecidableEq

def rawDependencies (nodeDependency : NodeDependency) (traceId : String) : RawDependencies :=
  match nodeDependency.get? traceId with
  | some value => .entry value
  | none => .whole nodeDependency

/-- `raw_dependencies.get`; a list has no such method. -/
def RawDependencies.get (dependencies : RawDependencies) (nodeId : String) : Option (Option DependencyValue) :=
  match dependencies with
  | .whole map => some (map.get? nodeId)
  | .entry (.trace map) => some ((map.get? nodeId).map .parents)
  | .entry (.parents _) => none

/-- The id of a node is written back from its two numbers. -/
def writeNodeId (key : Int × Int) : String := toString key.1 ++ ":" ++ toString key.2

/-- The node that repeats a node once more. -/
def nextKey (key : Int × Int) : Int × Int := (key.1, key.2 + 1)

/-- The dependency list of the next repeat names the node and no other. -/
def RawDependencies.Direct (dependencies : RawDependencies) (key : Int × Int) : Prop :=
  dependencies.get (writeNodeId (nextKey key)) = some (some (.parents [writeNodeId key]))

instance (dependencies : RawDependencies) (key : Int × Int) : Decidable (dependencies.Direct key) :=
  inferInstanceAs (Decidable (_ = _))

/-- What `rng.randint(0, 1023)` returns. -/
abbrev TokenId := Fin 1024

/-- `_random_tokens`, after a number of draws. -/
def randomTokens (draws : Nat → TokenId) (drawn : Nat) (length : Int) : List TokenId :=
  (List.range length.toNat).map fun k => draws (drawn + k)

structure ExpandedNode where
  nodeId : String
  agentName : String
  invocationId : Int
  repeatId : Int
  inputTokenIds : List TokenId
  outputTokenIds : List TokenId
  numInputTokens : Int
  numOutputTokens : Int
  cachedTokens : Int
  keepCacheInGpu : Bool
  freeCache : Bool
deriving DecidableEq

def ExpandedNode.key (node : ExpandedNode) : Int × Int := (node.invocationId, node.repeatId)

/-- `input_token_ids` followed by `output_token_ids`. -/
def ExpandedNode.sequence (node : ExpandedNode) : List TokenId := node.inputTokenIds ++ node.outputTokenIds

/-- What the loop over the records has built: the draws made, `token_states` and `expanded_nodes`. -/
structure Expansion where
  drawn : Nat
  tokenStates : Dict Int (List TokenId)
  nodes : List ExpandedNode
deriving DecidableEq

abbrev Keyed := (Int × Int) × RawRecord

/-- `direct_repeat`. The dependencies are asked only when the next repeat is recorded. -/
def directRepeat (rawByKey : Dict (Int × Int) RawRecord) (dependencies : RawDependencies) (key : Int × Int) :
    Option (Option RawRecord) :=
  match rawByKey.get? (nextKey key) with
  | none => some none
  | some next => do
    let parents ← dependencies.get (writeNodeId (nextKey key))
    some (if parents = some (.parents [writeNodeId key]) then some next else none)

/-- `token_states.get(invocation_id, [])[:input_length]`, for a later repeat. -/
def replayed (tokenStates : Dict Int (List TokenId)) (key : Int × Int) (inputLength : Int) : List TokenId :=
  if 0 < key.2 then sliceTo ((tokenStates.get? key.1).getD []) inputLength else []

/-- One pass of the loop over `ordered_records`. -/
def expandRecord (draws : Nat → TokenId) (rawByKey : Dict (Int × Int) RawRecord) (dependencies : RawDependencies)
    (e : Expansion) (keyed : Keyed) : Option Expansion := do
  let key := keyed.1
  let record := keyed.2
  let inputLength := record.numInputTokens + record.numCachedTokens
  let previous := replayed e.tokenStates key inputLength
  let remainingInput := inputLength - previous.length
  let fresh := randomTokens draws e.drawn remainingInput
  let inputTokenIds := previous ++ fresh
  let outputTokenIds := randomTokens draws (e.drawn + fresh.length) record.numOutputTokens
  let next ← directRepeat rawByKey dependencies key
  let currentTotalTokens := record.numInputTokens + record.numOutputTokens
  let keep := next.any fun nextRecord => decide (nextRecord.numCachedTokens ≤ currentTotalTokens)
  some
    { drawn := e.drawn + fresh.length + outputTokenIds.length
      tokenStates := e.tokenStates.set key.1 (inputTokenIds ++ outputTokenIds)
      nodes := e.nodes ++
        [{ nodeId := record.nodeId
           agentName := record.agentName
           invocationId := key.1
           repeatId := key.2
           inputTokenIds := inputTokenIds
           outputTokenIds := outputTokenIds
           numInputTokens := record.numInputTokens
           numOutputTokens := record.numOutputTokens
           cachedTokens := record.numCachedTokens
           keepCacheInGpu := keep
           freeCache := !keep }] }

/-- The records under their parsed ids; a `ValueError` when one does not parse. -/
def keyRecords (rawNodes : List RawRecord) : Option (List Keyed) :=
  rawNodes.mapM fun record => (parseNodeId record.nodeId).map (·, record)

/-- Tuples are compared by their first component, then by the second. -/
def keyLe (a b : Keyed) : Prop := toLex a.1 ≤ toLex b.1

instance : DecidableRel keyLe := fun a b => inferInstanceAs (Decidable (toLex a.1 ≤ toLex b.1))

structure Workload where
  queryId : Int
  workDir : String
  nodeDependency : RawDependencies
  nodeList : List ExpandedNode
deriving DecidableEq

/-- `_build_workload`; `draws` are the values that the generator seeded with `query_id` returns. -/
def buildWorkload (draws : Nat → TokenId) (nodeList : RawNodeList) (nodeDependency : NodeDependency) (queryId : Int)
    (workDir : String) : Option Workload := do
  let (traceId, rawNodes) ← nodeList.firstTrace
  let dependencies := rawDependencies nodeDependency traceId
  let keyed ← keyRecords rawNodes
  let rawByKey := Dict.ofPairs keyed
  let expansion ← (keyed.insertionSort keyLe).foldlM (expandRecord draws rawByKey dependencies) ⟨0, Dict.empty, []⟩
  some ⟨queryId, workDir, dependencies, expansion.nodes⟩

end CoreFlow.Generate
