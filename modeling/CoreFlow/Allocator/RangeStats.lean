import CoreFlow.Lib.Dict
import CoreFlow.Lib.Text
import Mathlib

/-!
# Statistics of a context range

`RequestAnalyzer._compute_range_stats` groups the recorded calls of an agent by invocation, walks each
invocation in the order of its repeats, and tallies the calls whose context length is in the range. The
quotients are exact here.
-/

namespace CoreFlow

/-- A token field of a trace: a number, or a list to be summed. -/
inductive TokenCount where
  | number (n : Int)
  | parts (ns : List Int)
deriving DecidableEq

def TokenCount.total : TokenCount → Int
  | .number n => n
  | .parts ns => ns.sum

/-- What a trace records of one call. -/
structure TraceNode where
  agentName : String
  nodeId : String
  inputTokens : TokenCount
  outputTokens : TokenCount
  cachedTokens : TokenCount
deriving DecidableEq

namespace TraceNode

def contextLength (node : TraceNode) : Int := node.inputTokens.total + node.cachedTokens.total

/-- Both bounds are in the range. -/
def inRange (lower upper : Int) (node : TraceNode) : Bool :=
  decide (lower ≤ node.contextLength ∧ node.contextLength ≤ upper)

/-- `nid, repeat_str = node["node_id"].split(":")` and `int(repeat_str)`. -/
def splitNodeId (node : TraceNode) : Option (String × Int) :=
  match node.nodeId.toList.splitOn ':' with
  | [nid, repeatStr] => (pyInt repeatStr).map fun r => (String.ofList nid, r)
  | _ => none

end TraceNode

abbrev NodeList := Dict String (List TraceNode)

/-- One step of the grouping: a later record of a repeat replaces an earlier one. -/
def groupNode (agentName : String) (agentNodes : Dict String (Dict Int TraceNode)) (node : TraceNode) :
    Option (Dict String (Dict Int TraceNode)) :=
  if node.agentName ≠ agentName then some agentNodes
  else do
    let (nid, r) ← node.splitNodeId
    some (agentNodes.set nid (((agentNodes.get? nid).getD Dict.empty).set r node))

/-- The nodes of an invocation in the order of `sorted_repeats`. -/
def inRepeatOrder (repeatDict : Dict Int TraceNode) : List TraceNode :=
  (repeatDict.keys.insertionSort (· ≤ ·)).filterMap repeatDict.get?

/-- The invocations of an agent over all workflows, each under its `unique_nid`; `none` is a
`ValueError` at a node id. -/
def invocations (nodeList : NodeList) (agentName : String) : Option (List (String × List TraceNode)) := do
  let grouped ← nodeList.entries.mapM fun e => do
    let agentNodes ← e.2.foldlM (groupNode agentName) Dict.empty
    some (agentNodes.entries.map fun g => (e.1 ++ "_" ++ g.1, inRepeatOrder g.2))
  some grouped.flatten

/-- The accumulators of `_compute_range_stats`. -/
structure Tally where
  decodeLengths : List Int
  prefillLengths : List Int
  cachedList : List Int
  maxLength : Int
  totalLlmCalls : Nat
  totalOut : Nat
  nodeIdsInRange : Finset String
  nodeIdsAll : Finset String
deriving DecidableEq

namespace Tally

def init : Tally := ⟨[], [], [], 0, 0, 0, ∅, ∅⟩

/-- Tally a call, given the next one of its invocation. -/
def count (lower upper : Int) (uniqueNid : String) (t : Tally) (node : TraceNode) (next : Option TraceNode) : Tally :=
  if node.inRange lower upper then
    { t with
      nodeIdsInRange := insert uniqueNid t.nodeIdsInRange
      totalLlmCalls := t.totalLlmCalls + 1
      decodeLengths := t.decodeLengths ++ [node.outputTokens.total]
      prefillLengths := t.prefillLengths ++ [node.inputTokens.total]
      cachedList := t.cachedList ++ [node.cachedTokens.total]
      maxLength := max t.maxLength (node.contextLength + node.outputTokens.total)
      totalOut := t.totalOut + if next.any (·.inRange lower upper) then 0 else 1 }
  else t

/-- The loop over the sorted repeats of an invocation. -/
def countRepeats (lower upper : Int) (uniqueNid : String) : List TraceNode → Tally → Tally
  | [], t => t
  | node :: rest, t => countRepeats lower upper uniqueNid rest (t.count lower upper uniqueNid node rest.head?)

def countInvocation (lower upper : Int) (t : Tally) (invocation : String × List TraceNode) : Tally :=
  countRepeats lower upper invocation.1 invocation.2 { t with nodeIdsAll := insert invocation.1 t.nodeIdsAll }

end Tally

/-- The loops of `_compute_range_stats`. -/
def rangeTally (nodeList : NodeList) (lower upper : Int) (agentName : String) : Option Tally :=
  (invocations nodeList agentName).map fun invs => invs.foldl (Tally.countInvocation lower upper) Tally.init

structure RangeStats where
  avgDecodeLength : Int
  avgPrefillLength : Int
  avgCachedTokens : Int
  maxLength : Int
  outProportion : ℚ
  queryProportion : ℚ
deriving DecidableEq

/-- The averages and proportions of a tally. -/
def Tally.stats (t : Tally) (reuse : Bool) : RangeStats :=
  if t.totalLlmCalls = 0 then ⟨0, 0, 0, 0, 0, 0⟩
  else
    let average (lengths : List Int) : Int := lengths.sum.fdiv t.totalLlmCalls
    { avgDecodeLength := average t.decodeLengths
      avgPrefillLength := if reuse then average t.prefillLengths else average t.prefillLengths + average t.cachedList
      avgCachedTokens := if reuse then average t.cachedList else 0
      maxLength := t.maxLength
      outProportion := (t.totalOut : ℚ) / t.totalLlmCalls
      queryProportion := (t.nodeIdsInRange.card : ℚ) / (max t.nodeIdsAll.card 1 : Nat) }

/-- `_compute_range_stats`. -/
def computeRangeStats (nodeList : NodeList) (lower upper : Int) (agentName : String) (reuse : Bool) :
    Option RangeStats :=
  (rangeTally nodeList lower upper agentName).map fun t => t.stats reuse

/-! ## The calls that are counted -/

/-- The recorded calls of an agent, one for each invocation and repeat. -/
def recordedCalls (nodeList : NodeList) (agentName : String) : Option (List TraceNode) :=
  (invocations nodeList agentName).map fun invs => invs.flatMap (·.2)

theorem Tally.countRepeats_totalLlmCalls (lower upper : Int) (uniqueNid : String) (nodes : List TraceNode) (t : Tally) :
    (countRepeats lower upper uniqueNid nodes t).totalLlmCalls =
      t.totalLlmCalls + nodes.countP (·.inRange lower upper) := by
  induction nodes generalizing t with
  | nil => rfl
  | cons node rest ih =>
    rw [countRepeats, ih, List.countP_cons, count]
    split
    · dsimp only
      omega
    · omega

theorem Tally.foldl_totalLlmCalls (lower upper : Int) (invs : List (String × List TraceNode)) (t : Tally) :
    (invs.foldl (countInvocation lower upper) t).totalLlmCalls =
      t.totalLlmCalls + (invs.flatMap (·.2)).countP (·.inRange lower upper) := by
  induction invs generalizing t with
  | nil => rfl
  | cons inv invs ih =>
    have step : (t.countInvocation lower upper inv).totalLlmCalls =
        t.totalLlmCalls + inv.2.countP (·.inRange lower upper) := countRepeats_totalLlmCalls ..
    rw [List.foldl_cons, ih, step, List.flatMap_cons, List.countP_append]
    omega

/-- The calls that a tally counts are those in the range. -/
theorem rangeTally_totalLlmCalls {nodeList : NodeList} {agentName : String} {calls : List TraceNode}
    (h : recordedCalls nodeList agentName = some calls) (lower upper : Int) :
    ∃ t, rangeTally nodeList lower upper agentName = some t ∧
      t.totalLlmCalls = calls.countP (·.inRange lower upper) := by
  obtain ⟨invs, hi, rfl⟩ := Option.map_eq_some_iff.mp h
  refine ⟨_, by rw [rangeTally, hi]; rfl, ?_⟩
  rw [Tally.foldl_totalLlmCalls]
  exact Nat.zero_add _

end CoreFlow
