import Mathlib.Data.Finset.Card
import CoreFlow.Lib.Dict
import CoreFlow.Lib.Text

/-!
# The DAG of a query

`DAG` is built from the payload of a `/query` and tells the controller which nodes to run next. Node
objects live in `node_mapping`, so a node is passed by its key. A failed lookup leaves what was written
before it, so the methods return a state also when they raise.
-/

namespace CoreFlow

/-- A tuple of integers. Node ids are pairs; a parent in a payload can have any number of parts. -/
abbrev NodeKey := List Int

/-- `KeyError`. -/
structure KeyError where
  key : NodeKey
deriving DecidableEq

/-- What a method that can raise returns. -/
abbrev Raising (α : Type) := Except KeyError α

inductive NodeStatus where
  | waiting
  | executing
  | finished
deriving DecidableEq

/-- `Node`, without its times. -/
structure Node where
  agentId : String
  invocationId : Int
  repeatId : Int
  status : NodeStatus
  inputTokens : List Int
  outputTokens : List Int
  cachedTokens : Int
  numInputTokens : Int
  numOutputTokens : Int
  keepCacheInGpu : Bool
  freeCache : Bool
deriving DecidableEq

/-- A record of `node_list`. -/
structure NodeRecord where
  nodeId : String
  agentName : String
  inputTokenIds : List Int
  outputTokenIds : List Int
  cachedTokens : Int
  numInputTokens : Int
  numOutputTokens : Int
  keepCacheInGpu : Bool
  freeCache : Bool
deriving DecidableEq

/-- The expanded payload of a `/query`. -/
structure QueryPayload where
  nodeDependency : Dict String (List String)
  nodeList : List NodeRecord
deriving DecidableEq

/-- `DAG`, without its times. -/
structure DAG where
  workflow : Dict NodeKey (List NodeKey)
  nodeMapping : Dict NodeKey Node
  nodeCount : Nat
  executedNode : Finset NodeKey
deriving DecidableEq

/-- A string unpacked into an invocation id and a repeat; other shapes raise. -/
def parseNodeId (nodeId : String) : Option (Int × Int) :=
  match parseIntTuple nodeId with
  | some [invocationId, repeatId] => some (invocationId, repeatId)
  | _ => none

namespace DAG

/-- The first loop of `init_from_payload`, over the remaining items. -/
def readDependencies (workflow : Dict NodeKey (List NodeKey)) :
    List (String × List String) → Option (Dict NodeKey (List NodeKey))
  | [] => some workflow
  | (childId, parentIds) :: rest => do
    let (invocationId, repeatId) ← parseNodeId childId
    let parents ← parentIds.mapM parseIntTuple
    readDependencies (workflow.set [invocationId, repeatId] parents) rest

/-- The second loop of `init_from_payload`. -/
def readNodes (mapping : Dict NodeKey Node) : List NodeRecord → Option (Dict NodeKey Node)
  | [] => some mapping
  | record :: rest => do
    let (invocationId, repeatId) ← parseNodeId record.nodeId
    readNodes (mapping.set [invocationId, repeatId]
      { agentId := record.agentName
        invocationId := invocationId
        repeatId := repeatId
        status := .waiting
        inputTokens := record.inputTokenIds
        outputTokens := record.outputTokenIds
        cachedTokens := record.cachedTokens
        numInputTokens := record.numInputTokens
        numOutputTokens := record.numOutputTokens
        keepCacheInGpu := record.keepCacheInGpu
        freeCache := record.freeCache }) rest

/-- `create_dag_by_json`. -/
def initFromPayload (payload : QueryPayload) : Option DAG := do
  let workflow ← readDependencies Dict.empty payload.nodeDependency.entries
  let mapping ← readNodes Dict.empty payload.nodeList
  some ⟨workflow, mapping, mapping.size, ∅⟩

/-- The loop over the workflow that `update_result` and `get_entry_nodes` share: the waiting nodes
whose dependency list passes the test are marked and returned. -/
def handOut (ready : List NodeKey → Bool) :
    List (NodeKey × List NodeKey) → Dict NodeKey Node → Raising (List NodeKey) × Dict NodeKey Node
  | [], mapping => (.ok [], mapping)
  | (record, parents) :: rest, mapping =>
    if ready parents then
      match mapping.get? record with
      | none => (.error ⟨record⟩, mapping)
      | some node =>
        if node.status = .waiting then
          let r := handOut ready rest (mapping.set record { node with status := .executing })
          (r.1.map (record :: ·), r.2)
        else handOut ready rest mapping
    else handOut ready rest mapping

/-- `get_entry_nodes`. -/
def getEntryNodes (d : DAG) : Raising (List NodeKey) × DAG :=
  let r := handOut (fun parents => decide (parents = [])) d.workflow.entries d.nodeMapping
  (r.1, { d with nodeMapping := r.2 })

/-- `update_result`; the first lookup is made for the log line. -/
def updateResult (d : DAG) (invocationId repeatId : Int) : Raising (List NodeKey) × DAG :=
  let key : NodeKey := [invocationId, repeatId]
  match d.nodeMapping.get? key with
  | none => (.error ⟨key⟩, d)
  | some node =>
    let executedNode := insert key d.executedNode
    let r := handOut (fun parents => decide (∀ parent ∈ parents, parent ∈ executedNode))
      d.workflow.entries (d.nodeMapping.set key { node with status := .finished })
    (r.1, { d with executedNode := executedNode, nodeMapping := r.2 })

/-- `is_completed`. -/
def isCompleted (d : DAG) : Bool := decide (d.executedNode.card = d.nodeCount)

/-! ## The loop -/

/-- The loop has handed out `marked`: they were waiting and ready, and nothing else was touched. -/
structure Marks (ready : List NodeKey → Bool) (l : List (NodeKey × List NodeKey))
    (m m' : Dict NodeKey Node) (marked : List NodeKey) : Prop where
  nodup : marked.Nodup
  ready : ∀ k ∈ marked, ∃ parents, (k, parents) ∈ l ∧ ready parents = true
  waiting : ∀ k ∈ marked, ∃ node, m.get? k = some node ∧ node.status = .waiting
  lookup : ∀ k, m'.get? k =
    if k ∈ marked then (m.get? k).map fun node => { node with status := .executing } else m.get? k

namespace Marks
variable {ready : List NodeKey → Bool} {l : List (NodeKey × List NodeKey)} {m m' : Dict NodeKey Node}
  {marked : List NodeKey} {k : NodeKey} {parents : List NodeKey} {node : Node}

theorem refl : Marks ready l m m [] :=
  ⟨List.nodup_nil, fun _ h => (by cases h), fun _ h => (by cases h), fun _ => rfl⟩

theorem skip (h : Marks ready l m m' marked) : Marks ready ((k, parents) :: l) m m' marked :=
  ⟨h.nodup, fun x hx => (h.ready x hx).imp fun _ hp => ⟨List.mem_cons_of_mem _ hp.1, hp.2⟩, h.waiting,
    h.lookup⟩

theorem cons (h : Marks ready l (m.set k { node with status := .executing }) m' marked)
    (hready : ready parents = true) (hk : m.get? k = some node) (hw : node.status = .waiting)
    (hfresh : k ∉ l.map Prod.fst) : Marks ready ((k, parents) :: l) m m' (k :: marked) := by
  have hnot : k ∉ marked := by
    intro hin
    obtain ⟨ps, hps, -⟩ := h.ready k hin
    exact hfresh (List.mem_map_of_mem hps)
  refine ⟨List.nodup_cons.mpr ⟨hnot, h.nodup⟩, fun x hx => ?_, fun x hx => ?_, fun x => ?_⟩
  · rcases List.mem_cons.mp hx with rfl | hx
    · exact ⟨parents, List.mem_cons_self, hready⟩
    · exact (h.ready x hx).imp fun _ hp => ⟨List.mem_cons_of_mem _ hp.1, hp.2⟩
  · rcases List.mem_cons.mp hx with rfl | hx
    · exact ⟨node, hk, hw⟩
    · obtain ⟨node', hn, hs⟩ := h.waiting x hx
      rw [Dict.get?_set_ne _ _ (by rintro rfl; exact hnot hx)] at hn
      exact ⟨node', hn, hs⟩
  · rw [h.lookup, Dict.get?_set]
    by_cases hx : k = x
    · subst hx
      simp [hnot, hk]
    · simp [hx, Ne.symm hx]

end Marks

section
variable (ready : List NodeKey → Bool) {l : List (NodeKey × List NodeKey)}

/-- What the loop does, whether it returns or raises: when it returns, it has missed nothing. -/
theorem handOut_marks (hl : (l.map Prod.fst).Nodup) (m : Dict NodeKey Node) :
    ∃ marked, Marks ready l m (handOut ready l m).2 marked ∧
      ∀ nodes, (handOut ready l m).1 = .ok nodes → nodes = marked ∧ ∀ e ∈ l, ready e.2 = true →
        ∀ node, m.get? e.1 = some node → node.status = .waiting → e.1 ∈ marked := by
  induction l generalizing m with
  | nil => exact ⟨[], .refl, fun nodes h => ⟨(Except.ok.inj h).symm, fun e he => by cases he⟩⟩
  | cons e l ih =>
    obtain ⟨record, parents⟩ := e
    rw [List.map_cons, List.nodup_cons] at hl
    obtain ⟨hfresh, hl⟩ := hl
    rw [handOut]
    split
    · rename_i hready
      cases hk : m.get? record with
      | none => exact ⟨[], .refl, fun nodes h => by cases h⟩
      | some node =>
        dsimp only
        split
        · rename_i hw
          obtain ⟨marked, marks, ok⟩ := ih hl (m.set record { node with status := .executing })
          refine ⟨record :: marked, marks.cons hready hk hw hfresh, fun nodes h => ?_⟩
          cases hr : (handOut ready l (m.set record { node with status := .executing })).1 with
          | error err => rw [hr] at h; cases h
          | ok nodes' =>
            rw [hr] at h
            obtain ⟨rfl, all⟩ := ok nodes' hr
            refine ⟨(Except.ok.inj h).symm, fun e he hre node' hn hs => ?_⟩
            rcases List.mem_cons.mp he with rfl | hin
            · exact List.mem_cons_self
            · have hne : record ≠ e.1 := by
                intro hr
                rw [hr] at hfresh
                exact hfresh (List.mem_map.mpr ⟨e, hin, rfl⟩)
              exact List.mem_cons_of_mem _ (all e hin hre node' ((Dict.get?_set_ne _ _ hne).trans hn) hs)
        · rename_i hw
          obtain ⟨marked, marks, ok⟩ := ih hl m
          refine ⟨marked, marks.skip, fun nodes h => ⟨(ok nodes h).1, fun e he hre node' hn hs => ?_⟩⟩
          rcases List.mem_cons.mp he with rfl | he
          · rw [hk] at hn
            exact absurd (Option.some.inj hn ▸ hs) hw
          · exact (ok nodes h).2 e he hre node' hn hs
    · rename_i hready
      obtain ⟨marked, marks, ok⟩ := ih hl m
      refine ⟨marked, marks.skip, fun nodes h => ⟨(ok nodes h).1, fun e he hre node' hn hs => ?_⟩⟩
      rcases List.mem_cons.mp he with rfl | he
      · exact absurd hre hready
      · exact (ok nodes h).2 e he hre node' hn hs

/-- The loop returns when the records that it looks up are there. -/
theorem handOut_returns (m : Dict NodeKey Node) (h : ∀ e ∈ l, e.1 ∈ m) :
    ∃ nodes, (handOut ready l m).1 = .ok nodes := by
  induction l generalizing m with
  | nil => exact ⟨[], rfl⟩
  | cons e l ih =>
    obtain ⟨record, parents⟩ := e
    have hrest : ∀ e ∈ l, e.1 ∈ m := fun e he => h e (List.mem_cons_of_mem _ he)
    rw [handOut]
    split
    · obtain ⟨node, hk⟩ := Dict.mem_iff.mp (h (record, parents) List.mem_cons_self)
      rw [hk]
      dsimp only
      split
      · obtain ⟨nodes, hr⟩ := ih (m.set record { node with status := .executing })
          fun e he => Dict.mem_set.mpr (.inr (hrest e he))
        exact ⟨record :: nodes, by rw [hr]; rfl⟩
      · exact ih m hrest
    · exact ih m hrest

end

end DAG

end CoreFlow
