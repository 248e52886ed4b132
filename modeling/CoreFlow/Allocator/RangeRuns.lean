import CoreFlow.Allocator.RangeStats
import CoreFlow.Lib.Runs

/-!
# Runs of calls in a context range

A request enters a context range, makes calls in it and leaves it again, maybe several times. Each stay is
a maximal run of consecutive recorded repeats of an invocation, and `total_out` counts the stays: a call
is one way out when the next recorded repeat is out of the range or missing.
-/

namespace CoreFlow

namespace TraceNode

/-- The call belongs to an invocation of the agent. -/
def isCallOf (agentName nid : String) (node : TraceNode) : Bool :=
  decide (node.agentName = agentName ∧ node.splitNodeId.map Prod.fst = some nid)

/-- The repeat of a node id that parses. -/
def repeatId (node : TraceNode) : Int := (node.splitNodeId.map Prod.snd).getD 0

end TraceNode

/-- The recorded calls of an invocation, by increasing repeat. -/
def callsOf (agentName nid : String) (records : List TraceNode) : List TraceNode :=
  (records.filter (·.isCallOf agentName nid)).insertionSort fun a b => a.repeatId ≤ b.repeatId

/-- The invocations of an agent in a trace. -/
def invocationIds (agentName : String) (records : List TraceNode) : List String :=
  ((records.filter (·.agentName = agentName)).filterMap fun node => node.splitNodeId.map Prod.fst).dedup

/-- The calls of every invocation of an agent over all traces. -/
def invocationsOf (nodeList : NodeList) (agentName : String) : List (List TraceNode) :=
  nodeList.entries.flatMap fun e => (invocationIds agentName e.2).map fun nid => callsOf agentName nid e.2

/-- The ids of the agent's nodes in a trace are distinct. -/
def DistinctIds (agentName : String) (records : List TraceNode) : Prop :=
  ((records.filter (·.agentName = agentName)).map TraceNode.splitNodeId).Nodup

instance (agentName : String) (records : List TraceNode) : Decidable (DistinctIds agentName records) :=
  inferInstanceAs (Decidable (List.Nodup _))

/-- The maximal runs in the range over all invocations. -/
noncomputable def numMaximalRuns (lower upper : Int) (invs : List (List TraceNode)) : Nat :=
  (invs.map fun calls => (runs (HoldsAt (·.inRange lower upper) calls)).ncard).sum

/-- The invocations with a call in the range. -/
def numTouching (lower upper : Int) (invs : List (List TraceNode)) : Nat :=
  invs.countP fun calls => calls.any (·.inRange lower upper)

/-- The calls in the range over all invocations. -/
def numCalls (lower upper : Int) (invs : List (List TraceNode)) : Nat :=
  (invs.map fun calls => calls.countP (·.inRange lower upper)).sum

/-! ## The groups of a trace -/

section Groups
variable {agentName nid : String} {node : TraceNode} {records : List TraceNode}
  {d d' : Dict String (Dict Int TraceNode)}

/-- The records of a group, empty for an invocation that has none. -/
def groupOf (d : Dict String (Dict Int TraceNode)) (nid : String) : Dict Int TraceNode :=
  (d.get? nid).getD Dict.empty

theorem groupOf_set (d : Dict String (Dict Int TraceNode)) (nid nid' : String) (v : Dict Int TraceNode) :
    groupOf (d.set nid' v) nid = if nid' = nid then v else groupOf d nid := by
  rw [groupOf, Dict.get?_set, apply_ite (Option.getD · Dict.empty), Option.getD_some, groupOf]

/-- Grouping a node of the agent adds it to its invocation. -/
theorem groupNode_cases (h : groupNode agentName d node = some d') :
    (node.agentName ≠ agentName ∧ d' = d) ∨
    (node.agentName = agentName ∧ ∃ nid r, node.splitNodeId = some (nid, r) ∧
      d' = d.set nid ((groupOf d nid).set r node)) := by
  unfold groupNode at h
  split at h
  · next hagent => exact Or.inl ⟨hagent, (Option.some.inj h).symm⟩
  · next hagent =>
    obtain ⟨⟨nid, r⟩, hsplit, hset⟩ := Option.bind_eq_some_iff.mp h
    exact Or.inr ⟨not_not.mp hagent, nid, r, hsplit, (Option.some.inj hset).symm⟩

/-- Grouping stops at an id of the agent that does not parse. -/
theorem splitNodeId_of_groupNodes (h : records.foldlM (groupNode agentName) d = some d') (hnode : node ∈ records)
    (hagent : node.agentName = agentName) : ∃ id, node.splitNodeId = some id := by
  induction records generalizing d with
  | nil => exact absurd hnode List.not_mem_nil
  | cons first rest ih =>
    rw [List.foldlM_cons] at h
    obtain ⟨d₁, hstep, hrest⟩ := Option.bind_eq_some_iff.mp h
    rcases List.mem_cons.mp hnode with rfl | hnode
    · rcases groupNode_cases hstep with ⟨hother, -⟩ | ⟨-, nid, r, hsplit, -⟩
      · exact absurd hagent hother
      · exact ⟨(nid, r), hsplit⟩
    · exact ih hrest hnode

theorem mem_of_groupNodes (h : records.foldlM (groupNode agentName) d = some d') :
    nid ∈ d' ↔ nid ∈ d ∨ ∃ node ∈ records, node.agentName = agentName ∧ node.splitNodeId.map Prod.fst = some nid := by
  induction records generalizing d with
  | nil =>
    cases h
    simp
  | cons node rest ih =>
    rw [List.foldlM_cons] at h
    obtain ⟨d₁, hstep, hrest⟩ := Option.bind_eq_some_iff.mp h
    rw [ih hrest, List.exists_mem_cons_iff]
    rcases groupNode_cases hstep with ⟨hagent, rfl⟩ | ⟨hagent, nid', r, hsplit, rfl⟩
    · simp only [hagent, false_and, false_or]
    · rw [Dict.mem_set, hsplit, Option.map_some, Option.some_inj, or_assoc, or_comm (a := nid = nid'), or_assoc]
      simp only [hagent, true_and, eq_comm (a := nid'), or_comm (a := nid = nid')]

/-- A group holds the records of its invocation in the order of the trace. -/
theorem entries_of_groupNodes (h : records.foldlM (groupNode agentName) d = some d')
    (hdistinct : DistinctIds agentName records)
    (hfresh : ∀ node ∈ records, node.agentName = agentName → ∀ nid r, node.splitNodeId = some (nid, r) →
      r ∉ groupOf d nid) :
    (groupOf d' nid).entries =
      (groupOf d nid).entries ++ (records.filter (·.isCallOf agentName nid)).map fun node => (node.repeatId, node) := by
  induction records generalizing d with
  | nil =>
    cases h
    exact (List.append_nil _).symm
  | cons node rest ih =>
    rw [List.foldlM_cons] at h
    obtain ⟨d₁, hstep, hrest⟩ := Option.bind_eq_some_iff.mp h
    rcases groupNode_cases hstep with ⟨hagent, rfl⟩ | ⟨hagent, nid', r, hsplit, rfl⟩
    · have hnot : node.isCallOf agentName nid = false := by
        rw [TraceNode.isCallOf, decide_eq_false_iff_not]
        exact fun hcall => hagent hcall.1
      rw [DistinctIds, List.filter_cons_of_neg (by simpa using hagent)] at hdistinct
      rw [List.filter_cons_of_neg (by simpa using hnot)]
      exact ih hrest hdistinct fun node hn => hfresh node (List.mem_cons_of_mem _ hn)
    · rw [DistinctIds, List.filter_cons_of_pos (by simpa using hagent), List.map_cons, List.nodup_cons] at hdistinct
      have hnew := hfresh node List.mem_cons_self hagent nid' r hsplit
      rw [ih hrest hdistinct.2 ?_, groupOf_set]
      · by_cases hnid : nid' = nid
        · have hcall : node.isCallOf agentName nid = true := by
            rw [TraceNode.isCallOf, decide_eq_true_eq, hsplit, hnid]
            exact ⟨hagent, rfl⟩
          have hrepeat : node.repeatId = r := by
            rw [TraceNode.repeatId, hsplit]
            rfl
          rw [if_pos hnid, Dict.entries_set_of_not_mem hnew, List.filter_cons_of_pos (by simpa using hcall),
            List.map_cons, hrepeat, List.append_assoc, List.singleton_append, hnid]
        · have hcall : node.isCallOf agentName nid = false := by
            rw [TraceNode.isCallOf, decide_eq_false_iff_not, hsplit]
            exact fun hcall => hnid (Option.some.inj hcall.2)
          rw [if_neg hnid, List.filter_cons_of_neg (by simpa using hcall)]
      · intro other hother hagent' nid'' r' hsplit'
        rw [groupOf_set]
        split
        · next heq =>
          rw [Dict.mem_set, not_or]
          refine ⟨?_, heq ▸ hfresh other (List.mem_cons_of_mem _ hother) hagent' nid'' r' hsplit'⟩
          -- another record of this repeat would have the same id
          rintro rfl
          apply hdistinct.1
          rw [hsplit, heq, ← hsplit']
          exact List.mem_map_of_mem (List.mem_filter.mpr ⟨hother, by simpa using hagent'⟩)
        · exact hfresh other (List.mem_cons_of_mem _ hother) hagent' nid'' r' hsplit'

/-- The calls of an invocation are the same in the order of the keys and sorted by repeat. -/
theorem inRepeatOrder_eq {repeatDict : Dict Int TraceNode}
    (h : repeatDict.entries = (records.filter (·.isCallOf agentName nid)).map fun node => (node.repeatId, node)) :
    inRepeatOrder repeatDict = callsOf agentName nid records := by
  have hget : ∀ e ∈ repeatDict.entries, (repeatDict.get? ∘ Prod.fst) e = (some ∘ Prod.snd) e := fun e he =>
    Dict.get?_iff_mem_entries.mpr he
  have hvalues : repeatDict.keys.filterMap repeatDict.get? = records.filter (·.isCallOf agentName nid) := by
    rw [Dict.keys, List.filterMap_map, List.filterMap_congr hget, List.filterMap_eq_map, h, List.map_map]
    exact List.map_id _
  have hkeys : repeatDict.keys = (records.filter (·.isCallOf agentName nid)).map TraceNode.repeatId := by
    rw [Dict.keys, h, List.map_map]
    rfl
  have hnodup : ((records.filter (·.isCallOf agentName nid)).map TraceNode.repeatId).Nodup := hkeys ▸ repeatDict.nodup_keys
  -- both orders are strict, since no repeat occurs twice
  have hleft : (inRepeatOrder repeatDict).Pairwise fun a b => a.repeatId < b.repeatId := by
    have hsorted : (repeatDict.keys.insertionSort (· ≤ ·)).Pairwise (· < ·) :=
      ((List.pairwise_insertionSort _ _).and
        ((List.perm_insertionSort _ _).nodup_iff.mpr repeatDict.nodup_keys)).imp fun hab =>
          lt_of_le_of_ne hab.1 hab.2
    have hrepeat : ∀ r node, repeatDict.get? r = some node → node.repeatId = r := by
      intro r node hr
      have hmem := Dict.get?_iff_mem_entries.mp hr
      rw [h] at hmem
      obtain ⟨node', -, heq⟩ := List.mem_map.mp hmem
      obtain ⟨rfl, rfl⟩ := Prod.mk.inj heq
      rfl
    rw [inRepeatOrder, List.pairwise_filterMap]
    refine hsorted.imp fun hlt a ha b hb => ?_
    rwa [hrepeat _ a ha, hrepeat _ b hb]
  have hright : (callsOf agentName nid records).Pairwise fun a b => a.repeatId < b.repeatId := by
    have hperm := List.perm_insertionSort (fun a b : TraceNode => a.repeatId ≤ b.repeatId)
      (records.filter (·.isCallOf agentName nid))
    exact ((List.pairwise_insertionSort _ _).and
      (List.pairwise_map.mp ((hperm.map _).nodup_iff.mpr hnodup))).imp fun hab => lt_of_le_of_ne hab.1 hab.2
  have hperm : (inRepeatOrder repeatDict).Perm (callsOf agentName nid records) := by
    refine ((List.perm_insertionSort _ _).filterMap _).trans ?_
    rw [hvalues]
    exact (List.perm_insertionSort _ _).symm
  exact hperm.eq_of_pairwise (fun a b _ _ hab hba => absurd hba hab.asymm) hleft hright

/-- The groups of a trace are its invocations. -/
theorem groups_perm (h : records.foldlM (groupNode agentName) Dict.empty = some d')
    (hdistinct : DistinctIds agentName records) :
    (d'.entries.map fun g => inRepeatOrder g.2).Perm
      ((invocationIds agentName records).map fun nid => callsOf agentName nid records) := by
  have hcalls : ∀ g ∈ d'.entries, inRepeatOrder g.2 = callsOf agentName g.1 records := by
    intro g hg
    apply inRepeatOrder_eq
    have hentries : (groupOf d' g.1).entries = _ :=
      entries_of_groupNodes h hdistinct fun _ _ _ _ _ _ => Dict.not_mem_empty _
    rw [groupOf, Dict.get?_iff_mem_entries.mpr hg] at hentries
    exact hentries
  have hids : d'.keys.Perm (invocationIds agentName records) := by
    rw [invocationIds, List.perm_ext_iff_of_nodup d'.nodup_keys (List.nodup_dedup _)]
    intro nid
    rw [← Dict.mem_def, mem_of_groupNodes h, List.mem_dedup, List.mem_filterMap]
    simp only [Dict.not_mem_empty, false_or, List.mem_filter, decide_eq_true_eq, and_assoc]
  rw [List.map_congr_left hcalls]
  have hmap : (d'.entries.map fun g => callsOf agentName g.1 records) =
      d'.keys.map fun nid => callsOf agentName nid records := by
    rw [Dict.keys, List.map_map]
    rfl
  rw [hmap]
  exact hids.map _

end Groups

/-- The invocations that are walked are those of the traces. -/
theorem invocations_perm {nodeList : NodeList} {agentName : String} {invs : List (String × List TraceNode)}
    (h : invocations nodeList agentName = some invs)
    (hdistinct : ∀ e ∈ nodeList.entries, DistinctIds agentName e.2) :
    (invs.map Prod.snd).Perm (invocationsOf nodeList agentName) := by
  unfold invocations at h
  unfold invocationsOf
  generalize nodeList.entries = entries at h hdistinct
  induction entries generalizing invs with
  | nil =>
    cases h
    exact List.Perm.nil
  | cons e entries ih =>
    obtain ⟨grouped, hgrouped, hinvs⟩ := Option.bind_eq_some_iff.mp h
    rw [List.mapM_cons] at hgrouped
    obtain ⟨first, hfirst, hgrouped⟩ := Option.bind_eq_some_iff.mp hgrouped
    obtain ⟨rest, hrest, hgrouped⟩ := Option.bind_eq_some_iff.mp hgrouped
    obtain ⟨agentNodes, hnodes, hfirst⟩ := Option.bind_eq_some_iff.mp hfirst
    cases hgrouped
    cases hinvs
    cases hfirst
    have hothers := @ih rest.flatten (by rw [hrest]; rfl) fun e he => hdistinct e (List.mem_cons_of_mem _ he)
    rw [List.flatten_cons, List.map_append, List.flatMap_cons, List.map_map]
    exact (groups_perm hnodes (hdistinct e List.mem_cons_self)).append hothers

/-- Every call of the agent belongs to an invocation. -/
theorem mem_invocationsOf {nodeList : NodeList} {agentName : String} {invs : List (String × List TraceNode)}
    (h : invocations nodeList agentName = some invs) {e : String × List TraceNode} (he : e ∈ nodeList.entries)
    {node : TraceNode} (hnode : node ∈ e.2) (hagent : node.agentName = agentName) :
    ∃ calls ∈ invocationsOf nodeList agentName, node ∈ calls := by
  have hsplit : ∃ id, node.splitNodeId = some id := by
    unfold invocations at h
    generalize nodeList.entries = entries at h he
    induction entries generalizing invs with
    | nil => exact absurd he List.not_mem_nil
    | cons first entries ih =>
      obtain ⟨grouped, hgrouped, hinvs⟩ := Option.bind_eq_some_iff.mp h
      rw [List.mapM_cons] at hgrouped
      obtain ⟨_, hfirst, hgrouped⟩ := Option.bind_eq_some_iff.mp hgrouped
      obtain ⟨rest, hrest, -⟩ := Option.bind_eq_some_iff.mp hgrouped
      obtain ⟨agentNodes, hnodes, -⟩ := Option.bind_eq_some_iff.mp hfirst
      rcases List.mem_cons.mp he with rfl | he
      · exact splitNodeId_of_groupNodes hnodes hnode hagent
      · exact @ih rest.flatten (by rw [hrest]; rfl) he
  obtain ⟨⟨nid, r⟩, hsplit⟩ := hsplit
  refine ⟨callsOf agentName nid e.2, List.mem_flatMap.mpr ⟨e, he, List.mem_map_of_mem ?_⟩, ?_⟩
  · apply List.mem_dedup.mpr
    apply List.mem_filterMap.mpr
    exact ⟨node, List.mem_filter.mpr ⟨hnode, decide_eq_true hagent⟩, by rw [hsplit]; rfl⟩
  · apply (List.mem_insertionSort _).mpr
    apply List.mem_filter.mpr
    refine ⟨hnode, ?_⟩
    rw [TraceNode.isCallOf, hsplit]
    exact decide_eq_true ⟨hagent, rfl⟩

/-! ## The tally -/

namespace Tally
variable (lower upper : Int)

theorem countRepeats_totalOut (uniqueNid : String) (nodes : List TraceNode) (t : Tally) :
    (countRepeats lower upper uniqueNid nodes t).totalOut =
      t.totalOut + countEnds (·.inRange lower upper) nodes := by
  induction nodes generalizing t with
  | nil => rfl
  | cons node rest ih =>
    rw [countRepeats, ih, countEnds, count]
    by_cases hnode : node.inRange lower upper = true
    · by_cases hnext : rest.head?.any (·.inRange lower upper) = true
      · rw [if_pos hnode, if_pos hnext, if_neg fun h => h.2 hnext]
        dsimp only
        omega
      · rw [if_pos hnode, if_neg hnext, if_pos ⟨hnode, hnext⟩]
        dsimp only
        omega
    · rw [if_neg hnode, if_neg fun h => hnode h.1]
      omega

theorem countRepeats_nodeIds (uniqueNid : String) (nodes : List TraceNode) (t : Tally) :
    (countRepeats lower upper uniqueNid nodes t).nodeIdsInRange =
        (if nodes.any (·.inRange lower upper) then insert uniqueNid t.nodeIdsInRange else t.nodeIdsInRange) ∧
      (countRepeats lower upper uniqueNid nodes t).nodeIdsAll = t.nodeIdsAll := by
  induction nodes generalizing t with
  | nil => exact ⟨rfl, rfl⟩
  | cons node rest ih =>
    obtain ⟨hin, hall⟩ := ih (t.count lower upper uniqueNid node rest.head?)
    rw [countRepeats, hin, hall, List.any_cons, count]
    by_cases hnode : node.inRange lower upper = true
    · have hany : (node.inRange lower upper || rest.any (·.inRange lower upper)) = true := by
        rw [hnode, Bool.true_or]
      rw [if_pos hnode, if_pos hany]
      dsimp only
      rw [Finset.insert_idem, ite_self]
      exact ⟨rfl, rfl⟩
    · rw [if_neg hnode, Bool.eq_false_of_not_eq_true hnode, Bool.false_or]
      exact ⟨rfl, rfl⟩

/-- What walking the invocations adds to a tally. -/
theorem foldl_countInvocation (invs : List (String × List TraceNode)) (t : Tally) :
    (invs.foldl (countInvocation lower upper) t).totalOut =
        t.totalOut + ((invs.map Prod.snd).map (countEnds (·.inRange lower upper))).sum ∧
      (invs.foldl (countInvocation lower upper) t).nodeIdsInRange =
        t.nodeIdsInRange ∪ ((invs.filter fun i => i.2.any (·.inRange lower upper)).map Prod.fst).toFinset ∧
      (invs.foldl (countInvocation lower upper) t).nodeIdsAll = t.nodeIdsAll ∪ (invs.map Prod.fst).toFinset := by
  induction invs generalizing t with
  | nil => simp
  | cons i invs ih =>
    obtain ⟨hout, hin, hall⟩ := ih (t.countInvocation lower upper i)
    rw [List.foldl_cons, hout, hin, hall, countInvocation, countRepeats_totalOut]
    obtain ⟨hin', hall'⟩ := countRepeats_nodeIds lower upper i.1 i.2 { t with nodeIdsAll := insert i.1 t.nodeIdsAll }
    rw [hin', hall']
    refine ⟨?_, ?_, ?_⟩
    · simp only [List.map_cons, List.sum_cons]
      omega
    · by_cases hany : i.2.any (·.inRange lower upper) = true
      · rw [if_pos hany, List.filter_cons_of_pos (by exact hany), List.map_cons, List.toFinset_cons, Finset.union_insert,
          Finset.insert_union]
      · rw [if_neg hany, List.filter_cons_of_neg (by exact hany)]
    · rw [List.map_cons, List.toFinset_cons, Finset.union_insert, Finset.insert_union]

end Tally

/-! ## Runs, invocations and calls -/

section Bounds
variable (lower upper : Int)

theorem sum_countEnds (invs : List (List TraceNode)) :
    (invs.map (countEnds (·.inRange lower upper))).sum = numMaximalRuns lower upper invs := by
  unfold numMaximalRuns
  congr 1
  apply List.map_congr_left
  intro calls _
  exact (ncard_runs _ calls).symm

/-- Every invocation that touches the range has a run in it. -/
theorem numTouching_le (invs : List (List TraceNode)) : numTouching lower upper invs ≤ numMaximalRuns lower upper invs := by
  rw [← sum_countEnds, numTouching]
  induction invs with
  | nil => exact Nat.le_refl 0
  | cons calls invs ih =>
    rw [List.countP_cons, List.map_cons, List.sum_cons]
    split
    · next hany =>
      have := countEnds_pos _ hany
      omega
    · omega

/-- Every run has a call in it. -/
theorem numMaximalRuns_le (invs : List (List TraceNode)) : numMaximalRuns lower upper invs ≤ numCalls lower upper invs := by
  rw [← sum_countEnds, numCalls]
  exact List.sum_le_sum fun calls _ => countEnds_le_countP _ calls

theorem numTouching_pos {invs : List (List TraceNode)} {calls : List TraceNode} (hcalls : calls ∈ invs) {node : TraceNode}
    (hnode : node ∈ calls) (hin : node.inRange lower upper = true) : 0 < numTouching lower upper invs := by
  apply List.countP_pos_iff.mpr
  exact ⟨calls, hcalls, List.any_eq_true.mpr ⟨node, hnode, hin⟩⟩

end Bounds

section Stats
variable {nodeList : NodeList} {agentName : String} {lower upper : Int} {t : Tally}

/-- A tally in terms of the invocations of the traces. -/
theorem rangeTally_spec (hdistinct : ∀ e ∈ nodeList.entries, DistinctIds agentName e.2)
    (h : rangeTally nodeList lower upper agentName = some t) :
    t.totalOut = numMaximalRuns lower upper (invocationsOf nodeList agentName) ∧
    t.totalLlmCalls = numCalls lower upper (invocationsOf nodeList agentName) ∧
    t.nodeIdsInRange ⊆ t.nodeIdsAll ∧
    (0 < t.nodeIdsInRange.card ↔ 0 < numTouching lower upper (invocationsOf nodeList agentName)) := by
  obtain ⟨invs, hinvs, rfl⟩ := Option.map_eq_some_iff.mp h
  have hperm := invocations_perm hinvs hdistinct
  obtain ⟨hout, hin, hall⟩ := Tally.foldl_countInvocation lower upper invs Tally.init
  rw [hout, hin, hall, Tally.foldl_totalLlmCalls]
  refine ⟨?_, ?_, ?_, ?_⟩
  · rw [← sum_countEnds, (hperm.map _).sum_eq]
    exact Nat.zero_add _
  · rw [numCalls, ← (hperm.map _).sum_eq, List.countP_flatMap, List.map_map]
    exact Nat.zero_add _
  · apply Finset.union_subset_union_right
    intro nid hnid
    rw [List.mem_toFinset] at hnid ⊢
    exact (List.filter_sublist.map _).subset hnid
  · rw [numTouching, ← hperm.countP_eq, List.countP_map, List.countP_pos_iff, Finset.card_pos]
    simp only [Tally.init, Finset.empty_union, List.toFinset_nonempty_iff, ne_eq, List.map_eq_nil_iff,
      List.filter_eq_nil_iff, not_forall, not_not, Function.comp_apply, exists_prop]

/-- The proportions of a tally with a call are positive and at most one. -/
theorem Tally.proportions (hcalls : 0 < t.totalLlmCalls) (hout : 0 < t.totalOut) (hle : t.totalOut ≤ t.totalLlmCalls)
    (hids : 0 < t.nodeIdsInRange.card) (hsub : t.nodeIdsInRange ⊆ t.nodeIdsAll) (reuse : Bool) :
    (0 < (t.stats reuse).outProportion ∧ (t.stats reuse).outProportion ≤ 1) ∧
      0 < (t.stats reuse).queryProportion ∧ (t.stats reuse).queryProportion ≤ 1 := by
  have hcard : t.nodeIdsInRange.card ≤ max t.nodeIdsAll.card 1 :=
    (Finset.card_le_card hsub).trans (Nat.le_max_left _ _)
  rw [Tally.stats, if_neg (Nat.ne_of_gt hcalls)]
  have hq (a b : Nat) (ha : 0 < a) (hab : a ≤ b) : 0 < (a : ℚ) / b ∧ (a : ℚ) / b ≤ 1 := by
    have hb : (0 : ℚ) < b := by
      exact_mod_cast Nat.lt_of_lt_of_le ha hab
    refine ⟨div_pos (by exact_mod_cast ha) hb, ?_⟩
    rw [div_le_one hb]
    exact_mod_cast hab
  exact ⟨hq _ _ hout hle, hq _ _ hids hcard⟩

end Stats

/-- `total_out` is the number of maximal runs of an agent's calls in the range, so that it lies between
the invocations that touch the range and the calls in it, and the proportions are positive and at most
one when there is a call in the range. -/
theorem rangeTally_maximalRuns (nodeList : NodeList) (lower upper : Int) (agentName : String) (t : Tally)
    (hdistinct : ∀ e ∈ nodeList.entries, DistinctIds agentName e.2)
    (h : rangeTally nodeList lower upper agentName = some t) :
    t.totalOut = numMaximalRuns lower upper (invocationsOf nodeList agentName) ∧
    numTouching lower upper (invocationsOf nodeList agentName) ≤ t.totalOut ∧
    t.totalOut ≤ numCalls lower upper (invocationsOf nodeList agentName) ∧
    ((∃ e ∈ nodeList.entries, ∃ node ∈ e.2, node.agentName = agentName ∧ node.inRange lower upper = true) →
      ∀ reuse, ∃ stats, computeRangeStats nodeList lower upper agentName reuse = some stats ∧
        (0 < stats.outProportion ∧ stats.outProportion ≤ 1) ∧
        0 < stats.queryProportion ∧ stats.queryProportion ≤ 1) := by
  obtain ⟨hout, hcalls, hsub, hids⟩ := rangeTally_spec hdistinct h
  have htouch := numTouching_le lower upper (invocationsOf nodeList agentName)
  have hruns := numMaximalRuns_le lower upper (invocationsOf nodeList agentName)
  rw [← hout] at htouch hruns
  refine ⟨hout, htouch, hruns, ?_⟩
  rintro ⟨e, he, node, hnode, hagent, hin⟩ reuse
  obtain ⟨invs, hinvs, -⟩ := Option.map_eq_some_iff.mp h
  obtain ⟨calls, hmem, hcall⟩ := mem_invocationsOf hinvs he hnode hagent
  have hpos := numTouching_pos lower upper hmem hcall hin
  refine ⟨t.stats reuse, by rw [computeRangeStats, h]; rfl, ?_⟩
  rw [← hcalls] at hruns
  exact Tally.proportions (by omega) (by omega) hruns (hids.mpr hpos) hsub reuse

/-- A request that leaves the range from one to two and enters it again; repeat two is not recorded. -/
def reenteringNodeList : NodeList :=
  let call (repeatId : String) (contextLength : Int) : TraceNode :=
    ⟨"agent", "0:" ++ repeatId, .number contextLength, .number 1, .number 0⟩
  Dict.ofPairs [("trace", [call "3" 1, call "0" 1, call "1" 5, call "4" 2])]

theorem rangeTally_maximalRuns_reentering : ∃ t, rangeTally reenteringNodeList 1 2 "agent" = some t ∧
    t.totalOut = numMaximalRuns 1 2 (invocationsOf reenteringNodeList "agent") ∧ t.totalOut = 2 ∧
    numTouching 1 2 (invocationsOf reenteringNodeList "agent") ≤ 2 ∧
    2 ≤ numCalls 1 2 (invocationsOf reenteringNodeList "agent") := by
  have returns : (rangeTally reenteringNodeList 1 2 "agent").map (fun t => decide (t.totalOut = 2)) = some true := by
    decide +kernel
  obtain ⟨t, ht, hout⟩ := Option.map_eq_some_iff.mp returns
  have htwo : t.totalOut = 2 := of_decide_eq_true hout
  have hall := rangeTally_maximalRuns reenteringNodeList 1 2 "agent" t (by decide +kernel) ht
  rw [htwo] at hall
  exact ⟨t, ht, htwo.trans hall.1, htwo, hall.2.1, hall.2.2.1⟩

end CoreFlow
