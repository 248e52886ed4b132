import CoreFlow.Dag.Basic

/-!
# Which nodes have been handed out

Readiness is recomputed from the executed set in every call, and a node leaves the waiting status when
it is handed out. `Tracked` ties the two together; every call keeps it and misses nothing.
-/

namespace CoreFlow

namespace DAG

/-- The dependency keys and their parents are nodes. -/
def Listed (d : DAG) : Prop :=
  ∀ e ∈ d.workflow.entries, e.1 ∈ d.nodeMapping ∧ ∀ parent ∈ e.2, parent ∈ d.nodeMapping

instance (d : DAG) : Decidable d.Listed := by unfold Listed; infer_instance

/-- A run of the controller on a DAG, with the nodes completed and the nodes handed out so far: the
entry nodes come first, and then a result for any node that has been handed out. -/
inductive Reaches (d₀ : DAG) : List NodeKey → List NodeKey → DAG → Prop
  | entry {nodes : List NodeKey} {d : DAG} (h : d₀.getEntryNodes = (.ok nodes, d)) : Reaches d₀ [] nodes d
  | result {completed handed nodes : List NodeKey} {d d' : DAG} {invocationId repeatId : Int}
      (run : Reaches d₀ completed handed d) (hin : [invocationId, repeatId] ∈ handed)
      (h : d.updateResult invocationId repeatId = (.ok nodes, d')) :
      Reaches d₀ (completed ++ [[invocationId, repeatId]]) (handed ++ nodes) d'

/-- The parents of a workflow key have all been executed. -/
def ParentsIn (w : Dict NodeKey (List NodeKey)) (executed : Finset NodeKey) (k : NodeKey) : Prop :=
  ∃ parents, w.get? k = some parents ∧ ∀ parent ∈ parents, parent ∈ executed

/-- The status that the history of a node gives it. -/
def statusOf (handed : List NodeKey) (executed : Finset NodeKey) (k : NodeKey) : NodeStatus :=
  if k ∈ executed then .finished else if k ∈ handed then .executing else .waiting

/-- The statuses agree with what has been handed out and executed. -/
structure Tracked (w : Dict NodeKey (List NodeKey)) (executed : Finset NodeKey) (m : Dict NodeKey Node)
    (handed : List NodeKey) : Prop where
  nodup : handed.Nodup
  ready : ∀ k ∈ handed, ParentsIn w executed k
  started : ∀ k ∈ executed, k ∈ handed
  status : ∀ k node, m.get? k = some node → node.status = statusOf handed executed k

variable {w : Dict NodeKey (List NodeKey)} {executed : Finset NodeKey} {m m' : Dict NodeKey Node}
  {completed handed nodes : List NodeKey} {k : NodeKey} {node : Node}

theorem ParentsIn.insert (h : ParentsIn w executed k) (x : NodeKey) : ParentsIn w (insert x executed) k :=
  h.imp fun _ hp => ⟨hp.1, fun parent hin => Finset.mem_insert_of_mem (hp.2 parent hin)⟩

theorem Tracked.not_mem_of_waiting (t : Tracked w executed m handed) (hk : m.get? k = some node)
    (hw : node.status = .waiting) : k ∉ handed := by
  intro hin
  have hs := t.status k node hk
  rw [hw, statusOf, if_pos hin] at hs
  split at hs <;> cases hs

theorem Tracked.waiting_of_not_mem (t : Tracked w executed m handed) (hk : m.get? k = some node)
    (hnot : k ∉ handed) : node.status = .waiting := by
  rw [t.status k node hk, statusOf, if_neg (fun he => hnot (t.started k he)), if_neg hnot]

/-- The executed set grows by a node that has been handed out. -/
theorem Tracked.finish (node : Node) (t : Tracked w executed m handed) (hin : k ∈ handed) :
    Tracked w (insert k executed) (m.set k { node with status := .finished }) handed := by
  refine ⟨t.nodup, fun x hx => (t.ready x hx).insert k, fun x hx => ?_, fun x node' hn => ?_⟩
  · rcases Finset.mem_insert.mp hx with rfl | hx
    · exact hin
    · exact t.started x hx
  · rw [Dict.get?_set] at hn
    unfold statusOf
    split at hn
    · rename_i hx
      subst hx
      rw [← Option.some.inj hn, if_pos (Finset.mem_insert_self _ _)]
    · rename_i hx
      rw [t.status x node' hn, statusOf]
      simp only [Finset.mem_insert, Ne.symm hx, false_or]

/-- The loop over the workflow hands out exactly what was missing. -/
theorem Tracked.handOut {test : List NodeKey → Bool} (t : Tracked w executed m handed)
    (htest : ∀ parents, test parents = true ↔ ∀ parent ∈ parents, parent ∈ executed)
    (listed : ∀ k ∈ w, k ∈ m) (h : DAG.handOut test w.entries m = (.ok nodes, m')) :
    Tracked w executed m' (handed ++ nodes) ∧ (∀ k, ParentsIn w executed k → k ∈ handed ++ nodes) ∧
      ∀ k, k ∈ m' ↔ k ∈ m := by
  obtain ⟨marked, marks, ok⟩ := handOut_marks test w.nodup m
  rw [h] at marks ok
  obtain ⟨rfl, all⟩ := ok nodes rfl
  have fresh : ∀ x ∈ nodes, x ∉ handed := fun x hx => by
    obtain ⟨node, hk, hw⟩ := marks.waiting x hx
    exact t.not_mem_of_waiting hk hw
  refine ⟨⟨?_, fun x hx => ?_, fun x hx => List.mem_append_left _ (t.started x hx), fun x node hn => ?_⟩,
    fun x hx => ?_, fun x => ?_⟩
  · exact List.nodup_append.mpr ⟨t.nodup, marks.nodup, fun a ha b hb hab => fresh b hb (hab ▸ ha)⟩
  · rcases List.mem_append.mp hx with hx | hx
    · exact t.ready x hx
    · obtain ⟨parents, hp, hr⟩ := marks.ready x hx
      exact ⟨parents, Dict.get?_iff_mem_entries.mpr hp, (htest parents).mp hr⟩
  · -- the marked nodes were waiting, so they are not executed
    have lookup := marks.lookup x
    dsimp only at lookup
    rw [hn] at lookup
    unfold statusOf
    split at lookup
    · rename_i hx
      obtain ⟨node', -, rfl⟩ := Option.map_eq_some_iff.mp lookup.symm
      rw [if_neg (fun he => fresh x hx (t.started x he)), if_pos (List.mem_append_right _ hx)]
    · rename_i hx
      rw [t.status x node lookup.symm, statusOf]
      simp only [List.mem_append, hx, or_false]
  · by_cases hin : x ∈ handed
    · exact List.mem_append_left _ hin
    · obtain ⟨parents, hp, hr⟩ := hx
      obtain ⟨node, hn⟩ := Dict.mem_iff.mp (listed x (Dict.mem_of_get? hp))
      exact List.mem_append_right _ (all _ (Dict.get?_iff_mem_entries.mp hp) ((htest parents).mpr hr) node hn
        (t.waiting_of_not_mem hn hin))
  · rw [Dict.mem_iff, Dict.mem_iff]
    have lookup := marks.lookup x
    dsimp only at lookup
    rw [lookup]
    split
    · simp
    · exact Iff.rfl

/-! ## Runs -/

/-- What every call leaves behind. -/
structure Dispatched (d₀ : DAG) (handed : List NodeKey) (d : DAG) : Prop
    extends Tracked d.workflow d.executedNode d.nodeMapping handed where
  complete : ∀ k, ParentsIn d.workflow d.executedNode k → k ∈ handed
  workflow : d.workflow = d₀.workflow
  nodeCount : d.nodeCount = d₀.nodeCount
  nodes : ∀ k, k ∈ d.nodeMapping ↔ k ∈ d₀.nodeMapping

/-- A DAG on which nothing has happened. -/
structure Untouched (d : DAG) : Prop where
  executed : d.executedNode = ∅
  waiting : ∀ k node, d.nodeMapping.get? k = some node → node.status = .waiting
  nodeCount : d.nodeCount = d.nodeMapping.size

variable {d₀ d d' : DAG} {invocationId repeatId : Int}

theorem Listed.mem (h : d₀.Listed) (hk : k ∈ d₀.workflow) : k ∈ d₀.nodeMapping := by
  obtain ⟨parents, hp⟩ := Dict.mem_iff.mp hk
  exact (h _ (Dict.get?_iff_mem_entries.mp hp)).1

theorem getEntryNodes_dispatched (hl : d₀.Listed) (hu : d₀.Untouched)
    (h : d₀.getEntryNodes = (.ok nodes, d)) : Dispatched d₀ nodes d := by
  obtain ⟨e₁, rfl⟩ := Prod.mk.inj h
  have t : Tracked d₀.workflow d₀.executedNode d₀.nodeMapping [] := by
    refine ⟨List.nodup_nil, fun _ hk => (by cases hk), fun x hx => ?_, fun x node hn => ?_⟩
    · rw [hu.executed] at hx
      exact absurd hx (Finset.notMem_empty x)
    · rw [hu.waiting x node hn, statusOf, hu.executed]
      rfl
  have htest (parents : List NodeKey) : decide (parents = []) = true ↔
      ∀ parent ∈ parents, parent ∈ d₀.executedNode := by
    rw [hu.executed, decide_eq_true_iff, List.eq_nil_iff_forall_not_mem]
    simp
  obtain ⟨t', complete, nodes⟩ := t.handOut htest (fun k hk => hl.mem hk) (Prod.ext e₁ rfl)
  rw [List.nil_append] at t' complete
  exact ⟨t', complete, rfl, rfl, nodes⟩

theorem updateResult_dispatched (hl : d₀.Listed) (i : Dispatched d₀ handed d)
    (hin : [invocationId, repeatId] ∈ handed)
    (h : d.updateResult invocationId repeatId = (.ok nodes, d')) : Dispatched d₀ (handed ++ nodes) d' := by
  rw [updateResult] at h
  cases hk : d.nodeMapping.get? [invocationId, repeatId] with
  | none => simp only [hk] at h; cases (Prod.mk.inj h).1
  | some node =>
    simp only [hk] at h
    obtain ⟨e₁, rfl⟩ := Prod.mk.inj h
    have listed : ∀ k ∈ d.workflow,
        k ∈ d.nodeMapping.set [invocationId, repeatId] { node with status := .finished } := by
      intro k hk
      rw [i.workflow] at hk
      exact Dict.mem_set.mpr (.inr ((i.nodes k).mpr (hl.mem hk)))
    have t : Tracked d.workflow (insert [invocationId, repeatId] d.executedNode) _ handed := i.toTracked.finish node hin
    obtain ⟨t', complete, nodes'⟩ := t.handOut (fun parents => decide_eq_true_iff) listed (Prod.ext e₁ rfl)
    refine ⟨t', complete, i.workflow, i.nodeCount, fun k => ?_⟩
    rw [nodes', Dict.mem_set, i.nodes]
    refine or_iff_right_of_imp ?_
    rintro rfl
    exact (i.nodes _).mp (Dict.mem_of_get? hk)

theorem Reaches.dispatched (hl : d₀.Listed) (hu : d₀.Untouched) (run : Reaches d₀ completed handed d) :
    Dispatched d₀ handed d := by
  induction run with
  | entry h => exact getEntryNodes_dispatched hl hu h
  | result run hin h ih => exact updateResult_dispatched hl ih hin h

/-- No call of a run raises. -/
theorem Dispatched.returns (hl : d₀.Listed) (i : Dispatched d₀ handed d)
    (hin : [invocationId, repeatId] ∈ handed) :
    ∃ nodes d', d.updateResult invocationId repeatId = (.ok nodes, d') := by
  have mem (k : NodeKey) (hk : k ∈ d.workflow) : k ∈ d.nodeMapping := by
    rw [i.workflow] at hk
    exact (i.nodes k).mpr (hl.mem hk)
  obtain ⟨parents, hp, -⟩ := i.ready _ hin
  obtain ⟨node, hk⟩ := Dict.mem_iff.mp (mem _ (Dict.mem_of_get? hp))
  obtain ⟨nodes, hr⟩ := handOut_returns
    (fun parents => decide (∀ parent ∈ parents, parent ∈ insert [invocationId, repeatId] d.executedNode))
    (d.nodeMapping.set [invocationId, repeatId] { node with status := .finished }) fun e he =>
      Dict.mem_set.mpr (.inr (mem e.1 (List.mem_map_of_mem he)))
  refine ⟨nodes, (d.updateResult invocationId repeatId).2, Prod.ext ?_ rfl⟩
  rw [updateResult, hk]
  exact hr

/-- The executed set is the set of completed nodes. -/
theorem Reaches.executed_iff (hu : d₀.Untouched) (run : Reaches d₀ completed handed d) (k : NodeKey) :
    k ∈ d.executedNode ↔ k ∈ completed := by
  induction run with
  | entry h =>
    rw [← (Prod.mk.inj h).2]
    show k ∈ d₀.executedNode ↔ _
    rw [hu.executed]
    simp
  | @result completed handed nodes d d' invocationId repeatId run hin h ih =>
    rw [updateResult] at h
    cases hk : d.nodeMapping.get? [invocationId, repeatId] with
    | none => simp only [hk] at h; cases (Prod.mk.inj h).1
    | some node =>
      simp only [hk] at h
      rw [← (Prod.mk.inj h).2, Finset.mem_insert, ih, List.mem_append, List.mem_singleton, or_comm]

/-! ## The payload -/

theorem readNodes_waiting {m₀ : Dict NodeKey Node} {records : List NodeRecord}
    (h : readNodes m₀ records = some m) (h0 : ∀ k node, m₀.get? k = some node → node.status = .waiting) :
    ∀ k node, m.get? k = some node → node.status = .waiting := by
  induction records generalizing m₀ with
  | nil =>
    obtain rfl := Option.some.inj h
    exact h0
  | cons record rest ih =>
    obtain ⟨⟨invocationId, repeatId⟩, -, h⟩ := Option.bind_eq_some_iff.mp h
    refine ih h fun k node hk => ?_
    rw [Dict.get?_set] at hk
    split at hk
    · rw [← Option.some.inj hk]
    · exact h0 k node hk

theorem initFromPayload_untouched {payload : QueryPayload} (h : initFromPayload payload = some d) :
    d.Untouched := by
  obtain ⟨workflow, -, h⟩ := Option.bind_eq_some_iff.mp h
  obtain ⟨mapping, hm, h⟩ := Option.bind_eq_some_iff.mp h
  obtain rfl := Option.some.inj h
  refine ⟨rfl, readNodes_waiting hm fun k node hk => ?_, rfl⟩
  cases hk

end DAG

/-- The nodes handed out are exactly those whose parents have completed, each once and only then; no
call raises; the finished nodes are the completed ones; and the order of completion does not matter. -/
theorem dispatch_exact (payload : QueryPayload) (d₀ : DAG) (hp : DAG.initFromPayload payload = some d₀)
    (hl : d₀.Listed) :
    (∃ nodes d, d₀.getEntryNodes = (.ok nodes, d)) ∧
    ∀ completed handed d, DAG.Reaches d₀ completed handed d →
      (∀ k, k ∈ handed ↔ ∃ parents, d₀.workflow.get? k = some parents ∧ ∀ parent ∈ parents,
        parent ∈ d.executedNode) ∧
      handed.Nodup ∧
      (∀ k, k ∈ d.executedNode ↔ ∃ node, d.nodeMapping.get? k = some node ∧ node.status = .finished) ∧
      (∀ k, k ∈ d.executedNode ↔ k ∈ completed) ∧
      (∀ invocationId repeatId, [invocationId, repeatId] ∈ handed →
        ∃ nodes d', d.updateResult invocationId repeatId = (.ok nodes, d')) ∧
      ∀ completed' handed' d', DAG.Reaches d₀ completed' handed' d' →
        (∀ k, k ∈ completed' ↔ k ∈ completed) → ∀ k, k ∈ handed' ↔ k ∈ handed := by
  have hu := DAG.initFromPayload_untouched hp
  have exact {completed handed : List NodeKey} {d : DAG} (run : DAG.Reaches d₀ completed handed d) (k : NodeKey) :
      k ∈ handed ↔ DAG.ParentsIn d₀.workflow d.executedNode k := by
    have i := run.dispatched hl hu
    rw [← i.workflow]
    exact ⟨i.ready k, i.complete k⟩
  constructor
  · obtain ⟨nodes, hr⟩ := DAG.handOut_returns (fun parents => decide (parents = [])) d₀.nodeMapping
      fun e he => (hl e he).1
    exact ⟨nodes, d₀.getEntryNodes.2, Prod.ext hr rfl⟩
  intro completed handed d run
  have i := run.dispatched hl hu
  refine ⟨exact run, i.nodup, fun k => ⟨fun hk => ?_, ?_⟩, run.executed_iff hu, fun _ _ hin => i.returns hl hin,
    fun completed' handed' d' run' same k => ?_⟩
  · obtain ⟨parents, hpar, -⟩ := i.ready k (i.started k hk)
    have hmem : k ∈ d.nodeMapping := by
      rw [i.workflow] at hpar
      exact (i.nodes k).mpr (hl.mem (Dict.mem_of_get? hpar))
    obtain ⟨node, hn⟩ := Dict.mem_iff.mp hmem
    refine ⟨node, hn, ?_⟩
    rw [i.status k node hn, DAG.statusOf, if_pos hk]
  · rintro ⟨node, hn, hs⟩
    rw [i.status k node hn, DAG.statusOf] at hs
    split at hs
    · assumption
    · split at hs <;> cases hs
  · have executed : d'.executedNode = d.executedNode := by
      ext x
      rw [run'.executed_iff hu, run.executed_iff hu, same]
    rw [exact run, exact run', executed]

/-- A diamond: `2:0` and `3:0` wait for `1:0`, and `4:0` for both. -/
def diamondPayload : QueryPayload where
  nodeDependency := ⟨[("1:0", []), ("2:0", ["1:0"]), ("3:0", ["1:0"]), ("4:0", ["2:0", "3:0"])], by decide⟩
  nodeList := ["1:0", "2:0", "3:0", "4:0"].map fun nodeId =>
    ⟨nodeId, "a", [1], [2], 0, 1, 1, false, true⟩

/-- The two middle nodes can complete in either order. -/
theorem dispatch_exact_diamond : ∃ d₀ d d', DAG.initFromPayload diamondPayload = some d₀ ∧
    DAG.Reaches d₀ [[1, 0], [2, 0], [3, 0]] [[1, 0], [2, 0], [3, 0], [4, 0]] d ∧
    DAG.Reaches d₀ [[1, 0], [3, 0], [2, 0]] [[1, 0], [2, 0], [3, 0], [4, 0]] d' ∧
    ∀ k, k ∈ d.executedNode ↔ k ∈ [[1, 0], [2, 0], [3, 0]] := by
  have returns : (DAG.initFromPayload diamondPayload).map (fun d₀ =>
      let d₁ := d₀.getEntryNodes.2
      let d₂ := (d₁.updateResult 1 0).2
      decide (d₀.Listed ∧ d₀.getEntryNodes.1 = .ok [[1, 0]] ∧ (d₁.updateResult 1 0).1 = .ok [[2, 0], [3, 0]] ∧
        (d₂.updateResult 2 0).1 = .ok [] ∧ ((d₂.updateResult 2 0).2.updateResult 3 0).1 = .ok [[4, 0]] ∧
        (d₂.updateResult 3 0).1 = .ok [] ∧ ((d₂.updateResult 3 0).2.updateResult 2 0).1 = .ok [[4, 0]])) =
      some true := by
    decide +kernel
  obtain ⟨d₀, hp, h⟩ := Option.map_eq_some_iff.mp returns
  obtain ⟨hl, h₁, h₂, h₃, h₄, h₃', h₄'⟩ := of_decide_eq_true h
  have run₁ := DAG.Reaches.entry (Prod.ext h₁ rfl)
  have run₂ := run₁.result (by decide) (Prod.ext h₂ rfl)
  have run₄ := (run₂.result (by decide) (Prod.ext h₃ rfl)).result (by decide) (Prod.ext h₄ rfl)
  have run₄' := (run₂.result (by decide) (Prod.ext h₃' rfl)).result (by decide) (Prod.ext h₄' rfl)
  obtain ⟨-, all⟩ := dispatch_exact diamondPayload d₀ hp hl
  obtain ⟨-, -, -, executed, -, -⟩ := all _ _ _ run₄
  exact ⟨d₀, _, _, hp, run₄, run₄', executed⟩

end CoreFlow
