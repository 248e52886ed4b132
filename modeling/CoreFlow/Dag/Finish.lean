import Mathlib.Order.WellFounded
import Mathlib.Data.Fintype.Order
import Mathlib.Logic.Relation
import CoreFlow.Dag.Dispatch

/-!
# When a query can finish

Only the keys of `node_dependency` are ever handed out, while `is_completed` counts the nodes of
`node_list`. On an acyclic payload nothing gets stuck exactly when the two are the same.
-/

namespace CoreFlow

namespace DAG

/-- `parent` is in the dependency list of `child`. -/
def IsParent (d : DAG) (parent child : NodeKey) : Prop :=
  ∃ parents, d.workflow.get? child = some parents ∧ parent ∈ parents

/-- No node is an ancestor of itself. -/
def Acyclic (d : DAG) : Prop := ∀ k, ¬ Relation.TransGen d.IsParent k k

/-- No node is executing. -/
def Idle (d : DAG) : Prop := ∀ k node, d.nodeMapping.get? k = some node → node.status ≠ .executing

/-- Every node is finished and the query counts as completed. -/
def Done (d : DAG) : Prop :=
  (∀ k node, d.nodeMapping.get? k = some node → node.status = .finished) ∧ d.isCompleted = true

variable {d₀ d d' : DAG} {completed handed nodes : List NodeKey} {k : NodeKey} {node : Node}

theorem readNodes_pairs {m₀ m : Dict NodeKey Node} {records : List NodeRecord}
    (h : readNodes m₀ records = some m) (h0 : ∀ k ∈ m₀, ∃ invocationId repeatId, k = [invocationId, repeatId]) :
    ∀ k ∈ m, ∃ invocationId repeatId, k = [invocationId, repeatId] := by
  induction records generalizing m₀ with
  | nil =>
    obtain rfl := Option.some.inj h
    exact h0
  | cons record rest ih =>
    obtain ⟨⟨invocationId, repeatId⟩, -, h⟩ := Option.bind_eq_some_iff.mp h
    refine ih h fun k hk => ?_
    rcases Dict.mem_set.mp hk with rfl | hk
    · exact ⟨_, _, rfl⟩
    · exact h0 k hk

theorem initFromPayload_pairs {payload : QueryPayload} (h : initFromPayload payload = some d) :
    ∀ k ∈ d.nodeMapping, ∃ invocationId repeatId, k = [invocationId, repeatId] := by
  obtain ⟨workflow, -, h⟩ := Option.bind_eq_some_iff.mp h
  obtain ⟨mapping, hm, h⟩ := Option.bind_eq_some_iff.mp h
  obtain rfl := Option.some.inj h
  exact readNodes_pairs hm fun k hk => absurd hk (Dict.not_mem_empty k)

/-- The executing nodes are those handed out and not executed. -/
theorem Dispatched.executing_iff (hl : d₀.Listed) (i : Dispatched d₀ handed d) :
    d.Idle ↔ ∀ k ∈ handed, k ∈ d.executedNode := by
  constructor
  · intro idle k hk
    by_contra hne
    obtain ⟨parents, hp, -⟩ := i.ready k hk
    rw [i.workflow] at hp
    obtain ⟨node, hn⟩ := Dict.mem_iff.mp ((i.nodes k).mpr (hl.mem (Dict.mem_of_get? hp)))
    refine idle k node hn ?_
    rw [i.status k node hn, statusOf, if_neg hne, if_pos hk]
  · intro all k node hn hs
    rw [i.status k node hn, statusOf] at hs
    split at hs
    · cases hs
    · split at hs
      · rename_i hne hin
        exact hne (all k hin)
      · cases hs

/-- With no node executing, a workflow key that is not executed has a parent that is not. -/
theorem Dispatched.waits (hl : d₀.Listed) (i : Dispatched d₀ handed d) (idle : d.Idle)
    (hk : k ∈ d₀.workflow) (hne : k ∉ d.executedNode) :
    ∃ parent, d₀.IsParent parent k ∧ parent ∈ d₀.nodeMapping ∧ parent ∉ d.executedNode := by
  obtain ⟨parents, hp⟩ := Dict.mem_iff.mp hk
  by_contra hall
  push Not at hall
  have ready : ParentsIn d.workflow d.executedNode k := by
    rw [i.workflow]
    refine ⟨parents, hp, fun parent hin => ?_⟩
    exact hall parent ⟨parents, hp, hin⟩ ((hl _ (Dict.get?_iff_mem_entries.mp hp)).2 parent hin)
  exact hne ((i.executing_iff hl).mp idle k (i.complete k ready))

/-- Along an acyclic relation on the workflow keys, some key that is not executed has its parents in
the executed set. -/
theorem exists_minimal (ha : d₀.Acyclic) (S : NodeKey → Prop) (hk : k ∈ d₀.workflow) (hS : S k) :
    ∃ k ∈ d₀.workflow, S k ∧ ∀ parent ∈ d₀.workflow, d₀.IsParent parent k → ¬ S parent := by
  let r (a b : { k // k ∈ d₀.workflow.keys }) : Prop := Relation.TransGen d₀.IsParent a.1 b.1
  have : Finite { k // k ∈ d₀.workflow.keys } := d₀.workflow.keys.finite_toSet.to_subtype
  have : IsTrans _ r := ⟨fun _ _ _ h h' => h.trans h'⟩
  have : Std.Irrefl r := ⟨fun a => ha a.1⟩
  have wf : WellFounded r := Finite.wellFounded_of_trans_of_irrefl r
  obtain ⟨⟨m, hm⟩, hSm, least⟩ := wf.has_min {a | S a.1} ⟨⟨k, hk⟩, hS⟩
  exact ⟨m, hm, hSm, fun parent hparent hrel hSp => least ⟨parent, hparent⟩ hSp (.single hrel)⟩

theorem Dispatched.done (hl : d₀.Listed) (hu : d₀.Untouched) (ha : d₀.Acyclic)
    (hall : ∀ k ∈ d₀.nodeMapping, k ∈ d₀.workflow) (i : Dispatched d₀ handed d) (idle : d.Idle) : d.Done := by
  have executed : ∀ k ∈ d₀.workflow, k ∈ d.executedNode := by
    intro k hk
    by_contra hne
    obtain ⟨m, hm, hmne, least⟩ := exists_minimal ha (fun k => k ∉ d.executedNode) hk hne
    obtain ⟨parent, hrel, hnode, hpne⟩ := i.waits hl idle hm hmne
    exact least parent (hall parent hnode) hrel hpne
  refine ⟨fun k node hn => ?_, ?_⟩
  · have hk := executed k (hall k ((i.nodes k).mp (Dict.mem_of_get? hn)))
    rw [i.status k node hn, statusOf, if_pos hk]
  · -- the executed nodes are those of the mapping, which are counted without repetition
    have same : d.executedNode = d₀.nodeMapping.keys.toFinset := by
      ext k
      rw [List.mem_toFinset]
      refine ⟨fun hk => ?_, fun hk => executed k (hall k hk)⟩
      obtain ⟨parents, hp, -⟩ := i.ready k (i.started k hk)
      rw [i.workflow] at hp
      exact hl.mem (Dict.mem_of_get? hp)
    rw [isCompleted, decide_eq_true_iff, same, i.nodeCount, hu.nodeCount,
      List.toFinset_card_of_nodup d₀.nodeMapping.nodup_keys, Dict.size_eq_length_keys]

/-- Completing one executing node after the other ends with none. -/
theorem Reaches.exists_idle (hl : d₀.Listed) (hu : d₀.Untouched)
    (hpairs : ∀ k ∈ d₀.nodeMapping, ∃ invocationId repeatId, k = [invocationId, repeatId])
    (run : Reaches d₀ completed handed d) :
    ∃ completed' handed' d', Reaches d₀ completed' handed' d' ∧ d'.Idle := by
  -- the measure is the number of workflow keys that are not executed
  induction hn : (d₀.workflow.keys.toFinset \ d.executedNode).card using Nat.strong_induction_on
    generalizing completed handed d with
  | _ n ih =>
    have i := run.dispatched hl hu
    by_cases idle : d.Idle
    · exact ⟨completed, handed, d, run, idle⟩
    rw [i.executing_iff hl] at idle
    push Not at idle
    obtain ⟨k, hin, hne⟩ := idle
    obtain ⟨parents, hp, -⟩ := i.ready k hin
    rw [i.workflow] at hp
    obtain ⟨invocationId, repeatId, rfl⟩ := hpairs k (hl.mem (Dict.mem_of_get? hp))
    obtain ⟨nodes, d', h⟩ := i.returns hl hin
    have run' := run.result hin h
    refine ih _ ?_ run' rfl
    rw [← hn]
    refine Finset.card_lt_card (Finset.ssubset_iff_of_subset ?_ |>.mpr ⟨[invocationId, repeatId], ?_, ?_⟩)
    · refine Finset.sdiff_subset_sdiff (Finset.Subset.refl _) fun x hx => ?_
      rw [run'.executed_iff hu]
      exact List.mem_append_left _ ((run.executed_iff hu x).mp hx)
    · exact Finset.mem_sdiff.mpr ⟨List.mem_toFinset.mpr (Dict.mem_of_get? hp), hne⟩
    · intro hx
      refine (Finset.mem_sdiff.mp hx).2 ((run'.executed_iff hu _).mpr ?_)
      exact List.mem_append_right _ (List.mem_singleton.mpr rfl)

end DAG

/-- On an acyclic payload, every idle state of every run is finished if and only if every listed node
is a key of the dependency map. -/
theorem idle_done_iff (payload : QueryPayload) (d₀ : DAG) (hp : DAG.initFromPayload payload = some d₀)
    (hl : d₀.Listed) (ha : d₀.Acyclic) :
    (∀ completed handed d, DAG.Reaches d₀ completed handed d → d.Idle → d.Done) ↔
      ∀ k ∈ d₀.nodeMapping, k ∈ d₀.workflow := by
  have hu := DAG.initFromPayload_untouched hp
  constructor
  · intro done k hk
    obtain ⟨nodes, hr⟩ := DAG.handOut_returns (fun parents => decide (parents = [])) d₀.nodeMapping
      fun e he => (hl e he).1
    obtain ⟨completed, handed, d, run, idle⟩ :=
      (DAG.Reaches.entry (Prod.ext hr rfl)).exists_idle hl hu (DAG.initFromPayload_pairs hp)
    have i := run.dispatched hl hu
    obtain ⟨node, hn⟩ := Dict.mem_iff.mp ((i.nodes k).mpr hk)
    have hs := (done completed handed d run idle).1 k node hn
    -- a finished node was handed out, so it is a workflow key
    by_contra hnot
    have hnot' : k ∉ handed := by
      intro hin
      obtain ⟨parents, hpar, -⟩ := i.ready k hin
      rw [i.workflow] at hpar
      exact hnot (Dict.mem_of_get? hpar)
    rw [i.waiting_of_not_mem hn hnot'] at hs
    cases hs
  · intro hall completed handed d run idle
    exact (run.dispatched hl hu).done hl hu ha hall idle

/-- The relation of a payload whose parents come before their children in the map is acyclic. -/
theorem DAG.acyclic_of_rank {d : DAG} (rank : NodeKey → Nat)
    (h : ∀ e ∈ d.workflow.entries, ∀ parent ∈ e.2, rank parent < rank e.1) : d.Acyclic := by
  have lt {a b : NodeKey} (hab : Relation.TransGen d.IsParent a b) : rank a < rank b := by
    induction hab with
    | single hrel =>
      obtain ⟨parents, hp, hin⟩ := hrel
      exact h _ (Dict.get?_iff_mem_entries.mp hp) _ hin
    | tail _ hrel ih =>
      obtain ⟨parents, hp, hin⟩ := hrel
      exact ih.trans (h _ (Dict.get?_iff_mem_entries.mp hp) _ hin)
  exact fun k hk => Nat.lt_irrefl _ (lt hk)

theorem idle_done_iff_diamond : ∃ d₀, DAG.initFromPayload diamondPayload = some d₀ ∧
    ∀ completed handed d, DAG.Reaches d₀ completed handed d → d.Idle → d.Done := by
  have returns : (DAG.initFromPayload diamondPayload).map (fun d₀ =>
      decide (d₀.Listed ∧ (∀ k ∈ d₀.nodeMapping.keys, k ∈ d₀.workflow) ∧
        ∀ e ∈ d₀.workflow.entries, ∀ parent ∈ e.2, (parent.headD 0).toNat < (e.1.headD 0).toNat)) = some true := by
    decide +kernel
  obtain ⟨d₀, hp, h⟩ := Option.map_eq_some_iff.mp returns
  obtain ⟨hl, hall, hrank⟩ := of_decide_eq_true h
  exact ⟨d₀, hp, (idle_done_iff diamondPayload d₀ hp hl (DAG.acyclic_of_rank _ hrank)).mpr hall⟩

/-- One node, and the default dependency map. -/
def lonePayload : QueryPayload where
  nodeDependency := Dict.empty
  nodeList := [⟨"1:0", "a", [1], [2], 0, 1, 1, false, true⟩]

/-- The node is never handed out: the run is idle at once, and the query never completes. -/
theorem lonePayload_hangs : ∃ d₀ d node, DAG.initFromPayload lonePayload = some d₀ ∧ d₀.Listed ∧ d₀.Acyclic ∧
    DAG.Reaches d₀ [] [] d ∧ d.Idle ∧ d.nodeMapping.get? [1, 0] = some node ∧ node.status = .waiting ∧
    d.isCompleted = false := by
  have returns : (DAG.initFromPayload lonePayload).bind (fun d₀ =>
      (d₀.getEntryNodes.2.nodeMapping.get? [1, 0]).map fun node =>
        decide (d₀.Listed ∧ d₀.getEntryNodes.1 = .ok [] ∧ d₀.workflow.entries = [] ∧ node.status = .waiting ∧
          (∀ e ∈ d₀.getEntryNodes.2.nodeMapping.entries, e.2.status ≠ .executing) ∧
          d₀.getEntryNodes.2.isCompleted = false)) = some true := by
    decide +kernel
  obtain ⟨d₀, hp, h⟩ := Option.bind_eq_some_iff.mp returns
  obtain ⟨node, hn, h⟩ := Option.map_eq_some_iff.mp h
  obtain ⟨hl, hentry, hw, hs, hidle, hcompleted⟩ := of_decide_eq_true h
  have ha : d₀.Acyclic := DAG.acyclic_of_rank (fun _ => 0) fun e he => by
    rw [hw] at he
    cases he
  exact ⟨d₀, _, node, hp, hl, ha, .entry (Prod.ext hentry rfl),
    fun k node hk => hidle _ (Dict.get?_iff_mem_entries.mp hk), hn, hs, hcompleted⟩

end CoreFlow
