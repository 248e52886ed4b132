import CoreFlow.Dag.Finish
import CoreFlow.Controller.Completion

/-!
# What an unfinished query is waiting for

A node that has been handed out is on its way to an instance or has been sent to one, and a success report
that has come in is being handled or has been. So when no coroutine of the query is left, every node that is
not executed has been lost on one of these ways, and there is such a node unless the query has completed.
-/

namespace CoreFlow

namespace DAG

/-- The finished nodes are the executed ones. -/
def Finishes (d : DAG) : Prop :=
  ∀ k node, d.nodeMapping.get? k = some node → (node.status = .finished ↔ k ∈ d.executedNode)

/-- Every node whose parents are executed has been handed out. -/
def CaughtUp (d : DAG) : Prop :=
  ∀ k, ParentsIn d.workflow d.executedNode k → ∀ node, d.nodeMapping.get? k = some node → node.status ≠ .waiting

/-- What a call that returns `nodes` makes of the statuses. -/
structure Moves (d d' : DAG) (nodes : List NodeKey) : Prop where
  finishes : d'.Finishes
  caughtUp : d'.CaughtUp
  handed : ∀ k ∈ nodes, ∃ node, d'.nodeMapping.get? k = some node ∧ node.status = .executing
  executing : ∀ k node, d'.nodeMapping.get? k = some node → node.status = .executing →
    k ∈ nodes ∨ d.nodeMapping.get? k = some node

variable {test : List NodeKey → Bool} {w : Dict NodeKey (List NodeKey)} {m : Dict NodeKey Node} {d : DAG}
  {nodes : List NodeKey} {k : NodeKey} {node : Node}

/-- A node after the loop: it has been handed out, or the loop has passed it over with reason. -/
theorem handOut_lookup (h : (handOut test w.entries m).1 = .ok nodes)
    (hk : (handOut test w.entries m).2.get? k = some node) :
    (k ∈ nodes ∧ node.status = .executing ∧ ∃ before, m.get? k = some before ∧ before.status = .waiting) ∨
      (m.get? k = some node ∧
        ∀ parents, w.get? k = some parents → test parents = true → node.status ≠ .waiting) := by
  obtain ⟨marked, marks, ok⟩ := handOut_marks test w.nodup m
  obtain ⟨rfl, all⟩ := ok nodes h
  rw [marks.lookup] at hk
  split at hk
  · rename_i hin
    obtain ⟨before, hb, rfl⟩ := Option.map_eq_some_iff.mp hk
    obtain ⟨waiting, hw, hs⟩ := marks.waiting k hin
    rw [hb] at hw
    exact .inl ⟨hin, rfl, before, hb, Option.some.inj hw ▸ hs⟩
  · rename_i hnot
    refine .inr ⟨hk, fun parents hp ht hs => ?_⟩
    exact hnot (all (k, parents) (Dict.get?_iff_mem_entries.mp hp) ht node hk hs)

theorem handOut_executing (h : (handOut test w.entries m).1 = .ok nodes) (hk : k ∈ nodes) :
    ∃ node, (handOut test w.entries m).2.get? k = some node ∧ node.status = .executing := by
  obtain ⟨marked, marks, ok⟩ := handOut_marks test w.nodup m
  obtain ⟨rfl, -⟩ := ok nodes h
  obtain ⟨node, hn, -⟩ := marks.waiting k hk
  refine ⟨{ node with status := .executing }, ?_, rfl⟩
  rw [marks.lookup, if_pos hk, hn]
  rfl

theorem getEntryNodes_moves (listed : ∀ e ∈ d.workflow.entries, e.1 ∈ d.nodeMapping) (hf : d.Finishes)
    (hc : d.CaughtUp ∨ d.executedNode = ∅) :
    ∃ nodes, d.getEntryNodes.1 = .ok nodes ∧ Moves d d.getEntryNodes.2 nodes := by
  obtain ⟨nodes, hr⟩ := handOut_returns (fun parents => decide (parents = [])) d.nodeMapping listed
  refine ⟨nodes, hr, fun k node hk => ?_, fun k hp node hk => ?_, fun k => handOut_executing hr,
    fun k node hk hs => ?_⟩
  · rcases handOut_lookup hr hk with ⟨-, hs, before, hb, hw⟩ | ⟨hb, -⟩
    · have hnot := (not_congr (hf k before hb)).mp (by rw [hw]; decide)
      rw [hs]
      exact iff_of_false (by decide) hnot
    · exact hf k node hb
  · rcases handOut_lookup hr hk with ⟨-, hs, -⟩ | ⟨hb, passed⟩
    · rw [hs]
      decide
    · rcases hc with hc | hc
      · exact hc k hp node hb
      · obtain ⟨parents, hp, all⟩ := hp
        change ∀ parent ∈ parents, parent ∈ d.executedNode at all
        refine passed parents hp (decide_eq_true ?_)
        rw [hc] at all
        exact List.eq_nil_iff_forall_not_mem.mpr fun parent hin => Finset.notMem_empty parent (all parent hin)
  · rcases handOut_lookup hr hk with ⟨hin, -⟩ | ⟨hb, -⟩
    · exact .inl hin
    · exact .inr hb

theorem updateResult_moves {invocationId repeatId : Int} (listed : ∀ e ∈ d.workflow.entries, e.1 ∈ d.nodeMapping)
    (hf : d.Finishes) (hin : [invocationId, repeatId] ∈ d.nodeMapping) :
    ∃ nodes, (d.updateResult invocationId repeatId).1 = .ok nodes ∧
      Moves d (d.updateResult invocationId repeatId).2 nodes ∧
      (d.updateResult invocationId repeatId).2.executedNode = insert [invocationId, repeatId] d.executedNode := by
  obtain ⟨done, hdone⟩ := Dict.mem_iff.mp hin
  obtain ⟨nodes, hr⟩ := handOut_returns
    (fun parents => decide (∀ parent ∈ parents, parent ∈ insert [invocationId, repeatId] d.executedNode))
    (d.nodeMapping.set [invocationId, repeatId] { done with status := .finished })
    fun e he => Dict.mem_set.mpr (.inr (listed e he))
  -- the node that is marked as finished, and the others
  have before {k : NodeKey} {node : Node}
      (hk : (d.nodeMapping.set [invocationId, repeatId] { done with status := .finished }).get? k = some node) :
      (k = [invocationId, repeatId] ∧ node.status = .finished) ∨
        (k ≠ [invocationId, repeatId] ∧ d.nodeMapping.get? k = some node) := by
    rw [Dict.get?_set] at hk
    split at hk
    · rename_i hkey
      exact .inl ⟨hkey.symm, Option.some.inj hk ▸ rfl⟩
    · rename_i hkey
      exact .inr ⟨Ne.symm hkey, hk⟩
  rw [updateResult, hdone]
  refine ⟨nodes, hr, ⟨fun k node hk => ?_, fun k hp node hk => ?_, fun k => handOut_executing hr,
    fun k node hk hs => ?_⟩, rfl⟩
  · show node.status = .finished ↔ k ∈ insert [invocationId, repeatId] d.executedNode
    rw [Finset.mem_insert]
    rcases handOut_lookup hr hk with ⟨-, hs, waiting, hb, hw⟩ | ⟨hb, -⟩
    · rcases before hb with ⟨-, hfin⟩ | ⟨hne, hb⟩
      · rw [hw] at hfin
        cases hfin
      · have hnot := (not_congr (hf k waiting hb)).mp (by rw [hw]; decide)
        rw [hs]
        exact iff_of_false (by decide) (not_or.mpr ⟨hne, hnot⟩)
    · rcases before hb with ⟨rfl, hfin⟩ | ⟨hne, hb⟩
      · exact iff_of_true hfin (.inl rfl)
      · rw [hf k node hb]
        exact (or_iff_right hne).symm
  · rcases handOut_lookup hr hk with ⟨-, hs, -⟩ | ⟨-, passed⟩
    · rw [hs]
      decide
    · obtain ⟨parents, hp, all⟩ := hp
      exact passed parents hp (decide_eq_true all)
  · rcases handOut_lookup hr hk with ⟨hin, -⟩ | ⟨hb, -⟩
    · exact .inl hin
    · rcases before hb with ⟨-, hfin⟩ | ⟨-, hb⟩
      · rw [hs] at hfin
        cases hfin
      · exact .inr hb

end DAG

namespace QueryRun

/-- In some event of the run a route raised or found no instance. -/
def RoutingFailed (events : List ControllerEvent) : Prop :=
  ∃ i j result, .resume i (.routed j result) ∈ events ∧ result ≠ .routed

/-- A success report of the node was answered by an exception. -/
def ReportLost (c : QueryRun) (k : NodeKey) : Prop :=
  ∃ m, m.key = k ∧ m.success = true ∧ (m, .raised) ∈ c.answers

/-- Every node that has been handed out and every success report is somewhere; `failed` says whether a route
may have failed. -/
structure Accounted (failed : Prop) (c : QueryRun) : Prop where
  finishes : c.state.dag.Finishes
  caughtUp : c.state.dag.CaughtUp ∨ .execute ∈ c.tasks ∧ c.state.dag.executedNode = ∅
  handed : ∀ k node, c.state.dag.nodeMapping.get? k = some node → node.status = .executing →
    failed ∨ k ∈ c.dispatched ∨ k ∈ c.outstanding
  ready : ∀ k node, c.state.dag.nodeMapping.get? k = some node → node.status = .executing →
    DAG.ParentsIn c.state.dag.workflow c.state.dag.executedNode k
  reports : ∀ k ∈ c.reported, k ∈ c.state.dag.nodeMapping →
    k ∈ c.state.dag.executedNode ∨ (∃ t ∈ c.tasks, t.pendingReport = some k) ∨ c.ReportLost k
  migrates : ∀ m, .migrating m ∈ c.tasks → m.success = true
  completes : c.state.dag.isCompleted = true → c.state.dag.executedNode ≠ ∅ → c.state.completed = true

variable {d₀ d' : DAG} {c c' : QueryRun} {i : Nat} {t : Task} {left : List Task} {nodes : List NodeKey}
  {failed : Prop} {k : NodeKey}

theorem mem_of_mem {α : Type} {l : List α} {a b : α} (left : List α) (ha : l[i]? = some a) (h : b ∈ l) :
    b = a ∨ b ∈ l.take i ++ left ++ l.drop (i + 1) := by
  rw [split_at ha, List.mem_append, List.mem_cons] at h
  rw [List.append_assoc, List.mem_append, List.mem_append]
  rcases h with h | rfl | h
  · exact .inr (.inl h)
  · exact .inl rfl
  · exact .inr (.inr (.inr h))

theorem mem_of_left {α : Type} {l left : List α} {b : α} (h : b ∈ left) :
    b ∈ l.take i ++ left ++ l.drop (i + 1) := by
  rw [List.append_assoc]
  exact List.mem_append_right _ (List.mem_append_left _ h)

/-- What the others have, and what is left of this one, is still there. -/
theorem mem_flatMap_of_mem {α : Type} {f : α → List NodeKey} {l : List α} {a : α} (left : List α)
    (ha : l[i]? = some a) (h : k ∈ l.flatMap f) :
    k ∈ f a ∨ k ∈ (l.take i ++ left ++ l.drop (i + 1)).flatMap f := by
  obtain ⟨b, hb, hk⟩ := List.mem_flatMap.mp h
  rcases mem_of_mem left ha hb with rfl | hin
  · exact .inl hk
  · exact .inr (List.mem_flatMap.mpr ⟨b, hin, hk⟩)

theorem Accounted.setError (a : Accounted failed c) (error : Option String) : Accounted failed (c.setError error) :=
  ⟨a.finishes, a.caughtUp, a.handed, a.ready, a.reports, a.migrates, a.completes⟩

theorem ReportLost.answer (h : c.ReportLost k) (m : NodeCompleteRequest) (r : Answer) : (c.answer m r).ReportLost k :=
  h.imp fun _ ⟨hkey, hs, hin⟩ => ⟨hkey, hs, List.mem_append_left _ hin⟩

theorem Accounted.answer (a : Accounted failed c) (m : NodeCompleteRequest) (r : Answer) :
    Accounted failed (c.answer m r) := by
  refine ⟨a.finishes, a.caughtUp, a.handed, a.ready, fun k hk hm => ?_, a.migrates, a.completes⟩
  rcases a.reports k hk hm with h | h | h
  · exact .inl h
  · exact .inr (.inl h)
  · exact .inr (.inr (h.answer m r))

theorem Accounted.checkCompleted (a : Accounted failed c) : Accounted failed c.checkCompleted := by
  unfold QueryRun.checkCompleted
  split
  · exact ⟨a.finishes, a.caughtUp, a.handed, a.ready, a.reports, a.migrates, fun _ _ => rfl⟩
  · exact a

/-- A task ends, or waits for something else; the DAG is as it was. -/
theorem Accounted.replace (a : Accounted failed c) (ht : c.tasks[i]? = some t) {dispatched : List NodeKey}
    {answers : List (NodeCompleteRequest × Answer)} (hexec : t ≠ .execute) (sent : ∀ k ∈ c.dispatched, k ∈ dispatched)
    (answered : ∀ x ∈ c.answers, x ∈ answers)
    (nodes : ∀ k ∈ t.outstanding, failed ∨ k ∈ dispatched ∨ k ∈ left.flatMap Task.outstanding)
    (report : ∀ k ∈ t.pendingReport, (∃ t' ∈ left, t'.pendingReport = some k) ∨
      ∃ m, m.key = k ∧ m.success = true ∧ (m, .raised) ∈ answers)
    (migrates : ∀ m, .migrating m ∈ left → m.success = true) :
    Accounted failed { c with tasks := c.replaceTask i left, dispatched := dispatched, answers := answers } := by
  refine ⟨a.finishes, a.caughtUp.imp_right fun h => ⟨?_, h.2⟩, fun k node hn hs => ?_, a.ready, fun k hk hm => ?_,
    fun m hm => ?_, a.completes⟩
  · rcases mem_of_mem left ht h.1 with he | hin
    · exact absurd he.symm hexec
    · exact hin
  · rcases a.handed k node hn hs with h | h | h
    · exact .inl h
    · exact .inr (.inl (sent k h))
    · rcases mem_flatMap_of_mem left ht h with hin | hin
      · rcases nodes k hin with h | h | h
        · exact .inl h
        · exact .inr (.inl h)
        · obtain ⟨t', ht', hk⟩ := List.mem_flatMap.mp h
          exact .inr (.inr (List.mem_flatMap.mpr ⟨t', mem_of_left ht', hk⟩))
      · exact .inr (.inr hin)
  · rcases a.reports k hk hm with h | ⟨t', ht', hp⟩ | ⟨m, hkey, hs, hin⟩
    · exact .inl h
    · rcases mem_of_mem left ht ht' with rfl | hin
      · rcases report k hp with ⟨t'', h, hp⟩ | h
        · exact .inr (.inl ⟨t'', mem_of_left h, hp⟩)
        · exact .inr (.inr h)
      · exact .inr (.inl ⟨t', hin, hp⟩)
    · exact .inr (.inr ⟨m, hkey, hs, answered _ hin⟩)
  · rcases mem_replace hm with hin | hin
    · exact migrates m hin
    · exact a.migrates m hin

/-- A task has called into the DAG, and gives way to one that sends the nodes it got. -/
theorem Accounted.handOut (a : Accounted failed c) (ht : c.tasks[i]? = some t)
    (moves : DAG.Moves c.state.dag d' nodes) (out : DAG.HandsOut c.state.dag d' nodes) {completed : Bool}
    (hnone : t.outstanding = []) (hleft : left.flatMap Task.outstanding = nodes)
    (done : ∀ k ∈ t.pendingReport, k ∈ d'.executedNode) (migrates : ∀ m, .migrating m ∉ left)
    (completes : d'.isCompleted = true → d'.executedNode ≠ ∅ → completed = true) :
    Accounted failed { c with state := ⟨d', completed, c.state.error⟩, tasks := c.replaceTask i left } := by
  refine ⟨moves.finishes, .inl moves.caughtUp, fun k node hn hs => ?_, fun k node hn hs => ?_, fun k hk hm => ?_,
    fun m hm => ?_, completes⟩
  · rcases moves.executing k node hn hs with hin | hb
    · obtain ⟨t', ht', hk⟩ := List.mem_flatMap.mp (hleft ▸ hin : k ∈ left.flatMap Task.outstanding)
      exact .inr (.inr (List.mem_flatMap.mpr ⟨t', mem_of_left ht', hk⟩))
    · refine (a.handed k node hb hs).imp_right fun h => h.imp_right fun h => ?_
      rcases mem_flatMap_of_mem left ht h with hin | hin
      · rw [hnone] at hin
        cases hin
      · exact hin
  · rcases moves.executing k node hn hs with hin | hb
    · exact out.ready k hin
    · obtain ⟨parents, hp, executed⟩ := a.ready k node hb hs
      exact ⟨parents, (congrArg (·.get? k) out.workflow).trans hp, fun parent hin => out.grows (executed parent hin)⟩
  · rcases a.reports k hk ((out.mem k).mp hm) with h | ⟨t', ht', hp⟩ | h
    · exact .inl (out.grows h)
    · rcases mem_of_mem left ht ht' with rfl | hin
      · exact .inl (done k hp)
      · exact .inr (.inl ⟨t', hin, hp⟩)
    · exact .inr (.inr h)
  · rcases mem_replace hm with hin | hin
    · exact absurd hin (migrates m)
    · exact a.migrates m hin

theorem not_migrating_dispatching (children : List Dispatch) (caller : Option NodeCompleteRequest)
    (m : NodeCompleteRequest) : .migrating m ∉ [Task.dispatching children caller] := by
  intro h
  cases List.mem_singleton.mp h

theorem Accounted.execute (a : Accounted failed c) (ht : c.tasks[i]? = some .execute)
    (listed : ∀ e ∈ c.state.dag.workflow.entries, e.1 ∈ c.state.dag.nodeMapping)
    (ha : c.advance .execute .go = some (c', left)) :
    Accounted failed { c' with tasks := c.replaceTask i left } := by
  obtain ⟨nodes, hr, moves⟩ := DAG.getEntryNodes_moves listed a.finishes (a.caughtUp.imp_right (·.2))
  have out := DAG.getEntryNodes_handsOut c.state.dag
  rw [hr] at out
  have done : ∀ k ∈ Task.execute.pendingReport, k ∈ c.state.dag.getEntryNodes.2.executedNode := fun k hk => by cases hk
  simp only [advance, if_true, hr] at ha
  cases nodes with
  | nil =>
    cases ha
    exact a.handOut ht moves out rfl rfl done (fun m hm => by cases hm) a.completes
  | cons node nodes =>
    cases ha
    exact a.handOut ht moves out rfl (outstanding_routing _ _) done (not_migrating_dispatching _ _) a.completes

theorem Accounted.completeNode (a : Accounted failed c) (hu : d₀.nodeCount = d₀.nodeMapping.size)
    (listed : ∀ e ∈ c.state.dag.workflow.entries, e.1 ∈ c.state.dag.nodeMapping) {m : NodeCompleteRequest}
    (ht : c.tasks[i]? = some t) (hreport : t.pendingReport = some m.key) (hsuccess : m.success = true)
    (hexec : t ≠ .execute) (hnone : t.outstanding = [])
    (sound : Sound d₀ { (c.completeNode m).1 with tasks := c.replaceTask i (c.completeNode m).2 }) :
    Accounted failed { (c.completeNode m).1 with tasks := c.replaceTask i (c.completeNode m).2 } := by
  by_cases hm : m.key ∈ c.state.dag.nodeMapping
  · obtain ⟨nodes, hr, moves, executed⟩ := DAG.updateResult_moves listed a.finishes hm
    obtain ⟨out, -⟩ := DAG.updateResult_handsOut c.state.dag m.invocationId m.repeatId
    rw [hr] at out
    have done : ∀ k ∈ t.pendingReport, k ∈ (c.state.dag.updateResult m.invocationId m.repeatId).2.executedNode := by
      intro k hk
      rw [executed, ← Option.some.inj (hreport.symm.trans hk)]
      exact Finset.mem_insert_self _ _
    unfold QueryRun.completeNode at sound ⊢
    dsimp only at sound ⊢
    rw [hr] at sound ⊢
    cases nodes with
    | nil =>
      have h {completed : Bool} (flag : _ → _ → completed = true) :=
        a.handOut ht moves out hnone (rfl : ([] : List Task).flatMap Task.outstanding = []) done
          (fun m hm => by cases hm) flag
      unfold QueryRun.checkCompleted
      dsimp only
      split
      · exact (h fun _ _ => rfl).answer m .ok
      · exact (h fun hc => absurd hc ‹_›).answer m .ok
    | cons node nodes =>
      -- a node that has just been handed out is not executed
      refine a.handOut ht moves out hnone (outstanding_routing _ _) done (not_migrating_dispatching _ _) fun hc _ => ?_
      obtain ⟨entry, hn, hs⟩ := moves.handed node List.mem_cons_self
      have hin := completed_iff sound hu hc node ((sound.mem node).mp (Dict.mem_of_get? hn))
      rw [(moves.finishes node entry hn).mpr hin] at hs
      cases hs
  · have hc : c.completeNode m = (c.answer m .raised, []) := by
      rw [QueryRun.completeNode, DAG.updateResult_unknown hm]
      rfl
    rw [hc]
    refine a.replace ht hexec (fun _ hk => hk) (fun _ hx => List.mem_append_left _ hx) (fun k hk => ?_)
      (fun k hk => .inr ⟨m, ?_, hsuccess, List.mem_append_right _ (List.mem_singleton.mpr rfl)⟩) fun m hm => by cases hm
    · rw [hnone] at hk
      cases hk
    · exact Option.some.inj (hreport.symm.trans hk)

theorem Accounted.advanceChild (a : Accounted failed c) {children : List Dispatch} {caller : Option NodeCompleteRequest}
    {j : Nat} {child : Dispatch} {r : Resume} {rest : List Dispatch}
    (ht : c.tasks[i]? = some (.dispatching children caller)) (hj : children[j]? = some child)
    (hfail : ∀ j result, r = .routed j result → result ≠ .routed → failed)
    (ha : c.advanceChild child r = some (c', rest)) :
    Accounted failed { c' with
      tasks := c.replaceTask i [.dispatching (children.take j ++ rest ++ children.drop (j + 1)) caller] } := by
  -- the node of the child goes on, is sent, or is given up
  have move {dispatched : List NodeKey} (sent : ∀ k ∈ c.dispatched, k ∈ dispatched)
      (goes : ∀ k ∈ child.outstanding, failed ∨ k ∈ dispatched) :
      Accounted failed { c with
        tasks := c.replaceTask i [.dispatching (children.take j ++ rest ++ children.drop (j + 1)) caller]
        dispatched := dispatched } := by
    refine a.replace ht (by rintro ⟨⟩) sent (fun _ hx => hx) (fun k hk => ?_) (fun k hk => by cases hk)
      fun m hm => absurd hm (not_migrating_dispatching _ _ m)
    rcases mem_flatMap_of_mem rest hj hk with hin | hin
    · exact (goes k hin).imp_right .inl
    · refine .inr (.inr ?_)
      rw [List.flatMap_singleton]
      exact hin
  have given {j : Nat} {result : RouteResult} {node : NodeKey} (hr : r = .routed j result) (hne : result ≠ .routed) :
      ∀ k ∈ (Dispatch.routing node).outstanding, failed ∨ k ∈ c.dispatched :=
    fun _ _ => .inl (hfail j result hr hne)
  have answered {node : NodeKey} : ∀ k ∈ (Dispatch.sending node).outstanding, failed ∨ k ∈ c.dispatched :=
    fun k hk => by cases hk
  unfold QueryRun.advanceChild at ha
  split at ha
  all_goals cases ha
  · exact move (fun _ hk => hk) (given rfl (by decide))
  · exact (move (fun _ hk => hk) (given rfl (by decide))).setError _
  · exact move (fun k hk => List.mem_append_left _ hk) fun k hk => .inr (List.mem_append_right _ hk)
  · exact move (fun _ hk => hk) answered
  · exact (move (fun _ hk => hk) answered).setError _
  · exact (move (fun _ hk => hk) answered).setError _

theorem Accounted.advance (a : Accounted failed c) (sound : Sound d₀ c) (hl : d₀.Listed)
    (hu : d₀.nodeCount = d₀.nodeMapping.size) {r : Resume}
    (hfail : ∀ j result, r = .routed j result → result ≠ .routed → failed)
    (ht : c.tasks[i]? = some t) (ha : c.advance t r = some (c', left)) :
    Accounted failed { c' with tasks := c.replaceTask i left } := by
  have listed : ∀ e ∈ c.state.dag.workflow.entries, e.1 ∈ c.state.dag.nodeMapping := by
    rw [sound.workflow]
    exact fun e he => (sound.mem e.1).mpr (hl e he).1
  cases t with
  | execute =>
    have hgo : r = .go := by
      by_contra hne
      rw [QueryRun.advance, if_neg hne] at ha
      cases ha
    rw [hgo] at ha
    exact a.execute ht listed ha
  | received m =>
    unfold QueryRun.advance at ha
    dsimp only at ha
    split at ha
    · split at ha
      · rename_i hfailure
        cases ha
        refine (a.setError m.error).replace ht (by rintro ⟨⟩) (fun _ hk => hk) (fun _ hx => List.mem_append_left _ hx)
          (fun k hk => by cases hk) (fun k hk => ?_) fun m hm => by cases hm
        rw [Task.pendingReport, hfailure] at hk
        cases hk
      rename_i hne
      have hsuccess : m.success = true := by simpa using hne
      have hreport : (Task.received m).pendingReport = some m.key := by rw [Task.pendingReport, if_pos hsuccess]
      split at ha
      · cases ha
        refine a.replace ht (by rintro ⟨⟩) (fun _ hk => hk) (fun _ hx => hx) (fun k hk => by cases hk)
          (fun k hk => .inl ⟨_, List.mem_singleton.mpr rfl, hreport.symm.trans hk⟩) fun m' hm => ?_
        cases List.mem_singleton.mp hm
        exact hsuccess
      · have h := a.completeNode hu listed ht hreport hsuccess (by rintro ⟨⟩) rfl (sound.completeNode hu ht hreport)
        rw [Option.some.inj ha] at h
        exact h
    · cases ha
  | migrating m =>
    have hsuccess := a.migrates m (List.mem_of_getElem? ht)
    unfold QueryRun.advance at ha
    dsimp only at ha
    split at ha
    · cases ha
      exact a.replace ht (by rintro ⟨⟩) (fun _ hk => hk) (fun _ hx => List.mem_append_left _ hx)
        (fun k hk => by cases hk)
        (fun k hk => .inr ⟨m, Option.some.inj hk, hsuccess, List.mem_append_right _ (List.mem_singleton.mpr rfl)⟩)
        fun m hm => by cases hm
    · split at ha
      · have h := a.completeNode hu listed ht rfl hsuccess (by rintro ⟨⟩) rfl (sound.completeNode hu ht rfl)
        rw [Option.some.inj ha] at h
        exact h
      · cases ha
  | dispatching children caller =>
    unfold QueryRun.advance at ha
    dsimp only at ha
    split at ha
    · rename_i hchildren
      subst hchildren
      have ended : Accounted failed { c with tasks := c.replaceTask i [] } :=
        a.replace ht (by rintro ⟨⟩) (fun _ hk => hk) (fun _ hx => hx) (fun k hk => by cases hk)
          (fun k hk => by cases hk) fun m hm => by cases hm
      split at ha
      · cases caller with
        | none => cases ha; exact ended
        | some m =>
          cases ha
          have h := ended.checkCompleted
          rw [← checkCompleted_tasks] at h
          exact h.answer m .ok
      · cases ha
    · obtain ⟨j, -, ha⟩ := Option.bind_eq_some_iff.mp ha
      obtain ⟨child, hj, ha⟩ := Option.bind_eq_some_iff.mp ha
      obtain ⟨⟨c₁, rest⟩, hc, ha⟩ := Option.bind_eq_some_iff.mp ha
      cases ha
      exact a.advanceChild ht hj hfail hc

theorem Accounted.receive (a : Accounted failed c) (m : NodeCompleteRequest) :
    Accounted failed { c with
      tasks := c.tasks ++ [.received m]
      reported := if m.success then c.reported ++ [m.key] else c.reported } := by
  refine ⟨a.finishes, a.caughtUp.imp_right fun h => ⟨List.mem_append_left _ h.1, h.2⟩, fun k node hn hs => ?_,
    a.ready, fun k hk hm => ?_, fun m' hm => ?_, a.completes⟩
  · refine (a.handed k node hn hs).imp_right fun h => h.imp_right fun h => ?_
    obtain ⟨t, ht, hk⟩ := List.mem_flatMap.mp h
    exact List.mem_flatMap.mpr ⟨t, List.mem_append_left _ ht, hk⟩
  · have old (hk : k ∈ c.reported) : k ∈ c.state.dag.executedNode ∨
        (∃ t ∈ c.tasks ++ [.received m], t.pendingReport = some k) ∨ c.ReportLost k :=
      (a.reports k hk hm).imp_right fun h => h.imp_left fun ⟨t, ht, hp⟩ => ⟨t, List.mem_append_left _ ht, hp⟩
    dsimp only at hk
    split at hk
    · rename_i hsuccess
      rcases List.mem_append.mp hk with hk | hk
      · exact old hk
      · refine .inr (.inl ⟨.received m, List.mem_append_right _ (List.mem_singleton.mpr rfl), ?_⟩)
        rw [Task.pendingReport, if_pos hsuccess, List.mem_singleton.mp hk]
    · exact old hk
  · rcases List.mem_append.mp hm with hm | hm
    · exact a.migrates m' hm
    · cases List.mem_singleton.mp hm

theorem init_accounted (d₀ : DAG) (hu : d₀.Untouched) : Accounted failed (init d₀) := by
  have waits (k : NodeKey) (node : Node) (hn : d₀.nodeMapping.get? k = some node) : node.status ≠ .executing := by
    rw [hu.waiting k node hn]
    decide
  refine ⟨fun k node hn => ?_, .inr ⟨List.mem_singleton.mpr rfl, hu.executed⟩,
    fun k node hn hs => absurd hs (waits k node hn), fun k node hn hs => absurd hs (waits k node hn),
    fun k hk => (by cases hk), fun m hm => ?_, fun _ hne => absurd hu.executed hne⟩
  · show node.status = .finished ↔ k ∈ d₀.executedNode
    rw [hu.waiting k node hn, hu.executed]
    exact iff_of_false (by decide) (Finset.notMem_empty k)
  · cases List.mem_singleton.mp hm

theorem run_accounted (hu : d₀.Untouched) (hl : d₀.Listed) {events : List ControllerEvent}
    (h : (init d₀).run events = some c) : Accounted (RoutingFailed events) c := by
  -- the events of the whole run say whether a route has failed
  suffices all : ∀ {rest : List ControllerEvent} {c₁ : QueryRun}, (∀ ev ∈ rest, ev ∈ events) → Sound d₀ c₁ →
      Accounted (RoutingFailed events) c₁ → c₁.run rest = some c → Accounted (RoutingFailed events) c from
    all (fun _ hin => hin) (init_sound d₀ hu) (init_accounted d₀ hu) h
  intro rest
  induction rest with
  | nil =>
    intro c₁ _ _ a h
    exact Option.some.inj h ▸ a
  | cons ev rest ih =>
    intro c₁ sub sound a h
    rw [run, List.foldlM_cons] at h
    obtain ⟨c₂, hs, h⟩ := Option.bind_eq_some_iff.mp h
    refine ih (fun ev hin => sub ev (List.mem_cons_of_mem _ hin)) (sound.step hu.nodeCount hs) ?_ h
    cases ev with
    | receive m => exact Option.some.inj hs ▸ a.receive m
    | resume i r =>
      obtain ⟨t, ht, hs⟩ := Option.bind_eq_some_iff.mp hs
      obtain ⟨⟨c₃, left⟩, ha, hs⟩ := Option.bind_eq_some_iff.mp hs
      refine Option.some.inj hs ▸ a.advance sound hl hu.nodeCount (fun j result hr hne => ?_) ht ha
      exact ⟨i, j, result, hr ▸ sub _ List.mem_cons_self, hne⟩

/-- Without an executing node, an acyclic query that has seen its entry nodes is finished. -/
theorem Accounted.all_executed (a : Accounted failed c) (sound : Sound d₀ c) (hl : d₀.Listed) (ha : d₀.Acyclic)
    (hall : ∀ k ∈ d₀.nodeMapping, k ∈ d₀.workflow) (quiet : c.tasks = []) (idle : c.state.dag.Idle) :
    ∀ k ∈ d₀.nodeMapping, k ∈ c.state.dag.executedNode := by
  have caughtUp : c.state.dag.CaughtUp := by
    rcases a.caughtUp with h | ⟨h, -⟩
    · exact h
    · rw [quiet] at h
      cases h
  intro k hk
  by_contra hne
  obtain ⟨least, hw, hnot, parents⟩ := DAG.exists_minimal ha (fun k => k ∉ c.state.dag.executedNode) (hall k hk) hne
  obtain ⟨node, hn⟩ := Dict.mem_iff.mp ((sound.mem least).mpr (hl.mem hw))
  obtain ⟨list, hlist⟩ := Dict.mem_iff.mp hw
  have waiting : node.status ≠ .waiting := by
    refine caughtUp least ⟨list, sound.workflow ▸ hlist, fun parent hin => ?_⟩ node hn
    have hnode := (hl _ (Dict.get?_iff_mem_entries.mp hlist)).2 parent hin
    exact not_not.mp (parents parent (hall parent hnode) ⟨list, hlist, hin⟩)
  cases hs : node.status with
  | waiting => exact waiting hs
  | executing => exact idle least node hn hs
  | finished => exact hnot ((a.finishes least node hn).mp hs)

end QueryRun

/-- When no coroutine of an acyclic query is left, whatever messages came in and however the environment
answered: the query has not completed exactly when some node is still executing, and for each such node its
parents have been reported, and it was given up in its routing, never reported from its instance, or reported
to a handler that raised. -/
theorem run_unfinished (payload : QueryPayload) (d₀ : DAG) (hp : DAG.initFromPayload payload = some d₀)
    (hl : d₀.Listed) (ha : d₀.Acyclic) (hall : ∀ k ∈ d₀.nodeMapping, k ∈ d₀.workflow)
    (hne : ∃ k, k ∈ d₀.nodeMapping) (events : List ControllerEvent) (c : QueryRun)
    (hrun : (QueryRun.init d₀).run events = some c) (quiet : c.tasks = []) :
    (c.state.completed = false ↔
      ∃ k node, c.state.dag.nodeMapping.get? k = some node ∧ node.status = .executing) ∧
    ∀ k node, c.state.dag.nodeMapping.get? k = some node → node.status = .executing →
      (∀ parent, d₀.IsParent parent k → parent ∈ c.reported) ∧
      (k ∉ c.dispatched ∧ QueryRun.RoutingFailed events ∨ k ∈ c.dispatched ∧ k ∉ c.reported ∨
        c.ReportLost k) := by
  have hu := DAG.initFromPayload_untouched hp
  have sound := QueryRun.run_sound hu hrun
  have a := QueryRun.run_accounted hu hl hrun
  have executing_not_executed {k : NodeKey} {node : Node} (hn : c.state.dag.nodeMapping.get? k = some node)
      (hs : node.status = .executing) : k ∉ c.state.dag.executedNode := by
    rw [← a.finishes k node hn, hs]
    decide
  constructor
  · constructor
    · intro hc
      by_contra hidle
      have idle : c.state.dag.Idle := fun k node hn hs => hidle ⟨k, node, hn, hs⟩
      have executed := a.all_executed sound hl ha hall quiet idle
      have same : c.state.dag.executedNode = d₀.nodeMapping.keys.toFinset := by
        ext k
        exact ⟨fun hk => List.mem_toFinset.mpr (sound.executed k hk).2, fun hk => executed k (List.mem_toFinset.mp hk)⟩
      have complete : c.state.dag.isCompleted = true := by
        rw [DAG.isCompleted, decide_eq_true_iff, same, sound.nodeCount, hu.nodeCount,
          List.toFinset_card_of_nodup d₀.nodeMapping.nodup_keys, Dict.size_eq_length_keys]
      obtain ⟨k, hk⟩ := hne
      rw [a.completes complete (Finset.ne_empty_of_mem (executed k hk))] at hc
      cases hc
    · rintro ⟨k, node, hn, hs⟩
      by_contra hc
      have hk := (sound.mem k).mp (Dict.mem_of_get? hn)
      exact executing_not_executed hn hs (sound.completed (by simpa using hc) k hk)
  · intro k node hn hs
    have hnot := executing_not_executed hn hs
    constructor
    · rintro parent ⟨parents, hp, hin⟩
      obtain ⟨parents', hp', executed⟩ := a.ready k node hn hs
      rw [sound.workflow, hp] at hp'
      exact (sound.executed parent (executed parent (Option.some.inj hp' ▸ hin))).1
    by_cases hr : k ∈ c.reported
    · rcases a.reports k hr (Dict.mem_of_get? hn) with h | ⟨t, ht, -⟩ | h
      · exact absurd h hnot
      · rw [quiet] at ht
        cases ht
      · exact .inr (.inr h)
    by_cases hd : k ∈ c.dispatched
    · exact .inr (.inl ⟨hd, hr⟩)
    · rcases a.handed k node hn hs with h | h | h
      · exact .inl ⟨hd, h⟩
      · exact absurd h hd
      · rw [QueryRun.outstanding, quiet] at h
        cases h

/-- No instance is found for `3:0`, so that `4:0` is never ready. -/
def unroutedEvents : List ControllerEvent :=
  let report (invocationId : Int) : NodeCompleteRequest := ⟨invocationId, 0, true, true, none⟩
  let replied : Resume := .replied 0 (some (true, none))
  [.resume 0 .go, .resume 0 (.routed 0 .routed), .resume 0 replied, .resume 0 .go, .receive (report 1), .resume 0 .go,
   .resume 0 (.routed 0 .routed), .resume 0 (.routed 1 .noInstance), .resume 0 replied, .resume 0 .go,
   .receive (report 2), .resume 0 .go]

theorem run_unfinished_unrouted : ∃ d₀ c, DAG.initFromPayload diamondPayload = some d₀ ∧
    (QueryRun.init d₀).run unroutedEvents = some c ∧ c.tasks = [] ∧
    ∃ k node, c.state.dag.nodeMapping.get? k = some node ∧ node.status = .executing := by
  have returns : (DAG.initFromPayload diamondPayload).bind (fun d₀ =>
      ((QueryRun.init d₀).run unroutedEvents).map fun c => decide
        (d₀.Listed ∧ (∀ k ∈ d₀.nodeMapping.keys, k ∈ d₀.workflow) ∧ [1, 0] ∈ d₀.nodeMapping ∧
          (∀ e ∈ d₀.workflow.entries, ∀ parent ∈ e.2, (parent.headD 0).toNat < (e.1.headD 0).toNat) ∧
          c.tasks = [] ∧ c.state.completed = false)) = some true := by
    decide +kernel
  obtain ⟨d₀, hp, h⟩ := Option.bind_eq_some_iff.mp returns
  obtain ⟨c, hc, h⟩ := Option.map_eq_some_iff.mp h
  obtain ⟨hl, hall, hne, hrank, quiet, hcompleted⟩ := of_decide_eq_true h
  obtain ⟨unfinished, -⟩ := run_unfinished diamondPayload d₀ hp hl (DAG.acyclic_of_rank _ hrank) hall ⟨_, hne⟩
    unroutedEvents c hc quiet
  exact ⟨d₀, c, hp, hc, quiet, unfinished.mp hcompleted⟩

end CoreFlow
