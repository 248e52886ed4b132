import CoreFlow.Controller.Tasks

/-!
# Completion under any messages

Nothing is assumed of the payload, the messages or the answers of the environment. A node is handed out
when it leaves the waiting status, and it never returns to it; the executed set only grows, by nodes
that a success report has named.
-/

namespace CoreFlow

namespace DAG

/-- What a call of `get_entry_nodes` or `update_result` does to a DAG, whether it returns or raises;
`nodes` are the nodes it returns. -/
structure HandsOut (d d' : DAG) (nodes : List NodeKey) : Prop where
  workflow : d'.workflow = d.workflow
  nodeCount : d'.nodeCount = d.nodeCount
  mem : ∀ k, k ∈ d'.nodeMapping ↔ k ∈ d.nodeMapping
  grows : d.executedNode ⊆ d'.executedNode
  nodup : nodes.Nodup
  waiting : ∀ k ∈ nodes, ∃ node, d.nodeMapping.get? k = some node ∧ node.status = .waiting
  ready : ∀ k ∈ nodes, ParentsIn d'.workflow d'.executedNode k
  active : ∀ k node, d'.nodeMapping.get? k = some node → node.status = .waiting →
    k ∉ nodes ∧ d.nodeMapping.get? k = some node

/-- The nodes that a call returns. -/
def returned (r : Raising (List NodeKey)) : List NodeKey :=
  match r with
  | .ok nodes => nodes
  | .error _ => []

variable {ready : List NodeKey → Bool} {l : List (NodeKey × List NodeKey)} {m m' : Dict NodeKey Node}
  {marked : List NodeKey} {k : NodeKey} {node : Node}

theorem Marks.mem (h : Marks ready l m m' marked) (k : NodeKey) : k ∈ m' ↔ k ∈ m := by
  rw [Dict.mem_iff, Dict.mem_iff, h.lookup]
  split
  · simp
  · exact Iff.rfl

theorem Marks.active (h : Marks ready l m m' marked) (hk : m'.get? k = some node)
    (hw : node.status = .waiting) : k ∉ marked ∧ m.get? k = some node := by
  rw [h.lookup] at hk
  split at hk
  · obtain ⟨node', -, rfl⟩ := Option.map_eq_some_iff.mp hk
    cases hw
  · exact ⟨‹_›, hk⟩

/-- The nodes that a call returns are the marked ones, and none when it raises. -/
theorem handOut_returned (ready : List NodeKey → Bool) (hl : (l.map Prod.fst).Nodup) (m : Dict NodeKey Node) :
    ∃ marked, Marks ready l m (handOut ready l m).2 marked ∧
      (returned (handOut ready l m).1 = marked ∨ returned (handOut ready l m).1 = []) := by
  obtain ⟨marked, marks, ok⟩ := handOut_marks ready hl m
  refine ⟨marked, marks, ?_⟩
  cases hr : (handOut ready l m).1 with
  | ok nodes => exact .inl (ok nodes hr).1
  | error e => exact .inr rfl

/-- From the loop on a mapping that differs from that of `d` in nodes that do not wait. -/
theorem HandsOut.of_loop {d : DAG} {executed : Finset NodeKey}
    (htest : ∀ parents, ready parents = true → ∀ parent ∈ parents, parent ∈ executed)
    (grows : d.executedNode ⊆ executed) (mem : ∀ k, k ∈ m ↔ k ∈ d.nodeMapping)
    (same : ∀ k node, m.get? k = some node → node.status = .waiting → d.nodeMapping.get? k = some node) :
    HandsOut d { d with
      executedNode := executed
      nodeMapping := (handOut ready d.workflow.entries m).2 }
      (returned (handOut ready d.workflow.entries m).1) := by
  obtain ⟨marked, marks, returned⟩ := handOut_returned ready d.workflow.nodup m
  have sub : ∀ k ∈ DAG.returned (handOut ready d.workflow.entries m).1, k ∈ marked := by
    intro k hk
    rcases returned with e | e
    · rwa [e] at hk
    · rw [e] at hk
      cases hk
  refine ⟨rfl, rfl, fun k => (marks.mem k).trans (mem k), grows, ?_, fun k hk => ?_, fun k hk => ?_,
    fun k node hn hw => ?_⟩
  · rcases returned with e | e
    · rw [e]
      exact marks.nodup
    · rw [e]
      exact List.nodup_nil
  · obtain ⟨node, hn, hw⟩ := marks.waiting k (sub k hk)
    exact ⟨node, same k node hn hw, hw⟩
  · obtain ⟨parents, hp, hr⟩ := marks.ready k (sub k hk)
    exact ⟨parents, Dict.get?_iff_mem_entries.mpr hp, htest parents hr⟩
  · obtain ⟨hnot, hm⟩ := marks.active hn hw
    exact ⟨fun hk => hnot (sub k hk), same k node hm hw⟩

theorem getEntryNodes_handsOut (d : DAG) : HandsOut d d.getEntryNodes.2 (returned d.getEntryNodes.1) := by
  refine HandsOut.of_loop (fun parents h parent hin => ?_) (Finset.Subset.refl _) (fun _ => Iff.rfl)
    fun k node hn _ => hn
  rw [of_decide_eq_true h] at hin
  cases hin

/-- A report of an unknown node raises and changes nothing. -/
theorem updateResult_unknown {d : DAG} {invocationId repeatId : Int}
    (h : [invocationId, repeatId] ∉ d.nodeMapping) :
    d.updateResult invocationId repeatId = (.error ⟨[invocationId, repeatId]⟩, d) := by
  rw [updateResult, Dict.get?_eq_none.mpr h]

theorem updateResult_handsOut (d : DAG) (invocationId repeatId : Int) :
    HandsOut d (d.updateResult invocationId repeatId).2 (returned (d.updateResult invocationId repeatId).1) ∧
      ∀ k ∈ (d.updateResult invocationId repeatId).2.executedNode,
        k ∈ d.executedNode ∨ k = [invocationId, repeatId] ∧ k ∈ d.nodeMapping := by
  cases hk : d.nodeMapping.get? [invocationId, repeatId] with
  | none =>
    rw [updateResult_unknown (Dict.get?_eq_none.mp hk)]
    exact ⟨⟨rfl, rfl, fun _ => Iff.rfl, Finset.Subset.refl _, List.nodup_nil, fun _ h => (by cases h),
      fun _ h => (by cases h), fun _ _ hn _ => ⟨List.not_mem_nil, hn⟩⟩, fun k hk => .inl hk⟩
  | some node =>
    rw [updateResult, hk]
    refine ⟨HandsOut.of_loop (fun parents h => of_decide_eq_true h) (Finset.subset_insert _ _) (fun k => ?_)
      fun k node' hn hw => ?_, fun k hin => ?_⟩
    · rw [Dict.mem_set]
      refine or_iff_right_of_imp ?_
      rintro rfl
      exact Dict.mem_of_get? hk
    · rw [Dict.get?_set] at hn
      split at hn
      · rw [← Option.some.inj hn] at hw
        cases hw
      · exact hn
    · rcases Finset.mem_insert.mp hin with rfl | hin
      · exact .inr ⟨rfl, Dict.mem_of_get? hk⟩
      · exact .inl hin

end DAG

/-! ## The nodes on their way to an instance -/

/-- The node of a child that has not been sent. -/
def Dispatch.outstanding : Dispatch → List NodeKey
  | .routing node => [node]
  | .sending _ => []

/-- The nodes of a task that have not been sent. -/
def Task.outstanding : Task → List NodeKey
  | .dispatching children _ => children.flatMap Dispatch.outstanding
  | _ => []

/-- The message whose node a task will report as executed. -/
def Task.pendingReport : Task → Option NodeKey
  | .received m => if m.success then some m.key else none
  | .migrating m => some m.key
  | _ => none

namespace QueryRun

def outstanding (c : QueryRun) : List NodeKey := c.tasks.flatMap Task.outstanding

/-- The invariant of a query built from `d₀`. -/
structure Sound (d₀ : DAG) (c : QueryRun) : Prop where
  workflow : c.state.dag.workflow = d₀.workflow
  nodeCount : c.state.dag.nodeCount = d₀.nodeCount
  mem : ∀ k, k ∈ c.state.dag.nodeMapping ↔ k ∈ d₀.nodeMapping
  executed : ∀ k ∈ c.state.dag.executedNode, k ∈ c.reported ∧ k ∈ d₀.nodeMapping
  completed : c.state.completed = true → ∀ k ∈ d₀.nodeMapping, k ∈ c.state.dag.executedNode
  once : ∀ k, c.dispatched.count k + c.outstanding.count k ≤ 1
  handed : ∀ k, 0 < c.dispatched.count k + c.outstanding.count k →
    DAG.ParentsIn c.state.dag.workflow c.state.dag.executedNode k ∧
      ∀ node, c.state.dag.nodeMapping.get? k = some node → node.status ≠ .waiting
  reports : ∀ t ∈ c.tasks, ∀ k ∈ t.pendingReport, k ∈ c.reported

variable {d₀ d d' : DAG} {c c' : QueryRun} {i : Nat} {t : Task} {left : List Task} {nodes : List NodeKey}

/-- Task `i` is replaced by what is left of it. -/
def replaceTask (c : QueryRun) (i : Nat) (left : List Task) : List Task :=
  c.tasks.take i ++ left ++ c.tasks.drop (i + 1)

theorem split_at {α : Type} {l : List α} {a : α} {i : Nat} (h : l[i]? = some a) :
    l = l.take i ++ a :: l.drop (i + 1) := by
  obtain ⟨hi, rfl⟩ := List.getElem?_eq_some_iff.mp h
  rw [List.cons_getElem_drop_succ, List.take_append_drop]

theorem count_replace {α : Type} {f : α → List NodeKey} {l : List α} {a : α} {i : Nat} (h : l[i]? = some a)
    (left : List α) (k : NodeKey) :
    ((l.take i ++ left ++ l.drop (i + 1)).flatMap f).count k + (f a).count k =
      (l.flatMap f).count k + (left.flatMap f).count k := by
  conv_rhs => rw [split_at h]
  simp only [List.flatMap_append, List.flatMap_cons, List.count_append]
  omega

theorem mem_replace {α : Type} {l : List α} {i : Nat} {left : List α} {b : α}
    (h : b ∈ l.take i ++ left ++ l.drop (i + 1)) : b ∈ left ∨ b ∈ l := by
  rw [List.append_assoc, List.mem_append, List.mem_append] at h
  rcases h with h | h | h
  · exact .inr (List.mem_of_mem_take h)
  · exact .inl h
  · exact .inr (List.mem_of_mem_drop h)

/-! ## Completing a query -/

theorem completed_iff (h : Sound d₀ c) (hu : d₀.nodeCount = d₀.nodeMapping.size)
    (hc : c.state.dag.isCompleted = true) : ∀ k ∈ d₀.nodeMapping, k ∈ c.state.dag.executedNode := by
  intro k hk
  rw [DAG.isCompleted, decide_eq_true_iff, h.nodeCount, hu] at hc
  -- as many executed nodes as nodes, all of them nodes
  have sub : c.state.dag.executedNode ⊆ d₀.nodeMapping.keys.toFinset :=
    fun x hx => List.mem_toFinset.mpr (h.executed x hx).2
  have card : d₀.nodeMapping.keys.toFinset.card ≤ c.state.dag.executedNode.card := by
    rw [hc, List.toFinset_card_of_nodup d₀.nodeMapping.nodup_keys, Dict.size_eq_length_keys]
  rw [Finset.eq_of_subset_of_card_le sub card]
  exact List.mem_toFinset.mpr hk

/-- Only the completion flag can change, and only to `True` on a complete DAG. -/
theorem Sound.checkCompleted (h : Sound d₀ c) (hu : d₀.nodeCount = d₀.nodeMapping.size) :
    Sound d₀ c.checkCompleted := by
  unfold QueryRun.checkCompleted
  split
  · have all := completed_iff h hu ‹_›
    exact ⟨h.workflow, h.nodeCount, h.mem, h.executed, fun _ => all, h.once, h.handed, h.reports⟩
  · exact h

/-- The tasks give way to others; nodes may be sent, but no new ones appear. -/
theorem Sound.retask (h : Sound d₀ c) {tasks : List Task} {dispatched : List NodeKey}
    (count : ∀ k, dispatched.count k + (tasks.flatMap Task.outstanding).count k ≤
      c.dispatched.count k + c.outstanding.count k)
    (reports : ∀ t ∈ tasks, ∀ k ∈ t.pendingReport, k ∈ c.reported) :
    Sound d₀ { c with tasks := tasks, dispatched := dispatched } :=
  ⟨h.workflow, h.nodeCount, h.mem, h.executed, h.completed, fun k => (count k).trans (h.once k),
    fun k hk => h.handed k (Nat.lt_of_lt_of_le hk (count k)), reports⟩

/-- A call hands out nodes, which join the tasks. -/
theorem Sound.handOut (h : Sound d₀ c) (out : DAG.HandsOut c.state.dag d' nodes) {tasks : List Task}
    (new : ∀ k ∈ d'.executedNode, k ∈ c.state.dag.executedNode ∨ k ∈ c.reported ∧ k ∈ d₀.nodeMapping)
    (count : ∀ k, (tasks.flatMap Task.outstanding).count k ≤ c.outstanding.count k + nodes.count k)
    (reports : ∀ t ∈ tasks, ∀ k ∈ t.pendingReport, k ∈ c.reported) :
    Sound d₀ { c.setDag d' with tasks := tasks } := by
  -- a node that waits has not been handed out
  have fresh (k : NodeKey) (hk : k ∈ nodes) : c.dispatched.count k + c.outstanding.count k = 0 := by
    obtain ⟨node, hn, hw⟩ := out.waiting k hk
    by_contra hne
    exact (h.handed k (Nat.pos_of_ne_zero hne)).2 node hn hw
  have none (k : NodeKey) (hk : k ∉ nodes) : nodes.count k = 0 := List.count_eq_zero.mpr hk
  refine ⟨out.workflow.trans h.workflow, out.nodeCount.trans h.nodeCount, fun k => (out.mem k).trans (h.mem k),
    fun k hk => ?_, fun hc k hk => out.grows (h.completed hc k hk), fun k => ?_, fun k hk => ?_, reports⟩
  · rcases new k hk with hk | hk
    · exact h.executed k hk
    · exact hk
  · show c.dispatched.count k + (tasks.flatMap Task.outstanding).count k ≤ 1
    have := count k
    have := h.once k
    by_cases hk : k ∈ nodes
    · have := fresh k hk
      have := List.nodup_iff_count_le_one.mp out.nodup k
      omega
    · have := none k hk
      omega
  · change 0 < c.dispatched.count k + (tasks.flatMap Task.outstanding).count k at hk
    by_cases hin : k ∈ nodes
    · exact ⟨out.ready k hin, fun node hn hw => (out.active k node hn hw).1 hin⟩
    · have := none k hin
      have := count k
      obtain ⟨⟨parents, hp, all⟩, active⟩ := h.handed k (by omega)
      refine ⟨⟨parents, (congrArg (·.get? k) out.workflow).trans hp, fun q hq => out.grows (all q hq)⟩,
        fun node hn hw => active node (out.active k node hn hw).2 hw⟩

theorem Sound.setError (h : Sound d₀ c) (error : Option String) : Sound d₀ (c.setError error) :=
  ⟨h.workflow, h.nodeCount, h.mem, h.executed, h.completed, h.once, h.handed, h.reports⟩

theorem Sound.answer (h : Sound d₀ c) (m : NodeCompleteRequest) (a : Answer) : Sound d₀ (c.answer m a) :=
  ⟨h.workflow, h.nodeCount, h.mem, h.executed, h.completed, h.once, h.handed, h.reports⟩

theorem checkCompleted_tasks (c : QueryRun) (tasks : List Task) :
    { c.checkCompleted with tasks := tasks } = ({ c with tasks := tasks } : QueryRun).checkCompleted := by
  unfold checkCompleted
  split <;> rfl

/-! ## The steps -/

theorem Sound.replace (h : Sound d₀ c) (ht : c.tasks[i]? = some t)
    (count : ∀ k, (left.flatMap Task.outstanding).count k ≤ t.outstanding.count k)
    (reports : ∀ t ∈ left, ∀ k ∈ t.pendingReport, k ∈ c.reported) :
    Sound d₀ { c with tasks := c.replaceTask i left } := by
  refine h.retask (fun k => ?_) fun t' ht' => ?_
  · have := count_replace (f := Task.outstanding) ht left k
    have := count k
    show c.dispatched.count k + ((c.replaceTask i left).flatMap Task.outstanding).count k ≤ _
    unfold replaceTask outstanding
    omega
  · rcases mem_replace ht' with hin | hin
    · exact reports t' hin
    · exact h.reports t' hin

theorem outstanding_routing (nodes : List NodeKey) (caller : Option NodeCompleteRequest) :
    [Task.dispatching (nodes.map .routing) caller].flatMap Task.outstanding = nodes := by
  induction nodes with
  | nil => rfl
  | cons node nodes ih => exact congrArg (node :: ·) ih

/-- The task that made the call is replaced by one that sends the nodes. -/
theorem Sound.handOut_replace (h : Sound d₀ c) (out : DAG.HandsOut c.state.dag d' nodes)
    (new : ∀ k ∈ d'.executedNode, k ∈ c.state.dag.executedNode ∨ k ∈ c.reported ∧ k ∈ d₀.nodeMapping)
    (ht : c.tasks[i]? = some t) (hleft : left.flatMap Task.outstanding = nodes)
    (reports : ∀ t ∈ left, t.pendingReport = none) :
    Sound d₀ { c.setDag d' with tasks := c.replaceTask i left } := by
  refine h.handOut out new (fun k => ?_) fun t' ht' => ?_
  · have := count_replace (f := Task.outstanding) ht left k
    rw [hleft] at this
    unfold replaceTask outstanding
    omega
  · rcases mem_replace ht' with hin | hin
    · intro k hk
      rw [reports t' hin] at hk
      cases hk
    · exact h.reports t' hin

theorem Sound.completeNode (h : Sound d₀ c) (hu : d₀.nodeCount = d₀.nodeMapping.size) {m : NodeCompleteRequest}
    (ht : c.tasks[i]? = some t) (hreport : t.pendingReport = some m.key) :
    Sound d₀ { (c.completeNode m).1 with tasks := c.replaceTask i (c.completeNode m).2 } := by
  have hin := h.reports t (List.mem_of_getElem? ht) m.key hreport
  obtain ⟨out, new⟩ := DAG.updateResult_handsOut c.state.dag m.invocationId m.repeatId
  have new' : ∀ k ∈ (c.state.dag.updateResult m.invocationId m.repeatId).2.executedNode,
      k ∈ c.state.dag.executedNode ∨ k ∈ c.reported ∧ k ∈ d₀.nodeMapping := by
    intro k hk
    rcases new k hk with hk | ⟨rfl, hk⟩
    · exact .inl hk
    · exact .inr ⟨hin, (h.mem _).mp hk⟩
  unfold QueryRun.completeNode
  dsimp only
  cases hr : (c.state.dag.updateResult m.invocationId m.repeatId).1 with
  | error e =>
    rw [hr] at out
    exact (h.handOut_replace out new' ht rfl fun _ hl => by cases hl).answer m .raised
  | ok nodes =>
    rw [hr] at out
    cases nodes with
    | nil =>
      have none_left : ([] : List Task).flatMap Task.outstanding = [] := rfl
      have s := (h.handOut_replace out new' ht none_left fun _ hl => by cases hl).checkCompleted hu
      rw [← checkCompleted_tasks] at s
      exact s.answer m .ok
    | cons node nodes =>
      exact h.handOut_replace out new' ht (outstanding_routing _ _) fun t' hl => by
        rw [List.mem_singleton.mp hl]
        rfl

theorem Sound.advanceChild (h : Sound d₀ c) {children : List Dispatch} {caller : Option NodeCompleteRequest}
    {j : Nat} {child : Dispatch} {r : Resume} {rest : List Dispatch}
    (ht : c.tasks[i]? = some (.dispatching children caller)) (hj : children[j]? = some child)
    (ha : c.advanceChild child r = some (c', rest)) :
    Sound d₀ { c' with
      tasks := c.replaceTask i [.dispatching (children.take j ++ rest ++ children.drop (j + 1)) caller] } := by
  -- a node goes from the child to the dispatched ones, or is given up
  have move {dispatched : List NodeKey}
      (hle : ∀ k, dispatched.count k + (rest.flatMap Dispatch.outstanding).count k ≤
        c.dispatched.count k + child.outstanding.count k) :
      Sound d₀ { c with
        tasks := c.replaceTask i [.dispatching (children.take j ++ rest ++ children.drop (j + 1)) caller]
        dispatched := dispatched } := by
    refine h.retask (fun k => ?_) fun t' ht' => ?_
    · have outer := count_replace (f := Task.outstanding) ht
        [.dispatching (children.take j ++ rest ++ children.drop (j + 1)) caller] k
      have inner := count_replace (f := Dispatch.outstanding) hj rest k
      have := hle k
      rw [List.flatMap_singleton] at outer
      simp only [Task.outstanding] at outer
      unfold replaceTask outstanding
      omega
    · rcases mem_replace ht' with hin | hin
      · rw [List.mem_singleton.mp hin]
        intro k hk
        cases hk
      · exact h.reports t' hin
  have given (hc : rest = []) : ∀ k, c.dispatched.count k + (rest.flatMap Dispatch.outstanding).count k ≤
      c.dispatched.count k + child.outstanding.count k := by
    intro k
    rw [hc, List.flatMap_nil, List.count_nil]
    omega
  unfold QueryRun.advanceChild at ha
  split at ha
  all_goals cases ha
  · exact move (given rfl)
  · exact (move (given rfl)).setError _
  · refine move fun k => ?_
    rw [List.count_append]
    exact Nat.le_of_eq rfl
  · exact move (given rfl)
  · exact (move (given rfl)).setError _
  · exact (move (given rfl)).setError _

theorem Sound.advance (h : Sound d₀ c) (hu : d₀.nodeCount = d₀.nodeMapping.size) {r : Resume}
    (ht : c.tasks[i]? = some t) (ha : c.advance t r = some (c', left)) :
    Sound d₀ { c' with tasks := c.replaceTask i left } := by
  have reported := h.reports t (List.mem_of_getElem? ht)
  have ended : Sound d₀ { c with tasks := c.replaceTask i [] } :=
    h.replace ht (fun k => Nat.zero_le _) fun t' ht' => by cases ht'
  unfold QueryRun.advance at ha
  cases t with
  | execute =>
    dsimp only at ha
    split at ha
    · have out := DAG.getEntryNodes_handsOut c.state.dag
      have new : ∀ k ∈ c.state.dag.getEntryNodes.2.executedNode,
          k ∈ c.state.dag.executedNode ∨ k ∈ c.reported ∧ k ∈ d₀.nodeMapping := fun k hk => .inl hk
      cases hr : c.state.dag.getEntryNodes.1 with
      | error e =>
        rw [hr] at ha out
        cases ha
        exact (h.handOut_replace out new ht rfl fun _ hl => by cases hl).setError _
      | ok nodes =>
        rw [hr] at ha out
        cases nodes with
        | nil =>
          cases ha
          exact h.handOut_replace out new ht rfl fun _ hl => by cases hl
        | cons node nodes =>
          cases ha
          exact h.handOut_replace out new ht (outstanding_routing _ _) fun t' hl => by
            rw [List.mem_singleton.mp hl]
            rfl
    · cases ha
  | received m =>
    dsimp only at ha
    split at ha
    · split at ha
      · cases ha
        exact (ended.setError _).answer m .ok
      rename_i hsuccess
      have hreport : (Task.received m).pendingReport = some m.key := by
        rw [Task.pendingReport, if_pos (by simpa using hsuccess)]
      split at ha
      · cases ha
        refine h.replace ht (fun k => Nat.zero_le _) fun t' ht' k hk => ?_
        rw [List.mem_singleton.mp ht'] at hk
        exact reported k (hreport.trans hk)
      · have s := h.completeNode hu ht hreport
        rw [Option.some.inj ha] at s
        exact s
    · cases ha
  | migrating m =>
    dsimp only at ha
    split at ha
    · cases ha
      exact ended.answer m .raised
    · split at ha
      · have s := h.completeNode hu ht (m := m) rfl
        rw [Option.some.inj ha] at s
        exact s
      · cases ha
  | dispatching children caller =>
    dsimp only at ha
    split at ha
    · split at ha
      · cases caller with
        | none => cases ha; exact ended
        | some m =>
          cases ha
          have s := ended.checkCompleted hu
          rw [← checkCompleted_tasks] at s
          exact s.answer m .ok
      · cases ha
    · obtain ⟨j, -, ha⟩ := Option.bind_eq_some_iff.mp ha
      obtain ⟨child, hj, ha⟩ := Option.bind_eq_some_iff.mp ha
      obtain ⟨⟨c₁, rest⟩, hc, ha⟩ := Option.bind_eq_some_iff.mp ha
      cases ha
      exact h.advanceChild ht hj hc

theorem Sound.step (h : Sound d₀ c) (hu : d₀.nodeCount = d₀.nodeMapping.size) {ev : ControllerEvent}
    (hs : c.step ev = some c') : Sound d₀ c' := by
  cases ev with
  | receive m =>
    obtain rfl := Option.some.inj hs
    have mono (k : NodeKey) (hk : k ∈ c.reported) :
        k ∈ (if m.success then c.reported ++ [m.key] else c.reported) := by
      split
      · exact List.mem_append_left _ hk
      · exact hk
    have count (k : NodeKey) : ((c.tasks ++ [Task.received m]).flatMap Task.outstanding).count k =
        c.outstanding.count k := by
      rw [List.flatMap_append, List.count_append]
      rfl
    refine ⟨h.workflow, h.nodeCount, h.mem, fun k hk => ⟨mono k (h.executed k hk).1, (h.executed k hk).2⟩,
      h.completed, fun k => ?_, fun k hk => ?_, fun t ht k hk => ?_⟩
    · exact (Nat.add_le_add_left (Nat.le_of_eq (count k)) _).trans (h.once k)
    · exact h.handed k (Nat.lt_of_lt_of_le hk (Nat.add_le_add_left (Nat.le_of_eq (count k)) _))
    · rcases List.mem_append.mp ht with ht | ht
      · exact mono k (h.reports t ht k hk)
      · rw [List.mem_singleton.mp ht, Task.pendingReport] at hk
        split at hk
        · rw [← Option.some.inj hk]
          show m.key ∈ if m.success then c.reported ++ [m.key] else c.reported
          rw [if_pos ‹_›]
          exact List.mem_append_right _ (List.mem_singleton.mpr rfl)
        · cases hk
  | resume i r =>
    obtain ⟨t, ht, hs⟩ := Option.bind_eq_some_iff.mp hs
    obtain ⟨⟨c₁, left⟩, ha, hs⟩ := Option.bind_eq_some_iff.mp hs
    obtain rfl := Option.some.inj hs
    exact h.advance hu ht ha

theorem init_sound (d₀ : DAG) (hu : d₀.Untouched) : Sound d₀ (init d₀) := by
  refine ⟨rfl, rfl, fun _ => Iff.rfl, fun k hk => ?_, fun hc => (by cases hc), fun k => Nat.zero_le _,
    fun k hk => absurd hk (Nat.lt_irrefl 0), fun t ht k hk => ?_⟩
  · change k ∈ d₀.executedNode at hk
    rw [hu.executed] at hk
    exact absurd hk (Finset.notMem_empty k)
  · rw [List.mem_singleton.mp ht] at hk
    cases hk

theorem run_sound (hu : d₀.Untouched) {events : List ControllerEvent} (h : (init d₀).run events = some c) :
    Sound d₀ c :=
  run_invariant (Sound d₀) (fun _ _ _ i hs => i.step hu.nodeCount hs) h (init_sound d₀ hu)

/-! ## Single reports -/

/-- The event in which the handler of a success report calls `get_next_execute_agents`. -/
def Completes (c : QueryRun) (m : NodeCompleteRequest) (i : Nat) (r : Resume) : Prop :=
  (c.tasks[i]? = some (.received m) ∧ m.success = true ∧ m.freeCache = true ∧ r = .go) ∨
    (c.tasks[i]? = some (.migrating m) ∧ r = .migrated false)

/-- A failure report touches nothing but the error. -/
theorem step_failure {m : NodeCompleteRequest} {r : Resume} (ht : c.tasks[i]? = some (.received m))
    (hf : m.success = false) (hs : c.step (.resume i r) = some c') :
    c'.state.dag = c.state.dag ∧ c'.state.completed = c.state.completed ∧
      c'.answers = c.answers ++ [(m, .ok)] := by
  simp only [step, ht, advance, hf, if_true, Option.bind_eq_bind, Option.bind_some] at hs
  split at hs
  · cases hs
    exact ⟨rfl, rfl, rfl⟩
  · cases hs

/-- A success report of an unknown node raises and touches nothing. -/
theorem step_unknown {m : NodeCompleteRequest} {r : Resume} (ht : c.Completes m i r)
    (hm : m.key ∉ c.state.dag.nodeMapping) : ∃ c', c.step (.resume i r) = some c' ∧
      c'.state = c.state ∧ c'.answers = c.answers ++ [(m, .raised)] := by
  have complete : c.completeNode m = (c.answer m .raised, []) := by
    rw [completeNode, DAG.updateResult_unknown hm]
    rfl
  rcases ht with ⟨ht, hsuccess, hfree, rfl⟩ | ⟨ht, rfl⟩
  · refine ⟨{ c.answer m .raised with tasks := c.replaceTask i [] }, ?_, rfl, rfl⟩
    simp [step, ht, advance, hsuccess, hfree, complete, replaceTask, answer]
  · refine ⟨{ c.answer m .raised with tasks := c.replaceTask i [] }, ?_, rfl, rfl⟩
    simp [step, ht, advance, complete, replaceTask, answer]

end QueryRun

/-- Under any messages, in any order, and with any answers of the environment: a query completes only
after a success report for every node; a node is dispatched at most once, and only after success
reports for all its parents; a failure report changes neither statuses nor the executed set; and a
success report of an unknown node raises and changes nothing. -/
theorem run_completionSound (payload : QueryPayload) (d₀ : DAG) (hp : DAG.initFromPayload payload = some d₀)
    (events : List ControllerEvent) (c : QueryRun) (hrun : (QueryRun.init d₀).run events = some c) :
    (c.state.completed = true → ∀ k ∈ d₀.nodeMapping, k ∈ c.reported) ∧
    (∀ k ∈ c.dispatched, ∃ parents, d₀.workflow.get? k = some parents ∧ ∀ parent ∈ parents,
      parent ∈ c.reported) ∧
    c.dispatched.Nodup ∧
    (∀ i m r c', c.tasks[i]? = some (.received m) → m.success = false → c.step (.resume i r) = some c' →
      c'.state.dag = c.state.dag ∧ c'.state.completed = c.state.completed ∧
        c'.answers = c.answers ++ [(m, .ok)]) ∧
    ∀ i m r, c.Completes m i r → m.key ∉ d₀.nodeMapping → ∃ c', c.step (.resume i r) = some c' ∧
      c'.state = c.state ∧ c'.answers = c.answers ++ [(m, .raised)] := by
  have sound := QueryRun.run_sound (DAG.initFromPayload_untouched hp) hrun
  refine ⟨fun hc k hk => (sound.executed k (sound.completed hc k hk)).1, fun k hk => ?_, ?_,
    fun i m r c' ht hf hs => QueryRun.step_failure ht hf hs, fun i m r ht hm => ?_⟩
  · obtain ⟨⟨parents, hpar, all⟩, -⟩ :=
      sound.handed k (Nat.add_pos_left (List.count_pos_iff.mpr hk) _)
    rw [sound.workflow] at hpar
    exact ⟨parents, hpar, fun parent hin => (sound.executed parent (all parent hin)).1⟩
  · exact List.nodup_iff_count_le_one.mpr fun k => (Nat.le_add_right _ _).trans (sound.once k)
  · exact QueryRun.step_unknown ht fun hk => hm ((sound.mem _).mp hk)

/-- The diamond runs to its end, with a failure and a duplicate among the messages. -/
def diamondEvents : List ControllerEvent :=
  let report (invocationId : Int) : NodeCompleteRequest := ⟨invocationId, 0, true, true, none⟩
  [.resume 0 .go, .resume 0 (.routed 0 .routed), .receive (report 1), .resume 1 .go,
   .receive ⟨2, 0, true, false, some "lost"⟩, .resume 2 .go, .resume 1 (.routed 0 .routed),
   .resume 1 (.routed 1 .routed), .receive (report 2), .receive (report 2), .resume 2 .go, .resume 2 .go,
   .receive (report 3), .resume 2 .go, .resume 2 (.routed 0 .routed), .receive (report 4), .resume 3 .go]

theorem run_completionSound_diamond : ∃ d₀ c, DAG.initFromPayload diamondPayload = some d₀ ∧
    (QueryRun.init d₀).run diamondEvents = some c ∧ c.dispatched = [[1, 0], [2, 0], [3, 0], [4, 0]] ∧
    ∀ k ∈ d₀.nodeMapping, k ∈ c.reported := by
  have returns : (DAG.initFromPayload diamondPayload).bind (fun d₀ =>
      ((QueryRun.init d₀).run diamondEvents).map fun c => decide
        (c.dispatched = [[1, 0], [2, 0], [3, 0], [4, 0]] ∧ c.state.completed = true)) = some true := by
    decide +kernel
  obtain ⟨d₀, hp, h⟩ := Option.bind_eq_some_iff.mp returns
  obtain ⟨c, hc, h⟩ := Option.map_eq_some_iff.mp h
  obtain ⟨hd, hcompleted⟩ := of_decide_eq_true h
  obtain ⟨all, -⟩ := run_completionSound diamondPayload d₀ hp diamondEvents c hc
  exact ⟨d₀, c, hp, hc, hd, all hcompleted⟩

/-- A failure report of an unknown node is answered without an exception. -/
theorem unknownFailure_returns : ∃ d₀ c, DAG.initFromPayload diamondPayload = some d₀ ∧
    [9, 0] ∉ d₀.nodeMapping ∧
    (QueryRun.init d₀).run [.receive ⟨9, 0, true, false, some "lost"⟩, .resume 1 .go] = some c ∧
    c.answers = [(⟨9, 0, true, false, some "lost"⟩, .ok)] := by
  have returns : (DAG.initFromPayload diamondPayload).bind (fun d₀ =>
      ((QueryRun.init d₀).run [.receive ⟨9, 0, true, false, some "lost"⟩, .resume 1 .go]).map fun c =>
        decide ([9, 0] ∉ d₀.nodeMapping ∧ c.answers = [(⟨9, 0, true, false, some "lost"⟩, .ok)])) =
      some true := by
    decide +kernel
  obtain ⟨d₀, hp, h⟩ := Option.bind_eq_some_iff.mp returns
  obtain ⟨c, hc, h⟩ := Option.map_eq_some_iff.mp h
  obtain ⟨hm, ha⟩ := of_decide_eq_true h
  exact ⟨d₀, c, hp, hm, hc, ha⟩

end CoreFlow
