import CoreFlow.Instance.Engine
import CoreFlow.Scheduler.Order

/-!
# Queues in the order of the query ids

Both queues can be sorted exactly if neither compares a group without a query id; then no group is
preempted for one with a larger id.
-/

namespace CoreFlow
open Prog SchedM

/-- What the order of the query ids is for: both queues are sorted, and under the fcfs policy a victim of
`_schedule_running` has no smaller id than the group it makes room for. -/
structure Scheduler.QueryIdOrder (p : SchedulerParams) (callback : Option (RequestId → SchedM Unit)) (s : Scheduler) :
    Prop where
  waiting : s.Sorts s.waiting
  running : s.Sorts s.running
  preempts : ∀ s₁ victim other, CallsRunning p s s₁ →
    MakesRoom p callback p.chunkedPrefillEnabled .empty s₁ victim other → idLe (s.queryIdAt other) (s.queryIdAt victim)

/-- The order is kept exactly if each queue has at most one group, or only groups with an id. -/
theorem Scheduler.queryIdOrder_iff {p : SchedulerParams} {callback : Option (RequestId → SchedM Unit)} {s : Scheduler}
    (hcallback : KeepsOrder callback) (hwaiting : s.AllAdmitted s.waiting) (hrunning : s.AllAdmitted s.running) :
    s.QueryIdOrder p callback ↔ s.Identified s.waiting ∧ s.Identified s.running := by
  constructor
  · intro h
    exact ⟨(sorts_iff hwaiting).mp h.waiting, (sorts_iff hrunning).mp h.running⟩
  · rintro ⟨hw, hr⟩
    have sorts := (sorts_iff hrunning).mpr hr
    refine ⟨(sorts_iff hwaiting).mpr hw, sorts, fun s₁ victim other hcalls hmakes => ?_⟩
    obtain ⟨sorted, hsort, -, hpairwise, -⟩ := sorts
    rw [hcalls.running] at hsort
    obtain ⟨rfl, -⟩ := Prod.mk.inj (Option.some.inj hsort)
    exact hmakes.related hcallback hpairwise

/-- A request as `/generate` admits it. -/
def generateOp (requestId : RequestId) (queryId : Option Int) (arrivalTime : Int) : EngineOp :=
  .addSeqGroup requestId [1, 2, 3] (some ⟨some queryId, some 0, 0, false, true, none⟩) 0 arrivalTime

theorem queryIdOrder_of_two : ∃ e, Engine.run smallParams (.init smallParams)
    [generateOp "q9_i0_r0" (some 9) 0, generateOp "q4_i0_r0" (some 4) 1] = some e ∧
      e.scheduler.QueryIdOrder smallParams none := by
  have returns : (Engine.run smallParams (.init smallParams)
      [generateOp "q9_i0_r0" (some 9) 0, generateOp "q4_i0_r0" (some 4) 1]).map (fun e => decide
        ((e.scheduler.AllAdmitted e.scheduler.waiting ∧ e.scheduler.AllAdmitted e.scheduler.running) ∧
          e.scheduler.Identified e.scheduler.waiting ∧ e.scheduler.Identified e.scheduler.running)) = some true := by
    decide +kernel
  obtain ⟨e, hrun, hfacts⟩ := Option.map_eq_some_iff.mp returns
  obtain ⟨⟨hwaiting, hrunning⟩, hids⟩ := of_decide_eq_true hfacts
  refine ⟨e, hrun, (Scheduler.queryIdOrder_iff ?_ hwaiting hrunning).mpr hids⟩
  intro f hf
  cases hf

/-- A request without an id, behind another one, makes the sort raise. -/
theorem sort_raises_without_id : ∃ e, Engine.run smallParams (.init smallParams)
    [generateOp "q9_i0_r0" (some 9) 0, generateOp "qNone_i0_r0" none 1] = some e ∧
      e.scheduler.AllAdmitted e.scheduler.waiting ∧ sortByQueryId e.scheduler.waiting e.scheduler = none ∧
      ¬ e.scheduler.QueryIdOrder smallParams none := by
  have returns : (Engine.run smallParams (.init smallParams)
      [generateOp "q9_i0_r0" (some 9) 0, generateOp "qNone_i0_r0" none 1]).map (fun e => decide
        (e.scheduler.AllAdmitted e.scheduler.waiting ∧
          (sortByQueryId e.scheduler.waiting e.scheduler).isNone = true)) = some true := by
    decide +kernel
  obtain ⟨e, hrun, hfacts⟩ := Option.map_eq_some_iff.mp returns
  obtain ⟨hwaiting, hnone⟩ := of_decide_eq_true hfacts
  have hnone := Option.isNone_iff_eq_none.mp hnone
  refine ⟨e, hrun, hwaiting, hnone, fun h => ?_⟩
  obtain ⟨sorted, hsort, -⟩ := h.waiting
  rw [hnone] at hsort
  cases hsort

end CoreFlow
