import CoreFlow.Scheduler.Progress
import CoreFlow.Instance.Counts

/-!
# An engine with nothing running

The clock is the only part of the state that `EngineM.schedule` writes before `schedule` runs, and
the first waiting group does not depend on it.
-/

namespace CoreFlow
open Prog

variable {p : SchedulerParams} {e e' : Engine} {id : SeqId} {g : SequenceGroup} {clock : List Int}

namespace SchedM

theorem sortByQueryId_ignores_clock (clock : List Int) (queue : List SeqId) :
    Ignores (fun s : Scheduler => { s with clock := clock }) (sortByQueryId queue) := by
  have read (id : SeqId) : Ignores (fun s : Scheduler => { s with clock := clock }) (getGroup id) := by
    intro s
    show (ofOption (s.groups.get? id) : SchedM SequenceGroup) { s with clock := clock } = _
    unfold getGroup
    rw [read_bind]
    cases s.groups.get? id <;> rfl
  unfold sortByQueryId
  split
  · exact .pure _
  · exact .bind (.mapM (fun id => .bind (read id) fun _ => .bind (.ofOption _) fun _ => .pure _) _)
      fun _ => .pure _

theorem firstWaiting_clock (s : Scheduler) (clock : List Int) :
    firstWaiting { s with clock := clock } = firstWaiting s := by
  unfold firstWaiting
  rw [sortByQueryId_ignores_clock clock s.waiting s]
  cases sortByQueryId s.waiting s <;> rfl

theorem mem_of_firstWaiting {s : Scheduler} (h : firstWaiting s = some id) : id ∈ s.waiting := by
  obtain ⟨⟨sorted, s₀⟩, h₀, hhead⟩ := Option.bind_eq_some_iff.mp h
  exact (sortByQueryId_perm h₀).mem_iff.mp (List.mem_of_mem_head? hhead)

end SchedM

/-- A request waits next to a retained entry that leaves it room. -/
def roomyRun : List EngineOp :=
  [.addSeqGroup "q0_a" [1, 2, 3] (some ⟨some (some 0), some 0, 0, true, false, none⟩) 0 0,
   .schedule [1, 1, 1, 1, 1],
   .processModelOutputs [⟨4, some .finishedStopped, false⟩] [2, 2],
   .addSeqGroup "q1_a" [5, 6, 7] (some ⟨some (some 1), some 0, 0, true, false, none⟩) 0 0]

/-- The retained entry of a finished request holds all blocks but one, and a request with another key
needs two. -/
def pinnedRun : List EngineOp :=
  [.addSeqGroup "q0_a" [1, 2, 3, 4, 5] (some ⟨some (some 0), some 0, 0, true, false, none⟩) 0 0,
   .schedule [1, 1, 1, 1, 1],
   .processModelOutputs [⟨6, some .finishedStopped, false⟩] [2, 2],
   .addSeqGroup "q1_a" [7, 8, 9] (some ⟨some (some 1), some 0, 0, true, false, none⟩) 0 0]

end CoreFlow
