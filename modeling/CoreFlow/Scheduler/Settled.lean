import CoreFlow.Scheduler.Ownership

/-!
# Moves between the queues

`Settled` is `Ownership` with no finished group in the running queue and the two unused queues empty:
what holds whenever no output is being processed. Each method that moves a group keeps it, with the
group counted in the queue it goes to.
-/

namespace CoreFlow

/-- Ownership, between the operations of an engine and inside `schedule`. -/
structure Settled (bound : SeqId) (wq rq : List SeqId) (s : Scheduler) : Prop
    extends Ownership bound wq rq s where
  unfinished : Unfinished rq s
  swapped : s.swapped = []
  asyncStopped : s.asyncStopped = []

/-- The queues and the pending lists are the same. -/
structure SameLists (s s' : Scheduler) : Prop where
  waiting : s'.waiting = s.waiting
  running : s'.running = s.running
  swapped : s'.swapped = s.swapped
  asyncStopped : s'.asyncStopped = s.asyncStopped
  finished : s'.finishedSeqsPendingSwapOut = s.finishedSeqsPendingSwapOut
  pending : s'.pendingFinishedSwapOut = s.pendingFinishedSwapOut

instance : IsPreorder Scheduler SameLists where
  refl _ := ⟨rfl, rfl, rfl, rfl, rfl, rfl⟩
  trans _ _ _ h h' := ⟨h'.1.trans h.1, h'.2.trans h.2, h'.3.trans h.3, h'.4.trans h.4, h'.5.trans h.5,
    h'.6.trans h.6⟩

theorem SameQueues.lists {s s' : Scheduler} (h : SameQueues s s') : SameLists s s' :=
  ⟨h.waiting, h.running, h.swapped, h.asyncStopped, h.finished, h.pending⟩

namespace SchedM
open Prog
variable (p : SchedulerParams)

theorem onManager_lists {α : Type} (x : ManagerM α) : Within SameLists (onManager x) :=
  .zoom_any fun _ _ => ⟨rfl, rfl, rfl, rfl, rfl, rfl⟩

theorem setGroup_lists (seqId : SeqId) (g : SequenceGroup) : Within SameLists (setGroup seqId g) :=
  .update fun _ => ⟨rfl, rfl, rfl, rfl, rfl, rfl⟩

theorem getGroup_lists (seqId : SeqId) : Within SameLists (getGroup seqId) :=
  (getGroup_same seqId).mono fun _ _ h => h.lists

theorem setStatus_lists (seqId : SeqId) (status : SequenceStatus) :
    Within SameLists (setStatus seqId status) :=
  .bind (getGroup_lists _) fun _ => setGroup_lists _ _

theorem freeSeq_lists (seqId : SeqId) : Within SameLists (freeSeq p seqId) := onManager_lists _

theorem preemptByRecompute_lists (seqId : SeqId) : Within SameLists (preemptByRecompute p seqId) :=
  .bind (getGroup_lists _) fun _ => .bind (.require _) fun _ => .bind (setStatus_lists _ _) fun _ =>
    .bind (freeSeq_lists p _) fun _ => .bind (getGroup_lists _) fun _ => setGroup_lists _ _

theorem swapOut_lists (seqId : SeqId) : Within SameLists (swapOut p seqId) :=
  .bind (getGroup_lists _) fun _ => .bind (onManager_lists _) fun _ => .bind (.require _) fun _ =>
    .bind (time_same.mono fun _ _ h => h.lists) fun _ => .bind (onManager_lists _) fun _ =>
      .bind (.when (setStatus_lists _ _)) fun _ => .pure _

theorem preemptBySwap_lists (seqId : SeqId) : Within SameLists (preemptBySwap p seqId) :=
  .bind (swapOut_lists p _) fun _ => .bind (getGroup_lists _) fun _ =>
    .bind (.when (.bind (setGroup_lists _ _) fun _ => freeSeq_lists p _)) fun _ => .pure _

theorem preempt_lists (seqId : SeqId) : Within SameLists (preempt p seqId) := by
  refine .bind (getGroup_lists _) fun g => ?_
  split
  · exact .bind (preemptByRecompute_lists p _) fun _ => .pure _
  · exact .bind (preemptBySwap_lists p _) fun _ => .pure _

theorem allocateAndSetRunning_lists (seqId : SeqId) : Within SameLists (allocateAndSetRunning p seqId) := by
  refine .bind (getGroup_lists _) fun g => .bind (onManager_lists _) fun _ =>
    .bind ((resolveCachedPrefixLen_same p g).mono fun _ _ h => h.lists) fun _ =>
      .bind ((hasSyntheticCacheSource_same g).mono fun _ _ h => h.lists) fun _ => .bind (.when ?_) fun _ =>
        .bind (setStatus_lists _ _) fun _ => .pure _
  exact .bind (onManager_lists _) fun _ => .when (.bind (.ofOption _) fun _ => setGroup_lists _ _)

theorem consumeExactGpuCacheHit_lists (g : SequenceGroup) :
    Within SameLists (consumeExactGpuCacheHit p g) := by
  unfold consumeExactGpuCacheHit
  split
  · exact .pure _
  · exact onManager_lists _

theorem admitPrefill_lists (seqId : SeqId) (n k : Int) (ret : SchedulerPrefillOutputs) :
    Within SameLists (admitPrefill p seqId n k ret) := by
  refine .bind (getGroup_lists _) fun g =>
    .bind ((hasSyntheticCacheSource_same g).mono fun _ _ h => h.lists) fun _ =>
      .bind .read fun _ => .bind (allocateAndSetRunning_lists p _) fun _ =>
        .bind (.update fun _ => ⟨rfl, rfl, rfl, rfl, rfl, rfl⟩) fun _ =>
          .bind (consumeExactGpuCacheHit_lists p _) fun _ => ?_
  exact .bind (getGroup_lists _) fun g => .bind
    ((maybeIncrementPartialPrefills_same p g).mono fun _ _ h => h.lists) fun _ => .bind .read fun _ =>
      .bind (.ofOption _) fun _ => .bind ((modifyBudget_same _).mono fun _ _ h => h.lists) fun _ => .pure _

end SchedM

namespace Settled
open Prog
variable {p : SchedulerParams} {n : SeqId} {w r : List SeqId} {s s' : Scheduler} {id : SeqId}

theorem same (h : Settled n w r s) (q : SameGroups s s') (hs : s'.swapped = s.swapped)
    (ha : s'.asyncStopped = s.asyncStopped) : Settled n w r s' :=
  ⟨h.toOwnership.same q, fun id hid => by rw [q.groups]; exact h.unfinished id hid, hs.trans h.swapped,
    ha.trans h.asyncStopped⟩

theorem quiet (h : Settled n w r s) (q : SameQueues s s') : Settled n w r s' :=
  h.same q.toSameGroups q.swapped q.asyncStopped

theorem perm (h : Settled n w r s) {w' r' : List SeqId} (hw : w'.Perm w) (hr : r'.Perm r) :
    Settled n w' r' s :=
  ⟨h.toOwnership.perm hw hr, fun id hid => h.unfinished id (hr.mem_iff.mp hid), h.swapped, h.asyncStopped⟩

theorem running_group (h : Settled n w r s) (hid : id ∈ r) : ∃ g, s.groups.get? id = some g ∧
    g.status = .running ∧ id ∈ s.blockManager.blockTables := by
  obtain ⟨g, hg, hs⟩ := h.running id hid
  obtain ⟨g', hg', hu⟩ := h.unfinished id hid
  obtain rfl : g = g' := Option.some.inj (hg.symm.trans hg')
  rcases hs with hs | hf
  · exact ⟨g, hg, hs⟩
  · rw [hf] at hu
    cases hu

/-- A group that is not finished afterwards changes its status and its queue. -/
theorem move (h : Settled n w r s) {w' r' : List SeqId} {g g' : SequenceGroup}
    (hg : s.groups.get? id = some g) (groups : s'.groups = s.groups.set id g') (hseq : g'.seqId = id)
    (lists : SameLists s s')
    (entries : s'.blockManager.gpuCachedEntries = s.blockManager.gpuCachedEntries)
    (tables : ∀ x, x ≠ id → (x ∈ s'.blockManager.blockTables ↔ x ∈ s.blockManager.blockTables))
    (hw : ∀ x, x ≠ id → w'.count x = w.count x) (hr : ∀ x, x ≠ id → r'.count x = r.count x)
    (hin : 0 < w.count id + r.count id) (hone : w'.count id + r'.count id ≤ 1)
    (hqueue : g'.isFinished = false → 0 < w'.count id + r'.count id)
    (hwait : 0 < w'.count id → id ∉ s'.blockManager.blockTables ∧ g'.status = .waiting)
    (hrun : 0 < r'.count id → g'.status = .running ∧ id ∈ s'.blockManager.blockTables)
    (hown : id ∈ s'.blockManager.blockTables → 0 < r'.count id) : Settled n w' r' s' := by
  refine ⟨h.toOwnership.move hg groups hseq lists.finished entries tables hw hr hin hone hqueue hwait
    (fun hc => .inl (hrun hc)) hown, fun x hx => ?_, lists.swapped.trans h.swapped,
    lists.asyncStopped.trans h.asyncStopped⟩
  rw [groups]
  by_cases hxi : x = id
  · subst hxi
    refine ⟨g', Dict.get?_set_self _ _ _, ?_⟩
    rw [SequenceGroup.isFinished, (hrun (List.count_pos_iff.mpr hx)).1]
    rfl
  · rw [Dict.get?_set_ne _ _ (Ne.symm hxi)]
    exact h.unfinished x (List.count_pos_iff.mp (by rw [← hr x hxi]; exact List.count_pos_iff.mpr hx))

end Settled

end CoreFlow
