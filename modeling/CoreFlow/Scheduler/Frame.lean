import CoreFlow.Scheduler.Schedule
import CoreFlow.Manager.Owners

/-!
# What the methods of the scheduler leave alone

`SameContent` holds of the methods that only read, but for the budgets and the clock, and `SameQueues`
also of those that count tokens or give out slots: no group, queue or owner of a table changes.
-/

namespace CoreFlow

/-- The groups, the tables' owners and the finished groups whose release is deferred are the same. -/
structure SameGroups (s s' : Scheduler) : Prop where
  groups : s'.groups = s.groups
  finished : s'.finishedSeqsPendingSwapOut = s.finishedSeqsPendingSwapOut
  owners : SameOwners s.blockManager s'.blockManager

instance : IsPreorder Scheduler SameGroups where
  refl _ := ⟨rfl, rfl, refl _⟩
  trans _ _ _ h h' := ⟨h'.1.trans h.1, h'.2.trans h.2, IsTrans.trans _ _ _ h.3 h'.3⟩

/-- The groups, their queues, the pending copies and the owners are the same. -/
structure SameQueues (s s' : Scheduler) : Prop extends SameGroups s s' where
  waiting : s'.waiting = s.waiting
  running : s'.running = s.running
  swapped : s'.swapped = s.swapped
  asyncStopped : s'.asyncStopped = s.asyncStopped
  pending : s'.pendingFinishedSwapOut = s.pendingFinishedSwapOut

instance : IsPreorder Scheduler SameQueues where
  refl _ := ⟨refl _, rfl, rfl, rfl, rfl, rfl⟩
  trans _ _ _ h h' := ⟨IsTrans.trans _ _ _ h.1 h'.1, h'.2.trans h.2, h'.3.trans h.3, h'.4.trans h.4,
    h'.5.trans h.5, h'.6.trans h.6⟩

/-- Only the budgets, the delay and the clock can differ. -/
structure SameContent (s s' : Scheduler) : Prop where
  blockManager : s'.blockManager = s.blockManager
  groups : s'.groups = s.groups
  finished : s'.finishedSeqsPendingSwapOut = s.finishedSeqsPendingSwapOut
  waiting : s'.waiting = s.waiting
  running : s'.running = s.running
  swapped : s'.swapped = s.swapped
  asyncStopped : s'.asyncStopped = s.asyncStopped
  pending : s'.pendingFinishedSwapOut = s.pendingFinishedSwapOut

instance : IsPreorder Scheduler SameContent where
  refl _ := ⟨rfl, rfl, rfl, rfl, rfl, rfl, rfl, rfl⟩
  trans _ _ _ h h' := ⟨h'.1.trans h.1, h'.2.trans h.2, h'.3.trans h.3, h'.4.trans h.4, h'.5.trans h.5,
    h'.6.trans h.6, h'.7.trans h.7, h'.8.trans h.8⟩

/-- Only the delay and the clock can differ. -/
structure SameBudget (s s' : Scheduler) : Prop extends SameContent s s' where
  budget : s'.budget = s.budget

instance : IsPreorder Scheduler SameBudget where
  refl _ := ⟨refl _, rfl⟩
  trans _ _ _ h h' := ⟨IsTrans.trans _ _ _ h.1 h'.1, h'.2.trans h.2⟩

theorem SameContent.queues {s s' : Scheduler} (h : SameContent s s') : SameQueues s s' :=
  ⟨⟨h.groups, h.finished, by rw [h.blockManager]; exact refl _⟩, h.waiting, h.running, h.swapped, h.asyncStopped,
    h.pending⟩

namespace SchedM
open Prog
variable (p : SchedulerParams)

/-! ## Reading -/

theorem content_of_budget {α : Type} {x : SchedM α} (h : Within SameBudget x) : Within SameContent x :=
  h.mono fun _ _ h => h.toSameContent

theorem getGroup_budget (seqId : SeqId) : Within SameBudget (getGroup seqId) := .bind .read fun _ => .ofOption _

theorem getGroup_content (seqId : SeqId) : Within SameContent (getGroup seqId) :=
  content_of_budget (getGroup_budget seqId)

theorem time_budget : Within SameBudget time := by
  refine .bind .read fun s => ?_
  split
  · exact .raise
  · exact .bind (.update fun _ => ⟨⟨rfl, rfl, rfl, rfl, rfl, rfl, rfl, rfl⟩, rfl⟩) fun _ => .pure _

theorem time_content : Within SameContent time := content_of_budget time_budget

theorem modifyBudget_content (f : SchedulingBudget → SchedulingBudget) :
    Within SameContent (modifyBudget f) :=
  .update fun _ => ⟨rfl, rfl, rfl, rfl, rfl, rfl, rfl, rfl⟩

theorem getGroups_content (queue : List SeqId) : Within SameContent (getGroups queue) :=
  .mapM getGroup_content _

theorem maybeIncrementPartialPrefills_content (g : SequenceGroup) :
    Within SameContent (maybeIncrementPartialPrefills p g) :=
  .update fun _ => ⟨rfl, rfl, rfl, rfl, rfl, rfl, rfl, rfl⟩

theorem canAppendSlots_budget (seqId : SeqId) : Within SameBudget (canAppendSlots p seqId) := by
  refine .bind (getGroup_budget _) fun g => .zoom (Q := Eq) ?_ fun s m h => ?_
  · refine .bind .read fun m => .bind (.ite ?_ (.pure _)) fun _ => .pure _
    exact .bind (.bind .read fun _ => .ofOption _) fun _ => .pure _
  · exact ⟨⟨h.symm, rfl, rfl, rfl, rfl, rfl, rfl, rfl⟩, rfl⟩

theorem canAppendSlots_content (seqId : SeqId) : Within SameContent (canAppendSlots p seqId) :=
  content_of_budget (canAppendSlots_budget p seqId)

theorem sortedByPriority_content (queue : List SeqId) : Within SameContent (sortedByPriority queue) :=
  .bind (getGroups_content _) fun _ => .pure _

theorem sortByQueryId_content (queue : List SeqId) : Within SameContent (sortByQueryId queue) :=
  .ite (.pure _) (.bind (.mapM (fun _ => .bind (getGroup_content _) fun _ =>
    .bind (.ofOption _) fun _ => .pure _) _) fun _ => .pure _)

theorem passedDelay_budget (now : Int) : Within SameBudget (passedDelay p now) :=
  .bind (.update fun _ => ⟨⟨rfl, rfl, rfl, rfl, rfl, rfl, rfl, rfl⟩, rfl⟩) fun _ => .bind .read fun _ =>
    .ite (.bind (.mapM getGroup_budget _) fun _ => .bind (.ofOption _) fun _ => .pure _) (.pure _)

theorem checkBudget_content : Within SameContent (checkBudget p) :=
  .bind .read fun _ => .bind (.require _) fun _ => .require _

theorem orderFinishingPrefillsFirst_content (l : List ScheduledSequenceGroup) :
    Within SameContent (orderFinishingPrefillsFirst l) :=
  .bind (.mapM (fun _ => .bind (getGroup_content _) fun _ => .pure _) _) fun _ => .pure _

theorem groupsNamed_content (ids : List RequestId) (queue : List SeqId) :
    Within SameContent (groupsNamed ids queue) :=
  .bind (.mapM (fun _ => .bind (getGroup_content _) fun _ => .pure _) _) fun _ => .pure _

/-- What reads only moves nothing. -/
theorem queues_of_content {α : Type} {x : SchedM α} (h : Within SameContent x) : Within SameQueues x :=
  h.mono fun _ _ h => h.queues

theorem getGroup_same (seqId : SeqId) : Within SameQueues (getGroup seqId) :=
  queues_of_content (getGroup_content _)

theorem getGroup_iff {seqId : SeqId} {s s' : Scheduler} {g : SequenceGroup} :
    getGroup seqId s = some (g, s') ↔ s.groups.get? seqId = some g ∧ s' = s := by
  rw [getGroup, read_bind, ofOption_iff]

theorem getGroup_bind {α : Type} {seqId : SeqId} {f : SequenceGroup → SchedM α} {s : Scheduler} :
    (getGroup seqId >>= f) s = (s.groups.get? seqId).bind fun g => f g s := by
  rw [getGroup, Prog.bind_assoc, read_bind, ofOption_bind]

theorem setGroup_bind {α : Type} {seqId : SeqId} {g : SequenceGroup} {f : Unit → SchedM α}
    {s : Scheduler} :
    (setGroup seqId g >>= f) s = f () { s with groups := s.groups.set seqId g } := rfl

theorem setGroup_iff {seqId : SeqId} {g : SequenceGroup} {s s' : Scheduler} {u : Unit} :
    setGroup seqId g s = some (u, s') ↔ s' = { s with groups := s.groups.set seqId g } := update_iff

theorem setStatus_iff {seqId : SeqId} {status : SequenceStatus} {s s' : Scheduler} {u : Unit} :
    setStatus seqId status s = some (u, s') ↔ ∃ g, s.groups.get? seqId = some g ∧
      s' = { s with groups := s.groups.set seqId { g with status := status } } := by
  rw [setStatus, getGroup_bind, Option.bind_eq_some_iff]
  simp only [setGroup_iff]

theorem onManager_iff {α : Type} {x : ManagerM α} {s s' : Scheduler} {a : α} :
    onManager x s = some (a, s') ↔
      ∃ m, x s.blockManager = some (a, m) ∧ s' = { s with blockManager := m } := zoom_iff

theorem onManager_same {α : Type} {x : ManagerM α} (h : Within SameOwners x) :
    Within SameQueues (onManager x) :=
  .zoom h fun _ _ ho => ⟨⟨rfl, rfl, ho⟩, rfl, rfl, rfl, rfl, rfl⟩

theorem onManager_same' {α : Type} {x : ManagerM α} (h : Within SameBlocks x) :
    Within SameQueues (onManager x) := onManager_same (h.mono fun _ _ h => h.owners)

theorem time_same : Within SameQueues time := queues_of_content time_content

theorem modifyBudget_same (f : SchedulingBudget → SchedulingBudget) :
    Within SameQueues (modifyBudget f) := queues_of_content (modifyBudget_content f)

theorem getGroups_same (queue : List SeqId) : Within SameQueues (getGroups queue) :=
  queues_of_content (getGroups_content _)

/-! ## Tokens -/

section
variable {R : Scheduler → Scheduler → Prop} [IsPreorder Scheduler R] {g : SequenceGroup}

theorem hasSyntheticCacheSource_any : Within R (hasSyntheticCacheSource g) := by
  refine .bind (.bind .read fun s => ?_) fun _ => .pure _
  split <;> exact .pure _

/-- What looking up the prefix of a group in a cache keeps, resolving its prefix keeps. -/
theorem resolveCachedPrefixLen_rule (count : ∀ d, Within R (getNumCachedTokens p g d)) :
    Within R (resolveCachedPrefixLen p g) := by
  refine .ite (.pure _) (.bind (.bind .read fun s => ?_) fun o => ?_)
  · split <;> exact .pure _
  · cases o with
    | some n => exact .pure _
    | none => exact .bind (count .gpu) fun _ => .bind (count .cpu) fun _ => .pure _

/-- What looking up the prefix of a group in a cache keeps, counting its tokens keeps. -/
theorem getNumNewUncachedAndCachedTokens_rule (count : ∀ d, Within R (getNumCachedTokens p g d))
    (status : SequenceStatus) (c : Bool) : Within R (getNumNewUncachedAndCachedTokens p g status c) := by
  have tokens : Within R (getNumNewTokens p g) := by
    refine .ite (.pure _) (.bind (.ite (.pure _) ?_) fun _ => .pure _)
    exact .bind (count .cpu) fun _ => .bind (count .gpu) fun _ => .pure _
  have chunk (n : Int) : Within R (chunkNewTokensToSchedule p n) := by
    refine .bind .read fun s => .bind ?_ fun _ => .pure _
    split
    · exact .pure _
    · exact .ofOption _
  exact .ite (.pure _) (.bind tokens fun _ => .ite (.bind (chunk _) fun _ => .pure _) (.pure _))

end

theorem hasSyntheticCacheSource_same (g : SequenceGroup) :
    Within SameQueues (hasSyntheticCacheSource g) := hasSyntheticCacheSource_any

theorem getNumCachedTokens_same (g : SequenceGroup) (d : Device) :
    Within SameQueues (getNumCachedTokens p g d) :=
  onManager_same' (ManagerM.getNumCachedTokens_same _ g d)

theorem resolveCachedPrefixLen_same (g : SequenceGroup) :
    Within SameQueues (resolveCachedPrefixLen p g) := resolveCachedPrefixLen_rule p (getNumCachedTokens_same p g)

theorem getNumNewUncachedAndCachedTokens_same (g : SequenceGroup) (status : SequenceStatus) (c : Bool) :
    Within SameQueues (getNumNewUncachedAndCachedTokens p g status c) :=
  getNumNewUncachedAndCachedTokens_rule p (getNumCachedTokens_same p g) status c

theorem maybeIncrementPartialPrefills_same (g : SequenceGroup) :
    Within SameQueues (maybeIncrementPartialPrefills p g) :=
  queues_of_content (maybeIncrementPartialPrefills_content p g)

theorem removeSeqFromComputedBlocksTracker_same (seqId : SeqId) (status : SequenceStatus) :
    Within SameQueues (removeSeqFromComputedBlocksTracker seqId status) :=
  .bind (getGroup_same _) fun _ =>
    .when (onManager_same' (ManagerM.removeSeqFromComputedBlocksTracker_same _))

/-! ## Slots -/

theorem canAppendSlots_same (seqId : SeqId) : Within SameQueues (canAppendSlots p seqId) :=
  queues_of_content (canAppendSlots_content p _)

theorem appendSlots_same (seqId : SeqId) : Within SameQueues (appendSlots p seqId) :=
  .bind (getGroup_same _) fun _ =>
    .ite (onManager_same fun _ _ _ h => ManagerM.appendSlots_owners h) (.pure _)

theorem scheduleRunningGroup_same (seqId : SeqId) (n : Int) (c : Bool)
    (ret : SchedulerRunningOutputs) : Within SameQueues (scheduleRunningGroup p seqId n c ret) :=
  .bind (appendSlots_same p _) fun _ => .bind (getGroup_same _) fun _ => .bind .read fun _ =>
    .bind (.ofOption _) fun _ => .bind (modifyBudget_same _) fun _ => .pure _

/-! ## The waiting queue and the batch -/

theorem sortedByPriority_same (queue : List SeqId) : Within SameQueues (sortedByPriority queue) :=
  queues_of_content (sortedByPriority_content _)

theorem sortByQueryId_same (queue : List SeqId) : Within SameQueues (sortByQueryId queue) :=
  queues_of_content (sortByQueryId_content _)

theorem passedDelay_same (now : Int) : Within SameQueues (passedDelay p now) :=
  queues_of_content (content_of_budget (passedDelay_budget p now))

theorem checkBudget_same : Within SameQueues (checkBudget p) := queues_of_content (checkBudget_content p)

theorem makeOutputs_same (o : SchedulerOutputs) : Within SameQueues (makeOutputs o) :=
  .bind (.require _) fun _ => .pure _

theorem orderFinishingPrefillsFirst_same (l : List ScheduledSequenceGroup) :
    Within SameQueues (orderFinishingPrefillsFirst l) :=
  queues_of_content (orderFinishingPrefillsFirst_content l)

theorem groupMetadata_same (now : Int) (sg : ScheduledSequenceGroup) :
    Within SameQueues (groupMetadata p now sg) := by
  refine .bind (getGroup_same _) fun g => .bind (.ite ?_ (.pure _)) fun _ =>
    .bind (onManager_same' (ManagerM.getCommonComputedBlockIds_same _ _)) fun _ => .pure _
  exact .bind .read fun _ => .bind (.ofOption _) fun _ =>
    .bind (onManager_same (ManagerM.accessAllBlocksInSeq_owners _ _)) fun _ => .pure _

/-- What `schedule` does after `_schedule`: it hands out the pending copies and describes the batch, which
leaves groups, queues and owners alone. -/
theorem schedule_steps {callback : Option (RequestId → SchedM Unit)} {s s' : Scheduler}
    {o : List SequenceGroupMetadata × SchedulerOutputs} (hs : schedule p callback s = some (o, s')) :
    ∃ outputs s₁ now s₂ s₃, scheduleQueues p callback s = some (outputs, s₁) ∧
      o.2 = { outputs with blocksToSwapOut := outputs.blocksToSwapOut ++ s₁.pendingFinishedSwapOut } ∧
      time { s₁ with pendingFinishedSwapOut := [] } = some (now, s₂) ∧
      Prog.mapM (groupMetadata p now) outputs.scheduledSeqGroups s₂ = some (o.1, s₃) ∧
      SameQueues { s₁ with pendingFinishedSwapOut := [] } s' := by
  obtain ⟨outputs, s₁, h₁, hs⟩ := bind_iff.mp hs
  simp only [read_bind, update_bind] at hs
  obtain ⟨now, s₂, h₂, hs⟩ := bind_iff.mp hs
  obtain ⟨metadata, s₃, h₃, hs⟩ := bind_iff.mp hs
  obtain ⟨_, s₄, h₄, hs⟩ := bind_iff.mp hs
  obtain ⟨rfl, rfl⟩ := pure_iff.mp hs
  have mark : Within SameQueues (Prog.forM (fun sg : ScheduledSequenceGroup => do
      let g ← getGroup sg.seqId
      onManager (ManagerM.markBlocksAsComputed p.toManagerParams g sg.tokenChunkSize))
      outputs.scheduledSeqGroups) :=
    .forM (fun _ => .bind (getGroup_same _) fun g => onManager_same (ManagerM.markBlocksAsComputed_owners _ g _)) _
  have q₂ := time_same _ _ _ h₂
  have q₃ := Within.mapM (groupMetadata_same p now) _ _ _ _ h₃
  exact ⟨outputs, s₁, now, s₂, s₃, h₁, rfl, h₂, h₃, IsTrans.trans _ _ _ q₂ (IsTrans.trans _ _ _ q₃ (mark _ _ _ h₄))⟩

theorem hasCacheEntry_same (g : SequenceGroup) : Within SameQueues (hasCacheEntry g) := by
  refine .bind .read fun s => ?_
  split <;> exact .pure _

theorem groupsNamed_same (ids : List RequestId) (queue : List SeqId) :
    Within SameQueues (groupsNamed ids queue) := queues_of_content (groupsNamed_content ids queue)

end SchedM

end CoreFlow
