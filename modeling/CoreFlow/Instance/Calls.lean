import CoreFlow.Manager.Runs
import CoreFlow.Scheduler.Frame
import CoreFlow.Instance.Engine

/-!
# The scheduler uses its block manager through the calls of a run

The methods of the scheduler and of the engine change the block manager through its calls, and a group that has
not finished through its status and its counts. What these steps keep, the methods keep. So what is known of the
runs of a manager is known of the manager of every engine.
-/

namespace CoreFlow
open Prog

/-! ## What the steps keep -/

/-- What the client asked for; no method changes it. -/
structure Request where
  requestId : RequestId
  seqId : SeqId
  promptTokenIds : List TokenId
  extraArgs : Option ExtraArgs
  priority : Int
  arrivalTime : Int
deriving DecidableEq

def SequenceGroup.request (g : SequenceGroup) : Request :=
  ⟨g.requestId, g.seqId, g.promptTokenIds, g.extraArgs, g.priority, g.arrivalTime⟩

/-- A relation that the calls of a manager keep, and that does not look at what its callers record. -/
structure KeptByCalls (p : ManagerParams) (R : BlockSpaceManager → BlockSpaceManager → Prop) : Prop where
  perform : ∀ op, Within R (BlockSpaceManager.perform p op)
  record : ∀ m unused admissions,
    R m { m with trace := { m.trace with unused := unused, admissions := admissions } }

/-- A relation of schedulers that the calls of their managers keep, and that looks at nothing else than the groups
and the manager. -/
structure KeptByManager (p : ManagerParams) (Q : Scheduler → Scheduler → Prop) : Prop where
  frame : ∀ s s' : Scheduler, s'.groups = s.groups → s'.blockManager = s.blockManager → Q s s'
  call : ∀ op, Within Q (SchedM.onManager (BlockSpaceManager.perform p op))
  record : ∀ (s : Scheduler) unused admissions, Q s { s with blockManager := { s.blockManager with
    trace := { s.blockManager.trace with unused := unused, admissions := admissions } } }

/-- It is also kept where a group that has not finished gets another status, another stage or other counts. -/
structure KeptBySteps (p : ManagerParams) (Q : Scheduler → Scheduler → Prop) : Prop extends KeptByManager p Q where
  regroup : ∀ (s : Scheduler) id g g', s.groups.get? id = some g → g.isFinished = false → g'.request = g.request →
    g'.outputTokenIds = g.outputTokenIds → Q s { s with groups := s.groups.set id g' }

/-- The managers of two schedulers are related. -/
def OnManager (R : BlockSpaceManager → BlockSpaceManager → Prop) (s s' : Scheduler) : Prop :=
  R s.blockManager s'.blockManager

/-- The schedulers of two engines are related. -/
def OnScheduler (Q : Scheduler → Scheduler → Prop) (e e' : Engine) : Prop := Q e.scheduler e'.scheduler

/-- The relation holds, and no group changes. -/
def Quietly (Q : Scheduler → Scheduler → Prop) (s s' : Scheduler) : Prop := Q s s' ∧ s'.groups = s.groups

theorem SchedM.onManager_kept {R : BlockSpaceManager → BlockSpaceManager → Prop} {α : Type} {x : ManagerM α}
    (h : Within R x) : Within (OnManager R) (onManager x) := .zoom h fun _ _ h => h

theorem KeptByCalls.steps {p : ManagerParams} {R : BlockSpaceManager → BlockSpaceManager → Prop}
    [IsPreorder BlockSpaceManager R] (k : KeptByCalls p R) : KeptBySteps p (OnManager R) := by
  refine ⟨⟨fun s s' _ h => ?_, fun op => SchedM.onManager_kept (k.perform op), fun s => k.record s.blockManager⟩,
    fun s _ _ _ _ _ _ _ => refl (r := R) s.blockManager⟩
  rw [OnManager, h]
  exact refl s.blockManager

section
variable {R : BlockSpaceManager → BlockSpaceManager → Prop} [IsPreorder BlockSpaceManager R]
variable {Q : Scheduler → Scheduler → Prop} [IsPreorder Scheduler Q]

instance : IsPreorder Scheduler (OnManager R) where
  refl s := refl (r := R) s.blockManager
  trans _ _ _ h h' := IsTrans.trans (r := R) _ _ _ h h'

instance : IsPreorder Engine (OnScheduler Q) where
  refl e := refl (r := Q) e.scheduler
  trans _ _ _ h h' := IsTrans.trans (r := Q) _ _ _ h h'

instance : IsPreorder Scheduler (Quietly Q) where
  refl s := ⟨refl s, rfl⟩
  trans _ _ _ h h' := ⟨IsTrans.trans _ _ _ h.1 h'.1, h'.2.trans h.2⟩

theorem SchedM.kept_of_content {α : Type} {x : SchedM α} (h : Within SameContent x) : Within (OnManager R) x :=
  h.mono fun s s' h => by
    rw [OnManager, h.blockManager]
    exact refl s.blockManager

theorem SchedM.setGroup_kept (id : SeqId) (g : SequenceGroup) : Within (OnManager R) (setGroup id g) :=
  .update fun s => refl (r := R) s.blockManager

theorem SchedM.setStatus_kept (id : SeqId) (status : SequenceStatus) : Within (OnManager R) (setStatus id status) :=
  .bind (kept_of_content (getGroup_content id)) fun _ => setGroup_kept _ _

end

theorem EngineM.onScheduler_kept {Q : Scheduler → Scheduler → Prop} {α : Type} {y : SchedM α} (h : Within Q y) :
    Within (OnScheduler Q) (onScheduler y) := .zoom h fun _ _ h => h

/-! ## The calls of the manager -/

namespace KeptByManager
open SchedM

section
variable {p : ManagerParams} {Q : Scheduler → Scheduler → Prop} {α : Type} (k : KeptByManager p Q)
include k

theorem content {x : SchedM α} (h : Within SameContent x) : Within Q x :=
  h.mono fun s s' h => k.frame s s' h.groups h.blockManager

theorem update {f : Scheduler → Scheduler}
    (h : ∀ s, (f s).groups = s.groups ∧ (f s).blockManager = s.blockManager) : Within Q (Prog.update f) :=
  .update fun s => k.frame s (f s) (h s).1 (h s).2

/-- The result of a call can be used. -/
theorem drop {x : ManagerM α} (op : ManagerOp)
    (h : BlockSpaceManager.perform p op = (do let _ ← x)) : Within Q (onManager x) := by
  intro s a s' hx
  obtain ⟨m, hm, rfl⟩ := onManager_iff.mp hx
  have kept := k.call op s ()
  rw [h] at kept
  exact kept _ (onManager_iff.mpr ⟨m, bind_iff.mpr ⟨a, m, hm, rfl⟩, rfl⟩)

theorem quiet : KeptByManager p (Quietly Q) where
  frame s s' groups manager := ⟨k.frame s s' groups manager, groups⟩
  call op s u s' h := by
    refine ⟨k.call op s u s' h, ?_⟩
    obtain ⟨m, -, rfl⟩ := onManager_iff.mp h
    rfl
  record s unused admissions := ⟨k.record s unused admissions, rfl⟩

theorem leaveUnused (pairs : List SwapPair) : Within Q (onManager (ManagerM.leaveUnused pairs)) := by
  intro s u s' h
  obtain ⟨m, hm, rfl⟩ := onManager_iff.mp h
  rw [update_iff.mp hm]
  exact k.record s _ _

end

variable {p : SchedulerParams} {Q : Scheduler → Scheduler → Prop} (k : KeptByManager p.toManagerParams Q)
include k

theorem getNumCachedTokens (g : SequenceGroup) (d : Device) : Within Q (getNumCachedTokens p g d) :=
  k.drop (.getNumCachedTokens g d) rfl

theorem freeSeq (id : SeqId) : Within Q (freeSeq p id) := k.call (.free id)

variable [IsPreorder Scheduler Q]

theorem removeSeqFromComputedBlocksTracker (id : SeqId) (status : SequenceStatus) :
    Within Q (removeSeqFromComputedBlocksTracker id status) :=
  .bind (k.content (getGroup_content id)) fun _ => .when (k.call (.removeSeqFromComputedBlocksTracker id))

theorem evictCachedBlocks (g : SequenceGroup) : Within Q (onManager (ManagerM.freeRequestCache p.toManagerParams g)) := by
  unfold ManagerM.freeRequestCache
  split
  · exact fun s _ s' h => by
      obtain ⟨m, hm, rfl⟩ := onManager_iff.mp h
      rw [(pure_iff.mp hm).2]
      exact refl s
  · exact k.call (.evictCachedBlocks _)

theorem consumeExactGpuCacheHit (g : SequenceGroup) : Within Q (consumeExactGpuCacheHit p g) := by
  unfold SchedM.consumeExactGpuCacheHit
  split
  · exact .pure _
  · exact k.call (.evictCachedBlocks _)

theorem appendSlots (id : SeqId) : Within Q (appendSlots p id) :=
  .bind (k.content (getGroup_content id)) fun g =>
    .ite (k.drop (.appendSlots g (getNumLookaheadSlots p g.isPrefill)) rfl) (.pure _)

theorem getNumNewUncachedAndCachedTokens (g : SequenceGroup) (status : SequenceStatus) (c : Bool) :
    Within Q (getNumNewUncachedAndCachedTokens p g status c) :=
  getNumNewUncachedAndCachedTokens_rule p (k.getNumCachedTokens g) status c

theorem resolveCachedPrefixLen (g : SequenceGroup) : Within Q (resolveCachedPrefixLen p g) :=
  resolveCachedPrefixLen_rule p (k.getNumCachedTokens g)

theorem scheduleRunningGroup (id : SeqId) (n : Int) (c : Bool) (ret : SchedulerRunningOutputs) :
    Within Q (scheduleRunningGroup p id n c ret) :=
  .bind (k.appendSlots id) fun _ => .bind (k.content (getGroup_content id)) fun _ => .bind .read fun _ =>
    .bind (.ofOption _) fun _ => .bind (k.update fun _ => ⟨rfl, rfl⟩) fun _ => .pure _

end KeptByManager

/-! ## A group at hand -/

/-- The relation holds after every run that starts with this group. -/
def KeepsFrom (Q : Scheduler → Scheduler → Prop) (id : SeqId) (g : SequenceGroup) {α : Type} (x : SchedM α) : Prop :=
  ∀ s a s', s.groups.get? id = some g → x s = some (a, s') → Q s s'

namespace KeepsFrom
open SchedM
variable {p : ManagerParams} {Q : Scheduler → Scheduler → Prop} {id : SeqId} {g g' : SequenceGroup} {α β : Type}

theorem of_within {x : SchedM α} (h : Within Q x) : KeepsFrom Q id g x := fun _ _ _ _ hx => h _ _ _ hx

theorem getGroup_within {f : SequenceGroup → SchedM α} (h : ∀ g, KeepsFrom Q id g (f g)) :
    Within Q (getGroup id >>= f) := by
  intro s a s' hx
  rw [getGroup_bind, Option.bind_eq_some_iff] at hx
  obtain ⟨g, hg, hx⟩ := hx
  exact h g s a s' hg hx

theorem reread_bind {f : SequenceGroup → SchedM α} (h : KeepsFrom Q id g (f g)) :
    KeepsFrom Q id g (getGroup id >>= f) := by
  intro s a s' hg hx
  rw [SchedM.getGroup_bind, hg, Option.bind_some] at hx
  exact h s a s' hg hx

theorem require_bind {c : Prop} [Decidable c] {f : Unit → SchedM α} (h : c → KeepsFrom Q id g (f ())) :
    KeepsFrom Q id g (require c >>= f) := by
  intro s a s' hg hx
  rw [Prog.require_bind, Option.ite_none_right_eq_some] at hx
  exact h hx.1 s a s' hg hx.2

theorem ite {c : Prop} [Decidable c] {x y : SchedM α} (hx : c → KeepsFrom Q id g x) (hy : ¬ c → KeepsFrom Q id g y) :
    KeepsFrom Q id g (if c then x else y) := by
  split
  · next h => exact hx h
  · next h => exact hy h

theorem ofOption_bind {o : Option β} {f : β → SchedM α} (h : ∀ b, o = some b → KeepsFrom Q id g (f b)) :
    KeepsFrom Q id g (ofOption o >>= f) := by
  intro s a s' hg hx
  rw [Prog.ofOption_bind, Option.bind_eq_some_iff] at hx
  obtain ⟨b, hb, hx⟩ := hx
  exact h b hb s a s' hg hx

theorem when_bind {c : Prop} [Decidable c] {x : SchedM Unit} {f : Unit → SchedM α}
    (hx : c → KeepsFrom Q id g (x >>= f)) (hf : ¬ c → KeepsFrom Q id g (f ())) : KeepsFrom Q id g (when c x >>= f) := by
  by_cases h : c
  · rw [when_pos h]
    exact hx h
  · rw [when_neg h]
    exact hf h

theorem regroup (k : KeptBySteps p Q) (hu : g.isFinished = false) (hr : g'.request = g.request)
    (ho : g'.outputTokenIds = g.outputTokenIds) : KeepsFrom Q id g (setGroup id g') := by
  intro s u s' hg h
  rw [update_iff.mp h]
  exact k.regroup s id g g' hg hu hr ho

theorem status (k : KeptBySteps p Q) (hu : g.isFinished = false) (status : SequenceStatus) :
    KeepsFrom Q id g (setStatus id status) := reread_bind (regroup k hu rfl rfl)

variable [IsPreorder Scheduler Q]

theorem bind {x : SchedM α} {f : α → SchedM β} (hx : Within (Quietly Q) x) (hf : ∀ a, KeepsFrom Q id g (f a)) :
    KeepsFrom Q id g (x >>= f) := by
  intro s b s' hg h
  obtain ⟨a, s₁, h₁, h₂⟩ := bind_iff.mp h
  obtain ⟨q, groups⟩ := hx _ _ _ h₁
  exact IsTrans.trans _ _ _ q (hf a s₁ b s' (by rw [groups, hg]) h₂)

theorem then_within {x : SchedM α} {f : α → SchedM β} (hx : KeepsFrom Q id g x) (hf : ∀ a, Within Q (f a)) :
    KeepsFrom Q id g (x >>= f) := by
  intro s b s' hg h
  obtain ⟨a, s₁, h₁, h₂⟩ := bind_iff.mp h
  exact IsTrans.trans _ _ _ (hx _ _ _ hg h₁) (hf a _ _ _ h₂)

theorem regroup_bind {f : Unit → SchedM α} (k : KeptBySteps p Q) (hu : g.isFinished = false) (hr : g'.request = g.request)
    (ho : g'.outputTokenIds = g.outputTokenIds) (hf : KeepsFrom Q id g' (f ())) :
    KeepsFrom Q id g (setGroup id g' >>= f) := by
  intro s a s' hg h
  rw [SchedM.setGroup_bind] at h
  exact IsTrans.trans _ _ _ (k.regroup s id g g' hg hu hr ho) (hf _ a s' (Dict.get?_set_self _ _ _) h)

theorem status_bind {f : Unit → SchedM α} {status : SequenceStatus} (k : KeptBySteps p Q) (hu : g.isFinished = false)
    (hf : KeepsFrom Q id { g with status := status } (f ())) :
    KeepsFrom Q id g (setStatus id status >>= f) := by
  rw [setStatus, bind_assoc]
  exact reread_bind (regroup_bind k hu rfl rfl hf)

end KeepsFrom

/-! ## The methods of the scheduler -/

namespace KeptBySteps
open SchedM
variable {p : SchedulerParams} {Q : Scheduler → Scheduler → Prop} [IsPreorder Scheduler Q]
  (k : KeptBySteps p.toManagerParams Q)
include k

theorem preempt (id : SeqId) : Within Q (preempt p id) := by
  have unfinished {g : SequenceGroup} (h : g.status = .running) : g.isFinished = false := by
    rw [SequenceGroup.isFinished, h]
    rfl
  have recompute : Within Q (preemptByRecompute p id) := by
    apply KeepsFrom.getGroup_within
    intro g
    apply KeepsFrom.require_bind
    intro hrun
    apply KeepsFrom.status_bind k (unfinished hrun)
    apply KeepsFrom.bind (k.quiet.freeSeq id)
    intro _
    apply KeepsFrom.reread_bind
    exact KeepsFrom.regroup k rfl rfl rfl
  have swapOut : Within Q (swapOut p id) := by
    apply KeepsFrom.getGroup_within
    intro g
    apply KeepsFrom.bind (k.quiet.drop (.canSwapOut g) rfl)
    intro ok
    apply KeepsFrom.require_bind
    intro _
    apply KeepsFrom.bind (k.quiet.content time_content)
    intro now
    apply KeepsFrom.bind (k.quiet.drop (.swapOut g now) rfl)
    intro pairs
    apply KeepsFrom.when_bind
    · intro hrun
      exact KeepsFrom.then_within (.status k (unfinished hrun) _) fun _ => .pure _
    · intro _
      exact KeepsFrom.of_within (.pure _)
  have swap : Within Q (preemptBySwap p id) := by
    apply Within.bind swapOut
    intro mapping
    apply KeepsFrom.getGroup_within
    intro g
    apply KeepsFrom.when_bind
    · intro hswapped
      have hu : g.isFinished = false := by
        rw [SequenceGroup.isFinished, hswapped]
        rfl
      exact KeepsFrom.then_within (.then_within (.regroup k hu rfl rfl) fun _ => k.freeSeq id) fun _ => .pure _
    · intro _
      exact KeepsFrom.of_within (.pure _)
  refine .bind (k.content (getGroup_content id)) fun g => ?_
  split
  · exact .bind recompute fun _ => .pure _
  · exact .bind swap fun _ => .pure _

theorem preemptVictim (id : SeqId) (ret : SchedulerRunningOutputs) : Within Q (preemptVictim p none id ret) := by
  unfold SchedM.preemptVictim
  simp only [Prog.pure_bind, if_true]
  refine .bind (k.preempt id) fun o => ?_
  split <;> exact .pure _

/-! ### The running queue -/

theorem preemptUntilFits (id : SeqId) (n : Int) (c : Bool) (fuel : Nat) (ret : SchedulerRunningOutputs) :
    Within Q (preemptUntilFits p none id n c fuel ret) := by
  induction fuel generalizing ret with
  | zero => exact .raise
  | succ fuel ih =>
    refine .bind (k.content (canAppendSlots_content p id)) fun _ => .ite (k.scheduleRunningGroup id n c ret) ?_
    refine .bind (k.content (getGroup_content id)) fun _ => .bind (k.update fun _ => ⟨rfl, rfl⟩) fun _ =>
      .bind .read fun s => ?_
    split
    · exact k.preemptVictim id ret
    · exact .bind (k.update fun _ => ⟨rfl, rfl⟩) fun _ => .bind (k.preemptVictim _ ret) fun _ => ih _

theorem scheduleRunningLoop (c : Bool) (fuel : Nat) (ret : SchedulerRunningOutputs) :
    Within Q (scheduleRunningLoop p none c fuel ret) := by
  induction fuel generalizing ret with
  | zero => exact .raise
  | succ fuel ih =>
    refine .bind .read fun s => ?_
    split
    · exact .pure _
    · refine .bind (k.content (getGroup_content _)) fun g =>
        .bind (k.getNumNewUncachedAndCachedTokens g _ _) fun _ => .ite (.pure _) ?_
      refine .bind (k.update fun _ => ⟨rfl, rfl⟩) fun _ =>
        .ite (.bind (k.update fun _ => ⟨rfl, rfl⟩) fun _ => ih _) ?_
      exact .bind (k.preemptUntilFits _ _ _ _ _) fun _ => ih _

theorem scheduleRunning (c : Bool) : Within Q (scheduleRunning p none c) :=
  .bind .read fun _ => .bind (.require _) fun _ => k.scheduleRunningLoop c _ _

/-! ### The waiting queue -/

theorem prefillStep (id : SeqId) (c : Bool) : Within Q (prefillStep p id c) := by
  apply KeepsFrom.getGroup_within
  intro g
  apply KeepsFrom.require_bind
  intro hwait
  have hu : g.isFinished = false := by
    rw [SequenceGroup.isFinished, hwait]
    rfl
  have ignore : KeepsFrom Q id g (do
      SchedM.setStatus id .finishedIgnored
      SchedM.removeSeqFromComputedBlocksTracker id .finishedIgnored
      pure PrefillStep.ignore) :=
    KeepsFrom.then_within (.status k hu _) fun _ => .bind (k.removeSeqFromComputedBlocksTracker id _) fun _ => .pure _
  have stop : KeepsFrom Q id g (do
      SchedM.removeSeqFromComputedBlocksTracker id .waiting
      pure PrefillStep.stop) :=
    .of_within (.bind (k.removeSeqFromComputedBlocksTracker id _) fun _ => .pure _)
  refine .bind .read fun _ => .ite (fun _ => .of_within (.pure _)) fun _ =>
    .bind (k.quiet.getNumNewUncachedAndCachedTokens g _ _) fun _ => .bind (.require _) fun _ =>
      .ite (fun _ => ignore) fun _ => .bind .read fun _ => .bind (.ofOption _) fun o => ?_
  cases o with
  | later => exact stop
  | never => exact ignore
  | ok =>
    exact .ite (fun _ => stop) fun _ => .ite (fun _ => stop) fun _ => .bind (.ofOption _) fun _ =>
      .ite (fun _ => stop) fun _ => .of_within (.pure _)

theorem allocateAndSetRunning (id : SeqId) : Within Q (allocateAndSetRunning p id) := by
  apply KeepsFrom.getGroup_within
  intro g s pairs s' hg h
  obtain ⟨blocksToSwapIn, s₁, h₁, h⟩ := bind_iff.mp h
  obtain ⟨m, hm, rfl⟩ := onManager_iff.mp h₁
  -- only waiting sequences are allocated, so the group has not finished
  have hu : g.isFinished = false := by
    rw [SequenceGroup.isFinished, (ManagerM.allocate_owners hm).1]
    rfl
  refine IsTrans.trans _ _ _ (k.drop (.allocate g) rfl _ _ _ h₁) ((?_ : KeepsFrom Q id g _) _ _ _ hg h)
  have last (g' : SequenceGroup) (hu : g'.isFinished = false) : KeepsFrom Q id g' (do
      SchedM.setStatus id .running
      pure blocksToSwapIn) := .then_within (.status k hu _) fun _ => .pure _
  apply KeepsFrom.bind (k.quiet.resolveCachedPrefixLen g)
  intro initialCachedTokens
  refine .bind hasSyntheticCacheSource_any fun synthetic => ?_
  apply KeepsFrom.when_bind
  · intro _
    rw [bind_assoc]
    apply KeepsFrom.bind (k.quiet.drop (.registerSyntheticCachedTokens g initialCachedTokens) rfl)
    intro n
    apply KeepsFrom.when_bind
    · intro _
      rw [bind_assoc]
      apply KeepsFrom.ofOption_bind
      intro g' hg'
      rw [SequenceGroup.updateNumComputedTokens, Option.ite_none_right_eq_some, Option.some.injEq] at hg'
      obtain ⟨-, rfl⟩ := hg'
      exact KeepsFrom.regroup_bind k hu rfl rfl (last _ hu)
    · intro _
      exact last g hu
  · intro _
    exact last g hu

theorem admitPrefill (id : SeqId) (n m : Int) (ret : SchedulerPrefillOutputs) : Within Q (admitPrefill p id n m ret) :=
  .bind (k.content (getGroup_content id)) fun _ => .bind hasSyntheticCacheSource_any fun _ =>
    .bind .read fun _ => .bind (k.allocateAndSetRunning id) fun _ => .bind (.update fun s => k.record s _ _) fun _ =>
      .bind (k.consumeExactGpuCacheHit _) fun _ => .bind (k.content (getGroup_content id)) fun _ =>
        .bind (k.content (maybeIncrementPartialPrefills_content p _)) fun _ => .bind .read fun _ =>
          .bind (.ofOption _) fun _ => .bind (k.update fun _ => ⟨rfl, rfl⟩) fun _ => .pure _

theorem schedulePrefillsLoop (c : Bool) (fuel : Nat) (ret : SchedulerPrefillOutputs) (leftover : List SeqId) :
    Within Q (schedulePrefillsLoop p c fuel ret leftover) := by
  induction fuel generalizing ret leftover with
  | zero => exact .raise
  | succ fuel ih =>
    refine .bind (k.content time_content) fun now =>
      .bind (k.content ((passedDelay_budget p now).mono fun _ _ h => h.toSameContent)) fun _ => .bind .read fun s => ?_
    split
    · exact .pure _
    · refine .ite (.pure _) (.bind (k.prefillStep _ c) fun o => ?_)
      cases o with
      | stop => exact .pure _
      | leave => exact .bind (k.update fun _ => ⟨rfl, rfl⟩) fun _ => ih _ _
      | ignore => exact .bind (k.update fun _ => ⟨rfl, rfl⟩) fun _ => ih _ _
      | accept n m =>
        exact .bind (k.update fun _ => ⟨rfl, rfl⟩) fun _ => .bind (k.admitPrefill _ n m ret) fun _ => ih _ _

theorem schedulePrefills (c : Bool) : Within Q (schedulePrefills p c) :=
  .bind .read fun _ => .ite (.pure _) (.bind (k.schedulePrefillsLoop c _ _ _) fun _ =>
    .bind (k.update fun _ => ⟨rfl, rfl⟩) fun _ => .pure _)

theorem priorityPreemptionLoop (id : SeqId) (n seqs : Int) (fuel : Nat) (running victims : List SeqId) :
    Within Q (priorityPreemptionLoop p id n seqs fuel running victims) := by
  induction fuel generalizing running victims with
  | zero => exact .raise
  | succ fuel ih =>
    unfold SchedM.priorityPreemptionLoop
    split
    · exact .pure _
    · refine .bind (k.content (getGroup_content _)) fun _ => .bind (k.content (getGroup_content _)) fun v =>
        .ite (.pure _) (.bind .read fun _ => .bind (.ofOption _) fun _ => .bind (.ite (.ofOption _) (.pure _)) fun _ =>
          .ite (.pure _) ?_)
      exact .bind (k.getNumNewUncachedAndCachedTokens v _ _) fun _ => .bind (k.update fun _ => ⟨rfl, rfl⟩) fun _ =>
        .bind (k.preempt _) fun _ => .bind (k.leaveUnused _) fun _ => ih _ _

theorem schedulePriorityPreemption : Within Q (schedulePriorityPreemption p) := by
  refine .bind .read fun s => .bind (k.content (sortedByPriority_content _)) fun _ => ?_
  split
  · exact k.update fun _ => ⟨rfl, rfl⟩
  · exact .bind (k.content (getGroup_content _)) fun g => .bind (k.getNumNewUncachedAndCachedTokens g _ _) fun _ =>
      .bind (k.priorityPreemptionLoop _ _ _ _ _ _) fun _ => .bind (k.removeSeqFromComputedBlocksTracker _ _) fun _ =>
        .bind (k.content (sortedByPriority_content _)) fun _ => k.update fun _ => ⟨rfl, rfl⟩

/-! ### The policies -/

theorem scheduleDefault : Within Q (scheduleDefault p none) :=
  .bind .read fun _ => .bind (k.content (getGroups_content _)) fun _ => .bind (k.update fun _ => ⟨rfl, rfl⟩) fun _ =>
    .bind (.ite (k.schedulePrefills false) (.pure _)) fun _ => .bind (.when k.schedulePriorityPreemption) fun _ =>
      .bind (.ite (k.scheduleRunning false) (.pure _)) fun _ => .bind (k.content (checkBudget_content p)) fun _ =>
        .bind (k.update fun _ => ⟨rfl, rfl⟩) fun _ => .bind (.require _) fun _ => .bind .read fun _ =>
          .bind (.require _) fun _ => .pure _

theorem scheduleChunkedPrefill : Within Q (scheduleChunkedPrefill p none) :=
  .bind .read fun _ => .bind (k.content (getGroups_content _)) fun _ =>
    .bind (k.content (getGroups_content _)) fun _ => .bind (k.update fun _ => ⟨rfl, rfl⟩) fun _ =>
      .bind (k.scheduleRunning true) fun _ => .bind .read fun _ =>
        .bind (.ite (k.schedulePrefills true) (.pure _)) fun _ => .bind (k.content (checkBudget_content p)) fun _ =>
          .bind (k.content (orderFinishingPrefillsFirst_content _)) fun _ =>
            .bind (k.update fun _ => ⟨rfl, rfl⟩) fun _ => .bind .read fun _ => .bind (.require _) fun _ => .pure _

theorem schedule : Within Q (schedule p none) := by
  have queues : Within Q (scheduleQueues p none) :=
    .bind .read fun _ => .bind (k.content (sortByQueryId_content _)) fun _ =>
      .bind (k.content (sortByQueryId_content _)) fun _ => .bind (k.update fun _ => ⟨rfl, rfl⟩) fun _ =>
        .ite k.scheduleChunkedPrefill k.scheduleDefault
  have metadata (now : Int) (sg : ScheduledSequenceGroup) : Within Q (groupMetadata p now sg) := by
    refine .bind (k.content (getGroup_content _)) fun g => .bind (.ite ?_ (.pure _)) fun _ =>
      .bind (k.drop (.getCommonComputedBlockIds g) rfl) fun _ => .pure _
    exact .bind .read fun _ => .bind (.ofOption _) fun _ => .bind (k.call (.accessAllBlocksInSeq _ _)) fun _ => .pure _
  refine .bind queues fun o => .bind .read fun s => .bind (k.update fun _ => ⟨rfl, rfl⟩) fun _ =>
    .bind (k.content time_content) fun now => .bind (.mapM (metadata now) _) fun _ =>
      .bind (.forM (fun sg => ?_) _) fun _ => .pure _
  exact .bind (k.content (getGroup_content _)) fun g => k.call (.markBlocksAsComputed g _)

/-! ### Aborted and finished groups -/

theorem abortSeqGroup (requestIds : List RequestId) : Within Q (abortSeqGroup p requestIds) := by
  have abort (id : SeqId) : Within Q (abortGroup p id) := by
    apply KeepsFrom.getGroup_within
    intro g
    unfold Prog.when
    split
    · next hu => exact KeepsFrom.then_within (.status k hu _) fun _ => k.freeSeq id
    · exact KeepsFrom.of_within (.pure _)
  have named (queue : List SeqId) := k.content (groupsNamed_content requestIds queue)
  refine .bind .read fun s => .bind (named s.waiting) fun ids => .bind (.forM (fun id => ?_) ids) fun _ =>
    .bind .read fun s => .bind (named s.running) fun ids => .bind (.forM (fun id => ?_) ids) fun _ =>
      .bind .read fun s => .bind (named s.swapped) fun ids => .forM (fun id => ?_) ids
  all_goals exact .bind (k.update fun _ => ⟨rfl, rfl⟩) fun _ => abort id

end KeptBySteps

namespace KeptByManager
open SchedM
variable {p : SchedulerParams} {Q : Scheduler → Scheduler → Prop} [IsPreorder Scheduler Q]
  (k : KeptByManager p.toManagerParams Q)
include k

theorem freeFinishedSeqs (id : SeqId) : Within Q (freeFinishedSeqs p id) :=
  .bind (k.content (getGroup_content id)) fun _ => .when (k.freeSeq id)

theorem releaseCache (g : SequenceGroup) : Within Q (releaseCache p g) := by
  refine .ite (.bind (k.evictCachedBlocks g) fun _ => .pure _) (.ite (.bind (k.call (.retainBlocks g)) fun _ => .pure _) ?_)
  refine .bind (k.content time_content) fun now => .bind (k.drop (.swapOutFinished g now) rfl) fun o => ?_
  cases o with
  | none => exact .bind (k.evictCachedBlocks g) fun _ => .pure _
  | some pairs => exact .bind (k.update fun _ => ⟨rfl, rfl⟩) fun _ => .pure _

theorem freeFinishedSeqGroups : Within Q (freeFinishedSeqGroups p) := by
  have blocks (id : SeqId) : Within Q (freeFinishedSeqGroupBlocks p id) := by
    refine .bind (k.content (getGroup_content id)) fun g => .bind (.ite (k.releaseCache g) (.pure _)) fun _ =>
      .ite (k.update fun _ => ⟨rfl, rfl⟩) (.bind ?_ fun _ => .when (k.freeFinishedSeqs id))
    refine .bind .read fun s => ?_
    split <;> exact .pure _
  exact .bind .read fun _ => .bind (.require _) fun _ => .bind (.require _) fun _ =>
    .bind (.forM k.freeFinishedSeqs _) fun _ => .bind (k.update fun _ => ⟨rfl, rfl⟩) fun _ =>
      .bind (.forM blocks _) fun _ => .bind (k.update fun _ => ⟨rfl, rfl⟩) fun _ =>
        .bind (.forM blocks _) fun _ => k.update fun _ => ⟨rfl, rfl⟩

end KeptByManager

/-! ## The engine -/

namespace EngineM
variable {p : SchedulerParams} {Q : Scheduler → Scheduler → Prop}

theorem setClock_kept (k : KeptByManager p.toManagerParams Q) (clock : List Int) :
    Within (OnScheduler Q) (setClock clock) := onScheduler_kept (k.update fun _ => ⟨rfl, rfl⟩)

variable [IsPreorder Scheduler Q]

theorem same_kept {f : Engine → Engine} (h : ∀ e, (f e).scheduler = e.scheduler) :
    Within (OnScheduler Q) (Prog.update f) :=
  .update fun e => by
    rw [OnScheduler, h]
    exact refl e.scheduler

theorem nextSeqId_kept : Within (OnScheduler Q) nextSeqId :=
  .bind .read fun _ => .bind (same_kept fun _ => rfl) fun _ => .pure _

theorem schedule_kept (k : KeptBySteps p.toManagerParams Q) (clock : List Int) :
    Within (OnScheduler Q) (schedule p clock) :=
  .bind .read fun _ => .bind (.require _) fun _ => .bind (setClock_kept k.toKeptByManager clock) fun _ =>
    .bind (onScheduler_kept k.schedule) fun _ => same_kept fun _ => rfl

theorem migrateCache_kept (k : KeptByManager p.toManagerParams Q) (tokenIds : List TokenId)
    (queryId invocationId : Int) (requestId : RequestId) (keep : Bool) (arrivalTime now : Int) :
    Within (OnScheduler Q) (migrateCache p tokenIds queryId invocationId requestId keep arrivalTime now) := by
  have retain (g : SequenceGroup) : Within Q (SchedM.onManager (ManagerM.retainBlocks p.toManagerParams g)) :=
    k.call (.retainBlocks g)
  have gpu : Within (OnScheduler Q)
      (registerMigratedGpuCache p tokenIds queryId invocationId requestId arrivalTime) := by
    refine .bind nextSeqId_kept fun id => .bind .read fun e => .bind (.ofOption _) fun o => ?_
    cases o with
    | ok =>
      exact .bind (onScheduler_kept (k.drop (.allocate _) rfl)) fun pairs =>
        .bind (onScheduler_kept (k.leaveUnused pairs)) fun _ =>
          .bind (onScheduler_kept (retain _)) fun _ => .pure _
    | later => exact .pure _
    | never => exact .pure _
  exact .ite (.pure _) (.bind (.ite gpu (.pure _)) fun _ =>
    .when (.bind (onScheduler_kept (k.drop (.registerMigratedCpuCache tokenIds now) rfl)) fun _ => .pure _))

/-- Processing the outputs keeps what processing each of them keeps. -/
theorem processModelOutputs_kept (k : KeptByManager p.toManagerParams Q)
    (process : ∀ m o, Within Q (processGroup p m o)) (samples : List SampleOutput) (clock : List Int) :
    Within (OnScheduler Q) (processModelOutputs p samples clock) :=
  .bind .read fun _ => .bind (.ofOption _) fun _ => .bind (.require _) fun _ => .bind (setClock_kept k clock) fun _ =>
    .bind (onScheduler_kept (.mapM (fun x : SequenceGroupMetadata × SampleOutput => process x.1 x.2) _)) fun _ =>
      .bind (.when (onScheduler_kept k.freeFinishedSeqGroups)) fun _ => same_kept fun _ => rfl

variable {R : BlockSpaceManager → BlockSpaceManager → Prop} [IsPreorder BlockSpaceManager R]
  (k : KeptByCalls p.toManagerParams R)
include k

/-- What the calls of a manager keep, the operations of an engine keep. -/
theorem perform_kept (op : EngineOp) : Within (OnScheduler (OnManager R)) (Engine.perform p op) := by
  have steps := k.steps
  cases op with
  | addSeqGroup requestId promptTokenIds extraArgs priority arrivalTime =>
    exact .bind nextSeqId_kept fun id => onScheduler_kept
      (.bind (SchedM.setGroup_kept _ _) fun _ => steps.update fun _ => ⟨rfl, rfl⟩)
  | abortSeqGroup requestIds => exact onScheduler_kept (steps.abortSeqGroup requestIds)
  | schedule clock => exact schedule_kept steps clock
  | processModelOutputs samples clock =>
    refine processModelOutputs_kept steps.toKeptByManager (fun m o => ?_) samples clock
    refine .bind (steps.content (SchedM.getGroup_content _)) fun g => .ite (.pure _) (.bind (.ofOption _) fun _ =>
      .bind (SchedM.setGroup_kept _ _) fun _ => .ite (.pure _) (.bind (SchedM.setGroup_kept _ _) fun _ => ?_))
    split
    · exact .pure _
    · exact .bind (.require _) fun _ => .bind (SchedM.setGroup_kept _ _) fun _ =>
        .bind (.when (steps.freeSeq _)) fun _ => .pure _
  | migrateCache tokenIds queryId invocationId requestId keep arrivalTime now =>
    exact migrateCache_kept steps.toKeptByManager tokenIds queryId invocationId requestId keep arrivalTime now

end EngineM

/-- What the calls of a manager keep holds between the first and the last manager of every run of an engine. -/
theorem Engine.run_kept {p : SchedulerParams} {R : BlockSpaceManager → BlockSpaceManager → Prop}
    [IsPreorder BlockSpaceManager R] (k : KeptByCalls p.toManagerParams R) {e e' : Engine} {ops : List EngineOp}
    (hrun : Engine.run p e ops = some e') : R e.scheduler.blockManager e'.scheduler.blockManager := by
  refine Engine.run_invariant (fun e₁ => R e.scheduler.blockManager e₁.scheduler.blockManager)
    (fun op e₁ e₂ h hs => ?_) hrun (refl e.scheduler.blockManager)
  exact IsTrans.trans (r := R) _ _ _ h (EngineM.perform_kept k op _ _ _ hs)

end CoreFlow
