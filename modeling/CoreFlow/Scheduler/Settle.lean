import CoreFlow.Scheduler.Steps

/-!
# A whole `schedule` keeps ownership

The waiting queue, the two policies, and `schedule` itself; the scheduled groups end in the running
queue.
-/

namespace CoreFlow.SchedM
open Prog
variable {p : SchedulerParams} {n : SeqId} {w r : List SeqId} {s s' : Scheduler} {id : SeqId}

/-! ## The waiting queue -/

/-- The invariant of `_schedule_prefills`. -/
def PrefillInv (n : SeqId) (w r : List SeqId) (s : Scheduler) (ret : SchedulerPrefillOutputs)
    (left : List SeqId) : Prop :=
  Settled n (w ++ left ++ s.waiting) (r ++ s.running ++ scheduledIds ret.seqGroups) s

theorem schedulePrefillsLoop_settled {c : Bool} {fuel : Nat} {ret ret' : SchedulerPrefillOutputs}
    {left left' : List SeqId}
    (h : schedulePrefillsLoop p c fuel ret left s = some ((ret', left'), s'))
    (h0 : PrefillInv n w r s ret left) : PrefillInv n w r s' ret' left' := by
  refine schedulePrefillsLoop_rule (PrefillInv n w r) c ?_ ?_ ?_ ?_ h h0
  · intro s s' ret left q i
    unfold PrefillInv at i ⊢
    rw [q.waiting, q.running]
    exact i.quiet q
  · -- the group is put aside
    intro s id rest ret left hw i
    unfold PrefillInv at i ⊢
    rw [hw] at i
    refine (i.perm ?_ (.refl _)).same ⟨rfl, rfl, refl _⟩ rfl rfl
    rw [List.append_assoc, List.append_assoc]
    exact List.Perm.append_left _ List.perm_middle.symm
  · -- the group is ignored
    intro s id rest s' ret left hw i hstep
    unfold PrefillInv at i
    rw [hw] at i
    have i₁ : Settled n (id :: (w ++ left ++ rest)) (r ++ s.running ++ scheduledIds ret.seqGroups) s :=
      i.perm List.perm_middle.symm (.refl _)
    obtain ⟨i', l⟩ := i₁.ignore hstep
    unfold PrefillInv
    rw [l.running]
    exact i'.same ⟨rfl, rfl, refl _⟩ rfl rfl
  · -- the group is admitted
    intro s id rest numUncached numCached s₁ ret ret' s' left hw i hstep ha
    unfold PrefillInv at i
    obtain ⟨g, -, -, hq, -⟩ := prefillStep_same hstep
    have q := hq (fun h => by cases h)
    rw [hw, ← q.running] at i
    have i₁ : Settled n (id :: (w ++ left ++ rest)) (r ++ s₁.running ++ scheduledIds ret.seqGroups)
        { s₁ with waiting := rest } :=
      ((i.quiet q).perm List.perm_middle.symm (.refl _)).same ⟨rfl, rfl, refl _⟩ rfl rfl
    obtain ⟨i₂, hret⟩ := i₁.admitPrefill ha
    have l := admitPrefill_lists p id _ _ _ _ _ _ ha
    unfold PrefillInv scheduledIds
    rw [l.waiting, l.running, hret]
    refine i₂.perm (.refl _) ?_
    rw [← List.append_assoc]
    exact List.perm_append_singleton _ _

theorem schedulePrefills_settled {c : Bool} {ret : SchedulerPrefillOutputs}
    (h : Settled n (w ++ s.waiting) (r ++ s.running) s)
    (hp : schedulePrefills p c s = some (ret, s')) :
    Settled n (w ++ s'.waiting) (r ++ s'.running ++ scheduledIds ret.seqGroups) s' := by
  rw [schedulePrefills, read_bind] at hp
  split at hp
  · obtain ⟨rfl, rfl⟩ := pure_iff.mp hp
    simpa [SchedulerPrefillOutputs.empty, scheduledIds] using h
  · obtain ⟨⟨ret₁, left⟩, s₁, h₁, hp⟩ := bind_iff.mp hp
    simp only [update_bind, pure_iff] at hp
    obtain ⟨rfl, rfl⟩ := hp
    have start : PrefillInv n w r s .empty [] := by
      unfold PrefillInv
      simpa [SchedulerPrefillOutputs.empty, scheduledIds] using h
    have i := schedulePrefillsLoop_settled h₁ start
    unfold PrefillInv at i
    refine (i.perm ?_ (.refl _)).same ⟨rfl, rfl, refl _⟩ rfl rfl
    rw [List.append_assoc]
    exact List.Perm.append_left _ ((List.reverse_perm left).append_right _)

/-! ## Priority preemption -/

theorem schedulePriorityPreemption_settled {u : Unit} (h : Settled n s.waiting s.running s)
    (hp : schedulePriorityPreemption p s = some (u, s')) : Settled n s'.waiting s'.running s' := by
  rw [schedulePriorityPreemption, read_bind] at hp
  obtain ⟨sorted, s₁, h₁, hp⟩ := bind_iff.mp hp
  have perm := sortedByPriority_perm h₁
  have q₁ := sortedByPriority_same _ _ _ _ h₁
  cases hw : s.waiting with
  | nil =>
    rw [hw] at hp
    rw [update_iff.mp hp]
    have i : Settled n s₁.waiting sorted s₁ := (h.quiet q₁).perm (.of_eq q₁.waiting) perm
    exact i.same ⟨rfl, rfl, refl _⟩ rfl rfl
  | cons id rest =>
    simp only [hw, getGroup_bind, Option.bind_eq_some_iff] at hp
    obtain ⟨g, -, hp⟩ := hp
    obtain ⟨⟨numUncached, k⟩, s₂, h₂, hp⟩ := bind_iff.mp hp
    obtain ⟨⟨running, victims⟩, s₃, h₃, hp⟩ := bind_iff.mp hp
    obtain ⟨_, s₄, h₄, hp⟩ := bind_iff.mp hp
    obtain ⟨waiting, s₅, h₅, hp⟩ := bind_iff.mp hp
    rw [update_iff.mp hp]
    have i₂ : Settled n (victims.take 0 ++ s.waiting) sorted s₂ :=
      ((h.quiet q₁).quiet (getNumNewUncachedAndCachedTokens_same p _ _ _ _ _ _ h₂)).perm (.refl _) perm
    have i₃ : Settled n (victims ++ s.waiting) running s₃ := by
      refine priorityPreemptionLoop_rule (fun s' running victims => Settled n (victims ++ s.waiting) running s')
        (fun _ _ _ _ q i => i.quiet q) ?_ h₃ i₂
      intro t v running victims mode pairs t₁ t' i ht hu
      obtain ⟨m, hm, rfl⟩ := onManager_iff.mp hu
      rw [update_iff.mp hm]
      have i₁ := (i.perm (.refl _) (List.perm_append_singleton _ _).symm).preempt ht
      exact ⟨i₁.toOwnership.frame rfl rfl rfl fun _ => Iff.rfl, i₁.unfinished, i₁.swapped, i₁.asyncStopped⟩
    have i₅ := (i₃.quiet (removeSeqFromComputedBlocksTracker_same _ _ _ _ _ h₄)).quiet
      (sortedByPriority_same _ _ _ _ h₅)
    refine (i₅.perm ((sortedByPriority_perm h₅).trans ?_) (.refl _)).same ⟨rfl, rfl, refl _⟩ rfl rfl
    rw [hw]
    exact List.perm_middle.symm

/-! ## Policies -/

theorem makeOutputs_iff {o o' : SchedulerOutputs} :
    makeOutputs o s = some (o', s') ↔
      (o.blocksToSwapIn = [] ∨ o.blocksToSwapOut = []) ∧ o' = o ∧ s' = s := by
  rw [makeOutputs, require_bind, Option.ite_none_right_eq_some, pure_iff]

theorem scheduleDefault_settled {o : SchedulerOutputs} (h : Settled n s.waiting s.running s)
    (hs : scheduleDefault p none s = some (o, s')) :
    Settled n s'.waiting s'.running s' ∧ ∀ sg ∈ o.scheduledSeqGroups, sg.seqId ∈ s'.running := by
  rw [scheduleDefault, read_bind] at hs
  obtain ⟨gs, s₁, h₁, hs⟩ := bind_iff.mp hs
  have q₁ := getGroups_same _ _ _ _ h₁
  simp only [update_bind] at hs
  obtain ⟨t, ht⟩ : ∃ t, t = { s₁ with
      budget := gs.foldl (fun b (g : SequenceGroup) => b.addNumSeqs g.requestId g.getMaxNumRunningSeqs)
        (SchedulingBudget.init p.maxNumBatchedTokens p.maxNumSeqs)
      partialPrefillMetadata := none } := ⟨_, rfl⟩
  rw [← ht] at hs
  have qt : SameQueues s t := by
    rw [ht]
    exact IsTrans.trans _ _ _ q₁ ⟨⟨rfl, rfl, refl _⟩, rfl, rfl, rfl, rfl, rfl⟩
  obtain ⟨prefills, s₂, h₂, hs⟩ := bind_iff.mp hs
  have it : Settled n ([] ++ t.waiting) ([] ++ t.running) t := by
    rw [List.nil_append, List.nil_append, qt.waiting, qt.running]
    exact h.quiet qt
  have i₂ : Settled n s₂.waiting (s₂.running ++ scheduledIds prefills.seqGroups) s₂ := by
    split at h₂
    · simpa using schedulePrefills_settled it h₂
    · obtain ⟨rfl, rfl⟩ := pure_iff.mp h₂
      simpa [SchedulerPrefillOutputs.empty, scheduledIds] using it
  obtain ⟨_, s₃, h₃, hs⟩ := bind_iff.mp hs
  have i₃ : Settled n s₃.waiting (s₃.running ++ scheduledIds prefills.seqGroups) s₃ := by
    unfold Prog.when at h₃
    split at h₃
    · rename_i hp
      rw [hp.1] at i₂ ⊢
      simpa [scheduledIds] using schedulePriorityPreemption_settled (by simpa [scheduledIds] using i₂) h₃
    · obtain ⟨-, rfl⟩ := pure_iff.mp h₃
      exact i₂
  obtain ⟨running, s₄, h₄, hs⟩ := bind_iff.mp hs
  have i₄ : Settled n (running.swappedOut.reverse ++ running.preempted.reverse ++ s₄.waiting)
      (s₄.running ++ scheduledIds prefills.seqGroups ++ (scheduledIds running.decodeSeqGroups ++
        scheduledIds running.prefillSeqGroups)) s₄ := by
    split at h₄
    · rename_i hp
      rw [hp] at i₃ ⊢
      simpa [scheduledIds] using scheduleRunning_settled (by simpa [scheduledIds] using i₃) h₄
    · obtain ⟨rfl, rfl⟩ := pure_iff.mp h₄
      simpa [SchedulerRunningOutputs.empty, scheduledIds] using i₃
  obtain ⟨_, s₅, h₅, hs⟩ := bind_iff.mp hs
  have q₅ := checkBudget_same p _ _ _ h₅
  simp only [update_bind, require_bind, Option.ite_none_right_eq_some, read_bind, makeOutputs_iff] at hs
  obtain ⟨hnil, -, rfl, rfl⟩ := hs
  rw [← q₅.waiting, ← q₅.running, hnil] at i₄
  refine ⟨((i₄.quiet q₅).perm ?_ ?_).same ⟨rfl, rfl, refl _⟩ rfl rfl, fun sg hsg => ?_⟩
  · exact .of_eq (List.append_assoc ..).symm
  · simp [scheduledIds]
  · rcases List.mem_append.mp hsg with hsg | hsg
    · exact List.mem_append_left _ (List.mem_append_right _ (List.mem_map_of_mem hsg))
    · exact List.mem_append_right _ (List.mem_map_of_mem hsg)

theorem orderFinishingPrefillsFirst_perm {l : List ScheduledSequenceGroup} {ids : List SeqId}
    (h : orderFinishingPrefillsFirst l s = some (ids, s')) : ids.Perm (scheduledIds l) := by
  obtain ⟨marked, s₁, h₁, h⟩ := bind_iff.mp h
  obtain ⟨rfl, -⟩ := pure_iff.mp h
  have hfst : marked.map Prod.fst = scheduledIds l := by
    refine mapM_map_eq (fun sg t b t' hb => ?_) h₁
    simp only [bind_iff, pure_iff] at hb
    obtain ⟨g, -, -, rfl, -⟩ := hb
    rfl
  rw [← hfst, ← List.map_append]
  refine List.Perm.map _ ?_
  have := List.filter_append_perm (·.2) marked
  simpa using this

theorem scheduleChunkedPrefill_settled {o : SchedulerOutputs} (h : Settled n s.waiting s.running s)
    (hs : scheduleChunkedPrefill p none s = some (o, s')) :
    Settled n s'.waiting s'.running s' ∧ ∀ sg ∈ o.scheduledSeqGroups, sg.seqId ∈ s'.running := by
  rw [scheduleChunkedPrefill, read_bind] at hs
  obtain ⟨runningGroups, s₁, h₁, hs⟩ := bind_iff.mp hs
  obtain ⟨waitingGroups, s₂, h₂, hs⟩ := bind_iff.mp hs
  have q₂ := IsTrans.trans _ _ _ (getGroups_same _ _ _ _ h₁) (getGroups_same _ _ _ _ h₂)
  simp only [update_bind] at hs
  obtain ⟨t, ht⟩ : ∃ t, t = { s₂ with
      budget := SchedulingBudget.init p.maxNumBatchedTokens p.maxNumSeqs
      partialPrefillMetadata := some (fromQueues p runningGroups waitingGroups) } := ⟨_, rfl⟩
  rw [← ht] at hs
  have qt : SameQueues s t := by
    rw [ht]
    exact IsTrans.trans _ _ _ q₂ ⟨⟨rfl, rfl, refl _⟩, rfl, rfl, rfl, rfl, rfl⟩
  have it : Settled n t.waiting t.running t := by
    rw [qt.waiting, qt.running]
    exact h.quiet qt
  obtain ⟨running, s₃, h₃, hs⟩ := bind_iff.mp hs
  have i₃ := scheduleRunning_settled it h₃
  rw [read_bind] at hs
  obtain ⟨prefills, s₄, h₄, hs⟩ := bind_iff.mp hs
  have i₄ : Settled n (running.swappedOut.reverse ++ running.preempted.reverse ++ s₄.waiting)
      (scheduledIds running.decodeSeqGroups ++ scheduledIds running.prefillSeqGroups ++ s₄.running ++
        scheduledIds prefills.seqGroups) s₄ := by
    have i₃' := i₃.perm (.refl _) List.perm_append_comm.symm
    split at h₄
    · exact schedulePrefills_settled i₃' h₄
    · obtain ⟨rfl, rfl⟩ := pure_iff.mp h₄
      simpa [SchedulerPrefillOutputs.empty, scheduledIds] using i₃'
  obtain ⟨_, s₅, h₅, hs⟩ := bind_iff.mp hs
  obtain ⟨finishing, s₆, h₆, hs⟩ := bind_iff.mp hs
  have q₆ := IsTrans.trans _ _ _ (checkBudget_same p _ _ _ h₅) (orderFinishingPrefillsFirst_same _ _ _ _ h₆)
  have perm := orderFinishingPrefillsFirst_perm h₆
  simp only [update_bind, read_bind, makeOutputs_iff] at hs
  obtain ⟨-, rfl, rfl⟩ := hs
  rw [← q₆.waiting, ← q₆.running] at i₄
  refine ⟨((i₄.quiet q₆).perm ?_ ?_).same ⟨rfl, rfl, refl _⟩ rfl rfl, fun sg hsg => ?_⟩
  · exact .of_eq (List.append_assoc ..).symm
  · have e : (scheduledIds running.decodeSeqGroups ++ scheduledIds running.prefillSeqGroups ++ s₆.running).Perm
        (s₆.running ++ scheduledIds running.decodeSeqGroups ++ finishing) := by
      rw [List.append_assoc s₆.running]
      exact List.perm_append_comm.trans (List.Perm.append_left _ (List.Perm.append_left _ perm.symm))
    exact (e.append_right _).symm
  · show sg.seqId ∈ s₆.running ++ scheduledIds running.decodeSeqGroups ++ finishing ++
      scheduledIds prefills.seqGroups
    simp only [List.mem_append] at hsg ⊢
    rcases hsg with (hsg | hsg) | hsg
    · exact .inr (List.mem_map_of_mem hsg)
    · exact .inl (.inr (perm.mem_iff.mpr (List.mem_map_of_mem hsg)))
    · exact .inl (.inl (.inr (List.mem_map_of_mem hsg)))

theorem scheduleQueues_settled {o : SchedulerOutputs} (h : Settled n s.waiting s.running s)
    (hs : scheduleQueues p none s = some (o, s')) :
    Settled n s'.waiting s'.running s' ∧ ∀ sg ∈ o.scheduledSeqGroups, sg.seqId ∈ s'.running := by
  rw [scheduleQueues, read_bind] at hs
  obtain ⟨waiting, s₁, h₁, hs⟩ := bind_iff.mp hs
  obtain ⟨running, s₂, h₂, hs⟩ := bind_iff.mp hs
  rw [update_bind] at hs
  have q₂ := IsTrans.trans _ _ _ (sortByQueryId_same _ _ _ _ h₁) (sortByQueryId_same _ _ _ _ h₂)
  have i : Settled n waiting running { s₂ with waiting := waiting, running := running } :=
    ((h.quiet q₂).perm (sortByQueryId_perm h₁) (sortByQueryId_perm h₂)).same ⟨rfl, rfl, refl _⟩ rfl rfl
  split at hs
  · exact scheduleChunkedPrefill_settled i hs
  · exact scheduleDefault_settled i hs

/-! ## `schedule` -/

theorem groupMetadata_seqId {now : Int} {sg : ScheduledSequenceGroup} {m : SequenceGroupMetadata}
    (h : groupMetadata p now sg s = some (m, s')) : m.seqId = sg.seqId := by
  simp only [groupMetadata, bind_iff, pure_iff] at h
  obtain ⟨g, s₁, -, ids, s₂, -, nums, s₃, -, rfl, -⟩ := h
  rfl

theorem schedule_settled {o : List SequenceGroupMetadata × SchedulerOutputs}
    (h : Settled n s.waiting s.running s) (hs : schedule p none s = some (o, s')) :
    Settled n s'.waiting s'.running s' ∧ ∀ m ∈ o.1, m.seqId ∈ s'.running := by
  obtain ⟨outputs, s₁, now, s₂, s₃, h₁, -, -, h₃, q⟩ := schedule_steps p hs
  obtain ⟨i₁, hin⟩ := scheduleQueues_settled h h₁
  have hw : s'.waiting = s₁.waiting := q.waiting
  have hr : s'.running = s₁.running := q.running
  rw [hw, hr]
  have i₂ : Settled n s₁.waiting s₁.running { s₁ with pendingFinishedSwapOut := [] } :=
    i₁.same ⟨rfl, rfl, refl _⟩ rfl rfl
  have ids : o.1.map (·.seqId) = scheduledIds outputs.scheduledSeqGroups :=
    mapM_map_eq (fun _ _ _ _ hm => groupMetadata_seqId hm) h₃
  refine ⟨i₂.quiet q, fun m hm => ?_⟩
  have hm' : m.seqId ∈ scheduledIds outputs.scheduledSeqGroups := by
    rw [← ids]
    exact List.mem_map_of_mem hm
  obtain ⟨sg, hsg, he⟩ := List.mem_map.mp hm'
  rw [← he]
  exact hin sg hsg

end CoreFlow.SchedM
