import CoreFlow.Scheduler.Finish

/-!
# Which copies a method asks for

`Asks ins outs lost s s'`: between the two states the block manager has returned the pairs `ins` from
`allocate` and `outs` from its swap-outs, and `lost` are those that a caller did not use. Each loop of
`schedule` returns to its caller the pairs it has asked for, except priority preemption.
-/

namespace CoreFlow
open Prog SchedM

/-- The pairs asked for between two states. -/
structure Asks (ins outs lost : List SwapPair) (s s' : Scheduler) : Prop where
  swapIns : s'.blockManager.trace.swapIns = s.blockManager.trace.swapIns ++ ins
  swapOuts : s'.blockManager.trace.swapOuts = s.blockManager.trace.swapOuts ++ outs
  unused : s'.blockManager.trace.unused = s.blockManager.trace.unused ++ lost
  admissions : s.blockManager.trace.admissions <+: s'.blockManager.trace.admissions
  pending : s'.pendingFinishedSwapOut = s.pendingFinishedSwapOut

namespace Asks
variable {ins outs lost ins' outs' lost' : List SwapPair} {s s' s'' : Scheduler}

theorem trans (h : Asks ins outs lost s s') (h' : Asks ins' outs' lost' s' s'') :
    Asks (ins ++ ins') (outs ++ outs') (lost ++ lost') s s'' := by
  refine ⟨?_, ?_, ?_, h.admissions.trans h'.admissions, h'.pending.trans h.pending⟩
  · rw [h'.swapIns, h.swapIns, List.append_assoc]
  · rw [h'.swapOuts, h.swapOuts, List.append_assoc]
  · rw [h'.unused, h.unused, List.append_assoc]

theorem of_trace (h : s'.blockManager.trace = s.blockManager.trace)
    (hp : s'.pendingFinishedSwapOut = s.pendingFinishedSwapOut) : Asks [] [] [] s s' := by
  refine ⟨?_, ?_, ?_, h ▸ List.prefix_refl _, hp⟩
  · rw [h, List.append_nil]
  · rw [h, List.append_nil]
  · rw [h, List.append_nil]

/-- The rest of the state does not matter. -/
theorem frame (h : Asks ins outs lost s s') (ht : s''.blockManager.trace = s'.blockManager.trace)
    (hp : s''.pendingFinishedSwapOut = s'.pendingFinishedSwapOut) : Asks ins outs lost s s'' := by
  have := h.trans (of_trace ht hp)
  simpa only [List.append_nil] using this

theorem comp {t : Scheduler} (h : Asks ins outs lost s s') (h' : Asks ins' outs' lost' t s'')
    (ht : t.blockManager.trace = s'.blockManager.trace)
    (hp : t.pendingFinishedSwapOut = s'.pendingFinishedSwapOut) :
    Asks (ins ++ ins') (outs ++ outs') (lost ++ lost') s s'' := (h.frame ht hp).trans h'

theorem refl (s : Scheduler) : Asks [] [] [] s s := of_trace rfl rfl

theorem quiet (q : SameQueues s s') : Asks [] [] [] s s' := of_trace q.owners.trace q.pending

theorem then_quiet (h : Asks ins outs lost s s') (q : SameQueues s' s'') : Asks ins outs lost s s'' := by
  have := h.trans (quiet q)
  simpa only [List.append_nil] using this

end Asks

/-- No copy is asked for, and none is put off. -/
def SameCopies (s s' : Scheduler) : Prop :=
  s'.blockManager.trace = s.blockManager.trace ∧ s'.pendingFinishedSwapOut = s.pendingFinishedSwapOut

instance : IsPreorder Scheduler SameCopies where
  refl _ := ⟨rfl, rfl⟩
  trans _ _ _ h h' := ⟨h'.1.trans h.1, h'.2.trans h.2⟩

theorem SameQueues.copies {s s' : Scheduler} (q : SameQueues s s') : SameCopies s s' :=
  ⟨q.owners.trace, q.pending⟩

namespace SchedM
variable {p : SchedulerParams} {s s' : Scheduler} {id : SeqId}

/-! ## Preemption -/

theorem getGroup_copies (id : SeqId) : Within SameCopies (getGroup id) :=
  (getGroup_same id).mono fun _ _ q => q.copies

theorem setGroup_copies (id : SeqId) (g : SequenceGroup) : Within SameCopies (setGroup id g) :=
  .update fun _ => ⟨rfl, rfl⟩

theorem setStatus_copies (id : SeqId) (status : SequenceStatus) : Within SameCopies (setStatus id status) :=
  .bind (getGroup_copies _) fun _ => setGroup_copies _ _

theorem freeSeq_copies (id : SeqId) : Within SameCopies (freeSeq p id) := by
  intro s u s' h
  exact ⟨(freeSeq_spec h).2.2.2, (freeSeq_lists p id _ _ _ h).pending⟩

theorem preemptByRecompute_copies (id : SeqId) : Within SameCopies (preemptByRecompute p id) :=
  .bind (getGroup_copies _) fun _ => .bind (.require _) fun _ => .bind (setStatus_copies _ _) fun _ =>
    .bind (freeSeq_copies _) fun _ => .bind (getGroup_copies _) fun _ => setGroup_copies _ _

theorem swapOut_asks {pairs : List SwapPair} (h : swapOut p id s = some (pairs, s')) :
    Asks [] pairs [] s s' := by
  obtain ⟨g, s₁, h₁, h⟩ := bind_iff.mp h
  obtain ⟨ok, s₂, h₂, h⟩ := bind_iff.mp h
  rw [require_bind, Option.ite_none_right_eq_some] at h
  obtain ⟨now, s₃, h₃, h⟩ := bind_iff.mp h.2
  obtain ⟨mapping, s₄, h₄, h⟩ := bind_iff.mp h
  obtain ⟨_, s₅, h₅, h⟩ := bind_iff.mp h
  obtain ⟨rfl, rfl⟩ := pure_iff.mp h
  have q₃ : SameQueues s s₃ := IsTrans.trans _ _ _ (getGroup_same _ _ _ _ h₁)
    (IsTrans.trans _ _ _ (onManager_same (ManagerM.canSwapOut_owners _ _) _ _ _ h₂) (time_same _ _ _ h₃))
  obtain ⟨m, hm, rfl⟩ := onManager_iff.mp h₄
  have o := ManagerM.swapOut_owners hm
  have a₄ : Asks [] pairs [] s₃ { s₃ with blockManager := m } := by
    refine ⟨?_, o.swapOuts, ?_, o.admissions ▸ List.prefix_refl _, rfl⟩
    · rw [List.append_nil]
      exact o.swapIns
    · rw [List.append_nil]
      exact o.unused
  have c₅ := Within.when (setStatus_copies id .swapped) _ _ _ h₅
  have a₅ := ((Asks.quiet q₃).trans a₄).trans (Asks.of_trace c₅.1 c₅.2)
  simpa only [List.nil_append, List.append_nil] using a₅

theorem preempt_asks {x : PreemptionMode × List SwapPair} (h : preempt p id s = some (x, s')) :
    Asks [] x.2 [] s s' := by
  obtain ⟨g, s₁, h₁, h⟩ := bind_iff.mp h
  have a₁ := Asks.quiet (getGroup_same _ _ _ _ h₁)
  cases hm : preemptionModeOf p g with
  | recompute =>
    rw [hm] at h
    obtain ⟨_, s₂, h₂, h⟩ := bind_iff.mp h
    obtain ⟨rfl, rfl⟩ := pure_iff.mp h
    have c₂ := preemptByRecompute_copies id _ _ _ h₂
    simpa only [List.append_nil] using a₁.trans (Asks.of_trace c₂.1 c₂.2)
  | swap =>
    rw [hm] at h
    obtain ⟨pairs, s₂, h₂, h⟩ := bind_iff.mp h
    obtain ⟨rfl, rfl⟩ := pure_iff.mp h
    obtain ⟨pairs', s₃, h₃, h₂⟩ := bind_iff.mp h₂
    obtain ⟨g', s₄, h₄, h₂⟩ := bind_iff.mp h₂
    obtain ⟨_, s₅, h₅, h₂⟩ := bind_iff.mp h₂
    obtain ⟨rfl, rfl⟩ := pure_iff.mp h₂
    have c₅ : SameCopies s₃ s' := IsTrans.trans _ _ _ (getGroup_copies _ _ _ _ h₄)
      (Within.when (.bind (setGroup_copies _ _) fun _ => freeSeq_copies _) _ _ _ h₅)
    have a₃ := (a₁.trans (swapOut_asks h₃)).trans (Asks.of_trace c₅.1 c₅.2)
    simpa only [List.nil_append, List.append_nil] using a₃

theorem preemptVictim_asks {ret ret' : SchedulerRunningOutputs}
    (h : preemptVictim p none id ret s = some (ret', s')) :
    ∃ pairs, ret'.blocksToSwapOut = ret.blocksToSwapOut ++ pairs ∧ Asks [] pairs [] s s' := by
  unfold preemptVictim at h
  simp only [Prog.pure_bind, if_true] at h
  obtain ⟨⟨mode, pairs⟩, s₁, h₁, h⟩ := bind_iff.mp h
  have a := preempt_asks h₁
  cases mode with
  | recompute =>
    obtain ⟨rfl, rfl⟩ := pure_iff.mp h
    exact ⟨pairs, rfl, a⟩
  | swap =>
    obtain ⟨rfl, rfl⟩ := pure_iff.mp h
    exact ⟨pairs, rfl, a⟩

/-! ## The running queue -/

theorem scheduleRunningGroup_swapOut {k : Int} {c : Bool} {ret ret' : SchedulerRunningOutputs}
    (h : scheduleRunningGroup p id k c ret s = some (ret', s')) :
    ret'.blocksToSwapOut = ret.blocksToSwapOut := by
  obtain ⟨cows, s₁, -, h⟩ := bind_iff.mp h
  rw [getGroup_bind, Option.bind_eq_some_iff] at h
  obtain ⟨g, -, h⟩ := h
  simp only [read_bind, ofOption_bind, Option.bind_eq_some_iff] at h
  obtain ⟨budget, -, h⟩ := h
  obtain ⟨_, s₂, -, h⟩ := bind_iff.mp h
  obtain ⟨rfl, -⟩ := pure_iff.mp h
  split <;> rfl

theorem scheduleRunning_asks {c : Bool} {ret : SchedulerRunningOutputs}
    (h : scheduleRunning p none c s = some (ret, s')) : Asks [] ret.blocksToSwapOut [] s s' := by
  simp only [scheduleRunning, read_bind, require_bind, Option.ite_none_right_eq_some] at h
  refine scheduleRunningLoop_rule (fun _ t ret => Asks [] ret.blocksToSwapOut [] s t) c
    (fun _ _ _ _ q i => i.then_quiet q) ?_ ?_ ?_ ?_ h.2 (Asks.refl s)
  · intro id k t ret ret' t' i ht
    rw [scheduleRunningGroup_swapOut ht]
    exact i.then_quiet (scheduleRunningGroup_same p _ _ _ _ _ _ _ ht)
  · intro cur v t ret ret' t' i _ ht
    obtain ⟨pairs, hret, a⟩ := preemptVictim_asks ht
    rw [hret]
    exact i.comp a rfl rfl
  · intro id k t ret ret' t' i _ ht
    obtain ⟨pairs, hret, a⟩ := preemptVictim_asks ht
    rw [hret]
    exact i.trans a
  · intro t₀ t id rest g k j ret i _ _ _ _
    exact i.frame rfl rfl

/-! ## The waiting queue -/

theorem admitPrefill_asks {numUncached numCached : Int} {ret ret' : SchedulerPrefillOutputs}
    (h : SchedM.admitPrefill p id numUncached numCached ret s = some (ret', s')) :
    ∃ pairs, ret'.blocksToSwapIn = ret.blocksToSwapIn ++ pairs ∧ Asks pairs [] [] s s' := by
  have l := admitPrefill_lists p id _ _ _ _ _ _ h
  obtain ⟨g, pairs, s₂, s₃, hg, h₂, h₃, q, rfl⟩ := admitPrefill_spec h
  obtain ⟨-, -, -, -, trace₂⟩ := allocateAndSetRunning_spec hg h₂
  obtain ⟨-, trace₃, -, -⟩ := consumeExactGpuCacheHit_spec h₃
  have trace : s'.blockManager.trace = { s₂.blockManager.trace with
      admissions := s₂.blockManager.trace.admissions ++ [admissionOf id g s.blockManager s₂] } :=
    q.owners.trace.trans trace₃
  refine ⟨pairs, rfl, ?_, ?_, ?_, ?_, l.pending⟩
  · rw [trace, trace₂]
  · rw [trace, trace₂, List.append_nil]
  · rw [trace, trace₂, List.append_nil]
  · rw [trace, trace₂]
    exact List.prefix_append _ _

theorem prefillStep_asks {c : Bool} {step : PrefillStep} (h : prefillStep p id c s = some (step, s')) :
    Asks [] [] [] s s' := by
  obtain ⟨g, -, -, hq, hig⟩ := prefillStep_same h
  by_cases hs : step = .ignore
  · obtain ⟨s₁, q₁, q₂⟩ := hig hs
    refine .of_trace (q₂.owners.trace.trans q₁.owners.trace) (q₂.pending.trans q₁.pending)
  · exact .quiet (hq hs)

theorem schedulePrefills_asks {c : Bool} {ret : SchedulerPrefillOutputs}
    (h : schedulePrefills p c s = some (ret, s')) : Asks ret.blocksToSwapIn [] [] s s' := by
  rw [schedulePrefills, read_bind] at h
  split at h
  · obtain ⟨rfl, rfl⟩ := pure_iff.mp h
    exact .refl _
  · obtain ⟨⟨ret₁, left⟩, s₁, h₁, h⟩ := bind_iff.mp h
    simp only [update_bind, pure_iff] at h
    obtain ⟨rfl, rfl⟩ := h
    have i : Asks ret.blocksToSwapIn [] [] s s₁ := by
      refine schedulePrefillsLoop_rule (fun t ret _ => Asks ret.blocksToSwapIn [] [] s t) c
        (fun _ _ _ _ q i => i.then_quiet q) ?_ ?_ ?_ h₁ (Asks.refl s)
      · intro t id rest ret left _ i
        exact i.frame rfl rfl
      · intro t id rest t' ret left _ i ht
        have a := i.trans (prefillStep_asks ht)
        rw [List.append_nil] at a
        exact a.frame rfl rfl
      · intro t id rest numUncached numCached t₁ ret ret' t' left _ i ht ha
        obtain ⟨pairs, hret, a⟩ := admitPrefill_asks ha
        have a₁ := i.trans (prefillStep_asks ht)
        rw [List.append_nil] at a₁
        rw [hret]
        exact a₁.comp a rfl rfl
    exact i.frame rfl rfl

/-! ## Priority preemption -/

/-- What is swapped out for priority is lost. -/
theorem schedulePriorityPreemption_asks {u : Unit} (h : schedulePriorityPreemption p s = some (u, s')) :
    ∃ lost, Asks [] lost lost s s' := by
  rw [schedulePriorityPreemption, read_bind] at h
  obtain ⟨sorted, s₁, h₁, h⟩ := bind_iff.mp h
  have a₁ := Asks.quiet (sortedByPriority_same _ _ _ _ h₁)
  cases hw : s.waiting with
  | nil =>
    rw [hw] at h
    rw [update_iff.mp h]
    exact ⟨[], a₁.frame rfl rfl⟩
  | cons id rest =>
    simp only [hw, getGroup_bind, Option.bind_eq_some_iff] at h
    obtain ⟨g, -, h⟩ := h
    obtain ⟨⟨numUncached, k⟩, s₂, h₂, h⟩ := bind_iff.mp h
    obtain ⟨⟨running, victims⟩, s₃, h₃, h⟩ := bind_iff.mp h
    obtain ⟨_, s₄, h₄, h⟩ := bind_iff.mp h
    obtain ⟨waiting, s₅, h₅, h⟩ := bind_iff.mp h
    rw [update_iff.mp h]
    have a₂ := a₁.then_quiet (getNumNewUncachedAndCachedTokens_same p _ _ _ _ _ _ h₂)
    obtain ⟨lost, a₃⟩ : ∃ lost, Asks [] lost lost s s₃ := by
      refine priorityPreemptionLoop_rule (fun t _ _ => ∃ lost, Asks [] lost lost s t) ?_ ?_ h₃ ⟨[], a₂⟩
      · rintro t t' running victims q ⟨lost, a⟩
        exact ⟨lost, a.then_quiet q⟩
      · rintro t v running victims mode pairs t₁ t' ⟨lost, a⟩ ht hu
        obtain ⟨m, hm, rfl⟩ := onManager_iff.mp hu
        rw [update_iff.mp hm]
        have a' := a.trans (preempt_asks ht)
        refine ⟨lost ++ pairs, a'.swapIns, a'.swapOuts, ?_, a'.admissions, a'.pending⟩
        show t₁.blockManager.trace.unused ++ pairs = _
        rw [a'.unused, List.append_nil, List.append_assoc]
    have a₅ := (a₃.then_quiet (removeSeqFromComputedBlocksTracker_same _ _ _ _ _ h₄)).then_quiet
      (sortedByPriority_same _ _ _ _ h₅)
    exact ⟨lost, a₅.frame rfl rfl⟩

/-! ## Policies -/

theorem scheduleDefault_asks {o : SchedulerOutputs} (hs : scheduleDefault p none s = some (o, s')) :
    ∃ lost, Asks o.blocksToSwapIn (lost ++ o.blocksToSwapOut) lost s s' := by
  rw [scheduleDefault, read_bind] at hs
  obtain ⟨gs, s₁, h₁, hs⟩ := bind_iff.mp hs
  have a₁ := Asks.quiet (getGroups_same _ _ _ _ h₁)
  simp only [update_bind] at hs
  obtain ⟨prefills, s₂, h₂, hs⟩ := bind_iff.mp hs
  have a₂ : Asks prefills.blocksToSwapIn [] [] s s₂ := by
    split at h₂
    · exact a₁.comp (schedulePrefills_asks h₂) rfl rfl
    · obtain ⟨rfl, rfl⟩ := pure_iff.mp h₂
      exact a₁.frame rfl rfl
  obtain ⟨_, s₃, h₃, hs⟩ := bind_iff.mp hs
  obtain ⟨lost, a₃⟩ : ∃ lost, Asks prefills.blocksToSwapIn lost lost s s₃ := by
    unfold Prog.when at h₃
    split at h₃
    · obtain ⟨lost, a⟩ := schedulePriorityPreemption_asks h₃
      refine ⟨lost, ?_⟩
      simpa only [List.append_nil, List.nil_append] using a₂.trans a
    · obtain ⟨-, rfl⟩ := pure_iff.mp h₃
      exact ⟨[], a₂⟩
  obtain ⟨running, s₄, h₄, hs⟩ := bind_iff.mp hs
  have a₄ : Asks prefills.blocksToSwapIn (lost ++ running.blocksToSwapOut) lost s s₄ := by
    split at h₄
    · simpa only [List.append_nil] using a₃.trans (scheduleRunning_asks h₄)
    · obtain ⟨rfl, rfl⟩ := pure_iff.mp h₄
      simpa only [SchedulerRunningOutputs.empty, List.append_nil] using a₃
  obtain ⟨_, s₅, h₅, hs⟩ := bind_iff.mp hs
  have a₅ := a₄.then_quiet (checkBudget_same p _ _ _ h₅)
  simp only [update_bind, require_bind, Option.ite_none_right_eq_some, read_bind, makeOutputs_iff] at hs
  obtain ⟨-, -, rfl, rfl⟩ := hs
  exact ⟨lost, a₅.frame rfl rfl⟩

theorem scheduleChunkedPrefill_asks {o : SchedulerOutputs}
    (hs : scheduleChunkedPrefill p none s = some (o, s')) :
    Asks o.blocksToSwapIn o.blocksToSwapOut [] s s' := by
  rw [scheduleChunkedPrefill, read_bind] at hs
  obtain ⟨runningGroups, s₁, h₁, hs⟩ := bind_iff.mp hs
  obtain ⟨waitingGroups, s₂, h₂, hs⟩ := bind_iff.mp hs
  have a₂ := (Asks.quiet (getGroups_same _ _ _ _ h₁)).then_quiet (getGroups_same _ _ _ _ h₂)
  simp only [update_bind] at hs
  obtain ⟨running, s₃, h₃, hs⟩ := bind_iff.mp hs
  have a₃ : Asks [] running.blocksToSwapOut [] s s₃ := a₂.comp (scheduleRunning_asks h₃) rfl rfl
  rw [read_bind] at hs
  obtain ⟨prefills, s₄, h₄, hs⟩ := bind_iff.mp hs
  have a₄ : Asks prefills.blocksToSwapIn running.blocksToSwapOut [] s s₄ := by
    split at h₄
    · simpa only [List.append_nil, List.nil_append] using a₃.trans (schedulePrefills_asks h₄)
    · obtain ⟨rfl, rfl⟩ := pure_iff.mp h₄
      exact a₃
  obtain ⟨_, s₅, h₅, hs⟩ := bind_iff.mp hs
  obtain ⟨finishing, s₆, h₆, hs⟩ := bind_iff.mp hs
  have a₆ := (a₄.then_quiet (checkBudget_same p _ _ _ h₅)).then_quiet
    (orderFinishingPrefillsFirst_same _ _ _ _ h₆)
  simp only [update_bind, read_bind, makeOutputs_iff] at hs
  obtain ⟨-, rfl, rfl⟩ := hs
  exact a₆.frame rfl rfl

theorem scheduleQueues_asks {o : SchedulerOutputs} (hs : scheduleQueues p none s = some (o, s')) :
    ∃ lost, Asks o.blocksToSwapIn (lost ++ o.blocksToSwapOut) lost s s' := by
  rw [scheduleQueues, read_bind] at hs
  obtain ⟨waiting, s₁, h₁, hs⟩ := bind_iff.mp hs
  obtain ⟨running, s₂, h₂, hs⟩ := bind_iff.mp hs
  rw [update_bind] at hs
  have a₂ := (Asks.quiet (sortByQueryId_same _ _ _ _ h₁)).then_quiet (sortByQueryId_same _ _ _ _ h₂)
  have lift {o : SchedulerOutputs} {lost : List SwapPair}
      (a : Asks o.blocksToSwapIn (lost ++ o.blocksToSwapOut) lost
        { s₂ with waiting := waiting, running := running } s') :
      Asks o.blocksToSwapIn (lost ++ o.blocksToSwapOut) lost s s' :=
    a₂.comp a rfl rfl
  split at hs
  · exact ⟨[], lift (scheduleChunkedPrefill_asks hs)⟩
  · obtain ⟨lost, a⟩ := scheduleDefault_asks hs
    exact ⟨lost, lift a⟩

/-- A whole `schedule` hands out what it has asked for and what was put off before it. -/
theorem schedule_copies {o : List SequenceGroupMetadata × SchedulerOutputs}
    (hs : schedule p none s = some (o, s')) : ∃ lost asked,
      o.2.blocksToSwapOut = asked ++ s.pendingFinishedSwapOut ∧ s'.pendingFinishedSwapOut = [] ∧
      s'.blockManager.trace.swapIns = s.blockManager.trace.swapIns ++ o.2.blocksToSwapIn ∧
      s'.blockManager.trace.swapOuts = s.blockManager.trace.swapOuts ++ (lost ++ asked) ∧
      s'.blockManager.trace.unused = s.blockManager.trace.unused ++ lost ∧
      s.blockManager.trace.admissions <+: s'.blockManager.trace.admissions := by
  obtain ⟨outputs, s₁, now, s₂, s₃, h₁, ho, -, -, q⟩ := schedule_steps p hs
  obtain ⟨lost, a₁⟩ := scheduleQueues_asks h₁
  rw [ho]
  have trace : s'.blockManager.trace = s₁.blockManager.trace := q.owners.trace
  refine ⟨lost, outputs.blocksToSwapOut, ?_, q.pending, ?_, ?_, ?_, ?_⟩
  · rw [a₁.pending]
  · rw [trace, a₁.swapIns]
  · rw [trace, a₁.swapOuts]
  · rw [trace, a₁.unused]
  · rw [trace]
    exact a₁.admissions

end SchedM

end CoreFlow
