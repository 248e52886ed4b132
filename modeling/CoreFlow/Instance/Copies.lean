import CoreFlow.Scheduler.Copies
import CoreFlow.Instance.Ownership

/-!
# No copy is lost, while none is left unused

The pairs that the block manager has returned are, up to order, those handed to the worker and those
put off until the next `schedule`. Two callers use no pair they get: the registration of a migrated
cache and priority preemption. A run in which they get none hands out everything.
-/

namespace CoreFlow
open Prog SchedM

/-! ## Finished groups -/

/-- The copies asked for meanwhile are put off. -/
def PutsOff (s s' : Scheduler) : Prop :=
  s'.blockManager.trace.swapIns = s.blockManager.trace.swapIns ∧
    s'.blockManager.trace.unused = s.blockManager.trace.unused ∧
    s'.blockManager.trace.admissions = s.blockManager.trace.admissions ∧
    ∃ outs, s'.blockManager.trace.swapOuts = s.blockManager.trace.swapOuts ++ outs ∧
      s'.pendingFinishedSwapOut = s.pendingFinishedSwapOut ++ outs

instance : IsPreorder Scheduler PutsOff where
  refl _ := ⟨rfl, rfl, rfl, [], (List.append_nil _).symm, (List.append_nil _).symm⟩
  trans s s' s'' h h' := by
    obtain ⟨ins, unused, admissions, outs, swapOuts, pending⟩ := h
    obtain ⟨ins', unused', admissions', outs', swapOuts', pending'⟩ := h'
    refine ⟨ins'.trans ins, unused'.trans unused, admissions'.trans admissions, outs ++ outs', ?_, ?_⟩
    · rw [swapOuts', swapOuts, List.append_assoc]
    · rw [pending', pending, List.append_assoc]

theorem SameCopies.putsOff {s s' : Scheduler} (h : SameCopies s s') : PutsOff s s' := by
  obtain ⟨trace, pending⟩ := h
  exact ⟨by rw [trace], by rw [trace], by rw [trace], [], by rw [trace, List.append_nil],
    by rw [pending, List.append_nil]⟩

theorem ManagerM.freeRequestCache_trace {p : ManagerParams} {g : SequenceGroup} {m m' : BlockSpaceManager}
    {u : Unit} (h : freeRequestCache p g m = some (u, m')) : m'.trace = m.trace := by
  unfold freeRequestCache at h
  cases hkey : g.cacheKey with
  | none =>
    rw [hkey] at h
    rw [(pure_iff.mp h).2]
  | some key =>
    rw [hkey] at h
    exact (evictCachedBlocks_owners h).2.2

theorem ManagerM.retainBlocks_trace {p : ManagerParams} {g : SequenceGroup} {m m' : BlockSpaceManager}
    {u : Unit} (h : retainBlocks p g m = some (u, m')) : m'.trace = m.trace := by
  cases hkey : g.cacheKey with
  | none =>
    rw [retainBlocks, hkey] at h
    rw [(pure_iff.mp h).2]
  | some key => exact (retainBlocks_owners hkey h).2.2

namespace SchedM
variable {p : SchedulerParams}

theorem onManager_copies {α : Type} {x : ManagerM α}
    (h : ∀ m a m', x m = some (a, m') → m'.trace = m.trace) : Within SameCopies (onManager x) := by
  intro s a s' hs
  obtain ⟨m, hm, rfl⟩ := onManager_iff.mp hs
  exact ⟨h _ _ _ hm, rfl⟩

theorem abortGroup_copies (id : SeqId) : Within SameCopies (abortGroup p id) :=
  .bind (getGroup_copies _) fun _ => .when (.bind (setStatus_copies _ _) fun _ => freeSeq_copies _)

theorem abortSeqGroup_copies (ids : List RequestId) : Within SameCopies (abortSeqGroup p ids) := by
  have named (queue : List SeqId) : Within SameCopies (groupsNamed ids queue) :=
    (groupsNamed_same ids queue).mono fun _ _ q => q.copies
  refine .bind .read fun _ => .bind (named _) fun _ => .bind ?_ fun _ => .bind .read fun _ =>
    .bind (named _) fun _ => .bind ?_ fun _ => .bind .read fun _ => .bind (named _) fun _ => ?_
  · exact .forM (fun _ => .bind (.update fun _ => ⟨rfl, rfl⟩) fun _ => abortGroup_copies _) _
  · exact .forM (fun _ => .bind (.update fun _ => ⟨rfl, rfl⟩) fun _ => abortGroup_copies _) _
  · exact .forM (fun _ => .bind (.update fun _ => ⟨rfl, rfl⟩) fun _ => abortGroup_copies _) _

theorem freeFinishedSeqs_copies (id : SeqId) : Within SameCopies (freeFinishedSeqs p id) :=
  .bind (getGroup_copies _) fun _ => .when (freeSeq_copies _)

theorem releaseCache_putsOff (g : SequenceGroup) : Within PutsOff (releaseCache p g) := by
  have free : Within PutsOff (onManager (ManagerM.freeRequestCache p.toManagerParams g)) :=
    (onManager_copies fun _ _ _ h => ManagerM.freeRequestCache_trace h).mono fun _ _ h => h.putsOff
  have retain : Within PutsOff (onManager (ManagerM.retainBlocks p.toManagerParams g)) :=
    (onManager_copies fun _ _ _ h => ManagerM.retainBlocks_trace h).mono fun _ _ h => h.putsOff
  refine .ite (.bind free fun _ => .pure _) (.ite (.bind retain fun _ => .pure _) ?_)
  refine .bind (time_same.mono fun _ _ q => q.copies.putsOff) fun now => ?_
  intro s keep s' h
  obtain ⟨o, s₁, h₁, h⟩ := bind_iff.mp h
  obtain ⟨m, hm, rfl⟩ := onManager_iff.mp h₁
  have out := (ManagerM.swapOutGroup_owners hm).1
  cases o with
  | none =>
    have step : PutsOff s { s with blockManager := m } := by
      refine ⟨out.swapIns, out.unused, out.admissions, [], out.swapOuts, ?_⟩
      rw [List.append_nil]
    obtain ⟨_, s₂, h₂, h⟩ := bind_iff.mp h
    obtain ⟨-, rfl⟩ := pure_iff.mp h
    exact IsTrans.trans _ _ _ step (free _ _ _ h₂)
  | some pairs =>
    simp only [update_bind, pure_iff] at h
    obtain ⟨-, rfl⟩ := h
    exact ⟨out.swapIns, out.unused, out.admissions, pairs, out.swapOuts, rfl⟩

theorem freeFinishedSeqGroupBlocks_putsOff (id : SeqId) :
    Within PutsOff (freeFinishedSeqGroupBlocks p id) := by
  refine .bind ((getGroup_copies _).mono fun _ _ h => h.putsOff) fun g =>
    .bind (.ite (releaseCache_putsOff g) (.pure _)) fun keep => .ite ?_ ?_
  · exact .update fun _ => ⟨rfl, rfl, rfl, [], (List.append_nil _).symm, (List.append_nil _).symm⟩
  · exact .bind ((hasCacheEntry_same g).mono fun _ _ q => q.copies.putsOff) fun _ =>
      .when ((freeFinishedSeqs_copies id).mono fun _ _ h => h.putsOff)

theorem freeFinishedSeqGroups_putsOff : Within PutsOff (freeFinishedSeqGroups p) := by
  have update (f : Scheduler → Scheduler) (hf : ∀ s, SameCopies s (f s)) : Within PutsOff (Prog.update f) :=
    .update fun s => (hf s).putsOff
  refine .bind .read fun s => .bind (.require _) fun _ => .bind (.require _) fun _ => .bind
    (.forM (fun id => (freeFinishedSeqs_copies id).mono fun _ _ h => h.putsOff) _) fun _ => ?_
  exact .bind (update _ fun _ => ⟨rfl, rfl⟩) fun _ =>
    .bind (.forM freeFinishedSeqGroupBlocks_putsOff _) fun _ => .bind (update _ fun _ => ⟨rfl, rfl⟩) fun _ =>
      .bind (.forM freeFinishedSeqGroupBlocks_putsOff _) fun _ => update _ fun _ => ⟨rfl, rfl⟩

theorem processGroup_copies (m : SequenceGroupMetadata) (o : SampleOutput) :
    Within SameCopies (EngineM.processGroup p m o) := by
  refine .bind (getGroup_copies _) fun g => .ite (.pure _) (.bind (.ofOption _) fun g₁ =>
    .bind (setGroup_copies _ _) fun _ => .ite (.pure _) (.bind (setGroup_copies _ _) fun _ => ?_))
  cases o.finish with
  | none => exact .pure _
  | some status =>
    exact .bind (.require _) fun _ => .bind (setGroup_copies _ _) fun _ =>
      .bind (.when (freeSeq_copies _)) fun _ => .pure _

end SchedM

/-! ## The engine -/

/-- The copies the block manager has asked for so far. -/
def Engine.asked (e : Engine) : ManagerTrace := e.scheduler.blockManager.trace

/-- The pairs asked for are those handed over, and those put off until the next `schedule`. -/
structure HandedOver (e : Engine) : Prop where
  swapIns : e.asked.swapIns = e.outputs.flatMap (·.blocksToSwapIn)
  swapOuts : e.asked.swapOuts.Perm
    (e.outputs.flatMap (·.blocksToSwapOut) ++ e.scheduler.pendingFinishedSwapOut)

instance (e : Engine) : Decidable (HandedOver e) :=
  decidable_of_iff (e.asked.swapIns = e.outputs.flatMap (·.blocksToSwapIn) ∧ e.asked.swapOuts.Perm
    (e.outputs.flatMap (·.blocksToSwapOut) ++ e.scheduler.pendingFinishedSwapOut))
    ⟨fun h => ⟨h.1, h.2⟩, fun h => ⟨h.1, h.2⟩⟩

/-- One operation: what has been asked for and handed over only grows, and what is asked for and not
left unused is handed over or put off. `next` is the output of the operation, if it makes one. -/
structure CopyStep (e e' : Engine) (next : Option SchedulerOutputs) : Prop where
  outputs : e'.outputs = e.outputs ++ next.toList
  swapIns : e.asked.swapIns <+: e'.asked.swapIns
  swapOuts : e.asked.swapOuts <+: e'.asked.swapOuts
  unused : e.asked.unused <+: e'.asked.unused
  admissions : e.asked.admissions <+: e'.asked.admissions
  handed : e'.asked.unused = e.asked.unused → HandedOver e → HandedOver e'
  pending : next.isSome → e'.scheduler.pendingFinishedSwapOut = []

namespace CopyStep
variable {p : SchedulerParams} {e e' : Engine}

theorem of_putsOff {s : Scheduler} {n : Nat} {b : Option (List SequenceGroupMetadata)}
    (h : PutsOff e.scheduler s) : CopyStep e { e with scheduler := s, seqCounter := n, batch := b } none := by
  obtain ⟨ins, unused, admissions, outs, swapOuts, pending⟩ := h
  refine ⟨(List.append_nil _).symm, ?_, ?_, ?_, ?_, fun _ i => ⟨?_, ?_⟩, fun hn => by cases hn⟩
  · show e.asked.swapIns <+: s.blockManager.trace.swapIns
    rw [ins]
    exact List.prefix_refl _
  · show e.asked.swapOuts <+: s.blockManager.trace.swapOuts
    rw [swapOuts]
    exact List.prefix_append _ _
  · show e.asked.unused <+: s.blockManager.trace.unused
    rw [unused]
    exact List.prefix_refl _
  · show e.asked.admissions <+: s.blockManager.trace.admissions
    rw [admissions]
    exact List.prefix_refl _
  · exact ins.trans i.swapIns
  · show s.blockManager.trace.swapOuts.Perm (_ ++ s.pendingFinishedSwapOut)
    rw [swapOuts, pending, ← List.append_assoc]
    exact i.swapOuts.append_right outs

theorem schedule {clock : List Int} {u : Unit} (h : EngineM.schedule p clock e = some (u, e')) :
    ∃ o, CopyStep e e' (some o) := by
  simp only [EngineM.schedule, EngineM.setClock, read_bind, require_bind, Option.ite_none_right_eq_some] at h
  obtain ⟨-, h⟩ := h
  obtain ⟨_, e₁, h₁, h⟩ := bind_iff.mp h
  obtain ⟨s₁, hs₁, rfl⟩ := EngineM.onScheduler_iff.mp h₁
  rw [update_iff] at hs₁
  obtain ⟨⟨metadata, o⟩, e₂, h₂, h⟩ := bind_iff.mp h
  obtain ⟨s₂, hs₂, rfl⟩ := EngineM.onScheduler_iff.mp h₂
  rw [update_iff.mp h]
  obtain ⟨lost, out, houts, hpending, ins, swapOuts, unused, admissions⟩ := schedule_copies hs₂
  simp only [hs₁] at houts ins swapOuts unused admissions
  refine ⟨o, rfl, ?_, ?_, ?_, admissions, fun hu i => ⟨?_, ?_⟩, fun _ => hpending⟩
  · show e.asked.swapIns <+: s₂.blockManager.trace.swapIns
    rw [ins]
    exact List.prefix_append _ _
  · show e.asked.swapOuts <+: s₂.blockManager.trace.swapOuts
    rw [swapOuts]
    exact List.prefix_append _ _
  · show e.asked.unused <+: s₂.blockManager.trace.unused
    rw [unused]
    exact List.prefix_append _ _
  · show s₂.blockManager.trace.swapIns = (e.outputs ++ [o]).flatMap _
    rw [ins, List.flatMap_append, List.flatMap_singleton]
    exact congrArg (· ++ _) i.swapIns
  · -- nothing was lost, so what was asked for follows what was put off
    have hlost : lost = [] := by
      have hu' : s₂.blockManager.trace.unused = e.scheduler.blockManager.trace.unused := hu
      rw [unused] at hu'
      exact List.append_right_eq_self.mp hu'
    show s₂.blockManager.trace.swapOuts.Perm ((e.outputs ++ [o]).flatMap _ ++ s₂.pendingFinishedSwapOut)
    rw [swapOuts, hlost, List.nil_append, hpending, List.append_nil, List.flatMap_append,
      List.flatMap_singleton, houts]
    refine (i.swapOuts.append_right out).trans ?_
    rw [List.append_assoc]
    exact List.Perm.append_left _ List.perm_append_comm

theorem registerMigratedGpuCache {tokenIds : List TokenId} {queryId invocationId : Int}
    {requestId : RequestId} {arrivalTime : Int} {b : Bool}
    (h : EngineM.registerMigratedGpuCache p tokenIds queryId invocationId requestId arrivalTime e =
      some (b, e')) : CopyStep e e' none := by
  simp only [EngineM.registerMigratedGpuCache, EngineM.nextSeqId, Prog.bind_assoc, read_bind, update_bind,
    Prog.pure_bind, ofOption_bind, Option.bind_eq_some_iff] at h
  obtain ⟨status, -, h⟩ := h
  have refused : CopyStep e { e with seqCounter := e.seqCounter + 1 } none := of_putsOff (refl _)
  cases status with
  | later =>
    obtain ⟨-, rfl⟩ := pure_iff.mp h
    exact refused
  | never =>
    obtain ⟨-, rfl⟩ := pure_iff.mp h
    exact refused
  | ok =>
    obtain ⟨pairs, e₁, h₁, h⟩ := bind_iff.mp h
    obtain ⟨s₁, hs₁, rfl⟩ := EngineM.onScheduler_iff.mp h₁
    obtain ⟨m₁, hm₁, rfl⟩ := onManager_iff.mp hs₁
    obtain ⟨_, e₂, h₂, h⟩ := bind_iff.mp h
    obtain ⟨s₂, hs₂, rfl⟩ := EngineM.onScheduler_iff.mp h₂
    obtain ⟨m₂, hm₂, rfl⟩ := onManager_iff.mp hs₂
    obtain ⟨_, e₃, h₃, h⟩ := bind_iff.mp h
    obtain ⟨s₃, hs₃, rfl⟩ := EngineM.onScheduler_iff.mp h₃
    obtain ⟨m₃, hm₃, rfl⟩ := onManager_iff.mp hs₃
    obtain ⟨-, rfl⟩ := pure_iff.mp h
    obtain ⟨-, -, -, -, trace₁⟩ := ManagerM.allocate_owners hm₁
    have trace : m₃.trace = { e.asked with
        swapIns := e.asked.swapIns ++ pairs, unused := e.asked.unused ++ pairs } := by
      have trace₃ : m₃.trace = m₂.trace := ManagerM.retainBlocks_trace hm₃
      have trace₂ : m₂.trace = { m₁.trace with unused := m₁.trace.unused ++ pairs } := by
        rw [update_iff.mp hm₂]
      exact (trace₃.trans trace₂).trans (trace₁ ▸ rfl)
    refine ⟨(List.append_nil _).symm, ?_, ?_, ?_, ?_, fun hu i => ⟨?_, ?_⟩, fun hn => by cases hn⟩
    · show e.asked.swapIns <+: m₃.trace.swapIns
      rw [trace]
      exact List.prefix_append _ _
    · have same : m₃.trace.swapOuts = e.asked.swapOuts := by rw [trace]
      exact same ▸ List.prefix_refl _
    · show e.asked.unused <+: m₃.trace.unused
      rw [trace]
      exact List.prefix_append _ _
    · have same : m₃.trace.admissions = e.asked.admissions := by rw [trace]
      exact same ▸ List.prefix_refl _
    · have hu' : m₃.trace.unused = e.asked.unused := hu
      rw [trace] at hu'
      show m₃.trace.swapIns = _
      rw [trace, List.append_right_eq_self.mp hu', List.append_nil]
      exact i.swapIns
    · show m₃.trace.swapOuts.Perm _
      rw [trace]
      exact i.swapOuts

theorem trans {e₁ : Engine} {next : Option SchedulerOutputs} (h : CopyStep e e₁ none)
    (h' : CopyStep e₁ e' next) : CopyStep e e' next := by
  refine ⟨?_, h.swapIns.trans h'.swapIns, h.swapOuts.trans h'.swapOuts, h.unused.trans h'.unused,
    h.admissions.trans h'.admissions, fun hu i => ?_, h'.pending⟩
  · rw [h'.outputs, h.outputs, Option.toList_none, List.append_nil]
  · have h₁ : e₁.asked.unused = e.asked.unused :=
      (h.unused.eq_of_length_le (by rw [← hu]; exact h'.unused.length_le)).symm
    exact h'.handed (hu.trans h₁.symm) (h.handed h₁ i)

theorem migrateCache {tokenIds : List TokenId} {queryId invocationId : Int} {requestId : RequestId}
    {keep : Bool} {arrivalTime now : Int} {u : Unit}
    (h : EngineM.migrateCache p tokenIds queryId invocationId requestId keep arrivalTime now e =
      some (u, e')) : CopyStep e e' none := by
  have same (e : Engine) : CopyStep e e none := of_putsOff (refl _)
  unfold EngineM.migrateCache at h
  split at h
  · obtain ⟨-, rfl⟩ := pure_iff.mp h
    exact same e'
  obtain ⟨registered, e₁, h₁, h⟩ := bind_iff.mp h
  have c₁ : CopyStep e e₁ none := by
    split at h₁
    · exact registerMigratedGpuCache h₁
    · obtain ⟨-, rfl⟩ := pure_iff.mp h₁
      exact same e₁
  unfold Prog.when at h
  split at h
  · obtain ⟨_, e₂, h₂, h⟩ := bind_iff.mp h
    obtain ⟨-, rfl⟩ := pure_iff.mp h
    obtain ⟨s, hs, rfl⟩ := EngineM.onScheduler_iff.mp h₂
    have q := onManager_same (ManagerM.registerMigratedCpuCache_owners _ _ _) _ _ _ hs
    exact c₁.trans (of_putsOff q.copies.putsOff)
  · obtain ⟨-, rfl⟩ := pure_iff.mp h
    exact c₁

theorem processModelOutputs {samples : List SampleOutput} {clock : List Int} {u : Unit}
    (h : EngineM.processModelOutputs p samples clock e = some (u, e')) : CopyStep e e' none := by
  simp only [EngineM.processModelOutputs, EngineM.setClock, read_bind, ofOption_bind, require_bind,
    Option.bind_eq_some_iff, Option.ite_none_right_eq_some] at h
  obtain ⟨metadata, -, -, h⟩ := h
  obtain ⟨_, e₁, h₁, h⟩ := bind_iff.mp h
  obtain ⟨s₁, hs₁, rfl⟩ := EngineM.onScheduler_iff.mp h₁
  rw [update_iff] at hs₁
  obtain ⟨finishedNow, e₂, h₂, h⟩ := bind_iff.mp h
  obtain ⟨s₂, hs₂, rfl⟩ := EngineM.onScheduler_iff.mp h₂
  obtain ⟨_, e₃, h₃, h⟩ := bind_iff.mp h
  rw [update_iff.mp h]
  have c₂ : PutsOff e.scheduler s₂ := by
    have step := (Within.mapM (fun x : SequenceGroupMetadata × SampleOutput =>
      processGroup_copies (p := p) x.1 x.2) _ _ _ _ hs₂).putsOff
    rw [hs₁] at step
    exact step
  unfold Prog.when at h₃
  split at h₃
  · obtain ⟨s₃, hs₃, rfl⟩ := EngineM.onScheduler_iff.mp h₃
    exact of_putsOff (IsTrans.trans _ _ _ c₂ (freeFinishedSeqGroups_putsOff _ _ _ hs₃))
  · obtain ⟨-, rfl⟩ := pure_iff.mp h₃
    exact of_putsOff c₂

theorem perform {op : EngineOp} {u : Unit} (h : Engine.perform p op e = some (u, e')) :
    ∃ next, CopyStep e e' next := by
  cases op with
  | addSeqGroup requestId tokenIds extraArgs priority arrivalTime =>
    refine ⟨none, ?_⟩
    simp only [Engine.perform, EngineM.addSeqGroup, EngineM.nextSeqId, Prog.bind_assoc, read_bind,
      update_bind, Prog.pure_bind] at h
    obtain ⟨s, hs, rfl⟩ := EngineM.onScheduler_iff.mp h
    rw [setGroup_bind, update_iff] at hs
    subst hs
    exact of_putsOff (SameCopies.putsOff ⟨rfl, rfl⟩)
  | abortSeqGroup ids =>
    obtain ⟨s, hs, rfl⟩ := EngineM.onScheduler_iff.mp h
    exact ⟨none, of_putsOff (abortSeqGroup_copies _ _ _ _ hs).putsOff⟩
  | schedule clock =>
    obtain ⟨o, c⟩ := schedule h
    exact ⟨some o, c⟩
  | processModelOutputs samples clock => exact ⟨none, processModelOutputs h⟩
  | migrateCache => exact ⟨none, migrateCache h⟩

end CopyStep

/-! ## Runs -/

section
variable {p : SchedulerParams} {e e' : Engine} {ops : List EngineOp}

/-- Along a run everything only grows. -/
theorem Engine.run_grows (h : Engine.run p e ops = some e') : e.outputs <+: e'.outputs ∧
    e.asked.swapIns <+: e'.asked.swapIns ∧ e.asked.swapOuts <+: e'.asked.swapOuts ∧
    e.asked.unused <+: e'.asked.unused ∧ e.asked.admissions <+: e'.asked.admissions := by
  refine Engine.run_invariant (fun e' => e.outputs <+: e'.outputs ∧ e.asked.swapIns <+: e'.asked.swapIns ∧
    e.asked.swapOuts <+: e'.asked.swapOuts ∧ e.asked.unused <+: e'.asked.unused ∧
    e.asked.admissions <+: e'.asked.admissions) ?_ h
    ⟨List.prefix_refl _, List.prefix_refl _, List.prefix_refl _, List.prefix_refl _, List.prefix_refl _⟩
  rintro op e₁ e₂ ⟨outputs, ins, outs, unused, admissions⟩ hop
  obtain ⟨next, c⟩ := CopyStep.perform hop
  refine ⟨outputs.trans ?_, ins.trans c.swapIns, outs.trans c.swapOuts, unused.trans c.unused,
    admissions.trans c.admissions⟩
  rw [c.outputs]
  exact List.prefix_append _ _

theorem Engine.unused_of_run (h : Engine.run p e ops = some e') (hu : e'.asked.unused = []) :
    e.asked.unused = [] := by
  obtain ⟨-, -, -, unused, -⟩ := Engine.run_grows h
  rw [hu] at unused
  exact List.prefix_nil.mp unused

theorem handedOver_of_run (h : Engine.run p e ops = some e') (hu : e'.asked.unused = [])
    (h0 : HandedOver e) : HandedOver e' := by
  refine Engine.run_invariant (fun e => e.asked.unused = [] → HandedOver e) ?_ h (fun _ => h0) hu
  intro op e₁ e₂ i hop hu₂
  obtain ⟨next, c⟩ := CopyStep.perform hop
  have hu₁ : e₁.asked.unused = [] := by
    have := c.unused
    rw [hu₂] at this
    exact List.prefix_nil.mp this
  exact c.handed (hu₂.trans hu₁.symm) (i hu₁)

/-- What has been asked for before a run is in the outputs so far and the next one. -/
theorem handedOver_in_time (h : Engine.run p e ops = some e') (hu : e'.asked.unused = [])
    (h0 : HandedOver e) (hlt : e.outputs.length < e'.outputs.length) :
    e.asked.swapOuts.Subperm ((e'.outputs.take (e.outputs.length + 1)).flatMap (·.blocksToSwapOut)) := by
  induction ops generalizing e with
  | nil =>
    rw [Engine.run_nil_iff] at h
    rw [h] at hlt
    omega
  | cons op ops ih =>
    obtain ⟨e₁, h₁, h₂⟩ := Engine.run_cons_iff.mp h
    obtain ⟨next, c⟩ := CopyStep.perform h₁
    have hu₁ := Engine.unused_of_run h₂ hu
    have hu₀ : e.asked.unused = [] := by
      have := c.unused
      rw [hu₁] at this
      exact List.prefix_nil.mp this
    have i₁ := c.handed (hu₁.trans hu₀.symm) h0
    have mono := c.swapOuts.sublist.subperm
    cases next with
    | none =>
      have hlen : e₁.outputs = e.outputs := by rw [c.outputs]; exact List.append_nil _
      rw [← hlen] at hlt ⊢
      exact mono.trans (ih h₂ i₁ hlt)
    | some o =>
      -- this operation makes the next output, which leaves nothing put off
      have hout : e'.outputs.take (e.outputs.length + 1) = e₁.outputs := by
        obtain ⟨⟨rest, hrest⟩, -⟩ := Engine.run_grows h₂
        have hlen : e₁.outputs.length = e.outputs.length + 1 := by
          rw [c.outputs, List.length_append]
          rfl
        rw [← hrest, ← hlen, List.take_left']
        rfl
      have hperm := i₁.swapOuts
      rw [c.pending rfl, List.append_nil] at hperm
      rw [hout]
      exact mono.trans hperm.subperm

/-- Every pair is handed to the worker in one output: a pair of `allocate` or of a preemption with the
output of the `schedule` that asked for it, a pair of a finished group with the next output. So no later
output can use a destination or overwrite a source first. -/
theorem run_handedOver (p : SchedulerParams) (before after : List EngineOp) (e e' : Engine)
    (hbefore : Engine.run p (Engine.init p) before = some e) (hafter : Engine.run p e after = some e')
    (hunused : e'.asked.unused = []) :
    HandedOver e ∧ HandedOver e' ∧ (e.outputs.length < e'.outputs.length →
      e.asked.swapOuts.Subperm
        ((e'.outputs.take (e.outputs.length + 1)).flatMap (·.blocksToSwapOut))) := by
  have start : HandedOver (Engine.init p) := ⟨rfl, List.Perm.refl _⟩
  have i := handedOver_of_run hbefore (Engine.unused_of_run hafter hunused) start
  exact ⟨i, handedOver_of_run hafter hunused i, handedOver_in_time hafter hunused i⟩

/-- A finished group is swapped out, and its prefix comes back from the CPU for the next request. -/
def swapRun : List EngineOp :=
  [.addSeqGroup "q1_b" [5, 6, 7] (some ⟨some (some 1), some 0, 0, false, false, none⟩) 0 0,
   .schedule [3, 3, 3, 3],
   .processModelOutputs [⟨8, some .finishedStopped, false⟩] [4, 4]]

theorem run_handedOver_swapRun : ∃ e e',
    Engine.run smallParams (Engine.init smallParams) swapRun = some e ∧
    Engine.run smallParams e [.schedule [5, 5]] = some e' ∧ e.asked.swapOuts ≠ [] ∧
    (HandedOver e ∧ HandedOver e' ∧ (e.outputs.length < e'.outputs.length →
      e.asked.swapOuts.Subperm
        ((e'.outputs.take (e.outputs.length + 1)).flatMap (·.blocksToSwapOut)))) := by
  have returns : ((Engine.run smallParams (Engine.init smallParams) swapRun).bind fun e =>
      (Engine.run smallParams e [.schedule [5, 5]]).map fun e' =>
        decide (e.asked.swapOuts ≠ [] ∧ e'.asked.unused = [])) = some true := by
    decide +kernel
  obtain ⟨e, he, h⟩ := Option.bind_eq_some_iff.mp returns
  obtain ⟨e', he', h⟩ := Option.map_eq_some_iff.mp h
  obtain ⟨hout, hun⟩ := of_decide_eq_true h
  exact ⟨e, e', he, he', hout, run_handedOver smallParams swapRun [.schedule [5, 5]] e e' he he' hun⟩

end

/-- A cache is migrated to the CPU, then registered on the GPU with a longer token list, and a request
with that prefix arrives. -/
def unusedCopyRun : List EngineOp :=
  [.migrateCache [1, 2, 3, 4] 7 7 "m0" false 0 1,
   .migrateCache [1, 2, 3, 4, 5] 0 0 "m1" true 0 2,
   .addSeqGroup "r" [1, 2, 3, 4, 6] none 0 0,
   .schedule [3, 3, 3, 3]]

/-- The registration swaps blocks 0 and 1 in, no output says so, and the request treats them as computed. -/
theorem unusedCopyRun_not_handedOver : ∃ e,
    Engine.run smallParams (Engine.init smallParams) unusedCopyRun = some e ∧
    e.asked.swapIns = [(0, 0), (1, 1)] ∧ e.outputs.map (·.blocksToSwapIn) = [[]] ∧
    e.batch.map (·.map (·.computedBlockNums)) = some [[0, 1]] ∧ ¬ HandedOver e := by
  have returns : ((Engine.run smallParams (Engine.init smallParams) unusedCopyRun).map fun e =>
      decide (e.asked.swapIns = [(0, 0), (1, 1)] ∧ e.outputs.map (·.blocksToSwapIn) = [[]] ∧
        e.batch.map (·.map (·.computedBlockNums)) = some [[0, 1]] ∧ ¬ HandedOver e)) =
      some true := by
    decide +kernel
  obtain ⟨e, he, h⟩ := Option.map_eq_some_iff.mp returns
  exact ⟨e, he, of_decide_eq_true h⟩

end CoreFlow
