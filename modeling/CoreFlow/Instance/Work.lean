import CoreFlow.Instance.Bookkeeping
import CoreFlow.Scheduler.Budget
import CoreFlow.Scheduler.Work
import Mathlib.Algebra.Order.BigOperators.Group.List
import Mathlib.Algebra.Order.Group.Int

/-!
# The charges pay for the work

A chunked step charges each group that it schedules from the waiting queue at least the tokens that the
worker has to compute for it, whatever its prefix comes from. As the budget is checked at the end, a batch
of groups with different request ids never makes the worker compute more than `max_num_batched_tokens`.
-/

namespace CoreFlow
open Prog SchedM

/-- The groups of a batch that were waiting come first, and are charged at least their work; the work of
the whole batch is within `max_num_batched_tokens` if its request ids differ. -/
structure PaysWork (p : SchedulerParams) (s s' : Scheduler) (charges : List Int)
    (batch : List SequenceGroupMetadata) : Prop where
  waiting : ∀ m ∈ batch.take charges.length, m.seqId ∈ s.waiting
  running : ∀ m ∈ batch.drop charges.length, m.seqId ∈ s.running
  charged : List.Forall₂ (fun m charge => workOf p s' m ≤ charge) (batch.take charges.length) charges
  budget : ((s.waiting ++ s.running).map (requestIdOf s)).Nodup →
    (batch.map (workOf p s')).sum ≤ p.maxNumBatchedTokens

section
variable {p : SchedulerParams} {s s' : Scheduler}

/-- What `_schedule` has charged for the groups `admitted` from the waiting queue, and what it has scheduled
besides them. -/
structure ChargedGroups (p : SchedulerParams) (s s' : Scheduler) (charges : List Int)
    (admitted others : List ScheduledSequenceGroup) : Prop where
  books : Bookkeeping False (fun _ => True) none s'
  covered : List.Forall₂ (Covered p s') admitted charges
  waiting : ∀ id ∈ scheduledIds admitted, id ∈ s.waiting
  running : ∀ id ∈ scheduledIds others, id ∈ s.running
  budget : ((s.waiting ++ s.running).map (requestIdOf s)).Nodup →
    charges.sum + largestWork others ≤ p.maxNumBatchedTokens

theorem schedulePrefills_work {ret : SchedulerPrefillOutputs}
    (books : Bookkeeping False (fun _ => True) none s) (h : schedulePrefills p true s = some (ret, s')) :
    ∃ charges t, prefillCharges p true s = some (charges, t) ∧ Bookkeeping False (fun _ => True) none s' ∧
      List.Forall₂ (Covered p s') ret.seqGroups charges ∧ (∀ id ∈ scheduledIds ret.seqGroups, id ∈ s.waiting) ∧
      ∀ scheduled work, Paid s s.waiting scheduled work → work + charges.sum ≤ s'.budget.numBatchedTokens := by
  rcases schedulePrefills_charged h with ⟨rfl, rfl, hc⟩ | ⟨left, charges, s₁, prevPrompt, hloop, hc, rfl⟩
  · refine ⟨[], _, hc, books, .nil, (fun id hid => by cases hid), fun _ _ paid => ?_⟩
    rw [List.sum_nil, Int.add_zero]
    exact paid.total
  · have start : Charging p s.waiting s .empty [] := by
      refine ⟨books, fun id hid => ?_, .nil⟩
      rwa [show scheduledIds SchedulerPrefillOutputs.empty.seqGroups = [] from rfl, List.append_nil] at hid
    have i := chargedPrefillsLoop_covered start hloop
    refine ⟨charges, s₁, hc, i.books.frame rfl rfl, ?_, fun id hid => i.queue id (List.mem_append_right _ hid),
      fun scheduled work paid => ?_⟩
    · exact i.covered.imp fun sg n c => c.apart ⟨rfl, rfl, rfl, rfl⟩
    · have first : Paid s s.waiting (scheduled ++ scheduledIds SchedulerPrefillOutputs.empty.seqGroups)
          (work + ([] : List Int).sum) := by
        rw [show scheduledIds SchedulerPrefillOutputs.empty.seqGroups = [] from rfl, List.append_nil, List.sum_nil,
          Int.add_zero]
        exact paid
      exact (chargedPrefillsLoop_paid first hloop).total

/-- A chunked `_schedule`: the charges are those of the groups that it takes from the waiting queue. -/
theorem scheduleQueues_work {o : SchedulerOutputs} (hc : p.chunkedPrefillEnabled = true)
    (books : Bookkeeping False (fun _ => True) none s) (hs : scheduleQueues p none s = some (o, s')) :
    ∃ charges t admitted others, admissionCharges p s = some (charges, t) ∧
      o.scheduledSeqGroups = admitted ++ others ∧ ChargedGroups p s s' charges admitted others := by
  rw [scheduleQueues, read_bind] at hs
  obtain ⟨waiting, t₁, ht₁, hs⟩ := bind_iff.mp hs
  obtain ⟨running, t₂, ht₂, hs⟩ := bind_iff.mp hs
  rw [update_bind, if_pos hc, scheduleChunkedPrefill, read_bind] at hs
  obtain ⟨runningGroups, t₃, ht₃, hs⟩ := bind_iff.mp hs
  obtain ⟨waitingGroups, t₄, ht₄, hs⟩ := bind_iff.mp hs
  rw [update_bind] at hs
  obtain ⟨t₅, ht₅⟩ : ∃ t₅, t₅ = { t₄ with
      budget := SchedulingBudget.init p.maxNumBatchedTokens p.maxNumSeqs
      partialPrefillMetadata := some (fromQueues p runningGroups waitingGroups) } := ⟨_, rfl⟩
  rw [← ht₅] at hs
  obtain ⟨ret, t₆, ht₆, hs⟩ := bind_iff.mp hs
  rw [read_bind] at hs
  obtain ⟨prefills, t₇, ht₇, hs⟩ := bind_iff.mp hs
  obtain ⟨_, t₈, ht₈, hs⟩ := bind_iff.mp hs
  obtain ⟨finishing, t₉, ht₉, hs⟩ := bind_iff.mp hs
  simp only [update_bind, read_bind, makeOutputs_iff] at hs
  obtain ⟨-, rfl, rfl⟩ := hs
  -- up to the prefills the charges are computed in the same states
  have same : admissionCharges p s = (if (!ret.blocksToSwapOut.isEmpty || !t₆.pendingFinishedSwapOut.isEmpty) = false
      then prefillCharges p true else pure []) t₆ := by
    rw [admissionCharges, read_bind, bind_eq ht₁, bind_eq ht₂, update_bind, read_bind, bind_eq ht₃, bind_eq ht₄,
      update_bind, ← ht₅, bind_eq ht₆, read_bind]
  have q₂ := IsTrans.trans _ _ _ (sortByQueryId_content _ _ _ _ ht₁) (sortByQueryId_content _ _ _ _ ht₂)
  have q₄ := IsTrans.trans _ _ _ (getGroups_content _ _ _ _ ht₃) (getGroups_content _ _ _ _ ht₄)
  have waiting₅ : t₅.waiting = waiting := by
    rw [ht₅]
    exact q₄.waiting
  have running₅ : t₅.running = running := by
    rw [ht₅]
    exact q₄.running
  have groups₅ : t₅.groups = s.groups := by
    rw [ht₅]
    exact q₄.groups.trans q₂.groups
  have books₅ : Bookkeeping False (fun _ => True) none t₅ := by
    rw [ht₅]
    have i : Bookkeeping False (fun _ => True) none { t₂ with waiting := waiting, running := running } :=
      (books.content q₂).frame rfl rfl
    exact (i.content q₄).frame rfl rfl
  have nothing : Claims (fun _ => True) [] t₅ := fun _ hid => by cases hid
  obtain ⟨books₆, -, waiting₆⟩ := scheduleRunning_bookkeeping books₅ nothing ht₆
  have q₉ := IsTrans.trans _ _ _ (checkBudget_content p _ _ _ ht₈) (orderFinishingPrefillsFirst_content _ _ _ _ ht₉)
  have checked : t₇.budget.numBatchedTokens ≤ p.maxNumBatchedTokens := by
    rw [checkBudget, read_bind, require_bind, Option.ite_none_right_eq_some] at ht₈
    exact ht₈.1
  obtain ⟨charges, t, hcharges, books₇, covered, admitted, total⟩ : ∃ charges t,
      admissionCharges p s = some (charges, t) ∧ Bookkeeping False (fun _ => True) none t₇ ∧
      List.Forall₂ (Covered p t₇) prefills.seqGroups charges ∧
      (∀ id ∈ scheduledIds prefills.seqGroups, id ∈ t₆.waiting) ∧ ∀ scheduled work,
      Paid t₆ t₆.waiting scheduled work → work + charges.sum ≤ t₇.budget.numBatchedTokens := by
    rw [same]
    split at ht₇
    · rename_i hswap
      rw [if_pos hswap]
      exact schedulePrefills_work books₆ ht₇
    · rename_i hswap
      rw [if_neg hswap]
      obtain ⟨rfl, rfl⟩ := pure_iff.mp ht₇
      refine ⟨[], _, rfl, books₆, .nil, (fun id hid => by cases hid), fun scheduled work paid => ?_⟩
      rw [List.sum_nil, Int.add_zero]
      exact paid.total
  refine ⟨charges, t, prefills.seqGroups, ret.prefillSeqGroups ++ ret.decodeSeqGroups, hcharges,
    List.append_assoc .., (books₇.content q₉).frame rfl rfl, ?_, fun id hid => ?_, fun id hid => ?_, fun distinct => ?_⟩
  · refine covered.imp fun sg n c => (c.apart (q₉.apart sg.seqId)).apart ⟨rfl, rfl, rfl, rfl⟩
  · have hin := admitted id hid
    rw [waiting₆, waiting₅] at hin
    exact (sortByQueryId_perm ht₁).mem_iff.mp hin
  · rw [scheduledIds_append, List.mem_append, or_comm, ← List.mem_append] at hid
    have hin := scheduleRunning_from ht₆ id hid
    rw [running₅] at hin
    exact (sortByQueryId_perm ht₂).mem_iff.mp hin
  · have start : Paid t₅ (t₅.running ++ t₅.waiting) [] 0 := by
      refine ⟨?_, ?_, ?_⟩
      · have perm : (t₅.running ++ t₅.waiting).Perm (s.waiting ++ s.running) := by
          rw [running₅, waiting₅]
          exact ((sortByQueryId_perm ht₂).append (sortByQueryId_perm ht₁)).trans List.perm_append_comm
        rw [List.append_nil, requestIdOf_same groups₅]
        exact (perm.map _).nodup_iff.mpr distinct
      · rw [ht₅]
        exact fun r hr => by cases hr
      · rw [ht₅]
        exact le_rfl
    have paid := (scheduleRunning_paid start ht₆).drop (List.sublist_append_right ..)
    have := total _ _ paid
    rw [largestWork_append]
    omega

/-- The metadata of a batch: the charges pay for the groups that were admitted. -/
theorem batch_work {charges : List Int} {admitted others : List ScheduledSequenceGroup} {now : Int}
    {batch : List SequenceGroupMetadata} {s₁ s₂ : Scheduler} (h : ChargedGroups p s s₁ charges admitted others)
    (groups : s'.groups = s₁.groups)
    (hm : Prog.mapM (groupMetadata p now) (admitted ++ others) s₁ = some (batch, s₂)) :
    PaysWork p s s' charges batch := by
  -- the groups stay, and what pays for a group goes on paying for it
  let I (t : Scheduler) : Prop := t.groups = s₁.groups ∧ ∀ sg n, Covered p s₁ sg n → Covered p t sg n
  let Q (sg : ScheduledSequenceGroup) (m : SequenceGroupMetadata) : Prop :=
    m.seqId = sg.seqId ∧ m.tokenChunkSize = sg.tokenChunkSize ∧ ∀ n, Covered p s₁ sg n → workOf p s' m ≤ n
  have step (sg : ScheduledSequenceGroup) (t : Scheduler) (m : SequenceGroupMetadata) (t' : Scheduler) (i : I t)
      (ht : groupMetadata p now sg t = some (m, t')) : I t' ∧ Q sg m := by
    have hseq (id : SeqId) (g : SequenceGroup) (hg : t.groups.get? id = some g) : g.seqId = id := by
      rw [i.1] at hg
      exact h.books.seqId id g hg
    obtain ⟨g, t₁, -, -, -, hid, hchunk⟩ := groupMetadata_steps ht
    refine ⟨⟨(groupMetadata_same p now sg _ _ _ ht).groups.trans i.1, fun sg' n c => (i.2 sg' n c).metadata hseq ht⟩,
      hid, hchunk, fun n c => ?_⟩
    rw [workOf_same (groups.trans i.1.symm)]
    exact (i.2 sg n c).work hseq ht
  obtain ⟨-, results⟩ := mapM_forall₂ I Q step hm ⟨rfl, fun _ _ c => c⟩
  have hlen := h.covered.length_eq
  have first : List.Forall₂ Q admitted (batch.take charges.length) := by
    have := List.forall₂_take admitted.length results
    rwa [List.take_left, hlen] at this
  have rest : List.Forall₂ Q others (batch.drop charges.length) := by
    have := List.forall₂_drop admitted.length results
    rwa [List.drop_left, hlen] at this
  have charged : List.Forall₂ (fun m n => workOf p s' m ≤ n) (batch.take charges.length) charges :=
    forall₂_join (fun _ _ n q c => q.2.2 n c) first h.covered
  refine ⟨fun m hm => ?_, fun m hm => ?_, charged, fun distinct => ?_⟩
  · obtain ⟨sg, hsg, hid, -⟩ := exists_left_of_forall₂ first hm
    rw [hid]
    exact h.waiting _ (List.mem_map_of_mem hsg)
  · obtain ⟨sg, hsg, hid, -⟩ := exists_left_of_forall₂ rest hm
    rw [hid]
    exact h.running _ (List.mem_map_of_mem hsg)
  · have within := h.budget distinct
    have new : ((batch.take charges.length).map (workOf p s')).sum ≤ charges.sum :=
      (List.forall₂_map_left_iff.mpr charged).sum_le_sum
    have old : ((batch.drop charges.length).map (workOf p s')).sum ≤ largestWork others := by
      refine List.Forall₂.sum_le_sum (List.forall₂_map_left_iff.mpr (List.forall₂_map_right_iff.mpr ?_))
      refine rest.flip.imp fun m sg q => ?_
      have := workOf_le (p := p) s' m
      rwa [q.2.1] at this
    rw [← List.take_append_drop charges.length batch, List.map_append, List.sum_append]
    omega

theorem schedule_work {batch : List SequenceGroupMetadata} {o : SchedulerOutputs}
    (hc : p.chunkedPrefillEnabled = true) (books : Bookkeeping False (fun _ => True) none s)
    (hs : SchedM.schedule p none s = some ((batch, o), s')) :
    ∃ charges t, admissionCharges p s = some (charges, t) ∧ PaysWork p s s' charges batch := by
  obtain ⟨outputs, s₁, now, s₂, s₃, h₁, -, h₂, h₃, q⟩ := schedule_steps p hs
  obtain ⟨charges, t, admitted, others, hcharges, hscheduled, paid⟩ := scheduleQueues_work hc books h₁
  have q₂ : SameContent { s₁ with pendingFinishedSwapOut := [] } s₂ := time_content _ _ _ h₂
  have paid₂ : ChargedGroups p s s₂ charges admitted others := by
    have i : Bookkeeping False (fun _ => True) none { s₁ with pendingFinishedSwapOut := [] } := paid.books.frame rfl rfl
    refine ⟨i.content q₂, paid.covered.imp fun sg n c => ?_, paid.waiting, paid.running, paid.budget⟩
    have a : Apart sg.seqId s₁ { s₁ with pendingFinishedSwapOut := [] } := ⟨rfl, rfl, rfl, rfl⟩
    exact (c.apart a).apart (q₂.apart sg.seqId)
  rw [hscheduled] at h₃
  have groups : s'.groups = s₂.groups := q.groups.trans q₂.groups.symm
  exact ⟨charges, t, hcharges, batch_work paid₂ groups h₃⟩

end

/-! ## Runs -/

/-- In every run, what a chunked step charges for the groups that it schedules from the waiting queue pays
for their work. -/
theorem run_chargesPayWork (p : SchedulerParams) (hc : p.chunkedPrefillEnabled = true) (ops : List EngineOp)
    (e e' : Engine) (clock : List Int) (h : Engine.run p (Engine.init p) ops = some e)
    (hs : Engine.perform p (.schedule clock) e = some ((), e')) :
    ∃ charges t batch, admissionCharges p { e.scheduler with clock := clock } = some (charges, t) ∧
      e'.batch = some batch ∧ PaysWork p e.scheduler e'.scheduler charges batch := by
  have books : EngineM.Books False e := (Engine.run_books h (EngineM.init_owned p) (EngineM.init_books p _) False.elim).2
  have hs : EngineM.schedule p clock e = some ((), e') := hs
  simp only [EngineM.schedule, EngineM.setClock, read_bind, require_bind, Option.ite_none_right_eq_some] at hs
  obtain ⟨-, hs⟩ := hs
  obtain ⟨_, e₁, h₁, hs⟩ := bind_iff.mp hs
  obtain ⟨s₁, hs₁, rfl⟩ := EngineM.onScheduler_iff.mp h₁
  obtain ⟨⟨batch, outputs⟩, e₂, h₂, hs⟩ := bind_iff.mp hs
  obtain ⟨s₂, hs₂, rfl⟩ := EngineM.onScheduler_iff.mp h₂
  rw [update_iff.mp hs]
  have start : Bookkeeping False (fun _ => True) none s₁ := by
    rw [update_iff.mp hs₁]
    exact (books.fewerKeys fun hf => hf.elim).frame rfl rfl
  obtain ⟨charges, t, hcharges, pays⟩ := schedule_work hc start hs₂
  rw [update_iff.mp hs₁] at hcharges pays
  exact ⟨charges, t, batch, hcharges, rfl, pays.waiting, pays.running, pays.charged, pays.budget⟩

/-- One request finishes and leaves its blocks in the GPU cache, one goes on decoding, and the prompt of a
third begins with the first one's. -/
def cachedPrefixRun : List EngineOp :=
  [.addSeqGroup "q0_a" [1, 2, 3, 4, 5] none 0 0,
   .addSeqGroup "q1_b" [5] none 0 0,
   .schedule [1, 1, 1, 1, 1],
   .processModelOutputs [⟨6, some .finishedStopped, false⟩, ⟨7, none, false⟩] [2, 2],
   .addSeqGroup "q2_c" [1, 2, 3, 4, 9] none 0 0]

/-- The chunk of five tokens is charged one token: its two computed blocks hold the others. -/
theorem run_chargesPayWork_cachedPrefixRun : ∃ e e' batch,
    Engine.run smallParams (Engine.init smallParams) cachedPrefixRun = some e ∧
    Engine.perform smallParams (.schedule [3, 3, 3, 3, 3]) e = some ((), e') ∧ e'.batch = some batch ∧
    batch.map (fun m => (m.seqId, m.tokenChunkSize, m.computedBlockNums)) = [(2, 5, [0, 1]), (1, 1, [])] ∧
    PaysWork smallParams e.scheduler e'.scheduler [1] batch ∧
    (batch.map (workOf smallParams e'.scheduler)).sum ≤ 16 := by
  have returns : ((Engine.run smallParams (Engine.init smallParams) cachedPrefixRun).bind fun e =>
      (Engine.perform smallParams (.schedule [3, 3, 3, 3, 3]) e).bind fun x => x.2.batch.map fun batch =>
        decide (batch.map (fun m => (m.seqId, m.tokenChunkSize, m.computedBlockNums)) =
            [(2, 5, [0, 1]), (1, 1, [])] ∧
          (admissionCharges smallParams { e.scheduler with clock := [3, 3, 3, 3, 3] }).map (·.1) = some [1] ∧
          ((e.scheduler.waiting ++ e.scheduler.running).map (requestIdOf e.scheduler)).Nodup)) = some true := by
    decide +kernel
  obtain ⟨e, he, h⟩ := Option.bind_eq_some_iff.mp returns
  obtain ⟨⟨⟨⟩, e'⟩, he', h⟩ := Option.bind_eq_some_iff.mp h
  obtain ⟨batch, hb, h⟩ := Option.map_eq_some_iff.mp h
  obtain ⟨chunks, ones, distinct⟩ := of_decide_eq_true h
  obtain ⟨charges, t, batch', hcharges, hb', pays⟩ :=
    run_chargesPayWork smallParams rfl cachedPrefixRun e e' [3, 3, 3, 3, 3] he he'
  rw [hcharges, Option.map_some, Option.some.injEq] at ones
  rw [hb, Option.some.injEq] at hb'
  subst ones hb'
  exact ⟨e, e', batch, he, he', hb, chunks, pays, pays.budget distinct⟩

end CoreFlow
