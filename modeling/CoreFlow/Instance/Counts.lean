import CoreFlow.Scheduler.Counts
import CoreFlow.Instance.Copies

/-!
# No prefill past the end, while the caches cover the entries

Every batch of a run holds prefills that end within their sequences, as long as no retained entry
registers more tokens than the prefix that the two caches hold. A request that diverges from the entry
under its key is the way to break this.
-/

namespace CoreFlow
open Prog SchedM

/-- Some groups end, and nothing else happens to any. -/
def EndsGroups (s s' : Scheduler) : Prop :=
  ∀ id, s'.groups.get? id = s.groups.get? id ∨ ∃ g status, s.groups.get? id = some g ∧
    status.isFinished = true ∧ s'.groups.get? id = some { g with status := status }

instance : IsPreorder Scheduler EndsGroups where
  refl _ _ := .inl rfl
  trans s s' s'' h h' := by
    intro id
    rcases h' id with e' | ⟨g', status', hg', hf', e'⟩
    · rw [e']
      exact h id
    · rcases h id with e | ⟨g, status, hg, hf, e⟩
      · exact .inr ⟨g', status', e.symm.trans hg', hf', e'⟩
      · obtain rfl := Option.some.inj (e.symm.trans hg')
        exact .inr ⟨g, status', hg, hf', e'⟩

theorem EndsGroups.of_groups {s s' : Scheduler} (h : s'.groups = s.groups) : EndsGroups s s' :=
  fun id => .inl (by rw [h])

section
variable {p : SchedulerParams} {s s' : Scheduler} {id : SeqId} {batch : List SequenceGroupMetadata}

theorem Counted.ends (h : Counted s) (ends : EndsGroups s s') : Counted s' := by
  refine ⟨fun id g hg => ?_, fun id g hg hw => ?_⟩
  · rcases ends id with e | ⟨g₀, status, hg₀, -, e⟩
    · exact h.within id g (e.symm.trans hg)
    · obtain rfl := Option.some.inj (e.symm.trans hg)
      exact h.within id g₀ hg₀
  · rcases ends id with e | ⟨g₀, status, -, hf, e⟩
    · exact h.waiting id g (e.symm.trans hg) hw
    · obtain rfl := Option.some.inj (e.symm.trans hg)
      rw [show status = .waiting from hw] at hf
      cases hf

theorem BatchFits.ends (h : BatchFits batch s) (ends : EndsGroups s s') : BatchFits batch s' := by
  intro m hm hprompt
  obtain ⟨g, hg, hle⟩ := h m hm hprompt
  rcases ends m.seqId with e | ⟨g₀, status, hg₀, -, e⟩
  · exact ⟨g, e.trans hg, hle⟩
  · obtain rfl := Option.some.inj (hg₀.symm.trans hg)
    exact ⟨_, e, hle⟩

/-! ## Aborts -/

namespace SchedM

theorem setStatus_ends {status : SequenceStatus} (hf : status.isFinished = true) :
    Within EndsGroups (setStatus id status) := by
  intro s u s' h
  obtain ⟨g, hg, rfl⟩ := setStatus_iff.mp h
  intro x
  show (s.groups.set id _).get? x = _ ∨ _
  by_cases hx : x = id
  · subst hx
    exact .inr ⟨g, status, hg, hf, Dict.get?_set_self _ _ _⟩
  · exact .inl (Dict.get?_set_ne _ _ (Ne.symm hx))

theorem abortGroup_ends (id : SeqId) : Within EndsGroups (abortGroup p id) :=
  .bind ((getGroup_same id).mono fun _ _ q => .of_groups q.groups) fun _ =>
    .when (.bind (setStatus_ends rfl) fun _ _ _ _ h => .of_groups (freeSeq_spec h).1)

theorem abortSeqGroup_ends (ids : List RequestId) : Within EndsGroups (abortSeqGroup p ids) := by
  have named (queue : List SeqId) : Within EndsGroups (groupsNamed ids queue) :=
    (groupsNamed_same ids queue).mono fun _ _ q => .of_groups q.groups
  refine .bind .read fun _ => .bind (named _) fun _ => .bind ?_ fun _ => .bind .read fun _ =>
    .bind (named _) fun _ => .bind ?_ fun _ => .bind .read fun _ => .bind (named _) fun _ => ?_
  · exact .forM (fun _ => .bind (.update fun _ => .of_groups rfl) fun _ => abortGroup_ends _) _
  · exact .forM (fun _ => .bind (.update fun _ => .of_groups rfl) fun _ => abortGroup_ends _) _
  · exact .forM (fun _ => .bind (.update fun _ => .of_groups rfl) fun _ => abortGroup_ends _) _

theorem freeFinishedSeqGroups_queued :
    Within (fun s s' : Scheduler => s'.groups = s.groups) (freeFinishedSeqGroups p) := by
  have : IsPreorder Scheduler fun s s' => s'.groups = s.groups :=
    { refl := fun _ => rfl, trans := fun _ _ _ h h' => h'.trans h }
  have queued {m : SchedM Unit} (h : Within SameQueuedGroups m) :
      Within (fun s s' : Scheduler => s'.groups = s.groups) m := h.mono fun _ _ q => q.groups
  refine .bind .read fun s => .bind (.require _) fun _ => .bind (.require _) fun _ => ?_
  exact .bind (.forM (fun id => queued (freeFinishedSeqs_queued id)) _) fun _ => .bind (.update fun _ => rfl)
    fun _ => .bind (.forM (fun id => queued (freeFinishedSeqGroupBlocks_queued id)) _) fun _ =>
      .bind (.update fun _ => rfl) fun _ =>
        .bind (.forM (fun id => queued (freeFinishedSeqGroupBlocks_queued id)) _) fun _ => .update fun _ => rfl

end SchedM

/-! ## Outputs -/

/-- The group is there and is not waiting. -/
def NotWaiting (s : Scheduler) (id : SeqId) : Prop :=
  ∀ g, s.groups.get? id = some g → g.status ≠ .waiting

namespace EngineM

theorem processGroup_record {m : SequenceGroupMetadata} {o : SampleOutput} {b : Bool} {g : SequenceGroup}
    (hg : s.groups.get? m.seqId = some g) (hf : g.isFinished = false)
    (h : processGroup p m o s = some (b, s')) : ∃ g₁ tokens status,
      g.updateNumComputedTokens m.tokenChunkSize = some g₁ ∧
      s'.groups = s.groups.set m.seqId
        { g₁ with outputTokenIds := g₁.outputTokenIds ++ tokens, status := status } ∧
      (m.doSample = false → tokens = []) ∧ (status = g₁.status ∨ status.isFinished = true) := by
  obtain ⟨g₁, tokens, status, g', t, hg₁, rfl, rfl, ⟨-, rfl, hsample, rfl⟩ | ⟨-, hsample, -, -, hstatus, h₁⟩⟩ :=
    processGroup_cases hg hf h
  · exact ⟨g₁, tokens, g₁.status, hg₁, rfl, hsample, .inl rfl⟩
  refine ⟨g₁, tokens, status, hg₁, ?_, fun hn => ?_, .inr hstatus⟩
  · unfold Prog.when at h₁
    split at h₁
    · exact (freeSeq_spec h₁).1
    · rw [(pure_iff.mp h₁).2]
  · rw [hn] at hsample
    cases hsample

theorem processGroup_groups {m : SequenceGroupMetadata} {o : SampleOutput} {b : Bool}
    (hm : NotWaiting s m.seqId) (h : processGroup p m o s = some (b, s')) :
    s'.groups = s.groups ∨ ∃ g, s'.groups = s.groups.set m.seqId g ∧ g.numComputedTokens ≤ g.getLen ∧
      g.status ≠ .waiting := by
  have hget := h
  rw [processGroup, getGroup_bind, Option.bind_eq_some_iff] at hget
  obtain ⟨g, hg, hget⟩ := hget
  cases hf : g.isFinished with
  | true =>
    rw [if_pos hf] at hget
    rw [(pure_iff.mp hget).2]
    exact .inl rfl
  | false =>
    obtain ⟨g₁, tokens, status, hg₁, groups, -, hstatus⟩ := processGroup_record hg hf h
    rw [SequenceGroup.updateNumComputedTokens, Option.ite_none_right_eq_some, Option.some.injEq] at hg₁
    obtain ⟨hle, rfl⟩ := hg₁
    refine .inr ⟨_, groups, ?_, fun hw => ?_⟩
    · show g.numComputedTokens + m.tokenChunkSize ≤
        ((g.promptTokenIds ++ (g.outputTokenIds ++ tokens)).length : Int)
      unfold SequenceGroup.getLen SequenceGroup.getTokenIds at hle
      simp only [List.length_append] at hle ⊢
      omega
    · rcases hstatus with rfl | hstatus
      · exact hm g hg hw
      · rw [show status = .waiting from hw] at hstatus
        cases hstatus

theorem processGroups_counted {l : List (SequenceGroupMetadata × SampleOutput)} {bs : List Bool}
    (h : Prog.mapM (fun x : SequenceGroupMetadata × SampleOutput => processGroup p x.1 x.2) l s =
      some (bs, s')) (hc : Counted s) (hl : ∀ x ∈ l, NotWaiting s x.1.seqId) : Counted s' := by
  refine (mapM_invariant (fun l s => Counted s ∧ ∀ x ∈ l, NotWaiting s x.1.seqId) ?_ h ⟨hc, hl⟩).1
  rintro x l s b s₁ ⟨hc, hl⟩ h₁
  rcases processGroup_groups (hl x (List.mem_cons_self ..)) h₁ with groups | ⟨g, groups, hle, hs⟩
  · refine ⟨hc.same groups, fun y hy => ?_⟩
    unfold NotWaiting
    rw [groups]
    exact hl y (List.mem_cons_of_mem _ hy)
  · refine ⟨hc.set groups hle fun hw => (hs hw).elim, fun y hy g' hg' => ?_⟩
    rw [groups, Dict.get?_set] at hg'
    split at hg'
    · rw [← Option.some.inj hg']
      exact hs
    · exact hl y (List.mem_cons_of_mem _ hy) g' hg'

end EngineM

/-! ## The engine -/

/-- What holds between the operations; the batch fits while the caches cover the entries. -/
structure CountedEngine (p : SchedulerParams) (e : Engine) : Prop where
  counted : Counted e.scheduler
  fits : AllCovered p e.scheduler → ∀ batch, e.batch = some batch → BatchFits batch e.scheduler

variable {e e' : Engine}

theorem CountedEngine.ends (h : CountedEngine p e) (ends : EndsGroups e.scheduler e'.scheduler)
    (hb : e'.batch = e.batch) (before : AllCovered p e'.scheduler → AllCovered p e.scheduler) :
    CountedEngine p e' :=
  ⟨h.counted.ends ends,
    fun cov batch hbatch => BatchFits.ends (h.fits (before cov) batch (hb.symm.trans hbatch)) ends⟩

namespace EngineM

theorem addSeqGroup_counted {requestId : RequestId} {promptTokenIds : List TokenId}
    {extraArgs : Option ExtraArgs} {priority arrivalTime : Int} {u : Unit} (o : Owned e)
    (h : CountedEngine p e)
    (ha : addSeqGroup requestId promptTokenIds extraArgs priority arrivalTime e = some (u, e')) :
    CountedEngine p e' := by
  simp only [addSeqGroup, nextSeqId, Prog.bind_assoc, read_bind, update_bind, Prog.pure_bind] at ha
  obtain ⟨s, hs, rfl⟩ := onScheduler_iff.mp ha
  rw [setGroup_bind, update_iff] at hs
  subst hs
  refine ⟨h.counted.set rfl (SequenceGroup.getLen_nonneg _) fun _ => ⟨rfl, rfl⟩, fun cov batch hbatch => ?_⟩
  intro m hm hprompt
  obtain ⟨g, hg, hle⟩ := h.fits cov batch hbatch m hm hprompt
  refine ⟨g, ?_, hle⟩
  show (e.scheduler.groups.set e.seqCounter _).get? m.seqId = some g
  rw [Dict.get?_set_ne, hg]
  exact (Nat.ne_of_lt (o.settled.fresh _ (.inl (Dict.mem_of_get? hg)))).symm

theorem schedule_countedEngine {clock : List Int} {u : Unit} (o : Owned e) (h : CountedEngine p e)
    (hs : EngineM.schedule p clock e = some (u, e')) : CountedEngine p e' := by
  simp only [EngineM.schedule, setClock, read_bind, require_bind, Option.ite_none_right_eq_some] at hs
  obtain ⟨-, hs⟩ := hs
  obtain ⟨_, e₁, h₁, hs⟩ := bind_iff.mp hs
  obtain ⟨s₁, hs₁, rfl⟩ := onScheduler_iff.mp h₁
  rw [update_iff] at hs₁
  obtain ⟨⟨metadata, outputs⟩, e₂, h₂, hs⟩ := bind_iff.mp hs
  obtain ⟨s₂, hs₂, rfl⟩ := onScheduler_iff.mp h₂
  rw [update_iff.mp hs]
  have i₁ : Settled e.seqCounter s₁.waiting s₁.running s₁ := by
    rw [hs₁]
    exact o.settled.same ⟨rfl, rfl, refl _⟩ rfl rfl
  have c₁ : Counted s₁ := by
    rw [hs₁]
    exact h.counted.same rfl
  obtain ⟨counted, fits⟩ := schedule_counted i₁ c₁ hs₂
  refine ⟨counted, fun cov batch hbatch => ?_⟩
  rw [← Option.some.inj hbatch]
  exact fits cov

theorem processModelOutputs_counted {samples : List SampleOutput} {clock : List Int} {u : Unit}
    (o : Owned e) (h : CountedEngine p e) (hp : processModelOutputs p samples clock e = some (u, e')) :
    CountedEngine p e' := by
  simp only [processModelOutputs, setClock, read_bind, ofOption_bind, require_bind,
    Option.bind_eq_some_iff, Option.ite_none_right_eq_some] at hp
  obtain ⟨metadata, hbatch, -, hp⟩ := hp
  obtain ⟨_, e₁, h₁, hp⟩ := bind_iff.mp hp
  obtain ⟨s₁, hs₁, rfl⟩ := onScheduler_iff.mp h₁
  rw [update_iff] at hs₁
  obtain ⟨finishedNow, e₂, h₂, hp⟩ := bind_iff.mp hp
  obtain ⟨s₂, hs₂, rfl⟩ := onScheduler_iff.mp h₂
  obtain ⟨_, e₃, h₃, hp⟩ := bind_iff.mp hp
  rw [update_iff.mp hp]
  have c₁ : Counted s₁ := by
    rw [hs₁]
    exact h.counted.same rfl
  have c₂ : Counted s₂ := by
    refine processGroups_counted hs₂ c₁ fun x hx g hg hw => ?_
    have hx' : x.1.seqId ∈ batchIds e := by
      unfold batchIds
      rw [hbatch]
      exact List.mem_map_of_mem (List.of_mem_zip hx).1
    rw [hs₁] at hg
    obtain ⟨g', hg', hin⟩ := o.tracked _ hx'
    obtain rfl : g' = g := Option.some.inj (hg'.symm.trans hg)
    obtain ⟨g₂, hg₂, hrun, -⟩ := o.settled.running_group (hin (by rw [SequenceGroup.isFinished, hw]; rfl))
    obtain rfl : g' = g₂ := Option.some.inj (hg'.symm.trans hg₂)
    rw [hw] at hrun
    cases hrun
  refine ⟨?_, fun _ batch hb => by cases hb⟩
  unfold Prog.when at h₃
  split at h₃
  · obtain ⟨s₃, hs₃, rfl⟩ := onScheduler_iff.mp h₃
    exact c₂.same (freeFinishedSeqGroups_queued _ _ _ hs₃)
  · obtain ⟨-, rfl⟩ := pure_iff.mp h₃
    exact c₂

/-- A migrated cache touches neither the groups nor the batch. -/
theorem migrateCache_groups {tokenIds : List TokenId} {queryId invocationId : Int} {requestId : RequestId}
    {keep : Bool} {arrivalTime now : Int} {u : Unit}
    (h : migrateCache p tokenIds queryId invocationId requestId keep arrivalTime now e = some (u, e')) :
    e'.scheduler.groups = e.scheduler.groups ∧ e'.batch = e.batch := by
  let R (e e' : Engine) : Prop := e'.scheduler.groups = e.scheduler.groups ∧ e'.batch = e.batch
  have : IsPreorder Engine R :=
    { refl := fun _ => ⟨rfl, rfl⟩, trans := fun _ _ _ h h' => ⟨h'.1.trans h.1, h'.2.trans h.2⟩ }
  have onManager {α : Type} (x : ManagerM α) : Within R (onScheduler (SchedM.onManager x)) := by
    intro e a e' h
    obtain ⟨s, hs, rfl⟩ := onScheduler_iff.mp h
    obtain ⟨m, -, rfl⟩ := onManager_iff.mp hs
    exact ⟨rfl, rfl⟩
  have next : Within R nextSeqId :=
    .bind .read fun _ => .bind (.update fun _ => ⟨rfl, rfl⟩) fun _ => .pure _
  have register : Within R (registerMigratedGpuCache p tokenIds queryId invocationId requestId arrivalTime) := by
    refine .bind next fun seqId => .bind .read fun _ => .bind (.ofOption _) fun status => ?_
    cases status with
    | later => exact .pure _
    | never => exact .pure _
    | ok => exact .bind (onManager _) fun _ => .bind (onManager _) fun _ => .bind (onManager _) fun _ => .pure _
  have all : Within R (migrateCache p tokenIds queryId invocationId requestId keep arrivalTime now) :=
    .ite (.pure _) (.bind (.ite register (.pure _)) fun _ => .when (.bind (onManager _) fun _ => .pure _))
  exact all _ _ _ h

theorem perform_counted {op : EngineOp} {u : Unit} (o : Owned e) (h : CountedEngine p e)
    (hop : Engine.perform p op e = some (u, e')) : CountedEngine p e' := by
  obtain ⟨next, c⟩ := CopyStep.perform hop
  have before (cov : AllCovered p e'.scheduler) : AllCovered p e.scheduler := cov.before c.admissions
  cases op with
  | addSeqGroup => exact addSeqGroup_counted o h hop
  | abortSeqGroup ids =>
    obtain ⟨s, hs, rfl⟩ := onScheduler_iff.mp hop
    exact h.ends (abortSeqGroup_ends ids _ _ _ hs) rfl before
  | schedule => exact schedule_countedEngine o h hop
  | processModelOutputs => exact processModelOutputs_counted o h hop
  | migrateCache =>
    obtain ⟨groups, hb⟩ := migrateCache_groups hop
    exact h.ends (.of_groups groups) hb before

end EngineM

/-! ## Runs -/

theorem Engine.run_counted {ops : List EngineOp} (h : Engine.run p (Engine.init p) ops = some e) :
    EngineM.Owned e ∧ CountedEngine p e := by
  have start : EngineM.Owned (Engine.init p) ∧ CountedEngine p (Engine.init p) := by
    refine ⟨EngineM.init_owned p, ⟨fun id g hg => ?_, fun id g hg => ?_⟩, fun _ b hb => by cases hb⟩
    · cases hg
    · cases hg
  refine Engine.run_invariant (fun e => EngineM.Owned e ∧ CountedEngine p e) ?_ h start
  rintro op e e' ⟨o, i⟩ hop
  exact ⟨EngineM.perform_owned o hop, EngineM.perform_counted o i hop⟩

/-- Every prefill of a batch ends within its sequence, so processing its output does not fail. -/
theorem run_batchFits (p : SchedulerParams) (ops : List EngineOp) (e : Engine)
    (hrun : Engine.run p (Engine.init p) ops = some e)
    (hcov : ∀ a ∈ e.asked.admissions, EntryCovered p a) :
    ∀ batch, e.batch = some batch → ∀ m ∈ batch, m.isPrompt = true →
      ∃ g, e.scheduler.groups.get? m.seqId = some g ∧
        g.numComputedTokens + m.tokenChunkSize ≤ g.getLen ∧
        (g.updateNumComputedTokens m.tokenChunkSize).isSome = true := by
  intro batch hbatch m hm hprompt
  obtain ⟨g, hg, hle⟩ := (Engine.run_counted hrun).2.fits hcov batch hbatch m hm hprompt
  refine ⟨g, hg, hle, ?_⟩
  rw [SequenceGroup.updateNumComputedTokens]
  simp [hle]

instance (p : SchedulerParams) (a : Admission) : Decidable (EntryCovered p a) :=
  decidable_of_iff (getInitialCachedTokens a.group ≤ 0 → ∀ e ∈ a.entry.toList,
    roundCachedTokens p (min e.tokenIds.length (max (a.group.getPromptLen - 1) 0)) ≤
      max a.gpuCachedTokens a.cpuCachedTokens) (by simp [EntryCovered])

/-- An entry is retained, and a request that continues it arrives. -/
def coveredRun : List EngineOp :=
  [.addSeqGroup "q0_a" [1, 2, 3] (some ⟨some (some 0), some 0, 0, true, false, none⟩) 0 0,
   .schedule [1, 1, 1, 1, 1],
   .processModelOutputs [⟨4, some .finishedStopped, false⟩] [2, 2],
   .addSeqGroup "q0_b" [1, 2, 3, 4] (some ⟨some (some 0), some 0, 0, true, false, none⟩) 0 0,
   .schedule [3, 3, 3, 3]]

theorem run_batchFits_coveredRun : ∃ e batch, Engine.run smallParams (Engine.init smallParams) coveredRun =
    some e ∧ e.batch = some batch ∧ batch.map (·.isPrompt) = [true] ∧ e.asked.admissions.length = 2 ∧
      ∀ m ∈ batch, m.isPrompt = true → ∃ g, e.scheduler.groups.get? m.seqId = some g ∧
        g.numComputedTokens + m.tokenChunkSize ≤ g.getLen ∧
        (g.updateNumComputedTokens m.tokenChunkSize).isSome = true := by
  have returns : ((Engine.run smallParams (Engine.init smallParams) coveredRun).bind fun e =>
      e.batch.map fun batch => decide (batch.map (·.isPrompt) = [true] ∧ e.asked.admissions.length = 2 ∧
        ∀ a ∈ e.asked.admissions, EntryCovered smallParams a)) = some true := by
    decide +kernel
  obtain ⟨e, he, h⟩ := Option.bind_eq_some_iff.mp returns
  obtain ⟨batch, hb, h⟩ := Option.map_eq_some_iff.mp h
  obtain ⟨hprompt, hlen, hcov⟩ := of_decide_eq_true h
  exact ⟨e, batch, he, hb, hprompt, hlen, run_batchFits smallParams coveredRun e he hcov batch hb⟩

/-- The entry holds five tokens, and a request with its key has only two of them in common. -/
def divergingRun : List EngineOp :=
  [.addSeqGroup "q0_a" [1, 2, 3] (some ⟨some (some 0), some 0, 0, true, false, none⟩) 0 0,
   .schedule [1, 1, 1, 1, 1],
   .processModelOutputs [⟨4, none, false⟩] [2],
   .schedule [3, 3, 3, 3],
   .processModelOutputs [⟨5, some .finishedStopped, false⟩] [4, 4, 4],
   .addSeqGroup "q0_b" [1, 2, 7, 8, 9, 9] (some ⟨some (some 0), some 0, 0, true, false, none⟩) 0 0,
   .schedule [5, 5, 5, 5]]

/-- Four tokens are registered and four more are scheduled, of a prompt of six; the output cannot be
processed. -/
theorem divergingRun_overflows : ∃ e batch, Engine.run smallParams (Engine.init smallParams) divergingRun =
    some e ∧ e.batch = some batch ∧ (∃ m ∈ batch, m.isPrompt = true ∧
      ∃ g, e.scheduler.groups.get? m.seqId = some g ∧ g.numComputedTokens = 4 ∧ m.tokenChunkSize = 4 ∧
        g.getLen = 6) ∧
    Engine.perform smallParams (.processModelOutputs [⟨6, none, false⟩] [6]) e = none := by
  have returns : ((Engine.run smallParams (Engine.init smallParams) divergingRun).bind fun e =>
      e.batch.map fun batch => decide ((∃ m ∈ batch, m.isPrompt = true ∧
        ∃ g ∈ (e.scheduler.groups.get? m.seqId).toList, g.numComputedTokens = 4 ∧ m.tokenChunkSize = 4 ∧
          g.getLen = 6) ∧
        (Engine.perform smallParams (.processModelOutputs [⟨6, none, false⟩] [6]) e).isNone = true)) =
        some true := by
    decide +kernel
  obtain ⟨e, he, h⟩ := Option.bind_eq_some_iff.mp returns
  obtain ⟨batch, hb, h⟩ := Option.map_eq_some_iff.mp h
  obtain ⟨⟨m, hm, hprompt, g, hg, hcount⟩, hnone⟩ := of_decide_eq_true h
  exact ⟨e, batch, he, hb, ⟨m, hm, hprompt, g, Option.mem_toList.mp hg, hcount⟩, Option.isNone_iff_eq_none.mp hnone⟩

end

end CoreFlow
