import CoreFlow.Scheduler.Bookkeeping
import CoreFlow.Scheduler.Counts

/-!
# The work behind a charge

A worker skips the tokens of a chunk that the blocks in the metadata of its group hold. What
`_schedule_prefills` charges for a group counts the prefix found before its table is allocated; the
metadata is read when the whole batch is known. In between no round touches a group that was admitted
before it, and allocating keeps the longer of the two prefixes.
-/

namespace CoreFlow
open Prog SchedM

/-- The tokens that the worker computes for a group of the batch: those of its chunk that its computed
blocks do not hold, and at least one. -/
def workOf (p : SchedulerParams) (s : Scheduler) (m : SequenceGroupMetadata) : Int :=
  let numComputedTokens := ((s.groups.get? m.seqId).map (·.numComputedTokens)).getD 0
  let held : Int := (m.computedBlockNums.length * p.blockSize : Nat)
  let covered := max 0 (min held (numComputedTokens + m.tokenChunkSize) - numComputedTokens)
  max 1 (m.tokenChunkSize - covered)

/-- The group `id`, its table and its counts are the same. -/
structure Apart (id : SeqId) (s s' : Scheduler) : Prop where
  group : s'.groups.get? id = s.groups.get? id
  untouched : Untouched id s.blockManager s'.blockManager

instance (id : SeqId) : IsPreorder Scheduler (Apart id) where
  refl _ := ⟨rfl, refl _⟩
  trans _ _ _ h h' := ⟨h'.1.trans h.1, IsTrans.trans _ _ _ h.2 h'.2⟩

theorem SameContent.apart {s s' : Scheduler} (h : SameContent s s') (id : SeqId) : Apart id s s' :=
  ⟨by rw [h.groups], by rw [h.blockManager]; exact refl _⟩

/-- What is charged for a chunk pays for its work: it is the whole chunk, or the rest of the chunk lies in
the prefix found on the GPU and in the blocks of the table. -/
def Covered (p : SchedulerParams) (s : Scheduler) (sg : ScheduledSequenceGroup) (charge : Int) : Prop :=
  0 < charge ∧ ∃ g, s.groups.get? sg.seqId = some g ∧ g.status = .running ∧
    (sg.tokenChunkSize ≤ charge ∨ g.isPrefill = true ∧ ∃ t found, Found sg.seqId t found s.blockManager ∧
      g.numComputedTokens + (sg.tokenChunkSize - charge) ≤ (min found (t.blockIds.length * p.blockSize) : Nat))

section
variable {p : SchedulerParams} {ok : Prop} {keys : Int × Int → Prop} {extra : Option SeqId}
  {s s' : Scheduler} {id x : SeqId} {g : SequenceGroup} {sg : ScheduledSequenceGroup} {charge : Int}

theorem Covered.apart (h : Covered p s sg charge) (a : Apart sg.seqId s s') : Covered p s' sg charge := by
  obtain ⟨hpos, g, hg, hrun, hcov⟩ := h
  refine ⟨hpos, g, a.group.trans hg, hrun, hcov.imp_right ?_⟩
  rintro ⟨hpre, t, found, i, hle⟩
  exact ⟨hpre, t, found, i.untouched a.untouched, hle⟩

theorem Covered.running (h : Covered p s sg charge) : ∃ g, s.groups.get? sg.seqId = some g ∧ g.status = .running := by
  obtain ⟨-, g, hg, hrun, -⟩ := h
  exact ⟨g, hg, hrun⟩

/-! ## Rounds about another group -/

theorem onManager_apart {α : Type} {y : ManagerM α} (h : Within (Untouched x) y) : Within (Apart x) (onManager y) :=
  .zoom h fun _ _ u => ⟨rfl, u⟩

theorem setGroup_apart (hne : id ≠ x) (g : SequenceGroup) : Within (Apart x) (setGroup id g) :=
  .update fun _ => ⟨Dict.get?_set_ne _ _ hne, refl _⟩

theorem getGroup_apart (id : SeqId) : Within (Apart x) (getGroup id) :=
  (getGroup_content id).mono fun _ _ q => q.apart x

theorem setStatus_apart (hne : id ≠ x) (status : SequenceStatus) : Within (Apart x) (setStatus id status) :=
  .bind (getGroup_apart id) fun _ => setGroup_apart hne _

theorem getNumCachedTokens_apart (hne : g.seqId ≠ x) (d : Device) : Within (Apart x) (getNumCachedTokens p g d) :=
  onManager_apart (ManagerM.getNumCachedTokens_untouched (by simp [hne]))

theorem removeSeqFromComputedBlocksTracker_apart (hne : id ≠ x) (status : SequenceStatus) :
    Within (Apart x) (removeSeqFromComputedBlocksTracker id status) :=
  .bind (getGroup_apart id) fun _ =>
    .when (onManager_apart (ManagerM.removeSeqFromComputedBlocksTracker_untouched hne))

theorem prefillStep_apart {c : Bool} {step : PrefillStep} (h : prefillStep p id c s = some (step, s'))
    (hseq : ∀ g, s.groups.get? id = some g → g.seqId = id) (hne : id ≠ x) : Apart x s s' := by
  obtain ⟨g, hg, -, ⟨-, rfl⟩ | ⟨u, k, s₁, h₁, hs⟩⟩ := prefillStep_cases h
  · exact refl _
  have hne' : g.seqId ≠ x := by rw [hseq g hg]; exact hne
  have a₁ := getNumNewUncachedAndCachedTokens_rule p (getNumCachedTokens_apart hne') _ _ _ _ _ h₁
  rcases hs with ⟨-, hs⟩ | ⟨-, hs⟩ | ⟨-, rfl⟩
  · exact IsTrans.trans _ _ _ a₁ (removeSeqFromComputedBlocksTracker_apart hne _ _ _ _ hs)
  · have a₂ : Apart x s₁ { s₁ with groups := s₁.groups.set id { g with status := .finishedIgnored } } :=
      ⟨Dict.get?_set_ne _ _ hne, refl _⟩
    exact IsTrans.trans _ _ _ a₁ (IsTrans.trans _ _ _ a₂ (removeSeqFromComputedBlocksTracker_apart hne _ _ _ _ hs))
  · exact a₁

theorem allocateAndSetRunning_apart {pairs : List SwapPair} (h : allocateAndSetRunning p id s = some (pairs, s'))
    (hseq : ∀ g, s.groups.get? id = some g → g.seqId = id) (hne : id ≠ x) : Apart x s s' := by
  rw [allocateAndSetRunning, getGroup_bind, Option.bind_eq_some_iff] at h
  obtain ⟨g, hg, h⟩ := h
  have hne' : g.seqId ≠ x := by rw [hseq g hg]; exact hne
  obtain ⟨pairs', s₁, h₁, h⟩ := bind_iff.mp h
  obtain ⟨initial, s₂, h₂, h⟩ := bind_iff.mp h
  obtain ⟨synthetic, s₃, h₃, h⟩ := bind_iff.mp h
  obtain ⟨_, s₄, h₄, h⟩ := bind_iff.mp h
  obtain ⟨_, s₅, h₅, h⟩ := bind_iff.mp h
  obtain ⟨-, rfl⟩ := pure_iff.mp h
  have a₁ := onManager_apart (ManagerM.allocate_untouched hne') _ _ _ h₁
  have a₂ := resolveCachedPrefixLen_rule p (getNumCachedTokens_apart hne') _ _ _ h₂
  have a₃ := hasSyntheticCacheSource_any (R := Apart x) _ _ _ h₃
  have a₄ : Apart x s₃ s₄ := by
    refine Within.when (.bind ?_ fun n => .when (.bind (.ofOption _) fun g' => ?_)) _ _ _ h₄
    · exact onManager_apart (ManagerM.registerSyntheticCachedTokens_untouched hne' _)
    · exact setGroup_apart hne g'
  have a₅ := setStatus_apart hne _ _ _ _ h₅
  exact IsTrans.trans _ _ _ a₁ (IsTrans.trans _ _ _ a₂ (IsTrans.trans _ _ _ a₃ (IsTrans.trans _ _ _ a₄ a₅)))

/-- The entry that an admitted group consumes holds no group that runs. -/
theorem consumeExactGpuCacheHit_apart {u : Unit} (h : consumeExactGpuCacheHit p g s = some (u, s'))
    (hx : ∀ key, x ∉ ManagerM.entrySeqIds s.blockManager key) : Apart x s s' := by
  unfold consumeExactGpuCacheHit at h
  cases hkey : g.cacheKey with
  | none =>
    rw [hkey] at h
    rw [(pure_iff.mp h).2]
    exact refl s
  | some key =>
    rw [hkey] at h
    obtain ⟨m, hm, rfl⟩ := onManager_iff.mp h
    exact ⟨rfl, ManagerM.evictCachedBlocks_untouched (hx key) hm⟩

/-! ## The round about the group -/

/-- The cached tokens of a new chunk lie in the prefix that was found, and in the sequence. -/
theorem getNumNewTokens_cached {u k : Int} (hpre : g.isPrefill = true) (hk : 0 < k)
    (h : getNumNewTokens p g s = some ((u, k), s')) :
    ∃ cached, getCachedTokensSeq p g s = some (cached, s') ∧ g.numComputedTokens + k ≤ cached ∧
      g.numComputedTokens + k ≤ g.getLen := by
  unfold getNumNewTokens at h
  rw [if_neg (by rw [hpre]; decide)] at h
  obtain ⟨cached, s₁, h₁, h⟩ := bind_iff.mp h
  obtain ⟨e, rfl⟩ := pure_iff.mp h
  refine ⟨cached, h₁, ?_⟩
  split at e
  · obtain ⟨-, rfl⟩ := Prod.mk.inj e
    omega
  · obtain ⟨-, rfl⟩ := Prod.mk.inj e
    omega

theorem getNumCachedTokens_found {t : BlockTable} {found : Nat} (hpre : g.isPrefill = true) (d : Device) :
    Within (Preserves fun s => Found g.seqId t found s.blockManager) (getNumCachedTokens p g d) := by
  intro s n s' h i
  obtain ⟨m, hm, rfl⟩ := onManager_iff.mp h
  exact ManagerM.getNumCachedTokens_found hpre _ _ _ hm i

/-- Without a synthetic source nothing is registered: the table of a new sequence and the prefix found for
it are as `allocate` leaves them. -/
theorem allocateAndSetRunning_covers {pairs : List SwapPair} {gpu cpu : Nat} (i : Bookkeeping ok keys extra s)
    (hg : s.groups.get? id = some g) (hpre : g.isPrefill = true)
    (hplain : syntheticPrefixLen p g (entryOf g s.blockManager) = none)
    (hgpu : s.blockManager.computedBlocksTracker.seqIdToNumTokensComputed.get? (id, .gpu) = some gpu)
    (hcpu : s.blockManager.computedBlocksTracker.seqIdToNumTokensComputed.get? (id, .cpu) = some cpu)
    (h : allocateAndSetRunning p id s = some (pairs, s')) :
    ∃ t found, Found id t found s'.blockManager ∧ g.getTokenIds.length ≤ t.blockIds.length * p.blockSize ∧
      min (max gpu cpu) g.getTokenIds.length ≤ found := by
  have hseq := i.seqId id g hg
  rw [allocateAndSetRunning, getGroup_bind, hg, Option.bind_some] at h
  obtain ⟨pairs', s₁, h₁, h⟩ := bind_iff.mp h
  obtain ⟨m₁, hm₁, rfl⟩ := onManager_iff.mp h₁
  obtain ⟨hwait, hfresh, -, entries, -⟩ := ManagerM.allocate_owners hm₁
  -- a waiting sequence without a table has no synthetic count
  have hsyn : s.blockManager.syntheticCachedTokens.get? id = none := by
    apply Dict.get?_eq_none.mpr
    intro hin
    obtain ⟨g', hg', hf⟩ := i.counted id hin
    obtain rfl := Option.some.inj (hg.symm.trans hg')
    rw [hseq] at hfresh
    refine hfresh (hf.resolve_left ?_)
    rw [SequenceGroup.isFinished, hwait]
    decide
  rw [← hseq] at hgpu hcpu hsyn ⊢
  obtain ⟨t, found, i₁, hroom, hle⟩ := ManagerM.allocate_covers hpre hsyn hgpu hcpu hm₁
  refine ⟨t, found, ?_, hroom, hle⟩
  obtain ⟨initial, s₂, h₂, h⟩ := bind_iff.mp h
  have i₂ := resolveCachedPrefixLen_rule p (getNumCachedTokens_found hpre) _ _ _ h₂ i₁
  have q₂ := resolveCachedPrefixLen_same _ _ _ _ _ h₂
  have entry : entryOf g s₂.blockManager = entryOf g s.blockManager := by
    unfold entryOf BlockSpaceManager.getGpuCachedEntry
    rw [q₂.owners.entries, entries]
  obtain ⟨synthetic, s₃, h₃, h⟩ := bind_iff.mp h
  obtain ⟨rfl, rfl⟩ := (hasSyntheticCacheSource_iff (p := p)).mp h₃
  rw [entry, hplain] at h
  obtain ⟨_, s₄, h₄, h⟩ := bind_iff.mp h
  obtain ⟨_, s₅, h₅, h⟩ := bind_iff.mp h
  rw [when_neg (by simp)] at h₄
  obtain ⟨-, rfl⟩ := pure_iff.mp h
  obtain ⟨g₅, -, rfl⟩ := setStatus_iff.mp h₅
  rw [(pure_iff.mp h₄).2]
  exact i₂

/-- An admission leaves the other groups that run, and is paid for by its charge. -/
theorem admitPrefill_covered {s₀ : Scheduler} {u k : Int} {rest : List SeqId} {ret ret' : SchedulerPrefillOutputs}
    (i : Bookkeeping ok keys extra s) (hg : s.groups.get? id = some g) (hpos : 0 < u) (hw : g.status = .waiting)
    (hcount : getNumNewUncachedAndCachedTokens p g .waiting true s₀ = some ((u, k), s))
    (ha : admitPrefill p id u k ret { s with waiting := rest } = some (ret', s')) :
    (∀ x, (∃ g, s.groups.get? x = some g ∧ g.status = .running) → Apart x s s') ∧
      ∃ chunk, ret'.seqGroups = ret.seqGroups ++ [⟨id, chunk⟩] ∧ Covered p s' ⟨id, chunk⟩ u := by
  obtain ⟨g', pairs, s₂, s₃, hg', h₂, h₃, q, rfl⟩ := admitPrefill_steps ha
  obtain rfl : g = g' := Option.some.inj (hg.symm.trans hg')
  have popped : Bookkeeping ok keys extra { s with waiting := rest } := i.frame rfl rfl
  obtain ⟨-, ⟨g', hreg, groups₂⟩, -, entries₂, -⟩ := allocateAndSetRunning_spec hg' h₂
  have groups : s'.groups.get? id = some { g' with status := .running } := by
    rw [q.groups, (consumeExactGpuCacheHit_spec h₃).1]
    show s₂.groups.get? id = _
    rw [groups₂, Dict.get?_set_self]
  have held (x : SeqId) (gx : SequenceGroup) (hx : s.groups.get? x = some gx) (hf : gx.isFinished = false)
      (key : Int × Int) : x ∉ ManagerM.entrySeqIds s₂.blockManager key := by
    unfold ManagerM.entrySeqIds
    rw [entries₂]
    exact i.not_held hx hf key
  have after (x : SeqId) (gx : SequenceGroup) (hx : s.groups.get? x = some gx) (hf : gx.isFinished = false) :
      Apart x s₂ s' := by
    have recorded : Apart x s₂ (recordAdmission (admissionOf id g s.blockManager s₂) s₂) :=
      ⟨rfl, rfl, rfl, rfl⟩
    have consumed := consumeExactGpuCacheHit_apart h₃ fun key => held x gx hx hf key
    exact IsTrans.trans _ _ _ recorded (IsTrans.trans _ _ _ consumed (q.apart x))
  refine ⟨?_, _, rfl, hpos, _, groups, rfl, ?_⟩
  · rintro x ⟨gx, hgx, hrun⟩
    have hne : id ≠ x := by
      rintro rfl
      rw [hg, Option.some.injEq] at hgx
      rw [← hgx, hw] at hrun
      cases hrun
    have a₁ : Apart x s { s with waiting := rest } := ⟨rfl, rfl, rfl, rfl⟩
    have a₂ := allocateAndSetRunning_apart h₂ (fun gx hx => i.seqId id gx hx) hne
    refine IsTrans.trans _ _ _ a₁ (IsTrans.trans _ _ _ a₂ (after x gx hgx ?_))
    rw [SequenceGroup.isFinished, hrun]
    rfl
  · dsimp only
    split
    · exact .inl le_rfl
    rename_i hplain
    by_cases hk : k ≤ 0
    · exact .inl (by omega)
    -- without a synthetic source the cached tokens are a prefix that was found
    rw [Bool.not_eq_true, Option.isSome_eq_false_iff, Option.isNone_iff_eq_none] at hplain
    obtain rfl : g' = g := hreg.resolve_right (by
      rintro ⟨l, n, hl, -⟩
      rw [hplain] at hl
      cases hl)
    have hinit : getInitialCachedTokens g' ≤ 0 := by
      unfold syntheticPrefixLen at hplain
      split at hplain
      · cases hplain
      · omega
    obtain ⟨v, hv, -⟩ := (getNumNewUncachedAndCachedTokens_spec hcount).resolve_left fun h => h.1 hw
    cases hpre : g'.isPrefill with
    | false =>
      rw [getNumNewTokens, if_pos hpre, pure_iff, Prod.mk.injEq] at hv
      omega
    | true =>
      obtain ⟨cached, hcached, hle, hlen⟩ := getNumNewTokens_cached hpre (by omega) hv
      obtain ⟨gpu, cpu, rfl, hgpu, hcpu⟩ := getCachedTokensSeq_found hpre hinit hcached
      rw [i.seqId id g' hg] at hgpu hcpu
      obtain ⟨t, found, i₂, hroom, hfound⟩ := allocateAndSetRunning_covers popped hg' hpre hplain hgpu hcpu h₂
      have hf : g'.isFinished = false := by
        rw [SequenceGroup.isFinished, hw]
        rfl
      refine .inr ⟨hpre, t, found, i₂.untouched (after id g' hg hf).untouched, ?_⟩
      show g'.numComputedTokens + (u + k - u) ≤ _
      unfold SequenceGroup.getLen at hlen
      omega

/-! ## Metadata -/

theorem workOf_same (groups : s'.groups = s.groups) (m : SequenceGroupMetadata) : workOf p s' m = workOf p s m := by
  unfold workOf
  rw [groups]

theorem workOf_le (s : Scheduler) (m : SequenceGroupMetadata) : workOf p s m ≤ max 1 m.tokenChunkSize := by
  unfold workOf
  dsimp only
  omega

theorem groupMetadata_steps {now : Int} {m : SequenceGroupMetadata} (h : groupMetadata p now sg s = some (m, s')) :
    ∃ g s₁, s.groups.get? sg.seqId = some g ∧ (∀ x, Apart x s s₁) ∧
      onManager (ManagerM.getCommonComputedBlockIds p.toManagerParams g) s₁ = some (m.computedBlockNums, s') ∧
      m.seqId = sg.seqId ∧ m.tokenChunkSize = sg.tokenChunkSize := by
  rw [groupMetadata, getGroup_bind, Option.bind_eq_some_iff] at h
  obtain ⟨g, hg, h⟩ := h
  obtain ⟨ids, s₁, h₁, h⟩ := bind_iff.mp h
  obtain ⟨nums, s₂, h₂, h⟩ := bind_iff.mp h
  obtain ⟨rfl, rfl⟩ := pure_iff.mp h
  refine ⟨g, s₁, hg, fun x => ?_, h₂, rfl, rfl⟩
  refine Within.ite ?_ (.pure _) _ _ _ h₁
  exact .bind .read fun _ => .bind (.ofOption _) fun _ =>
    .bind (onManager_apart (ManagerM.accessAllBlocksInSeq_untouched _ _)) fun _ => .pure _

/-- The metadata of one group leaves what the others are charged for; in prefill it finds what is recorded. -/
theorem Covered.metadata {now : Int} {sg' : ScheduledSequenceGroup} {m : SequenceGroupMetadata}
    (h : Covered p s sg charge) (hseq : ∀ id g, s.groups.get? id = some g → g.seqId = id)
    (hm : groupMetadata p now sg' s = some (m, s')) : Covered p s' sg charge := by
  obtain ⟨g', s₁, hg', a₁, hcommon, -, -⟩ := groupMetadata_steps hm
  have i₁ := h.apart (a₁ sg.seqId)
  obtain ⟨m', hm', rfl⟩ := onManager_iff.mp hcommon
  by_cases hne : g'.seqId = sg.seqId
  · obtain ⟨hpos, g, hg, hrun, hcov⟩ := i₁
    refine ⟨hpos, g, hg, hrun, hcov.imp_right ?_⟩
    rintro ⟨hpre, t, found, i, hle⟩
    refine ⟨hpre, t, found, ?_, hle⟩
    -- the two groups are one
    rw [(a₁ sg.seqId).group, ← hne, hseq _ g' hg', hg', Option.some.injEq] at hg
    rw [← hne] at i ⊢
    rw [← hg] at hpre
    exact ManagerM.getCommonComputedBlockIds_found hpre _ _ _ hm' i
  · exact i₁.apart ⟨rfl, ManagerM.getCommonComputedBlockIds_untouched hne _ _ _ hm'⟩

/-- The charge pays for the work. -/
theorem Covered.work {now : Int} {m : SequenceGroupMetadata} (h : Covered p s sg charge)
    (hseq : ∀ id g, s.groups.get? id = some g → g.seqId = id) (hm : groupMetadata p now sg s = some (m, s')) :
    workOf p s m ≤ charge := by
  obtain ⟨g', s₁, hg', a₁, hcommon, hid, hchunk⟩ := groupMetadata_steps hm
  obtain ⟨hpos, g, hg, hrun, hcov⟩ := h
  obtain rfl := Option.some.inj (hg.symm.trans hg')
  rcases hcov with hle | ⟨hpre, t, found, i, hle⟩
  · have := workOf_le (p := p) s m
    rw [hchunk] at this
    omega
  · obtain ⟨m', hm', rfl⟩ := onManager_iff.mp hcommon
    have i₁ := i.untouched (a₁ sg.seqId).untouched
    rw [← hseq _ g hg] at i₁
    have held := ManagerM.getCommonComputedBlockIds_length hpre hrun i₁ hm'
    unfold workOf
    rw [held, hid, hg, hchunk]
    dsimp only [Option.map_some, Option.getD_some]
    omega

/-! ## The waiting queue -/

/-- Between the rounds of `_schedule_prefills`: the charges pay for the groups admitted so far, which come
from the queue `waiting`. -/
structure Charging (p : SchedulerParams) (waiting : List SeqId) (s : Scheduler) (ret : SchedulerPrefillOutputs)
    (charges : List Int) : Prop where
  books : Bookkeeping False (fun _ => True) none s
  queue : ∀ id ∈ s.waiting ++ scheduledIds ret.seqGroups, id ∈ waiting
  covered : List.Forall₂ (Covered p s) ret.seqGroups charges

theorem Charging.apart {waiting : List SeqId} {ret : SchedulerPrefillOutputs} {charges : List Int}
    (h : Charging p waiting s ret charges) (books : Bookkeeping False (fun _ => True) none s')
    (queue : ∀ id ∈ s'.waiting, id ∈ s.waiting) {ret' : SchedulerPrefillOutputs}
    (groups : ret'.seqGroups = ret.seqGroups)
    (a : ∀ x, (∃ g, s.groups.get? x = some g ∧ g.status = .running) → Apart x s s') :
    Charging p waiting s' ret' charges := by
  refine ⟨books, fun id hid => h.queue id ?_, ?_⟩
  · rw [groups] at hid
    exact List.mem_append.mpr ((List.mem_append.mp hid).imp_left (queue id))
  · rw [groups]
    exact h.covered.imp fun sg n c => c.apart (a sg.seqId c.running)

theorem chargedPrefillsLoop_covered {waiting left left' : List SeqId} {fuel : Nat}
    {ret ret' : SchedulerPrefillOutputs} {charges charges' : List Int} (h0 : Charging p waiting s ret charges)
    (h : chargedPrefillsLoop p true fuel ret left charges s = some (((ret', left'), charges'), s')) :
    Charging p waiting s' ret' charges' := by
  -- a round that does not admit its group leaves the groups that run
  have others {t t' : Scheduler} {id : SeqId} {step : PrefillStep} (books : Bookkeeping False (fun _ => True) none t)
      (ht : prefillStep p id true t = some (step, t')) (x : SeqId)
      (hx : ∃ g, t.groups.get? x = some g ∧ g.status = .running) : Apart x t t' := by
    refine prefillStep_apart ht (fun g hg => books.seqId id g hg) ?_
    rintro rfl
    obtain ⟨g, hg, hrun⟩ := hx
    obtain ⟨g', hg', hw, -⟩ := prefillStep_same ht
    rw [hg, Option.some.injEq] at hg'
    rw [← hg', hrun] at hw
    cases hw
  have nothing (t : Scheduler) : Claims (fun _ => True) t.waiting t := fun _ _ _ _ _ _ => trivial
  -- a group that is put aside or ignored leaves the queue
  have popped {t t' : Scheduler} {id : SeqId} {rest : List SeqId} {step : PrefillStep}
      {ret ret' : SchedulerPrefillOutputs} {charges : List Int} (hw : t.waiting = id :: rest)
      (i : Charging p waiting t ret charges) (ht : prefillStep p id true t = some (step, t'))
      (hstep : step.looked id = none) (groups : ret'.seqGroups = ret.seqGroups) :
      Charging p waiting { t' with waiting := rest } ret' charges := by
    have a := others i.books ht
    obtain ⟨books, -⟩ := i.books.prefillStep (nothing t) ht
    rw [hstep] at books
    have books' : Bookkeeping False (fun _ => True) none { t' with waiting := rest } := books.frame rfl rfl
    refine i.apart books' (fun id hid => ?_) groups fun x hx => ⟨(a x hx).group, (a x hx).untouched⟩
    rw [hw]
    exact List.mem_cons_of_mem _ hid
  refine chargedPrefillsLoop_steps (fun t ret _ charges => Charging p waiting t ret charges) true ?_ ?_ ?_ ?_ ?_ h h0
  · intro t t' ret left charges q i
    exact i.apart (i.books.content q.toSameContent) (fun id hid => by rw [← q.waiting]; exact hid) rfl
      fun x _ => q.toSameContent.apart x
  · intro t id rest t' ret left charges hw i ht
    obtain ⟨-, -, -, hq, -⟩ := prefillStep_same ht
    refine i.apart (i.books.prefillStep (nothing t) ht).1 (fun id hid => ?_) rfl (others i.books ht)
    rw [← (hq fun h => by cases h).waiting]
    exact hid
  · intro t id rest t' ret left charges hw i ht
    exact popped hw i ht rfl rfl
  · intro t id rest t' ret left charges hw i ht
    exact popped hw i ht rfl rfl
  · intro t id rest u k t₁ ret ret' t' left charges hw i ht ha
    obtain ⟨g, hg, hwait, hpos, hcount⟩ := prefillStep_accept ht
    have a₁ := others i.books ht
    obtain ⟨books₁, -⟩ := i.books.prefillStep (nothing t) ht
    obtain ⟨-, -, -, hq, -⟩ := prefillStep_same ht
    have q := hq fun h => by cases h
    have hg₁ : t₁.groups.get? id = some g := by rw [q.groups]; exact hg
    obtain ⟨a₂, chunk, hret, new⟩ := admitPrefill_covered books₁ hg₁ hpos hwait hcount ha
    have hwaiting := (admitPrefill_lists p id _ _ _ _ _ _ ha).waiting
    have taken : Bookkeeping False (fun _ => True) (some id) { t₁ with waiting := rest } := books₁.frame rfl rfl
    obtain ⟨books', -⟩ := admitPrefill_bookkeeping taken (fun _ _ _ _ _ _ => trivial : Claims _ [] _)
      (fun _ _ _ _ => trivial) ha
    refine ⟨books', fun x hx => ?_, ?_⟩
    · refine i.queue x ?_
      rw [hret, scheduledIds_append, hwaiting, ← List.append_assoc] at hx
      rw [hw]
      rcases List.mem_append.mp hx with hx | hx
      · exact List.mem_cons_of_mem _ hx
      · rw [List.mem_singleton.mp hx]
        exact List.mem_cons_self ..
    · rw [hret]
      refine List.rel_append (i.covered.imp fun sg n c => ?_) (.cons new .nil)
      have c₁ := c.apart (a₁ sg.seqId c.running)
      exact c₁.apart (a₂ sg.seqId c₁.running)

end

end CoreFlow
