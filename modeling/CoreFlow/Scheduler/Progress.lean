import CoreFlow.Scheduler.Counts

/-!
# When `schedule` does something

With nothing running, the first waiting group decides: if the blocks leave it room or can never do so,
and the budgets fit, it is scheduled or ignored. The blocks of retained entries are not free, so a
group that needs them waits.
-/

namespace CoreFlow
open Prog SchedM

/-- The budgets of a step leave room for a sequence and, when prefills are chunked, for a block. -/
structure BudgetsFit (p : SchedulerParams) : Prop where
  tokens : 0 < p.maxNumBatchedTokens
  seqs : 1 ≤ p.maxNumSeqs
  chunks : p.chunkedPrefillEnabled = true → 1 ≤ p.maxNumPartialPrefills ∧ 1 ≤ p.maxLongPartialPrefills ∧
    (p.blockSize : Int) ≤ p.maxNumBatchedTokens / p.maxNumPartialPrefills

instance (p : SchedulerParams) : Decidable (BudgetsFit p) :=
  decidable_of_iff (0 < p.maxNumBatchedTokens ∧ 1 ≤ p.maxNumSeqs ∧ (p.chunkedPrefillEnabled = true →
    1 ≤ p.maxNumPartialPrefills ∧ 1 ≤ p.maxLongPartialPrefills ∧
      (p.blockSize : Int) ≤ p.maxNumBatchedTokens / p.maxNumPartialPrefills))
    ⟨fun h => ⟨h.1, h.2.1, h.2.2⟩, fun h => ⟨h.1, h.2, h.3⟩⟩

/-- What the admission of a group is decided by. -/
structure SameRoom (s s' : Scheduler) : Prop where
  groups : s'.groups = s.groups
  blockManager : s'.blockManager = s.blockManager
  budget : s'.budget = s.budget
  partialPrefillMetadata : s'.partialPrefillMetadata = s.partialPrefillMetadata
  waiting : s'.waiting = s.waiting
  running : s'.running = s.running

instance : IsPreorder Scheduler SameRoom where
  refl _ := ⟨rfl, rfl, rfl, rfl, rfl, rfl⟩
  trans _ _ _ h h' := ⟨h'.1.trans h.1, h'.2.trans h.2, h'.3.trans h.3, h'.4.trans h.4, h'.5.trans h.5,
    h'.6.trans h.6⟩

/-- Counting tokens leaves the blocks and the budgets alone. -/
structure SameBudgets (s s' : Scheduler) : Prop where
  blockAllocator : s'.blockManager.blockAllocator = s.blockManager.blockAllocator
  budget : s'.budget = s.budget
  partialPrefillMetadata : s'.partialPrefillMetadata = s.partialPrefillMetadata

instance : IsPreorder Scheduler SameBudgets where
  refl _ := ⟨rfl, rfl, rfl⟩
  trans _ _ _ h h' := ⟨h'.1.trans h.1, h'.2.trans h.2, h'.3.trans h.3⟩

namespace SchedM
variable {p : SchedulerParams} {s s' : Scheduler} {id : SeqId} {g : SequenceGroup} {u k n : Int} {c : Bool}

/-- A waiting group with tokens, in front of a step whose budgets are untouched. -/
structure Ready (p : SchedulerParams) (c : Bool) (id : SeqId) (g : SequenceGroup) (s : Scheduler) : Prop where
  group : s.groups.get? id = some g
  waiting : g.status = .waiting
  uncounted : g.numComputedTokens = 0
  isPrefill : g.isPrefill = true
  tokens : g.getTokenIds ≠ []
  policy : p.chunkedPrefillEnabled = c
  budget : s.budget = SchedulingBudget.init p.maxNumBatchedTokens p.maxNumSeqs
  metadata : ∀ m, s.partialPrefillMetadata = some m →
    c = true ∧ m.longPrefills = 0 ∧ m.schedulablePrefills ≤ p.maxNumPartialPrefills
  room : s.blockManager.canAllocate p.toManagerParams g 0 = some .ok ∨
    s.blockManager.canAllocate p.toManagerParams g 0 = some .never

theorem Ready.same (h : Ready p c id g s) (r : SameRoom s s') : Ready p c id g s' :=
  ⟨by rw [r.groups]; exact h.group, h.waiting, h.uncounted, h.isPrefill, h.tokens, h.policy,
    r.budget.trans h.budget, by rw [r.partialPrefillMetadata]; exact h.metadata,
    by rw [r.blockManager]; exact h.room⟩

/-! ## Chunks -/

/-- Every slot budget holds a block, if the smallest one does. -/
theorem budgetLookup_of_le {j : Nat} (hj : j ≤ p.maxNumPartialPrefills)
    (hone : 1 ≤ p.maxNumPartialPrefills)
    (hfit : (p.blockSize : Int) ≤ p.maxNumBatchedTokens / p.maxNumPartialPrefills) {slot : Int}
    (h : (partialPrefillBudgetLookupList p)[j]? = some slot) :
    (p.blockSize : Int) ≤ slot ∧ slot ≤ p.maxNumBatchedTokens := by
  have hpos := p.pos
  have hall : (p.blockSize : Int) * p.maxNumPartialPrefills ≤ p.maxNumBatchedTokens :=
    (Int.le_ediv_iff_mul_le (by omega)).mp hfit
  have share (i : Nat) (hi : 1 ≤ i) (hle : i ≤ p.maxNumPartialPrefills) :
      (p.blockSize : Int) * i ≤ p.maxNumBatchedTokens :=
    (Int.mul_le_mul_of_nonneg_left (by omega) (by omega)).trans hall
  cases j with
  | zero =>
    obtain rfl := Option.some.inj h
    have := share 1 le_rfl hone
    omega
  | succ i =>
    rw [partialPrefillBudgetLookupList, List.getElem?_cons_succ, List.getElem?_map,
      List.getElem?_range (by omega), Option.map_some, Option.some.injEq] at h
    rw [← h]
    refine ⟨(Int.le_ediv_iff_mul_le (by omega)).mpr (share (i + 1) (by omega) hj), ?_⟩
    have := share 1 le_rfl hone
    exact Int.ediv_le_self _ (by omega)

/-- A step that has scheduled nothing gives a prefill a chunk. -/
theorem chunkNewTokensToSchedule_pos (hb : BudgetsFit p) (hc : p.chunkedPrefillEnabled = true)
    (hbudget : s.budget = SchedulingBudget.init p.maxNumBatchedTokens p.maxNumSeqs)
    (hm : ∀ m, s.partialPrefillMetadata = some m → m.schedulablePrefills ≤ p.maxNumPartialPrefills)
    (hn : 0 < n) (h : chunkNewTokensToSchedule p n s = some (k, s')) :
    0 < k ∧ k ≤ p.maxNumBatchedTokens := by
  obtain ⟨hone, -, hfit⟩ := hb.chunks hc
  have hpos := p.pos
  have hremaining : s.budget.remainingTokenBudget = p.maxNumBatchedTokens := by
    rw [hbudget]
    exact Int.sub_zero _
  have hwhole : (p.blockSize : Int) ≤ p.maxNumBatchedTokens ∧
      p.maxNumBatchedTokens ≤ p.maxNumBatchedTokens :=
    budgetLookup_of_le (Nat.zero_le _) hone hfit rfl
  rw [chunkNewTokensToSchedule, read_bind] at h
  obtain ⟨slot, s₁, h₁, h⟩ := bind_iff.mp h
  have hslot : (p.blockSize : Int) ≤ slot ∧ slot ≤ p.maxNumBatchedTokens := by
    cases hmeta : s.partialPrefillMetadata with
    | none =>
      rw [hmeta] at h₁
      rw [(pure_iff.mp h₁).1, hremaining]
      exact hwhole
    | some m =>
      rw [hmeta] at h₁
      exact budgetLookup_of_le (hm m hmeta) hone hfit (ofOption_iff.mp h₁).1
  have hk := (pure_iff.mp h).1
  rw [hremaining] at hk
  -- a block fits the rounded budget
  have hround : (p.blockSize : Int) ≤ min p.maxNumBatchedTokens slot / p.blockSize * p.blockSize := by
    have hone : 1 ≤ min p.maxNumBatchedTokens slot / (p.blockSize : Int) :=
      (Int.le_ediv_iff_mul_le (by omega)).mpr (by omega)
    have := Int.mul_le_mul_of_nonneg_right hone (show (0 : Int) ≤ p.blockSize by omega)
    omega
  omega

theorem getNumNewTokens_room (p : SchedulerParams) (g : SequenceGroup) :
    Within SameBudgets (getNumNewTokens p g) := by
  have onManager {α : Type} {x : ManagerM α} (h : Within SameBlocks x) :
      Within SameBudgets (SchedM.onManager x) := .zoom h fun _ _ h => ⟨h.blockAllocator, rfl, rfl⟩
  have cached (d : Device) : Within SameBudgets (getNumCachedTokens p g d) :=
    onManager (ManagerM.getNumCachedTokens_same _ g d)
  exact .ite (.pure _) (.bind (.ite (.pure _) (.bind (cached _) fun _ => .bind (cached _) fun _ => .pure _))
    fun _ => .pure _)

theorem getNumNewTokens_pos (hg : g.isPrefill = true) (h0 : g.numComputedTokens = 0)
    (ht : g.getTokenIds ≠ []) (h : getNumNewTokens p g s = some ((u, k), s')) : 0 < u := by
  have hlen : 0 < g.getLen := by
    have := List.length_pos_of_ne_nil ht
    unfold SequenceGroup.getLen
    omega
  unfold getNumNewTokens at h
  rw [if_neg (by rw [hg]; decide)] at h
  obtain ⟨cached, s₁, -, h⟩ := bind_iff.mp h
  have e := (pure_iff.mp h).1
  split at e
  · obtain ⟨rfl, -⟩ := Prod.mk.inj e
    omega
  · obtain ⟨rfl, -⟩ := Prod.mk.inj e
    omega

/-! ## The first waiting group -/

theorem getNumNewUncachedAndCachedTokens_room (r : Ready p c id g s) (hb : BudgetsFit p)
    (h : getNumNewUncachedAndCachedTokens p g .waiting c s = some ((u, k), s')) :
    SameQueues s s' ∧ s'.blockManager.blockAllocator = s.blockManager.blockAllocator ∧
      s'.budget = s.budget ∧ 0 < u ∧ (u + k ≤ getPromptLimit p → u ≤ p.maxNumBatchedTokens) := by
  have q := getNumNewUncachedAndCachedTokens_same p g _ c _ _ _ h
  unfold getNumNewUncachedAndCachedTokens at h
  rw [if_neg (by rw [r.waiting]; decide)] at h
  obtain ⟨⟨u', k'⟩, s₁, h₁, h⟩ := bind_iff.mp h
  have hpos := getNumNewTokens_pos r.isPrefill r.uncounted r.tokens h₁
  obtain ⟨-, hk⟩ := getNumNewTokens_split r.isPrefill
    (by rw [r.uncounted]; exact g.getLen_nonneg) h₁
  have kept := getNumNewTokens_room p g _ _ _ h₁
  dsimp only at h
  cases c with
  | true =>
    rw [if_pos rfl] at h
    obtain ⟨n, s₂, h₂, h₃⟩ := bind_iff.mp h
    have chunk := chunkNewTokensToSchedule_pos hb r.policy (by rw [kept.budget]; exact r.budget)
      (fun m hm => (r.metadata m (kept.partialPrefillMetadata.symm.trans hm)).2.2) hpos h₂
    obtain ⟨-, rfl⟩ := chunkNewTokensToSchedule_spec h₂
    obtain ⟨e, rfl⟩ := pure_iff.mp h₃
    obtain ⟨rfl, rfl⟩ := Prod.mk.inj e
    exact ⟨q, kept.blockAllocator, kept.budget, chunk.1, fun _ => chunk.2⟩
  | false =>
    rw [if_neg Bool.false_ne_true] at h
    obtain ⟨e, rfl⟩ := pure_iff.mp h
    obtain ⟨rfl, rfl⟩ := Prod.mk.inj e
    refine ⟨q, kept.blockAllocator, kept.budget, hpos, fun hle => ?_⟩
    have hpolicy := r.policy
    unfold getPromptLimit at hle
    rw [if_neg (by rw [hpolicy]; decide)] at hle
    omega

/-- With the budgets untouched and the blocks not in the way, the first group is accepted or ignored. -/
theorem prefillStep_decides {step : PrefillStep} (r : Ready p c id g s) (hb : BudgetsFit p)
    (h : prefillStep p id c s = some (step, s')) :
    step = .ignore ∨ ∃ u k, step = .accept u k := by
  rw [prefillStep, getGroup_bind, r.group, Option.bind_some] at h
  simp only [require_bind, Option.ite_none_right_eq_some, read_bind] at h
  obtain ⟨-, h⟩ := h
  -- no long prefill is under way
  have fits : ¬ s.partialPrefillMetadata.any (fun m => !partialPrefillCanSchedule p m g) = true := by
    intro hany
    rw [Option.any_eq_true] at hany
    obtain ⟨m, hm, hno⟩ := hany
    obtain ⟨hc, hzero, -⟩ := r.metadata m hm
    obtain ⟨-, hlong, -⟩ := hb.chunks (r.policy.trans hc)
    have hlong' : ¬ m.longPrefills ≥ p.maxLongPartialPrefills := by
      rw [hzero]
      omega
    simp [partialPrefillCanSchedule, hlong'] at hno
  rw [if_neg fits] at h
  obtain ⟨⟨u, k⟩, s₁, h₁, h⟩ := bind_iff.mp h
  obtain ⟨q, blocks, budget, hpos, hle⟩ := getNumNewUncachedAndCachedTokens_room r hb h₁
  simp only [require_bind, Option.ite_none_right_eq_some] at h
  obtain ⟨-, h⟩ := h
  have ignored {x y : SchedM Unit} {t : Scheduler}
      (hs : (do x; y; pure PrefillStep.ignore) t = some (step, s')) : step = .ignore := by
    obtain ⟨_, s₂, -, hs⟩ := bind_iff.mp hs
    obtain ⟨_, s₃, -, hs⟩ := bind_iff.mp hs
    exact (pure_iff.mp hs).1
  split at h
  · exact .inl (ignored h)
  rename_i hlimit
  have hroom : s₁.blockManager.canAllocate p.toManagerParams g 0 =
      s.blockManager.canAllocate p.toManagerParams g 0 := by
    unfold BlockSpaceManager.canAllocate
    rw [blocks]
  simp only [read_bind, ofOption_bind, hroom] at h
  rcases r.room with room | room
  · rw [room, Option.bind_some] at h
    have hu := hle (by omega)
    have htokens := hb.tokens
    have hseqs := hb.seqs
    have hone : g.getMaxNumRunningSeqs = 1 := by
      rw [SequenceGroup.getMaxNumRunningSeqs, SequenceGroup.isFinished, r.waiting]
      rfl
    have hinit := budget.trans r.budget
    have can : s₁.budget.canSchedule u g.getMaxNumRunningSeqs = some true := by
      rw [hinit, hone, SchedulingBudget.canSchedule, if_pos (by omega)]
      refine congrArg some (decide_eq_true ⟨?_, ?_⟩)
      · show 0 + u ≤ p.maxNumBatchedTokens
        omega
      · show 0 + 1 ≤ p.maxNumSeqs
        omega
    dsimp only at h
    rw [if_neg (by rw [hinit]; show ¬ (0 : Int) ≥ _; omega), if_neg (by omega)] at h
    simp only [ofOption_bind, can, Option.bind_some, Bool.true_eq_false, if_false] at h
    exact .inr ⟨u, k, (pure_iff.mp h).1⟩
  · rw [room, Option.bind_some] at h
    exact .inl (ignored h)

/-! ## The loop -/

theorem time_room : Within SameRoom time := by
  refine .bind .read fun s => ?_
  split
  · exact .raise
  · exact .bind (.update fun _ => ⟨rfl, rfl, rfl, rfl, rfl, rfl⟩) fun _ => .pure _

theorem getGroups_room (queue : List SeqId) : Within SameRoom (getGroups queue) :=
  .mapM (fun _ => .bind .read fun _ => .ofOption _) _

theorem passedDelay_room (now : Int) : Within SameRoom (passedDelay p now) :=
  .bind (.update fun _ => ⟨rfl, rfl, rfl, rfl, rfl, rfl⟩) fun _ => .bind .read fun _ =>
    .ite (.bind (getGroups_room _) fun _ => .bind (.ofOption _) fun _ => .pure _) (.pure _)

/-- With nothing running no delay is waited for. -/
theorem passedDelay_idle {now : Int} {b : Bool} (hr : s.running = [])
    (h : passedDelay p now s = some (b, s')) : b = true := by
  obtain ⟨_, s₀, h₀, h⟩ := bind_iff.mp h
  have hr₀ : s₀.running = [] := by
    rw [update_iff.mp h₀]
    exact hr
  rw [read_bind] at h
  split at h
  · obtain ⟨gs, s₁, h₁, h⟩ := bind_iff.mp h
    obtain ⟨earliest, s₂, h₂, h⟩ := bind_iff.mp h
    rw [(pure_iff.mp h).1, decide_eq_true_eq]
    exact .inr hr₀
  · exact (pure_iff.mp h).1

/-- The loop stops before its fuel does: every round takes a group from the waiting queue. -/
theorem schedulePrefillsLoop_fuel {fuel : Nat} {ret : SchedulerPrefillOutputs} {left : List SeqId}
    (hf : s.waiting.length < fuel) :
    schedulePrefillsLoop p c (fuel + 1) ret left s = schedulePrefillsLoop p c fuel ret left s := by
  induction fuel generalizing s ret left with
  | zero => exact absurd hf (Nat.not_lt_zero _)
  | succ fuel ih =>
    refine bind_congr fun now s₁ h₁ => bind_congr fun passed s₂ h₂ => ?_
    have hlen : s₂.waiting.length < fuel + 1 := by
      rw [(IsTrans.trans _ _ _ (time_room _ _ _ h₁) (passedDelay_room _ _ _ _ h₂)).waiting]
      exact hf
    rw [read_bind, read_bind]
    cases hw : s₂.waiting with
    | nil => rfl
    | cons id rest =>
      have hrest : rest.length < fuel := by
        rw [hw, List.length_cons] at hlen
        omega
      dsimp only
      split
      · rfl
      refine bind_congr fun step s₃ h₃ => ?_
      cases step with
      | stop => rfl
      | leave => exact ih hrest
      | ignore => exact ih hrest
      | accept u k =>
        dsimp only
        rw [update_bind, update_bind]
        refine bind_congr fun ret' s₄ h₄ => ih ?_
        rw [(admitPrefill_lists _ _ _ _ _ _ _ _ h₄).waiting]
        exact hrest

/-- Something is scheduled or ignored. -/
def SomeDone (ret : SchedulerPrefillOutputs) : Prop := ret.seqGroups ≠ [] ∨ ret.ignoredSeqGroups ≠ []

theorem schedulePrefillsLoop_keeps {fuel : Nat} {ret ret' : SchedulerPrefillOutputs} {left left' : List SeqId}
    (h : schedulePrefillsLoop p c fuel ret left s = some ((ret', left'), s')) (h0 : SomeDone ret) :
    SomeDone ret' := by
  refine schedulePrefillsLoop_rule (fun _ ret _ => SomeDone ret) c (fun _ _ _ _ _ i => i)
    (fun _ _ _ _ _ _ i => i) ?_ ?_ h h0
  · intro t id rest t' ret left _ _ _
    exact .inr (by simp)
  · intro t id rest u k t₁ ret ret' t' left _ _ _ ha
    obtain ⟨g, pairs, s₂, s₃, -, -, -, -, rfl⟩ := admitPrefill_spec ha
    exact .inl (by simp)

theorem schedulePrefills_progress {rest : List SeqId} {ret : SchedulerPrefillOutputs}
    (r : Ready p c id g s) (hb : BudgetsFit p) (hw : s.waiting = id :: rest) (hr : s.running = [])
    (h : schedulePrefills p c s = some (ret, s')) : SomeDone ret := by
  have hremaining : ¬ s.budget.remainingTokenBudget = 0 := by
    have := hb.tokens
    rw [r.budget]
    show ¬ p.maxNumBatchedTokens - 0 = 0
    omega
  rw [schedulePrefills, read_bind, if_neg hremaining] at h
  obtain ⟨⟨ret₁, left⟩, s₁, h₁, h⟩ := bind_iff.mp h
  simp only [update_bind, pure_iff] at h
  obtain ⟨rfl, rfl⟩ := h
  -- the first round
  obtain ⟨now, s₂, h₂, h₁⟩ := bind_iff.mp h₁
  obtain ⟨passed, s₃, h₃, h₁⟩ := bind_iff.mp h₁
  have room₂ := time_room _ _ _ h₂
  have room₃ := IsTrans.trans _ _ _ room₂ (passedDelay_room _ _ _ _ h₃)
  have hpassed := passedDelay_idle (room₂.running.trans hr) h₃
  simp only [read_bind, room₃.waiting, hw, hpassed, Bool.true_eq_false, if_false] at h₁
  obtain ⟨step, s₄, h₄, h₁⟩ := bind_iff.mp h₁
  rcases prefillStep_decides (r.same room₃) hb h₄ with rfl | ⟨u, k, rfl⟩
  · simp only [update_bind] at h₁
    exact schedulePrefillsLoop_keeps h₁ (.inr (by simp))
  · simp only [update_bind] at h₁
    obtain ⟨ret₂, s₅, h₅, h₁⟩ := bind_iff.mp h₁
    obtain ⟨g', pairs, s₆, s₇, -, -, -, -, rfl⟩ := admitPrefill_spec h₅
    exact schedulePrefillsLoop_keeps h₁ (.inl (by simp))

/-! ## Policies -/

theorem scheduleRunning_idle {ret : SchedulerRunningOutputs} (hr : s.running = [])
    (h : scheduleRunning p none c s = some (ret, s')) : ret = .empty ∧ s' = s := by
  simp only [scheduleRunning, read_bind, require_bind, Option.ite_none_right_eq_some, hr,
    scheduleRunningLoop] at h
  exact pure_iff.mp h.2

/-- What is known of a group before its first `schedule`. -/
structure FirstWaiting (p : SchedulerParams) (id : SeqId) (g : SequenceGroup) (s : Scheduler) : Prop where
  group : s.groups.get? id = some g
  waiting : g.status = .waiting
  uncounted : g.numComputedTokens = 0
  isPrefill : g.isPrefill = true
  tokens : g.getTokenIds ≠ []
  room : s.blockManager.canAllocate p.toManagerParams g 0 = some .ok ∨
    s.blockManager.canAllocate p.toManagerParams g 0 = some .never
  idle : s.running = []
  swapped : s.swapped = []
  pending : s.pendingFinishedSwapOut = []

/-- An output that schedules or ignores a group. -/
def MakesProgress (o : SchedulerOutputs) : Prop := o.scheduledSeqGroups ≠ [] ∨ o.ignoredSeqGroups ≠ []

theorem scheduleDefault_progress {rest : List SeqId} {o : SchedulerOutputs} (f : FirstWaiting p id g s)
    (hb : BudgetsFit p) (hc : p.chunkedPrefillEnabled = false) (hw : s.waiting = id :: rest)
    (h : scheduleDefault p none s = some (o, s')) : MakesProgress o := by
  rw [scheduleDefault, read_bind, f.idle] at h
  obtain ⟨gs, s₁, h₁, h⟩ := bind_iff.mp h
  obtain ⟨rfl, e₁⟩ := pure_iff.mp h₁
  rw [e₁, update_bind, if_pos ⟨f.swapped, f.pending⟩] at h
  have r : Ready p false id g { s with
      budget := SchedulingBudget.init p.maxNumBatchedTokens p.maxNumSeqs
      partialPrefillMetadata := none } :=
    ⟨f.group, f.waiting, f.uncounted, f.isPrefill, f.tokens, hc, rfl, fun _ hm => (by cases hm), f.room⟩
  obtain ⟨prefills, s₂, h₂, h⟩ := bind_iff.mp h
  have done := schedulePrefills_progress r hb hw f.idle h₂
  obtain ⟨_, s₃, -, h⟩ := bind_iff.mp h
  obtain ⟨running, s₄, -, h⟩ := bind_iff.mp h
  obtain ⟨_, s₅, -, h⟩ := bind_iff.mp h
  simp only [update_bind, require_bind, Option.ite_none_right_eq_some, read_bind, makeOutputs_iff] at h
  obtain ⟨-, -, rfl, -⟩ := h
  rcases done with done | done
  · exact .inl (by simp [done])
  · exact .inr done

theorem scheduleChunkedPrefill_progress {rest : List SeqId} {o : SchedulerOutputs}
    (f : FirstWaiting p id g s) (hb : BudgetsFit p) (hc : p.chunkedPrefillEnabled = true)
    (hw : s.waiting = id :: rest) (h : scheduleChunkedPrefill p none s = some (o, s')) :
    MakesProgress o := by
  rw [scheduleChunkedPrefill, read_bind, f.idle] at h
  obtain ⟨runningGroups, s₁, h₁, h⟩ := bind_iff.mp h
  obtain ⟨rfl, rfl⟩ := pure_iff.mp h₁
  obtain ⟨waitingGroups, s₂, h₂, h⟩ := bind_iff.mp h
  have room := getGroups_room _ _ _ _ h₂
  have q := getGroups_same _ _ _ _ h₂
  simp only [update_bind] at h
  obtain ⟨running, s₃, h₃, h⟩ := bind_iff.mp h
  obtain ⟨rfl, rfl⟩ := scheduleRunning_idle (by exact room.running.trans f.idle) h₃
  have r : Ready p true id g { s₂ with
      budget := SchedulingBudget.init p.maxNumBatchedTokens p.maxNumSeqs
      partialPrefillMetadata := some (fromQueues p [] waitingGroups) } :=
    ⟨room.groups ▸ f.group, f.waiting, f.uncounted, f.isPrefill, f.tokens, hc, rfl,
      fun m hm => by
        obtain rfl := Option.some.inj hm
        exact ⟨rfl, rfl, Nat.min_le_right _ _⟩,
      room.blockManager ▸ f.room⟩
  have hout : (!SchedulerRunningOutputs.empty.blocksToSwapOut.isEmpty ||
      !s₂.pendingFinishedSwapOut.isEmpty) = false := by
    rw [q.pending, f.pending]
    rfl
  rw [read_bind] at h
  dsimp only at h
  rw [if_pos hout] at h
  obtain ⟨prefills, s₄, h₄, h⟩ := bind_iff.mp h
  have done := schedulePrefills_progress r hb (room.waiting.trans hw) (room.running.trans f.idle) h₄
  obtain ⟨_, s₅, -, h⟩ := bind_iff.mp h
  obtain ⟨finishing, s₆, -, h⟩ := bind_iff.mp h
  simp only [update_bind, read_bind, makeOutputs_iff] at h
  obtain ⟨-, rfl, -⟩ := h
  rcases done with done | done
  · exact .inl (by simp [done])
  · exact .inr done

/-! ## `schedule` -/

/-- The group that the coming `schedule` looks at first. -/
def firstWaiting (s : Scheduler) : Option SeqId := (sortByQueryId s.waiting s).bind fun x => x.1.head?

theorem sortByQueryId_reads (queue : List SeqId) : Within Eq (sortByQueryId queue) :=
  .ite (.pure _) (.bind (.mapM (fun _ => .bind (.bind .read fun _ => .ofOption _) fun _ =>
    .bind (.ofOption _) fun _ => .pure _) _) fun _ => .pure _)

theorem scheduleQueues_progress {o : SchedulerOutputs} (f : FirstWaiting p id g s) (hb : BudgetsFit p)
    (hfirst : firstWaiting s = some id) (h : scheduleQueues p none s = some (o, s')) : MakesProgress o := by
  obtain ⟨⟨sorted, s₀⟩, h₀, hhead⟩ := Option.bind_eq_some_iff.mp hfirst
  rw [scheduleQueues, read_bind] at h
  obtain ⟨waiting, s₂, h₂, h⟩ := bind_iff.mp h
  obtain ⟨hsorted, -⟩ := Prod.mk.inj (Option.some.inj (h₀.symm.trans h₂))
  have e₂ := sortByQueryId_reads _ _ _ _ h₂
  rw [← e₂, f.idle] at h
  obtain ⟨running, s₃, h₃, h⟩ := bind_iff.mp h
  obtain ⟨hrunning, e₃⟩ := pure_iff.mp (show (pure [] : SchedM (List SeqId)) s = some (running, s₃) from h₃)
  rw [e₃, update_bind] at h
  obtain ⟨rest, hrest⟩ : ∃ rest, waiting = id :: rest := by
    cases waiting with
    | nil =>
      rw [hsorted] at hhead
      cases hhead
    | cons x rest =>
      rw [hsorted] at hhead
      exact ⟨rest, by rw [Option.some.inj hhead]⟩
  have first : FirstWaiting p id g { s with waiting := waiting, running := running } :=
    ⟨f.group, f.waiting, f.uncounted, f.isPrefill, f.tokens, f.room, hrunning, f.swapped, f.pending⟩
  split at h
  · exact scheduleChunkedPrefill_progress first hb ‹_› hrest h
  · exact scheduleDefault_progress first hb (Bool.eq_false_iff.mpr ‹_›) hrest h

/-- `schedule` takes the first waiting group, or ignores it. -/
theorem schedule_progress {o : List SequenceGroupMetadata × SchedulerOutputs} (f : FirstWaiting p id g s)
    (hb : BudgetsFit p) (hfirst : firstWaiting s = some id) (h : schedule p none s = some (o, s')) :
    MakesProgress o.2 := by
  obtain ⟨outputs, s₁, h₁, h⟩ := bind_iff.mp h
  have done := scheduleQueues_progress f hb hfirst h₁
  simp only [read_bind, update_bind] at h
  obtain ⟨now, s₂, -, h⟩ := bind_iff.mp h
  obtain ⟨metadata, s₃, -, h⟩ := bind_iff.mp h
  obtain ⟨_, s₄, -, h⟩ := bind_iff.mp h
  obtain ⟨rfl, -⟩ := pure_iff.mp h
  exact done

end SchedM

end CoreFlow
