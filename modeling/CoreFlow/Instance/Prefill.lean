import CoreFlow.Instance.Counts

/-!
# Prefilling behind a synthetic cached prefix

A request whose `cached_tokens` cover a part of its prompt goes through chunked-prefill steps. What
the rest of the scheduler looks like, and how much budget it leaves, is arbitrary in each of them.
-/

namespace CoreFlow
open Prog SchedM

/-- What a step can still give to one prefill: the tokens left in the batch and in its slot. -/
def availableBudget (p : SchedulerParams) (s : Scheduler) : Int :=
  let remaining := s.budget.remainingTokenBudget
  match s.partialPrefillMetadata with
  | none => remaining
  | some m => min remaining (((partialPrefillBudgetLookupList p)[m.schedulablePrefills]?).getD remaining)

/-- The request brings cached tokens, and fewer than its prompt has. -/
structure PartlyCached (g : SequenceGroup) : Prop where
  pos : 0 < getInitialCachedTokens g
  lt : getInitialCachedTokens g < g.getPromptLen

/-! ## Steps -/

/-- A chunked-prefill step schedules a request: its record before, its chunk, and its record when the
batch is made. The budget of a step counts a request once. -/
inductive Scheduled (p : SchedulerParams) (id : SeqId) (g : SequenceGroup) : Int → SequenceGroup → Prop where
  /-- `_schedule_prefills` admits it. -/
  | admitted {s s₁ s₂ : Scheduler} {numUncached numCached chunk : Int} {rest : List SeqId}
      {ret ret' : SchedulerPrefillOutputs} {g₁ : SequenceGroup} (before : s.groups.get? id = some g)
      (accept : prefillStep p id true s = some (.accept numUncached numCached, s₁))
      (admission : admitPrefill p id numUncached numCached ret { s₁ with waiting := rest } = some (ret', s₂))
      (entry : ret'.seqGroups = ret.seqGroups ++ [⟨id, chunk⟩])
      (after : s₂.groups.get? id = some g₁) : Scheduled p id g chunk g₁
  /-- `_schedule_running` continues it, after it has made room. -/
  | continued {s s₁ s₂ s₃ : Scheduler} {n k chunk : Int} {ret ret' : SchedulerRunningOutputs}
      (count : getNumNewUncachedAndCachedTokens p g .running true s = some ((n, k), s₁)) (nonzero : n ≠ 0)
      (before : s₂.groups.get? id = some g) (once : g.requestId ∉ s₂.budget.requestIdsNumBatchedTokens)
      (schedule : scheduleRunningGroup p id n true ret s₂ = some (ret', s₃))
      (entry : ret'.prefillSeqGroups = ret.prefillSeqGroups ++ [⟨id, chunk⟩] ∨
        ret'.decodeSeqGroups = ret.decodeSeqGroups ++ [⟨id, chunk⟩]) : Scheduled p id g chunk g

/-- What happens to a request; `record` is the one the batch is made from. -/
inductive RequestEvent where
  | scheduled (record : SequenceGroup) (chunk : Int) (doSample : Bool)
  | restarted

/-- The request is scheduled and its output is processed, or it is preempted. -/
inductive RequestStep (p : SchedulerParams) (id : SeqId) (g : SequenceGroup) :
    RequestEvent → SequenceGroup → Prop where
  | scheduled {s s' t t' : Scheduler} {g₁ g' : SequenceGroup} {chunk now : Int}
      {m : SequenceGroupMetadata} {o : SampleOutput} {b : Bool} (schedule : Scheduled p id g chunk g₁)
      (batch : s.groups.get? id = some g₁) (make : groupMetadata p now ⟨id, chunk⟩ s = some (m, s'))
      (done : t.groups.get? id = some g₁) (process : EngineM.processGroup p m o t = some (b, t'))
      (after : t'.groups.get? id = some g') : RequestStep p id g (.scheduled g₁ chunk m.doSample) g'
  | restarted {s s' : Scheduler} {g' : SequenceGroup} {x : PreemptionMode × List SwapPair}
      (before : s.groups.get? id = some g) (running : g.status = .running)
      (preempts : preempt p id s = some (x, s')) (after : s'.groups.get? id = some g') :
      RequestStep p id g .restarted g'

/-- A run of a request, with its latest event first. -/
inductive RequestRun (p : SchedulerParams) (id : SeqId) (g₀ : SequenceGroup) :
    List RequestEvent → SequenceGroup → Prop where
  | nil : RequestRun p id g₀ [] g₀
  | cons {es : List RequestEvent} {e : RequestEvent} {g g' : SequenceGroup} (run : RequestRun p id g₀ es g)
      (step : RequestStep p id g e g') : RequestRun p id g₀ (e :: es) g'

/-- The prefill steps since the request last started. -/
def prefillSteps : List RequestEvent → Nat
  | [] => 0
  | .restarted :: _ => 0
  | .scheduled g _ _ :: es => prefillSteps es + if g.isPrefill then 1 else 0

/-! ## Chunks -/

section Chunks
variable {p : SchedulerParams} {s s' : Scheduler} {g : SequenceGroup} {u k n : Int}

theorem chunkNewTokensToSchedule_eq (h : chunkNewTokensToSchedule p n s = some (k, s')) :
    k = min n (availableBudget p s / p.blockSize * p.blockSize) := by
  rw [chunkNewTokensToSchedule, read_bind] at h
  obtain ⟨slot, s₁, h₁, h⟩ := bind_iff.mp h
  have available : availableBudget p s = min s.budget.remainingTokenBudget slot := by
    unfold availableBudget
    cases hm : s.partialPrefillMetadata with
    | none =>
      rw [hm] at h₁
      rw [(pure_iff.mp h₁).1]
      exact (min_self _).symm
    | some m =>
      rw [hm] at h₁
      show min _ (((partialPrefillBudgetLookupList p)[m.schedulablePrefills]?).getD _) = _
      rw [(ofOption_iff.mp h₁).1, Option.getD_some]
  obtain ⟨rfl, -⟩ := pure_iff.mp h
  have hround := Int.ediv_mul_le (availableBudget p s) (show (p.blockSize : Int) ≠ 0 by have := p.pos; omega)
  rw [← available]
  omega

/-- The tokens behind the cached prefix, or behind the computed ones, if there are more of these. -/
theorem getNumNewTokens_partlyCached (hc : PartlyCached g) (hg : g.isPrefill = true)
    (hlt : g.numComputedTokens < g.getLen) (h : getNumNewTokens p g s = some ((u, k), s')) :
    u = g.getLen - max (getInitialCachedTokens g) g.numComputedTokens ∧ s' = s := by
  have hprompt := g.getPromptLen_le
  have hcached := hc.lt
  unfold getNumNewTokens at h
  rw [if_neg (by rw [hg]; decide)] at h
  obtain ⟨cached, s₁, h₁, h₂⟩ := bind_iff.mp h
  unfold getCachedTokensSeq at h₁
  rw [if_pos hc.pos] at h₁
  obtain ⟨rfl, rfl⟩ := pure_iff.mp h₁
  obtain ⟨e, rfl⟩ := pure_iff.mp h₂
  refine ⟨?_, rfl⟩
  split at e
  · omega
  · obtain ⟨rfl, -⟩ := Prod.mk.inj e
    omega

theorem getNumNewUncachedAndCachedTokens_partlyCached (hc : PartlyCached g) (hg : g.isPrefill = true)
    (hlt : g.numComputedTokens < g.getLen)
    (h : getNumNewUncachedAndCachedTokens p g g.status true s = some ((n, k), s')) :
    n = min (g.getLen - max (getInitialCachedTokens g) g.numComputedTokens)
      (availableBudget p s / p.blockSize * p.blockSize) ∧ s' = s := by
  unfold getNumNewUncachedAndCachedTokens at h
  rw [if_neg (by simp)] at h
  obtain ⟨⟨u, k'⟩, s₁, h₁, hchunk⟩ := bind_iff.mp h
  obtain ⟨hu, rfl⟩ := getNumNewTokens_partlyCached hc hg hlt h₁
  dsimp only at hchunk
  rw [if_pos rfl] at hchunk
  obtain ⟨n', s₂, h₂, hpair⟩ := bind_iff.mp hchunk
  have hs := (chunkNewTokensToSchedule_spec h₂).2
  obtain ⟨e, rfl⟩ := pure_iff.mp hpair
  obtain ⟨rfl, -⟩ := Prod.mk.inj e
  rw [← hu]
  exact ⟨chunkNewTokensToSchedule_eq h₂, hs⟩

/-- A budget has a whole block exactly if its rounding leaves something. -/
theorem round_pos_iff {b x : Int} (hb : 0 < b) : 0 < x / b * b ↔ b ≤ x := by
  constructor
  · intro h
    have hq : 0 < x / b := by
      by_contra hq
      have := Int.mul_le_mul_of_nonneg_right (show x / b ≤ 0 by omega) hb.le
      omega
    have := Int.ediv_mul_le x hb.ne'
    have := Int.mul_le_mul_of_nonneg_right (show 1 ≤ x / b from hq) hb.le
    omega
  · intro h
    have hq : 0 < x / b := (Int.le_ediv_iff_mul_le hb).mpr (by omega)
    exact Int.mul_pos hq hb

/-- The request gets a chunk exactly if the budget has room for a block. -/
theorem chunk_pos_iff (hc : PartlyCached g) (hg : g.isPrefill = true) (hlt : g.numComputedTokens < g.getLen)
    (h : getNumNewUncachedAndCachedTokens p g g.status true s = some ((n, k), s')) :
    0 < n ↔ (p.blockSize : Int) ≤ availableBudget p s := by
  obtain ⟨rfl, -⟩ := getNumNewUncachedAndCachedTokens_partlyCached hc hg hlt h
  have hprompt := g.getPromptLen_le
  have hcached := hc.lt
  rw [← round_pos_iff (show (0 : Int) < p.blockSize by have := p.pos; omega)]
  omega

end Chunks

/-! ## What one step keeps -/

/-- The record of a request after `steps` prefill steps: each has computed a token, and the prefill is
over when none is left. -/
structure Prefilling (g : SequenceGroup) (steps : Nat) : Prop extends PartlyCached g where
  steps : steps ≤ g.numComputedTokens
  left : g.isPrefill = true → g.numComputedTokens < g.getLen
  new : g.status = .waiting → g.numComputedTokens = 0 ∧ g.isPrefill = true

/-- What a step that schedules the request has chosen. -/
structure Chunked (p : SchedulerParams) (g : SequenceGroup) (chunk : Int) (g₁ : SequenceGroup) : Prop where
  running : g₁.status = .running
  sameCache : getInitialCachedTokens g₁ = getInitialCachedTokens g
  samePrompt : g₁.getPromptLen = g.getPromptLen
  sameStage : g₁.isPrefill = g.isPrefill
  pos : 1 ≤ chunk
  fits : g₁.isPrefill = true → g₁.numComputedTokens + chunk ≤ g₁.getLen
  grows : g.numComputedTokens ≤ g₁.numComputedTokens
  continued : g.status = .running → g₁ = g
  registered : g.status = .waiting →
    (p.blockSize : Int) ∣ g₁.numComputedTokens ∧ g₁.numComputedTokens ≤ getInitialCachedTokens g

section Step
variable {p : SchedulerParams} {s s' : Scheduler} {id : SeqId} {g g₁ g' : SequenceGroup} {chunk u k : Int}
  {steps : Nat}

/-- With room for a block, a waiting request is turned away for want of blocks or sequences only. -/
theorem prefillStep_stops (hi : Prefilling g steps) (hg : s.groups.get? id = some g)
    (hbudget : s.budget.tokenBudget = p.maxNumBatchedTokens)
    (hroom : (p.blockSize : Int) ≤ availableBudget p s) (h : prefillStep p id true s = some (.stop, s')) :
    s.blockManager.canAllocate p.toManagerParams g 0 = some .later ∨
      s.budget.maxNumSeqs < s.budget.numCurrSeqs + 1 := by
  obtain ⟨g₀, hg₀, hw, hleave | ⟨u, k, s₁, hcount, ends, -⟩⟩ := prefillStep_ends h
  · cases hleave
  obtain rfl : g = g₀ := Option.some.inj (hg.symm.trans hg₀)
  have hpre := (hi.new hw).2
  rw [← hw] at hcount
  have hpos := (chunk_pos_iff hi.toPartlyCached hpre (hi.left hpre) hcount).mpr hroom
  obtain ⟨hu, rfl⟩ := getNumNewUncachedAndCachedTokens_partlyCached hi.toPartlyCached hpre (hi.left hpre) hcount
  have hremaining : availableBudget p s₁ ≤ s₁.budget.remainingTokenBudget := by
    unfold availableBudget
    cases s₁.partialPrefillMetadata with
    | none => exact le_rfl
    | some m => exact min_le_left _ _
  have hround := Int.ediv_mul_le (availableBudget p s₁) (show (p.blockSize : Int) ≠ 0 by have := p.pos; omega)
  have hp := p.pos
  unfold SchedulingBudget.remainingTokenBudget at hremaining
  cases ends with
  | noBlocks hblocks => exact .inl hblocks
  | noBudget hfull => omega
  | noTokens hzero => omega
  | noRoom hfull =>
    have hone : g.getMaxNumRunningSeqs = 1 := by
      rw [SequenceGroup.getMaxNumRunningSeqs, SequenceGroup.isFinished, hw]
      rfl
    rw [SchedulingBudget.canSchedule, if_pos (by omega), hone, Option.some.injEq,
      decide_eq_false_iff_not] at hfull
    exact .inr (by omega)

/-- With room for a block, `_schedule_running` goes on with the request at the front of its queue. -/
theorem scheduleRunningLoop_takes (hi : Prefilling g steps) (hpre : g.isPrefill = true)
    (hr : g.status = .running) (hg : s.groups.get? id = some g) {rest : List SeqId}
    (hq : s.running = id :: rest) (hroom : (p.blockSize : Int) ≤ availableBudget p s) {fuel : Nat}
    {ret ret' : SchedulerRunningOutputs}
    (h : scheduleRunningLoop p none true (fuel + 1) ret s = some (ret', s')) : ∃ n ret₁ s₁, 0 < n ∧
      preemptUntilFits p none id n true (rest.length + 1) ret { s with running := rest } = some (ret₁, s₁) ∧
      scheduleRunningLoop p none true fuel ret₁ s₁ = some (ret', s') := by
  rw [scheduleRunningLoop, read_bind, hq] at h
  simp only [getGroup_bind, hg, Option.bind_some] at h
  obtain ⟨⟨n, k⟩, s₁, h₁, hrest⟩ := bind_iff.mp h
  rw [← hr] at h₁
  have hpos := (chunk_pos_iff hi.toPartlyCached hpre (hi.left hpre) h₁).mpr hroom
  obtain ⟨-, rfl⟩ := getNumNewUncachedAndCachedTokens_partlyCached hi.toPartlyCached hpre (hi.left hpre) h₁
  dsimp only at hrest
  rw [if_neg (by omega)] at hrest
  simp only [update_bind, Option.isSome_none, Bool.false_eq_true, false_and, if_false] at hrest
  obtain ⟨ret₁, s₂, h₂, h₃⟩ := bind_iff.mp hrest
  exact ⟨n, ret₁, s₂, hpos, h₂, h₃⟩

/-- Only the cached prefix is registered on admission, in whole blocks. -/
theorem Registered.partlyCached (hc : PartlyCached g) (h0 : g.numComputedTokens = 0) (hg : g.isPrefill = true)
    {entry : Option GpuCachedEntry} (h : Registered p (syntheticPrefixLen p g entry) g g') :
    (p.blockSize : Int) ∣ g'.numComputedTokens ∧ 0 ≤ g'.numComputedTokens ∧
      g'.numComputedTokens ≤ getInitialCachedTokens g ∧ g'.isPrefill = true := by
  rcases h with rfl | ⟨l, n, hl, hn, hpos, hdvd, hset⟩
  · rw [h0]
    exact ⟨Int.dvd_zero _, le_rfl, hc.pos.le, hg⟩
  · have hround := roundCachedTokens_le (p := p) (min (getInitialCachedTokens g) (max (g.getPromptLen - 1) 0))
    have hprompt := g.getPromptLen_le
    have hlt := hc.lt
    rw [syntheticPrefixLen, if_pos hc.pos, Option.some.injEq] at hl
    rw [SequenceGroup.updateNumComputedTokens, Option.ite_none_right_eq_some, Option.some.injEq, h0] at hset
    obtain ⟨-, rfl⟩ := hset
    simp only [Int.sub_zero, Int.zero_add]
    refine ⟨hdvd, by omega, by omega, ?_⟩
    show decide ((if g.getLen - n = 0 then SequenceStage.decode else g.stage) = .prefill) = true
    rw [if_neg (by omega)]
    exact hg

/-- An admitted request gets a chunk of what lies behind its cached prefix. -/
theorem chunked_of_admitted {s₁ s₂ : Scheduler} {rest : List SeqId} {ret ret' : SchedulerPrefillOutputs}
    (hi : Prefilling g steps) (before : s.groups.get? id = some g)
    (accept : prefillStep p id true s = some (.accept u k, s₁))
    (admission : admitPrefill p id u k ret { s₁ with waiting := rest } = some (ret', s₂))
    (entry : ret'.seqGroups = ret.seqGroups ++ [⟨id, chunk⟩]) (after : s₂.groups.get? id = some g₁) :
    Chunked p g chunk g₁ := by
  obtain ⟨g₀, hg₀, hw, hpos, hcount⟩ := prefillStep_accept accept
  obtain rfl : g = g₀ := Option.some.inj (before.symm.trans hg₀)
  obtain ⟨h0, hpre⟩ := hi.new hw
  rw [← hw] at hcount
  obtain ⟨hu, rfl⟩ := getNumNewUncachedAndCachedTokens_partlyCached hi.toPartlyCached hpre (hi.left hpre) hcount
  obtain ⟨g₀, pairs, s₃, s₄, hg₀, h₃, h₄, q, rfl⟩ := admitPrefill_spec admission
  obtain rfl : g = g₀ := Option.some.inj (before.symm.trans hg₀)
  obtain ⟨-, ⟨g', hreg, groups₃⟩, -⟩ := allocateAndSetRunning_spec hg₀ h₃
  have groups : s₂.groups = s₁.groups.set id { g' with status := .running } :=
    (q.groups.trans (consumeExactGpuCacheHit_spec h₄).1).trans groups₃
  rw [groups, Dict.get?_set_self, Option.some.injEq] at after
  subst after
  -- the cached prefix makes the chunk the uncached tokens alone
  have hchunk : chunk = u := by
    have hsyn : (syntheticPrefixLen p g (entryOf g s₁.blockManager)).isSome = true := by
      rw [syntheticPrefixLen, if_pos hi.pos]
      rfl
    have := List.append_cancel_left entry
    simp only [List.cons.injEq, ScheduledSequenceGroup.mk.injEq, true_and, and_true] at this
    rw [← this]
    exact if_pos hsyn
  obtain ⟨-, -, prompt, output, -, args⟩ := hreg.frame
  obtain ⟨hdvd, hnonneg, hle, hpre'⟩ := Registered.partlyCached hi.toPartlyCached h0 hpre hreg
  have hinit : getInitialCachedTokens { g' with status := .running } = getInitialCachedTokens g := by
    unfold getInitialCachedTokens
    rw [show ({ g' with status := .running } : SequenceGroup).extraArgs = g.extraArgs from args]
  have hlen : g'.getLen = g.getLen := by
    unfold SequenceGroup.getLen SequenceGroup.getTokenIds
    rw [prompt, output]
  refine ⟨rfl, hinit, ?_, hpre'.trans hpre.symm, by omega, fun _ => ?_, ?_, fun hr => ?_, fun _ => ⟨hdvd, hle⟩⟩
  · show (g'.promptTokenIds.length : Int) = g.promptTokenIds.length
    rw [prompt]
  · show g'.numComputedTokens + chunk ≤ g'.getLen
    omega
  · show g.numComputedTokens ≤ g'.numComputedTokens
    omega
  · rw [hw] at hr
    cases hr

theorem appendSlots_budget {cows : List (BlockId × BlockId)} (h : appendSlots p id s = some (cows, s')) :
    s'.groups = s.groups ∧ s'.budget = s.budget := by
  refine ⟨(appendSlots_same p _ _ _ _ h).groups, ?_⟩
  rw [appendSlots, getGroup_bind, Option.bind_eq_some_iff] at h
  obtain ⟨g, -, h⟩ := h
  split at h
  · obtain ⟨m, -, rfl⟩ := onManager_iff.mp h
    rfl
  · rw [(pure_iff.mp h).2]

/-- A running request gets a chunk of what is not computed, or one token once its prefill is over. -/
theorem chunked_of_continued {s₁ s₂ s₃ : Scheduler} {n : Int} {ret ret' : SchedulerRunningOutputs}
    (hi : Prefilling g steps)
    (count : getNumNewUncachedAndCachedTokens p g .running true s = some ((n, k), s₁)) (nonzero : n ≠ 0)
    (before : s₂.groups.get? id = some g) (once : g.requestId ∉ s₂.budget.requestIdsNumBatchedTokens)
    (schedule : scheduleRunningGroup p id n true ret s₂ = some (ret', s₃))
    (entry : ret'.prefillSeqGroups = ret.prefillSeqGroups ++ [⟨id, chunk⟩] ∨
      ret'.decodeSeqGroups = ret.decodeSeqGroups ++ [⟨id, chunk⟩]) : Chunked p g chunk g := by
  have hr : g.status = .running := by
    by_contra hne
    unfold getNumNewUncachedAndCachedTokens at count
    rw [if_pos hne] at count
    exact nonzero (Prod.mk.inj (pure_iff.mp count).1).1
  obtain ⟨cows, t, h₁, hrest⟩ := bind_iff.mp schedule
  obtain ⟨groups, budget⟩ := appendSlots_budget h₁
  rw [getGroup_bind, groups, before, Option.bind_some] at hrest
  simp only [read_bind, ofOption_bind, Option.bind_eq_some_iff] at hrest
  obtain ⟨b, hb, hrest⟩ := hrest
  obtain ⟨_, t', -, hrest⟩ := bind_iff.mp hrest
  obtain ⟨rfl, -⟩ := pure_iff.mp hrest
  -- the budget refuses a negative chunk
  rw [budget, SchedulingBudget.addNumBatchedTokens, if_neg once, Option.ite_none_right_eq_some] at hb
  have stays {l : List ScheduledSequenceGroup} {x : ScheduledSequenceGroup} (h : l = l ++ [x]) : False := by
    have := congrArg List.length h
    simp at this
  have hsame : g.status = .waiting → (p.blockSize : Int) ∣ g.numComputedTokens ∧
      g.numComputedTokens ≤ getInitialCachedTokens g := by
    intro hw
    rw [hr] at hw
    cases hw
  cases hpre : g.isPrefill with
  | true =>
    simp only [hpre, if_true] at entry
    have hchunk : chunk = n := by
      rcases entry with entry | entry
      · have := List.append_cancel_left entry
        simp only [List.cons.injEq, ScheduledSequenceGroup.mk.injEq, true_and, and_true] at this
        exact this.symm
      · exact (stays entry).elim
    have hle := getNumNewUncachedAndCachedTokens_within hpre (hi.left hpre).le count
    exact ⟨hr, rfl, rfl, rfl, by omega, fun _ => by omega, le_rfl, fun _ => rfl, hsame⟩
  | false =>
    simp only [hpre, Bool.false_eq_true, if_false] at entry
    have hchunk : chunk = 1 := by
      rcases entry with entry | entry
      · exact (stays entry).elim
      · have := List.append_cancel_left entry
        simp only [List.cons.injEq, ScheduledSequenceGroup.mk.injEq, true_and, and_true] at this
        exact this.symm
    exact ⟨hr, rfl, rfl, rfl, hchunk.ge, fun h => (by rw [hpre] at h; cases h), le_rfl, fun _ => rfl, hsame⟩

theorem Scheduled.chunked (hi : Prefilling g steps) (h : Scheduled p id g chunk g₁) : Chunked p g chunk g₁ := by
  cases h with
  | admitted before accept admission entry after => exact chunked_of_admitted hi before accept admission entry after
  | continued count nonzero before once schedule entry =>
    exact chunked_of_continued hi count nonzero before once schedule entry

theorem PartlyCached.same (h : PartlyCached g) (args : g'.extraArgs = g.extraArgs)
    (prompt : g'.promptTokenIds = g.promptTokenIds) : PartlyCached g' := by
  have hinit : getInitialCachedTokens g' = getInitialCachedTokens g := by
    unfold getInitialCachedTokens
    rw [args]
  have hlen : g'.getPromptLen = g.getPromptLen := by
    unfold SequenceGroup.getPromptLen
    rw [prompt]
  exact ⟨by rw [hinit]; exact h.pos, by rw [hinit, hlen]; exact h.lt⟩

/-- Processing the output counts the chunk, and the token is sampled by the step that computes the last
one. -/
structure Counts (g₁ : SequenceGroup) (chunk : Int) (doSample : Bool) (g' : SequenceGroup) : Prop where
  counted : g'.numComputedTokens = g₁.numComputedTokens + chunk
  samples : g₁.isPrefill = true → (doSample = true ↔ g'.numComputedTokens = g₁.getLen)
  stage : g₁.isPrefill = true → (g'.isPrefill = false ↔ g'.numComputedTokens = g₁.getLen)

theorem RequestStep.counts {doSample : Bool} (hi : Prefilling g steps)
    (h : RequestStep p id g (.scheduled g₁ chunk doSample) g') : Chunked p g chunk g₁ ∧
      Counts g₁ chunk doSample g' ∧ Prefilling g' (steps + if g₁.isPrefill then 1 else 0) := by
  cases h with
  | scheduled schedule batch make done process after =>
    have hc := schedule.chunked hi
    obtain ⟨hid, hchunk, g₀, hg₀, -, hsample⟩ := groupMetadata_spec make
    obtain rfl : g₁ = g₀ := Option.some.inj (batch.symm.trans hg₀)
    rename_i m o b
    have hid : m.seqId = id := hid
    have hchunk : m.tokenChunkSize = chunk := hchunk
    have hf : g₁.isFinished = false := by
      rw [SequenceGroup.isFinished, hc.running]
      rfl
    obtain ⟨g₂, tokens, status, hg₂, groups, -, hstatus⟩ :=
      EngineM.processGroup_record (by rw [hid]; exact done) hf process
    rw [groups, hid, Dict.get?_set_self, Option.some.injEq] at after
    rw [SequenceGroup.updateNumComputedTokens, Option.ite_none_right_eq_some, Option.some.injEq, hchunk] at hg₂
    obtain ⟨hle, rfl⟩ := hg₂
    have sample (hpre : g₁.isPrefill = true) :
        m.doSample = true ↔ g₁.numComputedTokens + chunk = g₁.getLen := by
      rw [hsample, hpre, Bool.true_and, Bool.not_eq_true', decide_eq_false_iff_not]
      show ¬ chunk + g₁.numComputedTokens < g₁.getLen ↔ _
      omega
    have stage : g'.isPrefill = true ↔ g₁.isPrefill = true ∧ g₁.numComputedTokens + chunk ≠ g₁.getLen := by
      rw [← after]
      show decide ((if g₁.getLen - (g₁.numComputedTokens + chunk) = 0 then SequenceStage.decode
        else g₁.stage) = .prefill) = true ↔ decide (g₁.stage = .prefill) = true ∧ _
      rw [decide_eq_true_eq, decide_eq_true_eq]
      split
      · simp
        omega
      · simp
        omega
    have counted : g'.numComputedTokens = g₁.numComputedTokens + chunk := by rw [← after]
    have longer : g₁.getLen ≤ g'.getLen := by
      rw [← after]
      unfold SequenceGroup.getLen SequenceGroup.getTokenIds
      simp only [List.length_append]
      omega
    have partly : PartlyCached g' :=
      (PartlyCached.mk (by rw [hc.sameCache]; exact hi.pos)
        (by rw [hc.sameCache, hc.samePrompt]; exact hi.lt) : PartlyCached g₁).same (by rw [← after]) (by rw [← after])
    refine ⟨hc, ⟨counted, fun hpre => ?_, fun hpre => ?_⟩, ⟨partly, ?_, fun hpre => ?_, fun hw => ?_⟩⟩
    · rw [counted]
      exact sample hpre
    · rw [counted, ← Bool.not_eq_true, stage]
      simp [hpre]
    · have := hi.steps
      have := hc.grows
      have := hc.pos
      rw [counted]
      split <;> omega
    · obtain ⟨hpre₁, hne⟩ := stage.mp hpre
      have := hc.fits hpre₁
      omega
    · rw [← after] at hw
      rcases hstatus with rfl | hstatus
      · cases hc.running.symm.trans hw
      · rw [show status = .waiting from hw] at hstatus
        cases hstatus

theorem RequestStep.restarts (hi : Prefilling g steps) (h : RequestStep p id g .restarted g') :
    Prefilling g' 0 := by
  cases h with
  | restarted before running preempts after =>
    rw [(preempt_spec before running preempts).1, Dict.get?_set_self, Option.some.injEq] at after
    have hlen : 0 < g.getLen := by
      have := hi.pos
      have := hi.lt
      have := g.getPromptLen_le
      omega
    rw [← after]
    exact ⟨hi.toPartlyCached.same rfl rfl, le_rfl, fun _ => hlen, fun _ => ⟨rfl, rfl⟩⟩

end Step

/-! ## Runs -/

section Run
variable {p : SchedulerParams} {id : SeqId} {g₀ g : SequenceGroup} {es : List RequestEvent}

theorem RequestRun.prefilling (h : RequestRun p id g₀ es g) (h0 : Prefilling g₀ 0) :
    Prefilling g (prefillSteps es) := by
  induction h with
  | nil => exact h0
  | @cons es e g g' run step ih =>
    cases e with
    | scheduled g₁ chunk doSample => exact (step.counts ih).2.2
    | restarted => exact step.restarts ih

theorem prefilling_init {requestId : RequestId} {promptTokenIds : List TokenId} {args : ExtraArgs}
    {priority arrivalTime : Int} (hpos : 0 < args.cachedTokens)
    (hlt : args.cachedTokens < promptTokenIds.length) :
    Prefilling (.init requestId id promptTokenIds (some args) priority arrivalTime) 0 := by
  have hinit : getInitialCachedTokens
      (SequenceGroup.init requestId id promptTokenIds (some args) priority arrivalTime) = args.cachedTokens :=
    max_eq_right hpos.le
  refine ⟨⟨by rw [hinit]; exact hpos, by rw [hinit]; exact hlt⟩, le_rfl, fun _ => ?_, fun _ => ⟨rfl, rfl⟩⟩
  show (0 : Int) < ((promptTokenIds ++ []).length : Int)
  rw [List.append_nil]
  omega

/-- What holds of a partly cached request after any run. -/
structure PrefillsOnce (p : SchedulerParams) (id : SeqId) (es : List RequestEvent) (g : SequenceGroup) :
    Prop where
  /-- A chunk is taken from what is not computed, and is counted once. -/
  chunk : ∀ g₁ chunk doSample g', RequestStep p id g (.scheduled g₁ chunk doSample) g' →
    g₁.isPrefill = true → 1 ≤ chunk ∧ chunk ≤ g₁.getLen - g₁.numComputedTokens ∧
      g'.numComputedTokens = g₁.numComputedTokens + chunk
  /-- The step that computes the last token samples and ends the prefill, and no earlier one does. -/
  samples : ∀ g₁ chunk doSample g', RequestStep p id g (.scheduled g₁ chunk doSample) g' →
    g₁.isPrefill = true → (doSample = true ↔ g'.numComputedTokens = g₁.getLen) ∧
      (g'.isPrefill = false ↔ g'.numComputedTokens = g₁.getLen)
  /-- Between two steps nothing is counted; on admission, whole blocks of the cached prefix are. -/
  registered : ∀ g₁ chunk doSample g', RequestStep p id g (.scheduled g₁ chunk doSample) g' →
    (g.status = .running → g₁ = g) ∧ (g.status = .waiting → (p.blockSize : Int) ∣ g₁.numComputedTokens ∧
      0 ≤ g₁.numComputedTokens ∧ g₁.numComputedTokens ≤ getInitialCachedTokens g)
  /-- The budget of a step gives it a chunk exactly if it has room for a block. -/
  room : ∀ s s' n k, g.isPrefill = true →
    getNumNewUncachedAndCachedTokens p g g.status true s = some ((n, k), s') →
      (0 < n ↔ (p.blockSize : Int) ≤ availableBudget p s)
  /-- With that room, a waiting request is admitted unless blocks or sequences run out … -/
  admitted : ∀ s s', s.groups.get? id = some g → s.budget.tokenBudget = p.maxNumBatchedTokens →
    (p.blockSize : Int) ≤ availableBudget p s → prefillStep p id true s = some (.stop, s') →
      s.blockManager.canAllocate p.toManagerParams g 0 = some .later ∨
        s.budget.maxNumSeqs < s.budget.numCurrSeqs + 1
  /-- … and a running one is continued. -/
  continued : ∀ s s' rest fuel ret ret', g.isPrefill = true → g.status = .running →
    s.groups.get? id = some g → s.running = id :: rest → (p.blockSize : Int) ≤ availableBudget p s →
      scheduleRunningLoop p none true (fuel + 1) ret s = some (ret', s') → ∃ n ret₁ s₁, 0 < n ∧
        preemptUntilFits p none id n true (rest.length + 1) ret { s with running := rest } = some (ret₁, s₁) ∧
        scheduleRunningLoop p none true fuel ret₁ s₁ = some (ret', s')
  /-- Every prefill step since the start has computed a token, so a prefill has fewer than `getLen`. -/
  reaches : g.isPrefill = true → (prefillSteps es : Int) ≤ g.numComputedTokens ∧ g.numComputedTokens < g.getLen

end Run

/-- Seven tokens in blocks of two, three of them cached, and a budget of four. -/
def sevenParams : SchedulerParams := { smallParams with maxNumBatchedTokens := 4, numTotalGpuBlocks := 8 }

def sevenRequest : SequenceGroup :=
  .init "q1_a" 0 [5, 6, 7, 8, 9, 10, 11] (some ⟨none, none, 3, false, false, none⟩) 0 0

def sevenStep : Scheduler :=
  { Scheduler.init sevenParams with
    groups := Dict.empty.set 0 sevenRequest
    budget := SchedulingBudget.init 4 4
    clock := [1] }

/-- Blocks of four; a request of one token, and one of two whose first token is cached. -/
def blockParams : SchedulerParams :=
  { smallParams with blockSize := 4, pos := by decide, maxNumBatchedTokens := 4 }

def leftoverRun : List EngineOp :=
  [.addSeqGroup "q0_a" [1] none 0 0,
   .addSeqGroup "q1_b" [5, 6] (some ⟨none, none, 1, false, false, none⟩) 0 0,
   .schedule [1, 1, 1, 1, 1]]

end CoreFlow
