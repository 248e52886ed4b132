import CoreFlow.Scheduler.Schedule

/-!
# What admitted groups are charged

`_schedule_prefills` adds `num_new_tokens_uncached` of each admitted group to the budget, which keeps
the sum only. Here its loop and a chunked `schedule` up to it run again with the list of the charges.
-/

namespace CoreFlow
open Prog

namespace SchedM
variable (p : SchedulerParams)

/-- The loop of `_schedule_prefills`; `charges` holds what each of `ret.seqGroups` is charged. -/
def chargedPrefillsLoop (enableChunking : Bool) : Nat → SchedulerPrefillOutputs → List SeqId → List Int →
    SchedM ((SchedulerPrefillOutputs × List SeqId) × List Int)
  | 0, _, _, _ => Prog.raise
  | n + 1, ret, leftover, charges => do
    let now ← time
    let passed ← passedDelay p now
    let s ← Prog.read
    match s.waiting with
    | [] => pure ((ret, leftover), charges)
    | seqId :: rest =>
      if passed = false then pure ((ret, leftover), charges)
      else do
        let popleft : SchedM Unit := Prog.update fun s => { s with waiting := rest }
        match ← prefillStep p seqId enableChunking with
        | .stop => pure ((ret, leftover), charges)
        | .leave => do
          popleft
          chargedPrefillsLoop enableChunking n ret (seqId :: leftover) charges
        | .ignore => do
          popleft
          chargedPrefillsLoop enableChunking n
            { ret with ignoredSeqGroups := ret.ignoredSeqGroups ++ [seqId] } leftover charges
        | .accept numUncached numCached => do
          popleft
          let ret ← admitPrefill p seqId numUncached numCached ret
          chargedPrefillsLoop enableChunking n ret leftover (charges ++ [numUncached])

/-- The charges of `_schedule_prefills`. -/
def prefillCharges (enableChunking : Bool) : SchedM (List Int) := do
  let s ← Prog.read
  if s.budget.remainingTokenBudget = 0 then pure []
  else do
    let (_, charges) ← chargedPrefillsLoop p enableChunking (s.waiting.length + 1) .empty [] []
    pure charges

/-- The charges of a chunked `schedule`, for the groups that it schedules from `waiting`. -/
def admissionCharges : SchedM (List Int) := do
  let s ← Prog.read
  let waiting ← sortByQueryId s.waiting
  let running ← sortByQueryId s.running
  Prog.update fun s => { s with waiting := waiting, running := running }
  let s ← Prog.read
  let runningGroups ← getGroups s.running
  let waitingGroups ← getGroups s.waiting
  Prog.update fun s =>
    { s with
      budget := SchedulingBudget.init p.maxNumBatchedTokens p.maxNumSeqs
      partialPrefillMetadata := some (fromQueues p runningGroups waitingGroups) }
  let running ← scheduleRunning p none true
  let s ← Prog.read
  let hasSwapOut := !running.blocksToSwapOut.isEmpty || !s.pendingFinishedSwapOut.isEmpty
  if hasSwapOut = false then prefillCharges p true else pure []

variable {p}

/-- The loop does the same with and without the list of the charges. -/
theorem schedulePrefillsLoop_charged {c : Bool} {fuel : Nat} {ret : SchedulerPrefillOutputs} {left : List SeqId}
    {x : SchedulerPrefillOutputs × List SeqId} {s s' : Scheduler}
    (h : schedulePrefillsLoop p c fuel ret left s = some (x, s')) (charges : List Int) :
    ∃ charges', chargedPrefillsLoop p c fuel ret left charges s = some ((x, charges'), s') := by
  induction fuel generalizing s ret left charges with
  | zero => exact (raise_iff.mp h).elim
  | succ fuel ih =>
    obtain ⟨now, s₁, h₁, h⟩ := bind_iff.mp h
    obtain ⟨passed, s₂, h₂, h⟩ := bind_iff.mp h
    rw [chargedPrefillsLoop, bind_eq h₁, bind_eq h₂, read_bind]
    rw [read_bind] at h
    cases hw : s₂.waiting with
    | nil =>
      simp only [hw, pure_iff] at h ⊢
      exact ⟨charges, by rw [h.1], h.2⟩
    | cons id rest =>
      simp only [hw] at h ⊢
      split at h
      · rename_i hpassed
        rw [if_pos hpassed]
        obtain ⟨rfl, rfl⟩ := pure_iff.mp h
        exact ⟨charges, rfl⟩
      rename_i hpassed
      rw [if_neg hpassed]
      obtain ⟨step, s₃, h₃, h⟩ := bind_iff.mp h
      rw [bind_eq h₃]
      cases step with
      | stop =>
        obtain ⟨rfl, rfl⟩ := pure_iff.mp h
        exact ⟨charges, rfl⟩
      | leave =>
        simp only [update_bind] at h ⊢
        exact ih h charges
      | ignore =>
        simp only [update_bind] at h ⊢
        exact ih h charges
      | accept numUncached numCached =>
        simp only [update_bind] at h ⊢
        obtain ⟨ret₁, s₄, h₄, h⟩ := bind_iff.mp h
        rw [bind_eq h₄]
        exact ih h _

/-- `_schedule_prefills` with its charges: there are none without a budget, and else those of its loop. -/
theorem schedulePrefills_charged {c : Bool} {ret : SchedulerPrefillOutputs} {s s' : Scheduler}
    (h : schedulePrefills p c s = some (ret, s')) :
    ret = .empty ∧ s' = s ∧ prefillCharges p c s = some ([], s) ∨
      ∃ left charges s₁ prevPrompt,
        chargedPrefillsLoop p c (s.waiting.length + 1) .empty [] [] s = some (((ret, left), charges), s₁) ∧
        prefillCharges p c s = some (charges, s₁) ∧
        s' = { s₁ with waiting := left.reverse ++ s₁.waiting, prevPrompt := prevPrompt } := by
  rw [schedulePrefills, read_bind] at h
  rw [prefillCharges, read_bind]
  split at h
  · rename_i hzero
    obtain ⟨rfl, rfl⟩ := pure_iff.mp h
    rw [if_pos hzero]
    exact .inl ⟨rfl, rfl, rfl⟩
  · rename_i hzero
    obtain ⟨⟨ret₁, left⟩, s₁, h₁, h⟩ := bind_iff.mp h
    simp only [update_bind, pure_iff] at h
    obtain ⟨rfl, rfl⟩ := h
    obtain ⟨charges, hc⟩ := schedulePrefillsLoop_charged h₁ []
    rw [if_neg hzero, bind_eq hc]
    exact .inr ⟨left, charges, s₁, _, hc, rfl, rfl⟩

end SchedM

end CoreFlow
