import CoreFlow.Scheduler.Frame
import CoreFlow.Scheduler.Charges
import Mathlib.Data.List.Sort

/-!
# Rules for the loops of the scheduler

One rule a loop: an invariant that `SameQueues` cannot break, and that each kind of round keeps, holds
at the end. The `_steps` rules also take invariants that look at the trackers, which `SameQueues` says
nothing about. Output processing is synchronous here, so there is no callback.
-/

namespace CoreFlow.SchedM
open Prog
variable {p : SchedulerParams} {s s' : Scheduler}

/-! ## Sorting -/

theorem sortByQueryId_perm {queue sorted : List SeqId}
    (h : sortByQueryId queue s = some (sorted, s')) : sorted.Perm queue := by
  unfold sortByQueryId at h
  split at h
  · obtain ⟨rfl, -⟩ := pure_iff.mp h
    exact .refl _
  · simp only [bind_iff, pure_iff] at h
    obtain ⟨keys, s₁, h₁, rfl, -⟩ := h
    have hk : keys.map Prod.fst = queue := by
      rw [← List.map_id queue]
      refine mapM_map_eq (fun id t b t' hb => ?_) h₁
      simp only [bind_iff, pure_iff] at hb
      obtain ⟨g, -, -, key, -, -, rfl, -⟩ := hb
      rfl
    exact ((List.perm_insertionSort _ keys).map Prod.fst).trans (.of_eq hk)

theorem sortedByPriority_perm {queue sorted : List SeqId}
    (h : sortedByPriority queue s = some (sorted, s')) : sorted.Perm queue := by
  simp only [sortedByPriority, bind_iff, pure_iff] at h
  obtain ⟨gs, s₁, h₁, rfl, -⟩ := h
  refine ((List.perm_insertionSort _ (queue.zip gs)).map Prod.fst).trans (.of_eq ?_)
  exact List.map_fst_zip (mapM_length h₁).ge

/-! ## The running queue -/

section Running
variable (I : Option (SeqId × Int) → Scheduler → SchedulerRunningOutputs → Prop) (c : Bool)
  (idle : ∀ cur s s' ret, SameBudget s s' → I cur s ret → I cur s' ret)
  (lower : ∀ id n s ret g, I (some (id, n)) s ret → s.groups.get? id = some g →
    I (some (id, n)) { s with
      budget := (s.budget.subtractNumBatchedTokens g.requestId n).subtractNumSeqs g.requestId
        g.getMaxNumRunningSeqs } ret)
  (fits : ∀ id n s ret ret' s', I (some (id, n)) s ret →
    scheduleRunningGroup p id n c ret s = some (ret', s') → I none s' ret')
  (victim : ∀ cur v s ret ret' s', I (some cur) s ret → s.running.getLast? = some v →
    preemptVictim p none v ret { s with running := s.running.dropLast } = some (ret', s') →
      I (some cur) s' ret')
  (last : ∀ id n s ret ret' s', I (some (id, n)) s ret → s.running = [] →
    preemptVictim p none id ret s = some (ret', s') → I none s' ret')
include idle lower fits victim last

theorem preemptUntilFits_rule {id : SeqId} {n : Int} {fuel : Nat} {ret ret' : SchedulerRunningOutputs}
    (h : preemptUntilFits p none id n c fuel ret s = some (ret', s')) (h0 : I (some (id, n)) s ret) :
    I none s' ret' := by
  induction fuel generalizing s ret with
  | zero => exact (raise_iff.mp h).elim
  | succ fuel ih =>
    obtain ⟨ok, s₁, h₁, h⟩ := bind_iff.mp h
    have i₁ := idle _ _ _ _ (canAppendSlots_budget p id _ _ _ h₁) h0
    split at h
    · exact fits _ _ _ _ _ _ i₁ h
    · rw [getGroup_bind, Option.bind_eq_some_iff] at h
      obtain ⟨g, hg, h⟩ := h
      rw [modifyBudget, update_bind] at h
      have i₂ := lower _ _ _ _ _ i₁ hg
      rw [read_bind] at h
      cases hl : s₁.running.getLast? with
      | none =>
        rw [hl] at h
        exact last _ _ _ _ _ _ i₂ (List.getLast?_eq_none_iff.mp hl) h
      | some v =>
        rw [hl] at h
        simp only [update_bind] at h
        obtain ⟨ret₁, s₃, h₃, h⟩ := bind_iff.mp h
        exact ih h (victim _ _ _ _ _ _ i₂ hl h₃)

/-- The rule for an invariant that counting the tokens of a running group can touch. -/
theorem scheduleRunningLoop_steps
    (count : ∀ s s' id rest g x ret, I none s ret → s.running = id :: rest → s.groups.get? id = some g →
      getNumNewUncachedAndCachedTokens p g .running c s = some (x, s') → I none s' ret)
    (take : ∀ s₀ s id rest g n k ret, I none s ret → s.running = id :: rest →
      s.groups.get? id = some g → n ≠ 0 →
      getNumNewUncachedAndCachedTokens p g .running c s₀ = some ((n, k), s) →
      I (some (id, n)) { s with running := rest } ret)
    {fuel : Nat} {ret ret' : SchedulerRunningOutputs}
    (h : scheduleRunningLoop p none c fuel ret s = some (ret', s')) (h0 : I none s ret) :
    I none s' ret' := by
  induction fuel generalizing s ret with
  | zero => exact (raise_iff.mp h).elim
  | succ fuel ih =>
    rw [scheduleRunningLoop, read_bind] at h
    cases hr : s.running with
    | nil =>
      rw [hr] at h
      obtain ⟨rfl, rfl⟩ := pure_iff.mp h
      exact h0
    | cons id rest =>
      rw [hr] at h
      simp only [getGroup_bind, Option.bind_eq_some_iff] at h
      obtain ⟨g, hg, h⟩ := h
      obtain ⟨⟨n, k⟩, s₁, h₁, h⟩ := bind_iff.mp h
      have q := getNumNewUncachedAndCachedTokens_same p g _ c _ _ _ h₁
      have i₁ := count _ _ _ _ _ _ _ h0 hr hg h₁
      split at h
      · obtain ⟨rfl, rfl⟩ := pure_iff.mp h
        exact i₁
      · rename_i hn
        simp only [update_bind, Option.isSome_none, Bool.false_eq_true, false_and, if_false] at h
        obtain ⟨ret₁, s₂, h₂, h⟩ := bind_iff.mp h
        have i₂ := take s s₁ id rest g n k ret i₁ (q.running.trans hr) (by rw [q.groups]; exact hg) hn h₁
        exact ih h (preemptUntilFits_rule I c idle lower fits victim last h₂ i₂)

end Running

theorem scheduleRunningLoop_rule (I : Option (SeqId × Int) → Scheduler → SchedulerRunningOutputs → Prop)
    (c : Bool) (quiet : ∀ cur s s' ret, SameQueues s s' → I cur s ret → I cur s' ret)
    (fits : ∀ id n s ret ret' s', I (some (id, n)) s ret →
      scheduleRunningGroup p id n c ret s = some (ret', s') → I none s' ret')
    (victim : ∀ cur v s ret ret' s', I (some cur) s ret → s.running.getLast? = some v →
      preemptVictim p none v ret { s with running := s.running.dropLast } = some (ret', s') →
        I (some cur) s' ret')
    (last : ∀ id n s ret ret' s', I (some (id, n)) s ret → s.running = [] →
      preemptVictim p none id ret s = some (ret', s') → I none s' ret')
    (take : ∀ s₀ s id rest g n k ret, I none s ret → s.running = id :: rest →
      s.groups.get? id = some g → n ≠ 0 →
      getNumNewUncachedAndCachedTokens p g .running c s₀ = some ((n, k), s) →
      I (some (id, n)) { s with running := rest } ret)
    {fuel : Nat} {ret ret' : SchedulerRunningOutputs}
    (h : scheduleRunningLoop p none c fuel ret s = some (ret', s')) (h0 : I none s ret) :
    I none s' ret' :=
  scheduleRunningLoop_steps I c (fun _ _ _ _ q i => quiet _ _ _ _ q.toSameContent.queues i)
    (fun _ _ s _ _ i _ => quiet _ s _ _ ⟨⟨rfl, rfl, refl _⟩, rfl, rfl, rfl, rfl, rfl⟩ i) fits victim last
    (fun _ _ _ _ g _ _ i _ _ hs => quiet _ _ _ _ (getNumNewUncachedAndCachedTokens_same p g _ c _ _ _ hs) i)
    take h h0

/-! ## The waiting queue -/

/-- The ways in which the tests of a round end, once the tokens of the group are counted. -/
theorem prefillStep_cases {id : SeqId} {c : Bool} {step : PrefillStep}
    (h : prefillStep p id c s = some (step, s')) :
    ∃ g, s.groups.get? id = some g ∧ g.status = .waiting ∧ (step = .leave ∧ s' = s ∨
      ∃ u k s₁, getNumNewUncachedAndCachedTokens p g .waiting c s = some ((u, k), s₁) ∧
        (step = .stop ∧ removeSeqFromComputedBlocksTracker id .waiting s₁ = some ((), s') ∨
          step = .ignore ∧ removeSeqFromComputedBlocksTracker id .finishedIgnored
            { s₁ with groups := s₁.groups.set id { g with status := .finishedIgnored } } = some ((), s') ∨
          step = .accept u k ∧ s' = s₁)) := by
  rw [prefillStep, getGroup_bind, Option.bind_eq_some_iff] at h
  obtain ⟨g, hg, h⟩ := h
  simp only [require_bind, Option.ite_none_right_eq_some, read_bind] at h
  obtain ⟨hw, h⟩ := h
  refine ⟨g, hg, hw, ?_⟩
  split at h
  · exact .inl (pure_iff.mp h)
  obtain ⟨⟨u, k⟩, s₁, h₁, h⟩ := bind_iff.mp h
  have q₁ := getNumNewUncachedAndCachedTokens_same p g _ c _ _ _ h₁
  have hg₁ : s₁.groups.get? id = some g := by rw [q₁.groups]; exact hg
  simp only [require_bind, Option.ite_none_right_eq_some] at h
  obtain ⟨-, h⟩ := h
  refine .inr ⟨u, k, s₁, h₁, ?_⟩
  have stopped (hs : (do removeSeqFromComputedBlocksTracker id .waiting; pure PrefillStep.stop) s₁ =
      some (step, s')) :
      step = .stop ∧ removeSeqFromComputedBlocksTracker id .waiting s₁ = some ((), s') := by
    obtain ⟨_, s₂, h₂, hs⟩ := bind_iff.mp hs
    obtain ⟨rfl, rfl⟩ := pure_iff.mp hs
    exact ⟨rfl, h₂⟩
  have ignored (hs : (do
      setStatus id .finishedIgnored
      removeSeqFromComputedBlocksTracker id .finishedIgnored
      pure PrefillStep.ignore) s₁ = some (step, s')) :
      step = .ignore ∧ removeSeqFromComputedBlocksTracker id .finishedIgnored
        { s₁ with groups := s₁.groups.set id { g with status := .finishedIgnored } } = some ((), s') := by
    obtain ⟨_, s₂, h₂, hs⟩ := bind_iff.mp hs
    obtain ⟨_, s₃, h₃, hs⟩ := bind_iff.mp hs
    obtain ⟨rfl, rfl⟩ := pure_iff.mp hs
    obtain ⟨g', hg', rfl⟩ := setStatus_iff.mp h₂
    obtain rfl : g = g' := Option.some.inj (hg₁.symm.trans hg')
    exact ⟨rfl, h₃⟩
  split at h
  · exact .inr (.inl (ignored h))
  simp only [read_bind, ofOption_bind, Option.bind_eq_some_iff] at h
  obtain ⟨alloc, -, h⟩ := h
  cases alloc with
  | later => exact .inl (stopped h)
  | never => exact .inr (.inl (ignored h))
  | ok =>
    dsimp only at h
    split at h
    · exact .inl (stopped h)
    split at h
    · exact .inl (stopped h)
    simp only [ofOption_bind, Option.bind_eq_some_iff] at h
    obtain ⟨ok, -, h⟩ := h
    split at h
    · exact .inl (stopped h)
    · exact .inr (.inr (pure_iff.mp h))

/-- What `prefillStep` does to the state besides its decision. -/
theorem prefillStep_same {id : SeqId} {c : Bool} {step : PrefillStep}
    (h : prefillStep p id c s = some (step, s')) :
    ∃ g, s.groups.get? id = some g ∧ g.status = .waiting ∧
      (step ≠ .ignore → SameQueues s s') ∧
      (step = .ignore → ∃ s₁, SameQueues s s₁ ∧
        SameQueues { s₁ with groups := s₁.groups.set id { g with status := .finishedIgnored } } s') := by
  obtain ⟨g, hg, hw, ⟨rfl, rfl⟩ | ⟨u, k, s₁, h₁, hs⟩⟩ := prefillStep_cases h
  · exact ⟨g, hg, hw, fun _ => refl _, fun h => by cases h⟩
  have q₁ := getNumNewUncachedAndCachedTokens_same p g _ c _ _ _ h₁
  rcases hs with ⟨rfl, hs⟩ | ⟨rfl, hs⟩ | ⟨rfl, rfl⟩
  · refine ⟨g, hg, hw, fun _ => ?_, fun h => by cases h⟩
    exact IsTrans.trans _ _ _ q₁ (removeSeqFromComputedBlocksTracker_same _ _ _ _ _ hs)
  · refine ⟨g, hg, hw, fun hne => (hne rfl).elim, fun _ => ⟨s₁, q₁, ?_⟩⟩
    exact removeSeqFromComputedBlocksTracker_same _ _ _ _ _ hs
  · exact ⟨g, hg, hw, fun _ => q₁, fun h => by cases h⟩

/-- The rule for an invariant that the tests of a round can touch, with the charges. -/
theorem chargedPrefillsLoop_steps (I : Scheduler → SchedulerPrefillOutputs → List SeqId → List Int → Prop)
    (c : Bool) (idle : ∀ s s' ret left charges, SameBudget s s' → I s ret left charges → I s' ret left charges)
    (stop : ∀ s id rest s' ret left charges, s.waiting = id :: rest → I s ret left charges →
      prefillStep p id c s = some (.stop, s') → I s' ret left charges)
    (leave : ∀ s id rest s' ret left charges, s.waiting = id :: rest → I s ret left charges →
      prefillStep p id c s = some (.leave, s') → I { s' with waiting := rest } ret (id :: left) charges)
    (ignore : ∀ s id rest s' ret left charges, s.waiting = id :: rest → I s ret left charges →
      prefillStep p id c s = some (.ignore, s') →
      I { s' with waiting := rest } { ret with ignoredSeqGroups := ret.ignoredSeqGroups ++ [id] } left charges)
    (accept : ∀ s id rest numUncached numCached s₁ ret ret' s' left charges, s.waiting = id :: rest →
      I s ret left charges → prefillStep p id c s = some (.accept numUncached numCached, s₁) →
      admitPrefill p id numUncached numCached ret { s₁ with waiting := rest } = some (ret', s') →
      I s' ret' left (charges ++ [numUncached]))
    {fuel : Nat} {ret ret' : SchedulerPrefillOutputs} {left left' : List SeqId} {charges charges' : List Int}
    (h : chargedPrefillsLoop p c fuel ret left charges s = some (((ret', left'), charges'), s'))
    (h0 : I s ret left charges) : I s' ret' left' charges' := by
  induction fuel generalizing s ret left charges with
  | zero => exact (raise_iff.mp h).elim
  | succ fuel ih =>
    obtain ⟨now, s₁, h₁, h⟩ := bind_iff.mp h
    obtain ⟨passed, s₂, h₂, h⟩ := bind_iff.mp h
    have i₂ := idle _ _ _ _ _ (passedDelay_budget p now _ _ _ h₂) (idle _ _ _ _ _ (time_budget _ _ _ h₁) h0)
    rw [read_bind] at h
    cases hw : s₂.waiting with
    | nil =>
      simp only [hw, pure_iff, Prod.mk.injEq] at h
      obtain ⟨⟨⟨rfl, rfl⟩, rfl⟩, rfl⟩ := h
      exact i₂
    | cons id rest =>
      simp only [hw] at h
      split at h
      · simp only [pure_iff, Prod.mk.injEq] at h
        obtain ⟨⟨⟨rfl, rfl⟩, rfl⟩, rfl⟩ := h
        exact i₂
      obtain ⟨step, s₃, h₃, h⟩ := bind_iff.mp h
      cases step with
      | stop =>
        simp only [pure_iff, Prod.mk.injEq] at h
        obtain ⟨⟨⟨rfl, rfl⟩, rfl⟩, rfl⟩ := h
        exact stop _ _ _ _ _ _ _ hw i₂ h₃
      | leave =>
        simp only [update_bind] at h
        exact ih h (leave _ _ _ _ _ _ _ hw i₂ h₃)
      | ignore =>
        simp only [update_bind] at h
        exact ih h (ignore _ _ _ _ _ _ _ hw i₂ h₃)
      | accept numUncached numCached =>
        simp only [update_bind] at h
        obtain ⟨ret₁, s₄, h₄, h⟩ := bind_iff.mp h
        exact ih h (accept _ _ _ _ _ _ _ _ _ _ _ hw i₂ h₃ h₄)

/-- The rule for an invariant that the tests of a round can touch. -/
theorem schedulePrefillsLoop_steps (I : Scheduler → SchedulerPrefillOutputs → List SeqId → Prop)
    (c : Bool) (idle : ∀ s s' ret left, SameBudget s s' → I s ret left → I s' ret left)
    (stop : ∀ s id rest s' ret left, s.waiting = id :: rest → I s ret left →
      prefillStep p id c s = some (.stop, s') → I s' ret left)
    (leave : ∀ s id rest s' ret left, s.waiting = id :: rest → I s ret left →
      prefillStep p id c s = some (.leave, s') → I { s' with waiting := rest } ret (id :: left))
    (ignore : ∀ s id rest s' ret left, s.waiting = id :: rest → I s ret left →
      prefillStep p id c s = some (.ignore, s') →
      I { s' with waiting := rest } { ret with ignoredSeqGroups := ret.ignoredSeqGroups ++ [id] } left)
    (accept : ∀ s id rest numUncached numCached s₁ ret ret' s' left, s.waiting = id :: rest →
      I s ret left → prefillStep p id c s = some (.accept numUncached numCached, s₁) →
      admitPrefill p id numUncached numCached ret { s₁ with waiting := rest } = some (ret', s') →
      I s' ret' left)
    {fuel : Nat} {ret ret' : SchedulerPrefillOutputs} {left left' : List SeqId}
    (h : schedulePrefillsLoop p c fuel ret left s = some ((ret', left'), s')) (h0 : I s ret left) :
    I s' ret' left' := by
  obtain ⟨charges, hc⟩ := schedulePrefillsLoop_charged h []
  exact chargedPrefillsLoop_steps (fun s ret left _ => I s ret left) c (fun _ _ _ _ _ => idle _ _ _ _)
    (fun _ _ _ _ _ _ _ => stop _ _ _ _ _ _) (fun _ _ _ _ _ _ _ => leave _ _ _ _ _ _)
    (fun _ _ _ _ _ _ _ => ignore _ _ _ _ _ _) (fun _ _ _ _ _ _ _ _ _ _ _ => accept _ _ _ _ _ _ _ _ _ _) hc h0

theorem schedulePrefillsLoop_rule (I : Scheduler → SchedulerPrefillOutputs → List SeqId → Prop)
    (c : Bool) (quiet : ∀ s s' ret left, SameQueues s s' → I s ret left → I s' ret left)
    (leave : ∀ s id rest ret left, s.waiting = id :: rest → I s ret left →
      I { s with waiting := rest } ret (id :: left))
    (ignore : ∀ s id rest s' ret left, s.waiting = id :: rest → I s ret left →
      prefillStep p id c s = some (.ignore, s') →
      I { s' with waiting := rest } { ret with ignoredSeqGroups := ret.ignoredSeqGroups ++ [id] } left)
    (accept : ∀ s id rest numUncached numCached s₁ ret ret' s' left, s.waiting = id :: rest →
      I s ret left → prefillStep p id c s = some (.accept numUncached numCached, s₁) →
      admitPrefill p id numUncached numCached ret { s₁ with waiting := rest } = some (ret', s') →
      I s' ret' left)
    {fuel : Nat} {ret ret' : SchedulerPrefillOutputs} {left left' : List SeqId}
    (h : schedulePrefillsLoop p c fuel ret left s = some ((ret', left'), s')) (h0 : I s ret left) :
    I s' ret' left' := by
  refine schedulePrefillsLoop_steps I c (fun _ _ _ _ q i => quiet _ _ _ _ q.toSameContent.queues i) ?_ ?_ ignore accept h h0
  · intro s id rest s' ret left hw i hstep
    obtain ⟨g, -, -, hq, -⟩ := prefillStep_same hstep
    exact quiet _ _ _ _ (hq (fun h => by cases h)) i
  · intro s id rest s' ret left hw i hstep
    obtain ⟨g, -, -, hq, -⟩ := prefillStep_same hstep
    have q := hq (fun h => by cases h)
    exact leave _ _ _ _ _ (q.waiting.trans hw) (quiet _ _ _ _ q i)

/-- The rule for an invariant that counting the tokens of a victim can touch. -/
theorem priorityPreemptionLoop_steps (I : Scheduler → List SeqId → List SeqId → Prop)
    (idle : ∀ s s' running victims, SameContent s s' → I s running victims → I s' running victims)
    (count : ∀ s s' v g x running victims, I s (running ++ [v]) victims → s.groups.get? v = some g →
      getNumNewUncachedAndCachedTokens p g .running false s = some (x, s') → I s' (running ++ [v]) victims)
    (victim : ∀ s v running victims mode pairs s₁ s', I s (running ++ [v]) victims →
      preempt p v s = some ((mode, pairs), s₁) →
      onManager (ManagerM.leaveUnused pairs) s₁ = some ((), s') → I s' running (v :: victims))
    {id : SeqId} {numUncached numNewSeqs : Int} {fuel : Nat}
    {running running' victims victims' : List SeqId}
    (h : priorityPreemptionLoop p id numUncached numNewSeqs fuel running victims s =
      some ((running', victims'), s')) (h0 : I s running victims) : I s' running' victims' := by
  induction fuel generalizing s running victims with
  | zero => exact (raise_iff.mp h).elim
  | succ fuel ih =>
    rw [priorityPreemptionLoop] at h
    have done (ht : (pure (running, victims) : SchedM _) s = some ((running', victims'), s')) :
        I s' running' victims' := by
      simp only [pure_iff, Prod.mk.injEq] at ht
      obtain ⟨⟨rfl, rfl⟩, rfl⟩ := ht
      exact h0
    cases hl : running.getLast? with
    | none =>
      rw [hl] at h
      exact done h
    | some v =>
      simp only [hl, getGroup_bind, Option.bind_eq_some_iff] at h
      obtain ⟨g, -, gv, hgv, h⟩ := h
      split at h
      · exact done h
      simp only [read_bind, ofOption_bind, Option.bind_eq_some_iff] at h
      obtain ⟨alloc, -, h⟩ := h
      obtain ⟨fit, s₁, h₁, h⟩ := bind_iff.mp h
      have hs : s₁ = s := by
        split at h₁
        · exact (ofOption_iff.mp h₁).2
        · exact (pure_iff.mp h₁).2
      rw [hs] at h
      split at h
      · exact done h
      obtain ⟨⟨n, k⟩, s₂, h₂, h⟩ := bind_iff.mp h
      obtain ⟨_, s₃, h₃, h⟩ := bind_iff.mp h
      obtain ⟨⟨mode, pairs⟩, s₄, h₄, h⟩ := bind_iff.mp h
      obtain ⟨_, s₅, h₅, h⟩ := bind_iff.mp h
      have hrun : running.dropLast ++ [v] = running := List.dropLast_append_getLast? v hl
      rw [← hrun] at h0
      have i₃ := idle _ _ _ _ (modifyBudget_content _ _ _ _ h₃) (count _ _ _ _ _ _ _ h0 hgv h₂)
      exact ih h (victim _ _ _ _ _ _ _ _ i₃ h₄ h₅)

theorem priorityPreemptionLoop_rule (I : Scheduler → List SeqId → List SeqId → Prop)
    (quiet : ∀ s s' running victims, SameQueues s s' → I s running victims → I s' running victims)
    (victim : ∀ s v running victims mode pairs s₁ s', I s (running ++ [v]) victims →
      preempt p v s = some ((mode, pairs), s₁) →
      onManager (ManagerM.leaveUnused pairs) s₁ = some ((), s') → I s' running (v :: victims))
    {id : SeqId} {numUncached numNewSeqs : Int} {fuel : Nat}
    {running running' victims victims' : List SeqId}
    (h : priorityPreemptionLoop p id numUncached numNewSeqs fuel running victims s =
      some ((running', victims'), s')) (h0 : I s running victims) : I s' running' victims' :=
  priorityPreemptionLoop_steps I (fun _ _ _ _ q i => quiet _ _ _ _ q.queues i)
    (fun _ _ _ g _ _ _ i _ hs => quiet _ _ _ _ (getNumNewUncachedAndCachedTokens_same p g _ _ _ _ _ hs) i)
    victim h h0

end CoreFlow.SchedM
