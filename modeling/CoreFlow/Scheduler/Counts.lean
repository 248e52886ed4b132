import CoreFlow.Manager.Untouched
import CoreFlow.Scheduler.Copies

/-!
# How far a chunk reaches

The chunk of a prefill is cut from the tokens that are neither computed nor cached, and `schedule`
adds it to the tokens that are registered as computed. Both come from the same prefix-cache hit,
except when a retained entry decides what is registered.
-/

namespace CoreFlow
open Prog SchedM

/-- No group has computed past its end, and a waiting one has computed nothing. -/
structure Counted (s : Scheduler) : Prop where
  within : ∀ id g, s.groups.get? id = some g → g.numComputedTokens ≤ g.getLen
  waiting : ∀ id g, s.groups.get? id = some g → g.status = .waiting →
    g.numComputedTokens = 0 ∧ g.isPrefill = true

/-- A prefill with this chunk ends within its sequence. -/
def Fits (s : Scheduler) (sg : ScheduledSequenceGroup) : Prop :=
  ∀ g, s.groups.get? sg.seqId = some g → g.status = .running → g.isPrefill = true →
    g.numComputedTokens + sg.tokenChunkSize ≤ g.getLen

theorem Fits.same {s s' : Scheduler} {sg : ScheduledSequenceGroup} (h : Fits s sg)
    (groups : s'.groups = s.groups) : Fits s' sg := by
  unfold Fits
  rw [groups]
  exact h

/-- What a retained entry registers is no more than the prefix found in the two caches. -/
def EntryCovered (p : SchedulerParams) (a : Admission) : Prop :=
  getInitialCachedTokens a.group ≤ 0 → ∀ e, a.entry = some e →
    roundCachedTokens p (min e.tokenIds.length (max (a.group.getPromptLen - 1) 0)) ≤
      max a.gpuCachedTokens a.cpuCachedTokens

theorem SequenceGroup.getLen_nonneg (g : SequenceGroup) : 0 ≤ g.getLen := Int.natCast_nonneg _

theorem SequenceGroup.getPromptLen_le (g : SequenceGroup) : g.getPromptLen ≤ g.getLen := by
  unfold getPromptLen getLen getTokenIds
  rw [List.length_append]
  omega

namespace Counted
variable {s s' : Scheduler} {id : SeqId} {g g' : SequenceGroup}

theorem same (h : Counted s) (groups : s'.groups = s.groups) : Counted s' := by
  refine ⟨?_, ?_⟩
  · rw [groups]
    exact h.within
  · rw [groups]
    exact h.waiting

theorem set (h : Counted s) (groups : s'.groups = s.groups.set id g')
    (hle : g'.numComputedTokens ≤ g'.getLen)
    (hw : g'.status = .waiting → g'.numComputedTokens = 0 ∧ g'.isPrefill = true) : Counted s' := by
  have lookup (x : SeqId) (gx : SequenceGroup) (hx : s'.groups.get? x = some gx) :
      gx = g' ∨ s.groups.get? x = some gx := by
    rw [groups, Dict.get?_set] at hx
    split at hx
    · exact .inl (Option.some.inj hx).symm
    · exact .inr hx
  refine ⟨fun x gx hx => ?_, fun x gx hx => ?_⟩
  · rcases lookup x gx hx with rfl | hx
    · exact hle
    · exact h.within x gx hx
  · rcases lookup x gx hx with rfl | hx
    · exact hw
    · exact h.waiting x gx hx

end Counted

/-! ## Chunks -/

namespace SchedM
variable {p : SchedulerParams} {s s' : Scheduler} {id : SeqId} {g : SequenceGroup} {u k n : Int}

/-- The prefix length recorded for a sequence on a device. -/
def recordedTokens (s : Scheduler) (id : SeqId) (d : Device) : Nat :=
  (s.blockManager.computedBlocksTracker.seqIdToNumTokensComputed.get? (id, d)).getD 0

/-- The lengths found in both caches are recorded. -/
theorem getCachedTokensSeq_found (hg : g.isPrefill = true) (hi : getInitialCachedTokens g ≤ 0)
    (h : getCachedTokensSeq p g s = some (n, s')) : ∃ gpu cpu : Nat, n = max (gpu : Int) cpu ∧
      s'.blockManager.computedBlocksTracker.seqIdToNumTokensComputed.get? (g.seqId, .gpu) = some gpu ∧
      s'.blockManager.computedBlocksTracker.seqIdToNumTokensComputed.get? (g.seqId, .cpu) = some cpu := by
  unfold getCachedTokensSeq at h
  rw [if_neg (by omega)] at h
  obtain ⟨cpu, s₁, h₁, h⟩ := bind_iff.mp h
  obtain ⟨gpu, s₂, h₂, h⟩ := bind_iff.mp h
  obtain ⟨rfl, rfl⟩ := pure_iff.mp h
  obtain ⟨m₁, hm₁, rfl⟩ := onManager_iff.mp h₁
  obtain ⟨m₂, hm₂, rfl⟩ := onManager_iff.mp h₂
  have onCpu := (ManagerM.getNumCachedTokens_recorded hg hm₁).1
  obtain ⟨onGpu, others⟩ := ManagerM.getNumCachedTokens_recorded hg hm₂
  rw [← others _ (by simp)] at onCpu
  exact ⟨gpu, cpu, max_comm (cpu : Int) gpu, onGpu, onCpu⟩

theorem getCachedTokensSeq_recorded (hg : g.isPrefill = true) (hi : getInitialCachedTokens g ≤ 0)
    (h : getCachedTokensSeq p g s = some (n, s')) :
    n = max (recordedTokens s' g.seqId .gpu : Int) (recordedTokens s' g.seqId .cpu : Int) := by
  obtain ⟨gpu, cpu, hn, onGpu, onCpu⟩ := getCachedTokensSeq_found hg hi h
  rw [recordedTokens, recordedTokens, onGpu, onCpu]
  exact hn

/-- What is not computed is split into uncached and cached tokens. -/
theorem getNumNewTokens_split (hg : g.isPrefill = true) (hle : g.numComputedTokens ≤ g.getLen)
    (h : getNumNewTokens p g s = some ((u, k), s')) :
    g.numComputedTokens + u + k = g.getLen ∧ 0 ≤ k := by
  unfold getNumNewTokens at h
  rw [if_neg (by rw [hg]; decide)] at h
  obtain ⟨cached, s₁, -, h⟩ := bind_iff.mp h
  have e := (pure_iff.mp h).1
  split at e
  · obtain ⟨rfl, rfl⟩ := Prod.mk.inj e
    omega
  · obtain ⟨rfl, rfl⟩ := Prod.mk.inj e
    omega

/-- The uncached tokens of a new sequence follow any part of its cached prefix. -/
theorem getNumNewTokens_after (hg : g.isPrefill = true) (h0 : g.numComputedTokens = 0)
    (h : getNumNewTokens p g s = some ((u, k), s')) :
    ∃ cached, getCachedTokensSeq p g s = some (cached, s') ∧
      (n ≤ max cached 0 → n ≤ max (g.getLen - 1) 0 → n + u ≤ g.getLen) := by
  have hlen := g.getLen_nonneg
  unfold getNumNewTokens at h
  rw [if_neg (by rw [hg]; decide)] at h
  obtain ⟨cached, s₁, h₁, h⟩ := bind_iff.mp h
  obtain ⟨e, rfl⟩ := pure_iff.mp h
  refine ⟨cached, h₁, fun hn hn' => ?_⟩
  split at e
  · obtain ⟨rfl, -⟩ := Prod.mk.inj e
    omega
  · obtain ⟨rfl, -⟩ := Prod.mk.inj e
    omega

theorem chunkNewTokensToSchedule_spec (h : chunkNewTokensToSchedule p n s = some (k, s')) :
    k ≤ n ∧ s' = s := by
  rw [chunkNewTokensToSchedule, read_bind] at h
  obtain ⟨slot, s₁, h₁, h⟩ := bind_iff.mp h
  have hs : s₁ = s := by
    cases hm : s.partialPrefillMetadata with
    | none =>
      rw [hm] at h₁
      exact (pure_iff.mp h₁).2
    | some m =>
      rw [hm] at h₁
      exact (ofOption_iff.mp h₁).2
  obtain ⟨rfl, rfl⟩ := pure_iff.mp h
  exact ⟨by omega, hs⟩

/-- A chunk is cut from the uncached tokens. -/
theorem getNumNewUncachedAndCachedTokens_spec {status : SequenceStatus} {c : Bool}
    (h : getNumNewUncachedAndCachedTokens p g status c s = some ((n, k), s')) :
    (g.status ≠ status ∧ n = 0) ∨
      ∃ u, getNumNewTokens p g s = some ((u, k), s') ∧ n ≤ u := by
  unfold getNumNewUncachedAndCachedTokens at h
  split at h
  · rename_i hs
    exact .inl ⟨hs, (Prod.mk.inj (pure_iff.mp h).1).1⟩
  · obtain ⟨⟨u, k'⟩, s₁, h₁, h⟩ := bind_iff.mp h
    dsimp only at h
    cases c with
    | true =>
      rw [if_pos rfl] at h
      obtain ⟨n', s₂, h₂, h₃⟩ := bind_iff.mp h
      obtain ⟨hle, rfl⟩ := chunkNewTokensToSchedule_spec h₂
      obtain ⟨e, rfl⟩ := pure_iff.mp h₃
      obtain ⟨rfl, rfl⟩ := Prod.mk.inj e
      exact .inr ⟨u, h₁, hle⟩
    | false =>
      rw [if_neg Bool.false_ne_true] at h
      obtain ⟨e, rfl⟩ := pure_iff.mp h
      obtain ⟨rfl, rfl⟩ := Prod.mk.inj e
      exact .inr ⟨n, h₁, le_refl _⟩

theorem getNumNewUncachedAndCachedTokens_within {status : SequenceStatus} {c : Bool}
    (hg : g.isPrefill = true) (hle : g.numComputedTokens ≤ g.getLen)
    (h : getNumNewUncachedAndCachedTokens p g status c s = some ((n, k), s')) :
    g.numComputedTokens + n ≤ g.getLen := by
  rcases getNumNewUncachedAndCachedTokens_spec h with ⟨-, rfl⟩ | ⟨u, hu, hn⟩
  · omega
  · obtain ⟨hsum, hk⟩ := getNumNewTokens_split hg hle hu
    omega

/-! ## The running queue -/

/-- A preempted group starts again from nothing. -/
theorem preempt_groups {x : PreemptionMode × List SwapPair} (h : preempt p id s = some (x, s')) :
    ∃ g, s.groups.get? id = some g ∧ (s'.groups = s.groups ∨
      s'.groups = s.groups.set id { g with status := .waiting }.resetStateForRecompute) := by
  obtain ⟨g, hg, -, ⟨groups, -⟩ | ⟨-, groups, -⟩⟩ := preempt_cases h
  · exact ⟨g, hg, .inl groups⟩
  · exact ⟨g, hg, .inr groups⟩

theorem preempt_counted {x : PreemptionMode × List SwapPair} (hc : Counted s)
    (h : preempt p id s = some (x, s')) :
    Counted s' ∧ ∀ sg, Fits s sg → Fits s' sg := by
  obtain ⟨g, hg, groups | groups⟩ := preempt_groups h
  · refine ⟨hc.same groups, fun sg i => ?_⟩
    unfold Fits
    rw [groups]
    exact i
  · have reset : ({ g with status := .waiting } : SequenceGroup).resetStateForRecompute.isPrefill = true := rfl
    refine ⟨hc.set groups g.getLen_nonneg fun _ => ⟨rfl, reset⟩, fun sg i g' hg' hs => ?_⟩
    rw [groups, Dict.get?_set] at hg'
    split at hg'
    · obtain rfl := Option.some.inj hg'
      cases hs
    · exact i g' hg' hs

/-- Everything counted so far in a round of `_schedule_running`. -/
structure CountedRun (cur : Option (SeqId × Int)) (s : Scheduler) (ret : SchedulerRunningOutputs) :
    Prop extends Counted s where
  current : ∀ x, cur = some x → Fits s ⟨x.1, x.2⟩
  scheduled : ∀ sg, sg ∈ ret.prefillSeqGroups ∨ sg ∈ ret.decodeSeqGroups → Fits s sg

theorem CountedRun.same {cur : Option (SeqId × Int)} {ret : SchedulerRunningOutputs}
    (h : CountedRun cur s ret) (groups : s'.groups = s.groups) : CountedRun cur s' ret :=
  ⟨h.toCounted.same groups, fun x hx => Fits.same (h.current x hx) groups,
    fun sg hsg => Fits.same (h.scheduled sg hsg) groups⟩

theorem CountedRun.preempt {cur : Option (SeqId × Int)} {ret ret' : SchedulerRunningOutputs}
    (h : CountedRun cur s ret) (hp : preemptVictim p none id ret s = some (ret', s')) :
    CountedRun cur s' ret' := by
  unfold preemptVictim at hp
  simp only [Prog.pure_bind, if_true] at hp
  obtain ⟨⟨mode, pairs⟩, s₁, h₁, hp⟩ := bind_iff.mp hp
  obtain ⟨counted, fits⟩ := preempt_counted h.toCounted h₁
  cases mode with
  | recompute =>
    obtain ⟨rfl, rfl⟩ := pure_iff.mp hp
    exact ⟨counted, fun x hx => fits _ (h.current x hx), fun sg hsg => fits _ (h.scheduled sg hsg)⟩
  | swap =>
    obtain ⟨rfl, rfl⟩ := pure_iff.mp hp
    exact ⟨counted, fun x hx => fits _ (h.current x hx), fun sg hsg => fits _ (h.scheduled sg hsg)⟩

theorem CountedRun.schedule {ret ret' : SchedulerRunningOutputs} {c : Bool}
    (h : CountedRun (some (id, n)) s ret)
    (hs : scheduleRunningGroup p id n c ret s = some (ret', s')) : CountedRun none s' ret' := by
  have groups := (scheduleRunningGroup_same p _ _ _ _ _ _ _ hs).groups
  have i := h.same groups
  refine ⟨i.toCounted, (fun x hx => by cases hx), ?_⟩
  obtain ⟨cows, s₁, h₁, hs⟩ := bind_iff.mp hs
  rw [getGroup_bind, Option.bind_eq_some_iff] at hs
  obtain ⟨g, hg, hs⟩ := hs
  simp only [read_bind, ofOption_bind, Option.bind_eq_some_iff] at hs
  obtain ⟨budget, -, hs⟩ := hs
  obtain ⟨_, s₂, -, hs⟩ := bind_iff.mp hs
  obtain ⟨rfl, rfl⟩ := pure_iff.mp hs
  have hg' : s'.groups.get? id = some g := by
    rw [groups, ← (appendSlots_same p _ _ _ _ h₁).groups]
    exact hg
  intro sg hsg
  split at hsg
  · rcases hsg with hsg | hsg
    · rcases List.mem_append.mp hsg with hsg | hsg
      · exact i.scheduled sg (.inl hsg)
      · rw [List.mem_singleton.mp hsg]
        exact i.current _ rfl
    · exact i.scheduled sg (.inr hsg)
  · rename_i hpre
    rcases hsg with hsg | hsg
    · exact i.scheduled sg (.inl hsg)
    · rcases List.mem_append.mp hsg with hsg | hsg
      · exact i.scheduled sg (.inr hsg)
      · -- a group in decode is no prefill
        rw [List.mem_singleton.mp hsg]
        intro g' hg₁ _ hpre'
        obtain rfl : g = g' := Option.some.inj (hg'.symm.trans hg₁)
        exact (hpre hpre').elim

theorem scheduleRunning_counted {c : Bool} {ret : SchedulerRunningOutputs} (hc : Counted s)
    (h : scheduleRunning p none c s = some (ret, s')) : CountedRun none s' ret := by
  simp only [scheduleRunning, read_bind, require_bind, Option.ite_none_right_eq_some] at h
  have start : CountedRun none s .empty := by
    refine ⟨hc, (fun x hx => by cases hx), fun sg hsg => ?_⟩
    rcases hsg with hsg | hsg <;> cases hsg
  refine scheduleRunningLoop_rule CountedRun c (fun _ _ _ _ q i => i.same q.groups) ?_ ?_ ?_ ?_ h.2 start
  · intro id k t ret ret' t' i ht
    exact i.schedule ht
  · intro cur v t ret ret' t' i _ ht
    have i' : CountedRun (some cur) { t with running := t.running.dropLast } ret := i.same rfl
    exact i'.preempt ht
  · intro id k t ret ret' t' i _ ht
    have i' := i.preempt ht
    exact ⟨i'.toCounted, (fun x hx => by cases hx), i'.scheduled⟩
  · intro t₀ t id rest g k j ret i _ hg _ ht
    refine ⟨i.toCounted.same rfl, fun x hx g' hg' _ hpre => ?_, fun sg hsg => Fits.same (i.scheduled sg hsg) rfl⟩
    obtain rfl := Option.some.inj hx
    obtain rfl : g = g' := Option.some.inj (hg.symm.trans hg')
    exact getNumNewUncachedAndCachedTokens_within hpre (i.within id g hg) ht

/-! ## The waiting queue -/

/-- No admission so far had a retained entry that reached past the caches. -/
def AllCovered (p : SchedulerParams) (s : Scheduler) : Prop :=
  ∀ a ∈ s.blockManager.trace.admissions, EntryCovered p a

theorem AllCovered.before (h : AllCovered p s')
    (grows : s.blockManager.trace.admissions <+: s'.blockManager.trace.admissions) : AllCovered p s :=
  fun a ha => h a (grows.subset ha)

theorem AllCovered.same (h : AllCovered p s') (q : SameQueues s s') : AllCovered p s := by
  unfold AllCovered
  rw [← q.owners.trace]
  exact h

/-- A scheduled group is running, and its prefill ends within its sequence. -/
def Admitted (s : Scheduler) (sg : ScheduledSequenceGroup) : Prop :=
  ∃ g, s.groups.get? sg.seqId = some g ∧ g.status = .running ∧
    (g.isPrefill = true → g.numComputedTokens + sg.tokenChunkSize ≤ g.getLen)

theorem Admitted.fits {sg : ScheduledSequenceGroup} (h : Admitted s sg) : Fits s sg := by
  obtain ⟨g, hg, -, hle⟩ := h
  intro g' hg' _ hpre
  obtain rfl : g = g' := Option.some.inj (hg.symm.trans hg')
  exact hle hpre

theorem Admitted.same {sg : ScheduledSequenceGroup} (h : Admitted s sg) (groups : s'.groups = s.groups) :
    Admitted s' sg := by
  unfold Admitted
  rw [groups]
  exact h

/-- A group that was waiting is no other that has been scheduled. -/
theorem Admitted.set {sg : ScheduledSequenceGroup} {g' : SequenceGroup} (h : Admitted s sg)
    (hg : s.groups.get? id = some g) (hw : g.status = .waiting) (groups : s'.groups = s.groups.set id g') :
    Admitted s' sg := by
  obtain ⟨gs, hgs, hs, hle⟩ := h
  refine ⟨gs, ?_, hs, hle⟩
  rw [groups, Dict.get?_set_ne, hgs]
  intro e
  rw [e, hgs, Option.some.injEq] at hg
  rw [hg, hw] at hs
  cases hs

/-- How a round of `_schedule_prefills` ends once the tokens are counted. -/
inductive PrefillStep.Ends (p : SchedulerParams) (g : SequenceGroup) (u k : Int) (s : Scheduler) :
    PrefillStep → Prop where
  | ignored : PrefillStep.Ends p g u k s .ignore
  | noBlocks (h : s.blockManager.canAllocate p.toManagerParams g 0 = some .later) :
      PrefillStep.Ends p g u k s .stop
  | noBudget (h : s.budget.numBatchedTokens ≥ p.maxNumBatchedTokens) : PrefillStep.Ends p g u k s .stop
  | noTokens (h : u = 0) : PrefillStep.Ends p g u k s .stop
  | noRoom (h : s.budget.canSchedule u g.getMaxNumRunningSeqs = some false) :
      PrefillStep.Ends p g u k s .stop
  | accepted (blocks : s.blockManager.canAllocate p.toManagerParams g 0 = some .ok) (tokens : u ≠ 0)
      (room : s.budget.canSchedule u g.getMaxNumRunningSeqs = some true) :
      PrefillStep.Ends p g u k s (.accept u k)

theorem prefillStep_ends {c : Bool} {step : PrefillStep} (h : prefillStep p id c s = some (step, s')) :
    ∃ g, s.groups.get? id = some g ∧ g.status = .waiting ∧ (step = .leave ∨ ∃ u k s₁,
      getNumNewUncachedAndCachedTokens p g .waiting c s = some ((u, k), s₁) ∧
        PrefillStep.Ends p g u k s₁ step ∧ (step = .accept u k → s' = s₁)) := by
  rw [prefillStep, getGroup_bind, Option.bind_eq_some_iff] at h
  obtain ⟨g, hg, h⟩ := h
  simp only [require_bind, Option.ite_none_right_eq_some, read_bind] at h
  obtain ⟨hw, h⟩ := h
  refine ⟨g, hg, hw, ?_⟩
  split at h
  · exact .inl (pure_iff.mp h).1
  obtain ⟨⟨u, k⟩, s₁, h₁, h⟩ := bind_iff.mp h
  simp only [require_bind, Option.ite_none_right_eq_some] at h
  obtain ⟨-, h⟩ := h
  refine .inr ⟨u, k, s₁, h₁, ?_⟩
  have stopped {x : SchedM Unit} (e : PrefillStep.Ends p g u k s₁ .stop)
      (hs : (do x; pure PrefillStep.stop) s₁ = some (step, s')) :
      PrefillStep.Ends p g u k s₁ step ∧ (step = .accept u k → s' = s₁) := by
    obtain ⟨_, s₂, -, hs⟩ := bind_iff.mp hs
    rw [(pure_iff.mp hs).1]
    exact ⟨e, fun h => by cases h⟩
  have ignored {x y : SchedM Unit}
      (hs : (do x; y; pure PrefillStep.ignore) s₁ = some (step, s')) :
      PrefillStep.Ends p g u k s₁ step ∧ (step = .accept u k → s' = s₁) := by
    obtain ⟨_, s₂, -, hs⟩ := bind_iff.mp hs
    obtain ⟨_, s₃, -, hs⟩ := bind_iff.mp hs
    rw [(pure_iff.mp hs).1]
    exact ⟨.ignored, fun h => by cases h⟩
  split at h
  · exact ignored h
  simp only [read_bind, ofOption_bind, Option.bind_eq_some_iff] at h
  obtain ⟨alloc, halloc, h⟩ := h
  cases alloc with
  | later => exact stopped (.noBlocks halloc) h
  | never => exact ignored h
  | ok =>
    dsimp only at h
    split at h
    · rename_i hfull
      exact stopped (.noBudget hfull) h
    split at h
    · rename_i hzero
      exact stopped (.noTokens hzero) h
    rename_i hzero
    simp only [ofOption_bind, Option.bind_eq_some_iff] at h
    obtain ⟨ok, hok, h⟩ := h
    cases ok with
    | false => exact stopped (.noRoom hok) h
    | true =>
      obtain ⟨rfl, rfl⟩ := pure_iff.mp h
      exact ⟨.accepted halloc hzero hok, fun _ => rfl⟩

/-- An accepted group gets a chunk of the uncached tokens. -/
theorem prefillStep_accept {c : Bool} (h : prefillStep p id c s = some (.accept u k, s')) :
    ∃ g, s.groups.get? id = some g ∧ g.status = .waiting ∧ 0 < u ∧
      getNumNewUncachedAndCachedTokens p g .waiting c s = some ((u, k), s') := by
  obtain ⟨g, hg, hw, hleave | ⟨u', k', s₁, hcount, ends, hs⟩⟩ := prefillStep_ends h
  · cases hleave
  · cases ends with
    | accepted blocks tokens room =>
      rw [hs rfl]
      refine ⟨g, hg, hw, ?_, hcount⟩
      rw [SchedulingBudget.canSchedule, Option.ite_none_right_eq_some] at room
      omega

theorem roundCachedTokens_le (x : Int) : roundCachedTokens p x ≤ x :=
  Int.ediv_mul_le x (by have := p.pos; omega)

/-- What is registered for a new sequence leaves room for its uncached tokens. -/
theorem registered_within {s₀ : Scheduler} {l n : Int} {a : Admission} (hw : g.isPrefill = true)
    (h0 : g.numComputedTokens = 0) (hu : getNumNewTokens p g s₀ = some ((u, k), s))
    (hgroup : a.group = g) (hentry : a.entry = entryOf g s.blockManager)
    (hgpu : a.gpuCachedTokens = recordedTokens s g.seqId .gpu)
    (hcpu : a.cpuCachedTokens = recordedTokens s g.seqId .cpu) (hcov : EntryCovered p a)
    (hl : syntheticPrefixLen p g (entryOf g s.blockManager) = some l) (hn : n ≤ l) :
    n + u ≤ g.getLen := by
  obtain ⟨cached, hcached, room⟩ := getNumNewTokens_after (n := n) hw h0 hu
  have hlen := g.getLen_nonneg
  have hprompt := g.getPromptLen_le
  unfold syntheticPrefixLen at hl
  split at hl
  · rename_i hpos
    obtain rfl := Option.some.inj hl
    have hr := roundCachedTokens_le (p := p) (min (getInitialCachedTokens g) (max (g.getPromptLen - 1) 0))
    unfold getCachedTokensSeq at hcached
    rw [if_pos hpos] at hcached
    have hc := (pure_iff.mp hcached).1
    refine room ?_ ?_
    · omega
    · omega
  · rename_i hpos
    obtain ⟨e, he, rfl⟩ := Option.map_eq_some_iff.mp hl
    have hc := getCachedTokensSeq_recorded hw (by omega) hcached
    have covered := hcov (by rw [hgroup]; omega) e (hentry.trans he)
    rw [hgroup, hgpu, hcpu] at covered
    have hr := roundCachedTokens_le (p := p) (min e.tokenIds.length (max (g.getPromptLen - 1) 0))
    refine room ?_ ?_
    · omega
    · omega

theorem admitPrefill_counted {s₀ : Scheduler} {u' : Int} {ret ret' : SchedulerPrefillOutputs}
    (hc : Counted s) (hg : s.groups.get? id = some g) (hw : g.status = .waiting)
    (hu : getNumNewTokens p g s₀ = some ((u', k), s)) (hle : u ≤ u') {rest : List SeqId}
    (ha : admitPrefill p id u k ret { s with waiting := rest } = some (ret', s')) :
    Counted s' ∧ (∀ sg, Admitted s sg → Admitted s' sg) ∧
      ∃ sg, ret'.seqGroups = ret.seqGroups ++ [sg] ∧ (AllCovered p s' → Admitted s' sg) := by
  obtain ⟨h0, hpre⟩ := hc.waiting id g hg hw
  obtain ⟨g₁, pairs, s₂, s₃, hg₁, h₂, h₃, q, rfl⟩ := admitPrefill_spec ha
  obtain rfl : g = g₁ := Option.some.inj (hg.symm.trans hg₁)
  obtain ⟨-, ⟨g', hreg, groups₂⟩, -⟩ := allocateAndSetRunning_spec hg₁ h₂
  obtain ⟨groups₃, trace₃, -⟩ := consumeExactGpuCacheHit_spec h₃
  have groups : s'.groups = s.groups.set id { g' with status := .running } :=
    (q.groups.trans groups₃).trans groups₂
  have recorded : admissionOf id g s.blockManager s₂ ∈ s'.blockManager.trace.admissions := by
    rw [q.owners.trace, trace₃]
    exact List.mem_append_right _ (List.mem_singleton_self _)
  -- the sequence keeps its tokens, and its count is at most what leaves room for the chunk
  have bounds : g'.getLen = g.getLen ∧ g'.numComputedTokens ≤ g.getLen ∧
      (AllCovered p s' → g'.numComputedTokens +
        (if (syntheticPrefixLen p g (entryOf g s.blockManager)).isSome then u else u + k) ≤ g.getLen) := by
    obtain ⟨hsum, hk⟩ := getNumNewTokens_split hpre (by have := g.getLen_nonneg; omega) hu
    rcases hreg with rfl | ⟨l, n, hl, hn, -, -, hset⟩
    · refine ⟨rfl, by have := g'.getLen_nonneg; omega, fun _ => ?_⟩
      split <;> omega
    · have hl' : syntheticPrefixLen p g (entryOf g s.blockManager) = some l := hl
      rw [SequenceGroup.updateNumComputedTokens, Option.ite_none_right_eq_some, Option.some.injEq] at hset
      obtain ⟨hfit, rfl⟩ := hset
      refine ⟨rfl, hfit, fun hcov => ?_⟩
      have room := registered_within hpre h0 hu rfl rfl rfl rfl (hcov _ recorded) hl' hn
      rw [hl', Option.isSome_some, if_pos rfl]
      show g.numComputedTokens + (n - g.numComputedTokens) + u ≤ _
      omega
  obtain ⟨hlen, hin, hchunk⟩ := bounds
  refine ⟨hc.set groups (hin.trans_eq hlen.symm) (fun h => by cases h),
    fun sg hsg => hsg.set hg hw groups, _, rfl,
    fun hcov => ⟨{ g' with status := .running }, ?_, rfl, fun _ => ?_⟩⟩
  · rw [groups, Dict.get?_set_self]
  · exact (hchunk hcov).trans_eq hlen.symm

theorem schedulePrefills_counted {c : Bool} {l : List ScheduledSequenceGroup}
    {ret : SchedulerPrefillOutputs} (hc : Counted s) (hl : AllCovered p s → ∀ sg ∈ l, Admitted s sg)
    (h : schedulePrefills p c s = some (ret, s')) :
    Counted s' ∧ (AllCovered p s' → ∀ sg ∈ l ++ ret.seqGroups, Admitted s' sg) := by
  rw [schedulePrefills, read_bind] at h
  split at h
  · obtain ⟨rfl, rfl⟩ := pure_iff.mp h
    rw [SchedulerPrefillOutputs.empty, List.append_nil]
    exact ⟨hc, hl⟩
  obtain ⟨⟨ret₁, left⟩, s₁, h₁, h⟩ := bind_iff.mp h
  simp only [update_bind, pure_iff] at h
  obtain ⟨rfl, rfl⟩ := h
  let I (t : Scheduler) (ret : SchedulerPrefillOutputs) (_ : List SeqId) : Prop :=
    Counted t ∧ (AllCovered p t → ∀ sg ∈ l ++ ret.seqGroups, Admitted t sg)
  have start : I s .empty [] := by
    show Counted s ∧ (AllCovered p s → ∀ sg ∈ l ++ [], Admitted s sg)
    rw [List.append_nil]
    exact ⟨hc, hl⟩
  have quiet (t t' : Scheduler) (ret : SchedulerPrefillOutputs) (left : List SeqId)
      (q : SameQueues t t') (i : I t ret left) : I t' ret left := by
    obtain ⟨counted, admitted⟩ := i
    exact ⟨counted.same q.groups, fun cov sg hsg => (admitted (cov.same q) sg hsg).same q.groups⟩
  suffices i : I s₁ ret left by
    obtain ⟨counted, admitted⟩ := i
    exact ⟨counted.same rfl, fun cov sg hsg => (admitted cov sg hsg).same rfl⟩
  refine schedulePrefillsLoop_rule I c quiet ?_ ?_ ?_ h₁ start
  · rintro t id rest ret left - ⟨counted, admitted⟩
    exact ⟨counted.same rfl, fun cov sg hsg => (admitted cov sg hsg).same rfl⟩
  · -- an ignored group is finished
    rintro t id rest t' ret left - ⟨counted, admitted⟩ ht
    have before (cov : AllCovered p t') : AllCovered p t := cov.before (prefillStep_asks ht).admissions
    obtain ⟨g, hg, hw, -, hig⟩ := prefillStep_same ht
    obtain ⟨t₁, q₁, q₂⟩ := hig rfl
    have groups : t'.groups = t.groups.set id { g with status := .finishedIgnored } := by
      rw [q₂.groups, ← q₁.groups]
    exact ⟨(counted.set groups (counted.within id g hg) (fun h => by cases h)).same rfl,
      fun cov sg hsg => ((admitted (before cov) sg hsg).set hg hw groups).same rfl⟩
  · -- an accepted one starts to run
    intro t id rest u k t₁ ret ret' t' left _ i ht ha
    obtain ⟨-, -, -, hq, -⟩ := prefillStep_same ht
    have q := hq (fun h => by cases h)
    obtain ⟨pairs, -, asks⟩ := admitPrefill_asks ha
    obtain ⟨counted, admitted⟩ := quiet t t₁ ret left q i
    obtain ⟨g, hg, hw, -, hcount⟩ := prefillStep_accept ht
    obtain ⟨u', hu, hle⟩ : ∃ u', getNumNewTokens p g t = some ((u', k), t₁) ∧ u ≤ u' := by
      rcases getNumNewUncachedAndCachedTokens_spec hcount with ⟨hne, -⟩ | hu
      · exact (hne hw).elim
      · exact hu
    rw [← q.groups] at hg
    obtain ⟨counted', kept, sg, hret, new⟩ := admitPrefill_counted counted hg hw hu hle ha
    refine ⟨counted', fun cov sg' hsg => ?_⟩
    rw [hret, ← List.append_assoc] at hsg
    rcases List.mem_append.mp hsg with hsg | hsg
    · exact kept sg' (admitted (cov.before asks.admissions) sg' hsg)
    · rw [List.mem_singleton.mp hsg]
      exact new cov

theorem schedulePriorityPreemption_counted {x : Unit} (hc : Counted s)
    (h : schedulePriorityPreemption p s = some (x, s')) : Counted s' := by
  rw [schedulePriorityPreemption, read_bind] at h
  obtain ⟨sorted, s₁, h₁, h⟩ := bind_iff.mp h
  have c₁ := hc.same (sortedByPriority_same _ _ _ _ h₁).groups
  cases hw : s.waiting with
  | nil =>
    rw [hw] at h
    rw [update_iff.mp h]
    exact c₁.same rfl
  | cons id rest =>
    simp only [hw, getGroup_bind, Option.bind_eq_some_iff] at h
    obtain ⟨g, -, h⟩ := h
    obtain ⟨⟨u, k⟩, s₂, h₂, h⟩ := bind_iff.mp h
    obtain ⟨⟨running, victims⟩, s₃, h₃, h⟩ := bind_iff.mp h
    obtain ⟨_, s₄, h₄, h⟩ := bind_iff.mp h
    obtain ⟨waiting, s₅, h₅, h⟩ := bind_iff.mp h
    rw [update_iff.mp h]
    have c₂ := c₁.same (getNumNewUncachedAndCachedTokens_same p _ _ _ _ _ _ h₂).groups
    have c₃ : Counted s₃ := by
      refine priorityPreemptionLoop_rule (fun t _ _ => Counted t) (fun _ _ _ _ q i => i.same q.groups) ?_ h₃ c₂
      intro t v running victims mode pairs t₁ t' i ht hu
      obtain ⟨m, -, rfl⟩ := onManager_iff.mp hu
      exact (preempt_counted i ht).1.same rfl
    exact ((c₃.same (removeSeqFromComputedBlocksTracker_same _ _ _ _ _ h₄).groups).same
      (sortedByPriority_same _ _ _ _ h₅).groups).same rfl

/-! ## Policies -/

theorem scheduleDefault_counted {o : SchedulerOutputs} (hc : Counted s)
    (hs : scheduleDefault p none s = some (o, s')) :
    Counted s' ∧ (AllCovered p s' → ∀ sg ∈ o.scheduledSeqGroups, Fits s' sg) := by
  rw [scheduleDefault, read_bind] at hs
  obtain ⟨gs, s₁, h₁, hs⟩ := bind_iff.mp hs
  simp only [update_bind] at hs
  obtain ⟨t, ht⟩ : ∃ t, t = { s₁ with
      budget := gs.foldl (fun b (g : SequenceGroup) => b.addNumSeqs g.requestId g.getMaxNumRunningSeqs)
        (SchedulingBudget.init p.maxNumBatchedTokens p.maxNumSeqs)
      partialPrefillMetadata := none } := ⟨_, rfl⟩
  rw [← ht] at hs
  have ct : Counted t := by
    rw [ht]
    exact (hc.same (getGroups_same _ _ _ _ h₁).groups).same rfl
  obtain ⟨prefills, s₂, h₂, hs⟩ := bind_iff.mp hs
  obtain ⟨_, s₃, h₃, hs⟩ := bind_iff.mp hs
  obtain ⟨running, s₄, h₄, hs⟩ := bind_iff.mp hs
  obtain ⟨_, s₅, h₅, hs⟩ := bind_iff.mp hs
  have q₅ := checkBudget_same p _ _ _ h₅
  simp only [update_bind, require_bind, Option.ite_none_right_eq_some, read_bind, makeOutputs_iff] at hs
  obtain ⟨-, -, rfl, rfl⟩ := hs
  have c₂ : Counted s₂ ∧ (AllCovered p s₂ → ∀ sg ∈ prefills.seqGroups, Admitted s₂ sg) := by
    split at h₂
    · have i := schedulePrefills_counted (l := []) ct (fun _ sg hsg => by cases hsg) h₂
      rwa [List.nil_append] at i
    · obtain ⟨rfl, rfl⟩ := pure_iff.mp h₂
      exact ⟨ct, fun _ sg hsg => by cases hsg⟩
  have c₃ : Counted s₃ ∧ (AllCovered p s₃ → ∀ sg ∈ prefills.seqGroups, Fits s₃ sg) := by
    unfold Prog.when at h₃
    split at h₃
    · rename_i hnil
      refine ⟨schedulePriorityPreemption_counted c₂.1 h₃, fun _ sg hsg => ?_⟩
      rw [hnil.1] at hsg
      cases hsg
    · rw [(pure_iff.mp h₃).2]
      exact ⟨c₂.1, fun cov sg hsg => (c₂.2 cov sg hsg).fits⟩
  have c₄ : Counted s₄ ∧
      (AllCovered p s₄ → ∀ sg ∈ prefills.seqGroups ++ running.decodeSeqGroups, Fits s₄ sg) := by
    split at h₄
    · rename_i hnil
      have i := scheduleRunning_counted c₃.1 h₄
      rw [hnil, List.nil_append]
      exact ⟨i.toCounted, fun _ sg hsg => i.scheduled sg (.inr hsg)⟩
    · obtain ⟨rfl, rfl⟩ := pure_iff.mp h₄
      rw [SchedulerRunningOutputs.empty, List.append_nil]
      exact c₃
  refine ⟨(c₄.1.same q₅.groups).same rfl, fun cov sg hsg => ?_⟩
  have cov₅ : AllCovered p s₅ := cov
  exact Fits.same (Fits.same (c₄.2 (cov₅.same q₅) sg hsg) q₅.groups) rfl

theorem scheduleChunkedPrefill_counted {m : SeqId} {o : SchedulerOutputs}
    (h : Settled m s.waiting s.running s) (hc : Counted s)
    (hs : scheduleChunkedPrefill p none s = some (o, s')) :
    Counted s' ∧ (AllCovered p s' → ∀ sg ∈ o.scheduledSeqGroups, Fits s' sg) := by
  rw [scheduleChunkedPrefill, read_bind] at hs
  obtain ⟨runningGroups, s₁, h₁, hs⟩ := bind_iff.mp hs
  obtain ⟨waitingGroups, s₂, h₂, hs⟩ := bind_iff.mp hs
  have q₂ := IsTrans.trans _ _ _ (getGroups_same _ _ _ _ h₁) (getGroups_same _ _ _ _ h₂)
  simp only [update_bind] at hs
  obtain ⟨t, ht⟩ : ∃ t, t = { s₂ with
      budget := SchedulingBudget.init p.maxNumBatchedTokens p.maxNumSeqs
      partialPrefillMetadata := some (fromQueues p runningGroups waitingGroups) } := ⟨_, rfl⟩
  rw [← ht] at hs
  have qt : SameQueues s t := by
    rw [ht]
    exact IsTrans.trans _ _ _ q₂ ⟨⟨rfl, rfl, refl _⟩, rfl, rfl, rfl, rfl, rfl⟩
  have it : Settled m t.waiting t.running t := by
    rw [qt.waiting, qt.running]
    exact h.quiet qt
  obtain ⟨running, s₃, h₃, hs⟩ := bind_iff.mp hs
  have i₃ := scheduleRunning_settled it h₃
  have c₃ := scheduleRunning_counted (hc.same qt.groups) h₃
  rw [read_bind] at hs
  obtain ⟨prefills, s₄, h₄, hs⟩ := bind_iff.mp hs
  obtain ⟨_, s₅, h₅, hs⟩ := bind_iff.mp hs
  obtain ⟨finishing, s₆, h₆, hs⟩ := bind_iff.mp hs
  have q₆ := IsTrans.trans _ _ _ (checkBudget_same p _ _ _ h₅) (orderFinishingPrefillsFirst_same _ _ _ _ h₆)
  simp only [update_bind, read_bind, makeOutputs_iff] at hs
  obtain ⟨-, rfl, rfl⟩ := hs
  -- what has been scheduled so far is running
  have hl : ∀ sg ∈ running.prefillSeqGroups ++ running.decodeSeqGroups, Admitted s₃ sg := by
    intro sg hsg
    have hmem : sg.seqId ∈ s₃.running ++ (scheduledIds running.decodeSeqGroups ++
        scheduledIds running.prefillSeqGroups) := by
      rcases List.mem_append.mp hsg with hsg | hsg
      · exact List.mem_append_right _ (List.mem_append_right _ (List.mem_map_of_mem hsg))
      · exact List.mem_append_right _ (List.mem_append_left _ (List.mem_map_of_mem hsg))
    obtain ⟨g, hg, hrun, -⟩ := i₃.running_group hmem
    exact ⟨g, hg, hrun, fun hpre => c₃.scheduled sg (List.mem_append.mp hsg) g hg hrun hpre⟩
  have c₄ : Counted s₄ ∧ (AllCovered p s₄ →
      ∀ sg ∈ running.prefillSeqGroups ++ running.decodeSeqGroups ++ prefills.seqGroups, Admitted s₄ sg) := by
    split at h₄
    · exact schedulePrefills_counted c₃.toCounted (fun _ => hl) h₄
    · obtain ⟨rfl, rfl⟩ := pure_iff.mp h₄
      rw [SchedulerPrefillOutputs.empty, List.append_nil]
      exact ⟨c₃.toCounted, fun _ => hl⟩
  refine ⟨(c₄.1.same q₆.groups).same rfl, fun cov sg hsg => ?_⟩
  have cov₆ : AllCovered p s₆ := cov
  refine Fits.same ((c₄.2 (cov₆.same q₆) sg ?_).same q₆.groups).fits rfl
  simp only [List.mem_append] at hsg ⊢
  tauto

theorem scheduleQueues_counted {m : SeqId} {o : SchedulerOutputs} (h : Settled m s.waiting s.running s)
    (hc : Counted s) (hs : scheduleQueues p none s = some (o, s')) :
    Counted s' ∧ (AllCovered p s' → ∀ sg ∈ o.scheduledSeqGroups, Fits s' sg) := by
  rw [scheduleQueues, read_bind] at hs
  obtain ⟨waiting, s₁, h₁, hs⟩ := bind_iff.mp hs
  obtain ⟨running, s₂, h₂, hs⟩ := bind_iff.mp hs
  rw [update_bind] at hs
  have q₂ := IsTrans.trans _ _ _ (sortByQueryId_same _ _ _ _ h₁) (sortByQueryId_same _ _ _ _ h₂)
  have c : Counted { s₂ with waiting := waiting, running := running } := (hc.same q₂.groups).same rfl
  have i : Settled m waiting running { s₂ with waiting := waiting, running := running } :=
    ((h.quiet q₂).perm (sortByQueryId_perm h₁) (sortByQueryId_perm h₂)).same ⟨rfl, rfl, refl _⟩ rfl rfl
  split at hs
  · exact scheduleChunkedPrefill_counted i c hs
  · exact scheduleDefault_counted c hs

/-! ## `schedule` -/

/-- The metadata of a scheduled group repeats its chunk and its stage. -/
theorem groupMetadata_spec {now : Int} {sg : ScheduledSequenceGroup} {m : SequenceGroupMetadata}
    (h : groupMetadata p now sg s = some (m, s')) : m.seqId = sg.seqId ∧ m.tokenChunkSize = sg.tokenChunkSize ∧
      ∃ g, s.groups.get? sg.seqId = some g ∧ m.isPrompt = g.isPrefill ∧
        m.doSample = !(g.isPrefill && decide (sg.tokenChunkSize + g.numComputedTokens < g.getLen)) := by
  rw [groupMetadata, getGroup_bind, Option.bind_eq_some_iff] at h
  obtain ⟨g, hg, h⟩ := h
  obtain ⟨ids, s₁, -, h⟩ := bind_iff.mp h
  obtain ⟨nums, s₂, -, h⟩ := bind_iff.mp h
  obtain ⟨rfl, -⟩ := pure_iff.mp h
  exact ⟨rfl, rfl, g, hg, rfl, rfl⟩

/-- The prefills of a batch end within their sequences. -/
def BatchFits (batch : List SequenceGroupMetadata) (s : Scheduler) : Prop :=
  ∀ m ∈ batch, m.isPrompt = true → ∃ g, s.groups.get? m.seqId = some g ∧
    g.numComputedTokens + m.tokenChunkSize ≤ g.getLen

theorem schedule_counted {m : SeqId} {o : List SequenceGroupMetadata × SchedulerOutputs}
    (h : Settled m s.waiting s.running s) (hc : Counted s) (hs : schedule p none s = some (o, s')) :
    Counted s' ∧ (AllCovered p s' → BatchFits o.1 s') := by
  obtain ⟨i', hin⟩ := schedule_settled h hs
  obtain ⟨outputs, s₁, now, s₂, s₃, h₁, -, h₂, h₃, q⟩ := schedule_steps p hs
  have groups : s'.groups = s₁.groups := q.groups
  have trace : s'.blockManager.trace = s₁.blockManager.trace := q.owners.trace
  obtain ⟨counted, fits⟩ := scheduleQueues_counted h hc h₁
  have found := mapM_forall (fun t => t.groups = s₁.groups) (fun sg (x : SequenceGroupMetadata) =>
      x.seqId = sg.seqId ∧ x.tokenChunkSize = sg.tokenChunkSize ∧
        ∃ g, s₁.groups.get? sg.seqId = some g ∧ x.isPrompt = g.isPrefill)
    (fun sg t x t' ht hx => ⟨(groupMetadata_same p now sg _ _ _ hx).groups.trans ht, by
      obtain ⟨hid, hchunk, g, hg, hpre, -⟩ := groupMetadata_spec hx
      exact ⟨hid, hchunk, g, by rw [← ht]; exact hg, hpre⟩⟩) h₃ (time_same _ _ _ h₂).groups
  refine ⟨counted.same groups, fun cov x hx hprompt => ?_⟩
  have cov₁ : AllCovered p s₁ := by
    unfold AllCovered
    rw [← trace]
    exact cov
  obtain ⟨sg, hsg, hid, hchunk, g, hg, hpre⟩ := found x hx
  obtain ⟨g', hg', hrun, -⟩ := i'.running_group (hin x hx)
  have hgg : s₁.groups.get? sg.seqId = some g' := by
    rw [← hid, ← groups]
    exact hg'
  obtain rfl : g = g' := Option.some.inj (hg.symm.trans hgg)
  refine ⟨g, hg', ?_⟩
  rw [hchunk]
  exact fits cov₁ sg hsg g hg hrun (hpre.symm.trans hprompt)

end SchedM

end CoreFlow
