import CoreFlow.Scheduler.Settled

/-!
# The methods that move a group

One lemma for each method that changes the status of a group: what the groups, the tables, the
retained entries and the requested copies are afterwards.
-/

namespace CoreFlow
open Prog

namespace SchedM
variable {p : SchedulerParams} {s s' : Scheduler} {id : SeqId} {g : SequenceGroup}

theorem freeSeq_spec {u : Unit} (h : freeSeq p id s = some (u, s')) :
    s'.groups = s.groups ∧
      (∀ x, x ∈ s'.blockManager.blockTables ↔ x ≠ id ∧ x ∈ s.blockManager.blockTables) ∧
      s'.blockManager.gpuCachedEntries = s.blockManager.gpuCachedEntries ∧
      s'.blockManager.trace = s.blockManager.trace := by
  obtain ⟨m, hm, rfl⟩ := onManager_iff.mp h
  exact ⟨rfl, ManagerM.free_owners hm⟩

theorem preemptByRecompute_spec {u : Unit} (hg : s.groups.get? id = some g)
    (h : preemptByRecompute p id s = some (u, s')) : g.status = .running ∧
      s'.groups = s.groups.set id { g with status := .waiting }.resetStateForRecompute ∧
      (∀ x, x ∈ s'.blockManager.blockTables ↔ x ≠ id ∧ x ∈ s.blockManager.blockTables) ∧
      s'.blockManager.gpuCachedEntries = s.blockManager.gpuCachedEntries := by
  rw [preemptByRecompute, getGroup_bind, hg] at h
  simp only [Option.bind_some, require_bind, Option.ite_none_right_eq_some] at h
  obtain ⟨hs, h⟩ := h
  obtain ⟨_, s₁, h₁, h⟩ := bind_iff.mp h
  obtain ⟨g₀, hg₀, rfl⟩ := setStatus_iff.mp h₁
  obtain rfl : g = g₀ := Option.some.inj (hg.symm.trans hg₀)
  obtain ⟨_, s₂, h₂, h⟩ := bind_iff.mp h
  obtain ⟨groups, tables, entries, -⟩ := freeSeq_spec h₂
  rw [getGroup_bind, groups, Dict.get?_set_self, Option.bind_some, setGroup_iff] at h
  subst h
  refine ⟨hs, ?_, tables, entries⟩
  rw [groups, Dict.set_set]

theorem swapOut_spec {pairs : List SwapPair} (hg : s.groups.get? id = some g) (hs : g.status = .running)
    (h : swapOut p id s = some (pairs, s')) :
    s'.groups = s.groups.set id { g with status := .swapped } ∧
      (∀ x, x ∈ s'.blockManager.blockTables ↔ x ∈ s.blockManager.blockTables) ∧
      s'.blockManager.gpuCachedEntries = s.blockManager.gpuCachedEntries := by
  rw [swapOut, getGroup_bind, hg, Option.bind_some] at h
  obtain ⟨ok, s₁, h₁, h⟩ := bind_iff.mp h
  obtain ⟨m₁, hm₁, rfl⟩ := onManager_iff.mp h₁
  have o₁ := ManagerM.canSwapOut_owners _ _ _ _ _ hm₁
  simp only [require_bind, Option.ite_none_right_eq_some] at h
  obtain ⟨-, h⟩ := h
  obtain ⟨now, s₂, h₂, h⟩ := bind_iff.mp h
  have q₂ := time_same _ _ _ h₂
  obtain ⟨mapping, s₃, h₃, h⟩ := bind_iff.mp h
  obtain ⟨m₃, hm₃, rfl⟩ := onManager_iff.mp h₃
  have o₃ := ManagerM.swapOut_owners hm₃
  have o₂ := IsTrans.trans _ _ _ o₁ q₂.owners
  rw [when_pos hs] at h
  obtain ⟨_, s₄, h₄, h⟩ := bind_iff.mp h
  obtain ⟨rfl, rfl⟩ := pure_iff.mp h
  obtain ⟨g₀, hg₀, rfl⟩ := setStatus_iff.mp h₄
  have hgroups : s₂.groups = s.groups := q₂.groups
  rw [show ({ s₂ with blockManager := m₃ } : Scheduler).groups = s.groups from hgroups, hg,
    Option.some.injEq] at hg₀
  subst hg₀
  exact ⟨by rw [← hgroups], fun x => (o₃.tables x).trans (o₂.tables x), o₃.entries.trans o₂.entries⟩

theorem preemptBySwap_spec {pairs : List SwapPair} (hg : s.groups.get? id = some g)
    (hs : g.status = .running) (h : preemptBySwap p id s = some (pairs, s')) :
    s'.groups = s.groups.set id { g with status := .waiting }.resetStateForRecompute ∧
      (∀ x, x ∈ s'.blockManager.blockTables ↔ x ≠ id ∧ x ∈ s.blockManager.blockTables) ∧
      s'.blockManager.gpuCachedEntries = s.blockManager.gpuCachedEntries := by
  obtain ⟨mapping, s₁, h₁, h⟩ := bind_iff.mp h
  obtain ⟨groups₁, tables₁, entries₁⟩ := swapOut_spec hg hs h₁
  rw [getGroup_bind, groups₁, Dict.get?_set_self, Option.bind_some, when_pos rfl, Prog.bind_assoc,
    setGroup_bind] at h
  obtain ⟨_, s₂, h₂, h⟩ := bind_iff.mp h
  obtain ⟨rfl, rfl⟩ := pure_iff.mp h
  obtain ⟨groups₂, tables, entries, -⟩ := freeSeq_spec h₂
  refine ⟨?_, fun x => ?_, entries.trans entries₁⟩
  · rw [groups₂]
    show s₁.groups.set id _ = _
    rw [groups₁, Dict.set_set]
  · rw [tables]
    show _ ∧ x ∈ s₁.blockManager.blockTables ↔ _
    rw [tables₁]

theorem preempt_spec {x : PreemptionMode × List SwapPair} (hg : s.groups.get? id = some g)
    (hs : g.status = .running) (h : preempt p id s = some (x, s')) :
    s'.groups = s.groups.set id { g with status := .waiting }.resetStateForRecompute ∧
      (∀ x, x ∈ s'.blockManager.blockTables ↔ x ≠ id ∧ x ∈ s.blockManager.blockTables) ∧
      s'.blockManager.gpuCachedEntries = s.blockManager.gpuCachedEntries := by
  rw [preempt, getGroup_bind, hg, Option.bind_some] at h
  cases hm : preemptionModeOf p g with
  | recompute =>
    rw [hm] at h
    obtain ⟨_, s₁, h₁, h⟩ := bind_iff.mp h
    obtain ⟨rfl, rfl⟩ := pure_iff.mp h
    exact (preemptByRecompute_spec hg h₁).2
  | swap =>
    rw [hm] at h
    obtain ⟨mapping, s₁, h₁, h⟩ := bind_iff.mp h
    obtain ⟨rfl, rfl⟩ := pure_iff.mp h
    exact preemptBySwap_spec hg hs h₁

/-- A preempted group starts again from nothing; one that does not run and is not swapped stays as it is. -/
theorem preempt_cases {x : PreemptionMode × List SwapPair} (h : preempt p id s = some (x, s')) :
    ∃ g, s.groups.get? id = some g ∧ s'.blockManager.gpuCachedEntries = s.blockManager.gpuCachedEntries ∧
      (s'.groups = s.groups ∧ (∀ x, x ∈ s'.blockManager.blockTables ↔ x ∈ s.blockManager.blockTables) ∨
        g.isFinished = false ∧ s'.groups = s.groups.set id { g with status := .waiting }.resetStateForRecompute ∧
          ∀ x, x ∈ s'.blockManager.blockTables ↔ x ≠ id ∧ x ∈ s.blockManager.blockTables) := by
  have hp := h
  rw [preempt, getGroup_bind, Option.bind_eq_some_iff] at h
  obtain ⟨g, hg, h⟩ := h
  refine ⟨g, hg, ?_⟩
  by_cases hs : g.status = .running
  · obtain ⟨groups, tables, entries⟩ := preempt_spec hg hs hp
    exact ⟨entries, .inr ⟨by rw [SequenceGroup.isFinished, hs]; rfl, groups, tables⟩⟩
  cases hm : preemptionModeOf p g with
  | recompute =>
    rw [hm] at h
    obtain ⟨_, s₁, h₁, -⟩ := bind_iff.mp h
    simp [preemptByRecompute, getGroup_bind, hg, require_bind, hs] at h₁
  | swap =>
    rw [hm] at h
    obtain ⟨pairs, s₁, h₁, h⟩ := bind_iff.mp h
    obtain ⟨rfl, rfl⟩ := pure_iff.mp h
    obtain ⟨mapping, s₂, h₂, h₃⟩ := bind_iff.mp h₁
    -- the swap itself changes no status
    have swapped : s₂.groups = s.groups ∧
        (∀ x, x ∈ s₂.blockManager.blockTables ↔ x ∈ s.blockManager.blockTables) ∧
        s₂.blockManager.gpuCachedEntries = s.blockManager.gpuCachedEntries := by
      rw [swapOut, getGroup_bind, hg, Option.bind_some] at h₂
      obtain ⟨ok, t₁, ht₁, h₂⟩ := bind_iff.mp h₂
      rw [require_bind, Option.ite_none_right_eq_some] at h₂
      obtain ⟨now, t₂, ht₂, h₂⟩ := bind_iff.mp h₂.2
      obtain ⟨mapping', t₃, ht₃, h₂⟩ := bind_iff.mp h₂
      rw [when_neg hs] at h₂
      obtain ⟨_, t₄, ht₄, h₂⟩ := bind_iff.mp h₂
      obtain ⟨-, rfl⟩ := pure_iff.mp ht₄
      obtain ⟨-, rfl⟩ := pure_iff.mp h₂
      obtain ⟨m₁, hm₁, rfl⟩ := onManager_iff.mp ht₁
      obtain ⟨m₃, hm₃, rfl⟩ := onManager_iff.mp ht₃
      have q₂ := time_same _ _ _ ht₂
      have o₂ := IsTrans.trans _ _ _ (ManagerM.canSwapOut_owners _ _ _ _ _ hm₁) q₂.owners
      have o₃ := ManagerM.swapOut_owners hm₃
      exact ⟨q₂.groups, fun x => (o₃.tables x).trans (o₂.tables x), o₃.entries.trans o₂.entries⟩
    obtain ⟨groups, tables, entries⟩ := swapped
    rw [getGroup_bind, groups, hg, Option.bind_some] at h₃
    obtain ⟨_, s₃, h₄, h₃⟩ := bind_iff.mp h₃
    obtain ⟨-, rfl⟩ := pure_iff.mp h₃
    unfold Prog.when at h₄
    split at h₄
    · rename_i hswapped
      rw [setGroup_bind] at h₄
      obtain ⟨groups₃, tables₃, entries₃, -⟩ := freeSeq_spec h₄
      refine ⟨entries₃.trans entries, .inr ⟨by rw [SequenceGroup.isFinished, hswapped]; rfl, ?_, fun x => ?_⟩⟩
      · rw [groups₃, ← groups]
      · rw [tables₃, ← tables]
    · rw [(pure_iff.mp h₄).2]
      exact ⟨entries, .inl ⟨groups, tables⟩⟩

/-! ## Admission -/

/-- The entry retained under the key of a group. -/
def entryOf (g : SequenceGroup) (m : BlockSpaceManager) : Option GpuCachedEntry :=
  g.cacheKey.bind m.getGpuCachedEntry

/-- The prefix that a group takes as computed because its request or a retained entry says so. -/
def syntheticPrefixLen (p : SchedulerParams) (g : SequenceGroup) (entry : Option GpuCachedEntry) :
    Option Int :=
  if getInitialCachedTokens g > 0 then
    some (roundCachedTokens p (min (getInitialCachedTokens g) (max (g.getPromptLen - 1) 0)))
  else entry.map fun e => roundCachedTokens p (min e.tokenIds.length (max (g.getPromptLen - 1) 0))

theorem getExactGpuCachedTokens_iff {o : Option Int} : getExactGpuCachedTokens g s = some (o, s') ↔
    o = (entryOf g s.blockManager).map (fun e => (e.tokenIds.length : Int)) ∧ s' = s := by
  rw [getExactGpuCachedTokens, read_bind, entryOf]
  cases g.cacheKey with
  | none => exact pure_iff
  | some key => exact pure_iff

theorem hasSyntheticCacheSource_iff {b : Bool} : hasSyntheticCacheSource g s = some (b, s') ↔
    b = (syntheticPrefixLen p g (entryOf g s.blockManager)).isSome ∧ s' = s := by
  simp only [hasSyntheticCacheSource, bind_iff, getExactGpuCachedTokens_iff, pure_iff]
  have hb : (decide (getInitialCachedTokens g > 0) ||
      ((entryOf g s.blockManager).map (fun e => (e.tokenIds.length : Int))).isSome) =
      (syntheticPrefixLen p g (entryOf g s.blockManager)).isSome := by
    unfold syntheticPrefixLen
    split
    · rename_i hpos
      rw [decide_eq_true hpos]
      rfl
    · rename_i hpos
      rw [decide_eq_false hpos, Bool.false_or, Option.isSome_map, Option.isSome_map]
  constructor
  · rintro ⟨o, s₁, ⟨rfl, rfl⟩, rfl, rfl⟩
    exact ⟨hb, rfl⟩
  · rintro ⟨rfl, rfl⟩
    exact ⟨_, s', ⟨rfl, rfl⟩, hb.symm, rfl⟩

theorem resolveCachedPrefixLen_synthetic {l r : Int}
    (hl : syntheticPrefixLen p g (entryOf g s.blockManager) = some l)
    (h : resolveCachedPrefixLen p g s = some (r, s')) : r = l := by
  unfold resolveCachedPrefixLen at h
  unfold syntheticPrefixLen at hl
  split at h
  · rename_i hpos
    rw [if_pos hpos, Option.some.injEq] at hl
    rw [(pure_iff.mp h).1, hl]
  · rename_i hpos
    rw [if_neg hpos, Option.map_eq_some_iff] at hl
    obtain ⟨e, he, rfl⟩ := hl
    obtain ⟨o, s₁, h₁, h⟩ := bind_iff.mp h
    obtain ⟨rfl, rfl⟩ := getExactGpuCachedTokens_iff.mp h₁
    rw [he] at h
    exact (pure_iff.mp h).1

/-- The count that `_allocate_and_set_running` may raise, in whole blocks and up to `limit`. -/
def Registered (p : SchedulerParams) (limit : Option Int) (g g' : SequenceGroup) : Prop :=
  g' = g ∨ ∃ l n : Int, limit = some l ∧ n ≤ l ∧ g.numComputedTokens < n ∧ (p.blockSize : Int) ∣ n ∧
    g.updateNumComputedTokens (n - g.numComputedTokens) = some g'

theorem Registered.frame {limit : Option Int} {g' : SequenceGroup} (h : Registered p limit g g') :
    g'.requestId = g.requestId ∧ g'.seqId = g.seqId ∧ g'.promptTokenIds = g.promptTokenIds ∧
      g'.outputTokenIds = g.outputTokenIds ∧ g'.status = g.status ∧ g'.extraArgs = g.extraArgs := by
  rcases h with rfl | ⟨l, n, -, -, -, -, hk⟩
  · exact ⟨rfl, rfl, rfl, rfl, rfl, rfl⟩
  · rw [SequenceGroup.updateNumComputedTokens, Option.ite_none_right_eq_some, Option.some.injEq] at hk
    obtain ⟨-, rfl⟩ := hk
    exact ⟨rfl, rfl, rfl, rfl, rfl, rfl⟩

theorem allocateAndSetRunning_spec {pairs : List SwapPair} (hg : s.groups.get? id = some g)
    (h : allocateAndSetRunning p id s = some (pairs, s')) :
    g.seqId ∉ s.blockManager.blockTables ∧
      (∃ g', Registered p (syntheticPrefixLen p g (entryOf g s.blockManager)) g g' ∧
        s'.groups = s.groups.set id { g' with status := .running }) ∧
      (∀ x, x ∈ s'.blockManager.blockTables ↔ x = g.seqId ∨ x ∈ s.blockManager.blockTables) ∧
      s'.blockManager.gpuCachedEntries = s.blockManager.gpuCachedEntries ∧
      s'.blockManager.trace =
        { s.blockManager.trace with swapIns := s.blockManager.trace.swapIns ++ pairs } := by
  rw [allocateAndSetRunning, getGroup_bind, hg, Option.bind_some] at h
  obtain ⟨pairs', s₁, h₁, h⟩ := bind_iff.mp h
  obtain ⟨m₁, hm₁, rfl⟩ := onManager_iff.mp h₁
  obtain ⟨-, hfresh, tables, entries, trace⟩ := ManagerM.allocate_owners hm₁
  have entry : entryOf g m₁ = entryOf g s.blockManager := by
    unfold entryOf BlockSpaceManager.getGpuCachedEntry
    rw [entries]
  obtain ⟨initial, s₂, h₂, h⟩ := bind_iff.mp h
  have q₂ := resolveCachedPrefixLen_same _ _ _ _ _ h₂
  have entry₂ : entryOf g s₂.blockManager = entryOf g s.blockManager := by
    rw [← entry]
    unfold entryOf BlockSpaceManager.getGpuCachedEntry
    rw [q₂.owners.entries]
  obtain ⟨synthetic, s₃, h₃, h⟩ := bind_iff.mp h
  have q₃ : SameGroups _ s₃ :=
    (IsTrans.trans _ _ _ q₂ (hasSyntheticCacheSource_same _ _ _ _ h₃)).toSameGroups
  obtain ⟨_, s₄, h₄, h⟩ := bind_iff.mp h
  obtain ⟨_, s₅, h₅, h⟩ := bind_iff.mp h
  obtain ⟨rfl, rfl⟩ := pure_iff.mp h
  obtain ⟨g₅, hg₅, rfl⟩ := setStatus_iff.mp h₅
  have hg₃ : s₃.groups.get? id = some g := by rw [q₃.groups]; exact hg
  -- the registration changes the count of the group and nothing else of interest
  have reg : SameOwners s₃.blockManager s₄.blockManager ∧
      Registered p (syntheticPrefixLen p g (entryOf g s.blockManager)) g g₅ ∧
      (s₄.groups = s₃.groups ∨ s₄.groups = s₃.groups.set id g₅) := by
    unfold Prog.when at h₄
    split at h₄
    · rename_i hsyn
      obtain ⟨hb, -⟩ := (hasSyntheticCacheSource_iff (p := p)).mp h₃
      rw [hsyn.1, entry₂] at hb
      obtain ⟨l, hl⟩ := Option.isSome_iff_exists.mp hb.symm
      have hinit : initial = l := resolveCachedPrefixLen_synthetic (by rw [← hl]; exact congrArg _ entry) h₂
      obtain ⟨k, s₆, h₆, h₄⟩ := bind_iff.mp h₄
      obtain ⟨hle, hdvd⟩ := ManagerM.registerSyntheticCachedTokens_le (onManager_iff.mp h₆).choose_spec.1
      have hkl : k ≤ l := by
        have := hsyn.2
        omega
      have q₆ := onManager_same (ManagerM.registerSyntheticCachedTokens_owners _ _ _) _ _ _ h₆
      split at h₄
      · rename_i hgt
        simp only [ofOption_bind, Option.bind_eq_some_iff, setGroup_iff] at h₄
        obtain ⟨g', hg', rfl⟩ := h₄
        have e : g' = g₅ := Option.some.inj ((Dict.get?_set_self _ _ _).symm.trans hg₅)
        subst e
        exact ⟨q₆.owners, .inr ⟨l, k, hl, hkl, hgt, hdvd, hg'⟩, .inr (by rw [← q₆.groups])⟩
      · obtain ⟨-, rfl⟩ := pure_iff.mp h₄
        rw [q₆.groups, hg₃, Option.some.injEq] at hg₅
        exact ⟨q₆.owners, .inl hg₅.symm, .inl q₆.groups⟩
    · obtain ⟨-, rfl⟩ := pure_iff.mp h₄
      rw [hg₃, Option.some.injEq] at hg₅
      exact ⟨refl _, .inl hg₅.symm, .inl rfl⟩
  obtain ⟨o₄, hreg, groups₄⟩ := reg
  refine ⟨hfresh, ⟨g₅, hreg, ?_⟩, fun x => ?_, ?_, ?_⟩
  · rcases groups₄ with groups₄ | groups₄
    · rw [groups₄, q₃.groups]
    · rw [groups₄, Dict.set_set, q₃.groups]
  · rw [o₄.tables, q₃.owners.tables]
    exact tables x
  · rw [o₄.entries, q₃.owners.entries]
    exact entries
  · rw [o₄.trace, q₃.owners.trace]
    exact trace

theorem consumeExactGpuCacheHit_spec {u : Unit} (h : consumeExactGpuCacheHit p g s = some (u, s')) :
    s'.groups = s.groups ∧ s'.blockManager.trace = s.blockManager.trace ∧
      (g.cacheKey = none → s' = s) ∧ ∀ key, g.cacheKey = some key →
        (∀ x, x ∈ s'.blockManager.blockTables ↔
          x ∉ ManagerM.entrySeqIds s.blockManager key ∧ x ∈ s.blockManager.blockTables) ∧
        s'.blockManager.gpuCachedEntries = s.blockManager.gpuCachedEntries.erase key := by
  unfold consumeExactGpuCacheHit at h
  cases hkey : g.cacheKey with
  | none =>
    rw [hkey] at h
    obtain ⟨-, rfl⟩ := pure_iff.mp h
    exact ⟨rfl, rfl, fun _ => rfl, fun _ hk => by cases hk⟩
  | some key =>
    rw [hkey] at h
    obtain ⟨m, hm, rfl⟩ := onManager_iff.mp h
    obtain ⟨tables, entries, trace⟩ := ManagerM.evictCachedBlocks_owners hm
    refine ⟨rfl, trace, (fun h => by cases h), fun key' hk => ?_⟩
    obtain rfl : key = key' := Option.some.inj hk
    exact ⟨tables, entries⟩

/-- The four steps of an admission: the table is allocated, the admission is recorded, the entry under the
key of the group goes, and the rest counts against the budgets. -/
theorem admitPrefill_steps {numUncached numCached : Int} {ret ret' : SchedulerPrefillOutputs}
    (h : admitPrefill p id numUncached numCached ret s = some (ret', s')) : ∃ g pairs s₂ s₃,
      s.groups.get? id = some g ∧ allocateAndSetRunning p id s = some (pairs, s₂) ∧
      consumeExactGpuCacheHit p g (recordAdmission (admissionOf id g s.blockManager s₂) s₂) =
        some ((), s₃) ∧
      SameContent s₃ s' ∧
      ret' = { ret with
        seqGroups := ret.seqGroups ++ [⟨id,
          if (syntheticPrefixLen p g (entryOf g s.blockManager)).isSome then numUncached
          else numUncached + numCached⟩]
        blocksToSwapIn := ret.blocksToSwapIn ++ pairs } := by
  rw [admitPrefill, getGroup_bind, Option.bind_eq_some_iff] at h
  obtain ⟨g, hg, h⟩ := h
  obtain ⟨synthetic, s₁, h₁, h⟩ := bind_iff.mp h
  obtain ⟨rfl, rfl⟩ := (hasSyntheticCacheSource_iff (p := p)).mp h₁
  rw [read_bind] at h
  obtain ⟨pairs, s₂, h₂, h⟩ := bind_iff.mp h
  rw [update_bind] at h
  obtain ⟨_, s₃, h₃, h⟩ := bind_iff.mp h
  rw [getGroup_bind, Option.bind_eq_some_iff] at h
  obtain ⟨g₄, -, h⟩ := h
  obtain ⟨_, s₅, h₅, h⟩ := bind_iff.mp h
  simp only [read_bind, ofOption_bind, Option.bind_eq_some_iff] at h
  obtain ⟨budget, -, h⟩ := h
  obtain ⟨_, s₆, h₆, h⟩ := bind_iff.mp h
  obtain ⟨rfl, rfl⟩ := pure_iff.mp h
  exact ⟨g, pairs, s₂, s₃, hg, h₂, h₃, IsTrans.trans _ _ _ (maybeIncrementPartialPrefills_content p _ _ _ _ h₅)
    (modifyBudget_content _ _ _ _ h₆), rfl⟩

theorem admitPrefill_spec {numUncached numCached : Int} {ret ret' : SchedulerPrefillOutputs}
    (h : admitPrefill p id numUncached numCached ret s = some (ret', s')) : ∃ g pairs s₂ s₃,
      s.groups.get? id = some g ∧ allocateAndSetRunning p id s = some (pairs, s₂) ∧
      consumeExactGpuCacheHit p g (recordAdmission (admissionOf id g s.blockManager s₂) s₂) =
        some ((), s₃) ∧
      SameQueues s₃ s' ∧
      ret' = { ret with
        seqGroups := ret.seqGroups ++ [⟨id,
          if (syntheticPrefixLen p g (entryOf g s.blockManager)).isSome then numUncached
          else numUncached + numCached⟩]
        blocksToSwapIn := ret.blocksToSwapIn ++ pairs } := by
  obtain ⟨g, pairs, s₂, s₃, hg, h₂, h₃, q, hret⟩ := admitPrefill_steps h
  exact ⟨g, pairs, s₂, s₃, hg, h₂, h₃, q.queues, hret⟩

end SchedM

end CoreFlow
