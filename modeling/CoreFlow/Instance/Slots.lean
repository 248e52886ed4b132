import CoreFlow.Manager.Slots
import CoreFlow.Instance.Calls
import CoreFlow.Instance.Counts

/-!
# A batch is ready for the worker

What `schedule` hands to the worker: every group once, the prefills first, then the decodes with one token each,
and with every group a block table that has a slot for each of its tokens. The waiting groups that it ignored
are finished.
-/

namespace CoreFlow
open Prog SchedM

/-- While a group runs, it is in the stage that it was scheduled in, and its table has a slot for every token. -/
def Served (p : SchedulerParams) (s : Scheduler) (pre : Bool) (id : SeqId) : Prop :=
  ∀ g t, s.groups.get? id = some g → g.status = .running → s.blockManager.blockTables.get? id = some t →
    g.isPrefill = pre ∧ g.getTokenIds.length ≤ t.blocks.length * p.blockSize

/-- The group runs, and it is served. -/
structure Serves (p : SchedulerParams) (s : Scheduler) (pre : Bool) (id : SeqId) : Prop where
  running : ∃ g, s.groups.get? id = some g ∧ g.status = .running
  served : Served p s pre id

/-- The sequence of a group is the one that its place names. -/
def SeqIds (s : Scheduler) : Prop := ∀ id g, s.groups.get? id = some g → g.seqId = id

/-- The group was ignored. -/
def IsIgnored (s : Scheduler) (id : SeqId) : Prop := ∃ g, s.groups.get? id = some g ∧ g.status = .finishedIgnored

/-- The same groups and the same tables. -/
structure SameTables (s s' : Scheduler) : Prop where
  groups : s'.groups = s.groups
  tables : s'.blockManager.blockTables = s.blockManager.blockTables

instance : IsPreorder Scheduler SameTables where
  refl _ := ⟨rfl, rfl⟩
  trans _ _ _ h h' := ⟨h'.1.trans h.1, h'.2.trans h.2⟩

theorem SameContent.sameTables {s s' : Scheduler} (h : SameContent s s') : SameTables s s' :=
  ⟨h.groups, by rw [h.blockManager]⟩

section
variable {p : SchedulerParams} {s s' : Scheduler} {pre : Bool} {id x : SeqId} {g : SequenceGroup}

theorem Served.same (h : Served p s pre id) (q : SameTables s s') : Served p s' pre id := by
  unfold Served
  rw [q.groups, q.tables]
  exact h

theorem Serves.same (h : Serves p s pre id) (q : SameTables s s') : Serves p s' pre id := by
  refine ⟨?_, h.served.same q⟩
  rw [q.groups]
  exact h.running

theorem IsIgnored.same (h : IsIgnored s id) (groups : s'.groups = s.groups) : IsIgnored s' id := by
  unfold IsIgnored
  rw [groups]
  exact h

theorem SeqIds.same (h : SeqIds s) (groups : s'.groups = s.groups) : SeqIds s' := by
  unfold SeqIds
  rw [groups]
  exact h

/-- What happens to another sequence leaves a group served. -/
theorem Served.other {S : SeqId → Prop} (h : Served p s pre id) (groups : s'.groups.get? id = s.groups.get? id)
    (tables : Renews S s.blockManager s'.blockManager) (hS : ¬ S id) : Served p s' pre id := by
  intro g t hg hrun ht
  rw [groups] at hg
  exact h g t hg hrun (tables.kept hS ht)

/-- A group that was waiting is no other that is served. -/
theorem Serves.ne (h : Serves p s pre x) (hg : s.groups.get? id = some g) (hw : g.status = .waiting) : x ≠ id := by
  rintro rfl
  obtain ⟨g', hg', hrun⟩ := h.running
  obtain rfl := Option.some.inj (hg.symm.trans hg')
  rw [hw] at hrun
  cases hrun

/-- So it may be queued, admitted or ignored. -/
theorem Serves.set {S : SeqId → Prop} {g' : SequenceGroup} (h : Serves p s pre x) (hg : s.groups.get? id = some g)
    (hw : g.status = .waiting) (groups : s'.groups = s.groups.set id g')
    (tables : Renews S s.blockManager s'.blockManager) (hS : ∀ y, S y → y = id) : Serves p s' pre x := by
  have hx := h.ne hg hw
  have same : s'.groups.get? x = s.groups.get? x := by rw [groups, Dict.get?_set_ne _ _ (Ne.symm hx)]
  refine ⟨?_, h.served.other same tables fun hy => hx (hS x hy)⟩
  rw [same]
  exact h.running

/-- The records of the waiting groups are those of new requests. -/
structure Records (s : Scheduler) : Prop where
  seqIds : SeqIds s
  waiting : ∀ id g, s.groups.get? id = some g → g.status = .waiting → g.numComputedTokens = 0 ∧ g.isPrefill = true

theorem Records.same (h : Records s) (groups : s'.groups = s.groups) : Records s' := by
  refine ⟨h.seqIds.same groups, ?_⟩
  rw [groups]
  exact h.waiting

theorem Records.set {g' : SequenceGroup} (h : Records s) (groups : s'.groups = s.groups.set id g') (hseq : g'.seqId = id)
    (hs : g'.status ≠ .waiting) : Records s' := by
  refine ⟨fun x gx hx => ?_, fun x gx hx hw => ?_⟩
  · rw [groups, Dict.get?_set] at hx
    split at hx
    · rename_i hid
      rw [← Option.some.inj hx, ← hid, hseq]
    · exact h.seqIds x gx hx
  · rw [groups, Dict.get?_set] at hx
    split at hx
    · rw [← Option.some.inj hx] at hw
      exact absurd hw hs
    · exact h.waiting x gx hx hw

namespace SchedM

/-! ## Steps that keep the tables -/

theorem sameTables_of_blocks {α : Type} {m : ManagerM α} (h : Within SameBlocks m) : Within SameTables (onManager m) :=
  .zoom h fun _ _ h => ⟨rfl, h.blockTables⟩

theorem sameTables_of_content {α : Type} {m : SchedM α} (h : Within SameContent m) : Within SameTables m :=
  h.mono fun _ _ h => h.sameTables

theorem getNumNewUncachedAndCachedTokens_tables (g : SequenceGroup) (status : SequenceStatus) (c : Bool) :
    Within SameTables (getNumNewUncachedAndCachedTokens p g status c) :=
  getNumNewUncachedAndCachedTokens_rule p (fun d => sameTables_of_blocks (ManagerM.getNumCachedTokens_same _ g d)) status c

theorem removeSeqFromComputedBlocksTracker_tables (id : SeqId) (status : SequenceStatus) :
    Within SameTables (removeSeqFromComputedBlocksTracker id status) :=
  .bind (sameTables_of_content (getGroup_content id)) fun _ =>
    .when (sameTables_of_blocks (ManagerM.removeSeqFromComputedBlocksTracker_same id))

theorem prefillStep_tables {c : Bool} {step : PrefillStep} (h : prefillStep p id c s = some (step, s')) :
    s'.blockManager.blockTables = s.blockManager.blockTables := by
  obtain ⟨g, -, -, ⟨-, rfl⟩ | ⟨u, k, s₁, h₁, hs⟩⟩ := prefillStep_cases h
  · rfl
  have q₁ := getNumNewUncachedAndCachedTokens_tables g _ c _ _ _ h₁
  rcases hs with ⟨-, hs⟩ | ⟨-, hs⟩ | ⟨-, rfl⟩
  · exact (removeSeqFromComputedBlocksTracker_tables _ _ _ _ _ hs).tables.trans q₁.tables
  · exact (removeSeqFromComputedBlocksTracker_tables _ _ _ _ _ hs).tables.trans q₁.tables
  · exact q₁.tables

/-! ## Preemption -/

/-- A preemption makes a table for the sequence that it is about at most. -/
theorem preempt_renews {o : PreemptionMode × List SwapPair} (hseq : SeqIds s) (h : preempt p id s = some (o, s')) :
    Renews (· = id) s.blockManager s'.blockManager := by
  let R := OnManager (Renews (· = id))
  have content {α : Type} {m : SchedM α} (h : Within SameContent m) : Within R m := kept_of_content h
  rw [preempt, getGroup_bind, Option.bind_eq_some_iff] at h
  obtain ⟨g, hg, h⟩ := h
  have free : Within R (freeSeq p id) := onManager_kept (ManagerM.free_renews id)
  cases hm : preemptionModeOf p g with
  | recompute =>
    rw [hm] at h
    obtain ⟨_, s₁, h₁, h⟩ := bind_iff.mp h
    rw [(pure_iff.mp h).2]
    have recompute : Within R (preemptByRecompute p id) :=
      .bind (content (getGroup_content id)) fun _ => .bind (.require _) fun _ => .bind (setStatus_kept _ _) fun _ =>
        .bind free fun _ => .bind (content (getGroup_content id)) fun _ => setGroup_kept _ _
    exact recompute _ _ _ h₁
  | swap =>
    rw [hm] at h
    obtain ⟨pairs, s₁, h₁, h⟩ := bind_iff.mp h
    rw [(pure_iff.mp h).2]
    obtain ⟨mapping, s₂, h₂, h₁⟩ := bind_iff.mp h₁
    rw [swapOut, getGroup_bind, hg, Option.bind_some] at h₂
    have swap : Within R (do
        let ok ← onManager (ManagerM.canSwapOut p.toManagerParams g)
        Prog.require (ok = true)
        let now ← time
        let mapping ← onManager (ManagerM.swapOut p.toManagerParams g now)
        Prog.when (g.status = .running) (setStatus id .swapped)
        pure mapping) :=
      .bind (onManager_kept (ManagerM.canSwapOut_renews g)) fun _ => .bind (.require _) fun _ =>
        .bind (content time_content) fun now => .bind (onManager_kept (ManagerM.swapOut_renews (hseq id g hg) now)) fun _ =>
          .bind (.when (setStatus_kept _ _)) fun _ => .pure _
    have rest : Within R (do
        let g ← getGroup id
        Prog.when (g.status = .swapped) (do
          setGroup id { g with status := .waiting }.resetStateForRecompute
          freeSeq p id)
        pure mapping) :=
      .bind (content (getGroup_content id)) fun _ => .bind (.when (.bind (setGroup_kept _ _) fun _ => free)) fun _ => .pure _
    exact IsTrans.trans _ _ _ (swap _ _ _ h₂) (rest _ _ _ h₁)

theorem preempt_served {o : PreemptionMode × List SwapPair} (hseq : SeqIds s) (h : preempt p id s = some (o, s')) :
    SeqIds s' ∧ ∀ pre x, Served p s pre x → Served p s' pre x := by
  have tables := preempt_renews hseq h
  have groups {x : SeqId} (hx : x ≠ id) : s'.groups.get? x = s.groups.get? x := by
    obtain ⟨g, -, groups | groups⟩ := preempt_groups h
    · rw [groups]
    · rw [groups, Dict.get?_set_ne _ _ (Ne.symm hx)]
  refine ⟨fun x gx hx => ?_, fun pre x served => ?_⟩
  · obtain ⟨g, hg, groups | groups⟩ := preempt_groups h
    · rw [groups] at hx
      exact hseq x gx hx
    · rw [groups, Dict.get?_set] at hx
      split at hx
      · rename_i hid
        rw [← Option.some.inj hx, ← hid]
        exact hseq id g hg
      · exact hseq x gx hx
  · by_cases hx : x = id
    · subst hx
      intro g' t hg' hrun ht
      obtain ⟨g, hg, -⟩ := preempt_groups h
      by_cases hs : g.status = .running
      · -- what ran waits now
        rw [(preempt_spec hg hs h).1, Dict.get?_set_self] at hg'
        rw [← Option.some.inj hg'] at hrun
        cases hrun
      · obtain ⟨g₁, hg₁, groups | groups⟩ := preempt_groups h
        · rw [groups, hg] at hg'
          exact absurd (Option.some.inj hg' ▸ hrun) hs
        · rw [groups, Dict.get?_set_self] at hg'
          rw [← Option.some.inj hg'] at hrun
          cases hrun
    · exact served.other (groups hx) tables hx

/-! ## The running queue -/

/-- Slots are appended to the table of a group that runs; the groups stay as they are. -/
theorem appendSlots_served {cows : List (BlockId × BlockId)} (hseq : SeqIds s)
    (h : appendSlots p id s = some (cows, s')) : s'.groups = s.groups ∧
      (∀ g, s.groups.get? id = some g → Served p s' g.isPrefill id) ∧ ∀ pre x, Served p s pre x → Served p s' pre x := by
  have groups := (appendSlots_same p id _ _ _ h).groups
  rw [appendSlots, getGroup_bind, Option.bind_eq_some_iff] at h
  obtain ⟨g, hg, h⟩ := h
  split at h
  · obtain ⟨m, hm, rfl⟩ := onManager_iff.mp h
    have slots (t : BlockTable) (ht : m.blockTables.get? id = some t) :
        g.getTokenIds.length ≤ t.blocks.length * p.blockSize := by
      rw [← hseq id g hg] at ht
      exact ManagerM.appendSlots_slots hm ht
    refine ⟨groups, fun g₁ hg₁ g' t hg' _ ht => ?_, fun pre x served => ?_⟩
    · obtain rfl := Option.some.inj (hg₁.symm.trans hg)
      obtain rfl := Option.some.inj (hg₁.symm.trans hg')
      exact ⟨rfl, slots t ht⟩
    · by_cases hx : x = id
      · subst hx
        intro g' t hg' hrun ht
        obtain rfl := Option.some.inj (hg.symm.trans hg')
        obtain ⟨t₀, ht₀⟩ : ∃ t₀, s.blockManager.blockTables.get? x = some t₀ := by
          have hin := ((ManagerM.appendSlots_owners hm).tables x).mp (Dict.mem_of_get? ht)
          exact Option.isSome_iff_exists.mp (Dict.mem_iff_isSome.mp hin)
        exact ⟨(served g t₀ hg hrun ht₀).1, slots t ht⟩
      · exact served.other rfl (ManagerM.appendSlots_renews (S := (· = id)) (hseq id g hg) _ _ _ _ hm) hx
  · rename_i hs
    obtain ⟨-, rfl⟩ := pure_iff.mp h
    refine ⟨rfl, fun g₁ hg₁ g' t hg' hrun _ => ?_, fun _ _ served => served⟩
    obtain rfl := Option.some.inj (hg.symm.trans hg')
    exact absurd hrun hs

/-- Everything that a round of `_schedule_running` has scheduled is served. -/
structure ServedRun (p : SchedulerParams) (s : Scheduler) (ret : SchedulerRunningOutputs) : Prop where
  seqIds : SeqIds s
  decodes : ∀ sg ∈ ret.decodeSeqGroups, Served p s false sg.seqId ∧ sg.tokenChunkSize = 1
  prefills : ∀ sg ∈ ret.prefillSeqGroups, Served p s true sg.seqId

theorem ServedRun.same {ret : SchedulerRunningOutputs} (h : ServedRun p s ret) (q : SameTables s s') :
    ServedRun p s' ret :=
  ⟨h.seqIds.same q.groups, fun sg hsg => ⟨(h.decodes sg hsg).1.same q, (h.decodes sg hsg).2⟩,
    fun sg hsg => (h.prefills sg hsg).same q⟩

theorem ServedRun.preempt {ret ret' : SchedulerRunningOutputs} (h : ServedRun p s ret)
    (hp : preemptVictim p none id ret s = some (ret', s')) : ServedRun p s' ret' := by
  unfold preemptVictim at hp
  simp only [Prog.pure_bind, if_true] at hp
  obtain ⟨⟨mode, pairs⟩, s₁, h₁, hp⟩ := bind_iff.mp hp
  obtain ⟨seqIds, served⟩ := preempt_served h.seqIds h₁
  have lists : ret'.decodeSeqGroups = ret.decodeSeqGroups ∧ ret'.prefillSeqGroups = ret.prefillSeqGroups ∧ s' = s₁ := by
    cases mode with
    | recompute =>
      obtain ⟨rfl, hs⟩ := pure_iff.mp hp
      exact ⟨rfl, rfl, hs⟩
    | swap =>
      obtain ⟨rfl, hs⟩ := pure_iff.mp hp
      exact ⟨rfl, rfl, hs⟩
  obtain ⟨hdecode, hprefill, rfl⟩ := lists
  refine ⟨seqIds, fun sg hsg => ?_, fun sg hsg => ?_⟩
  · rw [hdecode] at hsg
    exact ⟨served _ _ (h.decodes sg hsg).1, (h.decodes sg hsg).2⟩
  · rw [hprefill] at hsg
    exact served _ _ (h.prefills sg hsg)

theorem ServedRun.schedule {n : Int} {c : Bool} {ret ret' : SchedulerRunningOutputs} (h : ServedRun p s ret)
    (hs : scheduleRunningGroup p id n c ret s = some (ret', s')) : ServedRun p s' ret' := by
  obtain ⟨cows, s₁, h₁, hs⟩ := bind_iff.mp hs
  obtain ⟨groups, new, served⟩ := appendSlots_served h.seqIds h₁
  rw [getGroup_bind, Option.bind_eq_some_iff] at hs
  obtain ⟨g, hg, hs⟩ := hs
  simp only [read_bind, ofOption_bind, Option.bind_eq_some_iff] at hs
  obtain ⟨budget, -, hs⟩ := hs
  obtain ⟨_, s₂, h₂, hs⟩ := bind_iff.mp hs
  have q₂ := (modifyBudget_content _ _ _ _ h₂).sameTables
  obtain ⟨rfl, rfl⟩ := pure_iff.mp hs
  rw [groups] at hg
  have i₁ : ServedRun p s₁ ret := ⟨h.seqIds.same groups,
    fun sg hsg => ⟨served _ _ (h.decodes sg hsg).1, (h.decodes sg hsg).2⟩,
    fun sg hsg => served _ _ (h.prefills sg hsg)⟩
  have i₂ := i₁.same q₂
  have newest := (new g hg).same q₂
  refine ⟨i₂.seqIds, fun sg hsg => ?_, fun sg hsg => ?_⟩
  · split at hsg
    · exact i₂.decodes sg hsg
    · rename_i hpre
      rcases List.mem_append.mp hsg with hsg | hsg
      · exact i₂.decodes sg hsg
      · rw [List.mem_singleton.mp hsg]
        rw [Bool.not_eq_true] at hpre
        rw [hpre] at newest
        exact ⟨newest, rfl⟩
  · split at hsg
    · rename_i hpre
      rcases List.mem_append.mp hsg with hsg | hsg
      · exact i₂.prefills sg hsg
      · rw [List.mem_singleton.mp hsg]
        rw [hpre] at newest
        exact newest
    · exact i₂.prefills sg hsg

theorem scheduleRunning_served {c : Bool} {ret : SchedulerRunningOutputs} (hseq : SeqIds s)
    (h : scheduleRunning p none c s = some (ret, s')) : ServedRun p s' ret := by
  simp only [scheduleRunning, read_bind, require_bind, Option.ite_none_right_eq_some] at h
  have start : ServedRun p s .empty :=
    ⟨hseq, fun sg hsg => absurd hsg List.not_mem_nil, fun sg hsg => absurd hsg List.not_mem_nil⟩
  refine scheduleRunningLoop_steps (fun _ t ret => ServedRun p t ret) c (fun _ _ _ _ q i => i.same q.toSameContent.sameTables)
    (fun _ _ _ _ _ i _ => i.same ⟨rfl, rfl⟩) (fun _ _ _ _ _ _ i ht => i.schedule ht) ?_
    (fun _ _ _ _ _ _ i _ ht => i.preempt ht) ?_ ?_ h.2 start
  · intro cur v t ret ret' t' i _ ht
    have i' : ServedRun p { t with running := t.running.dropLast } ret := i.same ⟨rfl, rfl⟩
    exact i'.preempt ht
  · intro t t' id rest g x ret i _ _ ht
    exact i.same (getNumNewUncachedAndCachedTokens_tables g _ c _ _ _ ht)
  · intro t₀ t id rest g n k ret i _ _ _ _
    exact i.same ⟨rfl, rfl⟩

/-! ## The waiting queue -/

/-- What is registered for a new sequence does not end its prefill. -/
theorem Registered.isPrefill {g' : SequenceGroup} {entry : Option GpuCachedEntry} (hpre : g.isPrefill = true)
    (h0 : g.numComputedTokens = 0) (h : Registered p (syntheticPrefixLen p g entry) g g') : g'.isPrefill = true := by
  rcases h with rfl | ⟨l, n, hl, hn, hpos, -, hset⟩
  · exact hpre
  have hle : l ≤ max (g.getPromptLen - 1) 0 := by
    unfold syntheticPrefixLen at hl
    split at hl
    · have hr := roundCachedTokens_le (p := p) (min (getInitialCachedTokens g) (max (g.getPromptLen - 1) 0))
      have := Option.some.inj hl
      omega
    · obtain ⟨e, -, rfl⟩ := Option.map_eq_some_iff.mp hl
      have hr := roundCachedTokens_le (p := p) (min e.tokenIds.length (max (g.getPromptLen - 1) 0))
      omega
  have hprompt := g.getPromptLen_le
  rw [SequenceGroup.updateNumComputedTokens, Option.ite_none_right_eq_some, Option.some.injEq] at hset
  obtain ⟨-, rfl⟩ := hset
  have hleft : ¬ g.getLen - (g.numComputedTokens + (n - g.numComputedTokens)) = 0 := by omega
  show decide ((if g.getLen - (g.numComputedTokens + (n - g.numComputedTokens)) = 0 then SequenceStage.decode
    else g.stage) = .prefill) = true
  rw [if_neg hleft]
  exact hpre

theorem allocateAndSetRunning_slots {pairs : List SwapPair} (hg : s.groups.get? id = some g) (hseq : g.seqId = id)
    (h : allocateAndSetRunning p id s = some (pairs, s')) : Renews (· = id) s.blockManager s'.blockManager ∧
      ∀ t, s'.blockManager.blockTables.get? id = some t → g.getTokenIds.length ≤ t.blocks.length * p.blockSize := by
  rw [allocateAndSetRunning, getGroup_bind, hg, Option.bind_some] at h
  obtain ⟨pairs', s₁, h₁, h⟩ := bind_iff.mp h
  obtain ⟨m, hm, rfl⟩ := onManager_iff.mp h₁
  let R := OnManager (Renews fun _ => False)
  have rest : Within R (do
      let initialCachedTokens ← resolveCachedPrefixLen p g
      let synthetic ← hasSyntheticCacheSource g
      Prog.when (synthetic = true ∧ initialCachedTokens > 0) (do
        let n ← onManager (ManagerM.registerSyntheticCachedTokens p.toManagerParams g initialCachedTokens)
        Prog.when (n > g.numComputedTokens) (do
          let g' ← Prog.ofOption (g.updateNumComputedTokens (n - g.numComputedTokens))
          setGroup id g'))
      setStatus id .running
      pure pairs') := by
    refine .bind (resolveCachedPrefixLen_rule p fun d => onManager_kept (ManagerM.renews_of_same
      (ManagerM.getNumCachedTokens_same _ g d))) fun n => .bind hasSyntheticCacheSource_any fun _ => .bind (.when ?_)
        fun _ => .bind (setStatus_kept _ _) fun _ => .pure _
    exact .bind (onManager_kept (ManagerM.registerSyntheticCachedTokens_renews g n)) fun _ =>
      .when (.bind (.ofOption _) fun _ => setGroup_kept _ _)
  have after : Renews (fun _ => False) m s'.blockManager := rest _ _ _ h
  refine ⟨IsTrans.trans _ _ _ (ManagerM.allocate_renews (S := (· = id)) hseq _ _ _ hm) (after.mono fun _ h => h.elim),
    fun t ht => ?_⟩
  have before := after.kept (S := fun _ => False) not_false ht
  rw [← hseq] at before
  exact ManagerM.allocate_slots hm before

theorem consumeExactGpuCacheHit_renews {S : SeqId → Prop} (g : SequenceGroup) :
    Within (OnManager (Renews S)) (consumeExactGpuCacheHit p g) := by
  unfold consumeExactGpuCacheHit
  split
  · exact .pure _
  · exact onManager_kept (ManagerM.evictCachedBlocks_renews _)

/-- An admitted group is served, and so are the others still. -/
theorem admitPrefill_serves {u k : Int} {ret ret' : SchedulerPrefillOutputs} (i : Records s)
    (hg : s.groups.get? id = some g) (hw : g.status = .waiting)
    (h : admitPrefill p id u k ret s = some (ret', s')) : Records s' ∧ Serves p s' true id ∧
      (∀ pre x, Serves p s pre x → Serves p s' pre x) ∧ ∃ g', s'.groups = s.groups.set id g' := by
  obtain ⟨g₁, pairs, s₂, s₃, hg₁, h₂, h₃, q, -⟩ := admitPrefill_steps h
  obtain rfl : g = g₁ := Option.some.inj (hg.symm.trans hg₁)
  obtain ⟨-, ⟨g', hreg, groups₂⟩, -⟩ := allocateAndSetRunning_spec hg h₂
  obtain ⟨renews₂, slots⟩ := allocateAndSetRunning_slots hg (i.seqIds id g hg) h₂
  have recorded : Renews (fun _ => False) s₂.blockManager
      (recordAdmission (admissionOf id g s.blockManager s₂) s₂).blockManager := .of_tables rfl
  have renews₃ : Renews (fun _ => False) s₂.blockManager s₃.blockManager :=
    IsTrans.trans _ _ _ recorded (consumeExactGpuCacheHit_renews g _ _ _ h₃)
  have groups : s'.groups = s.groups.set id { g' with status := .running } :=
    (q.groups.trans (consumeExactGpuCacheHit_spec h₃).1).trans groups₂
  have tables : s'.blockManager.blockTables = s₃.blockManager.blockTables := q.sameTables.tables
  obtain ⟨-, hseq, hprompt, houtput, -⟩ := hreg.frame
  have all : Renews (· = id) s.blockManager s'.blockManager :=
    IsTrans.trans _ _ _ renews₂ (IsTrans.trans _ _ _ (renews₃.mono fun _ h => h.elim) (.of_tables tables))
  have hself : s'.groups.get? id = some { g' with status := .running } := by rw [groups, Dict.get?_set_self]
  refine ⟨i.set groups (hseq.trans (i.seqIds id g hg)) (fun h => by cases h), ⟨⟨_, hself, rfl⟩, ?_⟩,
    fun pre x serves => serves.set hg hw groups all fun _ h => h, _, groups⟩
  intro gx t hgx _ ht
  obtain rfl := Option.some.inj (hself.symm.trans hgx)
  obtain ⟨h0, hpre⟩ := i.waiting id g hg hw
  have prefill : g'.isPrefill = true := Registered.isPrefill hpre h0 hreg
  refine ⟨prefill, ?_⟩
  rw [tables] at ht
  have room := slots t (renews₃.kept (S := fun _ => False) not_false ht)
  show (g'.promptTokenIds ++ g'.outputTokenIds).length ≤ _
  rw [hprompt, houtput]
  exact room

/-- Everything that a round of `_schedule_prefills` has scheduled is served, and so is what was scheduled before. -/
structure ServedPrefills (p : SchedulerParams) (before : Bool → SeqId → Prop) (s : Scheduler)
    (ret : SchedulerPrefillOutputs) : Prop where
  records : Records s
  before : ∀ pre x, before pre x → Serves p s pre x
  prefills : ∀ sg ∈ ret.seqGroups, Serves p s true sg.seqId
  ignored : ∀ id ∈ ret.ignoredSeqGroups, IsIgnored s id

theorem ServedPrefills.same {before : Bool → SeqId → Prop} {ret : SchedulerPrefillOutputs}
    (h : ServedPrefills p before s ret) (q : SameTables s s') : ServedPrefills p before s' ret := by
  exact ⟨h.records.same q.groups, fun pre x hx => (h.before pre x hx).same q, fun sg hsg => (h.prefills sg hsg).same q,
    fun x hx => (h.ignored x hx).same q.groups⟩

/-- A waiting group changes, and nothing else does. -/
theorem ServedPrefills.set {before : Bool → SeqId → Prop} {ret : SchedulerPrefillOutputs} {g' : SequenceGroup}
    (h : ServedPrefills p before s ret) (hg : s.groups.get? id = some g) (hw : g.status = .waiting)
    (groups : s'.groups = s.groups.set id g') (records : Records s')
    (serves : ∀ pre x, Serves p s pre x → Serves p s' pre x) : ServedPrefills p before s' ret := by
  refine ⟨records, fun pre x hx => serves _ _ (h.before pre x hx), fun sg hsg => serves _ _ (h.prefills sg hsg), ?_⟩
  intro x hx
  obtain ⟨gx, hgx, hs⟩ := h.ignored x hx
  refine ⟨gx, ?_, hs⟩
  rw [groups, Dict.get?_set_ne, hgx]
  rintro rfl
  obtain rfl := Option.some.inj (hg.symm.trans hgx)
  rw [hw] at hs
  cases hs

theorem schedulePrefills_serves {c : Bool} {before : Bool → SeqId → Prop} {ret : SchedulerPrefillOutputs}
    (start : ServedPrefills p before s .empty) (h : schedulePrefills p c s = some (ret, s')) :
    ServedPrefills p before s' ret := by
  rw [schedulePrefills, read_bind] at h
  split at h
  · obtain ⟨rfl, rfl⟩ := pure_iff.mp h
    exact start
  obtain ⟨⟨ret₁, left⟩, s₁, h₁, h⟩ := bind_iff.mp h
  simp only [update_bind, pure_iff] at h
  obtain ⟨rfl, rfl⟩ := h
  suffices i : ServedPrefills p before s₁ ret from i.same ⟨rfl, rfl⟩
  refine schedulePrefillsLoop_steps (fun t ret _ => ServedPrefills p before t ret) c
    (fun _ _ _ _ q i => i.same q.toSameContent.sameTables) ?_ ?_ ?_ ?_ h₁ start
  · intro t id rest t' ret left _ i ht
    obtain ⟨g, -, -, hq, -⟩ := prefillStep_same ht
    exact i.same ⟨(hq fun h => by cases h).groups, prefillStep_tables ht⟩
  · intro t id rest t' ret left _ i ht
    obtain ⟨g, -, -, hq, -⟩ := prefillStep_same ht
    have i' : ServedPrefills p before t' ret := i.same ⟨(hq fun h => by cases h).groups, prefillStep_tables ht⟩
    exact i'.same ⟨rfl, rfl⟩
  · -- an ignored group is finished
    intro t id rest t' ret left _ i ht
    obtain ⟨g, hg, hw, -, hig⟩ := prefillStep_same ht
    obtain ⟨t₁, q₁, q₂⟩ := hig rfl
    have groups : t'.groups = t.groups.set id { g with status := .finishedIgnored } := by rw [q₂.groups, ← q₁.groups]
    have tables : Renews (fun _ => False) t.blockManager t'.blockManager := .of_tables (prefillStep_tables ht)
    have i' : ServedPrefills p before t' ret :=
      i.set hg hw groups (i.records.set groups (i.records.seqIds id g hg) fun h => by cases h)
        fun pre x serves => serves.set hg hw groups tables fun _ h => h.elim
    refine ⟨i'.records.same rfl, fun pre x hx => (i'.before pre x hx).same ⟨rfl, rfl⟩,
      fun sg hsg => (i'.prefills sg hsg).same ⟨rfl, rfl⟩, fun x hx => ?_⟩
    rcases List.mem_append.mp hx with hx | hx
    · exact i'.ignored x hx
    · rw [List.mem_singleton.mp hx]
      exact ⟨_, (congrArg (fun d : Dict SeqId SequenceGroup => d.get? id) groups).trans (Dict.get?_set_self _ _ _), rfl⟩
  · -- an accepted one starts to run
    intro t id rest u k t₁ ret ret' t' left _ i ht ha
    obtain ⟨g, hg, hw, hq, -⟩ := prefillStep_same ht
    have q₁ : SameTables t t₁ := ⟨(hq fun h => by cases h).groups, prefillStep_tables ht⟩
    have i₁ : ServedPrefills p before { t₁ with waiting := rest } ret := (i.same q₁).same ⟨rfl, rfl⟩
    rw [← q₁.groups] at hg
    obtain ⟨records, new, serves, g', groups⟩ := admitPrefill_serves i₁.records hg hw ha
    have i' := i₁.set hg hw groups records serves
    obtain ⟨-, -, -, -, -, -, -, -, rfl⟩ := admitPrefill_steps ha
    refine ⟨i'.records, i'.before, fun sg hsg => ?_, i'.ignored⟩
    rcases List.mem_append.mp hsg with hsg | hsg
    · exact i'.prefills sg hsg
    · rw [List.mem_singleton.mp hsg]
      exact new

/-! ## Policies -/

/-- A group that was ignored is not preempted. -/
theorem preempt_ignored {o : PreemptionMode × List SwapPair} (i : IsIgnored s x) (h : preempt p id s = some (o, s')) :
    IsIgnored s' x := by
  obtain ⟨g, hg, -, ⟨groups, -⟩ | ⟨hunfinished, groups, -⟩⟩ := preempt_cases h
  · exact i.same groups
  · obtain ⟨gx, hgx, hs⟩ := i
    refine ⟨gx, ?_, hs⟩
    rw [groups, Dict.get?_set_ne, hgx]
    rintro rfl
    obtain rfl := Option.some.inj (hg.symm.trans hgx)
    rw [SequenceGroup.isFinished, hs] at hunfinished
    cases hunfinished

theorem preemptVictim_ignored {ret ret' : SchedulerRunningOutputs} (i : IsIgnored s x)
    (h : preemptVictim p none id ret s = some (ret', s')) : IsIgnored s' x := by
  unfold preemptVictim at h
  simp only [Prog.pure_bind, if_true] at h
  obtain ⟨⟨mode, pairs⟩, s₁, h₁, h⟩ := bind_iff.mp h
  have i₁ := preempt_ignored i h₁
  cases mode with
  | recompute =>
    rw [(pure_iff.mp h).2]
    exact i₁
  | swap =>
    rw [(pure_iff.mp h).2]
    exact i₁

theorem scheduleRunning_ignored {c : Bool} {ret : SchedulerRunningOutputs} (i : IsIgnored s x)
    (h : scheduleRunning p none c s = some (ret, s')) : IsIgnored s' x := by
  simp only [scheduleRunning, read_bind, require_bind, Option.ite_none_right_eq_some] at h
  refine scheduleRunningLoop_rule (fun _ t _ => IsIgnored t x) c (fun _ _ _ _ q i => i.same q.groups)
    (fun _ _ _ _ _ _ i ht => i.same (scheduleRunningGroup_same p _ _ _ _ _ _ _ ht).groups) ?_
    (fun _ _ _ _ _ _ i _ ht => preemptVictim_ignored i ht) (fun _ _ _ _ _ _ _ _ i _ _ _ _ => i.same rfl) h.2 i
  intro cur v t ret ret' t' i _ ht
  have i' : IsIgnored { t with running := t.running.dropLast } x := i.same rfl
  exact preemptVictim_ignored i' ht

theorem schedulePriorityPreemption_ignored {u : Unit} (i : IsIgnored s x)
    (h : schedulePriorityPreemption p s = some (u, s')) : IsIgnored s' x := by
  rw [schedulePriorityPreemption, read_bind] at h
  obtain ⟨sorted, s₁, h₁, h⟩ := bind_iff.mp h
  have i₁ := i.same (sortedByPriority_same _ _ _ _ h₁).groups
  cases hw : s.waiting with
  | nil =>
    rw [hw] at h
    rw [update_iff.mp h]
    exact i₁.same rfl
  | cons id rest =>
    simp only [hw, getGroup_bind, Option.bind_eq_some_iff] at h
    obtain ⟨g, -, h⟩ := h
    obtain ⟨⟨u, k⟩, s₂, h₂, h⟩ := bind_iff.mp h
    obtain ⟨⟨running, victims⟩, s₃, h₃, h⟩ := bind_iff.mp h
    obtain ⟨_, s₄, h₄, h⟩ := bind_iff.mp h
    obtain ⟨waiting, s₅, h₅, h⟩ := bind_iff.mp h
    rw [update_iff.mp h]
    have i₂ := i₁.same (getNumNewUncachedAndCachedTokens_same p _ _ _ _ _ _ h₂).groups
    have i₃ : IsIgnored s₃ x := by
      refine priorityPreemptionLoop_rule (fun t _ _ => IsIgnored t x) (fun _ _ _ _ q i => i.same q.groups) ?_ h₃ i₂
      intro t v running victims mode pairs t₁ t' i ht hu
      obtain ⟨m, -, rfl⟩ := onManager_iff.mp hu
      exact (preempt_ignored i ht).same rfl
    have i₄ := i₃.same (removeSeqFromComputedBlocksTracker_same _ _ _ _ _ h₄).groups
    have i₅ := i₄.same (sortedByPriority_same _ _ _ _ h₅).groups
    exact i₅.same rfl

/-- A batch before its metadata is made. -/
structure BatchOf (p : SchedulerParams) (s : Scheduler) (o : SchedulerOutputs) : Prop where
  once : (scheduledIds o.scheduledSeqGroups).Nodup
  size : o.numPrefillGroups ≤ o.scheduledSeqGroups.length
  prefills : ∀ sg ∈ o.scheduledSeqGroups.take o.numPrefillGroups, Serves p s true sg.seqId
  decodes : ∀ sg ∈ o.scheduledSeqGroups.drop o.numPrefillGroups, Serves p s false sg.seqId ∧ sg.tokenChunkSize = 1
  ignored : ∀ id ∈ o.ignoredSeqGroups, IsIgnored s id

theorem BatchOf.same {o : SchedulerOutputs} (h : BatchOf p s o) (q : SameTables s s') : BatchOf p s' o :=
  ⟨h.once, h.size, fun sg hsg => (h.prefills sg hsg).same q,
    fun sg hsg => ⟨(h.decodes sg hsg).1.same q, (h.decodes sg hsg).2⟩, fun id hid => (h.ignored id hid).same q.groups⟩

/-- The groups that were scheduled from the running queue still run at the end of `_schedule_running`. -/
theorem ServedRun.serves {n : SeqId} {w r : List SeqId} {ret : SchedulerRunningOutputs} (h : ServedRun p s ret)
    (i : Settled n w r s) (hr : ∀ x ∈ scheduledIds ret.decodeSeqGroups ++ scheduledIds ret.prefillSeqGroups, x ∈ r) :
    (∀ sg ∈ ret.decodeSeqGroups, Serves p s false sg.seqId ∧ sg.tokenChunkSize = 1) ∧
      ∀ sg ∈ ret.prefillSeqGroups, Serves p s true sg.seqId := by
  have running {x : SeqId} (hx : x ∈ r) : ∃ g, s.groups.get? x = some g ∧ g.status = .running := by
    obtain ⟨g, hg, hs, -⟩ := i.running_group hx
    exact ⟨g, hg, hs⟩
  refine ⟨fun sg hsg => ?_, fun sg hsg => ?_⟩
  · obtain ⟨served, hone⟩ := h.decodes sg hsg
    exact ⟨⟨running (hr _ (List.mem_append_left _ (List.mem_map_of_mem hsg))), served⟩, hone⟩
  · exact ⟨running (hr _ (List.mem_append_right _ (List.mem_map_of_mem hsg))), h.prefills sg hsg⟩

theorem scheduleDefault_batch {n : SeqId} {o : SchedulerOutputs} (h : Settled n s.waiting s.running s) (i : Records s)
    (hs : scheduleDefault p none s = some (o, s')) : BatchOf p s' o := by
  rw [scheduleDefault, read_bind] at hs
  obtain ⟨gs, s₁, h₁, hs⟩ := bind_iff.mp hs
  have q₁ := getGroups_same _ _ _ _ h₁
  simp only [update_bind] at hs
  obtain ⟨t, ht⟩ : ∃ t, t = { s₁ with
      budget := gs.foldl (fun b (g : SequenceGroup) => b.addNumSeqs g.requestId g.getMaxNumRunningSeqs)
        (SchedulingBudget.init p.maxNumBatchedTokens p.maxNumSeqs)
      partialPrefillMetadata := none } := ⟨_, rfl⟩
  rw [← ht] at hs
  have qt : SameQueues s t := by
    rw [ht]
    exact IsTrans.trans _ _ _ q₁ ⟨⟨rfl, rfl, refl _⟩, rfl, rfl, rfl, rfl, rfl⟩
  obtain ⟨prefills, s₂, h₂, hs⟩ := bind_iff.mp hs
  have it : Settled n ([] ++ t.waiting) ([] ++ t.running) t := by
    rw [List.nil_append, List.nil_append, qt.waiting, qt.running]
    exact h.quiet qt
  have start : ServedPrefills p (fun _ _ => False) t .empty :=
    ⟨i.same qt.groups, fun _ _ hx => hx.elim, fun sg hsg => absurd hsg List.not_mem_nil,
      fun x hx => absurd hx List.not_mem_nil⟩
  have i₂ : ServedPrefills p (fun _ _ => False) s₂ prefills ∧
      Settled n s₂.waiting (s₂.running ++ scheduledIds prefills.seqGroups) s₂ := by
    split at h₂
    · exact ⟨schedulePrefills_serves start h₂, by simpa using schedulePrefills_settled it h₂⟩
    · obtain ⟨rfl, rfl⟩ := pure_iff.mp h₂
      exact ⟨start, by simpa [SchedulerPrefillOutputs.empty, scheduledIds] using it⟩
  obtain ⟨served₂, settled₂⟩ := i₂
  obtain ⟨_, s₃, h₃, hs⟩ := bind_iff.mp hs
  obtain ⟨running, s₄, h₄, hs⟩ := bind_iff.mp hs
  obtain ⟨_, s₅, h₅, hs⟩ := bind_iff.mp hs
  have q₅ : SameTables s₄ s₅ := (checkBudget_content p _ _ _ h₅).sameTables
  simp only [update_bind, require_bind, Option.ite_none_right_eq_some, read_bind, makeOutputs_iff] at hs
  obtain ⟨-, -, rfl, rfl⟩ := hs
  refine BatchOf.same (s := s₄) ?_ ⟨q₅.groups, q₅.tables⟩
  by_cases hnil : prefills.seqGroups = []
  · -- nothing is prefilled, and the running queue is scheduled
    have i₃ : Settled n s₃.waiting s₃.running s₃ ∧ ∀ x ∈ prefills.ignoredSeqGroups, IsIgnored s₃ x := by
      rw [hnil] at settled₂
      have settled : Settled n s₂.waiting s₂.running s₂ := by simpa [scheduledIds] using settled₂
      unfold Prog.when at h₃
      split at h₃
      · exact ⟨schedulePriorityPreemption_settled settled h₃,
          fun x hx => schedulePriorityPreemption_ignored (served₂.ignored x hx) h₃⟩
      · rw [(pure_iff.mp h₃).2]
        exact ⟨settled, served₂.ignored⟩
    rw [if_pos hnil] at h₄
    have settled := scheduleRunning_settled i₃.1 h₄
    obtain ⟨decodes, -⟩ := (scheduleRunning_served i₃.1.seqId h₄).serves settled fun x hx => List.mem_append_right _ hx
    have once := (List.nodup_append.mp (List.nodup_append.mp settled.nodup.2).2.1).1
    rw [hnil]
    exact ⟨once, Nat.zero_le _, fun sg hsg => absurd hsg List.not_mem_nil, decodes,
      fun x hx => scheduleRunning_ignored (i₃.2 x hx) h₄⟩
  · rw [when_neg fun hp => hnil hp.1] at h₃
    rw [if_neg hnil] at h₄
    obtain ⟨-, rfl⟩ := pure_iff.mp h₃
    obtain ⟨rfl, rfl⟩ := pure_iff.mp h₄
    have once := (List.nodup_append.mp settled₂.nodup.2).2.1
    refine ⟨?_, ?_, ?_, ?_, served₂.ignored⟩
    · simpa [SchedulerRunningOutputs.empty] using once
    · simp
    · simpa [SchedulerRunningOutputs.empty] using served₂.prefills
    · simp [SchedulerRunningOutputs.empty]

theorem scheduleChunkedPrefill_batch {n : SeqId} {o : SchedulerOutputs} (h : Settled n s.waiting s.running s)
    (hc : Counted s) (hs : scheduleChunkedPrefill p none s = some (o, s')) : BatchOf p s' o := by
  rw [scheduleChunkedPrefill, read_bind] at hs
  obtain ⟨runningGroups, s₁, h₁, hs⟩ := bind_iff.mp hs
  obtain ⟨waitingGroups, s₂, h₂, hs⟩ := bind_iff.mp hs
  have q₂ := IsTrans.trans _ _ _ (getGroups_same _ _ _ _ h₁) (getGroups_same _ _ _ _ h₂)
  simp only [update_bind] at hs
  obtain ⟨t, ht⟩ : ∃ t, t = { s₂ with
      budget := SchedulingBudget.init p.maxNumBatchedTokens p.maxNumSeqs
      partialPrefillMetadata := some (fromQueues p runningGroups waitingGroups) } := ⟨_, rfl⟩
  rw [← ht] at hs
  have qt : SameQueues s t := by
    rw [ht]
    exact IsTrans.trans _ _ _ q₂ ⟨⟨rfl, rfl, refl _⟩, rfl, rfl, rfl, rfl, rfl⟩
  have it : Settled n t.waiting t.running t := by
    rw [qt.waiting, qt.running]
    exact h.quiet qt
  obtain ⟨running, s₃, h₃, hs⟩ := bind_iff.mp hs
  have i₃ := scheduleRunning_settled it h₃
  have counted := (scheduleRunning_counted (hc.same qt.groups) h₃).toCounted
  obtain ⟨decodes, prefilling⟩ := (scheduleRunning_served it.seqId h₃).serves i₃ fun x hx => List.mem_append_right _ hx
  rw [read_bind] at hs
  obtain ⟨prefills, s₄, h₄, hs⟩ := bind_iff.mp hs
  obtain ⟨_, s₅, h₅, hs⟩ := bind_iff.mp hs
  obtain ⟨finishing, s₆, h₆, hs⟩ := bind_iff.mp hs
  have q₆ : SameTables s₄ s₆ := IsTrans.trans _ _ _ (checkBudget_content p _ _ _ h₅).sameTables
    (orderFinishingPrefillsFirst_content _ _ _ _ h₆).sameTables
  simp only [update_bind, read_bind, makeOutputs_iff] at hs
  obtain ⟨-, rfl, rfl⟩ := hs
  refine BatchOf.same (s := s₄) ?_ ⟨q₆.groups, q₆.tables⟩
  let before (pre : Bool) (x : SeqId) : Prop :=
    pre = false ∧ x ∈ scheduledIds running.decodeSeqGroups ∨ pre = true ∧ x ∈ scheduledIds running.prefillSeqGroups
  have start : ServedPrefills p before s₃ .empty := by
    refine ⟨⟨i₃.seqId, counted.waiting⟩, ?_, fun sg hsg => absurd hsg List.not_mem_nil,
      fun x hx => absurd hx List.not_mem_nil⟩
    rintro pre x (⟨rfl, hx⟩ | ⟨rfl, hx⟩)
    · obtain ⟨sg, hsg, rfl⟩ := List.mem_map.mp hx
      exact (decodes sg hsg).1
    · obtain ⟨sg, hsg, rfl⟩ := List.mem_map.mp hx
      exact prefilling sg hsg
  have i₄ : ServedPrefills p before s₄ prefills ∧ Settled n (running.swappedOut.reverse ++ running.preempted.reverse ++
      s₄.waiting) (scheduledIds running.decodeSeqGroups ++ scheduledIds running.prefillSeqGroups ++ s₄.running ++
        scheduledIds prefills.seqGroups) s₄ := by
    have i₃' := i₃.perm (.refl _) List.perm_append_comm.symm
    split at h₄
    · exact ⟨schedulePrefills_serves start h₄, schedulePrefills_settled i₃' h₄⟩
    · obtain ⟨rfl, rfl⟩ := pure_iff.mp h₄
      exact ⟨start, by simpa [SchedulerPrefillOutputs.empty, scheduledIds] using i₃'⟩
  obtain ⟨served, settled⟩ := i₄
  have order : (prefills.seqGroups ++ running.prefillSeqGroups ++ running.decodeSeqGroups).take
      (prefills.seqGroups.length + running.prefillSeqGroups.length) = prefills.seqGroups ++ running.prefillSeqGroups ∧
      (prefills.seqGroups ++ running.prefillSeqGroups ++ running.decodeSeqGroups).drop
        (prefills.seqGroups.length + running.prefillSeqGroups.length) = running.decodeSeqGroups := by
    rw [← List.length_append]
    exact ⟨List.take_left, List.drop_left⟩
  refine ⟨?_, ?_, fun sg hsg => ?_, fun sg hsg => ?_, served.ignored⟩
  · have all := settled.nodup.2
    show (scheduledIds (prefills.seqGroups ++ running.prefillSeqGroups ++ running.decodeSeqGroups)).Nodup
    rw [scheduledIds_append, scheduledIds_append]
    have scheduled := all.sublist ((List.sublist_append_left _ s₄.running).append (.refl _))
    refine (List.Perm.nodup_iff ?_).mpr scheduled
    exact List.perm_append_comm.trans ((List.perm_append_comm.append_left _).trans (.of_eq (List.append_assoc ..).symm))
  · show prefills.seqGroups.length + running.prefillSeqGroups.length ≤ _
    rw [List.length_append, List.length_append]
    omega
  · rw [show List.take _ _ = _ from order.1] at hsg
    rcases List.mem_append.mp hsg with hsg | hsg
    · exact served.prefills sg hsg
    · exact served.before true _ (.inr ⟨rfl, List.mem_map_of_mem hsg⟩)
  · rw [show List.drop _ _ = _ from order.2] at hsg
    exact ⟨served.before false _ (.inl ⟨rfl, List.mem_map_of_mem hsg⟩), (decodes sg hsg).2⟩

theorem scheduleQueues_batch {n : SeqId} {o : SchedulerOutputs} (h : Settled n s.waiting s.running s) (hc : Counted s)
    (hs : scheduleQueues p none s = some (o, s')) : BatchOf p s' o := by
  rw [scheduleQueues, read_bind] at hs
  obtain ⟨waiting, s₁, h₁, hs⟩ := bind_iff.mp hs
  obtain ⟨running, s₂, h₂, hs⟩ := bind_iff.mp hs
  rw [update_bind] at hs
  have q₂ := IsTrans.trans _ _ _ (sortByQueryId_same _ _ _ _ h₁) (sortByQueryId_same _ _ _ _ h₂)
  have i : Settled n waiting running { s₂ with waiting := waiting, running := running } :=
    ((h.quiet q₂).perm (sortByQueryId_perm h₁) (sortByQueryId_perm h₂)).same ⟨rfl, rfl, refl _⟩ rfl rfl
  have c : Counted { s₂ with waiting := waiting, running := running } := (hc.same q₂.groups).same rfl
  split at hs
  · exact scheduleChunkedPrefill_batch i c hs
  · exact scheduleDefault_batch i ⟨i.seqId, c.waiting⟩ hs

/-! ## The batch -/

theorem accessAllBlocksInSeq_tables (id : SeqId) (now : Int) :
    Within SameTables (onManager (ManagerM.accessAllBlocksInSeq id now)) := by
  intro s u s' h
  obtain ⟨m, hm, rfl⟩ := onManager_iff.mp h
  simp only [ManagerM.accessAllBlocksInSeq, read_bind, require_bind, Option.ite_none_right_eq_some, update_iff] at hm
  refine ⟨rfl, ?_⟩
  rw [hm.2]

theorem markBlocksAsComputed_tables (g : SequenceGroup) (n : Int) :
    Within SameTables (onManager (ManagerM.markBlocksAsComputed p.toManagerParams g n)) := by
  let R (m m' : BlockSpaceManager) : Prop := m'.blockTables = m.blockTables
  have : IsPreorder BlockSpaceManager R := { refl := fun _ => rfl, trans := fun _ _ _ h h' => h'.trans h }
  have onBlocks (x : BlockM Unit) : Within R (ManagerM.onBlocks x) := .zoom_any fun _ _ => rfl
  have mark : Within R (ManagerM.markBlocksAsComputed p.toManagerParams g n) := by
    refine .bind .read fun m => .when ?_
    split
    · exact .pure _
    · exact .when (onBlocks _)
  exact .zoom mark fun _ _ h => ⟨rfl, h⟩

/-- The metadata of a scheduled group: its record, and its table if it runs. -/
structure Describes (s : Scheduler) (sg : ScheduledSequenceGroup) (m : SequenceGroupMetadata) : Prop where
  seqId : m.seqId = sg.seqId
  chunk : m.tokenChunkSize = sg.tokenChunkSize
  record : ∃ g, s.groups.get? sg.seqId = some g ∧ m.isPrompt = g.isPrefill ∧ (g.isPrefill = false → m.doSample = true) ∧
    (g.status = .running → ∃ t, s.blockManager.blockTables.get? sg.seqId = some t ∧ m.blockTable = t.blockIds)

theorem groupMetadata_describes {now : Int} {sg : ScheduledSequenceGroup} {m : SequenceGroupMetadata}
    (h : groupMetadata p now sg s = some (m, s')) : SameTables s s' ∧ Describes s sg m := by
  obtain ⟨hid, hchunk, g, hg, hprompt, hsample⟩ := groupMetadata_spec h
  have same : Within SameTables (groupMetadata p now sg) :=
    .bind (sameTables_of_content (getGroup_content _)) fun _ => .bind (.ite (.bind .read fun _ => .bind (.ofOption _) fun _ =>
      .bind (accessAllBlocksInSeq_tables _ _) fun _ => .pure _) (.pure _)) fun _ =>
        .bind (sameTables_of_blocks (ManagerM.getCommonComputedBlockIds_same _ _)) fun _ => .pure _
  refine ⟨same _ _ _ h, hid, hchunk, g, hg, hprompt, fun hdecode => ?_, fun hrun => ?_⟩
  · rw [hsample, hdecode]
    rfl
  · rw [groupMetadata, getGroup_bind, hg, Option.bind_some, if_pos hrun] at h
    obtain ⟨ids, s₁, h₁, h⟩ := bind_iff.mp h
    obtain ⟨nums, s₂, -, h⟩ := bind_iff.mp h
    rw [(pure_iff.mp h).1]
    simp only [read_bind, ofOption_bind, Option.bind_eq_some_iff] at h₁
    obtain ⟨t, ht, h₁⟩ := h₁
    obtain ⟨_, s₃, -, h₁⟩ := bind_iff.mp h₁
    exact ⟨t, ht, (pure_iff.mp h₁).1⟩

/-- What `schedule` adds to the groups that it has scheduled is their description. -/
theorem schedule_describes {o : List SequenceGroupMetadata × SchedulerOutputs} (h : schedule p none s = some (o, s')) :
    ∃ outputs s₁, scheduleQueues p none s = some (outputs, s₁) ∧
      o.2 = { outputs with blocksToSwapOut := outputs.blocksToSwapOut ++ s₁.pendingFinishedSwapOut } ∧
      SameTables s₁ s' ∧ List.Forall₂ (Describes s₁) outputs.scheduledSeqGroups o.1 := by
  obtain ⟨outputs, s₁, h₁, h⟩ := bind_iff.mp h
  simp only [read_bind, update_bind] at h
  obtain ⟨now, s₂, h₂, h⟩ := bind_iff.mp h
  obtain ⟨metadata, s₃, h₃, h⟩ := bind_iff.mp h
  obtain ⟨_, s₄, h₄, h⟩ := bind_iff.mp h
  obtain ⟨rfl, rfl⟩ := pure_iff.mp h
  have q := (time_content _ _ _ h₂).sameTables
  have q₂ : SameTables s₁ s₂ := ⟨q.groups, q.tables⟩
  obtain ⟨q₃, described⟩ := mapM_forall₂ (SameTables s₁) (Describes s₁) (fun sg t m t' q hm => by
    obtain ⟨same, hid, hchunk, record⟩ := groupMetadata_describes hm
    rw [q.groups, q.tables] at record
    exact ⟨IsTrans.trans _ _ _ q same, hid, hchunk, record⟩) h₃ q₂
  have mark : Within SameTables (Prog.forM (fun sg : ScheduledSequenceGroup => do
      let g ← getGroup sg.seqId
      onManager (ManagerM.markBlocksAsComputed p.toManagerParams g sg.tokenChunkSize))
      outputs.scheduledSeqGroups) :=
    .forM (fun _ => .bind (sameTables_of_content (getGroup_content _)) fun _ => markBlocksAsComputed_tables _ _) _
  exact ⟨outputs, s₁, h₁, rfl, IsTrans.trans _ _ _ q₃ (mark _ _ _ h₄), described⟩

end SchedM

/-- A batch as the worker expects it. -/
structure ReadyBatch (p : SchedulerParams) (s : Scheduler) (batch : List SequenceGroupMetadata) (o : SchedulerOutputs) :
    Prop where
  scheduled : batch.map (fun m => ScheduledSequenceGroup.mk m.seqId m.tokenChunkSize) = o.scheduledSeqGroups
  once : (batch.map (·.seqId)).Nodup
  size : o.numPrefillGroups ≤ batch.length
  prefillsFirst : ∀ m ∈ batch.take o.numPrefillGroups, m.isPrompt = true
  decodesLast : ∀ m ∈ batch.drop o.numPrefillGroups, m.isPrompt = false ∧ m.tokenChunkSize = 1 ∧ m.doSample = true
  /-- Every position of a scheduled sequence has a block in the table that the worker is given. -/
  slots : ∀ m ∈ batch, ∃ g, s.groups.get? m.seqId = some g ∧ g.status = .running ∧ m.seqId ∈ s.running ∧
    ∀ i < g.getTokenIds.length, ∃ blockId, m.blockTable[i / p.blockSize]? = some blockId
  ignored : ∀ id ∈ o.ignoredSeqGroups, IsIgnored s id ∧ id ∉ s.waiting ∧ id ∉ s.running

namespace SchedM

theorem Describes.map_eq {l : List ScheduledSequenceGroup} {batch : List SequenceGroupMetadata}
    (h : List.Forall₂ (Describes s) l batch) :
    batch.map (fun m => ScheduledSequenceGroup.mk m.seqId m.tokenChunkSize) = l := by
  induction h with
  | nil => rfl
  | cons hd _ ih =>
    rw [List.map_cons, ih, hd.seqId, hd.chunk]

/-- A described batch of served groups is ready. -/
theorem BatchOf.ready {n : SeqId} {o : SchedulerOutputs} {batch : List SequenceGroupMetadata} (h : BatchOf p s o)
    (i : Settled n s.waiting s.running s) (hin : ∀ m ∈ batch, m.seqId ∈ s.running)
    (aligned : ∀ id t, s.blockManager.blockTables.get? id = some t → t.Aligned)
    (described : List.Forall₂ (Describes s) o.scheduledSeqGroups batch) : ReadyBatch p s batch o := by
  have scheduled := Describes.map_eq described
  have ids : batch.map (·.seqId) = scheduledIds o.scheduledSeqGroups := by
    rw [← scheduled, scheduledIds, List.map_map]
    rfl
  have stage {pre : Bool} {sg : ScheduledSequenceGroup} {m : SequenceGroupMetadata} (serves : Serves p s pre sg.seqId)
      (hd : Describes s sg m) : m.isPrompt = pre ∧ (pre = false → m.doSample = true) := by
    obtain ⟨g, hg, hprompt, hsample, htable⟩ := hd.record
    obtain ⟨g', hg', hrun⟩ := serves.running
    obtain rfl := Option.some.inj (hg.symm.trans hg')
    obtain ⟨t, ht, -⟩ := htable hrun
    obtain ⟨hpre, -⟩ := serves.served g t hg hrun ht
    exact ⟨hprompt.trans hpre, fun hf => hsample (hpre.trans hf)⟩
  refine ⟨scheduled, by rw [ids]; exact h.once, ?_, fun m hm => ?_, fun m hm => ?_, fun m hm => ?_, fun id hid => ?_⟩
  · rw [← described.length_eq]
    exact h.size
  · obtain ⟨sg, hsg, hd⟩ := exists_left_of_forall₂ (List.forall₂_take o.numPrefillGroups described) hm
    exact (stage (h.prefills sg hsg) hd).1
  · obtain ⟨sg, hsg, hd⟩ := exists_left_of_forall₂ (List.forall₂_drop o.numPrefillGroups described) hm
    obtain ⟨serves, hone⟩ := h.decodes sg hsg
    obtain ⟨hprompt, hsample⟩ := stage serves hd
    exact ⟨hprompt, hd.chunk.trans hone, hsample rfl⟩
  · obtain ⟨sg, hsg, hd⟩ := exists_left_of_forall₂ described hm
    obtain ⟨g, hg, hprompt, -, htable⟩ := hd.record
    have served : ∃ pre, Serves p s pre sg.seqId := by
      rw [← List.take_append_drop o.numPrefillGroups o.scheduledSeqGroups] at hsg
      rcases List.mem_append.mp hsg with hsg | hsg
      · exact ⟨true, h.prefills sg hsg⟩
      · exact ⟨false, (h.decodes sg hsg).1⟩
    obtain ⟨pre, serves⟩ := served
    obtain ⟨g', hg', hrun⟩ := serves.running
    obtain rfl := Option.some.inj (hg.symm.trans hg')
    obtain ⟨t, ht, hids⟩ := htable hrun
    obtain ⟨-, room⟩ := serves.served g t hg hrun ht
    rw [hd.seqId]
    refine ⟨g, hg, hrun, hd.seqId ▸ hin m hm, fun i hi => ?_⟩
    have hlen : i / p.blockSize < m.blockTable.length := by
      rw [hids, aligned _ t ht]
      exact (Nat.div_lt_iff_lt_mul p.pos).mpr (lt_of_lt_of_le hi room)
    exact ⟨_, List.getElem?_eq_getElem hlen⟩
  · obtain ⟨g, hg, hs⟩ := h.ignored id hid
    refine ⟨⟨g, hg, hs⟩, fun hw => ?_, fun hr => ?_⟩
    · obtain ⟨-, g', hg', hs'⟩ := i.waiting id hw
      obtain rfl := Option.some.inj (hg.symm.trans hg')
      rw [hs] at hs'
      cases hs'
    · obtain ⟨g', hg', hs', -⟩ := i.running_group hr
      obtain rfl := Option.some.inj (hg.symm.trans hg')
      rw [hs] at hs'
      cases hs'

end SchedM

end

/-! ## The engine -/

theorem renews_calls (p : ManagerParams) : KeptByCalls p (Renews fun _ => True) :=
  ⟨BlockSpaceManager.perform_renews, fun _ _ _ => .of_tables rfl⟩

/-- The batch of `schedule` describes the groups that its outputs serve. -/
theorem EngineM.schedule_batch {e e' : Engine} {clock : List Int} {u : Unit} (owned : EngineM.Owned e)
    (counted : Counted e.scheduler) (h : EngineM.schedule p clock e = some (u, e')) :
    ∃ batch o, e'.batch = some batch ∧ e'.outputs = e.outputs ++ [o] ∧ BatchOf p e'.scheduler o ∧
      Settled e.seqCounter e'.scheduler.waiting e'.scheduler.running e'.scheduler ∧
      (∀ m ∈ batch, m.seqId ∈ e'.scheduler.running) ∧
      List.Forall₂ (Describes e'.scheduler) o.scheduledSeqGroups batch := by
  simp only [EngineM.schedule, EngineM.setClock, read_bind, require_bind, Option.ite_none_right_eq_some] at h
  obtain ⟨-, h⟩ := h
  obtain ⟨_, e₁, h₁, h⟩ := bind_iff.mp h
  obtain ⟨s₁, hs₁, rfl⟩ := EngineM.onScheduler_iff.mp h₁
  rw [update_iff] at hs₁
  obtain ⟨⟨metadata, outputs⟩, e₂, h₂, h⟩ := bind_iff.mp h
  obtain ⟨s₂, hs₂, rfl⟩ := EngineM.onScheduler_iff.mp h₂
  rw [update_iff] at h
  subst h
  have i₁ : Settled e.seqCounter s₁.waiting s₁.running s₁ := by
    rw [hs₁]
    exact owned.settled.same ⟨rfl, rfl, refl _⟩ rfl rfl
  have c₁ : Counted s₁ := by
    rw [hs₁]
    exact counted.same rfl
  obtain ⟨i₂, hin⟩ := schedule_settled i₁ hs₂
  obtain ⟨o, s, hqueues, rfl, same, described⟩ := schedule_describes hs₂
  have batch : BatchOf p s₂ o := (scheduleQueues_batch i₁ c₁ hqueues).same same
  refine ⟨metadata, _, rfl, rfl, ⟨batch.once, batch.size, batch.prefills, batch.decodes, batch.ignored⟩, i₂, hin, ?_⟩
  refine described.imp fun sg m hd => ⟨hd.seqId, hd.chunk, ?_⟩
  show ∃ g, s₂.groups.get? sg.seqId = some g ∧ _
  rw [same.groups, same.tables]
  exact hd.record

/-- In every run, whatever `schedule` hands to the worker is ready. -/
theorem run_batchReady (p : SchedulerParams) (ops : List EngineOp) (clock : List Int) (e e' : Engine)
    (hrun : Engine.run p (Engine.init p) ops = some e) (hschedule : Engine.perform p (.schedule clock) e = some ((), e')) :
    ∃ batch o, e'.batch = some batch ∧ e'.outputs = e.outputs ++ [o] ∧ ReadyBatch p e'.scheduler batch o := by
  obtain ⟨owned, counted⟩ := Engine.run_counted hrun
  have before : Renews (fun _ => True) (Engine.init p).scheduler.blockManager e.scheduler.blockManager :=
    Engine.run_kept (renews_calls p.toManagerParams) hrun
  have during : Renews (fun _ => True) e.scheduler.blockManager e'.scheduler.blockManager :=
    EngineM.perform_kept (renews_calls p.toManagerParams) (.schedule clock) _ _ _ hschedule
  have aligned (id : SeqId) (t : BlockTable) (ht : e'.scheduler.blockManager.blockTables.get? id = some t) : t.Aligned :=
    (IsTrans.trans _ _ _ before during : Renews _ _ _).aligned (fun t ht => by cases ht) ht
  obtain ⟨batch, o, hbatch, houtputs, served, settled, hin, described⟩ :=
    EngineM.schedule_batch owned counted.counted hschedule
  exact ⟨batch, o, hbatch, houtputs, served.ready settled hin aligned described⟩

/-- One request decodes, and another is prefilled. -/
def mixedRun : List EngineOp :=
  [.addSeqGroup "a" [1, 2, 3] none 0 0,
   .schedule [1, 1, 1],
   .processModelOutputs [⟨4, none, false⟩] [2],
   .addSeqGroup "b" [5, 6, 7] none 0 0]

theorem run_batchReady_mixedRun : ∃ e e' batch o, Engine.run smallParams (Engine.init smallParams) mixedRun = some e ∧
    Engine.perform smallParams (.schedule [3, 3, 3, 3]) e = some ((), e') ∧ e'.batch = some batch ∧
      batch.map (·.isPrompt) = [true, false] ∧ ReadyBatch smallParams e'.scheduler batch o := by
  have returns : ((Engine.run smallParams (Engine.init smallParams) mixedRun).bind fun e =>
      (Engine.perform smallParams (.schedule [3, 3, 3, 3]) e).map fun x => decide (
        x.2.batch.map (fun batch => batch.map (·.isPrompt)) = some [true, false])) = some true := by
    decide +kernel
  obtain ⟨e, hrun, h⟩ := Option.bind_eq_some_iff.mp returns
  obtain ⟨⟨u, e'⟩, hschedule, h⟩ := Option.map_eq_some_iff.mp h
  obtain ⟨batch, o, hbatch, -, ready⟩ := run_batchReady smallParams mixedRun [3, 3, 3, 3] e e' hrun hschedule
  refine ⟨e, e', batch, o, hrun, hschedule, hbatch, ?_, ready⟩
  have hprompt := of_decide_eq_true h
  rw [hbatch] at hprompt
  exact Option.some.inj hprompt

end CoreFlow
