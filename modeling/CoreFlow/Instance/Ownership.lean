import CoreFlow.Scheduler.Finish
import CoreFlow.Instance.Engine

/-!
# Ownership over whole runs

The operations of an engine keep `Owned`, so every state that a run reaches has it; the last theorem
spells out what that says about queues, statuses and block tables.
-/

namespace CoreFlow
open Prog SchedM

/-! ## Outputs -/

namespace EngineM
variable {p : SchedulerParams} {n : SeqId} {batch : List SeqId} {s s' : Scheduler} {g : SequenceGroup}

/-- A group that is not finished counts its chunk; a sampled one gets its token, and may finish. -/
theorem processGroup_cases {m : SequenceGroupMetadata} {o : SampleOutput} {b : Bool}
    (hg : s.groups.get? m.seqId = some g) (hu : g.isFinished = false)
    (h : processGroup p m o s = some (b, s')) : ∃ g₁ tokens status g' t,
      g.updateNumComputedTokens m.tokenChunkSize = some g₁ ∧
      g' = { g₁ with outputTokenIds := g₁.outputTokenIds ++ tokens, status := status } ∧
      t = { s with groups := s.groups.set m.seqId g' } ∧
      (b = false ∧ status = g₁.status ∧ (m.doSample = false → tokens = []) ∧ s' = t ∨
        b = true ∧ m.doSample = true ∧ tokens = [o.token] ∧ o.finish = some status ∧ status.isFinished = true ∧
          Prog.when (o.freed = true) (freeSeq p m.seqId) t = some ((), s')) := by
  rw [processGroup, getGroup_bind, hg, Option.bind_some, if_neg (by rw [hu]; decide), ofOption_bind,
    Option.bind_eq_some_iff] at h
  obtain ⟨g₁, hg₁, h⟩ := h
  rw [setGroup_bind] at h
  split at h
  · obtain ⟨hb, hs⟩ := pure_iff.mp h
    refine ⟨g₁, [], g₁.status, _, _, hg₁, rfl, rfl, .inl ⟨hb, rfl, fun _ => rfl, ?_⟩⟩
    rw [List.append_nil]
    exact hs
  rename_i hsample
  simp only [setGroup_bind, Dict.set_set] at h
  cases hfin : o.finish with
  | none =>
    rw [hfin] at h
    obtain ⟨hb, hs⟩ := pure_iff.mp h
    exact ⟨g₁, [o.token], g₁.status, _, _, hg₁, rfl, rfl, .inl ⟨hb, rfl, fun hn => (hsample hn).elim, hs⟩⟩
  | some status =>
    rw [hfin] at h
    simp only [require_bind, Option.ite_none_right_eq_some, setGroup_bind, Dict.set_set] at h
    obtain ⟨hstatus, h⟩ := h
    obtain ⟨_, s₁, h₁, h₂⟩ := bind_iff.mp h
    obtain ⟨hb, rfl⟩ := pure_iff.mp h₂
    exact ⟨g₁, [o.token], status, _, _, hg₁, rfl, rfl, .inr ⟨hb, by simpa using hsample, rfl, rfl, hstatus, h₁⟩⟩

theorem processGroup_spec {m : SequenceGroupMetadata} {o : SampleOutput} {b : Bool}
    (hg : s.groups.get? m.seqId = some g) (hu : g.isFinished = false)
    (h : processGroup p m o s = some (b, s')) :
    SameLists s s' ∧ s'.blockManager.gpuCachedEntries = s.blockManager.gpuCachedEntries ∧
      s'.blockManager.trace = s.blockManager.trace ∧
      (∀ x, x ≠ m.seqId → (x ∈ s'.blockManager.blockTables ↔ x ∈ s.blockManager.blockTables)) ∧
      ∃ g', s'.groups = s.groups.set m.seqId g' ∧ g'.seqId = g.seqId ∧
        (b = false → g'.status = g.status ∧ s'.blockManager = s.blockManager) ∧
        (b = true → g'.isFinished = true) := by
  obtain ⟨g₁, tokens, status, g', t, hg₁, rfl, rfl, hcase⟩ := processGroup_cases hg hu h
  obtain ⟨hseq₁, hstatus₁⟩ : g₁.seqId = g.seqId ∧ g₁.status = g.status := by
    rw [SequenceGroup.updateNumComputedTokens, Option.ite_none_right_eq_some, Option.some.injEq] at hg₁
    obtain ⟨-, rfl⟩ := hg₁
    exact ⟨rfl, rfl⟩
  rcases hcase with ⟨rfl, rfl, -, rfl⟩ | ⟨rfl, -, -, -, hstatus, h₁⟩
  · exact ⟨⟨rfl, rfl, rfl, rfl, rfl, rfl⟩, rfl, rfl, fun _ _ => Iff.rfl, _, rfl, hseq₁,
      fun _ => ⟨hstatus₁, rfl⟩, fun h => by cases h⟩
  unfold Prog.when at h₁
  split at h₁
  · have l := freeSeq_lists p _ _ _ _ h₁
    obtain ⟨groups, tables, entries, trace⟩ := freeSeq_spec h₁
    exact ⟨⟨l.1, l.2, l.3, l.4, l.5, l.6⟩, entries, trace, fun x hx => by rw [tables]; simp [hx], _, groups,
      hseq₁, (fun h => by cases h), fun _ => hstatus⟩
  · obtain ⟨-, rfl⟩ := pure_iff.mp h₁
    exact ⟨⟨rfl, rfl, rfl, rfl, rfl, rfl⟩, rfl, rfl, fun _ _ => Iff.rfl, _, rfl, hseq₁,
      (fun h => by cases h), fun _ => hstatus⟩

/-- Between the outputs of one batch the running queue can hold finished groups. -/
structure Processing (n : SeqId) (batch : List SeqId) (s : Scheduler) : Prop where
  ownership : Ownership n s.waiting s.running s
  tracked : Tracked batch s
  swapped : s.swapped = []
  asyncStopped : s.asyncStopped = []

theorem processGroup_processing {m : SequenceGroupMetadata} {o : SampleOutput} {b : Bool}
    (h : Processing n batch s) (hm : m.seqId ∈ batch) (hp : processGroup p m o s = some (b, s')) :
    Processing n batch s' ∧ (b = false → Unfinished s.running s → Unfinished s'.running s') := by
  obtain ⟨g, hg, hin⟩ := h.tracked _ hm
  cases hu : g.isFinished with
  | true =>
    rw [processGroup, getGroup_bind, hg, Option.bind_some, if_pos hu] at hp
    obtain ⟨-, rfl⟩ := pure_iff.mp hp
    exact ⟨h, fun _ hr => hr⟩
  | false =>
    obtain ⟨l, entries, -, tables, g', groups, hseq, hfalse, htrue⟩ := processGroup_spec hg hu hp
    have hrun := hin hu
    have hpos := List.count_pos_iff.mpr hrun
    have once := h.ownership.once m.seqId
    obtain ⟨g₀, hg₀, hs₀⟩ := h.ownership.running _ hrun
    obtain rfl : g = g₀ := Option.some.inj (hg.symm.trans hg₀)
    have hs : g.status = .running ∧ m.seqId ∈ s.blockManager.blockTables := by
      rcases hs₀ with hs | hf
      · exact hs
      · rw [hf] at hu
        cases hu
    have status : g'.status = .running ∧ m.seqId ∈ s'.blockManager.blockTables ∨ g'.isFinished = true := by
      cases b with
      | true => exact .inr (htrue rfl)
      | false =>
        obtain ⟨hst, hman⟩ := hfalse rfl
        rw [hman, hst]
        exact .inl hs
    have hseq' := h.ownership.seqId_eq hg
    have i : Ownership n s.waiting s.running s' := by
      refine h.ownership.move hg groups (hseq.trans hseq') l.finished entries tables (fun _ _ => rfl)
        (fun _ _ => rfl) ?_ ?_ ?_ ?_ (fun _ => status) (fun _ => hpos)
      · omega
      · omega
      · omega
      · omega
    rw [← l.waiting, ← l.running] at i
    refine ⟨⟨i, fun x hx => ?_, l.swapped.trans h.swapped, l.asyncStopped.trans h.asyncStopped⟩,
      fun hb hr x hx => ?_⟩
    · rw [groups, l.running]
      by_cases hxi : x = m.seqId
      · subst hxi
        exact ⟨g', Dict.get?_set_self _ _ _, fun _ => hrun⟩
      · rw [Dict.get?_set_ne _ _ (Ne.symm hxi)]
        exact h.tracked x hx
    · rw [groups]
      rw [l.running] at hx
      by_cases hxi : x = m.seqId
      · subst hxi
        refine ⟨g', Dict.get?_set_self _ _ _, ?_⟩
        rw [SequenceGroup.isFinished, (hfalse hb).1]
        exact hu
      · rw [Dict.get?_set_ne _ _ (Ne.symm hxi)]
        exact hr x hx

theorem processGroups_processing {l : List (SequenceGroupMetadata × SampleOutput)} {bs : List Bool}
    (hp : Prog.mapM (fun x : SequenceGroupMetadata × SampleOutput => processGroup p x.1 x.2) l s =
      some (bs, s')) (h : Processing n batch s) (hl : ∀ x ∈ l, x.1.seqId ∈ batch) :
    Processing n batch s' ∧ (true ∉ bs → Unfinished s.running s → Unfinished s'.running s') := by
  induction l generalizing s bs with
  | nil =>
    obtain ⟨rfl, rfl⟩ := pure_iff.mp hp
    exact ⟨h, fun _ hr => hr⟩
  | cons x l ih =>
    obtain ⟨b, s₁, bs', h₁, h₂, rfl⟩ := mapM_cons_iff.mp hp
    obtain ⟨i₁, u₁⟩ := processGroup_processing h (hl x (List.mem_cons_self ..)) h₁
    obtain ⟨i₂, u₂⟩ := ih h₂ i₁ fun y hy => hl y (List.mem_cons_of_mem _ hy)
    refine ⟨i₂, fun hb hr => ?_⟩
    rw [List.mem_cons, not_or] at hb
    exact u₂ hb.2 (u₁ (by simpa using hb.1) hr)

/-! ## The engine -/

/-- The ids of the batch whose outputs have not been processed. -/
def batchIds (e : Engine) : List SeqId := (e.batch.getD []).map (·.seqId)

/-- What holds between the operations of an engine. -/
structure Owned (e : Engine) : Prop where
  settled : Settled e.seqCounter e.scheduler.waiting e.scheduler.running e.scheduler
  tracked : Tracked (batchIds e) e.scheduler

variable {e e' : Engine}

theorem onScheduler_iff {α : Type} {x : SchedM α} {a : α} : onScheduler x e = some (a, e') ↔
    ∃ s, x e.scheduler = some (a, s) ∧ e' = { e with scheduler := s } := zoom_iff

theorem addSeqGroup_owned {requestId : RequestId} {promptTokenIds : List TokenId}
    {extraArgs : Option ExtraArgs} {priority arrivalTime : Int} {u : Unit} (h : Owned e)
    (ha : addSeqGroup requestId promptTokenIds extraArgs priority arrivalTime e = some (u, e')) :
    Owned e' := by
  simp only [addSeqGroup, nextSeqId, Prog.bind_assoc, read_bind, update_bind, Prog.pure_bind] at ha
  obtain ⟨s, hs, rfl⟩ := onScheduler_iff.mp ha
  rw [setGroup_bind, update_iff] at hs
  subst hs
  let g := SequenceGroup.init requestId e.seqCounter promptTokenIds extraArgs priority arrivalTime
  have hfresh {x : SeqId} {gx : SequenceGroup} (hx : e.scheduler.groups.get? x = some gx) :
      (e.scheduler.groups.set e.seqCounter g).get? x = some gx := by
    rw [Dict.get?_set_ne, hx]
    exact (Nat.ne_of_lt (h.settled.fresh x (.inl (Dict.mem_of_get? hx)))).symm
  refine ⟨⟨h.settled.toOwnership.add (g := g) rfl rfl rfl rfl rfl, fun x hx => ?_, h.settled.swapped,
    h.settled.asyncStopped⟩, fun x hx => ?_⟩
  · obtain ⟨gx, hgx, hu⟩ := h.settled.unfinished x hx
    exact ⟨gx, hfresh hgx, hu⟩
  · obtain ⟨gx, hgx, hin⟩ := h.tracked x hx
    exact ⟨gx, hfresh hgx, hin⟩

theorem abortSeqGroup_owned {requestIds : List RequestId} {u : Unit} (h : Owned e)
    (ha : EngineM.abortSeqGroup p requestIds e = some (u, e')) : Owned e' := by
  obtain ⟨s, hs, rfl⟩ := onScheduler_iff.mp ha
  obtain ⟨i, t⟩ := abortSeqGroup_settled h.settled h.tracked hs
  exact ⟨i, t⟩

theorem schedule_owned {clock : List Int} {u : Unit} (h : Owned e)
    (hs : EngineM.schedule p clock e = some (u, e')) : Owned e' := by
  simp only [EngineM.schedule, setClock, read_bind, require_bind, Option.ite_none_right_eq_some] at hs
  obtain ⟨-, hs⟩ := hs
  obtain ⟨_, e₁, h₁, hs⟩ := bind_iff.mp hs
  obtain ⟨s₁, hs₁, rfl⟩ := onScheduler_iff.mp h₁
  rw [update_iff] at hs₁
  obtain ⟨⟨metadata, outputs⟩, e₂, h₂, hs⟩ := bind_iff.mp hs
  obtain ⟨s₂, hs₂, rfl⟩ := onScheduler_iff.mp h₂
  rw [update_iff.mp hs]
  have i₁ : Settled e.seqCounter s₁.waiting s₁.running s₁ := by
    rw [hs₁]
    exact h.settled.same ⟨rfl, rfl, refl _⟩ rfl rfl
  obtain ⟨i₂, hin⟩ := schedule_settled i₁ hs₂
  refine ⟨i₂, fun x hx => ?_⟩
  obtain ⟨m, hm, rfl⟩ := List.mem_map.mp hx
  obtain ⟨g, hg, -⟩ := i₂.running_group (hin m hm)
  exact ⟨g, hg, fun _ => hin m hm⟩

theorem processModelOutputs_owned {samples : List SampleOutput} {clock : List Int} {u : Unit} (h : Owned e)
    (hp : processModelOutputs p samples clock e = some (u, e')) : Owned e' := by
  simp only [processModelOutputs, setClock, read_bind, ofOption_bind, require_bind,
    Option.bind_eq_some_iff, Option.ite_none_right_eq_some] at hp
  obtain ⟨metadata, hbatch, -, hp⟩ := hp
  obtain ⟨_, e₁, h₁, hp⟩ := bind_iff.mp hp
  obtain ⟨s₁, hs₁, rfl⟩ := onScheduler_iff.mp h₁
  rw [update_iff] at hs₁
  obtain ⟨finishedNow, e₂, h₂, hp⟩ := bind_iff.mp hp
  obtain ⟨s₂, hs₂, rfl⟩ := onScheduler_iff.mp h₂
  obtain ⟨_, e₃, h₃, hp⟩ := bind_iff.mp hp
  rw [update_iff.mp hp]
  have i₁ : Processing e.seqCounter (batchIds e) s₁ := by
    rw [hs₁]
    exact ⟨h.settled.toOwnership.frame rfl rfl rfl fun _ => Iff.rfl, h.tracked, h.settled.swapped,
      h.settled.asyncStopped⟩
  obtain ⟨i₂, unfinished⟩ := processGroups_processing hs₂ i₁ fun x hx => by
    unfold batchIds
    rw [hbatch]
    exact List.mem_map_of_mem (List.of_mem_zip hx).1
  unfold Prog.when at h₃
  split at h₃
  · obtain ⟨s₃, hs₃, rfl⟩ := onScheduler_iff.mp h₃
    obtain ⟨i₃, -⟩ := freeFinishedSeqGroups_settled i₂.ownership i₂.swapped i₂.asyncStopped i₂.tracked hs₃
    exact ⟨i₃, fun x hx => by cases hx⟩
  · rename_i hany
    obtain ⟨-, rfl⟩ := pure_iff.mp h₃
    have hfalse : true ∉ finishedNow := fun ht => hany (List.any_eq_true.mpr ⟨true, ht, rfl⟩)
    have hr : Unfinished s₁.running s₁ := by
      rw [hs₁]
      exact h.settled.unfinished
    exact ⟨⟨i₂.ownership, unfinished hfalse hr, i₂.swapped, i₂.asyncStopped⟩, fun x hx => by cases hx⟩

/-- The migrated group is refused, or it is allocated, its copies are left unused, and it is retained. -/
theorem registerMigratedGpuCache_cases {tokenIds : List TokenId} {queryId invocationId : Int}
    {requestId : RequestId} {arrivalTime : Int} {b : Bool} (hm : registerMigratedGpuCache p tokenIds queryId
      invocationId requestId arrivalTime e = some (b, e')) : ∃ g,
    g = SequenceGroup.init requestId e.seqCounter tokenIds
      (some ⟨some (some queryId), some invocationId, 0, true, false, none⟩) 0 arrivalTime ∧
    (b = false ∧ e' = { e with seqCounter := e.seqCounter + 1 } ∨
      b = true ∧ e.scheduler.blockManager.canAllocate p.toManagerParams g 0 = some .ok ∧
        ∃ pairs m₀ m₁ m₂, ManagerM.allocate p.toManagerParams g e.scheduler.blockManager = some (pairs, m₀) ∧
          ManagerM.leaveUnused pairs m₀ = some ((), m₁) ∧
          ManagerM.retainBlocks p.toManagerParams { g with status := .finishedStopped } m₁ = some ((), m₂) ∧
          e' = { e with seqCounter := e.seqCounter + 1, scheduler := { e.scheduler with blockManager := m₂ } }) := by
  simp only [registerMigratedGpuCache, nextSeqId, Prog.bind_assoc, read_bind, update_bind, Prog.pure_bind,
    ofOption_bind, Option.bind_eq_some_iff] at hm
  obtain ⟨status, hstatus, hm⟩ := hm
  refine ⟨_, rfl, ?_⟩
  cases status with
  | later => exact .inl (pure_iff.mp hm)
  | never => exact .inl (pure_iff.mp hm)
  | ok =>
    obtain ⟨pairs, e₁, h₁, hm⟩ := bind_iff.mp hm
    obtain ⟨s₁, hs₁, rfl⟩ := onScheduler_iff.mp h₁
    obtain ⟨m₀, hm₁, rfl⟩ := onManager_iff.mp hs₁
    obtain ⟨_, e₂, h₂, hm⟩ := bind_iff.mp hm
    obtain ⟨s₂, hs₂, rfl⟩ := onScheduler_iff.mp h₂
    obtain ⟨m₁, hunused, rfl⟩ := onManager_iff.mp hs₂
    obtain ⟨_, e₃, h₃, hm⟩ := bind_iff.mp hm
    obtain ⟨s₃, hs₃, rfl⟩ := onScheduler_iff.mp h₃
    obtain ⟨m₂, hm₂, rfl⟩ := onManager_iff.mp hs₃
    obtain ⟨hb, rfl⟩ := pure_iff.mp hm
    exact .inr ⟨hb, hstatus, pairs, m₀, m₁, m₂, hm₁, hunused, hm₂, rfl⟩

theorem registerMigratedGpuCache_owned {tokenIds : List TokenId} {queryId invocationId : Int}
    {requestId : RequestId} {arrivalTime : Int} {b : Bool} (h : Owned e)
    (hm : registerMigratedGpuCache p tokenIds queryId invocationId requestId arrivalTime e =
      some (b, e')) : Owned e' := by
  obtain ⟨g, hg, ⟨-, rfl⟩ | ⟨-, -, pairs, m₀, m₁, m₂, hm₁, hunused, hm₂, rfl⟩⟩ := registerMigratedGpuCache_cases hm
  · exact ⟨⟨h.settled.toOwnership.raise, h.settled.unfinished, h.settled.swapped, h.settled.asyncStopped⟩, h.tracked⟩
  · have hseq : g.seqId = e.seqCounter := by
      rw [hg]
      rfl
    obtain ⟨-, hfresh, tables₁, entries₁, -⟩ := ManagerM.allocate_owners hm₁
    have same : m₁.blockTables = m₀.blockTables ∧ m₁.gpuCachedEntries = m₀.gpuCachedEntries := by
      rw [update_iff.mp hunused]
      exact ⟨rfl, rfl⟩
    rw [← same.1] at tables₁
    rw [← same.2] at entries₁
    rw [hseq] at hfresh tables₁
    obtain ⟨key, hkey⟩ : ∃ key, key = (queryId, invocationId) := ⟨_, rfl⟩
    have hkey' : SequenceGroup.cacheKey { g with status := .finishedStopped } = some key := by
      rw [hg, hkey]
      rfl
    obtain ⟨tables₂, entries₂, -⟩ := ManagerM.retainBlocks_owners hkey' hm₂
    simp only [entries₁, hseq] at entries₂
    have o := h.settled.toOwnership
    have hentry : ManagerM.entrySeqIds m₁ key =
        ManagerM.entrySeqIds e.scheduler.blockManager key := by
      unfold ManagerM.entrySeqIds
      rw [entries₁]
    have hn : e.seqCounter ∉ ManagerM.entrySeqIds e.scheduler.blockManager key := by
      intro hin
      exact (o.fresh _ (.inr (mem_retained_of_entry hin))).false
    -- the old entry goes first, then the new table is adopted
    let mid : Scheduler := { e.scheduler with
      blockManager := { m₂ with
        gpuCachedEntries := e.scheduler.blockManager.gpuCachedEntries.erase key
        blockTables := m₂.blockTables.erase e.seqCounter } }
    have hmid : Ownership e.seqCounter e.scheduler.waiting e.scheduler.running mid := by
      refine o.evict (show mid.groups = _ from rfl) rfl rfl fun x => ?_
      show x ∈ m₂.blockTables.erase e.seqCounter ↔ _
      rw [Dict.mem_erase, tables₂, hentry, tables₁]
      constructor
      · rintro ⟨hx, hxe, hx' | hx'⟩
        · exact (hx hx').elim
        · exact ⟨hxe, hx'⟩
      · rintro ⟨hxe, hx⟩
        refine ⟨?_, hxe, .inr hx⟩
        rintro rfl
        exact hfresh hx
    have adopted : Ownership (e.seqCounter + 1) e.scheduler.waiting e.scheduler.running
        { e.scheduler with blockManager := m₂ } := by
      refine hmid.adopt rfl ?_ entries₂ rfl rfl fun x => ?_
      · show key ∉ e.scheduler.blockManager.gpuCachedEntries.erase _
        simp
      · show x ∈ m₂.blockTables ↔ x = e.seqCounter ∨ x ∈ m₂.blockTables.erase e.seqCounter
        rw [Dict.mem_erase]
        constructor
        · intro hx
          by_cases hxn : x = e.seqCounter
          · exact .inl hxn
          · exact .inr ⟨hxn, hx⟩
        · rintro (rfl | ⟨-, hx⟩)
          · rw [tables₂, hentry, tables₁]
            exact ⟨hn, .inl rfl⟩
          · exact hx
    exact ⟨⟨adopted, h.settled.unfinished, h.settled.swapped, h.settled.asyncStopped⟩, h.tracked⟩

theorem migrateCache_owned {tokenIds : List TokenId} {queryId invocationId : Int} {requestId : RequestId}
    {keep : Bool} {arrivalTime now : Int} {u : Unit} (h : Owned e)
    (hm : migrateCache p tokenIds queryId invocationId requestId keep arrivalTime now e = some (u, e')) :
    Owned e' := by
  unfold migrateCache at hm
  split at hm
  · obtain ⟨-, rfl⟩ := pure_iff.mp hm
    exact h
  obtain ⟨registered, e₁, h₁, hm⟩ := bind_iff.mp hm
  have i₁ : Owned e₁ := by
    split at h₁
    · exact registerMigratedGpuCache_owned h h₁
    · obtain ⟨-, rfl⟩ := pure_iff.mp h₁
      exact h
  unfold Prog.when at hm
  split at hm
  · obtain ⟨_, e₂, h₂, hm⟩ := bind_iff.mp hm
    obtain ⟨-, rfl⟩ := pure_iff.mp hm
    obtain ⟨s, hs, rfl⟩ := onScheduler_iff.mp h₂
    have q := onManager_same (ManagerM.registerMigratedCpuCache_owners _ _ _) _ _ _ hs
    refine ⟨?_, i₁.tracked.same q.groups q.running⟩
    show Settled _ s.waiting s.running s
    rw [q.waiting, q.running]
    exact i₁.settled.quiet q
  · obtain ⟨-, rfl⟩ := pure_iff.mp hm
    exact i₁

theorem perform_owned {op : EngineOp} {u : Unit} (h : Owned e)
    (hop : Engine.perform p op e = some (u, e')) : Owned e' := by
  cases op with
  | addSeqGroup => exact addSeqGroup_owned h hop
  | abortSeqGroup => exact abortSeqGroup_owned h hop
  | schedule => exact schedule_owned h hop
  | processModelOutputs => exact processModelOutputs_owned h hop
  | migrateCache => exact migrateCache_owned h hop

theorem init_owned (p : SchedulerParams) : Owned (Engine.init p) := by
  refine ⟨⟨⟨?_, ?_, ?_, ?_, ?_, ?_, ?_, ?_⟩, ?_, rfl, rfl⟩, ?_⟩
  all_goals simp [Engine.init, Scheduler.init, BlockSpaceManager.init, retained, Dict.empty, Dict.get?,
    Dict.rawGet, Unfinished, Tracked, batchIds, Dict.mem_def, Dict.keys]

end EngineM

theorem Engine.run_owned {p : SchedulerParams} {ops : List EngineOp} {e : Engine}
    (h : Engine.run p (Engine.init p) ops = some e) : EngineM.Owned e :=
  Engine.run_invariant EngineM.Owned (fun _ _ _ h hop => EngineM.perform_owned h hop) h
    (EngineM.init_owned p)

/-! ## What a reader wants to know -/

/-- What a block table can belong to. -/
inductive TableOwner where
  | running
  | retained (key : Int × Int)
  | pendingSwapOut

/-- The table of a sequence belongs to an owner. -/
def Owns (s : Scheduler) (id : SeqId) : TableOwner → Prop
  | .running => id ∈ s.running ∧ ∃ g, s.groups.get? id = some g ∧ g.status = .running
  | .retained key => ∃ e, s.blockManager.getGpuCachedEntry key = some e ∧ id ∈ e.seqIds
  | .pendingSwapOut => id ∈ s.finishedSeqsPendingSwapOut ∧
      ∃ g, s.groups.get? id = some g ∧ g.isFinished = true

/-- Queues, statuses, tables, retained entries and pending releases agree. -/
structure QueueOwnership (s : Scheduler) : Prop where
  queued : ∀ id g, s.groups.get? id = some g → g.isFinished = false →
    (s.waiting.count id = 1 ∧ s.running.count id = 0 ∧ g.status = .waiting) ∨
      (s.waiting.count id = 0 ∧ s.running.count id = 1 ∧ g.status = .running)
  swapped : s.swapped = []
  waiting : ∀ id ∈ s.waiting, s.blockManager.blockTables.get? id = none
  running : ∀ id ∈ s.running, ∃! t, s.blockManager.blockTables.get? id = some t
  owned : ∀ id t, s.blockManager.blockTables.get? id = some t → ∃! o, Owns s id o

theorem count_retained_of_key {m : BlockSpaceManager} {key : Int × Int} {id : SeqId} {e : GpuCachedEntry}
    (he : m.getGpuCachedEntry key = some e) (hid : id ∈ e.seqIds) : 0 < (retained m).count id :=
  List.count_pos_iff.mpr (List.mem_flatMap.mpr ⟨(key, e), Dict.get?_iff_mem_entries.mp he, hid⟩)

/-- An id that is retained once is retained under one key. -/
theorem retained_key_unique {m : BlockSpaceManager} {id : SeqId} (h : (retained m).count id ≤ 1)
    {key key' : Int × Int} {e e' : GpuCachedEntry} (he : m.getGpuCachedEntry key = some e)
    (hid : id ∈ e.seqIds) (he' : m.getGpuCachedEntry key' = some e') (hid' : id ∈ e'.seqIds) :
    key = key' := by
  by_contra hne
  have split := count_retained_erase m key id
  have hentry : 0 < (ManagerM.entrySeqIds m key).count id := by
    refine List.count_pos_iff.mpr ?_
    unfold ManagerM.entrySeqIds
    rw [show m.gpuCachedEntries.get? key = some e from he]
    exact hid
  have hrest : 0 < ((m.gpuCachedEntries.erase key).entries.flatMap fun e => e.2.seqIds).count id := by
    refine List.count_pos_iff.mpr (List.mem_flatMap.mpr ⟨(key', e'), ?_, hid'⟩)
    refine Dict.get?_iff_mem_entries.mp ?_
    rw [Dict.get?_erase_ne _ hne]
    exact he'
  omega

theorem Settled.queueOwnership {n : SeqId} {s : Scheduler} (h : Settled n s.waiting s.running s) :
    QueueOwnership s := by
  refine ⟨fun id g hg hu => ?_, h.swapped, fun id hid => Dict.get?_eq_none.mpr (h.waiting id hid).1,
    fun id hid => ?_, fun id t ht => ?_⟩
  · have once := h.once id
    have hq := h.queued id g hg hu
    by_cases hw : id ∈ s.waiting
    · obtain ⟨-, g', hg', hs⟩ := h.waiting id hw
      obtain rfl : g = g' := Option.some.inj (hg.symm.trans hg')
      have := List.count_pos_iff.mpr hw
      exact .inl ⟨by omega, by omega, hs⟩
    · have hw0 := List.count_eq_zero.mpr hw
      obtain ⟨g', hg', hs, -⟩ := h.running_group (List.count_pos_iff.mp (by omega) : id ∈ s.running)
      obtain rfl : g = g' := Option.some.inj (hg.symm.trans hg')
      exact .inr ⟨hw0, by omega, hs⟩
  · obtain ⟨-, -, -, ht⟩ := h.running_group hid
    obtain ⟨t, ht⟩ := Dict.mem_iff.mp ht
    exact ⟨t, ht, fun t' ht' => Option.some.inj (ht'.symm.trans ht)⟩
  · have once := h.once id
    have howned := h.owned id (Dict.mem_of_get? ht)
    -- one of the three counts is one, and the others are zero
    by_cases hr : id ∈ s.running
    · have hc := List.count_pos_iff.mpr hr
      obtain ⟨g, hg, hs, -⟩ := h.running_group hr
      refine ⟨.running, ⟨hr, g, hg, hs⟩, fun o ho => ?_⟩
      cases o with
      | running => rfl
      | retained key =>
        obtain ⟨e, he, hid⟩ := ho
        have := count_retained_of_key he hid
        omega
      | pendingSwapOut =>
        have := List.count_pos_iff.mpr ho.1
        omega
    · have hr0 := List.count_eq_zero.mpr hr
      by_cases hf : id ∈ s.finishedSeqsPendingSwapOut
      · have hc := List.count_pos_iff.mpr hf
        refine ⟨.pendingSwapOut, ⟨hf, h.finished id hf⟩, fun o ho => ?_⟩
        cases o with
        | running => exact (hr ho.1).elim
        | retained key =>
          obtain ⟨e, he, hid⟩ := ho
          have := count_retained_of_key he hid
          omega
        | pendingSwapOut => rfl
      · have hf0 := List.count_eq_zero.mpr hf
        obtain ⟨⟨key, e⟩, hmem, hid⟩ := List.mem_flatMap.mp
          (List.count_pos_iff.mp (by omega) : id ∈ retained s.blockManager)
        have he : s.blockManager.getGpuCachedEntry key = some e := Dict.get?_iff_mem_entries.mpr hmem
        refine ⟨.retained key, ⟨e, he, hid⟩, fun o ho => ?_⟩
        cases o with
        | running => exact (hr ho.1).elim
        | retained key' =>
          obtain ⟨e', he', hid'⟩ := ho
          rw [retained_key_unique (by omega) he hid he' hid']
        | pendingSwapOut => exact (hf ho.1).elim

/-- A run with a retained entry, a finished group that is swapped out, a hit and an abort. -/
def ownershipRun : List EngineOp :=
  [.addSeqGroup "q0_a" [1, 2, 3] (some ⟨some (some 0), some 0, 0, true, false, none⟩) 0 0,
   .schedule [1, 1, 1, 1, 1],
   .processModelOutputs [⟨4, some .finishedStopped, false⟩] [2, 2],
   .addSeqGroup "q1_b" [5, 6, 7] (some ⟨some (some 1), some 0, 0, false, false, none⟩) 0 0,
   .schedule [3, 3, 3, 3],
   .processModelOutputs [⟨8, some .finishedStopped, false⟩] [4, 4],
   .addSeqGroup "q0_c" [1, 2, 3, 4] (some ⟨some (some 0), some 0, 0, true, false, none⟩) 0 0,
   .schedule [5, 5, 5, 5],
   .abortSeqGroup ["q0_c"]]

end CoreFlow
