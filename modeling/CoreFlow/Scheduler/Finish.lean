import CoreFlow.Scheduler.Settle

/-!
# Aborting and finishing keep ownership

Outside `schedule` groups leave the queues for good: they are aborted, or they finish and their tables
are freed, retained or kept until a copy has been handed out.
-/

namespace CoreFlow
open Prog SchedM

/-- The groups of a batch exist, and those that are not finished are running. -/
def Tracked (batch : List SeqId) (s : Scheduler) : Prop :=
  ∀ id ∈ batch, ∃ g, s.groups.get? id = some g ∧ (g.isFinished = false → id ∈ s.running)

section
variable {p : SchedulerParams} {n : SeqId} {w r batch : List SeqId} {s s' : Scheduler} {id : SeqId}
  {g : SequenceGroup}

/-! ## Aborts -/

namespace SchedM

theorem abortGroup_spec {u : Unit} (hg : s.groups.get? id = some g) (hu : g.isFinished = false)
    (h : abortGroup p id s = some (u, s')) :
    s'.groups = s.groups.set id { g with status := .finishedAborted } ∧ SameLists s s' ∧
      (∀ x, x ∈ s'.blockManager.blockTables ↔ x ≠ id ∧ x ∈ s.blockManager.blockTables) ∧
      s'.blockManager.gpuCachedEntries = s.blockManager.gpuCachedEntries ∧
      s'.blockManager.trace = s.blockManager.trace := by
  rw [abortGroup, getGroup_bind, hg, Option.bind_some, when_pos hu] at h
  obtain ⟨_, s₁, h₁, h⟩ := bind_iff.mp h
  have l := IsTrans.trans _ _ _ (setStatus_lists _ _ _ _ _ h₁) (freeSeq_lists p _ _ _ _ h)
  obtain ⟨g', hg', rfl⟩ := setStatus_iff.mp h₁
  obtain rfl : g = g' := Option.some.inj (hg.symm.trans hg')
  obtain ⟨groups, tables, entries, trace⟩ := freeSeq_spec h
  exact ⟨groups, l, tables, entries, trace⟩

theorem groupsNamed_sublist {ids : List RequestId} {queue named : List SeqId}
    (h : groupsNamed ids queue s = some (named, s')) : named.Sublist queue := by
  obtain ⟨marked, s₁, h₁, h⟩ := bind_iff.mp h
  obtain ⟨rfl, -⟩ := pure_iff.mp h
  have hfst : marked.map Prod.fst = queue := by
    rw [← List.map_id queue]
    refine mapM_map_eq (fun id t b t' hb => ?_) h₁
    simp only [bind_iff, pure_iff] at hb
    obtain ⟨g, -, -, rfl, -⟩ := hb
    rfl
  rw [← hfst]
  exact (List.filter_sublist).map _

end SchedM

theorem Settled.abort {u : Unit} (h : Settled n w r s) (hid : 0 < w.count id + r.count id)
    (ha : abortGroup p id s = some (u, s')) : Settled n (w.erase id) (r.erase id) s' := by
  have hu : ∃ g, s.groups.get? id = some g ∧ g.isFinished = false := by
    by_cases hw : id ∈ w
    · obtain ⟨-, g, hg, hs⟩ := h.waiting id hw
      exact ⟨g, hg, by rw [SequenceGroup.isFinished, hs]; rfl⟩
    · rw [List.count_eq_zero.mpr hw] at hid
      exact h.unfinished id (List.count_pos_iff.mp (by omega))
  obtain ⟨g, hg, hu⟩ := hu
  obtain ⟨groups, l, tables, entries, -⟩ := abortGroup_spec hg hu ha
  have once := h.once id
  have hw0 : (w.erase id).count id = 0 := by rw [List.count_erase_self]; omega
  have hr0 : (r.erase id).count id = 0 := by rw [List.count_erase_self]; omega
  have hseq := h.seqId_eq hg
  refine h.move hg groups hseq l entries (fun x hx => by rw [tables]; simp [hx])
    (fun x hx => List.count_erase_of_ne hx) (fun x hx => List.count_erase_of_ne hx) hid ?_ (fun h => by cases h) ?_ ?_ ?_
  · omega
  · omega
  · omega
  · exact fun ht => (((tables id).mp ht).1 rfl).elim

theorem Tracked.finish (h : Tracked batch s) {g' : SequenceGroup} (groups : s'.groups = s.groups.set id g')
    (hf : g'.isFinished = true) (hr : ∀ x, x ≠ id → x ∈ s.running → x ∈ s'.running) :
    Tracked batch s' := by
  intro x hx
  by_cases hxi : x = id
  · subst hxi
    refine ⟨g', by rw [groups, Dict.get?_set_self], ?_⟩
    rw [hf]
    intro h
    cases h
  · obtain ⟨gx, hgx, hin⟩ := h x hx
    exact ⟨gx, by rw [groups, Dict.get?_set_ne _ _ (Ne.symm hxi)]; exact hgx, fun hu => hr x hxi (hin hu)⟩

theorem Tracked.same (h : Tracked batch s) (groups : s'.groups = s.groups)
    (running : s'.running = s.running) : Tracked batch s' := by
  unfold Tracked
  rw [groups, running]
  exact h

theorem Settled.group_of_count (h : Settled n w r s) (hid : 0 < w.count id + r.count id) :
    ∃ g, s.groups.get? id = some g ∧ g.isFinished = false := by
  by_cases hw : id ∈ w
  · obtain ⟨-, g, hg, hs⟩ := h.waiting id hw
    exact ⟨g, hg, by rw [SequenceGroup.isFinished, hs]; rfl⟩
  · rw [List.count_eq_zero.mpr hw] at hid
    exact h.unfinished id (List.count_pos_iff.mp (by omega))

theorem Settled.nodup (h : Settled n w r s) : w.Nodup ∧ r.Nodup := by
  refine ⟨List.nodup_iff_count_le_one.mpr fun x => ?_, List.nodup_iff_count_le_one.mpr fun x => ?_⟩
  · have := h.once x
    omega
  · have := h.once x
    omega

/-- A group is taken off its queue, whichever it is, and aborted. -/
theorem abortStep {u : Unit} (h : Settled n s.waiting s.running s) (ht : Tracked batch s)
    (hid : 0 < s.waiting.count id + s.running.count id)
    (ha : abortGroup p id { s with waiting := s.waiting.erase id, running := s.running.erase id } =
      some (u, s')) :
    Settled n s'.waiting s'.running s' ∧ Tracked batch s' ∧ s'.waiting = s.waiting.erase id ∧
      s'.running = s.running.erase id := by
  have i : Settled n s.waiting s.running
      { s with waiting := s.waiting.erase id, running := s.running.erase id } :=
    h.same ⟨rfl, rfl, refl _⟩ rfl rfl
  obtain ⟨g, hg, hu⟩ := i.group_of_count hid
  obtain ⟨groups, l, -⟩ := abortGroup_spec hg hu ha
  have i' := i.abort hid ha
  have hw : s'.waiting = s.waiting.erase id := l.waiting
  have hr : s'.running = s.running.erase id := l.running
  rw [← hw, ← hr] at i'
  refine ⟨i', ht.finish groups rfl fun x hx hxr => ?_, hw, hr⟩
  rw [hr]
  exact (List.mem_erase_of_ne hx).mpr hxr

theorem abortSeqGroup_settled {ids : List RequestId} {u : Unit} (h : Settled n s.waiting s.running s)
    (ht : Tracked batch s) (ha : abortSeqGroup p ids s = some (u, s')) :
    Settled n s'.waiting s'.running s' ∧ Tracked batch s' := by
  rw [abortSeqGroup, read_bind] at ha
  obtain ⟨fromWaiting, s₁, h₁, ha⟩ := bind_iff.mp ha
  obtain ⟨_, s₂, h₂, ha⟩ := bind_iff.mp ha
  rw [read_bind] at ha
  obtain ⟨fromRunning, s₃, h₃, ha⟩ := bind_iff.mp ha
  obtain ⟨_, s₄, h₄, ha⟩ := bind_iff.mp ha
  rw [read_bind] at ha
  have q₁ := groupsNamed_same _ _ _ _ _ h₁
  have q₃ := groupsNamed_same _ _ _ _ _ h₃
  -- the waiting queue
  let I₁ (todo : List SeqId) (s : Scheduler) : Prop := Settled n s.waiting s.running s ∧ Tracked batch s ∧
    todo.Nodup ∧ ∀ id ∈ todo, id ∈ s.waiting
  have start₁ : I₁ fromWaiting s₁ := by
    have sub := groupsNamed_sublist h₁
    refine ⟨?_, ht.same q₁.groups q₁.running, h.nodup.1.sublist sub, fun x hx => ?_⟩
    · rw [q₁.waiting, q₁.running]
      exact h.quiet q₁
    · rw [q₁.waiting]
      exact sub.subset hx
  have done₁ : I₁ [] s₂ := by
    refine forM_invariant I₁ ?_ h₂ start₁
    rintro id todo s s' ⟨i, ht, hn, hin⟩ hs
    have hid := List.count_pos_iff.mpr (hin id (List.mem_cons_self ..))
    have once := i.once id
    have hr : id ∉ s.running := List.count_eq_zero.mp (by omega)
    have hcount : 0 < s.waiting.count id + s.running.count id := by omega
    rw [update_bind] at hs
    obtain ⟨i', t', hw', -⟩ := abortStep i ht hcount (by rw [List.erase_of_not_mem hr]; exact hs)
    refine ⟨i', t', hn.of_cons, fun x hx => ?_⟩
    have hne : x ≠ id := fun e => (List.nodup_cons.mp hn).1 (e ▸ hx)
    rw [hw']
    exact (List.mem_erase_of_ne hne).mpr (hin x (List.mem_cons_of_mem _ hx))
  -- the running queue
  let I₂ (todo : List SeqId) (s : Scheduler) : Prop := Settled n s.waiting s.running s ∧ Tracked batch s ∧
    todo.Nodup ∧ ∀ id ∈ todo, id ∈ s.running
  have start₂ : I₂ fromRunning s₃ := by
    have sub := groupsNamed_sublist h₃
    refine ⟨?_, done₁.2.1.same q₃.groups q₃.running, done₁.1.nodup.2.sublist sub, fun x hx => ?_⟩
    · rw [q₃.waiting, q₃.running]
      exact done₁.1.quiet q₃
    · rw [q₃.running]
      exact sub.subset hx
  have done₂ : I₂ [] s₄ := by
    refine forM_invariant I₂ ?_ h₄ start₂
    rintro id todo s s' ⟨i, ht, hn, hin⟩ hs
    have hid := List.count_pos_iff.mpr (hin id (List.mem_cons_self ..))
    have once := i.once id
    have hw : id ∉ s.waiting := List.count_eq_zero.mp (by omega)
    have hcount : 0 < s.waiting.count id + s.running.count id := by omega
    rw [update_bind] at hs
    obtain ⟨i', t', -, hr'⟩ := abortStep i ht hcount (by rw [List.erase_of_not_mem hw]; exact hs)
    refine ⟨i', t', hn.of_cons, fun x hx => ?_⟩
    have hne : x ≠ id := fun e => (List.nodup_cons.mp hn).1 (e ▸ hx)
    rw [hr']
    exact (List.mem_erase_of_ne hne).mpr (hin x (List.mem_cons_of_mem _ hx))
  -- nothing is swapped
  obtain ⟨fromSwapped, s₅, h₅, ha⟩ := bind_iff.mp ha
  rw [done₂.1.swapped] at h₅
  obtain rfl := List.sublist_nil.mp (groupsNamed_sublist h₅)
  have q₅ := groupsNamed_same _ _ _ _ _ h₅
  rw [forM_nil_iff.mp ha, q₅.waiting, q₅.running]
  exact ⟨done₂.1.quiet q₅, done₂.2.1.same q₅.groups q₅.running⟩

/-! ## Finished groups -/

theorem freeFinishedSeqs_spec {u : Unit} (hg : s.groups.get? id = some g)
    (h : freeFinishedSeqs p id s = some (u, s')) :
    (g.isFinished = false → s' = s) ∧ (g.isFinished = true → freeSeq p id s = some (u, s')) := by
  rw [freeFinishedSeqs, getGroup_bind, hg, Option.bind_some] at h
  refine ⟨fun hf => ?_, fun hf => ?_⟩
  · rw [when_neg (by rw [hf]; decide)] at h
    exact (pure_iff.mp h).2
  · rwa [when_pos hf] at h

/-- What is left alone when the blocks of a finished group are released. -/
structure SameQueuedGroups (s s' : Scheduler) : Prop where
  groups : s'.groups = s.groups
  waiting : s'.waiting = s.waiting
  running : s'.running = s.running
  swapped : s'.swapped = s.swapped
  asyncStopped : s'.asyncStopped = s.asyncStopped

instance : IsPreorder Scheduler SameQueuedGroups where
  refl _ := ⟨rfl, rfl, rfl, rfl, rfl⟩
  trans _ _ _ h h' := ⟨h'.1.trans h.1, h'.2.trans h.2, h'.3.trans h.3, h'.4.trans h.4, h'.5.trans h.5⟩

namespace SchedM

theorem onManager_queued {α : Type} (x : ManagerM α) : Within SameQueuedGroups (onManager x) :=
  .zoom_any fun _ _ => ⟨rfl, rfl, rfl, rfl, rfl⟩

theorem freeFinishedSeqs_queued (id : SeqId) : Within SameQueuedGroups (freeFinishedSeqs p id) :=
  .bind ((getGroup_same _).mono fun _ _ h => ⟨h.groups, h.waiting, h.running, h.swapped, h.asyncStopped⟩)
    fun _ => .when (onManager_queued _)

theorem releaseCache_queued (g : SequenceGroup) : Within SameQueuedGroups (releaseCache p g) := by
  refine .ite (.bind (onManager_queued _) fun _ => .pure _)
    (.ite (.bind (onManager_queued _) fun _ => .pure _) ?_)
  refine .bind (time_same.mono fun _ _ h => ⟨h.groups, h.waiting, h.running, h.swapped, h.asyncStopped⟩)
    fun now => .bind (onManager_queued _) fun o => ?_
  cases o with
  | none => exact .bind (onManager_queued _) fun _ => .pure _
  | some _ => exact .bind (.update fun _ => ⟨rfl, rfl, rfl, rfl, rfl⟩) fun _ => .pure _

end SchedM

theorem Ownership.evictKey {key : Int × Int} {m : BlockSpaceManager} {u : Unit} (h : Ownership n w r s)
    (he : ManagerM.evictCachedBlocks p.toManagerParams key s.blockManager = some (u, m)) :
    Ownership n w r { s with blockManager := m } := by
  obtain ⟨tables, entries, -⟩ := ManagerM.evictCachedBlocks_owners he
  exact h.evict rfl rfl entries tables

/-- The release of a finished group's cache: the entry under its key is gone or is its own. -/
theorem releaseCache_ownership {keep : Bool} (h : Ownership n w (id :: r) s)
    (hg : s.groups.get? id = some g) (hf : g.isFinished = true)
    (hr : releaseCache p g s = some (keep, s')) :
    (keep = true → Ownership n w r
      { s' with finishedSeqsPendingSwapOut := s'.finishedSeqsPendingSwapOut ++ [id] }) ∧
    (keep = false → (g.cacheKey.bind s'.blockManager.gpuCachedEntries.get? = none →
        Ownership n w (id :: r) s') ∧
      (g.cacheKey.bind s'.blockManager.gpuCachedEntries.get? ≠ none → Ownership n w r s')) := by
  have hseq := h.seqId_eq hg
  -- freeing under the key of the group
  have freed {x : ManagerM Unit} {t : Scheduler} (ht : Ownership n w (id :: r) t)
      (hx : x = ManagerM.freeRequestCache p.toManagerParams g)
      (hs : (do onManager x; pure false) t = some (keep, s')) :
      keep = false ∧ Ownership n w (id :: r) s' ∧
        g.cacheKey.bind s'.blockManager.gpuCachedEntries.get? = none := by
    obtain ⟨_, t₁, h₁, hs⟩ := bind_iff.mp hs
    obtain ⟨rfl, rfl⟩ := pure_iff.mp hs
    obtain ⟨m, hm, rfl⟩ := onManager_iff.mp h₁
    cases hkey : g.cacheKey with
    | none =>
      rw [hx, ManagerM.freeRequestCache, hkey] at hm
      obtain ⟨-, rfl⟩ := pure_iff.mp hm
      exact ⟨rfl, ht, rfl⟩
    | some key =>
      rw [hx, ManagerM.freeRequestCache, hkey] at hm
      refine ⟨rfl, ht.evictKey hm, ?_⟩
      rw [Option.bind_some]
      show m.gpuCachedEntries.get? key = none
      rw [(ManagerM.evictCachedBlocks_owners hm).2.1, Dict.get?_erase_self]
  unfold releaseCache at hr
  split at hr
  · obtain ⟨rfl, i, hnone⟩ := freed h rfl hr
    exact ⟨(fun h => by cases h), fun _ => ⟨fun _ => i, fun hne => (hne hnone).elim⟩⟩
  split at hr
  · -- the table is retained
    obtain ⟨_, s₁, h₁, hr⟩ := bind_iff.mp hr
    obtain ⟨rfl, rfl⟩ := pure_iff.mp hr
    obtain ⟨m, hm, rfl⟩ := onManager_iff.mp h₁
    refine ⟨(fun h => by cases h), fun _ => ?_⟩
    cases hkey : g.cacheKey with
    | none =>
      rw [ManagerM.retainBlocks, hkey] at hm
      obtain ⟨-, rfl⟩ := pure_iff.mp hm
      exact ⟨fun _ => h, fun hne => (hne rfl).elim⟩
    | some key =>
      simp only [ManagerM.retainBlocks, hkey, bind_iff, update_iff, hf, if_true] at hm
      obtain ⟨_, m₁, hm₁, rfl⟩ := hm
      have i := h.evictKey hm₁
      have hgone : key ∉ m₁.gpuCachedEntries := by
        rw [(ManagerM.evictCachedBlocks_owners hm₁).2.1]
        simp
      refine ⟨fun hnone => ?_, fun _ => ?_⟩
      · rw [Option.bind_some] at hnone
        simp at hnone
      · exact i.retain rfl hgone rfl (by rw [hseq]) rfl ⟨g, hg, hf⟩ fun _ => Iff.rfl
  · obtain ⟨now, s₁, h₁, hr⟩ := bind_iff.mp hr
    have q₁ := time_same _ _ _ h₁
    have i₁ := h.same q₁.toSameGroups
    obtain ⟨o, s₂, h₂, hr⟩ := bind_iff.mp hr
    obtain ⟨m, hm, rfl⟩ := onManager_iff.mp h₂
    obtain ⟨out, -⟩ := ManagerM.swapOutGroup_owners hm
    cases o with
    | none =>
      have i₂ : Ownership n w (id :: r) { s₁ with blockManager := m } :=
        i₁.frame rfl rfl out.entries out.tables
      obtain ⟨rfl, i, hnone⟩ := freed i₂ rfl hr
      exact ⟨(fun h => by cases h), fun _ => ⟨fun _ => i, fun hne => (hne hnone).elim⟩⟩
    | some pairs =>
      -- the table waits for its copy
      simp only [update_bind, pure_iff] at hr
      obtain ⟨rfl, rfl⟩ := hr
      refine ⟨fun _ => ?_, fun h => by cases h⟩
      exact i₁.defer rfl out.entries rfl ⟨g, by rw [q₁.groups]; exact hg, hf⟩ out.tables

/-- The table of a finished group goes. -/
theorem Ownership.free {u : Unit} (h : Ownership n w (id :: r) s) (hg : s.groups.get? id = some g)
    (hf : g.isFinished = true) (hs : freeSeq p id s = some (u, s')) : Ownership n w r s' := by
  have l := freeSeq_lists p id _ _ _ hs
  obtain ⟨groups, tables, entries, -⟩ := freeSeq_spec hs
  refine h.release (f := [id]) groups entries (fun x => by rw [l.finished]) (fun x => ?_) ?_ (fun x hx => ?_)
    fun x => by rw [tables, List.mem_singleton]
  · rw [List.count_cons]
    omega
  · simp only [List.mem_singleton, forall_eq]
    exact ⟨g, hg, hf⟩
  · rw [List.mem_singleton] at hx
    rw [l.finished, List.count_cons_of_ne (Ne.symm hx)]
    exact ⟨rfl, rfl⟩

theorem freeFinishedSeqGroupBlocks_queued (id : SeqId) :
    Within SameQueuedGroups (freeFinishedSeqGroupBlocks p id) := by
  have get (id : SeqId) : Within SameQueuedGroups (getGroup id) :=
    (getGroup_same id).mono fun _ _ h => ⟨h.groups, h.waiting, h.running, h.swapped, h.asyncStopped⟩
  have entry (g : SequenceGroup) : Within SameQueuedGroups (hasCacheEntry g) :=
    (hasCacheEntry_same g).mono fun _ _ h => ⟨h.groups, h.waiting, h.running, h.swapped, h.asyncStopped⟩
  refine .bind (get _) fun g => .bind (.ite (releaseCache_queued g) (.pure _)) fun keep => .ite ?_ ?_
  · exact .update fun _ => ⟨rfl, rfl, rfl, rfl, rfl⟩
  · exact .bind (entry g) fun _ => .when (freeFinishedSeqs_queued _)

theorem hasCacheEntry_iff {b : Bool} : hasCacheEntry g s = some (b, s') ↔
    b = (g.cacheKey.bind s.blockManager.gpuCachedEntries.get?).isSome ∧ s' = s := by
  rw [hasCacheEntry, read_bind]
  cases g.cacheKey with
  | none => exact pure_iff
  | some key => exact pure_iff

/-- A group of the running queue that is not finished is left alone; a finished one leaves the queue. -/
theorem freeFinishedSeqGroupBlocks_ownership {u : Unit} (h : Ownership n w (id :: r) s)
    (hs : freeFinishedSeqGroupBlocks p id s = some (u, s')) :
    ∃ g, s.groups.get? id = some g ∧ (g.isFinished = false → Ownership n w (id :: r) s') ∧
      (g.isFinished = true → Ownership n w r s') := by
  rw [freeFinishedSeqGroupBlocks, getGroup_bind, Option.bind_eq_some_iff] at hs
  obtain ⟨g, hg, hs⟩ := hs
  obtain ⟨keep, s₁, h₁, h₂⟩ := bind_iff.mp hs
  refine ⟨g, hg, fun hf => ?_, fun hf => ?_⟩
  · rw [if_neg (by rw [hf]; decide)] at h₁
    obtain ⟨rfl, rfl⟩ := pure_iff.mp h₁
    rw [if_neg Bool.false_ne_true] at h₂
    obtain ⟨b, s₂, h₃, h₄⟩ := bind_iff.mp h₂
    obtain ⟨-, rfl⟩ := hasCacheEntry_iff.mp h₃
    rw [when_pos (by rw [hf]; rfl)] at h₄
    rw [(freeFinishedSeqs_spec hg h₄).1 hf]
    exact h
  · rw [if_pos hf] at h₁
    have q₁ := releaseCache_queued g _ _ _ h₁
    obtain ⟨hkeep, hfree⟩ := releaseCache_ownership h hg hf h₁
    cases keep with
    | true =>
      rw [if_pos rfl, update_iff] at h₂
      rw [h₂]
      exact hkeep rfl
    | false =>
      rw [if_neg Bool.false_ne_true] at h₂
      obtain ⟨b, s₂, h₃, h₄⟩ := bind_iff.mp h₂
      obtain ⟨hb, rfl⟩ := hasCacheEntry_iff.mp h₃
      obtain ⟨hnone, hsome⟩ := hfree rfl
      cases hn : g.cacheKey.bind s₂.blockManager.gpuCachedEntries.get? with
      | none =>
        rw [hn] at hb
        have hg₂ : s₂.groups.get? id = some g := by rw [q₁.groups]; exact hg
        rw [hb, when_pos (by rw [hf]; rfl)] at h₄
        exact (hnone hn).free hg₂ hf ((freeFinishedSeqs_spec hg₂ h₄).2 hf)
      | some e =>
        rw [hn] at hb
        rw [hb, when_neg (by rw [hf]; simp)] at h₄
        obtain ⟨-, rfl⟩ := pure_iff.mp h₄
        exact hsome (by rw [hn]; exact Option.some_ne_none _)

/-- The ids of a queue whose groups are not finished. -/
def unfinishedOf (groups : Dict SeqId SequenceGroup) (queue : List SeqId) : List SeqId :=
  queue.filter fun id => (groups.get? id).any fun g => !g.isFinished

theorem freeFinishedSeqGroups_settled {u : Unit} (h : Ownership n s.waiting s.running s)
    (hsw : s.swapped = []) (has : s.asyncStopped = []) (ht : Tracked batch s)
    (hs : freeFinishedSeqGroups p s = some (u, s')) :
    Settled n s'.waiting s'.running s' ∧ Tracked batch s' := by
  simp only [freeFinishedSeqGroups, read_bind, require_bind, Option.ite_none_right_eq_some] at hs
  obtain ⟨-, -, hs⟩ := hs
  obtain ⟨_, s₁, h₁, hs⟩ := bind_iff.mp hs
  rw [update_bind] at hs
  obtain ⟨_, s₂, h₂, hs⟩ := bind_iff.mp hs
  rw [update_bind] at hs
  obtain ⟨_, s₃, h₃, hs⟩ := bind_iff.mp hs
  -- the tables whose copies have been handed out go
  let I₁ (todo : List SeqId) (t : Scheduler) : Prop := Ownership n s.waiting s.running t ∧
    SameQueuedGroups s t ∧ t.finishedSeqsPendingSwapOut = s.finishedSeqsPendingSwapOut ∧
    (∀ id ∈ todo, id ∈ s.finishedSeqsPendingSwapOut) ∧
    ∀ id ∈ s.finishedSeqsPendingSwapOut, id ∈ todo ∨ id ∉ t.blockManager.blockTables
  have done₁ : I₁ [] s₁ := by
    refine forM_invariant I₁ ?_ h₁ ⟨h, refl _, rfl, fun _ hid => hid, fun _ hid => .inl hid⟩
    rintro id todo t t' ⟨i, q, hfin, hsub, hleft⟩ ht
    have hid := hsub id (List.mem_cons_self ..)
    rw [← hfin] at hid
    obtain ⟨g, hg, hf⟩ := i.finished id hid
    have hfree := (freeFinishedSeqs_spec hg ht).2 hf
    have l := freeSeq_lists p id _ _ _ hfree
    obtain ⟨groups, tables, entries, -⟩ := freeSeq_spec hfree
    refine ⟨?_, IsTrans.trans _ _ _ q (freeFinishedSeqs_queued id _ _ _ ht), l.finished.trans hfin,
      fun x hx => hsub x (List.mem_cons_of_mem _ hx), fun x hx => ?_⟩
    · refine i.release (f := [id]) groups entries (fun x => by rw [l.finished]) (fun x => le_refl _) ?_
        (fun x hx => ⟨rfl, by rw [l.finished]⟩) fun x => by rw [tables, List.mem_singleton]
      simp only [List.mem_singleton, forall_eq]
      exact ⟨g, hg, hf⟩
    · rw [tables]
      rcases hleft x hx with hx | hx
      · rcases List.mem_cons.mp hx with rfl | hx
        · exact .inr fun hx => hx.1 rfl
        · exact .inl hx
      · exact .inr fun hx' => hx hx'.2
  obtain ⟨i₁, q₁, fin₁, -, gone₁⟩ := done₁
  -- the groups of the running queue, of which `done` have been looked at
  let I₂ (todo : List SeqId) (t : Scheduler) : Prop :=
    ∃ done, done ++ todo = s.running ∧ SameQueuedGroups s t ∧
      Ownership n s.waiting (unfinishedOf s.groups done ++ todo) t
  have start₂ : I₂ s.running { s₁ with finishedSeqsPendingSwapOut := [] } := by
    refine ⟨[], rfl, IsTrans.trans _ _ _ q₁ ⟨rfl, rfl, rfl, rfl, rfl⟩, ?_⟩
    have gone (x : SeqId) (hx : x ∈ s₁.finishedSeqsPendingSwapOut) : x ∉ s₁.blockManager.blockTables := by
      rw [fin₁] at hx
      exact (gone₁ x hx).resolve_left (by simp)
    refine i₁.release (f := s₁.finishedSeqsPendingSwapOut) ?_ ?_ ?_ (fun x => le_refl _) i₁.finished ?_ ?_
    · rfl
    · rfl
    · exact fun x => Nat.zero_le _
    · exact fun x hx => ⟨rfl, (List.count_eq_zero.mpr hx).symm⟩
    · exact fun x => ⟨fun hx => ⟨fun hx' => gone x hx' hx, hx⟩, And.right⟩
  have done₂ : I₂ [] s₂ := by
    refine forM_invariant I₂ ?_ h₂ start₂
    rintro id todo t t' ⟨done, hsplit, q, i⟩ ht
    have i' : Ownership n s.waiting (id :: (unfinishedOf s.groups done ++ todo)) t :=
      i.perm (.refl _) List.perm_middle.symm
    obtain ⟨g, hg, hu, hf⟩ := freeFinishedSeqGroupBlocks_ownership i' ht
    have hg' : s.groups.get? id = some g := by rw [← q.groups]; exact hg
    refine ⟨done ++ [id], by rw [← hsplit, List.append_assoc]; rfl,
      IsTrans.trans _ _ _ q (freeFinishedSeqGroupBlocks_queued id _ _ _ ht), ?_⟩
    unfold unfinishedOf
    rw [List.filter_append]
    cases hfin : g.isFinished with
    | true =>
      rw [List.filter_cons_of_neg (by simp [hg', hfin]), List.filter_nil, List.append_nil]
      exact hf hfin
    | false =>
      rw [List.filter_cons_of_pos (by simp [hg', hfin]), List.filter_nil, List.append_assoc]
      exact (hu hfin).perm (.refl _) List.perm_middle
  obtain ⟨done, hsplit, q₂, i₂⟩ := done₂
  rw [List.append_nil] at hsplit i₂
  subst hsplit
  -- nothing was stopped asynchronously
  have h₃' : s₃ = { s₂ with running := unfinishedOf s₂.groups s₂.running } := by
    rw [has] at h₃
    exact forM_nil_iff.mp h₃
  rw [update_iff.mp hs, h₃']
  refine ⟨⟨?_, ?_, q₂.swapped.trans hsw, rfl⟩, fun x hx => ?_⟩
  · refine Ownership.frame ?_ (s := s₂) rfl rfl rfl fun _ => Iff.rfl
    show Ownership n s₂.waiting (unfinishedOf s₂.groups s₂.running) s₂
    rw [q₂.waiting, q₂.groups, q₂.running]
    exact i₂
  · intro x hx
    obtain ⟨-, hx⟩ := List.mem_filter.mp hx
    cases hg : s₂.groups.get? x with
    | none => simp [hg] at hx
    | some g => exact ⟨g, rfl, by simpa only [hg, Option.any_some, Bool.not_eq_true'] using hx⟩
  · obtain ⟨g, hg, hin⟩ := ht x hx
    have hg₂ : s₂.groups.get? x = some g := by rw [q₂.groups]; exact hg
    refine ⟨g, hg₂, fun hu => List.mem_filter.mpr ⟨?_, by simp [hg₂, hu]⟩⟩
    rw [q₂.running]
    exact hin hu

end

end CoreFlow
