import CoreFlow.Scheduler.Bookkeeping

/-!
# Finished groups and the synthetic counts

A finished group evicts the entry under its key, or leaves its own table there. The counts stay in step
when no evicted entry holds a sequence with a synthetic count: neither one that was retained before, nor
one that was retained earlier in the same call.
-/

namespace CoreFlow
open Prog SchedM

/-- A finished group with this request leaves its table under its key. -/
def SchedM.retains (g : SequenceGroup) : Bool :=
  shouldKeepCacheInGpu g && !shouldFreeCache g && !requestExceedsContextRange g

/-- The keys of the finished groups of a queue. -/
def FinishedKey (groups : Dict SeqId SequenceGroup) (queue : List SeqId) (key : Int × Int) : Prop :=
  ∃ id ∈ queue, ∃ g, groups.get? id = some g ∧ g.isFinished = true ∧ g.cacheKey = some key

/-- The finished group `y` does not evict a synthetic count that `x` has retained. -/
def Spares (groups : Dict SeqId SequenceGroup) (m : BlockSpaceManager) (x y : SeqId) : Prop :=
  ∀ gx gy key, groups.get? x = some gx → groups.get? y = some gy → gx.isFinished = true → gy.isFinished = true →
    gx.cacheKey = some key → gy.cacheKey = some key → retains gx = true → x ∉ m.syntheticCachedTokens

section
variable {p : SchedulerParams} {ok : Prop} {keys keys' : Int × Int → Prop} {extra : Option SeqId}
  {s s' : Scheduler} {id : SeqId} {g : SequenceGroup}

/-- The entries that may be evicted are known anew. -/
theorem Bookkeeping.claim (h : Bookkeeping ok keys extra s)
    (hk : ok → ∀ key, keys' key → ∀ x ∈ ManagerM.entrySeqIds s.blockManager key,
      x ∉ s.blockManager.syntheticCachedTokens) : Bookkeeping ok keys' extra s :=
  ⟨⟨h.trackers.access, h.trackers.counts, h.trackers.hashes, h.trackers.synthetic, hk⟩, h.seqId, h.running,
    h.finished, h.counted⟩

theorem Bookkeeping.fewerKeys (h : Bookkeeping ok keys extra s) (hk : ok → ∀ key, keys' key → keys key) :
    Bookkeeping ok keys' extra s :=
  h.claim fun hok key hkey => h.trackers.unclaimed hok key (hk hok key hkey)

theorem Bookkeeping.freeRequestCache {m : BlockSpaceManager} {u : Unit} (h : Bookkeeping ok keys extra s)
    (hkey : ok → ∀ key, g.cacheKey = some key → keys key)
    (hf : ManagerM.freeRequestCache p.toManagerParams g s.blockManager = some (u, m)) :
    Bookkeeping ok keys extra { s with blockManager := m } ∧ FewerCounts s.blockManager m := by
  unfold ManagerM.freeRequestCache at hf
  cases hk : g.cacheKey with
  | none =>
    rw [hk] at hf
    obtain ⟨-, rfl⟩ := pure_iff.mp hf
    exact ⟨h, refl _⟩
  | some key =>
    rw [hk] at hf
    exact ⟨h.evict (fun hok => hkey hok key hk) hf, ManagerM.evictCachedBlocks_fewer _ _ _ _ _ hf⟩

/-- A group is retained: its key holds its sequence, or it has no key. -/
theorem Bookkeeping.retain {m : BlockSpaceManager} {u : Unit} (h : Bookkeeping ok keys extra s)
    (hf : ∀ gx, s.groups.get? g.seqId = some gx → gx.isFinished = true)
    (hkey : ok → ∀ key, g.cacheKey = some key → keys key)
    (hk : ok → ∀ key, keys' key →
      keys key ∧ (g.cacheKey = some key → g.seqId ∉ s.blockManager.syntheticCachedTokens))
    (hr : ManagerM.retainBlocks p.toManagerParams g s.blockManager = some (u, m)) :
    Bookkeeping ok keys' extra { s with blockManager := m } := by
  have trackers := ManagerM.retainBlocks_trackers h.trackers hkey hk hr
  cases hc : g.cacheKey with
  | none =>
    rw [ManagerM.retainBlocks, hc] at hr
    obtain ⟨-, rfl⟩ := pure_iff.mp hr
    exact h.fewerKeys fun hok key hk' => (hk hok key hk').1
  | some key =>
    obtain ⟨tables, entries, -⟩ := ManagerM.retainBlocks_owners hc hr
    have live (x : SeqId) (gx : SequenceGroup) (hx : s.groups.get? x = some gx) (hu : gx.isFinished = false)
        (ht : x ∈ s.blockManager.blockTables) : x ∈ m.blockTables := by
      refine (tables x).mpr ⟨fun hin => ?_, ht⟩
      rw [h.finished key x hin gx hx] at hu
      cases hu
    refine ⟨trackers, h.seqId, fun x gx hx hs => ?_, fun k x hx gx hgx => ?_, fun x hx => ?_⟩
    · refine live x gx hx ?_ (h.running x gx hx hs)
      rw [SequenceGroup.isFinished, hs]
      rfl
    · unfold ManagerM.entrySeqIds at hx
      rw [entries, Dict.get?_set] at hx
      split at hx
      · split at hx
        · rw [List.mem_singleton.mp hx] at hgx
          exact hf gx hgx
        · cases hx
      · refine h.finished k x ?_ gx hgx
        rw [Dict.get?_erase] at hx
        split at hx
        · cases hx
        · exact hx
    · obtain ⟨gx, hgx, hf'⟩ := h.counted x (ManagerM.retainBlocks_fewer _ _ _ _ _ hr x hx)
      refine ⟨gx, hgx, ?_⟩
      cases hu : gx.isFinished with
      | true => exact .inl rfl
      | false => exact .inr (live x gx hgx hu (hf'.resolve_left (by rw [hu]; decide)))

/-- A finished group releases its cache: afterwards its key is either free of entries, or holds it. -/
theorem releaseCache_bookkeeping {keep : Bool} (h : Bookkeeping ok keys none s) (hg : s.groups.get? id = some g)
    (hf : g.isFinished = true) (hkey : ok → ∀ key, g.cacheKey = some key → keys key)
    (hk : ok → ∀ key, keys' key →
      keys key ∧ (retains g = true → g.cacheKey = some key → id ∉ s.blockManager.syntheticCachedTokens))
    (hr : releaseCache p g s = some (keep, s')) :
    Bookkeeping ok keys' none s' ∧ FewerCounts s.blockManager s'.blockManager := by
  have less : ok → ∀ key, keys' key → keys key := fun hok key hkey => (hk hok key hkey).1
  unfold releaseCache at hr
  split at hr
  · obtain ⟨_, s₁, h₁, hr⟩ := bind_iff.mp hr
    obtain ⟨-, rfl⟩ := pure_iff.mp hr
    obtain ⟨m, hm, rfl⟩ := onManager_iff.mp h₁
    obtain ⟨i, fewer⟩ := h.freeRequestCache hkey hm
    exact ⟨i.fewerKeys less, fewer⟩
  rename_i hfree
  split at hr
  · rename_i hkeep
    obtain ⟨_, s₁, h₁, hr⟩ := bind_iff.mp hr
    obtain ⟨-, rfl⟩ := pure_iff.mp hr
    obtain ⟨m, hm, rfl⟩ := onManager_iff.mp h₁
    have hretains : retains g = true := by
      rw [hkeep, Bool.true_and, Bool.or_eq_true, not_or] at hfree
      simp [retains, hkeep, hfree.1, hfree.2]
    have hseq := h.seqId id g hg
    refine ⟨h.retain (fun gx hx => ?_) hkey (fun hok key hk' => ?_) hm, ManagerM.retainBlocks_fewer _ _ _ _ _ hm⟩
    · rw [hseq] at hx
      obtain rfl := Option.some.inj (hg.symm.trans hx)
      exact hf
    · rw [hseq]
      exact ⟨less hok key hk', (hk hok key hk').2 hretains⟩
  · obtain ⟨now, s₁, h₁, hr⟩ := bind_iff.mp hr
    have q₁ := time_content _ _ _ h₁
    obtain ⟨o, s₂, h₂, hr⟩ := bind_iff.mp hr
    have i₂ := (h.content q₁).quiet (ManagerM.swapOutGroup_trackers _ _ _ _) h₂
    have fewer₂ : FewerCounts s.blockManager s₂.blockManager := by
      obtain ⟨m, hm, rfl⟩ := onManager_iff.mp h₂
      rw [← q₁.blockManager]
      exact (ManagerM.swapOutGroup_trackers _ _ _ _ _ _ _ hm).fewer
    cases o with
    | none =>
      obtain ⟨_, s₃, h₃, hr⟩ := bind_iff.mp hr
      obtain ⟨-, rfl⟩ := pure_iff.mp hr
      obtain ⟨m, hm, rfl⟩ := onManager_iff.mp h₃
      obtain ⟨i, fewer⟩ := i₂.freeRequestCache hkey hm
      exact ⟨i.fewerKeys less, IsTrans.trans _ _ _ fewer₂ fewer⟩
    | some pairs =>
      simp only [update_bind, pure_iff] at hr
      obtain ⟨-, rfl⟩ := hr
      exact ⟨(i₂.fewerKeys less).frame rfl rfl, fewer₂⟩

theorem freeFinishedSeqs_bookkeeping (id : SeqId) :
    Within (Preserves (Bookkeeping ok keys extra)) (freeFinishedSeqs p id) := by
  intro s u s' h i
  rw [freeFinishedSeqs, getGroup_bind, Option.bind_eq_some_iff] at h
  obtain ⟨g, hg, h⟩ := h
  unfold Prog.when at h
  split at h
  · rename_i hf
    refine i.free (fun gx hx hs => ?_) h
    obtain rfl := Option.some.inj (hg.symm.trans hx)
    rw [SequenceGroup.isFinished, hs] at hf
    cases hf
  · rw [(pure_iff.mp h).2]
    exact i

theorem freeFinishedSeqs_fewer {u : Unit} (h : freeFinishedSeqs p id s = some (u, s')) :
    FewerCounts s.blockManager s'.blockManager := by
  rw [freeFinishedSeqs, getGroup_bind, Option.bind_eq_some_iff] at h
  obtain ⟨g, -, h⟩ := h
  unfold Prog.when at h
  split at h
  · obtain ⟨m, hm, rfl⟩ := onManager_iff.mp h
    exact ManagerM.free_fewer _ _ _ _ _ hm
  · rw [(pure_iff.mp h).2]
    exact refl _

theorem freeFinishedSeqGroupBlocks_bookkeeping {u : Unit} (h : Bookkeeping ok keys none s)
    (hkey : ok → ∀ g key, s.groups.get? id = some g → g.isFinished = true → g.cacheKey = some key → keys key)
    (hk : ok → ∀ key, keys' key → keys key ∧ ∀ g, s.groups.get? id = some g → g.isFinished = true →
      retains g = true → g.cacheKey = some key → id ∉ s.blockManager.syntheticCachedTokens)
    (hs : freeFinishedSeqGroupBlocks p id s = some (u, s')) :
    Bookkeeping ok keys' none s' ∧ FewerCounts s.blockManager s'.blockManager := by
  rw [freeFinishedSeqGroupBlocks, getGroup_bind, Option.bind_eq_some_iff] at hs
  obtain ⟨g, hg, hs⟩ := hs
  obtain ⟨keep, s₁, h₁, h₂⟩ := bind_iff.mp hs
  have released : Bookkeeping ok keys' none s₁ ∧ FewerCounts s.blockManager s₁.blockManager := by
    split at h₁
    · rename_i hf
      exact releaseCache_bookkeeping h hg hf (fun hok key => hkey hok g key hg hf)
        (fun hok key hkey' => ⟨(hk hok key hkey').1, (hk hok key hkey').2 g hg hf⟩) h₁
    · rw [(pure_iff.mp h₁).2]
      exact ⟨h.fewerKeys fun hok key hkey' => (hk hok key hkey').1, refl _⟩
  obtain ⟨i₁, fewer₁⟩ := released
  split at h₂
  · rw [update_iff.mp h₂]
    exact ⟨i₁.frame rfl rfl, fewer₁⟩
  · obtain ⟨b, s₂, h₃, h₄⟩ := bind_iff.mp h₂
    obtain ⟨-, rfl⟩ := hasCacheEntry_iff.mp h₃
    unfold Prog.when at h₄
    split at h₄
    · exact ⟨freeFinishedSeqs_bookkeeping id _ _ _ h₄ i₁,
        IsTrans.trans _ _ _ fewer₁ (freeFinishedSeqs_fewer h₄)⟩
    · rw [(pure_iff.mp h₄).2]
      exact ⟨i₁, fewer₁⟩

/-- The finished groups are released, in the order of the running queue. -/
theorem freeFinishedSeqGroups_bookkeeping {u : Unit} (h : Bookkeeping ok (FinishedKey s.groups s.running) none s)
    (hspares : ok → s.running.Pairwise (Spares s.groups s.blockManager)) (hasync : s.asyncStopped = [])
    (hs : freeFinishedSeqGroups p s = some (u, s')) : Bookkeeping ok (fun _ => False) none s' := by
  simp only [freeFinishedSeqGroups, read_bind, require_bind, Option.ite_none_right_eq_some] at hs
  obtain ⟨-, -, hs⟩ := hs
  obtain ⟨_, s₁, h₁, hs⟩ := bind_iff.mp hs
  rw [update_bind] at hs
  obtain ⟨_, s₂, h₂, hs⟩ := bind_iff.mp hs
  rw [update_bind] at hs
  obtain ⟨_, s₃, h₃, hs⟩ := bind_iff.mp hs
  let I (todo : List SeqId) (t : Scheduler) : Prop := SameQueuedGroups s t ∧
    Bookkeeping ok (FinishedKey s.groups todo) none t ∧ (ok → todo.Pairwise (Spares s.groups t.blockManager))
  have fewer {t t' : Scheduler} {todo : List SeqId} (hf : FewerCounts t.blockManager t'.blockManager)
      (hp : todo.Pairwise (Spares s.groups t.blockManager)) : todo.Pairwise (Spares s.groups t'.blockManager) :=
    hp.imp fun hxy gx gy key hx hy fx fy kx ky hr hc => hxy gx gy key hx hy fx fy kx ky hr (hf _ hc)
  -- the tables whose copies have been handed out go
  have i₁ : I s.running s₁ := by
    refine forM_invariant (fun _ t => I s.running t) ?_ h₁ ⟨refl _, h, hspares⟩
    rintro id _ t t' ⟨q, i, hp⟩ ht
    exact ⟨IsTrans.trans _ _ _ q (freeFinishedSeqs_queued id _ _ _ ht), freeFinishedSeqs_bookkeeping id _ _ _ ht i,
      fun hok => fewer (freeFinishedSeqs_fewer ht) (hp hok)⟩
  have start : I s.running { s₁ with finishedSeqsPendingSwapOut := [] } :=
    ⟨IsTrans.trans _ _ _ i₁.1 ⟨rfl, rfl, rfl, rfl, rfl⟩, i₁.2.1.frame rfl rfl, i₁.2.2⟩
  have step (id : SeqId) (todo : List SeqId) (t t' : Scheduler) (hi : I (id :: todo) t)
      (ht : freeFinishedSeqGroupBlocks p id t = some ((), t')) : I todo t' := by
    obtain ⟨q, i, hp⟩ := hi
    have lookup : t.groups = s.groups := q.groups
    have own (_ : ok) (g : SequenceGroup) (key : Int × Int) (hg : t.groups.get? id = some g)
        (hfin : g.isFinished = true) (hkey : g.cacheKey = some key) : FinishedKey s.groups (id :: todo) key := by
      rw [lookup] at hg
      exact ⟨id, List.mem_cons_self .., g, hg, hfin, hkey⟩
    have later (hok : ok) (key : Int × Int) (hkey : FinishedKey s.groups todo key) :
        FinishedKey s.groups (id :: todo) key ∧ ∀ g, t.groups.get? id = some g → g.isFinished = true →
          retains g = true → g.cacheKey = some key → id ∉ t.blockManager.syntheticCachedTokens := by
      obtain ⟨y, hy, gy, hgy, hfy, hky⟩ := hkey
      refine ⟨⟨y, List.mem_cons_of_mem _ hy, gy, hgy, hfy, hky⟩, fun g hg hfin hret hkey => ?_⟩
      rw [lookup] at hg
      exact (List.pairwise_cons.mp (hp hok)).1 y hy g gy key hg hgy hfin hfy hkey hky hret
    obtain ⟨i', hf⟩ := freeFinishedSeqGroupBlocks_bookkeeping i own later ht
    exact ⟨IsTrans.trans _ _ _ q (freeFinishedSeqGroupBlocks_queued id _ _ _ ht), i',
      fun hok => fewer hf (List.pairwise_cons.mp (hp hok)).2⟩
  have i₂ : I [] s₂ := forM_invariant I step h₂ start
  -- nothing was stopped asynchronously
  rw [hasync] at h₃
  rw [update_iff.mp hs, forM_nil_iff.mp h₃]
  exact (i₂.2.1.fewerKeys fun _ _ hk => hk.elim).frame rfl rfl

end

end CoreFlow
