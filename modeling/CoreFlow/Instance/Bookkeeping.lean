import CoreFlow.Scheduler.Retention
import CoreFlow.Instance.Ownership

/-!
# The per-sequence trackers over whole runs

In every run the last accesses, the counts and the hashes follow the block tables. The synthetic counts
do as long as no retained entry that holds one is evicted: `_free_cached_seq_blocks` forgets them.
-/

namespace CoreFlow
open Prog SchedM

/-! ## When no count is left behind -/

/-- The entry under the key of a group holds no sequence with a synthetic count. -/
def Scheduler.EvictsNoCount (s : Scheduler) (id : SeqId) : Prop :=
  ∀ g ∈ s.groups.get? id, ∀ key ∈ g.cacheKey, ∀ x ∈ ManagerM.entrySeqIds s.blockManager key,
    x ∉ s.blockManager.syntheticCachedTokens

instance (s : Scheduler) (id : SeqId) : Decidable (s.EvictsNoCount id) := by
  unfold Scheduler.EvictsNoCount
  infer_instance

namespace Engine

/-- The groups of the batch that finish with these samples. -/
def finishing (e : Engine) (samples : List SampleOutput) : List (SeqId × SampleOutput) :=
  (((e.batch.getD []).zip samples).filter fun x => x.1.doSample && x.2.finish.isSome).map
    fun x => (x.1.seqId, x.2)

/-- `x` does not retain a synthetic count that `y`, released after it, evicts. -/
def SparesLater (e : Engine) (samples : List SampleOutput) (x y : SeqId) : Prop :=
  ¬ ∃ fx ∈ e.finishing samples, ∃ fy ∈ e.finishing samples, fx.1 = x ∧ fy.1 = y ∧ fx.2.freed = false ∧
    ∃ gx ∈ e.scheduler.groups.get? x, ∃ gy ∈ e.scheduler.groups.get? y, ∃ key ∈ gx.cacheKey,
      gy.cacheKey = some key ∧ retains (gx.appendTokenId fx.2.token) = true ∧
        x ∈ e.scheduler.blockManager.syntheticCachedTokens

instance (e : Engine) (samples : List SampleOutput) : DecidableRel (e.SparesLater samples) := fun x y => by
  unfold SparesLater
  infer_instance

/-- The group that a migrated cache is registered under. -/
def migratedGroup (e : Engine) (tokenIds : List TokenId) (queryId invocationId : Int) (requestId : RequestId)
    (arrivalTime : Int) : SequenceGroup :=
  .init requestId e.seqCounter tokenIds (some ⟨some (some queryId), some invocationId, 0, true, false, none⟩) 0
    arrivalTime

/-- No entry that an operation may evict holds a sequence with a synthetic count. -/
def SparesCounts (p : SchedulerParams) (e : Engine) : EngineOp → Prop
  | .addSeqGroup .. => True
  | .abortSeqGroup _ => True
  | .schedule _ => ∀ id ∈ e.scheduler.waiting, e.scheduler.EvictsNoCount id
  | .processModelOutputs samples _ =>
    (∀ f ∈ e.finishing samples, e.scheduler.EvictsNoCount f.1) ∧
      e.scheduler.running.Pairwise (e.SparesLater samples)
  | .migrateCache tokenIds queryId invocationId requestId keepCacheInGpu arrivalTime _ =>
    tokenIds ≠ [] → keepCacheInGpu = true →
      e.scheduler.blockManager.canAllocate p.toManagerParams
        (e.migratedGroup tokenIds queryId invocationId requestId arrivalTime) 0 = some .ok →
      ∀ x ∈ ManagerM.entrySeqIds e.scheduler.blockManager (queryId, invocationId),
        x ∉ e.scheduler.blockManager.syntheticCachedTokens

instance (p : SchedulerParams) (e : Engine) : DecidablePred (e.SparesCounts p) := fun op => by
  cases op <;> (unfold SparesCounts; infer_instance)

/-- Every operation of a run spares the synthetic counts. -/
def RunSparesCounts (p : SchedulerParams) : Engine → List EngineOp → Prop
  | _, [] => True
  | e, op :: ops => e.SparesCounts p op ∧ ∀ x ∈ perform p op e, RunSparesCounts p x.2 ops

instance decidableRunSparesCounts (p : SchedulerParams) : ∀ e ops, Decidable (RunSparesCounts p e ops)
  | _, [] => isTrue trivial
  | e, op :: ops =>
    have (x : Unit × Engine) : Decidable (RunSparesCounts p x.2 ops) := decidableRunSparesCounts p x.2 ops
    inferInstanceAs (Decidable (e.SparesCounts p op ∧ ∀ x ∈ perform p op e, RunSparesCounts p x.2 ops))

end Engine

/-- The per-sequence trackers follow the block tables, and hashes belong to sequences that are known. -/
structure TrackersFollow (s : Scheduler) : Prop where
  access : ∀ id, id ∈ s.blockManager.seqLastAccess ↔ id ∈ s.blockManager.blockTables
  synthetic : ∀ id ∈ s.blockManager.syntheticCachedTokens, id ∈ s.blockManager.blockTables
  counts : ∀ id d, (id, d) ∈ s.blockManager.computedBlocksTracker.seqIdToNumTokensComputed →
    id ∈ s.blockManager.computedBlocksTracker.seqIdToBlocksHashes
  hashes : ∀ id ∈ s.blockManager.computedBlocksTracker.seqIdToBlocksHashes,
    id ∈ s.waiting ∨ ∃ o, Owns s id o

/-! ## Outputs -/

/-- What the outputs of a batch have done so far to the groups and the synthetic counts. -/
structure Sampled (ok : Prop) (finishing : List (SeqId × SampleOutput)) (s₀ s : Scheduler) : Prop where
  lists : SameLists s₀ s
  fewer : FewerCounts s₀.blockManager s.blockManager
  groups : ∀ id g, s.groups.get? id = some g → ∃ g₀, s₀.groups.get? id = some g₀ ∧
    g.extraArgs = g₀.extraArgs ∧ g₀.getLen ≤ g.getLen ∧
    (g.isFinished = true → g₀.isFinished = true ∨ g₀.getLen < g.getLen ∧ ∃ o, (id, o) ∈ finishing ∧
      (ok → o.freed = true → id ∉ s.blockManager.syntheticCachedTokens))

section
variable {p : SchedulerParams} {ok : Prop} {keys : Int × Int → Prop} {finishing : List (SeqId × SampleOutput)}
  {s₀ s s' : Scheduler} {id : SeqId} {g g' : SequenceGroup}

theorem Sampled.refl (s : Scheduler) : Sampled ok finishing s s :=
  ⟨Std.Refl.refl _, fun _ h => h, fun _ g hg => ⟨g, hg, rfl, le_rfl, .inl⟩⟩

/-- A group is replaced by a longer one, which may have finished. -/
theorem Sampled.set (h : Sampled ok finishing s₀ s) (hg : s.groups.get? id = some g)
    (groups : s'.groups = s.groups.set id g') (lists : SameLists s s')
    (fewer : FewerCounts s.blockManager s'.blockManager) (args : g'.extraArgs = g.extraArgs)
    (len : g.getLen ≤ g'.getLen)
    (fin : g'.isFinished = true → g.isFinished = true ∨ g.getLen < g'.getLen ∧ ∃ o, (id, o) ∈ finishing ∧
      (ok → o.freed = true → id ∉ s'.blockManager.syntheticCachedTokens)) : Sampled ok finishing s₀ s' := by
  have less {x : SeqId} {o : SampleOutput} (hx : ok → o.freed = true → x ∉ s.blockManager.syntheticCachedTokens)
      (hok : ok) (ho : o.freed = true) : x ∉ s'.blockManager.syntheticCachedTokens :=
    fun hin => hx hok ho (fewer x hin)
  refine ⟨IsTrans.trans _ _ _ h.lists lists, IsTrans.trans _ _ _ h.fewer fewer, fun x gx hx => ?_⟩
  rw [groups, Dict.get?_set] at hx
  split at hx
  · rename_i e
    subst e
    obtain rfl := Option.some.inj hx
    obtain ⟨g₀, hg₀, args₀, len₀, fin₀⟩ := h.groups _ g hg
    refine ⟨g₀, hg₀, args.trans args₀, len₀.trans len, fun hf => ?_⟩
    rcases fin hf with hf | ⟨hlt, o, ho, hnot⟩
    · rcases fin₀ hf with hf₀ | ⟨hlt, o, ho, hnot⟩
      · exact .inl hf₀
      · exact .inr ⟨hlt.trans_le len, o, ho, less hnot⟩
    · exact .inr ⟨len₀.trans_lt hlt, o, ho, hnot⟩
  · obtain ⟨g₀, hg₀, args₀, len₀, fin₀⟩ := h.groups x gx hx
    refine ⟨g₀, hg₀, args₀, len₀, fun hf => ?_⟩
    rcases fin₀ hf with hf₀ | ⟨hlt, o, ho, hnot⟩
    · exact .inl hf₀
    · exact .inr ⟨hlt, o, ho, less hnot⟩

theorem processGroup_bookkeeping {m : SequenceGroupMetadata} {o : SampleOutput} {b : Bool}
    (i : Bookkeeping ok keys none s) (q : Sampled ok finishing s₀ s)
    (hm : m.doSample = true → o.finish.isSome = true → (m.seqId, o) ∈ finishing)
    (h : EngineM.processGroup p m o s = some (b, s')) :
    Bookkeeping ok keys none s' ∧ Sampled ok finishing s₀ s' := by
  have hget := h
  rw [EngineM.processGroup, getGroup_bind, Option.bind_eq_some_iff] at hget
  obtain ⟨g, hg, hget⟩ := hget
  cases hu : g.isFinished with
  | true =>
    rw [if_pos hu] at hget
    rw [(pure_iff.mp hget).2]
    exact ⟨i, q⟩
  | false =>
    obtain ⟨g₁, tokens, status, g', t, hg₁, hg', ht, hcase⟩ := EngineM.processGroup_cases hg hu h
    rw [SequenceGroup.updateNumComputedTokens, Option.ite_none_right_eq_some, Option.some.injEq] at hg₁
    obtain ⟨-, rfl⟩ := hg₁
    have hstatus' : g'.status = status := by rw [hg']
    have args : g'.extraArgs = g.extraArgs := by rw [hg']
    have len : g'.getLen = g.getLen + tokens.length := by
      rw [hg']
      unfold SequenceGroup.getLen SequenceGroup.getTokenIds
      simp only [List.length_append]
      omega
    have groups : t.groups = s.groups.set m.seqId g' := by rw [ht]
    have manager : t.blockManager = s.blockManager := by rw [ht]
    have lists : SameLists s t := by
      rw [ht]
      exact ⟨rfl, rfl, rfl, rfl, rfl, rfl⟩
    -- only a group that keeps its status can run
    have hrun (hs : g'.status = .running) : g.status = .running := by
      rw [hstatus'] at hs
      rcases hcase with ⟨-, hsame, -, -⟩ | ⟨-, -, -, -, hstatus, -⟩
      · exact hsame.symm.trans hs
      · rw [hs] at hstatus
        cases hstatus
    have i₁ : Bookkeeping ok keys none t := by
      refine i.set (by rw [manager]; exact i.trackers) hg groups (by rw [hg']) (fun hf => ?_) (fun hs => ?_)
        (fun _ _ hx => by rw [manager]; exact hx) (by rw [manager]) (fun _ _ hx => by rw [← manager]; exact hx)
        (fun hx => ?_)
      · rw [hu] at hf
        cases hf
      · rw [manager]
        exact i.running _ g hg (hrun hs)
      · rw [manager] at hx ⊢
        obtain ⟨gx, hgx, hf⟩ := i.counted _ hx
        obtain rfl := Option.some.inj (hg.symm.trans hgx)
        exact .inr (hf.resolve_left (by rw [hu]; decide))
    have fewer : FewerCounts s.blockManager t.blockManager := by
      rw [manager]
      exact fun _ hx => hx
    rcases hcase with ⟨-, hsame, -, rfl⟩ | ⟨-, hsample, rfl, hfin, hstatus, h₁⟩
    · refine ⟨i₁, q.set hg groups lists fewer args (by omega) fun hf => .inl ?_⟩
      rw [SequenceGroup.isFinished, hstatus', hsame] at hf
      exact hf
    have hmem := hm hsample (by rw [hfin]; rfl)
    have longer : g.getLen < g'.getLen := by
      rw [List.length_singleton] at len
      omega
    unfold Prog.when at h₁
    split at h₁
    · have i₂ : Bookkeeping ok keys none s' := by
        refine i₁.free (fun gx hx hs => ?_) h₁
        rw [groups, Dict.get?_set_self, Option.some.injEq] at hx
        rw [← hx, hstatus'] at hs
        rw [hs] at hstatus
        cases hstatus
      obtain ⟨groups', tables, -, -⟩ := freeSeq_spec h₁
      have freed : FewerCounts t.blockManager s'.blockManager := by
        obtain ⟨m', hm', rfl⟩ := onManager_iff.mp h₁
        exact ManagerM.free_fewer _ _ _ _ _ hm'
      refine ⟨i₂, q.set hg (groups'.trans groups) (IsTrans.trans _ _ _ lists (freeSeq_lists p _ _ _ _ h₁))
        (IsTrans.trans _ _ _ fewer freed) args longer.le fun _ => .inr ⟨longer, o, hmem, fun hok _ hin => ?_⟩⟩
      exact ((tables _).mp (i₂.trackers.synthetic hok _ hin)).1 rfl
    · rename_i hfreed
      rw [(pure_iff.mp h₁).2]
      exact ⟨i₁, q.set hg groups lists fewer args longer.le
        fun _ => .inr ⟨longer, o, hmem, fun _ ho => (hfreed ho).elim⟩⟩

theorem processGroups_bookkeeping {l : List (SequenceGroupMetadata × SampleOutput)} {bs : List Bool}
    (h : Prog.mapM (fun x : SequenceGroupMetadata × SampleOutput => EngineM.processGroup p x.1 x.2) l s =
      some (bs, s')) (i : Bookkeeping ok keys none s)
    (hl : ∀ x ∈ l, x.1.doSample = true → x.2.finish.isSome = true → (x.1.seqId, x.2) ∈ finishing) :
    Bookkeeping ok keys none s' ∧ Sampled ok finishing s s' := by
  let I (l : List (SequenceGroupMetadata × SampleOutput)) (t : Scheduler) : Prop :=
    Bookkeeping ok keys none t ∧ Sampled ok finishing s t ∧
      ∀ x ∈ l, x.1.doSample = true → x.2.finish.isSome = true → (x.1.seqId, x.2) ∈ finishing
  have step (x : SequenceGroupMetadata × SampleOutput) (l : List (SequenceGroupMetadata × SampleOutput))
      (t : Scheduler) (b : Bool) (t' : Scheduler) (hi : I (x :: l) t)
      (ht : EngineM.processGroup p x.1 x.2 t = some (b, t')) : I l t' := by
    obtain ⟨i, q, hl⟩ := hi
    obtain ⟨i', q'⟩ := processGroup_bookkeeping i q (hl x (List.mem_cons_self ..)) ht
    exact ⟨i', q', fun y hy => hl y (List.mem_cons_of_mem _ hy)⟩
  obtain ⟨i', q', -⟩ := mapM_invariant I step h ⟨i, Sampled.refl s, hl⟩
  exact ⟨i', q'⟩

/-- A request that is retained with more tokens would be with fewer. -/
theorem retains_of_longer (args : g'.extraArgs = g.extraArgs) (len : g.getLen ≤ g'.getLen)
    (h : retains g' = true) : retains g = true := by
  unfold retains shouldKeepCacheInGpu shouldFreeCache requestExceedsContextRange at h ⊢
  rw [args] at h
  simp only [Bool.and_eq_true, Bool.not_eq_true'] at h ⊢
  refine ⟨h.1, ?_⟩
  have range := h.2
  split
  · rfl
  · rename_i lower upper heq
    simp only [heq, decide_eq_false_iff_not] at range ⊢
    omega

end

/-! ## The engine -/

namespace EngineM
variable {p : SchedulerParams} {ok : Prop} {e e' : Engine}

/-- What holds of the trackers between the operations of an engine. -/
def Books (ok : Prop) (e : Engine) : Prop := Bookkeeping ok (fun _ => False) none e.scheduler

theorem addSeqGroup_books {requestId : RequestId} {promptTokenIds : List TokenId}
    {extraArgs : Option ExtraArgs} {priority arrivalTime : Int} {u : Unit} (o : Owned e) (h : Books ok e)
    (ha : addSeqGroup requestId promptTokenIds extraArgs priority arrivalTime e = some (u, e')) :
    Books ok e' := by
  simp only [addSeqGroup, nextSeqId, Prog.bind_assoc, read_bind, update_bind, Prog.pure_bind] at ha
  obtain ⟨s, hs, rfl⟩ := onScheduler_iff.mp ha
  rw [setGroup_bind, update_iff] at hs
  subst hs
  have lookup {x : SeqId} {gx : SequenceGroup} (hx : (e.scheduler.groups.set e.seqCounter
      (.init requestId e.seqCounter promptTokenIds extraArgs priority arrivalTime)).get? x = some gx) :
      x = e.seqCounter ∧ gx = .init requestId e.seqCounter promptTokenIds extraArgs priority arrivalTime ∨
        e.scheduler.groups.get? x = some gx := by
    rw [Dict.get?_set] at hx
    split at hx
    · rename_i he
      exact .inl ⟨he.symm, (Option.some.inj hx).symm⟩
    · exact .inr hx
  refine ⟨h.trackers, fun x gx hx => ?_, fun x gx hx hs => ?_, fun key x hx gx hgx => ?_, fun x hx => ?_⟩
  · rcases lookup hx with ⟨rfl, rfl⟩ | hx
    · rfl
    · exact h.seqId x gx hx
  · rcases lookup hx with ⟨rfl, rfl⟩ | hx
    · cases hs
    · exact h.running x gx hx hs
  · rcases lookup hgx with ⟨rfl, rfl⟩ | hgx
    · exact (o.settled.fresh _ (.inr (mem_retained_of_entry hx))).false.elim
    · exact h.finished key x hx gx hgx
  · obtain ⟨gx, hgx, hf⟩ := h.counted x hx
    refine ⟨gx, ?_, hf⟩
    show (e.scheduler.groups.set e.seqCounter _).get? x = some gx
    rw [Dict.get?_set_ne, hgx]
    exact (Nat.ne_of_lt (o.settled.fresh _ (.inl (Dict.mem_of_get? hgx)))).symm

theorem schedule_books {clock : List Int} {u : Unit} (h : Books ok e)
    (spares : ok → ∀ id ∈ e.scheduler.waiting, e.scheduler.EvictsNoCount id)
    (hs : EngineM.schedule p clock e = some (u, e')) : Books ok e' := by
  simp only [EngineM.schedule, setClock, read_bind, require_bind, Option.ite_none_right_eq_some] at hs
  obtain ⟨-, hs⟩ := hs
  obtain ⟨_, e₁, h₁, hs⟩ := bind_iff.mp hs
  obtain ⟨s₁, hs₁, rfl⟩ := onScheduler_iff.mp h₁
  rw [update_iff] at hs₁
  obtain ⟨⟨metadata, outputs⟩, e₂, h₂, hs⟩ := bind_iff.mp hs
  obtain ⟨s₂, hs₂, rfl⟩ := onScheduler_iff.mp h₂
  rw [update_iff.mp hs]
  let keys (key : Int × Int) : Prop :=
    ∃ id ∈ e.scheduler.waiting, ∃ g, e.scheduler.groups.get? id = some g ∧ g.cacheKey = some key
  have i : Bookkeeping ok keys none e.scheduler := by
    refine h.claim fun hok key hkey => ?_
    obtain ⟨id, hid, g, hg, hkey⟩ := hkey
    exact spares hok id hid g hg key hkey
  have i₁ : Bookkeeping ok keys none s₁ := by
    rw [hs₁]
    exact i.frame rfl rfl
  have claims : Claims keys s₁.waiting s₁ := by
    rw [hs₁]
    exact fun id hid g key hg hkey => ⟨id, hid, g, hg, hkey⟩
  exact (schedule_bookkeeping i₁ claims hs₂).fewerKeys fun _ _ hk => hk.elim

theorem processModelOutputs_books {samples : List SampleOutput} {clock : List Int} {u : Unit} (o : Owned e)
    (h : Books ok e) (spares : ok → (∀ f ∈ e.finishing samples, e.scheduler.EvictsNoCount f.1) ∧
      e.scheduler.running.Pairwise (e.SparesLater samples))
    (hp : processModelOutputs p samples clock e = some (u, e')) : Books ok e' := by
  simp only [processModelOutputs, setClock, read_bind, ofOption_bind, require_bind,
    Option.bind_eq_some_iff, Option.ite_none_right_eq_some] at hp
  obtain ⟨metadata, hbatch, -, hp⟩ := hp
  obtain ⟨_, e₁, h₁, hp⟩ := bind_iff.mp hp
  obtain ⟨s₁, hs₁, rfl⟩ := onScheduler_iff.mp h₁
  rw [update_iff] at hs₁
  obtain ⟨finishedNow, e₂, h₂, hp⟩ := bind_iff.mp hp
  obtain ⟨s₂, hs₂, rfl⟩ := onScheduler_iff.mp h₂
  obtain ⟨_, e₃, h₃, hp⟩ := bind_iff.mp hp
  rw [update_iff.mp hp]
  let keys (key : Int × Int) : Prop :=
    ∃ f ∈ e.finishing samples, ∃ g, e.scheduler.groups.get? f.1 = some g ∧ g.cacheKey = some key
  have i : Bookkeeping ok keys none e.scheduler := by
    refine h.claim fun hok key hkey => ?_
    obtain ⟨f, hf, g, hg, hkey⟩ := hkey
    exact (spares hok).1 f hf g hg key hkey
  have i₁ : Bookkeeping ok keys none s₁ := by
    rw [hs₁]
    exact i.frame rfl rfl
  have hl : ∀ x ∈ metadata.zip samples, x.1.doSample = true → x.2.finish.isSome = true →
      (x.1.seqId, x.2) ∈ e.finishing samples := by
    intro x hx hsample hfin
    unfold Engine.finishing
    rw [hbatch]
    exact List.mem_map_of_mem (List.mem_filter.mpr ⟨hx, by simp [hsample, hfin]⟩)
  obtain ⟨i₂, q⟩ := processGroups_bookkeeping hs₂ i₁ hl
  have running : s₂.running = e.scheduler.running := by
    rw [q.lists.running, hs₁]
  -- a running group that is finished now has finished with one of the samples
  have sampled {id : SeqId} {g : SequenceGroup} (hid : id ∈ s₂.running) (hg : s₂.groups.get? id = some g)
      (hf : g.isFinished = true) : ∃ g₀, e.scheduler.groups.get? id = some g₀ ∧ g.extraArgs = g₀.extraArgs ∧
        g₀.getLen < g.getLen ∧ ∃ o, (id, o) ∈ e.finishing samples ∧
          (ok → o.freed = true → id ∉ s₂.blockManager.syntheticCachedTokens) := by
    rw [running] at hid
    obtain ⟨g₀, hg₀, args, -, fin⟩ := q.groups id g hg
    rw [hs₁] at hg₀
    obtain ⟨g₁, hg₁, hu⟩ := o.settled.unfinished id hid
    obtain rfl := Option.some.inj (hg₀.symm.trans hg₁)
    rcases fin hf with hf₀ | ⟨len, hfin⟩
    · rw [hf₀] at hu
      cases hu
    · exact ⟨g₀, hg₀, args, len, hfin⟩
  unfold Prog.when at h₃
  split at h₃
  · obtain ⟨s₃, hs₃, rfl⟩ := onScheduler_iff.mp h₃
    refine freeFinishedSeqGroups_bookkeeping (i₂.fewerKeys fun _ key hkey => ?_) (fun hok => ?_) ?_ hs₃
    · obtain ⟨id, hid, g, hg, hf, hkey⟩ := hkey
      obtain ⟨g₀, hg₀, args, -, so, hso, -⟩ := sampled hid hg hf
      rw [SequenceGroup.cacheKey_congr args] at hkey
      exact ⟨(id, so), hso, g₀, hg₀, hkey⟩
    · have later := (spares hok).2
      rw [← running] at later
      refine later.imp_of_mem fun {x y} hx hy hsp gx gy key hgx hgy hfx hfy hkx hky hret hin => ?_
      obtain ⟨gx₀, hgx₀, argsx, lenx, ox, hox, hfreed⟩ := sampled hx hgx hfx
      obtain ⟨gy₀, hgy₀, argsy, -, oy, hoy, -⟩ := sampled hy hgy hfy
      rw [SequenceGroup.cacheKey_congr argsx] at hkx
      rw [SequenceGroup.cacheKey_congr argsy] at hky
      cases hfree : ox.freed with
      | true => exact hfreed hok hfree hin
      | false =>
        have len : (gx₀.appendTokenId ox.token).getLen ≤ gx.getLen := by
          have : (gx₀.appendTokenId ox.token).getLen = gx₀.getLen + 1 := by
            unfold SequenceGroup.appendTokenId SequenceGroup.getLen SequenceGroup.getTokenIds
            simp only [List.length_append, List.length_singleton]
            omega
          omega
        have hret₀ := retains_of_longer (g := gx₀.appendTokenId ox.token) argsx len hret
        have before := q.fewer x hin
        rw [hs₁] at before
        exact hsp ⟨_, hox, _, hoy, rfl, rfl, hfree, gx₀, hgx₀, gy₀, hgy₀, key, hkx, hky, hret₀, before⟩
    · rw [q.lists.asyncStopped, hs₁]
      exact o.settled.asyncStopped
  · obtain ⟨-, rfl⟩ := pure_iff.mp h₃
    exact i₂.fewerKeys fun _ _ hk => hk.elim

theorem registerMigratedGpuCache_books {tokenIds : List TokenId} {queryId invocationId : Int}
    {requestId : RequestId} {arrivalTime : Int} {b : Bool} (o : Owned e) (h : Books ok e)
    (spares : ok → e.scheduler.blockManager.canAllocate p.toManagerParams
      (e.migratedGroup tokenIds queryId invocationId requestId arrivalTime) 0 = some .ok →
      ∀ x ∈ ManagerM.entrySeqIds e.scheduler.blockManager (queryId, invocationId),
        x ∉ e.scheduler.blockManager.syntheticCachedTokens)
    (hm : registerMigratedGpuCache p tokenIds queryId invocationId requestId arrivalTime e = some (b, e')) :
    Books ok e' := by
  obtain ⟨g, hg, ⟨-, rfl⟩ | ⟨-, hcan, pairs, m₀, m₁, m₂, h₁, hunused, h₂, rfl⟩⟩ := registerMigratedGpuCache_cases hm
  · exact h
  have hseq : g.seqId = e.seqCounter := by
    rw [hg]
    rfl
  have hkey : SequenceGroup.cacheKey { g with status := .finishedStopped } = some (queryId, invocationId) := by
    rw [hg]
    rfl
  have i : Bookkeeping ok (· = (queryId, invocationId)) none e.scheduler := by
    refine h.claim fun hok key hk => ?_
    rw [hk]
    refine spares hok ?_
    rw [hg] at hcan
    exact hcan
  obtain ⟨-, -, tables, entries, -⟩ := ManagerM.allocate_owners h₁
  obtain ⟨trackers, synthetic⟩ := ManagerM.allocate_trackers i.trackers (.inl rfl) h₁
  have i₁ : Bookkeeping ok (· = (queryId, invocationId)) none { e.scheduler with blockManager := m₀ } := by
    refine i.shrink trackers rfl (fun x _ _ _ hx => (tables x).mpr (.inr hx)) ?_
      (fun x hx => ⟨by rw [← synthetic]; exact hx, fun _ _ _ ht => (tables x).mpr (.inr ht)⟩)
    unfold ManagerM.entrySeqIds
    rw [entries]
    exact fun _ _ hx => hx
  have unused : onManager (ManagerM.leaveUnused pairs) { e.scheduler with blockManager := m₀ } =
      some ((), { e.scheduler with blockManager := m₁ }) := onManager_iff.mpr ⟨m₁, hunused, rfl⟩
  have i₂ := i₁.quiet (ManagerM.leaveUnused_trackers pairs) unused
  refine i₂.retain (fun gx hx => ?_) (fun _ key hk => ?_) (fun _ _ hk => hk.elim) h₂
  · rw [show SequenceGroup.seqId { g with status := .finishedStopped } = e.seqCounter from hseq] at hx
    exact (o.settled.fresh _ (.inl (Dict.mem_of_get? hx))).false.elim
  · rw [hkey] at hk
    exact (Option.some.inj hk).symm

theorem migrateCache_books {tokenIds : List TokenId} {queryId invocationId : Int} {requestId : RequestId}
    {keep : Bool} {arrivalTime now : Int} {u : Unit} (o : Owned e) (h : Books ok e)
    (spares : ok → e.SparesCounts p (.migrateCache tokenIds queryId invocationId requestId keep arrivalTime now))
    (hm : migrateCache p tokenIds queryId invocationId requestId keep arrivalTime now e = some (u, e')) :
    Books ok e' := by
  unfold migrateCache at hm
  split at hm
  · rw [(pure_iff.mp hm).2]
    exact h
  rename_i htokens
  obtain ⟨registered, e₁, h₁, hm⟩ := bind_iff.mp hm
  have i₁ : Books ok e₁ := by
    split at h₁
    · rename_i hkeep
      exact registerMigratedGpuCache_books o h (fun hok => spares hok htokens hkeep) h₁
    · rw [(pure_iff.mp h₁).2]
      exact h
  unfold Prog.when at hm
  split at hm
  · obtain ⟨_, e₂, h₂, hm⟩ := bind_iff.mp hm
    rw [(pure_iff.mp hm).2]
    obtain ⟨s, hs, rfl⟩ := onScheduler_iff.mp h₂
    exact i₁.quiet (ManagerM.registerMigratedCpuCache_trackers _ _ _) hs
  · rw [(pure_iff.mp hm).2]
    exact i₁

theorem perform_books {op : EngineOp} {u : Unit} (o : Owned e) (h : Books ok e) (spares : ok → e.SparesCounts p op)
    (hop : Engine.perform p op e = some (u, e')) : Books ok e' := by
  cases op with
  | addSeqGroup => exact addSeqGroup_books o h hop
  | abortSeqGroup ids =>
    obtain ⟨s, hs, rfl⟩ := onScheduler_iff.mp hop
    exact abortSeqGroup_bookkeeping ids _ _ _ hs h
  | schedule => exact schedule_books h spares hop
  | processModelOutputs => exact processModelOutputs_books o h spares hop
  | migrateCache => exact migrateCache_books o h spares hop

theorem init_books (p : SchedulerParams) (ok : Prop) : Books ok (Engine.init p) := by
  refine ⟨BlockSpaceManager.init_trackers _ _ _, fun id g hg => ?_, fun id g hg => ?_, fun key id hid => ?_,
    fun id hid => ?_⟩
  · cases hg
  · cases hg
  · cases hid
  · exact (Dict.not_mem_empty id hid).elim

end EngineM

/-! ## Runs -/

/-- The trackers follow the tables in every run; the synthetic counts do while they are spared. -/
theorem Engine.run_books {p : SchedulerParams} {ok : Prop} {e e' : Engine} {ops : List EngineOp}
    (h : Engine.run p e ops = some e') (o : EngineM.Owned e) (i : EngineM.Books ok e)
    (spares : ok → Engine.RunSparesCounts p e ops) : EngineM.Owned e' ∧ EngineM.Books ok e' := by
  induction ops generalizing e with
  | nil =>
    rw [Engine.run_nil_iff.mp h]
    exact ⟨o, i⟩
  | cons op ops ih =>
    obtain ⟨e₁, h₁, h₂⟩ := Engine.run_cons_iff.mp h
    refine ih h₂ (EngineM.perform_owned o h₁) (EngineM.perform_books o i (fun hok => (spares hok).1) h₁) fun hok => ?_
    exact (spares hok).2 _ h₁

/-- Only the synthetic counts need that an entry is spared. -/
theorem Engine.run_trackers {p : SchedulerParams} {e : Engine} {ops : List EngineOp}
    (h : Engine.run p (Engine.init p) ops = some e) : Trackers (Engine.RunSparesCounts p (Engine.init p) ops)
      (fun _ => False) none e.scheduler.blockManager :=
  (Engine.run_books h (EngineM.init_owned p) (EngineM.init_books p _) id).2.trackers

/-- With lookahead slots the multi-step output processor runs, which frees no sequence. -/
def lookaheadParams : SchedulerParams := { smallParams with numLookaheadSlots := 1 }

/-- A retained entry holds a synthetic count, and a request with this key arrives. -/
def repeatedKeyRun (queryId : Int) : List EngineOp :=
  [.addSeqGroup "a" [1, 2, 3] (some ⟨some (some 0), some 0, 2, true, false, none⟩) 0 0,
   .schedule [1, 1, 1, 1, 1],
   .processModelOutputs [⟨4, some .finishedStopped, false⟩] [2, 2],
   .addSeqGroup "b" [1, 2, 3] (some ⟨some (some queryId), some 0, 0, true, false, none⟩) 0 0,
   .schedule [3, 3, 3, 3]]

end CoreFlow
