import CoreFlow.Block.Reset
import CoreFlow.Instance.Bookkeeping
import CoreFlow.Instance.Migrated

/-!
# Emptying the prefix cache of an instance

`reset_prefix_cache` can be called between any two operations of an engine. The invariants of the block manager and of
the queues survive it, so in every run of operations and resets a reset returns, and its answer says whether an owner
of a table holds a block of a device that was asked for. A reset does not touch the counts that the scheduler has
recorded, but a request that waits has none, so after a reset of both devices neither the router nor the scheduler
finds anything.
-/

namespace CoreFlow
open Prog CpuGpuBlockAllocator

/-- `SelfAttnBlockSpaceManager.reset_prefix_cache`. -/
def ManagerM.resetPrefixCache (device : Option Device) : ManagerM Bool :=
  ManagerM.onBlocks (BlockM.resetPrefixCache device)

/-- `Scheduler.reset_prefix_cache`. -/
def SchedM.resetPrefixCache (device : Option Device) : SchedM Bool :=
  SchedM.onManager (ManagerM.resetPrefixCache device)

/-- `LLMEngine.reset_prefix_cache`, with one scheduler. -/
def EngineM.resetPrefixCache (device : Option Device) : EngineM Bool :=
  EngineM.onScheduler (SchedM.resetPrefixCache device)

/-- A call to the engine of an instance. -/
inductive InstanceCall where
  | op (op : EngineOp)
  | resetPrefixCache (device : Option Device)
deriving DecidableEq

namespace Engine
variable (p : SchedulerParams)

/-- The program of a call; `AsyncLLMEngine.reset_prefix_cache` drops the answer of the engine. -/
def answer : InstanceCall → EngineM Unit
  | .op op => perform p op
  | .resetPrefixCache device => do
    let _ ← EngineM.resetPrefixCache device
    pure ()

/-- The state after a run of calls, if none raised. -/
def serve (e : Engine) : List InstanceCall → Option Engine
  | [] => some e
  | call :: calls => (answer p call e).bind fun x => serve x.2 calls

variable {p} {e e' : Engine}

/-- What every call keeps holds after every run. -/
theorem serve_invariant (I : Engine → Prop) (step : ∀ call e e', I e → answer p call e = some ((), e') → I e')
    {calls : List InstanceCall} (h : serve p e calls = some e') (h0 : I e) : I e' := by
  induction calls generalizing e with
  | nil => exact Option.some.inj h ▸ h0
  | cons call calls ih =>
    obtain ⟨⟨_, e₁⟩, h₁, h₂⟩ := Option.bind_eq_some_iff.mp h
    exact ih h₂ (step call e e₁ h0 h₁)

end Engine

/-! ## A reset keeps the invariants -/

section
variable {p : BlockParams} {s s' : CpuGpuBlockAllocator} {tabs : List Owner} {lost : List Ref} {ds : List Device}

/-- No table loses a block. -/
theorem CpuGpuBlockAllocator.Resets.tables (h : Resets ds s s') (tables : Tables p s tabs lost)
    (hunused : ∀ d ∈ ds, (s.on d).Unused) : Tables p s' tabs lost := by
  have same (q : BlockRef) : s'.block? q = s.block? q := (h.quiet q).same (fun _ => rfl) q
  obtain ⟨lists, refs⟩ := Tables.frame tables.lists fun q _ => same q
  refine ⟨lists, tables.inUse.quiet (h.quiet ⟨.gpu, 0⟩), refs ▸ h.books tables.books hunused, fun hcollided => ?_⟩
  apply h.faithful
  apply tables.faithful
  unfold Collided
  rwa [← h.trace]

end

namespace EngineM
variable {p : SchedulerParams} {device : Option Device} {e e' : Engine} {answer : Bool}

/-- The engine with other block allocators. -/
def withAllocator (e : Engine) (s : CpuGpuBlockAllocator) : Engine :=
  { e with scheduler := { e.scheduler with blockManager := { e.scheduler.blockManager with blockAllocator := s } } }

theorem resetPrefixCache_iff : resetPrefixCache device e = some (answer, e') ↔
    ∃ s, BlockM.resetPrefixCache device e.scheduler.blockManager.blockAllocator = some (answer, s) ∧
      e' = withAllocator e s := by
  unfold resetPrefixCache SchedM.resetPrefixCache ManagerM.resetPrefixCache
  constructor
  · intro h
    obtain ⟨s, hs, rfl⟩ := onScheduler_iff.mp h
    obtain ⟨m, hm, rfl⟩ := SchedM.onManager_iff.mp hs
    obtain ⟨b, hb, rfl⟩ := ManagerM.onBlocks_iff.mp hm
    exact ⟨b, hb, rfl⟩
  · rintro ⟨s, hs, rfl⟩
    exact onScheduler_iff.mpr ⟨_, SchedM.onManager_iff.mpr ⟨_, ManagerM.onBlocks_iff.mpr ⟨s, hs, rfl⟩, rfl⟩, rfl⟩

/-- What holds in every run of calls and resets. -/
structure Sound (p : SchedulerParams) (e : Engine) : Prop where
  owned : Owned e
  books : Books False e
  accounted : ¬ e.scheduler.blockManager.blockAllocator.Reissued → ¬ e.scheduler.blockManager.blockAllocator.Collided →
    e.scheduler.blockManager.Accounted p.toBlockParams

theorem not_reissued {s s' : CpuGpuBlockAllocator} (grows : Grows s s') (h : ¬ s'.Reissued) : ¬ s.Reissued :=
  fun ⟨r, hr⟩ => h ⟨r, grows.events.subset hr⟩

/-- A reset returns where the accounts are in order. -/
theorem Sound.resets (sound : Sound p e) (hreissued : ¬ e.scheduler.blockManager.blockAllocator.Reissued)
    (hcollided : ¬ e.scheduler.blockManager.blockAllocator.Collided) (device : Option Device) :
    ∃ answer s', BlockM.resetPrefixCache device e.scheduler.blockManager.blockAllocator = some (answer, s') ∧
      (answer = true ↔ ∀ d ∈ BlockM.asked device, (e.scheduler.blockManager.blockAllocator.on d).Unused) ∧
      Resets ((BlockM.asked device).takeWhile fun d => (e.scheduler.blockManager.blockAllocator.on d).Unused)
        e.scheduler.blockManager.blockAllocator s' := by
  obtain ⟨tabs, lost, held⟩ := sound.accounted hreissued hcollided
  exact BlockM.resetPrefixCache_returns held.tables.books (held.tables.faithful hcollided) device

theorem Sound.perform {op : EngineOp} (sound : Sound p e) (h : Engine.perform p op e = some ((), e')) : Sound p e' := by
  have upkeep := perform_kept (upkeep_calls p.toManagerParams) op _ _ _ h
  refine ⟨perform_owned sound.owned h, perform_books sound.owned sound.books (fun hf => hf.elim) h,
    fun hreissued hcollided => upkeep.accounted ?_ fun _ => hreissued⟩
  exact sound.accounted (not_reissued upkeep.grows hreissued) (not_collided upkeep.grows.events hcollided)

theorem Sound.reset (sound : Sound p e) (h : resetPrefixCache device e = some (answer, e')) : Sound p e' := by
  obtain ⟨s, hs, rfl⟩ := onScheduler_iff.mp h
  have q := SchedM.onManager_same (ManagerM.onBlocks_owners _) _ _ _ hs
  refine ⟨⟨?_, sound.owned.tracked.same q.groups q.running⟩, sound.books.quiet (ManagerM.onBlocks_trackers _) hs,
    fun hreissued hcollided => ?_⟩
  · show Settled _ s.waiting s.running s
    rw [q.waiting, q.running]
    exact sound.owned.settled.quiet q
  · obtain ⟨s', hrun, he⟩ := resetPrefixCache_iff.mp h
    rw [he] at hreissued hcollided ⊢
    have grows := (BlockM.resetPrefixCache_advances device _ _ _ hrun).toGrows
    have hreissued₀ := not_reissued grows hreissued
    have hcollided₀ := not_collided grows.events hcollided
    obtain ⟨tabs, lost, held⟩ := sound.accounted hreissued₀ hcollided₀
    obtain ⟨answer', s₁, hrun', -, resets⟩ := sound.resets hreissued₀ hcollided₀ device
    obtain ⟨-, rfl⟩ := Prod.mk.inj (Option.some.inj (hrun.symm.trans hrun'))
    refine ⟨tabs, lost, held.entries, resets.tables held.tables fun d hd => ?_, held.lost⟩
    have hunused := List.mem_takeWhile_imp hd
    exact of_decide_eq_true hunused

theorem init_sound : Sound p (Engine.init p) :=
  ⟨init_owned p, init_books p False, fun _ _ => BlockSpaceManager.init_accounted (p := p.toManagerParams)⟩

end EngineM

theorem Engine.serve_sound {p : SchedulerParams} {calls : List InstanceCall} {e : Engine}
    (h : Engine.serve p (Engine.init p) calls = some e) : EngineM.Sound p e := by
  refine Engine.serve_invariant (EngineM.Sound p) (fun call e e' sound hcall => ?_) h EngineM.init_sound
  cases call with
  | op op => exact sound.perform hcall
  | resetPrefixCache device =>
    obtain ⟨answer, e₁, hreset, hpure⟩ := bind_iff.mp hcall
    rw [(pure_iff.mp hpure).2]
    exact sound.reset hreset

/-! ## What a reset says and does -/

/-- Nothing is found in the cache, neither by the router nor by the scheduler for a request without a table. -/
structure Forgotten (p : SchedulerParams) (e : Engine) : Prop where
  hits : ∀ requestHashes, (e.cacheState p).countHashHits requestHashes = 0
  used : ∀ g : SequenceGroup, g.seqId ∉ e.scheduler.blockManager.blockTables → SchedM.getInitialCachedTokens g ≤ 0 →
    (∀ key, g.cacheKey = some key → e.scheduler.blockManager.getGpuCachedEntry key = none) →
    ∃ s', SchedM.resolveCachedPrefixLen p g e.scheduler = some (0, s')
  waiting : ∀ id ∈ e.scheduler.waiting, ∀ g, e.scheduler.groups.get? id = some g →
    g.seqId ∉ e.scheduler.blockManager.blockTables

/-- The scheduler has recorded nothing about a sequence without a table. -/
theorem unseen_of_books {e : Engine} {id : SeqId} (books : EngineM.Books False e)
    (hid : id ∉ e.scheduler.blockManager.blockTables) : e.scheduler.blockManager.computedBlocksTracker.Unseen id := by
  have hhashes : id ∉ e.scheduler.blockManager.computedBlocksTracker.seqIdToBlocksHashes := by
    intro hin
    exact hid ((books.trackers.hashes id hin).resolve_right fun hx => by cases hx)
  refine ⟨Dict.get?_eq_none.mpr hhashes, fun d => Dict.get?_eq_none.mpr fun hin => ?_⟩
  exact hhashes (books.trackers.counts id d hin)

theorem takeWhile_none {α : Type} (l : List α) : l.takeWhile (fun _ => false) = [] := by
  cases l <;> rfl

theorem forgotten_of_empty {p : SchedulerParams} {e : Engine} (sound : EngineM.Sound p e)
    (hempty : ∀ d hash, (e.scheduler.blockManager.blockAllocator.on d).hashIsCached hash = false) : Forgotten p e := by
  refine ⟨fun requestHashes => ?_, fun g hid hinitial hentry => ?_, fun id hid g hg => ?_⟩
  · rw [countHashHits_cacheState]
    simp only [hempty, Bool.or_self, takeWhile_none, List.length_nil]
  · obtain ⟨s', hrun⟩ := resolveCachedPrefixLen_new (unseen_of_books sound.books hid) hinitial hentry
    have hzero (d : Device) : ManagerM.prefixTokens p.toManagerParams e.scheduler.blockManager g d = 0 := by
      have hordered (hashes : List PrefixHash) : Bisect.Ordered (fun _ => false) hashes :=
        List.pairwise_of_forall fun _ _ hf => by cases hf
      unfold ManagerM.prefixTokens PrefixCachingBlockAllocator.findCachedBlocksPrefix
      simp only [hempty, Bisect.bisectLeft_eq (hordered _), takeWhile_none, List.length_nil, List.take_zero, Nat.zero_mul]
    rw [hzero, hzero] at hrun
    exact ⟨s', hrun⟩
  · rw [sound.books.seqId id g hg]
    exact (sound.owned.settled.waiting id hid).1

/-- A device is unused when no owner holds a block of it. -/
theorem HoldsForOwners.unused_iff {s : Scheduler} (holds : HoldsForOwners s) (d : Device) :
    (s.blockManager.blockAllocator.on d).Unused ↔ ∀ seqId o, Owns s seqId o →
      ∀ id ∈ (s.blockManager.blockAllocator.on d).allBlockIndices, ¬ Carries s seqId id := by
  rw [PrefixCachingBlockAllocator.Unused, holds.free, PrefixCachingBlockAllocator.getNumTotalBlocks, List.countP_eq_length]
  simp only [decide_eq_true_eq]
  constructor
  · intro hzero seqId o howns id hid hcarries
    have hpos := (holds.owners id).mpr ⟨seqId, o, howns, hcarries⟩
    rw [hzero id hid] at hpos
    exact lt_irrefl 0 hpos
  · intro hnone id hid
    by_contra hne
    obtain ⟨seqId, o, howns, hcarries⟩ := (holds.owners id).mp (Nat.pos_of_ne_zero hne)
    exact hnone seqId o howns id hid hcarries

/-- The answer of a reset, and the engine after it. -/
structure ResetAnswer (p : SchedulerParams) (device : Option Device) (e e' : Engine) (answer : Bool) : Prop where
  unused : answer = true ↔ ∀ d ∈ BlockM.asked device, (e.scheduler.blockManager.blockAllocator.on d).Unused
  /-- As long as no swap has dropped a block from its table. -/
  owners : e.scheduler.blockManager.trace.dropped = [] → (answer = true ↔ ∀ d ∈ BlockM.asked device, ∀ seqId o,
    Owns e.scheduler seqId o → ∀ id ∈ (e.scheduler.blockManager.blockAllocator.on d).allBlockIndices,
      ¬ Carries e.scheduler seqId id)
  resets : Resets ((BlockM.asked device).takeWhile fun d => (e.scheduler.blockManager.blockAllocator.on d).Unused)
    e.scheduler.blockManager.blockAllocator e'.scheduler.blockManager.blockAllocator
  frame : e' = EngineM.withAllocator e e'.scheduler.blockManager.blockAllocator
  forgotten : answer = true → device = none → Forgotten p e'

/-- After any run of calls, resets among them, as long as no object has been handed out twice and no stale queue entry
has collided, a reset returns. -/
theorem run_resets (p : SchedulerParams) (calls : List InstanceCall) (e : Engine)
    (hserve : Engine.serve p (Engine.init p) calls = some e)
    (hreissued : ¬ e.scheduler.blockManager.blockAllocator.Reissued)
    (hcollided : ¬ e.scheduler.blockManager.blockAllocator.Collided) (device : Option Device) :
    ∃ answer e', EngineM.resetPrefixCache device e = some (answer, e') ∧ ResetAnswer p device e e' answer := by
  have sound := Engine.serve_sound hserve
  obtain ⟨answer, s', hrun, hanswer, resets⟩ := sound.resets hreissued hcollided device
  have hreset := EngineM.resetPrefixCache_iff.mpr ⟨s', hrun, rfl⟩
  refine ⟨answer, _, hreset, hanswer, fun hdropped => ?_, resets, rfl,
    fun htrue hnone => forgotten_of_empty (sound.reset hreset) fun d hash => ?_⟩
  · have holds := holdsForOwners (p := p.toManagerParams) (sound.accounted hreissued hcollided)
      sound.owned.settled.queueOwnership hdropped
    rw [hanswer]
    simp only [← holds.unused_iff]
  · -- both devices have been emptied
    have hunused := hanswer.mp htrue
    rw [hnone] at hunused resets
    apply PrefixCachingBlockAllocator.AsCreated.hashIsCached
    apply resets.emptied
    rw [List.takeWhile_eq_self_iff.mpr fun d hd => decide_eq_true (hunused d hd)]
    cases d <;> decide

/-- A reset comes while a request runs, and the request finishes: its first block stays in the cache. -/
def finishedCalls : List InstanceCall :=
  [.op (.addSeqGroup "a" [1, 2, 3] none 0 0),
   .op (.schedule [1, 1, 1, 1, 1]),
   .resetPrefixCache none,
   .op (.processModelOutputs [⟨4, some .finishedStopped, true⟩] [2, 2, 2])]

/-- One block is found before the second reset, and none after it. -/
theorem run_resets_finishedCalls : ∃ e e',
    Engine.serve smallParams (Engine.init smallParams) finishedCalls = some e ∧
    (e.cacheState smallParams).countHashHits (computeRequestBlockHashes smallSha [1, 2, 5] 2 noneHash) = 1 ∧
    EngineM.resetPrefixCache none e = some (true, e') ∧ Forgotten smallParams e' := by
  have returns : (Engine.serve smallParams (Engine.init smallParams) finishedCalls).map (fun e => decide (
      e.scheduler.blockManager.blockAllocator.trace.events.filter BlockEvent.isFault = [] ∧
      (∀ ev ∈ e.scheduler.blockManager.blockAllocator.trace.events, ¬ ev.collides = true) ∧
      (e.cacheState smallParams).countHashHits (computeRequestBlockHashes smallSha [1, 2, 5] 2 noneHash) = 1 ∧
      ∀ d ∈ BlockM.asked none, (e.scheduler.blockManager.blockAllocator.on d).Unused)) = some true := by
    decide +kernel
  obtain ⟨e, he, h⟩ := Option.map_eq_some_iff.mp returns
  obtain ⟨hfaults, hcollides, hhits, hunused⟩ := of_decide_eq_true h
  obtain ⟨answer, e', hreset, result⟩ := run_resets smallParams finishedCalls e he
    (BlockSpaceManager.no_faults hfaults).2 (fun ⟨ev, hev, hc⟩ => hcollides ev hev hc) none
  have htrue : answer = true := result.unused.mpr hunused
  rw [htrue] at hreset
  exact ⟨e, e', he, hhits, hreset, result.forgotten htrue rfl⟩

end CoreFlow
