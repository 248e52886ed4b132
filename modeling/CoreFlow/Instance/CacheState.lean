import CoreFlow.Controller.HashChains
import CoreFlow.Instance.Engine
import CoreFlow.Scheduler.Frame

/-!
# The cache state of an instance, and the reuse of a new request

The router walks the hashes of a request through the reported hashes of both devices together; the
scheduler of the instance bisects each device on its own and takes the longer prefix. The two agree where
each device holds the request's blocks as a prefix, and a run in which the CPU loses the first block of a
chain before the second shows that they need not agree elsewhere.
-/

namespace CoreFlow
open Prog

namespace PrefixCachingBlockAllocator

/-- `get_computed_cached_block_hashes`. -/
def getComputedCachedBlockHashes (a : PrefixCachingBlockAllocator) : List PrefixHash :=
  (a.cachedBlocks.entries.filter fun entry => a.blockIsComputed entry.2).map (·.1)

theorem mem_getComputedCachedBlockHashes {a : PrefixCachingBlockAllocator} {h : PrefixHash} :
    h ∈ a.getComputedCachedBlockHashes ↔ a.hashIsCached h = true := by
  unfold getComputedCachedBlockHashes hashIsCached
  rw [List.mem_map]
  cases hget : a.cachedBlocks.get? h with
  | none =>
    refine ⟨?_, fun hf => by cases hf⟩
    rintro ⟨⟨h', blockId⟩, hmem, rfl⟩
    rw [Dict.get?_iff_mem_entries.mpr (List.mem_filter.mp hmem).1] at hget
    cases hget
  | some blockId =>
    constructor
    · rintro ⟨⟨h', blockId'⟩, hmem, rfl⟩
      obtain ⟨hentry, hcomputed⟩ := List.mem_filter.mp hmem
      rw [Dict.get?_iff_mem_entries.mpr hentry] at hget
      obtain rfl := Option.some.inj hget
      exact hcomputed
    · intro hcomputed
      exact ⟨(h, blockId), List.mem_filter.mpr ⟨Dict.get?_iff_mem_entries.mp hget, hcomputed⟩, rfl⟩

end PrefixCachingBlockAllocator

namespace Engine

/-- `/cache_state`. -/
def cacheState (p : SchedulerParams) (e : Engine) : CacheState where
  blockSize := some p.blockSize
  noneHash := some noneHash
  activeRequests := some (e.scheduler.waiting.length + e.scheduler.running.length + e.scheduler.swapped.length : Nat)
  gpuEntries := some e.scheduler.blockManager.gpuCachedEntries.keys
  hashBlocks := some
    { gpu := some (e.scheduler.blockManager.blockAllocator.on .gpu).getComputedCachedBlockHashes
      cpu := some (e.scheduler.blockManager.blockAllocator.on .cpu).getComputedCachedBlockHashes }

end Engine

/-- The number of leading blocks that are usable on one of the devices. -/
theorem countHashHits_cacheState (p : SchedulerParams) (e : Engine) (hashes : List PrefixHash) :
    (e.cacheState p).countHashHits hashes = (hashes.takeWhile fun h =>
      (e.scheduler.blockManager.blockAllocator.on .gpu).hashIsCached h ||
        (e.scheduler.blockManager.blockAllocator.on .cpu).hashIsCached h).length := by
  unfold CacheState.countHashHits
  congr 2
  funext h
  rw [Bool.eq_iff_iff, decide_eq_true_iff, Bool.or_eq_true]
  show h ∈ _ ++ _ ↔ _
  rw [List.mem_append]
  exact or_congr PrefixCachingBlockAllocator.mem_getComputedCachedBlockHashes
    PrefixCachingBlockAllocator.mem_getComputedCachedBlockHashes

/-! ## The hashes of a new request -/

section
variable {p : BlockParams} {tokenIds : List TokenId}

theorem requestHashesLoop_full {chunks : List (List TokenId)} (hsize : ∀ c ∈ chunks, c.length = p.blockSize)
    (prevBlockHash : PrefixHash) : requestHashesLoop p.sha p.blockSize noneHash (chunks ++ tailSlice p tokenIds) prevBlockHash =
      ManagerM.hashesAfter p prevBlockHash chunks := by
  induction chunks generalizing prevBlockHash with
  | nil => exact requestHashesLoop_tail _
  | cons c chunks ih =>
    have hc := hsize c List.mem_cons_self
    rw [List.cons_append, requestHashesLoop, ManagerM.hashesAfter, if_neg (by omega), hashBlockTokens_some, ← beq_eq_decide]
    dsimp only
    rw [ih fun c' hc' => hsize c' (List.mem_cons_of_mem _ hc')]

/-- The controller and the tracker of a new sequence compare with the same sentinel, whatever the hash is. -/
theorem computeRequestBlockHashes_hashesAfter : computeRequestBlockHashes p.sha tokenIds p.blockSize noneHash =
    ManagerM.hashesAfter p noneHash ((List.range' 0 (numFullBlocks p tokenIds)).map (slice p tokenIds)) := by
  rw [computeRequestBlockHashes, Int.toNat_natCast, chunkList_eq, ← List.range_eq_range']
  exact requestHashesLoop_full (fun c hc => length_of_mem_slices hc) _

theorem length_hashesAfter (prevBlockHash : PrefixHash) (chunks : List (List TokenId)) :
    (ManagerM.hashesAfter p prevBlockHash chunks).length = chunks.length := by
  induction chunks generalizing prevBlockHash with
  | nil => rfl
  | cons c chunks ih => rw [ManagerM.hashesAfter, List.length_cons, List.length_cons, ih]

end

namespace ManagerM
variable {p : ManagerParams} {m : BlockSpaceManager} {g : SequenceGroup} {d : Device}

/-- The hashes that the controller sends for the tokens of a sequence. -/
abbrev requestHashes (p : ManagerParams) (g : SequenceGroup) : List PrefixHash :=
  computeRequestBlockHashes p.sha g.getTokenIds p.blockSize noneHash

theorem length_requestHashes : (requestHashes p g).length = numFullBlocks p.toBlockParams g.getTokenIds := by
  rw [requestHashes, computeRequestBlockHashes_hashesAfter, length_hashesAfter, List.length_map, List.length_range']

/-- The first query of a sequence records its hashes, and a later one finds them. -/
theorem updateSeqHashes_first {recorded : List PrefixHash}
    (hrec : (m.computedBlocksTracker.seqIdToBlocksHashes.get? g.seqId).getD [] = recorded)
    (h : recorded = [] ∨ recorded = requestHashes p g) :
    updateSeqHashes p g m = some ((), recordHashes m g.seqId (requestHashes p g)) := by
  have hroom : recorded.length * p.blockSize ≤ g.getTokenIds.length := by
    rcases h with rfl | rfl
    · rw [List.length_nil, Nat.zero_mul]
      exact Nat.zero_le _
    · rw [length_requestHashes]
      exact Nat.div_mul_le_self ..
  have hall : recorded ++ hashesAfter p.toBlockParams (recorded.getLastD noneHash)
      ((List.range' recorded.length (numFullBlocks p.toBlockParams g.getTokenIds - recorded.length)).map
        (slice p.toBlockParams g.getTokenIds)) = requestHashes p g := by
    rcases h with rfl | rfl
    · exact (computeRequestBlockHashes_hashesAfter (p := p.toBlockParams)).symm
    · rw [length_requestHashes, Nat.sub_self]
      exact List.append_nil _
  rw [updateSeqHashes, read_bind, hrec]
  dsimp only
  rw [require_bind, if_pos hroom, ← hall]
  rfl

/-- The length of the prefix that is found on a device. -/
def prefixTokens (p : ManagerParams) (m : BlockSpaceManager) (g : SequenceGroup) (d : Device) : Nat :=
  ((m.blockAllocator.on d).findCachedBlocksPrefix (requestHashes p g)).length * p.blockSize

/-- What the tracker answers for a sequence it has not been asked about on the device. -/
theorem getNumCachedTokens_first
    (h : (m.computedBlocksTracker.seqIdToBlocksHashes.get? g.seqId).getD [] = [] ∨
      (m.computedBlocksTracker.seqIdToBlocksHashes.get? g.seqId).getD [] = requestHashes p g)
    (hcount : m.computedBlocksTracker.seqIdToNumTokensComputed.get? (g.seqId, d) = none) :
    ∃ m', getNumCachedTokens p g d m = some (prefixTokens p m g d, m') ∧
      m'.blockAllocator = m.blockAllocator ∧
      m'.computedBlocksTracker.seqIdToBlocksHashes.get? g.seqId = some (requestHashes p g) ∧
      ∀ d', d' ≠ d → m'.computedBlocksTracker.seqIdToNumTokensComputed.get? (g.seqId, d') =
        m.computedBlocksTracker.seqIdToNumTokensComputed.get? (g.seqId, d') := by
  have hrecorded : (recordHashes m g.seqId (requestHashes p g)).computedBlocksTracker.seqIdToBlocksHashes.get? g.seqId =
      some (requestHashes p g) := Dict.get?_set_self ..
  have hnone : (recordHashes m g.seqId (requestHashes p g)).computedBlocksTracker.seqIdToNumTokensComputed.get?
      (g.seqId, d) = none := hcount
  rw [getNumCachedTokens, bind_eq (updateSeqHashes_first rfl h), read_bind]
  dsimp only
  rw [hnone]
  dsimp only
  rw [hrecorded, ofOption_bind]
  refine ⟨_, rfl, rfl, hrecorded, fun d' hd => ?_⟩
  exact Dict.get?_set_ne _ _ fun he => hd (Prod.mk.inj he).2.symm

end ManagerM

/-! ## Hits and reuse -/

/-- The request's blocks that are usable on a device come before those that are not. -/
def HeldAsPrefix (a : PrefixCachingBlockAllocator) (requestHashes : List PrefixHash) : Prop :=
  Bisect.Ordered (fun h => a.hashIsCached h) requestHashes

instance (a : PrefixCachingBlockAllocator) (requestHashes : List PrefixHash) : Decidable (HeldAsPrefix a requestHashes) :=
  inferInstanceAs (Decidable (Bisect.Ordered _ _))

/-- The tracker has not been asked about a sequence. -/
structure ComputedBlocksTracker.Unseen (tracker : ComputedBlocksTracker) (seqId : SeqId) : Prop where
  hashes : tracker.seqIdToBlocksHashes.get? seqId = none
  counts : ∀ d, tracker.seqIdToNumTokensComputed.get? (seqId, d) = none

open SchedM in
/-- The prefix length that the scheduler uses for a new request is the longer of two bisections. -/
theorem resolveCachedPrefixLen_new {p : SchedulerParams} {s : Scheduler} {g : SequenceGroup}
    (hnew : s.blockManager.computedBlocksTracker.Unseen g.seqId) (hcached : getInitialCachedTokens g ≤ 0)
    (hentry : ∀ key, g.cacheKey = some key → s.blockManager.getGpuCachedEntry key = none) :
    ∃ s', resolveCachedPrefixLen p g s = some (max (ManagerM.prefixTokens p.toManagerParams s.blockManager g .gpu : Int)
      (ManagerM.prefixTokens p.toManagerParams s.blockManager g .cpu : Int), s') := by
  have hnone : getExactGpuCachedTokens g s = some (none, s) := by
    unfold getExactGpuCachedTokens
    rw [read_bind]
    cases hkey : g.cacheKey with
    | none => rfl
    | some key =>
      dsimp only
      rw [hentry key hkey]
      rfl
  obtain ⟨m₁, hgpu, halloc, hhashes, hcounts⟩ := ManagerM.getNumCachedTokens_first (p := p.toManagerParams) (d := .gpu)
    (.inl (by rw [hnew.hashes]; rfl)) (hnew.counts .gpu)
  obtain ⟨m₂, hcpu, -⟩ := ManagerM.getNumCachedTokens_first (p := p.toManagerParams) (g := g) (d := .cpu) (m := m₁)
    (.inr (by rw [hhashes]; rfl)) (by rw [hcounts .cpu (by decide)]; exact hnew.counts .cpu)
  have onGpu : getNumCachedTokens p g .gpu s = some (_, { s with blockManager := m₁ }) := onManager_iff.mpr ⟨m₁, hgpu, rfl⟩
  have onCpu : getNumCachedTokens p g .cpu { s with blockManager := m₁ } = some (_, { s with blockManager := m₂ }) :=
    onManager_iff.mpr ⟨m₂, hcpu, rfl⟩
  have sameBlocks : ManagerM.prefixTokens p.toManagerParams m₁ g .cpu =
      ManagerM.prefixTokens p.toManagerParams s.blockManager g .cpu := by
    rw [ManagerM.prefixTokens, halloc]
    rfl
  rw [resolveCachedPrefixLen, if_neg (by omega), bind_eq hnone]
  dsimp only
  rw [bind_eq onGpu, bind_eq onCpu, sameBlocks]
  exact ⟨_, rfl⟩

/-- The hits that the router counts are the reuse of the instance, where each device holds the request's blocks
as a prefix. -/
theorem hits_eq_reuse (p : SchedulerParams) (e : Engine) (g : SequenceGroup)
    (hnew : e.scheduler.blockManager.computedBlocksTracker.Unseen g.seqId)
    (hcached : SchedM.getInitialCachedTokens g ≤ 0)
    (hentry : ∀ key, g.cacheKey = some key → e.scheduler.blockManager.getGpuCachedEntry key = none)
    (held : ∀ d, HeldAsPrefix (e.scheduler.blockManager.blockAllocator.on d)
      (computeRequestBlockHashes p.sha g.getTokenIds p.blockSize noneHash)) :
    ∃ s', SchedM.resolveCachedPrefixLen p g e.scheduler = some ((((e.cacheState p).countHashHits
      (computeRequestBlockHashes p.sha g.getTokenIds p.blockSize noneHash) * p.blockSize : Nat) : Int), s') := by
  obtain ⟨s', hrun⟩ := resolveCachedPrefixLen_new hnew hcached hentry
  have found (d : Device) : ManagerM.prefixTokens p.toManagerParams e.scheduler.blockManager g d =
      ((computeRequestBlockHashes p.sha g.getTokenIds p.blockSize noneHash).takeWhile fun h =>
        (e.scheduler.blockManager.blockAllocator.on d).hashIsCached h).length * p.blockSize := by
    rw [ManagerM.prefixTokens, PrefixCachingBlockAllocator.findCachedBlocksPrefix, Bisect.bisectLeft_eq (held d),
      List.length_take, Nat.min_eq_left (List.takeWhile_sublist _).length_le]
  have longer (x y : Nat) : max ((x * p.blockSize : Nat) : Int) ((y * p.blockSize : Nat) : Int) =
      ((max x y * p.blockSize : Nat) : Int) := by
    rw [← Nat.mul_max_mul_right]
    omega
  refine ⟨s', hrun.trans ?_⟩
  rw [countHashHits_cacheState, Bisect.length_takeWhile_or (held .gpu) (held .cpu), found, found, longer]

/-- Two blocks are migrated to the CPU. -/
def migratedRun : List EngineOp := [.migrateCache [1, 2, 3, 4] 0 0 "m1" false 0 10]

theorem hits_eq_reuse_migratedRun : ∃ e s', Engine.run smallParams (Engine.init smallParams) migratedRun = some e ∧
    (e.cacheState smallParams).countHashHits (computeRequestBlockHashes smallSha [1, 2, 3, 4, 5] 2 noneHash) = 2 ∧
    SchedM.resolveCachedPrefixLen smallParams (.init "r" e.seqCounter [1, 2, 3, 4, 5] none 0 0) e.scheduler =
      some ((((e.cacheState smallParams).countHashHits
        (computeRequestBlockHashes smallSha [1, 2, 3, 4, 5] 2 noneHash) * 2 : Nat) : Int), s') := by
  have returns : (Engine.run smallParams (Engine.init smallParams) migratedRun).map (fun e => decide (
      e.seqCounter = 0 ∧
      (e.cacheState smallParams).countHashHits (computeRequestBlockHashes smallSha [1, 2, 3, 4, 5] 2 noneHash) = 2 ∧
      e.scheduler.blockManager.computedBlocksTracker = ⟨Dict.empty, Dict.empty⟩ ∧
      HeldAsPrefix (e.scheduler.blockManager.blockAllocator.on .gpu)
        (computeRequestBlockHashes smallSha [1, 2, 3, 4, 5] 2 noneHash) ∧
      HeldAsPrefix (e.scheduler.blockManager.blockAllocator.on .cpu)
        (computeRequestBlockHashes smallSha [1, 2, 3, 4, 5] 2 noneHash))) = some true := by
    decide +kernel
  obtain ⟨e, he, h⟩ := Option.map_eq_some_iff.mp returns
  obtain ⟨-, hhits, htracker, hgpu, hcpu⟩ := of_decide_eq_true h
  obtain ⟨s', hrun⟩ := hits_eq_reuse smallParams e (.init "r" e.seqCounter [1, 2, 3, 4, 5] none 0 0)
    (by rw [htracker]; exact ⟨rfl, fun _ => rfl⟩) (Int.le_refl 0) (fun _ hkey => by cases hkey)
    (fun d => by cases d <;> assumption)
  exact ⟨e, s', he, hhits, hrun⟩

/-- A request that shares only the first block swaps it in, and the CPU gives that block up before the second. -/
def retaggedRun : List EngineOp :=
  [.migrateCache [1, 2, 3, 4] 0 0 "m1" false 0 10,
   .addSeqGroup "a" [1, 2, 9] none 0 0,
   .schedule [20, 20, 20, 20],
   .processModelOutputs [⟨7, some .finishedStopped, true⟩] [21, 21, 21],
   .migrateCache [5, 5, 6, 6, 7, 7] 0 1 "m2" false 0 30,
   .addSeqGroup "b" [8, 8, 8, 8, 8, 8, 8] none 0 0,
   .schedule [40, 40, 40, 40]]

/-- The router counts no hit, and the scheduler registers two blocks as cached. -/
theorem retaggedRun_reuse : ∃ e s', Engine.run smallParams (Engine.init smallParams) retaggedRun = some e ∧
    (e.cacheState smallParams).countHashHits (computeRequestBlockHashes smallSha [1, 2, 3, 4, 5] 2 noneHash) = 0 ∧
    SchedM.resolveCachedPrefixLen smallParams (.init "r" e.seqCounter [1, 2, 3, 4, 5] none 0 0) e.scheduler =
      some (4, s') := by
  have returns : (Engine.run smallParams (Engine.init smallParams) retaggedRun).bind (fun e =>
      (SchedM.resolveCachedPrefixLen smallParams (.init "r" e.seqCounter [1, 2, 3, 4, 5] none 0 0) e.scheduler).map
        fun x => decide ((e.cacheState smallParams).countHashHits
          (computeRequestBlockHashes smallSha [1, 2, 3, 4, 5] 2 noneHash) = 0 ∧ x.1 = 4)) = some true := by
    decide +kernel
  obtain ⟨e, he, h⟩ := Option.bind_eq_some_iff.mp returns
  obtain ⟨⟨n, s'⟩, hrun, h⟩ := Option.map_eq_some_iff.mp h
  obtain ⟨hhits, rfl⟩ := of_decide_eq_true h
  exact ⟨e, s', he, hhits, hrun⟩

end CoreFlow
