import CoreFlow.Manager.Runs

/-!
# Pools, counts and evictors over runs

The three invariants of the block manager, over its runs. The pools of block objects are intact until an
object goes back to the pool of the other device. References are conserved until an object is handed out
twice or a swap drops a block from its table. The evictors hold the cached blocks without references, and
their queues find one, until stale queue entries collide.
-/

namespace CoreFlow
open Prog CpuGpuBlockAllocator

namespace BlockSpaceManager
variable {p : ManagerParams} {m : BlockSpaceManager} {ops : List ManagerOp} {u : Unit}

/-- The objects of the live tables, in the order of the tables. -/
def tableBlocks (m : BlockSpaceManager) : List BlockRef := m.blockTables.entries.flatMap (·.2.blocks)

/-! ## Pools -/

/-- `q` is the previous block of `r`. -/
def PrevBlock (m : BlockSpaceManager) (r q : BlockRef) : Prop :=
  ∃ b, m.blockAllocator.block? r = some b ∧ b.prevBlock = some q

/-- The free ids of a pool are different ids of the pool and none of an object in a table; the objects in the
tables are different, and none comes before itself. -/
structure PoolsIntact (m : BlockSpaceManager) : Prop where
  nodup : ∀ d, (m.blockAllocator.pool d).freeIds.Nodup
  inPool : ∀ d, ∀ i ∈ (m.blockAllocator.pool d).freeIds, i < (m.blockAllocator.pool d).poolSize
  disjoint : ∀ r ∈ m.tableBlocks, r.poolId ∉ (m.blockAllocator.pool r.device).freeIds
  distinct : m.tableBlocks.Nodup
  acyclic : ∀ r ∈ m.tableBlocks, ¬ Relation.TransGen m.PrevBlock r r

theorem Held.tableBlocks_perm {tabs : List Owner} {lost : List Ref} (h : Held p.toBlockParams m tabs lost) :
    (tabs.flatMap (·.2.1.blocks)).Perm m.tableBlocks := by
  have := h.entries.flatMap_right (·.2.blocks)
  rwa [List.flatMap_map] at this

theorem objects_sublist {tabs : List Owner} (h : ∀ x ∈ tabs, x.2.1.blocks.Sublist x.2.2) :
    (tabs.flatMap (·.2.1.blocks)).Sublist (objects tabs) := by
  unfold objects
  induction tabs with
  | nil => exact List.Sublist.refl _
  | cons x tabs ih =>
    rw [List.flatMap_cons, List.flatMap_cons]
    exact (h x List.mem_cons_self).append (ih fun y hy => h y (List.mem_cons_of_mem _ hy))

/-- Along the previous blocks the position among the objects of the table decreases. -/
theorem chained_acyclic {full : List BlockRef} (h : m.blockAllocator.Chained p.toBlockParams full) {r q : BlockRef}
    (hr : r ∈ full) (hq : Relation.TransGen m.PrevBlock r q) : q ∈ full ∧ full.idxOf q < full.idxOf r := by
  have step (r q : BlockRef) (hr : r ∈ full) (hq : m.PrevBlock r q) : q ∈ full ∧ full.idxOf q < full.idxOf r := by
    obtain ⟨b, hb, hprev⟩ := hq
    obtain ⟨b', hb', -, hlt⟩ := h r hr
    obtain rfl := Option.some.inj (hb.symm.trans hb')
    exact ⟨h.prev_mem hr hb hprev, hlt q hprev⟩
  induction hq with
  | single hq => exact step _ _ hr hq
  | tail _ hq ih =>
    obtain ⟨hin, hlt⟩ := step _ _ ih.1 hq
    exact ⟨hin, hlt.trans ih.2⟩

/-- As long as no object has gone back to the pool of the other device. -/
theorem run_poolsIntact (hrun : run p ops (init p) = some (u, m)) (hstray : ¬ m.blockAllocator.Stray) : PoolsIntact m := by
  obtain ⟨tabs, lost, held⟩ := run_accounted hrun fun hs => absurd hs hstray
  have use := held.tables.inUse
  have sound := (use.pools hstray).1
  have hsub := objects_sublist fun x hx => (held.tables.lists x hx).listed
  refine ⟨sound.nodup, sound.inPool, fun r hr => ?_, ?_, fun r hr hcycle => ?_⟩
  · exact (sound.taken r (use.held r (hsub.subset (held.tableBlocks_perm.mem_iff.mpr hr)))).2
  · exact held.tableBlocks_perm.nodup_iff.mp (use.nodup.sublist hsub)
  · obtain ⟨x, hx, hin⟩ := List.mem_flatMap.mp (held.tableBlocks_perm.mem_iff.mpr hr)
    have lists := held.tables.lists x hx
    exact absurd (chained_acyclic lists.chained (lists.listed.subset hin) hcycle).2 (lt_irrefl _)

/-- A hash for short examples. -/
def shortSha (_ : Bool) (prevBlockHash : Option PrefixHash) (tokenIds : List TokenId) : PrefixHash :=
  tokenIds.foldl (· + ·) (prevBlockHash.getD 0)

def shortParams (blockSize : Nat) (pos : 0 < blockSize) (numGpuBlocks numCpuBlocks : Nat) : ManagerParams where
  blockSize := blockSize
  pos := pos
  sha := shortSha
  numTotalGpuBlocks := numGpuBlocks
  numTotalCpuBlocks := numCpuBlocks
  watermarkBlocks := 0

def shortGroup (seqId : SeqId) (tokenIds : List TokenId) (status : SequenceStatus) : SequenceGroup :=
  { SequenceGroup.init "r" seqId tokenIds none 0 0 with status := status }

/-- A finished sequence is swapped out and freed. -/
def swapAndFree (tokenIds : List TokenId) : List ManagerOp :=
  [.allocate (shortGroup 1 tokenIds .waiting),
   .markBlocksAsComputed (shortGroup 1 tokenIds .running) tokenIds.length,
   .swapOutFinished (shortGroup 1 tokenIds .finishedStopped) 5,
   .free 1]

theorem no_faults {s : CpuGpuBlockAllocator} (h : s.trace.events.filter BlockEvent.isFault = []) :
    ¬ s.Stray ∧ ¬ s.Reissued := by
  rw [stray_iff, reissued_iff, h]
  exact ⟨fun ⟨r, hr⟩ => absurd hr List.not_mem_nil, fun ⟨r, hr⟩ => absurd hr List.not_mem_nil⟩

theorem run_poolsIntact_short : ∃ m, run (shortParams 2 (by decide) 4 4)
    [.allocate (shortGroup 1 [1, 2, 3] .waiting), .free 1] (init (shortParams 2 (by decide) 4 4)) = some ((), m) ∧
      PoolsIntact m := by
  have returns : ((run (shortParams 2 (by decide) 4 4) [.allocate (shortGroup 1 [1, 2, 3] .waiting), .free 1]
      (init (shortParams 2 (by decide) 4 4))).map fun x => x.2.blockAllocator.trace.events.filter BlockEvent.isFault) =
        some [] := by
    decide +kernel
  obtain ⟨⟨_, m⟩, hrun, hfaults⟩ := Option.map_eq_some_iff.mp returns
  exact ⟨m, hrun, run_poolsIntact hrun (no_faults hfaults).1⟩

/-- The object of a block that was swapped out goes to the CPU pool, which has its id already. -/
theorem swapAndFree_duplicates : ∃ m, run (shortParams 2 (by decide) 4 4) (swapAndFree [1, 2])
    (init (shortParams 2 (by decide) 4 4)) = some ((), m) ∧ ¬ PoolsIntact m := by
  have returns : ((run (shortParams 2 (by decide) 4 4) (swapAndFree [1, 2]) (init (shortParams 2 (by decide) 4 4))).map
      fun x => decide (x.2.blockAllocator.pool .cpu).freeIds.Nodup) = some false := by
    decide +kernel
  obtain ⟨⟨_, m⟩, hrun, hdup⟩ := Option.map_eq_some_iff.mp returns
  exact ⟨m, hrun, fun h => of_decide_eq_false hdup (h.nodup .cpu)⟩

/-! ## Counts -/

/-- The number of objects in the tables that carry a physical block. -/
def numCarriers (m : BlockSpaceManager) (id : BlockId) : Nat :=
  m.tableBlocks.countP fun r => m.blockAllocator.idOf? r = some id

/-- Every block is counted as often as an object in a table carries it; without tables all blocks are free. -/
structure Conserved (m : BlockSpaceManager) : Prop where
  counts : ∀ d, ∀ id ∈ (m.blockAllocator.on d).allBlockIndices,
    (m.blockAllocator.on d).refcounts.get? id = some (m.numCarriers id)
  allFree : m.blockTables = Dict.empty → ∀ d,
    (m.blockAllocator.on d).getNumFreeBlocks = (m.blockAllocator.on d).getNumTotalBlocks

theorem numRefs_refsOf {s : CpuGpuBlockAllocator} {blocks : List BlockRef} {id : BlockId} :
    numRefs (s.refsOf blocks) id = blocks.countP fun r => s.idOf? r = some id := by
  induction blocks with
  | nil => rfl
  | cons r blocks ih =>
    have hcons : (s.refOf r).map (·.1) = s.idOf? r := by
      unfold refOf idOf?
      cases s.block? r with
      | none => rfl
      | some b =>
        dsimp only [Option.bind_some]
        cases b.blockId <;> rfl
    rw [List.countP_cons, ← ih, refsOf]
    cases hr : s.refOf r with
    | none =>
      rw [hr] at hcons
      rw [List.filterMap_cons_none hr, ← hcons]
      rfl
    | some x =>
      rw [hr] at hcons
      rw [List.filterMap_cons_some hr, ← hcons, numRefs_cons]
      by_cases hx : x.1 = id
      · simp [hx, refsOf]
      · simp [hx, refsOf]

theorem refsHeld_eq {s : CpuGpuBlockAllocator} {tabs : List Owner} :
    s.refsHeld tabs = s.refsOf (tabs.flatMap (·.2.1.blocks)) := by
  unfold refsHeld refsOf
  rw [List.filterMap_flatMap]

/-- Free blocks and evictable blocks are what has no references. -/
theorem numFree_of_books {s : CpuGpuBlockAllocator} {d : Device} (books : s.Books []) :
    (s.on d).getNumFreeBlocks = (s.on d).getNumTotalBlocks := by
  have acc := books.accounts d
  have hperm : ((s.on d).freeBlockIndices ++ (s.on d).evictor.freeTable.keys).Perm (s.on d).allBlockIndices := by
    refine (List.perm_ext_iff_of_nodup ?_ (books.distinct d)).mpr fun id => ?_
    · refine List.nodup_append.mpr ⟨acc.freeNodup, Dict.nodup_keys _, fun id hid id' hid' => ?_⟩
      rintro rfl
      obtain ⟨m, hm⟩ := Dict.mem_iff.mp hid'
      exact (acc.free id hid).2.2 ⟨_, (acc.evictable id m hm).2⟩
    · rw [List.mem_append]
      refine ⟨fun h => ?_, fun hid => acc.covered id hid rfl⟩
      rcases h with hfree | hevict
      · exact (acc.free id hfree).1
      · obtain ⟨m, hm⟩ := Dict.mem_iff.mp hevict
        exact acc.cachedHere _ id (acc.evictable id m hm).2
  have := hperm.length_eq
  rwa [List.length_append, ← Dict.size_eq_length_keys] at this

/-- The evictor holds the cached blocks without references, each with its hash. -/
def EvictorAgrees (a : PrefixCachingBlockAllocator) : Prop :=
  ∀ id h, (∃ m, a.evictor.freeTable.get? id = some m ∧ m.contentHash = h) ↔
    a.cachedBlocks.get? h = some id ∧ a.refcounts.get? id = some 0

/-- While the evictor holds a block, `evict` names one with its hash, and the block can be allocated. -/
def Evicts (s : CpuGpuBlockAllocator) (d : Device) : Prop :=
  (s.on d).evictor.numBlocks ≠ 0 → ∃ id h e s', (s.on d).evictor.evict = some ((id, h), e) ∧
    (s.on d).cachedBlocks.get? h = some id ∧ (s.on d).refcounts.get? id = some 0 ∧
      BlockM.maybeAllocateEvictedBlockId d s = some (some id, s')

theorem evictorAgrees_of_accounts {a : PrefixCachingBlockAllocator} {refs : List Ref} (acc : a.Accounts refs) :
    EvictorAgrees a := by
  intro id h
  constructor
  · rintro ⟨m, hm, rfl⟩
    obtain ⟨hzero, hcached⟩ := acc.evictable id m hm
    refine ⟨hcached, ?_⟩
    rw [acc.refcount, if_pos (acc.cachedHere _ id hcached), hzero]
  · rintro ⟨hcached, hzero⟩
    obtain ⟨hid, hcount⟩ := acc.numRefs_of_get? hzero
    rcases acc.covered id hid hcount.symm with hfree | hevict
    · exact absurd ⟨h, hcached⟩ (acc.free id hfree).2.2
    · obtain ⟨m, hm⟩ := Dict.mem_iff.mp hevict
      exact ⟨m, hm, acc.cachedOnce _ _ id (acc.evictable id m hm).2 hcached⟩

theorem evicts_of_faithful {s : CpuGpuBlockAllocator} {d : Device} {refs : List Ref} (books : s.Books refs)
    (faithful : (s.on d).evictor.Faithful) : Evicts s d := by
  intro hne
  obtain ⟨id, h, e, hrun⟩ := LRUEvictor.evict_returns faithful hne
  obtain ⟨-, m, hm, rfl⟩ := LRUEvictor.evict_faithful faithful hrun
  have acc := books.accounts d
  obtain ⟨hzero, hcached⟩ := acc.evictable id m hm
  have hid := acc.cachedHere _ id hcached
  have hcount : (s.on d).refcounts.get? id = some 0 := by rw [acc.refcount, if_pos hid, hzero]
  obtain ⟨t, ht, hactive⟩ := acc.tracked id hid
  rw [hzero] at hactive
  have hidle : t.active = false := by
    rw [← Bool.not_eq_true, hactive]
    exact lt_irrefl 0
  have henable : (some t).bind (·.enable false) = some ⟨true, defaultLastAccessedTime, false⟩ := by
    rw [Option.bind_some, BlockTracker.enable, hidle]
    rfl
  have returns : ∃ s', BlockM.maybeAllocateEvictedBlockId d s = some (some id, s') := by
    rw [BlockM.maybeAllocateEvictedBlockId, BlockM.self_bind, if_neg hne, bind_eq (ofOption_iff.mpr ⟨hrun, rfl⟩)]
    simp only [BlockM.modifySelf, update_bind, ofOption_bind, hcached, Option.bind_some, BlockM.refcount, BlockM.self_bind,
      bind_assoc, on_setOn_self, hcount, require_bind, if_true, BlockM.incr, pure_bind, BlockM.trackBlockId, ht, henable]
    exact ⟨_, rfl⟩
  obtain ⟨s', hs'⟩ := returns
  exact ⟨id, m.contentHash, e, s', hrun, hcached, hcount, hs'⟩

/-- As long as no object has been handed out twice, and, for the queues, no stale entry has collided. -/
theorem run_evictors (hrun : run p ops (init p) = some (u, m)) (hreissued : ¬ m.blockAllocator.Reissued) :
    (∀ d, EvictorAgrees (m.blockAllocator.on d)) ∧
      (¬ m.blockAllocator.Collided → ∀ d, Evicts m.blockAllocator d) := by
  obtain ⟨tabs, lost, held⟩ := run_accounted hrun fun _ => hreissued
  exact ⟨fun d => evictorAgrees_of_accounts (held.tables.books.accounts d),
    fun hcollided d => evicts_of_faithful held.tables.books (held.tables.faithful hcollided d)⟩

theorem run_evictors_short : ∃ m, run (shortParams 2 (by decide) 4 4)
    [.allocate (shortGroup 1 [1, 2, 3] .waiting), .free 1] (init (shortParams 2 (by decide) 4 4)) = some ((), m) ∧
      (m.blockAllocator.on .gpu).evictor.numBlocks ≠ 0 ∧ (∀ d, EvictorAgrees (m.blockAllocator.on d)) ∧
        ∀ d, Evicts m.blockAllocator d := by
  have returns : ((run (shortParams 2 (by decide) 4 4) [.allocate (shortGroup 1 [1, 2, 3] .waiting), .free 1]
      (init (shortParams 2 (by decide) 4 4))).map fun x =>
        decide (x.2.blockAllocator.trace.events.filter BlockEvent.isFault = [] ∧
          (∀ e ∈ x.2.blockAllocator.trace.events, ¬ e.collides = true) ∧
          (x.2.blockAllocator.on .gpu).evictor.numBlocks ≠ 0)) = some true := by
    decide +kernel
  obtain ⟨⟨_, m⟩, hrun, hfacts⟩ := Option.map_eq_some_iff.mp returns
  obtain ⟨hfaults, hcollides, hheld⟩ := of_decide_eq_true hfacts
  obtain ⟨hagrees, hevicts⟩ := run_evictors hrun (no_faults hfaults).2
  exact ⟨m, hrun, hheld, hagrees, hevicts fun ⟨e, he, hc⟩ => hcollides e he hc⟩

/-- One block holds the token 1 twice and then the token 2: the stale entry comes first. -/
def reuseOneBlock : List ManagerOp :=
  [.allocate (shortGroup 1 [1] .waiting), .free 1, .allocate (shortGroup 2 [1] .waiting), .free 2,
   .allocate (shortGroup 3 [2] .waiting), .free 3]

theorem reuseOneBlock_stale : ∃ m, run (shortParams 1 (by decide) 1 1) reuseOneBlock
    (init (shortParams 1 (by decide) 1 1)) = some ((), m) ∧ ¬ Evicts m.blockAllocator .gpu := by
  have returns : ((run (shortParams 1 (by decide) 1 1) reuseOneBlock (init (shortParams 1 (by decide) 1 1))).map fun x =>
      decide ((x.2.blockAllocator.on .gpu).evictor.numBlocks ≠ 0 ∧
        BlockM.maybeAllocateEvictedBlockId .gpu x.2.blockAllocator = none)) = some true := by
    decide +kernel
  obtain ⟨⟨_, m⟩, hrun, hfacts⟩ := Option.map_eq_some_iff.mp returns
  obtain ⟨hheld, hnone⟩ := of_decide_eq_true hfacts
  refine ⟨m, hrun, fun h => ?_⟩
  obtain ⟨id, h, e, s', -, -, -, hs'⟩ := h hheld
  rw [hnone] at hs'
  cases hs'

end BlockSpaceManager

end CoreFlow
