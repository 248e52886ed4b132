import CoreFlow.Block.Ready
import CoreFlow.Block.Attempts

/-!
# Allocation returns

A ready allocator whose books are in order returns from every step of an allocation, as long as it has a free
block for each block that it has to take. Without one it raises before the books have changed.
-/

namespace CoreFlow
open Prog

namespace BlockM
open CpuGpuBlockAllocator
variable {p : BlockParams} {d : Device} {r : BlockRef} {s s' s₁ : CpuGpuBlockAllocator} {live : List BlockRef}
  {prevBlock : Option BlockRef} {tokenIds : List TokenId} {blockId : BlockId} {o : Option BlockId} {refs : List Ref}
  {b : Block} {h : PrefixHash} {n : Nat}

/-! ## Elementary steps -/

theorem getBlock_run (hb : s.block? r = some b) : getBlock r s = some (b, s) := getBlock_iff.mpr ⟨hb, rfl⟩

theorem incr_run (hn : (s.on d).refcounts.get? blockId = some n) : incr d blockId s =
    some (n + 1, s.setOn d { s.on d with refcounts := (s.on d).refcounts.set blockId (n + 1) }) := by
  unfold incr
  rw [self_bind, bind_eq (ofOption_iff.mpr ⟨hn, rfl⟩)]
  rfl

theorem decr_run (hn : (s.on d).refcounts.get? blockId = some n) (hpos : 0 < n) : decr d blockId s =
    some (n - 1, s.setOn d { s.on d with refcounts := (s.on d).refcounts.set blockId (n - 1) }) := by
  unfold decr
  rw [self_bind, bind_eq (ofOption_iff.mpr ⟨hn, rfl⟩), require_bind, if_pos hpos]
  rfl

theorem trackBlockId_returns {t : BlockTracker} {computed : Bool} (ht : (s.on d).blockTracker.get? blockId = some t)
    (hidle : t.active = false) : ∃ s', trackBlockId d blockId computed s = some ((), s') := by
  have henable : (some t).bind (·.enable computed) = some ⟨true, defaultLastAccessedTime, computed⟩ := by
    rw [Option.bind_some, BlockTracker.enable, hidle]
    rfl
  unfold trackBlockId
  rw [self_bind, ht, bind_eq (ofOption_iff.mpr ⟨henable, rfl⟩)]
  exact ⟨_, rfl⟩

theorem untrackBlockId_returns {t : BlockTracker} (ht : (s.on d).blockTracker.get? blockId = some t)
    (hactive : t.active = true) : ∃ s', untrackBlockId d blockId s = some ((), s') := by
  have hdisable : (some t).bind (·.disable) = some BlockTracker.init := by
    rw [Option.bind_some, BlockTracker.disable, if_pos hactive]
  unfold untrackBlockId
  rw [self_bind, ht, bind_eq (ofOption_iff.mpr ⟨hdisable, rfl⟩)]
  exact ⟨_, rfl⟩

theorem freeBlock_returns (d : Device) (r : BlockRef) (s : CpuGpuBlockAllocator) : ∃ s', freeBlock d r s = some ((), s') := by
  unfold freeBlock modifySelf
  rw [update_bind, update_bind]
  unfold when
  split
  · exact ⟨_, rfl⟩
  · exact ⟨_, rfl⟩

theorem updateNumTokensTotal_returns (hb : s.block? r = some b)
    (hprev : ∀ q, b.prevBlock = some q → ∃ pb, s.block? q = some pb) : ∃ s', updateNumTokensTotal r s = some ((), s') := by
  unfold updateNumTokensTotal
  rw [bind_eq (getBlock_run hb)]
  cases hq : b.prevBlock with
  | none => exact ⟨_, rfl⟩
  | some q =>
    obtain ⟨pb, hpb⟩ := hprev q hq
    dsimp only
    rw [bind_assoc, bind_eq (getBlock_run hpb)]
    exact ⟨_, rfl⟩

/-! ## Objects -/

/-- `init_block` finds an object: the pool of a device that has blocks is not empty. -/
theorem initBlock_returns (use : s.InUse live) (clean : ¬ s.Stray) (hsize : 0 < (s.pool d).poolSize)
    (hlen : tokenIds.length ≤ p.blockSize) (hprev : ∀ q, prevBlock = some q → q ∈ live) :
    ∃ r s', initBlock p d prevBlock tokenIds o s = some (r, s') := by
  have sound := (use.pools clean).1
  have hne : (roomyPool (s.pool d)).freeIds ≠ [] := by
    unfold roomyPool
    split
    · rename_i hnil
      simp only [BlockPool.increasePool, hnil, List.nil_append, ne_eq, List.range'_eq_nil_iff]
      omega
    · assumption
  obtain ⟨poolId, freeIds, hfree⟩ := List.exists_cons_of_ne_nil hne
  have hlt : poolId < (roomyPool (s.pool d)).poolSize := by
    refine ((roomyPool_freeIds (sound.nodup d) (sound.inPool d)).2 poolId ?_).1
    rw [hfree]
    exact List.mem_cons_self
  have hpool (e : Device) := pool_modifySelf (s := s) d e { roomyPool (s.pool d) with freeIds := freeIds }
  obtain ⟨sound₁, hobject, same⟩ := takeId_sound sound hfree hpool
  have hnot := (List.nodup_cons.mp sound₁.liveNodup).1
  obtain ⟨b, hb⟩ := hobject
  unfold initBlock
  rw [self_bind]
  dsimp only
  rw [show (if (s.on d).blockPool.freeIds = [] then (s.on d).blockPool.increasePool else (s.on d).blockPool) =
    roomyPool (s.pool d) from rfl, hfree]
  dsimp only
  rw [require_bind, if_pos hlt, require_bind, if_pos hlen, read_bind, when_neg hnot, Prog.pure_bind, modifySelf,
    update_bind, modifyBlock, update_bind]
  have present (q : BlockRef) (hq : q ∈ s.trace.held) (f : Block → Block) : ∃ pb, (CpuGpuBlockAllocator.modifyBlock
      (s.setOn d { s.on d with blockPool := { roomyPool (s.pool d) with freeIds := freeIds } }) ⟨d, poolId⟩ f).block? q =
        some pb := by
    obtain ⟨hin, -⟩ := sound.taken q hq
    have hq' : s.block? q = some ((s.pool q.device).pool[q.poolId]) := List.getElem?_eq_getElem hin
    rw [block?_modifyBlock, same q hq, hq']
    split <;> exact ⟨_, rfl⟩
  have written (f : Block → Block) : (CpuGpuBlockAllocator.modifyBlock
      (s.setOn d { s.on d with blockPool := { roomyPool (s.pool d) with freeIds := freeIds } }) ⟨d, poolId⟩ f).block?
        ⟨d, poolId⟩ = some (f b) := by
    rw [block?_modifyBlock, if_pos rfl, hb]
    rfl
  obtain ⟨s', htotal⟩ := updateNumTokensTotal_returns (written fun _ => ⟨prevBlock, tokenIds, o, false, none, 0⟩)
    fun q hq => present q (use.held q (hprev q hq)) _
  rw [bind_eq htotal]
  exact ⟨_, _, rfl⟩

/-- An empty pool stays empty. -/
theorem initBlock_empty (use : s.InUse live) (clean : ¬ s.Stray) (hsize : (s.pool d).poolSize = 0) :
    initBlock p d prevBlock tokenIds o s = none := by
  have sound := (use.pools clean).1
  have hnil : (s.pool d).freeIds = [] := by
    rw [List.eq_nil_iff_forall_not_mem]
    intro i hi
    have := sound.inPool d i hi
    omega
  have hempty : (roomyPool (s.pool d)).freeIds = [] := by
    simp only [roomyPool, hnil, if_true, BlockPool.increasePool, hsize, List.range'_zero, List.nil_append]
  unfold initBlock
  rw [self_bind]
  dsimp only
  rw [show (if (s.on d).blockPool.freeIds = [] then (s.on d).blockPool.increasePool else (s.on d).blockPool) =
    roomyPool (s.pool d) from rfl, hempty]
  rfl

theorem numObjects_pos (hb : s.block? r = some b) : 0 < s.numObjects := by
  have hlt := (List.getElem?_eq_some_iff.mp hb).1
  unfold numObjects BlockPool.poolSize
  cases hd : r.device with
  | gpu =>
    rw [hd] at hlt
    omega
  | cpu =>
    rw [hd] at hlt
    omega

theorem contentHashAux_run (hb : s.block? r = some b) (hh : b.cachedContentHash = some h) (hn : 0 < n) :
    contentHashAux p n r s = some (some h, s) := by
  obtain ⟨n, rfl⟩ := Nat.exists_eq_succ_of_ne_zero (Nat.ne_of_gt hn)
  rw [contentHashAux, bind_eq (getBlock_run hb), hh]
  rfl

/-- A hash that is held. -/
theorem contentHash_run (hb : s.block? r = some b) (hh : b.cachedContentHash = some h) :
    contentHash p r s = some (some h, s) := by
  rw [contentHash, read_bind]
  exact contentHashAux_run hb hh (Nat.succ_pos _)

/-- A block that is not full has no hash. -/
theorem contentHash_open (hb : s.block? r = some b) (hh : b.cachedContentHash = none) (hfull : b.isFull p = false) :
    contentHash p r s = some (none, s) := by
  rw [contentHash, read_bind, contentHashAux, bind_eq (getBlock_run hb), hh]
  dsimp only
  rw [if_pos hfull]
  rfl

/-- The hash of a new block, after a block that holds its own. -/
theorem newContentHash_returns (hb : s.block? r = some b) (hh : b.cachedContentHash = none)
    (hprev : ∀ q, b.prevBlock = some q → ∃ pb h, s.block? q = some pb ∧ pb.cachedContentHash = some h) :
    ∃ o s', contentHash p r s = some (o, s') := by
  by_cases hfull : b.isFull p = false
  · exact ⟨_, _, contentHash_open hb hh hfull⟩
  · rw [contentHash, read_bind, contentHashAux, bind_eq (getBlock_run hb), hh]
    dsimp only
    rw [if_neg hfull]
    have finish (x : BlockM (Option PrefixHash)) (prev : Option PrefixHash) (first : Bool) (hx : x s = some (prev, s)) :
        ∃ o s', (do
          let prevBlockHash ← x
          if prevBlockHash = some noneHash ∧ first = false then pure none
          else do
            let h := hashBlockTokens p first prevBlockHash b.tokenIds
            modifyBlock r fun b => { b with cachedContentHash := some h }
            pure (some h)) s = some (o, s') := by
      rw [bind_eq hx]
      split
      · exact ⟨_, _, rfl⟩
      · exact ⟨_, _, rfl⟩
    cases hq : b.prevBlock with
    | none => exact finish _ _ _ rfl
    | some q =>
      obtain ⟨pb, h, hpb, hh⟩ := hprev q hq
      exact finish _ _ _ (contentHashAux_run hpb hh (numObjects_pos hb))

/-! ## Physical blocks -/

/-- A block that nobody refers to has no count and an idle tracker. -/
theorem unreferenced (books : s.Books refs) (hid : blockId ∈ (s.on d).allBlockIndices) (hzero : numRefs refs blockId = 0) :
    (s.on d).refcounts.get? blockId = some 0 ∧ ∃ t, (s.on d).blockTracker.get? blockId = some t ∧ t.active = false := by
  have acc := books.accounts d
  obtain ⟨t, ht, hactive⟩ := acc.tracked blockId hid
  rw [hzero] at hactive
  refine ⟨?_, t, ht, ?_⟩
  · rw [acc.refcount, if_pos hid, hzero]
  · rw [← Bool.not_eq_true, hactive]
    exact lt_irrefl 0

/-- A reference to a cached block, in use or not. -/
theorem incrRefcountCachedBlock_returns (hb : s.block? r = some b) (hid : b.blockId = some blockId)
    (hcached : (s.on d).cachedBlocks.get? h = some blockId) (books : s.Books refs) :
    ∃ s', incrRefcountCachedBlock d r s = some ((), s') := by
  have acc := books.accounts d
  have hin := acc.cachedHere h blockId hcached
  have eff := modifyBlock_effect (s := s) (r := r) (g := fun b => { b with computed := true }) d
  have hn : ((s.modifyBlock r fun b => { b with computed := true }).on d).refcounts.get? blockId =
      some (numRefs refs blockId) := by
    rw [eff.on_self]
    exact (acc.refcount blockId).trans (if_pos hin)
  unfold incrRefcountCachedBlock
  rw [modifyBlock, update_bind, bind_eq (getBlock_run (eff.object hb)), bind_eq (ofOption_iff.mpr ⟨hid, rfl⟩),
    bind_eq (incr_run hn)]
  by_cases hzero : numRefs refs blockId = 0
  · obtain ⟨-, t, ht, hidle⟩ := unreferenced books hin hzero
    have hevict : blockId ∈ (s.on d).evictor.freeTable :=
      (acc.covered blockId hin hzero).resolve_left fun hfree => (acc.free blockId hfree).2.2 ⟨h, hcached⟩
    rw [when_pos (by omega), self_bind, on_setOn_self]
    have hevictor : ((s.modifyBlock r fun b => { b with computed := true }).on d).evictor = (s.on d).evictor :=
      congrArg (·.evictor) eff.on_self
    have htracker : ((s.modifyBlock r fun b => { b with computed := true }).on d).blockTracker = (s.on d).blockTracker :=
      congrArg (·.blockTracker) eff.on_self
    dsimp only
    rw [hevictor, when_pos hevict, LRUEvictor.remove, if_pos hevict, bind_assoc,
      bind_eq (ofOption_iff.mpr ⟨rfl, rfl⟩), modifySelf, update_bind]
    refine trackBlockId_returns (t := t) ?_ hidle
    rw [on_setOn_self, on_setOn_self]
    exact (congrArg (fun c => c.get? blockId) htracker).trans ht
  · rw [when_neg (by omega)]
    exact ⟨_, rfl⟩

/-- A free block is taken. -/
theorem maybeAllocateHashlessBlockId_returns {rest : List BlockId} (ready : s.Ready d) (use : s.InUse live)
    (books : s.Books refs) (hfree : (s.on d).freeBlockIndices = blockId :: rest) :
    ∃ s', maybeAllocateHashlessBlockId p d s = some (some blockId, s') ∧
      (s'.on d).cachedBlocks = (s.on d).cachedBlocks := by
  have acc := books.accounts d
  obtain ⟨hin, hzero, -⟩ := acc.free blockId (by rw [hfree]; exact List.mem_cons_self)
  obtain ⟨hn, t, ht, hidle⟩ := unreferenced books hin hzero
  have r : BlockRef := ⟨d, 0⟩
  have taken := setOn_effect (s := s) (d := d) (f := fun a => { a with freeBlockIndices := rest }) (fun _ => rfl)
    (fun _ => rfl) r
  have hn₁ : ((s.setOn d { s.on d with freeBlockIndices := rest }).on d).refcounts.get? blockId = some 0 := by
    rw [on_setOn_self]
    exact hn
  have counted := incr_run hn₁
  obtain ⟨k, -, -, eff⟩ := incr_effect counted r
  have eff := taken.trans eff fun _ _ => rfl
  have hsize := ready.pooled (List.ne_nil_of_mem hin)
  rw [← eff.sizes] at hsize
  have clean := ready.clean
  rw [stray_iff, ← eff.faults, ← stray_iff] at clean
  have hempty : ([] : List TokenId).length ≤ p.blockSize := Nat.zero_le _
  obtain ⟨q, s₂, hinit⟩ : ∃ q s₂, initBlock p d none [] (some blockId) _ = some (q, s₂) :=
    initBlock_returns (use.quiet eff.toQuiet) clean hsize hempty fun _ hq => by cases hq
  obtain ⟨s₃, hput⟩ := freeBlock_returns d q s₂
  have hands := initBlock_handsOut hinit
  have held : s₃.on d = { s₂.on d with blockPool := (s₃.on d).blockPool } := by
    obtain ⟨use₂, -⟩ := hands.inUse (use.quiet eff.toQuiet)
      fun hs => absurd ((initBlock_calm p d _ _ _ _ _ _ hinit).stray hs) clean
    exact (freeBlock_inUse use₂ hput).2.2 d
  have htracker : (s₃.on d).blockTracker = (s.on d).blockTracker := by
    rw [held, hands.books, eff.on_self]
  have hcached : (s₃.on d).cachedBlocks = (s.on d).cachedBlocks := by
    rw [held, hands.books, eff.on_self]
  obtain ⟨s', htrack⟩ : ∃ s', trackBlockId d blockId false s₃ = some ((), s') := trackBlockId_returns (htracker ▸ ht) hidle
  obtain ⟨t', -, eff'⟩ := trackBlockId_effect htrack r
  refine ⟨s', ?_, (congrArg (·.cachedBlocks) eff'.on_self).trans hcached⟩
  rw [maybeAllocateHashlessBlockId, self_bind, hfree]
  dsimp only
  rw [modifySelf, update_bind, bind_eq counted, bind_eq hinit, bind_eq hput, bind_eq htrack]
  rfl

/-- While the evictor holds a block, `evict` names one with its hash, and the block is taken. -/
theorem maybeAllocateEvictedBlockId_returns (books : s.Books refs) (faithful : (s.on d).evictor.Faithful)
    (hne : (s.on d).evictor.numBlocks ≠ 0) : ∃ id h e s', (s.on d).evictor.evict = some ((id, h), e) ∧
      (s.on d).cachedBlocks.get? h = some id ∧ (s.on d).refcounts.get? id = some 0 ∧
        maybeAllocateEvictedBlockId d s = some (some id, s') ∧
          (s'.on d).cachedBlocks = (s.on d).cachedBlocks.erase h := by
  obtain ⟨id, h, e, hrun⟩ := LRUEvictor.evict_returns faithful hne
  obtain ⟨-, m, hm, rfl⟩ := LRUEvictor.evict_faithful faithful hrun
  have acc := books.accounts d
  obtain ⟨hzero, hcached⟩ := acc.evictable id m hm
  obtain ⟨hcount, t, ht, hidle⟩ := unreferenced books (acc.cachedHere _ id hcached) hzero
  have henable : (some t).bind (·.enable false) = some ⟨true, defaultLastAccessedTime, false⟩ := by
    rw [Option.bind_some, BlockTracker.enable, hidle]
    rfl
  have returns : ∃ s', maybeAllocateEvictedBlockId d s = some (some id, s') ∧
      (s'.on d).cachedBlocks = (s.on d).cachedBlocks.erase m.contentHash := by
    rw [maybeAllocateEvictedBlockId, self_bind, if_neg hne, bind_eq (ofOption_iff.mpr ⟨hrun, rfl⟩)]
    simp only [modifySelf, update_bind, ofOption_bind, hcached, Option.bind_some, refcount, self_bind, bind_assoc,
      on_setOn_self, hcount, require_bind, if_true, incr, Prog.pure_bind, trackBlockId, ht, henable]
    refine ⟨_, rfl, ?_⟩
    simp only [on_setOn_self]
  obtain ⟨s', hs', herase⟩ := returns
  exact ⟨id, m.contentHash, e, s', hrun, hcached, hcount, hs', herase⟩

theorem maybeAllocateHashlessBlockId_none (hfree : (s.on d).freeBlockIndices = []) :
    maybeAllocateHashlessBlockId p d s = some (none, s) := by
  rw [maybeAllocateHashlessBlockId, self_bind, hfree]
  rfl

theorem maybeAllocateEvictedBlockId_none (hempty : (s.on d).evictor.numBlocks = 0) :
    maybeAllocateEvictedBlockId d s = some (none, s) := by
  rw [maybeAllocateEvictedBlockId, self_bind, if_pos hempty]
  rfl

/-- A block is found as long as there is one, free or evictable; no hash is cached for it. -/
theorem allocateBlockId_returns (ready : s.Ready d) (use : s.InUse live) (books : s.Books refs)
    (room : 0 < (s.on d).getNumFreeBlocks) : ∃ id s', allocateBlockId p d s = some (id, s') ∧
      id ∈ (s.on d).allBlockIndices ∧
        ∀ h, (s.on d).cachedBlocks.get? h = none → (s'.on d).cachedBlocks.get? h = none := by
  have acc := books.accounts d
  unfold allocateBlockId
  cases hfree : (s.on d).freeBlockIndices with
  | cons id rest =>
    obtain ⟨s', hrun, hcached⟩ := maybeAllocateHashlessBlockId_returns (p := p) ready use books hfree
    rw [bind_eq hrun]
    refine ⟨id, s', rfl, (acc.free id ?_).1, fun h hnone => ?_⟩
    · rw [hfree]
      exact List.mem_cons_self
    · rw [hcached]
      exact hnone
  | nil =>
    rw [bind_eq (maybeAllocateHashlessBlockId_none hfree)]
    have hne : (s.on d).evictor.numBlocks ≠ 0 := by
      unfold PrefixCachingBlockAllocator.getNumFreeBlocks at room
      rw [hfree, List.length_nil] at room
      omega
    obtain ⟨id, h, e, s', -, hcached, -, hrun, herase⟩ := maybeAllocateEvictedBlockId_returns books ready.faithful hne
    dsimp only
    rw [bind_eq hrun]
    refine ⟨id, s', rfl, acc.cachedHere h id hcached, fun h' hnone => ?_⟩
    rw [herase, Dict.get?_erase]
    split
    · rfl
    · exact hnone

/-- Without one, `NoFreeBlocksError` is raised, and nothing has changed. -/
theorem allocateBlockId_raises (hnone : (s.on d).getNumFreeBlocks = 0) :
    BlockAttempt.allocateBlockId p d s = (.error .noFreeBlocks, s) := by
  unfold PrefixCachingBlockAllocator.getNumFreeBlocks at hnone
  have hfree : (s.on d).freeBlockIndices = [] := List.eq_nil_of_length_eq_zero (by omega)
  unfold BlockAttempt.allocateBlockId
  rw [BlockAttempt.step, Attempt.lift_bind (maybeAllocateHashlessBlockId_none hfree)]
  dsimp only
  rw [BlockAttempt.step, Attempt.lift_bind (maybeAllocateEvictedBlockId_none (by omega))]
  rfl

/-! ## Objects with a block -/

/-- A device with a free block has blocks. -/
theorem blocks_of_room (books : s.Books refs) (room : 0 < (s.on d).getNumFreeBlocks) : (s.on d).allBlockIndices ≠ [] := by
  have acc := books.accounts d
  unfold PrefixCachingBlockAllocator.getNumFreeBlocks at room
  cases hfree : (s.on d).freeBlockIndices with
  | cons id rest =>
    apply List.ne_nil_of_mem (a := id)
    refine (acc.free id ?_).1
    rw [hfree]
    exact List.mem_cons_self
  | nil =>
    rw [hfree, List.length_nil, Nat.zero_add] at room
    obtain ⟨x, hx⟩ := List.exists_mem_of_length_pos room
    exact List.ne_nil_of_mem (acc.cachedHere _ _ (acc.evictable x.1 x.2 (Dict.get?_iff_mem_entries.mpr hx)).2)

/-- A new object gets a block and no tokens. -/
theorem allocateMutableBlock_returns (ready : s.Ready d) (use : s.InUse live) (books : s.Books refs)
    (room : 0 < (s.on d).getNumFreeBlocks) (hprev : ∀ q, prevBlock = some q → q ∈ live) :
    ∃ r s' id n, allocateMutableBlock p d prevBlock s = some (r, s') ∧ r.device = d ∧ id ∈ (s.on d).allBlockIndices ∧
      s'.block? r = some ⟨prevBlock, [], some id, false, none, n⟩ ∧ (s'.on d).refcounts.get? id = some 1 ∧
        ∀ h, (s.on d).cachedBlocks.get? h = none → (s'.on d).cachedBlocks.get? h = none := by
  obtain ⟨id, s₁, hid, hin, hnone⟩ := allocateBlockId_returns (p := p) ready use books room
  have grows := (allocateBlockId_advances p d _ _ _ hid).toGrows
  have ready₁ := ready.after grows (allocateBlockId_calm p d _ _ _ hid)
  have acq := allocateBlockId_acquires use books (fun hs => absurd hs ready₁.clean) hid
  have hin₁ : id ∈ (s₁.on d).allBlockIndices := by
    rw [grows.blocks d]
    exact hin
  have hempty : ([] : List TokenId).length ≤ p.blockSize := Nat.zero_le _
  obtain ⟨r, s₂, hinit⟩ : ∃ r s₂, initBlock p d prevBlock [] (some id) s₁ = some (r, s₂) :=
    initBlock_returns acq.inUse ready₁.clean (ready₁.pooled (List.ne_nil_of_mem hin₁)) hempty hprev
  have hands := initBlock_handsOut hinit
  obtain ⟨n, hb⟩ := hands.object
  have acc := acq.books.accounts d
  refine ⟨r, s₂, id, n, ?_, hands.device, hin, hb, ?_, fun h hh => ?_⟩
  · unfold allocateMutableBlock
    rw [bind_eq hid, bind_eq hinit, bind_eq (contentHash_open hb rfl (beq_eq_false_iff_ne.mpr (Nat.ne_of_lt p.pos))),
      require_bind, if_pos rfl]
    rfl
  · rw [hands.books]
    exact (acc.refcount id).trans (by rw [if_pos hin₁, (acc.mutable id List.mem_cons_self hin₁).1])
  · rw [hands.books]
    exact hnone h hh

/-- The block of the only holder is appended to in place. -/
theorem cowBlockIfNotAppendable_run (hb : s.block? r = some b) (hid : b.blockId = some blockId)
    (hn : (s.on d).refcounts.get? blockId = some 1) : cowBlockIfNotAppendable p d r s = some (blockId, s) := by
  unfold cowBlockIfNotAppendable
  rw [bind_eq (getBlock_run hb), bind_eq (ofOption_iff.mpr ⟨hid, rfl⟩), bind_eq (refcount_iff.mpr ⟨hn, rfl⟩),
    if_pos (le_refl 1)]
  rfl

/-- A block that is not cached yet is cached. -/
theorem promoteToImmutableBlock_returns (hb : s.block? r = some b) (hid : b.blockId = some blockId)
    (hh : b.cachedContentHash = some h) (hn : (s.on d).refcounts.get? blockId = some 1)
    (hnew : (s.on d).cachedBlocks.get? h = none) :
    ∃ s', promoteToImmutableBlock p d r s = some (blockId, s') ∧ s'.block? r = some b := by
  unfold promoteToImmutableBlock
  rw [bind_eq (contentHash_run hb hh), bind_eq (ofOption_iff.mpr ⟨rfl, rfl⟩), bind_eq (getBlock_run hb),
    bind_eq (ofOption_iff.mpr ⟨hid, rfl⟩), bind_eq (refcount_iff.mpr ⟨hn, rfl⟩), require_bind, if_pos Nat.one_pos, self_bind,
    hnew]
  refine ⟨_, rfl, ?_⟩
  exact (setOn_effect (f := fun a => { a with
    cachedBlocks := a.cachedBlocks.set h blockId
    touchedBlocks := a.touchedBlocks.insert blockId }) (fun _ => rfl) (fun _ => rfl) r).object hb

/-- Tokens for an object that was just created, with a hash that is not cached if they fill it. -/
theorem appendTokenIds_returns (hb : s.block? r = some ⟨prevBlock, [], some blockId, false, none, n⟩)
    (hn : (s.on r.device).refcounts.get? blockId = some 1)
    (hprev : ∀ q, prevBlock = some q → r ≠ q ∧ s.Remembers p q ∧
      ∃ pb h, s.block? q = some pb ∧ pb.cachedContentHash = some h)
    (hlen : tokenIds.length ≤ p.blockSize)
    (hnew : ∀ h, s.derivedHash p ⟨prevBlock, tokenIds, some blockId, false, none, n⟩ = some h →
      (s.on r.device).cachedBlocks.get? h = none) :
    ∃ s' b, appendTokenIds p r tokenIds s = some ((), s') ∧ s'.block? r = some b ∧ b.blockId = some blockId := by
  unfold appendTokenIds
  rw [bind_eq (contentHash_open hb rfl (beq_eq_false_iff_ne.mpr (Nat.ne_of_lt p.pos))), require_bind, if_pos rfl,
    bind_eq (getBlock_run hb), require_bind, if_pos rfl]
  split
  · exact ⟨_, _, rfl, hb, rfl⟩
  · have eff₁ := modifyBlock_effect (s := s) (r := r) (g := fun b => { b with tokenIds := b.tokenIds ++ tokenIds }) r.device
    have hb₁ := eff₁.object hb
    have hn₁ : ((s.modifyBlock r fun b => { b with tokenIds := b.tokenIds ++ tokenIds }).on r.device).refcounts.get? blockId =
        some 1 := by
      rw [eff₁.on_self]
      exact hn
    rw [require_bind, if_pos (by simpa using hlen), modifyBlock, update_bind,
      when_pos (Option.some_ne_none _), bind_assoc, bind_eq (cowBlockIfNotAppendable_run hb₁ rfl hn₁), setBlockId, modifyBlock,
      update_bind]
    have eff₂ := eff₁.trans (modifyBlock_effect (g := fun b => { b with blockId := some blockId }) r.device) fun _ _ => rfl
    have hb₂ := eff₂.object hb
    have others (q : BlockRef) (hq : prevBlock = some q) := eff₂.object_ne (hprev q hq).1
    obtain ⟨s₃, htotal⟩ := updateNumTokensTotal_returns hb₂ fun q hq => by
      obtain ⟨-, -, pb, h, hpb, -⟩ := hprev q hq
      exact ⟨pb, (others q hq).trans hpb⟩
    rw [bind_eq htotal]
    obtain ⟨k, eff₃⟩ := updateNumTokensTotal_effect htotal r.device
    have eff₃ := eff₂.trans eff₃ fun _ _ => rfl
    have hb₃ := eff₃.object hb
    have same₃ (q : BlockRef) (hq : prevBlock = some q) := eff₃.object_ne (hprev q hq).1
    obtain ⟨o, s₄, hhash⟩ := newContentHash_returns (p := p) hb₃ rfl fun q hq => by
      obtain ⟨-, -, pb, h, hpb, hh⟩ := hprev q hq
      exact ⟨pb, h, (same₃ q hq).trans hpb, hh⟩
    rw [bind_eq hhash]
    obtain ⟨ho, eff₄⟩ := contentHash_derives hb₃ rfl
      (fun q hq => (hprev q hq).2.1.quiet eff₃.toQuiet (fun _ => rfl) (hprev q hq).1) hhash r.device
    have eff₄ := eff₃.trans eff₄ fun _ _ => rfl
    cases o with
    | none => exact ⟨_, _, rfl, eff₄.object hb, rfl⟩
    | some h =>
      have hderived : s.derivedHash p ⟨prevBlock, tokenIds, some blockId, false, none, n⟩ = some h := by
        rw [ho]
        exact (derivedHash_congr rfl rfl (heldPrevHash_eq fun q hq => same₃ q hq)).symm
      have hn₄ : (s₄.on r.device).refcounts.get? blockId = some 1 := by
        rw [eff₄.on_self]
        exact hn
      have hnew₄ : (s₄.on r.device).cachedBlocks.get? h = none := by
        rw [eff₄.on_self]
        exact hnew h hderived
      obtain ⟨s₅, hpromote, hb₅⟩ := promoteToImmutableBlock_returns (p := p) (eff₄.object hb) rfl rfl hn₄ hnew₄
      dsimp only
      rw [bind_eq hpromote]
      exact ⟨_, _, rfl, (modifyBlock_effect r.device).object hb₅, rfl⟩

end BlockM

namespace PrefixCachingBlockAllocator

/-- A block in use is cached under the hash. -/
def hashInUse (a : PrefixCachingBlockAllocator) (blockHash : PrefixHash) : Bool :=
  match a.cachedBlocks.get? blockHash with
  | none => false
  | some cachedBlockId => (a.blockTracker.get? cachedBlockId).any (·.active)

end PrefixCachingBlockAllocator

namespace BlockM
open CpuGpuBlockAllocator
variable {p : BlockParams} {d : Device} {r : BlockRef} {s s' s₁ : CpuGpuBlockAllocator} {live known : List BlockRef}
  {prevBlock : Option BlockRef} {tokenIds : List TokenId} {refs : List Ref} {h : PrefixHash}

/-! ## Full blocks -/

/-- The previous block is known and holds its hash. -/
structure ComesAfter (p : BlockParams) (s : CpuGpuBlockAllocator) (live known : List BlockRef)
    (prevBlock : Option BlockRef) : Prop where
  settled : s.Settled p known
  live : ∀ q ∈ known, q ∈ live
  prev : ∀ q, prevBlock = some q → q ∈ known ∧ ∃ pb h, s.block? q = some pb ∧ pb.cachedContentHash = some h

/-- The hash of a full block after `prevBlock`. -/
def newHash (p : BlockParams) (s : CpuGpuBlockAllocator) (prevBlock : Option BlockRef) (tokenIds : List TokenId) :
    Option PrefixHash := s.derivedHash p ⟨prevBlock, tokenIds, none, false, none, 0⟩

/-- `allocate_immutable_block` first makes an object that has no block, and asks it for its hash. -/
structure Begins (p : BlockParams) (d : Device) (live : List BlockRef) (prevBlock : Option BlockRef)
    (tokenIds : List TokenId) (s : CpuGpuBlockAllocator) (r : BlockRef) (s₁ s₂ : CpuGpuBlockAllocator) : Prop where
  init : initBlock p d prevBlock tokenIds none s = some (r, s₁)
  hash : contentHash p r s₁ = some (newHash p s prevBlock tokenIds, s₂)
  device : r.device = d
  ready : s₂.Ready d
  inUse : s₂.InUse (r :: live)
  same : ∀ q ∈ live, s₂.block? q = s.block? q
  object : ∃ n, s₂.block? r = some ⟨prevBlock, tokenIds, none, false, newHash p s prevBlock tokenIds, n⟩
  books : ∀ e, s₂.on e = { s.on e with blockPool := (s₂.on e).blockPool }

theorem allocateImmutableBlock_begins (ready : s.Ready d) (use : s.InUse live) (after : ComesAfter p s live known prevBlock)
    (hsize : 0 < (s.pool d).poolSize) (hlen : tokenIds.length ≤ p.blockSize) :
    ∃ r s₁ s₂, Begins p d live prevBlock tokenIds s r s₁ s₂ := by
  have known (q : BlockRef) (hq : prevBlock = some q) := after.prev q hq
  obtain ⟨r, s₁, hinit⟩ := initBlock_returns (p := p) (o := none) use ready.clean hsize hlen
    fun q hq => after.live q (known q hq).1
  have hands := initBlock_handsOut hinit
  obtain ⟨n, hb⟩ := hands.object
  have ready₁ := ready.after (initBlock_advances p d _ _ _ _ _ _ hinit).toGrows (initBlock_calm p d _ _ _ _ _ _ hinit)
  have harmless₁ : s₁.Harmless := fun hs => absurd hs ready₁.clean
  obtain ⟨-, same₁⟩ := hands.inUse use harmless₁
  obtain ⟨o, s₂, hhash⟩ := newContentHash_returns (p := p) hb rfl fun q hq => by
    obtain ⟨hin, pb, h, hpb, hh⟩ := known q hq
    exact ⟨pb, h, (same₁ q (after.live q hin)).trans hpb, hh⟩
  have op := allocateImmutableBlock_opens use after.settled after.live (fun q hq => (known q hq).1) harmless₁ hinit hhash
  obtain rfl : o = newHash p s prevBlock tokenIds := op.hash
  refine ⟨r, s₁, s₂, hinit, hhash, op.device, ?_, op.inUse, op.same, op.object, op.books⟩
  exact ready₁.after (contentHash_advances p r _ _ _ hhash).toGrows (contentHash_calm p r _ _ _ hhash)

/-- The block is found under its hash, or a block is taken for it. -/
theorem allocateImmutableBlock_returns (ready : s.Ready d) (use : s.InUse live) (books : s.Books refs)
    (after : ComesAfter p s live known prevBlock) (hlen : tokenIds.length ≤ p.blockSize)
    (hh : newHash p s prevBlock tokenIds = some h) (room : (s.on d).hashInUse h = true ∨ 0 < (s.on d).getNumFreeBlocks) :
    ∃ r s' b id, allocateImmutableBlock p d prevBlock tokenIds s = some (r, s') ∧ s'.block? r = some b ∧
      b.blockId = some id ∧ id ∈ (s.on d).allBlockIndices := by
  have acc := books.accounts d
  have hblocks : (s.on d).allBlockIndices ≠ [] := by
    rcases room with hused | room
    · unfold PrefixCachingBlockAllocator.hashInUse at hused
      cases hget : (s.on d).cachedBlocks.get? h with
      | none =>
        rw [hget] at hused
        cases hused
      | some id => exact List.ne_nil_of_mem (acc.cachedHere h id hget)
    · exact blocks_of_room books room
  obtain ⟨r, s₁, s₂, bg⟩ := allocateImmutableBlock_begins ready use after (ready.pooled hblocks) hlen
  obtain ⟨n, hb⟩ := bg.object
  have books₂ := books.of_pools bg.books
  have hcached : (s₂.on d).cachedBlocks = (s.on d).cachedBlocks := by rw [bg.books]
  unfold allocateImmutableBlock
  rw [bind_eq bg.init, bind_eq bg.hash, bind_eq (ofOption_iff.mpr ⟨hh, rfl⟩), self_bind, hcached]
  cases hget : (s.on d).cachedBlocks.get? h with
  | some id =>
    dsimp only
    rw [setBlockId, modifyBlock, update_bind]
    have eff := modifyBlock_effect (s := s₂) (r := r) (g := fun b => { b with blockId := some id }) d
    have hget₂ : ((s₂.modifyBlock r fun b => { b with blockId := some id }).on d).cachedBlocks.get? h = some id := by
      rw [eff.on_self]
      exact (congrArg (fun c => c.get? h) hcached).trans hget
    have books₃ := books₂.quiet eff
    obtain ⟨s', hincr⟩ := incrRefcountCachedBlock_returns (eff.object hb) rfl hget₂ books₃
    obtain ⟨quiet, -⟩ := incrRefcountCachedBlock_books (eff.object hb) rfl hget₂ books₃ hincr
    rw [bind_eq hincr]
    exact ⟨_, _, _, id, rfl, quiet.object (eff.object hb), rfl, acc.cachedHere h id hget⟩
  | none =>
    have room : 0 < (s.on d).getNumFreeBlocks := by
      refine room.resolve_left fun hused => ?_
      unfold PrefixCachingBlockAllocator.hashInUse at hused
      rw [hget] at hused
      cases hused
    obtain ⟨s₃, hput⟩ := freeBlock_returns d r s₂
    have ready₃ := bg.ready.after (freeBlock_advances d r _ _ _ hput).toGrows (freeBlock_calm d r bg.device _ _ _ hput)
    obtain ⟨use₃, same₃, hon₃⟩ := freeBlock_inUse bg.inUse hput
    have books₃ := books₂.of_pools hon₃
    have hon : s₃.on d = { s.on d with blockPool := (s₃.on d).blockPool } := by rw [hon₃, bg.books]
    have same₃ (q : BlockRef) (hq : q ∈ live) : s₃.block? q = s.block? q := (same₃ q).trans (bg.same q hq)
    obtain ⟨r', s₄, id, k, hmut, hdevice, hin, hb₄, hn₄, hnew⟩ := allocateMutableBlock_returns (p := p) ready₃ use₃
      books₃ (by rw [hon]; exact room) fun q hq => after.live q (after.prev q hq).1
    have ready₄ := ready₃.after (allocateMutableBlock_advances p d _ _ _ _ hmut).toGrows
      (allocateMutableBlock_calm p d _ _ _ _ hmut)
    have cr := allocateMutableBlock_creates use₃ books₃ (fun hs => absurd hs ready₄.clean) hmut
    have same₄ (q : BlockRef) (hq : q ∈ live) : s₄.block? q = s.block? q := (cr.same q hq).trans (same₃ q hq)
    have settled₄ := after.settled.same fun q hq => same₄ q (after.live q hq)
    have hne (q : BlockRef) (hq : q ∈ live) : r' ≠ q := by
      rintro rfl
      exact (List.nodup_cons.mp cr.inUse.nodup).1 hq
    subst hdevice
    obtain ⟨s', b, happend, hb', hid⟩ : ∃ s' b, appendTokenIds p r' tokenIds s₄ = some ((), s') ∧
        s'.block? r' = some b ∧ b.blockId = some id := appendTokenIds_returns hb₄ hn₄ (fun q hq => by
        obtain ⟨hin, pb, h', hpb, hh'⟩ := after.prev q hq
        exact ⟨hne q (after.live q hin), settled₄.remembers hin, pb, h', (same₄ q (after.live q hin)).trans hpb, hh'⟩)
      hlen fun h' hh' => by
        have hsame : s₄.derivedHash p ⟨prevBlock, tokenIds, some id, false, none, k⟩ = newHash p s prevBlock tokenIds :=
          derivedHash_congr rfl rfl (heldPrevHash_eq fun q hq => same₄ q (after.live q (after.prev q hq).1))
        rw [hsame, hh] at hh'
        obtain rfl := Option.some.inj hh'
        apply hnew
        rw [hon]
        exact hget
    dsimp only
    rw [bind_eq hput, bind_eq hmut, bind_eq happend]
    refine ⟨_, _, b, id, rfl, hb', hid, ?_⟩
    rw [hon] at hin
    exact hin

/-- No change but in the pools. -/
def PoolsOnly (s s' : CpuGpuBlockAllocator) : Prop := ∀ e, s'.on e = { s.on e with blockPool := (s'.on e).blockPool }

/-- The first step of the attempt: the exception of an empty pool, or an object with its hash. -/
theorem attempt_begins {β : Type} {f : BlockRef → BlockAttempt β} {e : Raised} {Q : CpuGpuBlockAllocator → Prop}
    (ready : s.Ready d) (use : s.InUse live) (after : ComesAfter p s live known prevBlock)
    (hlen : tokenIds.length ≤ p.blockSize) (hQ : Q s)
    (hf : ∀ r s₁ s₂, Begins p d live prevBlock tokenIds s r s₁ s₂ → ∃ s', f r s₁ = (.error e, s') ∧ Q s') :
    ∃ e' s', (do
      let r ← BlockAttempt.step (initBlock p d prevBlock tokenIds none)
      f r) s = (.error e', s') ∧ Q s' ∧ ((s.on d).allBlockIndices ≠ [] → e' = e) := by
  by_cases hsize : (s.pool d).poolSize = 0
  · have hrun : initBlock p d prevBlock tokenIds none s = none := initBlock_empty use ready.clean hsize
    refine ⟨.other, s, Attempt.error_bind (Attempt.lift_error hrun), hQ, fun hblocks => ?_⟩
    have := ready.pooled hblocks
    omega
  · obtain ⟨r, s₁, s₂, bg⟩ := allocateImmutableBlock_begins ready use after (Nat.pos_of_ne_zero hsize) hlen
    obtain ⟨s', hrun, hs'⟩ := hf r s₁ s₂ bg
    refine ⟨e, s', ?_, hs', fun _ => rfl⟩
    rw [BlockAttempt.step, Attempt.lift_bind bg.init]
    exact hrun

/-- Without a block under the hash and without a free one, the exception comes before the books change. -/
theorem allocateImmutableBlock_raises (ready : s.Ready d) (use : s.InUse live)
    (after : ComesAfter p s live known prevBlock) (hlen : tokenIds.length ≤ p.blockSize)
    (hh : newHash p s prevBlock tokenIds = some h) (hnone : (s.on d).cachedBlocks.get? h = none)
    (hfree : (s.on d).getNumFreeBlocks = 0) :
    ∃ e s', BlockAttempt.allocateImmutableBlock p d prevBlock tokenIds s = (.error e, s') ∧ PoolsOnly s s' ∧
      ((s.on d).allBlockIndices ≠ [] → e = .noFreeBlocks) := by
  refine attempt_begins (Q := PoolsOnly s) ready use after hlen (fun e => rfl) fun r s₁ s₂ bg => ?_
  obtain ⟨s₃, hput⟩ := freeBlock_returns d r s₂
  have hon₃ := (freeBlock_inUse bg.inUse hput).2.2
  have hon : PoolsOnly s s₃ := fun e => by rw [hon₃, bg.books]
  have hget : (s₂.on d).cachedBlocks.get? h = none := by
    rw [bg.books]
    exact hnone
  have hnone₃ : (s₃.on d).getNumFreeBlocks = 0 := by
    rw [hon]
    exact hfree
  refine ⟨s₃, ?_, hon⟩
  have hself : self d s₂ = some (s₂.on d, s₂) := rfl
  rw [BlockAttempt.step, Attempt.lift_bind bg.hash, BlockAttempt.step, Attempt.lift_bind (ofOption_iff.mpr ⟨hh, rfl⟩),
    BlockAttempt.step, Attempt.lift_bind hself, hget]
  dsimp only
  rw [BlockAttempt.step, Attempt.lift_bind hput]
  exact Attempt.error_bind (Attempt.error_bind (allocateBlockId_raises hnone₃))

/-- A block whose hash cannot be told, because that of the block before it is the sentinel. -/
theorem allocateImmutableBlock_unhashed (ready : s.Ready d) (use : s.InUse live)
    (after : ComesAfter p s live known prevBlock) (hlen : tokenIds.length ≤ p.blockSize)
    (hh : newHash p s prevBlock tokenIds = none) :
    ∃ e s', BlockAttempt.allocateImmutableBlock p d prevBlock tokenIds s = (.error e, s') ∧ PoolsOnly s s' := by
  have raised : ∃ e s', BlockAttempt.allocateImmutableBlock p d prevBlock tokenIds s = (.error e, s') ∧ PoolsOnly s s' ∧
      ((s.on d).allBlockIndices ≠ [] → e = .other) := by
    refine attempt_begins (Q := PoolsOnly s) ready use after hlen (fun e => rfl) fun r s₁ s₂ bg => ⟨s₂, ?_, bg.books⟩
    rw [BlockAttempt.step, Attempt.lift_bind bg.hash, hh]
    exact Attempt.error_bind (Attempt.lift_error rfl)
  obtain ⟨e, s', hrun, hon, -⟩ := raised
  exact ⟨e, s', hrun, hon⟩

end BlockM

end CoreFlow
