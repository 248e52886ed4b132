import CoreFlow.Block.Taking

/-!
# Emptying the prefix cache

`reset_prefix_cache` frees what the evictor of an unused device holds, block by block, and forgets the rest. Between
two rounds the accounts are those of a device that nobody refers to, apart from the trackers, which the loop turns on
and which are replaced at the end. A reset leaves every block as it was when the allocator was created; only the order
of the free ids tells the difference.
-/

namespace CoreFlow
open Prog

namespace BlockM

/-- `NaiveBlockAllocator.free_block_id`. -/
def freeHashlessBlockId (d : Device) (blockId : BlockId) : BlockM Unit := do
  let n ← decr d blockId
  Prog.when (n = 0)
    (modifySelf d fun a => { a with freeBlockIndices := blockId :: a.freeBlockIndices })

/-- The loop of `reset_prefix_cache`; the first argument bounds the number of rounds. -/
def freeEvictedBlocks (d : Device) : Nat → BlockM Unit
  | 0 => Prog.raise
  | n + 1 => do
    match ← maybeAllocateEvictedBlockId d with
    | none => pure ()
    | some blockId => do
      freeHashlessBlockId d blockId
      freeEvictedBlocks d n

/-- `PrefixCachingBlockAllocator.reset_prefix_cache`; the evictor loses a block in every round of the loop. -/
def resetPrefixCacheOn (d : Device) : BlockM Bool := do
  let a ← self d
  let numUsedBlocks : Int := (a.getNumTotalBlocks : Int) - a.getNumFreeBlocks
  if 0 < numUsedBlocks then pure false
  else do
    freeEvictedBlocks d (a.evictor.numBlocks + 1)
    let a ← self d
    -- all cached blocks have been evicted
    Prog.require (a.cachedBlocks.size = 0)
    modifySelf d fun a => { a with evictor := LRUEvictor.init }
    modifySelf d fun a =>
      { a with blockTracker := Dict.ofKeys a.blockTracker.keys BlockTracker.init }
    pure true

/-- `CpuGpuBlockAllocator.reset_prefix_cache`: a device that cannot be reset stops the loop from resetting the other. -/
def resetPrefixCache : Option Device → BlockM Bool
  | some d => resetPrefixCacheOn d
  | none => Prog.foldlM (fun success d => if success then resetPrefixCacheOn d else pure false)
      true [.cpu, .gpu]

end BlockM

/-! ## Allocators -/

theorem LRUEvictor.not_mem_of_empty {e : LRUEvictor} {id : BlockId} (hempty : e.numBlocks = 0) : id ∉ e.freeTable := by
  rw [Dict.mem_def, Dict.size_eq_zero.mp hempty]
  exact List.not_mem_nil

namespace PrefixCachingBlockAllocator
variable {a a' a₁ : PrefixCachingBlockAllocator} {refs : List Ref} {id : BlockId} {h : PrefixHash} {e : LRUEvictor}

/-- All blocks are free. -/
def Unused (a : PrefixCachingBlockAllocator) : Prop := a.getNumFreeBlocks = a.getNumTotalBlocks

instance (a : PrefixCachingBlockAllocator) : Decidable a.Unused := inferInstanceAs (Decidable (_ = _))

theorem Accounts.unused_iff (acc : a.Accounts refs) (nodup : a.allBlockIndices.Nodup) :
    a.Unused ↔ ∀ id ∈ a.allBlockIndices, numRefs refs id = 0 := by
  rw [Unused, acc.numFree_eq nodup, getNumTotalBlocks, List.countP_eq_length]
  simp only [decide_eq_true_eq]

theorem Accounts.numFree_le (acc : a.Accounts refs) (nodup : a.allBlockIndices.Nodup) :
    a.getNumFreeBlocks ≤ a.getNumTotalBlocks := by
  rw [acc.numFree_eq nodup]
  exact List.countP_le_length

/-- References to other devices do not count. -/
theorem Accounts.none_iff (hnone : ∀ id ∈ a.allBlockIndices, numRefs refs id = 0) : a.Accounts refs ↔ a.Accounts [] := by
  have hout : ∀ x ∈ refs, x.1 ∉ a.allBlockIndices := by
    intro x hx hid
    have hpos : 0 < numRefs refs x.1 := numRefs_pos hx
    rw [hnone x.1 hid] at hpos
    exact lt_irrefl 0 hpos
  have hothers : a.Accounts (refs ++ []) ↔ a.Accounts [] := Accounts.others hout
  rwa [List.append_nil] at hothers

/-- Every block is as it was when the allocator was created. -/
structure AsCreated (a : PrefixCachingBlockAllocator) : Prop where
  cachedBlocks : a.cachedBlocks = Dict.empty
  evictor : a.evictor = LRUEvictor.init
  freeBlockIndices : a.freeBlockIndices.Perm a.allBlockIndices
  refcounts : ∀ id, a.refcounts.get? id = if id ∈ a.allBlockIndices then some 0 else none
  blockTracker : ∀ id ∈ a.allBlockIndices, a.blockTracker.get? id = some BlockTracker.init

/-- An allocator is created so. -/
theorem init_asCreated (blockIds : List BlockId) : (init blockIds).AsCreated := by
  refine ⟨rfl, rfl, List.Perm.refl _, fun id => ?_, fun id hid => ?_⟩
  · exact Dict.get?_ofKeys _ _ _
  · exact (Dict.get?_ofKeys _ _ _).trans (if_pos hid)

theorem AsCreated.accounts (h : a.AsCreated) (nodup : a.allBlockIndices.Nodup) : a.Accounts [] := by
  have huncached (hash : PrefixHash) (id : BlockId) : a.cachedBlocks.get? hash ≠ some id := by
    rw [h.cachedBlocks]
    exact fun hc => by cases hc
  refine ⟨h.refcounts, fun id hid => ⟨_, h.blockTracker id hid, ?_⟩, ?_, fun id hid => ⟨?_, rfl, ?_⟩,
    fun hash id hc => absurd hc (huncached hash id), fun hash _ id hc => absurd hc (huncached hash id),
    fun id m hm => ?_, fun id hid _ => .inl (h.freeBlockIndices.mem_iff.mpr hid),
    fun id hash hmem => absurd hmem List.not_mem_nil, fun id hmem => absurd hmem List.not_mem_nil⟩
  · simp [BlockTracker.init]
  · exact h.freeBlockIndices.nodup_iff.mpr nodup
  · exact h.freeBlockIndices.mem_iff.mp hid
  · rintro ⟨hash, hc⟩
    exact huncached hash id hc
  · rw [h.evictor] at hm
    cases hm

theorem AsCreated.hashIsCached (h : a.AsCreated) (hash : PrefixHash) : a.hashIsCached hash = false := by
  unfold PrefixCachingBlockAllocator.hashIsCached
  rw [h.cachedBlocks]
  rfl

/-- What a reset leaves alone. -/
structure Spared (a a' : PrefixCachingBlockAllocator) : Prop where
  touchedBlocks : a'.touchedBlocks = a.touchedBlocks
  blockPool : a'.blockPool = a.blockPool
  allBlockIndices : a'.allBlockIndices = a.allBlockIndices
  copyOnWrites : a'.copyOnWrites = a.copyOnWrites

theorem Spared.trans (h : Spared a a₁) (h' : Spared a₁ a') : Spared a a' :=
  ⟨h'.1.trans h.1, h'.2.trans h.2, h'.3.trans h.3, h'.4.trans h.4⟩

/-- The allocator after a round of the loop. -/
def giveUp (a : PrefixCachingBlockAllocator) (blockId : BlockId) (contentHash : PrefixHash) (evictor : LRUEvictor) :
    PrefixCachingBlockAllocator :=
  { a with
    cachedBlocks := a.cachedBlocks.erase contentHash
    blockTracker := a.blockTracker.set blockId ⟨true, defaultLastAccessedTime, false⟩
    freeBlockIndices := blockId :: a.freeBlockIndices
    refcounts := a.refcounts.set blockId 0
    evictor := evictor }

theorem giveUp_spared : a.Spared (a.giveUp id h e) := ⟨rfl, rfl, rfl, rfl⟩

/-- Between two rounds: the accounts are right but for the trackers, and those of the blocks to come are off. -/
structure Draining (a : PrefixCachingBlockAllocator) : Prop where
  accounts : Accounts { a with blockTracker := Dict.ofKeys a.allBlockIndices BlockTracker.init } []
  idle : ∀ id ∈ a.evictor.freeTable, ∃ t, a.blockTracker.get? id = some t ∧ t.active = false
  tracked : ∀ id ∈ a.allBlockIndices, id ∈ a.blockTracker
  faithful : a.evictor.Faithful

theorem Accounts.draining (acc : a.Accounts []) (faithful : a.evictor.Faithful) : a.Draining := by
  refine ⟨⟨acc.refcount, fun id hid => ⟨BlockTracker.init, ?_, ?_⟩, acc.freeNodup, acc.free, acc.cachedHere, acc.cachedOnce,
    acc.evictable, acc.covered, acc.promoted, acc.mutable⟩, fun id hid => ?_, fun id hid => ?_, faithful⟩
  · exact (Dict.get?_ofKeys _ _ _).trans (if_pos hid)
  · simp [BlockTracker.init]
  · obtain ⟨m, hm⟩ := Dict.mem_iff.mp hid
    obtain ⟨t, ht, hactive⟩ := acc.tracked id (acc.cachedHere _ id (acc.evictable id m hm).2)
    refine ⟨t, ht, ?_⟩
    rw [← Bool.not_eq_true, hactive]
    exact lt_irrefl 0
  · obtain ⟨t, ht, -⟩ := acc.tracked id hid
    exact Dict.mem_of_get? ht

/-- What the evictor gives up is cached, counted as free, and idle. -/
theorem Draining.evicted (draining : a.Draining) (hevict : a.evictor.evict = some ((id, h), e)) :
    id ∈ a.allBlockIndices ∧ a.cachedBlocks.get? h = some id ∧ a.refcounts.get? id = some 0 ∧
      ∃ t, a.blockTracker.get? id = some t ∧ t.active = false := by
  obtain ⟨-, m, hm, rfl⟩ := LRUEvictor.evict_faithful draining.faithful hevict
  obtain ⟨-, hcached⟩ := draining.accounts.evictable id m hm
  have hid := draining.accounts.cachedHere _ id hcached
  refine ⟨hid, hcached, ?_, draining.idle id (Dict.mem_of_get? hm)⟩
  exact (draining.accounts.refcount id).trans (if_pos hid)

/-- A round takes an evicted block and gives it back. -/
theorem Draining.giveUp (draining : a.Draining) (hevict : a.evictor.evict = some ((id, h), e)) :
    (a.giveUp id h e).Draining ∧ e.numBlocks < a.evictor.numBlocks := by
  obtain ⟨hid, hcached, hcount, -⟩ := draining.evicted hevict
  obtain ⟨faithful, m, hm, -⟩ := LRUEvictor.evict_faithful draining.faithful hevict
  have htable := LRUEvictor.evict_freeTable hevict
  have taken := draining.accounts.takeEvicted (t := ⟨true, defaultLastAccessedTime, false⟩) hcached hcount rfl rfl
  obtain ⟨-, released⟩ := taken.releaseMutable (t := BlockTracker.init) hid (Dict.get?_set_self ..) rfl
  refine ⟨⟨released.congr ⟨rfl, ?_, rfl, rfl, fun id' => ?_, fun id' => ?_⟩, fun id' hid' => ?_, fun id' hid' => ?_, faithful⟩, ?_⟩
  · exact (Dict.set_set ..).symm
  · -- the block got the tracker that it had
    show ((Dict.ofKeys _ _).get? id').map _ = (((Dict.set _ _ _).set id BlockTracker.init).get? id').map _
    by_cases he : id = id'
    · subst he
      rw [Dict.get?_set_self]
      exact congrArg (Option.map _) ((Dict.get?_ofKeys _ _ _).trans (if_pos hid))
    · rw [Dict.get?_set_ne _ _ he, Dict.get?_set_ne _ _ he]
      rfl
  · show (e.freeTable.get? id').map _ = ((a.evictor.freeTable.erase id).get? id').map _
    rw [htable]
  · have hid' : id' ∈ e.freeTable := hid'
    rw [htable, Dict.mem_erase] at hid'
    obtain ⟨t, ht, hidle⟩ := draining.idle id' hid'.2
    exact ⟨t, (Dict.get?_set_ne _ _ (Ne.symm hid'.1)).trans ht, hidle⟩
  · exact Dict.mem_set.mpr (.inr (draining.tracked id' hid'))
  · have hlen := (Dict.entries_perm_erase hm).length_eq
    rw [List.length_cons] at hlen
    rw [LRUEvictor.numBlocks, LRUEvictor.numBlocks, htable, Dict.size, Dict.size]
    omega

/-- Without evictable blocks there are no cached ones. -/
theorem Draining.cachedBlocks (draining : a.Draining) (hempty : a.evictor.numBlocks = 0) : a.cachedBlocks = Dict.empty := by
  apply Dict.ext
  refine List.eq_nil_iff_forall_not_mem.mpr ?_
  rintro ⟨h, id⟩ hmem
  have acc := draining.accounts
  have hcached := Dict.get?_iff_mem_entries.mpr hmem
  rcases acc.covered id (acc.cachedHere h id hcached) rfl with hfree | hevict
  · exact (acc.free id hfree).2.2 ⟨h, hcached⟩
  · exact LRUEvictor.not_mem_of_empty hempty hevict

/-- The end of a reset. -/
theorem Draining.asCreated (draining : a.Draining) (hempty : a.evictor.numBlocks = 0) (nodup : a.allBlockIndices.Nodup) :
    AsCreated { a with
      blockTracker := Dict.ofKeys a.blockTracker.keys BlockTracker.init
      evictor := LRUEvictor.init } := by
  have acc := draining.accounts
  refine ⟨draining.cachedBlocks hempty, rfl, ?_, acc.refcount, fun id hid => ?_⟩
  · refine (List.perm_ext_iff_of_nodup acc.freeNodup nodup).mpr fun id => ⟨fun hid => (acc.free id hid).1, fun hid => ?_⟩
    exact (acc.covered id hid rfl).resolve_right (LRUEvictor.not_mem_of_empty hempty)
  · exact (Dict.get?_ofKeys _ _ _).trans (if_pos (draining.tracked id hid))

end PrefixCachingBlockAllocator

/-! ## Both devices -/

namespace CpuGpuBlockAllocator
variable {s s₁ s' : CpuGpuBlockAllocator} {d : Device} {a b : PrefixCachingBlockAllocator} {ds ds' : List Device}
  {refs : List Ref}

theorem setOn_setOn : (s.setOn d a).setOn d b = s.setOn d b := by
  cases d <;> rfl

theorem setOn_on : s.setOn d (s.on d) = s := by
  cases d <;> rfl

/-- The devices of the list have been emptied. -/
structure Resets (ds : List Device) (s s' : CpuGpuBlockAllocator) : Prop where
  emptied : ∀ d ∈ ds, (s'.on d).AsCreated
  spared : ∀ d, (s.on d).Spared (s'.on d)
  kept : ∀ d, d ∉ ds → s'.on d = s.on d
  trace : s'.trace = s.trace

theorem Resets.nil (s : CpuGpuBlockAllocator) : Resets [] s s :=
  ⟨fun _ hd => absurd hd List.not_mem_nil, fun _ => ⟨rfl, rfl, rfl, rfl⟩, fun _ _ => rfl, rfl⟩

theorem Resets.setOn (created : a.AsCreated) (spared : (s.on d).Spared a) : Resets [d] s (s.setOn d a) := by
  refine ⟨fun e he => ?_, fun e => ?_, fun e he => ?_, rfl⟩
  · obtain rfl := List.mem_singleton.mp he
    rwa [on_setOn_self]
  · rw [on_setOn]
    split
    · rename_i he
      rwa [← he]
    · exact ⟨rfl, rfl, rfl, rfl⟩
  · rw [on_setOn, if_neg]
    rintro rfl
    exact he List.mem_cons_self

/-- One device after the other. -/
theorem Resets.append (h : Resets ds s s₁) (h' : Resets ds' s₁ s') : Resets (ds ++ ds') s s' := by
  refine ⟨fun d hd => ?_, fun d => (h.spared d).trans (h'.spared d), fun d hd => ?_, h'.trace.trans h.trace⟩
  · by_cases hd' : d ∈ ds'
    · exact h'.emptied d hd'
    · rw [h'.kept d hd']
      exact h.emptied d ((List.mem_append.mp hd).resolve_right hd')
  · rw [List.mem_append, not_or] at hd
    rw [h'.kept d hd.2, h.kept d hd.1]

/-- No object is touched. -/
theorem Resets.quiet (h : Resets ds s s') (r : BlockRef) : Quiet r id s s' := by
  refine ⟨fun q => ?_, fun e => congrArg BlockPool.poolSize (h.spared e).blockPool,
    fun e => congrArg BlockPool.freeIds (h.spared e).blockPool, congrArg BlockTrace.held h.trace, ?_,
    fun e => (h.spared e).allBlockIndices⟩
  · rw [Option.map_id]
    unfold block?
    rw [(h.spared q.device).blockPool]
    split <;> rfl
  · rw [h.trace]

theorem Resets.grows (h : Resets ds s s') : Grows s s' :=
  ⟨h.trace ▸ List.prefix_refl _, fun d => (congrArg BlockPool.poolSize (h.spared d).blockPool).ge,
    fun d => (h.spared d).allBlockIndices⟩

theorem Resets.faithful (h : Resets ds s s') (faithful : ∀ d, (s.on d).evictor.Faithful) (d : Device) :
    (s'.on d).evictor.Faithful := by
  by_cases hd : d ∈ ds
  · rw [(h.emptied d hd).evictor]
    exact LRUEvictor.init_faithful
  · rw [h.kept d hd]
    exact faithful d

/-- What is referred to is not emptied, so the references stay on the books. -/
theorem Resets.books (h : Resets ds s s') (books : s.Books refs) (hunused : ∀ d ∈ ds, (s.on d).Unused) : s'.Books refs := by
  have hall (d : Device) := (h.spared d).allBlockIndices
  refine ⟨fun d => ?_, ?_, fun d => ?_⟩
  · rw [hall]
    exact books.distinct d
  · rw [hall, hall]
    exact books.apart
  · by_cases hd : d ∈ ds
    · have hnone := ((books.accounts d).unused_iff (books.distinct d)).mp (hunused d hd)
      rw [PrefixCachingBlockAllocator.Accounts.none_iff (hall d ▸ hnone)]
      exact (h.emptied d hd).accounts (hall d ▸ books.distinct d)
    · rw [h.kept d hd]
      exact books.accounts d

end CpuGpuBlockAllocator

/-! ## Runs -/

namespace BlockM
open CpuGpuBlockAllocator
variable {s s' : CpuGpuBlockAllocator} {d : Device} {refs : List Ref} {id : BlockId} {h : PrefixHash} {e : LRUEvictor} {n : Nat}

theorem freeHashlessBlockId_advances (d : Device) (id : BlockId) : Within Advances (freeHashlessBlockId d id) :=
  .bind (decr_advances d id) fun _ => .when (modifySelf_advances d fun _ => ⟨le_refl _, rfl, rfl⟩)

theorem freeEvictedBlocks_advances (d : Device) (n : Nat) : Within Advances (freeEvictedBlocks d n) := by
  induction n with
  | zero => exact .raise
  | succ n ih =>
    refine .bind (maybeAllocateEvictedBlockId_advances d) fun o => ?_
    cases o with
    | none => exact .pure _
    | some id => exact .bind (freeHashlessBlockId_advances d id) fun _ => ih

theorem resetPrefixCacheOn_advances (d : Device) : Within Advances (resetPrefixCacheOn d) := by
  refine .bind (self_advances d) fun a => .ite (.pure _) (.bind (freeEvictedBlocks_advances d _) fun _ =>
    .bind (self_advances d) fun _ => .bind (.require _) fun _ => .bind ?_ fun _ =>
      .bind (modifySelf_advances d fun _ => ⟨le_refl _, rfl, rfl⟩) fun _ => .pure _)
  intro s u s' hrun
  exact modifySelf_evictor d (fun _ => LRUEvictor.init_faithful) hrun

theorem resetPrefixCache_advances (device : Option Device) : Within Advances (resetPrefixCache device) := by
  cases device with
  | some d => exact resetPrefixCacheOn_advances d
  | none => exact .foldlM (fun _ d => .ite (resetPrefixCacheOn_advances d) (.pure _)) true _

/-- What the evictor gives up is taken, and its hash is forgotten. -/
theorem maybeAllocateEvictedBlockId_run (draining : (s.on d).Draining)
    (hevict : (s.on d).evictor.evict = some ((id, h), e)) :
    maybeAllocateEvictedBlockId d s = some (some id, s.setOn d { s.on d with
      cachedBlocks := (s.on d).cachedBlocks.erase h
      blockTracker := (s.on d).blockTracker.set id ⟨true, defaultLastAccessedTime, false⟩
      refcounts := (s.on d).refcounts.set id 1
      evictor := e }) := by
  obtain ⟨-, hcached, hcount, t, ht, hidle⟩ := draining.evicted hevict
  have hne : (s.on d).evictor.numBlocks ≠ 0 := by
    intro hzero
    rw [LRUEvictor.evict, if_pos hzero] at hevict
    cases hevict
  have henable : (some t).bind (·.enable false) = some ⟨true, defaultLastAccessedTime, false⟩ := by
    rw [Option.bind_some, BlockTracker.enable, hidle]
    rfl
  rw [maybeAllocateEvictedBlockId, self_bind, if_neg hne, bind_eq (ofOption_iff.mpr ⟨hevict, rfl⟩)]
  simp only [modifySelf, update_bind, ofOption_bind, hcached, Option.bind_some, refcount, self_bind, bind_assoc,
    on_setOn_self, hcount, require_bind, if_true, incr, Prog.pure_bind, trackBlockId, ht, henable, setOn_setOn]
  rfl

/-- The only reference to a block goes, and the block is free. -/
theorem freeHashlessBlockId_run (hone : (s.on d).refcounts.get? id = some 1) :
    freeHashlessBlockId d id s = some ((), s.setOn d { s.on d with
      freeBlockIndices := id :: (s.on d).freeBlockIndices
      refcounts := (s.on d).refcounts.set id 0 }) := by
  rw [freeHashlessBlockId, bind_eq (decr_run hone Nat.one_pos), when_pos rfl, modifySelf, update]
  simp only [on_setOn_self, setOn_setOn]

/-- The block that the evictor gives up becomes a free one. -/
theorem freeEvictedBlocks_round (draining : (s.on d).Draining) (hevict : (s.on d).evictor.evict = some ((id, h), e)) :
    freeEvictedBlocks d (n + 1) s = freeEvictedBlocks d n (s.setOn d ((s.on d).giveUp id h e)) := by
  rw [freeEvictedBlocks, bind_eq (maybeAllocateEvictedBlockId_run draining hevict)]
  dsimp only
  rw [bind_eq (freeHashlessBlockId_run (by rw [on_setOn_self]; exact Dict.get?_set_self ..))]
  simp only [on_setOn_self, setOn_setOn, Dict.set_set]
  rfl

/-- The loop ends with an empty evictor. -/
theorem freeEvictedBlocks_returns (draining : (s.on d).Draining) (hn : (s.on d).evictor.numBlocks < n) :
    ∃ a, freeEvictedBlocks d n s = some ((), s.setOn d a) ∧ a.Draining ∧ a.evictor.numBlocks = 0 ∧ (s.on d).Spared a := by
  induction n generalizing s with
  | zero => exact absurd hn (Nat.not_lt_zero _)
  | succ n ih =>
    by_cases hzero : (s.on d).evictor.numBlocks = 0
    · refine ⟨s.on d, ?_, draining, hzero, rfl, rfl, rfl, rfl⟩
      rw [freeEvictedBlocks, bind_eq (maybeAllocateEvictedBlockId_none hzero), setOn_on]
      rfl
    · obtain ⟨id, h, e, hevict⟩ := LRUEvictor.evict_returns draining.faithful hzero
      obtain ⟨draining₁, hless⟩ := draining.giveUp hevict
      have hon : (s.setOn d ((s.on d).giveUp id h e)).on d = (s.on d).giveUp id h e := on_setOn_self ..
      obtain ⟨a, hrun, hdraining, hempty, spared⟩ := ih (s := s.setOn d ((s.on d).giveUp id h e)) (by rwa [hon]) (by
        rw [hon]
        show e.numBlocks < n
        omega)
      rw [hon] at spared
      refine ⟨a, ?_, hdraining, hempty, PrefixCachingBlockAllocator.giveUp_spared.trans spared⟩
      rw [freeEvictedBlocks_round draining hevict, hrun, setOn_setOn]

/-- An unused device is emptied, and another one is left as it is. -/
theorem resetPrefixCacheOn_returns (books : s.Books refs) (faithful : (s.on d).evictor.Faithful) :
    ((s.on d).Unused ∧ ∃ s', resetPrefixCacheOn d s = some (true, s') ∧ Resets [d] s s') ∨
      (¬ (s.on d).Unused ∧ resetPrefixCacheOn d s = some (false, s)) := by
  have acc := books.accounts d
  have nodup := books.distinct d
  have hle := acc.numFree_le nodup
  unfold resetPrefixCacheOn
  rw [self_bind]
  by_cases hunused : (s.on d).Unused
  · refine .inl ⟨hunused, ?_⟩
    have hnone := (acc.unused_iff nodup).mp hunused
    have draining := ((PrefixCachingBlockAllocator.Accounts.none_iff hnone).mp acc).draining faithful
    obtain ⟨a, hrun, draining', hempty, spared⟩ := freeEvictedBlocks_returns draining (Nat.lt_succ_self _)
    have hcached : a.cachedBlocks.size = 0 := by
      rw [draining'.cachedBlocks hempty]
      rfl
    unfold PrefixCachingBlockAllocator.Unused at hunused
    rw [if_neg (by omega), bind_eq hrun, self_bind, on_setOn_self, require_bind, if_pos hcached, modifySelf, update_bind,
      modifySelf, update_bind]
    simp only [on_setOn_self, setOn_setOn]
    refine ⟨_, rfl, Resets.setOn (draining'.asCreated hempty (spared.allBlockIndices ▸ nodup)) ?_⟩
    exact ⟨spared.touchedBlocks, spared.blockPool, spared.allBlockIndices, spared.copyOnWrites⟩
  · refine .inr ⟨hunused, ?_⟩
    unfold PrefixCachingBlockAllocator.Unused at hunused
    rw [if_pos (by omega)]
    rfl

/-- The devices that a reset is about, in the order in which it comes to them. -/
def asked : Option Device → List Device
  | some d => [d]
  | none => [.cpu, .gpu]

/-- A reset empties the devices up to the first one that is used, and says whether there is none. -/
theorem resetPrefixCache_returns (books : s.Books refs) (faithful : ∀ d, (s.on d).evictor.Faithful) (device : Option Device) :
    ∃ answer s', resetPrefixCache device s = some (answer, s') ∧ (answer = true ↔ ∀ d ∈ asked device, (s.on d).Unused) ∧
      Resets ((asked device).takeWhile fun d => (s.on d).Unused) s s' := by
  cases device with
  | some d =>
    rcases resetPrefixCacheOn_returns books (faithful d) with ⟨hunused, s', hrun, resets⟩ | ⟨hused, hrun⟩
    · refine ⟨true, s', hrun, by simpa [asked] using hunused, ?_⟩
      simpa [asked, hunused] using resets
    · refine ⟨false, s, hrun, by simpa [asked] using hused, ?_⟩
      simpa [asked, hused] using Resets.nil s
  | none =>
    rcases resetPrefixCacheOn_returns books (faithful .cpu) with ⟨hcpu, s₁, hrun₁, resets₁⟩ | ⟨hused, hrun⟩
    · have hgpu : s₁.on .gpu = s.on .gpu := resets₁.kept .gpu (by decide)
      have books₁ := resets₁.books books fun d hd => by rwa [List.mem_singleton.mp hd]
      rcases resetPrefixCacheOn_returns books₁ (d := .gpu) (hgpu ▸ faithful .gpu) with
        ⟨hunused, s', hrun, resets⟩ | ⟨hused, hrun⟩
      · rw [hgpu] at hunused
        refine ⟨true, s', ?_, by simp [asked, hcpu, hunused], ?_⟩
        · rw [resetPrefixCache, foldlM, if_pos rfl, bind_eq hrun₁, foldlM, if_pos rfl, bind_eq hrun]
          rfl
        · simpa [asked, hcpu, hunused] using resets₁.append resets
      · rw [hgpu] at hused
        refine ⟨false, s₁, ?_, by simp [asked, hused], ?_⟩
        · rw [resetPrefixCache, foldlM, if_pos rfl, bind_eq hrun₁, foldlM, if_pos rfl, bind_eq hrun]
          rfl
        · simpa [asked, hcpu, hused] using resets₁
    · refine ⟨false, s, ?_, by simp [asked, hused], ?_⟩
      · rw [resetPrefixCache, foldlM, if_pos rfl, bind_eq hrun]
        rfl
      · simpa [asked, hused] using Resets.nil s

end BlockM

end CoreFlow
