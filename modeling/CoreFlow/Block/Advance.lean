import CoreFlow.Block.Contents

/-!
# Stale queue entries

The queue of an evictor keeps the entries of rows that have been removed or added anew, and `evict` takes
an entry for current when the access times agree. `Faithful` says that every row has its entry and that no
stale entry passes for another row. A released block that meets an old entry of its own with the same time
and another hash breaks this: a `collides` event. As long as there is none, every method keeps the evictors
faithful; the ghost itself only grows.
-/

namespace CoreFlow
open Prog

namespace LRUEvictor

structure Faithful (e : LRUEvictor) : Prop where
  queued : ∀ id m, e.freeTable.get? id = some m → entryOf id m ∈ e.priorityQueue
  matching : ∀ x ∈ e.priorityQueue, ∀ m, e.freeTable.get? x.blockId = some m → m.lastAccessed = x.lastAccessed →
    m.contentHash = x.contentHash

/-- The queue has an entry of the block with this time and another hash. -/
def hasOther (e : LRUEvictor) (blockId : BlockId) (contentHash : PrefixHash) (lastAccessed : Int) : Bool :=
  e.priorityQueue.any fun x =>
    x.blockId == blockId && x.lastAccessed == lastAccessed && x.contentHash != contentHash

variable {e e' : LRUEvictor} {blockId : BlockId} {h : PrefixHash} {n : Nat} {t : Int}

theorem init_faithful : init.Faithful := ⟨fun _ _ hm => (by cases hm), fun _ hx => (by cases hx)⟩

theorem cleanupIfNecessary_faithful (f : e.Faithful) : e.cleanupIfNecessary.Faithful := by
  unfold cleanupIfNecessary
  split
  · refine ⟨fun id m hm => ?_, fun x hx m hm _ => ?_⟩
    · show entryOf id m ∈ Heapq.heapify _ _
      rw [Heapq.mem_heapify]
      exact List.mem_map.mpr ⟨(id, m), Dict.get?_iff_mem_entries.mp hm, rfl⟩
    · have hx' : x ∈ e.cleanup.priorityQueue := hx
      unfold cleanup at hx'
      rw [Heapq.mem_heapify] at hx'
      obtain ⟨⟨id, m'⟩, hmem, rfl⟩ := List.mem_map.mp hx'
      have hget : e.freeTable.get? id = some m' := Dict.get?_iff_mem_entries.mpr hmem
      have hm' : e.freeTable.get? id = some m := hm
      rw [hget] at hm'
      rw [← Option.some.inj hm']
      rfl
  · exact f

theorem add_faithful (f : e.Faithful) (hno : e.hasOther blockId h t = false) : (e.add blockId h n t).Faithful := by
  refine cleanupIfNecessary_faithful ⟨fun id m hm => ?_, fun x hx m hm ht => ?_⟩
  · show entryOf id m ∈ Heapq.heappush _ _ _
    rw [Heapq.mem_heappush]
    have hm' : (e.freeTable.set blockId ⟨h, n, t⟩).get? id = some m := hm
    rw [Dict.get?_set] at hm'
    split at hm'
    · rename_i he
      left
      rw [← he, Option.some.inj hm']
    · exact .inr (f.queued id m hm')
  · have hx' : x ∈ Heapq.heappush HeapEntry.le (entryOf blockId ⟨h, n, t⟩) e.priorityQueue := hx
    have hm' : (e.freeTable.set blockId ⟨h, n, t⟩).get? x.blockId = some m := hm
    rw [Dict.get?_set] at hm'
    rw [Heapq.mem_heappush] at hx'
    rcases hx' with rfl | hx'
    · rw [show (entryOf blockId ⟨h, n, t⟩).blockId = blockId from rfl, if_pos rfl] at hm'
      rw [← Option.some.inj hm']
      rfl
    · split at hm'
      · rename_i he
        rw [← Option.some.inj hm'] at ht ⊢
        have := List.any_eq_false.mp hno x hx'
        simp only [Bool.and_eq_true, beq_iff_eq, bne_iff_ne, not_and, not_not] at this
        exact (this ⟨he.symm, ht.symm⟩).symm
      · exact f.matching x hx' m hm' ht

theorem remove_faithful (f : e.Faithful) (hrun : e.remove blockId = some e') : e'.Faithful := by
  unfold remove at hrun
  split at hrun
  · rw [← Option.some.inj hrun]
    refine ⟨fun id m hm => ?_, fun x hx m hm ht => ?_⟩
    · have hm' : (e.freeTable.erase blockId).get? id = some m := hm
      rw [Dict.get?_erase] at hm'
      split at hm'
      · cases hm'
      · exact f.queued id m hm'
    · have hm' : (e.freeTable.erase blockId).get? x.blockId = some m := hm
      rw [Dict.get?_erase] at hm'
      split at hm'
      · cases hm'
      · exact f.matching x hx m hm' ht
  · cases hrun

/-- An entry that is skipped is not that of a row. -/
theorem evictLoop_faithful {table : Dict BlockId BlockMetaData} {q : List HeapEntry} (f : Faithful ⟨table, q⟩)
    (hrun : evictLoop table q = some ((blockId, h), e')) :
    e'.Faithful ∧ ∃ m, table.get? blockId = some m ∧ m.contentHash = h := by
  induction q with
  | nil => cases hrun
  | cons x q ih =>
    rw [evictLoop] at hrun
    by_cases hx : (table.get? x.blockId).map (·.lastAccessed) = some x.lastAccessed
    · rw [if_pos hx] at hrun
      obtain ⟨hid, rfl⟩ := Prod.mk.inj (Option.some.inj hrun)
      obtain ⟨rfl, rfl⟩ := Prod.mk.inj hid
      obtain ⟨m, hm, ht⟩ := Option.map_eq_some_iff.mp hx
      refine ⟨⟨fun id m' hm' => ?_, fun y hy m' hm' ht' => ?_⟩, m, hm, f.matching x List.mem_cons_self m hm ht⟩
      · have hm'' : (table.erase x.blockId).get? id = some m' := hm'
        rw [Dict.get?_erase] at hm''
        split at hm''
        · cases hm''
        · rename_i hne
          refine (List.mem_cons.mp (f.queued id m' hm'')).resolve_left ?_
          rintro rfl
          exact hne rfl
      · have hm'' : (table.erase x.blockId).get? y.blockId = some m' := hm'
        rw [Dict.get?_erase] at hm''
        split at hm''
        · cases hm''
        · exact f.matching y (List.mem_cons_of_mem _ hy) m' hm'' ht'
    · rw [if_neg hx] at hrun
      refine ih ⟨fun id m hm => ?_, fun y hy m hm ht => f.matching y (List.mem_cons_of_mem _ hy) m hm ht⟩ hrun
      refine (List.mem_cons.mp (f.queued id m hm)).resolve_left ?_
      rintro rfl
      exact hx (congrArg (Option.map (·.lastAccessed)) hm)

theorem evictLoop_returns {table : Dict BlockId BlockMetaData} {q : List HeapEntry} (f : Faithful ⟨table, q⟩)
    {m : BlockMetaData} (hm : table.get? blockId = some m) : ∃ x, evictLoop table q = some x := by
  induction q with
  | nil => exact absurd (f.queued blockId m hm) List.not_mem_nil
  | cons x q ih =>
    rw [evictLoop]
    by_cases hx : (table.get? x.blockId).map (·.lastAccessed) = some x.lastAccessed
    · rw [if_pos hx]
      exact ⟨_, rfl⟩
    · rw [if_neg hx]
      refine ih ⟨fun id m hm => ?_, fun y hy m hm ht => f.matching y (List.mem_cons_of_mem _ hy) m hm ht⟩
      refine (List.mem_cons.mp (f.queued id m hm)).resolve_left ?_
      rintro rfl
      exact hx (congrArg (Option.map (·.lastAccessed)) hm)

theorem evict_faithful (f : e.Faithful) (hrun : e.evict = some ((blockId, h), e')) :
    e'.Faithful ∧ ∃ m, e.freeTable.get? blockId = some m ∧ m.contentHash = h := by
  unfold evict at hrun
  split at hrun
  · cases hrun
  · exact evictLoop_faithful f hrun

/-- `evict` finds a block while there is one. -/
theorem evict_returns (f : e.Faithful) (hne : e.numBlocks ≠ 0) : ∃ blockId h e', e.evict = some ((blockId, h), e') := by
  obtain ⟨x, hx⟩ := List.exists_mem_of_length_pos (Nat.pos_of_ne_zero hne)
  obtain ⟨⟨⟨blockId, h⟩, e'⟩, hrun⟩ := evictLoop_returns f (Dict.get?_iff_mem_entries.mpr hx)
  refine ⟨blockId, h, e', ?_⟩
  rw [evict, if_neg hne, hrun]

end LRUEvictor

/-- A released block meets an old entry of its own with the same access time and another hash. -/
def BlockEvent.collides : BlockEvent → Bool
  | .released _ blockId contentHash tracker evictor => evictor.hasOther blockId contentHash tracker.lastAccessed
  | _ => false

namespace CpuGpuBlockAllocator

def Collided (s : CpuGpuBlockAllocator) : Prop := ∃ e ∈ s.trace.events, e.collides = true

/-- The ghost forgets nothing, the pools lose no object, and the devices have the same blocks. -/
structure Grows (s s' : CpuGpuBlockAllocator) : Prop where
  events : s.trace.events <+: s'.trace.events
  sizes : ∀ d, (s.pool d).poolSize ≤ (s'.pool d).poolSize
  blocks : ∀ d, (s'.on d).allBlockIndices = (s.on d).allBlockIndices

instance : IsPreorder CpuGpuBlockAllocator Grows where
  refl _ := ⟨List.prefix_refl _, fun _ => le_refl _, fun _ => rfl⟩
  trans _ _ _ h h' := ⟨h.events.trans h'.events, fun d => (h.sizes d).trans (h'.sizes d),
    fun d => (h'.blocks d).trans (h.blocks d)⟩

/-- What every method does to the ghost and to the evictors. -/
structure Advances (s s' : CpuGpuBlockAllocator) : Prop extends Grows s s' where
  evictors : ¬ s'.Collided → (∀ d, (s.on d).evictor.Faithful) → ∀ d, (s'.on d).evictor.Faithful

theorem not_collided {s s' : CpuGpuBlockAllocator} (hle : s.trace.events <+: s'.trace.events) (h : ¬ s'.Collided) :
    ¬ s.Collided := fun ⟨e, he, hc⟩ => h ⟨e, hle.subset he, hc⟩

instance : IsPreorder CpuGpuBlockAllocator Advances where
  refl s := ⟨refl s, fun _ f => f⟩
  trans _ _ _ h h' := ⟨IsTrans.trans _ _ _ h.toGrows h'.toGrows,
    fun hc f => h'.evictors hc (h.evictors (not_collided h'.events hc) f)⟩

/-- The ghost grew, and the evictors are the same. -/
theorem Advances.of_same {s s' : CpuGpuBlockAllocator} (grows : Grows s s')
    (h : ∀ d, (s'.on d).evictor = (s.on d).evictor) : Advances s s' := by
  refine ⟨grows, fun _ f d => ?_⟩
  rw [h]
  exact f d

theorem Grows.setOn {s : CpuGpuBlockAllocator} {d : Device} {a : PrefixCachingBlockAllocator}
    (hsize : (s.on d).blockPool.poolSize ≤ a.blockPool.poolSize) (hblocks : a.allBlockIndices = (s.on d).allBlockIndices) :
    Grows s (s.setOn d a) := by
  refine ⟨List.prefix_refl _, fun e => ?_, fun e => ?_⟩
  · unfold pool
    rw [on_setOn]
    split
    · rename_i he
      rw [← he]
      exact hsize
    · exact le_refl _
  · rw [on_setOn]
    split
    · rename_i he
      rw [← he, hblocks]
    · rfl

/-- Only the ghost changes. -/
theorem Grows.of_trace {s : CpuGpuBlockAllocator} {trace : BlockTrace} (h : s.trace.events <+: trace.events) :
    Grows s { s with trace := trace } := ⟨h, fun _ => le_refl _, fun _ => rfl⟩

theorem Advances.setOn {s : CpuGpuBlockAllocator} {d : Device} {a : PrefixCachingBlockAllocator}
    (grows : Grows s (s.setOn d a)) (h : (∀ d, (s.on d).evictor.Faithful) → a.evictor.Faithful) :
    Advances s (s.setOn d a) := by
  refine ⟨grows, fun _ f e => ?_⟩
  rw [on_setOn]
  split
  · exact h f
  · exact f e

end CpuGpuBlockAllocator

namespace BlockM
open CpuGpuBlockAllocator
variable (p : BlockParams) (d : Device) (r : BlockRef)

theorem self_advances : Within Advances (self d) := .bind .read fun _ => .pure _

theorem getBlock_advances : Within Advances (getBlock r) := .bind .read fun _ => .ofOption _

theorem log_advances (e : BlockEvent) : Within Advances (log e) :=
  .update fun _ => .of_same (.of_trace (List.prefix_append _ _)) fun _ => rfl

/-- A change of an allocator that leaves its blocks and its evictor alone, and takes no object from its pool. -/
theorem modifySelf_advances {f : PrefixCachingBlockAllocator → PrefixCachingBlockAllocator}
    (hf : ∀ a, a.blockPool.poolSize ≤ (f a).blockPool.poolSize ∧ (f a).allBlockIndices = a.allBlockIndices ∧
      (f a).evictor = a.evictor) : Within Advances (modifySelf d f) :=
  .update fun s => .setOn (.setOn (hf (s.on d)).1 (hf (s.on d)).2.1) fun faithful => (hf (s.on d)).2.2.symm ▸ faithful d

theorem modifyBlock_advances (f : Block → Block) : Within Advances (modifyBlock r f) :=
  .update fun _ => .setOn (.setOn (List.length_modify ..).ge rfl) fun faithful => faithful r.device

theorem setBlockId_advances (o : Option BlockId) : Within Advances (setBlockId r o) := modifyBlock_advances r _

theorem incr_advances (blockId : BlockId) : Within Advances (incr d blockId) :=
  .bind (self_advances d) fun _ => .bind (.ofOption _) fun _ => .bind (modifySelf_advances d fun _ => ⟨le_refl _, rfl, rfl⟩) fun _ => .pure _

theorem decr_advances (blockId : BlockId) : Within Advances (decr d blockId) :=
  .bind (self_advances d) fun _ => .bind (.ofOption _) fun _ => .bind (.require _) fun _ =>
    .bind (modifySelf_advances d fun _ => ⟨le_refl _, rfl, rfl⟩) fun _ => .pure _

theorem refcount_advances (blockId : BlockId) : Within Advances (refcount d blockId) :=
  .bind (self_advances d) fun _ => .ofOption _

theorem trackBlockId_advances (blockId : BlockId) (computed : Bool) : Within Advances (trackBlockId d blockId computed) :=
  .bind (self_advances d) fun _ => .bind (.ofOption _) fun _ => modifySelf_advances d fun _ => ⟨le_refl _, rfl, rfl⟩

theorem untrackBlockId_advances (blockId : BlockId) : Within Advances (untrackBlockId d blockId) :=
  .bind (self_advances d) fun _ => .bind (.ofOption _) fun _ => modifySelf_advances d fun _ => ⟨le_refl _, rfl, rfl⟩

theorem updateNumTokensTotal_advances : Within Advances (updateNumTokensTotal r) := by
  refine .bind (getBlock_advances r) fun b => .bind ?_ fun _ => modifyBlock_advances r _
  cases b.prevBlock with
  | none => exact .pure 0
  | some q => exact .bind (getBlock_advances q) fun _ => .pure _

/-- The pool gets more objects, or loses the id of one. -/
theorem initBlock_advances (prevBlock : Option BlockRef) (tokenIds : List TokenId) (blockId : Option BlockId) :
    Within Advances (initBlock p d prevBlock tokenIds blockId) := by
  intro s r s' hrun
  unfold initBlock at hrun
  rw [self_bind] at hrun
  dsimp only at hrun
  rw [show (if (s.on d).blockPool.freeIds = [] then (s.on d).blockPool.increasePool else (s.on d).blockPool) =
    roomyPool (s.pool d) from rfl] at hrun
  cases hfree : (roomyPool (s.pool d)).freeIds with
  | nil =>
    rw [hfree] at hrun
    exact (raise_iff.mp hrun).elim
  | cons poolId freeIds =>
    rw [hfree] at hrun
    obtain ⟨_, s₁, h₁, hrun⟩ := bind_iff.mp hrun
    rw [(require_iff.mp h₁).2] at hrun
    obtain ⟨_, s₁, h₁, hrun⟩ := bind_iff.mp hrun
    rw [(require_iff.mp h₁).2, read_bind] at hrun
    obtain ⟨_, s₁, hlog, hrun⟩ := bind_iff.mp hrun
    obtain ⟨_, s₂, hpool, hrun⟩ := bind_iff.mp hrun
    have logged := Within.when (log_advances _) _ _ _ hlog
    have hon : s₁.on d = s.on d := by
      unfold when at hlog
      split at hlog
      · rw [update_iff.mp hlog]
        rfl
      · rw [(pure_iff.mp hlog).2]
    have taken : Advances s₁ s₂ := by
      rw [update_iff.mp hpool]
      refine .setOn (.setOn ?_ rfl) fun faithful => faithful d
      rw [hon]
      exact poolSize_le_roomyPool (s.pool d)
    refine IsTrans.trans _ _ _ logged (IsTrans.trans _ _ _ taken ?_)
    refine (?_ : Within Advances _) s₂ r s' hrun
    exact .bind (modifyBlock_advances _ _) fun _ => .bind (updateNumTokensTotal_advances _) fun _ =>
      .bind (.update fun _ => .of_same (.of_trace (List.prefix_refl _)) fun _ => rfl) fun _ => .pure _

theorem freeBlock_advances : Within Advances (freeBlock d r) :=
  .bind (modifySelf_advances d fun _ => ⟨le_refl _, rfl, rfl⟩) fun _ => .bind (.update fun _ => .of_same (.of_trace (List.prefix_refl _)) fun _ => rfl)
    fun _ => .when (log_advances _)

theorem contentHash_advances : Within Advances (contentHash p r) := by
  refine .bind .read fun s => ?_
  generalize s.numObjects + 1 = n
  induction n generalizing r with
  | zero => exact .raise
  | succ n ih =>
    refine .bind (getBlock_advances r) fun b => ?_
    cases b.cachedContentHash with
    | some h => exact .pure _
    | none =>
      refine .ite (.pure _) (.bind ?_ fun prev => .ite (.pure _) (.bind (modifyBlock_advances r _) fun _ => .pure _))
      cases b.prevBlock with
      | none => exact .pure _
      | some q => exact ih q

/-! ## Physical blocks -/

theorem maybeAllocateHashlessBlockId_advances : Within Advances (maybeAllocateHashlessBlockId p d) := by
  refine .bind (self_advances d) fun a => ?_
  cases a.freeBlockIndices with
  | nil => exact .pure none
  | cons blockId rest =>
    exact .bind (modifySelf_advances d fun _ => ⟨le_refl _, rfl, rfl⟩) fun _ => .bind (incr_advances d blockId) fun _ =>
      .bind (initBlock_advances p d _ _ _) fun r => .bind (freeBlock_advances d r) fun _ =>
      .bind (trackBlockId_advances d blockId false) fun _ => .pure _

variable {s s' : CpuGpuBlockAllocator} {u : Unit}

/-- The evictor is replaced. -/
theorem modifySelf_evictor {e : LRUEvictor} (h : (s.on d).evictor.Faithful → e.Faithful)
    (hrun : modifySelf d (fun a => { a with evictor := e }) s = some (u, s')) : Advances s s' := by
  rw [update_iff.mp hrun]
  exact .setOn (.setOn (le_refl _) rfl) fun f => h (f d)

theorem maybeAllocateEvictedBlockId_advances : Within Advances (maybeAllocateEvictedBlockId d) := by
  intro s o s' hrun
  rw [maybeAllocateEvictedBlockId, self_bind] at hrun
  split at hrun
  · rw [(pure_iff.mp hrun).2]
    exact refl s
  · obtain ⟨⟨⟨blockId, h⟩, e⟩, _, he, hrun⟩ := bind_iff.mp hrun
    obtain ⟨he, hs⟩ := ofOption_iff.mp he
    rw [hs] at hrun
    obtain ⟨_, s₁, hset, hrun⟩ := bind_iff.mp hrun
    refine IsTrans.trans _ _ _ (modifySelf_evictor d (fun f => (LRUEvictor.evict_faithful f he).1) hset) ?_
    refine (?_ : Within Advances _) s₁ o s' hrun
    exact .bind (.ofOption _) fun _ => .bind (refcount_advances d _) fun _ => .bind (.require _) fun _ =>
      .bind (.require _) fun _ => .bind (modifySelf_advances d fun _ => ⟨le_refl _, rfl, rfl⟩) fun _ => .bind (incr_advances d _) fun _ =>
      .bind (trackBlockId_advances d _ false) fun _ => .pure _

theorem allocateBlockId_advances : Within Advances (allocateBlockId p d) := by
  refine .bind (maybeAllocateHashlessBlockId_advances p d) fun o => ?_
  cases o with
  | some blockId => exact .pure blockId
  | none =>
    refine .bind (maybeAllocateEvictedBlockId_advances d) fun o => ?_
    cases o with
    | some blockId => exact .pure blockId
    | none => exact .raise

/-! ## References -/

theorem incrRefcountCachedBlock_advances : Within Advances (incrRefcountCachedBlock d r) := by
  refine .bind (modifyBlock_advances r _) fun _ => .bind (getBlock_advances r) fun _ => .bind (.ofOption _) fun blockId =>
    .bind (incr_advances d _) fun _ => .when ?_
  intro s o s' hrun
  rw [self_bind] at hrun
  obtain ⟨_, s₁, hremove, hrun⟩ := bind_iff.mp hrun
  refine IsTrans.trans _ _ _ ?_ (trackBlockId_advances d blockId true s₁ o s' hrun)
  unfold when at hremove
  split at hremove
  · obtain ⟨e, _, he, hset⟩ := bind_iff.mp hremove
    obtain ⟨he, hs⟩ := ofOption_iff.mp he
    rw [hs] at hset
    exact modifySelf_evictor d (fun f => LRUEvictor.remove_faithful f he) hset
  · rw [(pure_iff.mp hremove).2]
    exact refl s

theorem decrRefcountHashlessBlock_advances : Within Advances (decrRefcountHashlessBlock d r) :=
  .bind (getBlock_advances r) fun _ => .bind (.ofOption _) fun _ => .bind (refcount_advances d _) fun _ =>
    .bind (.when (untrackBlockId_advances d _)) fun _ => .bind (setBlockId_advances r none) fun _ =>
    .bind (decr_advances d _) fun _ => .when (modifySelf_advances d fun _ => ⟨le_refl _, rfl, rfl⟩)

/-- The released block is recorded, and then added to the evictor that the record names. -/
theorem decrRefcountCachedBlock_advances : Within Advances (decrRefcountCachedBlock p d r) := by
  refine .bind (contentHash_advances p r) fun _ => .bind (.ofOption _) fun h => .bind (getBlock_advances r) fun b =>
    .bind (.ofOption _) fun blockId => .bind (decr_advances d blockId) fun n => .ite (setBlockId_advances r none) ?_
  intro s o s' hrun
  rw [self_bind] at hrun
  obtain ⟨_, _, hreq, hrun⟩ := bind_iff.mp hrun
  rw [(require_iff.mp hreq).2] at hrun
  obtain ⟨t, _, ht, hrun⟩ := bind_iff.mp hrun
  rw [(ofOption_iff.mp ht).2] at hrun
  obtain ⟨_, s₁, hlog, hrun⟩ := bind_iff.mp hrun
  obtain ⟨_, s₂, hadd, hrun⟩ := bind_iff.mp hrun
  refine IsTrans.trans _ s₂ _ ?_ (Within.bind (untrackBlockId_advances d blockId)
    (fun _ => setBlockId_advances r none) s₂ o s' hrun)
  rw [update_iff.mp hadd, update_iff.mp hlog]
  refine ⟨IsTrans.trans _ _ _ (Grows.of_trace (List.prefix_append _ _)) (Grows.setOn (le_refl _) rfl), fun hno f e => ?_⟩
  rw [on_setOn]
  split
  · refine LRUEvictor.add_faithful (f d) ?_
    rw [← Bool.not_eq_true]
    exact fun hc => hno ⟨_, List.mem_append_right _ (List.mem_singleton_self _), hc⟩
  · exact f e

theorem freeBlockId_advances : Within Advances (freeBlockId p d r) := by
  refine .bind (getBlock_advances r) fun _ => .bind (.require _) fun _ => .bind (contentHash_advances p r) fun o =>
    .bind ?_ fun _ => .bind (getBlock_advances r) fun _ => .require _
  cases o with
  | none => exact decrRefcountHashlessBlock_advances d r
  | some h => exact decrRefcountCachedBlock_advances p d r

theorem promoteToImmutableBlock_advances : Within Advances (promoteToImmutableBlock p d r) := by
  refine .bind (contentHash_advances p r) fun _ => .bind (.ofOption _) fun h => .bind (getBlock_advances r) fun b =>
    .bind (.ofOption _) fun blockId => .bind (refcount_advances d _) fun _ => .bind (.require _) fun _ =>
    .bind (self_advances d) fun a => ?_
  cases a.cachedBlocks.get? h with
  | none => exact .bind (modifySelf_advances d fun _ => ⟨le_refl _, rfl, rfl⟩) fun _ => .pure _
  | some cachedId =>
    exact .bind (log_advances _) fun _ => .bind (decrRefcountHashlessBlock_advances d r) fun _ =>
      .bind (setBlockId_advances r _) fun _ => .bind (incrRefcountCachedBlock_advances d r) fun _ => .pure _

theorem cowBlockIfNotAppendable_advances : Within Advances (cowBlockIfNotAppendable p d r) :=
  .bind (getBlock_advances r) fun _ => .bind (.ofOption _) fun _ => .bind (refcount_advances d _) fun _ =>
    .ite (.pure _) <| .bind (decrRefcountHashlessBlock_advances d r) fun _ => .bind (allocateBlockId_advances p d) fun _ =>
      .bind (modifySelf_advances d fun _ => ⟨le_refl _, rfl, rfl⟩) fun _ => .pure _

theorem appendTokenIds_advances (tokenIds : List TokenId) : Within Advances (appendTokenIds p r tokenIds) := by
  refine .bind (contentHash_advances p r) fun _ => .bind (.require _) fun _ => .bind (getBlock_advances r) fun b =>
    .bind (.require _) fun _ => .ite (.pure _) <| .bind (.require _) fun _ => .bind (modifyBlock_advances r _) fun _ =>
    .bind (.when ?_) fun _ => .bind (updateNumTokensTotal_advances r) fun _ => .bind (contentHash_advances p r) fun o => ?_
  · exact .bind (cowBlockIfNotAppendable_advances p r.device r) fun _ => setBlockId_advances r _
  · cases o with
    | none => exact .pure _
    | some h => exact .bind (promoteToImmutableBlock_advances p r.device r) fun _ => setBlockId_advances r _

/-! ## Tables -/

theorem freeOn_advances : Within Advances (freeOn p d r) :=
  .bind (freeBlockId_advances p d r) fun _ => freeBlock_advances d r

theorem allocateMutableBlock_advances (prevBlock : Option BlockRef) : Within Advances (allocateMutableBlock p d prevBlock) :=
  .bind (allocateBlockId_advances p d) fun _ => .bind (initBlock_advances p d _ _ _) fun r =>
    .bind (contentHash_advances p r) fun _ => .bind (.require _) fun _ => .pure _

theorem allocateImmutableBlock_advances (prevBlock : Option BlockRef) (tokenIds : List TokenId) :
    Within Advances (allocateImmutableBlock p d prevBlock tokenIds) := by
  refine .bind (initBlock_advances p d _ _ _) fun r => .bind (contentHash_advances p r) fun _ => .bind (.ofOption _) fun h =>
    .bind (self_advances d) fun a => ?_
  cases a.cachedBlocks.get? h with
  | some cachedId =>
    exact .bind (setBlockId_advances r _) fun _ => .bind (incrRefcountCachedBlock_advances d r) fun _ => .pure _
  | none =>
    exact .bind (freeBlock_advances d r) fun _ => .bind (allocateMutableBlock_advances p d prevBlock) fun r =>
      .bind (appendTokenIds_advances p r tokenIds) fun _ => .pure _

theorem allocateImmutableBlocks_advances (prevBlock : Option BlockRef) (chunks : List (List TokenId)) :
    Within Advances (allocateImmutableBlocks p d prevBlock chunks) := by
  induction chunks generalizing prevBlock with
  | nil => exact .pure _
  | cons c chunks ih =>
    exact .bind (allocateImmutableBlock_advances p d prevBlock c) fun r => .bind (ih (some r)) fun _ => .pure _

theorem swapInBlock_advances : Within Advances (swapInBlock p d r) := by
  refine .bind (getBlock_advances r) fun b => .bind (.ite (allocateImmutableBlock_advances p d _ _) ?_) fun tmp =>
    .bind (getBlock_advances tmp) fun _ => .bind (freeBlock_advances d tmp) fun _ => setBlockId_advances r _
  exact .bind (allocateMutableBlock_advances p d _) fun tmp => .bind (appendTokenIds_advances p tmp _) fun _ => .pure _

theorem free_advances : Within Advances (BlockM.free p r) :=
  .bind (getBlock_advances r) fun _ => .bind (.ofOption _) fun _ => .bind .read fun _ => .bind (.ofOption _) fun d =>
    freeOn_advances p d r

end BlockM

end CoreFlow
