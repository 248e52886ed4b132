import CoreFlow.Block.BlockTable
import CoreFlow.Block.Chain

/-!
# What block objects hold

The objects of a table are linked in order, hold the slices of its tokens, and remember no hash or the
hash of the chain. Physical ids, counters and trackers do not matter here: most of what the allocators
do keeps what the objects hold, as long as the pools do not hand out an object that is in use.
-/

namespace CoreFlow
open Prog

/-- The previous block, the tokens and the remembered hash of an object. -/
def Block.content (b : Block) : Option BlockRef × List TokenId × Option PrefixHash :=
  (b.prevBlock, b.tokenIds, b.cachedContentHash)

namespace CpuGpuBlockAllocator

def content? (s : CpuGpuBlockAllocator) (r : BlockRef) : Option (Option BlockRef × List TokenId × Option PrefixHash) :=
  (s.block? r).map Block.content

theorem content?_eq_some {s : CpuGpuBlockAllocator} {r : BlockRef} {prev : Option BlockRef} {tokenIds : List TokenId}
    {cached : Option PrefixHash} : s.content? r = some (prev, tokenIds, cached) ↔
      ∃ b, s.block? r = some b ∧ b.prevBlock = prev ∧ b.tokenIds = tokenIds ∧ b.cachedContentHash = cached := by
  simp only [content?, Option.map_eq_some_iff, Block.content, Prod.mk.injEq]

/-- The pool of a device. -/
def pool (s : CpuGpuBlockAllocator) (d : Device) : BlockPool := (s.on d).blockPool

/-- No free id of a pool occurs twice or names an object in `live`. -/
structure PoolSound (s : CpuGpuBlockAllocator) (live : List BlockRef) : Prop where
  nodup : ∀ d, (s.pool d).freeIds.Nodup
  inPool : ∀ d, ∀ i ∈ (s.pool d).freeIds, i < (s.pool d).poolSize
  liveNodup : live.Nodup
  taken : ∀ r ∈ live, r.poolId < (s.pool r.device).poolSize ∧ r.poolId ∉ (s.pool r.device).freeIds

/-- Sound pools stay sound, and the objects in `live` hold the same. -/
def Keeps (live : List BlockRef) (s s' : CpuGpuBlockAllocator) : Prop :=
  s.PoolSound live → s'.PoolSound live ∧ ∀ r ∈ live, s'.content? r = s.content? r

instance (live : List BlockRef) : IsPreorder CpuGpuBlockAllocator (Keeps live) where
  refl _ sound := ⟨sound, fun _ _ => rfl⟩
  trans _ _ _ h h' sound :=
    have first := h sound
    have second := h' first.1
    ⟨second.1, fun r hr => (second.2 r hr).trans (first.2 r hr)⟩

variable {s s' : CpuGpuBlockAllocator} {live live' : List BlockRef} {r q : BlockRef} {d : Device}

theorem PoolSound.perm (h : s.PoolSound live) (hp : live.Perm live') : s.PoolSound live' :=
  ⟨h.nodup, h.inPool, hp.nodup_iff.mp h.liveNodup, fun r hr => h.taken r (hp.mem_iff.mpr hr)⟩

/-- There are no more objects in use than there are objects. -/
theorem PoolSound.length_le (h : s.PoolSound live) : live.length ≤ s.numObjects := by
  have hsub : live ⊆ (List.range (s.pool .gpu).poolSize).map (BlockRef.mk .gpu) ++
      (List.range (s.pool .cpu).poolSize).map (BlockRef.mk .cpu) := by
    intro r hr
    have hlt := (h.taken r hr).1
    obtain ⟨d, i⟩ := r
    rw [List.mem_append, List.mem_map, List.mem_map]
    cases d with
    | gpu => exact .inl ⟨i, List.mem_range.mpr hlt, rfl⟩
    | cpu => exact .inr ⟨i, List.mem_range.mpr hlt, rfl⟩
  have hle := (List.subperm_of_subset h.liveNodup hsub).length_le
  rwa [List.length_append, List.length_map, List.length_map, List.length_range, List.length_range] at hle

theorem PoolSound.of_pools (h : s.PoolSound live) (hsize : ∀ d, (s'.pool d).poolSize = (s.pool d).poolSize)
    (hfree : ∀ d, (s'.pool d).freeIds = (s.pool d).freeIds) : s'.PoolSound live := by
  refine ⟨fun d => ?_, fun d => ?_, h.liveNodup, fun r hr => ?_⟩
  · rw [hfree]
    exact h.nodup d
  · rw [hfree, hsize]
    exact h.inPool d
  · rw [hfree, hsize]
    exact h.taken r hr

theorem create_poolSound (numGpuBlocks numCpuBlocks : Nat) : (create numGpuBlocks numCpuBlocks).PoolSound [] := by
  refine ⟨fun d => ?_, fun d i hi => ?_, List.nodup_nil, fun r hr => by cases hr⟩
  · cases d <;> exact List.nodup_range
  · cases d <;> (rw [BlockPool.poolSize]; simpa [create, pool, on, PerDevice.get,
      PrefixCachingBlockAllocator.init, BlockPool.init] using hi)

/-- A change of the allocators that leaves the pools alone. -/
theorem keeps_of_pools (h : ∀ d, s'.pool d = s.pool d) : Keeps live s s' := by
  intro sound
  refine ⟨sound.of_pools (fun d => by rw [h]) fun d => by rw [h], fun r _ => ?_⟩
  show ((s'.pool r.device).pool[r.poolId]?).map Block.content = _
  rw [h]
  rfl

theorem pool_modifyBlock (s : CpuGpuBlockAllocator) (r : BlockRef) (f : Block → Block) (d : Device) :
    (s.modifyBlock r f).pool d =
      if r.device = d then { s.pool d with pool := (s.pool d).pool.modify r.poolId f } else s.pool d := by
  unfold modifyBlock pool
  rw [on_setOn]
  split
  · rename_i hd
    rw [hd]
  · rfl

theorem block?_modifyBlock (s : CpuGpuBlockAllocator) (r q : BlockRef) (f : Block → Block) :
    (s.modifyBlock r f).block? q = if r = q then (s.block? q).map f else s.block? q := by
  show ((s.modifyBlock r f).pool q.device).pool[q.poolId]? = _
  rw [pool_modifyBlock]
  obtain ⟨d, i⟩ := r
  obtain ⟨e, j⟩ := q
  by_cases hd : d = e
  · subst hd
    rw [if_pos rfl]
    show ((s.pool d).pool.modify i f)[j]? = if (⟨d, i⟩ : BlockRef) = ⟨d, j⟩ then (s.pool d).pool[j]?.map f else (s.pool d).pool[j]?
    rw [List.getElem?_modify]
    by_cases hi : i = j
    · simp [hi]
    · simp [hi]
  · have hne : (⟨d, i⟩ : BlockRef) ≠ ⟨e, j⟩ := fun h => hd (BlockRef.mk.inj h).1
    rw [if_neg hd, if_neg hne]
    rfl

theorem content?_modifyBlock_ne (f : Block → Block) (h : r ≠ q) : (s.modifyBlock r f).content? q = s.content? q := by
  rw [content?, block?_modifyBlock, if_neg h]
  rfl

theorem modifyBlock_poolSound (h : s.PoolSound live) (r : BlockRef) (f : Block → Block) :
    (s.modifyBlock r f).PoolSound live := by
  refine h.of_pools (fun d => ?_) fun d => ?_
  · rw [pool_modifyBlock]
    split
    · exact List.length_modify ..
    · rfl
  · rw [pool_modifyBlock]
    split <;> rfl

/-- A change of an object that leaves its content alone. -/
theorem keeps_modifyBlock (r : BlockRef) {f : Block → Block} (hf : ∀ b, (f b).content = b.content) :
    Keeps live s (s.modifyBlock r f) := by
  intro sound
  refine ⟨modifyBlock_poolSound sound r f, fun q _ => ?_⟩
  unfold content?
  rw [block?_modifyBlock]
  split
  · rw [Option.map_map]
    exact congrArg (fun g => Option.map g (s.block? q)) (funext hf)
  · rfl

end CpuGpuBlockAllocator

namespace BlockM
open CpuGpuBlockAllocator
variable {live : List BlockRef} {s s' : CpuGpuBlockAllocator} {r : BlockRef} {d : Device} {u : Unit}

theorem getBlock_iff {b : Block} : getBlock r s = some (b, s') ↔ s.block? r = some b ∧ s' = s := by
  unfold getBlock
  rw [read_bind]
  exact ofOption_iff

theorem self_bind {α : Type} {f : PrefixCachingBlockAllocator → BlockM α} : (self d >>= f) s = f (s.on d) s := rfl

/-! ## Steps that keep the contents -/

theorem self_keeps (d : Device) : Within (Keeps live) (self d) := .bind .read fun _ => .pure _

theorem getBlock_keeps (r : BlockRef) : Within (Keeps live) (getBlock r) := .bind .read fun _ => .ofOption _

theorem modifySelf_keeps (d : Device) {f : PrefixCachingBlockAllocator → PrefixCachingBlockAllocator}
    (hf : ∀ a, (f a).blockPool = a.blockPool) : Within (Keeps live) (modifySelf d f) := by
  refine .update fun s => keeps_of_pools fun e => ?_
  show ((s.setOn d (f (s.on d))).on e).blockPool = _
  rw [on_setOn]
  split
  · rename_i hd
    rw [hf, hd]
    rfl
  · rfl

theorem log_keeps (e : BlockEvent) : Within (Keeps live) (log e) := .update fun _ => keeps_of_pools fun _ => rfl

theorem modifyBlock_keeps (r : BlockRef) {f : Block → Block} (hf : ∀ b, (f b).content = b.content) :
    Within (Keeps live) (modifyBlock r f) := .update fun _ => keeps_modifyBlock r hf

theorem setBlockId_keeps (r : BlockRef) (blockId : Option BlockId) : Within (Keeps live) (setBlockId r blockId) :=
  modifyBlock_keeps r fun _ => rfl

theorem incr_keeps (d : Device) (blockId : BlockId) : Within (Keeps live) (incr d blockId) :=
  .bind (self_keeps d) fun _ => .bind (.ofOption _) fun _ => .bind (modifySelf_keeps d fun _ => rfl) fun _ => .pure _

theorem decr_keeps (d : Device) (blockId : BlockId) : Within (Keeps live) (decr d blockId) :=
  .bind (self_keeps d) fun _ => .bind (.ofOption _) fun _ => .bind (.require _) fun _ =>
    .bind (modifySelf_keeps d fun _ => rfl) fun _ => .pure _

theorem refcount_keeps (d : Device) (blockId : BlockId) : Within (Keeps live) (refcount d blockId) :=
  .bind (self_keeps d) fun _ => .ofOption _

theorem trackBlockId_keeps (d : Device) (blockId : BlockId) (computed : Bool) :
    Within (Keeps live) (trackBlockId d blockId computed) :=
  .bind (self_keeps d) fun _ => .bind (.ofOption _) fun _ => modifySelf_keeps d fun _ => rfl

theorem untrackBlockId_keeps (d : Device) (blockId : BlockId) : Within (Keeps live) (untrackBlockId d blockId) :=
  .bind (self_keeps d) fun _ => .bind (.ofOption _) fun _ => modifySelf_keeps d fun _ => rfl

theorem updateNumTokensTotal_keeps (r : BlockRef) : Within (Keeps live) (updateNumTokensTotal r) := by
  refine .bind (getBlock_keeps r) fun b => .bind ?_ fun _ => modifyBlock_keeps r fun _ => rfl
  cases b.prevBlock with
  | none => exact .pure 0
  | some q => exact .bind (getBlock_keeps q) fun _ => .pure _

theorem incrRefcountCachedBlock_keeps (d : Device) (r : BlockRef) :
    Within (Keeps live) (incrRefcountCachedBlock d r) := by
  refine .bind (modifyBlock_keeps r fun _ => rfl) fun _ => .bind (getBlock_keeps r) fun _ => .bind (.ofOption _) fun _ =>
    .bind (incr_keeps d _) fun _ => .when <| .bind (self_keeps d) fun _ => .bind (.when ?_) fun _ => trackBlockId_keeps d _ _
  exact .bind (.ofOption _) fun _ => modifySelf_keeps d fun _ => rfl

theorem decrRefcountHashlessBlock_keeps (d : Device) (r : BlockRef) :
    Within (Keeps live) (decrRefcountHashlessBlock d r) :=
  .bind (getBlock_keeps r) fun _ => .bind (.ofOption _) fun _ => .bind (refcount_keeps d _) fun _ =>
    .bind (.when (untrackBlockId_keeps d _)) fun _ => .bind (setBlockId_keeps r none) fun _ =>
    .bind (decr_keeps d _) fun _ => .when (modifySelf_keeps d fun _ => rfl)

/-! ## The pools -/

theorem pool_modifySelf (d e : Device) (bp : BlockPool) :
    (s.setOn d { s.on d with blockPool := bp }).pool e = if d = e then bp else s.pool e := by
  unfold CpuGpuBlockAllocator.pool
  rw [on_setOn]
  split <;> rfl

/-- The pool that `init_block` takes an id from: the old one, or one of twice its size. -/
def roomyPool (bp : BlockPool) : BlockPool := if bp.freeIds = [] then bp.increasePool else bp

theorem roomyPool_getElem? {bp : BlockPool} {i : Nat} (hi : i < bp.poolSize) : (roomyPool bp).pool[i]? = bp.pool[i]? := by
  unfold roomyPool
  split
  · exact List.getElem?_append_left hi
  · rfl

theorem poolSize_le_roomyPool (bp : BlockPool) : bp.poolSize ≤ (roomyPool bp).poolSize := by
  unfold roomyPool
  split
  · simp [BlockPool.increasePool, BlockPool.poolSize]
  · exact le_refl _

/-- Free ids are old ones or new ones. -/
theorem roomyPool_freeIds {bp : BlockPool} (nodup : bp.freeIds.Nodup) (inPool : ∀ i ∈ bp.freeIds, i < bp.poolSize) :
    (roomyPool bp).freeIds.Nodup ∧ ∀ i ∈ (roomyPool bp).freeIds,
      i < (roomyPool bp).poolSize ∧ (i < bp.poolSize → i ∈ bp.freeIds) := by
  unfold roomyPool
  split
  · rename_i hnil
    simp only [BlockPool.increasePool, hnil, List.nil_append]
    refine ⟨List.nodup_range', fun i hi => ?_⟩
    have := List.mem_range'_1.mp hi
    simp only [BlockPool.poolSize, List.length_append, List.length_replicate] at this ⊢
    exact ⟨by omega, fun hlt => by omega⟩
  · exact ⟨nodup, fun i hi => ⟨inPool i hi, fun _ => hi⟩⟩

/-- Taking the first free id of a pool. -/
theorem takeId_sound {s₁ : CpuGpuBlockAllocator} {poolId : Nat} {freeIds : List Nat} (sound : s.PoolSound live)
    (hfree : (roomyPool (s.pool d)).freeIds = poolId :: freeIds)
    (hpool : ∀ e, s₁.pool e = if d = e then { roomyPool (s.pool d) with freeIds := freeIds } else s.pool e) :
    s₁.PoolSound (⟨d, poolId⟩ :: live) ∧ (∃ b, s₁.block? ⟨d, poolId⟩ = some b) ∧
      ∀ q ∈ live, s₁.block? q = s.block? q := by
  obtain ⟨nodup, fresh⟩ := roomyPool_freeIds (sound.nodup d) (sound.inPool d)
  rw [hfree] at nodup fresh
  obtain ⟨hnew, hrest⟩ := List.nodup_cons.mp nodup
  have hlt : poolId < (roomyPool (s.pool d)).poolSize := (fresh poolId List.mem_cons_self).1
  have hsize : ∀ e, (s.pool e).poolSize ≤ (s₁.pool e).poolSize := by
    intro e
    rw [hpool]
    split
    · rename_i hd
      exact hd ▸ poolSize_le_roomyPool (s.pool d)
    · exact le_refl _
  have hd : s₁.pool d = { roomyPool (s.pool d) with freeIds := freeIds } := (hpool d).trans (if_pos rfl)
  have notLive : (⟨d, poolId⟩ : BlockRef) ∉ live := by
    intro hin
    obtain ⟨hin', hnot⟩ := sound.taken _ hin
    exact hnot ((fresh poolId List.mem_cons_self).2 hin')
  refine ⟨⟨fun e => ?_, fun e i hi => ?_, List.nodup_cons.mpr ⟨notLive, sound.liveNodup⟩, fun q hq => ?_⟩, ?_, fun q hq => ?_⟩
  · rw [hpool]
    split
    · exact hrest
    · exact sound.nodup e
  · rw [hpool] at hi ⊢
    split at hi
    · rw [if_pos ‹_›]
      exact (fresh i (List.mem_cons_of_mem _ hi)).1
    · rw [if_neg ‹_›]
      exact sound.inPool e i hi
  · rcases List.mem_cons.mp hq with rfl | hq
    · show poolId < (s₁.pool d).poolSize ∧ poolId ∉ (s₁.pool d).freeIds
      rw [hd]
      exact ⟨hlt, hnew⟩
    · obtain ⟨hin, hnot⟩ := sound.taken q hq
      refine ⟨lt_of_lt_of_le hin (hsize q.device), ?_⟩
      rw [hpool]
      split
      · rename_i hdq
        intro hfreed
        rw [← hdq] at hin hnot
        exact hnot ((fresh _ (List.mem_cons_of_mem _ hfreed)).2 hin)
      · exact hnot
  · have hlen : poolId < (s₁.pool d).pool.length := by
      rw [hd]
      exact hlt
    exact ⟨_, List.getElem?_eq_getElem hlen⟩
  · show (s₁.pool q.device).pool[q.poolId]? = (s.pool q.device).pool[q.poolId]?
    rw [hpool]
    split
    · rename_i hdq
      have hin := (sound.taken q hq).1
      rw [← hdq] at hin ⊢
      exact roomyPool_getElem? hin
    · rfl

variable (p : BlockParams)

/-- `init_block` takes an object that is not in use, and writes it. -/
theorem initBlock_spec {prevBlock : Option BlockRef} {tokenIds : List TokenId} {blockId : Option BlockId}
    (h : initBlock p d prevBlock tokenIds blockId s = some (r, s')) (sound : s.PoolSound live) :
    s'.PoolSound (r :: live) ∧ r.device = d ∧ s'.content? r = some (prevBlock, tokenIds, none) ∧
      ∀ q ∈ live, s'.content? q = s.content? q := by
  unfold initBlock self at h
  rw [bind_assoc, read_bind, Prog.pure_bind] at h
  dsimp only at h
  rw [show (if (s.on d).blockPool.freeIds = [] then (s.on d).blockPool.increasePool else (s.on d).blockPool) =
    roomyPool (s.pool d) from rfl] at h
  cases hfree : (roomyPool (s.pool d)).freeIds with
  | nil =>
    rw [hfree] at h
    exact (raise_iff.mp h).elim
  | cons poolId freeIds =>
    rw [hfree] at h
    obtain ⟨_, _, h₁, h⟩ := bind_iff.mp h
    rw [(require_iff.mp h₁).2] at h
    obtain ⟨_, _, h₁, h⟩ := bind_iff.mp h
    rw [(require_iff.mp h₁).2, read_bind] at h
    obtain ⟨_, s₁, h₁, h⟩ := bind_iff.mp h
    obtain ⟨_, s₂, h₂, h⟩ := bind_iff.mp h
    obtain ⟨_, s₃, h₃, h⟩ := bind_iff.mp h
    obtain ⟨_, s₄, h₄, h⟩ := bind_iff.mp h
    obtain ⟨_, s₅, h₅, h⟩ := bind_iff.mp h
    obtain ⟨rfl, rfl⟩ := pure_iff.mp h
    have hlog : ∀ e, s₁.pool e = s.pool e := by
      intro e
      unfold when at h₁
      split at h₁
      · rw [update_iff.mp h₁]
        rfl
      · rw [(pure_iff.mp h₁).2]
    have hpool : ∀ e, s₂.pool e = if d = e then { roomyPool (s.pool d) with freeIds := freeIds } else s.pool e := by
      intro e
      rw [update_iff.mp h₂, pool_modifySelf, hlog]
    obtain ⟨taken, ⟨b, hb⟩, old⟩ := takeId_sound sound hfree hpool
    rw [update_iff.mp h₃] at h₄
    have hlive : ∀ q ∈ live, (⟨d, poolId⟩ : BlockRef) ≠ q := by
      rintro q hq rfl
      exact (List.nodup_cons.mp taken.liveNodup).1 hq
    have hnum : Keeps (⟨d, poolId⟩ :: live) _ s₄ := updateNumTokensTotal_keeps _ _ _ _ h₄
    have hheld : Keeps (⟨d, poolId⟩ :: live) s₄ s' := by
      rw [update_iff.mp h₅]
      exact keeps_of_pools fun _ => rfl
    obtain ⟨sound', later⟩ := IsTrans.trans _ _ _ hnum hheld (modifyBlock_poolSound taken _ _)
    refine ⟨sound', rfl, ?_, fun q hq => ?_⟩
    · rw [later _ List.mem_cons_self, content?, block?_modifyBlock, if_pos rfl, hb]
      rfl
    · rw [later q (List.mem_cons_of_mem _ hq), content?_modifyBlock_ne _ (hlive q hq)]
      exact congrArg (Option.map Block.content) (old q hq)

/-- Putting the id of an object back on the free list of its pool. -/
theorem putId_sound (sound : s.PoolSound (r :: live)) (hpool : ∀ e, s'.pool e = if r.device = e then
      { s.pool r.device with freeIds := r.poolId :: (s.pool r.device).freeIds } else s.pool e) :
    s'.PoolSound live ∧ ∀ q, s'.content? q = s.content? q := by
  obtain ⟨hin, hnot⟩ := sound.taken r List.mem_cons_self
  obtain ⟨hnew, hnodup⟩ := List.nodup_cons.mp sound.liveNodup
  refine ⟨⟨fun e => ?_, fun e i hi => ?_, hnodup, fun q hq => ?_⟩, fun q => ?_⟩
  · rw [hpool]
    split
    · exact List.nodup_cons.mpr ⟨hnot, sound.nodup r.device⟩
    · exact sound.nodup e
  · rw [hpool] at hi ⊢
    split at hi
    · rw [if_pos ‹_›]
      rcases List.mem_cons.mp hi with rfl | hi
      · exact hin
      · exact sound.inPool r.device i hi
    · rw [if_neg ‹_›]
      exact sound.inPool e i hi
  · obtain ⟨hin', hnot'⟩ := sound.taken q (List.mem_cons_of_mem _ hq)
    rw [hpool]
    split
    · rename_i hd
      rw [← hd] at hin' hnot'
      refine ⟨hin', fun hfreed => ?_⟩
      rcases List.mem_cons.mp hfreed with hid | hfreed
      · have hrq : q = r := by
          cases q
          cases r
          exact congrArg₂ BlockRef.mk hd.symm hid
        exact hnew (hrq ▸ hq)
      · exact hnot' hfreed
    · exact ⟨hin', hnot'⟩
  · show ((s'.pool q.device).pool[q.poolId]?).map Block.content = ((s.pool q.device).pool[q.poolId]?).map Block.content
    rw [hpool]
    split
    · rename_i hd
      rw [hd]
    · rfl

/-- `free_block` puts back an object that is not in use any more. -/
theorem freeBlock_spec (h : freeBlock r.device r s = some (u, s')) (sound : s.PoolSound (r :: live)) :
    s'.PoolSound live ∧ ∀ q, s'.content? q = s.content? q := by
  obtain ⟨_, s₁, h₁, h⟩ := bind_iff.mp h
  obtain ⟨_, s₂, h₂, h⟩ := bind_iff.mp h
  rw [when_neg fun hne => hne rfl] at h
  rw [(pure_iff.mp h).2, update_iff.mp h₂]
  refine putId_sound sound fun e => ?_
  show s₁.pool e = _
  rw [update_iff.mp h₁, pool_modifySelf]
  rfl

/-! ## Physical blocks -/

theorem maybeAllocateHashlessBlockId_keeps (d : Device) :
    Within (Keeps live) (maybeAllocateHashlessBlockId p d) := by
  refine .bind (self_keeps d) fun a => ?_
  cases a.freeBlockIndices with
  | nil => exact .pure none
  | cons blockId rest =>
    refine .bind (modifySelf_keeps d fun _ => rfl) fun _ => .bind (incr_keeps d blockId) fun _ => ?_
    -- the temporary object is taken and put back
    intro s o s' h
    obtain ⟨r, s₁, h₁, h⟩ := bind_iff.mp h
    obtain ⟨_, s₂, h₂, h⟩ := bind_iff.mp h
    have later : Keeps live s₂ s' :=
      (Within.bind (trackBlockId_keeps d blockId false) fun _ => Within.pure _) s₂ o s' h
    refine IsTrans.trans s s₂ s' (fun sound => ?_) later
    obtain ⟨taken, rfl, -, old⟩ := initBlock_spec p h₁ sound
    obtain ⟨sound', same⟩ := freeBlock_spec h₂ taken
    exact ⟨sound', fun q hq => (same q).trans (old q hq)⟩

theorem maybeAllocateEvictedBlockId_keeps (d : Device) : Within (Keeps live) (maybeAllocateEvictedBlockId d) := by
  refine .bind (self_keeps d) fun a => .ite (.pure none) <| .bind (.ofOption _) fun e => ?_
  exact .bind (modifySelf_keeps d fun _ => rfl) fun _ => .bind (.ofOption _) fun _ => .bind (refcount_keeps d _) fun _ =>
    .bind (.require _) fun _ => .bind (.require _) fun _ => .bind (modifySelf_keeps d fun _ => rfl) fun _ =>
    .bind (incr_keeps d _) fun _ => .bind (trackBlockId_keeps d _ false) fun _ => .pure _

theorem allocateBlockId_keeps (d : Device) : Within (Keeps live) (allocateBlockId p d) := by
  refine .bind (maybeAllocateHashlessBlockId_keeps p d) fun o => ?_
  cases o with
  | some blockId => exact .pure blockId
  | none =>
    refine .bind (maybeAllocateEvictedBlockId_keeps d) fun o => ?_
    cases o with
    | some blockId => exact .pure blockId
    | none => exact .raise

theorem cowBlockIfNotAppendable_keeps (d : Device) (r : BlockRef) :
    Within (Keeps live) (cowBlockIfNotAppendable p d r) :=
  .bind (getBlock_keeps r) fun _ => .bind (.ofOption _) fun _ => .bind (refcount_keeps d _) fun _ =>
    .ite (.pure _) <| .bind (decrRefcountHashlessBlock_keeps d r) fun _ => .bind (allocateBlockId_keeps p d) fun _ =>
      .bind (modifySelf_keeps d fun _ => rfl) fun _ => .pure _

end BlockM

end CoreFlow
