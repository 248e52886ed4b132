import CoreFlow.Block.InUse

/-!
# Allocators that can serve

An allocator is `Ready` when its pool can hand out objects, its evictor finds the blocks that it holds, and no
object has gone back to the wrong pool. The methods that allocate are `Calm`: an object that they return goes to
its own pool, and they take from the evictors without adding to them. They leave a ready allocator ready.
-/

namespace CoreFlow
open Prog

namespace Prog.Within
variable {σ α β : Type} {R : σ → σ → Prop} [IsPreorder σ R]

/-- What follows may depend on what the first step returns. -/
theorem bind_of {x : Prog σ α} {f : α → Prog σ β} {Q : α → Prop} (hx : Within R x)
    (hQ : ∀ s a s', x s = some (a, s') → Q a) (hf : ∀ a, Q a → Within R (f a)) : Within R (x >>= f) := by
  intro s b s' h
  obtain ⟨a, s₁, h₁, h₂⟩ := bind_iff.mp h
  exact IsTrans.trans s s₁ s' (hx s a s₁ h₁) (hf a (hQ s a s₁ h₁) s₁ b s' h₂)

end Prog.Within

namespace CpuGpuBlockAllocator

structure Calm (s s' : CpuGpuBlockAllocator) : Prop where
  stray : s'.Stray → s.Stray
  evictors : ∀ e, (s.on e).evictor.Faithful → (s'.on e).evictor.Faithful

instance : IsPreorder CpuGpuBlockAllocator Calm where
  refl _ := ⟨id, fun _ => id⟩
  trans _ _ _ h h' := ⟨fun hs => h.stray (h'.stray hs), fun e f => h'.evictors e (h.evictors e f)⟩

section
variable {s s' : CpuGpuBlockAllocator} {d : Device}

theorem Calm.setOn {a : PrefixCachingBlockAllocator} (h : (s.on d).evictor.Faithful → a.evictor.Faithful) :
    Calm s (s.setOn d a) := by
  refine ⟨id, fun e f => ?_⟩
  rw [on_setOn]
  split
  · rename_i he
    subst he
    exact h f
  · exact f

/-- Only the ghost changes, and not by a stray object. -/
theorem Calm.of_trace {trace : BlockTrace}
    (h : ∀ r, BlockEvent.strayFree r ∈ trace.events → BlockEvent.strayFree r ∈ s.trace.events) :
    Calm s { s with trace := trace } := ⟨fun ⟨r, hr⟩ => ⟨r, h r hr⟩, fun _ => id⟩

structure Ready (s : CpuGpuBlockAllocator) (d : Device) : Prop where
  pooled : (s.on d).allBlockIndices ≠ [] → 0 < (s.pool d).poolSize
  clean : ¬ s.Stray
  faithful : (s.on d).evictor.Faithful

theorem Ready.after (h : s.Ready d) (grows : Grows s s') (calm : Calm s s') : s'.Ready d := by
  refine ⟨fun hne => ?_, fun hs => h.clean (calm.stray hs), calm.evictors d h.faithful⟩
  rw [grows.blocks] at hne
  exact (h.pooled hne).trans_le (grows.sizes d)

end

end CpuGpuBlockAllocator

namespace BlockM
open CpuGpuBlockAllocator
variable (p : BlockParams) (d : Device) (r : BlockRef)

theorem self_calm : Within Calm (self d) := .bind .read fun _ => .pure _

theorem getBlock_calm : Within Calm (getBlock r) := .bind .read fun _ => .ofOption _

theorem modifySelf_calm {f : PrefixCachingBlockAllocator → PrefixCachingBlockAllocator}
    (hf : ∀ a, (f a).evictor = a.evictor) : Within Calm (modifySelf d f) :=
  .update fun s => .setOn fun faithful => (hf (s.on d)).symm ▸ faithful

theorem modifyBlock_calm (f : Block → Block) : Within Calm (modifyBlock r f) := .update fun _ => .setOn id

theorem log_calm {e : BlockEvent} (he : ∀ r, e ≠ .strayFree r) : Within Calm (log e) := by
  apply Within.update
  intro s
  apply Calm.of_trace
  intro r hr
  rcases List.mem_append.mp hr with hr | hr
  · exact hr
  · exact absurd (List.mem_singleton.mp hr).symm (he r)

theorem incr_calm (blockId : BlockId) : Within Calm (incr d blockId) :=
  .bind (self_calm d) fun _ => .bind (.ofOption _) fun _ => .bind (modifySelf_calm d fun _ => rfl) fun _ => .pure _

theorem decr_calm (blockId : BlockId) : Within Calm (decr d blockId) :=
  .bind (self_calm d) fun _ => .bind (.ofOption _) fun _ => .bind (.require _) fun _ =>
    .bind (modifySelf_calm d fun _ => rfl) fun _ => .pure _

theorem refcount_calm (blockId : BlockId) : Within Calm (refcount d blockId) :=
  .bind (self_calm d) fun _ => .ofOption _

theorem trackBlockId_calm (blockId : BlockId) (computed : Bool) : Within Calm (trackBlockId d blockId computed) :=
  .bind (self_calm d) fun _ => .bind (.ofOption _) fun _ => modifySelf_calm d fun _ => rfl

theorem untrackBlockId_calm (blockId : BlockId) : Within Calm (untrackBlockId d blockId) :=
  .bind (self_calm d) fun _ => .bind (.ofOption _) fun _ => modifySelf_calm d fun _ => rfl

theorem updateNumTokensTotal_calm : Within Calm (updateNumTokensTotal r) := by
  refine .bind (getBlock_calm r) fun b => .bind ?_ fun _ => modifyBlock_calm r _
  cases b.prevBlock with
  | none => exact .pure 0
  | some q => exact .bind (getBlock_calm q) fun _ => .pure _

theorem initBlock_calm (prevBlock : Option BlockRef) (tokenIds : List TokenId) (blockId : Option BlockId) :
    Within Calm (initBlock p d prevBlock tokenIds blockId) := by
  refine .bind (self_calm d) fun a => ?_
  dsimp only
  split
  · exact .raise
  · exact .bind (.require _) fun _ => .bind (.require _) fun _ => .bind .read fun _ =>
      .bind (.when (log_calm fun _ h => by cases h)) fun _ => .bind (modifySelf_calm d fun _ => rfl) fun _ =>
      .bind (modifyBlock_calm _ _) fun _ => .bind (updateNumTokensTotal_calm _) fun _ =>
      .bind (.update fun _ => .of_trace fun _ => id) fun _ => .pure _

/-- An object goes back to its own pool. -/
theorem freeBlock_calm (hd : r.device = d) : Within Calm (freeBlock d r) := by
  refine .bind (modifySelf_calm d fun _ => rfl) fun _ => .bind (.update fun _ => .of_trace fun _ => id) fun _ => ?_
  rw [when_neg (not_not.mpr hd.symm)]
  exact .pure _

theorem contentHash_calm : Within Calm (contentHash p r) := by
  refine .bind .read fun s => ?_
  generalize s.numObjects + 1 = n
  induction n generalizing r with
  | zero => exact .raise
  | succ n ih =>
    refine .bind (getBlock_calm r) fun b => ?_
    cases b.cachedContentHash with
    | some h => exact .pure _
    | none =>
      refine .ite (.pure _) (.bind ?_ fun prev => .ite (.pure _) (.bind (modifyBlock_calm r _) fun _ => .pure _))
      cases b.prevBlock with
      | none => exact .pure _
      | some q => exact ih q

theorem initBlock_device {prevBlock : Option BlockRef} {tokenIds : List TokenId} {blockId : Option BlockId}
    (s : CpuGpuBlockAllocator) (r : BlockRef) (s' : CpuGpuBlockAllocator)
    (hrun : initBlock p d prevBlock tokenIds blockId s = some (r, s')) : r.device = d := (initBlock_handsOut hrun).device

/-! ## Physical blocks -/

theorem maybeAllocateHashlessBlockId_calm : Within Calm (maybeAllocateHashlessBlockId p d) := by
  refine .bind (self_calm d) fun a => ?_
  cases a.freeBlockIndices with
  | nil => exact .pure none
  | cons blockId rest =>
    exact .bind (modifySelf_calm d fun _ => rfl) fun _ => .bind (incr_calm d blockId) fun _ =>
      .bind_of (initBlock_calm p d _ _ _) (initBlock_device p d) fun r hr => .bind (freeBlock_calm d r hr) fun _ =>
      .bind (trackBlockId_calm d blockId false) fun _ => .pure _

variable {s s' : CpuGpuBlockAllocator} {u : Unit}

theorem modifySelf_evictor_calm {e : LRUEvictor} (h : (s.on d).evictor.Faithful → e.Faithful)
    (hrun : modifySelf d (fun a => { a with evictor := e }) s = some (u, s')) : Calm s s' := by
  rw [update_iff.mp hrun]
  exact .setOn h

theorem maybeAllocateEvictedBlockId_calm : Within Calm (maybeAllocateEvictedBlockId d) := by
  intro s o s' hrun
  rw [maybeAllocateEvictedBlockId, self_bind] at hrun
  split at hrun
  · rw [(pure_iff.mp hrun).2]
    exact refl s
  · obtain ⟨⟨⟨blockId, h⟩, e⟩, _, he, hrun⟩ := bind_iff.mp hrun
    obtain ⟨he, hs⟩ := ofOption_iff.mp he
    rw [hs] at hrun
    obtain ⟨_, s₁, hset, hrun⟩ := bind_iff.mp hrun
    refine IsTrans.trans _ _ _ (modifySelf_evictor_calm d (fun f => (LRUEvictor.evict_faithful f he).1) hset) ?_
    refine (?_ : Within Calm _) s₁ o s' hrun
    exact .bind (.ofOption _) fun _ => .bind (refcount_calm d _) fun _ => .bind (.require _) fun _ =>
      .bind (.require _) fun _ => .bind (modifySelf_calm d fun _ => rfl) fun _ => .bind (incr_calm d _) fun _ =>
      .bind (trackBlockId_calm d _ false) fun _ => .pure _

theorem allocateBlockId_calm : Within Calm (allocateBlockId p d) := by
  refine .bind (maybeAllocateHashlessBlockId_calm p d) fun o => ?_
  cases o with
  | some blockId => exact .pure blockId
  | none =>
    refine .bind (maybeAllocateEvictedBlockId_calm d) fun o => ?_
    cases o with
    | some blockId => exact .pure blockId
    | none => exact .raise

/-! ## References -/

theorem incrRefcountCachedBlock_calm : Within Calm (incrRefcountCachedBlock d r) := by
  refine .bind (modifyBlock_calm r _) fun _ => .bind (getBlock_calm r) fun _ => .bind (.ofOption _) fun blockId =>
    .bind (incr_calm d _) fun _ => .when ?_
  intro s o s' hrun
  rw [self_bind] at hrun
  obtain ⟨_, s₁, hremove, hrun⟩ := bind_iff.mp hrun
  refine IsTrans.trans _ _ _ ?_ (trackBlockId_calm d blockId true s₁ o s' hrun)
  unfold when at hremove
  split at hremove
  · obtain ⟨e, _, he, hset⟩ := bind_iff.mp hremove
    obtain ⟨he, hs⟩ := ofOption_iff.mp he
    rw [hs] at hset
    exact modifySelf_evictor_calm d (fun f => LRUEvictor.remove_faithful f he) hset
  · rw [(pure_iff.mp hremove).2]
    exact refl s

theorem decrRefcountHashlessBlock_calm : Within Calm (decrRefcountHashlessBlock d r) :=
  .bind (getBlock_calm r) fun _ => .bind (.ofOption _) fun _ => .bind (refcount_calm d _) fun _ =>
    .bind (.when (untrackBlockId_calm d _)) fun _ => .bind (modifyBlock_calm r _) fun _ =>
    .bind (decr_calm d _) fun _ => .when (modifySelf_calm d fun _ => rfl)

theorem promoteToImmutableBlock_calm : Within Calm (promoteToImmutableBlock p d r) := by
  refine .bind (contentHash_calm p r) fun _ => .bind (.ofOption _) fun h => .bind (getBlock_calm r) fun b =>
    .bind (.ofOption _) fun blockId => .bind (refcount_calm d _) fun _ => .bind (.require _) fun _ =>
    .bind (self_calm d) fun a => ?_
  cases a.cachedBlocks.get? h with
  | none => exact .bind (modifySelf_calm d fun _ => rfl) fun _ => .pure _
  | some cachedId =>
    exact .bind (log_calm fun _ h => by cases h) fun _ => .bind (decrRefcountHashlessBlock_calm d r) fun _ =>
      .bind (modifyBlock_calm r _) fun _ => .bind (incrRefcountCachedBlock_calm d r) fun _ => .pure _

theorem cowBlockIfNotAppendable_calm : Within Calm (cowBlockIfNotAppendable p d r) :=
  .bind (getBlock_calm r) fun _ => .bind (.ofOption _) fun _ => .bind (refcount_calm d _) fun _ =>
    .ite (.pure _) <| .bind (decrRefcountHashlessBlock_calm d r) fun _ => .bind (allocateBlockId_calm p d) fun _ =>
      .bind (modifySelf_calm d fun _ => rfl) fun _ => .pure _

theorem appendTokenIds_calm (tokenIds : List TokenId) : Within Calm (appendTokenIds p r tokenIds) := by
  refine .bind (contentHash_calm p r) fun _ => .bind (.require _) fun _ => .bind (getBlock_calm r) fun b =>
    .bind (.require _) fun _ => .ite (.pure _) <| .bind (.require _) fun _ => .bind (modifyBlock_calm r _) fun _ =>
    .bind (.when ?_) fun _ => .bind (updateNumTokensTotal_calm r) fun _ => .bind (contentHash_calm p r) fun o => ?_
  · exact .bind (cowBlockIfNotAppendable_calm p r.device r) fun _ => modifyBlock_calm r _
  · cases o with
    | none => exact .pure _
    | some h => exact .bind (promoteToImmutableBlock_calm p r.device r) fun _ => modifyBlock_calm r _

theorem allocateMutableBlock_calm (prevBlock : Option BlockRef) : Within Calm (allocateMutableBlock p d prevBlock) :=
  .bind (allocateBlockId_calm p d) fun _ => .bind (initBlock_calm p d _ _ _) fun r =>
    .bind (contentHash_calm p r) fun _ => .bind (.require _) fun _ => .pure _

theorem allocateImmutableBlock_calm (prevBlock : Option BlockRef) (tokenIds : List TokenId) :
    Within Calm (allocateImmutableBlock p d prevBlock tokenIds) := by
  refine .bind_of (initBlock_calm p d _ _ _) (initBlock_device p d) fun r hr => .bind (contentHash_calm p r) fun _ =>
    .bind (.ofOption _) fun h => .bind (self_calm d) fun a => ?_
  cases a.cachedBlocks.get? h with
  | some cachedId =>
    exact .bind (modifyBlock_calm r _) fun _ => .bind (incrRefcountCachedBlock_calm d r) fun _ => .pure _
  | none =>
    exact .bind (freeBlock_calm d r hr) fun _ => .bind (allocateMutableBlock_calm p d prevBlock) fun r =>
      .bind (appendTokenIds_calm p r tokenIds) fun _ => .pure _

end BlockM

end CoreFlow
