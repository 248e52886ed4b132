import CoreFlow.Block.BlockTable
import CoreFlow.Lib.Attempt

/-!
# Allocation that can run out of blocks

The methods that allocate blocks, with the state that a `NoFreeBlocksError` leaves. `_allocate_block_id` raises
it, and the methods that call it, directly or not, are written again as attempts; every other method they call
is one `step`. Each attempt follows the method of the same name.
-/

namespace CoreFlow

/-- An exception. -/
inductive Raised where
  /-- `NoFreeBlocksError`. -/
  | noFreeBlocks
  /-- Any other one, a failed assertion included. -/
  | other
deriving DecidableEq

abbrev BlockAttempt (α : Type) := Attempt Raised CpuGpuBlockAllocator α

namespace BlockAttempt
open Attempt

/-- A method that does not allocate. -/
def step {α : Type} (m : BlockM α) : BlockAttempt α := lift .other m

variable (p : BlockParams)

/-- `_allocate_block_id`. -/
def allocateBlockId (d : Device) : BlockAttempt BlockId := do
  match ← step (BlockM.maybeAllocateHashlessBlockId p d) with
  | some blockId => pure blockId
  | none => do
    match ← step (BlockM.maybeAllocateEvictedBlockId d) with
    | some blockId => pure blockId
    | none => raise .noFreeBlocks

/-- `cow_block_if_not_appendable`. -/
def cowBlockIfNotAppendable (d : Device) (r : BlockRef) : BlockAttempt BlockId := do
  let b ← step (BlockM.getBlock r)
  let srcBlockId ← step (Prog.ofOption b.blockId)
  let n ← step (BlockM.refcount d srcBlockId)
  if n ≤ 1 then pure srcBlockId
  else do
    step (BlockM.decrRefcountHashlessBlock d r)
    let trgBlockId ← allocateBlockId p d
    step (BlockM.modifySelf d fun a => { a with copyOnWrites := a.copyOnWrites ++ [(srcBlockId, trgBlockId)] })
    pure trgBlockId

/-- `PrefixCachingBlock.append_token_ids`. -/
def appendTokenIds (r : BlockRef) (tokenIds : List TokenId) : BlockAttempt Unit := do
  let h ← step (BlockM.contentHash p r)
  step (Prog.require (h = none))
  let b ← step (BlockM.getBlock r)
  step (Prog.require (b.computed = false))
  if tokenIds = [] then pure ()
  else do
    step (Prog.require (b.tokenIds.length + tokenIds.length ≤ p.blockSize))
    step (BlockM.modifyBlock r fun b => { b with tokenIds := b.tokenIds ++ tokenIds })
    when (b.blockId ≠ none) do
      let blockId ← cowBlockIfNotAppendable p r.device r
      step (BlockM.setBlockId r (some blockId))
    step (BlockM.updateNumTokensTotal r)
    match ← step (BlockM.contentHash p r) with
    | none => pure ()
    | some _ => do
      let blockId ← step (BlockM.promoteToImmutableBlock p r.device r)
      step (BlockM.setBlockId r (some blockId))

/-- `allocate_mutable_block`. -/
def allocateMutableBlock (d : Device) (prevBlock : Option BlockRef) : BlockAttempt BlockRef := do
  let blockId ← allocateBlockId p d
  let r ← step (BlockM.initBlock p d prevBlock [] (some blockId))
  let h ← step (BlockM.contentHash p r)
  step (Prog.require (h = none))
  pure r

/-- `allocate_immutable_block`. -/
def allocateImmutableBlock (d : Device) (prevBlock : Option BlockRef) (tokenIds : List TokenId) :
    BlockAttempt BlockRef := do
  let r ← step (BlockM.initBlock p d prevBlock tokenIds none)
  let h ← step (BlockM.contentHash p r)
  let h ← step (Prog.ofOption h)
  let a ← step (BlockM.self d)
  match a.cachedBlocks.get? h with
  | some cachedId => do
    step (BlockM.setBlockId r (some cachedId))
    step (BlockM.incrRefcountCachedBlock d r)
    pure r
  | none => do
    step (BlockM.freeBlock d r)
    let r ← allocateMutableBlock p d prevBlock
    appendTokenIds p r tokenIds
    pure r

/-- `allocate_immutable_blocks`. -/
def allocateImmutableBlocks (d : Device) : Option BlockRef → List (List TokenId) → BlockAttempt (List BlockRef)
  | _, [] => pure []
  | prevBlock, tokenIds :: rest => do
    let r ← allocateImmutableBlock p d prevBlock tokenIds
    let rs ← allocateImmutableBlocks d (some r) rest
    pure (r :: rs)

/-- `_allocate_blocks_for_token_ids`. -/
def allocateBlocksForTokenIds (tokenIds : List TokenId) (d : Device) : BlockAttempt (List BlockRef) := do
  let chunks := chunkList tokenIds p.blockSize
  let blockTokenIds := chunks.filter fun c => c.length == p.blockSize
  let tailTokenIds := chunks.filter fun c => c.length != p.blockSize
  let blocks ← allocateImmutableBlocks p d none blockTokenIds
  match tailTokenIds with
  | [] => pure blocks
  | [curTokenIds] => do
    let r ← allocateMutableBlock p d blocks.getLast?
    appendTokenIds p r curTokenIds
    pure (blocks ++ [r])
  | _ => raise .other

/-- `BlockTable.allocate`. -/
def allocate (t : BlockTable) (tokenIds : List TokenId) (d : Device) : BlockAttempt BlockTable := do
  step (Prog.require (t.blocks = []))
  step (Prog.require (tokenIds ≠ []))
  let blocks ← allocateBlocksForTokenIds p tokenIds d
  let t ← step (t.update blocks)
  pure { t with numFullSlots := tokenIds.length }

/-- The body of the loop of `swap_in`. -/
def swapInBlock (d : Device) (r : BlockRef) : BlockAttempt Unit := do
  let b ← step (BlockM.getBlock r)
  let tmp ← (if b.isFull p then allocateImmutableBlock p d b.prevBlock b.tokenIds
    else do
      let tmp ← allocateMutableBlock p d b.prevBlock
      appendTokenIds p tmp b.tokenIds
      pure tmp)
  let t ← step (BlockM.getBlock tmp)
  step (BlockM.freeBlock d tmp)
  step (BlockM.setBlockId r t.blockId)

/-- `CpuGpuBlockAllocator.swap`. -/
def swap (blocks : List BlockRef) (srcDevice dstDevice : Device) : BlockAttempt (Dict BlockId BlockId) := do
  let srcBlockIds ← step (BlockM.blockIds blocks)
  step (BlockM.swapOut p srcDevice blocks)
  forM (swapInBlock p dstDevice) blocks
  let dstBlockIds ← step (BlockM.blockIds blocks)
  pure (BlockM.swapMapping srcBlockIds dstBlockIds)

/-- The loop of `ensure_num_empty_slots`. -/
def appendBlocks (t : BlockTable) : Nat → BlockAttempt BlockTable
  | 0 => pure t
  | n + 1 => do
    step (Prog.require (t.blocks ≠ []))
    let r ← allocateMutableBlock p .gpu t.blocks.getLast?
    let id ← step (BlockTable.idOf r)
    appendBlocks { t with blocks := t.blocks ++ [r], blockIds := t.blockIds ++ [id] } n

/-- `ensure_num_empty_slots`. -/
def ensureNumEmptySlots (t : BlockTable) (numEmptySlots : Nat) : BlockAttempt BlockTable := do
  step (Prog.require (t.blocks ≠ []))
  if numEmptySlots ≤ t.numEmptySlots p then pure t
  else appendBlocks p t (cdiv (numEmptySlots - t.numEmptySlots p).toNat p.blockSize)

/-- `BlockList.append_token_ids`. -/
def appendToBlock (t : BlockTable) (blockIndex : Nat) (tokenIds : List TokenId) : BlockAttempt BlockTable := do
  let r ← step (Prog.ofOption t.blocks[blockIndex]?)
  let b ← step (BlockM.getBlock r)
  appendTokenIds p r tokenIds
  let b' ← step (BlockM.getBlock r)
  if b.blockId ≠ b'.blockId then do
    let id ← step (Prog.ofOption b'.blockId)
    pure { t with blockIds := t.blockIds.set blockIndex id }
  else pure t

/-- The loop of `BlockTable.append_token_ids`, from the block `blockIndex` on. -/
def appendTokenBlocks (t : BlockTable) (blockIndex : Nat) : List (List TokenId) → BlockAttempt BlockTable
  | [] => pure t
  | tokenBlock :: rest => do
    let t ← appendToBlock p t blockIndex tokenBlock
    appendTokenBlocks t (blockIndex + 1) rest

/-- `BlockTable.append_token_ids`. -/
def appendToTable (t : BlockTable) (tokenIds : List TokenId) (numLookaheadSlots : Nat) : BlockAttempt BlockTable := do
  step (Prog.require (t.blocks ≠ []))
  let t ← ensureNumEmptySlots p t (tokenIds.length + numLookaheadSlots)
  let t ← appendTokenBlocks p t (t.numFullSlots / p.blockSize) (t.chunkTokenBlocksForAppend p tokenIds)
  pure { t with numFullSlots := t.numFullSlots + tokenIds.length }

/-! ## The attempts follow the methods -/

variable {p}

theorem step_follows {α : Type} (m : BlockM α) : Follows (step m) m := .lift _ m

theorem allocateBlockId_follows (d : Device) : Follows (allocateBlockId p d) (BlockM.allocateBlockId p d) := by
  apply Follows.bind (step_follows _)
  intro o
  cases o with
  | some blockId => exact .pure blockId
  | none =>
    apply Follows.bind (step_follows _)
    intro o
    cases o with
    | some blockId => exact .pure blockId
    | none => exact .raise _

theorem cowBlockIfNotAppendable_follows (d : Device) (r : BlockRef) :
    Follows (cowBlockIfNotAppendable p d r) (BlockM.cowBlockIfNotAppendable p d r) :=
  .bind (step_follows _) fun _ => .bind (step_follows _) fun _ => .bind (step_follows _) fun _ =>
    .ite (.pure _) <| .bind (step_follows _) fun _ => .bind (allocateBlockId_follows d) fun _ =>
      .bind (step_follows _) fun _ => .pure _

theorem appendTokenIds_follows (r : BlockRef) (tokenIds : List TokenId) :
    Follows (appendTokenIds p r tokenIds) (BlockM.appendTokenIds p r tokenIds) := by
  refine .bind (step_follows _) fun _ => .bind (step_follows _) fun _ => .bind (step_follows _) fun b =>
    .bind (step_follows _) fun _ => .ite (.pure _) <| .bind (step_follows _) fun _ => .bind (step_follows _) fun _ =>
    .bind (.when ?_) fun _ => .bind (step_follows _) fun _ => .bind (step_follows _) fun o => ?_
  · exact .bind (cowBlockIfNotAppendable_follows r.device r) fun _ => step_follows _
  · cases o with
    | none => exact .pure _
    | some h => exact .bind (step_follows _) fun _ => step_follows _

theorem allocateMutableBlock_follows (d : Device) (prevBlock : Option BlockRef) :
    Follows (allocateMutableBlock p d prevBlock) (BlockM.allocateMutableBlock p d prevBlock) :=
  .bind (allocateBlockId_follows d) fun _ => .bind (step_follows _) fun _ => .bind (step_follows _) fun _ =>
    .bind (step_follows _) fun _ => .pure _

theorem allocateImmutableBlock_follows (d : Device) (prevBlock : Option BlockRef) (tokenIds : List TokenId) :
    Follows (allocateImmutableBlock p d prevBlock tokenIds) (BlockM.allocateImmutableBlock p d prevBlock tokenIds) := by
  refine .bind (step_follows _) fun r => .bind (step_follows _) fun _ => .bind (step_follows _) fun h =>
    .bind (step_follows _) fun a => ?_
  cases a.cachedBlocks.get? h with
  | some cachedId => exact .bind (step_follows _) fun _ => .bind (step_follows _) fun _ => .pure _
  | none =>
    exact .bind (step_follows _) fun _ => .bind (allocateMutableBlock_follows d prevBlock) fun r =>
      .bind (appendTokenIds_follows r tokenIds) fun _ => .pure _

theorem allocateImmutableBlocks_follows (d : Device) (prevBlock : Option BlockRef) (chunks : List (List TokenId)) :
    Follows (allocateImmutableBlocks p d prevBlock chunks) (BlockM.allocateImmutableBlocks p d prevBlock chunks) := by
  induction chunks generalizing prevBlock with
  | nil => exact .pure _
  | cons c chunks ih =>
    exact .bind (allocateImmutableBlock_follows d prevBlock c) fun r => .bind (ih (some r)) fun _ => .pure _

theorem allocateBlocksForTokenIds_follows (tokenIds : List TokenId) (d : Device) :
    Follows (allocateBlocksForTokenIds p tokenIds d) (BlockTable.allocateBlocksForTokenIds p tokenIds d) := by
  apply Follows.bind (allocateImmutableBlocks_follows d none _)
  intro blocks
  generalize (chunkList tokenIds p.blockSize).filter (fun c => c.length != p.blockSize) = tails
  rcases tails with - | ⟨c, - | ⟨c', rest⟩⟩
  · exact .pure _
  · exact .bind (allocateMutableBlock_follows d _) fun r => .bind (appendTokenIds_follows r _) fun _ => .pure _
  · exact .raise _

theorem allocate_follows (t : BlockTable) (tokenIds : List TokenId) (d : Device) :
    Follows (allocate p t tokenIds d) (t.allocate p tokenIds d) :=
  .bind (step_follows _) fun _ => .bind (step_follows _) fun _ => .bind (allocateBlocksForTokenIds_follows tokenIds d)
    fun _ => .bind (step_follows _) fun _ => .pure _

theorem swapInBlock_follows (d : Device) (r : BlockRef) : Follows (swapInBlock p d r) (BlockM.swapInBlock p d r) := by
  refine .bind (step_follows _) fun b => .bind (.ite (allocateImmutableBlock_follows d _ _) ?_) fun _ =>
    .bind (step_follows _) fun _ => .bind (step_follows _) fun _ => step_follows _
  exact .bind (allocateMutableBlock_follows d _) fun r => .bind (appendTokenIds_follows r _) fun _ => .pure _

theorem swap_follows (blocks : List BlockRef) (srcDevice dstDevice : Device) :
    Follows (swap p blocks srcDevice dstDevice) (BlockM.swap p blocks srcDevice dstDevice) :=
  .bind (step_follows _) fun _ => .bind (step_follows _) fun _ => .bind (.forM (swapInBlock_follows dstDevice) blocks) fun _ =>
    .bind (step_follows _) fun _ => .pure _

theorem appendBlocks_follows (t : BlockTable) (n : Nat) : Follows (appendBlocks p t n) (t.appendBlocks p n) := by
  induction n generalizing t with
  | zero => exact .pure t
  | succ n ih =>
    exact .bind (step_follows _) fun _ => .bind (allocateMutableBlock_follows .gpu _) fun r => .bind (step_follows _) fun id => ih _

theorem appendToBlock_follows (t : BlockTable) (i : Nat) (tokenIds : List TokenId) :
    Follows (appendToBlock p t i tokenIds) (t.appendToBlock p i tokenIds) :=
  .bind (step_follows _) fun r => .bind (step_follows _) fun _ => .bind (appendTokenIds_follows r tokenIds) fun _ =>
    .bind (step_follows _) fun _ => .ite (.bind (step_follows _) fun _ => .pure _) (.pure _)

theorem appendTokenBlocks_follows (t : BlockTable) (i : Nat) (chunks : List (List TokenId)) :
    Follows (appendTokenBlocks p t i chunks) (t.appendTokenBlocks p i chunks) := by
  induction chunks generalizing t i with
  | nil => exact .pure t
  | cons c chunks ih => exact .bind (appendToBlock_follows t i c) fun t => ih t (i + 1)

theorem ensureNumEmptySlots_follows (t : BlockTable) (n : Nat) :
    Follows (ensureNumEmptySlots p t n) (t.ensureNumEmptySlots p n) :=
  .bind (step_follows _) fun _ => .ite (.pure _) (appendBlocks_follows t _)

theorem appendToTable_follows (t : BlockTable) (tokenIds : List TokenId) (n : Nat) :
    Follows (appendToTable p t tokenIds n) (t.appendTokenIds p tokenIds n) :=
  .bind (step_follows _) fun _ => .bind (ensureNumEmptySlots_follows t _) fun t =>
    .bind (appendTokenBlocks_follows t _ _) fun _ => .pure _

end BlockAttempt

end CoreFlow
