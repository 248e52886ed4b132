import CoreFlow.Block.Allocator

/-!
# `CpuGpuBlockAllocator` and `BlockTable`

The operations that choose the allocator, and the block tables built on them. A table keeps the
references to its blocks and, as `BlockList` does, a copy of their physical ids.
-/

namespace CoreFlow

namespace BlockM
open CpuGpuBlockAllocator
variable (p : BlockParams)

/-- `CpuGpuBlockAllocator.free`: the allocator is looked up by the physical id of the block. -/
def free (r : BlockRef) : BlockM Unit := do
  let b ← getBlock r
  let blockId ← Prog.ofOption b.blockId
  let s ← Prog.read
  let d ← Prog.ofOption (s.deviceOf blockId)
  freeOn p d r

/-- The `block_id`s of a list of blocks. -/
def blockIds (blocks : List BlockRef) : BlockM (List (Option BlockId)) :=
  Prog.mapM (fun r => do
    let b ← getBlock r
    pure b.blockId) blocks

/-- The mapping that `swap` builds from the ids before and the ids after. -/
def swapMapping (srcs dsts : List (Option BlockId)) : Dict BlockId BlockId :=
  (srcs.zip dsts).foldl (fun m (src, dst) =>
    match src, dst with
    | some src, some dst => m.set src dst
    | _, _ => m) Dict.empty

/-- `CpuGpuBlockAllocator.swap`. -/
def swap (blocks : List BlockRef) (srcDevice dstDevice : Device) : BlockM (Dict BlockId BlockId) := do
  let srcBlockIds ← blockIds blocks
  swapOut p srcDevice blocks
  swapIn p dstDevice blocks
  let dstBlockIds ← blockIds blocks
  pure (swapMapping srcBlockIds dstBlockIds)

/-- `get_num_full_blocks_touched`. -/
def getNumFullBlocksTouched (blocks : List BlockRef) (d : Device) : BlockM Nat :=
  Prog.foldlM (fun n r => do
    let b ← getBlock r
    if b.isFull p = false then pure n
    else do
      let h ← contentHash p r
      let h ← Prog.ofOption h
      let a ← self d
      match a.cachedBlocks.get? h with
      | none => pure (n + 1)
      | some blockId => pure (if blockId ∈ a.evictor.freeTable then n + 1 else n)) 0 blocks

/-- `CpuGpuBlockAllocator.mark_blocks_as_accessed`. -/
def markBlocksAsAccessed (blockIds : List BlockId) (now : Int) : BlockM Unit :=
  Prog.forM (fun blockId => do
    let s ← Prog.read
    match s.deviceOf blockId with
    | none => pure ()
    | some d => markBlocksAsAccessedOn d [blockId] now) blockIds

/-- `CpuGpuBlockAllocator.mark_blocks_as_computed`: on the GPU. -/
def markBlocksAsComputed (blockIds : List BlockId) : BlockM Unit := markBlocksAsComputedOn .gpu blockIds

/-- `clear_copy_on_writes`. -/
def clearCopyOnWrites : BlockM (List (BlockId × BlockId)) := do
  let a ← self .gpu
  modifySelf .gpu fun a => { a with copyOnWrites := [] }
  pure a.copyOnWrites

end BlockM

/-- `BlockTable`, with the two lists of its `BlockList`. -/
structure BlockTable where
  blocks : List BlockRef
  blockIds : List BlockId
  numFullSlots : Nat
deriving DecidableEq

namespace BlockTable
open BlockM
variable (p : BlockParams)

def empty : BlockTable := ⟨[], [], 0⟩

/-- `_num_empty_slots`. -/
def numEmptySlots (t : BlockTable) : Int := (t.blocks.length * p.blockSize : Nat) - t.numFullSlots

/-- `get_unseen_token_ids`. -/
def getUnseenTokenIds (t : BlockTable) (sequenceTokenIds : List TokenId) : List TokenId :=
  sequenceTokenIds.drop t.numFullSlots

/-- `get_num_blocks_touched_by_append_slots`. -/
def getNumBlocksTouchedByAppendSlots (t : BlockTable) (tokenIds : List TokenId)
    (numLookaheadSlots : Nat) : Int :=
  let numTokenIds : Int := (tokenIds.length + numLookaheadSlots : Nat)
  let firstChunkSize : Int := (p.blockSize - t.numFullSlots % p.blockSize : Nat)
  1 - (firstChunkSize - numTokenIds) / p.blockSize

/-- `_chunk_token_blocks_for_append`. -/
def chunkTokenBlocksForAppend (t : BlockTable) (tokenIds : List TokenId) : List (List TokenId) :=
  if tokenIds = [] then []
  else
    let firstChunkSize := p.blockSize - t.numFullSlots % p.blockSize
    tokenIds.take firstChunkSize :: chunkList (tokenIds.drop firstChunkSize) p.blockSize

/-- The physical id of a block, which `BlockList` asserts not to be `None`. -/
def idOf (r : BlockRef) : BlockM BlockId := do
  let b ← getBlock r
  Prog.ofOption b.blockId

/-- `update`. -/
def update (t : BlockTable) (blocks : List BlockRef) : BlockM BlockTable := do
  let ids ← Prog.mapM idOf blocks
  pure { t with blocks := blocks, blockIds := ids }

/-- `_allocate_blocks_for_token_ids`, without a previous block. -/
def allocateBlocksForTokenIds (tokenIds : List TokenId) (d : Device) : BlockM (List BlockRef) := do
  let chunks := chunkList tokenIds p.blockSize
  let blockTokenIds := chunks.filter fun c => c.length == p.blockSize
  let tailTokenIds := chunks.filter fun c => c.length != p.blockSize
  let blocks ← allocateImmutableBlocks p d none blockTokenIds
  match tailTokenIds with
  | [] => pure blocks
  | [curTokenIds] => do
    let r ← allocateMutableBlock p d blocks.getLast?
    BlockM.appendTokenIds p r curTokenIds
    pure (blocks ++ [r])
  | _ => Prog.raise

/-- `allocate`. -/
def allocate (t : BlockTable) (tokenIds : List TokenId) (d : Device) : BlockM BlockTable := do
  Prog.require (t.blocks = [])
  Prog.require (tokenIds ≠ [])
  let blocks ← allocateBlocksForTokenIds p tokenIds d
  let t ← t.update blocks
  pure { t with numFullSlots := tokenIds.length }

/-- The loop of `ensure_num_empty_slots`. -/
def appendBlocks (t : BlockTable) : Nat → BlockM BlockTable
  | 0 => pure t
  | n + 1 => do
    Prog.require (t.blocks ≠ [])
    let r ← allocateMutableBlock p .gpu t.blocks.getLast?
    let id ← idOf r
    appendBlocks { t with blocks := t.blocks ++ [r], blockIds := t.blockIds ++ [id] } n

/-- `ensure_num_empty_slots`. -/
def ensureNumEmptySlots (t : BlockTable) (numEmptySlots : Nat) : BlockM BlockTable := do
  Prog.require (t.blocks ≠ [])
  if numEmptySlots ≤ t.numEmptySlots p then pure t
  else appendBlocks p t (cdiv (numEmptySlots - t.numEmptySlots p).toNat p.blockSize)

/-- `BlockList.append_token_ids`. -/
def appendToBlock (t : BlockTable) (blockIndex : Nat) (tokenIds : List TokenId) :
    BlockM BlockTable := do
  let r ← Prog.ofOption t.blocks[blockIndex]?
  let b ← getBlock r
  BlockM.appendTokenIds p r tokenIds
  let b' ← getBlock r
  if b.blockId ≠ b'.blockId then do
    let id ← Prog.ofOption b'.blockId
    pure { t with blockIds := t.blockIds.set blockIndex id }
  else pure t

/-- The loop of `append_token_ids`, from the block `blockIndex` on. -/
def appendTokenBlocks (t : BlockTable) (blockIndex : Nat) : List (List TokenId) → BlockM BlockTable
  | [] => pure t
  | tokenBlock :: rest => do
    let t ← appendToBlock p t blockIndex tokenBlock
    appendTokenBlocks t (blockIndex + 1) rest

/-- `append_token_ids`. -/
def appendTokenIds (t : BlockTable) (tokenIds : List TokenId) (numLookaheadSlots : Nat) :
    BlockM BlockTable := do
  Prog.require (t.blocks ≠ [])
  let t ← ensureNumEmptySlots p t (tokenIds.length + numLookaheadSlots)
  let t ← appendTokenBlocks p t (t.numFullSlots / p.blockSize) (chunkTokenBlocksForAppend p t tokenIds)
  pure { t with numFullSlots := t.numFullSlots + tokenIds.length }

/-- `free`. -/
def free (t : BlockTable) : BlockM BlockTable := do
  Prog.forM (BlockM.free p) t.blocks
  pure { t with blocks := [], blockIds := [] }

end BlockTable

end CoreFlow
