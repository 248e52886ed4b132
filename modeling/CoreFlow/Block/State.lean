import CoreFlow.Block.Evictor
import CoreFlow.Lib.Bisect

/-!
# The state of the two block allocators

`CpuGpuBlockAllocator` owns one `PrefixCachingBlockAllocator` a device, and the two own the block
objects. A method of one allocator can be handed an object of the other one's pool, so every method
runs on the pair.

`BlockTrace` is a ghost: nothing in the program reads it. It remembers which objects have been handed
out and not been returned, and the branches taken at the places where memory changes hands.
-/

namespace CoreFlow

/-- `PrefixCachingBlockAllocator`, with its hashless allocator: `freeBlockIndices` and `refcounts` are
the ones the two share. -/
structure PrefixCachingBlockAllocator where
  cachedBlocks : Dict PrefixHash BlockId
  touchedBlocks : List BlockId
  blockTracker : Dict BlockId BlockTracker
  blockPool : BlockPool
  allBlockIndices : List BlockId
  freeBlockIndices : List BlockId
  refcounts : Dict BlockId Nat
  evictor : LRUEvictor
  copyOnWrites : List (BlockId × BlockId)
deriving DecidableEq

namespace PrefixCachingBlockAllocator

/-- `__init__`, over the ascending `block_ids`. -/
def init (blockIds : List BlockId) : PrefixCachingBlockAllocator where
  cachedBlocks := Dict.empty
  touchedBlocks := []
  blockTracker := Dict.ofKeys blockIds BlockTracker.init
  blockPool := BlockPool.init (blockIds.length * 4)
  allBlockIndices := blockIds
  freeBlockIndices := blockIds
  refcounts := Dict.ofKeys blockIds 0
  evictor := LRUEvictor.init
  copyOnWrites := []

def getNumFreeBlocks (a : PrefixCachingBlockAllocator) : Nat :=
  a.freeBlockIndices.length + a.evictor.numBlocks

def getNumTotalBlocks (a : PrefixCachingBlockAllocator) : Nat := a.allBlockIndices.length

/-- `get_physical_block_id`: the position among the sorted ids; `list.index` raises on others. -/
def getPhysicalBlockId (a : PrefixCachingBlockAllocator) (absoluteId : BlockId) : Option Nat :=
  if absoluteId ∈ a.allBlockIndices then some (a.allBlockIndices.idxOf absoluteId) else none

/-- `block_is_computed`; every id of the device has a tracker. -/
def blockIsComputed (a : PrefixCachingBlockAllocator) (blockId : BlockId) : Bool :=
  match a.blockTracker.get? blockId with
  | none => false
  | some t => if t.active then t.computed else decide (blockId ∈ a.evictor.freeTable)

/-- `_block_is_cached` inside `find_cached_blocks_prefix`. -/
def hashIsCached (a : PrefixCachingBlockAllocator) (blockHash : PrefixHash) : Bool :=
  match a.cachedBlocks.get? blockHash with
  | none => false
  | some cachedBlockId => a.blockIsComputed cachedBlockId

/-- `find_cached_blocks_prefix`. -/
def findCachedBlocksPrefix (a : PrefixCachingBlockAllocator) (blockHashes : List PrefixHash) :
    List PrefixHash :=
  blockHashes.take (Bisect.bisectLeft (fun h => a.hashIsCached h) blockHashes)

/-- The loop of `count_new_blocks_for_token_ids`, over the blocks of the token list. -/
def countNewBlocksAux (p : BlockParams) (a : PrefixCachingBlockAllocator) :
    Option PrefixHash → List (List TokenId) → Nat
  | _, [] => 0
  | prevBlockHash, blockTokenIds :: rest =>
    if blockTokenIds.length < p.blockSize then 1
    else
      let h := hashBlockTokens p prevBlockHash.isNone prevBlockHash blockTokenIds
      let needed := match a.cachedBlocks.get? h with
        | none => 1
        | some cachedBlockId =>
          if (a.blockTracker.get? cachedBlockId).any (·.active) then 0 else 1
      needed + countNewBlocksAux p a (some h) rest

/-- `count_new_blocks_for_token_ids`. -/
def countNewBlocksForTokenIds (p : BlockParams) (a : PrefixCachingBlockAllocator)
    (tokenIds : List TokenId) : Nat :=
  countNewBlocksAux p a none (chunkList tokenIds p.blockSize)

end PrefixCachingBlockAllocator

/-- What happens to a block object or to a physical block, as the ghost records it. -/
inductive BlockEvent where
  /-- `init_block` handed out an object that had not been returned. -/
  | reissued (r : BlockRef)
  /-- `free_block` put the `pool_id` of an object on the free list of the other device's pool. -/
  | strayFree (r : BlockRef)
  /-- The last reference to a cached block went; the evictor is the one it was added to. -/
  | released (d : Device) (blockId : BlockId) (contentHash : PrefixHash) (tracker : BlockTracker)
      (evictor : LRUEvictor)
  /-- A block that became full was replaced by a cached one of the same content. -/
  | promotedOnto (d : Device) (blockId : BlockId) (contentHash : PrefixHash) (computed : Bool)
deriving DecidableEq

/-- The ghost. -/
structure BlockTrace where
  held : List BlockRef
  events : List BlockEvent
deriving DecidableEq

/-- `CpuGpuBlockAllocator`. -/
structure CpuGpuBlockAllocator where
  allocators : PerDevice PrefixCachingBlockAllocator
  trace : BlockTrace
deriving DecidableEq

namespace CpuGpuBlockAllocator

/-- `create`: the GPU ids come before the CPU ids. -/
def create (numGpuBlocks numCpuBlocks : Nat) : CpuGpuBlockAllocator where
  allocators :=
    { gpu := .init (List.range numGpuBlocks)
      cpu := .init (List.range' numGpuBlocks numCpuBlocks) }
  trace := ⟨[], []⟩

/-- The allocator of a device. -/
def on (s : CpuGpuBlockAllocator) (d : Device) : PrefixCachingBlockAllocator := s.allocators.get d

/-- Replace the allocator of a device. -/
def setOn (s : CpuGpuBlockAllocator) (d : Device) (a : PrefixCachingBlockAllocator) :
    CpuGpuBlockAllocator :=
  { s with allocators := s.allocators.set d a }

@[simp] theorem on_setOn_self (s : CpuGpuBlockAllocator) (d : Device)
    (a : PrefixCachingBlockAllocator) : (s.setOn d a).on d = a :=
  PerDevice.get_set_self _ _ _

theorem on_setOn (s : CpuGpuBlockAllocator) (d e : Device) (a : PrefixCachingBlockAllocator) :
    (s.setOn d a).on e = if d = e then a else s.on e :=
  PerDevice.get_set _ _ _ _

@[simp] theorem trace_setOn (s : CpuGpuBlockAllocator) (d : Device)
    (a : PrefixCachingBlockAllocator) : (s.setOn d a).trace = s.trace := rfl

/-- The device of a physical block, `_block_ids_to_allocator`. -/
def deviceOf (s : CpuGpuBlockAllocator) (blockId : BlockId) : Option Device :=
  if blockId ∈ (s.on .gpu).allBlockIndices then some .gpu
  else if blockId ∈ (s.on .cpu).allBlockIndices then some .cpu
  else none

/-- `is_block_active`. -/
def isBlockActive (s : CpuGpuBlockAllocator) (blockId : BlockId) : Bool :=
  match s.deviceOf blockId with
  | none => false
  | some d => ((s.on d).blockTracker.get? blockId).any (·.active)

/-- `is_block_computed`. -/
def isBlockComputed (s : CpuGpuBlockAllocator) (blockId : BlockId) : Bool :=
  match s.deviceOf blockId with
  | none => false
  | some d => (s.on d).blockIsComputed blockId

/-- `get_num_new_blocks_needed`. -/
def getNumNewBlocksNeeded (p : BlockParams) (s : CpuGpuBlockAllocator) (tokenIds : List TokenId)
    (numLookaheadSlots : Nat) : Nat :=
  let totalBlocks := cdiv (tokenIds.length + numLookaheadSlots) p.blockSize
  let baseBlocks := (s.on .gpu).countNewBlocksForTokenIds p tokenIds
  baseBlocks + (totalBlocks - cdiv tokenIds.length p.blockSize)

/-- The block object behind a reference. -/
def block? (s : CpuGpuBlockAllocator) (r : BlockRef) : Option Block :=
  (s.on r.device).blockPool.pool[r.poolId]?

/-- Change the block object behind a reference. -/
def modifyBlock (s : CpuGpuBlockAllocator) (r : BlockRef) (f : Block → Block) : CpuGpuBlockAllocator :=
  let a := s.on r.device
  s.setOn r.device
    { a with blockPool := { a.blockPool with pool := a.blockPool.pool.modify r.poolId f } }

/-- The number of block objects there are; no chain of distinct objects is longer. -/
def numObjects (s : CpuGpuBlockAllocator) : Nat :=
  (s.on .gpu).blockPool.poolSize + (s.on .cpu).blockPool.poolSize

/-- Record an event. -/
def log (s : CpuGpuBlockAllocator) (e : BlockEvent) : CpuGpuBlockAllocator :=
  { s with trace := { s.trace with events := s.trace.events ++ [e] } }

end CpuGpuBlockAllocator

/-- The body of a method that works on blocks. -/
abbrev BlockM (α : Type) := Prog CpuGpuBlockAllocator α

end CoreFlow
