import CoreFlow.Block.BlockTable
import CoreFlow.Manager.Sequence

/-!
# The state of the block manager

`SelfAttnBlockSpaceManager` with prefix caching, and the two per-sequence trackers it owns.
`ManagerTrace` is a ghost: it remembers the copies the manager has asked for, the blocks that
swapped-out tables no longer list, and the admitted groups.
-/

namespace CoreFlow

/-- The configuration of the block manager. -/
structure ManagerParams extends BlockParams where
  numTotalGpuBlocks : Nat
  numTotalCpuBlocks : Nat
  watermarkBlocks : Nat

inductive AllocStatus where
  | ok
  | later
  | never
deriving DecidableEq, Repr

/-- `ComputedBlocksTracker`. -/
structure ComputedBlocksTracker where
  seqIdToBlocksHashes : Dict SeqId (List PrefixHash)
  seqIdToNumTokensComputed : Dict (SeqId × Device) Nat
deriving DecidableEq

/-- A value of `_gpu_cached_entries`. -/
structure GpuCachedEntry where
  requestId : RequestId
  seqIds : List SeqId
  tokenIds : List TokenId
deriving DecidableEq

/-- A pair of physical block numbers, source first. -/
abbrev SwapPair := Nat × Nat

/-- An admission: the group while it waited, the entry retained under its key and the blocks of that
entry, the prefix lengths found in the two caches; then the tokens registered as computed and the blocks
of the new table. -/
structure Admission where
  group : SequenceGroup
  entry : Option GpuCachedEntry
  entryBlockIds : List BlockId
  gpuCachedTokens : Nat
  cpuCachedTokens : Nat
  numComputedTokens : Int
  blockIds : List BlockId
deriving DecidableEq

/-- The ghost: the pairs that `allocate`, and that `swap_out` or `swap_out_finished`, have returned;
those among them that a caller did not use; the objects that `BlockTable.update` dropped from a
table; and the admissions. -/
structure ManagerTrace where
  swapIns : List SwapPair
  swapOuts : List SwapPair
  unused : List SwapPair
  dropped : List BlockRef
  admissions : List Admission
deriving DecidableEq

/-- `SelfAttnBlockSpaceManager`. -/
structure BlockSpaceManager where
  blockAllocator : CpuGpuBlockAllocator
  blockTables : Dict SeqId BlockTable
  computedBlocksTracker : ComputedBlocksTracker
  seqLastAccess : Dict SeqId (Option Int)
  syntheticCachedTokens : Dict SeqId Nat
  gpuCachedEntries : Dict (Int × Int) GpuCachedEntry
  trace : ManagerTrace
deriving DecidableEq

namespace BlockSpaceManager

/-- `__init__`. -/
def init (p : ManagerParams) : BlockSpaceManager where
  blockAllocator := .create p.numTotalGpuBlocks p.numTotalCpuBlocks
  blockTables := Dict.empty
  computedBlocksTracker := ⟨Dict.empty, Dict.empty⟩
  seqLastAccess := Dict.empty
  syntheticCachedTokens := Dict.empty
  gpuCachedEntries := Dict.empty
  trace := ⟨[], [], [], [], []⟩

/-- `can_allocate`, for a group that is waiting. -/
def canAllocate (p : ManagerParams) (m : BlockSpaceManager) (g : SequenceGroup)
    (numLookaheadSlots : Nat) : Option AllocStatus :=
  if g.status ≠ .waiting then none
  else
    let numRequiredBlocks : Int :=
      m.blockAllocator.getNumNewBlocksNeeded p.toBlockParams g.getTokenIds numLookaheadSlots
    let numFreeGpuBlocks : Int := (m.blockAllocator.on .gpu).getNumFreeBlocks
    some <|
      if (p.numTotalGpuBlocks : Int) - numRequiredBlocks < p.watermarkBlocks then .never
      else if numFreeGpuBlocks - numRequiredBlocks ≥ p.watermarkBlocks then .ok
      else .later

/-- `get_gpu_cached_entry`; the `(query_id, invocation_id)` of the group is the key. -/
def getGpuCachedEntry (m : BlockSpaceManager) (key : Int × Int) : Option GpuCachedEntry :=
  m.gpuCachedEntries.get? key

end BlockSpaceManager

/-- The body of a method of the block manager. -/
abbrev ManagerM (α : Type) := Prog BlockSpaceManager α

end CoreFlow
