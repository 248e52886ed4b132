import CoreFlow.Manager.State

/-!
# `SelfAttnBlockSpaceManager`

Allocation with its CPU-prefix swap-in, slots for new tokens, swap-out, retained GPU entries and the
registration of migrated caches.
-/

namespace CoreFlow

/-- `l[:n]`: a negative bound counts from the end. -/
def sliceTo {α : Type} (l : List α) (n : Int) : List α :=
  if 0 ≤ n then l.take n.toNat else l.take (l.length - n.natAbs)

namespace ManagerM

/-- Run a method of the block allocators. -/
def onBlocks {α : Type} (x : BlockM α) : ManagerM α :=
  Prog.zoom (·.blockAllocator) (fun m s => { m with blockAllocator := s }) x

def setTable (seqId : SeqId) (t : BlockTable) : ManagerM Unit :=
  Prog.update fun m => { m with blockTables := m.blockTables.set seqId t }

def eraseTable (seqId : SeqId) : ManagerM Unit :=
  Prog.update fun m => { m with blockTables := m.blockTables.erase seqId }

def getTable (seqId : SeqId) : ManagerM BlockTable := do
  let m ← Prog.read
  Prog.ofOption (m.blockTables.get? seqId)

/-- Ghost: the caller of `allocate` or `swap_out` does nothing with the pairs. -/
def leaveUnused (pairs : List SwapPair) : ManagerM Unit :=
  Prog.update fun m => { m with trace := { m.trace with unused := m.trace.unused ++ pairs } }

variable (p : ManagerParams)

/-! ## The trackers -/

/-- The hashes of consecutive full blocks after the block with hash `prevBlockHash`. -/
def hashesAfter (p : BlockParams) : PrefixHash → List (List TokenId) → List PrefixHash
  | _, [] => []
  | prevBlockHash, blockTokenIds :: rest =>
    let h := hashBlockTokens p (prevBlockHash = noneHash) (some prevBlockHash) blockTokenIds
    h :: hashesAfter p h rest

/-- `_update_seq_hashes`. -/
def updateSeqHashes (g : SequenceGroup) : ManagerM Unit := do
  let m ← Prog.read
  let recorded := (m.computedBlocksTracker.seqIdToBlocksHashes.get? g.seqId).getD []
  let tokenIds := g.getTokenIds
  Prog.require (recorded.length * p.blockSize ≤ tokenIds.length)
  let numComputedBlocks := tokenIds.length / p.blockSize
  let newBlocks := (List.range' recorded.length (numComputedBlocks - recorded.length)).map fun i =>
    (tokenIds.drop (i * p.blockSize)).take p.blockSize
  let hashes := recorded ++ hashesAfter p.toBlockParams (recorded.getLastD noneHash) newBlocks
  Prog.update fun m =>
    { m with computedBlocksTracker :=
        { m.computedBlocksTracker with
          seqIdToBlocksHashes := m.computedBlocksTracker.seqIdToBlocksHashes.set g.seqId hashes } }

/-- The assignment `_seq_id_to_num_tokens_computed[(seq_id, device)] = n`. -/
def setNumTokensComputed (seqId : SeqId) (d : Device) (n : Nat) : ManagerM Unit :=
  Prog.update fun m =>
    { m with computedBlocksTracker :=
        { m.computedBlocksTracker with
          seqIdToNumTokensComputed :=
            m.computedBlocksTracker.seqIdToNumTokensComputed.set (seqId, d) n } }

/-- `get_num_cached_tokens`: a sequence in prefill does not see its count change. -/
def getNumCachedTokens (g : SequenceGroup) (d : Device) : ManagerM Nat := do
  updateSeqHashes p g
  let m ← Prog.read
  let tracker := m.computedBlocksTracker
  let compute : ManagerM Nat := do
    let blockHashes ← Prog.ofOption (tracker.seqIdToBlocksHashes.get? g.seqId)
    let n := ((m.blockAllocator.on d).findCachedBlocksPrefix blockHashes).length * p.blockSize
    setNumTokensComputed g.seqId d n
    pure n
  match tracker.seqIdToNumTokensComputed.get? (g.seqId, d) with
  | some n => if g.isPrefill then pure n else compute
  | none => compute

/-- `update_num_cached_tokens`. -/
def updateNumCachedTokens (g : SequenceGroup) (n : Nat) (d : Device) : ManagerM Unit := do
  updateSeqHashes p g
  setNumTokensComputed g.seqId d n

/-- `ComputedBlocksTracker.remove_seq`. -/
def removeSeq (seqId : SeqId) : ManagerM Unit :=
  Prog.update fun m =>
    if seqId ∈ m.computedBlocksTracker.seqIdToBlocksHashes then
      { m with computedBlocksTracker :=
          { seqIdToBlocksHashes := m.computedBlocksTracker.seqIdToBlocksHashes.erase seqId
            seqIdToNumTokensComputed :=
              (m.computedBlocksTracker.seqIdToNumTokensComputed.erase (seqId, .gpu)).erase
                (seqId, .cpu) } }
    else m

/-- `remove_seq_from_computed_blocks_tracker`. -/
def removeSeqFromComputedBlocksTracker (seqId : SeqId) : ManagerM Unit := do
  removeSeq seqId
  Prog.update fun m => { m with syntheticCachedTokens := m.syntheticCachedTokens.erase seqId }

/-- `LastAccessBlocksTracker.add_seq`. -/
def addSeq (seqId : SeqId) : ManagerM Unit := do
  let m ← Prog.read
  Prog.require (seqId ∉ m.seqLastAccess)
  Prog.update fun m => { m with seqLastAccess := m.seqLastAccess.set seqId none }

/-- `access_all_blocks_in_seq`. -/
def accessAllBlocksInSeq (seqId : SeqId) (now : Int) : ManagerM Unit := do
  let m ← Prog.read
  Prog.require (seqId ∈ m.seqLastAccess)
  Prog.update fun m => { m with seqLastAccess := m.seqLastAccess.set seqId (some now) }

/-- `update_seq_blocks_last_access` followed by `remove_seq`. -/
def flushLastAccess (seqId : SeqId) (blockIds : List BlockId) : ManagerM Unit := do
  let m ← Prog.read
  let ts ← Prog.ofOption (m.seqLastAccess.get? seqId)
  (match ts with
    | none => pure ()
    | some now => onBlocks (BlockM.markBlocksAsAccessed blockIds now))
  Prog.update fun m => { m with seqLastAccess := m.seqLastAccess.erase seqId }

/-! ## Allocation -/

/-- Physical block numbers of a swap mapping. -/
def physicalMapping (srcDevice dstDevice : Device) (mapping : Dict BlockId BlockId) :
    ManagerM (List SwapPair) := do
  let m ← Prog.read
  Prog.mapM (fun (src, dst) => do
    let src ← Prog.ofOption ((m.blockAllocator.on srcDevice).getPhysicalBlockId src)
    let dst ← Prog.ofOption ((m.blockAllocator.on dstDevice).getPhysicalBlockId dst)
    pure (src, dst)) mapping.entries

/-- `_swap_in_cpu_prefix_if_needed`. -/
def swapInCpuPrefixIfNeeded (g : SequenceGroup) : ManagerM (List SwapPair) := do
  let gpuCachedTokens ← getNumCachedTokens p g .gpu
  let cpuCachedTokens ← getNumCachedTokens p g .cpu
  let prefixTokenIds := g.getTokenIds.take cpuCachedTokens
  if cpuCachedTokens ≤ gpuCachedTokens ∨ prefixTokenIds = [] then pure []
  else do
    let cpuBlockTable ← onBlocks (BlockTable.empty.allocate p.toBlockParams prefixTokenIds .cpu)
    let blocksToSwap := cpuBlockTable.blocks.drop (gpuCachedTokens / p.blockSize)
    let seqSwapMapping ← onBlocks (BlockM.swap p.toBlockParams blocksToSwap .cpu .gpu)
    let ids ← onBlocks (BlockM.blockIds blocksToSwap)
    let gpuBlockIds := ids.filterMap id
    Prog.when (gpuBlockIds ≠ []) (onBlocks (BlockM.markBlocksAsComputed gpuBlockIds))
    updateNumCachedTokens p g cpuCachedTokens .gpu
    let _ ← onBlocks (cpuBlockTable.free p.toBlockParams)
    physicalMapping .cpu .gpu seqSwapMapping

/-- `_allocate_sequence`. -/
def allocateSequence (g : SequenceGroup) : ManagerM BlockTable :=
  if g.getTokenIds = [] then pure BlockTable.empty
  else onBlocks (BlockTable.empty.allocate p.toBlockParams g.getTokenIds .gpu)

/-- `allocate`. -/
def allocate (g : SequenceGroup) : ManagerM (List SwapPair) := do
  Prog.require (g.status = .waiting)
  let m ← Prog.read
  Prog.require (g.seqId ∉ m.blockTables)
  let blockTable ← allocateSequence p g
  setTable g.seqId blockTable
  let blocksToSwapIn ← swapInCpuPrefixIfNeeded p g
  addSeq g.seqId
  Prog.update fun m => { m with trace := { m.trace with swapIns := m.trace.swapIns ++ blocksToSwapIn } }
  pure blocksToSwapIn

/-- `can_append_slots`, for a group of which only a running sequence counts. -/
def canAppendSlots (g : SequenceGroup) (numLookaheadSlots : Nat) : ManagerM Bool := do
  let m ← Prog.read
  let numTouchedBlocks ← (if g.status = .running then do
      let t ← getTable g.seqId
      pure (t.getNumBlocksTouchedByAppendSlots p.toBlockParams (t.getUnseenTokenIds g.getTokenIds)
        numLookaheadSlots)
    else pure 0)
  pure (decide (numTouchedBlocks ≤ (m.blockAllocator.on .gpu).getNumFreeBlocks))

/-- `append_slots`. -/
def appendSlots (g : SequenceGroup) (numLookaheadSlots : Nat) : ManagerM (List (BlockId × BlockId)) := do
  let t ← getTable g.seqId
  let t ← onBlocks
    (t.appendTokenIds p.toBlockParams (t.getUnseenTokenIds g.getTokenIds) numLookaheadSlots)
  setTable g.seqId t
  onBlocks BlockM.clearCopyOnWrites

/-! ## Marks -/

/-- `mark_blocks_as_computed`. -/
def markBlocksAsComputed (g : SequenceGroup) (tokenChunkSize : Int) : ManagerM Unit := do
  let m ← Prog.read
  Prog.when (g.status = .running)
    (match m.blockTables.get? g.seqId with
      | none => pure ()
      | some t => do
        let computedAfter := min g.getLen (g.numComputedTokens + tokenChunkSize)
        let blockIds := sliceTo t.blockIds (computedAfter / p.blockSize)
        Prog.when (blockIds ≠ []) (onBlocks (BlockM.markBlocksAsComputed blockIds)))

/-- `register_synthetic_cached_tokens`. -/
def registerSyntheticCachedTokens (g : SequenceGroup) (cachedTokens : Int) : ManagerM Int := do
  let m ← Prog.read
  match m.blockTables.get? g.seqId with
  | none => pure 0
  | some t => do
    let effectiveTokens := (min (max cachedTokens 0) g.getPromptLen).toNat / p.blockSize * p.blockSize
    let blockIds := t.blockIds.take (effectiveTokens / p.blockSize)
    let effectiveTokens := blockIds.length * p.blockSize
    if effectiveTokens = 0 then do
      Prog.update fun m => { m with syntheticCachedTokens := m.syntheticCachedTokens.erase g.seqId }
      pure 0
    else do
      Prog.update fun m =>
        { m with syntheticCachedTokens := m.syntheticCachedTokens.set g.seqId effectiveTokens }
      onBlocks (BlockM.markBlocksAsComputed blockIds)
      pure effectiveTokens

/-- `get_common_computed_block_ids`, of the running sequence of the group. -/
def getCommonComputedBlockIds (g : SequenceGroup) : ManagerM (List BlockId) :=
  if g.status ≠ .running then pure []
  else do
    let t ← getTable g.seqId
    let m ← Prog.read
    let numCachedTokens ← (match m.syntheticCachedTokens.get? g.seqId with
      | some n => pure n
      | none => getNumCachedTokens p g .gpu)
    Prog.require (numCachedTokens % p.blockSize = 0)
    pure (t.blockIds.take (numCachedTokens / p.blockSize))

/-! ## Release -/

/-- The table of a sequence is freed and forgotten. -/
def freeTable (seqId : SeqId) (t : BlockTable) : ManagerM Unit := do
  let _ ← onBlocks (t.free p.toBlockParams)
  eraseTable seqId

/-- `free`. -/
def free (seqId : SeqId) : ManagerM Unit := do
  let m ← Prog.read
  match m.blockTables.get? seqId with
  | none => pure ()
  | some t => do
    flushLastAccess seqId t.blockIds
    removeSeqFromComputedBlocksTracker seqId
    freeTable p seqId t

/-- `_free_cached_seq_blocks`. -/
def freeCachedSeqBlocks (seqIds : List SeqId) : ManagerM Unit :=
  Prog.forM (fun seqId => do
    let m ← Prog.read
    match m.blockTables.get? seqId with
    | none => pure ()
    | some t => do
      flushLastAccess seqId t.blockIds
      removeSeq seqId
      freeTable p seqId t) seqIds

/-- `evict_cached_blocks`; `consume_gpu_cached_entry` does the same to the manager. -/
def evictCachedBlocks (key : Int × Int) : ManagerM Unit := do
  let m ← Prog.read
  match m.gpuCachedEntries.get? key with
  | none => pure ()
  | some e => do
    Prog.update fun m => { m with gpuCachedEntries := m.gpuCachedEntries.erase key }
    freeCachedSeqBlocks p e.seqIds

/-- `consume_gpu_cached_entry`. -/
def consumeGpuCachedEntry (key : Int × Int) : ManagerM Unit := evictCachedBlocks p key

/-- `free_request_cache`. -/
def freeRequestCache (g : SequenceGroup) : ManagerM Unit :=
  match g.cacheKey with
  | none => pure ()
  | some key => evictCachedBlocks p key

/-- `free_finished_blocks`. -/
def freeFinishedBlocks (g : SequenceGroup) : ManagerM Unit :=
  match g.cacheKey with
  | none => pure ()
  | some key => evictCachedBlocks p key

/-- `retain_blocks`. -/
def retainBlocks (g : SequenceGroup) : ManagerM Unit :=
  match g.cacheKey with
  | none => pure ()
  | some key => do
    evictCachedBlocks p key
    let e : GpuCachedEntry :=
      if g.isFinished then ⟨g.requestId, [g.seqId], g.getTokenIds⟩ else ⟨g.requestId, [], []⟩
    Prog.update fun m => { m with gpuCachedEntries := m.gpuCachedEntries.set key e }

/-! ## Swap-out -/

/-- `_collect_blocks_for_swap`, of the one sequence of the group. -/
def collectBlocksForSwap (g : SequenceGroup) (status : Option SequenceStatus) :
    ManagerM (Option (BlockTable × List BlockRef)) := do
  let m ← Prog.read
  if status.all (g.status = ·) = false then pure none
  else
    match m.blockTables.get? g.seqId with
    | none => pure none
    | some t => do
      let selected ← Prog.mapM (fun r => do
        let b ← onBlocks (BlockM.getBlock r)
        pure (r, b.isFull p.toBlockParams && b.blockId.any m.blockAllocator.isBlockComputed)) t.blocks
      let selectedBlocks := (selected.filter (·.2)).map (·.1)
      pure (if selectedBlocks = [] then none else some (t, selectedBlocks))

/-- `_swap_out_group`. -/
def swapOutGroup (g : SequenceGroup) (status : Option SequenceStatus) (now : Int) :
    ManagerM (Option (List SwapPair)) := do
  match ← collectBlocksForSwap p g status with
  | none => pure none
  | some (t, blocks) => do
    let neededCpuBlocks ← onBlocks (BlockM.getNumFullBlocksTouched p.toBlockParams blocks .cpu)
    let m ← Prog.read
    if neededCpuBlocks > (m.blockAllocator.on .cpu).getNumFreeBlocks then pure none
    else do
      onBlocks (BlockM.markBlocksAsAccessed t.blockIds now)
      let seqSwapMapping ← onBlocks (BlockM.swap p.toBlockParams blocks .gpu .cpu)
      let t' ← onBlocks (t.update blocks)
      setTable g.seqId t'
      let mapping ← physicalMapping .gpu .cpu seqSwapMapping
      Prog.update fun m =>
        { m with trace :=
            { m.trace with
              swapOuts := m.trace.swapOuts ++ mapping
              dropped := m.trace.dropped ++ t.blocks.filter (· ∉ blocks) } }
      pure (some mapping)

/-- `can_swap_out`. -/
def canSwapOut (g : SequenceGroup) : ManagerM Bool := do
  match ← collectBlocksForSwap p g (some .running) with
  | none => pure true
  | some (_, blocks) => do
    let neededCpuBlocks ← onBlocks (BlockM.getNumFullBlocksTouched p.toBlockParams blocks .cpu)
    let m ← Prog.read
    pure (decide (neededCpuBlocks ≤ (m.blockAllocator.on .cpu).getNumFreeBlocks))

/-- `swap_out`. -/
def swapOut (g : SequenceGroup) (now : Int) : ManagerM (List SwapPair) := do
  match ← swapOutGroup p g (some .running) now with
  | none => pure []
  | some mapping => pure mapping

/-- `swap_out_finished`. -/
def swapOutFinished (g : SequenceGroup) (now : Int) : ManagerM (Option (List SwapPair)) :=
  swapOutGroup p g none now

/-! ## Migrated caches -/

/-- `register_migrated_cpu_cache`. -/
def registerMigratedCpuCache (tokenIds : List TokenId) (now : Int) : ManagerM Bool := do
  let fullTokenIds := tokenIds.take (tokenIds.length / p.blockSize * p.blockSize)
  if fullTokenIds = [] then pure false
  else do
    let t ← onBlocks (BlockTable.empty.allocate p.toBlockParams fullTokenIds .cpu)
    let ids ← Prog.mapM (fun r => do
      let b ← onBlocks (BlockM.getBlock r)
      pure (if b.isFull p.toBlockParams then b.blockId else none)) t.blocks
    let fullBlockIds := ids.filterMap id
    Prog.when (fullBlockIds ≠ []) do
      onBlocks (BlockM.markBlocksAsComputedOn .cpu fullBlockIds)
      onBlocks (BlockM.markBlocksAsAccessed fullBlockIds now)
    let _ ← onBlocks (t.free p.toBlockParams)
    pure true

end ManagerM

end CoreFlow
