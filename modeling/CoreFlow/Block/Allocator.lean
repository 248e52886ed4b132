import CoreFlow.Block.State

/-!
# `PrefixCachingBlockAllocator`

The methods of the allocator of one device, and the methods of `PrefixCachingBlock` that call back
into the allocator that created the block. A block object is passed as a reference, and `d` is the
`self` of an allocator method.
-/

namespace CoreFlow

namespace BlockM
open CpuGpuBlockAllocator

def getBlock (r : BlockRef) : BlockM Block := do
  let s ← Prog.read
  Prog.ofOption (s.block? r)

def modifyBlock (r : BlockRef) (f : Block → Block) : BlockM Unit :=
  Prog.update (·.modifyBlock r f)

def setBlockId (r : BlockRef) (blockId : Option BlockId) : BlockM Unit :=
  modifyBlock r fun b => { b with blockId := blockId }

/-- The allocator `d`. -/
def self (d : Device) : BlockM PrefixCachingBlockAllocator := do
  let s ← Prog.read
  pure (s.on d)

def modifySelf (d : Device) (f : PrefixCachingBlockAllocator → PrefixCachingBlockAllocator) :
    BlockM Unit :=
  Prog.update fun s => s.setOn d (f (s.on d))

def log (e : BlockEvent) : BlockM Unit := Prog.update (·.log e)

end BlockM

namespace BlockM

/-! ## Counters and trackers -/

/-- `RefCounter.incr`. -/
def incr (d : Device) (blockId : BlockId) : BlockM Nat := do
  let a ← self d
  let n ← Prog.ofOption (a.refcounts.get? blockId)
  modifySelf d fun a => { a with refcounts := a.refcounts.set blockId (n + 1) }
  pure (n + 1)

/-- `RefCounter.decr`. -/
def decr (d : Device) (blockId : BlockId) : BlockM Nat := do
  let a ← self d
  let n ← Prog.ofOption (a.refcounts.get? blockId)
  Prog.require (0 < n)
  modifySelf d fun a => { a with refcounts := a.refcounts.set blockId (n - 1) }
  pure (n - 1)

/-- `RefCounter.get`. -/
def refcount (d : Device) (blockId : BlockId) : BlockM Nat := do
  let a ← self d
  Prog.ofOption (a.refcounts.get? blockId)

/-- `_track_block_id`. -/
def trackBlockId (d : Device) (blockId : BlockId) (computed : Bool) : BlockM Unit := do
  let a ← self d
  let t ← Prog.ofOption ((a.blockTracker.get? blockId).bind (·.enable computed))
  modifySelf d fun a => { a with blockTracker := a.blockTracker.set blockId t }

/-- `_untrack_block_id`. -/
def untrackBlockId (d : Device) (blockId : BlockId) : BlockM Unit := do
  let a ← self d
  let t ← Prog.ofOption ((a.blockTracker.get? blockId).bind (·.disable))
  modifySelf d fun a => { a with blockTracker := a.blockTracker.set blockId t }

/-! ## Block objects -/

variable (p : BlockParams)

/-- `PrefixCachingBlock._update_num_tokens_total`. -/
def updateNumTokensTotal (r : BlockRef) : BlockM Unit := do
  let b ← getBlock r
  let prev ← (match b.prevBlock with
    | none => pure 0
    | some q => do
      let pb ← getBlock q
      pure pb.cachedNumTokensTotal)
  modifyBlock r fun b => { b with cachedNumTokensTotal := prev + b.tokenIds.length }

/-- `BlockPool.init_block`. -/
def initBlock (d : Device) (prevBlock : Option BlockRef) (tokenIds : List TokenId)
    (physicalBlockId : Option BlockId) : BlockM BlockRef := do
  let a ← self d
  let bp := if a.blockPool.freeIds = [] then a.blockPool.increasePool else a.blockPool
  match bp.freeIds with
  | [] => Prog.raise
  | poolId :: freeIds => do
    Prog.require (poolId < bp.poolSize)
    Prog.require (tokenIds.length ≤ p.blockSize)
    let r : BlockRef := ⟨d, poolId⟩
    let s ← Prog.read
    Prog.when (r ∈ s.trace.held) (log (.reissued r))
    modifySelf d fun a => { a with blockPool := { bp with freeIds := freeIds } }
    modifyBlock r fun _ => ⟨prevBlock, tokenIds, physicalBlockId, false, none, 0⟩
    updateNumTokensTotal r
    Prog.update fun s => { s with trace := { s.trace with held := r :: s.trace.held } }
    pure r

/-- `BlockPool.free_block`. -/
def freeBlock (d : Device) (r : BlockRef) : BlockM Unit := do
  modifySelf d fun a =>
    { a with blockPool := { a.blockPool with freeIds := r.poolId :: a.blockPool.freeIds } }
  Prog.update fun s => { s with trace := { s.trace with held := s.trace.held.erase r } }
  Prog.when (d ≠ r.device) (log (.strayFree r))

/-- `PrefixCachingBlock.content_hash`; the first argument bounds the length of the chain. -/
def contentHashAux : Nat → BlockRef → BlockM (Option PrefixHash)
  | 0, _ => Prog.raise
  | n + 1, r => do
    let b ← getBlock r
    match b.cachedContentHash with
    | some h => pure (some h)
    | none =>
      if b.isFull p = false then pure none
      else do
        let isFirstBlock := b.prevBlock.isNone
        let prevBlockHash ← (match b.prevBlock with
          | none => pure (some noneHash)
          | some q => contentHashAux n q)
        -- the previous block exists but does not yet have a hash
        if prevBlockHash = some noneHash ∧ isFirstBlock = false then pure none
        else do
          let h := hashBlockTokens p isFirstBlock prevBlockHash b.tokenIds
          modifyBlock r fun b => { b with cachedContentHash := some h }
          pure (some h)

def contentHash (r : BlockRef) : BlockM (Option PrefixHash) := do
  let s ← Prog.read
  contentHashAux p (s.numObjects + 1) r

/-! ## Allocation of physical blocks -/

/-- `_maybe_allocate_hashless_block_id`: a temporary block object is taken and put back. -/
def maybeAllocateHashlessBlockId (d : Device) : BlockM (Option BlockId) := do
  let a ← self d
  match a.freeBlockIndices with
  | [] => pure none
  | blockId :: rest => do
    modifySelf d fun a => { a with freeBlockIndices := rest }
    let _ ← incr d blockId
    let r ← initBlock p d none [] (some blockId)
    freeBlock d r
    trackBlockId d blockId false
    pure (some blockId)

/-- `_maybe_allocate_evicted_block_id`. -/
def maybeAllocateEvictedBlockId (d : Device) : BlockM (Option BlockId) := do
  let a ← self d
  if a.evictor.numBlocks = 0 then pure none
  else do
    let ((blockId, contentHashToEvict), evictor) ← Prog.ofOption a.evictor.evict
    modifySelf d fun a => { a with evictor := evictor }
    let cachedId ← Prog.ofOption (a.cachedBlocks.get? contentHashToEvict)
    let n ← refcount d cachedId
    Prog.require (n = 0)
    Prog.require (cachedId = blockId)
    modifySelf d fun a => { a with cachedBlocks := a.cachedBlocks.erase contentHashToEvict }
    let _ ← incr d blockId
    trackBlockId d blockId false
    pure (some blockId)

/-- `_allocate_block_id`. -/
def allocateBlockId (d : Device) : BlockM BlockId := do
  match ← maybeAllocateHashlessBlockId p d with
  | some blockId => pure blockId
  | none => do
    match ← maybeAllocateEvictedBlockId d with
    | some blockId => pure blockId
    | none => Prog.raise

/-! ## References to physical blocks -/

/-- `_incr_refcount_cached_block`. -/
def incrRefcountCachedBlock (d : Device) (r : BlockRef) : BlockM Unit := do
  modifyBlock r fun b => { b with computed := true }
  let b ← getBlock r
  let blockId ← Prog.ofOption b.blockId
  let n ← incr d blockId
  Prog.when (n = 1) do
    let a ← self d
    Prog.when (blockId ∈ a.evictor.freeTable) do
      let evictor ← Prog.ofOption (a.evictor.remove blockId)
      modifySelf d fun a => { a with evictor := evictor }
    trackBlockId d blockId true

/-- `_decr_refcount_cached_block`. -/
def decrRefcountCachedBlock (d : Device) (r : BlockRef) : BlockM Unit := do
  let h ← contentHash p r
  let h ← Prog.ofOption h
  let b ← getBlock r
  let blockId ← Prog.ofOption b.blockId
  let n ← decr d blockId
  if 0 < n then setBlockId r none
  else do
    let a ← self d
    Prog.require (h ∈ a.cachedBlocks)
    let t ← Prog.ofOption (a.blockTracker.get? blockId)
    log (.released d blockId h t a.evictor)
    modifySelf d fun a =>
      { a with evictor := a.evictor.add blockId h b.cachedNumTokensTotal t.lastAccessed }
    untrackBlockId d blockId
    setBlockId r none

/-- `_decr_refcount_hashless_block`, with `NaiveBlockAllocator.free(block, keep_block_object=True)`. -/
def decrRefcountHashlessBlock (d : Device) (r : BlockRef) : BlockM Unit := do
  let b ← getBlock r
  let blockId ← Prog.ofOption b.blockId
  let n ← refcount d blockId
  Prog.when (n = 1) (untrackBlockId d blockId)
  setBlockId r none
  let n ← decr d blockId
  Prog.when (n = 0)
    (modifySelf d fun a => { a with freeBlockIndices := blockId :: a.freeBlockIndices })

/-- `_free_block_id`. -/
def freeBlockId (d : Device) (r : BlockRef) : BlockM Unit := do
  let b ← getBlock r
  Prog.require (b.blockId ≠ none)
  let h ← contentHash p r
  (match h with
    | some _ => decrRefcountCachedBlock p d r
    | none => decrRefcountHashlessBlock d r)
  let b ← getBlock r
  Prog.require (b.blockId = none)

/-- `PrefixCachingBlockAllocator.free`. -/
def freeOn (d : Device) (r : BlockRef) : BlockM Unit := do
  freeBlockId p d r
  freeBlock d r

/-- `promote_to_immutable_block`. -/
def promoteToImmutableBlock (d : Device) (r : BlockRef) : BlockM BlockId := do
  let h ← contentHash p r
  let h ← Prog.ofOption h
  let b ← getBlock r
  let blockId ← Prog.ofOption b.blockId
  let n ← refcount d blockId
  Prog.require (0 < n)
  let a ← self d
  match a.cachedBlocks.get? h with
  | none => do
    modifySelf d fun a =>
      { a with
        cachedBlocks := a.cachedBlocks.set h blockId
        touchedBlocks := a.touchedBlocks.insert blockId }
    pure blockId
  | some cachedId => do
    log (.promotedOnto d cachedId h (a.blockIsComputed cachedId))
    decrRefcountHashlessBlock d r
    setBlockId r (some cachedId)
    incrRefcountCachedBlock d r
    pure cachedId

/-- `cow_block_if_not_appendable`, on the naive block inside a prefix caching one. -/
def cowBlockIfNotAppendable (d : Device) (r : BlockRef) : BlockM BlockId := do
  let b ← getBlock r
  let srcBlockId ← Prog.ofOption b.blockId
  let n ← refcount d srcBlockId
  if n ≤ 1 then pure srcBlockId
  else do
    decrRefcountHashlessBlock d r
    let trgBlockId ← allocateBlockId p d
    modifySelf d fun a => { a with copyOnWrites := a.copyOnWrites ++ [(srcBlockId, trgBlockId)] }
    pure trgBlockId

/-- `PrefixCachingBlock.append_token_ids`; the block calls the allocator that created it. -/
def appendTokenIds (r : BlockRef) (tokenIds : List TokenId) : BlockM Unit := do
  let h ← contentHash p r
  Prog.require (h = none)
  let b ← getBlock r
  Prog.require (b.computed = false)
  if tokenIds = [] then pure ()
  else do
    Prog.require (b.tokenIds.length + tokenIds.length ≤ p.blockSize)
    modifyBlock r fun b => { b with tokenIds := b.tokenIds ++ tokenIds }
    Prog.when (b.blockId ≠ none) do
      let blockId ← cowBlockIfNotAppendable p r.device r
      setBlockId r (some blockId)
    updateNumTokensTotal r
    match ← contentHash p r with
    | none => pure ()
    | some _ => do
      let blockId ← promoteToImmutableBlock p r.device r
      setBlockId r (some blockId)

/-- `allocate_mutable_block`. -/
def allocateMutableBlock (d : Device) (prevBlock : Option BlockRef) : BlockM BlockRef := do
  let blockId ← allocateBlockId p d
  let r ← initBlock p d prevBlock [] (some blockId)
  let h ← contentHash p r
  Prog.require (h = none)
  pure r

/-- `allocate_immutable_block`. -/
def allocateImmutableBlock (d : Device) (prevBlock : Option BlockRef) (tokenIds : List TokenId) :
    BlockM BlockRef := do
  let r ← initBlock p d prevBlock tokenIds none
  let h ← contentHash p r
  let h ← Prog.ofOption h
  let a ← self d
  match a.cachedBlocks.get? h with
  | some cachedId => do
    setBlockId r (some cachedId)
    incrRefcountCachedBlock d r
    pure r
  | none => do
    freeBlock d r
    let r ← allocateMutableBlock p d prevBlock
    appendTokenIds p r tokenIds
    pure r

/-- `allocate_immutable_blocks`. -/
def allocateImmutableBlocks (d : Device) :
    Option BlockRef → List (List TokenId) → BlockM (List BlockRef)
  | _, [] => pure []
  | prevBlock, tokenIds :: rest => do
    let r ← allocateImmutableBlock p d prevBlock tokenIds
    let rs ← allocateImmutableBlocks d (some r) rest
    pure (r :: rs)

/-! ## Swapping -/

/-- `swap_out`. -/
def swapOut (d : Device) (blocks : List BlockRef) : BlockM Unit := Prog.forM (freeBlockId p d) blocks

/-- The body of the loop of `swap_in`: a temporary block is allocated and its id handed over. -/
def swapInBlock (d : Device) (r : BlockRef) : BlockM Unit := do
  let b ← getBlock r
  let tmp ← (if b.isFull p then allocateImmutableBlock p d b.prevBlock b.tokenIds
    else do
      let tmp ← allocateMutableBlock p d b.prevBlock
      appendTokenIds p tmp b.tokenIds
      pure tmp)
  let t ← getBlock tmp
  freeBlock d tmp
  setBlockId r t.blockId

/-- `swap_in`. -/
def swapIn (d : Device) (blocks : List BlockRef) : BlockM Unit := Prog.forM (swapInBlock p d) blocks

/-! ## Marks -/

/-- `mark_blocks_as_accessed`. -/
def markBlocksAsAccessedOn (d : Device) (blockIds : List BlockId) (now : Int) : BlockM Unit :=
  Prog.forM (fun blockId => do
    let a ← self d
    let t ← Prog.ofOption (a.blockTracker.get? blockId)
    if t.active then
      modifySelf d fun a =>
        { a with blockTracker := a.blockTracker.set blockId { t with lastAccessed := now } }
    else do
      let evictor ← Prog.ofOption (a.evictor.update blockId now)
      modifySelf d fun a => { a with evictor := evictor }) blockIds

/-- The assignment `self._block_tracker[block_id].computed = True`. -/
def markBlockAsComputed (d : Device) (blockId : BlockId) : BlockM Unit := do
  let a ← self d
  let t ← Prog.ofOption (a.blockTracker.get? blockId)
  modifySelf d fun a =>
    { a with blockTracker := a.blockTracker.set blockId { t with computed := true } }

/-- `mark_blocks_as_computed`: the given blocks, or all touched ones when there are none. -/
def markBlocksAsComputedOn (d : Device) (blockIds : List BlockId) : BlockM Unit := do
  let a ← self d
  if blockIds = [] then do
    Prog.forM (markBlockAsComputed d) a.touchedBlocks
    modifySelf d fun a => { a with touchedBlocks := [] }
  else do
    Prog.forM (markBlockAsComputed d) blockIds
    modifySelf d fun a =>
      { a with touchedBlocks := a.touchedBlocks.filter (· ∉ blockIds) }

end BlockM

end CoreFlow
