import CoreFlow.Block.Attempts
import CoreFlow.Manager.BlockManager

/-!
# Methods of the block manager that can run out of blocks

The methods that allocate, with the state that a `NoFreeBlocksError` leaves. The allocations are the attempts of
the block allocators; all other calls are steps.
-/

namespace CoreFlow

abbrev ManagerAttempt (α : Type) := Attempt Raised BlockSpaceManager α

namespace ManagerAttempt
open Attempt

/-- A method that does not allocate. -/
def step {α : Type} (m : ManagerM α) : ManagerAttempt α := lift .other m

/-- Run an attempt of the block allocators. -/
def onBlocks {α : Type} (x : BlockAttempt α) : ManagerAttempt α :=
  zoom (·.blockAllocator) (fun m s => { m with blockAllocator := s }) x

variable (p : ManagerParams)

/-- `register_migrated_cpu_cache`. -/
def registerMigratedCpuCache (tokenIds : List TokenId) (now : Int) : ManagerAttempt Bool := do
  let fullTokenIds := tokenIds.take (tokenIds.length / p.blockSize * p.blockSize)
  if fullTokenIds = [] then pure false
  else do
    let t ← onBlocks (BlockAttempt.allocate p.toBlockParams BlockTable.empty fullTokenIds .cpu)
    let ids ← step (Prog.mapM (fun r => do
      let b ← ManagerM.onBlocks (BlockM.getBlock r)
      pure (if b.isFull p.toBlockParams then b.blockId else none)) t.blocks)
    let fullBlockIds := ids.filterMap id
    when (fullBlockIds ≠ []) do
      step (ManagerM.onBlocks (BlockM.markBlocksAsComputedOn .cpu fullBlockIds))
      step (ManagerM.onBlocks (BlockM.markBlocksAsAccessed fullBlockIds now))
    let _ ← step (ManagerM.onBlocks (t.free p.toBlockParams))
    pure true

/-- `_swap_in_cpu_prefix_if_needed`. -/
def swapInCpuPrefixIfNeeded (g : SequenceGroup) : ManagerAttempt (List SwapPair) := do
  let gpuCachedTokens ← step (ManagerM.getNumCachedTokens p g .gpu)
  let cpuCachedTokens ← step (ManagerM.getNumCachedTokens p g .cpu)
  let prefixTokenIds := g.getTokenIds.take cpuCachedTokens
  if cpuCachedTokens ≤ gpuCachedTokens ∨ prefixTokenIds = [] then pure []
  else do
    let cpuBlockTable ← onBlocks (BlockAttempt.allocate p.toBlockParams BlockTable.empty prefixTokenIds .cpu)
    let blocksToSwap := cpuBlockTable.blocks.drop (gpuCachedTokens / p.blockSize)
    let seqSwapMapping ← onBlocks (BlockAttempt.swap p.toBlockParams blocksToSwap .cpu .gpu)
    let ids ← step (ManagerM.onBlocks (BlockM.blockIds blocksToSwap))
    let gpuBlockIds := ids.filterMap id
    when (gpuBlockIds ≠ []) (step (ManagerM.onBlocks (BlockM.markBlocksAsComputed gpuBlockIds)))
    step (ManagerM.updateNumCachedTokens p g cpuCachedTokens .gpu)
    let _ ← step (ManagerM.onBlocks (cpuBlockTable.free p.toBlockParams))
    step (ManagerM.physicalMapping .cpu .gpu seqSwapMapping)

/-- `_allocate_sequence`. -/
def allocateSequence (g : SequenceGroup) : ManagerAttempt BlockTable :=
  if g.getTokenIds = [] then pure BlockTable.empty
  else onBlocks (BlockAttempt.allocate p.toBlockParams BlockTable.empty g.getTokenIds .gpu)

/-- `allocate`. -/
def allocate (g : SequenceGroup) : ManagerAttempt (List SwapPair) := do
  step (Prog.require (g.status = .waiting))
  let m ← step Prog.read
  step (Prog.require (g.seqId ∉ m.blockTables))
  let blockTable ← allocateSequence p g
  step (ManagerM.setTable g.seqId blockTable)
  let blocksToSwapIn ← swapInCpuPrefixIfNeeded p g
  step (ManagerM.addSeq g.seqId)
  step (Prog.update fun m => { m with trace := { m.trace with swapIns := m.trace.swapIns ++ blocksToSwapIn } })
  pure blocksToSwapIn

/-- `append_slots`. -/
def appendSlots (g : SequenceGroup) (numLookaheadSlots : Nat) : ManagerAttempt (List (BlockId × BlockId)) := do
  let t ← step (ManagerM.getTable g.seqId)
  let t ← onBlocks
    (BlockAttempt.appendToTable p.toBlockParams t (t.getUnseenTokenIds g.getTokenIds) numLookaheadSlots)
  step (ManagerM.setTable g.seqId t)
  step (ManagerM.onBlocks BlockM.clearCopyOnWrites)

/-- `_swap_out_group`. -/
def swapOutGroup (g : SequenceGroup) (status : Option SequenceStatus) (now : Int) :
    ManagerAttempt (Option (List SwapPair)) := do
  match ← step (ManagerM.collectBlocksForSwap p g status) with
  | none => pure none
  | some (t, blocks) => do
    let neededCpuBlocks ← step (ManagerM.onBlocks (BlockM.getNumFullBlocksTouched p.toBlockParams blocks .cpu))
    let m ← step Prog.read
    if neededCpuBlocks > (m.blockAllocator.on .cpu).getNumFreeBlocks then pure none
    else do
      step (ManagerM.onBlocks (BlockM.markBlocksAsAccessed t.blockIds now))
      let seqSwapMapping ← onBlocks (BlockAttempt.swap p.toBlockParams blocks .gpu .cpu)
      let t' ← step (ManagerM.onBlocks (t.update blocks))
      step (ManagerM.setTable g.seqId t')
      let mapping ← step (ManagerM.physicalMapping .gpu .cpu seqSwapMapping)
      step (Prog.update fun m =>
        { m with trace :=
            { m.trace with
              swapOuts := m.trace.swapOuts ++ mapping
              dropped := m.trace.dropped ++ t.blocks.filter (· ∉ blocks) } })
      pure (some mapping)

/-! ## The attempts follow the methods -/

variable {p}

theorem step_follows {α : Type} (m : ManagerM α) : Follows (step m) m := .lift _ m

theorem onBlocks_follows {α : Type} {x : BlockAttempt α} {y : BlockM α} (h : Follows x y) :
    Follows (onBlocks x) (ManagerM.onBlocks y) := .zoom h

theorem registerMigratedCpuCache_follows (tokenIds : List TokenId) (now : Int) :
    Follows (registerMigratedCpuCache p tokenIds now) (ManagerM.registerMigratedCpuCache p tokenIds now) :=
  .ite (.pure _) <| .bind (onBlocks_follows (BlockAttempt.allocate_follows _ _ _)) fun _ => .bind (step_follows _) fun _ =>
    .bind (.when (.bind (step_follows _) fun _ => step_follows _)) fun _ => .bind (step_follows _) fun _ => .pure _

theorem swapInCpuPrefixIfNeeded_follows (g : SequenceGroup) :
    Follows (swapInCpuPrefixIfNeeded p g) (ManagerM.swapInCpuPrefixIfNeeded p g) :=
  .bind (step_follows _) fun _ => .bind (step_follows _) fun _ => .ite (.pure _) <|
    .bind (onBlocks_follows (BlockAttempt.allocate_follows _ _ _)) fun _ =>
    .bind (onBlocks_follows (BlockAttempt.swap_follows _ _ _)) fun _ => .bind (step_follows _) fun _ =>
    .bind (.when (step_follows _)) fun _ => .bind (step_follows _) fun _ => .bind (step_follows _) fun _ => step_follows _

theorem allocateSequence_follows (g : SequenceGroup) : Follows (allocateSequence p g) (ManagerM.allocateSequence p g) :=
  .ite (.pure _) (onBlocks_follows (BlockAttempt.allocate_follows _ _ _))

theorem allocate_follows (g : SequenceGroup) : Follows (allocate p g) (ManagerM.allocate p g) :=
  .bind (step_follows _) fun _ => .bind (step_follows _) fun _ => .bind (step_follows _) fun _ =>
    .bind (allocateSequence_follows g) fun _ => .bind (step_follows _) fun _ =>
    .bind (swapInCpuPrefixIfNeeded_follows g) fun _ => .bind (step_follows _) fun _ => .bind (step_follows _) fun _ => .pure _

theorem appendSlots_follows (g : SequenceGroup) (n : Nat) : Follows (appendSlots p g n) (ManagerM.appendSlots p g n) :=
  .bind (step_follows _) fun t => .bind (onBlocks_follows (BlockAttempt.appendToTable_follows t _ n)) fun _ =>
    .bind (step_follows _) fun _ => step_follows _

theorem swapOutGroup_follows (g : SequenceGroup) (status : Option SequenceStatus) (now : Int) :
    Follows (swapOutGroup p g status now) (ManagerM.swapOutGroup p g status now) := by
  apply Follows.bind (step_follows _)
  intro o
  cases o with
  | none => exact .pure _
  | some x =>
    exact .bind (step_follows _) fun _ => .bind (step_follows _) fun _ => .ite (.pure _) <| .bind (step_follows _) fun _ =>
      .bind (onBlocks_follows (BlockAttempt.swap_follows _ _ _)) fun _ => .bind (step_follows _) fun _ =>
      .bind (step_follows _) fun _ => .bind (step_follows _) fun _ => .bind (step_follows _) fun _ => .pure _

end ManagerAttempt

end CoreFlow
