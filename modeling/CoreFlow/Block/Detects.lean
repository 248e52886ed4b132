import CoreFlow.Block.Attempts
import CoreFlow.Block.Owned

/-!
# Attempts that end harmless

No method takes an event back. So when an attempt ends in a harmless state, every state that it went through was
harmless, also when it raises.
-/

namespace CoreFlow

namespace BlockAttempt
open Attempt CpuGpuBlockAllocator
variable {p : BlockParams}

theorem step_detects {α : Type} {m : BlockM α} (h : Prog.Within Advances m) : Detects Harmless (step m) :=
  .lift fun s a s' hrun ok => ok.advances (h s a s' hrun)

/-- Steps that do not change the state. -/
theorem reads_detects {α : Type} {m : BlockM α} (h : Prog.Within Eq m) : Detects Harmless (step m) :=
  step_detects (h.mono fun s _ hs => hs ▸ Std.Refl.refl s)

theorem allocateBlockId_detects (d : Device) : Detects Harmless (allocateBlockId p d) := by
  apply Detects.bind (step_detects (BlockM.maybeAllocateHashlessBlockId_advances p d))
  intro o
  cases o with
  | some blockId => exact .pure blockId
  | none =>
    apply Detects.bind (step_detects (BlockM.maybeAllocateEvictedBlockId_advances d))
    intro o
    cases o with
    | some blockId => exact .pure blockId
    | none => exact .raise _

theorem require_detects (c : Prop) [Decidable c] : Detects Harmless (step (Prog.require c)) := reads_detects (.require c)

theorem ofOption_detects {α : Type} (o : Option α) : Detects Harmless (step (Prog.ofOption o)) := reads_detects (.ofOption o)

theorem getBlock_detects (r : BlockRef) : Detects Harmless (step (BlockM.getBlock r)) := reads_detects (BlockM.getBlock_reads r)

theorem self_detects (d : Device) : Detects Harmless (step (BlockM.self d)) := reads_detects (.bind .read fun _ => .pure _)

theorem cowBlockIfNotAppendable_detects (d : Device) (r : BlockRef) : Detects Harmless (cowBlockIfNotAppendable p d r) :=
  .bind (getBlock_detects r) fun _ => .bind (ofOption_detects _) fun _ => .bind (step_detects (BlockM.refcount_advances d _))
    fun _ => .ite (.pure _) <| .bind (step_detects (BlockM.decrRefcountHashlessBlock_advances d r)) fun _ =>
      .bind (allocateBlockId_detects d) fun _ =>
        .bind (step_detects (BlockM.modifySelf_advances d fun _ => ⟨le_refl _, rfl, rfl⟩)) fun _ => .pure _

theorem appendTokenIds_detects (r : BlockRef) (tokenIds : List TokenId) : Detects Harmless (appendTokenIds p r tokenIds) := by
  refine .bind (step_detects (BlockM.contentHash_advances p r)) fun _ => .bind (require_detects _) fun _ =>
    .bind (getBlock_detects r) fun b => .bind (require_detects _) fun _ => .ite (.pure _) <| .bind (require_detects _) fun _ =>
    .bind (step_detects (BlockM.modifyBlock_advances r _)) fun _ => .bind (.when ?_) fun _ =>
    .bind (step_detects (BlockM.updateNumTokensTotal_advances r)) fun _ =>
    .bind (step_detects (BlockM.contentHash_advances p r)) fun o => ?_
  · exact .bind (cowBlockIfNotAppendable_detects r.device r) fun _ => step_detects (BlockM.setBlockId_advances r _)
  · cases o with
    | none => exact .pure _
    | some h =>
      exact .bind (step_detects (BlockM.promoteToImmutableBlock_advances p r.device r)) fun _ =>
        step_detects (BlockM.setBlockId_advances r _)

theorem allocateMutableBlock_detects (d : Device) (prevBlock : Option BlockRef) :
    Detects Harmless (allocateMutableBlock p d prevBlock) :=
  .bind (allocateBlockId_detects d) fun _ => .bind (step_detects (BlockM.initBlock_advances p d _ _ _)) fun r =>
    .bind (step_detects (BlockM.contentHash_advances p r)) fun _ => .bind (require_detects _) fun _ => .pure _

theorem allocateImmutableBlock_detects (d : Device) (prevBlock : Option BlockRef) (tokenIds : List TokenId) :
    Detects Harmless (allocateImmutableBlock p d prevBlock tokenIds) := by
  refine .bind (step_detects (BlockM.initBlock_advances p d _ _ _)) fun r =>
    .bind (step_detects (BlockM.contentHash_advances p r)) fun _ => .bind (ofOption_detects _) fun h =>
    .bind (self_detects d) fun a => ?_
  cases a.cachedBlocks.get? h with
  | some cachedId =>
    exact .bind (step_detects (BlockM.setBlockId_advances r _)) fun _ =>
      .bind (step_detects (BlockM.incrRefcountCachedBlock_advances d r)) fun _ => .pure _
  | none =>
    exact .bind (step_detects (BlockM.freeBlock_advances d r)) fun _ => .bind (allocateMutableBlock_detects d prevBlock) fun r =>
      .bind (appendTokenIds_detects r tokenIds) fun _ => .pure _

theorem allocateImmutableBlocks_detects (d : Device) (prevBlock : Option BlockRef) (chunks : List (List TokenId)) :
    Detects Harmless (allocateImmutableBlocks p d prevBlock chunks) := by
  induction chunks generalizing prevBlock with
  | nil => exact .pure _
  | cons c chunks ih =>
    exact .bind (allocateImmutableBlock_detects d prevBlock c) fun r => .bind (ih (some r)) fun _ => .pure _

theorem allocate_detects (t : BlockTable) (tokenIds : List TokenId) (d : Device) :
    Detects Harmless (allocate p t tokenIds d) := by
  refine .bind (require_detects _) fun _ => .bind (require_detects _) fun _ => .bind (.bind
    (allocateImmutableBlocks_detects d none _) fun blocks => ?_) fun blocks =>
    .bind (step_detects (BlockTable.update_advances t blocks)) fun _ => .pure _
  split
  · exact .pure _
  · exact .bind (allocateMutableBlock_detects d _) fun r => .bind (appendTokenIds_detects r _) fun _ => .pure _
  · exact .raise _

theorem swapInBlock_detects (d : Device) (r : BlockRef) : Detects Harmless (swapInBlock p d r) := by
  refine .bind (getBlock_detects r) fun b => .bind (.ite (allocateImmutableBlock_detects d _ _) ?_) fun tmp =>
    .bind (getBlock_detects tmp) fun _ => .bind (step_detects (BlockM.freeBlock_advances d tmp)) fun _ =>
    step_detects (BlockM.setBlockId_advances r _)
  exact .bind (allocateMutableBlock_detects d _) fun r => .bind (appendTokenIds_detects r _) fun _ => .pure _

theorem swap_detects (blocks : List BlockRef) (srcDevice dstDevice : Device) :
    Detects Harmless (swap p blocks srcDevice dstDevice) := by
  have ids := reads_detects (BlockM.blockIds_reads blocks)
  exact .bind ids fun _ => .bind (step_detects (.forM (fun r => BlockM.freeBlockId_advances p srcDevice r) blocks)) fun _ =>
    .bind (.forM (swapInBlock_detects dstDevice) blocks) fun _ => .bind ids fun _ => .pure _

theorem appendBlocks_detects (t : BlockTable) (n : Nat) : Detects Harmless (appendBlocks p t n) := by
  induction n generalizing t with
  | zero => exact .pure t
  | succ n ih =>
    exact .bind (require_detects _) fun _ => .bind (allocateMutableBlock_detects .gpu _) fun r =>
      .bind (step_detects (.bind (BlockM.getBlock_advances r) fun _ => .ofOption _)) fun id => ih _

theorem appendToBlock_detects (t : BlockTable) (i : Nat) (tokenIds : List TokenId) :
    Detects Harmless (appendToBlock p t i tokenIds) :=
  .bind (ofOption_detects _) fun r => .bind (getBlock_detects r) fun _ => .bind (appendTokenIds_detects r tokenIds) fun _ =>
    .bind (getBlock_detects r) fun _ => .ite (.bind (ofOption_detects _) fun _ => .pure _) (.pure _)

theorem appendTokenBlocks_detects (t : BlockTable) (i : Nat) (chunks : List (List TokenId)) :
    Detects Harmless (appendTokenBlocks p t i chunks) := by
  induction chunks generalizing t i with
  | nil => exact .pure t
  | cons c chunks ih => exact .bind (appendToBlock_detects t i c) fun t => ih t (i + 1)

theorem appendToTable_detects (t : BlockTable) (tokenIds : List TokenId) (n : Nat) :
    Detects Harmless (appendToTable p t tokenIds n) :=
  .bind (require_detects _) fun _ => .bind (.bind (require_detects _) fun _ => .ite (.pure _) (appendBlocks_detects t _))
    fun t => .bind (appendTokenBlocks_detects t _ _) fun _ => .pure _

end BlockAttempt

end CoreFlow
