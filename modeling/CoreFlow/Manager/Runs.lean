import CoreFlow.Manager.Upkeep

/-!
# Runs of the block manager

A `ManagerOp` is a call of a public method, with the clock reading it makes. Whatever calls are made, in any
order, from an empty manager on: the tables stay accounted for, as long as no object has been handed out
twice after one has gone back to the wrong pool.
-/

namespace CoreFlow
open Prog CpuGpuBlockAllocator

/-- A call of the block manager. -/
inductive ManagerOp where
  | allocate (g : SequenceGroup)
  | canAppendSlots (g : SequenceGroup) (numLookaheadSlots : Nat)
  | appendSlots (g : SequenceGroup) (numLookaheadSlots : Nat)
  | markBlocksAsComputed (g : SequenceGroup) (tokenChunkSize : Int)
  | registerSyntheticCachedTokens (g : SequenceGroup) (cachedTokens : Int)
  | getCommonComputedBlockIds (g : SequenceGroup)
  | getNumCachedTokens (g : SequenceGroup) (d : Device)
  | accessAllBlocksInSeq (seqId : SeqId) (now : Int)
  | free (seqId : SeqId)
  | removeSeqFromComputedBlocksTracker (seqId : SeqId)
  | retainBlocks (g : SequenceGroup)
  | evictCachedBlocks (key : Int × Int)
  | canSwapOut (g : SequenceGroup)
  | swapOut (g : SequenceGroup) (now : Int)
  | swapOutFinished (g : SequenceGroup) (now : Int)
  | registerMigratedCpuCache (tokenIds : List TokenId) (now : Int)
deriving DecidableEq

namespace BlockSpaceManager
variable (p : ManagerParams)

/-- The method that is called; its result is not used. -/
def perform : ManagerOp → ManagerM Unit
  | .allocate g => do let _ ← ManagerM.allocate p g
  | .canAppendSlots g n => do let _ ← ManagerM.canAppendSlots p g n
  | .appendSlots g n => do let _ ← ManagerM.appendSlots p g n
  | .markBlocksAsComputed g n => ManagerM.markBlocksAsComputed p g n
  | .registerSyntheticCachedTokens g n => do let _ ← ManagerM.registerSyntheticCachedTokens p g n
  | .getCommonComputedBlockIds g => do let _ ← ManagerM.getCommonComputedBlockIds p g
  | .getNumCachedTokens g d => do let _ ← ManagerM.getNumCachedTokens p g d
  | .accessAllBlocksInSeq seqId now => ManagerM.accessAllBlocksInSeq seqId now
  | .free seqId => ManagerM.free p seqId
  | .removeSeqFromComputedBlocksTracker seqId => ManagerM.removeSeqFromComputedBlocksTracker seqId
  | .retainBlocks g => ManagerM.retainBlocks p g
  | .evictCachedBlocks key => ManagerM.evictCachedBlocks p key
  | .canSwapOut g => do let _ ← ManagerM.canSwapOut p g
  | .swapOut g now => do let _ ← ManagerM.swapOut p g now
  | .swapOutFinished g now => do let _ ← ManagerM.swapOutFinished p g now
  | .registerMigratedCpuCache tokenIds now => do let _ ← ManagerM.registerMigratedCpuCache p tokenIds now

/-- The calls in turn. -/
def run (ops : List ManagerOp) : ManagerM Unit := Prog.forM (perform p) ops

variable {p}

theorem perform_upkeep (op : ManagerOp) : Within (Upkeep p.toBlockParams) (perform p op) := by
  have drop {α : Type} {x : ManagerM α} (h : Within (Upkeep p.toBlockParams) x) :
      Within (Upkeep p.toBlockParams) (do let _ ← x) := .bind h fun _ => .pure _
  cases op with
  | allocate g => exact drop (ManagerM.allocate_upkeep g)
  | canAppendSlots g n => exact drop (ManagerM.marks_upkeep (ManagerM.same_marks (ManagerM.canAppendSlots_same p g n)))
  | appendSlots g n => exact drop (ManagerM.appendSlots_upkeep g n)
  | markBlocksAsComputed g n => exact ManagerM.marks_upkeep (ManagerM.markBlocksAsComputed_marks g n)
  | registerSyntheticCachedTokens g n =>
    exact drop (ManagerM.marks_upkeep (ManagerM.registerSyntheticCachedTokens_marks g n))
  | getCommonComputedBlockIds g =>
    exact drop (ManagerM.marks_upkeep (ManagerM.same_marks (ManagerM.getCommonComputedBlockIds_same p g)))
  | getNumCachedTokens g d =>
    exact drop (ManagerM.marks_upkeep (ManagerM.same_marks (ManagerM.getNumCachedTokens_same p g d)))
  | accessAllBlocksInSeq seqId now => exact ManagerM.marks_upkeep (ManagerM.accessAllBlocksInSeq_marks seqId now)
  | free seqId => exact ManagerM.free_upkeep seqId
  | removeSeqFromComputedBlocksTracker seqId =>
    exact ManagerM.marks_upkeep (ManagerM.same_marks (ManagerM.removeSeqFromComputedBlocksTracker_same seqId))
  | retainBlocks g => exact ManagerM.retainBlocks_upkeep g
  | evictCachedBlocks key => exact ManagerM.evictCachedBlocks_upkeep key
  | canSwapOut g => exact drop (ManagerM.canSwapOut_upkeep g)
  | swapOut g now => exact drop (ManagerM.swapOut_upkeep g now)
  | swapOutFinished g now => exact drop (ManagerM.swapOutGroup_upkeep g none now)
  | registerMigratedCpuCache tokenIds now => exact drop (ManagerM.registerMigratedCpuCache_upkeep tokenIds now)

theorem run_upkeep (ops : List ManagerOp) : Within (Upkeep p.toBlockParams) (run p ops) := .forM perform_upkeep ops

end BlockSpaceManager

/-! ## The empty manager -/

theorem PrefixCachingBlockAllocator.init_accounts {ids : List BlockId} (hids : ids.Nodup) :
    (PrefixCachingBlockAllocator.init ids).Accounts [] := by
  have uncached (h : PrefixHash) (id : BlockId) : ¬ (init ids).cachedBlocks.get? h = some id := by
    intro hc
    cases hc
  refine ⟨fun id => Dict.get?_ofKeys _ _ _, fun id hid => ⟨BlockTracker.init, ?_, ?_⟩, hids,
    fun id hid => ⟨hid, rfl, fun ⟨h, hc⟩ => uncached h id hc⟩, fun h id hc => absurd hc (uncached h id),
    fun h h' id hc => absurd hc (uncached h id), fun id m hm => (by cases hm), fun id hid _ => .inl hid,
    fun id h hmem => absurd hmem List.not_mem_nil, fun id hmem => absurd hmem List.not_mem_nil⟩
  · exact (Dict.get?_ofKeys _ _ _).trans (if_pos hid)
  · exact ⟨fun h => (by cases h), fun h => absurd h (lt_irrefl 0)⟩

theorem CpuGpuBlockAllocator.create_books (numGpuBlocks numCpuBlocks : Nat) :
    (create numGpuBlocks numCpuBlocks).Books [] := by
  refine ⟨fun d => ?_, fun id hg hc => ?_, fun d => ?_⟩
  · cases d with
    | gpu => exact List.nodup_range
    | cpu => exact List.nodup_range'
  · have hg : id ∈ List.range numGpuBlocks := hg
    have hc : id ∈ List.range' numGpuBlocks numCpuBlocks := hc
    rw [List.mem_range] at hg
    rw [List.mem_range'_1] at hc
    omega
  · cases d with
    | gpu => exact PrefixCachingBlockAllocator.init_accounts List.nodup_range
    | cpu => exact PrefixCachingBlockAllocator.init_accounts List.nodup_range'

namespace BlockSpaceManager
variable {p : ManagerParams} {m : BlockSpaceManager} {ops : List ManagerOp} {u : Unit}

theorem init_accounted : Accounted p.toBlockParams (init p) := by
  refine ⟨[], [], List.Perm.refl _, ⟨fun x hx => absurd hx List.not_mem_nil, ?_, create_books _ _, fun _ d => ?_⟩, fun _ => rfl⟩
  · refine ⟨List.nodup_nil, fun r hr => absurd hr List.not_mem_nil, fun r hr => absurd hr List.not_mem_nil, fun _ => ?_⟩
    exact ⟨create_poolSound _ _, fun ⟨r, hr⟩ => absurd hr List.not_mem_nil⟩
  · cases d with
    | gpu => exact LRUEvictor.init_faithful
    | cpu => exact LRUEvictor.init_faithful

/-- What runs keep. -/
theorem run_accounted (hrun : run p ops (init p) = some (u, m)) (ok : m.blockAllocator.Harmless) :
    Accounted p.toBlockParams m := (run_upkeep ops _ _ _ hrun).accounted init_accounted ok

end BlockSpaceManager

end CoreFlow
