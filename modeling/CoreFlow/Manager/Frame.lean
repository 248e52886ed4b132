import CoreFlow.Manager.BlockManager

/-!
# What the methods of the block manager leave alone

`SameBlocks` holds of a method that only changes the computed-blocks tracker and the synthetic counts,
`SameOwners` of one that neither adds nor removes a table or a retained entry and asks for no copy.
-/

namespace CoreFlow

/-- Only the trackers of computed blocks can differ. -/
structure SameBlocks (m m' : BlockSpaceManager) : Prop where
  blockAllocator : m'.blockAllocator = m.blockAllocator
  blockTables : m'.blockTables = m.blockTables
  seqLastAccess : m'.seqLastAccess = m.seqLastAccess
  gpuCachedEntries : m'.gpuCachedEntries = m.gpuCachedEntries
  trace : m'.trace = m.trace

instance : IsPreorder BlockSpaceManager SameBlocks where
  refl _ := ⟨rfl, rfl, rfl, rfl, rfl⟩
  trans _ _ _ h h' :=
    ⟨h'.1.trans h.1, h'.2.trans h.2, h'.3.trans h.3, h'.4.trans h.4, h'.5.trans h.5⟩

/-- The same sequences have a table, and the retained entries and the requested copies are the same. -/
structure SameOwners (m m' : BlockSpaceManager) : Prop where
  tables : ∀ id, id ∈ m'.blockTables ↔ id ∈ m.blockTables
  entries : m'.gpuCachedEntries = m.gpuCachedEntries
  trace : m'.trace = m.trace

instance : IsPreorder BlockSpaceManager SameOwners where
  refl _ := ⟨fun _ => Iff.rfl, rfl, rfl⟩
  trans _ _ _ h h' :=
    ⟨fun id => (h'.tables id).trans (h.tables id), h'.entries.trans h.entries, h'.trace.trans h.trace⟩

theorem SameBlocks.owners {m m' : BlockSpaceManager} (h : SameBlocks m m') : SameOwners m m' :=
  ⟨fun _ => by rw [h.blockTables], h.gpuCachedEntries, h.trace⟩

namespace ManagerM
open Prog
variable (p : ManagerParams)

/-! ## Trackers -/

theorem updateSeqHashes_same (g : SequenceGroup) : Within SameBlocks (updateSeqHashes p g) :=
  .bind .read fun _ => .bind (.require _) fun _ => .update fun _ => ⟨rfl, rfl, rfl, rfl, rfl⟩

theorem setNumTokensComputed_same (seqId : SeqId) (d : Device) (n : Nat) :
    Within SameBlocks (setNumTokensComputed seqId d n) :=
  .update fun _ => ⟨rfl, rfl, rfl, rfl, rfl⟩

theorem getNumCachedTokens_same (g : SequenceGroup) (d : Device) :
    Within SameBlocks (getNumCachedTokens p g d) := by
  refine .bind (updateSeqHashes_same p g) fun _ => .bind .read fun m => ?_
  have compute (o : Option (List PrefixHash)) :
      Within SameBlocks (do
        let blockHashes ← ofOption o
        let n := ((m.blockAllocator.on d).findCachedBlocksPrefix blockHashes).length * p.blockSize
        setNumTokensComputed g.seqId d n
        pure n) :=
    .bind (.ofOption _) fun _ => .bind (setNumTokensComputed_same _ _ _) fun _ => .pure _
  dsimp only
  split
  · exact .ite (.pure _) (compute _)
  · exact compute _

theorem updateNumCachedTokens_same (g : SequenceGroup) (n : Nat) (d : Device) :
    Within SameBlocks (updateNumCachedTokens p g n d) :=
  .bind (updateSeqHashes_same p g) fun _ => setNumTokensComputed_same _ _ _

theorem removeSeq_same (seqId : SeqId) : Within SameBlocks (removeSeq seqId) := by
  refine .update fun m => ?_
  split <;> exact ⟨rfl, rfl, rfl, rfl, rfl⟩

theorem removeSeqFromComputedBlocksTracker_same (seqId : SeqId) :
    Within SameBlocks (removeSeqFromComputedBlocksTracker seqId) :=
  .bind (removeSeq_same seqId) fun _ => .update fun _ => ⟨rfl, rfl, rfl, rfl, rfl⟩

theorem getTable_same (seqId : SeqId) : Within SameBlocks (getTable seqId) :=
  .bind .read fun _ => .ofOption _

theorem canAppendSlots_same (g : SequenceGroup) (n : Nat) : Within SameBlocks (canAppendSlots p g n) := by
  refine .bind .read fun m => .bind (.ite ?_ (.pure _)) fun _ => .pure _
  exact .bind (getTable_same _) fun _ => .pure _

/-- What looking up the prefix of a group on the GPU keeps, looking up its computed blocks keeps. -/
theorem getCommonComputedBlockIds_rule {R : BlockSpaceManager → BlockSpaceManager → Prop}
    [IsPreorder BlockSpaceManager R] {g : SequenceGroup} (count : Within R (getNumCachedTokens p g .gpu)) :
    Within R (getCommonComputedBlockIds p g) := by
  refine .ite (.pure _) (.bind (.bind .read fun _ => .ofOption _) fun t => .bind .read fun m => .bind ?_ fun n =>
    .bind (.require _) fun _ => .pure _)
  split
  · exact .pure _
  · exact count

theorem getCommonComputedBlockIds_same (g : SequenceGroup) :
    Within SameBlocks (getCommonComputedBlockIds p g) :=
  getCommonComputedBlockIds_rule p (getNumCachedTokens_same p g .gpu)

/-! ## Owners -/

theorem onBlocks_owners {α : Type} (x : BlockM α) : Within SameOwners (onBlocks x) :=
  .zoom_any fun _ _ => ⟨fun _ => Iff.rfl, rfl, rfl⟩

theorem addSeq_owners (seqId : SeqId) : Within SameOwners (addSeq seqId) :=
  .bind .read fun _ => .bind (.require _) fun _ => .update fun _ => ⟨fun _ => Iff.rfl, rfl, rfl⟩

theorem accessAllBlocksInSeq_owners (seqId : SeqId) (now : Int) :
    Within SameOwners (accessAllBlocksInSeq seqId now) :=
  .bind .read fun _ => .bind (.require _) fun _ => .update fun _ => ⟨fun _ => Iff.rfl, rfl, rfl⟩

theorem flushLastAccess_owners (seqId : SeqId) (blockIds : List BlockId) :
    Within SameOwners (flushLastAccess seqId blockIds) := by
  refine .bind .read fun m => .bind (.ofOption _) fun ts => ?_
  have erase : Within SameOwners
      (update fun m : BlockSpaceManager => { m with seqLastAccess := m.seqLastAccess.erase seqId }) :=
    .update fun _ => ⟨fun _ => Iff.rfl, rfl, rfl⟩
  refine .bind ?_ fun _ => erase
  split
  · exact .pure _
  · exact onBlocks_owners _

theorem physicalMapping_same (src dst : Device) (mapping : Dict BlockId BlockId) :
    Within SameBlocks (physicalMapping src dst mapping) :=
  .bind .read fun _ => .mapM (fun _ => .bind (.ofOption _) fun _ => .bind (.ofOption _) fun _ => .pure _) _

theorem swapInCpuPrefixIfNeeded_owners (g : SequenceGroup) :
    Within SameOwners (swapInCpuPrefixIfNeeded p g) := by
  have cached (d : Device) := (getNumCachedTokens_same p g d).mono fun _ _ h => h.owners
  refine .bind (cached .gpu) fun gpu => .bind (cached .cpu) fun cpu => .ite (.pure _) ?_
  refine .bind (onBlocks_owners _) fun t => .bind (onBlocks_owners _) fun _ =>
    .bind (onBlocks_owners _) fun ids => .bind (.when (onBlocks_owners _)) fun _ => ?_
  exact .bind ((updateNumCachedTokens_same p g cpu .gpu).mono fun _ _ h => h.owners) fun _ =>
    .bind (onBlocks_owners _) fun _ => (physicalMapping_same _ _ _).mono fun _ _ h => h.owners

theorem allocateSequence_owners (g : SequenceGroup) : Within SameOwners (allocateSequence p g) :=
  .ite (.pure _) (onBlocks_owners _)

theorem markBlocksAsComputed_owners (g : SequenceGroup) (n : Int) :
    Within SameOwners (markBlocksAsComputed p g n) := by
  refine .bind .read fun m => .when ?_
  split
  · exact .pure _
  · exact .when (onBlocks_owners _)

theorem registerSyntheticCachedTokens_owners (g : SequenceGroup) (n : Int) :
    Within SameOwners (registerSyntheticCachedTokens p g n) := by
  refine .bind .read fun m => ?_
  split
  · exact .pure _
  · refine .ite (.bind (.update fun _ => ⟨fun _ => Iff.rfl, rfl, rfl⟩) fun _ => .pure _) ?_
    exact .bind (.update fun _ => ⟨fun _ => Iff.rfl, rfl, rfl⟩) fun _ =>
      .bind (onBlocks_owners _) fun _ => .pure _

theorem collectBlocksForSwap_owners (g : SequenceGroup) (status : Option SequenceStatus) :
    Within SameOwners (collectBlocksForSwap p g status) := by
  refine .bind .read fun m => .ite (.pure _) ?_
  split
  · exact .pure _
  · exact .bind (.mapM (fun _ => .bind (onBlocks_owners _) fun _ => .pure _) _) fun _ => .pure _

theorem canSwapOut_owners (g : SequenceGroup) : Within SameOwners (canSwapOut p g) := by
  refine .bind (collectBlocksForSwap_owners p g _) fun o => ?_
  cases o with
  | none => exact .pure _
  | some x => exact .bind (onBlocks_owners _) fun _ => .bind .read fun _ => .pure _

theorem registerMigratedCpuCache_owners (tokenIds : List TokenId) (now : Int) :
    Within SameOwners (registerMigratedCpuCache p tokenIds now) := by
  refine .ite (.pure _) (.bind (onBlocks_owners _) fun t => .bind ?_ fun ids => ?_)
  · exact .mapM (fun _ => .bind (onBlocks_owners _) fun _ => .pure _) _
  · refine .bind (.when ?_) fun _ => .bind (onBlocks_owners _) fun _ => .pure _
    exact .bind (onBlocks_owners _) fun _ => onBlocks_owners _

end ManagerM

end CoreFlow
