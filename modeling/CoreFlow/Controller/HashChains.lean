import CoreFlow.Block.Growth
import CoreFlow.Controller.Route
import CoreFlow.Manager.BlockManager

/-!
# The four chains of block hashes

The controller, the block objects, the tracker of a sequence and the count of new blocks each hash the
full blocks of a token list in a loop of their own. However the list grows, and whenever the tracker is
asked, the four find the same hashes.
-/

namespace CoreFlow
open Prog

section
variable {p : BlockParams} {tokenIds more : List TokenId} {k n : Nat}

theorem hashBlockTokens_some (isFirstBlock : Bool) (prevBlockHash : PrefixHash) (ts : List TokenId) :
    hashBlockTokens p isFirstBlock (some prevBlockHash) ts = p.sha isFirstBlock (some prevBlockHash) ts := by
  simp [hashBlockTokens]

/-- A first block is recognised by the sentinel as by a missing previous block. -/
theorem sha_sentinel (hsha : ∀ first prev ts, p.sha first prev ts ≠ noneHash) (k : Nat) :
    p.sha ((prevHash p tokenIds k).getD noneHash == noneHash) (some ((prevHash p tokenIds k).getD noneHash))
      (slice p tokenIds k) = hashAt p tokenIds k := by
  cases k with
  | zero => rfl
  | succ k =>
    show p.sha (hashAt p tokenIds k == noneHash) (some (hashAt p tokenIds k)) _ = _
    rw [beq_false_of_ne (hashAt_ne hsha k), ← hashBlockTokens_some]
    rfl

theorem slices_succ : (List.range' k (n + 1)).map (slice p tokenIds) =
    slice p tokenIds k :: (List.range' (k + 1) n).map (slice p tokenIds) := rfl

theorem hashes_succ : (List.range' k (n + 1)).map (hashAt p tokenIds) =
    hashAt p tokenIds k :: (List.range' (k + 1) n).map (hashAt p tokenIds) := rfl

/-! ## The controller -/

theorem requestHashesLoop_tail (prevBlockHash : PrefixHash) :
    requestHashesLoop p.sha p.blockSize noneHash (tailSlice p tokenIds) prevBlockHash = [] := by
  cases hc : tailSlice p tokenIds with
  | nil => rfl
  | cons c rest =>
    have hmem : c ∈ tailSlice p tokenIds := by
      rw [hc]
      exact List.mem_cons_self
    exact if_pos (Int.ofNat_lt.mpr (length_of_mem_tailSlice hmem))

theorem requestHashesLoop_eq (hsha : ∀ first prev ts, p.sha first prev ts ≠ noneHash)
    (h : k + n = numFullBlocks p tokenIds) :
    requestHashesLoop p.sha p.blockSize noneHash ((List.range' k n).map (slice p tokenIds) ++ tailSlice p tokenIds)
      ((prevHash p tokenIds k).getD noneHash) = (List.range' k n).map (hashAt p tokenIds) := by
  induction n generalizing k with
  | zero => exact requestHashesLoop_tail _
  | succ n ih =>
    have hfull : (slice p tokenIds k).length = p.blockSize :=
      length_slice_eq.mpr (lt_numFullBlocks.mp (by omega))
    rw [slices_succ, hashes_succ, List.cons_append, requestHashesLoop, if_neg (by omega)]
    dsimp only
    rw [sha_sentinel hsha]
    exact congrArg _ (ih (k := k + 1) (by omega))

theorem computeRequestBlockHashes_eq (hsha : ∀ first prev ts, p.sha first prev ts ≠ noneHash) :
    computeRequestBlockHashes p.sha tokenIds p.blockSize noneHash = blockHashes p tokenIds := by
  rw [computeRequestBlockHashes, Int.toNat_natCast, chunkList_eq, blockHashes, List.range_eq_range']
  exact requestHashesLoop_eq hsha (Nat.zero_add _)

/-! ## The count of new blocks -/

/-- The values of `content_hash` in the loop of `count_new_blocks_for_token_ids`. -/
def countedHashes (p : BlockParams) : Option PrefixHash → List (List TokenId) → List PrefixHash
  | _, [] => []
  | prevBlockHash, blockTokenIds :: rest =>
    if blockTokenIds.length < p.blockSize then []
    else
      let h := hashBlockTokens p prevBlockHash.isNone prevBlockHash blockTokenIds
      h :: countedHashes p (some h) rest

namespace PrefixCachingBlockAllocator
variable {a : PrefixCachingBlockAllocator}

/-- A hash whose block has to be taken from the free or the evictable blocks. -/
def needsBlock (a : PrefixCachingBlockAllocator) (h : PrefixHash) : Bool :=
  !((a.cachedBlocks.get? h).any fun blockId => (a.blockTracker.get? blockId).any (·.active))

/-- The count reads the token list only through the hashes, apart from a block that is not full. -/
theorem countNewBlocksAux_eq (prevBlockHash : Option PrefixHash) (chunks : List (List TokenId)) :
    a.countNewBlocksAux p prevBlockHash chunks = (countedHashes p prevBlockHash chunks).countP a.needsBlock +
      if (chunks.any fun c => decide (c.length < p.blockSize)) then 1 else 0 := by
  induction chunks generalizing prevBlockHash with
  | nil => rfl
  | cons c rest ih =>
    rw [countNewBlocksAux, countedHashes, List.any_cons]
    by_cases hc : c.length < p.blockSize
    · rw [if_pos hc, if_pos hc, decide_eq_true hc, Bool.true_or]
      rfl
    · rw [if_neg hc, if_neg hc, decide_eq_false hc, Bool.false_or]
      dsimp only
      rw [ih, List.countP_cons, needsBlock]
      cases a.cachedBlocks.get? (hashBlockTokens p prevBlockHash.isNone prevBlockHash c) with
      | none =>
        simp only [Option.any_none, Bool.not_false, if_true]
        omega
      | some cachedBlockId =>
        by_cases hactive : (a.blockTracker.get? cachedBlockId).any (·.active) = true
        · simp [hactive]
        · simp [hactive]
          omega

end PrefixCachingBlockAllocator

theorem countedHashes_tail (prevBlockHash : Option PrefixHash) :
    countedHashes p prevBlockHash (tailSlice p tokenIds) = [] := by
  cases hc : tailSlice p tokenIds with
  | nil => rfl
  | cons c rest =>
    have hmem : c ∈ tailSlice p tokenIds := by
      rw [hc]
      exact List.mem_cons_self
    exact if_pos (length_of_mem_tailSlice hmem)

theorem countedHashes_eq (h : k + n = numFullBlocks p tokenIds) :
    countedHashes p (prevHash p tokenIds k) ((List.range' k n).map (slice p tokenIds) ++ tailSlice p tokenIds) =
      (List.range' k n).map (hashAt p tokenIds) := by
  induction n generalizing k with
  | zero => exact countedHashes_tail _
  | succ n ih =>
    have hfull : (slice p tokenIds k).length = p.blockSize :=
      length_slice_eq.mpr (lt_numFullBlocks.mp (by omega))
    rw [slices_succ, hashes_succ, List.cons_append, countedHashes, if_neg (by omega)]
    dsimp only
    rw [← hashAt_eq]
    exact congrArg _ (ih (k := k + 1) (by omega))

theorem countedHashes_chunkList :
    countedHashes p none (chunkList tokenIds p.blockSize) = blockHashes p tokenIds := by
  rw [chunkList_eq, blockHashes, List.range_eq_range']
  exact countedHashes_eq (Nat.zero_add _)

theorem any_short : ((chunkList tokenIds p.blockSize).any fun c => decide (c.length < p.blockSize)) =
    decide (tokenIds.length % p.blockSize ≠ 0) := by
  have hfull : ((List.range (numFullBlocks p tokenIds)).map (slice p tokenIds)).any
      (fun c => decide (c.length < p.blockSize)) = false := by
    rw [List.any_eq_false]
    intro c hc
    rw [decide_eq_true_eq, length_of_mem_slices hc]
    exact lt_irrefl _
  rw [chunkList_eq, List.any_append, hfull, Bool.false_or]
  by_cases hmod : tokenIds.length % p.blockSize = 0
  · rw [tailSlice, if_pos hmod, decide_eq_false (not_not.mpr hmod)]
    rfl
  · have hmem : slice p tokenIds (numFullBlocks p tokenIds) ∈ tailSlice p tokenIds := by
      rw [tailSlice, if_neg hmod]
      exact List.mem_singleton_self _
    rw [decide_eq_true hmod, List.any_eq_true]
    exact ⟨_, hmem, decide_eq_true (length_of_mem_tailSlice hmem)⟩

/-! ## The tracker of a sequence -/

theorem hashesAfter_eq (hsha : ∀ first prev ts, p.sha first prev ts ≠ noneHash) (k n : Nat) :
    ManagerM.hashesAfter p ((prevHash p tokenIds k).getD noneHash) ((List.range' k n).map (slice p tokenIds)) =
      (List.range' k n).map (hashAt p tokenIds) := by
  induction n generalizing k with
  | zero => rfl
  | succ n ih =>
    rw [slices_succ, hashes_succ, ManagerM.hashesAfter]
    rw [hashBlockTokens_some, ← beq_eq_decide, sha_sentinel hsha]
    exact congrArg _ (ih (k + 1))

theorem length_blockHashes : (blockHashes p tokenIds).length = numFullBlocks p tokenIds := by
  rw [blockHashes, List.length_map, List.length_range]

theorem blockHashes_prefix : blockHashes p tokenIds <+: blockHashes p (tokenIds ++ more) := by
  have hle : numFullBlocks p tokenIds ≤ numFullBlocks p (tokenIds ++ more) := by
    refine Nat.div_le_div_right ?_
    rw [List.length_append]
    omega
  rw [List.prefix_iff_eq_take, length_blockHashes, blockHashes, blockHashes, ← List.map_take, List.take_range,
    Nat.min_eq_left hle]
  refine List.map_congr_left fun i hi => ?_
  exact (hashAt_append (lt_numFullBlocks.mp (List.mem_range.mp hi))).symm

/-- The hash recorded last is that of the block before the next one. -/
theorem getLastD_hashes (k : Nat) : ((List.range k).map (hashAt p tokenIds)).getLastD noneHash =
    (prevHash p tokenIds k).getD noneHash := by
  cases k with
  | zero => rfl
  | succ k => rw [List.range_succ, List.map_append, List.map_singleton, List.getLastD_concat]; rfl

/-- Hashing goes on from any part of the chain. -/
theorem append_hashesAfter (hsha : ∀ first prev ts, p.sha first prev ts ≠ noneHash) {recorded : List PrefixHash}
    (h : recorded <+: blockHashes p tokenIds) :
    recorded ++ ManagerM.hashesAfter p (recorded.getLastD noneHash)
      ((List.range' recorded.length (numFullBlocks p tokenIds - recorded.length)).map (slice p tokenIds)) =
        blockHashes p tokenIds := by
  have hle : recorded.length ≤ numFullBlocks p tokenIds := by
    rw [← length_blockHashes]
    exact h.length_le
  have hpart : recorded = (List.range recorded.length).map (hashAt p tokenIds) := by
    conv_lhs => rw [List.prefix_iff_eq_take.mp h]
    rw [blockHashes, ← List.map_take, List.take_range, Nat.min_eq_left hle]
  have hlast : recorded.getLastD noneHash = (prevHash p tokenIds recorded.length).getD noneHash := by
    conv_lhs => rw [hpart]
    exact getLastD_hashes _
  have hsplit : List.range recorded.length ++ List.range' recorded.length (numFullBlocks p tokenIds - recorded.length) =
      List.range (numFullBlocks p tokenIds) := by
    rw [List.range_eq_range', List.range_eq_range', ← Nat.add_sub_cancel' hle, Nat.add_sub_cancel_left]
    simpa using List.range'_append_1 (s := 0) (m := recorded.length)
  rw [hlast, hashesAfter_eq hsha, blockHashes, ← hsplit, List.map_append, ← hpart]

end

namespace ManagerM
variable {p : ManagerParams} {m m' : BlockSpaceManager} {g g' : SequenceGroup} {t t' : BlockTable}

/-- What the tracker has recorded for a sequence is a part of its chain. -/
def Recorded (p : ManagerParams) (m : BlockSpaceManager) (g : SequenceGroup) : Prop :=
  (m.computedBlocksTracker.seqIdToBlocksHashes.get? g.seqId).getD [] <+: blockHashes p.toBlockParams g.getTokenIds

/-- The state in which the tracker has recorded some hashes for a sequence. -/
def recordHashes (m : BlockSpaceManager) (seqId : SeqId) (hashes : List PrefixHash) : BlockSpaceManager :=
  { m with computedBlocksTracker :=
      { m.computedBlocksTracker with
        seqIdToBlocksHashes := m.computedBlocksTracker.seqIdToBlocksHashes.set seqId hashes } }

theorem updateSeqHashes_eq (hsha : ∀ first prev ts, p.sha first prev ts ≠ noneHash) (h : Recorded p m g) :
    updateSeqHashes p g m = some ((), recordHashes m g.seqId (blockHashes p.toBlockParams g.getTokenIds)) := by
  have hroom : ((m.computedBlocksTracker.seqIdToBlocksHashes.get? g.seqId).getD []).length * p.blockSize ≤
      g.getTokenIds.length := by
    refine le_trans (Nat.mul_le_mul_right _ h.length_le) ?_
    rw [length_blockHashes]
    exact Nat.div_mul_le_self ..
  rw [updateSeqHashes, read_bind]
  dsimp only
  rw [require_bind, if_pos hroom, ← append_hashesAfter hsha h]
  rfl

/-! ## A list that grows -/

/-- What can happen to a sequence that has a block table: tokens are appended, with some number of lookahead
slots, or the tracker is asked. -/
inductive GrowStep where
  | append (tokenIds : List TokenId) (numLookaheadSlots : Nat)
  | query

/-- One step, on the table of the sequence and the sequence. -/
def GrowStep.run (p : ManagerParams) (x : BlockTable × SequenceGroup) : GrowStep → ManagerM (BlockTable × SequenceGroup)
  | .append tokenIds numLookaheadSlots => do
    let t ← onBlocks (BlockTable.appendTokenIds p.toBlockParams x.1 tokenIds numLookaheadSlots)
    pure (t, { x.2 with outputTokenIds := x.2.outputTokenIds ++ tokenIds })
  | .query => do
    updateSeqHashes p x.2
    pure x

/-- The table is allocated for the tokens of the sequence, and both grow. -/
def grow (p : ManagerParams) (d : Device) (g : SequenceGroup) (steps : List GrowStep) :
    ManagerM (BlockTable × SequenceGroup) := do
  let t ← onBlocks (BlockTable.allocate p.toBlockParams .empty g.getTokenIds d)
  Prog.foldlM (GrowStep.run p) (t, g) steps

/-- The table holds the tokens of the sequence, and the tracker has recorded a part of their hashes. -/
structure Chained (p : ManagerParams) (m : BlockSpaceManager) (x : BlockTable × SequenceGroup) : Prop where
  table : x.1.Represents p.toBlockParams m.blockAllocator x.2.getTokenIds
  recorded : Recorded p m x.2

theorem GrowStep.run_chained (hsha : ∀ first prev ts, p.sha first prev ts ≠ noneHash)
    {x x' : BlockTable × SequenceGroup} {step : GrowStep} (h : Chained p m x)
    (hrun : step.run p x m = some (x', m')) : Chained p m' x' := by
  cases step with
  | append more n =>
    obtain ⟨t', m₁, happend, hrun⟩ := bind_iff.mp hrun
    obtain ⟨rfl, rfl⟩ := pure_iff.mp hrun
    obtain ⟨s, hs, rfl⟩ := zoom_iff.mp happend
    have hall : ({ x.2 with outputTokenIds := x.2.outputTokenIds ++ more } : SequenceGroup).getTokenIds =
        x.2.getTokenIds ++ more := (List.append_assoc ..).symm
    refine ⟨?_, ?_⟩
    · rw [hall]
      exact BlockTable.appendTokenIds_spec hsha h.table hs
    · unfold Recorded
      rw [hall]
      exact h.recorded.trans blockHashes_prefix
  | query =>
    obtain ⟨u, m₁, hquery, hrun⟩ := bind_iff.mp hrun
    obtain ⟨rfl, rfl⟩ := pure_iff.mp hrun
    rw [updateSeqHashes_eq hsha h.recorded] at hquery
    obtain ⟨-, rfl⟩ := Prod.mk.inj (Option.some.inj hquery)
    refine ⟨h.table, ?_⟩
    show (Dict.get? (Dict.set _ _ _) _).getD [] <+: _
    rw [Dict.get?_set_self]
    exact List.prefix_rfl

theorem grow_chained (hsha : ∀ first prev ts, p.sha first prev ts ≠ noneHash) {d : Device} {steps : List GrowStep}
    {x : BlockTable × SequenceGroup} (sound : m.blockAllocator.PoolSound [])
    (hnew : g.seqId ∉ m.computedBlocksTracker.seqIdToBlocksHashes) (hrun : grow p d g steps m = some (x, m')) :
    Chained p m' x := by
  obtain ⟨t, m₁, halloc, hrun⟩ := bind_iff.mp hrun
  obtain ⟨s, hs, rfl⟩ := zoom_iff.mp halloc
  have start : Chained p { m with blockAllocator := s } (t, g) := by
    refine ⟨BlockTable.allocate_spec hsha sound hs, ?_⟩
    unfold Recorded
    rw [Dict.get?_eq_none.mpr hnew]
    exact List.nil_prefix
  exact foldlM_invariant (fun x _ m => Chained p m x) (fun _ _ _ _ _ _ h hstep => GrowStep.run_chained hsha h hstep) hrun
    start

end ManagerM

open ManagerM

/-- A hash that is never negative. -/
def naturalSha (isFirstBlock : Bool) (prevBlockHash : Option PrefixHash) (tokenIds : List TokenId) : PrefixHash :=
  (tokenIds.foldl (fun h t => h * 31 + t.natAbs + 1) (if isFirstBlock then 7 else 1000 * (prevBlockHash.getD 3).natAbs) : Nat)

theorem naturalSha_ne (isFirstBlock : Bool) (prevBlockHash : Option PrefixHash) (tokenIds : List TokenId) :
    naturalSha isFirstBlock prevBlockHash tokenIds ≠ noneHash := by
  show ((_ : Nat) : Int) ≠ -9223372036854775808
  omega

/-- Blocks of two tokens, six of them on the GPU. -/
def hashParams : ManagerParams where
  blockSize := 2
  pos := Nat.zero_lt_two
  sha := naturalSha
  numTotalGpuBlocks := 6
  numTotalCpuBlocks := 2
  watermarkBlocks := 0

end CoreFlow
