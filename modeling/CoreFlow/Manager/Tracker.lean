import CoreFlow.Manager.Runs

/-!
# The counts of cached tokens

The tracker stores, for a sequence and a device, how many tokens were found in the cache. Whatever calls are made
from an empty manager on, a stored count is a number of whole blocks that the sequence has.
-/

namespace CoreFlow
open Prog

namespace BlockSpaceManager
variable {p : ManagerParams} {m m' m₁ : BlockSpaceManager} {g : SequenceGroup} {n : Nat}

/-- A stored count covers whole blocks, and no more than there are recorded hashes. -/
def Tracked (p : ManagerParams) (m : BlockSpaceManager) : Prop :=
  ∀ seqId d n, m.computedBlocksTracker.seqIdToNumTokensComputed.get? (seqId, d) = some n →
    ∃ hashes, m.computedBlocksTracker.seqIdToBlocksHashes.get? seqId = some hashes ∧
      n % p.blockSize = 0 ∧ n ≤ hashes.length * p.blockSize

/-- The counts stay right. -/
def Tracks (p : ManagerParams) (m m' : BlockSpaceManager) : Prop := Tracked p m → Tracked p m'

instance (p : ManagerParams) : IsPreorder BlockSpaceManager (Tracks p) where
  refl _ h := h
  trans _ _ _ h h' tracked := h' (h tracked)

theorem Tracks.of_same (h : m'.computedBlocksTracker = m.computedBlocksTracker) : Tracks p m m' := by
  intro tracked
  unfold Tracked
  rw [h]
  exact tracked

theorem init_tracked : Tracked p (init p) := fun seqId d n h => by cases h

/-- Whole blocks of the tokens of a sequence. -/
def Whole (p : ManagerParams) (g : SequenceGroup) (n : Nat) : Prop := n % p.blockSize = 0 ∧ n ≤ g.getTokenIds.length

/-- As many tokens as a number of the blocks. -/
theorem whole_mul {k : Nat} (h : k ≤ g.getTokenIds.length / p.blockSize) : Whole p g (k * p.blockSize) :=
  ⟨Nat.mul_mod_left _ _, (Nat.le_div_iff_mul_le p.pos).mp h⟩

end BlockSpaceManager

namespace ManagerM
open BlockSpaceManager
variable {p : ManagerParams} {m m' m₁ : BlockSpaceManager} {g : SequenceGroup} {n : Nat} {u : Unit} {seqId : SeqId}
  {d : Device}

theorem onBlocks_tracks {α : Type} (x : BlockM α) : Within (Tracks p) (onBlocks x) := .zoom_any fun _ _ => .of_same rfl

theorem update_tracks {f : BlockSpaceManager → BlockSpaceManager}
    (h : ∀ m, (f m).computedBlocksTracker = m.computedBlocksTracker) : Within (Tracks p) (update f) :=
  .update fun m => .of_same (h m)

/-! ## The tracker -/

theorem length_hashesAfter (prevBlockHash : PrefixHash) (blocks : List (List TokenId)) :
    (hashesAfter p.toBlockParams prevBlockHash blocks).length = blocks.length := by
  induction blocks generalizing prevBlockHash with
  | nil => rfl
  | cons b blocks ih => exact congrArg (· + 1) (ih _)

/-- The state in which some hashes have been recorded. -/
structure Records (g : SequenceGroup) (hashes : List PrefixHash) (m m' : BlockSpaceManager) : Prop where
  recorded : m'.computedBlocksTracker.seqIdToBlocksHashes = m.computedBlocksTracker.seqIdToBlocksHashes.set g.seqId hashes
  counts : m'.computedBlocksTracker.seqIdToNumTokensComputed = m.computedBlocksTracker.seqIdToNumTokensComputed
  grows : ((m.computedBlocksTracker.seqIdToBlocksHashes.get? g.seqId).getD []).length ≤ hashes.length
  length : hashes.length = g.getTokenIds.length / p.blockSize

theorem updateSeqHashes_records (hrun : updateSeqHashes p g m = some (u, m')) :
    ∃ hashes, Records (p := p) g hashes m m' := by
  rw [updateSeqHashes, read_bind] at hrun
  obtain ⟨_, _, hreq, hrun⟩ := bind_iff.mp hrun
  obtain ⟨hroom, hm⟩ := require_iff.mp hreq
  rw [hm] at hrun
  rw [update_iff.mp hrun]
  have hle := (Nat.le_div_iff_mul_le p.pos).mpr hroom
  refine ⟨_, rfl, rfl, ?_, ?_⟩
  · rw [List.length_append]
    exact Nat.le_add_right _ _
  · rw [List.length_append, length_hashesAfter, List.length_map, List.length_range']
    omega

theorem Records.get {hashes : List PrefixHash} (h : Records (p := p) g hashes m m') :
    m'.computedBlocksTracker.seqIdToBlocksHashes.get? g.seqId = some hashes := by
  rw [h.recorded, Dict.get?_set_self]

/-- A list of hashes only grows. -/
theorem Records.tracks {hashes : List PrefixHash} (h : Records (p := p) g hashes m m') : Tracks p m m' := by
  intro tracked seqId d n hn
  rw [h.counts] at hn
  obtain ⟨old, hold, hmod, hle⟩ := tracked seqId d n hn
  rw [h.recorded]
  by_cases he : g.seqId = seqId
  · subst he
    refine ⟨hashes, Dict.get?_set_self _ _ _, hmod, hle.trans (Nat.mul_le_mul_right _ ?_)⟩
    have := h.grows
    rwa [hold, Option.getD_some] at this
  · exact ⟨old, (Dict.get?_set_ne _ _ he).trans hold, hmod, hle⟩

theorem updateSeqHashes_tracks : Within (Tracks p) (updateSeqHashes p g) := by
  intro m u m' hrun
  obtain ⟨hashes, records⟩ := updateSeqHashes_records hrun
  exact records.tracks

/-- A count of whole blocks of the tokens, whose hashes have been recorded. -/
theorem setNumTokensComputed_tracked {hashes : List PrefixHash} (tracked : Tracked p m)
    (hget : m.computedBlocksTracker.seqIdToBlocksHashes.get? g.seqId = some hashes)
    (hlen : hashes.length = g.getTokenIds.length / p.blockSize) (whole : Whole p g n)
    (hrun : setNumTokensComputed g.seqId d n m = some (u, m')) : Tracked p m' := by
  rw [update_iff.mp hrun]
  intro seqId e k hk
  dsimp only at hk ⊢
  rw [Dict.get?_set] at hk
  split at hk
  · rename_i he
    obtain ⟨rfl, -⟩ := Prod.mk.inj he
    obtain rfl := Option.some.inj hk
    refine ⟨hashes, hget, whole.1, ?_⟩
    calc n = n / p.blockSize * p.blockSize := (Nat.div_mul_cancel (Nat.dvd_of_mod_eq_zero whole.1)).symm
      _ ≤ g.getTokenIds.length / p.blockSize * p.blockSize := Nat.mul_le_mul_right _ (Nat.div_le_div_right whole.2)
      _ = hashes.length * p.blockSize := by rw [hlen]
  · exact tracked seqId e k hk

theorem getNumCachedTokens_tracked (tracked : Tracked p m) (hrun : getNumCachedTokens p g d m = some (n, m')) :
    Tracked p m' ∧ Whole p g n := by
  obtain ⟨_, m₁, hupdate, hrun⟩ := bind_iff.mp hrun
  obtain ⟨hashes, records⟩ := updateSeqHashes_records hupdate
  have tracked₁ := records.tracks tracked
  rw [read_bind] at hrun
  have computes (h : (do
      let blockHashes ← ofOption (m₁.computedBlocksTracker.seqIdToBlocksHashes.get? g.seqId)
      let n := ((m₁.blockAllocator.on d).findCachedBlocksPrefix blockHashes).length * p.blockSize
      setNumTokensComputed g.seqId d n
      pure n) m₁ = some (n, m')) : Tracked p m' ∧ Whole p g n := by
    rw [records.get] at h
    obtain ⟨_, _, ho, h⟩ := bind_iff.mp h
    obtain ⟨ho, hm⟩ := ofOption_iff.mp ho
    obtain rfl := Option.some.inj ho
    rw [hm] at h
    obtain ⟨_, m₂, hset, h⟩ := bind_iff.mp h
    obtain ⟨rfl, rfl⟩ := pure_iff.mp h
    have whole : Whole p g (((m₁.blockAllocator.on d).findCachedBlocksPrefix hashes).length * p.blockSize) := by
      refine whole_mul ?_
      rw [← records.length, PrefixCachingBlockAllocator.findCachedBlocksPrefix, List.length_take]
      exact Nat.min_le_right _ _
    exact ⟨setNumTokensComputed_tracked tracked₁ records.get records.length whole hset, whole⟩
  dsimp only at hrun
  cases hn : m₁.computedBlocksTracker.seqIdToNumTokensComputed.get? (g.seqId, d) with
  | none =>
    rw [hn] at hrun
    exact computes hrun
  | some stored =>
    rw [hn] at hrun
    dsimp only at hrun
    split at hrun
    · obtain ⟨rfl, rfl⟩ := pure_iff.mp hrun
      obtain ⟨hashes', hget, hmod, hle⟩ := tracked₁ g.seqId d _ hn
      obtain rfl := Option.some.inj (records.get.symm.trans hget)
      rw [records.length] at hle
      exact ⟨tracked₁, hmod, hle.trans (Nat.div_mul_le_self _ _)⟩
    · exact computes hrun

theorem getNumCachedTokens_tracks : Within (Tracks p) (getNumCachedTokens p g d) :=
  fun _ _ _ hrun tracked => (getNumCachedTokens_tracked tracked hrun).1

theorem updateNumCachedTokens_tracked (tracked : Tracked p m) (whole : Whole p g n)
    (hrun : updateNumCachedTokens p g n d m = some (u, m')) : Tracked p m' := by
  obtain ⟨_, m₁, hupdate, hrun⟩ := bind_iff.mp hrun
  obtain ⟨hashes, records⟩ := updateSeqHashes_records hupdate
  exact setNumTokensComputed_tracked (records.tracks tracked) records.get records.length whole hrun

/-- Both counts of a sequence go with its hashes. -/
theorem removeSeq_tracks : Within (Tracks p) (removeSeq seqId) := by
  refine .update fun m tracked => ?_
  split
  · intro seqId' e n hn
    dsimp only at hn ⊢
    have hne : seqId ≠ seqId' := by
      rintro rfl
      cases e with
      | gpu => rw [Dict.get?_erase_ne _ (by simp), Dict.get?_erase_self] at hn; cases hn
      | cpu => rw [Dict.get?_erase_self] at hn; cases hn
    rw [Dict.get?_erase_ne _ (by simp [hne]), Dict.get?_erase_ne _ (by simp [hne])] at hn
    rw [Dict.get?_erase_ne _ hne]
    exact tracked seqId' e n hn
  · exact tracked

/-! ## The other methods -/

theorem removeSeqFromComputedBlocksTracker_tracks : Within (Tracks p) (removeSeqFromComputedBlocksTracker seqId) :=
  .bind removeSeq_tracks fun _ => update_tracks fun _ => rfl

theorem getTable_tracks : Within (Tracks p) (getTable seqId) := .bind .read fun _ => .ofOption _

theorem flushLastAccess_tracks (blockIds : List BlockId) : Within (Tracks p) (flushLastAccess seqId blockIds) := by
  refine .bind .read fun m => .bind (.ofOption _) fun ts => .bind ?_ fun _ => update_tracks fun _ => rfl
  cases ts with
  | none => exact .pure _
  | some now => exact onBlocks_tracks _

theorem physicalMapping_tracks (src dst : Device) (mapping : Dict BlockId BlockId) :
    Within (Tracks p) (physicalMapping src dst mapping) :=
  .bind .read fun _ => .mapM (fun _ => .bind (.ofOption _) fun _ => .bind (.ofOption _) fun _ => .pure _) _

theorem swapInCpuPrefixIfNeeded_tracks : Within (Tracks p) (swapInCpuPrefixIfNeeded p g) := by
  intro m pairs m' hrun tracked
  obtain ⟨gpu, m₁, hgpu, hrun⟩ := bind_iff.mp hrun
  obtain ⟨cpu, m₂, hcpu, hrun⟩ := bind_iff.mp hrun
  obtain ⟨tracked₂, whole⟩ := getNumCachedTokens_tracked (getNumCachedTokens_tracks _ _ _ hgpu tracked) hcpu
  refine (?_ : Within (Tracks p) _) m₂ pairs m' hrun tracked₂
  refine .ite (.pure _) (.bind (onBlocks_tracks _) fun t => .bind (onBlocks_tracks _) fun _ => .bind (onBlocks_tracks _) fun ids =>
    .bind (.when (onBlocks_tracks _)) fun _ => .bind (fun _ _ _ hrun tracked => updateNumCachedTokens_tracked tracked whole hrun)
      fun _ => .bind (onBlocks_tracks _) fun _ => physicalMapping_tracks _ _ _)

theorem addSeq_tracks : Within (Tracks p) (addSeq seqId) :=
  .bind .read fun _ => .bind (.require _) fun _ => update_tracks fun _ => rfl

theorem allocate_tracks : Within (Tracks p) (allocate p g) :=
  .bind (.require _) fun _ => .bind .read fun _ => .bind (.require _) fun _ => .bind (.ite (.pure _) (onBlocks_tracks _)) fun _ =>
    .bind (update_tracks fun _ => rfl) fun _ => .bind swapInCpuPrefixIfNeeded_tracks fun _ => .bind addSeq_tracks fun _ =>
    .bind (update_tracks fun _ => rfl) fun _ => .pure _

theorem canAppendSlots_tracks (k : Nat) : Within (Tracks p) (canAppendSlots p g k) := by
  refine .bind .read fun _ => .bind (.ite ?_ (.pure _)) fun _ => .pure _
  exact .bind getTable_tracks fun _ => .pure _

theorem appendSlots_tracks (k : Nat) : Within (Tracks p) (appendSlots p g k) :=
  .bind getTable_tracks fun _ => .bind (onBlocks_tracks _) fun _ => .bind (update_tracks fun _ => rfl) fun _ => onBlocks_tracks _

theorem markBlocksAsComputed_tracks (k : Int) : Within (Tracks p) (markBlocksAsComputed p g k) := by
  refine .bind .read fun m => .when ?_
  split
  · exact .pure _
  · exact .when (onBlocks_tracks _)

theorem registerSyntheticCachedTokens_tracks (k : Int) : Within (Tracks p) (registerSyntheticCachedTokens p g k) := by
  refine .bind .read fun m => ?_
  split
  · exact .pure _
  · refine .ite (.bind (update_tracks fun _ => rfl) fun _ => .pure _) ?_
    exact .bind (update_tracks fun _ => rfl) fun _ => .bind (onBlocks_tracks _) fun _ => .pure _

theorem getCommonComputedBlockIds_tracks : Within (Tracks p) (getCommonComputedBlockIds p g) := by
  refine .ite (.pure _) (.bind getTable_tracks fun t => .bind .read fun m => .bind ?_ fun n => .bind (.require _) fun _ => .pure _)
  split
  · exact .pure _
  · exact getNumCachedTokens_tracks

theorem accessAllBlocksInSeq_tracks (now : Int) : Within (Tracks p) (accessAllBlocksInSeq seqId now) :=
  .bind .read fun _ => .bind (.require _) fun _ => update_tracks fun _ => rfl

theorem freeTable_tracks (t : BlockTable) : Within (Tracks p) (freeTable p seqId t) :=
  .bind (onBlocks_tracks _) fun _ => update_tracks fun _ => rfl

theorem free_tracks : Within (Tracks p) (free p seqId) := by
  refine .bind .read fun m => ?_
  split
  · exact .pure _
  · exact .bind (flushLastAccess_tracks _) fun _ => .bind removeSeqFromComputedBlocksTracker_tracks fun _ => freeTable_tracks _

theorem freeCachedSeqBlocks_tracks (seqIds : List SeqId) : Within (Tracks p) (freeCachedSeqBlocks p seqIds) := by
  refine .forM (fun seqId => .bind .read fun m => ?_) seqIds
  split
  · exact .pure _
  · exact .bind (flushLastAccess_tracks _) fun _ => .bind removeSeq_tracks fun _ => freeTable_tracks _

theorem evictCachedBlocks_tracks (key : Int × Int) : Within (Tracks p) (evictCachedBlocks p key) := by
  refine .bind .read fun m => ?_
  split
  · exact .pure _
  · exact .bind (update_tracks fun _ => rfl) fun _ => freeCachedSeqBlocks_tracks _

theorem retainBlocks_tracks : Within (Tracks p) (retainBlocks p g) := by
  unfold retainBlocks
  split
  · exact .pure _
  · exact .bind (evictCachedBlocks_tracks _) fun _ => update_tracks fun _ => rfl

theorem collectBlocksForSwap_tracks (status : Option SequenceStatus) : Within (Tracks p) (collectBlocksForSwap p g status) :=
  (collectBlocksForSwap_reads g status).mono fun _ _ h => .of_same (by rw [h])

theorem canSwapOut_tracks : Within (Tracks p) (canSwapOut p g) := by
  refine .bind (collectBlocksForSwap_tracks _) fun o => ?_
  cases o with
  | none => exact .pure _
  | some x => exact .bind (onBlocks_tracks _) fun _ => .bind .read fun _ => .pure _

theorem swapOutGroup_tracks (status : Option SequenceStatus) (now : Int) : Within (Tracks p) (swapOutGroup p g status now) := by
  refine .bind (collectBlocksForSwap_tracks _) fun o => ?_
  cases o with
  | none => exact .pure _
  | some x =>
    refine .bind (onBlocks_tracks _) fun _ => .bind .read fun _ => .ite (.pure _) (.bind (onBlocks_tracks _) fun _ =>
      .bind (onBlocks_tracks _) fun _ => .bind (onBlocks_tracks _) fun _ => .bind (update_tracks fun _ => rfl) fun _ =>
      .bind (physicalMapping_tracks _ _ _) fun _ => .bind (update_tracks fun _ => rfl) fun _ => .pure _)

theorem swapOut_tracks (now : Int) : Within (Tracks p) (swapOut p g now) := by
  refine .bind (swapOutGroup_tracks _ now) fun o => ?_
  cases o with
  | none => exact .pure _
  | some pairs => exact .pure _

theorem registerMigratedCpuCache_tracks (tokenIds : List TokenId) (now : Int) :
    Within (Tracks p) (registerMigratedCpuCache p tokenIds now) := by
  refine .ite (.pure _) (.bind (onBlocks_tracks _) fun t => .bind (.mapM (fun _ => .bind (onBlocks_tracks _) fun _ => .pure _) _)
    fun ids => .bind (.when ?_) fun _ => .bind (onBlocks_tracks _) fun _ => .pure _)
  exact .bind (onBlocks_tracks _) fun _ => onBlocks_tracks _

end ManagerM

namespace BlockSpaceManager
open ManagerM
variable {p : ManagerParams} {m : BlockSpaceManager} {ops : List ManagerOp} {u : Unit}

theorem perform_tracks (op : ManagerOp) : Within (Tracks p) (perform p op) := by
  have drop {α : Type} {x : ManagerM α} (h : Within (Tracks p) x) : Within (Tracks p) (do let _ ← x) := .bind h fun _ => .pure _
  cases op with
  | allocate g => exact drop allocate_tracks
  | canAppendSlots g n => exact drop (canAppendSlots_tracks n)
  | appendSlots g n => exact drop (appendSlots_tracks n)
  | markBlocksAsComputed g n => exact markBlocksAsComputed_tracks n
  | registerSyntheticCachedTokens g n => exact drop (registerSyntheticCachedTokens_tracks n)
  | getCommonComputedBlockIds g => exact drop getCommonComputedBlockIds_tracks
  | getNumCachedTokens g d => exact drop getNumCachedTokens_tracks
  | accessAllBlocksInSeq seqId now => exact accessAllBlocksInSeq_tracks now
  | free seqId => exact free_tracks
  | removeSeqFromComputedBlocksTracker seqId => exact removeSeqFromComputedBlocksTracker_tracks
  | retainBlocks g => exact retainBlocks_tracks
  | evictCachedBlocks key => exact evictCachedBlocks_tracks key
  | canSwapOut g => exact drop canSwapOut_tracks
  | swapOut g now => exact drop (swapOut_tracks now)
  | swapOutFinished g now => exact drop (swapOutGroup_tracks none now)
  | registerMigratedCpuCache tokenIds now => exact drop (registerMigratedCpuCache_tracks tokenIds now)

theorem run_tracked (hrun : run p ops (init p) = some (u, m)) : Tracked p m :=
  (Within.forM perform_tracks ops : Within (Tracks p) (run p ops)) _ _ _ hrun init_tracked

end BlockSpaceManager

end CoreFlow
