import CoreFlow.Block.Growth
import CoreFlow.Manager.Owners

/-!
# What a method leaves alone of another sequence

The blocks that a worker may skip come from the table of a sequence, from the count of its tokens found on
the GPU and from its synthetic count. `Untouched` says that these three are the same; a method breaks it
for the sequence that it is about, and `_free_cached_seq_blocks` for the sequences of its entry.
-/

namespace CoreFlow
open Prog

structure Untouched (id : SeqId) (m m' : BlockSpaceManager) : Prop where
  table : m'.blockTables.get? id = m.blockTables.get? id
  computed : m'.computedBlocksTracker.seqIdToNumTokensComputed.get? (id, .gpu) =
    m.computedBlocksTracker.seqIdToNumTokensComputed.get? (id, .gpu)
  synthetic : m'.syntheticCachedTokens.get? id = m.syntheticCachedTokens.get? id

instance (id : SeqId) : IsPreorder BlockSpaceManager (Untouched id) where
  refl _ := ⟨rfl, rfl, rfl⟩
  trans _ _ _ h h' := ⟨h'.1.trans h.1, h'.2.trans h.2, h'.3.trans h.3⟩

/-- The sequence `id` has the table `t` and no synthetic count, and `found` tokens of it are in the GPU cache. -/
structure Found (id : SeqId) (t : BlockTable) (found : Nat) (m : BlockSpaceManager) : Prop where
  table : m.blockTables.get? id = some t
  computed : m.computedBlocksTracker.seqIdToNumTokensComputed.get? (id, .gpu) = some found
  synthetic : m.syntheticCachedTokens.get? id = none

theorem Found.untouched {id : SeqId} {t : BlockTable} {found : Nat} {m m' : BlockSpaceManager}
    (h : Found id t found m) (u : Untouched id m m') : Found id t found m' :=
  ⟨u.table.trans h.table, u.computed.trans h.computed, u.synthetic.trans h.synthetic⟩

namespace ManagerM
variable {p : ManagerParams} {m m' : BlockSpaceManager} {g : SequenceGroup} {id seqId : SeqId}
  {d : Device} {n : Nat}

/-! ## The trackers -/

theorem onBlocks_untouched {α : Type} (x : BlockM α) : Within (Untouched id) (onBlocks x) :=
  .zoom_any fun _ _ => ⟨rfl, rfl, rfl⟩

theorem updateSeqHashes_untouched (g : SequenceGroup) : Within (Untouched id) (updateSeqHashes p g) :=
  .bind .read fun _ => .bind (.require _) fun _ => .update fun _ => ⟨rfl, rfl, rfl⟩

theorem setNumTokensComputed_untouched (hne : (seqId, d) ≠ (id, .gpu)) (n : Nat) :
    Within (Untouched id) (setNumTokensComputed seqId d n) :=
  .update fun _ => ⟨rfl, Dict.get?_set_ne _ _ hne, rfl⟩

theorem getNumCachedTokens_untouched (hne : (g.seqId, d) ≠ (id, .gpu)) :
    Within (Untouched id) (getNumCachedTokens p g d) := by
  refine .bind (updateSeqHashes_untouched g) fun _ => .bind .read fun m => ?_
  have compute (o : Option (List PrefixHash)) :
      Within (Untouched id) (do
        let blockHashes ← ofOption o
        let n := ((m.blockAllocator.on d).findCachedBlocksPrefix blockHashes).length * p.blockSize
        setNumTokensComputed g.seqId d n
        pure n) :=
    .bind (.ofOption _) fun _ => .bind (setNumTokensComputed_untouched hne _) fun _ => .pure _
  dsimp only
  split
  · exact .ite (.pure _) (compute _)
  · exact compute _

/-- The prefix length found for a sequence in prefill is the one recorded for it. -/
theorem getNumCachedTokens_recorded (hg : g.isPrefill = true)
    (h : getNumCachedTokens p g d m = some (n, m')) :
    m'.computedBlocksTracker.seqIdToNumTokensComputed.get? (g.seqId, d) = some n ∧
      ∀ x, x ≠ (g.seqId, d) → m'.computedBlocksTracker.seqIdToNumTokensComputed.get? x =
        m.computedBlocksTracker.seqIdToNumTokensComputed.get? x := by
  obtain ⟨_, m₁, h₁, h⟩ := bind_iff.mp h
  have kept : m₁.computedBlocksTracker.seqIdToNumTokensComputed =
      m.computedBlocksTracker.seqIdToNumTokensComputed := by
    simp only [updateSeqHashes, read_bind, require_bind, Option.ite_none_right_eq_some, update_iff] at h₁
    rw [h₁.2]
  rw [read_bind] at h
  rw [← kept]
  have computed (o : Option (List PrefixHash))
      (hc : (do
        let blockHashes ← ofOption o
        let k := ((m₁.blockAllocator.on d).findCachedBlocksPrefix blockHashes).length * p.blockSize
        setNumTokensComputed g.seqId d k
        pure k) m₁ = some (n, m')) :
      m'.computedBlocksTracker.seqIdToNumTokensComputed.get? (g.seqId, d) = some n ∧
        ∀ x, x ≠ (g.seqId, d) → m'.computedBlocksTracker.seqIdToNumTokensComputed.get? x =
          m₁.computedBlocksTracker.seqIdToNumTokensComputed.get? x := by
    simp only [ofOption_bind, Option.bind_eq_some_iff, setNumTokensComputed, update_bind, pure_iff] at hc
    obtain ⟨_, -, rfl, rfl⟩ := hc
    exact ⟨Dict.get?_set_self _ _ _, fun x hx => Dict.get?_set_ne _ _ (Ne.symm hx)⟩
  cases hr : m₁.computedBlocksTracker.seqIdToNumTokensComputed.get? (g.seqId, d) with
  | none =>
    simp only [hr] at h
    exact computed _ h
  | some k =>
    simp only [hr, hg, if_true] at h
    obtain ⟨rfl, rfl⟩ := pure_iff.mp h
    exact ⟨hr, fun _ _ => rfl⟩

/-- A count that is recorded for a sequence in prefill is returned and stays. -/
theorem getNumCachedTokens_again {k : Nat} (hg : g.isPrefill = true)
    (hk : m.computedBlocksTracker.seqIdToNumTokensComputed.get? (g.seqId, d) = some k)
    (h : getNumCachedTokens p g d m = some (n, m')) : n = k ∧ (∀ id, Untouched id m m') ∧
      m'.computedBlocksTracker.seqIdToNumTokensComputed = m.computedBlocksTracker.seqIdToNumTokensComputed := by
  obtain ⟨_, m₁, h₁, h⟩ := bind_iff.mp h
  have same : m₁.computedBlocksTracker.seqIdToNumTokensComputed =
      m.computedBlocksTracker.seqIdToNumTokensComputed := by
    simp only [updateSeqHashes, read_bind, require_bind, Option.ite_none_right_eq_some, update_iff] at h₁
    rw [h₁.2]
  rw [← same] at hk
  simp only [read_bind, hk, hg, if_true, pure_iff] at h
  rw [h.2]
  exact ⟨h.1, fun id => updateSeqHashes_untouched g _ _ _ h₁, same⟩

theorem getNumCachedTokens_found {t : BlockTable} {found : Nat} (hg : g.isPrefill = true) :
    Within (Preserves (Found g.seqId t found)) (getNumCachedTokens p g d) := by
  intro m n m' h i
  cases d with
  | gpu => exact i.untouched ((getNumCachedTokens_again hg i.computed h).2.1 g.seqId)
  | cpu => exact i.untouched (getNumCachedTokens_untouched (by simp) _ _ _ h)

theorem getCommonComputedBlockIds_untouched (hne : g.seqId ≠ id) :
    Within (Untouched id) (getCommonComputedBlockIds p g) :=
  getCommonComputedBlockIds_rule p (getNumCachedTokens_untouched (by simp [hne]))

theorem getCommonComputedBlockIds_found {t : BlockTable} {found : Nat} (hg : g.isPrefill = true) :
    Within (Preserves (Found g.seqId t found)) (getCommonComputedBlockIds p g) :=
  getCommonComputedBlockIds_rule p (getNumCachedTokens_found hg)

/-- The computed blocks of a running sequence in prefill hold the prefix found on the GPU, as far as its
table goes. -/
theorem getCommonComputedBlockIds_length {t : BlockTable} {found : Nat} {nums : List BlockId}
    (hg : g.isPrefill = true) (hrun : g.status = .running) (i : Found g.seqId t found m)
    (h : getCommonComputedBlockIds p g m = some (nums, m')) :
    nums.length * p.blockSize = min found (t.blockIds.length * p.blockSize) := by
  simp only [getCommonComputedBlockIds, hrun, getTable, bind_assoc, read_bind, i.table, ofOption_bind,
    Option.bind_some, ne_eq, not_true_eq_false, if_false, i.synthetic] at h
  obtain ⟨n, m₁, h₁, h⟩ := bind_iff.mp h
  obtain ⟨rfl, -⟩ := getNumCachedTokens_again hg i.computed h₁
  rw [require_bind, Option.ite_none_right_eq_some] at h
  obtain ⟨hmod, h⟩ := h
  have hdiv := Nat.div_mul_cancel (Nat.dvd_of_mod_eq_zero hmod)
  rw [(pure_iff.mp h).1, List.length_take, ← Nat.mul_min_mul_right, hdiv]

theorem updateNumCachedTokens_untouched (hne : g.seqId ≠ id) (n : Nat) (d : Device) :
    Within (Untouched id) (updateNumCachedTokens p g n d) :=
  .bind (updateSeqHashes_untouched g) fun _ => setNumTokensComputed_untouched (by simp [hne]) n

theorem removeSeq_untouched (hne : seqId ≠ id) : Within (Untouched id) (removeSeq seqId) := by
  apply Within.update
  intro m
  split
  · refine ⟨rfl, ?_, rfl⟩
    show ((m.computedBlocksTracker.seqIdToNumTokensComputed.erase (seqId, .gpu)).erase (seqId, .cpu)).get? (id, .gpu) = _
    rw [Dict.get?_erase_ne _ (by simp), Dict.get?_erase_ne _ (by simp [hne])]
  · exact refl m

theorem removeSeqFromComputedBlocksTracker_untouched (hne : seqId ≠ id) :
    Within (Untouched id) (removeSeqFromComputedBlocksTracker seqId) :=
  .bind (removeSeq_untouched hne) fun _ => .update fun _ => ⟨rfl, rfl, Dict.get?_erase_ne _ hne⟩

theorem addSeq_untouched (seqId : SeqId) : Within (Untouched id) (addSeq seqId) :=
  .bind .read fun _ => .bind (.require _) fun _ => .update fun _ => ⟨rfl, rfl, rfl⟩

theorem accessAllBlocksInSeq_untouched (seqId : SeqId) (now : Int) :
    Within (Untouched id) (accessAllBlocksInSeq seqId now) :=
  .bind .read fun _ => .bind (.require _) fun _ => .update fun _ => ⟨rfl, rfl, rfl⟩

theorem flushLastAccess_untouched (seqId : SeqId) (blockIds : List BlockId) :
    Within (Untouched id) (flushLastAccess seqId blockIds) := by
  refine .bind .read fun m => .bind (.ofOption _) fun ts => .bind ?_ fun _ => .update fun _ => ⟨rfl, rfl, rfl⟩
  split
  · exact .pure _
  · exact onBlocks_untouched _

/-! ## Tables -/

theorem setTable_untouched (hne : seqId ≠ id) (t : BlockTable) : Within (Untouched id) (setTable seqId t) :=
  .update fun _ => ⟨Dict.get?_set_ne _ _ hne, rfl, rfl⟩

theorem physicalMapping_untouched (src dst : Device) (mapping : Dict BlockId BlockId) :
    Within (Untouched id) (physicalMapping src dst mapping) :=
  .bind .read fun _ => .mapM (fun _ => .bind (.ofOption _) fun _ => .bind (.ofOption _) fun _ => .pure _) _

theorem swapInCpuPrefixIfNeeded_untouched (hne : g.seqId ≠ id) :
    Within (Untouched id) (swapInCpuPrefixIfNeeded p g) := by
  have count (d : Device) : Within (Untouched id) (getNumCachedTokens p g d) :=
    getNumCachedTokens_untouched (by simp [hne])
  refine .bind (count .gpu) fun gpu => .bind (count .cpu) fun cpu => .ite (.pure _) ?_
  refine .bind (onBlocks_untouched _) fun t => .bind (onBlocks_untouched _) fun _ =>
    .bind (onBlocks_untouched _) fun ids => .bind (.when (onBlocks_untouched _)) fun _ => ?_
  exact .bind (updateNumCachedTokens_untouched hne _ _) fun _ => .bind (onBlocks_untouched _) fun _ =>
    physicalMapping_untouched _ _ _

theorem allocateSequence_untouched (g : SequenceGroup) : Within (Untouched id) (allocateSequence p g) :=
  .ite (.pure _) (onBlocks_untouched _)

theorem allocate_untouched (hne : g.seqId ≠ id) : Within (Untouched id) (allocate p g) := by
  refine .bind (.require _) fun _ => .bind .read fun m => .bind (.require _) fun _ => ?_
  refine .bind (allocateSequence_untouched g) fun t => .bind (setTable_untouched hne t) fun _ => ?_
  refine .bind (swapInCpuPrefixIfNeeded_untouched hne) fun _ => .bind (addSeq_untouched _) fun _ => ?_
  exact .bind (.update fun _ => ⟨rfl, rfl, rfl⟩) fun _ => .pure _

theorem registerSyntheticCachedTokens_untouched (hne : g.seqId ≠ id) (n : Int) :
    Within (Untouched id) (registerSyntheticCachedTokens p g n) := by
  refine .bind .read fun m => ?_
  split
  · exact .pure _
  · refine .ite (.bind (.update fun _ => ⟨rfl, rfl, Dict.get?_erase_ne _ hne⟩) fun _ => .pure _) ?_
    exact .bind (.update fun _ => ⟨rfl, rfl, Dict.get?_set_ne _ _ hne⟩) fun _ =>
      .bind (onBlocks_untouched _) fun _ => .pure _

/-- The steps that release the table of a sequence. -/
theorem releaseTable_untouched (hne : seqId ≠ id) (t : BlockTable) :
    Within (Untouched id) (do
      flushLastAccess seqId t.blockIds
      removeSeq seqId
      freeTable p seqId t) :=
  .bind (flushLastAccess_untouched _ _) fun _ => .bind (removeSeq_untouched hne) fun _ =>
    .bind (onBlocks_untouched _) fun _ => .update fun _ => ⟨Dict.get?_erase_ne _ hne, rfl, rfl⟩

theorem freeCachedSeqBlocks_untouched {seqIds : List SeqId} {u : Unit} (hid : id ∉ seqIds)
    (h : freeCachedSeqBlocks p seqIds m = some (u, m')) : Untouched id m m' := by
  refine (forM_invariant (fun todo t => id ∉ todo ∧ Untouched id m t) ?_ h ⟨hid, refl m⟩).2
  rintro x todo t t' ⟨hid, i⟩ h
  rw [List.mem_cons, not_or] at hid
  refine ⟨hid.2, IsTrans.trans _ _ _ i ?_⟩
  rw [read_bind] at h
  cases ht : t.blockTables.get? x with
  | none =>
    rw [ht] at h
    rw [(pure_iff.mp h).2]
    exact refl t
  | some table =>
    rw [ht] at h
    exact releaseTable_untouched (Ne.symm hid.1) table _ _ _ h

/-- An entry goes that does not hold the sequence. -/
theorem evictCachedBlocks_untouched {key : Int × Int} {u : Unit} (hid : id ∉ entrySeqIds m key)
    (h : evictCachedBlocks p key m = some (u, m')) : Untouched id m m' := by
  rw [evictCachedBlocks, read_bind] at h
  unfold entrySeqIds at hid
  cases he : m.gpuCachedEntries.get? key with
  | none =>
    rw [he] at h
    rw [(pure_iff.mp h).2]
    exact refl m
  | some e =>
    rw [he] at hid
    simp only [he, update_bind] at h
    have u := freeCachedSeqBlocks_untouched hid h
    exact ⟨u.table, u.computed, u.synthetic⟩

/-! ## The new table -/

/-- The CPU prefix that is swapped in is counted as found on the GPU. -/
theorem swapInCpuPrefixIfNeeded_found {t : BlockTable} {gpu cpu : Nat} {pairs : List SwapPair} (hg : g.isPrefill = true)
    (i : Found g.seqId t gpu m)
    (hcpu : m.computedBlocksTracker.seqIdToNumTokensComputed.get? (g.seqId, .cpu) = some cpu)
    (h : swapInCpuPrefixIfNeeded p g m = some (pairs, m')) :
    ∃ found, Found g.seqId t found m' ∧ min (max gpu cpu) g.getTokenIds.length ≤ found := by
  obtain ⟨n, m₁, h₁, h⟩ := bind_iff.mp h
  obtain ⟨rfl, u₁, c₁⟩ := getNumCachedTokens_again hg i.computed h₁
  rw [← c₁] at hcpu
  obtain ⟨k, m₂, h₂, h⟩ := bind_iff.mp h
  obtain ⟨rfl, u₂, -⟩ := getNumCachedTokens_again hg hcpu h₂
  have i₂ := (i.untouched (u₁ g.seqId)).untouched (u₂ g.seqId)
  dsimp only at h
  split at h
  · rename_i hstop
    rw [(pure_iff.mp h).2]
    refine ⟨n, i₂, ?_⟩
    rw [List.take_eq_nil_iff] at hstop
    rcases hstop with hle | hzero | hnil
    · omega
    · omega
    · rw [hnil, List.length_nil]
      omega
  · rename_i hgo
    obtain ⟨cpuBlockTable, m₃, h₃, h⟩ := bind_iff.mp h
    obtain ⟨mapping, m₄, h₄, h⟩ := bind_iff.mp h
    obtain ⟨ids, m₅, h₅, h⟩ := bind_iff.mp h
    obtain ⟨_, m₆, h₆, h⟩ := bind_iff.mp h
    obtain ⟨_, m₇, h₇, h⟩ := bind_iff.mp h
    obtain ⟨_, m₈, h₈, h⟩ := bind_iff.mp h
    have i₆ := (((i₂.untouched (onBlocks_untouched _ _ _ _ h₃)).untouched (onBlocks_untouched _ _ _ _ h₄)).untouched
      (onBlocks_untouched _ _ _ _ h₅)).untouched (Within.when (onBlocks_untouched _) _ _ _ h₆)
    obtain ⟨_, m₇', h₇', h₇⟩ := bind_iff.mp h₇
    have i₇' := i₆.untouched (updateSeqHashes_untouched g _ _ _ h₇')
    rw [setNumTokensComputed, update_iff] at h₇
    -- what counts as found now is the CPU prefix
    have i₇ : Found g.seqId t k m₇ := by
      rw [h₇]
      exact ⟨i₇'.table, Dict.get?_set_self _ _ _, i₇'.synthetic⟩
    refine ⟨k, (i₇.untouched (onBlocks_untouched _ _ _ _ h₈)).untouched (physicalMapping_untouched _ _ _ _ _ _ h), ?_⟩
    omega

/-- A new table has room for all the tokens, and the longer of the two prefixes found in the caches is
counted as found on the GPU. -/
theorem allocate_covers {gpu cpu : Nat} {pairs : List SwapPair} (hg : g.isPrefill = true)
    (hsyn : m.syntheticCachedTokens.get? g.seqId = none)
    (hgpu : m.computedBlocksTracker.seqIdToNumTokensComputed.get? (g.seqId, .gpu) = some gpu)
    (hcpu : m.computedBlocksTracker.seqIdToNumTokensComputed.get? (g.seqId, .cpu) = some cpu)
    (h : allocate p g m = some (pairs, m')) :
    ∃ t found, Found g.seqId t found m' ∧ g.getTokenIds.length ≤ t.blockIds.length * p.blockSize ∧
      min (max gpu cpu) g.getTokenIds.length ≤ found := by
  simp only [allocate, bind_iff, require_bind, read_bind, update_bind, pure_iff,
    Option.ite_none_right_eq_some] at h
  obtain ⟨-, -, t, m₁, h₁, _, m₂, h₂, pairs', m₃, h₃, _, m₄, h₄, -, rfl⟩ := h
  have hroom : g.getTokenIds.length ≤ t.blockIds.length * p.blockSize := by
    unfold allocateSequence at h₁
    split at h₁
    · rename_i hnil
      rw [hnil]
      exact Nat.zero_le _
    · obtain ⟨s, hs, -⟩ := zoom_iff.mp h₁
      exact BlockTable.allocate_length hs
  have u₁ : m₁.computedBlocksTracker = m.computedBlocksTracker ∧
      m₁.syntheticCachedTokens = m.syntheticCachedTokens := by
    unfold allocateSequence at h₁
    split at h₁
    · rw [(pure_iff.mp h₁).2]
      exact ⟨rfl, rfl⟩
    · obtain ⟨s, -, rfl⟩ := zoom_iff.mp h₁
      exact ⟨rfl, rfl⟩
  rw [setTable, update_iff] at h₂
  rw [← u₁.1] at hgpu hcpu
  rw [← u₁.2] at hsyn
  have i₂ : Found g.seqId t gpu m₂ := by
    rw [h₂]
    exact ⟨Dict.get?_set_self _ _ _, hgpu, hsyn⟩
  rw [show m₁.computedBlocksTracker = m₂.computedBlocksTracker by rw [h₂]] at hcpu
  obtain ⟨found, i₃, hle⟩ := swapInCpuPrefixIfNeeded_found hg i₂ hcpu h₃
  have i₄ := i₃.untouched (addSeq_untouched g.seqId _ _ _ h₄)
  exact ⟨t, found, ⟨i₄.table, i₄.computed, i₄.synthetic⟩, hroom, hle⟩

end ManagerM

end CoreFlow
