import CoreFlow.Block.Ready
import CoreFlow.Manager.Untouched
import CoreFlow.Manager.Runs

/-!
# The slots of a table

A worker finds the slot of a position in the block `position / block_size` of the block table that it is given.
A table has a slot for every token once it is allocated or appended to, whatever happened to it before, and
its list of ids is as long as its list of blocks. No other method makes a table.
-/

namespace CoreFlow
open Prog

namespace BlockTable
variable {p : BlockParams} {s s' : CpuGpuBlockAllocator} {t t' : BlockTable} {tokenIds : List TokenId}

/-- One id for each block. -/
def Aligned (t : BlockTable) : Prop := t.blockIds.length = t.blocks.length

theorem update_aligned {blocks : List BlockRef} (h : t.update blocks s = some (t', s')) : t'.Aligned := by
  obtain ⟨ids, s₁, hids, h⟩ := bind_iff.mp h
  rw [(pure_iff.mp h).1]
  exact mapM_length hids

theorem allocate_aligned {d : Device} (h : allocate p t tokenIds d s = some (t', s')) : t'.Aligned := by
  simp only [allocate, require_bind, Option.ite_none_right_eq_some] at h
  obtain ⟨-, -, h⟩ := h
  obtain ⟨blocks, s₁, -, h⟩ := bind_iff.mp h
  obtain ⟨t₁, s₂, hupdate, h⟩ := bind_iff.mp h
  rw [(pure_iff.mp h).1]
  have ha : t₁.Aligned := update_aligned hupdate
  exact ha

theorem appendBlocks_slots {n : Nat} (h : appendBlocks p t n s = some (t', s')) :
    t'.blocks.length = t.blocks.length + n ∧ t'.numFullSlots = t.numFullSlots ∧ (t.Aligned → t'.Aligned) := by
  induction n generalizing t s with
  | zero =>
    rw [(pure_iff.mp h).1]
    exact ⟨rfl, rfl, id⟩
  | succ n ih =>
    simp only [appendBlocks, require_bind, Option.ite_none_right_eq_some] at h
    obtain ⟨-, h⟩ := h
    obtain ⟨r, s₁, -, h⟩ := bind_iff.mp h
    obtain ⟨blockId, s₂, -, h⟩ := bind_iff.mp h
    obtain ⟨hlen, hfull, haligned⟩ := ih h
    refine ⟨?_, hfull, fun ha => haligned ?_⟩
    · rw [hlen, List.length_append, List.length_singleton]
      omega
    · show (t.blockIds ++ [blockId]).length = (t.blocks ++ [r]).length
      rw [List.length_append, List.length_append, ha]
      rfl

/-- However many slots there were, there are as many empty ones as were asked for. -/
theorem ensureNumEmptySlots_slots {n : Nat} (h : ensureNumEmptySlots p t n s = some (t', s')) :
    (n : Int) ≤ t'.numEmptySlots p ∧ t'.numFullSlots = t.numFullSlots ∧ (t.Aligned → t'.Aligned) := by
  simp only [ensureNumEmptySlots, require_bind, Option.ite_none_right_eq_some] at h
  obtain ⟨-, h⟩ := h
  split at h
  · rename_i hroom
    rw [(pure_iff.mp h).1]
    exact ⟨hroom, rfl, id⟩
  · obtain ⟨hlen, hfull, haligned⟩ := appendBlocks_slots h
    refine ⟨?_, hfull, haligned⟩
    have hcover : (n - t.numEmptySlots p).toNat ≤ cdiv (n - t.numEmptySlots p).toNat p.blockSize * p.blockSize := by
      have hpos := p.pos
      have hmod := Nat.div_add_mod ((n - t.numEmptySlots p).toNat + p.blockSize - 1) p.blockSize
      have hlt := Nat.mod_lt ((n - t.numEmptySlots p).toNat + p.blockSize - 1) hpos
      rw [Nat.mul_comm] at hmod
      unfold cdiv
      omega
    generalize cdiv (n - t.numEmptySlots p).toNat p.blockSize = k at hlen hcover
    unfold numEmptySlots at hcover ⊢
    rw [hlen, hfull, Nat.add_mul]
    omega

theorem appendToBlock_slots {i : Nat} {tokens : List TokenId} (h : appendToBlock p t i tokens s = some (t', s')) :
    t'.blocks = t.blocks ∧ t'.numFullSlots = t.numFullSlots ∧ (t.Aligned → t'.Aligned) := by
  simp only [appendToBlock, ofOption_bind, Option.bind_eq_some_iff] at h
  obtain ⟨r, -, h⟩ := h
  obtain ⟨b, s₁, -, h⟩ := bind_iff.mp h
  obtain ⟨_, s₂, -, h⟩ := bind_iff.mp h
  obtain ⟨b', s₃, -, h⟩ := bind_iff.mp h
  split at h
  · simp only [ofOption_bind, Option.bind_eq_some_iff, pure_iff] at h
    obtain ⟨blockId, -, rfl, -⟩ := h
    refine ⟨rfl, rfl, fun ha => ?_⟩
    show (t.blockIds.set i blockId).length = _
    rw [List.length_set, ha]
  · rw [(pure_iff.mp h).1]
    exact ⟨rfl, rfl, id⟩

theorem appendTokenBlocks_slots {i : Nat} {chunks : List (List TokenId)}
    (h : appendTokenBlocks p t i chunks s = some (t', s')) :
    t'.blocks = t.blocks ∧ t'.numFullSlots = t.numFullSlots ∧ (t.Aligned → t'.Aligned) := by
  induction chunks generalizing t i s with
  | nil =>
    rw [(pure_iff.mp h).1]
    exact ⟨rfl, rfl, id⟩
  | cons chunk chunks ih =>
    obtain ⟨t₁, s₁, h₁, h⟩ := bind_iff.mp h
    obtain ⟨hblocks₁, hfull₁, haligned₁⟩ := appendToBlock_slots h₁
    obtain ⟨hblocks, hfull, haligned⟩ := ih h
    exact ⟨hblocks.trans hblocks₁, hfull.trans hfull₁, haligned ∘ haligned₁⟩

/-- The appended tokens and the slots looked ahead for have their blocks. -/
theorem appendTokenIds_slots {n : Nat} (h : appendTokenIds p t tokenIds n s = some (t', s')) :
    t.numFullSlots + tokenIds.length + n ≤ t'.blocks.length * p.blockSize ∧ (t.Aligned → t'.Aligned) := by
  simp only [appendTokenIds, require_bind, Option.ite_none_right_eq_some] at h
  obtain ⟨-, h⟩ := h
  obtain ⟨t₁, s₁, h₁, h⟩ := bind_iff.mp h
  obtain ⟨t₂, s₂, h₂, h⟩ := bind_iff.mp h
  obtain ⟨hroom, hfull₁, haligned₁⟩ := ensureNumEmptySlots_slots h₁
  obtain ⟨hblocks, -, haligned⟩ := appendTokenBlocks_slots h₂
  rw [(pure_iff.mp h).1]
  refine ⟨?_, haligned ∘ haligned₁⟩
  show _ ≤ t₂.blocks.length * _
  unfold numEmptySlots at hroom
  rw [hblocks]
  omega

end BlockTable

/-- A table that was not there before is aligned, and belongs to one of some sequences. -/
def Renews (S : SeqId → Prop) (m m' : BlockSpaceManager) : Prop :=
  ∀ id t, m'.blockTables.get? id = some t → m.blockTables.get? id = some t ∨
    S id ∧ ((∀ t₀, m.blockTables.get? id = some t₀ → t₀.Aligned) → t.Aligned)

instance (S : SeqId → Prop) : IsPreorder BlockSpaceManager (Renews S) where
  refl _ _ _ h := .inl h
  trans m m₁ m₂ h h' := by
    intro id t ht
    rcases h' id t ht with ht₁ | ⟨hS, aligned⟩
    · exact h id t ht₁
    · refine .inr ⟨hS, fun before => aligned fun t₁ ht₁ => ?_⟩
      rcases h id t₁ ht₁ with ht₀ | ⟨-, aligned₁⟩
      · exact before t₁ ht₀
      · exact aligned₁ before

namespace Renews
variable {S S' : SeqId → Prop} {m m' : BlockSpaceManager} {id : SeqId} {t : BlockTable}

theorem of_tables (h : m'.blockTables = m.blockTables) : Renews S m m' := by
  intro id t ht
  rw [h] at ht
  exact .inl ht

theorem mono (h : Renews S m m') (hS : ∀ id, S id → S' id) : Renews S' m m' := fun id t ht =>
  (h id t ht).imp_right fun ⟨hid, aligned⟩ => ⟨hS id hid, aligned⟩

/-- The table of another sequence was there before. -/
theorem kept (h : Renews S m m') (hS : ¬ S id) (ht : m'.blockTables.get? id = some t) : m.blockTables.get? id = some t :=
  (h id t ht).resolve_right fun hid => hS hid.1

theorem aligned (h : Renews S m m') (before : ∀ t, m.blockTables.get? id = some t → t.Aligned)
    (ht : m'.blockTables.get? id = some t) : t.Aligned := by
  rcases h id t ht with ht | ⟨-, aligned⟩
  · exact before t ht
  · exact aligned before

end Renews

namespace ManagerM
variable {p : ManagerParams} {m m' : BlockSpaceManager} {S : SeqId → Prop} {g : SequenceGroup}

theorem renews_of_same {α : Type} {x : ManagerM α} (h : Within SameBlocks x) : Within (Renews S) x :=
  h.mono fun _ _ same => .of_tables same.blockTables

theorem onBlocks_renews {α : Type} (x : BlockM α) : Within (Renews S) (onBlocks x) :=
  .zoom_any fun _ _ => .of_tables rfl

theorem setTable_renews {t : BlockTable} {seqId : SeqId} (hS : S seqId) (ha : t.Aligned) :
    Within (Renews S) (setTable seqId t) := by
  apply Within.update
  intro m id t' ht
  rw [Dict.get?_set] at ht
  split at ht
  · rename_i hid
    rw [← hid, ← Option.some.inj ht]
    exact .inr ⟨hS, fun _ => ha⟩
  · exact .inl ht

theorem eraseTable_renews (seqId : SeqId) : Within (Renews S) (eraseTable seqId) := by
  apply Within.update
  intro m id t ht
  rw [Dict.get?_erase] at ht
  split at ht
  · cases ht
  · exact .inl ht

theorem freeTable_renews (seqId : SeqId) (t : BlockTable) : Within (Renews S) (freeTable p seqId t) :=
  .bind (onBlocks_renews _) fun _ => eraseTable_renews _

theorem flushLastAccess_renews (seqId : SeqId) (ids : List BlockId) : Within (Renews S) (flushLastAccess seqId ids) := by
  refine .bind .read fun m => .bind (.ofOption _) fun ts => .bind ?_ fun _ => .update fun _ => .of_tables rfl
  split
  · exact .pure _
  · exact onBlocks_renews _

theorem free_renews (seqId : SeqId) : Within (Renews S) (free p seqId) := by
  refine .bind .read fun m => ?_
  split
  · exact .pure _
  · exact .bind (flushLastAccess_renews _ _) fun _ =>
      .bind (renews_of_same (removeSeqFromComputedBlocksTracker_same _)) fun _ => freeTable_renews _ _

theorem evictCachedBlocks_renews (key : Int × Int) : Within (Renews S) (evictCachedBlocks p key) := by
  refine .bind .read fun m => ?_
  split
  · exact .pure _
  · refine .bind (.update fun _ => .of_tables rfl) fun _ => .forM (fun seqId => .bind .read fun m => ?_) _
    split
    · exact .pure _
    · exact .bind (flushLastAccess_renews _ _) fun _ => .bind (renews_of_same (removeSeq_same _)) fun _ =>
        freeTable_renews _ _

theorem retainBlocks_renews (g : SequenceGroup) : Within (Renews S) (retainBlocks p g) := by
  unfold retainBlocks
  split
  · exact .pure _
  · exact .bind (evictCachedBlocks_renews _) fun _ => .update fun _ => .of_tables rfl

theorem collectBlocksForSwap_renews (g : SequenceGroup) (status : Option SequenceStatus) :
    Within (Renews S) (collectBlocksForSwap p g status) := by
  refine .bind .read fun m => .ite (.pure _) ?_
  split
  · exact .pure _
  · exact .bind (.mapM (fun _ => .bind (onBlocks_renews _) fun _ => .pure _) _) fun _ => .pure _

theorem canSwapOut_renews (g : SequenceGroup) : Within (Renews S) (canSwapOut p g) := by
  refine .bind (collectBlocksForSwap_renews g _) fun o => ?_
  cases o with
  | none => exact .pure _
  | some x => exact .bind (onBlocks_renews _) fun _ => .bind .read fun _ => .pure _

theorem swapOutGroup_renews (hS : S g.seqId) (status : Option SequenceStatus) (now : Int) :
    Within (Renews S) (swapOutGroup p g status now) := by
  refine .bind (collectBlocksForSwap_renews g _) fun o => ?_
  cases o with
  | none => exact .pure _
  | some x =>
    refine .bind (onBlocks_renews _) fun _ => .bind .read fun m => .ite (.pure _) ?_
    refine .bind (onBlocks_renews _) fun _ => .bind (onBlocks_renews _) fun _ => ?_
    refine Within.bind_of (onBlocks_renews _) (fun s t s' h => ?_) fun t ha => .bind (setTable_renews hS ha) fun _ => ?_
    · obtain ⟨b, hb, -⟩ := zoom_iff.mp h
      exact BlockTable.update_aligned hb
    · exact .bind (renews_of_same (physicalMapping_same _ _ _)) fun _ => .bind (.update fun _ => .of_tables rfl) fun _ =>
        .pure _

theorem swapOut_renews (hS : S g.seqId) (now : Int) : Within (Renews S) (swapOut p g now) := by
  refine .bind (swapOutGroup_renews hS _ now) fun o => ?_
  cases o <;> exact .pure _

theorem swapInCpuPrefixIfNeeded_renews (g : SequenceGroup) : Within (Renews S) (swapInCpuPrefixIfNeeded p g) := by
  refine .bind (renews_of_same (getNumCachedTokens_same p g _)) fun _ =>
    .bind (renews_of_same (getNumCachedTokens_same p g _)) fun _ => .ite (.pure _) ?_
  refine .bind (onBlocks_renews _) fun _ => .bind (onBlocks_renews _) fun _ => .bind (onBlocks_renews _) fun _ =>
    .bind (.when (onBlocks_renews _)) fun _ => .bind (renews_of_same (updateNumCachedTokens_same p g _ _)) fun _ => ?_
  exact .bind (onBlocks_renews _) fun _ => renews_of_same (physicalMapping_same _ _ _)

/-- A new table has a slot for every token. -/
theorem allocateSequence_slots {t : BlockTable} (h : allocateSequence p g m = some (t, m')) :
    t.Aligned ∧ g.getTokenIds.length ≤ t.blocks.length * p.blockSize := by
  unfold allocateSequence at h
  split at h
  · rename_i hnil
    rw [(pure_iff.mp h).1, hnil]
    exact ⟨rfl, Nat.zero_le _⟩
  · obtain ⟨b, hb, -⟩ := zoom_iff.mp h
    have ha : t.blockIds.length = t.blocks.length := BlockTable.allocate_aligned hb
    refine ⟨ha, ?_⟩
    rw [← ha]
    exact BlockTable.allocate_length hb

theorem addSeq_renews (seqId : SeqId) : Within (Renews S) (addSeq seqId) :=
  .bind .read fun _ => .bind (.require _) fun _ => .update fun _ => .of_tables rfl

theorem allocate_renews (hS : S g.seqId) : Within (Renews S) (allocate p g) := by
  refine .bind (.require _) fun _ => .bind .read fun m => .bind (.require _) fun _ => ?_
  refine Within.bind_of (.ite (.pure _) (onBlocks_renews _)) (fun _ _ _ h => (allocateSequence_slots h).1) fun t ha => ?_
  exact .bind (setTable_renews hS ha) fun _ => .bind (swapInCpuPrefixIfNeeded_renews g) fun _ =>
    .bind (addSeq_renews _) fun _ => .bind (.update fun _ => .of_tables rfl) fun _ => .pure _

/-- The table of an allocated sequence has a slot for every token. -/
theorem allocate_slots {pairs : List SwapPair} {t : BlockTable} (h : allocate p g m = some (pairs, m'))
    (ht : m'.blockTables.get? g.seqId = some t) : g.getTokenIds.length ≤ t.blocks.length * p.blockSize := by
  simp only [allocate, bind_iff, require_bind, read_bind, update_bind, pure_iff, Option.ite_none_right_eq_some] at h
  obtain ⟨-, -, t₀, m₁, h₁, _, m₂, h₂, pairs', m₃, h₃, _, m₄, h₄, -, rfl⟩ := h
  have before := (IsTrans.trans _ _ _ (swapInCpuPrefixIfNeeded_renews (S := fun _ => False) g _ _ _ h₃)
    (addSeq_renews g.seqId _ _ _ h₄)).kept id ht
  rw [update_iff.mp h₂] at before
  obtain rfl := Option.some.inj ((Dict.get?_set_self _ _ _).symm.trans before)
  exact (allocateSequence_slots h₁).2

/-- After an append too. -/
theorem appendSlots_slots {n : Nat} {cows : List (BlockId × BlockId)} {t : BlockTable}
    (h : appendSlots p g n m = some (cows, m')) (ht : m'.blockTables.get? g.seqId = some t) :
    g.getTokenIds.length ≤ t.blocks.length * p.blockSize := by
  simp only [appendSlots, getTable, setTable, bind_assoc, bind_iff, read_bind, ofOption_bind, update_bind,
    Option.bind_eq_some_iff] at h
  obtain ⟨t₀, -, t', m₁, h₁, h₂⟩ := h
  obtain ⟨b₁, hb₁, rfl⟩ := zoom_iff.mp h₁
  obtain ⟨b₂, -, rfl⟩ := zoom_iff.mp h₂
  obtain rfl := Option.some.inj ((Dict.get?_set_self _ _ _).symm.trans ht)
  have hslots := (BlockTable.appendTokenIds_slots hb₁).1
  rw [BlockTable.getUnseenTokenIds, List.length_drop] at hslots
  omega

theorem appendSlots_renews (hS : S g.seqId) (n : Nat) : Within (Renews S) (appendSlots p g n) := by
  intro m cows m' h
  simp only [appendSlots, getTable, setTable, bind_assoc, bind_iff, read_bind, ofOption_bind, update_bind,
    Option.bind_eq_some_iff] at h
  obtain ⟨t₀, ht₀, t', m₁, h₁, h₂⟩ := h
  obtain ⟨b₁, hb₁, rfl⟩ := zoom_iff.mp h₁
  obtain ⟨b₂, -, rfl⟩ := zoom_iff.mp h₂
  intro id t ht
  rw [Dict.get?_set] at ht
  split at ht
  · rename_i hid
    obtain rfl := Option.some.inj ht
    rw [← hid]
    exact .inr ⟨hS, fun before => (BlockTable.appendTokenIds_slots hb₁).2 (before t₀ ht₀)⟩
  · exact .inl ht

theorem registerSyntheticCachedTokens_renews (g : SequenceGroup) (n : Int) :
    Within (Renews S) (registerSyntheticCachedTokens p g n) := by
  refine .bind .read fun m => ?_
  split
  · exact .pure _
  · refine .ite (.bind (.update fun _ => .of_tables rfl) fun _ => .pure _) ?_
    exact .bind (.update fun _ => .of_tables rfl) fun _ => .bind (onBlocks_renews _) fun _ => .pure _

theorem markBlocksAsComputed_renews (g : SequenceGroup) (n : Int) : Within (Renews S) (markBlocksAsComputed p g n) := by
  refine .bind .read fun m => .when ?_
  split
  · exact .pure _
  · exact .when (onBlocks_renews _)

theorem accessAllBlocksInSeq_renews (seqId : SeqId) (now : Int) : Within (Renews S) (accessAllBlocksInSeq seqId now) :=
  .bind .read fun _ => .bind (.require _) fun _ => .update fun _ => .of_tables rfl

theorem registerMigratedCpuCache_renews (tokenIds : List TokenId) (now : Int) :
    Within (Renews S) (registerMigratedCpuCache p tokenIds now) := by
  refine .ite (.pure _) (.bind (onBlocks_renews _) fun t => .bind ?_ fun ids => ?_)
  · exact .mapM (fun _ => .bind (onBlocks_renews _) fun _ => .pure _) _
  · refine .bind (.when ?_) fun _ => .bind (onBlocks_renews _) fun _ => .pure _
    exact .bind (onBlocks_renews _) fun _ => onBlocks_renews _

end ManagerM

/-- No call makes a table that is not aligned. -/
theorem BlockSpaceManager.perform_renews {p : ManagerParams} (op : ManagerOp) :
    Within (Renews fun _ => True) (perform p op) := by
  have drop {α : Type} {x : ManagerM α} (h : Within (Renews fun _ => True) x) :
      Within (Renews fun _ => True) (do let _ ← x) := .bind h fun _ => .pure _
  have same {α : Type} {x : ManagerM α} (h : Within SameBlocks x) : Within (Renews fun _ => True) x :=
    ManagerM.renews_of_same h
  cases op with
  | allocate g => exact drop (ManagerM.allocate_renews trivial)
  | canAppendSlots g n => exact drop (same (ManagerM.canAppendSlots_same p g n))
  | appendSlots g n => exact drop (ManagerM.appendSlots_renews trivial n)
  | markBlocksAsComputed g n => exact ManagerM.markBlocksAsComputed_renews g n
  | registerSyntheticCachedTokens g n => exact drop (ManagerM.registerSyntheticCachedTokens_renews g n)
  | getCommonComputedBlockIds g => exact drop (same (ManagerM.getCommonComputedBlockIds_same p g))
  | getNumCachedTokens g d => exact drop (same (ManagerM.getNumCachedTokens_same p g d))
  | accessAllBlocksInSeq seqId now => exact ManagerM.accessAllBlocksInSeq_renews seqId now
  | free seqId => exact ManagerM.free_renews seqId
  | removeSeqFromComputedBlocksTracker seqId => exact same (ManagerM.removeSeqFromComputedBlocksTracker_same seqId)
  | retainBlocks g => exact ManagerM.retainBlocks_renews g
  | evictCachedBlocks key => exact ManagerM.evictCachedBlocks_renews key
  | canSwapOut g => exact drop (ManagerM.canSwapOut_renews g)
  | swapOut g now => exact drop (ManagerM.swapOut_renews trivial now)
  | swapOutFinished g now => exact drop (ManagerM.swapOutGroup_renews trivial none now)
  | registerMigratedCpuCache tokenIds now => exact drop (ManagerM.registerMigratedCpuCache_renews tokenIds now)

end CoreFlow
