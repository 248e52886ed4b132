import CoreFlow.Manager.Frame

/-!
# Which sequences have a table

One lemma for each method that adds or removes tables or retained entries, or asks for copies: what
the tables, the entries and the ghost of the copies are afterwards.
-/

namespace CoreFlow.ManagerM
open Prog
variable {p : ManagerParams} {m m' : BlockSpaceManager}

theorem allocate_owners {g : SequenceGroup} {pairs : List SwapPair}
    (h : allocate p g m = some (pairs, m')) :
    g.status = .waiting ∧ g.seqId ∉ m.blockTables ∧
      (∀ id, id ∈ m'.blockTables ↔ id = g.seqId ∨ id ∈ m.blockTables) ∧
      m'.gpuCachedEntries = m.gpuCachedEntries ∧
      m'.trace = { m.trace with swapIns := m.trace.swapIns ++ pairs } := by
  simp only [allocate, setTable, bind_iff, require_bind, read_bind, update_bind, pure_iff,
    Option.ite_none_right_eq_some] at h
  obtain ⟨hwait, hfresh, t, m₁, h₁, pairs', m₂, h₂, _, m₃, h₃, rfl, rfl⟩ := h
  have s₁ := allocateSequence_owners p g _ _ _ h₁
  have s₂ := swapInCpuPrefixIfNeeded_owners p g _ _ _ h₂
  have s₃ := addSeq_owners g.seqId _ _ _ h₃
  refine ⟨hwait, hfresh, fun id => ?_, ?_, ?_⟩
  · rw [s₃.tables, s₂.tables, Dict.mem_set, s₁.tables]
  · rw [s₃.entries, s₂.entries, s₁.entries]
  · rw [s₃.trace, s₂.trace, s₁.trace]

/-- The steps that release the table of a sequence. -/
theorem releaseTable_owners {seqId : SeqId} {t : BlockTable} {x : ManagerM Unit} {u : Unit}
    (hx : Within SameBlocks x)
    (h : (do
      flushLastAccess seqId t.blockIds
      x
      freeTable p seqId t) m = some (u, m')) :
    (∀ id, id ∈ m'.blockTables ↔ id ≠ seqId ∧ id ∈ m.blockTables) ∧
      m'.gpuCachedEntries = m.gpuCachedEntries ∧ m'.trace = m.trace := by
  simp only [freeTable, eraseTable, bind_iff, update_iff] at h
  obtain ⟨_, m₁, h₁, _, m₂, h₂, _, m₃, h₃, rfl⟩ := h
  have s₁ := flushLastAccess_owners _ _ _ _ _ h₁
  have s₂ := (hx _ _ _ h₂).owners
  have s₃ := onBlocks_owners _ _ _ _ h₃
  refine ⟨fun id => ?_, ?_, ?_⟩
  · rw [Dict.mem_erase, s₃.tables, s₂.tables, s₁.tables]
  · rw [s₃.entries, s₂.entries, s₁.entries]
  · rw [s₃.trace, s₂.trace, s₁.trace]

theorem free_owners {seqId : SeqId} {u : Unit} (h : free p seqId m = some (u, m')) :
    (∀ id, id ∈ m'.blockTables ↔ id ≠ seqId ∧ id ∈ m.blockTables) ∧
      m'.gpuCachedEntries = m.gpuCachedEntries ∧ m'.trace = m.trace := by
  rw [free, read_bind] at h
  cases ht : m.blockTables.get? seqId with
  | none =>
    rw [ht] at h
    obtain ⟨rfl, rfl⟩ := pure_iff.mp h
    refine ⟨fun id => ⟨fun hid => ⟨?_, hid⟩, And.right⟩, rfl, rfl⟩
    rintro rfl
    exact Dict.get?_eq_none.mp ht hid
  | some t =>
    rw [ht] at h
    exact releaseTable_owners (removeSeqFromComputedBlocksTracker_same seqId) h

theorem freeCachedSeqBlocks_owners {seqIds : List SeqId} {u : Unit}
    (h : freeCachedSeqBlocks p seqIds m = some (u, m')) :
    (∀ id, id ∈ m'.blockTables ↔ id ∉ seqIds ∧ id ∈ m.blockTables) ∧
      m'.gpuCachedEntries = m.gpuCachedEntries ∧ m'.trace = m.trace := by
  unfold freeCachedSeqBlocks at h
  induction seqIds generalizing m with
  | nil =>
    rw [forM_nil_iff.mp h]
    simp
  | cons seqId seqIds ih =>
    obtain ⟨m₁, h₁, h₂⟩ := forM_cons_iff.mp h
    obtain ⟨tables, entries, trace⟩ := ih h₂
    rw [read_bind] at h₁
    have first : (∀ id, id ∈ m₁.blockTables ↔ id ≠ seqId ∧ id ∈ m.blockTables) ∧
        m₁.gpuCachedEntries = m.gpuCachedEntries ∧ m₁.trace = m.trace := by
      cases ht : m.blockTables.get? seqId with
      | none =>
        rw [ht] at h₁
        obtain ⟨-, rfl⟩ := pure_iff.mp h₁
        refine ⟨fun id => ⟨fun hid => ⟨?_, hid⟩, And.right⟩, rfl, rfl⟩
        rintro rfl
        exact Dict.get?_eq_none.mp ht hid
      | some t =>
        rw [ht] at h₁
        exact releaseTable_owners (removeSeq_same seqId) h₁
    refine ⟨fun id => ?_, entries.trans first.2.1, trace.trans first.2.2⟩
    rw [tables, first.1, List.mem_cons, not_or]
    tauto

/-- The sequences of a retained entry. -/
def entrySeqIds (m : BlockSpaceManager) (key : Int × Int) : List SeqId :=
  ((m.gpuCachedEntries.get? key).map (·.seqIds)).getD []

theorem evictCachedBlocks_owners {key : Int × Int} {u : Unit}
    (h : evictCachedBlocks p key m = some (u, m')) :
    (∀ id, id ∈ m'.blockTables ↔ id ∉ entrySeqIds m key ∧ id ∈ m.blockTables) ∧
      m'.gpuCachedEntries = m.gpuCachedEntries.erase key ∧ m'.trace = m.trace := by
  rw [evictCachedBlocks, read_bind] at h
  cases he : m.gpuCachedEntries.get? key with
  | none =>
    rw [he] at h
    obtain ⟨-, rfl⟩ := pure_iff.mp h
    refine ⟨fun id => by simp [entrySeqIds, he], ?_, rfl⟩
    rw [Dict.erase_of_not_mem (Dict.get?_eq_none.mp he)]
  | some e =>
    rw [he] at h
    obtain ⟨tables, entries, trace⟩ := freeCachedSeqBlocks_owners h
    exact ⟨fun id => by rw [tables]; simp [entrySeqIds, he], entries, trace⟩

theorem retainBlocks_owners {g : SequenceGroup} {key : Int × Int} {u : Unit} (hkey : g.cacheKey = some key)
    (h : retainBlocks p g m = some (u, m')) :
    (∀ id, id ∈ m'.blockTables ↔ id ∉ entrySeqIds m key ∧ id ∈ m.blockTables) ∧
      m'.gpuCachedEntries = (m.gpuCachedEntries.erase key).set key
        (if g.isFinished then ⟨g.requestId, [g.seqId], g.getTokenIds⟩ else ⟨g.requestId, [], []⟩) ∧
      m'.trace = m.trace := by
  simp only [retainBlocks, hkey, bind_iff, update_iff] at h
  obtain ⟨_, m₁, h₁, rfl⟩ := h
  obtain ⟨tables, entries, trace⟩ := evictCachedBlocks_owners h₁
  exact ⟨tables, by rw [entries], trace⟩

/-- Whole blocks are registered, and no more tokens than were asked for. -/
theorem registerSyntheticCachedTokens_le {g : SequenceGroup} {cachedTokens n : Int}
    (h : registerSyntheticCachedTokens p g cachedTokens m = some (n, m')) :
    n ≤ max cachedTokens 0 ∧ (p.blockSize : Int) ∣ n := by
  rw [registerSyntheticCachedTokens, read_bind] at h
  have zero : (0 : Int) ≤ max cachedTokens 0 ∧ (p.blockSize : Int) ∣ 0 := ⟨by omega, Int.dvd_zero _⟩
  cases ht : m.blockTables.get? g.seqId with
  | none =>
    rw [ht] at h
    rw [(pure_iff.mp h).1]
    exact zero
  | some t =>
    simp only [ht] at h
    split at h
    · rw [update_bind] at h
      rw [(pure_iff.mp h).1]
      exact zero
    · rw [update_bind] at h
      obtain ⟨_, m₁, -, h⟩ := bind_iff.mp h
      rw [(pure_iff.mp h).1]
      refine ⟨?_, Int.natCast_dvd_natCast.mpr (Nat.dvd_mul_left _ _)⟩
      have hlen := List.length_take_le
        ((min (max cachedTokens 0) g.getPromptLen).toNat / p.blockSize * p.blockSize / p.blockSize) t.blockIds
      have hmul := Nat.mul_le_mul_right p.blockSize hlen
      have hdiv := Nat.div_mul_le_self
        ((min (max cachedTokens 0) g.getPromptLen).toNat / p.blockSize * p.blockSize) p.blockSize
      have hdiv' := Nat.div_mul_le_self (min (max cachedTokens 0) g.getPromptLen).toNat p.blockSize
      omega

theorem appendSlots_owners {g : SequenceGroup} {n : Nat} {cows : List (BlockId × BlockId)}
    (h : appendSlots p g n m = some (cows, m')) : SameOwners m m' := by
  simp only [appendSlots, getTable, setTable, bind_assoc, bind_iff, read_bind, ofOption_bind, update_bind,
    Option.bind_eq_some_iff] at h
  obtain ⟨t, ht, t', m₁, h₁, h₂⟩ := h
  have s₁ := onBlocks_owners _ _ _ _ h₁
  have s₂ := onBlocks_owners _ _ _ _ h₂
  refine ⟨fun id => ?_, s₂.entries.trans s₁.entries, s₂.trace.trans s₁.trace⟩
  rw [s₂.tables, Dict.mem_set, s₁.tables]
  refine ⟨?_, Or.inr⟩
  rintro (rfl | hid)
  · exact Dict.mem_of_get? ht
  · exact hid

/-- The state after `_swap_out_group`: the tables and entries are there, and the copies it returns are
the ones it asked for. -/
structure SwapsOut (pairs : List SwapPair) (m m' : BlockSpaceManager) : Prop where
  tables : ∀ id, id ∈ m'.blockTables ↔ id ∈ m.blockTables
  entries : m'.gpuCachedEntries = m.gpuCachedEntries
  swapIns : m'.trace.swapIns = m.trace.swapIns
  swapOuts : m'.trace.swapOuts = m.trace.swapOuts ++ pairs
  unused : m'.trace.unused = m.trace.unused
  admissions : m'.trace.admissions = m.trace.admissions

theorem SwapsOut.of_same (h : SameOwners m m') : SwapsOut [] m m' :=
  ⟨h.tables, h.entries, by rw [h.trace], by rw [h.trace, List.append_nil], by rw [h.trace], by rw [h.trace]⟩

theorem collectBlocksForSwap_table {g : SequenceGroup} {status : Option SequenceStatus}
    {t : BlockTable} {blocks : List BlockRef}
    (h : collectBlocksForSwap p g status m = some (some (t, blocks), m')) :
    m.blockTables.get? g.seqId = some t := by
  rw [collectBlocksForSwap, read_bind] at h
  split at h
  · simp [pure_iff] at h
  cases ht : m.blockTables.get? g.seqId with
  | none => simp [ht, pure_iff] at h
  | some t' =>
    simp only [ht, bind_iff, pure_iff] at h
    obtain ⟨sel, _, -, h, -⟩ := h
    split at h <;> cases h
    rfl

theorem swapOutGroup_owners {g : SequenceGroup} {status : Option SequenceStatus} {now : Int}
    {o : Option (List SwapPair)} (h : swapOutGroup p g status now m = some (o, m')) :
    SwapsOut (o.getD []) m m' ∧ (o.isSome → g.seqId ∈ m.blockTables) := by
  obtain ⟨x, m₁, h₁, h⟩ := bind_iff.mp h
  have s₁ := collectBlocksForSwap_owners p g status _ _ _ h₁
  cases x with
  | none =>
    obtain ⟨rfl, rfl⟩ := pure_iff.mp h
    exact ⟨.of_same s₁, fun h => by cases h⟩
  | some x =>
    obtain ⟨t, blocks⟩ := x
    have ht := Dict.mem_of_get? (collectBlocksForSwap_table h₁)
    obtain ⟨n, m₂, h₂, h⟩ := bind_iff.mp h
    rw [read_bind] at h
    have s₂ := IsTrans.trans _ _ _ s₁ (onBlocks_owners _ _ _ _ h₂)
    split at h
    · obtain ⟨rfl, rfl⟩ := pure_iff.mp h
      exact ⟨.of_same s₂, fun h => by cases h⟩
    · simp only [bind_iff, setTable, update_iff, pure_iff] at h
      obtain ⟨_, m₃, h₃, _, m₄, h₄, t', m₅, h₅, _, _, rfl, mapping, m₇, h₇, _, _, rfl, rfl, rfl⟩ := h
      have s₅ := IsTrans.trans _ _ _ (IsTrans.trans _ _ _ (IsTrans.trans _ _ _ s₂
        (onBlocks_owners _ _ _ _ h₃)) (onBlocks_owners _ _ _ _ h₄)) (onBlocks_owners _ _ _ _ h₅)
      have s₇ := (physicalMapping_same _ _ _ _ _ _ h₇).owners
      refine ⟨⟨fun id => ?_, ?_, ?_, ?_, ?_, ?_⟩, fun _ => ht⟩
      · rw [s₇.tables, Dict.mem_set, s₅.tables]
        refine ⟨?_, Or.inr⟩
        rintro (rfl | hid)
        · exact ht
        · exact hid
      · rw [s₇.entries, s₅.entries]
      · simp only [s₇.trace, s₅.trace]
      · simp only [s₇.trace, s₅.trace, Option.getD_some]
      · simp only [s₇.trace, s₅.trace]
      · simp only [s₇.trace, s₅.trace]

theorem swapOut_owners {g : SequenceGroup} {now : Int} {pairs : List SwapPair}
    (h : swapOut p g now m = some (pairs, m')) : SwapsOut pairs m m' := by
  obtain ⟨o, m₁, h₁, h⟩ := bind_iff.mp h
  have s₁ := (swapOutGroup_owners h₁).1
  cases o <;> obtain ⟨rfl, rfl⟩ := pure_iff.mp h <;> exact s₁

end CoreFlow.ManagerM
