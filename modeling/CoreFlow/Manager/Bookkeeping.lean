import CoreFlow.Manager.Owners

/-!
# The keys of the per-sequence trackers

Beside the block tables four maps are keyed by sequences: the last accesses, the block hashes, the
counts of computed tokens and the synthetic counts. A method leaves their keys alone, records one
sequence, or drops one. `_free_cached_seq_blocks` is the one that drops a table and not the synthetic
count, so that what is said of the synthetic counts is guarded: as long as `ok`, no entry that holds
a counted sequence is freed.
-/

namespace CoreFlow

/-- The keys of the trackers follow the tables. `extra` may have hashes and no table, and no entry under
one of `keys` holds a sequence with a synthetic count. -/
structure Trackers (ok : Prop) (keys : Int × Int → Prop) (extra : Option SeqId) (m : BlockSpaceManager) :
    Prop where
  access : ∀ id, id ∈ m.seqLastAccess ↔ id ∈ m.blockTables
  counts : ∀ id d, (id, d) ∈ m.computedBlocksTracker.seqIdToNumTokensComputed →
    id ∈ m.computedBlocksTracker.seqIdToBlocksHashes
  hashes : ∀ id ∈ m.computedBlocksTracker.seqIdToBlocksHashes, id ∈ m.blockTables ∨ extra = some id
  synthetic : ok → ∀ id ∈ m.syntheticCachedTokens, id ∈ m.blockTables
  unclaimed : ok → ∀ key, keys key → ∀ id ∈ ManagerM.entrySeqIds m key, id ∉ m.syntheticCachedTokens

/-- No key of a tracker changes. -/
structure SameTrackers (m m' : BlockSpaceManager) : Prop where
  tables : ∀ id, id ∈ m'.blockTables ↔ id ∈ m.blockTables
  access : ∀ id, id ∈ m'.seqLastAccess ↔ id ∈ m.seqLastAccess
  tracker : m'.computedBlocksTracker = m.computedBlocksTracker
  synthetic : m'.syntheticCachedTokens = m.syntheticCachedTokens
  entries : m'.gpuCachedEntries = m.gpuCachedEntries

instance : IsPreorder BlockSpaceManager SameTrackers where
  refl _ := ⟨fun _ => Iff.rfl, fun _ => Iff.rfl, rfl, rfl, rfl⟩
  trans _ _ _ h h' := ⟨fun id => (h'.tables id).trans (h.tables id), fun id => (h'.access id).trans (h.access id),
    h'.3.trans h.3, h'.4.trans h.4, h'.5.trans h.5⟩

/-- Hashes and counts are recorded for one sequence only. -/
structure KeysFor (seqId : SeqId) (m m' : BlockSpaceManager) : Prop where
  tables : ∀ id, id ∈ m'.blockTables ↔ id ∈ m.blockTables
  access : ∀ id, id ∈ m'.seqLastAccess ↔ id ∈ m.seqLastAccess
  synthetic : m'.syntheticCachedTokens = m.syntheticCachedTokens
  entries : m'.gpuCachedEntries = m.gpuCachedEntries
  kept : ∀ id ∈ m.computedBlocksTracker.seqIdToBlocksHashes, id ∈ m'.computedBlocksTracker.seqIdToBlocksHashes
  hashes : ∀ id ∈ m'.computedBlocksTracker.seqIdToBlocksHashes,
    id = seqId ∨ id ∈ m.computedBlocksTracker.seqIdToBlocksHashes
  counts : ∀ x ∈ m'.computedBlocksTracker.seqIdToNumTokensComputed,
    x ∈ m.computedBlocksTracker.seqIdToNumTokensComputed ∨
      x.1 = seqId ∧ seqId ∈ m'.computedBlocksTracker.seqIdToBlocksHashes

instance (seqId : SeqId) : IsPreorder BlockSpaceManager (KeysFor seqId) where
  refl _ := ⟨fun _ => Iff.rfl, fun _ => Iff.rfl, rfl, rfl, fun _ h => h, fun _ h => .inr h, fun _ h => .inl h⟩
  trans _ _ _ h h' := by
    refine ⟨fun id => (h'.tables id).trans (h.tables id), fun id => (h'.access id).trans (h.access id),
      h'.3.trans h.3, h'.4.trans h.4, fun id hid => h'.kept id (h.kept id hid), fun id hid => ?_,
      fun x hx => ?_⟩
    · rcases h'.hashes id hid with rfl | hid
      · exact .inl rfl
      · exact h.hashes id hid
    · rcases h'.counts x hx with hx | hx
      · exact (h.counts x hx).imp_right fun hx => ⟨hx.1, h'.kept _ hx.2⟩
      · exact .inr hx

theorem SameTrackers.keysFor {m m' : BlockSpaceManager} (h : SameTrackers m m') (seqId : SeqId) :
    KeysFor seqId m m' := by
  refine ⟨h.tables, h.access, h.synthetic, h.entries, ?_, ?_, ?_⟩
  · rw [h.tracker]
    exact fun _ hid => hid
  · rw [h.tracker]
    exact fun _ hid => .inr hid
  · rw [h.tracker]
    exact fun _ hx => .inl hx

/-- The hashes and counts of one sequence go. -/
structure Drops (seqId : SeqId) (m m' : BlockSpaceManager) : Prop where
  tables : m'.blockTables = m.blockTables
  access : m'.seqLastAccess = m.seqLastAccess
  entries : m'.gpuCachedEntries = m.gpuCachedEntries
  synthetic : ∀ id ∈ m'.syntheticCachedTokens, id ∈ m.syntheticCachedTokens
  hashes : ∀ id, id ∈ m'.computedBlocksTracker.seqIdToBlocksHashes ↔
    id ≠ seqId ∧ id ∈ m.computedBlocksTracker.seqIdToBlocksHashes
  counts : ∀ id d, (id, d) ∈ m'.computedBlocksTracker.seqIdToNumTokensComputed →
    (id, d) ∈ m.computedBlocksTracker.seqIdToNumTokensComputed ∧
      (id = seqId → seqId ∉ m.computedBlocksTracker.seqIdToBlocksHashes)

/-- Synthetic counts only go. -/
def FewerCounts (m m' : BlockSpaceManager) : Prop :=
  ∀ id ∈ m'.syntheticCachedTokens, id ∈ m.syntheticCachedTokens

instance : IsPreorder BlockSpaceManager FewerCounts where
  refl _ _ h := h
  trans _ _ _ h h' id hid := h id (h' id hid)

theorem SameTrackers.fewer {m m' : BlockSpaceManager} (h : SameTrackers m m') : FewerCounts m m' := by
  unfold FewerCounts
  rw [h.synthetic]
  exact fun _ hid => hid

/-- A sequence with a synthetic count keeps its table. -/
def KeepsCounted (m m' : BlockSpaceManager) : Prop :=
  ∀ id ∈ m'.syntheticCachedTokens, id ∈ m.syntheticCachedTokens ∧ (id ∈ m.blockTables → id ∈ m'.blockTables)

instance : IsPreorder BlockSpaceManager KeepsCounted where
  refl _ _ h := ⟨h, id⟩
  trans _ _ _ h h' id hid := ⟨(h id (h' id hid).1).1, fun ht => (h' id hid).2 ((h id (h' id hid).1).2 ht)⟩

theorem SameTrackers.keepsCounted {m m' : BlockSpaceManager} (h : SameTrackers m m') : KeepsCounted m m' :=
  fun id hid => ⟨h.fewer id hid, (h.tables id).mpr⟩

theorem KeysFor.keepsCounted {m m' : BlockSpaceManager} {seqId : SeqId} (h : KeysFor seqId m m') :
    KeepsCounted m m' := by
  intro id hid
  rw [h.synthetic] at hid
  exact ⟨hid, (h.tables id).mpr⟩

theorem Drops.keepsCounted {m m' : BlockSpaceManager} {seqId : SeqId} (h : Drops seqId m m') :
    KeepsCounted m m' := by
  intro id hid
  rw [h.tables]
  exact ⟨h.synthetic id hid, fun ht => ht⟩

namespace Trackers
variable {ok : Prop} {keys : Int × Int → Prop} {extra : Option SeqId} {m m' : BlockSpaceManager}
  {seqId : SeqId}

theorem track (h : Trackers ok keys extra m) (t : KeysFor seqId m m')
    (hid : seqId ∈ m.blockTables ∨ extra = some seqId) : Trackers ok keys extra m' := by
  refine ⟨fun id => ?_, fun id d hd => ?_, fun id hd => ?_, fun hok => ?_, fun hok => ?_⟩
  · rw [t.access, t.tables]
    exact h.access id
  · rcases t.counts _ hd with hd | ⟨rfl, hd⟩
    · exact t.kept id (h.counts id d hd)
    · exact hd
  · rw [t.tables]
    rcases t.hashes id hd with rfl | hd
    · exact hid
    · exact h.hashes id hd
  · rw [t.synthetic]
    intro id hd
    rw [t.tables]
    exact h.synthetic hok id hd
  · unfold ManagerM.entrySeqIds
    rw [t.synthetic, t.entries]
    exact h.unclaimed hok

theorem same (h : Trackers ok keys extra m) (t : SameTrackers m m') : Trackers ok keys extra m' := by
  refine ⟨fun id => ?_, ?_, fun id => ?_, fun hok id => ?_, fun hok => ?_⟩
  · rw [t.access, t.tables]
    exact h.access id
  · rw [t.tracker]
    exact h.counts
  · rw [t.tracker, t.tables]
    exact h.hashes id
  · rw [t.synthetic, t.tables]
    exact h.synthetic hok id
  · unfold ManagerM.entrySeqIds
    rw [t.synthetic, t.entries]
    exact h.unclaimed hok

/-- Hashes may now be recorded for a sequence without a table. -/
theorem look (h : Trackers ok keys none m) (seqId : SeqId) : Trackers ok keys (some seqId) m :=
  ⟨h.access, h.counts, fun id hid => .inl ((h.hashes id hid).resolve_right (Option.some_ne_none id).symm),
    h.synthetic, h.unclaimed⟩

theorem fewerKeys (h : Trackers ok keys extra m) {keys' : Int × Int → Prop}
    (hk : ok → ∀ key, keys' key → keys key) : Trackers ok keys' extra m :=
  ⟨h.access, h.counts, h.hashes, h.synthetic, fun hok key hkey => h.unclaimed hok key (hk hok key hkey)⟩

theorem counts_of_drops (h : Trackers ok keys extra m) (d : Drops seqId m m') (id : SeqId) (e : Device)
    (he : (id, e) ∈ m'.computedBlocksTracker.seqIdToNumTokensComputed) :
    id ∈ m'.computedBlocksTracker.seqIdToBlocksHashes := by
  obtain ⟨he, hne⟩ := d.counts id e he
  have hid := h.counts id e he
  refine (d.hashes id).mpr ⟨?_, hid⟩
  rintro rfl
  exact hne rfl hid

theorem unclaimed_of_fewer (h : Trackers ok keys extra m) (hok : ok)
    (entries : ∀ key, keys key → ∀ id ∈ ManagerM.entrySeqIds m' key, id ∈ ManagerM.entrySeqIds m key)
    (synthetic : FewerCounts m m') :
    ∀ key, keys key → ∀ id ∈ ManagerM.entrySeqIds m' key, id ∉ m'.syntheticCachedTokens := by
  intro key hkey id hid hd
  exact h.unclaimed hok key hkey id (entries key hkey id hid) (synthetic id hd)

/-- The hashes of the sequence that was looked at go. -/
theorem drop (h : Trackers ok keys (some seqId) m) (d : Drops seqId m m') : Trackers ok keys none m' := by
  refine ⟨fun id => ?_, h.counts_of_drops d, fun id hid => ?_, fun hok id hid => ?_, fun hok => ?_⟩
  · rw [d.access, d.tables]
    exact h.access id
  · obtain ⟨hne, hid⟩ := (d.hashes id).mp hid
    rw [d.tables]
    refine .inl ((h.hashes id hid).resolve_right fun hx => hne ?_)
    exact (Option.some.inj hx).symm
  · rw [d.tables]
    exact h.synthetic hok id (d.synthetic id hid)
  · refine h.unclaimed_of_fewer hok (fun key _ id hid => ?_) d.synthetic
    unfold ManagerM.entrySeqIds at hid ⊢
    rwa [d.entries] at hid

end Trackers

namespace ManagerM
open Prog
variable (p : ManagerParams)

/-! ## Methods that leave the keys alone -/

theorem onBlocks_trackers {α : Type} (x : BlockM α) : Within SameTrackers (onBlocks x) :=
  .zoom_any fun _ _ => ⟨fun _ => Iff.rfl, fun _ => Iff.rfl, rfl, rfl, rfl⟩

theorem physicalMapping_trackers (src dst : Device) (mapping : Dict BlockId BlockId) :
    Within SameTrackers (physicalMapping src dst mapping) :=
  .bind .read fun _ => .mapM (fun _ => .bind (.ofOption _) fun _ => .bind (.ofOption _) fun _ => .pure _) _

theorem leaveUnused_trackers (pairs : List SwapPair) : Within SameTrackers (leaveUnused pairs) :=
  .update fun _ => ⟨fun _ => Iff.rfl, fun _ => Iff.rfl, rfl, rfl, rfl⟩

theorem accessAllBlocksInSeq_trackers (seqId : SeqId) (now : Int) :
    Within SameTrackers (accessAllBlocksInSeq seqId now) := by
  intro m u m' h
  simp only [accessAllBlocksInSeq, read_bind, require_bind, Option.ite_none_right_eq_some, update_iff] at h
  obtain ⟨hin, rfl⟩ := h
  refine ⟨fun _ => Iff.rfl, fun id => ?_, rfl, rfl, rfl⟩
  rw [Dict.mem_set]
  refine ⟨?_, Or.inr⟩
  rintro (rfl | hid)
  · exact hin
  · exact hid

/-- The table of a sequence that has one is replaced. -/
theorem setTable_trackers {seqId : SeqId} {t : BlockTable} {m m' : BlockSpaceManager} {u : Unit}
    (hid : seqId ∈ m.blockTables) (h : setTable seqId t m = some (u, m')) : SameTrackers m m' := by
  rw [setTable, update_iff] at h
  subst h
  refine ⟨fun id => ?_, fun _ => Iff.rfl, rfl, rfl, rfl⟩
  rw [Dict.mem_set]
  refine ⟨?_, Or.inr⟩
  rintro (rfl | hd)
  · exact hid
  · exact hd

theorem appendSlots_trackers (g : SequenceGroup) (n : Nat) : Within SameTrackers (appendSlots p g n) := by
  intro m cows m' h
  simp only [appendSlots, getTable, bind_assoc, bind_iff, read_bind, ofOption_bind,
    Option.bind_eq_some_iff] at h
  obtain ⟨t, ht, t', m₁, h₁, _, m₂, h₂, h₃⟩ := h
  have q₁ := onBlocks_trackers _ _ _ _ h₁
  have q₂ := setTable_trackers ((q₁.tables g.seqId).mpr (Dict.mem_of_get? ht)) h₂
  exact IsTrans.trans _ _ _ q₁ (IsTrans.trans _ _ _ q₂ (onBlocks_trackers _ _ _ _ h₃))

theorem collectBlocksForSwap_trackers (g : SequenceGroup) (status : Option SequenceStatus) :
    Within SameTrackers (collectBlocksForSwap p g status) := by
  refine .bind .read fun m => .ite (.pure _) ?_
  split
  · exact .pure _
  · exact .bind (.mapM (fun _ => .bind (onBlocks_trackers _) fun _ => .pure _) _) fun _ => .pure _

theorem canSwapOut_trackers (g : SequenceGroup) : Within SameTrackers (canSwapOut p g) := by
  refine .bind (collectBlocksForSwap_trackers p g _) fun o => ?_
  cases o with
  | none => exact .pure _
  | some x => exact .bind (onBlocks_trackers _) fun _ => .bind .read fun _ => .pure _

theorem swapOutGroup_trackers (g : SequenceGroup) (status : Option SequenceStatus) (now : Int) :
    Within SameTrackers (swapOutGroup p g status now) := by
  intro m o m' h
  obtain ⟨x, m₁, h₁, h⟩ := bind_iff.mp h
  have q₁ := collectBlocksForSwap_trackers p g status _ _ _ h₁
  cases x with
  | none =>
    obtain ⟨-, rfl⟩ := pure_iff.mp h
    exact q₁
  | some x =>
    obtain ⟨t, blocks⟩ := x
    have ht := Dict.mem_of_get? (collectBlocksForSwap_table h₁)
    obtain ⟨n, m₂, h₂, h⟩ := bind_iff.mp h
    rw [read_bind] at h
    have q₂ := IsTrans.trans _ _ _ q₁ (onBlocks_trackers _ _ _ _ h₂)
    split at h
    · obtain ⟨-, rfl⟩ := pure_iff.mp h
      exact q₂
    · obtain ⟨_, m₃, h₃, h⟩ := bind_iff.mp h
      obtain ⟨_, m₄, h₄, h⟩ := bind_iff.mp h
      obtain ⟨t', m₅, h₅, h⟩ := bind_iff.mp h
      have q₅ := IsTrans.trans _ _ _ (IsTrans.trans _ _ _ (IsTrans.trans _ _ _ q₂
        (onBlocks_trackers _ _ _ _ h₃)) (onBlocks_trackers _ _ _ _ h₄)) (onBlocks_trackers _ _ _ _ h₅)
      obtain ⟨_, m₆, h₆, h⟩ := bind_iff.mp h
      have q₆ := setTable_trackers ((q₅.tables g.seqId).mpr ht) h₆
      obtain ⟨mapping, m₇, h₇, h⟩ := bind_iff.mp h
      have q₇ := physicalMapping_trackers _ _ _ _ _ _ h₇
      rw [update_bind] at h
      obtain ⟨-, rfl⟩ := pure_iff.mp h
      exact IsTrans.trans _ _ _ q₅ (IsTrans.trans _ _ _ q₆ ⟨q₇.tables, q₇.access, q₇.tracker, q₇.synthetic,
        q₇.entries⟩)

theorem swapOut_trackers (g : SequenceGroup) (now : Int) : Within SameTrackers (swapOut p g now) := by
  refine .bind (swapOutGroup_trackers p g _ now) fun o => ?_
  cases o <;> exact .pure _

theorem markBlocksAsComputed_trackers (g : SequenceGroup) (n : Int) :
    Within SameTrackers (markBlocksAsComputed p g n) := by
  refine .bind .read fun m => .when ?_
  split
  · exact .pure _
  · exact .when (onBlocks_trackers _)

theorem registerMigratedCpuCache_trackers (tokenIds : List TokenId) (now : Int) :
    Within SameTrackers (registerMigratedCpuCache p tokenIds now) := by
  refine .ite (.pure _) (.bind (onBlocks_trackers _) fun t => .bind ?_ fun ids => ?_)
  · exact .mapM (fun _ => .bind (onBlocks_trackers _) fun _ => .pure _) _
  · refine .bind (.when ?_) fun _ => .bind (onBlocks_trackers _) fun _ => .pure _
    exact .bind (onBlocks_trackers _) fun _ => onBlocks_trackers _

/-! ## Methods that record a sequence -/

theorem updateSeqHashes_keysFor (g : SequenceGroup) {m m' : BlockSpaceManager} {u : Unit}
    (h : updateSeqHashes p g m = some (u, m')) :
    KeysFor g.seqId m m' ∧ g.seqId ∈ m'.computedBlocksTracker.seqIdToBlocksHashes := by
  simp only [updateSeqHashes, read_bind, require_bind, Option.ite_none_right_eq_some, update_iff] at h
  obtain ⟨-, rfl⟩ := h
  refine ⟨⟨fun _ => Iff.rfl, fun _ => Iff.rfl, rfl, rfl, fun id hid => ?_, fun id hid => ?_,
    fun x hx => .inl hx⟩, ?_⟩
  · exact Dict.mem_set.mpr (.inr hid)
  · exact Dict.mem_set.mp hid
  · exact Dict.mem_set.mpr (.inl rfl)

theorem setNumTokensComputed_keysFor {seqId : SeqId} {d : Device} {n : Nat} {m m' : BlockSpaceManager}
    {u : Unit} (hid : seqId ∈ m.computedBlocksTracker.seqIdToBlocksHashes)
    (h : setNumTokensComputed seqId d n m = some (u, m')) : KeysFor seqId m m' := by
  rw [setNumTokensComputed, update_iff] at h
  subst h
  refine ⟨fun _ => Iff.rfl, fun _ => Iff.rfl, rfl, rfl, fun _ hd => hd, fun _ hd => .inr hd, fun x hx => ?_⟩
  rcases Dict.mem_set.mp hx with rfl | hx
  · exact .inr ⟨rfl, hid⟩
  · exact .inl hx

theorem getNumCachedTokens_keysFor (g : SequenceGroup) (d : Device) :
    Within (KeysFor g.seqId) (getNumCachedTokens p g d) := by
  intro m n m' h
  obtain ⟨_, m₁, h₁, h⟩ := bind_iff.mp h
  obtain ⟨t₁, hid⟩ := updateSeqHashes_keysFor p g h₁
  rw [read_bind] at h
  have compute (o : Option (List PrefixHash))
      (hc : (do
        let blockHashes ← ofOption o
        let n := ((m₁.blockAllocator.on d).findCachedBlocksPrefix blockHashes).length * p.blockSize
        setNumTokensComputed g.seqId d n
        pure n) m₁ = some (n, m')) : KeysFor g.seqId m m' := by
    rw [ofOption_bind, Option.bind_eq_some_iff] at hc
    obtain ⟨hashes, -, hc⟩ := hc
    obtain ⟨_, m₂, h₂, hc⟩ := bind_iff.mp hc
    obtain ⟨-, rfl⟩ := pure_iff.mp hc
    exact IsTrans.trans _ _ _ t₁ (setNumTokensComputed_keysFor hid h₂)
  cases hn : m₁.computedBlocksTracker.seqIdToNumTokensComputed.get? (g.seqId, d) with
  | none =>
    simp only [hn] at h
    exact compute _ h
  | some k =>
    simp only [hn] at h
    split at h
    · obtain ⟨-, rfl⟩ := pure_iff.mp h
      exact t₁
    · exact compute _ h

theorem updateNumCachedTokens_keysFor (g : SequenceGroup) (n : Nat) (d : Device) :
    Within (KeysFor g.seqId) (updateNumCachedTokens p g n d) := by
  intro m u m' h
  obtain ⟨_, m₁, h₁, h⟩ := bind_iff.mp h
  obtain ⟨t₁, hid⟩ := updateSeqHashes_keysFor p g h₁
  exact IsTrans.trans _ _ _ t₁ (setNumTokensComputed_keysFor hid h)

theorem onBlocks_keysFor {α : Type} (seqId : SeqId) (x : BlockM α) : Within (KeysFor seqId) (onBlocks x) :=
  (onBlocks_trackers x).mono fun _ _ h => h.keysFor seqId

theorem swapInCpuPrefixIfNeeded_keysFor (g : SequenceGroup) :
    Within (KeysFor g.seqId) (swapInCpuPrefixIfNeeded p g) := by
  refine .bind (getNumCachedTokens_keysFor p g .gpu) fun gpu => .bind (getNumCachedTokens_keysFor p g .cpu) fun cpu =>
    .ite (.pure _) ?_
  refine .bind (onBlocks_keysFor _ _) fun t => .bind (onBlocks_keysFor _ _) fun _ =>
    .bind (onBlocks_keysFor _ _) fun ids => .bind (.when (onBlocks_keysFor _ _)) fun _ => ?_
  exact .bind (updateNumCachedTokens_keysFor p g cpu .gpu) fun _ => .bind (onBlocks_keysFor _ _) fun _ =>
    (physicalMapping_trackers _ _ _).mono fun _ _ h => h.keysFor _

theorem getCommonComputedBlockIds_keysFor (g : SequenceGroup) :
    Within (KeysFor g.seqId) (getCommonComputedBlockIds p g) :=
  getCommonComputedBlockIds_rule p (getNumCachedTokens_keysFor p g .gpu)

/-! ## Methods that drop or add a table -/

theorem removeSeq_drops (seqId : SeqId) : Within (Drops seqId) (removeSeq seqId) := by
  intro m u m' h
  rw [removeSeq, update_iff] at h
  subst h
  split
  · refine ⟨rfl, rfl, rfl, fun _ hd => hd, fun id => Dict.mem_erase, fun id d hd => ?_⟩
    obtain ⟨hcpu, hd⟩ := Dict.mem_erase.mp hd
    obtain ⟨hgpu, hd⟩ := Dict.mem_erase.mp hd
    refine ⟨hd, ?_⟩
    rintro rfl
    cases d with
    | gpu => exact (hgpu rfl).elim
    | cpu => exact (hcpu rfl).elim
  · rename_i hnot
    refine ⟨rfl, rfl, rfl, fun _ hd => hd, fun id => ?_, fun id d hd => ⟨hd, fun _ => hnot⟩⟩
    refine ⟨fun hid => ⟨?_, hid⟩, And.right⟩
    rintro rfl
    exact hnot hid

theorem removeSeqFromComputedBlocksTracker_drops (seqId : SeqId) :
    Within (Drops seqId) (removeSeqFromComputedBlocksTracker seqId) := by
  intro m u m' h
  obtain ⟨_, m₁, h₁, h⟩ := bind_iff.mp h
  have d := removeSeq_drops seqId _ _ _ h₁
  rw [update_iff] at h
  subst h
  exact ⟨d.tables, d.access, d.entries, fun id hid => d.synthetic id (Dict.mem_erase.mp hid).2, d.hashes, d.counts⟩

theorem removeSeq_synthetic {seqId : SeqId} {m m' : BlockSpaceManager} {u : Unit}
    (h : removeSeq seqId m = some (u, m')) : m'.syntheticCachedTokens = m.syntheticCachedTokens := by
  rw [removeSeq, update_iff] at h
  subst h
  split <;> rfl

theorem onBlocks_fewer {α : Type} (x : BlockM α) : Within FewerCounts (onBlocks x) :=
  .zoom_any fun _ _ _ h => h

/-- The steps that release a table. -/
theorem releaseTable_fewer (seqId : SeqId) (t : BlockTable) {x : ManagerM Unit} (hx : Within (Drops seqId) x) :
    Within FewerCounts (do
      flushLastAccess seqId t.blockIds
      x
      freeTable p seqId t) := by
  have flush : Within FewerCounts (flushLastAccess seqId t.blockIds) := by
    refine .bind .read fun m => .bind (.ofOption _) fun ts => .bind ?_ fun _ => .update fun _ _ h => h
    split
    · exact .pure _
    · exact onBlocks_fewer _
  exact .bind flush fun _ => .bind (hx.mono fun _ _ d => d.synthetic) fun _ =>
    .bind (onBlocks_fewer _) fun _ => .update fun _ _ h => h

theorem free_fewer (seqId : SeqId) : Within FewerCounts (free p seqId) := by
  refine .bind .read fun m => ?_
  split
  · exact .pure _
  · exact releaseTable_fewer p seqId _ (removeSeqFromComputedBlocksTracker_drops seqId)

theorem evictCachedBlocks_fewer (key : Int × Int) : Within FewerCounts (evictCachedBlocks p key) := by
  refine .bind .read fun m => ?_
  split
  · exact .pure _
  · refine .bind (.update fun _ _ h => h) fun _ => .forM (fun id => .bind .read fun m => ?_) _
    split
    · exact .pure _
    · exact releaseTable_fewer p id _ (removeSeq_drops id)

theorem retainBlocks_fewer (g : SequenceGroup) : Within FewerCounts (retainBlocks p g) := by
  unfold retainBlocks
  split
  · exact .pure _
  · exact .bind (evictCachedBlocks_fewer p _) fun _ => .update fun _ _ h => h

section
variable {p : ManagerParams} {ok : Prop} {keys : Int × Int → Prop} {extra : Option SeqId}
  {m m' : BlockSpaceManager} {seqId : SeqId}

theorem flushLastAccess_spec {blockIds : List BlockId} {u : Unit}
    (h : flushLastAccess seqId blockIds m = some (u, m')) :
    m'.blockTables = m.blockTables ∧ m'.seqLastAccess = m.seqLastAccess.erase seqId ∧
      m'.computedBlocksTracker = m.computedBlocksTracker ∧
      m'.syntheticCachedTokens = m.syntheticCachedTokens ∧ m'.gpuCachedEntries = m.gpuCachedEntries := by
  rw [flushLastAccess, read_bind, ofOption_bind, Option.bind_eq_some_iff] at h
  obtain ⟨ts, -, h⟩ := h
  obtain ⟨_, m₁, h₁, h⟩ := bind_iff.mp h
  rw [update_iff] at h
  subst h
  cases ts with
  | none =>
    obtain ⟨-, rfl⟩ := pure_iff.mp h₁
    exact ⟨rfl, rfl, rfl, rfl, rfl⟩
  | some now =>
    obtain ⟨s, -, rfl⟩ := zoom_iff.mp h₁
    exact ⟨rfl, rfl, rfl, rfl, rfl⟩

/-- A table goes with everything that is recorded for its sequence, and with its synthetic count or
without having one. -/
theorem releaseTable_trackers {t : BlockTable} {x : ManagerM Unit} {u : Unit} (h : Trackers ok keys extra m)
    (hx : Within (Drops seqId) x)
    (hs : ok → ∀ s u s', s.syntheticCachedTokens = m.syntheticCachedTokens → x s = some (u, s') →
      seqId ∉ s'.syntheticCachedTokens)
    (hr : (do
      flushLastAccess seqId t.blockIds
      x
      freeTable p seqId t) m = some (u, m')) : Trackers ok keys extra m' := by
  obtain ⟨_, m₁, h₁, hr⟩ := bind_iff.mp hr
  obtain ⟨_, m₂, h₂, hr⟩ := bind_iff.mp hr
  obtain ⟨_, m₃, h₃, hr⟩ := bind_iff.mp hr
  rw [eraseTable, update_iff] at hr
  obtain ⟨tables₁, access₁, tracker₁, synthetic₁, entries₁⟩ := flushLastAccess_spec h₁
  have d := hx _ _ _ h₂
  obtain ⟨b, -, rfl⟩ := zoom_iff.mp h₃
  subst hr
  have fewer : FewerCounts m m₂ := by
    unfold FewerCounts
    rw [← synthetic₁]
    exact d.synthetic
  refine ⟨fun id => ?_, fun id e he => ?_, fun id hid => ?_, fun hok id hid => ?_, fun hok => ?_⟩
  · show id ∈ m₂.seqLastAccess ↔ id ∈ m₂.blockTables.erase seqId
    rw [d.access, d.tables, access₁, tables₁, Dict.mem_erase, Dict.mem_erase, h.access]
  · obtain ⟨he, hne⟩ := d.counts id e he
    rw [tracker₁] at he hne
    have hid := h.counts id e he
    refine (d.hashes id).mpr ⟨?_, by rw [tracker₁]; exact hid⟩
    rintro rfl
    exact hne rfl hid
  · obtain ⟨hne, hid⟩ := (d.hashes id).mp hid
    rw [tracker₁] at hid
    refine (h.hashes id hid).imp_left fun ht => ?_
    show id ∈ m₂.blockTables.erase seqId
    rw [d.tables, tables₁, Dict.mem_erase]
    exact ⟨hne, ht⟩
  · show id ∈ m₂.blockTables.erase seqId
    rw [d.tables, tables₁, Dict.mem_erase]
    refine ⟨?_, h.synthetic hok id (fewer id hid)⟩
    rintro rfl
    exact hs hok _ _ _ synthetic₁ h₂ hid
  · refine h.unclaimed_of_fewer hok (fun key _ id hid => ?_) fewer
    unfold entrySeqIds at hid ⊢
    rw [← entries₁, ← d.entries]
    exact hid

theorem free_trackers {u : Unit} (h : Trackers ok keys extra m) (hf : free p seqId m = some (u, m')) :
    Trackers ok keys extra m' := by
  rw [free, read_bind] at hf
  cases ht : m.blockTables.get? seqId with
  | none =>
    rw [ht] at hf
    obtain ⟨-, rfl⟩ := pure_iff.mp hf
    exact h
  | some t =>
    rw [ht] at hf
    refine releaseTable_trackers h (removeSeqFromComputedBlocksTracker_drops seqId) ?_ hf
    intro _ s u s' _ hx hid
    obtain ⟨_, s₁, -, hx⟩ := bind_iff.mp hx
    rw [update_iff] at hx
    subst hx
    exact (Dict.mem_erase.mp hid).1 rfl

/-- `free` forgets the synthetic count with the table. -/
theorem free_keepsCounted (seqId : SeqId) : Within KeepsCounted (free p seqId) := by
  intro m u m' hf
  have fewer := free_fewer p seqId _ _ _ hf
  obtain ⟨tables, -⟩ := free_owners hf
  intro id hid
  refine ⟨fewer id hid, fun ht => (tables id).mpr ⟨?_, ht⟩⟩
  rintro rfl
  obtain ⟨t, ht⟩ := Dict.mem_iff.mp ht
  rw [free, read_bind, ht] at hf
  obtain ⟨_, m₁, -, hf⟩ := bind_iff.mp hf
  obtain ⟨_, m₂, h₂, hf⟩ := bind_iff.mp hf
  obtain ⟨_, m₃, h₃, hf⟩ := bind_iff.mp hf
  rw [eraseTable, update_iff] at hf
  subst hf
  obtain ⟨_, m₄, -, h₂⟩ := bind_iff.mp h₂
  rw [update_iff] at h₂
  have gone : id ∈ m₂.syntheticCachedTokens := onBlocks_fewer _ _ _ _ h₃ id hid
  rw [h₂] at gone
  exact (Dict.mem_erase.mp gone).1 rfl

/-- The tables of sequences without synthetic counts go. -/
theorem freeCachedSeqBlocks_trackers {seqIds : List SeqId} {u : Unit} (h : Trackers ok keys extra m)
    (hs : ok → ∀ id ∈ seqIds, id ∉ m.syntheticCachedTokens)
    (hf : freeCachedSeqBlocks p seqIds m = some (u, m')) : Trackers ok keys extra m' := by
  refine (forM_invariant (fun todo t => Trackers ok keys extra t ∧
    (ok → ∀ id ∈ todo, id ∉ t.syntheticCachedTokens)) ?_ hf ⟨h, hs⟩).1
  rintro id todo t t' ⟨i, hn⟩ hstep
  have rest (hok : ok) : ∀ x ∈ todo, x ∉ t.syntheticCachedTokens :=
    fun x hx => hn hok x (List.mem_cons_of_mem _ hx)
  rw [read_bind] at hstep
  cases ht : t.blockTables.get? id with
  | none =>
    rw [ht] at hstep
    obtain ⟨-, rfl⟩ := pure_iff.mp hstep
    exact ⟨i, rest⟩
  | some table =>
    rw [ht] at hstep
    have fewer := releaseTable_fewer p id _ (removeSeq_drops id) _ _ _ hstep
    refine ⟨releaseTable_trackers i (removeSeq_drops id) (fun hok s u s' he hx => ?_) hstep,
      fun hok x hx hx' => rest hok x hx (fewer x hx')⟩
    rw [removeSeq_synthetic hx, he]
    exact hn hok id (List.mem_cons_self ..)

theorem evictCachedBlocks_trackers {key : Int × Int} {u : Unit} (h : Trackers ok keys extra m) (hkey : ok → keys key)
    (he : evictCachedBlocks p key m = some (u, m')) : Trackers ok keys extra m' := by
  rw [evictCachedBlocks, read_bind] at he
  cases hk : m.gpuCachedEntries.get? key with
  | none =>
    rw [hk] at he
    obtain ⟨-, rfl⟩ := pure_iff.mp he
    exact h
  | some e =>
    simp only [hk, update_bind] at he
    have gone : Trackers ok keys extra { m with gpuCachedEntries := m.gpuCachedEntries.erase key } := by
      refine ⟨h.access, h.counts, h.hashes, h.synthetic, fun hok => ?_⟩
      refine h.unclaimed_of_fewer hok (fun k _ id hid => ?_) fun _ hid => hid
      unfold entrySeqIds at hid ⊢
      rw [Dict.get?_erase] at hid
      split at hid
      · cases hid
      · exact hid
    have alone (hok : ok) : ∀ id ∈ e.seqIds, id ∉ m.syntheticCachedTokens := by
      intro id hid
      refine h.unclaimed hok key (hkey hok) id ?_
      unfold entrySeqIds
      rw [hk]
      exact hid
    exact freeCachedSeqBlocks_trackers gone alone he

/-- Retaining a finished group: afterwards its key holds its sequence. -/
theorem retainBlocks_trackers {g : SequenceGroup} {u : Unit} (h : Trackers ok keys extra m)
    (hkey : ok → ∀ key, g.cacheKey = some key → keys key)
    {keys' : Int × Int → Prop}
    (hk : ok → ∀ key, keys' key → keys key ∧ (g.cacheKey = some key → g.seqId ∉ m.syntheticCachedTokens))
    (hr : retainBlocks p g m = some (u, m')) : Trackers ok keys' extra m' := by
  unfold retainBlocks at hr
  cases hc : g.cacheKey with
  | none =>
    rw [hc] at hr
    obtain ⟨-, rfl⟩ := pure_iff.mp hr
    exact h.fewerKeys fun hok key hkey' => (hk hok key hkey').1
  | some key =>
    rw [hc] at hr
    obtain ⟨_, m₁, h₁, hr⟩ := bind_iff.mp hr
    have i := evictCachedBlocks_trackers h (fun hok => hkey hok key hc) h₁
    have fewer := evictCachedBlocks_fewer p key _ _ _ h₁
    rw [update_iff] at hr
    subst hr
    refine ⟨i.access, i.counts, i.hashes, i.synthetic, fun hok k hk' id hid hd => ?_⟩
    obtain ⟨hold, hnew⟩ := hk hok k hk'
    unfold entrySeqIds at hid
    rw [Dict.get?_set] at hid
    split at hid
    · rename_i e
      subst e
      -- the entry holds the sequence of the group, or none
      refine hnew hc (fewer _ ?_)
      split at hid
      · rwa [List.mem_singleton.mp hid] at hd
      · cases hid
    · exact i.unclaimed hok k hold id hid hd

/-- The sequence that was looked at gets its table. -/
theorem allocate_trackers {g : SequenceGroup} {pairs : List SwapPair} (h : Trackers ok keys extra m)
    (hextra : extra = none ∨ extra = some g.seqId) (ha : allocate p g m = some (pairs, m')) :
    Trackers ok keys none m' ∧ m'.syntheticCachedTokens = m.syntheticCachedTokens := by
  simp only [allocate, bind_iff, require_bind, read_bind, update_bind, pure_iff,
    Option.ite_none_right_eq_some] at ha
  obtain ⟨-, hfresh, t, m₁, h₁, _, m₂, h₂, pairs', m₃, h₃, _, m₄, h₄, rfl, rfl⟩ := ha
  have same₁ : SameTrackers m m₁ := by
    unfold allocateSequence at h₁
    split at h₁
    · obtain ⟨-, rfl⟩ := pure_iff.mp h₁
      exact refl _
    · exact onBlocks_trackers _ _ _ _ h₁
  rw [setTable, update_iff] at h₂
  subst h₂
  have t₃ := swapInCpuPrefixIfNeeded_keysFor p g _ _ _ h₃
  simp only [addSeq, read_bind, require_bind, Option.ite_none_right_eq_some, update_iff] at h₄
  obtain ⟨-, rfl⟩ := h₄
  have tables (id : SeqId) : id ∈ m₃.blockTables ↔ id = g.seqId ∨ id ∈ m.blockTables := by
    rw [t₃.tables, Dict.mem_set, same₁.tables]
  have synthetic : m₃.syntheticCachedTokens = m.syntheticCachedTokens := t₃.synthetic.trans same₁.synthetic
  refine ⟨⟨fun id => ?_, fun id d hd => ?_, fun id hid => ?_, fun hok id hid => ?_, fun hok => ?_⟩, synthetic⟩
  · rw [tables, Dict.mem_set, t₃.access, same₁.access, h.access]
  · have kept (hid : id ∈ m.computedBlocksTracker.seqIdToBlocksHashes) :
        id ∈ m₃.computedBlocksTracker.seqIdToBlocksHashes := by
      rw [← same₁.tracker] at hid
      exact t₃.kept id hid
    rcases t₃.counts (id, d) hd with hold | ⟨he, hnew⟩
    · refine kept (h.counts id d ?_)
      rw [← same₁.tracker]
      exact hold
    · obtain rfl : id = g.seqId := he
      exact hnew
  · refine .inl ((tables id).mpr ?_)
    rcases t₃.hashes id hid with rfl | hid
    · exact .inl rfl
    rw [same₁.tracker] at hid
    rcases h.hashes id hid with ht | he
    · exact .inr ht
    · rcases hextra with hx | hx
      · rw [hx] at he
        cases he
      · rw [hx] at he
        exact .inl (Option.some.inj he).symm
  · rw [synthetic] at hid
    exact (tables id).mpr (.inr (h.synthetic hok id hid))
  · refine h.unclaimed_of_fewer hok (fun key _ id hid => ?_) fun id hid => ?_
    · unfold entrySeqIds at hid ⊢
      rw [← same₁.entries]
      rw [t₃.entries] at hid
      exact hid
    · rw [← synthetic]
      exact hid

theorem registerSyntheticCachedTokens_counts {g : SequenceGroup} {cachedTokens n : Int}
    (hr : registerSyntheticCachedTokens p g cachedTokens m = some (n, m')) (id : SeqId)
    (hid : id ∈ m'.syntheticCachedTokens) : id = g.seqId ∨ id ∈ m.syntheticCachedTokens := by
  rw [registerSyntheticCachedTokens, read_bind] at hr
  cases ht : m.blockTables.get? g.seqId with
  | none =>
    rw [ht] at hr
    rw [(pure_iff.mp hr).2] at hid
    exact .inr hid
  | some t =>
    simp only [ht] at hr
    split at hr
    · rw [update_bind] at hr
      rw [(pure_iff.mp hr).2] at hid
      exact .inr (Dict.mem_erase.mp hid).2
    · rw [update_bind] at hr
      obtain ⟨_, m₁, h₁, hr⟩ := bind_iff.mp hr
      rw [(pure_iff.mp hr).2] at hid
      exact Dict.mem_set.mp (onBlocks_fewer _ _ _ _ h₁ id hid)

/-- A synthetic count is registered for a sequence that no entry holds. -/
theorem registerSyntheticCachedTokens_trackers {g : SequenceGroup} {cachedTokens n : Int}
    (h : Trackers ok keys extra m) (hfree : ∀ key, g.seqId ∉ entrySeqIds m key)
    (hr : registerSyntheticCachedTokens p g cachedTokens m = some (n, m')) : Trackers ok keys extra m' := by
  rw [registerSyntheticCachedTokens, read_bind] at hr
  cases ht : m.blockTables.get? g.seqId with
  | none =>
    rw [ht] at hr
    obtain ⟨-, rfl⟩ := pure_iff.mp hr
    exact h
  | some t =>
    simp only [ht] at hr
    split at hr
    · rw [update_bind] at hr
      obtain ⟨-, rfl⟩ := pure_iff.mp hr
      refine ⟨h.access, h.counts, h.hashes, fun hok id hid => ?_, fun hok => ?_⟩
      · exact h.synthetic hok id (Dict.mem_erase.mp hid).2
      · exact h.unclaimed_of_fewer hok (fun _ _ _ hid => hid) fun _ hid => (Dict.mem_erase.mp hid).2
    · rw [update_bind] at hr
      obtain ⟨_, m₁, h₁, hr⟩ := bind_iff.mp hr
      obtain ⟨-, rfl⟩ := pure_iff.mp hr
      refine Trackers.same ?_ (onBlocks_trackers _ _ _ _ h₁)
      refine ⟨h.access, h.counts, h.hashes, fun hok id hid => ?_, fun hok key hkey id hid hd => ?_⟩
      · rcases Dict.mem_set.mp hid with rfl | hid
        · exact Dict.mem_of_get? ht
        · exact h.synthetic hok id hid
      · rcases Dict.mem_set.mp hd with rfl | hd
        · exact hfree key hid
        · exact h.unclaimed hok key hkey id hid hd

end

end ManagerM

theorem BlockSpaceManager.init_trackers (p : ManagerParams) (ok : Prop) (keys : Int × Int → Prop) :
    Trackers ok keys none (BlockSpaceManager.init p) :=
  ⟨fun _ => Iff.rfl, fun id d hd => (Dict.not_mem_empty (id, d) hd).elim,
    fun id hid => (Dict.not_mem_empty id hid).elim, fun _ id hid => (Dict.not_mem_empty id hid).elim,
    fun _ key _ id hid => by cases hid⟩

end CoreFlow
