import CoreFlow.Manager.Tables

/-!
# Every method keeps the tables accounted for

`Accounted` says that the references on the books are the blocks of the tables and of the objects that swaps
have dropped. `Upkeep` relates the states before and after a method: the ghost has grown, and what was
accounted for still is, as long as no object has been handed out twice.
-/

namespace CoreFlow
open Prog CpuGpuBlockAllocator

namespace BlockSpaceManager

structure Held (p : BlockParams) (m : BlockSpaceManager) (tabs : List Owner) (lost : List Ref) : Prop where
  entries : (tabs.map fun x => (x.1, x.2.1)).Perm m.blockTables.entries
  tables : Tables p m.blockAllocator tabs lost
  lost : m.trace.dropped = [] → lost = []

def Accounted (p : BlockParams) (m : BlockSpaceManager) : Prop := ∃ tabs lost, Held p m tabs lost

structure Upkeep (p : BlockParams) (m m' : BlockSpaceManager) : Prop where
  grows : Grows m.blockAllocator m'.blockAllocator
  accounted : Accounted p m → m'.blockAllocator.Harmless → Accounted p m'

instance (p : BlockParams) : IsPreorder BlockSpaceManager (Upkeep p) where
  refl m := ⟨refl m.blockAllocator, fun acc _ => acc⟩
  trans _ _ _ h h' := ⟨IsTrans.trans _ _ _ h.grows h'.grows,
    fun acc ok => h'.accounted (h.accounted acc (ok.before h'.grows)) ok⟩

/-- The ghost has grown, and the tables and the dropped objects are the same. -/
structure Keeps (p : BlockParams) (m m' : BlockSpaceManager) : Prop where
  grows : Grows m.blockAllocator m'.blockAllocator
  held : ∀ tabs lost, Held p m tabs lost → m'.blockAllocator.Harmless → Held p m' tabs lost

instance (p : BlockParams) : IsPreorder BlockSpaceManager (Keeps p) where
  refl m := ⟨refl m.blockAllocator, fun _ _ held _ => held⟩
  trans _ _ _ h h' := ⟨IsTrans.trans _ _ _ h.grows h'.grows,
    fun tabs lost held ok => h'.held tabs lost (h.held tabs lost held (ok.before h'.grows)) ok⟩

theorem Keeps.upkeep {p : BlockParams} {m m' : BlockSpaceManager} (h : Keeps p m m') : Upkeep p m m' :=
  ⟨h.grows, fun ⟨tabs, lost, held⟩ ok => ⟨tabs, lost, h.held tabs lost held ok⟩⟩

/-- Blocks have been marked, or nothing has changed that matters. -/
structure Marks (m m' : BlockSpaceManager) : Prop where
  still : Still m.blockAllocator m'.blockAllocator
  advances : Advances m.blockAllocator m'.blockAllocator
  blockTables : m'.blockTables = m.blockTables
  dropped : m'.trace.dropped = m.trace.dropped

instance : IsPreorder BlockSpaceManager Marks where
  refl m := ⟨refl m.blockAllocator, refl m.blockAllocator, rfl, rfl⟩
  trans _ _ _ h h' := ⟨IsTrans.trans _ _ _ h.still h'.still, IsTrans.trans _ _ _ h.advances h'.advances,
    h'.blockTables.trans h.blockTables, h'.dropped.trans h.dropped⟩

section
variable {p : BlockParams} {m m' : BlockSpaceManager} {tabs rest : List Owner} {lost lost' : List Ref} {seqId : SeqId}
  {t t' : BlockTable} {full : List BlockRef}

/-- The block allocators, the tables and the dropped objects are the same. -/
theorem Marks.of_same (hs : m'.blockAllocator = m.blockAllocator) (ht : m'.blockTables = m.blockTables)
    (hd : m'.trace.dropped = m.trace.dropped) : Marks m m' := by
  refine ⟨?_, ?_, ht, hd⟩
  · rw [hs]
    exact refl m.blockAllocator
  · rw [hs]
    exact refl m.blockAllocator

theorem Marks.held (h : Marks m m') (held : Held p m tabs lost) : Held p m' tabs lost := by
  refine ⟨?_, held.tables.still h.still h.advances, ?_⟩
  · rw [h.blockTables]
    exact held.entries
  · rw [h.dropped]
    exact held.lost

theorem Marks.keeps (h : Marks m m') : Keeps p m m' := ⟨h.advances.toGrows, fun _ _ held _ => h.held held⟩

theorem Marks.upkeep (h : Marks m m') : Upkeep p m m' := h.keeps.upkeep

/-- The table of a sequence, apart from the others. -/
theorem Held.focus (h : Held p m tabs lost) (ht : m.blockTables.get? seqId = some t) :
    ∃ full rest, Tables p m.blockAllocator ((seqId, t, full) :: rest) lost ∧
      (rest.map fun x => (x.1, x.2.1)).Perm (m.blockTables.erase seqId).entries := by
  have hmem : (seqId, t) ∈ tabs.map fun x => (x.1, x.2.1) := h.entries.mem_iff.mpr (Dict.get?_iff_mem_entries.mp ht)
  obtain ⟨⟨_, _, full⟩, hx, he⟩ := List.mem_map.mp hmem
  obtain ⟨rfl, rfl⟩ := Prod.mk.inj he
  have hperm := List.perm_cons_erase hx
  refine ⟨full, _, h.tables.perm hperm, ?_⟩
  have := ((hperm.map fun x => (x.1, x.2.1)).symm.trans h.entries).trans (Dict.entries_perm_erase ht)
  rwa [List.map_cons, List.perm_cons] at this

/-- The table goes back. -/
theorem Held.unfocus (tables : Tables p m'.blockAllocator ((seqId, t', full) :: rest) lost')
    (hrest : (rest.map fun x => (x.1, x.2.1)).Perm (m.blockTables.erase seqId).entries)
    (hset : m'.blockTables = m.blockTables.set seqId t') (hlost : m'.trace.dropped = [] → lost' = []) :
    Held p m' ((seqId, t', full) :: rest) lost' := by
  refine ⟨?_, tables, hlost⟩
  rw [hset, List.map_cons]
  exact (hrest.cons _).trans (Dict.entries_perm_set _ _ _).symm

/-- The table of a sequence is left with the objects that are swapped. -/
theorem Held.swap {s₁ : CpuGpuBlockAllocator} {selected : List BlockRef} {src dst : Device} {mapping : Dict BlockId BlockId}
    (h : Held p m tabs lost) (ht : m.blockTables.get? seqId = some t) (hsub : selected.Sublist t.blocks)
    (hfull : ∀ r ∈ selected, ∀ b, m.blockAllocator.block? r = some b → b.isFull p = true) (ok : s₁.Harmless)
    (hswap : BlockM.swap p selected src dst m.blockAllocator = some (mapping, s₁))
    (hupdate : t.update selected s₁ = some (t', m'.blockAllocator)) (hset : m'.blockTables = m.blockTables.set seqId t')
    (hdropped : m'.trace.dropped = m.trace.dropped ++ t.blocks.filter (· ∉ selected)) : Accounted p m' := by
  obtain ⟨full, rest, tables, hrest⟩ := h.focus ht
  refine ⟨_, _, Held.unfocus (tables.swap hsub hfull ok hswap hupdate) hrest hset fun hnil => ?_⟩
  rw [hdropped, List.append_eq_nil_iff] at hnil
  rw [hnil.2, h.lost hnil.1]
  rfl

/-- A sequence gets a table. -/
theorem Held.open {s : CpuGpuBlockAllocator} (h : Held p m tabs lost) (hfresh : seqId ∉ m.blockTables)
    (tables : Tables p s ((seqId, t, full) :: tabs) lost) :
    Held p { m with blockAllocator := s, blockTables := m.blockTables.set seqId t } ((seqId, t, full) :: tabs) lost := by
  refine Held.unfocus (m := m) tables ?_ rfl h.lost
  rw [Dict.erase_of_not_mem hfresh]
  exact h.entries

end

end BlockSpaceManager

namespace ManagerM
open BlockSpaceManager
variable {p : ManagerParams} {m m' m₁ : BlockSpaceManager} {α : Type} {u : Unit} {seqId : SeqId} {t : BlockTable}

theorem onBlocks_iff {x : BlockM α} {a : α} : onBlocks x m = some (a, m') ↔
    ∃ s', x m.blockAllocator = some (a, s') ∧ m' = { m with blockAllocator := s' } := zoom_iff

theorem onBlocks_marks {x : BlockM α} (still : Within Still x) (adv : Within Advances x) : Within Marks (onBlocks x) :=
  .zoom (Q := fun s s' => Still s s' ∧ Advances s s') (fun s a s' h => ⟨still s a s' h, adv s a s' h⟩)
    fun _ _ h => ⟨h.1, h.2, rfl, rfl⟩

theorem onBlocks_reads {x : BlockM α} (h : Within Eq x) : Within Eq (onBlocks x) :=
  .zoom h fun m s hs => by rw [← hs]

theorem reads_marks {x : ManagerM α} (h : Within Eq x) : Within Marks x := h.mono fun m _ hm => hm ▸ refl m

theorem same_marks {x : ManagerM α} (h : Within SameBlocks x) : Within Marks x :=
  h.mono fun _ _ h => .of_same h.blockAllocator h.blockTables (by rw [h.trace])

theorem marks_upkeep {x : ManagerM α} (h : Within Marks x) : Within (Upkeep p.toBlockParams) x :=
  h.mono fun _ _ h => h.upkeep

/-! ## Trackers and marks -/

theorem addSeq_marks (seqId : SeqId) : Within Marks (addSeq seqId) :=
  .bind .read fun _ => .bind (.require _) fun _ => .update fun _ => .of_same rfl rfl rfl

theorem accessAllBlocksInSeq_marks (seqId : SeqId) (now : Int) : Within Marks (accessAllBlocksInSeq seqId now) :=
  .bind .read fun _ => .bind (.require _) fun _ => .update fun _ => .of_same rfl rfl rfl

theorem onBlocks_markBlocksAsComputed (ids : List BlockId) : Within Marks (onBlocks (BlockM.markBlocksAsComputed ids)) :=
  onBlocks_marks (BlockM.markBlocksAsComputedOn_still ids) (BlockM.markBlocksAsComputedOn_advances ids)

theorem markBlocksAsComputed_marks (g : SequenceGroup) (n : Int) : Within Marks (markBlocksAsComputed p g n) := by
  refine .bind .read fun m => .when ?_
  split
  · exact .pure _
  · exact .when (onBlocks_markBlocksAsComputed _)

theorem registerSyntheticCachedTokens_marks (g : SequenceGroup) (n : Int) :
    Within Marks (registerSyntheticCachedTokens p g n) := by
  refine .bind .read fun m => ?_
  split
  · exact .pure _
  · refine .ite (.bind (.update fun _ => .of_same rfl rfl rfl) fun _ => .pure _) ?_
    exact .bind (.update fun _ => .of_same rfl rfl rfl) fun _ => .bind (onBlocks_markBlocksAsComputed _) fun _ => .pure _

/-! ## Slots -/

theorem appendSlots_upkeep (g : SequenceGroup) (n : Nat) : Within (Upkeep p.toBlockParams) (appendSlots p g n) := by
  intro m cows m' hrun
  rw [appendSlots, getTable, bind_assoc, read_bind] at hrun
  obtain ⟨t, _, ht, hrun⟩ := bind_iff.mp hrun
  obtain ⟨ht, hm⟩ := ofOption_iff.mp ht
  rw [hm] at hrun
  obtain ⟨t', m₁, happend, hrun⟩ := bind_iff.mp hrun
  obtain ⟨_, m₂, hset, hrun⟩ := bind_iff.mp hrun
  obtain ⟨s₁, happend, hm₁⟩ := onBlocks_iff.mp happend
  have clear := onBlocks_marks BlockM.clearCopyOnWrites_still BlockM.clearCopyOnWrites_advances _ _ _ hrun
  rw [update_iff.mp hset, hm₁] at clear
  refine IsTrans.trans _ _ _ ⟨?_, fun acc ok => ?_⟩ clear.upkeep
  · exact (BlockTable.appendTokenIds_advances _ _ _ _ _ _ happend).toGrows
  · obtain ⟨tabs, lost, held⟩ := acc
    obtain ⟨full, rest, tables, hrest⟩ := held.focus ht
    obtain ⟨full', tables⟩ := tables.append ok happend
    exact ⟨_, _, Held.unfocus tables hrest rfl held.lost⟩

/-! ## Allocation -/

theorem swapInCpuPrefixIfNeeded_keeps (g : SequenceGroup) :
    Within (Keeps p.toBlockParams) (swapInCpuPrefixIfNeeded p g) := by
  refine .bind ((same_marks (getNumCachedTokens_same p g .gpu)).mono fun _ _ h => h.keeps) fun gpu =>
    .bind ((same_marks (getNumCachedTokens_same p g .cpu)).mono fun _ _ h => h.keeps) fun cpu => .ite (.pure _) ?_
  intro m pairs m' hrun
  obtain ⟨t, m₁, halloc, hrun⟩ := bind_iff.mp hrun
  obtain ⟨mapping, m₂, hswap, hrun⟩ := bind_iff.mp hrun
  obtain ⟨ids, m₃, hids, hrun⟩ := bind_iff.mp hrun
  obtain ⟨_, m₄, hmark, hrun⟩ := bind_iff.mp hrun
  obtain ⟨_, m₅, hupdate, hrun⟩ := bind_iff.mp hrun
  obtain ⟨_, m₆, hfree, hrun⟩ := bind_iff.mp hrun
  have marks : Marks m₂ m₅ :=
    IsTrans.trans _ _ _ (reads_marks (onBlocks_reads (BlockM.blockIds_reads _)) _ _ _ hids) (IsTrans.trans _ _ _
      (Within.when (onBlocks_markBlocksAsComputed _) _ _ _ hmark)
      (same_marks (updateNumCachedTokens_same p g cpu .gpu) _ _ _ hupdate))
  refine IsTrans.trans _ m₆ _ ?_ (same_marks (physicalMapping_same _ _ _) _ _ _ hrun).keeps
  obtain ⟨s₁, halloc, hm₁⟩ := onBlocks_iff.mp halloc
  rw [hm₁] at hswap
  obtain ⟨s₂, hswap, hm₂⟩ := onBlocks_iff.mp hswap
  obtain ⟨s₆, hfree, hm₆⟩ := onBlocks_iff.mp hfree
  rw [hm₂] at marks
  rw [hm₆]
  have grows₂ : Grows s₁ s₂ := (BlockM.swap_advances _ _ _ hswap).toGrows
  have grows₆ : Grows s₂ s₆ :=
    IsTrans.trans _ _ _ marks.advances.toGrows (BlockTable.free_advances _ _ _ _ hfree).toGrows
  refine ⟨IsTrans.trans _ _ _ (BlockTable.allocate_advances _ _ _ _ _ _ halloc).toGrows (IsTrans.trans _ _ _ grows₂ grows₆),
    fun tabs lost held ok => ⟨?_, ?_, ?_⟩⟩
  · rw [marks.blockTables]
    exact held.entries
  · -- the temporary table comes and goes
    have ok₂ := ok.before grows₆
    have tables := held.tables.allocate (k := g.seqId) (ok₂.before grows₂) halloc
    exact ((tables.swapDrop ok₂ hswap).still marks.still marks.advances).free hfree
  · rw [marks.dropped]
    exact held.lost

theorem allocate_upkeep (g : SequenceGroup) : Within (Upkeep p.toBlockParams) (allocate p g) := by
  intro m pairs m' hrun
  obtain ⟨_, _, hreq, hrun⟩ := bind_iff.mp hrun
  rw [(require_iff.mp hreq).2, read_bind] at hrun
  obtain ⟨_, _, hreq, hrun⟩ := bind_iff.mp hrun
  obtain ⟨hfresh, hm⟩ := require_iff.mp hreq
  rw [hm] at hrun
  obtain ⟨t, m₁, halloc, hrun⟩ := bind_iff.mp hrun
  obtain ⟨_, m₂, hset, hrun⟩ := bind_iff.mp hrun
  have rest : Upkeep p.toBlockParams m₂ m' := by
    refine (?_ : Within (Upkeep p.toBlockParams) _) m₂ pairs m' hrun
    refine .bind ((swapInCpuPrefixIfNeeded_keeps g).mono fun _ _ h => h.upkeep) fun _ => marks_upkeep ?_
    exact .bind (addSeq_marks _) fun _ => .bind (.update fun _ => .of_same rfl rfl rfl) fun _ => .pure _
  refine IsTrans.trans _ _ _ ?_ rest
  rw [update_iff.mp hset]
  unfold allocateSequence at halloc
  split at halloc
  · obtain ⟨ht, hm₁⟩ := pure_iff.mp halloc
    rw [hm₁, ht]
    exact ⟨refl m.blockAllocator, fun ⟨_, _, held⟩ _ => ⟨_, _, held.open hfresh (held.tables.empty _)⟩⟩
  · obtain ⟨s₁, halloc, hm₁⟩ := onBlocks_iff.mp halloc
    rw [hm₁]
    exact ⟨(BlockTable.allocate_advances _ _ _ _ _ _ halloc).toGrows,
      fun ⟨_, _, held⟩ ok => ⟨_, _, held.open hfresh (held.tables.allocate ok halloc)⟩⟩

/-! ## Release -/

theorem onBlocks_markBlocksAsAccessed {ids : List BlockId} {now : Int} {tabs : List Owner} {lost : List Ref}
    (tables : Tables p.toBlockParams m.blockAllocator tabs lost)
    (hids : ∀ id ∈ ids, 0 < numRefs (m.blockAllocator.refsHeld tabs ++ lost) id)
    (hrun : onBlocks (BlockM.markBlocksAsAccessed ids now) m = some (u, m')) : Marks m m' := by
  obtain ⟨s, hmark, hm⟩ := onBlocks_iff.mp hrun
  rw [hm]
  exact ⟨BlockM.markBlocksAsAccessed_still now ids _ _ _ hmark, BlockM.markBlocksAsAccessed_advances tables.books hids hmark,
    rfl, rfl⟩

theorem onBlocks_markBlocksAsAccessed_grows {ids : List BlockId} {now : Int}
    (hrun : onBlocks (BlockM.markBlocksAsAccessed ids now) m = some (u, m')) : Grows m.blockAllocator m'.blockAllocator := by
  obtain ⟨s, hmark, hm⟩ := onBlocks_iff.mp hrun
  rw [hm]
  exact BlockM.markBlocksAsAccessed_grows now ids _ _ _ hmark

theorem flushLastAccess_upkeep (ht : m.blockTables.get? seqId = some t)
    (hrun : flushLastAccess seqId t.blockIds m = some (u, m')) :
    Upkeep p.toBlockParams m m' ∧ m'.blockTables = m.blockTables := by
  rw [flushLastAccess, read_bind] at hrun
  obtain ⟨ts, _, hts, hrun⟩ := bind_iff.mp hrun
  rw [(ofOption_iff.mp hts).2] at hrun
  obtain ⟨_, m₁, hmark, hrun⟩ := bind_iff.mp hrun
  have erased : Marks m₁ m' := by
    rw [update_iff.mp hrun]
    exact .of_same rfl rfl rfl
  rw [erased.blockTables]
  cases ts with
  | none =>
    rw [(pure_iff.mp hmark).2] at erased ⊢
    exact ⟨erased.upkeep, rfl⟩
  | some now =>
    obtain ⟨s₁, -, hm₁⟩ := onBlocks_iff.mp hmark
    refine ⟨IsTrans.trans _ _ _ ⟨onBlocks_markBlocksAsAccessed_grows hmark, fun ⟨tabs, lost, held⟩ _ => ?_⟩ erased.upkeep, ?_⟩
    · have hmem : (seqId, t) ∈ tabs.map fun x => (x.1, x.2.1) := held.entries.mem_iff.mpr (Dict.get?_iff_mem_entries.mp ht)
      obtain ⟨x, hx, he⟩ := List.mem_map.mp hmem
      obtain ⟨-, rfl⟩ := Prod.mk.inj he
      exact ⟨tabs, lost, (onBlocks_markBlocksAsAccessed held.tables (held.tables.referenced hx) hmark).held held⟩
    · rw [hm₁]

theorem freeTable_upkeep (ht : m.blockTables.get? seqId = some t) (hrun : freeTable p seqId t m = some (u, m')) :
    Upkeep p.toBlockParams m m' := by
  obtain ⟨t', m₁, hfree, herase⟩ := bind_iff.mp hrun
  obtain ⟨s₁, hfree, hm₁⟩ := onBlocks_iff.mp hfree
  rw [update_iff.mp herase, hm₁]
  refine ⟨(BlockTable.free_advances _ _ _ _ hfree).toGrows, fun ⟨tabs, lost, held⟩ _ => ?_⟩
  obtain ⟨full, rest, tables, hrest⟩ := held.focus ht
  exact ⟨rest, lost, hrest, tables.free hfree, held.lost⟩

/-- The steps that release the table of a sequence. -/
theorem releaseTable_upkeep {x : ManagerM Unit} (ht : m.blockTables.get? seqId = some t) (hx : Within SameBlocks x)
    (hrun : (do
      flushLastAccess seqId t.blockIds
      x
      freeTable p seqId t) m = some (u, m')) : Upkeep p.toBlockParams m m' := by
  obtain ⟨_, m₁, hflush, hrun⟩ := bind_iff.mp hrun
  obtain ⟨_, m₂, h₂, hrun⟩ := bind_iff.mp hrun
  obtain ⟨flushed, tables⟩ := flushLastAccess_upkeep ht hflush
  have same := hx _ _ _ h₂
  rw [← tables, ← same.blockTables] at ht
  exact IsTrans.trans _ _ _ flushed (IsTrans.trans _ _ _ (same_marks hx _ _ _ h₂).upkeep (freeTable_upkeep ht hrun))

theorem free_upkeep (seqId : SeqId) : Within (Upkeep p.toBlockParams) (free p seqId) := by
  intro m u m' hrun
  rw [free, read_bind] at hrun
  cases ht : m.blockTables.get? seqId with
  | none =>
    rw [ht] at hrun
    rw [(pure_iff.mp hrun).2]
    exact refl m
  | some t =>
    rw [ht] at hrun
    exact releaseTable_upkeep ht (removeSeqFromComputedBlocksTracker_same seqId) hrun

theorem freeCachedSeqBlocks_upkeep (seqIds : List SeqId) : Within (Upkeep p.toBlockParams) (freeCachedSeqBlocks p seqIds) := by
  refine .forM (fun seqId => ?_) seqIds
  intro m u m' hrun
  rw [read_bind] at hrun
  cases ht : m.blockTables.get? seqId with
  | none =>
    rw [ht] at hrun
    rw [(pure_iff.mp hrun).2]
    exact refl m
  | some t =>
    rw [ht] at hrun
    exact releaseTable_upkeep ht (removeSeq_same seqId) hrun

theorem evictCachedBlocks_upkeep (key : Int × Int) : Within (Upkeep p.toBlockParams) (evictCachedBlocks p key) := by
  refine .bind .read fun m => ?_
  cases m.gpuCachedEntries.get? key with
  | none => exact .pure _
  | some e =>
    exact .bind (marks_upkeep (.update fun _ => .of_same rfl rfl rfl)) fun _ => freeCachedSeqBlocks_upkeep e.seqIds

theorem retainBlocks_upkeep (g : SequenceGroup) : Within (Upkeep p.toBlockParams) (retainBlocks p g) := by
  unfold retainBlocks
  cases g.cacheKey with
  | none => exact .pure _
  | some key =>
    exact .bind (evictCachedBlocks_upkeep key) fun _ => marks_upkeep (.update fun _ => .of_same rfl rfl rfl)

/-! ## Swap-out -/

theorem collectBlocksForSwap_reads (g : SequenceGroup) (status : Option SequenceStatus) :
    Within Eq (collectBlocksForSwap p g status) := by
  refine .bind .read fun m => .ite (.pure _) ?_
  split
  · exact .pure _
  · exact .bind (.mapM (fun r => .bind (onBlocks_reads (BlockM.getBlock_reads r)) fun _ => .pure _) _) fun _ => .pure _

/-- What is selected for a swap: full blocks of the table of the sequence. -/
theorem collectBlocksForSwap_selects {g : SequenceGroup} {status : Option SequenceStatus} {t : BlockTable}
    {blocks : List BlockRef} (hrun : collectBlocksForSwap p g status m = some (some (t, blocks), m')) :
    m.blockTables.get? g.seqId = some t ∧ blocks.Sublist t.blocks ∧
      ∀ r ∈ blocks, ∀ b, m.blockAllocator.block? r = some b → b.isFull p.toBlockParams = true := by
  have ht := collectBlocksForSwap_table hrun
  rw [collectBlocksForSwap, read_bind] at hrun
  split at hrun
  · cases (pure_iff.mp hrun).1
  · rw [ht] at hrun
    obtain ⟨selected, m₁, hsel, hrun⟩ := bind_iff.mp hrun
    have ho := (pure_iff.mp hrun).1
    split at ho
    · cases ho
    · obtain ⟨-, rfl⟩ := Prod.mk.inj (Option.some.inj ho)
      have item (r : BlockRef) (m₁ : BlockSpaceManager) (x : BlockRef × Bool) (m₂ : BlockSpaceManager)
          (h : (do
            let b ← onBlocks (BlockM.getBlock r)
            pure (r, b.isFull p.toBlockParams && b.blockId.any m.blockAllocator.isBlockComputed)) m₁ = some (x, m₂)) :
          m₁ = m₂ ∧ x.1 = r ∧ ∀ b, m₁.blockAllocator.block? r = some b → x.2 = true → b.isFull p.toBlockParams = true := by
        obtain ⟨b, m₃, hget, hpure⟩ := bind_iff.mp h
        obtain ⟨s, hget, hm⟩ := onBlocks_iff.mp hget
        obtain ⟨hb, hs⟩ := BlockM.getBlock_iff.mp hget
        obtain ⟨rfl, hm'⟩ := pure_iff.mp hpure
        refine ⟨?_, rfl, fun b' hb' hx => ?_⟩
        · rw [hm', hm, hs]
        · obtain rfl := Option.some.inj (hb.symm.trans hb')
          exact (Bool.and_eq_true_iff.mp hx).1
      have hmap : selected.map (·.1) = t.blocks :=
        (mapM_map_eq (k := id) (fun r s x s' h => (item r s x s' h).2.1) hsel).trans (List.map_id _)
      have hselected := mapM_forall (· = m) (fun r x => x.1 = r ∧ ∀ b, m.blockAllocator.block? r = some b →
        x.2 = true → b.isFull p.toBlockParams = true) (fun r s x s' hs h => by
          subst hs
          exact ⟨(item r s x s' h).1.symm, (item r s x s' h).2⟩) hsel rfl
      refine ⟨ht, hmap ▸ (List.filter_sublist.map _), fun r hr b hb => ?_⟩
      obtain ⟨x, hx, rfl⟩ := List.mem_map.mp hr
      obtain ⟨hx, hfull⟩ := List.mem_filter.mp hx
      obtain ⟨r, -, rfl, hq⟩ := hselected x hx
      exact hq b hb hfull

/-- The number of blocks that a swap of the selected ones needs is found without a change. -/
theorem onBlocks_getNumFullBlocksTouched_upkeep {blocks : List BlockRef} {d : Device} {n : Nat}
    (ht : m.blockTables.get? seqId = some t) (hsub : blocks.Sublist t.blocks)
    (hrun : onBlocks (BlockM.getNumFullBlocksTouched p.toBlockParams blocks d) m = some (n, m')) :
    Grows m.blockAllocator m'.blockAllocator ∧ (Accounted p.toBlockParams m → m' = m) := by
  obtain ⟨s, htouched, hm⟩ := onBlocks_iff.mp hrun
  rw [hm]
  refine ⟨(BlockM.getNumFullBlocksTouched_advances _ _ _ htouched).toGrows, fun ⟨tabs, lost, held⟩ => ?_⟩
  obtain ⟨full, rest, tables, -⟩ := held.focus ht
  have owns := tables.focus
  rw [BlockM.getNumFullBlocksTouched_reads owns.chained (fun r hr => owns.listed.subset (hsub.subset hr)) htouched]

theorem canSwapOut_upkeep (g : SequenceGroup) : Within (Upkeep p.toBlockParams) (canSwapOut p g) := by
  intro m o m' hrun
  obtain ⟨o, _, hcollect, hrun⟩ := bind_iff.mp hrun
  rw [← collectBlocksForSwap_reads g _ _ _ _ hcollect] at hrun hcollect
  cases o with
  | none =>
    rw [(pure_iff.mp hrun).2]
    exact refl m
  | some x =>
    obtain ⟨t, blocks⟩ := x
    obtain ⟨ht, hsub, -⟩ := collectBlocksForSwap_selects hcollect
    obtain ⟨n, m₁, htouched, hrun⟩ := bind_iff.mp hrun
    rw [read_bind] at hrun
    obtain ⟨grows, same⟩ := onBlocks_getNumFullBlocksTouched_upkeep ht hsub htouched
    rw [(pure_iff.mp hrun).2]
    exact ⟨grows, fun acc _ => same acc ▸ acc⟩

theorem swapOutGroup_upkeep (g : SequenceGroup) (status : Option SequenceStatus) (now : Int) :
    Within (Upkeep p.toBlockParams) (swapOutGroup p g status now) := by
  intro m o m' hrun
  obtain ⟨o, _, hcollect, hrun⟩ := bind_iff.mp hrun
  rw [← collectBlocksForSwap_reads g _ _ _ _ hcollect] at hrun hcollect
  cases o with
  | none =>
    rw [(pure_iff.mp hrun).2]
    exact refl m
  | some x =>
    obtain ⟨t, blocks⟩ := x
    obtain ⟨ht, hsub, hfull⟩ := collectBlocksForSwap_selects hcollect
    obtain ⟨n, m₁, htouched, hrun⟩ := bind_iff.mp hrun
    obtain ⟨grows₁, same₁⟩ := onBlocks_getNumFullBlocksTouched_upkeep ht hsub htouched
    rw [read_bind] at hrun
    split at hrun
    · rw [(pure_iff.mp hrun).2]
      exact ⟨grows₁, fun acc _ => same₁ acc ▸ acc⟩
    · obtain ⟨_, m₂, hmark, hrun⟩ := bind_iff.mp hrun
      obtain ⟨mapping, m₃, hswap, hrun⟩ := bind_iff.mp hrun
      obtain ⟨s₃, hswap, hm₃⟩ := onBlocks_iff.mp hswap
      obtain ⟨t', m₄, hupdate, hrun⟩ := bind_iff.mp hrun
      obtain ⟨s₄, hupdate, hm₄⟩ := onBlocks_iff.mp hupdate
      obtain ⟨_, m₅, hset, hrun⟩ := bind_iff.mp hrun
      obtain ⟨pairs, m₆, hmapping, hrun⟩ := bind_iff.mp hrun
      obtain ⟨_, m₇, htrace, hrun⟩ := bind_iff.mp hrun
      have same₆ := physicalMapping_same _ _ _ _ _ _ hmapping
      rw [update_iff.mp hset, hm₄, hm₃] at same₆
      have hm' := (pure_iff.mp hrun).2.trans (update_iff.mp htrace)
      have allocator : m'.blockAllocator = s₄ := by
        rw [hm']
        exact same₆.blockAllocator
      rw [← allocator] at hupdate
      rw [hm₃] at hupdate
      have grows₃ : Grows s₃ m'.blockAllocator := (BlockTable.update_advances _ _ _ _ _ hupdate).toGrows
      have grows₂ : Grows m₂.blockAllocator s₃ := (BlockM.swap_advances _ _ _ hswap).toGrows
      refine ⟨IsTrans.trans _ _ _ grows₁ (IsTrans.trans _ _ _ (onBlocks_markBlocksAsAccessed_grows hmark)
        (IsTrans.trans _ _ _ grows₂ grows₃)), fun acc ok => ?_⟩
      rw [same₁ acc] at hmark
      obtain ⟨tabs, lost, held⟩ := acc
      obtain ⟨full, rest, tables, -⟩ := held.focus ht
      have marks := onBlocks_markBlocksAsAccessed tables (tables.referenced List.mem_cons_self) hmark
      rw [← marks.blockTables] at ht
      refine (marks.held held).swap ht hsub (fun r hr b hb => ?_) (ok.before grows₃) hswap hupdate ?_ ?_
      · rw [marks.still.block] at hb
        exact hfull r hr b hb
      · rw [hm']
        exact same₆.blockTables
      · rw [hm']
        show m₆.trace.dropped ++ _ = _
        rw [same₆.trace]

theorem swapOut_upkeep (g : SequenceGroup) (now : Int) : Within (Upkeep p.toBlockParams) (swapOut p g now) := by
  refine .bind (swapOutGroup_upkeep g _ now) fun o => ?_
  cases o with
  | none => exact .pure _
  | some pairs => exact .pure _

/-! ## Migrated caches -/

theorem blockIds_mem {blocks : List BlockRef} {ids : List (Option BlockId)} {q : Block → Bool} {id : BlockId}
    (hrun : Prog.mapM (fun r => do
      let b ← onBlocks (BlockM.getBlock r)
      pure (if q b then b.blockId else none)) blocks m = some (ids, m')) (hid : some id ∈ ids) :
    ∃ r ∈ blocks, m.blockAllocator.idOf? r = some id := by
  refine mapM_forall (· = m) (fun r o => o = some id → m.blockAllocator.idOf? r = some id) ?_ hrun rfl _ hid |>.imp
    fun r h => ⟨h.1, h.2 rfl⟩
  rintro r _ o m₁ rfl h
  obtain ⟨b, m₂, hget, hpure⟩ := bind_iff.mp h
  obtain ⟨s, hget, hm⟩ := onBlocks_iff.mp hget
  obtain ⟨hb, hs⟩ := BlockM.getBlock_iff.mp hget
  obtain ⟨ho, hm'⟩ := pure_iff.mp hpure
  refine ⟨by rw [hm', hm, hs], fun hid => ?_⟩
  rw [ho] at hid
  split at hid
  · rw [idOf?, hb]
    exact hid
  · cases hid

theorem registerMigratedCpuCache_upkeep (tokenIds : List TokenId) (now : Int) :
    Within (Upkeep p.toBlockParams) (registerMigratedCpuCache p tokenIds now) := by
  refine .ite (.pure _) ?_
  intro m o m' hrun
  obtain ⟨t, m₁, halloc, hrun⟩ := bind_iff.mp hrun
  obtain ⟨s₁, halloc, hm₁⟩ := onBlocks_iff.mp halloc
  obtain ⟨ids, m₂, hids, hrun⟩ := bind_iff.mp hrun
  have reads : Within Eq (Prog.mapM (fun r => do
      let b ← onBlocks (BlockM.getBlock r)
      pure (if b.isFull p.toBlockParams then b.blockId else none)) t.blocks) :=
    .mapM (fun r => .bind (onBlocks_reads (BlockM.getBlock_reads r)) fun _ => .pure _) _
  rw [← reads _ _ _ hids] at hrun
  obtain ⟨_, m₃, hmark, hrun⟩ := bind_iff.mp hrun
  obtain ⟨_, m₄, hfree, hrun⟩ := bind_iff.mp hrun
  obtain ⟨s₄, hfree, hm₄⟩ := onBlocks_iff.mp hfree
  rw [(pure_iff.mp hrun).2, hm₄]
  have marked : Grows m₁.blockAllocator m₃.blockAllocator ∧ ∀ tabs lost,
      Tables p.toBlockParams m₁.blockAllocator ((0, t, t.blocks) :: tabs) lost → Marks m₁ m₃ := by
    unfold when at hmark
    split at hmark
    · obtain ⟨_, m₅, hcomputed, haccessed⟩ := bind_iff.mp hmark
      have marks := onBlocks_marks (BlockM.markBlocksAsComputedOn_still _) (BlockM.markBlocksAsComputedOn_advances _) _ _ _
        hcomputed
      refine ⟨IsTrans.trans _ _ _ marks.advances.toGrows (onBlocks_markBlocksAsAccessed_grows haccessed), fun tabs lost tables => ?_⟩
      refine IsTrans.trans _ _ _ marks (onBlocks_markBlocksAsAccessed (tables.still marks.still marks.advances) ?_ haccessed)
      intro id hid
      obtain ⟨o, ho, he⟩ := List.mem_filterMap.mp hid
      obtain rfl : o = some id := he
      obtain ⟨r, hr, hrid⟩ := blockIds_mem hids ho
      refine refsHeld_pos List.mem_cons_self hr ?_
      rw [idOf?_same (marks.still.block r), hrid]
    · rw [(pure_iff.mp hmark).2]
      exact ⟨refl _, fun _ _ _ => refl m₁⟩
  obtain ⟨grows, marks⟩ := marked
  have grows₄ : Grows m₃.blockAllocator s₄ := (BlockTable.free_advances _ _ _ _ hfree).toGrows
  rw [hm₁] at grows
  refine ⟨IsTrans.trans _ _ _ (BlockTable.allocate_advances _ _ _ _ _ _ halloc).toGrows (IsTrans.trans _ _ _ grows grows₄),
    fun ⟨tabs, lost, held⟩ ok => ?_⟩
  have tables := held.tables.allocate (k := 0) ((ok.before grows₄).before grows) halloc
  have marks := marks tabs lost (by rw [hm₁]; exact tables)
  rw [hm₁] at marks
  refine ⟨tabs, lost, ?_, (tables.still marks.still marks.advances).free hfree, ?_⟩
  · rw [marks.blockTables]
    exact held.entries
  · rw [marks.dropped]
    exact held.lost

end ManagerM

end CoreFlow
