import CoreFlow.Block.SwapIn
import CoreFlow.Controller.HashChains
import CoreFlow.Manager.Attempts
import CoreFlow.Manager.Integrity
import CoreFlow.Manager.Tracker

/-!
# What is admitted can be allocated

`can_allocate` counts the blocks that `allocate` is going to take. The GPU has them then: the table takes just as many,
and the swap-in of the prefix that the CPU has cached finds every block of the prefix in use on the GPU. On the CPU
nothing is counted: there the swap-in takes blocks for a table of its own and gives them back.
-/

namespace CoreFlow
open Prog CpuGpuBlockAllocator

/-! ## Free blocks -/

namespace PrefixCachingBlockAllocator
variable {a : PrefixCachingBlockAllocator} {hashes : List PrefixHash}

theorem needsBlock_eq (h : PrefixHash) : a.needsBlock h = !a.hashInUse h := by
  unfold needsBlock hashInUse
  cases a.cachedBlocks.get? h with
  | none => rfl
  | some id => rfl

theorem numToTake_eq_card : a.numToTake hashes = (hashes.filter a.needsBlock).toFinset.card := by
  rw [numToTake, List.toFinset_filter]
  congr 1
  apply Finset.filter_congr
  intro h _
  rw [needsBlock_eq, Bool.not_eq_true']

/-- A hash that occurs twice is counted twice and taken once. -/
theorem numToTake_le_countP : a.numToTake hashes ≤ hashes.countP a.needsBlock := by
  rw [numToTake_eq_card, List.countP_eq_length_filter]
  exact List.toFinset_card_le _

theorem numToTake_eq_countP (hdistinct : (hashes.filter a.needsBlock).Nodup) :
    a.numToTake hashes = hashes.countP a.needsBlock := by
  rw [numToTake_eq_card, List.countP_eq_length_filter, List.toFinset_card_of_nodup hdistinct]

theorem numToTake_of_inUse (hused : ∀ h ∈ hashes, a.hashInUse h = true) : a.numToTake hashes = 0 := by
  apply Nat.eq_zero_of_not_pos
  rw [numToTake_pos]
  rintro ⟨h, hh, hidle⟩
  rw [hused h hh] at hidle
  cases hidle

end PrefixCachingBlockAllocator

namespace CpuGpuBlockAllocator
variable {p : BlockParams} {s s' : CpuGpuBlockAllocator} {tabs : List Owner} {lost : List Ref} {tokenIds : List TokenId}
  {d : Device}

/-- The count of new blocks, without lookahead slots. -/
theorem getNumNewBlocksNeeded_zero : s.getNumNewBlocksNeeded p tokenIds 0 =
    (blockHashes p tokenIds).countP (s.on .gpu).needsBlock + if tokenIds.length % p.blockSize = 0 then 0 else 1 := by
  unfold getNumNewBlocksNeeded
  dsimp only
  rw [Nat.add_zero, Nat.sub_self, Nat.add_zero, PrefixCachingBlockAllocator.countNewBlocksForTokenIds,
    PrefixCachingBlockAllocator.countNewBlocksAux_eq, countedHashes_chunkList, any_short]
  by_cases h : tokenIds.length % p.blockSize = 0
  · simp [h]
  · simp [h]

theorem numToTake_le_needed : BlockTable.numToTake p .gpu tokenIds s ≤ s.getNumNewBlocksNeeded p tokenIds 0 := by
  rw [getNumNewBlocksNeeded_zero]
  exact Nat.add_le_add_right PrefixCachingBlockAllocator.numToTake_le_countP _

theorem numToTake_eq_needed (hdistinct : ((blockHashes p tokenIds).filter (s.on .gpu).needsBlock).Nodup) :
    BlockTable.numToTake p .gpu tokenIds s = s.getNumNewBlocksNeeded p tokenIds 0 := by
  rw [getNumNewBlocksNeeded_zero, ← PrefixCachingBlockAllocator.numToTake_eq_countP hdistinct]
  rfl

/-- The blocks in use are those that the tables list. -/
theorem ids_refsHeld (lists : ∀ x ∈ tabs, Lists p s x.2.1.blocks x.2.1.blockIds (x.2.1.numFullSlots / p.blockSize) x.2.2) :
    (s.refsHeld tabs).map (·.1) = tabs.flatMap (·.2.1.blockIds) := by
  have held (x : Owner) (hx : x ∈ tabs) : (s.refsOf x.2.1.blocks).map (·.1) = x.2.1.blockIds := by
    have hids (r : BlockRef) : (s.refOf r).map (·.1) = s.idOf? r := by
      unfold refOf idOf?
      cases s.block? r with
      | none => rfl
      | some b =>
        show (b.blockId.map _).map _ = b.blockId
        rw [Option.map_map]
        exact Option.map_id'
    calc (s.refsOf x.2.1.blocks).map (·.1) = x.2.1.blocks.filterMap fun r => (s.refOf r).map (·.1) := List.map_filterMap
      _ = x.2.1.blocks.filterMap s.idOf? := List.filterMap_congr fun r _ => hids r
      _ = (x.2.1.blocks.map s.idOf?).filterMap id := by rw [List.filterMap_map, Function.id_comp]
      _ = x.2.1.blockIds := by rw [(lists x hx).ids, List.filterMap_map, Function.id_comp, List.filterMap_some]
  rw [refsHeld, List.map_flatMap, List.flatMap_def, List.flatMap_def, List.map_congr_left held]

/-- The same tables leave the same number of blocks free. -/
theorem Tables.numFree (h : Tables p s tabs lost) (h' : Tables p s' tabs lost)
    (blocks : (s'.on d).allBlockIndices = (s.on d).allBlockIndices) :
    (s'.on d).getNumFreeBlocks = (s.on d).getNumFreeBlocks := by
  have hrefs (id : BlockId) : numRefs (s'.refsHeld tabs ++ lost) id = numRefs (s.refsHeld tabs ++ lost) id := by
    unfold numRefs
    rw [List.map_append, List.map_append, ids_refsHeld h.lists, ids_refsHeld h'.lists]
  rw [(h.books.accounts d).numFree_eq (h.books.distinct d), (h'.books.accounts d).numFree_eq (h'.books.distinct d), blocks]
  apply List.countP_congr
  intro id _
  rw [hrefs]

/-- The hashes of a table that was allocated are in use. -/
theorem hashInUse_of_took {blocks : List BlockRef} {refs : List Ref} (took : BlockTable.Took p d tokenIds s blocks s')
    (books : s'.Books (s'.refsOf blocks ++ refs)) : ∀ h ∈ blockHashes p tokenIds, (s'.on d).hashInUse h = true := by
  obtain ⟨filled, tail, hblocks, carries, -⟩ := took.filled
  intro h hh
  obtain ⟨r, hr, b, id, hb, hheld, hid, hin⟩ := exists_left_of_forall₂ carries hh
  rw [(books.accounts d).hashInUse_iff]
  refine ⟨id, hin, List.mem_append_left _ (List.mem_filterMap.mpr ⟨r, ?_, ?_⟩)⟩
  · rw [hblocks]
    exact List.mem_append_left _ hr
  · rw [refOf_eq hb hid, hheld]

/-- A table on one device changes nothing on the other. -/
theorem Tables.allocate_elsewhere {t : BlockTable} {e : Device} (h : Tables p s tabs lost) (ok : s'.Harmless) (hne : d ≠ e)
    (hrun : BlockTable.empty.allocate p tokenIds d s = some (t, s')) :
    (s'.on e).getNumFreeBlocks = (s.on e).getNumFreeBlocks ∧ ∀ h, (s'.on e).hashInUse h = (s.on e).hashInUse h := by
  obtain ⟨owns, -⟩ := BlockTable.allocate_owns h.inUse h.books ok hrun
  have took := BlockTable.allocate_took h.inUse h.books ok hrun
  have blocks := (BlockTable.allocate_advances _ _ _ _ _ _ hrun).blocks
  have acc : (s'.on e).Accounts (s.refsHeld tabs ++ lost) := by
    refine (PrefixCachingBlockAllocator.Accounts.others fun x hx => ?_).mp (owns.books.accounts e)
    refine owns.books.not_mem (d := d) ?_ hne
    rw [blocks]
    exact took.here x hx
  exact ⟨(h.books.accounts e).numFree_congr acc (blocks e) (h.books.distinct e),
    fun _ => (h.books.accounts e).hashInUse_congr acc (blocks e)⟩

end CpuGpuBlockAllocator

/-! ## Attempts that end harmless -/

def BlockSpaceManager.HarmlessBlocks (m : BlockSpaceManager) : Prop := m.blockAllocator.Harmless

namespace ManagerAttempt
open Attempt BlockSpaceManager ManagerM
variable {p : ManagerParams} {m m' : BlockSpaceManager} {g : SequenceGroup} {tabs : List Owner} {lost : List Ref}

theorem step_detects {α : Type} {x : ManagerM α} (h : Within Marks x) : Detects HarmlessBlocks (step x) :=
  .lift fun m a m' hrun ok => ok.before (h m a m' hrun).advances.toGrows

theorem onBlocks_detects {α : Type} {x : BlockAttempt α} (h : Detects Harmless x) :
    Detects HarmlessBlocks (onBlocks x) := .zoom (fun _ _ => rfl) h

theorem free_detects (t : BlockTable) : Detects HarmlessBlocks (step (ManagerM.onBlocks (t.free p.toBlockParams))) := by
  refine .lift fun m t' m' hrun ok => ?_
  obtain ⟨s, hfree, rfl⟩ := onBlocks_iff.mp hrun
  exact Harmless.advances ok (BlockTable.free_advances _ _ _ _ hfree)

theorem setTable_detects (seqId : SeqId) (t : BlockTable) : Detects HarmlessBlocks (step (setTable seqId t)) := by
  refine .lift fun m u m' hrun ok => ?_
  rw [update_iff.mp hrun] at ok
  exact ok

/-- What `_swap_in_cpu_prefix_if_needed` does after the swap. -/
theorem giveBack_detects (t : BlockTable) (blocks : List BlockRef) (cpuCachedTokens : Nat) (mapping : Dict BlockId BlockId) :
    Detects HarmlessBlocks (do
      let ids ← step (ManagerM.onBlocks (BlockM.blockIds blocks))
      let gpuBlockIds := ids.filterMap id
      when (gpuBlockIds ≠ []) (step (ManagerM.onBlocks (BlockM.markBlocksAsComputed gpuBlockIds)))
      step (ManagerM.updateNumCachedTokens p g cpuCachedTokens .gpu)
      let _ ← step (ManagerM.onBlocks (t.free p.toBlockParams))
      step (ManagerM.physicalMapping .cpu .gpu mapping)) :=
  .bind (step_detects (reads_marks (onBlocks_reads (BlockM.blockIds_reads _)))) fun _ =>
    .bind (.when (step_detects (onBlocks_markBlocksAsComputed _))) fun _ =>
    .bind (step_detects (same_marks (updateNumCachedTokens_same p g _ _))) fun _ => .bind (free_detects t) fun _ =>
    step_detects (same_marks (physicalMapping_same _ _ _))

theorem swapInCpuPrefixIfNeeded_detects : Detects HarmlessBlocks (swapInCpuPrefixIfNeeded p g) := by
  refine .bind (step_detects (same_marks (getNumCachedTokens_same p g .gpu))) fun gpu =>
    .bind (step_detects (same_marks (getNumCachedTokens_same p g .cpu))) fun cpu => .ite (.pure _) ?_
  exact .bind (onBlocks_detects (BlockAttempt.allocate_detects _ _ _)) fun t =>
    .bind (onBlocks_detects (BlockAttempt.swap_detects _ _ _)) fun _ => giveBack_detects t _ cpu _

/-! ## Attempts with room -/

theorem other_ne : Raised.other ≠ Raised.noFreeBlocks := Raised.noConfusion

theorem giveBack_avoids (t : BlockTable) (blocks : List BlockRef) (cpuCachedTokens : Nat) (mapping : Dict BlockId BlockId) :
    Avoids .noFreeBlocks (do
      let ids ← step (ManagerM.onBlocks (BlockM.blockIds blocks))
      let gpuBlockIds := ids.filterMap id
      when (gpuBlockIds ≠ []) (step (ManagerM.onBlocks (BlockM.markBlocksAsComputed gpuBlockIds)))
      step (ManagerM.updateNumCachedTokens p g cpuCachedTokens .gpu)
      let _ ← step (ManagerM.onBlocks (t.free p.toBlockParams))
      step (ManagerM.physicalMapping .cpu .gpu mapping)) m := by
  refine .step other_ne fun ids _ _ => .bind ?_ fun _ _ _ => .step other_ne fun _ _ _ => .step other_ne fun _ _ _ =>
    .lift other_ne
  exact .ite (fun _ => .lift other_ne) fun _ => .pure _

/-- A table of full blocks, whose hashes are in use on the other device: the swap takes no block there. -/
theorem swapDrop_avoids {s : CpuGpuBlockAllocator} {t : BlockTable} {n k : Nat} {src dst : Device} (hne : src ≠ dst)
    {hashes : List PrefixHash} (tables : Tables p.toBlockParams s ((k, t, t.blocks) :: tabs) lost)
    (carries : List.Forall₂ (BlockM.Carries src s) t.blocks hashes) (hused : ∀ h ∈ hashes, (s.on dst).hashInUse h = true) :
    AvoidsUnless Harmless .noFreeBlocks (BlockAttempt.swap p.toBlockParams (t.blocks.drop n) src dst) s := by
  have settled := tables.focus.chained.settled
  have held (r : BlockRef) (hr : r ∈ t.blocks.drop n) : ∃ h ∈ hashes, BlockM.Carries src s r h :=
    exists_right_of_forall₂ carries (List.mem_of_mem_drop hr)
  refine BlockAttempt.swap_avoids hne tables.inUse settled (fun q hq => List.mem_append_left _ hq) (tables.booksDrop n)
    (fun r hr => List.mem_of_mem_drop hr) ?_ (fun r hr b hb => ?_) ?_
  · exact tables.inUse.nodup.of_append_left.sublist (List.drop_sublist n _)
  · -- only full blocks have a hash
    obtain ⟨h, -, b', id, hb', hheld, -⟩ := held r hr
    obtain rfl := Option.some.inj (hb.symm.trans hb')
    obtain ⟨b', hb', hderived, -⟩ := settled r (List.mem_of_mem_drop hr)
    obtain rfl := Option.some.inj (hb.symm.trans hb')
    by_contra hopen
    rw [hderived, derivedHash, if_pos (Bool.not_eq_true _ ▸ hopen)] at hheld
    cases hheld
  · rw [PrefixCachingBlockAllocator.numToTake_of_inUse fun h hh => ?_]
    · exact Nat.zero_le _
    · obtain ⟨r, hr, hh⟩ := List.mem_filterMap.mp hh
      obtain ⟨h', hmem, b, id, hb, hheld, -⟩ := held r hr
      rw [hb, Option.bind_some, hheld] at hh
      rw [← Option.some.inj hh]
      exact hused h' hmem

end ManagerAttempt

/-! ## The swap-in -/

namespace ManagerM
open BlockSpaceManager
variable (p : ManagerParams)

/-- The check that `_swap_in_cpu_prefix_if_needed` does not make: that the CPU has the blocks for its table. -/
def swapInFits (g : SequenceGroup) : ManagerM Bool := do
  let m ← Prog.read
  let gpuCachedTokens ← getNumCachedTokens p g .gpu
  let cpuCachedTokens ← getNumCachedTokens p g .cpu
  let needed := BlockTable.numToTake p.toBlockParams .cpu (g.getTokenIds.take cpuCachedTokens) m.blockAllocator
  pure (decide (cpuCachedTokens ≤ gpuCachedTokens) || decide (needed ≤ (m.blockAllocator.on .cpu).getNumFreeBlocks))

/-- `allocate` up to the call of `_swap_in_cpu_prefix_if_needed`. -/
def placeTable (g : SequenceGroup) : ManagerM Unit := do
  let blockTable ← allocateSequence p g
  setTable g.seqId blockTable

variable {p} {m m' m₁ m₂ : BlockSpaceManager} {g : SequenceGroup} {gpu cpu : Nat}

theorem swapInFits_run (hgpu : getNumCachedTokens p g .gpu m = some (gpu, m₁))
    (hcpu : getNumCachedTokens p g .cpu m₁ = some (cpu, m₂)) (hlt : gpu < cpu)
    (fits : ∀ m', swapInFits p g m ≠ some (false, m')) :
    BlockTable.numToTake p.toBlockParams .cpu (g.getTokenIds.take cpu) m.blockAllocator ≤
      (m.blockAllocator.on .cpu).getNumFreeBlocks := by
  by_contra hroom
  refine fits m₂ ?_
  rw [swapInFits, read_bind, bind_eq hgpu, bind_eq hcpu]
  rw [decide_eq_false (Nat.not_le.mpr hlt), decide_eq_false hroom]
  rfl

/-- The group has its table: its blocks are in use on the GPU, and as many have been taken. -/
structure Placed (p : ManagerParams) (g : SequenceGroup) (tabs : List Owner) (lost : List Ref) (m m' : BlockSpaceManager) :
    Prop where
  held : ∃ t full, Held p.toBlockParams m' ((g.seqId, t, full) :: tabs) lost
  tracker : m'.computedBlocksTracker = m.computedBlocksTracker
  inUse : ∀ h ∈ blockHashes p.toBlockParams g.getTokenIds, (m'.blockAllocator.on .gpu).hashInUse h = true
  gpu : (m'.blockAllocator.on .gpu).getNumFreeBlocks +
    BlockTable.numToTake p.toBlockParams .gpu g.getTokenIds m.blockAllocator = (m.blockAllocator.on .gpu).getNumFreeBlocks
  cpu : (m'.blockAllocator.on .cpu).getNumFreeBlocks = (m.blockAllocator.on .cpu).getNumFreeBlocks

theorem placeTable_placed {tabs : List Owner} {lost : List Ref} {u : Unit} (held : Held p.toBlockParams m tabs lost)
    (hfresh : g.seqId ∉ m.blockTables) (ok : m'.HarmlessBlocks) (hrun : placeTable p g m = some (u, m')) :
    Placed p g tabs lost m m' := by
  obtain ⟨t, m₁, ht, hset⟩ := bind_iff.mp hrun
  have hm' := update_iff.mp hset
  unfold allocateSequence at ht
  split at ht
  · rename_i hnil
    obtain ⟨rfl, rfl⟩ := pure_iff.mp ht
    rw [hm']
    have hnone : blockHashes p.toBlockParams [] = [] := by
      rw [blockHashes, numFullBlocks, List.length_nil, Nat.zero_div]
      rfl
    refine ⟨⟨_, _, held.open hfresh (held.tables.empty _)⟩, rfl, ?_, ?_, rfl⟩
    · rw [hnil, hnone]
      exact fun h hh => absurd hh List.not_mem_nil
    · rw [hnil, BlockTable.numToTake, hnone, List.length_nil, Nat.zero_mod]
      rfl
  · obtain ⟨s₁, halloc, rfl⟩ := onBlocks_iff.mp ht
    rw [hm'] at ok ⊢
    have ok : s₁.Harmless := ok
    have tables := held.tables.allocate (k := g.seqId) ok halloc
    have took := BlockTable.allocate_took held.tables.inUse held.tables.books ok halloc
    exact ⟨⟨_, _, held.open hfresh tables⟩, rfl, hashInUse_of_took took tables.focus.books, took.numFree,
      (held.tables.allocate_elsewhere ok (by decide) halloc).1⟩

end ManagerM

namespace ManagerAttempt
open Attempt BlockSpaceManager ManagerM
variable {p : ManagerParams} {m m' : BlockSpaceManager} {g : SequenceGroup} {tabs : List Owner} {lost : List Ref}

/-- The prefix is in use on the GPU and the CPU has room for its table. -/
theorem swapInCpuPrefixIfNeeded_avoids (tables : Tables p.toBlockParams m.blockAllocator tabs lost) (tracked : Tracked p m)
    (hused : ∀ h ∈ blockHashes p.toBlockParams g.getTokenIds, (m.blockAllocator.on .gpu).hashInUse h = true)
    (fits : ∀ m', swapInFits p g m ≠ some (false, m')) :
    AvoidsUnless HarmlessBlocks .noFreeBlocks (swapInCpuPrefixIfNeeded p g) m := by
  refine .step other_ne fun gpu m₁ hgpu => .step other_ne fun cpu m₂ hcpu => .ite (fun _ _ => .pure _) fun hswap => ?_
  have hlt : gpu < cpu := Nat.not_le.mp fun hle => hswap (.inl hle)
  have room := swapInFits_run hgpu hcpu hlt fits
  obtain ⟨hmod, hle⟩ := (getNumCachedTokens_tracked (getNumCachedTokens_tracks _ _ _ hgpu tracked) hcpu).2
  have hm : m₂.blockAllocator = m.blockAllocator :=
    (getNumCachedTokens_same p g .cpu _ _ _ hcpu).blockAllocator.trans (getNumCachedTokens_same p g .gpu _ _ _ hgpu).blockAllocator
  rw [← hm] at tables hused room
  have hwhole : (g.getTokenIds.take cpu).length % p.blockSize = 0 := by
    rw [List.length_take, Nat.min_eq_left hle, hmod]
  refine .bind (.zoom (fun _ _ => rfl) (BlockAttempt.allocate_avoids tables.inUse tables.books room))
    (fun t => .bind (onBlocks_detects (BlockAttempt.swap_detects _ _ _)) fun _ => giveBack_detects t _ cpu _)
    fun t m₃ ht ok₃ => ?_
  obtain ⟨s₃, ht, hm₃⟩ := onBlocks_iff.mp ((onBlocks_follows (BlockAttempt.allocate_follows _ _ _)).returns ht)
  rw [hm₃] at ok₃ ⊢
  have ok₃ : s₃.Harmless := ok₃
  have took := BlockTable.allocate_took tables.inUse tables.books ok₃ ht
  obtain ⟨filled, tail, hblocks, carries, htail⟩ := took.filled
  rw [htail hwhole, List.append_nil] at hblocks
  rw [← hblocks] at carries
  have hpre : blockHashes p.toBlockParams (g.getTokenIds.take cpu) <+: blockHashes p.toBlockParams g.getTokenIds := by
    conv_rhs => rw [← List.take_append_drop cpu g.getTokenIds]
    exact blockHashes_prefix
  have hused₃ (h : PrefixHash) (hh : h ∈ blockHashes p.toBlockParams (g.getTokenIds.take cpu)) :
      (s₃.on .gpu).hashInUse h = true := by
    rw [(tables.allocate_elsewhere ok₃ (by decide) ht).2]
    exact hused h (hpre.subset hh)
  exact .bind (.zoom (fun _ _ => rfl) (swapDrop_avoids (k := 0) (by decide) (tables.allocate ok₃ ht) carries hused₃))
    (fun _ => giveBack_detects t _ cpu _) fun _ _ _ _ _ => giveBack_avoids t _ cpu _

/-- The GPU has room for the table, and then the CPU for the one of the swap-in. -/
theorem allocate_avoids (held : Held p.toBlockParams m tabs lost) (tracked : Tracked p m)
    (room : BlockTable.numToTake p.toBlockParams .gpu g.getTokenIds m.blockAllocator ≤
      (m.blockAllocator.on .gpu).getNumFreeBlocks)
    (fits : ∀ u m₁, placeTable p g m = some (u, m₁) → ∀ m', swapInFits p g m₁ ≠ some (false, m')) :
    AvoidsUnless HarmlessBlocks .noFreeBlocks (allocate p g) m := by
  refine .step other_ne fun _ m₁ hreq => ?_
  rw [(require_iff.mp hreq).2]
  refine .step other_ne fun _ m₁ hread => ?_
  obtain ⟨hread, hm⟩ := read_iff.mp hread
  rw [hread, hm]
  refine .step other_ne fun _ m₁ hreq => ?_
  obtain ⟨hfresh, hm⟩ := require_iff.mp hreq
  rw [hm]
  have rest (pairs : List SwapPair) : Detects HarmlessBlocks (do
      step (addSeq g.seqId)
      step (update fun m => { m with trace := { m.trace with swapIns := m.trace.swapIns ++ pairs } })
      pure pairs) :=
    .bind (step_detects (addSeq_marks _)) fun _ => .bind (step_detects (.update fun _ => .of_same rfl rfl rfl)) fun _ => .pure _
  have done (pairs : List SwapPair) (m : BlockSpaceManager) : Avoids .noFreeBlocks (do
      step (addSeq g.seqId)
      step (update fun m => { m with trace := { m.trace with swapIns := m.trace.swapIns ++ pairs } })
      pure pairs) m := .step other_ne fun _ _ _ => .step other_ne fun _ _ _ => .pure _
  have room : AvoidsUnless HarmlessBlocks .noFreeBlocks (allocateSequence p g) m :=
    .ite (fun _ _ => .pure _) fun _ =>
      .zoom (fun _ _ => rfl) (BlockAttempt.allocate_avoids held.tables.inUse held.tables.books room)
  refine .bind room (fun t => .bind (setTable_detects _ t) fun _ => .bind swapInCpuPrefixIfNeeded_detects rest)
    fun t m₂ ht ok₂ => .step other_ne fun u m₃ hset => ?_
  have ht := (allocateSequence_follows g).returns ht
  have hplace : placeTable p g m = some (u, m₃) := bind_iff.mpr ⟨t, m₂, ht, hset⟩
  refine .bind (fun ok => ?_) rest fun pairs m₄ _ _ _ => done pairs m₄
  have placed := placeTable_placed held hfresh (swapInCpuPrefixIfNeeded_detects m₃ ok) hplace
  obtain ⟨t', full, held'⟩ := placed.held
  exact swapInCpuPrefixIfNeeded_avoids held'.tables (Tracks.of_same placed.tracker tracked) placed.inUse
    (fits u m₃ hplace) ok

theorem allocate_detects : Detects HarmlessBlocks (allocate p g) := by
  refine .bind (step_detects (.require _)) fun _ => .bind (step_detects .read) fun m => .bind (step_detects (.require _)) fun _ =>
    .bind (.ite (.pure _) (onBlocks_detects (BlockAttempt.allocate_detects _ _ _))) fun t => .bind (setTable_detects _ t) fun _ =>
    .bind swapInCpuPrefixIfNeeded_detects fun pairs => ?_
  exact .bind (step_detects (addSeq_marks _)) fun _ => .bind (step_detects (.update fun _ => .of_same rfl rfl rfl)) fun _ => .pure _

end ManagerAttempt

namespace ManagerM
open BlockSpaceManager
variable {p : ManagerParams} {m m' : BlockSpaceManager} {g : SequenceGroup} {tabs : List Owner} {lost : List Ref}
  {pairs : List SwapPair}

/-- The swap-in gives back what it takes: all that is missing afterwards is the table. -/
theorem allocate_numFree (held : Held p.toBlockParams m tabs lost) (ok : m'.HarmlessBlocks)
    (hrun : allocate p g m = some (pairs, m')) :
    (m'.blockAllocator.on .gpu).getNumFreeBlocks + BlockTable.numToTake p.toBlockParams .gpu g.getTokenIds m.blockAllocator =
        (m.blockAllocator.on .gpu).getNumFreeBlocks ∧
      (m'.blockAllocator.on .cpu).getNumFreeBlocks = (m.blockAllocator.on .cpu).getNumFreeBlocks := by
  obtain ⟨_, _, hreq, hrun⟩ := bind_iff.mp hrun
  rw [(require_iff.mp hreq).2, read_bind] at hrun
  obtain ⟨_, _, hreq, hrun⟩ := bind_iff.mp hrun
  obtain ⟨hfresh, hm⟩ := require_iff.mp hreq
  rw [hm] at hrun
  obtain ⟨t, m₁, ht, hrun⟩ := bind_iff.mp hrun
  obtain ⟨u, m₂, hset, hrun⟩ := bind_iff.mp hrun
  have keeps : Keeps p.toBlockParams m₂ m' := by
    refine (?_ : Within (Keeps p.toBlockParams) _) m₂ pairs m' hrun
    refine .bind (swapInCpuPrefixIfNeeded_keeps g) fun _ => .mono ?_ fun _ _ h => Marks.keeps h
    exact .bind (addSeq_marks _) fun _ => .bind (.update fun _ => .of_same rfl rfl rfl) fun _ => .pure _
  have placed := placeTable_placed held hfresh (CpuGpuBlockAllocator.Harmless.before ok keeps.grows)
    (bind_iff.mpr ⟨t, m₁, ht, hset⟩)
  obtain ⟨t', full, held₂⟩ := placed.held
  have held' := keeps.held _ _ held₂ ok
  have same (d : Device) : (m'.blockAllocator.on d).getNumFreeBlocks = (m₂.blockAllocator.on d).getNumFreeBlocks :=
    held₂.tables.numFree held'.tables (keeps.grows.blocks d)
  rw [same, same]
  exact ⟨placed.gpu, placed.cpu⟩

end ManagerM

/-! ## Over runs -/

namespace BlockSpaceManager
open ManagerM
variable {p : ManagerParams} {m m' : BlockSpaceManager} {g : SequenceGroup} {ops : List ManagerOp} {u : Unit}

/-- An `allocate` does not run out of blocks, takes as many of the GPU as were counted, and none of the CPU. -/
def AllocatesAsCounted (p : ManagerParams) (m : BlockSpaceManager) (g : SequenceGroup) : Prop :=
  Attempt.Avoids .noFreeBlocks (ManagerAttempt.allocate p g) m ∧ ∀ pairs m', ManagerM.allocate p g m = some (pairs, m') →
    (m'.blockAllocator.on .gpu).getNumFreeBlocks + m.blockAllocator.getNumNewBlocksNeeded p.toBlockParams g.getTokenIds 0 =
        (m.blockAllocator.on .gpu).getNumFreeBlocks ∧
      (m'.blockAllocator.on .cpu).getNumFreeBlocks = (m.blockAllocator.on .cpu).getNumFreeBlocks

theorem canAllocate_ok (h : canAllocate p m g 0 = some .ok) :
    m.blockAllocator.getNumNewBlocksNeeded p.toBlockParams g.getTokenIds 0 ≤ (m.blockAllocator.on .gpu).getNumFreeBlocks := by
  unfold canAllocate at h
  split at h
  · cases h
  · rw [Option.some.injEq] at h
    split at h
    · cases h
    · split at h
      · omega
      · cases h

/-- The prompt `[1, 2]` is cached on the CPU, a waiting sequence that begins with it has asked for its count, and another
sequence is swapped out. -/
def swapOutThenAdmit : List ManagerOp :=
  [.registerMigratedCpuCache [1, 2] 3,
   .getNumCachedTokens (shortGroup 1 [1, 2, 3] .waiting) .cpu,
   .allocate (shortGroup 2 [5, 6] .waiting),
   .markBlocksAsComputed (shortGroup 2 [5, 6] .running) 2,
   .swapOut (shortGroup 2 [5, 6] .running) 5]

end BlockSpaceManager

end CoreFlow
