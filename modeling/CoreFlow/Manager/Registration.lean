import CoreFlow.Block.Giving
import CoreFlow.Manager.Attempts
import CoreFlow.Manager.Integrity

/-!
# Registration of a migrated cache

`register_migrated_cpu_cache` makes a temporary table for the full blocks, marks them and frees the table. When
the blocks fit, all are cached and computed afterwards, and the free blocks are as many as before. When the
allocation stops on the way, the table does not exist yet, and nothing gives back the blocks taken so far.
-/

namespace CoreFlow
open Prog CpuGpuBlockAllocator BlockM

section
variable {p : BlockParams} {d : Device} {s : CpuGpuBlockAllocator} {tokenIds : List TokenId}

/-- The tokens of the full blocks. -/
def wholeBlocks (p : BlockParams) (tokenIds : List TokenId) : List TokenId :=
  tokenIds.take (tokenIds.length / p.blockSize * p.blockSize)

theorem length_wholeBlocks : (wholeBlocks p tokenIds).length = numFullBlocks p tokenIds * p.blockSize := by
  rw [wholeBlocks, List.length_take, numFullBlocks]
  exact Nat.min_eq_left (Nat.div_mul_le_self _ _)

theorem numFullBlocks_wholeBlocks : numFullBlocks p (wholeBlocks p tokenIds) = numFullBlocks p tokenIds := by
  rw [numFullBlocks, length_wholeBlocks, Nat.mul_div_cancel _ p.pos]

theorem hashAt_wholeBlocks {i : Nat} (hi : i < numFullBlocks p tokenIds) :
    hashAt p (wholeBlocks p tokenIds) i = hashAt p tokenIds i := by
  have hlen : (i + 1) * p.blockSize ≤ (wholeBlocks p tokenIds).length := by
    rw [length_wholeBlocks]
    exact Nat.mul_le_mul_right _ hi
  rw [← hashAt_append hlen, wholeBlocks, List.take_append_drop]

theorem prevHash_wholeBlocks {i : Nat} (hi : i < numFullBlocks p tokenIds) :
    prevHash p (wholeBlocks p tokenIds) i = prevHash p tokenIds i := by
  cases i with
  | zero => rfl
  | succ i => exact congrArg some (hashAt_wholeBlocks (Nat.lt_of_succ_lt hi))

theorem blockHashes_wholeBlocks : blockHashes p (wholeBlocks p tokenIds) = blockHashes p tokenIds := by
  rw [blockHashes, blockHashes, numFullBlocks_wholeBlocks]
  refine List.map_congr_left fun i hi => hashAt_wholeBlocks ?_
  rwa [List.mem_range] at hi

theorem fits_wholeBlocks : Fits p d (wholeBlocks p tokenIds) 0 (numFullBlocks p tokenIds) s ↔
    Fits p d tokenIds 0 (numFullBlocks p tokenIds) s := by
  have hashes : hashesFrom p (wholeBlocks p tokenIds) 0 (numFullBlocks p tokenIds) =
      hashesFrom p tokenIds 0 (numFullBlocks p tokenIds) := by
    rw [BlockTable.hashesFrom_zero, ← blockHashes_wholeBlocks, ← BlockTable.hashesFrom_zero, numFullBlocks_wholeBlocks]
  unfold Fits
  rw [hashes]
  refine and_congr_right fun _ => forall₂_congr fun j hj => ?_
  rw [prevHash_wholeBlocks]
  rw [List.mem_range'_1, Nat.zero_add] at hj
  exact hj.2

theorem starts_wholeBlocks (hpos : 0 < numFullBlocks p tokenIds) :
    Starts p d (wholeBlocks p tokenIds) 0 s ↔ Starts p d tokenIds 0 s := by
  unfold Starts
  rw [prevHash_wholeBlocks hpos, hashAt_wholeBlocks hpos]

theorem wholeBlocks_ne_nil : wholeBlocks p tokenIds ≠ [] ↔ 0 < numFullBlocks p tokenIds := by
  have hpos := p.pos
  rw [← List.length_pos_iff, length_wholeBlocks]
  exact ⟨fun h => Nat.pos_of_mul_pos_right h, fun h => Nat.mul_pos h hpos⟩

end

namespace ManagerM
variable {p : ManagerParams} {m : BlockSpaceManager} {refs : List Ref} {blocks live : List BlockRef}
  {tokenIds : List TokenId} {now : Int}

theorem onBlocks_run {α : Type} {x : BlockM α} {a : α} {s' : CpuGpuBlockAllocator}
    (h : x m.blockAllocator = some (a, s')) : onBlocks x m = some (a, { m with blockAllocator := s' }) :=
  onBlocks_iff.mpr ⟨s', h, rfl⟩

/-- The physical blocks of full objects. -/
theorem fullBlockIds_run (hfull : ∀ r ∈ blocks, ∃ b, m.blockAllocator.block? r = some b ∧ b.isFull p.toBlockParams = true) :
    Prog.mapM (fun r => do
      let b ← onBlocks (BlockM.getBlock r)
      pure (if b.isFull p.toBlockParams then b.blockId else none)) blocks m =
        some (blocks.map m.blockAllocator.idOf?, m) := by
  induction blocks with
  | nil => rfl
  | cons r blocks ih =>
    obtain ⟨b, hb, hb'⟩ := hfull r List.mem_cons_self
    refine mapM_cons_iff.mpr ⟨m.blockAllocator.idOf? r, m, _, ?_, ih fun q hq => hfull q (List.mem_cons_of_mem _ hq), rfl⟩
    rw [bind_eq (onBlocks_run (getBlock_run hb)), if_pos hb']
    refine pure_iff.mpr ⟨?_, rfl⟩
    rw [idOf?, hb]
    rfl

/-- An object that holds a hash is full. -/
theorem isFull_of_carries {q : BlockParams} {s : CpuGpuBlockAllocator} {d : Device} {r : BlockRef} {h : PrefixHash}
    (remembers : s.Remembers q r) (c : Carries d s r h) : ∃ b, s.block? r = some b ∧ b.isFull q = true := by
  obtain ⟨b, id, hb, hh, -⟩ := c
  obtain ⟨b', hb', hheld⟩ := remembers
  obtain rfl := Option.some.inj (hb.symm.trans hb')
  refine ⟨b, hb, ?_⟩
  rw [hh] at hheld
  unfold derivedHash at hheld
  split at hheld
  · cases hheld
  · rwa [Bool.not_eq_false] at *

theorem mem_refsOf_of_carries {s : CpuGpuBlockAllocator} {d : Device} {r : BlockRef} {h : PrefixHash} (hr : r ∈ blocks)
    (c : Carries d s r h) : ∃ id ∈ blocks.filterMap s.idOf?, id ∈ (s.on d).allBlockIndices ∧ (id, some h) ∈ s.refsOf blocks := by
  obtain ⟨b, id, hb, hh, hid, hin⟩ := c
  refine ⟨id, List.mem_filterMap.mpr ⟨r, hr, ?_⟩, hin, List.mem_filterMap.mpr ⟨r, hr, ?_⟩⟩
  · rw [idOf?, hb]
    exact hid
  · rw [refOf_eq hb hid, hh]

/-- The marks and the release of a table whose objects all hold a hash and a block. -/
theorem markAndFree_returns (now : Int) {s : CpuGpuBlockAllocator} {d : Device} {t : BlockTable} {hashes : List PrefixHash}
    (owns : Owns p.toBlockParams s t.blocks t.blockIds (t.numFullSlots / p.blockSize) t.blocks live refs)
    (carries : List.Forall₂ (Carries d s) t.blocks hashes) (hne : t.blocks.filterMap s.idOf? ≠ []) :
    ∃ s₁ s₂ s₃ t', BlockM.markBlocksAsComputedOn d (t.blocks.filterMap s.idOf?) s = some ((), s₁) ∧
      BlockM.markBlocksAsAccessed (t.blocks.filterMap s.idOf?) now s₁ = some ((), s₂) ∧
      t.free p.toBlockParams s₂ = some (t', s₃) ∧ s₃.Books refs ∧
      (∀ e, (s₃.on e).allBlockIndices = (s.on e).allBlockIndices) ∧ ∀ h ∈ hashes, (s₃.on d).hashIsCached h = true := by
  have hids (id : BlockId) (hid : id ∈ t.blocks.filterMap s.idOf?) :
      id ∈ (s.on d).allBlockIndices ∧ 0 < numRefs (s.refsOf t.blocks ++ refs) id := by
    obtain ⟨r, hr, hid⟩ := List.mem_filterMap.mp hid
    obtain ⟨h, -, b, id', hb, -, hid', hin⟩ := exists_right_of_forall₂ carries hr
    rw [idOf?, hb, Option.bind_some, hid'] at hid
    obtain rfl := Option.some.inj hid
    exact ⟨hin, numRefs_pos (List.mem_append_left refs (List.mem_filterMap.mpr ⟨r, hr, refOf_eq hb hid'⟩))⟩
  obtain ⟨s₁, hcomputed, retains₁, all⟩ := markBlocksAsComputedOn_returns owns.books (fun id hid => (hids id hid).1) hne
  have still₁ := markBlocksAsComputedOn_still _ _ _ _ hcomputed
  obtain ⟨s₂, haccessed⟩ : ∃ s₂, BlockM.markBlocksAsAccessed (t.blocks.filterMap s.idOf?) now s₁ = some ((), s₂) := by
    refine markBlocksAsAccessed_returns (d := d) (still₁.books owns.books) fun id hid => ?_
    rw [(still₁.accounts d).all]
    exact hids id hid
  have still := IsTrans.trans _ _ _ still₁ (markBlocksAsAccessed_still now _ _ _ _ haccessed)
  have books₂ : s₂.Books (s₂.refsOf t.blocks ++ refs) := by
    rw [refsOf_same fun q _ => still.block q]
    exact still.books owns.books
  have hr (r : BlockRef) (hr : r ∈ t.blocks) : s₂.Remembers p.toBlockParams r ∧ ∃ h, Carries d s₂ r h := by
    obtain ⟨h, -, b, id, hb, hh, hid, hin⟩ := exists_right_of_forall₂ carries hr
    refine ⟨(owns.chained.settled.remembers hr).content fun q => congrArg (Option.map Block.content) (still.block q), h, b, id,
      (still.block r).trans hb, hh, hid, ?_⟩
    rw [(still.accounts d).all]
    exact hin
  obtain ⟨s₃, hfree⟩ := forM_free_returns (still.inUse owns.inUse) hr books₂
  obtain ⟨-, books₃, -⟩ := forM_free_releases (still.inUse owns.inUse) (fun r hr' => (hr r hr').1) books₂ hfree
  have retains₃ := IsTrans.trans _ _ _ (markBlocksAsAccessed_retains _ now _ _ _ haccessed)
    (Within.forM (free_retains p.toBlockParams) _ _ _ _ hfree)
  have retains := IsTrans.trans _ _ _ retains₁ retains₃
  have blocks₃ (e : Device) : (s₃.on e).allBlockIndices = (s.on e).allBlockIndices := by
    rw [(Within.forM (free_advances p.toBlockParams) _ _ _ _ hfree).blocks, (still.accounts e).all]
  refine ⟨s₁, s₂, s₃, { t with blocks := [], blockIds := [] }, hcomputed, haccessed, ?_, books₃, blocks₃, fun h hh => ?_⟩
  · unfold BlockTable.free
    rw [bind_eq hfree]
    rfl
  · obtain ⟨r, hr', c⟩ : ∃ r ∈ t.blocks, Carries d s r h := by
      obtain ⟨i, hi, rfl⟩ := List.mem_iff_getElem.mp hh
      have hi' : i < t.blocks.length := carries.length_eq ▸ hi
      exact ⟨t.blocks[i], List.getElem_mem hi', (List.forall₂_iff_get.mp carries).2 i hi' hi⟩
    obtain ⟨id, hid, hin, href⟩ := mem_refsOf_of_carries hr' c
    have hcached := (owns.books.accounts d).promoted id h (List.mem_append_left refs href) hin
    rw [← retains.cached d] at hcached
    exact books₃.hashIsCached hcached (retains₃.usedComputed (all id hid))

/-- Full blocks that fit are registered. -/
theorem registerMigratedCpuCache_returns (now : Int) (ready : m.blockAllocator.Ready .cpu) (use : m.blockAllocator.InUse live)
    (books : m.blockAllocator.Books refs) (hpos : 0 < numFullBlocks p.toBlockParams tokenIds)
    (fits : Fits p.toBlockParams .cpu tokenIds 0 (numFullBlocks p.toBlockParams tokenIds) m.blockAllocator) :
    ∃ m', registerMigratedCpuCache p tokenIds now m = some (true, m') ∧
      (∀ h ∈ blockHashes p.toBlockParams tokenIds, (m'.blockAllocator.on .cpu).hashIsCached h = true) ∧
        (m'.blockAllocator.on .cpu).getNumFreeBlocks = (m.blockAllocator.on .cpu).getNumFreeBlocks := by
  have hne := wholeBlocks_ne_nil.mpr hpos
  have hmod : (wholeBlocks p.toBlockParams tokenIds).length % p.blockSize = 0 := by
    rw [length_wholeBlocks]
    exact Nat.mul_mod_left _ _
  rw [← fits_wholeBlocks, ← numFullBlocks_wholeBlocks] at fits
  obtain ⟨t, s₁, halloc, ready₁, carries⟩ := BlockTable.allocate_returns ready use books hmod hne fits
  obtain ⟨owns, -⟩ := BlockTable.allocate_owns use books (fun hs => absurd hs ready₁.clean) halloc
  have hids : t.blocks.filterMap s₁.idOf? ≠ [] := by
    have hlen := carries.length_eq
    rw [blockHashes, List.length_map, List.length_range, numFullBlocks_wholeBlocks] at hlen
    obtain ⟨r, hr⟩ := List.exists_mem_of_length_pos (hlen ▸ hpos)
    obtain ⟨h, -, c⟩ := exists_right_of_forall₂ carries hr
    obtain ⟨id, hid, -⟩ := mem_refsOf_of_carries hr c
    exact List.ne_nil_of_mem hid
  obtain ⟨s₂, s₃, s₄, t', hcomputed, haccessed, hfree, books₄, blocks₄, hcached⟩ :=
    markAndFree_returns now owns carries hids
  have hall : (s₄.on .cpu).allBlockIndices = (m.blockAllocator.on .cpu).allBlockIndices :=
    (blocks₄ .cpu).trans ((BlockTable.allocate_advances _ _ _ _ _ _ halloc).blocks .cpu)
  rw [blockHashes_wholeBlocks] at hcached
  refine ⟨{ m with blockAllocator := s₄ }, ?_, hcached, ?_⟩
  · unfold registerMigratedCpuCache
    dsimp only
    rw [show tokenIds.take (tokenIds.length / p.blockSize * p.blockSize) = wholeBlocks p.toBlockParams tokenIds from rfl,
      if_neg hne, bind_eq (onBlocks_run halloc), bind_eq (fullBlockIds_run fun r hr => ?_)]
    · have hmap : (t.blocks.map s₁.idOf?).filterMap id = t.blocks.filterMap s₁.idOf? := by
        rw [List.filterMap_map]
        rfl
      dsimp only
      rw [hmap, when_pos hids, bind_assoc, bind_eq (onBlocks_run hcomputed), bind_eq (onBlocks_run haccessed),
        bind_eq (onBlocks_run hfree)]
      rfl
    · obtain ⟨h, -, c⟩ := exists_right_of_forall₂ carries hr
      exact isFull_of_carries (owns.chained.settled.remembers hr) c
  · show (s₄.on .cpu).getNumFreeBlocks = _
    rw [(books₄.accounts .cpu).numFree_eq (books₄.distinct .cpu), (books.accounts .cpu).numFree_eq (books.distinct .cpu), hall]

end ManagerM

namespace BlockSpaceManager
variable {p : ManagerParams} {m m' : BlockSpaceManager} {refs : List Ref} {live : List BlockRef}
  {tokenIds : List TokenId} {now : Int} {ops : List ManagerOp} {u : Unit}

/-- The CPU blocks have the references they had, as many are free, and the same hashes are cached. -/
structure CpuUnchanged (m m' : BlockSpaceManager) : Prop where
  refcounts : ∀ id, (m'.blockAllocator.on .cpu).refcounts.get? id = (m.blockAllocator.on .cpu).refcounts.get? id
  numFree : (m'.blockAllocator.on .cpu).getNumFreeBlocks = (m.blockAllocator.on .cpu).getNumFreeBlocks
  hashes : ∀ h, h ∈ (m'.blockAllocator.on .cpu).cachedBlocks ↔ h ∈ (m.blockAllocator.on .cpu).cachedBlocks

/-- A call that returns true has cached every full block at the cost of no free block, and any other one has
changed nothing. -/
def AllOrNothing (p : ManagerParams) (m : BlockSpaceManager) (tokenIds : List TokenId) (now : Int) : Prop :=
  let x := ManagerAttempt.registerMigratedCpuCache p tokenIds now m
  if x.1.toOption = some true then
    (∀ h ∈ blockHashes p.toBlockParams tokenIds, (x.2.blockAllocator.on .cpu).hashIsCached h = true) ∧
      (x.2.blockAllocator.on .cpu).getNumFreeBlocks = (m.blockAllocator.on .cpu).getNumFreeBlocks
  else CpuUnchanged m x.2

theorem allOrNothing_of_ok (hrun : ManagerAttempt.registerMigratedCpuCache p tokenIds now m = (.ok true, m')) :
    AllOrNothing p m tokenIds now ↔
      (∀ h ∈ blockHashes p.toBlockParams tokenIds, (m'.blockAllocator.on .cpu).hashIsCached h = true) ∧
        (m'.blockAllocator.on .cpu).getNumFreeBlocks = (m.blockAllocator.on .cpu).getNumFreeBlocks := by
  unfold AllOrNothing
  rw [hrun]
  exact Iff.of_eq (if_pos rfl)

theorem allOrNothing_of_not_ok
    (hraised : (ManagerAttempt.registerMigratedCpuCache p tokenIds now m).1.toOption ≠ some true) :
    AllOrNothing p m tokenIds now ↔ CpuUnchanged m (ManagerAttempt.registerMigratedCpuCache p tokenIds now m).2 :=
  Iff.of_eq (if_neg hraised)

theorem CpuUnchanged.of_pools (h : PoolsOnly m.blockAllocator m'.blockAllocator) : CpuUnchanged m m' := by
  refine ⟨fun id => ?_, ?_, fun h' => ?_⟩
  · rw [h]
  · rw [h]
    rfl
  · rw [h]

/-- A block that was taken and not given back. -/
theorem not_cpuUnchanged (books : m.blockAllocator.Books refs) (h : Spoils .cpu refs m'.blockAllocator) :
    ¬ CpuUnchanged m m' := by
  intro same
  obtain ⟨taken, books', id, hid, hpos⟩ := h
  have hcount := same.refcounts id
  rw [(books'.accounts .cpu).refcount, (books.accounts .cpu).refcount, if_pos hid] at hcount
  split at hcount
  · have hsum : numRefs (taken ++ refs) id = numRefs taken id + numRefs refs id := by
      unfold numRefs
      rw [List.map_append, List.count_append]
    have := Option.some.inj hcount
    omega
  · cases hcount

/-- The attempt stops where the allocation of the table does. -/
theorem registerMigratedCpuCache_raises (now : Int) {e : Raised} {s' : CpuGpuBlockAllocator} (hpos : 0 < numFullBlocks p.toBlockParams tokenIds)
    (h : BlockAttempt.allocate p.toBlockParams BlockTable.empty (wholeBlocks p.toBlockParams tokenIds) .cpu m.blockAllocator =
      (.error e, s')) :
    ManagerAttempt.registerMigratedCpuCache p tokenIds now m = (.error e, { m with blockAllocator := s' }) := by
  unfold ManagerAttempt.registerMigratedCpuCache
  dsimp only
  rw [show tokenIds.take (tokenIds.length / p.blockSize * p.blockSize) = wholeBlocks p.toBlockParams tokenIds from rfl,
    if_neg (wholeBlocks_ne_nil.mpr hpos)]
  exact Attempt.error_bind (Attempt.zoom_run h)

theorem allOrNothing_iff (ready : m.blockAllocator.Ready .cpu) (use : m.blockAllocator.InUse live)
    (books : m.blockAllocator.Books refs) : AllOrNothing p m tokenIds now ↔
      Fits p.toBlockParams .cpu tokenIds 0 (numFullBlocks p.toBlockParams tokenIds) m.blockAllocator ∨
        ¬ Starts p.toBlockParams .cpu tokenIds 0 m.blockAllocator := by
  by_cases fits : Fits p.toBlockParams .cpu tokenIds 0 (numFullBlocks p.toBlockParams tokenIds) m.blockAllocator
  · refine iff_of_true ?_ (.inl fits)
    rcases Nat.eq_zero_or_pos (numFullBlocks p.toBlockParams tokenIds) with hzero | hpos
    · have hnil : wholeBlocks p.toBlockParams tokenIds = [] := by
        by_contra hne
        exact absurd (wholeBlocks_ne_nil.mp hne) (by omega)
      have hrun : ManagerAttempt.registerMigratedCpuCache p tokenIds now m = (.ok false, m) := by
        unfold ManagerAttempt.registerMigratedCpuCache
        dsimp only
        rw [show tokenIds.take (tokenIds.length / p.blockSize * p.blockSize) = wholeBlocks p.toBlockParams tokenIds from rfl,
          if_pos hnil]
        rfl
      refine (allOrNothing_of_not_ok ?_).mpr ?_
      · rw [hrun]
        exact fun h => Bool.noConfusion (Option.some.inj h)
      · rw [hrun]
        exact .of_pools fun _ => rfl
    · obtain ⟨m', hrun, kept⟩ := ManagerM.registerMigratedCpuCache_returns now ready use books hpos fits
      exact (allOrNothing_of_ok ((ManagerAttempt.registerMigratedCpuCache_follows tokenIds now m).1 _ _ hrun)).mpr kept
  · have hpos : 0 < numFullBlocks p.toBlockParams tokenIds := by
      apply Nat.pos_of_ne_zero
      intro hzero
      rw [hzero] at fits
      exact fits fits_zero
    have hmod : (wholeBlocks p.toBlockParams tokenIds).length % p.blockSize = 0 := by
      rw [length_wholeBlocks]
      exact Nat.mul_mod_left _ _
    have fits' := fits
    rw [← fits_wholeBlocks, ← numFullBlocks_wholeBlocks] at fits'
    obtain ⟨e, s', halloc, spoils, still⟩ := BlockTable.allocate_raises ready use books hmod (wholeBlocks_ne_nil.mpr hpos) fits'
    rw [starts_wholeBlocks hpos] at spoils still
    have hrun := registerMigratedCpuCache_raises now hpos halloc
    rw [allOrNothing_of_not_ok (by rw [hrun]; exact (Option.some_ne_none true).symm), hrun]
    constructor
    · intro same
      refine .inr fun starts => ?_
      refine not_cpuUnchanged books ?_ same
      exact spoils starts
    · intro h
      exact .of_pools (still (h.resolve_left fits))

/-! ## Over runs -/

/-- A pool has objects if the device has blocks. -/
theorem run_pooled (hrun : run p ops (init p) = some (u, m)) (d : Device)
    (hne : (m.blockAllocator.on d).allBlockIndices ≠ []) : 0 < (m.blockAllocator.pool d).poolSize := by
  have grows := (run_upkeep ops _ _ _ hrun).grows
  rw [grows.blocks] at hne
  refine lt_of_lt_of_le ?_ (grows.sizes d)
  have hsize (ids : List BlockId) (hids : ids ≠ []) : 0 < (BlockPool.init (ids.length * 4)).poolSize := by
    have hlen := List.length_pos_of_ne_nil hids
    rw [BlockPool.poolSize, BlockPool.init, List.length_replicate]
    omega
  cases d with
  | gpu => exact hsize _ hne
  | cpu => exact hsize _ hne

/-- As long as no object has gone back to the wrong pool and no stale entry has collided. -/
theorem run_ready (hrun : run p ops (init p) = some (u, m)) (hstray : ¬ m.blockAllocator.Stray)
    (hcollided : ¬ m.blockAllocator.Collided) (d : Device) : m.blockAllocator.Ready d := by
  obtain ⟨tabs, lost, held⟩ := run_accounted hrun fun hs => absurd hs hstray
  exact ⟨run_pooled hrun d, hstray, held.tables.faithful hcollided d⟩

end BlockSpaceManager

end CoreFlow
