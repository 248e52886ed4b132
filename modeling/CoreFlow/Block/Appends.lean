import CoreFlow.Block.Room

/-!
# Room for appended tokens

Only `ensure_num_empty_slots` takes blocks: tokens go to objects that share their block with nobody, so no append
copies one. The count of touched blocks is enough for it.
-/

namespace CoreFlow
open Prog

namespace BlockAttempt
open Attempt CpuGpuBlockAllocator
variable {p : BlockParams} {s s' : CpuGpuBlockAllocator} {t : BlockTable} {last : Nat} {full rest : List BlockRef} {refs : List Ref}
  {r : BlockRef} {b : Block} {blockId : BlockId} {tokenIds : List TokenId}

/-! ## New blocks -/

/-- A free block for each one that is appended. -/
theorem appendBlocks_avoids {n : Nat} (h : Owns p s t.blocks t.blockIds last full rest refs)
    (room : n ≤ (s.on .gpu).getNumFreeBlocks) : AvoidsUnless Harmless .noFreeBlocks (appendBlocks p t n) s := by
  induction n generalizing t s full with
  | zero => exact fun _ => .pure _
  | succ n ih =>
    refine .step other_ne fun _ s₁ hreq => ?_
    rw [(require_iff.mp hreq).2]
    refine .bind (fun _ => allocateMutableBlock_avoids (by omega)) (fun r => .bind (step_detects (.bind
      (BlockM.getBlock_advances r) fun _ => .ofOption _)) fun id => appendBlocks_detects _ n) fun r s₁ hr ok₁ => ?_
    refine .step other_ne fun id s₂ hid => ?_
    have hr := (allocateMutableBlock_follows .gpu _).returns hr
    obtain ⟨hs, hid⟩ := BlockTable.idOf_reads hid
    rw [hs]
    have cr := BlockM.allocateMutableBlock_creates h.inUse h.books ok₁ hr
    obtain ⟨id', hid', h₁⟩ := h.extend cr (fun q hq => h.listed.subset (BlockTable.getLast?_mem hq)) fun _ => rfl
    obtain rfl := Option.some.inj (hid.symm.trans hid')
    obtain ⟨id₀, b, fresh⟩ := BlockM.allocateMutableBlock_fresh h.inUse h.books ok₁ hr
    have htake := PrefixCachingBlockAllocator.numFree_takeNew (h.books.accounts .gpu) (fresh.books.accounts .gpu)
      (fresh.blocks .gpu) (h.books.distinct .gpu) fresh.here
    exact ih h₁ (by omega)

/-! ## Appended tokens -/

/-- A block that only one object refers to is not copied. -/
theorem cowBlockIfNotAppendable_avoids {d : Device} (hb : s.block? r = some b) (hid : b.blockId = some blockId)
    (books : s.Books ((blockId, none) :: refs)) : Avoids .noFreeBlocks (cowBlockIfNotAppendable p d r) s := by
  refine .step other_ne fun b' s₁ hget => ?_
  obtain ⟨hb', hs⟩ := BlockM.getBlock_iff.mp hget
  obtain rfl := Option.some.inj (hb.symm.trans hb')
  rw [hs]
  refine .step other_ne fun id s₂ ho => ?_
  obtain ⟨hid', hs⟩ := ofOption_iff.mp ho
  obtain rfl := Option.some.inj (hid.symm.trans hid')
  rw [hs]
  refine .step other_ne fun n s₃ hn => ?_
  obtain ⟨hn, hs⟩ := BlockM.refcount_iff.mp hn
  obtain ⟨hin, hcount⟩ := (books.accounts d).numRefs_of_get? hn
  rw [if_pos (hcount.trans ((books.accounts d).mutable blockId List.mem_cons_self hin).1).le]
  exact .pure _

theorem appendTokenIds_avoids_held (hb : s.block? r = some b) (hid : b.blockId = some blockId)
    (hheld : b.cachedContentHash = s.derivedHash p b) (books : s.Books ((blockId, b.cachedContentHash) :: refs)) :
    Avoids .noFreeBlocks (appendTokenIds p r tokenIds) s := by
  refine .step other_ne fun o s₁ hhash => ?_
  obtain ⟨ho, hs⟩ := BlockM.contentHash_remembers hb hheld hhash
  rw [hs]
  refine .step other_ne fun _ s₁ hreq => ?_
  obtain ⟨hnone, hs⟩ := require_iff.mp hreq
  rw [ho.symm.trans hnone] at books
  rw [hs]
  refine .step other_ne fun b' s₁ hget => ?_
  rw [(BlockM.getBlock_iff.mp hget).2]
  refine .step other_ne fun _ s₁ hreq => ?_
  rw [(require_iff.mp hreq).2]
  refine .ite (fun _ => .pure _) fun _ => .step other_ne fun _ s₁ hreq => ?_
  rw [(require_iff.mp hreq).2]
  refine .step other_ne fun _ s₁ hset => .bind ?_ fun _ _ _ => .step other_ne fun _ _ _ => .step other_ne fun o _ _ => ?_
  · have eff := BlockM.modifyBlock_run hset r.device
    refine .ite (fun _ => .bind ?_ fun _ _ _ => .lift other_ne) fun _ => .pure _
    exact cowBlockIfNotAppendable_avoids (eff.object hb) hid (books.quiet eff)
  · cases o with
    | none => exact .pure _
    | some h => exact .step other_ne fun _ _ _ => .lift other_ne

theorem appendToBlock_avoids {i : Nat} (h : Owns p s t.blocks t.blockIds last full rest refs) :
    Avoids .noFreeBlocks (appendToBlock p t i tokenIds) s := by
  refine .step other_ne fun r s₁ hr => ?_
  obtain ⟨hr, hs⟩ := ofOption_iff.mp hr
  rw [hs]
  refine .step other_ne fun b s₁ hb => ?_
  obtain ⟨hb, hs⟩ := BlockM.getBlock_iff.mp hb
  rw [hs]
  have hmem := List.mem_of_getElem? hr
  obtain ⟨b', hb', hheld, -⟩ := h.chained r (h.listed.subset hmem)
  obtain rfl := Option.some.inj (hb.symm.trans hb')
  obtain ⟨id, -, hid⟩ := h.id_at hr
  unfold idOf? at hid
  rw [hb, Option.bind_some] at hid
  have books : s.Books ((id, b.cachedContentHash) :: (s.refsOf (t.blocks.erase r) ++ refs)) := by
    refine h.books.perm ?_
    have := refsOf_perm (s := s) (List.perm_cons_erase hmem)
    rw [refsOf, refsOf, List.filterMap_cons_some (refOf_eq hb hid)] at this
    exact this.append_right refs
  refine .bind (appendTokenIds_avoids_held hb hid hheld books) fun _ _ _ => .step other_ne fun b' _ _ => ?_
  exact .ite (fun _ => .step other_ne fun _ _ _ => .pure _) fun _ => .pure _

/-- No chunk of the tokens takes a block. -/
theorem appendTokenBlocks_avoids {i : Nat} {chunks : List (List TokenId)} (h : Owns p s t.blocks t.blockIds last full rest refs)
    (hle : i + chunks.length ≤ last + 1)
    (hafter : ∀ j q c, t.blocks[j]? = some q → i < j → s.block? q = some c → c.tokenIds = []) :
    Avoids .noFreeBlocks (appendTokenBlocks p t i chunks) s := by
  induction chunks generalizing t s i with
  | nil => exact .pure t
  | cons c chunks ih =>
    refine .bind (appendToBlock_avoids h) fun t₁ s₁ hc => ?_
    have hc := (appendToBlock_follows t i c).returns hc
    rw [List.length_cons] at hle
    obtain ⟨h₁, hblocks, -, r, hr, same⟩ := BlockTable.appendToBlock_owns h (by omega) hafter hc
    refine ih h₁ (by omega) fun j q b hj hlt hb => ?_
    rw [hblocks] at hj
    rw [same q (h.ne_of_index hr hj (by omega))] at hb
    exact hafter j q b hj (by omega) hb

/-- The count of touched blocks is enough for a table that has lost no block. -/
theorem new_le_touched (whole : 0 ≤ t.numEmptySlots p) {n : Nat} (hn : ¬ ((tokenIds.length + n : Nat) : Int) ≤ t.numEmptySlots p) :
    (cdiv (((tokenIds.length + n : Nat) : Int) - t.numEmptySlots p).toNat p.blockSize : Int) ≤
      t.getNumBlocksTouchedByAppendSlots p tokenIds n := by
  have hpos : (0 : Int) < p.blockSize := Int.natCast_pos.mpr p.pos
  unfold BlockTable.getNumBlocksTouchedByAppendSlots
  dsimp only
  generalize ((tokenIds.length + n : Nat) : Int) = k at hn ⊢
  generalize t.numEmptySlots p = empty at whole hn ⊢
  have hfirst : ((p.blockSize - t.numFullSlots % p.blockSize : Nat) : Int) ≤ p.blockSize :=
    Int.ofNat_le.mpr (Nat.sub_le _ _)
  generalize ((p.blockSize - t.numFullSlots % p.blockSize : Nat) : Int) = first at hfirst ⊢
  -- the touched blocks have the slots
  have slots : k ≤ (1 - (first - k) / p.blockSize) * p.blockSize := by
    have := Int.ediv_mul_le (first - k) hpos.ne'
    rw [Int.sub_mul, Int.one_mul]
    omega
  generalize 1 - (first - k) / (p.blockSize : Int) = touched at slots ⊢
  obtain ⟨c, rfl⟩ : ∃ c : Nat, touched = c := by
    refine Int.eq_ofNat_of_zero_le (le_of_not_gt fun hneg => ?_)
    have := Int.mul_nonpos_of_nonpos_of_nonneg hneg.le hpos.le
    omega
  refine Int.ofNat_le.mpr ((Nat.div_le_iff_le_mul_add_pred p.pos).mpr ?_)
  rw [← Int.natCast_mul] at slots
  rw [Nat.mul_comm p.blockSize]
  omega

theorem appendToTable_avoids {n : Nat} (h : Owns p s t.blocks t.blockIds (t.numFullSlots / p.blockSize) full rest refs)
    (whole : 0 ≤ t.numEmptySlots p)
    (room : t.getNumBlocksTouchedByAppendSlots p tokenIds n ≤ (s.on .gpu).getNumFreeBlocks) :
    AvoidsUnless Harmless .noFreeBlocks (appendToTable p t tokenIds n) s := by
  refine .step other_ne fun _ s₁ hreq => ?_
  rw [(require_iff.mp hreq).2]
  refine .bind (.step other_ne fun _ s₁ hreq => ?_) (fun t => .bind (appendTokenBlocks_detects t _ _) fun _ => .pure _)
    fun t₁ s₁ hensure ok₁ => ?_
  · rw [(require_iff.mp hreq).2]
    refine .ite (fun _ _ => .pure _) fun hn => appendBlocks_avoids h ?_
    exact Int.ofNat_le.mp ((new_le_touched whole hn).trans room)
  · obtain ⟨full', h₁, hslots, -⟩ := BlockTable.ensureNumEmptySlots_owns h ok₁ ((ensureNumEmptySlots_follows t _).returns hensure)
    rw [← hslots] at h₁
    have hle := BlockTable.length_chunkTokenBlocksForAppend (p := p) t₁ tokenIds
    refine fun _ => .bind (appendTokenBlocks_avoids (h₁.later (Nat.div_le_div_right (Nat.le_add_right _ _))) hle h₁.empty)
      fun _ _ _ => .pure _

end BlockAttempt

end CoreFlow
