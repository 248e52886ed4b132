import CoreFlow.Block.Marks
import CoreFlow.Manager.Owners

/-!
# The tables of the block manager

`Tables` is what the block allocators hold for a list of tables: every table lists its own objects, the
objects of all tables are in use and different, and every reference on the books is a block that a table
lists or one in `lost`, which a swap has dropped from its table. `Accounted` says it of the tables of the
manager.
-/

namespace CoreFlow
open Prog

/-- A sequence, its table, and the objects that were made for the table. -/
abbrev Owner := SeqId × BlockTable × List BlockRef

def objects (tabs : List Owner) : List BlockRef := tabs.flatMap (·.2.2)

namespace CpuGpuBlockAllocator

/-- The references that the tables hold. -/
def refsHeld (s : CpuGpuBlockAllocator) (tabs : List Owner) : List Ref := tabs.flatMap fun x => s.refsOf x.2.1.blocks

structure Tables (p : BlockParams) (s : CpuGpuBlockAllocator) (tabs : List Owner) (lost : List Ref) : Prop where
  lists : ∀ x ∈ tabs, Lists p s x.2.1.blocks x.2.1.blockIds (x.2.1.numFullSlots / p.blockSize) x.2.2
  inUse : s.InUse (objects tabs)
  books : s.Books (s.refsHeld tabs ++ lost)
  faithful : ¬ s.Collided → ∀ d, (s.on d).evictor.Faithful

section
variable {p : BlockParams} {s s' s₁ : CpuGpuBlockAllocator} {tabs tabs' : List Owner} {lost : List Ref} {k : SeqId}
  {t t' : BlockTable} {full full' : List BlockRef} {tokenIds : List TokenId} {d : Device}

theorem Tables.perm (h : Tables p s tabs lost) (hp : tabs.Perm tabs') : Tables p s tabs' lost :=
  ⟨fun x hx => h.lists x (hp.mem_iff.mpr hx), h.inUse.perm (hp.flatMap_right _),
    h.books.perm ((hp.flatMap_right _).append_right lost), h.faithful⟩

/-- One of the tables, apart from the others. -/
theorem Tables.focus (h : Tables p s ((k, t, full) :: tabs) lost) :
    Owns p s t.blocks t.blockIds (t.numFullSlots / p.blockSize) full (objects tabs) (s.refsHeld tabs ++ lost) := by
  refine ⟨h.lists _ List.mem_cons_self, h.inUse, ?_⟩
  have := h.books
  rwa [refsHeld, List.flatMap_cons, List.append_assoc] at this

/-- Operations that leave the objects of the tables alone. -/
theorem Tables.frame (h : ∀ x ∈ tabs, Lists p s x.2.1.blocks x.2.1.blockIds (x.2.1.numFullSlots / p.blockSize) x.2.2)
    (same : ∀ q ∈ objects tabs, s'.block? q = s.block? q) :
    (∀ x ∈ tabs, Lists p s' x.2.1.blocks x.2.1.blockIds (x.2.1.numFullSlots / p.blockSize) x.2.2) ∧
      s'.refsHeld tabs = s.refsHeld tabs := by
  have hsame (x : Owner) (hx : x ∈ tabs) (q : BlockRef) (hq : q ∈ x.2.2) : s'.block? q = s.block? q :=
    same q (List.mem_flatMap.mpr ⟨x, hx, hq⟩)
  refine ⟨fun x hx => (h x hx).same (hsame x hx), ?_⟩
  have hrefs : ∀ x ∈ tabs, s'.refsOf x.2.1.blocks = s.refsOf x.2.1.blocks := fun x hx =>
    refsOf_same fun q hq => hsame x hx q ((h x hx).listed.subset hq)
  rw [refsHeld, refsHeld, List.flatMap_def, List.flatMap_def, List.map_congr_left hrefs]

/-- The table goes back to the others. -/
theorem Owns.unfocus (h : Owns p s' t.blocks t.blockIds (t.numFullSlots / p.blockSize) full (objects tabs) (s.refsHeld tabs ++ lost))
    (lists : ∀ x ∈ tabs, Lists p s x.2.1.blocks x.2.1.blockIds (x.2.1.numFullSlots / p.blockSize) x.2.2)
    (same : ∀ q ∈ objects tabs, s'.block? q = s.block? q) (faithful : ¬ s'.Collided → ∀ d, (s'.on d).evictor.Faithful) :
    Tables p s' ((k, t, full) :: tabs) lost := by
  obtain ⟨lists', refs⟩ := Tables.frame lists same
  refine ⟨fun x hx => ?_, h.inUse, ?_, faithful⟩
  · rcases List.mem_cons.mp hx with rfl | hx
    · exact h.toLists
    · exact lists' x hx
  · have := h.books
    rw [← refs] at this
    rwa [refsHeld, List.flatMap_cons, List.append_assoc]

theorem Tables.evictors (h : Tables p s tabs lost) (adv : Advances s s') (hno : ¬ s'.Collided) :
    ∀ d, (s'.on d).evictor.Faithful :=
  adv.evictors hno (h.faithful (not_collided adv.events hno))

theorem Tables.still (h : Tables p s tabs lost) (still : Still s s') (adv : Advances s s') : Tables p s' tabs lost := by
  obtain ⟨lists, refs⟩ := Tables.frame h.lists fun q _ => still.block q
  exact ⟨lists, still.inUse h.inUse, refs ▸ still.books h.books, h.evictors adv⟩

/-- The blocks of a table have references. -/
theorem refsHeld_pos {x : Owner} {r : BlockRef} {id : BlockId} (hx : x ∈ tabs) (hr : r ∈ x.2.1.blocks)
    (hid : s.idOf? r = some id) : 0 < numRefs (s.refsHeld tabs ++ lost) id := by
  obtain ⟨b, hb, hid⟩ := Option.bind_eq_some_iff.mp hid
  have href : (id, b.cachedContentHash) ∈ s.refsOf x.2.1.blocks := List.mem_filterMap.mpr ⟨r, hr, refOf_eq hb hid⟩
  exact numRefs_pos (List.mem_append_left lost (List.mem_flatMap.mpr ⟨x, hx, href⟩))

theorem Tables.referenced (h : Tables p s tabs lost) {x : Owner} (hx : x ∈ tabs) :
    ∀ id ∈ x.2.1.blockIds, 0 < numRefs (s.refsHeld tabs ++ lost) id := by
  intro id hid
  have hmem : some id ∈ x.2.1.blocks.map s.idOf? := by
    rw [(h.lists x hx).ids]
    exact List.mem_map_of_mem hid
  obtain ⟨r, hr, hid⟩ := List.mem_map.mp hmem
  exact refsHeld_pos hx hr hid

/-! ## Operations on one table -/

theorem Tables.empty (h : Tables p s tabs lost) (k : SeqId) : Tables p s ((k, BlockTable.empty, []) :: tabs) lost :=
  Owns.unfocus (t := BlockTable.empty) (Owns.nil h.inUse h.books) h.lists (fun _ _ => rfl) h.faithful

theorem Tables.allocate (h : Tables p s tabs lost) (ok : s'.Harmless)
    (hrun : BlockTable.empty.allocate p tokenIds d s = some (t, s')) : Tables p s' ((k, t, t.blocks) :: tabs) lost := by
  obtain ⟨owns, same⟩ := BlockTable.allocate_owns h.inUse h.books ok hrun
  exact owns.unfocus h.lists same (h.evictors (BlockTable.allocate_advances _ _ _ _ _ _ hrun))

theorem Tables.append {n : Nat} (h : Tables p s ((k, t, full) :: tabs) lost) (ok : s'.Harmless)
    (hrun : t.appendTokenIds p tokenIds n s = some (t', s')) :
    ∃ full', Tables p s' ((k, t', full') :: tabs) lost := by
  obtain ⟨full', owns, same⟩ := BlockTable.appendTokenIds_owns h.focus ok hrun
  exact ⟨full', owns.unfocus (fun x hx => h.lists x (List.mem_cons_of_mem _ hx)) same
    (h.evictors (BlockTable.appendTokenIds_advances _ _ _ _ _ _ hrun))⟩

/-- A swap leaves the table with the selected objects, which are full. -/
theorem Tables.swap {selected : List BlockRef} {mapping : Dict BlockId BlockId} {src dst : Device}
    (h : Tables p s ((k, t, full) :: tabs) lost) (hsub : selected.Sublist t.blocks)
    (hfull : ∀ r ∈ selected, ∀ b, s.block? r = some b → b.isFull p = true) (ok : s₁.Harmless)
    (hrun : BlockM.swap p selected src dst s = some (mapping, s₁)) (hupdate : t.update selected s₁ = some (t', s')) :
    Tables p s' ((k, t', full) :: tabs) (s.refsOf (t.blocks.filter (· ∉ selected)) ++ lost) := by
  obtain ⟨hs, ht, hids⟩ := BlockTable.update_reads hupdate
  obtain ⟨owns, same⟩ := h.focus.swap hsub hfull ok hrun hids
  rw [hs]
  refine Owns.unfocus ⟨?_, owns.inUse, owns.books.perm ?_⟩ (fun x hx => h.lists x (List.mem_cons_of_mem _ hx)) same
    (h.evictors (BlockM.swap_advances _ _ _ hrun))
  · rw [ht]
    exact owns.toLists
  · rw [ht]
    refine List.Perm.append_left _ ?_
    rw [← List.append_assoc, ← List.append_assoc]
    exact List.perm_append_comm.append_right lost

/-- The objects of a table that is to be freed; the ids that it lists can be old ones. -/
structure Loose (p : BlockParams) (s : CpuGpuBlockAllocator) (blocks full : List BlockRef) (tabs : List Owner)
    (lost : List Ref) : Prop where
  chained : s.Chained p full
  listed : blocks.Sublist full
  inUse : s.InUse (full ++ objects tabs)
  books : s.Books (s.refsOf blocks ++ (s.refsHeld tabs ++ lost))
  lists : ∀ x ∈ tabs, Lists p s x.2.1.blocks x.2.1.blockIds (x.2.1.numFullSlots / p.blockSize) x.2.2
  faithful : ¬ s.Collided → ∀ d, (s.on d).evictor.Faithful

theorem Tables.loose (h : Tables p s ((k, t, full) :: tabs) lost) : Loose p s t.blocks full tabs lost :=
  ⟨h.focus.chained, h.focus.listed, h.focus.inUse, h.focus.books, fun x hx => h.lists x (List.mem_cons_of_mem _ hx), h.faithful⟩

theorem Loose.still {blocks : List BlockRef} (h : Loose p s blocks full tabs lost) (still : Still s s') (adv : Advances s s') :
    Loose p s' blocks full tabs lost := by
  obtain ⟨lists, refs⟩ := Tables.frame h.lists fun q _ => still.block q
  refine ⟨h.chained.same fun q _ => still.block q, h.listed, still.inUse h.inUse, ?_, lists, fun hno => ?_⟩
  · rw [refs, refsOf_same fun q _ => still.block q]
    exact still.books h.books
  · exact adv.evictors hno (h.faithful (not_collided adv.events hno))

theorem Loose.free (h : Loose p s t.blocks full tabs lost) (hrun : t.free p s = some (t', s')) : Tables p s' tabs lost := by
  obtain ⟨use, books, same⟩ := BlockTable.free_releases h.chained h.listed h.inUse h.books hrun
  obtain ⟨lists, refs⟩ := Tables.frame h.lists same
  have adv := BlockTable.free_advances _ _ _ _ hrun
  exact ⟨lists, use, refs ▸ books, fun hno => adv.evictors hno (h.faithful (not_collided adv.events hno))⟩

theorem Tables.free (h : Tables p s ((k, t, full) :: tabs) lost) (hrun : t.free p s = some (t', s')) :
    Tables p s' tabs lost := h.loose.free hrun

/-- The references of the objects after the first `n` of a table, apart from the others. -/
theorem Tables.booksDrop (h : Tables p s ((k, t, full) :: tabs) lost) (n : Nat) :
    s.Books (s.refsOf (t.blocks.drop n) ++ (s.refsOf (t.blocks.take n) ++ (s.refsHeld tabs ++ lost))) := by
  refine h.focus.books.perm ?_
  conv_lhs => rw [← List.take_append_drop n t.blocks, refsOf_append]
  rw [← List.append_assoc (s.refsOf (t.blocks.drop n))]
  exact List.perm_append_comm.append_right _

/-- The objects after the first `n` of a table get blocks of the other device. -/
theorem Tables.swapDrop {n : Nat} {mapping : Dict BlockId BlockId} {src dst : Device}
    (h : Tables p s ((k, t, t.blocks) :: tabs) lost) (ok : s'.Harmless)
    (hrun : BlockM.swap p (t.blocks.drop n) src dst s = some (mapping, s')) : Loose p s' t.blocks t.blocks tabs lost := by
  have owns := h.focus
  have nodup : t.blocks.Nodup := owns.inUse.nodup.of_append_left
  have hsub (q : BlockRef) (hq : q ∈ t.blocks.drop n) : q ∈ t.blocks := List.mem_of_mem_drop hq
  have hsplit : (t.blocks.take n ++ t.blocks.drop n).Nodup := by rwa [List.take_append_drop]
  obtain ⟨use, books', same, objects'⟩ := BlockM.swap_swaps hsub (nodup.sublist (List.drop_sublist n _)) owns.inUse
    owns.chained.settled (fun q hq => List.mem_append_left _ hq) (h.booksDrop n) ok hrun
  have kept (q : BlockRef) (hq : q ∈ t.blocks.take n) : s'.block? q = s.block? q :=
    same q (List.mem_append_left _ (List.mem_of_mem_take hq)) fun hin => List.disjoint_of_nodup_append hsplit hq hin
  have others (q : BlockRef) (hq : q ∈ objects tabs) : s'.block? q = s.block? q :=
    same q (List.mem_append_right _ hq) fun hin => List.disjoint_of_nodup_append owns.inUse.nodup (hsub q hin) hq
  obtain ⟨lists, refs⟩ := Tables.frame (fun x hx => h.lists x (List.mem_cons_of_mem _ hx)) others
  refine ⟨owns.chained.content fun q hq => ?_, List.Sublist.refl _, use, ?_, lists,
    h.evictors (BlockM.swap_advances _ _ _ hrun)⟩
  · unfold content?
    by_cases hin : q ∈ t.blocks.drop n
    · obtain ⟨b, hb⟩ := owns.inUse.present q (List.mem_append_left _ hq)
      obtain ⟨id, hb'⟩ := objects' q hin b hb
      rw [hb', hb]
      rfl
    · rw [same q (List.mem_append_left _ hq) hin]
  · rw [refs]
    refine books'.perm ?_
    conv_rhs => rw [← List.take_append_drop n t.blocks, refsOf_append, refsOf_same kept]
    rw [← List.append_assoc]
    exact List.perm_append_comm.append_right _

end

end CpuGpuBlockAllocator

end CoreFlow
