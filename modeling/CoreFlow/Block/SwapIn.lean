import CoreFlow.Block.Room

/-!
# Enough room for a swap

A full block that is swapped to a device shares the block that is in use there under its hash, or takes a free one.
With a free block for each hash that is not in use a swap does not raise `NoFreeBlocksError`.
-/

namespace CoreFlow
open Prog

namespace BlockM
open CpuGpuBlockAllocator
variable {p : BlockParams} {d : Device} {r : BlockRef} {s s' : CpuGpuBlockAllocator} {live known blocks : List BlockRef}
  {refs : List Ref} {b : Block} {h : PrefixHash} {u : Unit}

/-- The hashes that the objects hold. -/
def heldHashes (s : CpuGpuBlockAllocator) (blocks : List BlockRef) : List PrefixHash :=
  blocks.filterMap fun r => (s.block? r).bind (·.cachedContentHash)

theorem heldHashes_content (same : ∀ r ∈ blocks, s'.content? r = s.content? r) :
    heldHashes s' blocks = heldHashes s blocks := by
  have held (s : CpuGpuBlockAllocator) (r : BlockRef) :
      (s.block? r).bind (·.cachedContentHash) = (s.content? r).bind (·.2.2) := by
    unfold content?
    cases s.block? r with
    | none => rfl
    | some b => rfl
  unfold heldHashes
  apply List.filterMap_congr
  intro r hr
  rw [held, held, same r hr]

theorem newHash_held (hb : s.block? r = some b) (settled : s.Settled p known) (hr : r ∈ known) :
    newHash p s b.prevBlock b.tokenIds = b.cachedContentHash ∧ ∀ q, b.prevBlock = some q → q ∈ known := by
  obtain ⟨b', hb', hheld, hprev⟩ := settled r hr
  obtain rfl := Option.some.inj (hb.symm.trans hb')
  exact ⟨(hheld.trans (derivedHash_congr rfl rfl rfl)).symm, hprev⟩

/-- What the swap of one full block takes. -/
structure SwapsIn (d : Device) (live : List BlockRef) (refs : List Ref) (r : BlockRef) (h : PrefixHash)
    (s s' : CpuGpuBlockAllocator) : Prop where
  inUse : s'.InUse live
  blocks : ∀ e, (s'.on e).allBlockIndices = (s.on e).allBlockIndices
  content : ∀ q ∈ live, s'.content? q = s.content? q
  taken : ∃ id ∈ (s.on d).allBlockIndices, s'.Books ((id, some h) :: refs)

theorem swapInBlock_took (use : s.InUse live) (settled : s.Settled p known) (hknown : ∀ q ∈ known, q ∈ live)
    (books : s.Books refs) (hr : r ∈ known) (hb : s.block? r = some b) (hfull : b.isFull p = true) (ok : s'.Harmless)
    (hrun : swapInBlock p d r s = some (u, s')) :
    ∃ h, b.cachedContentHash = some h ∧ SwapsIn d live refs r h s s' := by
  obtain ⟨use', id, books', object, same⟩ := swapInBlock_swaps use settled hknown books hr hb ok hrun
  obtain ⟨hheld, hprev⟩ := newHash_held hb settled hr
  have blocks := (swapInBlock_advances p d r _ _ _ hrun).blocks
  unfold swapInBlock at hrun
  rw [bind_eq (getBlock_run hb), if_pos hfull] at hrun
  obtain ⟨tmp, s₁, htmp, hrun⟩ := bind_iff.mp hrun
  obtain ⟨t, _, hget, hrun⟩ := bind_iff.mp hrun
  obtain ⟨hget, hs⟩ := getBlock_iff.mp hget
  rw [hs] at hrun
  obtain ⟨_, s₂, hput, hset⟩ := bind_iff.mp hrun
  have ok₁ := (ok.advances (setBlockId_advances r _ _ _ _ hset)).advances (freeBlock_advances d tmp _ _ _ hput)
  obtain ⟨⟨h, hh⟩, id', hid', hin⟩ := allocateImmutableBlock_here use books settled hknown hprev ok₁ htmp
  rw [hheld] at hh
  refine ⟨h, hh, use', blocks, fun q hq => ?_, id, ?_, hh ▸ books'⟩
  · unfold content?
    by_cases hqr : q = r
    · rw [hqr, object, hb]
      rfl
    · rw [same q hq hqr]
  · have hid : t.blockId = some id' := by
      unfold idOf? at hid'
      rwa [hget] at hid'
    obtain ⟨b₂, hb₂⟩ : ∃ b₂, s₂.block? r = some b₂ := by
      cases hb₂ : s₂.block? r with
      | none =>
        have := (modifyBlock_run hset d).objects r
        rw [if_pos rfl, hb₂, object] at this
        cases this
      | some b₂ => exact ⟨b₂, rfl⟩
    have hnew := (modifyBlock_run hset d).object hb₂
    rw [object, Option.some.injEq] at hnew
    have hsame := congrArg (·.blockId) hnew
    dsimp only at hsame
    rw [hid] at hsame
    obtain rfl := Option.some.inj hsame
    exact hin

theorem SwapsIn.numFree (w : SwapsIn d live refs r h s s') (books : s.Books refs) :
    (s'.on d).getNumFreeBlocks + (if (s.on d).hashInUse h then 0 else 1) = (s.on d).getNumFreeBlocks := by
  obtain ⟨id, hin, books'⟩ := w.taken
  exact PrefixCachingBlockAllocator.numFree_take (books.accounts d) (books'.accounts d) (w.blocks d) (books.distinct d) hin

theorem SwapsIn.numToTake (w : SwapsIn d live refs r h s s') (books : s.Books refs) (hashes : List PrefixHash) :
    (s.on d).numToTake (h :: hashes) = (s'.on d).numToTake hashes + if (s.on d).hashInUse h then 0 else 1 := by
  obtain ⟨id, hin, books'⟩ := w.taken
  exact PrefixCachingBlockAllocator.numToTake_cons fun _ => PrefixCachingBlockAllocator.hashInUse_take (books.accounts d)
    (books'.accounts d) (w.blocks d) hin

/-! ## The other device -/

theorem swapOut_here (nodup : blocks.Nodup) (hr : ∀ r ∈ blocks, s.Remembers p r) (books : s.Books (s.refsOf blocks ++ refs))
    (hrun : swapOut p d blocks s = some (u, s')) : ∀ x ∈ s.refsOf blocks, x.1 ∈ (s.on d).allBlockIndices := by
  induction blocks generalizing s with
  | nil => exact fun x hx => absurd hx List.not_mem_nil
  | cons r blocks ih =>
    obtain ⟨s₁, hfree, hrun⟩ := forM_cons_iff.mp hrun
    obtain ⟨hnot, hnodup⟩ := List.nodup_cons.mp nodup
    rw [show r :: blocks = [r] ++ blocks from rfl, refsOf_append, List.append_assoc] at books
    obtain ⟨quiet, books₁⟩ := freeBlockId_releases (hr r List.mem_cons_self) books hfree
    have content (q : BlockRef) : s₁.content? q = s.content? q := by
      unfold content?
      rw [quiet.objects]
      split
      · rw [Option.map_map]
        rfl
      · rfl
    have hrefs : s₁.refsOf blocks = s.refsOf blocks := refsOf_same fun q hq => quiet.object_ne (by rintro rfl; exact hnot hq)
    rw [← hrefs] at books₁
    have hrest := ih hnodup (fun q hq => (hr q (List.mem_cons_of_mem _ hq)).content content) books₁ hrun
    rw [hrefs, (freeBlockId_advances p d r _ _ _ hfree).blocks] at hrest
    rw [show r :: blocks = [r] ++ blocks from rfl, refsOf_append]
    intro x hx
    rcases List.mem_append.mp hx with hx | hx
    · obtain ⟨b, hb, hheld⟩ := hr r List.mem_cons_self
      obtain ⟨q, hq, hx⟩ := List.mem_filterMap.mp hx
      rw [List.mem_singleton.mp hq] at hx
      obtain ⟨b', hb', hx⟩ := Option.bind_eq_some_iff.mp hx
      obtain rfl := Option.some.inj (hb.symm.trans hb')
      obtain ⟨id, hid, rfl⟩ := Option.map_eq_some_iff.mp hx
      rw [refsOf, List.filterMap_cons_some (refOf_eq hb hid), List.filterMap_nil] at books
      exact (freeBlockId_books hb hid hheld books hfree).2.2
    · exact hrest x hx

/-- Blocks that leave one device change nothing on the other. -/
theorem swapOut_elsewhere {e : Device} (hne : d ≠ e) (nodup : blocks.Nodup) (hr : ∀ r ∈ blocks, s.Remembers p r)
    (books : s.Books (s.refsOf blocks ++ refs)) (hrun : swapOut p d blocks s = some (u, s')) :
    (s'.on e).getNumFreeBlocks = (s.on e).getNumFreeBlocks ∧
      ∀ hashes, (s'.on e).numToTake hashes = (s.on e).numToTake hashes := by
  have released : (s.InUse [] → s'.InUse []) ∧ s'.Books refs ∧ _ := forM_freeBlockId_releases nodup hr books hrun
  have books' := released.2.1
  have hall := (Within.forM (fun r => freeBlockId_advances p d r) blocks _ _ _ hrun).blocks e
  have acc : (s.on e).Accounts refs := (PrefixCachingBlockAllocator.Accounts.others fun x hx hin =>
    books.not_mem (swapOut_here nodup hr books hrun x hx) hne hin).mp (books.accounts e)
  exact ⟨acc.numFree_congr (books'.accounts e) hall (books.distinct e), fun hashes =>
    PrefixCachingBlockAllocator.numToTake_congr fun _ _ => acc.hashInUse_congr (books'.accounts e) hall⟩

end BlockM

namespace BlockAttempt
open CpuGpuBlockAllocator Attempt BlockM
variable {p : BlockParams} {d : Device} {r : BlockRef} {s s' : CpuGpuBlockAllocator} {live known blocks : List BlockRef}
  {refs : List Ref} {b : Block}

theorem swapInBlock_avoids (use : s.InUse live) (settled : s.Settled p known) (hknown : ∀ q ∈ known, q ∈ live)
    (books : s.Books refs) (hr : r ∈ known) (hb : s.block? r = some b) (hfull : b.isFull p = true)
    (room : ∀ h, b.cachedContentHash = some h → (s.on d).hashInUse h = true ∨ 0 < (s.on d).getNumFreeBlocks) :
    AvoidsUnless Harmless .noFreeBlocks (swapInBlock p d r) s := by
  obtain ⟨hheld, hprev⟩ := newHash_held hb settled hr
  refine .step other_ne fun b' s₁ hget => ?_
  obtain ⟨hb', hs⟩ := getBlock_iff.mp hget
  obtain rfl := Option.some.inj (hb.symm.trans hb')
  rw [hs, if_pos hfull]
  refine .bind (allocateImmutableBlock_avoids use books settled hknown hprev fun h hh => room h (hheld.symm.trans hh))
    (fun tmp => .bind (getBlock_detects tmp) fun _ => .bind (step_detects (freeBlock_advances d tmp)) fun _ =>
      step_detects (setBlockId_advances r _)) fun tmp s₂ _ _ => ?_
  exact .step other_ne fun _ _ _ => .step other_ne fun _ _ _ _ => .lift other_ne

/-- The objects are full, and there is a free block for each hash that is not in use. -/
theorem swapIn_avoids (use : s.InUse live) (settled : s.Settled p known) (hknown : ∀ q ∈ known, q ∈ live)
    (books : s.Books refs) (hsub : ∀ r ∈ blocks, r ∈ known)
    (hfull : ∀ r ∈ blocks, ∀ b, s.block? r = some b → b.isFull p = true)
    (room : (s.on d).numToTake (heldHashes s blocks) ≤ (s.on d).getNumFreeBlocks) :
    AvoidsUnless Harmless .noFreeBlocks (forM (swapInBlock p d) blocks) s := by
  induction blocks generalizing s refs with
  | nil => exact fun _ => .pure _
  | cons r blocks ih =>
    have hr := hsub r List.mem_cons_self
    obtain ⟨b, hb⟩ := use.present r (hknown r hr)
    have hb' := hfull r List.mem_cons_self b hb
    refine .bind (swapInBlock_avoids use settled hknown books hr hb hb' fun h hh => ?_)
      (fun _ => .forM (swapInBlock_detects d) blocks) fun _ s₁ hrun ok₁ => ?_
    · by_cases hused : (s.on d).hashInUse h = true
      · exact .inl hused
      · refine .inr (lt_of_lt_of_le ?_ room)
        rw [PrefixCachingBlockAllocator.numToTake_pos]
        refine ⟨h, List.mem_filterMap.mpr ⟨r, List.mem_cons_self, ?_⟩, Bool.not_eq_true _ ▸ hused⟩
        rw [hb, Option.bind_some, hh]
    · have hrun := (swapInBlock_follows d r).returns hrun
      obtain ⟨h, hh, w⟩ := swapInBlock_took use settled hknown books hr hb hb' ok₁ hrun
      have content (q : BlockRef) (hq : q ∈ blocks) : s₁.content? q = s.content? q :=
        w.content q (hknown q (hsub q (List.mem_cons_of_mem _ hq)))
      have hfree := w.numFree books
      have htake := w.numToTake books (heldHashes s blocks)
      have hhashes : heldHashes s (r :: blocks) = h :: heldHashes s blocks := by
        unfold heldHashes
        rw [List.filterMap_cons_some]
        rw [hb, Option.bind_some, hh]
      rw [hhashes, htake, ← heldHashes_content content] at room
      obtain ⟨id, -, books'⟩ := w.taken
      refine ih w.inUse (settled.content fun q hq => w.content q (hknown q hq)) books'
        (fun q hq => hsub q (List.mem_cons_of_mem _ hq)) (fun q hq c hc => ?_) (by omega)
      have hcontent := content q hq
      unfold content? at hcontent
      rw [hc, Option.map_some] at hcontent
      obtain ⟨c', hc', hsame⟩ := Option.map_eq_some_iff.mp hcontent.symm
      have := hfull q (List.mem_cons_of_mem _ hq) c' hc'
      unfold Block.isFull at this ⊢
      rw [show c.tokenIds = c'.tokenIds from (congrArg (·.2.1) hsame).symm]
      exact this

/-- A swap of full objects, with a free block for each hash that is not in use on the other device. -/
theorem swap_avoids {src dst : Device} (hne : src ≠ dst) (use : s.InUse live) (settled : s.Settled p known)
    (hknown : ∀ q ∈ known, q ∈ live) (books : s.Books (s.refsOf blocks ++ refs)) (hsub : ∀ r ∈ blocks, r ∈ known)
    (nodup : blocks.Nodup) (hfull : ∀ r ∈ blocks, ∀ b, s.block? r = some b → b.isFull p = true)
    (room : (s.on dst).numToTake (heldHashes s blocks) ≤ (s.on dst).getNumFreeBlocks) :
    AvoidsUnless Harmless .noFreeBlocks (swap p blocks src dst) s := by
  refine .step other_ne fun ids s₁ hids => ?_
  rw [← blockIds_reads blocks _ _ _ hids]
  refine .step other_ne fun _ s₂ hout => ?_
  have remembers (r : BlockRef) (hr : r ∈ blocks) := settled.remembers (hsub r hr)
  obtain ⟨use₂, books₂, objects⟩ := forM_freeBlockId_releases nodup remembers books hout
  obtain ⟨hfree, htake⟩ := swapOut_elsewhere hne nodup remembers books hout
  have content (q : BlockRef) : s₂.content? q = s.content? q := by
    unfold content?
    rw [objects, Option.map_map]
    apply congrArg (fun f => Option.map f (s.block? q))
    funext b
    show (if q ∈ blocks then dropId b else b).content = b.content
    split <;> rfl
  rw [← hfree, ← htake, ← heldHashes_content fun q _ => content q] at room
  have hfull₂ (r : BlockRef) (hr : r ∈ blocks) (b : Block) (hb : s₂.block? r = some b) : b.isFull p = true := by
    rw [objects] at hb
    obtain ⟨b', hb', rfl⟩ := Option.map_eq_some_iff.mp hb
    rw [if_pos hr]
    exact hfull r hr b' hb'
  refine .bind (swapIn_avoids (use₂ use) (settled.content fun q _ => content q) hknown books₂ hsub hfull₂ room)
    (fun _ => .bind (reads_detects (blockIds_reads blocks)) fun _ => .pure _) fun _ _ _ _ => ?_
  exact .step other_ne fun _ _ _ _ => .pure _

end BlockAttempt

end CoreFlow
