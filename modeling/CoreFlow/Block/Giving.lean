import CoreFlow.Block.Taking
import CoreFlow.Block.Marks

/-!
# Giving up the blocks of a table

Marking the blocks of a table and freeing the table return when every object of the table holds a hash and a
block of the device. The steps `Retain` what is cached and computed: no block gets another hash, and a block that
is in use afterwards was in use before and is still computed if it was.
-/

namespace CoreFlow
open Prog

namespace CpuGpuBlockAllocator

structure Retains (s s' : CpuGpuBlockAllocator) : Prop where
  cached : ∀ e, (s'.on e).cachedBlocks = (s.on e).cachedBlocks
  active : ∀ e id t', (s'.on e).blockTracker.get? id = some t' → t'.active = true →
    ∃ t, (s.on e).blockTracker.get? id = some t ∧ t.active = true ∧ (t.computed = true → t'.computed = true)

instance : IsPreorder CpuGpuBlockAllocator Retains where
  refl _ := ⟨fun _ => rfl, fun _ _ t ht hactive => ⟨t, ht, hactive, id⟩⟩
  trans _ _ _ h h' := by
    refine ⟨fun e => (h'.cached e).trans (h.cached e), fun e id t'' ht'' hactive'' => ?_⟩
    obtain ⟨t', ht', hactive', hcomputed'⟩ := h'.active e id t'' ht'' hactive''
    obtain ⟨t, ht, hactive, hcomputed⟩ := h.active e id t' ht' hactive'
    exact ⟨t, ht, hactive, fun hc => hcomputed' (hcomputed hc)⟩

/-- The block is computed if it is in use. -/
def UsedComputed (s : CpuGpuBlockAllocator) (d : Device) (id : BlockId) : Prop :=
  ∀ t, (s.on d).blockTracker.get? id = some t → t.active = true → t.computed = true

section
variable {s s' : CpuGpuBlockAllocator} {d : Device} {id : BlockId} {refs : List Ref} {h : PrefixHash}

theorem Retains.usedComputed (h : Retains s s') (hid : s.UsedComputed d id) : s'.UsedComputed d id := by
  intro t' ht' hactive'
  obtain ⟨t, ht, hactive, hcomputed⟩ := h.active d id t' ht' hactive'
  exact hcomputed (hid t ht hactive)

theorem Retains.setOn {a : PrefixCachingBlockAllocator} (hcached : a.cachedBlocks = (s.on d).cachedBlocks)
    (hactive : ∀ id t', a.blockTracker.get? id = some t' → t'.active = true →
      ∃ t, (s.on d).blockTracker.get? id = some t ∧ t.active = true ∧ (t.computed = true → t'.computed = true)) :
    Retains s (s.setOn d a) := by
  refine ⟨fun e => ?_, fun e id t' => ?_⟩
  · rw [on_setOn]
    split
    · rename_i he
      rw [hcached, he]
    · rfl
  · rw [on_setOn]
    split
    · rename_i he
      subst he
      exact hactive id t'
    · exact fun ht' hactive' => ⟨t', ht', hactive', fun hc => hc⟩

/-- Only the tracker of one block changes. -/
theorem Retains.setTracker {t t' : BlockTracker} (ht : (s.on d).blockTracker.get? id = some t)
    (hactive : t'.active = true → t.active = true ∧ (t.computed = true → t'.computed = true)) :
    Retains s (s.setOn d { s.on d with blockTracker := (s.on d).blockTracker.set id t' }) := by
  refine .setOn rfl fun id' u hu hu' => ?_
  by_cases he : id = id'
  · subst he
    have hu : ((s.on d).blockTracker.set id t').get? id = some u := hu
    rw [Dict.get?_set_self] at hu
    obtain rfl := Option.some.inj hu
    exact ⟨t, ht, hactive hu'⟩
  · have hu : ((s.on d).blockTracker.set id t').get? id' = some u := hu
    rw [Dict.get?_set_ne _ _ he] at hu
    exact ⟨u, hu, hu', fun hc => hc⟩

/-- Only the ghost changes. -/
theorem Retains.of_on (h : ∀ e, s'.on e = s.on e) : Retains s s' := by
  refine ⟨fun e => by rw [h], fun e id t ht hactive => ⟨t, ?_, hactive, fun hc => hc⟩⟩
  rwa [← h]

/-- A block that is cached, and computed if it is in use, counts as a cached prefix block. -/
theorem Books.hashIsCached (books : s.Books refs) (hcached : (s.on d).cachedBlocks.get? h = some id)
    (hid : s.UsedComputed d id) : (s.on d).hashIsCached h = true := by
  have acc := books.accounts d
  have hin := acc.cachedHere h id hcached
  obtain ⟨t, ht, hactive⟩ := acc.tracked id hin
  unfold PrefixCachingBlockAllocator.hashIsCached PrefixCachingBlockAllocator.blockIsComputed
  rw [hcached]
  dsimp only
  rw [ht]
  dsimp only
  split
  · exact hid t ht ‹_›
  · rename_i hidle
    rw [decide_eq_true_eq]
    have hzero : numRefs refs id = 0 := by
      rw [hactive] at hidle
      omega
    exact (acc.covered id hin hzero).resolve_left fun hfree => (acc.free id hfree).2.2 ⟨h, hcached⟩

theorem Books.deviceOf (books : s.Books refs) (hid : id ∈ (s.on d).allBlockIndices) : s.deviceOf id = some d := by
  unfold CpuGpuBlockAllocator.deviceOf
  cases d with
  | gpu => rw [if_pos hid]
  | cpu =>
    rw [if_neg fun hg => books.apart id hg hid, if_pos hid]

end

end CpuGpuBlockAllocator

namespace BlockM
open CpuGpuBlockAllocator
variable {p : BlockParams} {d : Device} {r : BlockRef} {s s' : CpuGpuBlockAllocator} {live rest blocks : List BlockRef}
  {blockId : BlockId} {refs : List Ref} {b : Block} {h : PrefixHash} {u : Unit} {ids : List BlockId} {now : Int}

/-! ## What is cached stays cached -/

section
variable (p d r)

theorem self_retains : Within Retains (self d) := .bind .read fun _ => .pure _

theorem getBlock_retains : Within Retains (getBlock r) := .bind .read fun _ => .ofOption _

theorem modifySelf_retains {f : PrefixCachingBlockAllocator → PrefixCachingBlockAllocator}
    (hcached : ∀ a, (f a).cachedBlocks = a.cachedBlocks) (htracker : ∀ a, (f a).blockTracker = a.blockTracker) :
    Within Retains (modifySelf d f) := by
  refine .update fun s => .setOn (hcached _) fun id t' ht' hactive => ⟨t', ?_, hactive, fun hc => hc⟩
  rwa [htracker] at ht'

theorem modifyBlock_retains (f : Block → Block) : Within Retains (modifyBlock r f) :=
  .update fun _ => .setOn rfl fun _ t' ht' hactive => ⟨t', ht', hactive, fun hc => hc⟩

theorem log_retains (e : BlockEvent) : Within Retains (log e) := .update fun _ => .of_on fun _ => rfl

theorem refcount_retains (blockId : BlockId) : Within Retains (refcount d blockId) :=
  .bind (self_retains d) fun _ => .ofOption _

theorem decr_retains (blockId : BlockId) : Within Retains (decr d blockId) :=
  .bind (self_retains d) fun _ => .bind (.ofOption _) fun _ => .bind (.require _) fun _ =>
    .bind (modifySelf_retains d (fun _ => rfl) fun _ => rfl) fun _ => .pure _

theorem untrackBlockId_retains (blockId : BlockId) : Within Retains (untrackBlockId d blockId) := by
  intro s u s' hrun
  unfold untrackBlockId at hrun
  rw [self_bind] at hrun
  obtain ⟨t', _, ht', hrun⟩ := bind_iff.mp hrun
  obtain ⟨ht', hs⟩ := ofOption_iff.mp ht'
  rw [hs] at hrun
  rw [update_iff.mp hrun]
  obtain ⟨t, ht, hdisable⟩ := Option.bind_eq_some_iff.mp ht'
  refine .setTracker ht fun hactive => ?_
  unfold BlockTracker.disable at hdisable
  split at hdisable
  · rw [← Option.some.inj hdisable] at hactive
    cases hactive
  · cases hdisable

theorem freeBlock_retains : Within Retains (freeBlock d r) :=
  .bind (modifySelf_retains d (fun _ => rfl) fun _ => rfl) fun _ => .bind (.update fun _ => .of_on fun _ => rfl) fun _ =>
    .when (log_retains _)

theorem contentHash_retains : Within Retains (contentHash p r) := by
  refine .bind .read fun s => ?_
  generalize s.numObjects + 1 = n
  induction n generalizing r with
  | zero => exact .raise
  | succ n ih =>
    refine .bind (getBlock_retains r) fun b => ?_
    cases b.cachedContentHash with
    | some h => exact .pure _
    | none =>
      refine .ite (.pure _) (.bind ?_ fun prev => .ite (.pure _) (.bind (modifyBlock_retains r _) fun _ => .pure _))
      cases b.prevBlock with
      | none => exact .pure _
      | some q => exact ih q

theorem decrRefcountCachedBlock_retains : Within Retains (decrRefcountCachedBlock p d r) :=
  .bind (contentHash_retains p r) fun _ => .bind (.ofOption _) fun _ => .bind (getBlock_retains r) fun _ =>
    .bind (.ofOption _) fun blockId => .bind (decr_retains d blockId) fun _ => .ite (modifyBlock_retains r _) <|
      .bind (self_retains d) fun _ => .bind (.require _) fun _ => .bind (.ofOption _) fun _ =>
      .bind (log_retains _) fun _ => .bind (modifySelf_retains d (fun _ => rfl) fun _ => rfl) fun _ =>
      .bind (untrackBlockId_retains d blockId) fun _ => modifyBlock_retains r _

theorem decrRefcountHashlessBlock_retains : Within Retains (decrRefcountHashlessBlock d r) :=
  .bind (getBlock_retains r) fun _ => .bind (.ofOption _) fun blockId => .bind (refcount_retains d blockId) fun _ =>
    .bind (.when (untrackBlockId_retains d blockId)) fun _ => .bind (modifyBlock_retains r _) fun _ =>
    .bind (decr_retains d blockId) fun _ => .when (modifySelf_retains d (fun _ => rfl) fun _ => rfl)

theorem freeBlockId_retains : Within Retains (freeBlockId p d r) := by
  refine .bind (getBlock_retains r) fun _ => .bind (.require _) fun _ => .bind (contentHash_retains p r) fun o =>
    .bind ?_ fun _ => .bind (getBlock_retains r) fun _ => .require _
  cases o with
  | some h => exact decrRefcountCachedBlock_retains p d r
  | none => exact decrRefcountHashlessBlock_retains d r

theorem free_retains : Within Retains (BlockM.free p r) :=
  .bind (getBlock_retains r) fun _ => .bind (.ofOption _) fun _ => .bind .read fun _ => .bind (.ofOption _) fun d =>
    .bind (freeBlockId_retains p d r) fun _ => freeBlock_retains d r

theorem markBlockAsComputed_retains (id : BlockId) : Within Retains (markBlockAsComputed d id) := by
  intro s u s' hrun
  unfold markBlockAsComputed at hrun
  rw [self_bind] at hrun
  obtain ⟨t, _, ht, hrun⟩ := bind_iff.mp hrun
  obtain ⟨ht, hs⟩ := ofOption_iff.mp ht
  rw [hs] at hrun
  rw [update_iff.mp hrun]
  exact .setTracker ht fun hactive => ⟨hactive, fun _ => rfl⟩

theorem markBlocksAsAccessedOn_retains (ids : List BlockId) (now : Int) :
    Within Retains (markBlocksAsAccessedOn d ids now) := by
  refine .forM (fun id => ?_) ids
  intro s u s' hrun
  rw [self_bind] at hrun
  obtain ⟨t, _, ht, hrun⟩ := bind_iff.mp hrun
  obtain ⟨ht, hs⟩ := ofOption_iff.mp ht
  rw [hs] at hrun
  split at hrun
  · rw [update_iff.mp hrun]
    exact .setTracker ht fun hactive => ⟨hactive, fun hc => hc⟩
  · refine (?_ : Within Retains _) _ _ _ hrun
    exact .bind (.ofOption _) fun _ => modifySelf_retains d (fun _ => rfl) fun _ => rfl

theorem markBlocksAsAccessed_retains (ids : List BlockId) (now : Int) : Within Retains (markBlocksAsAccessed ids now) := by
  refine .forM (fun id => .bind .read fun s => ?_) ids
  split
  · exact .pure _
  · exact markBlocksAsAccessedOn_retains _ _ now

end

/-! ## Marks -/

theorem markBlockAsComputed_returns (books : s.Books refs) (hid : blockId ∈ (s.on d).allBlockIndices) :
    ∃ s', markBlockAsComputed d blockId s = some ((), s') ∧ s'.UsedComputed d blockId := by
  obtain ⟨t, ht, -⟩ := (books.accounts d).tracked blockId hid
  unfold markBlockAsComputed
  rw [self_bind, bind_eq (ofOption_iff.mpr ⟨ht, rfl⟩)]
  refine ⟨_, rfl, fun t' ht' _ => ?_⟩
  rw [on_setOn_self] at ht'
  have ht' : ((s.on d).blockTracker.set blockId { t with computed := true }).get? blockId = some t' := ht'
  rw [Dict.get?_set_self] at ht'
  rw [← Option.some.inj ht']

theorem forM_markBlockAsComputed_returns (books : s.Books refs) (hids : ∀ id ∈ ids, id ∈ (s.on d).allBlockIndices) :
    ∃ s', Prog.forM (markBlockAsComputed d) ids s = some ((), s') ∧ ∀ id ∈ ids, s'.UsedComputed d id := by
  induction ids generalizing s with
  | nil => exact ⟨s, rfl, fun id hid => absurd hid List.not_mem_nil⟩
  | cons id ids ih =>
    obtain ⟨s₁, hmark, hcomputed⟩ := markBlockAsComputed_returns books (hids id List.mem_cons_self)
    have still := markBlockAsComputed_still id _ _ _ hmark
    obtain ⟨s', hrest, hall⟩ := ih (still.books books) fun id' hid' => by
      rw [(still.accounts d).all]
      exact hids id' (List.mem_cons_of_mem _ hid')
    refine ⟨s', forM_cons_iff.mpr ⟨s₁, hmark, hrest⟩, fun id' hid' => ?_⟩
    rcases List.mem_cons.mp hid' with rfl | hid'
    · exact (Within.forM (markBlockAsComputed_retains d) ids _ _ _ hrest).usedComputed hcomputed
    · exact hall id' hid'

/-- Blocks of the device are marked as computed. -/
theorem markBlocksAsComputedOn_returns (books : s.Books refs) (hids : ∀ id ∈ ids, id ∈ (s.on d).allBlockIndices)
    (hne : ids ≠ []) : ∃ s', markBlocksAsComputedOn d ids s = some ((), s') ∧ Retains s s' ∧
      ∀ id ∈ ids, s'.UsedComputed d id := by
  obtain ⟨s₁, hmark, hall⟩ := forM_markBlockAsComputed_returns books hids
  unfold markBlocksAsComputedOn
  rw [self_bind, if_neg hne, bind_eq hmark]
  have touched : Within Retains (modifySelf d fun a => { a with touchedBlocks := a.touchedBlocks.filter (· ∉ ids) }) :=
    modifySelf_retains d (fun _ => rfl) fun _ => rfl
  refine ⟨_, rfl, ?_, fun id hid => (touched s₁ () _ rfl).usedComputed (hall id hid)⟩
  exact IsTrans.trans _ _ _ (Within.forM (markBlockAsComputed_retains d) ids _ _ _ hmark) (touched s₁ () _ rfl)

/-- Blocks in use are marked as accessed. -/
theorem markBlocksAsAccessed_returns (books : s.Books refs)
    (hids : ∀ id ∈ ids, id ∈ (s.on d).allBlockIndices ∧ 0 < numRefs refs id) :
    ∃ s', markBlocksAsAccessed ids now s = some ((), s') := by
  induction ids generalizing s with
  | nil => exact ⟨s, rfl⟩
  | cons id ids ih =>
    obtain ⟨hin, hpos⟩ := hids id List.mem_cons_self
    obtain ⟨t, ht, hactive⟩ := (books.accounts d).tracked id hin
    have returns : ∃ s₁, markBlocksAsAccessedOn d [id] now s = some ((), s₁) := by
      unfold markBlocksAsAccessedOn
      rw [Prog.forM, bind_assoc, self_bind, bind_assoc, bind_eq (ofOption_iff.mpr ⟨ht, rfl⟩), if_pos (hactive.mpr hpos)]
      exact ⟨_, rfl⟩
    obtain ⟨s₁, hmark⟩ := returns
    have still := markBlocksAsAccessedOn_still now [id] _ _ _ hmark
    obtain ⟨s', hrest⟩ := ih (still.books books) fun id' hid' => by
      rw [(still.accounts d).all]
      exact hids id' (List.mem_cons_of_mem _ hid')
    refine ⟨s', forM_cons_iff.mpr ⟨s₁, ?_, hrest⟩⟩
    rw [read_bind, books.deviceOf hin]
    exact hmark

/-! ## Freeing -/

theorem decrRefcountCachedBlock_returns (hb : s.block? r = some b) (hid : b.blockId = some blockId)
    (hh : b.cachedContentHash = some h) (hin : blockId ∈ (s.on d).allBlockIndices)
    (books : s.Books ((blockId, some h) :: refs)) : ∃ s', decrRefcountCachedBlock p d r s = some ((), s') := by
  have acc := books.accounts d
  have hcached := acc.promoted blockId h List.mem_cons_self hin
  obtain ⟨t, ht, hactive⟩ := acc.tracked blockId hin
  have hn := acc.refcount blockId
  rw [if_pos hin, numRefs_cons_self] at hn
  unfold decrRefcountCachedBlock
  rw [bind_eq (contentHash_run hb hh), bind_eq (ofOption_iff.mpr ⟨rfl, rfl⟩), bind_eq (getBlock_run hb),
    bind_eq (ofOption_iff.mpr ⟨hid, rfl⟩), bind_eq (decr_run hn (Nat.succ_pos _))]
  split
  · exact ⟨_, rfl⟩
  · rw [self_bind, on_setOn_self, require_bind, if_pos (Dict.mem_of_get? hcached), bind_eq (ofOption_iff.mpr ⟨ht, rfl⟩),
      log, update_bind, modifySelf, update_bind]
    have untracked (s₁ : CpuGpuBlockAllocator) (ht : (s₁.on d).blockTracker.get? blockId = some t) :
        ∃ s', (untrackBlockId d blockId >>= fun _ => setBlockId r none) s₁ = some ((), s') := by
      obtain ⟨s₂, huntrack⟩ := untrackBlockId_returns ht (hactive.mpr (numRefs_pos List.mem_cons_self))
      rw [bind_eq huntrack]
      exact ⟨_, rfl⟩
    apply untracked
    rw [on_setOn_self]
    have logged (s₁ : CpuGpuBlockAllocator) (e : BlockEvent) : (s₁.log e).on d = s₁.on d := rfl
    simp only [logged, on_setOn_self]
    exact ht

/-- An object that holds its hash gives up its block. -/
theorem freeBlockId_returns (hb : s.block? r = some b) (hid : b.blockId = some blockId)
    (hh : b.cachedContentHash = some h) (hin : blockId ∈ (s.on d).allBlockIndices)
    (books : s.Books ((blockId, some h) :: refs)) : ∃ s', freeBlockId p d r s = some ((), s') := by
  have hne : b.blockId ≠ none := by
    rw [hid]
    exact Option.some_ne_none _
  obtain ⟨s', hdecr⟩ := decrRefcountCachedBlock_returns (p := p) hb hid hh hin books
  obtain ⟨quiet, -⟩ := decrRefcountCachedBlock_books hb hid hh books hdecr
  unfold freeBlockId
  rw [bind_eq (getBlock_run hb), require_bind, if_pos hne, bind_eq (contentHash_run hb hh), bind_eq hdecr,
    bind_eq (getBlock_run (quiet.object hb))]
  exact ⟨s', require_iff.mpr ⟨rfl, rfl⟩⟩

theorem free_returns (hb : s.block? r = some b) (hid : b.blockId = some blockId) (hh : b.cachedContentHash = some h)
    (hin : blockId ∈ (s.on d).allBlockIndices) (books : s.Books ((blockId, some h) :: refs)) :
    ∃ s', BlockM.free p r s = some ((), s') := by
  obtain ⟨s₁, hfree⟩ := freeBlockId_returns (p := p) hb hid hh hin books
  obtain ⟨s', hput⟩ := freeBlock_returns d r s₁
  unfold BlockM.free freeOn
  rw [bind_eq (getBlock_run hb), bind_eq (ofOption_iff.mpr ⟨hid, rfl⟩), read_bind,
    bind_eq (ofOption_iff.mpr ⟨books.deviceOf hin, rfl⟩), bind_eq hfree]
  exact ⟨s', hput⟩

/-- The objects of a table are freed one after the other. -/
theorem forM_free_returns (use : s.InUse (blocks ++ rest)) (hr : ∀ r ∈ blocks, s.Remembers p r ∧ ∃ h, Carries d s r h)
    (books : s.Books (s.refsOf blocks ++ refs)) : ∃ s', Prog.forM (BlockM.free p) blocks s = some ((), s') := by
  induction blocks generalizing s with
  | nil => exact ⟨s, rfl⟩
  | cons r blocks ih =>
    obtain ⟨remembers, h, b, id, hb, hh, hid, hin⟩ := hr r List.mem_cons_self
    have href := refOf_eq hb hid
    rw [hh] at href
    have books₁ : s.Books ((id, some h) :: (s.refsOf blocks ++ refs)) := by
      rw [refsOf, List.filterMap_cons_some href] at books
      exact books
    obtain ⟨s₁, hfree⟩ := free_returns (p := p) hb hid hh hin books₁
    have books₂ : s.Books (s.refsOf [r] ++ (s.refsOf blocks ++ refs)) := by
      rw [refsOf, List.filterMap_cons_some href]
      exact books₁
    obtain ⟨use₁, books', objects⟩ := free_releases use remembers books₂ hfree
    have same (q : BlockRef) (hq : q ∈ blocks) : s₁.block? q = s.block? q := by
      have hne : q ≠ r := by
        rintro rfl
        exact (List.nodup_cons.mp use.nodup).1 (List.mem_append_left _ hq)
      rw [objects, funext fun b => if_neg hne, Option.map_id']
    have content (q : BlockRef) : s₁.content? q = s.content? q := by
      unfold content?
      rw [objects, Option.map_map]
      refine congrArg (fun f => Option.map f (s.block? q)) (funext fun b => ?_)
      show (if q = r then dropId b else b).content = b.content
      split <;> rfl
    have hr₁ (q : BlockRef) (hq : q ∈ blocks) : s₁.Remembers p q ∧ ∃ h, Carries d s₁ q h := by
      obtain ⟨remembers, h, b, id, hb, hh, hid, hin⟩ := hr q (List.mem_cons_of_mem _ hq)
      refine ⟨remembers.content content, h, b, id, (same q hq).trans hb, hh, hid, ?_⟩
      rw [(free_advances p r _ _ _ hfree).blocks]
      exact hin
    rw [← refsOf_same same] at books'
    obtain ⟨s', hrest⟩ := ih use₁ hr₁ books'
    exact ⟨s', forM_cons_iff.mpr ⟨s₁, hfree, hrest⟩⟩

end BlockM

end CoreFlow
