import CoreFlow.Block.Advance
import CoreFlow.Block.Objects

/-!
# Objects in use

`InUse s live` says that the objects in `live` are different objects that have been handed out and not been
returned. It survives an id that went back to the wrong pool, as long as no pool has handed out an object
that was in use for that reason: a state that is `Harmless`. Without stray ids every state is, because then
the pools are sound.
-/

namespace CoreFlow
open Prog

namespace CpuGpuBlockAllocator

/-- An object has gone back to the pool of the other device. -/
def Stray (s : CpuGpuBlockAllocator) : Prop := ∃ r, BlockEvent.strayFree r ∈ s.trace.events

/-- An object has been handed out while it was in use. -/
def Reissued (s : CpuGpuBlockAllocator) : Prop := ∃ r, BlockEvent.reissued r ∈ s.trace.events

def Harmless (s : CpuGpuBlockAllocator) : Prop := s.Stray → ¬ s.Reissued

structure InUse (s : CpuGpuBlockAllocator) (live : List BlockRef) : Prop where
  nodup : live.Nodup
  held : ∀ r ∈ live, r ∈ s.trace.held
  present : ∀ r ∈ live, ∃ b, s.block? r = some b
  pools : ¬ s.Stray → s.PoolSound s.trace.held ∧ ¬ s.Reissued

section
variable {s s' s₁ : CpuGpuBlockAllocator} {live live' : List BlockRef} {r : BlockRef} {g : Block → Block} {d : Device}

theorem Harmless.before (h : s'.Harmless) (hle : Grows s s') : s.Harmless := by
  rintro ⟨r, hr⟩ ⟨q, hq⟩
  exact h ⟨r, hle.events.subset hr⟩ ⟨q, hle.events.subset hq⟩

theorem Harmless.advances (h : s'.Harmless) (adv : Advances s s') : s.Harmless := h.before adv.toGrows

/-- Without stray ids nothing is handed out twice. -/
theorem InUse.harmless (h : s.InUse live) (hs : ¬ s.Stray) : ¬ s.Reissued := (h.pools hs).2

theorem InUse.subset (h : s.InUse live) (hsub : ∀ r ∈ live', r ∈ live) (hnodup : live'.Nodup) : s.InUse live' :=
  ⟨hnodup, fun r hr => h.held r (hsub r hr), fun r hr => h.present r (hsub r hr), h.pools⟩

theorem InUse.perm (h : s.InUse live) (hp : live.Perm live') : s.InUse live' :=
  h.subset (fun _ hr => hp.mem_iff.mpr hr) (hp.nodup_iff.mp h.nodup)

theorem stray_iff : s.Stray ↔ ∃ r, BlockEvent.strayFree r ∈ s.trace.events.filter BlockEvent.isFault := by
  unfold Stray
  simp [List.mem_filter, BlockEvent.isFault]

theorem reissued_iff : s.Reissued ↔ ∃ r, BlockEvent.reissued r ∈ s.trace.events.filter BlockEvent.isFault := by
  unfold Reissued
  simp [List.mem_filter, BlockEvent.isFault]

theorem InUse.quiet (h : s.InUse live) (q : Quiet r g s s') : s'.InUse live := by
  refine ⟨h.nodup, fun r hr => ?_, fun r hr => ?_, fun hs => ?_⟩
  · rw [q.held]
    exact h.held r hr
  · obtain ⟨b, hb⟩ := h.present r hr
    rw [q.objects, hb]
    split
    · exact ⟨_, rfl⟩
    · exact ⟨b, rfl⟩
  · rw [stray_iff, q.faults, ← stray_iff] at hs
    rw [reissued_iff, q.faults, ← reissued_iff, q.held]
    exact ⟨(h.pools hs).1.of_pools q.sizes q.freeIds, (h.pools hs).2⟩

/-- The pools do not matter to the books. -/
theorem Books.of_pools {refs : List Ref} (h : s.Books refs)
    (hon : ∀ e, s'.on e = { s.on e with blockPool := (s'.on e).blockPool }) : s'.Books refs := by
  refine ⟨fun e => ?_, ?_, fun e => ?_⟩
  · rw [hon e]
    exact h.distinct e
  · rw [hon .gpu, hon .cpu]
    exact h.apart
  · rw [hon e]
    exact (h.accounts e).withPool _

end

end CpuGpuBlockAllocator

namespace BlockM
open CpuGpuBlockAllocator
variable {p : BlockParams} {d : Device} {r : BlockRef} {s s' s₁ : CpuGpuBlockAllocator} {live : List BlockRef} {u : Unit}
  {prevBlock : Option BlockRef} {tokenIds : List TokenId} {blockId : Option BlockId} {refs : List Ref}

/-! ## Handing out -/

/-- What `init_block` does once it has taken an id: the object is written and held. -/
structure HandsOut (d : Device) (r : BlockRef) (prevBlock : Option BlockRef) (tokenIds : List TokenId)
    (blockId : Option BlockId) (s s' : CpuGpuBlockAllocator) : Prop where
  device : r.device = d
  sound : ∀ live, s.PoolSound live → s'.PoolSound (r :: live)
  object : ∃ n, s'.block? r = some ⟨prevBlock, tokenIds, blockId, false, none, n⟩
  others : ∀ q b, q ≠ r → s.block? q = some b → s'.block? q = some b
  held : s'.trace.held = r :: s.trace.held
  faults : s'.trace.events.filter BlockEvent.isFault =
    s.trace.events.filter BlockEvent.isFault ++ if r ∈ s.trace.held then [.reissued r] else []
  books : ∀ e, s'.on e = { s.on e with blockPool := (s'.on e).blockPool }

theorem initBlock_handsOut (hrun : initBlock p d prevBlock tokenIds blockId s = some (r, s')) :
    HandsOut d r prevBlock tokenIds blockId s s' := by
  unfold initBlock at hrun
  rw [self_bind] at hrun
  dsimp only at hrun
  rw [show (if (s.on d).blockPool.freeIds = [] then (s.on d).blockPool.increasePool else (s.on d).blockPool) =
    roomyPool (s.pool d) from rfl] at hrun
  cases hfree : (roomyPool (s.pool d)).freeIds with
  | nil =>
    rw [hfree] at hrun
    exact (raise_iff.mp hrun).elim
  | cons poolId freeIds =>
    rw [hfree] at hrun
    obtain ⟨_, _, h₁, hrun⟩ := bind_iff.mp hrun
    obtain ⟨hlt, hs⟩ := require_iff.mp h₁
    rw [hs] at hrun
    obtain ⟨_, _, h₁, hrun⟩ := bind_iff.mp hrun
    rw [(require_iff.mp h₁).2, read_bind] at hrun
    obtain ⟨_, s₁, hlog, hrun⟩ := bind_iff.mp hrun
    obtain ⟨_, s₂, hpool, hrun⟩ := bind_iff.mp hrun
    obtain ⟨_, s₃, hwrite, hrun⟩ := bind_iff.mp hrun
    obtain ⟨_, s₄, htotal, hrun⟩ := bind_iff.mp hrun
    obtain ⟨_, s₅, hheld, hrun⟩ := bind_iff.mp hrun
    obtain ⟨rfl, rfl⟩ := pure_iff.mp hrun
    have logged : s₁.trace.held = s.trace.held ∧ (∀ e, s₁.on e = s.on e) ∧ s₁.trace.events.filter BlockEvent.isFault =
        s.trace.events.filter BlockEvent.isFault ++
          if (⟨d, poolId⟩ : BlockRef) ∈ s.trace.held then [.reissued ⟨d, poolId⟩] else [] := by
      unfold when at hlog
      split at hlog
      · rw [update_iff.mp hlog, if_pos ‹_›]
        exact ⟨rfl, fun _ => rfl, List.filter_append ..⟩
      · rw [(pure_iff.mp hlog).2, if_neg ‹_›, List.append_nil]
        exact ⟨rfl, fun _ => rfl, rfl⟩
    obtain ⟨held, hon, faults⟩ := logged
    have taken (e : Device) : s₂.pool e =
        if d = e then { roomyPool (s.pool d) with freeIds := freeIds } else s.pool e := by
      rw [update_iff.mp hpool, pool_modifySelf]
      split
      · rfl
      · exact congrArg PrefixCachingBlockAllocator.blockPool (hon e)
    obtain ⟨n, eff⟩ := updateNumTokensTotal_effect htotal d
    have eff := (modifyBlock_run hwrite d).trans eff fun _ _ => rfl
    have hs := update_iff.mp hheld
    refine ⟨rfl, fun live sound => ?_, ⟨n + tokenIds.length, ?_⟩, fun q b hne hb => ?_, ?_, ?_, fun e => ?_⟩
    · rw [hs]
      exact (takeId_sound sound hfree taken).1.of_pools eff.sizes eff.freeIds
    · rw [hs]
      have hlen : poolId < (s₂.pool d).pool.length := by
        rw [taken, if_pos rfl]
        exact hlt
      exact eff.object (List.getElem?_eq_getElem hlen)
    · rw [hs]
      refine (eff.object_ne (Ne.symm hne)).trans (Eq.trans ?_ hb)
      show (s₂.pool q.device).pool[q.poolId]? = (s.pool q.device).pool[q.poolId]?
      rw [taken]
      split
      · rename_i hd
        rw [← hd]
        refine roomyPool_getElem? ?_
        have hb' : (s.pool q.device).pool[q.poolId]? = some b := hb
        rw [← hd] at hb'
        exact (List.getElem?_eq_some_iff.mp hb').1
      · rfl
    · rw [hs]
      show _ :: s₄.trace.held = _
      rw [eff.held, update_iff.mp hpool]
      exact congrArg _ held
    · rw [hs]
      refine eff.faults.trans ?_
      rw [update_iff.mp hpool]
      exact faults
    · rw [hs]
      show s₄.on e = { s.on e with blockPool := (s₄.on e).blockPool }
      rw [eff.books e, update_iff.mp hpool, on_setOn, hon]
      by_cases hd : d = e
      · subst hd
        rw [if_pos rfl, if_pos rfl]
        rfl
      · rw [if_neg hd, if_neg hd, hon]

/-- The object that is handed out was not in use. -/
theorem HandsOut.inUse (h : HandsOut d r prevBlock tokenIds blockId s s') (use : s.InUse live) (ok : s'.Harmless) :
    s'.InUse (r :: live) ∧ ∀ q ∈ live, s'.block? q = s.block? q := by
  have hstray : s'.Stray ↔ s.Stray := by
    rw [stray_iff, stray_iff, h.faults]
    refine exists_congr fun q => ?_
    rw [List.mem_append]
    refine or_iff_left ?_
    split <;> simp
  have hnot : r ∉ s.trace.held := by
    intro hin
    by_cases hs : s.Stray
    · refine ok (hstray.mpr hs) (reissued_iff.mpr ⟨r, ?_⟩)
      rw [h.faults, if_pos hin]
      exact List.mem_append_right _ List.mem_cons_self
    · exact (List.nodup_cons.mp (h.sound _ (use.pools hs).1).liveNodup).1 hin
  have same (q : BlockRef) (hq : q ∈ live) : s'.block? q = s.block? q := by
    obtain ⟨b, hb⟩ := use.present q hq
    rw [hb]
    refine h.others q b ?_ hb
    rintro rfl
    exact hnot (use.held _ hq)
  refine ⟨⟨List.nodup_cons.mpr ⟨fun hin => hnot (use.held r hin), use.nodup⟩, fun q hq => ?_, fun q hq => ?_, fun hs => ?_⟩, same⟩
  · rw [h.held]
    rcases List.mem_cons.mp hq with rfl | hq
    · exact List.mem_cons_self
    · exact List.mem_cons_of_mem _ (use.held q hq)
  · rcases List.mem_cons.mp hq with rfl | hq
    · obtain ⟨n, hb⟩ := h.object
      exact ⟨_, hb⟩
    · rw [same q hq]
      exact use.present q hq
  · rw [hstray] at hs
    rw [h.held, reissued_iff, h.faults, if_neg hnot, List.append_nil, ← reissued_iff]
    exact ⟨h.sound _ (use.pools hs).1, (use.pools hs).2⟩

/-! ## Taking back -/

/-- The object is returned, to its own pool or to the other one. -/
theorem freeBlock_inUse (use : s.InUse (r :: live)) (hrun : freeBlock d r s = some (u, s')) :
    s'.InUse live ∧ (∀ q, s'.block? q = s.block? q) ∧ ∀ e, s'.on e = { s.on e with blockPool := (s'.on e).blockPool } := by
  obtain ⟨_, s₁, hpool, hrun⟩ := bind_iff.mp hrun
  obtain ⟨_, s₂, hheld, hrun⟩ := bind_iff.mp hrun
  have logged : s'.trace.held = s.trace.held.erase r ∧ (∀ e, s'.on e = s₁.on e) ∧
      s'.trace.events = s.trace.events ++ if d ≠ r.device then [.strayFree r] else [] := by
    have held : s₁.trace = s.trace := congrArg (·.trace) (update_iff.mp hpool)
    unfold when at hrun
    split at hrun
    · rw [update_iff.mp hrun, update_iff.mp hheld, ← held, if_pos ‹_›]
      exact ⟨rfl, fun _ => rfl, rfl⟩
    · rw [(pure_iff.mp hrun).2, update_iff.mp hheld, ← held, if_neg ‹_›, List.append_nil]
      exact ⟨rfl, fun _ => rfl, rfl⟩
  obtain ⟨held, hon, events⟩ := logged
  have hput (e : Device) : s'.pool e = if d = e then
      { s.pool d with freeIds := r.poolId :: (s.pool d).freeIds } else s.pool e := by
    refine (congrArg PrefixCachingBlockAllocator.blockPool (hon e)).trans ?_
    rw [update_iff.mp hpool]
    exact pool_modifySelf d e _
  have same (q : BlockRef) : s'.block? q = s.block? q := by
    show (s'.pool q.device).pool[q.poolId]? = (s.pool q.device).pool[q.poolId]?
    rw [hput]
    split
    · rename_i hd
      rw [← hd]
    · rfl
  obtain ⟨hnot, hnodup⟩ := List.nodup_cons.mp use.nodup
  refine ⟨⟨hnodup, fun q hq => ?_, fun q hq => ?_, fun hs => ?_⟩, same, fun e => ?_⟩
  · rw [held]
    refine (List.mem_erase_of_ne ?_).mpr (use.held q (List.mem_cons_of_mem _ hq))
    rintro rfl
    exact hnot hq
  · rw [same]
    exact use.present q (List.mem_cons_of_mem _ hq)
  · -- the id went to its own pool
    have hd : d = r.device := by
      by_contra hne
      refine hs ⟨r, ?_⟩
      rw [events, if_pos hne]
      exact List.mem_append_right _ List.mem_cons_self
    rw [if_neg (not_not.mpr hd), List.append_nil] at events
    have hs' : ¬ s.Stray := by
      unfold Stray at hs ⊢
      rwa [events] at hs
    obtain ⟨sound, fine⟩ := use.pools hs'
    rw [held, Reissued, events]
    refine ⟨(putId_sound (sound.perm (List.perm_cons_erase (use.held r List.mem_cons_self))) fun e => ?_).1, fine⟩
    rw [hput, hd]
  · rw [hon, update_iff.mp hpool, on_setOn]
    split
    · rename_i hd
      rw [hd]
    · rfl

/-! ## Physical blocks -/

/-- A reference to a block that was free or evictable. -/
structure Acquires (live : List BlockRef) (refs : List Ref) (x : Ref) (s s' : CpuGpuBlockAllocator) : Prop where
  inUse : s'.InUse live
  same : ∀ q ∈ live, s'.block? q = s.block? q
  books : s'.Books (x :: refs)

theorem maybeAllocateHashlessBlockId_acquires {o : Option BlockId} (use : s.InUse live) (books : s.Books refs)
    (ok : s'.Harmless) (hrun : maybeAllocateHashlessBlockId p d s = some (o, s')) :
    (o = none ∧ s' = s) ∨ ∃ id, o = some id ∧ Acquires live refs (id, none) s s' := by
  rw [maybeAllocateHashlessBlockId, self_bind] at hrun
  cases hfree : (s.on d).freeBlockIndices with
  | nil =>
    rw [hfree] at hrun
    exact .inl (pure_iff.mp hrun)
  | cons id rest =>
    rw [hfree] at hrun
    obtain ⟨_, s₁, hset, hrun⟩ := bind_iff.mp hrun
    obtain ⟨k, s₂, hincr, hrun⟩ := bind_iff.mp hrun
    obtain ⟨r, s₃, hinit, hrun⟩ := bind_iff.mp hrun
    have eff₁ := modifySelf_effect hset r (fun _ => rfl) fun _ => rfl
    obtain ⟨n, hn, -, eff₂⟩ := incr_effect hincr r
    have eff₂ := eff₁.trans eff₂ fun _ _ => rfl
    have hands := initBlock_handsOut hinit
    obtain ⟨_, s₄, hput, hrun⟩ := bind_iff.mp hrun
    obtain ⟨_, s₅, htrack, hrun⟩ := bind_iff.mp hrun
    obtain ⟨rfl, rfl⟩ := pure_iff.mp hrun
    have ok₄ := ok.advances (trackBlockId_advances d id false s₄ _ _ htrack)
    have ok₃ := ok₄.advances (freeBlock_advances d r s₃ _ _ hput)
    obtain ⟨use₃, same₃⟩ := hands.inUse (use.quiet eff₂.toQuiet) ok₃
    obtain ⟨use₄, same₄, hon₄⟩ := freeBlock_inUse use₃ hput
    obtain ⟨t, ht, eff₅⟩ := trackBlockId_effect htrack r
    have hin := ((books.accounts d).free id (by rw [hfree]; exact List.mem_cons_self)).1
    rw [eff₁.on_self] at hn
    have acc := (books.accounts d).takeFree hfree hn ht
    refine .inr ⟨id, rfl, use₄.quiet eff₅.toQuiet, fun q hq => ?_,
      books.change (f := fun a => { a with
        freeBlockIndices := rest
        refcounts := a.refcounts.set id (n + 1)
        blockTracker := a.blockTracker.set id t }) (fun e => ?_) rfl acc fun e he =>
          (PrefixCachingBlockAllocator.Accounts.other ?_).mpr (books.accounts e)⟩
    · rw [eff₅.same (fun _ => rfl), same₄, same₃ q hq, eff₂.same fun _ => rfl]
    · rw [eff₅.books, hon₄, hands.books, eff₂.books]
      split <;> rfl
    · exact books.not_mem (x := (id, none)) hin he

theorem maybeAllocateEvictedBlockId_acquires {o : Option BlockId} (use : s.InUse live) (books : s.Books refs)
    (hrun : maybeAllocateEvictedBlockId d s = some (o, s')) :
    o = none ∨ ∃ id, o = some id ∧ Acquires live refs (id, none) s s' := by
  rw [maybeAllocateEvictedBlockId, self_bind] at hrun
  split at hrun
  · exact .inl (pure_iff.mp hrun).1
  · obtain ⟨⟨⟨id, h⟩, e⟩, _, he, hrun⟩ := bind_iff.mp hrun
    obtain ⟨he, hs⟩ := ofOption_iff.mp he
    rw [hs] at hrun
    obtain ⟨_, s₁, hset, hrun⟩ := bind_iff.mp hrun
    obtain ⟨cachedId, _, hcached, hrun⟩ := bind_iff.mp hrun
    obtain ⟨hcached, hs⟩ := ofOption_iff.mp hcached
    rw [hs] at hrun
    obtain ⟨n, _, hn, hrun⟩ := bind_iff.mp hrun
    obtain ⟨hn, hs⟩ := refcount_iff.mp hn
    rw [hs] at hrun
    obtain ⟨_, _, hreq, hrun⟩ := bind_iff.mp hrun
    obtain ⟨h0, hs⟩ := require_iff.mp hreq
    rw [hs] at hrun
    obtain ⟨_, _, hreq, hrun⟩ := bind_iff.mp hrun
    obtain ⟨hsame, hs⟩ := require_iff.mp hreq
    rw [hs] at hrun
    subst hsame
    obtain ⟨_, s₂, herase, hrun⟩ := bind_iff.mp hrun
    obtain ⟨k, s₃, hincr, hrun⟩ := bind_iff.mp hrun
    obtain ⟨_, s₄, htrack, hrun⟩ := bind_iff.mp hrun
    obtain ⟨rfl, rfl⟩ := pure_iff.mp hrun
    -- any object will do: none changes
    have r : BlockRef := ⟨d, 0⟩
    have eff₁ := modifySelf_effect hset r (fun _ => rfl) fun _ => rfl
    have eff₂ := eff₁.trans (modifySelf_effect herase r (fun _ => rfl) fun _ => rfl) fun _ _ => rfl
    obtain ⟨n', hn', -, eff₃⟩ := incr_effect hincr r
    obtain rfl : n' = n := by
      rw [eff₂.on_self] at hn'
      rw [eff₁.on_self] at hn
      exact Option.some.inj (hn'.symm.trans hn)
    obtain ⟨t, ht, eff₄⟩ := trackBlockId_effect htrack r
    have eff := (eff₂.trans eff₃ fun _ _ => rfl).trans eff₄ fun _ _ => rfl
    rw [eff₁.on_self] at hn
    refine .inr ⟨cachedId, rfl, use.quiet eff.toQuiet, fun q _ => eff.same (fun _ => rfl) q,
      books.take (x := (cachedId, none)) ((books.accounts d).cachedHere h cachedId hcached) eff ?_⟩
    refine ((books.accounts d).takeEvicted hcached hn h0 ht).congr ⟨rfl, rfl, rfl, rfl, fun _ => rfl, fun _ => ?_⟩
    rw [← LRUEvictor.evict_freeTable he]

theorem allocateBlockId_acquires {id : BlockId} (use : s.InUse live) (books : s.Books refs) (ok : s'.Harmless)
    (hrun : allocateBlockId p d s = some (id, s')) : Acquires live refs (id, none) s s' := by
  obtain ⟨o, s₁, hfree, hrun⟩ := bind_iff.mp hrun
  cases o with
  | some id' =>
    obtain ⟨rfl, rfl⟩ := pure_iff.mp hrun
    obtain ⟨ho, -⟩ | ⟨id', ho, acq⟩ := maybeAllocateHashlessBlockId_acquires use books ok hfree
    · cases ho
    · rw [Option.some.inj ho]
      exact acq
  | none =>
    obtain ⟨o, s₂, hevict, hrun⟩ := bind_iff.mp hrun
    cases o with
    | none => exact (raise_iff.mp hrun).elim
    | some id' =>
      obtain ⟨rfl, rfl⟩ := pure_iff.mp hrun
      obtain ⟨-, rfl⟩ | ⟨id', ho, -⟩ := maybeAllocateHashlessBlockId_acquires use books
        (ok.advances (maybeAllocateEvictedBlockId_advances d s₁ _ _ hevict)) hfree
      · obtain ho | ⟨id', ho, acq⟩ := maybeAllocateEvictedBlockId_acquires use books hevict
        · cases ho
        · rw [Option.some.inj ho]
          exact acq
      · cases ho

/-! ## Objects of a table -/

end BlockM

namespace CpuGpuBlockAllocator
variable {p : BlockParams} {s s' : CpuGpuBlockAllocator} {live live' : List BlockRef} {r : BlockRef}

/-- The objects remember their hashes, and so do the objects before them. -/
def Settled (p : BlockParams) (s : CpuGpuBlockAllocator) (live : List BlockRef) : Prop :=
  ∀ r ∈ live, ∃ b, s.block? r = some b ∧ b.cachedContentHash = s.derivedHash p b ∧ ∀ q, b.prevBlock = some q → q ∈ live

theorem heldPrevHash_content {b : Block} (hprev : ∀ q, b.prevBlock = some q → s'.content? q = s.content? q) :
    s'.heldPrevHash b = s.heldPrevHash b := by
  have held (s : CpuGpuBlockAllocator) (q : BlockRef) :
      (s.block? q).bind (·.cachedContentHash) = (s.content? q).bind (·.2.2) := by
    unfold content?
    cases s.block? q <;> rfl
  unfold heldPrevHash
  cases hq : b.prevBlock with
  | none => rfl
  | some q =>
    dsimp only
    rw [held, held, hprev q hq]

theorem heldPrevHash_eq {b : Block} (hprev : ∀ q, b.prevBlock = some q → s'.block? q = s.block? q) :
    s'.heldPrevHash b = s.heldPrevHash b :=
  heldPrevHash_content fun q hq => congrArg (Option.map Block.content) (hprev q hq)

/-- What an object remembers depends on its contents and on the hash before it. -/
theorem remembers_content {b : Block} (hb : s.block? r = some b) (hheld : b.cachedContentHash = s.derivedHash p b)
    (hr : s'.content? r = s.content? r) (hprev : ∀ q, b.prevBlock = some q → s'.content? q = s.content? q) :
    ∃ b', s'.block? r = some b' ∧ b'.content = b.content ∧ b'.cachedContentHash = s'.derivedHash p b' := by
  unfold content? at hr
  rw [hb, Option.map_some, Option.map_eq_some_iff] at hr
  obtain ⟨b', hb', hcontent⟩ := hr
  have hc := hcontent
  simp only [Block.content, Prod.mk.injEq] at hc
  refine ⟨b', hb', hcontent, (hc.2.2.trans hheld).trans ?_⟩
  exact (derivedHash_congr hc.1 hc.2.1 (heldPrevHash_content hprev)).symm

theorem Settled.content (h : s.Settled p live) (same : ∀ q ∈ live, s'.content? q = s.content? q) : s'.Settled p live := by
  intro r hr
  obtain ⟨b, hb, hheld, hprev⟩ := h r hr
  obtain ⟨b', hb', hcontent, hheld'⟩ := remembers_content hb hheld (same r hr) fun q hq => same q (hprev q hq)
  exact ⟨b', hb', hheld', fun q hq => hprev q ((congrArg (·.1) hcontent).symm.trans hq)⟩

theorem Settled.same (h : s.Settled p live) (same : ∀ q ∈ live, s'.block? q = s.block? q) : s'.Settled p live :=
  h.content fun q hq => congrArg (Option.map Block.content) (same q hq)

theorem Settled.remembers (h : s.Settled p live) (hr : r ∈ live) : s.Remembers p r := by
  obtain ⟨b, hb, hheld, -⟩ := h r hr
  exact ⟨b, hb, hheld⟩

/-- The object `r` has these contents, and `x` is its reference to a physical block. -/
structure Sits (p : BlockParams) (s : CpuGpuBlockAllocator) (r : BlockRef) (prev : Option BlockRef)
    (tokenIds : List TokenId) (x : Ref) (b : Block) : Prop where
  object : s.block? r = some b
  prev : b.prevBlock = prev
  tokens : b.tokenIds = tokenIds
  blockId : b.blockId = some x.1
  hash : b.cachedContentHash = x.2
  derived : x.2 = s.derivedHash p b

/-- An object was handed out and given a physical block. -/
structure Creates (p : BlockParams) (live : List BlockRef) (refs : List Ref) (r : BlockRef) (prev : Option BlockRef)
    (tokenIds : List TokenId) (s s' : CpuGpuBlockAllocator) : Prop where
  inUse : s'.InUse (r :: live)
  same : ∀ q ∈ live, s'.block? q = s.block? q
  object : ∃ b x, s'.Sits p r prev tokenIds x b ∧ s'.Books (x :: refs)

end CpuGpuBlockAllocator

namespace BlockM
open CpuGpuBlockAllocator
variable {p : BlockParams} {d : Device} {r : BlockRef} {s s' s₁ : CpuGpuBlockAllocator} {live known : List BlockRef}
  {u : Unit} {prevBlock : Option BlockRef} {tokenIds : List TokenId} {refs : List Ref}

theorem allocateMutableBlock_creates (use : s.InUse live) (books : s.Books refs) (ok : s'.Harmless)
    (hrun : allocateMutableBlock p d prevBlock s = some (r, s')) : Creates p live refs r prevBlock [] s s' := by
  obtain ⟨id, s₁, hid, hrun⟩ := bind_iff.mp hrun
  obtain ⟨r', s₂, hinit, hrun⟩ := bind_iff.mp hrun
  obtain ⟨o, s₃, hhash, hrun⟩ := bind_iff.mp hrun
  obtain ⟨_, _, hreq, hrun⟩ := bind_iff.mp hrun
  rw [(require_iff.mp hreq).2] at hrun
  obtain ⟨rfl, rfl⟩ := pure_iff.mp hrun
  have hands := initBlock_handsOut hinit
  obtain ⟨n, hb⟩ := hands.object
  have hnone : s₂.derivedHash p ⟨prevBlock, [], some id, false, none, n⟩ = none :=
    if_pos (beq_eq_false_iff_ne.mpr (Nat.ne_of_lt p.pos))
  obtain ⟨-, rfl⟩ := contentHash_remembers hb hnone.symm hhash
  have acq := allocateBlockId_acquires use books (ok.advances (initBlock_advances p d _ _ _ _ _ _ hinit)) hid
  obtain ⟨use₂, same₂⟩ := hands.inUse acq.inUse ok
  exact ⟨use₂, fun q hq => (same₂ q hq).trans (acq.same q hq), _, (id, none), ⟨hb, rfl, rfl, rfl, rfl, hnone.symm⟩,
    acq.books.of_pools hands.books⟩

/-- Tokens for an object that was just created. -/
theorem appendTokenIds_creates (cr : Creates p live refs r prevBlock [] s s₁) (settled : s.Settled p known)
    (hknown : ∀ q ∈ known, q ∈ live) (hprev : ∀ q, prevBlock = some q → q ∈ known) (hrun : appendTokenIds p r tokenIds s₁ = some (u, s')) :
    Creates p live refs r prevBlock tokenIds s s' := by
  have hne (q : BlockRef) (hq : q ∈ live) : r ≠ q := by
    rintro rfl
    exact (List.nodup_cons.mp cr.inUse.nodup).1 hq
  obtain ⟨b, x, sits, books⟩ := cr.object
  rw [show x = (x.1, b.cachedContentHash) from Prod.ext rfl sits.hash.symm] at books
  have hprev' (q : BlockRef) (hq : b.prevBlock = some q) : r ≠ q ∧ s₁.Remembers p q := by
    rw [sits.prev] at hq
    exact ⟨hne q (hknown q (hprev q hq)), (settled.same fun q hq => cr.same q (hknown q hq)).remembers (hprev q hq)⟩
  obtain ⟨b', id, quiet, hcontent, hid, books', -⟩ := appendTokenIds_books sits.object sits.blockId
    (sits.hash.trans sits.derived) hprev' books hrun
  refine ⟨cr.inUse.quiet quiet, fun q hq => (quiet.object_ne (hne q hq)).trans (cr.same q hq), b',
    (id, b'.cachedContentHash), ⟨quiet.object sits.object, ?_, ?_, hid, rfl, ?_⟩, books'⟩
  · exact (congrArg (·.1) hcontent).trans sits.prev
  · refine (congrArg (·.2.1) hcontent).trans ?_
    rw [sits.tokens]
    rfl
  · refine (congrArg (·.2.2) hcontent).trans (derivedHash_congr rfl rfl (heldPrevHash_eq fun q hq => ?_)).symm
    rw [show b'.prevBlock = prevBlock from (congrArg (·.1) hcontent).trans sits.prev] at hq
    exact quiet.object_ne (hne q (hknown q (hprev q hq)))

/-- `allocate_immutable_block` first makes an object that has no block, and asks it for its hash. -/
structure Opens (p : BlockParams) (d : Device) (live : List BlockRef) (prevBlock : Option BlockRef)
    (tokenIds : List TokenId) (s : CpuGpuBlockAllocator) (r : BlockRef) (o : Option PrefixHash) (s' : CpuGpuBlockAllocator) :
    Prop where
  device : r.device = d
  inUse : s'.InUse (r :: live)
  same : ∀ q ∈ live, s'.block? q = s.block? q
  hash : o = s.derivedHash p ⟨prevBlock, tokenIds, none, false, none, 0⟩
  object : ∃ n, s'.block? r = some ⟨prevBlock, tokenIds, none, false, o, n⟩
  books : ∀ e, s'.on e = { s.on e with blockPool := (s'.on e).blockPool }

theorem allocateImmutableBlock_opens {o : Option PrefixHash} (use : s.InUse live) (settled : s.Settled p known)
    (hknown : ∀ q ∈ known, q ∈ live) (hprev : ∀ q, prevBlock = some q → q ∈ known) (ok : s₁.Harmless)
    (hinit : initBlock p d prevBlock tokenIds none s = some (r, s₁)) (hhash : contentHash p r s₁ = some (o, s')) :
    Opens p d live prevBlock tokenIds s r o s' := by
  have hands := initBlock_handsOut hinit
  obtain ⟨n, hb⟩ := hands.object
  obtain ⟨use₁, same₁⟩ := hands.inUse use ok
  obtain ⟨ho, eff⟩ := contentHash_derives hb rfl
    (fun q hq => (settled.same fun q hq => same₁ q (hknown q hq)).remembers (hprev q hq)) hhash d
  refine ⟨hands.device, use₁.quiet eff.toQuiet, fun q hq => ?_, ?_, ⟨n, eff.object hb⟩, fun e => ?_⟩
  · rw [eff.object_ne, same₁ q hq]
    rintro rfl
    exact (List.nodup_cons.mp use₁.nodup).1 hq
  · exact ho.trans (derivedHash_congr rfl rfl (heldPrevHash_eq fun q hq => same₁ q (hknown q (hprev q hq))))
  · rw [eff.books, hands.books]
    split <;> rfl

theorem Opens.ne {o : Option PrefixHash} (h : Opens p d live prevBlock tokenIds s r o s') : ∀ q ∈ live, r ≠ q := by
  rintro q hq rfl
  exact (List.nodup_cons.mp h.inUse.nodup).1 hq

theorem allocateImmutableBlock_creates (use : s.InUse live) (settled : s.Settled p known)
    (hknown : ∀ q ∈ known, q ∈ live) (books : s.Books refs) (hprev : ∀ q, prevBlock = some q → q ∈ known) (ok : s'.Harmless)
    (hrun : allocateImmutableBlock p d prevBlock tokenIds s = some (r, s')) :
    Creates p live refs r prevBlock tokenIds s s' := by
  obtain ⟨r', s₁, hinit, hrun⟩ := bind_iff.mp hrun
  obtain ⟨o, s₂, hhash, hrun⟩ := bind_iff.mp hrun
  obtain ⟨h, _, ho, hrun⟩ := bind_iff.mp hrun
  obtain ⟨ho, hs⟩ := ofOption_iff.mp ho
  rw [hs, self_bind] at hrun
  rw [ho] at hhash
  have opens (ok₂ : s₂.Harmless) : Opens p d live prevBlock tokenIds s r' (some h) s₂ :=
    allocateImmutableBlock_opens use settled hknown hprev (ok₂.advances (contentHash_advances p r' _ _ _ hhash)) hinit hhash
  cases hget : (s₂.on d).cachedBlocks.get? h with
  | some cachedId =>
    rw [hget] at hrun
    obtain ⟨_, s₃, hset, hrun⟩ := bind_iff.mp hrun
    obtain ⟨_, s₄, hincr, hrun⟩ := bind_iff.mp hrun
    obtain ⟨rfl, rfl⟩ := pure_iff.mp hrun
    have op := opens ((ok.advances (incrRefcountCachedBlock_advances d r _ _ _ hincr)).advances
      (setBlockId_advances r _ _ _ _ hset))
    obtain ⟨n, hb⟩ := op.object
    have eff₃ := modifyBlock_run hset d
    have hget' : (s₃.on d).cachedBlocks.get? h = some cachedId :=
      (congrArg (fun c => c.get? h) (congrArg (·.cachedBlocks) eff₃.on_self)).trans hget
    obtain ⟨quiet₄, books₄⟩ := incrRefcountCachedBlock_books (eff₃.object hb) rfl hget'
      ((books.of_pools op.books).quiet eff₃) hincr
    have quiet := eff₃.toQuiet.trans quiet₄
    have same (q : BlockRef) (hq : q ∈ live) : s'.block? q = s.block? q := (quiet.object_ne (op.ne q hq)).trans (op.same q hq)
    refine ⟨op.inUse.quiet quiet, same, _, (cachedId, some h), ⟨quiet.object hb, rfl, rfl, rfl, rfl, op.hash.trans ?_⟩, books₄⟩
    exact (derivedHash_congr rfl rfl (heldPrevHash_eq fun q hq => same q (hknown q (hprev q hq)))).symm
  | none =>
    rw [hget] at hrun
    obtain ⟨_, s₃, hfree, hrun⟩ := bind_iff.mp hrun
    obtain ⟨r'', s₄, hmut, hrun⟩ := bind_iff.mp hrun
    obtain ⟨_, s₅, happend, hrun⟩ := bind_iff.mp hrun
    obtain ⟨rfl, rfl⟩ := pure_iff.mp hrun
    have ok₄ := ok.advances (appendTokenIds_advances p r tokenIds _ _ _ happend)
    have op := opens ((ok₄.advances (allocateMutableBlock_advances p d prevBlock _ _ _ hmut)).advances
      (freeBlock_advances d r' _ _ _ hfree))
    obtain ⟨use₃, same₃, hon₃⟩ := freeBlock_inUse op.inUse hfree
    have same₃ (q : BlockRef) (hq : q ∈ live) : s₃.block? q = s.block? q := (same₃ q).trans (op.same q hq)
    have cr := allocateMutableBlock_creates use₃ ((books.of_pools op.books).of_pools hon₃) ok₄ hmut
    have cr' := appendTokenIds_creates cr (settled.same fun q hq => same₃ q (hknown q hq)) hknown hprev happend
    exact ⟨cr'.inUse, fun q hq => (cr'.same q hq).trans (same₃ q hq), cr'.object⟩

end BlockM

end CoreFlow
