import CoreFlow.Block.Detects
import CoreFlow.Block.Taking

/-!
# Enough room for a table

A free or evictable block for each hash that is not in use, and one for a last block that is not full: with that an
allocation does not raise `NoFreeBlocksError`, whatever the evictor finds, and if it returns it has taken just these
blocks.
-/

namespace CoreFlow
open Prog

namespace BlockM
open CpuGpuBlockAllocator
variable {p : BlockParams} {d : Device} {r : BlockRef} {s s' : CpuGpuBlockAllocator} {live known : List BlockRef}
  {prevBlock : Option BlockRef} {tokenIds : List TokenId} {blockId id : BlockId} {o : Option BlockId} {refs : List Ref}
  {b : Block} {h : PrefixHash}

/-! ## The blocks belong to the device -/

theorem maybeAllocateHashlessBlockId_some {rest : List BlockId} (hfree : (s.on d).freeBlockIndices = blockId :: rest)
    (hrun : maybeAllocateHashlessBlockId p d s = some (o, s')) : o = some blockId := by
  rw [maybeAllocateHashlessBlockId, self_bind, hfree] at hrun
  obtain ⟨_, s₁, -, hrun⟩ := bind_iff.mp hrun
  obtain ⟨_, s₂, -, hrun⟩ := bind_iff.mp hrun
  obtain ⟨_, s₃, -, hrun⟩ := bind_iff.mp hrun
  obtain ⟨_, s₄, -, hrun⟩ := bind_iff.mp hrun
  obtain ⟨_, s₅, -, hrun⟩ := bind_iff.mp hrun
  exact (pure_iff.mp hrun).1

theorem maybeAllocateEvictedBlockId_some (hne : (s.on d).evictor.numBlocks ≠ 0)
    (hrun : maybeAllocateEvictedBlockId d s = some (o, s')) :
    ∃ id h, o = some id ∧ (s.on d).cachedBlocks.get? h = some id := by
  rw [maybeAllocateEvictedBlockId, self_bind, if_neg hne] at hrun
  obtain ⟨⟨⟨id, h⟩, e⟩, _, he, hrun⟩ := bind_iff.mp hrun
  rw [(ofOption_iff.mp he).2] at hrun
  obtain ⟨_, s₁, -, hrun⟩ := bind_iff.mp hrun
  obtain ⟨cachedId, _, hcached, hrun⟩ := bind_iff.mp hrun
  obtain ⟨hcached, hs⟩ := ofOption_iff.mp hcached
  rw [hs] at hrun
  obtain ⟨n, _, hn, hrun⟩ := bind_iff.mp hrun
  rw [(refcount_iff.mp hn).2] at hrun
  obtain ⟨_, _, hreq, hrun⟩ := bind_iff.mp hrun
  rw [(require_iff.mp hreq).2] at hrun
  obtain ⟨_, _, hreq, hrun⟩ := bind_iff.mp hrun
  obtain ⟨rfl, hs⟩ := require_iff.mp hreq
  rw [hs] at hrun
  obtain ⟨_, s₂, -, hrun⟩ := bind_iff.mp hrun
  obtain ⟨_, s₃, -, hrun⟩ := bind_iff.mp hrun
  obtain ⟨_, s₄, -, hrun⟩ := bind_iff.mp hrun
  exact ⟨cachedId, h, (pure_iff.mp hrun).1, hcached⟩

theorem allocateBlockId_here (books : s.Books refs) (hrun : allocateBlockId p d s = some (id, s')) :
    id ∈ (s.on d).allBlockIndices := by
  have acc := books.accounts d
  obtain ⟨o, s₁, hfree, hrun⟩ := bind_iff.mp hrun
  cases hlist : (s.on d).freeBlockIndices with
  | cons blockId rest =>
    obtain rfl := maybeAllocateHashlessBlockId_some hlist hfree
    rw [(pure_iff.mp hrun).1]
    refine (acc.free blockId ?_).1
    rw [hlist]
    exact List.mem_cons_self
  | nil =>
    rw [maybeAllocateHashlessBlockId_none hlist] at hfree
    cases hfree
    obtain ⟨o, s₂, hevict, hrun⟩ := bind_iff.mp hrun
    by_cases hzero : (s.on d).evictor.numBlocks = 0
    · rw [maybeAllocateEvictedBlockId_none hzero] at hevict
      cases hevict
      exact (raise_iff.mp hrun).elim
    · obtain ⟨id', h, rfl, hcached⟩ := maybeAllocateEvictedBlockId_some hzero hevict
      rw [(pure_iff.mp hrun).1]
      exact acc.cachedHere h id' hcached

/-- A new object is the only holder of a block of the device. -/
structure Fresh (p : BlockParams) (d : Device) (live : List BlockRef) (refs : List Ref) (prevBlock : Option BlockRef)
    (r : BlockRef) (id : BlockId) (b : Block) (s s' : CpuGpuBlockAllocator) : Prop where
  device : r.device = d
  inUse : s'.InUse (r :: live)
  same : ∀ q ∈ live, s'.block? q = s.block? q
  books : s'.Books ((id, none) :: refs)
  here : id ∈ (s.on d).allBlockIndices
  blocks : ∀ e, (s'.on e).allBlockIndices = (s.on e).allBlockIndices
  sole : (s'.on d).refcounts.get? id = some 1
  object : s'.block? r = some b
  prev : b.prevBlock = prevBlock
  tokens : b.tokenIds = []
  blockId : b.blockId = some id
  hash : b.cachedContentHash = none
  derived : b.cachedContentHash = s'.derivedHash p b

theorem allocateMutableBlock_fresh (use : s.InUse live) (books : s.Books refs) (ok : s'.Harmless)
    (hrun : allocateMutableBlock p d prevBlock s = some (r, s')) : ∃ id b, Fresh p d live refs prevBlock r id b s s' := by
  have cr := allocateMutableBlock_creates use books ok hrun
  have blocks := (allocateMutableBlock_advances p d prevBlock _ _ _ hrun).blocks
  obtain ⟨id, s₁, hid, hrun⟩ := bind_iff.mp hrun
  obtain ⟨r', s₂, hinit, hrun⟩ := bind_iff.mp hrun
  obtain ⟨o, s₃, hhash, hrun⟩ := bind_iff.mp hrun
  obtain ⟨_, _, hreq, hrun⟩ := bind_iff.mp hrun
  rw [(require_iff.mp hreq).2] at hrun
  obtain ⟨rfl, rfl⟩ := pure_iff.mp hrun
  have hands := initBlock_handsOut hinit
  obtain ⟨n, hb⟩ := hands.object
  have hopen : Block.isFull p ⟨prevBlock, [], some id, false, none, n⟩ = false :=
    beq_eq_false_iff_ne.mpr (Nat.ne_of_lt p.pos)
  rw [contentHash_open hb rfl hopen] at hhash
  cases hhash
  obtain ⟨b, x, sits, books'⟩ := cr.object
  obtain rfl := Option.some.inj (hb.symm.trans sits.object)
  have hin := allocateBlockId_here books hid
  have hin' : id ∈ (s'.on d).allBlockIndices := by rwa [blocks]
  rw [show x = (id, none) from Prod.ext (Option.some.inj sits.blockId).symm sits.hash.symm] at books'
  have acc := books'.accounts d
  refine ⟨id, _, hands.device, cr.inUse, cr.same, books', hin, blocks, ?_, hb, rfl, rfl, rfl, rfl, sits.hash.trans sits.derived⟩
  rw [acc.refcount, if_pos hin', (acc.mutable id List.mem_cons_self hin').1]

theorem Fresh.ne {b : Block} (f : Fresh p d live refs prevBlock r id b s s') : ∀ q ∈ live, r ≠ q := by
  rintro q hq rfl
  exact (List.nodup_cons.mp f.inUse.nodup).1 hq

/-- Tokens for a new object: it may come to share a block, one of the device. -/
theorem Fresh.append {b : Block} {s₁ : CpuGpuBlockAllocator} {u : Unit} (f : Fresh p d live refs prevBlock r id b s s₁)
    (settled : s.Settled p known) (hknown : ∀ q ∈ known, q ∈ live) (hprev : ∀ q, prevBlock = some q → q ∈ known)
    (hrun : appendTokenIds p r tokenIds s₁ = some (u, s')) :
    ∃ b' id', s'.block? r = some b' ∧ b'.blockId = some id' ∧ id' ∈ (s.on d).allBlockIndices ∧
      (∀ q ∈ live, s'.block? q = s.block? q) ∧ s'.Books ((id', b'.cachedContentHash) :: refs) ∧
      (tokenIds.length < p.blockSize → b'.cachedContentHash = none) := by
  have hprev' (q : BlockRef) (hq : b.prevBlock = some q) : r ≠ q ∧ s₁.Remembers p q := by
    rw [f.prev] at hq
    exact ⟨f.ne q (hknown q (hprev q hq)), (settled.same fun q hq => f.same q (hknown q hq)).remembers (hprev q hq)⟩
  have books₁ := f.books
  rw [← f.hash] at books₁
  obtain ⟨b', id', quiet, hcontent, hid', books', -, here⟩ := appendTokenIds_books f.object f.blockId f.derived hprev' books₁ hrun
  refine ⟨b', id', quiet.object f.object, hid', ?_, fun q hq => (quiet.object_ne (f.ne q hq)).trans (f.same q hq), books', ?_⟩
  · have hin := here (by rw [f.device, f.blocks]; exact f.here)
    rwa [f.device, f.blocks] at hin
  · intro hlt
    simp only [Block.content, f.tokens, List.nil_append, Prod.mk.injEq] at hcontent
    rw [hcontent.2.2]
    refine if_pos (beq_eq_false_iff_ne.mpr ?_)
    rw [hcontent.2.1]
    exact hlt.ne

theorem allocateImmutableBlock_here (use : s.InUse live) (books : s.Books refs) (settled : s.Settled p known)
    (hknown : ∀ q ∈ known, q ∈ live) (hprev : ∀ q, prevBlock = some q → q ∈ known) (ok : s'.Harmless)
    (hrun : allocateImmutableBlock p d prevBlock tokenIds s = some (r, s')) :
    (∃ h, newHash p s prevBlock tokenIds = some h) ∧ ∃ id, s'.idOf? r = some id ∧ id ∈ (s.on d).allBlockIndices := by
  obtain ⟨r', s₁, hinit, hrun⟩ := bind_iff.mp hrun
  obtain ⟨o, s₂, hhash, hrun⟩ := bind_iff.mp hrun
  obtain ⟨h, _, ho, hrun⟩ := bind_iff.mp hrun
  obtain ⟨ho, hs⟩ := ofOption_iff.mp ho
  rw [hs, self_bind] at hrun
  have opens (ok₂ : s₂.Harmless) : Opens p d live prevBlock tokenIds s r' o s₂ :=
    allocateImmutableBlock_opens use settled hknown hprev (ok₂.advances (contentHash_advances p r' _ _ _ hhash))
      hinit hhash
  cases hget : (s₂.on d).cachedBlocks.get? h with
  | some cachedId =>
    rw [hget] at hrun
    obtain ⟨_, s₃, hset, hrun⟩ := bind_iff.mp hrun
    obtain ⟨_, s₄, hincr, hrun⟩ := bind_iff.mp hrun
    obtain ⟨rfl, rfl⟩ := pure_iff.mp hrun
    have op := opens ((ok.advances (incrRefcountCachedBlock_advances d r _ _ _ hincr)).advances
      (setBlockId_advances r _ _ _ _ hset))
    obtain ⟨n, hb⟩ := op.object
    have eff₃ := modifyBlock_run hset d
    have hget₃ : (s₃.on d).cachedBlocks.get? h = some cachedId :=
      (congrArg (fun c => c.get? h) (congrArg (·.cachedBlocks) eff₃.on_self)).trans hget
    obtain ⟨quiet₄, -⟩ := incrRefcountCachedBlock_books (eff₃.object hb) rfl hget₃ ((books.of_pools op.books).quiet eff₃) hincr
    refine ⟨⟨h, op.hash.symm.trans ho⟩, cachedId, ?_, (books.accounts d).cachedHere h cachedId ?_⟩
    · unfold idOf?
      rw [quiet₄.object (eff₃.object hb)]
      rfl
    · rw [op.books] at hget
      exact hget
  | none =>
    rw [hget] at hrun
    obtain ⟨_, s₃, hfree, hrun⟩ := bind_iff.mp hrun
    obtain ⟨r'', s₄, hmut, hrun⟩ := bind_iff.mp hrun
    obtain ⟨_, s₅, happend, hrun⟩ := bind_iff.mp hrun
    obtain ⟨rfl, rfl⟩ := pure_iff.mp hrun
    have ok₄ := ok.advances (appendTokenIds_advances p r tokenIds _ _ _ happend)
    have op := opens ((ok₄.advances (allocateMutableBlock_advances p d prevBlock _ _ _ hmut)).advances
      (freeBlock_advances d r' _ _ _ hfree))
    obtain ⟨use₃, same₃, hon₃⟩ := freeBlock_inUse op.inUse hfree
    have same (q : BlockRef) (hq : q ∈ known) : s₃.block? q = s.block? q := (same₃ q).trans (op.same q (hknown q hq))
    obtain ⟨id, b, fresh⟩ := allocateMutableBlock_fresh use₃ ((books.of_pools op.books).of_pools hon₃) ok₄ hmut
    obtain ⟨b', id', hb', hid', hin, -⟩ := fresh.append (settled.same same) hknown hprev happend
    rw [hon₃, op.books] at hin
    refine ⟨⟨h, op.hash.symm.trans ho⟩, id', ?_, hin⟩
    unfold idOf?
    rw [hb']
    exact hid'

/-! ## What has been taken -/

variable {i n : Nat}

/-- The next full block of a chain. -/
theorem allocateImmutableBlock_took (use : s.InUse live) (books : s.Books refs)
    (at_ : AtBlock p tokenIds s live known prevBlock i) (hfull : (i + 1) * p.blockSize ≤ tokenIds.length) (ok : s'.Harmless)
    (hrun : allocateImmutableBlock p d prevBlock (slice p tokenIds i) s = some (r, s')) :
    ∃ id, Takes p d live known refs r id (hashAt p tokenIds i) s s' := by
  have after := at_.after
  obtain ⟨⟨h, hh⟩, id, hid, hin⟩ := allocateImmutableBlock_here use books after.settled after.live
    (fun q hq => (after.prev q hq).1) ok hrun
  have cr := allocateImmutableBlock_creates use after.settled after.live books (fun q hq => (after.prev q hq).1) ok hrun
  have hhash : h = hashAt p tokenIds i := by
    rw [at_.newHash_eq hfull] at hh
    split at hh
    · cases hh
    · exact (Option.some.inj hh).symm
  rw [hhash] at hh
  exact ⟨id, takes_of_creates cr after (allocateImmutableBlock_advances p d _ _ _ _ _ hrun).toGrows hh hid hin⟩

/-- The full blocks of a chain: a block was taken for each hash that was not in use. -/
theorem allocateImmutableBlocks_took {rs : List BlockRef} (use : s.InUse live) (books : s.Books refs)
    (at_ : AtBlock p tokenIds s live known prevBlock i) (hfull : (i + n) * p.blockSize ≤ tokenIds.length) (ok : s'.Harmless)
    (hrun : allocateImmutableBlocks p d prevBlock (slicesFrom p tokenIds i n) s = some (rs, s')) :
    (s'.on d).getNumFreeBlocks + (s.on d).numToTake (hashesFrom p tokenIds i n) = (s.on d).getNumFreeBlocks ∧
      (∀ q ∈ live, s'.block? q = s.block? q) ∧ List.Forall₂ (Carries d s') rs (hashesFrom p tokenIds i n) := by
  induction n generalizing i s live known refs prevBlock rs with
  | zero =>
    obtain ⟨rfl, rfl⟩ := pure_iff.mp hrun
    exact ⟨rfl, fun _ _ => rfl, List.Forall₂.nil⟩
  | succ n ih =>
    rw [slicesFrom_succ] at hrun
    obtain ⟨r, s₁, hr, hrun⟩ := bind_iff.mp hrun
    obtain ⟨rs', s₂, hrs, hrun⟩ := bind_iff.mp hrun
    obtain ⟨rfl, rfl⟩ := pure_iff.mp hrun
    have adv := allocateImmutableBlocks_advances p d _ _ _ _ _ hrs
    have hfull₁ : (i + 1) * p.blockSize ≤ tokenIds.length := (Nat.mul_le_mul_right _ (by omega)).trans hfull
    obtain ⟨id, taken⟩ := allocateImmutableBlock_took use books at_ hfull₁ (ok.advances adv) hr
    rw [show i + (n + 1) = i + 1 + n by omega] at hfull
    obtain ⟨hcount, same, carries⟩ := ih taken.inUse taken.books (at_.next taken) hfull hrs
    have hfree := taken.numFree books
    have htake := taken.numToTake books (hashesFrom p tokenIds (i + 1) n)
    rw [hashesFrom_succ, htake]
    refine ⟨by omega, fun q hq => (same q (List.mem_cons_of_mem _ hq)).trans (taken.same q hq), List.Forall₂.cons ?_ carries⟩
    obtain ⟨b, id', hb, hh, hid, hin⟩ := taken.carries
    exact ⟨b, id', (same r List.mem_cons_self).trans hb, hh, hid, by rw [adv.blocks]; exact hin⟩

end BlockM

/-! ## Attempts with room -/

namespace BlockAttempt
open CpuGpuBlockAllocator Attempt BlockM
variable {p : BlockParams} {d : Device} {r : BlockRef} {s : CpuGpuBlockAllocator} {live known : List BlockRef}
  {prevBlock : Option BlockRef} {tokenIds : List TokenId} {blockId : BlockId} {refs : List Ref} {b : Block}

theorem other_ne : Raised.other ≠ Raised.noFreeBlocks := Raised.noConfusion

theorem allocateBlockId_avoids (room : 0 < (s.on d).getNumFreeBlocks) : Avoids .noFreeBlocks (allocateBlockId p d) s := by
  refine Avoids.step other_ne fun o s₁ hfree => ?_
  cases o with
  | some blockId => exact .pure blockId
  | none =>
    have hnil : (s.on d).freeBlockIndices = [] := by
      cases hlist : (s.on d).freeBlockIndices with
      | nil => rfl
      | cons blockId rest => cases maybeAllocateHashlessBlockId_some hlist hfree
    rw [maybeAllocateHashlessBlockId_none hnil] at hfree
    cases hfree
    refine Avoids.step other_ne fun o s₂ hevict => ?_
    cases o with
    | some blockId => exact .pure blockId
    | none =>
      unfold PrefixCachingBlockAllocator.getNumFreeBlocks at room
      rw [hnil, List.length_nil, Nat.zero_add] at room
      obtain ⟨id, h, ho, -⟩ := maybeAllocateEvictedBlockId_some (Nat.ne_of_gt room) hevict
      cases ho

theorem allocateMutableBlock_avoids (room : 0 < (s.on d).getNumFreeBlocks) :
    Avoids .noFreeBlocks (allocateMutableBlock p d prevBlock) s :=
  .bind (allocateBlockId_avoids room) fun _ _ _ => .step other_ne fun _ _ _ => .step other_ne fun _ _ _ =>
    .step other_ne fun _ _ _ => .pure _

/-- Only an object that shares its block would need another one. -/
theorem appendTokenIds_avoids (hb : s.block? r = some b) (hid : b.blockId = some blockId)
    (hr : b.cachedContentHash = s.derivedHash p b) (hn : (s.on r.device).refcounts.get? blockId = some 1) :
    Avoids .noFreeBlocks (appendTokenIds p r tokenIds) s := by
  refine .step other_ne fun o s₁ hhash => ?_
  rw [(contentHash_remembers hb hr hhash).2]
  refine .step other_ne fun _ s₂ hreq => ?_
  rw [(require_iff.mp hreq).2]
  refine .step other_ne fun b' s₃ hget => ?_
  obtain ⟨hb', hs⟩ := getBlock_iff.mp hget
  obtain rfl := Option.some.inj (hb.symm.trans hb')
  rw [hs]
  refine .step other_ne fun _ s₄ hreq => ?_
  rw [(require_iff.mp hreq).2]
  refine .ite (fun _ => .pure _) fun _ => .step other_ne fun _ s₅ hreq => ?_
  rw [(require_iff.mp hreq).2]
  refine .step other_ne fun _ s₆ hset => .bind ?_ fun _ _ _ => .step other_ne fun _ _ _ => .step other_ne fun o _ _ => ?_
  · have eff := modifyBlock_run hset r.device
    have hn₆ : (s₆.on r.device).refcounts.get? blockId = some 1 := by
      rw [eff.on_self]
      exact hn
    have hcow := (cowBlockIfNotAppendable_follows (p := p) r.device r s₆).1 _ _
      (cowBlockIfNotAppendable_run (eff.object hb) hid hn₆)
    unfold Attempt.when
    exact .ite (fun _ => .bind (.of_ok hcow) fun _ _ _ => .lift other_ne) fun _ => .pure _
  · cases o with
    | none => exact .pure _
    | some h => exact .step other_ne fun _ _ _ => .lift other_ne

theorem fresh_avoids {id : BlockId} {s₁ : CpuGpuBlockAllocator} (f : Fresh p d live refs prevBlock r id b s s₁) :
    Avoids .noFreeBlocks (appendTokenIds p r tokenIds) s₁ :=
  appendTokenIds_avoids f.object f.blockId f.derived (by rw [f.device]; exact f.sole)

/-- A full block that is in use under its hash, or one for which there is a block. -/
theorem allocateImmutableBlock_avoids (use : s.InUse live) (books : s.Books refs) (settled : s.Settled p known)
    (hknown : ∀ q ∈ known, q ∈ live) (hprev : ∀ q, prevBlock = some q → q ∈ known)
    (room : ∀ h, newHash p s prevBlock tokenIds = some h → (s.on d).hashInUse h = true ∨ 0 < (s.on d).getNumFreeBlocks) :
    AvoidsUnless Harmless .noFreeBlocks (allocateImmutableBlock p d prevBlock tokenIds) s := by
  refine .step other_ne fun r s₁ hinit => .step other_ne fun o s₂ hhash => .step other_ne fun h s₃ ho => ?_
  obtain ⟨rfl, hs⟩ := ofOption_iff.mp ho
  rw [hs]
  refine .step other_ne fun a s₄ hself => ?_
  obtain ⟨rfl, rfl⟩ : a = s₂.on d ∧ s₄ = s₂ := by
    cases hself
    exact ⟨rfl, rfl⟩
  cases hget : (s₄.on d).cachedBlocks.get? h with
  | some cachedId => exact .step other_ne fun _ _ _ => .step other_ne fun _ _ _ _ => .pure _
  | none =>
    refine .step other_ne fun _ s₃ hput => ?_
    have detects (r : BlockRef) : Detects Harmless (do
        appendTokenIds p r tokenIds
        pure r) := .bind (appendTokenIds_detects r tokenIds) fun _ => .pure _
    intro ok
    have ok₃ : s₃.Harmless := (allocateMutableBlock_detects d prevBlock).bind detects s₃ ok
    have op := allocateImmutableBlock_opens use settled hknown hprev
      ((ok₃.advances (freeBlock_advances d r _ _ _ hput)).advances (contentHash_advances p r _ _ _ hhash)) hinit hhash
    obtain ⟨use₃, same₃, hon₃⟩ := freeBlock_inUse op.inUse hput
    have books₃ := (books.of_pools op.books).of_pools hon₃
    have room₃ : 0 < (s₃.on d).getNumFreeBlocks := by
      rw [hon₃, op.books]
      refine (room h op.hash.symm).resolve_left fun hused => ?_
      rw [op.books] at hget
      unfold PrefixCachingBlockAllocator.hashInUse at hused
      rw [show (s.on d).cachedBlocks.get? h = none from hget] at hused
      cases hused
    refine AvoidsUnless.bind (fun _ => allocateMutableBlock_avoids room₃) detects (fun r' s₄ hmut ok₄ _ => ?_) ok
    have hmut := (allocateMutableBlock_follows d prevBlock).returns hmut
    obtain ⟨id, b, fresh⟩ := allocateMutableBlock_fresh use₃ books₃ ok₄ hmut
    exact (fresh_avoids fresh).bind fun _ _ _ => .pure _

variable {i n : Nat}

/-- The full blocks of a chain, with a block for each hash that is not in use. -/
theorem allocateImmutableBlocks_avoids (use : s.InUse live) (books : s.Books refs)
    (at_ : AtBlock p tokenIds s live known prevBlock i) (hfull : (i + n) * p.blockSize ≤ tokenIds.length)
    (room : (s.on d).numToTake (hashesFrom p tokenIds i n) ≤ (s.on d).getNumFreeBlocks) :
    AvoidsUnless Harmless .noFreeBlocks (allocateImmutableBlocks p d prevBlock (slicesFrom p tokenIds i n)) s := by
  induction n generalizing i s live known refs prevBlock with
  | zero => exact fun _ => .pure _
  | succ n ih =>
    have hfull₁ : (i + 1) * p.blockSize ≤ tokenIds.length := (Nat.mul_le_mul_right _ (by omega)).trans hfull
    rw [show i + (n + 1) = i + 1 + n by omega] at hfull
    rw [slicesFrom_succ]
    have after := at_.after
    refine .bind (allocateImmutableBlock_avoids use books after.settled after.live (fun q hq => (after.prev q hq).1) fun h hh => ?_)
      (fun r => .bind (allocateImmutableBlocks_detects d (some r) _) fun _ => .pure _) fun r s₁ hr ok₁ => ?_
    · rw [at_.newHash_eq hfull₁] at hh
      split at hh
      · cases hh
      · obtain rfl := Option.some.inj hh
        by_cases hused : (s.on d).hashInUse (hashAt p tokenIds i) = true
        · exact .inl hused
        · refine .inr (lt_of_lt_of_le ?_ room)
          rw [PrefixCachingBlockAllocator.numToTake_pos]
          refine ⟨hashAt p tokenIds i, ?_, Bool.not_eq_true _ ▸ hused⟩
          rw [hashesFrom_succ]
          exact List.mem_cons_self
    · have hr := (allocateImmutableBlock_follows d prevBlock _).returns hr
      obtain ⟨id, taken⟩ := allocateImmutableBlock_took use books at_ hfull₁ ok₁ hr
      have hfree := taken.numFree books
      have htake := taken.numToTake books (hashesFrom p tokenIds (i + 1) n)
      rw [hashesFrom_succ, htake] at room
      exact .bind (ih taken.inUse taken.books (at_.next taken) hfull (by omega)) (fun _ => .pure _) fun _ _ _ _ _ => .pure _

end BlockAttempt

/-! ## Tables -/

namespace BlockTable
open CpuGpuBlockAllocator BlockM
variable {p : BlockParams} {d : Device} {s s' : CpuGpuBlockAllocator} {t : BlockTable} {blocks live : List BlockRef}
  {refs : List Ref} {tokenIds : List TokenId}

/-- The number of free blocks that a table for the token list takes. -/
def numToTake (p : BlockParams) (d : Device) (tokenIds : List TokenId) (s : CpuGpuBlockAllocator) : Nat :=
  (s.on d).numToTake (blockHashes p tokenIds) + if tokenIds.length % p.blockSize = 0 then 0 else 1

/-- A table for the token list has taken its blocks from the device. -/
structure Took (p : BlockParams) (d : Device) (tokenIds : List TokenId) (s : CpuGpuBlockAllocator) (blocks : List BlockRef)
    (s' : CpuGpuBlockAllocator) : Prop where
  numFree : (s'.on d).getNumFreeBlocks + numToTake p d tokenIds s = (s.on d).getNumFreeBlocks
  here : ∀ x ∈ s'.refsOf blocks, x.1 ∈ (s.on d).allBlockIndices
  filled : ∃ filled tail, blocks = filled ++ tail ∧ List.Forall₂ (Carries d s') filled (blockHashes p tokenIds) ∧
    (tokenIds.length % p.blockSize = 0 → tail = [])

theorem refsOf_here {filled : List BlockRef} {hashes : List PrefixHash} (carries : List.Forall₂ (Carries d s) filled hashes) :
    ∀ x ∈ s.refsOf filled, x.1 ∈ (s.on d).allBlockIndices := by
  intro x hx
  obtain ⟨r, hr, hx⟩ := List.mem_filterMap.mp hx
  obtain ⟨h, -, b, id, hb, -, hid, hin⟩ := exists_right_of_forall₂ carries hr
  rw [refOf_eq hb hid] at hx
  cases hx
  exact hin

theorem allocateBlocksForTokenIds_took (use : s.InUse live) (books : s.Books refs) (ok : s'.Harmless)
    (hrun : allocateBlocksForTokenIds p tokenIds d s = some (blocks, s')) : Took p d tokenIds s blocks s' := by
  unfold allocateBlocksForTokenIds at hrun
  rw [filter_full, filter_tail, List.range_eq_range'] at hrun
  obtain ⟨filled, s₁, hfilled, hrun⟩ := bind_iff.mp hrun
  have empty : Owns p s [] [] (tokenIds.length / p.blockSize) [] live refs := .nil use books
  have owned (ok₁ : s₁.Harmless) := allocateImmutableBlocks_owns empty
    (by rw [List.length_nil, List.length_map, List.length_range', numFullBlocks]; omega) ok₁ hfilled
  have full (ok₁ : s₁.Harmless) := allocateImmutableBlocks_took use books (atBlock_zero tokenIds) numFullBlocks_mul_le ok₁ hfilled
  rw [hashesFrom_zero] at full
  by_cases hmod : tokenIds.length % p.blockSize = 0
  · rw [tailSlice, if_pos hmod] at hrun
    obtain ⟨rfl, rfl⟩ := pure_iff.mp hrun
    obtain ⟨hcount, -, carries⟩ := full ok
    refine ⟨?_, fun x hx => ?_, blocks, [], (List.append_nil _).symm, carries, fun _ => rfl⟩
    · unfold numToTake
      rw [if_pos hmod]
      exact hcount
    · rw [← (allocateImmutableBlocks_advances p d _ _ _ _ _ hfilled).blocks]
      exact refsOf_here carries x hx
  · rw [tailSlice, if_neg hmod] at hrun
    obtain ⟨r, s₂, hr, hrun⟩ := bind_iff.mp hrun
    obtain ⟨_, s₃, happend, hrun⟩ := bind_iff.mp hrun
    obtain ⟨rfl, rfl⟩ := pure_iff.mp hrun
    have adv₃ := BlockM.appendTokenIds_advances p r _ _ _ _ happend
    have adv₂ := allocateMutableBlock_advances p d _ _ _ _ hr
    have adv₁ := allocateImmutableBlocks_advances p d _ _ _ _ _ hfilled
    have ok₂ := ok.advances adv₃
    have ok₁ := ok₂.advances adv₂
    have hshort : (slice p tokenIds (numFullBlocks p tokenIds)).length < p.blockSize := by
      apply length_of_mem_tailSlice
      rw [tailSlice, if_neg hmod]
      exact List.mem_singleton_self _
    obtain ⟨ids, h, -, -⟩ := owned ok₁
    obtain ⟨hcount, -, carries⟩ := full ok₁
    rw [List.nil_append] at h
    obtain ⟨id, b, fresh⟩ := allocateMutableBlock_fresh h.inUse h.books ok₂ hr
    obtain ⟨b', id', hb', hid', hin, same, books₃, hopen⟩ := fresh.append h.chained.settled
      (fun q hq => List.mem_append_left _ hq) (fun q hq => getLast?_mem hq) happend
    have hlast : s'.refOf r = some (id', none) := by
      rw [refOf_eq hb' hid', hopen hshort]
    have all : (s'.on d).allBlockIndices = (s₁.on d).allBlockIndices := (adv₃.blocks _).trans (adv₂.blocks _)
    refine ⟨?_, fun x hx => ?_, filled, [r], rfl, carries_same carries (fun q hq => same q (List.mem_append_left _ hq)) all,
      fun hzero => absurd hzero hmod⟩
    · rw [hopen hshort] at books₃
      have htake := PrefixCachingBlockAllocator.numFree_takeNew (h.books.accounts d) (books₃.accounts d) all
        (h.books.distinct d) hin
      unfold numToTake
      rw [if_neg hmod]
      omega
    · rw [← adv₁.blocks]
      rw [refsOf_append] at hx
      rcases List.mem_append.mp hx with hx | hx
      · rw [refsOf_same fun q hq => same q (List.mem_append_left _ hq)] at hx
        exact refsOf_here carries x hx
      · obtain ⟨q, hq, hx⟩ := List.mem_filterMap.mp hx
        rw [List.mem_singleton.mp hq, hlast] at hx
        cases hx
        exact hin

theorem allocate_took (use : s.InUse live) (books : s.Books refs) (ok : s'.Harmless)
    (hrun : empty.allocate p tokenIds d s = some (t, s')) : Took p d tokenIds s t.blocks s' := by
  obtain ⟨_, _, hreq, hrun⟩ := bind_iff.mp hrun
  rw [(require_iff.mp hreq).2] at hrun
  obtain ⟨_, _, hreq, hrun⟩ := bind_iff.mp hrun
  rw [(require_iff.mp hreq).2] at hrun
  obtain ⟨blocks, s₁, hblocks, hrun⟩ := bind_iff.mp hrun
  obtain ⟨t₁, s₂, hupdate, hrun⟩ := bind_iff.mp hrun
  obtain ⟨rfl, rfl⟩ := pure_iff.mp hrun
  obtain ⟨hs, ht, -⟩ := update_reads hupdate
  rw [hs] at ok ⊢
  rw [show t₁.blocks = blocks from congrArg (·.blocks) ht]
  exact allocateBlocksForTokenIds_took use books ok hblocks

end BlockTable

namespace BlockAttempt
open CpuGpuBlockAllocator Attempt BlockM
variable {p : BlockParams} {d : Device} {s : CpuGpuBlockAllocator} {live : List BlockRef} {refs : List Ref}
  {tokenIds : List TokenId}

theorem allocateBlocksForTokenIds_avoids (use : s.InUse live) (books : s.Books refs)
    (room : BlockTable.numToTake p d tokenIds s ≤ (s.on d).getNumFreeBlocks) :
    AvoidsUnless Harmless .noFreeBlocks (allocateBlocksForTokenIds p tokenIds d) s := by
  unfold BlockTable.numToTake at room
  unfold allocateBlocksForTokenIds
  dsimp only
  rw [filter_full, filter_tail, List.range_eq_range']
  have full : AvoidsUnless Harmless .noFreeBlocks (allocateImmutableBlocks p d none (slicesFrom p tokenIds 0
      (numFullBlocks p tokenIds))) s := by
    refine allocateImmutableBlocks_avoids use books (atBlock_zero tokenIds) BlockTable.numFullBlocks_mul_le ?_
    rw [BlockTable.hashesFrom_zero]
    omega
  by_cases hmod : tokenIds.length % p.blockSize = 0
  · rw [tailSlice, if_pos hmod]
    exact .bind full (fun _ => .pure _) fun _ _ _ _ _ => .pure _
  · rw [tailSlice, if_neg hmod]
    have detects (r : BlockRef) (blocks : List BlockRef) : Detects Harmless (do
        appendTokenIds p r (slice p tokenIds (numFullBlocks p tokenIds))
        pure (blocks ++ [r])) := .bind (appendTokenIds_detects r _) fun _ => .pure _
    refine .bind full (fun _ => .bind (allocateMutableBlock_detects d _) fun r => detects r _) fun filled s₁ hfilled ok₁ => ?_
    have hfilled := (allocateImmutableBlocks_follows d none _).returns hfilled
    obtain ⟨hcount, -, -⟩ := allocateImmutableBlocks_took use books (atBlock_zero tokenIds) BlockTable.numFullBlocks_mul_le
      ok₁ hfilled
    rw [BlockTable.hashesFrom_zero] at hcount
    rw [if_neg hmod] at room
    have empty : Owns p s [] [] (tokenIds.length / p.blockSize) [] live refs := .nil use books
    obtain ⟨ids, h, -, -⟩ := BlockTable.allocateImmutableBlocks_owns empty
      (by rw [List.length_nil, List.length_map, List.length_range', numFullBlocks]; omega) ok₁ hfilled
    refine AvoidsUnless.bind (fun _ => allocateMutableBlock_avoids (by omega)) (fun r => detects r _) fun r s₂ hr ok₂ _ => ?_
    obtain ⟨id, b, fresh⟩ := allocateMutableBlock_fresh h.inUse h.books ok₂ ((allocateMutableBlock_follows d _).returns hr)
    exact (fresh_avoids fresh).bind fun _ _ _ => .pure _

/-- A table for which there are enough blocks. -/
theorem allocate_avoids (use : s.InUse live) (books : s.Books refs)
    (room : BlockTable.numToTake p d tokenIds s ≤ (s.on d).getNumFreeBlocks) :
    AvoidsUnless Harmless .noFreeBlocks (allocate p BlockTable.empty tokenIds d) s := by
  refine .step other_ne fun _ s₁ hreq => ?_
  rw [(require_iff.mp hreq).2]
  refine .step other_ne fun _ s₁ hreq => ?_
  rw [(require_iff.mp hreq).2]
  exact .bind (allocateBlocksForTokenIds_avoids use books room)
    (fun blocks => .bind (step_detects (BlockTable.update_advances _ blocks)) fun _ => .pure _)
    fun _ _ _ _ => .step other_ne fun _ _ _ _ => .pure _

end BlockAttempt

end CoreFlow
