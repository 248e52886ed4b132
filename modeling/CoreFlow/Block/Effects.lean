import CoreFlow.Block.Accounts
import CoreFlow.Block.Contents

/-!
# What a method changes

`Quiet r g` says that a method applied `g` to the object `r` and left all other objects, the free ids of
the pools and the faults of the ghost alone; `Effect d f r g` adds that it applied `f` to the books of
the allocator `d`. The methods that take and give up references are quiet, and each keeps the accounts
of both allocators, `Books`, for the references that are left.
-/

namespace CoreFlow
open Prog

/-- An object handed out while it is in use, or put back into the pool of the other device. -/
def BlockEvent.isFault : BlockEvent → Bool
  | .reissued _ | .strayFree _ => true
  | _ => false

namespace CpuGpuBlockAllocator

structure Quiet (r : BlockRef) (g : Block → Block) (s s' : CpuGpuBlockAllocator) : Prop where
  objects : ∀ q, s'.block? q = if r = q then (s.block? q).map g else s.block? q
  sizes : ∀ e, (s'.pool e).poolSize = (s.pool e).poolSize
  freeIds : ∀ e, (s'.pool e).freeIds = (s.pool e).freeIds
  held : s'.trace.held = s.trace.held
  faults : s'.trace.events.filter BlockEvent.isFault = s.trace.events.filter BlockEvent.isFault
  all : ∀ e, (s'.on e).allBlockIndices = (s.on e).allBlockIndices

structure Effect (d : Device) (f : PrefixCachingBlockAllocator → PrefixCachingBlockAllocator) (r : BlockRef)
    (g : Block → Block) (s s' : CpuGpuBlockAllocator) : Prop extends Quiet r g s s' where
  books : ∀ e, s'.on e = { (if d = e then f (s.on e) else s.on e) with blockPool := (s'.on e).blockPool }

/-- A change of the books that does not look at the pool. -/
def Poolless (f : PrefixCachingBlockAllocator → PrefixCachingBlockAllocator) : Prop :=
  ∀ a x, f { a with blockPool := x } = { f a with blockPool := x }

section
variable {d : Device} {f f' : PrefixCachingBlockAllocator → PrefixCachingBlockAllocator} {r : BlockRef} {g g' : Block → Block}
  {s s₁ s' : CpuGpuBlockAllocator}

namespace Quiet

theorem refl (r : BlockRef) (s : CpuGpuBlockAllocator) : Quiet r id s s := by
  refine ⟨fun q => ?_, fun _ => rfl, fun _ => rfl, rfl, rfl, fun _ => rfl⟩
  rw [Option.map_id]
  split <;> rfl

theorem trans (h : Quiet r g s s₁) (h' : Quiet r g' s₁ s') : Quiet r (fun b => g' (g b)) s s' := by
  refine ⟨fun q => ?_, fun e => (h'.sizes e).trans (h.sizes e), fun e => (h'.freeIds e).trans (h.freeIds e),
    h'.held.trans h.held, h'.faults.trans h.faults, fun e => (h'.all e).trans (h.all e)⟩
  rw [h'.objects q, h.objects q]
  split
  · rw [Option.map_map]
    rfl
  · rfl

theorem object {b : Block} (h : Quiet r g s s') (hb : s.block? r = some b) : s'.block? r = some (g b) := by
  rw [h.objects, if_pos rfl, hb]
  rfl

theorem same (h : Quiet r g s s') (hg : ∀ b, g b = b) (q : BlockRef) : s'.block? q = s.block? q := by
  rw [h.objects, funext hg]
  split
  · exact Option.map_id'
  · rfl

theorem object_ne {q : BlockRef} (h : Quiet r g s s') (hne : r ≠ q) : s'.block? q = s.block? q := by
  rw [h.objects, if_neg hne]

/-- A change that does nothing to the object. -/
theorem of_fixed {b : Block} (hb : s.block? r = some b) (hg : g b = b) : Quiet r g s s := by
  refine ⟨fun q => ?_, fun _ => rfl, fun _ => rfl, rfl, rfl, fun _ => rfl⟩
  split
  · rename_i hq
    rw [← hq, hb, Option.map_some, hg]
  · rfl

/-- What the object became. -/
theorem const {b : Block} (h : Quiet r g s s') (hb : s.block? r = some b) : Quiet r (fun _ => g b) s s' := by
  refine ⟨fun q => ?_, h.sizes, h.freeIds, h.held, h.faults, h.all⟩
  rw [h.objects]
  split
  · rename_i hq
    rw [← hq, hb]
    rfl
  · rfl

end Quiet

namespace Effect

theorem of_fixed {b : Block} (hb : s.block? r = some b) (hg : g b = b) (d : Device) : Effect d id r g s s := by
  refine ⟨Quiet.of_fixed hb hg, fun e => ?_⟩
  split <;> rfl

theorem refl (d : Device) (r : BlockRef) (s : CpuGpuBlockAllocator) : Effect d id r id s s := by
  refine ⟨Quiet.refl r s, fun e => ?_⟩
  split <;> rfl

theorem trans (h : Effect d f r g s s₁) (h' : Effect d f' r g' s₁ s') (hf' : Poolless f') :
    Effect d (fun a => f' (f a)) r (fun b => g' (g b)) s s' := by
  refine ⟨h.toQuiet.trans h'.toQuiet, fun e => ?_⟩
  rw [h'.books e, h.books e]
  split
  · rw [hf']
  · rfl

/-- The books of the allocator after the effect. -/
theorem on_self (h : Effect d f r g s s') : s'.on d = { f (s.on d) with blockPool := (s'.on d).blockPool } := by
  have := h.books d
  rwa [if_pos rfl] at this

theorem on_ne {e : Device} (h : Effect d f r g s s') (hne : d ≠ e) :
    s'.on e = { s.on e with blockPool := (s'.on e).blockPool } := by
  have := h.books e
  rwa [if_neg hne] at this

end Effect

/-! ## The accounts of both devices -/

/-- The references are those that the two allocators have on their books. -/
structure Books (s : CpuGpuBlockAllocator) (refs : List Ref) : Prop where
  distinct : ∀ d, (s.on d).allBlockIndices.Nodup
  apart : ∀ id ∈ (s.on .gpu).allBlockIndices, id ∉ (s.on .cpu).allBlockIndices
  accounts : ∀ d, (s.on d).Accounts refs

section
variable {refs refs' : List Ref} {x x' : Ref}

theorem Books.perm (h : s.Books refs) (hp : refs.Perm refs') : s.Books refs' :=
  ⟨h.distinct, h.apart, fun d => (h.accounts d).perm hp⟩

theorem Books.not_mem {e : Device} (h : s.Books refs) (hx : x.1 ∈ (s.on d).allBlockIndices) (hne : d ≠ e) :
    x.1 ∉ (s.on e).allBlockIndices := by
  cases d <;> cases e
  · exact absurd rfl hne
  · exact h.apart _ hx
  · exact fun hin => h.apart _ hin hx
  · exact absurd rfl hne

/-- The books of `d` have changed, apart from the pools. -/
theorem Books.change (h : s.Books refs)
    (hon : ∀ e, s'.on e = { (if d = e then f (s.on e) else s.on e) with blockPool := (s'.on e).blockPool })
    (hall : (f (s.on d)).allBlockIndices = (s.on d).allBlockIndices) (acc : (f (s.on d)).Accounts refs')
    (others : ∀ e, d ≠ e → (s.on e).Accounts refs') : s'.Books refs' := by
  have hall' (e : Device) : (s'.on e).allBlockIndices = (s.on e).allBlockIndices := by
    rw [hon e]
    split
    · rename_i he
      subst he
      exact hall
    · rfl
  refine ⟨fun e => ?_, ?_, fun e => ?_⟩
  · rw [hall']
    exact h.distinct e
  · rw [hall', hall']
    exact h.apart
  · rw [hon e]
    split
    · rename_i he
      subst he
      exact acc.withPool _
    · exact (others e ‹_›).withPool _

theorem Books.effect (h : s.Books refs) (eff : Effect d f r g s s') (acc : (f (s.on d)).Accounts refs')
    (others : ∀ e, d ≠ e → (s.on e).Accounts refs') : s'.Books refs' := by
  refine h.change eff.books ?_ acc others
  rw [← eff.all d, eff.on_self]

/-- A reference to a block of `d` is given up. -/
theorem Books.give (h : s.Books (x :: refs)) (hx : x.1 ∈ (s.on d).allBlockIndices) (eff : Effect d f r g s s')
    (acc : (f (s.on d)).Accounts refs) : s'.Books refs :=
  h.effect eff acc fun e he => (PrefixCachingBlockAllocator.Accounts.other (h.not_mem hx he)).mp (h.accounts e)

/-- A reference to a block of `d` is taken. -/
theorem Books.take (h : s.Books refs) (hx : x.1 ∈ (s.on d).allBlockIndices) (eff : Effect d f r g s s')
    (acc : (f (s.on d)).Accounts (x :: refs)) : s'.Books (x :: refs) :=
  h.effect eff acc fun e he => (PrefixCachingBlockAllocator.Accounts.other (h.not_mem hx he)).mpr (h.accounts e)

/-- A change of an object only. -/
theorem Books.quiet (h : s.Books refs) (eff : Effect d id r g s s') : s'.Books refs :=
  h.effect eff (h.accounts d) fun e _ => h.accounts e

end

end

/-! ## Elementary steps -/

section
variable {d : Device} {f : PrefixCachingBlockAllocator → PrefixCachingBlockAllocator} {r : BlockRef} {g : Block → Block}
  {s s' : CpuGpuBlockAllocator} {e : BlockEvent}

theorem setOn_effect (hf : ∀ a, (f a).blockPool = a.blockPool) (hall : ∀ a, (f a).allBlockIndices = a.allBlockIndices)
    (r : BlockRef) : Effect d f r id s (s.setOn d (f (s.on d))) := by
  have hpool (e : Device) : ((s.setOn d (f (s.on d))).on e).blockPool = (s.on e).blockPool := by
    rw [on_setOn]
    split
    · rename_i he
      rw [hf, he]
    · rfl
  refine ⟨⟨fun q => ?_, fun e => congrArg BlockPool.poolSize (hpool e), fun e => congrArg BlockPool.freeIds (hpool e),
    rfl, rfl, fun e => ?_⟩, fun e => ?_⟩
  · rw [Option.map_id]
    unfold block?
    rw [hpool]
    split <;> rfl
  · rw [on_setOn]
    split
    · rename_i he
      rw [hall, he]
    · rfl
  · rw [on_setOn]
    split
    · rename_i he
      rw [he]
    · rfl

theorem modifyBlock_effect (d : Device) : Effect d id r g s (s.modifyBlock r g) := by
  refine ⟨⟨fun q => block?_modifyBlock s r q g, fun e => ?_, fun e => ?_, rfl, rfl, fun e => ?_⟩, fun e => ?_⟩
  · rw [pool_modifyBlock]
    split
    · exact List.length_modify ..
    · rfl
  · rw [pool_modifyBlock]
    split <;> rfl
  · unfold modifyBlock
    rw [on_setOn]
    split
    · rename_i he
      rw [← he]
    · rfl
  · unfold modifyBlock
    rw [on_setOn]
    split
    · rename_i he
      subst he
      split <;> rfl
    · split <;> rfl

theorem log_effect (he : e.isFault = false) (d : Device) (r : BlockRef) : Effect d id r id s (s.log e) := by
  refine ⟨⟨fun q => ?_, fun _ => rfl, fun _ => rfl, rfl, ?_, fun _ => rfl⟩, fun e => ?_⟩
  · show s.block? q = _
    rw [Option.map_id]
    split <;> rfl
  · show (s.trace.events ++ [e]).filter _ = _
    rw [List.filter_append, List.filter_cons_of_neg (by rw [he]; decide), List.filter_nil, List.append_nil]
  · show s.on e = _
    split <;> rfl

end

end CpuGpuBlockAllocator

namespace BlockM
open CpuGpuBlockAllocator
variable {d : Device} {f : PrefixCachingBlockAllocator → PrefixCachingBlockAllocator} {r : BlockRef} {g : Block → Block}
  {s s' : CpuGpuBlockAllocator} {blockId : BlockId} {k : Nat} {u : Unit} {b : Block} {refs : List Ref} {h : PrefixHash}

theorem modifySelf_effect (hrun : modifySelf d f s = some (u, s')) (r : BlockRef)
    (hf : ∀ a, (f a).blockPool = a.blockPool) (hall : ∀ a, (f a).allBlockIndices = a.allBlockIndices) :
    Effect d f r id s s' := by
  rw [update_iff.mp hrun]
  exact setOn_effect hf hall r

theorem modifyBlock_run (hrun : modifyBlock r g s = some (u, s')) (d : Device) : Effect d id r g s s' := by
  rw [update_iff.mp hrun]
  exact modifyBlock_effect d

theorem log_run {e : BlockEvent} (hrun : log e s = some (u, s')) (he : e.isFault = false) (d : Device) (r : BlockRef) :
    Effect d id r id s s' := by
  rw [update_iff.mp hrun]
  exact log_effect he d r

theorem incr_effect (hrun : incr d blockId s = some (k, s')) (r : BlockRef) :
    ∃ n, (s.on d).refcounts.get? blockId = some n ∧ k = n + 1 ∧
      Effect d (fun a => { a with refcounts := a.refcounts.set blockId (n + 1) }) r id s s' := by
  unfold incr at hrun
  rw [self_bind] at hrun
  obtain ⟨n, _, hn, hrun⟩ := bind_iff.mp hrun
  obtain ⟨hn, he⟩ := ofOption_iff.mp hn
  rw [he] at hrun
  obtain ⟨_, s₁, hset, hrun⟩ := bind_iff.mp hrun
  obtain ⟨rfl, rfl⟩ := pure_iff.mp hrun
  exact ⟨n, hn, rfl, modifySelf_effect hset r (fun _ => rfl) fun _ => rfl⟩

theorem decr_effect (hrun : decr d blockId s = some (k, s')) (r : BlockRef) :
    ∃ n, (s.on d).refcounts.get? blockId = some n ∧ k = n - 1 ∧
      Effect d (fun a => { a with refcounts := a.refcounts.set blockId (n - 1) }) r id s s' := by
  unfold decr at hrun
  rw [self_bind] at hrun
  obtain ⟨n, _, hn, hrun⟩ := bind_iff.mp hrun
  obtain ⟨hn, he⟩ := ofOption_iff.mp hn
  rw [he] at hrun
  obtain ⟨_, _, hpos, hrun⟩ := bind_iff.mp hrun
  rw [(require_iff.mp hpos).2] at hrun
  obtain ⟨_, s₁, hset, hrun⟩ := bind_iff.mp hrun
  obtain ⟨rfl, rfl⟩ := pure_iff.mp hrun
  exact ⟨n, hn, rfl, modifySelf_effect hset r (fun _ => rfl) fun _ => rfl⟩

theorem refcount_iff : refcount d blockId s = some (k, s') ↔ (s.on d).refcounts.get? blockId = some k ∧ s' = s := by
  unfold refcount
  rw [self_bind]
  exact ofOption_iff

theorem trackBlockId_effect {computed : Bool} (hrun : trackBlockId d blockId computed s = some (u, s')) (r : BlockRef) :
    ∃ t : BlockTracker, t.active = true ∧
      Effect d (fun a => { a with blockTracker := a.blockTracker.set blockId t }) r id s s' := by
  unfold trackBlockId at hrun
  rw [self_bind] at hrun
  obtain ⟨t, _, ht, hrun⟩ := bind_iff.mp hrun
  obtain ⟨ht, he⟩ := ofOption_iff.mp ht
  rw [he] at hrun
  refine ⟨t, ?_, modifySelf_effect hrun r (fun _ => rfl) fun _ => rfl⟩
  obtain ⟨t₀, -, ht⟩ := Option.bind_eq_some_iff.mp ht
  unfold BlockTracker.enable at ht
  split at ht
  · cases ht
  · rw [← Option.some.inj ht]

theorem untrackBlockId_effect (hrun : untrackBlockId d blockId s = some (u, s')) (r : BlockRef) :
    ∃ t : BlockTracker, t.active = false ∧
      Effect d (fun a => { a with blockTracker := a.blockTracker.set blockId t }) r id s s' := by
  unfold untrackBlockId at hrun
  rw [self_bind] at hrun
  obtain ⟨t, _, ht, hrun⟩ := bind_iff.mp hrun
  obtain ⟨ht, he⟩ := ofOption_iff.mp ht
  rw [he] at hrun
  refine ⟨t, ?_, modifySelf_effect hrun r (fun _ => rfl) fun _ => rfl⟩
  obtain ⟨t₀, -, ht⟩ := Option.bind_eq_some_iff.mp ht
  unfold BlockTracker.disable at ht
  split at ht
  · rw [← Option.some.inj ht]
    rfl
  · cases ht

/-! ## References -/

/-- The holder of the only reference to a block gives it up. -/
theorem decrRefcountHashlessBlock_books (hb : s.block? r = some b) (hid : b.blockId = some blockId)
    (books : s.Books ((blockId, none) :: refs)) (hrun : decrRefcountHashlessBlock d r s = some (u, s')) :
    Quiet r (fun b => { b with blockId := none }) s s' ∧ s'.Books refs ∧ blockId ∈ (s.on d).allBlockIndices ∧
      (s'.on d).cachedBlocks = (s.on d).cachedBlocks := by
  unfold decrRefcountHashlessBlock at hrun
  rw [bind_eq (getBlock_iff.mpr ⟨hb, rfl⟩), bind_eq (ofOption_iff.mpr ⟨hid, rfl⟩)] at hrun
  obtain ⟨n, _, hn, hrun⟩ := bind_iff.mp hrun
  obtain ⟨hn, he⟩ := refcount_iff.mp hn
  rw [he] at hrun
  obtain ⟨hin, hcount⟩ := (books.accounts d).numRefs_of_get? hn
  obtain rfl : n = 1 := hcount.trans ((books.accounts d).mutable blockId List.mem_cons_self hin).1
  rw [when_pos rfl] at hrun
  obtain ⟨_, s₁, huntrack, hrun⟩ := bind_iff.mp hrun
  obtain ⟨t, ht, eff₁⟩ := untrackBlockId_effect huntrack r
  obtain ⟨_, s₂, hset, hrun⟩ := bind_iff.mp hrun
  have eff₂ := eff₁.trans (modifyBlock_run hset d) fun _ _ => rfl
  obtain ⟨k, s₃, hdecr, hrun⟩ := bind_iff.mp hrun
  obtain ⟨n, hn', hk, eff₃⟩ := decr_effect hdecr r
  obtain rfl : n = 1 := by
    rw [eff₂.on_self] at hn'
    exact Option.some.inj (hn'.symm.trans hn)
  rw [when_pos hk] at hrun
  have eff := (eff₂.trans eff₃ fun _ _ => rfl).trans (modifySelf_effect hrun r (fun _ => rfl) fun _ => rfl) fun _ _ => rfl
  obtain ⟨-, acc⟩ := (books.accounts d).releaseMutable hin hn ht
  exact ⟨eff.toQuiet, books.give hin eff acc, hin, congrArg (·.cachedBlocks) eff.on_self⟩

/-- An object that was given the id of a cached block refers to it. -/
theorem incrRefcountCachedBlock_books (hb : s.block? r = some b) (hid : b.blockId = some blockId)
    (hcached : (s.on d).cachedBlocks.get? h = some blockId) (books : s.Books refs)
    (hrun : incrRefcountCachedBlock d r s = some (u, s')) :
    Quiet r (fun b => { b with computed := true }) s s' ∧ s'.Books ((blockId, some h) :: refs) := by
  unfold incrRefcountCachedBlock at hrun
  obtain ⟨_, s₁, hset, hrun⟩ := bind_iff.mp hrun
  have eff₁ := modifyBlock_run hset d
  rw [bind_eq (getBlock_iff.mpr ⟨eff₁.object hb, rfl⟩), bind_eq (ofOption_iff.mpr ⟨hid, rfl⟩)] at hrun
  obtain ⟨k, s₂, hincr, hrun⟩ := bind_iff.mp hrun
  obtain ⟨n, hn, rfl, eff₂⟩ := incr_effect hincr r
  have eff := eff₁.trans eff₂ fun _ _ => rfl
  rw [eff₁.on_self] at hn
  have hin := (books.accounts d).cachedHere h blockId hcached
  by_cases h0 : n = 0
  · rw [when_pos (by omega), self_bind] at hrun
    obtain ⟨_, s₃, hremove, hrun⟩ := bind_iff.mp hrun
    obtain ⟨t, ht, eff₄⟩ := trackBlockId_effect hrun r
    obtain ⟨hevict, acc⟩ := (books.accounts d).acquireFirst hcached hn h0 ht
    have hevictor : (s₂.on d).evictor = (s.on d).evictor := congrArg (·.evictor) eff.on_self
    rw [hevictor, when_pos hevict] at hremove
    obtain ⟨e, _, he, hremove⟩ := bind_iff.mp hremove
    obtain ⟨he, hs⟩ := ofOption_iff.mp he
    rw [hs] at hremove
    unfold LRUEvictor.remove at he
    rw [if_pos hevict] at he
    rw [← Option.some.inj he] at hremove
    have eff' := (eff.trans (modifySelf_effect hremove r (fun _ => rfl) fun _ => rfl) fun _ _ => rfl).trans eff₄ fun _ _ => rfl
    exact ⟨eff'.toQuiet, books.take (x := (blockId, some h)) hin eff' acc⟩
  · rw [when_neg (by omega)] at hrun
    rw [(pure_iff.mp hrun).2]
    exact ⟨eff.toQuiet, books.take (x := (blockId, some h)) hin eff
      ((books.accounts d).acquireShared hcached hn (Nat.pos_of_ne_zero h0))⟩

end BlockM

end CoreFlow
