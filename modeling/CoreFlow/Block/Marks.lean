import CoreFlow.Block.Owned

/-!
# Marks

Marking blocks as computed or accessed changes no object, no pool and no account. An access moves the queue
time of an evictable block without a new queue entry; no block that a table refers to is evictable.
-/

namespace CoreFlow
open Prog

namespace PrefixCachingBlockAllocator.Accounts

theorem Same.refl (a : PrefixCachingBlockAllocator) : Same a a :=
  ⟨rfl, rfl, rfl, rfl, fun _ => rfl, fun _ => rfl⟩

theorem Same.trans {a b c : PrefixCachingBlockAllocator} (h : Same a b) (h' : Same b c) : Same a c :=
  ⟨h'.all.trans h.all, h'.refcounts.trans h.refcounts, h'.free.trans h.free, h'.cached.trans h.cached,
    fun id => (h'.tracker id).trans (h.tracker id), fun id => (h'.freeTable id).trans (h.freeTable id)⟩

end PrefixCachingBlockAllocator.Accounts

namespace CpuGpuBlockAllocator
open PrefixCachingBlockAllocator

/-- Nothing that the tables or the accounts depend on has changed. -/
structure Still (s s' : CpuGpuBlockAllocator) : Prop where
  quiet : ∀ r, Quiet r id s s'
  accounts : ∀ d, Accounts.Same (s.on d) (s'.on d)

instance : IsPreorder CpuGpuBlockAllocator Still where
  refl s := ⟨fun r => Quiet.refl r s, fun _ => Accounts.Same.refl _⟩
  trans _ _ _ h h' := ⟨fun r => (h.quiet r).trans (h'.quiet r), fun d => (h.accounts d).trans (h'.accounts d)⟩

section
variable {p : BlockParams} {s s' : CpuGpuBlockAllocator} {refs : List Ref} {live blocks full rest : List BlockRef}
  {ids : List BlockId} {last : Nat}

theorem Still.block (h : Still s s') (q : BlockRef) : s'.block? q = s.block? q := (h.quiet q).same (fun _ => rfl) q

theorem Still.inUse (h : Still s s') (use : s.InUse live) : s'.InUse live := use.quiet (h.quiet ⟨.gpu, 0⟩)

theorem Still.books (h : Still s s') (books : s.Books refs) : s'.Books refs := by
  refine ⟨fun d => ?_, ?_, fun d => (books.accounts d).congr (h.accounts d)⟩
  · rw [(h.accounts d).all]
    exact books.distinct d
  · rw [(h.accounts .gpu).all, (h.accounts .cpu).all]
    exact books.apart

theorem Still.setOn {d : Device} {a : PrefixCachingBlockAllocator} (hpool : a.blockPool = (s.on d).blockPool)
    (same : Accounts.Same (s.on d) a) : Still s (s.setOn d a) := by
  have hon (e : Device) : ((s.setOn d a).on e).blockPool = (s.on e).blockPool := by
    rw [on_setOn]
    split
    · rename_i he
      rw [hpool, he]
    · rfl
  refine ⟨fun r => ⟨fun q => ?_, fun e => congrArg BlockPool.poolSize (hon e), fun e => congrArg BlockPool.freeIds (hon e),
    rfl, rfl, fun e => ?_⟩, fun e => ?_⟩
  · rw [Option.map_id]
    unfold block?
    rw [hon]
    split <;> rfl
  · rw [on_setOn]
    split
    · rename_i he
      rw [same.all, he]
    · rfl
  · rw [on_setOn]
    split
    · rename_i he
      rw [← he]
      exact same
    · exact Accounts.Same.refl _

end

end CpuGpuBlockAllocator

namespace BlockM
open CpuGpuBlockAllocator PrefixCachingBlockAllocator
variable {p : BlockParams} {d : Device} {s s' : CpuGpuBlockAllocator} {refs : List Ref} {u : Unit} {ids : List BlockId}

theorem set_active {t t' : BlockTracker} {a : PrefixCachingBlockAllocator} {id : BlockId}
    (ht : a.blockTracker.get? id = some t) (h : t'.active = t.active) (id' : BlockId) :
    ((a.blockTracker.set id t').get? id').map (·.active) = (a.blockTracker.get? id').map (·.active) := by
  by_cases he : id = id'
  · subst he
    rw [Dict.get?_set_self, ht, Option.map_some, Option.map_some, h]
  · rw [Dict.get?_set_ne _ _ he]

/-! ## Computed blocks -/

theorem markBlockAsComputed_still (id : BlockId) : Within Still (markBlockAsComputed d id) := by
  intro s u s' hrun
  unfold markBlockAsComputed at hrun
  rw [self_bind] at hrun
  obtain ⟨t, _, ht, hrun⟩ := bind_iff.mp hrun
  obtain ⟨ht, hs⟩ := ofOption_iff.mp ht
  rw [hs] at hrun
  rw [update_iff.mp hrun]
  exact .setOn rfl ⟨rfl, rfl, rfl, rfl, set_active ht rfl, fun _ => rfl⟩

theorem markBlocksAsComputedOn_still (ids : List BlockId) : Within Still (markBlocksAsComputedOn d ids) := by
  refine .bind (.bind .read fun _ => .pure _) fun a => .ite ?_ ?_
  · exact .bind (.forM (fun id => markBlockAsComputed_still id) _) fun _ =>
      .update fun s => .setOn rfl ⟨rfl, rfl, rfl, rfl, fun _ => rfl, fun _ => rfl⟩
  · exact .bind (.forM (fun id => markBlockAsComputed_still id) _) fun _ =>
      .update fun s => .setOn rfl ⟨rfl, rfl, rfl, rfl, fun _ => rfl, fun _ => rfl⟩

theorem markBlocksAsComputedOn_advances (ids : List BlockId) : Within Advances (markBlocksAsComputedOn d ids) := by
  have mark (id : BlockId) : Within Advances (markBlockAsComputed d id) :=
    .bind (self_advances d) fun _ => .bind (.ofOption _) fun _ => modifySelf_advances d fun _ => ⟨le_refl _, rfl, rfl⟩
  exact .bind (self_advances d) fun a => .ite
    (.bind (.forM mark _) fun _ => modifySelf_advances d fun _ => ⟨le_refl _, rfl, rfl⟩)
    (.bind (.forM mark _) fun _ => modifySelf_advances d fun _ => ⟨le_refl _, rfl, rfl⟩)

theorem clearCopyOnWrites_still : Within Still clearCopyOnWrites :=
  .bind (.bind .read fun _ => .pure _) fun _ => .bind
    (.update fun _ => .setOn rfl ⟨rfl, rfl, rfl, rfl, fun _ => rfl, fun _ => rfl⟩) fun _ => .pure _

theorem clearCopyOnWrites_advances : Within Advances clearCopyOnWrites :=
  .bind (self_advances _) fun _ => .bind (modifySelf_advances _ fun _ => ⟨le_refl _, rfl, rfl⟩) fun _ => .pure _

/-! ## Accessed blocks -/

theorem markBlocksAsAccessedOn_still (now : Int) (ids : List BlockId) :
    Within Still (markBlocksAsAccessedOn d ids now) := by
  refine .forM (fun id => ?_) ids
  intro s u s' hrun
  rw [self_bind] at hrun
  obtain ⟨t, _, ht, hrun⟩ := bind_iff.mp hrun
  obtain ⟨ht, hs⟩ := ofOption_iff.mp ht
  rw [hs] at hrun
  split at hrun
  · rw [update_iff.mp hrun]
    exact .setOn rfl ⟨rfl, rfl, rfl, rfl, set_active ht rfl, fun _ => rfl⟩
  · obtain ⟨e, _, he, hrun⟩ := bind_iff.mp hrun
    obtain ⟨he, hs⟩ := ofOption_iff.mp he
    rw [hs] at hrun
    rw [update_iff.mp hrun]
    refine .setOn rfl ⟨rfl, rfl, rfl, rfl, fun _ => rfl, fun id' => ?_⟩
    obtain ⟨m, hm, rfl⟩ := Option.map_eq_some_iff.mp he
    show (((s.on d).evictor.freeTable.set id { m with lastAccessed := now }).get? id').map (·.contentHash) = _
    by_cases hid : id = id'
    · subst hid
      rw [Dict.get?_set_self, hm]
      rfl
    · rw [Dict.get?_set_ne _ _ hid]

theorem markBlocksAsAccessed_still (now : Int) (ids : List BlockId) : Within Still (markBlocksAsAccessed ids now) := by
  refine .forM (fun id => .bind .read fun s => ?_) ids
  split
  · exact .pure _
  · exact markBlocksAsAccessedOn_still now _

theorem markBlocksAsAccessedOn_grows (now : Int) (ids : List BlockId) :
    Within Grows (markBlocksAsAccessedOn d ids now) := by
  refine .forM (fun id => .bind (.bind .read fun _ => .pure _) fun a => .bind (.ofOption _) fun t => .ite ?_ ?_) ids
  · exact .update fun s => .setOn (le_refl _) rfl
  · exact .bind (.ofOption _) fun _ => .update fun s => .setOn (le_refl _) rfl

theorem markBlocksAsAccessed_grows (now : Int) (ids : List BlockId) : Within Grows (markBlocksAsAccessed ids now) := by
  refine .forM (fun id => .bind .read fun s => ?_) ids
  split
  · exact .pure _
  · exact markBlocksAsAccessedOn_grows now _

theorem deviceOf_mem {id : BlockId} (hd : s.deviceOf id = some d) : id ∈ (s.on d).allBlockIndices := by
  unfold deviceOf at hd
  split at hd
  · rw [← Option.some.inj hd]
    assumption
  · split at hd
    · rw [← Option.some.inj hd]
      assumption
    · cases hd

/-- The blocks that somebody refers to are not in an evictor. -/
theorem markBlocksAsAccessedOn_evictor {now : Int} {id : BlockId} (books : s.Books refs) (hid : id ∈ (s.on d).allBlockIndices)
    (hpos : 0 < numRefs refs id) (hrun : markBlocksAsAccessedOn d [id] now s = some (u, s')) :
    ∀ e, (s'.on e).evictor = (s.on e).evictor := by
  obtain ⟨s₁, hmark, hrun⟩ := forM_cons_iff.mp hrun
  rw [forM_nil_iff.mp hrun]
  rw [self_bind] at hmark
  obtain ⟨t, ht, hactive⟩ := (books.accounts d).tracked id hid
  rw [bind_eq (ofOption_iff.mpr ⟨ht, rfl⟩), if_pos (hactive.mpr hpos)] at hmark
  intro e
  rw [update_iff.mp hmark, on_setOn]
  split
  · rename_i he
    rw [← he]
  · rfl

theorem markBlocksAsAccessed_advances {now : Int} (books : s.Books refs) (hids : ∀ id ∈ ids, 0 < numRefs refs id)
    (hrun : markBlocksAsAccessed ids now s = some (u, s')) : Advances s s' := by
  induction ids generalizing s with
  | nil =>
    rw [forM_nil_iff.mp hrun]
    exact refl s
  | cons id ids ih =>
    obtain ⟨s₁, hmark, hrun⟩ := forM_cons_iff.mp hrun
    rw [read_bind] at hmark
    have first : Advances s s₁ ∧ s₁.Books refs := by
      cases hd : s.deviceOf id with
      | none =>
        rw [hd] at hmark
        rw [(pure_iff.mp hmark).2]
        exact ⟨refl s, books⟩
      | some d =>
        rw [hd] at hmark
        have still := markBlocksAsAccessedOn_still now [id] s _ s₁ hmark
        refine ⟨.of_same ?_ (markBlocksAsAccessedOn_evictor books (deviceOf_mem hd) (hids id List.mem_cons_self) hmark),
          still.books books⟩
        exact markBlocksAsAccessedOn_grows now [id] s _ s₁ hmark
    exact IsTrans.trans _ _ _ first.1 (ih first.2 (fun id' hid' => hids id' (List.mem_cons_of_mem _ hid')) hrun)

end BlockM

end CoreFlow
