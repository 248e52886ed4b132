import CoreFlow.Block.State

/-!
# The accounts of an allocator

An allocator keeps a block in four places: a reference count, a tracker, the free ids or the evictor, and
the map from hashes to cached blocks. `Accounts` ties them to a list of references. A reference is a
physical id, with the hash that its holder knows the block to be cached under, or `none` for a block
that only its holder may write.
-/

namespace CoreFlow

/-- A reference to a physical block. -/
abbrev Ref := BlockId × Option PrefixHash

/-- The number of references to a block. -/
def numRefs (refs : List Ref) (id : BlockId) : Nat := (refs.map (·.1)).count id

section
variable {refs refs' : List Ref} {id id' : BlockId} {o : Option PrefixHash}

@[simp] theorem numRefs_nil : numRefs [] id = 0 := rfl

theorem numRefs_cons (x : Ref) : numRefs (x :: refs) id = numRefs refs id + if x.1 = id then 1 else 0 := by
  rw [numRefs, List.map_cons, List.count_cons, numRefs]
  congr 1
  simp only [beq_iff_eq]

@[simp] theorem numRefs_cons_self : numRefs ((id, o) :: refs) id = numRefs refs id + 1 := by
  rw [numRefs_cons, if_pos rfl]

theorem numRefs_cons_ne (h : id' ≠ id) : numRefs ((id', o) :: refs) id = numRefs refs id := by
  rw [numRefs_cons, if_neg h, Nat.add_zero]

theorem numRefs_pos (h : (id, o) ∈ refs) : 0 < numRefs refs id :=
  List.count_pos_iff.mpr (List.mem_map.mpr ⟨_, h, rfl⟩)

theorem numRefs_perm (h : refs.Perm refs') : numRefs refs id = numRefs refs' id := (h.map _).count_eq id

theorem mem_ne_of_numRefs (h : numRefs refs id = 0) (hx : (id', o) ∈ refs) : id' ≠ id := by
  rintro rfl
  exact absurd h (Nat.ne_of_gt (numRefs_pos hx))

end

namespace PrefixCachingBlockAllocator

/-- The block is cached under some hash. -/
def Cached (a : PrefixCachingBlockAllocator) (id : BlockId) : Prop := ∃ h, a.cachedBlocks.get? h = some id

structure Accounts (a : PrefixCachingBlockAllocator) (refs : List Ref) : Prop where
  refcount : ∀ id, a.refcounts.get? id = if id ∈ a.allBlockIndices then some (numRefs refs id) else none
  tracked : ∀ id ∈ a.allBlockIndices, ∃ t, a.blockTracker.get? id = some t ∧ (t.active = true ↔ 0 < numRefs refs id)
  freeNodup : a.freeBlockIndices.Nodup
  free : ∀ id ∈ a.freeBlockIndices, id ∈ a.allBlockIndices ∧ numRefs refs id = 0 ∧ ¬ a.Cached id
  cachedHere : ∀ h id, a.cachedBlocks.get? h = some id → id ∈ a.allBlockIndices
  cachedOnce : ∀ h h' id, a.cachedBlocks.get? h = some id → a.cachedBlocks.get? h' = some id → h = h'
  evictable : ∀ id m, a.evictor.freeTable.get? id = some m →
    numRefs refs id = 0 ∧ a.cachedBlocks.get? m.contentHash = some id
  covered : ∀ id ∈ a.allBlockIndices, numRefs refs id = 0 → id ∈ a.freeBlockIndices ∨ id ∈ a.evictor.freeTable
  promoted : ∀ id h, (id, some h) ∈ refs → id ∈ a.allBlockIndices → a.cachedBlocks.get? h = some id
  mutable : ∀ id, (id, none) ∈ refs → id ∈ a.allBlockIndices → numRefs refs id = 1 ∧ ¬ a.Cached id

namespace Accounts
variable {a a' : PrefixCachingBlockAllocator} {refs refs' : List Ref} {id : BlockId} {h : PrefixHash} {t : BlockTracker}

theorem perm (acc : a.Accounts refs) (hp : refs.Perm refs') : a.Accounts refs' where
  refcount id := by rw [acc.refcount, numRefs_perm hp]
  tracked id hid := by
    rw [← numRefs_perm hp]
    exact acc.tracked id hid
  freeNodup := acc.freeNodup
  free id hid := by
    rw [← numRefs_perm hp]
    exact acc.free id hid
  cachedHere := acc.cachedHere
  cachedOnce := acc.cachedOnce
  evictable id m hm := by
    rw [← numRefs_perm hp]
    exact acc.evictable id m hm
  covered id hid h0 := acc.covered id hid (by rwa [numRefs_perm hp])
  promoted id h hmem := acc.promoted id h (hp.mem_iff.mpr hmem)
  mutable id hmem hid := by
    rw [← numRefs_perm hp]
    exact acc.mutable id (hp.mem_iff.mpr hmem) hid

/-- References to the blocks of another allocator do not count. -/
theorem other {x : Ref} (hx : x.1 ∉ a.allBlockIndices) : a.Accounts (x :: refs) ↔ a.Accounts refs := by
  obtain ⟨id, o⟩ := x
  have hne (id' : BlockId) (hid : id' ∈ a.allBlockIndices) : numRefs ((id, o) :: refs) id' = numRefs refs id' := by
    refine numRefs_cons_ne ?_
    rintro rfl
    exact hx hid
  constructor
  · intro acc
    refine ⟨fun id' => ?_, fun id' hid => ?_, acc.freeNodup, fun id' hid => ?_, acc.cachedHere, acc.cachedOnce,
      fun id' m hm => ?_, fun id' hid h0 => acc.covered id' hid (by rwa [hne id' hid]),
      fun id' h hmem => acc.promoted id' h (List.mem_cons_of_mem _ hmem), fun id' hmem hid => ?_⟩
    · rw [acc.refcount]
      split
      · rw [hne id' ‹_›]
      · rfl
    · rw [← hne id' hid]
      exact acc.tracked id' hid
    · rw [← hne id' (acc.free id' hid).1]
      exact acc.free id' hid
    · rw [← hne id' (acc.cachedHere _ _ (acc.evictable id' m hm).2)]
      exact acc.evictable id' m hm
    · rw [← hne id' hid]
      exact acc.mutable id' (List.mem_cons_of_mem _ hmem) hid
  · intro acc
    refine ⟨fun id' => ?_, fun id' hid => ?_, acc.freeNodup, fun id' hid => ?_, acc.cachedHere, acc.cachedOnce,
      fun id' m hm => ?_, fun id' hid h0 => acc.covered id' hid (by rwa [← hne id' hid]),
      fun id' h hmem hid => ?_, fun id' hmem hid => ?_⟩
    · rw [acc.refcount]
      split
      · rw [hne id' ‹_›]
      · rfl
    · rw [hne id' hid]
      exact acc.tracked id' hid
    · rw [hne id' (acc.free id' hid).1]
      exact acc.free id' hid
    · rw [hne id' (acc.cachedHere _ _ (acc.evictable id' m hm).2)]
      exact acc.evictable id' m hm
    · rcases List.mem_cons.mp hmem with he | hmem
      · exact absurd ((Prod.mk.inj he).1 ▸ hid) hx
      · exact acc.promoted id' h hmem hid
    · rcases List.mem_cons.mp hmem with he | hmem
      · exact absurd ((Prod.mk.inj he).1 ▸ hid) hx
      · rw [hne id' hid]
        exact acc.mutable id' hmem hid

/-- The accounts do not depend on the other fields, nor on when a block was used or whether it is computed. -/
structure Same (a a' : PrefixCachingBlockAllocator) : Prop where
  all : a'.allBlockIndices = a.allBlockIndices
  refcounts : a'.refcounts = a.refcounts
  free : a'.freeBlockIndices = a.freeBlockIndices
  cached : a'.cachedBlocks = a.cachedBlocks
  tracker : ∀ id, (a'.blockTracker.get? id).map (·.active) = (a.blockTracker.get? id).map (·.active)
  freeTable : ∀ id, (a'.evictor.freeTable.get? id).map (·.contentHash) = (a.evictor.freeTable.get? id).map (·.contentHash)

theorem congr (acc : a.Accounts refs) (s : Same a a') : a'.Accounts refs := by
  have hcached (id : BlockId) : a'.Cached id ↔ a.Cached id := by
    unfold Cached
    rw [s.cached]
  refine ⟨fun id => ?_, fun id hid => ?_, ?_, fun id hid => ?_, ?_, ?_, fun id m hm => ?_, fun id hid h0 => ?_, ?_, ?_⟩
  · rw [s.refcounts, s.all]
    exact acc.refcount id
  · rw [s.all] at hid
    obtain ⟨t, ht, hactive⟩ := acc.tracked id hid
    have := s.tracker id
    rw [ht, Option.map_some, Option.map_eq_some_iff] at this
    obtain ⟨t', ht', he⟩ := this
    exact ⟨t', ht', by rw [he]; exact hactive⟩
  · rw [s.free]
    exact acc.freeNodup
  · rw [s.free] at hid
    rw [s.all, hcached]
    exact acc.free id hid
  · rw [s.cached, s.all]
    exact acc.cachedHere
  · rw [s.cached]
    exact acc.cachedOnce
  · have := s.freeTable id
    rw [hm, Option.map_some, eq_comm, Option.map_eq_some_iff] at this
    obtain ⟨m', hm', he⟩ := this
    rw [s.cached, ← he]
    exact acc.evictable id m' hm'
  · rw [s.all] at hid
    have := congrArg Option.isSome (s.freeTable id)
    rw [Option.isSome_map, Option.isSome_map] at this
    rw [s.free, Dict.mem_iff_isSome, this, ← Dict.mem_iff_isSome]
    exact acc.covered id hid h0
  · rw [s.cached, s.all]
    exact acc.promoted
  · intro id
    rw [s.all, hcached]
    exact acc.mutable id

theorem withPool (acc : a.Accounts refs) (x : BlockPool) : Accounts { a with blockPool := x } refs :=
  acc.congr ⟨rfl, rfl, rfl, rfl, fun _ => rfl, fun _ => rfl⟩

theorem numRefs_of_get? {n : Nat} (acc : a.Accounts refs) (hn : a.refcounts.get? id = some n) :
    id ∈ a.allBlockIndices ∧ n = numRefs refs id := by
  rw [acc.refcount] at hn
  split at hn
  · exact ⟨‹_›, (Option.some.inj hn).symm⟩
  · cases hn

/-- The counts after the references to one block have changed. -/
theorem refcount_set {n : Nat} (acc : a.Accounts refs) (hid : id ∈ a.allBlockIndices) (hn : n = numRefs refs' id)
    (hne : ∀ id', id ≠ id' → numRefs refs' id' = numRefs refs id') (id' : BlockId) :
    (a.refcounts.set id n).get? id' = if id' ∈ a.allBlockIndices then some (numRefs refs' id') else none := by
  by_cases he : id = id'
  · subst he
    rw [Dict.get?_set_self, if_pos hid, hn]
  · rw [Dict.get?_set_ne _ _ he, hne id' he]
    exact acc.refcount id'

/-- The trackers after the references to one block have changed. -/
theorem tracked_set (acc : a.Accounts refs) (ht : t.active = true ↔ 0 < numRefs refs' id)
    (hne : ∀ id', id ≠ id' → numRefs refs' id' = numRefs refs id') (id' : BlockId) (hid' : id' ∈ a.allBlockIndices) :
    ∃ t', (a.blockTracker.set id t).get? id' = some t' ∧ (t'.active = true ↔ 0 < numRefs refs' id') := by
  by_cases he : id = id'
  · subst he
    exact ⟨t, Dict.get?_set_self .., ht⟩
  · rw [Dict.get?_set_ne _ _ he, hne id' he]
    exact acc.tracked id' hid'

/-! ## Taking a block that nobody refers to -/

/-- A free block gets its first reference. -/
theorem takeFree {n : Nat} {rest : List BlockId} (acc : a.Accounts refs) (hfree : a.freeBlockIndices = id :: rest)
    (hn : a.refcounts.get? id = some n) (ht : t.active = true) :
    Accounts { a with
      freeBlockIndices := rest
      refcounts := a.refcounts.set id (n + 1)
      blockTracker := a.blockTracker.set id t } ((id, none) :: refs) := by
  obtain ⟨hid, h0, huncached⟩ := acc.free id (hfree ▸ List.mem_cons_self)
  obtain ⟨hnot, hrest⟩ := List.nodup_cons.mp (hfree ▸ acc.freeNodup)
  obtain rfl : n = 0 := (acc.numRefs_of_get? hn).2.trans h0
  refine ⟨fun id' => ?_, fun id' hid' => ?_, hrest, fun id' hid' => ?_, acc.cachedHere, acc.cachedOnce,
    fun id' m hm => ?_, fun id' hid' hzero => ?_, fun id' h hmem => ?_, fun id' hmem hid' => ?_⟩
  · exact acc.refcount_set hid (by rw [numRefs_cons_self, h0]) (fun _ => numRefs_cons_ne) id'
  · exact acc.tracked_set ⟨fun _ => numRefs_pos List.mem_cons_self, fun _ => ht⟩ (fun _ => numRefs_cons_ne) id' hid'
  · have hne : id ≠ id' := by
      rintro rfl
      exact hnot hid'
    rw [numRefs_cons_ne hne]
    exact acc.free id' (hfree ▸ List.mem_cons_of_mem _ hid')
  · obtain ⟨hzero, hm⟩ := acc.evictable id' m hm
    have hne : id ≠ id' := by
      rintro rfl
      exact huncached ⟨_, hm⟩
    rw [numRefs_cons_ne hne]
    exact ⟨hzero, hm⟩
  · have hne : id ≠ id' := by
      rintro rfl
      rw [numRefs_cons_self] at hzero
      exact absurd hzero (Nat.succ_ne_zero _)
    rw [numRefs_cons_ne hne] at hzero
    rcases acc.covered id' hid' hzero with hin | hin
    · rw [hfree] at hin
      exact .inl ((List.mem_cons.mp hin).resolve_left (Ne.symm hne))
    · exact .inr hin
  · exact acc.promoted id' h ((List.mem_cons.mp hmem).resolve_left fun he => by cases he)
  · rcases List.mem_cons.mp hmem with he | hmem
    · obtain ⟨rfl, -⟩ := Prod.mk.inj he
      rw [numRefs_cons_self, h0]
      exact ⟨rfl, huncached⟩
    · rw [numRefs_cons_ne (mem_ne_of_numRefs h0 hmem).symm]
      exact acc.mutable id' hmem hid'

/-- An evicted block is forgotten under its hash, and gets its first reference. -/
theorem takeEvicted {n : Nat} (acc : a.Accounts refs) (hcached : a.cachedBlocks.get? h = some id)
    (hn : a.refcounts.get? id = some n) (h0 : n = 0) (ht : t.active = true) :
    Accounts { a with
      evictor := { a.evictor with freeTable := a.evictor.freeTable.erase id }
      cachedBlocks := a.cachedBlocks.erase h
      refcounts := a.refcounts.set id (n + 1)
      blockTracker := a.blockTracker.set id t } ((id, none) :: refs) := by
  obtain ⟨hid, he⟩ := acc.numRefs_of_get? hn
  subst h0
  have h0 : numRefs refs id = 0 := he.symm
  have hkeep (h' : PrefixHash) (id' : BlockId) (hne : id ≠ id') (hc : a.cachedBlocks.get? h' = some id') :
      (a.cachedBlocks.erase h).get? h' = some id' := by
    rw [Dict.get?_erase_ne, hc]
    rintro rfl
    exact hne (Option.some.inj (hcached.symm.trans hc))
  have hold (h' : PrefixHash) (id' : BlockId) (hc : (a.cachedBlocks.erase h).get? h' = some id') :
      id ≠ id' ∧ a.cachedBlocks.get? h' = some id' := by
    rw [Dict.get?_erase] at hc
    split at hc
    · cases hc
    · rename_i hne
      refine ⟨?_, hc⟩
      rintro rfl
      exact hne (acc.cachedOnce _ _ _ hcached hc)
  refine ⟨fun id' => ?_, fun id' hid' => ?_, acc.freeNodup, fun id' hid' => ?_,
    fun h' id' hc => acc.cachedHere h' id' (hold h' id' hc).2,
    fun h₁ h₂ id' hc₁ hc₂ => acc.cachedOnce h₁ h₂ id' (hold h₁ id' hc₁).2 (hold h₂ id' hc₂).2,
    fun id' m hm => ?_, fun id' hid' hzero => ?_, fun id' h' hmem hid' => ?_, fun id' hmem hid' => ?_⟩
  · exact acc.refcount_set hid (by rw [numRefs_cons_self, h0]) (fun _ => numRefs_cons_ne) id'
  · exact acc.tracked_set ⟨fun _ => numRefs_pos List.mem_cons_self, fun _ => ht⟩ (fun _ => numRefs_cons_ne) id' hid'
  · obtain ⟨hin, hzero, huncached⟩ := acc.free id' hid'
    have hne : id ≠ id' := by
      rintro rfl
      exact huncached ⟨h, hcached⟩
    rw [numRefs_cons_ne hne]
    exact ⟨hin, hzero, fun hc => huncached (hc.imp fun h' hc => (hold h' id' hc).2)⟩
  · show _ ∧ (a.cachedBlocks.erase h).get? m.contentHash = some id'
    have hm' : (a.evictor.freeTable.erase id).get? id' = some m := hm
    rw [Dict.get?_erase] at hm'
    split at hm'
    · cases hm'
    · rename_i hne
      obtain ⟨hzero, hc⟩ := acc.evictable id' m hm'
      rw [numRefs_cons_ne hne]
      exact ⟨hzero, hkeep _ _ hne hc⟩
  · show id' ∈ a.freeBlockIndices ∨ id' ∈ a.evictor.freeTable.erase id
    have hne : id ≠ id' := by
      rintro rfl
      rw [numRefs_cons_self] at hzero
      exact absurd hzero (Nat.succ_ne_zero _)
    rw [numRefs_cons_ne hne] at hzero
    rcases acc.covered id' hid' hzero with hin | hin
    · exact .inl hin
    · exact .inr (Dict.mem_erase.mpr ⟨Ne.symm hne, hin⟩)
  · have hmem' := (List.mem_cons.mp hmem).resolve_left fun he => by cases he
    exact hkeep _ _ (mem_ne_of_numRefs h0 hmem').symm (acc.promoted id' h' hmem' hid')
  · rcases List.mem_cons.mp hmem with he | hmem
    · obtain ⟨rfl, -⟩ := Prod.mk.inj he
      rw [numRefs_cons_self, h0]
      exact ⟨rfl, fun hc => hc.elim fun h' hc => (hold h' id' hc).1 rfl⟩
    · rw [numRefs_cons_ne (mem_ne_of_numRefs h0 hmem).symm]
      obtain ⟨hone, huncached⟩ := acc.mutable id' hmem hid'
      exact ⟨hone, fun hc => huncached (hc.imp fun h' hc => (hold h' id' hc).2)⟩

/-! ## Giving up a reference -/

/-- The block of the only reference becomes free. -/
theorem releaseMutable {n : Nat} (acc : a.Accounts ((id, none) :: refs)) (hid : id ∈ a.allBlockIndices)
    (hn : a.refcounts.get? id = some n) (ht : t.active = false) : n = 1 ∧
    Accounts { a with
      blockTracker := a.blockTracker.set id t
      refcounts := a.refcounts.set id (n - 1)
      freeBlockIndices := id :: a.freeBlockIndices } refs := by
  obtain ⟨hone, huncached⟩ := acc.mutable id List.mem_cons_self hid
  obtain rfl : n = 1 := (acc.numRefs_of_get? hn).2.trans hone
  have h0 : numRefs refs id = 0 := by
    rw [numRefs_cons_self] at hone
    omega
  have hne (id' : BlockId) (he : id ≠ id') : numRefs refs id' = numRefs ((id, none) :: refs) id' := (numRefs_cons_ne he).symm
  refine ⟨rfl, acc.refcount_set hid h0.symm hne,
    acc.tracked_set (by rw [ht, h0]; exact ⟨fun hf => (by cases hf), fun hlt => absurd hlt (lt_irrefl 0)⟩) hne,
    List.nodup_cons.mpr ⟨fun hin => ?_, acc.freeNodup⟩, fun id' hid' => ?_, acc.cachedHere, acc.cachedOnce,
    fun id' m hm => ?_, fun id' hid' hzero => ?_, fun id' h hmem => acc.promoted id' h (List.mem_cons_of_mem _ hmem),
    fun id' hmem hid' => ?_⟩
  · rw [(acc.free id hin).2.1] at hone
    cases hone
  · rcases List.mem_cons.mp hid' with rfl | hin
    · exact ⟨hid, h0, huncached⟩
    · have he : id ≠ id' := by
        rintro rfl
        rw [(acc.free id hin).2.1] at hone
        cases hone
      rw [hne id' he]
      exact acc.free id' hin
  · have he : id ≠ id' := by
      rintro rfl
      exact huncached ⟨_, (acc.evictable id m hm).2⟩
    rw [hne id' he]
    exact acc.evictable id' m hm
  · by_cases he : id = id'
    · exact .inl (he ▸ List.mem_cons_self)
    · rw [hne id' he] at hzero
      exact (acc.covered id' hid' hzero).imp_left (List.mem_cons_of_mem _)
  · rw [hne id' (mem_ne_of_numRefs h0 hmem).symm]
    exact acc.mutable id' (List.mem_cons_of_mem _ hmem) hid'

/-- A cached block has other references. -/
theorem releaseShared {n : Nat} (acc : a.Accounts ((id, some h) :: refs)) (hid : id ∈ a.allBlockIndices)
    (hn : a.refcounts.get? id = some n) (hpos : 0 < n - 1) :
    Accounts { a with refcounts := a.refcounts.set id (n - 1) } refs := by
  have hcount : n = numRefs refs id + 1 := by rw [(acc.numRefs_of_get? hn).2, numRefs_cons_self]
  have hne (id' : BlockId) (he : id ≠ id') : numRefs refs id' = numRefs ((id, some h) :: refs) id' :=
    (numRefs_cons_ne he).symm
  have hcached := acc.promoted id h List.mem_cons_self hid
  refine ⟨acc.refcount_set hid (by omega) hne, fun id' hid' => ?_, acc.freeNodup, fun id' hid' => ?_, acc.cachedHere,
    acc.cachedOnce, fun id' m hm => ?_, fun id' hid' hzero => acc.covered id' hid' ?_,
    fun id' h hmem => acc.promoted id' h (List.mem_cons_of_mem _ hmem), fun id' hmem hid' => ?_⟩
  · obtain ⟨t, ht, hactive⟩ := acc.tracked id' hid'
    refine ⟨t, ht, hactive.trans ?_⟩
    by_cases he : id = id'
    · subst he
      rw [numRefs_cons_self]
      omega
    · rw [hne id' he]
  · have he : id ≠ id' := by
      rintro rfl
      exact (acc.free id hid').2.2 ⟨h, hcached⟩
    rw [hne id' he]
    exact acc.free id' hid'
  · have he : id ≠ id' := by
      rintro rfl
      have := (acc.evictable id m hm).1
      rw [numRefs_cons_self] at this
      cases this
    rw [hne id' he]
    exact acc.evictable id' m hm
  · rw [← hne id' fun he => ?_]
    · exact hzero
    · subst he
      omega
  · have he : id ≠ id' := by
      rintro rfl
      exact (acc.mutable id (List.mem_cons_of_mem _ hmem) hid').2 ⟨h, hcached⟩
    rw [hne id' he]
    exact acc.mutable id' (List.mem_cons_of_mem _ hmem) hid'

/-- The last reference to a cached block goes, and the block can be evicted. -/
theorem releaseLast {n : Nat} {m : BlockMetaData} {q : List HeapEntry} (acc : a.Accounts ((id, some h) :: refs))
    (hid : id ∈ a.allBlockIndices) (hn : a.refcounts.get? id = some n) (hzero : n - 1 = 0) (hm : m.contentHash = h)
    (ht : t.active = false) :
    Accounts { a with
      refcounts := a.refcounts.set id (n - 1)
      evictor := ⟨a.evictor.freeTable.set id m, q⟩
      blockTracker := a.blockTracker.set id t } refs := by
  have hcount : n = numRefs refs id + 1 := by rw [(acc.numRefs_of_get? hn).2, numRefs_cons_self]
  have h0 : numRefs refs id = 0 := by omega
  have hne (id' : BlockId) (he : id ≠ id') : numRefs refs id' = numRefs ((id, some h) :: refs) id' :=
    (numRefs_cons_ne he).symm
  have hcached := acc.promoted id h List.mem_cons_self hid
  refine ⟨acc.refcount_set hid (by omega) hne,
    acc.tracked_set (by rw [ht, h0]; exact ⟨fun hf => (by cases hf), fun hlt => absurd hlt (lt_irrefl 0)⟩) hne,
    acc.freeNodup, fun id' hid' => ?_, acc.cachedHere, acc.cachedOnce, fun id' m' hm' => ?_, fun id' hid' hzero' => ?_,
    fun id' h hmem => acc.promoted id' h (List.mem_cons_of_mem _ hmem), fun id' hmem hid' => ?_⟩
  · have he : id ≠ id' := by
      rintro rfl
      exact (acc.free id hid').2.2 ⟨h, hcached⟩
    rw [hne id' he]
    exact acc.free id' hid'
  · by_cases he : id = id'
    · subst he
      have hm'' : (a.evictor.freeTable.set id m).get? id = some m' := hm'
      rw [Dict.get?_set_self] at hm''
      obtain rfl := Option.some.inj hm''
      exact ⟨h0, hm ▸ hcached⟩
    · have hm'' : (a.evictor.freeTable.set id m).get? id' = some m' := hm'
      rw [Dict.get?_set_ne _ _ he] at hm''
      rw [hne id' he]
      exact acc.evictable id' m' hm''
  · show _ ∨ id' ∈ a.evictor.freeTable.set id m
    by_cases he : id = id'
    · exact .inr (Dict.mem_set.mpr (.inl he.symm))
    · rw [hne id' he] at hzero'
      exact (acc.covered id' hid' hzero').imp_right fun hin => Dict.mem_set.mpr (.inr hin)
  · have he : id ≠ id' := by
      rintro rfl
      exact (acc.mutable id (List.mem_cons_of_mem _ hmem) hid').2 ⟨h, hcached⟩
    rw [hne id' he]
    exact acc.mutable id' (List.mem_cons_of_mem _ hmem) hid'

/-! ## Sharing and promotion -/

/-- One more reference to a cached block in use. -/
theorem acquireShared {n : Nat} (acc : a.Accounts refs) (hcached : a.cachedBlocks.get? h = some id)
    (hn : a.refcounts.get? id = some n) (hpos : 0 < n) :
    Accounts { a with refcounts := a.refcounts.set id (n + 1) } ((id, some h) :: refs) := by
  obtain ⟨hid, hcount⟩ := acc.numRefs_of_get? hn
  have huncached (id' : BlockId) (hc : ¬ a.Cached id') : id ≠ id' := by
    rintro rfl
    exact hc ⟨h, hcached⟩
  refine ⟨acc.refcount_set hid (by rw [numRefs_cons_self, hcount]) fun _ => numRefs_cons_ne, fun id' hid' => ?_,
    acc.freeNodup, fun id' hid' => ?_, acc.cachedHere, acc.cachedOnce, fun id' m hm => ?_,
    fun id' hid' hzero => acc.covered id' hid' ?_, fun id' h' hmem hid' => ?_, fun id' hmem hid' => ?_⟩
  · obtain ⟨t, ht, hactive⟩ := acc.tracked id' hid'
    refine ⟨t, ht, hactive.trans ?_⟩
    by_cases he : id = id'
    · subst he
      rw [numRefs_cons_self]
      omega
    · rw [numRefs_cons_ne he]
  · rw [numRefs_cons_ne (huncached id' (acc.free id' hid').2.2)]
    exact acc.free id' hid'
  · have he : id ≠ id' := by
      rintro rfl
      rw [(acc.evictable id m hm).1] at hcount
      omega
    rw [numRefs_cons_ne he]
    exact acc.evictable id' m hm
  · rw [numRefs_cons] at hzero
    omega
  · rcases List.mem_cons.mp hmem with he | hmem
    · obtain ⟨rfl, ho⟩ := Prod.mk.inj he
      obtain rfl := Option.some.inj ho
      exact hcached
    · exact acc.promoted id' h' hmem hid'
  · have hmem := (List.mem_cons.mp hmem).resolve_left fun he => by cases he
    obtain ⟨hone, hc⟩ := acc.mutable id' hmem hid'
    rw [numRefs_cons_ne (huncached id' hc)]
    exact ⟨hone, hc⟩

/-- The first reference to a cached block; it cannot be evicted any more. -/
theorem acquireFirst {n : Nat} (acc : a.Accounts refs) (hcached : a.cachedBlocks.get? h = some id)
    (hn : a.refcounts.get? id = some n) (h0 : n = 0) (ht : t.active = true) :
    id ∈ a.evictor.freeTable ∧ Accounts { a with
      refcounts := a.refcounts.set id (n + 1)
      evictor := { a.evictor with freeTable := a.evictor.freeTable.erase id }
      blockTracker := a.blockTracker.set id t } ((id, some h) :: refs) := by
  obtain ⟨hid, hcount⟩ := acc.numRefs_of_get? hn
  subst h0
  have huncached (id' : BlockId) (hc : ¬ a.Cached id') : id ≠ id' := by
    rintro rfl
    exact hc ⟨h, hcached⟩
  have hin : id ∈ a.evictor.freeTable :=
    (acc.covered id hid hcount.symm).resolve_left fun hfree => (acc.free id hfree).2.2 ⟨h, hcached⟩
  refine ⟨hin, acc.refcount_set hid (by rw [numRefs_cons_self, ← hcount]) fun _ => numRefs_cons_ne,
    acc.tracked_set ⟨fun _ => numRefs_pos List.mem_cons_self, fun _ => ht⟩ fun _ => numRefs_cons_ne,
    acc.freeNodup, fun id' hid' => ?_, acc.cachedHere, acc.cachedOnce, fun id' m hm => ?_, fun id' hid' hzero => ?_,
    fun id' h' hmem hid' => ?_, fun id' hmem hid' => ?_⟩
  · rw [numRefs_cons_ne (huncached id' (acc.free id' hid').2.2)]
    exact acc.free id' hid'
  · have hm' : (a.evictor.freeTable.erase id).get? id' = some m := hm
    rw [Dict.get?_erase] at hm'
    split at hm'
    · cases hm'
    · rw [numRefs_cons_ne ‹_›]
      exact acc.evictable id' m hm'
  · show _ ∨ id' ∈ a.evictor.freeTable.erase id
    have he : id ≠ id' := by
      rintro rfl
      rw [numRefs_cons_self] at hzero
      cases hzero
    rw [numRefs_cons_ne he] at hzero
    exact (acc.covered id' hid' hzero).imp_right fun hin => Dict.mem_erase.mpr ⟨Ne.symm he, hin⟩
  · rcases List.mem_cons.mp hmem with he | hmem
    · obtain ⟨rfl, ho⟩ := Prod.mk.inj he
      obtain rfl := Option.some.inj ho
      exact hcached
    · exact acc.promoted id' h' hmem hid'
  · have hmem := (List.mem_cons.mp hmem).resolve_left fun he => by cases he
    obtain ⟨hone, hc⟩ := acc.mutable id' hmem hid'
    rw [numRefs_cons_ne (huncached id' hc)]
    exact ⟨hone, hc⟩

/-- A block that only its holder refers to is cached under a new hash. -/
theorem promote (acc : a.Accounts ((id, none) :: refs)) (hid : id ∈ a.allBlockIndices)
    (hnone : a.cachedBlocks.get? h = none) :
    Accounts { a with cachedBlocks := a.cachedBlocks.set h id } ((id, some h) :: refs) := by
  obtain ⟨hone, huncached⟩ := acc.mutable id List.mem_cons_self hid
  have hsame (id' : BlockId) : numRefs ((id, some h) :: refs) id' = numRefs ((id, none) :: refs) id' := by
    rw [numRefs_cons, numRefs_cons]
  have hold (h' : PrefixHash) (id' : BlockId) (hc : (a.cachedBlocks.set h id).get? h' = some id') :
      h = h' ∧ id = id' ∨ h ≠ h' ∧ id ≠ id' ∧ a.cachedBlocks.get? h' = some id' := by
    rw [Dict.get?_set] at hc
    split at hc
    · exact .inl ⟨‹_›, Option.some.inj hc⟩
    · refine .inr ⟨‹_›, ?_, hc⟩
      rintro rfl
      exact huncached ⟨h', hc⟩
  have hkeep (h' : PrefixHash) (id' : BlockId) (hc : a.cachedBlocks.get? h' = some id') :
      (a.cachedBlocks.set h id).get? h' = some id' := by
    rw [Dict.get?_set_ne, hc]
    rintro rfl
    rw [hnone] at hc
    cases hc
  have hcached (id' : BlockId) (he : id ≠ id') (hc : ¬ a.Cached id') : ¬ ∃ h', (a.cachedBlocks.set h id).get? h' = some id' := by
    rintro ⟨h', hc'⟩
    rcases hold h' id' hc' with ⟨-, he'⟩ | ⟨-, -, hc'⟩
    · exact he he'
    · exact hc ⟨h', hc'⟩
  refine ⟨fun id' => ?_, fun id' hid' => ?_, acc.freeNodup, fun id' hid' => ?_, fun h' id' hc => ?_,
    fun h₁ h₂ id' hc₁ hc₂ => ?_, fun id' m hm => ?_, fun id' hid' hzero => acc.covered id' hid' (by rwa [← hsame]),
    fun id' h' hmem hid' => ?_, fun id' hmem hid' => ?_⟩
  · rw [hsame]
    exact acc.refcount id'
  · rw [hsame]
    exact acc.tracked id' hid'
  · obtain ⟨hin, hzero, hc⟩ := acc.free id' hid'
    rw [hsame]
    refine ⟨hin, hzero, hcached id' ?_ hc⟩
    rintro rfl
    rw [hone] at hzero
    cases hzero
  · rcases hold h' id' hc with ⟨-, rfl⟩ | ⟨-, -, hc⟩
    · exact hid
    · exact acc.cachedHere h' id' hc
  · rcases hold h₁ id' hc₁ with ⟨rfl, rfl⟩ | ⟨-, hne, hc₁⟩
    · rcases hold h₂ _ hc₂ with ⟨rfl, -⟩ | ⟨-, hne, -⟩
      · rfl
      · exact absurd rfl hne
    · rcases hold h₂ _ hc₂ with ⟨-, rfl⟩ | ⟨-, -, hc₂⟩
      · exact absurd rfl hne
      · exact acc.cachedOnce h₁ h₂ id' hc₁ hc₂
  · rw [hsame]
    obtain ⟨hzero, hc⟩ := acc.evictable id' m hm
    exact ⟨hzero, hkeep _ _ hc⟩
  · rcases List.mem_cons.mp hmem with he | hmem
    · obtain ⟨rfl, ho⟩ := Prod.mk.inj he
      obtain rfl := Option.some.inj ho
      exact Dict.get?_set_self ..
    · exact hkeep _ _ (acc.promoted id' h' (List.mem_cons_of_mem _ hmem) hid')
  · have hmem := (List.mem_cons.mp hmem).resolve_left fun he => by cases he
    rw [hsame]
    obtain ⟨hone', hc⟩ := acc.mutable id' (List.mem_cons_of_mem _ hmem) hid'
    refine ⟨hone', hcached id' ?_ hc⟩
    rintro rfl
    rw [numRefs_cons_self] at hone
    have := numRefs_pos hmem
    omega

end Accounts

end PrefixCachingBlockAllocator

end CoreFlow
