import CoreFlow.Block.Returns
import CoreFlow.Block.Owned
import Mathlib.Data.Finset.Card

/-!
# The blocks that a chain takes

The full blocks of a token list are allocated one by one. A block that is in use under its hash is shared, any
other one takes a free block, whether it is still cached or not; a block that the chain has taken stays. So the
allocation returns when there is a free block for each hash of the chain that is not in use, and otherwise it
raises when some blocks have been taken.
-/

namespace CoreFlow
open Prog

section
variable {refs : List Ref} {id : BlockId}

theorem exists_ref (h : 0 < numRefs refs id) : ∃ o, (id, o) ∈ refs := by
  obtain ⟨x, hx, rfl⟩ := List.mem_map.mp (List.count_pos_iff.mp h)
  exact ⟨x.2, hx⟩

end

namespace PrefixCachingBlockAllocator
variable {a a' : PrefixCachingBlockAllocator} {refs : List Ref} {id : BlockId} {h h' : PrefixHash}

/-- Free and evictable blocks are those that nobody refers to. -/
theorem Accounts.numFree_eq (acc : a.Accounts refs) (nodup : a.allBlockIndices.Nodup) :
    a.getNumFreeBlocks = a.allBlockIndices.countP fun id => numRefs refs id = 0 := by
  have hperm : (a.freeBlockIndices ++ a.evictor.freeTable.keys).Perm
      (a.allBlockIndices.filter fun id => numRefs refs id = 0) := by
    refine (List.perm_ext_iff_of_nodup ?_ (nodup.filter _)).mpr fun id => ?_
    · refine List.nodup_append.mpr ⟨acc.freeNodup, Dict.nodup_keys _, fun id hid id' hid' => ?_⟩
      rintro rfl
      obtain ⟨m, hm⟩ := Dict.mem_iff.mp hid'
      exact (acc.free id hid).2.2 ⟨_, (acc.evictable id m hm).2⟩
    · rw [List.mem_append, List.mem_filter, decide_eq_true_eq]
      constructor
      · rintro (hfree | hevict)
        · exact ⟨(acc.free id hfree).1, (acc.free id hfree).2.1⟩
        · obtain ⟨m, hm⟩ := Dict.mem_iff.mp hevict
          obtain ⟨hzero, hcached⟩ := acc.evictable id m hm
          exact ⟨acc.cachedHere _ id hcached, hzero⟩
      · intro hid
        exact acc.covered id hid.1 hid.2
  have := hperm.length_eq
  rw [List.length_append, ← List.countP_eq_length_filter] at this
  rw [← this, getNumFreeBlocks, LRUEvictor.numBlocks, Dict.size_eq_length_keys]

/-- A hash is in use when a reference to a block of the device was taken under it. -/
theorem Accounts.hashInUse_iff (acc : a.Accounts refs) :
    a.hashInUse h = true ↔ ∃ id ∈ a.allBlockIndices, (id, some h) ∈ refs := by
  unfold hashInUse
  constructor
  · intro hused
    cases hget : a.cachedBlocks.get? h with
    | none =>
      rw [hget] at hused
      cases hused
    | some id =>
      rw [hget] at hused
      have hid := acc.cachedHere h id hget
      obtain ⟨t, ht, hactive⟩ := acc.tracked id hid
      dsimp only at hused
      rw [ht, Option.any_some, hactive] at hused
      obtain ⟨o, ho⟩ := exists_ref hused
      refine ⟨id, hid, ?_⟩
      cases o with
      | none => exact absurd ⟨h, hget⟩ (acc.mutable id ho hid).2
      | some h' => rwa [acc.cachedOnce h h' id hget (acc.promoted id h' ho hid)]
  · rintro ⟨id, hid, hmem⟩
    obtain ⟨t, ht, hactive⟩ := acc.tracked id hid
    rw [acc.promoted id h hmem hid]
    dsimp only
    rw [ht, Option.any_some, hactive]
    exact numRefs_pos hmem

/-- A hash that is cached and not in use has a block that can be evicted. -/
theorem Accounts.numFree_pos (acc : a.Accounts refs) (hget : a.cachedBlocks.get? h = some id) (hidle : a.hashInUse h = false) :
    0 < a.getNumFreeBlocks := by
  have hid := acc.cachedHere h id hget
  have hzero : numRefs refs id = 0 := by
    by_contra hne
    obtain ⟨t, ht, hactive⟩ := acc.tracked id hid
    unfold hashInUse at hidle
    rw [hget] at hidle
    dsimp only at hidle
    rw [ht, Option.any_some, hactive.mpr (Nat.pos_of_ne_zero hne)] at hidle
    cases hidle
  have hevict : id ∈ a.evictor.freeTable :=
    (acc.covered id hid hzero).resolve_left fun hfree => (acc.free id hfree).2.2 ⟨h, hget⟩
  rw [getNumFreeBlocks, LRUEvictor.numBlocks, Dict.size_eq_length_keys]
  exact Nat.add_pos_right _ (List.length_pos_of_mem hevict)

/-- After a reference was taken under a hash, that hash is in use too. -/
theorem hashInUse_take (acc : a.Accounts refs) (acc' : a'.Accounts ((id, some h) :: refs))
    (hall : a'.allBlockIndices = a.allBlockIndices) (hid : id ∈ a.allBlockIndices) :
    a'.hashInUse h' = true ↔ a.hashInUse h' = true ∨ h' = h := by
  rw [acc'.hashInUse_iff, acc.hashInUse_iff, hall]
  constructor
  · rintro ⟨id', hid', hmem⟩
    rcases List.mem_cons.mp hmem with he | hmem
    · exact .inr (Option.some.inj (Prod.mk.inj he).2)
    · exact .inl ⟨id', hid', hmem⟩
  · rintro (⟨id', hid', hmem⟩ | rfl)
    · exact ⟨id', hid', List.mem_cons_of_mem _ hmem⟩
    · exact ⟨id, hid, List.mem_cons_self⟩

/-- The first reference to a block takes it from the free ones. -/
theorem numFree_cons {o : Option PrefixHash} (acc : a.Accounts refs) (acc' : a'.Accounts ((id, o) :: refs))
    (hall : a'.allBlockIndices = a.allBlockIndices) (nodup : a.allBlockIndices.Nodup) (hid : id ∈ a.allBlockIndices) :
    a'.getNumFreeBlocks + (if numRefs refs id = 0 then 1 else 0) = a.getNumFreeBlocks := by
  have hcount (l : List BlockId) (hl : l.Nodup) : l.countP (fun id' => numRefs ((id, o) :: refs) id' = 0) +
      (if id ∈ l ∧ numRefs refs id = 0 then 1 else 0) = l.countP fun id' => numRefs refs id' = 0 := by
    induction l with
    | nil => simp
    | cons x l ih =>
      obtain ⟨hx, hl⟩ := List.nodup_cons.mp hl
      have := ih hl
      rw [List.countP_cons, List.countP_cons, ← this]
      by_cases he : id = x
      · subst he
        have hself : ¬ numRefs refs id + 1 = 0 := Nat.succ_ne_zero _
        simp only [numRefs_cons_self, hself, hx, decide_false, List.mem_cons_self, true_and, false_and, if_false, Nat.add_zero,
          decide_eq_true_eq, Bool.false_eq_true]
      · simp only [numRefs_cons_ne he, List.mem_cons, he, false_or]
        omega
  rw [acc'.numFree_eq (hall ▸ nodup), acc.numFree_eq nodup, hall, ← hcount _ nodup]
  simp only [hid, true_and]

/-- A block that only its holder may write. -/
theorem numFree_takeNew (acc : a.Accounts refs) (acc' : a'.Accounts ((id, none) :: refs))
    (hall : a'.allBlockIndices = a.allBlockIndices) (nodup : a.allBlockIndices.Nodup) (hid : id ∈ a.allBlockIndices) :
    a'.getNumFreeBlocks + 1 = a.getNumFreeBlocks := by
  have hone := (acc'.mutable id List.mem_cons_self (hall ▸ hid)).1
  rw [numRefs_cons_self] at hone
  rw [← numFree_cons acc acc' hall nodup hid, if_pos (by omega)]

/-- A block is taken for a hash that was not in use. -/
theorem numFree_take (acc : a.Accounts refs) (acc' : a'.Accounts ((id, some h) :: refs))
    (hall : a'.allBlockIndices = a.allBlockIndices) (nodup : a.allBlockIndices.Nodup) (hid : id ∈ a.allBlockIndices) :
    a'.getNumFreeBlocks + (if a.hashInUse h then 0 else 1) = a.getNumFreeBlocks := by
  have hused : a.hashInUse h = true ↔ 0 < numRefs refs id := by
    rw [acc.hashInUse_iff]
    have hget := acc'.promoted id h List.mem_cons_self (hall ▸ hid)
    constructor
    · rintro ⟨id', hid', hmem⟩
      have hget' := acc'.promoted id' h (List.mem_cons_of_mem _ hmem) (hall ▸ hid')
      obtain rfl := Option.some.inj (hget.symm.trans hget')
      exact numRefs_pos hmem
    · intro hpos
      obtain ⟨o, ho⟩ := exists_ref hpos
      refine ⟨id, hid, ?_⟩
      cases o with
      | none =>
        have hone := (acc'.mutable id (List.mem_cons_of_mem _ ho) (hall ▸ hid)).1
        rw [numRefs_cons_self] at hone
        omega
      | some h' =>
        rwa [acc'.cachedOnce h h' id hget (acc'.promoted id h' (List.mem_cons_of_mem _ ho) (hall ▸ hid))]
  rw [← numFree_cons acc acc' hall nodup hid]
  congr 1
  by_cases hz : numRefs refs id = 0
  · rw [if_pos hz, if_neg]
    rw [hused]
    omega
  · rw [if_neg hz, if_pos]
    rw [hused]
    omega

/-- References to the blocks of other allocators. -/
theorem Accounts.others {xs : List Ref} (hout : ∀ x ∈ xs, x.1 ∉ a.allBlockIndices) :
    a.Accounts (xs ++ refs) ↔ a.Accounts refs := by
  induction xs with
  | nil => exact Iff.rfl
  | cons x xs ih =>
    rw [List.cons_append, Accounts.other (hout x List.mem_cons_self), ih fun y hy => hout y (List.mem_cons_of_mem _ hy)]

theorem Accounts.numFree_congr (acc : a.Accounts refs) (acc' : a'.Accounts refs)
    (hall : a'.allBlockIndices = a.allBlockIndices) (nodup : a.allBlockIndices.Nodup) :
    a'.getNumFreeBlocks = a.getNumFreeBlocks := by
  rw [acc.numFree_eq nodup, acc'.numFree_eq (hall ▸ nodup), hall]

theorem Accounts.hashInUse_congr (acc : a.Accounts refs) (acc' : a'.Accounts refs)
    (hall : a'.allBlockIndices = a.allBlockIndices) : a'.hashInUse h = a.hashInUse h := by
  rw [Bool.eq_iff_iff, acc.hashInUse_iff, acc'.hashInUse_iff, hall]

/-- The number of hashes of a chain that no block in use is cached under. -/
def numToTake (a : PrefixCachingBlockAllocator) (hashes : List PrefixHash) : Nat :=
  (hashes.toFinset.filter fun h => a.hashInUse h = false).card

theorem numToTake_pos {hashes : List PrefixHash} : 0 < a.numToTake hashes ↔ ∃ h ∈ hashes, a.hashInUse h = false := by
  unfold numToTake
  rw [Finset.card_pos]
  constructor
  · rintro ⟨h, hh⟩
    rw [Finset.mem_filter, List.mem_toFinset] at hh
    exact ⟨h, hh⟩
  · rintro ⟨h, hh⟩
    refine ⟨h, ?_⟩
    rwa [Finset.mem_filter, List.mem_toFinset]

theorem numToTake_congr {hashes : List PrefixHash} (h : ∀ h' ∈ hashes, a'.hashInUse h' = a.hashInUse h') :
    a'.numToTake hashes = a.numToTake hashes := by
  unfold numToTake
  congr 1
  apply Finset.filter_congr
  intro h' hh'
  rw [h h' (List.mem_toFinset.mp hh')]

theorem numToTake_cons {hashes : List PrefixHash} (hused : ∀ h', a'.hashInUse h' = true ↔ a.hashInUse h' = true ∨ h' = h) :
    a.numToTake (h :: hashes) = a'.numToTake hashes + if a.hashInUse h then 0 else 1 := by
  have hidle (h' : PrefixHash) : a'.hashInUse h' = false ↔ a.hashInUse h' = false ∧ h' ≠ h := by
    rw [← Bool.not_eq_true, hused, not_or, Bool.not_eq_true]
  unfold numToTake
  have hrest : (hashes.toFinset.filter fun h' => a'.hashInUse h' = false) =
      (hashes.toFinset.filter fun h' => a.hashInUse h' = false).erase h := by
    ext h'
    simp only [Finset.mem_filter, Finset.mem_erase, hidle]
    tauto
  rw [hrest, List.toFinset_cons, Finset.filter_insert]
  by_cases hh : a.hashInUse h = true
  · rw [if_neg (by rw [hh]; decide), if_pos hh, Finset.erase_eq_of_notMem, Nat.add_zero]
    rw [Finset.mem_filter, hh]
    exact fun hc => absurd hc.2 (by decide)
  · rw [if_pos (Bool.not_eq_true _ ▸ hh), if_neg hh]
    have hsame (t : Finset PrefixHash) : insert h (t.erase h) = insert h t := by
      ext h'
      simp only [Finset.mem_insert, Finset.mem_erase]
      tauto
    rw [← Finset.card_insert_of_notMem (Finset.notMem_erase h _), hsame]

end PrefixCachingBlockAllocator

namespace BlockM
open CpuGpuBlockAllocator
variable {p : BlockParams} {d : Device} {r : BlockRef} {s s' s₁ : CpuGpuBlockAllocator} {live known : List BlockRef}
  {prevBlock : Option BlockRef} {tokenIds : List TokenId} {refs : List Ref} {id : BlockId} {h : PrefixHash} {i n : Nat}

/-- The object `r` holds this hash and a block of the device. -/
def Carries (d : Device) (s : CpuGpuBlockAllocator) (r : BlockRef) (h : PrefixHash) : Prop :=
  ∃ b id, s.block? r = some b ∧ b.cachedContentHash = some h ∧ b.blockId = some id ∧ id ∈ (s.on d).allBlockIndices

/-- An object has been made for a full block, with a reference to a block of the device. -/
structure Takes (p : BlockParams) (d : Device) (live known : List BlockRef) (refs : List Ref) (r : BlockRef)
    (id : BlockId) (h : PrefixHash) (s s' : CpuGpuBlockAllocator) : Prop where
  inUse : s'.InUse (r :: live)
  same : ∀ q ∈ live, s'.block? q = s.block? q
  settled : s'.Settled p (r :: known)
  blocks : ∀ e, (s'.on e).allBlockIndices = (s.on e).allBlockIndices
  here : id ∈ (s.on d).allBlockIndices
  books : s'.Books ((id, some h) :: refs)
  carries : Carries d s' r h

theorem takes_of_creates (cr : Creates p live refs r prevBlock tokenIds s s') (after : ComesAfter p s live known prevBlock)
    (grows : Grows s s') (hh : newHash p s prevBlock tokenIds = some h) (hid : s'.idOf? r = some id)
    (hin : id ∈ (s.on d).allBlockIndices) : Takes p d live known refs r id h s s' := by
  have hprev (q : BlockRef) (hq : prevBlock = some q) := (after.prev q hq).1
  obtain ⟨b, x, sits, books'⟩ := cr.object
  have same (q : BlockRef) (hq : q ∈ known) := cr.same q (after.live q hq)
  have hx : x.2 = some h := by
    rw [← hh, sits.derived]
    exact derivedHash_congr sits.prev sits.tokens (heldPrevHash_eq fun q hq => same q (hprev q hq))
  unfold idOf? at hid
  rw [sits.object, Option.bind_some, sits.blockId] at hid
  obtain rfl : x = (id, some h) := Prod.ext (Option.some.inj hid) hx
  have hin' : id ∈ (s'.on d).allBlockIndices := by
    rw [grows.blocks]
    exact hin
  refine ⟨cr.inUse, cr.same, fun q hq => ?_, grows.blocks, hin, books', b, id, sits.object, sits.hash, sits.blockId, hin'⟩
  rcases List.mem_cons.mp hq with rfl | hq
  · exact ⟨b, sits.object, sits.hash.trans sits.derived,
      fun q hq => List.mem_cons_of_mem _ (hprev q (sits.prev.symm.trans hq))⟩
  · obtain ⟨c, hc, hheld, hbefore⟩ := after.settled.same same q hq
    exact ⟨c, hc, hheld, fun q hq => List.mem_cons_of_mem _ (hbefore q hq)⟩

theorem allocateImmutableBlock_takes (ready : s.Ready d) (use : s.InUse live) (books : s.Books refs)
    (after : ComesAfter p s live known prevBlock) (hlen : tokenIds.length ≤ p.blockSize)
    (hh : newHash p s prevBlock tokenIds = some h) (room : (s.on d).hashInUse h = true ∨ 0 < (s.on d).getNumFreeBlocks) :
    ∃ r s' id, allocateImmutableBlock p d prevBlock tokenIds s = some (r, s') ∧ s'.Ready d ∧
      Takes p d live known refs r id h s s' := by
  obtain ⟨r, s', b, id, hrun, hb, hid, hin⟩ := allocateImmutableBlock_returns ready use books after hlen hh room
  have grows := (allocateImmutableBlock_advances p d _ _ _ _ _ hrun).toGrows
  have ready' := ready.after grows (allocateImmutableBlock_calm p d _ _ _ _ _ hrun)
  have cr := allocateImmutableBlock_creates use after.settled after.live books (fun q hq => (after.prev q hq).1)
    (fun hs => absurd hs ready'.clean) hrun
  refine ⟨r, s', id, hrun, ready', takes_of_creates cr after grows hh ?_ hin⟩
  unfold idOf?
  rw [hb, Option.bind_some, hid]

/-! ## Chains -/

/-- The object of block `i - 1` of the token list is the previous one. -/
structure AtBlock (p : BlockParams) (tokenIds : List TokenId) (s : CpuGpuBlockAllocator) (live known : List BlockRef)
    (prevBlock : Option BlockRef) (i : Nat) : Prop where
  settled : s.Settled p known
  live : ∀ q ∈ known, q ∈ live
  first : prevBlock = none ↔ i = 0
  prev : ∀ q, prevBlock = some q → q ∈ known ∧ ∃ pb h, s.block? q = some pb ∧ pb.cachedContentHash = some h ∧
    prevHash p tokenIds i = some h

theorem AtBlock.after (h : AtBlock p tokenIds s live known prevBlock i) : ComesAfter p s live known prevBlock :=
  ⟨h.settled, h.live, fun q hq =>
    have ⟨hin, pb, h, hpb, hh, _⟩ := h.prev q hq
    ⟨hin, pb, h, hpb, hh⟩⟩

theorem atBlock_zero (tokenIds : List TokenId) : AtBlock p tokenIds s live [] none 0 :=
  ⟨fun q hq => absurd hq List.not_mem_nil, fun q hq => absurd hq List.not_mem_nil, ⟨fun _ => rfl, fun _ => rfl⟩,
    fun q hq => by cases hq⟩

theorem AtBlock.newHash_eq (h : AtBlock p tokenIds s live known prevBlock i) (hfull : (i + 1) * p.blockSize ≤ tokenIds.length) :
    newHash p s prevBlock (slice p tokenIds i) =
      if prevHash p tokenIds i = some noneHash then none else some (hashAt p tokenIds i) := by
  have hlen : ¬ Block.isFull p ⟨prevBlock, slice p tokenIds i, none, false, none, 0⟩ = false := by
    rw [Block.isFull, length_slice_eq.mpr hfull]
    simp
  unfold newHash derivedHash
  rw [if_neg hlen]
  cases hp : prevBlock with
  | none =>
    obtain rfl := h.first.mp hp
    rfl
  | some q =>
    obtain ⟨-, pb, h', hpb, hh, hprev⟩ := h.prev q hp
    have hheld : s.heldPrevHash ⟨some q, slice p tokenIds i, none, false, none, 0⟩ = prevHash p tokenIds i := by
      unfold heldPrevHash
      dsimp only
      rw [hpb, Option.bind_some, hh, hprev]
    obtain ⟨j, rfl⟩ : ∃ j, i = j + 1 := by
      apply Nat.exists_eq_succ_of_ne_zero
      intro h0
      rw [h.first.mpr h0] at hp
      cases hp
    rw [hheld]
    simp only [Option.isNone_some, and_true]
    rfl

/-- The next block of the chain. -/
theorem AtBlock.next (h : AtBlock p tokenIds s live known prevBlock i)
    (taken : Takes p d live known refs r id (hashAt p tokenIds i) s s') :
    AtBlock p tokenIds s' (r :: live) (r :: known) (some r) (i + 1) := by
  refine ⟨taken.settled, fun q hq => ?_, ⟨fun hn => (by cases hn), fun hn => (by cases hn)⟩, fun q hq => ?_⟩
  · rcases List.mem_cons.mp hq with rfl | hq
    · exact List.mem_cons_self
    · exact List.mem_cons_of_mem _ (h.live q hq)
  · obtain rfl := Option.some.inj hq
    obtain ⟨b, id, hb, hh, -⟩ := taken.carries
    exact ⟨List.mem_cons_self, b, _, hb, hh, rfl⟩

/-- The hashes of the blocks from `i` on. -/
def hashesFrom (p : BlockParams) (tokenIds : List TokenId) (i n : Nat) : List PrefixHash :=
  (List.range' i n).map (hashAt p tokenIds)

theorem hashesFrom_succ : hashesFrom p tokenIds i (n + 1) = hashAt p tokenIds i :: hashesFrom p tokenIds (i + 1) n := by
  rw [hashesFrom, List.range'_succ, List.map_cons]
  rfl

/-- Whether block `i` can be taken. -/
def Starts (p : BlockParams) (d : Device) (tokenIds : List TokenId) (i : Nat) (s : CpuGpuBlockAllocator) : Prop :=
  prevHash p tokenIds i ≠ some noneHash ∧
    ((s.on d).hashInUse (hashAt p tokenIds i) = true ∨ 0 < (s.on d).getNumFreeBlocks)

/-- Whether the blocks from `i` on can be taken: there are enough blocks, and every hash can be told. -/
def Fits (p : BlockParams) (d : Device) (tokenIds : List TokenId) (i n : Nat) (s : CpuGpuBlockAllocator) : Prop :=
  (s.on d).numToTake (hashesFrom p tokenIds i n) ≤ (s.on d).getNumFreeBlocks ∧
    ∀ j ∈ List.range' i n, prevHash p tokenIds j ≠ some noneHash

theorem fits_zero : Fits p d tokenIds i 0 s := ⟨Nat.zero_le _, fun _ hj => absurd hj List.not_mem_nil⟩

theorem Fits.starts (h : Fits p d tokenIds i (n + 1) s) : Starts p d tokenIds i s := by
  refine ⟨h.2 i (by rw [List.range'_succ]; exact List.mem_cons_self), ?_⟩
  by_cases hused : (s.on d).hashInUse (hashAt p tokenIds i) = true
  · exact .inl hused
  · have hpos : 0 < (s.on d).numToTake (hashesFrom p tokenIds i (n + 1)) := by
      rw [PrefixCachingBlockAllocator.numToTake_pos]
      refine ⟨hashAt p tokenIds i, ?_, Bool.not_eq_true _ ▸ hused⟩
      rw [hashesFrom_succ]
      exact List.mem_cons_self
    exact .inr (hpos.trans_le h.1)

theorem Takes.numFree (taken : Takes p d live known refs r id h s s') (books : s.Books refs) :
    (s'.on d).getNumFreeBlocks + (if (s.on d).hashInUse h then 0 else 1) = (s.on d).getNumFreeBlocks :=
  PrefixCachingBlockAllocator.numFree_take (books.accounts d) (taken.books.accounts d) (taken.blocks d) (books.distinct d)
    taken.here

theorem Takes.numToTake (taken : Takes p d live known refs r id h s s') (books : s.Books refs) (hashes : List PrefixHash) :
    (s.on d).numToTake (h :: hashes) = (s'.on d).numToTake hashes + if (s.on d).hashInUse h then 0 else 1 :=
  PrefixCachingBlockAllocator.numToTake_cons fun _ => PrefixCachingBlockAllocator.hashInUse_take (books.accounts d)
    (taken.books.accounts d) (taken.blocks d) taken.here

/-- After a block was taken, the others fit as they did before. -/
theorem Takes.fits (taken : Takes p d live known refs r id (hashAt p tokenIds i) s s') (books : s.Books refs)
    (hfirst : prevHash p tokenIds i ≠ some noneHash) :
    Fits p d tokenIds (i + 1) n s' ↔ Fits p d tokenIds i (n + 1) s := by
  have hfree := taken.numFree books
  have hcount := taken.numToTake books (hashesFrom p tokenIds (i + 1) n)
  unfold Fits
  rw [hashesFrom_succ, hcount, List.range'_succ, List.forall_mem_cons]
  constructor
  · rintro ⟨hle, hrest⟩
    exact ⟨by omega, hfirst, hrest⟩
  · rintro ⟨hle, -, hrest⟩
    exact ⟨by omega, hrest⟩

theorem AtBlock.newHash_some (h : AtBlock p tokenIds s live known prevBlock i)
    (hfull : (i + 1) * p.blockSize ≤ tokenIds.length) (hfirst : prevHash p tokenIds i ≠ some noneHash) :
    newHash p s prevBlock (slice p tokenIds i) = some (hashAt p tokenIds i) := by
  rw [h.newHash_eq hfull, if_neg hfirst]

theorem slice_le (i : Nat) : (slice p tokenIds i).length ≤ p.blockSize := by
  rw [length_slice]
  exact Nat.min_le_left _ _

/-- The slices of the blocks from `i` on. -/
def slicesFrom (p : BlockParams) (tokenIds : List TokenId) (i n : Nat) : List (List TokenId) :=
  (List.range' i n).map (slice p tokenIds)

theorem slicesFrom_succ : slicesFrom p tokenIds i (n + 1) = slice p tokenIds i :: slicesFrom p tokenIds (i + 1) n := by
  rw [slicesFrom, List.range'_succ, List.map_cons]
  rfl

/-- Blocks that fit are taken, each under its hash. -/
theorem allocateImmutableBlocks_returns (ready : s.Ready d) (use : s.InUse live) (books : s.Books refs)
    (at_ : AtBlock p tokenIds s live known prevBlock i) (hfull : (i + n) * p.blockSize ≤ tokenIds.length)
    (fits : Fits p d tokenIds i n s) :
    ∃ rs s', allocateImmutableBlocks p d prevBlock (slicesFrom p tokenIds i n) s = some (rs, s') ∧ s'.Ready d ∧
      (∀ q ∈ live, s'.block? q = s.block? q) ∧ (∀ e, (s'.on e).allBlockIndices = (s.on e).allBlockIndices) ∧
        List.Forall₂ (Carries d s') rs (hashesFrom p tokenIds i n) := by
  induction n generalizing i s live known refs prevBlock with
  | zero => exact ⟨[], s, rfl, ready, fun _ _ => rfl, fun _ => rfl, List.Forall₂.nil⟩
  | succ n ih =>
    obtain ⟨hfirst, room⟩ := fits.starts
    have hfull₁ : (i + 1) * p.blockSize ≤ tokenIds.length := (Nat.mul_le_mul_right _ (by omega)).trans hfull
    obtain ⟨r, s₁, id, hr, ready₁, taken⟩ := allocateImmutableBlock_takes ready use books at_.after (slice_le i)
      (at_.newHash_some hfull₁ hfirst) room
    rw [show i + (n + 1) = i + 1 + n by omega] at hfull
    obtain ⟨rs, s', hrs, ready', same, blocks, carries⟩ := ih ready₁ taken.inUse taken.books (at_.next taken) hfull
      ((taken.fits books hfirst).mpr fits)
    refine ⟨r :: rs, s', ?_, ready', fun q hq => ?_, fun e => (blocks e).trans (taken.blocks e), ?_⟩
    · rw [slicesFrom_succ, allocateImmutableBlocks, bind_eq hr, bind_eq hrs]
      rfl
    · exact (same q (List.mem_cons_of_mem _ hq)).trans (taken.same q hq)
    · rw [hashesFrom_succ]
      refine List.Forall₂.cons ?_ carries
      obtain ⟨b, id', hb, hh, hid, hin⟩ := taken.carries
      exact ⟨b, id', (same r List.mem_cons_self).trans hb, hh, hid, by rw [blocks]; exact hin⟩

/-- More references than before, one of them to a block of the device. -/
def Spoils (d : Device) (refs : List Ref) (s' : CpuGpuBlockAllocator) : Prop :=
  ∃ taken, s'.Books (taken ++ refs) ∧ ∃ id ∈ (s'.on d).allBlockIndices, 0 < numRefs taken id

/-- Blocks that do not fit are not all taken, and those that were stay taken. -/
theorem allocateImmutableBlocks_raises (ready : s.Ready d) (use : s.InUse live) (books : s.Books refs)
    (at_ : AtBlock p tokenIds s live known prevBlock i) (hfull : (i + n) * p.blockSize ≤ tokenIds.length)
    (fits : ¬ Fits p d tokenIds i n s) :
    ∃ e s', BlockAttempt.allocateImmutableBlocks p d prevBlock (slicesFrom p tokenIds i n) s = (.error e, s') ∧
      (Starts p d tokenIds i s → Spoils d refs s') ∧ (¬ Starts p d tokenIds i s → PoolsOnly s s') := by
  induction n generalizing i s live known refs prevBlock with
  | zero => exact absurd fits_zero fits
  | succ n ih =>
    have hfull₁ : (i + 1) * p.blockSize ≤ tokenIds.length := (Nat.mul_le_mul_right _ (by omega)).trans hfull
    rw [slicesFrom_succ, BlockAttempt.allocateImmutableBlocks]
    by_cases starts : Starts p d tokenIds i s
    · obtain ⟨hfirst, room⟩ := starts
      obtain ⟨r, s₁, id, hr, ready₁, taken⟩ := allocateImmutableBlock_takes ready use books at_.after (slice_le i)
        (at_.newHash_some hfull₁ hfirst) room
      rw [show i + (n + 1) = i + 1 + n by omega] at hfull
      obtain ⟨e, s', hrs, spoils, still⟩ := ih ready₁ taken.inUse taken.books (at_.next taken) hfull
        fun h => fits ((taken.fits books hfirst).mp h)
      refine ⟨e, s', ?_, fun _ => ?_, fun hnot => absurd ⟨hfirst, room⟩ hnot⟩
      · rw [Attempt.ok_bind ((BlockAttempt.allocateImmutableBlock_follows d prevBlock _ s).1 r s₁ hr)]
        exact Attempt.error_bind hrs
      · have here : id ∈ (s₁.on d).allBlockIndices := by
          rw [taken.blocks]
          exact taken.here
        by_cases again : Starts p d tokenIds (i + 1) s₁
        · obtain ⟨more, books', id', hid', hpos⟩ := spoils again
          refine ⟨more ++ [(id, some (hashAt p tokenIds i))], ?_, id', hid', ?_⟩
          · rwa [List.append_assoc]
          · unfold numRefs at hpos ⊢
            rw [List.map_append, List.count_append]
            omega
        · have hon := still again
          refine ⟨[(id, some (hashAt p tokenIds i))], taken.books.of_pools hon, id, ?_, numRefs_pos (List.mem_singleton_self _)⟩
          rw [hon]
          exact here
    · have raised : ∃ e s', BlockAttempt.allocateImmutableBlock p d prevBlock (slice p tokenIds i) s = (.error e, s') ∧
          PoolsOnly s s' := by
        by_cases hfirst : prevHash p tokenIds i = some noneHash
        · refine allocateImmutableBlock_unhashed ready use at_.after (slice_le i) ?_
          rw [at_.newHash_eq hfull₁, if_pos hfirst]
        · have hnot : ¬ ((s.on d).hashInUse (hashAt p tokenIds i) = true ∨ 0 < (s.on d).getNumFreeBlocks) :=
            fun room => starts ⟨hfirst, room⟩
          rw [not_or, Bool.not_eq_true, Nat.not_lt, Nat.le_zero] at hnot
          have hnone : (s.on d).cachedBlocks.get? (hashAt p tokenIds i) = none := by
            rw [Option.eq_none_iff_forall_not_mem]
            intro id hget
            have := (books.accounts d).numFree_pos hget hnot.1
            omega
          obtain ⟨e, s', hrun, hon, -⟩ := allocateImmutableBlock_raises ready use at_.after (slice_le i)
            (at_.newHash_some hfull₁ hfirst) hnone hnot.2
          exact ⟨e, s', hrun, hon⟩
      obtain ⟨e, s', hrun, hon⟩ := raised
      exact ⟨e, s', Attempt.error_bind hrun, fun h => absurd h starts, fun _ => hon⟩

/-! ## Tables -/

/-- Operations on other objects. -/
theorem carries_same {blocks : List BlockRef} {hashes : List PrefixHash} (c : List.Forall₂ (Carries d s) blocks hashes)
    (same : ∀ r ∈ blocks, s'.block? r = s.block? r) (hall : (s'.on d).allBlockIndices = (s.on d).allBlockIndices) :
    List.Forall₂ (Carries d s') blocks hashes := by
  induction c with
  | nil => exact List.Forall₂.nil
  | cons c _ ih =>
    refine List.Forall₂.cons ?_ (ih fun r hr => same r (List.mem_cons_of_mem _ hr))
    obtain ⟨b, id, hb, hh, hid, hin⟩ := c
    exact ⟨b, id, (same _ List.mem_cons_self).trans hb, hh, hid, by rw [hall]; exact hin⟩

theorem Carries.idOf (c : Carries d s r h) : ∃ id, s.idOf? r = some id := by
  obtain ⟨b, id, hb, -, hid, -⟩ := c
  refine ⟨id, ?_⟩
  unfold idOf?
  rw [hb]
  exact hid

end BlockM

namespace BlockTable
open CpuGpuBlockAllocator BlockM
variable {p : BlockParams} {d : Device} {s : CpuGpuBlockAllocator} {blocks live : List BlockRef} {refs : List Ref}
  {tokenIds : List TokenId}

theorem mapM_idOf_returns (h : ∀ r ∈ blocks, ∃ id, s.idOf? r = some id) : ∃ ids, Prog.mapM idOf blocks s = some (ids, s) := by
  induction blocks with
  | nil => exact ⟨[], rfl⟩
  | cons r blocks ih =>
    obtain ⟨id, hid⟩ := h r List.mem_cons_self
    obtain ⟨ids, hids⟩ := ih fun q hq => h q (List.mem_cons_of_mem _ hq)
    obtain ⟨b, hb, hid⟩ := Option.bind_eq_some_iff.mp hid
    refine ⟨id :: ids, mapM_cons_iff.mpr ⟨id, s, ids, ?_, hids, rfl⟩⟩
    unfold idOf
    rw [bind_eq (getBlock_run hb)]
    exact ofOption_iff.mpr ⟨hid, rfl⟩

/-- The token lists of whole blocks have no tail. -/
theorem slices_of_whole (hmod : tokenIds.length % p.blockSize = 0) :
    (chunkList tokenIds p.blockSize).filter (fun c => c.length == p.blockSize) =
      slicesFrom p tokenIds 0 (numFullBlocks p tokenIds) ∧
    (chunkList tokenIds p.blockSize).filter (fun c => c.length != p.blockSize) = [] := by
  rw [filter_full, filter_tail, tailSlice, if_pos hmod, slicesFrom, List.range_eq_range']
  exact ⟨rfl, rfl⟩

theorem hashesFrom_zero : hashesFrom p tokenIds 0 (numFullBlocks p tokenIds) = blockHashes p tokenIds := by
  rw [hashesFrom, blockHashes, List.range_eq_range']

theorem numFullBlocks_mul_le : (0 + numFullBlocks p tokenIds) * p.blockSize ≤ tokenIds.length := by
  rw [Nat.zero_add]
  exact Nat.div_mul_le_self _ _

/-- A table of whole blocks that fit. -/
theorem allocate_returns (ready : s.Ready d) (use : s.InUse live) (books : s.Books refs)
    (hmod : tokenIds.length % p.blockSize = 0) (hne : tokenIds ≠ [])
    (fits : Fits p d tokenIds 0 (numFullBlocks p tokenIds) s) :
    ∃ t s', empty.allocate p tokenIds d s = some (t, s') ∧ s'.Ready d ∧
      List.Forall₂ (Carries d s') t.blocks (blockHashes p tokenIds) := by
  obtain ⟨rs, s', hrs, ready', -, -, carries⟩ := allocateImmutableBlocks_returns ready use books (atBlock_zero tokenIds)
    numFullBlocks_mul_le fits
  rw [hashesFrom_zero] at carries
  obtain ⟨ids, hids⟩ : ∃ ids, Prog.mapM idOf rs s' = some (ids, s') := by
    refine mapM_idOf_returns fun r hr => ?_
    obtain ⟨h, -, c⟩ := exists_right_of_forall₂ carries hr
    exact c.idOf
  obtain ⟨hfull, htail⟩ := slices_of_whole hmod
  have hnil : (empty : BlockTable).blocks = [] := rfl
  refine ⟨⟨rs, ids, tokenIds.length⟩, s', ?_, ready', carries⟩
  unfold allocate allocateBlocksForTokenIds update
  dsimp only
  rw [require_bind, if_pos hnil, require_bind, if_pos hne, hfull, htail, Prog.bind_assoc, bind_eq hrs]
  dsimp only
  rw [Prog.pure_bind, Prog.bind_assoc, bind_eq hids]
  rfl

/-- A table of whole blocks that do not fit. -/
theorem allocate_raises (ready : s.Ready d) (use : s.InUse live) (books : s.Books refs)
    (hmod : tokenIds.length % p.blockSize = 0) (hne : tokenIds ≠ [])
    (fits : ¬ Fits p d tokenIds 0 (numFullBlocks p tokenIds) s) :
    ∃ e s', BlockAttempt.allocate p empty tokenIds d s = (.error e, s') ∧
      (Starts p d tokenIds 0 s → Spoils d refs s') ∧ (¬ Starts p d tokenIds 0 s → PoolsOnly s s') := by
  obtain ⟨e, s', hrun, spoils, still⟩ := allocateImmutableBlocks_raises ready use books (atBlock_zero tokenIds)
    numFullBlocks_mul_le fits
  obtain ⟨hfull, -⟩ := slices_of_whole hmod
  have hnil : (empty : BlockTable).blocks = [] := rfl
  refine ⟨e, s', ?_, spoils, still⟩
  have first : Prog.require ((empty : BlockTable).blocks = []) s = some ((), s) := require_iff.mpr ⟨hnil, rfl⟩
  have second : Prog.require (tokenIds ≠ []) s = some ((), s) := require_iff.mpr ⟨hne, rfl⟩
  unfold BlockAttempt.allocate BlockAttempt.allocateBlocksForTokenIds BlockAttempt.step
  rw [Attempt.lift_bind first, Attempt.lift_bind second]
  dsimp only
  rw [hfull]
  exact Attempt.error_bind (Attempt.error_bind hrun)

end BlockTable

end CoreFlow
