import CoreFlow.Block.InUse

/-!
# Tables of objects

A table lists some of the objects that were made for it: a swap-out can drop the others. `Lists` says how
the objects hang together, in a way that no operation on another table can change, and the operations on
tables keep it, with the references of the listed objects on the books.
-/

namespace CoreFlow
open Prog

namespace CpuGpuBlockAllocator

/-- The reference of an object to its physical block. -/
def refOf (s : CpuGpuBlockAllocator) (r : BlockRef) : Option Ref :=
  (s.block? r).bind fun b => b.blockId.map fun id => (id, b.cachedContentHash)

def refsOf (s : CpuGpuBlockAllocator) (blocks : List BlockRef) : List Ref := blocks.filterMap s.refOf

/-- The objects remember their hashes and come after the objects before them. -/
def Chained (p : BlockParams) (s : CpuGpuBlockAllocator) (full : List BlockRef) : Prop :=
  ∀ r ∈ full, ∃ b, s.block? r = some b ∧ b.cachedContentHash = s.derivedHash p b ∧
    ∀ q, b.prevBlock = some q → full.idxOf q < full.idxOf r

section
variable {p : BlockParams} {s s' : CpuGpuBlockAllocator} {full blocks blocks' : List BlockRef} {r : BlockRef} {b : Block}
  {x : Ref}

theorem refOf_eq {id : BlockId} (hb : s.block? r = some b) (hid : b.blockId = some id) :
    s.refOf r = some (id, b.cachedContentHash) := by
  unfold refOf
  rw [hb, Option.bind_some, hid]
  rfl

theorem Sits.refOf_eq {prev : Option BlockRef} {tokenIds : List TokenId} (h : s.Sits p r prev tokenIds x b) :
    s.refOf r = some x := by
  rw [CpuGpuBlockAllocator.refOf_eq h.object h.blockId, h.hash]

theorem refOf_same (h : s'.block? r = s.block? r) : s'.refOf r = s.refOf r := by
  unfold refOf
  rw [h]

theorem refsOf_same (h : ∀ q ∈ blocks, s'.block? q = s.block? q) : s'.refsOf blocks = s.refsOf blocks :=
  List.filterMap_congr fun q hq => refOf_same (h q hq)

theorem refsOf_perm (h : blocks.Perm blocks') : (s.refsOf blocks).Perm (s.refsOf blocks') := h.filterMap _

theorem refsOf_append : s.refsOf (blocks ++ blocks') = s.refsOf blocks ++ s.refsOf blocks' := List.filterMap_append

theorem Chained.prev_mem (h : s.Chained p full) (hr : r ∈ full) (hb : s.block? r = some b) {q : BlockRef}
    (hq : b.prevBlock = some q) : q ∈ full := by
  obtain ⟨b', hb', -, hprev⟩ := h r hr
  obtain rfl := Option.some.inj (hb.symm.trans hb')
  exact List.idxOf_lt_length_iff.mp ((hprev q hq).trans (List.idxOf_lt_length_iff.mpr hr))

theorem Chained.settled (h : s.Chained p full) : s.Settled p full := by
  intro r hr
  obtain ⟨b, hb, hheld, -⟩ := h r hr
  exact ⟨b, hb, hheld, fun q hq => h.prev_mem hr hb hq⟩

theorem Chained.content (h : s.Chained p full) (same : ∀ q ∈ full, s'.content? q = s.content? q) : s'.Chained p full := by
  intro r hr
  obtain ⟨b, hb, hheld, hprev⟩ := h r hr
  obtain ⟨b', hb', hcontent, hheld'⟩ := remembers_content hb hheld (same r hr) fun q hq => same q (h.prev_mem hr hb hq)
  exact ⟨b', hb', hheld', fun q hq => hprev q ((congrArg (·.1) hcontent).symm.trans hq)⟩

theorem Chained.same (h : s.Chained p full) (same : ∀ q ∈ full, s'.block? q = s.block? q) : s'.Chained p full :=
  h.content fun q hq => congrArg (Option.map Block.content) (same q hq)

theorem Remembers.content (h : s.Remembers p r) (same : ∀ q, s'.content? q = s.content? q) : s'.Remembers p r := by
  obtain ⟨b, hb, hheld⟩ := h
  obtain ⟨b', hb', -, hheld'⟩ := remembers_content hb hheld (same r) fun q _ => same q
  exact ⟨b', hb', hheld'⟩

end

end CpuGpuBlockAllocator

namespace BlockM
open CpuGpuBlockAllocator
variable {p : BlockParams} {d : Device} {r : BlockRef} {s s' s₁ : CpuGpuBlockAllocator}
  {live known blocks full rest : List BlockRef}
  {u : Unit} {refs : List Ref}

/-! ## Freeing -/

/-- An object that loses its physical block. -/
def dropId (b : Block) : Block := { b with blockId := none }

theorem freeBlockId_releases (hr : s.Remembers p r) (books : s.Books (s.refsOf [r] ++ refs))
    (hrun : freeBlockId p d r s = some (u, s')) : Quiet r dropId s s' ∧ s'.Books refs := by
  obtain ⟨b, hb, hheld⟩ := hr
  have hid : ∃ id, b.blockId = some id := by
    unfold freeBlockId at hrun
    rw [bind_eq (getBlock_iff.mpr ⟨hb, rfl⟩)] at hrun
    obtain ⟨_, _, hreq, -⟩ := bind_iff.mp hrun
    exact Option.ne_none_iff_exists'.mp (require_iff.mp hreq).1
  obtain ⟨id, hid⟩ := hid
  rw [refsOf, List.filterMap_cons_some (refOf_eq hb hid), List.filterMap_nil] at books
  obtain ⟨quiet, books', -⟩ := freeBlockId_books hb hid hheld books hrun
  exact ⟨quiet, books'⟩

theorem free_releases (use : s.InUse (r :: live)) (hr : s.Remembers p r) (books : s.Books (s.refsOf [r] ++ refs))
    (hrun : BlockM.free p r s = some (u, s')) :
    s'.InUse live ∧ s'.Books refs ∧ ∀ q, s'.block? q = (s.block? q).map fun b => if q = r then dropId b else b := by
  obtain ⟨b, _, hget, hrun⟩ := bind_iff.mp hrun
  rw [(getBlock_iff.mp hget).2] at hrun
  obtain ⟨id, _, hid, hrun⟩ := bind_iff.mp hrun
  rw [(ofOption_iff.mp hid).2, read_bind] at hrun
  obtain ⟨d, _, hd, hrun⟩ := bind_iff.mp hrun
  rw [(ofOption_iff.mp hd).2] at hrun
  obtain ⟨_, s₁, hfree, hput⟩ := bind_iff.mp hrun
  obtain ⟨quiet, books₁⟩ := freeBlockId_releases hr books hfree
  obtain ⟨use', same, hon⟩ := freeBlock_inUse (use.quiet quiet) hput
  refine ⟨use', books₁.of_pools hon, fun q => ?_⟩
  rw [same, quiet.objects]
  by_cases hq : r = q
  · subst hq
    rw [if_pos rfl]
    simp only [if_true]
  · rw [if_neg hq]
    simp only [if_neg (Ne.symm hq), Option.map_id']

/-- The objects of a table are returned. -/
theorem forM_free_releases (use : s.InUse (blocks ++ rest)) (hr : ∀ r ∈ blocks, s.Remembers p r)
    (books : s.Books (s.refsOf blocks ++ refs)) (hrun : Prog.forM (BlockM.free p) blocks s = some (u, s')) :
    s'.InUse rest ∧ s'.Books refs ∧ ∀ q ∈ rest, s'.block? q = s.block? q := by
  induction blocks generalizing s with
  | nil =>
    rw [forM_nil_iff.mp hrun]
    exact ⟨use, books, fun _ _ => rfl⟩
  | cons r blocks ih =>
    obtain ⟨s₁, hfree, hrun⟩ := forM_cons_iff.mp hrun
    rw [show r :: blocks = [r] ++ blocks from rfl, refsOf_append, List.append_assoc] at books
    obtain ⟨use₁, books₁, objects⟩ := free_releases use (hr r List.mem_cons_self) books hfree
    have hne (q : BlockRef) (hq : q ∈ blocks ++ rest) : q ≠ r := by
      rintro rfl
      exact (List.nodup_cons.mp use.nodup).1 hq
    have same (q : BlockRef) (hq : q ∈ blocks ++ rest) : s₁.block? q = s.block? q := by
      rw [objects, funext fun b => if_neg (hne q hq), Option.map_id']
    have content (q : BlockRef) : s₁.content? q = s.content? q := by
      unfold content?
      rw [objects, Option.map_map]
      refine congrArg (fun f => Option.map f (s.block? q)) (funext fun b => ?_)
      show (if q = r then dropId b else b).content = b.content
      split <;> rfl
    have hr₁ (q : BlockRef) (hq : q ∈ blocks) : s₁.Remembers p q := (hr q (List.mem_cons_of_mem _ hq)).content content
    rw [← refsOf_same fun q hq => same q (List.mem_append_left _ hq)] at books₁
    obtain ⟨use', books', same'⟩ := ih use₁ hr₁ books₁ hrun
    exact ⟨use', books', fun q hq => (same' q hq).trans (same q (List.mem_append_right _ hq))⟩

/-! ## Swapping -/

theorem forM_freeBlockId_releases (nodup : blocks.Nodup) (hr : ∀ r ∈ blocks, s.Remembers p r)
    (books : s.Books (s.refsOf blocks ++ refs)) (hrun : Prog.forM (freeBlockId p d) blocks s = some (u, s')) :
    (s.InUse live → s'.InUse live) ∧ s'.Books refs ∧
      ∀ q, s'.block? q = (s.block? q).map fun b => if q ∈ blocks then dropId b else b := by
  induction blocks generalizing s with
  | nil =>
    rw [forM_nil_iff.mp hrun]
    exact ⟨id, books, fun q => by simp⟩
  | cons r blocks ih =>
    obtain ⟨s₁, hfree, hrun⟩ := forM_cons_iff.mp hrun
    obtain ⟨hnot, hnodup⟩ := List.nodup_cons.mp nodup
    rw [show r :: blocks = [r] ++ blocks from rfl, refsOf_append, List.append_assoc] at books
    obtain ⟨quiet, books₁⟩ := freeBlockId_releases (hr r List.mem_cons_self) books hfree
    have content (q : BlockRef) : s₁.content? q = s.content? q := by
      unfold content?
      rw [quiet.objects]
      split
      · rw [Option.map_map]
        rfl
      · rfl
    rw [← refsOf_same fun q hq => quiet.object_ne (by rintro rfl; exact hnot hq)] at books₁
    obtain ⟨use', books', objects⟩ := ih hnodup
      (fun q hq => (hr q (List.mem_cons_of_mem _ hq)).content content) books₁ hrun
    refine ⟨fun use => use' (use.quiet quiet), books', fun q => ?_⟩
    rw [objects, quiet.objects]
    by_cases hq : r = q
    · subst hq
      rw [if_pos rfl, Option.map_map]
      refine congrArg (fun f => Option.map f (s.block? r)) (funext fun b => ?_)
      rw [Function.comp_apply, if_neg hnot, if_pos List.mem_cons_self]
    · rw [if_neg hq]
      refine congrArg (fun f => Option.map f (s.block? q)) (funext fun b => ?_)
      simp only [List.mem_cons, Ne.symm hq, false_or]

/-- An object gets the physical block of a temporary one with the same contents. -/
theorem swapInBlock_swaps {b : Block} (use : s.InUse live) (settled : s.Settled p known)
    (hknown : ∀ q ∈ known, q ∈ live) (books : s.Books refs) (hr : r ∈ known) (hb : s.block? r = some b) (ok : s'.Harmless)
    (hrun : swapInBlock p d r s = some (u, s')) :
    s'.InUse live ∧ ∃ id, s'.Books ((id, b.cachedContentHash) :: refs) ∧
      s'.block? r = some { b with blockId := some id } ∧ ∀ q ∈ live, q ≠ r → s'.block? q = s.block? q := by
  unfold swapInBlock at hrun
  rw [bind_eq (getBlock_iff.mpr ⟨hb, rfl⟩)] at hrun
  obtain ⟨tmp, s₁, htmp, hrun⟩ := bind_iff.mp hrun
  obtain ⟨t, _, hget, hrun⟩ := bind_iff.mp hrun
  obtain ⟨hget, hs⟩ := getBlock_iff.mp hget
  rw [hs] at hrun
  obtain ⟨_, s₂, hput, hset⟩ := bind_iff.mp hrun
  have ok₁ := (ok.advances (setBlockId_advances r _ _ _ _ hset)).advances (freeBlock_advances d tmp _ _ _ hput)
  obtain ⟨b', hb', hheld, hprev⟩ := settled r hr
  obtain rfl := Option.some.inj (hb.symm.trans hb')
  have cr : Creates p live refs tmp b.prevBlock b.tokenIds s s₁ := by
    split at htmp
    · exact allocateImmutableBlock_creates use settled hknown books hprev ok₁ htmp
    · obtain ⟨tmp', s₀, hmut, htmp⟩ := bind_iff.mp htmp
      obtain ⟨_, s₃, happend, htmp⟩ := bind_iff.mp htmp
      obtain ⟨rfl, rfl⟩ := pure_iff.mp htmp
      have cr := allocateMutableBlock_creates use books (ok₁.advances (appendTokenIds_advances p tmp _ _ _ _ happend)) hmut
      exact appendTokenIds_creates cr settled hknown hprev happend
  obtain ⟨tb, x, sits, books₁⟩ := cr.object
  obtain rfl := Option.some.inj (hget.symm.trans sits.object)
  obtain ⟨use₂, same₂, hon⟩ := freeBlock_inUse cr.inUse hput
  rw [sits.blockId] at hset
  have eff := modifyBlock_run hset d
  have same (q : BlockRef) (hq : q ∈ live) : s₂.block? q = s.block? q := (same₂ q).trans (cr.same q hq)
  have hx : x = (x.1, b.cachedContentHash) := by
    refine Prod.ext rfl ?_
    rw [hheld, sits.derived]
    exact derivedHash_congr sits.prev sits.tokens (heldPrevHash_eq fun q hq => cr.same q (hknown q (hprev q hq)))
  refine ⟨use₂.quiet eff.toQuiet, x.1, hx ▸ (books₁.of_pools hon).quiet eff, eff.object ((same r (hknown r hr)).trans hb),
    fun q hq hne => (eff.object_ne (Ne.symm hne)).trans (same q hq)⟩

theorem forM_swapInBlock_swaps (hsub : ∀ r ∈ blocks, r ∈ known) (nodup : blocks.Nodup) (use : s.InUse live)
    (settled : s.Settled p known) (hknown : ∀ q ∈ known, q ∈ live) (books : s.Books refs) (ok : s'.Harmless)
    (hrun : Prog.forM (swapInBlock p d) blocks s = some (u, s')) :
    s'.InUse live ∧ s'.Books (s'.refsOf blocks ++ refs) ∧ (∀ q ∈ live, q ∉ blocks → s'.block? q = s.block? q) ∧
      ∀ q ∈ blocks, ∀ b, s.block? q = some b → ∃ id, s'.block? q = some { b with blockId := some id } := by
  induction blocks generalizing s refs with
  | nil =>
    rw [forM_nil_iff.mp hrun]
    exact ⟨use, books, fun _ _ _ => rfl, fun q hq => absurd hq List.not_mem_nil⟩
  | cons r blocks ih =>
    obtain ⟨s₁, hr, hrun⟩ := forM_cons_iff.mp hrun
    obtain ⟨hnot, hnodup⟩ := List.nodup_cons.mp nodup
    have hr' := hsub r List.mem_cons_self
    have hlive := hknown r hr'
    obtain ⟨b, hb⟩ := use.present r hlive
    have ok₁ := ok.advances (Within.forM (fun r => swapInBlock_advances p d r) blocks _ _ _ hrun)
    obtain ⟨use₁, id, books₁, object, same₁⟩ := swapInBlock_swaps use settled hknown books hr' hb ok₁ hr
    have content (q : BlockRef) (hq : q ∈ live) : s₁.content? q = s.content? q := by
      unfold content?
      by_cases hqr : q = r
      · rw [hqr, object, hb]
        rfl
      · rw [same₁ q hq hqr]
    obtain ⟨use', books', same', objects'⟩ := ih (fun q hq => hsub q (List.mem_cons_of_mem _ hq)) hnodup use₁
      (settled.content fun q hq => content q (hknown q hq)) books₁ hrun
    have hr' : s'.block? r = some { b with blockId := some id } := (same' r hlive hnot).trans object
    refine ⟨use', ?_, fun q hq hout => ?_, fun q hq b' hb' => ?_⟩
    · rw [refsOf, List.filterMap_cons_some (refOf_eq hr' rfl)]
      exact books'.perm List.perm_middle
    · rw [List.mem_cons, not_or] at hout
      exact (same' q hq hout.2).trans (same₁ q hq hout.1)
    · rcases List.mem_cons.mp hq with rfl | hq
      · obtain rfl := Option.some.inj (hb.symm.trans hb')
        exact ⟨id, hr'⟩
      · refine objects' q hq b' ((same₁ q (hknown q (hsub q (List.mem_cons_of_mem _ hq))) ?_).trans hb')
        exact fun hqr => hnot (hqr ▸ hq)

theorem getBlock_reads (r : BlockRef) : Within Eq (getBlock r) := .bind .read fun _ => .ofOption _

theorem blockIds_reads (blocks : List BlockRef) : Within Eq (BlockM.blockIds blocks) :=
  .mapM (fun r => .bind (getBlock_reads r) fun _ => .pure _) blocks

/-- The number of blocks that a swap needs is found without a change. -/
theorem getNumFullBlocksTouched_reads {k : Nat} (chained : s.Chained p full) (hsub : ∀ r ∈ blocks, r ∈ full)
    (hrun : getNumFullBlocksTouched p blocks d s = some (k, s')) : s' = s := by
  refine (foldlM_invariant (fun _ rest s' => s' = s ∧ ∀ r ∈ rest, r ∈ full) ?_ hrun ⟨rfl, hsub⟩).1
  rintro n r rest s₁ n' s₂ ⟨rfl, hrest⟩ hr
  refine ⟨?_, fun q hq => hrest q (List.mem_cons_of_mem _ hq)⟩
  obtain ⟨b, hb, hheld, -⟩ := chained r (hrest r List.mem_cons_self)
  rw [bind_eq (getBlock_iff.mpr ⟨hb, rfl⟩)] at hr
  split at hr
  · exact (pure_iff.mp hr).2
  · obtain ⟨o, s₃, ho, hr⟩ := bind_iff.mp hr
    rw [(contentHash_remembers hb hheld ho).2] at hr
    obtain ⟨h, _, ho, hr⟩ := bind_iff.mp hr
    rw [(ofOption_iff.mp ho).2, self_bind] at hr
    cases hc : (s₁.on d).cachedBlocks.get? h with
    | none =>
      rw [hc] at hr
      exact (pure_iff.mp hr).2
    | some id =>
      rw [hc] at hr
      exact (pure_iff.mp hr).2

theorem getNumFullBlocksTouched_advances : Within Advances (getNumFullBlocksTouched p blocks d) := by
  refine .foldlM (fun n r => .bind (getBlock_advances r) fun b => .ite (.pure _) ?_) 0 blocks
  refine .bind (contentHash_advances p r) fun _ => .bind (.ofOption _) fun h => .bind (self_advances d) fun a => ?_
  cases a.cachedBlocks.get? h with
  | none => exact .pure _
  | some id => exact .pure _

/-- The listed objects get blocks of the other device. -/
theorem swap_swaps {src dst : Device} {mapping : Dict BlockId BlockId} (hsub : ∀ r ∈ blocks, r ∈ known)
    (nodup : blocks.Nodup) (use : s.InUse live) (settled : s.Settled p known) (hknown : ∀ q ∈ known, q ∈ live)
    (books : s.Books (s.refsOf blocks ++ refs)) (ok : s'.Harmless) (hrun : swap p blocks src dst s = some (mapping, s')) :
    s'.InUse live ∧ s'.Books (s'.refsOf blocks ++ refs) ∧ (∀ q ∈ live, q ∉ blocks → s'.block? q = s.block? q) ∧
      ∀ q ∈ blocks, ∀ b, s.block? q = some b → ∃ id, s'.block? q = some { b with blockId := some id } := by
  obtain ⟨srcs, _, hids, hrun⟩ := bind_iff.mp hrun
  rw [← blockIds_reads blocks _ _ _ hids] at hrun
  obtain ⟨_, s₁, hout, hrun⟩ := bind_iff.mp hrun
  obtain ⟨_, s₂, hin, hrun⟩ := bind_iff.mp hrun
  obtain ⟨dsts, _, hids, hrun⟩ := bind_iff.mp hrun
  rw [← blockIds_reads blocks _ _ _ hids] at hrun
  rw [(pure_iff.mp hrun).2] at ok ⊢
  obtain ⟨use₁, books₁, objects⟩ := forM_freeBlockId_releases nodup (fun r hr => settled.remembers (hsub r hr)) books hout
  have content (q : BlockRef) : s₁.content? q = s.content? q := by
    unfold content?
    rw [objects, Option.map_map]
    refine congrArg (fun f => Option.map f (s.block? q)) (funext fun b => ?_)
    show (if q ∈ blocks then dropId b else b).content = b.content
    split <;> rfl
  obtain ⟨use₂, books₂, same₂, objects₂⟩ := forM_swapInBlock_swaps hsub nodup (use₁ use)
    (settled.content fun q _ => content q) hknown books₁ ok hin
  refine ⟨use₂, books₂, fun q hq hout => ?_, fun q hq b hb => ?_⟩
  · rw [same₂ q hq hout, objects, funext fun b => if_neg hout, Option.map_id']
  · exact objects₂ q hq (dropId b) (by rw [objects, hb, Option.map_some, if_pos hq])

theorem swap_advances {src dst : Device} : Within Advances (swap p blocks src dst) := by
  have ids : Within Advances (BlockM.blockIds blocks) := .mapM (fun r => .bind (getBlock_advances r) fun _ => .pure _) blocks
  exact .bind ids fun _ => .bind (.forM (fun r => freeBlockId_advances p src r) blocks) fun _ =>
    .bind (.forM (fun r => swapInBlock_advances p dst r) blocks) fun _ => .bind ids fun _ => .pure _

end BlockM

end CoreFlow
