import CoreFlow.Block.Effects

/-!
# The objects of a table

`content_hash` remembers what it finds. An object `Remembers` when the hash that it holds is the one that
follows from its tokens and from the hash that its previous block holds; asking it for its hash then changes
nothing. The methods of this module take such an object, with the reference to its physical block on the
books, to such an object.
-/

namespace CoreFlow
open Prog

namespace CpuGpuBlockAllocator

/-- The hash that the previous block holds. -/
def heldPrevHash (s : CpuGpuBlockAllocator) (b : Block) : Option PrefixHash :=
  match b.prevBlock with
  | none => some noneHash
  | some q => (s.block? q).bind (·.cachedContentHash)

/-- The hash that follows from it. -/
def derivedHash (p : BlockParams) (s : CpuGpuBlockAllocator) (b : Block) : Option PrefixHash :=
  if b.isFull p = false then none
  else if s.heldPrevHash b = some noneHash ∧ b.prevBlock.isNone = false then none
  else some (hashBlockTokens p b.prevBlock.isNone (s.heldPrevHash b) b.tokenIds)

def Remembers (p : BlockParams) (s : CpuGpuBlockAllocator) (r : BlockRef) : Prop :=
  ∃ b, s.block? r = some b ∧ b.cachedContentHash = s.derivedHash p b

section
variable {p : BlockParams} {s s' : CpuGpuBlockAllocator} {r : BlockRef} {b b' : Block} {g : Block → Block}

theorem derivedHash_congr (hprev : b'.prevBlock = b.prevBlock) (htokens : b'.tokenIds = b.tokenIds)
    (hheld : s'.heldPrevHash b = s.heldPrevHash b) : s'.derivedHash p b' = s.derivedHash p b := by
  have hheld' : s'.heldPrevHash b' = s.heldPrevHash b := by
    rw [← hheld]
    unfold heldPrevHash
    rw [hprev]
  unfold derivedHash Block.isFull
  rw [hheld', hprev, htokens]

/-- A change of another object than the previous one. -/
theorem heldPrevHash_quiet (h : Quiet r g s s') (hne : ∀ q, b.prevBlock = some q → r ≠ q) :
    s'.heldPrevHash b = s.heldPrevHash b := by
  unfold heldPrevHash
  cases hprev : b.prevBlock with
  | none => rfl
  | some q =>
    dsimp only
    rw [h.object_ne (hne q hprev)]

/-- A change that leaves the hash of the object. -/
theorem heldPrevHash_same (h : Quiet r g s s') (hg : ∀ b, (g b).cachedContentHash = b.cachedContentHash) :
    s'.heldPrevHash b = s.heldPrevHash b := by
  unfold heldPrevHash
  cases b.prevBlock with
  | none => rfl
  | some q =>
    dsimp only
    rw [h.objects q]
    split
    · cases s.block? q with
      | none => rfl
      | some b => exact hg b
    · rfl

theorem Remembers.quiet {q : BlockRef} (hq : s.Remembers p q) (h : Quiet r g s s')
    (hg : ∀ b, (g b).cachedContentHash = b.cachedContentHash) (hne : r ≠ q) : s'.Remembers p q := by
  obtain ⟨b, hb, hr⟩ := hq
  refine ⟨b, (h.object_ne hne).trans hb, ?_⟩
  rw [hr]
  exact (derivedHash_congr rfl rfl (heldPrevHash_same h hg)).symm

end

end CpuGpuBlockAllocator

namespace BlockM
open CpuGpuBlockAllocator
variable {p : BlockParams} {d : Device} {r : BlockRef} {s s' : CpuGpuBlockAllocator} {blockId blockId' : BlockId} {n : Nat} {u : Unit}
  {b : Block} {refs : List Ref} {h : PrefixHash} {o : Option PrefixHash}

/-! ## Content hashes -/

theorem contentHashAux_held (hb : s.block? r = some b) (hh : b.cachedContentHash = some h)
    (hrun : contentHashAux p n r s = some (o, s')) : o = some h ∧ s' = s := by
  cases n with
  | zero => exact (raise_iff.mp hrun).elim
  | succ n =>
    rw [contentHashAux, bind_eq (getBlock_iff.mpr ⟨hb, rfl⟩), hh] at hrun
    exact pure_iff.mp hrun

/-- A hash that is remembered is not computed again. -/
theorem contentHashAux_remembers (hb : s.block? r = some b) (hr : b.cachedContentHash = s.derivedHash p b)
    (hrun : contentHashAux p n r s = some (o, s')) : o = b.cachedContentHash ∧ s' = s := by
  cases hh : b.cachedContentHash with
  | some h => exact contentHashAux_held hb hh hrun
  | none =>
    cases n with
    | zero => exact (raise_iff.mp hrun).elim
    | succ n =>
      rw [contentHashAux, bind_eq (getBlock_iff.mpr ⟨hb, rfl⟩), hh] at hrun
      rw [hh] at hr
      dsimp only at hrun
      unfold derivedHash at hr
      by_cases hfull : b.isFull p = false
      · rw [if_pos hfull] at hrun
        exact pure_iff.mp hrun
      · rw [if_neg hfull] at hrun hr
        split at hr
        · rename_i hnone
          obtain ⟨hheld, hfirst⟩ := hnone
          unfold heldPrevHash at hheld
          cases hprev : b.prevBlock with
          | none =>
            rw [hprev] at hfirst
            cases hfirst
          | some q =>
            rw [hprev] at hheld hrun
            obtain ⟨pb, hpb, hheld⟩ := Option.bind_eq_some_iff.mp hheld
            obtain ⟨o', s₁, hq, hrun⟩ := bind_iff.mp hrun
            obtain ⟨rfl, hs⟩ := contentHashAux_held hpb hheld hq
            rw [hs, if_pos ⟨rfl, rfl⟩] at hrun
            exact pure_iff.mp hrun
        · cases hr

/-- A hash that is not remembered is derived from the one that the previous block remembers. -/
theorem contentHashAux_derives (hb : s.block? r = some b) (hh : b.cachedContentHash = none)
    (hprev : ∀ q, b.prevBlock = some q → s.Remembers p q) (hrun : contentHashAux p n r s = some (o, s')) (d : Device) :
    o = s.derivedHash p b ∧ Effect d id r (fun b => { b with cachedContentHash := o }) s s' := by
  cases n with
  | zero => exact (raise_iff.mp hrun).elim
  | succ n =>
    have hfixed : ({ b with cachedContentHash := none } : Block) = b := by
      rw [← hh]
    rw [contentHashAux, bind_eq (getBlock_iff.mpr ⟨hb, rfl⟩), hh] at hrun
    dsimp only at hrun
    unfold derivedHash
    by_cases hfull : b.isFull p = false
    · rw [if_pos hfull] at hrun ⊢
      obtain ⟨rfl, rfl⟩ := pure_iff.mp hrun
      exact ⟨rfl, Effect.of_fixed (g := fun b => { b with cachedContentHash := none }) hb hfixed d⟩
    · rw [if_neg hfull] at hrun ⊢
      obtain ⟨prev, s₁, hq, hrun⟩ := bind_iff.mp hrun
      have hheld : prev = s.heldPrevHash b ∧ s₁ = s := by
        unfold heldPrevHash
        cases hp : b.prevBlock with
        | none =>
          rw [hp] at hq
          exact pure_iff.mp hq
        | some q =>
          rw [hp] at hq
          obtain ⟨pb, hpb, hr⟩ := hprev q hp
          obtain ⟨rfl, hs⟩ := contentHashAux_remembers hpb hr hq
          dsimp only
          rw [hpb]
          exact ⟨rfl, hs⟩
      rw [hheld.2, hheld.1] at hrun
      split at hrun
      · rename_i hnone
        rw [if_pos hnone]
        obtain ⟨rfl, rfl⟩ := pure_iff.mp hrun
        exact ⟨rfl, Effect.of_fixed (g := fun b => { b with cachedContentHash := none }) hb hfixed d⟩
      · rename_i hsome
        rw [if_neg hsome]
        obtain ⟨_, s₂, hset, hrun⟩ := bind_iff.mp hrun
        obtain ⟨rfl, rfl⟩ := pure_iff.mp hrun
        exact ⟨rfl, modifyBlock_run hset d⟩

theorem contentHash_remembers (hb : s.block? r = some b) (hr : b.cachedContentHash = s.derivedHash p b)
    (hrun : contentHash p r s = some (o, s')) : o = b.cachedContentHash ∧ s' = s := by
  rw [contentHash, read_bind] at hrun
  exact contentHashAux_remembers hb hr hrun

theorem contentHash_held (hb : s.block? r = some b) (hh : b.cachedContentHash = some h)
    (hrun : contentHash p r s = some (o, s')) : o = some h ∧ s' = s := by
  rw [contentHash, read_bind] at hrun
  exact contentHashAux_held hb hh hrun

theorem contentHash_derives (hb : s.block? r = some b) (hh : b.cachedContentHash = none)
    (hprev : ∀ q, b.prevBlock = some q → s.Remembers p q) (hrun : contentHash p r s = some (o, s')) (d : Device) :
    o = s.derivedHash p b ∧ Effect d id r (fun b => { b with cachedContentHash := o }) s s' := by
  rw [contentHash, read_bind] at hrun
  exact contentHashAux_derives hb hh hprev hrun d

/-! ## Giving up a reference -/

theorem decrRefcountCachedBlock_books (hb : s.block? r = some b) (hid : b.blockId = some blockId)
    (hh : b.cachedContentHash = some h) (books : s.Books ((blockId, some h) :: refs))
    (hrun : decrRefcountCachedBlock p d r s = some (u, s')) :
    Quiet r (fun b => { b with blockId := none }) s s' ∧ s'.Books refs ∧ blockId ∈ (s.on d).allBlockIndices := by
  unfold decrRefcountCachedBlock at hrun
  obtain ⟨o, _, hhash, hrun⟩ := bind_iff.mp hrun
  obtain ⟨rfl, hs⟩ := contentHash_held hb hh hhash
  rw [hs, bind_eq (ofOption_iff.mpr ⟨rfl, rfl⟩), bind_eq (getBlock_iff.mpr ⟨hb, rfl⟩),
    bind_eq (ofOption_iff.mpr ⟨hid, rfl⟩)] at hrun
  obtain ⟨k, s₁, hdecr, hrun⟩ := bind_iff.mp hrun
  obtain ⟨n, hn, rfl, eff₁⟩ := decr_effect hdecr r
  have hin := ((books.accounts d).numRefs_of_get? hn).1
  split at hrun
  · rename_i hpos
    have eff := eff₁.trans (modifyBlock_run hrun d) fun _ _ => rfl
    exact ⟨eff.toQuiet, books.give hin eff ((books.accounts d).releaseShared hin hn hpos), hin⟩
  · rename_i hpos
    rw [self_bind] at hrun
    obtain ⟨_, _, hreq, hrun⟩ := bind_iff.mp hrun
    rw [(require_iff.mp hreq).2] at hrun
    obtain ⟨t, _, ht, hrun⟩ := bind_iff.mp hrun
    rw [(ofOption_iff.mp ht).2] at hrun
    obtain ⟨_, s₂, hlog, hrun⟩ := bind_iff.mp hrun
    have eff₂ := eff₁.trans (log_run hlog rfl d r) fun _ _ => rfl
    obtain ⟨_, s₃, hadd, hrun⟩ := bind_iff.mp hrun
    have eff₃ := eff₂.trans (modifySelf_effect hadd r (fun _ => rfl) fun _ => rfl) fun _ _ => rfl
    obtain ⟨_, s₄, huntrack, hrun⟩ := bind_iff.mp hrun
    obtain ⟨t', ht', eff₄⟩ := untrackBlockId_effect huntrack r
    have eff := (eff₃.trans eff₄ fun _ _ => rfl).trans (modifyBlock_run hrun d) fun _ _ => rfl
    refine ⟨eff.toQuiet, books.give hin eff ?_, hin⟩
    have acc := (books.accounts d).releaseLast (m := ⟨h, b.cachedNumTokensTotal, t.lastAccessed⟩)
      (q := ((s.on d).evictor.add blockId h b.cachedNumTokensTotal t.lastAccessed).priorityQueue) hin hn (by omega) rfl ht'
    rw [← LRUEvictor.add_freeTable] at acc
    exact acc

/-- A table object gives up its reference. -/
theorem freeBlockId_books (hb : s.block? r = some b) (hid : b.blockId = some blockId)
    (hr : b.cachedContentHash = s.derivedHash p b) (books : s.Books ((blockId, b.cachedContentHash) :: refs))
    (hrun : freeBlockId p d r s = some (u, s')) :
    Quiet r (fun b => { b with blockId := none }) s s' ∧ s'.Books refs ∧ blockId ∈ (s.on d).allBlockIndices := by
  unfold freeBlockId at hrun
  rw [bind_eq (getBlock_iff.mpr ⟨hb, rfl⟩)] at hrun
  obtain ⟨_, _, hreq, hrun⟩ := bind_iff.mp hrun
  rw [(require_iff.mp hreq).2] at hrun
  obtain ⟨o, _, hhash, hrun⟩ := bind_iff.mp hrun
  obtain ⟨rfl, hs⟩ := contentHash_remembers hb hr hhash
  rw [hs] at hrun
  obtain ⟨_, s₁, hdecr, hrun⟩ := bind_iff.mp hrun
  obtain ⟨_, _, hget, hrun⟩ := bind_iff.mp hrun
  rw [(getBlock_iff.mp hget).2] at hrun
  rw [(require_iff.mp hrun).2]
  cases hh : b.cachedContentHash with
  | some h =>
    rw [hh] at hdecr books
    exact decrRefcountCachedBlock_books hb hid hh books hdecr
  | none =>
    rw [hh] at hdecr books
    obtain ⟨quiet, books', hin, -⟩ := decrRefcountHashlessBlock_books hb hid books hdecr
    exact ⟨quiet, books', hin⟩

/-! ## Tokens -/

theorem updateNumTokensTotal_effect (hrun : updateNumTokensTotal r s = some (u, s')) (d : Device) :
    ∃ n, Effect d id r (fun b => { b with cachedNumTokensTotal := n + b.tokenIds.length }) s s' := by
  obtain ⟨b, _, hget, hrun⟩ := bind_iff.mp hrun
  rw [(getBlock_iff.mp hget).2] at hrun
  obtain ⟨n, s₁, hprev, hrun⟩ := bind_iff.mp hrun
  have hs : s₁ = s := by
    cases hp : b.prevBlock with
    | none =>
      rw [hp] at hprev
      exact (pure_iff.mp hprev).2
    | some q =>
      rw [hp] at hprev
      obtain ⟨pb, _, hget, hprev⟩ := bind_iff.mp hprev
      rw [(getBlock_iff.mp hget).2] at hprev
      exact (pure_iff.mp hprev).2
  rw [hs] at hrun
  exact ⟨n, modifyBlock_run hrun d⟩

/-- A block that became full is cached under its hash, or given up for the one that is. -/
theorem promoteToImmutableBlock_books (hb : s.block? r = some b) (hid : b.blockId = some blockId)
    (hh : b.cachedContentHash = some h) (books : s.Books ((blockId, none) :: refs))
    (hrun : promoteToImmutableBlock p d r s = some (blockId', s')) :
    ∃ g : Block → Block, Quiet r g s s' ∧ (∀ b, (g b).content = b.content) ∧ s'.Books ((blockId', some h) :: refs) ∧
      blockId' ∈ (s.on d).allBlockIndices := by
  unfold promoteToImmutableBlock at hrun
  obtain ⟨o, _, hhash, hrun⟩ := bind_iff.mp hrun
  obtain ⟨rfl, hs⟩ := contentHash_held hb hh hhash
  rw [hs, bind_eq (ofOption_iff.mpr ⟨rfl, rfl⟩), bind_eq (getBlock_iff.mpr ⟨hb, rfl⟩),
    bind_eq (ofOption_iff.mpr ⟨hid, rfl⟩)] at hrun
  obtain ⟨n, _, hn, hrun⟩ := bind_iff.mp hrun
  obtain ⟨hn, hs⟩ := refcount_iff.mp hn
  rw [hs] at hrun
  have hin := ((books.accounts d).numRefs_of_get? hn).1
  obtain ⟨_, _, hreq, hrun⟩ := bind_iff.mp hrun
  rw [(require_iff.mp hreq).2, self_bind] at hrun
  cases hget : (s.on d).cachedBlocks.get? h with
  | none =>
    rw [hget] at hrun
    obtain ⟨_, s₁, hset, hrun⟩ := bind_iff.mp hrun
    obtain ⟨rfl, rfl⟩ := pure_iff.mp hrun
    have eff := modifySelf_effect hset r (fun _ => rfl) fun _ => rfl
    refine ⟨id, eff.toQuiet, fun _ => rfl, books.effect eff ?_ fun e he => ?_, hin⟩
    · exact ((books.accounts d).promote hin hget).congr ⟨rfl, rfl, rfl, rfl, fun _ => rfl, fun _ => rfl⟩
    · have hne := books.not_mem (x := (blockId', none)) hin he
      exact (PrefixCachingBlockAllocator.Accounts.other (x := (blockId', some h)) hne).mpr
        ((PrefixCachingBlockAllocator.Accounts.other hne).mp (books.accounts e))
  | some cachedId =>
    rw [hget] at hrun
    obtain ⟨_, s₁, hlog, hrun⟩ := bind_iff.mp hrun
    have eff₁ := log_run hlog rfl d r
    obtain ⟨_, s₂, hdecr, hrun⟩ := bind_iff.mp hrun
    obtain ⟨quiet₂, books₂, -, hcached⟩ := decrRefcountHashlessBlock_books (eff₁.object hb) hid (books.quiet eff₁) hdecr
    obtain ⟨_, s₃, hset, hrun⟩ := bind_iff.mp hrun
    have eff₃ := modifyBlock_run hset d
    obtain ⟨_, s₄, hincr, hrun⟩ := bind_iff.mp hrun
    obtain ⟨rfl, rfl⟩ := pure_iff.mp hrun
    have hget' : (s₃.on d).cachedBlocks.get? h = some blockId' := by
      have h₁ : (s₁.on d).cachedBlocks = (s.on d).cachedBlocks := congrArg (·.cachedBlocks) eff₁.on_self
      have h₃ : (s₃.on d).cachedBlocks = (s₂.on d).cachedBlocks := congrArg (·.cachedBlocks) eff₃.on_self
      rw [h₃, hcached, h₁]
      exact hget
    have quiet₃ := (eff₁.toQuiet.trans quiet₂).trans eff₃.toQuiet
    obtain ⟨quiet₄, books₄⟩ := incrRefcountCachedBlock_books (quiet₃.object hb) rfl hget' (books₂.quiet eff₃) hincr
    exact ⟨_, quiet₃.trans quiet₄, fun _ => rfl, books₄, (books.accounts d).cachedHere h blockId' hget⟩

/-- The block of the only holder is appended to in place. -/
theorem cowBlockIfNotAppendable_sole (hb : s.block? r = some b) (hid : b.blockId = some blockId)
    (books : s.Books ((blockId, none) :: refs)) (hrun : cowBlockIfNotAppendable p d r s = some (blockId', s')) :
    blockId' = blockId ∧ s' = s := by
  unfold cowBlockIfNotAppendable at hrun
  rw [bind_eq (getBlock_iff.mpr ⟨hb, rfl⟩), bind_eq (ofOption_iff.mpr ⟨hid, rfl⟩)] at hrun
  obtain ⟨n, _, hn, hrun⟩ := bind_iff.mp hrun
  obtain ⟨hn, hs⟩ := refcount_iff.mp hn
  obtain ⟨hin, hcount⟩ := (books.accounts d).numRefs_of_get? hn
  rw [hs, if_pos (hcount.trans ((books.accounts d).mutable blockId List.mem_cons_self hin).1).le] at hrun
  exact pure_iff.mp hrun

/-- Tokens are appended to a table object. -/
theorem appendTokenIds_books {tokenIds : List TokenId} (hb : s.block? r = some b) (hid : b.blockId = some blockId)
    (hr : b.cachedContentHash = s.derivedHash p b) (hprev : ∀ q, b.prevBlock = some q → r ≠ q ∧ s.Remembers p q)
    (books : s.Books ((blockId, b.cachedContentHash) :: refs)) (hrun : appendTokenIds p r tokenIds s = some (u, s')) :
    ∃ b' blockId', Quiet r (fun _ => b') s s' ∧ b'.content = (b.prevBlock, b.tokenIds ++ tokenIds, s.derivedHash p b') ∧
      b'.blockId = some blockId' ∧ s'.Books ((blockId', b'.cachedContentHash) :: refs) ∧
      (tokenIds ≠ [] → b.isFull p = false) ∧
        (blockId ∈ (s.on r.device).allBlockIndices → blockId' ∈ (s.on r.device).allBlockIndices) := by
  unfold appendTokenIds at hrun
  obtain ⟨o, _, hhash, hrun⟩ := bind_iff.mp hrun
  obtain ⟨rfl, hs⟩ := contentHash_remembers hb hr hhash
  rw [hs] at hrun
  obtain ⟨_, _, hreq, hrun⟩ := bind_iff.mp hrun
  obtain ⟨hh, hs⟩ := require_iff.mp hreq
  rw [hs, bind_eq (getBlock_iff.mpr ⟨hb, rfl⟩)] at hrun
  obtain ⟨_, _, hreq, hrun⟩ := bind_iff.mp hrun
  rw [(require_iff.mp hreq).2] at hrun
  by_cases hnil : tokenIds = []
  · rw [if_pos hnil] at hrun
    rw [(pure_iff.mp hrun).2]
    refine ⟨b, blockId, Quiet.of_fixed hb rfl, ?_, hid, books, fun hne => absurd hnil hne, fun hin => hin⟩
    rw [hnil, List.append_nil, ← hr]
    rfl
  · rw [if_neg hnil] at hrun
    rw [hh] at books
    obtain ⟨_, _, hreq, hrun⟩ := bind_iff.mp hrun
    obtain ⟨hroom, hs⟩ := require_iff.mp hreq
    rw [hs] at hrun
    obtain ⟨_, s₁, hset, hrun⟩ := bind_iff.mp hrun
    have eff₁ := modifyBlock_run hset r.device
    obtain ⟨_, s₂, hcow, hrun⟩ := bind_iff.mp hrun
    rw [when_pos (by rw [hid]; exact Option.some_ne_none _)] at hcow
    obtain ⟨id', _, hsole, hcow⟩ := bind_iff.mp hcow
    obtain ⟨rfl, hs⟩ := cowBlockIfNotAppendable_sole (eff₁.object hb) hid (books.quiet eff₁) hsole
    rw [hs] at hcow
    have eff₂ := eff₁.trans (modifyBlock_run hcow r.device) fun _ _ => rfl
    obtain ⟨_, s₃, htotal, hrun⟩ := bind_iff.mp hrun
    obtain ⟨n, eff₃⟩ := updateNumTokensTotal_effect htotal r.device
    have eff₃ := eff₂.trans eff₃ fun _ _ => rfl
    obtain ⟨o, s₄, hhash, hrun⟩ := bind_iff.mp hrun
    have hfull : b.isFull p = false := by
      unfold Block.isFull
      have := List.length_pos_of_ne_nil hnil
      rw [beq_eq_false_iff_ne]
      omega
    obtain ⟨ho, eff₄⟩ := contentHash_derives (eff₃.object hb) hh
      (fun q hq => (hprev q hq).2.quiet eff₃.toQuiet (fun _ => rfl) (hprev q hq).1) hhash r.device
    have eff₄ := eff₃.trans eff₄ fun _ _ => rfl
    have hderived : o = s.derivedHash p { b with tokenIds := b.tokenIds ++ tokenIds } :=
      ho.trans (derivedHash_congr rfl rfl (heldPrevHash_same eff₃.toQuiet fun _ => rfl))
    cases o with
    | none =>
      rw [(pure_iff.mp hrun).2]
      refine ⟨_, id', eff₄.toQuiet.const hb, ?_, rfl, books.quiet eff₄, fun _ => hfull, fun hin => hin⟩
      exact congrArg (fun o => (b.prevBlock, b.tokenIds ++ tokenIds, o)) hderived
    | some h =>
      obtain ⟨id'', s₅, hpromote, hrun⟩ := bind_iff.mp hrun
      obtain ⟨g, quiet₅, hg, books₅, hin₅⟩ := promoteToImmutableBlock_books (eff₄.object hb) rfl rfl (books.quiet eff₄) hpromote
      have eff₆ := modifyBlock_run hrun r.device
      refine ⟨_, id'', ((eff₄.toQuiet.trans quiet₅).trans eff₆.toQuiet).const hb, ?_, rfl, ?_, fun _ => hfull, fun _ => ?_⟩
      · refine (hg _).trans ?_
        show (b.prevBlock, b.tokenIds ++ tokenIds, some h) = _
        rw [hderived]
        exact congrArg (fun o => (b.prevBlock, b.tokenIds ++ tokenIds, o))
          (derivedHash_congr (congrArg (·.1) (hg _)) (congrArg (·.2.1) (hg _)) rfl).symm
      · refine (congrArg (fun o => s'.Books ((id'', o) :: refs)) (congrArg (·.2.2) (hg _))).mpr ?_
        exact books₅.quiet eff₆
      · rw [← eff₄.all]
        exact hin₅

end BlockM

end CoreFlow
