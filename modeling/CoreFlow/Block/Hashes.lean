import CoreFlow.Block.Contents

/-!
# The content hashes of a block table

A table holds a token list when its objects are linked in order, hold the slices of the list, and
remember no hash or the hash of the chain. Allocating and appending keep this, and then `content_hash`
of a full block is the hash of the chain.
-/

namespace CoreFlow
open Prog

/-- The block before block `i`. -/
def prevRef (blocks : List BlockRef) : Nat → Option BlockRef
  | 0 => none
  | i + 1 => blocks[i]?

/-- The blocks hold the slices of the token list. -/
structure Holds (p : BlockParams) (s : CpuGpuBlockAllocator) (blocks : List BlockRef) (tokenIds : List TokenId) :
    Prop where
  sound : s.PoolSound blocks
  fits : tokenIds.length ≤ blocks.length * p.blockSize
  blockAt : ∀ i r, blocks[i]? = some r → ∃ cached, s.content? r = some (prevRef blocks i, slice p tokenIds i, cached) ∧
    ∀ h, cached = some h → i < numFullBlocks p tokenIds ∧ h = hashAt p tokenIds i

section
variable {p : BlockParams} {s s' : CpuGpuBlockAllocator} {blocks : List BlockRef} {tokenIds : List TokenId}
  {i n : Nat} {r : BlockRef} {u : Unit} {d : Device}
open CpuGpuBlockAllocator

theorem Holds.keeps (h : Holds p s blocks tokenIds) (k : Keeps blocks s s') : Holds p s' blocks tokenIds := by
  obtain ⟨sound, same⟩ := k h.sound
  refine ⟨sound, h.fits, fun i r hr => ?_⟩
  rw [same r (List.mem_of_getElem? hr)]
  exact h.blockAt i r hr

theorem Holds.within {α : Type} {m : BlockM α} {a : α} (h : Holds p s blocks tokenIds) (k : Within (Keeps blocks) m)
    (hm : m s = some (a, s')) : Holds p s' blocks tokenIds := h.keeps (k s a s' hm)

/-- Blocks of one table are different objects. -/
theorem Holds.index_inj (h : Holds p s blocks tokenIds) {j : Nat} (hi : blocks[i]? = some r) (hj : blocks[j]? = some r) :
    i = j := by
  obtain ⟨hlt, hri⟩ := List.getElem?_eq_some_iff.mp hi
  obtain ⟨hlt', hrj⟩ := List.getElem?_eq_some_iff.mp hj
  exact (h.sound.liveNodup.getElem_inj_iff).mp (hri.trans hrj.symm)

/-- Remembering the hash of the chain. -/
theorem Holds.remember (h : Holds p s blocks tokenIds) (hr : blocks[i]? = some r) (hfull : i < numFullBlocks p tokenIds) :
    Holds p (s.modifyBlock r fun b => { b with cachedContentHash := some (hashAt p tokenIds i) }) blocks tokenIds := by
  refine ⟨modifyBlock_poolSound h.sound r _, h.fits, fun j q hq => ?_⟩
  obtain ⟨cached, hc, valid⟩ := h.blockAt j q hq
  by_cases hrq : r = q
  · subst hrq
    obtain rfl := h.index_inj hr hq
    obtain ⟨b, hb, hprev, htokens, -⟩ := content?_eq_some.mp hc
    refine ⟨some (hashAt p tokenIds i), content?_eq_some.mpr
      ⟨{ b with cachedContentHash := some (hashAt p tokenIds i) }, ?_, hprev, htokens, rfl⟩,
      fun h' he => ⟨hfull, (Option.some.inj he).symm⟩⟩
    rw [block?_modifyBlock, if_pos rfl, hb]
    rfl
  · rw [content?_modifyBlock_ne _ hrq]
    exact ⟨cached, hc, valid⟩

namespace BlockM

theorem contentHashAux_spec (hsha : ∀ first prev ts, p.sha first prev ts ≠ noneHash) {o : Option PrefixHash}
    (h : Holds p s blocks tokenIds) (hr : blocks[i]? = some r) (hrun : contentHashAux p n r s = some (o, s')) :
    Holds p s' blocks tokenIds ∧ o = if i < numFullBlocks p tokenIds then some (hashAt p tokenIds i) else none := by
  induction n generalizing i r s o s' with
  | zero => exact (raise_iff.mp hrun).elim
  | succ n ih =>
    obtain ⟨cached, hc, valid⟩ := h.blockAt i r hr
    obtain ⟨b, hb, hprev, htokens, hcached⟩ := content?_eq_some.mp hc
    obtain ⟨_, _, hget, hrun⟩ := bind_iff.mp hrun
    obtain ⟨hget, rfl⟩ := getBlock_iff.mp hget
    obtain rfl := Option.some.inj (hb.symm.trans hget)
    dsimp only at hrun
    rw [hcached] at hrun
    cases cached with
    | some hash =>
      obtain ⟨rfl, rfl⟩ := pure_iff.mp hrun
      obtain ⟨hfull, rfl⟩ := valid hash rfl
      exact ⟨h, (if_pos hfull).symm⟩
    | none =>
      dsimp only at hrun
      have hfull : b.isFull p = decide (i < numFullBlocks p tokenIds) := by
        rw [Block.isFull, htokens, beq_eq_decide]
        exact decide_eq_decide.mpr (length_slice_eq.trans lt_numFullBlocks.symm)
      rw [hfull] at hrun
      by_cases hi : i < numFullBlocks p tokenIds
      · rw [decide_eq_true hi, if_neg (by decide)] at hrun
        obtain ⟨prevBlockHash, s₁, hprevRun, hrun⟩ := bind_iff.mp hrun
        -- the hash of the block before
        have before : Holds p s₁ blocks tokenIds ∧ ¬ (prevBlockHash = some noneHash ∧ b.prevBlock.isNone = false) ∧
            hashBlockTokens p b.prevBlock.isNone prevBlockHash b.tokenIds = hashAt p tokenIds i := by
          rw [htokens]
          cases i with
          | zero =>
            rw [hprev] at hprevRun ⊢
            obtain ⟨rfl, rfl⟩ := pure_iff.mp hprevRun
            exact ⟨h, fun hne => Bool.noConfusion hne.2, rfl⟩
          | succ j =>
            have hj : j < blocks.length := Nat.lt_of_succ_lt (List.getElem?_eq_some_iff.mp hr).1
            have hq : prevRef blocks (j + 1) = some blocks[j] := List.getElem?_eq_getElem hj
            rw [hprev, hq] at hprevRun ⊢
            obtain ⟨h₁, rfl⟩ := ih h (List.getElem?_eq_getElem hj) hprevRun
            rw [if_pos (Nat.lt_of_succ_lt hi)]
            exact ⟨h₁, fun hne => hashAt_ne hsha j (Option.some.inj hne.1), rfl⟩
        obtain ⟨h₁, hne, hash⟩ := before
        split at hrun
        · exact absurd ‹_› hne
        · rw [hash] at hrun
          obtain ⟨_, s₂, hset, hrun⟩ := bind_iff.mp hrun
          obtain ⟨rfl, rfl⟩ := pure_iff.mp hrun
          rw [update_iff.mp hset]
          exact ⟨h₁.remember hr hi, (if_pos hi).symm⟩
      · rw [decide_eq_false hi, if_pos rfl] at hrun
        obtain ⟨rfl, rfl⟩ := pure_iff.mp hrun
        exact ⟨h, (if_neg hi).symm⟩

theorem contentHash_spec (hsha : ∀ first prev ts, p.sha first prev ts ≠ noneHash) {o : Option PrefixHash}
    (h : Holds p s blocks tokenIds) (hr : blocks[i]? = some r) (hrun : contentHash p r s = some (o, s')) :
    Holds p s' blocks tokenIds ∧ o = if i < numFullBlocks p tokenIds then some (hashAt p tokenIds i) else none := by
  rw [contentHash, read_bind] at hrun
  exact contentHashAux_spec hsha h hr hrun

theorem contentHashAux_returns (h : Holds p s blocks tokenIds) (hr : blocks[i]? = some r) (hn : i < n) :
    ∃ x, contentHashAux p n r s = some x := by
  induction n generalizing i r s with
  | zero => exact absurd hn (Nat.not_lt_zero i)
  | succ n ih =>
    obtain ⟨cached, hc, -⟩ := h.blockAt i r hr
    obtain ⟨b, hb, hprev, -, hcached⟩ := content?_eq_some.mp hc
    rw [contentHashAux, bind_eq (getBlock_iff.mpr ⟨hb, rfl⟩), hcached]
    cases cached with
    | some hash => exact ⟨_, rfl⟩
    | none =>
      dsimp only
      split
      · exact ⟨_, rfl⟩
      · rw [hprev]
        cases i with
        | zero =>
          exact ⟨_, rfl⟩
        | succ j =>
          have hj : j < blocks.length := Nat.lt_of_succ_lt (List.getElem?_eq_some_iff.mp hr).1
          obtain ⟨⟨prevBlockHash, s₁⟩, hprevRun⟩ := ih h (List.getElem?_eq_getElem hj) (Nat.lt_of_succ_lt_succ hn)
          rw [show prevRef blocks (j + 1) = some blocks[j] from List.getElem?_eq_getElem hj]
          dsimp only
          rw [bind_eq hprevRun]
          split <;> exact ⟨_, rfl⟩

theorem contentHash_returns (h : Holds p s blocks tokenIds) (hr : blocks[i]? = some r) : ∃ x, contentHash p r s = some x := by
  have hlt := (List.getElem?_eq_some_iff.mp hr).1
  have hle := h.sound.length_le
  rw [contentHash, read_bind]
  exact contentHashAux_returns h hr (by omega)

/-- Reading the hashes of the full blocks. -/
theorem mapM_contentHash (hsha : ∀ first prev ts, p.sha first prev ts ≠ noneHash) (h : Holds p s blocks tokenIds) :
    ∃ s', Prog.mapM (contentHash p) (blocks.take (numFullBlocks p tokenIds)) s =
      some ((blockHashes p tokenIds).map some, s') := by
  have hcount : numFullBlocks p tokenIds ≤ blocks.length := Nat.div_le_of_le_mul (by rw [Nat.mul_comm]; exact h.fits)
  have from_ (m : Nat) : ∀ i s, Holds p s blocks tokenIds → i + m = numFullBlocks p tokenIds →
      ∃ s', Prog.mapM (contentHash p) ((blocks.drop i).take m) s =
        some (((List.range' i m).map (hashAt p tokenIds)).map some, s') := by
    induction m with
    | zero => exact fun _ s _ _ => ⟨s, rfl⟩
    | succ m ih =>
      intro i s h hi
      have hlt : i < blocks.length := by omega
      obtain ⟨⟨o, s₁⟩, hrun⟩ := contentHash_returns h (List.getElem?_eq_getElem hlt)
      obtain ⟨h₁, rfl⟩ := contentHash_spec hsha h (List.getElem?_eq_getElem hlt) hrun
      obtain ⟨s₂, hrest⟩ := ih (i + 1) s₁ h₁ (by omega)
      rw [List.drop_eq_getElem_cons hlt, List.take_succ_cons, Prog.mapM, bind_eq hrun, bind_eq hrest,
        if_pos (by omega)]
      exact ⟨s₂, rfl⟩
  obtain ⟨s', hrun⟩ := from_ _ 0 s h (Nat.zero_add _)
  rw [List.drop_zero] at hrun
  rw [blockHashes, List.range_eq_range']
  exact ⟨s', hrun⟩

/-! ## Appending to a block -/

theorem promoteToImmutableBlock_spec (hsha : ∀ first prev ts, p.sha first prev ts ≠ noneHash) {id : BlockId}
    (h : Holds p s blocks tokenIds) (hr : blocks[i]? = some r)
    (hrun : promoteToImmutableBlock p d r s = some (id, s')) : Holds p s' blocks tokenIds := by
  obtain ⟨o, s₁, hhash, hrun⟩ := bind_iff.mp hrun
  obtain ⟨h₁, -⟩ := contentHash_spec hsha h hr hhash
  refine h₁.within ?_ hrun
  refine .bind (.ofOption _) fun hash => .bind (getBlock_keeps r) fun b => .bind (.ofOption _) fun blockId =>
    .bind (refcount_keeps d _) fun _ => .bind (.require _) fun _ => .bind (self_keeps d) fun a => ?_
  cases a.cachedBlocks.get? hash with
  | none => exact .bind (modifySelf_keeps d fun _ => rfl) fun _ => .pure _
  | some cachedId =>
    exact .bind (log_keeps _) fun _ => .bind (decrRefcountHashlessBlock_keeps d r) fun _ =>
      .bind (setBlockId_keeps r _) fun _ => .bind (incrRefcountCachedBlock_keeps d r) fun _ => .pure _

end BlockM

/-- Tokens are added to the block that is not full, the blocks after it being empty. -/
theorem Holds.extend {more : List TokenId} (h : Holds p s blocks tokenIds) (hr : blocks[i]? = some r)
    (hi : i = numFullBlocks p tokenIds) (hfit : (tokenIds ++ more).length ≤ (i + 1) * p.blockSize) :
    Holds p (s.modifyBlock r fun b => { b with tokenIds := b.tokenIds ++ more }) blocks (tokenIds ++ more) := by
  have hlt : i < blocks.length := (List.getElem?_eq_some_iff.mp hr).1
  have hlow : i * p.blockSize ≤ tokenIds.length := by
    rw [hi]
    exact Nat.div_mul_le_self ..
  refine ⟨modifyBlock_poolSound h.sound r _, le_trans hfit (Nat.mul_le_mul_right _ hlt), fun j q hq => ?_⟩
  obtain ⟨cached, hc, valid⟩ := h.blockAt j q hq
  rcases Nat.lt_trichotomy j i with hj | rfl | hj
  · -- a full block
    have hne : r ≠ q := by
      rintro rfl
      exact absurd (h.index_inj hr hq) (Nat.ne_of_gt hj)
    have hfull : (j + 1) * p.blockSize ≤ tokenIds.length := lt_numFullBlocks.mp (hi ▸ hj)
    rw [content?_modifyBlock_ne _ hne, slice_append hfull, hashAt_append hfull]
    refine ⟨cached, hc, fun hash he => ⟨lt_numFullBlocks.mpr ?_, (valid hash he).2⟩⟩
    rw [List.length_append]
    omega
  · -- the block that the tokens go to
    obtain rfl := Option.some.inj (hr.symm.trans hq)
    obtain ⟨b, hb, hprev, htokens, hcached⟩ := content?_eq_some.mp hc
    refine ⟨cached, content?_eq_some.mpr ⟨{ b with tokenIds := b.tokenIds ++ more }, ?_, hprev, ?_, hcached⟩,
      fun hash he => absurd (valid hash he).1 (hi ▸ lt_irrefl j)⟩
    · rw [block?_modifyBlock, if_pos rfl, hb]
      rfl
    · rw [slice_extend hlow hfit, ← htokens]
  · -- an empty block
    have hne : r ≠ q := by
      rintro rfl
      exact absurd (h.index_inj hr hq) (Nat.ne_of_lt hj)
    have hempty : (tokenIds ++ more).length ≤ j * p.blockSize := le_trans hfit (Nat.mul_le_mul_right _ hj)
    have hempty' : tokenIds.length ≤ j * p.blockSize := by
      rw [List.length_append] at hempty
      omega
    rw [content?_modifyBlock_ne _ hne, slice_eq_nil hempty, ← slice_eq_nil hempty']
    refine ⟨cached, hc, fun hash he => absurd (valid hash he).1 ?_⟩
    omega

namespace BlockM

/-- `append_token_ids` of a block adds the tokens to the list that its table holds. -/
theorem appendTokenIds_spec (hsha : ∀ first prev ts, p.sha first prev ts ≠ noneHash) {more : List TokenId}
    (h : Holds p s blocks tokenIds) (hr : blocks[i]? = some r) (hi : i = numFullBlocks p tokenIds)
    (hrun : appendTokenIds p r more s = some (u, s')) : Holds p s' blocks (tokenIds ++ more) := by
  obtain ⟨o, s₁, hhash, hrun⟩ := bind_iff.mp hrun
  obtain ⟨h₁, -⟩ := contentHash_spec hsha h hr hhash
  obtain ⟨_, _, hreq, hrun⟩ := bind_iff.mp hrun
  rw [(require_iff.mp hreq).2] at hrun
  obtain ⟨b, _, hget, hrun⟩ := bind_iff.mp hrun
  obtain ⟨hb, hget⟩ := getBlock_iff.mp hget
  rw [hget] at hrun
  obtain ⟨_, _, hreq, hrun⟩ := bind_iff.mp hrun
  rw [(require_iff.mp hreq).2] at hrun
  split at hrun
  · rename_i hnil
    rw [(pure_iff.mp hrun).2, hnil, List.append_nil]
    exact h₁
  · obtain ⟨_, _, hreq, hrun⟩ := bind_iff.mp hrun
    obtain ⟨hroom, hreq⟩ := require_iff.mp hreq
    rw [hreq] at hrun
    obtain ⟨_, s₂, hset, hrun⟩ := bind_iff.mp hrun
    have hfit : (tokenIds ++ more).length ≤ (i + 1) * p.blockSize := by
      obtain ⟨cached, hc, -⟩ := h₁.blockAt i r hr
      obtain ⟨b', hb', -, htokens, -⟩ := content?_eq_some.mp hc
      obtain rfl := Option.some.inj (hb.symm.trans hb')
      have hlow : i * p.blockSize ≤ tokenIds.length := by
        rw [hi]
        exact Nat.div_mul_le_self ..
      have hnot : ¬ (i + 1) * p.blockSize ≤ tokenIds.length := lt_numFullBlocks.not.mp (hi ▸ lt_irrefl i)
      rw [htokens, length_slice] at hroom
      rw [Nat.add_mul, Nat.one_mul] at hnot ⊢
      rw [List.length_append]
      omega
    have h₂ : Holds p s₂ blocks (tokenIds ++ more) := by
      rw [update_iff.mp hset]
      exact h₁.extend hr hi hfit
    obtain ⟨_, s₃, hcow, hrun⟩ := bind_iff.mp hrun
    have h₃ : Holds p s₃ blocks (tokenIds ++ more) := h₂.within
      (.when <| .bind (cowBlockIfNotAppendable_keeps p r.device r) fun _ => setBlockId_keeps r _) hcow
    obtain ⟨_, s₄, htotal, hrun⟩ := bind_iff.mp hrun
    have h₄ := h₃.within (updateNumTokensTotal_keeps r) htotal
    obtain ⟨o, s₅, hhash, hrun⟩ := bind_iff.mp hrun
    obtain ⟨h₅, -⟩ := contentHash_spec hsha h₄ hr hhash
    cases o with
    | none =>
      rw [(pure_iff.mp hrun).2]
      exact h₅
    | some hash =>
      obtain ⟨id, s₆, hpromote, hrun⟩ := bind_iff.mp hrun
      exact (promoteToImmutableBlock_spec hsha h₅ hr hpromote).within (setBlockId_keeps r _) hrun

end BlockM

/-! ## New blocks -/

theorem prevRef_append (hi : i ≤ blocks.length) (more : List BlockRef) : prevRef (blocks ++ more) i = prevRef blocks i := by
  cases i with
  | zero => rfl
  | succ i => exact List.getElem?_append_left hi

theorem prevRef_length (blocks : List BlockRef) : prevRef blocks blocks.length = blocks.getLast? := by
  rcases List.eq_nil_or_concat blocks with rfl | ⟨init, last, rfl⟩
  · rfl
  · simp [prevRef]

/-- The slices and hashes of full blocks do not depend on what follows. -/
theorem Holds.blockAt_append {chunk : List TokenId} {j : Nat} {q : BlockRef} (h : Holds p s blocks tokenIds)
    (hq : blocks[j]? = some q) (hchunk : chunk = [] ∨ tokenIds.length = blocks.length * p.blockSize) :
    ∃ cached, s.content? q = some (prevRef blocks j, slice p (tokenIds ++ chunk) j, cached) ∧
      ∀ h, cached = some h → j < numFullBlocks p (tokenIds ++ chunk) ∧ h = hashAt p (tokenIds ++ chunk) j := by
  obtain ⟨cached, hc, valid⟩ := h.blockAt j q hq
  rcases hchunk with rfl | hlen
  · rw [List.append_nil]
    exact ⟨cached, hc, valid⟩
  · have hlt : j < blocks.length := (List.getElem?_eq_some_iff.mp hq).1
    have hfull : (j + 1) * p.blockSize ≤ tokenIds.length := hlen ▸ Nat.mul_le_mul_right _ hlt
    rw [slice_append hfull, hashAt_append hfull]
    refine ⟨cached, hc, fun hash he => ⟨lt_numFullBlocks.mpr ?_, (valid hash he).2⟩⟩
    rw [List.length_append]
    omega

/-- A new object that is linked to the last block and holds the next slice. -/
theorem Holds.push {chunk : List TokenId} (h : Holds p s blocks tokenIds)
    (hchunk : chunk = [] ∨ tokenIds.length = blocks.length * p.blockSize) (hsize : chunk.length ≤ p.blockSize)
    (sound : s'.PoolSound (r :: blocks)) (hnew : s'.content? r = some (blocks.getLast?, chunk, none))
    (same : ∀ q ∈ blocks, s'.content? q = s.content? q) : Holds p s' (blocks ++ [r]) (tokenIds ++ chunk) := by
  have hfits := h.fits
  refine ⟨sound.perm (List.perm_append_singleton r blocks).symm, ?_, fun j q hq => ?_⟩
  · rw [List.length_append, List.length_append, List.length_singleton, Nat.add_mul, Nat.one_mul]
    omega
  · rcases Nat.lt_or_ge j blocks.length with hj | hj
    · rw [List.getElem?_append_left hj] at hq
      rw [prevRef_append hj.le, same q (List.mem_of_getElem? hq)]
      exact h.blockAt_append hq hchunk
    · obtain ⟨rfl, rfl⟩ : j = blocks.length ∧ q = r := by
        rw [List.getElem?_append_right hj] at hq
        obtain ⟨hlt, he⟩ := List.getElem?_eq_some_iff.mp hq
        rw [List.length_singleton] at hlt
        exact ⟨by omega, by simpa using he.symm⟩
      rw [prevRef_append (le_refl _), prevRef_length, hnew]
      refine ⟨none, ?_, fun _ he => by cases he⟩
      rcases hchunk with rfl | hlen
      · rw [List.append_nil, slice_eq_nil hfits]
      · have hfit : (tokenIds ++ chunk).length ≤ (blocks.length + 1) * p.blockSize := by
          rw [List.length_append, Nat.add_mul, Nat.one_mul]
          omega
        rw [slice_extend hlen.ge hfit, slice_eq_nil hlen.le, List.nil_append]

/-- The last block is given up. -/
theorem Holds.pop {chunk : List TokenId} (h : Holds p s (blocks ++ [r]) (tokenIds ++ chunk))
    (hlen : tokenIds.length = blocks.length * p.blockSize) (sound : s'.PoolSound blocks)
    (same : ∀ q, s'.content? q = s.content? q) : Holds p s' blocks tokenIds := by
  refine ⟨sound, hlen.le, fun j q hq => ?_⟩
  have hj : j < blocks.length := (List.getElem?_eq_some_iff.mp hq).1
  have hfull : (j + 1) * p.blockSize ≤ tokenIds.length := hlen ▸ Nat.mul_le_mul_right _ hj
  obtain ⟨cached, hc, valid⟩ := h.blockAt j q (by rw [List.getElem?_append_left hj, hq])
  rw [prevRef_append hj.le, slice_append hfull] at hc
  refine ⟨cached, (same q).trans hc, fun hash he => ⟨lt_numFullBlocks.mpr hfull, ?_⟩⟩
  rw [(valid hash he).2, hashAt_append hfull]

namespace BlockM

theorem allocateMutableBlock_spec (hsha : ∀ first prev ts, p.sha first prev ts ≠ noneHash)
    (h : Holds p s blocks tokenIds) (hrun : allocateMutableBlock p d blocks.getLast? s = some (r, s')) :
    Holds p s' (blocks ++ [r]) tokenIds := by
  obtain ⟨id, s₁, hid, hrun⟩ := bind_iff.mp hrun
  have h₁ := h.within (allocateBlockId_keeps p d) hid
  obtain ⟨r', s₂, hinit, hrun⟩ := bind_iff.mp hrun
  obtain ⟨sound, -, hnew, same⟩ := initBlock_spec p hinit h₁.sound
  have h₂ := h₁.push (.inl rfl) (Nat.zero_le _) sound hnew same
  rw [List.append_nil] at h₂
  obtain ⟨o, s₃, hhash, hrun⟩ := bind_iff.mp hrun
  obtain ⟨_, _, hreq, hrun⟩ := bind_iff.mp hrun
  obtain ⟨rfl, rfl⟩ := pure_iff.mp hrun
  rw [(require_iff.mp hreq).2]
  exact (contentHash_spec hsha h₂ List.getElem?_concat_length hhash).1

theorem allocateImmutableBlock_spec (hsha : ∀ first prev ts, p.sha first prev ts ≠ noneHash) {chunk : List TokenId}
    (h : Holds p s blocks tokenIds) (hlen : tokenIds.length = blocks.length * p.blockSize)
    (hsize : chunk.length = p.blockSize)
    (hrun : allocateImmutableBlock p d blocks.getLast? chunk s = some (r, s')) :
    Holds p s' (blocks ++ [r]) (tokenIds ++ chunk) := by
  obtain ⟨r', s₁, hinit, hrun⟩ := bind_iff.mp hrun
  obtain ⟨sound, hd, hnew, same⟩ := initBlock_spec p hinit h.sound
  have h₁ := h.push (.inr hlen) hsize.le sound hnew same
  obtain ⟨o, s₂, hhash, hrun⟩ := bind_iff.mp hrun
  have h₂ := (contentHash_spec hsha h₁ List.getElem?_concat_length hhash).1
  obtain ⟨hash, _, ho, hrun⟩ := bind_iff.mp hrun
  rw [(ofOption_iff.mp ho).2] at hrun
  obtain ⟨a, _, ha, hrun⟩ := bind_iff.mp hrun
  have h₂ := h₂.within (self_keeps d) ha
  cases hget : a.cachedBlocks.get? hash with
  | some cachedId =>
    rw [hget] at hrun
    obtain ⟨_, s₃, hset, hrun⟩ := bind_iff.mp hrun
    obtain ⟨_, s₄, hincr, hrun⟩ := bind_iff.mp hrun
    obtain ⟨rfl, rfl⟩ := pure_iff.mp hrun
    exact (h₂.within (setBlockId_keeps r _) hset).within (incrRefcountCachedBlock_keeps d r) hincr
  | none =>
    rw [hget] at hrun
    obtain ⟨_, s₃, hfree, hrun⟩ := bind_iff.mp hrun
    rw [← hd] at hfree
    obtain ⟨sound', same'⟩ := freeBlock_spec hfree (h₂.sound.perm (List.perm_append_singleton r' blocks))
    have h₃ := h₂.pop hlen sound' same'
    obtain ⟨r'', s₄, hmutable, hrun⟩ := bind_iff.mp hrun
    have h₄ := allocateMutableBlock_spec hsha h₃ hmutable
    obtain ⟨_, s₅, happend, hrun⟩ := bind_iff.mp hrun
    obtain ⟨rfl, rfl⟩ := pure_iff.mp hrun
    refine appendTokenIds_spec hsha h₄ List.getElem?_concat_length ?_ happend
    rw [numFullBlocks, hlen, Nat.mul_div_cancel _ p.pos]

end BlockM

end

end CoreFlow
