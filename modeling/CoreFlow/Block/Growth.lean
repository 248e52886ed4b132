import CoreFlow.Block.Hashes

/-!
# Growing a block table

A table is allocated for a token list and grows by appends of any lengths, with any number of lookahead
slots. After every step it holds the whole list.
-/

namespace CoreFlow
open Prog

section
variable {p : BlockParams} {s s' : CpuGpuBlockAllocator} {blocks : List BlockRef} {tokenIds : List TokenId}
  {r : BlockRef} {d : Device} {t t' : BlockTable}

theorem take_slices (n : Nat) : ((List.range n).map (slice p tokenIds)).flatten = tokenIds.take (n * p.blockSize) := by
  induction n with
  | zero => rw [Nat.zero_mul]; rfl
  | succ n ih =>
    rw [List.range_succ, List.map_append, List.flatten_append, ih, Nat.add_mul, Nat.one_mul, List.take_add]
    simp [slice]

/-- The full slices and the tail slice make up the list. -/
theorem flatten_chunks : ((List.range (numFullBlocks p tokenIds)).map (slice p tokenIds)).flatten ++
    (tailSlice p tokenIds).flatten = tokenIds := by
  have hd := Nat.div_add_mod' tokenIds.length p.blockSize
  have hlt := Nat.mod_lt tokenIds.length p.pos
  rw [take_slices, tailSlice]
  split
  · rw [List.flatten_nil, List.append_nil, List.take_of_length_le]
    unfold numFullBlocks
    omega
  · rw [List.flatten_singleton, slice, List.take_of_length_le (l := tokenIds.drop _), List.take_append_drop]
    rw [List.length_drop]
    unfold numFullBlocks
    omega

theorem length_of_mem_slices {c : List TokenId} (h : c ∈ (List.range (numFullBlocks p tokenIds)).map (slice p tokenIds)) :
    c.length = p.blockSize := by
  obtain ⟨i, hi, rfl⟩ := List.mem_map.mp h
  exact length_slice_eq.mpr (lt_numFullBlocks.mp (List.mem_range.mp hi))

theorem filter_full : (chunkList tokenIds p.blockSize).filter (fun c => c.length == p.blockSize) =
    (List.range (numFullBlocks p tokenIds)).map (slice p tokenIds) := by
  rw [chunkList_eq, List.filter_append, List.filter_eq_self.mpr fun c hc => beq_iff_eq.mpr (length_of_mem_slices hc),
    List.filter_eq_nil_iff.mpr, List.append_nil]
  intro c hc
  rw [beq_iff_eq]
  exact (length_of_mem_tailSlice hc).ne

theorem filter_tail : (chunkList tokenIds p.blockSize).filter (fun c => c.length != p.blockSize) = tailSlice p tokenIds := by
  rw [chunkList_eq, List.filter_append, List.filter_eq_nil_iff.mpr, List.nil_append, List.filter_eq_self.mpr]
  · intro c hc
    rw [bne_iff_ne]
    exact (length_of_mem_tailSlice hc).ne
  · intro c hc
    rw [bne_iff_ne, not_not]
    exact length_of_mem_slices hc

namespace BlockM

theorem allocateImmutableBlocks_spec (hsha : ∀ first prev ts, p.sha first prev ts ≠ noneHash)
    {chunks : List (List TokenId)} {rs : List BlockRef} (h : Holds p s blocks tokenIds)
    (hlen : tokenIds.length = blocks.length * p.blockSize) (hsize : ∀ c ∈ chunks, c.length = p.blockSize)
    (hrun : allocateImmutableBlocks p d blocks.getLast? chunks s = some (rs, s')) :
    Holds p s' (blocks ++ rs) (tokenIds ++ chunks.flatten) ∧
      (tokenIds ++ chunks.flatten).length = (blocks ++ rs).length * p.blockSize := by
  induction chunks generalizing blocks tokenIds s rs with
  | nil =>
    obtain ⟨rfl, rfl⟩ := pure_iff.mp hrun
    rw [List.flatten_nil, List.append_nil, List.append_nil]
    exact ⟨h, hlen⟩
  | cons c chunks ih =>
    obtain ⟨r, s₁, hr, hrun⟩ := bind_iff.mp hrun
    obtain ⟨rest, s₂, hrest, hrun⟩ := bind_iff.mp hrun
    obtain ⟨rfl, rfl⟩ := pure_iff.mp hrun
    have hc := hsize c List.mem_cons_self
    have h₁ := allocateImmutableBlock_spec hsha h hlen hc hr
    have hlen₁ : (tokenIds ++ c).length = (blocks ++ [r]).length * p.blockSize := by
      rw [List.length_append, List.length_append, List.length_singleton, Nat.add_mul, Nat.one_mul]
      omega
    rw [← List.getLast?_concat (l := blocks)] at hrest
    have := ih h₁ hlen₁ (fun c' hc' => hsize c' (List.mem_cons_of_mem _ hc')) hrest
    rwa [List.append_assoc, List.append_assoc] at this

theorem allocateImmutableBlocks_length {prevBlock : Option BlockRef} {chunks : List (List TokenId)} {rs : List BlockRef}
    (hrun : allocateImmutableBlocks p d prevBlock chunks s = some (rs, s')) : rs.length = chunks.length := by
  induction chunks generalizing prevBlock s rs with
  | nil =>
    rw [(pure_iff.mp hrun).1]
    rfl
  | cons c chunks ih =>
    obtain ⟨r, s₁, -, hrun⟩ := bind_iff.mp hrun
    obtain ⟨rest, s₂, hrest, hrun⟩ := bind_iff.mp hrun
    obtain ⟨rfl, rfl⟩ := pure_iff.mp hrun
    rw [List.length_cons, List.length_cons, ih hrest]

end BlockM

namespace BlockTable

/-- The table holds the token list. -/
def Represents (p : BlockParams) (s : CpuGpuBlockAllocator) (t : BlockTable) (tokenIds : List TokenId) : Prop :=
  Holds p s t.blocks tokenIds ∧ t.numFullSlots = tokenIds.length

theorem allocateBlocksForTokenIds_spec (hsha : ∀ first prev ts, p.sha first prev ts ≠ noneHash)
    (sound : s.PoolSound []) (hrun : allocateBlocksForTokenIds p tokenIds d s = some (blocks, s')) :
    Holds p s' blocks tokenIds := by
  unfold allocateBlocksForTokenIds at hrun
  rw [filter_full, filter_tail] at hrun
  obtain ⟨full, s₁, hfull, hrun⟩ := bind_iff.mp hrun
  have start : Holds p s [] [] := ⟨sound, Nat.zero_le _, fun i r hr => by cases hr⟩
  obtain ⟨h₁, hlen⟩ := BlockM.allocateImmutableBlocks_spec hsha start (Nat.zero_mul _).symm
    (fun c hc => length_of_mem_slices hc) hfull
  have hall : ((List.range (numFullBlocks p tokenIds)).map (slice p tokenIds)).flatten ++ (tailSlice p tokenIds).flatten =
      tokenIds := flatten_chunks
  rw [List.nil_append] at h₁ hlen
  rw [List.nil_append] at h₁ hlen
  by_cases hmod : tokenIds.length % p.blockSize = 0
  · rw [tailSlice, if_pos hmod] at hrun hall
    rw [List.flatten_nil, List.append_nil] at hall
    rw [hall] at h₁
    obtain ⟨rfl, rfl⟩ := pure_iff.mp hrun
    exact h₁
  · rw [tailSlice, if_neg hmod] at hrun hall
    rw [List.flatten_singleton] at hall
    obtain ⟨r, s₂, hr, hrun⟩ := bind_iff.mp hrun
    have h₂ := BlockM.allocateMutableBlock_spec hsha h₁ hr
    obtain ⟨_, s₃, happend, hrun⟩ := bind_iff.mp hrun
    obtain ⟨rfl, rfl⟩ := pure_iff.mp hrun
    rw [← hall]
    refine BlockM.appendTokenIds_spec hsha h₂ List.getElem?_concat_length ?_ happend
    rw [numFullBlocks, hlen, Nat.mul_div_cancel _ p.pos]

theorem idOf_keeps (r : BlockRef) {live : List BlockRef} : Within (CpuGpuBlockAllocator.Keeps live) (idOf r) :=
  .bind (BlockM.getBlock_keeps r) fun _ => .ofOption _

/-- `allocate` makes a table that holds the list. -/
theorem allocate_spec (hsha : ∀ first prev ts, p.sha first prev ts ≠ noneHash) (sound : s.PoolSound [])
    (hrun : allocate p t tokenIds d s = some (t', s')) : Represents p s' t' tokenIds := by
  obtain ⟨_, _, hreq, hrun⟩ := bind_iff.mp hrun
  rw [(require_iff.mp hreq).2] at hrun
  obtain ⟨_, _, hreq, hrun⟩ := bind_iff.mp hrun
  rw [(require_iff.mp hreq).2] at hrun
  obtain ⟨blocks, s₁, hblocks, hrun⟩ := bind_iff.mp hrun
  have h₁ := allocateBlocksForTokenIds_spec hsha sound hblocks
  obtain ⟨t₁, s₂, hupdate, hrun⟩ := bind_iff.mp hrun
  obtain ⟨rfl, rfl⟩ := pure_iff.mp hrun
  obtain ⟨ids, s₃, hids, hupdate⟩ := bind_iff.mp hupdate
  obtain ⟨rfl, rfl⟩ := pure_iff.mp hupdate
  exact ⟨h₁.within (.mapM (fun r => idOf_keeps r) blocks) hids, rfl⟩

theorem allocateBlocksForTokenIds_length (hrun : allocateBlocksForTokenIds p tokenIds d s = some (blocks, s')) :
    tokenIds.length ≤ blocks.length * p.blockSize := by
  unfold allocateBlocksForTokenIds at hrun
  rw [filter_full, filter_tail] at hrun
  obtain ⟨full, s₁, hfull, hrun⟩ := bind_iff.mp hrun
  have hlen := BlockM.allocateImmutableBlocks_length hfull
  rw [List.length_map, List.length_range, numFullBlocks] at hlen
  have hdiv := Nat.div_add_mod' tokenIds.length p.blockSize
  have hlt := Nat.mod_lt tokenIds.length p.pos
  by_cases hmod : tokenIds.length % p.blockSize = 0
  · rw [tailSlice, if_pos hmod] at hrun
    rw [(pure_iff.mp hrun).1, hlen]
    omega
  · rw [tailSlice, if_neg hmod] at hrun
    obtain ⟨r, s₂, -, hrun⟩ := bind_iff.mp hrun
    obtain ⟨_, s₃, -, hrun⟩ := bind_iff.mp hrun
    rw [(pure_iff.mp hrun).1, List.length_append, List.length_singleton, hlen, Nat.add_mul, Nat.one_mul]
    omega

/-- The blocks of a new table have room for all the tokens. -/
theorem allocate_length (hrun : allocate p t tokenIds d s = some (t', s')) :
    tokenIds.length ≤ t'.blockIds.length * p.blockSize := by
  simp only [allocate, require_bind, Option.ite_none_right_eq_some] at hrun
  obtain ⟨-, -, hrun⟩ := hrun
  obtain ⟨blocks, s₁, hblocks, hrun⟩ := bind_iff.mp hrun
  obtain ⟨t₁, s₂, hupdate, hrun⟩ := bind_iff.mp hrun
  obtain ⟨ids, s₃, hids, hupdate⟩ := bind_iff.mp hupdate
  rw [(pure_iff.mp hrun).1, (pure_iff.mp hupdate).1]
  show _ ≤ ids.length * _
  rw [mapM_length hids]
  exact allocateBlocksForTokenIds_length hblocks

/-! ## Appends -/

theorem appendBlocks_spec (hsha : ∀ first prev ts, p.sha first prev ts ≠ noneHash) {n : Nat}
    (h : Represents p s t tokenIds) (hrun : appendBlocks p t n s = some (t', s')) : Represents p s' t' tokenIds := by
  induction n generalizing t s with
  | zero =>
    obtain ⟨rfl, rfl⟩ := pure_iff.mp hrun
    exact h
  | succ n ih =>
    obtain ⟨_, _, hreq, hrun⟩ := bind_iff.mp hrun
    rw [(require_iff.mp hreq).2] at hrun
    obtain ⟨r, s₁, hr, hrun⟩ := bind_iff.mp hrun
    obtain ⟨id, s₂, hid, hrun⟩ := bind_iff.mp hrun
    have h₁ := BlockM.allocateMutableBlock_spec hsha h.1 hr
    have h₂ : Represents p s₂ { t with blocks := t.blocks ++ [r], blockIds := t.blockIds ++ [id] } tokenIds :=
      ⟨h₁.within (idOf_keeps r) hid, h.2⟩
    exact ih h₂ hrun

theorem ensureNumEmptySlots_spec (hsha : ∀ first prev ts, p.sha first prev ts ≠ noneHash) {n : Nat}
    (h : Represents p s t tokenIds) (hrun : ensureNumEmptySlots p t n s = some (t', s')) :
    Represents p s' t' tokenIds := by
  obtain ⟨_, _, hreq, hrun⟩ := bind_iff.mp hrun
  rw [(require_iff.mp hreq).2] at hrun
  split at hrun
  · obtain ⟨rfl, rfl⟩ := pure_iff.mp hrun
    exact h
  · exact appendBlocks_spec hsha h hrun

theorem appendToBlock_spec (hsha : ∀ first prev ts, p.sha first prev ts ≠ noneHash) {i : Nat} {more : List TokenId}
    (h : Holds p s t.blocks tokenIds) (hi : i = numFullBlocks p tokenIds)
    (hrun : appendToBlock p t i more s = some (t', s')) :
    Holds p s' t'.blocks (tokenIds ++ more) ∧ t'.numFullSlots = t.numFullSlots := by
  obtain ⟨r, _, hr, hrun⟩ := bind_iff.mp hrun
  obtain ⟨hr, hs⟩ := ofOption_iff.mp hr
  rw [hs] at hrun
  obtain ⟨b, s₁, hb, hrun⟩ := bind_iff.mp hrun
  obtain ⟨_, s₂, happend, hrun⟩ := bind_iff.mp hrun
  have h₂ := BlockM.appendTokenIds_spec hsha (h.within (BlockM.getBlock_keeps r) hb) hr hi happend
  obtain ⟨b', s₃, hb', hrun⟩ := bind_iff.mp hrun
  have h₃ := h₂.within (BlockM.getBlock_keeps r) hb'
  split at hrun
  · obtain ⟨id, s₄, hid, hrun⟩ := bind_iff.mp hrun
    obtain ⟨rfl, rfl⟩ := pure_iff.mp hrun
    rw [(ofOption_iff.mp hid).2]
    exact ⟨h₃, rfl⟩
  · obtain ⟨rfl, rfl⟩ := pure_iff.mp hrun
    exact ⟨h₃, rfl⟩

/-- Every chunk but the last fills its block; `room` is the space in the first. -/
def Fills (n : Nat) : Nat → List (List TokenId) → Prop
  | _, [] => True
  | room, c :: rest => rest = [] ∨ (c.length = room ∧ Fills n n rest)

theorem fills_append {n : Nat} {full tail : List (List TokenId)} (hfull : ∀ c ∈ full, c.length = n)
    (htail : tail.length ≤ 1) : Fills n n (full ++ tail) := by
  induction full with
  | nil =>
    rcases tail with - | ⟨c, - | ⟨c', rest⟩⟩
    · exact trivial
    · exact .inl rfl
    · simp at htail
  | cons c full ih => exact .inr ⟨hfull c List.mem_cons_self, ih fun c' h => hfull c' (List.mem_cons_of_mem _ h)⟩

theorem chunkList_fills : Fills p.blockSize p.blockSize (chunkList tokenIds p.blockSize) := by
  rw [chunkList_eq]
  refine fills_append (fun c hc => length_of_mem_slices hc) ?_
  unfold tailSlice
  split <;> simp

theorem chunkList_flatten : (chunkList tokenIds p.blockSize).flatten = tokenIds := by
  rw [chunkList_eq, List.flatten_append, flatten_chunks]

theorem chunkTokenBlocksForAppend_flatten {more : List TokenId} : (chunkTokenBlocksForAppend p t more).flatten = more := by
  unfold chunkTokenBlocksForAppend
  split
  · rw [‹more = []›]
    rfl
  · rw [List.flatten_cons, chunkList_flatten, List.take_append_drop]

theorem chunkTokenBlocksForAppend_fills {more : List TokenId} :
    Fills p.blockSize (p.blockSize - t.numFullSlots % p.blockSize) (chunkTokenBlocksForAppend p t more) := by
  unfold chunkTokenBlocksForAppend
  split
  · exact trivial
  · by_cases hlen : p.blockSize - t.numFullSlots % p.blockSize ≤ more.length
    · exact .inr ⟨List.length_take_of_le hlen, chunkList_fills⟩
    · left
      rw [List.drop_eq_nil_of_le (by omega), chunkList_eq, tailSlice, numFullBlocks, List.length_nil, Nat.zero_mod,
        Nat.zero_div, if_pos rfl]
      rfl

theorem appendTokenBlocks_spec (hsha : ∀ first prev ts, p.sha first prev ts ≠ noneHash) {i : Nat}
    {chunks : List (List TokenId)} (h : Holds p s t.blocks tokenIds) (hi : i = numFullBlocks p tokenIds)
    (hchunks : Fills p.blockSize (p.blockSize - tokenIds.length % p.blockSize) chunks)
    (hrun : appendTokenBlocks p t i chunks s = some (t', s')) :
    Holds p s' t'.blocks (tokenIds ++ chunks.flatten) ∧ t'.numFullSlots = t.numFullSlots := by
  induction chunks generalizing t s i tokenIds with
  | nil =>
    obtain ⟨rfl, rfl⟩ := pure_iff.mp hrun
    rw [List.flatten_nil, List.append_nil]
    exact ⟨h, rfl⟩
  | cons c rest ih =>
    obtain ⟨t₁, s₁, hc, hrun⟩ := bind_iff.mp hrun
    obtain ⟨h₁, hslots⟩ := appendToBlock_spec hsha h hi hc
    rw [List.flatten_cons, ← List.append_assoc, ← hslots]
    rcases hchunks with rfl | ⟨hroom, hrest⟩
    · obtain ⟨rfl, rfl⟩ := pure_iff.mp hrun
      rw [List.flatten_nil, List.append_nil]
      exact ⟨h₁, rfl⟩
    · -- the chunk fills block `i`
      have hlen : (tokenIds ++ c).length = (i + 1) * p.blockSize := by
        have hd := Nat.div_add_mod' tokenIds.length p.blockSize
        have hlt := Nat.mod_lt tokenIds.length p.pos
        rw [List.length_append, Nat.add_mul, Nat.one_mul, hi, numFullBlocks]
        omega
      refine ih h₁ ?_ ?_ hrun
      · rw [numFullBlocks, hlen, Nat.mul_div_cancel _ p.pos]
      · rw [hlen, Nat.mul_mod_left, Nat.sub_zero]
        exact hrest

/-- `append_token_ids` adds the tokens to the list that the table holds. -/
theorem appendTokenIds_spec (hsha : ∀ first prev ts, p.sha first prev ts ≠ noneHash) {more : List TokenId} {n : Nat}
    (h : Represents p s t tokenIds) (hrun : appendTokenIds p t more n s = some (t', s')) :
    Represents p s' t' (tokenIds ++ more) := by
  obtain ⟨_, _, hreq, hrun⟩ := bind_iff.mp hrun
  rw [(require_iff.mp hreq).2] at hrun
  obtain ⟨t₁, s₁, hensure, hrun⟩ := bind_iff.mp hrun
  obtain ⟨h₁, hslots⟩ := ensureNumEmptySlots_spec hsha h hensure
  obtain ⟨t₂, s₂, happend, hrun⟩ := bind_iff.mp hrun
  obtain ⟨rfl, rfl⟩ := pure_iff.mp hrun
  have hfills : Fills p.blockSize (p.blockSize - t₁.numFullSlots % p.blockSize) (chunkTokenBlocksForAppend p t₁ more) :=
    chunkTokenBlocksForAppend_fills
  rw [hslots] at hfills happend
  obtain ⟨h₂, hslots₂⟩ := appendTokenBlocks_spec hsha h₁ rfl hfills happend
  rw [chunkTokenBlocksForAppend_flatten] at h₂
  refine ⟨h₂, ?_⟩
  rw [hslots₂, hslots, List.length_append]

/-- The blocks whose `is_full` holds. -/
def fullBlocks (p : BlockParams) (s : CpuGpuBlockAllocator) (t : BlockTable) : List BlockRef :=
  t.blocks.filter fun r => (s.block? r).any (·.isFull p)

theorem fullBlocks_eq (h : Holds p s t.blocks tokenIds) : t.fullBlocks p s = t.blocks.take (numFullBlocks p tokenIds) := by
  have full_iff (i : Nat) (r : BlockRef) (hr : t.blocks[i]? = some r) :
      (s.block? r).any (·.isFull p) = decide (i < numFullBlocks p tokenIds) := by
    obtain ⟨cached, hc, -⟩ := h.blockAt i r hr
    obtain ⟨b, hb, -, htokens, -⟩ := CpuGpuBlockAllocator.content?_eq_some.mp hc
    rw [hb, Option.any_some, Block.isFull, htokens, beq_eq_decide]
    exact decide_eq_decide.mpr (length_slice_eq.trans lt_numFullBlocks.symm)
  have hall := List.take_append_drop (numFullBlocks p tokenIds) t.blocks
  conv_lhs => rw [fullBlocks, ← hall, List.filter_append]
  rw [List.filter_eq_self.mpr, List.filter_eq_nil_iff.mpr, List.append_nil]
  · intro r hr
    obtain ⟨i, hi⟩ := List.mem_iff_getElem?.mp hr
    rw [List.getElem?_drop] at hi
    rw [full_iff _ r hi, decide_eq_true_eq]
    omega
  · intro r hr
    obtain ⟨i, hi⟩ := List.mem_iff_getElem?.mp hr
    rw [List.getElem?_take] at hi
    split at hi
    · rw [full_iff i r hi, decide_eq_true ‹_›]
    · cases hi

end BlockTable

end

end CoreFlow
