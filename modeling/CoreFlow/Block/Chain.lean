import CoreFlow.Block.State

/-!
# The chain of block hashes

A token list is cut into slices of the block size, and each full slice is hashed together with the hash
of the slice before it. `blockHashes` is the list of these hashes; it is what the code's loops over the
slices are compared with.
-/

namespace CoreFlow

theorem cdiv_eq {n : Nat} (hn : 0 < n) (a : Nat) : cdiv a n = a / n + if a % n = 0 then 0 else 1 := by
  have hd := Nat.div_add_mod' a n
  have hlt := Nat.mod_lt a hn
  unfold cdiv
  split
  · refine Nat.div_eq_of_lt_le ?_ ?_
    · rw [Nat.add_zero]
      omega
    · rw [Nat.add_zero, Nat.add_mul]
      omega
  · refine Nat.div_eq_of_lt_le ?_ ?_
    · rw [Nat.add_mul]
      omega
    · rw [Nat.add_mul, Nat.add_mul]
      omega

section
variable (p : BlockParams) (tokenIds : List TokenId)

/-- The slice of block `i`. -/
def slice (i : Nat) : List TokenId := (tokenIds.drop (i * p.blockSize)).take p.blockSize

/-- The number of full blocks. -/
def numFullBlocks : Nat := tokenIds.length / p.blockSize

/-- The hash of block `i`. -/
def hashAt : Nat → PrefixHash
  | 0 => hashBlockTokens p true none (slice p tokenIds 0)
  | i + 1 => hashBlockTokens p false (some (hashAt i)) (slice p tokenIds (i + 1))

/-- The hash of the block before block `i`. -/
def prevHash : Nat → Option PrefixHash
  | 0 => none
  | i + 1 => some (hashAt p tokenIds i)

/-- The hashes of the full blocks. -/
def blockHashes : List PrefixHash := (List.range (numFullBlocks p tokenIds)).map (hashAt p tokenIds)

end

section
variable {p : BlockParams} {tokenIds more : List TokenId} {i : Nat}

theorem hashAt_eq (i : Nat) :
    hashAt p tokenIds i = hashBlockTokens p (prevHash p tokenIds i).isNone (prevHash p tokenIds i) (slice p tokenIds i) := by
  cases i <;> rfl

/-- A hash of the chain is a digest, whichever block it is of. -/
theorem hashAt_ne (hsha : ∀ first prev ts, p.sha first prev ts ≠ noneHash) (i : Nat) : hashAt p tokenIds i ≠ noneHash := by
  cases i <;> exact hsha _ _ _

theorem lt_numFullBlocks : i < numFullBlocks p tokenIds ↔ (i + 1) * p.blockSize ≤ tokenIds.length :=
  Nat.le_div_iff_mul_le p.pos

theorem length_slice : (slice p tokenIds i).length = min p.blockSize (tokenIds.length - i * p.blockSize) := by
  rw [slice, List.length_take, List.length_drop]

theorem length_slice_eq : (slice p tokenIds i).length = p.blockSize ↔ (i + 1) * p.blockSize ≤ tokenIds.length := by
  have hpos := p.pos
  rw [length_slice, Nat.add_mul, Nat.one_mul]
  omega

theorem slice_eq_nil (h : tokenIds.length ≤ i * p.blockSize) : slice p tokenIds i = [] := by
  rw [slice, List.drop_eq_nil_of_le h, List.take_nil]

/-! ## Growing token lists -/

theorem slice_append (h : (i + 1) * p.blockSize ≤ tokenIds.length) : slice p (tokenIds ++ more) i = slice p tokenIds i := by
  rw [Nat.add_mul, Nat.one_mul] at h
  rw [slice, slice, List.drop_append_of_le_length (by omega), List.take_append_of_le_length]
  rw [List.length_drop]
  omega

theorem hashAt_append (h : (i + 1) * p.blockSize ≤ tokenIds.length) : hashAt p (tokenIds ++ more) i = hashAt p tokenIds i := by
  induction i with
  | zero => rw [hashAt, hashAt, slice_append h]
  | succ i ih =>
    have hi : (i + 1) * p.blockSize ≤ tokenIds.length := by
      rw [Nat.add_mul] at h
      omega
    rw [hashAt, hashAt, slice_append h, ih hi]

theorem prevHash_append (h : i * p.blockSize ≤ tokenIds.length) : prevHash p (tokenIds ++ more) i = prevHash p tokenIds i := by
  cases i with
  | zero => rfl
  | succ i => exact congrArg some (hashAt_append h)

/-- Appended tokens go to the slice that is not full. -/
theorem slice_extend (hi : i * p.blockSize ≤ tokenIds.length)
    (hfit : (tokenIds ++ more).length ≤ (i + 1) * p.blockSize) :
    slice p (tokenIds ++ more) i = slice p tokenIds i ++ more := by
  rw [List.length_append, Nat.add_mul, Nat.one_mul] at hfit
  rw [slice, slice, List.drop_append_of_le_length hi, List.take_of_length_le, List.take_of_length_le]
  · rw [List.length_drop]
    omega
  · rw [List.length_append, List.length_drop]
    omega

/-! ## Chunks -/

variable (p tokenIds) in
/-- The slice that is not full, if there is one. -/
def tailSlice : List (List TokenId) :=
  if tokenIds.length % p.blockSize = 0 then [] else [slice p tokenIds (numFullBlocks p tokenIds)]

theorem chunkList_eq : chunkList tokenIds p.blockSize =
    (List.range (numFullBlocks p tokenIds)).map (slice p tokenIds) ++ tailSlice p tokenIds := by
  rw [chunkList, cdiv_eq p.pos, tailSlice]
  split
  · rw [List.append_nil]
    rfl
  · rw [List.range_succ, List.map_append]
    rfl

theorem length_of_mem_tailSlice {c : List TokenId} (h : c ∈ tailSlice p tokenIds) : c.length < p.blockSize := by
  unfold tailSlice at h
  split at h
  · cases h
  · obtain rfl := List.mem_singleton.mp h
    have hnot : ¬ (numFullBlocks p tokenIds + 1) * p.blockSize ≤ tokenIds.length :=
      lt_numFullBlocks.not.mp (lt_irrefl _)
    have hle : (slice p tokenIds (numFullBlocks p tokenIds)).length ≤ p.blockSize := List.length_take_le ..
    have hne := length_slice_eq.not.mpr hnot
    omega

end

end CoreFlow
