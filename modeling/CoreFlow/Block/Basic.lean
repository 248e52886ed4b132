import CoreFlow.Lib.Dict
import CoreFlow.Lib.Prog

/-!
# Devices, block objects and block pools

A `Block` object is created once, in the pool of one of the two allocators, and is re-initialised
each time the pool hands it out. Tables and locals hold references to it: a reference names the pool
and the position in it, so two holders of one reference see each other's changes, as the Python
holders of one object do. The physical memory an object stands for is its `blockId`, which can change
device while the object keeps its pool.
-/

namespace CoreFlow

inductive Device where
  | gpu
  | cpu
deriving DecidableEq, Repr

abbrev BlockId := Nat
abbrev PrefixHash := Int
abbrev TokenId := Int

/-- One value for each device. -/
structure PerDevice (α : Type) where
  gpu : α
  cpu : α
deriving DecidableEq

namespace PerDevice
variable {α : Type}

def get (p : PerDevice α) : Device → α
  | .gpu => p.gpu
  | .cpu => p.cpu

def set (p : PerDevice α) : Device → α → PerDevice α
  | .gpu, a => { p with gpu := a }
  | .cpu, a => { p with cpu := a }

@[simp] theorem get_set_self (p : PerDevice α) (d : Device) (a : α) : (p.set d a).get d = a := by
  cases d <;> rfl

theorem get_set (p : PerDevice α) (d e : Device) (a : α) :
    (p.set d a).get e = if d = e then a else p.get e := by
  cases d <;> cases e <;> rfl

theorem get_set_ne (p : PerDevice α) {d e : Device} (h : d ≠ e) (a : α) :
    (p.set d a).get e = p.get e := by rw [get_set, if_neg h]

end PerDevice

/-- `_NONE_HASH`. -/
def noneHash : PrefixHash := -9223372036854775808

/-- `_DEFAULT_LAST_ACCESSED_TIME`. -/
def defaultLastAccessedTime : Int := -1

/-- What a block allocator is configured with. `sha` is the leading eight bytes of the SHA-256 digest
of `repr((is_first_block, prev_block_hash, tuple(cur_block_token_ids), None))`. -/
structure BlockParams where
  blockSize : Nat
  pos : 0 < blockSize
  sha : Bool → Option PrefixHash → List TokenId → PrefixHash

/-- `cdiv`. -/
def cdiv (a b : Nat) : Nat := (a + b - 1) / b

/-- `chunk_list`. -/
def chunkList {α : Type} (lst : List α) (chunkSize : Nat) : List (List α) :=
  (List.range (cdiv lst.length chunkSize)).map fun i => (lst.drop (i * chunkSize)).take chunkSize

/-- `PrefixCachingBlock.hash_block_tokens`, without adapters (`extra_hash` is `None`). -/
def hashBlockTokens (p : BlockParams) (isFirstBlock : Bool) (prevBlockHash : Option PrefixHash)
    (curBlockTokenIds : List TokenId) : PrefixHash :=
  let prevBlockHash :=
    if isFirstBlock ∧ prevBlockHash = none then some noneHash else prevBlockHash
  p.sha isFirstBlock prevBlockHash curBlockTokenIds

/-- A reference to a `Block` object: the pool it was created in and its `pool_id` there. -/
structure BlockRef where
  device : Device
  poolId : Nat
deriving DecidableEq, Repr

/-- `PrefixCachingBlock` together with the `NaiveBlock` it wraps. -/
structure Block where
  prevBlock : Option BlockRef
  tokenIds : List TokenId
  blockId : Option BlockId
  computed : Bool
  cachedContentHash : Option PrefixHash
  cachedNumTokensTotal : Nat
deriving DecidableEq

/-- A block object as the pool creates it. -/
def Block.fresh : Block := ⟨none, [], none, false, none, 0⟩

def Block.isFull (p : BlockParams) (b : Block) : Bool := b.tokenIds.length == p.blockSize

/-- `BlockPool`: the objects, in order of their `pool_id`, and the deque of free ids. -/
structure BlockPool where
  pool : List Block
  freeIds : List Nat
deriving DecidableEq

namespace BlockPool

/-- `_pool_size`. -/
def poolSize (bp : BlockPool) : Nat := bp.pool.length

/-- `BlockPool.__init__`. -/
def init (poolSize : Nat) : BlockPool := ⟨List.replicate poolSize Block.fresh, List.range poolSize⟩

/-- `BlockPool.increase_pool`: doubles the pool. -/
def increasePool (bp : BlockPool) : BlockPool where
  pool := bp.pool ++ List.replicate bp.poolSize Block.fresh
  freeIds := bp.freeIds ++ List.range' bp.poolSize bp.poolSize

end BlockPool

/-- `BlockTracker`. -/
structure BlockTracker where
  active : Bool
  lastAccessed : Int
  computed : Bool
deriving DecidableEq

namespace BlockTracker

def init : BlockTracker := ⟨false, defaultLastAccessedTime, false⟩

/-- `enable`, followed by the assignment of `computed` that `_track_block_id` makes. -/
def enable (t : BlockTracker) (computed : Bool) : Option BlockTracker :=
  if t.active then none else some ⟨true, defaultLastAccessedTime, computed⟩

def disable (t : BlockTracker) : Option BlockTracker :=
  if t.active then some init else none

end BlockTracker

end CoreFlow
