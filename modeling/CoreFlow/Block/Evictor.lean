import CoreFlow.Block.Basic
import CoreFlow.Lib.Heapq

/-!
# The LRU evictor

`free_table` holds the blocks that can be evicted; the priority queue orders them by last access and
then by how deep in their chain they are. Removing a block and refreshing its access time leave the
old queue entry behind, and `evict` skips the entries that no longer match the table.
-/

namespace CoreFlow

/-- `BlockMetaData`. -/
structure BlockMetaData where
  contentHash : PrefixHash
  numHashedTokens : Nat
  lastAccessed : Int
deriving DecidableEq

/-- A priority queue entry `(last_accessed, -num_hashed_tokens, block_id, content_hash)`. -/
structure HeapEntry where
  lastAccessed : Int
  negHashedTokens : Int
  blockId : Nat
  contentHash : Int
deriving DecidableEq

namespace HeapEntry

/-- The order of the tuples. -/
def le (a b : HeapEntry) : Prop :=
  a.lastAccessed < b.lastAccessed ∨ (a.lastAccessed = b.lastAccessed ∧
    (a.negHashedTokens < b.negHashedTokens ∨ (a.negHashedTokens = b.negHashedTokens ∧
      (a.blockId < b.blockId ∨ (a.blockId = b.blockId ∧ a.contentHash ≤ b.contentHash)))))

instance : DecidableRel HeapEntry.le := fun a b => by unfold HeapEntry.le; infer_instance

instance : Std.Total HeapEntry.le where
  total a b := by simp only [HeapEntry.le]; omega

instance : IsTrans HeapEntry HeapEntry.le where
  trans a b c h₁ h₂ := by simp only [HeapEntry.le] at h₁ h₂ ⊢; omega

end HeapEntry

/-- `LRUEvictor`. -/
structure LRUEvictor where
  freeTable : Dict BlockId BlockMetaData
  priorityQueue : List HeapEntry
deriving DecidableEq

namespace LRUEvictor
open Heapq

def init : LRUEvictor := ⟨Dict.empty, []⟩

/-- `LRUEvictor.CLEANUP_THRESHOLD`. -/
def cleanupThreshold : Nat := 50

def numBlocks (e : LRUEvictor) : Nat := e.freeTable.size

/-- The loop of `evict`: pop entries until one matches the table. -/
def evictLoop (freeTable : Dict BlockId BlockMetaData) :
    List HeapEntry → Option ((BlockId × PrefixHash) × LRUEvictor)
  | [] => none
  | e :: q =>
    if (freeTable.get? e.blockId).map (·.lastAccessed) = some e.lastAccessed then
      some ((e.blockId, e.contentHash), ⟨freeTable.erase e.blockId, q⟩)
    else evictLoop freeTable q

/-- `evict`; both `raise ValueError("No usable cache memory left")` are `none`. -/
def evict (e : LRUEvictor) : Option ((BlockId × PrefixHash) × LRUEvictor) :=
  if e.numBlocks = 0 then none else evictLoop e.freeTable e.priorityQueue

theorem evictLoop_freeTable {table : Dict BlockId BlockMetaData} {q : List HeapEntry} {blockId : BlockId}
    {contentHash : PrefixHash} {e' : LRUEvictor} (h : evictLoop table q = some ((blockId, contentHash), e')) :
    e'.freeTable = table.erase blockId := by
  induction q with
  | nil => cases h
  | cons x q ih =>
    rw [evictLoop] at h
    split at h
    · obtain ⟨hid, rfl⟩ := Prod.mk.inj (Option.some.inj h)
      rw [(Prod.mk.inj hid).1]
    · exact ih h

theorem evict_freeTable {e e' : LRUEvictor} {blockId : BlockId} {contentHash : PrefixHash}
    (h : e.evict = some ((blockId, contentHash), e')) : e'.freeTable = e.freeTable.erase blockId := by
  unfold evict at h
  split at h
  · cases h
  · exact evictLoop_freeTable h

/-- The queue entry of a table row. -/
def entryOf (blockId : BlockId) (m : BlockMetaData) : HeapEntry :=
  ⟨m.lastAccessed, -(m.numHashedTokens : Int), blockId, m.contentHash⟩

/-- `_cleanup`. -/
def cleanup (e : LRUEvictor) : LRUEvictor :=
  { e with priorityQueue := heapify HeapEntry.le (e.freeTable.entries.map fun (i, m) => entryOf i m) }

/-- `_cleanup_if_necessary`. -/
def cleanupIfNecessary (e : LRUEvictor) : LRUEvictor :=
  if e.priorityQueue.length > cleanupThreshold * e.freeTable.size then e.cleanup else e

theorem cleanupIfNecessary_freeTable (e : LRUEvictor) : e.cleanupIfNecessary.freeTable = e.freeTable := by
  unfold cleanupIfNecessary
  split <;> rfl

/-- `add`. -/
def add (e : LRUEvictor) (blockId : BlockId) (contentHash : PrefixHash) (numHashedTokens : Nat)
    (lastAccessed : Int) : LRUEvictor :=
  let m : BlockMetaData := ⟨contentHash, numHashedTokens, lastAccessed⟩
  cleanupIfNecessary
    ⟨e.freeTable.set blockId m, heappush HeapEntry.le (entryOf blockId m) e.priorityQueue⟩

theorem add_freeTable (e : LRUEvictor) (blockId : BlockId) (contentHash : PrefixHash) (numHashedTokens : Nat)
    (lastAccessed : Int) : (e.add blockId contentHash numHashedTokens lastAccessed).freeTable =
      e.freeTable.set blockId ⟨contentHash, numHashedTokens, lastAccessed⟩ := cleanupIfNecessary_freeTable _

/-- `update`. -/
def update (e : LRUEvictor) (blockId : BlockId) (lastAccessed : Int) : Option LRUEvictor :=
  (e.freeTable.get? blockId).map fun m =>
    { e with freeTable := e.freeTable.set blockId { m with lastAccessed := lastAccessed } }

/-- `remove`. -/
def remove (e : LRUEvictor) (blockId : BlockId) : Option LRUEvictor :=
  if blockId ∈ e.freeTable then some { e with freeTable := e.freeTable.erase blockId } else none

end LRUEvictor

end CoreFlow
