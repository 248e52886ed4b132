import Mathlib.Data.List.Sort

/-!
# Priority queues

`heapq` observed from outside: a multiset whose least element is popped first. The queue is kept as
a sorted list, so a push is an ordered insertion and a pop takes the head; elements that compare
equal both ways must be equal for this to be the same queue, which a lexicographic order on tuples
guarantees.
-/

namespace CoreFlow.Heapq
variable {α : Type} (r : α → α → Prop) [DecidableRel r]

/-- `heapq.heappush`. -/
def heappush (a : α) (q : List α) : List α := q.orderedInsert r a

/-- `heapq.heapify`. -/
def heapify (l : List α) : List α := l.insertionSort r

variable {r}

@[simp] theorem mem_heappush {a b : α} {q : List α} : b ∈ heappush r a q ↔ b = a ∨ b ∈ q :=
  List.mem_orderedInsert r

@[simp] theorem mem_heapify {b : α} {l : List α} : b ∈ heapify r l ↔ b ∈ l :=
  List.mem_insertionSort r

theorem heappush_perm (a : α) (q : List α) : (heappush r a q).Perm (a :: q) := List.perm_orderedInsert r a q

theorem heapify_perm (l : List α) : (heapify r l).Perm l := List.perm_insertionSort r l

variable [Std.Total r] [IsTrans α r]

theorem pairwise_heappush {a : α} {q : List α} (hq : q.Pairwise r) : (heappush r a q).Pairwise r :=
  List.Pairwise.orderedInsert a q hq

theorem pairwise_heapify (l : List α) : (heapify r l).Pairwise r := List.pairwise_insertionSort r l

end CoreFlow.Heapq
