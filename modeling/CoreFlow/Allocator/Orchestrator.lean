import CoreFlow.Lib.Dict
import CoreFlow.Lib.Heapq
import Mathlib.Algebra.Order.Field.Rat
import Mathlib.Data.Prod.Lex

/-!
# The instance orchestrator

`InstanceOrchestrator` cuts the context range into segments by a dynamic program over the throughputs of
single instances, and for every budget hands out instances to the segments one at a time. The
throughputs are exact here; `inf` is the absence of an entry in `dp`.
-/

namespace CoreFlow

/-- `(num_gpus, context_lower_bound, context_upper_bound, throughput)`. -/
structure InstanceGroup where
  numGpus : Nat
  contextLowerBound : Nat
  contextUpperBound : Nat
  throughput : ℚ
deriving DecidableEq

structure InstanceAssignment where
  throughput : ℚ := 0
  instances : List InstanceGroup := []
deriving DecidableEq

/-- A segment of a scheme: `(lo_idx, hi_idx, single_tp)`. -/
structure Segment where
  loIdx : Nat
  hiIdx : Nat
  throughput : ℚ
deriving DecidableEq

/-- `InstanceOrchestrator.__init__`; both steps are divisors. -/
structure InstanceOrchestrator where
  contextStep : Nat := 2000
  maxContextLength : Nat := 200000
  dpGpuStep : Nat := 1
  contextStep_pos : 0 < contextStep := by decide
  dpGpuStep_pos : 0 < dpGpuStep := by decide

def InstanceOrchestrator.maxContextIdx (o : InstanceOrchestrator) : Nat := o.maxContextLength / o.contextStep

/-- `instance_throughput_cache`: the throughput of one instance on `[lo_idx, hi_idx)`. -/
structure ThroughputCache (maxContextIdx : Nat) where
  items : Dict (Nat × Nat) ℚ
  bounded : ∀ key ∈ items.keys, key.1 < key.2 ∧ key.2 ≤ maxContextIdx

/-! ## `_build_partition_plans` -/

/-- `(lo_idx, 1.0 / throughput, throughput)`. -/
structure Transition where
  prevIdx : Nat
  cost : ℚ
  throughput : ℚ
deriving DecidableEq

/-- One step of the grouping by `hi_idx`. -/
def addTransition (transitions : Dict Nat (List Transition)) (item : (Nat × Nat) × ℚ) :
    Dict Nat (List Transition) :=
  if item.2 ≤ 0 then transitions
  else transitions.set item.1.2 ((transitions.get? item.1.2).getD [] ++ [⟨item.1.1, 1 / item.2, item.2⟩])

def validTransitions {maxContextIdx : Nat} (cache : ThroughputCache maxContextIdx) : Dict Nat (List Transition) :=
  cache.items.entries.foldl addTransition Dict.empty

/-- The finite entries of `dp`, and `parent`. -/
structure PartitionTables where
  dp : Dict (Nat × Nat) ℚ
  parent : Dict (Nat × Nat) (Nat × ℚ)

namespace PartitionTables

def init : PartitionTables := ⟨Dict.empty.set (0, 0) 0, Dict.empty⟩

/-- The innermost body of the program. -/
def relax (numGroups contextIdx : Nat) (tables : PartitionTables) (tr : Transition) : PartitionTables :=
  match tables.dp.get? (numGroups - 1, tr.prevIdx) with
  | none => tables
  | some prevCost =>
    let newCost := prevCost + tr.cost
    if (tables.dp.get? (numGroups, contextIdx)).all fun cost => newCost < cost then
      { dp := tables.dp.set (numGroups, contextIdx) newCost
        parent := tables.parent.set (numGroups, contextIdx) (tr.prevIdx, tr.throughput) }
    else tables

def fillCell (transitions : Dict Nat (List Transition)) (numGroups : Nat) (tables : PartitionTables)
    (contextIdx : Nat) : PartitionTables :=
  ((transitions.get? contextIdx).getD []).foldl (relax numGroups contextIdx) tables

def fillRow (transitions : Dict Nat (List Transition)) (maxContextIdx : Nat) (tables : PartitionTables)
    (numGroups : Nat) : PartitionTables :=
  (List.range' 1 maxContextIdx).foldl (fillCell transitions numGroups) tables

/-- The three loops. -/
def fill {maxContextIdx : Nat} (cache : ThroughputCache maxContextIdx) (maxInstanceGroup : Nat) : PartitionTables :=
  (List.range' 1 maxInstanceGroup).foldl (fillRow (validTransitions cache) maxContextIdx) init

end PartitionTables

/-- The loop of `_reconstruct_scheme`, with `scheme` in the order of the appends. -/
def stepBack (parent : Dict (Nat × Nat) (Nat × ℚ)) : Nat → Nat → List Segment → List Segment
  | 0, curContext, scheme => if curContext ≠ 0 then [] else scheme.reverse
  | curGroups + 1, curContext, scheme =>
    match parent.get? (curGroups + 1, curContext) with
    | none => []
    | some (prevContext, throughput) =>
      stepBack parent curGroups prevContext (scheme ++ [⟨prevContext, curContext, throughput⟩])

/-- `_reconstruct_scheme`. -/
def reconstructScheme (parent : Dict (Nat × Nat) (Nat × ℚ)) (numGroups contextIdx : Nat) : List Segment :=
  stepBack parent numGroups contextIdx []

/-! ## `_allocate_instances_greedily` -/

/-- The order of the tuples in the heap. -/
def slower (a b : ℚ × Nat) : Prop := toLex a ≤ toLex b

instance : DecidableRel slower := fun a b => inferInstanceAs (Decidable (toLex a ≤ toLex b))

/-- `counts` and `heap`. -/
structure Counters where
  counts : List Nat
  heap : List (ℚ × Nat)

/-- The body of the loop; `none` is an `IndexError`. -/
def Counters.improve (scheme : List Segment) (c : Counters) : Option Counters :=
  match c.heap with
  | [] => none
  | (_, idx) :: heap => do
    let count ← c.counts[idx]?
    let segment ← scheme[idx]?
    some { counts := c.counts.set idx (count + 1)
           heap := Heapq.heappush slower (((count + 1 : Nat) : ℚ) * segment.throughput, idx) heap }

def Counters.improveTimes (scheme : List Segment) : Nat → Counters → Option Counters
  | 0, c => some c
  | n + 1, c => (c.improve scheme).bind (improveTimes scheme n)

def Counters.init (scheme : List Segment) : Counters where
  counts := List.replicate scheme.length 1
  heap := Heapq.heapify slower (scheme.zipIdx.map fun e => (e.1.throughput, e.2))

/-- The throughputs of the segments, each with its count of instances. -/
def segmentThroughputs (counts : List Nat) (scheme : List Segment) : List ℚ :=
  List.zipWith (fun (count : Nat) (segment : Segment) => (count : ℚ) * segment.throughput) counts scheme

namespace InstanceOrchestrator
variable (o : InstanceOrchestrator)

/-- `_allocate_instances_greedily`. -/
def allocateInstancesGreedily (scheme : List Segment) (totalNumGpus gpuStep : Nat) : Option InstanceAssignment :=
  let totalInstances := totalNumGpus / gpuStep
  if totalInstances < scheme.length then some {}
  else do
    let c ← (Counters.init scheme).improveTimes scheme (totalInstances - scheme.length)
    let throughput ← (segmentThroughputs c.counts scheme).min?
    some { throughput
           instances := List.zipWith (fun count segment =>
             ⟨count * gpuStep, segment.loIdx * o.contextStep, segment.hiIdx * o.contextStep, segment.throughput⟩)
             c.counts scheme }

/-! ## `solve` -/

/-- `_build_partition_plans`. -/
def buildPartitionPlans (cache : ThroughputCache o.maxContextIdx) (maxInstanceGroup : Nat) : Dict Nat (List Segment) :=
  let tables := PartitionTables.fill cache maxInstanceGroup
  (List.range' 1 maxInstanceGroup).foldl (fun plans numGroups =>
    if (tables.dp.get? (numGroups, o.maxContextIdx)).isNone then plans
    else
      let scheme := reconstructScheme tables.parent numGroups o.maxContextIdx
      if scheme = [] then plans else plans.set numGroups scheme) Dict.empty

/-- The body of the loop over `num_groups`. -/
def consider (plans : Dict Nat (List Segment)) (numGpus : Nat) (best : InstanceAssignment) (numGroups : Nat) :
    Option InstanceAssignment :=
  if numGpus / o.dpGpuStep < numGroups then some best
  else
    let scheme := (plans.get? numGroups).getD []
    if scheme = [] then some best
    else do
      let assignment ← o.allocateInstancesGreedily scheme numGpus o.dpGpuStep
      some (if best.throughput < assignment.throughput then assignment else best)

def bestAssignment (plans : Dict Nat (List Segment)) (maxInstanceGroup minInstanceGroup numGpus : Nat) :
    Option InstanceAssignment :=
  (List.range' minInstanceGroup (maxInstanceGroup + 1 - minInstanceGroup)).foldlM (o.consider plans numGpus) {}

def solve (totalNumGpus : Nat) (cache : ThroughputCache o.maxContextIdx) (maxInstanceGroup minInstanceGroup : Nat) :
    Option (Dict Nat InstanceAssignment) :=
  let partitionPlans := o.buildPartitionPlans cache maxInstanceGroup
  (List.range (totalNumGpus + 1)).foldlM (fun result numGpus => do
    let best ← o.bestAssignment partitionPlans maxInstanceGroup minInstanceGroup numGpus
    some (result.set numGpus best)) Dict.empty

end InstanceOrchestrator

end CoreFlow
