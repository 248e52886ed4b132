import CoreFlow.Allocator.Plans
import CoreFlow.Lib.Greedy

/-!
# The greedy assignment of instances

The heap holds the current throughput of every segment, so that each round raises a slowest one. No
other assignment of as many instances, or fewer, has a better bottleneck.
-/

namespace CoreFlow
open Greedy (countAt countAt_eq countAt_mem countAt_set sum_countAt)

instance : Std.Total slower := ⟨fun a b => le_total (toLex a) (toLex b)⟩

instance : IsTrans (ℚ × Nat) slower := ⟨fun _ _ _ => le_trans⟩

theorem slower.fst_le {a b : ℚ × Nat} (h : slower a b) : a.1 ≤ b.1 := by
  rcases Prod.Lex.toLex_le_toLex.mp h with hlt | ⟨heq, -⟩
  · exact hlt.le
  · exact heq.le

/-- The throughput of a segment with `n` instances. -/
def segmentLevel (scheme : List Segment) (i : Fin scheme.length) (n : ℕ) : ℚ := (n : ℚ) * scheme[i].throughput

section
variable {scheme : List Segment} {counts : List Nat}

theorem segmentLevel_monotone (hpos : ∀ segment ∈ scheme, 0 < segment.throughput) (i : Fin scheme.length) :
    Monotone (segmentLevel scheme i) := fun _ _ hle =>
  mul_le_mul_of_nonneg_right (Nat.cast_le.mpr hle) (hpos _ (List.getElem_mem i.isLt)).le

theorem length_segmentThroughputs (hlen : counts.length = scheme.length) :
    (segmentThroughputs counts scheme).length = scheme.length := by
  rw [segmentThroughputs, List.length_zipWith, hlen, Nat.min_self]

theorem segmentThroughputs_getD (hlen : counts.length = scheme.length) (i : Fin scheme.length) :
    (segmentThroughputs counts scheme).getD i 0 = segmentLevel scheme i (countAt counts i) := by
  simp [segmentThroughputs, segmentLevel, countAt, hlen]

/-- A number is below the bottleneck if it is below every segment. -/
theorem le_bottleneck_iff (hlen : counts.length = scheme.length) {x y : ℚ}
    (hy : (segmentThroughputs counts scheme).min? = some y) :
    x ≤ y ↔ ∀ i, x ≤ segmentLevel scheme i (countAt counts i) := by
  rw [Greedy.le_min_iff (d := 0) (length_segmentThroughputs hlen) hy]
  exact forall_congr' fun i => by rw [segmentThroughputs_getD hlen i]

/-- Instances on every segment have a positive bottleneck. -/
theorem bottleneck_pos (hlen : counts.length = scheme.length) (hpos : ∀ segment ∈ scheme, 0 < segment.throughput)
    (hone : ∀ count ∈ counts, 1 ≤ count) {y : ℚ} (hy : (segmentThroughputs counts scheme).min? = some y) : 0 < y := by
  obtain ⟨i, rfl⟩ := Greedy.exists_getD_eq_min (d := 0) (length_segmentThroughputs hlen) hy
  rw [segmentThroughputs_getD hlen i, segmentLevel]
  exact mul_pos (Nat.cast_pos.mpr (hone _ (countAt_mem hlen i))) (hpos _ (List.getElem_mem i.isLt))

theorem exists_bottleneck (hlen : counts.length = scheme.length) (hne : scheme ≠ []) :
    ∃ x, (segmentThroughputs counts scheme).min? = some x := by
  refine Option.ne_none_iff_exists'.mp fun hnone => hne ?_
  rw [← List.length_eq_zero_iff, ← length_segmentThroughputs hlen, List.min?_eq_none_iff.mp hnone, List.length_nil]

/-! ## The heap -/

/-- The heap holds the current throughput of every segment once. -/
structure Current (scheme : List Segment) (c : Counters) : Prop where
  length : c.counts.length = scheme.length
  sorted : c.heap.Pairwise slower
  nodup : (c.heap.map Prod.snd).Nodup
  mem : ∀ x idx, (x, idx) ∈ c.heap ↔ ∃ i : Fin scheme.length, idx = i ∧
    x = segmentLevel scheme i (countAt c.counts i)

theorem init_current (scheme : List Segment) : Current scheme (Counters.init scheme) := by
  refine ⟨List.length_replicate, Heapq.pairwise_heapify _, ?_, fun x idx => ?_⟩
  · have hperm := (Heapq.heapify_perm (r := slower) (scheme.zipIdx.map fun e => (e.1.throughput, e.2))).map Prod.snd
    refine hperm.nodup_iff.mpr ?_
    have : (scheme.zipIdx.map fun e => (e.1.throughput, e.2)).map Prod.snd = List.range' 0 scheme.length := by
      rw [List.map_map]
      exact List.zipIdx_map_snd 0 scheme
    rw [this]
    exact List.nodup_range'
  · rw [Counters.init, Heapq.mem_heapify, List.mem_map]
    constructor
    · rintro ⟨⟨segment, j⟩, hin, heq⟩
      obtain ⟨hj, hsegment⟩ := List.getElem?_eq_some_iff.mp (List.mk_mem_zipIdx_iff_getElem?.mp hin)
      obtain ⟨rfl, rfl⟩ := Prod.mk.inj heq
      exact ⟨⟨j, hj⟩, rfl, by simp [segmentLevel, countAt, hj, hsegment]⟩
    · rintro ⟨i, rfl, rfl⟩
      refine ⟨(scheme[i], (i : ℕ)), ?_, by simp [segmentLevel, countAt]⟩
      exact List.mk_mem_zipIdx_iff_getElem?.mpr (by simp)

variable {c : Counters}

theorem improve_spec (h : Current scheme c) (hne : scheme ≠ []) :
    ∃ c', c.improve scheme = some c' ∧ Current scheme c' ∧
      Greedy.Raises (segmentLevel scheme) (countAt c.counts) (countAt c'.counts) := by
  obtain ⟨counts, heap⟩ := c
  obtain ⟨hlen, hsorted, hnodup, hmem⟩ := h
  dsimp only at hlen hsorted hnodup hmem
  cases heap with
  | nil =>
    have hpos : 0 < scheme.length := List.length_pos_iff.mpr hne
    exact absurd ((hmem _ 0).mpr ⟨⟨0, hpos⟩, rfl, rfl⟩) List.not_mem_nil
  | cons top heap =>
    obtain ⟨x, idx⟩ := top
    obtain ⟨i, rfl, rfl⟩ := (hmem x idx).mp List.mem_cons_self
    obtain ⟨hleast, hrest⟩ := List.pairwise_cons.mp hsorted
    rw [List.map_cons, List.nodup_cons] at hnodup
    have hcount : counts[(i : ℕ)]? = some (countAt counts i) := Greedy.getElem?_eq_countAt hlen i
    have hsegment : scheme[(i : ℕ)]? = some scheme[i] := by simp
    -- the top of the heap is a slowest segment
    have hlow : ∀ j, segmentLevel scheme i (countAt counts i) ≤ segmentLevel scheme j (countAt counts j) := by
      intro j
      rcases List.mem_cons.mp ((hmem _ j).mpr ⟨j, rfl, rfl⟩) with heq | hin
      · exact (Prod.mk.inj heq).1.ge
      · exact (hleast _ hin).fst_le
    have himprove : Counters.improve scheme ⟨counts, (segmentLevel scheme i (countAt counts i), ↑i) :: heap⟩ =
        some ⟨counts.set i (countAt counts i + 1),
          Heapq.heappush slower (segmentLevel scheme i (countAt counts i + 1), ↑i) heap⟩ := by
      simp only [Counters.improve, hcount, hsegment, Option.bind_eq_bind, Option.bind_some]
      rfl
    refine ⟨_, himprove, ?_, ?_⟩
    · have hset := countAt_set hlen i (countAt counts i + 1)
      refine ⟨by simp [hlen], Heapq.pairwise_heappush hrest, ?_, fun y j => ?_⟩
      · refine ((Heapq.heappush_perm _ heap).map Prod.snd).nodup_iff.mpr ?_
        rw [List.map_cons, List.nodup_cons]
        exact hnodup
      · rw [Heapq.mem_heappush, hset]
        constructor
        · rintro (heq | hin)
          · obtain ⟨rfl, rfl⟩ := Prod.mk.inj heq
            exact ⟨i, rfl, by rw [Function.update_self]⟩
          · obtain ⟨j, rfl, rfl⟩ := (hmem y j).mp (List.mem_cons_of_mem _ hin)
            have hji : j ≠ i := by
              rintro rfl
              exact hnodup.1 (List.mem_map.mpr ⟨_, hin, rfl⟩)
            exact ⟨j, rfl, by rw [Function.update_of_ne hji]⟩
        · rintro ⟨j, rfl, rfl⟩
          by_cases hji : j = i
          · subst hji
            left
            rw [Function.update_self]
          · right
            rw [Function.update_of_ne hji]
            refine (List.mem_cons.mp ((hmem _ j).mpr ⟨j, rfl, rfl⟩)).resolve_left fun heq => hji ?_
            exact Fin.ext (Prod.mk.inj heq).2
    · rw [countAt_set hlen i]
      exact .lowest i hlow

theorem improveTimes_spec (h : Current scheme c) (hne : scheme ≠ []) (n : Nat) :
    ∃ c', c.improveTimes scheme n = some c' ∧ Current scheme c' ∧
      Greedy.Run (segmentLevel scheme) (countAt c.counts) (countAt c'.counts) ∧
      c'.counts.sum = c.counts.sum + n := by
  induction n generalizing c with
  | zero => exact ⟨c, rfl, h, .refl, rfl⟩
  | succ n ih =>
    obtain ⟨c₁, hstep, h₁, hraise⟩ := improve_spec h hne
    obtain ⟨c', hloop, h', hrun, hsum⟩ := ih h₁
    refine ⟨c', by rw [Counters.improveTimes, hstep, Option.bind_some, hloop], h', hrun.head hraise, ?_⟩
    have hone := hraise.sum
    rw [sum_countAt h.length, sum_countAt h₁.length] at hone
    omega

/-! ## The assignment -/

/-- What the loop returns for a scheme that the budget covers. -/
structure Assigned (o : InstanceOrchestrator) (scheme : List Segment) (totalNumGpus gpuStep : Nat) (counts : List Nat)
    (assignment : InstanceAssignment) : Prop where
  length : counts.length = scheme.length
  run : Greedy.Run (segmentLevel scheme) (fun _ => 1) (countAt counts)
  total : counts.sum = totalNumGpus / gpuStep
  bottleneck : (segmentThroughputs counts scheme).min? = some assignment.throughput
  instances : assignment.instances = List.zipWith (fun count segment =>
    ⟨count * gpuStep, segment.loIdx * o.contextStep, segment.hiIdx * o.contextStep, segment.throughput⟩) counts scheme

theorem allocateInstancesGreedily_spec (o : InstanceOrchestrator) {totalNumGpus gpuStep : Nat} (hne : scheme ≠ [])
    (hN : scheme.length ≤ totalNumGpus / gpuStep) :
    ∃ counts assignment, o.allocateInstancesGreedily scheme totalNumGpus gpuStep = some assignment ∧
      Assigned o scheme totalNumGpus gpuStep counts assignment := by
  obtain ⟨c, hloop, hc, hrun, hsum⟩ :=
    improveTimes_spec (init_current scheme) hne (totalNumGpus / gpuStep - scheme.length)
  obtain ⟨x, hx⟩ := exists_bottleneck hc.length hne
  have hstart : (countAt (Counters.init scheme).counts : Fin scheme.length → ℕ) = fun _ => 1 :=
    Greedy.countAt_replicate 1
  have hinit : (Counters.init scheme).counts.sum = scheme.length := by simp [Counters.init]
  refine ⟨c.counts, ⟨x, _⟩, ?_, hc.length, hstart ▸ hrun, by omega, hx, rfl⟩
  rw [InstanceOrchestrator.allocateInstancesGreedily, if_neg (not_lt.mpr hN), hloop]
  simp only [Option.bind_eq_bind, Option.bind_some, hx]

variable {o : InstanceOrchestrator} {totalNumGpus gpuStep : Nat} {assignment : InstanceAssignment}

theorem Assigned.one_le (h : Assigned o scheme totalNumGpus gpuStep counts assignment) :
    ∀ count ∈ counts, 1 ≤ count := by
  intro count hin
  obtain ⟨i, hi, rfl⟩ := List.mem_iff_getElem.mp hin
  have hle : 1 ≤ countAt counts ⟨i, h.length ▸ hi⟩ := h.run.le _
  rwa [countAt_eq hi] at hle

theorem Assigned.map_numGpus (h : Assigned o scheme totalNumGpus gpuStep counts assignment) :
    assignment.instances.map InstanceGroup.numGpus = counts.map (· * gpuStep) := by
  rw [h.instances, List.map_zipWith]
  refine List.ext_getElem (by simp [h.length]) fun i h₁ h₂ => ?_
  simp

theorem Assigned.sum_numGpus (h : Assigned o scheme totalNumGpus gpuStep counts assignment) :
    (assignment.instances.map InstanceGroup.numGpus).sum = totalNumGpus / gpuStep * gpuStep := by
  rw [h.map_numGpus, List.sum_map_mul_right, List.map_id', h.total]

/-- No instances of no larger total have a better bottleneck. -/
theorem Assigned.reaches (h : Assigned o scheme totalNumGpus gpuStep counts assignment)
    (hpos : ∀ segment ∈ scheme, 0 < segment.throughput) {others : List Nat} {x : ℚ}
    (hlen : others.length = scheme.length) (hone : ∀ count ∈ others, 1 ≤ count)
    (hsum : others.sum ≤ totalNumGpus / gpuStep) (hx : (segmentThroughputs others scheme).min? = some x) :
    x ≤ assignment.throughput := by
  rw [le_bottleneck_iff h.length h.bottleneck]
  have hbase : (fun _ => 1 : Fin scheme.length → ℕ) ≤ countAt others := fun i => hone _ (countAt_mem hlen i)
  refine h.run.reaches (segmentLevel_monotone hpos) hbase ?_ ((le_bottleneck_iff hlen hx).mp (le_refl x))
  rw [sum_countAt hlen, sum_countAt h.length, h.total]
  exact hsum

end

namespace InstanceOrchestrator

/-- The greedy assignment is max-min optimal: it gives every segment an instance, hands out all of them,
and its throughput is that of the slowest segment, which no other counts of this total exceed. -/
theorem allocateInstancesGreedily_optimal (o : InstanceOrchestrator) {scheme : List Segment} {totalNumGpus gpuStep : Nat}
    (hpos : ∀ segment ∈ scheme, 0 < segment.throughput) (hk : 1 ≤ scheme.length)
    (hN : scheme.length ≤ totalNumGpus / gpuStep) :
    ∃ counts assignment, o.allocateInstancesGreedily scheme totalNumGpus gpuStep = some assignment ∧
      counts.length = scheme.length ∧ (∀ count ∈ counts, 1 ≤ count) ∧ counts.sum = totalNumGpus / gpuStep ∧
      assignment.instances.map InstanceGroup.numGpus = counts.map (· * gpuStep) ∧
      (assignment.instances.map InstanceGroup.numGpus).sum = totalNumGpus / gpuStep * gpuStep ∧
      (segmentThroughputs counts scheme).min? = some assignment.throughput ∧
      ∀ others x, others.length = scheme.length → (∀ count ∈ others, 1 ≤ count) →
        others.sum = totalNumGpus / gpuStep → (segmentThroughputs others scheme).min? = some x →
        x ≤ assignment.throughput := by
  obtain ⟨counts, assignment, hrun, h⟩ := allocateInstancesGreedily_spec o (List.length_pos_iff.mp hk) hN
  refine ⟨counts, assignment, hrun, h.length, h.one_le, h.total, h.map_numGpus, h.sum_numGpus, h.bottleneck, ?_⟩
  intro others x hlen hone hsum hx
  exact h.reaches hpos hlen hone hsum.le hx

theorem allocateInstancesGreedily_optimal_two :
    ∃ assignment, InstanceOrchestrator.allocateInstancesGreedily {} [⟨0, 1, 5⟩, ⟨1, 3, 2⟩] 4 1 = some assignment ∧
      ∀ x, (segmentThroughputs [2, 2] [⟨0, 1, 5⟩, ⟨1, 3, 2⟩]).min? = some x → x ≤ assignment.throughput := by
  have hpos : ∀ segment ∈ ([⟨0, 1, 5⟩, ⟨1, 3, 2⟩] : List Segment), 0 < segment.throughput := by simp
  have hN : ([⟨0, 1, 5⟩, ⟨1, 3, 2⟩] : List Segment).length ≤ 4 / 1 := by decide
  obtain ⟨_, assignment, hrun, -, -, -, -, -, -, hbest⟩ := allocateInstancesGreedily_optimal {} hpos (by decide) hN
  exact ⟨assignment, hrun, fun x hx => hbest [2, 2] x rfl (by decide) rfl hx⟩

end InstanceOrchestrator

end CoreFlow
