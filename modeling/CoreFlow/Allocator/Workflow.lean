import CoreFlow.Allocator.RangeStats
import CoreFlow.Allocator.Solve

/-!
# The split of the GPUs over the agents

`WorkflowAllocator.allocate` starts with one instance for every agent and gives one more to the agent
whose normalized throughput is lowest, until the GPUs are used up. The curves of the agents come from
`AgentAllocator.allocate`, a parameter here: it returns what `solve` does for some cache.
-/

namespace CoreFlow
open Greedy (countAt)

/-! ## `RequestAnalyzer.avg_num_invocations` -/

/-- `record["node_id"].split(":")[0]`. -/
def TraceNode.nid (node : TraceNode) : String := String.ofList ((node.nodeId.toList.splitOn ':').headD [])

/-- The number of unique node ids of an agent in a trace. -/
def numInvocations (agent : String) (traceNodes : List TraceNode) : Nat :=
  ((traceNodes.filter fun record => record.agentName = agent).map TraceNode.nid).dedup.length

/-- The mean over the traces. Over none at all, `np.mean` is not a number, and not positive here. -/
def avgInvocations (nodeList : NodeList) (agent : String) : ℚ :=
  ((nodeList.entries.map fun trace => numInvocations agent trace.2).sum : ℚ) / nodeList.size

def avgNumInvocations (nodeList : NodeList) (agents : List String) : Dict String ℚ :=
  Dict.ofPairs (agents.map fun agent => (agent, avgInvocations nodeList agent))

/-! ## `WorkflowAllocator` -/

structure WorkflowAllocation where
  gpuAllocation : Dict String Nat := Dict.empty
  agentThroughput : Dict String ℚ := Dict.empty
  dpResults : Dict String (Dict Nat InstanceAssignment) := Dict.empty
  minThroughput : ℚ := 0
  agentInvocations : Dict String ℚ := Dict.empty
  iterations : Nat := 0

/-- `_normalized_throughputs`; `none` is a `KeyError` or an `IndexError`. -/
def normalizedThroughputs (agents : List String) (gpus : List Nat) (dpResults : Dict String (Dict Nat InstanceAssignment))
    (agentInvocations : Dict String ℚ) : Option (List ℚ) :=
  agents.zipIdx.mapM fun e => do
    let invocations := (agentInvocations.get? e.1).getD 0
    if invocations ≤ 0 then some 0
    else
      let results ← dpResults.get? e.1
      let num ← gpus[e.2]?
      let assignment ← results.get? num
      some (assignment.throughput / invocations)

/-- `min(range(len(agents)), key=lambda idx: (throughputs[idx], agents[idx]))`. -/
def bottleneckIdx (agents : List String) (throughputs : List ℚ) : Option Nat :=
  (List.range agents.length).argmin fun idx => toLex (throughputs.getD idx 0, agents.getD idx "")

/-- The `while` loop, cut off after `fuel` tests of its condition; the result holds `gpus` and `iterations`. -/
def giveInstances (agents : List String) (G totalNumGpus : Nat) (dpResults : Dict String (Dict Nat InstanceAssignment))
    (agentInvocations : Dict String ℚ) : Nat → List Nat → Nat → Nat → Option (List Nat × Nat)
  | 0, _, _, _ => none
  | fuel + 1, gpus, allocatedGpus, iterations =>
    if allocatedGpus < totalNumGpus then do
      let throughputs ← normalizedThroughputs agents gpus dpResults agentInvocations
      let idx ← bottleneckIdx agents throughputs
      let num ← gpus[idx]?
      giveInstances agents G totalNumGpus dpResults agentInvocations fuel (gpus.set idx (num + G)) (allocatedGpus + G)
        (iterations + 1)
    else some (gpus, iterations)

/-- `WorkflowAllocator.allocate`; `none` is an exception, or a loop that outlasts `fuel`. -/
def WorkflowAllocator.allocate (nodeList : NodeList) (agentAllocate : String → Nat → Dict Nat InstanceAssignment)
    (fuel : Nat) (agents : List String) (totalNumGpus dpGpuStep : Nat) : Option WorkflowAllocation :=
  let G := dpGpuStep
  if agents = [] then some {}
  else if G ≤ 0 then none
  else if totalNumGpus % G ≠ 0 then none
  else if totalNumGpus < agents.length * G then none
  else do
    let agentInvocations := avgNumInvocations nodeList agents
    let dpResults := Dict.ofPairs (agents.map fun agent => (agent, agentAllocate agent totalNumGpus))
    let (gpus, iterations) ← giveInstances agents G totalNumGpus dpResults agentInvocations fuel
      (List.replicate agents.length G) (agents.length * G) 0
    let throughputs ← normalizedThroughputs agents gpus dpResults agentInvocations
    let finalThroughputs := Dict.ofPairs (agents.zip throughputs)
    let minThroughput ← (finalThroughputs.entries.map Prod.snd).min?
    some { gpuAllocation := Dict.ofPairs (agents.zip gpus)
           agentThroughput := finalThroughputs
           dpResults, minThroughput, agentInvocations, iterations }

/-! ## The curves -/

/-- A curve that has all budgets up to `total` and does not decrease. -/
structure MonotoneCurve (results : Dict Nat InstanceAssignment) (total : Nat) : Prop where
  covers : ∀ n ≤ total, n ∈ results
  mono : ∀ n n' a a', n ≤ n' → results.get? n = some a → results.get? n' = some a' → a.throughput ≤ a'.throughput

/-- What `solve` returns is such a curve. -/
theorem solve_monotoneCurve (o : InstanceOrchestrator) (cache : ThroughputCache o.maxContextIdx)
    (total maxInstanceGroup minInstanceGroup : Nat) :
    ∃ result, o.solve total cache maxInstanceGroup minInstanceGroup = some result ∧ MonotoneCurve result total := by
  obtain ⟨result, hrun, hmem, hbest⟩ := solve_spec cache total maxInstanceGroup minInstanceGroup
  refine ⟨result, hrun, fun n hn => (hmem n).mpr hn, fun n n' a a' hle hget hget' => ?_⟩
  exact (hbest n a hget).mono (hbest n' a' hget') hle

/-- `curve(gpus) / invocations`. -/
def normalized (nodeList : NodeList) (agentAllocate : String → Nat → Dict Nat InstanceAssignment) (totalNumGpus : Nat)
    (agent : String) (gpus : Nat) : ℚ :=
  (((agentAllocate agent totalNumGpus).get? gpus).elim 0 InstanceAssignment.throughput) / avgInvocations nodeList agent

/-- The inputs of `allocate` that the split is about. -/
structure Splittable (nodeList : NodeList) (agentAllocate : String → Nat → Dict Nat InstanceAssignment)
    (agents : List String) (totalNumGpus G : Nat) : Prop where
  nodup : agents.Nodup
  invoked : ∀ agent ∈ agents, 0 < avgInvocations nodeList agent
  step_pos : 1 ≤ G
  divides : G ∣ totalNumGpus
  covered : agents.length * G ≤ totalNumGpus
  curves : ∀ agent ∈ agents, MonotoneCurve (agentAllocate agent totalNumGpus) totalNumGpus

section
variable {nodeList : NodeList} {agentAllocate : String → Nat → Dict Nat InstanceAssignment} {agents : List String}
  {totalNumGpus G : Nat}

/-- The level of an agent with `n` instances; beyond the budget it stays what it is there. -/
def agentLevel (nodeList : NodeList) (agentAllocate : String → Nat → Dict Nat InstanceAssignment)
    (agents : List String) (totalNumGpus G : Nat) (i : Fin agents.length) (n : ℕ) : ℚ :=
  normalized nodeList agentAllocate totalNumGpus agents[i] (min (n * G) totalNumGpus)

theorem normalized_mono (h : Splittable nodeList agentAllocate agents totalNumGpus G) {agent : String} (hin : agent ∈ agents)
    {m n : Nat} (hle : m ≤ n) (hn : n ≤ totalNumGpus) :
    normalized nodeList agentAllocate totalNumGpus agent m ≤ normalized nodeList agentAllocate totalNumGpus agent n := by
  have curve := h.curves agent hin
  obtain ⟨a, ha⟩ := Dict.mem_iff.mp (curve.covers m (hle.trans hn))
  obtain ⟨b, hb⟩ := Dict.mem_iff.mp (curve.covers n hn)
  rw [normalized, normalized, ha, hb]
  exact div_le_div_of_nonneg_right (curve.mono m n a b hle ha hb) (h.invoked agent hin).le

theorem agentLevel_monotone (h : Splittable nodeList agentAllocate agents totalNumGpus G) (i : Fin agents.length) :
    Monotone (agentLevel nodeList agentAllocate agents totalNumGpus G i) := fun _ _ hle =>
  normalized_mono h (List.getElem_mem i.isLt) (min_le_min_right _ (Nat.mul_le_mul_right G hle)) (min_le_right _ _)

theorem get?_ofPairs_map {ν : Type} (h : agents.Nodup) (f : String → ν) {agent : String} (hin : agent ∈ agents) :
    (Dict.ofPairs (agents.map fun agent => (agent, f agent))).get? agent = some (f agent) := by
  rw [Dict.get?_iff_mem_entries, Dict.entries_ofPairs (by simpa [Function.comp_def] using h)]
  exact List.mem_map.mpr ⟨agent, hin, rfl⟩

theorem mapM_eq_some_map {α β : Type} {f : α → Option β} {g : α → β} {l : List α} (h : ∀ a ∈ l, f a = some (g a)) :
    l.mapM f = some (l.map g) := by
  induction l with
  | nil => rfl
  | cons a l ih =>
    rw [List.mapM_cons, h a List.mem_cons_self, ih fun b hb => h b (List.mem_cons_of_mem a hb)]
    rfl

/-- The throughputs of the agents, given their GPUs. -/
def splitThroughputs (nodeList : NodeList) (agentAllocate : String → Nat → Dict Nat InstanceAssignment)
    (totalNumGpus : Nat) (agents : List String) (gpus : List Nat) : List ℚ :=
  List.zipWith (normalized nodeList agentAllocate totalNumGpus) agents gpus

theorem normalizedThroughputs_eq (h : Splittable nodeList agentAllocate agents totalNumGpus G) (gpus : List Nat)
    (hlen : gpus.length = agents.length) (hle : ∀ g ∈ gpus, g ≤ totalNumGpus) :
    normalizedThroughputs agents gpus (Dict.ofPairs (agents.map fun agent => (agent, agentAllocate agent totalNumGpus)))
      (avgNumInvocations nodeList agents) = some (splitThroughputs nodeList agentAllocate totalNumGpus agents gpus) := by
  have hmap : splitThroughputs nodeList agentAllocate totalNumGpus agents gpus =
      agents.zipIdx.map fun e => normalized nodeList agentAllocate totalNumGpus e.1 (gpus.getD e.2 0) := by
    refine List.ext_getElem (by simp [splitThroughputs, hlen]) fun i h₁ h₂ => ?_
    have hi : i < gpus.length := by
      simp [splitThroughputs] at h₁
      exact h₁.2
    simp [splitThroughputs, hi]
  rw [normalizedThroughputs, hmap]
  refine mapM_eq_some_map fun e he => ?_
  obtain ⟨agent, idx⟩ := e
  obtain ⟨hidx, hagent⟩ := List.getElem?_eq_some_iff.mp (List.mk_mem_zipIdx_iff_getElem?.mp he)
  have hin : agent ∈ agents := hagent ▸ List.getElem_mem hidx
  have hgpus : gpus[idx]? = some (gpus.getD idx 0) := by simp [hlen, hidx]
  have hmem : gpus.getD idx 0 ∈ gpus := List.mem_of_getElem? hgpus
  obtain ⟨a, ha⟩ := Dict.mem_iff.mp ((h.curves agent hin).covers _ (hle _ hmem))
  rw [avgNumInvocations, get?_ofPairs_map h.nodup _ hin, get?_ofPairs_map h.nodup _ hin]
  dsimp only [Option.getD_some]
  rw [if_neg (not_le.mpr (h.invoked agent hin)), hgpus]
  simp only [Option.bind_eq_bind, Option.bind_some, ha, normalized, Option.elim_some]

theorem bottleneckIdx_spec (hne : agents ≠ []) (throughputs : List ℚ) :
    ∃ i : Fin agents.length, bottleneckIdx agents throughputs = some (i : ℕ) ∧
      ∀ j : Fin agents.length, throughputs.getD i 0 ≤ throughputs.getD j 0 := by
  have hrange : List.range agents.length ≠ [] := by simpa using hne
  cases hidx : bottleneckIdx agents throughputs with
  | none => exact absurd (List.argmin_eq_none.mp hidx) hrange
  | some idx =>
    have hlt : idx < agents.length := List.mem_range.mp (List.argmin_mem hidx)
    refine ⟨⟨idx, hlt⟩, rfl, fun j => ?_⟩
    have hle := List.le_of_mem_argmin (List.mem_range.mpr j.isLt) hidx
    rcases Prod.Lex.toLex_le_toLex.mp hle with hfst | ⟨hfst, -⟩
    · exact hfst.le
    · exact hfst.le

/-- As long as the counts are within the budget, the throughputs are the levels. -/
theorem splitThroughputs_getD {counts : List Nat} (hlen : counts.length = agents.length)
    (hle : ∀ count ∈ counts, count * G ≤ totalNumGpus) (i : Fin agents.length) :
    (splitThroughputs nodeList agentAllocate totalNumGpus agents (counts.map (· * G))).getD i 0 =
      agentLevel nodeList agentAllocate agents totalNumGpus G i (countAt counts i) := by
  have hi : (i : ℕ) < counts.length := by
    rw [hlen]
    exact i.isLt
  have hcount := hle _ (Greedy.countAt_mem hlen i)
  rw [agentLevel, min_eq_left hcount, Greedy.countAt_eq hi]
  simp [splitThroughputs, hi]

/-- The loop hands out the rest of the budget by greedy steps. -/
theorem giveInstances_spec (h : Splittable nodeList agentAllocate agents totalNumGpus G) (hne : agents ≠ []) (r : ℕ)
    {counts : List Nat} (hlen : counts.length = agents.length) (htotal : (counts.sum + r) * G = totalNumGpus)
    {fuel : ℕ} (hfuel : r < fuel) (iterations : Nat) :
    ∃ counts', giveInstances agents G totalNumGpus
        (Dict.ofPairs (agents.map fun agent => (agent, agentAllocate agent totalNumGpus)))
        (avgNumInvocations nodeList agents) fuel (counts.map (· * G)) (counts.sum * G) iterations =
        some (counts'.map (· * G), iterations + r) ∧ counts'.length = agents.length ∧ counts'.sum = counts.sum + r ∧
      Greedy.Run (agentLevel nodeList agentAllocate agents totalNumGpus G) (countAt counts) (countAt counts') := by
  induction r generalizing counts fuel iterations with
  | zero =>
    obtain ⟨fuel, rfl⟩ := Nat.exists_eq_add_of_lt hfuel
    refine ⟨counts, ?_, hlen, rfl, .refl⟩
    rw [Nat.zero_add, giveInstances, if_neg (by rw [← htotal]; simp)]
    rfl
  | succ r ih =>
    obtain ⟨fuel, rfl⟩ : ∃ f, fuel = f + 1 := ⟨fuel - 1, by omega⟩
    have hmore : counts.sum * G < totalNumGpus := by
      rw [← htotal]
      exact (Nat.mul_lt_mul_right h.step_pos).mpr (by omega)
    have hle : ∀ count ∈ counts, count * G ≤ totalNumGpus := fun count hin =>
      (Nat.mul_le_mul_right G (List.le_sum_of_mem hin)).trans hmore.le
    have hthroughputs := normalizedThroughputs_eq h (counts.map (· * G)) (by simpa using hlen) (by simpa using hle)
    obtain ⟨i, hidx, hlow⟩ :=
      bottleneckIdx_spec hne (splitThroughputs nodeList agentAllocate totalNumGpus agents (counts.map (· * G)))
    have hcount : (counts.map (· * G))[(i : ℕ)]? = some (countAt counts i * G) := by
      rw [List.getElem?_map, Greedy.getElem?_eq_countAt hlen i]
      rfl
    have hset : (counts.map (· * G)).set i (countAt counts i * G + G) =
        (counts.set i (countAt counts i + 1)).map (· * G) := by
      rw [List.map_set, Nat.add_mul, Nat.one_mul]
    have hraise : Greedy.Raises (agentLevel nodeList agentAllocate agents totalNumGpus G) (countAt counts)
        (countAt (counts.set i (countAt counts i + 1))) := by
      rw [Greedy.countAt_set hlen]
      refine .lowest i fun j => ?_
      rw [← splitThroughputs_getD hlen hle i, ← splitThroughputs_getD hlen hle j]
      exact hlow j
    have hlen' : (counts.set i (countAt counts i + 1)).length = agents.length := by simpa using hlen
    have hsum : (counts.set i (countAt counts i + 1)).sum = counts.sum + 1 := by
      rw [← Greedy.sum_countAt hlen', ← Greedy.sum_countAt hlen]
      exact hraise.sum
    obtain ⟨counts', hloop, hlen₂, hsum₂, hrun⟩ := ih hlen' (by rw [hsum, ← htotal]; ring)
      (Nat.lt_of_succ_lt_succ hfuel) (iterations + 1)
    refine ⟨counts', ?_, hlen₂, by omega, hrun.head hraise⟩
    rw [giveInstances, if_pos hmore, hthroughputs]
    simp only [Option.bind_eq_bind, Option.bind_some, hidx, hcount, hset]
    rw [hsum, Nat.add_mul, Nat.one_mul] at hloop
    rw [hloop]
    congr 2
    omega

theorem length_splitThroughputs {gpus : List Nat} (hlen : gpus.length = agents.length) :
    (splitThroughputs nodeList agentAllocate totalNumGpus agents gpus).length = agents.length := by
  rw [splitThroughputs, List.length_zipWith, hlen, Nat.min_self]

/-- A split of the GPUs into positive multiples of the step. -/
structure IsSplit (agents : List String) (totalNumGpus G : Nat) (gpus : List Nat) : Prop where
  length : gpus.length = agents.length
  multiples : ∀ g ∈ gpus, 0 < g ∧ G ∣ g
  total : gpus.sum = totalNumGpus

theorem exists_counts {gpus : List Nat} (h : ∀ g ∈ gpus, 0 < g ∧ G ∣ g) :
    ∃ counts : List Nat, gpus = counts.map (· * G) ∧ ∀ count ∈ counts, 1 ≤ count := by
  induction gpus with
  | nil => exact ⟨[], rfl, fun _ hin => absurd hin List.not_mem_nil⟩
  | cons g gpus ih =>
    obtain ⟨counts, rfl, hone⟩ := ih fun g hg => h g (List.mem_cons_of_mem _ hg)
    obtain ⟨hpos, count, rfl⟩ := h g List.mem_cons_self
    refine ⟨count :: counts, by rw [List.map_cons, Nat.mul_comm G count], fun n hn => ?_⟩
    rcases List.mem_cons.mp hn with rfl | hn
    · exact Nat.pos_of_mul_pos_left hpos
    · exact hone n hn

theorem sum_map_mul (counts : List Nat) (G : Nat) : (counts.map (· * G)).sum = counts.sum * G := by
  rw [List.sum_map_mul_right, List.map_id']

/-- No split beats counts that a greedy run leads to. -/
theorem le_of_run (h : Splittable nodeList agentAllocate agents totalNumGpus G) {counts : List Nat}
    (hlen : counts.length = agents.length) (htotal : counts.sum * G = totalNumGpus)
    (hrun : Greedy.Run (agentLevel nodeList agentAllocate agents totalNumGpus G) (fun _ => 1) (countAt counts))
    {others : List Nat} (hothers : IsSplit agents totalNumGpus G others) {x y : ℚ}
    (hx : (splitThroughputs nodeList agentAllocate totalNumGpus agents others).min? = some x)
    (hy : (splitThroughputs nodeList agentAllocate totalNumGpus agents (counts.map (· * G))).min? = some y) : x ≤ y := by
  have within : ∀ ns : List Nat, ns.sum * G = totalNumGpus → ∀ n ∈ ns, n * G ≤ totalNumGpus := by
    intro ns hns n hin
    rw [← hns]
    exact Nat.mul_le_mul_right G (List.le_sum_of_mem hin)
  obtain ⟨counts', rfl, hone⟩ := exists_counts hothers.multiples
  have hlen' : counts'.length = agents.length := by simpa using hothers.length
  have htotal' : counts'.sum * G = totalNumGpus := (sum_map_mul counts' G).symm.trans hothers.total
  rw [Greedy.le_min_iff (d := 0) (length_splitThroughputs (by simpa using hlen)) hy]
  intro i
  rw [splitThroughputs_getD hlen (within counts htotal)]
  have hbase : (fun _ => 1 : Fin agents.length → ℕ) ≤ countAt counts' := fun j => hone _ (Greedy.countAt_mem hlen' j)
  refine hrun.reaches (agentLevel_monotone h) hbase ?_ (fun j => ?_) i
  · rw [Greedy.sum_countAt hlen', Greedy.sum_countAt hlen]
    exact (Nat.eq_of_mul_eq_mul_right h.step_pos (htotal'.trans htotal.symm)).le
  · rw [← splitThroughputs_getD hlen' (within counts' htotal')]
    exact (Greedy.le_min_iff (length_splitThroughputs hothers.length) hx).mp (le_refl x) j

theorem isSplit_of_run (hG : 1 ≤ G) {counts : List Nat} (hlen : counts.length = agents.length)
    (htotal : counts.sum * G = totalNumGpus) {level : Fin agents.length → ℕ → ℚ}
    (hrun : Greedy.Run level (fun _ => 1) (countAt counts)) : IsSplit agents totalNumGpus G (counts.map (· * G)) := by
  refine ⟨by simpa using hlen, fun g hg => ?_, by rw [sum_map_mul, htotal]⟩
  obtain ⟨count, hin, rfl⟩ := List.mem_map.mp hg
  obtain ⟨i, hi, rfl⟩ := List.mem_iff_getElem.mp hin
  have hone : 1 ≤ countAt counts ⟨i, hlen ▸ hi⟩ := hrun.le _
  rw [Greedy.countAt_eq hi] at hone
  exact ⟨Nat.mul_pos hone hG, Nat.dvd_mul_left ..⟩

/-- The loop ends with a split, whose least throughput is the largest of all splits. -/
theorem allocate_spec (h : Splittable nodeList agentAllocate agents totalNumGpus G) (hne : agents ≠ [])
    {fuel : ℕ} (hfuel : totalNumGpus / G < fuel) :
    ∃ allocation gpus, WorkflowAllocator.allocate nodeList agentAllocate fuel agents totalNumGpus G = some allocation ∧
      allocation.gpuAllocation.entries = agents.zip gpus ∧ IsSplit agents totalNumGpus G gpus ∧
      (splitThroughputs nodeList agentAllocate totalNumGpus agents gpus).min? = some allocation.minThroughput ∧
      ∀ others x, IsSplit agents totalNumGpus G others →
        (splitThroughputs nodeList agentAllocate totalNumGpus agents others).min? = some x →
        x ≤ allocation.minThroughput := by
  obtain ⟨N, rfl⟩ : ∃ N, totalNumGpus = N * G := ⟨_, (Nat.div_mul_cancel h.divides).symm⟩
  have hN : agents.length ≤ N := Nat.le_of_mul_le_mul_right h.covered h.step_pos
  rw [Nat.mul_div_cancel _ h.step_pos] at hfuel
  have hstart : (List.replicate agents.length 1).map (· * G) = List.replicate agents.length G := by simp
  have hsum : (List.replicate agents.length 1).sum = agents.length := by simp
  have hlength : (List.replicate agents.length 1).length = agents.length := List.length_replicate
  obtain ⟨counts, hloop, hlen, htotal, hrun⟩ := giveInstances_spec h hne (N - agents.length) hlength
    (by rw [hsum, Nat.add_sub_cancel' hN]) (by omega : N - agents.length < fuel) 0
  rw [hsum] at hloop htotal
  rw [hstart] at hloop
  rw [Nat.add_sub_cancel' hN] at htotal
  rw [Greedy.countAt_replicate] at hrun
  have hlen' : (counts.map (· * G)).length = agents.length := by simpa using hlen
  have hsplit : IsSplit agents (N * G) G (counts.map (· * G)) := isSplit_of_run h.step_pos hlen (by rw [htotal]) hrun
  have hle : ∀ g ∈ counts.map (· * G), g ≤ N * G := by
    intro g hg
    rw [← hsplit.total]
    exact List.le_sum_of_mem hg
  have hthroughputs := normalizedThroughputs_eq h (counts.map (· * G)) hlen' hle
  have hzip : ∀ {ν : Type} (vs : List ν), vs.length = agents.length →
      (Dict.ofPairs (agents.zip vs)).entries = agents.zip vs := fun vs hvs =>
    Dict.entries_ofPairs (by rw [List.map_fst_zip hvs.ge]; exact h.nodup)
  have hvalues : ((agents.zip (splitThroughputs nodeList agentAllocate (N * G) agents (counts.map (· * G)))).map Prod.snd) =
      splitThroughputs nodeList agentAllocate (N * G) agents (counts.map (· * G)) :=
    List.map_snd_zip (length_splitThroughputs hlen').le
  obtain ⟨y, hy⟩ : ∃ y, (splitThroughputs nodeList agentAllocate (N * G) agents (counts.map (· * G))).min? = some y := by
    refine Option.ne_none_iff_exists'.mp fun hnone => hne ?_
    rw [← List.length_eq_zero_iff, ← length_splitThroughputs hlen', List.min?_eq_none_iff.mp hnone, List.length_nil]
  refine ⟨{ gpuAllocation := Dict.ofPairs (agents.zip (counts.map (· * G)))
            agentThroughput := Dict.ofPairs (agents.zip
              (splitThroughputs nodeList agentAllocate (N * G) agents (counts.map (· * G))))
            dpResults := Dict.ofPairs (agents.map fun agent => (agent, agentAllocate agent (N * G)))
            minThroughput := y
            agentInvocations := avgNumInvocations nodeList agents
            iterations := 0 + (N - agents.length) },
    counts.map (· * G), ?_, hzip _ hlen', hsplit, hy, fun others x hothers hx => ?_⟩
  · rw [WorkflowAllocator.allocate]
    dsimp only
    rw [if_neg hne, if_neg (not_le.mpr h.step_pos), if_neg (by simp), if_neg (not_lt.mpr h.covered), hloop]
    simp only [Option.bind_eq_bind, Option.bind_some, hthroughputs, hzip _ (length_splitThroughputs hlen'), hvalues, hy]
  · exact le_of_run h hlen (by rw [htotal]) hrun hothers hx hy

end

namespace WorkflowAllocator
open InstanceOrchestrator (threeSteps unevenCache)

/-- The split of the GPUs over a non-empty list of agents is max-min optimal, and reached by a bounded
number of rounds. -/
theorem allocate_optimal {nodeList : NodeList} {agentAllocate : String → Nat → Dict Nat InstanceAssignment}
    {agents : List String} {totalNumGpus G : Nat} (hne : agents ≠ [])
    (h : Splittable nodeList agentAllocate agents totalNumGpus G) :
    ∃ rounds, ∀ fuel > rounds, ∃ allocation gpus,
      allocate nodeList agentAllocate fuel agents totalNumGpus G = some allocation ∧
      allocation.gpuAllocation.entries = agents.zip gpus ∧ IsSplit agents totalNumGpus G gpus ∧
      (splitThroughputs nodeList agentAllocate totalNumGpus agents gpus).min? = some allocation.minThroughput ∧
      ∀ others x, IsSplit agents totalNumGpus G others →
        (splitThroughputs nodeList agentAllocate totalNumGpus agents others).min? = some x →
        x ≤ allocation.minThroughput :=
  ⟨totalNumGpus / G, fun _ hfuel => allocate_spec h hne hfuel⟩

/-- Two agents with one call each, on the same curve. -/
theorem allocate_optimal_two : ∃ rounds, ∀ fuel > rounds, ∃ allocation,
    allocate ⟨[("trace", [⟨"planner", "n1:0", .number 1, .number 1, .number 0⟩,
        ⟨"writer", "n2:0", .number 1, .number 1, .number 0⟩])], by decide⟩
      (fun _ total => (threeSteps.solve total unevenCache 2 1).getD Dict.empty) fuel ["planner", "writer"] 5 1 =
      some allocation := by
  have h : Splittable ⟨[("trace", [⟨"planner", "n1:0", .number 1, .number 1, .number 0⟩,
        ⟨"writer", "n2:0", .number 1, .number 1, .number 0⟩])], by decide⟩
      (fun _ total => (threeSteps.solve total unevenCache 2 1).getD Dict.empty) ["planner", "writer"] 5 1 := by
    refine ⟨by decide, by decide +kernel, by decide, by decide, by decide, fun agent _ => ?_⟩
    obtain ⟨result, hrun, hcurve⟩ := solve_monotoneCurve threeSteps unevenCache 5 2 1
    show MonotoneCurve ((threeSteps.solve 5 unevenCache 2 1).getD Dict.empty) 5
    rw [hrun]
    exact hcurve
  obtain ⟨rounds, hrounds⟩ := allocate_optimal (by decide) h
  refine ⟨rounds, fun fuel hfuel => ?_⟩
  obtain ⟨allocation, gpus, hrun, -⟩ := hrounds fuel hfuel
  exact ⟨allocation, hrun⟩

/-- Without agents nothing is allocated, whatever the budget. -/
theorem allocate_no_agents : Splittable Dict.empty (fun _ _ => Dict.empty) [] 4 1 ∧
    ∃ allocation, allocate Dict.empty (fun _ _ => Dict.empty) 1 [] 4 1 = some allocation ∧
      (allocation.gpuAllocation.entries.map Prod.snd).sum ≠ 4 := by
  refine ⟨⟨by decide, by simp, by decide, by decide, by decide, by simp⟩, {}, rfl, ?_⟩
  decide

end WorkflowAllocator

end CoreFlow
