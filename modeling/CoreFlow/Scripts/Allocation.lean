import CoreFlow.Allocator.Workflow
import CoreFlow.Controller.Registry

/-!
# The allocation file

`allocate.py` writes the result of the workflow allocator to `allocation.json`. The controller reads it to
register a stub for each instance, and `start_instances_from_allocation.py` reads it to start the instances,
each on the next devices of `CUDA_VISIBLE_DEVICES` and the next port. A started instance registers over its
stub.
-/

namespace CoreFlow

/-- A group of instances in `allocation.json`; a count that is missing has a default. -/
structure GroupRecord where
  gpus : Nat
  gpusPerInstance : Option Nat
  numInstances : Option Nat
  contextLower : Int
  contextUpper : Int
  throughput : ℚ
deriving DecidableEq

structure AgentRecord where
  gpus : Nat
  throughput : ℚ
  invocations : ℚ
  instances : List GroupRecord
deriving DecidableEq

/-- `allocation.json`, with the entry of `config` that its readers use. -/
structure AllocationFile where
  gpusPerInstance : Option Nat
  allocation : Dict AgentId AgentRecord
  minThroughput : ℚ
  iterations : Nat
deriving DecidableEq

/-! ## Writing -/

namespace WorkflowAllocation

def groupRecord (gpusPerInstance : Nat) (group : InstanceGroup) : GroupRecord where
  gpus := group.numGpus
  gpusPerInstance := some gpusPerInstance
  numInstances := some (group.numGpus / gpusPerInstance)
  contextLower := group.contextLowerBound
  contextUpper := group.contextUpperBound
  throughput := group.throughput

/-- The entry of an agent; `none` is a `KeyError`. -/
def agentRecord (result : WorkflowAllocation) (gpusPerInstance : Nat) (agent : AgentId) : Option AgentRecord := do
  let gpus ← result.gpuAllocation.get? agent
  let throughput ← result.agentThroughput.get? agent
  let invocations ← result.agentInvocations.get? agent
  let curve ← result.dpResults.get? agent
  let assignment ← curve.get? gpus
  some { gpus, throughput, invocations, instances := assignment.instances.map (groupRecord gpusPerInstance) }

/-- The `output` of `allocate.py`. -/
def toFile (result : WorkflowAllocation) (agents : List AgentId) (gpusPerInstance : Nat) : Option AllocationFile := do
  let records ← agents.mapM fun agent => (result.agentRecord gpusPerInstance agent).map fun record => (agent, record)
  some
    { gpusPerInstance := some gpusPerInstance
      allocation := Dict.ofPairs records
      minThroughput := result.minThroughput
      iterations := result.iterations }

end WorkflowAllocation

/-! ## Reading -/

/-- One pass of the inner loop of the readers. -/
structure PlannedInstance where
  agentId : AgentId
  contextRange : ContextRange
  index : Nat
  numGpus : Nat
deriving DecidableEq

/-- `f"{agent_id}-{context_lower}-{context_upper}-{index}"`. -/
def PlannedInstance.instanceId (i : PlannedInstance) : InstanceId :=
  i.agentId ++ "-" ++ toString i.contextRange.1 ++ "-" ++ toString i.contextRange.2 ++ "-" ++ toString i.index

namespace AllocationFile

def plannedOf (file : AllocationFile) (agentId : AgentId) (group : GroupRecord) : List PlannedInstance :=
  (List.range (group.numInstances.getD 1)).map fun index =>
    ⟨agentId, (group.contextLower, group.contextUpper), index, group.gpusPerInstance.getD (file.gpusPerInstance.getD 1)⟩

/-- The instances of a file, in the order of the three loops. -/
def planned (file : AllocationFile) : List PlannedInstance :=
  file.allocation.entries.flatMap fun e => e.2.instances.flatMap (file.plannedOf e.1)

end AllocationFile

/-- The stub of an instance, in `load_allocation`. -/
def PlannedInstance.stub (i : PlannedInstance) : InstanceManager.RegistryOp :=
  .register i.instanceId i.agentId "127.0.0.1" none (some i.contextRange) i.numGpus

/-- `load_allocation`. -/
def InstanceManager.loadAllocation (m : InstanceManager) (file : AllocationFile) : InstanceManager :=
  m.run (file.planned.map PlannedInstance.stub)

/-- An entry of `instances`, without the pid and the endpoint. -/
structure StartedInstance where
  plan : PlannedInstance
  port : Int
  gpuDevices : List String
deriving DecidableEq

/-- The locals of `_start`. -/
structure Starting where
  availableGpus : List String
  nextPort : Int
  instances : List StartedInstance

/-- The body of the inner loop of `_start`; `none` is the `SystemExit`. -/
def Starting.startInstance (st : Starting) (i : PlannedInstance) : Option Starting :=
  if st.availableGpus.length < i.numGpus then none
  else some
    { availableGpus := st.availableGpus.drop i.numGpus
      nextPort := st.nextPort + 1
      instances := st.instances ++ [⟨i, st.nextPort, st.availableGpus.take i.numGpus⟩] }

/-- `_start`, with the devices of `_parse_gpu_devices`; every instance becomes healthy. -/
def AllocationFile.start (file : AllocationFile) (gpuPool : List String) (basePort : Int) : Option (List StartedInstance) :=
  if gpuPool = [] then none
  else (file.planned.foldlM Starting.startInstance ⟨gpuPool, basePort, []⟩).map (·.instances)

/-- What a started instance posts to `/register`, and what the controller does. -/
def StartedInstance.registration (i : StartedInstance) : List InstanceManager.RegistryOp :=
  [.register i.plan.instanceId i.plan.agentId "127.0.0.1" (some i.port) (some i.plan.contextRange) i.gpuDevices.length,
   .setReady i.plan.instanceId]

/-! ## Devices and ports -/

namespace AllocationFile
variable {file : AllocationFile} {gpuPool : List String} {basePort : Int} {started : List StartedInstance}

/-- The devices that the instances of a file need. -/
def totalGpus (file : AllocationFile) : Nat := (file.planned.map (·.numGpus)).sum

/-- What the loop has started, and what is left for it. -/
structure Handed (pool : List String) (port : Int) (done : List PlannedInstance) (st : Starting) : Prop where
  plans : st.instances.map (·.plan) = done
  ports : st.instances.map (·.port) = (List.range done.length).map fun k => port + (k : Nat)
  next : st.nextPort = port + done.length
  sizes : ∀ i ∈ st.instances, i.gpuDevices.length = i.plan.numGpus
  devices : st.instances.flatMap (·.gpuDevices) ++ st.availableGpus = pool

theorem handed_nothing (pool : List String) (port : Int) : Handed pool port [] ⟨pool, port, []⟩ := by
  refine ⟨rfl, rfl, ?_, ?_, rfl⟩
  · simp
  · simp

theorem Handed.step {pool : List String} {done : List PlannedInstance} {st st' : Starting} {i : PlannedInstance}
    (h : Handed pool basePort done st) (hs : st.startInstance i = some st') : Handed pool basePort (done ++ [i]) st' := by
  unfold Starting.startInstance at hs
  split at hs
  · cases hs
  · rename_i enough
    obtain rfl := Option.some.inj hs
    refine ⟨?_, ?_, ?_, ?_, ?_⟩
    · simp [h.plans]
    · simp [List.range_succ, h.ports, h.next]
    · simp [h.next, Int.add_assoc]
    · intro j hj
      rcases List.mem_append.mp hj with hj | hj
      · exact h.sizes j hj
      · rw [List.mem_singleton.mp hj, List.length_take]
        exact Nat.min_eq_left (Nat.not_lt.mp enough)
    · simp only [List.flatMap_append, List.flatMap_cons, List.flatMap_nil, List.append_nil, List.append_assoc,
        List.take_append_drop]
      exact h.devices

/-- The loop goes through exactly when the devices suffice. -/
theorem foldlM_startInstance {pool : List String} {done plans : List PlannedInstance} {st : Starting}
    (h : Handed pool basePort done st) :
    ((plans.map (·.numGpus)).sum ≤ st.availableGpus.length →
      ∃ st', plans.foldlM Starting.startInstance st = some st' ∧ Handed pool basePort (done ++ plans) st') ∧
    (st.availableGpus.length < (plans.map (·.numGpus)).sum → plans.foldlM Starting.startInstance st = none) := by
  induction plans generalizing done st with
  | nil =>
    refine ⟨fun _ => ⟨st, rfl, ?_⟩, fun hlt => ?_⟩
    · rwa [List.append_nil]
    · simp at hlt
  | cons i plans ih =>
    rw [List.map_cons, List.sum_cons, List.foldlM_cons]
    cases hs : st.startInstance i with
    | none =>
      have short : st.availableGpus.length < i.numGpus := by
        by_contra hge
        rw [Starting.startInstance, if_neg hge] at hs
        cases hs
      exact ⟨fun hle => by omega, fun _ => rfl⟩
    | some st₁ =>
      have left : st₁.availableGpus.length = st.availableGpus.length - i.numGpus ∧ i.numGpus ≤ st.availableGpus.length := by
        unfold Starting.startInstance at hs
        split at hs
        · cases hs
        · obtain rfl := Option.some.inj hs
          rw [List.length_drop]
          omega
      obtain ⟨returns, raises⟩ := ih (h.step hs)
      refine ⟨fun hle => ?_, fun hlt => raises (by omega)⟩
      obtain ⟨st', hloop, h'⟩ := returns (by omega)
      rw [List.append_assoc] at h'
      exact ⟨st', hloop, h'⟩

/-- What `_start` has done when it returns: the instances are those of the file, in order, on consecutive ports, and the
first devices are divided among them. -/
structure StartedAll (file : AllocationFile) (gpuPool : List String) (basePort : Int) (started : List StartedInstance) :
    Prop where
  plans : started.map (·.plan) = file.planned
  ports : started.map (·.port) = (List.range file.planned.length).map fun k => basePort + (k : Nat)
  sizes : ∀ i ∈ started, i.gpuDevices.length = i.plan.numGpus
  devices : started.flatMap (·.gpuDevices) = gpuPool.take file.totalGpus

theorem start_returns (hpool : gpuPool ≠ []) (enough : file.totalGpus ≤ gpuPool.length) :
    ∃ started, file.start gpuPool basePort = some started ∧ StartedAll file gpuPool basePort started := by
  obtain ⟨st, hloop, h⟩ := (foldlM_startInstance (handed_nothing gpuPool basePort)).1 enough
  rw [List.nil_append] at h
  refine ⟨st.instances, by rw [start, if_neg hpool, hloop, Option.map_some], h.plans, h.ports, h.sizes, ?_⟩
  have total : (st.instances.flatMap (·.gpuDevices)).length = file.totalGpus := by
    rw [List.length_flatMap, totalGpus, ← h.plans, List.map_map]
    exact congrArg List.sum (List.map_congr_left h.sizes)
  rw [← h.devices, ← total, List.take_left]

theorem start_raises (short : gpuPool = [] ∨ gpuPool.length < file.totalGpus) : file.start gpuPool basePort = none := by
  rw [start]
  split
  · rfl
  · rename_i hpool
    rw [(foldlM_startInstance (handed_nothing gpuPool basePort)).2 (short.resolve_left hpool), Option.map_none]

/-- Starting the instances of a file fails exactly when the devices run out. -/
theorem start_exact (file : AllocationFile) (gpuPool : List String) (basePort : Int) :
    (file.start gpuPool basePort = none ↔ gpuPool = [] ∨ gpuPool.length < file.totalGpus) ∧
    ∀ started, file.start gpuPool basePort = some started → StartedAll file gpuPool basePort started := by
  by_cases short : gpuPool = [] ∨ gpuPool.length < file.totalGpus
  · have hnone : file.start gpuPool basePort = none := start_raises short
    refine ⟨iff_of_true hnone short, fun started h => ?_⟩
    rw [hnone] at h
    cases h
  · obtain ⟨hpool, enough⟩ := not_or.mp short
    obtain ⟨started, hstarted, all⟩ : ∃ started, file.start gpuPool basePort = some started ∧
        StartedAll file gpuPool basePort started := start_returns hpool (Nat.not_lt.mp enough)
    refine ⟨iff_of_false (by rw [hstarted]; exact Option.some_ne_none _) short, fun other h => ?_⟩
    rwa [← Option.some.inj (hstarted.symm.trans h)]

end AllocationFile

end CoreFlow
