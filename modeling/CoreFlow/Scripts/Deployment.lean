import CoreFlow.Allocator.Partition
import CoreFlow.Lib.Options
import CoreFlow.Lib.Text
import CoreFlow.Scripts.Allocation

/-!
# From an allocation to the instances that serve it

The stubs of the controller and the started instances agree on the instance ids, so an instance registers
over its own stub, in whatever order the instances come up. Once all have registered, every length that the
ranges of an agent cover is served by the instances of one range.
-/

namespace CoreFlow
open InstanceManager

/-! ## Instance ids -/

theorem PlannedInstance.instanceId_inj {i j : PlannedInstance} (hi : 0 ≤ i.contextRange.1 ∧ 0 ≤ i.contextRange.2)
    (hj : 0 ≤ j.contextRange.1 ∧ 0 ≤ j.contextRange.2) (h : i.instanceId = j.instanceId) :
    i.agentId = j.agentId ∧ i.contextRange = j.contextRange ∧ i.index = j.index := by
  obtain ⟨a, ⟨lo, hi'⟩, k, n⟩ := i
  obtain ⟨a', ⟨lo', hj'⟩, k', n'⟩ := j
  obtain ⟨l, rfl⟩ := Int.eq_ofNat_of_zero_le hi.1
  obtain ⟨u, rfl⟩ := Int.eq_ofNat_of_zero_le hi.2
  obtain ⟨l', rfl⟩ := Int.eq_ofNat_of_zero_le hj.1
  obtain ⟨u', rfl⟩ := Int.eq_ofNat_of_zero_le hj.2
  obtain ⟨h, rfl⟩ := append_dash_inj h
  obtain ⟨h, rfl⟩ := append_dash_inj (m := u) (n := u') h
  obtain ⟨rfl, rfl⟩ := append_dash_inj (m := l) (n := l') h
  exact ⟨rfl, rfl, rfl⟩

namespace AllocationFile
variable {file : AllocationFile}

/-- The bounds of the ranges are lengths, and an agent has each range once. -/
structure Proper (file : AllocationFile) : Prop where
  nonneg : ∀ i ∈ file.planned, 0 ≤ i.contextRange.1 ∧ 0 ≤ i.contextRange.2
  distinct : ∀ e ∈ file.allocation.entries, (e.2.instances.map fun g => (g.contextLower, g.contextUpper)).Nodup

theorem Proper.planned_keys (h : file.Proper) :
    (file.planned.map fun i => (i.agentId, i.contextRange, i.index)).Nodup := by
  unfold planned
  rw [List.map_flatMap, List.nodup_flatMap]
  refine ⟨fun e he => ?_, ?_⟩
  · rw [List.map_flatMap, List.nodup_flatMap]
    refine ⟨fun g _ => ?_, ?_⟩
    · rw [plannedOf, List.map_map]
      exact List.nodup_range.map fun k k' hk => (Prod.mk.inj (Prod.mk.inj hk).2).2
    · refine (List.pairwise_map.mp (h.distinct e he)).imp fun {g g'} hne => ?_
      intro x hx hx'
      simp only [plannedOf, List.map_map, List.mem_map, Function.comp_apply] at hx hx'
      obtain ⟨k, -, rfl⟩ := hx
      obtain ⟨k', -, hx'⟩ := hx'
      exact hne (Prod.mk.inj (Prod.mk.inj hx').2).1.symm
  · refine (List.pairwise_map.mp file.allocation.nodup).imp fun {e e'} hne => ?_
    intro x hx hx'
    simp only [plannedOf, List.map_flatMap, List.map_map, List.mem_flatMap, List.mem_map, Function.comp_apply] at hx hx'
    obtain ⟨g, -, k, -, rfl⟩ := hx
    obtain ⟨g', -, k', -, hx'⟩ := hx'
    exact hne (Prod.mk.inj hx').1.symm

/-- No two instances of a file have the same id. -/
theorem Proper.instanceIds (h : file.Proper) : (file.planned.map PlannedInstance.instanceId).Nodup := by
  have keys := h.planned_keys
  rw [List.Nodup, List.pairwise_map] at keys ⊢
  refine keys.imp_of_mem fun {i j} hi hj hne he => hne ?_
  obtain ⟨ha, hr, hk⟩ := PlannedInstance.instanceId_inj (h.nonneg i hi) (h.nonneg j hj) he
  rw [ha, hr, hk]

end AllocationFile

/-! ## Registration -/

namespace InstanceManager
variable {m : InstanceManager} {plans : List PlannedInstance}

theorem register_instances (m : InstanceManager) (id : InstanceId) (a : AgentId) (host : String) (port : Option Int)
    (range : Option ContextRange) (numGpus : Int) :
    (m.register id a host port range numGpus).instances = m.instances.set id (m.newInfo id a host port range numGpus) := by
  cases range with
  | none => rfl
  | some r =>
    simp only [register, indexContext]
    unfold getOrCreateSlot
    split <;> rfl

theorem setStatus_get? (m : InstanceManager) (id x : InstanceId) (status : InstanceStatus) :
    (m.setStatus id status).instances.get? x =
      if id = x then (m.instances.get? x).map fun info => { info with status := status } else m.instances.get? x := by
  unfold setStatus
  cases h : m.instances.get? id with
  | none =>
    show m.instances.get? x = _
    split
    · rename_i e
      rw [← e, h, Option.map_none]
    · rfl
  | some info =>
    show (m.instances.set id _).get? x = _
    rw [Dict.get?_set]
    split
    · rename_i e
      rw [← e, h, Option.map_some]
    · rfl

/-- An operation that puts an instance of the plans in its place, or marks one as ready. -/
inductive PlacesOne (plans : List PlannedInstance) : RegistryOp → Prop
  | register (i : PlannedInstance) (hi : i ∈ plans) (host : String) (port : Option Int) (numGpus : Int) :
    PlacesOne plans (.register i.instanceId i.agentId host port (some i.contextRange) numGpus)
  | setReady (id : InstanceId) : PlacesOne plans (.setReady id)

/-- What is registered is in the place that the plans give it. -/
def Placed (plans : List PlannedInstance) (m : InstanceManager) : Prop :=
  ∀ id info, m.instances.get? id = some info →
    ∃ i ∈ plans, i.instanceId = id ∧ info.agentId = i.agentId ∧ info.contextRange = some i.contextRange

theorem Placed.perform (h : Placed plans m) (unique : (plans.map PlannedInstance.instanceId).Nodup) {op : RegistryOp}
    (hop : PlacesOne plans op) : m.KeepsPlace op ∧ Placed plans (m.perform op) := by
  cases hop with
  | register i hi host port numGpus =>
    have place (info : InstanceInfo) (hinfo : m.instances.get? i.instanceId = some info) :
        info.agentId = i.agentId ∧ info.contextRange = some i.contextRange := by
      obtain ⟨j, hj, hid, ha, hr⟩ := h _ _ hinfo
      obtain rfl := List.inj_on_of_nodup_map unique hj hi hid
      exact ⟨ha, hr⟩
    refine ⟨fun info hinfo => ⟨(place info hinfo).1, .inr (place info hinfo).2⟩, fun id info hinfo => ?_⟩
    rw [InstanceManager.perform, register_instances, Dict.get?_set] at hinfo
    split at hinfo
    · rename_i e
      obtain rfl := Option.some.inj hinfo
      exact ⟨i, hi, e, rfl, rfl⟩
    · exact h id info hinfo
  | setReady id =>
    refine ⟨trivial, fun x info hinfo => ?_⟩
    rw [InstanceManager.perform, setReady, setStatus_get?] at hinfo
    split at hinfo
    · obtain ⟨old, hold, rfl⟩ := Option.map_eq_some_iff.mp hinfo
      exact h x old hold
    · exact h x info hinfo

theorem Placed.run (h : Placed plans m) (unique : (plans.map PlannedInstance.instanceId).Nodup) {ops : List RegistryOp}
    (hops : ∀ op ∈ ops, PlacesOne plans op) : m.RunKeepsPlace ops ∧ Placed plans (m.run ops) := by
  induction ops generalizing m with
  | nil => exact ⟨trivial, h⟩
  | cons op ops ih =>
    obtain ⟨keeps, h₁⟩ := h.perform unique (hops op List.mem_cons_self)
    obtain ⟨keepsRun, h'⟩ := ih h₁ fun op hop => hops op (List.mem_cons_of_mem _ hop)
    exact ⟨⟨keeps, keepsRun⟩, h'⟩

end InstanceManager

/-- What the registry holds of a started instance that has registered. -/
def StartedInstance.info (i : StartedInstance) : InstanceInfo where
  instanceId := i.plan.instanceId
  agentId := i.plan.agentId
  host := "127.0.0.1"
  port := i.port
  contextRange := some i.plan.contextRange
  numGpus := i.gpuDevices.length
  status := .ready

theorem StartedInstance.run_registration (i : StartedInstance) (m : InstanceManager) (x : InstanceId) :
    (m.run i.registration).instances.get? x =
      if i.plan.instanceId = x then some i.info else m.instances.get? x := by
  show ((m.register _ _ _ _ _ _).setStatus _ _).instances.get? x = _
  rw [setStatus_get?, register_instances, Dict.get?_set]
  split
  · rfl
  · rfl

/-- After calls in any order, the last one of an instance counts. -/
theorem run_registrations {calls : List StartedInstance} {m : InstanceManager}
    (unique : ∀ i ∈ calls, ∀ j ∈ calls, i.plan.instanceId = j.plan.instanceId → i = j) (x : InstanceId) :
    (∀ i ∈ calls, i.plan.instanceId = x →
      (m.run (calls.flatMap StartedInstance.registration)).instances.get? x = some i.info) ∧
    ((∀ i ∈ calls, i.plan.instanceId ≠ x) →
      (m.run (calls.flatMap StartedInstance.registration)).instances.get? x = m.instances.get? x) := by
  induction calls generalizing m with
  | nil => exact ⟨fun i hi => absurd hi List.not_mem_nil, fun _ => rfl⟩
  | cons c calls ih =>
    have hrun : m.run ((c :: calls).flatMap StartedInstance.registration) =
        (m.run c.registration).run (calls.flatMap StartedInstance.registration) := by
      rw [List.flatMap_cons, InstanceManager.run, InstanceManager.run, InstanceManager.run, List.foldl_append]
    obtain ⟨registered, others⟩ := ih (m := m.run c.registration) fun i hi j hj =>
      unique i (List.mem_cons_of_mem _ hi) j (List.mem_cons_of_mem _ hj)
    rw [hrun]
    refine ⟨fun i hi hx => ?_, fun hne => ?_⟩
    · by_cases again : ∃ j ∈ calls, j.plan.instanceId = x
      · obtain ⟨j, hj, hjx⟩ := again
        obtain rfl := unique i hi j (List.mem_cons_of_mem _ hj) (hx.trans hjx.symm)
        exact registered i hj hx
      · rw [others fun j hj hjx => again ⟨j, hj, hjx⟩, c.run_registration]
        rcases List.mem_cons.mp hi with rfl | hi
        · rw [if_pos hx]
        · exact absurd ⟨i, hi, hx⟩ again
    · rw [others fun j hj => hne j (List.mem_cons_of_mem _ hj), c.run_registration, if_neg (hne c List.mem_cons_self)]

/-! ## Serving -/

theorem mem_readyAmong {m : InstanceManager} {ids : List InstanceId} {infos : List InstanceInfo}
    (h : m.readyAmong ids = some infos) (info : InstanceInfo) :
    info ∈ infos ↔ (∃ id ∈ ids, m.instances.get? id = some info) ∧ info.isReady = true := by
  rw [readyAmong] at h
  obtain ⟨all, hall, rfl⟩ := Option.map_eq_some_iff.mp h
  rw [List.mem_filter]
  refine and_congr_left' ?_
  clear h
  induction ids generalizing all with
  | nil =>
    obtain rfl : all = [] := (Option.some.inj hall).symm
    simp
  | cons id ids ih =>
    rw [List.mapM_cons] at hall
    obtain ⟨first, hfirst, hall⟩ := Option.bind_eq_some_iff.mp hall
    obtain ⟨rest, hrest, hall⟩ := Option.bind_eq_some_iff.mp hall
    obtain rfl : all = first :: rest := (Option.some.inj hall).symm
    simp only [List.mem_cons, exists_eq_or_imp, ih rest hrest, hfirst, Option.some.injEq]
    rw [eq_comm (a := info)]

/-- The registry of the controller after `load_allocation` and the registrations of `calls`. -/
def deployed (file : AllocationFile) (calls : List StartedInstance) : InstanceManager :=
  (init.loadAllocation file).run (calls.flatMap StartedInstance.registration)

/-- The instances that are found for a length are all the started instances whose range contains it, ready and at
their ports, and there is one. -/
def ServedBy (m : InstanceManager) (started : List StartedInstance) (agentId : AgentId) (length : Int) : Prop :=
  ∃ slot infos, m.findContextSlot agentId length = some (some slot) ∧
    m.getInstancesForContext agentId slot = some infos ∧ infos ≠ [] ∧ ∀ info, info ∈ infos ↔
      ∃ i ∈ started, i.plan.agentId = agentId ∧ i.plan.contextRange.contains length ∧ info = i.info

namespace AllocationFile
variable {file : AllocationFile} {started calls : List StartedInstance} {agentId : AgentId} {r : ContextRange}
  {x : Int}

/-- The operations of a deployment. -/
def deployment (file : AllocationFile) (calls : List StartedInstance) : List RegistryOp :=
  file.planned.map PlannedInstance.stub ++ calls.flatMap StartedInstance.registration

theorem deployed_eq (file : AllocationFile) (calls : List StartedInstance) :
    deployed file calls = init.run (file.deployment calls) := by
  rw [deployed, loadAllocation, InstanceManager.run, InstanceManager.run, InstanceManager.run, deployment, List.foldl_append]

theorem deployment_places (hcalls : ∀ i ∈ calls, i.plan ∈ file.planned) :
    ∀ op ∈ file.deployment calls, PlacesOne file.planned op := by
  intro op hop
  rcases List.mem_append.mp hop with hop | hop
  · obtain ⟨i, hi, rfl⟩ := List.mem_map.mp hop
    exact .register i hi _ _ _
  · obtain ⟨i, hi, hop⟩ := List.mem_flatMap.mp hop
    rcases List.mem_cons.mp hop with rfl | hop
    · exact .register i.plan (hcalls i hi) _ _ _
    · rw [List.mem_singleton.mp hop]
      exact .setReady _

/-- The ranges that have a slot are those of the file. -/
theorem registers_iff (hcalls : ∀ i ∈ calls, i.plan ∈ file.planned) :
    Registers (file.deployment calls) agentId r ↔ ∃ i ∈ file.planned, i.agentId = agentId ∧ i.contextRange = r := by
  constructor
  · rintro ⟨id, host, port, numGpus, hop⟩
    cases deployment_places hcalls _ hop with
    | register i hi => exact ⟨i, hi, rfl, rfl⟩
  · rintro ⟨i, hi, rfl, rfl⟩
    exact ⟨_, _, _, _, List.mem_append_left _ (List.mem_map_of_mem hi)⟩

/-- Once all instances have registered, a length in one range of an agent is served by the instances of that range. -/
theorem deployed_serves (proper : file.Proper) (all : started.map (·.plan) = file.planned)
    (hcalls : ∀ i, i ∈ calls ↔ i ∈ started) (covered : ∃ i ∈ file.planned, i.agentId = agentId ∧ i.contextRange.contains x)
    (unique : ∀ i ∈ file.planned, ∀ j ∈ file.planned, i.agentId = agentId → j.agentId = agentId →
      i.contextRange.contains x → j.contextRange.contains x → i.contextRange = j.contextRange) :
    ServedBy (deployed file calls) started agentId x := by
  have plan_mem (i : StartedInstance) (hi : i ∈ started) : i.plan ∈ file.planned := by
    rw [← all]
    exact List.mem_map_of_mem hi
  have plans (i : StartedInstance) (hi : i ∈ calls) : i.plan ∈ file.planned := plan_mem i ((hcalls i).mp hi)
  have ids : ((started.map (·.plan)).map PlannedInstance.instanceId).Nodup := by
    rw [all]
    exact proper.instanceIds
  rw [List.map_map] at ids
  have same (i : StartedInstance) (hi : i ∈ started) (j : StartedInstance) (hj : j ∈ started)
      (he : i.plan.instanceId = j.plan.instanceId) : i = j := List.inj_on_of_nodup_map ids hi hj he
  -- the started instances are registered, and nothing else is in their places
  obtain ⟨keeps, placed⟩ : init.RunKeepsPlace (file.deployment calls) ∧ Placed file.planned (deployed file calls) := by
    have nothing : Placed file.planned init := fun id info hinfo => by cases hinfo
    rw [deployed_eq]
    exact nothing.run proper.instanceIds (deployment_places plans)
  have consistent : Consistent (deployed file calls) := by
    rw [deployed_eq]
    exact run_consistent init_consistent keeps
  have slots : SlotsOf (deployed file calls) fun a r => ∃ i ∈ file.planned, i.agentId = a ∧ i.contextRange = r := by
    have h := init_slotsOf.run (file.deployment calls)
    simp only [false_or, registers_iff plans, ← deployed_eq] at h
    exact h
  have registered (i : StartedInstance) (hi : i ∈ started) :
      (deployed file calls).instances.get? i.plan.instanceId = some i.info := by
    refine (run_registrations (fun i hi j hj => ?_) _).1 i ((hcalls i).mpr hi) rfl
    exact same i ((hcalls i).mp hi) j ((hcalls j).mp hj)
  obtain ⟨i₀, hi₀, rfl, hc₀⟩ := covered
  obtain ⟨slot, hslot, hrange⟩ := slots.findContextSlot ⟨i₀, hi₀, rfl, rfl⟩ hc₀ fun r hr hc => by
    obtain ⟨j, hj, ha, rfl⟩ := hr
    exact unique j hj i₀ hi₀ ha rfl hc hc₀
  obtain ⟨infos, hinfos, -⟩ := consistent.getInstancesForContext i₀.agentId slot
  have members (info : InstanceInfo) : info ∈ infos ↔ ∃ i ∈ started, i.plan.agentId = i₀.agentId ∧
      i.plan.contextRange.contains x ∧ info = i.info := by
    rw [mem_readyAmong hinfos]
    constructor
    · rintro ⟨⟨id, hid, hinfo⟩, -⟩
      obtain ⟨info', r, hinfo', ha, hr, hs⟩ := (consistent.context _ _ _).mp hid
      obtain rfl := Option.some.inj (hinfo.symm.trans hinfo')
      obtain rfl := Option.some.inj (hrange.symm.trans hs)
      obtain ⟨j, hj, hjid, hja, hjr⟩ := placed id info hinfo
      rw [← all] at hj
      obtain ⟨i, hi, rfl⟩ := List.mem_map.mp hj
      rw [← hjid, registered i hi] at hinfo
      refine ⟨i, hi, hja.symm.trans ha, ?_, (Option.some.inj hinfo).symm⟩
      rw [Option.some.inj (hjr.symm.trans hr)]
      exact hc₀
    · rintro ⟨i, hi, ha, hc, rfl⟩
      have hr := unique i.plan (plan_mem i hi) i₀ hi₀ ha rfl hc hc₀
      refine ⟨⟨_, (consistent.context _ _ _).mpr ⟨i.info, _, registered i hi, ha, rfl, ?_⟩, registered i hi⟩, rfl⟩
      rw [hr]
      exact hrange
  refine ⟨slot, infos, hslot, hinfos, fun hnil => ?_, members⟩
  rw [← all] at hi₀
  obtain ⟨i, hi, hplan⟩ := List.mem_map.mp hi₀
  have := (members i.info).mpr ⟨i, hi, by rw [hplan], by rw [hplan]; exact hc₀, rfl⟩
  rw [hnil] at this
  cases this

end AllocationFile

/-! ## Files that the allocator writes -/

namespace AllocationFile
open WorkflowAllocation
variable {file : AllocationFile} {top G total : Nat} {e : AgentId × AgentRecord} {groups : List InstanceGroup}
  {i : PlannedInstance}

/-- The groups of an agent: they tile the context range if there are any, and use whole instances of the GPUs. -/
structure AgentGroups (top G gpus : Nat) (groups : List InstanceGroup) : Prop where
  tiles : groups ≠ [] → Tiles 0 groups top
  counts : ∀ g ∈ groups, 0 < g.numGpus ∧ G ∣ g.numGpus
  within : (groups.map InstanceGroup.numGpus).sum ≤ gpus

structure Written (file : AllocationFile) (top G total : Nat) : Prop where
  groups : ∀ e ∈ file.allocation.entries, ∃ groups, e.2.instances = groups.map (groupRecord G) ∧
    AgentGroups top G e.2.gpus groups
  total : (file.allocation.entries.map (·.2.gpus)).sum ≤ total
  step : 0 < G

theorem mem_planned : i ∈ file.planned ↔
    ∃ e ∈ file.allocation.entries, ∃ g ∈ e.2.instances, i ∈ file.plannedOf e.1 g := by
  simp only [planned, List.mem_flatMap]

theorem mem_plannedOf {a : AgentId} {g : InstanceGroup} : i ∈ file.plannedOf a (groupRecord G g) ↔
    ∃ k < g.numGpus / G, i = ⟨a, (g.contextLowerBound, g.contextUpperBound), k, G⟩ := by
  simp only [plannedOf, groupRecord, Option.getD_some, List.mem_map, List.mem_range, eq_comm]

theorem Written.mem (h : file.Written top G total) (hi : i ∈ file.planned) :
    ∃ e ∈ file.allocation.entries, ∃ groups, e.2.instances = groups.map (groupRecord G) ∧
      AgentGroups top G e.2.gpus groups ∧ ∃ g ∈ groups, i.agentId = e.1 ∧
        i.contextRange = ((g.contextLowerBound : Int), (g.contextUpperBound : Int)) := by
  obtain ⟨e, he, r, hr, hi⟩ := mem_planned.mp hi
  obtain ⟨groups, hgroups, all⟩ := h.groups e he
  rw [hgroups] at hr
  obtain ⟨g, hg, rfl⟩ := List.mem_map.mp hr
  obtain ⟨k, -, rfl⟩ := mem_plannedOf.mp hi
  exact ⟨e, he, groups, hgroups, all, g, hg, rfl, rfl⟩

theorem Written.proper (h : file.Written top G total) : file.Proper := by
  constructor
  · intro i hi
    obtain ⟨-, -, -, -, -, g, -, -, hr⟩ := h.mem hi
    rw [hr]
    exact ⟨Int.natCast_nonneg _, Int.natCast_nonneg _⟩
  · intro e he
    obtain ⟨groups, hgroups, all⟩ := h.groups e he
    rw [hgroups, List.map_map, List.Nodup, List.pairwise_map]
    cases groups with
    | nil => exact .nil
    | cons g₀ groups =>
      have tiles := all.tiles (List.cons_ne_nil _ _)
      refine tiles.pairwise.imp_of_mem fun {g g'} hg _ hle heq => ?_
      have hlow : (g.contextLowerBound : Int) = g'.contextLowerBound := (Prod.mk.inj heq).1
      have := tiles.lt_of_mem hg
      omega

/-- The instances of a file need no more GPUs than were allocated. -/
theorem Written.totalGpus (h : file.Written top G total) : file.totalGpus ≤ total := by
  refine le_trans ?_ h.total
  rw [AllocationFile.totalGpus, planned, List.map_flatMap, List.flatMap_def, List.sum_flatten, List.map_map]
  refine List.sum_le_sum fun e he => ?_
  obtain ⟨groups, hgroups, all⟩ := h.groups e he
  refine le_trans (le_of_eq ?_) all.within
  rw [Function.comp_apply, hgroups, List.map_flatMap, List.flatMap_def, List.sum_flatten, List.map_map, List.map_map]
  refine congrArg List.sum (List.map_congr_left fun g hg => ?_)
  simp only [Function.comp_apply, plannedOf, groupRecord, Option.getD_some, List.map_map]
  show ((List.range (g.numGpus / G)).map fun _ => G).sum = g.numGpus
  rw [List.map_const', List.sum_replicate, List.length_range, smul_eq_mul]
  exact Nat.div_mul_cancel (all.counts g hg).2

/-- An agent that has groups has one for each length below the top. -/
theorem Written.covers (h : file.Written top G total) (he : e ∈ file.allocation.entries) (hne : e.2.instances ≠ [])
    {x : Nat} (hx : x < top) : ∃ i ∈ file.planned, i.agentId = e.1 ∧ i.contextRange.contains x := by
  obtain ⟨groups, hgroups, all⟩ := h.groups e he
  have tiles : Tiles 0 groups top := all.tiles fun hnil => hne (by rw [hgroups, hnil, List.map_nil])
  have hcount := tiles.countP x
  rw [if_pos ⟨Nat.zero_le x, hx⟩] at hcount
  obtain ⟨g, hg, hc⟩ := List.countP_pos_iff.mp (hcount ▸ Nat.one_pos)
  have hc := of_decide_eq_true hc
  obtain ⟨hpos, hdvd⟩ := all.counts g hg
  refine ⟨⟨e.1, (g.contextLowerBound, g.contextUpperBound), 0, G⟩, ?_, rfl, ?_⟩
  · refine mem_planned.mpr ⟨e, he, groupRecord G g, ?_, mem_plannedOf.mpr ⟨0, ?_, rfl⟩⟩
    · rw [hgroups]
      exact List.mem_map_of_mem hg
    · exact Nat.div_pos (Nat.le_of_dvd hpos hdvd) h.step
  · exact ⟨Int.ofNat_le.mpr hc.1, Int.ofNat_lt.mpr hc.2⟩

/-- And no two. -/
theorem Written.unique (h : file.Written top G total) {x : Nat} {a : AgentId} {j : PlannedInstance} (hi : i ∈ file.planned)
    (hj : j ∈ file.planned) (hia : i.agentId = a) (hja : j.agentId = a) (hix : i.contextRange.contains x)
    (hjx : j.contextRange.contains x) : i.contextRange = j.contextRange := by
  obtain ⟨e, he, groups, hgroups, all, g, hg, hie, hir⟩ := h.mem hi
  obtain ⟨e', he', groups', hgroups', -, g', hg', hje, hjr⟩ := h.mem hj
  obtain rfl : e = e' := List.inj_on_of_nodup_map file.allocation.nodup he he' (hie.symm.trans (hia.trans (hja.symm.trans hje)))
  have same : groups'.map (groupRecord G) = groups.map (groupRecord G) := hgroups'.symm.trans hgroups
  obtain ⟨g'', hg'', heq⟩ : ∃ g'' ∈ groups, groupRecord G g'' = groupRecord G g' := by
    have : groupRecord G g' ∈ groups.map (groupRecord G) := same ▸ List.mem_map_of_mem hg'
    exact List.mem_map.mp this
  have hlow : (g''.contextLowerBound : Int) = g'.contextLowerBound := congrArg GroupRecord.contextLower heq
  have hup : (g''.contextUpperBound : Int) = g'.contextUpperBound := congrArg GroupRecord.contextUpper heq
  rw [hjr, ← hlow, ← hup] at hjx
  rw [hir] at hix
  have tiles := all.tiles (List.ne_nil_of_mem hg)
  have : g = g'' := tiles.eq_of_mem hg hg'' ⟨Int.ofNat_le.mp hix.1, Int.ofNat_lt.mp hix.2⟩
    ⟨Int.ofNat_le.mp hjx.1, Int.ofNat_lt.mp hjx.2⟩
  rw [hir, hjr, this, hlow, hup]

end AllocationFile

/-! ## From the allocator -/

section
open AllocationFile WorkflowAllocation
variable {nodeList : NodeList} {agentAllocate : String → Nat → Dict Nat InstanceAssignment} {agents : List String}
  {totalNumGpus G fuel : Nat} {result : WorkflowAllocation}

/-- What `allocate` returns besides the split. -/
theorem allocate_fields (hne : agents ≠ [])
    (h : WorkflowAllocator.allocate nodeList agentAllocate fuel agents totalNumGpus G = some result) :
    ∃ throughputs, throughputs.length = agents.length ∧ result.agentThroughput = Dict.ofPairs (agents.zip throughputs) ∧
      result.dpResults = Dict.ofPairs (agents.map fun agent => (agent, agentAllocate agent totalNumGpus)) ∧
      result.agentInvocations = avgNumInvocations nodeList agents := by
  unfold WorkflowAllocator.allocate at h
  simp only [if_neg hne] at h
  split at h
  · cases h
  split at h
  · cases h
  split at h
  · cases h
  obtain ⟨⟨gpus, iterations⟩, -, h⟩ := Option.bind_eq_some_iff.mp h
  obtain ⟨throughputs, hthroughputs, h⟩ := Option.bind_eq_some_iff.mp h
  obtain ⟨minThroughput, -, h⟩ := Option.bind_eq_some_iff.mp h
  obtain rfl := Option.some.inj h
  refine ⟨throughputs, ?_, rfl, rfl, rfl⟩
  rw [length_of_mapM hthroughputs, List.length_zipIdx]

theorem agentRecord_gpus {agent : AgentId} {record : AgentRecord} (h : result.agentRecord G agent = some record) :
    result.gpuAllocation.get? agent = some record.gpus := by
  unfold agentRecord at h
  obtain ⟨gpus, hgpus, h⟩ := Option.bind_eq_some_iff.mp h
  obtain ⟨throughput, -, h⟩ := Option.bind_eq_some_iff.mp h
  obtain ⟨invocations, -, h⟩ := Option.bind_eq_some_iff.mp h
  obtain ⟨curve, -, h⟩ := Option.bind_eq_some_iff.mp h
  obtain ⟨assignment, -, h⟩ := Option.bind_eq_some_iff.mp h
  rw [hgpus, ← Option.some.inj h]

/-- The groups of a best assignment. -/
theorem Best.agentGroups {o : InstanceOrchestrator} {cache : ThroughputCache o.maxContextIdx} {n k gpus : Nat}
    {best : InstanceAssignment} (h : Best o cache n k gpus best) :
    AgentGroups (o.maxContextIdx * o.contextStep) o.dpGpuStep gpus best.instances := by
  rcases h.made with rfl | ⟨_, -, -, hcand⟩
  · exact ⟨fun hne => absurd rfl hne, (fun g hg => by cases hg), Nat.zero_le _⟩
  · obtain ⟨counts, hsum⟩ := hcand.gpus
    exact ⟨fun _ => hcand.tiles, counts, hsum ▸ Nat.div_mul_le_self _ _⟩

/-- The curves of the agents, each on its own throughputs. -/
def solvedCurves (o : InstanceOrchestrator) (caches : AgentId → ThroughputCache o.maxContextIdx)
    (maxInstanceGroup minInstanceGroup : Nat) (agent : AgentId) (total : Nat) : Dict Nat InstanceAssignment :=
  (o.solve total (caches agent) maxInstanceGroup minInstanceGroup).getD Dict.empty

theorem toFile_written {o : InstanceOrchestrator} {caches : AgentId → ThroughputCache o.maxContextIdx}
    {maxInstanceGroup minInstanceGroup : Nat} {gpus : List Nat} (hne : agents ≠ []) (nodup : agents.Nodup)
    (h : WorkflowAllocator.allocate nodeList (solvedCurves o caches maxInstanceGroup minInstanceGroup) fuel agents
      totalNumGpus o.dpGpuStep = some result)
    (hgpus : result.gpuAllocation.entries = agents.zip gpus) (split : IsSplit agents totalNumGpus o.dpGpuStep gpus) :
    ∃ file, result.toFile agents o.dpGpuStep = some file ∧ file.allocation.keys = agents ∧
      file.Written (o.maxContextIdx * o.contextStep) o.dpGpuStep totalNumGpus := by
  obtain ⟨throughputs, hlen, hthroughputs, hcurves, hinvocations⟩ := allocate_fields hne h
  have zipped {ν : Type} (vs : List ν) (hvs : vs.length = agents.length) : (agents.zip vs).map Prod.fst = agents :=
    List.map_fst_zip hvs.ge
  have gpusKeys : result.gpuAllocation.keys = agents := by
    rw [Dict.keys, hgpus]
    exact zipped gpus split.length
  have throughputKeys : result.agentThroughput.keys = agents := by
    rw [Dict.keys, hthroughputs, Dict.entries_ofPairs ((zipped _ hlen).symm ▸ nodup)]
    exact zipped _ hlen
  -- every entry of an agent can be read
  have each : ∀ agent ∈ agents, ∃ record, result.agentRecord o.dpGpuStep agent = some record ∧
      result.gpuAllocation.get? agent = some record.gpus ∧ ∃ groups, record.instances = groups.map (groupRecord o.dpGpuStep) ∧
        AgentGroups (o.maxContextIdx * o.contextStep) o.dpGpuStep record.gpus groups := by
    intro agent hagent
    obtain ⟨n, hn⟩ := Dict.mem_iff.mp (Dict.mem_def.mpr (gpusKeys.symm ▸ hagent) : agent ∈ result.gpuAllocation)
    obtain ⟨t, ht⟩ := Dict.mem_iff.mp (Dict.mem_def.mpr (throughputKeys.symm ▸ hagent) : agent ∈ result.agentThroughput)
    have hinv : result.agentInvocations.get? agent = some (avgInvocations nodeList agent) := by
      rw [hinvocations]
      exact get?_ofPairs_map nodup (avgInvocations nodeList) hagent
    have hcurve : result.dpResults.get? agent = some (solvedCurves o caches maxInstanceGroup minInstanceGroup agent totalNumGpus) := by
      rw [hcurves]
      exact get?_ofPairs_map nodup (fun agent => solvedCurves o caches maxInstanceGroup minInstanceGroup agent totalNumGpus) hagent
    obtain ⟨solved, hsolve, hmem, hbest⟩ := solve_spec (caches agent) totalNumGpus maxInstanceGroup minInstanceGroup
    have hsolved : solvedCurves o caches maxInstanceGroup minInstanceGroup agent totalNumGpus = solved := by
      rw [solvedCurves, hsolve, Option.getD_some]
    have hle : n ≤ totalNumGpus := by
      rw [← split.total]
      have hin := Dict.get?_iff_mem_entries.mp hn
      rw [hgpus] at hin
      exact List.le_sum_of_mem (List.of_mem_zip hin).2
    obtain ⟨best, hget⟩ := Dict.mem_iff.mp ((hmem n).mpr hle)
    refine ⟨⟨n, t, avgInvocations nodeList agent, best.instances.map (groupRecord o.dpGpuStep)⟩, ?_, hn, best.instances, rfl,
      (hbest n best hget).agentGroups⟩
    simp only [agentRecord, hn, ht, hinv, hcurve, hsolved, hget, Option.bind_eq_bind, Option.bind_some]
  obtain ⟨records, hrecords⟩ : ∃ records, (agents.mapM fun agent =>
      (result.agentRecord o.dpGpuStep agent).map fun record => (agent, record)) = some records := by
    refine mapM_returns fun agent hagent => ?_
    obtain ⟨record, hrecord, -⟩ := each agent hagent
    exact ⟨(agent, record), by rw [hrecord, Option.map_some]⟩
  have recordKeys : records.map Prod.fst = agents := by
    have hall := mapM_eq_some_iff.mp hrecords
    refine (List.forall₂_eq_eq_eq ▸ List.forall₂_map_left_iff.mpr (hall.flip.imp fun e agent he => ?_) : _ = _)
    obtain ⟨record, -, rfl⟩ := Option.map_eq_some_iff.mp he
    rfl
  have entries : (Dict.ofPairs records).entries = records := Dict.entries_ofPairs (recordKeys.symm ▸ nodup)
  refine ⟨⟨some o.dpGpuStep, Dict.ofPairs records, result.minThroughput, result.iterations⟩, ?_, ?_, ?_, ?_, o.dpGpuStep_pos⟩
  · rw [toFile, hrecords]
    rfl
  · rw [Dict.keys, entries, recordKeys]
  · intro e he
    rw [entries] at he
    obtain ⟨agent, hagent, he⟩ := mem_of_mapM hrecords he
    obtain ⟨record, hrecord, -, hgroups⟩ := each agent hagent
    rw [hrecord, Option.map_some, Option.some.injEq] at he
    rw [← he]
    exact hgroups
  · rw [entries, ← split.total]
    refine le_of_eq (congrArg List.sum ?_)
    have hall := mapM_eq_some_iff.mp hrecords
    have allocated : agents.mapM (fun agent => result.gpuAllocation.get? agent) = some gpus := by
      refine mapM_eq_some_iff.mpr (List.forall₂_iff_zip.mpr ⟨split.length.symm, fun {agent n} hin => ?_⟩)
      rw [Dict.get?_iff_mem_entries, hgpus]
      exact hin
    have written : agents.mapM (fun agent => result.gpuAllocation.get? agent) = some (records.map (·.2.gpus)) := by
      refine mapM_eq_some_iff.mpr (List.forall₂_map_right_iff.mpr (hall.imp fun agent e he => ?_))
      obtain ⟨record, hrecord, rfl⟩ := Option.map_eq_some_iff.mp he
      exact agentRecord_gpus hrecord
    exact Option.some.inj (written.symm.trans allocated)

/-- What the allocator plans, the scripts start and the controller finds: from enough devices every instance is started on
devices of its own, and once all have registered, in any order, each length of an agent that has instances is served. -/
theorem allocation_deploys (o : InstanceOrchestrator) (caches : AgentId → ThroughputCache o.maxContextIdx)
    (maxInstanceGroup minInstanceGroup : Nat) (hne : agents ≠ []) (nodup : agents.Nodup)
    (invoked : ∀ agent ∈ agents, 0 < avgInvocations nodeList agent) (divides : o.dpGpuStep ∣ totalNumGpus)
    (covered : agents.length * o.dpGpuStep ≤ totalNumGpus) :
    ∃ rounds, ∀ fuel > rounds, ∃ result file,
      WorkflowAllocator.allocate nodeList (solvedCurves o caches maxInstanceGroup minInstanceGroup) fuel agents totalNumGpus
        o.dpGpuStep = some result ∧
      result.toFile agents o.dpGpuStep = some file ∧ file.allocation.keys = agents ∧
      ∀ gpuPool basePort, totalNumGpus ≤ gpuPool.length → ∃ started, file.start gpuPool basePort = some started ∧
        started.flatMap (·.gpuDevices) <+: gpuPool ∧ (started.map (·.port)).Nodup ∧
        (started.map (·.plan.instanceId)).Nodup ∧
        ∀ calls, (∀ i, i ∈ calls ↔ i ∈ started) → ∀ e ∈ file.allocation.entries, e.2.instances ≠ [] →
          ∀ x < o.maxContextIdx * o.contextStep, ServedBy (deployed file calls) started e.1 x := by
  have splittable : Splittable nodeList (solvedCurves o caches maxInstanceGroup minInstanceGroup) agents
      totalNumGpus o.dpGpuStep := by
    refine ⟨nodup, invoked, o.dpGpuStep_pos, divides, covered, fun agent _ => ?_⟩
    obtain ⟨curve, hrun, hcurve⟩ := solve_monotoneCurve o (caches agent) totalNumGpus maxInstanceGroup minInstanceGroup
    rw [solvedCurves, hrun]
    exact hcurve
  refine ⟨totalNumGpus / o.dpGpuStep, fun fuel hfuel => ?_⟩
  obtain ⟨result, gpus, hallocate, hgpus, split, -⟩ := allocate_spec splittable hne hfuel
  obtain ⟨file, hfile, hkeys, written⟩ := toFile_written hne nodup hallocate hgpus split
  refine ⟨result, file, hallocate, hfile, hkeys, fun gpuPool basePort enough => ?_⟩
  have hpool : gpuPool ≠ [] := by
    have : 0 < agents.length * o.dpGpuStep := Nat.mul_pos (List.length_pos_iff.mpr hne) o.dpGpuStep_pos
    exact List.length_pos_iff.mp (by omega)
  obtain ⟨started, hstarted, all⟩ : ∃ started, file.start gpuPool basePort = some started ∧
      StartedAll file gpuPool basePort started := start_returns hpool (written.totalGpus.trans enough)
  refine ⟨started, hstarted, ?_, ?_, ?_, ?_⟩
  · rw [all.devices]
    exact List.take_prefix _ _
  · rw [all.ports]
    exact List.nodup_range.map fun k k' hk => by omega
  · have ids := written.proper.instanceIds
    rw [← all.plans, List.map_map] at ids
    exact ids
  · intro calls hcalls e he hinstances x hx
    obtain ⟨i, hi, hagent, hx'⟩ := written.covers he hinstances hx
    exact deployed_serves written.proper all.plans hcalls ⟨i, hi, hagent, hx'⟩ fun i hi j hj hia hja =>
      written.unique hi hj hia hja

/-- Two agents with one call each, and five devices. -/
theorem allocation_deploys_two : ∃ file : AllocationFile, file.allocation.keys = ["planner", "writer"] ∧
    ∃ started, file.start ["0", "1", "2", "3", "4"] 8000 = some started ∧ ∀ e ∈ file.allocation.entries,
      e.2.instances ≠ [] → ∀ x < 3, ServedBy (deployed file started.reverse) started e.1 (x : Nat) := by
  obtain ⟨rounds, hrounds⟩ := @allocation_deploys
    ⟨[("trace", [⟨"planner", "n1:0", .number 1, .number 1, .number 0⟩,
      ⟨"writer", "n2:0", .number 1, .number 1, .number 0⟩])], by decide⟩
    ["planner", "writer"] 5 InstanceOrchestrator.threeSteps (fun _ => InstanceOrchestrator.unevenCache) 2 1 (by decide)
    (by decide) (by decide +kernel) (by decide) (by decide)
  obtain ⟨-, file, -, -, hkeys, hfile⟩ := hrounds (rounds + 1) (Nat.lt_succ_self _)
  obtain ⟨started, hstarted, -, -, -, serves⟩ := hfile ["0", "1", "2", "3", "4"] 8000 (by decide)
  exact ⟨file, hkeys, started, hstarted, serves started.reverse fun i => List.mem_reverse⟩

end

end CoreFlow
