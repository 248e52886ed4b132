import CoreFlow.Lib.Dict
import Mathlib.Data.List.Sort

/-!
# The instance registry

`InstanceManager` keeps the registered instances and four indexes over them. A lookup of an index
fetches the instances behind the ids it holds, and raises when one of them is gone; `none` is the
`KeyError`.
-/

namespace CoreFlow

abbrev InstanceId := String
abbrev AgentId := String
abbrev ContextRange := Int × Int

inductive InstanceStatus where
  | starting
  | ready
  | unavailable
  | draining
deriving DecidableEq

structure InstanceInfo where
  instanceId : InstanceId
  agentId : AgentId
  host : String
  port : Int
  contextRange : Option ContextRange
  numGpus : Int
  status : InstanceStatus
deriving DecidableEq

def InstanceInfo.isReady (info : InstanceInfo) : Bool := decide (info.status = .ready)

/-- The lower bound is in the range and the upper one is not. -/
def ContextRange.contains (r : ContextRange) (length : Int) : Prop := r.1 ≤ length ∧ length < r.2

instance (r : ContextRange) (length : Int) : Decidable (r.contains length) := by
  unfold ContextRange.contains
  infer_instance

/-- `InstanceManager`. The sets of `agentInstances` are lists without repetition, in any order. -/
structure InstanceManager where
  instances : Dict InstanceId InstanceInfo
  agentInstances : Dict AgentId (List InstanceId)
  contextInstances : Dict (AgentId × Nat) (List InstanceId)
  rangeSlots : Dict (AgentId × ContextRange) Nat
  slotRanges : Dict (AgentId × Nat) ContextRange
  nextPort : Int
deriving DecidableEq

namespace InstanceManager

def init : InstanceManager := ⟨Dict.empty, Dict.empty, Dict.empty, Dict.empty, Dict.empty, 8000⟩

/-! ## Registration -/

/-- The slots of an agent, in insertion order. -/
def existingSlots (m : InstanceManager) (agentId : AgentId) : List Nat :=
  (m.slotRanges.keys.filter fun k => k.1 == agentId).map (·.2)

/-- `max(existing_slots, default=-1) + 1`. -/
def nextSlot (m : InstanceManager) (agentId : AgentId) : Nat :=
  match (m.existingSlots agentId).max? with
  | none => 0
  | some slot => slot + 1

/-- `_get_or_create_slot`. -/
def getOrCreateSlot (m : InstanceManager) (agentId : AgentId) (contextRange : ContextRange) :
    Nat × InstanceManager :=
  match m.rangeSlots.get? (agentId, contextRange) with
  | some slot => (slot, m)
  | none =>
    let slot := m.nextSlot agentId
    (slot, { m with
      rangeSlots := m.rangeSlots.set (agentId, contextRange) slot
      slotRanges := m.slotRanges.set (agentId, slot) contextRange })

/-- The ids indexed under an agent. -/
def agentIds (m : InstanceManager) (agentId : AgentId) : List InstanceId :=
  (m.agentInstances.get? agentId).getD []

/-- The ids indexed under an agent and a slot. -/
def contextIds (m : InstanceManager) (agentId : AgentId) (slot : Nat) : List InstanceId :=
  (m.contextInstances.get? (agentId, slot)).getD []

/-- The instance that a call of `register` creates. -/
def newInfo (m : InstanceManager) (instanceId : InstanceId) (agentId : AgentId) (host : String)
    (port : Option Int) (contextRange : Option ContextRange) (numGpus : Int) : InstanceInfo :=
  ⟨instanceId, agentId, host, port.getD m.nextPort, contextRange, numGpus, .starting⟩

/-- The index by context range, in `register`. -/
def indexContext (m : InstanceManager) (instanceId : InstanceId) (agentId : AgentId) :
    Option ContextRange → InstanceManager
  | none => m
  | some contextRange =>
    let (slot, m) := m.getOrCreateSlot agentId contextRange
    let ids := m.contextIds agentId slot
    { m with
      contextInstances := m.contextInstances.set (agentId, slot)
        (if instanceId ∈ ids then ids else ids ++ [instanceId]) }

/-- `register`. -/
def register (m : InstanceManager) (instanceId : InstanceId) (agentId : AgentId) (host : String)
    (port : Option Int) (contextRange : Option ContextRange) (numGpus : Int) : InstanceManager :=
  let info := m.newInfo instanceId agentId host port contextRange numGpus
  indexContext { m with
    instances := m.instances.set instanceId info
    agentInstances := m.agentInstances.set agentId ((m.agentIds agentId).insert instanceId)
    nextPort := if port = none then m.nextPort + 1 else m.nextPort } instanceId agentId contextRange

def setStatus (m : InstanceManager) (instanceId : InstanceId) (status : InstanceStatus) : InstanceManager :=
  match m.instances.get? instanceId with
  | none => m
  | some info => { m with instances := m.instances.set instanceId { info with status := status } }

/-- `set_ready`. -/
def setReady (m : InstanceManager) (instanceId : InstanceId) : InstanceManager := m.setStatus instanceId .ready

/-- `mark_unavailable`. -/
def markUnavailable (m : InstanceManager) (instanceId : InstanceId) : InstanceManager :=
  m.setStatus instanceId .unavailable

/-- Take an id out of the list under a key, if there is one. -/
def discard {κ : Type} [DecidableEq κ] (d : Dict κ (List InstanceId)) (key : κ) (instanceId : InstanceId) :
    Dict κ (List InstanceId) :=
  match d.get? key with
  | none => d
  | some ids => d.set key (ids.erase instanceId)

/-- The index by context range, in `remove`. -/
def unindexContext (m : InstanceManager) (instanceId : InstanceId) (agentId : AgentId) :
    Option Nat → Dict (AgentId × Nat) (List InstanceId)
  | none => m.contextInstances
  | some slot => discard m.contextInstances (agentId, slot) instanceId

/-- `remove`. -/
def remove (m : InstanceManager) (instanceId : InstanceId) : InstanceManager :=
  match m.instances.get? instanceId with
  | none => m
  | some info =>
    let slot := info.contextRange.bind fun r => m.rangeSlots.get? (info.agentId, r)
    { m with
      instances := m.instances.erase instanceId
      agentInstances := discard m.agentInstances info.agentId instanceId
      contextInstances := m.unindexContext instanceId info.agentId slot }

/-! ## Lookup -/

/-- The instances behind some ids that are ready. -/
def readyAmong (m : InstanceManager) (ids : List InstanceId) : Option (List InstanceInfo) :=
  (ids.mapM fun i => m.instances.get? i).map fun infos => infos.filter (·.isReady)

/-- `get_instances_for_agent`. -/
def getInstancesForAgent (m : InstanceManager) (agentId : AgentId) : Option (List InstanceInfo) :=
  m.readyAmong (m.agentIds agentId)

/-- `get_instances_for_context`. -/
def getInstancesForContext (m : InstanceManager) (agentId : AgentId) (slot : Nat) :
    Option (List InstanceInfo) :=
  m.readyAmong (m.contextIds agentId slot)

/-- The order of the pairs of a slot and its range. -/
def slotLe (a b : Nat × ContextRange) : Prop :=
  a.1 < b.1 ∨ (a.1 = b.1 ∧ (a.2.1 < b.2.1 ∨ (a.2.1 = b.2.1 ∧ a.2.2 ≤ b.2.2)))

instance : DecidableRel slotLe := fun a b => by unfold slotLe; infer_instance

/-- The slots of an agent with their ranges, sorted. -/
def sortedSlots (m : InstanceManager) (agentId : AgentId) : List (Nat × ContextRange) :=
  ((m.slotRanges.entries.filter fun e => e.1.1 == agentId).map fun e => (e.1.2, e.2)).insertionSort slotLe

/-- The inner loop over the ids of a slot: whether one of the instances covers the length. -/
def anyCovers (m : InstanceManager) (length : Int) : List InstanceId → Option Bool
  | [] => some false
  | instanceId :: rest => do
    let info ← m.instances.get? instanceId
    if info.contextRange.any (fun r => decide (r.contains length)) then some true else anyCovers m length rest

/-- The second loop of `find_context_slot`, over the items of `_context_instances`. -/
def findByInstances (m : InstanceManager) (agentId : AgentId) (length : Int) :
    List ((AgentId × Nat) × List InstanceId) → Option (Option Nat)
  | [] => some none
  | (key, ids) :: rest =>
    if key.1 = agentId then do
      if ← m.anyCovers length ids then some (some key.2) else findByInstances m agentId length rest
    else findByInstances m agentId length rest

/-- `find_context_slot`. -/
def findContextSlot (m : InstanceManager) (agentId : AgentId) (inputLength : Int) : Option (Option Nat) :=
  match (m.sortedSlots agentId).find? fun e => decide (e.2.contains inputLength) with
  | some e => some (some e.1)
  | none => m.findByInstances agentId inputLength m.contextInstances.entries

/-! ## Runs -/

/-- What changes a registry. -/
inductive RegistryOp where
  | register (instanceId : InstanceId) (agentId : AgentId) (host : String) (port : Option Int)
      (contextRange : Option ContextRange) (numGpus : Int)
  | setReady (instanceId : InstanceId)
  | markUnavailable (instanceId : InstanceId)
  | remove (instanceId : InstanceId)
deriving DecidableEq

def perform (m : InstanceManager) : RegistryOp → InstanceManager
  | .register instanceId agentId host port contextRange numGpus =>
    m.register instanceId agentId host port contextRange numGpus
  | .setReady instanceId => m.setReady instanceId
  | .markUnavailable instanceId => m.markUnavailable instanceId
  | .remove instanceId => m.remove instanceId

/-- An id that is registered keeps its agent, and its context range if it has one. -/
def KeepsPlace (m : InstanceManager) : RegistryOp → Prop
  | .register instanceId agentId _ _ contextRange _ =>
    ∀ info ∈ m.instances.get? instanceId, info.agentId = agentId ∧
      (info.contextRange = none ∨ info.contextRange = contextRange)
  | _ => True

instance (m : InstanceManager) : (op : RegistryOp) → Decidable (m.KeepsPlace op)
  | .register instanceId agentId _ _ contextRange _ =>
    inferInstanceAs (Decidable (∀ info ∈ m.instances.get? instanceId, info.agentId = agentId ∧
      (info.contextRange = none ∨ info.contextRange = contextRange)))
  | .setReady _ => isTrue trivial
  | .markUnavailable _ => isTrue trivial
  | .remove _ => isTrue trivial

def run (m : InstanceManager) (ops : List RegistryOp) : InstanceManager := ops.foldl perform m

/-- Every step of a run keeps the place of what is registered. -/
def RunKeepsPlace (m : InstanceManager) : List RegistryOp → Prop
  | [] => True
  | op :: ops => m.KeepsPlace op ∧ (m.perform op).RunKeepsPlace ops

instance decidableRunKeepsPlace (m : InstanceManager) : (ops : List RegistryOp) → Decidable (m.RunKeepsPlace ops)
  | [] => isTrue trivial
  | op :: ops => @instDecidableAnd (m.KeepsPlace op) _ _ (decidableRunKeepsPlace (m.perform op) ops)

end InstanceManager

end CoreFlow
