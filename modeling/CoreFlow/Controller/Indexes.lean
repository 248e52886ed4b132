import CoreFlow.Controller.Registry

/-!
# The indexes of the registry

`Consistent` says what each index holds in terms of the registered instances. Registering an id again
under another agent or another range leaves it in the old place as well, which `KeepsPlace` excludes;
nothing else can break the indexes.
-/

namespace CoreFlow

namespace InstanceManager

/-- The indexes hold what is registered. -/
structure Consistent (m : InstanceManager) : Prop where
  agent : ∀ a id, id ∈ m.agentIds a ↔ ∃ info, m.instances.get? id = some info ∧ info.agentId = a
  context : ∀ a slot id, id ∈ m.contextIds a slot ↔ ∃ info r, m.instances.get? id = some info ∧
    info.agentId = a ∧ info.contextRange = some r ∧ m.slotRanges.get? (a, slot) = some r
  agentNodup : ∀ a, (m.agentIds a).Nodup
  nodup : ∀ a slot, (m.contextIds a slot).Nodup
  inverse : ∀ a slot r, m.rangeSlots.get? (a, r) = some slot ↔ m.slotRanges.get? (a, slot) = some r
  slotted : ∀ id info r, m.instances.get? id = some info → info.contextRange = some r →
    ∃ slot, m.slotRanges.get? (info.agentId, slot) = some r

variable {m m' : InstanceManager} {a agentId : AgentId} {id instanceId : InstanceId} {slot : Nat} {r : ContextRange}
  {length : Int}

theorem init_consistent : Consistent init := by
  refine ⟨fun a id => ?_, fun a slot id => ?_, fun a => List.nodup_nil, fun a slot => List.nodup_nil, fun a slot r => ?_, fun id info r h => ?_⟩
  · simp [init, agentIds]
  · simp [init, contextIds]
  · simp [init]
  · cases h

/-! ## Slots -/

theorem nextSlot_fresh (m : InstanceManager) (a : AgentId) : m.slotRanges.get? (a, m.nextSlot a) = none := by
  rw [Dict.get?_eq_none]
  intro hin
  have hmem : m.nextSlot a ∈ m.existingSlots a := by
    refine List.mem_map.mpr ⟨(a, m.nextSlot a), List.mem_filter.mpr ⟨hin, ?_⟩, rfl⟩
    exact beq_self_eq_true a
  unfold nextSlot at hmem
  cases hmax : (m.existingSlots a).max? with
  | none =>
    rw [List.max?_eq_none_iff.mp hmax] at hmem
    cases hmem
  | some top =>
    simp only [hmax] at hmem
    have := (List.max?_eq_some_iff.mp hmax).2 _ hmem
    omega

/-- What a call of `_get_or_create_slot` returns and adds. -/
structure Slotted (m m' : InstanceManager) (a : AgentId) (r : ContextRange) (slot : Nat) : Prop where
  lookup : m'.slotRanges.get? (a, slot) = some r
  ranges : ∀ key, key ≠ (a, slot) → m'.slotRanges.get? key = m.slotRanges.get? key
  old : ∀ r', m.slotRanges.get? (a, slot) = some r' → r' = r
  inverse : ∀ a slot r, m'.rangeSlots.get? (a, r) = some slot ↔ m'.slotRanges.get? (a, slot) = some r
  instances : m'.instances = m.instances
  agentInstances : m'.agentInstances = m.agentInstances
  contextInstances : m'.contextInstances = m.contextInstances

theorem getOrCreateSlot_slotted
    (inverse : ∀ a slot r, m.rangeSlots.get? (a, r) = some slot ↔ m.slotRanges.get? (a, slot) = some r)
    (a : AgentId) (r : ContextRange) : Slotted m (m.getOrCreateSlot a r).2 a r (m.getOrCreateSlot a r).1 := by
  unfold getOrCreateSlot
  cases h : m.rangeSlots.get? (a, r) with
  | some slot =>
    have hslot := (inverse a slot r).mp h
    exact ⟨hslot, fun _ _ => rfl, fun r' hr => Option.some.inj (hr.symm.trans hslot), inverse, rfl, rfl, rfl⟩
  | none =>
    have fresh := nextSlot_fresh m a
    refine ⟨Dict.get?_set_self _ _ _, fun key hne => Dict.get?_set_ne _ _ (Ne.symm hne), fun r' hr => ?_,
      fun a' slot' r' => ?_, rfl, rfl, rfl⟩
    · rw [fresh] at hr
      cases hr
    · -- the new pair is new on both sides
      show (m.rangeSlots.set (a, r) (m.nextSlot a)).get? (a', r') = some slot' ↔
        (m.slotRanges.set (a, m.nextSlot a) r).get? (a', slot') = some r'
      rw [Dict.get?_set, Dict.get?_set]
      by_cases hr : (a, r) = (a', r')
      · obtain ⟨rfl, rfl⟩ := Prod.mk.inj hr
        by_cases hs : m.nextSlot a = slot'
        · subst hs
          simp
        · have hs' : (a, m.nextSlot a) ≠ (a, slot') := fun e => hs (Prod.mk.inj e).2
          rw [if_pos rfl, if_neg hs', ← inverse, h]
          simp [hs]
      · rw [if_neg hr]
        by_cases hs : (a, m.nextSlot a) = (a', slot')
        · obtain ⟨rfl, rfl⟩ := Prod.mk.inj hs
          have hne : r ≠ r' := fun e => hr (by rw [e])
          rw [if_pos rfl, inverse, fresh]
          simp [hne]
        · rw [if_neg hs, inverse]

/-! ## The operations -/

theorem setStatus_consistent (h : Consistent m) (id : InstanceId) (status : InstanceStatus) :
    Consistent (m.setStatus id status) := by
  unfold setStatus
  cases hid : m.instances.get? id with
  | none => exact h
  | some info =>
    -- every instance has a counterpart with the same agent and range
    have new (x : InstanceId) (i : InstanceInfo)
        (hx : (m.instances.set id { info with status := status }).get? x = some i) :
        ∃ j, m.instances.get? x = some j ∧ j.agentId = i.agentId ∧ j.contextRange = i.contextRange := by
      rw [Dict.get?_set] at hx
      split at hx
      · rename_i hx'
        subst hx'
        obtain rfl := Option.some.inj hx
        exact ⟨info, hid, rfl, rfl⟩
      · exact ⟨i, hx, rfl, rfl⟩
    have old (x : InstanceId) (j : InstanceInfo) (hx : m.instances.get? x = some j) :
        ∃ i, (m.instances.set id { info with status := status }).get? x = some i ∧
          j.agentId = i.agentId ∧ j.contextRange = i.contextRange := by
      rw [Dict.get?_set]
      split
      · rename_i hx'
        subst hx'
        obtain rfl := Option.some.inj (hid.symm.trans hx)
        exact ⟨_, rfl, rfl, rfl⟩
      · exact ⟨j, hx, rfl, rfl⟩
    refine ⟨fun a x => (h.agent a x).trans ⟨?_, ?_⟩, fun a slot x => (h.context a slot x).trans ⟨?_, ?_⟩,
      h.agentNodup, h.nodup, h.inverse, fun x i r hx hr => ?_⟩
    · rintro ⟨j, hj, ha⟩
      obtain ⟨i, hi, hagent, -⟩ := old x j hj
      exact ⟨i, hi, hagent.symm.trans ha⟩
    · rintro ⟨i, hi, ha⟩
      obtain ⟨j, hj, hagent, -⟩ := new x i hi
      exact ⟨j, hj, hagent.trans ha⟩
    · rintro ⟨j, r, hj, ha, hr, hs⟩
      obtain ⟨i, hi, hagent, hrange⟩ := old x j hj
      exact ⟨i, r, hi, hagent.symm.trans ha, hrange.symm.trans hr, hs⟩
    · rintro ⟨i, r, hi, ha, hr, hs⟩
      obtain ⟨j, hj, hagent, hrange⟩ := new x i hi
      exact ⟨j, r, hj, hagent.trans ha, hrange.trans hr, hs⟩
    · obtain ⟨j, hj, hagent, hrange⟩ := new x i hx
      obtain ⟨slot, hs⟩ := h.slotted x j r hj (hrange.trans hr)
      exact ⟨slot, by rw [← hagent]; exact hs⟩

section
variable {κ : Type} [DecidableEq κ] {d : Dict κ (List InstanceId)} {key k : κ} {x : InstanceId}

theorem mem_discard (hd : ((d.get? k).getD []).Nodup) :
    x ∈ ((discard d key id).get? k).getD [] ↔ x ∈ (d.get? k).getD [] ∧ (k = key → x ≠ id) := by
  unfold discard
  cases h : d.get? key with
  | none =>
    refine ⟨fun hx => ⟨hx, ?_⟩, fun hx => hx.1⟩
    rintro rfl
    rw [h] at hx
    cases hx
  | some ids =>
    dsimp only
    rw [Dict.get?_set]
    by_cases hk : key = k
    · subst hk
      rw [h] at hd
      have hids : ids.Nodup := hd
      rw [if_pos rfl, h, Option.getD_some, Option.getD_some, hids.mem_erase_iff]
      exact ⟨fun hx => ⟨hx.2, fun _ => hx.1⟩, fun hx => ⟨hx.2 rfl, hx.1⟩⟩
    · rw [if_neg hk]
      exact ⟨fun hx => ⟨hx, fun e => absurd e.symm hk⟩, fun hx => hx.1⟩

theorem nodup_discard (hd : ((d.get? k).getD []).Nodup) : (((discard d key id).get? k).getD []).Nodup := by
  unfold discard
  cases h : d.get? key with
  | none => exact hd
  | some ids =>
    dsimp only
    rw [Dict.get?_set]
    split
    · rename_i hk
      subst hk
      rw [h] at hd
      exact hd.erase id
    · exact hd

end

theorem remove_consistent (h : Consistent m) (id : InstanceId) : Consistent (m.remove id) := by
  unfold remove
  cases hid : m.instances.get? id with
  | none => exact h
  | some info =>
    -- whatever slot is looked up, it is the only one that holds the id
    have context (a : AgentId) (slot : Nat) (x : InstanceId) :
        x ∈ ((m.unindexContext id info.agentId (info.contextRange.bind fun r =>
          m.rangeSlots.get? (info.agentId, r))).get? (a, slot)).getD [] ↔ x ∈ m.contextIds a slot ∧ x ≠ id := by
      have holds (hx : id ∈ m.contextIds a slot) : a = info.agentId ∧
          (info.contextRange.bind fun r => m.rangeSlots.get? (info.agentId, r)) = some slot := by
        obtain ⟨i, r, hi, ha, hr, hs⟩ := (h.context a slot id).mp hx
        obtain rfl := Option.some.inj (hid.symm.trans hi)
        refine ⟨ha.symm, ?_⟩
        rw [hr, Option.bind_some, ha]
        exact (h.inverse a slot r).mpr hs
      cases hslot : info.contextRange.bind fun r => m.rangeSlots.get? (info.agentId, r) with
      | none =>
        refine ⟨fun hx => ⟨hx, ?_⟩, fun hx => hx.1⟩
        rintro rfl
        rw [hslot] at holds
        cases (holds hx).2
      | some slot₀ =>
        rw [unindexContext, mem_discard (h.nodup a slot)]
        refine and_congr_right fun hx => ⟨?_, fun hne _ => hne⟩
        rintro hne rfl
        obtain ⟨rfl, hs⟩ := holds hx
        rw [hslot] at hs
        exact hne (by rw [Option.some.inj hs]) rfl
    have same (x : InstanceId) (hx : x ≠ id) : (m.instances.erase id).get? x = m.instances.get? x :=
      Dict.get?_erase_ne _ (Ne.symm hx)
    have gone (x : InstanceId) (i : InstanceInfo) (hi : (m.instances.erase id).get? x = some i) : x ≠ id := by
      rintro rfl
      rw [Dict.get?_erase_self] at hi
      cases hi
    refine ⟨fun a x => (mem_discard (h.agentNodup a)).trans ⟨?_, ?_⟩,
      fun a slot x => (context a slot x).trans ⟨?_, ?_⟩, fun a => nodup_discard (h.agentNodup a), fun a slot => ?_,
      h.inverse, fun x i r hi hr => ?_⟩
    · rintro ⟨hx, hne⟩
      obtain ⟨i, hi, rfl⟩ := (h.agent a x).mp hx
      have hxid : x ≠ id := by
        rintro rfl
        obtain rfl := Option.some.inj (hid.symm.trans hi)
        exact hne rfl rfl
      exact ⟨i, (same x hxid).trans hi, rfl⟩
    · rintro ⟨i, hi, ha⟩
      have hx := gone x i hi
      exact ⟨(h.agent a x).mpr ⟨i, (same x hx).symm.trans hi, ha⟩, fun _ => hx⟩
    · rintro ⟨hx, hne⟩
      obtain ⟨i, r, hi, rest⟩ := (h.context a slot x).mp hx
      exact ⟨i, r, (same x hne).trans hi, rest⟩
    · rintro ⟨i, r, hi, rest⟩
      have hx := gone x i hi
      exact ⟨(h.context a slot x).mpr ⟨i, r, (same x hx).symm.trans hi, rest⟩, hx⟩
    · show (((m.unindexContext id info.agentId (info.contextRange.bind fun r =>
        m.rangeSlots.get? (info.agentId, r))).get? (a, slot)).getD []).Nodup
      unfold unindexContext
      split
      · exact h.nodup a slot
      · exact nodup_discard (h.nodup a slot)
    · exact h.slotted x i r ((same x (gone x i hi)).symm.trans hi) hr

/-- What is written before the range is indexed. -/
def registerInfo (m : InstanceManager) (id : InstanceId) (a : AgentId) (host : String) (port : Option Int)
    (contextRange : Option ContextRange) (numGpus : Int) : InstanceManager :=
  { m with
    instances := m.instances.set id (m.newInfo id a host port contextRange numGpus)
    agentInstances := m.agentInstances.set a ((m.agentIds a).insert id)
    nextPort := if port = none then m.nextPort + 1 else m.nextPort }

theorem register_range (id : InstanceId) (a : AgentId) (r : ContextRange)
    (inverse : ∀ a slot r, m.rangeSlots.get? (a, r) = some slot ↔ m.slotRanges.get? (a, slot) = some r)
    (host : String) (port : Option Int) (numGpus : Int) :
    ∃ slot m₂, Slotted (m.registerInfo id a host port (some r) numGpus) m₂ a r slot ∧
      m.register id a host port (some r) numGpus =
        { m₂ with
          contextInstances := m₂.contextInstances.set (a, slot)
            (if id ∈ m₂.contextIds a slot then m₂.contextIds a slot else m₂.contextIds a slot ++ [id]) } :=
  ⟨_, _, getOrCreateSlot_slotted (m := m.registerInfo id a host port (some r) numGpus) inverse a r, rfl⟩

/-- The slot of a range is unique, and old ranges stay. -/
theorem Slotted.grows {s : Nat} {b : AgentId} {r' : ContextRange} (made : Slotted m m' a r slot)
    (h : m.slotRanges.get? (b, s) = some r') : m'.slotRanges.get? (b, s) = some r' := by
  by_cases hk : (b, s) = (a, slot)
  · rw [hk] at h ⊢
    rw [made.old r' h]
    exact made.lookup
  · rw [made.ranges _ hk]
    exact h

theorem Slotted.unique {s : Nat} (made : Slotted m m' a r slot) (h : m'.slotRanges.get? (a, s) = some r) :
    s = slot :=
  Option.some.inj (((made.inverse a s r).mpr h).symm.trans ((made.inverse a slot r).mpr made.lookup))

theorem register_consistent {host : String} {port : Option Int} {contextRange : Option ContextRange} {numGpus : Int}
    (h : Consistent m) (keeps : ∀ info, m.instances.get? id = some info → info.agentId = a ∧
      (info.contextRange = none ∨ info.contextRange = contextRange)) :
    Consistent (m.register id a host port contextRange numGpus) := by
  -- the ids under an agent, the same in both branches
  have agentIds (b : AgentId) (x : InstanceId) :
      x ∈ ((m.agentInstances.set a ((m.agentIds a).insert id)).get? b).getD [] ↔
        x ∈ m.agentIds b ∨ (b = a ∧ x = id) := by
    rw [Dict.get?_set]
    by_cases hb : a = b
    · subst hb
      rw [if_pos rfl, Option.getD_some, List.mem_insert_iff]
      simp [or_comm]
    · rw [if_neg hb]
      simp [InstanceManager.agentIds, Ne.symm hb]
  have agentNodup (b : AgentId) : (((m.agentInstances.set a ((m.agentIds a).insert id)).get? b).getD []).Nodup := by
    rw [Dict.get?_set]
    split
    · exact (h.agentNodup a).insert
    · exact h.agentNodup b
  have agent (b : AgentId) (x : InstanceId) :
      x ∈ m.agentIds b ∨ (b = a ∧ x = id) ↔ ∃ info,
        (m.instances.set id (m.newInfo id a host port contextRange numGpus)).get? x = some info ∧
          info.agentId = b := by
    rw [Dict.get?_set]
    by_cases hx : id = x
    · subst hx
      rw [if_pos rfl]
      constructor
      · rintro (hin | ⟨rfl, -⟩)
        · obtain ⟨info, hinfo, rfl⟩ := (h.agent b id).mp hin
          exact ⟨_, rfl, (keeps info hinfo).1.symm⟩
        · exact ⟨_, rfl, rfl⟩
      · rintro ⟨info, hinfo, rfl⟩
        rw [← Option.some.inj hinfo]
        exact .inr ⟨rfl, rfl⟩
    · rw [if_neg hx, h.agent b x]
      simp [Ne.symm hx]
  cases contextRange with
  | none =>
    -- an id without a range is in no slot, before and after
    refine ⟨fun b x => (agentIds b x).trans (agent b x), fun b slot x => (h.context b slot x).trans ?_, agentNodup,
      h.nodup, h.inverse, fun x info r hx hr => ?_⟩
    · show _ ↔ ∃ info r, (m.instances.set id _).get? x = some info ∧ _
      rw [Dict.get?_set]
      by_cases hx : id = x
      · subst hx
        rw [if_pos rfl]
        constructor
        · rintro ⟨info, r, hinfo, -, hr, -⟩
          rcases (keeps info hinfo).2 with e | e
          · rw [e] at hr; cases hr
          · rw [e] at hr; cases hr
        · rintro ⟨info, r, hinfo, -, hr, -⟩
          rw [← Option.some.inj hinfo] at hr
          cases hr
      · rw [if_neg hx]
        exact Iff.rfl
    · change (m.instances.set id _).get? x = some info at hx
      rw [Dict.get?_set] at hx
      split at hx
      · rw [← Option.some.inj hx] at hr
        cases hr
      · exact h.slotted x info r hx hr
  | some r =>
    obtain ⟨slot, m₂, made, e⟩ := register_range id a r h.inverse host port numGpus
    have ids : m₂.contextIds a slot = m.contextIds a slot := by
      unfold contextIds
      rw [made.contextInstances]
      rfl
    have lookup (b : AgentId) (s : Nat) : (m.register id a host port (some r) numGpus).contextIds b s =
        if (a, slot) = (b, s) then (if id ∈ m.contextIds a slot then m.contextIds a slot else m.contextIds a slot ++ [id])
        else m.contextIds b s := by
      rw [e, contextIds, Dict.get?_set, ids, made.contextInstances]
      split <;> rfl
    have mem (b : AgentId) (s : Nat) (x : InstanceId) :
        x ∈ (m.register id a host port (some r) numGpus).contextIds b s ↔
          x ∈ m.contextIds b s ∨ ((a, slot) = (b, s) ∧ x = id) := by
      rw [lookup]
      by_cases hk : (a, slot) = (b, s)
      · obtain ⟨rfl, rfl⟩ := Prod.mk.inj hk
        rw [if_pos rfl]
        split
        · simp only [true_and, iff_self_or]
          rintro rfl
          assumption
        · simp
      · simp [hk]
    have instances : (m.register id a host port (some r) numGpus).instances =
        m.instances.set id (m.newInfo id a host port (some r) numGpus) := by
      rw [e]
      exact made.instances
    have ranges : (m.register id a host port (some r) numGpus).slotRanges = m₂.slotRanges := by rw [e]
    refine ⟨fun b x => ?_, fun b s x => ?_, fun b => ?_, fun b s => ?_, fun b s r' => ?_, fun x info r' hx hr => ?_⟩
    · rw [instances, ← agent b x, ← agentIds b x, e, InstanceManager.agentIds, made.agentInstances]
      rfl
    · rw [mem, instances, ranges, Dict.get?_set]
      by_cases hx : id = x
      · subst hx
        rw [if_pos rfl]
        constructor
        · rintro (hin | ⟨hk, -⟩)
          · obtain ⟨info, r', hinfo, rfl, hr, hs⟩ := (h.context b s id).mp hin
            obtain ⟨hagent, hrange⟩ := keeps info hinfo
            rw [hr] at hrange
            obtain rfl : r' = r := hrange.elim (fun e => by cases e) fun e => Option.some.inj e
            exact ⟨_, r', rfl, hagent.symm, rfl, made.grows hs⟩
          · obtain ⟨rfl, rfl⟩ := Prod.mk.inj hk
            exact ⟨_, r, rfl, rfl, rfl, made.lookup⟩
        · rintro ⟨info, r', hinfo, rfl, hr, hs⟩
          obtain rfl := Option.some.inj hinfo
          obtain rfl : r = r' := Option.some.inj hr
          exact .inr ⟨by rw [made.unique hs]; rfl, rfl⟩
      · rw [if_neg hx, h.context b s x]
        simp only [Ne.symm hx, and_false, or_false]
        constructor
        · rintro ⟨info, r', hinfo, hb, hr, hs⟩
          exact ⟨info, r', hinfo, hb, hr, made.grows hs⟩
        · rintro ⟨info, r', hinfo, rfl, hr, hs⟩
          refine ⟨info, r', hinfo, rfl, hr, ?_⟩
          by_cases hk : (info.agentId, s) = (a, slot)
          · -- the range had a slot already, and it is this one
            obtain ⟨s', hs'⟩ := h.slotted x info r' hinfo hr
            obtain ⟨ha, rfl⟩ := Prod.mk.inj hk
            rw [ha] at hs hs' ⊢
            obtain rfl : r = r' := Option.some.inj (made.lookup.symm.trans hs)
            rw [made.unique (made.grows hs')] at hs'
            exact hs'
          · rw [made.ranges _ hk] at hs
            exact hs
    · rw [e, InstanceManager.agentIds, made.agentInstances]
      exact agentNodup b
    · rw [lookup]
      split
      · split
        · exact h.nodup a slot
        · exact List.nodup_append.mpr ⟨h.nodup a slot, List.nodup_singleton id, fun x hx y hy hxy => by
            rw [List.mem_singleton.mp hy] at hxy
            exact absurd (hxy ▸ hx) ‹_›⟩
      · exact h.nodup b s
    · rw [ranges, e]
      exact made.inverse b s r'
    · rw [instances, Dict.get?_set] at hx
      rw [ranges]
      split at hx
      · obtain rfl := Option.some.inj hx
        obtain rfl : r = r' := Option.some.inj hr
        exact ⟨slot, made.lookup⟩
      · obtain ⟨s', hs'⟩ := h.slotted x info r' hx hr
        exact ⟨s', made.grows hs'⟩

theorem perform_consistent (h : Consistent m) {op : RegistryOp} (keeps : m.KeepsPlace op) :
    Consistent (m.perform op) := by
  cases op with
  | register => exact register_consistent h keeps
  | setReady => exact setStatus_consistent h _ _
  | markUnavailable => exact setStatus_consistent h _ _
  | remove => exact remove_consistent h _

theorem run_consistent {ops : List RegistryOp} (h : Consistent m) (keeps : m.RunKeepsPlace ops) :
    Consistent (m.run ops) := by
  induction ops generalizing m with
  | nil => exact h
  | cons op ops ih => exact ih (perform_consistent h keeps.1) keeps.2

/-! ## The lookups -/

theorem mapM_get?_returns {ids : List InstanceId} (h : ∀ i ∈ ids, i ∈ m.instances) :
    ∃ infos, ids.mapM (fun i => m.instances.get? i) = some infos ∧
      ∀ info ∈ infos, ∃ i ∈ ids, m.instances.get? i = some info := by
  induction ids with
  | nil => exact ⟨[], rfl, fun _ hi => by cases hi⟩
  | cons i ids ih =>
    obtain ⟨info, hi⟩ := Dict.mem_iff.mp (h i List.mem_cons_self)
    obtain ⟨infos, hr, all⟩ := ih fun x hx => h x (List.mem_cons_of_mem _ hx)
    refine ⟨info :: infos, by simp [List.mapM_cons, hi, hr], fun info' hin => ?_⟩
    rcases List.mem_cons.mp hin with rfl | hin
    · exact ⟨i, List.mem_cons_self, hi⟩
    · obtain ⟨x, hx, hget⟩ := all info' hin
      exact ⟨x, List.mem_cons_of_mem _ hx, hget⟩

theorem readyAmong_returns {ids : List InstanceId} (h : ∀ i ∈ ids, i ∈ m.instances) :
    ∃ infos, m.readyAmong ids = some infos ∧ ∀ info ∈ infos, ∃ i ∈ ids, m.instances.get? i = some info := by
  obtain ⟨infos, hr, all⟩ := mapM_get?_returns h
  refine ⟨infos.filter (·.isReady), ?_, fun info hin => all info (List.mem_filter.mp hin).1⟩
  rw [readyAmong, hr]
  rfl

namespace Consistent

theorem mem_instances (h : Consistent m) (hin : id ∈ m.contextIds a slot) : id ∈ m.instances := by
  obtain ⟨info, r, hinfo, -⟩ := (h.context a slot id).mp hin
  exact Dict.mem_of_get? hinfo

theorem getInstancesForAgent (h : Consistent m) (a : AgentId) :
    ∃ infos, m.getInstancesForAgent a = some infos := by
  have registered : ∀ i ∈ m.agentIds a, i ∈ m.instances := by
    intro i hi
    obtain ⟨info, hinfo, -⟩ := (h.agent a i).mp hi
    exact Dict.mem_of_get? hinfo
  obtain ⟨infos, hr, -⟩ := readyAmong_returns registered
  exact ⟨infos, hr⟩

/-- The instances of a slot have the range of the slot. -/
theorem getInstancesForContext (h : Consistent m) (a : AgentId) (slot : Nat) :
    ∃ infos, m.getInstancesForContext a slot = some infos ∧
      ∀ info ∈ infos, ∃ r, info.contextRange = some r ∧ m.slotRanges.get? (a, slot) = some r := by
  have registered : ∀ i ∈ m.contextIds a slot, i ∈ m.instances := fun i hi => h.mem_instances hi
  obtain ⟨infos, hr, all⟩ := readyAmong_returns registered
  refine ⟨infos, hr, fun info hin => ?_⟩
  obtain ⟨i, hi, hget⟩ := all info hin
  obtain ⟨info', r, hinfo, -, hrange, hs⟩ := (h.context a slot i).mp hi
  obtain rfl := Option.some.inj (hget.symm.trans hinfo)
  exact ⟨r, hrange, hs⟩

theorem anyCovers (h : Consistent m) (length : Int) {ids : List InstanceId}
    (hids : ∀ i ∈ ids, i ∈ m.contextIds a slot) : ∃ b, m.anyCovers length ids = some b ∧
      (b = true → ∃ r, m.slotRanges.get? (a, slot) = some r ∧ r.contains length) := by
  induction ids with
  | nil => exact ⟨false, rfl, fun hb => by cases hb⟩
  | cons i ids ih =>
    obtain ⟨info, r, hinfo, -, hrange, hs⟩ := (h.context a slot i).mp (hids i List.mem_cons_self)
    rw [InstanceManager.anyCovers, hinfo]
    show ∃ b, (if info.contextRange.any (fun r => decide (r.contains length)) = true then some true
      else m.anyCovers length ids) = some b ∧ _
    split
    · rename_i hany
      rw [hrange] at hany
      exact ⟨true, rfl, fun _ => ⟨r, hs, of_decide_eq_true hany⟩⟩
    · exact ih fun x hx => hids x (List.mem_cons_of_mem _ hx)

theorem findByInstances (h : Consistent m) (a : AgentId) (length : Int)
    {entries : List ((AgentId × Nat) × List InstanceId)} (sub : ∀ e ∈ entries, e ∈ m.contextInstances.entries) :
    ∃ o, m.findByInstances a length entries = some o ∧
      ∀ slot, o = some slot → ∃ r, m.slotRanges.get? (a, slot) = some r ∧ r.contains length := by
  induction entries with
  | nil => exact ⟨none, rfl, fun _ ho => by cases ho⟩
  | cons e entries ih =>
    obtain ⟨⟨b, slot⟩, ids⟩ := e
    obtain ⟨o, hr, all⟩ := ih fun e he => sub e (List.mem_cons_of_mem _ he)
    rw [InstanceManager.findByInstances]
    split
    · rename_i hb
      obtain rfl : b = a := hb
      have hids : m.contextIds b slot = ids := by
        rw [contextIds, Dict.get?_iff_mem_entries.mpr (sub _ List.mem_cons_self)]
        rfl
      have indexed : ∀ i ∈ ids, i ∈ m.contextIds b slot := fun i hi => hids ▸ hi
      obtain ⟨covers, hc, contained⟩ := h.anyCovers length indexed
      rw [hc]
      show ∃ o, (if covers = true then _ else m.findByInstances b length entries) = some o ∧ _
      split
      · refine ⟨some slot, rfl, fun slot' ho => ?_⟩
        obtain rfl := Option.some.inj ho
        exact contained ‹_›
      · exact ⟨o, hr, all⟩
    · exact ⟨o, hr, all⟩

theorem mem_sortedSlots {e : Nat × ContextRange} :
    e ∈ m.sortedSlots a ↔ m.slotRanges.get? (a, e.1) = some e.2 := by
  rw [sortedSlots, List.mem_insertionSort, List.mem_map, Dict.get?_iff_mem_entries]
  constructor
  · rintro ⟨⟨⟨b, slot⟩, r⟩, hin, rfl⟩
    obtain ⟨hmem, hb⟩ := List.mem_filter.mp hin
    obtain rfl : b = a := eq_of_beq hb
    exact hmem
  · intro hin
    exact ⟨((a, e.1), e.2), List.mem_filter.mpr ⟨hin, beq_self_eq_true a⟩, rfl⟩

/-- A slot that is found has a range that contains the length. -/
theorem findContextSlot (h : Consistent m) (a : AgentId) (length : Int) :
    ∃ o, m.findContextSlot a length = some o ∧
      ∀ slot, o = some slot → ∃ r, m.slotRanges.get? (a, slot) = some r ∧ r.contains length := by
  rw [InstanceManager.findContextSlot]
  split
  · rename_i e he
    refine ⟨some e.1, rfl, fun slot ho => ?_⟩
    obtain rfl := Option.some.inj ho
    have covers := List.find?_some (p := fun e : Nat × ContextRange => decide (e.2.contains length)) he
    exact ⟨e.2, mem_sortedSlots.mp (List.mem_of_find?_eq_some he), of_decide_eq_true covers⟩
  · exact h.findByInstances a length fun e he => he

end Consistent

end InstanceManager

/-- While no registered id is registered again under another agent or another range, the indexes hold
exactly what is registered, no lookup raises, and the instances of the slot found for a length serve a
range that contains it. -/
theorem run_indexes (ops : List InstanceManager.RegistryOp) (m : InstanceManager)
    (hrun : InstanceManager.init.run ops = m) (keeps : InstanceManager.init.RunKeepsPlace ops) :
    (∀ a id, id ∈ m.agentIds a ↔ ∃ info, m.instances.get? id = some info ∧ info.agentId = a) ∧
    (∀ a slot id, id ∈ m.contextIds a slot ↔ ∃ info r, m.instances.get? id = some info ∧ info.agentId = a ∧
      info.contextRange = some r ∧ m.slotRanges.get? (a, slot) = some r) ∧
    (∀ a slot, (m.contextIds a slot).Nodup) ∧
    (∀ a slot r, m.rangeSlots.get? (a, r) = some slot ↔ m.slotRanges.get? (a, slot) = some r) ∧
    (∀ a, ∃ infos, m.getInstancesForAgent a = some infos) ∧
    (∀ a slot, ∃ infos, m.getInstancesForContext a slot = some infos) ∧
    (∀ a length, ∃ o, m.findContextSlot a length = some o) ∧
    ∀ a length slot infos, m.findContextSlot a length = some (some slot) →
      m.getInstancesForContext a slot = some infos →
        ∀ info ∈ infos, ∃ r, info.contextRange = some r ∧ r.contains length := by
  subst hrun
  have h := InstanceManager.run_consistent InstanceManager.init_consistent keeps
  refine ⟨h.agent, h.context, h.nodup, h.inverse, h.getInstancesForAgent,
    fun a slot => (h.getInstancesForContext a slot).imp fun _ hi => hi.1,
    fun a length => (h.findContextSlot a length).imp fun _ ho => ho.1, fun a length slot infos hs hi info hin => ?_⟩
  obtain ⟨o, ho, found⟩ := h.findContextSlot a length
  obtain ⟨r, hr, contained⟩ := found slot (Option.some.inj (ho.symm.trans hs))
  obtain ⟨infos', hi', all⟩ := h.getInstancesForContext a slot
  obtain rfl := Option.some.inj (hi'.symm.trans hi)
  obtain ⟨r', hrange, hr'⟩ := all info hin
  obtain rfl := Option.some.inj (hr.symm.trans hr')
  exact ⟨r, hrange, contained⟩

/-- Stubs of two ranges, an instance that registers over its stub, and one that goes. -/
def stubOps : List InstanceManager.RegistryOp :=
  [.register "a-0-8-0" "a" "127.0.0.1" none (some (0, 8)) 1, .register "a-8-16-0" "a" "127.0.0.1" none (some (8, 16)) 1,
   .register "a-0-8-0" "a" "10.0.0.1" (some 8001) (some (0, 8)) 1, .setReady "a-0-8-0", .remove "a-8-16-0"]

theorem run_indexes_stubOps : ∃ infos, (InstanceManager.init.run stubOps).findContextSlot "a" 5 = some (some 0) ∧
    (InstanceManager.init.run stubOps).getInstancesForContext "a" 0 = some infos ∧ infos.length = 1 ∧
    ∀ info ∈ infos, ∃ r, info.contextRange = some r ∧ r.contains 5 := by
  have returns : ((InstanceManager.init.run stubOps).getInstancesForContext "a" 0).map (fun infos =>
      decide (infos.length = 1 ∧ (InstanceManager.init.run stubOps).findContextSlot "a" 5 = some (some 0))) =
      some true := by
    decide +kernel
  obtain ⟨infos, hi, h⟩ := Option.map_eq_some_iff.mp returns
  obtain ⟨hlen, hs⟩ := of_decide_eq_true h
  obtain ⟨-, -, -, -, -, -, -, contained⟩ := run_indexes stubOps _ rfl (by decide +kernel)
  exact ⟨infos, hs, hi, hlen, contained "a" 5 0 infos hs hi⟩

/-- An instance changes its agent and is removed: the old agent keeps the id, and its lookup raises. -/
theorem reregistered_raises :
    let m := InstanceManager.init.run [.register "x" "a" "127.0.0.1" none (some (0, 8)) 1, .setReady "x",
      .register "x" "b" "127.0.0.1" none (some (0, 8)) 1, .remove "x"]
    m.instances.get? "x" = none ∧ "x" ∈ m.agentIds "a" ∧ m.getInstancesForAgent "a" = none ∧
      m.getInstancesForContext "a" 0 = none := by
  decide +kernel

end CoreFlow
