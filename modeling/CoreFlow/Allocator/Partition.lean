import CoreFlow.Allocator.RangeStats
import CoreFlow.Controller.Indexes

/-!
# Planning and routing over a chain of ranges

The planner counts the calls of a range with both bounds in it, the registry finds slots of half-open
ranges. Over a contiguous chain the two differ at the boundaries only: a call at a boundary is counted
once more, in the range that ends there.
-/

namespace CoreFlow

/-- Consecutive pairs of bounds. -/
def rangesFrom (lower : Int) : List Int → List ContextRange
  | [] => []
  | upper :: rest => (lower, upper) :: rangesFrom upper rest

/-- Contiguous ranges `0 = c₀ < c₁ < … < c_k`, given by `c₁, …, c_k`. -/
structure ContextChain where
  bounds : List Int
  increasing : (0 :: bounds).Pairwise (· < ·)

namespace ContextChain

def ranges (chain : ContextChain) : List ContextRange := rangesFrom 0 chain.bounds

/-- `c_k`. -/
def top (chain : ContextChain) : Int := chain.bounds.getLastD 0

end ContextChain

section
variable {lower x : Int} {bounds : List Int} {r : ContextRange}

theorem rangesFrom_bounds (h : (lower :: bounds).Pairwise (· < ·)) (hr : r ∈ rangesFrom lower bounds) :
    lower ≤ r.1 ∧ r.1 < r.2 := by
  induction bounds generalizing lower with
  | nil => cases hr
  | cons upper rest ih =>
    obtain ⟨hlt, hrest⟩ := List.pairwise_cons.mp h
    have hup := hlt upper List.mem_cons_self
    rcases List.mem_cons.mp hr with rfl | hr
    · exact ⟨le_refl lower, hup⟩
    · have := ih hrest hr
      omega

theorem le_getLastD (h : (lower :: bounds).Pairwise (· < ·)) : lower ≤ bounds.getLastD lower := by
  induction bounds generalizing lower with
  | nil => exact le_refl lower
  | cons upper rest ih =>
    obtain ⟨hlt, hrest⟩ := List.pairwise_cons.mp h
    have hup := hlt upper List.mem_cons_self
    have := ih hrest
    rw [List.getLastD_cons]
    omega

/-- A length below the top is in one half-open range, and counted besides it in the one that ends there. -/
theorem exists_range (h : (lower :: bounds).Pairwise (· < ·)) (hlow : lower ≤ x) (htop : x < bounds.getLastD lower) :
    ∃ r ∈ rangesFrom lower bounds, r.contains x ∧
      ∀ r' ∈ rangesFrom lower bounds, r' ≠ r → (r'.1 ≤ x ∧ x ≤ r'.2 ↔ r'.2 = x) := by
  induction bounds generalizing lower with
  | nil => exact absurd htop (not_lt.mpr hlow)
  | cons upper rest ih =>
    obtain ⟨hlt, hrest⟩ := List.pairwise_cons.mp h
    have hup := hlt upper List.mem_cons_self
    by_cases hx : x < upper
    · refine ⟨(lower, upper), List.mem_cons_self, ⟨hlow, hx⟩, fun r' hin hne => ?_⟩
      rcases List.mem_cons.mp hin with rfl | hin
      · exact absurd rfl hne
      · have := rangesFrom_bounds hrest hin
        omega
    · rw [List.getLastD_cons] at htop
      obtain ⟨r, hr, hc, others⟩ := ih hrest (not_lt.mp hx) htop
      refine ⟨r, List.mem_cons_of_mem _ hr, hc, fun r' hin hne => ?_⟩
      rcases List.mem_cons.mp hin with rfl | hin
      · show lower ≤ x ∧ x ≤ upper ↔ upper = x
        omega
      · exact others r' hin hne

/-- How often a length is counted over the chain. -/
theorem countP_rangesFrom (h : (lower :: bounds).Pairwise (· < ·)) (x : Int) :
    (rangesFrom lower bounds).countP (fun r => decide (r.1 ≤ x ∧ x ≤ r.2)) =
      (if lower ≤ x ∧ x < bounds.getLastD lower then 1 else 0) + if x ∈ bounds then 1 else 0 := by
  induction bounds generalizing lower with
  | nil => simp [rangesFrom]
  | cons upper rest ih =>
    obtain ⟨hlt, hrest⟩ := List.pairwise_cons.mp h
    have hup := hlt upper List.mem_cons_self
    have hle := le_getLastD hrest
    rw [rangesFrom, List.countP_cons, ih hrest, List.getLastD_cons]
    have later : x ∈ rest → upper < x := fun hin => (List.pairwise_cons.mp hrest).1 x hin
    by_cases hx : x = upper
    · subst hx
      have hnot : x ∉ rest := fun hin => lt_irrefl x (later hin)
      have hlow : lower ≤ x := hup.le
      simp only [hnot, hlow, List.mem_cons, true_or, true_and, le_refl, and_self, decide_true, if_true, if_false]
    · simp only [List.mem_cons, hx, false_or, decide_eq_true_eq]
      by_cases hin : x ∈ rest
      · have := later hin
        split_ifs <;> omega
      · simp only [hin, if_false]
        split_ifs <;> omega

end

/-- Counting by ranges is counting by calls. -/
theorem sum_countP (ranges : List ContextRange) (calls : List TraceNode) :
    (ranges.map fun r => calls.countP (·.inRange r.1 r.2)).sum =
      (calls.map fun call => ranges.countP fun r => call.inRange r.1 r.2).sum := by
  induction calls with
  | nil => simp
  | cons call calls ih =>
    rw [List.map_cons, List.sum_cons, ← ih]
    clear ih
    induction ranges with
    | nil => rfl
    | cons r ranges ih =>
      rw [List.map_cons, List.sum_cons, ih, List.map_cons, List.sum_cons, List.countP_cons, List.countP_cons]
      omega

theorem sum_map_add_ite (p q : TraceNode → Prop) [DecidablePred p] [DecidablePred q] (calls : List TraceNode) :
    (calls.map fun call => (if p call then 1 else 0) + if q call then 1 else 0).sum =
      calls.countP (fun call => decide (p call)) + calls.countP fun call => decide (q call) := by
  induction calls with
  | nil => rfl
  | cons call calls ih =>
    rw [List.map_cons, List.sum_cons, ih, List.countP_cons, List.countP_cons]
    simp only [decide_eq_true_eq]
    omega

namespace InstanceManager

/-- Some call of a run registers the range under the agent. -/
def Registers (ops : List RegistryOp) (a : AgentId) (r : ContextRange) : Prop :=
  ∃ id host port numGpus, RegistryOp.register id a host port (some r) numGpus ∈ ops

/-- The two slot indexes are inverse, and they hold the ranges of `Given`. -/
structure SlotsOf (m : InstanceManager) (Given : AgentId → ContextRange → Prop) : Prop where
  inverse : ∀ a slot r, m.rangeSlots.get? (a, r) = some slot ↔ m.slotRanges.get? (a, slot) = some r
  given : ∀ a r, (∃ slot, m.slotRanges.get? (a, slot) = some r) ↔ Given a r

theorem setStatus_slots (m : InstanceManager) (id : InstanceId) (status : InstanceStatus) :
    (m.setStatus id status).rangeSlots = m.rangeSlots ∧ (m.setStatus id status).slotRanges = m.slotRanges := by
  unfold setStatus
  split <;> exact ⟨rfl, rfl⟩

theorem remove_slots (m : InstanceManager) (id : InstanceId) :
    (m.remove id).rangeSlots = m.rangeSlots ∧ (m.remove id).slotRanges = m.slotRanges := by
  unfold remove
  split <;> exact ⟨rfl, rfl⟩

variable {m m' : InstanceManager} {Given : AgentId → ContextRange → Prop} {a : AgentId} {id : InstanceId}

theorem SlotsOf.congr (h : SlotsOf m Given) (same : m'.rangeSlots = m.rangeSlots ∧ m'.slotRanges = m.slotRanges) :
    SlotsOf m' Given := by
  constructor
  · rw [same.1, same.2]
    exact h.inverse
  · rw [same.2]
    exact h.given

theorem SlotsOf.register (h : SlotsOf m Given) (id : InstanceId) (a : AgentId) (host : String) (port : Option Int)
    (r : ContextRange) (numGpus : Int) : SlotsOf (m.register id a host port (some r) numGpus)
      fun b r' => Given b r' ∨ b = a ∧ r' = r := by
  obtain ⟨slot, m₂, made, he⟩ := register_range id a r h.inverse host port numGpus
  rw [he]
  refine ⟨made.inverse, fun b r' => ⟨?_, ?_⟩⟩
  · rintro ⟨s, hs⟩
    by_cases hk : (b, s) = (a, slot)
    · obtain ⟨rfl, rfl⟩ := Prod.mk.inj hk
      exact .inr ⟨rfl, Option.some.inj (hs.symm.trans made.lookup)⟩
    · exact .inl ((h.given b r').mp ⟨s, (made.ranges _ hk).symm.trans hs⟩)
  · rintro (hg | ⟨rfl, rfl⟩)
    · obtain ⟨s, hs⟩ := (h.given b r').mpr hg
      exact ⟨s, made.grows hs⟩
    · exact ⟨slot, made.lookup⟩

/-- After a run the slots of an agent have the ranges that were registered under it. -/
theorem SlotsOf.run (h : SlotsOf m Given) (ops : List RegistryOp) :
    SlotsOf (m.run ops) fun a r => Given a r ∨ Registers ops a r := by
  induction ops generalizing m Given with
  | nil =>
    refine ⟨h.inverse, fun a r => (h.given a r).trans ⟨.inl, ?_⟩⟩
    rintro (hg | ⟨_, _, _, _, hin⟩)
    · exact hg
    · cases hin
  | cons op ops ih =>
    have skip (h' : SlotsOf (m.perform op) Given) (other : ∀ a r, Registers (op :: ops) a r ↔ Registers ops a r) :
        SlotsOf (m.run (op :: ops)) fun a r => Given a r ∨ Registers (op :: ops) a r := by
      simp only [other]
      exact ih h'
    cases op with
    | register id a host port range numGpus =>
      cases range with
      | none => exact skip (h.congr ⟨rfl, rfl⟩) fun a r => by simp [Registers]
      | some r =>
        have step := ih (h.register id a host port r numGpus)
        refine ⟨step.inverse, fun b r' => (step.given b r').trans ?_⟩
        rw [or_assoc]
        refine or_congr_right ⟨?_, ?_⟩
        · rintro (⟨rfl, rfl⟩ | ⟨i, ho, p, n, hin⟩)
          · exact ⟨id, host, port, numGpus, List.mem_cons_self⟩
          · exact ⟨i, ho, p, n, List.mem_cons_of_mem _ hin⟩
        · rintro ⟨i, ho, p, n, hin⟩
          rcases List.mem_cons.mp hin with e | hin
          · cases e
            exact .inl ⟨rfl, rfl⟩
          · exact .inr ⟨i, ho, p, n, hin⟩
    | setReady id => exact skip (h.congr (setStatus_slots m id .ready)) fun a r => by simp [Registers]
    | markUnavailable id => exact skip (h.congr (setStatus_slots m id .unavailable)) fun a r => by simp [Registers]
    | remove id => exact skip (h.congr (remove_slots m id)) fun a r => by simp [Registers]

theorem init_slotsOf : SlotsOf init fun _ _ => False :=
  ⟨fun a slot r => by simp [init], fun a r => by simp [init]⟩

/-- The slot of the range that contains a length is found. -/
theorem SlotsOf.findContextSlot (h : SlotsOf m Given) {r : ContextRange} {length : Int} (hr : Given a r)
    (hc : r.contains length) (unique : ∀ r', Given a r' → r'.contains length → r' = r) :
    ∃ slot, m.findContextSlot a length = some (some slot) ∧ m.slotRanges.get? (a, slot) = some r := by
  obtain ⟨slot, hslot⟩ := (h.given a r).mpr hr
  rw [InstanceManager.findContextSlot]
  cases he : (m.sortedSlots a).find? fun e => decide (e.2.contains length) with
  | none =>
    have := List.find?_eq_none.mp he (slot, r) (Consistent.mem_sortedSlots.mpr hslot)
    exact absurd (decide_eq_true hc) this
  | some e =>
    have found := Consistent.mem_sortedSlots.mp (List.mem_of_find?_eq_some he)
    have covers := List.find?_some (p := fun e : Nat × ContextRange => decide (e.2.contains length)) he
    rw [unique e.2 ((h.given a e.2).mp ⟨e.1, found⟩) (of_decide_eq_true covers)] at found
    exact ⟨e.1, rfl, found⟩

end InstanceManager

/-- Over a chain of ranges that an agent has registered, each call below the top is counted in the range
whose slot is found for its length, and in no other but the one that ends at its length, if there is
one; the counts of the ranges sum to the calls below the top and those at the end of a range. -/
theorem partition_agrees (chain : ContextChain) (agentId : AgentId) (ops : List InstanceManager.RegistryOp)
    (registered : ∀ r, InstanceManager.Registers ops agentId r ↔ r ∈ chain.ranges) (nodeList : NodeList)
    (calls : List TraceNode) (recorded : recordedCalls nodeList agentId = some calls) :
    (∀ call ∈ calls, 0 ≤ call.contextLength → call.contextLength < chain.top →
      ∃ slot, ∃ r ∈ chain.ranges,
        (InstanceManager.init.run ops).findContextSlot agentId call.contextLength = some (some slot) ∧
        (InstanceManager.init.run ops).slotRanges.get? (agentId, slot) = some r ∧
        call.inRange r.1 r.2 = true ∧
        ∀ r' ∈ chain.ranges, r' ≠ r → (call.inRange r'.1 r'.2 = true ↔ r'.2 = call.contextLength)) ∧
    ∃ tallies, chain.ranges.mapM (fun r => rangeTally nodeList r.1 r.2 agentId) = some tallies ∧
      (tallies.map (·.totalLlmCalls)).sum =
        calls.countP (fun call => decide (0 ≤ call.contextLength ∧ call.contextLength < chain.top)) +
        calls.countP fun call => decide (call.contextLength ∈ chain.bounds) := by
  have slots := InstanceManager.init_slotsOf.run ops
  simp only [false_or] at slots
  constructor
  · intro call _ hlow htop
    obtain ⟨r, hr, hc, others⟩ := exists_range chain.increasing hlow htop
    have unique (r' : ContextRange) (hr' : InstanceManager.Registers ops agentId r')
        (hc' : r'.contains call.contextLength) : r' = r := by
      by_contra hne
      have := (others r' ((registered r').mp hr') hne).mp ⟨hc'.1, hc'.2.le⟩
      exact absurd hc'.2 (not_lt.mpr this.le)
    obtain ⟨slot, hs, hslot⟩ := slots.findContextSlot ((registered r).mpr hr) hc unique
    refine ⟨slot, r, hr, hs, hslot, decide_eq_true ⟨hc.1, hc.2.le⟩, fun r' hr' hne => ?_⟩
    exact decide_eq_true_iff.trans (others r' hr' hne)
  · have each (ranges : List ContextRange) : ∃ tallies,
        ranges.mapM (fun r => rangeTally nodeList r.1 r.2 agentId) = some tallies ∧
        tallies.map (·.totalLlmCalls) = ranges.map fun r => calls.countP (·.inRange r.1 r.2) := by
      induction ranges with
      | nil => exact ⟨[], rfl, rfl⟩
      | cons r ranges ih =>
        obtain ⟨t, ht, hcount⟩ := rangeTally_totalLlmCalls recorded r.1 r.2
        obtain ⟨tallies, hts, hcounts⟩ := ih
        exact ⟨t :: tallies, by simp [List.mapM_cons, ht, hts], by rw [List.map_cons, List.map_cons, hcount, hcounts]⟩
    obtain ⟨tallies, hts, hcounts⟩ := each chain.ranges
    refine ⟨tallies, hts, ?_⟩
    rw [hcounts, sum_countP, ← sum_map_add_ite]
    congr 1
    exact List.map_congr_left fun call _ => countP_rangesFrom chain.increasing call.contextLength

/-- Ranges `(0, 2000)` and `(2000, 4000)`. -/
def twoRanges : ContextChain := ⟨[2000, 4000], by decide⟩

def twoRangesOps : List InstanceManager.RegistryOp :=
  [.register "a-0" "a" "127.0.0.1" none (some (0, 2000)) 1, .register "a-1" "a" "127.0.0.1" none (some (2000, 4000)) 1]

/-- One call inside the first range, one at the inner boundary. -/
def boundaryTrace : NodeList :=
  Dict.empty.set "q" [⟨"a", "1:0", .number 1000, .number 5, .parts [500]⟩, ⟨"a", "1:1", .number 2000, .number 5, .number 0⟩]

theorem partition_agrees_twoRanges : ∃ tallies,
    twoRanges.ranges.mapM (fun r => rangeTally boundaryTrace r.1 r.2 "a") = some tallies ∧
      (tallies.map (·.totalLlmCalls)).sum = 3 := by
  have registered (r : ContextRange) : InstanceManager.Registers twoRangesOps "a" r ↔ r ∈ twoRanges.ranges := by
    simp [InstanceManager.Registers, twoRangesOps, twoRanges, ContextChain.ranges, rangesFrom]
    grind
  obtain ⟨-, tallies, hts, hsum⟩ := partition_agrees twoRanges "a" twoRangesOps registered boundaryTrace _ (by rfl)
  exact ⟨tallies, hts, hsum.trans (by decide +kernel)⟩

/-- The call at the boundary is counted in both ranges. -/
theorem boundary_counted_twice : (rangeTally boundaryTrace 0 2000 "a").map (·.totalLlmCalls) = some 2 ∧
    (rangeTally boundaryTrace 2000 4000 "a").map (·.totalLlmCalls) = some 1 ∧
    (recordedCalls boundaryTrace "a").map (·.countP fun call => decide (call.contextLength < 4000)) = some 2 := by
  decide +kernel

end CoreFlow
