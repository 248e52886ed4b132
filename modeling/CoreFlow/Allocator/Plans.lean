import CoreFlow.Allocator.Orchestrator
import CoreFlow.Lib.Walks
import Mathlib.Algebra.Order.BigOperators.Group.List
import Mathlib.Tactic.Linarith

/-!
# The partition plans are cheapest chains

The positive entries of a throughput cache are the edges of a graph on the context indices, where an
edge costs the inverse of its throughput. The rows of `dp` are the layers of the cheapest walks from
`0`, `parent` holds the choices among the edges, and a plan is the route to the maximal index.
-/

namespace CoreFlow

/-- The positive entries, as edges in the order of the cache. -/
def ThroughputCache.graph {maxContextIdx : Nat} (cache : ThroughputCache maxContextIdx) : Graph Nat Segment ℚ where
  edges := (cache.items.entries.filter fun item => 0 < item.2).map fun item => ⟨item.1.1, item.1.2, item.2⟩
  src := Segment.loIdx
  dst := Segment.hiIdx
  cost := fun segment => 1 / segment.throughput

/-- Positive entries that lead contiguously from `0` to the maximal index. -/
abbrev ThroughputCache.Chain {maxContextIdx : Nat} (cache : ThroughputCache maxContextIdx) (chain : List Segment) : Prop :=
  cache.graph.Walk 0 chain maxContextIdx

/-- The sum of the inverse throughputs. -/
abbrev ThroughputCache.inverseSum {maxContextIdx : Nat} (cache : ThroughputCache maxContextIdx) (chain : List Segment) : ℚ :=
  cache.graph.weight chain

namespace ThroughputCache
variable {maxContextIdx : Nat} {cache : ThroughputCache maxContextIdx} {segment : Segment} {v : Nat}

theorem mem_edges : segment ∈ cache.graph.edges ↔
    cache.items.get? (segment.loIdx, segment.hiIdx) = some segment.throughput ∧ 0 < segment.throughput := by
  rw [Dict.get?_iff_mem_entries]
  simp only [graph, List.mem_map, List.mem_filter, decide_eq_true_eq]
  constructor
  · rintro ⟨item, ⟨hin, hpos⟩, rfl⟩
    exact ⟨hin, hpos⟩
  · rintro ⟨hin, hpos⟩
    exact ⟨_, ⟨hin, hpos⟩, rfl⟩

theorem edge_bounded (h : segment ∈ cache.graph.edges) :
    segment.loIdx < segment.hiIdx ∧ segment.hiIdx ≤ maxContextIdx :=
  cache.bounded _ (Dict.mem_of_get? (mem_edges.mp h).1)

theorem edge_pos (h : segment ∈ cache.graph.edges) : 0 < segment.throughput := (mem_edges.mp h).2

theorem into_eq_nil (h : v = 0 ∨ maxContextIdx < v) : cache.graph.into v = [] := by
  refine List.eq_nil_iff_forall_not_mem.mpr fun segment hin => ?_
  obtain ⟨he, hv⟩ := Graph.mem_into.mp hin
  have hv : segment.hiIdx = v := hv
  have := edge_bounded he
  omega

end ThroughputCache

/-- The transition of an edge. -/
def Segment.transition (segment : Segment) : Transition := ⟨segment.loIdx, 1 / segment.throughput, segment.throughput⟩

theorem foldl_addTransition (items : List ((Nat × Nat) × ℚ)) (transitions : Dict Nat (List Transition)) (hi : Nat) :
    ((items.foldl addTransition transitions).get? hi).getD [] =
      (transitions.get? hi).getD [] ++
        (((items.filter fun item => 0 < item.2).map fun item => (⟨item.1.1, item.1.2, item.2⟩ : Segment)).filter
          fun segment => segment.hiIdx = hi).map Segment.transition := by
  induction items generalizing transitions with
  | nil => simp
  | cons item items ih =>
    rw [List.foldl_cons, ih, addTransition]
    by_cases hpos : item.2 ≤ 0
    · simp [hpos, not_lt.mpr hpos]
    · by_cases hhi : item.1.2 = hi
      · simp [hpos, not_le.mp hpos, hhi, Segment.transition]
      · simp [hpos, not_le.mp hpos, hhi, Dict.get?_set_ne]

theorem get?_validTransitions {maxContextIdx : Nat} (cache : ThroughputCache maxContextIdx) (hi : Nat) :
    ((validTransitions cache).get? hi).getD [] = (cache.graph.into hi).map Segment.transition := by
  rw [validTransitions, foldl_addTransition]
  simp [Graph.into, ThroughputCache.graph]

/-! ## The tables -/

namespace PartitionTables
variable {maxContextIdx : Nat} {cache : ThroughputCache maxContextIdx} {tables : PartitionTables} {k v : Nat}

/-- `dp[k][v]`. -/
def cost (tables : PartitionTables) (k v : Nat) : WithTop ℚ := (tables.dp.get? (k, v)).elim ⊤ WithTop.some

/-- A cell holds the cost of the chosen edge, and its `parent` entry the edge. -/
structure Holds (cache : ThroughputCache maxContextIdx) (row : Nat → WithTop ℚ) (chosen : Option Segment) (k v : Nat)
    (tables : PartitionTables) : Prop where
  cost : tables.cost k v = chosen.elim ⊤ (cache.graph.through row)
  parent : tables.parent.get? (k, v) = chosen.map fun segment => (segment.loIdx, segment.throughput)

/-- Nothing but one cell is written. -/
structure Only (k v : Nat) (tables tables' : PartitionTables) : Prop where
  dp : ∀ key, key ≠ (k, v) → tables'.dp.get? key = tables.dp.get? key
  parent : ∀ key, key ≠ (k, v) → tables'.parent.get? key = tables.parent.get? key

theorem Only.trans {t₁ t₂ t₃ : PartitionTables} (h : Only k v t₁ t₂) (h' : Only k v t₂ t₃) : Only k v t₁ t₃ :=
  ⟨fun key hkey => (h'.dp key hkey).trans (h.dp key hkey),
    fun key hkey => (h'.parent key hkey).trans (h.parent key hkey)⟩

theorem Only.cost {tables' : PartitionTables} (h : Only k v tables tables') {k' v' : Nat} (hne : (k', v') ≠ (k, v)) :
    tables'.cost k' v' = tables.cost k' v' := by rw [PartitionTables.cost, h.dp _ hne, PartitionTables.cost]

theorem relax_only (tr : Transition) : Only k v tables (relax k v tables tr) := by
  rw [relax]
  split
  · exact ⟨fun _ _ => rfl, fun _ _ => rfl⟩
  · dsimp only
    split
    · exact ⟨fun key hkey => Dict.get?_set_ne _ _ hkey.symm, fun key hkey => Dict.get?_set_ne _ _ hkey.symm⟩
    · exact ⟨fun _ _ => rfl, fun _ _ => rfl⟩

/-- A transition is taken if going through it costs less than the cell. -/
theorem relax_of_lt (tr : Transition) (h : tables.cost k tr.prevIdx + tr.cost < tables.cost (k + 1) v) :
    (relax (k + 1) v tables tr).cost (k + 1) v = tables.cost k tr.prevIdx + tr.cost ∧
      (relax (k + 1) v tables tr).parent.get? (k + 1, v) = some (tr.prevIdx, tr.throughput) := by
  cases hprev : tables.dp.get? (k, tr.prevIdx) with
  | none => simp [cost, hprev] at h
  | some prevCost =>
    have hlt : (tables.dp.get? (k + 1, v)).all (fun cost => decide (prevCost + tr.cost < cost)) = true := by
      rw [cost, hprev, Option.elim_some, ← WithTop.coe_add, cost] at h
      cases hcell : tables.dp.get? (k + 1, v) with
      | none => rfl
      | some old =>
        rw [hcell] at h
        exact decide_eq_true (WithTop.coe_lt_coe.mp h)
    rw [relax, Nat.add_sub_cancel, hprev]
    dsimp only
    rw [if_pos hlt]
    simp [cost, hprev]

theorem relax_of_not_lt (tr : Transition) (h : ¬ tables.cost k tr.prevIdx + tr.cost < tables.cost (k + 1) v) :
    relax (k + 1) v tables tr = tables := by
  rw [relax, Nat.add_sub_cancel]
  cases hprev : tables.dp.get? (k, tr.prevIdx) with
  | none => rfl
  | some prevCost =>
    refine if_neg fun hall => h ?_
    rw [cost, hprev, Option.elim_some, ← WithTop.coe_add, cost]
    cases hcell : tables.dp.get? (k + 1, v) with
    | none => exact WithTop.coe_lt_top _
    | some old =>
      rw [hcell] at hall
      exact WithTop.coe_lt_coe.mpr (of_decide_eq_true hall)

/-- Relaxing an edge into a cell adds it to those that are chosen from. -/
theorem relax_holds {row : Nat → WithTop ℚ} {es : List Segment} {segment : Segment}
    (hrow : ∀ u, tables.cost k u = row u) (h : Holds cache row (cache.graph.choice row es) (k + 1) v tables) :
    Holds cache row (cache.graph.choice row (es ++ [segment])) (k + 1) v
      (relax (k + 1) v tables segment.transition) := by
  have hthrough : cache.graph.through row segment = tables.cost k segment.loIdx + segment.transition.cost := by
    rw [hrow]
    rfl
  rw [Graph.choice_concat, ← h.cost, hthrough]
  by_cases hnew : tables.cost k segment.loIdx + segment.transition.cost < tables.cost (k + 1) v
  · rw [if_pos hnew]
    obtain ⟨hcost, hparent⟩ := relax_of_lt segment.transition hnew
    exact ⟨hcost.trans hthrough.symm, hparent⟩
  · rw [if_neg hnew, relax_of_not_lt segment.transition hnew]
    exact h

theorem foldl_relax_only (trs : List Transition) : Only k v tables (trs.foldl (relax k v) tables) := by
  induction trs generalizing tables with
  | nil => exact ⟨fun _ _ => rfl, fun _ _ => rfl⟩
  | cons tr trs ih => exact (relax_only tr).trans ih

/-- A cell that is filled from scratch holds the choice among the edges that end there. -/
theorem fillCell_holds {row : Nat → WithTop ℚ} (hrow : ∀ u, tables.cost k u = row u)
    (hempty : Holds cache row none (k + 1) v tables) :
    Holds cache row (cache.graph.choice row (cache.graph.into v)) (k + 1) v
      (fillCell (validTransitions cache) (k + 1) tables v) := by
  rw [fillCell, get?_validTransitions]
  generalize cache.graph.into v = es
  induction es using List.reverseRecOn with
  | nil => exact hempty
  | append_singleton es segment ih =>
    rw [List.map_append, List.foldl_append]
    refine relax_holds (fun u => ?_) ih
    rw [(foldl_relax_only _).cost (by simp), hrow]

theorem fillCell_only (transitions : Dict Nat (List Transition)) : Only k v tables (fillCell transitions k tables v) :=
  foldl_relax_only _

/-- The rows up to `k` hold the layers, and the cells of the next one before the index `n`. -/
structure Filled (cache : ThroughputCache maxContextIdx) (k n : Nat) (tables : PartitionTables) : Prop where
  origin : ∀ v, tables.cost 0 v = cache.graph.layer 0 0 v
  done : ∀ j v, j < k ∨ j = k ∧ v < n → Holds cache (cache.graph.layer 0 j)
    (cache.graph.choice (cache.graph.layer 0 j) (cache.graph.into v)) (j + 1) v tables
  rest : ∀ j v row, k < j ∨ j = k ∧ n ≤ v → Holds cache row none (j + 1) v tables

theorem Filled.layer {n : Nat} (h : Filled cache k n tables) {j : Nat} (hj : j ≤ k) (v : Nat) :
    tables.cost j v = cache.graph.layer 0 j v := by
  cases j with
  | zero => exact h.origin v
  | succ j => exact (h.done j v (Or.inl hj)).cost

theorem Holds.of_only {tables' : PartitionTables} {row : Nat → WithTop ℚ} {chosen : Option Segment} {k' v' : Nat}
    (h : Holds cache row chosen k' v' tables) (ho : Only k v tables tables') (hne : (k', v') ≠ (k, v)) :
    Holds cache row chosen k' v' tables' :=
  ⟨(ho.cost hne).trans h.cost, (ho.parent _ hne).trans h.parent⟩

theorem fillCell_filled {n : Nat} (h : Filled cache k n tables) :
    Filled cache k (n + 1) (fillCell (validTransitions cache) (k + 1) tables n) := by
  have only : Only (k + 1) n tables (fillCell (validTransitions cache) (k + 1) tables n) := fillCell_only _
  refine ⟨fun v => ?_, fun j v hv => ?_, fun j v row hv => ?_⟩
  · rw [only.cost (by simp), h.origin]
  · by_cases hcell : j = k ∧ v = n
    · obtain ⟨rfl, rfl⟩ := hcell
      exact fillCell_holds (h.layer (le_refl _)) (h.rest _ _ _ (Or.inr ⟨rfl, le_refl _⟩))
    · refine (h.done j v (by omega)).of_only only ?_
      simp only [ne_eq, Prod.mk.injEq]
      omega
  · refine (h.rest j v row (by omega)).of_only only ?_
    simp only [ne_eq, Prod.mk.injEq]
    omega

theorem foldl_fillCell_filled (n : Nat) (h : Filled cache k 1 tables) :
    Filled cache k (n + 1) ((List.range' 1 n).foldl (fillCell (validTransitions cache) (k + 1)) tables) := by
  induction n with
  | zero => exact h
  | succ n ih =>
    rw [List.range'_1_concat, List.foldl_append, Nat.add_comm 1 n]
    exact fillCell_filled ih

/-- Nothing ends at an index outside the range, so a row is complete when the loop ends. -/
theorem Filled.shift (h : Filled cache k (maxContextIdx + 1) tables) : Filled cache (k + 1) 1 tables := by
  have none_into : ∀ v, v = 0 ∨ maxContextIdx < v → ∀ row, cache.graph.choice row (cache.graph.into v) = none := by
    intro v hv row
    rw [ThroughputCache.into_eq_nil hv]
    rfl
  refine ⟨h.origin, fun j v hv => ?_, fun j v row hv => h.rest j v row (by omega)⟩
  by_cases hin : j < k ∨ j = k ∧ v < maxContextIdx + 1
  · exact h.done j v hin
  · rw [none_into v (by omega)]
    exact h.rest j v _ (by omega)

theorem init_filled (cache : ThroughputCache maxContextIdx) : Filled cache 0 1 init := by
  have empty : ∀ j v row, Holds cache row none (j + 1) v init := fun j v row => ⟨rfl, rfl⟩
  refine ⟨fun v => ?_, fun j v hv => ?_, fun j v row _ => empty j v row⟩
  · by_cases hv : v = 0
    · subst hv
      rfl
    · have : ((0, 0) : Nat × Nat) ≠ (0, v) := by
        simp only [ne_eq, Prod.mk.injEq]
        omega
      simp [cost, init, Dict.get?_set_ne _ _ this, Graph.layer, hv]
  · obtain ⟨rfl, rfl⟩ : j = 0 ∧ v = 0 := by omega
    rw [ThroughputCache.into_eq_nil (Or.inl rfl)]
    exact empty 0 0 _

theorem fill_filled (cache : ThroughputCache maxContextIdx) (maxInstanceGroup : Nat) :
    Filled cache maxInstanceGroup 1 (fill cache maxInstanceGroup) := by
  induction maxInstanceGroup with
  | zero => exact init_filled cache
  | succ n ih =>
    rw [fill, List.range'_1_concat, List.foldl_append, Nat.add_comm 1 n]
    exact (foldl_fillCell_filled maxContextIdx ih).shift

end PartitionTables

/-! ## The plans -/

section
variable {maxContextIdx : Nat} {cache : ThroughputCache maxContextIdx} {n k : Nat}

theorem stepBack_eq (hk : k ≤ n) (v : Nat) (scheme : List Segment) :
    stepBack (PartitionTables.fill cache n).parent k v scheme =
      ((cache.graph.route 0 k v).map (· ++ scheme.reverse)).getD [] := by
  induction k generalizing v scheme with
  | zero => by_cases hv : v = 0 <;> simp [stepBack, Graph.route, hv]
  | succ k ih =>
    have hcell := ((PartitionTables.fill_filled cache n).done k v (Or.inl hk)).parent
    rw [stepBack, Graph.route, hcell]
    cases hc : cache.graph.choice (cache.graph.layer 0 k) (cache.graph.into v) with
    | none => rfl
    | some segment =>
      have hv : segment.hiIdx = v := (Graph.mem_into.mp (Graph.choice_eq_some.mp hc).2.1).2
      have hsegment : (⟨segment.loIdx, v, segment.throughput⟩ : Segment) = segment := by rw [← hv]
      simp only [Option.map_some, Option.bind_some, hsegment]
      rw [ih (by omega)]
      show _ = (((cache.graph.route 0 k segment.loIdx).map (· ++ [segment])).map (· ++ scheme.reverse)).getD []
      cases cache.graph.route 0 k segment.loIdx <;> simp

theorem reconstructScheme_eq (hk : k ≤ n) (v : Nat) :
    reconstructScheme (PartitionTables.fill cache n).parent k v = (cache.graph.route 0 k v).getD [] := by
  rw [reconstructScheme, stepBack_eq hk]
  cases cache.graph.route 0 k v <;> simp

theorem get?_dp_eq_none (hk : k ≤ n) (v : Nat) :
    (PartitionTables.fill cache n).dp.get? (k, v) = none ↔ cache.graph.route 0 k v = none := by
  have hlayer := (PartitionTables.fill_filled cache n).layer hk v
  rw [PartitionTables.cost] at hlayer
  constructor
  · intro hnone
    rw [hnone] at hlayer
    exact Graph.route_eq_none hlayer.symm
  · intro hnone
    by_contra hsome
    obtain ⟨cost, hcost⟩ := Option.ne_none_iff_exists'.mp hsome
    rw [hcost] at hlayer
    obtain ⟨p, hp, _⟩ := Graph.exists_route (hlayer ▸ WithTop.coe_ne_top : cache.graph.layer 0 k v ≠ ⊤)
    rw [hnone] at hp
    cases hp

theorem route_ne_nil {v : Nat} {scheme : List Segment} (hk : 1 ≤ k) (h : cache.graph.route 0 k v = some scheme) :
    scheme ≠ [] := by
  rintro rfl
  have := (Graph.route_spec h).2.1
  rw [List.length_nil] at this
  omega

end

section
variable {o : InstanceOrchestrator} {cache : ThroughputCache o.maxContextIdx} {k n : Nat}

/-- The plans are the routes of the admitted lengths. -/
theorem get?_buildPartitionPlans : (o.buildPartitionPlans cache n).get? k =
    if 1 ≤ k ∧ k ≤ n then cache.graph.route 0 k o.maxContextIdx else none := by
  -- the tables stay those of `n` groups while the loop over the plans is cut short
  suffices h : ∀ m ≤ n, ((List.range' 1 m).foldl (fun plans numGroups =>
      if ((PartitionTables.fill cache n).dp.get? (numGroups, o.maxContextIdx)).isNone then plans
      else if reconstructScheme (PartitionTables.fill cache n).parent numGroups o.maxContextIdx = [] then plans
      else plans.set numGroups (reconstructScheme (PartitionTables.fill cache n).parent numGroups o.maxContextIdx))
      Dict.empty).get? k = if 1 ≤ k ∧ k ≤ m then cache.graph.route 0 k o.maxContextIdx else none from h n (le_refl n)
  intro m
  induction m with
  | zero =>
    intro _
    rw [if_neg (by omega)]
    rfl
  | succ m ih =>
    intro hm
    have ih := ih (by omega)
    rw [List.range'_1_concat, List.foldl_append, List.foldl_cons, List.foldl_nil, Nat.add_comm 1 m]
    have hrange : (1 ≤ k ∧ k ≤ m + 1) ↔ k = m + 1 ∨ 1 ≤ k ∧ k ≤ m := by omega
    cases hroute : cache.graph.route 0 (m + 1) o.maxContextIdx with
    | none =>
      rw [if_pos (by rw [(get?_dp_eq_none hm _).mpr hroute]; rfl), ih]
      by_cases hk : k = m + 1
      · subst hk
        rw [hroute, ite_self, ite_self]
      · simp only [hrange, hk, false_or]
    | some scheme =>
      have hsome : ¬ ((PartitionTables.fill cache n).dp.get? (m + 1, o.maxContextIdx)).isNone = true := by
        rw [Option.isNone_iff_eq_none, get?_dp_eq_none hm, hroute]
        simp
      rw [if_neg hsome, reconstructScheme_eq hm, hroute, Option.getD_some,
        if_neg (route_ne_nil (by omega) hroute), Dict.get?_set, ih]
      by_cases hk : k = m + 1
      · subst hk
        rw [if_pos rfl, if_pos (by omega), hroute]
      · rw [if_neg (Ne.symm hk)]
        simp only [hrange, hk, false_or]

theorem mem_plans_iff {plan : List Segment} : (o.buildPartitionPlans cache n).get? k = some plan ↔
    (1 ≤ k ∧ k ≤ n) ∧ cache.graph.route 0 k o.maxContextIdx = some plan := by
  rw [get?_buildPartitionPlans]
  by_cases hk : 1 ≤ k ∧ k ≤ n <;> simp [hk]

end

/-- Instances of a total number cannot all reach a throughput above the balanced one. -/
theorem mul_sum_inverse_le {x : ℚ} {counts : List Nat} {chain : List Segment}
    (hpos : ∀ segment ∈ chain, 0 < segment.throughput) (hlen : counts.length = chain.length)
    (hx : ∀ y ∈ segmentThroughputs counts chain, x ≤ y) :
    x * (chain.map fun segment => 1 / segment.throughput).sum ≤ (counts.sum : ℚ) := by
  induction chain generalizing counts with
  | nil =>
    rw [List.length_eq_zero_iff.mp hlen]
    simp
  | cons segment chain ih =>
    obtain ⟨count, counts, rfl⟩ := List.exists_cons_of_length_eq_add_one hlen
    have hp : 0 < segment.throughput := hpos segment List.mem_cons_self
    have hrest := ih (fun s hs => hpos s (List.mem_cons_of_mem _ hs)) (by simpa using hlen)
      fun y hy => hx y (List.mem_cons_of_mem _ hy)
    have hhead : x ≤ count * segment.throughput := hx _ List.mem_cons_self
    have hdiv : x * (1 / segment.throughput) ≤ count := by
      rw [mul_one_div]
      exact (div_le_iff₀ hp).mpr hhead
    rw [List.map_cons, List.sum_cons, List.sum_cons, mul_add, Nat.cast_add]
    linarith

namespace InstanceOrchestrator

/-- The partition program is complete and optimal. There is a plan of `k` groups exactly if there is a
chain of `k` positive entries; the plan is one with the least sum of inverse throughputs, which bounds
what any instances can reach on any chain of `k`; and no finite entry leads back to the empty list. -/
theorem buildPartitionPlans_optimal (o : InstanceOrchestrator) (cache : ThroughputCache o.maxContextIdx)
    (maxInstanceGroup : Nat) {k : Nat} (hk : 1 ≤ k) (hmax : k ≤ maxInstanceGroup) :
    ((∃ plan, (o.buildPartitionPlans cache maxInstanceGroup).get? k = some plan) ↔
      ∃ chain, cache.Chain chain ∧ chain.length = k) ∧
    (∀ plan, (o.buildPartitionPlans cache maxInstanceGroup).get? k = some plan →
      cache.Chain plan ∧ plan.length = k ∧
      (∀ chain, cache.Chain chain → chain.length = k → cache.inverseSum plan ≤ cache.inverseSum chain) ∧
      ∀ chain counts x, cache.Chain chain → chain.length = k → counts.length = k →
        (segmentThroughputs counts chain).min? = some x → x ≤ (counts.sum : ℚ) / cache.inverseSum plan) ∧
    ∀ contextIdx, (PartitionTables.fill cache maxInstanceGroup).dp.get? (k, contextIdx) ≠ none →
      reconstructScheme (PartitionTables.fill cache maxInstanceGroup).parent k contextIdx ≠ [] := by
  refine ⟨⟨?_, ?_⟩, ?_, ?_⟩
  · rintro ⟨plan, hplan⟩
    obtain ⟨hwalk, hlen, -⟩ := Graph.route_spec (mem_plans_iff.mp hplan).2
    exact ⟨plan, hwalk, hlen⟩
  · rintro ⟨chain, hchain, rfl⟩
    obtain ⟨plan, hplan⟩ := Graph.exists_route_of_walk hchain
    exact ⟨plan, mem_plans_iff.mpr ⟨⟨hk, hmax⟩, hplan⟩⟩
  · intro plan hplan
    have hroute := (mem_plans_iff.mp hplan).2
    obtain ⟨hwalk, hlen, -⟩ := Graph.route_spec hroute
    refine ⟨hwalk, hlen, fun chain hchain => Graph.route_least hroute hchain, ?_⟩
    intro chain counts x hchain hclen hcounts hmin
    have hleast : cache.inverseSum plan ≤ cache.inverseSum chain := Graph.route_least hroute hchain hclen
    have hpos : 0 < cache.inverseSum plan := by
      refine List.sum_pos _ ?_ ?_
      · intro y hy
        obtain ⟨segment, hin, rfl⟩ := List.mem_map.mp hy
        exact one_div_pos.mpr (ThroughputCache.edge_pos (hwalk.mem hin))
      · simpa using route_ne_nil hk hroute
    have hbound : x * cache.inverseSum chain ≤ (counts.sum : ℚ) :=
      mul_sum_inverse_le (fun segment hin => ThroughputCache.edge_pos (hchain.mem hin)) (hcounts.trans hclen.symm)
        (List.min?_eq_some_iff.mp hmin).2
    rw [le_div_iff₀ hpos]
    rcases le_total 0 x with hx | hx
    · exact (mul_le_mul_of_nonneg_left hleast hx).trans hbound
    · exact (mul_nonpos_of_nonpos_of_nonneg hx hpos.le).trans (Nat.cast_nonneg _)
  · intro contextIdx hfinite
    rw [reconstructScheme_eq hmax]
    obtain ⟨scheme, hroute⟩ := Option.ne_none_iff_exists'.mp fun hnone => hfinite ((get?_dp_eq_none hmax _).mpr hnone)
    rw [hroute, Option.getD_some]
    exact route_ne_nil hk hroute

/-- Three context steps. -/
def threeSteps : InstanceOrchestrator where
  contextStep := 1
  maxContextLength := 3

/-- The cut after one step has the smaller sum of inverses, the cut after two the better slowest range. -/
def unevenCache : ThroughputCache threeSteps.maxContextIdx where
  items := ⟨[((0, 1), 10), ((1, 3), 2), ((0, 2), 3), ((2, 3), 3)], by decide⟩
  bounded := by decide

theorem buildPartitionPlans_optimal_uneven : ∃ plan, (threeSteps.buildPartitionPlans unevenCache 2).get? 2 = some plan ∧
    unevenCache.inverseSum plan ≤ unevenCache.inverseSum [⟨0, 2, 3⟩, ⟨2, 3, 3⟩] := by
  have hchain : unevenCache.Chain [⟨0, 2, 3⟩, ⟨2, 3, 3⟩] :=
    ⟨by decide +kernel, rfl, by decide +kernel, rfl, rfl⟩
  obtain ⟨exact_k, least, -⟩ := threeSteps.buildPartitionPlans_optimal unevenCache 2 (k := 2) (by decide) (by decide)
  obtain ⟨plan, hplan⟩ := exact_k.mpr ⟨_, hchain, rfl⟩
  exact ⟨plan, hplan, (least plan hplan).2.2.1 _ hchain rfl⟩

end InstanceOrchestrator

end CoreFlow
