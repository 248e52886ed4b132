import CoreFlow.Allocator.Assignment

/-!
# Assignments for every budget

For a budget, `solve` takes the best of the greedy assignments on the plans. It tiles the context range
and grows with the budget. It is a best assignment over all chains exactly if no chain beats those that
the partition program prefers.
-/

namespace CoreFlow

/-- Consecutive non-empty ranges from `lo` to `hi`. -/
def Tiles : Nat → List InstanceGroup → Nat → Prop
  | lo, [], hi => lo = hi
  | lo, g :: groups, hi =>
    g.contextLowerBound = lo ∧ lo < g.contextUpperBound ∧ Tiles g.contextUpperBound groups hi

theorem Tiles.le {lo hi : Nat} {groups : List InstanceGroup} (h : Tiles lo groups hi) : lo ≤ hi := by
  induction groups generalizing lo with
  | nil => exact Nat.le_of_eq h
  | cons g groups ih => exact h.2.1.le.trans (ih h.2.2)

theorem Tiles.le_of_mem {lo hi : Nat} {groups : List InstanceGroup} (h : Tiles lo groups hi) {g : InstanceGroup}
    (hg : g ∈ groups) : lo ≤ g.contextLowerBound := by
  induction groups generalizing lo with
  | nil => cases hg
  | cons g' groups ih =>
    rcases List.mem_cons.mp hg with rfl | hg
    · exact h.1.ge
    · exact h.2.1.le.trans (ih h.2.2 hg)

/-- A group ends before the next ones begin. -/
theorem Tiles.pairwise {lo hi : Nat} {groups : List InstanceGroup} (h : Tiles lo groups hi) :
    groups.Pairwise fun g g' => g.contextUpperBound ≤ g'.contextLowerBound := by
  induction groups generalizing lo with
  | nil => exact .nil
  | cons g groups ih => exact .cons (fun g' hg' => h.2.2.le_of_mem hg') (ih h.2.2)

theorem Tiles.lt_of_mem {lo hi : Nat} {groups : List InstanceGroup} (h : Tiles lo groups hi) {g : InstanceGroup}
    (hg : g ∈ groups) : g.contextLowerBound < g.contextUpperBound := by
  induction groups generalizing lo with
  | nil => cases hg
  | cons g' groups ih =>
    rcases List.mem_cons.mp hg with rfl | hg
    · rw [h.1]
      exact h.2.1
    · exact ih h.2.2 hg

/-- Two groups with a length in common are the same. -/
theorem Tiles.eq_of_mem {lo hi x : Nat} {groups : List InstanceGroup} (h : Tiles lo groups hi) {g g' : InstanceGroup}
    (hg : g ∈ groups) (hg' : g' ∈ groups) (hx : g.contextLowerBound ≤ x ∧ x < g.contextUpperBound)
    (hx' : g'.contextLowerBound ≤ x ∧ x < g'.contextUpperBound) : g = g' := by
  induction groups generalizing lo with
  | nil => cases hg
  | cons g₀ groups ih =>
    have after (g : InstanceGroup) (hg : g ∈ groups) := h.2.2.le_of_mem hg
    rcases List.mem_cons.mp hg with e | hin <;> rcases List.mem_cons.mp hg' with e' | hin'
    · rw [e, e']
    · have := after g' hin'
      rw [e] at hx
      omega
    · have := after g hin
      rw [e'] at hx'
      omega
    · exact ih h.2.2 hin hin'

/-- Every length of the range is in one group. -/
theorem Tiles.countP {lo hi : Nat} {groups : List InstanceGroup} (h : Tiles lo groups hi) (x : Nat) :
    groups.countP (fun g => decide (g.contextLowerBound ≤ x ∧ x < g.contextUpperBound)) =
      if lo ≤ x ∧ x < hi then 1 else 0 := by
  induction groups generalizing lo with
  | nil =>
    obtain rfl : lo = hi := h
    simp
  | cons g groups ih =>
    obtain ⟨rfl, hlt, hrest⟩ := h
    have hle := hrest.le
    rw [List.countP_cons, ih hrest]
    simp only [decide_eq_true_eq]
    split_ifs <;> omega

section
variable {o : InstanceOrchestrator} {cache : ThroughputCache o.maxContextIdx} {scheme : List Segment}
  {counts : List Nat} {numGpus k n : Nat} {a best : InstanceAssignment}

theorem tiles_of_walk {lo hi : Nat} (h : cache.graph.Walk lo scheme hi) (hlen : counts.length = scheme.length) :
    Tiles (lo * o.contextStep) (List.zipWith (fun count segment =>
      ⟨count * o.dpGpuStep, segment.loIdx * o.contextStep, segment.hiIdx * o.contextStep, segment.throughput⟩)
      counts scheme) (hi * o.contextStep) := by
  induction scheme generalizing lo counts with
  | nil =>
    obtain rfl : lo = hi := h
    rw [List.zipWith_nil_right]
    rfl
  | cons segment scheme ih =>
    obtain ⟨hin, rfl, hrest⟩ := h
    obtain ⟨count, counts, rfl⟩ := List.exists_cons_of_length_eq_add_one hlen
    refine ⟨rfl, ?_, ih hrest (by simpa using hlen)⟩
    exact (Nat.mul_lt_mul_right o.contextStep_pos).mpr (ThroughputCache.edge_bounded hin).1

/-- An assignment that the greedy loop can make on the plan of `k` groups. -/
def Candidate (o : InstanceOrchestrator) (cache : ThroughputCache o.maxContextIdx) (numGpus k : Nat)
    (a : InstanceAssignment) : Prop :=
  1 ≤ k ∧ ∃ scheme counts, cache.graph.route 0 k o.maxContextIdx = some scheme ∧
    Assigned o scheme numGpus o.dpGpuStep counts a

theorem Assigned.length_le (h : Assigned o scheme numGpus o.dpGpuStep counts a) :
    scheme.length ≤ numGpus / o.dpGpuStep := by
  rw [← h.length, ← h.total, ← Nat.mul_one counts.length]
  exact List.card_nsmul_le_sum counts 1 h.one_le

theorem route_pos (h : cache.graph.route 0 k o.maxContextIdx = some scheme) :
    ∀ segment ∈ scheme, 0 < segment.throughput := fun _ hin =>
  ThroughputCache.edge_pos ((Graph.route_spec h).1.mem hin)

/-- What the loop makes for a larger budget is no worse. -/
theorem Candidate.le {numGpus' : Nat} {a' : InstanceAssignment} (h : Candidate o cache numGpus k a)
    (h' : Candidate o cache numGpus' k a') (hle : numGpus ≤ numGpus') : a.throughput ≤ a'.throughput := by
  obtain ⟨-, scheme, counts, hroute, hassigned⟩ := h
  obtain ⟨-, scheme', counts', hroute', hassigned'⟩ := h'
  obtain rfl : scheme = scheme' := Option.some.inj (hroute.symm.trans hroute')
  refine hassigned'.reaches (route_pos hroute) hassigned.length hassigned.one_le ?_ hassigned.bottleneck
  rw [hassigned.total]
  exact Nat.div_le_div_right hle

/-- A plan that the budget covers has a candidate. -/
theorem exists_candidate (hk : 1 ≤ k) (hN : k ≤ numGpus / o.dpGpuStep)
    (hroute : cache.graph.route 0 k o.maxContextIdx = some scheme) :
    ∃ a, o.allocateInstancesGreedily scheme numGpus o.dpGpuStep = some a ∧ Candidate o cache numGpus k a := by
  have hlen : scheme.length = k := (Graph.route_spec hroute).2.1
  obtain ⟨counts, a, hrun, hassigned⟩ := allocateInstancesGreedily_spec o (route_ne_nil hk hroute) (hlen ▸ hN)
  exact ⟨a, hrun, hk, scheme, counts, hroute, hassigned⟩

theorem consider_spec (best : InstanceAssignment) :
    ∃ best', o.consider (o.buildPartitionPlans cache n) numGpus best k = some best' ∧
      (best' = best ∨ k ≤ n ∧ Candidate o cache numGpus k best') ∧ best.throughput ≤ best'.throughput ∧
      ∀ a, k ≤ n → Candidate o cache numGpus k a → a.throughput ≤ best'.throughput := by
  rw [InstanceOrchestrator.consider]
  by_cases hN : numGpus / o.dpGpuStep < k
  · rw [if_pos hN]
    refine ⟨best, rfl, Or.inl rfl, le_refl _, fun a _ ha => ?_⟩
    obtain ⟨-, scheme, counts, hroute, hassigned⟩ := ha
    have hle := hassigned.length_le
    have hlen : scheme.length = k := (Graph.route_spec hroute).2.1
    omega
  · rw [if_neg hN]
    cases hplan : (o.buildPartitionPlans cache n).get? k with
    | none =>
      refine ⟨best, rfl, Or.inl rfl, le_refl _, fun a hn ha => ?_⟩
      obtain ⟨hk, scheme, counts, hroute, -⟩ := ha
      rw [mem_plans_iff.mpr ⟨⟨hk, hn⟩, hroute⟩] at hplan
      cases hplan
    | some scheme =>
      obtain ⟨⟨hk, hn⟩, hroute⟩ := mem_plans_iff.mp hplan
      obtain ⟨made, hrun, hmade⟩ := exists_candidate hk (not_lt.mp hN) hroute
      dsimp only [Option.getD_some]
      rw [if_neg (route_ne_nil hk hroute), hrun]
      simp only [Option.bind_eq_bind, Option.bind_some]
      refine ⟨_, rfl, ?_⟩
      by_cases hbetter : best.throughput < made.throughput
      · rw [if_pos hbetter]
        exact ⟨Or.inr ⟨hn, hmade⟩, hbetter.le, fun a _ ha => ha.le hmade (le_refl _)⟩
      · rw [if_neg hbetter]
        exact ⟨Or.inl rfl, le_refl _, fun a _ ha => (ha.le hmade (le_refl _)).trans (not_lt.mp hbetter)⟩

theorem foldlM_consider (cache : ThroughputCache o.maxContextIdx) (n numGpus : Nat) (ks : List Nat)
    (best : InstanceAssignment) :
    ∃ best', ks.foldlM (o.consider (o.buildPartitionPlans cache n) numGpus) best = some best' ∧
      (best' = best ∨ ∃ k ∈ ks, k ≤ n ∧ Candidate o cache numGpus k best') ∧ best.throughput ≤ best'.throughput ∧
      ∀ k ∈ ks, ∀ a, k ≤ n → Candidate o cache numGpus k a → a.throughput ≤ best'.throughput := by
  induction ks generalizing best with
  | nil => exact ⟨best, rfl, Or.inl rfl, le_refl _, fun k hk => absurd hk List.not_mem_nil⟩
  | cons k ks ih =>
    obtain ⟨best₁, hstep, from₁, le₁, all₁⟩ := consider_spec (k := k) best
    obtain ⟨best', hloop, from', le', all'⟩ := ih best₁
    refine ⟨best', by rw [List.foldlM_cons, hstep]; exact hloop, ?_, le₁.trans le', ?_⟩
    · rcases from' with rfl | ⟨j, hj, hcand⟩
      · exact from₁.imp id fun hcand => ⟨k, List.mem_cons_self, hcand⟩
      · exact Or.inr ⟨j, List.mem_cons_of_mem k hj, hcand⟩
    · intro j hj a hn ha
      rcases List.mem_cons.mp hj with rfl | hj
      · exact (all₁ a hn ha).trans le'
      · exact all' j hj a hn ha

/-- The best assignment of a budget: a candidate of an admitted number of groups that no other exceeds, or
the empty one if there is none. -/
structure Best (o : InstanceOrchestrator) (cache : ThroughputCache o.maxContextIdx) (maxInstanceGroup minInstanceGroup numGpus : Nat)
    (best : InstanceAssignment) : Prop where
  made : best = {} ∨ ∃ k, minInstanceGroup ≤ k ∧ k ≤ maxInstanceGroup ∧ Candidate o cache numGpus k best
  nonneg : 0 ≤ best.throughput
  all : ∀ k a, minInstanceGroup ≤ k → k ≤ maxInstanceGroup → Candidate o cache numGpus k a → a.throughput ≤ best.throughput

theorem bestAssignment_spec (cache : ThroughputCache o.maxContextIdx) (maxInstanceGroup minInstanceGroup numGpus : Nat) :
    ∃ best, o.bestAssignment (o.buildPartitionPlans cache maxInstanceGroup) maxInstanceGroup minInstanceGroup numGpus = some best ∧
      Best o cache maxInstanceGroup minInstanceGroup numGpus best := by
  obtain ⟨best, hrun, hfrom, hle, hall⟩ := foldlM_consider cache maxInstanceGroup numGpus
    (List.range' minInstanceGroup (maxInstanceGroup + 1 - minInstanceGroup)) {}
  refine ⟨best, hrun, hfrom.imp id ?_, hle, fun k a hmin hmax ha => ?_⟩
  · rintro ⟨k, hk, hmax, hcand⟩
    exact ⟨k, (List.mem_range'_1.mp hk).1, hmax, hcand⟩
  · exact hall k (List.mem_range'_1.mpr (by omega)) a hmax ha

theorem solve_spec (cache : ThroughputCache o.maxContextIdx) (totalNumGpus maxInstanceGroup minInstanceGroup : Nat) :
    ∃ result, o.solve totalNumGpus cache maxInstanceGroup minInstanceGroup = some result ∧
      (∀ n, n ∈ result ↔ n ≤ totalNumGpus) ∧
      ∀ n best, result.get? n = some best → Best o cache maxInstanceGroup minInstanceGroup n best := by
  -- the loop over the budgets below `m`
  suffices h : ∀ m, ∃ result, (List.range m).foldlM (fun result numGpus => do
      let best ← o.bestAssignment (o.buildPartitionPlans cache maxInstanceGroup) maxInstanceGroup minInstanceGroup numGpus
      some (result.set numGpus best)) Dict.empty = some result ∧ (∀ n, n ∈ result ↔ n < m) ∧
      ∀ n best, result.get? n = some best → Best o cache maxInstanceGroup minInstanceGroup n best by
    obtain ⟨result, hrun, hmem, hbest⟩ := h (totalNumGpus + 1)
    exact ⟨result, hrun, fun n => (hmem n).trans Nat.lt_succ_iff, hbest⟩
  intro m
  induction m with
  | zero => exact ⟨Dict.empty, rfl, by simp, by simp⟩
  | succ m ih =>
    obtain ⟨result, hrun, hmem, hbest⟩ := ih
    obtain ⟨best, hone, hspec⟩ := bestAssignment_spec cache maxInstanceGroup minInstanceGroup m
    refine ⟨result.set m best, ?_, fun n => ?_, fun n best' hget => ?_⟩
    · rw [List.range_succ, List.foldlM_append, hrun]
      simp only [Option.bind_eq_bind, Option.bind_some, List.foldlM_cons, List.foldlM_nil, hone, Option.pure_def]
    · rw [Dict.mem_set, hmem]
      omega
    · rw [Dict.get?_set] at hget
      split at hget
      · rename_i heq
        obtain rfl := Option.some.inj hget
        exact heq ▸ hspec
      · exact hbest n best' hget

theorem Candidate.tiles (h : Candidate o cache numGpus k a) :
    Tiles 0 a.instances (o.maxContextIdx * o.contextStep) := by
  obtain ⟨-, scheme, counts, hroute, hassigned⟩ := h
  rw [hassigned.instances]
  have htiles := tiles_of_walk (Graph.route_spec hroute).1 hassigned.length
  rwa [Nat.zero_mul] at htiles

theorem Candidate.gpus (h : Candidate o cache numGpus k a) :
    (∀ g ∈ a.instances, 0 < g.numGpus ∧ o.dpGpuStep ∣ g.numGpus) ∧
      (a.instances.map InstanceGroup.numGpus).sum = numGpus / o.dpGpuStep * o.dpGpuStep := by
  obtain ⟨-, scheme, counts, hroute, hassigned⟩ := h
  refine ⟨fun g hg => ?_, hassigned.sum_numGpus⟩
  have hin : g.numGpus ∈ counts.map (· * o.dpGpuStep) := by
    rw [← hassigned.map_numGpus]
    exact List.mem_map_of_mem hg
  obtain ⟨count, hcount, heq⟩ := List.mem_map.mp hin
  rw [← heq]
  exact ⟨Nat.mul_pos (hassigned.one_le count hcount) o.dpGpuStep_pos, Nat.dvd_mul_left ..⟩

/-- A larger budget has a better best assignment. -/
theorem Best.mono {minInstanceGroup numGpus' : Nat} {best' : InstanceAssignment}
    (h : Best o cache n minInstanceGroup numGpus best) (h' : Best o cache n minInstanceGroup numGpus' best')
    (hle : numGpus ≤ numGpus') : best.throughput ≤ best'.throughput := by
  rcases h.made with rfl | ⟨k, hmin, hmax, hcand⟩
  · exact h'.nonneg
  · obtain ⟨hk, scheme, counts, hroute, hassigned⟩ := id hcand
    have hlen : scheme.length = k := (Graph.route_spec hroute).2.1
    have hN : k ≤ numGpus' / o.dpGpuStep := by
      rw [← hlen]
      exact hassigned.length_le.trans (Nat.div_le_div_right hle)
    obtain ⟨a, -, ha⟩ := exists_candidate hk hN hroute
    exact (hcand.le ha hle).trans (h'.all k a hmin hmax ha)

end

namespace InstanceOrchestrator

/-- Every assignment tiles the context range with positive multiples of the step that use up the budget,
every length of the range lies in exactly one group, and more GPUs never lower the throughput. -/
theorem solve_tiles_monotone (o : InstanceOrchestrator) (cache : ThroughputCache o.maxContextIdx)
    (totalNumGpus maxInstanceGroup minInstanceGroup : Nat) :
    ∃ result, o.solve totalNumGpus cache maxInstanceGroup minInstanceGroup = some result ∧
      (∀ n, n ∈ result ↔ n ≤ totalNumGpus) ∧
      (∀ n a, result.get? n = some a → a.instances ≠ [] →
        Tiles 0 a.instances (o.maxContextIdx * o.contextStep) ∧
        (∀ x < o.maxContextIdx * o.contextStep,
          a.instances.countP (fun g => decide (g.contextLowerBound ≤ x ∧ x < g.contextUpperBound)) = 1) ∧
        (∀ g ∈ a.instances, 0 < g.numGpus ∧ o.dpGpuStep ∣ g.numGpus) ∧
        (a.instances.map InstanceGroup.numGpus).sum = n / o.dpGpuStep * o.dpGpuStep) ∧
      ∀ n n' a a', n ≤ n' → result.get? n = some a → result.get? n' = some a' → a.throughput ≤ a'.throughput := by
  obtain ⟨result, hrun, hmem, hbest⟩ := solve_spec cache totalNumGpus maxInstanceGroup minInstanceGroup
  refine ⟨result, hrun, hmem, fun n a hget hne => ?_, fun n n' a a' hle hget hget' => ?_⟩
  · rcases (hbest n a hget).made with rfl | ⟨k, -, -, hcand⟩
    · exact absurd rfl hne
    · refine ⟨hcand.tiles, fun x hx => ?_, hcand.gpus.1, hcand.gpus.2⟩
      rw [hcand.tiles.countP x, if_pos ⟨Nat.zero_le x, hx⟩]
  · exact (hbest n a hget).mono (hbest n' a' hget') hle

end InstanceOrchestrator

/-! ## Against all chains -/

section
variable (o : InstanceOrchestrator) (cache : ThroughputCache o.maxContextIdx) (maxInstanceGroup minInstanceGroup numGpus : Nat)

/-- A chain of an admitted length whose segments have the integer counts, with the throughput of its
slowest segment. -/
structure Feasible (chain : List Segment) (counts : List Nat) (x : ℚ) : Prop where
  leads : cache.Chain chain
  groups : minInstanceGroup ≤ chain.length ∧ chain.length ≤ maxInstanceGroup
  segments : counts.length = chain.length
  one_le : ∀ count ∈ counts, 1 ≤ count
  total : counts.sum = numGpus / o.dpGpuStep
  bottleneck : (segmentThroughputs counts chain).min? = some x

/-- The largest throughput of all chains and counts, and `0` if there are none. -/
def IsOptimum (x : ℚ) : Prop :=
  IsGreatest {y | ∃ chain counts, Feasible o cache maxInstanceGroup minInstanceGroup numGpus chain counts y} x ∨
    (¬ ∃ chain counts y, Feasible o cache maxInstanceGroup minInstanceGroup numGpus chain counts y) ∧ x = 0

/-- Whatever a chain reaches, one that the partition program prefers reaches as well. -/
def PreferredSuffice : Prop :=
  ∀ chain counts x, Feasible o cache maxInstanceGroup minInstanceGroup numGpus chain counts x →
    ∃ chain' counts' x', Feasible o cache maxInstanceGroup minInstanceGroup numGpus chain' counts' x' ∧
      Graph.Preferred cache.graph 0 chain' ∧ x ≤ x'

end

section
variable {o : InstanceOrchestrator} {cache : ThroughputCache o.maxContextIdx} {chain : List Segment}
  {counts : List Nat} {maxInstanceGroup minInstanceGroup numGpus k : Nat} {a best : InstanceAssignment} {x : ℚ}

theorem Feasible.length_pos (h : Feasible o cache maxInstanceGroup minInstanceGroup numGpus chain counts x) :
    1 ≤ chain.length := by
  by_contra hnil
  have hbottleneck := h.bottleneck
  rw [List.length_eq_zero_iff.mp (by omega : chain.length = 0)] at hbottleneck
  simp [segmentThroughputs] at hbottleneck

theorem Feasible.pos (h : Feasible o cache maxInstanceGroup minInstanceGroup numGpus chain counts x) : 0 < x :=
  bottleneck_pos h.segments (fun _ hin => ThroughputCache.edge_pos (h.leads.mem hin)) h.one_le h.bottleneck

theorem Candidate.feasible (h : Candidate o cache numGpus k a) (hmin : minInstanceGroup ≤ k) (hmax : k ≤ maxInstanceGroup) :
    ∃ chain counts, Feasible o cache maxInstanceGroup minInstanceGroup numGpus chain counts a.throughput ∧
      Graph.Preferred cache.graph 0 chain := by
  obtain ⟨-, scheme, counts, hroute, hassigned⟩ := h
  obtain ⟨hwalk, hlen, -⟩ := Graph.route_spec hroute
  exact ⟨scheme, counts, ⟨hwalk, hlen.symm ▸ ⟨hmin, hmax⟩, hassigned.length, hassigned.one_le, hassigned.total,
    hassigned.bottleneck⟩, Graph.preferred_of_route hroute⟩

/-- Counts on a preferred chain do not beat the best assignment. -/
theorem Best.of_preferred (h : Best o cache maxInstanceGroup minInstanceGroup numGpus best)
    (hf : Feasible o cache maxInstanceGroup minInstanceGroup numGpus chain counts x)
    (hp : Graph.Preferred cache.graph 0 chain) :
    x ≤ best.throughput ∧ ∃ k a, minInstanceGroup ≤ k ∧ k ≤ maxInstanceGroup ∧ Candidate o cache numGpus k a := by
  have hroute := Graph.route_of_preferred hf.leads hp
  have hN : chain.length ≤ numGpus / o.dpGpuStep := by
    rw [← hf.segments, ← hf.total, ← Nat.mul_one counts.length]
    exact List.card_nsmul_le_sum counts 1 hf.one_le
  obtain ⟨a, -, ha⟩ := exists_candidate hf.length_pos hN hroute
  refine ⟨le_trans ?_ (h.all _ a hf.groups.1 hf.groups.2 ha), _, a, hf.groups.1, hf.groups.2, ha⟩
  obtain ⟨-, scheme, counts', hroute', hassigned⟩ := ha
  obtain rfl : chain = scheme := Option.some.inj (hroute.symm.trans hroute')
  exact hassigned.reaches (route_pos hroute) hf.segments hf.one_le hf.total.le hf.bottleneck

end

namespace InstanceOrchestrator

/-- The assignment of a budget is a best one over all chains and integer counts exactly if every chain is
matched by one that is preferred for its sum of inverse throughputs. -/
theorem solve_optimum_iff (o : InstanceOrchestrator) (cache : ThroughputCache o.maxContextIdx)
    (totalNumGpus maxInstanceGroup minInstanceGroup : Nat) :
    ∃ result, o.solve totalNumGpus cache maxInstanceGroup minInstanceGroup = some result ∧
      ∀ n ≤ totalNumGpus, ∃ a, result.get? n = some a ∧
        (IsOptimum o cache maxInstanceGroup minInstanceGroup n a.throughput ↔
          PreferredSuffice o cache maxInstanceGroup minInstanceGroup n) := by
  obtain ⟨result, hrun, hmem, hbest⟩ := solve_spec cache totalNumGpus maxInstanceGroup minInstanceGroup
  refine ⟨result, hrun, fun n hn => ?_⟩
  obtain ⟨best, hget⟩ := Dict.mem_iff.mp ((hmem n).mpr hn)
  have h := hbest n best hget
  refine ⟨best, hget, ?_, ?_⟩
  · rintro (⟨-, hupper⟩ | ⟨hnone, -⟩) chain counts x hf
    · have hx : x ≤ best.throughput := hupper ⟨chain, counts, hf⟩
      rcases h.made with rfl | ⟨k, hmin, hmax, hcand⟩
      · exact absurd hf.pos (not_lt.mpr hx)
      · obtain ⟨chain', counts', hf', hp⟩ := hcand.feasible hmin hmax
        exact ⟨chain', counts', _, hf', hp, hx⟩
    · exact absurd ⟨chain, counts, x, hf⟩ hnone
  · intro hsuffice
    rcases h.made with rfl | ⟨k, hmin, hmax, hcand⟩
    · refine Or.inr ⟨?_, rfl⟩
      rintro ⟨chain, counts, x, hf⟩
      obtain ⟨chain', counts', x', hf', hp, -⟩ := hsuffice chain counts x hf
      exact absurd hf'.pos (not_lt.mpr (h.of_preferred hf' hp).1)
    · obtain ⟨chain, counts, hf, -⟩ := hcand.feasible hmin hmax
      refine Or.inl ⟨⟨chain, counts, hf⟩, ?_⟩
      rintro x ⟨chain', counts', hf'⟩
      obtain ⟨chain'', counts'', x'', hf'', hp, hle⟩ := hsuffice chain' counts' x hf'
      exact hle.trans (h.of_preferred hf'' hp).1

/-- Two instances on the cut after two steps reach `3`, those on the preferred cut `2`. -/
theorem solve_misses_optimum : ∃ result a, threeSteps.solve 2 unevenCache 2 1 = some result ∧
    result.get? 2 = some a ∧ a.throughput = 2 ∧ ¬ IsOptimum threeSteps unevenCache 2 1 2 a.throughput := by
  have returns : (threeSteps.solve 2 unevenCache 2 1).map (fun result => decide ((result.get? 2).map
      InstanceAssignment.throughput = some 2)) = some true := by decide +kernel
  obtain ⟨result, hrun, hcheck⟩ := Option.map_eq_some_iff.mp returns
  obtain ⟨a, hget, ha⟩ := Option.map_eq_some_iff.mp (of_decide_eq_true hcheck)
  have hf : Feasible threeSteps unevenCache 2 1 2 [⟨0, 2, 3⟩, ⟨2, 3, 3⟩] [1, 1] 3 := by
    refine ⟨⟨by decide +kernel, rfl, by decide +kernel, rfl, rfl⟩, by decide, rfl, by decide, by decide, ?_⟩
    decide +kernel
  refine ⟨result, a, hrun, hget, ha, ?_⟩
  rw [ha]
  rintro (⟨-, hupper⟩ | ⟨hnone, -⟩)
  · exact absurd (hupper ⟨_, _, hf⟩) (by norm_num)
  · exact hnone ⟨_, _, _, hf⟩

end InstanceOrchestrator

end CoreFlow
