import CoreFlow.Allocator.Search
import CoreFlow.Allocator.Workflow
import CoreFlow.Lib.Memo
import CoreFlow.Lib.Options

/-!
# From the recorded calls to the split of the GPUs

`RequestAnalyzer` remembers the statistics of the ranges it has been asked for. `ThroughputEstimator` measures
an instance on every range of contexts, `AgentAllocator` turns the measurements of an agent into its curve, and
the workflow allocator splits the GPUs over these curves. All agents share the analyzer.
-/

namespace CoreFlow
open Prog

/-! ## `RequestAnalyzer` -/

/-- The analyzer, with the node list loaded. -/
structure RequestAnalyzer where
  nodeList : NodeList
  rangeCache : Dict (Int × Int × String × Bool) RangeStats := Dict.empty

namespace RequestAnalyzer

/-- `get_requests_in_range`. -/
def getRequestsInRange (lowerBound upperBound : Int) (agentName : String) (reuse useCache : Bool) :
    Prog RequestAnalyzer RangeStats := do
  let analyzer ← read
  match (if useCache then analyzer.rangeCache.get? (lowerBound, upperBound, agentName, reuse) else none) with
  | some stats => pure stats
  | none => do
    let result ← ofOption (computeRangeStats analyzer.nodeList lowerBound upperBound agentName reuse)
    when (useCache = true) (update fun analyzer =>
      { analyzer with rangeCache := analyzer.rangeCache.set (lowerBound, upperBound, agentName, reuse) result })
    pure result

/-- `agents`. -/
def agents (nodeList : NodeList) : List String :=
  ((nodeList.entries.flatMap Prod.snd).map TraceNode.agentName).dedup.mergeSort

/-- `clear_cache`. -/
def clearCache : Prog RequestAnalyzer Unit := update fun analyzer => { analyzer with rangeCache := Dict.empty }

/-- What is remembered is what would be computed. -/
structure Remembers (nodeList : NodeList) (analyzer : RequestAnalyzer) : Prop where
  loaded : analyzer.nodeList = nodeList
  entries : ∀ lower upper agentName reuse stats, analyzer.rangeCache.get? (lower, upper, agentName, reuse) = some stats →
    computeRangeStats nodeList lower upper agentName reuse = some stats

section
variable {nodeList : NodeList} {analyzer : RequestAnalyzer}

theorem remembers_start (nodeList : NodeList) : Remembers nodeList { nodeList } := by
  refine ⟨rfl, fun lower upper agentName reuse stats h => ?_⟩
  rw [Dict.get?_empty] at h
  cases h

theorem Remembers.set (h : Remembers nodeList analyzer) {lower upper : Int} {agentName : String} {reuse : Bool}
    {stats : RangeStats} (hstats : computeRangeStats nodeList lower upper agentName reuse = some stats) :
    Remembers nodeList { analyzer with rangeCache := analyzer.rangeCache.set (lower, upper, agentName, reuse) stats } := by
  refine ⟨h.loaded, fun lower' upper' agentName' reuse' stats' hget => ?_⟩
  rw [Dict.get?_set] at hget
  split at hget
  · next heq =>
    cases heq
    cases hget
    exact hstats
  · exact h.entries _ _ _ _ _ hget

/-- An answer from the cache is the answer without it. -/
theorem getRequestsInRange_computes (nodeList : NodeList) (lower upper : Int) (agentName : String)
    (reuse useCache : Bool) : Computes (Remembers nodeList) (getRequestsInRange lower upper agentName reuse useCache)
      (computeRangeStats nodeList lower upper agentName reuse) := by
  intro analyzer h
  rw [getRequestsInRange, read_bind]
  generalize hcached : (if useCache = true then analyzer.rangeCache.get? (lower, upper, agentName, reuse) else none) = cached
  cases cached with
  | some stats =>
    cases useCache with
    | false => cases hcached
    | true =>
      have hget : analyzer.rangeCache.get? (lower, upper, agentName, reuse) = some stats := hcached
      rw [h.entries _ _ _ _ _ hget]
      exact ⟨analyzer, h, rfl⟩
  | none =>
    dsimp only
    rw [ofOption_bind, h.loaded]
    cases hstats : computeRangeStats nodeList lower upper agentName reuse with
    | none => exact ⟨analyzer, h, rfl⟩
    | some stats =>
      cases useCache with
      | false => exact ⟨analyzer, h, rfl⟩
      | true => exact ⟨_, h.set hstats, rfl⟩

theorem clearCache_computes (nodeList : NodeList) : Computes (Remembers nodeList) clearCache (some ()) := by
  intro analyzer h
  refine ⟨{ analyzer with rangeCache := Dict.empty }, ⟨h.loaded, fun lower upper agentName reuse stats hget => ?_⟩, rfl⟩
  exact (remembers_start nodeList).entries lower upper agentName reuse stats hget

end

end RequestAnalyzer

/-! ## `attain_instance_throughput` -/

/-- A pair of context indexes. -/
abbrev IndexRange (maxContextIdx : Nat) := {key : Nat × Nat // key.1 < key.2 ∧ key.2 ≤ maxContextIdx}

/-- The pairs of both loops, in their order. -/
def indexRanges (maxContextIdx : Nat) : List (IndexRange maxContextIdx) :=
  (List.finRange maxContextIdx).flatMap fun prevIdx : Fin maxContextIdx =>
    (List.finRange (maxContextIdx - prevIdx)).map fun i : Fin (maxContextIdx - prevIdx) => ⟨(prevIdx, prevIdx + 1 + i), by
      have hprev := prevIdx.isLt
      have hi := i.isLt
      dsimp only
      omega⟩

namespace ThroughputCache
variable {maxContextIdx : Nat}

def empty : ThroughputCache maxContextIdx := ⟨Dict.empty, fun _ h => absurd h List.not_mem_nil⟩

/-- `cache[key] = throughput`. -/
def set (cache : ThroughputCache maxContextIdx) (key : IndexRange maxContextIdx) (throughput : ℚ) :
    ThroughputCache maxContextIdx where
  items := cache.items.set key.1 throughput
  bounded := fun k hk => by
    rcases Dict.mem_set.mp (Dict.mem_def.mpr hk) with rfl | hk
    · exact key.2
    · exact cache.bounded k hk

end ThroughputCache

/-- The settings of `allocate.py` that concern one agent. The estimator and the orchestrator have one context
grid. -/
structure AgentAllocator where
  estimator : ThroughputEstimator
  models : LatencyModels
  orchestrator : InstanceOrchestrator
  numLayers : Int
  instanceCachedTokens : Int
  maxInstanceGroup : Nat
  minInstanceGroup : Nat
  interference : Bool
  reuse : Bool

namespace AgentAllocator
variable (a : AgentAllocator)

/-- The analysis of the requests of a range. -/
def analysis (request : RequestStats) : Analysis := ⟨a.estimator, a.models, a.numLayers, request, a.interference⟩

/-- `base_tp * out_proportion / max(query_proportion, 1e-9)`, unless the range is skipped. -/
def rateOf (stats : RangeStats) : Option (Option ℚ) :=
  match stats.requestStats with
  | none => some none
  | some request => do
    let (baseTp, _) ← (a.analysis request).analyzeThroughput a.instanceCachedTokens
    some (some (baseTp * stats.outProportion / max stats.queryProportion tiny))

/-- The body of both loops. -/
def measure (agentName : String) (cache : ThroughputCache a.orchestrator.maxContextIdx)
    (key : IndexRange a.orchestrator.maxContextIdx) :
    Prog RequestAnalyzer (ThroughputCache a.orchestrator.maxContextIdx) := do
  let stats ← RequestAnalyzer.getRequestsInRange (key.1.1 * a.orchestrator.contextStep : Nat)
    (key.1.2 * a.orchestrator.contextStep : Nat) agentName a.reuse true
  let rate ← ofOption (a.rateOf stats)
  pure (rate.elim cache (cache.set key))

/-- `attain_instance_throughput`. -/
def attainInstanceThroughput (agentName : String) :
    Prog RequestAnalyzer (ThroughputCache a.orchestrator.maxContextIdx) :=
  foldlM (a.measure agentName) ThroughputCache.empty (indexRanges a.orchestrator.maxContextIdx)

/-- `AgentAllocator.allocate`. -/
def allocate (totalNumGpus : Nat) (agentName : String) : Prog RequestAnalyzer (Dict Nat InstanceAssignment) := do
  let instanceTpCache ← a.attainInstanceThroughput agentName
  ofOption (a.orchestrator.solve totalNumGpus instanceTpCache a.maxInstanceGroup a.minInstanceGroup)

/-- `WorkflowAllocator.allocate` with the curves of this allocator. -/
def allocateWorkflow (fuel : Nat) (agents : List String) (totalNumGpus : Nat) :
    Prog RequestAnalyzer WorkflowAllocation := do
  let curves ← mapM (a.allocate totalNumGpus) agents
  let dpResults := Dict.ofPairs (agents.zip curves)
  let analyzer ← read
  ofOption (WorkflowAllocator.allocate analyzer.nodeList (fun agent _ => (dpResults.get? agent).getD Dict.empty) fuel
    agents totalNumGpus a.orchestrator.dpGpuStep)

/-! ## What they compute -/

/-- The rate of a range, if it is not skipped. -/
def rangeRate (nodeList : NodeList) (agentName : String) (key : Nat × Nat) : Option (Option ℚ) :=
  (computeRangeStats nodeList (key.1 * a.orchestrator.contextStep : Nat) (key.2 * a.orchestrator.contextStep : Nat)
    agentName a.reuse).bind a.rateOf

/-- The loops without the analyzer. -/
def measureAll (nodeList : NodeList) (agentName : String) (cache : ThroughputCache a.orchestrator.maxContextIdx)
    (keys : List (IndexRange a.orchestrator.maxContextIdx)) : Option (ThroughputCache a.orchestrator.maxContextIdx) :=
  keys.foldlM (fun cache key => (a.rangeRate nodeList agentName key.1).map fun rate => rate.elim cache (cache.set key))
    cache

/-- The curve of an agent. -/
def curve (nodeList : NodeList) (totalNumGpus : Nat) (agentName : String) : Option (Dict Nat InstanceAssignment) :=
  (a.measureAll nodeList agentName ThroughputCache.empty (indexRanges a.orchestrator.maxContextIdx)).bind fun cache =>
    a.orchestrator.solve totalNumGpus cache a.maxInstanceGroup a.minInstanceGroup

section
variable {a} {nodeList : NodeList} {agentName : String}

theorem measure_computes (cache : ThroughputCache a.orchestrator.maxContextIdx)
    (key : IndexRange a.orchestrator.maxContextIdx) : Computes (RequestAnalyzer.Remembers nodeList)
      (a.measure agentName cache key)
      ((a.rangeRate nodeList agentName key.1).map fun rate => rate.elim cache (cache.set key)) := by
  rw [rangeRate, Option.map_eq_bind, Option.bind_assoc]
  apply Computes.bind (RequestAnalyzer.getRequestsInRange_computes _ _ _ _ _ _)
  intro stats
  apply Computes.bind (.ofOption _)
  intro rate
  exact .pure _

theorem attainInstanceThroughput_computes (a : AgentAllocator) (nodeList : NodeList) (agentName : String) :
    Computes (RequestAnalyzer.Remembers nodeList) (a.attainInstanceThroughput agentName)
      (a.measureAll nodeList agentName ThroughputCache.empty (indexRanges a.orchestrator.maxContextIdx)) :=
  .foldlM measure_computes _ _

theorem allocate_computes (a : AgentAllocator) (nodeList : NodeList) (totalNumGpus : Nat) (agentName : String) :
    Computes (RequestAnalyzer.Remembers nodeList) (a.allocate totalNumGpus agentName)
      (a.curve nodeList totalNumGpus agentName) :=
  .bind (a.attainInstanceThroughput_computes nodeList agentName) fun _ => .ofOption _

theorem allocateWorkflow_computes (a : AgentAllocator) (nodeList : NodeList) (fuel : Nat) (agents : List String)
    (totalNumGpus : Nat) : Computes (RequestAnalyzer.Remembers nodeList) (a.allocateWorkflow fuel agents totalNumGpus)
      ((agents.mapM (a.curve nodeList totalNumGpus)).bind fun curves => WorkflowAllocator.allocate nodeList
        (fun agent _ => ((Dict.ofPairs (agents.zip curves)).get? agent).getD Dict.empty) fuel agents totalNumGpus
        a.orchestrator.dpGpuStep) := by
  apply Computes.bind (.mapM (a.allocate_computes nodeList totalNumGpus) agents)
  intro curves analyzer h
  rw [read_bind, h.loaded]
  exact Computes.ofOption _ analyzer h

/-! ## The loops -/

theorem mem_indexRanges {maxContextIdx : Nat} (key : IndexRange maxContextIdx) : key ∈ indexRanges maxContextIdx := by
  obtain ⟨⟨prev, curr⟩, hlt, hle⟩ := key
  rw [indexRanges, List.mem_flatMap]
  refine ⟨⟨prev, by omega⟩, List.mem_finRange _, List.mem_map.mpr
    ⟨⟨curr - prev - 1, by dsimp only; omega⟩, List.mem_finRange _, ?_⟩⟩
  apply Subtype.ext
  apply Prod.ext
  · rfl
  · dsimp only at hlt hle ⊢
    omega

theorem measureAll_raises {keys : List (IndexRange a.orchestrator.maxContextIdx)}
    (cache : ThroughputCache a.orchestrator.maxContextIdx)
    (h : ∃ key ∈ keys, a.rangeRate nodeList agentName key.1 = none) :
    a.measureAll nodeList agentName cache keys = none := by
  induction keys generalizing cache with
  | nil =>
    obtain ⟨key, hin, -⟩ := h
    cases hin
  | cons key keys ih =>
    rw [measureAll, List.foldlM_cons]
    cases hrate : a.rangeRate nodeList agentName key.1 with
    | none => rfl
    | some rate =>
      apply ih
      obtain ⟨key', hin, hnone⟩ := h
      rcases List.mem_cons.mp hin with rfl | hin
      · rw [hrate] at hnone
        cases hnone
      · exact ⟨key', hin, hnone⟩

/-- The keys that have been measured. -/
def MeasuredOn (a : AgentAllocator) (nodeList : NodeList) (agentName : String)
    (done : List (IndexRange a.orchestrator.maxContextIdx)) (cache : ThroughputCache a.orchestrator.maxContextIdx) : Prop :=
  ∀ (key : IndexRange a.orchestrator.maxContextIdx) rate,
    cache.items.get? key.1 = some rate ↔ key ∈ done ∧ a.rangeRate nodeList agentName key.1 = some (some rate)

theorem MeasuredOn.step {done : List (IndexRange a.orchestrator.maxContextIdx)}
    {cache : ThroughputCache a.orchestrator.maxContextIdx} (h : a.MeasuredOn nodeList agentName done cache)
    {key : IndexRange a.orchestrator.maxContextIdx} {rate : Option ℚ}
    (hrate : a.rangeRate nodeList agentName key.1 = some rate) :
    a.MeasuredOn nodeList agentName (done ++ [key]) (rate.elim cache (cache.set key)) := by
  intro key' rate'
  rw [List.mem_append, List.mem_singleton]
  cases rate with
  | none =>
    rw [Option.elim_none, h key' rate']
    constructor
    · rintro ⟨hin, hrate'⟩
      exact ⟨.inl hin, hrate'⟩
    · rintro ⟨hin | rfl, hrate'⟩
      · exact ⟨hin, hrate'⟩
      · rw [hrate] at hrate'
        cases hrate'
  | some r =>
    show (cache.items.set key.1 r).get? key'.1 = some rate' ↔ _
    rw [Dict.get?_set]
    split
    · next heq =>
      obtain rfl : key = key' := Subtype.ext heq
      rw [hrate]
      simp
    · next hne =>
      rw [h key' rate']
      constructor
      · rintro ⟨hin, hrate'⟩
        exact ⟨.inl hin, hrate'⟩
      · rintro ⟨hin | rfl, hrate'⟩
        · exact ⟨hin, hrate'⟩
        · exact absurd rfl hne

theorem measureAll_returns {done keys : List (IndexRange a.orchestrator.maxContextIdx)}
    {cache : ThroughputCache a.orchestrator.maxContextIdx} (h : a.MeasuredOn nodeList agentName done cache)
    (hrates : ∀ key ∈ keys, a.rangeRate nodeList agentName key.1 ≠ none) :
    ∃ cache', a.measureAll nodeList agentName cache keys = some cache' ∧
      a.MeasuredOn nodeList agentName (done ++ keys) cache' := by
  induction keys generalizing done cache with
  | nil =>
    rw [List.append_nil]
    exact ⟨cache, rfl, h⟩
  | cons key keys ih =>
    obtain ⟨rate, hrate⟩ := Option.ne_none_iff_exists'.mp (hrates key List.mem_cons_self)
    obtain ⟨cache', hrest, hdone⟩ := ih (h.step hrate) fun k hk => hrates k (List.mem_cons_of_mem _ hk)
    refine ⟨cache', ?_, by rwa [List.append_assoc] at hdone⟩
    rw [measureAll, List.foldlM_cons, hrate]
    exact hrest

/-! ## What is measured -/

/-- The statistics of a range with requests. -/
def Requested (a : AgentAllocator) (nodeList : NodeList) (agentName : String) (key : Nat × Nat) (stats : RangeStats)
    (request : RequestStats) : Prop :=
  computeRangeStats nodeList (key.1 * a.orchestrator.contextStep : Nat) (key.2 * a.orchestrator.contextStep : Nat)
    agentName a.reuse = some stats ∧ stats.requestStats = some request

/-- A node id of the agent cannot be split, or a range has requests without a length. -/
def Fails (a : AgentAllocator) (nodeList : NodeList) (agentName : String) : Prop :=
  ∃ key : IndexRange a.orchestrator.maxContextIdx, invocations nodeList agentName = none ∨
    ∃ stats request, a.Requested nodeList agentName key.1 stats request ∧ request.avgLength = 0

/-- The cache holds the ranges with requests, each with the rate at which an instance is found to keep up, weighed by the
proportions of the range. -/
structure Measured (a : AgentAllocator) (nodeList : NodeList) (agentName : String)
    (cache : ThroughputCache a.orchestrator.maxContextIdx) : Prop where
  keys : ∀ key : IndexRange a.orchestrator.maxContextIdx,
    key.1 ∈ cache.items ↔ ∃ stats request, a.Requested nodeList agentName key.1 stats request
  rates : ∀ key rate, cache.items.get? key = some rate → ∃ stats request baseTp,
    a.Requested nodeList agentName key stats request ∧
      (a.analysis request).FoundRate ((a.analysis request).slots a.instanceCachedTokens) baseTp ∧
      rate = baseTp * stats.outProportion / max stats.queryProportion tiny

/-- Tokens are counted, and a chunk has some. -/
structure Countable (a : AgentAllocator) (nodeList : NodeList) : Prop where
  counts : ∀ e ∈ nodeList.entries, ∀ node ∈ e.2, node.Counted
  chunk : 1 ≤ a.estimator.chunkSize

theorem Countable.wellFormed (h : a.Countable nodeList) {key : Nat × Nat} {stats : RangeStats} {request : RequestStats}
    (hr : a.Requested nodeList agentName key stats request) : (a.analysis request).WellFormed :=
  wellFormed_of_range h.counts hr.1 hr.2 h.chunk _ _ _

theorem Requested.unique {key : Nat × Nat} {stats stats' : RangeStats} {request request' : RequestStats}
    (h : a.Requested nodeList agentName key stats request) (h' : a.Requested nodeList agentName key stats' request') :
    stats' = stats ∧ request' = request := by
  obtain rfl := Option.some.inj (h'.1.symm.trans h.1)
  exact ⟨rfl, Option.some.inj (h'.2.symm.trans h.2)⟩

theorem rangeRate_requested {key : Nat × Nat} {stats : RangeStats} {request : RequestStats}
    (h : a.Requested nodeList agentName key stats request) : a.rangeRate nodeList agentName key =
      ((a.analysis request).analyzeThroughput a.instanceCachedTokens).map fun found =>
        some (found.1 * stats.outProportion / max stats.queryProportion tiny) := by
  rw [rangeRate, h.1, Option.bind_some, rateOf, h.2]
  dsimp only
  cases (a.analysis request).analyzeThroughput a.instanceCachedTokens with
  | none => rfl
  | some found => rfl

theorem rangeRate_eq_none (h : a.Countable nodeList) {key : Nat × Nat} : a.rangeRate nodeList agentName key = none ↔
    invocations nodeList agentName = none ∨ ∃ stats request, a.Requested nodeList agentName key stats request ∧
      request.avgLength = 0 := by
  constructor
  · intro hnone
    cases hstats : computeRangeStats nodeList (key.1 * a.orchestrator.contextStep : Nat)
        (key.2 * a.orchestrator.contextStep : Nat) agentName a.reuse with
    | none =>
      rw [computeRangeStats, Option.map_eq_none_iff, rangeTally, Option.map_eq_none_iff] at hstats
      exact .inl hstats
    | some stats =>
      cases hrequest : stats.requestStats with
      | none =>
        rw [rangeRate, hstats, Option.bind_some, rateOf, hrequest] at hnone
        cases hnone
      | some request =>
        have hr : a.Requested nodeList agentName key stats request := ⟨hstats, hrequest⟩
        refine .inr ⟨stats, request, hr, ?_⟩
        by_contra hne
        obtain ⟨baseTp, calls, hanalyze, -⟩ := ((a.analysis request).analyzeThroughput_found (h.wellFormed hr)
          a.instanceCachedTokens).2 hne
        rw [rangeRate_requested hr, hanalyze] at hnone
        cases hnone
  · rintro (hnone | ⟨stats, request, hr, hzero⟩)
    · rw [rangeRate, computeRangeStats, rangeTally, hnone]
      rfl
    · rw [rangeRate_requested hr, ((a.analysis request).analyzeThroughput_found (h.wellFormed hr)
        a.instanceCachedTokens).1 hzero]
      rfl

/-- The rate of a range is a rate that the search finds. -/
theorem rangeRate_eq_some (h : a.Countable nodeList) {key : Nat × Nat} {rate : ℚ}
    (hrate : a.rangeRate nodeList agentName key = some (some rate)) : ∃ stats request baseTp,
      a.Requested nodeList agentName key stats request ∧
        (a.analysis request).FoundRate ((a.analysis request).slots a.instanceCachedTokens) baseTp ∧
        rate = baseTp * stats.outProportion / max stats.queryProportion tiny := by
  have hrate' := hrate
  unfold rangeRate at hrate
  obtain ⟨stats, hstats, hrate⟩ := Option.bind_eq_some_iff.mp hrate
  cases hrequest : stats.requestStats with
  | none =>
    rw [rateOf, hrequest] at hrate
    cases hrate
  | some request =>
    have hr : a.Requested nodeList agentName key stats request := ⟨hstats, hrequest⟩
    have found := (a.analysis request).analyzeThroughput_found (h.wellFormed hr) a.instanceCachedTokens
    have hne : request.avgLength ≠ 0 := by
      intro hzero
      rw [rangeRate_requested hr, found.1 hzero] at hrate'
      cases hrate'
    obtain ⟨baseTp, calls, hanalyze, hfound⟩ := found.2 hne
    rw [rangeRate_requested hr, hanalyze] at hrate'
    exact ⟨stats, request, baseTp, hr, hfound, (Option.some.inj (Option.some.inj hrate')).symm⟩

theorem fails_iff (h : a.Countable nodeList) : a.Fails nodeList agentName ↔
    ∃ key : IndexRange a.orchestrator.maxContextIdx, a.rangeRate nodeList agentName key.1 = none := by
  simp only [Fails, rangeRate_eq_none h]

/-- The loops measure an agent that does not fail. -/
theorem measured_of_measuredOn (h : a.Countable nodeList) (hall : ¬ a.Fails nodeList agentName)
    {cache : ThroughputCache a.orchestrator.maxContextIdx}
    (hdone : a.MeasuredOn nodeList agentName (indexRanges a.orchestrator.maxContextIdx) cache) :
    a.Measured nodeList agentName cache := by
  refine ⟨fun key => ?_, fun key rate hget => ?_⟩
  · rw [Dict.mem_iff]
    constructor
    · rintro ⟨rate, hget⟩
      obtain ⟨stats, request, baseTp, hr, -, -⟩ := rangeRate_eq_some h ((hdone key rate).mp hget).2
      exact ⟨stats, request, hr⟩
    · rintro ⟨stats, request, hr⟩
      have hsome : a.rangeRate nodeList agentName key.1 ≠ none := fun hnone => hall ((fails_iff h).mpr ⟨key, hnone⟩)
      rw [rangeRate_requested hr, Ne, Option.map_eq_none_iff] at hsome
      obtain ⟨found, hfound⟩ := Option.ne_none_iff_exists'.mp hsome
      have hrate := rangeRate_requested hr
      rw [hfound, Option.map_some] at hrate
      exact ⟨_, (hdone key _).mpr ⟨mem_indexRanges key, hrate⟩⟩
  · have hkey := cache.bounded key (Dict.mem_def.mp (Dict.mem_of_get? hget))
    exact rangeRate_eq_some h ((hdone ⟨key, hkey⟩ rate).mp hget).2

/-- An agent has a curve unless it fails. -/
theorem curve_spec (h : a.Countable nodeList) (totalNumGpus : Nat) (agentName : String) :
    (a.Fails nodeList agentName → a.curve nodeList totalNumGpus agentName = none) ∧
    (¬ a.Fails nodeList agentName → ∃ cache results, a.Measured nodeList agentName cache ∧
      a.curve nodeList totalNumGpus agentName = some results ∧
      a.orchestrator.solve totalNumGpus cache a.maxInstanceGroup a.minInstanceGroup = some results) := by
  constructor
  · intro hfails
    obtain ⟨key, hnone⟩ := (fails_iff h).mp hfails
    rw [curve, measureAll_raises _ ⟨key, mem_indexRanges key, hnone⟩]
    rfl
  · intro hall
    have start : a.MeasuredOn nodeList agentName [] ThroughputCache.empty := by
      intro key rate
      simp [ThroughputCache.empty]
    obtain ⟨cache, hcache, hdone⟩ := measureAll_returns start fun key (_ : key ∈ indexRanges _) hnone =>
      hall ((fails_iff h).mpr ⟨key, hnone⟩)
    obtain ⟨results, hsolve, -⟩ := solve_spec cache totalNumGpus a.maxInstanceGroup a.minInstanceGroup
    refine ⟨cache, results, measured_of_measuredOn h hall hdone, ?_, hsolve⟩
    rw [curve, hcache, Option.bind_some, hsolve]

end

/-! ## The plan -/

section
variable {nodeList : NodeList} {agents : List String}

theorem invoked_of_mem {agent : String} (h : agent ∈ RequestAnalyzer.agents nodeList) : 0 < avgInvocations nodeList agent := by
  unfold RequestAnalyzer.agents at h
  rw [List.mem_mergeSort, List.mem_dedup, List.mem_map] at h
  obtain ⟨node, hnode, rfl⟩ := h
  obtain ⟨trace, htrace, hnode⟩ := List.mem_flatMap.mp hnode
  have hsize : 0 < nodeList.size := List.length_pos_of_mem htrace
  have hone : 0 < numInvocations node.agentName trace.2 := by
    unfold numInvocations
    apply List.length_pos_of_mem (a := node.nid)
    rw [List.mem_dedup]
    exact List.mem_map_of_mem (List.mem_filter.mpr ⟨hnode, by simp⟩)
  unfold avgInvocations
  apply div_pos
  · have hle := List.le_sum_of_mem (List.mem_map_of_mem (f := fun trace => numInvocations node.agentName trace.2) htrace)
    exact_mod_cast lt_of_lt_of_le hone hle
  · exact_mod_cast hsize

/-- Whatever has been remembered before, the plan of the agents fails where one of them does, and otherwise is the best
split over curves that are solved for measured rates. -/
theorem allocateWorkflow_optimal (a : AgentAllocator) (nodeList : NodeList) (analyzer : RequestAnalyzer) (agents : List String)
    (totalNumGpus : Nat) (h : a.Countable nodeList) (remembers : RequestAnalyzer.Remembers nodeList analyzer)
    (hne : agents ≠ []) (nodup : agents.Nodup) (named : ∀ agent ∈ agents, agent ∈ RequestAnalyzer.agents nodeList)
    (divides : a.orchestrator.dpGpuStep ∣ totalNumGpus) (covered : agents.length * a.orchestrator.dpGpuStep ≤ totalNumGpus) :
    ∃ rounds, ∀ fuel > rounds,
      ((∃ agent ∈ agents, a.Fails nodeList agent) → a.allocateWorkflow fuel agents totalNumGpus analyzer = none) ∧
      ((∀ agent ∈ agents, ¬ a.Fails nodeList agent) → ∃ result analyzer' gpus, ∃ curves : String → Dict Nat InstanceAssignment,
        a.allocateWorkflow fuel agents totalNumGpus analyzer = some (result, analyzer') ∧
        RequestAnalyzer.Remembers nodeList analyzer' ∧
        (∀ agent ∈ agents, ∃ cache, a.Measured nodeList agent cache ∧
          a.orchestrator.solve totalNumGpus cache a.maxInstanceGroup a.minInstanceGroup = some (curves agent)) ∧
        result.gpuAllocation.entries = agents.zip gpus ∧ IsSplit agents totalNumGpus a.orchestrator.dpGpuStep gpus ∧
        (splitThroughputs nodeList (fun agent _ => curves agent) totalNumGpus agents gpus).min? = some result.minThroughput ∧
        ∀ others x, IsSplit agents totalNumGpus a.orchestrator.dpGpuStep others →
          (splitThroughputs nodeList (fun agent _ => curves agent) totalNumGpus agents others).min? = some x →
          x ≤ result.minThroughput) := by
  refine ⟨totalNumGpus / a.orchestrator.dpGpuStep, fun fuel hfuel => ⟨?_, ?_⟩⟩
  · rintro ⟨agent, hagent, hfails⟩
    obtain ⟨analyzer', -, hrun⟩ := a.allocateWorkflow_computes nodeList fuel agents totalNumGpus analyzer remembers
    have hnone : agents.mapM (a.curve nodeList totalNumGpus) = none := by
      by_contra hsome
      obtain ⟨curves, hcurves⟩ := Option.ne_none_iff_exists'.mp hsome
      obtain ⟨curve, -, hcurve⟩ := exists_right_of_forall₂ (mapM_eq_some_iff.mp hcurves) hagent
      rw [(curve_spec h totalNumGpus agent).1 hfails] at hcurve
      cases hcurve
    rw [hrun, hnone]
    rfl
  · intro hall
    have each (agent : String) (hagent : agent ∈ agents) : ∃ cache results, a.Measured nodeList agent cache ∧
        a.curve nodeList totalNumGpus agent = some results ∧
        a.orchestrator.solve totalNumGpus cache a.maxInstanceGroup a.minInstanceGroup = some results :=
      (curve_spec h totalNumGpus agent).2 (hall agent hagent)
    have hcurves : agents.mapM (a.curve nodeList totalNumGpus) =
        some (agents.map fun agent => (a.curve nodeList totalNumGpus agent).getD Dict.empty) := by
      apply mapM_eq_some_map
      intro agent hagent
      obtain ⟨cache, results, -, hcurve, -⟩ := each agent hagent
      rw [hcurve, Option.getD_some]
    obtain ⟨analyzer', hremembers, hrun⟩ := a.allocateWorkflow_computes nodeList fuel agents totalNumGpus analyzer remembers
    rw [hcurves, Option.bind_some, ← List.map_prod_left_eq_zip] at hrun
    have solved (agent : String) (hagent : agent ∈ agents) : ∃ cache, a.Measured nodeList agent cache ∧
        a.orchestrator.solve totalNumGpus cache a.maxInstanceGroup a.minInstanceGroup = some (((Dict.ofPairs
          (agents.map fun agent => (agent, (a.curve nodeList totalNumGpus agent).getD Dict.empty))).get? agent).getD
            Dict.empty) := by
      obtain ⟨cache, results, measured, hcurve, hsolve⟩ := each agent hagent
      rw [get?_ofPairs_map nodup _ hagent, hcurve, Option.getD_some, Option.getD_some]
      exact ⟨cache, measured, hsolve⟩
    generalize Dict.ofPairs (agents.map fun agent => (agent, (a.curve nodeList totalNumGpus agent).getD Dict.empty)) =
      dpResults at hrun solved
    have splittable : Splittable nodeList (fun agent _ => (dpResults.get? agent).getD Dict.empty) agents totalNumGpus
        a.orchestrator.dpGpuStep := by
      refine ⟨nodup, fun agent hagent => invoked_of_mem (named agent hagent), a.orchestrator.dpGpuStep_pos, divides,
        covered, fun agent hagent => ?_⟩
      obtain ⟨cache, -, hsolve⟩ := solved agent hagent
      obtain ⟨results, hsolve', monotone⟩ := solve_monotoneCurve a.orchestrator cache totalNumGpus a.maxInstanceGroup
        a.minInstanceGroup
      rw [hsolve, Option.some.injEq] at hsolve'
      exact hsolve' ▸ monotone
    obtain ⟨result, gpus, hallocate, hgpus, split, hmin, best⟩ := allocate_spec splittable hne hfuel
    rw [hallocate] at hrun
    exact ⟨result, analyzer', gpus, fun agent => (dpResults.get? agent).getD Dict.empty, hrun, hremembers, solved, hgpus,
      split, hmin, best⟩

/-- One agent with one call, and two devices. -/
def smallAllocator : AgentAllocator where
  estimator := ⟨512, 1 / 10⟩
  models := flatModels
  orchestrator := InstanceOrchestrator.threeSteps
  numLayers := 32
  instanceCachedTokens := 100000
  maxInstanceGroup := 3
  minInstanceGroup := 1
  interference := true
  reuse := true

theorem allocateWorkflow_optimal_oneCall : ∃ rounds, ∀ fuel > rounds, ∃ result analyzer',
    smallAllocator.allocateWorkflow fuel ["agent"] 2 { nodeList := oneCallNodeList 1 1 } = some (result, analyzer') ∧
      result.gpuAllocation.entries = [("agent", 2)] := by
  have countable : smallAllocator.Countable (oneCallNodeList 1 1) := ⟨by decide +kernel, by decide⟩
  have measured : (indexRanges 3).all (fun key =>
      (smallAllocator.rangeRate (oneCallNodeList 1 1) "agent" key.1).isSome) = true := by
    decide +kernel
  obtain ⟨rounds, hrounds⟩ := allocateWorkflow_optimal smallAllocator (oneCallNodeList 1 1) _ ["agent"] 2 countable
    (RequestAnalyzer.remembers_start _) (by decide) (by decide) (by decide +kernel) (by decide) (by decide)
  refine ⟨rounds, fun fuel hfuel => ?_⟩
  have succeeds : ∀ agent ∈ ["agent"], ¬ smallAllocator.Fails (oneCallNodeList 1 1) agent := by
    intro agent hagent hfails
    obtain rfl := List.mem_singleton.mp hagent
    obtain ⟨key, hnone⟩ := (fails_iff countable).mp hfails
    have hsome := List.all_eq_true.mp measured key (mem_indexRanges key)
    rw [hnone] at hsome
    cases hsome
  obtain ⟨result, analyzer', gpus, curves, hrun, -, -, hgpus, split, -, -⟩ := (hrounds fuel hfuel).2 succeeds
  obtain ⟨n, rfl⟩ := List.length_eq_one_iff.mp split.length
  obtain rfl : n = 2 := by simpa using split.total
  exact ⟨result, analyzer', hrun, hgpus⟩

end

end AgentAllocator

end CoreFlow
