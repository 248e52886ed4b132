import CoreFlow.Scripts.Generate

/-!
# What a workload keeps on the GPU

A call of a workload keeps its cache exactly when its direct successor can use it. The flag compares the
tokens that the successor has cached with the new tokens of the call, its input and output counts,
although the sequence that the call leaves behind also has the tokens it had cached itself. The two agree
when whatever the sequence holds is held by the new tokens alone.

The records are expanded in the order of their ids, so the record of the next repeat comes right after
the one it repeats, and what is replayed to it is the sequence just made. Only a negative repeat is not
replayed to.
-/

namespace CoreFlow.Generate

/-- A node has the id and the counts of its record. -/
structure ExpandedNode.Expands (node : ExpandedNode) (keyed : Keyed) : Prop where
  nodeId : node.nodeId = keyed.2.nodeId
  agentName : node.agentName = keyed.2.agentName
  key : node.key = keyed.1
  numInputTokens : node.numInputTokens = keyed.2.numInputTokens
  numOutputTokens : node.numOutputTokens = keyed.2.numOutputTokens
  cachedTokens : node.cachedTokens = keyed.2.numCachedTokens

/-- A workload expands the records, marks reuse exactly when it is possible, and delivers it. -/
structure Workload.MarksReuse (w : Workload) (keyed : List Keyed) : Prop where
  records : ∃ ordered : List Keyed, ordered.Perm keyed ∧ List.Forall₂ ExpandedNode.Expands w.nodeList ordered
  lengths : ∀ node ∈ w.nodeList, (node.inputTokenIds.length : Int) = node.numInputTokens + node.cachedTokens ∧
    (node.outputTokenIds.length : Int) = node.numOutputTokens
  flags : ∀ node ∈ w.nodeList, node.keepCacheInGpu = !node.freeCache
  marked : ∀ node ∈ w.nodeList, node.freeCache = false ↔
    ∃ next ∈ w.nodeList, next.key = nextKey node.key ∧ w.nodeDependency.Direct node.key ∧
      next.cachedTokens ≤ node.sequence.length
  delivered : ∀ node ∈ w.nodeList, ∀ next ∈ w.nodeList, node.freeCache = false → next.key = nextKey node.key →
    next.inputTokenIds.take next.cachedTokens.toNat = node.sequence.take next.cachedTokens.toNat

/-- When the sequence of a record holds what its direct successor has cached, so do its new tokens, and
the successor is a later repeat unless it has nothing cached. -/
def CountsSuffice (dependencies : RawDependencies) (keyed : List Keyed) : Prop :=
  ∀ x ∈ keyed, ∀ y ∈ keyed, y.1 = nextKey x.1 → dependencies.Direct x.1 →
    y.2.numCachedTokens ≤ x.2.numInputTokens + x.2.numCachedTokens + x.2.numOutputTokens →
    y.2.numCachedTokens ≤ x.2.numInputTokens + x.2.numOutputTokens ∧ (0 ≤ x.1.2 ∨ y.2.numCachedTokens = 0)

instance (dependencies : RawDependencies) (keyed : List Keyed) : Decidable (CountsSuffice dependencies keyed) :=
  inferInstanceAs (Decidable (∀ x ∈ keyed, _))

/-! ## Random tokens -/

@[simp] theorem length_randomTokens (draws : Nat → TokenId) (drawn : Nat) (length : Int) :
    (randomTokens draws drawn length).length = length.toNat := by
  simp [randomTokens]

/-- Only the draws that are made matter. -/
theorem randomTokens_congr {draws draws' : Nat → TokenId} {drawn : Nat} {length : Int}
    (h : ∀ k < drawn + length.toNat, draws k = draws' k) :
    randomTokens draws drawn length = randomTokens draws' drawn length := by
  apply List.map_congr_left
  intro k hk
  apply h
  have := List.mem_range.mp hk
  omega

theorem eq_of_mem_randomTokens {draws : Nat → TokenId} {drawn : Nat} {length : Int} {c t : TokenId}
    (h : ∀ k < drawn + length.toNat, draws k = c) (ht : t ∈ randomTokens draws drawn length) : t = c := by
  simp only [randomTokens, List.mem_map, List.mem_range] at ht
  obtain ⟨k, hk, rfl⟩ := ht
  apply h
  omega

/-! ## One record -/

/-- What expanding a record makes of the state, and the node that it adds. -/
structure Expanded (draws : Nat → TokenId) (rawByKey : Dict (Int × Int) RawRecord) (dependencies : RawDependencies)
    (e : Expansion) (x : Keyed) (node : ExpandedNode) (e' : Expansion) : Prop where
  nodes : e'.nodes = e.nodes ++ [node]
  tokenStates : e'.tokenStates = e.tokenStates.set x.1.1 node.sequence
  drawn : e.drawn + node.sequence.length =
    e'.drawn + (replayed e.tokenStates x.1 (x.2.numInputTokens + x.2.numCachedTokens)).length
  expands : node.Expands x
  input : node.inputTokenIds = replayed e.tokenStates x.1 (x.2.numInputTokens + x.2.numCachedTokens) ++
    randomTokens draws e.drawn (x.2.numInputTokens + x.2.numCachedTokens -
      (replayed e.tokenStates x.1 (x.2.numInputTokens + x.2.numCachedTokens)).length)
  output : ∃ drawn, drawn + x.2.numOutputTokens.toNat = e'.drawn ∧
    node.outputTokenIds = randomTokens draws drawn x.2.numOutputTokens
  flags : node.keepCacheInGpu = !node.freeCache
  marked : node.freeCache = false ↔ ∃ next, rawByKey.get? (nextKey x.1) = some next ∧ dependencies.Direct x.1 ∧
    next.numCachedTokens ≤ x.2.numInputTokens + x.2.numOutputTokens

section Step
variable {draws : Nat → TokenId} {rawByKey : Dict (Int × Int) RawRecord} {dependencies : RawDependencies}
  {e e' : Expansion} {x : Keyed} {node : ExpandedNode}

/-- A direct repeat is recorded and depends on the node alone. -/
theorem directRepeat_eq_some {key : Int × Int} {next : Option RawRecord}
    (h : directRepeat rawByKey dependencies key = some next) (record : RawRecord) :
    next = some record ↔ rawByKey.get? (nextKey key) = some record ∧ dependencies.Direct key := by
  unfold directRepeat at h
  unfold RawDependencies.Direct
  split at h
  · next hnone =>
    cases h
    simp [hnone]
  · next r hr =>
    obtain ⟨parents, hparents, hnext⟩ := Option.bind_eq_some_iff.mp h
    rw [hr, hparents, ← Option.some.inj hnext]
    split
    · next heq => simp [heq]
    · next hne => simp [hne]

theorem length_replayed_le (tokenStates : Dict Int (List TokenId)) (key : Int × Int) {inputLength : Int}
    (h : 0 ≤ inputLength) : ((replayed tokenStates key inputLength).length : Int) ≤ inputLength := by
  rw [replayed, sliceTo, if_pos h]
  split
  · have := List.length_take_le inputLength.toNat ((tokenStates.get? key.1).getD [])
    omega
  · exact h

theorem expandRecord_expanded (h : expandRecord draws rawByKey dependencies e x = some e') :
    ∃ node, Expanded draws rawByKey dependencies e x node e' := by
  obtain ⟨next, hnext, hstate⟩ := Option.bind_eq_some_iff.mp h
  rw [← Option.some.inj hstate]
  refine ⟨_, ⟨rfl, rfl, ?_, ⟨rfl, rfl, rfl, rfl, rfl, rfl⟩, rfl, ⟨_, ?_, rfl⟩, ?_, ?_⟩⟩
  · simp only [ExpandedNode.sequence, List.length_append]
    omega
  · simp only [length_randomTokens]
  · exact (Bool.not_not _).symm
  · simp only [Bool.not_eq_false', Option.any_eq_true, decide_eq_true_eq, directRepeat_eq_some hnext, and_assoc]

theorem drawn_expandRecord (h : expandRecord draws rawByKey dependencies e x = some e') :
    e'.drawn = e.drawn + (x.2.numInputTokens + x.2.numCachedTokens -
      (replayed e.tokenStates x.1 (x.2.numInputTokens + x.2.numCachedTokens)).length).toNat +
      x.2.numOutputTokens.toNat := by
  obtain ⟨next, -, hstate⟩ := Option.bind_eq_some_iff.mp h
  rw [← Option.some.inj hstate]
  simp only [length_randomTokens]

/-- Generators that agree on the draws made build the same. -/
theorem expandRecord_congr {draws' : Nat → TokenId} (h : expandRecord draws rawByKey dependencies e x = some e')
    (hagree : ∀ k < e'.drawn, draws k = draws' k) : expandRecord draws' rawByKey dependencies e x = some e' := by
  have hdrawn := drawn_expandRecord h
  have hsame (drawn : Nat) (length : Int) (hle : drawn + length.toNat ≤ e'.drawn) :
      randomTokens draws drawn length = randomTokens draws' drawn length :=
    randomTokens_congr fun k hk => hagree k (by omega)
  unfold expandRecord at h ⊢
  dsimp only at h ⊢
  rw [← hsame, ← hsame]
  · exact h
  · simp only [length_randomTokens]
    omega
  · omega

/-- A call whose counts are not negative gets its input and output in full. -/
theorem Expanded.lengths (h : Expanded draws rawByKey dependencies e x node e') (hx : x.2.Counted) :
    (node.inputTokenIds.length : Int) = node.numInputTokens + node.cachedTokens ∧
      (node.outputTokenIds.length : Int) = node.numOutputTokens := by
  obtain ⟨hin, hout, hcached⟩ := hx
  have hle := length_replayed_le e.tokenStates x.1 (Int.add_nonneg hin hcached)
  obtain ⟨drawn, -, houtput⟩ := h.output
  rw [h.input, houtput, h.expands.numInputTokens, h.expands.numOutputTokens, h.expands.cachedTokens]
  simp only [List.length_append, length_randomTokens]
  omega

theorem Expanded.length_sequence (h : Expanded draws rawByKey dependencies e x node e') (hx : x.2.Counted) :
    (node.sequence.length : Int) = x.2.numInputTokens + x.2.numCachedTokens + x.2.numOutputTokens := by
  obtain ⟨hinput, houtput⟩ := h.lengths hx
  rw [ExpandedNode.sequence, List.length_append, Int.natCast_add, hinput, houtput, h.expands.numInputTokens,
    h.expands.cachedTokens, h.expands.numOutputTokens]

end Step

/-! ## The loop over the records -/

/-- The loop over a list of records adds one node for each. -/
inductive ExpandsAll (draws : Nat → TokenId) (rawByKey : Dict (Int × Int) RawRecord) (dependencies : RawDependencies) :
    List Keyed → Expansion → List ExpandedNode → Expansion → Prop
  | nil (e : Expansion) : ExpandsAll draws rawByKey dependencies [] e [] e
  | cons {x : Keyed} {l : List Keyed} {e e₁ e' : Expansion} {node : ExpandedNode} {nodes : List ExpandedNode}
      (step : Expanded draws rawByKey dependencies e x node e₁)
      (rest : ExpandsAll draws rawByKey dependencies l e₁ nodes e') :
      ExpandsAll draws rawByKey dependencies (x :: l) e (node :: nodes) e'

section Loop
variable {draws : Nat → TokenId} {rawByKey : Dict (Int × Int) RawRecord} {dependencies : RawDependencies}
  {l a b : List Keyed} {e e' : Expansion} {x y : Keyed} {nodes : List ExpandedNode}

theorem foldlM_expands (h : l.foldlM (expandRecord draws rawByKey dependencies) e = some e') :
    ∃ nodes, ExpandsAll draws rawByKey dependencies l e nodes e' ∧ e'.nodes = e.nodes ++ nodes := by
  induction l generalizing e with
  | nil =>
    cases h
    exact ⟨[], .nil _, (List.append_nil _).symm⟩
  | cons x l ih =>
    rw [List.foldlM_cons] at h
    obtain ⟨e₁, hstep, hrest⟩ := Option.bind_eq_some_iff.mp h
    obtain ⟨node, hnode⟩ := expandRecord_expanded hstep
    obtain ⟨nodes, hnodes, hall⟩ := ih hrest
    refine ⟨node :: nodes, .cons hnode hnodes, ?_⟩
    rw [hall, hnode.nodes, List.append_assoc, List.singleton_append]

theorem ExpandsAll.forall₂ (h : ExpandsAll draws rawByKey dependencies l e nodes e') :
    List.Forall₂ ExpandedNode.Expands nodes l := by
  induction h with
  | nil => exact .nil
  | cons step _ ih => exact .cons step.expands ih

theorem ExpandsAll.keys (h : ExpandsAll draws rawByKey dependencies l e nodes e') :
    nodes.map ExpandedNode.key = l.map Prod.fst := by
  induction h with
  | nil => rfl
  | cons step _ ih => rw [List.map_cons, List.map_cons, ih, step.expands.key]

theorem ExpandsAll.exists_record {node : ExpandedNode} (h : ExpandsAll draws rawByKey dependencies l e nodes e')
    (hnode : node ∈ nodes) : ∃ x ∈ l, ∃ e₁ e₂, Expanded draws rawByKey dependencies e₁ x node e₂ := by
  induction h with
  | nil => exact absurd hnode List.not_mem_nil
  | cons step _ ih =>
    rcases List.mem_cons.mp hnode with rfl | hnode
    · exact ⟨_, List.mem_cons_self, _, _, step⟩
    · obtain ⟨x, hx, hstep⟩ := ih hnode
      exact ⟨x, List.mem_cons_of_mem _ hx, hstep⟩

theorem ExpandsAll.exists_node (h : ExpandsAll draws rawByKey dependencies l e nodes e') (hx : x ∈ l) :
    ∃ node ∈ nodes, ∃ e₁ e₂, Expanded draws rawByKey dependencies e₁ x node e₂ := by
  induction h with
  | nil => exact absurd hx List.not_mem_nil
  | cons step _ ih =>
    rcases List.mem_cons.mp hx with rfl | hx
    · exact ⟨_, List.mem_cons_self, _, _, step⟩
    · obtain ⟨node, hnode, hstep⟩ := ih hx
      exact ⟨node, List.mem_cons_of_mem _ hnode, hstep⟩

/-- Two records that follow each other are expanded one after the other. -/
theorem ExpandsAll.consecutive (h : ExpandsAll draws rawByKey dependencies (a ++ x :: y :: b) e nodes e') :
    ∃ e₁ nx e₂ ny e₃, nx ∈ nodes ∧ ny ∈ nodes ∧ Expanded draws rawByKey dependencies e₁ x nx e₂ ∧
      Expanded draws rawByKey dependencies e₂ y ny e₃ := by
  induction a generalizing e nodes with
  | nil =>
    cases h with
    | cons first rest =>
      cases rest with
      | cons second _ => exact ⟨_, _, _, _, _, by simp, by simp, first, second⟩
  | cons z a ih =>
    cases h with
    | cons _ rest =>
      obtain ⟨e₁, nx, e₂, ny, e₃, hnx, hny, hx, hy⟩ := ih rest
      exact ⟨e₁, nx, e₂, ny, e₃, List.mem_cons_of_mem _ hnx, List.mem_cons_of_mem _ hny, hx, hy⟩

/-- No step takes draws back. -/
theorem drawn_le_of_foldlM (h : l.foldlM (expandRecord draws rawByKey dependencies) e = some e') :
    e.drawn ≤ e'.drawn := by
  induction l generalizing e with
  | nil =>
    cases h
    exact Nat.le_refl _
  | cons x l ih =>
    rw [List.foldlM_cons] at h
    obtain ⟨e₁, hstep, hrest⟩ := Option.bind_eq_some_iff.mp h
    have := drawn_expandRecord hstep
    have := ih hrest
    omega

theorem foldlM_expandRecord_congr {draws' : Nat → TokenId}
    (h : l.foldlM (expandRecord draws rawByKey dependencies) e = some e') (hagree : ∀ k < e'.drawn, draws k = draws' k) :
    l.foldlM (expandRecord draws' rawByKey dependencies) e = some e' := by
  induction l generalizing e with
  | nil => exact h
  | cons x l ih =>
    rw [List.foldlM_cons] at h ⊢
    obtain ⟨e₁, hstep, hrest⟩ := Option.bind_eq_some_iff.mp h
    have hle := drawn_le_of_foldlM hrest
    rw [expandRecord_congr hstep fun k hk => hagree k (by omega)]
    exact ih hrest

/-- When one dependency list can be asked for, all can. -/
theorem RawDependencies.Direct.get_isSome {key : Int × Int} (h : dependencies.Direct key) (nodeId : String) :
    ∃ parents, dependencies.get nodeId = some parents := by
  unfold RawDependencies.Direct at h
  unfold RawDependencies.get at h ⊢
  split at h
  · exact ⟨_, rfl⟩
  · exact ⟨_, rfl⟩
  · cases h

theorem expandRecord_returns (draws : Nat → TokenId) (rawByKey : Dict (Int × Int) RawRecord) {key : Int × Int}
    (h : dependencies.Direct key) (e : Expansion) (x : Keyed) :
    ∃ e', expandRecord draws rawByKey dependencies e x = some e' := by
  have hnext : ∃ next, directRepeat rawByKey dependencies x.1 = some next := by
    unfold directRepeat
    split
    · exact ⟨none, rfl⟩
    · obtain ⟨parents, hparents⟩ := h.get_isSome (writeNodeId (nextKey x.1))
      rw [hparents]
      exact ⟨_, rfl⟩
  obtain ⟨next, hnext⟩ := hnext
  unfold expandRecord
  dsimp only
  rw [hnext]
  exact ⟨_, rfl⟩

theorem foldlM_expandRecord_returns (draws : Nat → TokenId) (rawByKey : Dict (Int × Int) RawRecord) {key : Int × Int}
    (h : dependencies.Direct key) (l : List Keyed) (e : Expansion) :
    ∃ e', l.foldlM (expandRecord draws rawByKey dependencies) e = some e' := by
  induction l generalizing e with
  | nil => exact ⟨e, rfl⟩
  | cons x l ih =>
    obtain ⟨e₁, hstep⟩ := expandRecord_returns draws rawByKey h e x
    obtain ⟨e', hrest⟩ := ih e₁
    refine ⟨e', ?_⟩
    rw [List.foldlM_cons, hstep]
    exact hrest

end Loop

/-! ## The order of the records -/

theorem nextKey_not_between {k m : Int × Int} (h : toLex k < toLex m) : ¬ toLex m < toLex (nextKey k) := by
  simp only [Prod.Lex.toLex_lt_toLex, nextKey] at h ⊢
  omega

/-- In a list sorted by distinct ids the next repeat comes right after the one it repeats. -/
theorem consecutive_of_nextKey {l : List Keyed} (hl : l.Pairwise fun a b => toLex a.1 < toLex b.1) {x y : Keyed}
    (hx : x ∈ l) (hy : y ∈ l) (h : y.1 = nextKey x.1) : ∃ a b, l = a ++ x :: y :: b := by
  have hxy : toLex x.1 < toLex y.1 := by
    rw [h, Prod.Lex.toLex_lt_toLex, nextKey]
    omega
  obtain ⟨a, rest, rfl⟩ := List.append_of_mem hx
  obtain ⟨-, hrest, hbefore⟩ := List.pairwise_append.mp hl
  -- what comes before `x` is smaller
  have hy : y ∈ rest := by
    rcases List.mem_append.mp hy with hy | hy
    · exact absurd (hbefore y hy x List.mem_cons_self) hxy.asymm
    · rcases List.mem_cons.mp hy with rfl | hy
      · exact absurd hxy (lt_irrefl _)
      · exact hy
  cases rest with
  | nil => exact absurd hy List.not_mem_nil
  | cons z b =>
    rcases List.mem_cons.mp hy with rfl | hy
    · exact ⟨a, b, rfl⟩
    · obtain ⟨hfirst, hlater⟩ := List.pairwise_cons.mp hrest
      have hz := hfirst z List.mem_cons_self
      have hzy := (List.pairwise_cons.mp hlater).1 y hy
      exact absurd (h ▸ hzy) (nextKey_not_between hz)

instance : Std.Total keyLe := ⟨fun a b => le_total (toLex a.1) (toLex b.1)⟩

instance : IsTrans Keyed keyLe := ⟨fun _ b _ hab hbc => le_trans (b := toLex b.1) hab hbc⟩

theorem pairwise_ordered {keyed : List Keyed} (hdistinct : (keyed.map Prod.fst).Nodup) :
    (keyed.insertionSort keyLe).Pairwise fun a b => toLex a.1 < toLex b.1 := by
  have hnodup := (((List.perm_insertionSort keyLe keyed).map Prod.fst).nodup_iff).mpr hdistinct
  refine ((List.pairwise_insertionSort keyLe keyed).and (List.pairwise_map.mp hnodup)).imp fun h => ?_
  exact lt_of_le_of_ne h.1 fun heq => h.2 (toLex.injective heq)

/-! ## The nodes of a workload -/

section Nodes
variable {draws : Nat → TokenId} {dependencies : RawDependencies} {keyed : List Keyed} {e e' : Expansion}
  {nodes : List ExpandedNode}

theorem get?_rawByKey (hdistinct : (keyed.map Prod.fst).Nodup) {key : Int × Int} {record : RawRecord} :
    (Dict.ofPairs keyed).get? key = some record ↔ (key, record) ∈ keyed := by
  rw [Dict.get?_iff_mem_entries, Dict.entries_ofPairs hdistinct]

theorem record_unique (hdistinct : (keyed.map Prod.fst).Nodup) {x y : Keyed} (hx : x ∈ keyed) (hy : y ∈ keyed)
    (h : x.1 = y.1) : x = y :=
  List.inj_on_of_nodup_map hdistinct hx hy h

variable (hdistinct : (keyed.map Prod.fst).Nodup) (hcounts : ∀ x ∈ keyed, x.2.Counted)
  (h : ExpandsAll draws (Dict.ofPairs keyed) dependencies (keyed.insertionSort keyLe) e nodes e')
include hdistinct h

theorem node_unique {node node' : ExpandedNode} (hn : node ∈ nodes) (hn' : node' ∈ nodes) (heq : node.key = node'.key) :
    node = node' := by
  have hnodup : (nodes.map ExpandedNode.key).Nodup := by
    rw [h.keys]
    exact (((List.perm_insertionSort keyLe keyed).map Prod.fst).nodup_iff).mpr hdistinct
  exact List.inj_on_of_nodup_map hnodup hn hn' heq

/-- The node of the next repeat is expanded right after the one it repeats. -/
theorem expanded_pair {node next : ExpandedNode} (hn : node ∈ nodes) (hnext : next ∈ nodes)
    (hkey : next.key = nextKey node.key) : ∃ x ∈ keyed, ∃ y ∈ keyed, ∃ e₁ e₂ e₃,
      Expanded draws (Dict.ofPairs keyed) dependencies e₁ x node e₂ ∧
      Expanded draws (Dict.ofPairs keyed) dependencies e₂ y next e₃ := by
  obtain ⟨x, hx, _, _, hnode⟩ := h.exists_record hn
  obtain ⟨y, hy, _, _, hafter⟩ := h.exists_record hnext
  have hxy : y.1 = nextKey x.1 := by rw [← hafter.expands.key, ← hnode.expands.key, hkey]
  obtain ⟨a, b, hsplit⟩ := consecutive_of_nextKey (pairwise_ordered hdistinct) hx hy hxy
  have h' := h
  rw [hsplit] at h'
  obtain ⟨e₁, nx, e₂, ny, e₃, hnx, hny, hfirst, hsecond⟩ := h'.consecutive
  have hfst : nx = node := node_unique hdistinct h hnx hn (hfirst.expands.key.trans hnode.expands.key.symm)
  have hsnd : ny = next := node_unique hdistinct h hny hnext (hsecond.expands.key.trans hafter.expands.key.symm)
  subst hfst hsnd
  exact ⟨x, (List.mem_insertionSort _).mp hx, y, (List.mem_insertionSort _).mp hy, e₁, e₂, e₃, hfirst, hsecond⟩

/-- The code keeps the cache of a call when the new tokens of the call hold what its direct successor has
cached. -/
theorem freeCache_iff {node : ExpandedNode} (hn : node ∈ nodes) : node.freeCache = false ↔
    ∃ next ∈ nodes, next.key = nextKey node.key ∧ dependencies.Direct node.key ∧
      next.cachedTokens ≤ node.numInputTokens + node.numOutputTokens := by
  obtain ⟨x, hx, e₁, e₂, hnode⟩ := h.exists_record hn
  rw [hnode.marked, hnode.expands.key, hnode.expands.numInputTokens, hnode.expands.numOutputTokens]
  constructor
  · rintro ⟨record, hrecord, hdirect, hle⟩
    have hy : (nextKey x.1, record) ∈ keyed.insertionSort keyLe :=
      (List.mem_insertionSort _).mpr ((get?_rawByKey hdistinct).mp hrecord)
    obtain ⟨next, hnext, _, _, hafter⟩ := h.exists_node hy
    exact ⟨next, hnext, hafter.expands.key, hdirect, by rwa [hafter.expands.cachedTokens]⟩
  · rintro ⟨next, hnext, hkey, hdirect, hle⟩
    obtain ⟨y, hy, _, _, hafter⟩ := h.exists_record hnext
    refine ⟨y.2, (get?_rawByKey hdistinct).mpr ?_, hdirect, by rwa [← hafter.expands.cachedTokens]⟩
    rw [← hkey, hafter.expands.key]
    exact (List.mem_insertionSort _).mp hy

include hcounts

omit hdistinct in
/-- The sequence of a call holds its new tokens, and what it had cached. -/
theorem length_sequence_node {node : ExpandedNode} (hn : node ∈ nodes) : (node.sequence.length : Int) =
    node.numInputTokens + node.cachedTokens + node.numOutputTokens ∧ 0 ≤ node.cachedTokens := by
  obtain ⟨x, hx, e₁, e₂, hnode⟩ := h.exists_record hn
  have hcounted := hcounts x ((List.mem_insertionSort _).mp hx)
  rw [hnode.length_sequence hcounted, hnode.expands.numInputTokens, hnode.expands.cachedTokens,
    hnode.expands.numOutputTokens]
  exact ⟨rfl, hcounted.2.2⟩

theorem marked_of_countsSuffice (hsuffice : CountsSuffice dependencies keyed) {node : ExpandedNode} (hn : node ∈ nodes) :
    node.freeCache = false ↔ ∃ next ∈ nodes, next.key = nextKey node.key ∧ dependencies.Direct node.key ∧
      next.cachedTokens ≤ node.sequence.length := by
  obtain ⟨hlength, hcached⟩ := length_sequence_node hcounts h hn
  rw [freeCache_iff hdistinct h hn]
  apply exists_congr
  intro next
  constructor
  · rintro ⟨hnext, hkey, hdirect, hle⟩
    exact ⟨hnext, hkey, hdirect, by omega⟩
  · rintro ⟨hnext, hkey, hdirect, hle⟩
    refine ⟨hnext, hkey, hdirect, ?_⟩
    obtain ⟨x, hx, y, hy, e₁, e₂, e₃, hnode, hafter⟩ := expanded_pair hdistinct h hn hnext hkey
    have hxy : y.1 = nextKey x.1 := by rw [← hafter.expands.key, ← hnode.expands.key, hkey]
    have hsuff := hsuffice x hx y hy hxy (by rwa [← hnode.expands.key])
    rw [← hnode.expands.numInputTokens, ← hnode.expands.cachedTokens, ← hnode.expands.numOutputTokens,
      ← hafter.expands.cachedTokens, ← hlength] at hsuff
    exact (hsuff hle).1

/-- What is kept is replayed to the next repeat, unless that is not a later repeat. -/
theorem delivered_of_countsSuffice (hsuffice : CountsSuffice dependencies keyed) {node next : ExpandedNode}
    (hn : node ∈ nodes) (hnext : next ∈ nodes) (hfree : node.freeCache = false) (hkey : next.key = nextKey node.key) :
    next.inputTokenIds.take next.cachedTokens.toNat = node.sequence.take next.cachedTokens.toNat := by
  obtain ⟨next', hnext', hkey', hdirect, hle⟩ := (marked_of_countsSuffice hdistinct hcounts h hsuffice hn).mp hfree
  have hsame : next' = next := node_unique hdistinct h hnext' hnext (hkey'.trans hkey.symm)
  subst hsame
  obtain ⟨hlength, -⟩ := length_sequence_node hcounts h hn
  obtain ⟨x, hx, y, hy, e₁, e₂, e₃, hnode, hafter⟩ := expanded_pair hdistinct h hn hnext hkey
  have hxy : y.1 = nextKey x.1 := by rw [← hafter.expands.key, ← hnode.expands.key, hkey]
  have hsuff := (hsuffice x hx y hy hxy (by rwa [← hnode.expands.key])
    (by rwa [← hafter.expands.cachedTokens, ← hnode.length_sequence (hcounts x hx)])).2
  rw [← hafter.expands.cachedTokens] at hsuff
  rcases hsuff with hlater | hnone
  · obtain ⟨hin, -, hcached⟩ := hcounts y hy
    have hpos : 0 < y.1.2 := by
      rw [hxy, nextKey]
      omega
    -- the sequence just made is what `token_states` holds
    have hinput := hafter.input
    rw [replayed, if_pos hpos, hnode.tokenStates, hxy, nextKey, Dict.get?_set_self, Option.getD_some, sliceTo,
      if_pos (Int.add_nonneg hin hcached)] at hinput
    rw [hinput, List.take_append_of_le_length, List.take_take, Nat.min_eq_left]
    · rw [hafter.expands.cachedTokens]
      omega
    · rw [List.length_take, hafter.expands.cachedTokens]
      rw [hafter.expands.cachedTokens] at hle
      omega
  · rw [hnone, Int.toNat_zero, List.take_zero, List.take_zero]

end Nodes

/-! ## The workload -/

section Workload
variable {nodeList : RawNodeList} {nodeDependency : NodeDependency} {queryId : Int} {workDir traceId : String}
  {rawNodes : List RawRecord} {keyed : List Keyed}

theorem buildWorkload_eq (draws : Nat → TokenId) (hread : nodeList.firstTrace = some (traceId, rawNodes))
    (hkeyed : keyRecords rawNodes = some keyed) :
    buildWorkload draws nodeList nodeDependency queryId workDir =
      ((keyed.insertionSort keyLe).foldlM (expandRecord draws (Dict.ofPairs keyed)
        (rawDependencies nodeDependency traceId)) ⟨0, Dict.empty, []⟩).map fun expansion =>
          ⟨queryId, workDir, rawDependencies nodeDependency traceId, expansion.nodes⟩ := by
  unfold buildWorkload
  rw [hread]
  dsimp only [Option.bind_eq_bind, Option.bind_some]
  rw [hkeyed, Option.map_eq_bind]
  rfl

theorem marksReuse_of_countsSuffice {draws : Nat → TokenId} {dependencies : RawDependencies} {nodes : List ExpandedNode}
    {e e' : Expansion} (hdistinct : (keyed.map Prod.fst).Nodup) (hcounts : ∀ x ∈ keyed, x.2.Counted)
    (h : ExpandsAll draws (Dict.ofPairs keyed) dependencies (keyed.insertionSort keyLe) e nodes e')
    (hsuffice : CountsSuffice dependencies keyed) :
    Workload.MarksReuse ⟨queryId, workDir, dependencies, nodes⟩ keyed where
  records := ⟨_, List.perm_insertionSort keyLe keyed, h.forall₂⟩
  lengths node hn := by
    obtain ⟨x, hx, _, _, hnode⟩ := h.exists_record hn
    exact hnode.lengths (hcounts x ((List.mem_insertionSort _).mp hx))
  flags node hn := by
    obtain ⟨_, _, _, _, hnode⟩ := h.exists_record hn
    exact hnode.flags
  marked _ hn := marked_of_countsSuffice hdistinct hcounts h hsuffice hn
  delivered _ hn _ hnext := delivered_of_countsSuffice hdistinct hcounts h hsuffice hn hnext

/-- The record of a parsed id is one of the list. -/
theorem mem_of_keyRecords (hkeyed : keyRecords rawNodes = some keyed) {x : Keyed} (hx : x ∈ keyed) : x.2 ∈ rawNodes := by
  induction rawNodes generalizing keyed with
  | nil =>
    cases hkeyed
    exact absurd hx List.not_mem_nil
  | cons record rest ih =>
    rw [keyRecords, List.mapM_cons] at hkeyed
    obtain ⟨first, hfirst, hkeyed⟩ := Option.bind_eq_some_iff.mp hkeyed
    obtain ⟨others, hothers, hkeyed⟩ := Option.bind_eq_some_iff.mp hkeyed
    cases hkeyed
    rcases List.mem_cons.mp hx with rfl | hx
    · obtain ⟨key, -, hkey⟩ := Option.map_eq_some_iff.mp hfirst
      rw [← hkey]
      exact List.mem_cons_self
    · exact List.mem_cons_of_mem _ (ih hothers hx)

variable (hread : nodeList.firstTrace = some (traceId, rawNodes)) (hkeyed : keyRecords rawNodes = some keyed)
  (hcounts : ∀ x ∈ keyed, x.2.Counted)
  (hmarks : ∀ (draws : Nat → TokenId) (w : Workload),
    buildWorkload draws nodeList nodeDependency queryId workDir = some w → w.MarksReuse keyed)
include hread hkeyed hcounts hmarks

/-- A successor that is not a later repeat gets fresh draws only, and a generator can always draw other
tokens than those of the call before it. -/
theorem later_of_marksReuse {a b : List Keyed} {x y : Keyed} (hx : x ∈ keyed) (hy : y ∈ keyed)
    (hsplit : keyed.insertionSort keyLe = a ++ x :: y :: b) (hxy : y.1 = nextKey x.1)
    (hdirect : (rawDependencies nodeDependency traceId).Direct x.1)
    (hle : y.2.numCachedTokens ≤ x.2.numInputTokens + x.2.numCachedTokens + x.2.numOutputTokens) (hneg : x.1.2 < 0) :
    y.2.numCachedTokens = 0 := by
  obtain ⟨hin, hout, hcached⟩ := hcounts y hy
  by_contra hne
  obtain ⟨e₁, hbefore⟩ := foldlM_expandRecord_returns (fun _ => 0) (Dict.ofPairs keyed) hdirect a ⟨0, Dict.empty, []⟩
  obtain ⟨e₂, hfirst⟩ := expandRecord_returns (fun _ => 0) (Dict.ofPairs keyed) hdirect e₁ x
  -- zeros up to the call, ones from its successor on
  let draws : Nat → TokenId := fun k => if k < e₂.drawn then 0 else 1
  have hzero : ∀ k < e₂.drawn, 0 = draws k := fun k hk => (if_pos hk).symm
  have hdrawn := drawn_expandRecord hfirst
  replace hbefore := foldlM_expandRecord_congr hbefore fun k hk => hzero k (by omega)
  replace hfirst := expandRecord_congr hfirst hzero
  obtain ⟨e₃, hsecond⟩ := expandRecord_returns draws (Dict.ofPairs keyed) hdirect e₂ y
  obtain ⟨e', hafter⟩ := foldlM_expandRecord_returns draws (Dict.ofPairs keyed) hdirect b e₃
  have hloop : (keyed.insertionSort keyLe).foldlM (expandRecord draws (Dict.ofPairs keyed)
      (rawDependencies nodeDependency traceId)) ⟨0, Dict.empty, []⟩ = some e' := by
    rw [hsplit, List.foldlM_append, hbefore]
    dsimp only [Option.bind_eq_bind, Option.bind_some]
    rw [List.foldlM_cons, hfirst]
    dsimp only [Option.bind_eq_bind, Option.bind_some]
    rw [List.foldlM_cons, hsecond]
    exact hafter
  have hw := hmarks draws ⟨queryId, workDir, rawDependencies nodeDependency traceId, e'.nodes⟩ (by
    rw [buildWorkload_eq draws hread hkeyed, hloop]
    rfl)
  obtain ⟨nx, hnx⟩ := expandRecord_expanded hfirst
  obtain ⟨ny, hny⟩ := expandRecord_expanded hsecond
  have hnodes : nx ∈ e'.nodes ∧ ny ∈ e'.nodes := by
    obtain ⟨rest, -, hrest⟩ := foldlM_expands hafter
    rw [hrest, hny.nodes, hnx.nodes]
    simp
  have hkey : ny.key = nextKey nx.key := by rw [hny.expands.key, hxy, hnx.expands.key]
  have hlength := hnx.length_sequence (hcounts x hx)
  have hfree : nx.freeCache = false := by
    apply (hw.marked nx hnodes.1).mpr
    refine ⟨ny, hnodes.2, hkey, by rwa [hnx.expands.key], ?_⟩
    rwa [hny.expands.cachedTokens, hlength]
  have hsame := congrArg List.head? (hw.delivered nx hnodes.1 ny hnodes.2 hfree hkey)
  have hpos : y.2.numCachedTokens.toNat ≠ 0 := by omega
  rw [List.head?_take, List.head?_take, hny.expands.cachedTokens, if_neg hpos, if_neg hpos] at hsame
  -- neither is replayed to
  have hx0 : ¬ 0 < x.1.2 := by omega
  have hy0 : ¬ 0 < y.1.2 := by
    rw [hxy, nextKey]
    omega
  have hone : ny.inputTokenIds.head? = some 1 := by
    rw [hny.input, replayed, if_neg hy0, List.nil_append, List.length_nil, Int.natCast_zero, Int.sub_zero, randomTokens,
      List.head?_map, List.head?_range, if_neg (by omega)]
    exact congrArg some (if_neg (by omega))
  have hall : ∀ t ∈ nx.sequence, t = 0 := by
    intro t ht
    rw [replayed, if_neg hx0, List.length_nil, Int.natCast_zero, Int.sub_zero] at hdrawn
    rcases List.mem_append.mp ht with ht | ht
    · rw [hnx.input, replayed, if_neg hx0, List.nil_append, List.length_nil, Int.natCast_zero, Int.sub_zero] at ht
      exact eq_of_mem_randomTokens (fun k hk => (hzero k (by omega)).symm) ht
    · obtain ⟨drawn, hd, houtput⟩ := hnx.output
      rw [houtput] at ht
      exact eq_of_mem_randomTokens (fun k hk => (hzero k (by omega)).symm) ht
  rw [hone] at hsame
  have := hall 1 (List.mem_of_head? hsame.symm)
  exact absurd this (by decide)

omit hcounts in
/-- The flag of a call whose sequence holds what its direct successor has cached is set. -/
theorem kept_of_marksReuse (hdistinct : (keyed.map Prod.fst).Nodup) (hcounts : ∀ x ∈ keyed, x.2.Counted) {x y : Keyed}
    (hx : x ∈ keyed) (hy : y ∈ keyed) (hxy : y.1 = nextKey x.1)
    (hdirect : (rawDependencies nodeDependency traceId).Direct x.1)
    (hle : y.2.numCachedTokens ≤ x.2.numInputTokens + x.2.numCachedTokens + x.2.numOutputTokens) :
    y.2.numCachedTokens ≤ x.2.numInputTokens + x.2.numOutputTokens := by
  obtain ⟨e', hloop⟩ := foldlM_expandRecord_returns (fun _ => 0) (Dict.ofPairs keyed) hdirect
    (keyed.insertionSort keyLe) ⟨0, Dict.empty, []⟩
  obtain ⟨nodes, h, hnodes⟩ := foldlM_expands hloop
  rw [List.nil_append] at hnodes
  have hw := hmarks (fun _ => 0) ⟨queryId, workDir, rawDependencies nodeDependency traceId, nodes⟩ (by
    rw [buildWorkload_eq _ hread hkeyed, hloop, ← hnodes]
    rfl)
  obtain ⟨node, hnode, _, _, hx'⟩ := h.exists_node ((List.mem_insertionSort _).mpr hx)
  obtain ⟨next, hnext, _, _, hy'⟩ := h.exists_node ((List.mem_insertionSort _).mpr hy)
  have hkey : next.key = nextKey node.key := by rw [hy'.expands.key, hxy, hx'.expands.key]
  have hfree : node.freeCache = false := by
    apply (hw.marked node hnode).mpr
    refine ⟨next, hnext, hkey, by rwa [hx'.expands.key], ?_⟩
    rwa [hy'.expands.cachedTokens, hx'.length_sequence (hcounts x hx)]
  obtain ⟨next', hnext', hkey', -, hle'⟩ := (freeCache_iff hdistinct h hnode).mp hfree
  have hsame : next' = next := node_unique hdistinct h hnext' hnext (hkey'.trans hkey.symm)
  rwa [hsame, hy'.expands.cachedTokens, hx'.expands.numInputTokens, hx'.expands.numOutputTokens] at hle'

end Workload

/-- Whatever is drawn, the workload of a trace with distinct ids marks reuse exactly when it is possible
and delivers it, if and only if the counts suffice. -/
theorem buildWorkload_marksReuse_iff (nodeList : RawNodeList) (nodeDependency : NodeDependency) (queryId : Int)
    (workDir traceId : String) (rawNodes : List RawRecord) (keyed : List Keyed)
    (hread : nodeList.firstTrace = some (traceId, rawNodes)) (hkeyed : keyRecords rawNodes = some keyed)
    (hdistinct : (keyed.map Prod.fst).Nodup) (hcounts : ∀ record ∈ rawNodes, record.Counted) :
    (∀ (draws : Nat → TokenId) (w : Workload),
      buildWorkload draws nodeList nodeDependency queryId workDir = some w → w.MarksReuse keyed) ↔
    CountsSuffice (rawDependencies nodeDependency traceId) keyed := by
  replace hcounts : ∀ x ∈ keyed, x.2.Counted := fun x hx => hcounts x.2 (mem_of_keyRecords hkeyed hx)
  constructor
  · intro hmarks x hx y hy hxy hdirect hle
    refine ⟨kept_of_marksReuse hread hkeyed hmarks hdistinct hcounts hx hy hxy hdirect hle, ?_⟩
    by_cases hlater : 0 ≤ x.1.2
    · exact Or.inl hlater
    · obtain ⟨a, b, hsplit⟩ := consecutive_of_nextKey (pairwise_ordered hdistinct)
        ((List.mem_insertionSort _).mpr hx) ((List.mem_insertionSort _).mpr hy) hxy
      exact Or.inr (later_of_marksReuse hread hkeyed hcounts hmarks hx hy hsplit hxy hdirect hle (by omega))
  · intro hsuffice draws w hw
    rw [buildWorkload_eq draws hread hkeyed] at hw
    obtain ⟨e', hloop, hw⟩ := Option.map_eq_some_iff.mp hw
    obtain ⟨nodes, h, hnodes⟩ := foldlM_expands hloop
    rw [List.nil_append] at hnodes
    rw [← hw, hnodes]
    exact marksReuse_of_countsSuffice hdistinct hcounts h hsuffice

/-- Two calls of an invocation with one input and one output token each. -/
def repeatedCall (cachedTokens nextCachedTokens : Int) : List RawRecord :=
  [⟨"0:0", "agent", some (.int 1), some (.int 1), some (.int cachedTokens)⟩,
   ⟨"0:1", "agent", some (.int 1), some (.int 1), some (.int nextCachedTokens)⟩]

/-- The calls under their ids. -/
def repeatedKeyed (cachedTokens nextCachedTokens : Int) : List Keyed :=
  [(0, 0), (0, 1)].zip (repeatedCall cachedTokens nextCachedTokens)

/-- The second call depends on the first. -/
def repeatedDependency : NodeDependency := Dict.ofPairs [("0:0", .parents []), ("0:1", .parents ["0:0"])]

theorem buildWorkload_marksReuse_iff_repeatedCall :
    (RawNodeList.records (repeatedCall 0 2)).firstTrace = some ("trace_0", repeatedCall 0 2) ∧
    keyRecords (repeatedCall 0 2) = some (repeatedKeyed 0 2) ∧ ((repeatedKeyed 0 2).map Prod.fst).Nodup ∧
    (∀ record ∈ repeatedCall 0 2, record.Counted) ∧
    ((∀ (draws : Nat → TokenId) (w : Workload),
      buildWorkload draws (.records (repeatedCall 0 2)) repeatedDependency 7 "work" = some w →
        w.MarksReuse (repeatedKeyed 0 2)) ↔
      CountsSuffice (rawDependencies repeatedDependency "trace_0") (repeatedKeyed 0 2)) := by
  have hread : (RawNodeList.records (repeatedCall 0 2)).firstTrace = some ("trace_0", repeatedCall 0 2) := rfl
  have hkeyed : keyRecords (repeatedCall 0 2) = some (repeatedKeyed 0 2) := by decide +kernel
  have hdistinct : ((repeatedKeyed 0 2).map Prod.fst).Nodup := by decide +kernel
  have hcounts : ∀ record ∈ repeatedCall 0 2, record.Counted := by decide +kernel
  exact ⟨hread, hkeyed, hdistinct, hcounts, buildWorkload_marksReuse_iff (.records (repeatedCall 0 2))
    repeatedDependency 7 "work" "trace_0" (repeatedCall 0 2) (repeatedKeyed 0 2) hread hkeyed hdistinct hcounts⟩

/-- The sequence of the first call has four tokens, with the two it had cached, and the second call has
three of them cached. The code compares these with the two new tokens and frees the cache. -/
theorem buildWorkload_frees_reusable :
    ¬ ∀ (draws : Nat → TokenId) (w : Workload),
      buildWorkload draws (.records (repeatedCall 2 3)) repeatedDependency 7 "work" = some w →
        w.MarksReuse (repeatedKeyed 2 3) := by
  intro hmarks
  have hread : (RawNodeList.records (repeatedCall 2 3)).firstTrace = some ("trace_0", repeatedCall 2 3) := rfl
  have hkeyed : keyRecords (repeatedCall 2 3) = some (repeatedKeyed 2 3) := by decide +kernel
  have hkept := kept_of_marksReuse hread hkeyed hmarks (by decide +kernel) (by decide +kernel)
    List.mem_cons_self (List.mem_cons_of_mem _ List.mem_cons_self) rfl (by decide +kernel) (by decide +kernel)
  exact absurd hkept (by decide +kernel)

end CoreFlow.Generate
