import CoreFlow.Controller.Indexes
import CoreFlow.Controller.Route

/-!
# The priority of routing

`route` is meant to take an exact GPU entry first, then the most hash hits, and among the instances
tied there one of the request's context range, with the least score each time. The last choice is made
among all fetched instances of the range. It stays inside the tie exactly when some tied instance of
the range is not preceded, by score and then by place, by one that is not tied.
-/

namespace CoreFlow

namespace InstanceManager

/-- Every instance is registered under its own id, and no id is indexed twice under an agent. -/
structure Keyed (m : InstanceManager) : Prop where
  named : ∀ id info, m.instances.get? id = some info → info.instanceId = id
  agentNodup : ∀ a, (m.agentIds a).Nodup

variable {m : InstanceManager} {id : InstanceId} {a : AgentId}

theorem init_keyed : Keyed init := by
  constructor
  · intro id info h
    cases h
  · intro a
    exact List.nodup_nil

theorem setStatus_keyed (h : Keyed m) (id : InstanceId) (status : InstanceStatus) : Keyed (m.setStatus id status) := by
  unfold setStatus
  cases hid : m.instances.get? id with
  | none => exact h
  | some info =>
    refine ⟨fun x info' hx => ?_, h.agentNodup⟩
    rw [Dict.get?_set] at hx
    split at hx
    · cases hx
      subst x
      exact h.named id info hid
    · exact h.named x info' hx

theorem remove_keyed (h : Keyed m) (id : InstanceId) : Keyed (m.remove id) := by
  unfold remove
  cases hid : m.instances.get? id with
  | none => exact h
  | some info =>
    refine ⟨fun x info' hx => ?_, fun a => nodup_discard (h.agentNodup a)⟩
    rw [Dict.get?_erase] at hx
    split at hx
    · cases hx
    · exact h.named x info' hx

theorem getOrCreateSlot_instances (m : InstanceManager) (a : AgentId) (r : ContextRange) :
    (m.getOrCreateSlot a r).2.instances = m.instances ∧
      (m.getOrCreateSlot a r).2.agentInstances = m.agentInstances := by
  unfold getOrCreateSlot
  split <;> exact ⟨rfl, rfl⟩

theorem indexContext_instances (m : InstanceManager) (id : InstanceId) (a : AgentId) (range : Option ContextRange) :
    (m.indexContext id a range).instances = m.instances ∧
      (m.indexContext id a range).agentInstances = m.agentInstances := by
  cases range with
  | none => exact ⟨rfl, rfl⟩
  | some r => exact getOrCreateSlot_instances m a r

theorem register_keyed (h : Keyed m) (id : InstanceId) (a : AgentId) (host : String) (port : Option Int)
    (range : Option ContextRange) (numGpus : Int) : Keyed (m.register id a host port range numGpus) := by
  unfold register
  constructor
  · intro x info' hx
    rw [(indexContext_instances _ id a range).1, Dict.get?_set] at hx
    split at hx
    · cases hx
      assumption
    · exact h.named x info' hx
  · intro b
    unfold agentIds
    rw [(indexContext_instances _ id a range).2, Dict.get?_set]
    split
    · exact (h.agentNodup a).insert
    · exact h.agentNodup b

theorem run_keyed (h : Keyed m) (ops : List RegistryOp) : Keyed (m.run ops) := by
  induction ops generalizing m with
  | nil => exact h
  | cons op ops ih =>
    cases op with
    | register id a host port range numGpus => exact ih (register_keyed h id a host port range numGpus)
    | setReady id => exact ih (setStatus_keyed h id .ready)
    | markUnavailable id => exact ih (setStatus_keyed h id .unavailable)
    | remove id => exact ih (remove_keyed h id)

/-- The instances behind some ids, with these ids. -/
theorem Keyed.map_instanceId (h : Keyed m) {ids : List InstanceId} {infos : List InstanceInfo}
    (hr : ids.mapM (fun i => m.instances.get? i) = some infos) : infos.map (·.instanceId) = ids := by
  induction ids generalizing infos with
  | nil =>
    cases hr
    rfl
  | cons id ids ih =>
    rw [List.mapM_cons, Option.bind_eq_bind, Option.bind_eq_some_iff] at hr
    obtain ⟨info, hid, hr⟩ := hr
    obtain ⟨rest, hrest, hr⟩ := Option.bind_eq_some_iff.mp hr
    cases hr
    rw [List.map_cons, ih hrest, h.named id info hid]

/-- The ready instances of an agent have different ids. -/
theorem Keyed.getInstancesForAgent_nodup (h : Keyed m) {infos : List InstanceInfo}
    (hr : m.getInstancesForAgent a = some infos) : (infos.map (·.instanceId)).Nodup := by
  obtain ⟨all, hall, hr⟩ := Option.map_eq_some_iff.mp hr
  subst hr
  have sub : ((all.filter (·.isReady)).map (·.instanceId)).Sublist (all.map (·.instanceId)) :=
    List.filter_sublist.map _
  rw [h.map_instanceId hall] at sub
  exact sub.nodup (h.agentNodup a)

end InstanceManager

/-! ## The first item of the least score -/

/-- What stands before the first minimum is greater, what stands after it no smaller. -/
theorem minOn?_split {α : Type} {f : α → Int} {l : List α} {best : α} (h : l.minOn? f = some best) :
    ∃ pre post, l = pre ++ best :: post ∧ (∀ item ∈ pre, f best < f item) ∧ ∀ item ∈ post, f best ≤ f item := by
  induction l generalizing best with
  | nil => cases h
  | cons x xs ih =>
    rw [List.minOn?_cons] at h
    cases hxs : xs.minOn? f with
    | none =>
      rw [hxs] at h
      cases h
      have hnil : xs = [] := by
        by_contra hne
        rw [List.minOn?_eq_some_minOn hne] at hxs
        cases hxs
      subst hnil
      exact ⟨[], [], rfl, fun _ hin => (List.not_mem_nil hin).elim, fun _ hin => (List.not_mem_nil hin).elim⟩
    | some c =>
      rw [hxs] at h
      obtain ⟨pre, post, rfl, before, after⟩ := ih hxs
      by_cases hle : f x ≤ f c
      · obtain rfl : x = best := by simpa [minOn, hle] using h
        refine ⟨[], _, rfl, fun _ hin => (List.not_mem_nil hin).elim, fun item hin => ?_⟩
        rcases List.mem_append.mp hin with hin | hin
        · have := before item hin
          omega
        · rcases List.mem_cons.mp hin with rfl | hin
          · exact hle
          · have := after item hin
            omega
      · obtain rfl : c = best := by simpa [minOn, hle] using h
        refine ⟨x :: pre, post, rfl, fun item hin => ?_, after⟩
        rcases List.mem_cons.mp hin with rfl | hin
        · omega
        · exact before item hin

/-- The first minimum is smaller than what stands before it. -/
theorem minOn?_lt {α : Type} {f : α → Int} {pre post : List α} {item best : α}
    (h : (pre ++ item :: post).minOn? f = some best) (hpre : best ∉ pre) (hne : item ≠ best) : f best < f item := by
  obtain ⟨pre', post', hsplit, before, -⟩ := minOn?_split h
  rcases List.append_eq_append_iff.mp hsplit with ⟨skipped, rfl, hs⟩ | ⟨skipped, rfl, hs⟩
  · cases skipped with
    | nil => exact absurd (List.cons.inj hs).1 hne
    | cons y ys =>
      obtain rfl := (List.cons.inj hs).1
      exact before item (List.mem_append_right _ List.mem_cons_self)
  · cases skipped with
    | nil => exact absurd (List.cons.inj hs).1.symm hne
    | cons y ys =>
      obtain rfl := (List.cons.inj hs).1
      exact absurd (List.mem_append_right _ List.mem_cons_self) hpre

section
variable {l l' : List Fetched} {best item : Fetched} {P : Fetched → Prop}

theorem leastScore_eq_none : leastScore l = none ↔ l = [] := by
  cases l with
  | nil => exact iff_of_true rfl rfl
  | cons x xs => exact iff_of_false (fun h => by cases h) (List.cons_ne_nil x xs)

theorem leastScore_mem (h : leastScore l = some best) : best ∈ l := List.minOn?_mem h

theorem leastScore_le (h : leastScore l = some best) (hin : item ∈ l) : best.2.score ≤ item.2.score := by
  obtain ⟨pre, post, rfl, before, after⟩ := minOn?_split (f := fun item : Fetched => item.2.score) h
  rcases List.mem_append.mp hin with hin | hin
  · exact (before item hin).le
  · rcases List.mem_cons.mp hin with rfl | hin
    · exact le_refl _
    · exact after item hin

end

/-- `best` has the least score among the items that satisfy `P`. -/
def LeastAmong (l : List Fetched) (P : Fetched → Prop) (best : Fetched) : Prop :=
  best ∈ l ∧ P best ∧ ∀ item ∈ l, P item → best.2.score ≤ item.2.score

theorem leastScore_leastAmong {l l' : List Fetched} {P : Fetched → Prop} {best : Fetched}
    (h : leastScore l' = some best) (hl : ∀ item, item ∈ l' ↔ item ∈ l ∧ P item) : LeastAmong l P best := by
  obtain ⟨hin, hP⟩ := (hl best).mp (leastScore_mem h)
  exact ⟨hin, hP, fun item hi hp => leastScore_le h ((hl item).mpr ⟨hi, hp⟩)⟩

/-- The answer is an item of the least score among those that satisfy the first property that some item
satisfies, and nothing when there is none. -/
def Prefers (l : List Fetched) : List (Fetched → Prop) → Option InstanceId → Prop
  | [], answer => answer = none
  | P :: Ps, answer =>
    (∃ best, LeastAmong l P best ∧ answer = some best.1.instanceId) ∨ (∀ item ∈ l, ¬ P item) ∧ Prefers l Ps answer

/-- The item has as many hits as any. -/
def MostHits (sha : Bool → Option PrefixHash → List TokenId → PrefixHash) (tokenIds : List TokenId)
    (l : List Fetched) (item : Fetched) : Prop :=
  ∃ h, item.2.hits sha tokenIds = some h ∧ ∀ other ∈ l, ∀ h', other.2.hits sha tokenIds = some h' → h' ≤ h

/-- No item of the range that is not tied comes, by score and then by place, before every tied one. -/
def TiedFirst (l : List Fetched) (inRange tied : Fetched → Prop) : Prop :=
  ∃ pre item post, l = pre ++ item :: post ∧ inRange item ∧ tied item ∧
    (∀ other ∈ pre, inRange other → ¬ tied other → item.2.score < other.2.score) ∧
    ∀ other ∈ post, inRange other → ¬ tied other → item.2.score ≤ other.2.score

/-- Among the items of a range, the first of the least score decides. -/
theorem tiedFirst_iff {l : List Fetched} {inRange : Fetched → Prop} {best : Fetched} (tied : Fetched → Prop) (p : Fetched → Bool)
    (hp : ∀ item, p item = true ↔ inRange item) (h : leastScore (l.filter p) = some best) :
    TiedFirst l inRange tied ↔ tied best := by
  have hbest := List.mem_filter.mp (leastScore_mem h)
  constructor
  · rintro ⟨pre, item, post, rfl, hitem, htied, before, after⟩
    by_contra hnot
    have hne : item ≠ best := by
      rintro rfl
      exact hnot htied
    have hle := leastScore_le h (List.mem_filter.mpr ⟨List.mem_append_right pre List.mem_cons_self, (hp item).mpr hitem⟩)
    rcases List.mem_append.mp hbest.1 with hin | hin
    · have := before best hin ((hp best).mp hbest.2) hnot
      omega
    · by_cases hpre : best ∈ pre
      · have := before best hpre ((hp best).mp hbest.2) hnot
        omega
      · rcases List.mem_cons.mp hin with rfl | hin
        · exact hne rfl
        · have hscore := after best hin ((hp best).mp hbest.2) hnot
          rw [List.filter_append, List.filter_cons_of_pos ((hp item).mpr hitem)] at h
          have := minOn?_lt h (fun hin => hpre (List.mem_filter.mp hin).1) hne
          omega
  · intro htied
    obtain ⟨pre, post, hsplit, before, after⟩ := minOn?_split h
    obtain ⟨l₁, l₂, rfl, hpre, hrest⟩ := List.filter_eq_append_iff.mp hsplit
    obtain ⟨skipped, l₃, rfl, hskip, -, hpost⟩ := List.filter_eq_cons_iff.mp hrest
    refine ⟨l₁ ++ skipped, best, l₃, by rw [List.append_assoc], (hp best).mp hbest.2, htied,
      fun other hin ho _ => ?_, fun other hin ho _ => ?_⟩
    · rcases List.mem_append.mp hin with hin | hin
      · exact before other (hpre ▸ List.mem_filter.mpr ⟨hin, (hp other).mpr ho⟩)
      · exact absurd ((hp other).mpr ho) (hskip other hin)
    · exact after other (hpost ▸ List.mem_filter.mpr ⟨hin, (hp other).mpr ho⟩)

/-- The item's instance is a ready one of the context range of the request. -/
def InRange (im : InstanceManager) (agentId : AgentId) (numInputTokens : Int) (item : Fetched) : Prop :=
  ∃ slot infos, im.findContextSlot agentId numInputTokens = some (some slot) ∧
    im.getInstancesForContext agentId slot = some infos ∧ ∃ info ∈ infos, info.instanceId = item.1.instanceId

section
variable {sha : Bool → Option PrefixHash → List TokenId → PrefixHash} {tokenIds : List TokenId}
  {l : List Fetched} {im : InstanceManager} {agentId : AgentId} {queryId invocationId : Int}
  {inputTokens : InputTokens} {numInputTokens : Int} {item : Fetched}

theorem inRange_iff {ids : List InstanceId} (h : contextIdsFor im agentId numInputTokens = some ids) :
    InRange im agentId numInputTokens item ↔ item.1.instanceId ∈ ids := by
  unfold contextIdsFor at h
  unfold InRange
  cases hs : im.findContextSlot agentId numInputTokens with
  | none =>
    rw [hs] at h
    cases h
  | some slot =>
    rw [hs] at h
    cases slot with
    | none =>
      cases h
      simp
    | some slot =>
      obtain ⟨infos, hi, rfl⟩ := Option.map_eq_some_iff.mp h
      simp [hi]

theorem mem_scored {h : Nat} : (h, item) ∈ scored sha tokenIds l ↔ item ∈ l ∧ item.2.hits sha tokenIds = some h := by
  rw [scored, List.mem_filterMap]
  constructor
  · rintro ⟨x, hx, he⟩
    obtain ⟨h', hh, he⟩ := Option.map_eq_some_iff.mp he
    cases he
    exact ⟨hx, hh⟩
  · rintro ⟨hin, hh⟩
    exact ⟨item, hin, by rw [hh]; rfl⟩

theorem mem_tied : item ∈ tied (scored sha tokenIds l) ↔
    item ∈ l ∧ MostHits sha tokenIds l item := by
  unfold tied
  cases hm : ((scored sha tokenIds l).map (·.1)).max? with
  | none =>
    have hnil : scored sha tokenIds l = [] := List.map_eq_nil_iff.mp (List.max?_eq_none_iff.mp hm)
    refine ⟨fun hin => (List.not_mem_nil hin).elim, ?_⟩
    rintro ⟨hin, h, hh, -⟩
    have hs := mem_scored.mpr ⟨hin, hh⟩
    rw [hnil] at hs
    exact (List.not_mem_nil hs).elim
  | some m =>
    obtain ⟨hmem, hmax⟩ := List.max?_eq_some_iff.mp hm
    simp only [List.mem_map, List.mem_filter]
    constructor
    · rintro ⟨⟨h, x⟩, ⟨hs, he⟩, rfl⟩
      obtain ⟨hin, hh⟩ := mem_scored.mp hs
      obtain rfl : h = m := eq_of_beq he
      exact ⟨hin, h, hh, fun other ho h' hh' => hmax h' (List.mem_map.mpr ⟨_, mem_scored.mpr ⟨ho, hh'⟩, rfl⟩)⟩
    · rintro ⟨hin, h, hh, most⟩
      have hs := mem_scored.mpr ⟨hin, hh⟩
      obtain ⟨⟨m', x⟩, hx, rfl⟩ := List.mem_map.mp hmem
      obtain ⟨hxl, hxm⟩ := mem_scored.mp hx
      have hle := hmax h (List.mem_map.mpr ⟨_, hs, rfl⟩)
      have hge := most x hxl m' hxm
      obtain rfl : h = m' := le_antisymm hle hge
      exact ⟨(h, item), ⟨hs, beq_self_eq_true h⟩, rfl⟩

theorem tied_sublist : (tied (scored sha tokenIds l)).Sublist l := by
  have all : ((scored sha tokenIds l).map (·.2)).Sublist l := by
    unfold scored
    induction l with
    | nil => exact List.Sublist.slnil
    | cons x l ih =>
      rw [List.filterMap_cons]
      cases x.2.hits sha tokenIds with
      | none => exact ih.cons x
      | some h => exact ih.cons_cons x
  unfold tied
  split
  · exact List.nil_sublist l
  · exact (List.filter_sublist.map _).trans all

theorem not_inRange (h : contextIdsFor im agentId numInputTokens = none) :
    ¬ InRange im agentId numInputTokens item := by
  rintro ⟨slot, infos, hs, hi, -⟩
  simp [contextIdsFor, hs, hi] at h

variable (sha l im agentId queryId invocationId tokenIds numInputTokens) in
/-- An exact entry, then the tied instances of the range, then the tied instances. -/
def RoutePriority (answer : Option InstanceId) : Prop :=
  Prefers l [fun item => item.2.hasEntry queryId invocationId = true,
    fun item => MostHits sha tokenIds l item ∧ InRange im agentId numInputTokens item,
    MostHits sha tokenIds l] answer

/-- A tie is broken by the priority exactly when no untied instance of the range comes first. -/
theorem breakTie_priority_iff {ties : List Fetched} (hties : ∀ item, item ∈ ties ↔ item ∈ l ∧ MostHits sha tokenIds l item)
    (nonempty : ties ≠ []) (inexact : ∀ item ∈ l, ¬ item.2.hasEntry queryId invocationId = true)
    (unique : ∀ x ∈ l, ∀ y ∈ l, x.1.instanceId = y.1.instanceId → x = y) :
    (∀ answer, breakTie im agentId l ties numInputTokens = some answer →
      RoutePriority sha tokenIds l im agentId queryId invocationId numInputTokens answer) ↔
    (∀ item ∈ l, ¬ InRange im agentId numInputTokens item) ∨
    TiedFirst l (InRange im agentId numInputTokens) (MostHits sha tokenIds l) := by
  unfold breakTie
  cases hc : contextIdsFor im agentId numInputTokens with
  | none => exact ⟨fun _ => .inl fun item _ => not_inRange hc, fun _ answer ha => by cases ha⟩
  | some ids =>
    dsimp only
    have hrange (item : Fetched) : decide (item.1.instanceId ∈ ids) = true ↔ InRange im agentId numInputTokens item :=
      decide_eq_true_iff.trans (inRange_iff hc).symm
    cases hb : leastScore (l.filter fun item => decide (item.1.instanceId ∈ ids)) with
    | none =>
      have outside : ∀ item ∈ l, ¬ InRange im agentId numInputTokens item := fun item hin hr =>
        List.not_mem_nil (leastScore_eq_none.mp hb ▸ List.mem_filter.mpr ⟨hin, (hrange item).mpr hr⟩)
      refine ⟨fun _ => .inl outside, fun _ answer ha => .inr ⟨inexact, .inr ⟨fun item hin h => outside item hin h.2, ?_⟩⟩⟩
      cases hl : leastScore ties with
      | none => exact absurd (leastScore_eq_none.mp hl) nonempty
      | some best =>
        rw [hl] at ha
        exact .inl ⟨best, leastScore_leastAmong hl hties, (Option.some.inj ha).symm⟩
    | some best =>
      have least : LeastAmong l (InRange im agentId numInputTokens) best :=
        leastScore_leastAmong hb fun item => List.mem_filter.trans (and_congr_right fun _ => hrange item)
      have decides := tiedFirst_iff (MostHits sha tokenIds l) _ hrange hb
      constructor
      · intro follows
        refine .inr (decides.mpr ?_)
        -- the answer names one instance, so the preferred item is the chosen one
        have same {other : Fetched} (hin : other ∈ l) (ha : some best.1.instanceId = some other.1.instanceId) :
            other = best := unique other hin best least.1 (Option.some.inj ha).symm
        rcases follows _ rfl with ⟨other, h, ha⟩ | ⟨-, ⟨other, h, ha⟩ | ⟨-, ⟨other, h, ha⟩ | ⟨-, ha⟩⟩⟩
        · exact absurd h.2.1 (inexact other h.1)
        · exact same h.1 ha ▸ h.2.1.1
        · exact same h.1 ha ▸ h.2.1
        · cases ha
      · rintro (h | h) answer ha
        · exact absurd least.2.1 (h best least.1)
        · exact .inr ⟨inexact, .inl ⟨best, ⟨least.1, ⟨decides.mp h, least.2.1⟩, fun item hin hi =>
            least.2.2 item hin hi.2⟩, (Option.some.inj ha).symm⟩⟩

variable (sha l im agentId queryId invocationId tokenIds numInputTokens) in
/-- An exact entry, one tied instance, no instance of the range, or a tied one that comes first there. -/
def TieBreakAgrees : Prop :=
  (∃ item ∈ l, item.2.hasEntry queryId invocationId = true) ∨
  (∀ x ∈ l, ∀ y ∈ l, MostHits sha tokenIds l x → MostHits sha tokenIds l y → x = y) ∨
  (∀ item ∈ l, ¬ InRange im agentId numInputTokens item) ∨
  TiedFirst l (InRange im agentId numInputTokens) (MostHits sha tokenIds l)

theorem choose_priority_iff (nodup : l.Nodup) (unique : ∀ x ∈ l, ∀ y ∈ l, x.1.instanceId = y.1.instanceId → x = y) :
    (∀ answer, choose sha im agentId l queryId invocationId inputTokens numInputTokens = some answer →
      RoutePriority sha (normalizeTokenIds inputTokens) l im agentId queryId invocationId numInputTokens answer) ↔
    TieBreakAgrees sha (normalizeTokenIds inputTokens) l im agentId queryId invocationId numInputTokens := by
  unfold choose
  cases he : leastScore (l.filter fun item => item.2.hasEntry queryId invocationId) with
  | some best =>
    have least : LeastAmong l (fun item => item.2.hasEntry queryId invocationId = true) best :=
      leastScore_leastAmong he fun item => List.mem_filter
    refine ⟨fun _ => .inl ⟨best, least.1, least.2.1⟩, fun _ answer ha => .inl ⟨best, least, ?_⟩⟩
    exact (Option.some.inj ha).symm
  | none =>
    have inexact : ∀ item ∈ l, ¬ item.2.hasEntry queryId invocationId = true := fun item hin hentry =>
      List.not_mem_nil (leastScore_eq_none.mp he ▸ List.mem_filter.mpr ⟨hin, hentry⟩)
    have hties (item : Fetched) : item ∈ tied (scored sha (normalizeTokenIds inputTokens) l) ↔ item ∈ l ∧
        MostHits sha (normalizeTokenIds inputTokens) l item := mem_tied
    have hnodup : (tied (scored sha (normalizeTokenIds inputTokens) l)).Nodup := tied_sublist.nodup nodup
    generalize tied (scored sha (normalizeTokenIds inputTokens) l) = ties at hties hnodup
    rcases ties with _ | ⟨first, _ | ⟨second, rest⟩⟩
    · have none_tied : ∀ item ∈ l, ¬ MostHits sha (normalizeTokenIds inputTokens) l item := fun item hin most =>
        List.not_mem_nil ((hties item).mpr ⟨hin, most⟩)
      refine ⟨fun _ => .inr (.inl fun x hx _ _ most => absurd most (none_tied x hx)), fun _ answer ha => ?_⟩
      exact .inr ⟨inexact, .inr ⟨fun item hin h => none_tied item hin h.1,
        .inr ⟨none_tied, (Option.some.inj ha).symm⟩⟩⟩
    · have hfirst := (hties first).mp List.mem_cons_self
      have only : ∀ item ∈ l, MostHits sha (normalizeTokenIds inputTokens) l item → item = first :=
        fun item hin most => List.mem_singleton.mp ((hties item).mpr ⟨hin, most⟩)
      refine ⟨fun _ => .inr (.inl fun x hx y hy hmx hmy => (only x hx hmx).trans (only y hy hmy).symm),
        fun _ answer ha => .inr ⟨inexact, ?_⟩⟩
      have ha := (Option.some.inj ha).symm
      by_cases hr : InRange im agentId numInputTokens first
      · refine .inl ⟨first, ⟨hfirst.1, ⟨hfirst.2, hr⟩, fun item hin h => ?_⟩, ha⟩
        rw [only item hin h.1]
      · refine .inr ⟨fun item hin h => hr (only item hin h.1 ▸ h.2), .inl ⟨first, ⟨hfirst.1, hfirst.2, fun item hin h => ?_⟩, ha⟩⟩
        rw [only item hin h]
    · have hfirst := (hties first).mp List.mem_cons_self
      have hsecond := (hties second).mp (List.mem_cons_of_mem _ List.mem_cons_self)
      refine (breakTie_priority_iff hties (List.cons_ne_nil _ _) inexact unique).trans
        ⟨fun h => .inr (.inr h), ?_⟩
      rintro (⟨item, hin, hentry⟩ | same | h)
      · exact absurd hentry (inexact item hin)
      · rw [same first hfirst.1 second hsecond.1 hfirst.2 hsecond.2] at hnodup
        exact absurd List.mem_cons_self (List.nodup_cons.mp hnodup).1
      · exact h

/-- Without an exact entry the answer has as many hits as any. -/
theorem RoutePriority.mostHits {id : InstanceId}
    (h : RoutePriority sha tokenIds l im agentId queryId invocationId numInputTokens (some id)) :
    ∃ item ∈ l, item.1.instanceId = id ∧
      (item.2.hasEntry queryId invocationId = true ∨ MostHits sha tokenIds l item) := by
  rcases h with ⟨best, h, ha⟩ | ⟨-, ⟨best, h, ha⟩ | ⟨-, ⟨best, h, ha⟩ | ⟨-, ha⟩⟩⟩
  · exact ⟨best, h.1, (Option.some.inj ha).symm, .inl h.2.1⟩
  · exact ⟨best, h.1, (Option.some.inj ha).symm, .inr h.2.1.1⟩
  · exact ⟨best, h.1, (Option.some.inj ha).symm, .inr h.2.1⟩
  · cases ha

end

/-- The fetched items of different instances have different ids. -/
theorem cacheInfos_unique (fetch : InstanceInfo → Option CacheState) {infos : List InstanceInfo}
    (h : (infos.map (·.instanceId)).Nodup) : (AgentScheduler.cacheInfos fetch infos).Nodup ∧
      ∀ x ∈ AgentScheduler.cacheInfos fetch infos, ∀ y ∈ AgentScheduler.cacheInfos fetch infos,
        x.1.instanceId = y.1.instanceId → x = y := by
  have sub : ((AgentScheduler.cacheInfos fetch infos).map (·.1.instanceId)).Sublist (infos.map (·.instanceId)) := by
    unfold AgentScheduler.cacheInfos
    clear h
    induction infos with
    | nil => exact List.Sublist.slnil
    | cons info infos ih =>
      rw [List.filterMap_cons]
      cases fetch info with
      | none => exact ih.cons _
      | some state => exact ih.cons_cons _
  have hids := sub.nodup h
  exact ⟨hids.of_map _, List.inj_on_of_nodup_map hids⟩

/-- What `route` returns follows the stated priority exactly when its tie-break agrees with it, whatever
is registered and whatever changes in the registry while the states are fetched. -/
theorem route_priority_iff (sha : Bool → Option PrefixHash → List TokenId → PrefixHash)
    (ops ops' : List InstanceManager.RegistryOp) (s : AgentScheduler) (fetch : InstanceInfo → Option CacheState)
    (queryId invocationId : Int) (inputTokens : InputTokens) (numInputTokens : Int) (infos : List InstanceInfo)
    (ready : (InstanceManager.init.run ops).getInstancesForAgent s.agentId = some infos) :
    (∀ answer, (s.route sha (InstanceManager.init.run ops) ((InstanceManager.init.run ops).run ops') fetch queryId
        invocationId inputTokens numInputTokens).1 = some answer →
      RoutePriority sha (normalizeTokenIds inputTokens) (AgentScheduler.cacheInfos fetch infos)
        ((InstanceManager.init.run ops).run ops') s.agentId queryId invocationId numInputTokens answer) ↔
    TieBreakAgrees sha (normalizeTokenIds inputTokens) (AgentScheduler.cacheInfos fetch infos)
      ((InstanceManager.init.run ops).run ops') s.agentId queryId invocationId numInputTokens := by
  have keyed := InstanceManager.run_keyed InstanceManager.init_keyed ops
  obtain ⟨nodup, unique⟩ := cacheInfos_unique fetch (keyed.getInstancesForAgent_nodup ready)
  unfold AgentScheduler.route
  rw [ready]
  exact choose_priority_iff nodup unique

/-- Three instances of one range, all ready. -/
def threeOps : List InstanceManager.RegistryOp :=
  ["x", "y", "z"].flatMap fun id => [.register id "a" "10.0.0.1" none (some (0, 8)) 1, .setReady id]

def threeInfo (id : InstanceId) (port : Int) : InstanceInfo := ⟨id, "a", "10.0.0.1", port, some (0, 8), 1, .ready⟩

def threeInfos : List InstanceInfo := [threeInfo "z" 8002, threeInfo "y" 8001, threeInfo "x" 8000]

def emptyState (score : Int) : CacheState := ⟨some 1, some noneHash, some score, none, none⟩

def holdingState (score : Int) : CacheState := ⟨some 1, some noneHash, some score, none, some ⟨some [3], some []⟩⟩

/-- `x` and `y` hold the block of the request `[3]`, `z` does not. -/
def threeFetch (scoreOfZ : Int) (info : InstanceInfo) : Option CacheState :=
  some (if info.instanceId = "z" then emptyState scoreOfZ else holdingState 2)

def sumHash (_ : Bool) (_ : Option PrefixHash) (tokenIds : List TokenId) : PrefixHash := tokenIds.foldl (· + ·) 0

def threeScheduler : AgentScheduler := ⟨"a", Dict.empty⟩

theorem route_priority_iff_three : RoutePriority sumHash [3] (AgentScheduler.cacheInfos (threeFetch 3) threeInfos)
    (InstanceManager.init.run threeOps) "a" 0 0 1 (some "y") := by
  have routed : (threeScheduler.route sumHash (InstanceManager.init.run threeOps) (InstanceManager.init.run threeOps)
      (threeFetch 3) 0 0 (.tokens [3]) 1).1 = some (some "y") := by
    decide +kernel
  have inRange : InRange (InstanceManager.init.run threeOps) "a" 1 (threeInfo "y" 8001, holdingState 2) :=
    ⟨0, [threeInfo "x" 8000, threeInfo "y" 8001, threeInfo "z" 8002], by decide +kernel, by decide +kernel, by decide⟩
  have fewer : ∀ other ∈ AgentScheduler.cacheInfos (threeFetch 3) threeInfos,
      ∀ h' ∈ other.2.hits sumHash [3], h' ≤ 1 := by
    decide +kernel
  refine (route_priority_iff sumHash threeOps [] threeScheduler (threeFetch 3) 0 0 (.tokens [3]) 1 threeInfos
    (by decide +kernel)).mpr (.inr (.inr (.inr ⟨[(threeInfo "z" 8002, emptyState 3)], (threeInfo "y" 8001, holdingState 2),
      [(threeInfo "x" 8000, holdingState 2)], rfl, inRange, ⟨1, by decide +kernel, fewer⟩, ?_, ?_⟩))) _ routed
  · intro other hin _ _
    rw [List.mem_singleton.mp hin]
    decide
  · intro other hin _ _
    rw [List.mem_singleton.mp hin]

/-- With a lower score `z` is picked, and the hit of `x` and `y` is thrown away. -/
theorem route_untied : (threeScheduler.route sumHash (InstanceManager.init.run threeOps) (InstanceManager.init.run threeOps)
      (threeFetch 1) 0 0 (.tokens [3]) 1).1 = some (some "z") ∧
    ¬ RoutePriority sumHash [3] (AgentScheduler.cacheInfos (threeFetch 1) threeInfos)
      (InstanceManager.init.run threeOps) "a" 0 0 1 (some "z") := by
  refine ⟨by decide +kernel, fun h => ?_⟩
  obtain ⟨item, hin, hid, hentry | ⟨hits, hh, most⟩⟩ := h.mostHits
  · have inexact : ∀ item ∈ AgentScheduler.cacheInfos (threeFetch 1) threeInfos, item.2.hasEntry 0 0 = false := by
      decide +kernel
    rw [inexact item hin] at hentry
    cases hentry
  · have missed : ∀ item ∈ AgentScheduler.cacheInfos (threeFetch 1) threeInfos, item.1.instanceId = "z" →
        item.2.hits sumHash [3] = some 0 := by
      decide +kernel
    rw [missed item hin hid] at hh
    cases hh
    have := most (threeInfo "x" 8000, holdingState 2) (by decide) 1 (by decide +kernel)
    omega

end CoreFlow
