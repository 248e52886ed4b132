import Mathlib.Algebra.BigOperators.Group.List.Basic
import Mathlib.Algebra.Order.Monoid.WithTop
import Mathlib.Data.List.MinMax

/-!
# Cheapest walks by their number of edges

The cheapest walks of `k + 1` edges extend cheapest walks of `k` edges. `layer k v` is the cost of
those that end at `v`, and `route k v` is the one that keeps, at every end, the first edge in the order
of the graph that attains the cost.
-/

namespace CoreFlow

/-- A graph whose edges come in an order. -/
structure Graph (V ε W : Type) where
  edges : List ε
  src : ε → V
  dst : ε → V
  cost : ε → W

namespace Graph
variable {V ε W : Type} (g : Graph V ε W)

/-- The edges that end at a vertex. -/
def into [DecidableEq V] (v : V) : List ε := g.edges.filter fun e => g.dst e = v

/-- A list of edges that leads from one vertex to another. -/
def Walk : V → List ε → V → Prop
  | a, [], b => a = b
  | a, e :: p, b => e ∈ g.edges ∧ g.src e = a ∧ Walk (g.dst e) p b

variable {g} {a b : V} {p q : List ε} {e : ε}

@[simp] theorem mem_into [DecidableEq V] : e ∈ g.into b ↔ e ∈ g.edges ∧ g.dst e = b := by simp [into]

theorem walk_append : g.Walk a (p ++ q) b ↔ ∃ c, g.Walk a p c ∧ g.Walk c q b := by
  induction p generalizing a with
  | nil => simp [Walk]
  | cons e p ih =>
    simp only [List.cons_append, Walk, ih]
    grind

theorem walk_concat [DecidableEq V] : g.Walk a (p ++ [e]) b ↔ g.Walk a p (g.src e) ∧ e ∈ g.into b := by
  rw [walk_append]
  simp only [Walk, mem_into]
  grind

theorem Walk.mem (h : g.Walk a p b) (he : e ∈ p) : e ∈ g.edges := by
  induction p generalizing a with
  | nil => cases he
  | cons e' p ih =>
    rcases List.mem_cons.mp he with rfl | he
    · exact h.1
    · exact ih h.2.2 he

variable [AddCommMonoid W]

def weight (g : Graph V ε W) (p : List ε) : W := (p.map g.cost).sum

theorem weight_concat : g.weight (p ++ [e]) = g.weight p + g.cost e := by simp [weight]

/-! ## The choice among edges -/

section
variable [LinearOrder W] (g)

/-- The cost of going through an edge, where `row` gives the costs of reaching its source. -/
def through (row : V → WithTop W) (e : ε) : WithTop W := row (g.src e) + g.cost e

/-- The first of the cheapest edges, if one can be gone through at all. -/
def choice (row : V → WithTop W) (es : List ε) : Option ε :=
  (es.argmin (g.through row)).filter fun e => g.through row e ≠ ⊤

variable {g} {row : V → WithTop W} {es : List ε}

theorem choice_eq_none : g.choice row es = none ↔ ∀ e ∈ es, g.through row e = ⊤ := by
  cases h : es.argmin (g.through row) with
  | none =>
    rw [List.argmin_eq_none] at h
    simp [choice, h]
  | some m =>
    have hm : m ∈ es := List.argmin_mem h
    have hle : ∀ e ∈ es, g.through row m ≤ g.through row e := fun e he => List.le_of_mem_argmin he h
    by_cases htop : g.through row m = ⊤
    · have hall : ∀ e ∈ es, g.through row e = ⊤ := fun e he => top_le_iff.mp (htop ▸ hle e he)
      simpa [choice, h, Option.filter, htop] using hall
    · have hsome : ¬ ∀ e ∈ es, g.through row e = ⊤ := fun hall => htop (hall m hm)
      simp [choice, h, Option.filter, htop, hsome]

theorem choice_eq_some [DecidableEq ε] :
    g.choice row es = some e ↔ g.through row e ≠ ⊤ ∧ e ∈ es ∧ (∀ e' ∈ es, g.through row e ≤ g.through row e') ∧
      ∀ e' ∈ es, g.through row e' ≤ g.through row e → es.idxOf e ≤ es.idxOf e' := by
  rw [choice, Option.filter_eq_some_iff, List.argmin_eq_some_iff]
  simp only [decide_eq_true_eq]
  tauto

theorem choice_concat : g.choice row (es ++ [e]) =
    if g.through row e < (g.choice row es).elim ⊤ (g.through row) then some e else g.choice row es := by
  rw [choice, choice, List.argmin_concat]
  cases h : es.argmin (g.through row) with
  | none => by_cases he : g.through row e = ⊤ <;> simp [Option.filter, he, lt_top_iff_ne_top]
  | some m =>
    by_cases hm : g.through row m = ⊤
    · by_cases he : g.through row e = ⊤ <;> simp [Option.filter, hm, he, lt_top_iff_ne_top]
    · by_cases hlt : g.through row e < g.through row m
      · simp [Option.filter, hm, hlt, hlt.ne_top]
      · simp [Option.filter, hm, hlt]

end

/-! ## The layers -/

variable [DecidableEq V] [LinearOrder W] (g) (o : V)

/-- The least cost of a walk of `k` edges from `o`. -/
def layer : ℕ → V → WithTop W
  | 0, v => if v = o then 0 else ⊤
  | k + 1, v => (g.choice (layer k) (g.into v)).elim ⊤ (g.through (layer k))

/-- The walk that the choices lead back along. -/
def route : ℕ → V → Option (List ε)
  | 0, v => if v = o then some [] else none
  | k + 1, v => (g.choice (g.layer o k) (g.into v)).bind fun e => (route k (g.src e)).map (· ++ [e])

variable {g o} {k : ℕ} {v : V}

theorem layer_succ_le (he : e ∈ g.into v) : g.layer o (k + 1) v ≤ g.through (g.layer o k) e := by
  classical
  rw [layer]
  cases h : g.choice (g.layer o k) (g.into v) with
  | none => exact le_of_eq (choice_eq_none.mp h e he).symm
  | some m => exact (choice_eq_some.mp h).2.2.1 e he

/-- No walk is cheaper than its layer says. -/
theorem layer_le [IsOrderedAddMonoid W] (h : g.Walk o p v) : g.layer o p.length v ≤ g.weight p := by
  induction p using List.reverseRecOn generalizing v with
  | nil => simp [layer, weight, show v = o from h.symm]
  | append_singleton p e ih =>
    obtain ⟨hp, he⟩ := walk_concat.mp h
    rw [List.length_append, List.length_singleton, weight_concat]
    calc g.layer o (p.length + 1) v ≤ g.layer o p.length (g.src e) + g.cost e := layer_succ_le he
      _ ≤ g.weight p + g.cost e := add_le_add_left (ih hp) _
      _ = ((g.weight p + g.cost e : W) : WithTop W) := (WithTop.coe_add ..).symm

theorem route_eq_none (h : g.layer o k v = ⊤) : g.route o k v = none := by
  classical
  cases k with
  | zero =>
    have hv : v ≠ o := by
      intro hv
      simp [layer, hv] at h
    simp [route, hv]
  | succ k =>
    rw [route]
    cases hc : g.choice (g.layer o k) (g.into v) with
    | none => rfl
    | some e =>
      rw [layer, hc] at h
      exact absurd h (choice_eq_some.mp hc).1

/-- A finite cost is that of the walk the choices lead back along. -/
theorem exists_route (h : g.layer o k v ≠ ⊤) :
    ∃ p, g.route o k v = some p ∧ g.Walk o p v ∧ p.length = k ∧ g.layer o k v = g.weight p := by
  classical
  induction k generalizing v with
  | zero =>
    by_cases hv : v = o
    · exact ⟨[], by simp [route, hv], hv.symm, rfl, by simp [layer, hv, weight]⟩
    · simp [layer, hv] at h
  | succ k ih =>
    cases hc : g.choice (g.layer o k) (g.into v) with
    | none => simp [layer, hc] at h
    | some e =>
      obtain ⟨hfin, he, _⟩ := choice_eq_some.mp hc
      have hsrc : g.layer o k (g.src e) ≠ ⊤ := by
        intro htop
        simp [through, htop] at hfin
      obtain ⟨p, hroute, hwalk, hlen, hcost⟩ := ih hsrc
      refine ⟨p ++ [e], by simp [route, hc, hroute], walk_concat.mpr ⟨hwalk, he⟩, by simp [hlen], ?_⟩
      simp [layer, hc, through, hcost, weight_concat]

theorem route_spec (h : g.route o k v = some p) :
    g.Walk o p v ∧ p.length = k ∧ g.layer o k v = g.weight p := by
  have hfin : g.layer o k v ≠ ⊤ := by
    intro htop
    rw [route_eq_none htop] at h
    cases h
  obtain ⟨q, hq, spec⟩ := exists_route hfin
  rw [h] at hq
  exact Option.some.inj hq ▸ spec

/-- A route is a cheapest walk of its length. -/
theorem route_least [IsOrderedAddMonoid W] (h : g.route o k v = some p) (hq : g.Walk o q v) (hlen : q.length = k) :
    g.weight p ≤ g.weight q := by
  have hle := layer_le hq
  rw [hlen, (route_spec h).2.2] at hle
  exact WithTop.coe_le_coe.mp hle

theorem exists_route_of_walk [IsOrderedAddMonoid W] (h : g.Walk o q v) : ∃ p, g.route o q.length v = some p := by
  have hfin : g.layer o q.length v ≠ ⊤ := ne_top_of_le_ne_top WithTop.coe_ne_top (layer_le h)
  obtain ⟨p, hp, _⟩ := exists_route hfin
  exact ⟨p, hp⟩

/-! ## Which cheapest walk is taken -/

/-- Up to each of its edges the walk is cheaper than every walk of as many edges to the same end, or as
cheap with a last edge that comes no later. -/
def Preferred [DecidableEq ε] (g : Graph V ε W) (o : V) (p : List ε) : Prop :=
  ∀ q e r, p = q ++ e :: r → ∀ q' e', g.Walk o (q' ++ [e']) (g.dst e) → q'.length = q.length →
    g.weight (q ++ [e]) < g.weight (q' ++ [e']) ∨
      g.weight (q ++ [e]) = g.weight (q' ++ [e']) ∧
        (g.into (g.dst e)).idxOf e ≤ (g.into (g.dst e)).idxOf e'

theorem Preferred.of_append [DecidableEq ε] (h : Preferred g o (p ++ q)) : Preferred g o p := by
  intro q₁ e r hp
  exact h q₁ e (r ++ q) (by rw [hp, List.append_assoc, List.cons_append])

theorem preferred_of_route [DecidableEq ε] [IsOrderedAddMonoid W] (h : g.route o k v = some p) : Preferred g o p := by
  induction k generalizing v p with
  | zero =>
    obtain ⟨-, hlen, -⟩ := route_spec h
    rw [List.length_eq_zero_iff.mp hlen]
    intro q e r hp
    simp at hp
  | succ k ih =>
    obtain ⟨e, hc, hrest⟩ := Option.bind_eq_some_iff.mp h
    obtain ⟨p', hroute, rfl⟩ := Option.map_eq_some_iff.mp hrest
    obtain ⟨hfin, he, hle, hfirst⟩ := choice_eq_some.mp hc
    obtain ⟨hwalk, hlen, hcost⟩ := route_spec hroute
    have hdst : g.dst e = v := (mem_into.mp he).2
    intro q e₁ r hp q' e' hq' hlen'
    -- the prefix ends at the last edge, or within the route before it
    rcases List.eq_nil_or_concat r with rfl | ⟨r, e₂, rfl⟩
    · obtain ⟨rfl, he₁⟩ := List.append_inj' hp rfl
      obtain rfl : e = e₁ := List.singleton_inj.mp he₁
      obtain ⟨hw', he'⟩ := walk_concat.mp hq'
      rw [hdst] at he' ⊢
      have hbelow : g.layer o k (g.src e') ≤ g.weight q' := by
        have := layer_le hw'
        rwa [hlen', hlen] at this
      have hthrough : g.through (g.layer o k) e' ≤ g.weight (q' ++ [e']) := by
        rw [weight_concat, WithTop.coe_add]
        exact add_le_add_left hbelow _
      have hcheap : g.through (g.layer o k) e = g.weight (p' ++ [e]) := by
        rw [weight_concat, WithTop.coe_add, through, hcost]
      rcases lt_or_ge (g.weight (p' ++ [e])) (g.weight (q' ++ [e'])) with hlt | hge
      · exact Or.inl hlt
      · have heq : g.weight (p' ++ [e]) = g.weight (q' ++ [e']) := by
          refine le_antisymm ?_ hge
          exact WithTop.coe_le_coe.mp (hcheap ▸ (hle e' he').trans hthrough)
        refine Or.inr ⟨heq, hfirst e' he' ?_⟩
        rw [hcheap, heq]
        exact hthrough
    · have hp' : p' = q ++ e₁ :: r := by
        have : p' ++ [e] = (q ++ e₁ :: r) ++ [e₂] := by simpa using hp
        exact (List.append_inj' this rfl).1
      exact ih hroute q e₁ r hp' q' e' hq' hlen'

/-- Only the route is preferred. -/
theorem route_of_preferred [DecidableEq ε] (hw : g.Walk o p v) (hp : Preferred g o p) :
    g.route o p.length v = some p := by
  induction p using List.reverseRecOn generalizing v with
  | nil => simp [route, show v = o from hw.symm]
  | append_singleton p e ih =>
    obtain ⟨hwalk, he⟩ := walk_concat.mp hw
    have hdst : g.dst e = v := (mem_into.mp he).2
    have hroute := ih hwalk hp.of_append
    have hcost := (route_spec hroute).2.2
    have hcheap : g.through (g.layer o p.length) e = g.weight (p ++ [e]) := by
      rw [weight_concat, WithTop.coe_add, through, hcost]
    -- another edge is compared along the cheapest walk to its source
    have other : ∀ e' ∈ g.into v, g.through (g.layer o p.length) e' = ⊤ ∨
        ∃ q', g.through (g.layer o p.length) e' = g.weight (q' ++ [e']) ∧
          (g.weight (p ++ [e]) < g.weight (q' ++ [e']) ∨ g.weight (p ++ [e]) = g.weight (q' ++ [e']) ∧
            (g.into v).idxOf e ≤ (g.into v).idxOf e') := by
      intro e' he'
      by_cases htop : g.layer o p.length (g.src e') = ⊤
      · exact Or.inl (by rw [through, htop, WithTop.top_add])
      · obtain ⟨q', -, hq', hlen', hcost'⟩ := exists_route htop
        refine Or.inr ⟨q', by rw [weight_concat, WithTop.coe_add, through, hcost'], ?_⟩
        have := hp p e [] rfl q' e' (hdst ▸ walk_concat.mpr ⟨hq', he'⟩) hlen'
        rwa [hdst] at this
    have hc : g.choice (g.layer o p.length) (g.into v) = some e := by
      refine choice_eq_some.mpr ⟨by simp [hcheap], he, fun e' he' => ?_, fun e' he' hle => ?_⟩
      · rw [hcheap]
        rcases other e' he' with htop | ⟨q', heq, hlt | ⟨hw, -⟩⟩
        · exact htop ▸ le_top
        · exact heq ▸ WithTop.coe_le_coe.mpr hlt.le
        · exact heq ▸ WithTop.coe_le_coe.mpr hw.le
      · rw [hcheap] at hle
        rcases other e' he' with htop | ⟨q', heq, hlt | ⟨-, hidx⟩⟩
        · simp [htop] at hle
        · rw [heq] at hle
          exact absurd (WithTop.coe_le_coe.mp hle) (not_le.mpr hlt)
        · exact hidx
    rw [List.length_append, List.length_singleton, route, hc, Option.bind_some, hroute, Option.map_some]

end Graph

end CoreFlow
