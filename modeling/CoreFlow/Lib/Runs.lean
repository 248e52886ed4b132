import Mathlib.Data.Set.Card

/-!
# Maximal runs

A maximal run of a predicate on the positions of a list is an interval of positions where it holds that
cannot be extended to either side. Every run is known by where it ends, so that the runs of a list can be
counted with one look ahead: `ncard_runs`.
-/

namespace CoreFlow

/-- The predicate holds from `i` to `j`, and neither before nor after. -/
structure IsMaximalRun (p : Nat → Prop) (i j : Nat) : Prop where
  le : i ≤ j
  holds : ∀ k, i ≤ k → k ≤ j → p k
  before : ∀ k, k + 1 = i → ¬ p k
  after : ¬ p (j + 1)

/-- The predicate holds here for the last time in a row. -/
def EndsRun (p : Nat → Prop) (j : Nat) : Prop := p j ∧ ¬ p (j + 1)

section Positions
variable {p : Nat → Prop} {i i' j : Nat}

theorem IsMaximalRun.endsRun (h : IsMaximalRun p i j) : EndsRun p j := ⟨h.holds j h.le (Nat.le_refl j), h.after⟩

/-- Of two runs that end together none starts earlier. -/
theorem IsMaximalRun.start_le (h : IsMaximalRun p i j) (h' : IsMaximalRun p i' j) : i ≤ i' := by
  by_contra hlt
  obtain ⟨k, rfl⟩ : ∃ k, i = k + 1 := ⟨i - 1, by omega⟩
  have hle := h.le
  apply h.before k rfl
  apply h'.holds <;> omega

theorem exists_start (h : p j) : ∃ i ≤ j, (∀ k, i ≤ k → k ≤ j → p k) ∧ ∀ k, k + 1 = i → ¬ p k := by
  induction j with
  | zero =>
    refine ⟨0, Nat.le_refl 0, ?_, fun k hk => absurd hk (by omega)⟩
    intro k _ hk
    rwa [Nat.le_zero.mp hk]
  | succ j ih =>
    by_cases hj : p j
    · obtain ⟨i, hi, hall, hbefore⟩ := ih hj
      refine ⟨i, by omega, ?_, hbefore⟩
      intro k hik hkj
      by_cases hk : k = j + 1
      · rwa [hk]
      · exact hall k hik (by omega)
    · refine ⟨j + 1, Nat.le_refl _, ?_, ?_⟩
      · intro k hik hkj
        rwa [show k = j + 1 by omega]
      · intro k hk
        rwa [show k = j by omega]

theorem exists_run (h : EndsRun p j) : ∃ i, IsMaximalRun p i j := by
  obtain ⟨i, hi, hall, hbefore⟩ := exists_start h.1
  exact ⟨i, hi, hall, hbefore, h.2⟩

/-- The runs of a predicate, each with its first and last position. -/
def runs (p : Nat → Prop) : Set (Nat × Nat) := {r | IsMaximalRun p r.1 r.2}

/-- There are as many runs as ends. -/
theorem ncard_runs_eq_ends (p : Nat → Prop) : (runs p).ncard = {j | EndsRun p j}.ncard := by
  have hinj : Set.InjOn Prod.snd (runs p) := by
    rintro ⟨i, j⟩ h ⟨i', j'⟩ h' (rfl : j = j')
    exact Prod.ext (Nat.le_antisymm (IsMaximalRun.start_le h h') (IsMaximalRun.start_le h' h)) rfl
  rw [← hinj.ncard_image]
  congr 1
  ext j
  constructor
  · rintro ⟨r, hr, rfl⟩
    exact IsMaximalRun.endsRun hr
  · intro hj
    obtain ⟨i, hi⟩ := exists_run hj
    exact ⟨(i, j), hi, rfl⟩

end Positions

section Lists
variable {α : Type} (p : α → Bool)

/-- The predicate holds at a position of a list. -/
def HoldsAt (l : List α) (k : Nat) : Prop := l[k]?.any p = true

/-- The number of elements that satisfy the predicate and are not followed by one that does. -/
def countEnds : List α → Nat
  | [] => 0
  | a :: rest => (if p a ∧ ¬ rest.head?.any p then 1 else 0) + countEnds rest

theorem ends_cons (a : α) (l : List α) : {j | EndsRun (HoldsAt p (a :: l)) j} =
    {j | j = 0 ∧ p a ∧ ¬ l.head?.any p} ∪ Nat.succ '' {j | EndsRun (HoldsAt p l) j} := by
  ext j
  cases j with
  | zero => simp [EndsRun, HoldsAt, List.head?_eq_getElem?]
  | succ j => simp [EndsRun, HoldsAt]

theorem finite_ends (l : List α) : {j | EndsRun (HoldsAt p l) j}.Finite := by
  apply (Set.finite_lt_nat l.length).subset
  rintro j ⟨hj, -⟩
  by_contra hlen
  rw [HoldsAt, List.getElem?_eq_none (by simpa using hlen)] at hj
  cases hj

theorem ncard_ends (l : List α) : {j | EndsRun (HoldsAt p l) j}.ncard = countEnds p l := by
  induction l with
  | nil => simp [EndsRun, HoldsAt, countEnds]
  | cons a l ih =>
    have hsucc : (Nat.succ '' {j | EndsRun (HoldsAt p l) j}).ncard = countEnds p l := by
      rw [Set.ncard_image_of_injective _ Nat.succ_injective, ih]
    rw [ends_cons, countEnds]
    by_cases h : p a ∧ ¬ l.head?.any p
    · have hzero : {j : Nat | j = 0 ∧ p a ∧ ¬ l.head?.any p} = {0} := by
        ext j
        simp [h]
      rw [if_pos h, hzero, Set.singleton_union, Set.ncard_insert_of_notMem (by simp) ((finite_ends p l).image _), hsucc,
        Nat.add_comm]
    · have hnone : {j : Nat | j = 0 ∧ p a ∧ ¬ l.head?.any p} = ∅ := by
        apply Set.eq_empty_of_forall_notMem
        intro j hj
        exact h hj.2
      rw [if_neg h, hnone, Set.empty_union, hsucc, Nat.zero_add]

/-- The maximal runs of a list are counted with one look ahead. -/
theorem ncard_runs (l : List α) : (runs (HoldsAt p l)).ncard = countEnds p l := by
  rw [ncard_runs_eq_ends, ncard_ends]

theorem countEnds_le_countP (l : List α) : countEnds p l ≤ l.countP p := by
  induction l with
  | nil => exact Nat.le_refl 0
  | cons a l ih =>
    rw [countEnds, List.countP_cons]
    split
    · next h =>
      rw [if_pos h.1]
      omega
    · omega

/-- Whoever satisfies the predicate is in a run. -/
theorem countEnds_pos {l : List α} (h : l.any p = true) : 0 < countEnds p l := by
  induction l with
  | nil => cases h
  | cons a l ih =>
    rw [countEnds]
    by_cases hrest : l.any p = true
    · exact Nat.add_pos_right _ (ih hrest)
    · have ha : p a = true := by
        simpa [hrest] using h
      have hhead : ¬ l.head?.any p = true := by
        cases l with
        | nil => simp
        | cons b l =>
          intro hb
          apply hrest
          rw [List.any_cons, show p b = true from hb, Bool.true_or]
      rw [if_pos ⟨ha, hhead⟩]
      omega

end Lists

end CoreFlow
