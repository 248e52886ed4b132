import Mathlib.Algebra.BigOperators.Fin
import Mathlib.Algebra.BigOperators.Group.Finset.Piecewise
import Mathlib.Algebra.Order.BigOperators.Group.Finset
import Mathlib.Logic.Relation

/-!
# Raising a lowest level

Finitely many indices have a count each, and a level that grows with the count. A greedy run raises
the count of an index whose level is lowest, again and again. It reaches every height that a
distribution of no larger total reaches: the lowest level is then the highest possible.
-/

namespace CoreFlow.Greedy
variable {ι β : Type} [DecidableEq ι] [LinearOrder β] {level : ι → ℕ → β} {base n m : ι → ℕ} {x : β}

/-- A step gives one more to an index whose level is lowest. -/
inductive Raises (level : ι → ℕ → β) (n : ι → ℕ) : (ι → ℕ) → Prop
  | lowest (i : ι) (hi : ∀ j, level i (n i) ≤ level j (n j)) :
      Raises level n (Function.update n i (n i + 1))

/-- The counts that a run of greedy steps leads to. -/
abbrev Run (level : ι → ℕ → β) : (ι → ℕ) → (ι → ℕ) → Prop := Relation.ReflTransGen (Raises level)

theorem Raises.le (h : Raises level n m) : n ≤ m := by
  cases h with
  | lowest i hi =>
    intro j
    by_cases hj : j = i
    · subst hj
      rw [Function.update_self]
      exact Nat.le_succ _
    · rw [Function.update_of_ne hj]

theorem Raises.sum [Fintype ι] (h : Raises level n m) : ∑ i, m i = ∑ i, n i + 1 := by
  cases h with
  | lowest i hi =>
    rw [Finset.sum_update_of_mem (Finset.mem_univ i), Finset.sdiff_singleton_eq_erase,
      ← Finset.add_sum_erase _ n (Finset.mem_univ i)]
    omega

theorem Run.le (h : Run level base n) : base ≤ n := by
  induction h with
  | refl => exact le_refl base
  | tail _ step ih => exact ih.trans step.le

/-- While a level is below `x`, no count exceeds that of a distribution whose levels all reach `x`. -/
theorem Run.le_of_lt (hmono : ∀ i, Monotone (level i)) (run : Run level base n) (hbase : base ≤ m)
    (hm : ∀ i, x ≤ level i (m i)) (hlow : ∃ j, level j (n j) < x) : n ≤ m := by
  induction run with
  | refl => exact hbase
  | @tail n n' run step ih =>
    have hle : n ≤ n' := step.le
    obtain ⟨j, hj⟩ := hlow
    have hbefore : level j (n j) < x := lt_of_le_of_lt (hmono j (hle j)) hj
    have hn : n ≤ m := ih ⟨j, hbefore⟩
    cases step with
    | lowest i hi =>
      -- the raised index was below `x`, where the other distribution is not
      have hlt : level i (n i) < level i (m i) := (hi j).trans_lt (hbefore.trans_le (hm i))
      have hi : n i < m i := lt_of_not_ge fun hge => absurd (hmono i hge) (not_le.mpr hlt)
      intro k
      by_cases hk : k = i
      · subst hk
        rw [Function.update_self]
        exact hi
      · rw [Function.update_of_ne hk]
        exact hn k

/-- A greedy run reaches every height that no larger total reaches. -/
theorem Run.reaches [Fintype ι] (hmono : ∀ i, Monotone (level i)) (run : Run level base n) (hbase : base ≤ m)
    (htotal : ∑ i, m i ≤ ∑ i, n i) (hm : ∀ i, x ≤ level i (m i)) (i : ι) : x ≤ level i (n i) := by
  by_contra hlow
  have hle : n ≤ m := run.le_of_lt hmono hbase hm ⟨i, not_le.mp hlow⟩
  have hsum : ∑ i, n i = ∑ i, m i := le_antisymm (Finset.sum_le_sum fun j _ => hle j) htotal
  have heq : n i = m i := (Finset.sum_eq_sum_iff_of_le fun j _ => hle j).mp hsum i (Finset.mem_univ i)
  exact hlow (heq ▸ hm i)

/-! ## Counts in a list -/

section
variable {k : ℕ} {counts : List ℕ}

/-- The counts that a list holds for the indices below `k`. -/
def countAt (counts : List ℕ) (i : Fin k) : ℕ := counts.getD i 0

theorem countAt_eq {i : Fin k} (hi : (i : ℕ) < counts.length) : countAt counts i = counts[(i : ℕ)] := by
  simp [countAt, hi]

theorem getElem?_eq_countAt (hlen : counts.length = k) (i : Fin k) : counts[(i : ℕ)]? = some (countAt counts i) := by
  have hi : (i : ℕ) < counts.length := by
    rw [hlen]
    exact i.isLt
  rw [countAt_eq hi, List.getElem?_eq_getElem hi]

theorem countAt_mem (hlen : counts.length = k) (i : Fin k) : countAt counts i ∈ counts :=
  List.mem_of_getElem? (getElem?_eq_countAt hlen i)

theorem sum_countAt (hlen : counts.length = k) : ∑ i : Fin k, countAt counts i = counts.sum := by
  subst hlen
  have hofn : List.ofFn (fun i : Fin counts.length => counts[(i : ℕ)]) = counts := List.ofFn_getElem
  conv_rhs => rw [← hofn, List.sum_ofFn]
  exact Finset.sum_congr rfl fun i _ => countAt_eq i.isLt

theorem countAt_set (hlen : counts.length = k) (i : Fin k) (n : ℕ) :
    (countAt (counts.set i n) : Fin k → ℕ) = Function.update (countAt counts) i n := by
  funext j
  by_cases hj : j = i
  · subst hj
    simp [countAt, hlen]
  · have : (i : ℕ) ≠ j := fun h => hj (Fin.ext h.symm)
    simp [countAt, Function.update_of_ne hj, List.getElem?_set_ne this]

/-- The least of the levels in a list is that of an index. -/
theorem exists_getD_eq_min {levels : List β} {y d : β} (hlen : levels.length = k) (hy : levels.min? = some y) :
    ∃ i : Fin k, levels.getD i d = y := by
  obtain ⟨i, hi, rfl⟩ := List.mem_iff_getElem.mp (List.min?_eq_some_iff.mp hy).1
  exact ⟨⟨i, hlen ▸ hi⟩, by simp [hi]⟩

theorem le_min_iff {levels : List β} {y d : β} (hlen : levels.length = k) (hy : levels.min? = some y) :
    x ≤ y ↔ ∀ i : Fin k, x ≤ levels.getD i d := by
  constructor
  · intro hx i
    have hi : (i : ℕ) < levels.length := by
      rw [hlen]
      exact i.isLt
    rw [List.getD_eq_getElem?_getD, List.getElem?_eq_getElem hi]
    exact hx.trans ((List.min?_eq_some_iff.mp hy).2 _ (List.getElem_mem hi))
  · intro hall
    obtain ⟨i, rfl⟩ := exists_getD_eq_min (d := d) hlen hy
    exact hall i

theorem countAt_replicate (n : ℕ) : (countAt (List.replicate k n) : Fin k → ℕ) = fun _ => n := by
  funext i
  simp [countAt]

end

end CoreFlow.Greedy
