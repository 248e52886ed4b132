import Mathlib.Data.List.TakeWhile

/-!
# Bisection

`bisect.bisect_left` over a list of which only a Boolean key is looked at: `below x` says that the
key of `x` is smaller than the target. On a list where the elements below come first it finds the
length of that prefix; on any other list it finds some place where the key changes.
-/

namespace CoreFlow.Bisect
variable {α : Type}

/-- The loop of `bisect_left`; the first argument bounds `hi - lo`. -/
def loop (below : α → Bool) (a : List α) : Nat → Nat → Nat → Nat
  | 0, lo, _ => lo
  | n + 1, lo, hi =>
    if lo < hi then
      let mid := (lo + hi) / 2
      if a[mid]?.any below then loop below a n (mid + 1) hi else loop below a n lo mid
    else lo

/-- `bisect_left`. -/
def bisectLeft (below : α → Bool) (a : List α) : Nat := loop below a a.length 0 a.length

section
variable {below other : α → Bool} {a : List α}

/-- The elements below come first. -/
def Ordered (below : α → Bool) (a : List α) : Prop := a.Pairwise fun x y => below y = true → below x = true

instance (below : α → Bool) (a : List α) : Decidable (Ordered below a) :=
  inferInstanceAs (Decidable (a.Pairwise fun x y => below y = true → below x = true))

theorem takeWhile_eq_nil {x : α} (h : Ordered below (x :: a)) (hx : below x = false) : a.takeWhile below = [] := by
  cases a with
  | nil => rfl
  | cons y a =>
    have hy : ¬ below y = true := fun hy => by
      rw [(List.pairwise_cons.mp h).1 y List.mem_cons_self hy] at hx
      cases hx
    exact List.takeWhile_cons_of_neg hy

theorem below_iff {i : Nat} {x : α} (h : Ordered below a) (hx : a[i]? = some x) :
    below x = true ↔ i < (a.takeWhile below).length := by
  induction a generalizing i with
  | nil => simp at hx
  | cons y a ih =>
    obtain ⟨hy, ha⟩ := List.pairwise_cons.mp h
    by_cases hyb : below y = true
    · rw [List.takeWhile_cons_of_pos hyb, List.length_cons]
      cases i with
      | zero =>
        obtain rfl := Option.some.inj hx
        exact ⟨fun _ => Nat.succ_pos _, fun _ => hyb⟩
      | succ i => rw [ih ha hx, Nat.succ_lt_succ_iff]
    · rw [List.takeWhile_cons_of_neg hyb, List.length_nil]
      refine ⟨fun hxb => absurd ?_ hyb, fun hlt => absurd hlt (Nat.not_lt_zero i)⟩
      cases i with
      | zero =>
        obtain rfl := Option.some.inj hx
        exact hxb
      | succ i => exact hy x (List.mem_of_getElem? hx) hxb

/-- The loop closes in on the place `k` where the key changes. -/
theorem loop_eq {k n lo hi : Nat} (h : ∀ i x, a[i]? = some x → (below x = true ↔ i < k)) (hlo : lo ≤ k) (hk : k ≤ hi)
    (hhi : hi ≤ a.length) (hn : hi - lo ≤ n) : loop below a n lo hi = k := by
  induction n generalizing lo hi with
  | zero =>
    show lo = k
    omega
  | succ n ih =>
    rw [loop]
    by_cases hlt : lo < hi
    · rw [if_pos hlt]
      have hmid : (lo + hi) / 2 < a.length := by omega
      have hget := List.getElem?_eq_getElem hmid
      have hbelow := h _ _ hget
      dsimp only
      rw [hget, Option.any_some]
      by_cases hb : below a[(lo + hi) / 2] = true
      · rw [if_pos hb]
        rw [hbelow] at hb
        exact ih (by omega) hk hhi (by omega)
      · rw [if_neg hb]
        rw [hbelow] at hb
        exact ih hlo (by omega) (by omega) (by omega)
    · rw [if_neg hlt]
      omega

theorem bisectLeft_eq (h : Ordered below a) : bisectLeft below a = (a.takeWhile below).length :=
  loop_eq (fun _ _ hx => below_iff h hx) (Nat.zero_le _) (List.takeWhile_sublist below).length_le (le_refl _) (by omega)

/-- Whatever comes after them, the elements below that come first are found. -/
theorem le_loop {k n lo hi : Nat} (h : ∀ i x, i < k → a[i]? = some x → below x = true) (hk : k ≤ hi) (hhi : hi ≤ a.length)
    (hn : hi - lo ≤ n) : k ≤ loop below a n lo hi := by
  induction n generalizing lo hi with
  | zero =>
    show k ≤ lo
    omega
  | succ n ih =>
    rw [loop]
    by_cases hlt : lo < hi
    · rw [if_pos hlt]
      have hmid : (lo + hi) / 2 < a.length := by omega
      have hget := List.getElem?_eq_getElem hmid
      dsimp only
      rw [hget, Option.any_some]
      by_cases hb : below a[(lo + hi) / 2] = true
      · rw [if_pos hb]
        exact ih hk hhi (by omega)
      · rw [if_neg hb]
        have hle : k ≤ (lo + hi) / 2 := by
          by_contra hgt
          exact hb (h _ _ (by omega) hget)
        exact ih hle (by omega) (by omega)
    · rw [if_neg hlt]
      omega

theorem le_bisectLeft {k : Nat} (h : ∀ i x, i < k → a[i]? = some x → below x = true) (hk : k ≤ a.length) :
    k ≤ bisectLeft below a :=
  le_loop h hk (le_refl _) (by omega)

/-- Of two prefixes, the longer one is that of the elements below for either key. -/
theorem length_takeWhile_or (h : Ordered below a) (h' : Ordered other a) :
    (a.takeWhile fun x => below x || other x).length =
      max (a.takeWhile below).length (a.takeWhile other).length := by
  induction a with
  | nil => rfl
  | cons x a ih =>
    have ih := ih (List.pairwise_cons.mp h).2 (List.pairwise_cons.mp h').2
    rw [List.takeWhile_cons, List.takeWhile_cons, List.takeWhile_cons]
    cases hx : below x <;> cases hx' : other x
    · rfl
    · rw [takeWhile_eq_nil h hx] at ih
      simp [ih]
    · rw [takeWhile_eq_nil h' hx'] at ih
      simp [ih]
    · simp [ih]

end

end CoreFlow.Bisect
