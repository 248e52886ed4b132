import Mathlib.Algebra.Order.Field.Basic
import Mathlib.Tactic.Linarith

/-!
# Search by halving an interval

`halve test n e` halves an interval `n` times and keeps the half at whose lower end the test is passed.
Whatever the test is, the result brackets a change of its answer; for a test that is passed below every
point at which it is passed, the lower end is the greatest such point up to the width that is left.
-/

namespace CoreFlow.Halving

/-- The ends of an interval. -/
structure Ends (K : Type) where
  left : K
  right : K

/-- Each end is an old one or a point that was tested. -/
structure Changes {K : Type} (test : K → Prop) (e e' : Ends K) : Prop where
  left : e'.left = e.left ∨ test e'.left
  right : e'.right = e.right ∨ ¬ test e'.right

theorem Changes.trans {K : Type} {test : K → Prop} {e e' e'' : Ends K} (h : Changes test e e')
    (h' : Changes test e' e'') : Changes test e e'' := by
  constructor
  · apply h'.left.elim _ .inr
    intro heq
    rw [heq]
    exact h.left
  · apply h'.right.elim _ .inr
    intro heq
    rw [heq]
    exact h.right

section
variable {K : Type} [Field K] {test : K → Prop} [DecidablePred test]

namespace Ends

def mid (e : Ends K) : K := (e.right + e.left) / 2

def width (e : Ends K) : K := e.right - e.left

/-- The half that is searched further. -/
def half (test : K → Prop) [DecidablePred test] (e : Ends K) : Ends K :=
  if test e.mid then ⟨e.mid, e.right⟩ else ⟨e.left, e.mid⟩

end Ends

/-- `n` halvings. -/
def halve (test : K → Prop) [DecidablePred test] : Nat → Ends K → Ends K
  | 0, e => e
  | n + 1, e => halve test n (e.half test)

theorem changes_half (e : Ends K) : Changes test e (e.half test) := by
  unfold Ends.half
  split
  · next h => exact ⟨.inr h, .inl rfl⟩
  · next h => exact ⟨.inl rfl, .inr h⟩

theorem changes_halve (n : Nat) (e : Ends K) : Changes test e (halve test n e) := by
  induction n generalizing e with
  | zero => exact ⟨.inl rfl, .inl rfl⟩
  | succ n ih => exact (changes_half e).trans (ih _)

end

section
variable {K : Type} [Field K] [LinearOrder K] [IsStrictOrderedRing K] {test : K → Prop} [DecidablePred test]

theorem width_half (e : Ends K) : (e.half test).width = e.width / 2 := by
  unfold Ends.half Ends.width Ends.mid
  split
  · dsimp only
    linarith
  · dsimp only
    linarith

theorem width_halve (n : Nat) (e : Ends K) : (halve test n e).width = e.width / 2 ^ n := by
  induction n generalizing e with
  | zero => simp [halve]
  | succ n ih => rw [halve, ih, width_half, pow_succ, div_div, mul_comm 2 (2 ^ n)]

theorem left_le_halve (n : Nat) {e : Ends K} (h : e.left ≤ e.right) : e.left ≤ (halve test n e).left := by
  induction n generalizing e with
  | zero => exact le_refl _
  | succ n ih =>
    have hw : (e.half test).width = e.width / 2 := width_half e
    have hle : (e.half test).left ≤ (e.half test).right := by
      unfold Ends.width at hw
      linarith
    apply le_trans _ (ih hle)
    unfold Ends.half Ends.mid
    split
    · dsimp only
      linarith
    · exact le_refl _

/-- A point that passes a downward closed test is below the upper end. -/
theorem lt_right_of_test (n : Nat) {e : Ends K} {x : K} (down : ∀ x y, e.left < x → x ≤ y → test y → test x)
    (hleft : e.left < x) (hright : x < e.right) (hx : test x) : x < (halve test n e).right := by
  rcases (changes_halve n e : Changes test _ _).right with heq | hfail
  · rwa [heq]
  · by_contra hle
    have hlt := hleft.trans hright
    have hpos : 0 < (halve test n e).width := by
      rw [width_halve]
      exact div_pos (sub_pos.mpr hlt) (pow_pos two_pos n)
    have hbelow : e.left < (halve test n e).right := lt_of_le_of_lt (left_le_halve n hlt.le) (sub_pos.mp hpos)
    exact hfail (down _ x hbelow (not_lt.mp hle) hx)

end

end CoreFlow.Halving
