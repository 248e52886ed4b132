import Mathlib.Data.List.Basic

/-!
# Reading numbers from text

`int` of a string and `str.split` at a character, on lists of characters, and the text of a natural number.
-/

namespace CoreFlow

/-- Underscores that stand between two digits, as `int` allows them, are dropped. -/
def dropDigitSeparators : List Char → List Char
  | a :: '_' :: b :: cs =>
    if a.isDigit ∧ b.isDigit then a :: dropDigitSeparators (b :: cs)
    else a :: dropDigitSeparators ('_' :: b :: cs)
  | a :: cs => a :: dropDigitSeparators cs
  | [] => []

/-- `int` of a string of ASCII digits, with a sign and white space around it. -/
def pyInt (chars : List Char) : Option Int :=
  let trim := List.dropWhile Char.isWhitespace
  let digits (ds : List Char) : Option Int :=
    if ds ≠ [] ∧ ds.all Char.isDigit then
      some (ds.foldl (fun n c => 10 * n + (c.toNat - 48 : Nat)) (0 : Int))
    else none
  match dropDigitSeparators (trim (trim chars).reverse).reverse with
  | '-' :: ds => (digits ds).map (- ·)
  | '+' :: ds => digits ds
  | ds => digits ds

/-- `tuple(map(int, text.split(":")))`. -/
def parseIntTuple (text : String) : Option (List Int) :=
  (text.toList.splitOn ':').mapM pyInt

/-! ## Writing numbers -/

/-- What stands before and after the last separator. -/
theorem split_at_last {α : Type} {c : α} {a a' d d' : List α} (hd : c ∉ d) (hd' : c ∉ d')
    (h : a ++ c :: d = a' ++ c :: d') : a = a' ∧ d = d' := by
  rcases List.append_eq_append_iff.mp h with ⟨x, rfl, hx⟩ | ⟨x, rfl, hx⟩
  · cases x with
    | nil => simpa using hx
    | cons y x =>
      obtain ⟨rfl, rfl⟩ := List.cons.inj hx
      exact absurd (List.mem_append_right x List.mem_cons_self) hd
  · cases x with
    | nil => simpa using hx.symm
    | cons y x =>
      obtain ⟨rfl, rfl⟩ := List.cons.inj hx
      exact absurd (List.mem_append_right x List.mem_cons_self) hd'

theorem toList_toString (n : Nat) : (toString n).toList = Nat.toDigits 10 n := by
  show (Nat.repr n).toList = _
  rw [Nat.repr]
  exact String.toList_ofList

theorem dash_not_mem_toString (n : Nat) : '-' ∉ (toString n).toList := by
  rw [toList_toString]
  intro h
  have := Nat.isDigit_of_mem_toDigits (by decide) (by decide) h
  revert this
  decide

theorem toString_injective {m n : Nat} (h : toString m = toString n) : m = n := by
  have := congrArg String.toList h
  rw [toList_toString, toList_toString] at this
  rw [← Nat.ofDigitChars_ten_toDigits (n := m), this, Nat.ofDigitChars_ten_toDigits]

/-- Texts that end in a dash and a number. -/
theorem append_dash_inj {s s' : String} {m n : Nat} (h : s ++ "-" ++ toString m = s' ++ "-" ++ toString n) :
    s = s' ∧ m = n := by
  have := congrArg String.toList h
  simp only [String.toList_append, List.append_assoc] at this
  obtain ⟨hs, hn⟩ := split_at_last (dash_not_mem_toString m) (dash_not_mem_toString n) this
  exact ⟨String.toList_inj.mp hs, toString_injective (String.toList_inj.mp hn)⟩

end CoreFlow
