import CoreFlow.Lib.Prog

/-!
# Programs whose exceptions leave a state

A `Prog` that raises forgets the state. `Attempt ε σ α` keeps it: a run ends with a value or with an exception of
the type `ε`, and in a state either way, the one that whoever catches the exception finds. `lift` makes an attempt
of a program that changes nothing before it raises. An attempt `Follows` a program when they return the same from
every state; what is proved about the program then holds of the attempt.
-/

namespace CoreFlow

/-- A program over the state `σ` that raises exceptions of the type `ε`. -/
abbrev Attempt (ε σ α : Type) := ExceptT ε (StateM σ) α

namespace Attempt
variable {ε σ τ α β : Type} {e e' : ε} {s s₁ s' : σ} {a : α}

/-- A program whose exceptions are `e`. -/
def lift (e : ε) (m : Prog σ α) : Attempt ε σ α := fun s =>
  match m s with
  | some (a, s') => (.ok a, s')
  | none => (.error e, s)

def raise (e : ε) : Attempt ε σ α := fun s => (.error e, s)

/-- `if p: x`. -/
def when (c : Prop) [Decidable c] (x : Attempt ε σ Unit) : Attempt ε σ Unit := if c then x else pure ()

/-- Run an attempt on a part of the state. -/
def zoom (get : σ → τ) (set : σ → τ → σ) (x : Attempt ε τ α) : Attempt ε σ α := fun s =>
  match x (get s) with
  | (r, t) => (r, set s t)

/-- Run an attempt over a list. -/
def forM (f : α → Attempt ε σ Unit) : List α → Attempt ε σ Unit
  | [] => pure ()
  | a :: as => do
    f a
    forM f as

theorem pure_run : (pure a : Attempt ε σ α) s = (.ok a, s) := rfl

theorem raise_run : (raise e : Attempt ε σ α) s = (.error e, s) := rfl

theorem lift_ok {m : Prog σ α} (h : m s = some (a, s')) : lift e m s = (.ok a, s') := by
  unfold lift
  rw [h]

theorem lift_error {m : Prog σ α} (h : m s = none) : lift e m s = (.error e, s) := by
  unfold lift
  rw [h]

theorem zoom_run {get : σ → τ} {set : σ → τ → σ} {x : Attempt ε τ α} {r : Except ε α} {t : τ} (h : x (get s) = (r, t)) :
    zoom get set x s = (r, set s t) := by
  unfold zoom
  rw [h]

/-- The first step returns. -/
theorem ok_bind {x : Attempt ε σ α} {f : α → Attempt ε σ β} (h : x s = (.ok a, s₁)) : (x >>= f) s = f a s₁ := by
  show (match x s with | (r, s₁) => ExceptT.bindCont f r s₁) = _
  rw [h]
  rfl

/-- The first step raises. -/
theorem error_bind {x : Attempt ε σ α} {f : α → Attempt ε σ β} (h : x s = (.error e, s₁)) :
    (x >>= f) s = (.error e, s₁) := by
  show (match x s with | (r, s₁) => ExceptT.bindCont f r s₁) = _
  rw [h]
  rfl

theorem lift_bind {m : Prog σ α} {f : α → Attempt ε σ β} (h : m s = some (a, s₁)) : (lift e m >>= f) s = f a s₁ :=
  ok_bind (lift_ok h)

/-! ## Following a program -/

def Follows (x : Attempt ε σ α) (m : Prog σ α) : Prop :=
  ∀ s, (∀ a s', m s = some (a, s') → x s = (.ok a, s')) ∧ (m s = none → ∃ e s', x s = (.error e, s'))

namespace Follows
variable {x : Attempt ε σ α} {m : Prog σ α}

/-- What the attempt returns, the program returns. -/
theorem returns (h : Follows x m) (hx : x s = (.ok a, s')) : m s = some (a, s') := by
  cases hm : m s with
  | none =>
    obtain ⟨e, s₁, he⟩ := (h s).2 hm
    rw [hx] at he
    cases he
  | some y =>
    have same := (h s).1 y.1 y.2 hm
    rw [hx] at same
    cases same
    rfl

theorem lift (e : ε) (m : Prog σ α) : Follows (lift e m) m := fun _ =>
  ⟨fun _ _ h => lift_ok h, fun h => ⟨e, _, lift_error h⟩⟩

theorem pure (a : α) : Follows (pure a : Attempt ε σ α) (pure a) := by
  intro s
  constructor
  · intro b s' h
    obtain ⟨rfl, rfl⟩ := Prog.pure_iff.mp h
    exact pure_run
  · intro h
    cases h

theorem raise (e : ε) : Follows (raise e : Attempt ε σ α) Prog.raise := fun s =>
  ⟨fun _ _ h => (Prog.raise_iff.mp h).elim, fun _ => ⟨e, s, raise_run⟩⟩

theorem bind {f : α → Attempt ε σ β} {g : α → Prog σ β} (hx : Follows x m) (hf : ∀ a, Follows (f a) (g a)) :
    Follows (x >>= f) (m >>= g) := by
  intro s
  constructor
  · intro b s' h
    obtain ⟨a, s₁, h₁, h₂⟩ := Prog.bind_iff.mp h
    rw [ok_bind ((hx s).1 a s₁ h₁)]
    exact (hf a s₁).1 b s' h₂
  · intro h
    cases h₁ : m s with
    | none =>
      obtain ⟨e, s₁, he⟩ := (hx s).2 h₁
      exact ⟨e, s₁, error_bind he⟩
    | some y =>
      obtain ⟨a, s₁⟩ := y
      rw [Prog.bind_eq h₁] at h
      rw [ok_bind ((hx s).1 a s₁ h₁)]
      exact (hf a s₁).2 h

theorem ite {c : Prop} [Decidable c] {y : Attempt ε σ α} {m' : Prog σ α} (hx : Follows x m) (hy : Follows y m') :
    Follows (if c then x else y) (if c then m else m') := by
  split
  · exact hx
  · exact hy

theorem when {c : Prop} [Decidable c] {x : Attempt ε σ Unit} {m : Prog σ Unit} (h : Follows x m) :
    Follows (when c x) (Prog.when c m) := ite h (pure ())

theorem zoom {get : σ → τ} {set : σ → τ → σ} {y : Attempt ε τ α} {n : Prog τ α} (h : Follows y n) :
    Follows (zoom get set y) (Prog.zoom get set n) := by
  intro s
  constructor
  · intro a s' hs
    obtain ⟨t, ht, rfl⟩ := Prog.zoom_iff.mp hs
    exact zoom_run ((h (get s)).1 a t ht)
  · intro hs
    have hn : n (get s) = none := by
      unfold Prog.zoom at hs
      rwa [Option.map_eq_none_iff] at hs
    obtain ⟨e, t, he⟩ := (h (get s)).2 hn
    exact ⟨e, set s t, zoom_run he⟩

theorem forM {f : α → Attempt ε σ Unit} {g : α → Prog σ Unit} (h : ∀ a, Follows (f a) (g a)) (as : List α) :
    Follows (forM f as) (Prog.forM g as) := by
  induction as with
  | nil => exact pure ()
  | cons a as ih => exact bind (h a) fun _ => ih

end Follows

/-! ## Exceptions that are not raised -/

/-- From the state `s` the attempt does not raise `e`. -/
def Avoids (e : ε) (x : Attempt ε σ α) (s : σ) : Prop := ∀ s', x s ≠ (.error e, s')

namespace Avoids
variable {x : Attempt ε σ α}

theorem of_ok (h : x s = (.ok a, s₁)) : Avoids e x s := by
  intro s' hraised
  rw [h] at hraised
  cases hraised

theorem pure (a : α) : Avoids e (pure a : Attempt ε σ α) s := of_ok pure_run

theorem lift {m : Prog σ α} (hne : e' ≠ e) : Avoids e (lift e' m) s := by
  intro s' hraised
  cases hm : m s with
  | none =>
    rw [lift_error hm] at hraised
    cases hraised
    exact hne rfl
  | some y => exact of_ok (lift_ok hm) s' hraised

/-- What follows matters in the state that the first step leaves. -/
theorem bind {f : α → Attempt ε σ β} (hx : Avoids e x s) (hf : ∀ a s₁, x s = (.ok a, s₁) → Avoids e (f a) s₁) :
    Avoids e (x >>= f) s := by
  intro s' hraised
  match h : x s with
  | (.ok a, s₁) =>
    rw [ok_bind h] at hraised
    exact hf a s₁ h s' hraised
  | (.error e', s₁) =>
    rw [error_bind h] at hraised
    cases hraised
    exact hx _ h

theorem zoom {get : σ → τ} {set : σ → τ → σ} {y : Attempt ε τ α} (h : Avoids e y (get s)) :
    Avoids e (zoom get set y) s := by
  intro s' hraised
  match hy : y (get s) with
  | (r, t) =>
    rw [zoom_run hy] at hraised
    cases hraised
    exact h t hy

/-- A step that does not raise `e` at all. -/
theorem step {m : Prog σ α} {f : α → Attempt ε σ β} (hne : e' ≠ e) (hf : ∀ a s₁, m s = some (a, s₁) → Avoids e (f a) s₁) :
    Avoids e (Attempt.lift e' m >>= f) s :=
  bind (lift hne) fun a s₁ h => hf a s₁ ((Follows.lift e' m).returns h)

theorem ite {c : Prop} [Decidable c] {y : Attempt ε σ α} (hx : c → Avoids e x s) (hy : ¬ c → Avoids e y s) :
    Avoids e (if c then x else y) s := by
  split
  · exact hx ‹_›
  · exact hy ‹_›

end Avoids

/-! ## Faults that the last state shows

Some faults do not raise: the state remembers them. `Detects Ok x` says that an attempt which ends well, with a value
or with an exception, began well. What is only true without faults may then be used at every step of an attempt that
ends well. -/

def Detects (Ok : σ → Prop) (x : Attempt ε σ α) : Prop := ∀ s, Ok (x s).2 → Ok s

namespace Detects
variable {Ok : σ → Prop} {x : Attempt ε σ α}

theorem lift {m : Prog σ α} (h : ∀ s a s', m s = some (a, s') → Ok s' → Ok s) : Detects Ok (lift e m) := by
  intro s ok
  cases hm : m s with
  | none => rwa [lift_error hm] at ok
  | some y =>
    rw [lift_ok hm] at ok
    exact h s y.1 y.2 hm ok

theorem pure (a : α) : Detects Ok (pure a : Attempt ε σ α) := fun _ => id

theorem raise (e : ε) : Detects Ok (raise e : Attempt ε σ α) := fun _ => id

/-- The first step of an attempt that ends well. -/
theorem first {f : α → Attempt ε σ β} (hf : ∀ a, Detects Ok (f a)) (ok : Ok ((x >>= f) s).2) : Ok (x s).2 := by
  rcases h : x s with ⟨r, s₁⟩
  cases r with
  | ok a =>
    rw [ok_bind h] at ok
    exact hf a s₁ ok
  | error e => rwa [error_bind h] at ok

theorem bind {f : α → Attempt ε σ β} (hx : Detects Ok x) (hf : ∀ a, Detects Ok (f a)) : Detects Ok (x >>= f) :=
  fun s ok => hx s (first hf ok)

theorem ite {c : Prop} [Decidable c] {y : Attempt ε σ α} (hx : Detects Ok x) (hy : Detects Ok y) :
    Detects Ok (if c then x else y) := by
  split
  · exact hx
  · exact hy

theorem when {c : Prop} [Decidable c] {x : Attempt ε σ Unit} (h : Detects Ok x) : Detects Ok (when c x) :=
  ite h (pure ())

theorem forM {f : α → Attempt ε σ Unit} (h : ∀ a, Detects Ok (f a)) (as : List α) : Detects Ok (forM f as) := by
  induction as with
  | nil => exact pure ()
  | cons a as ih => exact bind (h a) fun _ => ih

theorem zoom {get : σ → τ} {set : σ → τ → σ} {Ok : τ → Prop} {y : Attempt ε τ α} (hset : ∀ s t, get (set s t) = t)
    (h : Detects Ok y) : Detects (fun s => Ok (get s)) (zoom get set y) := by
  intro s ok
  rcases hy : y (get s) with ⟨r, t⟩
  rw [zoom_run hy] at ok
  refine h (get s) ?_
  rw [hy]
  rwa [hset] at ok

end Detects

/-- The attempt does not raise `e` unless the state that it ends in shows a fault. -/
def AvoidsUnless (Ok : σ → Prop) (e : ε) (x : Attempt ε σ α) (s : σ) : Prop := Ok (x s).2 → Avoids e x s

namespace AvoidsUnless
variable {Ok : σ → Prop} {x : Attempt ε σ α}

theorem bind {f : α → Attempt ε σ β} (hx : AvoidsUnless Ok e x s) (detects : ∀ a, Detects Ok (f a))
    (hf : ∀ a s₁, x s = (.ok a, s₁) → Ok s₁ → AvoidsUnless Ok e (f a) s₁) : AvoidsUnless Ok e (x >>= f) s := by
  intro ok
  refine (hx (Detects.first detects ok)).bind fun a s₁ h => ?_
  rw [ok_bind h] at ok
  exact hf a s₁ h (detects a s₁ ok) ok

/-- A step that does not raise `e` at all. -/
theorem step {m : Prog σ α} {f : α → Attempt ε σ β} (hne : e' ≠ e)
    (hf : ∀ a s₁, m s = some (a, s₁) → AvoidsUnless Ok e (f a) s₁) : AvoidsUnless Ok e (Attempt.lift e' m >>= f) s := by
  intro ok
  refine (Avoids.lift hne).bind fun a s₁ h => ?_
  rw [ok_bind h] at ok
  exact hf a s₁ ((Follows.lift e' m).returns h) ok

theorem zoom {get : σ → τ} {set : σ → τ → σ} {Ok : τ → Prop} {y : Attempt ε τ α} (hset : ∀ s t, get (set s t) = t)
    (h : AvoidsUnless Ok e y (get s)) : AvoidsUnless (fun s => Ok (get s)) e (zoom get set y) s := by
  intro ok
  refine Avoids.zoom (h ?_)
  rcases hy : y (get s) with ⟨r, t⟩
  rw [zoom_run hy] at ok
  rwa [hset] at ok

theorem ite {c : Prop} [Decidable c] {y : Attempt ε σ α} (hx : c → AvoidsUnless Ok e x s) (hy : ¬ c → AvoidsUnless Ok e y s) :
    AvoidsUnless Ok e (if c then x else y) s := by
  split
  · exact hx ‹_›
  · exact hy ‹_›

end AvoidsUnless

end Attempt

end CoreFlow
