import Mathlib.Data.List.Forall2
import Mathlib.Data.Option.Basic
import Mathlib.Order.Defs.Unbundled

/-!
# Programs that change a state or raise

`Prog σ α` is a method body of an imperative program over a state `σ`: it raises (`none`) or returns
a value and leaves a new state. A run that returned is taken apart with the `_iff` equivalences;
loops go through `forM_invariant` and `foldlM_invariant`. `Within R m` says that every run of `m` that returns relates the
two states by `R`; for a reflexive and transitive `R` (an unchanged field, a preserved invariant, a
growing log) it composes along the program text.
-/

namespace CoreFlow

/-- A program over the state `σ`. -/
abbrev Prog (σ α : Type) := StateT σ Option α

namespace Prog
variable {σ τ α β γ : Type}

/-- A raised exception. -/
def raise : Prog σ α := fun _ => none

/-- The current state. -/
def read : Prog σ σ := fun s => some (s, s)

/-- Replace the state. -/
def write (s : σ) : Prog σ Unit := fun _ => some ((), s)

/-- Change the state. -/
def update (f : σ → σ) : Prog σ Unit := fun s => some ((), f s)

/-- `assert p`. -/
def require (p : Prop) [Decidable p] : Prog σ Unit := fun s => if p then some ((), s) else none

/-- `if p: m`. -/
def when (p : Prop) [Decidable p] (m : Prog σ Unit) : Prog σ Unit := if p then m else pure ()

/-- A lookup that raises when it finds nothing. -/
def ofOption (o : Option α) : Prog σ α := fun s => o.map (·, s)

/-- Run a program on a part of the state. -/
def zoom (get : σ → τ) (set : σ → τ → σ) (m : Prog τ α) : Prog σ α :=
  fun s => (m (get s)).map fun (a, t) => (a, set s t)

/-- Collect the results of a program over a list. -/
def mapM (f : α → Prog σ β) : List α → Prog σ (List β)
  | [] => pure []
  | a :: as => do
    let b ← f a
    let bs ← mapM f as
    pure (b :: bs)

/-- Run a program over a list. -/
def forM (f : α → Prog σ Unit) : List α → Prog σ Unit
  | [] => pure ()
  | a :: as => do
    f a
    forM f as

/-- Thread a value through a program over a list. -/
def foldlM (f : β → α → Prog σ β) : β → List α → Prog σ β
  | b, [] => pure b
  | b, a :: as => do
    let b' ← f b a
    foldlM f b' as

/-! ## Runs that return -/

theorem bind_iff {x : Prog σ α} {f : α → Prog σ β} {s s' : σ} {b : β} :
    (x >>= f) s = some (b, s') ↔ ∃ a s₁, x s = some (a, s₁) ∧ f a s₁ = some (b, s') := by
  show (x s).bind (fun p => f p.1 p.2) = _ ↔ _
  rw [Option.bind_eq_some_iff]
  constructor
  · rintro ⟨⟨a, s₁⟩, h, h'⟩
    exact ⟨a, s₁, h, h'⟩
  · rintro ⟨a, s₁, h, h'⟩
    exact ⟨⟨a, s₁⟩, h, h'⟩

theorem pure_iff {a b : α} {s s' : σ} :
    (pure a : Prog σ α) s = some (b, s') ↔ b = a ∧ s' = s := by
  show some (a, s) = some (b, s') ↔ _
  rw [Option.some.injEq, Prod.mk.injEq, eq_comm, @eq_comm _ s]

theorem raise_iff {b : α} {s s' : σ} : (raise : Prog σ α) s = some (b, s') ↔ False := by
  simp [raise]

theorem read_iff {b s s' : σ} : (read : Prog σ σ) s = some (b, s') ↔ b = s ∧ s' = s := by
  rw [read, Option.some.injEq, Prod.mk.injEq, eq_comm, @eq_comm _ s]

theorem write_iff {t s s' : σ} {b : Unit} :
    (write t : Prog σ Unit) s = some (b, s') ↔ s' = t := by
  simp [write, eq_comm]

theorem update_iff {f : σ → σ} {s s' : σ} {b : Unit} :
    (update f : Prog σ Unit) s = some (b, s') ↔ s' = f s := by
  simp [update, eq_comm]

theorem require_iff {p : Prop} [Decidable p] {s s' : σ} {b : Unit} :
    (require p : Prog σ Unit) s = some (b, s') ↔ p ∧ s' = s := by
  by_cases h : p <;> simp [require, h, eq_comm]

theorem when_pos {p : Prop} [Decidable p] {m : Prog σ Unit} (h : p) : when p m = m := if_pos h

theorem when_neg {p : Prop} [Decidable p] {m : Prog σ Unit} (h : ¬ p) : when p m = pure () := if_neg h

theorem ofOption_iff {o : Option α} {s s' : σ} {b : α} :
    (ofOption o : Prog σ α) s = some (b, s') ↔ o = some b ∧ s' = s := by
  cases o <;> simp [ofOption, eq_comm]

theorem zoom_iff {get : σ → τ} {set : σ → τ → σ} {m : Prog τ α} {s s' : σ} {b : α} :
    zoom get set m s = some (b, s') ↔ ∃ t, m (get s) = some (b, t) ∧ s' = set s t := by
  unfold zoom
  rw [Option.map_eq_some_iff]
  constructor
  · rintro ⟨⟨a, t⟩, h, h'⟩
    obtain ⟨rfl, rfl⟩ := Prod.mk.inj h'
    exact ⟨t, h, rfl⟩
  · rintro ⟨t, h, rfl⟩
    exact ⟨(b, t), h, rfl⟩

/-! Steps that cannot go wrong, or only in one way, are taken without naming the state after them. -/

theorem pure_bind {a : α} {f : α → Prog σ β} : (pure a >>= f : Prog σ β) = f a := rfl

theorem read_bind {f : σ → Prog σ β} {s : σ} : (read >>= f) s = f s s := rfl

theorem update_bind {g : σ → σ} {f : Unit → Prog σ β} {s : σ} : (update g >>= f) s = f () (g s) := rfl

theorem bind_eq {x : Prog σ α} {f : α → Prog σ β} {s s₁ : σ} {a : α} (h : x s = some (a, s₁)) :
    (x >>= f) s = f a s₁ := by
  show (x s).bind _ = _
  rw [h]
  rfl

/-- What follows matters only where the first step returns. -/
theorem bind_congr {x : Prog σ α} {f f' : α → Prog σ β} {s : σ}
    (h : ∀ a s', x s = some (a, s') → f a s' = f' a s') : (x >>= f) s = (x >>= f') s := by
  show (x s).bind _ = (x s).bind _
  cases hx : x s with
  | none => rfl
  | some y => exact h y.1 y.2 hx

theorem require_bind {p : Prop} [Decidable p] {f : Unit → Prog σ β} {s : σ} :
    (require p >>= f) s = if p then f () s else none := by
  by_cases h : p
  · rw [if_pos h]
    show Option.bind (if p then _ else _) _ = _
    rw [if_pos h]
    rfl
  · rw [if_neg h]
    show Option.bind (if p then _ else _) _ = _
    rw [if_neg h]
    rfl

theorem ofOption_bind {o : Option α} {f : α → Prog σ β} {s : σ} :
    (ofOption o >>= f) s = o.bind fun a => f a s := by
  cases o <;> rfl

theorem bind_assoc {x : Prog σ α} {f : α → Prog σ β} {g : β → Prog σ γ} :
    (x >>= f) >>= g = x >>= fun a => f a >>= g := by
  funext s
  show ((x s).bind fun p => f p.1 p.2).bind _ = (x s).bind _
  cases x s <;> rfl

theorem forM_nil_iff {f : α → Prog σ Unit} {s s' : σ} {b : Unit} :
    forM f [] s = some (b, s') ↔ s' = s := by
  simp [forM, pure_iff]

theorem forM_cons_iff {f : α → Prog σ Unit} {a : α} {as : List α} {s s' : σ} {b : Unit} :
    forM f (a :: as) s = some (b, s') ↔
      ∃ s₁, f a s = some ((), s₁) ∧ forM f as s₁ = some (b, s') := by
  rw [forM, bind_iff]
  constructor
  · rintro ⟨_, s₁, h⟩
    exact ⟨s₁, h⟩
  · rintro ⟨s₁, h⟩
    exact ⟨(), s₁, h⟩

theorem foldlM_nil_iff {f : β → α → Prog σ β} {b b' : β} {s s' : σ} :
    foldlM f b [] s = some (b', s') ↔ b' = b ∧ s' = s := by
  simp [foldlM, pure_iff]

theorem foldlM_cons_iff {f : β → α → Prog σ β} {b b' : β} {a : α} {as : List α} {s s' : σ} :
    foldlM f b (a :: as) s = some (b', s') ↔
      ∃ b₁ s₁, f b a s = some (b₁, s₁) ∧ foldlM f b₁ as s₁ = some (b', s') := by
  rw [foldlM, bind_iff]

theorem mapM_cons_iff {f : α → Prog σ β} {a : α} {as : List α} {bs : List β} {s s' : σ} :
    mapM f (a :: as) s = some (bs, s') ↔
      ∃ b s₁ bs', f a s = some (b, s₁) ∧ mapM f as s₁ = some (bs', s') ∧ bs = b :: bs' := by
  simp only [mapM, bind_iff, pure_iff]
  constructor
  · rintro ⟨b, s₁, h, bs', s₂, h', rfl, rfl⟩
    exact ⟨b, s₁, bs', h, h', rfl⟩
  · rintro ⟨b, s₁, bs', h, h', rfl⟩
    exact ⟨b, s₁, h, bs', s', h', rfl, rfl⟩

/-- What every result keeps of its argument, the list of results keeps of the list. -/
theorem mapM_map_eq {f : α → Prog σ β} {k : α → γ} {g : β → γ}
    (hf : ∀ a s b s', f a s = some (b, s') → g b = k a) {as : List α} {bs : List β} {s s' : σ}
    (h : mapM f as s = some (bs, s')) : bs.map g = as.map k := by
  induction as generalizing bs s with
  | nil =>
    obtain ⟨rfl, -⟩ := pure_iff.mp h
    rfl
  | cons a as ih =>
    obtain ⟨b, s₁, bs', h₁, h₂, rfl⟩ := mapM_cons_iff.mp h
    rw [List.map_cons, List.map_cons, ih h₂, hf _ _ _ _ h₁]

theorem mapM_length {f : α → Prog σ β} {as : List α} {bs : List β} {s s' : σ} (h : mapM f as s = some (bs, s')) :
    bs.length = as.length := by
  have := congrArg List.length (mapM_map_eq (k := fun _ => ()) (g := fun _ => ()) (fun _ _ _ _ _ => rfl) h)
  rwa [List.length_map, List.length_map] at this

/-- What holds of every argument and its result, where an invariant of the state helps. -/
theorem mapM_forall₂ {f : α → Prog σ β} (I : σ → Prop) (Q : α → β → Prop)
    (hf : ∀ a s b s', I s → f a s = some (b, s') → I s' ∧ Q a b) {as : List α} {bs : List β} {s s' : σ}
    (h : mapM f as s = some (bs, s')) (h0 : I s) : I s' ∧ List.Forall₂ Q as bs := by
  induction as generalizing bs s with
  | nil =>
    obtain ⟨rfl, rfl⟩ := pure_iff.mp h
    exact ⟨h0, .nil⟩
  | cons a as ih =>
    obtain ⟨b, s₁, bs', h₁, h₂, rfl⟩ := mapM_cons_iff.mp h
    obtain ⟨i₁, hq⟩ := hf a s b s₁ h0 h₁
    obtain ⟨i', hqs⟩ := ih h₂ i₁
    exact ⟨i', .cons hq hqs⟩

theorem exists_left_of_forall₂ {R : α → β → Prop} {as : List α} {bs : List β} {b : β} (h : List.Forall₂ R as bs)
    (hb : b ∈ bs) : ∃ a ∈ as, R a b := by
  induction h with
  | nil => cases hb
  | cons hr _ ih =>
    rcases List.mem_cons.mp hb with rfl | hb
    · exact ⟨_, List.mem_cons_self .., hr⟩
    · obtain ⟨a, ha, hr⟩ := ih hb
      exact ⟨a, List.mem_cons_of_mem _ ha, hr⟩

theorem exists_right_of_forall₂ {R : α → β → Prop} {as : List α} {bs : List β} {a : α} (h : List.Forall₂ R as bs)
    (ha : a ∈ as) : ∃ b ∈ bs, R a b := exists_left_of_forall₂ h.flip ha

theorem forall₂_join {R : α → β → Prop} {S : α → γ → Prop} {T : β → γ → Prop} (hT : ∀ a b c, R a b → S a c → T b c)
    {as : List α} {bs : List β} {cs : List γ} (h : List.Forall₂ R as bs) (h' : List.Forall₂ S as cs) :
    List.Forall₂ T bs cs := by
  induction h generalizing cs with
  | nil =>
    cases h'
    exact .nil
  | cons hr _ ih =>
    cases h' with
    | cons hs hss => exact .cons (hT _ _ _ hr hs) (ih hss)

theorem mapM_forall {f : α → Prog σ β} (I : σ → Prop) (Q : α → β → Prop)
    (hf : ∀ a s b s', I s → f a s = some (b, s') → I s' ∧ Q a b) {as : List α} {bs : List β} {s s' : σ}
    (h : mapM f as s = some (bs, s')) (h0 : I s) : ∀ b ∈ bs, ∃ a ∈ as, Q a b :=
  fun _ hb => exists_left_of_forall₂ (mapM_forall₂ I Q hf h h0).2 hb

/-! ## Loops -/

/-- A loop keeps an invariant indexed by what is still to do. -/
theorem forM_invariant {f : α → Prog σ Unit} (I : List α → σ → Prop)
    (step : ∀ a as s s', I (a :: as) s → f a s = some ((), s') → I as s')
    {as : List α} {s s' : σ} {b : Unit} (h : forM f as s = some (b, s')) (h0 : I as s) : I [] s' := by
  induction as generalizing s with
  | nil => rw [forM_nil_iff.mp h]; exact h0
  | cons a as ih =>
    obtain ⟨s₁, h₁, h₂⟩ := forM_cons_iff.mp h
    exact ih h₂ (step a as s s₁ h0 h₁)

theorem mapM_invariant {f : α → Prog σ β} (I : List α → σ → Prop)
    (step : ∀ a as s b s', I (a :: as) s → f a s = some (b, s') → I as s')
    {as : List α} {bs : List β} {s s' : σ} (h : mapM f as s = some (bs, s')) (h0 : I as s) : I [] s' := by
  induction as generalizing bs s with
  | nil =>
    obtain ⟨-, rfl⟩ := pure_iff.mp h
    exact h0
  | cons a as ih =>
    obtain ⟨b, s₁, bs', h₁, h₂, -⟩ := mapM_cons_iff.mp h
    exact ih h₂ (step a as s b s₁ h0 h₁)

/-- A fold keeps an invariant indexed by its accumulator and by what is still to do. -/
theorem foldlM_invariant {f : β → α → Prog σ β} (I : β → List α → σ → Prop)
    (step : ∀ b a as s b' s', I b (a :: as) s → f b a s = some (b', s') → I b' as s')
    {b b' : β} {as : List α} {s s' : σ} (h : foldlM f b as s = some (b', s')) (h0 : I b as s) :
    I b' [] s' := by
  induction as generalizing s b with
  | nil =>
    obtain ⟨rfl, rfl⟩ := foldlM_nil_iff.mp h
    exact h0
  | cons a as ih =>
    obtain ⟨b₁, s₁, h₁, h₂⟩ := foldlM_cons_iff.mp h
    exact ih h₂ (step b a as s b₁ s₁ h0 h₁)

/-! ## Programs that do not look at a part of the state -/

/-- `m` runs the same, and leaves the same, after the change `u`. -/
def Ignores (u : σ → σ) (m : Prog σ α) : Prop := ∀ s, m (u s) = (m s).map fun x => (x.1, u x.2)

namespace Ignores
variable {u : σ → σ}

theorem pure (a : α) : Ignores u (pure a : Prog σ α) := fun _ => rfl

theorem ofOption (o : Option α) : Ignores u (ofOption o : Prog σ α) := by
  intro s
  cases o <;> rfl

theorem bind {x : Prog σ α} {f : α → Prog σ β} (hx : Ignores u x) (hf : ∀ a, Ignores u (f a)) :
    Ignores u (x >>= f) := by
  intro s
  show (x (u s)).bind _ = ((x s).bind fun y => f y.1 y.2).map _
  rw [hx s]
  cases x s with
  | none => rfl
  | some y => exact hf y.1 y.2

theorem mapM {f : α → Prog σ β} (hf : ∀ a, Ignores u (f a)) (as : List α) : Ignores u (mapM f as) := by
  induction as with
  | nil => exact Ignores.pure []
  | cons a as ih => exact Ignores.bind (hf a) fun b => Ignores.bind ih fun bs => Ignores.pure _

end Ignores

/-! ## Relations between the state before and the state after -/

/-- What held before holds after. -/
def Preserves (I : σ → Prop) (s s' : σ) : Prop := I s → I s'

instance (I : σ → Prop) : IsPreorder σ (Preserves I) where
  refl _ h := h
  trans _ _ _ h h' i := h' (h i)

/-- Every run of `m` that returns relates the two states by `R`. -/
def Within (R : σ → σ → Prop) (m : Prog σ α) : Prop :=
  ∀ s a s', m s = some (a, s') → R s s'

namespace Within
variable {R : σ → σ → Prop}

theorem mono {R' : σ → σ → Prop} {m : Prog σ α} (h : Within R m) (hR : ∀ s s', R s s' → R' s s') :
    Within R' m := fun s a s' hs => hR s s' (h s a s' hs)

theorem raise : Within R (raise : Prog σ α) := fun _ _ _ h => (raise_iff.mp h).elim

theorem update {f : σ → σ} (h : ∀ s, R s (f s)) : Within R (update f) := by
  intro s b s' hs
  rw [update_iff.mp hs]
  exact h s

theorem ite {c : Prop} [Decidable c] {x y : Prog σ α} (hx : Within R x) (hy : Within R y) :
    Within R (if c then x else y) := by
  split
  · exact hx
  · exact hy

theorem zoom {get : σ → τ} {set : σ → τ → σ} {Q : τ → τ → Prop} {m : Prog τ α} (hm : Within Q m)
    (h : ∀ s t, Q (get s) t → R s (set s t)) : Within R (zoom get set m) := by
  intro s a s' hs
  obtain ⟨t, ht, rfl⟩ := zoom_iff.mp hs
  exact h s t (hm (get s) a t ht)

/-- A relation that no change of the part can break. -/
theorem zoom_any {get : σ → τ} {set : σ → τ → σ} {m : Prog τ α} (h : ∀ s t, R s (set s t)) :
    Within R (Prog.zoom get set m) := by
  intro s a s' hs
  obtain ⟨t, -, rfl⟩ := zoom_iff.mp hs
  exact h s t

section
variable [IsPreorder σ R]

theorem pure (a : α) : Within R (pure a : Prog σ α) := by
  intro s b s' h
  rw [(pure_iff.mp h).2]
  exact refl s

theorem read : Within R (read : Prog σ σ) := by
  intro s b s' h
  rw [(read_iff.mp h).2]
  exact refl s

theorem require (p : Prop) [Decidable p] : Within R (require p) := by
  intro s b s' h
  rw [(require_iff.mp h).2]
  exact refl s

theorem ofOption (o : Option α) : Within R (ofOption o) := by
  intro s b s' h
  rw [(ofOption_iff.mp h).2]
  exact refl s

theorem when {c : Prop} [Decidable c] {x : Prog σ Unit} (hx : Within R x) :
    Within R (when c x) := .ite hx (.pure _)

theorem bind {x : Prog σ α} {f : α → Prog σ β} (hx : Within R x) (hf : ∀ a, Within R (f a)) :
    Within R (x >>= f) := by
  intro s b s' h
  obtain ⟨a, s₁, h₁, h₂⟩ := bind_iff.mp h
  exact IsTrans.trans s s₁ s' (hx s a s₁ h₁) (hf a s₁ b s' h₂)

theorem forM {f : α → Prog σ Unit} (hf : ∀ a, Within R (f a)) (as : List α) :
    Within R (forM f as) := by
  induction as with
  | nil => exact Within.pure ()
  | cons a as ih => exact Within.bind (hf a) fun _ => ih

theorem mapM {f : α → Prog σ β} (hf : ∀ a, Within R (f a)) (as : List α) :
    Within R (mapM f as) := by
  induction as with
  | nil => exact Within.pure []
  | cons a as ih =>
    exact Within.bind (hf a) fun b => Within.bind ih fun bs => Within.pure _

theorem foldlM {f : β → α → Prog σ β} (hf : ∀ b a, Within R (f b a)) (b : β) (as : List α) :
    Within R (foldlM f b as) := by
  induction as generalizing b with
  | nil => exact Within.pure b
  | cons a as ih => exact Within.bind (hf b a) fun b' => ih b'

end

end Within

end Prog

end CoreFlow
