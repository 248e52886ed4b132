import CoreFlow.Lib.Prog

/-!
# Programs whose answer is a function

`Computes I m r` says that from every state with the invariant `I` the program `m` answers `r`, raising when there
is no `r`, and keeps the invariant. It is how a program that remembers earlier answers is compared with the function
that it remembers; it composes along the program text.
-/

namespace CoreFlow.Prog
variable {σ α β : Type} {I : σ → Prop}

def Computes (I : σ → Prop) (m : Prog σ α) (r : Option α) : Prop :=
  ∀ s, I s → ∃ s', I s' ∧ m s = r.map fun a => (a, s')

namespace Computes

theorem pure (a : α) : Computes I (Pure.pure a : Prog σ α) (some a) := fun s h => ⟨s, h, rfl⟩

theorem ofOption (o : Option α) : Computes I (ofOption o : Prog σ α) o := fun s h => ⟨s, h, rfl⟩

theorem bind {m : Prog σ α} {r : Option α} {f : α → Prog σ β} {g : α → Option β} (h : Computes I m r)
    (hf : ∀ a, Computes I (f a) (g a)) : Computes I (m >>= f) (r.bind g) := by
  intro s hs
  obtain ⟨s₁, hs₁, heq⟩ := h s hs
  cases r with
  | none =>
    refine ⟨s, hs, ?_⟩
    show (m s).bind _ = none
    rw [heq]
    rfl
  | some a =>
    obtain ⟨s₂, hs₂, heq₂⟩ := hf a s₁ hs₁
    refine ⟨s₂, hs₂, ?_⟩
    rw [bind_eq heq, heq₂]
    rfl

theorem mapM {f : α → Prog σ β} {g : α → Option β} (hf : ∀ a, Computes I (f a) (g a)) (as : List α) :
    Computes I (mapM f as) (as.mapM g) := by
  induction as with
  | nil => exact pure []
  | cons a as ih =>
    rw [List.mapM_cons]
    exact bind (hf a) fun b => bind ih fun bs => pure (b :: bs)

theorem foldlM {f : β → α → Prog σ β} {g : β → α → Option β} (hf : ∀ b a, Computes I (f b a) (g b a)) (b : β)
    (as : List α) : Computes I (foldlM f b as) (as.foldlM g b) := by
  induction as generalizing b with
  | nil => exact pure b
  | cons a as ih =>
    rw [List.foldlM_cons]
    exact bind (hf b a) fun b' => ih b'

end Computes

end CoreFlow.Prog
