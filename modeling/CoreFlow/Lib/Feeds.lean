import Mathlib.Logic.Function.Basic

/-!
# Append-only feeds

A server opens a feed for a request, appends items to the feeds that are open, and closes them with an outcome. Its
clients see what is opened and emitted; a feed is closed silently. `Steps v trace v'` says that the server can go
from `v` to `v'` while its clients see `trace`, so a program refines the server when each of its runs does.
-/

namespace CoreFlow

/-- A feed is open until it has an outcome. -/
structure Feed (ρ τ ω : Type) where
  request : ρ
  items : List τ
  outcome : Option ω

inductive FeedEvent (κ ρ τ : Type) where
  | opened (id : κ) (request : ρ)
  | emitted (id : κ) (item : τ)
deriving DecidableEq

abbrev FeedServer (κ ρ τ ω : Type) := κ → Option (Feed ρ τ ω)

namespace FeedServer
variable {κ ρ τ ω : Type} [DecidableEq κ]

def empty : FeedServer κ ρ τ ω := fun _ => none

/-- What the server can do, with what its clients see of it. -/
inductive Step : FeedServer κ ρ τ ω → List (FeedEvent κ ρ τ) → FeedServer κ ρ τ ω → Prop
  | opened {v : FeedServer κ ρ τ ω} {id : κ} (request : ρ) (h : v id = none) :
    Step v [.opened id request] (Function.update v id (some ⟨request, [], none⟩))
  | emitted {v : FeedServer κ ρ τ ω} {id : κ} {feed : Feed ρ τ ω} (item : τ) (h : v id = some feed)
    (isOpen : feed.outcome = none) :
    Step v [.emitted id item] (Function.update v id (some { feed with items := feed.items ++ [item] }))
  | closed {v : FeedServer κ ρ τ ω} {id : κ} {feed : Feed ρ τ ω} (outcome : ω) (h : v id = some feed)
    (isOpen : feed.outcome = none) :
    Step v [] (Function.update v id (some { feed with outcome := some outcome }))

inductive Steps : FeedServer κ ρ τ ω → List (FeedEvent κ ρ τ) → FeedServer κ ρ τ ω → Prop
  | refl (v : FeedServer κ ρ τ ω) : Steps v [] v
  | tail {v v₁ v₂ : FeedServer κ ρ τ ω} {trace seen : List (FeedEvent κ ρ τ)} (h : Steps v trace v₁)
    (step : Step v₁ seen v₂) : Steps v (trace ++ seen) v₂

/-- The requests for which a feed was opened. -/
def requestsOf (id : κ) (trace : List (FeedEvent κ ρ τ)) : List ρ :=
  trace.filterMap fun
    | .opened id' request => if id' = id then some request else none
    | .emitted _ _ => none

/-- The items that were emitted on a feed. -/
def itemsOf (id : κ) (trace : List (FeedEvent κ ρ τ)) : List τ :=
  trace.filterMap fun
    | .opened _ _ => none
    | .emitted id' item => if id' = id then some item else none

section
variable {v v' v₁ v₂ : FeedServer κ ρ τ ω} {trace trace' seen : List (FeedEvent κ ρ τ)} {id : κ}
  {feed : Feed ρ τ ω}

theorem Step.steps (h : Step v seen v') : Steps v seen v' := (Steps.refl v).tail h

theorem Steps.trans (h : Steps v trace v₁) (h' : Steps v₁ trace' v₂) : Steps v (trace ++ trace') v₂ := by
  induction h' with
  | refl => rwa [List.append_nil]
  | tail _ step ih =>
    rw [← List.append_assoc]
    exact ih.tail step

/-- What is not seen can follow. -/
theorem Steps.closes (h : Steps v trace v₁) (h' : Steps v₁ [] v₂) : Steps v trace v₂ := by
  have all := h.trans h'
  rwa [List.append_nil] at all

theorem requestsOf_append : requestsOf id (trace ++ trace') = requestsOf id trace ++ requestsOf id trace' :=
  List.filterMap_append

theorem itemsOf_append : itemsOf id (trace ++ trace') = itemsOf id trace ++ itemsOf id trace' :=
  List.filterMap_append

/-- A step keeps the feeds that exist: items are appended while a feed is open. -/
theorem Step.grows (h : Step v seen v') (hid : v id = some feed) : requestsOf id seen = [] ∧
    ∃ feed', v' id = some feed' ∧ feed'.request = feed.request ∧ feed'.items = feed.items ++ itemsOf id seen ∧
      (feed.outcome ≠ none → feed' = feed) := by
  cases h with
  | @opened id₁ request h =>
    have hne : id₁ ≠ id := by
      rintro rfl
      rw [h] at hid
      cases hid
    refine ⟨by simp [requestsOf, hne], feed, ?_, rfl, by simp [itemsOf], fun _ => rfl⟩
    rw [Function.update_of_ne hne.symm, hid]
  | @emitted id₁ feed₁ item h isOpen =>
    by_cases hne : id₁ = id
    · subst hne
      obtain rfl := Option.some.inj (h.symm.trans hid)
      refine ⟨by simp [requestsOf], _, Function.update_self .., rfl, by simp [itemsOf], fun hclosed => ?_⟩
      exact absurd isOpen hclosed
    · refine ⟨by simp [requestsOf], feed, ?_, rfl, by simp [itemsOf, hne], fun _ => rfl⟩
      rw [Function.update_of_ne (Ne.symm hne), hid]
  | @closed id₁ feed₁ outcome h isOpen =>
    by_cases hne : id₁ = id
    · subst hne
      obtain rfl := Option.some.inj (h.symm.trans hid)
      refine ⟨rfl, _, Function.update_self .., rfl, by simp [itemsOf], fun hclosed => ?_⟩
      exact absurd isOpen hclosed
    · refine ⟨rfl, feed, ?_, rfl, by simp [itemsOf], fun _ => rfl⟩
      rw [Function.update_of_ne (Ne.symm hne), hid]

/-- A step makes no feed that is not opened. -/
theorem Step.opens (h : Step v seen v') (hid : v id = none) : itemsOf id seen = [] ∧
    (v' id = none ∧ requestsOf id seen = [] ∨
      ∃ request, v' id = some ⟨request, [], none⟩ ∧ requestsOf id seen = [request]) := by
  cases h with
  | @opened id₁ request h =>
    refine ⟨by simp [itemsOf], ?_⟩
    by_cases hne : id₁ = id
    · subst hne
      exact .inr ⟨request, Function.update_self .., by simp [requestsOf]⟩
    · refine .inl ⟨?_, by simp [requestsOf, hne]⟩
      rw [Function.update_of_ne (Ne.symm hne), hid]
  | @emitted id₁ feed₁ item h isOpen =>
    have hne : id₁ ≠ id := by
      rintro rfl
      rw [h] at hid
      cases hid
    refine ⟨by simp [itemsOf, hne], .inl ⟨?_, by simp [requestsOf]⟩⟩
    rw [Function.update_of_ne hne.symm, hid]
  | @closed id₁ feed₁ outcome h isOpen =>
    have hne : id₁ ≠ id := by
      rintro rfl
      rw [h] at hid
      cases hid
    refine ⟨rfl, .inl ⟨?_, rfl⟩⟩
    rw [Function.update_of_ne hne.symm, hid]

/-- A feed keeps its request and its items, gets the items that are emitted, and does not change once it is closed. -/
theorem Steps.grows (h : Steps v trace v') (hid : v id = some feed) : requestsOf id trace = [] ∧
    ∃ feed', v' id = some feed' ∧ feed'.request = feed.request ∧ feed'.items = feed.items ++ itemsOf id trace ∧
      (feed.outcome ≠ none → feed' = feed) := by
  induction h with
  | refl => exact ⟨rfl, feed, hid, rfl, (List.append_nil _).symm, fun _ => rfl⟩
  | tail _ step ih =>
    obtain ⟨hopen, feed₁, h₁, hrequest, hitems, hclosed⟩ := ih
    obtain ⟨hopen', feed₂, h₂, hrequest', hitems', hclosed'⟩ := step.grows h₁
    refine ⟨?_, feed₂, h₂, hrequest'.trans hrequest, ?_, fun hne => ?_⟩
    · rw [requestsOf_append, hopen, hopen', List.append_nil]
    · rw [hitems', hitems, List.append_assoc, itemsOf_append]
    · obtain rfl := hclosed hne
      exact hclosed' hne

/-- What a server that started empty holds is what was opened and emitted: each feed was opened once. -/
theorem Steps.of_empty (h : Steps empty trace v) (id : κ) :
    (v id = none → requestsOf id trace = [] ∧ itemsOf id trace = []) ∧
      ∀ feed, v id = some feed → requestsOf id trace = [feed.request] ∧ itemsOf id trace = feed.items := by
  generalize hv₀ : (empty : FeedServer κ ρ τ ω) = v₀ at h
  induction h with
  | refl =>
    subst hv₀
    exact ⟨fun _ => ⟨rfl, rfl⟩, fun feed hid => nomatch hid⟩
  | @tail v₁ v₂ trace seen _ step ih =>
    obtain ⟨hnone, hsome⟩ := ih
    simp only [requestsOf_append, itemsOf_append]
    cases h₁ : v₁ id with
    | none =>
      obtain ⟨hrequests, hitems⟩ := hnone h₁
      obtain ⟨hseen, ⟨h₂, hopen⟩ | ⟨request, h₂, hopen⟩⟩ := step.opens h₁
      · rw [hrequests, hitems, hseen, hopen, h₂]
        exact ⟨fun _ => ⟨rfl, rfl⟩, fun feed hid => nomatch hid⟩
      · rw [hrequests, hitems, hseen, hopen, h₂]
        refine ⟨fun hid => (nomatch hid), fun feed hid => ?_⟩
        obtain rfl := Option.some.inj hid
        exact ⟨rfl, rfl⟩
    | some feed₁ =>
      obtain ⟨hrequests, hitems⟩ := hsome feed₁ h₁
      obtain ⟨hopen, feed₂, h₂, hrequest, hitems₂, -⟩ := step.grows h₁
      rw [hrequests, hitems, hopen, h₂]
      refine ⟨fun hid => (nomatch hid), fun feed hid => ?_⟩
      obtain rfl := Option.some.inj hid
      rw [hrequest, hitems₂]
      exact ⟨rfl, rfl⟩

end

end FeedServer

end CoreFlow
