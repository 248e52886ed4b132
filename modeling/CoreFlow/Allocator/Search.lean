import CoreFlow.Allocator.CallDomain
import CoreFlow.Lib.Halving

/-!
# What the search for the throughput finds

A pass of the search moves the lower bound exactly when the rate at the midpoint is sustained: its swaps
and prefills leave a part of the second, and the tokens that are decoded in it exceed the demand. So the
search is a halving, and the rate it returns is sustained, while the one a step above it is not.
-/

namespace CoreFlow
open Halving (Ends halve)

namespace Analysis
section
variable (a : Analysis) (maxBatch : Int) (rate : ℚ)

/-- The prediction, which the predictor always makes. -/
def latency (call : PredictCall) : ℚ := (call.predictLatency a.models).getD 0

theorem predictLatency_eq (call : PredictCall) : call.predictLatency a.models = some (a.latency call) := by
  obtain ⟨latency, h⟩ := PredictCall.predictLatency_returns a.models call
  rw [Analysis.latency, h, Option.getD_some]

def timeSwap : ℚ := rate * a.estimator.swapLatency

def prefillLatency : ℚ := a.latency (a.prefillCall (a.batchAt maxBatch rate))

def decodeLatency : ℚ := a.latency (a.decodeCall (a.batchAt maxBatch rate))

/-- The expected chunks of a second, each with its latency. -/
def timePrefill : ℚ := a.stats.prompt * rate / a.estimator.chunkSize * a.prefillLatency maxBatch rate

/-- The tokens that are decoded in a second, during the swaps and the prefills and in what they leave. -/
def tokensPerSec : Int :=
  let others := truncInt (a.batchAt maxBatch rate - rate)
  others * ⌊a.timeSwap rate / max (a.decodeLatency maxBatch rate) tiny⌋ +
    others * ⌊a.timePrefill maxBatch rate / max (a.prefillLatency maxBatch rate) tiny⌋ +
    max 0 ⌊(1 - a.timePrefill maxBatch rate - a.timeSwap rate) / max (a.decodeLatency maxBatch rate) tiny⌋ *
      a.batchAt maxBatch rate

/-- An instance keeps up with a request rate. -/
structure Sustains : Prop where
  swaps : a.timeSwap rate < 1
  prefills : a.timePrefill maxBatch rate < 1 - a.timeSwap rate
  decodes : a.stats.decode * rate < a.tokensPerSec maxBatch rate

end

section
variable {a : Analysis} {maxBatch : Int} {s : SearchState}

open Classical in
/-- A pass keeps the half at whose lower end the rate is sustained. -/
theorem searchStep_half (h : a.WellFormed) (hmax : 1 ≤ maxBatch) (hmid : 0 < s.mid) :
    ∃ calls, a.searchStep maxBatch s =
      some (if a.Sustains maxBatch s.mid then { s with left := s.mid } else { s with right := s.mid }, calls) := by
  have hbatch : ¬ a.batchAt maxBatch s.mid < 1 := not_lt.mpr (one_le_batchAt h hmax hmid)
  unfold searchStep
  dsimp only
  by_cases hswap : a.timeSwap s.mid < 1
  · have hmin : min (s.mid * a.estimator.swapLatency) 1 = a.timeSwap s.mid := min_eq_left hswap.le
    rw [hmin, if_neg (not_le.mpr hswap), batchSize_eq h]
    dsimp only [Option.bind_eq_bind, Option.bind_some]
    rw [if_neg hbatch, predictLatency_eq]
    dsimp only [Option.bind_some]
    by_cases hprefill : a.timePrefill maxBatch s.mid < 1 - a.timeSwap s.mid
    · have hmin' : min (a.stats.prompt * s.mid / a.estimator.chunkSize *
          a.latency (a.prefillCall (a.batchAt maxBatch s.mid))) (1 - a.timeSwap s.mid) = a.timePrefill maxBatch s.mid :=
        min_eq_left hprefill.le
      rw [hmin', if_neg (not_le.mpr hprefill), predictLatency_eq]
      dsimp only [Option.bind_some]
      rw [pyFloorDiv_of_pos _ (lt_max_of_lt_right tiny_pos), pyFloorDiv_of_pos _ (lt_max_of_lt_right tiny_pos),
        pyFloorDiv_of_pos _ (lt_max_of_lt_right tiny_pos)]
      dsimp only [Option.bind_some]
      split
      · next hdecode =>
        rw [if_pos ⟨hswap, hprefill, hdecode⟩]
        exact ⟨_, rfl⟩
      · next hdecode =>
        rw [if_neg fun hs => hdecode hs.decodes]
        exact ⟨_, rfl⟩
    · have hmin' : min (a.stats.prompt * s.mid / a.estimator.chunkSize *
          a.latency (a.prefillCall (a.batchAt maxBatch s.mid))) (1 - a.timeSwap s.mid) = 1 - a.timeSwap s.mid :=
        min_eq_right (not_lt.mp hprefill)
      rw [hmin', if_pos (le_refl _), if_neg fun hs => hprefill hs.prefills]
      exact ⟨_, rfl⟩
  · have hmin : 1 ≤ min (s.mid * a.estimator.swapLatency) 1 := le_min (not_lt.mp hswap) (le_refl 1)
    rw [if_pos hmin, if_neg fun hs => hswap hs.swaps]
    exact ⟨_, rfl⟩

open Classical in
/-- The search halves its interval. -/
theorem search_halve (h : a.WellFormed) (hmax : 1 ≤ maxBatch) (n : Nat) (hs : s.Proper) :
    ∃ last calls, a.search maxBatch n s = some (last, calls) ∧
      halve (a.Sustains maxBatch) n ⟨s.left, s.right⟩ = ⟨last.left, last.right⟩ := by
  induction n generalizing s with
  | zero => exact ⟨s, [], rfl, rfl⟩
  | succ n ih =>
    obtain ⟨calls, hstep⟩ := searchStep_half h hmax hs.mid_pos
    have hmid : (Ends.mk s.left s.right).mid = s.mid := rfl
    rw [halve, Ends.half, hmid]
    by_cases hsustains : a.Sustains maxBatch s.mid
    · rw [if_pos hsustains] at hstep ⊢
      obtain ⟨last, others, hrest, hends⟩ := ih (hs.half (.inr rfl)).1
      refine ⟨last, calls ++ others, ?_, hends⟩
      rw [search, hstep]
      dsimp only [Option.bind_eq_bind, Option.bind_some]
      rw [hrest]
      rfl
    · rw [if_neg hsustains] at hstep ⊢
      obtain ⟨last, others, hrest, hends⟩ := ih (hs.half (.inl rfl)).1
      refine ⟨last, calls ++ others, ?_, hends⟩
      rw [search, hstep]
      dsimp only [Option.bind_eq_bind, Option.bind_some]
      rw [hrest]
      rfl

end

/-- The rates that a search tells apart. -/
def rateStep : ℚ := 20 / 2 ^ 20

/-- What the search returns. -/
structure FoundRate (a : Analysis) (maxBatch : Int) (rate : ℚ) : Prop where
  nonneg : 0 ≤ rate
  sustained : rate = 0 ∨ a.Sustains maxBatch rate
  next : rate + rateStep = 20 ∨ ¬ a.Sustains maxBatch (rate + rateStep)
  /-- Where a lower rate is sustained whenever a higher one is, no sustained rate is a step higher. -/
  greatest : (∀ x y, 0 < x → x ≤ y → a.Sustains maxBatch y → a.Sustains maxBatch x) →
    ∀ x, 0 < x → x < 20 → a.Sustains maxBatch x → x < rate + rateStep

/-- The search from the start. -/
theorem search_found {a : Analysis} {maxBatch : Int} (h : a.WellFormed) (hmax : 1 ≤ maxBatch) :
    ∃ last calls, a.search maxBatch 20 ⟨0, 20⟩ = some (last, calls) ∧ a.FoundRate maxBatch last.left := by
  classical
  obtain ⟨last, calls, hsearch, hends⟩ := search_halve h hmax 20 proper_start
  have hwidth : Ends.width (halve (a.Sustains maxBatch) 20 ⟨0, 20⟩) = Ends.width ⟨0, 20⟩ / 2 ^ 20 := Halving.width_halve 20 _
  have changes : Halving.Changes (a.Sustains maxBatch) ⟨0, 20⟩ (halve (a.Sustains maxBatch) 20 ⟨0, 20⟩) :=
    Halving.changes_halve 20 _
  have hstart : (Ends.mk (0 : ℚ) 20).left ≤ (Ends.mk (0 : ℚ) 20).right := by norm_num
  have hleft : (0 : ℚ) ≤ (halve (a.Sustains maxBatch) 20 ⟨0, 20⟩).left := Halving.left_le_halve 20 hstart
  have hgreatest (down : ∀ x y, 0 < x → x ≤ y → a.Sustains maxBatch y → a.Sustains maxBatch x) (x : ℚ) (hpos : 0 < x)
      (hlt : x < 20) (hx : a.Sustains maxBatch x) : x < (halve (a.Sustains maxBatch) 20 ⟨0, 20⟩).right :=
    Halving.lt_right_of_test 20 down hpos hlt hx
  rw [hends] at hwidth changes hleft hgreatest
  have hright : last.right = last.left + rateStep := by
    simp only [Ends.width, sub_zero] at hwidth
    rw [rateStep, ← hwidth]
    ring
  rw [hright] at changes hgreatest
  exact ⟨last, calls, hsearch, hleft, changes.left, changes.right, hgreatest⟩

/-- For requests that have a length the search finds a rate that the instance sustains, the next one up
not being sustained; for others the capacity is divided by zero. -/
theorem analyzeThroughput_found (a : Analysis) (h : a.WellFormed) (instanceMemTokens : Int) :
    (a.stats.avgLength = 0 → a.analyzeThroughput instanceMemTokens = none) ∧
    (a.stats.avgLength ≠ 0 → ∃ rate calls, a.analyzeThroughput instanceMemTokens = some (rate, calls) ∧
      a.FoundRate (a.slots instanceMemTokens) rate) := by
  unfold analyzeThroughput Analysis.maxBatch
  constructor
  · intro hzero
    rw [hzero, Int.cast_zero, pyFloorDiv, pyDiv, if_pos rfl]
    rfl
  · intro hne
    have hpos : (0 : ℚ) < a.stats.avgLength := by
      exact_mod_cast lt_of_le_of_ne h.avgLength_nonneg (Ne.symm hne)
    obtain ⟨last, calls, hsearch, found⟩ := search_found h (one_le_slots a instanceMemTokens)
    rw [pyFloorDiv_of_pos _ hpos]
    dsimp only [Option.bind_eq_bind, Option.bind_some]
    rw [slots] at hsearch
    rw [hsearch]
    exact ⟨last.left, calls, rfl, found⟩

/-- A call of half a thousand tokens, on profiles of a millisecond. -/
theorem analyzeThroughput_found_flat : ∃ rate calls,
    (Analysis.mk ⟨512, 1 / 10⟩ flatModels 32 ⟨640, 512, 128, 0⟩ true).analyzeThroughput 100000 = some (rate, calls) ∧
    (Analysis.mk ⟨512, 1 / 10⟩ flatModels 32 ⟨640, 512, 128, 0⟩ true).FoundRate 173 rate := by
  have hslots : (Analysis.mk ⟨512, 1 / 10⟩ flatModels 32 ⟨640, 512, 128, 0⟩ true).slots 100000 = 173 := by
    decide +kernel
  have found := (analyzeThroughput_found ⟨⟨512, 1 / 10⟩, flatModels, 32, ⟨640, 512, 128, 0⟩, true⟩
    ⟨by decide, by decide, by decide, by decide, by decide⟩ 100000).2 (by decide)
  rwa [hslots] at found

end Analysis

end CoreFlow
