import CoreFlow.Scheduler.Copies

/-!
# A step copies one way

Blocks are swapped in for prefills only, and both policies skip the prefills while a copy to the CPU
is due. `schedule` appends the pending copies after the assertion of `SchedulerOutputs`, so the list
has to be empty whenever a prefill is admitted. No assumption is made on `callback`: it may finish any
group and make any copy pending.
-/

namespace CoreFlow
open Prog

namespace SchedM
variable {p : SchedulerParams} {s s' : Scheduler} {callback : Option (RequestId → SchedM Unit)}

/-- Swap-ins come with a prefill, and no copy becomes pending. -/
theorem schedulePrefills_swaps {c : Bool} {ret : SchedulerPrefillOutputs}
    (h : schedulePrefills p c s = some (ret, s')) :
    s'.pendingFinishedSwapOut = s.pendingFinishedSwapOut ∧
      (ret.blocksToSwapIn ≠ [] → ret.seqGroups ≠ []) := by
  rw [schedulePrefills, read_bind] at h
  split at h
  · obtain ⟨rfl, rfl⟩ := pure_iff.mp h
    exact ⟨rfl, fun hne => absurd rfl hne⟩
  obtain ⟨⟨ret₁, left⟩, s₁, h₁, h⟩ := bind_iff.mp h
  simp only [update_bind, pure_iff] at h
  obtain ⟨rfl, rfl⟩ := h
  show s₁.pendingFinishedSwapOut = _ ∧ _
  refine schedulePrefillsLoop_rule (fun t ret _ => t.pendingFinishedSwapOut = s.pendingFinishedSwapOut ∧
    (ret.blocksToSwapIn ≠ [] → ret.seqGroups ≠ [])) c ?_ ?_ ?_ ?_ h₁ ?_
  · intro t t' ret left q i
    exact ⟨q.pending.trans i.1, i.2⟩
  · intro t id rest ret left _ i
    exact i
  · intro t id rest t' ret left _ i ht
    obtain ⟨g, -, -, -, hq⟩ := prefillStep_same ht
    obtain ⟨t₁, q₁, q₂⟩ := hq rfl
    exact ⟨q₂.pending.trans (q₁.pending.trans i.1), i.2⟩
  · intro t id rest u k t₁ ret ret' t' left _ i ht ha
    obtain ⟨-, -, -, hq, -⟩ := prefillStep_same ht
    have q := hq (fun h => by cases h)
    have l := admitPrefill_lists _ _ _ _ _ _ _ _ ha
    obtain ⟨g, pairs, s₂, s₃, -, -, -, -, rfl⟩ := admitPrefill_spec ha
    exact ⟨l.pending.trans (q.pending.trans i.1), fun _ => by simp⟩
  · exact ⟨rfl, fun hne => absurd rfl hne⟩

/-- The copies that end up in an output go one way, once the pending ones are appended. -/
def OneWay (o : SchedulerOutputs) (s : Scheduler) : Prop :=
  o.blocksToSwapIn = [] ∨ o.blocksToSwapOut = [] ∧ s.pendingFinishedSwapOut = []

theorem scheduleDefault_oneWay {o : SchedulerOutputs} (h : scheduleDefault p callback s = some (o, s')) :
    OneWay o s' := by
  rw [scheduleDefault, read_bind] at h
  obtain ⟨gs, s₁, h₁, h⟩ := bind_iff.mp h
  rw [update_bind] at h
  obtain ⟨prefills, s₂, h₂, h⟩ := bind_iff.mp h
  obtain ⟨_, s₃, h₃, h⟩ := bind_iff.mp h
  obtain ⟨running, s₄, h₄, h⟩ := bind_iff.mp h
  obtain ⟨_, s₅, h₅, h⟩ := bind_iff.mp h
  simp only [update_bind, require_bind, Option.ite_none_right_eq_some, read_bind, makeOutputs_iff] at h
  obtain ⟨-, -, rfl, rfl⟩ := h
  by_cases hin : prefills.blocksToSwapIn = []
  · exact .inl hin
  -- a prefill was admitted, so nothing was pending and no running group was looked at
  split at h₂
  · rename_i hquiet
    obtain ⟨kept, hne⟩ := schedulePrefills_swaps h₂
    have hne := hne hin
    rw [when_neg (fun hc => hne hc.1)] at h₃
    rw [if_neg hne] at h₄
    obtain ⟨-, rfl⟩ := pure_iff.mp h₃
    obtain ⟨rfl, rfl⟩ := pure_iff.mp h₄
    have pending : s₁.pendingFinishedSwapOut = [] := (getGroups_same _ _ _ _ h₁).pending.trans hquiet.2
    exact .inr ⟨rfl, (checkBudget_same p _ _ _ h₅).pending.trans (kept.trans pending)⟩
  · obtain ⟨rfl, -⟩ := pure_iff.mp h₂
    exact absurd rfl hin

theorem scheduleChunkedPrefill_oneWay {o : SchedulerOutputs}
    (h : scheduleChunkedPrefill p callback s = some (o, s')) : OneWay o s' := by
  rw [scheduleChunkedPrefill, read_bind] at h
  obtain ⟨runningGroups, s₁, h₁, h⟩ := bind_iff.mp h
  obtain ⟨waitingGroups, s₂, h₂, h⟩ := bind_iff.mp h
  rw [update_bind] at h
  obtain ⟨running, s₃, h₃, h⟩ := bind_iff.mp h
  rw [read_bind] at h
  obtain ⟨prefills, s₄, h₄, h⟩ := bind_iff.mp h
  obtain ⟨_, s₅, h₅, h⟩ := bind_iff.mp h
  obtain ⟨finishing, s₆, h₆, h⟩ := bind_iff.mp h
  simp only [update_bind, read_bind, makeOutputs_iff] at h
  obtain ⟨-, rfl, rfl⟩ := h
  by_cases hin : prefills.blocksToSwapIn = []
  · exact .inl hin
  split at h₄
  · -- the victims of this step are counted: the callback has run
    rename_i hquiet
    rw [Bool.or_eq_false_iff, Bool.not_eq_false', Bool.not_eq_false', List.isEmpty_iff, List.isEmpty_iff] at hquiet
    obtain ⟨kept, -⟩ := schedulePrefills_swaps h₄
    refine .inr ⟨hquiet.1, ?_⟩
    have q := IsTrans.trans _ _ _ (checkBudget_same p _ _ _ h₅) (orderFinishingPrefillsFirst_same _ _ _ _ h₆)
    exact q.pending.trans (kept.trans hquiet.2)
  · obtain ⟨rfl, -⟩ := pure_iff.mp h₄
    exact absurd rfl hin

theorem scheduleQueues_oneWay {o : SchedulerOutputs} (h : scheduleQueues p callback s = some (o, s')) :
    OneWay o s' := by
  rw [scheduleQueues, read_bind] at h
  obtain ⟨waiting, s₁, h₁, h⟩ := bind_iff.mp h
  obtain ⟨running, s₂, h₂, h⟩ := bind_iff.mp h
  rw [update_bind] at h
  split at h
  · exact scheduleChunkedPrefill_oneWay h
  · exact scheduleDefault_oneWay h

/-- An output of `schedule` swaps in or swaps out: from any state, in both policies, whatever the
callback does. -/
theorem schedule_oneWay {r : List SequenceGroupMetadata × SchedulerOutputs}
    (h : schedule p callback s = some (r, s')) :
    r.2.blocksToSwapIn = [] ∨ r.2.blocksToSwapOut = [] := by
  obtain ⟨outputs, s₁, h₁, h⟩ := bind_iff.mp h
  have oneWay := scheduleQueues_oneWay h₁
  simp only [read_bind, update_bind] at h
  obtain ⟨now, s₂, -, h⟩ := bind_iff.mp h
  obtain ⟨metadata, s₃, -, h⟩ := bind_iff.mp h
  obtain ⟨_, s₄, -, h⟩ := bind_iff.mp h
  obtain ⟨rfl, -⟩ := pure_iff.mp h
  rcases oneWay with hin | ⟨hout, hpending⟩
  · exact .inl hin
  · refine .inr ?_
    rw [hout, hpending]
    rfl

end SchedM

end CoreFlow
