import CoreFlow.Scheduler.Swaps
import CoreFlow.Instance.Ownership

/-!
# The copies of a whole run go one way at a time

With asynchronous output processing the callback runs inside `schedule`, which is covered because
nothing is assumed of it; a run of the synchronous engine has no callback.
-/

namespace CoreFlow
open Prog

variable {p : SchedulerParams} {e e' : Engine}

/-- No output so far mixes the two directions. -/
def OutputsOneWay (e : Engine) : Prop := ∀ o ∈ e.outputs, o.blocksToSwapIn = [] ∨ o.blocksToSwapOut = []

/-- No output is made. -/
def SameOutputs (e e' : Engine) : Prop := e'.outputs = e.outputs

instance : IsPreorder Engine SameOutputs where
  refl _ := rfl
  trans _ _ _ h h' := Eq.trans h' h

namespace EngineM

theorem onScheduler_outputs {α : Type} (x : SchedM α) : Within SameOutputs (onScheduler x) :=
  .zoom_any fun _ _ => rfl

theorem nextSeqId_outputs : Within SameOutputs nextSeqId :=
  .bind .read fun _ => .bind (.update fun _ => rfl) fun _ => .pure _

theorem addSeqGroup_outputs (requestId : RequestId) (promptTokenIds : List TokenId)
    (extraArgs : Option ExtraArgs) (priority arrivalTime : Int) :
    Within SameOutputs (addSeqGroup requestId promptTokenIds extraArgs priority arrivalTime) :=
  .bind nextSeqId_outputs fun _ => onScheduler_outputs _

theorem processModelOutputs_outputs (samples : List SampleOutput) (clock : List Int) :
    Within SameOutputs (processModelOutputs p samples clock) :=
  .bind .read fun _ => .bind (.ofOption _) fun _ => .bind (.require _) fun _ =>
    .bind (onScheduler_outputs _) fun _ => .bind (onScheduler_outputs _) fun _ =>
      .bind (.when (onScheduler_outputs _)) fun _ => .update fun _ => rfl

theorem registerMigratedGpuCache_outputs (tokenIds : List TokenId) (queryId invocationId : Int)
    (requestId : RequestId) (arrivalTime : Int) :
    Within SameOutputs (registerMigratedGpuCache p tokenIds queryId invocationId requestId arrivalTime) := by
  refine .bind nextSeqId_outputs fun _ => .bind .read fun _ => .bind (.ofOption _) fun status => ?_
  cases status with
  | later => exact .pure _
  | never => exact .pure _
  | ok =>
    exact .bind (onScheduler_outputs _) fun _ => .bind (onScheduler_outputs _) fun _ =>
      .bind (onScheduler_outputs _) fun _ => .pure _

theorem migrateCache_outputs (tokenIds : List TokenId) (queryId invocationId : Int) (requestId : RequestId)
    (keep : Bool) (arrivalTime now : Int) :
    Within SameOutputs (migrateCache p tokenIds queryId invocationId requestId keep arrivalTime now) :=
  .ite (.pure _) (.bind (.ite (registerMigratedGpuCache_outputs _ _ _ _ _) (.pure _)) fun _ =>
    .when (.bind (onScheduler_outputs _) fun _ => .pure _))

theorem schedule_outputs {clock : List Int} {u : Unit} (h : schedule p clock e = some (u, e')) :
    ∃ o, e'.outputs = e.outputs ++ [o] ∧ (o.blocksToSwapIn = [] ∨ o.blocksToSwapOut = []) := by
  simp only [schedule, setClock, read_bind, require_bind, Option.ite_none_right_eq_some] at h
  obtain ⟨-, h⟩ := h
  obtain ⟨_, e₁, h₁, h⟩ := bind_iff.mp h
  obtain ⟨⟨metadata, o⟩, e₂, h₂, h⟩ := bind_iff.mp h
  have same := IsTrans.trans _ _ _ (onScheduler_outputs _ _ _ _ h₁) (onScheduler_outputs _ _ _ _ h₂)
  obtain ⟨s₂, hs₂, -⟩ := onScheduler_iff.mp h₂
  rw [update_iff.mp h]
  exact ⟨o, congrArg (· ++ [o]) same, SchedM.schedule_oneWay hs₂⟩

theorem perform_outputs {op : EngineOp} {u : Unit} (i : OutputsOneWay e)
    (hop : Engine.perform p op e = some (u, e')) : OutputsOneWay e' := by
  have quiet (h : SameOutputs e e') : OutputsOneWay e' := fun o ho => i o (h ▸ ho)
  cases op with
  | addSeqGroup => exact quiet (addSeqGroup_outputs _ _ _ _ _ _ _ _ hop)
  | abortSeqGroup => exact quiet (onScheduler_outputs _ _ _ _ hop)
  | processModelOutputs => exact quiet (processModelOutputs_outputs _ _ _ _ _ hop)
  | migrateCache => exact quiet (migrateCache_outputs _ _ _ _ _ _ _ _ _ _ hop)
  | schedule clock =>
    obtain ⟨o, outputs, oneWay⟩ := schedule_outputs hop
    intro o' ho'
    rw [outputs] at ho'
    rcases List.mem_append.mp ho' with ho' | ho'
    · exact i o' ho'
    · rw [List.mem_singleton.mp ho']
      exact oneWay

end EngineM

/-- Every output of `schedule` swaps in or swaps out, never both: in both policies, from any state and
whatever the output callback does, and so in every run. -/
theorem run_swapsOneWay (p : SchedulerParams) :
    (∀ (callback : Option (RequestId → SchedM Unit)) s metadata o s',
      SchedM.schedule p callback s = some ((metadata, o), s') →
        o.blocksToSwapIn = [] ∨ o.blocksToSwapOut = []) ∧
    ∀ ops e, Engine.run p (Engine.init p) ops = some e →
      ∀ o ∈ e.outputs, o.blocksToSwapIn = [] ∨ o.blocksToSwapOut = [] := by
  refine ⟨fun callback s metadata o s' h => SchedM.schedule_oneWay h, fun ops e h => ?_⟩
  exact Engine.run_invariant OutputsOneWay (fun _ _ _ i hop => EngineM.perform_outputs i hop) h
    fun o ho => by cases ho

/-- Two groups run and a third one waits. -/
def crowdedRun : List EngineOp :=
  [.addSeqGroup "q0_a" [1, 2, 3] (some ⟨some (some 0), some 0, 0, false, false, none⟩) 0 0,
   .addSeqGroup "q1_a" [5, 6, 7] (some ⟨some (some 1), some 0, 0, false, false, none⟩) 0 0,
   .schedule [1, 1, 1, 1, 1, 1, 1],
   .processModelOutputs [⟨4, none, false⟩, ⟨8, none, false⟩] [2, 2],
   .addSeqGroup "q2_a" [1] none 0 0]

/-- The callback finishes the victim, whose copy becomes pending in the call; the waiting group is not
admitted in the same step. -/
theorem run_swapsOneWay_crowdedRun : ∃ e metadata o s',
    Engine.run smallParams (Engine.init smallParams) crowdedRun = some e ∧
    SchedM.schedule smallParams (some fun _ => SchedM.setStatus 1 .finishedStopped)
      { e.scheduler with clock := [5, 5, 5, 5, 5, 5] } = some ((metadata, o), s') ∧
    o.blocksToSwapOut ≠ [] ∧ s'.waiting = [2] ∧ (o.blocksToSwapIn = [] ∨ o.blocksToSwapOut = []) := by
  have returns : ((Engine.run smallParams (Engine.init smallParams) crowdedRun).bind fun e =>
      (SchedM.schedule smallParams (some fun _ => SchedM.setStatus 1 .finishedStopped)
        { e.scheduler with clock := [5, 5, 5, 5, 5, 5] }).map fun x =>
          decide (x.1.2.blocksToSwapOut ≠ [] ∧ x.2.waiting = [2])) = some true := by
    decide +kernel
  obtain ⟨e, he, h⟩ := Option.bind_eq_some_iff.mp returns
  obtain ⟨⟨⟨metadata, o⟩, s'⟩, hs, h⟩ := Option.map_eq_some_iff.mp h
  obtain ⟨hout, hwait⟩ := of_decide_eq_true h
  exact ⟨e, metadata, o, s', he, hs, hout, hwait, (run_swapsOneWay smallParams).1 _ _ _ _ _ hs⟩

end CoreFlow
