import CoreFlow.Scheduler.Steps
import Mathlib.Algebra.Ring.Int.Defs

/-!
# What the budget has been charged

`Paid` says that the tokens charged to the budget pay for the work of the groups scheduled so far. A group
is charged under its request id, and a request that is charged already is not charged again: the ids of
the groups in the queues and in the batch have to differ.
-/

namespace CoreFlow
open Prog SchedM

namespace SchedulingBudget
variable {b b' : SchedulingBudget} {r : RequestId} {n k : Int}

theorem addNumBatchedTokens_fresh (hr : r ∉ b.requestIdsNumBatchedTokens)
    (h : b.addNumBatchedTokens r n k = some b') :
    0 ≤ n ∧ b'.requestIdsNumBatchedTokens = r :: b.requestIdsNumBatchedTokens ∧
      b'.numBatchedTokens = b.numBatchedTokens + n := by
  rw [addNumBatchedTokens, if_neg hr, Option.ite_none_right_eq_some, Option.some.injEq] at h
  obtain ⟨hn, rfl⟩ := h
  exact ⟨hn.2, rfl, rfl⟩

theorem subtractNumBatchedTokens_fresh (hr : r ∉ b.requestIdsNumBatchedTokens) :
    b.subtractNumBatchedTokens r n = b := if_neg hr

/-- The tokens charged are the same. -/
def SameTokens (b b' : SchedulingBudget) : Prop :=
  b'.requestIdsNumBatchedTokens = b.requestIdsNumBatchedTokens ∧ b'.numBatchedTokens = b.numBatchedTokens

theorem addNumSeqs_tokens (r : RequestId) (n : Int) : SameTokens b (b.addNumSeqs r n) := by
  unfold addNumSeqs
  split <;> exact ⟨rfl, rfl⟩

theorem subtractNumSeqs_tokens (r : RequestId) (n : Int) : SameTokens b (b.subtractNumSeqs r n) := by
  unfold subtractNumSeqs
  split <;> exact ⟨rfl, rfl⟩

end SchedulingBudget

/-! ## Requests -/

/-- The request that a sequence belongs to. -/
def requestIdOf (s : Scheduler) (id : SeqId) : Option RequestId := (s.groups.get? id).map (·.requestId)

theorem requestIdOf_set {s s' : Scheduler} {id : SeqId} {g g' : SequenceGroup} (hg : s.groups.get? id = some g)
    (groups : s'.groups = s.groups.set id g') (hr : g'.requestId = g.requestId) : requestIdOf s' = requestIdOf s := by
  funext x
  unfold requestIdOf
  rw [groups, Dict.get?_set]
  split
  · rename_i e
    rw [← e, hg, Option.map_some, Option.map_some, hr]
  · rfl

theorem requestIdOf_same {s s' : Scheduler} (groups : s'.groups = s.groups) : requestIdOf s' = requestIdOf s := by
  funext x
  rw [requestIdOf, requestIdOf, groups]

/-- The budget is the same. -/
def KeepsBudget (s s' : Scheduler) : Prop := s'.budget = s.budget

instance : IsPreorder Scheduler KeepsBudget where
  refl _ := rfl
  trans _ _ _ h h' := Eq.trans h' h

namespace SchedM
variable (p : SchedulerParams)

theorem onManager_keepsBudget {α : Type} (x : ManagerM α) : Within KeepsBudget (onManager x) := .zoom_any fun _ _ => rfl

theorem getGroup_keepsBudget (id : SeqId) : Within KeepsBudget (getGroup id) :=
  (getGroup_budget id).mono fun _ _ h => h.budget

theorem setGroup_keepsBudget (id : SeqId) (g : SequenceGroup) : Within KeepsBudget (setGroup id g) := .update fun _ => rfl

theorem setStatus_keepsBudget (id : SeqId) (status : SequenceStatus) : Within KeepsBudget (setStatus id status) :=
  .bind (getGroup_keepsBudget id) fun _ => setGroup_keepsBudget _ _

theorem getNumNewUncachedAndCachedTokens_keepsBudget (g : SequenceGroup) (status : SequenceStatus) (c : Bool) :
    Within KeepsBudget (getNumNewUncachedAndCachedTokens p g status c) :=
  getNumNewUncachedAndCachedTokens_rule p (fun _ => onManager_keepsBudget _) status c

theorem removeSeqFromComputedBlocksTracker_keepsBudget (id : SeqId) (status : SequenceStatus) :
    Within KeepsBudget (removeSeqFromComputedBlocksTracker id status) :=
  .bind (getGroup_keepsBudget id) fun _ => .when (onManager_keepsBudget _)

theorem preempt_keepsBudget (id : SeqId) : Within KeepsBudget (preempt p id) := by
  have swapped : Within KeepsBudget (swapOut p id) := by
    refine .bind (getGroup_keepsBudget id) fun g => .bind (onManager_keepsBudget _) fun _ => .bind (.require _) fun _ => ?_
    exact .bind (time_budget.mono fun _ _ h => h.budget) fun now => .bind (onManager_keepsBudget _) fun _ =>
      .bind (.when (setStatus_keepsBudget _ _)) fun _ => .pure _
  refine .bind (getGroup_keepsBudget id) fun g => ?_
  split
  · refine .bind (.bind (getGroup_keepsBudget id) fun _ => .bind (.require _) fun _ =>
      .bind (setStatus_keepsBudget _ _) fun _ => ?_) fun _ => .pure _
    exact .bind (onManager_keepsBudget _) fun _ => .bind (getGroup_keepsBudget id) fun _ => setGroup_keepsBudget _ _
  · refine .bind (.bind swapped fun _ => .bind (getGroup_keepsBudget id) fun _ => .bind (.when ?_) fun _ => .pure _) fun _ =>
      .pure _
    exact .bind (setGroup_keepsBudget _ _) fun _ => onManager_keepsBudget _

theorem appendSlots_keepsBudget (id : SeqId) : Within KeepsBudget (appendSlots p id) :=
  .bind (getGroup_keepsBudget id) fun _ => .ite (onManager_keepsBudget _) (.pure _)

theorem allocateAndSetRunning_keepsBudget (id : SeqId) : Within KeepsBudget (allocateAndSetRunning p id) := by
  refine .bind (getGroup_keepsBudget id) fun g => .bind (onManager_keepsBudget _) fun _ => ?_
  refine .bind (resolveCachedPrefixLen_rule p fun _ => onManager_keepsBudget _) fun _ =>
    .bind hasSyntheticCacheSource_any fun _ => .bind (.when ?_) fun _ =>
      .bind (setStatus_keepsBudget _ _) fun _ => .pure _
  exact .bind (onManager_keepsBudget _) fun _ => .when (.bind (.ofOption _) fun _ => setGroup_keepsBudget _ _)

theorem consumeExactGpuCacheHit_keepsBudget (g : SequenceGroup) : Within KeepsBudget (consumeExactGpuCacheHit p g) := by
  unfold consumeExactGpuCacheHit
  split
  · exact .pure _
  · exact onManager_keepsBudget _

end SchedM

/-! ## Charges -/

/-- The requests of the groups in a queue and in the batch differ, and the requests charged are those of the
batch, whose `work` is paid for. -/
structure Paid (s : Scheduler) (queue scheduled : List SeqId) (work : Int) : Prop where
  distinct : ((queue ++ scheduled).map (requestIdOf s)).Nodup
  charged : ∀ r ∈ s.budget.requestIdsNumBatchedTokens, some r ∈ scheduled.map (requestIdOf s)
  total : work ≤ s.budget.numBatchedTokens

namespace Paid
variable {s s' : Scheduler} {queue queue' scheduled : List SeqId} {work : Int} {id : SeqId} {r : RequestId}

theorem tokens (h : Paid s queue scheduled work) (requests : requestIdOf s' = requestIdOf s)
    (hb : SchedulingBudget.SameTokens s.budget s'.budget) : Paid s' queue scheduled work := by
  obtain ⟨distinct, charged, total⟩ := h
  rw [← requests] at distinct charged
  rw [← hb.1] at charged
  rw [← hb.2] at total
  exact ⟨distinct, charged, total⟩

theorem same (h : Paid s queue scheduled work) (requests : requestIdOf s' = requestIdOf s)
    (hb : KeepsBudget s s') : Paid s' queue scheduled work :=
  h.tokens requests ⟨congrArg _ hb, congrArg _ hb⟩

/-- Groups can leave the queue. -/
theorem drop (h : Paid s queue scheduled work) (hq : queue'.Sublist queue) : Paid s queue' scheduled work :=
  ⟨((hq.append_right scheduled).map _).nodup h.distinct, h.charged, h.total⟩

/-- A request that is in the queue has not been charged. -/
theorem fresh (h : Paid s (id :: queue) scheduled work) (hr : requestIdOf s id = some r) :
    r ∉ s.budget.requestIdsNumBatchedTokens := by
  intro hin
  have distinct := h.distinct
  rw [List.cons_append, List.map_cons, List.nodup_cons, List.map_append, hr] at distinct
  exact distinct.1 (List.mem_append_right _ (h.charged r hin))

/-- The first group of the queue is scheduled, and charged at least its work. -/
theorem charge {b : SchedulingBudget} {n k w : Int} {scheduled' : List SeqId} (h : Paid s (id :: queue) scheduled work)
    (hr : requestIdOf s id = some r) (hb : s.budget.addNumBatchedTokens r n k = some b)
    (requests : requestIdOf s' = requestIdOf s) (tokens : SchedulingBudget.SameTokens b s'.budget) (hw : w ≤ n)
    (hperm : scheduled'.Perm (id :: scheduled)) : Paid s' queue scheduled' (work + w) := by
  obtain ⟨-, hids, hnum⟩ := SchedulingBudget.addNumBatchedTokens_fresh (h.fresh hr) hb
  refine ⟨?_, fun x hx => ?_, ?_⟩
  · rw [requests]
    have moved : (queue ++ scheduled').Perm (id :: queue ++ scheduled) :=
      (hperm.append_left queue).trans List.perm_middle
    exact (moved.map _).nodup_iff.mpr h.distinct
  · rw [tokens.1, hids] at hx
    rw [requests, (hperm.map _).mem_iff, List.map_cons]
    rcases List.mem_cons.mp hx with rfl | hx
    · rw [hr]
      exact List.mem_cons_self ..
    · exact List.mem_cons_of_mem _ (h.charged x hx)
  · have := h.total
    rw [tokens.2, hnum]
    omega

end Paid

/-- The most that a worker computes for scheduled groups. -/
def largestWork (l : List ScheduledSequenceGroup) : Int := (l.map fun sg => max 1 sg.tokenChunkSize).sum

theorem largestWork_append (l l' : List ScheduledSequenceGroup) :
    largestWork (l ++ l') = largestWork l + largestWork l' := by
  rw [largestWork, List.map_append, List.sum_append]
  rfl

theorem largestWork_singleton (sg : ScheduledSequenceGroup) : largestWork [sg] = max 1 sg.tokenChunkSize :=
  List.sum_singleton

section
variable {p : SchedulerParams} {s s' : Scheduler} {id : SeqId} {n : Int} {queue : List SeqId}

/-! ## The running queue -/

/-- What `_schedule_running` has charged; `cur` is the group whose slots are being looked for. -/
def PaidRun (cur : Option (SeqId × Int)) (s : Scheduler) (ret : SchedulerRunningOutputs) : Prop :=
  (∀ x, cur = some x → x.2 ≠ 0) ∧
    Paid s ((cur.map (·.1)).toList ++ (s.running ++ s.waiting))
      (scheduledIds ret.decodeSeqGroups ++ scheduledIds ret.prefillSeqGroups)
      (largestWork ret.decodeSeqGroups + largestWork ret.prefillSeqGroups)

theorem preempt_requests {x : PreemptionMode × List SwapPair} (h : SchedM.preempt p id s = some (x, s')) :
    requestIdOf s' = requestIdOf s := by
  obtain ⟨g, hg, -, ⟨groups, -⟩ | ⟨-, groups, -⟩⟩ := preempt_cases h
  · exact requestIdOf_same groups
  · exact requestIdOf_set hg groups rfl

theorem preemptVictim_paid {ret ret' : SchedulerRunningOutputs} {scheduled : List SeqId} {work : Int}
    (h : Paid s queue scheduled work) (hp : preemptVictim p none id ret s = some (ret', s')) :
    Paid s' queue scheduled work ∧ s'.running = s.running ∧ s'.waiting = s.waiting ∧
      ret'.decodeSeqGroups = ret.decodeSeqGroups ∧ ret'.prefillSeqGroups = ret.prefillSeqGroups := by
  unfold preemptVictim at hp
  simp only [Prog.pure_bind, if_true] at hp
  obtain ⟨⟨mode, pairs⟩, s₁, h₁, hp⟩ := bind_iff.mp hp
  have i := h.same (preempt_requests h₁) (preempt_keepsBudget p id _ _ _ h₁)
  have l := preempt_lists p id _ _ _ h₁
  cases mode with
  | recompute =>
    obtain ⟨rfl, rfl⟩ := pure_iff.mp hp
    exact ⟨i, l.running, l.waiting, rfl, rfl⟩
  | swap =>
    obtain ⟨rfl, rfl⟩ := pure_iff.mp hp
    exact ⟨i, l.running, l.waiting, rfl, rfl⟩

/-- A group that fits is charged `n`, and it is scheduled with `n` tokens or with one. -/
theorem scheduleRunningGroup_paid {c : Bool} {ret ret' : SchedulerRunningOutputs} (h : PaidRun (some (id, n)) s ret)
    (hs : scheduleRunningGroup p id n c ret s = some (ret', s')) : PaidRun none s' ret' := by
  obtain ⟨hne, paid⟩ := h
  obtain ⟨-, -, hperm⟩ := scheduleRunningGroup_outputs hs
  have q := scheduleRunningGroup_same p _ _ _ _ _ _ _ hs
  obtain ⟨cows, s₁, h₁, hs⟩ := bind_iff.mp hs
  have groups₁ := (appendSlots_same p _ _ _ _ h₁).groups
  have i₁ := paid.same (requestIdOf_same groups₁) (appendSlots_keepsBudget p id _ _ _ h₁)
  rw [getGroup_bind, Option.bind_eq_some_iff] at hs
  obtain ⟨g, hg, hs⟩ := hs
  simp only [read_bind, ofOption_bind, Option.bind_eq_some_iff] at hs
  obtain ⟨budget, hb, hs⟩ := hs
  obtain ⟨_, s₂, h₂, hs⟩ := bind_iff.mp hs
  obtain ⟨rfl, rfl⟩ := pure_iff.mp hs
  have hr : requestIdOf s₁ id = some g.requestId := by
    rw [requestIdOf, hg]
    rfl
  rw [modifyBudget, update_iff] at h₂
  have requests : requestIdOf s' = requestIdOf s₁ := by
    rw [h₂]
    exact requestIdOf_same rfl
  have tokens : SchedulingBudget.SameTokens budget s'.budget := by
    rw [h₂]
    show SchedulingBudget.SameTokens budget (if c = true then _ else _)
    split
    · exact SchedulingBudget.addNumSeqs_tokens _ _
    · exact ⟨rfl, rfl⟩
  have hn := (SchedulingBudget.addNumBatchedTokens_fresh (i₁.fresh hr) hb).1
  have hn0 : n ≠ 0 := hne (id, n) rfl
  refine ⟨(fun x hx => by cases hx), ?_⟩
  rw [q.running, q.waiting]
  have done := i₁.charge hr hb requests tokens (w := n) le_rfl hperm
  refine ⟨done.distinct, done.charged, ?_⟩
  refine le_trans ?_ done.total
  split
  · simp only [largestWork_append, largestWork_singleton]
    omega
  · simp only [largestWork_append, largestWork_singleton]
    omega

theorem scheduleRunning_paid {c : Bool} {ret : SchedulerRunningOutputs} (h : Paid s (s.running ++ s.waiting) [] 0)
    (hr : scheduleRunning p none c s = some (ret, s')) :
    Paid s' (s'.running ++ s'.waiting) (scheduledIds ret.decodeSeqGroups ++ scheduledIds ret.prefillSeqGroups)
      (largestWork ret.decodeSeqGroups + largestWork ret.prefillSeqGroups) := by
  simp only [scheduleRunning, read_bind, require_bind, Option.ite_none_right_eq_some] at hr
  have start : PaidRun none s .empty := ⟨(fun _ hx => by cases hx), h⟩
  refine (scheduleRunningLoop_steps PaidRun c ?_ ?_ ?_ ?_ ?_ ?_ ?_ hr.2 start).2
  · rintro cur t t' ret q ⟨hne, i⟩
    refine ⟨hne, ?_⟩
    rw [q.running, q.waiting]
    exact i.same (requestIdOf_same q.groups) q.budget
  · -- the request of the group has not been charged, so that nothing is subtracted
    rintro id n t ret g ⟨hne, i⟩ hg
    have hr : requestIdOf t id = some g.requestId := by
      rw [requestIdOf, hg]
      rfl
    rw [SchedulingBudget.subtractNumBatchedTokens_fresh (i.fresh hr)]
    exact ⟨hne, i.tokens (requestIdOf_same rfl) (SchedulingBudget.subtractNumSeqs_tokens _ _)⟩
  · intro id n t ret ret' t' i hs
    exact scheduleRunningGroup_paid i hs
  · -- a victim leaves the end of the queue
    rintro cur v t ret ret' t' ⟨hne, i⟩ - hv
    have shorter : ((((some cur).map (·.1)).toList ++ (t.running.dropLast ++ t.waiting))).Sublist
        (((some cur).map (·.1)).toList ++ (t.running ++ t.waiting)) :=
      ((List.dropLast_sublist _).append_right _).append_left _
    have taken : Paid { t with running := t.running.dropLast } _ _ _ := (i.drop shorter).same (requestIdOf_same rfl) rfl
    obtain ⟨i', hrun, hwait, hd, hp⟩ := preemptVictim_paid taken hv
    refine ⟨hne, ?_⟩
    rw [hrun, hwait, hd, hp]
    exact i'
  · -- the group itself is preempted
    rintro id n t ret ret' t' ⟨-, i⟩ - hv
    obtain ⟨i', hrun, hwait, hd, hp⟩ := preemptVictim_paid (i.drop (List.sublist_cons_self ..)) hv
    refine ⟨(fun _ hx => by cases hx), ?_⟩
    rw [hrun, hwait, hd, hp]
    exact i'
  · rintro t t' id rest g x ret ⟨hne, i⟩ - - hs
    have q := getNumNewUncachedAndCachedTokens_same p g _ c _ _ _ hs
    refine ⟨hne, ?_⟩
    rw [q.running, q.waiting]
    exact i.same (requestIdOf_same q.groups) (getNumNewUncachedAndCachedTokens_keepsBudget p g _ c _ _ _ hs)
  · -- the first group is taken from the queue
    rintro t₀ t id rest g n k ret ⟨-, i⟩ hrun - hn -
    rw [hrun] at i
    refine ⟨?_, i.same (requestIdOf_same rfl) rfl⟩
    intro x hx
    rw [← Option.some.inj hx]
    exact hn

/-- What `_schedule_running` schedules was running. -/
theorem scheduleRunning_from {c : Bool} {ret : SchedulerRunningOutputs}
    (hr : scheduleRunning p none c s = some (ret, s')) :
    ∀ id ∈ scheduledIds ret.decodeSeqGroups ++ scheduledIds ret.prefillSeqGroups, id ∈ s.running := by
  simp only [scheduleRunning, read_bind, require_bind, Option.ite_none_right_eq_some] at hr
  let I (cur : Option (SeqId × Int)) (t : Scheduler) (ret : SchedulerRunningOutputs) : Prop :=
    (∀ x ∈ cur, x.1 ∈ s.running) ∧ (∀ id ∈ t.running, id ∈ s.running) ∧
      ∀ id ∈ scheduledIds ret.decodeSeqGroups ++ scheduledIds ret.prefillSeqGroups, id ∈ s.running
  have preempted {cur : Option (SeqId × Int)} {t t' : Scheduler} {v : SeqId} {ret ret' : SchedulerRunningOutputs}
      (i : I cur t ret) (hv : preemptVictim p none v ret t = some (ret', t')) : I cur t' ret' := by
    unfold preemptVictim at hv
    simp only [Prog.pure_bind, if_true] at hv
    obtain ⟨⟨mode, pairs⟩, t₁, h₁, hv⟩ := bind_iff.mp hv
    have hrun := (preempt_lists p v _ _ _ h₁).running
    refine ⟨i.1, ?_⟩
    cases mode <;> (obtain ⟨rfl, rfl⟩ := pure_iff.mp hv; exact ⟨by rw [hrun]; exact i.2.1, i.2.2⟩)
  have start : I none s .empty :=
    ⟨(fun _ h => by cases h), (fun _ h => h), fun _ h => by cases h⟩
  refine (scheduleRunningLoop_rule I c ?_ ?_ ?_ ?_ ?_ hr.2 start).2.2
  · intro cur t t' ret q i
    exact ⟨i.1, by rw [q.running]; exact i.2.1, i.2.2⟩
  · intro id n t ret ret' t' i hs
    obtain ⟨-, -, hperm⟩ := scheduleRunningGroup_outputs hs
    refine ⟨(fun _ h => by cases h), ?_, fun x hx => ?_⟩
    · rw [(scheduleRunningGroup_same p _ _ _ _ _ _ _ hs).running]
      exact i.2.1
    · rcases List.mem_cons.mp (hperm.mem_iff.mp hx) with rfl | hx
      · exact i.1 _ rfl
      · exact i.2.2 x hx
  · intro cur v t ret ret' t' i _ hv
    have shorter : I (some cur) { t with running := t.running.dropLast } ret :=
      ⟨i.1, fun id hid => i.2.1 id (List.dropLast_subset _ hid), i.2.2⟩
    exact preempted shorter hv
  · intro id n t ret ret' t' i _ hv
    have i' := preempted i hv
    exact ⟨(fun _ h => by cases h), i'.2⟩
  · intro t₀ t id rest g n k ret i hrun _ _ _
    have taken : ∀ x ∈ id :: rest, x ∈ s.running := by
      rw [← hrun]
      exact i.2.1
    refine ⟨fun x hx => ?_, fun x hx => taken x (List.mem_cons_of_mem _ hx), i.2.2⟩
    rw [← Option.mem_some.mp hx]
    exact taken id (List.mem_cons_self ..)

/-! ## The waiting queue -/

theorem prefillStep_requests {c : Bool} {step : PrefillStep} (h : prefillStep p id c s = some (step, s')) :
    requestIdOf s' = requestIdOf s ∧ KeepsBudget s s' := by
  obtain ⟨g, hg, -, ⟨-, rfl⟩ | ⟨u, k, s₁, h₁, hs⟩⟩ := prefillStep_cases h
  · exact ⟨rfl, rfl⟩
  have q₁ := getNumNewUncachedAndCachedTokens_same p g _ c _ _ _ h₁
  have b₁ := getNumNewUncachedAndCachedTokens_keepsBudget p g _ c _ _ _ h₁
  rcases hs with ⟨-, hs⟩ | ⟨-, hs⟩ | ⟨-, rfl⟩
  · have q₂ := removeSeqFromComputedBlocksTracker_same _ _ _ _ _ hs
    exact ⟨requestIdOf_same (q₂.groups.trans q₁.groups),
      IsTrans.trans _ _ _ b₁ (removeSeqFromComputedBlocksTracker_keepsBudget _ _ _ _ _ hs)⟩
  · have q₂ := removeSeqFromComputedBlocksTracker_same _ _ _ _ _ hs
    have b₂ := removeSeqFromComputedBlocksTracker_keepsBudget _ _ _ _ _ hs
    rw [← q₁.groups] at hg
    exact ⟨(requestIdOf_set hg q₂.groups rfl).trans (requestIdOf_same q₁.groups), b₂.trans b₁⟩
  · exact ⟨requestIdOf_same q₁.groups, b₁⟩

theorem admitPrefill_paid {u k : Int} {ret ret' : SchedulerPrefillOutputs} {scheduled : List SeqId} {work : Int}
    (h : Paid s (id :: s.waiting) scheduled work) (ha : admitPrefill p id u k ret s = some (ret', s')) :
    Paid s' s'.waiting (scheduled ++ [id]) (work + u) := by
  have hwait := (admitPrefill_lists p id _ _ _ _ _ _ ha).waiting
  rw [admitPrefill, getGroup_bind, Option.bind_eq_some_iff] at ha
  obtain ⟨g, hg, ha⟩ := ha
  obtain ⟨synthetic, s₁, h₁, ha⟩ := bind_iff.mp ha
  rw [((hasSyntheticCacheSource_iff (p := p)).mp h₁).2, read_bind] at ha
  obtain ⟨pairs, s₂, h₂, ha⟩ := bind_iff.mp ha
  rw [update_bind] at ha
  obtain ⟨_, s₃, h₃, ha⟩ := bind_iff.mp ha
  obtain ⟨-, ⟨g', hreg, groups₂⟩, -⟩ := allocateAndSetRunning_spec hg h₂
  have i₂ := h.same (requestIdOf_set hg groups₂ hreg.frame.1) (allocateAndSetRunning_keepsBudget p id _ _ _ h₂)
  have recorded : Paid (recordAdmission (admissionOf id g s.blockManager s₂) s₂) (id :: s.waiting) scheduled work :=
    i₂.same (requestIdOf_same rfl) rfl
  have i₃ := recorded.same (requestIdOf_same (consumeExactGpuCacheHit_spec h₃).1)
    (consumeExactGpuCacheHit_keepsBudget p g _ _ _ h₃)
  rw [getGroup_bind, Option.bind_eq_some_iff] at ha
  obtain ⟨g₄, hg₄, ha⟩ := ha
  rw [maybeIncrementPartialPrefills, update_bind] at ha
  simp only [read_bind, ofOption_bind, Option.bind_eq_some_iff] at ha
  obtain ⟨budget, hb, ha⟩ := ha
  rw [modifyBudget, update_bind] at ha
  obtain ⟨-, rfl⟩ := pure_iff.mp ha
  have hr : requestIdOf s₃ id = some g₄.requestId := by
    rw [requestIdOf, hg₄]
    rfl
  rw [hwait]
  exact i₃.charge hr hb (requestIdOf_same rfl) (SchedulingBudget.addNumSeqs_tokens _ _) le_rfl
    (List.perm_append_singleton _ _)

theorem chargedPrefillsLoop_paid {c : Bool} {fuel : Nat} {ret ret' : SchedulerPrefillOutputs} {left left' : List SeqId}
    {charges charges' : List Int} {scheduled : List SeqId} {work : Int}
    (h0 : Paid s s.waiting (scheduled ++ scheduledIds ret.seqGroups) (work + charges.sum))
    (h : chargedPrefillsLoop p c fuel ret left charges s = some (((ret', left'), charges'), s')) :
    Paid s' s'.waiting (scheduled ++ scheduledIds ret'.seqGroups) (work + charges'.sum) := by
  -- a group that is not admitted is not charged
  have passed {t t' : Scheduler} {id : SeqId} {rest : List SeqId} {step : PrefillStep}
      {ret : SchedulerPrefillOutputs} {charges : List Int} (hw : t.waiting = id :: rest)
      (i : Paid t t.waiting (scheduled ++ scheduledIds ret.seqGroups) (work + charges.sum))
      (ht : prefillStep p id c t = some (step, t')) :
      Paid { t' with waiting := rest } (id :: rest) (scheduled ++ scheduledIds ret.seqGroups) (work + charges.sum) := by
    obtain ⟨requests, budget⟩ := prefillStep_requests ht
    rw [hw] at i
    exact (i.same requests budget).same (requestIdOf_same rfl) rfl
  refine chargedPrefillsLoop_steps (fun t ret _ charges =>
    Paid t t.waiting (scheduled ++ scheduledIds ret.seqGroups) (work + charges.sum)) c ?_ ?_ ?_ ?_ ?_ h h0
  · intro t t' ret left charges q i
    rw [q.waiting]
    exact i.same (requestIdOf_same q.groups) q.budget
  · intro t id rest t' ret left charges hw i ht
    obtain ⟨-, -, -, hq, -⟩ := prefillStep_same ht
    obtain ⟨requests, budget⟩ := prefillStep_requests ht
    rw [(hq fun h => by cases h).waiting]
    exact i.same requests budget
  · intro t id rest t' ret left charges hw i ht
    exact (passed hw i ht).drop (List.sublist_cons_self ..)
  · intro t id rest t' ret left charges hw i ht
    exact (passed hw i ht).drop (List.sublist_cons_self ..)
  · intro t id rest u k t₁ ret ret' t' left charges hw i ht ha
    obtain ⟨g, pairs, s₂, s₃, -, -, -, -, hret⟩ := admitPrefill_steps ha
    have i' := admitPrefill_paid (passed hw i ht) ha
    rw [hret, scheduledIds_append, List.sum_append, List.sum_singleton, ← List.append_assoc, ← Int.add_assoc]
    exact i'

end

end CoreFlow
