import CoreFlow.Scheduler.Moves

/-!
# `schedule` keeps ownership

The loops of `schedule` hold groups that have left a queue and not joined the other: they are counted
with the queue they will join. `w` and `r` below are such groups.
-/

namespace CoreFlow
open Prog SchedM

namespace Settled
variable {p : SchedulerParams} {n : SeqId} {w r : List SeqId} {s s' : Scheduler} {id : SeqId}

theorem head_count (h : Settled n (id :: w) r s) : w.count id = 0 ∧ r.count id = 0 ∧
    (retained s.blockManager).count id = 0 ∧ s.finishedSeqsPendingSwapOut.count id = 0 := by
  have := h.once id
  rw [List.count_cons_self] at this
  omega

theorem running_count (h : Settled n w (id :: r) s) : w.count id = 0 ∧ r.count id = 0 ∧
    (retained s.blockManager).count id = 0 ∧ s.finishedSeqsPendingSwapOut.count id = 0 := by
  have := h.once id
  rw [List.count_cons_self] at this
  omega

/-- A preempted group goes back to the waiting queue without its table. -/
theorem preempt {x : PreemptionMode × List SwapPair} (h : Settled n w (id :: r) s)
    (hp : SchedM.preempt p id s = some (x, s')) : Settled n (id :: w) r s' := by
  obtain ⟨g, hg, hs, -⟩ := h.running_group (List.mem_cons_self ..)
  obtain ⟨groups, tables, entries⟩ := preempt_spec hg hs hp
  obtain ⟨hw, hr, -, -⟩ := h.running_count
  have hgone : id ∉ s'.blockManager.blockTables := fun ht => ((tables id).mp ht).1 rfl
  have hseq := h.seqId_eq hg
  refine h.move hg groups hseq (preempt_lists p id _ _ _ hp) entries
    (fun x hx => by rw [tables]; simp [hx]) (fun x hx => List.count_cons_of_ne (Ne.symm hx))
    (fun x hx => (List.count_cons_of_ne (Ne.symm hx)).symm) ?_ ?_ ?_ (fun _ => ⟨hgone, rfl⟩) ?_
    (fun ht => (hgone ht).elim)
  · rw [List.count_cons_self]
    omega
  · rw [List.count_cons_self, hw, hr]
  · rw [List.count_cons_self]
    omega
  · omega

/-- An admitted group gets a table, and the entry it may have consumed is gone. -/
theorem admitPrefill {numUncached numCached : Int} {ret ret' : SchedulerPrefillOutputs}
    (h : Settled n (id :: w) r s)
    (ha : SchedM.admitPrefill p id numUncached numCached ret s = some (ret', s')) :
    Settled n w (id :: r) s' ∧
      ret'.seqGroups.map (·.seqId) = ret.seqGroups.map (·.seqId) ++ [id] := by
  obtain ⟨ht, g, hg, hs⟩ := h.waiting id (List.mem_cons_self ..)
  obtain ⟨hw, hr, -, -⟩ := h.head_count
  obtain ⟨g₁, pairs, s₂, s₃, hg₁, h₂, h₃, q, rfl⟩ := admitPrefill_spec ha
  obtain rfl : g = g₁ := Option.some.inj (hg.symm.trans hg₁)
  have l₂ := allocateAndSetRunning_lists p id _ _ _ h₂
  obtain ⟨-, ⟨g', hreg, groups⟩, tables, entries, -⟩ := allocateAndSetRunning_spec hg h₂
  obtain ⟨-, hseq, -⟩ := hreg.frame
  rw [h.seqId_eq hg] at hseq tables
  have ht₂ : id ∈ s₂.blockManager.blockTables := (tables id).mpr (.inl rfl)
  have i₂ : Settled n w (id :: r) s₂ := by
    refine h.move hg groups hseq l₂ entries (fun x hx => by rw [tables]; simp [hx])
      (fun x hx => (List.count_cons_of_ne (Ne.symm hx)).symm)
      (fun x hx => List.count_cons_of_ne (Ne.symm hx)) ?_ ?_ ?_ ?_ (fun _ => ⟨rfl, ht₂⟩) ?_
    · rw [List.count_cons_self]
      omega
    · rw [List.count_cons_self, hw, hr]
    · rw [List.count_cons_self]
      omega
    · omega
    · rw [List.count_cons_self]
      omega
  have i₂' : Settled n w (id :: r) (recordAdmission (admissionOf id g s.blockManager s₂) s₂) :=
    ⟨i₂.toOwnership.frame rfl rfl rfl fun _ => Iff.rfl, i₂.unfinished, i₂.swapped, i₂.asyncStopped⟩
  have l₃ := consumeExactGpuCacheHit_lists p g _ _ _ h₃
  obtain ⟨groups₃, -, hnone, hsome⟩ := consumeExactGpuCacheHit_spec h₃
  have i₃ : Settled n w (id :: r) s₃ := by
    cases hkey : g.cacheKey with
    | none =>
      rw [hnone hkey]
      exact i₂'
    | some key =>
      obtain ⟨tables₃, entries₃⟩ := hsome key hkey
      exact ⟨i₂'.toOwnership.evict groups₃ l₃.finished entries₃ tables₃,
        fun x hx => by rw [groups₃]; exact i₂'.unfinished x hx, l₃.swapped.trans i₂'.swapped,
        l₃.asyncStopped.trans i₂'.asyncStopped⟩
  refine ⟨i₃.quiet q, ?_⟩
  rw [List.map_append]
  rfl

/-- An ignored group is finished and in no queue. -/
theorem ignore {c : Bool} (h : Settled n (id :: w) r s)
    (hi : prefillStep p id c s = some (.ignore, s')) : Settled n w r s' ∧ SameLists s s' := by
  obtain ⟨hw, hr, -, -⟩ := h.head_count
  obtain ⟨g, hg, hs, -, hig⟩ := prefillStep_same hi
  obtain ⟨s₁, q₁, q₂⟩ := hig rfl
  have i₁ := h.quiet q₁
  have ht := (i₁.waiting id (List.mem_cons_self ..)).1
  have hg₁ : s₁.groups.get? id = some g := by rw [q₁.groups]; exact hg
  obtain ⟨g', hg'⟩ : ∃ g', g' = { g with status := .finishedIgnored } := ⟨_, rfl⟩
  have hseq := h.seqId_eq hg
  have hseq' : g'.seqId = id := by rw [hg']; exact hseq
  have hf : g'.isFinished = true := by rw [hg']; rfl
  rw [← hg'] at q₂
  have l : SameLists s₁ { s₁ with groups := s₁.groups.set id g' } := ⟨rfl, rfl, rfl, rfl, rfl, rfl⟩
  refine ⟨Settled.quiet (i₁.move hg₁ rfl hseq' l rfl
    (fun _ _ => Iff.rfl) (fun x hx => (List.count_cons_of_ne (Ne.symm hx)).symm) (fun x _ => rfl)
    ?_ ?_ ?_ ?_ ?_ ?_) q₂, IsTrans.trans _ _ _ q₁.lists (IsTrans.trans _ _ _ l q₂.lists)⟩
  · rw [List.count_cons_self]
    omega
  · omega
  · rw [hf]
    intro h
    cases h
  · omega
  · omega
  · exact fun ht' => (ht ht').elim

end Settled

namespace SchedM
variable {p : SchedulerParams} {n : SeqId} {w r : List SeqId} {s s' : Scheduler} {id : SeqId}

/-- The ids of scheduled groups. -/
def scheduledIds (l : List ScheduledSequenceGroup) : List SeqId := l.map (·.seqId)

@[simp] theorem scheduledIds_append (l l' : List ScheduledSequenceGroup) :
    scheduledIds (l ++ l') = scheduledIds l ++ scheduledIds l' := List.map_append

/-- The groups that `_schedule_running` has preempted. -/
def SchedulerRunningOutputs.preemptedIds (ret : SchedulerRunningOutputs) : List SeqId :=
  ret.swappedOut.reverse ++ ret.preempted.reverse

/-! ## The running queue -/

theorem preemptVictim_settled {ret ret' : SchedulerRunningOutputs} (h : Settled n w (id :: r) s)
    (hp : preemptVictim p none id ret s = some (ret', s')) :
    Settled n (id :: w) r s' ∧ SameLists s s' ∧
      ret'.decodeSeqGroups = ret.decodeSeqGroups ∧ ret'.prefillSeqGroups = ret.prefillSeqGroups ∧
      (ret'.swappedOut.reverse ++ ret'.preempted.reverse).Perm
        (id :: (ret.swappedOut.reverse ++ ret.preempted.reverse)) := by
  unfold preemptVictim at hp
  simp only [Prog.pure_bind, if_true] at hp
  obtain ⟨⟨mode, pairs⟩, s₁, h₁, hp⟩ := bind_iff.mp hp
  have i := h.preempt h₁
  have l := preempt_lists p id _ _ _ h₁
  cases mode with
  | recompute =>
    obtain ⟨rfl, rfl⟩ := pure_iff.mp hp
    refine ⟨i, l, rfl, rfl, ?_⟩
    rw [List.reverse_append]
    exact List.perm_middle
  | swap =>
    obtain ⟨rfl, rfl⟩ := pure_iff.mp hp
    refine ⟨i, l, rfl, rfl, ?_⟩
    rw [List.reverse_append]
    exact .refl _

theorem scheduleRunningGroup_outputs {k : Int} {c : Bool} {ret ret' : SchedulerRunningOutputs}
    (h : scheduleRunningGroup p id k c ret s = some (ret', s')) :
    ret'.preempted = ret.preempted ∧ ret'.swappedOut = ret.swappedOut ∧
      (scheduledIds ret'.decodeSeqGroups ++ scheduledIds ret'.prefillSeqGroups).Perm
        (id :: (scheduledIds ret.decodeSeqGroups ++ scheduledIds ret.prefillSeqGroups)) := by
  obtain ⟨cows, s₁, -, h⟩ := bind_iff.mp h
  rw [getGroup_bind, Option.bind_eq_some_iff] at h
  obtain ⟨g, -, h⟩ := h
  simp only [read_bind, ofOption_bind, Option.bind_eq_some_iff] at h
  obtain ⟨budget, -, h⟩ := h
  obtain ⟨_, s₂, -, h⟩ := bind_iff.mp h
  obtain ⟨rfl, -⟩ := pure_iff.mp h
  split
  · refine ⟨rfl, rfl, ?_⟩
    rw [scheduledIds_append, ← List.append_assoc]
    exact List.perm_append_singleton _ _
  · refine ⟨rfl, rfl, ?_⟩
    rw [scheduledIds_append, List.append_assoc]
    exact List.perm_middle

/-- The invariant of `_schedule_running`; `cur` is the group whose slots are being looked for. -/
def RunningInv (n : SeqId) (cur : Option (SeqId × Int)) (s : Scheduler) (ret : SchedulerRunningOutputs) :
    Prop :=
  Settled n (ret.swappedOut.reverse ++ ret.preempted.reverse ++ s.waiting)
    ((cur.map (·.1)).toList ++ s.running ++
      (scheduledIds ret.decodeSeqGroups ++ scheduledIds ret.prefillSeqGroups)) s

theorem RunningInv.quiet {cur : Option (SeqId × Int)} {ret : SchedulerRunningOutputs}
    (h : RunningInv n cur s ret) (q : SameQueues s s') : RunningInv n cur s' ret := by
  unfold RunningInv at h ⊢
  rw [q.waiting, q.running]
  exact h.quiet q

theorem scheduleRunning_settled {c : Bool} {ret : SchedulerRunningOutputs}
    (h : Settled n s.waiting s.running s) (hr : scheduleRunning p none c s = some (ret, s')) :
    Settled n (ret.swappedOut.reverse ++ ret.preempted.reverse ++ s'.waiting)
      (s'.running ++ (scheduledIds ret.decodeSeqGroups ++ scheduledIds ret.prefillSeqGroups)) s' := by
  simp only [scheduleRunning, read_bind, require_bind, Option.ite_none_right_eq_some] at hr
  obtain ⟨-, hr⟩ := hr
  have start : RunningInv n none s .empty := by
    unfold RunningInv
    simpa [SchedulerRunningOutputs.empty, scheduledIds] using h
  refine scheduleRunningLoop_rule (RunningInv n) c (fun _ _ _ _ q i => i.quiet q) ?_ ?_ ?_ ?_ hr start
  · -- the group fits and is scheduled
    intro id k s ret ret' s' i h
    obtain ⟨hp, hs, hperm⟩ := scheduleRunningGroup_outputs h
    have i' := i.quiet (scheduleRunningGroup_same p _ _ _ _ _ _ _ h)
    unfold RunningInv at i' ⊢
    rw [hp, hs]
    refine i'.perm (.refl _) ?_
    refine (List.Perm.append_left _ hperm).trans ?_
    exact List.perm_middle
  · -- the last group of the running queue is preempted
    intro cur v s ret ret' s' i hl hv
    have hsplit : s.running.dropLast ++ [v] = s.running := List.dropLast_append_getLast? v hl
    unfold RunningInv at i
    rw [← hsplit] at i
    have i₁ : Settled n (ret.swappedOut.reverse ++ ret.preempted.reverse ++ s.waiting)
        (v :: (((some cur).map (·.1)).toList ++ s.running.dropLast ++
          (scheduledIds ret.decodeSeqGroups ++ scheduledIds ret.prefillSeqGroups)))
        { s with running := s.running.dropLast } := by
      refine (i.perm (.refl _) ?_).same ⟨rfl, rfl, refl _⟩ rfl rfl
      rw [← List.append_assoc (Option.toList _), List.append_assoc _ [v]]
      exact List.perm_middle.symm
    obtain ⟨i₂, l, hd, hpf, hperm⟩ := preemptVictim_settled i₁ hv
    unfold RunningInv
    rw [l.waiting, l.running, hd, hpf]
    exact i₂.perm (hperm.append_right _) (.refl _)
  · -- the group itself is preempted
    intro id k s ret ret' s' i hnil hv
    unfold RunningInv at i
    have i₁ : Settled n (ret.swappedOut.reverse ++ ret.preempted.reverse ++ s.waiting) (id :: (s.running ++
        (scheduledIds ret.decodeSeqGroups ++ scheduledIds ret.prefillSeqGroups))) s :=
      i.perm (.refl _) (by simp)
    obtain ⟨i₂, l, hd, hpf, hperm⟩ := preemptVictim_settled i₁ hv
    unfold RunningInv
    rw [l.waiting, l.running, hd, hpf]
    exact i₂.perm (hperm.append_right _) (by simp)
  · -- the first group of the running queue is taken
    intro s₀ s id rest g k j ret i hr hg hk h
    unfold RunningInv at i ⊢
    rw [hr] at i
    exact (i.perm (.refl _) (by simp)).same ⟨rfl, rfl, refl _⟩ rfl rfl

end SchedM

end CoreFlow
