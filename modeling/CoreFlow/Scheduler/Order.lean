import CoreFlow.Scheduler.Finish

/-!
# The order of the queues

`_schedule` sorts both queues by query id before it looks at them. The sort is stable, with an explicit
`None` as the id of a group that was admitted without one, which no other key can be compared with. A
sorted running queue is taken from the front and preempted from the end, so that a victim never has a
smaller id than the group it makes room for.
-/

namespace CoreFlow

/-- The query id of a group, if it has one. -/
def SequenceGroup.queryId (g : SequenceGroup) : Option Int := g.extraArgs.bind fun args => args.queryId.join

/-- `/generate` always stores a query id, which is `None` for a request that has none. -/
def SequenceGroup.Admitted (g : SequenceGroup) : Prop := ∃ args ∈ g.extraArgs, ∃ q, args.queryId = some q

instance (g : SequenceGroup) : Decidable g.Admitted :=
  decidable_of_iff (∃ args ∈ g.extraArgs, args.queryId.isSome = true) (by simp only [Option.isSome_iff_exists]; rfl)

/-- Ids ascend, and a group without one comes last. -/
def idLe : Option Int → Option Int → Prop
  | _, none => True
  | none, some _ => False
  | some a, some b => a ≤ b

namespace Scheduler

def queryIdAt (s : Scheduler) (id : SeqId) : Option Int := (s.groups.get? id).bind (·.queryId)

/-- Every group of a queue was admitted by `/generate`. -/
def AllAdmitted (s : Scheduler) (queue : List SeqId) : Prop := ∀ id ∈ queue, ∃ g ∈ s.groups.get? id, g.Admitted

instance (s : Scheduler) (queue : List SeqId) : Decidable (s.AllAdmitted queue) :=
  inferInstanceAs (Decidable (∀ id ∈ queue, ∃ g ∈ s.groups.get? id, g.Admitted))

/-- Sorting a queue does not raise, and yields a stable permutation in the order of the ids. -/
def Sorts (s : Scheduler) (queue : List SeqId) : Prop :=
  ∃ sorted, SchedM.sortByQueryId queue s = some (sorted, s) ∧ sorted.Perm queue ∧
    sorted.Pairwise (fun a b => idLe (s.queryIdAt a) (s.queryIdAt b)) ∧
    ∀ q, sorted.filter (fun id => s.queryIdAt id = q) = queue.filter fun id => s.queryIdAt id = q

/-- A queue of at most one group, or of groups that all have an id. -/
def Identified (s : Scheduler) (queue : List SeqId) : Prop :=
  queue.length ≤ 1 ∨ ∀ id ∈ queue, (s.queryIdAt id).isSome = true

instance (s : Scheduler) (queue : List SeqId) : Decidable (s.Identified queue) :=
  inferInstanceAs (Decidable (queue.length ≤ 1 ∨ ∀ id ∈ queue, (s.queryIdAt id).isSome = true))

end Scheduler

/-! ## Sorting -/

/-- Sorting keeps the order of the elements of one key. -/
theorem filter_insertionSort {α κ : Type} [LinearOrder κ] (key : α → κ) (q : κ) (l : List α) :
    (l.insertionSort fun a b => key a ≤ key b).filter (fun a => key a = q) = l.filter fun a => key a = q := by
  have same : (l.filter fun a => key a = q).Pairwise fun a b => key a ≤ key b := by
    refine List.pairwise_of_forall_mem_list fun a ha b hb => ?_
    have ha : key a = q := of_decide_eq_true (List.mem_filter.mp ha).2
    have hb : key b = q := of_decide_eq_true (List.mem_filter.mp hb).2
    exact (ha.trans hb.symm).le
  have sub := (List.sublist_insertionSort same List.filter_sublist).filter fun a => decide (key a = q)
  rw [List.filter_filter] at sub
  simp only [Bool.and_self] at sub
  refine (sub.eq_of_length ?_).symm
  exact ((List.perm_insertionSort _ l).filter _).length_eq.symm

namespace SchedM
open Prog
variable {s : Scheduler} {queue : List SeqId}

/-- A group of the queue with its key. -/
def keyed (id : SeqId) : SchedM (SeqId × Int) := do
  let g ← getGroup id
  let key ← Prog.ofOption (extractQueryIdKey g)
  pure (id, key)

theorem sortByQueryId_eq (h : ¬ queue.length ≤ 1) : sortByQueryId queue = (do
    let keys ← Prog.mapM keyed queue
    pure ((keys.insertionSort fun a b => a.2 ≤ b.2).map (·.1))) := if_neg h

/-- The key of an admitted group is its id, which may be `None`. -/
theorem keyed_iff {id : SeqId} {x : SeqId × Int} {s' : Scheduler} (h : s.AllAdmitted (id :: queue)) :
    keyed id s = some (x, s') ↔ s.queryIdAt id = some x.2 ∧ x.1 = id ∧ s' = s := by
  obtain ⟨g, hg, args, hargs, q, hq⟩ := h id List.mem_cons_self
  rw [Option.mem_def] at hg hargs
  have hkey : extractQueryIdKey g = s.queryIdAt id := by
    simp [extractQueryIdKey, Scheduler.queryIdAt, SequenceGroup.queryId, hg, hargs, hq]
  obtain ⟨x₁, x₂⟩ := x
  rw [keyed, getGroup_bind, hg, Option.bind_some, ofOption_bind, hkey, Option.bind_eq_some_iff]
  simp only [pure_iff, Prod.mk.injEq]
  constructor
  · rintro ⟨key, hid, ⟨rfl, rfl⟩, rfl⟩
    exact ⟨hid, rfl, rfl⟩
  · rintro ⟨hid, rfl, rfl⟩
    exact ⟨x₂, hid, ⟨rfl, rfl⟩, rfl⟩

theorem mapM_keyed_iff {keys : List (SeqId × Int)} {s' : Scheduler} (h : s.AllAdmitted queue) :
    Prog.mapM keyed queue s = some (keys, s') ↔
      keys.map Prod.fst = queue ∧ (∀ x ∈ keys, s.queryIdAt x.1 = some x.2) ∧ s' = s := by
  induction queue generalizing keys with
  | nil =>
    rw [Prog.mapM, pure_iff, List.map_eq_nil_iff]
    constructor
    · rintro ⟨rfl, rfl⟩
      exact ⟨rfl, fun x hx => absurd hx List.not_mem_nil, rfl⟩
    · rintro ⟨rfl, -, rfl⟩
      exact ⟨rfl, rfl⟩
  | cons id queue ih =>
    have ih := @ih keys.tail fun x hx => h x (List.mem_cons_of_mem _ hx)
    rw [mapM_cons_iff]
    constructor
    · rintro ⟨x, s₁, keys, hx, hrest, rfl⟩
      obtain ⟨hid, hfst, rfl⟩ := (keyed_iff h).mp hx
      obtain ⟨hmap, hall, rfl⟩ := ih.mp hrest
      refine ⟨by rw [List.map_cons, hfst, ← hmap, List.tail_cons], fun y hy => ?_, rfl⟩
      rcases List.mem_cons.mp hy with rfl | hy
      · rw [hfst]
        exact hid
      · exact hall y hy
    · rintro ⟨hmap, hall, rfl⟩
      cases keys with
      | nil => cases hmap
      | cons x keys =>
        rw [List.map_cons, List.cons.injEq] at hmap
        obtain ⟨hfst, hmap⟩ := hmap
        have hx := hall x List.mem_cons_self
        rw [hfst] at hx
        exact ⟨x, s', keys, (keyed_iff h).mpr ⟨hx, hfst, rfl⟩,
          ih.mpr ⟨hmap, fun y hy => hall y (List.mem_cons_of_mem _ hy), rfl⟩, rfl⟩

theorem sorts_of_short (hlen : queue.length ≤ 1) : s.Sorts queue := by
  refine ⟨queue, by rw [sortByQueryId, if_pos hlen]; rfl, .refl _, ?_, fun q => rfl⟩
  cases queue with
  | nil => exact .nil
  | cons id rest =>
    obtain rfl : rest = [] := List.length_eq_zero_iff.mp (by simpa using hlen)
    exact List.pairwise_singleton _ _

theorem sorts_of_ids (h : s.AllAdmitted queue) (hlen : ¬ queue.length ≤ 1)
    (hids : ∀ id ∈ queue, (s.queryIdAt id).isSome = true) : s.Sorts queue := by
  have hkeys : ∀ x ∈ queue.map fun id => (id, (s.queryIdAt id).getD 0), s.queryIdAt x.1 = some x.2 := by
    intro x hx
    obtain ⟨id, hin, rfl⟩ := List.mem_map.mp hx
    obtain ⟨key, hkey⟩ := Option.isSome_iff_exists.mp (hids id hin)
    simp [hkey]
  have hfst : (queue.map fun id => (id, (s.queryIdAt id).getD 0)).map Prod.fst = queue := by
    simp [Function.comp_def]
  generalize (queue.map fun id => (id, (s.queryIdAt id).getD 0)) = keys at hkeys hfst
  have hperm := List.perm_insertionSort (fun a b : SeqId × Int => a.2 ≤ b.2) keys
  have hsorted : ∀ x ∈ keys.insertionSort fun a b => a.2 ≤ b.2, s.queryIdAt x.1 = some x.2 :=
    fun x hx => hkeys x (hperm.mem_iff.mp hx)
  refine ⟨_, by rw [sortByQueryId_eq hlen]; exact bind_iff.mpr ⟨keys, s, (mapM_keyed_iff h).mpr ⟨hfst, hkeys, rfl⟩, rfl⟩,
    (hperm.map Prod.fst).trans (.of_eq hfst), ?_, fun q => ?_⟩
  · rw [List.pairwise_map]
    refine (List.pairwise_insertionSort _ keys).imp_of_mem fun ha hb hle => ?_
    rw [hsorted _ ha, hsorted _ hb]
    exact hle
  · have by_key : ∀ l : List (SeqId × Int), (∀ x ∈ l, s.queryIdAt x.1 = some x.2) →
        (l.map Prod.fst).filter (fun id => s.queryIdAt id = q) = (l.filter fun x => some x.2 = q).map Prod.fst := by
      intro l hl
      rw [List.filter_map]
      exact congrArg _ (List.filter_congr fun x hx => by simp [hl x hx])
    rw [← hfst, by_key _ hsorted, by_key keys hkeys]
    cases q with
    | none => simp
    | some k =>
      simp only [Option.some.injEq]
      rw [filter_insertionSort Prod.snd k keys]

/-- The sort does what it is for exactly if no group without an id is compared. -/
theorem sorts_iff (h : s.AllAdmitted queue) : s.Sorts queue ↔ s.Identified queue := by
  constructor
  · rintro ⟨sorted, hrun, -⟩
    by_cases hlen : queue.length ≤ 1
    · exact .inl hlen
    · rw [sortByQueryId_eq hlen] at hrun
      obtain ⟨keys, s₁, hkeys, -⟩ := bind_iff.mp hrun
      obtain ⟨hfst, hall, -⟩ := (mapM_keyed_iff h).mp hkeys
      refine .inr fun id hin => ?_
      rw [← hfst] at hin
      obtain ⟨x, hx, rfl⟩ := List.mem_map.mp hin
      rw [hall x hx]
      rfl
  · intro hids
    by_cases hlen : queue.length ≤ 1
    · exact sorts_of_short hlen
    · exact sorts_of_ids h hlen (hids.resolve_left hlen)

/-! ## Making room -/

/-- Groups leave the running queue, and the others keep their order. -/
def Shrinks (s s' : Scheduler) : Prop := s'.running.Sublist s.running

theorem Shrinks.of_eq {s s' : Scheduler} (h : s'.running = s.running) : Shrinks s s' := by
  rw [Shrinks, h]

instance : IsPreorder Scheduler Shrinks where
  refl s := List.Sublist.refl s.running
  trans _ _ _ h h' := List.Sublist.trans h' h

section
variable (p : SchedulerParams) (callback : Option (RequestId → SchedM Unit))

/-- The inner loop of `_schedule_running` for the group `other` takes `victim` from the end of the queue. -/
inductive InnerPreempts (other : SeqId) (numRunningTokens : Int) : SchedulerRunningOutputs → Scheduler → SeqId → Prop
  | now {ret : SchedulerRunningOutputs} {s s₁ : Scheduler} {victim : SeqId}
      (full : canAppendSlots p other s = some (false, s₁)) (last : s₁.running.getLast? = some victim) :
      InnerPreempts other numRunningTokens ret s victim
  | later {ret ret' : SchedulerRunningOutputs} {s s₁ s₂ s₃ : Scheduler} {g : SequenceGroup} {v victim : SeqId}
      (full : canAppendSlots p other s = some (false, s₁)) (group : s₁.groups.get? other = some g)
      (budget : modifyBudget (fun b => (b.subtractNumBatchedTokens g.requestId numRunningTokens).subtractNumSeqs
        g.requestId g.getMaxNumRunningSeqs) s₁ = some ((), s₂))
      (last : s₂.running.getLast? = some v)
      (preempted : preemptVictim p callback v ret { s₂ with running := s₂.running.dropLast } = some (ret', s₃))
      (rest : InnerPreempts other numRunningTokens ret' s₃ victim) : InnerPreempts other numRunningTokens ret s victim

/-- The loop of `_schedule_running` takes `victim` from the queue for `other`, in some round. -/
inductive MakesRoom (enableChunking : Bool) : SchedulerRunningOutputs → Scheduler → SeqId → SeqId → Prop
  | inner {ret : SchedulerRunningOutputs} {s s₁ : Scheduler} {victim other : SeqId} {rest : List SeqId}
      {g : SequenceGroup} {n k : Int} (front : s.running = other :: rest) (group : s.groups.get? other = some g)
      (tokens : getNumNewUncachedAndCachedTokens p g .running enableChunking s = some ((n, k), s₁)) (some_tokens : n ≠ 0)
      (preempts : InnerPreempts p callback other n ret { s₁ with running := rest } victim) :
      MakesRoom enableChunking ret s victim other
  | next {ret ret' : SchedulerRunningOutputs} {s s₁ s₂ : Scheduler} {id victim other : SeqId} {rest : List SeqId}
      {g : SequenceGroup} {n k : Int} (front : s.running = id :: rest) (group : s.groups.get? id = some g)
      (tokens : getNumNewUncachedAndCachedTokens p g .running enableChunking s = some ((n, k), s₁)) (some_tokens : n ≠ 0)
      (scheduled : preemptUntilFits p callback id n enableChunking (rest.length + 1) ret
        { s₁ with running := rest } = some (ret', s₂))
      (later : MakesRoom enableChunking ret' s₂ victim other) : MakesRoom enableChunking ret s victim other
  | stopped {ret : SchedulerRunningOutputs} {s s₁ : Scheduler} {id victim other : SeqId} {rest : List SeqId}
      {g : SequenceGroup} {n k : Int} (front : s.running = id :: rest) (group : s.groups.get? id = some g)
      (tokens : getNumNewUncachedAndCachedTokens p g .running enableChunking s = some ((n, k), s₁)) (some_tokens : n ≠ 0)
      (later : MakesRoom enableChunking ret { s₁ with running := rest, asyncStopped := s₁.asyncStopped ++ [id] } victim other) :
      MakesRoom enableChunking ret s victim other

/-- The callback of asynchronous output processing may take finished groups out of the running queue, and
keeps the order of the others. -/
def KeepsOrder : Prop := ∀ f, callback = some f → ∀ requestId, Within Shrinks (f requestId)

variable {p callback} {c : Bool} {ret ret' : SchedulerRunningOutputs} {s' : Scheduler} {victim other : SeqId} {n : Int}

theorem preemptVictim_shrinks (hcallback : KeepsOrder callback) (victim : SeqId) (ret : SchedulerRunningOutputs) :
    Within Shrinks (preemptVictim p callback victim ret) := by
  unfold preemptVictim
  refine .bind ?_ fun doPreempt => .ite (.bind ((preempt_lists p victim).mono fun _ _ h => .of_eq h.running) ?_) (.pure _)
  · cases hcb : callback with
    | none => exact .pure _
    | some f =>
      have get : Within Shrinks (getGroup victim) := (getGroup_same victim).mono fun _ _ h => .of_eq h.running
      refine .bind get fun g => .bind (hcallback f hcb _) fun _ => .bind get fun g => .ite (.bind ?_ fun _ => .pure _) (.pure _)
      exact (freeFinishedSeqGroupBlocks_queued victim).mono fun _ _ h => .of_eq h.running
  · rintro ⟨mode, pairs⟩
    cases mode with
    | swap => exact .pure _
    | recompute => exact .pure _

/-- The inner loop only takes groups from the end. -/
theorem preemptUntilFits_shrinks (hcallback : KeepsOrder callback) (id : SeqId) (n : Int) (c : Bool) (fuel : Nat)
    (ret : SchedulerRunningOutputs) : Within Shrinks (preemptUntilFits p callback id n c fuel ret) := by
  induction fuel generalizing ret with
  | zero => exact .raise
  | succ fuel ih =>
    have fits := (canAppendSlots_same p id).mono fun _ _ h => Shrinks.of_eq h.running
    have group := (scheduleRunningGroup_same p id n c ret).mono fun _ _ h => Shrinks.of_eq h.running
    have get := (getGroup_same id).mono fun _ _ h => Shrinks.of_eq h.running
    have budget := fun f => (modifyBudget_same f).mono fun _ _ h => Shrinks.of_eq h.running
    refine .bind fits fun ok => .ite group (.bind get fun g => .bind (budget _) fun _ => .bind .read fun s => ?_)
    cases s.running.getLast? with
    | none => exact preemptVictim_shrinks hcallback id ret
    | some v =>
      refine .bind (.update fun s => List.dropLast_sublist _) fun _ => ?_
      exact .bind (preemptVictim_shrinks hcallback v ret) fun ret => ih ret

/-- A victim of the inner loop was behind in the queue. -/
theorem InnerPreempts.mem (hcallback : KeepsOrder callback) (h : InnerPreempts p callback other n ret s victim) :
    victim ∈ s.running := by
  induction h with
  | now full last =>
    rw [← (canAppendSlots_same p other _ _ _ full).running]
    exact List.mem_of_getLast? last
  | later full group budget last preempted rest ih =>
    rw [← (canAppendSlots_same p other _ _ _ full).running, ← (modifyBudget_same _ _ _ _ budget).running]
    have popped := preemptVictim_shrinks hcallback _ _ _ _ _ preempted
    exact (List.dropLast_sublist _).subset (popped.subset ih)

/-- In a sorted queue a victim comes after the group it makes room for. -/
theorem MakesRoom.related (hcallback : KeepsOrder callback) {r : SeqId → SeqId → Prop}
    (h : MakesRoom p callback c ret s victim other) (hsorted : s.running.Pairwise r) : r other victim := by
  induction h with
  | inner front group tokens some_tokens preempts =>
    rw [front] at hsorted
    exact (List.pairwise_cons.mp hsorted).1 _ (preempts.mem hcallback)
  | next front group tokens some_tokens scheduled later ih =>
    rw [front] at hsorted
    exact ih ((List.pairwise_cons.mp hsorted).2.sublist (preemptUntilFits_shrinks hcallback _ _ _ _ _ _ _ _ scheduled))
  | stopped front group tokens some_tokens later ih =>
    rw [front] at hsorted
    exact ih (List.pairwise_cons.mp hsorted).2

/-- Prefills leave the running queue alone. -/
theorem schedulePrefills_running {ret : SchedulerPrefillOutputs} (h : schedulePrefills p c s = some (ret, s')) :
    s'.running = s.running := by
  rw [schedulePrefills, read_bind] at h
  split at h
  · obtain ⟨-, rfl⟩ := pure_iff.mp h
    rfl
  obtain ⟨⟨ret₁, left⟩, s₁, h₁, h⟩ := bind_iff.mp h
  simp only [update_bind, pure_iff] at h
  obtain ⟨-, rfl⟩ := h
  show s₁.running = _
  refine schedulePrefillsLoop_rule (fun t _ _ => t.running = s.running) c ?_ ?_ ?_ ?_ h₁ rfl
  · intro t t' ret left q i
    exact q.running.trans i
  · intro t id rest ret left _ i
    exact i
  · intro t id rest t' ret left _ i ht
    obtain ⟨g, -, -, -, hq⟩ := prefillStep_same ht
    obtain ⟨t₁, q₁, q₂⟩ := hq rfl
    exact q₂.running.trans (q₁.running.trans i)
  · intro t id rest u k t₁ ret ret' t' left _ i ht ha
    obtain ⟨-, -, -, hq, -⟩ := prefillStep_same ht
    have q := hq (fun h => by cases h)
    exact (admitPrefill_lists _ _ _ _ _ _ _ _ ha).running.trans (q.running.trans i)

variable (p) in
/-- Under the fcfs policy `_schedule` calls `_schedule_running` in the state `s'`: after the sorts, and in the
default policy after prefills that admit no group. -/
def CallsRunning (s s' : Scheduler) : Prop :=
  p.priorityPolicy = false ∧ ∃ waiting running budget metadata,
    sortByQueryId s.waiting s = some (waiting, s) ∧ sortByQueryId s.running s = some (running, s) ∧
    let sorted := { s with waiting := waiting, running := running, budget := budget, partialPrefillMetadata := metadata }
    if p.chunkedPrefillEnabled = false ∧ s.swapped = [] ∧ s.pendingFinishedSwapOut = [] then
      ∃ ret, schedulePrefills p false sorted = some (ret, s') ∧ ret.seqGroups = []
    else s' = sorted

theorem CallsRunning.running (h : CallsRunning p s s') : sortByQueryId s.running s = some (s'.running, s) := by
  obtain ⟨-, waiting, running, budget, metadata, -, hsort, hcall⟩ := h
  dsimp only at hcall
  split at hcall
  · obtain ⟨ret, hprefills, -⟩ := hcall
    rw [schedulePrefills_running hprefills]
    exact hsort
  · rw [hcall]
    exact hsort

end

end SchedM

end CoreFlow
