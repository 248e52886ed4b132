import CoreFlow.Manager.Bookkeeping
import CoreFlow.Scheduler.Finish

/-!
# The scheduler and the per-sequence trackers

`Bookkeeping` is what the scheduler needs of the groups to keep the trackers in step: a running group has
a table, and the groups of retained sequences are finished. Counting the tokens of a waiting group
records hashes for a sequence without a table; the round that does so gives it a table or removes the
hashes again.
-/

namespace CoreFlow
open Prog SchedM

structure Bookkeeping (ok : Prop) (keys : Int × Int → Prop) (extra : Option SeqId) (s : Scheduler) : Prop where
  trackers : Trackers ok keys extra s.blockManager
  seqId : ∀ id g, s.groups.get? id = some g → g.seqId = id
  running : ∀ id g, s.groups.get? id = some g → g.status = .running → id ∈ s.blockManager.blockTables
  finished : ∀ key, ∀ id ∈ ManagerM.entrySeqIds s.blockManager key, ∀ g, s.groups.get? id = some g →
    g.isFinished = true
  counted : ∀ id ∈ s.blockManager.syntheticCachedTokens, ∃ g, s.groups.get? id = some g ∧
    (g.isFinished = true ∨ id ∈ s.blockManager.blockTables)

/-- The groups stay, and hashes are recorded for one sequence at most. -/
structure Looks (id : SeqId) (s s' : Scheduler) : Prop where
  groups : s'.groups = s.groups
  waiting : s'.waiting = s.waiting
  keysFor : KeysFor id s.blockManager s'.blockManager

instance (id : SeqId) : IsPreorder Scheduler (Looks id) where
  refl _ := ⟨rfl, rfl, refl _⟩
  trans _ _ _ h h' := ⟨h'.1.trans h.1, h'.2.trans h.2, IsTrans.trans _ _ _ h.3 h'.3⟩

theorem SameContent.looks {s s' : Scheduler} (h : SameContent s s') (id : SeqId) : Looks id s s' :=
  ⟨h.groups, h.waiting, by rw [h.blockManager]; exact refl _⟩

theorem SequenceGroup.cacheKey_congr {g g' : SequenceGroup} (h : g'.extraArgs = g.extraArgs) :
    g'.cacheKey = g.cacheKey := by
  unfold cacheKey
  rw [h]

/-- The keys of the groups of a queue are among `keys`. -/
def Claims (keys : Int × Int → Prop) (queue : List SeqId) (s : Scheduler) : Prop :=
  ∀ id ∈ queue, ∀ g key, s.groups.get? id = some g → g.cacheKey = some key → keys key

section
variable {p : SchedulerParams} {ok : Prop} {keys keys' : Int × Int → Prop} {extra extra' : Option SeqId}
  {s s' : Scheduler} {id : SeqId} {g g' : SequenceGroup} {queue : List SeqId}

theorem Claims.same (h : Claims keys queue s) (groups : s'.groups = s.groups) : Claims keys queue s' := by
  unfold Claims
  rw [groups]
  exact h

theorem Claims.subset (h : Claims keys queue s) {queue' : List SeqId} (hq : ∀ id ∈ queue', id ∈ queue) :
    Claims keys queue' s := fun id hid => h id (hq id hid)

theorem Claims.set (h : Claims keys queue s) (hg : s.groups.get? id = some g)
    (groups : s'.groups = s.groups.set id g') (args : g'.extraArgs = g.extraArgs) : Claims keys queue s' := by
  intro x hx gx key hgx hkey
  rw [groups, Dict.get?_set] at hgx
  split at hgx
  · rename_i e
    subst e
    obtain rfl := Option.some.inj hgx
    rw [SequenceGroup.cacheKey_congr args] at hkey
    exact h _ hx g key hg hkey
  · exact h x hx gx key hgx hkey

namespace Bookkeeping

/-- The groups stay, and tables and entries go that belong to no running group. -/
theorem shrink (h : Bookkeeping ok keys extra s) (trackers : Trackers ok keys' extra' s'.blockManager)
    (groups : s'.groups = s.groups)
    (tables : ∀ x g, s.groups.get? x = some g → g.status = .running → x ∈ s.blockManager.blockTables →
      x ∈ s'.blockManager.blockTables)
    (entries : ∀ key, ∀ x ∈ ManagerM.entrySeqIds s'.blockManager key, x ∈ ManagerM.entrySeqIds s.blockManager key)
    (counted : ∀ x ∈ s'.blockManager.syntheticCachedTokens, x ∈ s.blockManager.syntheticCachedTokens ∧
      ∀ g, s.groups.get? x = some g → g.isFinished = false → x ∈ s.blockManager.blockTables →
        x ∈ s'.blockManager.blockTables) :
    Bookkeeping ok keys' extra' s' := by
  refine ⟨trackers, ?_, fun x gx hx hs => ?_, fun key x hx gx hgx => ?_, fun x hx => ?_⟩
  · rw [groups]
    exact h.seqId
  · rw [groups] at hx
    exact tables x gx hx hs (h.running x gx hx hs)
  · rw [groups] at hgx
    exact h.finished key x (entries key x hx) gx hgx
  · obtain ⟨hold, kept⟩ := counted x hx
    obtain ⟨g, hg, hf⟩ := h.counted x hold
    refine ⟨g, by rw [groups]; exact hg, ?_⟩
    cases hfin : g.isFinished with
    | true => exact .inl rfl
    | false => exact .inr (kept g hg hfin (hf.resolve_left (by rw [hfin]; decide)))

theorem frame (h : Bookkeeping ok keys extra s) (groups : s'.groups = s.groups)
    (manager : s'.blockManager = s.blockManager) : Bookkeeping ok keys extra s' := by
  refine h.shrink ?_ groups ?_ ?_ ?_
  · rw [manager]
    exact h.trackers
  · rw [manager]
    exact fun _ _ _ _ ht => ht
  · rw [manager]
    exact fun _ _ hx => hx
  · rw [manager]
    exact fun _ hx => ⟨hx, fun _ _ _ ht => ht⟩

theorem content (h : Bookkeeping ok keys extra s) (q : SameContent s s') : Bookkeeping ok keys extra s' :=
  h.frame q.groups q.blockManager

theorem keepsCounted (h : KeepsCounted s.blockManager s'.blockManager) :
    ∀ x ∈ s'.blockManager.syntheticCachedTokens, x ∈ s.blockManager.syntheticCachedTokens ∧
      ∀ g, s.groups.get? x = some g → g.isFinished = false → x ∈ s.blockManager.blockTables →
        x ∈ s'.blockManager.blockTables :=
  fun x hx => ⟨(h x hx).1, fun _ _ _ => (h x hx).2⟩

theorem look (h : Bookkeeping ok keys extra s) (l : Looks id s s')
    (hid : id ∈ s.blockManager.blockTables ∨ extra = some id) : Bookkeeping ok keys extra s' := by
  refine h.shrink (h.trackers.track l.keysFor hid) l.groups (fun x _ _ _ ht => (l.keysFor.tables x).mpr ht) ?_
    (keepsCounted l.keysFor.keepsCounted)
  unfold ManagerM.entrySeqIds
  rw [l.keysFor.entries]
  exact fun _ _ hx => hx

theorem lookAt (h : Bookkeeping ok keys none s) (id : SeqId) : Bookkeeping ok keys (some id) s :=
  ⟨h.trackers.look id, h.seqId, h.running, h.finished, h.counted⟩

/-- A method of the block manager that leaves the keys of the trackers alone. -/
theorem quiet {α : Type} {x : ManagerM α} {a : α} (h : Bookkeeping ok keys extra s) (hx : Within SameTrackers x)
    (hs : onManager x s = some (a, s')) : Bookkeeping ok keys extra s' := by
  obtain ⟨m, hm, rfl⟩ := onManager_iff.mp hs
  have t := hx _ _ _ hm
  refine h.shrink (h.trackers.same t) rfl (fun x _ _ _ ht => (t.tables x).mpr ht) ?_ (keepsCounted t.keepsCounted)
  unfold ManagerM.entrySeqIds
  rw [t.entries]
  exact fun _ _ hx => hx

/-- No entry holds a sequence whose group is not finished. -/
theorem not_held (h : Bookkeeping ok keys extra s) (hg : s.groups.get? id = some g) (hf : g.isFinished = false)
    (key : Int × Int) : id ∉ ManagerM.entrySeqIds s.blockManager key := by
  intro hid
  rw [h.finished key id hid g hg] at hf
  cases hf

/-- A group is replaced, and no table or entry of another group changes. -/
theorem set (h : Bookkeeping ok keys extra s) (trackers : Trackers ok keys' extra' s'.blockManager)
    (hg : s.groups.get? id = some g) (groups : s'.groups = s.groups.set id g') (hseq : g'.seqId = g.seqId)
    (hfin : g.isFinished = true → g'.isFinished = true)
    (hrun : g'.status = .running → id ∈ s'.blockManager.blockTables)
    (tables : ∀ x, x ≠ id → x ∈ s.blockManager.blockTables → x ∈ s'.blockManager.blockTables)
    (entries : s'.blockManager.gpuCachedEntries = s.blockManager.gpuCachedEntries)
    (counted : ∀ x, x ≠ id → x ∈ s'.blockManager.syntheticCachedTokens → x ∈ s.blockManager.syntheticCachedTokens)
    (own : id ∈ s'.blockManager.syntheticCachedTokens → g'.isFinished = true ∨ id ∈ s'.blockManager.blockTables) :
    Bookkeeping ok keys' extra' s' := by
  have lookup (x : SeqId) (gx : SequenceGroup) (hx : s'.groups.get? x = some gx) :
      x = id ∧ gx = g' ∨ x ≠ id ∧ s.groups.get? x = some gx := by
    rw [groups, Dict.get?_set] at hx
    split at hx
    · rename_i e
      exact .inl ⟨e.symm, (Option.some.inj hx).symm⟩
    · rename_i e
      exact .inr ⟨fun he => e he.symm, hx⟩
  refine ⟨trackers, fun x gx hx => ?_, fun x gx hx hs => ?_, fun key x hx gx hgx => ?_, fun x hx => ?_⟩
  · rcases lookup x gx hx with ⟨rfl, rfl⟩ | ⟨-, hx⟩
    · exact hseq.trans (h.seqId x g hg)
    · exact h.seqId x gx hx
  · rcases lookup x gx hx with ⟨rfl, rfl⟩ | ⟨hne, hx⟩
    · exact hrun hs
    · exact tables x hne (h.running x gx hx hs)
  · unfold ManagerM.entrySeqIds at hx
    rw [entries] at hx
    rcases lookup x gx hgx with ⟨rfl, rfl⟩ | ⟨-, hgx⟩
    · exact hfin (h.finished key x hx g hg)
    · exact h.finished key x hx gx hgx
  · rw [groups]
    by_cases he : x = id
    · subst he
      exact ⟨g', Dict.get?_set_self _ _ _, own hx⟩
    · obtain ⟨gx, hgx, hf⟩ := h.counted x (counted x he hx)
      rw [Dict.get?_set_ne _ _ (Ne.symm he)]
      exact ⟨gx, hgx, hf.imp_right (tables x he)⟩

/-- The entry under a key goes with its tables. -/
theorem evict {key : Int × Int} {m : BlockSpaceManager} {u : Unit} (h : Bookkeeping ok keys extra s)
    (hkey : ok → keys key)
    (he : ManagerM.evictCachedBlocks p.toManagerParams key s.blockManager = some (u, m)) :
    Bookkeeping ok keys extra { s with blockManager := m } := by
  obtain ⟨tables, entries, -⟩ := ManagerM.evictCachedBlocks_owners he
  have live (x : SeqId) (gx : SequenceGroup) (hx : s.groups.get? x = some gx) (hf : gx.isFinished = false)
      (ht : x ∈ s.blockManager.blockTables) : x ∈ m.blockTables := by
    refine (tables x).mpr ⟨fun hin => ?_, ht⟩
    rw [h.finished key x hin gx hx] at hf
    cases hf
  refine h.shrink (ManagerM.evictCachedBlocks_trackers h.trackers hkey he) rfl (fun x gx hx hs ht => ?_) ?_
    fun x hx => ⟨ManagerM.evictCachedBlocks_fewer _ _ _ _ _ he x hx, fun gx hg hf => live x gx hg hf⟩
  · refine live x gx hx ?_ ht
    rw [SequenceGroup.isFinished, hs]
    rfl
  · intro k x hx
    unfold ManagerM.entrySeqIds at hx ⊢
    rw [entries, Dict.get?_erase] at hx
    split at hx
    · cases hx
    · exact hx

end Bookkeeping

/-! ## Counting tokens -/

namespace SchedM
variable (p)

theorem looks_of_content {α : Type} {x : SchedM α} (h : Within SameContent x) : Within (Looks id) x :=
  h.mono fun _ _ h => h.looks id

theorem onManager_looks {α : Type} {x : ManagerM α} (h : Within (KeysFor id) x) : Within (Looks id) (onManager x) :=
  .zoom h fun _ _ t => ⟨rfl, rfl, t⟩

theorem getNumCachedTokens_looks (g : SequenceGroup) (d : Device) :
    Within (Looks g.seqId) (getNumCachedTokens p g d) :=
  onManager_looks (ManagerM.getNumCachedTokens_keysFor _ g d)

theorem resolveCachedPrefixLen_looks (g : SequenceGroup) :
    Within (Looks g.seqId) (resolveCachedPrefixLen p g) := resolveCachedPrefixLen_rule p (getNumCachedTokens_looks p g)

theorem getNumNewUncachedAndCachedTokens_looks (g : SequenceGroup) (status : SequenceStatus) (c : Bool) :
    Within (Looks g.seqId) (getNumNewUncachedAndCachedTokens p g status c) :=
  getNumNewUncachedAndCachedTokens_rule p (getNumCachedTokens_looks p g) status c

end SchedM

namespace Bookkeeping

/-- The tokens of a running group are counted: its sequence has a table. -/
theorem countRunning {c : Bool} {x : Int × Int} (h : Bookkeeping ok keys extra s) (hg : s.groups.get? id = some g)
    (hs : getNumNewUncachedAndCachedTokens p g .running c s = some (x, s')) : Bookkeeping ok keys extra s' := by
  have l := getNumNewUncachedAndCachedTokens_looks p g .running c _ _ _ hs
  by_cases hrun : g.status = .running
  · rw [h.seqId id g hg] at l
    exact h.look l (.inl (h.running id g hg hrun))
  · rw [getNumNewUncachedAndCachedTokens, if_pos hrun] at hs
    rw [(pure_iff.mp hs).2]
    exact h

/-! ## Preemption -/

/-- The table of a group that does not run goes. -/
theorem free {u : Unit} (h : Bookkeeping ok keys extra s)
    (hg : ∀ g, s.groups.get? id = some g → g.status ≠ .running) (hf : freeSeq p id s = some (u, s')) :
    Bookkeeping ok keys extra s' := by
  obtain ⟨groups, tables, entries, -⟩ := freeSeq_spec hf
  obtain ⟨m, hm, rfl⟩ := onManager_iff.mp hf
  refine h.shrink (ManagerM.free_trackers h.trackers hm) groups (fun x gx hx hs ht => ?_) ?_
    (keepsCounted (ManagerM.free_keepsCounted _ _ _ _ hm))
  · refine (tables x).mpr ⟨?_, ht⟩
    rintro rfl
    exact hg gx hx hs
  · unfold ManagerM.entrySeqIds
    rw [entries]
    exact fun _ _ hx => hx

end Bookkeeping

namespace SchedM

/-- A relation of block managers, of the block managers of schedulers. -/
abbrev OfManagers (R : BlockSpaceManager → BlockSpaceManager → Prop) (s s' : Scheduler) : Prop :=
  R s.blockManager s'.blockManager

section
variable {R : BlockSpaceManager → BlockSpaceManager → Prop} [IsPreorder BlockSpaceManager R]

instance : IsPreorder Scheduler (OfManagers R) where
  refl s := refl s.blockManager
  trans _ _ _ h h' := IsTrans.trans (r := R) _ _ _ h h'

theorem ofManagers_of_content {α : Type} {x : SchedM α} (h : Within SameContent x) : Within (OfManagers R) x := by
  refine h.mono fun s s' q => ?_
  show R s.blockManager s'.blockManager
  rw [q.blockManager]
  exact refl _

theorem setGroup_ofManagers (id : SeqId) (g : SequenceGroup) : Within (OfManagers R) (setGroup id g) :=
  .update fun s => refl s.blockManager

/-- A preemption leaves the keys of the trackers alone and frees the sequence. -/
theorem preempt_ofManagers (same : ∀ m m', SameTrackers m m' → R m m')
    (free : Within R (ManagerM.free p.toManagerParams id)) : Within (OfManagers R) (preempt p id) := by
  have group : Within (OfManagers R) (getGroup id) := ofManagers_of_content (getGroup_content id)
  have manager {α : Type} {x : ManagerM α} (h : Within SameTrackers x) : Within (OfManagers R) (onManager x) :=
    .zoom (h.mono same) fun _ _ h => h
  have freed : Within (OfManagers R) (freeSeq p id) := by
    unfold freeSeq onManager
    exact .zoom free fun _ _ h => h
  have status (st : SequenceStatus) : Within (OfManagers R) (setStatus id st) :=
    .bind group fun _ => setGroup_ofManagers _ _
  have swapped : Within (OfManagers R) (swapOut p id) := by
    refine .bind group fun g => .bind (manager (ManagerM.canSwapOut_trackers _ _)) fun _ => .bind (.require _) fun _ =>
      .bind (ofManagers_of_content time_content) fun now =>
        .bind (manager (ManagerM.swapOut_trackers _ _ _)) fun _ => .bind (.when (status _)) fun _ => .pure _
  refine .bind group fun g => ?_
  split
  · exact .bind (.bind group fun _ => .bind (.require _) fun _ => .bind (status _) fun _ =>
      .bind freed fun _ => .bind group fun _ => setGroup_ofManagers _ _) fun _ => .pure _
  · refine .bind (.bind swapped fun _ => .bind group fun _ => .bind (.when ?_) fun _ => .pure _) fun _ => .pure _
    exact .bind (setGroup_ofManagers _ _) fun _ => freed

end

end SchedM

theorem Bookkeeping.preempt {x : PreemptionMode × List SwapPair} (h : Bookkeeping ok keys extra s)
    (hp : SchedM.preempt p id s = some (x, s')) : Bookkeeping ok keys extra s' := by
  have trackers : Trackers ok keys extra s'.blockManager :=
    preempt_ofManagers (R := Preserves (Trackers ok keys extra)) (fun _ _ t i => i.same t)
      (fun _ _ _ hf i => ManagerM.free_trackers i hf) _ _ _ hp h.trackers
  have kept : KeepsCounted s.blockManager s'.blockManager :=
    preempt_ofManagers (fun _ _ t => t.keepsCounted) (ManagerM.free_keepsCounted id) _ _ _ hp
  obtain ⟨g, hg, entries, ⟨groups, tables⟩ | ⟨hf, groups, tables⟩⟩ := preempt_cases hp
  · refine h.shrink trackers groups (fun x _ _ _ ht => (tables x).mpr ht) ?_ (keepsCounted kept)
    unfold ManagerM.entrySeqIds
    rw [entries]
    exact fun _ _ hx => hx
  · refine h.set trackers hg groups rfl (fun ht => ?_) (fun hs => by cases hs)
      (fun x hx ht => (tables x).mpr ⟨hx, ht⟩) entries (fun x _ hx => (kept x hx).1) fun hid => .inr ?_
    · rw [ht] at hf
      cases hf
    · -- an unfinished sequence with a count had a table
      obtain ⟨hold, htable⟩ := kept id hid
      obtain ⟨g', hg', hf'⟩ := h.counted id hold
      obtain rfl := Option.some.inj (hg.symm.trans hg')
      exact htable (hf'.resolve_left (by rw [hf]; decide))

theorem Claims.preempt {x : PreemptionMode × List SwapPair} (h : Claims keys queue s)
    (hp : SchedM.preempt p id s = some (x, s')) : Claims keys queue s' := by
  obtain ⟨g, hg, -, ⟨groups, -⟩ | ⟨-, groups, -⟩⟩ := preempt_cases hp
  · exact h.same groups
  · exact h.set hg groups rfl

/-! ## The running queue -/

theorem preemptVictim_bookkeeping {ret ret' : SchedulerRunningOutputs} (h : Bookkeeping ok keys extra s)
    (hc : Claims keys queue s) (hp : preemptVictim p none id ret s = some (ret', s')) :
    Bookkeeping ok keys extra s' ∧ Claims keys queue s' ∧ s'.waiting = s.waiting := by
  unfold preemptVictim at hp
  simp only [Prog.pure_bind, if_true] at hp
  obtain ⟨⟨mode, pairs⟩, s₁, h₁, hp⟩ := bind_iff.mp hp
  have done : s' = s₁ := by
    cases mode <;> exact (pure_iff.mp hp).2
  rw [done]
  exact ⟨h.preempt h₁, hc.preempt h₁, (preempt_lists p id _ _ _ h₁).waiting⟩

theorem scheduleRunningGroup_bookkeeping {n : Int} {c : Bool} {ret ret' : SchedulerRunningOutputs}
    (h : Bookkeeping ok keys extra s) (hs : scheduleRunningGroup p id n c ret s = some (ret', s')) :
    Bookkeeping ok keys extra s' := by
  obtain ⟨cows, s₁, h₁, hs⟩ := bind_iff.mp hs
  have i₁ : Bookkeeping ok keys extra s₁ := by
    rw [appendSlots, getGroup_bind, Option.bind_eq_some_iff] at h₁
    obtain ⟨g, -, h₁⟩ := h₁
    split at h₁
    · exact h.quiet (ManagerM.appendSlots_trackers _ _ _) h₁
    · rw [(pure_iff.mp h₁).2]
      exact h
  obtain ⟨g, s₂, h₂, hs⟩ := bind_iff.mp hs
  rw [read_bind, ofOption_bind, Option.bind_eq_some_iff] at hs
  obtain ⟨budget, -, hs⟩ := hs
  obtain ⟨_, s₃, h₃, hs⟩ := bind_iff.mp hs
  rw [(pure_iff.mp hs).2]
  exact (i₁.content (getGroup_content _ _ _ _ h₂)).content (modifyBudget_content _ _ _ _ h₃)

/-- Making slots for the running groups leaves the waiting queue and what its groups claim. -/
theorem scheduleRunning_bookkeeping {c : Bool} {ret : SchedulerRunningOutputs} (h : Bookkeeping ok keys none s)
    (hc : Claims keys queue s) (hr : scheduleRunning p none c s = some (ret, s')) :
    Bookkeeping ok keys none s' ∧ Claims keys queue s' ∧ s'.waiting = s.waiting := by
  simp only [scheduleRunning, read_bind, require_bind, Option.ite_none_right_eq_some] at hr
  let I (t : Scheduler) : Prop := Bookkeeping ok keys none t ∧ Claims keys queue t ∧ t.waiting = s.waiting
  have preempted {t t' : Scheduler} {v : SeqId} {ret ret' : SchedulerRunningOutputs} (i : I t)
      (hv : preemptVictim p none v ret t = some (ret', t')) : I t' := by
    obtain ⟨i', hc, hw⟩ := preemptVictim_bookkeeping i.1 i.2.1 hv
    exact ⟨i', hc, hw.trans i.2.2⟩
  refine scheduleRunningLoop_steps (fun _ t _ => I t) c ?_ ?_ ?_ ?_ ?_ ?_ ?_ hr.2 ⟨h, hc, rfl⟩
  · intro cur t t' ret q i
    exact ⟨i.1.content q.toSameContent, i.2.1.same q.groups, q.waiting.trans i.2.2⟩
  · intro id n t ret g i _
    exact ⟨i.1.frame rfl rfl, i.2.1.same rfl, i.2.2⟩
  · intro id n t ret ret' t' i hs
    have q := scheduleRunningGroup_same p _ _ _ _ _ _ _ hs
    exact ⟨scheduleRunningGroup_bookkeeping i.1 hs, i.2.1.same q.groups, q.waiting.trans i.2.2⟩
  · intro cur v t ret ret' t' i _ hv
    have taken : I { t with running := t.running.dropLast } := ⟨i.1.frame rfl rfl, i.2.1.same rfl, i.2.2⟩
    exact preempted taken hv
  · intro id n t ret ret' t' i _ hv
    exact preempted i hv
  · intro t t' id rest g x ret i _ hg hs
    have q := getNumNewUncachedAndCachedTokens_same p g _ c _ _ _ hs
    exact ⟨i.1.countRunning hg hs, i.2.1.same q.groups, q.waiting.trans i.2.2⟩
  · intro t₀ t id rest g n k ret i _ _ _ _
    exact ⟨i.1.frame rfl rfl, i.2.1.same rfl, i.2.2⟩

/-! ## The waiting queue -/

/-- The hashes of a sequence that was looked at are removed. -/
theorem Bookkeeping.forget {status : SequenceStatus} {u : Unit} (h : Bookkeeping ok keys (some id) s)
    (hg : s.groups.get? id = some g) (hs : g.status = status)
    (hr : removeSeqFromComputedBlocksTracker id status s = some (u, s')) : Bookkeeping ok keys none s' := by
  rw [removeSeqFromComputedBlocksTracker, getGroup_bind, hg, Option.bind_some, when_pos hs] at hr
  obtain ⟨m, hm, rfl⟩ := onManager_iff.mp hr
  have d := ManagerM.removeSeqFromComputedBlocksTracker_drops id _ _ _ hm
  have trackers : Trackers ok keys none m := h.trackers.drop d
  refine h.shrink trackers rfl (fun x _ _ _ ht => ?_) ?_ (keepsCounted d.keepsCounted)
  · show x ∈ m.blockTables
    rw [d.tables]
    exact ht
  · unfold ManagerM.entrySeqIds
    rw [d.entries]
    exact fun _ _ hx => hx

/-- The sequence whose hashes a round may leave without a table. -/
def SchedM.PrefillStep.looked (id : SeqId) : PrefillStep → Option SeqId
  | .accept _ _ => some id
  | _ => none

theorem Bookkeeping.prefillStep {c : Bool} {step : PrefillStep} (h : Bookkeeping ok keys none s)
    (hc : Claims keys queue s) (hstep : SchedM.prefillStep p id c s = some (step, s')) :
    Bookkeeping ok keys (step.looked id) s' ∧ Claims keys queue s' := by
  obtain ⟨g, hg, hw, ⟨rfl, rfl⟩ | ⟨u, k, s₁, h₁, hs⟩⟩ := prefillStep_cases hstep
  · exact ⟨h, hc⟩
  have l := getNumNewUncachedAndCachedTokens_looks p g .waiting c _ _ _ h₁
  rw [h.seqId id g hg] at l
  have i₁ := (h.lookAt id).look l (.inr rfl)
  have c₁ := hc.same l.groups
  have hg₁ : s₁.groups.get? id = some g := by rw [l.groups]; exact hg
  rcases hs with ⟨rfl, hs⟩ | ⟨rfl, hs⟩ | ⟨rfl, rfl⟩
  · have q := removeSeqFromComputedBlocksTracker_same _ _ _ _ _ hs
    exact ⟨i₁.forget hg₁ hw hs, c₁.same q.groups⟩
  · have q := removeSeqFromComputedBlocksTracker_same _ _ _ _ _ hs
    have i₂ : Bookkeeping ok keys (some id)
        { s₁ with groups := s₁.groups.set id { g with status := .finishedIgnored } } := by
      exact i₁.set i₁.trackers hg₁ rfl rfl (fun _ => rfl) (fun hs => by cases hs) (fun _ _ ht => ht) rfl
        (fun _ _ hx => hx) (fun _ => .inl rfl)
    have c₂ : Claims keys queue
        { s₁ with groups := s₁.groups.set id { g with status := .finishedIgnored } } := c₁.set hg₁ rfl rfl
    exact ⟨i₂.forget (Dict.get?_set_self _ _ _) rfl hs, c₂.same q.groups⟩
  · exact ⟨i₁, c₁⟩

/-- The sequence that was looked at gets its table, and a synthetic count if its request or an entry says
so. -/
theorem allocateAndSetRunning_bookkeeping {pairs : List SwapPair} (h : Bookkeeping ok keys (some id) s)
    (hg : s.groups.get? id = some g) (ha : allocateAndSetRunning p id s = some (pairs, s')) :
    Bookkeeping ok keys none s' := by
  obtain ⟨-, ⟨g', hreg, groups⟩, tables, entries, -⟩ := allocateAndSetRunning_spec hg ha
  obtain ⟨-, hseq', -⟩ := hreg.frame
  have hseq := h.seqId id g hg
  rw [hseq] at tables
  rw [allocateAndSetRunning, getGroup_bind, hg, Option.bind_some] at ha
  obtain ⟨pairs', s₁, h₁, ha⟩ := bind_iff.mp ha
  obtain ⟨m₁, hm₁, rfl⟩ := onManager_iff.mp h₁
  obtain ⟨hwait, -, tables₁, entries₁, -⟩ := ManagerM.allocate_owners hm₁
  have hf : g.isFinished = false := by
    rw [SequenceGroup.isFinished, hwait]
    rfl
  obtain ⟨trackers, counted⟩ : Trackers ok keys none s'.blockManager ∧ ∀ x, x ≠ id →
      x ∈ s'.blockManager.syntheticCachedTokens → x ∈ s.blockManager.syntheticCachedTokens := by
    obtain ⟨t₁, synthetic₁⟩ := ManagerM.allocate_trackers h.trackers (.inr (by rw [hseq])) hm₁
    obtain ⟨initial, s₂, h₂, ha⟩ := bind_iff.mp ha
    have l₂ := resolveCachedPrefixLen_looks p g _ _ _ h₂
    obtain ⟨synthetic, s₃, h₃, ha⟩ := bind_iff.mp ha
    have l₃ := IsTrans.trans _ _ _ l₂ (hasSyntheticCacheSource_any _ _ _ h₃)
    have t₃ : Trackers ok keys none s₃.blockManager :=
      t₁.track l₃.keysFor (.inl ((tables₁ _).mpr (.inl rfl)))
    have same₃ : s₃.blockManager.syntheticCachedTokens = s.blockManager.syntheticCachedTokens :=
      l₃.keysFor.synthetic.trans synthetic₁
    obtain ⟨_, s₄, h₄, ha⟩ := bind_iff.mp ha
    obtain ⟨_, s₅, h₅, ha⟩ := bind_iff.mp ha
    obtain ⟨rfl, rfl⟩ := pure_iff.mp ha
    obtain ⟨g₅, -, rfl⟩ := setStatus_iff.mp h₅
    show Trackers ok keys none s₄.blockManager ∧ ∀ x, x ≠ id → x ∈ s₄.blockManager.syntheticCachedTokens → _
    rw [← same₃]
    unfold Prog.when at h₄
    split at h₄
    · obtain ⟨k, s₆, h₆, h₄⟩ := bind_iff.mp h₄
      obtain ⟨m₆, hm₆, rfl⟩ := onManager_iff.mp h₆
      have t₆ : Trackers ok keys none m₆ := by
        refine ManagerM.registerSyntheticCachedTokens_trackers t₃ (fun key => ?_) hm₆
        unfold ManagerM.entrySeqIds
        rw [l₃.keysFor.entries, entries₁, hseq]
        exact h.not_held hg hf key
      have c₆ (x : SeqId) (hne : x ≠ id) (hx : x ∈ m₆.syntheticCachedTokens) :
          x ∈ s₃.blockManager.syntheticCachedTokens := by
        refine (ManagerM.registerSyntheticCachedTokens_counts hm₆ x hx).resolve_left ?_
        rw [hseq]
        exact hne
      split at h₄
      · simp only [ofOption_bind, Option.bind_eq_some_iff, setGroup_iff] at h₄
        obtain ⟨g'', -, rfl⟩ := h₄
        exact ⟨t₆, c₆⟩
      · rw [(pure_iff.mp h₄).2]
        exact ⟨t₆, c₆⟩
    · rw [(pure_iff.mp h₄).2]
      exact ⟨t₃, fun _ _ hx => hx⟩
  refine h.set trackers hg groups hseq' (fun ht => ?_) (fun _ => (tables id).mpr (.inl rfl))
    (fun x _ ht => (tables x).mpr (.inr ht)) entries counted (fun _ => .inr ((tables id).mpr (.inl rfl)))
  rw [ht] at hf
  cases hf

/-- The entry under the key of a group goes, if the key is among `keys`. -/
theorem Bookkeeping.consume {u : Unit} (h : Bookkeeping ok keys extra s)
    (hkey : ∀ key, g.cacheKey = some key → keys key) (hs : consumeExactGpuCacheHit p g s = some (u, s')) :
    Bookkeeping ok keys extra s' := by
  unfold consumeExactGpuCacheHit at hs
  cases hk : g.cacheKey with
  | none =>
    rw [hk] at hs
    rw [(pure_iff.mp hs).2]
    exact h
  | some key =>
    rw [hk] at hs
    obtain ⟨m, hm, rfl⟩ := onManager_iff.mp hs
    exact h.evict (fun _ => hkey key hk) hm

/-- An admitted group gets its table and consumes the entry under its key, which is among `keys`. -/
theorem admitPrefill_bookkeeping {numUncached numCached : Int} {ret ret' : SchedulerPrefillOutputs}
    (h : Bookkeeping ok keys (some id) s) (hc : Claims keys queue s)
    (hkey : ∀ g key, s.groups.get? id = some g → g.cacheKey = some key → keys key)
    (ha : admitPrefill p id numUncached numCached ret s = some (ret', s')) :
    Bookkeeping ok keys none s' ∧ Claims keys queue s' := by
  obtain ⟨g, pairs, s₂, s₃, hg, h₂, h₃, q, -⟩ := admitPrefill_steps ha
  have i₂ := allocateAndSetRunning_bookkeeping h hg h₂
  have c₂ : Claims keys queue s₂ := by
    obtain ⟨-, ⟨g', hreg, groups⟩, -⟩ := allocateAndSetRunning_spec hg h₂
    obtain ⟨-, -, -, -, -, hargs⟩ := hreg.frame
    exact hc.set hg groups hargs
  have recorded : Bookkeeping ok keys none (recordAdmission (admissionOf id g s.blockManager s₂) s₂) := by
    refine i₂.shrink (i₂.trackers.same ?_) rfl (fun _ _ _ _ ht => ht) (fun _ _ hx => hx)
      fun _ hx => ⟨hx, fun _ _ _ ht => ht⟩
    exact ⟨fun _ => Iff.rfl, fun _ => Iff.rfl, rfl, rfl, rfl⟩
  have i₃ := recorded.consume (fun key hk => hkey g key hg hk) h₃
  exact ⟨i₃.content q, (c₂.same (consumeExactGpuCacheHit_spec h₃).1).same q.groups⟩

theorem schedulePrefills_bookkeeping {c : Bool} {ret : SchedulerPrefillOutputs} (h : Bookkeeping ok keys none s)
    (hc : Claims keys s.waiting s) (hp : schedulePrefills p c s = some (ret, s')) :
    Bookkeeping ok keys none s' := by
  rw [schedulePrefills, read_bind] at hp
  split at hp
  · rw [(pure_iff.mp hp).2]
    exact h
  obtain ⟨⟨ret₁, left⟩, s₁, h₁, hp⟩ := bind_iff.mp hp
  simp only [update_bind, pure_iff] at hp
  obtain ⟨-, rfl⟩ := hp
  refine Bookkeeping.frame (s := s₁) ?_ rfl rfl
  let I (t : Scheduler) : Prop := Bookkeeping ok keys none t ∧ Claims keys t.waiting t
  refine (schedulePrefillsLoop_steps (fun t _ _ => I t) c ?_ ?_ ?_ ?_ ?_ h₁ ⟨h, hc⟩).1
  · intro t t' ret left q i
    refine ⟨i.1.content q.toSameContent, ?_⟩
    rw [q.waiting]
    exact i.2.same q.groups
  · intro t id rest t' ret left _ i hs
    obtain ⟨i', c'⟩ := i.1.prefillStep i.2 hs
    obtain ⟨g, -, -, hq, -⟩ := prefillStep_same hs
    refine ⟨i', ?_⟩
    rw [(hq fun h => by cases h).waiting]
    exact c'
  · intro t id rest t' ret left hw i hs
    obtain ⟨i', c'⟩ := i.1.prefillStep i.2 hs
    exact ⟨i'.frame rfl rfl, (c'.subset fun x hx => hw ▸ List.mem_cons_of_mem _ hx).same rfl⟩
  · intro t id rest t' ret left hw i hs
    obtain ⟨i', c'⟩ := i.1.prefillStep i.2 hs
    exact ⟨i'.frame rfl rfl, (c'.subset fun x hx => hw ▸ List.mem_cons_of_mem _ hx).same rfl⟩
  · intro t id rest numUncached numCached t₁ ret ret' t' left hw i hs ha
    obtain ⟨i₁, c₁⟩ := i.1.prefillStep i.2 hs
    rw [hw] at c₁
    have popped : Bookkeeping ok keys (some id) { t₁ with waiting := rest } := i₁.frame rfl rfl
    have claims : Claims keys rest { t₁ with waiting := rest } :=
      (c₁.subset fun x hx => List.mem_cons_of_mem _ hx).same rfl
    have own (g : SequenceGroup) (key : Int × Int) (hg : t₁.groups.get? id = some g) (hk : g.cacheKey = some key) :
        keys key := c₁ id (List.mem_cons_self ..) g key hg hk
    obtain ⟨i', c'⟩ := admitPrefill_bookkeeping popped claims own ha
    refine ⟨i', ?_⟩
    rw [(admitPrefill_lists p id _ _ _ _ _ _ ha).waiting]
    exact c'

theorem schedulePriorityPreemption_bookkeeping {u : Unit} (h : Bookkeeping ok keys none s)
    (hp : schedulePriorityPreemption p s = some (u, s')) : Bookkeeping ok keys none s' := by
  rw [schedulePriorityPreemption, read_bind] at hp
  obtain ⟨sorted, s₁, h₁, hp⟩ := bind_iff.mp hp
  have i₁ := h.content (sortedByPriority_content _ _ _ _ h₁)
  cases hw : s.waiting with
  | nil =>
    rw [hw] at hp
    rw [update_iff.mp hp]
    exact i₁.frame rfl rfl
  | cons id rest =>
    simp only [hw, getGroup_bind, Option.bind_eq_some_iff] at hp
    obtain ⟨g, hg, hp⟩ := hp
    obtain ⟨⟨numUncached, k⟩, s₂, h₂, hp⟩ := bind_iff.mp hp
    obtain ⟨⟨running, victims⟩, s₃, h₃, hp⟩ := bind_iff.mp hp
    obtain ⟨_, s₄, h₄, hp⟩ := bind_iff.mp hp
    obtain ⟨waiting, s₅, h₅, hp⟩ := bind_iff.mp hp
    rw [update_iff.mp hp]
    have l₂ := getNumNewUncachedAndCachedTokens_looks p g .waiting false _ _ _ h₂
    rw [i₁.seqId id g hg] at l₂
    -- the head is looked at only if it waits, and then it waits until its hashes are removed
    let Waits (t : Scheduler) : Prop := ∃ g, t.groups.get? id = some g ∧ g.status = .waiting
    let I (t : Scheduler) : Prop := Bookkeeping ok keys none t ∨ Bookkeeping ok keys (some id) t ∧ Waits t
    have i₂ : I s₂ := by
      by_cases hwait : g.status = .waiting
      · exact .inr ⟨(i₁.lookAt id).look l₂ (.inr rfl), g, by rw [l₂.groups]; exact hg, hwait⟩
      · rw [getNumNewUncachedAndCachedTokens, if_pos hwait] at h₂
        rw [(pure_iff.mp h₂).2]
        exact .inl i₁
    have i₃ : I s₃ := by
      refine priorityPreemptionLoop_steps (fun t _ _ => I t) ?_ ?_ ?_ h₃ i₂
      · intro t t' _ _ q i
        refine i.imp (fun i => i.content q) fun i => ⟨i.1.content q, ?_⟩
        obtain ⟨g, hg, hs⟩ := i.2
        exact ⟨g, by rw [q.groups]; exact hg, hs⟩
      · intro t t' v gv x _ _ i hgv hs
        refine i.imp (fun i => i.countRunning hgv hs) fun i => ⟨i.1.countRunning hgv hs, ?_⟩
        obtain ⟨g, hg, hwait⟩ := i.2
        exact ⟨g, by rw [(getNumNewUncachedAndCachedTokens_same p gv _ _ _ _ _ hs).groups]; exact hg, hwait⟩
      · intro t v _ _ mode pairs t₁ t' i ht hu
        have unused {extra : Option SeqId} (i : Bookkeeping ok keys extra t₁) : Bookkeeping ok keys extra t' :=
          i.quiet (ManagerM.leaveUnused_trackers pairs) hu
        refine i.imp (fun i => unused (i.preempt ht)) fun i => ⟨unused (i.1.preempt ht), ?_⟩
        obtain ⟨m, -, rfl⟩ := onManager_iff.mp hu
        obtain ⟨g, hg, hwait⟩ := i.2
        obtain ⟨gv, -, -, ⟨groups, -⟩ | ⟨-, groups, -⟩⟩ := preempt_cases ht
        · exact ⟨g, by rw [← groups] at hg; exact hg, hwait⟩
        · show ∃ g, t₁.groups.get? id = some g ∧ _
          rw [groups, Dict.get?_set]
          split
          · exact ⟨_, rfl, rfl⟩
          · exact ⟨g, hg, hwait⟩
    have i₄ : Bookkeeping ok keys none s₄ := by
      have forget {t : Scheduler} (i : Bookkeeping ok keys (some id) t) (hw : Waits t)
          (hr : removeSeqFromComputedBlocksTracker id .waiting t = some ((), s₄)) : Bookkeeping ok keys none s₄ := by
        obtain ⟨g, hg, hs⟩ := hw
        exact i.forget hg hs hr
      rcases i₃ with i | ⟨i, hw⟩
      · by_cases hw : Waits s₃
        · exact forget (i.lookAt id) hw h₄
        · rw [removeSeqFromComputedBlocksTracker, getGroup_bind, Option.bind_eq_some_iff] at h₄
          obtain ⟨g', hg', h₄⟩ := h₄
          rw [when_neg fun hs => hw ⟨g', hg', hs⟩] at h₄
          rw [(pure_iff.mp h₄).2]
          exact i
      · exact forget i hw h₄
    exact (i₄.content (sortedByPriority_content _ _ _ _ h₅)).frame rfl rfl

/-! ## Policies -/

theorem scheduleDefault_bookkeeping {o : SchedulerOutputs} (h : Bookkeeping ok keys none s)
    (hc : Claims keys s.waiting s) (hs : scheduleDefault p none s = some (o, s')) :
    Bookkeeping ok keys none s' := by
  rw [scheduleDefault, read_bind] at hs
  obtain ⟨gs, s₁, h₁, hs⟩ := bind_iff.mp hs
  rw [update_bind] at hs
  obtain ⟨t, ht⟩ : ∃ t, t = { s₁ with
      budget := gs.foldl (fun b (g : SequenceGroup) => b.addNumSeqs g.requestId g.getMaxNumRunningSeqs)
        (SchedulingBudget.init p.maxNumBatchedTokens p.maxNumSeqs)
      partialPrefillMetadata := none } := ⟨_, rfl⟩
  rw [← ht] at hs
  have qt : SameContent s t := by
    rw [ht]
    exact IsTrans.trans _ _ _ (getGroups_content _ _ _ _ h₁) ⟨rfl, rfl, rfl, rfl, rfl, rfl, rfl, rfl⟩
  obtain ⟨prefills, s₂, h₂, hs⟩ := bind_iff.mp hs
  obtain ⟨_, s₃, h₃, hs⟩ := bind_iff.mp hs
  obtain ⟨running, s₄, h₄, hs⟩ := bind_iff.mp hs
  obtain ⟨_, s₅, h₅, hs⟩ := bind_iff.mp hs
  simp only [update_bind, require_bind, Option.ite_none_right_eq_some, read_bind, makeOutputs_iff] at hs
  obtain ⟨-, -, -, rfl⟩ := hs
  have i₂ : Bookkeeping ok keys none s₂ := by
    split at h₂
    · refine schedulePrefills_bookkeeping (h.content qt) ?_ h₂
      rw [qt.waiting]
      exact hc.same qt.groups
    · rw [(pure_iff.mp h₂).2]
      exact h.content qt
  have i₃ : Bookkeeping ok keys none s₃ := by
    unfold Prog.when at h₃
    split at h₃
    · exact schedulePriorityPreemption_bookkeeping i₂ h₃
    · rw [(pure_iff.mp h₃).2]
      exact i₂
  have i₄ : Bookkeeping ok keys none s₄ := by
    split at h₄
    · have nothing : Claims keys [] s₃ := fun _ hid => by cases hid
      exact (scheduleRunning_bookkeeping i₃ nothing h₄).1
    · rw [(pure_iff.mp h₄).2]
      exact i₃
  exact (i₄.content (checkBudget_content p _ _ _ h₅)).frame rfl rfl

theorem scheduleChunkedPrefill_bookkeeping {o : SchedulerOutputs} (h : Bookkeeping ok keys none s)
    (hc : Claims keys s.waiting s) (hs : scheduleChunkedPrefill p none s = some (o, s')) :
    Bookkeeping ok keys none s' := by
  rw [scheduleChunkedPrefill, read_bind] at hs
  obtain ⟨runningGroups, s₁, h₁, hs⟩ := bind_iff.mp hs
  obtain ⟨waitingGroups, s₂, h₂, hs⟩ := bind_iff.mp hs
  have q₂ := IsTrans.trans _ _ _ (getGroups_content _ _ _ _ h₁) (getGroups_content _ _ _ _ h₂)
  rw [update_bind] at hs
  obtain ⟨t, ht⟩ : ∃ t, t = { s₂ with
      budget := SchedulingBudget.init p.maxNumBatchedTokens p.maxNumSeqs
      partialPrefillMetadata := some (fromQueues p runningGroups waitingGroups) } := ⟨_, rfl⟩
  rw [← ht] at hs
  have qt : SameContent s t := by
    rw [ht]
    exact IsTrans.trans _ _ _ q₂ ⟨rfl, rfl, rfl, rfl, rfl, rfl, rfl, rfl⟩
  obtain ⟨running, s₃, h₃, hs⟩ := bind_iff.mp hs
  obtain ⟨i₃, c₃, w₃⟩ := scheduleRunning_bookkeeping (h.content qt) (hc.same qt.groups) h₃
  rw [read_bind] at hs
  obtain ⟨prefills, s₄, h₄, hs⟩ := bind_iff.mp hs
  have i₄ : Bookkeeping ok keys none s₄ := by
    split at h₄
    · refine schedulePrefills_bookkeeping i₃ ?_ h₄
      rw [w₃, qt.waiting]
      exact c₃
    · rw [(pure_iff.mp h₄).2]
      exact i₃
  obtain ⟨_, s₅, h₅, hs⟩ := bind_iff.mp hs
  obtain ⟨finishing, s₆, h₆, hs⟩ := bind_iff.mp hs
  simp only [update_bind, read_bind, makeOutputs_iff] at hs
  obtain ⟨-, -, rfl⟩ := hs
  have q₆ := IsTrans.trans _ _ _ (checkBudget_content p _ _ _ h₅) (orderFinishingPrefillsFirst_content _ _ _ _ h₆)
  exact (i₄.content q₆).frame rfl rfl

/-! ## `schedule` -/

theorem groupMetadata_bookkeeping (now : Int) (sg : ScheduledSequenceGroup) :
    Within (Preserves (Bookkeeping ok keys none)) (groupMetadata p now sg) := by
  intro s m s' h i
  rw [groupMetadata, getGroup_bind, Option.bind_eq_some_iff] at h
  obtain ⟨g, hg, h⟩ := h
  obtain ⟨ids, s₁, h₁, h⟩ := bind_iff.mp h
  obtain ⟨nums, s₂, h₂, h⟩ := bind_iff.mp h
  rw [(pure_iff.mp h).2]
  by_cases hrun : g.status = .running
  · rw [if_pos hrun, read_bind, ofOption_bind, Option.bind_eq_some_iff] at h₁
    obtain ⟨t, -, h₁⟩ := h₁
    obtain ⟨_, s₃, h₃, h₁⟩ := bind_iff.mp h₁
    obtain ⟨-, rfl⟩ := pure_iff.mp h₁
    have i₁ := i.quiet (ManagerM.accessAllBlocksInSeq_trackers _ _) h₃
    have q₁ := onManager_same (ManagerM.accessAllBlocksInSeq_owners _ _) _ _ _ h₃
    have hg₁ : s₁.groups.get? sg.seqId = some g := by rw [q₁.groups]; exact hg
    have l₂ := onManager_looks (ManagerM.getCommonComputedBlockIds_keysFor _ g) _ _ _ h₂
    rw [i.seqId _ g hg] at l₂
    exact i₁.look l₂ (.inl (i₁.running _ g hg₁ hrun))
  · rw [if_neg hrun] at h₁
    obtain ⟨-, rfl⟩ := pure_iff.mp h₁
    obtain ⟨m, hm, rfl⟩ := onManager_iff.mp h₂
    rw [ManagerM.getCommonComputedBlockIds, if_pos hrun] at hm
    rw [(pure_iff.mp hm).2]
    exact i

/-- A whole `schedule`, whose waiting groups claim entries without synthetic counts. -/
theorem schedule_bookkeeping {o : List SequenceGroupMetadata × SchedulerOutputs} (h : Bookkeeping ok keys none s)
    (hc : Claims keys s.waiting s) (hs : schedule p none s = some (o, s')) : Bookkeeping ok keys none s' := by
  obtain ⟨outputs, s₁, h₁, hs⟩ := bind_iff.mp hs
  simp only [read_bind, update_bind] at hs
  obtain ⟨now, s₂, h₂, hs⟩ := bind_iff.mp hs
  obtain ⟨metadata, s₃, h₃, hs⟩ := bind_iff.mp hs
  obtain ⟨_, s₄, h₄, hs⟩ := bind_iff.mp hs
  obtain ⟨-, rfl⟩ := pure_iff.mp hs
  have i₁ : Bookkeeping ok keys none s₁ := by
    rw [scheduleQueues, read_bind] at h₁
    obtain ⟨waiting, t₁, ht₁, h₁⟩ := bind_iff.mp h₁
    obtain ⟨running, t₂, ht₂, h₁⟩ := bind_iff.mp h₁
    rw [update_bind] at h₁
    have q := IsTrans.trans _ _ _ (sortByQueryId_content _ _ _ _ ht₁) (sortByQueryId_content _ _ _ _ ht₂)
    have i : Bookkeeping ok keys none { t₂ with waiting := waiting, running := running } :=
      (h.content q).frame rfl rfl
    have c : Claims keys waiting { t₂ with waiting := waiting, running := running } :=
      ((hc.subset fun id hid => (sortByQueryId_perm ht₁).mem_iff.mp hid).same q.groups).same rfl
    split at h₁
    · exact scheduleChunkedPrefill_bookkeeping i c h₁
    · exact scheduleDefault_bookkeeping i c h₁
  have i₂ : Bookkeeping ok keys none s₂ := by
    have paid : Bookkeeping ok keys none { s₁ with pendingFinishedSwapOut := [] } := i₁.frame rfl rfl
    exact paid.content (time_content _ _ _ h₂)
  have i₃ := Within.mapM (groupMetadata_bookkeeping now) _ _ _ _ h₃ i₂
  have marks : Within (Preserves (Bookkeeping ok keys none)) (Prog.forM (fun sg : ScheduledSequenceGroup => do
      let g ← getGroup sg.seqId
      onManager (ManagerM.markBlocksAsComputed p.toManagerParams g sg.tokenChunkSize))
      outputs.scheduledSeqGroups) := by
    refine .forM (fun sg => .bind ?_ fun g => ?_) _
    · exact (getGroup_content _).mono fun _ _ q i => i.content q
    · exact fun _ _ _ hm i => i.quiet (ManagerM.markBlocksAsComputed_trackers _ _ _) hm
  exact marks _ _ _ h₄ i₃

/-! ## Aborts -/

theorem preserves_of_content {α : Type} {x : SchedM α} (h : Within SameContent x) :
    Within (Preserves (Bookkeeping ok keys extra)) x := h.mono fun _ _ q i => i.content q

theorem abortGroup_bookkeeping (id : SeqId) :
    Within (Preserves (Bookkeeping ok keys extra)) (abortGroup p id) := by
  intro s u s' h i
  rw [abortGroup, getGroup_bind, Option.bind_eq_some_iff] at h
  obtain ⟨g, hg, h⟩ := h
  unfold Prog.when at h
  split at h
  · obtain ⟨_, s₁, h₁, h₂⟩ := bind_iff.mp h
    obtain ⟨g', hg', rfl⟩ := setStatus_iff.mp h₁
    have i₁ : Bookkeeping ok keys extra
        { s with groups := s.groups.set id { g' with status := .finishedAborted } } :=
      i.set i.trackers hg' rfl rfl (fun _ => rfl) (fun hs => by cases hs) (fun _ _ ht => ht) rfl
        (fun _ _ hx => hx) (fun _ => .inl rfl)
    refine i₁.free (fun gx hx hs => ?_) h₂
    rw [Dict.get?_set_self, Option.some.injEq] at hx
    rw [← hx] at hs
    cases hs
  · rw [(pure_iff.mp h).2]
    exact i

theorem abortSeqGroup_bookkeeping (requestIds : List RequestId) :
    Within (Preserves (Bookkeeping ok keys extra)) (abortSeqGroup p requestIds) := by
  have named (queue : List SeqId) : Within (Preserves (Bookkeeping ok keys extra)) (groupsNamed requestIds queue) :=
    preserves_of_content (groupsNamed_content requestIds queue)
  have one (f : Scheduler → SeqId → Scheduler) (hg : ∀ s id, (f s id).groups = s.groups)
      (hm : ∀ s id, (f s id).blockManager = s.blockManager) (ids : List SeqId) :
      Within (Preserves (Bookkeeping ok keys extra)) (Prog.forM (fun id => do
        update fun s => f s id
        abortGroup p id) ids) :=
    .forM (fun id => .bind (.update fun s i => i.frame (hg s id) (hm s id)) fun _ => abortGroup_bookkeeping id) _
  refine .bind .read fun _ => .bind (named _) fun ids => .bind ?_ fun _ => ?_
  · exact one (fun s id => { s with waiting := s.waiting.erase id }) (fun _ _ => rfl) (fun _ _ => rfl) ids
  refine .bind .read fun _ => .bind (named _) fun ids => .bind ?_ fun _ => ?_
  · exact one (fun s id => { s with running := s.running.erase id }) (fun _ _ => rfl) (fun _ _ => rfl) ids
  refine .bind .read fun _ => .bind (named _) fun ids => ?_
  exact one (fun s id => { s with swapped := s.swapped.erase id }) (fun _ _ => rfl) (fun _ _ => rfl) ids

end

end CoreFlow
