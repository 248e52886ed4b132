import CoreFlow.Scheduler.Rules

/-!
# Who owns a block table

`Ownership` relates the queues, the statuses, the block tables, the retained entries and the finished
groups whose release waits for a copy. The queues are arguments, so that it also holds in the middle
of `schedule`, where groups have left a queue and not yet joined the other. Occurrences are counted:
that an id is in one place only is then linear arithmetic.
-/

namespace CoreFlow

/-- The sequences of the retained entries. -/
def retained (m : BlockSpaceManager) : List SeqId :=
  m.gpuCachedEntries.entries.flatMap fun e => e.2.seqIds

theorem count_retained_erase (m : BlockSpaceManager) (key : Int × Int) (id : SeqId) :
    (retained m).count id = (ManagerM.entrySeqIds m key).count id +
      ((m.gpuCachedEntries.erase key).entries.flatMap fun e => e.2.seqIds).count id := by
  unfold ManagerM.entrySeqIds retained
  cases h : m.gpuCachedEntries.get? key with
  | none =>
    rw [Dict.erase_of_not_mem (Dict.get?_eq_none.mp h)]
    simp
  | some e =>
    rw [((Dict.entries_perm_erase h).flatMap_right _).count_eq, List.flatMap_cons, List.count_append]
    rfl

theorem mem_retained_of_entry {m : BlockSpaceManager} {key : Int × Int} {id : SeqId}
    (h : id ∈ ManagerM.entrySeqIds m key) : id ∈ retained m := by
  have := count_retained_erase m key id
  have := List.count_pos_iff.mpr h
  exact List.count_pos_iff.mp (by omega)

theorem count_retained_set {m m' : BlockSpaceManager} {key : Int × Int} {e : GpuCachedEntry}
    (hkey : key ∉ m.gpuCachedEntries) (h : m'.gpuCachedEntries = m.gpuCachedEntries.set key e)
    (id : SeqId) : (retained m').count id = (retained m).count id + e.seqIds.count id := by
  unfold retained
  rw [h, Dict.entries_set_of_not_mem hkey, List.flatMap_append, List.count_append, List.flatMap_singleton]

/-- Every table has one owner, and every unfinished group is in one queue. -/
structure Ownership (bound : SeqId) (wq rq : List SeqId) (s : Scheduler) : Prop where
  once : ∀ id, wq.count id + rq.count id + (retained s.blockManager).count id +
    s.finishedSeqsPendingSwapOut.count id ≤ 1
  waiting : ∀ id ∈ wq, id ∉ s.blockManager.blockTables ∧
    ∃ g, s.groups.get? id = some g ∧ g.status = .waiting
  running : ∀ id ∈ rq, ∃ g, s.groups.get? id = some g ∧
    (g.status = .running ∧ id ∈ s.blockManager.blockTables ∨ g.isFinished = true)
  finished : ∀ id ∈ s.finishedSeqsPendingSwapOut, ∃ g, s.groups.get? id = some g ∧ g.isFinished = true
  queued : ∀ id g, s.groups.get? id = some g → g.isFinished = false →
    0 < wq.count id + rq.count id
  owned : ∀ id ∈ s.blockManager.blockTables, 0 < rq.count id +
    (retained s.blockManager).count id + s.finishedSeqsPendingSwapOut.count id
  seqId : ∀ id g, s.groups.get? id = some g → g.seqId = id
  fresh : ∀ id, id ∈ s.groups ∨ id ∈ retained s.blockManager → id < bound

/-- No group of a queue is finished. -/
def Unfinished (queue : List SeqId) (s : Scheduler) : Prop :=
  ∀ id ∈ queue, ∃ g, s.groups.get? id = some g ∧ g.isFinished = false

namespace Ownership
variable {n : SeqId} {w r : List SeqId} {s s' : Scheduler}

theorem frame (h : Ownership n w r s) (groups : s'.groups = s.groups)
    (finished : s'.finishedSeqsPendingSwapOut = s.finishedSeqsPendingSwapOut)
    (entries : s'.blockManager.gpuCachedEntries = s.blockManager.gpuCachedEntries)
    (tables : ∀ x, x ∈ s'.blockManager.blockTables ↔ x ∈ s.blockManager.blockTables) :
    Ownership n w r s' := by
  have hr : retained s'.blockManager = retained s.blockManager := by
    unfold retained
    rw [entries]
  refine ⟨?_, ?_, ?_, ?_, ?_, ?_, ?_, ?_⟩
  · rw [hr, finished]
    exact h.once
  · simp only [tables, groups]
    exact h.waiting
  · simp only [tables, groups]
    exact h.running
  · rw [finished, groups]
    exact h.finished
  · rw [groups]
    exact h.queued
  · simp only [tables, hr, finished]
    exact h.owned
  · rw [groups]
    exact h.seqId
  · rw [groups, hr]
    exact h.fresh

theorem same (h : Ownership n w r s) (q : SameGroups s s') : Ownership n w r s' :=
  h.frame q.groups q.finished q.owners.entries q.owners.tables

theorem perm (h : Ownership n w r s) {w' r' : List SeqId} (hw : w'.Perm w) (hr : r'.Perm r) :
    Ownership n w' r' s := by
  refine ⟨fun id => ?_, fun id hid => h.waiting id (hw.mem_iff.mp hid),
    fun id hid => h.running id (hr.mem_iff.mp hid), h.finished, fun id g hg hf => ?_, fun id hid => ?_,
    h.seqId, h.fresh⟩
  · rw [hw.count_eq, hr.count_eq]
    exact h.once id
  · rw [hw.count_eq, hr.count_eq]
    exact h.queued id g hg hf
  · rw [hr.count_eq]
    exact h.owned id hid

theorem raise (h : Ownership n w r s) : Ownership (n + 1) w r s :=
  ⟨h.once, h.waiting, h.running, h.finished, h.queued, h.owned, h.seqId,
    fun id hid => Nat.lt_succ_of_lt (h.fresh id hid)⟩

/-- The sequence of a group is the one its place names. -/
theorem seqId_eq (h : Ownership n w r s) {id : SeqId} {g : SequenceGroup}
    (hg : s.groups.get? id = some g) : g.seqId = id := h.seqId id g hg

/-! ## Moving a group -/

/-- A group changes its status, its table goes if it has one, and it is queued elsewhere. -/
theorem move (h : Ownership n w r s) {w' r' : List SeqId} {id : SeqId} {g g' : SequenceGroup}
    (hg : s.groups.get? id = some g) (groups : s'.groups = s.groups.set id g') (hseq : g'.seqId = id)
    (finished : s'.finishedSeqsPendingSwapOut = s.finishedSeqsPendingSwapOut)
    (entries : s'.blockManager.gpuCachedEntries = s.blockManager.gpuCachedEntries)
    (tables : ∀ x, x ≠ id → (x ∈ s'.blockManager.blockTables ↔ x ∈ s.blockManager.blockTables))
    (hw : ∀ x, x ≠ id → w'.count x = w.count x) (hr : ∀ x, x ≠ id → r'.count x = r.count x)
    (hin : 0 < w.count id + r.count id) (hone : w'.count id + r'.count id ≤ 1)
    (hqueue : g'.isFinished = false → 0 < w'.count id + r'.count id)
    (hwait : 0 < w'.count id → id ∉ s'.blockManager.blockTables ∧ g'.status = .waiting)
    (hrun : 0 < r'.count id →
      g'.status = .running ∧ id ∈ s'.blockManager.blockTables ∨ g'.isFinished = true)
    (hown : id ∈ s'.blockManager.blockTables → 0 < r'.count id) : Ownership n w' r' s' := by
  have hret : retained s'.blockManager = retained s.blockManager := by
    unfold retained
    rw [entries]
  have hget (x : SeqId) (hx : x ≠ id) : s'.groups.get? x = s.groups.get? x := by
    rw [groups, Dict.get?_set_ne _ _ (Ne.symm hx)]
  have hself : s'.groups.get? id = some g' := by rw [groups, Dict.get?_set_self]
  have o := h.once id
  refine ⟨fun x => ?_, fun x hx => ?_, fun x hx => ?_, fun x hx => ?_, fun x gx hx hf => ?_, fun x hx => ?_,
    fun x gx hx => ?_, fun x hx => ?_⟩
  · rw [hret, finished]
    by_cases hxi : x = id
    · subst hxi
      omega
    · rw [hw x hxi, hr x hxi]
      exact h.once x
  · by_cases hxi : x = id
    · subst hxi
      obtain ⟨ht, hs⟩ := hwait (List.count_pos_iff.mpr hx)
      exact ⟨ht, g', hself, hs⟩
    · rw [tables x hxi, hget x hxi]
      exact h.waiting x (List.count_pos_iff.mp (by rw [← hw x hxi]; exact List.count_pos_iff.mpr hx))
  · by_cases hxi : x = id
    · subst hxi
      exact ⟨g', hself, hrun (List.count_pos_iff.mpr hx)⟩
    · rw [tables x hxi, hget x hxi]
      exact h.running x (List.count_pos_iff.mp (by rw [← hr x hxi]; exact List.count_pos_iff.mpr hx))
  · rw [finished] at hx
    have hxi : x ≠ id := by
      rintro rfl
      have := List.count_pos_iff.mpr hx
      omega
    rw [hget x hxi]
    exact h.finished x hx
  · by_cases hxi : x = id
    · subst hxi
      rw [hself, Option.some.injEq] at hx
      subst hx
      exact hqueue hf
    · rw [hw x hxi, hr x hxi]
      exact h.queued x gx (hget x hxi ▸ hx) hf
  · rw [hret, finished]
    by_cases hxi : x = id
    · subst hxi
      have := hown hx
      omega
    · rw [hr x hxi]
      exact h.owned x ((tables x hxi).mp hx)
  · by_cases hxi : x = id
    · subst hxi
      rw [hself, Option.some.injEq] at hx
      rw [← hx, hseq]
    · exact h.seqId x gx (hget x hxi ▸ hx)
  · rw [hret, groups, Dict.mem_set] at hx
    refine h.fresh x (hx.imp_left ?_)
    rintro (rfl | hx)
    · exact Dict.mem_of_get? hg
    · exact hx

/-! ## Releasing entries and tables -/

/-- The table of a finished group that is in no queue goes, or was not there. -/
theorem release (h : Ownership n w r s) (groups : s'.groups = s.groups)
    (entries : s'.blockManager.gpuCachedEntries = s.blockManager.gpuCachedEntries) {r' f : List SeqId}
    (finished : ∀ x, s'.finishedSeqsPendingSwapOut.count x ≤ s.finishedSeqsPendingSwapOut.count x)
    (hr : ∀ x, r'.count x ≤ r.count x)
    (hf : ∀ x ∈ f, ∃ g, s.groups.get? x = some g ∧ g.isFinished = true)
    (hleft : ∀ x, x ∉ f → r'.count x = r.count x ∧
      s'.finishedSeqsPendingSwapOut.count x = s.finishedSeqsPendingSwapOut.count x)
    (tables : ∀ x, x ∈ s'.blockManager.blockTables ↔ x ∉ f ∧ x ∈ s.blockManager.blockTables) :
    Ownership n w r' s' := by
  have hret : retained s'.blockManager = retained s.blockManager := by
    unfold retained
    rw [entries]
  have notf {x : SeqId} {g : SequenceGroup} (hg : s.groups.get? x = some g) (hu : g.isFinished = false) :
      x ∉ f := by
    intro hx
    obtain ⟨g', hg', hf'⟩ := hf x hx
    rw [hg, Option.some.injEq] at hg'
    rw [hg', hf'] at hu
    cases hu
  refine ⟨fun x => ?_, fun x hx => ?_, fun x hx => ?_, fun x hx => ?_, fun x g hx hu => ?_, fun x hx => ?_,
    ?_, ?_⟩
  · rw [hret]
    have := h.once x
    have := finished x
    have := hr x
    omega
  · rw [groups, tables]
    obtain ⟨ht, hg⟩ := h.waiting x hx
    exact ⟨fun hx => ht hx.2, hg⟩
  · rw [groups, tables]
    have hc := List.count_pos_iff.mpr hx
    obtain ⟨g, hg, hs⟩ := h.running x (List.count_pos_iff.mp (lt_of_lt_of_le hc (hr x)))
    refine ⟨g, hg, hs.imp_left fun ht => ⟨ht.1, notf hg ?_, ht.2⟩⟩
    rw [SequenceGroup.isFinished, ht.1]
    rfl
  · rw [groups]
    have hc := List.count_pos_iff.mpr hx
    exact h.finished x (List.count_pos_iff.mp (lt_of_lt_of_le hc (finished x)))
  · rw [groups] at hx
    rw [(hleft x (notf hx hu)).1]
    exact h.queued x g hx hu
  · obtain ⟨hxf, hx⟩ := (tables x).mp hx
    rw [hret, (hleft x hxf).1, (hleft x hxf).2]
    exact h.owned x hx
  · rw [groups]
    exact h.seqId
  · rw [groups, hret]
    exact h.fresh

/-- A finished group leaves the running queue to wait for the copy of its blocks. -/
theorem defer {id : SeqId} (h : Ownership n w (id :: r) s) (groups : s'.groups = s.groups)
    (entries : s'.blockManager.gpuCachedEntries = s.blockManager.gpuCachedEntries)
    (finished : s'.finishedSeqsPendingSwapOut = s.finishedSeqsPendingSwapOut ++ [id])
    (hf : ∃ g, s.groups.get? id = some g ∧ g.isFinished = true)
    (tables : ∀ x, x ∈ s'.blockManager.blockTables ↔ x ∈ s.blockManager.blockTables) :
    Ownership n w r s' := by
  have hret : retained s'.blockManager = retained s.blockManager := by
    unfold retained
    rw [entries]
  have hcount (x : SeqId) : s'.finishedSeqsPendingSwapOut.count x + r.count x =
      s.finishedSeqsPendingSwapOut.count x + (id :: r).count x := by
    rw [finished, List.count_append, ← List.singleton_append (l := r), List.count_append]
    omega
  refine ⟨fun x => ?_, fun x hx => ?_, fun x hx => ?_, fun x hx => ?_, fun x g hx hu => ?_, fun x hx => ?_,
    ?_, ?_⟩
  · rw [hret]
    have := h.once x
    have := hcount x
    omega
  · rw [groups, tables]
    exact h.waiting x hx
  · rw [groups, tables]
    exact h.running x (List.mem_cons_of_mem _ hx)
  · rw [groups]
    rw [finished, List.mem_append, List.mem_singleton] at hx
    rcases hx with hx | rfl
    · exact h.finished x hx
    · exact hf
  · rw [groups] at hx
    have hq := h.queued x g hx hu
    have hne : id ≠ x := by
      rintro rfl
      obtain ⟨g', hg', hf'⟩ := hf
      rw [hx, Option.some.injEq] at hg'
      rw [hg', hf'] at hu
      cases hu
    rwa [List.count_cons_of_ne hne] at hq
  · rw [hret]
    have := h.owned x ((tables x).mp hx)
    have := hcount x
    omega
  · rw [groups]
    exact h.seqId
  · rw [groups, hret]
    exact h.fresh

/-- A finished group leaves the running queue and its table is retained under a key. -/
theorem retain {id : SeqId} {key : Int × Int} {e : GpuCachedEntry} (h : Ownership n w (id :: r) s)
    (groups : s'.groups = s.groups) (hkey : key ∉ s.blockManager.gpuCachedEntries)
    (entries : s'.blockManager.gpuCachedEntries = s.blockManager.gpuCachedEntries.set key e)
    (he : e.seqIds = [id]) (finished : s'.finishedSeqsPendingSwapOut = s.finishedSeqsPendingSwapOut)
    (hf : ∃ g, s.groups.get? id = some g ∧ g.isFinished = true)
    (tables : ∀ x, x ∈ s'.blockManager.blockTables ↔ x ∈ s.blockManager.blockTables) :
    Ownership n w r s' := by
  have hcount (x : SeqId) : (retained s'.blockManager).count x + r.count x =
      (retained s.blockManager).count x + (id :: r).count x := by
    rw [count_retained_set hkey entries, he, ← List.singleton_append (l := r), List.count_append]
    omega
  refine ⟨fun x => ?_, fun x hx => ?_, fun x hx => ?_, ?_, fun x g hx hu => ?_, fun x hx => ?_,
    ?_, fun x hx => ?_⟩
  · rw [finished]
    have := h.once x
    have := hcount x
    omega
  · rw [groups, tables]
    exact h.waiting x hx
  · rw [groups, tables]
    exact h.running x (List.mem_cons_of_mem _ hx)
  · rw [groups, finished]
    exact h.finished
  · rw [groups] at hx
    have hq := h.queued x g hx hu
    have hne : id ≠ x := by
      rintro rfl
      obtain ⟨g', hg', hf'⟩ := hf
      rw [hx, Option.some.injEq] at hg'
      rw [hg', hf'] at hu
      cases hu
    rwa [List.count_cons_of_ne hne] at hq
  · rw [finished]
    have := h.owned x ((tables x).mp hx)
    have := hcount x
    omega
  · rw [groups]
    exact h.seqId
  · rw [groups] at hx
    rcases hx with hx | hx
    · exact h.fresh x (.inl hx)
    · by_cases hxi : x = id
      · obtain ⟨g, hg, -⟩ := hf
        exact h.fresh x (.inl (hxi ▸ Dict.mem_of_get? hg))
      · refine h.fresh x (.inr (List.count_pos_iff.mp ?_))
        have hc := hcount x
        have := List.count_pos_iff.mpr hx
        rw [List.count_cons_of_ne (Ne.symm hxi)] at hc
        omega

/-- A table that no queue knows is retained under a key. -/
theorem adopt {key : Int × Int} {e : GpuCachedEntry} (h : Ownership n w r s)
    (groups : s'.groups = s.groups) (hkey : key ∉ s.blockManager.gpuCachedEntries)
    (entries : s'.blockManager.gpuCachedEntries = s.blockManager.gpuCachedEntries.set key e)
    (he : e.seqIds = [n]) (finished : s'.finishedSeqsPendingSwapOut = s.finishedSeqsPendingSwapOut)
    (tables : ∀ x, x ∈ s'.blockManager.blockTables ↔ x = n ∨ x ∈ s.blockManager.blockTables) :
    Ownership (n + 1) w r s' := by
  have hcount (x : SeqId) : (retained s'.blockManager).count x =
      (retained s.blockManager).count x + [n].count x := by
    rw [count_retained_set hkey entries, he]
  have hn {g : SequenceGroup} (hg : s.groups.get? n = some g) : False :=
    (h.fresh n (.inl (Dict.mem_of_get? hg))).false
  have hnw : n ∉ w := fun hx => by
    obtain ⟨-, g, hg, -⟩ := h.waiting n hx
    exact hn hg
  have hnr : n ∉ r := fun hx => by
    obtain ⟨g, hg, -⟩ := h.running n hx
    exact hn hg
  have hnf : n ∉ s.finishedSeqsPendingSwapOut := fun hx => by
    obtain ⟨g, hg, -⟩ := h.finished n hx
    exact hn hg
  have hnret : n ∉ retained s.blockManager := fun hx => (h.fresh n (.inr hx)).false
  refine ⟨fun x => ?_, fun x hx => ?_, fun x hx => ?_, ?_, ?_, fun x hx => ?_, ?_, fun x hx => ?_⟩
  · rw [hcount, finished]
    by_cases hx : x = n
    · subst hx
      rw [List.count_eq_zero.mpr hnw, List.count_eq_zero.mpr hnr, List.count_eq_zero.mpr hnret,
        List.count_eq_zero.mpr hnf, List.count_cons_self, List.count_nil]
    · rw [List.count_cons_of_ne (Ne.symm hx), List.count_nil]
      exact h.once x
  · rw [groups, tables]
    obtain ⟨ht, hg⟩ := h.waiting x hx
    refine ⟨?_, hg⟩
    rintro (rfl | ht')
    · exact hnw hx
    · exact ht ht'
  · rw [groups, tables]
    obtain ⟨g, hg, hs⟩ := h.running x hx
    exact ⟨g, hg, hs.imp_left fun ht => ⟨ht.1, .inr ht.2⟩⟩
  · rw [groups, finished]
    exact h.finished
  · rw [groups]
    exact h.queued
  · rw [hcount, finished]
    rcases (tables x).mp hx with rfl | hx
    · rw [List.count_cons_self]
      omega
    · have := h.owned x hx
      omega
  · rw [groups]
    exact h.seqId
  · rw [groups] at hx
    rcases hx with hx | hx
    · exact Nat.lt_succ_of_lt (h.fresh x (.inl hx))
    · by_cases hxn : x = n
      · rw [hxn]
        exact Nat.lt_succ_self n
      · refine Nat.lt_succ_of_lt (h.fresh x (.inr (List.count_pos_iff.mp ?_)))
        have := List.count_pos_iff.mpr hx
        rwa [hcount, List.count_cons_of_ne (Ne.symm hxn), List.count_nil] at this

/-- A new request joins the waiting queue. -/
theorem add (h : Ownership n w r s) {g : SequenceGroup} (hs : g.status = .waiting) (hseq : g.seqId = n)
    (groups : s'.groups = s.groups.set n g)
    (finished : s'.finishedSeqsPendingSwapOut = s.finishedSeqsPendingSwapOut)
    (manager : s'.blockManager = s.blockManager) : Ownership (n + 1) (w ++ [n]) r s' := by
  have hself : s'.groups.get? n = some g := by rw [groups, Dict.get?_set_self]
  have hget {x : SeqId} (hx : x ∈ s.groups) : s'.groups.get? x = s.groups.get? x := by
    rw [groups, Dict.get?_set_ne]
    exact (Nat.ne_of_lt (h.fresh x (.inl hx))).symm
  have mem_of {x : SeqId} (hx : x ∈ w ∨ x ∈ r ∨ x ∈ s.finishedSeqsPendingSwapOut) : x ∈ s.groups := by
    rcases hx with hx | hx | hx
    · obtain ⟨-, g, hg, -⟩ := h.waiting x hx
      exact Dict.mem_of_get? hg
    · obtain ⟨g, hg, -⟩ := h.running x hx
      exact Dict.mem_of_get? hg
    · obtain ⟨g, hg, -⟩ := h.finished x hx
      exact Dict.mem_of_get? hg
  have hn : n ∉ s.groups := fun hx => (h.fresh n (.inl hx)).false
  have hnw : w.count n = 0 := List.count_eq_zero.mpr fun hx => hn (mem_of (.inl hx))
  have hnr : r.count n = 0 := List.count_eq_zero.mpr fun hx => hn (mem_of (.inr (.inl hx)))
  have hnf : s.finishedSeqsPendingSwapOut.count n = 0 :=
    List.count_eq_zero.mpr fun hx => hn (mem_of (.inr (.inr hx)))
  have hnret : (retained s.blockManager).count n = 0 :=
    List.count_eq_zero.mpr fun hx => (h.fresh n (.inr hx)).false
  have hcount (x : SeqId) : (w ++ [n]).count x = w.count x + [n].count x := List.count_append
  refine ⟨fun x => ?_, fun x hx => ?_, fun x hx => ?_, fun x hx => ?_, fun x gx hx hu => ?_, fun x hx => ?_,
    fun x gx hx => ?_, fun x hx => ?_⟩
  · rw [hcount, finished, manager]
    by_cases hx : x = n
    · subst hx
      rw [hnw, hnr, hnf, hnret, List.count_cons_self, List.count_nil]
    · rw [List.count_cons_of_ne (Ne.symm hx), List.count_nil]
      exact h.once x
  · rw [manager]
    rcases List.mem_append.mp hx with hx | hx
    · rw [hget (mem_of (.inl hx))]
      exact h.waiting x hx
    · rw [List.mem_singleton.mp hx]
      refine ⟨fun ht => ?_, g, hself, hs⟩
      have := h.owned n ht
      omega
  · rw [manager, hget (mem_of (.inr (.inl hx)))]
    exact h.running x hx
  · rw [finished] at hx
    rw [hget (mem_of (.inr (.inr hx)))]
    exact h.finished x hx
  · rw [hcount]
    by_cases hxn : x = n
    · subst hxn
      rw [List.count_cons_self]
      omega
    · rw [groups, Dict.get?_set_ne _ _ (Ne.symm hxn)] at hx
      have := h.queued x gx hx hu
      omega
  · rw [manager] at hx ⊢
    rw [finished]
    exact h.owned x hx
  · by_cases hxn : x = n
    · subst hxn
      rw [hself, Option.some.injEq] at hx
      rw [← hx, hseq]
    · rw [groups, Dict.get?_set_ne _ _ (Ne.symm hxn)] at hx
      exact h.seqId x gx hx
  · rw [groups, manager, Dict.mem_set] at hx
    rcases hx with (rfl | hx) | hx
    · exact Nat.lt_succ_self x
    · exact Nat.lt_succ_of_lt (h.fresh x (.inl hx))
    · exact Nat.lt_succ_of_lt (h.fresh x (.inr hx))

/-- A retained entry goes with its tables. -/
theorem evict (h : Ownership n w r s) {key : Int × Int} (groups : s'.groups = s.groups)
    (finished : s'.finishedSeqsPendingSwapOut = s.finishedSeqsPendingSwapOut)
    (entries : s'.blockManager.gpuCachedEntries = s.blockManager.gpuCachedEntries.erase key)
    (tables : ∀ x, x ∈ s'.blockManager.blockTables ↔
      x ∉ ManagerM.entrySeqIds s.blockManager key ∧ x ∈ s.blockManager.blockTables) :
    Ownership n w r s' := by
  have hret (x : SeqId) : (retained s.blockManager).count x =
      (ManagerM.entrySeqIds s.blockManager key).count x + (retained s'.blockManager).count x := by
    rw [count_retained_erase s.blockManager key, retained, entries]
  refine ⟨fun x => ?_, fun x hx => ?_, fun x hx => ?_, ?_, ?_, fun x hx => ?_, ?_, fun x hx => ?_⟩
  · rw [finished]
    have := h.once x
    have := hret x
    omega
  · rw [groups, tables]
    obtain ⟨ht, hg⟩ := h.waiting x hx
    exact ⟨fun hx => ht hx.2, hg⟩
  · rw [groups, tables]
    obtain ⟨g, hg, hs⟩ := h.running x hx
    refine ⟨g, hg, hs.imp_left fun ht => ⟨ht.1, fun hx' => ?_, ht.2⟩⟩
    have := h.once x
    have := hret x
    have := List.count_pos_iff.mpr hx
    have := List.count_pos_iff.mpr hx'
    omega
  · rw [groups, finished]
    exact h.finished
  · rw [groups]
    exact h.queued
  · obtain ⟨hxe, hx⟩ := (tables x).mp hx
    rw [finished]
    have := h.owned x hx
    have := hret x
    have := List.count_eq_zero.mpr hxe
    omega
  · rw [groups]
    exact h.seqId
  · rw [groups] at hx
    refine h.fresh x (hx.imp_right fun hx => ?_)
    have := hret x
    have := List.count_pos_iff.mpr hx
    exact List.count_pos_iff.mp (by omega)

end Ownership

end CoreFlow
