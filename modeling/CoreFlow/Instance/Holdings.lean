import CoreFlow.Instance.Calls
import CoreFlow.Instance.Ownership
import CoreFlow.Manager.Integrity
import CoreFlow.Block.Taking

/-!
# What an instance holds

The invariants of the block manager hold in every run of an engine, and its tables have the owners that the
scheduler knows. Together they say which physical blocks are not free: those of the running sequences, of the
retained entries and of the finished sequences whose swap-out is pending. So an instance that is idle and
retains nothing has all its blocks back.
-/

namespace CoreFlow
open Prog CpuGpuBlockAllocator

theorem upkeep_calls (p : ManagerParams) : KeptByCalls p (BlockSpaceManager.Upkeep p.toBlockParams) := by
  refine ⟨BlockSpaceManager.perform_upkeep, fun m unused admissions => ?_⟩
  exact BlockSpaceManager.Marks.upkeep (.of_same rfl rfl rfl)

/-- What the runs of a manager keep, the runs of an engine keep. -/
theorem Engine.run_accounted {p : SchedulerParams} {ops : List EngineOp} {e : Engine}
    (hrun : Engine.run p (Engine.init p) ops = some e) (ok : e.scheduler.blockManager.blockAllocator.Harmless) :
    e.scheduler.blockManager.Accounted p.toBlockParams :=
  (Engine.run_kept (upkeep_calls p.toManagerParams) hrun).accounted BlockSpaceManager.init_accounted ok

/-- The table of a sequence carries a physical block. -/
def Carries (s : Scheduler) (id : SeqId) (blockId : BlockId) : Prop :=
  ∃ t, s.blockManager.blockTables.get? id = some t ∧ ∃ r ∈ t.blocks, s.blockManager.blockAllocator.idOf? r = some blockId

/-- The physical blocks that are not free are those that the owned tables carry, each counted as often. -/
structure HoldsForOwners (s : Scheduler) : Prop where
  counts : ∀ d, ∀ id ∈ (s.blockManager.blockAllocator.on d).allBlockIndices,
    (s.blockManager.blockAllocator.on d).refcounts.get? id = some (s.blockManager.numCarriers id)
  free : ∀ d, (s.blockManager.blockAllocator.on d).getNumFreeBlocks =
    (s.blockManager.blockAllocator.on d).allBlockIndices.countP fun id => s.blockManager.numCarriers id = 0
  owners : ∀ id, 0 < s.blockManager.numCarriers id ↔ ∃ seqId o, Owns s seqId o ∧ Carries s seqId id
  idle : s.running = [] → (∀ key, s.blockManager.getGpuCachedEntry key = none) → s.finishedSeqsPendingSwapOut = [] →
    ∀ d, (s.blockManager.blockAllocator.on d).getNumFreeBlocks = (s.blockManager.blockAllocator.on d).getNumTotalBlocks

theorem numCarriers_pos {s : Scheduler} {id : BlockId} :
    0 < s.blockManager.numCarriers id ↔ ∃ seqId, Carries s seqId id := by
  unfold BlockSpaceManager.numCarriers BlockSpaceManager.tableBlocks
  rw [List.countP_pos_iff]
  constructor
  · rintro ⟨r, hr, hid⟩
    obtain ⟨⟨seqId, t⟩, ht, hin⟩ := List.mem_flatMap.mp hr
    exact ⟨seqId, t, Dict.get?_iff_mem_entries.mpr ht, r, hin, of_decide_eq_true hid⟩
  · rintro ⟨seqId, t, ht, r, hin, hid⟩
    exact ⟨r, List.mem_flatMap.mpr ⟨(seqId, t), Dict.get?_iff_mem_entries.mp ht, hin⟩, decide_eq_true hid⟩

/-- The references on the books are the blocks of the tables, and every table has an owner. -/
theorem holdsForOwners {p : ManagerParams} {s : Scheduler} (accounted : s.blockManager.Accounted p.toBlockParams)
    (ownership : QueueOwnership s) (hdropped : s.blockManager.trace.dropped = []) : HoldsForOwners s := by
  obtain ⟨tabs, lost, held⟩ := accounted
  have books := held.tables.books
  rw [held.lost hdropped, List.append_nil, BlockSpaceManager.refsHeld_eq] at books
  have refs (id : BlockId) : numRefs (s.blockManager.blockAllocator.refsOf (tabs.flatMap (·.2.1.blocks))) id =
      s.blockManager.numCarriers id := by
    rw [BlockSpaceManager.numRefs_refsOf, held.tableBlocks_perm.countP_eq]
    rfl
  have owners (id : BlockId) : 0 < s.blockManager.numCarriers id ↔ ∃ seqId o, Owns s seqId o ∧ Carries s seqId id := by
    rw [numCarriers_pos]
    constructor
    · rintro ⟨seqId, t, ht, hcarries⟩
      obtain ⟨o, howns, -⟩ := ownership.owned seqId t ht
      exact ⟨seqId, o, howns, t, ht, hcarries⟩
    · rintro ⟨seqId, -, -, hcarries⟩
      exact ⟨seqId, hcarries⟩
  have free (d : Device) : (s.blockManager.blockAllocator.on d).getNumFreeBlocks =
      (s.blockManager.blockAllocator.on d).allBlockIndices.countP
        fun id => s.blockManager.numCarriers id = 0 := by
    rw [(books.accounts d).numFree_eq (books.distinct d)]
    simp only [refs]
  refine ⟨fun d id hid => ?_, free, owners, fun hrunning hentries hpending d => ?_⟩
  · rw [(books.accounts d).refcount, if_pos hid, refs]
  · rw [free d, PrefixCachingBlockAllocator.getNumTotalBlocks, List.countP_eq_length]
    intro id _
    rw [decide_eq_true_iff]
    by_contra hne
    obtain ⟨seqId, o, howns, -⟩ := (owners id).mp (Nat.pos_of_ne_zero hne)
    cases o with
    | running =>
      rw [Owns, hrunning] at howns
      exact absurd howns.1 List.not_mem_nil
    | retained key =>
      obtain ⟨entry, he, -⟩ := howns
      rw [hentries key] at he
      cases he
    | pendingSwapOut =>
      rw [Owns, hpending] at howns
      exact absurd howns.1 List.not_mem_nil

/-- In every run, as long as no object has been handed out twice and no swap has dropped a block from its table, an
instance holds physical blocks for the owners of its tables only. -/
theorem run_holdsForOwners (p : SchedulerParams) (ops : List EngineOp) (e : Engine)
    (hrun : Engine.run p (Engine.init p) ops = some e) (hreissued : ¬ e.scheduler.blockManager.blockAllocator.Reissued)
    (hdropped : e.scheduler.blockManager.trace.dropped = []) : HoldsForOwners e.scheduler :=
  holdsForOwners (p := p.toManagerParams) (Engine.run_accounted hrun fun _ => hreissued)
    (Engine.run_owned hrun).settled.queueOwnership hdropped

/-- One request has left its cache on the GPU, and another is running. -/
def retainingRun : List EngineOp :=
  [.addSeqGroup "q0_a" [1, 2, 3] (some ⟨some (some 0), some 0, 0, true, false, none⟩) 0 0,
   .schedule [1, 1, 1, 1, 1],
   .processModelOutputs [⟨4, some .finishedStopped, false⟩] [2, 2],
   .addSeqGroup "b" [5, 6, 7] none 0 0,
   .schedule [3, 3, 3, 3]]

theorem run_holdsForOwners_retainingRun : ∃ e,
    Engine.run smallParams (Engine.init smallParams) retainingRun = some e ∧ e.scheduler.running = [1] ∧
      (e.scheduler.blockManager.blockAllocator.on .gpu).getNumFreeBlocks = 0 ∧ HoldsForOwners e.scheduler := by
  have returns : (Engine.run smallParams (Engine.init smallParams) retainingRun).map (fun e => decide (
      e.scheduler.blockManager.blockAllocator.trace.events.filter BlockEvent.isFault = [] ∧
      e.scheduler.blockManager.trace.dropped = [] ∧ e.scheduler.running = [1] ∧
      (e.scheduler.blockManager.blockAllocator.on .gpu).getNumFreeBlocks = 0)) = some true := by
    decide +kernel
  obtain ⟨e, he, h⟩ := Option.map_eq_some_iff.mp returns
  obtain ⟨hfaults, hdropped, hrunning, hfree⟩ := of_decide_eq_true h
  exact ⟨e, he, hrunning, hfree,
    run_holdsForOwners smallParams retainingRun e he (BlockSpaceManager.no_faults hfaults).2 hdropped⟩

end CoreFlow
