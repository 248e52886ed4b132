import CoreFlow.Block.Appends
import CoreFlow.Manager.Admission

/-!
# What the other checks promise

`can_append_slots` counts the blocks that `append_slots` touches, and `_swap_out_group` those that the CPU has to
give. Either way the blocks are there: a decode that was let through does not run out of GPU blocks, and a
swap-out is refused before anything has changed or goes through.
-/

namespace CoreFlow
open Prog CpuGpuBlockAllocator

/-! ## The blocks that a swap touches -/

namespace PrefixCachingBlockAllocator
variable {a : PrefixCachingBlockAllocator} {refs : List Ref} {h : PrefixHash} {id : BlockId}

/-- A cached block is in use, or it can be evicted. -/
theorem Accounts.hashInUse_iff_not_evictable (acc : a.Accounts refs) (hget : a.cachedBlocks.get? h = some id) :
    a.hashInUse h = true ↔ id ∉ a.evictor.freeTable := by
  have hin := acc.cachedHere h id hget
  obtain ⟨t, ht, hactive⟩ := acc.tracked id hin
  unfold hashInUse
  rw [hget]
  dsimp only
  rw [ht, Option.any_some, hactive]
  constructor
  · intro hused hfree
    obtain ⟨m, hm⟩ := Dict.mem_iff.mp hfree
    exact hused.ne' (acc.evictable id m hm).1
  · intro hout
    by_contra hzero
    rcases acc.covered id hin (Nat.eq_zero_of_not_pos hzero) with hfree | hfree
    · exact (acc.free id hfree).2.2 ⟨h, hget⟩
    · exact hout hfree

theorem Accounts.Same.hashInUse {a' : PrefixCachingBlockAllocator} (same : Accounts.Same a a') :
    a'.hashInUse h = a.hashInUse h := by
  unfold PrefixCachingBlockAllocator.hashInUse
  rw [same.cached]
  cases a.cachedBlocks.get? h with
  | none => rfl
  | some id =>
    have active (o : Option BlockTracker) : o.any (·.active) = (o.map (·.active)).getD false := by
      cases o with
      | none => rfl
      | some t => rfl
    dsimp only
    rw [active, active, same.tracker]

end PrefixCachingBlockAllocator

namespace BlockM
variable {p : BlockParams} {d : Device} {s s' : CpuGpuBlockAllocator} {blocks full : List BlockRef} {r : BlockRef} {k : Nat}
  {refs : List Ref}

/-- The hashes of the objects that no block in use has. -/
def numIdle (s : CpuGpuBlockAllocator) (d : Device) (blocks : List BlockRef) : Nat :=
  (heldHashes s blocks).countP (s.on d).needsBlock

theorem heldHashes_cons (s : CpuGpuBlockAllocator) (r : BlockRef) (blocks : List BlockRef) :
    heldHashes s (r :: blocks) = ((s.block? r).bind (·.cachedContentHash)).toList ++ heldHashes s blocks := by
  unfold heldHashes
  rw [List.filterMap_cons]
  cases (s.block? r).bind (·.cachedContentHash) with
  | none => rfl
  | some h => rfl

/-- `get_num_full_blocks_touched` counts just these. -/
theorem getNumFullBlocksTouched_counts (chained : s.Chained p full) (books : s.Books refs) (hsub : ∀ r ∈ blocks, r ∈ full)
    (hrun : getNumFullBlocksTouched p blocks d s = some (k, s')) : k = numIdle s d blocks := by
  have inv := foldlM_invariant (fun n rest s' => s' = s ∧ (∀ r ∈ rest, r ∈ full) ∧ n + numIdle s d rest = numIdle s d blocks)
    ?_ hrun ⟨rfl, hsub, Nat.zero_add _⟩
  · have := inv.2.2
    exact this
  rintro n r rest s₁ n' s₂ ⟨rfl, hrest, hn⟩ hr
  obtain ⟨b, hb, hheld, -⟩ := chained r (hrest r List.mem_cons_self)
  have hcount : numIdle s₁ d (r :: rest) = b.cachedContentHash.toList.countP (s₁.on d).needsBlock + numIdle s₁ d rest := by
    rw [numIdle, heldHashes_cons, List.countP_append, hb, Option.bind_some, numIdle]
  rw [hcount, hheld] at hn
  have next : s₂ = s₁ ∧ n' = n + b.cachedContentHash.toList.countP (s₁.on d).needsBlock := by
    rw [bind_eq (getBlock_iff.mpr ⟨hb, rfl⟩)] at hr
    split at hr
    · rename_i hopen
      obtain ⟨rfl, rfl⟩ := pure_iff.mp hr
      rw [hheld, derivedHash, if_pos hopen]
      exact ⟨rfl, rfl⟩
    · obtain ⟨o, s₃, ho, hr⟩ := bind_iff.mp hr
      obtain ⟨rfl, hs⟩ := contentHash_remembers hb hheld ho
      rw [hs] at hr
      obtain ⟨h, _, ho, hr⟩ := bind_iff.mp hr
      obtain ⟨hh, hs⟩ := ofOption_iff.mp ho
      rw [hs, self_bind] at hr
      rw [hh]
      have single : (some h).toList.countP (s₁.on d).needsBlock = if (s₁.on d).hashInUse h = true then 0 else 1 := by
        rw [Option.toList_some, List.countP_singleton, PrefixCachingBlockAllocator.needsBlock_eq]
        cases (s₁.on d).hashInUse h with
        | false => rfl
        | true => rfl
      rw [single]
      cases hc : (s₁.on d).cachedBlocks.get? h with
      | none =>
        rw [hc] at hr
        have idle : (s₁.on d).hashInUse h = false := by
          unfold PrefixCachingBlockAllocator.hashInUse
          rw [hc]
        rw [idle]
        exact ⟨(pure_iff.mp hr).2, (pure_iff.mp hr).1⟩
      | some id =>
        rw [hc] at hr
        have hused := (books.accounts d).hashInUse_iff_not_evictable hc
        refine ⟨(pure_iff.mp hr).2, (pure_iff.mp hr).1.trans ?_⟩
        by_cases hin : id ∈ (s₁.on d).evictor.freeTable
        · rw [if_pos hin, if_neg (by rw [hused]; exact not_not.mpr hin)]
        · rw [if_neg hin, if_pos (hused.mpr hin)]
          rfl
  rw [next.1, next.2]
  refine ⟨rfl, fun q hq => hrest q (List.mem_cons_of_mem _ hq), ?_⟩
  rw [hheld, ← hn]
  omega

end BlockM

theorem ManagerM.getTable_iff {seqId : SeqId} {m m' : BlockSpaceManager} {t : BlockTable} :
    getTable seqId m = some (t, m') ↔ m.blockTables.get? seqId = some t ∧ m' = m := by
  rw [getTable, read_bind]
  exact ofOption_iff

namespace ManagerAttempt
open Attempt BlockSpaceManager ManagerM
variable {p : ManagerParams} {m m' : BlockSpaceManager} {g : SequenceGroup} {tabs : List Owner} {lost : List Ref}
  {t : BlockTable} {k : Nat} {status : Option SequenceStatus} {now : Int}

/-! ## Slots -/

theorem appendSlots_detects : Detects HarmlessBlocks (appendSlots p g k) :=
  .bind (step_detects (reads_marks (.bind .read fun _ => .ofOption _))) fun t =>
    .bind (onBlocks_detects (BlockAttempt.appendToTable_detects t _ k)) fun t => .bind (setTable_detects _ t) fun _ =>
    step_detects (onBlocks_marks BlockM.clearCopyOnWrites_still BlockM.clearCopyOnWrites_advances)

/-- The table has lost no block, and the GPU has one for each block that is touched. -/
theorem appendSlots_avoids (held : Held p.toBlockParams m tabs lost) (ht : m.blockTables.get? g.seqId = some t)
    (whole : 0 ≤ t.numEmptySlots p.toBlockParams)
    (room : t.getNumBlocksTouchedByAppendSlots p.toBlockParams (t.getUnseenTokenIds g.getTokenIds) k ≤
      (m.blockAllocator.on .gpu).getNumFreeBlocks) :
    AvoidsUnless HarmlessBlocks .noFreeBlocks (appendSlots p g k) m := by
  refine .step other_ne fun t' m₁ hget => ?_
  obtain ⟨ht', hm⟩ := getTable_iff.mp hget
  obtain rfl := Option.some.inj (ht.symm.trans ht')
  rw [hm]
  obtain ⟨full, rest, tables, -⟩ := held.focus ht
  refine .bind (.zoom (fun _ _ => rfl) (BlockAttempt.appendToTable_avoids tables.focus whole room))
    (fun t => .bind (setTable_detects _ t) fun _ =>
      step_detects (onBlocks_marks BlockM.clearCopyOnWrites_still BlockM.clearCopyOnWrites_advances))
    fun _ _ _ _ => .step other_ne fun _ _ _ _ => .lift other_ne

/-! ## Swap-outs -/

theorem markAccessed_detects (ids : List BlockId) (now : Int) :
    Detects HarmlessBlocks (step (ManagerM.onBlocks (BlockM.markBlocksAsAccessed ids now))) :=
  .lift fun _ _ _ hrun ok => Harmless.before ok (onBlocks_markBlocksAsAccessed_grows hrun)

theorem finishSwap_detects (t : BlockTable) (blocks : List BlockRef) (mapping : Dict BlockId BlockId) :
    Detects HarmlessBlocks (do
      let t' ← step (ManagerM.onBlocks (t.update blocks))
      step (ManagerM.setTable g.seqId t')
      let mapping ← step (ManagerM.physicalMapping .gpu .cpu mapping)
      step (Prog.update fun m =>
        { m with trace :=
            { m.trace with
              swapOuts := m.trace.swapOuts ++ mapping
              dropped := m.trace.dropped ++ t.blocks.filter (· ∉ blocks) } })
      pure (some mapping)) := by
  refine .bind (.lift fun m _ m' hrun ok => ?_) fun t' => .bind (setTable_detects _ t') fun _ =>
    .bind (step_detects (same_marks (physicalMapping_same _ _ _))) fun _ => .bind (.lift fun m _ m' hrun ok => ?_) fun _ => .pure _
  · obtain ⟨s, hupdate, rfl⟩ := onBlocks_iff.mp hrun
    exact Harmless.advances ok (BlockTable.update_advances _ _ _ _ _ hupdate)
  · rw [update_iff.mp hrun] at ok
    exact ok

/-- With a check that counts each block that the CPU has to give. -/
theorem swapOutGroup_avoids (held : Held p.toBlockParams m tabs lost) :
    AvoidsUnless HarmlessBlocks .noFreeBlocks (swapOutGroup p g status now) m := by
  refine .step other_ne fun o m₁ hcollect => ?_
  have hm := collectBlocksForSwap_reads g _ _ _ _ hcollect
  rw [← hm] at hcollect ⊢
  cases o with
  | none => exact fun _ => .pure _
  | some x =>
    obtain ⟨t, blocks⟩ := x
    obtain ⟨ht, hsub, hfull⟩ := collectBlocksForSwap_selects hcollect
    obtain ⟨full, rest, tables, -⟩ := held.focus ht
    have owns := tables.focus
    have listed (r : BlockRef) (hr : r ∈ blocks) : r ∈ full := owns.listed.subset (hsub.subset hr)
    refine .step other_ne fun n m₁ htouched => ?_
    obtain ⟨s, hcount, -⟩ := onBlocks_iff.mp htouched
    rw [(onBlocks_getNumFullBlocksTouched_upkeep ht hsub htouched).2 ⟨_, _, held⟩]
    have hcount := BlockM.getNumFullBlocksTouched_counts owns.chained owns.books listed hcount
    refine .step other_ne fun m₂ m₃ hread => ?_
    obtain ⟨hm₂, hm₃⟩ := read_iff.mp hread
    rw [hm₂, hm₃]
    refine .ite (fun _ _ => .pure _) fun hroom => .step other_ne fun _ m₁ hmark => ?_
    -- the marks leave the tables, and what they need, as they were
    have marks := onBlocks_markBlocksAsAccessed tables (tables.referenced List.mem_cons_self) hmark
    have tables₁ := tables.still marks.still marks.advances
    have owns₁ := tables₁.focus
    have room : ((m₁.blockAllocator.on .cpu).numToTake (BlockM.heldHashes m₁.blockAllocator blocks)) ≤
        (m₁.blockAllocator.on .cpu).getNumFreeBlocks := by
      rw [BlockM.heldHashes_content fun r _ => congrArg (Option.map Block.content) (marks.still.block r),
        PrefixCachingBlockAllocator.numToTake_congr fun h _ => (marks.still.accounts .cpu).hashInUse,
        tables.numFree tables₁ (marks.advances.blocks .cpu)]
      refine PrefixCachingBlockAllocator.numToTake_le_countP.trans ?_
      exact hcount.symm.le.trans (Nat.not_lt.mp hroom)
    obtain ⟨others, hperm⟩ := hsub.exists_perm_append
    have books : m₁.blockAllocator.Books (m₁.blockAllocator.refsOf blocks ++
        (m₁.blockAllocator.refsOf others ++ (m₁.blockAllocator.refsHeld rest ++ lost))) := by
      refine owns₁.books.perm ?_
      rw [← List.append_assoc (m₁.blockAllocator.refsOf blocks), ← refsOf_append]
      exact (refsOf_perm hperm).append_right _
    have nodup : blocks.Nodup := (owns₁.inUse.nodup.of_append_left).sublist (hsub.trans owns₁.listed)
    refine .bind (.zoom (fun _ _ => rfl) (BlockAttempt.swap_avoids (by decide) owns₁.inUse owns₁.chained.settled
      (fun q hq => List.mem_append_left _ hq) books listed nodup (fun r hr b hb => ?_) room))
      (fun mapping => finishSwap_detects t blocks mapping) fun _ _ _ _ => ?_
    · rw [marks.still.block] at hb
      exact hfull r hr b hb
    · exact .step other_ne fun _ _ _ => .step other_ne fun _ _ _ => .step other_ne fun _ _ _ => .step other_ne fun _ _ _ _ => .pure _

theorem swapOutGroup_detects : Detects HarmlessBlocks (swapOutGroup p g status now) := by
  refine .bind (step_detects (reads_marks (collectBlocksForSwap_reads g status))) fun o => ?_
  cases o with
  | none => exact .pure _
  | some x =>
    refine .bind (.lift fun m _ m' hrun ok => ?_) fun _ => .bind (step_detects (reads_marks .read)) fun m => .ite (.pure _) ?_
    · obtain ⟨s, htouched, rfl⟩ := onBlocks_iff.mp hrun
      exact Harmless.advances ok (BlockM.getNumFullBlocksTouched_advances _ _ _ htouched)
    · exact .bind (markAccessed_detects _ now) fun _ => .bind (onBlocks_detects (BlockAttempt.swap_detects _ _ _)) fun mapping =>
        finishSwap_detects x.1 x.2 mapping

end ManagerAttempt

/-! ## Over runs -/

namespace ManagerM
open BlockSpaceManager
variable {p : ManagerParams} {m m' : BlockSpaceManager} {g : SequenceGroup} {status : Option SequenceStatus} {now : Int}

/-- A swap-out that is refused has changed nothing. -/
theorem swapOutGroup_refused (acc : Accounted p.toBlockParams m) (hrun : swapOutGroup p g status now m = some (none, m')) :
    m' = m := by
  obtain ⟨o, m₁, hcollect, hrun⟩ := bind_iff.mp hrun
  have hm := collectBlocksForSwap_reads g _ _ _ _ hcollect
  rw [← hm] at hcollect hrun
  cases o with
  | none => exact (pure_iff.mp hrun).2
  | some x =>
    obtain ⟨t, blocks⟩ := x
    obtain ⟨ht, hsub, -⟩ := collectBlocksForSwap_selects hcollect
    obtain ⟨n, m₁, htouched, hrun⟩ := bind_iff.mp hrun
    rw [(onBlocks_getNumFullBlocksTouched_upkeep ht hsub htouched).2 acc, read_bind] at hrun
    split at hrun
    · exact (pure_iff.mp hrun).2
    · obtain ⟨_, _, -, hrun⟩ := bind_iff.mp hrun
      obtain ⟨_, _, -, hrun⟩ := bind_iff.mp hrun
      obtain ⟨_, _, -, hrun⟩ := bind_iff.mp hrun
      obtain ⟨_, _, -, hrun⟩ := bind_iff.mp hrun
      obtain ⟨_, _, -, hrun⟩ := bind_iff.mp hrun
      obtain ⟨_, _, -, hrun⟩ := bind_iff.mp hrun
      cases (pure_iff.mp hrun).1

/-- `can_swap_out` changes nothing, and denies just what `swap_out` would refuse for want of CPU blocks. -/
theorem canSwapOut_agrees {b : Bool} {m₁ : BlockSpaceManager} {o : Option (List SwapPair)} (acc : Accounted p.toBlockParams m)
    (hcan : canSwapOut p g m = some (b, m₁)) (hrun : swapOutGroup p g (some .running) now m = some (o, m')) :
    m₁ = m ∧ (o = none ↔ b = false ∨ collectBlocksForSwap p g (some .running) m = some (none, m)) := by
  obtain ⟨x, m₂, hcollect, hcan⟩ := bind_iff.mp hcan
  have hm := collectBlocksForSwap_reads g _ _ _ _ hcollect
  rw [← hm] at hcollect hcan
  rw [swapOutGroup, bind_eq hcollect] at hrun
  cases x with
  | none =>
    exact ⟨(pure_iff.mp hcan).2, iff_of_true (pure_iff.mp hrun).1 (.inr hcollect)⟩
  | some x =>
    obtain ⟨t, blocks⟩ := x
    obtain ⟨ht, hsub, -⟩ := collectBlocksForSwap_selects hcollect
    obtain ⟨n, m₂, htouched, hcan⟩ := bind_iff.mp hcan
    have same := (onBlocks_getNumFullBlocksTouched_upkeep ht hsub htouched).2 acc
    rw [same] at htouched hcan
    rw [read_bind] at hcan
    obtain ⟨hb, hm₁⟩ := pure_iff.mp hcan
    refine ⟨hm₁, ?_⟩
    have collected : collectBlocksForSwap p g (some .running) m ≠ some (none, m) := by
      rw [hcollect]
      intro he
      cases he
    simp only [collected, or_false, hb, decide_eq_false_iff_not, not_le]
    dsimp only at hrun
    rw [bind_eq htouched, read_bind] at hrun
    split at hrun
    · rename_i short
      exact iff_of_true (pure_iff.mp hrun).1 short
    · rename_i room
      obtain ⟨_, _, -, hrun⟩ := bind_iff.mp hrun
      obtain ⟨_, _, -, hrun⟩ := bind_iff.mp hrun
      obtain ⟨_, _, -, hrun⟩ := bind_iff.mp hrun
      obtain ⟨_, _, -, hrun⟩ := bind_iff.mp hrun
      obtain ⟨_, _, -, hrun⟩ := bind_iff.mp hrun
      obtain ⟨_, _, -, hrun⟩ := bind_iff.mp hrun
      refine iff_of_false ?_ room
      rw [(pure_iff.mp hrun).1]
      exact Option.some_ne_none _

end ManagerM

namespace BlockSpaceManager
open ManagerM
variable {p : ManagerParams} {m m' : BlockSpaceManager} {g : SequenceGroup} {ops : List ManagerOp} {u : Unit} {t : BlockTable}
  {k : Nat}

/-- What `can_append_slots` lets through does not run out of GPU blocks, after any calls: as long as the table of the
sequence has lost no block and no object in use is handed out again. -/
theorem run_appendsAsCounted (hrun : run p ops (init p) = some (u, m)) (hg : g.status = .running)
    (ht : m.blockTables.get? g.seqId = some t) (whole : 0 ≤ t.numEmptySlots p.toBlockParams)
    (hok : canAppendSlots p g k m = some (true, m')) (ok : (ManagerAttempt.appendSlots p g k m).2.HarmlessBlocks) :
    Attempt.Avoids .noFreeBlocks (ManagerAttempt.appendSlots p g k) m := by
  obtain ⟨tabs, lost, held⟩ := run_accounted hrun (ManagerAttempt.appendSlots_detects m ok)
  refine ManagerAttempt.appendSlots_avoids held ht whole ?_ ok
  rw [canAppendSlots, read_bind, if_pos hg] at hok
  obtain ⟨n, m₁, hn, hok⟩ := bind_iff.mp hok
  obtain ⟨t', m₂, hget, hn⟩ := bind_iff.mp hn
  obtain rfl := Option.some.inj (ht.symm.trans (getTable_iff.mp hget).1)
  rw [(pure_iff.mp hn).1] at hok
  exact of_decide_eq_true (pure_iff.mp hok).1.symm

/-- Two tokens for a table of two blocks, of which the last has one slot left. -/
theorem run_appendsAsCounted_short : ∃ m, run (shortParams 2 (by decide) 4 2) [.allocate (shortGroup 1 [1, 2, 3] .waiting)]
    (init (shortParams 2 (by decide) 4 2)) = some ((), m) ∧ Attempt.Avoids .noFreeBlocks
      (ManagerAttempt.appendSlots (shortParams 2 (by decide) 4 2) (shortGroup 1 [1, 2, 3, 4, 5] .running) 0) m := by
  have returns : ((run (shortParams 2 (by decide) 4 2) [.allocate (shortGroup 1 [1, 2, 3] .waiting)]
      (init (shortParams 2 (by decide) 4 2))).map fun x =>
      decide ((x.2.blockTables.get? 1).map (fun t => decide (0 ≤ t.numEmptySlots (shortParams 2 (by decide) 4 2).toBlockParams)) =
          some true ∧
        ((canAppendSlots (shortParams 2 (by decide) 4 2) (shortGroup 1 [1, 2, 3, 4, 5] .running) 0) x.2).map Prod.fst =
          some true ∧
        (ManagerAttempt.appendSlots (shortParams 2 (by decide) 4 2) (shortGroup 1 [1, 2, 3, 4, 5] .running) 0
          x.2).2.blockAllocator.trace.events.filter BlockEvent.isFault = [])) = some true := by
    decide +kernel
  obtain ⟨⟨_, m⟩, hrun, hfacts⟩ := Option.map_eq_some_iff.mp returns
  obtain ⟨htable, hok, hevents⟩ := of_decide_eq_true hfacts
  obtain ⟨t, ht, whole⟩ := Option.map_eq_some_iff.mp htable
  obtain ⟨⟨b, m'⟩, hok, rfl⟩ := Option.map_eq_some_iff.mp hok
  exact ⟨m, hrun, run_appendsAsCounted hrun rfl ht (of_decide_eq_true whole) hok fun _ => (no_faults hevents).2⟩

/-- A swap-out of the one sequence of a group, for a preemption or when it has finished, does not run out of CPU blocks
half way, after any calls: it is refused and leaves everything as it was, or there are blocks for all of it. Which of the
two, `can_swap_out` has told. -/
theorem run_swapsOutWhole {status : Option SequenceStatus} {now : Int} (hrun : run p ops (init p) = some (u, m))
    (ok : (ManagerAttempt.swapOutGroup p g status now m).2.HarmlessBlocks) :
    Attempt.Avoids .noFreeBlocks (ManagerAttempt.swapOutGroup p g status now) m ∧
      (∀ m', swapOutGroup p g status now m = some (none, m') → m' = m) ∧
      ∀ b m₁ o m', canSwapOut p g m = some (b, m₁) → swapOutGroup p g (some .running) now m = some (o, m') →
        m₁ = m ∧ (o = none ↔ b = false ∨ collectBlocksForSwap p g (some .running) m = some (none, m)) := by
  obtain ⟨tabs, lost, held⟩ := run_accounted hrun (ManagerAttempt.swapOutGroup_detects m ok)
  exact ⟨ManagerAttempt.swapOutGroup_avoids held ok, fun _ => swapOutGroup_refused ⟨tabs, lost, held⟩,
    fun _ _ _ _ => canSwapOut_agrees ⟨tabs, lost, held⟩⟩

/-- A computed block goes to the CPU, which has two. -/
theorem run_swapsOutWhole_short : ∃ m, run (shortParams 2 (by decide) 4 2)
    [.allocate (shortGroup 1 [5, 6] .waiting), .markBlocksAsComputed (shortGroup 1 [5, 6] .running) 2]
    (init (shortParams 2 (by decide) 4 2)) = some ((), m) ∧ Attempt.Avoids .noFreeBlocks
      (ManagerAttempt.swapOutGroup (shortParams 2 (by decide) 4 2) (shortGroup 1 [5, 6] .running) (some .running) 5) m := by
  have returns : ((run (shortParams 2 (by decide) 4 2)
      [.allocate (shortGroup 1 [5, 6] .waiting), .markBlocksAsComputed (shortGroup 1 [5, 6] .running) 2]
      (init (shortParams 2 (by decide) 4 2))).map fun x =>
      decide ((ManagerAttempt.swapOutGroup (shortParams 2 (by decide) 4 2) (shortGroup 1 [5, 6] .running) (some .running) 5
        x.2).2.blockAllocator.trace.events.filter BlockEvent.isFault = [])) = some true := by
    decide +kernel
  obtain ⟨⟨_, m⟩, hrun, hevents⟩ := Option.map_eq_some_iff.mp returns
  exact ⟨m, hrun, (run_swapsOutWhole hrun fun _ => (no_faults (of_decide_eq_true hevents)).2).1⟩

end BlockSpaceManager

end CoreFlow
