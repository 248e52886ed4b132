import CoreFlow.Lib.Feeds
import CoreFlow.Instance.Slots

/-!
# The tokens of a request

To its clients an engine is a server of append-only feeds: a request opens one, every token that is sampled for it
is appended, and the feed is closed when the request has finished. Scheduling, preempting, swapping and migrating
caches only close feeds, so no token is lost, repeated or given to another request.
-/

namespace CoreFlow
open Prog FeedServer

/-- What a client knows of a group; the outcome of a finished one is its whole record. -/
def SequenceGroup.feed (g : SequenceGroup) : Feed Request TokenId SequenceGroup where
  request := g.request
  items := g.outputTokenIds
  outcome := if g.isFinished then some g else none

def Scheduler.feeds (s : Scheduler) : FeedServer SeqId Request TokenId SequenceGroup :=
  fun id => (s.groups.get? id).map SequenceGroup.feed

/-- The token that processing an output appends. -/
def Scheduler.sampled (s : Scheduler) (m : SequenceGroupMetadata) (o : SampleOutput) :
    List (FeedEvent SeqId Request TokenId) :=
  if m.doSample = true ∧ (s.groups.get? m.seqId).any (fun g => !g.isFinished) = true then [.emitted m.seqId o.token]
  else []

namespace Engine

/-- What the clients see of an operation. -/
def events (e : Engine) : EngineOp → List (FeedEvent SeqId Request TokenId)
  | .addSeqGroup requestId promptTokenIds extraArgs priority arrivalTime =>
    [.opened e.seqCounter ⟨requestId, e.seqCounter, promptTokenIds, extraArgs, priority, arrivalTime⟩]
  | .processModelOutputs samples _ => ((e.batch.getD []).zip samples).flatMap fun x => e.scheduler.sampled x.1 x.2
  | _ => []

/-- What the clients see of a run. -/
def trace (p : SchedulerParams) (e : Engine) : List EngineOp → List (FeedEvent SeqId Request TokenId)
  | [] => []
  | op :: ops => e.events op ++ ((perform p op e).map fun x => trace p x.2 ops).getD []

end Engine

/-! ## The steps of the scheduler -/

/-- Feeds are closed, and nothing else happens to them. -/
def OnlyCloses (s s' : Scheduler) : Prop := Steps s.feeds [] s'.feeds

instance : IsPreorder Scheduler OnlyCloses where
  refl s := Steps.refl s.feeds
  trans _ _ _ h h' := Steps.trans h h'

section
variable {p : SchedulerParams} {s s' : Scheduler} {id : SeqId} {g g' : SequenceGroup}

theorem feeds_set (s : Scheduler) (id : SeqId) (g : SequenceGroup) :
    { s with groups := s.groups.set id g }.feeds = Function.update s.feeds id (some g.feed) := by
  funext x
  by_cases hx : x = id
  · subst hx
    rw [Function.update_self, Scheduler.feeds, Dict.get?_set_self]
    rfl
  · rw [Function.update_of_ne hx, Scheduler.feeds, Dict.get?_set_ne _ _ (Ne.symm hx)]
    rfl

theorem feeds_of_get? (hg : s.groups.get? id = some g) : s.feeds id = some g.feed := by
  rw [Scheduler.feeds, hg]
  rfl

theorem feed_isOpen (hu : g.isFinished = false) : g.feed.outcome = none := by
  rw [SequenceGroup.feed, hu]
  rfl

/-- A group that is still unfinished has the same feed, and one that has finished has closed it. -/
theorem regroup_onlyCloses (hg : s.groups.get? id = some g) (hu : g.isFinished = false) (hr : g'.request = g.request)
    (ho : g'.outputTokenIds = g.outputTokenIds) : OnlyCloses s { s with groups := s.groups.set id g' } := by
  rw [OnlyCloses, feeds_set]
  cases hf : g'.isFinished with
  | false =>
    have same : g'.feed = g.feed := by
      rw [SequenceGroup.feed, SequenceGroup.feed, hr, ho, hf, hu]
      rfl
    rw [same, ← feeds_of_get? hg, Function.update_eq_self]
    exact Steps.refl _
  | true =>
    have closed : g'.feed = { g.feed with outcome := some g' } := by
      rw [SequenceGroup.feed, SequenceGroup.feed, hr, ho, hf]
      rfl
    rw [closed]
    exact (Step.closed g' (feeds_of_get? hg) (feed_isOpen hu)).steps

theorem onlyCloses_steps (p : ManagerParams) : KeptBySteps p OnlyCloses where
  frame s s' groups _ := by
    have same : s'.feeds = s.feeds := by
      unfold Scheduler.feeds
      rw [groups]
    rw [OnlyCloses, same]
    exact Steps.refl _
  call op s u s' h := by
    obtain ⟨m, -, rfl⟩ := SchedM.onManager_iff.mp h
    exact Steps.refl _
  record s _ _ := Steps.refl s.feeds
  regroup s id g g' hg hu hr ho := regroup_onlyCloses hg hu hr ho

/-! ## The outputs -/

theorem updateNumComputedTokens_feed {n : Int} (h : g.updateNumComputedTokens n = some g') :
    g'.request = g.request ∧ g'.outputTokenIds = g.outputTokenIds ∧ g'.isFinished = g.isFinished := by
  rw [SequenceGroup.updateNumComputedTokens, Option.ite_none_right_eq_some, Option.some.injEq] at h
  obtain ⟨-, rfl⟩ := h
  exact ⟨rfl, rfl, rfl⟩

/-- Processing an output appends its token to the feed of its group, if the group has not finished. -/
theorem processGroup_feeds {m : SequenceGroupMetadata} {o : SampleOutput} {b : Bool}
    (h : EngineM.processGroup p m o s = some (b, s')) :
    Steps s.feeds (s.sampled m o) s'.feeds ∧ ∀ x, x ≠ m.seqId → s'.groups.get? x = s.groups.get? x := by
  rw [EngineM.processGroup, SchedM.getGroup_bind, Option.bind_eq_some_iff] at h
  obtain ⟨g, hg, h⟩ := h
  cases hu : g.isFinished with
  | true =>
    rw [if_pos hu] at h
    obtain ⟨-, rfl⟩ := pure_iff.mp h
    refine ⟨?_, fun _ _ => rfl⟩
    rw [Scheduler.sampled, if_neg (by simp [hg, hu])]
    exact Steps.refl _
  | false =>
    rw [if_neg (by simp [hu]), ofOption_bind, Option.bind_eq_some_iff] at h
    obtain ⟨g₁, hg₁, h⟩ := h
    obtain ⟨hr, ho, hf⟩ := updateNumComputedTokens_feed hg₁
    have counted : OnlyCloses s { s with groups := s.groups.set m.seqId g₁ } := regroup_onlyCloses hg hu hr ho
    rw [SchedM.setGroup_bind] at h
    cases hsample : m.doSample with
    | false =>
      rw [if_pos hsample] at h
      obtain ⟨-, rfl⟩ := pure_iff.mp h
      refine ⟨?_, fun x hx => Dict.get?_set_ne _ _ (Ne.symm hx)⟩
      rw [Scheduler.sampled, if_neg (by simp [hsample])]
      exact counted
    | true =>
      rw [if_neg (by simp [hsample])] at h
      simp only [SchedM.setGroup_bind, Dict.set_set] at h
      obtain ⟨g₂, hg₂⟩ : ∃ g₂, g₂ = g₁.appendTokenId o.token := ⟨_, rfl⟩
      obtain ⟨t, ht⟩ : ∃ t, t = { s with groups := s.groups.set m.seqId g₂ } := ⟨_, rfl⟩
      rw [← hg₂, ← ht] at h
      have hu₂ : g₂.isFinished = false := by
        rw [hg₂]
        exact hf.trans hu
      have ht₂ : t.groups.get? m.seqId = some g₂ := by
        rw [ht]
        exact Dict.get?_set_self _ _ _
      have others (x : SeqId) (hx : x ≠ m.seqId) : t.groups.get? x = s.groups.get? x := by
        rw [ht]
        exact Dict.get?_set_ne _ _ (Ne.symm hx)
      have appended : Steps s.feeds (s.sampled m o) t.feeds := by
        rw [Scheduler.sampled, if_pos (by simp [hsample, hg, hu]), ht, feeds_set]
        have hfeed : g₂.feed = { g.feed with items := g.feed.items ++ [o.token] } := by
          have hr₂ : g₂.request = g.request := by
            rw [hg₂]
            exact hr
          have ho₂ : g₂.outputTokenIds = g.outputTokenIds ++ [o.token] := by
            rw [hg₂, ← ho]
            rfl
          rw [SequenceGroup.feed, SequenceGroup.feed, hr₂, ho₂, hu₂, hu]
          rfl
        rw [hfeed]
        exact (Step.emitted o.token (feeds_of_get? hg) (feed_isOpen hu)).steps
      cases hfin : o.finish with
      | none =>
        rw [hfin] at h
        obtain ⟨-, rfl⟩ := pure_iff.mp h
        exact ⟨appended, others⟩
      | some status =>
        rw [hfin] at h
        simp only [require_bind, Option.ite_none_right_eq_some, SchedM.setGroup_bind] at h
        obtain ⟨-, h⟩ := h
        obtain ⟨_, s₁, h₁, h⟩ := bind_iff.mp h
        obtain ⟨-, rfl⟩ := pure_iff.mp h
        have closed : OnlyCloses t { t with groups := t.groups.set m.seqId { g₂ with status := status } } :=
          regroup_onlyCloses ht₂ hu₂ rfl rfl
        have freed : Within (Quietly OnlyCloses) (Prog.when (o.freed = true) (SchedM.freeSeq p m.seqId)) :=
          .when ((onlyCloses_steps p.toManagerParams).quiet.freeSeq m.seqId)
        obtain ⟨closes, groups⟩ := freed _ _ _ h₁
        refine ⟨(appended.closes closed).closes closes, fun x hx => ?_⟩
        rw [groups, ← others x hx]
        exact Dict.get?_set_ne _ _ (Ne.symm hx)

/-- The outputs of one batch are processed as if each were the first one, as no group occurs twice. -/
theorem processGroups_feeds {l : List (SequenceGroupMetadata × SampleOutput)} {bs : List Bool} {s₀ : Scheduler}
    (once : (l.map (·.1.seqId)).Nodup) (same : ∀ x ∈ l, s.groups.get? x.1.seqId = s₀.groups.get? x.1.seqId)
    (h : Prog.mapM (fun x : SequenceGroupMetadata × SampleOutput => EngineM.processGroup p x.1 x.2) l s = some (bs, s')) :
    Steps s.feeds (l.flatMap fun x => s₀.sampled x.1 x.2) s'.feeds := by
  induction l generalizing s bs with
  | nil =>
    obtain ⟨-, rfl⟩ := pure_iff.mp h
    exact Steps.refl _
  | cons x l ih =>
    obtain ⟨b, s₁, bs', h₁, h₂, -⟩ := mapM_cons_iff.mp h
    obtain ⟨hnew, once⟩ := List.nodup_cons.mp once
    obtain ⟨first, others⟩ := processGroup_feeds h₁
    have hx : s.sampled x.1 x.2 = s₀.sampled x.1 x.2 := by
      rw [Scheduler.sampled, Scheduler.sampled, same x (List.mem_cons_self ..)]
    rw [hx] at first
    rw [List.flatMap_cons]
    refine first.trans (ih once (fun y hy => ?_) h₂)
    rw [← same y (List.mem_cons_of_mem _ hy)]
    apply others
    intro heq
    exact hnew (List.mem_map.mpr ⟨y, hy, heq⟩)

end

/-! ## The engine -/

namespace EngineM
variable {p : SchedulerParams} {e e' : Engine}

theorem processModelOutputs_feeds {samples : List SampleOutput} {clock : List Int} {u : Unit}
    (once : (batchIds e).Nodup) (h : processModelOutputs p samples clock e = some (u, e')) :
    e'.batch = none ∧ Steps e.scheduler.feeds (e.events (.processModelOutputs samples clock)) e'.scheduler.feeds := by
  simp only [processModelOutputs, setClock, read_bind, ofOption_bind, require_bind,
    Option.bind_eq_some_iff, Option.ite_none_right_eq_some] at h
  obtain ⟨batch, hbatch, hlen, h⟩ := h
  obtain ⟨_, e₁, h₁, h⟩ := bind_iff.mp h
  obtain ⟨s₁, hs₁, rfl⟩ := onScheduler_iff.mp h₁
  rw [update_iff] at hs₁
  obtain ⟨finishedNow, e₂, h₂, h⟩ := bind_iff.mp h
  obtain ⟨s₂, hs₂, rfl⟩ := onScheduler_iff.mp h₂
  obtain ⟨_, e₃, h₃, h⟩ := bind_iff.mp h
  rw [update_iff] at h
  subst h
  refine ⟨rfl, ?_⟩
  have ids : (batch.zip samples).map (·.1.seqId) = batchIds e := by
    have fst : ((batch.zip samples).map Prod.fst) = batch := List.map_fst_zip hlen.ge
    rw [batchIds, hbatch, Option.getD_some, ← fst, List.map_map, fst]
    rfl
  have same (x : SequenceGroupMetadata × SampleOutput) (_ : x ∈ batch.zip samples) :
      s₁.groups.get? x.1.seqId = e.scheduler.groups.get? x.1.seqId := by rw [hs₁]
  have processed := processGroups_feeds (by rw [ids]; exact once) same hs₂
  have freed : Within (OnScheduler OnlyCloses) (Prog.when (finishedNow.any id = true)
      (onScheduler (SchedM.freeFinishedSeqGroups p))) :=
    .when (onScheduler_kept (onlyCloses_steps p.toManagerParams).freeFinishedSeqGroups)
  have closes : OnlyCloses s₂ e₃.scheduler := freed _ _ _ h₃
  rw [Engine.events, hbatch, Option.getD_some]
  rw [hs₁] at processed
  exact processed.closes closes

/-- What holds between the operations of an engine, when no group occurs twice in its batch. -/
structure Batched (p : SchedulerParams) (e : Engine) : Prop where
  owned : Owned e
  counted : CountedEngine p e
  once : (batchIds e).Nodup

theorem perform_batched {op : EngineOp} {u : Unit} (h : Batched p e) (hop : Engine.perform p op e = some (u, e')) :
    Batched p e' := by
  refine ⟨perform_owned h.owned hop, perform_counted h.owned h.counted hop, ?_⟩
  have kept (hb : e'.batch = e.batch) : (batchIds e').Nodup := by
    rw [batchIds, hb]
    exact h.once
  cases op with
  | addSeqGroup requestId promptTokenIds extraArgs priority arrivalTime =>
    apply kept
    simp only [Engine.perform, addSeqGroup, nextSeqId, Prog.bind_assoc, read_bind, update_bind, Prog.pure_bind] at hop
    obtain ⟨s, -, rfl⟩ := onScheduler_iff.mp hop
    rfl
  | abortSeqGroup ids =>
    apply kept
    obtain ⟨s, -, rfl⟩ := onScheduler_iff.mp hop
    rfl
  | schedule clock =>
    obtain ⟨batch, o, hbatch, -, served, -, -, described⟩ := schedule_batch h.owned h.counted.counted hop
    have ids : batchIds e' = SchedM.scheduledIds o.scheduledSeqGroups := by
      rw [batchIds, hbatch, ← SchedM.Describes.map_eq described, SchedM.scheduledIds, List.map_map]
      rfl
    rw [ids]
    exact served.once
  | processModelOutputs samples clock =>
    rw [batchIds, (processModelOutputs_feeds h.once hop).1]
    exact List.nodup_nil
  | migrateCache =>
    apply kept
    exact (migrateCache_groups hop).2

/-- What an operation does to the feeds is what its clients see, and closing some. -/
theorem perform_feeds {op : EngineOp} {u : Unit} (h : Batched p e) (hop : Engine.perform p op e = some (u, e')) :
    Steps e.scheduler.feeds (e.events op) e'.scheduler.feeds := by
  have steps := onlyCloses_steps p.toManagerParams
  cases op with
  | addSeqGroup requestId promptTokenIds extraArgs priority arrivalTime =>
    simp only [Engine.perform, addSeqGroup, nextSeqId, Prog.bind_assoc, read_bind, update_bind, Prog.pure_bind] at hop
    obtain ⟨s, hs, rfl⟩ := onScheduler_iff.mp hop
    rw [SchedM.setGroup_bind, update_iff] at hs
    subst hs
    have hnone : e.scheduler.feeds e.seqCounter = none := by
      rw [Scheduler.feeds, Option.map_eq_none_iff, Dict.get?_eq_none]
      intro hmem
      exact absurd (h.owned.settled.fresh _ (.inl hmem)) (Nat.lt_irrefl _)
    let g := SequenceGroup.init requestId e.seqCounter promptTokenIds extraArgs priority arrivalTime
    show Steps e.scheduler.feeds _ { e.scheduler with groups := e.scheduler.groups.set e.seqCounter g }.feeds
    rw [feeds_set]
    exact (Step.opened g.request hnone).steps
  | abortSeqGroup ids => exact (onScheduler_kept (steps.abortSeqGroup ids) : Within (OnScheduler OnlyCloses) _) _ _ _ hop
  | schedule clock => exact schedule_kept steps clock _ _ _ hop
  | processModelOutputs samples clock => exact (processModelOutputs_feeds h.once hop).2
  | migrateCache tokenIds queryId invocationId requestId keep arrivalTime now =>
    exact migrateCache_kept steps.toKeptByManager tokenIds queryId invocationId requestId keep arrivalTime now _ _ _ hop

theorem init_batched (p : SchedulerParams) : Batched p (Engine.init p) := by
  obtain ⟨owned, counted⟩ := Engine.run_counted (Engine.run_nil_iff.mpr rfl : Engine.run p (Engine.init p) [] = _)
  exact ⟨owned, counted, List.nodup_nil⟩

end EngineM

namespace Engine
variable {p : SchedulerParams} {e e' : Engine} {ops : List EngineOp}

theorem trace_cons {op : EngineOp} {e₁ : Engine} (h : perform p op e = some ((), e₁)) :
    trace p e (op :: ops) = e.events op ++ trace p e₁ ops := by
  rw [trace, h]
  rfl

/-- Every run is a run of the server of feeds. -/
theorem run_refines (h : EngineM.Batched p e) (hrun : run p e ops = some e') :
    Steps e.scheduler.feeds (trace p e ops) e'.scheduler.feeds ∧ EngineM.Batched p e' := by
  induction ops generalizing e with
  | nil =>
    rw [run_nil_iff.mp hrun]
    exact ⟨Steps.refl _, h⟩
  | cons op ops ih =>
    obtain ⟨e₁, h₁, h₂⟩ := run_cons_iff.mp hrun
    obtain ⟨rest, batched⟩ := ih (EngineM.perform_batched h h₁) h₂
    rw [trace_cons h₁]
    exact ⟨(EngineM.perform_feeds h h₁).trans rest, batched⟩

end Engine

/-! ## Runs -/

/-- An operation appends a token to a feed at most once. -/
theorem length_itemsOf_sampled (s : Scheduler) (id : SeqId) (l : List (SequenceGroupMetadata × SampleOutput)) :
    (itemsOf id (l.flatMap fun x => s.sampled x.1 x.2)).length ≤ (l.map (·.1.seqId)).count id := by
  induction l with
  | nil => exact Nat.le_refl 0
  | cons x l ih =>
    have first : (itemsOf id (s.sampled x.1 x.2)).length ≤ if x.1.seqId = id then 1 else 0 := by
      rw [Scheduler.sampled]
      split <;> by_cases hid : x.1.seqId = id <;> simp [itemsOf, hid]
    rw [List.flatMap_cons, itemsOf_append, List.length_append, List.map_cons, List.count_cons]
    simp only [beq_iff_eq]
    omega

theorem length_itemsOf_events {e : Engine} (once : (EngineM.batchIds e).Nodup) (op : EngineOp) (id : SeqId) :
    (itemsOf id (e.events op)).length ≤ 1 := by
  cases op with
  | processModelOutputs samples clock =>
    refine (length_itemsOf_sampled e.scheduler id _).trans (Nat.le_trans ?_ (List.nodup_iff_count_le_one.mp once id))
    apply List.Sublist.count_le
    have fst : (((e.batch.getD []).zip samples).map Prod.fst).Sublist (e.batch.getD []) := by
      rw [List.zip_eq_zip_take_min, List.map_fst_zip (by simp)]
      exact List.take_sublist _ _
    have ids := fst.map (·.seqId)
    rw [List.map_map] at ids
    exact ids
  | _ => exact Nat.zero_le 1

/-- In every run an engine is a server of feeds: each request has the prompt and the arguments that it came with, its
output is what was sampled for it, in order, and one that has finished does not change any more. -/
theorem run_feeds (p : SchedulerParams) (ops ops' : List EngineOp) (e e' : Engine)
    (hrun : Engine.run p (Engine.init p) ops = some e) (hrun' : Engine.run p e ops' = some e') :
    Steps empty (Engine.trace p (Engine.init p) ops) e.scheduler.feeds ∧
      (∀ op id, (itemsOf id (e.events op)).length ≤ 1) ∧
      ∀ id g, e.scheduler.groups.get? id = some g →
        requestsOf id (Engine.trace p (Engine.init p) ops) = [g.request] ∧
        itemsOf id (Engine.trace p (Engine.init p) ops) = g.outputTokenIds ∧
        ∃ g', e'.scheduler.groups.get? id = some g' ∧ g'.request = g.request ∧
          g'.outputTokenIds = g.outputTokenIds ++ itemsOf id (Engine.trace p e ops') ∧
          (g.isFinished = true → g' = g) := by
  obtain ⟨before, batched⟩ := Engine.run_refines (EngineM.init_batched p) hrun
  obtain ⟨after, -⟩ := Engine.run_refines batched hrun'
  refine ⟨before, fun op id => length_itemsOf_events batched.once op id, fun id g hg => ?_⟩
  obtain ⟨hrequests, hitems⟩ := (before.of_empty id).2 _ (feeds_of_get? hg)
  obtain ⟨-, feed', hfeed', hrequest, hitems', hclosed⟩ := after.grows (feeds_of_get? hg)
  obtain ⟨g', hg', rfl⟩ := Option.map_eq_some_iff.mp hfeed'
  refine ⟨hrequests, hitems, g', hg', hrequest, hitems', fun hf => ?_⟩
  have outcome : g.feed.outcome = some g := if_pos hf
  have same := hclosed (by rw [outcome]; exact Option.some_ne_none g)
  have outcome' : g'.feed.outcome = some g := by rw [same, outcome]
  by_cases hf' : g'.isFinished = true
  · have : g'.feed.outcome = some g' := if_pos hf'
    exact Option.some.inj (this.symm.trans outcome')
  · have : g'.feed.outcome = none := if_neg hf'
    rw [this] at outcome'
    cases outcome'

/-- The second request is preempted after its first token. -/
def preemptedRun : List EngineOp :=
  [.addSeqGroup "a" [1, 2, 3] none 0 0,
   .addSeqGroup "b" [5, 6, 7] none 0 0,
   .schedule [1, 1, 1, 1],
   .processModelOutputs [⟨4, none, false⟩, ⟨8, none, false⟩] [2],
   .schedule [3, 3, 3, 3]]

/-- The first request finishes, and the second one is computed again and gets its next token. -/
def resumedRun : List EngineOp :=
  [.processModelOutputs [⟨9, some .finishedStopped, true⟩] [4, 4],
   .schedule [5, 5, 5, 5],
   .processModelOutputs [⟨10, none, false⟩] [6]]

theorem run_feeds_preemptedRun : ∃ e e' g g', Engine.run smallParams (Engine.init smallParams) preemptedRun = some e ∧
    Engine.run smallParams e resumedRun = some e' ∧ e.scheduler.groups.get? 1 = some g ∧ g.status = .waiting ∧
      e'.scheduler.groups.get? 1 = some g' ∧ g'.request = g.request ∧ g'.outputTokenIds = [8, 10] := by
  have returns : ((Engine.run smallParams (Engine.init smallParams) preemptedRun).bind fun e =>
      (Engine.run smallParams e resumedRun).map fun _ => decide (
        (e.scheduler.groups.get? 1).map (fun g => (g.status, g.outputTokenIds)) = some (.waiting, [8]) ∧
        itemsOf 1 (Engine.trace smallParams e resumedRun) = [10])) = some true := by
    decide +kernel
  obtain ⟨e, hrun, h⟩ := Option.bind_eq_some_iff.mp returns
  obtain ⟨e', hrun', h⟩ := Option.map_eq_some_iff.mp h
  obtain ⟨hgroup, hitems⟩ := of_decide_eq_true h
  obtain ⟨g, hg, hfields⟩ := Option.map_eq_some_iff.mp hgroup
  obtain ⟨hstatus, houtput⟩ := Prod.mk.inj hfields
  obtain ⟨-, -, feeds⟩ := run_feeds smallParams preemptedRun resumedRun e e' hrun hrun'
  obtain ⟨-, -, g', hg', hrequest, houtput', -⟩ := feeds 1 g hg
  refine ⟨e, e', g, g', hrun, hrun', hg, hstatus, hg', hrequest, ?_⟩
  rw [houtput', houtput, hitems]
  rfl

end CoreFlow
