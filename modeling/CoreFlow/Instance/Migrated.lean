import CoreFlow.Controller.Priority
import CoreFlow.Instance.CacheState
import CoreFlow.Instance.Holdings
import CoreFlow.Manager.Registration

/-!
# A migrated cache is found

The controller posts the tokens of an outgrown request to another instance. When `/migrate_cache` answers, the
target has registered them, as an exact entry on the GPU or as whole blocks on the CPU. In both cases the router,
which sees the cache state, and the scheduler of the instance, which looks for itself, find them for the next request.
-/

namespace CoreFlow
open Prog CpuGpuBlockAllocator BlockM ManagerM

/-! ## Routing to a single instance -/

section
variable {sha : Bool → Option PrefixHash → List TokenId → PrefixHash} {im : InstanceManager} {agentId : AgentId}
  {l : List Fetched} {item : Fetched} {queryId invocationId : Int} {inputTokens : InputTokens} {numInputTokens : Int}

/-- The only instance with an exact entry is chosen. -/
theorem choose_exact (hin : item ∈ l) (hentry : item.2.hasEntry queryId invocationId = true)
    (only : ∀ other ∈ l, other.2.hasEntry queryId invocationId = true → other = item) :
    choose sha im agentId l queryId invocationId inputTokens numInputTokens = some (some item.1.instanceId) := by
  unfold choose
  cases h : leastScore (l.filter fun other => other.2.hasEntry queryId invocationId) with
  | none => exact absurd (List.mem_filter.mpr ⟨hin, hentry⟩) (leastScore_eq_none.mp h ▸ List.not_mem_nil)
  | some best =>
    obtain ⟨hbest, hb⟩ := List.mem_filter.mp (leastScore_mem h)
    rw [only best hbest hb]

/-- Without exact entries, an instance with more hits than any other is chosen. -/
theorem choose_mostHits {hits : Nat} (nodup : l.Nodup) (hin : item ∈ l)
    (hhits : item.2.hits sha (normalizeTokenIds inputTokens) = some hits)
    (inexact : ∀ other ∈ l, other.2.hasEntry queryId invocationId = false)
    (fewer : ∀ other ∈ l, other ≠ item → ∀ h, other.2.hits sha (normalizeTokenIds inputTokens) = some h → h < hits) :
    choose sha im agentId l queryId invocationId inputTokens numInputTokens = some (some item.1.instanceId) := by
  have hnone : l.filter (fun other => other.2.hasEntry queryId invocationId) = [] := by
    rw [List.filter_eq_nil_iff]
    intro other ho
    rw [inexact other ho]
    exact Bool.false_ne_true
  have hmost : item ∈ tied (scored sha (normalizeTokenIds inputTokens) l) := by
    refine mem_tied.mpr ⟨hin, hits, hhits, fun other ho h hh => ?_⟩
    by_cases heq : other = item
    · rw [heq, hhits] at hh
      exact (Option.some.inj hh).symm.le
    · exact (fewer other ho heq h hh).le
  have honly : ∀ other ∈ tied (scored sha (normalizeTokenIds inputTokens) l), other = item := by
    intro other ho
    obtain ⟨hin', h, hh, most⟩ := mem_tied.mp ho
    by_contra hne
    have hle := most item hin hits hhits
    have hlt := fewer other hin' hne h hh
    omega
  have hnodup : (tied (scored sha (normalizeTokenIds inputTokens) l)).Nodup := tied_sublist.nodup nodup
  unfold choose
  rw [hnone, show leastScore [] = none from leastScore_eq_none.mpr rfl]
  dsimp only
  generalize tied (scored sha (normalizeTokenIds inputTokens) l) = ties at hmost honly hnodup
  rcases ties with _ | ⟨first, _ | ⟨second, rest⟩⟩
  · exact absurd hmost List.not_mem_nil
  · rw [honly first List.mem_cons_self]
  · have hfirst := honly first List.mem_cons_self
    have hsecond := honly second (List.mem_cons_of_mem _ List.mem_cons_self)
    rw [hfirst, hsecond] at hnodup
    exact absurd List.mem_cons_self (List.nodup_cons.mp hnodup).1

end

/-! ## Registration -/

namespace BlockSpaceManager
variable {p : ManagerParams} {m m' : BlockSpaceManager} {refs : List Ref} {live : List BlockRef}
  {tokenIds : List TokenId} {now : Int}

/-- Pools have objects for devices with blocks. -/
theorem Upkeep.ready (h : Upkeep p.toBlockParams (init p) m) (hstray : ¬ m.blockAllocator.Stray)
    (hcollided : ¬ m.blockAllocator.Collided) (d : Device) : m.blockAllocator.Ready d := by
  obtain ⟨tabs, lost, held⟩ := h.accounted init_accounted fun hs => absurd hs hstray
  refine ⟨fun hne => ?_, hstray, held.tables.faithful hcollided d⟩
  rw [h.grows.blocks] at hne
  refine lt_of_lt_of_le ?_ (h.grows.sizes d)
  have hsize (ids : List BlockId) (hids : ids ≠ []) : 0 < (BlockPool.init (ids.length * 4)).poolSize := by
    have hlen := List.length_pos_of_ne_nil hids
    rw [BlockPool.poolSize, BlockPool.init, List.length_replicate]
    omega
  cases d with
  | gpu => exact hsize _ hne
  | cpu => exact hsize _ hne

/-- A registration that returns has cached all full blocks. -/
theorem registered_cached (ready : m.blockAllocator.Ready .cpu) (use : m.blockAllocator.InUse live)
    (books : m.blockAllocator.Books refs) {b : Bool} (h : registerMigratedCpuCache p tokenIds now m = some (b, m')) :
    ∀ hash ∈ blockHashes p.toBlockParams tokenIds, (m'.blockAllocator.on .cpu).hashIsCached hash = true := by
  rcases Nat.eq_zero_or_pos (numFullBlocks p.toBlockParams tokenIds) with hzero | hpos
  · intro hash hh
    rw [blockHashes, hzero] at hh
    exact absurd hh List.not_mem_nil
  · by_cases fits : Fits p.toBlockParams .cpu tokenIds 0 (numFullBlocks p.toBlockParams tokenIds) m.blockAllocator
    · obtain ⟨m₁, hrun, hcached, -⟩ := registerMigratedCpuCache_returns now ready use books hpos fits
      rw [hrun] at h
      cases h
      exact hcached
    · have hmod : (wholeBlocks p.toBlockParams tokenIds).length % p.blockSize = 0 := by
        rw [length_wholeBlocks]
        exact Nat.mul_mod_left _ _
      rw [← fits_wholeBlocks, ← numFullBlocks_wholeBlocks] at fits
      obtain ⟨e, s', halloc, -⟩ := BlockTable.allocate_raises ready use books hmod (wholeBlocks_ne_nil.mpr hpos) fits
      have hraised := registerMigratedCpuCache_raises (p := p) now hpos halloc
      have hok := (ManagerAttempt.registerMigratedCpuCache_follows tokenIds now m).1 _ _ h
      rw [hraised] at hok
      cases hok

end BlockSpaceManager

/-! ## What the router and the scheduler find -/

variable {p : SchedulerParams} {e e' : Engine} {tokenIds : List TokenId}

/-- The retained entry of a key is found by the router and by the scheduler. -/
structure ExactFound (p : SchedulerParams) (e : Engine) (key : Int × Int) (numTokens : Nat) : Prop where
  entry : (e.cacheState p).hasEntry key.1 key.2 = true
  used : ∀ g : SequenceGroup, g.cacheKey = some key → SchedM.getInitialCachedTokens g ≤ 0 →
    SchedM.resolveCachedPrefixLen p g e.scheduler =
      some (SchedM.roundCachedTokens p (min numTokens (max (g.getPromptLen - 1) 0)), e.scheduler)
  /-- The instance is chosen if no other one has an entry of the key. -/
  routed : ∀ im agentId l inputTokens numInputTokens (info : InstanceInfo), (info, e.cacheState p) ∈ l →
    (∀ other ∈ l, other.2.hasEntry key.1 key.2 = true → other = (info, e.cacheState p)) →
    choose p.sha im agentId l key.1 key.2 inputTokens numInputTokens = some (some info.instanceId)

/-- The whole blocks of the tokens are found by the router and by the scheduler, for every request that begins with them. -/
structure PrefixFound (p : SchedulerParams) (e : Engine) (tokenIds : List TokenId) : Prop where
  hits : ∀ more, ∃ hits, (e.cacheState p).hits p.sha (wholeBlocks p.toBlockParams tokenIds ++ more) = some hits ∧
    numFullBlocks p.toBlockParams tokenIds ≤ hits
  used : ∀ g : SequenceGroup, wholeBlocks p.toBlockParams tokenIds <+: g.getTokenIds →
    e.scheduler.blockManager.computedBlocksTracker.Unseen g.seqId → SchedM.getInitialCachedTokens g ≤ 0 →
    (∀ key, g.cacheKey = some key → e.scheduler.blockManager.getGpuCachedEntry key = none) →
    ∃ len s', SchedM.resolveCachedPrefixLen p g e.scheduler = some (len, s') ∧
      ((numFullBlocks p.toBlockParams tokenIds * p.blockSize : Nat) : Int) ≤ len
  /-- The instance is chosen if there is no exact entry and all others have fewer hits than there are whole blocks. -/
  routed : ∀ im agentId l queryId invocationId inputTokens numInputTokens (info : InstanceInfo), l.Nodup →
    (info, e.cacheState p) ∈ l → wholeBlocks p.toBlockParams tokenIds <+: normalizeTokenIds inputTokens →
    (∀ other ∈ l, other.2.hasEntry queryId invocationId = false) →
    (∀ other ∈ l, other ≠ (info, e.cacheState p) → ∀ hits, other.2.hits p.sha (normalizeTokenIds inputTokens) = some hits →
      hits < numFullBlocks p.toBlockParams tokenIds) →
    choose p.sha im agentId l queryId invocationId inputTokens numInputTokens = some (some info.instanceId)

/-- The full blocks of the tokens come first among those of a longer list. -/
theorem blockHashes_prefix_whole {q : BlockParams} (more : List TokenId) :
    blockHashes q tokenIds <+: blockHashes q (wholeBlocks q tokenIds ++ more) := by
  rw [← blockHashes_wholeBlocks]
  exact blockHashes_prefix

theorem le_length_takeWhile {α : Type} {below : α → Bool} {l l' : List α} (h : l <+: l') (hall : ∀ x ∈ l, below x = true) :
    l.length ≤ (l'.takeWhile below).length := by
  obtain ⟨rest, rfl⟩ := h
  rw [List.takeWhile_append_of_pos hall, List.length_append]
  exact Nat.le_add_right ..

theorem hits_cacheState (hsha : ∀ first prev ts, p.sha first prev ts ≠ noneHash) (tokens : List TokenId) :
    (e.cacheState p).hits p.sha tokens = some ((e.cacheState p).countHashHits (blockHashes p.toBlockParams tokens)) := by
  have hsize : (e.cacheState p).blockSizeOr16 = p.blockSize := by
    unfold CacheState.blockSizeOr16 Engine.cacheState
    dsimp only
    rw [if_neg (by exact_mod_cast p.pos.ne')]
  rw [← computeRequestBlockHashes_eq hsha, CacheState.hits, hsize]
  rfl

theorem prefixFound_of_cached (hsha : ∀ first prev ts, p.sha first prev ts ≠ noneHash)
    (h : ∀ hash ∈ blockHashes p.toBlockParams tokenIds,
      (e.scheduler.blockManager.blockAllocator.on .cpu).hashIsCached hash = true) : PrefixFound p e tokenIds := by
  have enough (more : List TokenId) : numFullBlocks p.toBlockParams tokenIds ≤ (e.cacheState p).countHashHits
      (blockHashes p.toBlockParams (wholeBlocks p.toBlockParams tokenIds ++ more)) := by
    rw [countHashHits_cacheState, ← length_blockHashes]
    refine le_length_takeWhile (blockHashes_prefix_whole more) fun hash hh => ?_
    rw [h hash hh, Bool.or_true]
  refine ⟨fun more => ⟨_, hits_cacheState hsha _, enough more⟩, fun g hg hnew hinitial hentry => ?_, ?_⟩
  · obtain ⟨more, hmore⟩ := hg
    obtain ⟨s', hrun⟩ := resolveCachedPrefixLen_new hnew hinitial hentry
    refine ⟨_, s', hrun, le_trans ?_ (le_max_right _ _)⟩
    have hpre : blockHashes p.toBlockParams tokenIds <+: blockHashes p.toBlockParams g.getTokenIds := by
      rw [← hmore]
      exact blockHashes_prefix_whole more
    have hfound : numFullBlocks p.toBlockParams tokenIds ≤ ((e.scheduler.blockManager.blockAllocator.on
        .cpu).findCachedBlocksPrefix (blockHashes p.toBlockParams g.getTokenIds)).length := by
      rw [PrefixCachingBlockAllocator.findCachedBlocksPrefix, List.length_take, ← length_blockHashes]
      refine le_min (Bisect.le_bisectLeft (fun i hash hi hget => ?_) hpre.length_le) hpre.length_le
      refine h hash ?_
      rw [List.prefix_iff_getElem?.mp hpre i hi] at hget
      exact Option.some.inj hget ▸ List.getElem_mem hi
    rw [prefixTokens, requestHashes, computeRequestBlockHashes_eq (p := p.toBlockParams) hsha]
    exact_mod_cast Nat.mul_le_mul_right _ hfound
  · rintro im agentId l queryId invocationId inputTokens numInputTokens info nodup hin ⟨more, hmore⟩ inexact fewer
    refine choose_mostHits nodup hin (hits_cacheState hsha _) inexact fun other ho hne hits hh => ?_
    rw [← hmore]
    exact lt_of_lt_of_le (fewer other ho hne hits hh) (enough more)

/-- An entry that is retained is found. -/
theorem exactFound_of_entry {key : Int × Int} {entry : GpuCachedEntry}
    (h : e.scheduler.blockManager.getGpuCachedEntry key = some entry) : ExactFound p e key entry.tokenIds.length := by
  have hentry : (e.cacheState p).hasEntry key.1 key.2 = true := by
    unfold CacheState.hasEntry Engine.cacheState
    refine List.any_eq_true.mpr ⟨key, Dict.mem_def.mp (Dict.mem_of_get? h), ?_⟩
    rw [beq_self_eq_true, beq_self_eq_true]
    rfl
  refine ⟨hentry, fun g hkey hinitial => ?_, fun im agentId l inputTokens numInputTokens info hin only => ?_⟩
  · have hexact : SchedM.getExactGpuCachedTokens g e.scheduler = some (some (entry.tokenIds.length : Int), e.scheduler) := by
      unfold SchedM.getExactGpuCachedTokens
      rw [read_bind, hkey]
      dsimp only
      rw [h]
      rfl
    rw [SchedM.resolveCachedPrefixLen, if_neg (by omega), bind_eq hexact]
    rfl
  · exact choose_exact hin hentry only

/-! ## The migration -/

namespace EngineM

/-- A registration on the GPU leaves an entry with all tokens if it succeeds, and the scheduler as it was if not. -/
theorem registerMigratedGpuCache_entry {queryId invocationId : Int} {requestId : RequestId} {arrivalTime : Int} {b : Bool}
    (h : registerMigratedGpuCache p tokenIds queryId invocationId requestId arrivalTime e = some (b, e')) :
    (b = true ∧ ∃ entry, e'.scheduler.blockManager.getGpuCachedEntry (queryId, invocationId) = some entry ∧
      entry.tokenIds = tokenIds) ∨ (b = false ∧ e'.scheduler = e.scheduler) := by
  obtain ⟨seqId, e₁, h₁, h⟩ := bind_iff.mp h
  obtain ⟨rfl, rfl⟩ : seqId = e.seqCounter ∧ e₁ = { e with seqCounter := e.seqCounter + 1 } := by
    simp only [nextSeqId, read_bind, update_bind, pure_iff] at h₁
    exact h₁
  simp only [read_bind, ofOption_bind, Option.bind_eq_some_iff] at h
  obtain ⟨status, -, h⟩ := h
  split at h
  · obtain ⟨pairs, e₂, -, h⟩ := bind_iff.mp h
    obtain ⟨_, e₃, -, h⟩ := bind_iff.mp h
    obtain ⟨_, e₄, h₄, h⟩ := bind_iff.mp h
    obtain ⟨rfl, rfl⟩ := pure_iff.mp h
    obtain ⟨s₄, hs₄, rfl⟩ := onScheduler_iff.mp h₄
    obtain ⟨m₄, hm₄, rfl⟩ := SchedM.onManager_iff.mp hs₄
    have owners := fun key hkey => retainBlocks_owners (hkey : _ = some key) hm₄
    obtain ⟨-, hentries, -⟩ := owners (queryId, invocationId) rfl
    refine .inl ⟨rfl, ⟨requestId, [e.seqCounter], tokenIds ++ []⟩, ?_, List.append_nil _⟩
    show m₄.gpuCachedEntries.get? _ = _
    rw [hentries, Dict.get?_set_self]
    rfl
  · obtain ⟨rfl, rfl⟩ := pure_iff.mp h
    exact .inr ⟨rfl, rfl⟩

/-- A migration registers the tokens on one device or the other. -/
theorem migrateCache_registers {queryId invocationId : Int} {requestId : RequestId} {keep : Bool} {arrivalTime now : Int}
    {u : Unit} (hne : tokenIds ≠ [])
    (h : migrateCache p tokenIds queryId invocationId requestId keep arrivalTime now e = some (u, e')) :
    (keep = true ∧ ∃ entry, e'.scheduler.blockManager.getGpuCachedEntry (queryId, invocationId) = some entry ∧
      entry.tokenIds = tokenIds) ∨
    ∃ b m', registerMigratedCpuCache p.toManagerParams tokenIds now e.scheduler.blockManager = some (b, m') ∧
      e'.scheduler.blockManager = m' := by
  rw [migrateCache, if_neg hne] at h
  obtain ⟨registered, e₁, h₁, h⟩ := bind_iff.mp h
  have first : (registered = true ∧ keep = true ∧ ∃ entry,
      e₁.scheduler.blockManager.getGpuCachedEntry (queryId, invocationId) = some entry ∧ entry.tokenIds = tokenIds) ∨
      (registered = false ∧ e₁.scheduler = e.scheduler) := by
    split at h₁
    · next hkeep =>
      exact (registerMigratedGpuCache_entry h₁).imp (fun ⟨hb, hentry⟩ => ⟨hb, hkeep, hentry⟩) id
    · obtain ⟨rfl, rfl⟩ := pure_iff.mp h₁
      exact .inr ⟨rfl, rfl⟩
  rcases first with ⟨rfl, hkeep, hentry⟩ | ⟨rfl, hsame⟩
  · rw [when_neg (by decide)] at h
    rw [(pure_iff.mp h).2]
    exact .inl ⟨hkeep, hentry⟩
  · rw [when_pos rfl] at h
    obtain ⟨b, e₂, h₂, h⟩ := bind_iff.mp h
    rw [(pure_iff.mp h).2]
    obtain ⟨s₂, hs₂, rfl⟩ := onScheduler_iff.mp h₂
    obtain ⟨m₂, hm₂, rfl⟩ := SchedM.onManager_iff.mp hs₂
    rw [hsame] at hm₂
    exact .inr ⟨b, m₂, hm₂, rfl⟩

end EngineM

/-- Whatever has happened to an engine, a migration that it answers is found by the next request: under its key on the
GPU, or else as a prefix on the CPU. -/
theorem migrateCache_found (p : SchedulerParams) (hsha : ∀ first prev ts, p.sha first prev ts ≠ noneHash)
    (ops : List EngineOp) (e e' : Engine) (tokenIds : List TokenId) (queryId invocationId : Int) (requestId : RequestId)
    (keep : Bool) (arrivalTime now : Int) (hrun : Engine.run p (Engine.init p) ops = some e)
    (hstray : ¬ e.scheduler.blockManager.blockAllocator.Stray)
    (hcollided : ¬ e.scheduler.blockManager.blockAllocator.Collided)
    (hmigrate : Engine.perform p (.migrateCache tokenIds queryId invocationId requestId keep arrivalTime now) e =
      some ((), e')) :
    keep = true ∧ ExactFound p e' (queryId, invocationId) tokenIds.length ∨ PrefixFound p e' tokenIds := by
  have upkeep := Engine.run_kept (upkeep_calls p.toManagerParams) hrun
  obtain ⟨tabs, lost, held⟩ := Engine.run_accounted hrun fun hs => absurd hs hstray
  have ready := BlockSpaceManager.Upkeep.ready upkeep hstray hcollided .cpu
  by_cases hne : tokenIds = []
  · refine .inr (prefixFound_of_cached hsha fun hash hh => ?_)
    rw [hne, blockHashes, numFullBlocks, List.length_nil, Nat.zero_div] at hh
    exact absurd hh List.not_mem_nil
  · rcases EngineM.migrateCache_registers hne hmigrate with ⟨hkeep, entry, hentry, hlen⟩ | ⟨b, m', hregister, hm'⟩
    · have found := exactFound_of_entry (p := p) hentry
      rw [hlen] at found
      exact .inl ⟨hkeep, found⟩
    · refine .inr (prefixFound_of_cached hsha fun hash hh => ?_)
      rw [hm']
      exact BlockSpaceManager.registered_cached ready held.tables.inUse held.tables.books hregister hash hh

/-- The small instance with hashes that are never negative. -/
def naturalParams : SchedulerParams := { smallParams with sha := naturalSha }

/-- A third block comes after the two that have been migrated before. -/
theorem migrateCache_found_longer : ∃ e e' hits, Engine.run naturalParams (Engine.init naturalParams) migratedRun = some e ∧
    Engine.perform naturalParams (.migrateCache [1, 2, 3, 4, 5, 6] 0 1 "m2" false 0 20) e = some ((), e') ∧
    (e'.cacheState naturalParams).hits naturalSha [1, 2, 3, 4, 5, 6, 7] = some hits ∧ 3 ≤ hits := by
  have returns : ((Engine.run naturalParams (Engine.init naturalParams) migratedRun).bind fun e =>
      (Engine.perform naturalParams (.migrateCache [1, 2, 3, 4, 5, 6] 0 1 "m2" false 0 20) e).map fun _ => decide (
        e.scheduler.blockManager.blockAllocator.trace.events.filter BlockEvent.isFault = [] ∧
          ∀ ev ∈ e.scheduler.blockManager.blockAllocator.trace.events, ¬ ev.collides = true)) = some true := by
    decide +kernel
  obtain ⟨e, hrun, h⟩ := Option.bind_eq_some_iff.mp returns
  obtain ⟨⟨u, e'⟩, hmigrate, h⟩ := Option.map_eq_some_iff.mp h
  obtain ⟨hfaults, hcollides⟩ := of_decide_eq_true h
  rcases migrateCache_found naturalParams naturalSha_ne migratedRun e e' [1, 2, 3, 4, 5, 6] 0 1 "m2" false 0 20 hrun
    (BlockSpaceManager.no_faults hfaults).1 (fun ⟨ev, hev, hc⟩ => hcollides ev hev hc) hmigrate with ⟨hkeep, -⟩ | found
  · cases hkeep
  · obtain ⟨hits, hhits, hle⟩ := found.hits [7]
    exact ⟨e, e', hits, hrun, hmigrate, hhits, hle⟩

end CoreFlow
