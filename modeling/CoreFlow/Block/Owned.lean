import CoreFlow.Block.Growth
import CoreFlow.Block.Tables
import Mathlib.Data.List.NodupEquivFin
import Mathlib.Order.WellFounded

/-!
# What a table owns

`Lists` relates a table to the objects that were made for it: `blocks` are those that it still lists, with
their physical blocks in `ids`, and from the index after `last` on they are empty. `Owns` adds that the
objects are in use, apart from those in `rest`, and that the references of the listed ones are on the books,
apart from `refs`. Every operation on a table takes such a state to such a state and leaves `rest` alone.
-/

namespace CoreFlow
open Prog

/-- A sublist keeps the order of its members. -/
theorem index_lt_of_idxOf_lt {α : Type} [DecidableEq α] {l l' : List α} {a b : α} {i j : Nat} (h : l.Sublist l')
    (nodup : l'.Nodup) (hi : l[i]? = some a) (hj : l[j]? = some b) (hlt : l'.idxOf a < l'.idxOf b) : i < j := by
  obtain ⟨f, hf⟩ := List.sublist_iff_exists_orderEmbedding_getElem?_eq.mp h
  have at_ (k : Nat) (c : α) (hk : l[k]? = some c) : l'.idxOf c = f k := by
    rw [hf, List.getElem?_eq_some_iff] at hk
    obtain ⟨hlen, rfl⟩ := hk
    exact nodup.idxOf_getElem _ hlen
  rw [at_ i a hi, at_ j b hj] at hlt
  exact f.lt_iff_lt.mp hlt

namespace CpuGpuBlockAllocator

/-- The physical block of an object. -/
def idOf? (s : CpuGpuBlockAllocator) (r : BlockRef) : Option BlockId := (s.block? r).bind (·.blockId)

structure Lists (p : BlockParams) (s : CpuGpuBlockAllocator) (blocks : List BlockRef) (ids : List BlockId) (last : Nat)
    (full : List BlockRef) : Prop where
  listed : blocks.Sublist full
  chained : s.Chained p full
  ids : blocks.map s.idOf? = ids.map some
  empty : ∀ i r b, blocks[i]? = some r → last < i → s.block? r = some b → b.tokenIds = []
  lost : ∀ r ∈ full, r ∉ blocks → ∀ b, s.block? r = some b → ∀ q ∈ blocks, b.prevBlock = some q →
    ∀ pb, s.block? q = some pb → pb.isFull p = true

structure Owns (p : BlockParams) (s : CpuGpuBlockAllocator) (blocks : List BlockRef) (ids : List BlockId) (last : Nat)
    (full rest : List BlockRef) (refs : List Ref) : Prop extends Lists p s blocks ids last full where
  inUse : s.InUse (full ++ rest)
  books : s.Books (s.refsOf blocks ++ refs)

section
variable {p : BlockParams} {s s' : CpuGpuBlockAllocator} {blocks full rest : List BlockRef} {ids : List BlockId}
  {last last' : Nat} {refs : List Ref} {r : BlockRef} {prev : Option BlockRef} {tokenIds : List TokenId}

theorem idOf?_same (h : s'.block? r = s.block? r) : s'.idOf? r = s.idOf? r := by
  unfold idOf?
  rw [h]

/-- Operations on other objects. -/
theorem Lists.same (h : Lists p s blocks ids last full) (same : ∀ q ∈ full, s'.block? q = s.block? q) :
    Lists p s' blocks ids last full := by
  have hsub (q : BlockRef) (hq : q ∈ blocks) : q ∈ full := h.listed.subset hq
  refine ⟨h.listed, h.chained.same same, ?_, fun i r b hi hlt hb => ?_, fun r hr hout b hb q hq hprev pb hpb => ?_⟩
  · rw [← h.ids]
    exact List.map_congr_left fun q hq => idOf?_same (same q (hsub q hq))
  · rw [same r (hsub r (List.mem_of_getElem? hi))] at hb
    exact h.empty i r b hi hlt hb
  · rw [same r hr] at hb
    rw [same q (hsub q hq)] at hpb
    exact h.lost r hr hout b hb q hq hprev pb hpb

theorem Lists.later (h : Lists p s blocks ids last full) (hle : last ≤ last') : Lists p s blocks ids last' full :=
  ⟨h.listed, h.chained, h.ids, fun i r b hi hlt => h.empty i r b hi (Nat.lt_of_le_of_lt hle hlt), h.lost⟩

theorem Owns.later (h : Owns p s blocks ids last full rest refs) (hle : last ≤ last') :
    Owns p s blocks ids last' full rest refs := ⟨h.toLists.later hle, h.inUse, h.books⟩

/-- A table that lists nothing yet. -/
theorem Owns.nil (use : s.InUse rest) (books : s.Books refs) : Owns p s [] [] last [] rest refs :=
  ⟨⟨List.Sublist.refl _, fun r hr => absurd hr List.not_mem_nil, rfl, fun i r b hi => (by cases hi),
    fun r hr => absurd hr List.not_mem_nil⟩, use, books⟩

/-- An object that was made for the table goes to its end. -/
theorem Owns.extend (h : Owns p s blocks ids last full rest refs)
    (cr : Creates p (full ++ rest) (s.refsOf blocks ++ refs) r prev tokenIds s s') (hprev : ∀ q, prev = some q → q ∈ full)
    (hempty : last < blocks.length → tokenIds = []) :
    ∃ id, s'.idOf? r = some id ∧ Owns p s' (blocks ++ [r]) (ids ++ [id]) last (full ++ [r]) rest refs := by
  obtain ⟨b, x, sits, books⟩ := cr.object
  have hnot : r ∉ full ++ rest := (List.nodup_cons.mp cr.inUse.nodup).1
  have hfull (q : BlockRef) (hq : q ∈ full) : q ≠ r ∧ s'.block? q = s.block? q := by
    refine ⟨?_, cr.same q (List.mem_append_left _ hq)⟩
    rintro rfl
    exact hnot (List.mem_append_left _ hq)
  have lists := h.toLists.same fun q hq => (hfull q hq).2
  have hid : s'.idOf? r = some x.1 := by
    unfold idOf?
    rw [sits.object]
    exact sits.blockId
  refine ⟨x.1, hid, ⟨h.listed.append (List.Sublist.refl _), fun q hq => ?_, ?_, fun i q c hi hlt hc => ?_,
    fun q hq hout c hc q' hq' hprev' pb hpb => ?_⟩, ?_, ?_⟩
  · rcases List.mem_append.mp hq with hq | hq
    · obtain ⟨c, hc, hheld, hbefore⟩ := lists.chained q hq
      refine ⟨c, hc, hheld, fun q' hq' => ?_⟩
      rw [List.idxOf_append_of_mem hq, List.idxOf_append_of_mem (lists.chained.prev_mem hq hc hq')]
      exact hbefore q' hq'
    · obtain rfl := List.mem_singleton.mp hq
      refine ⟨b, sits.object, sits.hash.trans sits.derived, fun q' hq' => ?_⟩
      have hin := hprev q' (sits.prev.symm.trans hq')
      rw [List.idxOf_append_of_mem hin,
        List.idxOf_append_of_notMem fun hq => hnot (List.mem_append_left _ hq)]
      exact Nat.lt_of_lt_of_le (List.idxOf_lt_length_iff.mpr hin) (Nat.le_add_right _ _)
  · rw [List.map_append, List.map_append, lists.ids, List.map_singleton, hid]
    rfl
  · by_cases hlen : i < blocks.length
    · rw [List.getElem?_append_left hlen] at hi
      exact lists.empty i q c hi hlt hc
    · rw [List.getElem?_append_right (Nat.le_of_not_lt hlen), List.getElem?_singleton] at hi
      split at hi
      · obtain rfl := Option.some.inj hi
        obtain rfl := Option.some.inj (hc.symm.trans sits.object)
        rw [sits.tokens]
        exact hempty (by omega)
      · cases hi
  · rw [List.mem_append, not_or] at hout
    have hq := (List.mem_append.mp hq).resolve_right hout.2
    have hin := lists.chained.prev_mem hq hc hprev'
    refine lists.lost q hq hout.1 c hc q' ((List.mem_append.mp hq').resolve_right fun hr => ?_) hprev' pb hpb
    exact (hfull q' hin).1 (List.mem_singleton.mp hr)
  · refine cr.inUse.perm ?_
    rw [List.append_assoc]
    exact List.perm_middle.symm
  · rw [refsOf_append, refsOf_same fun q hq => (hfull q (h.listed.subset hq)).2,
      show s'.refsOf [r] = [x] from List.filterMap_cons_some sits.refOf_eq, List.append_assoc]
    exact books.perm List.perm_middle.symm

theorem Lists.id_at (h : Lists p s blocks ids last full) {i : Nat} (hi : blocks[i]? = some r) :
    ∃ id, ids[i]? = some id ∧ s.idOf? r = some id := by
  have := congrArg (fun l => l[i]?) h.ids
  simp only [List.getElem?_map, hi, Option.map_some] at this
  obtain ⟨id, hid, he⟩ := Option.map_eq_some_iff.mp this.symm
  exact ⟨id, hid, he.symm⟩

/-- Different places of a table have different objects. -/
theorem Owns.ne_of_index (h : Owns p s blocks ids last full rest refs) {i j : Nat} {q : BlockRef} (hi : blocks[i]? = some r)
    (hj : blocks[j]? = some q) (hne : j ≠ i) : q ≠ r := by
  rintro rfl
  obtain ⟨hlt, he⟩ := List.getElem?_eq_some_iff.mp hj
  obtain ⟨hlt', he'⟩ := List.getElem?_eq_some_iff.mp hi
  exact hne (((h.inUse.nodup.of_append_left.sublist h.listed).getElem_inj_iff).mp (he.trans he'.symm))

/-- Tokens for the first object that is not full, the listed ones after it being empty. -/
theorem Owns.append {i : Nat} {u : Unit} (h : Owns p s blocks ids last full rest refs) (hi : blocks[i]? = some r)
    (hle : i ≤ last)
    (hafter : ∀ j q c, blocks[j]? = some q → i < j → s.block? q = some c → c.tokenIds = [])
    (hrun : BlockM.appendTokenIds p r tokenIds s = some (u, s')) :
    ∃ id, s'.idOf? r = some id ∧ Owns p s' blocks (ids.set i id) last full rest refs ∧
      ∀ q, q ≠ r → s'.block? q = s.block? q := by
  have hmem := List.mem_of_getElem? hi
  have hr := h.listed.subset hmem
  have nodup : full.Nodup := h.inUse.nodup.of_append_left
  obtain ⟨b, hb, hheld, hbefore⟩ := h.chained r hr
  obtain ⟨id, -, hid⟩ := h.id_at hi
  unfold idOf? at hid
  rw [hb, Option.bind_some] at hid
  have hperm := List.perm_cons_erase hmem
  have hprev (q : BlockRef) (hq : b.prevBlock = some q) : r ≠ q ∧ s.Remembers p q := by
    refine ⟨?_, h.chained.settled.remembers (h.chained.prev_mem hr hb hq)⟩
    rintro rfl
    exact absurd (hbefore _ hq) (lt_irrefl _)
  have books : s.Books ((id, b.cachedContentHash) :: (s.refsOf (blocks.erase r) ++ refs)) := by
    refine h.books.perm ?_
    have := refsOf_perm (s := s) hperm
    rw [refsOf, refsOf, List.filterMap_cons_some (refOf_eq hb hid)] at this
    exact this.append_right refs
  obtain ⟨b', id', quiet, hcontent, hid', books', hroom, -⟩ := BlockM.appendTokenIds_books hb hid hheld hprev books hrun
  have hb' := quiet.object hb
  have hne (q : BlockRef) (hq : q ≠ r) : s'.block? q = s.block? q := quiet.object_ne (Ne.symm hq)
  simp only [Block.content, Prod.mk.injEq] at hcontent
  obtain ⟨hprev', htokens', hhash'⟩ := hcontent
  have hself : s'.derivedHash p b' = s.derivedHash p b' :=
    derivedHash_congr rfl rfl (heldPrevHash_quiet quiet fun q hq => (hprev q (hprev' ▸ hq)).1)
  have hother (q : BlockRef) (c : Block) (hq : q ∈ full) (hc : s.block? q = some c) :
      s'.derivedHash p c = s.derivedHash p c := by
    by_cases hp : c.prevBlock = some r
    · by_cases hnil : tokenIds = []
      · -- nothing was appended
        refine derivedHash_congr rfl rfl ?_
        unfold heldPrevHash
        rw [hp]
        dsimp only
        rw [hb', hb, Option.bind_some, Option.bind_some, hhash', hheld]
        exact derivedHash_congr hprev' (by rw [htokens', hnil, List.append_nil]) rfl
      · -- the object after the one that is not full has no hash
        have hopen : c.isFull p = false := by
          by_cases hin : q ∈ blocks
          · obtain ⟨j, hj⟩ := List.mem_iff_getElem?.mp hin
            obtain ⟨c', hc', -, hbefore'⟩ := h.chained q hq
            obtain rfl := Option.some.inj (hc.symm.trans hc')
            have hlt := index_lt_of_idxOf_lt h.listed nodup hi hj (hbefore' r hp)
            unfold Block.isFull
            rw [hafter j q c hj hlt hc]
            exact beq_eq_false_iff_ne.mpr (Nat.ne_of_lt p.pos)
          · have hfull := h.lost q hq hin c hc r hmem hp b hb
            rw [hroom hnil] at hfull
            cases hfull
        unfold derivedHash
        rw [if_pos hopen, if_pos hopen]
    · exact derivedHash_congr rfl rfl (heldPrevHash_quiet quiet fun q' hq' he => hp (he ▸ hq'))
  have hidOf : s'.idOf? r = some id' := by
    unfold idOf?
    rw [hb']
    exact hid'
  refine ⟨id', hidOf, ⟨⟨h.listed, fun q hq => ?_, ?_, fun j q c hj hlt hc => ?_,
    fun q hq hout c hc q' hq' hp pb hpb => ?_⟩, h.inUse.quiet quiet, ?_⟩, hne⟩
  · by_cases hqr : q = r
    · subst hqr
      exact ⟨b', hb', hhash'.trans hself.symm, fun q' hq' => hbefore q' (hprev' ▸ hq')⟩
    · obtain ⟨c, hc, hheld', hbefore'⟩ := h.chained q hq
      exact ⟨c, (hne q hqr).trans hc, hheld'.trans (hother q c hq hc).symm, hbefore'⟩
  · refine List.ext_getElem? fun j => ?_
    rw [List.map_set, ← h.ids, List.getElem?_set, List.getElem?_map, List.getElem?_map, List.length_map]
    by_cases hji : i = j
    · subst hji
      rw [if_pos rfl, if_pos (List.getElem?_eq_some_iff.mp hi).1, hi, Option.map_some, hidOf]
    · rw [if_neg hji]
      cases hj : blocks[j]? with
      | none => rfl
      | some q => exact congrArg some (idOf?_same (hne q (h.ne_of_index hi hj (Ne.symm hji))))
  · rw [hne q (h.ne_of_index hi hj (by omega))] at hc
    exact h.empty j q c hj hlt hc
  · rw [hne q (by rintro rfl; exact hout hmem)] at hc
    by_cases hqr : q' = r
    · subst hqr
      obtain rfl := Option.some.inj (hb'.symm.trans hpb)
      have hfull := h.lost q hq hout c hc q' hq' hp b hb
      have hnil : tokenIds = [] := by
        by_contra hts
        rw [hroom hts] at hfull
        cases hfull
      rw [Block.isFull, htokens', hnil, List.append_nil]
      exact hfull
    · rw [hne q' hqr] at hpb
      exact h.lost q hq hout c hc q' hq' hp pb hpb
  · refine books'.perm ?_
    have := refsOf_perm (s := s') hperm
    rw [refsOf, refsOf, List.filterMap_cons_some (refOf_eq hb' hid')] at this
    refine ((this.append_right refs).trans (List.Perm.of_eq ?_)).symm
    rw [List.cons_append]
    refine congrArg (fun l => _ :: (l ++ refs)) (refsOf_same fun q hq => hne q ?_)
    rintro rfl
    exact (nodup.sublist h.listed).not_mem_erase hq

/-- A swap of the objects in `selected`, which are full; the table lists no others afterwards. -/
theorem Owns.swap {selected : List BlockRef} {ids' : List BlockId} {src dst : Device} {mapping : Dict BlockId BlockId}
    (h : Owns p s blocks ids last full rest refs) (hsub : selected.Sublist blocks)
    (hfull : ∀ r ∈ selected, ∀ b, s.block? r = some b → b.isFull p = true) (ok : s'.Harmless)
    (hrun : BlockM.swap p selected src dst s = some (mapping, s')) (hids : selected.map s'.idOf? = ids'.map some) :
    Owns p s' selected ids' last full rest (s.refsOf (blocks.filter (· ∉ selected)) ++ refs) ∧
      ∀ q ∈ rest, s'.block? q = s.block? q := by
  have nodup : full.Nodup := h.inUse.nodup.of_append_left
  have hin (q : BlockRef) (hq : q ∈ selected) : q ∈ full := (hsub.trans h.listed).subset hq
  have hperm : blocks.Perm (selected ++ blocks.filter (· ∉ selected)) := by
    have hkept : (blocks.filter (· ∈ selected)).Perm selected := by
      refine (List.perm_ext_iff_of_nodup ((nodup.sublist h.listed).filter _)
        (nodup.sublist (hsub.trans h.listed))).mpr fun q => ?_
      rw [List.mem_filter, decide_eq_true_eq]
      exact ⟨And.right, fun hq => ⟨hsub.subset hq, hq⟩⟩
    refine (List.filter_append_perm (· ∈ selected) blocks).symm.trans ?_
    simp only [← decide_not]
    exact hkept.append_right _
  have books : s.Books (s.refsOf selected ++ (s.refsOf (blocks.filter (· ∉ selected)) ++ refs)) := by
    refine h.books.perm ?_
    rw [← List.append_assoc, ← refsOf_append]
    exact (refsOf_perm hperm).append_right refs
  obtain ⟨use, books', same, objects⟩ := BlockM.swap_swaps hin (nodup.sublist (hsub.trans h.listed)) h.inUse
    h.chained.settled (fun q hq => List.mem_append_left rest hq) books ok hrun
  have content (q : BlockRef) (hq : q ∈ full) : s'.content? q = s.content? q := by
    unfold content?
    by_cases hqs : q ∈ selected
    · obtain ⟨b, hb⟩ := h.inUse.present q (List.mem_append_left _ hq)
      obtain ⟨id, hb'⟩ := objects q hqs b hb
      rw [hb', hb]
      rfl
    · rw [same q (List.mem_append_left _ hq) hqs]
  have tokens (q : BlockRef) (c : Block) (hq : q ∈ full) (hc : s'.block? q = some c) :
      ∃ c', s.block? q = some c' ∧ c.tokenIds = c'.tokenIds := by
    have := content q hq
    unfold content? at this
    rw [hc, Option.map_some, eq_comm, Option.map_eq_some_iff] at this
    obtain ⟨c', hc', he⟩ := this
    exact ⟨c', hc', (congrArg (·.2.1) he).symm⟩
  refine ⟨⟨⟨hsub.trans h.listed, h.chained.content content, hids, fun i r c hi hlt hc => ?_,
    fun r hr hout c hc q hq hp pb hpb => ?_⟩, use, books'⟩, fun q hq => same q (List.mem_append_right _ hq) fun hqs => ?_⟩
  · obtain ⟨f, hf⟩ := List.sublist_iff_exists_orderEmbedding_getElem?_eq.mp hsub
    have hmem := hin r (List.mem_of_getElem? hi)
    rw [hf] at hi
    obtain ⟨c', hc', he⟩ := tokens r c hmem hc
    rw [he]
    exact h.empty (f i) r c' hi (lt_of_lt_of_le hlt (StrictMono.le_apply f.strictMono)) hc'
  · obtain ⟨pb', hpb', he⟩ := tokens q pb (hin q hq) hpb
    rw [Block.isFull, he]
    exact hfull q hq pb' hpb'
  · exact (List.disjoint_of_nodup_append h.inUse.nodup) (hin q hqs) hq

end

end CpuGpuBlockAllocator

namespace BlockTable
open CpuGpuBlockAllocator
variable {p : BlockParams} {d : Device} {s s' : CpuGpuBlockAllocator} {t t' : BlockTable} {blocks full rest : List BlockRef}
  {ids : List BlockId} {last : Nat} {refs : List Ref} {tokenIds : List TokenId}

theorem idOf_reads {r : BlockRef} {id : BlockId} (hrun : idOf r s = some (id, s')) : s' = s ∧ s.idOf? r = some id := by
  obtain ⟨b, _, hget, hrun⟩ := bind_iff.mp hrun
  obtain ⟨hb, hs⟩ := BlockM.getBlock_iff.mp hget
  rw [hs] at hrun
  obtain ⟨hid, hs⟩ := ofOption_iff.mp hrun
  refine ⟨hs, ?_⟩
  unfold idOf?
  rw [hb]
  exact hid

theorem mapM_idOf (hrun : Prog.mapM idOf blocks s = some (ids, s')) : s' = s ∧ blocks.map s.idOf? = ids.map some := by
  induction blocks generalizing ids with
  | nil =>
    obtain ⟨rfl, rfl⟩ := pure_iff.mp hrun
    exact ⟨rfl, rfl⟩
  | cons r blocks ih =>
    obtain ⟨id, s₁, ids', hr, hrest, rfl⟩ := mapM_cons_iff.mp hrun
    obtain ⟨hs, hid⟩ := idOf_reads hr
    rw [hs] at hrest
    obtain ⟨hs, hids⟩ := ih hrest
    refine ⟨hs, ?_⟩
    rw [List.map_cons, List.map_cons, hid, hids]

theorem update_reads (hrun : t.update blocks s = some (t', s')) :
    s' = s ∧ t' = { t with blocks := blocks, blockIds := t'.blockIds } ∧ blocks.map s.idOf? = t'.blockIds.map some := by
  obtain ⟨ids, s₁, hids, hrun⟩ := bind_iff.mp hrun
  obtain ⟨rfl, rfl⟩ := pure_iff.mp hrun
  obtain ⟨hs, hids⟩ := mapM_idOf hids
  exact ⟨hs, rfl, hids⟩

/-! ## Allocation -/

theorem getLast?_mem {q : BlockRef} (hq : blocks.getLast? = some q) : q ∈ blocks := List.mem_of_getLast? hq

theorem allocateImmutableBlocks_owns {chunks : List (List TokenId)} {rs : List BlockRef}
    (h : Owns p s blocks ids last blocks rest refs) (hlen : blocks.length + chunks.length ≤ last + 1) (ok : s'.Harmless)
    (hrun : BlockM.allocateImmutableBlocks p d blocks.getLast? chunks s = some (rs, s')) :
    ∃ ids', Owns p s' (blocks ++ rs) ids' last (blocks ++ rs) rest refs ∧ rs.length = chunks.length ∧
      ∀ q ∈ rest, s'.block? q = s.block? q := by
  induction chunks generalizing blocks ids s rs with
  | nil =>
    obtain ⟨rfl, rfl⟩ := pure_iff.mp hrun
    rw [List.append_nil]
    exact ⟨ids, h, rfl, fun _ _ => rfl⟩
  | cons c chunks ih =>
    obtain ⟨r, s₁, hr, hrun⟩ := bind_iff.mp hrun
    obtain ⟨rs', s₂, hrest, hrun⟩ := bind_iff.mp hrun
    obtain ⟨rfl, rfl⟩ := pure_iff.mp hrun
    rw [List.length_cons] at hlen
    have ok₁ := ok.advances (BlockM.allocateImmutableBlocks_advances p d _ chunks _ _ _ hrest)
    have cr := BlockM.allocateImmutableBlock_creates h.inUse h.chained.settled (fun q hq => List.mem_append_left rest hq)
      h.books (fun q hq => getLast?_mem hq) ok₁ hr
    obtain ⟨id, -, h₁⟩ := h.extend cr (fun q hq => getLast?_mem hq) fun hlt => by omega
    rw [← List.getLast?_concat (l := blocks)] at hrest
    obtain ⟨ids', h₂, hcount, same⟩ := ih h₁ (by rw [List.length_append, List.length_singleton]; omega) hrest
    rw [List.append_assoc] at h₂
    refine ⟨ids', h₂, congrArg (· + 1) hcount, fun q hq => (same q hq).trans (cr.same q (List.mem_append_right _ hq))⟩

theorem allocateBlocksForTokenIds_owns (use : s.InUse rest) (books : s.Books refs) (ok : s'.Harmless)
    (hrun : allocateBlocksForTokenIds p tokenIds d s = some (blocks, s')) :
    ∃ ids, Owns p s' blocks ids (tokenIds.length / p.blockSize) blocks rest refs ∧
      ∀ q ∈ rest, s'.block? q = s.block? q := by
  unfold allocateBlocksForTokenIds at hrun
  rw [filter_full, filter_tail] at hrun
  obtain ⟨filled, s₁, hfilled, hrun⟩ := bind_iff.mp hrun
  have empty : Owns p s [] [] (tokenIds.length / p.blockSize) [] rest refs := .nil use books
  have start (ok₁ : s₁.Harmless) := allocateImmutableBlocks_owns empty
    (by rw [List.length_nil, List.length_map, List.length_range, numFullBlocks]; omega) ok₁ hfilled
  by_cases hmod : tokenIds.length % p.blockSize = 0
  · rw [tailSlice, if_pos hmod] at hrun
    obtain ⟨rfl, rfl⟩ := pure_iff.mp hrun
    obtain ⟨ids, h, -, same⟩ := start ok
    exact ⟨ids, h, same⟩
  · rw [tailSlice, if_neg hmod] at hrun
    obtain ⟨r, s₂, hr, hrun⟩ := bind_iff.mp hrun
    obtain ⟨_, s₃, happend, hrun⟩ := bind_iff.mp hrun
    obtain ⟨rfl, rfl⟩ := pure_iff.mp hrun
    have ok₂ := ok.advances (BlockM.appendTokenIds_advances p r _ _ _ _ happend)
    obtain ⟨ids, h, hcount, same⟩ := start (ok₂.advances (BlockM.allocateMutableBlock_advances p d _ _ _ _ hr))
    rw [List.nil_append] at h
    have cr := BlockM.appendTokenIds_creates (BlockM.allocateMutableBlock_creates h.inUse h.books ok₂ hr) h.chained.settled
      (fun q hq => List.mem_append_left rest hq) (fun q hq => getLast?_mem hq) happend
    obtain ⟨id, -, h'⟩ := h.extend cr (fun q hq => getLast?_mem hq) fun hlt => by
      rw [hcount, List.length_map, List.length_range, numFullBlocks] at hlt
      exact absurd hlt (lt_irrefl _)
    exact ⟨_, h', fun q hq => (cr.same q (List.mem_append_right _ hq)).trans (same q hq)⟩

/-- A new table owns its objects. -/
theorem allocate_owns (use : s.InUse rest) (books : s.Books refs) (ok : s'.Harmless)
    (hrun : allocate p t tokenIds d s = some (t', s')) :
    Owns p s' t'.blocks t'.blockIds (t'.numFullSlots / p.blockSize) t'.blocks rest refs ∧
      ∀ q ∈ rest, s'.block? q = s.block? q := by
  obtain ⟨_, _, hreq, hrun⟩ := bind_iff.mp hrun
  rw [(require_iff.mp hreq).2] at hrun
  obtain ⟨_, _, hreq, hrun⟩ := bind_iff.mp hrun
  rw [(require_iff.mp hreq).2] at hrun
  obtain ⟨blocks, s₁, hblocks, hrun⟩ := bind_iff.mp hrun
  obtain ⟨t₁, s₂, hupdate, hrun⟩ := bind_iff.mp hrun
  obtain ⟨rfl, hs⟩ := pure_iff.mp hrun
  obtain ⟨hs', ht, hids⟩ := update_reads hupdate
  rw [hs, hs'] at ok ⊢
  obtain ⟨ids, h, same⟩ := allocateBlocksForTokenIds_owns use books ok hblocks
  have hblocks' : t₁.blocks = blocks := congrArg (·.blocks) ht
  refine ⟨?_, same⟩
  show Owns p s₁ t₁.blocks t₁.blockIds (tokenIds.length / p.blockSize) t₁.blocks rest refs
  rw [hblocks']
  exact ⟨⟨h.listed, h.chained, hids, h.empty, h.lost⟩, h.inUse, h.books⟩

/-! ## Appends -/

theorem appendBlocks_advances (t : BlockTable) (n : Nat) : Within Advances (appendBlocks p t n) := by
  induction n generalizing t with
  | zero => exact .pure t
  | succ n ih =>
    exact .bind (.require _) fun _ => .bind (BlockM.allocateMutableBlock_advances p .gpu _) fun r =>
      .bind (.bind (BlockM.getBlock_advances r) fun _ => .ofOption _) fun id => ih _

theorem appendBlocks_owns {n : Nat} (h : Owns p s t.blocks t.blockIds last full rest refs) (ok : s'.Harmless)
    (hrun : appendBlocks p t n s = some (t', s')) :
    ∃ full', Owns p s' t'.blocks t'.blockIds last full' rest refs ∧ t'.numFullSlots = t.numFullSlots ∧
      ∀ q ∈ rest, s'.block? q = s.block? q := by
  induction n generalizing t s full with
  | zero =>
    obtain ⟨rfl, rfl⟩ := pure_iff.mp hrun
    exact ⟨full, h, rfl, fun _ _ => rfl⟩
  | succ n ih =>
    obtain ⟨_, _, hreq, hrun⟩ := bind_iff.mp hrun
    rw [(require_iff.mp hreq).2] at hrun
    obtain ⟨r, s₁, hr, hrun⟩ := bind_iff.mp hrun
    obtain ⟨id, s₂, hid, hrun⟩ := bind_iff.mp hrun
    obtain ⟨hs, hid⟩ := idOf_reads hid
    rw [hs] at hrun
    have cr := BlockM.allocateMutableBlock_creates h.inUse h.books (ok.advances (appendBlocks_advances _ n _ _ _ hrun)) hr
    obtain ⟨id', hid', h₁⟩ := h.extend cr (fun q hq => h.listed.subset (getLast?_mem hq)) fun _ => rfl
    obtain rfl := Option.some.inj (hid.symm.trans hid')
    obtain ⟨full', h', hslots, same⟩ := ih h₁ hrun
    exact ⟨full', h', hslots, fun q hq => (same q hq).trans (cr.same q (List.mem_append_right _ hq))⟩

theorem ensureNumEmptySlots_owns {n : Nat} (h : Owns p s t.blocks t.blockIds last full rest refs) (ok : s'.Harmless)
    (hrun : ensureNumEmptySlots p t n s = some (t', s')) :
    ∃ full', Owns p s' t'.blocks t'.blockIds last full' rest refs ∧ t'.numFullSlots = t.numFullSlots ∧
      ∀ q ∈ rest, s'.block? q = s.block? q := by
  obtain ⟨_, _, hreq, hrun⟩ := bind_iff.mp hrun
  rw [(require_iff.mp hreq).2] at hrun
  split at hrun
  · obtain ⟨rfl, rfl⟩ := pure_iff.mp hrun
    exact ⟨full, h, rfl, fun _ _ => rfl⟩
  · exact appendBlocks_owns h ok hrun

theorem appendToBlock_owns {i : Nat} (h : Owns p s t.blocks t.blockIds last full rest refs) (hle : i ≤ last)
    (hafter : ∀ j q c, t.blocks[j]? = some q → i < j → s.block? q = some c → c.tokenIds = [])
    (hrun : appendToBlock p t i tokenIds s = some (t', s')) :
    Owns p s' t'.blocks t'.blockIds last full rest refs ∧ t'.blocks = t.blocks ∧ t'.numFullSlots = t.numFullSlots ∧
      ∃ r, t.blocks[i]? = some r ∧ ∀ q, q ≠ r → s'.block? q = s.block? q := by
  obtain ⟨r, _, hr, hrun⟩ := bind_iff.mp hrun
  obtain ⟨hr, hs⟩ := ofOption_iff.mp hr
  rw [hs] at hrun
  obtain ⟨b, _, hb, hrun⟩ := bind_iff.mp hrun
  obtain ⟨hb, hs⟩ := BlockM.getBlock_iff.mp hb
  rw [hs] at hrun
  obtain ⟨_, s₁, happend, hrun⟩ := bind_iff.mp hrun
  obtain ⟨b', _, hb', hrun⟩ := bind_iff.mp hrun
  obtain ⟨hb', hs⟩ := BlockM.getBlock_iff.mp hb'
  rw [hs] at hrun
  obtain ⟨id, hid, h', same⟩ := h.append hr hle hafter happend
  have hid' : b'.blockId = some id := by
    unfold idOf? at hid
    rwa [hb'] at hid
  split at hrun
  · obtain ⟨id', _, ho, hrun⟩ := bind_iff.mp hrun
    obtain ⟨ho, hs⟩ := ofOption_iff.mp ho
    obtain rfl := Option.some.inj (hid'.symm.trans ho)
    obtain ⟨rfl, rfl⟩ := pure_iff.mp hrun
    rw [hs]
    exact ⟨h', rfl, rfl, r, hr, same⟩
  · rename_i heq
    obtain ⟨rfl, rfl⟩ := pure_iff.mp hrun
    obtain ⟨id', hat, hid''⟩ := h.id_at hr
    have : id' = id := by
      unfold idOf? at hid''
      rw [hb] at hid''
      exact Option.some.inj (hid''.symm.trans ((not_not.mp heq).trans hid'))
    rw [this] at hat
    obtain ⟨hlt, hat⟩ := List.getElem?_eq_some_iff.mp hat
    rw [← hat, List.set_getElem_self] at h'
    exact ⟨h', rfl, rfl, r, hr, same⟩

/-- The chunks go to consecutive objects, from the first that is not full. -/
theorem appendTokenBlocks_owns {i : Nat} {chunks : List (List TokenId)}
    (h : Owns p s t.blocks t.blockIds last full rest refs) (hle : i + chunks.length ≤ last + 1)
    (hafter : ∀ j q c, t.blocks[j]? = some q → i < j → s.block? q = some c → c.tokenIds = [])
    (hrun : appendTokenBlocks p t i chunks s = some (t', s')) :
    Owns p s' t'.blocks t'.blockIds last full rest refs ∧ t'.numFullSlots = t.numFullSlots ∧
      ∀ q ∈ rest, s'.block? q = s.block? q := by
  induction chunks generalizing t s i with
  | nil =>
    obtain ⟨rfl, rfl⟩ := pure_iff.mp hrun
    exact ⟨h, rfl, fun _ _ => rfl⟩
  | cons c chunks ih =>
    obtain ⟨t₁, s₁, hc, hrun⟩ := bind_iff.mp hrun
    rw [List.length_cons] at hle
    obtain ⟨h₁, hblocks, hslots, r, hr, same⟩ := appendToBlock_owns h (by omega) hafter hc
    have hafter₁ (j : Nat) (q : BlockRef) (b : Block) (hj : t₁.blocks[j]? = some q) (hlt : i + 1 < j)
        (hb : s₁.block? q = some b) : b.tokenIds = [] := by
      rw [hblocks] at hj
      rw [same q (h.ne_of_index hr hj (by omega))] at hb
      exact hafter j q b hj (by omega) hb
    obtain ⟨h', hslots', same'⟩ := ih h₁ (by omega) hafter₁ hrun
    refine ⟨h', hslots'.trans hslots, fun q hq => (same' q hq).trans (same q ?_)⟩
    rintro rfl
    exact List.disjoint_of_nodup_append h.inUse.nodup (h.listed.subset (List.mem_of_getElem? hr)) hq

theorem cdiv_rest_le {n room k : Nat} (hpos : 0 < n) (hroom : room ≤ n) : cdiv (k - room) n ≤ (n - room + k) / n := by
  unfold cdiv
  by_cases hk : k ≤ room
  · rw [Nat.sub_eq_zero_of_le hk, Nat.zero_add, Nat.div_eq_of_lt (Nat.sub_lt hpos Nat.one_pos)]
    exact Nat.zero_le _
  · exact Nat.div_le_div_right (by omega)

/-- The last object that tokens are appended to. -/
theorem length_chunkTokenBlocksForAppend (t : BlockTable) (tokenIds : List TokenId) :
    t.numFullSlots / p.blockSize + (chunkTokenBlocksForAppend p t tokenIds).length ≤
      (t.numFullSlots + tokenIds.length) / p.blockSize + 1 := by
  have hlt := Nat.mod_lt t.numFullSlots p.pos
  have hsplit : (t.numFullSlots + tokenIds.length) / p.blockSize =
      t.numFullSlots / p.blockSize + (t.numFullSlots % p.blockSize + tokenIds.length) / p.blockSize := by
    conv_lhs => rw [← Nat.div_add_mod t.numFullSlots p.blockSize, Nat.add_assoc]
    exact Nat.mul_add_div p.pos _ _
  rw [hsplit, Nat.add_assoc]
  refine Nat.add_le_add_left ?_ _
  unfold chunkTokenBlocksForAppend
  split
  · exact Nat.zero_le _
  · rw [List.length_cons, chunkList, List.length_map, List.length_range, List.length_drop]
    have := cdiv_rest_le (k := tokenIds.length) p.pos (Nat.sub_le p.blockSize (t.numFullSlots % p.blockSize))
    rw [Nat.sub_sub_self hlt.le] at this
    exact Nat.add_le_add_right this 1

theorem appendToBlock_advances (t : BlockTable) (i : Nat) (tokenIds : List TokenId) :
    Within Advances (appendToBlock p t i tokenIds) :=
  .bind (.ofOption _) fun r => .bind (BlockM.getBlock_advances r) fun _ =>
    .bind (BlockM.appendTokenIds_advances p r tokenIds) fun _ => .bind (BlockM.getBlock_advances r) fun _ =>
    .ite (.bind (.ofOption _) fun _ => .pure _) (.pure _)

theorem appendTokenBlocks_advances (t : BlockTable) (i : Nat) (chunks : List (List TokenId)) :
    Within Advances (appendTokenBlocks p t i chunks) := by
  induction chunks generalizing t i with
  | nil => exact .pure t
  | cons c chunks ih => exact .bind (appendToBlock_advances t i c) fun t => ih t (i + 1)

theorem appendTokenIds_owns {n : Nat} (h : Owns p s t.blocks t.blockIds (t.numFullSlots / p.blockSize) full rest refs)
    (ok : s'.Harmless) (hrun : appendTokenIds p t tokenIds n s = some (t', s')) :
    ∃ full', Owns p s' t'.blocks t'.blockIds (t'.numFullSlots / p.blockSize) full' rest refs ∧
      ∀ q ∈ rest, s'.block? q = s.block? q := by
  obtain ⟨_, _, hreq, hrun⟩ := bind_iff.mp hrun
  rw [(require_iff.mp hreq).2] at hrun
  obtain ⟨t₁, s₁, hensure, hrun⟩ := bind_iff.mp hrun
  obtain ⟨t₂, s₂, happend, hrun⟩ := bind_iff.mp hrun
  obtain ⟨rfl, rfl⟩ := pure_iff.mp hrun
  obtain ⟨full', h₁, hslots, same⟩ := ensureNumEmptySlots_owns h
    (ok.advances (appendTokenBlocks_advances t₁ _ _ _ _ _ happend)) hensure
  rw [← hslots] at h₁
  have hle := length_chunkTokenBlocksForAppend (p := p) t₁ tokenIds
  obtain ⟨h₂, hslots₂, same₂⟩ := appendTokenBlocks_owns (h₁.later (Nat.div_le_div_right (Nat.le_add_right _ _))) hle
    h₁.empty happend
  refine ⟨full', ?_, fun q hq => (same₂ q hq).trans (same q hq)⟩
  rw [← hslots₂] at h₂
  exact h₂

theorem appendTokenIds_advances (t : BlockTable) (tokenIds : List TokenId) (n : Nat) :
    Within Advances (appendTokenIds p t tokenIds n) :=
  .bind (.require _) fun _ => .bind (.bind (.require _) fun _ => .ite (.pure _) (appendBlocks_advances t _)) fun t =>
    .bind (appendTokenBlocks_advances t _ _) fun _ => .pure _

theorem update_advances (t : BlockTable) (blocks : List BlockRef) : Within Advances (t.update blocks) :=
  .bind (.mapM (fun r => .bind (BlockM.getBlock_advances r) fun _ => .ofOption _) blocks) fun _ => .pure _

theorem allocate_advances (t : BlockTable) (tokenIds : List TokenId) (d : Device) :
    Within Advances (allocate p t tokenIds d) := by
  refine .bind (.require _) fun _ => .bind (.require _) fun _ => .bind (.bind
    (BlockM.allocateImmutableBlocks_advances p d _ _) fun blocks => ?_) fun blocks => .bind (update_advances t blocks) fun _ => .pure _
  split
  · exact .pure _
  · exact .bind (BlockM.allocateMutableBlock_advances p d _) fun r => .bind (BlockM.appendTokenIds_advances p r _) fun _ => .pure _
  · exact .raise

/-! ## Release -/

theorem free_advances (t : BlockTable) : Within Advances (free p t) :=
  .bind (.forM (fun r => BlockM.free_advances p r) t.blocks) fun _ => .pure _

/-- The objects of the table are returned, and so are the references to their blocks. -/
theorem free_releases (chained : s.Chained p full) (listed : t.blocks.Sublist full) (use : s.InUse (full ++ rest))
    (books : s.Books (s.refsOf t.blocks ++ refs)) (hrun : free p t s = some (t', s')) :
    s'.InUse rest ∧ s'.Books refs ∧ ∀ q ∈ rest, s'.block? q = s.block? q := by
  obtain ⟨_, s₁, hfree, hrun⟩ := bind_iff.mp hrun
  rw [(pure_iff.mp hrun).2]
  have hsub := listed.append_right rest
  exact BlockM.forM_free_releases (use.subset (fun q hq => hsub.subset hq) (use.nodup.sublist hsub))
    (fun r hr => chained.settled.remembers (listed.subset hr)) books hfree

end BlockTable

end CoreFlow
