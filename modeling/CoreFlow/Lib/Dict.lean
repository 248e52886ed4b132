import Mathlib.Data.List.Nodup
import Mathlib.Data.List.Basic

/-!
# Insertion-ordered dictionaries

`Dict κ ν` is a list of key/value pairs whose keys are distinct, in the order in which the keys were
first inserted: assigning to a present key keeps its place, deleting a key closes the gap. The
distinctness is a field, so lookups, sizes and key lists never have to argue about shadowed entries.
-/

namespace CoreFlow

/-- A dictionary: pairs in insertion order, with distinct keys. -/
structure Dict (κ ν : Type) where
  entries : List (κ × ν)
  nodup : (entries.map Prod.fst).Nodup

namespace Dict
variable {κ ν : Type} [DecidableEq κ]

omit [DecidableEq κ] in
@[ext] theorem ext {d e : Dict κ ν} (h : d.entries = e.entries) : d = e := by
  cases d; cases e; simp_all

instance [DecidableEq ν] : DecidableEq (Dict κ ν) := fun d e =>
  decidable_of_iff (d.entries = e.entries) ⟨Dict.ext, congrArg _⟩

/-- The empty dictionary. -/
def empty : Dict κ ν := ⟨[], List.nodup_nil⟩

/-- The keys, in insertion order. -/
def keys (d : Dict κ ν) : List κ := d.entries.map Prod.fst

/-- The number of entries. -/
def size (d : Dict κ ν) : Nat := d.entries.length

/-! ## Raw lists of pairs -/

/-- First value stored under a key. -/
def rawGet (k : κ) : List (κ × ν) → Option ν
  | [] => none
  | (k', v) :: l => if k' = k then some v else rawGet k l

/-- Assignment: in place when the key is present, at the end otherwise. -/
def rawSet (k : κ) (v : ν) : List (κ × ν) → List (κ × ν)
  | [] => [(k, v)]
  | (k', v') :: l => if k' = k then (k', v) :: l else (k', v') :: rawSet k v l

/-- Deletion of a key. -/
def rawErase (k : κ) : List (κ × ν) → List (κ × ν)
  | [] => []
  | (k', v') :: l => if k' = k then l else (k', v') :: rawErase k l

theorem keys_rawSet (k : κ) (v : ν) (l : List (κ × ν)) :
    (rawSet k v l).map Prod.fst =
      if k ∈ l.map Prod.fst then l.map Prod.fst else l.map Prod.fst ++ [k] := by
  induction l with
  | nil => simp [rawSet]
  | cons p l ih =>
    obtain ⟨k', v'⟩ := p
    by_cases h : k' = k
    · simp [rawSet, h]
    · simp only [rawSet, if_neg h, List.map_cons, ih, List.mem_cons, Ne.symm h, false_or]
      split <;> simp

theorem keys_rawErase (k : κ) (l : List (κ × ν)) :
    (rawErase k l).map Prod.fst = (l.map Prod.fst).erase k := by
  induction l with
  | nil => simp [rawErase]
  | cons p l ih =>
    obtain ⟨k', v'⟩ := p
    by_cases h : k' = k
    · simp [rawErase, h]
    · rw [rawErase, if_neg h, List.map_cons, ih, List.map_cons, List.erase_cons_tail (by simpa using h)]

theorem rawGet_rawSet (k k' : κ) (v : ν) (l : List (κ × ν)) :
    rawGet k' (rawSet k v l) = if k = k' then some v else rawGet k' l := by
  induction l with
  | nil => simp [rawSet, rawGet]
  | cons p l ih =>
    obtain ⟨a, b⟩ := p
    by_cases h : a = k
    · subst h; by_cases h' : a = k' <;> simp [rawSet, rawGet, h']
    · rw [rawSet, if_neg h, rawGet, rawGet, ih]
      by_cases h' : a = k'
      · subst h'; simp [Ne.symm h]
      · simp [h']

theorem rawGet_eq_none {k : κ} {l : List (κ × ν)} : rawGet k l = none ↔ k ∉ l.map Prod.fst := by
  induction l with
  | nil => simp [rawGet]
  | cons p l ih =>
    obtain ⟨a, b⟩ := p
    by_cases h : a = k
    · simp [rawGet, h]
    · simp only [rawGet, if_neg h, ih, List.map_cons, List.mem_cons, Ne.symm h, false_or]

theorem rawGet_rawErase {k k' : κ} {l : List (κ × ν)} (hl : (l.map Prod.fst).Nodup) :
    rawGet k' (rawErase k l) = if k = k' then none else rawGet k' l := by
  induction l with
  | nil => simp [rawErase, rawGet]
  | cons p l ih =>
    obtain ⟨a, b⟩ := p
    rw [List.map_cons, List.nodup_cons] at hl
    by_cases h : a = k
    · subst h
      rw [rawErase, if_pos rfl, rawGet]
      by_cases h' : a = k'
      · subst h'; simpa using rawGet_eq_none.mpr hl.1
      · simp [h']
    · rw [rawErase, if_neg h, rawGet, rawGet, ih hl.2]
      by_cases h' : a = k'
      · subst h'; simp [Ne.symm h]
      · simp [h']

theorem mem_of_rawGet {k : κ} {v : ν} {l : List (κ × ν)} (h : rawGet k l = some v) : (k, v) ∈ l := by
  induction l with
  | nil => simp [rawGet] at h
  | cons p l ih =>
    obtain ⟨a, b⟩ := p
    by_cases ha : a = k
    · subst ha; simp [rawGet] at h; simp [h]
    · rw [rawGet, if_neg ha] at h; simp [ih h]

theorem rawGet_of_mem {k : κ} {v : ν} {l : List (κ × ν)} (hl : (l.map Prod.fst).Nodup)
    (h : (k, v) ∈ l) : rawGet k l = some v := by
  induction l with
  | nil => simp at h
  | cons p l ih =>
    obtain ⟨a, b⟩ := p
    rw [List.map_cons, List.nodup_cons] at hl
    rcases List.mem_cons.mp h with h | h
    · cases h; simp [rawGet]
    · have : a ≠ k := by
        rintro rfl
        exact hl.1 (List.mem_map.mpr ⟨_, h, rfl⟩)
      rw [rawGet, if_neg this, ih hl.2 h]

/-! ## Operations -/

/-- Lookup. -/
def get? (d : Dict κ ν) (k : κ) : Option ν := rawGet k d.entries

/-- Assignment. -/
def set (d : Dict κ ν) (k : κ) (v : ν) : Dict κ ν where
  entries := rawSet k v d.entries
  nodup := by
    rw [keys_rawSet]
    split
    · exact d.nodup
    · rename_i h
      exact List.nodup_append.mpr ⟨d.nodup, by simp, by
        rintro a ha b hb rfl
        rw [List.mem_singleton] at hb
        exact h (hb ▸ ha)⟩

/-- Deletion. -/
def erase (d : Dict κ ν) (k : κ) : Dict κ ν where
  entries := rawErase k d.entries
  nodup := by rw [keys_rawErase]; exact d.nodup.erase k

instance : Membership κ (Dict κ ν) := ⟨fun d k => k ∈ d.keys⟩

instance (d : Dict κ ν) (k : κ) : Decidable (k ∈ d) := inferInstanceAs (Decidable (k ∈ d.keys))

omit [DecidableEq κ] in
theorem mem_def {d : Dict κ ν} {k : κ} : k ∈ d ↔ k ∈ d.keys := Iff.rfl

@[simp] theorem get?_empty (k : κ) : (empty : Dict κ ν).get? k = none := rfl

omit [DecidableEq κ] in
@[simp] theorem keys_empty : (empty : Dict κ ν).keys = [] := rfl

omit [DecidableEq κ] in
@[simp] theorem not_mem_empty (k : κ) : k ∉ (empty : Dict κ ν) := by simp [mem_def]

theorem get?_set (d : Dict κ ν) (k k' : κ) (v : ν) :
    (d.set k v).get? k' = if k = k' then some v else d.get? k' := rawGet_rawSet k k' v d.entries

@[simp] theorem get?_set_self (d : Dict κ ν) (k : κ) (v : ν) : (d.set k v).get? k = some v := by
  simp [get?_set]

theorem get?_set_ne (d : Dict κ ν) {k k' : κ} (v : ν) (h : k ≠ k') :
    (d.set k v).get? k' = d.get? k' := by simp [get?_set, h]

theorem get?_erase (d : Dict κ ν) (k k' : κ) :
    (d.erase k).get? k' = if k = k' then none else d.get? k' := rawGet_rawErase d.nodup

@[simp] theorem get?_erase_self (d : Dict κ ν) (k : κ) : (d.erase k).get? k = none := by
  simp [get?_erase]

theorem get?_erase_ne (d : Dict κ ν) {k k' : κ} (h : k ≠ k') :
    (d.erase k).get? k' = d.get? k' := by simp [get?_erase, h]

theorem get?_eq_none {d : Dict κ ν} {k : κ} : d.get? k = none ↔ k ∉ d := rawGet_eq_none

theorem mem_iff {d : Dict κ ν} {k : κ} : k ∈ d ↔ ∃ v, d.get? k = some v := by
  rw [← not_iff_not, ← get?_eq_none, Option.eq_none_iff_forall_ne_some]
  push Not
  rfl

theorem mem_iff_isSome {d : Dict κ ν} {k : κ} : k ∈ d ↔ (d.get? k).isSome = true := by
  rw [mem_iff, Option.isSome_iff_exists]

theorem mem_of_get? {d : Dict κ ν} {k : κ} {v : ν} (h : d.get? k = some v) : k ∈ d :=
  mem_iff.mpr ⟨v, h⟩

theorem get?_iff_mem_entries {d : Dict κ ν} {k : κ} {v : ν} :
    d.get? k = some v ↔ (k, v) ∈ d.entries :=
  ⟨mem_of_rawGet, rawGet_of_mem d.nodup⟩

theorem keys_set (d : Dict κ ν) (k : κ) (v : ν) :
    (d.set k v).keys = if k ∈ d then d.keys else d.keys ++ [k] := keys_rawSet k v d.entries

theorem keys_erase (d : Dict κ ν) (k : κ) : (d.erase k).keys = d.keys.erase k :=
  keys_rawErase k d.entries

omit [DecidableEq κ] in
theorem nodup_keys (d : Dict κ ν) : d.keys.Nodup := d.nodup

@[simp] theorem mem_set {d : Dict κ ν} {k k' : κ} {v : ν} : k' ∈ d.set k v ↔ k' = k ∨ k' ∈ d := by
  rw [mem_iff, mem_iff, get?_set]
  by_cases h : k = k'
  · simp [h]
  · simp [h, Ne.symm h]

@[simp] theorem mem_erase {d : Dict κ ν} {k k' : κ} : k' ∈ d.erase k ↔ k' ≠ k ∧ k' ∈ d := by
  rw [mem_iff, mem_iff, get?_erase]
  by_cases h : k = k'
  · simp [h]
  · simp [h, Ne.symm h]

omit [DecidableEq κ] in
theorem size_eq_length_keys (d : Dict κ ν) : d.size = d.keys.length := by simp [size, keys]

omit [DecidableEq κ] in
theorem size_eq_zero {d : Dict κ ν} : d.size = 0 ↔ d.keys = [] := by
  rw [size_eq_length_keys, List.length_eq_zero_iff]

theorem set_set (d : Dict κ ν) (k : κ) (v v' : ν) : (d.set k v).set k v' = d.set k v' := by
  apply Dict.ext
  have hk : ∀ l : List (κ × ν), rawSet k v' (rawSet k v l) = rawSet k v' l := by
    intro l
    induction l with
    | nil => simp [rawSet]
    | cons p l ih =>
      obtain ⟨a, b⟩ := p
      by_cases ha : a = k
      · simp [rawSet, ha]
      · simp [rawSet, ha, ih]
  exact hk d.entries

/-- Deleting an absent key changes nothing. -/
theorem erase_of_not_mem {d : Dict κ ν} {k : κ} (h : k ∉ d) : d.erase k = d := by
  apply Dict.ext
  have hk : ∀ l : List (κ × ν), k ∉ l.map Prod.fst → rawErase k l = l := by
    intro l
    induction l with
    | nil => intro _; rfl
    | cons p l ih =>
      intro hp
      rw [List.map_cons, List.mem_cons, not_or] at hp
      rw [rawErase, if_neg (Ne.symm hp.1), ih hp.2]
  exact hk d.entries h

theorem entries_set_of_not_mem {d : Dict κ ν} {k : κ} (h : k ∉ d) (v : ν) :
    (d.set k v).entries = d.entries ++ [(k, v)] := by
  have hk : ∀ l : List (κ × ν), k ∉ l.map Prod.fst → rawSet k v l = l ++ [(k, v)] := by
    intro l
    induction l with
    | nil => intro _; rfl
    | cons p l ih =>
      intro hp
      rw [List.map_cons, List.mem_cons, not_or] at hp
      rw [rawSet, if_neg (Ne.symm hp.1), ih hp.2, List.cons_append]
  exact hk d.entries h

theorem entries_perm_erase {d : Dict κ ν} {k : κ} {v : ν} (h : d.get? k = some v) :
    d.entries.Perm ((k, v) :: (d.erase k).entries) := by
  have hk : ∀ l : List (κ × ν), rawGet k l = some v → l.Perm ((k, v) :: rawErase k l) := by
    intro l
    induction l with
    | nil => intro h; simp [rawGet] at h
    | cons p l ih =>
      obtain ⟨a, b⟩ := p
      intro h
      by_cases ha : a = k
      · subst ha
        simp only [rawGet, if_true, Option.some.injEq] at h
        rw [h, rawErase, if_pos rfl]
      · rw [rawGet, if_neg ha] at h
        rw [rawErase, if_neg ha]
        exact ((ih h).cons _).trans (List.Perm.swap _ _ _)
  exact hk d.entries h

theorem entries_perm_set (d : Dict κ ν) (k : κ) (v : ν) : (d.set k v).entries.Perm ((k, v) :: (d.erase k).entries) := by
  have hk : ∀ l : List (κ × ν), rawErase k (rawSet k v l) = rawErase k l := by
    intro l
    induction l with
    | nil => simp [rawSet, rawErase]
    | cons p l ih =>
      obtain ⟨a, b⟩ := p
      by_cases ha : a = k
      · simp [rawSet, rawErase, ha]
      · simp [rawSet, rawErase, ha, ih]
  rw [← show (d.set k v).erase k = d.erase k from Dict.ext (hk d.entries)]
  exact entries_perm_erase (get?_set_self d k v)

/-- The dictionary that maps every key of a duplicate-free list to one value. -/
def ofKeys (ks : List κ) (v : ν) : Dict κ ν := ks.foldl (fun d k => d.set k v) empty

theorem get?_foldl_set (ks : List κ) (v : ν) (d : Dict κ ν) (k : κ) :
    (ks.foldl (fun d k => d.set k v) d).get? k = if k ∈ ks then some v else d.get? k := by
  induction ks generalizing d with
  | nil => simp
  | cons a ks ih =>
    rw [List.foldl_cons, ih, get?_set]
    by_cases h : k ∈ ks
    · simp [h]
    · by_cases h' : a = k
      · simp [h']
      · simp [h, h', Ne.symm h']

theorem get?_ofKeys (ks : List κ) (v : ν) (k : κ) :
    (ofKeys ks v).get? k = if k ∈ ks then some v else none := by
  rw [ofKeys, get?_foldl_set, get?_empty]

/-- `dict` of a list of pairs. -/
def ofPairs (ps : List (κ × ν)) : Dict κ ν := ps.foldl (fun d p => d.set p.1 p.2) empty

theorem entries_foldl_set {ps : List (κ × ν)} {d : Dict κ ν} (h : (d.keys ++ ps.map Prod.fst).Nodup) :
    (ps.foldl (fun d p => d.set p.1 p.2) d).entries = d.entries ++ ps := by
  induction ps generalizing d with
  | nil => simp
  | cons p ps ih =>
    obtain ⟨-, -, hdisjoint⟩ := List.nodup_append'.mp h
    have hnew : p.1 ∉ d := fun hin => hdisjoint hin (by simp)
    have hkeys : (d.set p.1 p.2).keys = d.keys ++ [p.1] := by rw [keys_set, if_neg hnew]
    rw [List.foldl_cons, ih, entries_set_of_not_mem hnew, List.append_assoc, List.singleton_append]
    rw [hkeys]
    simpa using h

theorem entries_ofPairs {ps : List (κ × ν)} (h : (ps.map Prod.fst).Nodup) : (ofPairs ps).entries = ps :=
  entries_foldl_set h

end Dict

end CoreFlow
