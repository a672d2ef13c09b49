import Mathlib.Data.List.Nodup
import Mathlib.Logic.Function.Iterate

/-! # Insertion-ordered maps

The finite map of the scripting languages: writing a key that is there keeps its place, writing
a new key puts it last, and iteration is in insertion order. The keys of an `OrderedMap` are
distinct by construction, so what the list of entries says and what `get` says agree. Used
both as a map and, for its order, as a bounded memory whose oldest entry goes first. -/

namespace Axona.Library

/-- A finite map from `κ` to `ν` that remembers the order in which its keys were written. -/
structure OrderedMap (κ ν : Type*) where
  /-- The entries, oldest key first. -/
  entries : List (κ × ν)
  /-- No key is there twice. -/
  keys_nodup : (entries.map Prod.fst).Nodup

namespace OrderedMap

variable {κ ν : Type*}

variable {m : OrderedMap κ ν}

/-- Two maps with the same entries in the same order are equal. -/
@[ext] theorem ext {m' : OrderedMap κ ν} (h : m.entries = m'.entries) : m = m' := by
  cases m; cases m'; cases h; rfl

/-- The map with no entry. -/
def empty : OrderedMap κ ν := ⟨[], by simp⟩

instance : EmptyCollection (OrderedMap κ ν) := ⟨empty⟩

variable [DecidableEq κ]

/-- The first value stored under `k` in a list of entries. -/
def find (k : κ) : List (κ × ν) → Option ν
  | [] => none
  | (k', v) :: es => if k' = k then some v else find k es

/-- The value under `k`, if there is one. -/
def get (m : OrderedMap κ ν) (k : κ) : Option ν := find k m.entries

/-- Is there an entry under `k`? -/
def has (m : OrderedMap κ ν) (k : κ) : Bool := (m.get k).isSome

/-- The keys, oldest first. -/
def keys (m : OrderedMap κ ν) : List κ := m.entries.map Prod.fst

/-- The number of entries. -/
def size (m : OrderedMap κ ν) : Nat := m.entries.length

/-- Write `v` over the entries under `k`, each at its place. -/
def overwrite (k : κ) (v : ν) (es : List (κ × ν)) : List (κ × ν) :=
  es.map fun e => if e.1 = k then (k, v) else e

theorem overwrite_keys (k : κ) (v : ν) (es : List (κ × ν)) :
    (overwrite k v es).map Prod.fst = es.map Prod.fst := by
  induction es with
  | nil => rfl
  | cons e es ih =>
    simp only [overwrite, List.map_cons, List.cons.injEq] at ih ⊢
    refine ⟨?_, ih⟩
    by_cases h : e.1 = k <;> simp [h]

variable {k : κ}

theorem find_eq_none_iff {es : List (κ × ν)} : find k es = none ↔ k ∉ es.map Prod.fst := by
  induction es with
  | nil => simp [find]
  | cons e es ih =>
    by_cases h : e.1 = k
    · simp [find, h]
    · simp [find, h, ih, Ne.symm h]

/-- Write `v` under `k`: in place when `k` is there, last otherwise. -/
def set (m : OrderedMap κ ν) (k : κ) (v : ν) : OrderedMap κ ν :=
  if h : find k m.entries = none then
    ⟨m.entries ++ [(k, v)], by
      rw [List.map_append, List.nodup_append]
      refine ⟨m.keys_nodup, by simp, ?_⟩
      rintro a ha b hb rfl
      simp only [List.map_cons, List.map_nil, List.mem_singleton] at hb
      exact find_eq_none_iff.mp h (hb ▸ ha)⟩
  else ⟨overwrite k v m.entries, by rw [overwrite_keys]; exact m.keys_nodup⟩

/-- Drop the entry under `k`. -/
def delete (m : OrderedMap κ ν) (k : κ) : OrderedMap κ ν :=
  ⟨m.entries.filter fun e => e.1 ≠ k,
    m.keys_nodup.sublist (List.filter_sublist.map Prod.fst)⟩

/-- Drop the oldest entry. -/
def dropOldest (m : OrderedMap κ ν) : OrderedMap κ ν :=
  ⟨m.entries.tail, m.keys_nodup.sublist ((List.tail_sublist _).map Prod.fst)⟩

/-- Keep the entries that satisfy `p`. -/
def filter (m : OrderedMap κ ν) (p : κ → ν → Bool) : OrderedMap κ ν :=
  ⟨m.entries.filter fun e => p e.1 e.2, m.keys_nodup.sublist (List.filter_sublist.map Prod.fst)⟩

omit [DecidableEq κ] in
theorem keys_filterMap_sublist {μ : Type*} (f : κ → ν → Option μ) (es : List (κ × ν)) :
    ((es.filterMap fun e => (f e.1 e.2).map (Prod.mk e.1)).map Prod.fst).Sublist
      (es.map Prod.fst) := by
  induction es with
  | nil => exact .slnil
  | cons e es ih =>
    rw [List.filterMap_cons, List.map_cons]
    cases f e.1 e.2 with
    | none => exact ih.cons _
    | some v => exact ih.cons_cons _

/-- Change each entry, or drop it. -/
def filterMap (m : OrderedMap κ ν) (f : κ → ν → Option ν) : OrderedMap κ ν :=
  ⟨m.entries.filterMap fun e => (f e.1 e.2).map (Prod.mk e.1),
    m.keys_nodup.sublist (keys_filterMap_sublist f m.entries)⟩

/-! ### The order of the keys -/

theorem has_iff_mem_keys : m.has k = true ↔ k ∈ m.keys := by
  unfold has get keys
  rw [Option.isSome_iff_ne_none, Ne, find_eq_none_iff, not_not]

variable {v : ν}

/-- A new key comes last. -/
theorem keys_set_new (h : k ∉ m.keys) : (m.set k v).keys = m.keys ++ [k] := by
  unfold set
  rw [dif_pos (find_eq_none_iff.mpr h)]
  show (m.entries ++ [(k, v)]).map Prod.fst = _
  rw [List.map_append]
  rfl

omit [DecidableEq κ] in
theorem keys_dropOldest (m : OrderedMap κ ν) : m.dropOldest.keys = m.keys.tail := by
  unfold dropOldest keys
  rw [List.map_tail]

omit [DecidableEq κ] in
theorem size_eq_length_keys (m : OrderedMap κ ν) : m.size = m.keys.length := by
  unfold size keys
  rw [List.length_map]

/-! ### Reading back what was written -/

@[simp] theorem get_empty (k : κ) : (∅ : OrderedMap κ ν).get k = none := rfl

private theorem find_append_new (k k' : κ) (v : ν) (es : List (κ × ν)) (h : find k es = none) :
    find k' (es ++ [(k, v)]) = if k' = k then some v else find k' es := by
  induction es with
  | nil =>
    by_cases hk : k' = k
    · simp [find, hk]
    · simp [find, hk, Ne.symm hk]
  | cons e es ih =>
    by_cases he : e.1 = k
    · simp [find, he] at h
    simp only [find, he, if_false] at h
    by_cases hk : e.1 = k'
    · have hne : k' ≠ k := fun h' => he (hk.trans h')
      simp [find, hk, hne]
    · simp only [List.cons_append, find, hk, if_false]
      exact ih h

private theorem find_overwrite (k k' : κ) (v : ν) (es : List (κ × ν)) (h : find k es ≠ none) :
    find k' (overwrite k v es) = if k' = k then some v else find k' es := by
  induction es with
  | nil => simp [find] at h
  | cons e es ih =>
    by_cases he : e.1 = k
    · by_cases hk : k' = k
      · simp [overwrite, find, he, hk]
      have hn : ∀ es' : List (κ × ν), find k' (overwrite k v es') = find k' es' := by
        intro es'
        induction es' with
        | nil => rfl
        | cons f fs ihf =>
          by_cases hf : f.1 = k
          · simp only [overwrite, List.map_cons, hf, if_true, find, Ne.symm hk, if_false]
            exact ihf
          · simp only [overwrite, List.map_cons, hf, if_false, find]
            by_cases hf' : f.1 = k'
            · simp [hf']
            · simp only [hf', if_false]; exact ihf
      rw [hn, if_neg hk]
    · simp only [find, he, if_false] at h
      by_cases hk : e.1 = k'
      · have hne : k' ≠ k := fun h' => he (hk.trans h')
        simp [overwrite, find, hk, hne]
      · simp only [overwrite, List.map_cons, he, if_false, find, hk]
        exact ih h

/-- **What `get` reads after `set`.** -/
@[simp] theorem get_set (m : OrderedMap κ ν) (k k' : κ) (v : ν) :
    (m.set k v).get k' = if k' = k then some v else m.get k' := by
  unfold set get
  split
  next h => exact find_append_new k k' v m.entries h
  next h => exact find_overwrite k k' v m.entries h

private theorem find_filter_ne (k k' : κ) (es : List (κ × ν)) :
    find k' (es.filter fun e => e.1 ≠ k) = if k' = k then none else find k' es := by
  induction es with
  | nil => simp [find]
  | cons e es ih =>
    by_cases he : e.1 = k
    · rw [List.filter_cons_of_neg (by simp [he]), ih]
      by_cases hk : k' = k
      · simp [hk]
      · simp [hk, find, he, Ne.symm hk]
    · rw [List.filter_cons_of_pos (by simp [he])]
      by_cases hk : e.1 = k'
      · have hne : k' ≠ k := fun h' => he (hk.trans h')
        simp [find, hk, hne]
      · simp only [find, hk, if_false]; exact ih

/-- **What `get` reads after `delete`.** -/
@[simp] theorem get_delete (m : OrderedMap κ ν) (k k' : κ) :
    (m.delete k).get k' = if k' = k then none else m.get k' :=
  find_filter_ne k k' m.entries

theorem ne_of_get_delete {m : OrderedMap κ ν} {k k' : κ} {v : ν}
    (h : (m.delete k).get k' = some v) : k' ≠ k := by
  rintro rfl
  rw [get_delete, if_pos rfl] at h
  cases h

/-- What is left was there. -/
theorem of_get_delete {m : OrderedMap κ ν} {k k' : κ} {v : ν}
    (h : (m.delete k).get k' = some v) : m.get k' = some v := by
  have hne := ne_of_get_delete h
  rwa [get_delete, if_neg hne] at h

@[simp] theorem has_set (m : OrderedMap κ ν) (k k' : κ) (v : ν) :
    (m.set k v).has k' = (decide (k' = k) || m.has k') := by
  by_cases h : k' = k <;> simp [has, h]

/-- What is written twice under one key is what was written last. -/
theorem set_set (m : OrderedMap κ ν) (k : κ) (v w : ν) : (m.set k v).set k w = m.set k w := by
  have hsome : (m.set k v).get k = some v := by rw [get_set, if_pos rfl]
  have hfind : find k (m.set k v).entries ≠ none := by
    intro h
    have hnone : (m.set k v).get k = none := h
    rw [hsome] at hnone
    cases hnone
  have hover (es : List (κ × ν)) : overwrite k w (overwrite k v es) = overwrite k w es := by
    unfold overwrite
    rw [List.map_map]
    apply List.map_congr_left
    intro e _
    by_cases he : e.1 = k <;> simp [he]
  apply ext
  rw [set, dif_neg hfind]
  unfold set
  split
  next hnew =>
    have hkeep : overwrite k w m.entries = m.entries := by
      unfold overwrite
      conv_rhs => rw [← List.map_id m.entries]
      apply List.map_congr_left
      intro e he
      have hne : e.1 ≠ k := fun h =>
        find_eq_none_iff.mp hnew (h ▸ List.mem_map_of_mem he)
      simp [hne]
    show overwrite k w (m.entries ++ [(k, v)]) = m.entries ++ [(k, w)]
    unfold overwrite at hkeep ⊢
    rw [List.map_append, hkeep]
    simp
  · exact hover m.entries

theorem has_iff : m.has k = true ↔ ∃ v, m.get k = some v :=
  Option.isSome_iff_exists

/-- An entry of the list is what `get` reads under its key. -/
theorem get_of_mem (h : (k, v) ∈ m.entries) : m.get k = some v := by
  have aux : ∀ es : List (κ × ν), (es.map Prod.fst).Nodup → (k, v) ∈ es → find k es = some v := by
    intro es hn hm
    induction es with
    | nil => simp at hm
    | cons e es ih =>
      rw [List.map_cons, List.nodup_cons] at hn
      rcases List.mem_cons.mp hm with rfl | hm'
      · simp [find]
      have hne : e.1 ≠ k := by
        rintro rfl
        exact hn.1 (List.mem_map.mpr ⟨_, hm', rfl⟩)
      simp only [find, hne, if_false]
      exact ih hn.2 hm'
  exact aux m.entries m.keys_nodup h

/-- What `get` reads under a key is an entry of the list. -/
theorem mem_of_get (h : m.get k = some v) : (k, v) ∈ m.entries := by
  have aux : ∀ es : List (κ × ν), find k es = some v → (k, v) ∈ es := by
    intro es hf
    induction es with
    | nil => simp [find] at hf
    | cons e es ih =>
      by_cases he : e.1 = k
      · simp only [find, he, if_true, Option.some.injEq] at hf
        subst hf; subst he
        exact List.mem_cons_self
      · simp only [find, he, if_false] at hf
        exact List.mem_cons_of_mem _ (ih hf)
  exact aux m.entries h

omit [DecidableEq κ] in
theorem entries_iterate_dropOldest (m : OrderedMap κ ν) (j : Nat) :
    (dropOldest^[j] m).entries = m.entries.drop j := by
  induction j generalizing m with
  | zero => rfl
  | succ j ih =>
    rw [Function.iterate_succ_apply, ih]
    exact List.drop_tail

/-- What is left after the oldest entries are dropped was there. -/
theorem get_of_iterate_dropOldest {j : Nat} (h : (dropOldest^[j] m).get k = some v) :
    m.get k = some v := by
  have hmem := mem_of_get h
  rw [entries_iterate_dropOldest] at hmem
  exact get_of_mem (List.mem_of_mem_drop hmem)

/-- Filtering a map never adds an entry. -/
theorem get_filter_some {p : κ → ν → Bool} :
    (m.filter p).get k = some v ↔ m.get k = some v ∧ p k v = true := by
  constructor
  · intro h
    have hm := List.mem_filter.mp (mem_of_get h)
    exact ⟨get_of_mem hm.1, hm.2⟩
  · rintro ⟨h, hp⟩
    exact get_of_mem (List.mem_filter.mpr ⟨mem_of_get h, hp⟩)

theorem get_filter (m : OrderedMap κ ν) (p : κ → ν → Bool) (k : κ) :
    (m.filter p).get k = (m.get k).filter (p k) := by
  ext v
  rw [get_filter_some, Option.filter_eq_some_iff]

theorem get_filterMap (m : OrderedMap κ ν) (f : κ → ν → Option ν) (k : κ) :
    (m.filterMap f).get k = (m.get k).bind (f k) := by
  ext v
  rw [Option.bind_eq_some_iff]
  constructor
  · intro h
    obtain ⟨e, he, hf⟩ := List.mem_filterMap.mp (mem_of_get h)
    obtain ⟨w, hw, heq⟩ := Option.map_eq_some_iff.mp hf
    cases heq
    exact ⟨e.2, get_of_mem he, hw⟩
  · rintro ⟨w, hw, hf⟩
    refine get_of_mem (List.mem_filterMap.mpr ⟨(k, w), mem_of_get hw, ?_⟩)
    exact Option.map_eq_some_iff.mpr ⟨v, hf, rfl⟩

/-- A map whose entries are visited once each, and written anew or deleted. -/
theorem get_foldl_alter (m : OrderedMap κ ν) (f : ν → Option ν) (k : κ) :
    (m.entries.foldl (fun m e => match f e.2 with
      | none => m.delete e.1
      | some v => m.set e.1 v) m).get k = (m.get k).bind f := by
  -- what is under `k` once the entries `es` were visited
  suffices h : ∀ (es : List (κ × ν)) (m : OrderedMap κ ν), (es.map Prod.fst).Nodup →
      (es.foldl (fun m e => match f e.2 with
        | none => m.delete e.1
        | some v => m.set e.1 v) m).get k = (find k es).elim (m.get k) f by
    rw [h m.entries m m.keys_nodup]
    change (m.get k).elim (m.get k) f = (m.get k).bind f
    cases m.get k <;> rfl
  intro es
  induction es with
  | nil => exact fun _ _ => rfl
  | cons e es ih =>
    intro m hnodup
    obtain ⟨hnew, hnodup⟩ := List.nodup_cons.mp hnodup
    rw [List.foldl_cons, ih _ hnodup]
    simp only [find]
    by_cases hk : e.1 = k
    · have hnone : find k es = none := find_eq_none_iff.mpr (by rwa [← hk])
      rw [if_pos hk, hnone]
      subst hk
      cases hf : f e.2 with
      | none | some v => simp [hf]
    · rw [if_neg hk]
      have hkept : (match f e.2 with
          | none => m.delete e.1
          | some v => m.set e.1 v).get k = m.get k := by
        cases f e.2 with
        | none | some v => simp [Ne.symm hk]
      rw [hkept]

/-- A state that holds a map, whose keys are visited once each: what a visit does to the value
under its own key is done to every value. -/
theorem get_foldl_keys {σ : Type*} (view : σ → OrderedMap κ ν) {visit : σ → κ → σ}
    {f : ν → Option ν} {I : σ → Prop} (hI : ∀ s k, I s → I (visit s k))
    (hvisit : ∀ s k k', I s → (view (visit s k')).get k =
      if k = k' then ((view s).get k).bind f else (view s).get k) {s : σ} (hs : I s) (k : κ) :
    (view ((view s).keys.foldl visit s)).get k = ((view s).get k).bind f := by
  -- what is under `k` once the keys `ks` were visited
  have hrun : ∀ (ks : List κ) (s : σ), ks.Nodup → I s → (view (ks.foldl visit s)).get k =
      if k ∈ ks then ((view s).get k).bind f else (view s).get k := by
    intro ks
    induction ks with
    | nil => exact fun _ _ _ => rfl
    | cons k' ks ih =>
      intro s hnodup hs
      obtain ⟨hnew, hnodup⟩ := List.nodup_cons.mp hnodup
      rw [List.foldl_cons, ih _ hnodup (hI s k' hs), hvisit s k k' hs]
      by_cases hk : k = k'
      · subst hk
        rw [if_neg hnew, if_pos rfl, if_pos List.mem_cons_self]
      · rw [if_neg hk]
        by_cases hmem : k ∈ ks
        · rw [if_pos hmem, if_pos (List.mem_cons_of_mem _ hmem)]
        · rw [if_neg hmem, if_neg (by simp [hk, hmem])]
  rw [hrun (view s).keys s (view s).keys_nodup hs]
  by_cases hmem : k ∈ (view s).keys
  · rw [if_pos hmem]
  have hnone : (view s).get k = none := find_eq_none_iff.mpr hmem
  rw [if_neg hmem, hnone]
  rfl

/-! ### The entries as a multiset -/

/-- Without a key the entries are the others, in any order. -/
theorem entries_perm_of_get (h : m.get k = some v) :
    m.entries.Perm ((k, v) :: (m.delete k).entries) := by
  have aux : ∀ es : List (κ × ν), (es.map Prod.fst).Nodup → find k es = some v →
      es.Perm ((k, v) :: es.filter fun e => e.1 ≠ k) := by
    intro es hn hf
    induction es with
    | nil => simp [find] at hf
    | cons e es ih =>
      rw [List.map_cons, List.nodup_cons] at hn
      by_cases he : e.1 = k
      · -- the key is not in the tail, so nothing of it goes
        have htail : es.filter (fun e => e.1 ≠ k) = es := by
          refine List.filter_eq_self.mpr fun e' he' => ?_
          have hne : e'.1 ≠ k := by
            rintro rfl
            exact hn.1 (he ▸ List.mem_map.mpr ⟨e', he', rfl⟩)
          simpa using hne
        have hv : e = (k, v) := by
          simp only [find, he, if_true, Option.some.injEq] at hf
          rw [← he, ← hf]
        rw [List.filter_cons_of_neg (by simp [he]), htail, hv]
      · simp only [find, he, if_false] at hf
        rw [List.filter_cons_of_pos (by simp [he])]
        exact ((ih hn.2 hf).cons e).trans (.swap _ _ _)
  exact aux m.entries m.keys_nodup h

theorem delete_of_get_none (h : m.get k = none) : m.delete k = m := by
  refine ext (List.filter_eq_self.mpr fun e he => ?_)
  have hne : e.1 ≠ k := by
    rintro rfl
    exact find_eq_none_iff.mp h (List.mem_map.mpr ⟨e, he, rfl⟩)
  simpa using hne

theorem delete_set (m : OrderedMap κ ν) (k : κ) (v : ν) : (m.set k v).delete k = m.delete k := by
  refine ext ?_
  show (m.set k v).entries.filter _ = m.entries.filter _
  unfold set
  split
  · rw [List.filter_append, List.filter_cons_of_neg (by simp), List.filter_nil, List.append_nil]
  show (overwrite k v m.entries).filter _ = _
  induction m.entries with
  | nil => rfl
  | cons e es ih =>
    rw [overwrite, List.map_cons]
    by_cases he : e.1 = k
    · rw [if_pos he, List.filter_cons_of_neg (by simp), List.filter_cons_of_neg (by simp [he])]
      exact ih
    · rw [if_neg he, List.filter_cons_of_pos (by simp [he]), List.filter_cons_of_pos (by simp [he])]
      exact congrArg (List.cons e) ih

theorem entries_set_perm (m : OrderedMap κ ν) (k : κ) (v : ν) :
    (m.set k v).entries.Perm ((k, v) :: (m.delete k).entries) := by
  have h := entries_perm_of_get (m := m.set k v) (k := k) (v := v) (by rw [get_set, if_pos rfl])
  rwa [delete_set] at h

/-! ### Counting -/

/-- How many values satisfy `p`. -/
def countP (m : OrderedMap κ ν) (p : ν → Bool) : Nat := m.entries.countP fun e => p e.2

omit [DecidableEq κ] in

omit [DecidableEq κ] in
theorem size_eq_countP (m : OrderedMap κ ν) : m.size = m.countP fun _ => true := by
  unfold size countP
  rw [List.countP_true]

theorem countP_set (m : OrderedMap κ ν) (k : κ) (v : ν) (p : ν → Bool) :
    (m.set k v).countP p = (m.delete k).countP p + if p v then 1 else 0 := by
  unfold countP
  rw [(entries_set_perm m k v).countP_eq, List.countP_cons]

theorem countP_eq_delete (h : m.get k = some v) (p : ν → Bool) :
    m.countP p = (m.delete k).countP p + if p v then 1 else 0 := by
  unfold countP
  rw [(entries_perm_of_get h).countP_eq, List.countP_cons]

/-- A new value is one more that may satisfy `p`. -/
theorem countP_set_new (h : m.get k = none) (v : ν) (p : ν → Bool) :
    (m.set k v).countP p = m.countP p + if p v then 1 else 0 := by
  rw [countP_set, delete_of_get_none h]

/-- A value written over another counts in its stead. -/
theorem countP_set_over {w : ν} (h : m.get k = some w) (v : ν) (p : ν → Bool) :
    (m.set k v).countP p + (if p w then 1 else 0) = m.countP p + if p v then 1 else 0 := by
  rw [countP_set, countP_eq_delete h]
  omega

omit [DecidableEq κ] in
/-- Of what is kept no more satisfy `p` than before. -/
theorem countP_filter_le (m : OrderedMap κ ν) (q : κ → ν → Bool) (p : ν → Bool) :
    (m.filter q).countP p ≤ m.countP p :=
  List.Sublist.countP_le List.filter_sublist

/-! ### Sizes -/

/-- A new key is one more. -/
theorem size_set_new (h : m.get k = none) (v : ν) : (m.set k v).size = m.size + 1 := by
  rw [size_eq_countP, countP_set_new h, ← size_eq_countP, if_pos rfl]

/-- A value that is written over another is no more. -/
theorem size_set_over {w : ν} (h : m.get k = some w) (v : ν) : (m.set k v).size = m.size := by
  have hcount := countP_set_over h v fun _ => true
  rw [← size_eq_countP, ← size_eq_countP] at hcount
  omega

theorem size_delete_le (m : OrderedMap κ ν) (k : κ) : (m.delete k).size ≤ m.size :=
  List.length_filter_le _ _

theorem size_delete (h : m.get k = some v) : m.size = (m.delete k).size + 1 := by
  rw [size_eq_countP, countP_eq_delete h, ← size_eq_countP, if_pos rfl]

omit [DecidableEq κ] in
theorem countP_le_size (m : OrderedMap κ ν) (p : ν → Bool) : m.countP p ≤ m.size :=
  List.countP_le_length

/-- Without one key the others are there. -/
theorem has_delete {k' : κ} : (m.delete k).has k' = true ↔ k' ≠ k ∧ m.has k' = true := by
  simp only [has, get_delete]
  split
  next heq => simp [heq]
  next hne => simp [hne]

/-! ### What holds of every entry -/

/-- `P` holds of every entry. -/
def All (m : OrderedMap κ ν) (P : κ → ν → Prop) : Prop := ∀ k v, m.get k = some v → P k v

section All

variable {m : OrderedMap κ ν} {P Q : κ → ν → Prop} {k : κ} {v : ν}

theorem all_empty : (∅ : OrderedMap κ ν).All P := by
  intro k v h
  cases h

theorem All.set (h : m.All P) (hv : P k v) : (m.set k v).All P := by
  intro k' v' hget
  rw [get_set] at hget
  split at hget
  · next hk =>
    cases hget
    rw [hk]
    exact hv
  · exact h k' v' hget

theorem All.delete (h : m.All P) : (m.delete k).All P := by
  intro k' v' hget
  replace hget := of_get_delete hget
  exact h k' v' hget

theorem All.mono (h : m.All P) (hPQ : ∀ k v, P k v → Q k v) : m.All Q :=
  fun k v hget => hPQ k v (h k v hget)

/-- An entry that is written is one of the map. -/
theorem All.of_set (h : (m.set k v).All P) : P k v := by
  apply h k v
  rw [get_set, if_pos rfl]

end All

end OrderedMap

end Axona.Library
