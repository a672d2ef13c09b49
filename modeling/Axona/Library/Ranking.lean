import Mathlib.Data.List.Sort
import Mathlib.Algebra.Order.BigOperators.Group.Finset
import Mathlib.Algebra.BigOperators.Group.Finset.Piecewise
import Mathlib.Tactic.Ring

/-! # Ranks in a list

How many elements of a list come before an element, by a value. The elements that an insertion sort
puts first are those of the least ranks, and the number of places among the first `k` that a list
fills, summed up to the values of a fixed set, measures how near its least elements are: replacing
an element that is not among them loses nothing of it, and a replacement that is among them
gains. -/

namespace Axona.Library

variable {α β : Type*} [LinearOrder β]

/-- How many elements of a list come before a value. -/
def rank (f : α → β) (l : List α) (b : β) : Nat := l.countP fun a => f a < b

/-- How many elements of a list come no later than a value. -/
def reach (f : α → β) (l : List α) (b : β) : Nat := l.countP fun a => f a ≤ b

variable {f : α → β} {l l' : List α}

theorem rank_perm (h : l.Perm l') (b : β) : rank f l b = rank f l' b := h.countP_eq _

theorem rank_append (l l' : List α) (b : β) : rank f (l ++ l') b = rank f l b + rank f l' b :=
  List.countP_append

theorem rank_mono (l : List α) {b c : β} (h : b ≤ c) : rank f l b ≤ rank f l c :=
  List.countP_mono_left fun _ _ ha => by simpa using (of_decide_eq_true ha).trans_le h

/-- No more elements come before a value than come no later than an earlier one. -/
theorem reach_le_rank (l : List α) {b c : β} (h : b < c) : reach f l b ≤ rank f l c :=
  List.countP_mono_left fun _ _ ha => by simpa using (of_decide_eq_true ha).trans_lt h

theorem rank_lt_length {x : α} (hx : x ∈ l) : rank f l (f x) < l.length := by
  refine List.countP_lt_length_iff.mpr ⟨x, hx, ?_⟩
  simp

/-- The elements up to a value are those before it and those at it. -/
theorem reach_eq (l : List α) (b : β) :
    reach f l b = rank f l b + l.countP fun a => decide (f a = b) := by
  unfold reach rank
  induction l with
  | nil => rfl
  | cons a l ih =>
    simp only [List.countP_cons, decide_eq_true_eq, ih]
    rcases lt_trichotomy (f a) b with h | h | h
    · rw [if_pos h.le, if_pos h, if_neg h.ne]
      omega
    · rw [if_pos h.le, if_neg h.not_lt, if_pos h]
      omega
    · rw [if_neg h.not_ge, if_neg h.not_gt, if_neg h.ne']
      omega

theorem rank_lt_reach {x : α} (hx : x ∈ l) : rank f l (f x) < reach f l (f x) := by
  have hpos : 0 < l.countP fun a => decide (f a = f x) :=
    List.countP_pos_iff.mpr ⟨x, hx, by simp⟩
  rw [reach_eq]
  omega

theorem reach_eq_rank {b : β} (hb : ∀ x ∈ l, f x ≠ b) : reach f l b = rank f l b := by
  have hzero : (l.countP fun a => decide (f a = b)) = 0 :=
    List.countP_eq_zero.mpr fun x hx => by simpa using hb x hx
  rw [reach_eq, hzero, Nat.add_zero]

/-! ### Sorting -/

section Sorting

variable {s : List α}

/-- In a strictly sorted list the rank of an element is its index. -/
theorem rank_getElem (h : s.Pairwise fun a b => f a < f b) {i : Nat} (hi : i < s.length) :
    rank f s (f s[i]) = i := by
  induction s generalizing i with
  | nil => exact absurd hi (Nat.not_lt_zero i)
  | cons a s ih =>
    obtain ⟨hfirst, hrest⟩ := List.pairwise_cons.mp h
    cases i with
    | zero =>
      refine List.countP_eq_zero.mpr fun b hb => ?_
      rcases List.mem_cons.mp hb with rfl | hb
      · simp
      · simpa using (hfirst b hb).le
    | succ i =>
      have hi' : i < s.length := Nat.lt_of_succ_lt_succ hi
      have hlt : f a < f s[i] := hfirst _ (List.getElem_mem hi')
      have hrank := ih hrest hi'
      unfold rank at hrank ⊢
      rw [List.countP_cons, List.getElem_cons_succ, hrank, if_pos (by simpa using hlt)]

/-- In a strictly sorted list the first elements are those of the least ranks. -/
theorem mem_take_iff (h : s.Pairwise fun a b => f a < f b) {k : Nat} {x : α} :
    x ∈ s.take k ↔ x ∈ s ∧ rank f s (f x) < k := by
  constructor
  · intro hx
    obtain ⟨i, hi, rfl⟩ := List.mem_take_iff_getElem.mp hx
    exact ⟨List.getElem_mem _, by rw [rank_getElem h]; omega⟩
  · rintro ⟨hx, hrank⟩
    obtain ⟨i, hi, rfl⟩ := List.mem_iff_getElem.mp hx
    rw [rank_getElem h hi] at hrank
    exact List.mem_take_iff_getElem.mpr ⟨i, by omega, rfl⟩

variable (f) in
/-- The sort by a value. -/
def sortBy (l : List α) : List α := l.insertionSort fun a b => f a ≤ f b

variable (f) in
theorem sortBy_perm (l : List α) : (sortBy f l).Perm l := List.perm_insertionSort _ l

variable (f) in
/-- What is sorted is in order. -/
theorem sortBy_sorted (l : List α) : (sortBy f l).Pairwise fun a b => f a ≤ f b := by
  have : Std.Total fun a b : α => f a ≤ f b := ⟨fun a b => le_total _ _⟩
  have : IsTrans α fun a b => f a ≤ f b := ⟨fun _ _ _ => le_trans⟩
  exact List.pairwise_insertionSort _ l

/-- Where no two elements have the same value, the sort is strict. -/
theorem sortBy_pairwise (hnodup : (l.map f).Nodup) :
    (sortBy f l).Pairwise fun a b => f a < f b := by
  have hne : (sortBy f l).Pairwise fun a b => f a ≠ f b :=
    List.pairwise_map.mp (((sortBy_perm f l).map f).nodup_iff.mpr hnodup)
  exact (sortBy_sorted f l).imp₂ (fun _ _ hle hne => lt_of_le_of_ne hle hne) hne

/-- The elements a sort puts first are those of the least ranks. -/
theorem mem_take_sortBy (hnodup : (l.map f).Nodup) {k : Nat} {x : α} :
    x ∈ (sortBy f l).take k ↔ x ∈ l ∧ rank f l (f x) < k := by
  rw [mem_take_iff (sortBy_pairwise hnodup), (sortBy_perm f l).mem_iff, rank_perm (sortBy_perm f l)]

/-- A value is below that of the element at an index when no more elements come before it. -/
theorem lt_sortBy_getElem (hnodup : (l.map f).Nodup) {i : Nat} (hi : i < (sortBy f l).length)
    {b : β} (hb : ∀ x ∈ l, f x ≠ b) : b < f (sortBy f l)[i] ↔ rank f l b ≤ i := by
  have hrank : rank f l (f (sortBy f l)[i]) = i := by
    rw [← rank_perm (sortBy_perm f l)]
    exact rank_getElem (sortBy_pairwise hnodup) hi
  have hmem : (sortBy f l)[i] ∈ l := (sortBy_perm f l).mem_iff.mp (List.getElem_mem hi)
  constructor
  · intro hlt
    exact hrank ▸ rank_mono l hlt.le
  · intro hle
    by_contra hnot
    have hlt : f (sortBy f l)[i] < b := lt_of_le_of_ne (not_lt.mp hnot) (hb _ hmem)
    -- the element at the index comes before the value, and not before itself
    have hmore : rank f l (f (sortBy f l)[i]) < rank f l b :=
      (rank_lt_reach hmem).trans_le (reach_le_rank l hlt)
    omega

end Sorting

/-! ### Replacing an element -/

section Exchange

variable {s v : α}

/-- One element has come for another. -/
theorem countP_exchange (h : (s :: l).Perm (v :: l')) (p : α → Bool) :
    l.countP p + (if p s then 1 else 0) = l'.countP p + if p v then 1 else 0 := by
  have hcount := h.countP_eq p
  rwa [List.countP_cons, List.countP_cons] at hcount

/-- How many of the first `k` places are filled up to each of some values. -/
def filled (f : α → β) (k : Nat) (P : Finset β) (l : List α) : Nat := ∑ b ∈ P, min k (reach f l b)

theorem filled_le (k : Nat) (P : Finset β) (l : List α) : filled f k P l ≤ P.card * k :=
  (Finset.sum_le_card_nsmul P _ k fun _ _ => min_le_left _ _).trans_eq (nsmul_eq_mul ..)

/-- Replacing an element that is not among the first `k` leaves the first places filled. -/
theorem filled_le_of_far (h : (s :: l).Perm (v :: l')) {k : Nat} (hv : v ∈ l)
    (hfar : k ≤ rank f l (f v)) (P : Finset β) : filled f k P l ≤ filled f k P l' := by
  refine Finset.sum_le_sum fun b _ => ?_
  have hcount := countP_exchange h fun a => decide (f a ≤ b)
  change reach f l b + _ = reach f l' b + _ at hcount
  simp only [decide_eq_true_eq] at hcount
  by_cases hb : f v ≤ b
  · rw [if_pos hb] at hcount
    have hreach : reach f l (f v) ≤ reach f l b :=
      List.countP_mono_left fun _ _ ha => by simpa using (of_decide_eq_true ha).trans hb
    have hmore := rank_lt_reach (f := f) hv
    omega
  · rw [if_neg hb] at hcount
    omega

/-- Replacing an element by an earlier one that comes among the first `k` fills a place more. -/
theorem filled_lt_of_near (h : (s :: l).Perm (v :: l')) {k : Nat} (hlt : f s < f v)
    (hnear : rank f l (f s) < k) (hnew : ∀ x ∈ l, f x ≠ f s) {P : Finset β} (hs : f s ∈ P) :
    filled f k P l < filled f k P l' := by
  have hcount : ∀ b, reach f l b + (if f s ≤ b then 1 else 0) =
      reach f l' b + if f v ≤ b then 1 else 0 := fun b => by
    have hcount := countP_exchange h fun a => decide (f a ≤ b)
    simp only [decide_eq_true_eq] at hcount
    exact hcount
  refine Finset.sum_lt_sum (fun b _ => ?_) ⟨f s, hs, ?_⟩
  · have hb := hcount b
    by_cases hv : f v ≤ b
    · rw [if_pos hv, if_pos (hlt.le.trans hv)] at hb
      omega
    · rw [if_neg hv] at hb
      omega
  · have hb := hcount (f s)
    rw [if_pos le_rfl, if_neg hlt.not_ge, reach_eq_rank hnew] at hb
    rw [reach_eq_rank hnew]
    omega

/-! ### Even bands -/

variable {γ : Type*} [DecidableEq γ]

/-- How many elements of a list are in a band. -/
def crowd (band : α → γ) (l : List α) (g : γ) : Nat := l.countP fun a => decide (band a = g)

/-- How uneven the bands are: the squares of their counts, summed up. -/
def unevenness (band : α → γ) (G : Finset γ) (l : List α) : Nat := ∑ g ∈ G, crowd band l g ^ 2

/-- A band loses the element that is replaced, and the other one gains. -/
theorem crowd_exchange (h : (s :: l).Perm (v :: l')) (band : α → γ) (g : γ) :
    crowd band l g + (if band s = g then 1 else 0) =
      crowd band l' g + if band v = g then 1 else 0 := by
  have hcount := countP_exchange h fun a => decide (band a = g)
  simp only [decide_eq_true_eq] at hcount
  exact hcount

/-- Replacing an element by one of a band that has two elements less makes the bands more even. -/
theorem unevenness_lt (h : (s :: l).Perm (v :: l')) {band : α → γ} {G : Finset γ}
    (hs : band s ∈ G) (hv : band v ∈ G)
    (hmargin : crowd band l (band s) + 2 ≤ crowd band l (band v)) :
    unevenness band G l' < unevenness band G l := by
  have hne : band s ≠ band v := fun heq => by
    rw [heq] at hmargin
    omega
  have hpoint : ∀ g, crowd band l' g ^ 2 + (if band v = g then 2 * crowd band l g else 0) =
      crowd band l g ^ 2 + ((if band s = g then 2 * crowd band l g + 1 else 0)
        + if band v = g then 1 else 0) := fun g => by
    have hcount := crowd_exchange h band g
    by_cases hsg : band s = g
    · have hvg : band v ≠ g := fun hvg => hne (hsg.trans hvg.symm)
      rw [if_pos hsg, if_neg hvg] at hcount
      rw [if_neg hvg, if_pos hsg, if_neg hvg, ← show crowd band l g + 1 = crowd band l' g by omega]
      ring
    · rw [if_neg hsg] at hcount
      by_cases hvg : band v = g
      · rw [if_pos hvg] at hcount
        rw [if_pos hvg, if_neg hsg, if_pos hvg, show crowd band l g = crowd band l' g + 1 by omega]
        ring
      · rw [if_neg hvg] at hcount
        rw [if_neg hvg, if_neg hsg, if_neg hvg, show crowd band l' g = crowd band l g by omega]
  have hsum := Finset.sum_congr (rfl : G = G) fun g _ => hpoint g
  rw [Finset.sum_add_distrib, Finset.sum_add_distrib, Finset.sum_add_distrib,
    Finset.sum_ite_eq, Finset.sum_ite_eq, Finset.sum_ite_eq, if_pos hs, if_pos hv, if_pos hv]
    at hsum
  unfold unevenness
  omega

end Exchange

end Axona.Library
