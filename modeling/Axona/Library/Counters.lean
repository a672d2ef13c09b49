import Mathlib.Algebra.Order.BigOperators.Group.List
import Mathlib.Algebra.Order.Ring.Nat
import Mathlib.Data.List.Perm.Subperm
import Axona.Library.OrderedMap

/-! # Books kept by counters

A store that bounds what it holds keeps books beside its entries: the sum of the sizes, and how
many entries each owner and each group has. A counter is written when an entry comes and when one
goes, so it may drift from what it counts. This file says when books are `Balanced` against a list
of items, and that the two writes keep them so. -/

namespace Axona.Library

variable {κ α β : Type*} [DecidableEq κ] [DecidableEq α] [DecidableEq β]

/-! ### Counters -/

/-- Counters under keys. `none` is a counter that is no number any more. -/
abbrev Counters (κ : Type*) := OrderedMap κ (Option Int)

namespace Counters

/-- The count under a key. One that is missing, or no number, reads zero. -/
def count (m : Counters κ) (k : κ) : Int := (m.get k).join.getD 0

/-- One more. -/
def inc (m : Counters κ) (k : κ) : Counters κ := m.set k (some (m.count k + 1))

/-- One less. A counter that comes to zero goes, and a missing one has no number to count from. -/
def dec (m : Counters κ) (k : κ) : Counters κ :=
  match (m.get k).join with
  | none => m.set k none
  | some c => if c - 1 ≤ 0 then m.delete k else m.set k (some (c - 1))

end Counters

/-- The counters say how often each key is in `l`, and hold no zero. -/
def Counts (m : Counters κ) (l : List κ) : Prop :=
  ∀ k, m.get k = if l.count k = 0 then none else some (some (l.count k : Int))

namespace Counts

variable {m : Counters κ} {l l' : List κ} {k : κ}

theorem nil : Counts (∅ : Counters κ) [] := fun _ => rfl

theorem perm (h : Counts m l) (hp : l.Perm l') : Counts m l' := by
  intro k
  rw [h k, hp.count_eq]

/-- **What a counter reads.** -/
theorem count_eq (h : Counts m l) (k : κ) : m.count k = l.count k := by
  unfold Counters.count
  rw [h k]
  split
  next h0 =>
    rw [h0]
    rfl
  · rfl

/-- **What has a count** is what is in the list. -/
theorem mem_iff (h : Counts m l) (k : κ) : k ∈ l ↔ ∃ c : Int, m.get k = some (some c) ∧ 0 < c := by
  rw [h k, ← List.count_pos_iff]
  split
  next h0 => simp [h0]
  next h0 => exact ⟨fun hpos => ⟨_, rfl, by exact_mod_cast hpos⟩, fun _ => Nat.pos_of_ne_zero h0⟩

theorem inc (h : Counts m l) : Counts (m.inc k) (k :: l) := by
  intro j
  unfold Counters.inc
  rw [OrderedMap.get_set, h.count_eq]
  by_cases hj : j = k
  · subst hj
    rw [if_pos rfl, List.count_cons_self, if_neg (by omega)]
    push_cast
    rfl
  · rw [if_neg hj, h j, List.count_cons_of_ne (Ne.symm hj)]

theorem dec (h : Counts m (k :: l)) : Counts (m.dec k) l := by
  intro j
  have hk : (m.get k).join = some ((l.count k : Int) + 1) := by
    rw [h k, List.count_cons_self, if_neg (by omega)]
    push_cast
    rfl
  have hne : j ≠ k → m.get j = if l.count j = 0 then none else some (some (l.count j : Int)) := by
    intro hj
    rw [h j, List.count_cons_of_ne (Ne.symm hj)]
  unfold Counters.dec
  rw [hk]
  simp only []
  split
  next hlast =>
    -- it was the last one under its key
    rw [OrderedMap.get_delete]
    by_cases hj : j = k
    · subst hj
      rw [if_pos rfl, if_pos (by omega)]
    · rw [if_neg hj, hne hj]
  next hlast =>
  rw [OrderedMap.get_set]
  by_cases hj : j = k
  · subst hj
    rw [if_pos rfl, if_neg (by omega), add_sub_cancel_right]
  · rw [if_neg hj, hne hj]

end Counts

/-! ### Books -/

/-- What the books say of one entry. -/
structure Booked (α β : Type*) where
  owner : α
  group : β
  size : Nat

/-- **The books say of the items what a recount would.** -/
structure Balanced (size : Int) (owners : Counters α) (groups : Counters β)
    (l : List (Booked α β)) : Prop where
  size : size = (l.map Booked.size).sum
  owners : Counts owners (l.map Booked.owner)
  groups : Counts groups (l.map Booked.group)

namespace Balanced

variable {size : Int} {owners : Counters α} {groups : Counters β} {l l' : List (Booked α β)}
  {x : Booked α β}

theorem nil : Balanced 0 (∅ : Counters α) (∅ : Counters β) [] :=
  ⟨by simp, .nil, .nil⟩

theorem perm (h : Balanced size owners groups l) (hp : l.Perm l') :
    Balanced size owners groups l' := by
  refine ⟨?_, h.owners.perm (hp.map _), h.groups.perm (hp.map _)⟩
  rw [h.size, (hp.map Booked.size).sum_eq]

/-- **An entry comes.** -/
theorem add (h : Balanced size owners groups l) :
    Balanced (size + x.size) (owners.inc x.owner) (groups.inc x.group) (x :: l) := by
  refine ⟨?_, h.owners.inc, h.groups.inc⟩
  rw [h.size, List.map_cons, List.sum_cons]
  push_cast
  omega

/-- **An entry goes.** -/
theorem drop (h : Balanced size owners groups (x :: l)) :
    Balanced (size - x.size) (owners.dec x.owner) (groups.dec x.group) l := by
  refine ⟨?_, h.owners.dec, h.groups.dec⟩
  rw [h.size, List.map_cons, List.sum_cons]
  push_cast
  omega

end Balanced

/-! ### Caps -/

/-- The bounds of a store. -/
structure Caps where
  count : Nat
  size : Nat
  perOwner : Nat
  perGroup : Nat
deriving DecidableEq, Repr

/-- **The items keep within the bounds.** -/
structure Within (caps : Caps) (l : List (Booked α β)) : Prop where
  count : l.length ≤ caps.count
  size : (l.map Booked.size).sum ≤ caps.size
  owners : ∀ k, (l.map Booked.owner).count k ≤ caps.perOwner
  groups : ∀ k, (l.map Booked.group).count k ≤ caps.perGroup

namespace Within

variable {caps : Caps} {l l' : List (Booked α β)} {x : Booked α β}

theorem nil : Within caps ([] : List (Booked α β)) :=
  ⟨Nat.zero_le _, Nat.zero_le _, fun _ => Nat.zero_le _, fun _ => Nat.zero_le _⟩

/-- Fewer items keep within the same bounds. -/
theorem anti (h : Within caps l) (hs : l'.Subperm l) : Within caps l' := by
  obtain ⟨s, hp, hsub⟩ := hs
  refine ⟨?_, ?_, fun k => ?_, fun k => ?_⟩
  · rw [← hp.length_eq]
    exact le_trans hsub.length_le h.count
  · rw [← (hp.map Booked.size).sum_eq]
    exact le_trans ((hsub.map Booked.size).sum_le_sum fun _ _ => Nat.zero_le _) h.size
  · rw [← (hp.map Booked.owner).count_eq]
    exact le_trans ((hsub.map Booked.owner).count_le k) (h.owners k)
  · rw [← (hp.map Booked.group).count_eq]
    exact le_trans ((hsub.map Booked.group).count_le k) (h.groups k)

/-- **An entry comes for which there is room.** -/
theorem add (h : Within caps l) (hcount : l.length < caps.count)
    (hsize : (l.map Booked.size).sum + x.size ≤ caps.size)
    (howner : (l.map Booked.owner).count x.owner < caps.perOwner)
    (hgroup : (l.map Booked.group).count x.group < caps.perGroup) : Within caps (x :: l) := by
  refine ⟨hcount, ?_, fun k => ?_, fun k => ?_⟩
  · rw [List.map_cons, List.sum_cons]
    omega
  · rw [List.map_cons]
    by_cases hk : x.owner = k
    · subst hk
      rw [List.count_cons_self]
      exact howner
    · rw [List.count_cons_of_ne hk]
      exact h.owners k
  · rw [List.map_cons]
    by_cases hk : x.group = k
    · subst hk
      rw [List.count_cons_self]
      exact hgroup
    · rw [List.count_cons_of_ne hk]
      exact h.groups k

end Within

end Axona.Library
