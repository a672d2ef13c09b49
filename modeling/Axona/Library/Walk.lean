import Mathlib.Data.List.Basic

/-! # Walks that do not come back soon

A walk is the list of the places it was at, the last one first. A walker that remembers the last
`m` places, and never goes to one of them, makes no cycle of `m` or fewer steps. The place it goes
to next is picked by a fold over those it may go to. -/

namespace Axona.Library

variable {α : Type*} {m : Nat}

/-! ### Picking a place -/

/-- A fold that keeps its choice or takes the next element ends with the choice it began with, or
with an element of the list. -/
theorem foldl_picks {β : Type*} {T : α → β → Prop} {f : β → α → β} {l : List α} {b r : β}
    (h : l.foldl f b = r) (hf : ∀ b x, f b x = b ∨ T x (f b x)) : r = b ∨ ∃ x ∈ l, T x r := by
  induction l generalizing b with
  | nil => exact .inl h.symm
  | cons x l ih =>
    rw [List.foldl_cons] at h
    rcases ih h with rfl | ⟨y, hy, htaken⟩
    · rcases hf b x with hkept | htaken
      · exact .inl hkept
      · exact .inr ⟨x, List.mem_cons_self, htaken⟩
    · exact .inr ⟨y, List.mem_cons_of_mem x hy, htaken⟩

/-! ### Short cycles -/

/-- Each place of the walk was reached with none of the `m` before it the same. -/
def NoShortCycle (m : Nat) : List α → Prop
  | [] => True
  | x :: walk => x ∉ walk.take m ∧ NoShortCycle m walk

@[simp] theorem noShortCycle_cons (x : α) (walk : List α) :
    NoShortCycle m (x :: walk) ↔ x ∉ walk.take m ∧ NoShortCycle m walk := Iff.rfl

theorem noShortCycle_singleton (x : α) : NoShortCycle m [x] := by
  rw [noShortCycle_cons, List.take_nil]
  exact ⟨List.not_mem_nil, trivial⟩

/-- **No short cycle.** Two places of the walk that are at most `m` steps apart are not the same. -/
theorem NoShortCycle.ne {walk : List α} (h : NoShortCycle m walk) {i k : Nat} (hk : k < m) {x y : α}
    (hx : walk[i]? = some x) (hy : walk[i + k + 1]? = some y) : x ≠ y := by
  induction walk generalizing i with
  | nil => cases hx
  | cons z walk ih =>
    cases i with
    | zero =>
      rintro rfl
      obtain rfl : z = x := Option.some.inj hx
      rw [Nat.zero_add, List.getElem?_cons_succ] at hy
      refine h.1 (List.mem_of_getElem? (i := k) ?_)
      rw [List.getElem?_take_of_lt hk]
      exact hy
    | succ i =>
      rw [List.getElem?_cons_succ] at hx
      have hshift : i + 1 + k + 1 = (i + k + 1) + 1 := by omega
      rw [hshift, List.getElem?_cons_succ] at hy
      exact ih h.2 hx hy

/-- The last `n` places of a walk written in the order it took are the first `n` of the walk. -/
theorem drop_reverse_take (n : Nat) (walk : List α) :
    walk.reverse.drop (walk.length - n) = (walk.take n).reverse := by
  rw [List.drop_reverse]
  congr 1
  rcases Nat.le_total n walk.length with h | h
  · rw [Nat.sub_sub_self h]
  · rw [Nat.sub_eq_zero_of_le h, Nat.sub_zero, List.take_length, List.take_of_length_le h]

end Axona.Library
