import Axona.Library.OrderedMap

/-! # The last value under each key

A map that holds, under each key, the value that was last written down in a log, and a rule between
a value and the one before it under its key. Whoever looks the last value up and asks for the rule
before writing the next one down keeps the rule all along the log. -/

namespace Axona.Library

open OrderedMap

variable {κ ν : Type*} [DecidableEq κ] {R : ν → ν → Prop} {m : OrderedMap κ ν}
  {log : List (κ × ν)} {k : κ} {u v : ν}

/-- The last value written down under a key. A log has its newest entry first. -/
def lastOf (k : κ) : List (κ × ν) → Option ν
  | [] => none
  | x :: log => if x.1 = k then some x.2 else lastOf k log

theorem mem_of_lastOf (h : lastOf k log = some u) : (k, u) ∈ log := by
  induction log with
  | nil => cases h
  | cons x log ih =>
    rw [lastOf] at h
    split at h
    next hx =>
      cases h
      rw [← hx]
      exact List.mem_cons_self
    · exact List.mem_cons_of_mem x (ih h)

/-- Each entry is `R` of the one before it under its key. -/
def Follows (R : ν → ν → Prop) : List (κ × ν) → Prop
  | [] => True
  | x :: log => (∀ u ∈ lastOf x.1 log, R u x.2) ∧ Follows R log

/-- The map holds what was last written down, and the log follows the rule. -/
structure Tracks (R : ν → ν → Prop) (m : OrderedMap κ ν) (log : List (κ × ν)) : Prop where
  latest : ∀ k, m.get k = lastOf k log
  follows : Follows R log

theorem tracks_nil : Tracks R (∅ : OrderedMap κ ν) [] := ⟨fun _ => rfl, trivial⟩

/-- **A value that suits the last one may be written down.** -/
theorem Tracks.set (h : Tracks R m log) (hR : ∀ u ∈ m.get k, R u v) :
    Tracks R (m.set k v) ((k, v) :: log) where
  latest k' := by
    rw [get_set, lastOf, ← h.latest k']
    by_cases hk : k' = k
    · rw [if_pos hk, if_pos hk.symm]
    · rw [if_neg hk, if_neg (Ne.symm hk)]
  follows := by
    refine ⟨?_, h.follows⟩
    rw [← h.latest]
    exact hR

/-- What is in a log is its last value under the key, or the rule leads from it to that one. -/
theorem Follows.le_last [IsTrans ν R] (h : Follows R log) (hv : (k, v) ∈ log) :
    ∃ u ∈ lastOf k log, v = u ∨ R v u := by
  induction log with
  | nil => cases hv
  | cons x log ih =>
    rw [lastOf]
    split
    next hx =>
      refine ⟨x.2, rfl, ?_⟩
      rcases List.mem_cons.mp hv with rfl | hv
      · exact .inl rfl
      · obtain ⟨u, hu, hvu⟩ := ih h.2 hv
        have hux : R u x.2 := h.1 u (by rwa [hx])
        rcases hvu with rfl | hvu
        · exact .inr hux
        · exact .inr (IsTrans.trans v u x.2 hvu hux)
    next hx =>
      rcases List.mem_cons.mp hv with rfl | hv
      · exact absurd rfl hx
      · exact ih h.2 hv

/-- **A transitive rule holds between any two entries of one key.** -/
theorem Follows.pairwise [IsTrans ν R] (h : Follows R log) :
    log.Pairwise fun x y => x.1 = y.1 → R y.2 x.2 := by
  induction log with
  | nil => exact .nil
  | cons x log ih =>
    refine .cons (fun y hy hxy => ?_) (ih h.2)
    obtain ⟨u, hu, hyu⟩ := h.2.le_last (k := y.1) (v := y.2) hy
    have hux : R u x.2 := h.1 u (by rwa [hxy])
    rcases hyu with heq | hyu
    · rwa [heq]
    · exact IsTrans.trans y.2 u x.2 hyu hux

end Axona.Library
