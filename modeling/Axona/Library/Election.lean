import Mathlib.Data.Prod.Lex

/-! # Claims to a seat

Several members claim one seat. A claim names its member and the *incarnation* under which the
seat is claimed, a number that is positive once the member numbers its claims. Between two
numbered claims the higher incarnation wins; between equal ones, and whenever one of the two is
not numbered, the member at the smaller distance wins. On numbered claims this is the
lexicographic order of (incarnation downwards, distance upwards), so exactly one of two claims
at different distances wins; with an unnumbered claim among three, it need not be transitive. -/

namespace Axona.Library

/-- A claim to the seat: who claims it, and under which incarnation (`0`: none given). -/
structure Claim (ι : Type*) where
  /-- The claiming member. -/
  id : ι
  /-- The incarnation, positive when the claim is numbered. -/
  epoch : Int
deriving DecidableEq, Repr

namespace Claim

variable {ι : Type*} {dist : ι → Nat} {a b c : Claim ι}

/-- A claim that gives its incarnation. -/
def Versioned (a : Claim ι) : Prop := 0 < a.epoch

/-- **The election relation.** `a` wins over `b`: by incarnation where both give one and they
differ, by distance otherwise. -/
def Beats (dist : ι → Nat) (a b : Claim ι) : Prop :=
  if 0 < a.epoch ∧ 0 < b.epoch ∧ a.epoch ≠ b.epoch then b.epoch < a.epoch
  else dist a.id < dist b.id

theorem beats_of_epoch_ne (ha : a.Versioned) (hb : b.Versioned) (h : a.epoch ≠ b.epoch) :
    Beats dist a b ↔ b.epoch < a.epoch := by
  rw [Beats, if_pos ⟨ha, hb, h⟩]

theorem beats_of_epoch_eq (h : a.epoch = b.epoch) : Beats dist a b ↔ dist a.id < dist b.id := by
  rw [Beats, if_neg (fun h' => h'.2.2 h)]

theorem beats_of_unversioned (h : ¬ a.Versioned ∨ ¬ b.Versioned) :
    Beats dist a b ↔ dist a.id < dist b.id := by
  have hn : ¬ (0 < a.epoch ∧ 0 < b.epoch ∧ a.epoch ≠ b.epoch) := by
    rintro ⟨h₁, h₂, -⟩
    exact h.elim (fun h' => h' h₁) (fun h' => h' h₂)
  rw [Beats, if_neg hn]

/-- Of two claims at most one wins over the other. -/
theorem Beats.asymm (h : Beats dist a b) : ¬ Beats dist b a := by
  unfold Beats at h ⊢
  split at h <;> split <;> omega

/-- Of two claims at different distances one wins over the other. -/
theorem beats_total (h : dist a.id ≠ dist b.id) : Beats dist a b ∨ Beats dist b a := by
  unfold Beats
  split <;> split <;> omega

/-- **Numbered claims are ordered lexicographically**: incarnation downwards, then distance. -/
theorem beats_iff_lex (ha : a.Versioned) (hb : b.Versioned) : Beats dist a b ↔
      toLex (-a.epoch, (dist a.id : Int)) < toLex (-b.epoch, (dist b.id : Int)) := by
  rw [Prod.Lex.toLex_lt_toLex]
  by_cases h : a.epoch = b.epoch
  · rw [beats_of_epoch_eq h]
    simp [h]
  · rw [beats_of_epoch_ne ha hb h]
    simp [h]

/-- Winning is transitive on numbered claims. -/
theorem Beats.trans (ha : a.Versioned) (hb : b.Versioned) (hc : c.Versioned)
    (hab : Beats dist a b) (hbc : Beats dist b c) : Beats dist a c := by
  rw [beats_iff_lex ha hb] at hab
  rw [beats_iff_lex hb hc] at hbc
  rw [beats_iff_lex ha hc]
  exact hab.trans hbc

end Claim

end Axona.Library
