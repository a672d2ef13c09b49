import Mathlib.Order.OrderIsoNat

/-! # Endless runs

A run that never ends takes one label at a time from a sequence. A measure in a well-founded order
that no step raises is lowered by finitely many of its steps. -/

namespace Axona.Library

variable {σ ε : Type*} {step : σ → ε → σ}

/-- The state after the first labels of a sequence. -/
def along (step : σ → ε → σ) (s : σ) (as : ℕ → ε) : ℕ → σ
  | 0 => s
  | n + 1 => step (along step s as n) (as n)

variable {s : σ} {as : ℕ → ε}

@[simp] theorem along_succ (n : ℕ) :
    along step s as (n + 1) = step (along step s as n) (as n) := rfl

/-- What each guarded step preserves holds all along a guarded run. -/
theorem along_invariant {I : σ → Prop} {C : ε → Prop}
    (hstep : ∀ s a, I s → C a → I (step s a)) (hs : I s) (hC : ∀ n, C (as n)) (n : ℕ) :
    I (along step s as n) := by
  induction n with
  | zero => exact hs
  | succ n ih => exact hstep _ _ ih (hC n)

/-- **The descent rule.** Only finitely many steps lower a measure that no step raises. -/
theorem finite_of_descent {α : Type*} [PartialOrder α] [WellFoundedLT α] (μ : σ → α)
    {I : σ → Prop} {C : ε → Prop} {P : σ → ε → Prop} (hstep : ∀ s a, I s → C a → I (step s a))
    (hle : ∀ s a, I s → C a → μ (step s a) ≤ μ s)
    (hlt : ∀ s a, I s → C a → P s a → μ (step s a) < μ s) (hs : I s) (hC : ∀ n, C (as n)) :
    {n | P (along step s as n) (as n)}.Finite := by
  have hI := along_invariant hstep hs hC
  have hanti : Antitone fun n => μ (along step s as n) :=
    antitone_nat_of_succ_le fun n => hle _ _ (hI n) (hC n)
  obtain ⟨N, hN⟩ := WellFoundedLT.antitone_chain_condition hanti
  refine (Set.finite_lt_nat N).subset fun n hn => ?_
  by_contra hge
  -- the measure does not change any more
  have hn' : N ≤ n := not_lt.mp hge
  have hdrop := hlt _ _ (hI n) (hC n) hn
  have hsame : μ (along step s as (n + 1)) = μ (along step s as n) :=
    (hN (n + 1) (hn'.trans n.le_succ)).symm.trans (hN n hn')
  exact absurd hsame hdrop.ne

end Axona.Library
