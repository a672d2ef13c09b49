import Mathlib.Logic.Relation

/-! # Labelled transition functions and their runs

A system that takes one label at a time is a function `step : σ → ε → σ`. This file develops
its runs: `run` folds a list of labels, `EachStep` says what holds of every step taken along
the way, and the rules below turn a fact about one step into a fact about whole runs. A run
may be *guarded* (`EachStep step C`): then the step fact is only needed where the guard `C`
holds of the state before the step and its label. `Throughout` is about the states instead: what
holds of every one of them.

The second half is about a step made of several small moves (`Relation.ReflTransGen`): an
invariant, or a preorder between states, that every move respects is respected by the step. -/

namespace Axona.Library

variable {σ ε : Type*} {step : σ → ε → σ}

/-! ### Runs -/

/-- The state after the labels `as` are taken one after the other from `s`. -/
def run (step : σ → ε → σ) (s : σ) (as : List ε) : σ := as.foldl step s

@[simp] theorem run_nil (s : σ) : run step s [] = s := rfl

@[simp] theorem run_cons (s : σ) (a : ε) (as : List ε) :
    run step s (a :: as) = run step (step s a) as := rfl

@[simp] theorem run_append (s : σ) (as bs : List ε) :
    run step s (as ++ bs) = run step (run step s as) bs := by
  simp [run, List.foldl_append]

/-- **Every step of a run.** `EachStep step R s as` holds when `R` relates the state before
each step of the run of `as` from `s` to the label of that step. -/
def EachStep (step : σ → ε → σ) (R : σ → ε → Prop) : σ → List ε → Prop
  | _, [] => True
  | s, a :: as => R s a ∧ EachStep step R (step s a) as

@[simp] theorem eachStep_nil (R : σ → ε → Prop) (s : σ) : EachStep step R s [] := trivial

@[simp] theorem eachStep_cons (R : σ → ε → Prop) (s : σ) (a : ε) (as : List ε) :
    EachStep step R s (a :: as) ↔ R s a ∧ EachStep step R (step s a) as := Iff.rfl

/-- A guard that can be decided step by step can be decided for a whole run. -/
instance EachStep.decidable (R : σ → ε → Prop) [∀ s a, Decidable (R s a)] :
    ∀ (s : σ) (as : List ε), Decidable (EachStep step R s as)
  | _, [] => isTrue trivial
  | s, a :: as =>
    haveI := EachStep.decidable R (step s a) as
    inferInstanceAs (Decidable (R s a ∧ EachStep step R (step s a) as))

/-- A run split in two: every step of the whole is a step of one of the parts. -/
theorem eachStep_append (R : σ → ε → Prop) (s : σ) (as bs : List ε) :
    EachStep step R s (as ++ bs) ↔ EachStep step R s as ∧ EachStep step R (run step s as) bs := by
  induction as generalizing s with
  | nil => simp
  | cons a as ih => simp [ih, and_assoc]

/-- A guard on the labels alone. -/
theorem EachStep.of_forall {L : ε → Prop} {s : σ} {as : List ε} (h : ∀ a ∈ as, L a) :
    EachStep step (fun _ a => L a) s as := by
  induction as generalizing s with
  | nil => trivial
  | cons a as ih =>
    exact ⟨h a List.mem_cons_self, ih fun a' ha' => h a' (List.mem_cons_of_mem a ha')⟩

variable {I : σ → Prop} {C : σ → ε → Prop} {s : σ} {as : List ε}

/-- **The invariant rule.** What each guarded step preserves, a guarded run preserves. -/
theorem EachStep.invariant (hstep : ∀ s a, I s → C s a → I (step s a)) (hs : I s)
    (hrun : EachStep step C s as) : I (run step s as) := by
  induction as generalizing s with
  | nil => exact hs
  | cons a as ih => exact ih (hstep s a hs hrun.1) hrun.2

variable {Q : σ → ε → Prop}

/-- **The safety rule.** If an invariant is preserved by every guarded step and makes every
guarded step satisfy `Q`, then every step of a guarded run satisfies `Q`. -/
theorem EachStep.safety (hstep : ∀ s a, I s → C s a → I (step s a))
    (hQ : ∀ s a, I s → C s a → Q s a) (hs : I s) (hrun : EachStep step C s as) :
    EachStep step Q s as := by
  induction as generalizing s with
  | nil => trivial
  | cons a as ih => exact ⟨hQ s a hs hrun.1, ih (hstep s a hs hrun.1) hrun.2⟩

/-- **The progress rule.** What a marked step brings about and every guarded step keeps holds at the
end of a guarded run with a marked step in it. -/
theorem EachStep.reaches {S : σ → Prop} {B : ε → Prop} (hstep : ∀ s a, I s → C s a → I (step s a))
    (hkeep : ∀ s a, I s → C s a → S s → S (step s a))
    (hmark : ∀ s a, I s → C s a → B a → S (step s a)) (hs : I s) (hrun : EachStep step C s as)
    (hB : ∃ a ∈ as, B a) : S (run step s as) := by
  induction as generalizing s with
  | nil =>
    obtain ⟨a, ha, -⟩ := hB
    cases ha
  | cons a as ih =>
    have hI := hstep s a hs hrun.1
    obtain ⟨a', ha', hBa⟩ := hB
    rcases List.mem_cons.mp ha' with rfl | hmem
    · have hkept := EachStep.invariant (I := fun s => I s ∧ S s)
        (fun s a h hC => ⟨hstep s a h.1 hC, hkeep s a h.1 hC h.2⟩)
        ⟨hI, hmark s a' hs hrun.1 hBa⟩ hrun.2
      exact hkept.2
    · exact ih hI hrun.2 ⟨a', hmem, hBa⟩

variable {P : σ → Prop}

/-- **The exactness rule.** If a step keeps `P` exactly when it satisfies `C`, then a run keeps it
exactly when each of its steps does. -/
theorem EachStep.exact (hstep : ∀ s a, I s → I (step s a))
    (hP : ∀ s a, I s → (P (step s a) ↔ P s ∧ C s a)) (hs : I s) (as : List ε) :
    P (run step s as) ↔ P s ∧ EachStep step C s as := by
  induction as generalizing s with
  | nil => exact (and_iff_left trivial).symm
  | cons a as ih => rw [run_cons, ih (hstep s a hs), hP s a hs, eachStep_cons, and_assoc]

/-- **The equivalence rule.** Two conditions that agree wherever the invariant holds are met by the
same runs. -/
theorem eachStep_congr (hstep : ∀ s a, I s → I (step s a)) (h : ∀ s a, I s → (Q s a ↔ C s a))
    (hs : I s) (as : List ε) :
    EachStep step Q s as ↔ EachStep step C s as := by
  induction as generalizing s with
  | nil => exact Iff.rfl
  | cons a as ih => rw [eachStep_cons, eachStep_cons, h s a hs, ih (hstep s a hs)]

/-- The equivalence rule, where it is the condition that keeps the invariant. Only the labels the run
is made of need obey. -/
theorem EachStep.agree_iff_of_labels {L : ε → Prop}
    (hstep : ∀ s a, L a → I s → C s a → I (step s a)) (h : ∀ s a, L a → I s → (Q s a ↔ C s a))
    (hs : I s) (hL : ∀ a ∈ as, L a) : EachStep step Q s as ↔ EachStep step C s as := by
  induction as generalizing s with
  | nil => exact Iff.rfl
  | cons a as ih =>
    have ha := hL a List.mem_cons_self
    have hrest : ∀ a' ∈ as, L a' := fun a' ha' => hL a' (List.mem_cons_of_mem a ha')
    rw [eachStep_cons, eachStep_cons, h s a ha hs]
    exact and_congr_right fun hC => ih (hstep s a ha hs hC) hrest

/-- The equivalence rule, where it is the condition that keeps the invariant, for all labels. -/
theorem EachStep.agree_iff (hstep : ∀ s a, I s → C s a → I (step s a))
    (h : ∀ s a, I s → (Q s a ↔ C s a)) (hs : I s) (as : List ε) :
    EachStep step Q s as ↔ EachStep step C s as :=
  EachStep.agree_iff_of_labels (L := fun _ => True) (fun s a _ => hstep s a) (fun s a _ => h s a) hs
    fun _ _ => trivial

/-- **The first-breach rule.** If what holds of a state goes on to hold after a step exactly when
the step satisfies `C`, then it holds in every state of a run exactly when every step satisfies
`C`. Only the labels the run is made of need obey. -/
theorem EachStep.keeps_iff_of_labels {L : ε → Prop} (hstep : ∀ s a, I s → I (step s a))
    (h : ∀ s a, L a → I s → P s → (P (step s a) ↔ C s a)) (hI : I s) (hs : P s)
    (hL : ∀ a ∈ as, L a) : EachStep step (fun s a => P (step s a)) s as ↔ EachStep step C s as := by
  induction as generalizing s with
  | nil => exact Iff.rfl
  | cons a as ih =>
    rw [eachStep_cons, eachStep_cons, ← h s a (hL a List.mem_cons_self) hI hs]
    have hrest : ∀ a' ∈ as, L a' := fun a' ha' => hL a' (List.mem_cons_of_mem a ha')
    exact and_congr_right fun hs' => ih (hstep s a hI) hs' hrest

/-- The first-breach rule for all labels. -/
theorem EachStep.keeps_iff (hstep : ∀ s a, I s → I (step s a))
    (h : ∀ s a, I s → P s → (P (step s a) ↔ C s a)) (hI : I s) (hs : P s) (as : List ε) :
    EachStep step (fun s a => P (step s a)) s as ↔ EachStep step C s as :=
  EachStep.keeps_iff_of_labels (L := fun _ => True) hstep (fun s a _ => h s a) hI hs
    fun _ _ => trivial

/-- The first-breach rule without an invariant. -/
theorem eachStep_keeps_iff (h : ∀ s a, P s → (P (step s a) ↔ C s a)) (hs : P s) (as : List ε) :
    EachStep step (fun s a => P (step s a)) s as ↔ EachStep step C s as :=
  EachStep.keeps_iff (I := fun _ => True) (fun _ _ _ => trivial) (fun s a _ => h s a) trivial hs as

/-- The invariant rule without a guard. -/
theorem run_invariant (hstep : ∀ s a, I s → I (step s a)) (hs : I s) (as : List ε) :
    I (run step s as) := by
  induction as generalizing s with
  | nil => exact hs
  | cons a as ih => exact ih (hstep s a hs)

/-- The safety rule without a guard. -/
theorem run_safety (hstep : ∀ s a, I s → I (step s a)) (hQ : ∀ s a, I s → Q s a) (hs : I s)
    (as : List ε) : EachStep step Q s as := by
  induction as generalizing s with
  | nil => trivial
  | cons a as ih => exact ⟨hQ s a hs, ih (hstep s a hs)⟩

/-- **The monotonicity rule.** A preorder that every step of a run climbs is climbed by the
whole run. -/
theorem run_climbs {P : σ → σ → Prop} (hrefl : ∀ s, P s s)
    (htrans : ∀ {a b c}, P a b → P b c → P a c) (hstep : ∀ s a, P s (step s a)) (s : σ)
    (as : List ε) : P s (run step s as) := by
  induction as generalizing s with
  | nil => exact hrefl s
  | cons a as ih => exact htrans (hstep s a) (ih (step s a))

/-- **The rule of the doomed.** If a step that is right but not guarded dooms the state, what is
doomed stays so through right steps, and nothing doomed is final, then the steps of a right run that
ends in a final state were guarded. -/
theorem EachStep.of_doomed {R : σ → ε → Prop} {D F : σ → Prop}
    (hkeep : ∀ s a, D s → R s a → D (step s a)) (hdoom : ∀ s a, R s a → ¬C s a → D (step s a))
    (hfinal : ∀ s, F s → ¬D s) (hrun : EachStep step R s as) (hF : F (run step s as)) :
    EachStep step C s as := by
  induction as generalizing s with
  | nil => trivial
  | cons a as ih =>
    refine ⟨Classical.byContradiction fun hnot => ?_, ih hrun.2 hF⟩
    have hend := EachStep.invariant hkeep (hdoom s a hrun.1 hnot) hrun.2
    exact hfinal _ hF hend

/-! ### Counted steps -/

/-- How many steps of the run of `as` from `s` the test picks out. -/
def stepCount (step : σ → ε → σ) (p : σ → ε → Bool) : σ → List ε → Nat
  | _, [] => 0
  | s, a :: as => (if p s a then 1 else 0) + stepCount step p (step s a) as

/-- **The counting rule.** A measure that no step lowers, and that every counted step raises unless
it has come to `b`, is raised by as much as is counted, or comes to `b`. -/
theorem min_le_run {p : σ → ε → Bool} {f : σ → Nat} {b : Nat} (hstep : ∀ s a, I s → I (step s a))
    (hmono : ∀ s a, I s → f s ≤ f (step s a))
    (hcount : ∀ s a, I s → p s a = true → f s + 1 ≤ f (step s a) ∨ b ≤ f s) (hs : I s)
    (as : List ε) : min b (f s + stepCount step p s as) ≤ f (run step s as) := by
  induction as generalizing s with
  | nil => exact Nat.min_le_right _ _
  | cons a as ih =>
    have hrest := ih (hstep s a hs)
    have hle := hmono s a hs
    rw [run_cons]
    cases hp : p s a with
    | false =>
      simp only [stepCount, hp, Bool.false_eq_true, if_false]
      omega
    | true =>
      simp only [stepCount, hp, if_true]
      rcases hcount s a hs hp with hup | hb <;> omega

/-! ### What holds throughout a run -/

/-- **Every state of a run.** `Throughout step P s as` holds when `P` holds of each state the run of
`as` from `s` goes through, the first and the last among them. -/
def Throughout (step : σ → ε → σ) (P : σ → Prop) : σ → List ε → Prop
  | s, [] => P s
  | s, a :: as => P s ∧ Throughout step P (step s a) as

@[simp] theorem throughout_cons (P : σ → Prop) (s : σ) (a : ε) (as : List ε) :
    Throughout step P s (a :: as) ↔ P s ∧ Throughout step P (step s a) as := Iff.rfl

instance Throughout.decidable (P : σ → Prop) [DecidablePred P] :
    ∀ (s : σ) (as : List ε), Decidable (Throughout step P s as)
  | s, [] => inferInstanceAs (Decidable (P s))
  | s, a :: as =>
    haveI := Throughout.decidable P (step s a) as
    inferInstanceAs (Decidable (P s ∧ Throughout step P (step s a) as))

theorem Throughout.first (h : Throughout step P s as) : P s := by
  cases as with
  | nil => exact h
  | cons a as => exact h.1

/-- A run split in two: the state between the parts belongs to both. -/
theorem throughout_append {bs : List ε} : Throughout step P s (as ++ bs) ↔
      Throughout step P s as ∧ Throughout step P (run step s as) bs := by
  induction as generalizing s with
  | nil => exact ⟨fun h => ⟨h.first, h⟩, fun h => h.2⟩
  | cons a as ih => rw [List.cons_append, throughout_cons, ih, throughout_cons, run_cons, and_assoc]

theorem Throughout.and {Q : σ → Prop} (hP : Throughout step P s as) (hQ : Throughout step Q s as) :
    Throughout step (fun s => P s ∧ Q s) s as := by
  induction as generalizing s with
  | nil => exact ⟨hP, hQ⟩
  | cons a as ih => exact ⟨⟨hP.1, hQ.1⟩, ih hP.2 hQ.2⟩

/-- **The safety rule for states.** Where every step between two states that satisfy `P` preserves
an invariant, and the invariant gives `Q`, a run in which `P` holds throughout satisfies `Q`
throughout. -/
theorem Throughout.safety {Q : σ → Prop} (hstep : ∀ s a, I s → P s → P (step s a) → I (step s a))
    (hQ : ∀ s, I s → P s → Q s) (hs : I s) (hrun : Throughout step P s as) :
    Throughout step Q s as := by
  induction as generalizing s with
  | nil => exact hQ s hs hrun
  | cons a as ih => exact ⟨hQ s hs hrun.1, ih (hstep s a hs hrun.1 hrun.2.first) hrun.2⟩

theorem Throughout.last (h : Throughout step P s as) : P (run step s as) := by
  induction as generalizing s with
  | nil => exact h
  | cons a as ih => exact ih h.2

/-- **The invariant rule for states.** -/
theorem Throughout.invariant (hstep : ∀ s a, I s → P s → P (step s a) → I (step s a)) (hs : I s)
    (hrun : Throughout step P s as) : I (run step s as) :=
  (hrun.safety hstep (fun _ h _ => h) hs).last

/-! ### Steps made of small moves -/

variable {M : σ → σ → Prop}

/-- **An invariant of the moves is an invariant of the step.** -/
theorem moves_preserve (hM : ∀ a b, M a b → I a → I b) {a b : σ} (h : Relation.ReflTransGen M a b)
    (ha : I a) : I b := by
  induction h with
  | refl => exact ha
  | tail _ hbc ih => exact hM _ _ hbc ih

/-- **A preorder that every move climbs is climbed by the step.** -/
theorem moves_climb {P : σ → σ → Prop} (hrefl : ∀ s, P s s)
    (htrans : ∀ {a b c}, P a b → P b c → P a c) (hM : ∀ a b, M a b → P a b) {a b : σ}
    (h : Relation.ReflTransGen M a b) : P a b := by
  induction h with
  | refl => exact hrefl a
  | tail _ hbc ih => exact htrans ih (hM _ _ hbc)

/-- A fold over a list is made of small moves as soon as each of its rounds is. -/
theorem moves_foldl {α : Type*} {f : σ → α → σ} {xs : List α}
    (hf : ∀ s, ∀ x ∈ xs, Relation.ReflTransGen M s (f s x)) (s : σ) :
    Relation.ReflTransGen M s (xs.foldl f s) := by
  induction xs generalizing s with
  | nil => exact .refl
  | cons x xs ih =>
    have hx := hf s x List.mem_cons_self
    exact hx.trans (ih (fun s' y hy => hf s' y (List.mem_cons_of_mem x hy)) (f s x))

end Axona.Library
