import Axona.Dht.Persist

/-! # What is not saved is not forgotten

A namespace that has changed since it was last saved is dirty, with a timer armed or a flush
running that will see to it, or it waits in a flush. A failed write makes its namespace dirty
again but arms no timer: when the flush was the last one running, nothing is left that would write
it. And where two flushes overlap, the save of an older state may be the last to succeed. -/

namespace Axona

open Library OrderedMap

/-- The flush is still to save that version of the namespace. -/
def Flush.Pending (f : Flush) (ns : Namespace) (version : Nat) : Prop :=
  ns ∈ f.waiting ∨ f.current = ns ∧ ∀ v ∈ f.snap, v = version

namespace Persist

variable {s : Persist} {ns m : Namespace} {i : Nat}

/-! ### The promise and the condition -/

/-- **The promise.** While no flush is running, a namespace that has changed since its last save is
dirty, and the timer is armed. -/
def DirtyAndArmed (ns : Namespace) (s : Persist) : Prop :=
  s.flushes.keys = [] → s.saved ns ≠ s.version ns → ns ∈ s.dirty ∧ s.timer = true

/-- No other flush is running, and this one is at its last namespace. -/
def Ends (s : Persist) (i : Nat) : Prop :=
  (∀ j ∈ s.flushes.keys, j = i) ∧ ∀ f ∈ s.flushes.get i, f.waiting = []

/-- **The condition.** The last flush that runs does not end with no timer armed when a write of the
namespace has failed and its state is not saved; no save succeeds after that of a newer state,
unless the state has changed since; and there is no change that is not marked. -/
def NoStaleFlush (ns : Namespace) (s : Persist) : Act → Prop
  | .learn => ns ≠ .synaptome
  | .settle i ok =>
    (s.Ends i → s.timer = false →
      ns ∈ s.dirty ∨ ok = false ∧ (∃ f ∈ s.flushes.get i, f.current = ns) →
      s.saved ns = s.version ns) ∧
    (ok = true → ∀ f ∈ s.flushes.get i, f.current = ns → ∀ v ∈ f.snap,
      v < s.saved ns → s.saved ns < s.version ns)
  | _ => True

instance (s : Persist) (i : Nat) : Decidable (s.Ends i) := inferInstanceAs (Decidable (_ ∧ _))

instance (ns : Namespace) (s : Persist) (a : Act) : Decidable (NoStaleFlush ns s a) := by
  cases a <;> unfold NoStaleFlush <;> infer_instance

/-! ### The invariant -/

/-- The flushes are of the past, and what was read and what is saved is a version there was. -/
structure Versioned (s : Persist) : Prop where
  fresh : ∀ j f, s.flushes.get j = some f → j < s.next
  snaps : ∀ j f, s.flushes.get j = some f → ∀ v ∈ f.snap, v ≤ s.version f.current
  saved : ∀ ns, s.saved ns ≤ s.version ns

/-- Something is left that will save the namespace. -/
def Covered (ns : Namespace) (s : Persist) : Prop :=
  s.saved ns ≠ s.version ns →
    (ns ∈ s.dirty ∧ (s.timer = true ∨ s.flushes.keys ≠ [])) ∨
      ∃ j f, s.flushes.get j = some f ∧ f.Pending ns (s.version ns)

theorem versioned_init : init.Versioned where
  fresh := by rintro j f ⟨⟩
  snaps := by rintro j f ⟨⟩
  saved _ := le_rfl

theorem Covered.kept (h : Covered ns s) : DirtyAndArmed ns s := by
  intro hidle hne
  rcases h hne with ⟨hd, ht | hk⟩ | ⟨j, f, hj, -⟩
  · exact ⟨hd, ht⟩
  · exact absurd hidle hk
  have hmem := has_iff_mem_keys.mp (has_iff.mpr ⟨f, hj⟩)
  rw [hidle] at hmem
  exact absurd hmem List.not_mem_nil

/-! ### Marks -/

@[simp] theorem mem_addDirty : ns ∈ (s.addDirty m).dirty ↔ ns ∈ s.dirty ∨ ns = m := by
  by_cases h : m ∈ s.dirty
  · simp only [addDirty, if_pos h, iff_self_or]
    rintro rfl
    exact h
  · simp [addDirty, h]

theorem versioned_change (h : s.Versioned) (m : Namespace) : (s.change m).Versioned where
  fresh := h.fresh
  snaps j f hj v hv := by
    apply (h.snaps j f hj v hv).trans
    by_cases hm : f.current = m
    · simp [change, hm]
    · simp [change, hm]
  saved ns := by
    apply (h.saved ns).trans
    by_cases hm : ns = m
    · simp [change, hm]
    · simp [change, hm]

theorem change_version_of_ne (hm : ns ≠ m) : (s.change m).version ns = s.version ns :=
  Function.update_of_ne hm _ _

theorem covered_mark (h : Covered ns s) (m : Namespace) : Covered ns (s.markPersistDirty m) := by
  intro hne
  by_cases hm : ns = m
  · exact .inl ⟨mem_addDirty.mpr (.inr hm), .inl rfl⟩
  have hversion : (s.markPersistDirty m).version ns = s.version ns := change_version_of_ne hm
  rcases h (hversion ▸ hne) with ⟨hd, -⟩ | ⟨j, f, hj, hp⟩
  · exact .inl ⟨mem_addDirty.mpr (.inl hd), .inl rfl⟩
  · exact .inr ⟨j, f, hj, hversion.symm ▸ hp⟩

theorem covered_learn (h : Covered ns s) (hm : ns ≠ .synaptome) :
    Covered ns (s.change .synaptome) := by
  intro hne
  have hversion := change_version_of_ne (s := s) hm
  rw [hversion] at hne ⊢
  exact h hne

/-! ### The start of a flush -/

theorem versioned_flush (h : s.Versioned) : s.flushDirtyToPersist.Versioned := by
  unfold flushDirtyToPersist
  split
  · exact h
  next m rest hdirty =>
  refine ⟨fun j f hj => ?_, fun j f hj v hv => ?_, h.saved⟩
  · rw [get_set] at hj
    split at hj
    next heq => exact heq ▸ Nat.lt_succ_self _
    · exact Nat.lt_succ_of_lt (h.fresh j f hj)
  · rw [get_set] at hj
    split at hj
    · cases hj
      cases hv
    · exact h.snaps j f hj v hv

/-- A flush takes over what is dirty, so it does not matter that the timer is not armed. -/
theorem covered_flush (hs : s.Versioned) (h : s.saved ns ≠ s.version ns →
      ns ∈ s.dirty ∨ ∃ j f, s.flushes.get j = some f ∧ f.Pending ns (s.version ns)) :
    Covered ns s.flushDirtyToPersist := by
  unfold flushDirtyToPersist
  split
  next hdirty =>
    intro hne
    rcases h hne with hd | hp
    · rw [hdirty] at hd
      exact absurd hd List.not_mem_nil
    · exact .inr hp
  next m rest hdirty =>
  intro hne
  refine .inr ?_
  rcases h hne with hd | ⟨j, f, hj, hp⟩
  · refine ⟨s.next, ⟨m, none, rest⟩, by rw [get_set, if_pos rfl], ?_⟩
    rw [hdirty] at hd
    rcases List.mem_cons.mp hd with rfl | hd
    · exact .inr ⟨rfl, by rintro v ⟨⟩⟩
    · exact .inl hd
  · have hold : j ≠ s.next := (hs.fresh j f hj).ne
    exact ⟨j, f, by rw [get_set, if_neg hold]; exact hj, hp⟩

theorem Covered.dirty_or_pending (h : Covered ns s) (hne : s.saved ns ≠ s.version ns) :
    ns ∈ s.dirty ∨ ∃ j f, s.flushes.get j = some f ∧ f.Pending ns (s.version ns) :=
  (h hne).imp_left And.left

theorem covered_fire (hs : s.Versioned) (h : Covered ns s) : Covered ns s.fire := by
  unfold fire
  split
  · exact covered_flush ⟨hs.fresh, hs.snaps, hs.saved⟩ h.dirty_or_pending
  · exact h

theorem covered_flushAll (hs : s.Versioned) (h : Covered ns s) : Covered ns s.flushAllToPersist := by
  refine covered_flush (s := ({ s with timer := false } : Persist).addDirty .wireVersion)
    ⟨hs.fresh, hs.snaps, hs.saved⟩ fun hne => ?_
  exact (h.dirty_or_pending hne).imp_left fun hd => mem_addDirty.mpr (.inl hd)

/-! ### The writes of a flush -/

theorem versioned_snapshot (h : s.Versioned) (i : Nat) : (s.snapshot i).Versioned := by
  unfold snapshot
  split
  next m rest hi =>
    split
    · refine ⟨fun j f hj => ?_, fun j f hj v hv => ?_, h.saved⟩
      · rw [get_set] at hj
        split at hj
        next heq => exact heq ▸ h.fresh i _ hi
        · exact h.fresh j f hj
      · rw [get_set] at hj
        split at hj
        · cases hj
          exact (Option.some.inj hv).ge
        · exact h.snaps j f hj v hv
    · exact h
  · exact h

theorem covered_snapshot (h : Covered ns s) (i : Nat) : Covered ns (s.snapshot i) := by
  unfold snapshot
  split
  next m rest hi =>
    split
    · intro hne
      rcases h hne with ⟨hd, ht | hk⟩ | ⟨j, f, hj, hp⟩
      · exact .inl ⟨hd, .inl ht⟩
      · refine .inl ⟨hd, .inr fun hnone => hk ?_⟩
        have hmem : i ∈ (s.flushes.set i ⟨m, some (s.version m), rest⟩).keys :=
          has_iff_mem_keys.mp (by simp)
        rw [show (s.flushes.set i ⟨m, some (s.version m), rest⟩).keys = [] from hnone] at hmem
        exact absurd hmem List.not_mem_nil
      · by_cases hji : j = i
        · subst hji
          cases hj.symm.trans hi
          refine .inr ⟨j, ⟨m, some (s.version m), rest⟩, by simp, hp.imp_right fun hcur => ?_⟩
          refine ⟨hcur.1, fun v hv => ?_⟩
          rw [← Option.some.inj hv]
          exact congrArg s.version hcur.1
        · exact .inr ⟨j, f, by rw [get_set, if_neg hji]; exact hj, hp⟩
    · exact h
  · exact h

theorem versioned_advance (h : s.Versioned) (hi : i < s.next) (rest : List Namespace) :
    (s.advance i rest).Versioned := by
  cases rest with
  | nil =>
    refine ⟨fun j f hj => ?_, fun j f hj => ?_, h.saved⟩
    all_goals
      simp only [advance, get_delete] at hj
      split at hj
      · cases hj
    · exact h.fresh j f hj
    · exact h.snaps j f hj
  | cons m rest =>
    refine ⟨fun j f hj => ?_, fun j f hj v hv => ?_, h.saved⟩
    · simp only [advance, get_set] at hj
      split at hj
      next heq => exact heq ▸ hi
      · exact h.fresh j f hj
    · simp only [advance, get_set] at hj
      split at hj
      · cases hj
        cases hv
      · exact h.snaps j f hj v hv

variable {snap : Option Nat} {rest : List Namespace}

/-- What waits in a flush or in another one still does when the flush goes on. -/
theorem pending_advance {version : Nat} (hi : s.flushes.get i = some ⟨m, snap, rest⟩) {j : Nat}
    {f : Flush} (hj : s.flushes.get j = some f) (hp : f.Pending ns version)
    (hother : j = i → ns ∈ rest) :
    ∃ j f, (s.advance i rest).flushes.get j = some f ∧ f.Pending ns version := by
  by_cases hji : j = i
  · have hmem := hother hji
    cases rest with
    | nil => exact absurd hmem List.not_mem_nil
    | cons m' rest =>
      refine ⟨i, ⟨m', none, rest⟩, by simp [advance], ?_⟩
      rcases List.mem_cons.mp hmem with rfl | hmem
      · exact .inr ⟨rfl, by rintro v ⟨⟩⟩
      · exact .inl hmem
  · refine ⟨j, f, ?_, hp⟩
    cases rest with
    | nil => rwa [advance, get_delete, if_neg hji]
    | cons m' rest => rwa [advance, get_set, if_neg hji]

/-- A flush after which none is running was the last, and at its last namespace. -/
theorem ends_of_advance (hi : s.flushes.get i = some ⟨m, snap, rest⟩)
    (hidle : (s.advance i rest).flushes.keys = []) : s.Ends i := by
  have hnone : ∀ j, (s.advance i rest).flushes.get j = none := by
    intro j
    by_contra hsome
    obtain ⟨f, hf⟩ := Option.ne_none_iff_exists'.mp hsome
    have hmem := has_iff_mem_keys.mp (has_iff.mpr ⟨f, hf⟩)
    rw [hidle] at hmem
    exact absurd hmem List.not_mem_nil
  cases rest with
  | nil =>
    refine ⟨fun j hj => ?_, fun f hf => ?_⟩
    · by_contra hji
      obtain ⟨f, hf⟩ := has_iff.mp (has_iff_mem_keys.mpr hj)
      have hgone := hnone j
      rw [advance, get_delete, if_neg hji, hf] at hgone
      cases hgone
    · rw [hi] at hf
      rw [← Option.some.inj hf]
  | cons m' rest =>
    have hgone := hnone i
    simp [advance] at hgone

section

variable (rest : List Namespace)

@[simp] theorem advance_dirty : (s.advance i rest).dirty = s.dirty := by
  cases rest <;> rfl

@[simp] theorem advance_timer : (s.advance i rest).timer = s.timer := by
  cases rest <;> rfl

@[simp] theorem advance_version :
    (s.advance i rest).version = s.version := by
  cases rest <;> rfl

@[simp] theorem advance_saved : (s.advance i rest).saved = s.saved := by
  cases rest <;> rfl

end

/-- What is covered, but not by the write at hand, is dirty or waits after it or in another flush. -/
theorem Covered.elsewhere (h : Covered ns s) (hi : s.flushes.get i = some ⟨m, snap, rest⟩)
    (hne : s.saved ns ≠ s.version ns) (hover : m = ns → ∃ v ∈ snap, v ≠ s.version ns) :
    ns ∈ s.dirty ∨
      ∃ j f, s.flushes.get j = some f ∧ f.Pending ns (s.version ns) ∧ (j = i → ns ∈ rest) := by
  refine (h.dirty_or_pending hne).imp_right fun ⟨j, f, hj, hp⟩ => ⟨j, f, hj, hp, ?_⟩
  rintro rfl
  cases hj.symm.trans hi
  rcases hp with hp | ⟨hcur, hsnap⟩
  · exact hp
  · obtain ⟨v, hv, hold⟩ := hover hcur
    exact absurd (hsnap v hv) hold

/-- A flush goes on: the namespace is covered if it was, other than by the write that is over, and
the last flush does not end with the namespace dirty and no timer. -/
theorem covered_advance (hi : s.flushes.get i = some ⟨m, snap, rest⟩)
    (h : s.saved ns ≠ s.version ns → ns ∈ s.dirty ∨
      ∃ j f, s.flushes.get j = some f ∧ f.Pending ns (s.version ns) ∧ (j = i → ns ∈ rest))
    (hends : s.Ends i → s.timer = false → ns ∈ s.dirty → s.saved ns = s.version ns) :
    Covered ns (s.advance i rest) := by
  intro hne
  rw [advance_saved, advance_version] at hne
  rcases h hne with hd | ⟨j, f, hj, hp, hother⟩
  · refine .inl ⟨by rwa [advance_dirty], ?_⟩
    by_contra hnone
    rw [not_or, advance_timer, Bool.not_eq_true, not_ne_iff] at hnone
    exact hne (hends (ends_of_advance hi hnone.2) hnone.1 hd)
  · exact .inr (by simpa using pending_advance hi hj hp hother)

/-! ### Steps and runs -/

theorem versioned_settle (h : s.Versioned) (i : Nat) (ok : Bool) : (s.settle i ok).Versioned := by
  unfold settle
  split
  · exact h
  next m snap rest hi =>
  have hlt := h.fresh i _ hi
  split
  · exact versioned_advance h hlt rest
  cases ok with
  | false =>
    exact versioned_advance (s := s.addDirty m) ⟨h.fresh, h.snaps, h.saved⟩ hlt rest
  | true =>
    cases snap with
    | none => exact h
    | some v =>
      refine versioned_advance (s := { s with saved := Function.update s.saved m v })
        ⟨h.fresh, h.snaps, fun ns => ?_⟩ hlt rest
      by_cases hm : ns = m
      · subst hm
        simpa using h.snaps i _ hi v rfl
      · simpa [hm] using h.saved ns

theorem covered_settle (hs : s.Versioned) (hns : ns.supported = true) (h : Covered ns s) {ok : Bool}
    (hm : NoStaleFlush ns s (.settle i ok)) : Covered ns (s.settle i ok) := by
  obtain ⟨hends, horder⟩ := hm
  unfold settle
  split
  · exact h
  next m snap rest hi =>
  split
  next hunsupported =>
    -- the namespace that is dropped is another one
    have hother : m ≠ ns := by
      rintro rfl
      rw [hns] at hunsupported
      cases hunsupported
    refine covered_advance hi (fun hne => ?_) fun he ht hd => hends he ht (.inl hd)
    exact h.elsewhere hi hne fun heq => absurd heq hother
  next hsupported =>
  cases ok with
  | false =>
    refine covered_advance hi (fun hne => ?_) fun he ht hd => ?_
    · by_cases hcur : ns = m
      · exact .inl (mem_addDirty.mpr (.inr hcur))
      · have hleft := h.elsewhere hi hne fun heq => absurd heq.symm hcur
        exact hleft.imp_left fun hd => mem_addDirty.mpr (.inl hd)
    · exact hends he ht ((mem_addDirty.mp hd).imp_right fun hcur => ⟨rfl, _, hi, hcur.symm⟩)
  | true =>
    cases snap with
    | none => exact h
    | some v =>
      have hv : v ≤ s.version m := hs.snaps i _ hi v rfl
      by_cases hcur : ns = m
      · subst hcur
        have hlate := horder rfl _ hi rfl v rfl
        have hsaved : Function.update s.saved ns v ns = v := Function.update_self ns v s.saved
        refine covered_advance hi (fun hnew => ?_) fun he ht hd => ?_
        · -- an older state was saved, so it was not the write that covers the namespace
          have hnew : v ≠ s.version ns := fun heq => hnew (hsaved.trans heq)
          have hne : s.saved ns ≠ s.version ns := by
            intro heq
            have := hlate (by omega)
            omega
          exact h.elsewhere hi hne fun _ => ⟨v, rfl, hnew⟩
        · have heq := hends he ht (.inl hd)
          have hnot : ¬ v < s.saved ns := fun hlt => (hlate hlt).ne heq
          have hstate : v = s.version ns := by omega
          exact hsaved.trans hstate
      · have hsaved : Function.update s.saved m v ns = s.saved ns :=
          Function.update_of_ne hcur _ _
        refine covered_advance hi (fun hne => ?_) fun he ht hd => ?_
        · exact h.elsewhere hi (hsaved ▸ hne) fun heq => absurd heq.symm hcur
        · exact hsaved.trans (hends he ht (.inl hd))

theorem versioned_step (h : s.Versioned) (a : Act) : (s.step a).Versioned := by
  have hflush : ∀ {s : Persist}, s.Versioned → ({ s with timer := false } : Persist).Versioned :=
    fun h => ⟨h.fresh, h.snaps, h.saved⟩
  cases a with
  | mark ns =>
    have hc := versioned_change h ns
    exact ⟨hc.fresh, hc.snaps, hc.saved⟩
  | learn => exact versioned_change h _
  | fire =>
    simp only [step, fire]
    split
    · exact versioned_flush (hflush h)
    · exact h
  | flushAll => exact versioned_flush ⟨h.fresh, h.snaps, h.saved⟩
  | snapshot i => exact versioned_snapshot h i
  | settle i ok => exact versioned_settle h i ok

theorem covered_step (hns : ns.supported = true) (hs : s.Versioned) (h : Covered ns s) {a : Act}
    (hm : NoStaleFlush ns s a) : Covered ns (s.step a) := by
  cases a with
  | mark m => exact covered_mark h m
  | learn => exact covered_learn h hm
  | fire => exact covered_fire hs h
  | flushAll => exact covered_flushAll hs h
  | snapshot i => exact covered_snapshot h i
  | settle i ok => exact covered_settle hs hns h hm

/-- **A namespace that is not saved is not forgotten.** In every run whose steps meet the condition
the promise holds in every state. -/
theorem dirty_of_noStaleFlush (ns : Namespace) (hns : ns.supported = true) (as : List Act)
    (h : EachStep step (NoStaleFlush ns) init as) :
    EachStep step (fun s a => DirtyAndArmed ns (s.step a)) init as := by
  refine h.safety (I := fun s => s.Versioned ∧ Covered ns s)
    (fun s a hI hm => ⟨versioned_step hI.1 a, covered_step hns hI.1 hI.2 hm⟩)
    (fun s a hI hm => (covered_step hns hI.1 hI.2 hm).kept) ⟨versioned_init, ?_⟩
  exact fun hne => absurd rfl hne

/-- A write fails while a flush is running, and a mark arms the timer for the next one. -/
def retried : List Act :=
  [.mark .subscriptions, .mark (.other "hosting".toList), .fire, .snapshot 0, .settle 0 false,
    .mark .subscriptions, .settle 0 true, .fire, .snapshot 1, .settle 1 true]

theorem dirty_of_noStaleFlush_retried :
    EachStep step (NoStaleFlush .subscriptions) init retried ∧
      EachStep step (fun s a => DirtyAndArmed .subscriptions (s.step a)) init retried :=
  ⟨by decide +kernel, dirty_of_noStaleFlush .subscriptions rfl retried (by decide +kernel)⟩

/-- A subscription is made, and its one write fails. -/
def failed : List Act := [.mark .subscriptions, .fire, .snapshot 0, .settle 0 false]

theorem failed_not_kept : ¬ DirtyAndArmed .subscriptions (run step init failed) := by
  intro h
  exact absurd (h (by decide) (by decide)).2 (by decide)

end Persist

end Axona
