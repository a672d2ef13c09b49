import Axona.Pubsub.Standby
import Axona.Pubsub.Step

/-! # A standby keeps its principal

While an appointment is in force and its lease is live, only a grant that wins over it replaces it.
So as long as each appointment is taken while the one before is live, no generation comes back; a
root does, once it minted a higher epoch. After the lease the next grant of any root is taken,
except one of the generation that the LEFT record of the lapse is about, and one of a lower epoch of
the root that appointed last. -/

namespace Axona

open Library

namespace Standby

variable {t : TopicId} {s : Standby} {w : World} {g : StandbyGrant} {gen : Gen}

/-! ### The grant rule -/

/-- A grant that names a generation is admitted when nothing stands against it. -/
theorem refusal_eq_none_iff (hgen : g.generation = some gen) :
    s.refusal t w g = none ↔ s.leftRefuses w.mono gen = false ∧ 1 ≤ gen.epoch ∧
      ∃ issuedAt, g.issuedAt = some issuedAt ∧ s.grantFresh w.wall issuedAt = true ∧
        s.role.any (obsoleteGeneration · gen) = false ∧
          s.role.any (obsoleteGrant · gen issuedAt) = false ∧
            s.role.any (outranked t · w.wall gen) = false := by
  unfold refusal
  rw [hgen]
  simp only []
  cases hleft : s.leftRefuses w.mono gen with
  | true => simp
  | false =>
    by_cases hep : gen.epoch < 1
    · simp [hep]
    cases hat : g.issuedAt with
    | none => simp [hep]
    | some issuedAt =>
      cases hfresh : s.grantFresh w.wall issuedAt with
      | false => simp [hep, hfresh]
      | true =>
        cases hobs : s.role.any (obsoleteGeneration · gen) with
        | true => simp [hep, hfresh]
        | false =>
          cases hold : s.role.any (obsoleteGrant · gen issuedAt) with
          | true => simp [hep, hfresh, hold]
          | false =>
            cases hout : s.role.any (outranked t · w.wall gen) <;>
              simp [hep, hfresh, hold, not_lt.mp hep]

/-- A grant that names none is admitted from the principal. -/
theorem refusal_legacy (hgen : g.generation = none) (h : s.refusal t w g = none) :
    ∃ r ∈ s.role, r.backupOf.isSome ∧ r.backupOf = g.sender := by
  unfold refusal at h
  rw [hgen] at h
  cases hr : s.role with
  | none => simp [hr] at h
  | some r =>
    refine ⟨r, rfl, ?_⟩
    simpa [hr] using h

/-! ### Conforming runs -/

/-- A grant as a conforming root sends it: in its own name, of an epoch it can have minted and
32 bits hold, issued by a clock no more than the skew ahead. A renewal of an older kernel names no
generation. -/
def ConformingGrant (w : World) (g : StandbyGrant) : Prop :=
  (∀ gen ∈ g.generation, g.sender = some gen.root ∧ 1 ≤ gen.epoch ∧ gen.epoch < 2 ^ 31) ∧
    ∀ issuedAt ∈ g.issuedAt, issuedAt ≤ w.wall + appointmentSkewMs

/-- What conforming clocks and roots allow: the clock has not gone back since the last grant, and
from tick to tick it goes on as the monotonic clock does, within the skew. -/
def Conforming (s : Standby) (a : World × StandbyAct) : Prop :=
  (∀ r ∈ s.role, r.lastReplicaAt ≤ a.1.wall) ∧
    match a.2 with
    | .replicate g => ConformingGrant a.1 g
    | .tick .. => ∀ last ∈ s.lastTick,
        |(a.1.wall - last.1) - (a.1.mono - last.2)| ≤ appointmentSkewMs
    | _ => True

/-- The generation a standby is appointed under. -/
def principal (s : Standby) : Option Gen :=
  s.role.bind fun r => if r.backupOf.isSome then r.standbyGen else none

/-- Is the lease of an appointment in force live? -/
def Live (s : Standby) (now : Int) : Prop :=
  ∃ r ∈ s.role, r.backupOf.isSome ∧ now - r.lastReplicaAt < standbyLeaseMs

/-- What holds of a role in a conforming run. -/
structure RoleWf (r : StandbyRole) : Prop where
  /-- A root is no backup. -/
  root : r.isRoot = true → r.backupOf = none
  /-- The principal is the root of the generation the appointment names. -/
  named : ∀ p ∈ r.backupOf, ∃ gen ∈ r.standbyGen, gen.root = p
  /-- Its epoch is one a root can have minted. -/
  epoch : ∀ gen ∈ r.standbyGen, 1 ≤ gen.epoch ∧ gen.epoch < 2 ^ 31
  /-- Its grant was issued before it came, up to the skew. -/
  issued : ∀ issuedAt ∈ r.standbyIssuedAt, issuedAt ≤ r.lastReplicaAt + appointmentSkewMs

/-- What holds of a standby in a conforming run. -/
structure Wf (s : Standby) : Prop where
  role : ∀ r ∈ s.role, RoleWf r
  /-- No jump of the clock holds grants up. -/
  hold : s.grantHoldUntil = 0

theorem RoleWf.blank : RoleWf .blank := by
  refine ⟨fun _ => rfl, ?_, ?_, ?_⟩ <;> rintro _ ⟨⟩

variable {r : StandbyRole}

theorem RoleWf.retireBackup (h : RoleWf r) : RoleWf (retireBackup r) := by
  refine ⟨fun _ => rfl, ?_, h.epoch, h.issued⟩
  rintro _ ⟨⟩

theorem Wf.boot : Wf .boot := ⟨by rintro r ⟨⟩, rfl⟩

/-- A grant that is admitted makes a role of a conforming run. -/
theorem RoleWf.becomeBackup (h : RoleWf r) (hroot : r.isRoot = false)
    (hnow : ∀ issuedAt ∈ r.standbyIssuedAt, r.lastReplicaAt ≤ w.wall) (hg : ConformingGrant w g)
    (hlegacy : g.generation = none → r.backupOf = g.sender) : RoleWf (becomeBackup r w.wall g) := by
  obtain ⟨hgen, hissued⟩ := hg
  refine ⟨fun hr => ?_, ?_, ?_, ?_⟩
  · rw [show (Standby.becomeBackup r w.wall g).isRoot = r.isRoot from rfl, hroot] at hr
    cases hr
  · intro p hp
    change g.sender = some p at hp
    change ∃ gen ∈ g.generation.or r.standbyGen, gen.root = p
    cases hgen' : g.generation with
    | none => exact h.named p ((hlegacy hgen').trans hp)
    | some gen =>
      refine ⟨gen, rfl, ?_⟩
      exact Option.some.inj ((hgen gen hgen').1.symm.trans hp)
  · intro gen hmem
    change g.generation.or r.standbyGen = some gen at hmem
    cases hgen' : g.generation with
    | none =>
      rw [hgen', Option.none_or] at hmem
      exact h.epoch gen hmem
    | some gen' =>
      rw [hgen', Option.some_or] at hmem
      cases hmem
      exact (hgen gen hgen').2
  · intro issuedAt hmem
    change g.issuedAt.or r.standbyIssuedAt = some issuedAt at hmem
    cases hat : g.issuedAt with
    | none =>
      rw [hat, Option.none_or] at hmem
      exact (h.issued issuedAt hmem).trans (Int.add_le_add_right (hnow issuedAt hmem) _)
    | some issuedAt' =>
      rw [hat, Option.some_or] at hmem
      cases hmem
      exact hissued issuedAt hat

/-- What an act leaves of a role, or of one that it changes in one way. -/
theorem Wf.map (h : s.Wf) {f : StandbyRole → StandbyRole} (hf : ∀ r, RoleWf r → RoleWf (f r)) :
    ({ s with role := s.role.map f } : Standby).Wf := by
  refine ⟨?_, h.hold⟩
  intro r hr
  obtain ⟨r₀, hr₀, rfl⟩ := Option.map_eq_some_iff.mp hr
  exact hf r₀ (h.role r₀ hr₀)

theorem Wf.leftWrite (h : s.Wf) (w : World) (room : Bool) (rootId : Option NodeId) (epoch : Int) :
    (s.leftWrite w room rootId epoch).Wf := by
  unfold Standby.leftWrite
  split
  · exact ⟨h.role, h.hold⟩
  · exact h

theorem RoleWf.forget (h : RoleWf r) :
    RoleWf { Standby.retireBackup r with standbyGen := none } := by
  refine ⟨fun _ => rfl, ?_, ?_, h.issued⟩ <;> rintro _ ⟨⟩

/-- The sweep keeps the role or ends its appointment. -/
theorem Wf.standbyLeaseSweep (h : s.Wf) (w : World) (holds room : Bool) :
    (s.standbyLeaseSweep w holds room).Wf := by
  unfold Standby.standbyLeaseSweep
  split
  next => exact h
  next r hr =>
  split
  · exact h
  refine ⟨?_, (h.leftWrite w room _ _).hold⟩
  rintro r' ⟨⟩
  exact (h.role r hr).forget

theorem Wf.wallJumpCheck (h : s.Wf) (hjump : ∀ last ∈ s.lastTick,
    |(w.wall - last.1) - (w.mono - last.2)| ≤ appointmentSkewMs) : (s.wallJumpCheck w).Wf := by
  refine ⟨h.role, ?_⟩
  have hno : (s.lastTick.any fun last => decide
      (appointmentSkewMs < |(w.wall - last.1) - (w.mono - last.2)|)) = false := by
    cases hlast : s.lastTick with
    | none => rfl
    | some last => simpa [hlast] using hjump last hlast
  change (if _ then _ else s.grantHoldUntil) = 0
  rw [hno]
  exact h.hold

theorem step_wf (a : World × StandbyAct) (h : s.Wf) (hconf : s.Conforming a) : (s.step t a).Wf := by
  obtain ⟨w, a⟩ := a
  obtain ⟨hnow, hconf⟩ := hconf
  cases a with
  | replicate g =>
    change (s.onReplicate t w g).Wf
    unfold Standby.onReplicate
    cases hroot : s.role.any (·.isRoot) with
    | true => exact h
    | false =>
      cases hver : s.refusal t w g with
      | some _ => exact h
      | none =>
        refine ⟨?_, h.hold⟩
        rintro r' ⟨⟩
        cases hr : s.role with
        | none =>
          refine RoleWf.blank.becomeBackup rfl (by rintro _ ⟨⟩) hconf fun hgen => ?_
          obtain ⟨r, hr', -⟩ := refusal_legacy hgen hver
          rw [hr] at hr'
          cases hr'
        | some r =>
          refine (h.role r hr).becomeBackup (by simpa [hr] using hroot)
            (fun _ _ => hnow r hr) hconf ?_
          intro hgen
          obtain ⟨r₀, hr₀, -, hsender⟩ := refusal_legacy hgen hver
          cases hr.symm.trans hr₀
          exact hsender
  | tick holds room spare =>
    have hswept := ((⟨(h.wallJumpCheck hconf).role, (h.wallJumpCheck hconf).hold⟩ :
      ((s.wallJumpCheck w).leftPrune w).Wf).standbyLeaseSweep w holds room)
    refine hswept.map fun r hr => ?_
    split
    · exact hr.retireBackup
    · exact hr
  | terminated gen holdsBody =>
    refine h.map fun r hr => ?_
    split
    · exact hr
    · exact hr.forget
  | serve =>
    refine ⟨?_, h.hold⟩
    intro r hr
    cases hr₀ : s.role with
    | none =>
      change s.role.or (some .blank) = some r at hr
      rw [hr₀] at hr
      cases hr
      exact .blank
    | some r₀ =>
      change s.role.or (some .blank) = some r at hr
      rw [hr₀] at hr
      cases hr
      exact h.role r hr₀
  | promote =>
    refine h.map fun r hr => ⟨fun _ => rfl, ?_, hr.epoch, hr.issued⟩
    rintro _ ⟨⟩
  | demote =>
    refine h.map fun r hr => ⟨?_, hr.named, hr.epoch, hr.issued⟩
    rintro ⟨⟩
  | retire steppedDown room =>
    cases steppedDown with
    | true => exact ⟨by rintro r ⟨⟩, (h.leftWrite w room none 0).hold⟩
    | false => exact ⟨by rintro r ⟨⟩, h.hold⟩

/-! ### Who the principal is -/

theorem principal_eq_some {gen : Gen} :
    s.principal = some gen ↔ ∃ r, s.role = some r ∧ r.backupOf.isSome ∧ r.standbyGen
      = some gen := by
  unfold principal
  cases hr : s.role with
  | none => simp
  | some r =>
    cases hb : r.backupOf with
    | none | some p => simp [hb]

/-- A role changed into one that is appointed as before or not at all. -/
theorem principal_of_map {f : StandbyRole → StandbyRole}
    (hf : ∀ r, (f r).backupOf.isSome → (f r).standbyGen.isSome →
      r.backupOf = (f r).backupOf ∧ r.standbyGen = (f r).standbyGen) {s' : Standby}
    (hs' : s'.role = s.role.map f) (h : s'.principal = some gen) : s.principal = some gen := by
  obtain ⟨r', hr', hb, hgen⟩ := principal_eq_some.mp h
  rw [hs'] at hr'
  obtain ⟨r, hr, rfl⟩ := Option.map_eq_some_iff.mp hr'
  obtain ⟨hb', hgen'⟩ := hf r hb (by rw [hgen]; rfl)
  exact principal_eq_some.mpr ⟨r, hr, by rwa [hb'], hgen'.trans hgen⟩

/-- Only a grant appoints. -/
theorem principal_of_other {a : StandbyAct} (ha : ∀ g, a ≠ .replicate g)
    (h : (s.step t (w, a)).principal = some gen) : s.principal = some gen := by
  cases a with
  | replicate g => exact absurd rfl (ha g)
  | tick holds room spare =>
    have hswept : (((s.wallJumpCheck w).leftPrune w).standbyLeaseSweep w holds room).principal =
        some gen := by
      refine principal_of_map (f := _) (fun r hb _ => ?_) rfl h
      split
      next hidle => rw [if_pos hidle] at hb; cases hb
      next => exact ⟨rfl, rfl⟩
    unfold Standby.standbyLeaseSweep at hswept
    split at hswept
    next => exact hswept
    next r hr =>
    split at hswept
    · exact hswept
    · cases hswept
  | terminated gen' holdsBody =>
    refine principal_of_map (f := _) (fun r hb _ => ?_) rfl h
    split
    next => exact ⟨rfl, rfl⟩
    next hends => rw [if_neg hends] at hb; cases hb
  | serve =>
    obtain ⟨r', hr', hb, hgen⟩ := principal_eq_some.mp h
    change s.role.or (some .blank) = some r' at hr'
    cases hr : s.role with
    | none =>
      rw [hr] at hr'
      cases hr'
      cases hb
    | some r =>
      rw [hr] at hr'
      cases hr'
      exact principal_eq_some.mpr ⟨r', hr, hb, hgen⟩
  | promote =>
    refine principal_of_map (f := fun r => { retireBackup r with isRoot := true })
      (fun r hb _ => ?_) rfl h
    cases hb
  | demote =>
    exact principal_of_map (f := fun r => { r with isRoot := false })
      (fun r _ _ => ⟨rfl, rfl⟩) rfl h
  | retire steppedDown room => cases steppedDown <;> cases h

variable {gen₀ : Gen}

/-- A grant that appoints names a generation that wins over the one in force. -/
theorem onReplicate_principal (h : s.Wf) (hp : s.principal = some gen₀) (hlive : s.Live w.wall)
    (h' : (s.onReplicate t w g).principal = some gen) (hne : gen ≠ gen₀) :
    claimWins t ⟨gen.root, gen.epoch⟩ ⟨gen₀.root, gen₀.epoch⟩ = true := by
  obtain ⟨r, hr, hb, hgen₀⟩ := principal_eq_some.mp hp
  obtain ⟨r₁, hr₁, -, hlt⟩ := hlive
  cases hr.symm.trans hr₁
  obtain ⟨hep₀, hlt₀⟩ := (h.role r hr).epoch gen₀ hgen₀
  unfold Standby.onReplicate at h'
  split at h'
  next => exact absurd (Option.some.inj (h'.symm.trans hp)) hne
  next =>
  split at h'
  next => exact absurd (Option.some.inj (h'.symm.trans hp)) hne
  next hver =>
  obtain ⟨r', hr', -, hgen'⟩ := principal_eq_some.mp h'
  cases hr'
  change g.generation.or _ = some gen at hgen'
  rw [hr, Option.getD_some, hgen₀] at hgen'
  cases hg' : g.generation with
  | none =>
    rw [hg'] at hgen'
    exact absurd (Option.some.inj hgen'.symm) hne
  | some gen' =>
    rw [hg', Option.some_or] at hgen'
    cases hgen'
    obtain ⟨-, hep, issuedAt, -, -, hobs, -, hout⟩ := (refusal_eq_none_iff hg').mp hver
    rw [hr] at hobs hout
    by_cases hroot : gen₀.root = gen.root
    · -- the same root, forward in its epochs
      have hge : gen₀.epoch ≤ gen.epoch := by
        simpa [obsoleteGeneration, hgen₀, hroot, toInt32_of_nonneg (by omega) hlt₀] using hobs
      have hepne : gen₀.epoch ≠ gen.epoch := by
        intro heq
        cases gen
        cases gen₀
        simp_all
      have hup : gen₀.epoch < gen.epoch := lt_of_le_of_ne hge hepne
      rw [claimWins_iff, Claim.beats_of_epoch_ne (by exact hep) (by exact hep₀) (Ne.symm hepne)]
      exact hup
    · simpa [outranked, hb, hgen₀, hroot, hlt] using hout

/-- While a lease is live an act changes the principal only to one that wins over it. -/
theorem step_principal {a : World × StandbyAct} (h : s.Wf) (hp : s.principal = some gen₀)
    (hlive : s.Live a.1.wall) (h' : (s.step t a).principal = some gen) (hne : gen ≠ gen₀) :
    claimWins t ⟨gen.root, gen.epoch⟩ ⟨gen₀.root, gen₀.epoch⟩ = true := by
  obtain ⟨w, a⟩ := a
  by_cases ha : ∃ g, a = .replicate g
  · obtain ⟨g, rfl⟩ := ha
    exact onReplicate_principal h hp hlive h' hne
  · have hother := principal_of_other (fun g hg => ha ⟨g, hg⟩) h'
    exact absurd (Option.some.inj (hother.symm.trans hp)) hne

/-! ### Overlapping leases -/

/-- An act between two appointments that overlap: one is in force and live when it comes, and one
is in force after it. -/
def Overlaps (t : TopicId) (s : Standby) (a : World × StandbyAct) : Prop :=
  s.principal.isSome ∧ s.Live a.1.wall ∧ (s.step t a).principal.isSome

/-- Is the generation this one, or one that wins over it? -/
def AtLeast (t : TopicId) (gen₀ gen : Gen) : Prop :=
  gen = gen₀ ∨ claimWins t ⟨gen.root, gen.epoch⟩ ⟨gen₀.root, gen₀.epoch⟩ = true

theorem AtLeast.trans {gen₁ gen₂ : Gen} (h₀ : 1 ≤ gen₀.epoch) (h₁ : 1 ≤ gen₁.epoch)
    (h₂ : 1 ≤ gen₂.epoch) (h : AtLeast t gen₀ gen₁) (h' : AtLeast t gen₁ gen₂) :
    AtLeast t gen₀ gen₂ := by
  rcases h with rfl | h
  · exact h'
  rcases h' with rfl | h'
  · exact .inr h
  rw [claimWins_iff] at h h'
  have htrans := Claim.Beats.trans (a := ⟨gen₂.root, gen₂.epoch⟩) (b := ⟨gen₁.root, gen₁.epoch⟩)
    (c := ⟨gen₀.root, gen₀.epoch⟩) h₂ h₁ h₀ h' h
  exact .inr (claimWins_iff.mpr htrans)

/-- A generation that wins over another is not won over by it. -/
theorem AtLeast.antisymm {gen₁ : Gen} (h : AtLeast t gen₀ gen₁) (h' : AtLeast t gen₁ gen₀) :
    gen₁ = gen₀ := by
  rcases h with rfl | h
  · rfl
  rcases h' with rfl | h'
  · rfl
  · exact absurd (claimWins_iff.mp h') (claimWins_iff.mp h).asymm

theorem principal_epoch (h : s.Wf) (hp : s.principal = some gen) : 1 ≤ gen.epoch := by
  obtain ⟨r, hr, -, hgen⟩ := principal_eq_some.mp hp
  exact ((h.role r hr).epoch gen hgen).1

/-- Over overlapping appointments the principal only rises. -/
theorem run_principal {bs : List (World × StandbyAct)} (h : s.Wf)
    (hconf : EachStep (step t) Conforming s bs) (hover : EachStep (step t) (Overlaps t) s bs)
    {gen : Gen} (hp : s.principal = some gen₀) (h' : (run (step t) s bs).principal = some gen) :
    AtLeast t gen₀ gen := by
  induction bs generalizing s gen₀ with
  | nil => exact .inl (Option.some.inj (h'.symm.trans hp))
  | cons a bs ih =>
    obtain ⟨gen₁, hgen₁⟩ := Option.isSome_iff_exists.mp hover.1.2.2
    have hwf := step_wf (t := t) a h hconf.1
    have hfirst : AtLeast t gen₀ gen₁ := by
      by_cases hne : gen₁ = gen₀
      · exact .inl hne
      · exact .inr (step_principal h hp hover.1.2.1 hgen₁ hne)
    have hrest := ih hwf hconf.2 hover.2 hgen₁ h'
    have hend := EachStep.invariant (I := Wf) (fun s a hs hc => step_wf a hs hc) hwf hconf.2
    exact hfirst.trans (principal_epoch h hp) (principal_epoch hwf hgen₁)
      (principal_epoch hend h') hrest

/-! ### After the lease -/

/-- The lease of whatever the role was appointed to is over. -/
def Lapsed (s : Standby) (now : Int) : Prop :=
  ∀ r ∈ s.role, r.isRoot = false ∧ standbyLeaseMs ≤ now - r.lastReplicaAt

/-- A grant of a generation, delivered within the delay. -/
def Prompt (w : World) (g : StandbyGrant) (gen : Gen) : Prop :=
  g.generation = some gen ∧
    ∃ issuedAt ∈ g.issuedAt, w.wall - issuedAt ≤ appointmentDelayMs + appointmentSkewMs

/-- The generation is not one the role was appointed to a later epoch of. -/
def Forward (s : Standby) (gen : Gen) : Prop :=
  ∀ r ∈ s.role, ∀ gen₀ ∈ r.standbyGen, gen₀.root = gen.root → gen₀.epoch ≤ gen.epoch

/-- After the lease a prompt grant appoints, unless a LEFT record or a later epoch stands against
it. -/
theorem replicate_of_lapsed (h : s.Wf) (hg : ConformingGrant w g) (hlapsed : s.Lapsed w.wall)
    (hprompt : Prompt w g gen) (hleft : s.leftRefuses w.mono gen = false)
    (hforward : s.Forward gen) : (s.onReplicate t w g).principal = some gen := by
  obtain ⟨hgen, issuedAt, hat, hage⟩ := hprompt
  obtain ⟨hsender, hep, hep'⟩ := hg.1 gen hgen
  have hnot : s.role.any (·.isRoot) = false := by
    cases hr : s.role with
    | none => rfl
    | some r => simpa [hr] using (hlapsed r hr).1
  have hfresh : s.grantFresh w.wall issuedAt = true := by
    simp [grantFresh, h.hold, hage]
  have hver : s.refusal t w g = none := by
    refine (refusal_eq_none_iff hgen).mpr ⟨hleft, hep, issuedAt, hat, hfresh, ?_⟩
    cases hr : s.role with
    | none => exact ⟨rfl, rfl, rfl⟩
    | some r =>
      have hwf := h.role r hr
      obtain ⟨-, hover⟩ := hlapsed r hr
      refine ⟨?_, ?_, ?_⟩
      · cases hs : r.standbyGen with
        | none => simp [obsoleteGeneration, hs]
        | some gen₀ =>
          obtain ⟨h₁, h₂⟩ := hwf.epoch gen₀ hs
          have := hforward r hr gen₀ hs
          simpa [obsoleteGeneration, hs, toInt32_of_nonneg (by omega :
            0 ≤ gen₀.epoch) h₂] using this
      · -- the grant is newer than any that came a lease ago
        have hnewer : ∀ at₀ ∈ r.standbyIssuedAt, at₀ ≤ issuedAt + appointmentSkewMs := by
          intro at₀ hat₀
          have := hwf.issued at₀ hat₀
          unfold standbyLeaseMs dropMs at hover
          unfold appointmentDelayMs appointmentSkewMs at *
          omega
        cases hs : r.standbyGen with
        | none => simp [obsoleteGrant, hs]
        | some gen₀ =>
          cases hi : r.standbyIssuedAt with
          | none => simp [obsoleteGrant, hs, hi]
          | some at₀ => simp [obsoleteGrant, hs, hi, hnewer at₀ hi]
      · cases hs : r.standbyGen with
        | none => simp [outranked, hs]
        | some gen₀ => simp [outranked, hs, not_lt.mpr hover]
  unfold Standby.onReplicate
  rw [hnot, hver]
  refine principal_eq_some.mpr ⟨_, rfl, ?_, ?_⟩
  · change g.sender.isSome = true
    rw [hsender]
    rfl
  · change g.generation.or _ = some gen
    rw [hgen]
    rfl

/-- What a standby's principal does in the states that a run reaches. -/
structure PrincipalStable (t : TopicId) (as : List (World × StandbyAct)) : Prop where
  /-- While its lease is live it changes only to one that wins over it. -/
  rises : EachStep (step t) (fun s a => ∀ gen₀ gen, s.principal = some gen₀ → s.Live a.1.wall →
    (s.step t a).principal = some gen → gen ≠ gen₀ →
      claimWins t ⟨gen.root, gen.epoch⟩ ⟨gen₀.root, gen₀.epoch⟩ = true) .boot as
  /-- Over overlapping appointments none that was left comes back. -/
  noReturn : ∀ bs cs ds, as = bs ++ (cs ++ ds) →
    EachStep (step t) (Overlaps t) (run (step t) .boot bs) (cs ++ ds) →
      (run (step t) .boot (bs ++ cs)).principal ≠ (run (step t) .boot bs).principal →
        (run (step t) .boot as).principal ≠ (run (step t) .boot bs).principal
  /-- After the lease the next prompt grant of a generation is taken, unless a LEFT record or a
  later epoch of its root stands against it. -/
  taken : ∀ w g gen, ConformingGrant w g → (run (step t) .boot as).Lapsed w.wall → Prompt w g gen →
    (run (step t) .boot as).leftRefuses w.mono gen = false →
      (run (step t) .boot as).Forward gen →
        ((run (step t) .boot as).step t (w, .replicate g)).principal = some gen

end Standby

/-- **A standby's principal is stable.** For every order, loss and repetition of grants, renewals,
ticks, notices and changes of the role, from any number of roots, under conforming clocks. -/
theorem standby_principal_stable (t : TopicId) (as : List (World × StandbyAct))
    (h : EachStep (Standby.step t) Standby.Conforming .boot as) :
    Standby.PrincipalStable t as := by
  have hstep : ∀ s a, Standby.Wf s → Standby.Conforming s a → (s.step t a).Wf :=
    fun s a hs hc => Standby.step_wf a hs hc
  refine ⟨?_, ?_, ?_⟩
  · refine EachStep.safety (I := Standby.Wf) (C := Standby.Conforming) hstep ?_ .boot h
    intro s a hs _ gen₀ gen hp hlive h' hne
    exact Standby.step_principal hs hp hlive h' hne
  · rintro bs cs ds rfl hover hleft hback
    rw [eachStep_append] at h hover
    rw [run_append] at hleft hback
    rw [run_append] at hback
    have hwf := EachStep.invariant hstep .boot h.1
    have hconf := (eachStep_append _ _ _ _).mp h.2
    have hwf' := EachStep.invariant hstep hwf hconf.1
    generalize run (Standby.step t) .boot bs = s at *
    cases cs with
    | nil => exact hleft rfl
    | cons c cs =>
      cases ds with
      | nil => exact hleft hback
      | cons d ds =>
        -- a generation is in force before and after the first stretch
        obtain ⟨gen₀, hgen₀⟩ := Option.isSome_iff_exists.mp hover.1.1.1
        obtain ⟨gen₁, hgen₁⟩ := Option.isSome_iff_exists.mp hover.2.1.1
        have hup := Standby.run_principal hwf hconf.1 hover.1 hgen₀ hgen₁
        have hdown := Standby.run_principal hwf' hconf.2 hover.2 hgen₁ (hback.trans hgen₀)
        rw [hgen₀, hgen₁, hup.antisymm hdown] at hleft
        exact hleft rfl
  · intro w g gen hg hlapsed hprompt hleft hforward
    exact Standby.replicate_of_lapsed (EachStep.invariant hstep .boot h) hg hlapsed hprompt hleft
      hforward

/-- A grant of a root, issued when it comes. -/
def grantAt (root : NodeId) (epoch now : Int) : World × StandbyAct :=
  (sampleWorld now, .replicate ⟨some root, some (root, some epoch), some now⟩)

/-- A standby is appointed by `5`, its lease lapses, and a tick finds it holding nothing. -/
def lapsedRun : List (World × StandbyAct) :=
  [grantAt 5 1 1000, (sampleWorld 182000, .tick false true false)]

/-- `9` takes the standby from `5`, which mints a higher epoch and takes it back. -/
def takenBack : List (World × StandbyAct) := [grantAt 5 1 1000, grantAt 9 2 2000, grantAt 5 3 3000]

namespace Standby

theorem generation_grant {root : NodeId} {epoch : Int} {sender : Option NodeId}
    {issuedAt : Option Int} (h : 0 ≤ epoch) :
    StandbyGrant.generation ⟨sender, some (root, some epoch), issuedAt⟩ = some ⟨root, epoch⟩ := by
  simp [StandbyGrant.generation, Option.filter_some, h]

theorem conforming_grantAt {s : Standby} (root : NodeId) {epoch now : Int}
    (hrole : ∀ r ∈ s.role, r.lastReplicaAt ≤ now) (h₁ : 1 ≤ epoch) (h₂ : epoch < 2 ^ 31) :
    s.Conforming (grantAt root epoch now) := by
  refine ⟨hrole, ?_, ?_⟩
  · intro gen hgen
    rw [generation_grant (by omega)] at hgen
    cases hgen
    exact ⟨rfl, h₁, h₂⟩
  · rintro issuedAt ⟨⟩
    change now ≤ now + appointmentSkewMs
    unfold appointmentSkewMs
    omega

end Standby

theorem lapsedRun_conforming (t : TopicId) :
    EachStep (Standby.step t) Standby.Conforming .boot lapsedRun := by
  refine ⟨Standby.conforming_grantAt _ (by rintro r ⟨⟩) (by decide) (by decide), ⟨?_, ?_⟩, trivial⟩
  · rintro r ⟨⟩
    decide
  · rintro last ⟨⟩

theorem takenBack_conforming : EachStep (Standby.step 0) Standby.Conforming .boot takenBack := by
  refine ⟨Standby.conforming_grantAt _ (by rintro r ⟨⟩) (by decide) (by decide),
    Standby.conforming_grantAt _ ?_ (by decide) (by decide),
    Standby.conforming_grantAt _ ?_ (by decide) (by decide), trivial⟩
  · rintro r ⟨⟩
    decide
  · rintro r ⟨⟩
    decide

/-- Two such runs: of two roots that take a standby from each other, and of a lease that lapses. -/
theorem standby_principal_taken :
    Standby.PrincipalStable 0 takenBack ∧ Standby.PrincipalStable 0 lapsedRun :=
  ⟨standby_principal_stable 0 takenBack takenBack_conforming,
    standby_principal_stable 0 lapsedRun (lapsedRun_conforming 0)⟩

/-- A root that mints a higher epoch comes back within overlapping leases; and after the lease a
prompt grant of the generation that was left is refused. -/
theorem standby_not_free :
    (¬∀ (t : TopicId) (as : List (World × StandbyAct)),
      EachStep (Standby.step t) Standby.Conforming .boot as →
        ∀ bs cs ds, as = bs ++ (cs ++ ds) →
          EachStep (Standby.step t) (Standby.Overlaps t) (run (Standby.step t) .boot bs) (cs ++ ds) →
            ((run (Standby.step t) .boot (bs ++ cs)).principal.map (·.root)) ≠
                (run (Standby.step t) .boot bs).principal.map (·.root) →
              (run (Standby.step t) .boot as).principal.map (·.root) ≠
                (run (Standby.step t) .boot bs).principal.map (·.root)) ∧
      ¬∀ (t : TopicId) (as : List (World × StandbyAct)),
        EachStep (Standby.step t) Standby.Conforming .boot as →
          ∀ w g gen, Standby.ConformingGrant w g → (run (Standby.step t) .boot as).Lapsed w.wall →
            Standby.Prompt w g gen →
              ((run (Standby.step t) .boot as).step t (w, .replicate g)).principal = some gen := by
  constructor
  · intro h
    refine h 0 takenBack takenBack_conforming [grantAt 5 1 1000] [grantAt 9 2 2000]
      [grantAt 5 3 3000] rfl ?_ (by decide) (by decide)
    exact ⟨⟨by decide, ⟨_, rfl, by decide, by decide⟩, by decide⟩,
      ⟨by decide, ⟨_, rfl, by decide, by decide⟩, by decide⟩, trivial⟩
  · intro h
    have htaken := h 0 lapsedRun (lapsedRun_conforming 0) (sampleWorld 183000)
      ⟨some 5, some (5, some 1), some 183000⟩ ⟨5, 1⟩ ?_ ?_ ⟨rfl, _, rfl, by decide⟩
    · exact absurd htaken (by decide)
    · have hconf := (@Standby.conforming_grantAt .boot 5 1 183000 (by rintro r ⟨⟩) (by decide)
        (by decide)).2
      exact hconf
    · rintro r ⟨⟩
      decide

end Axona
