import Axona.Moves.Step
import Axona.Pubsub.HolderProbe

/-! # What a probe spends, and when a try does not count

The budget is looked at before a try is opened, and a try is opened whole: it stays in the budget
where each try fits in what is left. A try counts unless every target that was reached answered.
The code compares the number of those that answered with the number of targets, and takes a target
that was not reached out of the one set alone; and it hears an answer only while the try is the
last one of the topic's role. -/

namespace Axona

open Library OrderedMap

/-! ### Sets of nodes -/

namespace IdSet

variable {m m' : IdSet} {b : NodeId} {ids : List NodeId}

theorem has_addAll : (m.addAll ids).has b = true ↔ m.has b = true ∨ b ∈ ids := by
  induction ids generalizing m with
  | nil => simp [addAll]
  | cons x ids ih =>
    have hstep : m.addAll (x :: ids) = IdSet.addAll (m.set x ()) ids := rfl
    rw [hstep, ih, has_set, List.mem_cons]
    by_cases hx : b = x
    · simp [hx]
    · simp [hx]

theorem has_deleteAll : (m.deleteAll ids).has b = true ↔ m.has b = true ∧ b ∉ ids := by
  induction ids generalizing m with
  | nil => simp [deleteAll]
  | cons x ids ih =>
    have hstep : m.deleteAll (x :: ids) = IdSet.deleteAll (m.delete x) ids := rfl
    rw [hstep, ih, has_delete, List.mem_cons, not_or, and_assoc]
    tauto

/-- A set within another is as large only if it is the other. -/
theorem size_eq_iff (hsub : ∀ b, m.has b = true → m'.has b = true) :
    m.size = m'.size ↔ ∀ b, m'.has b = true → m.has b = true := by
  have hkeys : m.keys ⊆ m'.keys := fun b hb =>
    has_iff_mem_keys.mp (hsub b (has_iff_mem_keys.mpr hb))
  have hsubperm := List.Nodup.subperm m.keys_nodup hkeys
  rw [size_eq_length_keys, size_eq_length_keys]
  constructor
  · intro hlen b hb
    have hperm := hsubperm.perm_of_length_le hlen.ge
    exact has_iff_mem_keys.mpr (hperm.mem_iff.mpr (has_iff_mem_keys.mp hb))
  · intro h
    have hback : m'.keys ⊆ m.keys := fun b hb =>
      has_iff_mem_keys.mp (h b (has_iff_mem_keys.mpr hb))
    exact le_antisymm hsubperm.length_le (List.Nodup.subperm m'.keys_nodup hback).length_le

end IdSet

namespace Prober

/-! ### The property -/

/-- How many pulls with a nonce were sent for a role. -/
def framesOf (s : Prober) (ρ : RoleRef) : Nat :=
  s.pulls.countP fun p => p.role = ρ && p.probe.isSome

/-- How many tries of a role count. -/
def countedOf (s : Prober) (ρ : RoleRef) : Nat :=
  s.tries.countP fun o => o.counted && o.role = ρ

/-- **What the probes spent and counted.** -/
structure Accounted (s : Prober) : Prop where
  /-- The pulls of a role are within the budget. -/
  budget : ∀ ρ, s.framesOf ρ ≤ holderProbeFrames
  /-- A try whose verdicts are in does not count exactly if all it reached answered. -/
  refunded : ∀ k o reached, s.tries.get k = some o → o.outcome = .settled reached →
    (o.counted = false ↔ ∀ b ∈ reached, b ∈ o.answered)
  /-- Of a try that reached some, only those are taken to have answered. -/
  unreached : ∀ k o reached, s.tries.get k = some o → o.outcome = .settled reached →
    reached ≠ [] → ∀ b, o.nacked.has b = true → b ∈ reached
  /-- The number of tries is that of the tries that count. -/
  tries : ∀ ρ, (s.sync ρ).probeTries = s.countedOf ρ + (s.sync ρ).otherTries

/-- **The condition**, on an act and the state before it: a try that is opened fits in what is left
of the budget; verdicts come while their try is the last one of the topic's root, and where some
target was reached, no target that had answered is said not to have been; and an answer comes while
its try is the last one of the topic's role. -/
def Undisturbed (cfg : ProbeConfig) (s : Prober) : ProbeAct → Prop
  | .resume j (.gathered x) => ∀ t cand ρ targets, s.parked.get j = some (.gathering t cand) →
      s.opening cfg t cand x = some (ρ, targets) → cfg.holderProbe = true →
      (s.sync ρ).probeFrames + targets.length ≤ holderProbeFrames
  | .resume j (.verdicts consumed) => ∀ t k sends declares ρ,
      s.parked.get j = some (.awaiting t (some k) sends declares) → s.rootAt t = some ρ →
      (s.sync ρ).probeOut = some k ∧ ∀ o, s.tries.get k = some o → declares = true →
        (∃ b ∈ sends, consumed b = true) → ∀ b, o.nacked.has b = true → consumed b = true
  | .nack t corr sender => ∀ o, s.tries.get corr = some o → o.topic = t → o.outcome ≠ .dropped →
      o.targets.has sender = true →
      ∃ ρ, s.node.roleAt t = some ρ ∧ (s.sync ρ).probeOut = some corr
  | _ => True

end Prober

/-! ### The invariant -/

/-- What holds of a try. -/
structure ProbeTry.Tallied (o : ProbeTry) : Prop where
  nacked : ∀ b, o.nacked.has b = true → o.targets.has b = true
  answered : o.outcome ≠ .dropped → ∀ b, o.targets.has b = true →
    (b ∈ o.answered ↔ o.nacked.has b = true)
  early : (∀ reached, o.outcome ≠ .settled reached) → o.counted = false
  deferred : o.outcome = .settled [] → o.counted = false
  settled : ∀ reached, o.outcome = .settled reached → reached ≠ [] →
    (∀ b, o.targets.has b = true ↔ b ∈ reached)
      ∧ (o.counted = false ↔ o.nacked.size = o.targets.size)

namespace Prober

/-- A handler waits for the verdicts of a try. -/
def Awaits (s : Prober) (j k : Nat) : Prop :=
  ∃ t sends declares, s.parked.get j = some (.awaiting t (some k) sends declares)

/-- What holds of every state that is reached. -/
structure ProbeBooks (s : Prober) : Prop where
  wf : s.node.Wf
  fresh : ∀ k, s.nextTry ≤ k → s.tries.get k = none
  parkedFresh : ∀ j, s.nextParked ≤ j → s.parked.get j = none
  each : ∀ k o, s.tries.get k = some o →
    o.Tallied ∧ o.role < s.node.roles.next ∧ (s.node.role o.role).topicId = o.topic
  out : ∀ ρ k, (s.sync ρ).probeOut = some k → ∃ o, s.tries.get k = some o ∧ o.role = ρ
  awaiting : ∀ j t k sends declares,
    s.parked.get j = some (.awaiting t (some k) sends declares) →
    ∃ o, s.tries.get k = some o ∧ o.outcome = .waiting ∧ sends ≠ []
      ∧ ∀ b, o.targets.has b = true ↔ b ∈ sends
  once : ∀ i j k, s.Awaits i k → s.Awaits j k → i = j
  frames : ∀ ρ, s.framesOf ρ = (s.sync ρ).probeFrames ∧ s.framesOf ρ ≤ holderProbeFrames
  counted : ∀ ρ, (s.sync ρ).probeTries = s.countedOf ρ + (s.sync ρ).otherTries

/-- **The invariant is enough.** -/
theorem ProbeBooks.accounted {s : Prober} (h : s.ProbeBooks) : s.Accounted where
  budget ρ := (h.frames ρ).2
  refunded k o reached hget hout := by
    have ho := (h.each k o hget).1
    by_cases hne : reached = []
    · subst hne
      exact ⟨fun _ b hb => absurd hb List.not_mem_nil, fun _ => ho.deferred hout⟩
    obtain ⟨htargets, hcounted⟩ := ho.settled reached hout hne
    have hdropped : o.outcome ≠ .dropped := by
      rw [hout]
      exact fun h => ProbeOutcome.noConfusion h
    rw [hcounted, IdSet.size_eq_iff ho.nacked]
    constructor
    · intro hall b hb
      have hb' := (htargets b).mpr hb
      exact (ho.answered hdropped b hb').mpr (hall b hb')
    · intro hall b hb
      exact (ho.answered hdropped b hb).mp (hall b ((htargets b).mp hb))
  unreached k o reached hget hout hne b hb := by
    have ho := (h.each k o hget).1
    exact ((ho.settled reached hout hne).1 b).mp (ho.nacked b hb)
  tries := h.counted

variable {cfg : ProbeConfig} {s : Prober}

/-! ### Moves that keep the books -/

/-- The parts of a role's ledger that the invariant is about. -/
def SameBooks (y y' : ProbeSync) : Prop :=
  y'.probeTries = y.probeTries ∧ y'.otherTries = y.otherTries ∧ y'.probeOut = y.probeOut
    ∧ y'.probeFrames = y.probeFrames

variable {ρ : RoleRef}

section

variable (h : s.ProbeBooks)
include h

theorem ProbeBooks.modifySync {f : ProbeSync → ProbeSync}
    (hf : SameBooks (s.sync ρ) (f (s.sync ρ))) : (s.modifySync ρ f).ProbeBooks := by
  have hsame : ∀ σ, SameBooks (s.sync σ) ((s.modifySync ρ f).sync σ) := by
    intro σ
    unfold Prober.modifySync
    by_cases hσ : σ = ρ
    · subst hσ
      simpa using hf
    · simp [hσ, SameBooks]
  exact { h with
    out := fun σ k hk => h.out σ k ((hsame σ).2.2.1 ▸ hk)
    frames := fun σ => by
      rw [(hsame σ).2.2.2]
      exact h.frames σ
    counted := fun σ => by
      rw [(hsame σ).1, (hsame σ).2.1]
      exact h.counted σ }

theorem ProbeBooks.probeOver (t : TopicId) : (s.probeOver t).ProbeBooks := by
  unfold Prober.probeOver
  cases s.node.roleAt t with
  | none => exact h
  | some ρ =>
    exact h.modifySync (f := fun y => { y with probeInflight := false }) ⟨rfl, rfl, rfl, rfl⟩

theorem ProbeBooks.markDegraded (ρ : RoleRef) : (s.markDegraded ρ).ProbeBooks :=
  h.modifySync ⟨rfl, rfl, rfl, rfl⟩

/-- A handler is suspended that waits for no try's verdicts. -/
theorem ProbeBooks.park {p : ProbeStage}
    (hp : ∀ t k sends declares, p ≠ .awaiting t (some k) sends declares) : (s.park p).ProbeBooks := by
  have hold : ∀ {j t k sends declares},
      (s.park p).parked.get j = some (.awaiting t (some k) sends declares) →
      s.parked.get j = some (.awaiting t (some k) sends declares) := by
    intro j t k sends declares hj
    unfold Prober.park at hj
    rw [get_set] at hj
    split at hj
    · exact absurd (Option.some.inj hj) (hp t k sends declares)
    · exact hj
  exact { h with
    parkedFresh := fun j hj => by
      have hj' : s.nextParked + 1 ≤ j := hj
      unfold Prober.park
      rw [get_set, if_neg (by omega)]
      exact h.parkedFresh j (by omega)
    awaiting := fun j t k sends declares hj => h.awaiting j t k sends declares (hold hj)
    once := by
      rintro i j k ⟨t, sends, d, hi⟩ ⟨t', sends', d', hj⟩
      exact h.once i j k ⟨t, sends, d, hold hi⟩ ⟨t', sends', d', hold hj⟩ }

/-- A suspended handler is taken up. -/
theorem ProbeBooks.unpark (j : Nat) :
    ProbeBooks { s with parked := s.parked.delete j } := by
  have hold : ∀ {i p}, (s.parked.delete j).get i = some p → s.parked.get i = some p := by
    intro i p hi
    exact of_get_delete hi
  exact { h with
    parkedFresh := fun i hi => by
      rw [get_delete, h.parkedFresh i hi, ite_self]
    awaiting := fun i t k sends declares hi => h.awaiting i t k sends declares (hold hi)
    once := fun i i' k ⟨t, sends, d, hi⟩ ⟨t', sends', d', hi'⟩ =>
      h.once i i' k ⟨t, sends, d, hold hi⟩ ⟨t', sends', d', hold hi'⟩ }

/-- A pull without a nonce is sent. -/
theorem ProbeBooks.sendPulls_none (t : TopicId) (ρ : RoleRef) (targets : List NodeId) :
    (s.sendPulls t ρ none targets).ProbeBooks := by
  have hframes : ∀ σ, (s.sendPulls t ρ none targets).framesOf σ = s.framesOf σ := by
    intro σ
    unfold framesOf Prober.sendPulls
    rw [List.countP_append, List.countP_map]
    simp [Function.comp_def]
  exact { h with
    frames := fun σ => by
      rw [hframes σ]
      exact h.frames σ }

/-- A role's ledger counts one more try that has no nonce. -/
theorem ProbeBooks.countOther {f : ProbeSync → ProbeSync}
    (htries : (f (s.sync ρ)).probeTries = (s.sync ρ).probeTries + 1)
    (hother : (f (s.sync ρ)).otherTries = (s.sync ρ).otherTries + 1)
    (hout : (f (s.sync ρ)).probeOut = (s.sync ρ).probeOut)
    (hframes : (f (s.sync ρ)).probeFrames = (s.sync ρ).probeFrames) :
    (s.modifySync ρ f).ProbeBooks := by
  have hsync : ∀ σ, (s.modifySync ρ f).sync σ = if σ = ρ then f (s.sync ρ) else s.sync σ :=
    fun σ => Function.update_apply ..
  exact { h with
    out := fun σ k hk => by
      rw [hsync] at hk
      split at hk
      next hσ =>
        rw [hout] at hk
        exact hσ ▸ h.out ρ k hk
      · exact h.out σ k hk
    frames := fun σ => by
      have hold := h.frames σ
      rw [hsync]
      split
      next hσ =>
        rw [hframes, ← hσ]
        exact hold
      · exact hold
    counted := fun σ => by
      have hold := h.counted σ
      rw [hsync]
      split
      next hσ =>
        subst hσ
        rw [htries, hother, hold, ← Nat.add_assoc]
        rfl
      · exact hold }

end

/-! ### What is done to a try -/

variable {f : ProbeTry → ProbeTry} {k : Nat} {o : ProbeTry}

theorem modifyTry_eq (hget : s.tries.get k = some o) :
    s.modifyTry k f = { s with tries := s.tries.set k (f o) } := by
  unfold Prober.modifyTry
  rw [hget]
  rfl

theorem modifyTry_none (hget : s.tries.get k = none) :
    s.modifyTry k f = s := by
  unfold Prober.modifyTry
  rw [hget]
  rfl

/-- A try is changed, and with it the ledger of its role where it counts more or less than it did.
While its verdicts are awaited it keeps its targets. -/
theorem ProbeBooks.changeTry (h : s.ProbeBooks) {o' : ProbeTry} {y : ProbeSync}
    (hget : s.tries.get k = some o) (ho : o'.Tallied) (hrole : o'.role = o.role)
    (htopic : o'.topic = o.topic)
    (hwaits : ∀ j, s.Awaits j k → o'.outcome = o.outcome ∧ o'.targets = o.targets)
    (htries : y.probeTries + o.counted.toNat = (s.sync o.role).probeTries + o'.counted.toNat)
    (hother : y.otherTries = (s.sync o.role).otherTries)
    (hout : y.probeOut = (s.sync o.role).probeOut)
    (hframes : y.probeFrames = (s.sync o.role).probeFrames) :
    ProbeBooks { s with tries := s.tries.set k o', sync := Function.update s.sync o.role y } := by
  have hget' (i : Nat) : (s.tries.set k o').get i = if i = k then some o' else s.tries.get i :=
    get_set ..
  have hsync (σ : RoleRef) :
      Function.update s.sync o.role y σ = if σ = o.role then y else s.sync σ :=
    Function.update_apply ..
  have hcount (σ : RoleRef) : (s.tries.set k o').countP (fun o => o.counted && o.role = σ)
        + (if o.counted && o.role = σ then 1 else 0)
      = s.countedOf σ + (if o'.counted && o'.role = σ then 1 else 0) :=
    countP_set_over hget o' (fun o => o.counted && o.role = σ)
  have hmade := h.each k o hget
  exact { h with
    fresh := fun i hi => by
      have hne : i ≠ k := by
        rintro rfl
        rw [h.fresh i hi] at hget
        cases hget
      rw [hget', if_neg hne]
      exact h.fresh i hi
    each := fun i oᵢ hi => by
      rw [hget'] at hi
      split at hi
      · cases hi
        exact ⟨ho, hrole ▸ hmade.2.1, by rw [hrole, htopic]; exact hmade.2.2⟩
      · exact h.each i oᵢ hi
    out := fun σ i hi => by
      have hold : (s.sync σ).probeOut = some i := by
        simp only [hsync] at hi
        split at hi
        next hσ => rw [hσ, ← hout, hi]
        · exact hi
      obtain ⟨oᵢ, hoᵢ, hroleᵢ⟩ := h.out σ i hold
      simp only [hget']
      split
      next hik =>
        subst hik
        cases hget.symm.trans hoᵢ
        exact ⟨o', rfl, hrole.trans hroleᵢ⟩
      · exact ⟨oᵢ, hoᵢ, hroleᵢ⟩
    awaiting := fun j t i sends declares hj => by
      obtain ⟨oᵢ, hoᵢ, hwaiting, hne, htargets⟩ := h.awaiting j t i sends declares hj
      simp only [hget']
      split
      next hik =>
        subst hik
        cases hget.symm.trans hoᵢ
        obtain ⟨hsame, hsame'⟩ := hwaits j ⟨t, sends, declares, hj⟩
        exact ⟨o', rfl, hsame.trans hwaiting, hne, hsame' ▸ htargets⟩
      · exact ⟨oᵢ, hoᵢ, hwaiting, hne, htargets⟩
    frames := fun σ => by
      have hold := h.frames σ
      simp only [hsync]
      split
      next hσ =>
        rw [hframes, ← hσ]
        exact hold
      · exact hold
    counted := fun σ => by
      have hold := h.counted σ
      have hnew := hcount σ
      simp only [hsync]
      show _ = (s.tries.set k o').countP (fun o => o.counted && o.role = σ) + _
      rw [hrole] at hnew
      by_cases hσ : o.role = σ
      · subst hσ
        rw [if_pos rfl, hother]
        cases hc : o.counted <;> cases hc' : o'.counted <;> simp [hc, hc'] at hnew htries <;> omega
      · rw [if_neg (Ne.symm hσ)]
        simp [hσ] at hnew
        omega }

/-- A try is changed that counts as it did. -/
theorem ProbeBooks.modifyTry (h : s.ProbeBooks)
    (hf : ∀ o, s.tries.get k = some o → (f o).Tallied ∧ (f o).role = o.role ∧ (f o).topic = o.topic
      ∧ (f o).counted = o.counted
      ∧ ∀ j, s.Awaits j k → (f o).outcome = o.outcome ∧ (f o).targets = o.targets) :
    (s.modifyTry k f).ProbeBooks := by
  cases hget : s.tries.get k with
  | none =>
    rw [modifyTry_none hget]
    exact h
  | some o =>
    obtain ⟨ho, hrole, htopic, hcounted, hwaits⟩ := hf o hget
    have hchanged := h.changeTry (y := s.sync o.role) hget ho hrole htopic hwaits
      (by rw [hcounted]) rfl rfl rfl
    rw [Function.update_eq_self] at hchanged
    rw [modifyTry_eq hget]
    exact hchanged

/-! ### The acts -/

/-- A step of the node keeps the topics of its roles. -/
theorem topics_of_step (cfg : Config) {n : Node} (hwf : n.Wf) (a : World × Act) :
    n.roles.next ≤ (n.step cfg a).roles.next
      ∧ ∀ ρ < n.roles.next, ((n.step cfg a).role ρ).topicId = (n.role ρ).topicId := by
  refine step_rule (I := fun m => n.roles.next ≤ m.roles.next
    ∧ ∀ ρ < n.roles.next, (m.role ρ).topicId = (n.role ρ).topicId) hwf ?_
    ⟨le_refl _, fun _ _ => rfl⟩
  rintro P m m' - - - hmove ⟨hnext, htopic⟩
  refine ⟨hnext.trans hmove.roles_next, fun ρ hρ => ?_⟩
  rw [hmove.topicId (lt_of_lt_of_le hρ hnext), htopic ρ hρ]

section

variable (h : s.ProbeBooks)
include h

theorem ProbeBooks.node (cfg : Config) (a : World × Act) :
    ProbeBooks { s with node := s.node.step cfg a } := by
  obtain ⟨hnext, htopic⟩ := topics_of_step cfg h.wf a
  exact { h with
    wf := h.wf.step a
    each := fun k o hk => by
      obtain ⟨ho, hlt, ht⟩ := h.each k o hk
      exact ⟨ho, lt_of_lt_of_le hlt hnext, (htopic _ hlt).trans ht⟩ }

theorem ProbeBooks.enter (w : World) : (s.enter w).ProbeBooks :=
  { h with
    wf := h.wf.world w }

variable (t : TopicId)

theorem ProbeBooks.noteProbeEvidence (sub : NodeId) (hw : Option Int)
    (via : List NodeId) : (s.noteProbeEvidence cfg t sub hw via).ProbeBooks := by
  unfold Prober.noteProbeEvidence
  split
  · exact h
  · exact h.modifySync ⟨rfl, rfl, rfl, rfl⟩

theorem ProbeBooks.emptyRootProbe : (s.emptyRootProbe cfg t).ProbeBooks := by
  unfold Prober.emptyRootProbe
  split
  · exact h
  next ρ _ =>
  split
  · exact h.markDegraded ρ
  split
  · exact h
  refine (h.modifySync ?_).park ?_
  · exact ⟨rfl, rfl, rfl, rfl⟩
  · rintro t k sends declares ⟨⟩

theorem ProbeBooks.emptyRootProbeSweep :
    (s.emptyRootProbeSweep cfg t).ProbeBooks := by
  unfold Prober.emptyRootProbeSweep
  split
  · exact h
  simp only []
  split
  · split
    · exact h.modifySync ⟨rfl, rfl, rfl, rfl⟩
    · exact h
  split
  · exact h
  split
  · split
    · exact h
    · exact h.emptyRootProbe t
  split
  · exact h
  · exact h.emptyRootProbe t

theorem ProbeBooks.readRepair : (s.readRepair cfg t).ProbeBooks := by
  unfold Prober.readRepair
  split
  · exact h
  have hnode := h.node cfg.toConfig (s.node.world, .readRepair t)
  dsimp only
  split
  · exact hnode
  split
  · exact hnode
  refine (hnode.modifySync ?_).park ?_
  · exact ⟨rfl, rfl, rfl, rfl⟩
  · rintro t k sends declares ⟨⟩

theorem ProbeBooks.repairGathered (ρ : RoleRef) (cand : List NodeId)
    (reach : NodeId → Bool) : (s.repairGathered t ρ cand reach).ProbeBooks := by
  unfold Prober.repairGathered
  split
  · exact h
  · exact (h.countOther rfl rfl rfl rfl).sendPulls_none t ρ _

end

/-! ### A try is opened -/

theorem ProbeBooks.markGathered (h : s.ProbeBooks) (t : TopicId) (cand : IdSet) (x : Gathered) :
    (s.markGathered cfg t cand x).ProbeBooks := by
  unfold Prober.markGathered
  cases s.emptyRootAt t with
  | none => exact h
  | some ρ =>
    rw [Option.elim_some]
    split
    · exact h.markDegraded ρ
    split
    · exact h
    · exact h.modifySync ⟨rfl, rfl, rfl, rfl⟩

/-- What is marked before changes nothing that a try is opened by. -/
theorem markGathered_frames (t : TopicId) (cand : IdSet) (x : Gathered) (ρ : RoleRef) :
    ((s.markGathered cfg t cand x).sync ρ).probeFrames = (s.sync ρ).probeFrames := by
  unfold Prober.markGathered
  cases s.emptyRootAt t with
  | none => rfl
  | some σ =>
    have hmod (f : ProbeSync → ProbeSync) (hf : ∀ y, (f y).probeFrames = y.probeFrames) :
        ((s.modifySync σ f).sync ρ).probeFrames = (s.sync ρ).probeFrames := by
      unfold Prober.modifySync
      by_cases hρ : ρ = σ
      · subst hρ
        simp [hf]
      · simp [hρ]
    rw [Option.elim_some]
    split
    · exact hmod _ fun _ => rfl
    split
    · rfl
    · exact hmod _ fun _ => rfl

theorem markGathered_node (t : TopicId) (cand : IdSet) (x : Gathered) :
    (s.markGathered cfg t cand x).node = s.node := by
  unfold Prober.markGathered
  cases s.emptyRootAt t with
  | none => rfl
  | some ρ =>
    rw [Option.elim_some]
    split
    · rfl
    split <;> rfl

/-- A try that was just opened. -/
theorem probeBooks_fresh (targets : List NodeId) (t : TopicId) (ρ : RoleRef) :
    ProbeTry.Tallied { targets := IdSet.addAll ∅ targets, topic := t, role := ρ } where
  nacked := by rintro b ⟨⟩
  answered := fun _ b _ => ⟨fun hb => absurd hb List.not_mem_nil, by rintro ⟨⟩⟩
  early := fun _ => rfl
  deferred := fun _ => rfl
  settled := by rintro reached ⟨⟩

variable {t : TopicId} {declares : Bool}

/-! What a try that is opened adds to the books. -/

section

variable (s) (t : TopicId) (ρ : RoleRef) (targets : List NodeId)

theorem get_openProbeTry (k : Nat) : (s.openProbeTry t ρ targets).tries.get k
    = if k = s.nextTry then some { targets := IdSet.addAll ∅ targets, topic := t, role := ρ }
      else s.tries.get k := get_set ..

theorem sync_openProbeTry (σ : RoleRef) : (s.openProbeTry t ρ targets).sync σ
    = if σ = ρ then { s.sync ρ with
        probeOut := some s.nextTry
        probeStart := some ((s.sync ρ).probeStart.getD s.node.now)
        probeFrames := (s.sync ρ).probeFrames + targets.length } else s.sync σ :=
  Function.update_apply ..

/-- One frame for each target. -/
theorem framesOf_sendPulls (k : Option Nat) (σ : RoleRef) (hk : k.isSome = true) :
    (targets.map (ProbePull.mk ρ t · k) ++ s.pulls).countP (fun p => p.role = σ && p.probe.isSome)
      = (if σ = ρ then targets.length else 0) + s.framesOf σ := by
  rw [List.countP_append, List.countP_map]
  congr 1
  split
  next hσ => simp [Function.comp_def, hσ, hk]
  next hσ => simp [Function.comp_def, Ne.symm hσ]

end

/-- A handler that awaits verdicts once the try is opened awaits those of the try, or did before. -/
theorem ProbeBooks.awaits_opened (h : s.ProbeBooks) {targets : List NodeId} {j : Nat} {t' : TopicId} {k : Nat}
    {sends : List NodeId} {d : Bool}
    (hj : (s.parked.set s.nextParked (.awaiting t (some s.nextTry) targets declares)).get j
      = some (.awaiting t' (some k) sends d)) :
    (j = s.nextParked ∧ k = s.nextTry ∧ sends = targets)
      ∨ (k ≠ s.nextTry ∧ s.parked.get j = some (.awaiting t' (some k) sends d)) := by
  rw [get_set] at hj
  split at hj
  next hjn =>
    cases hj
    exact .inl ⟨hjn, rfl, rfl⟩
  · refine .inr ⟨?_, hj⟩
    rintro rfl
    obtain ⟨o, ho, -⟩ := h.awaiting _ _ _ _ _ hj
    rw [h.fresh _ le_rfl] at ho
    cases ho

/-- **A try is opened** with a nonce of its own, its pulls are sent, and its verdicts are awaited:
its targets fit in what is left of the budget. -/
theorem ProbeBooks.openTry (h : s.ProbeBooks) {targets : List NodeId} (hat : s.node.roleAt t = some ρ)
    (hne : targets ≠ []) (hfits : (s.sync ρ).probeFrames + targets.length ≤ holderProbeFrames) :
    ProbeBooks (((s.openProbeTry t ρ targets).sendPulls t ρ (some s.nextTry) targets).park
      (.awaiting t (some s.nextTry) targets declares)) := by
  have hget := get_openProbeTry s t ρ targets
  have hsync := sync_openProbeTry s t ρ targets
  have hcount (σ : RoleRef) :
      (s.openProbeTry t ρ targets).tries.countP (fun o => o.counted && o.role = σ)
        = s.countedOf σ :=
    countP_set_new (h.fresh _ le_rfl) _ _
  exact {
    wf := h.wf
    fresh := fun k hk => by
      have hk' : s.nextTry + 1 ≤ k := hk
      show (s.openProbeTry t ρ targets).tries.get k = none
      rw [hget, if_neg (by omega)]
      exact h.fresh k (by omega)
    parkedFresh := fun j hj => by
      have hj' : s.nextParked + 1 ≤ j := hj
      show (s.parked.set s.nextParked _).get j = none
      rw [get_set, if_neg (by omega)]
      exact h.parkedFresh j (by omega)
    each := fun k o hk => by
      replace hk : (s.openProbeTry t ρ targets).tries.get k = some o := hk
      rw [hget] at hk
      split at hk
      · cases hk
        exact ⟨probeBooks_fresh targets t ρ, h.wf.registered t ρ hat⟩
      · exact h.each k o hk
    out := fun σ k hk => by
      replace hk : ((s.openProbeTry t ρ targets).sync σ).probeOut = some k := hk
      show ∃ o, (s.openProbeTry t ρ targets).tries.get k = some o ∧ o.role = σ
      rw [hsync] at hk
      split at hk
      next hσ =>
        cases hk
        exact ⟨_, by rw [hget, if_pos rfl], hσ.symm⟩
      · obtain ⟨o, ho, hrole⟩ := h.out σ k hk
        refine ⟨o, ?_, hrole⟩
        rw [hget, if_neg, ho]
        rintro rfl
        rw [h.fresh _ le_rfl] at ho
        cases ho
    awaiting := fun j t' k sends d hj => by
      show ∃ o, (s.openProbeTry t ρ targets).tries.get k = some o ∧ _
      rw [hget]
      rcases h.awaits_opened hj with ⟨-, rfl, rfl⟩ | ⟨hk, hj⟩
      · rw [if_pos rfl]
        refine ⟨_, rfl, rfl, hne, fun b => ?_⟩
        rw [IdSet.has_addAll]
        exact ⟨fun hb => hb.resolve_left (by rintro ⟨⟩), .inr⟩
      · rw [if_neg hk]
        exact h.awaiting j t' k sends d hj
    once := by
      rintro i j k ⟨ti, si, di, hi⟩ ⟨tj, sj, dj, hj⟩
      rcases h.awaits_opened hi with ⟨rfl, hik, -⟩ | ⟨hik, hi⟩
      · rcases h.awaits_opened hj with ⟨rfl, -⟩ | ⟨hjk, -⟩
        · rfl
        · exact absurd hik hjk
      · rcases h.awaits_opened hj with ⟨-, hjk, -⟩ | ⟨-, hj⟩
        · exact absurd hjk hik
        · exact h.once i j k ⟨ti, si, di, hi⟩ ⟨tj, sj, dj, hj⟩
    frames := fun σ => by
      obtain ⟨hsent, hle⟩ := h.frames σ
      have hnow := framesOf_sendPulls s t ρ targets (some s.nextTry) σ rfl
      show List.countP _ _ = ((s.openProbeTry t ρ targets).sync σ).probeFrames ∧ List.countP _ _ ≤ _
      rw [hsync]
      split
      next hσ =>
        subst hσ
        rw [if_pos rfl, hsent] at hnow
        exact ⟨hnow.trans (Nat.add_comm _ _), hnow.trans_le (by omega)⟩
      next hσ =>
        rw [if_neg hσ, Nat.zero_add] at hnow
        exact ⟨hnow.trans hsent, hnow.trans_le hle⟩
    counted := fun σ => by
      have hold := h.counted σ
      show ((s.openProbeTry t ρ targets).sync σ).probeTries
        = (s.openProbeTry t ρ targets).tries.countP _
          + ((s.openProbeTry t ρ targets).sync σ).otherTries
      rw [hcount, hsync]
      split
      next hσ =>
        subst hσ
        exact hold
      · exact hold }

theorem of_opening {cand : IdSet} {x : Gathered} {targets : List NodeId}
    (h : s.opening cfg t cand x = some (ρ, targets)) :
    s.node.roleAt t = some ρ ∧ targets ≠ [] := by
  obtain ⟨σ, hσ, h⟩ := Option.bind_eq_some_iff.mp h
  split at h
  · cases h
  simp only [] at h
  split at h
  · cases h
  next hne =>
    cases h
    exact ⟨Option.eq_some_of_filter_eq_some (Option.eq_some_of_filter_eq_some hσ), hne⟩

theorem ProbeBooks.probeGathered (h : s.ProbeBooks) {cand : IdSet} {x : Gathered}
    (hfits : ∀ ρ targets, s.opening cfg t cand x = some (ρ, targets) → cfg.holderProbe = true →
      (s.sync ρ).probeFrames + targets.length ≤ holderProbeFrames) :
    (s.probeGathered cfg t cand x).ProbeBooks := by
  have hmarked : (s.markGathered cfg t cand x).ProbeBooks := h.markGathered t cand x
  unfold Prober.probeGathered
  dsimp only
  split
  · exact hmarked.probeOver t
  next ρ targets hopening =>
  obtain ⟨hat, hne⟩ := of_opening hopening
  split
  next harmed =>
    refine hmarked.openTry ?_ hne ?_
    · rw [markGathered_node]
      exact hat
    · rw [markGathered_frames]
      exact hfits ρ targets hopening harmed
  · refine (hmarked.sendPulls_none t ρ targets).park ?_
    rintro t' k sends declares ⟨⟩

/-! ### The verdicts come in -/

/-- A try whose verdicts are awaited no more, as it was. -/
structure Concluding (s : Prober) (k : Nat) (sends : List NodeId) (o : ProbeTry) : Prop where
  get : s.tries.get k = some o
  free : ∀ j, ¬s.Awaits j k
  waiting : o.outcome = .waiting
  nonempty : sends ≠ []
  targets : ∀ b, o.targets.has b = true ↔ b ∈ sends

variable {sends : List NodeId}

/-- The verdicts of a try that the topic's root made no more are dropped. -/
theorem ProbeBooks.drop (h : s.ProbeBooks) (ho : Concluding s k sends o) :
    (s.conclude .dropped false (some k)).ProbeBooks := by
  refine h.modifyTry fun o' ho' => ?_
  cases ho.get.symm.trans ho'
  have hsound := (h.each k o ho.get).1
  have hearly : o.counted = false := hsound.early fun r hr => by
    rw [ho.waiting] at hr
    cases hr
  refine ⟨?_, rfl, rfl, Bool.or_false _, fun j hj => absurd hj (ho.free j)⟩
  exact {
    nacked := hsound.nacked
    answered := fun hne => absurd rfl hne
    early := fun _ => by rw [hearly]; rfl
    deferred := by rintro ⟨⟩
    settled := by rintro reached ⟨⟩ }

variable {consumed : NodeId → Bool}

/-- The targets that are left are those that were reached, unless none was. -/
theorem has_leftTargets (htargets : ∀ b, o.targets.has b = true ↔ b ∈ sends)
    (hsome : ¬(declares = true ∧ sends.filter consumed = [])) (b : NodeId) :
    (leftTargets o sends declares consumed).has b = true
      ↔ b ∈ if declares = true then sends.filter consumed else sends := by
  unfold leftTargets
  cases declares with
  | false => simpa using htargets b
  | true =>
    have hne : sends.filter consumed ≠ [] := fun h => hsome ⟨rfl, h⟩
    rw [if_pos (by simpa using hne), if_pos rfl, IdSet.has_deleteAll, htargets, List.mem_filter,
      List.mem_filter]
    simp only [Bool.not_eq_true', not_and, Bool.not_eq_false]
    exact ⟨fun h => ⟨h.1, h.2 h.1⟩, fun h => ⟨h.1, fun _ => h.2⟩⟩

/-- No target that had answered is said not to have been reached, where some was. -/
def NacksReached (o : ProbeTry) (sends : List NodeId) (declares : Bool) (consumed : NodeId → Bool) :
    Prop :=
  declares = true → (∃ b ∈ sends, consumed b = true) → ∀ b, o.nacked.has b = true →
    consumed b = true

/-- Those that answered are left. -/
theorem nacked_left (hsound : o.Tallied) (hnacks : NacksReached o sends declares consumed)
    (b : NodeId) (hb : o.nacked.has b = true) :
    (leftTargets o sends declares consumed).has b = true := by
  have htarget := hsound.nacked b hb
  unfold leftTargets
  split
  next hdrop =>
    rw [Bool.and_eq_true, decide_eq_true_eq] at hdrop
    obtain ⟨hdeclares, hne⟩ := hdrop
    obtain ⟨c, hc⟩ := List.exists_mem_of_ne_nil _ hne
    have hconsumed := hnacks hdeclares ⟨c, List.mem_filter.mp hc⟩ b hb
    rw [IdSet.has_deleteAll]
    refine ⟨htarget, fun hmem => ?_⟩
    have hnot := (List.mem_filter.mp hmem).2
    rw [hconsumed] at hnot
    cases hnot
  · exact htarget

theorem has_of_left {b : NodeId} (hb : (leftTargets o sends declares consumed).has b = true) :
    o.targets.has b = true := by
  unfold leftTargets at hb
  split at hb
  · exact (IdSet.has_deleteAll.mp hb).1
  · exact hb

/-- A try that waits stays sound when its targets that were not reached go. -/
theorem probeBooks_left (hsound : o.Tallied) (hwaiting : o.outcome = .waiting)
    (hnacks : NacksReached o sends declares consumed) :
    ProbeTry.Tallied { o with targets := leftTargets o sends declares consumed } :=
  { hsound with
    nacked := nacked_left hsound hnacks
    answered := fun hne b hb => hsound.answered hne b (has_of_left hb)
    settled := fun reached hr => by
      replace hr : o.outcome = .settled reached := hr
      rw [hwaiting] at hr
      cases hr }

/-- A try that waited is sound when its verdicts are in, if it counts as it should. -/
theorem probeBooks_settled {reached : List NodeId} (counted : Bool) (hsound : o.Tallied)
    (hwaiting : o.outcome = .waiting) (hdeferred : reached = [] → counted = false)
    (hsettled : reached ≠ [] → (∀ b, o.targets.has b = true ↔ b ∈ reached)
      ∧ (counted = false ↔ o.nacked.size = o.targets.size)) :
    ProbeTry.Tallied { o with counted := o.counted || counted, outcome := .settled reached } := by
  have hearly : o.counted = false := hsound.early fun r hr => by
    rw [hwaiting] at hr
    cases hr
  have hdropped : o.outcome ≠ .dropped := by
    rw [hwaiting]
    rintro ⟨⟩
  exact {
    nacked := hsound.nacked
    answered := fun _ => hsound.answered hdropped
    early := fun hne => absurd rfl (hne reached)
    deferred := fun hr => by
      rw [hearly, Bool.false_or]
      exact hdeferred (ProbeOutcome.settled.inj hr)
    settled := fun r hr hne => by
      cases hr
      rw [hearly, Bool.false_or]
      exact hsettled hne }

/-- **The verdicts of a try come in.** -/
theorem ProbeBooks.probeVerdicts_some (h : s.ProbeBooks) (ho : Concluding s k sends o)
    (hlast : ∀ ρ, s.rootAt t = some ρ → (s.sync ρ).probeOut = some k
      ∧ NacksReached o sends declares consumed) :
    (s.probeVerdicts t (some k) sends declares consumed).ProbeBooks := by
  unfold Prober.probeVerdicts
  split
  · exact (h.drop ho).probeOver t
  next ρ hroot =>
  obtain ⟨hout, hnacks⟩ := hlast ρ hroot
  have hsound := (h.each k o ho.get).1
  have hrole : o.role = ρ := by
    obtain ⟨o', ho', hrole⟩ := h.out ρ k hout
    rw [← hrole, Option.some.inj (ho.get.symm.trans ho')]
  subst hrole
  -- the targets that were not reached go
  set o₁ : ProbeTry := { o with targets := leftTargets o sends declares consumed } with ho₁
  have hsound₁ : o₁.Tallied := probeBooks_left hsound ho.waiting hnacks
  have hdrop : s.dropUnreached k sends declares consumed
      = { s with tries := s.tries.set k o₁ } := modifyTry_eq ho.get
  set s₁ := s.dropUnreached k sends declares consumed with hs₁
  have h₁ : s₁.ProbeBooks := h.modifyTry fun o' ho' => by
    cases ho.get.symm.trans ho'
    exact ⟨hsound₁, rfl, rfl, rfl, fun j hj => absurd hj (ho.free j)⟩
  have hget₁ : s₁.tries.get k = some o₁ := by
    rw [hdrop]
    exact (get_set ..).trans (if_pos rfl)
  have hfree₁ : ∀ j, ¬s₁.Awaits j k := by
    rw [hdrop]
    exact ho.free
  have hsync₁ : s₁.sync = s.sync := by rw [hdrop]
  have hwaiting₁ : o₁.outcome = .waiting := ho.waiting
  -- a try that does not count
  have hkeep {reached : List NodeId} (hdef : reached ≠ [] →
      (∀ b, o₁.targets.has b = true ↔ b ∈ reached) ∧ o₁.nacked.size = o₁.targets.size) :
      (s₁.conclude (.settled reached) false (some k)).ProbeBooks :=
    h₁.modifyTry fun o' ho' => by
      cases hget₁.symm.trans ho'
      refine ⟨probeBooks_settled false hsound₁ hwaiting₁ (fun _ => rfl) fun hne => ?_, rfl, rfl,
        Bool.or_false _, fun j hj => absurd hj (hfree₁ j)⟩
      obtain ⟨htargets, hsize⟩ := hdef hne
      exact ⟨htargets, iff_of_true rfl hsize⟩
  dsimp only [Option.elim_some]
  split
  next hdeferred =>
    rw [Bool.and_eq_true, decide_eq_true_eq] at hdeferred
    refine ProbeBooks.probeOver (ProbeBooks.modifySync (hkeep fun hne => ?_) ⟨rfl, rfl, rfl, rfl⟩) t
    rw [if_pos hdeferred.1] at hne
    exact absurd hdeferred.2 hne
  next hsome =>
  replace hsome : ¬(declares = true ∧ sends.filter consumed = []) := by
    rwa [Bool.and_eq_true, decide_eq_true_eq] at hsome
  have htargets₁ := has_leftTargets (o := o) ho.targets hsome
  have hall : s₁.allNacked k = decide (o₁.nacked.size = o₁.targets.size) := by
    unfold Prober.allNacked
    rw [hget₁, Option.any_some]
  split
  next hnacked =>
    rw [Option.any_some, Bool.and_eq_true, hall, decide_eq_true_eq, decide_eq_true_eq] at hnacked
    exact ProbeBooks.probeOver
      (ProbeBooks.modifySync (hkeep fun _ => ⟨htargets₁, hnacked.2⟩) ⟨rfl, rfl, rfl, rfl⟩) t
  next hnacked =>
  rw [Option.any_some, Bool.and_eq_true, hall, decide_eq_true_eq, decide_eq_true_eq, hsync₁,
    not_and] at hnacked
  have hsize : o₁.nacked.size ≠ o₁.targets.size := hnacked hout
  have hnonempty : (if declares = true then sends.filter consumed else sends) ≠ [] := by
    split
    next hd => exact fun h => hsome ⟨hd, h⟩
    · exact ho.nonempty
  have hsound₂ := probeBooks_settled true hsound₁ hwaiting₁ (fun hnil => absurd hnil hnonempty)
    fun _ => ⟨htargets₁, iff_of_false (by rintro ⟨⟩) hsize⟩
  have hearly : o₁.counted = false := hsound₁.early fun r hr => by
    rw [hwaiting₁] at hr
    cases hr
  have hchanged := h₁.changeTry (y := { s₁.sync o₁.role with
      probeTries := (s₁.sync o₁.role).probeTries + 1
      probeDeferred := false
      probed := (s₁.sync o₁.role).probed.map (·.addAll sends) })
    hget₁ hsound₂ rfl rfl (fun j hj => absurd hj (hfree₁ j)) (by simp [hearly]) rfl rfl rfl
  apply ProbeBooks.probeOver
  rw [Prober.conclude, modifyTry_eq hget₁]
  exact hchanged

theorem ProbeBooks.probeVerdicts_none (h : s.ProbeBooks) :
    (s.probeVerdicts t none sends declares consumed).ProbeBooks := by
  unfold Prober.probeVerdicts
  split
  · exact ProbeBooks.probeOver h t
  next ρ _ =>
  dsimp only [Option.elim_none]
  split
  · refine ProbeBooks.probeOver ?_ t
    exact ProbeBooks.modifySync (s := s) h ⟨rfl, rfl, rfl, rfl⟩
  split
  next hnone => cases hnone
  · exact ProbeBooks.probeOver (h.countOther rfl rfl rfl rfl) t

/-! ### An answer comes in -/

variable {sender : NodeId}

/-- An answer of a node that is no target changes nothing that a try is judged by. -/
theorem probeBooks_noted (hsound : o.Tallied)
    (hother : o.outcome = .dropped ∨ o.targets.has sender ≠ true) :
    ProbeTry.Tallied { o with answered := sender :: o.answered } :=
  { hsound with
    answered := fun hne b hb => by
      have hbs : b ≠ sender := by
        rintro rfl
        exact hother.elim hne fun h => h hb
      rw [← hsound.answered hne b hb, List.mem_cons, or_iff_right hbs] }

/-- A target that answers is one more that answered, and the try counts no longer if it was the
last. -/
theorem probeBooks_nacked {counted : Bool} (hsound : o.Tallied) (htarget : o.targets.has sender = true)
    (hcounted : counted
      = (o.counted && !((o.nacked.set sender ()).size = o.targets.size && o.counted))) :
    ProbeTry.Tallied { o with
      answered := sender :: o.answered, nacked := o.nacked.set sender (), counted := counted } := by
  have hnacked : ∀ b, (o.nacked.set sender ()).has b = true → o.targets.has b = true := by
    intro b hb
    rw [has_set, Bool.or_eq_true, decide_eq_true_eq] at hb
    exact hb.elim (fun h => h ▸ htarget) (hsound.nacked b)
  have hless (h : o.counted = false) : counted = false := by rw [hcounted, h, Bool.false_and]
  exact {
    nacked := hnacked
    answered := fun hne b hb => by
      rw [has_set, Bool.or_eq_true, decide_eq_true_eq, List.mem_cons, hsound.answered hne b hb]
    early := fun h => hless (hsound.early h)
    deferred := fun h => hless (hsound.deferred h)
    settled := fun reached hr hne => by
      obtain ⟨htargets, hold⟩ := hsound.settled reached hr hne
      refine ⟨htargets, ?_⟩
      cases hc : o.counted with
      | false =>
        -- all had answered before
        have hall := (IdSet.size_eq_iff hsound.nacked).mp (hold.mp hc)
        refine iff_of_true (hless hc) ((IdSet.size_eq_iff hnacked).mpr fun b hb => ?_)
        rw [has_set, hall b hb, Bool.or_true]
      | true => rw [hcounted, hc]; simp }

/-- A try, with one more answer written down. -/
def noted (o : ProbeTry) (sender : NodeId) : ProbeTry := { o with answered := sender :: o.answered }

/-- Was this the answer that a try which counts had waited for? -/
def refunds (o : ProbeTry) (sender : NodeId) : Bool :=
  (o.nacked.set sender ()).size = o.targets.size && o.counted

/-- A try that hears an answer. -/
def heard (o : ProbeTry) (sender : NodeId) : ProbeTry :=
  { o with
    answered := sender :: o.answered
    nacked := o.nacked.set sender ()
    counted := o.counted && !refunds o sender }

section

variable {corr : Nat} (hget : s.tries.get corr = some o)
include hget

theorem hearNack_eq :
    s.hearNack ρ corr sender o = { s with
      tries := s.tries.set corr { o with
        nacked := o.nacked.set sender ()
        counted := o.counted && !refunds o sender }
      sync := Function.update s.sync ρ { s.sync ρ with
        roleless := trimRoleless ((s.sync ρ).roleless.set sender ())
        probeTries := if refunds o sender then (s.sync ρ).probeTries - 1
          else (s.sync ρ).probeTries } } := by
  unfold Prober.hearNack
  dsimp only
  rw [modifyTry_eq hget]
  rfl

/-- An answer that the try does not hear is written down, if it is for its topic. -/
theorem onProbeNack_unheard (hno : (∀ ρ, s.node.roleAt t = some ρ → (s.sync ρ).probeOut ≠ some corr)
      ∨ o.targets.has sender ≠ true) :
    s.onProbeNack t corr sender
      = { s with tries := s.tries.set corr (if o.topic = t then noted o sender else o) } := by
  unfold Prober.onProbeNack Prober.noteAnswer
  dsimp only
  rw [modifyTry_eq hget]
  have hget₁ : (s.tries.set corr (if o.topic = t then noted o sender else o)).get corr
      = some (if o.topic = t then noted o sender else o) :=
    (get_set ..).trans (if_pos rfl)
  have htargets : (if o.topic = t then noted o sender else o).targets = o.targets := by
    split <;> rfl
  split
  · rfl
  next ρ hsome =>
  obtain ⟨hat, hout⟩ := Option.filter_eq_some_iff.mp hsome
  have htarget := hno.resolve_left fun h => h ρ hat (of_decide_eq_true hout)
  split
  · rfl
  next o' hsome' =>
  obtain ⟨ho', hhas⟩ := Option.filter_eq_some_iff.mp hsome'
  cases hget₁.symm.trans ho'
  rw [htargets] at hhas
  exact absurd hhas htarget

/-- The last try of the topic's role hears a target. -/
theorem onProbeNack_heard (htopic : o.topic = t)
    (hat : s.node.roleAt t = some ρ) (hout : (s.sync ρ).probeOut = some corr)
    (htarget : o.targets.has sender = true) :
    s.onProbeNack t corr sender = { s with
      tries := s.tries.set corr (heard o sender)
      sync := Function.update s.sync ρ { s.sync ρ with
        roleless := trimRoleless ((s.sync ρ).roleless.set sender ())
        probeTries := if refunds o sender then (s.sync ρ).probeTries - 1
          else (s.sync ρ).probeTries } } := by
  have hnoted : s.noteAnswer t corr sender
      = { s with tries := s.tries.set corr (noted o sender) } := by
    unfold Prober.noteAnswer
    rw [modifyTry_eq hget, if_pos htopic]
    rfl
  have hget₁ : (s.tries.set corr (noted o sender)).get corr = some (noted o sender) :=
    (get_set ..).trans (if_pos rfl)
  have hrole : (s.node.roleAt t).filter (fun ρ => (s.sync ρ).probeOut = some corr) = some ρ := by
    rw [hat, Option.filter_some, if_pos (decide_eq_true hout)]
  have htry : ((s.tries.set corr (noted o sender)).get corr).filter
      (fun (o : ProbeTry) => o.targets.has sender) = some (noted o sender) := by
    rw [hget₁, Option.filter_some]
    exact if_pos htarget
  unfold Prober.onProbeNack
  rw [hnoted]
  dsimp only
  rw [hrole]
  rw [htry]
  dsimp only
  rw [hearNack_eq hget₁]
  rw [set_set]
  rfl

end

/-- **An answer comes in.** -/
theorem ProbeBooks.onProbeNack (h : s.ProbeBooks) {corr : Nat}
    (hlast : ∀ o, s.tries.get corr = some o → o.topic = t → o.outcome ≠ .dropped →
      o.targets.has sender = true →
      ∃ ρ, s.node.roleAt t = some ρ ∧ (s.sync ρ).probeOut = some corr) :
    (s.onProbeNack t corr sender).ProbeBooks := by
  cases hget : s.tries.get corr with
  | none =>
    have hsame : s.onProbeNack t corr sender = s := by
      unfold Prober.onProbeNack Prober.noteAnswer
      dsimp only
      rw [modifyTry_none hget, hget]
      split <;> rfl
    rw [hsame]
    exact h
  | some o =>
    obtain ⟨hsound, -, htopic⟩ := h.each corr o hget
    -- the role whose last try this is made it
    have hmade {ρ : RoleRef} (hout : (s.sync ρ).probeOut = some corr) : o.role = ρ := by
      obtain ⟨o', ho', hrole⟩ := h.out ρ corr hout
      rw [← hrole, Option.some.inj (hget.symm.trans ho')]
    by_cases hhears : (∃ ρ, s.node.roleAt t = some ρ ∧ (s.sync ρ).probeOut = some corr)
        ∧ o.targets.has sender = true
    · obtain ⟨⟨ρ, hat, hout⟩, htarget⟩ := hhears
      obtain rfl := hmade hout
      have ht : o.topic = t := htopic ▸ (h.wf.registered t o.role hat).2
      rw [onProbeNack_heard hget ht hat hout htarget]
      refine h.changeTry hget (probeBooks_nacked hsound htarget rfl) rfl rfl (fun _ _ => ⟨rfl, rfl⟩) ?_
        rfl rfl rfl
      -- a try that counts is among those of its role
      have hpos : o.counted = true → 0 < (s.sync o.role).probeTries := by
        intro hcounted
        have hone : 0 < s.countedOf o.role := by
          unfold countedOf
          rw [countP_eq_delete hget, if_pos (by simp [hcounted])]
          exact Nat.succ_pos _
        rw [h.counted]
        omega
      show (if refunds o sender then _ else _) + o.counted.toNat
        = _ + (o.counted && !refunds o sender).toNat
      split
      next hrefunds =>
        have hcounted : o.counted = true := (Bool.and_eq_true _ _ ▸ hrefunds).2
        have := hpos hcounted
        simp only [hcounted, hrefunds, Bool.not_true, Bool.and_false, Bool.toNat_true,
          Bool.toNat_false]
        omega
      next hrefunds => rw [Bool.eq_false_iff.mpr hrefunds, Bool.not_false, Bool.and_true]
    · have hno : (∀ ρ, s.node.roleAt t = some ρ → (s.sync ρ).probeOut ≠ some corr)
          ∨ o.targets.has sender ≠ true := by
        by_contra hcon
        push Not at hcon
        exact hhears hcon
      rw [onProbeNack_unheard hget hno]
      have hsound' : ProbeTry.Tallied (if o.topic = t then noted o sender else o) := by
        split
        next ht =>
          apply probeBooks_noted hsound
          by_contra hcon
          rw [not_or, not_not] at hcon
          exact hhears ⟨hlast o hget ht hcon.1 hcon.2, hcon.2⟩
        · exact hsound
      have hchanged := h.changeTry (y := s.sync o.role) hget hsound' (by split <;> rfl)
        (by split <;> rfl) (fun _ _ => by split <;> exact ⟨rfl, rfl⟩)
        (by split <;> rfl) rfl rfl rfl
      rwa [Function.update_eq_self] at hchanged

/-! ### Steps and runs -/

theorem ProbeBooks.continueWith (h : s.ProbeBooks) {j : Nat} {p : ProbeStage} {r : ProbeResume}
    (hj : s.parked.get j = some p) (hok : Undisturbed cfg s (.resume j r)) :
    (Prober.continueWith cfg { s with parked := s.parked.delete j } p r).ProbeBooks := by
  have hfree := h.unpark j
  unfold Prober.continueWith
  split
  next t cand x => exact hfree.probeGathered fun ρ targets => hok t cand ρ targets hj
  next t out sends declares consumed =>
    cases out with
    | none => exact hfree.probeVerdicts_none
    | some k =>
      obtain ⟨o, hget, hwaiting, hne, htargets⟩ := h.awaiting j t k sends declares hj
      refine hfree.probeVerdicts_some (o := o) ⟨hget, ?_, hwaiting, hne, htargets⟩ fun ρ hroot => ?_
      · rintro i ⟨t', sends', d', hi⟩
        have hij := ne_of_get_delete hi
        replace hi := of_get_delete hi
        exact hij (h.once i j k ⟨t', sends', d', hi⟩ ⟨t, sends, declares, hj⟩)
      · obtain ⟨hout, hnacks⟩ := hok t k sends declares ρ hj hroot
        exact ⟨hout, hnacks o hget⟩
  next t ρ cand reach => exact hfree.repairGathered t ρ cand reach
  · exact hfree

/-- **A step under the condition keeps the books.** -/
theorem ProbeBooks.step (h : s.ProbeBooks) (a : World × ProbeAct) (hok : Undisturbed cfg (s.enter a.1) a.2) :
    (s.step cfg a).ProbeBooks := by
  have henter := h.enter a.1
  obtain ⟨w, a⟩ := a
  cases a with
  | node a => exact henter.node cfg.toConfig (w, a)
  | timer t => exact henter.emptyRootProbe t
  | sweep t => exact henter.emptyRootProbeSweep t
  | evidence t sub hw via => exact henter.noteProbeEvidence t sub hw via
  | nack t corr sender => exact henter.onProbeNack hok
  | readRepair t => exact henter.readRepair t
  | resume j r =>
    show ((s.enter w).resume cfg j r).ProbeBooks
    unfold Prober.resume
    split
    · exact henter
    next p hj => exact henter.continueWith hj hok

theorem probeBooks_boot (w : World) : (boot w).ProbeBooks where
  wf := Node.boot_wf w
  fresh := fun _ _ => rfl
  parkedFresh := fun _ _ => rfl
  each := by rintro k o ⟨⟩
  out := by rintro ρ k ⟨⟩
  awaiting := by rintro j t k sends declares ⟨⟩
  once := by rintro i j k ⟨t, sends, d, ⟨⟩⟩
  frames := fun _ => ⟨rfl, Nat.zero_le _⟩
  counted := fun _ => rfl

/-- **A probe keeps its accounts** in every run whose acts meet the condition: each role's pulls are
within the budget, and a try whose verdicts are in counts unless all that it reached answered. -/
theorem probe_accounts (cfg : ProbeConfig) (w : World) (as : List (World × ProbeAct))
    (hok : EachStep (step cfg) (fun s a => Undisturbed cfg (s.enter a.1) a.2) (boot w) as) :
    (run (step cfg) (boot w) as).Accounted :=
  (EachStep.invariant (I := ProbeBooks) (fun _ a h hC => h.step a hC) (probeBooks_boot w) hok).accounted

/-- The sample node, with the option. -/
def sampleProbeConfig : ProbeConfig := { sampleConfig with holderProbe := true }

/-- A SUB makes this node the root of an empty topic. -/
def sampleRoot : World × ProbeAct :=
  (sampleWorld 0, .node (.sub ⟨sampleTopicId, ⟨[], true⟩, .none, 5, 0, false, true, none⟩))

/-- The try `k`, which asks the nodes of a lookup path. -/
def sampleTry (k : Nat) (path nacks : List NodeId) (consumed : NodeId → Bool) :
    List (World × ProbeAct) :=
  let acts : List ProbeAct :=
    [.sweep sampleTopicId, .resume (2 * k) (.gathered ⟨[], path, fun _ => true, true⟩)]
      ++ nacks.map (.nack sampleTopicId k) ++ [.resume (2 * k + 1) (.verdicts consumed)]
  acts.map fun a => (sampleWorld (5000 * (k + 1)), a)

/-- The nodes `1` and `2` are asked; `1` answers, and then only `2` is said to have been reached. -/
def silentTarget : List (World × ProbeAct) :=
  sampleRoot :: sampleTry 0 [1, 2] [1] fun b => b = 2

/-- Eleven tries of three nodes each, and all answer. -/
def smallTries : List (World × ProbeAct) :=
  sampleRoot :: (List.range 11).flatMap fun k =>
    let ids := [10 * k + 1, 10 * k + 2, 10 * k + 3]
    sampleTry k ids ids fun _ => true

/-- All that are asked answer, and the try does not count. -/
theorem probe_accounts_refund :
    (run (step sampleProbeConfig) (boot (sampleWorld 0))
      (sampleRoot :: sampleTry 0 [1, 2] [1, 2] fun _ => true)).Accounted := by
  apply probe_accounts
  refine ⟨trivial, trivial, ?_, ?_, ?_, ?_, trivial⟩
  · intro t cand ρ targets hj hopening _
    cases hj
    cases hopening
    decide
  · rintro o hget - - -
    exact ⟨0, rfl, rfl⟩
  · rintro o hget - - -
    exact ⟨0, rfl, rfl⟩
  · intro t k sends declares ρ hj hroot
    cases hj
    cases hroot
    exact ⟨rfl, fun o _ _ _ b _ => rfl⟩

/-- A probe counts no try of which a node that was reached has not answered, and it may spend more
than its budget. -/
theorem probe_miscounts :
    ¬(run (step sampleProbeConfig) (boot (sampleWorld 0)) silentTarget).Accounted
      ∧ holderProbeFrames
        < (run (step sampleProbeConfig) (boot (sampleWorld 0)) smallTries).framesOf 0 := by
  constructor
  · intro h
    set s := run (step sampleProbeConfig) (boot (sampleWorld 0)) silentTarget with hs
    have hlost : (s.tries.get 0).any (fun o =>
        o.outcome = .settled [2] && !o.counted && 2 ∉ o.answered) = true := by
      rw [hs]
      decide +kernel
    cases hget : s.tries.get 0 with
    | none =>
      rw [hget] at hlost
      cases hlost
    | some o =>
      rw [hget, Option.any_some] at hlost
      simp only [Bool.and_eq_true, decide_eq_true_eq, Bool.not_eq_true'] at hlost
      have hall := (h.refunded 0 o [2] hget hlost.1.1).mp hlost.1.2
      exact hlost.2 (hall 2 (List.mem_singleton_self 2))
  · decide +kernel

end Prober

end Axona
