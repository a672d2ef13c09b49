import Axona.Moves.Step

/-! # Custody-safe step-down

A root that holds a body or an active tombstone gives its claim up in step 5 of a merge only, on
a full acknowledgement of the bound export and within the lease of that bind. Every other path
that sheds a claim (beacons, handoffs, verifications, forwarded writes, adoption) ends in the
same transition function, which refuses a root with custody that has no token. -/

namespace Axona

open Library

variable {cfg : Config} {P : Input → Prop} {n n' : Node}

/-! ### What is written down -/

/-- A full acknowledgement as it is checked when it arrives: topic and exchange, both ends with
their epochs, the counts and the digest of the manifest, and the lease. Until the digest of the
manifest is computed the record has none, and then only an answer that names none matches. -/
structure FullAck (cfg : Config) (t : TopicId) (corr : Corr) (m : Export) (a : ReplayAck)
    (w : World) : Prop where
  topicId : a.topicId = t
  corr : a.corr = corr
  bound : m.state = .bound
  winner : a.winner = m.winner
  loser : a.loser = cfg.nodeId
  winnerEpoch : toInt32 (a.winnerEpoch.getD 0) = toInt32 m.winnerEpoch
  loserEpoch : toInt32 (a.loserEpoch.getD 0) = toInt32 m.loserEpoch
  disposition : a.disposition = .full
  retained : toInt32 a.retained = m.manifest.bodies.length
  delsActive : toInt32 a.delsActive = m.manifest.dels.length
  hash : a.hash = m.hash
  lease : m.leaseOk w

/-- A claim was given up in step 5 of a merge: on a bound record within its lease, and on a full
acknowledgement that matched what the bind had fixed. -/
def GivenUpByMerge (cfg : Config) (n : Node) (ρ : RoleRef) (before : Role) (why : Why)
    (w : World) : Prop :=
  ∃ corr m, why = .mergeStep5 corr m ∧ m.state = .bound ∧ m.leaseOk w ∧
    ∃ m' a w', .acked ρ corr m' a w' ∈ n.journal ∧ m'.core = m.core
      ∧ FullAck cfg before.topicId corr m' a w'

/-- Each acknowledgement in the journal was checked against a record of its role. -/
def Node.AcksChecked (cfg : Config) (n : Node) : Prop :=
  ∀ ρ corr m a w, .acked ρ corr m a w ∈ n.journal →
    ρ < n.roles.next ∧ FullAck cfg (n.role ρ).topicId corr m a w

/-- Each claim in the journal that was given up with custody was given up by a merge. -/
def Node.StepsDownSafely (cfg : Config) (n : Node) : Prop :=
  ∀ ρ before why w, .transition ρ before false why w ∈ n.journal →
    before.isRoot = true ∧ (before.hasCustody w.wall = true → GivenUpByMerge cfg n ρ before why w)

/-- The checks of `_onReplayAck`, spelled out. -/
theorem fullAck_of_checks {t : TopicId} {corr : Corr} {m : Export} {a : ReplayAck} {w : World}
    (ht : a.topicId = t) (hcorr : a.corr = corr) (hbound : m.state = .bound)
    (hmatch : Node.ackMatches cfg m a) (hfull : Node.ackFull m a) (hlease : m.leaseOk w) :
    FullAck cfg t corr m a w := by
  unfold Node.ackMatches at hmatch
  unfold Node.ackFull at hfull
  simp only [Bool.and_eq_true, decide_eq_true_eq] at hmatch hfull
  obtain ⟨⟨⟨hwinner, hloser⟩, hwe⟩, hle⟩ := hmatch
  obtain ⟨⟨⟨hdisp, hret⟩, hdels⟩, hhash⟩ := hfull
  exact ⟨ht, hcorr, hbound, hwinner, hloser, hwe, hle, hdisp, hret, hdels, hhash, hlease⟩

variable {ρ : RoleRef}

/-- What was given up by a merge stays so as the journal grows. -/
theorem GivenUpByMerge.move {before : Role} {why : Why} {w : World}
    (hg : GivenUpByMerge cfg n ρ before why w) (h : Move cfg P n n') :
    GivenUpByMerge cfg n' ρ before why w := by
  obtain ⟨corr, m, hwhy, hbound, hlease, m', a, w', hmem, hcore, hfull⟩ := hg
  exact ⟨corr, m, hwhy, hbound, hlease, m', a, w', h.mem_journal hmem, hcore, hfull⟩

/-! ### One move -/

theorem Node.AcksChecked.move (hwf : n.Wf) (h : Move cfg P n n') (hn : n.AcksChecked cfg) :
    n'.AcksChecked cfg := by
  intro ρ corr m a w hmem
  rcases h.event hmem with hold | hnew
  · obtain ⟨hρ, hfull⟩ := hn ρ corr m a w hold
    refine ⟨lt_of_lt_of_le hρ h.roles_next, ?_⟩
    rwa [h.topicId hρ]
  cases hnew with
  | role _ hr hev => cases hr <;> simp at hev
  | acked hbound hmatch hfull hlease hat hcorr =>
    obtain ⟨hρ, htopic⟩ := hwf.registered _ _ hat
    refine ⟨lt_of_lt_of_le hρ h.roles_next, ?_⟩
    rw [h.topicId hρ]
    exact fullAck_of_checks htopic.symm hcorr hbound hmatch hfull hlease

theorem Node.StepsDownSafely.move (hmc : cfg.mergeCapable = true) (hcut : cfg.cutover = true)
    (hacks : n.AcksChecked cfg) (h : Move cfg P n n') (hn : n.StepsDownSafely cfg) :
    n'.StepsDownSafely cfg := by
  intro ρ before why w hmem
  rcases h.event hmem with hold | hnew
  · obtain ⟨hroot, hgiven⟩ := hn ρ before why w hold
    exact ⟨hroot, fun hc => (hgiven hc).move h⟩
  cases hnew with
  | @role ρ' r' es _ _ hr hev =>
    -- of the changes of a role only a descent sheds a claim, and it is guarded
    cases hr with
    | descend hP hroot why' hwhy hfree =>
      obtain ⟨rfl, rfl, rfl, rfl⟩ :
          ρ = ρ' ∧ before = n.role ρ' ∧ why = why' ∧ w = n.world := by
        simpa using hev
      refine ⟨hroot, fun hc => ?_⟩
      rcases hfree with hfree | hfree | hfree
      · rw [hmc] at hfree
        cases hfree
      · change (n.role ρ).hasCustody n.now = true at hc
        rw [hfree] at hc
        cases hc
      · rw [hcut] at hfree
        cases hfree
    | _ => simp at hev
  | flip hroot hopen hbound hlease hacked =>
    refine ⟨hroot, fun _ => ?_⟩
    obtain ⟨m', a, w', hmem', hcore⟩ := hacked
    obtain ⟨-, hfull⟩ := hacks _ _ _ _ _ hmem'
    exact ⟨_, _, rfl, hbound, hlease, m', a, w', h.mem_journal hmem', hcore, hfull⟩

/-- No change of a role sheds its claim unseen. -/
theorem RoleMove.stepsDown {r' : Role} {es : List Event} (h : RoleMove cfg P n ρ r' es)
    (hroot : (n.role ρ).isRoot = true) (hdown : r'.isRoot = false) :
    ∃ why, .transition ρ (n.role ρ) false why n.world ∈ es := by
  have hkept (h : r'.isRoot = (n.role ρ).isRoot) : False := by
    rw [hdown, hroot] at h
    cases h
  cases h with
  | quiet h => exact (hkept (congrArg RoleCore.isRoot h)).elim
  | shrink h => exact (hkept (congrArg RoleCore.isRoot h.rest)).elim
  | @push m cut hcut src =>
    rcases (n.role ρ).push_cases cfg.cacheMax cfg.cacheBytes m with h | h
    · exact (hkept (by rw [h])).elim
    · exact (hkept (congrArg RoleCore.isRoot h.rest)).elim
  | ascend _ h _ _ _ | ascendStaged _ h _ _ _ _ _ _ =>
    rw [hroot] at h
    cases h
  | pin _ hr | unpinAll hr => exact (hkept (congrArg RoleCore.isRoot hr)).elim
  | descend _ _ why _ _ => exact ⟨why, List.mem_cons_self⟩
  | _ => exact (hkept rfl).elim

/-- No move sheds the claim of a role unseen. -/
theorem Move.stepsDown (h : Move cfg P n n') (hρ : ρ < n.roles.next)
    (hroot : (n.role ρ).isRoot = true) (hdown : (n'.role ρ).isRoot = false) :
    ∃ es why, n'.journal = es ++ n.journal ∧ .transition ρ (n.role ρ) false why n.world ∈ es := by
  have hkept (h : (n'.role ρ).isRoot = (n.role ρ).isRoot) : False := by
    rw [hdown, hroot] at h
    cases h
  cases h.roleEffect ρ with
  | @move es hr hj =>
    obtain ⟨why, hmem⟩ := hr.stepsDown hroot hdown
    exact ⟨es, why, hj, hmem⟩
  | flip _ _ _ _ _ _ hj _ => exact ⟨[_], _, hj, List.mem_cons_self⟩
  | fresh hnext _ => exact absurd hρ (by rw [hnext]; exact lt_irrefl _)
  | same h => exact (hkept (congrArg RoleCore.isRoot h)).elim
  | endRound _ _ h => exact (hkept (congrArg RoleCore.isRoot h.rest)).elim
  | retire h | offer _ _ _ _ _ h | bind _ _ _ _ _ h | ungate _ _ h | openPull _ _ _ h =>
    exact (hkept (congrArg RoleCore.isRoot h)).elim

/-! ### Steps and runs -/

theorem Node.AcksChecked.step (hwf : n.Wf) (hn : n.AcksChecked cfg) (a : World × Act) :
    (n.step cfg a).AcksChecked cfg :=
  step_rule hwf (fun _ _ hm h hacks => hacks.move hm h) hn

theorem Node.StepsDownSafely.step (hmc : cfg.mergeCapable = true) (hcut : cfg.cutover = true)
    (hwf : n.Wf) (hacks : n.AcksChecked cfg) (hn : n.StepsDownSafely cfg) (a : World × Act) :
    (n.step cfg a).StepsDownSafely cfg :=
  (step_rule (w := a.1) (I := fun m : Node => m.AcksChecked cfg ∧ m.StepsDownSafely cfg) hwf
    (fun _ _ hm h hs => ⟨hs.1.move hm h, hs.2.move hmc hcut hs.1 h⟩) ⟨hacks, hn⟩).2

/-- The role was root before the step and is not afterwards: then the transition is among what
the step wrote into the journal. -/
def StepsDownSeen (cfg : Config) (n : Node) (a : World × Act) : Prop :=
  ∀ ρ < n.roles.next, (n.role ρ).isRoot = true → ((n.step cfg a).role ρ).isRoot = false →
    ∃ before why es, (n.step cfg a).journal = es ++ n.journal
      ∧ .transition ρ before false why a.1 ∈ es

theorem stepsDownSeen_step (hwf : n.Wf) (a : World × Act) : StepsDownSeen cfg n a := by
  intro ρ hρ hroot
  -- along the moves of the step: the role is root still, or its descent is written down
  refine (step_rule (I := fun m => (ρ < m.roles.next ∧ m.world = a.1)
    ∧ (∃ es, m.journal = es ++ n.journal) ∧ ((m.role ρ).isRoot = false →
      ∃ before why es, m.journal = es ++ n.journal ∧ .transition ρ before false why a.1 ∈ es))
    (w := a.1) hwf ?_ ⟨⟨hρ, rfl⟩, ⟨[], rfl⟩, fun hdown => ?_⟩).2.2
  · rintro P m m' - - - h ⟨⟨hlt, hw⟩, ⟨es, hes⟩, hseen⟩
    obtain ⟨es', hes', -⟩ := h.journal
    have hgrown : m'.journal = (es' ++ es) ++ n.journal := by rw [hes', hes, List.append_assoc]
    refine ⟨⟨lt_of_lt_of_le hlt h.roles_next, h.world.trans hw⟩, ⟨_, hgrown⟩, fun hdown => ?_⟩
    by_cases hup : (m.role ρ).isRoot = true
    · obtain ⟨es'', why, hj, hmem⟩ := h.stepsDown hlt hup hdown
      refine ⟨m.role ρ, why, es'' ++ es, by rw [hj, hes, List.append_assoc], ?_⟩
      rw [← hw]
      exact List.mem_append_left es hmem
    · obtain ⟨before, why, es'', hj, hmem⟩ := hseen (by simpa using hup)
      exact ⟨before, why, es' ++ es'', by rw [hes', hj, List.append_assoc],
        List.mem_append_right es' hmem⟩
  · have hup : ({ n with world := a.1 } : Node).role ρ = n.role ρ := rfl
    rw [hup, hroot] at hdown
    cases hdown

/-- **Custody-safe step-down.** Of a node that merges and cuts over, in every run: a role that
stops being root in a step has that descent in the journal, with the role as it was and the
world of the step; and a descent in the journal is that of a root, which held nothing then or
gave its claim up in step 5 of a merge. -/
theorem custody_safe_step_down (hmc : cfg.mergeCapable = true) (hcut : cfg.cutover = true)
    (w : World) (as : Run) :
    EachStep (Node.step cfg) (StepsDownSeen cfg) (Node.boot w) as
      ∧ ∀ ρ before why w', .transition ρ before false why w'
          ∈ (run (Node.step cfg) (Node.boot w) as).journal →
        before.isRoot = true ∧ (before.hasCustody w'.wall = true →
          GivenUpByMerge cfg (run (Node.step cfg) (Node.boot w) as) ρ before why w') := by
  constructor
  · exact run_safety (I := Node.Wf) (fun _ a h => h.step a) (fun _ a h => stepsDownSeen_step h a)
      (Node.boot_wf w) as
  · have hstart : (Node.boot w).Wf ∧ (Node.boot w).AcksChecked cfg
        ∧ (Node.boot w).StepsDownSafely cfg := by
      refine ⟨Node.boot_wf w, ?_, ?_⟩
      · rintro _ _ _ _ _ ⟨⟩
      · rintro _ _ _ _ ⟨⟩
    exact (run_invariant (I := fun m : Node => m.Wf ∧ m.AcksChecked cfg ∧ m.StepsDownSafely cfg)
      (fun _ a h => ⟨h.1.step a, h.2.1.step h.1 a, h.2.2.step hmc hcut h.1 h.2.1 a⟩)
      hstart as).2.2

/-- The sample node takes a post as root, meets a root of a later epoch that is closer, and gives
its claim up to it in a merge. -/
def mergeRun : Run :=
  [(sampleWorld 1000, samplePub 3 1000), (sampleWorld 1001, .resume 0 .checked),
    (sampleWorld 1002, .beacon sampleTopicId [(sampleTopicId, some 5)]),
    (sampleWorld 1003, .mergePull ⟨sampleTopicId, 1002, sampleTopicId, some 5, some mergeTiming,
      none, false, false, false⟩),
    (sampleWorld 1004, .resume 3 .checked),
    (sampleWorld 1005, .replayAck ⟨sampleTopicId, 1002, sampleTopicId, some 5, 0, some 1, 1, 0,
      some 2, .full⟩ true)]

theorem custody_safe_step_down_merge :
    ((run (Node.step sampleConfig) (Node.boot (sampleWorld 0)) (mergeRun.take 5)).role 0).isRoot
        = true
      ∧ ((run (Node.step sampleConfig) (Node.boot (sampleWorld 0)) mergeRun).role 0).isRoot = false
      ∧ EachStep (Node.step sampleConfig) (StepsDownSeen sampleConfig) (Node.boot (sampleWorld 0))
        mergeRun
      ∧ ∀ ρ before why w', .transition ρ before false why w'
          ∈ (run (Node.step sampleConfig) (Node.boot (sampleWorld 0)) mergeRun).journal →
        before.isRoot = true ∧ (before.hasCustody w'.wall = true →
          GivenUpByMerge sampleConfig (run (Node.step sampleConfig) (Node.boot (sampleWorld 0))
            mergeRun) ρ before why w') :=
  ⟨by decide +kernel, by decide +kernel, custody_safe_step_down rfl rfl (sampleWorld 0) mergeRun⟩

end Axona
