import Axona.Safety.StepDown

/-! # The cut

From the bind of an unstaged export on, the role of the loser commits nothing: the gate stands
for as long as the record is open and bound, and every commit looks at the gate. What the loser
holds at the flip is therefore named in the manifest that the winner acknowledged, but for a
tombstone that had expired at the bind and is active again because the wall clock was set back. -/

namespace Axona

open Library OrderedMap

variable {cfg : Config} {P : Input → Prop} {n n' : Node}

/-! ### Roles that gain nothing -/

/-- The role gained no body and no tombstone. -/
structure Role.Within (r r' : Role) : Prop where
  cache : ∀ e ∈ r'.cache, e ∈ r.cache
  tombstones : ∀ id t', r'.tombstones.get id = some t' →
    ∃ t, r.tombstones.get id = some t ∧ t'.exp = t.exp ∧ t'.killTs = t.killTs

theorem Role.Within.refl (r : Role) : r.Within r := ⟨fun _ h => h, fun _ t h => ⟨t, h, rfl, rfl⟩⟩

theorem Role.Within.trans {r r' r'' : Role} (h : r.Within r') (h' : r'.Within r'') :
    r.Within r'' where
  cache e he := h.cache e (h'.cache e he)
  tombstones id t'' ht'' := by
    obtain ⟨t', ht', hexp', hts'⟩ := h'.tombstones id t'' ht''
    obtain ⟨t, ht, hexp, hts⟩ := h.tombstones id t' ht'
    exact ⟨t, ht, hexp'.trans hexp, hts'.trans hts⟩

theorem Role.within_of_core {r r' : Role} (hc : r'.cache = r.cache)
    (ht : r'.tombstones = r.tombstones) : r.Within r' := by
  constructor
  · rw [hc]
    exact fun _ h => h
  · rw [ht]
    exact fun _ t h => ⟨t, h, rfl, rfl⟩

/-- A role that only lost something is within what it was, if its tombstones keep their terms. -/
theorem Role.Shrink.within {C : MsgId → Tombstone → Option Tombstone → Prop} {r r' : Role}
    (h : r.Shrink C r') (hC : ∀ id t t', C id t (some t') → t.Same t') : r.Within r' where
  cache _ he := h.cache.subset he
  tombstones _ _ ht' := by
    obtain ⟨t, ht, hexp, hts, -⟩ := h.kept (fun _ => ⟨rfl, rfl, rfl⟩) hC ht'
    exact ⟨t, ht, hexp, hts⟩

/-- Does the input carry a body or a deletion to commit? -/
def Input.commits : Input → Prop
  | .publish _ _ _ | .kill _ _ _ | .body _ _ | .relay _ _ | .del _ _ => True
  | _ => False

theorem Takes.commits {a : Act} {i : Input} (h : Takes cfg n a i) (hi : i.commits) :
    Commits n a := by
  cases h with
  | publish h | kill h | body h | resumeRelay h _ | resumeDel h _ => exact ⟨_, h, trivial⟩
  | relay _ _ | del _ _ | replayUp _ | handoff _ | replicate _ | mergeDel _ _ => exact trivial
  | _ => exact hi.elim

theorem Takes.idle {a : Act} (h : Takes cfg n a .round) : ¬Commits n a := by
  cases h with
  | round h => exact h

/-- The gate of the role stands, and its round is not staged. -/
def Role.Cut (r : Role) : Prop := ∃ g, r.merge.gate = some g ∧ g.staged = false

variable {ρ : RoleRef}

/-- A write that holds at the cut meets no unstaged gate. -/
theorem not_cut_of_cutHolds {cut : Option Cut} (h : n.cutHolds ρ cut = true) : ¬(n.role ρ).Cut := by
  rintro ⟨g, hg, hs⟩
  unfold Node.cutHolds at h
  simp [hg, hs] at h

theorem RoleMove.within {r' : Role} {es : List Event} (h : RoleMove cfg P n ρ r' es)
    (hno : (n.role ρ).Cut ∨ ∀ i, P i → ¬i.commits) : (n.role ρ).Within r' := by
  cases h with
  | quiet h => exact Role.within_of_core (congrArg RoleCore.cache h) (congrArg RoleCore.tombstones h)
  | shrink h => exact h.within fun _ _ _ hc => hc.some
  | disown owner =>
    exact ((n.role ρ).dropOwned_shrink owner).within fun _ _ _ hc => Role.disowned_some hc.symm
  | push hcut _ src =>
    exfalso
    rcases hno with hno | hno
    · exact not_cut_of_cutHolds hcut hno
    · cases src with
      | publish hP _ _ | body hP _ | relay hP => exact hno _ hP trivial
  | bury hP hcut =>
    exfalso
    rcases hno with hno | hno
    · exact not_cut_of_cutHolds hcut hno
    rcases hP with hP | ⟨⟨cut, k, hP⟩, -⟩
    · exact hno _ hP trivial
    · exact hno _ hP trivial
  | ascend _ _ _ hr _ | ascendStaged _ _ _ _ _ _ hr _ | pin _ hr | unpinAll hr =>
    exact Role.within_of_core (congrArg RoleCore.cache hr) (congrArg RoleCore.tombstones hr)
  | _ => exact Role.within_of_core rfl rfl

/-- A role gains nothing in a move behind an unstaged gate, nor in one that commits nothing. -/
theorem Move.within (h : Move cfg P n n') (ρ : RoleRef)
    (hno : (n.role ρ).Cut ∨ ∀ i, P i → ¬i.commits) : (n.role ρ).Within (n'.role ρ) := by
  cases h.roleEffect ρ with
  | move h _ => exact h.within hno
  | fresh _ h =>
    have hc : (n'.role ρ).cache = [] := congrArg RoleCore.cache h
    have ht : (n'.role ρ).tombstones = ∅ := congrArg RoleCore.tombstones h
    constructor
    · rw [hc]
      rintro _ ⟨⟩
    · rw [ht]
      rintro _ _ ⟨⟩
  | endRound _ _ h =>
    exact Role.within_of_core (congrArg RoleCore.cache h.rest) (congrArg RoleCore.tombstones h.rest)
  | same h | retire h | offer _ _ _ _ _ h | bind _ _ _ _ _ h | ungate _ _ h | flip _ _ _ _ _ _ _ h
    | openPull _ _ _ h =>
    exact Role.within_of_core (congrArg RoleCore.cache h) (congrArg RoleCore.tombstones h)

/-! ### Records and gates -/

/-- The record of an export is open and bound. -/
def Node.Binds (n : Node) (ρ : RoleRef) (corr : Corr) (x : ExportRef) : Prop :=
  (n.role ρ).openMerges.get corr = some x ∧ (n.exports.get x).state = .bound

/-- The record names what the role holds: every body, and every tombstone that the wall clock of
the bind had not reached. -/
structure Role.Covered (r : Role) (m : Export) : Prop where
  bodies : ∀ e ∈ r.cache, e.msgId ∈ m.manifest.bodies
  dels : ∀ id t, r.tombstones.get id = some t → m.tBWall < t.exp → id ∈ m.manifest.dels

theorem Role.Covered.within {r r' : Role} {m m' : Export} (h : r.Covered m) (hr : r.Within r')
    (hm : m'.core = m.core) : r'.Covered m' := by
  have hmanifest : m'.manifest = m.manifest := congrArg ExportCore.manifest hm
  have htB : m'.tBWall = m.tBWall := congrArg ExportCore.tBWall hm
  constructor
  · rw [hmanifest]
    exact fun e he => h.bodies e (hr.cache e he)
  · rw [hmanifest, htB]
    intro id t' ht' hexp
    obtain ⟨t, ht, he, -⟩ := hr.tombstones id t' ht'
    exact h.dels id t ht (he ▸ hexp)

/-- What a bind exports covers the role. -/
theorem Role.covered_of_snapshot {r : Role} {m : Export} {now : Int}
    (hm : m.manifest = (r.snapshot now).manifest) (htB : m.tBWall = now) : r.Covered m := by
  constructor
  · intro e he
    rw [hm]
    refine List.mem_map_of_mem ?_
    exact (List.mem_insertionSort _).mpr he
  · intro id t ht hexp
    rw [hm]
    have hdel : (⟨id, some t.killTs, t.signer, t.seq⟩ : Del) ∈ r.activeDels now := by
      refine List.mem_map.mpr ⟨(id, t), ?_, rfl⟩
      rw [List.mem_filter]
      exact ⟨mem_of_get ht, by simpa [htB] using hexp⟩
    exact List.mem_map.mpr ⟨_, (List.mem_insertionSort _).mpr hdel, rfl⟩

/-- Every bound record stands behind its gate, and one whose round is not staged names all that
its role holds. -/
def Node.CutSound (n : Node) : Prop :=
  ∀ ρ corr x, n.Binds ρ corr x → ∃ g, (n.role ρ).merge.gate = some g ∧ g.corr = corr
    ∧ (g.staged = false → (n.role ρ).Covered (n.exports.get x))

variable {corr : Corr} {x : ExportRef}

/-- A record bound after a move was so before it, or is bound by it. -/
theorem Move.binds (h : Move cfg P n n') (hwf : n.Wf) (hb : n'.Binds ρ corr x) :
    (n.Binds ρ corr x ∧ (n'.exports.get x).core = (n.exports.get x).core)
      ∨ (P .round ∧ (n.exports.get x).state = .offered ∧ ∃ g, g.corr = corr
        ∧ (n'.role ρ).core = { (n.role ρ).core with gate := some g, gen := toInt32 (n.role ρ).gen + 1 }
        ∧ (n'.exports.get x).manifest = ((n.role ρ).snapshot n.now).manifest
        ∧ (n'.exports.get x).tBWall = n.now) := by
  obtain ⟨hopen, hbound⟩ := hb
  rcases h.openMerges hopen with hold | ⟨rfl, -, -, hoff, -⟩
  · have hkept (hc : (n'.exports.get x).core = (n.exports.get x).core) : n.Binds ρ corr x
        ∧ (n'.exports.get x).core = (n.exports.get x).core :=
      ⟨⟨hold, (congrArg ExportCore.state hc).symm.trans hbound⟩, hc⟩
    cases h.exportEffect x with
    | same hc _ | defer _ _ _ hc => exact .inl (hkept hc)
    | made hx _ _ => exact absurd (hwf.made ρ corr x hold).2 (by rw [hx]; exact lt_irrefl _)
    | rebid _ hs _ =>
      rw [hs] at hbound
      cases hbound
    | complete _ hc =>
      have hs : (n'.exports.get x).state = .completed := congrArg ExportCore.state hc
      rw [hs] at hbound
      cases hbound
    | @bind ρ' g hP _ hopen' hoff hr hm _ htB _ =>
      obtain ⟨rfl, rfl⟩ := hwf.single ρ ρ' corr g.corr x hold hopen'
      exact .inr ⟨hP, hoff, g, rfl, hr, hm, htB⟩
  · rw [hoff] at hbound
    cases hbound

/-- The gate of a bound record stands for as long as the record is open and bound. -/
theorem Move.gate (h : Move cfg P n n') {g : Gate} (hb : n.Binds ρ corr x)
    (hg : (n.role ρ).merge.gate = some g) (hcorr : g.corr = corr) (hb' : n'.Binds ρ corr x) :
    (n'.role ρ).merge.gate = some g := by
  cases h.roleEffect ρ with
  | move h _ => rw [h.gate, hg]
  | fresh _ h =>
    have hnone : (n'.role ρ).openMerges = ∅ := congrArg RoleCore.openMerges h
    have hopen := hb'.1
    rw [hnone] at hopen
    cases hopen
  | bind _ _ hfree _ _ _ =>
    rw [hg] at hfree
    cases hfree
  | @endRound corr' _ _ h =>
    rcases h.gate with hgate | ⟨-, hown⟩
    · rw [hgate, hg]
    -- the round that ended is the record's own
    have hopen := hb'.1
    rw [h.closed, ← hown g hg, hcorr, get_delete, if_pos rfl] at hopen
    cases hopen
  | ungate _ hfree _ => exact absurd hb.2 (hfree g x hg (by rw [hcorr]; exact hb.1))
  | same h | retire h | offer _ _ _ _ _ h | flip _ _ _ _ _ _ _ h | openPull _ _ _ h =>
    exact (congrArg RoleCore.gate h).trans hg

theorem Node.CutSound.move (hwf : n.Wf) (h : Move cfg P n n') (hn : n.CutSound) : n'.CutSound := by
  intro ρ corr x hb'
  rcases h.binds hwf hb' with ⟨hb, hcore⟩ | ⟨-, -, g, hcorr, hr, hm, htB⟩
  · obtain ⟨g, hg, hcorr, hcov⟩ := hn ρ corr x hb
    refine ⟨g, h.gate hb hg hcorr hb', hcorr, fun hs => ?_⟩
    exact (hcov hs).within (h.within ρ (.inl ⟨g, hg, hs⟩)) hcore
  · refine ⟨g, congrArg RoleCore.gate hr, hcorr, fun _ => ?_⟩
    have hcov := Role.covered_of_snapshot (r := n.role ρ) hm htB
    refine hcov.within (Role.within_of_core ?_ ?_) rfl
    · exact congrArg RoleCore.cache hr
    · exact congrArg RoleCore.tombstones hr

/-! ### One step -/

/-- The cut of an unstaged round: its record is open and bound behind an unstaged gate. -/
def Node.CutStands (n : Node) (ρ : RoleRef) (corr : Corr) (x : ExportRef) : Prop :=
  n.Binds ρ corr x ∧ (n.role ρ).Cut

/-- A record that was bound keeps its cut for as long as it is open and bound. -/
theorem Move.cut_of_binds (h : Move cfg P n n') (hs : n.CutSound) (hc : n.CutStands ρ corr x)
    (hb' : n'.Binds ρ corr x) : n'.CutStands ρ corr x := by
  obtain ⟨hb, g, hg, hstaged⟩ := hc
  obtain ⟨g', hg', hcorr, -⟩ := hs ρ corr x hb
  rw [hg] at hg'
  cases hg'
  exact ⟨hb', g, h.gate hb hg hcorr hb', hstaged⟩

/-- Where no round begins or ends, the cut that stands after a move stood before it. -/
theorem Move.cut_before (h : Move cfg P n n') (hwf : n.Wf) (hs : n.CutSound) (hround : ¬P .round)
    (hc : n'.CutStands ρ corr x) : n.CutStands ρ corr x := by
  obtain ⟨hb', g', hg', hstaged⟩ := hc
  rcases h.binds hwf hb' with ⟨hb, -⟩ | ⟨hP, -⟩
  · obtain ⟨g, hg, hcorr, -⟩ := hs ρ corr x hb
    rw [h.gate hb hg hcorr hb'] at hg'
    cases hg'
    exact ⟨hb, _, hg, hstaged⟩
  · exact absurd hP hround

/-- Where no round begins or ends, the record of a cut stays open and bound. -/
theorem Move.binds_after (h : Move cfg P n n') (hwf : n.Wf) (hs : n.CutSound) (hround : ¬P .round)
    (hb : n.Binds ρ corr x) : n'.Binds ρ corr x := by
  obtain ⟨hopen, hbound⟩ := hb
  obtain ⟨g, hg, hcorr, -⟩ := hs ρ corr x ⟨hopen, hbound⟩
  obtain ⟨hρ, hx⟩ := hwf.made ρ corr x hopen
  constructor
  · cases h.roleEffect ρ with
    | move h _ => rwa [h.openMerges]
    | fresh hnext _ => exact absurd hρ (by rw [hnext]; exact lt_irrefl _)
    | @offer t corr' _ hfree _ _ _ h =>
      -- an offer comes under a key of its own, or with the gate gone
      have hset : (n'.role ρ).openMerges = (n.role ρ).openMerges.set corr' n.exports.next :=
        congrArg RoleCore.openMerges h
      rcases hfree with hfree | hfree
      · rw [hg] at hfree
        cases hfree
      · rw [hset, get_set, if_neg, hopen]
        rintro rfl
        rw [hopen] at hfree
        cases hfree
    | endRound hP _ _ =>
      rcases hP with hP | hfree
      · exact absurd hP.1 hround
      · rw [hg] at hfree
        cases hfree
    | same h | retire h | bind _ _ _ _ _ h | ungate _ _ h | flip _ _ _ _ _ _ _ h | openPull _ _ _ h
      =>
      exact (congrArg (fun c => RoleCore.openMerges c |>.get corr) h).trans hopen
  · cases h.exportEffect x with
    | same hc _ | defer _ _ _ hc => exact (congrArg ExportCore.state hc).trans hbound
    | made hnext _ _ => exact absurd hx (by rw [hnext]; exact lt_irrefl _)
    | rebid hoff _ _ | bind _ _ _ hoff _ _ _ _ _ =>
      rw [hbound] at hoff
      cases hoff
    | complete hP _ => exact absurd hP hround

/-- Across a step: the role gains nothing if the cut stands before the step or after it, and the
cut stands for as long as its record is open and bound. -/
def CutHeld (cfg : Config) (n : Node) (a : World × Act) : Prop :=
  ∀ ρ corr x,
    (n.CutStands ρ corr x ∨ (n.step cfg a).CutStands ρ corr x →
      (n.role ρ).Within ((n.step cfg a).role ρ))
    ∧ (n.CutStands ρ corr x → (n.step cfg a).Binds ρ corr x → (n.step cfg a).CutStands ρ corr x)

theorem Node.CutSound.step (hwf : n.Wf) (hs : n.CutSound) (a : World × Act) :
    (n.step cfg a).CutSound :=
  step_rule (w := a.1) hwf (fun _ _ hm h hs => hs.move hm h) hs

/-- A role gains nothing in the step of an act that commits nothing. -/
theorem within_of_idle (hwf : n.Wf) (a : World × Act) (hidle : ¬Commits n a.2) (ρ : RoleRef) :
    (n.role ρ).Within ((n.step cfg a).role ρ) := by
  refine step_rule (I := fun m => (n.role ρ).Within (m.role ρ)) (w := a.1) hwf ?_ (.refl _)
  intro P m m' hP _ _ h hw
  exact hw.trans (h.within ρ (.inr fun i hi hc => hidle ((hP i hi).commits hc)))

/-- In the step of an act that commits, no round begins or ends, and the cut blocks the commits. -/
theorem within_of_cut (hwf : n.Wf) (hs : n.CutSound) (a : World × Act) (hact : Commits n a.2)
    (ρ : RoleRef) (corr : Corr) (x : ExportRef) :
    ((n.step cfg a).CutStands ρ corr x → n.CutStands ρ corr x)
      ∧ (n.CutStands ρ corr x → (n.role ρ).Within ((n.step cfg a).role ρ)) := by
  have hround {P : Input → Prop} (hP : ∀ i, P i → Takes cfg n a.2 i) : ¬P .round :=
    fun h => (hP _ h).idle hact
  refine (step_rule (I := fun m => m.CutSound ∧ (m.CutStands ρ corr x → n.CutStands ρ corr x)
    ∧ (n.CutStands ρ corr x → m.CutStands ρ corr x ∧ (n.role ρ).Within (m.role ρ)))
    (w := a.1) hwf ?_ ⟨hs, id, fun hc => ⟨hc, .refl _⟩⟩).2.imp_right fun h hc => (h hc).2
  rintro P m m' hP - hm h ⟨hms, hback, hforth⟩
  refine ⟨hms.move hm h, fun hc => hback (h.cut_before hm hms (hround hP) hc), fun hc => ?_⟩
  obtain ⟨hmc, hw⟩ := hforth hc
  refine ⟨h.cut_of_binds hms hmc (h.binds_after hm hms (hround hP) hmc.1), ?_⟩
  exact hw.trans (h.within ρ (.inl hmc.2))

/-- A record that was bound when a step began and is bound when it ends was bound throughout. -/
theorem cut_of_binds_step (hwf : n.Wf) (hs : n.CutSound) (a : World × Act)
    (hc : n.CutStands ρ corr x) :
    (n.step cfg a).Binds ρ corr x → (n.step cfg a).CutStands ρ corr x := by
  refine (step_rule (I := fun m => m.CutSound ∧ x < m.exports.next
    ∧ (m.exports.get x).state ≠ .offered ∧ (m.Binds ρ corr x → m.CutStands ρ corr x))
    (w := a.1) hwf ?_ ⟨hs, (hwf.made ρ corr x hc.1.1).2, ?_, fun _ => hc⟩).2.2.2
  · rintro P m m' - - hm h ⟨hms, hx, hoff, hstands⟩
    refine ⟨hms.move hm h, lt_of_lt_of_le hx h.exports_next, ?_, fun hb' => ?_⟩
    · cases h.exportEffect x with
      | same hc _ | defer _ _ _ hc =>
        have hkept : (m'.exports.get x).state = (m.exports.get x).state :=
          congrArg ExportCore.state hc
        rwa [hkept]
      | made hnext _ _ => exact absurd hx (by rw [hnext]; exact lt_irrefl _)
      | rebid h _ _ | bind _ _ _ h _ _ _ _ _ => exact absurd h hoff
      | complete _ hc =>
        have hdone : (m'.exports.get x).state = .completed := congrArg ExportCore.state hc
        rw [hdone]
        rintro ⟨⟩
    · rcases h.binds hm hb' with ⟨hb, -⟩ | ⟨-, h, -⟩
      · exact h.cut_of_binds hms (hstands hb) hb'
      · exact absurd h hoff
  · have hbound : (n.exports.get x).state = .bound := hc.1.2
    change (n.exports.get x).state ≠ .offered
    rw [hbound]
    rintro ⟨⟩

theorem cutHeld_step (hwf : n.Wf) (hs : n.CutSound) (a : World × Act) : CutHeld cfg n a := by
  intro ρ corr x
  refine ⟨fun hc => ?_, cut_of_binds_step hwf hs a⟩
  by_cases hact : Commits n a.2
  · obtain ⟨hback, hforth⟩ := @within_of_cut cfg n hwf hs a hact ρ corr x
    exact hforth (hc.elim id hback)
  · exact within_of_idle hwf a hact ρ

/-! ### The flip -/

/-- At a flip the gate is the exchange's own, and in an unstaged round the record that was
acknowledged covers the role as it was at that instant. -/
def FlipCovered (cfg : Config) (n : Node) : Prop :=
  ∀ ρ before corr m w, .transition ρ before false (.mergeStep5 corr m) w ∈ n.journal →
    ∃ g, before.merge.gate = some g ∧ g.corr = corr ∧ (g.staged = false → before.Covered m)
      ∧ ∃ m' a w', .acked ρ corr m' a w' ∈ n.journal ∧ m'.core = m.core
        ∧ FullAck cfg before.topicId corr m' a w'

theorem FlipCovered.move (hs : n.CutSound) (hacks : n.AcksChecked cfg) (h : Move cfg P n n')
    (hn : FlipCovered cfg n) : FlipCovered cfg n' := by
  intro ρ before corr m w hmem
  rcases h.event hmem with hold | hnew
  · obtain ⟨g, hg, hcorr, hcov, m', a, w', hmem', hrest⟩ := hn ρ before corr m w hold
    exact ⟨g, hg, hcorr, hcov, m', a, w', h.mem_journal hmem', hrest⟩
  cases hnew with
  | role _ hr hev =>
    -- no other path names step 5 as its reason
    cases hr with
    | descend _ _ why hwhy _ =>
      obtain ⟨-, -, rfl, -⟩ : ρ = _ ∧ before = _ ∧ .mergeStep5 corr m = why ∧ w = n.world := by
        simpa using hev
      exact absurd rfl (hwhy corr m)
    | _ => simp at hev
  | flip _ hopen hbound _ hacked =>
    obtain ⟨g, hg, hcorr, hcov⟩ := hs _ _ _ ⟨hopen, hbound⟩
    obtain ⟨m', a, w', hmem', hcore⟩ := hacked
    exact ⟨g, hg, hcorr, hcov, m', a, w', h.mem_journal hmem', hcore, (hacks _ _ _ _ _ hmem').2⟩

/-- **The cut holds.** In every run, a role whose unstaged export stands gains no body and no
tombstone from the bind to the end of the round. So at the flip each cached body is named in the
manifest that the winner acknowledged, and so is each tombstone that had not expired at the
bind. -/
theorem cut_holds (w : World) (as : Run) :
    EachStep (Node.step cfg) (CutHeld cfg) (Node.boot w) as
      ∧ FlipCovered cfg (run (Node.step cfg) (Node.boot w) as) := by
  have hboot : (Node.boot w).CutSound := by
    intro ρ corr x hb
    cases hb.1
  constructor
  · exact run_safety (I := fun m : Node => m.Wf ∧ m.CutSound)
      (fun _ a h => ⟨h.1.step a, h.2.step h.1 a⟩) (fun _ a h => cutHeld_step h.1 h.2 a)
      ⟨Node.boot_wf w, hboot⟩ as
  · refine (run_invariant (I := fun m : Node => m.Wf ∧ m.CutSound ∧ m.AcksChecked cfg
      ∧ FlipCovered cfg m) (fun n a h => ?_) ⟨Node.boot_wf w, hboot, ?_, ?_⟩ as).2.2.2
    · exact ⟨h.1.step a, step_rule (w := a.1) (I := fun m : Node => m.CutSound
        ∧ m.AcksChecked cfg ∧ FlipCovered cfg m) h.1 (fun _ _ hm hmove hi =>
          ⟨hi.1.move hm hmove, hi.2.1.move hm hmove, hi.2.2.move hi.1 hi.2.1 hmove⟩) h.2⟩
    · rintro _ _ _ _ _ ⟨⟩
    · rintro _ _ _ _ _ ⟨⟩

/-! ### A wall clock that is set back -/

/-- At this flip of an unstaged round a tombstone is active that the acknowledged manifest does not
name. -/
def Event.unnamedTombstone : Event → Bool
  | .transition _ before false (.mergeStep5 _ m) w =>
    before.merge.gate.any (fun g => !g.staged) && before.tombstones.entries.any fun e => w.wall
      < e.2.exp && !m.manifest.dels.contains e.1
  | _ => false

/-- A message is killed, a post follows a day later, and the claim is merged away. The tombstone
has just expired when the export is bound, and the wall clock goes back by two milliseconds
before the acknowledgement. -/
def setBackRun : Run :=
  let late : Int := 1000 + ttlMs
  let signed : Text := List.replicate 64 '0'
  [(sampleWorld 1000, .kill ⟨sampleTopicId, ⟨[], true⟩, .none, .none,
      ⟨some sampleTopicId, some ['x'], some 0, some 0, some signed,
        some (signatureTag ++ signed ++ signed)⟩⟩),
    (sampleWorld 1000, .resume 0 .checked),
    (sampleWorld late, samplePub 4 late), (sampleWorld late, .resume 1 .checked),
    (sampleWorld late, .beacon sampleTopicId [(sampleTopicId, some 5)]),
    (sampleWorld late, .mergePull ⟨sampleTopicId, late.toNat, sampleTopicId, some 5,
      some mergeTiming, none, false, false, false⟩),
    (sampleWorld late, .resume 4 .checked),
    ({ sampleWorld late with wall := late - 2 }, .replayAck ⟨sampleTopicId, late.toNat,
      sampleTopicId, some 5, 0, some 1, 1, 0, some 2, .full⟩ true)]

/-- At the flip not every active tombstone is named. -/
theorem cut_misses_revived_tombstone :
    ¬∀ ρ before corr m w, .transition ρ before false (.mergeStep5 corr m) w
        ∈ (run (Node.step sampleConfig) (Node.boot (sampleWorld 0)) setBackRun).journal →
      before.Cut → ∀ id t, before.tombstones.get id = some t → w.wall < t.exp
        → id ∈ m.manifest.dels := by
  intro h
  have hany : (run (Node.step sampleConfig) (Node.boot (sampleWorld 0)) setBackRun).journal.any
      Event.unnamedTombstone = true := by decide +kernel
  obtain ⟨ev, hev, hmiss⟩ := List.any_eq_true.mp hany
  unfold Event.unnamedTombstone at hmiss
  split at hmiss
  · next ρ before corr m w =>
    rw [Bool.and_eq_true, Option.any_eq_true] at hmiss
    obtain ⟨⟨g, hg, hs⟩, hmiss⟩ := hmiss
    obtain ⟨e, he, hexp⟩ := List.any_eq_true.mp hmiss
    rw [Bool.and_eq_true, decide_eq_true_iff, Bool.not_eq_true', List.contains_eq_mem,
      decide_eq_false_iff_not] at hexp
    have hcut : before.Cut := ⟨g, hg, by simpa using hs⟩
    exact hexp.2 (h ρ before corr m w hev hcut e.1 e.2 (get_of_mem he) hexp.1)
  · cases hmiss

end Axona
