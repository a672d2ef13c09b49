import Axona.Safety.Cut

/-! # The deferral of step 5

A deferred step 5 leaves its record bound behind the gate of its round, with the export pinned. What
can befall it is said of the moves first: they leave a deferral as it is, unless the step may end
rounds, unpin, or retire roles. The steps that may are taken one by one. A deferral is to end with a
flip or with an abort. Two acts do not keep to that: a refusal drops a deferred record and leaves
  its
pins, and a pull of the same role that ends takes the pins and leaves the record. -/

namespace Axona

open Library OrderedMap

variable {cfg : Config} {P : Input → Prop} {n n' : Node} {t : TopicId} {ρ : RoleRef} {corr : Corr}
  {x : ExportRef}

/-- The ids of a manifest. -/
def Manifest.ids (m : Manifest) : Finset MsgId := (m.bodies ++ m.dels).toFinset

namespace Node

/-- A step 5 is deferred: its record is open and bound in a registered role. -/
structure Postponed (n : Node) (t : TopicId) (ρ : RoleRef) (corr : Corr) (x : ExportRef) :
  Prop where
  here : n.roleAt t = some ρ
  binds : n.Binds ρ corr x
  deferred : (n.exports.get x).deferred.isSome

/-- The record of the round is marked: its step 5 is deferred, or was. -/
structure Marked (n : Node) (t : TopicId) (ρ : RoleRef) (corr : Corr) (x : ExportRef) : Prop where
  here : n.roleAt t = some ρ
  binds : n.Binds ρ corr x
  mark : (n.exports.get x).deferred.isSome ∨ (n.exports.get x).deferPinned = true

/-- A deferral as it should be: the gate is that of its round, and its export is pinned. -/
structure Deferral (n : Node) (t : TopicId) (ρ : RoleRef) (corr : Corr) (x : ExportRef) : Prop
    extends n.Postponed t ρ corr x where
  gated : ∃ g, (n.role ρ).merge.gate = some g ∧ g.corr = corr
  flag : (n.exports.get x).deferPinned = true
  pins : (n.exports.get x).manifest.ids ⊆ (n.role ρ).merge.pins

theorem Postponed.marked (h : n.Postponed t ρ corr x) : n.Marked t ρ corr x :=
  ⟨h.here, h.binds, .inl h.deferred⟩

/-- Every mark of the node is that of a deferral as it should be. -/
def DefersSound (n : Node) : Prop := ∀ t ρ corr x, n.Marked t ρ corr x → n.Deferral t ρ corr x

end Node

/-! ### Moves -/

section

variable {r' : Role} {es : List Event} (h : RoleMove cfg P n ρ r' es)
include h

/-- What a change of a role does to its pins. -/
theorem RoleMove.pins_cases :
    r'.merge.pins = (n.role ρ).merge.pins
      ∨ (P (.pin ρ) ∨ P .transfer) ∧ (n.role ρ).merge.pins ⊆ r'.merge.pins
      ∨ P (.unpin ρ) ∧ r'.merge.pins ⊆ (n.role ρ).merge.pins := by
  cases h with
  | quiet h => exact .inl (congrArg RoleCore.pins h)
  | shrink h => exact .inl (congrArg RoleCore.pins h.rest)
  | @push m cut hcut src =>
    rcases (n.role ρ).push_cases cfg.cacheMax cfg.cacheBytes m with h | h
    · exact .inl (by rw [h])
    · exact .inl (congrArg RoleCore.pins h.rest)
  | ascend _ _ _ hr _ | ascendStaged _ _ _ _ _ _ hr _ => exact .inl (congrArg RoleCore.pins hr)
  | pin s hr hP =>
    exact .inr (.inl ⟨hP, Finset.subset_union_left.trans_eq (congrArg RoleCore.pins hr).symm⟩)
  | unpin _ hP => exact .inr (.inr ⟨hP, Finset.sdiff_subset⟩)
  | release _ hP => exact .inr (.inr ⟨hP, Finset.empty_subset _⟩)
  | unpinAll hr hP =>
    exact .inr (.inr ⟨hP, (congrArg RoleCore.pins hr).trans_subset (Finset.empty_subset _)⟩)
  | _ => exact .inl rfl

/-- Where nothing may be unpinned, a change of a role keeps its pins. -/
theorem RoleMove.pins_kept (hu : ¬P (.unpin ρ)) : (n.role ρ).merge.pins ⊆ r'.merge.pins := by
  rcases h.pins_cases with hsame | ⟨-, hsub⟩ | ⟨hP, -⟩
  · exact hsame.ge
  · exact hsub
  · exact absurd hP hu

/-- Where nothing may be pinned, a change of a role pins nothing. -/
theorem RoleMove.pins_none (hp : ¬P (.pin ρ)) (ht : ¬P .transfer) : r'.merge.pins ⊆ (n.role ρ).merge.pins := by
  rcases h.pins_cases with hsame | ⟨hP, -⟩ | ⟨-, hsub⟩
  · exact hsame.le
  · exact absurd hP (not_or.mpr ⟨hp, ht⟩)
  · exact hsub

end

/-- What a bound record names is fixed. -/
theorem Move.manifest (h : Move cfg P n n') (hb : (n.exports.get x).state = .bound)
    (hx : x < n.exports.next) : (n'.exports.get x).manifest = (n.exports.get x).manifest := by
  cases h.exportEffect x with
  | same hcore _ _ | complete _ hcore _ | defer _ _ _ hcore _ _ =>
    exact congrArg ExportCore.manifest hcore
  | made hnext _ _ => exact absurd hx (by rw [hnext]; exact lt_irrefl _)
  | rebid hoff _ _ | bind _ _ _ hoff _ _ _ _ _ =>
    rw [hb] at hoff
    cases hoff

/-- **A move keeps a deferral**, unless it may retire the role, end the round, or unpin an export
that names something. -/
theorem Move.deferral (h : Move cfg P n n') (hwf : n.Wf) (hd : n.Deferral t ρ corr x)
    (hr : ¬P (.retire t)) (hc : ¬P (.close ρ corr))
    (hu : P (.unpin ρ) → (n.exports.get x).manifest.ids = ∅) : n'.Deferral t ρ corr x := by
  obtain ⟨⟨hhere, ⟨hopen, hbound⟩, hdeferred⟩, ⟨g, hg, hcorr⟩, hflag, hpins⟩ := hd
  obtain ⟨hρ, hx⟩ := hwf.made ρ corr x hopen
  have hopen_mine (hs : n.MayClose P x) : False := by
    obtain ⟨ρ', corr', hopen', hclose⟩ := hs
    obtain ⟨rfl, rfl⟩ := hwf.single ρ ρ' corr corr' x hopen hopen'
    exact hc hclose
  -- the role: its record stays open, its gate stands, its pins stay
  have hrole : (n'.role ρ).openMerges.get corr = some x ∧ (n'.role ρ).merge.gate = some g
      ∧ (n.exports.get x).manifest.ids ⊆ (n'.role ρ).merge.pins := by
    have hsame {c : RoleCore} (h : (n'.role ρ).core = c) (ho : c.openMerges.get corr = some x)
        (hcg : c.gate = some g) (hcp : (n.role ρ).merge.pins = c.pins) :
        (n'.role ρ).openMerges.get corr = some x ∧ (n'.role ρ).merge.gate = some g
          ∧ (n.exports.get x).manifest.ids ⊆ (n'.role ρ).merge.pins := by
      subst h
      exact ⟨ho, hcg, hpins.trans hcp.subset⟩
    cases h.roleEffect ρ with
    | move hm _ =>
      refine ⟨by rw [hm.openMerges, hopen], by rw [hm.gate, hg], ?_⟩
      by_cases hP : P (.unpin ρ)
      · rw [hu hP]
        exact Finset.empty_subset _
      · exact hpins.trans (hm.pins_kept hP)
    | fresh hnext _ => exact absurd hρ (by rw [hnext]; exact lt_irrefl _)
    | @offer t' corr' _ hfree _ _ _ h =>
      refine hsame h ?_ hg rfl
      rw [get_set, if_neg, hopen]
      rintro rfl
      rcases hfree with hfree | hfree
      · rw [hg] at hfree
        cases hfree
      · rw [hopen] at hfree
        cases hfree
    | bind _ _ hfree _ _ _ =>
      rw [hg] at hfree
      cases hfree
    | @endRound corr' hP _ h =>
      have hne : corr ≠ corr' := by
        rintro rfl
        rcases hP with hP | hfree
        · exact hc hP.2
        · rw [hg] at hfree
          cases hfree
      refine ⟨by rw [h.closed, get_delete, if_neg hne, hopen], ?_, ?_⟩
      · rcases h.gate with hgate | ⟨-, hown⟩
        · rw [hgate, hg]
        · exact absurd (hcorr.symm.trans (hown g hg)) hne
      · exact hpins.trans (congrArg RoleCore.pins h.rest : (n'.role ρ).merge.pins = _).symm.subset
    | ungate _ hfree _ => exact absurd hbound (hfree g x hg (by rw [hcorr]; exact hopen))
    | same h | retire h | flip _ _ _ _ _ _ _ h | openPull _ _ _ h => exact hsame h hopen hg rfl
  -- the record: it stays bound, deferred and flagged
  have hrecord : (n'.exports.get x).core = (n.exports.get x).core
      ∧ (n'.exports.get x).deferred.isSome ∧ (n'.exports.get x).deferPinned = true := by
    cases h.exportEffect x with
    | same hcore _ hs =>
      rcases hs with hs | ⟨hs, -⟩
      · have hsame : (n'.exports.get x).deferred = (n.exports.get x).deferred :=
          congrArg Prod.fst hs
        have hflag' : (n'.exports.get x).deferPinned = (n.exports.get x).deferPinned :=
          congrArg Prod.snd hs
        exact ⟨hcore, by rw [hsame]; exact hdeferred, hflag'.trans hflag⟩
      · exact (hopen_mine hs).elim
    | made hnext _ _ => exact absurd hx (by rw [hnext]; exact lt_irrefl _)
    | rebid hoff _ _ | bind _ _ _ hoff _ _ _ _ _ =>
      rw [hbound] at hoff
      cases hoff
    | complete _ _ hs => exact (hopen_mine hs).elim
    | defer _ _ _ hcore _ hnew => exact ⟨hcore, hnew⟩
  obtain ⟨hopen', hg', hpins'⟩ := hrole
  obtain ⟨hcore, hdeferred', hflag'⟩ := hrecord
  have hbound' : (n'.exports.get x).state = .bound :=
    (congrArg ExportCore.state hcore).trans hbound
  have hmanifest : (n'.exports.get x).manifest = (n.exports.get x).manifest :=
    congrArg ExportCore.manifest hcore
  refine ⟨⟨(h.roleAt_kept hhere).resolve_right fun h => hr h.2, ⟨hopen', hbound'⟩, hdeferred'⟩,
    ⟨g, hg', hcorr⟩,
    hflag', ?_⟩
  rw [hmanifest]
  exact hpins'

theorem Moves.deferral_kept (h : Moves cfg P n n') (hwf : n.Wf) (hd : n.Deferral t ρ corr x)
    (hr : ¬P (.retire t)) (hc : ¬P (.close ρ corr))
    (hu : P (.unpin ρ) → (n.exports.get x).manifest.ids = ∅) :
    n'.Wf ∧ n'.Deferral t ρ corr x ∧ (n'.exports.get x).manifest = (n.exports.get x).manifest :=
  moves_preserve (I := fun m => m.Wf ∧ m.Deferral t ρ corr x
      ∧ (m.exports.get x).manifest = (n.exports.get x).manifest)
    (fun _ _ h hm => ⟨hm.1.move h, h.deferral hm.1 hm.2.1 hr hc fun hP => by rw [hm.2.2]; exact hu hP,
      (h.manifest hm.2.1.binds.2 (hm.1.made ρ corr x hm.2.1.binds.1).2).trans hm.2.2⟩) h ⟨hwf, hd,
        rfl⟩

theorem Moves.deferral (h : Moves cfg P n n') (hwf : n.Wf) (hd : n.Deferral t ρ corr x)
    (hr : ¬P (.retire t)) (hc : ¬P (.close ρ corr))
    (hu : P (.unpin ρ) → (n.exports.get x).manifest.ids = ∅) : n'.Deferral t ρ corr x :=
  (deferral_kept h hwf hd hr hc hu).2.1

/-- A record marked after a move was marked before it, unless the move may defer it. -/
theorem Move.marked_before (h : Move cfg P n n') (hwf : n.Wf) (hdefer : ¬P (.defer ρ corr))
    (hw : n'.Marked t ρ corr x) : n.Marked t ρ corr x := by
  obtain ⟨hhere, ⟨hopen, hbound⟩, hmark⟩ := hw
  rcases h.openMerges hopen with hold | ⟨-, -, -, hoff, -⟩
  · obtain ⟨hρ, hx⟩ := hwf.made ρ corr x hold
    have hat : n.roleAt t = some ρ := by
      rcases h.roleAt hhere with hat | ⟨hnext, -⟩
      · exact hat
      · exact absurd hρ (by rw [hnext]; exact lt_irrefl _)
    cases h.exportEffect x with
    | same hcore hd hs =>
      have hstate : (n'.exports.get x).state = (n.exports.get x).state :=
        congrArg ExportCore.state hcore
      refine ⟨hat, ⟨hold, hstate ▸ hbound⟩, ?_⟩
      rcases hmark with hdeferred | hflag
      · rcases hd with hd | hd
        · rw [hd] at hdeferred
          cases hdeferred
        · exact .inl (hd ▸ hdeferred)
      · rcases hs with hs | ⟨-, hs⟩
        · exact .inr ((congrArg Prod.snd hs).symm.trans hflag)
        · exact .inr (hs hflag)
    | made hnext _ _ => exact absurd hx (by rw [hnext]; exact lt_irrefl _)
    | rebid _ hs _ =>
      rw [hs] at hbound
      cases hbound
    | complete _ hcore _ =>
      have hs : (n'.exports.get x).state = .completed := congrArg ExportCore.state hcore
      rw [hs] at hbound
      cases hbound
    | bind _ _ _ hoff _ _ _ _ hd =>
      have hnone := hd.trans (hwf.offered x hoff)
      rcases hmark with hdeferred | hflag
      · rw [show (n'.exports.get x).deferred = none from congrArg Prod.fst hnone] at hdeferred
        cases hdeferred
      · exact absurd ((congrArg Prod.snd hnone).symm.trans hflag) Bool.false_ne_true
    | @defer ρ' corr' hopen' _ _ _ hP =>
      obtain ⟨rfl, rfl⟩ := hwf.single ρ ρ' corr corr' x hold hopen'
      exact absurd hP hdefer
  · rw [hoff] at hbound
    cases hbound

theorem Moves.marked_before (h : Moves cfg P n n') (hwf : n.Wf) (hdefer : ¬P (.defer ρ corr))
    (hm : n'.Marked t ρ corr x) : n.Marked t ρ corr x := by
  by_contra hnot
  exact (moves_preserve (I := fun m => m.Wf ∧ ¬m.Marked t ρ corr x)
    (fun _ _ h hm => ⟨hm.1.move h, fun hw => hm.2 (h.marked_before hm.1 hdefer hw)⟩) h
    ⟨hwf, hnot⟩).2 hm

/-! ### Acts -/

/-- An act that may end the round of a role aborts it, or is a pull that declines an offer. -/
theorem Takes.of_close {a : Act} (h : Takes cfg n a (.close ρ corr)) :
    Aborts n a ρ ∨ ∀ x, (n.role ρ).openMerges.get corr = some x →
      (n.exports.get x).state = .offered := by
  cases h with
  | close h => exact .inl h
  | decline h hoff => exact .inr hoff

/-- An act that may unpin ids of a role aborts its round, or completes a pull of it. -/
theorem Takes.of_unpin {a : Act} (h : Takes cfg n a (.unpin ρ)) :
    Aborts n a ρ ∨ ∃ f b, a = .sub f ∧ f.merge = some b
      ∧ n.completes cfg ρ f.subscriber f.arrival.via b := by
  cases h with
  | unpin h => exact .inl h
  | complete hb h => exact .inr ⟨_, _, rfl, hb, h⟩

/-- **An act keeps a deferral**, unless it may abort the round, retire the role, or complete a pull
of it while the export names something. -/
theorem perform_deferral (hwf : n.Wf) (hd : n.Deferral t ρ corr x) {a : Act} (hab : ¬Aborts n a ρ)
    (hret : ¬Retires cfg n a t) (hsub : ∀ f b, a = .sub f → f.merge = some b →
      n.completes cfg ρ f.subscriber f.arrival.via b → (n.exports.get x).manifest.ids = ∅) :
    (n.perform cfg a).Deferral t ρ corr x := by
  have hr : ¬Takes cfg n a (.retire t) := by
    rintro ⟨⟩
    exact hret ‹_›
  have hc : ¬Takes cfg n a (.close ρ corr) := by
    rintro h
    rcases h.of_close with h | h
    · exact hab h
    have hoff := h x hd.binds.1
    rw [hd.binds.2] at hoff
    cases hoff
  have hu (h : Takes cfg n a (.unpin ρ)) : (n.exports.get x).manifest.ids = ∅ := by
    rcases h.of_unpin with h | ⟨f, b, ha, hb, h⟩
    · exact absurd h hab
    · exact hsub f b ha hb h
  rcases perform_moves hwf a with h | h
  · exact Moves.deferral h hwf hd (fun h => hr h.1) (fun h => hc h.1) fun h => hu h.1
  · exact Moves.deferral h hwf hd (fun h => hr h.1) (fun h => hc h.1) fun h => hu h.1

/-- A record marked after an act was marked before it, unless the act defers it. -/
theorem perform_marked_before (hwf : n.Wf) {a : Act} (hdefer : ¬Takes cfg n a (.defer ρ corr))
    (hm : (n.perform cfg a).Marked t ρ corr x) : n.Marked t ρ corr x := by
  rcases perform_moves hwf a with h | h
  · exact Moves.marked_before h hwf (fun h => hdefer h.1) hm
  · exact Moves.marked_before h hwf (fun h => hdefer h.1) hm

/-! ### The end of a deferral -/

/-- A deferral rests on the record of its round, the gate and the pins. -/
theorem Node.Deferral.of_kept (hd : n.Deferral t ρ corr x) (hat : n'.roleAt t = n.roleAt t)
    (ho : (n'.role ρ).openMerges.get corr = (n.role ρ).openMerges.get corr)
    (hg : (n'.role ρ).merge.gate = (n.role ρ).merge.gate) (hx : n'.exports.get x = n.exports.get x)
    (hp : (n.exports.get x).manifest.ids ⊆ (n'.role ρ).merge.pins) : n'.Deferral t ρ corr x := by
  obtain ⟨⟨hhere, ⟨hopen, hbound⟩, hdeferred⟩, ⟨g, hgate, hcorr⟩, hflag, -⟩ := hd
  refine ⟨⟨hat.trans hhere, ⟨ho.trans hopen, ?_⟩, ?_⟩, ⟨g, hg.trans hgate, hcorr⟩, ?_, ?_⟩
  all_goals rw [hx]
  · exact hbound
  · exact hdeferred
  · exact hflag
  · exact hp

/-- Is the event a flip of step 5? -/
def Event.isFlip : Event → Bool
  | .transition _ _ false (.mergeStep5 _ _) _ => true
  | _ => false

/-- The round was aborted: its record is closed and its gate gone, and its export is unpinned unless
a completion owns the pins. -/
structure Node.Aborted (n n' : Node) (ρ : RoleRef) (corr : Corr) (x : ExportRef) : Prop where
  closed : (n'.role ρ).openMerges.get corr ≠ some x
  ungated : (n'.role ρ).merge.gate = none
  unpinned : (n.role ρ).merge.completing = none →
    Disjoint (n'.role ρ).merge.pins (n.exports.get x).manifest.ids

/-- Step 5 was taken: the claim went to the winner within the lease, and the record is completed. -/
structure Node.Flipped (n n' : Node) (ρ : RoleRef) (corr : Corr) (x : ExportRef) : Prop where
  lease : (n.exports.get x).leaseOk n.world = true
  event : ∃ r m es, n'.journal = es ++ n.journal
    ∧ .transition ρ r false (.mergeStep5 corr m) n.world ∈ es ∧ m.core = (n.exports.get x).core
  completed : (n'.exports.get x).state = .completed

/-- An abort stands, unless something may be pinned or bound in the role. -/
theorem Move.aborted {m m' : Node} (h : Move cfg P m m') (ha : n.Aborted m ρ corr x)
    (hx : x < m.exports.next) (hp : ¬P (.pin ρ)) (ht : ¬P .transfer) (hb : ¬P (.bind ρ)) :
    n.Aborted m' ρ corr x := by
  obtain ⟨hclosed, hgate, hpins⟩ := ha
  have hopen : (m'.role ρ).openMerges.get corr ≠ some x := by
    intro hopen
    rcases h.openMerges hopen with hold | ⟨hnext, -⟩
    · exact hclosed hold
    · exact absurd hx (by rw [hnext]; exact lt_irrefl _)
  have hsame {c : RoleCore} (h : (m'.role ρ).core = c) (hcg : c.gate = (m.role ρ).merge.gate)
      (hcp : c.pins = (m.role ρ).merge.pins) :
      (m'.role ρ).merge.gate = none ∧ (m'.role ρ).merge.pins ⊆ (m.role ρ).merge.pins := by
    subst h
    exact ⟨hcg.trans hgate, hcp.subset⟩
  obtain ⟨hg, hsub⟩ : (m'.role ρ).merge.gate = none
      ∧ (m'.role ρ).merge.pins ⊆ (m.role ρ).merge.pins := by
    cases h.roleEffect ρ with
    | move hm _ => exact ⟨hm.gate.trans hgate, hm.pins_none hp ht⟩
    | fresh _ h =>
      exact ⟨congrArg RoleCore.gate h, (congrArg RoleCore.pins h :
        (m'.role ρ).merge.pins = ∅).subset.trans
        (Finset.empty_subset _)⟩
    | bind _ _ _ _ _ _ hbind => exact absurd hbind hb
    | endRound _ _ h =>
      refine ⟨?_, (congrArg RoleCore.pins h.rest : (m'.role ρ).merge.pins = _).subset⟩
      rcases h.gate with hkept | ⟨hnone, -⟩
      · exact hkept.trans hgate
      · exact hnone
    | ungate _ _ h =>
      exact ⟨congrArg RoleCore.gate h, (congrArg RoleCore.pins h :
        (m'.role ρ).merge.pins = _).subset⟩
    | same h | retire h | offer _ _ _ _ _ h | flip _ _ _ _ _ _ _ h | openPull _ _ _ h =>
      exact hsame h rfl rfl
  exact ⟨hopen, hg, fun hfree => (hpins hfree).mono_left hsub⟩

theorem Moves.aborted {m m' : Node} (h : Moves cfg P m m') (ha : n.Aborted m ρ corr x)
    (hx : x < m.exports.next) (hp : ¬P (.pin ρ)) (ht : ¬P .transfer) (hb : ¬P (.bind ρ)) :
    n.Aborted m' ρ corr x := by
  have hrun := moves_preserve (I := fun m => x < m.exports.next ∧ n.Aborted m ρ corr x)
    (fun _ _ h hm => ⟨lt_of_lt_of_le hm.1 h.exports_next, h.aborted hm.2 hm.1 hp ht hb⟩) h ⟨hx, ha⟩
  exact hrun.2

/-! ### Aborts and flips -/

/-- Two nodes agree on the rounds of a role, and on what its records name and have pinned. -/
structure Node.SameRound (n k : Node) (ρ : RoleRef) : Prop where
  openMerges : (k.role ρ).openMerges = (n.role ρ).openMerges
  gate : (k.role ρ).merge.gate = (n.role ρ).merge.gate
  completing : (k.role ρ).merge.completing = (n.role ρ).merge.completing
  highWater : (k.role ρ).highWater = (n.role ρ).highWater
  manifest : ∀ x, (k.exports.get x).manifest = (n.exports.get x).manifest
  flag : ∀ x, (k.exports.get x).deferPinned = (n.exports.get x).deferPinned

theorem Node.SameRound.refl (n : Node) (ρ : RoleRef) : n.SameRound n ρ :=
  ⟨rfl, rfl, rfl, rfl, fun _ => rfl, fun _ => rfl⟩

theorem Node.SameRound.trans {k m : Node} (h : n.SameRound k ρ) (h' : k.SameRound m ρ) :
    n.SameRound m ρ where
  openMerges := h'.openMerges.trans h.openMerges
  gate := h'.gate.trans h.gate
  completing := h'.completing.trans h.completing
  highWater := h'.highWater.trans h.highWater
  manifest x := (h'.manifest x).trans (h.manifest x)
  flag x := (h'.flag x).trans (h.flag x)

/-- A change of the role alone, to one with the same rounds. -/
theorem Node.SameRound.modifyRole {f : Role → Role}
    (ho : (f (n.role ρ)).openMerges = (n.role ρ).openMerges)
    (hg : (f (n.role ρ)).merge.gate = (n.role ρ).merge.gate)
    (hc : (f (n.role ρ)).merge.completing = (n.role ρ).merge.completing)
    (hw : (f (n.role ρ)).highWater = (n.role ρ).highWater) : n.SameRound (n.modifyRole ρ f) ρ := by
  have hrole := Node.role_modifyRole_self n ρ f
  refine ⟨?_, ?_, ?_, ?_, fun _ => rfl, fun _ => rfl⟩
  · rw [hrole, ho]
  · rw [hrole, hg]
  · rw [hrole, hc]
  · rw [hrole, hw]

/-- The deferral of a record is forgotten. -/
def Node.undefer (n : Node) (x : ExportRef) : Node :=
  n.modifyExport x fun m => { m with deferred := none }

theorem Node.export_undefer (n : Node) (x y : ExportRef) :
    (n.undefer x).exports.get y = n.exports.get y
      ∨ (n.undefer x).exports.get y = { n.exports.get y with deferred := none } := by
  by_cases hy : y = x
  · subst hy
    exact .inr (Node.export_modifyExport_self n y fun m => { m with deferred := none })
  · exact .inl (Heap.get_modify_of_ne n.exports (fun m : Export => { m with deferred := none }) hy)

theorem Node.core_undefer (n : Node) (x y : ExportRef) :
    ((n.undefer x).exports.get y).core = (n.exports.get y).core := by
  rcases n.export_undefer x y with h | h
  · rw [h]
  · rw [h]
    rfl

theorem Node.SameRound.undefer (n : Node) (ρ : RoleRef) (x : ExportRef) :
    n.SameRound (n.undefer x) ρ := by
  refine ⟨rfl, rfl, rfl, rfl, fun y => ?_, fun y => ?_⟩
  · rcases n.export_undefer x y with h | h
    all_goals rw [h]
  · rcases n.export_undefer x y with h | h
    all_goals rw [h]

/-- What unpinning takes away, where no completion owns the pins. -/
theorem pins_mergeUnpinDeferred (hflag : (n.exports.get x).deferPinned = true)
    (hfree : (n.role ρ).merge.completing = none) : ((n.mergeUnpinDeferred ρ x).role ρ).merge.pins
      = (n.role ρ).merge.pins \ (n.exports.get x).manifest.ids := by
  unfold Node.mergeUnpinDeferred
  rw [if_pos (by simp [hflag, hfree])]
  exact congrArg (fun r : Role => r.merge.pins)
    (Node.role_modifyRole_self n ρ fun r => r.unpin (n.exports.get x).manifest)

/-- **An abort of the round's gate aborts the deferral.** -/
theorem mergeAbort_aborted {k : Node} {g : Gate} (hr : n.SameRound k ρ)
    (hopen : (n.role ρ).openMerges.get corr = some x) (hg : (n.role ρ).merge.gate = some g)
    (hcorr : g.corr = corr) (hflag : (n.exports.get x).deferPinned = true) :
    n.Aborted (k.mergeAbort ρ) ρ corr x := by
  unfold Node.mergeAbort
  rw [hr.gate, hg]
  simp only []
  rw [hr.openMerges, hcorr, hopen]
  set m := k.mergeUnpinDeferred ρ x with hm
  have hrole := Node.role_modifyRole_self m ρ fun r =>
    { r.closeCorr corr with
      merge := { (r.closeCorr corr).merge with candidate := none, gate := none } }
  refine ⟨?_, ?_, fun hfree => ?_⟩
  · rw [hrole]
    change ((m.role ρ).openMerges.delete corr).get corr ≠ some x
    rw [get_delete, if_pos rfl]
    intro hsome
    cases hsome
  · rw [hrole]
  · rw [hrole]
    change Disjoint (m.role ρ).merge.pins _
    rw [hm, pins_mergeUnpinDeferred ((hr.flag x).trans hflag) (hr.completing.trans hfree),
      hr.manifest]
    exact Finset.sdiff_disjoint

/-- Step 5 goes: the claim is given up within the lease, with the high water the role has, and the
record is completed. -/
structure Node.StepsDown (n n' : Node) (ρ : RoleRef) (corr : Corr) (x : ExportRef) : Prop where
  lease : (n.exports.get x).leaseOk n.world = true
  event : ∃ r, r.highWater = (n.role ρ).highWater ∧ n'.journal
    = .transition ρ r false (.mergeStep5 corr (n.exports.get x)) n.world :: n.journal
  completed : (n'.exports.get x).state = .completed

/-- What a flip of step 5 does to the node. -/
theorem demote_step5_cases {token : Option Nat} {m : Export} {dest : NodeId}
    (hρ : n.roleAt t = some ρ) : n.demote cfg t dest (.mergeStep5 corr m) token true = (false, n)
      ∨ ∃ n' r, n.demote cfg t dest (.mergeStep5 corr m) token true = (true, n')
        ∧ r.highWater = (n.role ρ).highWater
        ∧ n'.journal = .transition ρ r false (.mergeStep5 corr m) n.world :: n.journal
        ∧ n'.exports = n.exports := by
  unfold Node.demote
  rw [hρ]
  by_cases hroot : (n.role ρ).isRoot = true
  · simp only [hroot, Bool.not_true, Bool.false_eq_true, if_false]
    by_cases hself : dest = cfg.nodeId
    · rw [if_pos hself]
      exact .inl rfl
    rw [if_neg hself]
    -- the claim goes at once, or with the token of this flip
    have hset : n.setRoot cfg ρ false (.mergeStep5 corr m) token = (false, n)
        ∨ ∃ n' r, n.setRoot cfg ρ false (.mergeStep5 corr m) token = (true, n')
          ∧ r.highWater = (n.role ρ).highWater
          ∧ n'.journal = .transition ρ r false (.mergeStep5 corr m) n.world :: n.journal
          ∧ n'.exports = n.exports := by
      unfold Node.setRoot
      simp only [hroot, Bool.true_eq_false, Bool.false_eq_true, if_false]
      split_ifs
      · exact .inl rfl
      · refine .inr ⟨_, _, rfl, ?_, rfl, rfl⟩
        rw [Node.modifyMerge, Node.role_modifyRole_self]
        rfl
      · exact .inr ⟨_, _, rfl, rfl, rfl, rfl⟩
    rcases hset with hset | ⟨n', r, hset, hw, hj, hx⟩
    · rw [hset]
      exact .inl rfl
    · rw [hset]
      exact .inr ⟨_, r, rfl, hw, hj, hx⟩
  · simp only [hroot, Bool.not_false, if_true]
    exact .inl (by simp)

/-- **Step 5 flips within the lease, or aborts the round.** -/
theorem mergeStep5_cases (hρ : n.roleAt t = some ρ) :
    n.StepsDown (n.mergeStep5 cfg t ρ corr x) ρ corr x
      ∨ ∃ k, n.SameRound k ρ ∧ k.journal = n.journal
        ∧ n.mergeStep5 cfg t ρ corr x = k.mergeAbort ρ := by
  unfold Node.mergeStep5
  simp only []
  by_cases hlease : (n.exports.get x).leaseOk n.world = true
  · rw [hlease]
    set p := n.modifyRole ρ fun r => r.pin (n.exports.get x).manifest with hp
    set q := p.modifyMerge ρ fun g => { g with
      releaseToken := some p.world.nonce
      acceptedWinner := some ⟨(n.exports.get x).winner, toInt32 (n.exports.get x).winnerEpoch,
        p.now + cfg.stepDownHoldMs⟩ } with hq
    have hsame : n.SameRound q ρ := (Node.SameRound.modifyRole rfl rfl rfl rfl).trans
      (Node.SameRound.modifyRole rfl rfl rfl rfl)
    have hat : q.roleAt t = some ρ := hρ
    have hdemote : q.demote cfg t (n.exports.get x).winner (.mergeStep5 corr (n.exports.get x))
        (some p.world.nonce) true = (false, q) ∨ _ := demote_step5_cases hat
    rcases hdemote with h | ⟨q', r, h, hw, hj, hx⟩
    · rw [h]
      exact .inr ⟨_, hsame.trans (Node.SameRound.modifyRole rfl rfl rfl rfl), rfl, rfl⟩
    rw [h]
    have hfinish (k : Node) (hk : k.journal = q'.journal)
        (hkx : (k.exports.get x).state = .completed) (c : Completing) :
        n.StepsDown (if (n.exports.get x).timing.A < k.world.mono - (n.exports.get x).tB then k
          else (k.modifyMerge ρ fun g => { g with completing := some c }).send (.subscribe t
            ((k.modifyMerge ρ fun g => { g with completing := some c }).role ρ).merge.completing))
          ρ corr x := by
      have hevent : ∃ r, r.highWater = (n.role ρ).highWater ∧ k.journal
          = .transition ρ r false (.mergeStep5 corr (n.exports.get x)) n.world :: n.journal :=
        ⟨r, hw.trans hsame.highWater, hk.trans hj⟩
      split
      · exact ⟨hlease, hevent, hkx⟩
      · exact ⟨hlease, hevent, hkx⟩
    refine .inl (hfinish _ ?_ ?_ _)
    · split <;> rfl
    · have hcompleted (k : Node) : ((k.modifyExport x fun m =>
          { m with state := .completed }).exports.get x).state = .completed :=
        congrArg Export.state (Node.export_modifyExport_self k x fun m => { m with state :=
          .completed })
      exact hcompleted _
  · simp only [hlease, Bool.not_false, if_true]
    refine .inr ⟨n, .refl n ρ, rfl, ?_⟩
    simp

/-! ### The acts that may end a round -/

/-- What may become of a deferral: it stands, it is flipped, or it is aborted. -/
def Outcome (n n' : Node) (t : TopicId) (ρ : RoleRef) (corr : Corr) (x : ExportRef) : Prop :=
  n'.Deferral t ρ corr x ∨ n.Flipped n' ρ corr x ∨ n.Aborted n' ρ corr x

/-- The answer of a winner that refuses its exchange. -/
structure Refuses (cfg : Config) (m : Export) (a : ReplayAck) : Prop where
  refusal : Node.isRefusal cfg a.disposition = true
  winner : a.winner = m.winner
  loser : a.loser = cfg.nodeId

/-- Step 5 is deferred, and the export pinned where it was not. -/
def Node.deferStep5 (n : Node) (ρ : RoleRef) (x : ExportRef) (a : ReplayAck) : Node :=
  (if (n.exports.get x).deferPinned then n
    else n.modifyRole ρ fun r => r.pin (n.exports.get x).manifest).modifyExport x fun m =>
      { m with deferPinned := true, deferred := some a }

/-- What an answer to an open exchange makes of the node. -/
inductive AckCase (cfg : Config) (n : Node) (a : ReplayAck) (second : Bool) (ρ : RoleRef)
    (x : ExportRef) : Node → Prop
  | ignored : AckCase cfg n a second ρ x n
  | refused (h : Refuses cfg (n.exports.get x) a) :
      AckCase cfg n a second ρ x (n.onRefusal cfg ρ (n.exports.get x) a)
  | aborted (hb : (n.exports.get x).state = .bound) : AckCase cfg n a second ρ x (n.mergeAbort ρ)
  | deferred (hb : (n.exports.get x).state = .bound) (e : Event) (he : e.isFlip = false) :
      AckCase cfg n a second ρ x ((n.note e).deferStep5 ρ x a)
  | step5 (hb : (n.exports.get x).state = .bound) (e : Event) (he : e.isFlip = false)
      (hacked : (n.note e).Acked ρ a.corr x)
      (hsecond : cfg.successorGate = true → (n.exports.get x).ephemeral = true → second = true) :
      AckCase cfg n a second ρ x ((n.note e).mergeStep5 cfg a.topicId ρ a.corr x)

variable {a : ReplayAck} {second : Bool}

theorem onReplayAck_case (hat : n.roleAt a.topicId = some ρ)
    (hopen : (n.role ρ).openMerges.get a.corr = some x) :
    AckCase cfg n a second ρ x (n.onReplayAck cfg a second) := by
  unfold Node.onReplayAck
  rw [hat]
  simp only []
  rw [hopen]
  simp only []
  split
  · next hrefusal =>
    split
    · next hnamed =>
      simp only [Bool.and_eq_true, decide_eq_true_eq] at hnamed
      exact .refused ⟨hrefusal, hnamed.1, hnamed.2⟩
    · exact .ignored
  split
  · exact .ignored
  next hmatch =>
  have hb : (n.exports.get x).state = .bound := by
    simp only [Bool.or_eq_true, Bool.not_eq_true', decide_eq_true_eq, not_or, not_not] at hmatch
    exact hmatch.2
  split
  · exact .aborted hb
  split
  · exact .aborted hb
  split
  · exact .deferred hb _ rfl
  next hfree =>
  refine .step5 hb _ rfl ⟨_, _, _, List.mem_cons_self, rfl⟩ fun hgate heph => ?_
  simpa [hgate, heph] using hfree

/-- An answer to no exchange of its role is ignored. -/
theorem onReplayAck_closed (hat : n.roleAt a.topicId = some ρ)
    (hopen : (n.role ρ).openMerges.get a.corr = none) : n.onReplayAck cfg a second = n := by
  unfold Node.onReplayAck
  rw [hat]
  simp only []
  rw [hopen]

/-- What a tick makes of a deferred record. -/
inductive TickCase (cfg : Config) (n : Node) (t : TopicId) (corr : Corr) (second : Bool)
    (ρ : RoleRef) (x : ExportRef) : Node → Prop
  | ignored : TickCase cfg n t corr second ρ x n
  | stale (hg : (n.role ρ).merge.gate.any (fun g => g.corr = corr) = true) :
      TickCase cfg n t corr second ρ x ((n.undefer x).mergeAbort ρ)
  | strayed (hg : (n.role ρ).merge.gate.any (fun g => g.corr = corr) = false)
      (hd : (n.exports.get x).deferred.isSome) :
      TickCase cfg n t corr second ρ x
        (((n.undefer x).mergeUnpinDeferred ρ x).modifyRole ρ fun r => r.closeCorr corr)
  | step5 (hg : (n.role ρ).merge.gate.any (fun g => g.corr = corr) = true)
      (hsecond : (n.exports.get x).leaseOk n.world = true → second = true) :
      TickCase cfg n t corr second ρ x ((n.undefer x).mergeStep5 cfg t ρ corr x)

theorem step5Tick_case (hat : n.roleAt t = some ρ)
    (hopen : (n.role ρ).openMerges.get corr = some x) :
    TickCase cfg n t corr second ρ x (n.step5Tick cfg t corr second) := by
  unfold Node.step5Tick
  split
  · exact .ignored
  rw [hat]
  simp only []
  rw [hopen]
  simp only []
  split
  · exact .ignored
  next hdeferred =>
  have hd : (n.exports.get x).deferred.isSome := by
    cases hd : (n.exports.get x).deferred with
    | none => simp [hd] at hdeferred
    | some _ => rfl
  split
  · split
    next hg => exact .stale hg
    next hg => exact .strayed (by simpa using hg) hd
  next hstands =>
  have hg : (n.role ρ).merge.gate.any (fun g => g.corr = corr) = true := by
    simp only [Bool.or_eq_true, Bool.not_eq_true', not_or, Bool.not_eq_false] at hstands
    exact hstands.2
  split
  · exact .ignored
  next hgo =>
  refine .step5 hg fun hlease => ?_
  simpa [hlease] using hgo

theorem step5Tick_closed (hat : n.roleAt t = some ρ)
    (hopen : (n.role ρ).openMerges.get corr = none) : n.step5Tick cfg t corr second = n := by
  unfold Node.step5Tick
  split
  · rfl
  rw [hat]
  simp only []
  rw [hopen]

/-- Deferring a bound record of the gate's round makes a deferral as it should be. -/
theorem deferStep5_deferral {g : Gate} (hat : n.roleAt t = some ρ) (hb : n.Binds ρ corr x)
    (hg : (n.role ρ).merge.gate = some g) (hcorr : g.corr = corr)
    (hpins : (n.exports.get x).deferPinned = true →
      (n.exports.get x).manifest.ids ⊆ (n.role ρ).merge.pins) :
    (n.deferStep5 ρ x a).Deferral t ρ corr x := by
  obtain ⟨hopen, hbound⟩ := hb
  have hdefer (k : Node) (hk : k.exports = n.exports) (hkat : k.roleAt t = some ρ)
      (hko : (k.role ρ).openMerges.get corr = some x) (hkg : (k.role ρ).merge.gate = some g)
      (hkp : (n.exports.get x).manifest.ids ⊆ (k.role ρ).merge.pins) :
      (k.modifyExport x fun m => { m with deferPinned := true, deferred := some a }).Deferral
        t ρ corr x := by
    have hx := Node.export_modifyExport_self k x fun m =>
      { m with deferPinned := true, deferred := some a }
    rw [hk] at hx
    refine ⟨⟨hkat, ⟨hko, ?_⟩, ?_⟩, ⟨g, hkg, hcorr⟩, ?_, ?_⟩
    · rw [hx]
      exact hbound
    · rw [hx]
      rfl
    · rw [hx]
    · rw [hx]
      exact hkp
  unfold Node.deferStep5
  split
  next hflag => exact hdefer n rfl hat hopen hg (hpins hflag)
  have hrole := Node.role_modifyRole_self n ρ fun r => r.pin (n.exports.get x).manifest
  refine hdefer _ rfl hat ?_ ?_ ?_
  · rw [hrole]
    exact hopen
  · rw [hrole]
    exact hg
  · rw [hrole]
    exact Finset.subset_union_right

theorem Export.leaseOk_of_core {m m' : Export} (h : m'.core = m.core) (w : World) :
    m'.leaseOk w = m.leaseOk w := by
  unfold Export.leaseOk
  rw [show m'.tB = m.tB from congrArg ExportCore.tB h,
    show m'.tBWall = m.tBWall from congrArg ExportCore.tBWall h,
    show m'.timing = m.timing from congrArg ExportCore.timing h]

variable {t' : TopicId}

/-- Step 5 of a deferred round flips it or aborts it. -/
theorem step5_outcome {k : Node} (es : List Event) (hd : n.Deferral t ρ corr x)
    (hat : k.roleAt t' = some ρ) (hr : n.SameRound k ρ) (hw : k.world = n.world)
    (hcore : (k.exports.get x).core = (n.exports.get x).core) (hj : k.journal = es ++ n.journal) :
    Outcome n (k.mergeStep5 cfg t' ρ corr x) t ρ corr x := by
  obtain ⟨g, hg, hcorr⟩ := hd.gated
  have hcases : k.StepsDown (k.mergeStep5 cfg t' ρ corr x) ρ corr x ∨ _ := mergeStep5_cases hat
  rcases hcases with ⟨hlease, ⟨r, -, hevent⟩, hcompleted⟩ | ⟨k', hk, -, heq⟩
  · refine .inr (.inl ⟨?_, ⟨r, k.exports.get x, _ :: es, ?_, List.mem_cons_self, hcore⟩,
      hcompleted⟩)
    · rw [← hw, ← Export.leaseOk_of_core hcore]
      exact hlease
    · rw [hevent, hj, hw]
      rfl
  · rw [heq]
    exact .inr (.inr (mergeAbort_aborted (hr.trans hk) hd.binds.1 hg hcorr hd.flag))

/-- The answer to a deferred round leaves it, flips it or aborts it, unless it refuses. -/
theorem onReplayAck_outcome (hd : n.Deferral t ρ corr x) (hat : n.roleAt a.topicId = some ρ)
    (hcorr : a.corr = corr) (hspare : ¬Refuses cfg (n.exports.get x) a) :
    Outcome n (n.onReplayAck cfg a second) t ρ corr x := by
  subst hcorr
  obtain ⟨g, hg, hgc⟩ := hd.gated
  have hcase : AckCase cfg n a second ρ x _ := onReplayAck_case hat hd.binds.1
  generalize n.onReplayAck cfg a second = n' at hcase ⊢
  cases hcase with
  | ignored => exact .inl hd
  | refused h => exact absurd h hspare
  | aborted _ =>
    exact .inr (.inr (mergeAbort_aborted (.refl n ρ) hd.binds.1 hg hgc hd.flag))
  | deferred _ e _ =>
    exact .inl (deferStep5_deferral (n := n.note e) hd.here hd.binds hg hgc fun _ => hd.pins)
  | step5 _ e _ _ _ =>
    exact step5_outcome (k := n.note e) [e] hd hat
      ⟨rfl, rfl, rfl, rfl, fun _ => rfl, fun _ => rfl⟩ rfl rfl rfl

/-- The answer to another round of the role leaves a deferral alone. -/
theorem onReplayAck_other (hwf : n.Wf) (hs : n.CutSound) (hd : n.Deferral t ρ corr x)
    (hat : n.roleAt a.topicId = some ρ) (hne : a.corr ≠ corr) :
    (n.onReplayAck cfg a second).Deferral t ρ corr x := by
  cases hopen : (n.role ρ).openMerges.get a.corr with
  | none =>
    rw [onReplayAck_closed hat hopen]
    exact hd
  | some y =>
    -- the gate is of the deferral's round, so the other record is not bound
    have hfree : (n.exports.get y).state ≠ .bound := by
      intro hb
      obtain ⟨g, hg, hgc, -⟩ := hs ρ a.corr y ⟨hopen, hb⟩
      obtain ⟨g', hg', hgc'⟩ := hd.gated
      rw [hg] at hg'
      cases hg'
      exact hne (hgc.symm.trans hgc')
    have hcase : AckCase cfg n a second ρ y _ := onReplayAck_case hat hopen
    generalize n.onReplayAck cfg a second = n' at hcase ⊢
    cases hcase with
    | ignored => exact hd
    | refused _ =>
      have hmoves : Moves cfg (fun i => i = .forget ∨ i = .round ∨ i = .close ρ a.corr) n
          (n.onRefusal cfg ρ (n.exports.get y) a) :=
        Moves.onRefusal _ a (.inl rfl) ⟨.inr (.inl rfl), .inr (.inr rfl)⟩
      refine Moves.deferral hmoves hwf hd ?_ ?_ ?_
      · rintro (h | h | h) <;> cases h
      · rintro (h | h | h)
        · cases h
        · cases h
        · cases h
          exact hne rfl
      · rintro (h | h | h) <;> cases h
    | aborted hb | deferred hb _ _ | step5 hb _ _ _ _ => exact absurd hb hfree

/-- A tick on a deferred round leaves it, flips it or aborts it. -/
theorem step5Tick_outcome (hd : n.Deferral t ρ corr x) :
    Outcome n (n.step5Tick cfg t corr second) t ρ corr x := by
  obtain ⟨g, hg, hgc⟩ := hd.gated
  have hcase : TickCase cfg n t corr second ρ x _ := step5Tick_case hd.here hd.binds.1
  generalize n.step5Tick cfg t corr second = n' at hcase ⊢
  cases hcase with
  | ignored => exact .inl hd
  | stale _ =>
    exact .inr (.inr (mergeAbort_aborted (.undefer n ρ x) hd.binds.1 hg hgc hd.flag))
  | strayed h _ =>
    rw [hg] at h
    simp [hgc] at h
  | step5 _ _ =>
    exact step5_outcome (k := n.undefer x) [] hd hd.here (.undefer n ρ x) rfl
      (n.core_undefer x x) rfl

variable {c : Corr}

/-- A tick on another round of the role leaves a deferral alone, unless it unpins what the deferral
has pinned. -/
theorem step5Tick_other (hd : n.Deferral t ρ corr x) (hne : c ≠ corr) (hwf : n.Wf)
    (hspare : ∀ y, (n.role ρ).openMerges.get c = some y → (n.exports.get y).deferred.isSome →
      (n.exports.get y).deferPinned = true → (n.role ρ).merge.completing = none →
      Disjoint (n.exports.get x).manifest.ids (n.exports.get y).manifest.ids) :
    (n.step5Tick cfg t c second).Deferral t ρ corr x := by
  cases hopen : (n.role ρ).openMerges.get c with
  | none =>
    rw [step5Tick_closed hd.here hopen]
    exact hd
  | some y =>
    obtain ⟨g, hg, hgc⟩ := hd.gated
    have hother (h : (n.role ρ).merge.gate.any (fun g => g.corr = c) = true) : False := by
      rw [hg] at h
      have hc : g.corr = c := by simpa using h
      exact hne (hc.symm.trans hgc)
    have hcase : TickCase cfg n t c second ρ y _ := step5Tick_case hd.here hopen
    generalize n.step5Tick cfg t c second = n' at hcase ⊢
    cases hcase with
    | ignored => exact hd
    | stale h | step5 h _ => exact (hother h).elim
    | strayed _ hdeferred =>
      have hy : x ≠ y := by
        rintro rfl
        exact hne (hwf.single ρ ρ c corr x hopen hd.binds.1).2
      have hxy : (n.undefer y).exports.get x = n.exports.get x :=
        Heap.get_modify_of_ne n.exports (fun m : Export => { m with deferred := none }) hy
      have hunpin : ((n.undefer y).mergeUnpinDeferred ρ y).Deferral t ρ corr x := by
        unfold Node.mergeUnpinDeferred
        split
        · next hown =>
          simp only [Bool.and_eq_true, Option.isNone_iff_eq_none] at hown
          have hrole := Node.role_modifyRole_self (n.undefer y) ρ fun r =>
            r.unpin ((n.undefer y).exports.get y).manifest
          have hname : ((n.undefer y).exports.get y).manifest = (n.exports.get y).manifest :=
            congrArg ExportCore.manifest (n.core_undefer y y)
          refine hd.of_kept rfl ?_ ?_ ?_ ?_
          · exact (congrArg (fun r : Role => r.openMerges.get corr) hrole :)
          · exact (congrArg (fun r : Role => r.merge.gate) hrole :)
          · exact (Heap.get_modify_of_ne (n.undefer y).exports
              (fun m : Export => { m with deferPinned := false }) hy).trans hxy
          · have hpins := congrArg (fun r : Role => r.merge.pins) hrole
            refine Finset.Subset.trans ?_ (le_of_eq hpins.symm)
            refine Finset.subset_sdiff.mpr ⟨hd.pins, ?_⟩
            rw [hname]
            exact hspare y hopen hdeferred (((Node.SameRound.undefer n ρ y).flag y).symm.trans
              hown.1)
              hown.2
        · exact hd.of_kept rfl rfl rfl hxy hd.pins
      refine hunpin.of_kept rfl ?_ ?_ rfl ?_
      · rw [Node.role_modifyRole_self]
        exact (get_delete _ c corr).trans (if_neg fun h => hne h.symm)
      · rw [Node.role_modifyRole_self]
        rfl
      · rw [Node.role_modifyRole_self]
        exact hunpin.pins

/-- A verdict on the round that waits aborts it, one on another round changes nothing. -/
theorem winnerVerdict_outcome {k : Node} (v : ForwardVerdict) (hd : n.Deferral t ρ corr x)
    (hk : k.Deferral t ρ corr x) (hr : n.SameRound k ρ) (hat : k.roleAt t' = some ρ) :
    Outcome n (k.winnerVerdict t' c v) t ρ corr x := by
  obtain ⟨g, hg, hgc⟩ := hd.gated
  unfold Node.winnerVerdict
  cases v with
  | failed =>
    rw [hat]
    simp only []
    split
    · exact .inr (.inr (mergeAbort_aborted hr hd.binds.1 hg hgc hd.flag))
    · exact .inl hk
  | _ => exact .inl hk

theorem Moves.exports_next {m : Node} (h : Moves cfg P n m) : n.exports.next ≤ m.exports.next :=
  moves_climb (P := fun n m : Node => n.exports.next ≤ m.exports.next) (fun _ => le_refl _) le_trans
    (fun _ _ h => h.exports_next) h

/-- A winner that answers under another epoch ends the round that waits for it. -/
theorem winnerReminted_outcome {root : NodeId} {e : Int} (hwf : n.Wf) (hd : n.Deferral t ρ corr x)
    (hat : n.roleAt t' = some ρ) : Outcome n (n.winnerReminted cfg t' root c e) t ρ corr x := by
  obtain ⟨g, hg, hgc⟩ := hd.gated
  unfold Node.winnerReminted
  cases hf : (n.roleAt t').filter fun ρ => (n.role ρ).merge.gate.any fun g => g.corr = c with
  | none => exact .inl hd
  | some ρ' =>
    obtain rfl : ρ = ρ' := Option.some.inj (hat.symm.trans (Option.filter_eq_some_iff.mp hf).1)
    have habort := mergeAbort_aborted (.refl n ρ) hd.binds.1 hg hgc hd.flag
    have hmoves : Moves cfg (fun _ => True) n (n.mergeAbort ρ) :=
      Moves.mergeAbort ⟨trivial, trivial, fun _ => trivial⟩
    have hx : x < (n.mergeAbort ρ).exports.next :=
      lt_of_lt_of_le (hwf.made ρ corr x hd.binds.1).2 hmoves.exports_next
    -- the nomination that follows gives up a claim at most
    have hnominate : Moves cfg (fun i => i = .yield) (n.mergeAbort ρ)
        ((n.mergeAbort ρ).mergeCandidate cfg t' root (some (toInt32 e))) :=
      Moves.mergeCandidate (P := fun i => i = .yield) rfl t' root _
    exact .inr (.inr (Moves.aborted hnominate habort hx nofun nofun nofun))

/-- The close of a completion ends what is completing in the role, and takes every pin. -/
structure Node.Closes (n : Node) (ρ : RoleRef) (c : MergeClosed) : Prop where
  here : n.roleAt c.topicId = some ρ
  named : ∃ k, (n.role ρ).merge.completing = some k ∧ k.corr = c.corr
    ∧ toInt32 (c.winnerEpoch.getD 0) = k.winnerEpoch

/-- A close leaves a deferral alone, unless it takes the pins. -/
theorem onMergeClosed_deferral (cfg : Config) {c : MergeClosed} (hwf : n.Wf) (hd :
    n.Deferral t ρ corr x)
    (hat : n.roleAt c.topicId = some ρ)
    (hspare : n.Closes ρ c → c.corr ≠ corr ∧ (n.exports.get x).manifest.ids = ∅) :
    (n.onMergeClosed c).Deferral t ρ corr x := by
  by_cases hc : n.Closes ρ c
  · obtain ⟨hne, hempty⟩ := hspare hc
    have hmoves : Moves cfg (fun i => i = .round ∨ i = .close ρ c.corr ∨ i = .unpin ρ) n
        (n.onMergeClosed c) := by
      refine Moves.onMergeClosed c ?_
      rintro ρ' k hρ' - -
      obtain rfl : ρ = ρ' := Option.some.inj (hat.symm.trans hρ')
      exact ⟨⟨.inl rfl, .inr (.inl rfl)⟩, .inr (.inr rfl)⟩
    refine Moves.deferral hmoves hwf hd ?_ ?_ fun _ => hempty
    · rintro (h | h | h) <;> cases h
    · rintro (h | h | h)
      · cases h
      · cases h
        exact hne rfl
      · cases h
  · unfold Node.onMergeClosed
    rw [hat]
    simp only []
    cases hk : (n.role ρ).merge.completing with
    | none => exact hd
    | some k =>
      simp only []
      split
      · exact hd
      next hnamed =>
      simp only [ne_eq, Bool.or_eq_true, decide_eq_true_eq, not_or, not_not] at hnamed
      exact absurd ⟨hat, k, hk, hnamed.1, hnamed.2⟩ hc

/-! ### The sweep -/

/-- The sweep of other roles leaves the role, and every pull record, as they are. -/
structure Node.Untouched (n m : Node) (ρ : RoleRef) : Prop where
  role : m.role ρ = n.role ρ
  pulls : m.pulls = n.pulls
  world : m.world = n.world

theorem Node.Untouched.refl (n : Node) (ρ : RoleRef) : n.Untouched n ρ := ⟨rfl, rfl, rfl⟩

theorem Node.Untouched.trans {k m : Node} (h : n.Untouched k ρ) (h' : k.Untouched m ρ) :
    n.Untouched m ρ :=
  ⟨h'.role.trans h.role, h'.pulls.trans h.pulls, h'.world.trans h.world⟩

variable {ρ' : RoleRef}

section

variable (hne : ρ' ≠ ρ)
include hne

theorem Node.Untouched.modifyRole (f : Role → Role) :
    n.Untouched (n.modifyRole ρ' f) ρ :=
  ⟨by rw [Node.role_modifyRole, if_neg (Ne.symm hne)], rfl, rfl⟩

theorem mergeUnpinDeferred_untouched (y : ExportRef) :
    n.Untouched (n.mergeUnpinDeferred ρ' y) ρ := by
  unfold Node.mergeUnpinDeferred
  split
  · have h := Node.Untouched.modifyRole (n := n) hne fun r => r.unpin (n.exports.get y).manifest
    exact ⟨h.role, rfl, rfl⟩
  · exact .refl n ρ

theorem mergeAbort_untouched : n.Untouched (n.mergeAbort ρ') ρ := by
  unfold Node.mergeAbort
  split
  · exact .refl n ρ
  split
  · exact .modifyRole hne _
  · exact (mergeUnpinDeferred_untouched hne _).trans (.modifyRole hne _)

theorem setRoot_false_untouched (why : Why) (tok : Option Nat) :
    n.Untouched (n.setRoot cfg ρ' false why tok).2 ρ := by
  have hdescend (k : Node) (hk : n.Untouched k ρ) : n.Untouched (k.descend ρ' why) ρ := by
    have h := hk.trans (.modifyRole hne fun r => { r with isRoot := false })
    exact ⟨h.role, h.pulls, h.world⟩
  unfold Node.setRoot
  simp only [Bool.false_eq_true, if_false]
  split_ifs
  · exact .refl n ρ
  · exact .refl n ρ
  · exact hdescend _ (.modifyRole hne _)
  · exact hdescend _ (.refl n ρ)

end

theorem demote_untouched (hne : n.roleAt t' ≠ some ρ) (dest : NodeId) (why : Why)
    (tok : Option Nat) (hold : Bool) : n.Untouched (n.demote cfg t' dest why tok hold).2 ρ := by
  unfold Node.demote
  cases hat : n.roleAt t' with
  | none => exact .refl n ρ
  | some ρ' =>
    have hset : n.Untouched (n.setRoot cfg ρ' false why tok).2 ρ :=
      setRoot_false_untouched (fun h : ρ' = ρ => hne (h ▸ hat)) why tok
    simp only []
    split
    · exact .refl n ρ
    split
    · exact .refl n ρ
    split
    · next heq =>
      rw [heq] at hset
      exact hset
    next heq =>
    rw [heq] at hset
    refine ⟨?_, ?_, ?_⟩
    all_goals split
    · exact hset.role
    · exact hset.role
    · exact hset.pulls
    · exact hset.pulls
    · exact hset.world
    · exact hset.world

theorem sweepExport_untouched {y : ExportRef} (hne : ρ' ≠ ρ)
    (hat : n.roleAt (n.role ρ').topicId ≠ some ρ) : n.Untouched (n.sweepExport cfg ρ' c y) ρ := by
  unfold Node.sweepExport
  simp only []
  split
  · set m := n.modifyRole ρ' fun r => r.closeCorr c with hm
    have hclose : n.Untouched m ρ := .modifyRole hne _
    have htopic : (m.role ρ').topicId = (n.role ρ').topicId := by
      rw [hm, Node.role_modifyRole_self]
      rfl
    split
    · exact hclose.trans (.modifyRole hne _)
    split
    · split
      · exact hclose.trans (.modifyRole hne _)
      · exact hclose
    have htoken (f : MergeState → MergeState) :
        ((m.modifyMerge ρ' f).role ρ').topicId = (n.role ρ').topicId := by
      rw [Node.modifyMerge, Node.role_modifyRole_self]
      exact htopic
    refine (hclose.trans (.modifyRole hne _)).trans (demote_untouched ?_ _ _ _ _)
    rw [htoken]
    exact hat
  · exact .refl n ρ

theorem stageEnd_untouched (hne : ρ' ≠ ρ) : n.Untouched (n.stageEnd ρ' c) ρ := by
  unfold Node.stageEnd
  split
  · exact .refl n ρ
  split
  · exact .refl n ρ
  simp only []
  have hend : n.Untouched (n.modifyRole ρ' fun r => { r with staging := none }) ρ :=
    .modifyRole hne _
  split
  · exact ⟨hend.role, hend.pulls, hend.world⟩
  · exact hend

theorem sweepPull_untouched {y : PullRef} (hne : ρ' ≠ ρ) : n.Untouched (n.sweepPull ρ' c y) ρ := by
  unfold Node.sweepPull
  simp only []
  split
  · have h : n.Untouched (n.modifyRole ρ' fun r =>
        { r.releasePins with openPulls := r.openPulls.delete c }) ρ := .modifyRole hne _
    have hend : n.Untouched (n.endPull ρ' c) ρ := ⟨h.role, h.pulls, h.world⟩
    exact hend.trans (stageEnd_untouched hne)
  · exact .refl n ρ

/-- **The sweep of another role leaves the role alone.** -/
theorem sweepRole_untouched (hwf : n.Wf) (hat : n.roleAt t = some ρ) (hne : ρ' ≠ ρ)
    (hmade : ρ' < n.roles.next) (htopic : (n.role ρ').topicId ≠ t) :
    n.Untouched (n.sweepRole cfg ρ') ρ := by
  -- along the sweep both roles keep their topics
  have hfold (m : Node) (hm : Moves cfg (fun _ => True) n m) (hb : n.Untouched m ρ) :
      m.roleAt (m.role ρ').topicId ≠ some ρ := by
    have hrun := moves_preserve
      (I := fun m => m.Wf ∧ ρ' < m.roles.next ∧ (m.role ρ').topicId = (n.role ρ').topicId)
      (fun _ _ h hm => ⟨hm.1.move h, lt_of_lt_of_le hm.2.1 h.roles_next,
        (h.topicId hm.2.1).trans hm.2.2⟩) hm ⟨hwf, hmade, rfl⟩
    intro h
    have htop := (hrun.1.registered _ _ h).2
    rw [hb.role, (hwf.registered t ρ hat).2, hrun.2.2] at htop
    exact htopic htop.symm
  have hfree : MayAbort (fun _ => True) ρ' := ⟨trivial, trivial, fun _ => trivial⟩
  have hstart : n.Untouched (if (n.role ρ').merge.gate.any
    (fun g => mergeTimeoutMs ≤ n.now - g.cutAt) then
      n.mergeAbort ρ' else n) ρ
      ∧ Moves cfg (fun _ => True) n (if (n.role ρ').merge.gate.any
        (fun g => mergeTimeoutMs ≤ n.now - g.cutAt) then
      n.mergeAbort ρ' else n) := by
    split
    · exact ⟨mergeAbort_untouched hne, Moves.mergeAbort hfree⟩
    · exact ⟨.refl n ρ, .refl⟩
  refine List.foldlRecOn (motive := fun m => n.Untouched m ρ) _ _
    (List.foldlRecOn (motive := fun m => n.Untouched m ρ ∧ Moves cfg
      (fun _ => True) n m) _ _ hstart ?_).1 ?_
  · rintro m ⟨hb, hm⟩ e -
    exact ⟨hb.trans (sweepExport_untouched hne (hfold m hm hb)),
      hm.trans (Moves.sweepExport trivial e.1 e.2 fun _ => hfree.mayEnd e.1)⟩
  · rintro m hb e -
    exact hb.trans (sweepPull_untouched hne)

/-- A sweep of the role leaves its claim and the pull records alone, and stages nothing. -/
structure Node.Still (n m : Node) (ρ : RoleRef) : Prop where
  isRoot : (m.role ρ).isRoot = (n.role ρ).isRoot
  staging : (m.role ρ).staging = none ∨ (m.role ρ).staging = (n.role ρ).staging
  pulls : m.pulls = n.pulls
  world : m.world = n.world

theorem Node.Still.refl (n : Node) (ρ : RoleRef) : n.Still n ρ := ⟨rfl, .inr rfl, rfl, rfl⟩

theorem Node.Still.trans {k m : Node} (h : n.Still k ρ) (h' : k.Still m ρ) : n.Still m ρ :=
  ⟨h'.isRoot.trans h.isRoot, h'.staging.elim .inl fun hs => by rw [hs]; exact h.staging,
    h'.pulls.trans h.pulls, h'.world.trans h.world⟩

theorem Node.Still.modifyRole {f : Role → Role} (hr : (f (n.role ρ)).isRoot = (n.role ρ).isRoot)
    (hs : (f (n.role ρ)).staging = none ∨ (f (n.role ρ)).staging = (n.role ρ).staging) :
    n.Still (n.modifyRole ρ f) ρ := by
  have hrole := Node.role_modifyRole_self n ρ f
  refine ⟨?_, ?_, rfl, rfl⟩
  · rw [hrole, hr]
  · rw [hrole]
    exact hs

theorem Node.Still.stagedOnly {m : Node} (h : n.Still m ρ) (hs : (m.role ρ).StagedOnly c) :
    (n.role ρ).StagedOnly c := by
  obtain ⟨hroot, st, hst, hcorr⟩ := hs
  rcases h.staging with hnone | hsame
  · rw [hnone] at hst
    cases hst
  · exact ⟨h.isRoot ▸ hroot, st, hsame ▸ hst, hcorr⟩

theorem Role.dropCandidate_still (r : Role) (winner : NodeId) :
    (r.dropCandidate winner).isRoot = r.isRoot ∧ (r.dropCandidate winner).staging = r.staging
      ∧ (r.dropCandidate winner).openPulls = r.openPulls := by
  unfold Role.dropCandidate
  split
  · exact ⟨rfl, rfl, rfl⟩
  · exact ⟨rfl, rfl, rfl⟩

/-- Behind a gate, the sweep of a record closes it at most. -/
theorem sweepExport_still {y : ExportRef} (hg : (n.role ρ).merge.gate.isSome) :
    n.Still (n.sweepExport cfg ρ c y) ρ
      ∧ ((n.sweepExport cfg ρ c y).role ρ).openPulls = (n.role ρ).openPulls := by
  unfold Node.sweepExport
  simp only []
  split
  · set m := n.modifyRole ρ fun r => r.closeCorr c with hm
    have hrole : m.role ρ = (n.role ρ).closeCorr c := Node.role_modifyRole_self ..
    have hclose : n.Still m ρ := .modifyRole rfl (.inr rfl)
    have hpulls : (m.role ρ).openPulls = (n.role ρ).openPulls := by rw [hrole]; rfl
    have hgate : (m.role ρ).merge.gate.isSome := by rw [hrole]; exact hg
    have hdrop : n.Still (m.modifyRole ρ fun r => r.dropCandidate (n.exports.get y).winner) ρ
        ∧ ((m.modifyRole ρ fun r => r.dropCandidate (n.exports.get y).winner).role ρ).openPulls
          = (n.role ρ).openPulls := by
      obtain ⟨hr, hs, hp⟩ := (m.role ρ).dropCandidate_still (n.exports.get y).winner
      refine ⟨hclose.trans (.modifyRole hr (.inr hs)), ?_⟩
      rw [Node.role_modifyRole_self, hp, hpulls]
    split
    · exact hdrop
    split
    · split
      · exact hdrop
      · exact ⟨hclose, hpulls⟩
    next hfree =>
    rw [hgate] at hfree
    simp at hfree
  · exact ⟨.refl n ρ, rfl⟩

theorem sweepPull_still {y : PullRef} : n.Still (n.sweepPull ρ c y) ρ := by
  unfold Node.sweepPull
  simp only []
  split
  · have hend : n.Still (n.endPull ρ c) ρ := by
      have h : n.Still (n.modifyRole ρ fun r =>
        { r.releasePins with openPulls := r.openPulls.delete c }) ρ := .modifyRole rfl (.inr rfl)
      exact ⟨h.isRoot, h.staging, h.pulls, h.world⟩
    refine hend.trans ?_
    generalize n.endPull ρ c = m
    unfold Node.stageEnd
    split
    · exact .refl m ρ
    split
    · exact .refl m ρ
    simp only []
    have hstage : m.Still (m.modifyRole ρ fun r => { r with staging := none }) ρ :=
      .modifyRole rfl (.inl rfl)
    split
    · exact ⟨hstage.isRoot, hstage.staging, hstage.pulls, hstage.world⟩
    · exact hstage
  · exact .refl n ρ

/-- Does the sweep spare a deferral? Its round is over time, so that it is aborted, or no pull of the
role is due that would take its pins, or the role with them. -/
def SweepSpares (n : Node) (ρ : RoleRef) (x : ExportRef) : Prop :=
  (n.role ρ).merge.gate.any (fun g => mergeTimeoutMs ≤ n.now - g.cutAt) = true
    ∨ ∀ c y, (n.role ρ).openPulls.get c = some y → (n.pulls.get y).Due n.now →
      (n.exports.get x).manifest.ids = ∅ ∧ ¬(n.role ρ).StagedOnly c

/-- What a sweep may do at any role once a round is aborted: it pins nothing and binds nothing. -/
def Input.sweeps (ρ : RoleRef) (i : Input) : Prop := i ≠ .pin ρ ∧ i ≠ .transfer ∧ i ≠ .bind ρ

theorem Input.sweeps_mayAbort (ρ ρ' : RoleRef) : MayAbort (Input.sweeps ρ) ρ' :=
  ⟨⟨nofun, nofun, nofun⟩, ⟨nofun, nofun, nofun⟩, fun _ => ⟨nofun, nofun, nofun⟩⟩

/-- An abort stands whatever is swept after it. -/
theorem Moves.aborted_sweeps {k m : Node} (h : Moves cfg (Input.sweeps ρ) k m)
    (ha : n.Aborted k ρ corr x) (hx : x < k.exports.next) : n.Aborted m ρ corr x :=
  Moves.aborted h ha hx (fun h => h.1 rfl) (fun h => h.2.1 rfl) fun h => h.2.2 rfl

/-- **The sweep of the role aborts a deferral that is over time, and leaves any other alone** as long
as no pull of the role is due. -/
theorem sweepRole_outcome (hwf : n.Wf) (hd : n.Deferral t ρ corr x) (hspare : SweepSpares n ρ x) :
    (n.sweepRole cfg ρ).Deferral t ρ corr x ∨ n.Aborted (n.sweepRole cfg ρ) ρ corr x := by
  obtain ⟨g, hg, hgc⟩ := hd.gated
  unfold Node.sweepRole
  simp only []
  by_cases htime : (n.role ρ).merge.gate.any (fun g => mergeTimeoutMs ≤ n.now - g.cutAt) = true
  · rw [if_pos htime]
    have habort := mergeAbort_aborted (.refl n ρ) hd.binds.1 hg hgc hd.flag
    have hmoves : Moves cfg (fun _ => True) n (n.mergeAbort ρ) :=
      Moves.mergeAbort ⟨trivial, trivial, fun _ => trivial⟩
    have hx : x < (n.mergeAbort ρ).exports.next :=
      lt_of_lt_of_le (hwf.made ρ corr x hd.binds.1).2 hmoves.exports_next
    generalize n.mergeAbort ρ = k at habort hx ⊢
    refine .inr (Moves.aborted_sweeps (?_ : Moves cfg (Input.sweeps ρ) k _) habort hx)
    refine List.foldlRecOn (motive := fun m => Moves cfg (Input.sweeps ρ) k m) _ _
      (List.foldlRecOn (motive := fun m => Moves cfg (Input.sweeps ρ) k m) _ _ .refl ?_) ?_
    · rintro m hm e -
      exact hm.trans (Moves.sweepExport ⟨nofun, nofun, nofun⟩ e.1 e.2
        fun _ => (Input.sweeps_mayAbort ρ ρ).mayEnd e.1)
    · rintro m hm e -
      exact hm.trans (Moves.sweepPull ⟨nofun, nofun, nofun⟩ e.1 e.2
        (fun _ => ⟨nofun, nofun, nofun⟩) fun _ _ => ⟨nofun, nofun, nofun⟩)
  · rw [if_neg htime]
    have hspare := hspare.resolve_left htime
    -- the exports: the deferral's own is bound, so only others are closed
    have hexports : ∀ m, m = (n.role ρ).openMerges.entries.foldl
          (fun m e => m.sweepExport cfg ρ e.1 e.2) n →
        (m.Wf ∧ m.Deferral t ρ corr x ∧ (m.exports.get x).manifest = (n.exports.get x).manifest)
          ∧ n.Still m ρ ∧ (m.role ρ).openPulls = (n.role ρ).openPulls := by
      rintro m rfl
      refine List.foldlRecOn (motive := fun m =>
        (m.Wf ∧ m.Deferral t ρ corr x ∧ (m.exports.get x).manifest = (n.exports.get x).manifest)
          ∧ n.Still m ρ ∧ (m.role ρ).openPulls = (n.role ρ).openPulls) _ _
        ⟨⟨hwf, hd, rfl⟩, .refl n ρ, rfl⟩ ?_
      rintro m ⟨⟨hmwf, hmd, hmm⟩, hstill, hpulls⟩ e he
      have hother (hoff : (m.exports.get e.2).state = .offered) : e.1 ≠ corr := by
        rintro rfl
        have heq : some e.2 = some x := (get_of_mem he).symm.trans hd.binds.1
        cases heq
        rw [hmd.binds.2] at hoff
        cases hoff
      have hmoves : Moves cfg (fun i => i = .yield ∨ i = .round ∨ ∃ c, c ≠ corr ∧ i = .close ρ c) m
          (m.sweepExport cfg ρ e.1 e.2) :=
        Moves.sweepExport (.inl rfl) e.1 e.2
          fun hoff => ⟨.inr (.inl rfl), .inr (.inr ⟨e.1, hother hoff, rfl⟩)⟩
      obtain ⟨hwf', hd', hm'⟩ := Moves.deferral_kept hmoves hmwf hmd
        (by rintro (h | h | ⟨c, -, h⟩) <;> cases h)
        (by
          rintro (h | h | ⟨c, hc, h⟩)
          · cases h
          · cases h
          · cases h
            exact hc rfl)
        (by rintro (h | h | ⟨c, -, h⟩) <;> cases h)
      obtain ⟨g', hg', -⟩ := hmd.gated
      have hsome : (m.role ρ).merge.gate.isSome := by rw [hg']; rfl
      obtain ⟨hs, hp⟩ : m.Still (m.sweepExport cfg ρ e.1 e.2) ρ ∧ _ := sweepExport_still hsome
      exact ⟨⟨hwf', hd', hm'.trans hmm⟩, hstill.trans hs, hp.trans hpulls⟩
    obtain ⟨hkept, hstill, hpulls⟩ := hexports _ rfl
    generalize (n.role ρ).openMerges.entries.foldl (fun m e => m.sweepExport cfg ρ e.1 e.2) n = k
      at hkept hstill hpulls ⊢
    -- the pulls: one that is due is spared the pins
    refine .inl (List.foldlRecOn (motive := fun m =>
      (m.Wf ∧ m.Deferral t ρ corr x ∧ (m.exports.get x).manifest = (n.exports.get x).manifest)
        ∧ n.Still m ρ) (k.role ρ).openPulls.entries _ ⟨hkept, hstill⟩ ?_).1.2.1
    rintro m ⟨⟨hmwf, hmd, hmm⟩, hmstill⟩ e he
    have hdue (h : (m.pulls.get e.2).Due m.now) :
        (n.exports.get x).manifest.ids = ∅ ∧ ¬(n.role ρ).StagedOnly e.1 := by
      refine hspare e.1 e.2 ?_ ?_
      · rw [← hpulls]
        exact get_of_mem he
      · rw [hmstill.pulls, Node.now, hmstill.world] at h
        exact h
    have hmoves : Moves cfg (fun i => i = .forget ∨ (i = .unpin ρ ∧ (n.exports.get x).manifest.ids
      = ∅)) m (m.sweepPull ρ e.1 e.2) :=
      Moves.sweepPull (.inl rfl) e.1 e.2 (fun h => .inr ⟨rfl, (hdue h).1⟩)
        fun h hs => absurd (hmstill.stagedOnly hs) (hdue h).2
    obtain ⟨hwf', hd', hm'⟩ := Moves.deferral_kept hmoves hmwf hmd
      (by rintro (h | ⟨h, -⟩) <;> cases h)
      (by rintro (h | ⟨h, -⟩) <;> cases h)
      (by
        rintro (h | ⟨-, h⟩)
        · cases h
        · rw [hmm]
          exact h)
    exact ⟨⟨hwf', hd', hm'.trans hmm⟩, hmstill.trans sweepPull_still⟩

/-- The sweep of another role leaves a deferral alone. -/
theorem sweepRole_other (hwf : n.Wf) (hd : n.Deferral t ρ corr x) (hne : ρ' ≠ ρ)
    (hmade : ρ' < n.roles.next) (htopic : (n.role ρ').topicId ≠ t) :
    (n.sweepRole cfg ρ').Wf ∧ (n.sweepRole cfg ρ').Deferral t ρ corr x
      ∧ ((n.sweepRole cfg ρ').exports.get x).manifest = (n.exports.get x).manifest := by
  let Q : Input → Prop := fun i => i ≠ .retire t ∧ i ≠ .close ρ corr ∧ i ≠ .unpin ρ
  have habort : MayAbort Q ρ' := by
    refine ⟨⟨nofun, nofun, nofun⟩, ⟨nofun, nofun, ?_⟩, fun c => ⟨nofun, ?_, nofun⟩⟩
    · rintro ⟨⟩
      exact hne rfl
    · rintro ⟨⟩
      exact hne rfl
  have hmoves : Moves cfg Q n (n.sweepRole cfg ρ') := by
    refine Moves.sweepRole ⟨nofun, nofun, nofun⟩ ⟨nofun, nofun, nofun⟩ habort fun m hm _ => ?_
    have hrun := moves_preserve
      (I := fun m : Node => ρ' < m.roles.next ∧ (m.role ρ').topicId = (n.role ρ').topicId)
      (fun _ _ h hm => ⟨lt_of_lt_of_le hm.1 h.roles_next, (h.topicId hm.1).trans hm.2⟩)
      hm ⟨hmade, rfl⟩
    rw [hrun.2]
    exact ⟨fun h => htopic (Input.retire.inj h), nofun, nofun⟩
  exact Moves.deferral_kept hmoves hwf hd (fun h => h.1 rfl) (fun h => h.2.1 rfl)
    fun h => absurd rfl h.2.2

/-- The roles that the sweep visits, told apart from the one of a deferral by their topics. -/
theorem entries_split (hwf : n.Wf) (hat : n.roleAt t = some ρ) :
    ∃ pre post, n.axonRoles.entries = pre ++ (t, ρ) :: post
      ∧ ∀ e, e ∈ pre ∨ e ∈ post → e.2 ≠ ρ ∧ e.2 < n.roles.next ∧ (n.role e.2).topicId ≠ t := by
  obtain ⟨pre, post, hsplit⟩ := List.append_of_mem (mem_of_get hat)
  refine ⟨pre, post, hsplit, fun e he => ?_⟩
  have hmem : e ∈ n.axonRoles.entries := by
    rw [hsplit, List.mem_append, List.mem_cons]
    exact he.imp id .inr
  obtain ⟨hmade, htopic⟩ := hwf.registered e.1 e.2 (get_of_mem hmem)
  have hkey : e.1 ≠ t := by
    have hnodup := n.axonRoles.keys_nodup
    rw [hsplit, List.map_append, List.map_cons] at hnodup
    obtain ⟨-, hpost, hapart⟩ := List.nodup_append.mp hnodup
    rcases he with he | he
    · exact hapart e.1 (List.mem_map_of_mem he) t List.mem_cons_self
    intro h
    have hkey : e.1 ∈ post.map Prod.fst := List.mem_map_of_mem he
    rw [h] at hkey
    exact (List.nodup_cons.mp hpost).1 hkey
  refine ⟨?_, hmade, by rw [htopic]; exact hkey⟩
  rintro rfl
  exact hkey (htopic.symm.trans (hwf.registered t e.2 hat).2)

/-- **The sweep** aborts a deferral that is over time, and leaves any other alone as long as no pull
of its role is due. -/
theorem mergeSweep_outcome (hwf : n.Wf) (hd : n.Deferral t ρ corr x) (hspare : SweepSpares n ρ x) :
    (n.mergeSweep cfg).Deferral t ρ corr x ∨ n.Aborted (n.mergeSweep cfg) ρ corr x := by
  obtain ⟨pre, post, hsplit, hothers⟩ := entries_split hwf hd.here
  unfold Node.mergeSweep
  rw [hsplit, List.foldl_append, List.foldl_cons]
  -- a role that was made keeps its topic
  have htopics {k m : Node} (h : Moves cfg (fun _ => True) k m)
      (hk : ∀ ρ', ρ' < n.roles.next → ρ' < k.roles.next ∧ (k.role ρ').topicId =
        (n.role ρ').topicId) :
      ∀ ρ', ρ' < n.roles.next → ρ' < m.roles.next ∧ (m.role ρ').topicId = (n.role ρ').topicId :=
    fun ρ' hρ' => moves_preserve
      (I := fun m : Node => ρ' < m.roles.next ∧ (m.role ρ').topicId = (n.role ρ').topicId)
      (fun _ _ h hm => ⟨lt_of_lt_of_le hm.1 h.roles_next, (h.topicId hm.1).trans hm.2⟩) h
        (hk ρ' hρ')
  have hany (k : Node) (ρ' : RoleRef) : Moves cfg (fun _ => True) k (k.sweepRole cfg ρ') :=
    Moves.sweepRole trivial trivial ⟨trivial, trivial, fun _ => trivial⟩ fun _ _ _ => trivial
  -- what stands before the role is visited
  have hpre : ∀ k, k = pre.foldl (fun m e => m.sweepRole cfg e.2) n →
      ((k.Wf ∧ k.Deferral t ρ corr x ∧ (k.exports.get x).manifest = (n.exports.get x).manifest)
        ∧ n.Untouched k ρ) ∧ ∀ ρ', ρ' < n.roles.next →
          ρ' < k.roles.next ∧ (k.role ρ').topicId = (n.role ρ').topicId := by
    rintro k rfl
    refine List.foldlRecOn (motive := fun k =>
      ((k.Wf ∧ k.Deferral t ρ corr x ∧ (k.exports.get x).manifest = (n.exports.get x).manifest)
        ∧ n.Untouched k ρ) ∧ ∀ ρ', ρ' < n.roles.next →
          ρ' < k.roles.next ∧ (k.role ρ').topicId = (n.role ρ').topicId) _ _
      ⟨⟨⟨hwf, hd, rfl⟩, .refl n ρ⟩, fun _ h => ⟨h, rfl⟩⟩ ?_
    rintro k ⟨⟨⟨hkwf, hkd, hkm⟩, hb⟩, hk⟩ e he
    obtain ⟨hne, hmade, htopic⟩ := hothers e (.inl he)
    obtain ⟨hmade', htopic'⟩ := hk e.2 hmade
    have htop : (k.role e.2).topicId ≠ t := by rwa [htopic']
    obtain ⟨hwf', hd', hm'⟩ : (k.sweepRole cfg e.2).Wf ∧ _ :=
      sweepRole_other hkwf hkd hne hmade' htop
    exact ⟨⟨⟨hwf', hd', hm'.trans hkm⟩,
      hb.trans (sweepRole_untouched hkwf hkd.here hne hmade' htop)⟩, htopics (hany k e.2) hk⟩
  obtain ⟨⟨⟨hkwf, hkd, hkm⟩, hb⟩, hk⟩ := hpre _ rfl
  generalize pre.foldl (fun m e => m.sweepRole cfg e.2) n = k at hkwf hkd hkm hb hk ⊢
  have hkspare : SweepSpares k ρ x := by
    unfold SweepSpares
    rw [hb.role, hb.pulls, Node.now, hb.world, hkm]
    exact hspare
  have hvisit : (k.sweepRole cfg ρ).Deferral t ρ corr x ∨ _ := sweepRole_outcome hkwf hkd hkspare
  have hmoved := hany k ρ
  have hmwf : (k.sweepRole cfg ρ).Wf := moves_preserve (fun _ _ h hm => hm.move h) hmoved hkwf
  have hmx : x < (k.sweepRole cfg ρ).exports.next :=
    lt_of_lt_of_le (hkwf.made ρ corr x hkd.binds.1).2 hmoved.exports_next
  have hmk := htopics hmoved hk
  generalize k.sweepRole cfg ρ = m at hvisit hmwf hmx hmk ⊢
  rcases hvisit with hmd | ⟨hclosed, hgate, hpins⟩
  · refine .inl (List.foldlRecOn (motive := fun m : Node => (m.Wf ∧ m.Deferral t ρ corr x)
      ∧ ∀ ρ', ρ' < n.roles.next → ρ' < m.roles.next ∧ (m.role ρ').topicId = (n.role ρ').topicId)
      post _ ⟨⟨hmwf, hmd⟩, hmk⟩ ?_).1.2
    rintro m ⟨⟨hmwf, hmd⟩, hmk⟩ e he
    obtain ⟨hne, hmade, htopic⟩ := hothers e (.inr he)
    obtain ⟨hmade', htopic'⟩ := hmk e.2 hmade
    obtain ⟨hwf', hd', -⟩ : (m.sweepRole cfg e.2).Wf ∧ _ :=
      sweepRole_other hmwf hmd hne hmade' (by rwa [htopic'])
    exact ⟨⟨hwf', hd'⟩, htopics (hany m e.2) hmk⟩
  · have habort : n.Aborted m ρ corr x := by
      refine ⟨hclosed, hgate, fun hfree => ?_⟩
      rw [← hkm]
      exact hpins (by rw [hb.role]; exact hfree)
    refine .inr (Moves.aborted_sweeps (?_ : Moves cfg (Input.sweeps ρ) m _) habort hmx)
    exact moves_foldl (fun m e _ => Moves.sweepRole ⟨nofun, nofun, nofun⟩ ⟨nofun, nofun, nofun⟩
      (Input.sweeps_mayAbort ρ e.2) fun _ _ _ => ⟨nofun, nofun, nofun⟩) m

/-! ### Every act -/

/-- Does the act spare a deferral? A refusal of its exchange does not, nor does a tick on another
round, a close, a SUB or the sweep that would take what it has pinned, nor an act that retires its
role. -/
def Spares (cfg : Config) (n : Node) (t : TopicId) (ρ : RoleRef) (corr : Corr) (x : ExportRef) :
    Act → Prop
  | .replayAck a _ => a.topicId = t → a.corr = corr → ¬Refuses cfg (n.exports.get x) a
  | .step5Tick t' c _ => t' = t → c ≠ corr → ∀ y, (n.role ρ).openMerges.get c = some y →
      (n.exports.get y).deferred.isSome → (n.exports.get y).deferPinned = true →
      (n.role ρ).merge.completing = none →
      Disjoint (n.exports.get x).manifest.ids (n.exports.get y).manifest.ids
  | .mergeClosed c => n.Closes ρ c → c.corr ≠ corr ∧ (n.exports.get x).manifest.ids = ∅
  | .sub f => ∀ b, f.merge = some b → n.completes cfg ρ f.subscriber f.arrival.via b →
      (n.exports.get x).manifest.ids = ∅
  | .mergeSweep => SweepSpares n ρ x
  | a => ¬Retires cfg n a t

/-- **What may become of a deferral in one act**: it stands, it is flipped, or it is aborted. -/
theorem perform_outcome (hwf : n.Wf) (hs : n.CutSound) (hd : n.Deferral t ρ corr x) {a : Act}
    (hspare : Spares cfg n t ρ corr x a) : Outcome n (n.perform cfg a) t ρ corr x := by
  -- the acts that may end no round of the role
  have hkeep (hab : ¬Aborts n a ρ) (hret : ¬Retires cfg n a t)
      (hsub : ∀ f b, a = .sub f → f.merge = some b →
        n.completes cfg ρ f.subscriber f.arrival.via b → (n.exports.get x).manifest.ids = ∅) :
      Outcome n (n.perform cfg a) t ρ corr x := .inl (perform_deferral hwf hd hab hret hsub)
  have htopic {t' : TopicId} (h : n.roleAt t' = some ρ) : t' = t :=
    (hwf.registered t' ρ h).2.symm.trans (hwf.registered t ρ hd.here).2
  cases a with
  | replayAck a second =>
    by_cases hat : n.roleAt a.topicId = some ρ
    · by_cases hcorr : a.corr = corr
      · exact onReplayAck_outcome hd hat hcorr (hspare (htopic hat) hcorr)
      · exact .inl (onReplayAck_other hwf hs hd hat hcorr)
    · exact hkeep hat (by rintro ⟨⟩) (by rintro _ _ ⟨⟩)
  | step5Tick t' c second =>
    by_cases hat : n.roleAt t' = some ρ
    · obtain rfl := htopic hat
      by_cases hcorr : c = corr
      · subst hcorr
        exact step5Tick_outcome hd
      · exact .inl (step5Tick_other hd hcorr hwf (hspare rfl hcorr))
    · exact hkeep hat (by rintro ⟨⟩) (by rintro _ _ ⟨⟩)
  | winnerReminted t' root c e =>
    by_cases hat : n.roleAt t' = some ρ
    · exact winnerReminted_outcome hwf hd hat
    · exact hkeep hat (by rintro ⟨⟩) (by rintro _ _ ⟨⟩)
  | winnerSilent t' c =>
    by_cases hat : n.roleAt t' = some ρ
    · exact winnerVerdict_outcome .failed hd hd (.refl n ρ) hat
    · exact hkeep hat (by rintro ⟨⟩) (by rintro _ _ ⟨⟩)
  | resume k r =>
    by_cases hat : ∃ t' c, n.parked.get k = some (.forwardWinner t' c) ∧ n.roleAt t' = some ρ
    · obtain ⟨t', c, hp, hat⟩ := hat
      have hfree : Node.Deferral { n with parked := n.parked.delete k } t ρ corr x :=
        hd.of_kept rfl rfl rfl rfl hd.pins
      have hround : n.SameRound { n with parked := n.parked.delete k } ρ :=
        ⟨rfl, rfl, rfl, rfl, fun _ => rfl, fun _ => rfl⟩
      change Outcome n (n.resume cfg k r) t ρ corr x
      unfold Node.resume
      rw [hp]
      -- resumed with what it does not wait for, the handler does nothing
      cases r with
      | verdict v => exact winnerVerdict_outcome v hd hfree hround hat
      | checked | reached b => exact .inl hfree
    · exact hkeep hat (by rintro ⟨⟩) (by rintro _ _ ⟨⟩)
  | mergeClosed c =>
    by_cases hat : n.roleAt c.topicId = some ρ
    · exact .inl (onMergeClosed_deferral cfg hwf hd hat hspare)
    · exact hkeep (fun h => hat h.1) (by rintro ⟨⟩) (by rintro _ _ ⟨⟩)
  | mergeSweep => exact (mergeSweep_outcome hwf hd hspare).imp id .inr
  | sub f =>
    refine hkeep id (by rintro ⟨⟩) ?_
    rintro f' b ⟨⟩ hb
    exact hspare b hb
  | pub | kill | deliver | replayUp | handoff | replicate | adopt | metricsOn | beacon | verify
    | peerDied | expireBeacons | evict | mergeOffer | mergePull | mergeFrame | expire | reap
    | retireIdleBackup | claimFallback | readRepair | pruneHighWater | standbyLease | terminate
    | terminated | stepDown | rehome | subscribe | unsubscribe | resetTopic | reset =>
    exact hkeep id hspare (by rintro _ _ ⟨⟩)

/-- A record that is still marked was neither flipped nor closed. -/
theorem Outcome.deferral (h : Outcome n n' t ρ corr x) (hm : n'.Marked t ρ corr x) :
    n'.Deferral t ρ corr x := by
  rcases h with h | h | h
  · exact h
  · have hbound := hm.binds.2
    rw [h.completed] at hbound
    cases hbound
  · exact absurd hm.binds.1 h.closed

/-- A refusal closes the record of its exchange. -/
theorem onRefusal_closed (m : Export) (a : ReplayAck) :
    ((n.onRefusal cfg ρ m a).role ρ).openMerges.get a.corr = none := by
  have hfinish (k : Node) (hk : (k.role ρ).openMerges.get a.corr = none) :
      ((if (cfg.cutover && (k.rootBeacons.get a.topicId).any fun b => b.root = m.winner)
        then { k with rootBeacons := k.rootBeacons.delete a.topicId } else k).role ρ).openMerges.get
          a.corr = none := by
    split
    · exact hk
    · exact hk
  have hdrop (r : Role) : (r.dropCandidate m.winner).openMerges = r.openMerges := by
    unfold Role.dropCandidate
    split <;> rfl
  have hgate (r : Role) (b : Bool) : (if b = true then r.gateClear else r).openMerges
      = r.openMerges := by
    cases b <;> rfl
  have hdelete : ((n.role ρ).closeCorr a.corr).openMerges.get a.corr = none :=
    (get_delete _ _ _).trans (if_pos rfl)
  refine hfinish _ ?_
  rw [Node.role_modifyRole_self]
  split
  · rw [hdrop, hgate]
    exact hdelete
  · rw [hgate]
    exact hdelete

/-- **A record that an answer marks is a deferral as it should be.** -/
theorem onReplayAck_marked (hwf : n.Wf) (hs : n.CutSound) (hk : n.DefersSound)
    (hat : n.roleAt a.topicId = some ρ) (hm : (n.onReplayAck cfg a second).Marked t ρ a.corr x) :
    (n.onReplayAck cfg a second).Deferral t ρ a.corr x := by
  cases hopen : (n.role ρ).openMerges.get a.corr with
  | none =>
    rw [onReplayAck_closed hat hopen] at hm ⊢
    exact hk _ _ _ _ hm
  | some y =>
    let Q : Input → Prop := fun i => i ≠ .defer ρ a.corr
    have habort : MayAbort Q ρ := ⟨nofun, nofun, fun _ => nofun⟩
    have hcase : AckCase cfg n a second ρ y _ := onReplayAck_case hat hopen
    generalize n.onReplayAck cfg a second = m at hcase hm ⊢
    cases hcase with
    | ignored => exact hk _ _ _ _ hm
    | refused h =>
      have hgone := hm.binds.1
      rw [onRefusal_closed] at hgone
      cases hgone
    | aborted hb =>
      have hmoves : Moves cfg Q n (n.mergeAbort ρ) := Moves.mergeAbort habort
      obtain ⟨g, hg, hgc, -⟩ := hs ρ a.corr y ⟨hopen, hb⟩
      have hb' := Moves.marked_before hmoves hwf (fun h => h rfl) hm
      have hflag := (hk _ _ _ _ hb').flag
      exact absurd hm.binds.1 (mergeAbort_aborted (.refl n ρ) hb'.binds.1 hg hgc hflag).closed
    | deferred hb e he =>
      obtain ⟨g, hg, hgc, -⟩ := hs ρ a.corr y ⟨hopen, hb⟩
      have hkept : ((n.note e).deferStep5 ρ y a).roleAt t = n.roleAt t
          ∧ (((n.note e).deferStep5 ρ y a).role ρ).openMerges = (n.role ρ).openMerges := by
        unfold Node.deferStep5
        split
        · exact ⟨rfl, rfl⟩
        have hrole := Node.role_modifyRole_self (n.note e) ρ fun r => r.pin
          (n.exports.get y).manifest
        exact ⟨rfl, (congrArg Role.openMerges hrole :)⟩
      have hxy : some x = some y := by
        rw [← hopen, ← hkept.2]
        exact hm.binds.1.symm
      cases hxy
      have hhere : n.roleAt t = some ρ := hkept.1.symm.trans hm.here
      exact deferStep5_deferral (n := n.note e) hhere ⟨hopen, hb⟩ hg hgc
        fun hflag => (hk t ρ a.corr x ⟨hhere, ⟨hopen, hb⟩, .inr hflag⟩).pins
    | step5 hb e he hacked hsecond =>
      have hmoves : Moves cfg Q (n.note e) ((n.note e).mergeStep5 cfg a.topicId ρ a.corr y) :=
        Moves.mergeStep5 nofun ⟨habort, nofun, nofun⟩ hat hopen hb hacked
      have hwf' : (n.note e).Wf :=
        ⟨hwf.registered, hwf.made, hwf.single, hwf.offered, fun ρ c y ho hb hd => ?_⟩
      · have hb' : n.Marked t ρ a.corr x := by
          obtain ⟨h1, h2, h3⟩ := Moves.marked_before hmoves hwf' (fun h => h rfl) hm
          exact ⟨h1, h2, h3⟩
        have hxy : some x = some y := hb'.binds.1.symm.trans hopen
        cases hxy
        exact (step5_outcome (k := n.note e) [e] (hk _ _ _ _ hb') hat
          ⟨rfl, rfl, rfl, rfl, fun _ => rfl, fun _ => rfl⟩ rfl rfl rfl).deferral hm
      · obtain ⟨m, a, w, hmem, hcore⟩ := hwf.deferred ρ c y ho hb hd
        exact ⟨m, a, w, List.mem_cons_of_mem _ hmem, hcore⟩

end Axona
