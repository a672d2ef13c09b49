import Axona.Moves.TopicStore

/-! # The merge machine, in moves

The exchange functions of both ends. Step 5 is the one that needs evidence: the flip of a claim
under custody asks for the acknowledgement in the journal. -/

namespace Axona

open Library

variable {cfg : Config} {P : Input → Prop} {n n' : Node}

namespace Role

/-! ### What ends a round -/

theorem closeCorr_endsRound (r : Role) (corr : Corr) : r.EndsRound (r.closeCorr corr) corr :=
  ⟨rfl, rfl, .inl rfl⟩

theorem dropCandidate_core (r : Role) (winner : NodeId) :
    (r.dropCandidate winner).core = r.core := by
  unfold dropCandidate
  split_ifs <;> rfl

/-- A quiet change may follow the end of a round. -/
theorem EndsRound.quiet {r r' r'' : Role} {corr : Corr} (h : r.EndsRound r' corr)
    (hq : r''.core = r'.core) : r.EndsRound r'' corr := by
  obtain ⟨hrest, hclosed, hgate⟩ := h
  have hopen : r''.openMerges = r'.openMerges := congrArg RoleCore.openMerges hq
  have hg : r''.merge.gate = r'.merge.gate := congrArg RoleCore.gate hq
  exact ⟨by rw [hq, hrest], by rw [hopen, hclosed], by rwa [hg]⟩

end Role

namespace Moves

variable {ρ : RoleRef}

theorem closeCorr (corr : Corr) (hP : MayEnd P ρ corr ∨ (n.role ρ).merge.gate = none) :
    Moves cfg P n (n.modifyRole ρ fun r => r.closeCorr corr) :=
  endRound hP (.inl rfl) (Role.closeCorr_endsRound _ corr)

theorem dropCandidate (winner : NodeId) :
    Moves cfg P n (n.modifyRole ρ fun r => r.dropCandidate winner) :=
  quiet (Role.dropCandidate_core _ winner)

variable {x : ExportRef}

/-- A change of an export record that the bind did not fix. -/
theorem exportQuiet {f : Export → Export}
    (h : (f (n.exports.get x)).core = (n.exports.get x).core)
    (hd : (f (n.exports.get x)).deferred = none
      ∨ (f (n.exports.get x)).deferred = (n.exports.get x).deferred)
    (hs : (f (n.exports.get x)).mark = (n.exports.get x).mark ∨ n.MayClose P x
        ∧ ((f (n.exports.get x)).deferPinned = true → (n.exports.get x).deferPinned = true)) :
    Moves cfg P n (n.modifyExport x f) :=
  one (Move.annotate h hd hs)

/-- A change of an export record that neither the bind nor a deferral fixed. -/
theorem exportAside {f : Export → Export}
    (h : (f (n.exports.get x)).core = (n.exports.get x).core)
    (hd : (f (n.exports.get x)).mark = (n.exports.get x).mark) :
    Moves cfg P n (n.modifyExport x f) := exportQuiet h (.inr (congrArg Prod.fst hd)) (.inl hd)

/-- A change of a pull record that owes what it owed. -/
theorem pullQuiet {y : PullRef} {f : Pull → Pull}
    (h : (f (n.pulls.get y)).manifest = (n.pulls.get y).manifest)
    (hb : (f (n.pulls.get y)).baseline = (n.pulls.get y).baseline) (hP : P .tally) :
    Moves cfg P n (n.modifyPull y f) :=
  one (Move.pull h hb hP)

theorem pin (hP : P (.pin ρ)) (m : Manifest) : Moves cfg P n (n.modifyRole ρ fun r => r.pin m) :=
  role (.pin (m.bodies ++ m.dels).toFinset rfl (.inl hP)) rfl

/-! ### The loser -/

theorem mergeUnpinDeferred (hu : P (.unpin ρ)) (hx : n.MayClose P x) :
    Moves cfg P n (n.mergeUnpinDeferred ρ x) := by
  unfold Node.mergeUnpinDeferred
  split_ifs
  · have hunpin : Moves cfg P n (n.modifyRole ρ fun r => r.unpin (n.exports.get x).manifest) :=
      role (.unpin (n.exports.get x).manifest hu) rfl
    refine andThen hunpin (@Move.annotate cfg P _ x
      { n.exports.get x with deferPinned := false } rfl (.inr rfl) (.inr ⟨?_, nofun⟩))
    obtain ⟨ρ', corr, hopen, hclose⟩ := hx
    refine ⟨ρ', corr, ?_, hclose⟩
    rw [Node.role_modifyRole]
    split
    next h =>
      rw [← h]
      exact hopen
    next => exact hopen
  · exact .refl

/-- Unpinning leaves the gate of the role alone. -/
theorem gate_mergeUnpinDeferred (n : Node) (ρ : RoleRef) (x : ExportRef) :
    ((n.mergeUnpinDeferred ρ x).role ρ).merge.gate = (n.role ρ).merge.gate := by
  unfold Node.mergeUnpinDeferred
  split_ifs
  · have hrole := Node.role_modifyRole_self n ρ fun r => r.unpin (n.exports.get x).manifest
    exact (congrArg (fun r : Role => r.merge.gate) hrole :)
  · rfl

theorem mergeAbort (hP : MayAbort P ρ) : Moves cfg P n (n.mergeAbort ρ) := by
  unfold Node.mergeAbort
  cases hg : (n.role ρ).merge.gate with
  | none => exact .refl
  | some g =>
    -- unpinning leaves the gate where it is, and the end of the round is the gate's own
    have hend (m : Node) (hm : (m.role ρ).merge.gate = some g) :
        Moves cfg P m (m.modifyRole ρ fun r =>
          { r.closeCorr g.corr with
            merge := { (r.closeCorr g.corr).merge with candidate := none, gate := none } }) := by
      refine endRound (.inl (hP.mayEnd g.corr)) (.inl rfl)
        ⟨rfl, (rfl : _ = (m.role ρ).openMerges.delete g.corr), .inr ⟨rfl, ?_⟩⟩
      rintro g' hg'
      rw [hm] at hg'
      cases hg'
      rfl
    simp only []
    cases hx : (n.role ρ).openMerges.get g.corr with
    | none => exact hend n hg
    | some x =>
      exact (mergeUnpinDeferred hP.unpin ⟨ρ, g.corr, hx, hP.close _⟩).trans
        (hend _ ((gate_mergeUnpinDeferred n ρ x).trans hg))

theorem mergeOffer {t : TopicId} (hρ : n.roleAt t = some ρ) :
    Moves cfg P n (n.mergeOffer cfg t ρ) := by
  unfold Node.mergeOffer
  simp only []
  cases (n.role ρ).merge.candidate with
  | none => exact .refl
  | some c =>
    by_cases hidle : (!cfg.mergeCapable || !(n.role ρ).isRoot || (n.role ρ).merge.gate.isSome
        || (n.role ρ).merge.completing.isSome) = true
    · simp only [hidle, if_true]
      exact .refl
    · have hgate : (n.role ρ).merge.gate = none := by simp_all
      -- closing the superseded offers leaves the gate alone
      have hclose (es : List (Corr × ExportRef)) :
          (es.foldl (fun r e => r.closeCorr e.1) (n.role ρ)).merge.gate = none := by
        suffices h : ∀ r : Role, r.merge.gate = none →
            (es.foldl (fun r e => r.closeCorr e.1) r).merge.gate = none from h _ hgate
        induction es with
        | nil => exact fun r hr => hr
        | cons e es ih => exact fun r hr => ih _ hr
      have hover (es : List (Corr × ExportRef)) :
          Moves cfg P n (n.modifyRole ρ fun r => es.foldl (fun r e => r.closeCorr e.1) r) :=
        modifyRole_foldl (f := fun r e => r.closeCorr e.1) (I := fun r => r.merge.gate = none)
          (fun _ _ hr => hr) (fun _ e hm => closeCorr e.1 (.inr hm)) n hgate es
      simp only []
      rw [if_neg hidle]
      split_ifs
      · exact hover _
      · refine andPark (andSend (andThen (hover _) (.offer (t := t) ?_ n.world.nonce ?_ ?_
          (.inl ?_))) _) trivial
        · exact hρ
        · rfl
        · rfl
        · rw [Node.role_modifyRole_self]
          exact hclose _

theorem mergeCandidate (hP : P .yield) (t : TopicId) (winner : NodeId) (e : Option Int) :
    Moves cfg P n (n.mergeCandidate cfg t winner e) := by
  unfold Node.mergeCandidate
  cases hρ : n.roleAt t with
  | none => exact .refl
  | some ρ =>
    simp only []
    split_ifs
    · exact demote hP (by rintro corr rec ⟨⟩) (.inl rfl) t winner false
    · exact .refl
    · exact .refl
    · exact .refl
    · exact (quietMerge rfl rfl).trans (mergeOffer hρ)

/-! ### The winner -/

theorem mergePull (t : TopicId) (corr : Corr) (c : Option Cursor) :
    Moves cfg P n (n.mergePull t ρ corr c) := by
  unfold Node.mergePull
  split
  · exact .refl
  · exact send _

theorem openPull {p : Pull} (t : TopicId) (corr : Corr) (hp : p.owed = ∅) (hP : P (.pull ρ)) :
    Moves cfg P n (n.openPull t ρ corr p) :=
  (one (Move.openPull ρ corr hp hP)).trans (mergePull t corr none)

theorem refuse (o : MergeOffer) (e : Int) (d : Disposition) : Moves cfg P n (n.refuse cfg o e d) :=
  send _

theorem stageOffer (o : MergeOffer) (ρ : Option RoleRef) (hρ : n.roleAt o.topicId = ρ)
    (hP : ∀ ρ', ρ = some ρ' ∨ ρ' = n.roles.next → P (.pull ρ')) :
    Moves cfg P n (n.stageOffer cfg o ρ).2 := by
  have hopen (m : Node) (ρ : RoleRef) (s : Staging) (p : Pull) (hp : p.owed = ∅)
      (hP : P (.pull ρ)) : Moves cfg P m ((m.modifyRole ρ fun r => { r with staging := some s }).openPull
        o.topicId ρ o.corr p) := (quiet rfl).trans (openPull _ _ hp hP)
  unfold Node.stageOffer
  cases o.timing with
  | none =>
    simp only []
    split_ifs <;> first | exact .refl | exact refuse o _ _
  | some timing =>
    simp only []
    split_ifs
    case neg =>
      cases ρ with
      | some ρ => exact hopen n ρ _ _ rfl (hP ρ (.inl rfl))
      | none =>
        exact (one (.register o.topicId false hρ)).trans (hopen _ _ _ _ rfl (hP _ (.inr rfl)))
    all_goals first | exact .refl | exact refuse o _ _

theorem onMergeOffer (hP : P .yield) (o : MergeOffer)
    (hpull : ∀ ρ, n.roleAt o.topicId = some ρ ∨ ρ = n.roles.next → P (.pull ρ)) :
    Moves cfg P n (n.onMergeOffer cfg o) := by
  unfold Node.onMergeOffer
  simp only []
  split
  · exact .refl
  split
  · by_cases hc : cfg.cutover = true
    · have hs : Moves cfg P n (n.stageOffer cfg o (n.roleAt o.topicId)).2 :=
        stageOffer _ _ rfl hpull
      simp only [hc, if_true]
      split
      · exact hs
      · exact hs.trans (refuse o _ _)
    · rw [if_neg hc]
      exact refuse o _ _
  · split
    · exact (refuse o _ _).trans (mergeCandidate hP _ _ _)
    split
    · exact refuse o _ _
    split_ifs
    · exact refuse o _ _
    · exact .refl
    next hat _ _ _ _ _ _ =>
    exact openPull _ _ rfl (hpull _ (.inl (Option.filter_eq_some_iff.mp hat).1))

theorem stageEnd (corr : Corr) (hP : P .forget)
    (hr : (n.role ρ).StagedOnly corr → P (.retire (n.role ρ).topicId)) :
    Moves cfg P n (n.stageEnd ρ corr) := by
  unfold Node.stageEnd
  split
  · exact .refl
  next st hst =>
  split
  · exact .refl
  next hcorr =>
  simp only []
  split
  · next honly =>
    refine andThen (quiet rfl) (.unregister _ hP ?_)
    simp only [Node.role_modifyRole_self, Bool.and_eq_true, Bool.not_eq_true'] at honly ⊢
    exact hr ⟨honly.2, st, hst, not_not.mp hcorr, honly.1⟩
  · exact quiet rfl

/-- A stager that is no root takes the root in one move; one that took it already mints again. -/
theorem stagePromote (hmint : (n.role ρ).isRoot = false → P .mint)
    (hat : (n.role ρ).isRoot = false → ∃ t, n.roleAt t = some ρ)
    (hremint : (n.role ρ).isRoot = true → (n.role ρ).staging.isSome → P (.remint ρ)) (p : Pull)
    (corr : Corr) : Moves cfg P n (n.stagePromote cfg ρ p corr) := by
  unfold Node.stagePromote
  split
  · exact .refl
  next st hst =>
  split
  · exact .refl
  set m := n.modifyRole ρ fun r => { r with staging := none } with hm
  have hquiet : Moves cfg P n m := quiet rfl
  have hmrole : m.role ρ = { n.role ρ with staging := none } := Node.role_modifyRole_self ..
  refine hquiet.trans (andUpstream ?_ _)
  by_cases hroot : (n.role ρ).isRoot = true
  · have hset : (m.setRoot cfg ρ true .other none).2 = m := by
      unfold Node.setRoot
      rw [hmrole]
      simp only [hroot, if_true]
    rw [hset]
    split
    · exact .refl
    · exact role (.reEpoch (hremint hroot (by rw [hst]; rfl)) _ (by rw [hmrole]; exact hroot)) rfl
  have hroot' : (m.role ρ).isRoot = false := by
    rw [hmrole]
    simpa using hroot
  have hset : (m.setRoot cfg ρ true .other none).2 = m.ascend ρ .other := by
    unfold Node.setRoot
    simp only [hroot', Bool.false_eq_true, if_false, if_true]
  have hmint : P .mint := hmint (by simpa using hroot)
  have hat : ∃ t, n.roleAt t = some ρ := hat (by simpa using hroot)
  rw [hset]
  split
  · exact ascend hmint hroot' .other hat
  next hraised =>
  -- the ascent and the raise of the epoch write the role once
  obtain ⟨k, r', hk, happ, hr, -, heq⟩ := ascend_spec m ρ .other
  have hkrole := role_of_core hk ρ
  have hkworld : k.world = m.world := congrArg NodeCore.world hk
  have hkroles : k.axonRoles = m.axonRoles := congrArg NodeCore.axonRoles hk
  have hkat : ∃ t, k.roleAt t = some ρ := by
    obtain ⟨t, hat⟩ := hat
    exact ⟨t, (congrArg (fun roles => OrderedMap.get roles t) hkroles).trans hat⟩
  have hr'e : r'.epoch = succDouble (m.knownEpoch (m.role ρ).topicId) :=
    congrArg RoleCore.epoch hr
  have hr't : r'.topicId = (m.role ρ).topicId := congrArg RoleCore.topicId hr
  have hself : (m.ascend ρ .other).role ρ = r' := by
    rw [heq]
    exact Node.role_modifyRole_self k ρ fun _ => r'
  rw [hself, hr't]
  set e := max (toInt32 r'.epoch) (succDouble (toInt32 p.loserEpoch)) with he
  have hstaged : RoleMove cfg P k ρ { r' with epoch := e } _ :=
    .ascendStaged hmint (by rw [hkrole]; exact hroot') .other e ?_ ?_ ?_ hkat
  · refine (side hk happ).trans (role hstaged ?_)
    rw [heq, hkrole, hkworld, knownEpoch_of_core hk]
    exact congrArg (fun l : Node => { l with journal :=
        [Event.minted (m.role ρ).topicId e, .transition ρ (m.role ρ) true .other m.world,
          .minted (m.role ρ).topicId (succDouble (m.knownEpoch (m.role ρ).topicId))]
        ++ k.journal })
      (Node.modifyRole_modifyRole k ρ (fun _ => r') fun r => { r with epoch := e })
  · rw [hkrole, knownEpoch_of_core hk, ← hr'e]
    exact le_max_left _ _
  · rw [hkrole, knownEpoch_of_core hk, ← hr'e]
    rwa [hself] at hraised
  · rw [hkrole]
    exact congrArg (fun c : RoleCore => { c with epoch := e }) hr

/-! ### Bind and frames -/

end Moves

/-- A role once it is cut. -/
def Role.cut (g : Gate) (r : Role) : Role :=
  { r with gen := toInt32 r.gen + 1, merge := { r.merge with gate := some g } }

namespace Node

theorem modifyRole_modifyExport (n : Node) (ρ : RoleRef) (f : Role → Role) (x : ExportRef)
    (g : Export → Export) :
    (n.modifyRole ρ f).modifyExport x g = (n.modifyExport x g).modifyRole ρ f := rfl

/-- The cut of a root that is not cut yet. -/
theorem mergeCut_some {t : TopicId} {ρ : RoleRef} (hρ : n.roleAt t = some ρ)
    (hroot : (n.role ρ).isRoot = true) (hgate : (n.role ρ).merge.gate = none) (winner : NodeId)
    (e : Int) (corr : Corr) : n.mergeCut t winner e corr
      = some (n.modifyRole ρ (Role.cut ⟨winner, toInt32 e, corr, n.now, false⟩)) := by
  unfold mergeCut
  rw [hρ]
  simp only [hroot, hgate]
  rfl

theorem mergeCut_none {t : TopicId} {ρ : RoleRef} (hρ : n.roleAt t = some ρ)
    (h : ¬((n.role ρ).isRoot = true ∧ (n.role ρ).merge.gate = none)) (winner : NodeId) (e : Int)
    (corr : Corr) : n.mergeCut t winner e corr = none := by
  unfold mergeCut
  rw [hρ]
  refine if_pos ?_
  rw [not_and, ← ne_eq, ← Option.isSome_iff_ne_none] at h
  by_cases hr : (n.role ρ).isRoot = true
  · rw [h hr, Bool.or_true]
  simp only [Bool.not_eq_true] at hr
  rw [hr]
  rfl

end Node

namespace Moves

variable {ρ : RoleRef} {corr : Corr}

/-- A cut whose export does not fit is taken back at once. -/
theorem cutRefused (g : Gate) (hgate : (n.role ρ).merge.gate = none) (hbind : P (.bind ρ)) :
    Moves cfg P n ((n.modifyRole ρ (Role.cut g)).modifyRole ρ fun r =>
      { (r.closeCorr corr).gateClear with
        merge := { (r.closeCorr corr).gateClear.merge with candidate := none } }) := by
  rw [Node.modifyRole_modifyRole]
  exact endRound (.inr hgate) (.inr hbind)
    ⟨rfl, (rfl : _ = (n.role ρ).openMerges.delete corr), .inl hgate.symm⟩

variable {x : ExportRef}

/-- The cut and the snapshot, in one. -/
theorem cutBound {g : Gate} (hP : P .round) (hg : g.corr = corr)
    (hroot : (n.role ρ).isRoot = true) (hgate : (n.role ρ).merge.gate = none)
    (hopen : (n.role ρ).openMerges.get corr = some x) (hoff : (n.exports.get x).state = .offered)
    (hbind : P (.bind ρ)) :
    Moves cfg P n ((n.modifyRole ρ (Role.cut g)).modifyExport x fun m => { m with
      snapshot := (n.role ρ).snapshot n.now
      manifest := ((n.role ρ).snapshot n.now).manifest
      state := .bound, tB := n.world.mono, tBWall := n.now, lastCursorSent := some .header }) :=
  one (.bind hP hroot hgate hopen hoff hg rfl rfl rfl rfl rfl hbind)

theorem mergeBind {q : MergePull} (hP : P .round) (hρ : n.roleAt q.topicId = some ρ)
    (hopen : (n.role ρ).openMerges.get q.corr = some x)
    (hoff : (n.exports.get x).state = .offered)
    (hbind : (n.role ρ).isRoot = true → P (.bind ρ)) :
    Moves cfg P n (n.mergeBind cfg q ρ x) := by
  set n₁ := n.modifyExport x fun m => { m with winnerEpoch := q.winnerEpoch.getD 0 } with hn₁
  have h₁ : Moves cfg P n n₁ := one (.rebid _ hoff)
  by_cases hcut : (n.role ρ).isRoot = true ∧ (n.role ρ).merge.gate = none
  · obtain ⟨hroot, hgate⟩ := hcut
    set n₂ := n₁.modifyExport x fun m => { m with ephemeral := q.ephemeral } with hn₂
    have h₂ : Moves cfg P n n₂ := h₁.trans (exportAside rfl rfl)
    have hoff₂ : (n₂.exports.get x).state = .offered := by
      rw [hn₂, hn₁, Node.export_modifyExport_self, Node.export_modifyExport_self]
      exact hoff
    set g₀ : Gate := ⟨q.requester, toInt32 (q.winnerEpoch.getD 0), q.corr, n₁.now, false⟩ with hg₀
    -- a staged round rewrites the gate: it is one change of the role either way
    obtain ⟨g, hg, hstaged⟩ : ∃ g : Gate, g.corr = q.corr ∧
        (if (cfg.cutover && q.staged) = true then
          (n₁.modifyRole ρ (Role.cut g₀)).modifyMerge ρ fun m =>
            { m with gate := m.gate.map fun g => { g with staged := true } }
        else n₁.modifyRole ρ (Role.cut g₀)) = n₁.modifyRole ρ (Role.cut g) := by
      split
      · exact ⟨{ g₀ with staged := true }, rfl, Node.modifyRole_modifyRole ..⟩
      · exact ⟨g₀, rfl, rfl⟩
    unfold Node.mergeBind
    simp only []
    rw [Node.mergeCut_some (n := n₁) hρ hroot hgate]
    simp only []
    rw [hstaged]
    simp only [Node.role_modifyRole_self]
    split
    · exact andSend (h₂.trans (cutRefused g hgate (hbind hroot))) _
    · exact andPark (h₂.trans (cutBound hP hg hroot hgate hopen hoff₂ (hbind hroot))) trivial
  · unfold Node.mergeBind
    simp only []
    rw [Node.mergeCut_none (n := n₁) hρ hcut]
    exact h₁

theorem boundDigest (ρ : RoleRef) (corr : Corr) (x : ExportRef) :
    Moves cfg P n (n.boundDigest cfg ρ corr x) :=
  andSend (exportAside rfl rfl) _

theorem mergeDataFrame (q : MergePull) (ρ : RoleRef) (x : ExportRef) :
    Moves cfg P n (n.mergeDataFrame q ρ x) := by
  unfold Node.mergeDataFrame
  simp only []
  split
  · exact .refl
  split
  · exact .refl
  · exact andSend (exportAside rfl rfl) _

theorem mergeAnswerOpen {q : MergePull} (hP : P .round) (hρ : n.roleAt q.topicId = some ρ)
    (hopen : (n.role ρ).openMerges.get q.corr = some x)
    (hclose : (n.exports.get x).state = .offered → P (.close ρ q.corr))
    (hbind : (n.role ρ).isRoot = true → P (.bind ρ)) :
    Moves cfg P n (n.mergeAnswerOpen cfg q ρ x) := by
  have hdrop (hs : (n.exports.get x).state = .offered) : Moves cfg P n (n.modifyRole ρ fun r =>
      (r.closeCorr q.corr).dropCandidate (n.exports.get x).winner) :=
    endRound (.inl ⟨hP, hclose hs⟩) (.inl (congrArg RoleCore.gen (Role.dropCandidate_core _ _)))
      ((Role.closeCorr_endsRound _ _).quiet (Role.dropCandidate_core _ _))
  unfold Node.mergeAnswerOpen
  simp only []
  split
  · next hs =>
    split
    · by_cases hc : cfg.cutover = true
      · simp only [hc, if_true]
        exact hdrop hs
      · simp only [hc]
        exact closeCorr q.corr (.inl ⟨hP, hclose hs⟩)
    split
    · exact .refl
    split
    · exact hdrop hs
    · exact mergeBind hP hρ hopen hs hbind
  · exact mergeDataFrame q ρ x
  · exact .refl

/-- A pull ends the round of an offer it does not take up, and binds the other offers. -/
theorem mergeAnswerPull (hP : P .round) (q : MergePull)
    (hclose : ∀ ρ, n.roleAt q.topicId = some ρ → (∀ x, (n.role ρ).openMerges.get q.corr = some x →
      (n.exports.get x).state = .offered) → P (.close ρ q.corr))
    (hbind : ∀ ρ, n.roleAt q.topicId = some ρ → (n.role ρ).isRoot = true → P (.bind ρ)) :
    Moves cfg P n (n.mergeAnswerPull cfg q) := by
  unfold Node.mergeAnswerPull
  cases hρ : n.roleAt q.topicId with
  | none => exact .refl
  | some ρ =>
    simp only []
    cases hopen : (n.role ρ).openMerges.get q.corr with
    | some x =>
      simp only []
      split
      · refine mergeAnswerOpen hP hρ hopen (fun hs => hclose ρ hρ ?_) (hbind ρ hρ)
        rintro y hy
        rw [hopen] at hy
        cases hy
        exact hs
      · exact .refl
    | none =>
      simp only []
      split
      · exact .refl
      split
      · exact .refl
      refine .trans (one (.offer hρ q.corr ?_ ?_ (.inr hopen))) (mergeAnswerOpen hP ?_ ?_
        (fun _ => hclose ρ hρ ?_) fun hroot => hbind ρ hρ ?_)
      · rfl
      · rfl
      · exact hρ
      · rw [Node.role_modifyRole_self]
        simp
      · rintro y hy
        rw [hopen] at hy
        cases hy
      · rw [Node.role_modifyRole_self] at hroot
        exact hroot

/-! ### Step 5 -/

/-- The flip of step 5, and what it leaves alone. -/
theorem flip (hP : P .yield) (hroot : (n.role ρ).isRoot = true)
    (hopen : (n.role ρ).openMerges.get corr = some x) (hbound : (n.exports.get x).state = .bound)
    (hlease : (n.exports.get x).leaseOk n.world) (hacked : n.Acked ρ corr x) (hflip : P .flip) :
    let m := n.descend ρ (.mergeStep5 corr (n.exports.get x))
    Moves cfg P n m ∧ m.exports = n.exports ∧ (m.role ρ).merge.gate = (n.role ρ).merge.gate
      ∧ (m.role ρ).openMerges = (n.role ρ).openMerges := by
  have hrole : (n.descend ρ (.mergeStep5 corr (n.exports.get x))).role ρ
      = { n.role ρ with isRoot := false } :=
    Node.role_modifyRole_self n ρ fun r => { r with isRoot := false }
  refine ⟨one (.flip hP hroot hopen hbound hlease hacked hflip), rfl, ?_, ?_⟩
  · rw [hrole]
  · rw [hrole]

/-- The token minted for step 5 lets a root under an acknowledged record give its claim up; the
record stands as it stood. -/
theorem demote_step5 {t : TopicId} {tok : Nat} {dest : NodeId} {b : Bool} (hP : P .yield)
    (hρ : n.roleAt t = some ρ) (hopen : (n.role ρ).openMerges.get corr = some x)
    (hbound : (n.exports.get x).state = .bound) (hlease : (n.exports.get x).leaseOk n.world)
    (hacked : n.Acked ρ corr x) (hflip : P .flip)
    (h : n.demote cfg t dest (.mergeStep5 corr (n.exports.get x)) (some tok) true = (b, n')) :
    Moves cfg P n n' ∧ n'.exports = n.exports ∧ (n'.role ρ).merge.gate = (n.role ρ).merge.gate
      ∧ (n'.role ρ).openMerges = (n.role ρ).openMerges := by
  unfold Node.demote at h
  rw [hρ] at h
  simp only [] at h
  split at h
  · cases h
    exact ⟨.refl, rfl, rfl, rfl⟩
  next hroot =>
  split at h
  · cases h
    exact ⟨.refl, rfl, rfl, rfl⟩
  have hroot : (n.role ρ).isRoot = true := by simpa using hroot
  have hset {b' : Bool} {m : Node}
      (hs : n.setRoot cfg ρ false (.mergeStep5 corr (n.exports.get x)) (some tok) = (b', m)) :
      Moves cfg P n m ∧ m.exports = n.exports ∧ (m.role ρ).merge.gate = (n.role ρ).merge.gate
        ∧ (m.role ρ).openMerges = (n.role ρ).openMerges := by
    unfold Node.setRoot at hs
    simp only [hroot, Bool.true_eq_false, Bool.false_eq_true, if_false] at hs
    split_ifs at hs
    · cases hs
      exact ⟨.refl, rfl, rfl, rfl⟩
    · cases hs
      have hrole : (n.modifyMerge ρ fun m => { m with releaseToken := none }).role ρ
          = { n.role ρ with merge := { (n.role ρ).merge with releaseToken := none } } :=
        Node.role_modifyRole_self ..
      obtain ⟨hm, hx, hg, ho⟩ := flip
        (n := n.modifyMerge ρ fun m => { m with releaseToken := none }) (ρ := ρ) (x := x) hP
        (by rw [hrole]; exact hroot) (by rw [hrole]; exact hopen) hbound hlease hacked hflip
      exact ⟨(quietMerge rfl rfl).trans hm, hx, hg.trans (by rw [hrole]), ho.trans (by rw [hrole])⟩
    · cases hs
      exact flip hP hroot hopen hbound hlease hacked hflip
  split at h
  · next heq =>
    cases h
    exact hset heq
  next heq =>
  obtain ⟨hm, hx, hg, ho⟩ := hset heq
  cases h
  exact ⟨hm.trans (side rfl (.same rfl rfl)), hx, hg, ho⟩

/-- Step 5 asks for an acknowledged record that is open and bound. -/
theorem mergeStep5 {t : TopicId} (hP : P .yield) (hs : MayStep5 P ρ) (hρ : n.roleAt t = some ρ)
    (hopen : (n.role ρ).openMerges.get corr = some x) (hbound : (n.exports.get x).state = .bound)
    (hacked : n.Acked ρ corr x) : Moves cfg P n (n.mergeStep5 cfg t ρ corr x) := by
  have hc := hs.toMayAbort
  unfold Node.mergeStep5
  simp only []
  split
  · exact mergeAbort hc
  next hlease =>
  have hlease : (n.exports.get x).leaseOk n.world = true := by simpa using hlease
  set m := (n.modifyRole ρ fun r => r.pin (n.exports.get x).manifest).modifyMerge ρ fun g =>
    { g with
      releaseToken := some n.world.nonce
      acceptedWinner := some ⟨(n.exports.get x).winner, toInt32 (n.exports.get x).winnerEpoch,
        n.now + cfg.stepDownHoldMs⟩ } with hm
  have hnm : Moves cfg P n m := (pin hs.pin _).trans (quietMerge rfl rfl)
  have hmo : (m.role ρ).openMerges = (n.role ρ).openMerges := by
    rw [hm, Node.modifyMerge, Node.role_modifyRole_self, Node.role_modifyRole_self]
    rfl
  have hmg : (m.role ρ).merge.gate = (n.role ρ).merge.gate := by
    rw [hm, Node.modifyMerge, Node.role_modifyRole_self, Node.role_modifyRole_self]
    rfl
  split
  · next heq =>
    have h := (demote_step5 (n := m) hP hρ (hmo ▸ hopen) hbound hlease hacked hs.flip heq).1
    exact (hnm.trans (h.trans (quietMerge rfl rfl))).trans (mergeAbort hc)
  next m' heq =>
  obtain ⟨hm', hx', hg', ho'⟩ :=
    demote_step5 (n := m) hP hρ (hmo ▸ hopen) hbound hlease hacked hs.flip heq
  have hfinish (k : Node) (c : Completing) (hk : Moves cfg P n k) :
      Moves cfg P n (if (n.exports.get x).timing.A < k.world.mono - (n.exports.get x).tB then k
        else (k.modifyMerge ρ fun g => { g with completing := some c }).send (.subscribe t
          ((k.modifyMerge ρ fun g => { g with completing := some c }).role ρ).merge.completing)) := by
    split
    · exact hk
    · exact andSend (hk.trans (quietMerge rfl rfl)) _
  refine hfinish _ _ ?_
  have hcomplete : Moves cfg P n (m'.modifyExport x fun m => { m with state := .completed }) := by
    refine (hnm.trans hm').trans (one (.complete x hc.round ⟨ρ, corr, ?_, hc.close corr⟩))
    rw [ho', hmo, hopen]
  split
  · next hgate =>
    -- the record is completed before its gate goes, so no bound record stands without a gate
    rw [Node.modifyRole_modifyExport]
    refine andThen hcomplete (.ungate ρ hc.round ?_)
    rintro g y hg hy
    have hmg' : (m'.role ρ).merge.gate.map (·.corr) = some corr := by
      rw [hg', hmg, ← hgate, Node.role_modifyRole_self]
      rfl
    have hcorr : g.corr = corr := by
      rw [show (m'.role ρ).merge.gate = some g from hg] at hmg'
      exact Option.some.inj hmg'
    have hxy : (m'.role ρ).openMerges.get corr = some y := hcorr ▸ hy
    rw [ho', hmo, hopen] at hxy
    cases hxy
    rw [Node.export_modifyExport_self]
    exact ExportState.noConfusion
  · exact hcomplete

/-! ### Acknowledgements -/

theorem onRefusal (m : Export) (a : ReplayAck) (hP : P .forget) (hc : MayEnd P ρ a.corr) :
    Moves cfg P n (n.onRefusal cfg ρ m a) := by
  have hend : Moves cfg P n (n.modifyRole ρ fun r =>
      let r := r.closeCorr a.corr
      let r := if r.merge.gate.any (fun g => g.corr = a.corr) then r.gateClear else r
      if Node.dropsCandidate cfg a.disposition then r.dropCandidate m.winner else r) := by
    -- the gate that goes is the gate of the exchange that is closed
    have hgate (r : Role) : r.EndsRound (if (r.closeCorr a.corr).merge.gate.any
        (fun g => g.corr = a.corr) then (r.closeCorr a.corr).gateClear else r.closeCorr a.corr)
        a.corr := by
      split
      · next h =>
        refine ⟨rfl, rfl, .inr ⟨rfl, ?_⟩⟩
        rintro g hg
        have hg' : (r.closeCorr a.corr).merge.gate = some g := hg
        rw [hg'] at h
        simpa using h
      · exact Role.closeCorr_endsRound r a.corr
    have hgen (r : Role) : (if (r.closeCorr a.corr).merge.gate.any
        (fun g => g.corr = a.corr) then (r.closeCorr a.corr).gateClear else r.closeCorr a.corr).gen
        = r.gen := by
      split
      · rfl
      · rfl
    refine endRound (.inl hc) (.inl ?_) (?_ : Role.EndsRound _ _ a.corr)
    · simp only []
      split
      · exact (congrArg RoleCore.gen (Role.dropCandidate_core _ _)).trans (hgen _)
      · exact hgen _
    split
    · exact (hgate _).quiet (Role.dropCandidate_core _ _)
    · exact hgate _
  have hfinish (k : Node) (hk : Moves cfg P n k) :
      Moves cfg P n (if (cfg.cutover && (k.rootBeacons.get a.topicId).any fun b => b.root
        = m.winner)
        then { k with rootBeacons := k.rootBeacons.delete a.topicId } else k) := by
    split
    · exact andThen hk (.dropBeacon _ hP)
    · exact hk
  exact hfinish _ hend

/-- A full acknowledgement is written down before it is acted on. -/
theorem onReplayAck (hy : P .yield) (hf : P .forget) (a : ReplayAck) (secondHolder : Bool)
    (hs : ∀ ρ, n.roleAt a.topicId = some ρ → MayStep5 P ρ ∧ P (.defer ρ a.corr)) :
    Moves cfg P n (n.onReplayAck cfg a secondHolder) := by
  unfold Node.onReplayAck
  cases hρ : n.roleAt a.topicId with
  | none => exact .refl
  | some ρ =>
    obtain ⟨hs, hdefer⟩ := hs ρ hρ
    have hc := hs.toMayAbort
    simp only []
    cases hopen : (n.role ρ).openMerges.get a.corr with
    | none => exact .refl
    | some x =>
      simp only []
      split
      · split
        · exact onRefusal _ a hf (hc.mayEnd a.corr)
        · exact .refl
      split
      · exact .refl
      next hmatch =>
      split
      · exact mergeAbort hc
      next hlease =>
      split
      · exact mergeAbort hc
      next hfull =>
      have hmatch : Node.ackMatches cfg (n.exports.get x) a = true
          ∧ (n.exports.get x).state = .bound := by simpa using hmatch
      obtain ⟨hmatch, hbound⟩ := hmatch
      set m := n.note (.acked ρ a.corr (n.exports.get x) a n.world) with hm
      have hnm : Moves cfg P n m :=
        one (.acked hopen hbound hmatch (by simpa using hfull) (by simpa using hlease) hρ rfl)
      have hacked : m.Acked ρ a.corr x := ⟨_, _, _, List.mem_cons_self, rfl⟩
      split
      · split
        · exact andThen hnm (.defer a hopen hbound hacked hdefer)
        have hpinned : Moves cfg P m (m.modifyRole ρ fun r => r.pin (n.exports.get x).manifest) :=
          pin hs.pin _
        refine andThen (hnm.trans hpinned) (.defer a ?_ hbound hacked hdefer)
        rw [Node.role_modifyRole_self]
        exact hopen
      · exact hnm.trans (mergeStep5 hy hs hρ hopen hbound hacked)

/-- A deferred step 5 finds its acknowledgement where it was written down. -/
theorem step5Tick (hP : P .yield) (t : TopicId) (corr : Corr) (secondHolder : Bool)
    (hs : ∀ ρ, n.roleAt t = some ρ → MayStep5 P ρ)
    (hdef : ∀ ρ x, (n.role ρ).openMerges.get corr = some x → (n.exports.get x).state = .bound →
      (n.exports.get x).deferred.isSome → n.Acked ρ corr x) :
    Moves cfg P n (n.step5Tick cfg t corr secondHolder) := by
  unfold Node.step5Tick
  split
  · exact .refl
  cases hρ : n.roleAt t with
  | none => exact .refl
  | some ρ =>
    have hs := hs ρ hρ
    have hc := hs.toMayAbort
    simp only []
    cases hopen : (n.role ρ).openMerges.get corr with
    | none => exact .refl
    | some x =>
      simp only []
      have hnone : Moves cfg P n (n.modifyExport x fun m => { m with deferred := none }) :=
        exportQuiet rfl (.inl rfl) (.inr ⟨⟨ρ, corr, hopen, hc.close corr⟩, id⟩)
      split
      · exact .refl
      next hdeferred =>
      split
      · split
        · exact hnone.trans (mergeAbort hc)
        · exact (hnone.trans (mergeUnpinDeferred hc.unpin ⟨ρ, corr, hopen, hc.close corr⟩)).trans
            (closeCorr corr (.inl (hc.mayEnd corr)))
      next hstands =>
      split
      · exact .refl
      have hbound : (n.exports.get x).state = .bound := by
        by_contra h
        simp [h] at hstands
      have hx : (n.modifyExport x fun m => { m with deferred := none }).exports.get x
          = { n.exports.get x with deferred := none } := Node.export_modifyExport_self ..
      obtain ⟨m, a, w, hmem, hcore⟩ := hdef ρ x hopen hbound (by
        cases hd : (n.exports.get x).deferred with
        | none => simp [hd] at hdeferred
        | some _ => rfl)
      exact hnone.trans (mergeStep5 hP hs hρ hopen (by rw [hx]; exact hbound)
        ⟨m, a, w, hmem, by rw [hx]; exact hcore⟩)

/-! ### The frames at the winner -/

theorem mergeFrameDone (hP : P .transfer) (ht : P .tally) (corr : Corr) (y : PullRef)
    (tally : Tally) (tail : FrameTail) : Moves cfg P n (n.mergeFrameDone ρ corr y tally tail) := by
  unfold Node.mergeFrameDone
  split
  · exact (pullQuiet rfl rfl ht).trans (mergePull ..)
  · exact andPark (pullQuiet rfl rfl ht) hP

theorem mergeAck (ht : P .tally) (ρ : RoleRef) (corr : Corr) (y : PullRef) (tail : FrameTail) :
    Moves cfg P n (n.mergeAck cfg ρ corr y tail) :=
  andSend (pullQuiet rfl rfl ht) _

theorem dropPull (corr : Corr) :
    Moves cfg P n (n.modifyRole ρ fun r => { r with openPulls := r.openPulls.delete corr }) :=
  role (.dropPull corr) rfl

theorem endPull (corr : Corr) (hP : P (.unpin ρ)) : Moves cfg P n (n.endPull ρ corr) :=
  role (.release corr hP) rfl

end Moves

/-- Is the export of the header too large to hold beside what the role holds? -/
def Role.Overflows (cfg : Config) (r : Role) (h : Header) : Prop :=
  (cfg.cacheMax : Int) < r.cache.length + toInt32 h.bodies + mergeWriteReserve.entries
    ∨ (cfg.cacheBytes : Int) < r.cacheBytes + toInt32 h.bytes + mergeWriteReserve.bytes

namespace Moves

theorem mergeHeader {ρ : RoleRef} {corr : Corr} {y : PullRef} (ht : P .transfer) (hP : P .forget)
    (hy : (n.role ρ).openPulls.get corr = some y) (h : Header)
    (hr : (n.role ρ).Overflows cfg h → (n.role ρ).StagedOnly corr →
      P (.retire (n.role ρ).topicId)) : Moves cfg P n (n.mergeHeader cfg ρ corr y h) := by
  unfold Node.mergeHeader
  simp only []
  split
  · next hover =>
    have hover : (n.role ρ).Overflows cfg h := by simpa [Role.Overflows] using hover
    refine ((send _).trans (dropPull corr)).trans (stageEnd corr hP ?_)
    rw [Node.role_modifyRole_self]
    exact hr hover
  · have hpinned : Moves cfg P n ((n.modifyPull y fun p => { p with
          header := true, cursor := some .header, baseline :=
            (n.role ρ).cache.map (·.msgId) }).modifyMerge
        ρ fun m => { m with
          pins := m.pins ∪ ((n.role ρ).cache.map (·.msgId)).toFinset, reserve :=
            some mergeWriteReserve }) :=
      one (@Move.header cfg P n ρ corr y { n.pulls.get y with
          header := true, cursor := some .header, baseline := (n.role ρ).cache.map (·.msgId) }
        _ ht hy rfl rfl rfl)
    exact hpinned.trans (mergePull ..)

theorem mergeIngestFrame (f : MergeFrame) (ht : P .transfer) (hf : P .forget)
    (hr : ∀ ρ, n.roleAt f.topicId = some ρ →
      f.refused = true ∨ (∃ h, f.header = some h ∧ (n.role ρ).Overflows cfg h) →
      (n.role ρ).StagedOnly f.corr → P (.retire (n.role ρ).topicId))
    (hd : ∀ ρ, n.roleAt f.topicId = some ρ → ∀ d ∈ f.dels, P (.del ρ d)) :
    Moves cfg P n (n.mergeIngestFrame cfg f) := by
  unfold Node.mergeIngestFrame
  cases hρ : n.roleAt f.topicId with
  | none => exact .refl
  | some ρ =>
    simp only []
    split
    · exact .refl
    next y hy =>
    split
    · exact .refl
    split
    · exact .refl
    split
    · next hrefused =>
      refine (dropPull f.corr).trans (stageEnd f.corr hf ?_)
      rw [Node.role_modifyRole_self]
      exact hr ρ hρ (.inl hrefused)
    split
    next h hh => exact mergeHeader ht hf hy h fun hover => hr ρ hρ (.inr ⟨h, hh, hover⟩)
    split
    · exact .refl
    set m := (n.modifyRole ρ fun r => r.pin f.slice).modifyPull y fun p => { p with
      manifest := ⟨p.manifest.bodies ++ f.slice.bodies, p.manifest.dels ++ f.slice.dels⟩ }
    have hnm : Moves cfg P n m := one (.slice f.slice ht hy)
    have hdels : Moves cfg P m (m.applyDels ρ f.topicId (some (m.cutCapture ρ)) none f.dels).2 :=
      applyDels (hd ρ hρ)
    split
    · next heq =>
      rw [heq] at hdels
      exact andPark (hnm.trans hdels) ht
    next heq =>
    rw [heq] at hdels
    exact andPark (hnm.trans hdels) ht

end Moves

/-- The sweep ends the pull: it is past its retention, or too slow. -/
def Pull.Due (p : Pull) (now : Int) : Prop :=
  (p.state = .acked ∧ mergeRetentionMs ≤ now - p.tS)
    ∨ (p.state = .pulling ∧ mergeTimeoutMs ≤ now - p.startedAt)

/-- Is it this pull, acknowledged in full, that the merge block of `sub` names? -/
structure Pull.Named (cfg : Config) (p : Pull) (sub : NodeId) (via : List NodeId)
    (b : MergeBlock) : Prop where
  acked : p.state = .acked
  full : p.full = true
  winner : b.winner = cfg.nodeId
  loserEpoch : toInt32 (b.loserEpoch.getD 0) = toInt32 p.loserEpoch
  hash : b.hash = p.hash
  loser : sub = p.loser
  via : via.head?.all (fun v => v = cfg.nodeId) = true

/-- Would the merge block of `sub` complete a pull of the role? A role that is no root may take the
epoch the block names before it looks. -/
def Node.completes (cfg : Config) (n : Node) (ρ : RoleRef) (sub : NodeId) (via : List NodeId)
    (b : MergeBlock) : Prop :=
  ∃ y, (n.role ρ).openPulls.get b.corr = some y ∧ (n.pulls.get y).Named cfg sub via b
    ∧ ((n.role ρ).isRoot = true → toInt32 (b.winnerEpoch.getD 0) = toInt32 (n.role ρ).epoch)

namespace Moves

variable {ρ : RoleRef}

theorem mergeCompleteOnSub (hmint : (n.role ρ).isRoot = false → P .mint)
    (hat : (n.role ρ).isRoot = false → ∃ t, n.roleAt t = some ρ)
    (hremint : (n.role ρ).isRoot = true → (n.role ρ).staging.isSome → P (.remint ρ))
    (sub : NodeId) (via : List NodeId) (b : MergeBlock)
    (hu : n.completes cfg ρ sub via b → P (.unpin ρ)) :
    Moves cfg P n (n.mergeCompleteOnSub cfg ρ sub via b) := by
  unfold Node.mergeCompleteOnSub
  simp only []
  split
  · exact .refl
  next y hy =>
  split
  · exact .refl
  next hacked =>
  split
  · exact .refl
  next hmatch =>
  have hu : P (.unpin ρ) := by
    simp only [Bool.or_eq_true, Bool.not_eq_true', not_or, Bool.not_eq_false, Bool.and_eq_true,
      decide_eq_true_eq] at hmatch
    obtain ⟨⟨⟨⟨⟨⟨hwinner, hepoch⟩, hloser⟩, hhash⟩, hsub⟩, hvia⟩, hfull⟩ := hmatch
    exact hu ⟨y, hy, ⟨not_not.mp hacked, hfull, hwinner, hloser, hhash, hsub, hvia⟩,
      fun _ => hepoch⟩
  set m := (n.endPull ρ b.corr).send
      (.mergeClosed sub (n.role ρ).topicId b.corr (toInt32 (n.role ρ).epoch)) with hm
  have hrole : m.role ρ = { (n.role ρ).releasePins with
      openPulls := (n.role ρ).openPulls.delete b.corr } :=
    Node.role_modifyRole_self n ρ fun r =>
      { r.releasePins with openPulls := r.openPulls.delete b.corr }
  refine (andSend (endPull b.corr hu) _).trans (stagePromote ?_ ?_ ?_ _ _)
  · rintro h
    exact hmint (by rwa [hrole] at h)
  · rintro h
    exact hat (by rwa [hrole] at h)
  · rintro h hs
    rw [hrole] at h hs
    exact hremint h hs

theorem onMergeClosed (c : MergeClosed)
    (hP : ∀ ρ k, n.roleAt c.topicId = some ρ → (n.role ρ).merge.completing = some k →
      k.corr = c.corr → MayEnd P ρ c.corr ∧ P (.unpin ρ)) : Moves cfg P n (n.onMergeClosed c) := by
  unfold Node.onMergeClosed
  split
  · exact .refl
  next ρ hρ =>
  split
  · exact .refl
  next k hk =>
  split
  · exact .refl
  next hnamed =>
  simp only [ne_eq, Bool.or_eq_true, decide_eq_true_eq, not_or, not_not] at hnamed
  obtain ⟨hc, hu⟩ := hP ρ k hρ hk hnamed.1
  set m := n.modifyRole ρ fun r =>
    { r with merge := { r.merge with completing := none, pins := ∅ } } with hm
  have hnm : Moves cfg P n m := role (.unpinAll rfl hu) rfl
  have hend : Moves cfg P m (m.modifyRole ρ fun r => r.closeCorr c.corr) :=
    closeCorr c.corr (.inl hc)
  rw [hm, Node.modifyRole_modifyRole] at hend
  exact hnm.trans hend

/-! ### The sweep -/

/-- An unanswered offer is closed; outside the cutover the claim may go with it. -/
theorem sweepExport (hP : P .yield) (corr : Corr) (x : ExportRef)
    (hc : (n.exports.get x).state = .offered → MayEnd P ρ corr) :
    Moves cfg P n (n.sweepExport cfg ρ corr x) := by
  unfold Node.sweepExport
  simp only []
  split
  · next hdue =>
    have hoff : (n.exports.get x).state = .offered := by
      simp only [Bool.and_eq_true, decide_eq_true_eq] at hdue
      exact hdue.1
    have hclose : Moves cfg P n (n.modifyRole ρ fun r => r.closeCorr corr) :=
      closeCorr corr (.inl (hc hoff))
    split
    · exact hclose.trans (dropCandidate _)
    next hcutover =>
    split
    · split
      · exact hclose.trans (dropCandidate _)
      · exact hclose
    · have hfree : cfg.cutover = false := by simpa using hcutover
      exact (hclose.trans (quietMerge rfl rfl)).trans
        (demote hP (by rintro corr rec ⟨⟩) (.inr hfree) _ _ false)
  · exact .refl

theorem sweepPull (hP : P .forget) (corr : Corr) (y : PullRef)
    (hu : (n.pulls.get y).Due n.now → P (.unpin ρ))
    (hr : (n.pulls.get y).Due n.now → (n.role ρ).StagedOnly corr → P (.retire (n.role ρ).topicId)) :
    Moves cfg P n (n.sweepPull ρ corr y) := by
  unfold Node.sweepPull
  simp only []
  split
  · next hdue =>
    have hdue : (n.pulls.get y).Due n.now := by simpa [Pull.Due] using hdue
    refine (endPull corr (hu hdue)).trans (stageEnd corr hP ?_)
    have hrole : (n.endPull ρ corr).role ρ
        = { (n.role ρ).releasePins with openPulls := (n.role ρ).openPulls.delete corr } :=
      Node.role_modifyRole_self n ρ fun r =>
        { r.releasePins with openPulls := r.openPulls.delete corr }
    rw [hrole]
    exact hr hdue
  · exact .refl

/-- The sweep of one role may retire that role, if it finds a pull into it. -/
theorem sweepRole (hy : P .yield) (hf : P .forget) (hc : MayAbort P ρ)
    (hr : ∀ m, Moves cfg P n m → (∃ k corr y, Moves cfg P n k
      ∧ (k.role ρ).openPulls.get corr = some y) → P (.retire (m.role ρ).topicId)) :
    Moves cfg P n (n.sweepRole cfg ρ) := by
  unfold Node.sweepRole
  simp only []
  set m := if (n.role ρ).merge.gate.any (fun g => mergeTimeoutMs ≤ n.now - g.cutAt) then
    n.mergeAbort ρ else n with hm
  have hk : Moves cfg P n ((m.role ρ).openMerges.entries.foldl
      (fun n e => n.sweepExport cfg ρ e.1 e.2) m) := by
    refine List.foldlRecOn (motive := fun m => Moves cfg P n m) _ _ ?_ ?_
    · rw [hm]
      split
      · exact mergeAbort hc
      · exact .refl
    · rintro m hm e -
      exact hm.trans (sweepExport hy e.1 e.2 fun _ => hc.mayEnd e.1)
  refine List.foldlRecOn (motive := fun m => Moves cfg P n m) _ _ hk ?_
  rintro m hm e he
  exact hm.trans (sweepPull hf e.1 e.2 (fun _ => hc.unpin) fun _ _ =>
    hr m hm ⟨_, e.1, e.2, hk, OrderedMap.get_of_mem he⟩)

end Moves

end Axona
