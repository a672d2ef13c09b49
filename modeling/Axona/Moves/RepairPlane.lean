import Axona.Moves.WireHandlers

/-! # The repair plane, in moves -/

namespace Axona

open Library OrderedMap

variable {cfg : Config} {P : Input → Prop} {n n' : Node}

namespace Moves

theorem retireRole (hf : P .forget) (t : TopicId) (ρ : RoleRef) (hr : P (.retire t)) :
    Moves cfg P n (n.retireRole t ρ) :=
  one (.retire t ρ hf hr)

theorem resetState (hf : P .forget) (hr : ∀ t, P (.retire t)) : Moves cfg P n n.resetState := by
  have hroles : Moves cfg P n (n.axonRoles.entries.foldl (fun n e => n.retireRole e.1 e.2) n) :=
    moves_foldl (fun _ e _ => retireRole hf e.1 e.2 (hr e.1)) _
  refine (andThen hroles (.wipe hf hr)).trans (side rfl ⟨[], rfl, ?_⟩)
  rintro t id ⟨⟩

theorem expireRole (t : TopicId) : Moves cfg P n (n.expireRole t) := by
  unfold Node.expireRole
  split
  · exact .refl
  next ρ _ =>
  have htombs : (n.role ρ).Shrink (Changes cfg P n ρ) ((n.role ρ).expireTombstones n.now) :=
    Role.expireTombstones_shrink fun id t h => .lapsed h
  have hcache (m : Node) : Moves cfg P m (m.modifyRole ρ fun r => r.expireCache n.now) :=
    shrink (Role.expireCache_shrink (m.role ρ) n.now)
  have h := (shrink htombs (f := fun r => r.expireTombstones n.now)).trans (hcache _)
  rwa [Node.modifyRole_modifyRole] at h

/-- The reapers leave a role with an open exchange alone. -/
theorem reap (hf : P .forget) (t : TopicId) (held : Bool)
    (hr : ∀ ρ, n.roleAt t = some ρ → (n.role ρ).openMerges.size = 0 → P (.retire t)) :
    Moves cfg P n (n.reap t held) := by
  unfold Node.reap
  split
  · exact .refl
  next ρ hρ =>
  simp only []
  split
  · exact .refl
  next hfree =>
  refine retireRole hf _ _ (hr ρ hρ ?_)
  simp only [Bool.or_eq_true, not_or, Role.custodyAlive] at hfree
  simpa using hfree.1.1.1.1.1.1.1.1.2

theorem retireIdleBackup (t : TopicId) (idle : Bool) :
    Moves cfg P n (n.retireIdleBackup t idle) := by
  unfold Node.retireIdleBackup
  split
  · exact .refl
  split
  · exact retireBackup ..
  · exact .refl

theorem claimFallback (hm : P .mint) (t : TopicId) : Moves cfg P n (n.claimFallback cfg t) := by
  unfold Node.claimFallback
  split
  · exact claimReachable hm t
  · exact .refl

theorem readRepair (t : TopicId) : Moves cfg P n (n.readRepair t) := by
  unfold Node.readRepair
  split
  · exact .refl
  next hnone =>
  refine one (.register t true ?_)
  simp only [Bool.or_eq_true, not_or, Option.isSome_iff_ne_none, ne_eq, not_not] at hnone
  exact hnone.2

theorem standbyLeaseSweep (t : TopicId) : Moves cfg P n (n.standbyLeaseSweep cfg t) := by
  unfold Node.standbyLeaseSweep
  split
  · exact .refl
  simp only []
  split
  · exact .refl
  · exact (retireBackup ..).trans (quiet rfl)

/-! ### The lifetime of a topic -/

/-- Is the dismantling of the role done: nobody to tell, or everybody told often enough? -/
def Told (r : Role) (targets : Bool) : Prop :=
  targets = false ∨ topicTerminateTries ≤ r.dismantlingSends

theorem terminateStep (hf : P .forget) (t : TopicId) (ρ : RoleRef) (targets : Bool)
    (hr : Told (n.role ρ) targets → P (.retire t)) :
    Moves cfg P n (n.terminateStep t ρ targets) := by
  unfold Node.terminateStep
  split
  · next htold =>
    exact ((one (.remember t _ hf)).trans (retireBackup ..)).trans
      (retireRole hf _ _ (hr (by simpa [Told] using htold)))
  next hmore =>
  refine role (.notice ?_) rfl
  simp only [Bool.or_eq_true, not_or, decide_eq_true_eq, not_le] at hmore
  exact hmore.2

/-- Does a root hold no body, and does nobody want it? -/
structure Unwanted (n : Node) (t : TopicId) (ρ : RoleRef) (held : Bool) : Prop where
  closed : (n.role ρ).openMerges.size = 0
  empty : (n.role ρ).cache = []
  demand : t ∉ n.mySubscriptions ∧ held = false

/-- A root leaves the table when its dismantling is done, or when it begins one with nobody to
tell. -/
theorem terminationSweep (hf : P .forget) (t : TopicId) (held targets : Bool)
    (hr : ∀ ρ, n.roleAt t = some ρ → (n.role ρ).isRoot = true →
      ((n.role ρ).dismantling.isSome ∧ Told (n.role ρ) targets) ∨ Unwanted n t ρ held →
      P (.retire t)) : Moves cfg P n (n.terminationSweep cfg t held targets) := by
  unfold Node.terminationSweep
  split
  · exact .refl
  next ρ hρ =>
  simp only []
  split
  · exact .refl
  next hroot =>
  have hroot : (n.role ρ).isRoot = true := by simp_all
  split
  next hd => exact terminateStep hf _ _ _ fun htold => hr ρ hρ hroot (.inl ⟨hd, htold⟩)
  next hd =>
  split
  · exact .refl
  next hidle =>
  simp only [Role.custodyOpen, Bool.or_eq_true, not_or, Bool.not_eq_true', Bool.not_eq_false,
    List.isEmpty_iff, decide_eq_true_eq, ne_eq, not_not] at hidle
  have hbegins : RoleMove cfg P n ρ _ [] := .dismantle n.now (by simpa using hd) hidle.1.1.1.1
  have hfree : Unwanted n t ρ held :=
    ⟨hidle.1.1.1.2.1.2, hidle.1.1.1.1, hidle.1.1.2, by simpa using hidle.1.2⟩
  exact (role hbegins rfl).trans (terminateStep hf _ _ _ fun _ => hr ρ hρ hroot (.inr hfree))

theorem dropOwned {ρ : RoleRef} (hd : P (.disown ρ)) (owner : Option Gen) :
    Moves cfg P n (n.dropOwned ρ owner) :=
  role (.disown owner hd) rfl

theorem endStandby {ρ : RoleRef} (hd : P (.disown ρ)) (t : TopicId) :
    Moves cfg P n (n.endStandby t ρ) :=
  ((retireBackup t ρ).trans (quiet rfl)).trans (dropOwned hd _)

theorem endSubscriptionTerminated (t : TopicId) (gen : Gen) :
    Moves cfg P n (n.endSubscriptionTerminated t gen) := by
  unfold Node.endSubscriptionTerminated
  simp only []
  split
  · exact side rfl (.same rfl rfl)
  refine side rfl ⟨[.terminated t gen], rfl, ?_⟩
  intro t' id hk
  rcases has_rememberKey hk with heq | hold
  · -- the key of the notice has its tag in front
    exact .inr (.inr (.inr ⟨_, (congrArg Prod.snd heq).symm⟩))
  · exact .inl hold

theorem pubsubResetTopicConsumption (t : TopicId) :
    Moves cfg P n (n.pubsubResetTopicConsumption t) := by
  refine side rfl ⟨[], rfl, ?_⟩
  intro t' id hk
  obtain ⟨v, hv⟩ := has_iff.mp hk
  exact .inl (has_iff.mpr ⟨v, (get_filter_some.mp hv).1⟩)

theorem pubsubUnsubscribe (t : TopicId) : Moves cfg P n (n.pubsubUnsubscribe t) := by
  refine side rfl ⟨[], rfl, ?_⟩
  intro t' id hk
  obtain ⟨v, hv⟩ := has_iff.mp hk
  exact .inl (has_iff.mpr ⟨v, (get_filter_some.mp hv).1⟩)

theorem endAttachment (hf : P .forget) (t : TopicId) {ρ : Option RoleRef}
    (hd : ∀ σ ∈ ρ, P (.disown σ)) (gen : Gen) (att : Option Gen) :
    Moves cfg P n (n.endAttachment t ρ gen att) := by
  have hend (k : Node) (hk : Moves cfg P n k) : Moves cfg P n
      (if t ∈ k.mySubscriptions then k.endSubscriptionTerminated t gen else k) := by
    split
    · refine hk.trans (endSubscriptionTerminated t gen)
    · exact hk
  have hbeacon (k : Node) (hk : Moves cfg P n k) : Moves cfg P n
      (if (k.rootBeacons.get t).any (fun b => b.root = gen.root) then
        { k with rootBeacons := k.rootBeacons.delete t } else k) := by
    split
    · exact andThen hk (.dropBeacon t hf)
    · exact hk
  cases ρ with
  | none => exact hend _ (hbeacon _ (andUpstream .refl _))
  | some ρ => exact hend _ (hbeacon _ (andUpstream (dropOwned (hd ρ rfl) att) _))

/-- Does the notice of a generation's end leave a role with no duty? It does not touch a root, or a
backup that holds a body. -/
structure Released (n : Node) (t : TopicId) (ρ : RoleRef) (gen : Gen) (attached seats : Bool) :
    Prop where
  notRoot : (n.role ρ).isRoot = false
  named : n.appointed (some ρ) gen = true ∨ attached = true
  empty : n.appointed (some ρ) gen = true → (n.role ρ).cache = []
  backup : n.appointed (some ρ) gen = true ∨ (n.role ρ).backupOf = none
  demand : attached = true ∨ (t ∉ n.mySubscriptions ∧ seats = false)

theorem backupOf_endAttachment (n : Node) (t : TopicId) (ρ : RoleRef) (gen : Gen)
    (att : Option Gen) : ((n.endAttachment t (some ρ) gen att).role ρ).backupOf
      = (n.role ρ).backupOf := by
  have hrole : (n.dropOwned ρ att).role ρ = (n.role ρ).dropOwned att :=
    Node.role_modifyRole_self n ρ fun r => r.dropOwned att
  have hdropped : ((n.dropOwned ρ att).role ρ).backupOf = (n.role ρ).backupOf := by
    rw [hrole]
    rfl
  rw [← hdropped]
  unfold Node.endAttachment Node.endSubscriptionTerminated
  simp only []
  split_ifs <;> rfl

theorem onTopicTerminated (hf : P .forget) (t : TopicId) (gen : Gen)
    (attached : Bool) (att : Option Gen) (seats : Bool)
    (hd : ∀ ρ, n.roleAt t = some ρ → P (.disown ρ))
    (hr : ∀ ρ, n.roleAt t = some ρ → Released n t ρ gen attached seats → P (.retire t)) :
    Moves cfg P n (n.onTopicTerminated cfg t gen attached att seats) := by
  have hstandby (b : Bool) (ρ : Option RoleRef) (hd : ∀ σ ∈ ρ, P (.disown σ)) : Moves cfg P n
      (if b then ρ.elim n (n.endStandby t) else n) := by
    split
    · cases ρ with
      | none => exact .refl
      | some ρ => exact endStandby (hd ρ rfl) t
    · exact .refl
  have hattached (k : Node) (ρ : Option RoleRef) (hd : ∀ σ ∈ ρ, P (.disown σ))
      (hk : Moves cfg P n k) : Moves cfg P n
      (if attached then k.endAttachment t ρ gen att else k) := by
    split
    · exact hk.trans (endAttachment hf t hd ..)
    · exact hk
  have hretire (k : Node) (ρ : RoleRef) (hk : Moves cfg P n k)
      (hr : (k.role ρ).backupOf = none → t ∉ k.mySubscriptions → attached = true ∨ seats = false →
        P (.retire t)) : Moves cfg P n
      (if (k.role ρ).backupOf.isNone && t ∉ k.mySubscriptions && (attached || !seats) then
        k.retireRole t ρ
      else k) := by
    split
    · next hfree =>
      simp only [Bool.and_eq_true, Bool.or_eq_true, Option.isNone_iff_eq_none, decide_eq_true_eq,
        Bool.not_eq_true'] at hfree
      exact hk.trans (retireRole hf _ _ (hr hfree.1.1 hfree.1.2 hfree.2))
    · exact hk
  unfold Node.onTopicTerminated
  by_cases hnone : (!cfg.topicLifetime || (n.roleAt t).any (fun ρ => (n.role ρ).isRoot)
      || (!n.appointed (n.roleAt t) gen && !attached)) = true
  · rw [if_pos hnone]
  rw [if_neg hnone]
  by_cases hheld : (n.appointed (n.roleAt t) gen
      && (n.roleAt t).any fun ρ => !(n.role ρ).cache.isEmpty) = true
  · rw [if_pos hheld]
  rw [if_neg hheld]
  generalize hro : n.roleAt t = ro at hnone hheld hd hr ⊢
  cases ro with
  | none => exact hattached _ none nofun (hstandby _ none nofun)
  | some ρ =>
    refine hretire _ ρ (hattached _ (some ρ) hd (hstandby _ (some ρ) hd)) ?_
    rintro hbackup hsub hseats
    simp only [Bool.or_eq_true, Bool.and_eq_true, not_or, Option.any_some, Bool.not_eq_true',
      Bool.not_eq_false, not_and, List.isEmpty_iff] at hnone hheld
    refine hr ρ rfl ⟨by simpa using hnone.1.2, ?_, ?_, ?_, ?_⟩
    · by_contra h
      simp_all
    · intro ha
      simpa using hheld ha
    · by_cases ha : n.appointed (some ρ) gen = true
      · exact .inl ha
      right
      simp only [ha, Bool.false_eq_true, if_false] at hbackup
      split at hbackup
      · rwa [backupOf_endAttachment] at hbackup
      · exact hbackup
    · by_cases hatt : attached = true
      · exact .inl hatt
      have hseats : seats = false := by simpa [hatt] using hseats
      simp only [hatt, Bool.false_eq_true, if_false] at hsub
      refine .inr ⟨?_, hseats⟩
      split at hsub <;> exact hsub

/-- May a child whose branch stayed thin step down? -/
structure StepsDown (n : Node) (t : TopicId) (ρ : RoleRef) (thin heldAbove : Bool) : Prop where
  closed : (n.role ρ).openMerges.size = 0
  child : (n.role ρ).isRoot = false ∧ (n.role ρ).backupOf = none ∧ t ∉ n.backupTopics
    ∧ (n.role ρ).readHolder = false ∧ (n.upstream.get t).isSome
  thin : thin = true
  above : (n.role ρ).cache = [] ∨ heldAbove = true

theorem stepDownChild (hf : P .forget) (t : TopicId) (thin heldAbove : Bool)
    (hr : ∀ ρ, n.roleAt t = some ρ → StepsDown n t ρ thin heldAbove → P (.retire t)) :
    Moves cfg P n (n.stepDownChild cfg t thin heldAbove) := by
  unfold Node.stepDownChild
  split
  · exact .refl
  next ρ hρ =>
  simp only []
  split
  · exact .refl
  next hfree =>
  simp only [Bool.or_eq_true, not_or, Role.custodyOpen] at hfree
  obtain ⟨⟨⟨⟨⟨⟨⟨⟨-, hroot⟩, hbackup⟩, htopics⟩, hholder⟩, hthin⟩, hup⟩, ⟨-, hclosed⟩, -⟩,
    habove⟩ := hfree
  refine retireRole hf _ _ (hr ρ hρ ⟨by simpa using hclosed, ⟨by simpa using hroot,
    by simpa using hbackup, by simpa using htopics, by simpa using hholder, ?_⟩,
    by simpa using hthin, by simpa [or_iff_not_imp_left] using habove⟩)
  cases hat : n.upstream.get t with
  | none => simp [hat] at hup
  | some up => rfl

theorem onRehome (t : TopicId) (sender : NodeId) (next : Option NodeId) :
    Moves cfg P n (n.onRehome cfg t sender next) := by
  unfold Node.onRehome
  split
  · exact .refl
  · exact andSend (andUpstream .refl _) _

theorem onMetricsOn (hy : P .yield) (hm : P .mint) (t : TopicId) (a : Arrival) :
    Moves cfg P n (n.onMetricsOn cfg t a) := by
  unfold Node.onMetricsOn
  split
  · exact .refl
  · exact send _
  simp only []
  have hcloser : Moves cfg P n (n.closerRoot cfg t true).2 := closerRoot ..
  split
  · exact hcloser.trans (deferToRoot hy ..)
  by_cases hhas : (n.closerRoot cfg t true).2.axonRoles.has t = true
  · simp only [hhas, if_true]
    split
    · exact hcloser
    split
    next heq => exact hcloser.trans (roleOrRoot hm heq)
    next heq =>
      exact (hcloser.trans (roleOrRoot hm heq)).trans
        (maybePromoteRoot hm ⟨_, roleOrRoot_roleAt heq⟩ _)
  · rw [if_neg hhas]
    have hheld := hcloser.trans (holdFor t)
    split
    · exact hheld
    split
    next heq => exact hheld.trans (roleOrRoot hm heq)
    next heq =>
      exact (hheld.trans (roleOrRoot hm heq)).trans
        (maybePromoteRoot hm ⟨_, roleOrRoot_roleAt heq⟩ _)

end Moves

end Axona
