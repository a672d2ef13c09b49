import Axona.Moves.RootElection

/-! # The wire handlers, in moves -/

namespace Axona

open Library

variable {cfg : Config} {P : Input → Prop} {n n' : Node}

namespace Role

theorem noteMetric_core (r : Role) (d : Descriptor) : (r.noteMetric d).core = r.core := by
  unfold noteMetric
  split <;> rfl

theorem tombstoned_topicId (r : Role) (id : MsgId) (json : Json) :
    (r.tombstoned id json).2.topicId = r.topicId :=
  congrArg RoleCore.topicId (tombstoned_shrink (C := fun _ _ _ => True) fun _ _ => trivial).rest

theorem noteMetric_topicId (r : Role) (d : Descriptor) : (r.noteMetric d).topicId = r.topicId :=
  congrArg RoleCore.topicId (noteMetric_core r d)

end Role

namespace Moves

/-! ### Interceptions -/

/-- A hold that lapses takes the accepted winner of the role with it, and no more. -/
theorem role_holdFor (cfg : Config) (n : Node) (t : TopicId) (ρ : RoleRef) :
    ∃ w, (n.holdFor cfg t).2.role ρ
      = { n.role ρ with merge := { (n.role ρ).merge with acceptedWinner := w } } := by
  have hsame : ∃ w, n.role ρ
      = { n.role ρ with merge := { (n.role ρ).merge with acceptedWinner := w } } := ⟨_, rfl⟩
  unfold Node.holdFor
  split
  · exact hsame
  split
  · simp only []
    split
    · exact hsame
    next ρ' _ =>
    rw [Node.modifyMerge, Node.role_modifyRole]
    split
    · next h =>
      subst h
      split
      · exact ⟨none, rfl⟩
      · exact hsame
    · exact hsame
  · exact hsame

variable {t : TopicId} {verb : Verb} {a : Arrival} {token : HoldToken}

section

variable (h : n.holdIntercept cfg t verb a token = (false, n'))
include h

/-- A message the hold lets through met no hold, or one past its time. -/
theorem holdIntercept_false :
    n' = n ∨ n' = (n.holdFor cfg t).2 := by
  unfold Node.holdIntercept at h
  split at h
  · cases h
    exact .inl rfl
  split at h
  · next heq =>
    cases h
    rw [heq]
    exact .inr rfl
  next heq =>
  rw [heq]
  split at h
  · cases h
    exact .inr rfl
  split at h
  · cases h
    exact .inr rfl
  split at h
  · cases h
  · split at h <;> cases h
  · split at h <;> cases h

theorem holdIntercept_roles :
    n'.roleAt t = n.roleAt t ∧ ∀ ρ, (n'.role ρ).isRoot = (n.role ρ).isRoot
      ∧ (n'.role ρ).staging = (n.role ρ).staging := by
  rcases holdIntercept_false h with rfl | rfl
  · exact ⟨rfl, fun _ => ⟨rfl, rfl⟩⟩
  refine ⟨roleAt_holdFor t t, fun ρ => ?_⟩
  obtain ⟨w, hw⟩ := role_holdFor cfg n t ρ
  rw [hw]
  exact ⟨rfl, rfl⟩

theorem holdIntercept_let :
    Moves cfg P n n' := by
  rcases holdIntercept_false h with rfl | rfl
  · exact .refl
  · exact holdFor t

end

theorem holdIntercept_handled (hf : P .forget)
    (h : n.holdIntercept cfg t verb a token = (true, n')) : Moves cfg P n n' := by
  unfold Node.holdIntercept at h
  have hh : Moves cfg P n (n.holdFor cfg t).2 := holdFor t
  split at h
  · cases h
  split at h
  · cases h
  next m heq =>
  rw [heq] at hh
  split at h
  · cases h
  split at h
  · cases h
  split at h
  · cases h
    exact hh
  · split at h
    · cases h
      exact andThen hh (.dropBeacon t hf)
    · cases h
      exact hh
  have ht : Moves cfg P m (m.holdTarget cfg t (verb = .sub)).2 := holdTarget ..
  split at h
  · next heq' =>
    cases h
    rw [heq'] at ht
    exact hh.trans ht
  · next heq' =>
    cases h
    rw [heq'] at ht
    split
    · exact andSend (hh.trans ht) _
    · exact (hh.trans ht).trans (forwardToRoot ..)

theorem mergeGateForward (t : TopicId) (g : Gate) : Moves cfg P n (n.mergeGateForward t g) :=
  andPark (send _) trivial

theorem mergeGateIntercept {token : GateToken} {b : Bool}
    (h : n.mergeGateIntercept t a token = (b, n')) : Moves cfg P n n' := by
  show Moves cfg P n (b, n').2
  rw [← h]
  unfold Node.mergeGateIntercept
  split
  · exact .refl
  split <;> try exact .refl
  split
  · exact .refl
  · exact mergeGateForward ..

/-- A write the gate lets through changed nothing. -/
theorem mergeGateIntercept_false {token : GateToken}
    (h : n.mergeGateIntercept t a token = (false, n')) : n = n' := by
  unfold Node.mergeGateIntercept at h
  split at h
  · cases h
    rfl
  split at h
  · cases h
  · cases h
  · cases h
    rfl
  · cases h
    rfl
  · split at h <;> cases h
    rfl

theorem winnerVerdict (t : TopicId) (corr : Corr) (v : ForwardVerdict)
    (hP : ∀ ρ, n.roleAt t = some ρ → MayAbort P ρ) : Moves cfg P n (n.winnerVerdict t corr v) := by
  unfold Node.winnerVerdict
  split
  · split
    · exact .refl
    next hρ =>
    split
    · exact mergeAbort (hP _ hρ)
    · exact .refl
  · exact .refl

theorem winnerReminted (hy : P .yield) (t : TopicId) (root : NodeId) (corr : Corr) (epoch : Int)
    (hP : ∀ ρ, n.roleAt t = some ρ → MayAbort P ρ) :
    Moves cfg P n (n.winnerReminted cfg t root corr epoch) := by
  unfold Node.winnerReminted
  split
  · exact .refl
  next hρ =>
  exact (mergeAbort (hP _ (Option.filter_eq_some_iff.mp hρ).1)).trans (mergeCandidate hy ..)

theorem stagingIntercept {completes : NodeId → Bool} {b : Bool}
    (h : n.stagingIntercept t verb completes = (b, n')) : Moves cfg P n n' := by
  show Moves cfg P n (b, n').2
  rw [← h]
  unfold Node.stagingIntercept
  split
  · exact .refl
  split
  · exact .refl
  split
  · exact .refl
  split
  · exact .refl
  · exact send _

/-- A message the staging lets through changed nothing. -/
theorem stagingIntercept_false {completes : NodeId → Bool}
    (h : n.stagingIntercept t verb completes = (false, n')) : n = n' := by
  unfold Node.stagingIntercept at h
  split at h
  · cases h
    rfl
  split at h
  · cases h
    rfl
  split at h
  · cases h
    rfl
  split at h <;> cases h
  rfl

theorem cutDisposition (t : TopicId) : Moves cfg P n (n.cutDisposition cfg t) := by
  unfold Node.cutDisposition
  simp only []
  split
  · split
    · exact send _
    · exact mergeGateForward ..
  · split
    · exact forwardToRoot ..
    · exact .refl

theorem rerouteDeclined (t : TopicId) (a : Arrival) :
    Moves cfg P n (n.rerouteDeclined cfg t a) := by
  unfold Node.rerouteDeclined
  split
  · split
    · exact .refl
    · exact send _
  · exact .refl

/-! ### Publishes -/

variable {ρ : RoleRef}

theorem maybePromoteRoot (hm : P .mint) (hat : ∃ t, n.roleAt t = some ρ) (a : Arrival) :
    Moves cfg P n (n.maybePromoteRoot cfg ρ a) := by
  unfold Node.maybePromoteRoot
  split
  · exact .refl
  · exact promote hm _ _ hat

theorem closerRoot (t : TopicId) (rr : Bool) : Moves cfg P n (n.closerRoot cfg t rr).2 := by
  unfold Node.closerRoot
  split
  · exact .refl
  · exact liveCloserRoot ..

/-- Looking for a closer root changes no role. -/
theorem liveCloserRoot_roles (n : Node) (t : TopicId) (rr : Bool) :
    (n.liveCloserRoot cfg t rr).2.axonRoles = n.axonRoles
      ∧ (n.liveCloserRoot cfg t rr).2.roles = n.roles := by
  have hconvicted (root : NodeId) (e : Option Int) :
      (n.rootTombstoned t root e).2.axonRoles = n.axonRoles
        ∧ (n.rootTombstoned t root e).2.roles = n.roles := by
    unfold Node.rootTombstoned
    split
    · exact ⟨rfl, rfl⟩
    · split <;> exact ⟨rfl, rfl⟩
  unfold Node.liveCloserRoot
  cases n.rootBeacons.get t with
  | none => exact ⟨rfl, rfl⟩
  | some b =>
    have h := hconvicted b.root b.epoch
    simp only []
    split_ifs <;> first | exact ⟨rfl, rfl⟩ | exact h

theorem closerRoot_roles (cfg : Config) (n : Node) (t : TopicId) (rr : Bool) :
    (n.closerRoot cfg t rr).2.axonRoles = n.axonRoles
      ∧ (n.closerRoot cfg t rr).2.roles = n.roles := by
  unfold Node.closerRoot
  split
  · exact ⟨rfl, rfl⟩
  · exact liveCloserRoot_roles ..

theorem roleOrRoot (hm : P .mint) {o : Option RoleRef} (h : n.roleOrRoot cfg t = (o, n')) :
    Moves cfg P n n' := by
  show Moves cfg P n (o, n').2
  rw [← h]
  unfold Node.roleOrRoot
  split
  · exact .refl
  next hfree => exact becomeRoot hm hfree

section

variable (h : n.roleOrRoot cfg t = (some ρ, n'))
include h

/-- The role a handler acts in is the one registered, or a root made just now. -/
theorem roleOrRoot_some : (n.roleAt t = some ρ ∧ n' = n)
      ∨ ((n'.role ρ).isRoot = true ∧ (n'.role ρ).staging = none) := by
  unfold Node.roleOrRoot at h
  split at h
  · next heq =>
    cases h
    exact .inl ⟨heq, rfl⟩
  refine .inr ?_
  unfold Node.becomeRoot Node.become at h
  split_ifs at h
  · cases h
  · cases h
    have hborn (r : Role) : (n.roles.alloc r).1.get n.roles.next = r := by
      rw [Heap.get_alloc, if_pos rfl]
    exact ⟨congrArg Role.isRoot (hborn _), congrArg Role.staging (hborn _)⟩
  · cases h

/-- The role a handler acts in is registered. -/
theorem roleOrRoot_roleAt : n'.roleAt t = some ρ := by
  unfold Node.roleOrRoot at h
  split at h
  · next heq =>
    cases h
    exact heq
  · unfold Node.becomeRoot at h
    split_ifs at h
    · exact become_roleAt h
    · cases h

/-- The role a handler acts in was made. -/
theorem roleOrRoot_made (hreg : ∀ ρ, n.roleAt t = some ρ → ρ < n.roles.next) : ρ < n'.roles.next := by
  unfold Node.roleOrRoot at h
  split at h
  · next heq =>
    cases h
    exact hreg ρ heq
  · unfold Node.becomeRoot Node.become at h
    split_ifs at h
    · cases h
    · cases h
      exact Nat.lt_succ_self _
    · cases h

end

theorem onPub {f : PubFrame} (hw : P .write)
    (hreg : ∀ ρ, n.roleAt f.topicId = some ρ → ρ < n.roles.next)
    (hf : (n.holdIntercept cfg f.topicId .pub f.arrival f.holdFwd).1 = true → P .forget)
    (hm : (n.holdIntercept cfg f.topicId .pub f.arrival f.holdFwd).1 = false → P .mint) :
    Moves cfg P n (n.onPub cfg f) := by
  unfold Node.onPub
  simp only []
  split
  · exact .refl
  · exact send _
  split
  next heq => exact holdIntercept_handled (hf (by rw [heq])) heq
  next n₁ heq =>
  have hm : P .mint := hm (by rw [heq])
  have h₁ : Moves cfg P n n₁ := holdIntercept_let heq
  have hat := holdIntercept_roles heq
  split
  · next heq => exact h₁.trans (mergeGateIntercept heq)
  next heq =>
  obtain rfl := mergeGateIntercept_false heq
  split
  · next heq => exact h₁.trans (stagingIntercept heq)
  next heq =>
  obtain rfl := stagingIntercept_false heq
  have hcloser : Moves cfg P n₁ (n₁.liveCloserRoot cfg f.topicId false).2 := liveCloserRoot ..
  split
  · next heq =>
    rw [heq] at hcloser
    exact (h₁.trans hcloser).trans (forwardToRoot ..)
  next n₂ heq =>
  rw [heq] at hcloser
  have hsame := @liveCloserRoot_roles cfg n₁ f.topicId false
  rw [heq] at hsame
  have h₂ := h₁.trans hcloser
  split
  · next heq => exact (h₂.trans (roleOrRoot hm heq)).trans (rerouteDeclined ..)
  next ρ n₃ heq =>
  have hup : Moves cfg P n₃ (n₃.maybePromoteRoot cfg ρ f.arrival) :=
    maybePromoteRoot hm ⟨_, roleOrRoot_roleAt heq⟩ f.arrival
  have h₃ := (h₂.trans (roleOrRoot hm heq)).trans hup
  have hmade : ρ < (n₃.maybePromoteRoot cfg ρ f.arrival).roles.next := by
    refine lt_of_lt_of_le (roleOrRoot_made heq ?_) hup.roles_next
    intro ρ' hρ'
    rw [Node.roleAt, hsame.1] at hρ'
    exact lt_of_lt_of_le (hreg ρ' (by rw [← hat.1]; exact hρ')) (Moves.roles_next h₂)
  split
  · exact h₃.trans (send _)
  next hroot =>
  exact andPark h₃ ⟨hw, hmade, rfl, by simpa using hroot⟩

/-! ### Stamps -/

/-- A change of the role that the cut does not read. -/
theorem cutHolds_modifyRole {f : Role → Role} (cut : Option Cut)
    (hf : (f (n.role ρ)).topicId = (n.role ρ).topicId
      ∧ (f (n.role ρ)).merge.gate = (n.role ρ).merge.gate
      ∧ (f (n.role ρ)).dismantling = (n.role ρ).dismantling
      ∧ (f (n.role ρ)).retired = (n.role ρ).retired ∧ (f (n.role ρ)).gen = (n.role ρ).gen) :
    (n.modifyRole ρ f).cutHolds ρ cut = n.cutHolds ρ cut := by
  obtain ⟨ht, hg, hd, hr, hn⟩ := hf
  unfold Node.cutHolds
  simp only [Node.role_modifyRole_self, ht, hg, hd, hr, hn]
  rfl

variable {cut : Cut}

variable {id : MsgId} {json : Json}

theorem answerStamped (h : Moves cfg P n n') (ρ : RoleRef) (id : MsgId) :
    Moves cfg P n (n'.answerStamped cfg ρ id) := by
  unfold Node.answerStamped
  split
  · exact andPark h trivial
  · exact andSend h _

theorem stampPublish {e : Envelope} {d : Descriptor} (hP : P (.publish ρ cut json))
    (hcut : n.cutHolds ρ (some cut) = true) (hfresh : (n.role ρ).Fresh id json)
    (genuine : Genuine cfg.toPrimitives (n.role ρ).topicId id json e d)
    (policy : writePolicyRefuses d e.signerPubkey = false) :
    Moves cfg P n (n.stampPublish cfg ρ id json cut) := by
  set m := (n.modifyRole ρ fun r => { r with
      lastTs := n.stampTs ρ, lastDemandAt := n.now, seq := succDouble (n.role ρ).seq }).note
        (.stamped ρ (n.role ρ) (n.stampTs ρ) (succDouble (n.role ρ).seq)) with hm
  have hstamp : Moves cfg P n m := role (.stamp hcut (.inl ⟨json, hP⟩)) rfl
  have hmrole : m.role ρ = { n.role ρ with
      lastTs := n.stampTs ρ, lastDemandAt := n.now, seq := succDouble (n.role ρ).seq } :=
    Node.role_modifyRole_self n ρ fun r => { r with
      lastTs := n.stampTs ρ, lastDemandAt := n.now, seq := succDouble (n.role ρ).seq }
  have hpush : Moves cfg P m (m.cachePush cfg ρ
      ⟨id, n.stampTs ρ, json, some (succDouble (n.role ρ).seq)⟩ (some cut)).2 := by
    refine cachePush (fun _ _ => .inr ?_) fun _ => .publish hP ?_ policy
    · rw [hmrole]
      exact hfresh
    · rw [hmrole]
      exact genuine
  unfold Node.stampPublish
  exact answerStamped (((hstamp.trans hpush).trans (quietMerge rfl rfl)).trans (deliverToApp ..)) ..

theorem noteMetric (ρ : RoleRef) (d : Descriptor) :
    Moves cfg P n (n.modifyRole ρ fun r => r.noteMetric d) :=
  quiet (Role.noteMetric_core _ d)

theorem role_tombstoned (ρ : RoleRef) (id : MsgId) (json : Json) :
    (n.tombstoned (some ρ) id json).2.role ρ = ((n.role ρ).tombstoned id json).2 :=
  Node.role_modifyRole_self ..

/-- A body that passes the check of a role that does not hold it is fresh there. -/
theorem fresh_tombstoned {k : Node} (h : n.tombstoned (some ρ) id json = (false, k))
    (hid : id ∉ (n.role ρ).cacheIds) :
    (k.role ρ).Fresh id json := by
  have hrole := role_tombstoned (n := n) ρ id json
  rw [h] at hrole
  have hdead : ((n.role ρ).tombstoned id json).1 = false := congrArg Prod.fst h
  rw [hrole]
  exact Role.fresh_of_tombstoned (Prod.ext hdead rfl) hid

theorem resumePublish (hP : P (.publish ρ cut json)) :
    Moves cfg P n (n.resumePublish cfg ρ cut json) := by
  unfold Node.resumePublish
  split
  · exact .refl
  next e hparsed =>
  split
  · exact .refl
  next hverify =>
  split
  · exact .refl
  split
  next d id htopic hid =>
    simp only []
    split
    · exact .refl
    next hderive =>
    split
    · exact .refl
    next hpolicy =>
    set m := n.modifyRole ρ fun r => r.noteMetric d with hm
    have hnm : Moves cfg P n m := noteMetric ρ d
    have hmrole : (m.role ρ).topicId = (n.role ρ).topicId := by
      rw [hm, Node.role_modifyRole_self, Role.noteMetric_topicId]
    split
    · exact andSend hnm _
    next hnew =>
    have genuine : Genuine cfg.toPrimitives (n.role ρ).topicId id json e d :=
      ⟨hparsed, htopic, hid, by simpa using hverify, by simpa using hderive⟩
    have htomb : Moves cfg P m (m.tombstoned (some ρ) id json).2 := by
      refine tombstoned ?_
      rintro ρ' ⟨⟩ t hj
      exact .revoked (.inl ⟨cut, hP⟩) hj (hmrole ▸ genuine)
    split
    · next heq =>
      rw [heq] at htomb
      exact andSend (hnm.trans htomb) _
    next k heq =>
    have hfresh : (k.role ρ).Fresh id json := fresh_tombstoned heq hnew
    have hkrole : (k.role ρ).topicId = (n.role ρ).topicId := by
      have h := role_tombstoned (n := m) ρ id json
      rw [heq] at h
      rw [← hmrole, h, Role.tombstoned_topicId]
    rw [heq] at htomb
    have hk := hnm.trans htomb
    split
    · exact hk
    split
    · exact hk.trans (cutDisposition _)
    next hcut =>
    exact hk.trans (stampPublish hP (by simpa using hcut) hfresh (hkrole ▸ genuine)
      (by simpa using hpolicy))
  · exact .refl

/-! ### Kills -/

theorem onKill {f : KillFrame} (hw : P .write)
    (hreg : ∀ ρ, n.roleAt f.topicId = some ρ → ρ < n.roles.next)
    (ha : n.topicDecision cfg f.topicId f.arrival = .handle →
      ∀ ρ, n.roleAt f.topicId = some ρ → (n.role ρ).isRoot = false → P (.admitKill ρ))
    (hf : (n.holdIntercept cfg f.topicId .kill f.arrival f.holdFwd).1 = true → P .forget)
    (hm : (n.holdIntercept cfg f.topicId .kill f.arrival f.holdFwd).1 = false → P .mint) :
    Moves cfg P n (n.onKill cfg f) := by
  unfold Node.onKill
  simp only []
  split
  · exact .refl
  · exact send _
  next hdec =>
  split
  next heq => exact holdIntercept_handled (hf (by rw [heq])) heq
  next n₁ heq =>
  have hm : P .mint := hm (by rw [heq])
  have h₁ : Moves cfg P n n₁ := holdIntercept_let heq
  have hat := holdIntercept_roles heq
  split
  · next heq => exact h₁.trans (mergeGateIntercept heq)
  next heq =>
  obtain rfl := mergeGateIntercept_false heq
  split
  · next heq => exact h₁.trans (stagingIntercept heq)
  next heq =>
  obtain rfl := stagingIntercept_false heq
  have hcloser : Moves cfg P n₁ (n₁.closerRoot cfg f.topicId false).2 := closerRoot ..
  have hsame := closerRoot_roles cfg n₁ f.topicId false
  split
  · exact (h₁.trans hcloser).trans (forwardToRoot ..)
  set n₂ := (n₁.closerRoot cfg f.topicId false).2 with hn₂
  have h₂ := h₁.trans hcloser
  split
  · next heq => exact (h₂.trans (roleOrRoot hm heq)).trans (rerouteDeclined ..)
  next ρ n₃ heq =>
  have h₃ := h₂.trans (roleOrRoot hm heq)
  split
  · exact h₃
  have hmade : ρ < n₃.roles.next := by
    refine roleOrRoot_made heq ?_
    intro ρ' hρ'
    rw [Node.roleAt, hsame.1] at hρ'
    exact lt_of_lt_of_le (hreg ρ' (by rw [← hat.1]; exact hρ')) (Moves.roles_next h₂)
  refine andPark h₃ ⟨hw, hmade, rfl, ?_⟩
  rcases roleOrRoot_some heq with ⟨hρ, rfl⟩ | ⟨hroot, -⟩
  · by_cases hroot : (n₂.role ρ).isRoot = true
    · exact .inl hroot
    refine .inr (ha hdec ρ ?_ ?_)
    · rw [← hat.1, ← hρ, Node.roleAt, Node.roleAt, hsame.1]
    · have hrole₂ : n₂.role ρ = n₁.role ρ := by rw [Node.role, Node.role, hsame.2]
      rw [← (hat.2 ρ).1, ← hrole₂]
      simpa using hroot
  · exact .inl hroot

/-- The stamp of a kill and the tombstone behind it, or nothing. -/
theorem stampKill {signer : Text} {k : Kill} (hP : P (.kill ρ cut k)) :
    Moves cfg P n (n.stampKill cfg ρ t id signer cut) := by
  unfold Node.stampKill
  split
  · next hcut =>
    set m := (n.modifyRole ρ fun r => { r with
      lastTs := max (succDouble (n.role ρ).lastTs) n.now, lastDemandAt := n.now,
      seq := succDouble (n.role ρ).seq }).note (.stamped ρ (n.role ρ)
        (max (succDouble (n.role ρ).lastTs) n.now) (succDouble (n.role ρ).seq)) with hm
    have hstamp : Moves cfg P n m := role (.stamp hcut (.inr ⟨k, hP⟩)) rfl
    have hts : (m.role ρ).lastTs = max (succDouble (n.role ρ).lastTs) n.now :=
      (congrArg Role.lastTs (Node.role_modifyRole_self n ρ fun r => { r with
        lastTs := max (succDouble (n.role ρ).lastTs) n.now, lastDemandAt := n.now,
        seq := succDouble (n.role ρ).seq })).trans rfl
    refine andSend (hstamp.trans (applyKill ?_)) _
    rintro ρ' ⟨⟩ -
    exact .inr ⟨⟨cut, k, hP⟩, le_max_right _ _, le_of_eq hts.symm⟩
  · refine .trans ?_ (cutDisposition _)
    rw [Node.modifyRole_modifyRole]
    exact quiet rfl

theorem resumeKill {k : Kill} (hP : P (.kill ρ cut k)) :
    Moves cfg P n (n.resumeKill cfg ρ cut k) := by
  unfold Node.resumeKill
  split
  · exact .refl
  split
  next id pk _ _ =>
    simp only []
    split
    · exact .refl
    split
    · next tomb htomb =>
      have hstands : Moves cfg P n (n.applyKill (some ρ) (n.role ρ).topicId
          ⟨id, some tomb.killTs, some (lc pk), tomb.seq⟩ (some cut) none).2 := by
        refine applyKill ?_
        rintro ρ' ⟨⟩ hnew
        rw [OrderedMap.has, htomb] at hnew
        cases hnew
      split
      · next heq =>
        rw [heq] at hstands
        exact hstands.trans (cutDisposition _)
      · next heq =>
        rw [heq] at hstands
        exact andSend hstands _
    · exact stampKill hP
  · exact .refl

/-! ### Stamped history -/

variable {m : Stamped}

theorem ingestStamped (hP : P (.body ρ m)) :
    Moves cfg P n (n.ingestStamped cfg ρ m cut).2 := by
  unfold Node.ingestStamped
  split
  · exact .refl
  next e hparsed =>
  split
  · exact .refl
  next hverify =>
  split
  · exact .refl
  next d htopic =>
  simp only []
  split
  · exact .refl
  next hderive =>
  have hverify : verifyEnvelope cfg.toPrimitives e = .ok ∧ e.msgId = some m.msgId := by
    simpa using hverify
  set k := n.modifyRole ρ fun r => r.noteMetric d with hk
  have hnk : Moves cfg P n k := noteMetric ρ d
  have hkrole : (k.role ρ).topicId = (n.role ρ).topicId := by
    rw [hk, Node.role_modifyRole_self, Role.noteMetric_topicId]
  split
  · exact hnk
  split
  · exact hnk
  next hnew =>
  have genuine : Genuine cfg.toPrimitives (n.role ρ).topicId m.msgId m.json e d :=
    ⟨hparsed, htopic, hverify.2, hverify.1, by simpa using hderive⟩
  have htomb : Moves cfg P k (k.tombstoned (some ρ) m.msgId m.json).2 := by
    refine tombstoned ?_
    rintro ρ' ⟨⟩ t hj
    exact .revoked (.inr ⟨m, hP, rfl⟩) hj (hkrole ▸ genuine)
  split
  · next heq =>
    rw [heq] at htomb
    exact hnk.trans htomb
  next l heq =>
  have hlrole : (l.role ρ).topicId = (n.role ρ).topicId := by
    have h := role_tombstoned (n := k) ρ m.msgId m.json
    rw [heq] at h
    rw [← hkrole, h, Role.tombstoned_topicId]
  rw [heq] at htomb
  have hl := hnk.trans htomb
  have hpush : Moves cfg P l (l.cachePush cfg ρ m (some cut)).2 :=
    cachePush (fun _ _ => .inr (fresh_tombstoned heq hnew)) fun _ => .body hP (hlrole ▸ genuine)
  split
  · next heq =>
    rw [heq] at hpush
    exact hl.trans hpush
  next heq =>
  rw [heq] at hpush
  exact ((hl.trans hpush).trans (role (.recover hP) rfl)).trans (deliverToApp ..)

/-- What follows a transfer: a handoff may give a claim up, a merge frame goes on. -/
def Follows (P : Input → Prop) : After → Prop
  | .done => True
  | .handoff _ => P .yield ∧ P .forget
  | .merge _ _ _ => P .transfer ∧ P .tally

variable {after : After}

theorem finishIngest (hP : Follows P after) (tally : Tally) :
    Moves cfg P n (n.finishIngest cfg ρ tally after) := by
  unfold Node.finishIngest
  cases after with
  | done => exact .refl
  | handoff leaver =>
    simp only []
    split
    · exact .refl
    have harrived : Moves cfg P n (n.handoffArrived cfg (n.role ρ).topicId leaver) :=
      handoffArrived hP.1 hP.2 ..
    cases leaver with
    | none => exact harrived
    | some l => exact andSend harrived _
  | merge corr y tail => exact mergeFrameDone hP.1 hP.2 ..

/-- Only a merge transfer asks for something before it is suspended. -/
theorem parkable_ingest {msgs : List Stamped} {tally : Tally}
    (hP : ∀ corr y tail, after = .merge corr y tail → P .transfer) :
    Parkable P n (.ingest ρ cut msgs tally after) := by
  cases after with
  | done | handoff leaver => exact trivial
  | merge corr y tail => exact hP corr y tail rfl

theorem Follows.transfer (hP : Follows P after) :
    ∀ corr y tail, after = .merge corr y tail → P .transfer := by
  rintro corr y tail rfl
  exact hP.1

theorem resumeIngest {msgs : List Stamped} {tally : Tally} (hP : Follows P after)
    (hb : ∀ m ms, msgs = m :: ms → P (.body ρ m)) :
    Moves cfg P n (n.resumeIngest cfg ρ cut msgs tally after) := by
  unfold Node.resumeIngest
  cases msgs with
  | nil => exact finishIngest hP tally
  | cons m ms =>
    have hm : Moves cfg P n (n.ingestStamped cfg ρ m cut).2 := ingestStamped (hb m ms rfl)
    simp only []
    split
    · exact .refl
    split
    · exact hm.trans (finishIngest hP _)
    · exact andPark hm (parkable_ingest hP.transfer)

variable {f : Transfer} {genTag : Option Gen}

theorem ingestTransfer (hP : ∀ corr y tail, after ≠ .merge corr y tail)
    (hd : ∀ d ∈ f.dels, P (.del ρ d)) : Moves cfg P n (n.ingestTransfer ρ f genTag after) := by
  unfold Node.ingestTransfer
  have hdels : Moves cfg P n
      (n.applyDels ρ f.topicId (some (n.cutCapture ρ)) genTag f.dels).2 := applyDels hd
  simp only []
  split
  · next heq =>
    rw [heq] at hdels
    exact andPark hdels (parkable_ingest fun corr y tail h => absurd h (hP corr y tail))
  next heq => rwa [heq] at hdels

theorem onReplayUp (hd : ∀ d ∈ f.dels, P (.del (n.seatOf f.topicId) d)) :
    Moves cfg P n (n.onReplayUp f) := by
  unfold Node.onReplayUp
  split
  · exact .refl
  next ρ hρ =>
  rw [Node.seatOf_some hρ] at hd
  exact ingestTransfer (by rintro _ _ _ ⟨⟩) hd

/-- A role born for a topic takes the next reference. -/
theorem becomeRoot_some (h : n.becomeRoot cfg t = (some ρ, n')) : ρ = n.roles.next := by
  unfold Node.becomeRoot Node.become at h
  split_ifs at h <;> cases h
  rfl

theorem onHandoff (hm : P .mint) (hd : ∀ d ∈ f.dels, P (.del (n.seatOf f.topicId) d)) :
    Moves cfg P n (n.onHandoff cfg f) := by
  unfold Node.onHandoff
  split
  · next ρ hρ =>
    rw [Node.seatOf_some hρ] at hd
    split
    · exact .refl
    · exact ingestTransfer (by rintro _ _ _ ⟨⟩) hd
  next hρ =>
  rw [Node.seatOf_none hρ] at hd
  split
  · exact .refl
  have hborn : Moves cfg P n (n.becomeRoot cfg f.topicId).2 := becomeRoot hm hρ
  split
  · next heq => rwa [heq] at hborn
  next ρ _ heq =>
  rw [← becomeRoot_some heq] at hd
  rw [heq] at hborn
  exact hborn.trans (ingestTransfer (by rintro _ _ _ ⟨⟩) hd)

theorem onReplicate {gen : Option Gen} {granted : Bool}
    (hd : ∀ d ∈ f.dels, P (.del (n.seatOf f.topicId) d)) :
    Moves cfg P n (n.onReplicate cfg f gen granted) := by
  unfold Node.onReplicate
  split
  · exact .refl
  split
  · next ρ hρ =>
    have hρ : n.roleAt f.topicId = some ρ := (Option.filter_eq_some_iff.mp hρ).1
    rw [Node.seatOf_some hρ] at hd
    exact ingestTransfer (by rintro _ _ _ ⟨⟩) hd
  split
  · exact .refl
  split
  · exact .refl
  cases hρ : n.roleAt f.topicId with
  | some ρ =>
    rw [Node.seatOf_some hρ] at hd
    exact (becomeBackup ..).trans (ingestTransfer (by rintro _ _ _ ⟨⟩) hd)
  | none =>
    rw [Node.seatOf_none hρ] at hd
    exact ((one (.register f.topicId false hρ)).trans (becomeBackup ..)).trans
      (ingestTransfer (by rintro _ _ _ ⟨⟩) hd)

/-! ### Deliveries -/

theorem relayBody (hP : P (.relay ρ m))
    (hnew : n.cutHolds ρ none = true → (n.role ρ).superseded m.publishTs = false →
      P (.late ρ m) ∨ (n.role ρ).Fresh m.msgId m.json) : Moves cfg P n (n.relayBody cfg ρ m) := by
  unfold Node.relayBody
  have hpush : Moves cfg P n (n.cachePush cfg ρ m none).2 :=
    cachePush hnew fun _ => .relay hP
  split
  · next k heq =>
    rw [heq] at hpush
    exact hpush.trans (role (.relayed hP) rfl)
  next k heq =>
  rw [heq] at hpush
  exact hpush.trans (role (.raiseSeq (m.seq.getD (k.role ρ).seq)) rfl)

/-- What a list of delivered items needs of the inputs. -/
def Delivers (P : Input → Prop) (ρ : Option RoleRef) (items : List DeliverItem) : Prop :=
  ∀ ρ' ∈ ρ, (∀ m, .body m ∈ items → P (.relay ρ' m) ∧ P (.check ρ' m))
    ∧ ∀ d, .del d ∈ items → P (.del ρ' d)

variable {items : List DeliverItem}

theorem Delivers.tail {ρ : Option RoleRef} {i : DeliverItem} (h : Delivers P ρ (i :: items)) :
    Delivers P ρ items := by
  rintro ρ' hρ'
  obtain ⟨hb, hd⟩ := h ρ' hρ'
  exact ⟨fun m hm => hb m (List.mem_cons_of_mem i hm), fun d hm => hd d (List.mem_cons_of_mem i hm)⟩

theorem deliverItems {ρ : Option RoleRef} (hP : Delivers P ρ items) :
    Moves cfg P n (n.deliverItems cfg t ρ genTag items) := by
  induction items generalizing n with
  | nil => exact .refl
  | cons i items ih =>
    cases i with
    | del d =>
      unfold Node.deliverItems
      refine (applyKill ?_).trans (ih hP.tail)
      rintro ρ' hρ' -
      exact .inl ((hP ρ' hρ').2 d List.mem_cons_self)
    | body m =>
      have htomb : Moves cfg P n (n.tombstoned ρ m.msgId m.json).2 := by
        refine tombstoned ?_
        rintro ρ' hρ' t hj
        exact .contradicted ((hP ρ' hρ').1 m List.mem_cons_self).2 rfl hj
      unfold Node.deliverItems
      split
      · next heq =>
        rw [heq] at htomb
        exact htomb.trans (ih hP.tail)
      next heq =>
      rw [heq] at htomb
      split
      · exact (htomb.trans (deliverToApp ..)).trans (ih hP.tail)
      next ρ' =>
      split
      · exact (htomb.trans (deliverToApp ..)).trans (ih hP.tail)
      next hnew =>
      split
      · exact andPark htomb trivial
      have hids := role_tombstoned (n := n) ρ' m.msgId m.json
      rw [heq] at hids
      have hid : m.msgId ∉ (n.role ρ').cacheIds := by
        rwa [hids, Role.tombstoned_cacheIds] at hnew
      exact ((htomb.trans (relayBody ((hP ρ' rfl).1 m List.mem_cons_self).1
        fun _ _ => .inr (fresh_tombstoned heq hid))).trans (deliverToApp ..)).trans (ih hP.tail)

/-- Telling the kind of a topic leaves the core of every role alone. -/
theorem noteDelivered (t : TopicId) (ρ : RoleRef) (m : Stamped) :
    Moves cfg P n (n.noteDelivered cfg t ρ m) := by
  unfold Node.noteDelivered
  split
  · split
    · exact noteMetric ..
    · exact .refl
  · exact .refl

theorem core_noteDelivered (n : Node) (t : TopicId) (ρ : RoleRef) (m : Stamped) :
    ((n.noteDelivered cfg t ρ m).role ρ).core = (n.role ρ).core := by
  unfold Node.noteDelivered
  split
  · split
    · rw [Node.role_modifyRole_self, Role.noteMetric_core]
    · rfl
  · rfl

/-- What a role holds and what it buried tell whether a body is fresh. -/
theorem fresh_of_core {r r' : Role} (h : r'.core = r.core) {j : Json} (hf : r.Fresh id j) :
    r'.Fresh id j := by
  have hids : r'.cacheIds = r.cacheIds := congrArg RoleCore.cacheIds h
  have htombs : r'.tombstones = r.tombstones := congrArg RoleCore.tombstones h
  rw [Role.Fresh, hids, htombs]
  exact hf

theorem cutHolds_noteDelivered (cfg : Config) (n : Node) (t : TopicId) (ρ : RoleRef) (m : Stamped)
    (cut : Option Cut) : (n.noteDelivered cfg t ρ m).cutHolds ρ cut = n.cutHolds ρ cut := by
  have hnoted (d : Descriptor) :
      (n.modifyRole ρ fun r => r.noteMetric d).cutHolds ρ cut = n.cutHolds ρ cut := by
    have hcore := Role.noteMetric_core (n.role ρ) d
    exact cutHolds_modifyRole cut ⟨congrArg RoleCore.topicId hcore, congrArg RoleCore.gate hcore,
      congrArg RoleCore.dismantling hcore, congrArg RoleCore.retired hcore,
      congrArg RoleCore.gen hcore⟩
  unfold Node.noteDelivered
  split
  · split
    · exact hnoted _
    · rfl
  · rfl

/-- The body is pushed when the handler runs on, though it is held or killed by now. -/
def Stale (cfg : Config) (n : Node) (t : TopicId) (ρ : RoleRef) (m : Stamped) : Prop :=
  n.cutHolds ρ none = true ∧ ((n.noteDelivered cfg t ρ m).role ρ).superseded m.publishTs = false
    ∧ ¬(n.role ρ).Fresh m.msgId m.json

/-- Only the roles and their table tell whether a body is stale. -/
theorem Stale.of_tables (h : Stale cfg n' t ρ m) (hroles : n'.roles = n.roles)
    (htable : n'.axonRoles = n.axonRoles) : Stale cfg n t ρ m := by
  have hrole : n'.role ρ = n.role ρ := by rw [Node.role, hroles, Node.role]
  have hnoted : (n'.noteDelivered cfg t ρ m).role ρ = (n.noteDelivered cfg t ρ m).role ρ := by
    unfold Node.noteDelivered
    split
    · split
      · rw [Node.role_modifyRole_self, Node.role_modifyRole_self, hrole]
      · exact hrole
    · exact hrole
  obtain ⟨hcut, hsup, hnew⟩ := h
  refine ⟨?_, by rwa [hnoted] at hsup, by rwa [hrole] at hnew⟩
  rw [← hcut]
  unfold Node.cutHolds Node.roleAt
  rw [hrole, htable]

theorem resumeDeliver (hm : P (.relay ρ m)) (hlate : Stale cfg n t ρ m → P (.late ρ m))
    (hP : Delivers P (some ρ) items) :
    Moves cfg P n (n.resumeDeliver cfg t ρ genTag m items) := by
  unfold Node.resumeDeliver
  refine .trans (.trans (.trans (noteDelivered t ρ m) (relayBody hm ?_)) (deliverToApp ..))
    (deliverItems hP)
  intro hcut hsup
  by_cases hf : (n.role ρ).Fresh m.msgId m.json
  · exact .inr (fresh_of_core (core_noteDelivered ..) hf)
  · exact .inl (hlate ⟨by rwa [cutHolds_noteDelivered] at hcut, hsup, hf⟩)

theorem onDeliver {upstream : Option NodeId} (hP : Delivers P (n.roleAt t) items) :
    Moves cfg P n (n.onDeliver cfg t upstream genTag items) := by
  unfold Node.onDeliver
  cases upstream with
  | none => exact deliverItems hP
  | some up =>
    have hpin : Moves cfg P n { n with upstream := n.upstream.set t up } :=
      side rfl (.same rfl rfl)
    exact hpin.trans (deliverItems hP)

/-! ### Subscriptions -/

/-- A promotion leaves the staging of the role alone. -/
theorem staging_maybePromoteRoot (n : Node) (ρ : RoleRef) (a : Arrival) :
    ((n.maybePromoteRoot cfg ρ a).role ρ).staging = (n.role ρ).staging := by
  unfold Node.maybePromoteRoot
  split
  · rfl
  unfold Node.promote
  simp only []
  split
  · rfl
  split
  · rfl
  set m := (n.liveCloserRoot cfg (n.role ρ).topicId true).2 with hm
  have hrole : m.role ρ = n.role ρ := by
    rw [Node.role, Node.role, hm, (liveCloserRoot_roles ..).2]
  split
  · rw [hrole]
  obtain ⟨w, hw⟩ := role_holdFor cfg m (n.role ρ).topicId ρ
  rw [hrole] at hw
  split
  · next heq =>
    rw [heq] at hw
    rw [hw]
  next k heq =>
  rw [heq] at hw
  have hk : (k.role ρ).staging = (n.role ρ).staging := by rw [hw]
  unfold Node.setRoot
  simp only []
  split
  · exact hk
  obtain ⟨l, r', hl, -, hr, hs, heq⟩ := ascend_spec k ρ .other
  rw [if_pos trivial, heq, ← hk, ← hs]
  exact congrArg Role.staging (Node.role_modifyRole_self l ρ fun _ => r')

theorem roleAt_maybePromoteRoot (n : Node) (ρ : RoleRef) (a : Arrival) (t : TopicId) :
    (n.maybePromoteRoot cfg ρ a).roleAt t = n.roleAt t := by
  unfold Node.maybePromoteRoot
  split
  · rfl
  · exact roleAt_promote ..

/-- The SUB may complete a pull, so what it finds open matters as it stands then: nothing before
that does more than mint an epoch. -/
theorem onSub {f : SubFrame} (hy : P .yield)
    (hf : (n.holdIntercept cfg f.topicId .sub f.arrival f.holdFwd).1 = true → P .forget)
    (hm : (n.holdIntercept cfg f.topicId .sub f.arrival f.holdFwd).1 = false → P .mint)
    (hr : (n.holdIntercept cfg f.topicId .sub f.arrival f.holdFwd).1 = false →
      ∀ ρ, n.roleAt f.topicId = some ρ → (n.role ρ).staging.isSome → (n.role ρ).isRoot = true →
      P (.remint ρ))
    (hu : ∀ m ρ b, Moves cfg (· = .mint) n m → f.merge = some b
      → m.completes cfg ρ f.subscriber f.arrival.via b →
      P (.unpin ρ)) : Moves cfg P n (n.onSub cfg f) := by
  unfold Node.onSub
  simp only []
  split
  · exact .refl
  · exact send _
  split
  next heq => exact holdIntercept_handled (hf (by rw [heq])) heq
  next n₁ hlet =>
  have hm : P .mint := hm (by rw [hlet])
  have hr := hr (by rw [hlet])
  have h₁ : Moves cfg P n n₁ := holdIntercept_let hlet
  have hat := holdIntercept_roles hlet
  split
  · next heq => exact h₁.trans (stagingIntercept heq)
  next heq =>
  obtain rfl := stagingIntercept_false heq
  have hcloser : Moves cfg P n₁ (n₁.closerRoot cfg f.topicId true).2 := closerRoot ..
  have hsame := closerRoot_roles cfg n₁ f.topicId true
  split
  · exact (h₁.trans hcloser).trans (deferToRoot hy ..)
  set n₂ := (n₁.closerRoot cfg f.topicId true).2 with hn₂
  have h₂ := h₁.trans hcloser
  split
  · exact h₂
  split
  · next heq => exact (h₂.trans (roleOrRoot hm heq)).trans (rerouteDeclined ..)
  next ρ n₃ heq =>
  have h₃ := h₂.trans (roleOrRoot hm heq)
  split
  · exact h₃
  -- a role that stages and is root already was so when the SUB came in
  have hremint : (n₃.role ρ).staging.isSome → (n₃.role ρ).isRoot = true → P (.remint ρ) := by
    intro hs hroot
    rcases roleOrRoot_some heq with ⟨hρ, rfl⟩ | ⟨-, hnone⟩
    · have hrole₂ : n₂.role ρ = n₁.role ρ := by rw [Node.role, Node.role, hsame.2]
      rw [hrole₂] at hs hroot
      refine hr ρ ?_ ((hat.2 ρ).2 ▸ hs) ((hat.2 ρ).1 ▸ hroot)
      rw [← hat.1, ← hρ, Node.roleAt, Node.roleAt, hsame.1]
    · rw [hnone] at hs
      cases hs
  have hreg₃ : n₃.roleAt f.topicId = some ρ := roleOrRoot_roleAt heq
  set n₄ := n₃.maybePromoteRoot cfg ρ f.arrival with hn₄
  have hbefore {Q : Input → Prop} (hq : Q .mint) : Moves cfg Q n n₄ := by
    exact (((holdIntercept_let hlet).trans (closerRoot ..)).trans (roleOrRoot hq heq)).trans
      (maybePromoteRoot hq ⟨_, hreg₃⟩ f.arrival)
  have h₄ : Moves cfg P n n₄ := hbefore hm
  have hreg₄ : n₄.roleAt f.topicId = some ρ := (roleAt_maybePromoteRoot ..).trans hreg₃
  split
  · split
    · exact h₄.trans (replayLocal ..)
    · exact h₄
  have hcomplete (b : MergeBlock) (hb : f.merge = some b) :
      Moves cfg P n (n₄.mergeCompleteOnSub cfg ρ f.subscriber f.arrival.via b) := by
    refine h₄.trans (mergeCompleteOnSub (fun _ => hm) (fun _ => ⟨_, hreg₄⟩) ?_ _ _ _
      (hu n₄ ρ b (hbefore rfl) hb))
    intro hroot hs
    have hs₃ : (n₃.role ρ).staging.isSome := by
      rwa [hn₄, staging_maybePromoteRoot] at hs
    refine hremint hs₃ ?_
    rwa [hn₄, Node.maybePromoteRoot, if_pos hs₃] at hroot
  have hfinish (k : Node) (hk : Moves cfg P n k) : Moves cfg P n
      (if ((k.role ρ).staging.any (·.created) && !(k.role ρ).isRoot) = true then k
      else if f.demand = true then k.modifyRole ρ fun r => { r with lastDemandAt := k.now }
      else k) := by
    split
    · exact hk
    split
    · exact hk.trans (quiet rfl)
    · exact hk
  cases hb : f.merge with
  | none => exact hfinish _ h₄
  | some b => exact hfinish _ (hcomplete b hb)

theorem onAdopt (hy : P .yield) (t : TopicId) (parent : NodeId) :
    Moves cfg P n (n.onAdopt cfg t parent) := by
  unfold Node.onAdopt
  have h : Moves cfg P n (n.adoptChild cfg t parent).2 := adoptChild hy ..
  split
  next heq => rwa [heq] at h
  next heq =>
  rw [heq] at h
  exact andSend h _

/-! ### The app -/

theorem pubsubSubscribe (t : TopicId) (since : Int) (latest : Bool) :
    Moves cfg P n (n.pubsubSubscribe t since latest) := by
  unfold Node.pubsubSubscribe
  refine andSend ?_ _
  have hjoin : Moves cfg P n { n with
      mySubscriptions := insert t n.mySubscriptions
      subSince := n.subSince.set t since
      lastSeen := n.lastSeen.set t since } := side rfl (.same rfl rfl)
  split
  · exact hjoin.trans (replayLocal ..)
  · exact hjoin

end Moves

end Axona
