import Axona.Moves.Basic

/-! # The root claim, in moves

Each function of the root claim is a sequence of moves. A lemma asks for the inputs in `P` that
the function's moves need, and for no more. -/

namespace Axona

open Library

/-! ### Writing twice -/

namespace Node

theorem modifyRole_modifyRole (n : Node) (ρ : RoleRef) (f g : Role → Role) :
    (n.modifyRole ρ f).modifyRole ρ g = n.modifyRole ρ fun r => g (f r) := by
  simp only [modifyRole, Heap.modify, Heap.put, Heap.get, Function.update_self,
    Function.update_idem]

@[simp] theorem role_modifyRole_self (n : Node) (ρ : RoleRef) (f : Role → Role) :
    (n.modifyRole ρ f).role ρ = f (n.role ρ) := Heap.get_modify_self ..

@[simp] theorem export_modifyExport_self (n : Node) (x : ExportRef) (f : Export → Export) :
    (n.modifyExport x f).exports.get x = f (n.exports.get x) := Heap.get_modify_self ..

theorem role_modifyRole (n : Node) (ρ ρ' : RoleRef) (f : Role → Role) :
    (n.modifyRole ρ f).role ρ' = if ρ' = ρ then f (n.role ρ) else n.role ρ' :=
  Heap.get_modify ..

end Node

variable {cfg : Config} {P : Input → Prop} {n n' : Node}

namespace Moves

/-! ### Single moves -/

theorem one (h : Move cfg P n n') : Moves cfg P n n' := Relation.ReflTransGen.single h

theorem side (h : n'.core = n.core) (happ : AppGrows n n') : Moves cfg P n n' :=
  one (.side h happ)

variable {ρ : RoleRef}

theorem role {r' : Role} {es : List Event} (h : RoleMove cfg P n ρ r' es)
    (hn : n' = { n.modifyRole ρ fun _ => r' with journal := es ++ n.journal }) :
    Moves cfg P n n' :=
  hn ▸ one (.role h)

variable {f : Role → Role}

/-- A quiet change of a role. -/
theorem quiet (h : (f (n.role ρ)).core = (n.role ρ).core) :
    Moves cfg P n (n.modifyRole ρ f) :=
  one (Move.role (.quiet h))

/-- A change of a role that only loses bodies and tombstones. -/
theorem shrink (h : (n.role ρ).Shrink (Changes cfg P n ρ) (f (n.role ρ))) :
    Moves cfg P n (n.modifyRole ρ f) :=
  one (Move.role (.shrink h))

theorem endRound {corr : Corr} (hP : MayEnd P ρ corr ∨ (n.role ρ).merge.gate = none)
    (hgen : (f (n.role ρ)).gen = (n.role ρ).gen ∨ P (.bind ρ))
    (h : (n.role ρ).EndsRound (f (n.role ρ)) corr) : Moves cfg P n (n.modifyRole ρ f) :=
  one (Move.endRound hP hgen h)

theorem send (f : Frame) : Moves cfg P n (n.send f) := side rfl (.same rfl rfl)

variable {m : Node}

/-- One more move at the end. -/
theorem andThen (h : Moves cfg P n m) (hm : Move cfg P m n') : Moves cfg P n n' :=
  h.tail hm

theorem andSend (h : Moves cfg P n m) (f : Frame) : Moves cfg P n (m.send f) :=
  h.tail (.side rfl (.same rfl rfl))

theorem andUpstream (h : Moves cfg P n m) (u : OrderedMap TopicId NodeId) :
    Moves cfg P n { m with upstream := u } :=
  h.tail (.side rfl (.same rfl rfl))

theorem andPark {p : Parked} (h : Moves cfg P n m) (hp : Parkable P m p) :
    Moves cfg P n (m.park p) :=
  h.tail (.park hp)

/-- A change of the merge state apart from the gate and the pins. -/
theorem quietMerge {f : MergeState → MergeState}
    (h : (f (n.role ρ).merge).gate = (n.role ρ).merge.gate)
    (hpins : (f (n.role ρ).merge).pins = (n.role ρ).merge.pins) :
    Moves cfg P n (n.modifyMerge ρ f) := by
  refine quiet ?_
  simp only [Role.core, h, hpins]

/-- A change of a role, one round after the other, each of which keeps what the next one needs. -/
theorem modifyRole_foldl {α : Type*} {f : Role → α → Role} {I : Role → Prop}
    (hI : ∀ r x, I r → I (f r x))
    (hf : ∀ (n : Node) (x : α), I (n.role ρ) → Moves cfg P n (n.modifyRole ρ fun r => f r x))
    (n : Node) (hn : I (n.role ρ)) (xs : List α) :
    Moves cfg P n (n.modifyRole ρ fun r => xs.foldl f r) := by
  induction xs generalizing n with
  | nil => exact quiet rfl
  | cons x xs ih =>
    have hx : I ((n.modifyRole ρ fun r => f r x).role ρ) := by
      rw [Node.role_modifyRole_self]
      exact hI _ x hn
    have h := (hf n x hn).trans (ih _ hx)
    rwa [Node.modifyRole_modifyRole] at h

/-! ### Evidence -/

theorem rootTombstoned (t : TopicId) (root : NodeId) (e : Option Int) :
    Moves cfg P n (n.rootTombstoned t root e).2 := by
  unfold Node.rootTombstoned
  cases h : n.rootTombstones.get t with
  | none => exact .refl
  | some c =>
    by_cases hexp : c.exp ≤ n.now
    · simp only [hexp, if_true]
      exact one (.lapse h hexp)
    · simp only [hexp, if_false]
      exact .refl

theorem liveCloserRoot (t : TopicId) (rr : Bool) : Moves cfg P n (n.liveCloserRoot cfg t rr).2 := by
  unfold Node.liveCloserRoot
  cases n.rootBeacons.get t with
  | none => exact .refl
  | some b =>
    have h : Moves cfg P n (n.rootTombstoned t b.root b.epoch).2 := rootTombstoned ..
    simp only []
    split_ifs <;> first | exact .refl | exact h

/-! ### The flips -/

theorem retireBackup (t : TopicId) (ρ : RoleRef) : Moves cfg P n (n.retireBackup t ρ) :=
  (quiet (f := fun r => { r with backupOf := none }) rfl).trans (side rfl (.same rfl rfl))

/-- What an ascent makes of a node, but for what is outside the core. -/
theorem ascend_spec (n : Node) (ρ : RoleRef) (why : Why) :
    ∃ (m : Node) (r' : Role), m.core = n.core ∧ AppGrows n m ∧ r'.core = { (n.role ρ).core with
        isRoot := true, epoch := succDouble (n.knownEpoch (n.role ρ).topicId) }
      ∧ r'.staging = (n.role ρ).staging
      ∧ n.ascend ρ why = { m.modifyRole ρ fun _ => r' with journal :=
          [.transition ρ (n.role ρ) true why n.world,
            .minted (n.role ρ).topicId (succDouble (n.knownEpoch (n.role ρ).topicId))]
          ++ m.journal } := by
  unfold Node.ascend
  by_cases hb : (n.role ρ).backupOf.isSome
  · refine ⟨{ n with
        stepDownHold := n.stepDownHold.delete (n.role ρ).topicId
        backupTopics := n.backupTopics.erase (n.role ρ).topicId },
      { n.role ρ with
        backupOf := none, isRoot := true
        epoch := succDouble (n.knownEpoch (n.role ρ).topicId) }, rfl, .same rfl rfl, rfl, rfl, ?_⟩
    simp only [hb, if_true, Node.retireBackup]
    exact congrArg (fun m : Node => { m with
        backupTopics := n.backupTopics.erase (n.role ρ).topicId
        stepDownHold := n.stepDownHold.delete (n.role ρ).topicId
        journal := [Event.transition ρ (n.role ρ) true why n.world,
            Event.minted (n.role ρ).topicId (succDouble (n.knownEpoch (n.role ρ).topicId))]
          ++ n.journal }) (Node.modifyRole_modifyRole n ρ (fun r => { r with backupOf := none })
        fun r => { r with
          epoch := succDouble (n.knownEpoch (n.role ρ).topicId), isRoot := true })
  · exact ⟨{ n with stepDownHold := n.stepDownHold.delete (n.role ρ).topicId },
      { n.role ρ with isRoot := true, epoch := succDouble (n.knownEpoch (n.role ρ).topicId) },
      rfl, .same rfl rfl, rfl, rfl, by simp only [hb]; rfl⟩

/-- A role looks the same in two nodes with one core. -/
theorem role_of_core (h : m.core = n.core) (ρ : RoleRef) : m.role ρ = n.role ρ := by
  have h : m.roles = n.roles := congrArg NodeCore.roles h
  rw [Node.role, Node.role, h]

theorem knownEpoch_of_core (h : m.core = n.core) (t : TopicId) :
    m.knownEpoch t = n.knownEpoch t := by
  obtain ⟨⟩ := m
  obtain ⟨⟩ := n
  simp only [Node.core, NodeCore.mk.injEq] at h
  obtain ⟨rfl, rfl, rfl, rfl, rfl, rfl, rfl, rfl, rfl, rfl, rfl⟩ := h
  rfl

theorem ascend (hP : P .mint) (hroot : (n.role ρ).isRoot = false) (why : Why)
    (hat : ∃ t, n.roleAt t = some ρ) : Moves cfg P n (n.ascend ρ why) := by
  obtain ⟨m, r', hm, happ, hr, -, heq⟩ := ascend_spec n ρ why
  have hrole := role_of_core hm ρ
  have hworld : m.world = n.world := congrArg NodeCore.world hm
  rw [heq]
  refine (side hm happ).trans (one ?_)
  have hroles : m.axonRoles = n.axonRoles := congrArg NodeCore.axonRoles hm
  have h : RoleMove cfg P m ρ r' _ :=
    .ascend hP (by rw [hrole]; exact hroot) why (by rw [hrole, knownEpoch_of_core hm]; exact hr)
      (by simpa only [Node.roleAt, hroles] using hat)
  rw [hrole, hworld, knownEpoch_of_core hm] at h
  exact .role h

/-- A root without custody, or one that the merge does not hold back, gives its claim up. -/
theorem descend {why : Why} (hP : P .yield) (hroot : (n.role ρ).isRoot = true)
    (hwhy : ∀ corr m, why ≠ .mergeStep5 corr m)
    (hfree : cfg.mergeCapable = false ∨ (n.role ρ).hasCustody n.now = false
      ∨ cfg.cutover = false) : Moves cfg P n (n.descend ρ why) :=
  one (Move.role (.descend hP hroot why hwhy hfree))

theorem setRoot_true (hP : P .mint) (why : Why) (token : Option Nat)
    (hat : (n.role ρ).isRoot = false → ∃ t, n.roleAt t = some ρ) :
    Moves cfg P n (n.setRoot cfg ρ true why token).2 := by
  unfold Node.setRoot
  by_cases hr : (n.role ρ).isRoot = true
  · simp only [hr, if_true]
    exact .refl
  · have hroot : (n.role ρ).isRoot = false := by simpa using hr
    simp only [hr, if_true]
    exact ascend hP hroot why (hat hroot)

/-- Without a token nothing but a claim without custody is given up; with one a claim under
custody goes too, outside the cutover. -/
theorem setRoot_false {why : Why} {token : Option Nat} (hP : P .yield)
    (hwhy : ∀ corr m, why ≠ .mergeStep5 corr m) (htok : token = none ∨ cfg.cutover = false) :
    Moves cfg P n (n.setRoot cfg ρ false why token).2 := by
  unfold Node.setRoot
  by_cases hr : (n.role ρ).isRoot = false
  · simp only [hr, if_true]
    exact .refl
  have hroot : (n.role ρ).isRoot = true := by simpa using hr
  simp only [hroot, Bool.true_eq_false, Bool.false_eq_true, if_false]
  split
  · split
    · exact .refl
    next hmatch =>
    have hfree : cfg.cutover = false := by
      rcases htok with rfl | h
      · cases ht : (n.role ρ).merge.releaseToken <;> simp [ht] at hmatch
      · exact h
    refine (quietMerge rfl rfl).trans (descend hP ?_ hwhy (.inr (.inr hfree)))
    rw [Node.modifyMerge, Node.role_modifyRole_self]
    exact hroot
  next hc =>
  refine descend hP hroot hwhy ?_
  cases hm : cfg.mergeCapable <;> simp_all

/-! ### Births and yields -/

variable {t : TopicId}

theorem become (hP : P .mint) (hfree : n.roleAt t = none) :
    Moves cfg P n (n.become cfg t).2 := by
  unfold Node.become
  by_cases h : cfg.neverRoot = true
  · simp only [h, if_true]
    exact .refl
  · simp only [h]
    exact one (.born t hP hfree)

theorem become_roleAt (h : n.become cfg t = (some ρ, n')) : n'.roleAt t = some ρ := by
  unfold Node.become at h
  split_ifs at h
  · cases h
  · cases h
    exact (OrderedMap.get_set ..).trans (if_pos rfl)

theorem becomeRoot (hP : P .mint) (hfree : n.roleAt t = none) :
    Moves cfg P n (n.becomeRoot cfg t).2 := by
  unfold Node.becomeRoot
  split
  · exact become hP hfree
  · exact .refl

theorem demote {why : Why} {token : Option Nat} (hP : P .yield)
    (hwhy : ∀ corr m, why ≠ .mergeStep5 corr m) (htok : token = none ∨ cfg.cutover = false)
    (t : TopicId) (dest : NodeId) (always : Bool) :
    Moves cfg P n (n.demote cfg t dest why token always).2 := by
  unfold Node.demote
  cases hρ : n.roleAt t with
  | none => exact .refl
  | some ρ =>
    have h : Moves cfg P n (n.setRoot cfg ρ false why token).2 := setRoot_false hP hwhy htok
    simp only []
    split
    · exact .refl
    split
    · exact .refl
    split
    next heq => rwa [heq] at h
    next heq =>
    rw [heq] at h
    refine h.trans (side ?_ (.same ?_ ?_))
    all_goals
      by_cases hold : (always || decide (distance t dest < distance t cfg.nodeId)) = true
      · simp only [hold, if_true]
        rfl
      · simp only [hold]
        rfl

/-! ### The hold and the claims -/

theorem holdFor (t : TopicId) : Moves cfg P n (n.holdFor cfg t).2 := by
  unfold Node.holdFor
  cases n.stepDownHold.get t with
  | none => exact .refl
  | some h =>
    simp only []
    split_ifs
    · have hside : Moves cfg P n { n with stepDownHold := n.stepDownHold.delete t } :=
        side rfl (.same rfl rfl)
      split
      · exact hside
      · refine hside.trans (quietMerge ?_ ?_) <;> split_ifs <;> rfl
    · exact .refl

theorem holdTarget (t : TopicId) (rr : Bool) : Moves cfg P n (n.holdTarget cfg t rr).2 := by
  unfold Node.holdTarget
  have h : Moves cfg P n (n.holdFor cfg t).2 := holdFor t
  split
  next heq => rwa [heq] at h
  next heq =>
  rw [heq] at h
  simp only []
  split_ifs
  · exact h
  · exact h
  · exact h.trans (liveCloserRoot t rr)
  · exact h.trans (liveCloserRoot t rr)

theorem roleAt_liveCloserRoot (t t' : TopicId) (rr : Bool) :
    (n.liveCloserRoot cfg t rr).2.roleAt t' = n.roleAt t' := by
  unfold Node.liveCloserRoot
  cases n.rootBeacons.get t with
  | none => rfl
  | some b =>
    have hconvicted : (n.rootTombstoned t b.root b.epoch).2.roleAt t' = n.roleAt t' := by
      unfold Node.rootTombstoned
      split
      · rfl
      · split <;> rfl
    simp only []
    split_ifs <;> first | rfl | exact hconvicted

theorem roleAt_holdFor (t t' : TopicId) : (n.holdFor cfg t).2.roleAt t' = n.roleAt t' := by
  unfold Node.holdFor
  split
  · rfl
  split
  · simp only []
    split <;> rfl
  · rfl

theorem promote (hP : P .mint) (via : List NodeId) (isTerminal : Bool)
    (hat : ∃ t, n.roleAt t = some ρ) : Moves cfg P n (n.promote cfg ρ via isTerminal) := by
  unfold Node.promote
  simp only []
  split_ifs
  · exact .refl
  · exact .refl
  · exact liveCloserRoot _ true
  · have hl : Moves cfg P n (n.liveCloserRoot cfg (n.role ρ).topicId true).2 :=
      liveCloserRoot _ true
    have hh : Moves cfg P (n.liveCloserRoot cfg (n.role ρ).topicId true).2
        ((n.liveCloserRoot cfg (n.role ρ).topicId true).2.holdFor cfg (n.role ρ).topicId).2 :=
      holdFor _
    split
    · next heq =>
      rw [heq] at hh
      exact hl.trans hh
    next m heq =>
    obtain ⟨t, hat⟩ := hat
    have hheld : ((n.liveCloserRoot cfg (n.role ρ).topicId true).2.holdFor cfg
        (n.role ρ).topicId).2.roleAt t = _ := roleAt_holdFor ..
    rw [heq] at hh hheld
    have hreg : m.roleAt t = some ρ := (hheld.trans (roleAt_liveCloserRoot ..)).trans hat
    exact ((hl.trans hh).trans (setRoot_true hP .other none fun _ => ⟨t, hreg⟩)).trans
      (side rfl (.same rfl rfl))

theorem roleAt_setRoot_true (ρ : RoleRef) (why : Why) (token : Option Nat) (t : TopicId) :
    (n.setRoot cfg ρ true why token).2.roleAt t = n.roleAt t := by
  unfold Node.setRoot
  by_cases hr : (n.role ρ).isRoot = true
  · simp only [hr, if_true]
  obtain ⟨m, r', hm, -, -, -, heq⟩ := ascend_spec n ρ why
  have hroles : m.axonRoles = n.axonRoles := congrArg NodeCore.axonRoles hm
  simp only [hr, if_true]
  rw [heq]
  exact congrArg (fun roles : OrderedMap TopicId RoleRef => roles.get t) hroles

theorem roleAt_promote (ρ : RoleRef) (via : List NodeId) (isTerminal : Bool) (t : TopicId) :
    (n.promote cfg ρ via isTerminal).roleAt t = n.roleAt t := by
  unfold Node.promote
  simp only []
  have hl : (n.liveCloserRoot cfg (n.role ρ).topicId true).2.roleAt t = n.roleAt t :=
    roleAt_liveCloserRoot ..
  split_ifs
  · rfl
  · rfl
  · exact hl
  · have hh : ((n.liveCloserRoot cfg (n.role ρ).topicId true).2.holdFor cfg
        (n.role ρ).topicId).2.roleAt t = _ := roleAt_holdFor ..
    split
    · next heq =>
      rw [heq] at hh
      exact hh.trans hl
    next heq =>
    rw [heq] at hh
    exact (roleAt_setRoot_true ..).trans (hh.trans hl)

theorem claimReachable (hP : P .mint) (t : TopicId) : Moves cfg P n (n.claimReachable cfg t) := by
  unfold Node.claimReachable
  have hh : Moves cfg P n (n.holdFor cfg t).2 := holdFor t
  split
  next heq => rwa [heq] at hh
  next m heq =>
  rw [heq] at hh
  cases hρ : m.roleAt t with
  | some ρ =>
    exact (hh.trans (setRoot_true hP .other none fun _ => ⟨t, hρ⟩)).trans (side rfl (.same rfl rfl))
  | none =>
    have hb : Moves cfg P m (m.become cfg t).2 := become hP hρ
    simp only []
    split
    · exact hh.trans hb
    next ρ heq =>
    have hborn : (m.become cfg t).2.roleAt t = some ρ := become_roleAt (Prod.ext heq rfl)
    exact ((hh.trans hb).trans (setRoot_true hP .other none fun _ => ⟨t, hborn⟩)).trans
      (side rfl (.same rfl rfl))

theorem adoptChild (hP : P .yield) (t : TopicId) (parent : NodeId) :
    Moves cfg P n (n.adoptChild cfg t parent).2 := by
  unfold Node.adoptChild
  have hset (m : Node) (ρ : RoleRef) : Moves cfg P m (m.setRoot cfg ρ false .other none).2 :=
    setRoot_false hP (by rintro corr rec ⟨⟩) (.inl rfl)
  cases hρ : n.roleAt t with
  | some ρ =>
    have h := hset n ρ
    simp only []
    split
    next heq => rwa [heq] at h
    next heq =>
    rw [heq] at h
    exact h.trans (side rfl (.same rfl rfl))
  | none =>
    have hreg : Moves cfg P n (n.register (makeRole t false n.now)).1 := one (.register t false hρ)
    have h := hset (n.register (makeRole t false n.now)).1 (n.register (makeRole t false n.now)).2
    simp only []
    split
    · next heq =>
      rw [heq] at h
      exact hreg.trans h
    next heq =>
    rw [heq] at h
    exact (hreg.trans h).trans (side rfl (.same rfl rfl))

theorem becomeBackup (t : TopicId) (ρ : RoleRef) (principal : NodeId) (gen : Option Gen) :
    Moves cfg P n (n.becomeBackup t ρ principal gen) :=
  (quiet (f := fun r => { r with
    backupOf := some principal, standbyGen := gen.elim r.standbyGen some }) rfl).trans
    (side rfl (.same rfl rfl))

end Moves

end Axona
