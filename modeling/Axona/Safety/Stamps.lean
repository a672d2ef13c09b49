import Axona.Moves.Step

/-! # The stamps of a topic

A publish or a kill waits for a signature check between its admission and its stamp. The stamp is
then given in one piece: either the write ends without one, or exactly one entry is written that
says which role it was given by and from which counters. Both statements below are read off that:
who stamps, and above what. -/

namespace Axona

open Library

variable {cfg : Config} {P : Input → Prop} {n n' : Node}

/-! ### Writes that wait -/

/-- The role and the cut that a suspended write was admitted under. -/
def Parked.write : Parked → Option (RoleRef × Cut)
  | .publish ρ cut _ | .kill ρ cut _ => some (ρ, cut)
  | _ => none

/-- The write that the act runs on with. -/
def Node.writeOf (n : Node) : Act → Option (RoleRef × Cut)
  | .resume k .checked => (n.parked.get k).bind Parked.write
  | _ => none

/-- What the stamp of a role reads of it. -/
structure Role.SameSeat (r r' : Role) : Prop where
  isRoot : r'.isRoot = r.isRoot
  dismantling : r'.dismantling = r.dismantling
  retired : r'.retired = r.retired
  gen : r'.gen = r.gen
  lastTs : r'.lastTs = r.lastTs
  seq : r'.seq = r.seq

theorem Role.SameSeat.refl (r : Role) : r.SameSeat r := ⟨rfl, rfl, rfl, rfl, rfl, rfl⟩

theorem Role.sameSeat_of_core {r r' : Role} (h : r'.core = r.core) : r.SameSeat r' :=
  ⟨congrArg RoleCore.isRoot h, congrArg RoleCore.dismantling h, congrArg RoleCore.retired h,
    congrArg RoleCore.gen h, congrArg RoleCore.lastTs h, congrArg RoleCore.seq h⟩

theorem Role.sameSeat_tombstoned (r : Role) (id : MsgId) (json : Json) :
    r.SameSeat (r.tombstoned id json).2 := by
  have h : r.Shrink (fun _ _ _ => True) (r.tombstoned id json).2 :=
    Role.tombstoned_shrink fun _ _ => trivial
  exact ⟨congrArg RoleCore.isRoot h.rest, congrArg RoleCore.dismantling h.rest,
    congrArg RoleCore.retired h.rest, congrArg RoleCore.gen h.rest, congrArg RoleCore.lastTs h.rest,
    congrArg RoleCore.seq h.rest⟩

theorem Role.SameSeat.trans {r r' r'' : Role} (h : r.SameSeat r') (h' : r'.SameSeat r'') :
    r.SameSeat r'' :=
  ⟨h'.isRoot.trans h.isRoot, h'.dismantling.trans h.dismantling, h'.retired.trans h.retired,
    h'.gen.trans h.gen, h'.lastTs.trans h.lastTs, h'.seq.trans h.seq⟩

/-- The role would take a write captured under the cut: it is of that generation still, and its end
has not begun. -/
def Role.Admits (r : Role) (cut : Cut) : Prop :=
  r.dismantling = none ∧ r.retired = false ∧ toInt32 r.gen = cut.gen0

theorem Role.SameSeat.admits {r r' : Role} {cut : Cut} (h : r.SameSeat r') (ha : r'.Admits cut) :
    r.Admits cut :=
  ⟨h.dismantling.symm.trans ha.1, h.retired.symm.trans ha.2.1, h.gen ▸ ha.2.2⟩

/-- Is the entry a stamp? -/
def Event.isStamp : Event → Bool
  | .stamped _ _ _ _ => true
  | _ => false

/-- What was written into the journal holds no stamp. -/
def Node.Stampless (n n' : Node) : Prop :=
  ∃ es, n'.journal = es ++ n.journal ∧ ∀ ev ∈ es, ev.isStamp = false

/-- One stamp was given, by the role as it stood, and after it nothing was stamped. -/
def Node.Stamps (n n' : Node) (ρ : RoleRef) (cut : Cut) : Prop :=
  ∃ es before, n'.journal = es ++ .stamped ρ before (n.stampTs ρ) (succDouble (n.role ρ).seq)
      :: n.journal
    ∧ (∀ ev ∈ es, ev.isStamp = false) ∧ (n.role ρ).SameSeat before
    ∧ before.dismantling = none ∧ (n.role ρ).Admits cut

namespace Node.Stampless

theorem refl (n : Node) : n.Stampless n := ⟨[], rfl, by rintro ev ⟨⟩⟩

theorem of_eq (h : n'.journal = n.journal) : n.Stampless n' := ⟨[], h, by rintro ev ⟨⟩⟩

theorem trans {n'' : Node} (h : n.Stampless n') (h' : n'.Stampless n'') : n.Stampless n'' := by
  obtain ⟨es, hj, hes⟩ := h
  obtain ⟨es', hj', hes'⟩ := h'
  refine ⟨es' ++ es, by rw [hj', hj, List.append_assoc], ?_⟩
  intro ev hev
  rcases List.mem_append.mp hev with hev | hev
  · exact hes' ev hev
  · exact hes ev hev

theorem one {ev : Event} (hj : n'.journal = ev :: n.journal) (hev : ev.isStamp = false) :
    n.Stampless n' := by
  refine ⟨[ev], hj, ?_⟩
  intro ev' h
  rwa [List.mem_singleton.mp h]

end Node.Stampless

/-- Only a suspended publish or kill stamps. -/
theorem RoleMove.stampless {ρ : RoleRef} {r' : Role} {es : List Event}
    (h : RoleMove cfg P n ρ r' es)
    (hP : ∀ ρ cut, (∀ json, ¬P (.publish ρ cut json)) ∧ ∀ k, ¬P (.kill ρ cut k)) :
    ∀ ev ∈ es, ev.isStamp = false := by
  cases h with
  | @stamp cut _ hstamp =>
    exfalso
    rcases hstamp with ⟨json, h⟩ | ⟨k, h⟩
    · exact (hP ρ cut).1 json h
    · exact (hP ρ cut).2 k h
  | _ => simp [Event.isStamp]

theorem Moves.stampless (h : Moves cfg P n n')
    (hP : ∀ ρ cut, (∀ json, ¬P (.publish ρ cut json)) ∧ ∀ k, ¬P (.kill ρ cut k)) :
    n.Stampless n' := by
  refine moves_climb (P := Node.Stampless) Node.Stampless.refl Node.Stampless.trans ?_ h
  intro m m' hmove
  obtain ⟨es, hj, hnew⟩ := hmove.journal
  refine ⟨es, hj, ?_⟩
  intro ev hev
  cases hnew ev hev with
  | role _ hrole hmem => exact hrole.stampless hP ev hmem
  | _ => rfl

/-! ### A write that runs on -/

namespace Node

/-- What a commit under a cut finds. -/
theorem cutHolds_some {n : Node} {ρ : RoleRef} {cut : Cut} (h : n.cutHolds ρ (some cut) = true) :
    (n.role ρ).Admits cut := by
  unfold cutHolds at h
  simp only [] at h
  split at h
  · cases h
  split at h
  · cases h
  next hd =>
  split at h
  · cases h
  next hr =>
  split at h
  · cases h
  simp only [Bool.and_eq_true, decide_eq_true_eq] at h
  exact ⟨by simpa using hd, by simpa using hr, h.2⟩

section

variable (n : Node)

theorem deliverToApp_stampless (t : TopicId) (id : MsgId) (ts : Int) :
    n.Stampless (n.deliverToApp t id ts) :=
  @Moves.stampless sampleConfig (fun _ => False) n _ (Moves.deliverToApp t id ts)
    fun _ _ => ⟨fun _ h => h, fun _ h => h⟩

theorem cutDisposition_stampless (t : TopicId) : n.Stampless (n.cutDisposition cfg t) :=
  @Moves.stampless cfg (fun _ => False) n _ (Moves.cutDisposition t)
    fun _ _ => ⟨fun _ h => h, fun _ h => h⟩

variable (ρ : RoleRef)

theorem applyKill_stampless (t : TopicId) (d : Del) (cut : Option Cut)
    (g : Option Gen) : n.Stampless (n.applyKill (some ρ) t d cut g).2 := by
  have hP (ρ' : RoleRef) (hρ : ρ' ∈ some ρ) (_ : (n.role ρ').tombstones.has d.msgId = false) :
      (Input.del ρ' d = .del ρ d) ∨ ((∃ cut k, Input.kill ρ' cut k = .del ρ d)
        ∧ n.now ≤ d.killTs.getD n.now ∧ d.killTs.getD n.now ≤ (n.role ρ').lastTs) := by
    cases hρ
    exact .inl rfl
  have hmoves : Moves sampleConfig (fun i => i = .del ρ d) n (n.applyKill (some ρ) t d cut g).2 :=
    Moves.applyKill hP
  refine hmoves.stampless fun _ _ => ⟨?_, ?_⟩
  · rintro json ⟨⟩
  · rintro k ⟨⟩

theorem cachePush_stampless (e : Entry) (cut : Option Cut) :
    n.Stampless (n.cachePush cfg ρ e cut).2 := by
  unfold cachePush
  split
  · exact .one rfl rfl
  · exact .refl n

theorem answerStamped_stampless (ρ : RoleRef) (id : MsgId) :
    n.Stampless (n.answerStamped cfg ρ id) := by
  unfold answerStamped
  split
  · exact .of_eq rfl
  · exact .of_eq rfl

/-- The commit of a publish: its stamp, and nothing else that is stamped. -/
theorem stampPublish_journal (id : MsgId) (json : Json) (cut : Cut) :
    ∃ es, (n.stampPublish cfg ρ id json cut).journal
        = es ++ .stamped ρ (n.role ρ) (n.stampTs ρ) (succDouble (n.role ρ).seq) :: n.journal
      ∧ ∀ ev ∈ es, ev.isStamp = false := by
  let m : Node := (n.modifyRole ρ fun r => { r with
    lastTs := n.stampTs ρ, lastDemandAt := n.now, seq := succDouble (n.role ρ).seq }).note
    (.stamped ρ (n.role ρ) (n.stampTs ρ) (succDouble (n.role ρ).seq))
  let k : Node := (m.cachePush cfg ρ ⟨id, n.stampTs ρ, json, some (succDouble (n.role ρ).seq)⟩
    (some cut)).2.modifyMerge ρ fun s => { s with reserve := s.reserve.map fun s =>
      ⟨s.entries - 1, s.bytes - (json.length + 80)⟩ }
  have hk : m.Stampless k := (cachePush_stampless m ρ _ _).trans (.of_eq rfl)
  show m.Stampless ((k.deliverToApp (n.role ρ).topicId id (n.stampTs ρ)).answerStamped cfg ρ id)
  exact hk.trans ((deliverToApp_stampless k ..).trans (answerStamped_stampless ..))

/-- The commit of a first kill: its stamp and nothing else, or, refused at the cut, no stamp. -/
theorem stampKill_stamps (t : TopicId) (id : MsgId) (signer : Text)
    (cut : Cut) : n.Stampless (n.stampKill cfg ρ t id signer cut)
      ∨ n.Stamps (n.stampKill cfg ρ t id signer cut) ρ cut := by
  unfold stampKill
  split
  · next hcut =>
    have hadmits := cutHolds_some hcut
    set m : Node := (n.modifyRole ρ fun r => { r with
      lastTs := max (succDouble (n.role ρ).lastTs) n.now, lastDemandAt := n.now,
      seq := succDouble (n.role ρ).seq }).note (.stamped ρ (n.role ρ)
        (max (succDouble (n.role ρ).lastTs) n.now) (succDouble (n.role ρ).seq)) with hm
    obtain ⟨es, hj, hes⟩ := applyKill_stampless m ρ t
      ⟨id, some (max (succDouble (n.role ρ).lastTs) n.now), some signer,
        some (succDouble (n.role ρ).seq)⟩ (some cut) none
    exact .inr ⟨es, n.role ρ, hj, hes, .refl _, hadmits.1, hadmits⟩
  · exact .inl (.trans (.of_eq rfl) (cutDisposition_stampless _ t))

theorem resumeKill_stamps (cut : Cut) (k : Kill) :
    n.Stampless (n.resumeKill cfg ρ cut k) ∨ n.Stamps (n.resumeKill cfg ρ cut k) ρ cut := by
  unfold resumeKill
  split
  · exact .inl (.refl n)
  split
  next id pk _ _ =>
    simp only []
    split
    · exact .inl (.refl n)
    split
    · next tomb _ =>
      -- a kill that stands is applied under its own stamp
      have happly := applyKill_stampless n ρ (n.role ρ).topicId
        ⟨id, some tomb.killTs, some (lc pk), tomb.seq⟩ (some cut) none
      split
      · next heq =>
        rw [heq] at happly
        exact .inl (happly.trans (cutDisposition_stampless _ _))
      · next heq =>
        rw [heq] at happly
        exact .inl (happly.trans (.of_eq rfl))
    · exact stampKill_stamps n ρ _ id (lc pk) cut
  · exact .inl (.refl n)

theorem resumePublish_stamps (cut : Cut) (json : Json) :
    n.Stampless (n.resumePublish cfg ρ cut json) ∨ n.Stamps (n.resumePublish cfg ρ cut json) ρ cut
      := by
  unfold resumePublish
  split
  · exact .inl (.refl n)
  split
  · exact .inl (.refl n)
  split
  · exact .inl (.refl n)
  split
  next d id _ _ =>
    simp only []
    split
    · exact .inl (.refl n)
    split
    · exact .inl (.refl n)
    set m := n.modifyRole ρ fun r => r.noteMetric d with hm
    have hmrole : (n.role ρ).SameSeat (m.role ρ) := by
      rw [hm, role_modifyRole_self]
      exact Role.sameSeat_of_core (Role.noteMetric_core _ d)
    split
    · exact .inl (.of_eq rfl)
    have hj : (m.tombstoned (some ρ) id json).2.journal = n.journal := rfl
    have hnow : (m.tombstoned (some ρ) id json).2.now = n.now := rfl
    have hrole : (m.role ρ).SameSeat ((m.tombstoned (some ρ) id json).2.role ρ) := by
      rw [Moves.role_tombstoned]
      exact Role.sameSeat_tombstoned _ id json
    split
    · next heq =>
      rw [heq] at hj
      exact .inl (.of_eq hj)
    next k heq =>
    rw [heq] at hj hnow hrole
    have hseat := hmrole.trans hrole
    split
    · exact .inl (.of_eq hj)
    split
    · exact .inl (.trans (.of_eq hj) (cutDisposition_stampless k _))
    next hcut =>
    have hadmits := cutHolds_some (by simpa using hcut : k.cutHolds ρ (some cut) = true)
    obtain ⟨es, hes, hno⟩ := @stampPublish_journal cfg k ρ id json cut
    refine .inr ⟨es, k.role ρ, ?_, hno, hseat, hadmits.1, hseat.admits hadmits⟩
    rw [hes, hj]
    have hts : k.stampTs ρ = n.stampTs ρ := by rw [stampTs, stampTs, hseat.lastTs, hnow]
    rw [hts, hseat.seq]
  · exact .inl (.refl n)

end

theorem writeOf_some {n : Node} {a : Act} {ρ : RoleRef} {cut : Cut}
    (h : n.writeOf a = some (ρ, cut)) :
    ∃ k p, a = .resume k .checked ∧ n.parked.get k = some p ∧ p.write = some (ρ, cut) := by
  unfold writeOf at h
  split at h
  · next k =>
    obtain ⟨p, hp, hw⟩ := Option.bind_eq_some_iff.mp h
    exact ⟨k, p, rfl, hp, hw⟩
  · cases h

theorem writeOf_of_takes {n : Node} {a : Act} {i : Input} {ρ : RoleRef} {cut : Cut}
    (h : Takes cfg n a i) (hi : (∃ json, i = .publish ρ cut json) ∨ ∃ k, i = .kill ρ cut k) :
    n.writeOf a = some (ρ, cut) := by
  rcases hi with ⟨json, rfl⟩ | ⟨k, rfl⟩
  · cases h with
    | publish h => rw [writeOf, h]; rfl
  · cases h with
    | kill h => rw [writeOf, h]; rfl

/-- **The stamp of a step.** A step gives no stamp, or it runs on with a write, whose role gives
one from its counters. -/
theorem step_stamps {n : Node} (hwf : n.Wf) (a : World × Act) :
    n.Stampless (n.step cfg a) ∨ ∃ ρ cut, n.writeOf a.2 = some (ρ, cut)
      ∧ { n with world := a.1 }.Stamps (n.step cfg a) ρ cut := by
  cases hw : n.writeOf a.2 with
  | none =>
    left
    refine step_rule (I := n.Stampless) hwf ?_ (.of_eq rfl)
    intro P m m' hP _ _ hmove hm
    refine hm.trans (@Moves.stampless cfg P m m' (.single hmove) fun ρ cut => ⟨?_, ?_⟩)
    · intro json h
      rw [writeOf_of_takes (hP _ h) (.inl ⟨json, rfl⟩)] at hw
      cases hw
    · intro k h
      rw [writeOf_of_takes (hP _ h) (.inr ⟨k, rfl⟩)] at hw
      cases hw
  | some w =>
    obtain ⟨ρ, cut⟩ := w
    obtain ⟨w, a⟩ := a
    obtain ⟨k, p, rfl, hp, hwrite⟩ := writeOf_some hw
    let m : Node := { n with world := w, parked := n.parked.delete k }
    have hstep : n.step cfg (w, .resume k .checked) = m.continueWith cfg p .checked := by
      show Node.resume cfg { n with world := w } k .checked = _
      unfold Node.resume
      rw [hp]
    rw [hstep]
    -- the handler goes on where it was suspended
    cases p with
    | publish ρ' cut' json =>
      cases hwrite
      rcases @resumePublish_stamps cfg m ρ cut json with h | h
      · exact .inl h
      · exact .inr ⟨ρ, cut, rfl, h⟩
    | kill ρ' cut' kl =>
      cases hwrite
      rcases @resumeKill_stamps cfg m ρ cut kl with h | h
      · exact .inl h
      · exact .inr ⟨ρ, cut, rfl, h⟩
    | _ => cases hwrite

end Node

/-! ### Who stamps -/

/-- A kill that ends at this node finds a root, or no role. -/
def Node.KillAtRoot (cfg : Config) (n : Node) : Act → Prop
  | .kill f => n.topicDecision cfg f.topicId f.arrival = .handle →
      ∀ ρ ∈ n.roleAt f.topicId, (n.role ρ).isRoot = true
  | _ => True

/-- No root is demoted while a write that it admitted under its generation waits. -/
def Node.SparesWriters (n n' : Node) : Prop :=
  ∀ e ∈ n.parked.entries, ∀ w ∈ e.2.write, (n.role w.1).isRoot = true →
    toInt32 (n.role w.1).gen = w.2.gen0 → toInt32 (n'.role w.1).gen = w.2.gen0 →
      (n'.role w.1).isRoot = true

/-- Every write that waits keeps its seat in this step. -/
def Node.KeepsSeats (cfg : Config) (n : Node) (a : World × Act) : Prop :=
  n.KillAtRoot cfg a.2 ∧ n.SparesWriters (n.step cfg a)

instance (n : Node) (a : Act) : Decidable (n.KillAtRoot cfg a) :=
  match a with
  | .kill f => inferInstanceAs (Decidable (n.topicDecision cfg f.topicId f.arrival = .handle →
      ∀ ρ ∈ n.roleAt f.topicId, (n.role ρ).isRoot = true))
  | .resume .. | .pub .. | .sub .. | .deliver .. | .replayUp .. | .handoff .. | .replicate ..
  | .adopt .. | .metricsOn .. | .beacon .. | .verify .. | .peerDied .. | .expireBeacons | .evict ..
  | .mergeOffer .. | .mergePull .. | .mergeFrame .. | .replayAck .. | .mergeClosed .. | .mergeSweep
  | .step5Tick .. | .winnerReminted .. | .winnerSilent .. | .expire .. | .reap ..
  | .retireIdleBackup .. | .claimFallback .. | .readRepair .. | .pruneHighWater | .standbyLease ..
  | .terminate .. | .terminated .. | .stepDown .. | .rehome .. | .subscribe .. | .unsubscribe ..
  | .resetTopic .. | .reset => isTrue trivial

instance (n : Node) (a : World × Act) : Decidable (n.KeepsSeats cfg a) := by
  unfold Node.KeepsSeats Node.SparesWriters
  infer_instance

/-- Every suspended write waits at a role that was made; and if the role would take it still, it is a
root. -/
def Node.WritersSeated (n : Node) : Prop :=
  ∀ k p ρ cut, n.parked.get k = some p → p.write = some (ρ, cut) →
    ρ < n.roles.next ∧ ((n.role ρ).Admits cut → (n.role ρ).isRoot = true)

/-- Every stamp in the journal was given by a root that was not dismantling. -/
def Node.StampedAtRoot (n : Node) : Prop :=
  ∀ ρ before ts seq, .stamped ρ before ts seq ∈ n.journal →
    before.isRoot = true ∧ before.dismantling = none

/-- A write is admitted by a root, or is a kill that was let into another role. -/
theorem Parkable.seated {p : Parked} {ρ : RoleRef} {cut : Cut} (h : Parkable P n p)
    (hw : p.write = some (ρ, cut)) : P .write ∧ ρ < n.roles.next
      ∧ ((n.role ρ).isRoot = true ∨ P (.admitKill ρ)) := by
  cases p with
  | publish ρ' cut' json =>
    cases hw
    obtain ⟨hwrite, hρ, -, hroot⟩ := h
    exact ⟨hwrite, hρ, .inl hroot⟩
  | kill ρ' cut' k =>
    cases hw
    obtain ⟨hwrite, hρ, -, hroot⟩ := h
    exact ⟨hwrite, hρ, hroot⟩
  | _ => cases hw

theorem Takes.writes {a : Act} (h : Takes cfg n a .write) : Writes n a := by
  cases h with
  | pub | killWrite => exact trivial

theorem Takes.no_writes {a : Act} (h : Takes cfg n a .yield) : ¬Writes n a := by
  cases h with
  | yield h _ => exact h

theorem Takes.not_admitKill {a : Act} {ρ : RoleRef} (hkill : n.KillAtRoot cfg a) :
    ¬Takes cfg n a (.admitKill ρ) := by
  intro h
  cases h with
  | admitKill hd hat hroot =>
    have hroot' := hkill hd ρ hat
    rw [hroot] at hroot'
    cases hroot'

/-- An act that may bind an export gives up no claim. -/
theorem Takes.keepsRoots {a : Act} {ρ : RoleRef} (h : Takes cfg n a (.bind ρ)) :
    (n.role ρ).isRoot = true ∧ ¬Takes cfg n a .yield := by
  cases h with
  | bind hat hroot =>
    refine ⟨hroot, fun hy => ?_⟩
    cases hy with
    | yield _ hpull => exact hpull _ rfl

/-- Through a step the generation of a role stays, or its end has begun, or an export was bound at
it. -/
def Node.KeepsGen (cfg : Config) (n : Node) (a : Act) (ρ : RoleRef) (n' : Node) : Prop :=
  (n'.role ρ).gen = (n.role ρ).gen ∨ (n'.role ρ).retired = true
    ∨ (n'.role ρ).dismantling.isSome = true ∨ Takes cfg n a (.bind ρ)

theorem Node.KeepsGen.move {a : Act} {m m' : Node} {ρ : RoleRef} (hP : ∀ i, P i → Takes cfg n a i)
    (hmove : Move cfg P m m') (hlt : ρ < m.roles.next) (h : n.KeepsGen cfg a ρ m) :
    n.KeepsGen cfg a ρ m' := by
  have hages := hmove.roleAges hlt
  rcases h with hgen | hr | hd | hb
  · rcases hmove.gen hlt with heq | hr | hd | hb
    · exact .inl (heq.trans hgen)
    · exact .inr (.inl hr)
    · exact .inr (.inr (.inl hd))
    · exact .inr (.inr (.inr (hP _ hb)))
  · exact .inr (.inl (hages.retired hr))
  · obtain ⟨at', hat⟩ := Option.isSome_iff_exists.mp hd
    exact .inr (.inr (.inl (Option.isSome_iff_exists.mpr ⟨at', (hages.dismantling at' hat).1⟩)))
  · exact .inr (.inr (.inr hb))

theorem step_roleAges (hwf : n.Wf) {ρ : RoleRef} (hlt : ρ < n.roles.next) (a : World × Act) :
    (n.role ρ).core.Ages ((n.step cfg a).role ρ).core := by
  have h : ρ < (n.step cfg a).roles.next
      ∧ (n.role ρ).core.Ages ((n.step cfg a).role ρ).core := by
    refine step_rule (I := fun m => ρ < m.roles.next ∧ (n.role ρ).core.Ages (m.role ρ).core) hwf
      ?_ ⟨hlt, .of_life rfl⟩
    intro P m m' _ _ _ hmove ⟨hlt, hages⟩
    exact ⟨hlt.trans_le hmove.roles_next, hages.trans (hmove.roleAges hlt)⟩
  exact h.2

theorem Node.WritersSeated.step (hwf : n.Wf) (hn : n.WritersSeated) (a : World × Act)
    (h : n.KeepsSeats cfg a) : (n.step cfg a).WritersSeated := by
  obtain ⟨hkill, hspared⟩ := h
  -- along the moves of the step, a write that is new has its seat
  have hstep : ∀ k p ρ cut, (n.step cfg a).parked.get k = some p → p.write = some (ρ, cut) →
      ρ < (n.step cfg a).roles.next
        ∧ (n.parked.get k = some p ∧ ρ < n.roles.next
            ∧ n.KeepsGen cfg a.2 ρ (n.step cfg a)
            ∧ (¬Takes cfg n a.2 .yield → (n.role ρ).isRoot = true →
              ((n.step cfg a).role ρ).isRoot = true)
          ∨ (Writes n a.2 ∧ ((n.step cfg a).role ρ).isRoot = true)) := by
    refine step_rule (I := fun m => ∀ k p ρ cut, m.parked.get k = some p →
      p.write = some (ρ, cut) → ρ < m.roles.next
        ∧ (n.parked.get k = some p ∧ ρ < n.roles.next ∧ n.KeepsGen cfg a.2 ρ m
            ∧ (¬Takes cfg n a.2 .yield → (n.role ρ).isRoot = true → (m.role ρ).isRoot = true)
          ∨ (Writes n a.2 ∧ (m.role ρ).isRoot = true))) hwf ?_ ?_
    · intro P m m' hP _ _ hmove hm k p ρ cut hp hw
      rcases hmove.parked hp with hold | ⟨hpark, hroles⟩
      · obtain ⟨hlt, hseat⟩ := hm k p ρ cut hold hw
        refine ⟨lt_of_lt_of_le hlt hmove.roles_next, ?_⟩
        rcases hseat with ⟨hin, hlt₀, hgen, hkeeps⟩ | ⟨hwrites, hroot⟩
        · exact .inl ⟨hin, hlt₀, hgen.move hP hmove hlt, fun hy hroot =>
            hmove.isRoot hlt (fun hy' => hy (hP _ hy')) (hkeeps hy hroot)⟩
        · refine .inr ⟨hwrites, hmove.isRoot hlt ?_ hroot⟩
          exact fun hy => (hP _ hy).no_writes hwrites
      · obtain ⟨hwrite, hlt, hroot⟩ := hpark.seated hw
        have hrole : m'.role ρ = m.role ρ := by rw [Node.role, Node.role, hroles]
        rw [hroles, hrole]
        refine ⟨hlt, .inr ⟨(hP _ hwrite).writes, ?_⟩⟩
        rcases hroot with hroot | hadm
        · exact hroot
        · exact absurd (hP _ hadm) (Takes.not_admitKill hkill)
    · intro k p ρ cut hp hw
      obtain ⟨hlt, -⟩ := hn k p ρ cut hp hw
      exact ⟨hlt, .inl ⟨hp, hlt, .inl rfl, fun _ => id⟩⟩
  intro k p ρ cut hp hw
  obtain ⟨hlt, hseat⟩ := hstep k p ρ cut hp hw
  refine ⟨hlt, fun hadmits => ?_⟩
  rcases hseat with ⟨hold, hlt₀, hgen, hkeeps⟩ | ⟨-, hroot⟩
  · obtain ⟨hd, hr, hcut⟩ := hadmits
    rcases hgen with hgen | hr' | hd' | hb
    · -- the generation has not moved, so the role would have taken the write before
      have hages : (n.role ρ).core.Ages ((n.step cfg a).role ρ).core := step_roleAges hwf hlt₀ a
      rw [hgen] at hcut
      have hbefore : (n.role ρ).Admits cut := by
        refine ⟨?_, ?_, hcut⟩
        · cases hd₀ : (n.role ρ).dismantling with
          | none => rfl
          | some at' => exact absurd (hages.dismantling at' hd₀).1 (by simp [Role.core, hd])
        · cases hr₀ : (n.role ρ).retired with
          | false => rfl
          | true => exact absurd (hages.retired hr₀) (by simp [Role.core, hr])
      have hroot := (hn k p ρ cut hold hw).2 hbefore
      refine hspared (k, p) (OrderedMap.mem_of_get hold) (ρ, cut) hw hroot hcut ?_
      rw [hgen, hcut]
    · rw [hr] at hr'
      cases hr'
    · rw [hd] at hd'
      cases hd'
    · exact hkeeps hb.keepsRoots.2 hb.keepsRoots.1
  · exact hroot

theorem Node.StampedAtRoot.step (hwf : n.Wf) (hseats : n.WritersSeated) (hn : n.StampedAtRoot)
    (a : World × Act) : (n.step cfg a).StampedAtRoot := by
  intro ρ before ts seq hmem
  rcases @Node.step_stamps cfg n hwf a with ⟨es, hj, hes⟩
    | ⟨ρ', cut, hw, es, r, hj, hes, hseat, hd, hadmits⟩
  · rw [hj] at hmem
    rcases List.mem_append.mp hmem with hmem | hmem
    · cases hes _ hmem
    · exact hn ρ before ts seq hmem
  · rw [hj] at hmem
    rcases List.mem_append.mp hmem with hmem | hmem
    · cases hes _ hmem
    rcases List.mem_cons.mp hmem with heq | hmem
    · cases heq
      obtain ⟨k, p, -, hp, hwrite⟩ := Node.writeOf_some hw
      exact ⟨hseat.isRoot.trans ((hseats k p _ cut hp hwrite).2 hadmits), hd⟩
    · exact hn ρ before ts seq hmem

/-- **Only a sitting root stamps.** In a run in which no root is demoted while a write it admitted
waits, and no kill ends at a role that is not a root, every stamp is given by a root that is not
dismantling. -/
theorem only_root_stamps (w : World) (as : Run)
    (h : EachStep (Node.step cfg) (Node.KeepsSeats cfg) (Node.boot w) as) (ρ : RoleRef)
    (before : Role) (ts seq : Int)
    (hmem : .stamped ρ before ts seq ∈ (run (Node.step cfg) (Node.boot w) as).journal) :
    before.isRoot = true ∧ before.dismantling = none := by
  have hstart : (Node.boot w).Wf ∧ (Node.boot w).WritersSeated ∧ (Node.boot w).StampedAtRoot :=
    ⟨Node.boot_wf w, by rintro k p ρ cut ⟨⟩, by rintro ρ before ts seq ⟨⟩⟩
  have hrun := EachStep.invariant
    (I := fun n : Node => n.Wf ∧ n.WritersSeated ∧ n.StampedAtRoot)
    (fun n a hn hkeep => ⟨hn.1.step a, hn.2.1.step hn.1 a hkeep, hn.2.2.step hn.1 hn.2.1 a⟩)
    hstart h
  exact hrun.2.2 ρ before ts seq hmem

/-- A publish is admitted by a root and stamped. -/
def stampRun : Run := [(sampleWorld 1000, samplePub 1 1000), (sampleWorld 1001, .resume 0 .checked)]

theorem only_root_stamps_one :
    (run (Node.step sampleConfig) (Node.boot (sampleWorld 0)) stampRun).journal.any Event.isStamp
        = true
      ∧ ∀ ρ before ts seq, .stamped ρ before ts seq
          ∈ (run (Node.step sampleConfig) (Node.boot (sampleWorld 0)) stampRun).journal →
        before.isRoot = true ∧ before.dismantling = none :=
  ⟨by decide +kernel, only_root_stamps (sampleWorld 0) stampRun (by decide +kernel)⟩

/-- Is the entry a stamp of a root that is not dismantling, or no stamp? -/
def Event.seated : Event → Bool
  | .stamped _ before _ _ => before.isRoot && before.dismantling.isNone
  | _ => true

/-- A beacon demotes the root while the publish it admitted waits, and the publish is stamped. -/
theorem stamped_by_demoted :
    ¬∀ (w : World) (as : Run) (ρ : RoleRef) (before : Role) (ts seq : Int),
      .stamped ρ before ts seq ∈ (run (Node.step sampleConfig) (Node.boot w) as).journal →
      before.isRoot = true ∧ before.dismantling = none := by
  intro h
  let demoted : Run := [(sampleWorld 1000, samplePub 1 1000),
    (sampleWorld 1001, .beacon 1 [(sampleTopicId, some 5)]), (sampleWorld 1002, .resume 0 .checked)]
  have hno : (run (Node.step sampleConfig) (Node.boot (sampleWorld 0)) demoted).journal.all
      Event.seated = false := by decide +kernel
  have hall : (run (Node.step sampleConfig) (Node.boot (sampleWorld 0)) demoted).journal.all
      Event.seated = true := by
    rw [List.all_eq_true]
    intro ev hev
    cases ev with
    | stamped ρ before ts seq =>
      obtain ⟨hroot, hd⟩ := h (sampleWorld 0) demoted ρ before ts seq hev
      simp [Event.seated, hroot, hd]
    | _ => rfl
  rw [hno] at hall
  cases hall

/-! ### Above what -/

/-- A stamp that was taken into a role, and whether the floor of its stamps was raised with it. -/
structure Held where
  ts : Int
  seq : Option Int
  floored : Bool

/-- What the entry says was taken into the role. -/
def Event.held (ρ : RoleRef) : Event → Option Held
  | .stamped ρ' _ ts seq => if ρ' = ρ then some ⟨ts, some seq, true⟩ else none
  | .ingested ρ' ts seq floored => if ρ' = ρ then some ⟨ts, seq, floored⟩ else none
  | _ => none

/-- Does the entry say that the role was made? -/
def Event.makes (ρ : RoleRef) : Event → Bool
  | .made ρ' => ρ' = ρ
  | _ => false

/-- What was taken into a role since it was made, newest first: its own stamps, and those of the
bodies and tombstones that came in stamped. -/
def heldBy (ρ : RoleRef) : List Event → List Held
  | [] => []
  | ev :: es => if ev.makes ρ then [] else (ev.held ρ).toList ++ heldBy ρ es

/-- The stamp is above everything in the list. -/
def Above (ts seq : Int) (hs : List Held) : Prop :=
  ∀ s ∈ hs, s.ts < ts ∧ ∀ q ∈ s.seq, q < seq

/-- Both counters of the role are exact, and of the stamps in its history that did not raise the
floor each is under the floor or under the clock, when a write on it runs on. -/
def Node.Floored (n : Node) (a : World × Act) : Prop :=
  ∀ w ∈ n.writeOf a.2,
    ((n.role w.1).lastTs < exactBound ∨ (n.role w.1).lastTs < a.1.wall)
      ∧ (n.role w.1).seq < exactBound
      ∧ ∀ s ∈ heldBy w.1 n.journal, s.floored = false →
        s.ts ≤ (n.role w.1).lastTs ∨ s.ts < a.1.wall

instance (n : Node) (a : World × Act) : Decidable (n.Floored a) := by
  unfold Node.Floored
  infer_instance

/-- Is the entry no stamp, or above what its role took in before? -/
def Event.Rises (es : List Event) : Event → Prop
  | .stamped ρ _ ts seq => Above ts seq (heldBy ρ es)
  | _ => True

instance (es : List Event) : DecidablePred (Event.Rises es)
  | .stamped ρ _ ts seq => inferInstanceAs (Decidable (∀ s ∈ heldBy ρ es, s.ts < ts ∧ ∀ q ∈ s.seq,
    q < seq))
  | .transition .. | .minted .. | .heard .. | .made .. | .ingested .. | .acked ..
  | .cached .. => isTrue trivial

/-- Every stamp in the journal is above what its role held before it. -/
def Rising : List Event → Prop
  | [] => True
  | ev :: es => ev.Rises es ∧ Rising es

instance : DecidablePred Rising
  | [] => isTrue trivial
  | ev :: es =>
    haveI := instDecidablePredListEventRising es
    inferInstanceAs (Decidable (ev.Rises es ∧ Rising es))

theorem rising_append {es j : List Event} (hes : ∀ ev ∈ es, ev.isStamp = false) (hj : Rising j) :
    Rising (es ++ j) := by
  induction es with
  | nil => exact hj
  | cons ev es ih =>
    refine ⟨?_, ih fun ev' h => hes ev' (List.mem_cons_of_mem _ h)⟩
    cases ev with
    | stamped ρ before ts seq => cases hes _ List.mem_cons_self
    | _ => trivial

/-- The entry of a stamp splits the journal in what came before it and what came after. -/
theorem rising_iff {j : List Event} : Rising j ↔ ∀ post pre ρ before ts seq,
    j = post ++ .stamped ρ before ts seq :: pre → Above ts seq (heldBy ρ pre) := by
  induction j with
  | nil =>
    refine ⟨?_, fun _ => trivial⟩
    intro _ post pre ρ before ts seq h
    cases post <;> cases h
  | cons ev j ih =>
    constructor
    · rintro ⟨hev, hj⟩ post pre ρ before ts seq h
      cases post with
      | nil =>
        cases h
        exact hev
      | cons ev' post =>
        cases h
        exact ih.mp hj post pre ρ before ts seq rfl
    · intro h
      refine ⟨?_, ih.mpr fun post pre ρ before ts seq hj => ?_⟩
      · cases ev with
        | stamped ρ before ts seq => exact h [] j ρ before ts seq rfl
        | _ => trivial
      · exact h (ev :: post) pre ρ before ts seq (by rw [hj, List.cons_append])

theorem heldBy_append_of_none {ρ : RoleRef} {es j : List Event}
    (hes : ∀ ev ∈ es, ev.makes ρ = false ∧ ev.held ρ = none) : heldBy ρ (es ++ j) = heldBy ρ j := by
  induction es with
  | nil => rfl
  | cons ev es ih =>
    obtain ⟨hmakes, hheld⟩ := hes ev List.mem_cons_self
    rw [List.cons_append, heldBy, hmakes, hheld, ih fun ev' h => hes ev' (List.mem_cons_of_mem _ h)]
    rfl

/-- The counters of a role are floors under what it held. -/
structure Role.Floors (r : Role) (hs : List Held) : Prop where
  lastTs : 0 ≤ r.lastTs
  seq : 0 ≤ r.seq
  under : ∀ s ∈ hs, (s.floored = true → s.ts ≤ r.lastTs) ∧ ∀ q ∈ s.seq, q ≤ r.seq

/-- The counters of every role are floors under its history. -/
def Node.Floors (n : Node) : Prop := ∀ ρ, (n.role ρ).Floors (heldBy ρ n.journal)

theorem Role.Floors.of_counters {r r' : Role} {hs : List Held} (h : r.Floors hs)
    (hts : r.lastTs ≤ r'.lastTs) (hseq : r.seq ≤ r'.seq) : r'.Floors hs where
  lastTs := le_trans h.lastTs hts
  seq := le_trans h.seq hseq
  under s hs := by
    obtain ⟨hfloor, hq⟩ := h.under s hs
    exact ⟨fun hf => le_trans (hfloor hf) hts, fun q hmem => le_trans (hq q hmem) hseq⟩

theorem Role.Floors.cons {r : Role} {hs : List Held} (h : r.Floors hs) {s : Held}
    (hfloor : s.floored = true → s.ts ≤ r.lastTs) (hq : ∀ q ∈ s.seq, q ≤ r.seq) :
    r.Floors (s :: hs) where
  lastTs := h.lastTs
  seq := h.seq
  under s' hs' := by
    rcases List.mem_cons.mp hs' with rfl | hs'
    · exact ⟨hfloor, hq⟩
    · exact h.under s' hs'

/-- A stamp does not take the counters of its role back. -/
def Event.Climbs : Event → Prop
  | .stamped _ before ts seq => before.lastTs ≤ ts ∧ before.seq ≤ seq
  | _ => True

/-- A change of a role raises its counters with what it takes in. -/
theorem RoleMove.floors {ρ : RoleRef} {r' : Role} {es j : List Event}
    (h : RoleMove cfg P n ρ r' es) (hes : ∀ ev ∈ es, ev.Climbs)
    (hn : (n.role ρ).Floors (heldBy ρ j)) : r'.Floors (heldBy ρ (es ++ j)) := by
  have hcore {r'' : Role} (hts : r''.lastTs = (n.role ρ).lastTs)
      (hseq : r''.seq = (n.role ρ).seq) : r''.Floors (heldBy ρ j) :=
    hn.of_counters (le_of_eq hts.symm) (le_of_eq hseq.symm)
  cases h with
  | quiet h => exact hcore (congrArg RoleCore.lastTs h) (congrArg RoleCore.seq h)
  | shrink h => exact hcore (congrArg RoleCore.lastTs h.rest) (congrArg RoleCore.seq h.rest)
  | raiseSeq s => exact hn.of_counters (le_refl _) (le_max_left _ _)
  | stamp hcut hP =>
    obtain ⟨hts, hseq⟩ := hes _ List.mem_cons_self
    have hheld : heldBy ρ (.stamped ρ (n.role ρ) (n.stampTs ρ) (succDouble (n.role ρ).seq) :: j)
        = ⟨n.stampTs ρ, some (succDouble (n.role ρ).seq), true⟩ :: heldBy ρ j := by
      simp [heldBy, Event.makes, Event.held]
    rw [List.singleton_append, hheld]
    refine (hn.of_counters hts hseq).cons (fun _ => le_refl _) ?_
    rintro q ⟨⟩
    exact le_refl _
  | @recover m hP =>
    have hheld : heldBy ρ (.ingested ρ m.publishTs m.seq true :: j)
        = ⟨m.publishTs, m.seq, true⟩ :: heldBy ρ j := by
      simp [heldBy, Event.makes, Event.held]
    rw [List.singleton_append, hheld]
    refine (hn.of_counters (le_max_left _ _) (le_max_left _ _)).cons (fun _ => le_max_right _ _) ?_
    intro q hq
    show q ≤ max (n.role ρ).seq (m.seq.getD (n.role ρ).seq)
    rw [show m.seq = some q from hq]
    exact le_max_right _ _
  | @relayed m hP =>
    have hheld : heldBy ρ (.ingested ρ m.publishTs m.seq false :: j)
        = ⟨m.publishTs, m.seq, false⟩ :: heldBy ρ j := by
      simp [heldBy, Event.makes, Event.held]
    rw [List.singleton_append, hheld]
    have hfloors : Role.Floors { n.role ρ with
        seq := max (n.role ρ).seq (m.seq.getD (n.role ρ).seq) } (heldBy ρ j) :=
      hn.of_counters (le_refl _) (le_max_left _ _)
    refine hfloors.cons (by rintro ⟨⟩) ?_
    intro q hq
    show q ≤ max (n.role ρ).seq (m.seq.getD (n.role ρ).seq)
    rw [show m.seq = some q from hq]
    exact le_max_right _ _
  | @bury d cut tomb hP _ _ _ _ hseq =>
    have hheld : heldBy ρ (.ingested ρ tomb.killTs d.seq false :: j)
        = ⟨tomb.killTs, d.seq, false⟩ :: heldBy ρ j := by
      simp [heldBy, Event.makes, Event.held]
    rw [List.singleton_append, hheld]
    have hfloors : ((n.role ρ).bury d.msgId tomb).Floors (heldBy ρ j) := hcore rfl rfl
    exact hfloors.cons (by rintro ⟨⟩) hseq
  | @push m cut hcut src =>
    have hheld : heldBy ρ (.cached ρ (n.role ρ) m :: j) = heldBy ρ j := rfl
    rw [List.singleton_append, hheld]
    rcases (n.role ρ).push_cases cfg.cacheMax cfg.cacheBytes m with h | h
    · rw [h]
      exact hn
    · exact hcore (congrArg RoleCore.lastTs h.rest) (congrArg RoleCore.seq h.rest)
  | ascend _ _ _ hr _ | ascendStaged _ _ _ _ _ _ hr _ | pin _ hr | unpinAll hr =>
    exact hcore (congrArg RoleCore.lastTs hr) (congrArg RoleCore.seq hr)
  | _ => exact hcore rfl rfl

/-- What a change of one role writes down is about that role. -/
theorem RoleMove.held_of_ne {ρ ρ' : RoleRef} {r' : Role} {es : List Event}
    (h : RoleMove cfg P n ρ' r' es) (hne : ρ' ≠ ρ) :
    ∀ ev ∈ es, ev.makes ρ = false ∧ ev.held ρ = none := by
  cases h with
  | _ => simp [Event.makes, Event.held, hne]

/-- What a move makes of the counters of a role and of its history. -/
inductive HeldEffect (cfg : Config) (P : Input → Prop) (n n' : Node) (ρ : RoleRef) : Prop
  | same (hts : (n'.role ρ).lastTs = (n.role ρ).lastTs) (hseq : (n'.role ρ).seq = (n.role ρ).seq)
      (hj : heldBy ρ n'.journal = heldBy ρ n.journal)
  | fresh (hts : (n'.role ρ).lastTs = 0) (hseq : (n'.role ρ).seq = 0)
      (hj : heldBy ρ n'.journal = [])
  | move {es} (h : RoleMove cfg P n ρ (n'.role ρ) es) (hj : n'.journal = es ++ n.journal)

theorem Move.heldEffect (h : Move cfg P n n') (ρ : RoleRef) : HeldEffect cfg P n n' ρ := by
  have hsame {m : Node} (hr : m.roles = n.roles) (hj : heldBy ρ m.journal = heldBy ρ n.journal) :
      HeldEffect cfg P n m ρ := by
    have hrole : m.role ρ = n.role ρ := by rw [Node.role, hr, Node.role]
    exact .same (by rw [hrole]) (by rw [hrole]) hj
  have hmod {m : Node} {ρ' : RoleRef} (f : Role → Role) (hm : m.roles = n.roles.modify ρ' f)
      (hf : (f (n.role ρ')).lastTs = (n.role ρ').lastTs ∧ (f (n.role ρ')).seq = (n.role ρ').seq)
      (hj : heldBy ρ m.journal = heldBy ρ n.journal) : HeldEffect cfg P n m ρ := by
    by_cases hρ : ρ = ρ'
    · subst hρ
      have hrole : m.role ρ = f (n.role ρ) := by rw [Node.role, hm, Heap.get_modify_self, Node.role]
      exact .same (by rw [hrole, hf.1]) (by rw [hrole, hf.2]) hj
    · have hrole : m.role ρ = n.role ρ := by
        rw [Node.role, hm, Heap.get_modify_of_ne _ _ hρ, Node.role]
      exact .same (by rw [hrole]) (by rw [hrole]) hj
  have hborn {m : Node} {es : List Event} (r : Role) (hr : r.lastTs = 0 ∧ r.seq = 0)
      (hm : m.roles = (n.roles.alloc r).1) (hj : m.journal = es ++ .made n.roles.next :: n.journal)
      (hes : ∀ ev ∈ es, ev.makes ρ = false ∧ ev.held ρ = none) : HeldEffect cfg P n m ρ := by
    by_cases hρ : ρ = n.roles.next
    · subst hρ
      have hrole : m.role n.roles.next = r := by rw [Node.role, hm, Heap.get_alloc, if_pos rfl]
      refine .fresh (by rw [hrole, hr.1]) (by rw [hrole, hr.2]) ?_
      rw [hj, heldBy_append_of_none hes]
      simp [heldBy, Event.makes]
    · have hrole : m.role ρ = n.role ρ := by rw [Node.role, hm, Heap.get_alloc, if_neg hρ,
        Node.role]
      refine .same (by rw [hrole]) (by rw [hrole]) ?_
      rw [hj, heldBy_append_of_none hes]
      simp [heldBy, Event.makes, Event.held, Ne.symm hρ]
  cases h with
  | side h =>
    exact hsame (congrArg NodeCore.roles h) (congrArg (heldBy ρ) (congrArg NodeCore.journal h))
  | @role ρ' r' es h =>
    by_cases hρ : ρ = ρ'
    · subst hρ
      refine .move ?_ rfl
      rwa [show ({ n.modifyRole ρ fun _ => r' with journal := es ++ n.journal } : Node).role ρ = r'
        from Node.role_modifyRole_self n ρ fun _ => r']
    · refine .same ?_ ?_ (heldBy_append_of_none (h.held_of_ne (Ne.symm hρ)))
      · exact congrArg Role.lastTs (Heap.get_modify_of_ne n.roles (fun _ => r') hρ)
      · exact congrArg Role.seq (Heap.get_modify_of_ne n.roles (fun _ => r') hρ)
  | register t b => exact @hborn _ [] _ ⟨rfl, rfl⟩ rfl rfl (by rintro ev ⟨⟩)
  | born t hP =>
    refine @hborn _ [_] _ ⟨rfl, rfl⟩ rfl rfl ?_
    intro ev hev
    obtain rfl := List.mem_singleton.mp hev
    exact ⟨rfl, rfl⟩
  | heard hP => exact hsame rfl rfl
  | acked => exact hsame rfl rfl
  | retire =>
    exact hmod (fun r => { r with retired := true, gen := toInt32 r.gen + 1 }) rfl ⟨rfl, rfl⟩ rfl
  | @offer _ _ _ corr =>
    exact hmod (fun r => { r with openMerges := r.openMerges.set corr n.exports.next }) rfl
      ⟨rfl, rfl⟩ rfl
  | ungate => exact hmod Role.gateClear rfl ⟨rfl, rfl⟩ rfl
  | flip => exact hmod (fun r => { r with isRoot := false }) rfl ⟨rfl, rfl⟩ rfl
  | @openPull _ corr =>
    exact hmod (fun r => { r with openPulls := r.openPulls.set corr n.pulls.next }) rfl
      ⟨rfl, rfl⟩ rfl
  | slice s => exact hmod (fun r => r.pin s) rfl ⟨rfl, rfl⟩ rfl
  | @bind ρ' _ _ r' _ _ _ _ _ _ _ _ hr | @header ρ' _ _ _ r' _ _ _ _ hr =>
    exact hmod (fun _ => r') rfl ⟨congrArg RoleCore.lastTs hr, congrArg RoleCore.seq hr⟩ rfl
  | @endRound ρ' r' _ _ _ h =>
    exact hmod (fun _ => r') rfl ⟨congrArg RoleCore.lastTs h.rest, congrArg RoleCore.seq h.rest⟩ rfl
  | _ => exact hsame rfl rfl

theorem Node.Floors.move (h : Move cfg P n n') (hes : ∀ ev ∈ n'.journal, ev.Climbs)
    (hn : n.Floors) : n'.Floors := by
  intro ρ
  cases h.heldEffect ρ with
  | same hts hseq hj =>
    rw [hj]
    exact (hn ρ).of_counters (le_of_eq hts.symm) (le_of_eq hseq.symm)
  | fresh hts hseq hj =>
    rw [hj]
    exact ⟨le_of_eq hts.symm, le_of_eq hseq.symm, by rintro s ⟨⟩⟩
  | move hrole hj =>
    rw [hj] at hes ⊢
    exact hrole.floors (fun ev hev => hes ev (List.mem_append_left _ hev)) (hn ρ)

/-- The floors of the roles hold after a step whose stamps all climb. -/
theorem Node.Floors.step (hwf : n.Wf) (hn : n.Floors) (a : World × Act)
    (hes : ∀ ev ∈ (n.step cfg a).journal, ev.Climbs) : (n.step cfg a).Floors := by
  refine step_rule (I := fun m => (∀ ev ∈ m.journal, ev.Climbs) → m.Floors) hwf ?_ (fun _ => hn) hes
  intro P m m' _ _ _ hmove hm hes'
  exact (hm fun ev hev => hes' ev (hmove.mem_journal hev)).move hmove hes'

/-- Above exact counters and a history under the floor or under the clock, the next stamp is above
all of it. -/
theorem Role.Floors.above {r : Role} {hs : List Held} {wall : Int} (h : r.Floors hs)
    (hts : r.lastTs < exactBound ∨ r.lastTs < wall) (hseq : r.seq < exactBound)
    (hfree : ∀ s ∈ hs, s.floored = false → s.ts ≤ r.lastTs ∨ s.ts < wall) :
    r.lastTs < max (succDouble r.lastTs) wall ∧ r.seq < succDouble r.seq
      ∧ Above (max (succDouble r.lastTs) wall) (succDouble r.seq) hs := by
  have hup : r.lastTs < max (succDouble r.lastTs) wall := by
    rcases hts with hts | hts
    · exact lt_max_of_lt_left (lt_succDouble h.lastTs hts)
    · exact lt_max_of_lt_right hts
  have hnext : r.seq < succDouble r.seq := lt_succDouble h.seq hseq
  refine ⟨hup, hnext, ?_⟩
  intro s hs
  obtain ⟨hfloor, hq⟩ := h.under s hs
  refine ⟨?_, fun q hmem => lt_of_le_of_lt (hq q hmem) hnext⟩
  by_cases hf : s.floored = true
  · exact lt_of_le_of_lt (hfloor hf) hup
  rcases hfree s hs (by simpa using hf) with hle | hlt
  · exact lt_of_le_of_lt hle hup
  · exact lt_max_of_lt_right hlt

/-- A guarded step stamps above what its role holds. -/
theorem Rising.step (hwf : n.Wf) (hfloors : n.Floors) (hclimbs : ∀ ev ∈ n.journal, ev.Climbs)
    (hrising : Rising n.journal) (a : World × Act) (h : n.Floored a) :
    (∀ ev ∈ (n.step cfg a).journal, ev.Climbs) ∧ Rising (n.step cfg a).journal := by
  have hquiet {es : List Event} (hes : ∀ ev ∈ es, ev.isStamp = false) : ∀ ev ∈ es, ev.Climbs := by
    intro ev hev
    cases ev with
    | stamped ρ before ts seq => cases hes _ hev
    | _ => trivial
  rcases @Node.step_stamps cfg n hwf a with ⟨es, hj, hes⟩
    | ⟨ρ, cut, hw, es, before, hj, hes, hseat, -, -⟩
  · rw [hj]
    refine ⟨?_, rising_append hes hrising⟩
    intro ev hev
    rcases List.mem_append.mp hev with hev | hev
    · exact hquiet hes ev hev
    · exact hclimbs ev hev
  · obtain ⟨hts, hseq, hfree⟩ := h (ρ, cut) hw
    obtain ⟨hup, hnext, habove⟩ := (hfloors ρ).above hts hseq hfree
    rw [hj]
    constructor
    · intro ev hev
      rcases List.mem_append.mp hev with hev | hev
      · exact hquiet hes ev hev
      rcases List.mem_cons.mp hev with rfl | hev
      · exact ⟨hseat.lastTs.trans_le (le_of_lt hup), hseat.seq.trans_le (le_of_lt hnext)⟩
      · exact hclimbs ev hev
    · exact rising_append hes ⟨habove, hrising⟩

/-- **Stamps rise above all held history.** In a run in which no write is stamped past the exact
counters, nor below a delivered body or a tombstone that left the floor where it was, the stamp of
each write is above every stamp its role has taken in, and so is its number. -/
theorem stamps_rise (w : World) (as : Run)
    (h : EachStep (Node.step cfg) Node.Floored (Node.boot w) as) (ρ : RoleRef) (before : Role)
    (ts seq : Int) (post pre : List Event)
    (hj : (run (Node.step cfg) (Node.boot w) as).journal
      = post ++ .stamped ρ before ts seq :: pre) : Above ts seq (heldBy ρ pre) := by
  have hstart : (Node.boot w).Wf ∧ (Node.boot w).Floors
      ∧ (∀ ev ∈ (Node.boot w).journal, ev.Climbs) ∧ Rising (Node.boot w).journal := by
    refine ⟨Node.boot_wf w, ?_, ?_, trivial⟩
    · intro ρ
      exact ⟨le_refl _, le_refl _, by rintro s ⟨⟩⟩
    · rintro ev ⟨⟩
  have hrun := EachStep.invariant
    (I := fun n : Node => n.Wf ∧ n.Floors ∧ (∀ ev ∈ n.journal, ev.Climbs) ∧ Rising n.journal)
    (fun n a hn hguard => by
      obtain ⟨hwf, hfloors, hclimbs, hrising⟩ := hn
      obtain ⟨hclimbs', hrising'⟩ :=
        @Rising.step cfg n hwf hfloors hclimbs hrising a hguard
      exact ⟨hwf.step a, hfloors.step hwf a hclimbs', hclimbs', hrising'⟩)
    hstart h
  exact rising_iff.mp hrun.2.2.2 post pre ρ before ts seq hj

/-- A second publish is stamped above the first. -/
def risingRun : Run := stampRun ++
  [(sampleWorld 1002, samplePub 2 1002), (sampleWorld 1002, .resume 2 .checked)]

theorem stamps_rise_two :
    ((run (Node.step sampleConfig) (Node.boot (sampleWorld 0)) risingRun).role 0).seq = 2
      ∧ ∀ ρ before ts seq post pre,
        (run (Node.step sampleConfig) (Node.boot (sampleWorld 0)) risingRun).journal
          = post ++ .stamped ρ before ts seq :: pre → Above ts seq (heldBy ρ pre) :=
  ⟨by decide +kernel, stamps_rise (sampleWorld 0) risingRun (by decide +kernel)⟩

/-- A relay takes in a body with a stamp ahead of the clock, becomes the root, and stamps. -/
def aheadRun : Run :=
  [(sampleWorld 1000, .adopt sampleTopicId 7),
    (sampleWorld 1001, .deliver sampleTopicId none none
      [.body ⟨List.replicate 2 '.', 900000, samplePost 2 1000, some 4⟩]),
    (sampleWorld 1002, .resume 0 .checked), (sampleWorld 2000, samplePub 1 2000),
    (sampleWorld 2001, .resume 1 .checked)]

theorem stamped_below :
    ¬∀ (w : World) (as : Run) (ρ : RoleRef) (before : Role) (ts seq : Int) (post pre : List Event),
      (run (Node.step sampleConfig) (Node.boot w) as).journal
        = post ++ .stamped ρ before ts seq :: pre → Above ts seq (heldBy ρ pre) := by
  intro h
  have hno : ¬Rising (run (Node.step sampleConfig) (Node.boot (sampleWorld 0)) aheadRun).journal := by
    decide +kernel
  refine hno (rising_iff.mpr ?_)
  intro post pre ρ before ts seq hj
  exact h (sampleWorld 0) aheadRun ρ before ts seq post pre hj

end Axona
