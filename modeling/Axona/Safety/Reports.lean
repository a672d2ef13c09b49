import Axona.Dht.Dialling

/-! # Reports about dials

A report is about the dial whose negotiation it names. Where the live token of the identity is not
that dial's, the report is to change nothing: not the entry of the guard, which has the path
schedule in it, not the mark, and no negotiation but that of its own dial. A capacity reject and a
report of no path release the token whatever dial it is of, and so does a bind or a failure before
the live dial's incarnation is known. With no token live, a report of no path advances the path
schedule, and a bind or a failure the mark. -/

namespace Axona.Dialler

open Library OrderedMap

variable {cfg : DialConfig} {s : Dialler} {id : NodeId} {k : DialToken} {inc : Incarnation}

/-! ### What is asked -/

/-- The report an act is: the identity, the negotiation it names, and the dial that started it. -/
def report (s : Dialler) : Act → Option (NodeId × Incarnation × DialToken)
  | .bound id inc | .failed id _ inc _ | .noPath id inc _ =>
    (s.about id inc).map fun k => (id, inc, k)
  | _ => none

/-- The live token of the identity is the one of this dial. -/
def LiveFor (s : Dialler) (id : NodeId) (k : DialToken) : Prop :=
  (s.guard.entry (identitySuffix id)).inflight = true ∧ (s.guard.entry (identitySuffix id)).k = k

instance (s : Dialler) (id : NodeId) (k : DialToken) : Decidable (s.LiveFor id k) :=
  inferInstanceAs (Decidable (_ ∧ _))

/-- What is asked of an act: a report about a dial whose token is not live leaves the entry of the
identity and its mark alone, and a sweep ends what was in flight for too long. -/
structure Settles (cfg : DialConfig) (s : Dialler) (a : Act) : Prop where
  guard : ∀ id inc k, s.report a = some (id, inc, k) → ¬s.LiveFor id k →
    (s.step cfg a).guard.state.get (identitySuffix id) = s.guard.state.get (identitySuffix id)
  marks : ∀ id inc k, s.report a = some (id, inc, k) → ¬s.LiveFor id k →
    (s.step cfg a).marks.marks.get id = s.marks.marks.get id
  /-- The negotiation it ends is that of its own dial. -/
  negotiation : ∀ id inc k, s.report a = some (id, inc, k) →
    ∀ id' inc', s.negotiation id' = some inc' → (s.step cfg a).negotiation id' ≠ some inc' →
      s.startedBy inc' = some (id, k)
  swept : a = .sweep → ∀ key e, (s.step cfg a).guard.state.get key = some e → e.inflight = true →
    s.wall - e.beganAt ≤ cfg.guard.inflightMaxMs

/-- The report is about a dial whose token is not live. -/
def Late (s : Dialler) (id : NodeId) (inc : Incarnation) : Prop :=
  ∃ k ∈ s.about id inc, ¬s.LiveFor id k

instance (s : Dialler) (id : NodeId) (inc : Incarnation) : Decidable (s.Late id inc) :=
  inferInstanceAs (Decidable (∃ k ∈ s.about id inc, _))

/-- A late report that reaches what is not its dial's. While another token is live: a capacity
reject beside no open channel, a report of no path, or a bind or failure while the live dial has no
other incarnation on record. While none is: a report of no path, a bind of a marked peer, or a
failure that is counted in its mark. -/
def Crosses (cfg : DialConfig) (s : Dialler) : Act → Prop
  | .bound id inc => s.Late id inc ∧
      if (s.guard.entry (identitySuffix id)).inflight then
        (s.guard.entry (identitySuffix id)).stale (some inc) = false
      else s.marks.marks.has id = true
  | .failed id reason inc isOpen => s.Late id inc ∧ reason ≠ .noPath ∧
      if (s.guard.entry (identitySuffix id)).inflight then
        reason = .rejected ∧ isOpen = false
          ∨ (s.guard.entry (identitySuffix id)).stale (some inc) = false
      else reason ≠ .rejected ∧ isOpen = false ∧ s.marks.isPolicy id = false
  | .noPath id attempt _ => cfg.noPathDefer = true ∧ s.Late id attempt
  | _ => False

instance (s : Dialler) : ∀ a : Act, Decidable (s.Crosses cfg a)
  | .bound _ _ | .failed _ _ _ _ | .noPath _ _ _ => inferInstanceAs (Decidable (_ ∧ _))
  | .wait _ _ | .dial _ | .answered _ _ _ | .retry _ | .sweep | .delivered _ | .freshRecord _ =>
    isFalse fun h => h

/-! ### The sweep -/

variable {g : AttemptGuard} {key : IdSuffix} {e : Attempts}

theorem entry_of_get (h : g.state.get key = some e) : g.entry key = e := by
  unfold AttemptGuard.entry
  rw [h]
  rfl

/-- An entry after the sweep: an attempt in flight for too long has failed. -/
def sweptEntry (cfg : GuardConfig) (t : ℚ) (e : Attempts) : Attempts :=
  if e.inflight && decide (cfg.inflightMaxMs < t - e.beganAt) then e.failed cfg t else e

theorem get_endKey_swept (gcfg : GuardConfig) (t : ℚ) (hget : g.state.get key = some e)
    (hlive : e.inflight = true) (key' : IdSuffix) :
    (g.endKey gcfg key false t (some e.k) none).2.state.get key' =
      if key' = key then some (e.failed gcfg t) else g.state.get key' := by
  have hcond : (!e.live (some e.k) || e.stale none) = false := by
    simp [Attempts.live, Attempts.stale, hlive]
  unfold AttemptGuard.endKey
  rw [hget]
  simp only [hcond, Bool.false_eq_true, if_false]
  exact get_set _ _ _ _

/-- The sweep visits each entry once. -/
theorem get_sweep (gcfg : GuardConfig) (g : AttemptGuard) (t : ℚ) (key : IdSuffix) :
    (g.sweep gcfg t).state.get key = (g.state.get key).map (sweptEntry gcfg t) := by
  -- once the entries `es` were visited, each under its own key
  suffices hrun : ∀ (es : List (IdSuffix × Attempts)) (g : AttemptGuard), (es.map Prod.fst).Nodup →
      (∀ x ∈ es, g.state.get x.1 = some x.2) →
      (es.foldl (fun g e =>
        if e.2.inflight && decide (gcfg.inflightMaxMs < t - e.2.beganAt) then
          (g.endKey gcfg e.1 false t (some e.2.k) none).2
        else g) g).state.get key =
      if key ∈ es.map Prod.fst then (g.state.get key).map (sweptEntry gcfg t)
      else g.state.get key by
    unfold AttemptGuard.sweep
    rw [hrun g.state.entries g g.state.keys_nodup fun x hx => get_of_mem hx]
    split
    · rfl
    next hmem =>
    have hnone : g.state.get key = none := find_eq_none_iff.mpr hmem
    rw [hnone]
    rfl
  intro es
  induction es with
  | nil => exact fun _ _ _ => rfl
  | cons x es ih =>
    intro g hnodup hget
    obtain ⟨hfirst, hrest⟩ := List.nodup_cons.mp hnodup
    have hx := hget x List.mem_cons_self
    have hne : ∀ y ∈ es, y.1 ≠ x.1 := fun y hy heq =>
      hfirst (heq ▸ List.mem_map_of_mem hy)
    have hmem : key ∈ (x :: es).map Prod.fst ↔ key = x.1 ∨ key ∈ es.map Prod.fst := List.mem_cons
    rw [List.foldl_cons]
    by_cases hcond : (x.2.inflight && decide (gcfg.inflightMaxMs < t - x.2.beganAt)) = true
    · rw [if_pos hcond]
      have hlive := (Bool.and_eq_true_iff.mp hcond).1
      have hnext := get_endKey_swept gcfg t hx hlive
      rw [ih _ hrest fun y hy => ?_]
      · rw [hnext]
        by_cases hkey : key = x.1
        · subst hkey
          rw [if_neg hfirst, if_pos rfl, if_pos (hmem.mpr (.inl rfl)), hx]
          unfold sweptEntry
          rw [Option.map_some, if_pos hcond]
        · rw [if_neg hkey]
          simp only [hmem, hkey, false_or]
      · rw [hnext, if_neg (hne y hy)]
        exact hget y (List.mem_cons_of_mem x hy)
    · rw [if_neg hcond, ih _ hrest fun y hy => hget y (List.mem_cons_of_mem x hy)]
      by_cases hkey : key = x.1
      · subst hkey
        rw [if_neg hfirst, if_pos (hmem.mpr (.inl rfl)), hx]
        unfold sweptEntry
        rw [Option.map_some, if_neg hcond]
      · simp only [hmem, hkey, false_or]

/-- After a sweep nothing has been in flight for too long. -/
theorem inflight_sweep {gcfg : GuardConfig} {t : ℚ}
    (hget : (g.sweep gcfg t).state.get key = some e) (hlive : e.inflight = true) :
    t - e.beganAt ≤ gcfg.inflightMaxMs := by
  rw [get_sweep] at hget
  obtain ⟨d, -, rfl⟩ := Option.map_eq_some_iff.mp hget
  unfold sweptEntry at hlive ⊢
  by_cases hcond : (d.inflight && decide (gcfg.inflightMaxMs < t - d.beganAt)) = true
  · rw [if_pos hcond] at hlive
    cases hlive
  · rw [if_neg hcond] at hlive ⊢
    rw [hlive, Bool.true_and, decide_eq_true_iff] at hcond
    exact not_lt.mp hcond

/-! ### The reports -/

variable {g : AttemptGuard} {e : Attempts} {t : ℚ}

/-- A terminal event ends nothing where no attempt is in flight, and where it names another
incarnation than the live attempt's. -/
theorem end_other {bound : Bool} (h : (g.entry (identitySuffix id)).inflight = true →
      (g.entry (identitySuffix id)).stale (some inc) = true) :
    g.end cfg.guard id bound t none (some inc) = (false, g) := by
  unfold AttemptGuard.end AttemptGuard.endKey
  cases hget : g.state.get (identitySuffix id) with
  | none => rfl
  | some e =>
    rw [entry_of_get hget] at h
    have hidle : (!e.live none || e.stale (some inc)) = true := by
      unfold Attempts.live
      cases hlive : e.inflight with
      | true => simp [h hlive]
      | false => rfl
    simp only [hidle, if_true]

/-- With no attempt in flight there is nothing to release. -/
theorem release_idle (h : (g.entry (identitySuffix id)).inflight = false) :
    g.release id none = (false, g) := by
  unfold AttemptGuard.release
  cases hget : g.state.get (identitySuffix id) with
  | none => rfl
  | some e =>
    rw [entry_of_get hget] at h
    have hidle : (!e.live none) = true := by
      unfold Attempts.live
      rw [h]
      rfl
    simp only [hidle, if_true]

section

variable (s : Dialler) (id : NodeId) (inc : Incarnation)

@[simp] theorem guard_finish :
    (s.finish id inc).guard = s.guard := by
  unfold finish
  split <;> rfl

@[simp] theorem marks_finish :
    (s.finish id inc).marks = s.marks := by
  unfold finish
  split <;> rfl

@[simp] theorem wall_finish :
    (s.finish id inc).wall = s.wall := by
  unfold finish
  split <;> rfl

end

/-- The negotiation that a report ends is the one it names. -/
theorem negotiation_finish {id' : NodeId} {inc' : Incarnation}
    (h : s.negotiation id' = some inc') (hne : (s.finish id inc).negotiation id' ≠ some inc') :
    id' = id ∧ inc' = inc := by
  unfold finish at hne
  split at hne
  next hcur =>
    simp only [Function.update_apply] at hne
    split at hne
    next hid => exact ⟨hid, Option.some.inj ((hid ▸ h).symm.trans hcur)⟩
    · exact absurd h hne
  · exact absurd h hne

theorem startedBy_of_about (h : s.about id inc = some k) : s.startedBy inc = some (id, k) := by
  unfold about at h
  obtain ⟨x, hx, rfl⟩ := Option.map_eq_some_iff.mp h
  obtain ⟨hget, hid⟩ := Option.filter_eq_some_iff.mp hx
  rw [hget, ← of_decide_eq_true hid]

/-- What a late report leaves: the entry of the identity, its mark, and the negotiations of other
dials. -/
structure Spares (s s' : Dialler) (id : NodeId) (inc : Incarnation) : Prop where
  guard : s.Late id inc →
    s'.guard.state.get (identitySuffix id) = s.guard.state.get (identitySuffix id)
  marks : s.Late id inc → s'.marks.marks.get id = s.marks.marks.get id
  negotiation : s'.negotiation = (s.finish id inc).negotiation

/-- A report settles its own dial if it spares what is not that dial's. -/
theorem Spares.settles {a : Act} (hreport : s.report a = some (id, inc, k))
    (habout : s.about id inc = some k) (h : s.Spares (s.step cfg a) id inc) : Settles cfg s a where
  guard id' inc' k' hr hlive := by
    obtain ⟨rfl, rfl, rfl⟩ : id = id' ∧ inc = inc' ∧ k = k' := by
      simpa using Option.some.inj (hreport.symm.trans hr)
    exact h.guard ⟨k, habout, hlive⟩
  marks id' inc' k' hr hlive := by
    obtain ⟨rfl, rfl, rfl⟩ : id = id' ∧ inc = inc' ∧ k = k' := by
      simpa using Option.some.inj (hreport.symm.trans hr)
    exact h.marks ⟨k, habout, hlive⟩
  negotiation id' inc' k' hr n m hm hne := by
    obtain ⟨rfl, rfl, rfl⟩ : id = id' ∧ inc = inc' ∧ k = k' := by
      simpa using Option.some.inj (hreport.symm.trans hr)
    rw [h.negotiation] at hne
    obtain ⟨rfl, rfl⟩ := negotiation_finish hm hne
    exact startedBy_of_about habout
  swept := by
    rintro rfl
    cases hreport

/-- An act that is no report settles nothing but what it sweeps. -/
theorem settles_of_none {a : Act} (hreport : s.report a = none) : Settles cfg s a where
  guard id inc k hr := by
    rw [hreport] at hr
    cases hr
  marks id inc k hr := by
    rw [hreport] at hr
    cases hr
  negotiation id inc k hr := by
    rw [hreport] at hr
    cases hr
  swept := by
    rintro rfl key e hget hlive
    exact inflight_sweep hget hlive

theorem settles_bound (h : ¬Crosses cfg s (.bound id inc)) : Settles cfg s (.bound id inc) := by
  cases habout : s.about id inc with
  | none => exact settles_of_none (by simp [report, habout])
  | some k =>
    have hstep : s.step cfg (.bound id inc) = s.onPeerBound cfg id inc := by
      unfold step
      simp only [habout, Option.isSome_some, if_true]
    -- a late event ends nothing, by the incarnation or for want of a live token
    have hended (hlate : s.Late id inc) :
        s.guard.end cfg.guard id true s.wall none (some inc) = (false, s.guard) := by
      refine end_other fun hlive => ?_
      by_contra hstale
      exact h ⟨hlate, by rw [if_pos hlive]; simpa using hstale⟩
    refine Spares.settles (by simp [report, habout]) habout (hstep ▸ ⟨fun hlate => ?_,
      fun hlate => ?_, ?_⟩)
    · unfold onPeerBound
      simp only [guard_finish, wall_finish, hended hlate]
      split <;> rfl
    · unfold onPeerBound
      simp only [guard_finish, wall_finish, hended hlate, Bool.not_false, Bool.true_and]
      split
      · rw [marks_finish]
      next hidle =>
        have hfree : s.marks.marks.has id = false := by
          by_contra hmark
          exact h ⟨hlate, by rw [if_neg hidle]; simpa using hmark⟩
        have hnone : s.marks.marks.get id = none := by
          cases hget : s.marks.marks.get id with
          | none => rfl
          | some m =>
            rw [has_iff.mpr ⟨m, hget⟩] at hfree
            cases hfree
        unfold DeadPeers.delete
        rw [marks_finish, DeadPeers.marks_latch, get_delete, if_pos rfl, hnone]
    · unfold onPeerBound
      simp only []
      split <;> rfl

theorem settles_failed {reason : FailReason} {isOpen : Bool}
    (h : ¬Crosses cfg s (.failed id reason inc isOpen)) :
    Settles cfg s (.failed id reason inc isOpen) := by
  cases habout : s.about id inc with
  | none => exact settles_of_none (by simp [report, habout])
  | some k =>
    have hstep : s.step cfg (.failed id reason inc isOpen) =
        s.onNegotiationFailed cfg id reason inc isOpen := by
      unfold step
      simp only [habout, Option.isSome_some, if_true]
    refine Spares.settles (by simp [report, habout]) habout (hstep ▸ ?_)
    unfold onNegotiationFailed
    by_cases hnoPath : reason = .noPath
    · rw [if_pos hnoPath]
      exact ⟨fun _ => by rw [guard_finish], fun _ => by rw [marks_finish], rfl⟩
    rw [if_neg hnoPath]
    by_cases hrejected : reason = .rejected ∧ isOpen = false
    · -- a capacity reject finds no token to release
      rw [if_pos (by simp [hrejected])]
      refine ⟨fun hlate => ?_, fun _ => by rw [marks_finish], rfl⟩
      have hidle : (s.guard.entry (identitySuffix id)).inflight = false := by
        by_contra hlive
        exact h ⟨hlate, hnoPath, by rw [if_pos (by simpa using hlive)]; exact .inl hrejected⟩
      simp only [guard_finish, release_idle hidle]
    · rw [if_neg (by simpa using hrejected)]
      have hended (hlate : s.Late id inc) :
          s.guard.end cfg.guard id isOpen s.wall none (some inc) = (false, s.guard) := by
        refine end_other fun hlive => ?_
        by_contra hstale
        exact h ⟨hlate, hnoPath, by rw [if_pos hlive]; exact .inr (by simpa using hstale)⟩
      refine ⟨fun hlate => ?_, fun hlate => ?_, ?_⟩
      · simp only [guard_finish, wall_finish, hended hlate]
        split
        · rfl
        · split <;> rfl
      · simp only [guard_finish, wall_finish, hended hlate, Bool.not_false, Bool.true_and]
        split
        · rw [marks_finish]
        next hidle =>
        split
        · rw [marks_finish]
        next hclosed =>
          -- the mark is one of policy, and counts no failure
          have hpolicy : s.marks.isPolicy id = true := by
            by_contra hloss
            have hopen : isOpen = false := by simpa using hclosed
            exact h ⟨hlate, hnoPath, by
              rw [if_neg hidle]
              exact ⟨fun hr => hrejected ⟨hr, hopen⟩, hopen, by simpa using hloss⟩⟩
          obtain ⟨m, hget, hkind⟩ := Option.any_eq_true _ _ |>.mp hpolicy
          unfold DeadPeers.fail
          rw [marks_finish, hget]
          simp only [of_decide_eq_true hkind]
          exact hget
      · simp only []
        split
        · rfl
        · split <;> rfl

theorem settles_noPath {draw : ℚ} (h : ¬Crosses cfg s (.noPath id inc draw)) :
    Settles cfg s (.noPath id inc draw) := by
  cases habout : s.about id inc with
  | none => exact settles_of_none (by simp [report, habout])
  | some k =>
    have hstep : s.step cfg (.noPath id inc draw) = s.onNoPath cfg id inc draw := by
      unfold step
      simp only [habout, Option.isSome_some, if_true]
    have hreport : s.report (.noPath id inc draw) = some (id, inc, k) := by simp [report, habout]
    cases harmed : cfg.noPathDefer with
    | false =>
      have hsame : s.step cfg (.noPath id inc draw) = s := by
        rw [hstep]
        unfold onNoPath
        rw [harmed]
        rfl
      refine ⟨fun _ _ _ _ _ => by rw [hsame], fun _ _ _ _ _ => by rw [hsame],
        fun _ _ _ _ n m hm hne => ?_, fun h => by cases h⟩
      rw [hsame] at hne
      exact absurd hm hne
    | true =>
      refine Spares.settles hreport habout (hstep ▸ ?_)
      unfold onNoPath
      rw [harmed]
      exact ⟨fun hlate => absurd ⟨harmed, hlate⟩ h, fun hlate => absurd ⟨harmed, hlate⟩ h, rfl⟩

/-- An act that does not cross settles its own dial. -/
theorem settles_of_not_crosses (s : Dialler) (a : Act) (h : ¬Crosses cfg s a) :
    Settles cfg s a := by
  cases a with
  | bound id inc => exact settles_bound h
  | failed id reason inc isOpen => exact settles_failed h
  | noPath id attempt draw => exact settles_noPath h
  | _ => exact settles_of_none rfl

/-- **Reports.** In every run in which no late report reaches what is not its dial's, each report
settles its own dial, and every sweep ends what was in flight for too long. -/
theorem reports_settle (cfg : DialConfig) (as : List Act)
    (h : EachStep (step cfg) (fun s a => ¬Crosses cfg s a) init as) :
    EachStep (step cfg) (Settles cfg) init as :=
  EachStep.safety (I := fun _ => True) (fun _ _ _ _ => trivial)
    (fun s a _ ha => settles_of_not_crosses s a ha) trivial h

/-- A node with the guard and the path deferral armed. -/
def armedDials : DialConfig where
  marks := MarkOptions.config {}
  guard := {}
  noPathDefer := true

/-- The first dial failed by its deadline, the second was issued after its backoff, and only then
does the bind of the first come, which the second's incarnation tells from its own. -/
theorem reports_settle_two :
    EachStep (step armedDials) (Settles armedDials) init
      [.dial 7, .answered 7 1 (.issued true), .wait 30000 30000, .failed 7 .other 1 false,
        .wait 60000 60000, .dial 7, .answered 7 2 (.issued true), .bound 7 1] :=
  reports_settle armedDials _ (by decide +kernel)

/-- **A late report of no path releases the next dial's token.** The first dial failed by its
deadline, the second was issued after its backoff, and only then was the first offer found
undelivered. -/
theorem next_dial_released :
    ¬EachStep (step armedDials) (Settles armedDials) init
      [.dial 7, .answered 7 1 (.issued true), .wait 30000 30000, .failed 7 .other 1 false,
        .wait 60000 60000, .dial 7, .answered 7 2 (.issued true), .noPath 7 1 1] := by
  rintro ⟨-, -, -, -, -, -, -, hlast, -⟩
  have hkept := hlast.guard 7 1 1 (by decide +kernel) (by decide +kernel)
  revert hkept
  decide +kernel

end Axona.Dialler
