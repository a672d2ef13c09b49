import Axona.Moves.Step

/-! # Convictions

A root that acknowledges nothing is convicted at the epoch it was asked under. While the conviction
stands, a record of the topic that names the root is a ghost's unless it carries a later epoch. A
record carries the highest epoch that was heard for its topic, so until a later one is heard the
convicted root is nobody's target. -/

namespace Axona

open Library OrderedMap

variable {cfg : Config} {n n' : Node} {P : Input → Prop} {t : TopicId} {root : NodeId}
  {e T : Int}

namespace Node

/-- An epoch above zero that a record carries was heard in a beacon of its topic. -/
def Records (n : Node) : Prop :=
  ∀ t b e, n.rootBeacons.get t = some b → b.epoch = some e → 0 < e → .heard t e ∈ n.journal

/-- The topic's conviction names the root, at the epoch or a later one, and stands until `T`. -/
def Convicts (n : Node) (t : TopicId) (root : NodeId) (e T : Int) : Prop :=
  ∃ c, n.rootTombstones.get t = some c ∧ c.root = root ∧ e ≤ c.epoch ∧ T ≤ c.exp

/-! ### What is recorded -/

theorem Records.mono (h : n.Records) (hj : ∀ ev ∈ n.journal, ev ∈ n'.journal)
    (hb : ∀ t b, n'.rootBeacons.get t = some b → n.rootBeacons.get t = some b) : n'.Records := by
  intro t b e hget he hpos
  apply hj
  exact h t b e (hb t b hget) he hpos

theorem Records.recordBeacon (h : n.Records) (t : TopicId) (root : NodeId) (epoch : Int) :
    (n.recordBeacon t root epoch).Records := by
  intro t' b e hget he hpos
  have hget' : (n.rootBeacons.set t ⟨root, n.now, n.now + beaconTtlMs,
      some (max epoch ((n.rootBeacons.get t).elim 0 fun b => b.epoch.getD 0)), false⟩).get t'
        = some b := hget
  rw [get_set] at hget'
  by_cases ht : t' = t
  · rw [if_pos ht] at hget'
    cases hget'
    cases he
    rw [ht]
    -- the higher of the epoch that is heard now and the one that was held
    rcases le_total ((n.rootBeacons.get t).elim 0 fun b => b.epoch.getD 0) epoch with hle | hle
    · rw [max_eq_left hle]
      exact List.mem_cons_self
    rw [max_eq_right hle] at hpos ⊢
    apply List.mem_cons_of_mem
    cases hheld : n.rootBeacons.get t with
    | none =>
      rw [hheld] at hpos
      exact absurd hpos (lt_irrefl 0)
    | some b =>
      rw [hheld] at hpos
      cases hepoch : b.epoch with
      | none =>
        have hzero : (0 : Int) < b.epoch.getD 0 := hpos
        rw [hepoch] at hzero
        exact absurd hzero (lt_irrefl 0)
      | some e' =>
        have hpos' : (0 : Int) < b.epoch.getD 0 := hpos
        show Event.heard t (b.epoch.getD 0) ∈ n.journal
        rw [hepoch] at hpos' ⊢
        exact h t b e' hheld hepoch hpos'
  · rw [if_neg ht] at hget'
    apply List.mem_cons_of_mem
    exact h t' b e hget' he hpos

theorem Records.move (h : Move cfg P n n') (hn : n.Records) : n'.Records := by
  have hmono : (∀ t b, n'.rootBeacons.get t = some b → n.rootBeacons.get t = some b) →
      n'.Records := hn.mono fun _ hev => h.mem_journal hev
  cases h with
  | side h =>
    have hsame : n'.rootBeacons = n.rootBeacons := congrArg NodeCore.rootBeacons h
    exact hmono fun t b hb => by rwa [hsame] at hb
  | @heard t root epoch => exact Records.recordBeacon hn t root epoch
  | plant exp =>
    intro t' b e hget he hpos
    rw [get_set] at hget
    split at hget
    · cases hget
      cases he
    · exact hn t' b e hget he hpos
  | dropBeacons keep => exact hmono fun t b hb => (get_filter_some.mp hb).1
  | dropBeacon t =>
    apply hmono
    intro t' b hb
    exact of_get_delete hb
  | wipe => exact hmono fun t b hb => by cases hb
  | _ => exact hmono fun _ _ hb => hb

theorem run_records (w : World) (as : Run) : (run (step cfg) (boot w) as).Records := by
  have hstep (n : Node) (a : World × Act) (h : n.Wf ∧ n.Records) :
      (n.step cfg a).Wf ∧ (n.step cfg a).Records :=
    ⟨h.1.step a, step_rule (I := Records) h.1 (fun _ _ _ hm => Records.move hm) h.2⟩
  have hboot : (boot w).Wf ∧ (boot w).Records := ⟨boot_wf w, fun t b e hget => by cases hget⟩
  exact (run_invariant hstep hboot as).2

/-! ### What a conviction survives -/

/-- Before its time a conviction goes by a later one only. -/
theorem Convicts.move (h : Move cfg P n n') (hn : n.Convicts t root e T) (hT : n.now < T)
    (hP : ∀ r e', P (.convict t r e') → e' < e) : n'.Convicts t root e T := by
  obtain ⟨c, hget, hroot, he, hexp⟩ := hn
  have hsame : n'.rootTombstones.get t = n.rootTombstones.get t → n'.Convicts t root e T :=
    fun hs => ⟨c, hs.trans hget, hroot, he, hexp⟩
  cases h with
  | side h => exact hsame (congrArg (fun k => k.rootTombstones.get t) h)
  | @convict t' r e' exp hP' hexp' hlater =>
    apply hsame
    rw [get_set, if_neg]
    rintro rfl
    have hle := hlater c hget
    have hlt := hP r e' hP'
    omega
  | @lapse t' c' hget' hexp' =>
    apply hsame
    rw [get_delete, if_neg]
    rintro rfl
    cases hget.symm.trans hget'
    omega
  | _ => exact hsame rfl

/-- A step in time that convicts nobody of the topic at the epoch or above. -/
theorem Convicts.step (hwf : n.Wf) (hn : n.Convicts t root e T) {a : World × Act}
    (hT : a.1.wall < T) (ha : ∀ r e', a.2 = .evict t r e' → e' < e) :
    (n.step cfg a).Convicts t root e T := by
  have hkept : (n.step cfg a).Convicts t root e T ∧ (n.step cfg a).now < T := by
    refine step_rule (I := fun m => m.Convicts t root e T ∧ m.now < T) hwf ?_ ⟨hn, hT⟩
    intro P m m' hP _ _ hmove hm
    refine ⟨hm.1.move hmove hm.2 fun r e' hconvict => ?_, by rw [hmove.now]; exact hm.2⟩
    have htakes := hP _ hconvict
    generalize hact : a.2 = a' at htakes
    cases htakes with
    | evict => exact ha r e' hact
  exact hkept.1

/-- A run in time that convicts nobody of the topic at the epoch or above. -/
theorem Convicts.run (hwf : n.Wf) (hn : n.Convicts t root e T) {as : Run}
    (hT : ∀ a ∈ as, a.1.wall < T) (ha : ∀ a ∈ as, ∀ r e', a.2 = .evict t r e' → e' < e) :
    (Library.run (Node.step cfg) n as).Convicts t root e T := by
  induction as generalizing n with
  | nil => exact hn
  | cons a as ih =>
    have hstep : (n.step cfg a).Convicts t root e T :=
      hn.step hwf (hT a List.mem_cons_self) (ha a List.mem_cons_self)
    apply ih (hwf.step a) hstep
    · exact fun a' ha' => hT a' (List.mem_cons_of_mem a ha')
    · exact fun a' ha' => ha a' (List.mem_cons_of_mem a ha')

/-- What follows the conviction in an eviction touches no conviction. -/
theorem rootTombstones_flightEvict
    (h : (n.rootTombstones.get t).all (fun prev => prev.epoch ≤ e) = true) (root : NodeId) :
    (n.flightEvict t root e).rootTombstones
      = n.rootTombstones.set t ⟨root, e, n.now + rootTombstoneTtlMs⟩ := by
  unfold flightEvict
  rw [if_pos h]
  simp only []
  -- the record of the root goes, and then the winner that was accepted and the hold
  split
  · split <;> rfl
  split
  · split
    · split <;> rfl
    · rfl
  · split
    · split <;> rfl
    · rfl

/-- An eviction convicts, unless the topic's conviction is of a later epoch. -/
theorem convicts_flightEvict
    (h : (n.rootTombstones.get t).all (fun prev => prev.epoch ≤ e) = true) (root : NodeId) :
    (n.flightEvict t root e).Convicts t root e (n.now + rootTombstoneTtlMs) := by
  refine ⟨⟨root, e, n.now + rootTombstoneTtlMs⟩, ?_, rfl, le_rfl, le_rfl⟩
  rw [rootTombstones_flightEvict h, get_set, if_pos rfl]

/-! ### What a target is -/

/-- The live closer root is the one the topic's record names, and no conviction of it stands at the
record's epoch. -/
theorem of_liveCloserRoot {requireReachable : Bool}
    (h : (n.liveCloserRoot cfg t requireReachable).1 = some root) :
    ∃ b, n.rootBeacons.get t = some b ∧ b.root = root
      ∧ (n.rootTombstoned t b.root b.epoch).1 = false := by
  unfold liveCloserRoot at h
  cases hb : n.rootBeacons.get t with
  | none =>
    rw [hb] at h
    cases h
  | some b =>
    rw [hb] at h
    simp only [] at h
    refine ⟨b, rfl, ?_⟩
    split at h
    · cases h
    split at h
    · cases h
    split at h
    · cases h
    split at h
    · cases h
    next hfree =>
    split at h
    · exact ⟨Option.some.inj h, Bool.not_eq_true _ ▸ hfree⟩
    · cases h

/-- A record that names a convicted root passes at a later epoch only. -/
theorem Convicts.lt_epoch (hn : n.Convicts t root e T) (hT : n.now < T) {epoch : Option Int}
    (h : (n.rootTombstoned t root epoch).1 = false) : e < epoch.getD 0 := by
  obtain ⟨c, hget, hroot, he, hexp⟩ := hn
  unfold rootTombstoned at h
  rw [hget] at h
  simp only [] at h
  rw [if_neg (by omega), hroot] at h
  simp at h
  omega

/-- **A convicted root is no target.** From its conviction until the conviction's time is over, or
another one of the topic replaces it, a root is named as the live closer one only if a beacon of the
topic at a later epoch was accepted. -/
theorem convicted_no_target (cfg : Config) (w : World) (as bs : Run) (now : World) (t : TopicId)
    (root : NodeId) (e : Int) (we : World) (he : 0 ≤ e)
    (hconvicts : ((run (step cfg) (boot w) as).rootTombstones.get t).all
      (fun prev => prev.epoch ≤ e) = true)
    (hlast : ∀ x ∈ bs, ∀ r e', x.2 = .evict t r e' → e' < e)
    (hintime : (∀ x ∈ bs, x.1.wall < we.wall + rootTombstoneTtlMs)
      ∧ now.wall < we.wall + rootTombstoneTtlMs) (requireReachable : Bool)
    (htarget : (liveCloserRoot cfg
      { run (step cfg) (boot w) (as ++ (we, .evict t root e) :: bs) with world := now } t
      requireReachable).1 = some root) :
    ∃ e', e < e' ∧
      .heard t e' ∈ (run (step cfg) (boot w) (as ++ (we, .evict t root e) :: bs)).journal := by
  have hrecords : (run (step cfg) (boot w) (as ++ (we, .evict t root e) :: bs)).Records :=
    run_records w (as ++ (we, .evict t root e) :: bs)
  have hconvicted : (run (step cfg) (boot w) (as ++ (we, .evict t root e) :: bs)).Convicts t root e
      (we.wall + rootTombstoneTtlMs) := by
    have hwf : (run (step cfg) (boot w) as).Wf := run_wf w as
    have hbegin : ((run (step cfg) (boot w) as).step cfg (we, .evict t root e)).Convicts t root e
        (we.wall + rootTombstoneTtlMs) :=
      convicts_flightEvict (n := { run (step cfg) (boot w) as with world := we }) hconvicts root
    rw [run_append, run_cons]
    exact hbegin.run (hwf.step _) hintime.1 hlast
  obtain ⟨b, hb, hroot, hfree⟩ := of_liveCloserRoot htarget
  rw [hroot] at hfree
  have hlater : e < b.epoch.getD 0 :=
    Convicts.lt_epoch
      (n := { run (step cfg) (boot w) (as ++ (we, .evict t root e) :: bs) with world := now })
      hconvicted hintime.2 hfree
  cases hepoch : b.epoch with
  | none =>
    rw [hepoch] at hlater
    exact absurd hlater (not_lt.mpr he)
  | some e' =>
    rw [hepoch, Option.getD_some] at hlater
    exact ⟨e', hlater, hrecords t b e' hb hepoch (by omega)⟩

/-- The root of the sample topic is convicted at 3, and says 5 later on. -/
theorem convicted_says_later :
    ∃ e', 3 < e' ∧ .heard sampleTopicId e' ∈ (run (step sampleConfig) (boot (sampleWorld 0))
      [(sampleWorld 0, .evict sampleTopicId sampleTopicId 3),
        (sampleWorld 1, .beacon sampleTopicId [(sampleTopicId, some 5)])]).journal :=
  convicted_no_target sampleConfig (sampleWorld 0) []
    [(sampleWorld 1, .beacon sampleTopicId [(sampleTopicId, some 5)])] (sampleWorld 1) sampleTopicId
    sampleTopicId 3 (sampleWorld 0) (by decide) rfl
    (by
      intro x hx r e' h
      obtain rfl := List.mem_singleton.mp hx
      cases h)
    ⟨by decide, by decide⟩ false (by decide +kernel)

/-- **A conviction lapses**: after its time a beacon at the epoch of the conviction makes the root a
target again. -/
theorem conviction_lapses :
    ¬∀ (w : World) (as bs : Run) (t : TopicId) (root : NodeId) (e : Int) (we now : World)
      (requireReachable : Bool),
      (∀ x ∈ bs, ∀ topics, x.2 = .beacon root topics →
        ∀ y ∈ topics, y.1 = t → beaconEpoch y.2 ≤ e) →
      (liveCloserRoot sampleConfig { run (step sampleConfig) (boot w)
        (as ++ (we, .evict t root e) :: bs) with world := now } t requireReachable).1
          ≠ some root := by
  intro h
  refine h (sampleWorld 0) []
    [(sampleWorld 700000, .beacon sampleTopicId [(sampleTopicId, some 3)])] sampleTopicId
    sampleTopicId 3 (sampleWorld 0) (sampleWorld 700000) false ?_ (by decide +kernel)
  intro x hx topics htopics y hy _
  obtain rfl := List.mem_singleton.mp hx
  obtain rfl := (Act.beacon.inj htopics).2
  obtain rfl := List.mem_singleton.mp hy
  decide

end Node

end Axona
