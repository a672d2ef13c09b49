import Axona.Dht.Membership
import Axona.Safety.Inserts

/-! # Only authenticated peers enter the table

Three things are decided for a peer before it enters and not asked again: a call that waits for its
channel, a join that waits for its sponsor's, and a loop that has listed the bound peers. In a run
every peer enters while the transport holds it, and a peer that died stays out until it is bound
again, exactly where these three find their peer still held. -/

namespace Axona

open Library Synaptome OrderedMap

namespace Synaptome

variable {c : GateNode} {t : Synaptome} {p q : NodeId}

theorem holds_seedInsert : (t.seedInsert c p).holds q = (decide (q = p) || t.holds q) := by
  unfold Synaptome.holds seedInsert
  rw [has_set, has_set]
  simp [Bool.or_assoc]

theorem holds_set_big (x : Synapse) :
    Synaptome.holds (t.set (.big p) x) q = (decide (q = p) || t.holds q) := by
  unfold Synaptome.holds
  rw [has_set, has_set]
  simp [Bool.or_assoc]

theorem holds_of_delete {key : TableKey} (h : Synaptome.holds (t.delete key) q = true) :
    t.holds q = true := by
  rw [holds_iff] at h ⊢
  obtain ⟨e, he, rfl⟩ := List.mem_map.mp h
  exact mem_peers (List.mem_filter.mp he).1

end Synaptome

namespace AdmissionGate

variable {c : GateNode} {g : AdmissionGate} {w : Surroundings} {now : Int} {p q : NodeId}

theorem Live.set (h : g.Live) (x : Synapse) :
    AdmissionGate.Live { g with synaptome := g.synaptome.set (.big p) x } := by
  intro e he
  rcases List.mem_cons.mp ((entries_set_perm g.synaptome _ _).mem_iff.mp he) with
    rfl | he
  · rfl
  · exact h e (List.mem_filter.mp he).1

theorem Live.delete (h : g.Live) (key : TableKey) :
    AdmissionGate.Live { g with synaptome := g.synaptome.delete key } :=
  fun e he => h e (List.mem_filter.mp he).1

theorem Live.not_hex (h : g.Live) : g.synaptome.has (.hex p) = false := by
  by_contra hhas
  obtain ⟨x, hx⟩ := has_iff.mp (Bool.of_not_eq_false hhas)
  have htext := h _ (mem_of_get hx)
  cases htext

/-- In a table of ids a deleted peer is gone. -/
theorem Live.not_holds_delete (h : g.Live) :
    Synaptome.holds (g.synaptome.delete (.big p)) p = false := by
  have hhex := (h.delete (.big p)).not_hex (p := p)
  have hbig : (OrderedMap.delete g.synaptome (.big p)).has (.big p) = false := by
    unfold OrderedMap.has
    rw [get_delete, if_pos rfl]
    rfl
  unfold Synaptome.holds
  rw [hbig]
  exact hhex

theorem Live.offer (h : g.Live) (c : GateNode) (w : Surroundings) (now : Int) (p : NodeId) :
    (g.offer c w now p).Live := h.step ⟨p, w, now⟩

/-- The victim of a swap is an entry. -/
theorem swap_mem {l : Lane} {key : TableKey} {near : Bool}
    (h : (g.synaptome.gateDecision c w l now p).1 = .swap key near) :
    ∃ e ∈ g.synaptome.entries, e.1 = key := by
  unfold gateDecision at h
  split at h
  · unfold laneDecision at h
    simp only [] at h
    split_ifs at h
  unfold swapDecision at h
  split at h
  · cases h
  split at h
  · cases h
  next v hv =>
  obtain ⟨e, he, hkey, -⟩ := victim_mem hv
  split at h
  · split at h <;> cases h
  · cases h
    exact ⟨e, he, hkey.symm⟩

end AdmissionGate

/-- Does the decision let the sponsor in? -/
def Admission.admits : Admission → Bool
  | .room | .lane _ _ | .swap _ _ => true
  | .refuse _ | .throws => false

namespace AdmissionGate

variable {c : GateNode} {g : AdmissionGate} {w : Surroundings} {now : Int} {p q : NodeId}

/-- What an offer leaves in the table: no new peer but an admitted sponsor. -/
theorem holds_offer (h : (g.offer c w now p).synaptome.holds q = true) : g.synaptome.holds q = true
      ∨ q = p ∧ (g.synaptome.gateDecision c w g.lane now p).1.admits = true := by
  have hseed : ∀ t : Synaptome, (t.holds q = true → g.synaptome.holds q = true) →
      (t.seedInsert c p).holds q = true → g.synaptome.holds q = true ∨ q = p := by
    intro t ht hq
    rw [holds_seedInsert, Bool.or_eq_true] at hq
    exact (hq.imp of_decide_eq_true ht).symm
  unfold offer at h
  split at h
  · exact .inl h
  simp only [] at h
  cases hd : (g.synaptome.gateDecision c w g.lane now p).1 with
  | refuse why | throws =>
    rw [hd] at h
    exact .inl h
  | room | lane key t =>
    rw [hd] at h
    exact (hseed g.synaptome (fun hq => hq) h).imp_right fun hq => ⟨hq, rfl⟩
  | swap key near =>
    rw [hd] at h
    unfold gateCommit at h
    simp only [] at h
    split at h
    · exact .inl h
    · exact (hseed _ holds_of_delete h).imp_right fun hq => ⟨hq, rfl⟩

/-- An admitted sponsor is in the table after. -/
theorem Live.offer_holds (h : g.Live)
    (hd : (g.synaptome.gateDecision c w g.lane now p).1.admits = true) :
    (g.offer c w now p).synaptome.holds p = true := by
  unfold AdmissionGate.offer
  split
  next hholds => exact hholds
  simp only []
  have hin : ∀ t : Synaptome, (t.seedInsert c p).holds p = true := fun t => by
    rw [holds_seedInsert, decide_eq_true rfl, Bool.true_or]
  cases hdec : (g.synaptome.gateDecision c w g.lane now p).1 with
  | refuse why | throws =>
    rw [hdec] at hd
    cases hd
  | room | lane key t => exact hin _
  | swap key near =>
    obtain ⟨e, he, rfl⟩ := swap_mem hdec
    unfold gateCommit
    simp only [h e he, Bool.and_false, Bool.false_eq_true, if_false]
    exact hin _

end AdmissionGate

namespace Membership

variable {c : MembershipConfig} {s : Membership} {v : SeedView} {p q : NodeId}

/-- Is the peer in the table? -/
def Held (s : Membership) (p : NodeId) : Prop := s.synaptome.holds p = true

/-- Does a seed enter the peer? -/
def admits (c : MembershipConfig) (s : Membership) (v : SeedView) (p : NodeId) : Bool :=
  v.allowed && (!c.gated
    || (s.synaptome.gateDecision c.inserts.node v.around s.inserts.gate.lane v.now p).1.admits)

/-- What is asked of an act: who enters is held authenticated, and who died is out. -/
structure Authentic (c : MembershipConfig) (s : Membership) (a : Act) : Prop where
  enters : ∀ p, ¬s.Held p → (s.step c a).Held p → p ∈ (s.step c a).bound
  died : ∀ p ∈ (s.step c a).died, ¬(s.step c a).Held p

/-- A peer that was decided on earlier and enters now is still authenticated. -/
def StillBound (c : MembershipConfig) (s : Membership) : Act → Prop
  | .next reconciling v => ∀ p, s.toOffer.head? = some p →
      (reconciling = true → p ≠ c.inserts.node.id) → ¬s.Held p → s.admits c v p = true → p ∈ s.bound
  | .joined k v => s.toOffer = [] → ∀ p, s.joins.get k = some ⟨p, some true⟩ → ¬s.Held p →
      s.admits c v p = true → p ∈ s.bound
  | .call a => s.toOffer = [] → ∀ p, s.inserts.Enters a p → ¬s.Held p → p ∈ s.bound
  | _ => True

/-- Every key is an id, and a peer that died is neither held nor in the table. -/
structure DeadAreOut (s : Membership) : Prop where
  live : s.inserts.gate.Live
  unbound : ∀ p ∈ s.died, p ∉ s.bound
  out : ∀ p ∈ s.died, ¬s.Held p

/-! ### A seed -/

/-- What a seed does. -/
structure Seeded (c : MembershipConfig) (s : Membership) (v : SeedView) (p : NodeId)
    (s' : Membership) : Prop where
  live : s.inserts.gate.Live → s'.inserts.gate.Live
  died : s'.died = s.died
  bound : ∀ q ∈ s'.bound, q ∈ s.bound
  held : ∀ q, s'.Held q → s.Held q ∨ q = p ∧ s.admits c v p = true
  keeps : p ∈ s.bound → s'.Held p → p ∈ s'.bound
  enters : s.inserts.gate.Live → s.admits c v p = true → s'.Held p

theorem seeded_seed (c : MembershipConfig) (s : Membership) (v : SeedView) (p : NodeId) :
    Seeded c s v p (s.seed c v p) := by
  unfold seed
  by_cases hpass : (s.synaptome.holds p || !v.allowed) = true
  · rw [if_pos hpass]
    refine ⟨fun h => h, rfl, fun q hq => hq, fun q hq => .inl hq, fun h _ => h, fun _ had => ?_⟩
    rw [Bool.or_eq_true, Bool.not_eq_true'] at hpass
    refine hpass.resolve_right fun hno => ?_
    unfold admits at had
    rw [hno] at had
    cases had
  rw [if_neg hpass]
  have hallowed : v.allowed = true := by
    rw [Bool.or_eq_true, not_or, Bool.not_eq_true', Bool.not_eq_false] at hpass
    exact hpass.2
  cases hgated : c.gated with
  | true =>
    have hadmits : s.admits c v p
        = (s.synaptome.gateDecision c.inserts.node v.around s.inserts.gate.lane v.now p).1.admits
        := by
      unfold admits
      rw [hallowed, hgated]
      rfl
    refine ⟨fun h => h.offer _ _ _ _, rfl, fun q hq => (List.mem_filter.mp hq).1, ?_, ?_, ?_⟩
    · intro q hq
      rw [hadmits]
      exact AdmissionGate.holds_offer hq
    · intro hp hheld
      refine List.mem_filter.mpr ⟨hp, ?_⟩
      have hheld' : (s.inserts.gate.offer c.inserts.node v.around v.now p).synaptome.holds p
          = true := hheld
      rw [hheld', Bool.or_true, Bool.true_or]
    · intro hlive had
      rw [hadmits] at had
      exact hlive.offer_holds had
  | false =>
    refine ⟨fun h => h.set _, rfl, fun q hq => hq, ?_, fun h _ => h, fun _ _ => ?_⟩
    · intro q hq
      have hq' : (s.synaptome.seedInsert c.inserts.node p).holds q = true := hq
      rw [holds_seedInsert, Bool.or_eq_true] at hq'
      refine (hq'.imp of_decide_eq_true fun h => h).symm.imp_right fun hqp => ⟨hqp, ?_⟩
      unfold admits
      rw [hallowed, hgated]
      rfl
    · show (s.synaptome.seedInsert c.inserts.node p).holds p = true
      rw [holds_seedInsert, decide_eq_true rfl, Bool.true_or]

/-! ### What every act keeps -/

/-- An act under the condition. -/
structure EntersBound (s s' : Membership) : Prop where
  deadAreOut : s'.DeadAreOut
  enters : ∀ p, ¬s.Held p → s'.Held p → p ∈ s'.bound

theorem held_closeConnection : (s.closeConnection c p).Held q ↔ s.Held q := by
  unfold closeConnection
  split <;> rfl

namespace DeadAreOut

variable {s' : Membership}

/-- An act that enters nobody, binds nobody, and lets nobody die. -/
theorem shrink (h : s.DeadAreOut) (hlive : s'.inserts.gate.Live) (hheld : ∀ p, s'.Held p → s.Held p)
    (hbound : ∀ p ∈ s'.bound, p ∈ s.bound) (hdied : s'.died = s.died) : EntersBound s s' := by
  refine ⟨⟨hlive, fun p hp hb => ?_, fun p hp hh => ?_⟩, fun p hout hin => ?_⟩
  · rw [hdied] at hp
    exact h.unbound p hp (hbound p hb)
  · rw [hdied] at hp
    exact h.out p hp (hheld p hh)
  · exact absurd (hheld p hin) hout

theorem closeConnection (h : s.DeadAreOut) (c : MembershipConfig) (p : NodeId) :
    (s.closeConnection c p).DeadAreOut := by
  unfold Membership.closeConnection
  split
  · exact h
  · exact ⟨h.live, fun q hq hb => h.unbound q hq (List.mem_filter.mp hb).1, h.out⟩

/-- A peer is closed after it left the table. -/
theorem close (h : EntersBound s s') (hheld : ∀ q, s'.Held q → s.Held q) (c : MembershipConfig)
    (p : NodeId) : EntersBound s (s'.closeConnection c p) :=
  ⟨h.deadAreOut.closeConnection c p, fun q hout hin =>
    absurd (hheld q (held_closeConnection.mp hin)) hout⟩

/-- An act that enters at most one peer, which is held authenticated. -/
theorem grow (h : s.DeadAreOut) (hlive : s'.inserts.gate.Live)
    (hheld : ∀ q, s'.Held q → s.Held q ∨ q = p) (hbound : ∀ q ∈ s'.bound, q ∈ s.bound)
    (hdied : s'.died = s.died) (hp : ¬s.Held p → p ∈ s.bound)
    (hkeeps : p ∈ s.bound → s'.Held p → p ∈ s'.bound) : EntersBound s s' := by
  refine ⟨⟨hlive, fun q hq hb => ?_, fun q hq hh => ?_⟩, fun q hout hin => ?_⟩
  · rw [hdied] at hq
    exact h.unbound q hq (hbound q hb)
  · rw [hdied] at hq
    rcases hheld q hh with hheld | rfl
    · exact h.out q hq hheld
    · exact h.unbound q hq (hp (h.out q hq))
  · rcases hheld q hin with hheld | rfl
    · exact absurd hheld hout
    · exact hkeeps (hp hout) hin

theorem seeded (h : s.DeadAreOut) (hseed : Seeded c s v p s')
    (hbound : ¬s.Held p → s.admits c v p = true → p ∈ s.bound) : EntersBound s s' := by
  by_cases had : s.admits c v p = true
  · exact h.grow (hseed.live h.live) (fun q hq => (hseed.held q hq).imp_right And.left)
      hseed.bound hseed.died (fun hout => hbound hout had) hseed.keeps
  · exact h.shrink (hseed.live h.live)
      (fun q hq => (hseed.held q hq).resolve_right fun hq => had hq.2) hseed.bound hseed.died

/-- A bind lets the peer live again. -/
theorem bindPeer (h : s.DeadAreOut) (p : NodeId) : (s.bindPeer p).DeadAreOut := by
  refine ⟨h.live, fun q hq hb => ?_, fun q hq => h.out q (List.mem_filter.mp hq).1⟩
  obtain ⟨hdied, hne⟩ := List.mem_filter.mp hq
  have hmem : q ∈ s.bound ∨ q = p := by
    unfold Membership.bindPeer at hb
    split at hb
    · exact .inl hb
    · exact (List.mem_append.mp hb).imp_right List.mem_singleton.mp
  rcases hmem with hmem | rfl
  · exact h.unbound q hdied hmem
  · exact of_decide_eq_true hne rfl

/-- A death takes the peer out. -/
theorem die (h : s.DeadAreOut) (c : MembershipConfig) (p : NodeId) : EntersBound s (s.perform c (.die p)) := by
  have hheld : ∀ q, (s.perform c (.die p)).Held q → s.Held q := fun q hq => holds_of_delete hq
  refine ⟨⟨h.live.delete _, fun q hq hb => ?_, fun q hq hh => ?_⟩, fun q hout hin => ?_⟩
  · obtain ⟨hb, hne⟩ := List.mem_filter.mp hb
    rcases List.mem_cons.mp hq with rfl | hq
    · exact of_decide_eq_true hne rfl
    · exact h.unbound q hq hb
  · rcases List.mem_cons.mp hq with rfl | hq
    · have hgone := h.live.not_holds_delete (p := q)
      exact Bool.false_ne_true (hgone.symm.trans hh)
    · exact h.out q hq (hheld q hh)
  · exact absurd (hheld q hin) hout

/-- What a call makes of the table. -/
theorem fed {a : Inserts.Act} {I : Inserts} (h : s.DeadAreOut)
    (hfed : Inserts.Fed (c := c.inserts) s.inserts a I.gate)
    (ha : ∀ w now p, a ≠ .offer w now p)
    (hbound : ∀ p, s.inserts.Enters a p → ¬s.Held p → p ∈ s.bound) :
    EntersBound s { s with inserts := I } := by
  obtain ⟨g, incoming, calls, nextCall⟩ := I
  cases hfed with
  | same => exact h.shrink h.live (fun q hq => hq) (fun q hq => hq) rfl
  | loses key =>
    exact h.shrink (h.live.delete key) (fun q hq => holds_of_delete hq) (fun q hq => hq) rfl
  | enters peer x henters =>
    refine h.grow (p := peer) (h.live.set x) (fun q hq => ?_) (fun q hq => hq) rfl
      (hbound peer henters) (fun hp _ => hp)
    have hq' : Synaptome.holds (s.inserts.gate.synaptome.set (.big peer) x) q = true := hq
    rw [holds_set_big, Bool.or_eq_true] at hq'
    exact (hq'.imp of_decide_eq_true fun h => h).symm
  | offer w now sponsor hoffer => exact absurd hoffer (ha w now sponsor)

theorem call (h : s.DeadAreOut) (c : MembershipConfig) (a : Inserts.Act)
    (hbound : ∀ p, s.inserts.Enters a p → ¬s.Held p → p ∈ s.bound) : EntersBound s (s.callStep c a) := by
  have hsame : EntersBound s s := h.shrink h.live (fun q hq => hq) (fun q hq => hq) rfl
  have hstep : ∀ a', (∀ w now p, a' ≠ .offer w now p) →
      (∀ p, s.inserts.Enters a' p → s.inserts.Enters a p) →
      EntersBound s { s with inserts := s.inserts.step c.inserts a' } := fun a' ha' henters =>
    h.fed (Inserts.fed_step c.inserts s.inserts a') ha' fun p hp => hbound p (henters p hp)
  cases a with
  | candidate peer eligible inertia | offer w now sponsor | gone key => exact hsame
  | promote peer latency stratum inertia | probed k eligible replies pick
  | hopCache target inertia | closed k | resume k allowed latency | incoming peer =>
    exact hstep _ (fun w now p he => by cases he) fun p hp => hp
  | answered k opened =>
    refine hstep _ (fun w now p he => by cases he) fun p hp => ?_
    obtain ⟨k', latency, he⟩ := hp.resumes
    cases he
  | evict dead stratum =>
    have hgood := hstep (.evict dead stratum) (fun w now p he => by cases he) fun p hp => hp
    exact close hgood (fun q hq => holds_of_delete hq) c dead.id

theorem perform (h : s.DeadAreOut) (a : Act) (hloop : s.toOffer = [] ∨ a.inLoop = true)
    (hstill : s.StillBound c a) : EntersBound s (s.perform c a) := by
  have hsame : EntersBound s s := h.shrink h.live (fun q hq => hq) (fun q hq => hq) rfl
  cases a with
  | bind peer stale v =>
    have hbind := h.bindPeer peer
    unfold Membership.perform
    simp only []
    split
    · exact ⟨hbind, fun q hout hin => absurd hin hout⟩
    have hmem : peer ∈ (s.bindPeer peer).bound := by
      unfold Membership.bindPeer
      split
      next hmem => exact List.contains_iff_mem.mp hmem
      · exact List.mem_append_right _ List.mem_cons_self
    have hgood := hbind.seeded (seeded_seed c _ v peer) fun _ _ => hmem
    exact ⟨hgood.deadAreOut, hgood.enters⟩
  | die peer => exact h.die c peer
  | leaving peer =>
    unfold Membership.perform
    simp only []
    split
    · have hdelete : EntersBound s (s.setSynaptome (s.synaptome.delete (.big peer))) :=
        h.shrink (h.live.delete _) (fun q hq => holds_of_delete hq) (fun q hq => hq) rfl
      exact close hdelete (fun q hq => holds_of_delete hq) c peer
    · exact hsame
  | close peer => exact close hsame (fun q hq => hq) c peer
  | consider peer eligible v =>
    unfold Membership.perform
    simp only []
    split
    · exact hsame
    split
    · next hmem =>
      exact h.seeded (seeded_seed c s v peer) fun _ _ => List.contains_iff_mem.mp hmem
    · exact hsame
  | list | stop | join sponsor => exact h.shrink h.live (fun q hq => hq) (fun q hq => hq) rfl
  | next reconciling v =>
    unfold Membership.perform
    cases hhead : s.toOffer.head? with
    | none => exact hsame
    | some peer =>
      simp only [Option.elim_some]
      split
      · exact h.shrink h.live (fun q hq => hq) (fun q hq => hq) rfl
      next hpass =>
      have hrest : s.pass.DeadAreOut := ⟨h.live, h.unbound, h.out⟩
      have hgood := hrest.seeded (seeded_seed c _ v peer) fun hout had =>
        hstill peer hhead (fun hr he => hpass ⟨hr, .inl he⟩) hout had
      exact ⟨hgood.deadAreOut, hgood.enters⟩
  | joinAnswered k opened =>
    unfold Membership.perform
    simp only []
    split
    · exact h.shrink h.live (fun q hq => hq) (fun q hq => hq) rfl
    · exact hsame
  | joined k v =>
    have hempty := hloop.resolve_right fun hin => by cases hin
    unfold Membership.perform
    simp only []
    split
    · next sponsor hjoin =>
      have hrest : DeadAreOut { s with joins := s.joins.delete k } := ⟨h.live, h.unbound, h.out⟩
      have hgood := hrest.seeded (seeded_seed c _ v sponsor) fun hout had =>
        hstill hempty sponsor hjoin hout had
      exact ⟨hgood.deadAreOut, hgood.enters⟩
    · exact hsame
  | call a =>
    have hempty := hloop.resolve_right fun hin => by cases hin
    exact h.call c a fun p hp hout => hstill hempty p hp hout

theorem step (h : s.DeadAreOut) (a : Act) (hstill : s.StillBound c a) : EntersBound s (s.step c a) := by
  unfold Membership.step
  split
  · exact h.shrink h.live (fun q hq => hq) (fun q hq => hq) rfl
  next hrun =>
  refine h.perform a ?_ hstill
  by_cases hempty : s.toOffer = []
  · exact .inl hempty
  · exact .inr (Bool.eq_true_of_not_eq_false fun hin => hrun ⟨hempty, hin⟩)

end DeadAreOut

theorem deadAreOut_init : init.DeadAreOut := by
  refine ⟨fun e he => ?_, fun p hp => ?_, fun p hp => ?_⟩
  · cases he
  · cases hp
  · cases hp

theorem has_big_of_held (h : s.synaptome.has (.big p) = true) : s.Held p := by
  unfold Held Synaptome.holds
  rw [h, Bool.true_or]

theorem stillBound_of_authentic {a : Act} (h : s.DeadAreOut) (hauth : s.Authentic c a) :
    s.StillBound c a := by
  -- A peer that enters by the act was held while it did, and no act but a bind adds to the bound.
  have henters := hauth.enters
  cases a with
  | next reconciling v =>
    intro p hhead hself hout had
    have hseed := seeded_seed c s.pass v p
    have hstep : s.step c (.next reconciling v)
        = s.pass.seed c v p := by
      unfold step
      rw [if_neg fun hloop => by cases hloop.2]
      unfold perform
      simp only [hhead, Option.elim_some]
      rw [if_neg]
      rintro ⟨hr, he | hhas⟩
      · exact hself hr he
      · exact hout (has_big_of_held hhas)
    rw [hstep] at henters
    exact hseed.bound p (henters p hout (hseed.enters h.live had))
  | joined k v =>
    intro hempty p hjoin hout had
    have hseed := seeded_seed c { s with joins := s.joins.delete k } v p
    have hstep : s.step c (.joined k v) = { s with joins := s.joins.delete k }.seed c v p := by
      unfold step
      rw [if_neg fun hloop => hloop.1 hempty]
      unfold perform
      simp only [hjoin]
    rw [hstep] at henters
    exact hseed.bound p (henters p hout (hseed.enters h.live had))
  | call a =>
    intro hempty p hin hout
    obtain ⟨k, x, hr⟩ := hin.step c.inserts
    obtain ⟨k', latency, rfl⟩ := hin.resumes
    have hstep : s.step c (.call (.resume k' true latency))
        = { s with inserts := (s.inserts.ends k).addSynapse p x } := by
      unfold step
      rw [if_neg fun hloop => hloop.1 hempty, ← hr]
      rfl
    rw [hstep] at henters
    refine henters p hout ?_
    show Synaptome.holds (s.inserts.gate.synaptome.set (.big p) x) p = true
    rw [holds_set_big, decide_eq_true rfl, Bool.true_or]
  | _ => trivial

/-- **Who enters is authenticated, and who died stays out, in exactly the runs that find the peers
they decided on earlier still bound.** -/
theorem authentic_iff (c : MembershipConfig) (as : List Act) :
    EachStep (step c) (Authentic c) init as ↔ EachStep (step c) (StillBound c) init as :=
  EachStep.agree_iff (I := DeadAreOut) (fun _ a hs hstill => (hs.step a hstill).deadAreOut)
    (fun _ a hs => ⟨stillBound_of_authentic hs, fun hstill =>
      ⟨(hs.step a hstill).enters, (hs.step a hstill).deadAreOut.out⟩⟩) deadAreOut_init as

/-- A table of two places that protects its nearest peer. -/
def twoPlaces : MembershipConfig := { inserts := { node := AdmissionGate.nearestOnly } }

/-- What a seed reads where every peer, or none, is owed a duty. -/
def seen (duty : Bool) : SeedView where
  around := ⟨fun _ => false, none, fun _ => duty, fun x => some x.weight⟩
  now := 0

/-- The peer 1 is refused over a duty and waits to be closed. A loop over the bound peers then
offers 16, which closes 1 to make room among the closes that wait, and comes to 1. -/
def closedInLoop : List Act :=
  [.bind 16 true (seen false), .bind 4 false (seen false), .bind 8 false (seen false),
    .bind 1 false (seen true), .list, .next true (seen false), .close 1, .next true (seen false),
    .next true (seen false)]

/-- **A loop offers a peer it has closed**: the peer enters the table unauthenticated. -/
theorem closed_enters : ¬EachStep (step twoPlaces) (Authentic twoPlaces) init
    (closedInLoop ++ [.next true (seen false)]) := by
  rw [eachStep_append]
  rintro ⟨-, h, -⟩
  have hout : (run (step twoPlaces) init closedInLoop).synaptome.holds 1 = false := by
    decide +kernel
  have hin : ((run (step twoPlaces) init closedInLoop).step twoPlaces
      (.next true (seen false))).synaptome.holds 1 = true := by
    decide +kernel
  have hbound : 1 ∉ ((run (step twoPlaces) init closedInLoop).step twoPlaces
      (.next true (seen false))).bound := by
    decide +kernel
  exact hbound (h.enters 1 (Bool.eq_false_iff.mp hout) hin)

end Membership

end Axona
