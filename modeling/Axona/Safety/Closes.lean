import Axona.Dht.Perimeter
import Axona.Library.Transition
import Axona.Safety.Gate

/-! # Elective closes and retention

What every close that nothing forced has to respect: the peer is owed nothing, nothing holds it in
the table, a refused peer was not admitted meanwhile, and the mesh leaves no region without a
channel. Three acts do not: a pass of the mesh that selects a peer outside the table to which a duty
is owed, for the set the mesh reads has peers of the table only; an overflow of pending closes that
reaches a peer admitted meanwhile, for it asks for duties only; and a swap that takes one of two
entries of a peer. -/

namespace Axona

open Library Synaptome OrderedMap

/-! ### The selection of the mesh -/

/-- What is selected may be retired, and is not alone in its region. -/
theorem selectMeshRetire_spec {cs : List MeshCandidate} {now minUptimeMs : Int} {x : MeshCandidate}
    (h : selectMeshRetire cs now minUptimeMs = some x) :
    x ∈ cs ∧ x.region.isSome = true ∧ x.isProtected = false ∧ 1 < regionCount cs x.region := by
  have hmany := List.find?_some h
  have hmem := (List.mem_insertionSort _).mp (List.mem_of_find?_eq_some h)
  obtain ⟨hcs, hel⟩ := List.mem_filter.mp hmem
  simp only [MeshCandidate.eligible, Bool.and_eq_true, Bool.not_eq_true'] at hel
  exact ⟨hcs, hel.1.1.1.2, hel.1.2, of_decide_eq_true hmany⟩

/-- A region of more than one candidate has another one. -/
theorem exists_other {cs : List MeshCandidate} (hnodup : (cs.map (·.id)).Nodup) {x : MeshCandidate}
    (hx : x ∈ cs) (hmany : 1 < regionCount cs x.region) :
    ∃ y ∈ cs, y.id ≠ x.id ∧ y.region = x.region := by
  by_contra hnone
  have honly : ∀ y ∈ cs, (y.region.isSome && y.region == x.region) = true → y.id = x.id := by
    intro y hy hregion
    by_contra hne
    exact hnone ⟨y, hy, hne, by simpa using (Bool.and_eq_true_iff.mp hregion).2⟩
  have hle : regionCount cs x.region ≤ cs.countP fun y => y.id == x.id :=
    List.countP_mono_left fun y hy hregion => by simpa using honly y hy hregion
  have hone : (cs.countP fun y => y.id == x.id) = (cs.map (·.id)).count x.id := by
    rw [List.count, List.countP_map]
    rfl
  rw [hone, List.count_eq_one_of_mem hnodup (List.mem_map_of_mem hx)] at hle
  omega

namespace DegreePass

variable {p : DegreePass} {set : Option (List NodeId)}

/-- A channel is not the last open one of its region. -/
def NotLast (p : DegreePass) (id : MeshId) (n : NodeId) : Prop :=
  ∃ id' ch n', id' ≠ id ∧ p.peers.get id' = some ch ∧ 0 < ch.openedAt ∧ ch.nodeId = some n'
    ∧ regionOf n' = regionOf n

/-- What a pass selects among some of the open channels: one of an authenticated peer that the set
does not name, and not the last of its region. -/
theorem selected_spec {opened : List (MeshId × DegreePeer)} (hsub : opened.Sublist p.opened)
    {minUptimeMs : Int} {id : MeshId}
    (h : (selectMeshRetire (opened.map (p.candidate set)) p.now minUptimeMs).map (·.id) = some id) :
    ∃ ch n, p.peers.get id = some ch ∧ ch.nodeId = some n ∧ (∀ ids ∈ set, n ∉ ids)
      ∧ set.isSome = true ∧ p.NotLast id n := by
  obtain ⟨x, hx, rfl⟩ := Option.map_eq_some_iff.mp h
  obtain ⟨hmem, hregion, hfree, hmany⟩ := selectMeshRetire_spec hx
  have hnodup : ((opened.map (p.candidate set)).map (·.id)).Nodup := by
    rw [List.map_map]
    exact (p.peers.keys_nodup).sublist ((hsub.trans List.filter_sublist).map Prod.fst)
  obtain ⟨y, hy, hne, hsame⟩ := exists_other hnodup hmem hmany
  obtain ⟨e, he, rfl⟩ := List.mem_map.mp hmem
  obtain ⟨e', he', rfl⟩ := List.mem_map.mp hy
  obtain ⟨hin, -⟩ := List.mem_filter.mp (hsub.subset he)
  obtain ⟨hin', hopen⟩ := List.mem_filter.mp (hsub.subset he')
  have hfree : resolvesProtected set e.2.nodeId = false := hfree
  have hsame : e'.2.nodeId.map regionOf = e.2.nodeId.map regionOf := hsame
  cases hn : e.2.nodeId with
  | none =>
    rw [hn] at hfree
    cases hfree
  | some n =>
    rw [hn] at hfree hsame
    obtain ⟨n', hn', hregion'⟩ := Option.map_eq_some_iff.mp hsame
    refine ⟨e.2, n, get_of_mem hin, hn, fun ids hids hmem => ?_, ?_, e'.1, e'.2, n', hne,
      get_of_mem hin', ?_, hn', hregion'⟩
    · rw [Option.mem_def.mp hids] at hfree
      simp [resolvesProtected, hmem] at hfree
    · cases set with
      | none => cases hfree
      | some ids => rfl
    · exact of_decide_eq_true (Bool.and_eq_true_iff.mp hopen).1

end DegreePass

/-! ### What a close respects -/

namespace Perimeter

variable (c : PerimeterConfig)

/-- A peer is owed nothing, and none of its entries is held by its distance, its band or its
service. -/
structure Spared (s : Perimeter) (w : Surroundings) (extra : Option NodeId) (id : NodeId) :
    Prop where
  duty : w.duty id = false
  held : ∀ e ∈ s.gate.synaptome.entries, e.1.id = id →
    (s.gate.synaptome.reasons c.node w extra e.1).near = false
      ∧ (s.gate.synaptome.reasons c.node w extra e.1).band = false
      ∧ (s.gate.synaptome.reasons c.node w extra e.1).service = false

/-- What a node sees around it at an act that may close a channel. -/
def Act.around : Act → Option Surroundings
  | .seed w _ _ _ | .promote w _ _ _ | .graceFires w _ | .enforceDegree w _ _
  | .makeRoom w _ _ _ _ => some w
  | .insert _ _ | .gone _ | .clearGrace => none

/-- The pass of the mesh an act is. -/
def Act.pass : Act → Option DegreePass
  | .enforceDegree _ _ p | .makeRoom _ _ p _ _ => some p
  | _ => none

/-- What is asked of a close. -/
def Respected (s : Perimeter) (w : Surroundings) (pass : Option DegreePass) : Close → Prop
  | .swap victimKey sponsor => s.Spared c w (some sponsor) victimKey.id
  | .grace sponsor => s.Spared c w none sponsor ∧ sponsor ∉ s.gate.synaptome.peers
  | .mesh id => ∃ p ∈ pass, ∃ ch n, p.peers.get id = some ch ∧ ch.nodeId = some n
      ∧ s.Spared c w none n ∧ p.NotLast id n

/-- Every close of an act respects what holds its peer. -/
def Elective (s : Perimeter) (a : Act) : Prop :=
  ∀ w ∈ a.around, ∀ x ∈ (s.act c a).2, s.Respected c w a.pass x

/-! ### Where closes do not -/

/-- The pending closes that an overflow makes: the oldest that no duty blocks. -/
def overdue (w : Surroundings) (max : Nat) (pending : OrderedMap NodeId Unit) : List NodeId :=
  (pending.keys.filter fun s => !w.duty s).take (pending.size + 1 - max)

/-- A refusal is deferred. -/
structure Defers (s : Perimeter) (w : Surroundings) (now : Int) (incoming : Nat)
    (sponsor : NodeId) : Prop where
  new : s.gate.synaptome.holds sponsor = false
  refuses : ∃ why,
    (s.gate.synaptome.gateDecision c.node w s.gate.lane now sponsor).1 = .refuse why
  grace : c.grace.closeGraceMs ≠ 0
  first : s.gracePending.has sponsor = false
  headroom : s.headroom c incoming = true

/-- A refusal is deferred, and an overdue close is that of a peer in the table. -/
def DropsAdmitted (s : Perimeter) : Act → Prop
  | .seed w now incoming sponsor => s.Defers c w now incoming sponsor
      ∧ ∃ p ∈ overdue w c.grace.graceMaxPending s.gracePending, p ∈ s.gate.synaptome.peers
  | _ => False

/-- The mesh selects the channel of a peer outside the table to which a duty is owed. -/
def MissesDuty (s : Perimeter) : Act → Prop
  | .enforceDegree w promoting p => ∃ id ch n,
      p.enforceDegree c.degree (s.gate.synaptome.protectedPeers c.node w promoting) = some id
        ∧ p.peers.get id = some ch ∧ ch.nodeId = some n ∧ n ∉ s.gate.synaptome.peers
        ∧ w.duty n = true
  | .makeRoom w promoting p newcomerId excludeIds => ∃ id ch n,
      p.retireForNewcomer c.degree (s.gate.synaptome.protectedPeers c.node w promoting) newcomerId
          excludeIds = some id
        ∧ p.peers.get id = some ch ∧ ch.nodeId = some n ∧ n ∉ s.gate.synaptome.peers
        ∧ w.duty n = true
  | _ => False

/-- A swap takes an entry of a peer that has another one, which is held. -/
def SplitsTwin (s : Perimeter) : Act → Prop
  | .seed w now _ sponsor | .promote w now _ sponsor =>
    s.gate.synaptome.holds sponsor = false ∧ ∃ victimKey near,
      (s.gate.synaptome.gateDecision c.node w s.gate.lane now sponsor).1 = .swap victimKey near
        ∧ (near && victimKey.isText) = false
        ∧ ∃ e ∈ s.gate.synaptome.entries, e.1.id = victimKey.id
          ∧ s.gate.synaptome.isProtected c.node w sponsor e.1 = true
  | _ => False

/-- None of the three. -/
structure Careful (s : Perimeter) (a : Act) : Prop where
  admitted : ¬s.DropsAdmitted c a
  duty : ¬s.MissesDuty c a
  twin : ¬s.SplitsTwin c a

/-! ### Overflows -/

theorem filter_of_find {α : Type*} [DecidableEq α] {l : List α} (hnodup : l.Nodup) {q : α → Bool}
    {x : α} (h : l.find? q = some x) : l.filter q = x :: (l.filter fun a => a ≠ x).filter q := by
  induction l with
  | nil => cases h
  | cons a l ih =>
    obtain ⟨hnew, hnodup⟩ := List.nodup_cons.mp hnodup
    by_cases hq : q a = true
    · rw [List.find?_cons_of_pos hq] at h
      obtain rfl := Option.some.inj h
      have hrest : (l.filter fun b => b ≠ a) = l :=
        List.filter_eq_self.mpr fun b hb => by
          have hne : b ≠ a := fun heq => hnew (heq ▸ hb)
          simpa using hne
      rw [List.filter_cons_of_pos hq, List.filter_cons_of_neg (by simp), hrest]
    · rw [List.find?_cons_of_neg hq] at h
      have hne : a ≠ x := fun heq => hq (heq ▸ List.find?_some h)
      rw [List.filter_cons_of_neg hq, List.filter_cons_of_pos (by simpa using hne),
        List.filter_cons_of_neg hq, ih hnodup h]

/-- An overflow makes the closes that are overdue. -/
theorem overflow_closes (w : Surroundings) (max : Nat) :
    ∀ (n : Nat) (pending : OrderedMap NodeId Unit), pending.size = n →
      (overflow w max n pending).2 = (overdue w max pending).map Close.grace := by
  intro n
  induction n with
  | zero =>
    intro pending hsize
    have hkeys : pending.keys = [] :=
      List.eq_nil_of_length_eq_zero (by rwa [← size_eq_length_keys])
    simp [overflow, overdue, hkeys]
  | succ n ih =>
    intro pending hsize
    unfold overflow overdue
    by_cases hroom : pending.size < max
    · rw [if_pos hroom, show pending.size + 1 - max = 0 by omega]
      simp
    rw [if_neg hroom]
    cases hfind : pending.keys.find? fun s => !w.duty s with
    | none =>
      have hnone : (pending.keys.filter fun s => !w.duty s) = [] :=
        List.filter_eq_nil_iff.mpr (List.find?_eq_none.mp hfind)
      simp [hnone]
    | some picked =>
      have hkeys : (pending.delete picked).keys = pending.keys.filter fun a => a ≠ picked :=
        (List.filter_map (f := Prod.fst) (l := pending.entries)
          (p := fun a => decide (a ≠ picked))).symm
      have hnodup : pending.keys.Nodup := pending.keys_nodup
      have hsplit := filter_of_find hnodup hfind
      rw [← hkeys] at hsplit
      have hsize' : (pending.delete picked).size = n := by
        obtain ⟨u, hu⟩ := has_iff.mp (has_iff_mem_keys.mpr (List.mem_of_find?_eq_some hfind))
        have hlength := (entries_perm_of_get hu).length_eq
        unfold OrderedMap.size at hsize ⊢
        rw [List.length_cons] at hlength
        omega
      rw [hsplit, show pending.size + 1 - max = (pending.delete picked).size + 1 - max + 1 by
        omega, List.take_succ_cons, List.map_cons]
      exact congrArg (List.cons _) (ih _ hsize')

/-! ### The invariant -/

/-- No peer whose close is pending is in the table under a text. -/
def Graced (s : Perimeter) : Prop :=
  ∀ p, s.gracePending.has p = true → s.gate.synaptome.has (.hex p) = false

variable {c} {s : Perimeter} {w : Surroundings} {sponsor : NodeId}

variable {p : NodeId}

/-- No act enters a peer under a text. -/
theorem has_text_offer (g : AdmissionGate) (now : Int) (h : g.synaptome.has (.hex p) = false) :
    (g.offer c.node w now sponsor).synaptome.has (.hex p) = false := by
  have hdelete : ∀ v, (g.synaptome.delete v).has (.hex p) = false := by
    intro v
    unfold OrderedMap.has at h ⊢
    rw [get_delete]
    split
    · rfl
    · exact h
  have hchange := AdmissionGate.change_offer c.node g w now sponsor
  generalize (g.offer c.node w now sponsor).synaptome = t' at hchange ⊢
  cases hchange with
  | same => exact h
  | enter hnew hroom => exact (has_set _ _ _ _).trans (by rw [h]; rfl)
  | swap v hv hnew hfull hk hev hduty =>
    exact (has_set _ _ _ _).trans (by rw [hdelete]; rfl)

theorem has_of_overflow {max : Nat} : ∀ (n : Nat) (pending : OrderedMap NodeId Unit),
    (overflow w max n pending).1.has p = true → pending.has p = true := by
  intro n
  induction n with
  | zero => exact fun _ h => h
  | succ n ih =>
    intro pending h
    unfold overflow at h
    split at h
    · exact h
    split at h
    · exact h
    have hdelete := ih _ h
    unfold OrderedMap.has at hdelete ⊢
    rw [get_delete] at hdelete
    split at hdelete
    · cases hdelete
    · exact hdelete

theorem text_of_holds {t : Synaptome} (h : t.holds sponsor = false) :
    t.has (.hex sponsor) = false := (Bool.or_eq_false_iff.mp h).2

/-- A refusal keeps the invariant. -/
theorem Graced.refused (h : s.Graced) (incoming : Nat)
    (hnew : s.gate.synaptome.has (.hex sponsor) = false) :
    (s.refused c w incoming sponsor).1.Graced := by
  unfold Perimeter.refused
  split_ifs
  · exact h
  · intro p hp
    rw [has_set, Bool.or_eq_true, decide_eq_true_eq] at hp
    rcases hp with rfl | hp
    · exact hnew
    · exact h p (has_of_overflow _ _ hp)
  · exact h

theorem Graced.offer (h : s.Graced) (now : Int) :
    ({ s with gate := s.gate.offer c.node w now sponsor } : Perimeter).Graced :=
  fun p hp => has_text_offer s.gate now (h p hp)

theorem Graced.of_delete (h : s.Graced) (hp : (s.gracePending.delete sponsor).has p = true) :
    s.gate.synaptome.has (.hex p) = false := by
  refine h p ?_
  unfold OrderedMap.has at hp ⊢
  rw [get_delete] at hp
  split at hp
  · cases hp
  · exact hp

/-- An offer: the peer is held already, it is refused, or the gate commits what it decided. -/
theorem seed_cases (s : Perimeter) (w : Surroundings) (now : Int) (incoming : Nat)
    (sponsor : NodeId) :
    (s.gate.synaptome.holds sponsor = true ∧ s.seed c w now incoming sponsor = (s, []))
      ∨ (s.gate.synaptome.holds sponsor = false
        ∧ (∃ why, (s.gate.synaptome.gateDecision c.node w s.gate.lane now sponsor).1 = .refuse why)
        ∧ s.seed c w now incoming sponsor = Perimeter.refused c
          { s with gate := s.gate.offer c.node w now sponsor } w incoming sponsor)
      ∨ (s.gate.synaptome.holds sponsor = false ∧ s.seed c w now incoming sponsor =
          ({ s with gate := s.gate.offer c.node w now sponsor },
            swapped c.node s.gate.synaptome sponsor
              (s.gate.synaptome.gateDecision c.node w s.gate.lane now sponsor).1)) := by
  unfold seed
  by_cases hholds : s.gate.synaptome.holds sponsor = true
  · exact .inl ⟨hholds, if_pos hholds⟩
  rw [if_neg hholds]
  simp only []
  have hholds := Bool.eq_false_iff.mpr hholds
  cases hd : (s.gate.synaptome.gateDecision c.node w s.gate.lane now sponsor).1 with
  | refuse why => exact .inr (.inl ⟨hholds, ⟨why, rfl⟩, rfl⟩)
  | room | lane laneKey t | swap victimKey near | throws => exact .inr (.inr ⟨hholds, rfl⟩)

/-- A promotion: nothing but the lane changes, or the gate commits what it decided. -/
theorem promote_cases (s : Perimeter) (w : Surroundings) (now : Int) (reclassed : Bool)
    (sponsor : NodeId) :
    (∃ l, s.promote c w now reclassed sponsor = ({ s with gate.lane := l }, []))
      ∨ (s.gate.synaptome.holds sponsor = false ∧ s.promote c w now reclassed sponsor =
          ({ s with gate := s.gate.offer c.node w now sponsor },
            swapped c.node s.gate.synaptome sponsor
              (s.gate.synaptome.gateDecision c.node w s.gate.lane now sponsor).1)) := by
  unfold promote
  by_cases hholds : s.gate.synaptome.holds sponsor = true
  · exact .inl ⟨s.gate.lane, if_pos hholds⟩
  rw [if_neg hholds]
  simp only []
  have hholds := Bool.eq_false_iff.mpr hholds
  cases hd : (s.gate.synaptome.gateDecision c.node w s.gate.lane now sponsor).1 with
  | refuse why | swap victimKey near | throws => exact .inr ⟨hholds, rfl⟩
  | room | lane laneKey t =>
    cases reclassed with
    | true => exact .inr ⟨hholds, rfl⟩
    | false => exact .inl ⟨_, rfl⟩

/-- Every act keeps the invariant. -/
theorem Graced.step (h : s.Graced) (a : Act) : (s.step c a).Graced := by
  cases a with
  | seed w now incoming sponsor =>
    change (s.seed c w now incoming sponsor).1.Graced
    rcases seed_cases s w now incoming sponsor with ⟨-, heq⟩ | ⟨hnew, -, heq⟩ | ⟨-, heq⟩
    · rw [heq]
      exact h
    · rw [heq]
      exact (h.offer now).refused incoming (has_text_offer s.gate now (text_of_holds hnew))
    · rw [heq]
      exact h.offer now
  | promote w now reclassed sponsor =>
    change (s.promote c w now reclassed sponsor).1.Graced
    rcases promote_cases s w now reclassed sponsor with ⟨l, heq⟩ | ⟨-, heq⟩
    · rw [heq]
      exact h
    · rw [heq]
      exact h.offer now
  | graceFires w sponsor =>
    unfold Perimeter.step act graceFires
    simp only []
    split_ifs with hpending hin
    · exact fun p hp => h.of_delete hp
    · split
      · intro p hp
        rw [has_set, Bool.or_eq_true, decide_eq_true_eq] at hp
        rcases hp with rfl | hp
        · exact h p hpending
        · exact h.of_delete hp
      · exact fun p hp => h.of_delete hp
    · exact h
  | insert x sponsor =>
    exact fun p hp => (has_set _ _ _ _).trans (by rw [h p hp]; rfl)
  | gone id =>
    intro p hp
    have hhas := h p hp
    change (s.gate.synaptome.delete (.big id)).has (.hex p) = false
    unfold OrderedMap.has at hhas ⊢
    rw [get_delete, if_neg (by simp)]
    exact hhas
  | clearGrace =>
    intro p hp
    cases hp
  | enforceDegree w promoting p | makeRoom w promoting p newcomerId excludeIds => exact h

/-! ### Each close -/

theorem not_mem_peers (hbig : s.gate.synaptome.has (.big sponsor) = false)
    (htext : s.gate.synaptome.has (.hex sponsor) = false) : sponsor ∉ s.gate.synaptome.peers :=
  fun hmem => by
    have hholds := holds_iff.mpr hmem
    unfold holds at hholds
    rw [hbig, htext] at hholds
    cases hholds

/-- A peer outside the table to which nothing is owed is spared by a close. -/
theorem respected_grace (hduty : w.duty sponsor = false) (hout : sponsor ∉ s.gate.synaptome.peers)
    (pass : Option DegreePass) : s.Respected c w pass (.grace sponsor) :=
  ⟨⟨hduty, fun _ he heq => absurd (heq ▸ mem_peers he) hout⟩, hout⟩

theorem respected_doClose (hout : sponsor ∉ s.gate.synaptome.peers) (pass : Option DegreePass)
    {x : Close} (hx : x ∈ doClose w sponsor) : s.Respected c w pass x := by
  unfold doClose at hx
  split_ifs at hx with hduty
  · cases hx
  · obtain rfl := List.mem_singleton.mp hx
    exact respected_grace (Bool.eq_false_iff.mpr hduty) hout pass

variable {now : Int}

/-- The victim of a swap is owed nothing, and its entry is not held. -/
theorem swap_spec {t : Synaptome} {l : Lane} {victimKey : TableKey} {near : Bool}
    (h : (t.gateDecision c.node w l now sponsor).1 = .swap victimKey near) :
    w.duty victimKey.id = false ∧ t.isProtected c.node w sponsor victimKey = false := by
  unfold gateDecision at h
  by_cases hroom : t.size < c.node.cap
  · rw [if_pos hroom] at h
    unfold laneDecision at h
    simp only [] at h
    split_ifs at h
  rw [if_neg hroom] at h
  unfold swapDecision at h
  by_cases hk : c.node.gate.kNear = 0
  · rw [if_pos hk] at h
    cases h
  rw [if_neg hk] at h
  cases hv : t.victim c.node w sponsor with
  | none =>
    rw [hv] at h
    cases h
  | some v =>
    rw [hv] at h
    simp only [] at h
    obtain ⟨e, -, hkey, hev⟩ := victim_mem hv
    split_ifs at h with hduty
    cases h
    refine ⟨Bool.eq_false_iff.mpr hduty, ?_⟩
    rw [hkey]
    simpa using (Bool.and_eq_true_iff.mp hev).1

theorem respected_swapped {l : Lane} {d : Admission}
    (hd : (s.gate.synaptome.gateDecision c.node w l now sponsor).1 = d)
    (htwin : ∀ victimKey near, d = .swap victimKey near → (near && victimKey.isText) = false →
      ∀ e ∈ s.gate.synaptome.entries, e.1.id = victimKey.id →
        s.gate.synaptome.isProtected c.node w sponsor e.1 = false) (pass : Option DegreePass)
    {x : Close} (hx : x ∈ swapped c.node s.gate.synaptome sponsor d) :
    s.Respected c w pass x := by
  cases d with
  | swap victimKey near =>
    unfold swapped gateCommit at hx
    simp only [] at hx
    split_ifs at hx with htext hsome
    · cases hsome
    · cases hx
    · obtain rfl := List.mem_singleton.mp hx
      refine ⟨(swap_spec hd).1, fun e he heq => ?_⟩
      have hfree := htwin victimKey near rfl (Bool.eq_false_iff.mpr htext) e he heq
      simpa [isProtected, and_assoc] using hfree
    · cases hx
  | refuse why | room | lane laneKey t | throws => cases hx

/-- What the mesh retires under the set of the node. -/
theorem respected_mesh {promoting : List NodeId} {p : DegreePass} {id : MeshId} {ch : DegreePeer}
    {n : NodeId} (hget : p.peers.get id = some ch) (hn : ch.nodeId = some n)
    (hfree : ∀ ids ∈ s.gate.synaptome.protectedPeers c.node w promoting, n ∉ ids)
    (hset : (s.gate.synaptome.protectedPeers c.node w promoting).isSome = true)
    (hlast : p.NotLast id n) (hduty : n ∉ s.gate.synaptome.peers → w.duty n = false)
    {pass : Option DegreePass} (hpass : p ∈ pass) : s.Respected c w pass (.mesh id) := by
  refine ⟨p, hpass, ch, n, hget, hn, ?_, hlast⟩
  unfold protectedPeers retentionMap at hfree hset
  split_ifs at hfree hset with hk
  · cases hset
  · have hany : ∀ e ∈ s.gate.synaptome.entries, e.1.id = n →
        (s.gate.synaptome.reasons c.node w none e.1).any = false := by
      intro e he heq
      refine Bool.eq_false_iff.mpr fun hany => hfree _ rfl (List.mem_append_left _ ?_)
      exact List.mem_map.mpr ⟨(e.1, s.gate.synaptome.reasons c.node w none e.1),
        List.mem_filter.mpr ⟨List.mem_map_of_mem he, hany⟩, heq⟩
    refine ⟨?_, fun e he heq => ?_⟩
    · by_cases hin : n ∈ s.gate.synaptome.peers
      · obtain ⟨e, he, rfl⟩ := List.mem_map.mp hin
        exact (Bool.or_eq_false_iff.mp (hany e he rfl)).2
      · exact hduty hin
    · have hnone := hany e he heq
      simp only [Reasons.any, Bool.or_eq_false_iff] at hnone
      exact ⟨hnone.1.1.1, hnone.1.1.2, hnone.1.2⟩

/-- A refusal leaves the table as it was. -/
theorem offer_of_refuse {g : AdmissionGate} {why : Refusal}
    (hd : (g.synaptome.gateDecision c.node w g.lane now sponsor).1 = .refuse why) :
    (g.offer c.node w now sponsor).synaptome = g.synaptome := by
  unfold AdmissionGate.offer
  split_ifs
  · rfl
  · simp only [hd, gateCommit, Option.getD_some]

/-- The closes of a refusal that is deferred are those that are overdue. -/
theorem Defers.closes {incoming : Nat} (h : s.Defers c w now incoming sponsor) :
    (s.seed c w now incoming sponsor).2 =
      (overdue w c.grace.graceMaxPending s.gracePending).map Close.grace := by
  obtain ⟨why, hd⟩ := h.refuses
  have hheadroom : Perimeter.headroom c { s with gate := s.gate.offer c.node w now sponsor }
      incoming = true := by
    have hroom := h.headroom
    unfold Perimeter.headroom at hroom ⊢
    rwa [offer_of_refuse hd]
  have hseed : s.seed c w now incoming sponsor =
      refused c { s with gate := s.gate.offer c.node w now sponsor } w incoming sponsor := by
    unfold seed
    rw [h.new, if_neg (by simp)]
    simp only [hd]
  rw [hseed]
  unfold refused
  rw [if_neg (by simp [h.first]), if_pos ⟨h.grace, hheadroom⟩]
  exact overflow_closes w _ _ _ rfl

theorem mem_swapped {victimKey : TableKey} {near : Bool}
    (htext : (near && victimKey.isText) = false) (t : Synaptome) :
    Close.swap victimKey sponsor ∈ swapped c.node t sponsor (.swap victimKey near) := by
  simp [swapped, gateCommit, htext]

@[simp] theorem mem_meshClose {id : Option MeshId} {x : Close} :
    x ∈ meshClose id ↔ ∃ m, id = some m ∧ x = .mesh m := by
  cases id <;> simp [meshClose]

/-- Nothing is owed to a peer whose channel is retired as it should be. -/
theorem Elective.duty_of_mesh {a : Act} (h : s.Elective c a) (hw : w ∈ a.around) {p : DegreePass}
    (hp : a.pass = some p) {id : MeshId} (hmem : Close.mesh id ∈ (s.act c a).2) {ch : DegreePeer}
    (hget : p.peers.get id = some ch) {n : NodeId} (hn : ch.nodeId = some n) :
    w.duty n = false := by
  obtain ⟨p', hp', ch', n', hget', hn', hspared, -⟩ := h w hw _ hmem
  cases hp.symm.trans hp'
  cases hget.symm.trans hget'
  cases hn.symm.trans hn'
  exact hspared.duty

/-- An act that respects what holds its peers is none of the three. -/
theorem Elective.careful {a : Act} (h : s.Elective c a) : s.Careful c a := by
  refine ⟨fun hdrop => ?_, fun hmiss => ?_, fun htwin => ?_⟩
  · cases a with
    | seed w now incoming sponsor =>
      obtain ⟨hdefers, p, hp, hin⟩ := hdrop
      have hmem : Close.grace p ∈ (s.act c (.seed w now incoming sponsor)).2 := by
        change Close.grace p ∈ (s.seed c w now incoming sponsor).2
        rw [hdefers.closes]
        exact List.mem_map_of_mem hp
      exact (h w rfl _ hmem).2 hin
    | _ => exact hdrop
  · cases a with
    | enforceDegree w promoting p | makeRoom w promoting p newcomerId excludeIds =>
      obtain ⟨id, ch, n, hpick, hget, hn, -, hduty⟩ := hmiss
      rw [h.duty_of_mesh rfl rfl (mem_meshClose.mpr ⟨id, hpick, rfl⟩) hget hn] at hduty
      cases hduty
    | _ => exact hmiss
  · cases a with
    | seed w now incoming sponsor =>
      obtain ⟨hnew, victimKey, near, hd, htext, e, he, heq, hprot⟩ := htwin
      have hmem : Close.swap victimKey sponsor ∈ (s.act c (.seed w now incoming sponsor)).2 := by
        change Close.swap victimKey sponsor ∈ (s.seed c w now incoming sponsor).2
        rcases seed_cases s w now incoming sponsor with
          ⟨hholds, -⟩ | ⟨-, ⟨why, hwhy⟩, -⟩ | ⟨-, heq⟩
        · rw [hnew] at hholds
          cases hholds
        · rw [hd] at hwhy
          cases hwhy
        · rw [heq, hd]
          exact mem_swapped htext _
      have hheld := (h w rfl _ hmem).held e he heq
      simp [isProtected, hheld] at hprot
    | promote w now reclassed sponsor =>
      obtain ⟨hnew, victimKey, near, hd, htext, e, he, heq, hprot⟩ := htwin
      have hmem : Close.swap victimKey sponsor ∈
          (s.act c (.promote w now reclassed sponsor)).2 := by
        change Close.swap victimKey sponsor ∈ (s.promote c w now reclassed sponsor).2
        unfold promote
        rw [hnew, if_neg (by simp)]
        simp only [hd]
        exact mem_swapped htext _
      have hheld := (h w rfl _ hmem).held e he heq
      simp [isProtected, hheld] at hprot
    | _ => exact htwin

/-- Every other act respects what holds its peers. -/
theorem Graced.elective (h : s.Graced) {a : Act} (hc : s.Careful c a) : s.Elective c a := by
  intro w hw x hx
  cases a with
  | seed w now incoming sponsor =>
    cases hw
    change x ∈ (s.seed c w now incoming sponsor).2 at hx
    rcases seed_cases s w now incoming sponsor with ⟨-, heq⟩ | ⟨hnew, ⟨why, hd⟩, heq⟩ | ⟨hnew, heq⟩
    · rw [heq] at hx
      cases hx
    · have hout : sponsor ∉ s.gate.synaptome.peers := fun hin => by
        rw [holds_iff.mpr hin] at hnew
        cases hnew
      by_cases hdefers : s.Defers c w now incoming sponsor
      · -- what is overdue is blocked by no duty, and was not admitted
        rw [hdefers.closes] at hx
        obtain ⟨p, hp, rfl⟩ := List.mem_map.mp hx
        have hduty := (List.mem_filter.mp (List.mem_of_mem_take hp)).2
        refine respected_grace (by simpa using hduty) (fun hin => ?_) _
        exact hc.admitted ⟨hdefers, p, hp, hin⟩
      · rw [heq] at hx
        unfold Perimeter.refused at hx
        split_ifs at hx with hgraced hroom
        · cases hx
        · refine absurd ⟨hnew, ⟨why, hd⟩, hroom.1, ?_, ?_⟩ hdefers
          · exact Bool.eq_false_iff.mpr fun hhas => hgraced ⟨hroom.1, hhas⟩
          · have hroom := hroom.2
            unfold headroom at hroom ⊢
            rwa [offer_of_refuse hd] at hroom
        · exact respected_doClose hout _ hx
    · rw [heq] at hx
      refine respected_swapped rfl (fun victimKey near hd htext e he heq => ?_) _ hx
      exact Bool.eq_false_iff.mpr fun hprot =>
        hc.twin ⟨hnew, victimKey, near, hd, htext, e, he, heq, hprot⟩
  | promote w now reclassed sponsor =>
    cases hw
    change x ∈ (s.promote c w now reclassed sponsor).2 at hx
    rcases promote_cases s w now reclassed sponsor with ⟨l, heq⟩ | ⟨hnew, heq⟩
    · rw [heq] at hx
      cases hx
    · rw [heq] at hx
      refine respected_swapped rfl (fun victimKey near hd htext e he heq => ?_) _ hx
      exact Bool.eq_false_iff.mpr fun hprot =>
        hc.twin ⟨hnew, victimKey, near, hd, htext, e, he, heq, hprot⟩
  | graceFires w sponsor =>
    cases hw
    unfold act graceFires at hx
    simp only [] at hx
    split_ifs at hx with hpending hin
    · cases hx
    · have hout := not_mem_peers (Bool.eq_false_iff.mpr hin) (h _ hpending)
      refine respected_doClose (w := w) hout _ ?_
      cases hclose : doClose w sponsor with
      | nil =>
        rw [hclose] at hx
        cases hx
      | cons y ys =>
        rw [hclose] at hx
        exact hx
    · cases hx
  | insert x sponsor | gone id | clearGrace => cases hw
  | enforceDegree w promoting p =>
    cases hw
    obtain ⟨id, hpick, rfl⟩ := mem_meshClose.mp hx
    have hsel := hpick
    unfold DegreePass.enforceDegree at hsel
    split_ifs at hsel
    obtain ⟨ch, n, hget, hn, hfree, hset, hlast⟩ :=
      DegreePass.selected_spec (List.Sublist.refl _) hsel
    refine respected_mesh hget hn hfree hset hlast (fun hout => ?_) rfl
    exact Bool.eq_false_iff.mpr fun hduty => hc.duty ⟨id, ch, n, hpick, hget, hn, hout, hduty⟩
  | makeRoom w promoting p newcomerId excludeIds =>
    cases hw
    obtain ⟨id, hpick, rfl⟩ := mem_meshClose.mp hx
    obtain ⟨ch, n, hget, hn, hfree, hset, hlast⟩ :=
      DegreePass.selected_spec List.filter_sublist hpick
    refine respected_mesh hget hn hfree hset hlast (fun hout => ?_) rfl
    exact Bool.eq_false_iff.mpr fun hduty => hc.duty ⟨id, ch, n, hpick, hget, hn, hout, hduty⟩

/-! ### Runs -/

/-- A node with a table, before anything was refused. -/
def start (t : Synaptome) : Perimeter := ⟨⟨t, ⟨∅, 0⟩⟩, ∅⟩

/-- **Elective closes respect retention** exactly where the mesh selects no peer outside the table
to which a duty is owed, no overflow reaches a peer that was admitted meanwhile, and no swap takes
one of two entries of a peer. -/
theorem closes_respect_iff (c : PerimeterConfig) (t : Synaptome) (as : List Act) :
    EachStep (step c) (fun s a => s.Elective c a) (start t) as ↔
      EachStep (step c) (fun s a => s.Careful c a) (start t) as :=
  eachStep_congr (I := Graced) (fun _ a h => h.step a)
    (fun _ _ h => ⟨fun hel => hel.careful, fun hc => h.elective hc⟩) (fun _ hp => by cases hp) as

/-- A node with one place in its table, one pending close at most, and one mesh peer wanted. -/
def smallPerimeter : PerimeterConfig where
  node := { AdmissionGate.nearestOnly with cap := 1 }
  grace := GraceConfig.normalize (some 1000) (some 1)
  degree := ⟨1, 0, 0, 0⟩
  maxConnections := none

/-- Nothing is stale, and a duty is owed to some peers. -/
def owing (duty : NodeId → Bool) : Surroundings := ⟨fun _ => false, none, duty, fun _ => none⟩

/-- Two bound peers of one region, of which none is in the table. -/
def twoBound : DegreePass where
  peers := (OrderedMap.set ∅ ['a'] ⟨some 1, 1, false, none, none⟩).set ['b']
    ⟨some 2, 2, false, none, none⟩
  retiredRecently := []
  lastRetireAt := 0
  now := 3

/-- **A peer is closed while it carries a topic**: the older of two channels is that of a peer to
which a duty is owed, and which is not in the table. -/
theorem duty_retired : ¬EachStep (step smallPerimeter) (fun s a => s.Elective smallPerimeter a)
    (start ∅) [.enforceDegree (owing fun p => p == 1) [] twoBound] := by
  rintro ⟨hfirst, -⟩
  have hmem : Close.mesh ['a'] ∈ ((start ∅).act smallPerimeter
      (.enforceDegree (owing fun p => p == 1) [] twoBound)).2 := by decide
  obtain ⟨p, hp, ch, n, hget, hn, hspared, -⟩ := hfirst _ rfl _ hmem
  cases hp
  obtain rfl : (⟨some 1, 1, false, none, none⟩ : DegreePeer) = ch := Option.some.inj hget
  cases hn
  exact absurd hspared.duty (by decide)

end Perimeter

end Axona
