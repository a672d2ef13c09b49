import Axona.Moves.RootClaim

/-! # Two roots and their beacons

Two roots of one topic hear each other. A root that takes a beacon to heart gives its claim up at
once when it holds nothing, and otherwise starts an exchange with the root it heard, if that one's
claim wins. The exchange asks `claimWins`, of which two ends never think differently. The rule
before it does not: a root yields to a higher epoch at any distance, and to a closer root at any
epoch, so a closer root at the lower epoch and a farther one at the higher may yield to each
other. -/

namespace Axona

open Library

variable {cfg : Config} {n n' : Node} {t : TopicId} {ρ : RoleRef} {root : NodeId} {e : Int}

/-! ### What a beacon asks for, and what a root gives -/

namespace Node

/-- From one state to the other the role stepped down from the root, or recorded a winner `w` to
give its claim to. -/
def Yields (n n' : Node) (ρ : RoleRef) (w : NodeId) : Prop :=
  (n'.role ρ).isRoot = false
    ∨ ((n'.role ρ).merge.candidate ≠ (n.role ρ).merge.candidate
      ∧ (n'.role ρ).merge.candidate.any (fun c => c.claim.id = w) = true)

instance (n n' : Node) (ρ : RoleRef) (w : NodeId) : Decidable (n.Yields n' ρ w) := by
  unfold Yields
  infer_instance

/-- Does a root heed the beacon of another? Its epoch supersedes the root's own, or it names a
closer node, no farther than the best one known, that is not convicted. -/
def Heeds (cfg : Config) (n : Node) (t : TopicId) (root : NodeId) (e : Int) : Prop :=
  n.myEpoch t < e ∨ (distance t root < distance t cfg.nodeId
    ∧ distance t root ≤ distance t (n.bestKnownClosest cfg t)
    ∧ (n.rootTombstoned t root (some e)).1 = false)

/-- Would the root give its claim to this one? Without custody, or without the merge, to any; else
to one that wins over its own, and over the winner it has recorded. -/
def GivesTo (cfg : Config) (n : Node) (t : TopicId) (ρ : RoleRef) (c : Claim NodeId) : Prop :=
  (cfg.mergeCapable && (n.role ρ).hasCustody n.now) = false
    ∨ (n.wins cfg t c = true
      ∧ ∀ prev ∈ (n.role ρ).merge.candidate, claimWins t c prev.claim = true)

/-! ### What the receipt of a beacon leaves alone -/

/-- The two nodes hold the same claims: the same roles, alike in what a claim is judged by. -/
structure SameClaims (n n' : Node) : Prop where
  world : n'.world = n.world
  axonRoles : n'.axonRoles = n.axonRoles
  isRoot : ∀ ρ, (n'.role ρ).isRoot = (n.role ρ).isRoot
  epoch : ∀ ρ, (n'.role ρ).epoch = (n.role ρ).epoch
  cache : ∀ ρ, (n'.role ρ).cache = (n.role ρ).cache
  tombstones : ∀ ρ, (n'.role ρ).tombstones = (n.role ρ).tombstones
  candidate : ∀ ρ, (n'.role ρ).merge.candidate = (n.role ρ).merge.candidate

namespace SameClaims

theorem of_roles (hw : n'.world = n.world) (ha : n'.axonRoles = n.axonRoles)
    (hr : n'.roles = n.roles) : n.SameClaims n' := by
  have hrole (ρ : RoleRef) : n'.role ρ = n.role ρ := by rw [role, role, hr]
  constructor
  · exact hw
  · exact ha
  all_goals
    intro ρ
    rw [hrole]

theorem trans {n'' : Node} (h : n.SameClaims n') (h' : n'.SameClaims n'') : n.SameClaims n'' where
  world := h'.world.trans h.world
  axonRoles := h'.axonRoles.trans h.axonRoles
  isRoot ρ := (h'.isRoot ρ).trans (h.isRoot ρ)
  epoch ρ := (h'.epoch ρ).trans (h.epoch ρ)
  cache ρ := (h'.cache ρ).trans (h.cache ρ)
  tombstones ρ := (h'.tombstones ρ).trans (h.tombstones ρ)
  candidate ρ := (h'.candidate ρ).trans (h.candidate ρ)

/-- A change of a role that keeps its claim. -/
theorem modifyRole (n : Node) (ρ : RoleRef) (f : Role → Role)
    (hroot : (f (n.role ρ)).isRoot = (n.role ρ).isRoot)
    (hepoch : (f (n.role ρ)).epoch = (n.role ρ).epoch)
    (hcache : (f (n.role ρ)).cache = (n.role ρ).cache)
    (htomb : (f (n.role ρ)).tombstones = (n.role ρ).tombstones)
    (hcand : (f (n.role ρ)).merge.candidate = (n.role ρ).merge.candidate) :
    n.SameClaims (n.modifyRole ρ f) := by
  have hother {ρ' : RoleRef} (hne : ρ' ≠ ρ) : (n.modifyRole ρ f).role ρ' = n.role ρ' :=
    Heap.get_modify_of_ne n.roles f hne
  constructor
  · rfl
  · rfl
  all_goals
    intro ρ'
    by_cases hρ : ρ' = ρ
    · subst hρ
      rw [role_modifyRole_self]
      assumption
    · rw [hother hρ]

variable (h : n.SameClaims n')
include h

theorem roleAt : n'.roleAt t = n.roleAt t := by
  rw [Node.roleAt, Node.roleAt, h.axonRoles]

theorem hasCustody :
    (n'.role ρ).hasCustody n'.now = (n.role ρ).hasCustody n.now := by
  unfold Role.hasCustody Role.activeDels
  rw [h.cache, h.tombstones, Node.now, Node.now, h.world]

theorem wins (c : Claim NodeId) : n'.wins cfg t c = n.wins cfg t c := by
  unfold Node.wins Node.myClaim
  simp only [h.roleAt, h.isRoot, h.epoch]

theorem givesTo (c : Claim NodeId) :
    n'.GivesTo cfg t ρ c ↔ n.GivesTo cfg t ρ c := by
  unfold GivesTo
  rw [h.hasCustody, h.wins, h.candidate]

theorem yields {n'' : Node} {w : NodeId} :
    n.Yields n'' ρ w ↔ n'.Yields n'' ρ w := by
  unfold Yields
  rw [h.candidate]

end SameClaims

theorem refreshAccepted_spec (n : Node) (t : TopicId) (root : NodeId) (e : Int) :
    n.SameClaims (n.refreshAccepted cfg t root e)
      ∧ (n.refreshAccepted cfg t root e).rootBeacons = n.rootBeacons
      ∧ (n.refreshAccepted cfg t root e).rootTombstones = n.rootTombstones := by
  have hsame : n.SameClaims n := .of_roles rfl rfl rfl
  unfold refreshAccepted
  split
  · exact ⟨hsame, rfl, rfl⟩
  next ρ _ =>
  split
  · exact ⟨hsame, rfl, rfl⟩
  next w _ =>
  split
  · have hmod : n.SameClaims (n.modifyMerge ρ fun m =>
        { m with acceptedWinner := some ⟨w.id, e, n.now + cfg.stepDownHoldMs⟩ }) :=
      .modifyRole n ρ _ rfl rfl rfl rfl rfl
    simp only []
    split
    · split
      · exact ⟨hmod.trans (.of_roles rfl rfl rfl), rfl, rfl⟩
      · exact ⟨hmod, rfl, rfl⟩
    · exact ⟨hmod, rfl, rfl⟩
  · exact ⟨hsame, rfl, rfl⟩

theorem rootTombstoned_sameClaims (n : Node) (t : TopicId) (root : NodeId) (e : Option Int) :
    n.SameClaims (n.rootTombstoned t root e).2 := by
  unfold rootTombstoned
  split
  · exact .of_roles rfl rfl rfl
  split
  · exact .of_roles rfl rfl rfl
  · exact .of_roles rfl rfl rfl

/-! ### The candidate entry -/

theorem foldl_closeCorr (r : Role) {α : Type*} (xs : List (Corr × α)) :
    let r' := xs.foldl (fun r e => r.closeCorr e.1) r
    r'.isRoot = r.isRoot ∧ r'.epoch = r.epoch ∧ r'.cache = r.cache
      ∧ r'.tombstones = r.tombstones ∧ r'.merge.candidate = r.merge.candidate := by
  induction xs generalizing r with
  | nil => exact ⟨rfl, rfl, rfl, rfl, rfl⟩
  | cons x xs ih => exact ih (r.closeCorr x.1)

theorem mergeOffer_sameClaims (n : Node) (t : TopicId) (ρ : RoleRef) :
    n.SameClaims (n.mergeOffer cfg t ρ) := by
  have hsame : n.SameClaims n := .of_roles rfl rfl rfl
  unfold mergeOffer
  simp only []
  split
  · exact hsame
  next c _ =>
  split
  · exact hsame
  -- the offers it supersedes are closed, then one is opened
  have hclose (xs : List (Corr × ExportRef)) :
      n.SameClaims (n.modifyRole ρ fun r => xs.foldl (fun r e => r.closeCorr e.1) r) := by
    obtain ⟨hroot, hepoch, hcache, htomb, hcand⟩ := foldl_closeCorr (n.role ρ) xs
    exact .modifyRole n ρ _ hroot hepoch hcache htomb hcand
  split
  · exact hclose _
  have hopen (k : Node) (h : Heap Export) (corr : Corr) (x : ExportRef) (f : Frame)
      (p : Parked) : k.SameClaims ((({ k with exports := h }.modifyRole ρ fun r =>
        { r with openMerges := r.openMerges.set corr x }).send f).park p) := by
    have hexports : k.SameClaims { k with exports := h } := .of_roles rfl rfl rfl
    have hmod := SameClaims.modifyRole { k with exports := h } ρ
      (fun r => { r with openMerges := r.openMerges.set corr x }) rfl rfl rfl rfl rfl
    exact (hexports.trans hmod).trans (.of_roles rfl rfl rfl)
  exact (hclose _).trans (hopen ..)

/-- **The candidate entry.** A root yields there to what it gives its claim to. -/
theorem mergeCandidate_yields (hat : n.roleAt t = some ρ) (hroot : (n.role ρ).isRoot = true)
    {w : NodeId} (hne : w ≠ cfg.nodeId) (e : Int) :
    n.Yields (n.mergeCandidate cfg t w (some e)) ρ w ↔ n.GivesTo cfg t ρ ⟨w, e⟩ := by
  have hstays : ¬n.Yields n ρ w := by
    rintro (hdown | ⟨hcand, -⟩)
    · rw [hroot] at hdown
      cases hdown
    · exact hcand rfl
  unfold mergeCandidate GivesTo
  rw [hat]
  simp only []
  cases hcustody : cfg.mergeCapable && (n.role ρ).hasCustody n.now with
  | false =>
    have hif : (!cfg.mergeCapable || !(n.role ρ).isRoot || !(n.role ρ).hasCustody n.now)
      = true := by
      rw [Bool.and_eq_false_iff] at hcustody
      rcases hcustody with h | h <;> simp [h]
    rw [if_pos hif]
    have hdesc : ((n.descend ρ .other).role ρ).isRoot = false :=
      congrArg Role.isRoot (role_modifyRole_self n ρ fun r => { r with isRoot := false })
    have hdown : ((n.demote cfg t w .other none false).2.role ρ).isRoot = false := by
      unfold demote setRoot
      rw [hat]
      simp only [hroot, hne, hcustody, if_false, Bool.not_true, Bool.false_eq_true,
        Bool.true_eq_false]
      split
      · exact hdesc
      · exact hdesc
    exact ⟨fun _ => .inl rfl, fun _ => .inl hdown⟩
  | true =>
    obtain ⟨hcap, hheld⟩ := (Bool.and_eq_true _ _).mp hcustody
    rw [if_neg (by simp [hcap, hroot, hheld]), if_neg hne]
    simp only [Option.getD_some, Bool.true_eq_false, false_or]
    cases hwins : n.wins cfg t ⟨w, e⟩ with
    | false => simpa using hstays
    | true =>
      simp only [Bool.not_true, Bool.false_eq_true, if_false, true_and]
      by_cases hout : (n.role ρ).merge.candidate.any
          (fun prev => !claimWins t ⟨w, e⟩ prev.claim) = true
      · rw [if_pos hout]
        rw [Option.any_eq_true] at hout
        obtain ⟨prev, hprev, hlost⟩ := hout
        refine iff_of_false hstays fun hall => ?_
        rw [hall prev hprev] at hlost
        cases hlost
      · rw [if_neg hout]
        have hall : ∀ prev ∈ (n.role ρ).merge.candidate, claimWins t ⟨w, e⟩ prev.claim = true := by
          intro prev hprev
          by_contra hlost
          refine hout ?_
          rw [Option.any_eq_true]
          exact ⟨prev, hprev, by simpa using hlost⟩
        refine iff_of_true (.inr ?_) hall
        -- the record it makes is a new one, since no claim wins over itself
        set k := n.modifyMerge ρ fun m => { m with candidate := some ⟨⟨w, e⟩, n.now⟩ } with hk
        have hrec : (k.role ρ).merge.candidate = some ⟨⟨w, e⟩, n.now⟩ :=
          congrArg (fun r => r.merge.candidate) (role_modifyRole_self n ρ _)
        rw [(mergeOffer_sameClaims k t ρ).candidate, hrec]
        refine ⟨?_, by simp⟩
        intro heq
        have hself := hall _ heq.symm
        rw [claimWins_iff] at hself
        exact hself.asymm hself

/-- **The receipt of a beacon.** A root yields to the root it hears of when it heeds the beacon and
gives its claim to that root. -/
theorem onBeaconTopic_yields (hat : n.roleAt t = some ρ) (hroot : (n.role ρ).isRoot = true)
    (hpos : 0 < (n.role ρ).epoch) (hne : root ≠ cfg.nodeId) :
    n.Yields (n.onBeaconTopic cfg root t e) ρ root
      ↔ n.Heeds cfg t root e ∧ n.GivesTo cfg t ρ ⟨root, e⟩ := by
  have hmine : n.myEpoch t = (n.role ρ).epoch := by
    rw [myEpoch, hat]
    simp [hroot]
  obtain ⟨hseen, hbeacons, htombs⟩ := @refreshAccepted_spec cfg n t root e
  set n₁ := n.refreshAccepted cfg t root e with hn₁
  have hbest : n₁.bestKnownClosest cfg t = n.bestKnownClosest cfg t := by
    rw [bestKnownClosest, bestKnownClosest, hseen.world, hbeacons]
  have hstale : ((n₁.recordBeacon t root e).rootTombstoned t root (some e)).1
      = (n.rootTombstoned t root (some e)).1 := by
    have htomb : (n₁.recordBeacon t root e).rootTombstones = n.rootTombstones := htombs
    have hnow : (n₁.recordBeacon t root e).now = n.now := congrArg World.wall hseen.world
    unfold rootTombstoned
    rw [htomb, hnow]
    split
    · rfl
    · split <;> rfl
  set n₂ := ((n₁.recordBeacon t root e).rootTombstoned t root (some e)).2 with hn₂
  have hrecord : n₁.SameClaims (n₁.recordBeacon t root e) := .of_roles rfl rfl rfl
  have hheld : n.SameClaims n₂ :=
    (hseen.trans hrecord).trans (rootTombstoned_sameClaims _ t root (some e))
  have hkept {k : Node} (hk : n.SameClaims k) : ¬n.Yields k ρ root := by
    rintro (hdown | ⟨hcand, -⟩)
    · rw [hk.isRoot, hroot] at hdown
      cases hdown
    · exact hcand (hk.candidate ρ)
  -- once the beacon is heeded, the candidate entry decides
  have hgives : n.Yields (n₂.mergeCandidate cfg t root (some e)) ρ root
      ↔ n.GivesTo cfg t ρ ⟨root, e⟩ := by
    rw [hheld.yields, mergeCandidate_yields (hheld.roleAt.trans hat)
      ((hheld.isRoot ρ).trans hroot) hne, hheld.givesTo]
  have hform : n.onBeaconTopic cfg root t e = if (!(0 < n.myEpoch t && n.myEpoch t < e)
          && distance t (n₁.bestKnownClosest cfg t) < distance t root) = true then n₁
        else if ((0 < n.myEpoch t && n.myEpoch t < e) || (distance t root < distance t cfg.nodeId
          && !((n₁.recordBeacon t root e).rootTombstoned t root (some e)).1)) = true then
          n₂.mergeCandidate cfg t root (some e)
        else n₂ := rfl
  rw [hform, hbest, hstale]
  unfold Heeds
  rw [hmine]
  simp only [hpos, decide_true, Bool.true_and]
  by_cases hlater : (n.role ρ).epoch < e
  · simp only [hlater, decide_true, Bool.not_true, Bool.false_and, Bool.false_eq_true, if_false,
      Bool.true_or, if_true, true_or, true_and]
    exact hgives
  simp only [hlater, decide_false, Bool.not_false, Bool.true_and, Bool.false_or, false_or,
    decide_eq_true_eq, Bool.and_eq_true, Bool.not_eq_true']
  by_cases hfar : distance t (n.bestKnownClosest cfg t) < distance t root
  · rw [if_pos hfar]
    exact iff_of_false (hkept hseen) fun h => absurd h.1.2.1 (not_le.mpr hfar)
  rw [if_neg hfar]
  by_cases hcloser : distance t root < distance t cfg.nodeId
      ∧ (n.rootTombstoned t root (some e)).1 = false
  · rw [if_pos hcloser, hgives]
    exact (and_iff_right ⟨hcloser.1, not_lt.mp hfar, hcloser.2⟩).symm
  · rw [if_neg hcloser]
    exact iff_of_false (hkept hheld) fun h => hcloser ⟨h.1.1, h.1.2.2⟩

/-! ### A pair of roots -/

/-- A root of the lower epoch that gives its claim to one of the higher, which in turn heeds it for
being closer and gives it its own. -/
structure Crossed (cfgL cfgH : Config) (nL nH : Node) (t : TopicId) (ρL ρH : RoleRef) : Prop where
  later : (nL.role ρL).epoch < beaconEpoch (some (nH.role ρH).epoch)
  closer : distance t cfgL.nodeId < distance t cfgH.nodeId
  known : distance t cfgL.nodeId ≤ distance t (nH.bestKnownClosest cfgH t)
  unconvicted : (nH.rootTombstoned t cfgL.nodeId
    (some (beaconEpoch (some (nL.role ρL).epoch)))).1 = false
  lower : nL.GivesTo cfgL t ρL ⟨cfgH.nodeId, beaconEpoch (some (nH.role ρH).epoch)⟩
  higher : nH.GivesTo cfgH t ρH ⟨cfgL.nodeId, beaconEpoch (some (nL.role ρL).epoch)⟩

end Node

theorem beaconEpoch_le {e : Int} (h : 0 < e) : beaconEpoch (some e) ≤ e := by
  show (if 0 ≤ e then min e maxSafeInteger else 0) ≤ e
  rw [if_pos h.le]
  exact min_le_left _ _

section Pair

variable {cfgA cfgB : Config} {nA nB : Node} {ρA ρB : RoleRef}

/-- **One winner.** Each end asks whether the claim of the other wins over its own. The answers
differ, so the same member of the pair wins at both ends. -/
theorem one_winner (hne : cfgA.nodeId ≠ cfgB.nodeId) :
    nA.wins cfgA t (nB.myClaim cfgB t) = !nB.wins cfgB t (nA.myClaim cfgA t) := by
  have hdist : distance t (nB.myClaim cfgB t).id ≠ distance t (nA.myClaim cfgA t).id :=
    fun h => hne (distance_inj.mp h).symm
  unfold Node.wins
  rcases Claim.beats_total hdist with hB | hA
  · have hnot : claimWins t (nA.myClaim cfgA t) (nB.myClaim cfgB t) = false :=
      Bool.eq_false_iff.mpr fun h => hB.asymm (claimWins_iff.mp h)
    rw [claimWins_iff.mpr hB, hnot]
    rfl
  · have hnot : claimWins t (nB.myClaim cfgB t) (nA.myClaim cfgA t) = false :=
      Bool.eq_false_iff.mpr fun h => hA.asymm (claimWins_iff.mp h)
    rw [claimWins_iff.mpr hA, hnot]
    rfl

/-- **One yields at most.** Two roots of a topic hear each other's beacon. Not both of them step
down or start to yield to the other if and only if neither way round the closer one of the lower
epoch gives its claim to the farther one of the higher, and the farther one heeds the closer one
and gives its own. -/
theorem no_mutual_yield (hne : cfgA.nodeId ≠ cfgB.nodeId) (hatA : nA.roleAt t = some ρA)
    (hatB : nB.roleAt t = some ρB) (hrootA : (nA.role ρA).isRoot = true)
    (hrootB : (nB.role ρB).isRoot = true) (hposA : 0 < (nA.role ρA).epoch)
    (hposB : 0 < (nB.role ρB).epoch) :
    ¬(nA.Yields (nA.perform cfgA (.beacon cfgB.nodeId [(t, some (nB.role ρB).epoch)])) ρA
          cfgB.nodeId
        ∧ nB.Yields (nB.perform cfgB (.beacon cfgA.nodeId [(t, some (nA.role ρA).epoch)])) ρB
          cfgA.nodeId)
      ↔ ¬Node.Crossed cfgA cfgB nA nB t ρA ρB ∧ ¬Node.Crossed cfgB cfgA nB nA t ρB ρA := by
  rw [← not_or, not_iff_not]
  have hA := @Node.onBeaconTopic_yields cfgA nA t ρA cfgB.nodeId
    (beaconEpoch (some (nB.role ρB).epoch)) hatA hrootA hposA hne.symm
  have hB := @Node.onBeaconTopic_yields cfgB nB t ρB cfgA.nodeId
    (beaconEpoch (some (nA.role ρA).epoch)) hatB hrootB hposB hne
  show nA.Yields (nA.onBeaconTopic cfgA cfgB.nodeId t _) ρA cfgB.nodeId
    ∧ nB.Yields (nB.onBeaconTopic cfgB cfgA.nodeId t _) ρB cfgA.nodeId ↔ _
  rw [hA, hB]
  have hleA := beaconEpoch_le hposA
  have hleB := beaconEpoch_le hposB
  have hmineA : nA.myEpoch t = (nA.role ρA).epoch := by
    rw [Node.myEpoch, hatA]
    simp [hrootA]
  have hmineB : nB.myEpoch t = (nB.role ρB).epoch := by
    rw [Node.myEpoch, hatB]
    simp [hrootB]
  unfold Node.Heeds
  rw [hmineA, hmineB]
  constructor
  · rintro ⟨⟨hheedA, hgiveA⟩, hheedB, hgiveB⟩
    rcases hheedA with hlater | ⟨hcloser, hknown, hfree⟩
    · rcases hheedB with hlater' | ⟨hcloser, hknown, hfree⟩
      · -- not each epoch is above the other
        omega
      · exact .inl ⟨hlater, hcloser, hknown, hfree, hgiveA, hgiveB⟩
    · rcases hheedB with hlater' | ⟨hcloser', -, -⟩
      · exact .inr ⟨hlater', hcloser, hknown, hfree, hgiveB, hgiveA⟩
      · exact absurd hcloser' (not_lt.mpr hcloser.le)
  · rintro (h | h)
    · exact ⟨⟨.inl h.later, h.lower⟩, .inr ⟨h.closer, h.known, h.unconvicted⟩, h.higher⟩
    · exact ⟨⟨.inr ⟨h.closer, h.known, h.unconvicted⟩, h.higher⟩, .inl h.later, h.lower⟩

end Pair

/-- The node `1`, farther from the sample topic than the node `0`. -/
def fartherConfig : Config := { sampleConfig with nodeId := 1 }

/-- The node `0` has become a root, and its post is not admitted yet. -/
def nearRoot : Node :=
  run (Node.step sampleConfig) (Node.boot (sampleWorld 0)) [(sampleWorld 1000, samplePub 1 1000)]

/-- So has the node `1`, after it heard of the topic's root before it or not. -/
def farRoot (heard : Run) : Node :=
  run (Node.step fartherConfig) (Node.boot (sampleWorld 0))
    (heard ++ [(sampleWorld 41000, samplePub 2 41000)])

/-- At one epoch the farther root yields, and the closer one does not. -/
theorem no_mutual_yield_even :
    (farRoot []).Yields ((farRoot []).perform fartherConfig (.beacon 0 [(sampleTopicId, some 1)])) 0 0
      ∧ (¬(nearRoot.Yields (nearRoot.perform sampleConfig (.beacon 1 [(sampleTopicId,
            some ((farRoot []).role 0).epoch)])) 0 1
          ∧ (farRoot []).Yields ((farRoot []).perform fartherConfig (.beacon 0 [(sampleTopicId,
            some (nearRoot.role 0).epoch)])) 0 0)
        ↔ ¬Node.Crossed sampleConfig fartherConfig nearRoot (farRoot []) sampleTopicId 0 0
          ∧ ¬Node.Crossed fartherConfig sampleConfig (farRoot []) nearRoot sampleTopicId 0 0) := by
  refine ⟨by decide +kernel, ?_⟩
  exact @no_mutual_yield sampleTopicId sampleConfig fartherConfig nearRoot (farRoot []) 0 0
    (by decide) (by decide +kernel) (by decide +kernel) (by decide +kernel) (by decide +kernel)
    (by decide +kernel) (by decide +kernel)

/-- The farther node heard the closer one's beacon a while ago, and mints above it when a post ends
there. -/
def overheard : Run := [(sampleWorld 900, .beacon 0 [(sampleTopicId, some 1)])]

theorem both_yield :
    ¬∀ (cfgA cfgB : Config) (nA nB : Node) (t : TopicId) (ρA ρB : RoleRef),
      cfgA.nodeId ≠ cfgB.nodeId → nA.roleAt t = some ρA → nB.roleAt t = some ρB →
      (nA.role ρA).isRoot = true → (nB.role ρB).isRoot = true → 0 < (nA.role ρA).epoch →
      0 < (nB.role ρB).epoch →
      ¬(nA.Yields (nA.perform cfgA (.beacon cfgB.nodeId [(t, some (nB.role ρB).epoch)])) ρA
          cfgB.nodeId
        ∧ nB.Yields (nB.perform cfgB (.beacon cfgA.nodeId [(t, some (nA.role ρA).epoch)])) ρB
          cfgA.nodeId) := by
  intro h
  refine h sampleConfig fartherConfig nearRoot (farRoot overheard) sampleTopicId 0 0 (by decide)
    (by decide +kernel) (by decide +kernel) (by decide +kernel) (by decide +kernel)
    (by decide +kernel) (by decide +kernel) ?_
  decide +kernel

end Axona
