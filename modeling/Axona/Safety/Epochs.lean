import Axona.Moves.RootClaim

/-! # Epochs in order

An epoch is a number on the wire and in a role, and a number modulo `2 ^ 32` wherever a frame of
the merge or the claim of this node is read. The order of the numbers and the order the election
goes by are the same only below the point where the two readings part. -/

namespace Axona

open Library

/-! ### The 32-bit reading of an epoch -/

/-- A number that its 32-bit reading does not make smaller is a number of 31 bits. -/
theorem lt_of_le_toInt32 {n m : Int} (h : n ≤ toInt32 m) : n < 2 ^ 31 :=
  lt_of_le_of_lt h (toInt32_lt m)

/-! ### What is minted -/

/-- A beacon names the epoch, and its parser takes it as it is. -/
def Admitted (e : Int) : Prop := beaconEpoch (some e) = e

theorem admitted_iff {e : Int} : Admitted e ↔ 0 ≤ e ∧ e ≤ maxSafeInteger := by
  unfold Admitted beaconEpoch maxSafeInteger
  rw [Option.elim_some]
  split <;> omega

theorem succDouble_admitted {e : Int} (h : Admitted e) : succDouble e = e + 1 := by
  obtain ⟨h0, h1⟩ := admitted_iff.mp h
  apply succDouble_of_lt h0
  unfold maxSafeInteger at h1
  have hbound : (exactBound : Int) = 2 ^ 53 := rfl
  omega

/-- What a stager mints above the highest epoch it knows and the epoch of the loser's offer. -/
def stagedEpoch (known loser : Int) : Int :=
  max (toInt32 (succDouble known)) (succDouble (toInt32 (toInt32 loser)))

/-! ### The comparisons -/

/-- The order of two claims by their epochs as numbers, and by closeness at the same epoch. -/
def outranks (t : TopicId) (a b : Claim NodeId) : Bool :=
  if a.epoch = b.epoch then distance t a.id < distance t b.id else b.epoch < a.epoch

/-- A root's own claim is read as 32 bits. -/
theorem wins_root (cfg : Config) {n : Node} {t : TopicId} {ρ : RoleRef} (hρ : n.roleAt t = some ρ)
    (hroot : (n.role ρ).isRoot = true) (claim : Claim NodeId) :
    n.wins cfg t claim = claimWins t claim ⟨cfg.nodeId, toInt32 (n.role ρ).epoch⟩ := by
  unfold Node.wins Node.myClaim
  rw [hρ, Option.elim_some, if_pos hroot]

/-- An offer that a root at the epoch `b` sends carries `e`. -/
def Offers (b e : Int) : Prop :=
  ∃ (cfg : Config) (n : Node) (t t' : TopicId) (ρ : RoleRef) (dest : NodeId) (corr : Corr)
    (count : Nat) (timing : Timing) (handoff : Bool), (n.role ρ).epoch = b ∧ n.sent = []
      ∧ .mergeOffer dest t' corr e count timing handoff ∈ (n.mergeOffer cfg t ρ).sent

/-- **The epochs `a` and `b` are in order**, wherever the one meets the other. -/
structure EpochOrder (a b : Int) : Prop where
  /-- The epoch minted above `a` is larger, and may be named by a beacon. -/
  minted : ∀ (n : Node) (ρ : RoleRef) (why : Why), n.knownEpoch (n.role ρ).topicId = a →
    a < ((n.ascend ρ why).role ρ).epoch ∧ Admitted ((n.ascend ρ why).role ρ).epoch
  /-- So is the one that a stager mints, which knows `a` and pulled from a root at `b`. -/
  staged : ∀ (cfg : Config) (n : Node) (ρ : RoleRef) (p : Pull) (corr : Corr) (st : Staging),
    Offers b p.loserEpoch → (n.role ρ).isRoot = false → (n.role ρ).staging = some st →
      st.corr = corr → n.knownEpoch (n.role ρ).topicId = a →
        max a b < ((n.stagePromote cfg ρ p corr).role ρ).epoch
          ∧ Admitted ((n.stagePromote cfg ρ p corr).role ρ).epoch
  /-- A claim that a beacon names at `a`, at a root that holds `b`. -/
  nominated : ∀ (cfg : Config) (n : Node) (t : TopicId) (ρ : RoleRef) (x : NodeId),
    n.roleAt t = some ρ → (n.role ρ).isRoot = true → (n.role ρ).epoch = b →
      n.wins cfg t ⟨x, a⟩ = outranks t ⟨x, a⟩ ⟨cfg.nodeId, b⟩
  /-- A claim at `a` as an offer carries it. -/
  offered : ∀ (cfg : Config) (n : Node) (t : TopicId) (ρ : RoleRef) (x : NodeId) (e : Int),
    Offers a e → n.roleAt t = some ρ → (n.role ρ).isRoot = true → (n.role ρ).epoch = b →
      n.wins cfg t ⟨x, e⟩ = outranks t ⟨x, a⟩ ⟨cfg.nodeId, b⟩
  /-- The offer that a root made at `a` stands when it is at `b`: no other is made. -/
  standing : ∀ (cfg : Config) (n : Node) (t : TopicId) (ρ : RoleRef) (c : Candidate),
    cfg.mergeCapable = true → (n.role ρ).isRoot = true → (n.role ρ).merge.gate = none →
      (n.role ρ).merge.completing = none → (n.role ρ).merge.candidate = some c →
      (n.role ρ).openMerges = ∅ → (n.role ρ).epoch = a →
        let m := (n.mergeOffer cfg t ρ).modifyRole ρ fun r => { r with epoch := b }
        (m.mergeOffer cfg t ρ).exports.next = m.exports.next ↔ b ≤ a
  /-- An acknowledgement by a winner at `a` is one of the round that was bound to it at `b`. -/
  ackedWinner : ∀ (cfg : Config) (m : Export) (k : ReplayAck), k.winner = m.winner →
    k.loser = cfg.nodeId → k.loserEpoch = some m.loserEpoch → k.winnerEpoch = some (toInt32 a) →
      m.winnerEpoch = toInt32 b → (Node.ackMatches cfg m k = true ↔ a = b)
  /-- An acknowledgement of a loser's export at `a` is one of the record it made at `b`. -/
  ackedLoser : ∀ (cfg : Config) (m : Export) (k : ReplayAck), k.winner = m.winner →
    k.loser = cfg.nodeId → k.winnerEpoch = some m.winnerEpoch → k.loserEpoch = some (toInt32 a) →
      m.loserEpoch = toInt32 b → (Node.ackMatches cfg m k = true ↔ a = b)
  /-- A beacon at `b` refreshes the winner that was accepted at `a`. -/
  refreshed : ∀ (cfg : Config) (n : Node) (t : TopicId) (ρ : RoleRef) (w : AcceptedWinner),
    n.roleAt t = some ρ → (n.role ρ).merge.acceptedWinner = some w → w.epoch = toInt32 a →
      w.exp < n.now + cfg.stepDownHoldMs →
        (((n.refreshAccepted cfg t w.id b).role ρ).merge.acceptedWinner.map (·.exp)
          = some (n.now + cfg.stepDownHoldMs) ↔ a ≤ b)

/-! ### What the functions make of an epoch -/

theorem epoch_ascend (n : Node) (ρ : RoleRef) (why : Why) :
    ((n.ascend ρ why).role ρ).epoch = succDouble (n.knownEpoch (n.role ρ).topicId) := by
  obtain ⟨m, r', -, -, hr, -, heq⟩ := Moves.ascend_spec n ρ why
  have hself : (n.ascend ρ why).role ρ = r' := by
    rw [heq]
    exact Node.role_modifyRole_self m ρ fun _ => r'
  rw [hself]
  exact congrArg RoleCore.epoch hr

/-- An offer carries 32 bits. -/
theorem Offers.eq {b e : Int} (h : Offers b e) : e = toInt32 b := by
  obtain ⟨cfg, n, t, t', ρ, dest, corr, count, timing, handoff, rfl, hsent, hmem⟩ := h
  unfold Node.mergeOffer at hmem
  simp only [] at hmem
  split at hmem
  · rw [hsent] at hmem
    cases hmem
  split at hmem
  · rw [hsent] at hmem
    cases hmem
  split at hmem
  · change _ ∈ n.sent at hmem
    rw [hsent] at hmem
    cases hmem
  · change _ ∈ _ :: n.sent at hmem
    rw [hsent, List.mem_singleton] at hmem
    injection hmem

/-- A stager that promotes mints above the highest epoch it knows and the loser's. -/
theorem epoch_stagePromote {cfg : Config} {n : Node} {ρ : RoleRef} {p : Pull} {corr : Corr}
    {b : Int} (st : Staging) (hp : p.loserEpoch = toInt32 b) (hroot : (n.role ρ).isRoot = false)
    (hst : (n.role ρ).staging = some st) (hcorr : st.corr = corr) :
    ((n.stagePromote cfg ρ p corr).role ρ).epoch
      = stagedEpoch (n.knownEpoch (n.role ρ).topicId) b := by
  set m := n.modifyRole ρ fun r => { r with staging := none } with hm
  have hmrole : m.role ρ = { n.role ρ with staging := none } := Node.role_modifyRole_self ..
  have hepochs : ∀ ρ', (m.role ρ').epoch = (n.role ρ').epoch := by
    intro ρ'
    by_cases hρ : ρ' = ρ
    · rw [hρ, hmrole]
    · rw [hm, Node.role, Node.modifyRole, Heap.get_modify_of_ne _ _ hρ, Node.role]
  have hknown : m.knownEpoch (n.role ρ).topicId = n.knownEpoch (n.role ρ).topicId := by
    unfold Node.knownEpoch
    simp only [hepochs]
    rfl
  have hset : (m.setRoot cfg ρ true .other none).2 = m.ascend ρ .other := by
    unfold Node.setRoot
    rw [hmrole]
    simp only [hroot, Bool.false_eq_true, if_false, if_true]
  have hepoch := epoch_ascend m ρ .other
  rw [hmrole] at hepoch
  rw [hknown] at hepoch
  unfold Node.stagePromote
  simp only [hst, hcorr, ne_eq, not_true_eq_false, if_false]
  rw [← hm, hset, hp, hepoch]
  change ((if stagedEpoch (n.knownEpoch (n.role ρ).topicId) b = _ then _ else _ : Node).role
    ρ).epoch = _
  split
  · next hsame => exact hepoch.trans hsame.symm
  · exact congrArg Role.epoch (Node.role_modifyRole_self (m.ascend ρ .other) ρ fun r =>
      { r with epoch := stagedEpoch (n.knownEpoch (n.role ρ).topicId) b })

/-- A root without an exchange makes an offer. -/
theorem mergeOffer_first {cfg : Config} {n : Node} {t : TopicId} {ρ : RoleRef} {c : Candidate}
    (hcap : cfg.mergeCapable = true) (hroot : (n.role ρ).isRoot = true)
    (hgate : (n.role ρ).merge.gate = none) (hdone : (n.role ρ).merge.completing = none)
    (hc : (n.role ρ).merge.candidate = some c) (hopen : (n.role ρ).openMerges = ∅) :
    ∃ (corr : Corr) (x : Export), x.winner = c.claim.id ∧ x.loserEpoch = toInt32 (n.role ρ).epoch
      ∧ (n.mergeOffer cfg t ρ).role ρ
        = { n.role ρ with openMerges := (∅ : OrderedMap _ _).set corr n.exports.next }
      ∧ (n.mergeOffer cfg t ρ).exports = (n.exports.alloc x).1 := by
  have hentries : (n.role ρ).openMerges.entries = [] := by
    rw [hopen]
    rfl
  have hshut : (!cfg.mergeCapable || !(n.role ρ).isRoot || (n.role ρ).merge.gate.isSome
      || (n.role ρ).merge.completing.isSome) = false := by
    rw [hcap, hroot, hgate, hdone]
    rfl
  have hnone : (([] : List (Corr × ExportRef)).findIdx? fun e =>
      decide (toInt32 (n.role ρ).epoch ≤ (n.exports.get e.2).loserEpoch)).isSome = false := rfl
  unfold Node.mergeOffer
  simp only [hc, hshut, hentries, List.filter_nil, hnone, Bool.false_eq_true, if_false]
  refine ⟨n.world.nonce, ⟨c.claim.id, toInt32 c.claim.epoch, toInt32 (n.role ρ).epoch, .offered,
    ⟨[], []⟩, ⟨[], []⟩, none, n.now, 0, 0, mergeTiming, none, none, false, false, none⟩, rfl, rfl,
    ?_, rfl⟩
  have hput : ∀ (m : Node) (f : Role → Role) (msg : _) (w : _),
      (((m.modifyRole ρ f).send msg).park w).role ρ = f (m.role ρ) :=
    fun m f _ _ => Node.role_modifyRole_self m ρ f
  have hkept : (n.modifyRole ρ fun r => r).role ρ = n.role ρ := Node.role_modifyRole_self ..
  simp only [hput, List.findIdx?_nil, List.foldl_nil]
  rw [← hopen, ← hkept]
  rfl

/-- Where a root stands with the offer it made: it makes another one exactly if its epoch reads
higher now. -/
theorem standing_iff (cfg : Config) (n : Node) (t : TopicId) (ρ : RoleRef) {c : Candidate} {b : Int}
    (hcap : cfg.mergeCapable = true) (hroot : (n.role ρ).isRoot = true)
    (hgate : (n.role ρ).merge.gate = none) (hdone : (n.role ρ).merge.completing = none)
    (hc : (n.role ρ).merge.candidate = some c) (hopen : (n.role ρ).openMerges = ∅) :
    let m := (n.mergeOffer cfg t ρ).modifyRole ρ fun r => { r with epoch := b }
    (m.mergeOffer cfg t ρ).exports.next = m.exports.next ↔ toInt32 b ≤ toInt32 (n.role ρ).epoch := by
  intro m
  obtain ⟨corr, x, hwinner, hepoch, hrole, hexports⟩ :=
    mergeOffer_first (t := t) hcap hroot hgate hdone hc hopen
  have hmrole : m.role ρ = { n.role ρ with
      openMerges := (∅ : OrderedMap _ _).set corr n.exports.next, epoch := b } := by
    rw [Node.role_modifyRole_self, hrole]
  have hget : m.exports.get n.exports.next = x := by
    change (n.mergeOffer cfg t ρ).exports.get n.exports.next = x
    rw [hexports, Heap.get_alloc, if_pos rfl]
  have hentries : (m.role ρ).openMerges.entries = [(corr, n.exports.next)] := by
    rw [hmrole]
    rfl
  unfold Node.mergeOffer
  simp only [hmrole, hc, hcap, hroot, hgate, hdone, Bool.not_true, Bool.false_or, Option.isSome_none,
    Bool.false_eq_true, if_false]
  rw [hmrole] at hentries
  simp only [] at hentries
  rw [hentries]
  simp only [List.filter_cons, hget, hwinner, decide_true, if_true, List.filter_nil,
    List.findIdx?_cons, List.findIdx?_nil, hepoch]
  by_cases hle : toInt32 b ≤ toInt32 (n.role ρ).epoch
  · simp only [hle, decide_true, if_true, Option.isSome_some, iff_true]
    rfl
  · simp only [hle, decide_false, Bool.false_eq_true, if_false, Option.map_none, Option.isSome_none,
      iff_false]
    exact Nat.succ_ne_self m.exports.next

/-- The readings of the epochs of an acknowledgement are compared. -/
theorem ackMatches_iff {cfg : Config} {m : Export} {k : ReplayAck} (hwinner : k.winner = m.winner)
    (hloser : k.loser = cfg.nodeId) : Node.ackMatches cfg m k = true ↔
      toInt32 (k.winnerEpoch.getD 0) = toInt32 m.winnerEpoch
        ∧ toInt32 (k.loserEpoch.getD 0) = toInt32 m.loserEpoch := by
  unfold Node.ackMatches
  simp [hwinner, hloser]

/-- A beacon of the accepted winner extends the hold exactly if its epoch is not below the record's.
-/
theorem refreshed_iff {cfg : Config} {n : Node} {t : TopicId} {ρ : RoleRef} {w : AcceptedWinner}
    {b : Int} (hat : n.roleAt t = some ρ) (hw : (n.role ρ).merge.acceptedWinner = some w)
    (hexp : w.exp < n.now + cfg.stepDownHoldMs) :
    ((n.refreshAccepted cfg t w.id b).role ρ).merge.acceptedWinner.map (·.exp)
      = some (n.now + cfg.stepDownHoldMs) ↔ w.epoch ≤ b := by
  unfold Node.refreshAccepted
  simp only [hat, hw, decide_true, Bool.true_and, decide_eq_true_eq]
  split
  · next hle =>
    refine iff_of_true ?_ hle
    have hrole : ((n.modifyMerge ρ fun m => { m with
        acceptedWinner := some ⟨w.id, b, n.now + cfg.stepDownHoldMs⟩ }).role
          ρ).merge.acceptedWinner = some ⟨w.id, b, n.now + cfg.stepDownHoldMs⟩ := by
      rw [Node.modifyMerge, Node.role_modifyRole_self]
    split
    · split
      · exact congrArg (Option.map (·.exp)) hrole
      · exact congrArg (Option.map (·.exp)) hrole
    · exact congrArg (Option.map (·.exp)) hrole
  · next hlt =>
    refine iff_of_false ?_ hlt
    rw [hw]
    intro heq
    exact hexp.ne (Option.some.inj heq)

/-! ### Where they are in order -/

/-- Below the point where the two readings part, an epoch and the one after it are read as they
are. -/
theorem stagedEpoch_of_lt {a b : Int} (ha : 0 ≤ a) (hb : 0 ≤ b) (ha' : a < 2 ^ 31 - 1)
    (hb' : b < 2 ^ 31 - 1) : stagedEpoch a b = max a b + 1 := by
  have hbound : (exactBound : Int) = 2 ^ 53 := rfl
  have hsucca : succDouble a = a + 1 := succDouble_of_lt ha (by omega)
  have hsuccb : succDouble b = b + 1 := succDouble_of_lt hb (by omega)
  have hread : toInt32 (a + 1) = a + 1 := toInt32_of_nonneg (by omega) (by omega)
  have hreadb : toInt32 b = b := toInt32_of_nonneg hb (by omega)
  unfold stagedEpoch
  rw [hsucca, hread, hreadb, hreadb, hsuccb]
  omega

/-- What a stager mints is no larger than the number after 31 bits. -/
theorem stagedEpoch_le (a b : Int) : stagedEpoch a b ≤ 2 ^ 31 := by
  have hbound : (exactBound : Int) = 2 ^ 53 := rfl
  have hlow : -(2 ^ 31) ≤ toInt32 (toInt32 b) := by
    unfold toInt32
    omega
  have hhigh := toInt32_lt (toInt32 b)
  have hsucc : succDouble (toInt32 (toInt32 b)) = toInt32 (toInt32 b) + 1 := by
    apply roundDouble_of_le
    unfold exactBound
    omega
  have hknown := toInt32_lt (succDouble a)
  unfold stagedEpoch
  rw [hsucc]
  omega

/-- What a stager mints above one epoch alone, up to the end of 31 bits. -/
theorem stagedEpoch_self {a : Int} (h0 : 0 ≤ a) (h : a < 2 ^ 31) : stagedEpoch a a = a + 1 := by
  have hbound : (exactBound : Int) = 2 ^ 53 := rfl
  have hsucc : succDouble a = a + 1 := succDouble_of_lt h0 (by omega)
  have hread : toInt32 a = a := toInt32_of_nonneg h0 h
  have hle : toInt32 (a + 1) ≤ a + 1 := toInt32_le (by omega)
  unfold stagedEpoch
  rw [hread, hread, hsucc]
  omega

/-- A larger epoch is minted above an epoch that is not the largest. -/
theorem minted_of_lt {a : Int} (ha : Admitted a) (h : a < maxSafeInteger) :
    a < succDouble a ∧ Admitted (succDouble a) := by
  have ha0 := (admitted_iff.mp ha).1
  rw [succDouble_admitted ha, admitted_iff]
  omega

/-- A claim that the two readings of a root's epoch leave alone is compared by its number. -/
theorem claimWins_outranks {t : TopicId} {x y : NodeId} {a b : Int} (h : a ≠ b → 0 < a ∧ 0 < b) :
    claimWins t ⟨x, a⟩ ⟨y, b⟩ = outranks t ⟨x, a⟩ ⟨y, b⟩ := by
  unfold claimWins outranks
  by_cases hab : a = b
  · simp [hab]
  · obtain ⟨ha, hb⟩ := h hab
    simp [hab, ha, hb]

/-- A root at an epoch, to compare with. -/
def rootAt (t : TopicId) (e : Int) : Node :=
  ((Node.boot (sampleWorld 0)).register { makeRole t true 0 with epoch := e }).1

theorem rootAt_role (t : TopicId) (e : Int) :
    (rootAt t e).roleAt t = some 0 ∧ ((rootAt t e).role 0).isRoot = true
      ∧ ((rootAt t e).role 0).epoch = e :=
  ⟨by simp [rootAt, Node.register, Node.roleAt, Node.note, makeRole]; rfl, rfl, rfl⟩

/-- The comparison at every root that holds `b` is the one of the claims. -/
theorem compared_iff (a b c : Int) :
    (∀ (cfg : Config) (n : Node) (t : TopicId) (ρ : RoleRef) (x : NodeId),
        n.roleAt t = some ρ → (n.role ρ).isRoot = true → (n.role ρ).epoch = b →
          n.wins cfg t ⟨x, a⟩ = outranks t ⟨x, c⟩ ⟨cfg.nodeId, b⟩) ↔ ∀ (t : TopicId) (x y : NodeId),
          claimWins t ⟨x, a⟩ ⟨y, toInt32 b⟩ = outranks t ⟨x, c⟩ ⟨y, b⟩ := by
  constructor
  · intro h t x y
    obtain ⟨hρ, hroot, hb⟩ := rootAt_role t b
    have hwins := h { sampleConfig with nodeId := y } (rootAt t b) t 0 x hρ hroot hb
    rw [wins_root _ hρ hroot, hb] at hwins
    exact hwins
  · intro h cfg n t ρ x hρ hroot hb
    rw [wins_root cfg hρ hroot, hb]
    exact h t x cfg.nodeId

/-- Two different epochs are compared by their numbers only if both readings are. -/
theorem pos_of_compared {a b c : Int} (hne : c ≠ b) (h : ∀ (t : TopicId) (x y : NodeId),
      claimWins t ⟨x, a⟩ ⟨y, toInt32 b⟩ = outranks t ⟨x, c⟩ ⟨y, b⟩) :
    0 < a ∧ 0 < toInt32 b ∧ (a < toInt32 b ↔ c < b) := by
  have hnear := h 0 0 1
  have hfar := h 0 1 0
  unfold claimWins outranks at hnear hfar
  simp only [hne, if_false] at hnear hfar
  by_cases hpos : 0 < a ∧ 0 < toInt32 b ∧ a ≠ toInt32 b
  · obtain ⟨ha, hb, hab⟩ := hpos
    simp only [ha, hb, hab, decide_true, ne_eq, not_false_eq_true, Bool.and_true, if_true,
      decide_eq_decide] at hnear
    exact ⟨ha, hb, by omega⟩
  -- decided by closeness, the two come out differently
  have hguard : (decide (0 < a) && decide (0 < toInt32 b) && decide (a ≠ toInt32 b)) = false := by
    simpa [and_assoc] using hpos
  rw [hguard] at hnear hfar
  have hn : distance 0 0 < distance 0 1 := by decide
  have hf : ¬ distance 0 1 < distance 0 0 := by decide
  simp only [Bool.false_eq_true, if_false, hn, hf, decide_true, decide_false] at hnear hfar
  rw [← hnear] at hfar
  cases hfar

/-- Versioned epochs of 31 bits are in order, and so is one epoch with itself, as far as a stager
mints above them. -/
theorem epochOrder_of_lt {a b : Int} (ha : Admitted a) (ha' : a < 2 ^ 31) (hb : 0 ≤ b)
    (hb' : b < 2 ^ 31) (hne : a ≠ b → 0 < a ∧ 0 < b) (hstaged : stagedEpoch a b = max a b + 1) :
    EpochOrder a b := by
  have ha0 : 0 ≤ a := (admitted_iff.mp ha).1
  have hreada : toInt32 a = a := toInt32_of_nonneg ha0 ha'
  have hreadb : toInt32 b = b := toInt32_of_nonneg hb hb'
  have hcmp : ∀ (t : TopicId) (x y : NodeId),
      claimWins t ⟨x, a⟩ ⟨y, toInt32 b⟩ = outranks t ⟨x, a⟩ ⟨y, b⟩ := by
    intro t x y
    rw [hreadb]
    exact claimWins_outranks hne
  constructor
  case minted =>
    rintro n ρ why rfl
    rw [epoch_ascend]
    apply minted_of_lt ha
    unfold maxSafeInteger
    omega
  case staged =>
    rintro cfg n ρ p corr st hp hroot hst hcorr rfl
    rw [epoch_stagePromote _ hp.eq hroot hst hcorr, hstaged, admitted_iff]
    unfold maxSafeInteger
    omega
  case nominated => exact (compared_iff a b a).mpr hcmp
  case offered =>
    intro cfg n t ρ x e he
    rw [he.eq, hreada]
    exact (compared_iff a b a).mpr hcmp cfg n t ρ x
  case standing =>
    rintro cfg n t ρ c hcap hroot hgate hdone hc hopen rfl
    have h := standing_iff (b := b) cfg _ t _ hcap hroot hgate hdone hc hopen
    rwa [hreada, hreadb] at h
  case ackedWinner =>
    intro cfg m k hwinner hloser hl hw hm
    have htwice : ∀ e, toInt32 (toInt32 e) = toInt32 e := toInt32_toInt32
    rw [ackMatches_iff hwinner hloser, hl, hw, hm, Option.getD_some, Option.getD_some, htwice,
      htwice, hreada, hreadb]
    exact and_iff_left rfl
  case ackedLoser =>
    intro cfg m k hwinner hloser hw hl hm
    have htwice : ∀ e, toInt32 (toInt32 e) = toInt32 e := toInt32_toInt32
    rw [ackMatches_iff hwinner hloser, hl, hw, hm, Option.getD_some, Option.getD_some, htwice,
      htwice, hreada, hreadb]
    exact and_iff_right rfl
  case refreshed =>
    intro cfg n t ρ w hat hw hepoch hexp
    rw [refreshed_iff hat hw hexp, hepoch, hreada]

/-- A root that recorded a candidate, to offer its claim. -/
def offererAt (e : Int) : Node :=
  ((Node.boot (sampleWorld 0)).register
    { makeRole 0 true 0 with epoch := e, merge := { candidate := some ⟨⟨1, 0⟩, 0⟩ } }).1

/-- A root offers the 32-bit reading of its epoch. -/
theorem offers_read (e : Int) : Offers e (toInt32 e) :=
  ⟨sampleConfig, offererAt e, 0, 0, 0, 1, 0, 0, mergeTiming, true, rfl, rfl, List.mem_cons_self⟩

/-- A node whose role pulls for a stager, to promote. -/
def stagerAt (e : Int) : Node :=
  ((Node.boot (sampleWorld 0)).register
    { makeRole 0 false 0 with epoch := e, staging := some ⟨0, 1, 0, false⟩ }).1

/-- In order with an epoch is one above which a stager mints a larger one. -/
theorem staged_of_order {a b : Int} (ha : 0 ≤ a) (h : EpochOrder a b) :
    max a b < stagedEpoch a b := by
  have hknown : (stagerAt a).knownEpoch ((stagerAt a).role 0).topicId = a := by
    change max (max (max (max 0 a) 0) 0) 0 = a
    omega
  have hp : Offers b
      (⟨1, toInt32 b, none, 0, 0, 0, 0, mergeTiming, .pulling, ⟨[], []⟩, true, 0, none, true, []⟩
        : Pull).loserEpoch := offers_read b
  have hstaged := (h.staged sampleConfig (stagerAt a) 0 _ 0 ⟨0, 1, 0, false⟩ hp rfl rfl rfl hknown).1
  rwa [epoch_stagePromote ⟨0, 1, 0, false⟩ hp.eq rfl rfl rfl, hknown] at hstaged

/-- In order with a larger epoch is an epoch of 31 bits that is versioned, and the larger one leaves
room for the next. -/
theorem bounds_of_order {a b : Int} (ha : Admitted a) (hb : Admitted b) (hab : a < b)
    (h : EpochOrder a b) (h' : EpochOrder b a) : 1 ≤ a ∧ b < 2 ^ 31 - 1 := by
  have ha0 : 0 ≤ a := (admitted_iff.mp ha).1
  obtain ⟨-, hreada, -⟩ := pos_of_compared (ne_of_gt hab) ((compared_iff b a b).mp h'.nominated)
  obtain ⟨-, -, hlt⟩ := pos_of_compared (ne_of_lt hab) ((compared_iff a b a).mp h.nominated)
  have hread : toInt32 a = a := toInt32_of_nonneg ha0 (lt_of_le_toInt32 (hlt.mpr hab).le)
  have hsucc : succDouble a = a + 1 := succDouble_admitted ha
  have hstaged := staged_of_order (admitted_iff.mp hb).1 h'
  unfold stagedEpoch at hstaged
  rw [hread, hread, hsucc, succDouble_admitted hb] at hstaged
  -- the loser's epoch is too low, so the reading of the stager's own one has to be larger
  have hlast : b + 1 ≤ toInt32 (b + 1) := by omega
  have hbound := lt_of_le_toInt32 hlast
  omega

/-- **Epoch order.** Two epochs that beacons may name are in order, both ways, exactly when they are
one epoch of 31 bits, or two versioned ones below the last of 31 bits. -/
theorem epoch_order_iff {a b : Int} (ha : Admitted a) (hb : Admitted b) :
    EpochOrder a b ∧ EpochOrder b a ↔
      (a = b ∧ a < 2 ^ 31)
        ∨ (a ≠ b ∧ 1 ≤ a ∧ 1 ≤ b ∧ a < 2 ^ 31 - 1 ∧ b < 2 ^ 31 - 1) := by
  have ha0 : 0 ≤ a := (admitted_iff.mp ha).1
  have hb0 : 0 ≤ b := (admitted_iff.mp hb).1
  constructor
  · rintro ⟨h, h'⟩
    rcases lt_trichotomy a b with hab | rfl | hab
    · have hbounds := bounds_of_order ha hb hab h h'
      right
      omega
    · have hstaged := lt_of_lt_of_le (staged_of_order ha0 h) (stagedEpoch_le a a)
      rw [max_self] at hstaged
      exact .inl ⟨rfl, hstaged⟩
    · have hbounds := bounds_of_order hb ha hab h' h
      right
      omega
  · rintro (⟨rfl, hlt⟩ | ⟨hne, ha1, hb1, ha', hb'⟩)
    · have hself : EpochOrder a a :=
        epochOrder_of_lt ha hlt ha0 hlt (fun hne => absurd rfl hne)
          (by rw [stagedEpoch_self ha0 hlt, max_self])
      exact ⟨hself, hself⟩
    · exact ⟨epochOrder_of_lt ha (by omega) hb0 (by omega) (fun _ => by omega)
          (stagedEpoch_of_lt ha0 hb0 ha' hb'),
        epochOrder_of_lt hb (by omega) ha0 (by omega) (fun _ => by omega)
          (stagedEpoch_of_lt hb0 ha0 hb' ha')⟩

/-- The first two incarnations of a seat are in order. -/
theorem epoch_order_first : EpochOrder 1 2 ∧ EpochOrder 2 1 :=
  (epoch_order_iff (admitted_iff.mpr (by decide)) (admitted_iff.mpr (by decide))).mpr
    (.inr (by decide))

/-- The epoch after the last one of 31 bits is admitted, and ranks below the first. -/
theorem epoch_order_broken :
    Admitted 1 ∧ Admitted (2 ^ 31) ∧ ¬ (EpochOrder 1 (2 ^ 31) ∧ EpochOrder (2 ^ 31) 1) := by
  refine ⟨admitted_iff.mpr (by decide), admitted_iff.mpr (by decide), ?_⟩
  rintro ⟨h, -⟩
  have hstands : toInt32 (2 ^ 31) ≤ toInt32 1 := by decide
  have hsame := (standing_iff sampleConfig (offererAt 1) 0 0 rfl rfl rfl rfl rfl rfl).mpr hstands
  have hle := (h.standing sampleConfig (offererAt 1) 0 0 _ rfl rfl rfl rfl rfl rfl rfl).mp hsame
  exact absurd hle (by decide)

end Axona
