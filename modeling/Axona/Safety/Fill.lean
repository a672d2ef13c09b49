import Axona.Dht.Fill
import Axona.Safety.CandidateDial
import Axona.Safety.Candidates

/-! # What the fill may dial

The room of the table is read at the issue of a dial, without the attempt of the dial itself; a tick
counts what it dialled; a candidate whose dial is put off stays. The first fails where the attempt
was ended by another hand while the open was awaited: then it is not among those in flight, and
another one is left out in its stead. The second fails where the open is the dial and the mark it
consumed makes the identity ineligible: such a dial is counted nowhere. -/

namespace Axona

open Library OrderedMap

namespace FillNode

variable {cfg : FillConfig} {s : FillNode} {id : NodeId} {c : DialCall} {r : OpenReply} {x : Round}
  {out : DialResult} {rest : List NodeId} {improve : Bool}

/-! ### The promise and the condition -/

/-- What a mark says of when its identity is dialled. -/
def schedule (s : FillNode) (id : NodeId) : Option (MarkKind × ℚ × Option ℚ) :=
  (s.node.tables.marks.marks.get id).map fun m => (m.kind, m.attempts, m.dueAt)

/-- No attempt at the identity is counted, and its mark is as it was. -/
def Untouched (s s' : FillNode) (id : NodeId) : Prop :=
  s'.node.tables.attemptsOf id = s.node.tables.attemptsOf id ∧ s'.schedule id = s.schedule id

/-- What is promised of every step. -/
structure Fills (cfg : FillConfig) (s : FillNode) (a : Act) : Prop where
  /-- A relay dial that no displacement covers is issued where there is room for it beside the
  attempts in flight, this one included. -/
  room : ∀ c r, a = .node (.answered c r) → c ∈ s.node.awaiting →
    (s.node.openAnswered cfg.candidate c r).1 = .held → r.covered = false →
    s.node.synaptome.card + s.node.tables.guard.inflightCount
      + (if c.k ∈ s.node.tables.closed then 1 else 0) ≤ s.node.capM
  /-- A tick dials and cancels no more often than it may. -/
  budget : (s.step cfg a).made ≤ cfg.maxPerTick
  /-- A candidate whose dial is put off stays in the cache. -/
  stays : ∀ id out rest, s.point = .back id out rest false → out.deferral = true →
    s.cands.cache.has id = true ∧ (s.step cfg a).cands.cache.has id = true
  /-- Its attempt is in flight until then, and it is touched by nothing that the call does. -/
  deferred : ∀ c r, a = .node (.answered c r) → c ∈ s.node.awaiting →
    (s.node.openAnswered cfg.candidate c r).1.deferral = true →
    c.k ∉ s.node.tables.closed ∧ Untouched s (s.step cfg a) c.peerId
  /-- The same where it is put off at once. -/
  atOnce : ∀ id rest out, s.point = .choosing (id :: rest) →
    (s.step cfg a).point = .back id out rest false → out.deferral = true →
    Untouched s (s.step cfg a) id

/-- The tick waits for the open of a call that its dial phase made. -/
def WaitsFor (s : FillNode) (c : DialCall) : Prop := ∃ rest, s.point = .waiting c rest false

/-- **The condition.** Where the open of a call has failed: a dial that went out is counted, so the
open was not the dial of the tick, or the identity is still eligible; and a call whose attempt was
ended by another hand meanwhile is not put off, and starts no relay dial while the attempts in
flight fill the table. A tick that improves may dial at all. -/
def OpenStillCounts (cfg : FillConfig) (s : FillNode) : Act → Prop
  | .node (.answered c r) =>
    c ∈ s.node.awaiting → r.opened = false →
      (cfg.relays = false → s.WaitsFor c → s.node.isEligible cfg.candidate c.peerId = true) ∧
      (cfg.relays = true → c.k ∈ s.node.tables.closed →
        s.node.isEligible cfg.candidate c.peerId = true →
        s.node.noRoom cfg.candidate r.covered = false ∧ r.relay ≠ .refused ∧
          (r.relay = .notStarted ∨ r.covered = true ∨ s.node.tables.guard.inflightCount = 0 ∨
            s.node.synaptome.card + s.node.tables.guard.inflightCount < s.node.capM))
  | .round _ => ∀ rest, s.point = .offering rest → 0 < cfg.maxPerTick
  | _ => True

/-! ### The room -/

/-- An attempt that is open is among those in flight. -/
theorem inflightCount_pos {t : Dials} {mcfg : MarkConfig} {gcfg : GuardConfig}
    (h : t.Books mcfg gcfg) {k : DialToken} {key : IdSuffix} (hbegun : (k, key) ∈ t.begun)
    (hopen : k ∉ t.closed) : 0 < t.guard.inflightCount := by
  obtain ⟨e, he, hlive, -⟩ := h.opened k key hbegun hopen
  refine List.countP_pos_iff.mpr ⟨(key, e), mem_of_get he, hlive⟩

theorem room_of_held (h : s.node.CallBooks cfg.candidate) (hc : c ∈ s.node.awaiting)
    (hheld : (s.node.openAnswered cfg.candidate c r).1 = .held) (hcovered : r.covered = false)
    (hm : OpenStillCounts cfg s (.node (.answered c r))) :
    s.node.synaptome.card + s.node.tables.guard.inflightCount
      + (if c.k ∈ s.node.tables.closed then 1 else 0) ≤ s.node.capM := by
  have hcase := CandidateNode.answered cfg.candidate s.node c r
  generalize s.node.openAnswered cfg.candidate c r = y at hcase hheld
  cases hcase with
  | held inc hopened heligible hrelays hroom hstarted =>
    -- there was room without one attempt in flight
    have havail : 0 < s.node.fillAvailability true := by
      simpa [CandidateNode.noRoom, FillConfig.candidate, hcovered] using hroom
    unfold CandidateNode.fillAvailability at havail
    simp only [if_true] at havail
    split
    next hclosed =>
      obtain ⟨-, -, hfits⟩ := (hm hc hopened).2 hrelays hclosed heligible
      rcases hfits with hfits | hfits | hfits | hfits
      · exact absurd hfits hstarted.2
      · rw [hcovered] at hfits
        cases hfits
      · omega
      · omega
    next hopen =>
      have hpos := inflightCount_pos h.books (h.awaiting c hc) hopen
      omega
  | _ => cases hheld

/-! ### What a deferral leaves -/

/-- The question of eligibility leaves the schedules. -/
theorem schedule_eligible (t : DeadPeers) (mcfg : MarkConfig) (id id' : NodeId) (now : ℚ) :
    ((t.eligible mcfg id now).2.marks.get id').map (fun m => (m.kind, m.attempts, m.dueAt)) =
      (t.marks.get id').map fun m => (m.kind, m.attempts, m.dueAt) := by
  unfold DeadPeers.eligible
  cases hget : t.marks.get id with
  | none => rfl
  | some m =>
    cases hkind : m.kind with
    | policy => simp only [hkind]
    | loss =>
      simp only [hkind]
      split
      · rfl
      split
      · rw [get_set]
        split
        next hid =>
          rw [hid, hget]
          simp [hkind]
        · rfl
      · rfl

variable (cfg) in
theorem untouched_of_asked {s s' : FillNode}
    (hattempts : s'.node.tables.attemptsOf id = s.node.tables.attemptsOf id)
    (hasked : s.node.Asked cfg.candidate id s'.node.tables.marks) : Untouched s s' id := by
  refine ⟨hattempts, ?_⟩
  unfold schedule
  rcases hasked with heq | heq
  · rw [heq]
  · rw [heq]
    exact schedule_eligible _ _ _ _ _

/-- A dial that is put off after its open: its token was released, and nothing else was done. -/
theorem deferred_answered
    (hdefers : (s.node.openAnswered cfg.candidate c r).1.deferral = true) :
    (s.node.openAnswered cfg.candidate c r).2.tables.attemptsOf c.peerId =
        s.node.tables.attemptsOf c.peerId ∧
      s.node.Asked cfg.candidate c.peerId
        (s.node.openAnswered cfg.candidate c r).2.tables.marks := by
  have hrelease : ((s.node.reasked cfg.candidate c).release cfg.candidate c).tables.attemptsOf
      c.peerId = s.node.tables.attemptsOf c.peerId :=
    Dials.attemptsOf_release cfg.marks cfg.guard _
  have hcase := CandidateNode.answered cfg.candidate s.node c r
  generalize s.node.openAnswered cfg.candidate c r = y at hcase hdefers
  cases hcase with
  | stopped hopened heligible hroom | deferred hopened heligible hrelays hroom hrefused =>
    exact ⟨hrelease, .inr rfl⟩
  | _ => cases hdefers

/-- Its own attempt was in flight until then. -/
theorem open_of_deferred (hc : c ∈ s.node.awaiting)
    (hdefers : (s.node.openAnswered cfg.candidate c r).1.deferral = true)
    (hm : OpenStillCounts cfg s (.node (.answered c r))) : c.k ∉ s.node.tables.closed := by
  have hcase := CandidateNode.answered cfg.candidate s.node c r
  generalize s.node.openAnswered cfg.candidate c r = y at hcase hdefers
  intro hclosed
  cases hcase with
  | stopped hopened heligible hroom =>
    simp only [CandidateNode.stopped, CandidateConfig.openIsTheDial, Bool.not_not,
      Bool.and_eq_true] at hroom
    have hsome := ((hm hc hopened).2 hroom.1 hclosed heligible).1
    rw [hroom.2] at hsome
    cases hsome
  | deferred hopened heligible hrelays hroom hrefused =>
    exact ((hm hc hopened).2 hrelays hclosed heligible).2.1 hrefused
  | _ => cases hdefers

/-- A dial that is put off at once, or one on a relay transport, whose open is no dial yet. -/
theorem untouched_considered {n : CandidateNode} {f : Found}
    (hidle : (n.tables.guard.entry (identitySuffix id)).inflight = false)
    (h : (n.considerCandidate cfg.candidate id f).1.elim (cfg.relays = true) (·.deferral = true)) :
    (n.considerCandidate cfg.candidate id f).2.tables.attemptsOf id = n.tables.attemptsOf id ∧
      n.Asked cfg.candidate id (n.considerCandidate cfg.candidate id f).2.tables.marks := by
  have hcase := CandidateNode.considered cfg.candidate n id f
  generalize n.considerCandidate cfg.candidate id f = y at hcase h
  have hbegins : (n.begins cfg.candidate id).tables.attemptsOf id = n.tables.attemptsOf id := by
    have hasked : (n.asked cfg.candidate id).tables.attemptsOf id = n.tables.attemptsOf id := by
      -- the sweep finds nothing in flight to the identity
      unfold Dials.attemptsOf AttemptGuard.entry
      rw [show (n.asked cfg.candidate id).tables.guard.state.get (identitySuffix id) =
        n.tables.guard.state.get (identitySuffix id) from
        Dials.get_sweep cfg.marks cfg.guard hidle]
    exact Eq.trans (Dials.attemptsOf_dial cfg.marks) hasked
  have hmarks := (CandidateNode.marks_begins cfg.candidate n id).1
  cases hcase with
  | deferred hallow hroom =>
    have hrelease : ((n.begins cfg.candidate id).release cfg.candidate
        (n.newCall cfg.candidate id)).tables.attemptsOf id =
        (n.begins cfg.candidate id).tables.attemptsOf id :=
      Dials.attemptsOf_release cfg.marks cfg.guard _
    exact ⟨hrelease.trans hbegins, .inr hmarks⟩
  | awaits hallow heligible hroom hfew =>
    have hrelays : cfg.relays = true := h
    have hdial : cfg.candidate.openIsTheDial = false := by
      rw [CandidateConfig.openIsTheDial, Bool.not_eq_false']
      exact hrelays
    rw [hdial, if_neg Bool.false_ne_true]
    exact ⟨hbegins, .inr hmarks⟩
  | quiet out' hout' =>
    rcases hout' with rfl | rfl | rfl <;> cases h
  | known | bound | refused => cases h

/-! ### Invariants -/

/-- The candidates of the cache that a tick still goes through. -/
def listed : TickPoint → List NodeId
  | .choosing rest => rest
  | .waiting c rest false => c.peerId :: rest
  | .back id _ rest false => id :: rest
  | _ => []

/-- The books of the calls are kept, and what a tick goes through is in the cache, each once. -/
structure TickBooks (cfg : FillConfig) (s : FillNode) : Prop where
  node : s.node.CallBooks cfg.candidate
  ids : ∀ k : Int, s.cands.cache.has k = true → 0 ≤ k
  cached : ∀ id ∈ listed s.point, s.cands.cache.has id = true
  apart : (listed s.point).Nodup

/-- What was dialled is counted, or is the dial that the tick waits for. -/
def Budget (cfg : FillConfig) (s : FillNode) : Prop :=
  match s.point with
  | .idle => s.made ≤ cfg.maxPerTick
  | .searching => s.made = 0 ∧ s.dialed + s.cancelled = 0
  | .improving => s.made = 0
  | .offering _ => s.made = 0
  | .choosing _ => s.made ≤ s.dialed + s.cancelled ∧ s.dialed + s.cancelled ≤ cfg.maxPerTick
  | .waiting _ _ true => 0 < cfg.maxPerTick ∧ s.made = if cfg.relays then 0 else 1
  | .waiting _ _ false =>
    s.dialed + s.cancelled < cfg.maxPerTick ∧
      s.made ≤ s.dialed + s.cancelled + if cfg.relays then 0 else 1
  | .back _ _ _ true => 0 < cfg.maxPerTick ∧ s.made ≤ 1
  | .back _ out _ false =>
    s.dialed + s.cancelled < cfg.maxPerTick ∧
      s.made ≤ s.dialed + s.cancelled + if out = .skip || out.deferral then 0 else 1

theorem tickBooks_init (cfg : FillConfig) (capM : Nat) : (init capM).TickBooks cfg where
  node := CandidateNode.callBooks_init _ capM
  ids := nofun
  cached := nofun
  apart := List.nodup_nil

theorem budget_init (cfg : FillConfig) (capM : Nat) : (init capM).Budget cfg := Nat.zero_le _

/-- In every point a tick has made no more dials than it may. -/
theorem Budget.made (h : s.Budget cfg) : s.made ≤ cfg.maxPerTick := by
  unfold FillNode.Budget at h
  split at h
  · exact h
  · omega
  · omega
  · omega
  · omega
  · obtain ⟨hpos, hmade⟩ := h
    split at hmade <;> omega
  · obtain ⟨hlt, hmade⟩ := h
    split at hmade <;> omega
  · omega
  · obtain ⟨hlt, hmade⟩ := h
    split at hmade <;> omega

/-! ### The cache -/

variable {cands : Candidates} {cc : CacheConfig}

/-- A candidate outlives a nomination that is not of the peer exchange. -/
theorem has_nominate {k k' : Int} {src : CandidateSource} (hsrc : src ≠ .pex) (now : ℚ)
    (w : Nominee) (h : cands.cache.has k' = true) :
    (cands.nominateCandidate cc k src now w).2.cache.has k' = true := by
  unfold Candidates.nominateCandidate
  rw [if_neg hsrc]
  dsimp only
  split_ifs
  · exact h
  · exact h
  · exact h
  · exact h
  · exact h
  · exact h
  · rw [has_set, h, Bool.or_true]

/-- What is in the cache after a nomination was there, or is the nominee. -/
theorem has_of_nominate {k k' : Int} {src : CandidateSource} {now : ℚ} {w : Nominee}
    (h : (cands.nominateCandidate cc k src now w).2.cache.has k' = true) :
    k' = k ∨ cands.cache.has k' = true := by
  have hevict : ∀ k, (cands.evictPex cc).cache.has k = true → cands.cache.has k = true := by
    intro k hk
    unfold Candidates.evictPex at hk
    split at hk
    · split at hk
      · simp only [OrderedMap.has, get_delete] at hk
        split at hk
        · cases hk
        · exact hk
      · exact hk
    · exact hk
  unfold Candidates.nominateCandidate at h
  dsimp only at h
  split_ifs at h
  · exact .inr h
  · exact .inr h
  · exact .inr h
  · exact .inr h
  · exact .inr h
  · exact .inr (hevict k' h)
  · rw [has_set, Bool.or_eq_true, decide_eq_true_eq] at h
    exact h.imp_right (hevict k')
  · exact .inr h
  · rw [has_set, Bool.or_eq_true, decide_eq_true_eq] at h
    exact h

/-- An offer that could not be delivered takes no candidate out of the cache. -/
theorem has_noPath {k k' : Int} {now noPathUntil : ℚ} (h : cands.cache.has k' = true) :
    (cands.onNoPath cc k now noPathUntil).cache.has k' = true := by
  rcases Candidates.noPath_cases (c := cc) cands k now noPathUntil with hc | ⟨e, he, hc⟩ |
    ⟨-, -, -, -, -, hc⟩
  · rwa [hc]
  · rw [hc, has_set, h, Bool.or_true]
  · rw [hc, has_set, h, Bool.or_true]

theorem has_of_noPath {k k' : Int} {now noPathUntil : ℚ}
    (h : (cands.onNoPath cc k now noPathUntil).cache.has k' = true) :
    k' = k ∨ cands.cache.has k' = true := by
  rcases Candidates.noPath_cases (c := cc) cands k now noPathUntil with hc | ⟨e, he, hc⟩ |
    ⟨-, -, -, -, -, hc⟩
  · exact .inr (hc ▸ h)
  all_goals
    rw [hc, has_set, Bool.or_eq_true, decide_eq_true_eq] at h
    exact h

/-! ### What the tick goes through -/

/-- The tick goes through no more, and the cache is as it was. -/
theorem TickBooks.moved (h : s.TickBooks cfg) {s' : FillNode} (hnode : s'.node.CallBooks cfg.candidate)
    (hcache : s'.cands.cache = s.cands.cache)
    (hlisted : (listed s'.point).Sublist (listed s.point)) : s'.TickBooks cfg where
  node := hnode
  ids := fun k hk => h.ids k (hcache ▸ hk)
  cached := fun id hid => by
    rw [hcache]
    exact h.cached id (hlisted.subset hid)
  apart := h.apart.sublist hlisted

/-- The tick is through with a candidate, and it left the cache. -/
theorem TickBooks.forgot (h : s.TickBooks cfg) {s' : FillNode} (hnode : s'.node.CallBooks cfg.candidate)
    (hcache : s'.cands.cache = s.cands.cache.delete id) (hlisted : listed s.point = id :: rest)
    (hrest : listed s'.point = rest) : s'.TickBooks cfg := by
  have happart := h.apart
  rw [hlisted, List.nodup_cons] at happart
  refine ⟨hnode, fun k hk => ?_, fun id' hid' => ?_, hrest ▸ happart.2⟩
  · rw [hcache, has_delete] at hk
    exact h.ids k hk.2
  · rw [hrest] at hid'
    rw [hcache, has_delete]
    refine ⟨fun heq => ?_, h.cached id' (hlisted ▸ List.mem_cons_of_mem id hid')⟩
    exact happart.1 (Int.ofNat_inj.mp heq ▸ hid')

theorem tickBooks_askGuard (h : s.node.CallBooks cfg.candidate) (id : NodeId) :
    (s.askGuard cfg id).node.CallBooks cfg.candidate :=
  { h with
    books := h.books.turn_open
      (Dials.turns_allow cfg.guard s.node.tables.wall s.node.tables.guard id s.node.tables.wall) }

variable (cfg) in
theorem listed_consider (s : FillNode) (id : NodeId) (x : Round) (rest : List NodeId) :
    listed (s.consider cfg id x rest false).point = id :: rest ∧
      listed (s.consider cfg id x rest true).point = [] := by
  unfold consider
  dsimp only
  split <;> exact ⟨rfl, rfl⟩

theorem cands_consider (s : FillNode) : (s.consider cfg id x rest improve).cands = s.cands := by
  unfold consider
  dsimp only
  split <;> rfl

theorem node_consider (s : FillNode) : (s.consider cfg id x rest improve).node =
    (s.node.considerCandidate cfg.candidate id x.found).2 := by
  unfold consider
  dsimp only
  split <;> rfl

theorem TickBooks.consider (h : s.TickBooks cfg) (hlisted : improve = false → listed s.point = id :: rest) :
    (s.consider cfg id x rest improve).TickBooks cfg := by
  refine h.moved ?_ (congrArg Candidates.cache (cands_consider s)) ?_
  · rw [node_consider]
    exact h.node.considerCandidate id x.found
  · obtain ⟨hchoose, hoffer⟩ := listed_consider cfg s id x rest
    cases improve with
    | false => rw [hchoose, hlisted rfl]
    | true =>
      rw [hoffer]
      exact List.nil_sublist _

theorem budget_consider
    (hchoose : improve = false →
      s.made ≤ s.dialed + s.cancelled ∧ s.dialed + s.cancelled < cfg.maxPerTick)
    (hoffer : improve = true → s.made = 0 ∧ 0 < cfg.maxPerTick) :
    (s.consider cfg id x rest improve).Budget cfg := by
  unfold consider
  dsimp only
  split
  · cases improve with
    | false =>
      obtain ⟨hmade, hlt⟩ := hchoose rfl
      exact ⟨hlt, hmade.trans (Nat.le_add_right _ _)⟩
    | true =>
      obtain ⟨hmade, hpos⟩ := hoffer rfl
      exact ⟨hpos, hmade ▸ Nat.zero_le 1⟩
  · have hdial : (if cfg.candidate.openIsTheDial then 1 else 0) = if cfg.relays then 0 else 1 := by
      cases hrelays : cfg.relays <;>
        simp [FillConfig.candidate, CandidateConfig.openIsTheDial, hrelays]
    cases improve with
    | false =>
      obtain ⟨hmade, hlt⟩ := hchoose rfl
      refine ⟨hlt, ?_⟩
      simp only [hdial]
      omega
    | true =>
      obtain ⟨hmade, hpos⟩ := hoffer rfl
      refine ⟨hpos, ?_⟩
      simp only [hdial, hmade]
      omega

/-- A round of the dial phase. -/
theorem TickBooks.choose (h : s.TickBooks cfg) (hpoint : s.point = .choosing (id :: rest)) (x : Round) :
    (s.choose cfg id rest x).TickBooks cfg := by
  have hlisted : listed s.point = id :: rest := by rw [hpoint]; rfl
  have hasked := h.node.askEligible id
  have hstop : ∀ n : CandidateNode, n.CallBooks cfg.candidate →
      ({ s with node := n, point := .idle } : FillNode).TickBooks cfg := fun n hn =>
    h.moved hn rfl (List.nil_sublist _)
  have hnext : ∀ n : CandidateNode, n.CallBooks cfg.candidate →
      ({ s with node := n, point := .choosing rest } : FillNode).TickBooks cfg := fun n hn =>
    h.moved hn rfl (hlisted ▸ List.sublist_cons_self id rest)
  unfold FillNode.choose
  dsimp only
  split
  · exact hstop _ h.node
  split
  · exact hstop _ h.node
  split
  · exact h.forgot h.node rfl hlisted rfl
  split
  · exact h.forgot hasked rfl hlisted rfl
  split
  · exact hnext _ hasked
  split
  · exact hstop _ hasked
  split
  · exact hnext _ (tickBooks_askGuard (s := { s with node := _ }) hasked id)
  have hguard : (askGuard cfg
      { s with node := s.node.askEligible cfg.candidate id } id).TickBooks cfg :=
    h.moved (tickBooks_askGuard (s := { s with node := _ }) hasked id) rfl (List.Sublist.refl _)
  exact hguard.consider fun _ => hlisted

theorem budget_choose (h : s.Budget cfg) (hpoint : s.point = .choosing (id :: rest)) (x : Round) :
    (s.choose cfg id rest x).Budget cfg := by
  unfold FillNode.Budget at h
  rw [hpoint] at h
  obtain ⟨hmade, hle⟩ := h
  unfold FillNode.choose
  dsimp only
  split
  · exact hmade.trans hle
  next hlt =>
  split
  · exact hmade.trans hle
  split
  · exact ⟨hmade, hle⟩
  split
  · exact ⟨hmade, hle⟩
  split
  · exact ⟨hmade, hle⟩
  split
  · exact hmade.trans hle
  split
  · exact ⟨hmade, hle⟩
  · exact budget_consider (fun _ => ⟨hmade, Nat.lt_of_not_le hlt⟩) nofun

/-- A round of an improvement. -/
theorem TickBooks.offer (h : s.TickBooks cfg) (hpoint : s.point = .offering (id :: rest)) (x : Round) :
    (s.offer cfg id rest x).TickBooks cfg := by
  have hlisted : listed s.point = [] := by rw [hpoint]; rfl
  have hasked := h.node.askEligible id
  have hnext : ∀ n : CandidateNode, n.CallBooks cfg.candidate →
      ({ s with node := n, point := .offering rest } : FillNode).TickBooks cfg := fun n hn =>
    h.moved hn rfl (List.nil_sublist _)
  unfold FillNode.offer
  dsimp only
  split
  · exact hnext _ h.node
  split
  · exact hnext _ hasked
  split
  · exact hnext _ hasked
  split
  · exact hnext _ (tickBooks_askGuard (s := { s with node := _ }) hasked id)
  have hguard : (askGuard cfg
      { s with node := s.node.askEligible cfg.candidate id } id).TickBooks cfg :=
    h.moved (tickBooks_askGuard (s := { s with node := _ }) hasked id) rfl (List.Sublist.refl _)
  exact hguard.consider nofun

theorem budget_offer (h : s.Budget cfg) (hpoint : s.point = .offering (id :: rest))
    (hpos : 0 < cfg.maxPerTick) (x : Round) : (s.offer cfg id rest x).Budget cfg := by
  unfold FillNode.Budget at h
  rw [hpoint] at h
  unfold FillNode.offer
  dsimp only
  split
  · exact h
  split
  · exact h
  split
  · exact h
  split
  · exact h
  · exact budget_consider nofun fun _ => ⟨h, hpos⟩

/-- The tick goes on. -/
theorem TickBooks.goOn (h : s.TickBooks cfg) (hpoint : s.point = .back id out rest improve) :
    (s.goOn cfg id out rest improve).TickBooks cfg := by
  have hidle : ∀ s' : FillNode, s'.node = s.node → s'.cands = s.cands → s'.point = .idle →
      s'.TickBooks cfg := fun s' hnode hcands hidle =>
    h.moved (hnode ▸ h.node) (by rw [hcands]) (by rw [hidle]; exact List.nil_sublist _)
  unfold FillNode.goOn
  cases improve with
  | true => exact hidle _ rfl rfl rfl
  | false =>
    have hlisted : listed s.point = id :: rest := by rw [hpoint]; rfl
    cases out with
    | deferred | deferredDeficit => exact hidle _ rfl rfl rfl
    | _ => exact h.forgot h.node rfl hlisted rfl

theorem budget_goOn (h : s.Budget cfg) (hpoint : s.point = .back id out rest improve) :
    (s.goOn cfg id out rest improve).Budget cfg := by
  have hmade := h.made
  unfold FillNode.Budget at h
  rw [hpoint] at h
  unfold FillNode.goOn
  cases improve with
  | true => exact hmade
  | false =>
    obtain ⟨hlt, hcount⟩ := h
    cases out with
    | deferred | deferredDeficit => exact hmade
    | skip =>
      have hcount : s.made ≤ s.dialed + s.cancelled := by simpa using hcount
      exact ⟨hcount, hlt.le⟩
    | failed =>
      have hcount : s.made ≤ s.dialed + s.cancelled + 1 := by
        simpa [DialResult.deferral] using hcount
      refine ⟨?_, ?_⟩
      · change s.made ≤ s.dialed + (s.cancelled + 1)
        omega
      · change s.dialed + (s.cancelled + 1) ≤ cfg.maxPerTick
        omega
    | _ =>
      have hcount : s.made ≤ s.dialed + s.cancelled + 1 := by
        simpa [DialResult.deferral] using hcount
      refine ⟨?_, ?_⟩
      · change s.made ≤ s.dialed + 1 + s.cancelled
        omega
      · change s.dialed + 1 + s.cancelled ≤ cfg.maxPerTick
        omega

/-- A dial of the tick has come back. -/
theorem TickBooks.answered (h : s.TickBooks cfg) (c : DialCall) (r : OpenReply) :
    (s.answered cfg c r).TickBooks cfg := by
  have hstep := h.node.step (.answered c r)
  unfold FillNode.answered
  split
  · have hsame : ({ s with node := s.node.step cfg.candidate (.answered c r) } :
        FillNode).TickBooks cfg := h.moved hstep rfl (List.Sublist.refl _)
    dsimp only
    split
    next c' rest improve hpoint =>
      split
      next hc =>
        refine h.moved hstep rfl ?_
        rw [hpoint, hc]
        cases improve <;> exact List.Sublist.refl _
      · exact hsame
    · exact hsame
  · exact h

variable (cfg s c r) in
/-- What came of a dial is counted, but for an open that was the dial of an identity that is not
eligible any more. -/
theorem made_le_of_answered
    (hm : cfg.relays = false → r.opened = false →
      s.node.isEligible cfg.candidate c.peerId = true) :
    (if cfg.relays then 0 else 1) +
        (if (s.node.openAnswered cfg.candidate c r).1 = .held ||
          (cfg.relays && decide ((s.node.openAnswered cfg.candidate c r).1 = .failed))
          then 1 else 0) ≤
      if (s.node.openAnswered cfg.candidate c r).1 = .skip ||
        (s.node.openAnswered cfg.candidate c r).1.deferral then 0 else 1 := by
  have hcase := CandidateNode.answered cfg.candidate s.node c r
  generalize s.node.openAnswered cfg.candidate c r = y at hcase
  cases hcase with
  | bound hopened => cases cfg.relays <;> simp [DialResult.deferral]
  | ineligible hopened heligible =>
    cases hrelays : cfg.relays with
    | true => simp
    | false =>
      rw [hm hrelays hopened] at heligible
      cases heligible
  | stopped hopened heligible hroom =>
    simp only [CandidateNode.stopped, CandidateConfig.openIsTheDial, Bool.not_not,
      Bool.and_eq_true] at hroom
    have hrelays : cfg.relays = true := hroom.1
    simp [hrelays]
  | held inc hopened heligible hrelays hroom hstarted =>
    have hrelays : cfg.relays = true := hrelays
    simp [hrelays, DialResult.deferral]
  | deferred hopened heligible hrelays hroom hrefused =>
    have hrelays : cfg.relays = true := hrelays
    simp [hrelays]
  | failed hopened heligible hroom hfailed =>
    cases cfg.relays <;> simp [DialResult.deferral]

theorem budget_answered (h : s.Budget cfg)
    (hm : OpenStillCounts cfg s (.node (.answered c r))) : (s.answered cfg c r).Budget cfg := by
  unfold FillNode.answered
  split
  next hc =>
    dsimp only
    split
    next c' rest improve hpoint =>
      split
      next heq =>
        subst heq
        unfold FillNode.Budget at h
        rw [hpoint] at h
        cases improve with
        | true =>
          obtain ⟨hpos, hmade⟩ := h
          refine ⟨hpos, ?_⟩
          change s.made + _ ≤ 1
          cases hrelays : cfg.relays with
          | true =>
            rw [hrelays, if_pos rfl] at hmade
            rw [hmade, Nat.zero_add]
            split <;> omega
          | false =>
            -- the open was the dial, so the relay starts none
            have hnot : (s.node.openAnswered cfg.candidate c r).1 ≠ .held := by
              intro hheld
              have hcase := CandidateNode.answered cfg.candidate s.node c r
              generalize s.node.openAnswered cfg.candidate c r = y at hcase hheld
              cases hcase with
              | held inc hopened heligible hrelays' hroom hstarted =>
                have hrelays' : cfg.relays = true := hrelays'
                rw [hrelays] at hrelays'
                cases hrelays'
              | _ => cases hheld
            rw [hrelays, if_neg (by decide)] at hmade
            simp [hmade, hnot]
        | false =>
          obtain ⟨hlt, hmade⟩ := h
          refine ⟨hlt, ?_⟩
          have hle := made_le_of_answered cfg s c r
            fun hrelays hopened => (hm hc hopened).1 hrelays ⟨rest, hpoint⟩
          change s.made + _ ≤ s.dialed + s.cancelled + _
          omega
      · exact h
    · exact h
  · exact h

/-- What the cache has is what a tick goes through, each candidate once. -/
theorem has_of_ordered (h : s.TickBooks cfg) :
    (∀ id ∈ s.ordered cfg, s.cands.cache.has id = true) ∧ (s.ordered cfg).Nodup := by
  have hperm : (s.ordered cfg).Perm (s.cands.cache.entries.map fun e => e.1.toNat) :=
    (sortBy_perm _ _).map _
  have hid : ∀ e ∈ s.cands.cache.entries, (e.1.toNat : Int) = e.1 := by
    intro e he
    exact Int.toNat_of_nonneg (h.ids e.1 (has_iff.mpr ⟨e.2, get_of_mem he⟩))
  refine ⟨fun id hmem => ?_, ?_⟩
  · obtain ⟨e, he, rfl⟩ := List.mem_map.mp (hperm.mem_iff.mp hmem)
    rw [hid e he]
    exact has_iff.mpr ⟨e.2, get_of_mem he⟩
  · refine hperm.nodup_iff.mpr ?_
    have hkeys := s.cands.cache.keys_nodup
    rw [List.nodup_iff_pairwise_ne, List.pairwise_map] at hkeys ⊢
    refine hkeys.imp_of_mem fun he he' hne heq => hne ?_
    rw [← hid _ he, ← hid _ he', heq]

theorem TickBooks.tick (h : s.TickBooks cfg) : (s.tick cfg).TickBooks cfg := by
  unfold FillNode.tick
  split
  · refine h.moved (h.node.call .sweep) rfl ?_
    split <;> exact List.nil_sublist _
  · exact h

theorem budget_tick (h : s.Budget cfg) : (s.tick cfg).Budget cfg := by
  unfold FillNode.tick
  split
  · by_cases hcap : s.node.capM ≤ s.node.synaptome.card
    · rw [if_pos hcap]
      exact rfl
    · rw [if_neg hcap]
      exact ⟨rfl, rfl⟩
  · exact h

/-- Only the point and what was counted say what the budget is. -/
theorem Budget.congr (h : s.Budget cfg) {s' : FillNode} (hpoint : s'.point = s.point)
    (hmade : s'.made = s.made) (hdialed : s'.dialed = s.dialed)
    (hcancelled : s'.cancelled = s.cancelled) : s'.Budget cfg := by
  unfold FillNode.Budget at h ⊢
  rw [hpoint, hmade, hdialed, hcancelled]
  exact h

theorem step_node {a : CandidateNode.Act} (ha : ∀ c r, a ≠ .answered c r) :
    s.step cfg (.node a) = { s with node := s.node.step cfg.candidate a } := by
  cases a with
  | answered c r => exact absurd rfl (ha c r)
  | _ => rfl

theorem TickBooks.nominate (h : s.TickBooks cfg) (id : NodeId) (src : CandidateSource) (now : ℚ)
    (w : Nominee) : (s.step cfg (.nominate id src now w)).TickBooks cfg := by
  unfold FillNode.step
  dsimp only
  split
  · exact h
  next hpex =>
  refine ⟨h.node, fun k hk => ?_, fun id' hid' => ?_, h.apart⟩
  · rcases has_of_nominate hk with rfl | hk
    · exact Int.natCast_nonneg id
    · exact h.ids k hk
  · rcases not_and_or.mp hpex with hsrc | hpoint
    · exact has_nominate hsrc now w (h.cached id' hid')
    -- while it searches a tick goes through nothing
    have hsearching : s.point = .searching := not_not.mp hpoint
    simp [listed, hsearching] at hid'

theorem TickBooks.searched (h : s.TickBooks cfg) (nearest : List NodeId) :
    (s.step cfg (.searched nearest)).TickBooks cfg := by
  unfold FillNode.step
  dsimp only
  split
  · obtain ⟨hhas, hnodup⟩ := has_of_ordered h
    exact ⟨h.node, h.ids, hhas, hnodup⟩
  · exact h.moved h.node rfl (List.nil_sublist _)
  · exact h

theorem TickBooks.round (h : s.TickBooks cfg) (x : Round) : (s.step cfg (.round x)).TickBooks cfg := by
  unfold FillNode.step
  dsimp only
  split
  next hpoint => exact h.choose hpoint x
  next hpoint => exact h.moved h.node rfl (List.nil_sublist _)
  next hpoint => exact h.offer hpoint x
  next hpoint => exact h.moved h.node rfl (List.nil_sublist _)
  next hpoint => exact h.goOn hpoint
  · exact h

theorem TickBooks.step (h : s.TickBooks cfg) (a : Act) : (s.step cfg a).TickBooks cfg := by
  cases a with
  | node a =>
    by_cases ha : ∃ c r, a = .answered c r
    · obtain ⟨c, r, rfl⟩ := ha
      exact h.answered c r
    · have ha : ∀ c r, a ≠ .answered c r := fun c r heq => ha ⟨c, r, heq⟩
      rw [step_node ha]
      exact h.moved (h.node.step a) rfl (List.Sublist.refl _)
  | nominate id src now w => exact h.nominate id src now w
  | noPath id now noPathUntil =>
    refine ⟨h.node, fun k hk => ?_, fun id' hid' => has_noPath (h.cached id' hid'), h.apart⟩
    rcases has_of_noPath hk with rfl | hk
    · exact Int.natCast_nonneg id
    · exact h.ids k hk
  | tick => exact h.tick
  | searched nearest => exact h.searched nearest
  | round x => exact h.round x

theorem Budget.step (h : s.Budget cfg) {a : Act} (hm : OpenStillCounts cfg s a) :
    (s.step cfg a).Budget cfg := by
  cases a with
  | node a =>
    by_cases ha : ∃ c r, a = .answered c r
    · obtain ⟨c, r, rfl⟩ := ha
      exact budget_answered h hm
    · have ha : ∀ c r, a ≠ .answered c r := fun c r heq => ha ⟨c, r, heq⟩
      rw [step_node ha]
      exact h.congr rfl rfl rfl rfl
  | nominate id src now w =>
    unfold FillNode.step
    dsimp only
    split
    · exact h
    · exact h.congr rfl rfl rfl rfl
  | noPath id now noPathUntil => exact h.congr rfl rfl rfl rfl
  | tick => exact budget_tick h
  | searched nearest =>
    unfold FillNode.step
    dsimp only
    unfold FillNode.Budget at h
    split
    next hpoint =>
      rw [hpoint] at h
      obtain ⟨hmade, hcount⟩ := h
      change s.made ≤ s.dialed + s.cancelled ∧ s.dialed + s.cancelled ≤ cfg.maxPerTick
      omega
    next hpoint =>
      rw [hpoint] at h
      exact h
    · exact h
  | round x =>
    have hmade := h.made
    unfold FillNode.step
    dsimp only
    split
    next hpoint => exact budget_choose h hpoint x
    next hpoint => exact hmade
    next hpoint => exact budget_offer h hpoint (hm _ hpoint) x
    next hpoint => exact hmade
    next hpoint => exact budget_goOn h hpoint
    · exact h

/-! ### Steps and runs -/

theorem Untouched.trans {s₁ s₂ s₃ : FillNode} (h : Untouched s₁ s₂ id) (h' : Untouched s₂ s₃ id) :
    Untouched s₁ s₃ id := ⟨h'.1.trans h.1, h'.2.trans h.2⟩

variable (cfg) in
theorem untouched_askEligible (s : FillNode) (id : NodeId) :
    Untouched s { s with node := s.node.askEligible cfg.candidate id } id :=
  untouched_of_asked cfg rfl (.inr rfl)

variable (cfg) in
theorem untouched_askGuard (s : FillNode) (id : NodeId) : Untouched s (s.askGuard cfg id) id := by
  refine ⟨?_, rfl⟩
  exact congrArg Attempts.attempts (Dials.entry_put s.node.tables.guard (identitySuffix id) _)

/-- The node once a round asked the mark and the guard about a candidate. -/
def asking (cfg : FillConfig) (s : FillNode) (id : NodeId) : FillNode :=
  askGuard cfg { s with node := s.node.askEligible cfg.candidate id } id

variable (cfg) in
/-- A round of the dial phase stops, goes on, or considers a candidate that the guard allows. -/
theorem choose_cases (s : FillNode) (id : NodeId) (rest : List NodeId) (x : Round) :
    (s.choose cfg id rest x).point = .idle ∨ (s.choose cfg id rest x).point = .choosing rest ∨
      ((s.node.tables.guard.entry (identitySuffix id)).inflight = false ∧
        s.choose cfg id rest x = (s.asking cfg id).consider cfg id x rest false) := by
  unfold choose
  dsimp only
  split_ifs with h₁ h₂ h₃ h₄ h₅ h₆ h₇
  · exact .inl rfl
  · exact .inl rfl
  · exact .inr (.inl rfl)
  · exact .inr (.inl rfl)
  · exact .inr (.inl rfl)
  · exact .inl rfl
  · exact .inr (.inl rfl)
  · rw [Bool.not_eq_true', Bool.not_eq_false] at h₇
    exact .inr (.inr ⟨Dials.inflight_of_allows h₇, rfl⟩)

/-- A round that puts a dial off at once leaves attempts and mark as they were, and so does one
after which the tick waits for the open, on a transport that relays. -/
theorem untouched_round
    (h : (∃ out, (s.choose cfg id rest x).point = .back id out rest false ∧ out.deferral = true)
      ∨ cfg.relays = true ∧ ∃ c, (s.choose cfg id rest x).point = .waiting c rest false) :
    Untouched s (s.choose cfg id rest x) id := by
  rcases choose_cases cfg s id rest x with hidle | hnext | ⟨hidle, heq⟩
  · rw [hidle] at h
    rcases h with ⟨_, ⟨⟩, -⟩ | ⟨-, _, ⟨⟩⟩
  · rw [hnext] at h
    rcases h with ⟨_, ⟨⟩, -⟩ | ⟨-, _, ⟨⟩⟩
  rw [heq] at h ⊢
  have hidle' : ((s.asking cfg id).node.tables.guard.entry (identitySuffix id)).inflight
      = false := (congrArg Attempts.inflight (Dials.entry_put _ _ _)).trans hidle
  refine (untouched_askEligible cfg s id).trans ((untouched_askGuard cfg _ id).trans ?_)
  change Untouched (s.asking cfg id) _ id
  have hleft : ((s.asking cfg id).node.considerCandidate cfg.candidate id x.found).1.elim
      (cfg.relays = true) (·.deferral = true) := by
    unfold consider at h
    cases hout : ((s.asking cfg id).node.considerCandidate cfg.candidate id x.found).1 with
    | none =>
      simp only [hout] at h
      rcases h with ⟨_, ⟨⟩, -⟩ | ⟨hrelays, -⟩
      exact hrelays
    | some out' =>
      simp only [hout] at h
      rcases h with ⟨_, ⟨⟩, hdefers⟩ | ⟨-, _, ⟨⟩⟩
      exact hdefers
  obtain ⟨hattempts, hasked⟩ := untouched_considered hidle' hleft
  refine untouched_of_asked cfg ?_ ?_
  · rw [node_consider]
    exact hattempts
  · rw [node_consider]
    exact hasked

/-- Where a tick goes through its candidates, only a round takes it further. -/
theorem point_step {a : Act} (ha : ∀ x, a ≠ .round x) (hpoint : s.point = .choosing rest) :
    (s.step cfg a).point = s.point := by
  cases a with
  | node a =>
    by_cases hanswer : ∃ c r, a = .answered c r
    · obtain ⟨c, r, rfl⟩ := hanswer
      change (s.answered cfg c r).point = s.point
      unfold answered
      split
      · simp only [hpoint]
      · rfl
    · rw [step_node fun c r heq => hanswer ⟨c, r, heq⟩]
  | nominate id src now w =>
    unfold step
    dsimp only
    split <;> rfl
  | noPath id now noPathUntil => rfl
  | tick =>
    change (s.tick cfg).point = s.point
    unfold tick
    rw [if_neg (by rw [hpoint]; nofun)]
  | searched nearest =>
    unfold step
    simp only [hpoint]
  | round x => exact absurd rfl (ha x)

/-- What a deferral leaves of the cache. -/
theorem has_step (h : s.TickBooks cfg) (hpoint : s.point = .back id out rest false)
    (hdefers : out.deferral = true) (a : Act) : (s.step cfg a).cands.cache.has id = true := by
  have hhas : s.cands.cache.has id = true := by
    apply h.cached
    rw [hpoint]
    exact List.mem_cons_self
  cases a with
  | node a =>
    by_cases hanswer : ∃ c r, a = .answered c r
    · obtain ⟨c, r, rfl⟩ := hanswer
      change (s.answered cfg c r).cands.cache.has id = true
      unfold answered
      split
      · simp only [hpoint]
        exact hhas
      · exact hhas
    · rw [step_node fun c r heq => hanswer ⟨c, r, heq⟩]
      exact hhas
  | nominate id' src now w =>
    unfold step
    dsimp only
    split
    · exact hhas
    next hpex =>
      have hsrc : src ≠ .pex := fun hsrc => hpex ⟨hsrc, by rw [hpoint]; rintro ⟨⟩⟩
      exact has_nominate hsrc now w hhas
  | noPath id' now noPathUntil => exact has_noPath hhas
  | tick =>
    change (s.tick cfg).cands.cache.has id = true
    unfold tick
    split <;> exact hhas
  | searched nearest =>
    unfold step
    simp only [hpoint]
    exact hhas
  | round x =>
    unfold step
    simp only [hpoint]
    unfold goOn
    cases out with
    | deferred | deferredDeficit => exact hhas
    | _ => cases hdefers

/-- A step that meets the condition keeps the promise. -/
theorem TickBooks.fills (h : s.TickBooks cfg) (hbudget : s.Budget cfg) {a : Act} (hm : OpenStillCounts cfg s a) :
    Fills cfg s a where
  room := by
    rintro c r rfl hc hheld hcovered
    exact room_of_held h.node hc hheld hcovered hm
  budget := (hbudget.step hm).made
  stays := by
    intro id out rest hpoint hdefers
    refine ⟨?_, has_step h hpoint hdefers a⟩
    apply h.cached
    rw [hpoint]
    exact List.mem_cons_self
  deferred := by
    rintro c r rfl hc hdefers
    refine ⟨open_of_deferred hc hdefers hm, ?_⟩
    obtain ⟨hattempts, hasked⟩ := deferred_answered hdefers
    have hnode : (s.step cfg (.node (.answered c r))).node.tables =
        (s.node.openAnswered cfg.candidate c r).2.tables := by
      change (s.answered cfg c r).node.tables = _
      have hstep : (s.node.step cfg.candidate (.answered c r)).tables =
          (s.node.openAnswered cfg.candidate c r).2.tables := by
        rw [CandidateNode.step_answered hc]
        rfl
      unfold FillNode.answered
      rw [if_pos hc]
      dsimp only
      split
      · split <;> exact hstep
      · exact hstep
    refine untouched_of_asked cfg ?_ ?_
    · rw [hnode]
      exact hattempts
    · rw [hnode]
      exact hasked
  atOnce := by
    intro id rest out hpoint hback hdefers
    by_cases ha : ∃ x, a = .round x
    · obtain ⟨x, rfl⟩ := ha
      have hround : s.step cfg (.round x) = s.choose cfg id rest x := by
        unfold FillNode.step
        simp only [hpoint]
      rw [hround] at hback ⊢
      exact untouched_round (.inl ⟨_, hback, hdefers⟩)
    · rw [point_step (fun x heq => ha ⟨x, heq⟩) hpoint, hpoint] at hback
      cases hback

/-- **The fill does not dial past its room or its budget.** In every run that meets the condition a
relay dial is issued only where there is room, a tick dials and cancels no more than it may, and a
candidate whose dial is put off stays as it was. -/
theorem fill_bounded (cfg : FillConfig) (capM : Nat) (as : List Act)
    (hrun : EachStep (step cfg) (OpenStillCounts cfg) (init capM) as) :
    EachStep (step cfg) (Fills cfg) (init capM) as :=
  EachStep.safety (I := fun s => s.TickBooks cfg ∧ s.Budget cfg)
    (fun _ a h hm => ⟨h.1.step a, h.2.step hm⟩) (fun _ _ h hm => h.1.fills h.2 hm)
    ⟨tickBooks_init cfg capM, budget_init cfg capM⟩ hrun

/-! ### Three runs -/

/-- A fill of one dial a tick, with the guard and the marks as they come. -/
def oneDial (relays : Bool) : FillConfig where
  self := 0
  marks := MarkOptions.config {}
  guard := {}
  bindingCapable := true
  relays := relays
  noPathOn := false
  kCache := 64
  maxPerTick := 1
  pPending := 8

/-- Nothing is bound, and nothing is to be displaced. -/
def unbound : Found := ⟨false, false, false⟩

/-- A candidate of a directory. -/
def nominated (id : NodeId) : Act := .nominate id .directory 0 ⟨false, false, false, true⟩

/-- A tick begins and has searched. -/
def begun : List Act := [.tick, .searched []]

/-- Two identities are exhausted and due again, on a transport without `connectViaRelay`: a tick
dials the one, whose open fails, and then the other. -/
def twoDials : List Act :=
  (List.replicate 4 (.node (.tables (.marks (.fail 1))))) ++
    (List.replicate 4 (.node (.tables (.marks (.fail 2))))) ++
    [.node CandidateNode.minute, nominated 1, nominated 2] ++ begun ++
    [.round ⟨true, unbound⟩, .node (.answered ⟨1, 1⟩ ⟨false, false, .notStarted⟩),
      .round ⟨true, unbound⟩, .round ⟨true, unbound⟩]

/-- The open of a dial takes longer than an attempt may be in flight: the next dial's sweep ends the
attempt, and the relay is asked for both where there is room for one. -/
def lateDial : List Act :=
  [.node (.consider 1 unbound), .node CandidateNode.minute, .node (.consider 2 unbound),
    .node (.answered ⟨1, 1⟩ ⟨false, false, .started⟩)]

/-- **Two dials of a tick that may make one, and two dials where there is room for one.** -/
theorem fill_overdials :
    ¬EachStep (step (oneDial false)) (Fills (oneDial false)) (init 8) twoDials ∧
      ¬EachStep (step (oneDial true)) (Fills (oneDial true)) (init 1) lateDial := by
  constructor
  · rintro ⟨-, -, -, -, -, -, -, -, -, -, -, -, -, -, -, -, hlast, -⟩
    have hbudget := hlast.budget
    revert hbudget
    decide +kernel
  · rintro ⟨-, -, -, hlast, -⟩
    have hroom := hlast.room _ _ rfl (by decide +kernel) (by decide +kernel) rfl
    revert hroom
    decide +kernel

/-- A tick dials a candidate through the relay; a second one is put off, as there is room for one. -/
theorem fill_bounded_relayed :
    EachStep (step (oneDial true)) (Fills (oneDial true)) (init 1)
      ([nominated 1] ++ begun ++
        [.round ⟨true, unbound⟩, .node (.answered ⟨1, 1⟩ ⟨false, false, .started⟩),
          .round ⟨true, unbound⟩, .node (.consider 2 unbound)]) := by
  apply fill_bounded
  refine ⟨trivial, trivial, trivial, ?_, ?_, ?_, trivial, trivial⟩
  · intro rest hpoint
    exact Nat.one_pos
  · intro _ _
    refine ⟨fun hrelays => absurd hrelays (by decide), fun _ hclosed => absurd hclosed ?_⟩
    decide +kernel
  · intro rest hpoint
    exact Nat.one_pos

end FillNode

end Axona
