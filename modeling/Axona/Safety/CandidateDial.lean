import Axona.Dht.CandidateDial
import Axona.Safety.Dials

/-! # What becomes of the token of a call

Whatever is considered in whatever order, and whatever else ends attempts in between: a call that
began an attempt leaves it closed, once, unless a relay dial holds it. What a call counts, when it
consumes the mark and how many opens it awaits are facts of its two steps. -/

namespace Axona

open Library

/-! ### The books of the tables -/

namespace Dials

variable {mcfg : MarkConfig} {gcfg : GuardConfig} {s : Dials} {k : DialToken} {id : NodeId}

theorem closed_endKey_mono (key : IdSuffix) (bound : Bool) (k' : Option DialToken)
    (inc : Option Incarnation) (h : k ∈ s.closed) :
    k ∈ (s.endKey gcfg key bound k' inc).closed := by
  unfold endKey
  simp only []
  split
  · exact List.mem_cons_of_mem _ h
  · exact h

/-- What is closed stays closed. -/
theorem closed_step_mono (a : Act) (h : k ∈ s.closed) : k ∈ (s.step mcfg gcfg a).closed := by
  cases a with
  | wait mono wall | marks a | attach id' k' inc | deferPath id' baseMs maxMs draw
  | pathDelivered id' | freshRecord id' => exact h
  | issue id' | dial id' =>
    unfold step
    simp only []
    split <;> exact h
  | «end» id' bound k' inc => exact closed_endKey_mono _ bound k' inc h
  | release id' k' =>
    unfold step
    simp only []
    split
    · exact List.mem_cons_of_mem _ h
    · exact h
  | sweep =>
    refine List.foldlRecOn (motive := fun s' : Dials => k ∈ s'.closed) _ _ h ?_
    intro s' hs' e _
    split
    · exact closed_endKey_mono _ false _ _ hs'
    · exact hs'

/-- Only a dial that is allowed begins an attempt. -/
theorem begun_step (a : Act) : (s.step mcfg gcfg a).begun = s.begun ∨
    ∃ id, a = .dial id ∧ (s.guard.allow gcfg id s.wall).1 = true ∧
      (s.step mcfg gcfg a).begun = (s.guard.seq + 1, identitySuffix id) :: s.begun := by
  cases a with
  | dial id' =>
    unfold step
    simp only []
    split
    next hallow => exact .inr ⟨id', rfl, hallow, rfl⟩
    · exact .inl rfl
  | issue id' =>
    unfold step
    simp only []
    split <;> exact .inl rfl
  | sweep =>
    refine .inl ?_
    refine List.foldlRecOn (motive := fun s' : Dials => s'.begun = s.begun) _ _ rfl ?_
    intro s' hs' e _
    split
    · exact hs'
    · exact hs'
  | _ => exact .inl rfl

theorem begun_step_mono {x : DialToken × IdSuffix} (a : Act) (h : x ∈ s.begun) :
    x ∈ (s.step mcfg gcfg a).begun := by
  have hbegun : (s.step mcfg gcfg a).begun = s.begun ∨ _ := begun_step a
  rcases hbegun with heq | ⟨_, _, _, heq⟩
  · rwa [heq]
  · rw [heq]
    exact List.mem_cons_of_mem _ h

section

variable (h : s.Books mcfg gcfg)
include h

/-- The entry of an attempt that is open. -/
theorem Books.get_of_open (hbegun : (k, identitySuffix id) ∈ s.begun)
    (hopen : k ∉ s.closed) : ∃ e, s.guard.state.get (identitySuffix id) = some e ∧
      s.guard.entry (identitySuffix id) = e ∧ e.k = k ∧ e.live (some k) = true := by
  obtain ⟨e, he, hlive, hk⟩ := h.opened k _ hbegun hopen
  refine ⟨e, he, ?_, hk, ?_⟩
  · unfold AttemptGuard.entry
    rw [he]
    rfl
  · simp [Attempts.live, hlive, hk]

/-- A token that is not open is no live one. -/
theorem Books.not_live (hclosed : k ∈ s.closed) {e : Attempts}
    (he : s.guard.state.get (identitySuffix id) = some e) : e.live (some k) = false := by
  by_contra hlive
  rw [Bool.not_eq_false] at hlive
  simp only [Attempts.live, Option.all_some, Bool.and_eq_true, decide_eq_true_eq] at hlive
  obtain ⟨hinflight, rfl⟩ := hlive
  exact (h.live _ e he hinflight).2 hclosed

/-- A call that ends the attempt of a token leaves it closed. -/
theorem Books.closed_end (hbegun : (k, identitySuffix id) ∈ s.begun)
    (bound : Bool) : k ∈ (s.step mcfg gcfg (.end id bound (some k) none)).closed := by
  by_cases hclosed : k ∈ s.closed
  · exact closed_step_mono _ hclosed
  obtain ⟨e, he, hentry, hk, hlive⟩ := h.get_of_open hbegun hclosed
  have hended : (s.guard.endKey gcfg (identitySuffix id) bound s.wall (some k) none).1
    = true := by
    unfold AttemptGuard.endKey
    rw [he]
    cases bound <;> simp [hlive, Attempts.stale]
  change k ∈ (s.endKey gcfg (identitySuffix id) bound (some k) none).closed
  unfold Dials.endKey
  simp only [hended, if_true, hentry, hk]
  exact List.mem_cons_self

/-- So does one that releases it. -/
theorem Books.closed_release (hbegun : (k, identitySuffix id) ∈ s.begun) :
    k ∈ (s.step mcfg gcfg (.release id (some k))).closed := by
  by_cases hclosed : k ∈ s.closed
  · exact closed_step_mono _ hclosed
  obtain ⟨e, he, hentry, hk, hlive⟩ := h.get_of_open hbegun hclosed
  have hreleased : (s.guard.release id (some k)).1 = true := by
    unfold AttemptGuard.release
    rw [he]
    simp only [hlive, Bool.not_true, Bool.false_eq_true, if_false]
    split <;> rfl
  unfold Dials.step
  simp only [hreleased, if_true, hentry, hk]
  exact List.mem_cons_self

end

/-! ### What is counted -/

/-- `attemptsOf` -/
def attemptsOf (s : Dials) (id : NodeId) : Nat := (s.guard.entry (identitySuffix id)).attempts

theorem attemptsOf_of_get {e : Attempts}
    (h : s.guard.state.get (identitySuffix id) = some e) : s.attemptsOf id = e.attempts := by
  unfold attemptsOf AttemptGuard.entry
  rw [h]
  rfl

variable (mcfg gcfg) in
/-- A release counts nothing. -/
theorem attemptsOf_release (k' : Option DialToken) :
    (s.step mcfg gcfg (.release id k')).attemptsOf id = s.attemptsOf id := by
  change ((s.guard.release id k').2.entry (identitySuffix id)).attempts = _
  unfold AttemptGuard.release
  cases he : s.guard.state.get (identitySuffix id) with
  | none => rfl
  | some e =>
    rw [attemptsOf_of_get he]
    simp only []
    split
    · exact attemptsOf_of_get he
    split
    next hidle =>
      simp only [Bool.and_eq_true, decide_eq_true_eq] at hidle
      rw [hidle.1.1]
      simp [AttemptGuard.drop, AttemptGuard.entry, Attempts.fresh]
    · simp [entry_put]

variable (mcfg gcfg) in
/-- Nor does the incarnation that an attempt learns. -/
theorem attemptsOf_attach {k' : DialToken} {inc : Option Incarnation} :
    (s.step mcfg gcfg (.attach id k' inc)).attemptsOf id = s.attemptsOf id := by
  change ((s.guard.attach id k' inc).entry (identitySuffix id)).attempts = _
  unfold AttemptGuard.attach
  cases he : s.guard.state.get (identitySuffix id) with
  | none => rfl
  | some e =>
    rw [attemptsOf_of_get he]
    simp only []
    split
    · rw [entry_put]
    · exact attemptsOf_of_get he

variable (mcfg) in
/-- A question, and the beginning of an attempt, count nothing. -/
theorem attemptsOf_dial :
    (s.step mcfg gcfg (.dial id)).attemptsOf id = s.attemptsOf id := by
  have hallow : ((s.guard.allow gcfg id s.wall).2.entry (identitySuffix id)) =
      s.guard.entry (identitySuffix id) := entry_put s.guard _ _
  unfold step attemptsOf
  simp only []
  split
  · change ((AttemptGuard.put _ _ _).entry _).attempts = _
    rw [entry_put, Attempts.begun, hallow]
  · exact congrArg Attempts.attempts hallow

section

variable (h : s.Books mcfg gcfg)
include h

/-- A failure that ends the open attempt of a token is counted. -/
theorem Books.attemptsOf_failed (hbegun : (k, identitySuffix id) ∈ s.begun) (hopen : k ∉ s.closed) :
    (s.step mcfg gcfg (.end id false (some k) none)).attemptsOf id = s.attemptsOf id + 1 := by
  obtain ⟨e, he, hentry, hk, hlive⟩ := h.get_of_open hbegun hopen
  have hend : (s.guard.endKey gcfg (identitySuffix id) false s.wall (some k) none).2 =
      s.guard.put (identitySuffix id) (e.failed gcfg s.wall) := by
    unfold AttemptGuard.endKey
    rw [he]
    simp [hlive, Attempts.stale]
  change ((s.guard.endKey gcfg (identitySuffix id) false s.wall (some k) none).2.entry _).attempts
    = _
  rw [hend, entry_put, attemptsOf_of_get he]
  rfl

/-- A bind that ends the open attempt of a token clears the count. -/
theorem Books.attemptsOf_bound (hbegun : (k, identitySuffix id) ∈ s.begun) (hopen : k ∉ s.closed) :
    (s.step mcfg gcfg (.end id true (some k) none)).attemptsOf id = 0 := by
  obtain ⟨e, he, hentry, hk, hlive⟩ := h.get_of_open hbegun hopen
  have hend : (s.guard.endKey gcfg (identitySuffix id) true s.wall (some k) none).2 =
      s.guard.drop (identitySuffix id) := by
    unfold AttemptGuard.endKey
    rw [he]
    simp [hlive, Attempts.stale]
  change ((s.guard.endKey gcfg (identitySuffix id) true s.wall (some k) none).2.entry _).attempts
    = _
  rw [hend]
  simp [AttemptGuard.drop, AttemptGuard.entry, Attempts.fresh]

/-- Of a token that was closed meanwhile neither an end nor a release does anything. -/
theorem Books.guard_end_of_closed (hclosed : k ∈ s.closed) (bound : Bool) :
    (s.step mcfg gcfg (.end id bound (some k) none)).guard = s.guard := by
  change (s.guard.endKey gcfg (identitySuffix id) bound s.wall (some k) none).2 = s.guard
  unfold AttemptGuard.endKey
  cases he : s.guard.state.get (identitySuffix id) with
  | none => rfl
  | some e => simp [h.not_live hclosed he]

theorem Books.guard_release_of_closed (hclosed : k ∈ s.closed) :
    (s.step mcfg gcfg (.release id (some k))).guard = s.guard := by
  change (s.guard.release id (some k)).2 = s.guard
  unfold AttemptGuard.release
  cases he : s.guard.state.get (identitySuffix id) with
  | none => rfl
  | some e => simp [h.not_live hclosed he]

theorem Books.guard_attach_of_closed (hclosed : k ∈ s.closed)
    (inc : Option Incarnation) : (s.step mcfg gcfg (.attach id k inc)).guard = s.guard := by
  change s.guard.attach id k inc = s.guard
  unfold AttemptGuard.attach
  cases he : s.guard.state.get (identitySuffix id) with
  | none => rfl
  | some e => simp [h.not_live hclosed he]

end

variable (mcfg gcfg) in
/-- The sweep leaves an identity that nothing is in flight to. -/
theorem get_sweep {key : IdSuffix} (hidle : (s.guard.entry key).inflight = false) :
    (s.step mcfg gcfg .sweep).guard.state.get key = s.guard.state.get key := by
  refine List.foldlRecOn (motive := fun s' : Dials =>
    s'.guard.state.get key = s.guard.state.get key) _ _ rfl ?_
  intro s' hs' e _
  split
  · rw [← hs']
    by_cases hkey : key = e.1
    · subst hkey
      change (s'.guard.endKey gcfg e.1 false s'.wall (some e.2.k) none).2.state.get e.1 = _
      unfold AttemptGuard.endKey
      unfold AttemptGuard.entry at hidle
      rw [← hs'] at hidle
      cases he : s'.guard.state.get e.1 with
      | none => exact he
      | some d =>
        have hidle : d.inflight = false := by simpa [he] using hidle
        simp [Attempts.live, hidle, he]
    · exact (turns_endKey gcfg s'.wall s'.guard e.1 false (some e.2.k) none).others key hkey
  · exact hs'

variable (mcfg gcfg) in
theorem marks_sweep (s : Dials) : (s.step mcfg gcfg .sweep).marks = s.marks := by
  refine List.foldlRecOn (motive := fun s' : Dials => s'.marks = s.marks) _ _ rfl ?_
  intro s' hs' e _
  split
  · exact hs'
  · exact hs'

variable (mcfg gcfg) in
theorem mono_sweep (s : Dials) : (s.step mcfg gcfg .sweep).mono = s.mono := by
  refine List.foldlRecOn (motive := fun s' : Dials => s'.mono = s.mono) _ _ rfl ?_
  intro s' hs' e _
  split
  · exact hs'
  · exact hs'

variable (mcfg gcfg) in
theorem marks_dial (s : Dials) (id : NodeId) :
    (s.step mcfg gcfg (.dial id)).marks = s.marks ∧
      (s.step mcfg gcfg (.dial id)).mono = s.mono := by
  unfold step
  simp only []
  split <;> exact ⟨rfl, rfl⟩

variable (mcfg) in
/-- A dial that is allowed begins the attempt of the next token. -/
theorem dial_allowed (hallow : (s.guard.allow gcfg id s.wall).1 = true) :
    (s.step mcfg gcfg (.dial id)).guard.seq = s.guard.seq + 1 ∧
      (s.step mcfg gcfg (.dial id)).begun =
        (s.guard.seq + 1, identitySuffix id) :: s.begun := by
  unfold step
  simp only [hallow, if_true]
  exact ⟨rfl, rfl⟩

end Dials

namespace CandidateNode

variable {cfg : CandidateConfig} {s : CandidateNode} {id : NodeId} {f : Found} {c : DialCall}
  {r : OpenReply}

/-! ### The two halves of a call -/

/-- The node once it asked the mark and the guard about a candidate. -/
def asked (cfg : CandidateConfig) (s : CandidateNode) (id : NodeId) : CandidateNode :=
  (s.askEligible cfg id).call cfg .sweep

/-- Does the guard allow the attempt? -/
def allows (cfg : CandidateConfig) (s : CandidateNode) (id : NodeId) : Bool :=
  ((s.asked cfg id).tables.guard.allow cfg.guard id (s.asked cfg id).tables.wall).1

/-- The node with the attempt begun, if it is allowed. -/
def begins (cfg : CandidateConfig) (s : CandidateNode) (id : NodeId) : CandidateNode :=
  (s.asked cfg id).call cfg (.dial id)

/-- The call of an attempt that is begun. -/
def newCall (cfg : CandidateConfig) (s : CandidateNode) (id : NodeId) : DialCall :=
  ⟨id, (s.begins cfg id).tables.guard.seq⟩

/-- What the first half of a call may do. -/
inductive Considered (cfg : CandidateConfig) (s : CandidateNode) (id : NodeId) (f : Found) :
    Option DialResult × CandidateNode → Prop
  | known : Considered cfg s id f (some .skip, s)
  | quiet (out : DialResult) (hout : out = .skip ∨ out = .bound ∨ out = .added) :
      Considered cfg s id f (some out, s.askEligible cfg id)
  | bound : Considered cfg s id f (some .bound,
      { s.askEligible cfg id with synaptome := insert id s.synaptome })
  | refused (hallow : s.allows cfg id = false) :
      Considered cfg s id f (some .skip, s.begins cfg id)
  | deferred (hallow : s.allows cfg id = true)
      (hroom : (s.begins cfg id).noRoom cfg f.covered = true) :
      Considered cfg s id f (some .deferredDeficit,
        ((s.begins cfg id).release cfg (s.newCall cfg id)).returning (s.newCall cfg id)
          .deferredDeficit)
  | awaits (hallow : s.allows cfg id = true) (heligible : s.isEligible cfg id = true)
      (hroom : (s.begins cfg id).noRoom cfg f.covered = false)
      (hfew : s.verifyProbes < maxVerifyProbes) :
      Considered cfg s id f (none,
        { (if cfg.openIsTheDial then (s.begins cfg id).consume cfg id else s.begins cfg id) with
          verifyProbes := s.verifyProbes + 1
          awaiting := s.newCall cfg id :: s.awaiting })

theorem considered (cfg : CandidateConfig) (s : CandidateNode) (id : NodeId) (f : Found) :
    Considered cfg s id f (s.considerCandidate cfg id f) := by
  unfold considerCandidate
  split
  · exact .known
  split
  · exact .quiet _ (.inl rfl)
  next heligible =>
  simp only []
  split
  · exact .quiet _ (.inr (.inr rfl))
  split
  · split
    · exact .bound
    · exact .quiet _ (.inr (.inl rfl))
  split
  · exact .quiet _ (.inl rfl)
  next hprobes =>
  have hfew : s.verifyProbes < maxVerifyProbes := Nat.lt_of_not_le hprobes
  by_cases hallow : s.allows cfg id = true
  · have hallow' := hallow
    unfold allows asked at hallow'
    rw [hallow']
    simp only [Bool.not_true, Bool.false_eq_true, if_false]
    split
    next hroom => exact .deferred hallow hroom
    next hroom =>
    have hroom : (s.begins cfg id).noRoom cfg f.covered = false :=
      Bool.eq_false_iff.mpr hroom
    have heligible : s.isEligible cfg id = true := by simpa using heligible
    have hawaits := Considered.awaits hallow heligible hroom hfew
    cases hdial : cfg.openIsTheDial with
    | true =>
      simp only [hdial, if_true] at hawaits ⊢
      exact hawaits
    | false =>
      simp only [hdial, Bool.false_eq_true, if_false] at hawaits ⊢
      exact hawaits
  · rw [Bool.not_eq_true] at hallow
    have hallow' := hallow
    unfold allows asked at hallow'
    rw [hallow']
    exact .refused hallow

/-- The node once the open of a call is answered. -/
def resumed (s : CandidateNode) (c : DialCall) : CandidateNode :=
  { s with verifyProbes := s.verifyProbes - 1, awaiting := s.awaiting.erase c }

/-- The node once it asked about the candidate again. -/
def reasked (cfg : CandidateConfig) (s : CandidateNode) (c : DialCall) : CandidateNode :=
  (s.resumed c).askEligible cfg c.peerId

/-- The second half of a call stops for want of room. -/
def stopped (cfg : CandidateConfig) (s : CandidateNode) (r : OpenReply) : Bool :=
  !cfg.openIsTheDial && s.noRoom cfg r.covered

/-- What the second half of a call may do. -/
inductive Answered (cfg : CandidateConfig) (s : CandidateNode) (c : DialCall) (r : OpenReply) :
    DialResult × CandidateNode → Prop
  | bound (hopened : r.opened = true) :
      Answered cfg s c r (.bound, (s.resumed c).end cfg c true)
  | ineligible (hopened : r.opened = false) (heligible : s.isEligible cfg c.peerId = false) :
      Answered cfg s c r (.skip, (s.reasked cfg c).release cfg c)
  | stopped (hopened : r.opened = false) (heligible : s.isEligible cfg c.peerId = true)
      (hroom : s.stopped cfg r = true) :
      Answered cfg s c r (.deferredDeficit, (s.reasked cfg c).release cfg c)
  | held (inc : Option Incarnation) (hopened : r.opened = false)
      (heligible : s.isEligible cfg c.peerId = true) (hrelays : cfg.relays = true)
      (hroom : s.noRoom cfg r.covered = false)
      (hstarted : r.relay ≠ .refused ∧ r.relay ≠ .notStarted) :
      Answered cfg s c r (.held,
        ((s.reasked cfg c).consume cfg c.peerId).call cfg (.attach c.peerId c.k inc))
  | deferred (hopened : r.opened = false) (heligible : s.isEligible cfg c.peerId = true)
      (hrelays : cfg.relays = true) (hroom : s.noRoom cfg r.covered = false)
      (hrefused : r.relay = .refused) :
      Answered cfg s c r (.deferred, (s.reasked cfg c).release cfg c)
  | failed (hopened : r.opened = false) (heligible : s.isEligible cfg c.peerId = true)
      (hroom : s.stopped cfg r = false) (hfailed : cfg.relays = true → r.relay = .notStarted) :
      Answered cfg s c r (.failed, (s.reasked cfg c).end cfg c false)

theorem answered (cfg : CandidateConfig) (s : CandidateNode) (c : DialCall) (r : OpenReply) :
    Answered cfg s c r (s.openAnswered cfg c r) := by
  unfold openAnswered
  simp only []
  split
  next hopened => exact .bound hopened
  next hopened =>
  have hopened : r.opened = false := Bool.eq_false_iff.mpr hopened
  split
  next heligible =>
    have heligible : s.isEligible cfg c.peerId = false := by
      rw [Bool.not_eq_true'] at heligible
      exact heligible
    exact .ineligible hopened heligible
  next heligible =>
  have heligible : s.isEligible cfg c.peerId = true := by
    rw [Bool.not_eq_true', Bool.not_eq_false] at heligible
    exact heligible
  split
  next hroom => exact .stopped hopened heligible hroom
  next hroom =>
  have hroom : s.stopped cfg r = false := Bool.eq_false_iff.mpr hroom
  split
  next hrelays =>
    -- where the relay dials the room is asked for, so there was some
    have hsome : s.noRoom cfg r.covered = false := by
      simpa [CandidateNode.stopped, CandidateConfig.openIsTheDial, hrelays] using hroom
    split
    next inc hr =>
      exact .held (some inc) hopened heligible hrelays hsome ⟨by simp [hr], by simp [hr]⟩
    next hr =>
      exact .held none hopened heligible hrelays hsome ⟨by simp [hr], by simp [hr]⟩
    next hr => exact .deferred hopened heligible hrelays hsome hr
    next hr => exact .failed hopened heligible hroom fun _ => hr
  next hrelays => exact .failed hopened heligible hroom fun h => absurd h hrelays

/-! ### The books of the calls -/

/-- The books are kept; a call that is under way began its attempt, and one that is over left it
closed unless a relay dial holds it; a call is over once; and the probes are the opens that are
awaited. -/
structure CallBooks (cfg : CandidateConfig) (s : CandidateNode) : Prop where
  books : s.tables.Books cfg.marks cfg.guard
  awaiting : ∀ c ∈ s.awaiting, (c.k, identitySuffix c.peerId) ∈ s.tables.begun
  returned : ∀ x ∈ s.returned, (x.1.k, identitySuffix x.1.peerId) ∈ s.tables.begun
  closed : ∀ x ∈ s.returned, x.2 ≠ .held → x.1.k ∈ s.tables.closed
  apart : ((s.awaiting ++ s.returned.map Prod.fst).map DialCall.k).Nodup
  probes : s.verifyProbes = s.awaiting.length
  few : s.verifyProbes ≤ maxVerifyProbes

theorem callBooks_init (cfg : CandidateConfig) (capM : Nat) : (init capM).CallBooks cfg where
  books := Dials.books_init
  awaiting := by simp [init]
  returned := by simp [init]
  closed := by simp [init]
  apart := by simp [init]
  probes := rfl
  few := Nat.zero_le _

section

variable (h : s.CallBooks cfg)
include h

/-- A call of the tables keeps the books of the calls. -/
theorem CallBooks.call (a : Dials.Act) : (s.call cfg a).CallBooks cfg :=
  { h with
    books := h.books.step a
    awaiting := fun c hc => Dials.begun_step_mono a (h.awaiting c hc)
    returned := fun x hx => Dials.begun_step_mono a (h.returned x hx)
    closed := fun x hx hne => Dials.closed_step_mono a (h.closed x hx hne) }

theorem CallBooks.askEligible (id : NodeId) : (s.askEligible cfg id).CallBooks cfg :=
  h.call _

theorem CallBooks.asked (id : NodeId) : (s.asked cfg id).CallBooks cfg :=
  (h.askEligible id).call .sweep

theorem CallBooks.begins (id : NodeId) : (s.begins cfg id).CallBooks cfg :=
  (h.asked id).call _

/-- The table may change as it likes. -/
theorem CallBooks.congr {s' : CandidateNode} (htables : s'.tables = s.tables)
    (hawaiting : s'.awaiting = s.awaiting) (hreturned : s'.returned = s.returned)
    (hprobes : s'.verifyProbes = s.verifyProbes) : s'.CallBooks cfg where
  books := htables ▸ h.books
  awaiting := by
    rw [htables, hawaiting]
    exact h.awaiting
  returned := by
    rw [htables, hreturned]
    exact h.returned
  closed := by
    rw [htables, hreturned]
    exact h.closed
  apart := by
    rw [hawaiting, hreturned]
    exact h.apart
  probes := by
    rw [hawaiting, hprobes]
    exact h.probes
  few := hprobes ▸ h.few

/-- The attempt of a new call was just begun, and no call has its token. -/
theorem CallBooks.newCall (hallow : s.allows cfg id = true) :
    ((s.newCall cfg id).k, identitySuffix id) ∈ (s.begins cfg id).tables.begun ∧
      (s.newCall cfg id).k ∉ (s.awaiting ++ s.returned.map Prod.fst).map DialCall.k := by
  obtain ⟨hk, hbegun⟩ : (s.newCall cfg id).k = (s.asked cfg id).tables.guard.seq + 1 ∧
      (s.begins cfg id).tables.begun = ((s.asked cfg id).tables.guard.seq + 1,
        identitySuffix id) :: (s.asked cfg id).tables.begun := Dials.dial_allowed cfg.marks hallow
  have hasked := h.asked id
  refine ⟨?_, fun hmem => ?_⟩
  · rw [hk]
    exact hbegun ▸ List.mem_cons_self
  · obtain ⟨c, hc, heq⟩ := List.mem_map.mp hmem
    have hgiven : c.k ≤ (s.asked cfg id).tables.guard.seq := by
      rcases List.mem_append.mp hc with hc | hc
      · exact hasked.books.given _ (hasked.awaiting c hc)
      · obtain ⟨x, hx, rfl⟩ := List.mem_map.mp hc
        exact hasked.books.given _ (hasked.returned x hx)
    rw [heq, hk] at hgiven
    exact Nat.not_succ_le_self _ hgiven

theorem CallBooks.returning (hbegun : (c.k, identitySuffix c.peerId) ∈ s.tables.begun)
    (hnew : c.k ∉ (s.awaiting ++ s.returned.map Prod.fst).map DialCall.k) {out : DialResult}
    (hclosed : out ≠ .held → c.k ∈ s.tables.closed) : (s.returning c out).CallBooks cfg :=
  { h with
    returned := by
      intro x hx
      rcases List.mem_cons.mp hx with rfl | hx
      · exact hbegun
      · exact h.returned x hx
    closed := by
      intro x hx hne
      rcases List.mem_cons.mp hx with rfl | hx
      · exact hclosed hne
      · exact h.closed x hx hne
    apart := by
      have hperm : (s.awaiting ++ (c :: s.returned.map Prod.fst)).Perm
          (c :: (s.awaiting ++ s.returned.map Prod.fst)) := List.perm_middle
      change ((s.awaiting ++ (c :: s.returned.map Prod.fst)).map DialCall.k).Nodup
      rw [(hperm.map DialCall.k).nodup_iff]
      exact List.nodup_cons.mpr ⟨hnew, h.apart⟩ }

theorem CallBooks.considerCandidate (id : NodeId) (f : Found) :
    (s.considerCandidate cfg id f).2.CallBooks cfg := by
  obtain hcase := considered cfg s id f
  generalize s.considerCandidate cfg id f = x at hcase
  cases hcase with
  | known => exact h
  | quiet out hout => exact h.askEligible id
  | bound => exact (h.askEligible id).congr rfl rfl rfl rfl
  | refused hallow => exact h.begins id
  | deferred hallow hroom =>
    obtain ⟨hbegun, hnew⟩ := h.newCall hallow
    have hbegins := h.begins id
    refine CallBooks.returning (hbegins.call _) (Dials.begun_step_mono _ hbegun) hnew fun _ => ?_
    exact hbegins.books.closed_release hbegun
  | awaits hallow heligible hroom hfew =>
    obtain ⟨hbegun, hnew⟩ := h.newCall hallow
    -- the mark is consumed or not: the books are kept by either
    have hrest : ∀ s' : CandidateNode, s'.CallBooks cfg → s'.awaiting = s.awaiting →
        s'.returned = s.returned →
        ((s.newCall cfg id).k, identitySuffix id) ∈ s'.tables.begun →
        ({ s' with
            verifyProbes := s.verifyProbes + 1
            awaiting := s.newCall cfg id :: s.awaiting } : CandidateNode).CallBooks cfg := by
      intro s' hs' hawaiting hreturned hbegun'
      refine ⟨hs'.books, ?_, hs'.returned, hs'.closed, ?_, ?_, hfew⟩
      · intro c hc
        rcases List.mem_cons.mp hc with rfl | hc
        · exact hbegun'
        · exact hs'.awaiting c (hawaiting ▸ hc)
      · change ((s.newCall cfg id :: (s.awaiting ++ s'.returned.map Prod.fst)).map DialCall.k).Nodup
        rw [hreturned]
        exact List.nodup_cons.mpr ⟨hnew, h.apart⟩
      · exact congrArg (· + 1) h.probes
    cases hdial : cfg.openIsTheDial with
    | true =>
      exact hrest _ ((h.begins id).call (.marks (.consume id))) rfl rfl hbegun
    | false => exact hrest _ (h.begins id) rfl rfl hbegun

/-- A call that goes on is no longer awaited, and is not over yet. -/
theorem CallBooks.resumed (hc : c ∈ s.awaiting) : (s.resumed c).CallBooks cfg ∧
    c.k ∉ ((s.resumed c).awaiting ++ s.returned.map Prod.fst).map DialCall.k := by
  have hperm : (s.awaiting ++ s.returned.map Prod.fst).Perm
      (c :: (s.awaiting.erase c ++ s.returned.map Prod.fst)) :=
    (List.perm_cons_erase hc).append_right _
  have hnodup := h.apart
  rw [(hperm.map DialCall.k).nodup_iff, List.map_cons, List.nodup_cons] at hnodup
  refine ⟨⟨h.books, ?_, h.returned, h.closed, hnodup.2, ?_, ?_⟩, hnodup.1⟩
  · exact fun x hx => h.awaiting x (List.mem_of_mem_erase hx)
  · change s.verifyProbes - 1 = (s.awaiting.erase c).length
    rw [List.length_erase_of_mem hc, h.probes]
  · exact (Nat.sub_le _ _).trans h.few

theorem CallBooks.openAnswered (hc : c ∈ s.awaiting) (r : OpenReply) :
    ((s.openAnswered cfg c r).2.returning c (s.openAnswered cfg c r).1).CallBooks cfg := by
  obtain ⟨hresumed, hnew⟩ := h.resumed hc
  have hreasked : (s.reasked cfg c).CallBooks cfg := hresumed.askEligible c.peerId
  have hbegun := h.awaiting c hc
  have hbegun' : (c.k, identitySuffix c.peerId) ∈ (s.reasked cfg c).tables.begun :=
    Dials.begun_step_mono _ hbegun
  have hrelease : ∀ out, (((s.reasked cfg c).release cfg c).returning c out).CallBooks cfg := fun out =>
    (hreasked.call _).returning (Dials.begun_step_mono _ hbegun') hnew
      fun _ => hreasked.books.closed_release hbegun'
  obtain hcase := answered cfg s c r
  generalize s.openAnswered cfg c r = x at hcase
  cases hcase with
  | bound hopened =>
    exact (hresumed.call _).returning (Dials.begun_step_mono _ hbegun) hnew
      fun _ => hresumed.books.closed_end hbegun true
  | ineligible hopened heligible | stopped hopened heligible hroom
  | deferred hopened heligible hrelays hroom hrefused => exact hrelease _
  | held inc hopened heligible hrelays hroom hstarted =>
    refine CallBooks.returning ((hreasked.call _).call _) ?_ hnew fun hne => absurd rfl hne
    exact Dials.begun_step_mono _ (Dials.begun_step_mono _ hbegun')
  | failed hopened heligible hroom hfailed =>
    exact (hreasked.call _).returning (Dials.begun_step_mono _ hbegun') hnew
      fun _ => hreasked.books.closed_end hbegun' false

theorem CallBooks.step (a : Act) : (s.step cfg a).CallBooks cfg := by
  cases a with
  | consider id f => exact h.considerCandidate id f
  | answered c r =>
    unfold CandidateNode.step
    simp only []
    split
    next hc => exact h.openAnswered hc r
    · exact h
  | tables a => exact h.call a
  | seat id | drop id | resize capM => exact h.congr rfl rfl rfl rfl

end

/-! ### What the calls settle -/

/-- Whose dial a step issues: the open that is the dial, or the relay's. -/
def issues (cfg : CandidateConfig) (s : CandidateNode) : Act → Option NodeId
  | .consider id f =>
    if (s.considerCandidate cfg id f).1.isNone && cfg.openIsTheDial then some id else none
  | .answered c r =>
    if c ∈ s.awaiting ∧ (s.openAnswered cfg c r).1 = .held then some c.peerId else none
  | _ => none

/-- When a call counts its attempt: its dial was cancelled, or its open was the dial and failed, and
the identity is still eligible. -/
def Cancels (cfg : CandidateConfig) (s : CandidateNode) (c : DialCall) (r : OpenReply) : Prop :=
  r.opened = false ∧ s.isEligible cfg c.peerId = true ∧
    (cfg.openIsTheDial = true ∨ s.noRoom cfg r.covered = false ∧ r.relay = .notStarted)

/-- The marks after a step: nothing was asked, or whether the identity is eligible was. -/
def Asked (cfg : CandidateConfig) (s : CandidateNode) (id : NodeId) (t : DeadPeers) : Prop :=
  t = s.tables.marks ∨ t = (s.tables.marks.eligible cfg.marks id s.tables.mono).2

/-- What holds of every step of a node. -/
structure Settles (cfg : CandidateConfig) (s : CandidateNode) (a : Act) : Prop where
  /-- No token ends twice. -/
  once : (s.step cfg a).tables.closed.Nodup
  /-- A token that a call begins is the call's: it awaits its open, or is over. -/
  begins : ∀ id f, a = .consider id f → ∀ x ∈ (s.step cfg a).tables.begun, x ∉ s.tables.begun →
    ∃ c ∈ (s.step cfg a).awaiting ++ (s.step cfg a).returned.map Prod.fst, c.k = x.1
  /-- Once a call is over its token has ended, once, unless a relay dial holds it. -/
  returned : ∀ x ∈ (s.step cfg a).returned, x.2 ≠ .held →
    (s.step cfg a).tables.closed.count x.1.k = 1
  /-- The token of a dial that the relay issues lives on. -/
  held : ∀ c r, a = .answered c r → c ∈ s.awaiting → (s.openAnswered cfg c r).1 = .held →
    (s.step cfg a).tables.closed = s.tables.closed
  /-- The first half of a call counts nothing but what the sweep ends. -/
  sweeps : ∀ id f, a = .consider id f → (s.step cfg a).tables.attemptsOf id = s.tables.attemptsOf id
    ∨ (s.step cfg a).tables.attemptsOf id = (s.asked cfg id).tables.attemptsOf id
  /-- The second half counts the attempt exactly when it cancels. -/
  counts : ∀ c r, a = .answered c r → c ∈ s.awaiting → c.k ∉ s.tables.closed →
    ((s.step cfg a).tables.attemptsOf c.peerId = s.tables.attemptsOf c.peerId + 1
      ↔ Cancels cfg s c r)
  /-- An attempt that another hand ended is not counted again. -/
  late : ∀ c r, a = .answered c r → c ∈ s.awaiting → c.k ∈ s.tables.closed →
    (s.step cfg a).tables.guard = s.tables.guard
  /-- The mark is consumed exactly where the dial is issued. -/
  consumes : ∀ id, (∃ f, a = .consider id f) ∨ (∃ c r, a = .answered c r ∧ c.peerId = id) →
    (s.issues cfg a = some id → (s.step cfg a).tables.marks =
      (s.tables.marks.eligible cfg.marks id s.tables.mono).2.consume cfg.marks id s.tables.mono) ∧
    (s.issues cfg a = none → Asked cfg s id (s.step cfg a).tables.marks)
  /-- The probes are the opens that are awaited, and few. -/
  probes : (s.step cfg a).verifyProbes = (s.step cfg a).awaiting.length ∧
    (s.step cfg a).verifyProbes ≤ maxVerifyProbes
  /-- A call that is over has left the probes as it found them. -/
  restored : (∀ id f, a = .consider id f → (s.step cfg a).verifyProbes =
      s.verifyProbes + if (s.considerCandidate cfg id f).1.isNone then 1 else 0) ∧
    ∀ c r, a = .answered c r → c ∈ s.awaiting →
      (s.step cfg a).verifyProbes + 1 = s.verifyProbes

theorem step_answered (hc : c ∈ s.awaiting) (r : OpenReply) : s.step cfg (.answered c r) =
    (s.openAnswered cfg c r).2.returning c (s.openAnswered cfg c r).1 := if_pos hc

theorem begun_considerCandidate (id : NodeId) (f : Found) {x : DialToken × IdSuffix}
    (hx : x ∈ (s.considerCandidate cfg id f).2.tables.begun) (hnew : x ∉ s.tables.begun) :
    ∃ c ∈ (s.considerCandidate cfg id f).2.awaiting ++
      (s.considerCandidate cfg id f).2.returned.map Prod.fst, c.k = x.1 := by
  have hasked : (s.asked cfg id).tables.begun = s.tables.begun :=
    (Dials.begun_step _).resolve_right (by rintro ⟨_, h, -⟩; cases h)
  have hcase := considered cfg s id f
  generalize s.considerCandidate cfg id f = y at hcase hx
  -- what is new was begun by the dial that was allowed
  have hbegins : s.allows cfg id = true → x ∈ (s.begins cfg id).tables.begun →
      (s.newCall cfg id).k = x.1 := by
    intro hallow hx
    obtain ⟨hk, hbegun⟩ : (s.newCall cfg id).k = (s.asked cfg id).tables.guard.seq + 1 ∧
        (s.begins cfg id).tables.begun = ((s.asked cfg id).tables.guard.seq + 1,
          identitySuffix id) :: (s.asked cfg id).tables.begun := Dials.dial_allowed cfg.marks hallow
    rw [hbegun, hasked] at hx
    rcases List.mem_cons.mp hx with rfl | hx
    · exact hk
    · exact absurd hx hnew
  cases hcase with
  | known | quiet out hout | bound => exact absurd hx hnew
  | refused hallow =>
    refine absurd ?_ hnew
    have hsame : (s.begins cfg id).tables.begun = (s.asked cfg id).tables.begun := by
      refine (Dials.begun_step _).resolve_right ?_
      rintro ⟨id', heq, hallow', -⟩
      obtain rfl : id = id' := Dials.Act.dial.inj heq
      exact absurd hallow' (Bool.eq_false_iff.mp hallow)
    rw [← hasked, ← hsame]
    exact hx
  | deferred hallow hroom =>
    exact ⟨s.newCall cfg id, List.mem_append_right _ List.mem_cons_self, hbegins hallow hx⟩
  | awaits hallow heligible hroom hfew =>
    refine ⟨s.newCall cfg id, List.mem_append_left _ List.mem_cons_self, hbegins hallow ?_⟩
    cases hdial : cfg.openIsTheDial with
    | true =>
      rw [hdial, if_pos rfl] at hx
      exact hx
    | false =>
      rw [hdial, if_neg (by decide)] at hx
      exact hx

theorem attemptsOf_considerCandidate (id : NodeId) (f : Found) :
    (s.considerCandidate cfg id f).2.tables.attemptsOf id = s.tables.attemptsOf id ∨
      (s.considerCandidate cfg id f).2.tables.attemptsOf id =
        (s.asked cfg id).tables.attemptsOf id := by
  have hbegins : (s.begins cfg id).tables.attemptsOf id = (s.asked cfg id).tables.attemptsOf id :=
    Dials.attemptsOf_dial cfg.marks
  have hcase := considered cfg s id f
  generalize s.considerCandidate cfg id f = y at hcase
  cases hcase with
  | known | quiet out hout | bound => exact .inl rfl
  | refused hallow => exact .inr hbegins
  | deferred hallow hroom =>
    have hrelease : ((s.begins cfg id).release cfg (s.newCall cfg id)).tables.attemptsOf id =
        (s.begins cfg id).tables.attemptsOf id := Dials.attemptsOf_release cfg.marks cfg.guard _
    exact .inr (hrelease.trans hbegins)
  | awaits hallow heligible hroom hfew =>
    refine .inr ?_
    cases hdial : cfg.openIsTheDial with
    | true =>
      simp only [if_true]
      exact hbegins
    | false => exact hbegins

theorem CallBooks.counts (h : s.CallBooks cfg) (hc : c ∈ s.awaiting) (hopen : c.k ∉ s.tables.closed)
    (r : OpenReply) :
    (s.openAnswered cfg c r).2.tables.attemptsOf c.peerId = s.tables.attemptsOf c.peerId + 1
      ↔ Cancels cfg s c r := by
  have hbegun := h.awaiting c hc
  have hbooks : (s.reasked cfg c).tables.Books cfg.marks cfg.guard :=
    h.books.step (.marks (.eligible c.peerId))
  have hrelease : ((s.reasked cfg c).release cfg c).tables.attemptsOf c.peerId =
      s.tables.attemptsOf c.peerId := Dials.attemptsOf_release cfg.marks cfg.guard _
  have hcase := answered cfg s c r
  generalize s.openAnswered cfg c r = y at hcase
  unfold Cancels
  cases hcase with
  | bound hopened =>
    have hbound : ((s.resumed c).end cfg c true).tables.attemptsOf c.peerId = 0 :=
      h.books.attemptsOf_bound hbegun hopen
    simp only [hbound, hopened]
    simp
  | ineligible hopened heligible => simp [hrelease, heligible]
  | stopped hopened heligible hroom =>
    simp only [CandidateNode.stopped, Bool.and_eq_true, Bool.not_eq_true'] at hroom
    simp [hrelease, hroom.1, hroom.2]
  | held inc hopened heligible hrelays hroom hstarted =>
    have hattach : (((s.reasked cfg c).consume cfg c.peerId).call cfg
        (.attach c.peerId c.k inc)).tables.attemptsOf c.peerId = s.tables.attemptsOf c.peerId :=
      Dials.attemptsOf_attach cfg.marks cfg.guard
    refine iff_of_false (fun heq => Nat.succ_ne_self _ (heq.symm.trans hattach)) ?_
    rintro ⟨-, -, hdial | ⟨-, hnot⟩⟩
    · simp [CandidateConfig.openIsTheDial, hrelays] at hdial
    · exact hstarted.2 hnot
  | deferred hopened heligible hrelays hroom hrefused =>
    simp [hrelease, CandidateConfig.openIsTheDial, hrelays, hrefused]
  | failed hopened heligible hroom hfailed =>
    have hend : ((s.reasked cfg c).end cfg c false).tables.attemptsOf c.peerId =
        s.tables.attemptsOf c.peerId + 1 := hbooks.attemptsOf_failed hbegun hopen
    refine iff_of_true hend ⟨hopened, heligible, ?_⟩
    cases hrelays : cfg.relays with
    | false => exact .inl (by simp [CandidateConfig.openIsTheDial, hrelays])
    | true =>
      refine .inr ⟨?_, hfailed hrelays⟩
      simpa [CandidateNode.stopped, CandidateConfig.openIsTheDial, hrelays] using hroom

/-- A call whose attempt another hand ended leaves the guard as it is. -/
theorem CallBooks.late (h : s.CallBooks cfg) (hclosed : c.k ∈ s.tables.closed) (r : OpenReply) :
    (s.openAnswered cfg c r).2.tables.guard = s.tables.guard := by
  have hbooks : (s.reasked cfg c).tables.Books cfg.marks cfg.guard :=
    h.books.step (.marks (.eligible c.peerId))
  have hrelease : ((s.reasked cfg c).release cfg c).tables.guard = s.tables.guard :=
    hbooks.guard_release_of_closed hclosed
  have hcase := answered cfg s c r
  generalize s.openAnswered cfg c r = y at hcase
  cases hcase with
  | bound hopened => exact h.books.guard_end_of_closed hclosed true
  | ineligible hopened heligible | stopped hopened heligible hroom
  | deferred hopened heligible hrelays hroom hrefused => exact hrelease
  | held inc hopened heligible hrelays hroom hstarted =>
    have hconsumed : ((s.reasked cfg c).consume cfg c.peerId).tables.Books cfg.marks cfg.guard :=
      hbooks.step (.marks (.consume c.peerId))
    exact hconsumed.guard_attach_of_closed hclosed inc
  | failed hopened heligible hroom hfailed => exact hbooks.guard_end_of_closed hclosed false

variable (cfg) in
/-- Beginning an attempt leaves the marks as the question of eligibility left them. -/
theorem marks_begins (s : CandidateNode) (id : NodeId) :
    (s.begins cfg id).tables.marks = (s.tables.marks.eligible cfg.marks id s.tables.mono).2 ∧
      (s.begins cfg id).tables.mono = s.tables.mono := by
  obtain ⟨hmarks, hmono⟩ := Dials.marks_dial cfg.marks cfg.guard (s.asked cfg id).tables id
  refine ⟨hmarks.trans ?_, hmono.trans ?_⟩
  · exact Dials.marks_sweep cfg.marks cfg.guard (s.askEligible cfg id).tables
  · exact Dials.mono_sweep cfg.marks cfg.guard (s.askEligible cfg id).tables

theorem marks_considerCandidate (id : NodeId) (f : Found) :
    (s.issues cfg (.consider id f) = some id → (s.considerCandidate cfg id f).2.tables.marks =
      (s.tables.marks.eligible cfg.marks id s.tables.mono).2.consume cfg.marks id s.tables.mono) ∧
    (s.issues cfg (.consider id f) = none →
      Asked cfg s id (s.considerCandidate cfg id f).2.tables.marks) := by
  obtain ⟨hmarks, hmono⟩ := marks_begins cfg s id
  have hcase := considered cfg s id f
  unfold issues
  simp only []
  generalize s.considerCandidate cfg id f = y at hcase
  cases hcase with
  | known => exact ⟨nofun, fun _ => .inl rfl⟩
  | quiet out hout | bound => exact ⟨nofun, fun _ => .inr rfl⟩
  | refused hallow | deferred hallow hroom => exact ⟨nofun, fun _ => .inr hmarks⟩
  | awaits hallow heligible hroom hfew =>
    cases hdial : cfg.openIsTheDial with
    | true =>
      refine ⟨fun _ => ?_, nofun⟩
      simp only [if_true]
      change (s.begins cfg id).tables.marks.consume cfg.marks id (s.begins cfg id).tables.mono = _
      rw [hmarks, hmono]
    | false => exact ⟨nofun, fun _ => .inr hmarks⟩

theorem marks_openAnswered (hc : c ∈ s.awaiting) (r : OpenReply) :
    (s.issues cfg (.answered c r) = some c.peerId → (s.openAnswered cfg c r).2.tables.marks =
      (s.tables.marks.eligible cfg.marks c.peerId s.tables.mono).2.consume cfg.marks c.peerId
        s.tables.mono) ∧
    (s.issues cfg (.answered c r) = none →
      Asked cfg s c.peerId (s.openAnswered cfg c r).2.tables.marks) := by
  have hcase := answered cfg s c r
  unfold issues
  simp only []
  generalize s.openAnswered cfg c r = y at hcase
  cases hcase with
  | bound hopened => exact ⟨fun hissued => by simp at hissued, fun _ => .inl rfl⟩
  | ineligible hopened heligible | stopped hopened heligible hroom =>
    exact ⟨fun hissued => by simp at hissued, fun _ => .inr rfl⟩
  | held inc hopened heligible hrelays hroom hstarted =>
    refine ⟨fun _ => rfl, fun hnone => ?_⟩
    rw [if_pos ⟨hc, rfl⟩] at hnone
    cases hnone
  | deferred hopened heligible hrelays hroom hrefused => exact ⟨fun hissued => by simp at hissued,
    fun _ => .inr rfl⟩
  | failed hopened heligible hroom hfailed => exact ⟨fun hissued => by simp at hissued,
    fun _ => .inr rfl⟩

theorem closed_of_held {r : OpenReply} (hheld : (s.openAnswered cfg c r).1 = .held) :
    (s.openAnswered cfg c r).2.tables.closed = s.tables.closed := by
  have hcase := answered cfg s c r
  generalize s.openAnswered cfg c r = y at hcase hheld
  cases hcase with
  | held inc hopened heligible hrelays hroom hstarted => rfl
  | _ => cases hheld

theorem verifyProbes_considerCandidate (id : NodeId) (f : Found) :
    (s.considerCandidate cfg id f).2.verifyProbes =
      s.verifyProbes + if (s.considerCandidate cfg id f).1.isNone then 1 else 0 := by
  have hcase := considered cfg s id f
  generalize s.considerCandidate cfg id f = y at hcase
  cases hcase <;> rfl

theorem verifyProbes_openAnswered (r : OpenReply) :
    (s.openAnswered cfg c r).2.verifyProbes = s.verifyProbes - 1 := by
  have hcase := answered cfg s c r
  generalize s.openAnswered cfg c r = y at hcase
  cases hcase <;> rfl

/-- Every step settles the tokens, the marks and the probes. -/
theorem CallBooks.settles (h : s.CallBooks cfg) (a : Act) : Settles cfg s a := by
  have hnext := h.step a
  refine ⟨hnext.books.once, ?_, fun x hx hne => ?_, ?_, ?_, ?_, ?_, ?_, ⟨hnext.probes, hnext.few⟩,
    ?_, ?_⟩
  · rintro id f rfl x hx hnew
    exact begun_considerCandidate id f hx hnew
  · exact List.count_eq_one_of_mem hnext.books.once (hnext.closed x hx hne)
  · rintro c r rfl hc hheld
    rw [step_answered hc]
    exact closed_of_held hheld
  · rintro id f rfl
    exact attemptsOf_considerCandidate id f
  · rintro c r rfl hc hopen
    rw [step_answered hc]
    exact h.counts hc hopen r
  · rintro c r rfl hc hclosed
    rw [step_answered hc]
    exact h.late hclosed r
  · rintro id (⟨f, rfl⟩ | ⟨c, r, rfl, rfl⟩)
    · exact marks_considerCandidate id f
    · by_cases hc : c ∈ s.awaiting
      · rw [step_answered hc]
        exact marks_openAnswered hc r
      have hsame : s.step cfg (.answered c r) = s := if_neg hc
      rw [hsame]
      refine ⟨fun hissued => ?_, fun _ => .inl rfl⟩
      unfold issues at hissued
      simp only [hc, false_and, if_false] at hissued
      cases hissued
  · rintro id f rfl
    exact verifyProbes_considerCandidate id f
  · rintro c r rfl hc
    rw [step_answered hc]
    have hpos : 0 < s.awaiting.length := List.length_pos_of_mem hc
    change (s.openAnswered cfg c r).2.verifyProbes + 1 = s.verifyProbes
    rw [verifyProbes_openAnswered, h.probes]
    omega

/-- **Every call settles its token.** Whatever is considered in whatever order, and whatever ends
attempts in between: a token ends once, and has ended when its call is over unless a relay dial
holds it; a call counts its attempt exactly where it cancels it; the mark is consumed exactly where
a dial is issued; and the probes are the opens that are awaited. -/
theorem tokens_settled (cfg : CandidateConfig) (capM : Nat) (as : List Act) :
    EachStep (step cfg) (Settles cfg) (init capM) as :=
  run_safety (fun _ a h => h.step a) (fun _ a h => h.settles a) (callBooks_init cfg capM) as

/-- The attempt of a call that neither bound the peer nor left a dial out is counted exactly when
something went out, or the dial was cancelled. -/
def CountsWhatWentOut (cfg : CandidateConfig) (s : CandidateNode) : Act → Prop
  | .answered c r =>
    c ∈ s.awaiting → c.k ∉ s.tables.closed → (s.openAnswered cfg c r).1 ≠ .bound →
      (s.openAnswered cfg c r).1 ≠ .held →
      ((s.step cfg (.answered c r)).tables.attemptsOf c.peerId =
        s.tables.attemptsOf c.peerId + 1
          ↔ cfg.openIsTheDial = true ∨ (s.openAnswered cfg c r).1 = .failed)
  | _ => True

/-- A node whose transport has no `connectViaRelay`. -/
def plainDialler : CandidateConfig where
  self := 0
  marks := MarkOptions.config {}
  guard := {}
  armed := true
  bindingCapable := true
  relays := false

/-- A minute passes. -/
def minute : Act := .tables (.wait 60000 60000)

/-- An identity is exhausted, and due again: it is dialled, and the open fails. -/
def refilledDial : List Act :=
  [.tables (.marks (.fail 5)), .tables (.marks (.fail 5)), .tables (.marks (.fail 5)),
    .tables (.marks (.fail 5)), minute, .consider 5 ⟨false, false, false⟩,
    .answered ⟨5, 1⟩ ⟨false, false, .notStarted⟩]

/-- **A dial that went out and is not counted.** The open was the dial, and consuming the mark made
the identity ineligible. -/
theorem refilled_dial_uncounted :
    ¬EachStep (step plainDialler) (CountsWhatWentOut plainDialler) (init 8) refilledDial := by
  rintro ⟨-, -, -, -, -, -, hlast, -⟩
  have hcounted := (hlast (by decide +kernel) (by decide +kernel) (by decide +kernel)
    (by decide +kernel)).mpr (.inl rfl)
  revert hcounted
  decide +kernel

end CandidateNode

end Axona
