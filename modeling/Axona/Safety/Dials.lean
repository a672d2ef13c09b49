import Axona.Dht.Dials
import Axona.Library.Transition

/-! # How often a dead peer is dialled

The mark table and the guard of dials, each with its own clock. A dial is issued where the mark is
eligible, which it then consumes; an attempt is begun where the guard allows one. The two happen at
different moments of one dial, so each is an act of its own here, and every other call may come in
between. -/

namespace Axona

open Library OrderedMap

namespace Dials

variable {mcfg : MarkConfig} {gcfg : GuardConfig} {s : Dials} {key : IdSuffix}

/-! ### The marks -/

/-- The mark is a loss mark that is exhausted. -/
def Spent (mcfg : MarkConfig) (m : Mark) : Prop := m.kind = .loss ∧ m.exhausted mcfg = true

variable {t : DeadPeers} {m : Mark}

/-- A mark after a loss mark was written is that one, or was there. -/
theorem get_write {id id' : NodeId} {attempts dueAt : ℚ}
    (hget : (t.write mcfg id' attempts dueAt).marks.get id = some m) :
    t.marks.get id = some m ∨ m.attempts = attempts ∧ m.dueAt = some dueAt := by
  unfold DeadPeers.write DeadPeers.admitWrite at hget
  have hset : ∀ {u : DeadPeers} {v : Mark}, (u.marks.set id' v).get id = some m →
      u.marks.get id = some m ∨ m = v := by
    intro u v h
    rw [get_set] at h
    split at h
    · exact .inr (Option.some.inj h).symm
    · exact .inl h
  by_cases hroom : t.lossCount < mcfg.mMarks
  · rw [if_pos hroom] at hget
    simp only [DeadPeers.marks_latch] at hget
    refine (hset hget).imp_right ?_
    rintro rfl
    exact ⟨rfl, rfl⟩
  rw [if_neg hroom] at hget
  cases hv : t.oldestWaiting mcfg with
  | none =>
    rw [hv] at hget
    exact .inl hget
  | some v =>
    rw [hv] at hget
    simp only [Option.map_some, DeadPeers.marks_latch] at hget
    rcases hset (u := { t with marks := t.marks.delete v.1 }) hget with h | rfl
    · replace h := of_get_delete h
      exact .inl h
    · exact .inr ⟨rfl, rfl⟩

variable {now : ℚ}

theorem schedule_of_le {attempts : ℚ} (h : mcfg.aMax ≤ attempts) :
    DeadPeers.schedule mcfg now attempts = now + mcfg.rRefill := by
  unfold DeadPeers.schedule
  rw [if_pos h]

/-- What a call leaves of the schedule of an exhausted mark: it is as it was, or due one refill
window from now. -/
def Rescheduled (mcfg : MarkConfig) (t : DeadPeers) (now : ℚ) (id : NodeId) (m : Mark) : Prop :=
  m.dueAt = some (now + mcfg.rRefill)
    ∨ ∃ m', t.marks.get id = some m' ∧ Spent mcfg m' ∧ m'.dueAt = m.dueAt

section

variable {id id' : NodeId}

theorem rescheduled_write {attempts dueAt : ℚ}
    (hget : (t.write mcfg id' attempts dueAt).marks.get id = some m) (hspent : Spent mcfg m)
    (hdue : mcfg.aMax ≤ attempts → dueAt = now + mcfg.rRefill) :
    Rescheduled mcfg t now id m := by
  rcases get_write hget with h | ⟨hattempts, hdueAt⟩
  · exact .inr ⟨m, h, hspent, rfl⟩
  · have hle : mcfg.aMax ≤ m.attempts := of_decide_eq_true hspent.2
    exact .inl (by rw [hdueAt, hdue (hattempts ▸ hle)])

theorem rescheduled_fail (hget : (t.fail mcfg id' now).marks.get id = some m)
    (hspent : Spent mcfg m) :
    Rescheduled mcfg t now id m := by
  have hle : mcfg.aMax ≤ m.attempts := of_decide_eq_true hspent.2
  unfold DeadPeers.fail at hget
  cases hold : t.marks.get id' with
  | none =>
    rw [hold] at hget
    exact rescheduled_write hget hspent schedule_of_le
  | some n =>
    rw [hold] at hget
    cases hkind : n.kind with
    | policy =>
      simp only [hkind] at hget
      exact .inr ⟨m, hget, hspent, rfl⟩
    | loss =>
      simp only [hkind, get_set] at hget
      split at hget
      · cases hget
        exact .inl (congrArg some (schedule_of_le hle))
      · exact .inr ⟨m, hget, hspent, rfl⟩

/-- A mark that is written over by one of the same schedule. -/
theorem rescheduled_set {n n' : Mark} (hold : t.marks.get id' = some n)
    (hget : (t.marks.set id' n').get id = some m) (hspent : Spent mcfg m)
    (hn : Spent mcfg n' → Spent mcfg n)
    (hdue : n'.dueAt = n.dueAt ∨ n'.dueAt = some (now + mcfg.rRefill)) :
    Rescheduled mcfg t now id m := by
  rw [get_set] at hget
  split at hget
  next hid =>
    cases hget
    rcases hdue with hdue | hdue
    · exact .inr ⟨n, hid ▸ hold, hn hspent, hdue.symm⟩
    · exact .inl hdue
  · exact .inr ⟨m, hget, hspent, rfl⟩

theorem rescheduled_eligible (hget : (t.eligible mcfg id' now).2.marks.get id = some m) (hspent : Spent mcfg m) :
    Rescheduled mcfg t now id m := by
  unfold DeadPeers.eligible at hget
  cases hold : t.marks.get id' with
  | none =>
    rw [hold] at hget
    exact .inr ⟨m, hget, hspent, rfl⟩
  | some n =>
    rw [hold] at hget
    cases hkind : n.kind with
    | policy =>
      simp only [hkind] at hget
      exact .inr ⟨m, hget, hspent, rfl⟩
    | loss =>
      simp only [hkind] at hget
      split at hget
      · exact .inr ⟨m, hget, hspent, rfl⟩
      split at hget
      next hexhausted =>
        exact rescheduled_set hold hget hspent (fun _ => ⟨hkind, hexhausted⟩) (.inl rfl)
      · exact .inr ⟨m, hget, hspent, rfl⟩

theorem rescheduled_consume (hget : (t.consume mcfg id' now).marks.get id = some m) (hspent : Spent mcfg m) :
    Rescheduled mcfg t now id m := by
  unfold DeadPeers.consume at hget
  cases hold : t.marks.get id' with
  | none =>
    rw [hold] at hget
    exact .inr ⟨m, hget, hspent, rfl⟩
  | some n =>
    rw [hold] at hget
    simp only [] at hget
    split at hget
    next hcond =>
      simp only [Bool.and_eq_true, decide_eq_true_eq] at hcond
      exact rescheduled_set hold hget hspent (fun _ => hcond) (.inr rfl)
    · exact .inr ⟨m, hget, hspent, rfl⟩

end

/-- An exhausted mark after a call is due as it was, or one refill window from now. -/
theorem rescheduled_step {a : DeadPeers.Act} {id : NodeId}
    (hget : (t.step mcfg (now, a)).marks.get id = some m) (hspent : Spent mcfg m) :
    Rescheduled mcfg t now id m := by
  have hkeep : t.marks.get id = some m → Rescheduled mcfg t now id m :=
    fun h => .inr ⟨m, h, hspent, rfl⟩
  have hdelete : ∀ id', (t.delete mcfg id').marks.get id = some m →
      Rescheduled mcfg t now id m := by
    intro id' h
    unfold DeadPeers.delete at h
    rw [DeadPeers.marks_latch] at h
    replace h := of_get_delete h
    exact hkeep h
  cases a with
  | add id' =>
    change (t.add mcfg id' now).marks.get id = some m at hget
    unfold DeadPeers.add at hget
    split at hget
    · exact hkeep hget
    -- such a mark counts no failure, and some are needed for exhaustion
    refine rescheduled_write hget hspent fun h => ?_
    have := mcfg.one_le_aMax
    linarith
  | mark id' kind =>
    cases kind with
    | loss => exact rescheduled_fail hget hspent
    | policy =>
      change (t.markPolicy mcfg id').marks.get id = some m at hget
      unfold DeadPeers.markPolicy at hget
      split at hget
      · exact hkeep hget
      split at hget
      · exact hkeep hget
      rw [DeadPeers.marks_latch] at hget
      simp only [get_set, get_delete] at hget
      split at hget
      · cases hget
        cases hspent.1
      · exact hkeep hget
  | fail id' => exact rescheduled_fail hget hspent
  | eligible id' => exact rescheduled_eligible hget hspent
  | consume id' => exact rescheduled_consume hget hspent
  | bind id' | delete id' => exact hdelete id' hget
  | clear => cases hget

/-- A dial of an exhausted mark goes out when it is due. -/
theorem due_of_eligible {id : NodeId} (h : (t.eligible mcfg id now).1 = true)
    (hget : t.marks.get id = some m) :
    m.kind = .loss ∧ ∀ due ∈ m.dueAt, due ≤ now := by
  unfold DeadPeers.eligible at h
  rw [hget] at h
  cases hkind : m.kind with
  | policy => simp [hkind] at h
  | loss =>
    refine ⟨rfl, fun due hdue => ?_⟩
    simp only [hkind, show m.dueAt = some due from hdue] at h
    by_contra hlt
    rw [if_pos (by simpa using hlt)] at h
    cases h

/-! ### The entries of the guard -/

/-- What a call does to an entry; whether it closes the attempt in flight, and whether it may make
the identity no longer exhausted. -/
inductive Turn (gcfg : GuardConfig) (wall : ℚ) (o : Option Attempts) :
    Option Attempts → Bool → Bool → Prop
  | same : Turn gcfg wall o o false false
  /-- Something is noted that neither attempts nor the schedule depend on. -/
  | note (e : Attempts) (hinflight : e.inflight = (o.getD .fresh).inflight)
      (hk : e.k = (o.getD .fresh).k) (hattempts : e.attempts = (o.getD .fresh).attempts)
      (hexpired : e.expired = (o.getD .fresh).expired)
      (hnextAt : e.nextAt = (o.getD .fresh).nextAt) : Turn gcfg wall o (some e) false false
  | tidy (e : Attempts) (ho : o = some e) (hidle : e.inflight = false)
      (hfree : e.expired = false) : Turn gcfg wall o none false false
  | bound (e : Attempts) (ho : o = some e) (hlive : e.inflight = true) :
      Turn gcfg wall o none true true
  | failed (e : Attempts) (ho : o = some e) (hlive : e.inflight = true) :
      Turn gcfg wall o (some (e.failed gcfg wall)) true false
  | released (e : Attempts) (ho : o = some e) (hlive : e.inflight = true) :
      Turn gcfg wall o (some { e with inflight := false, k := 0 }) true false
  | dropped (e : Attempts) (ho : o = some e) (hlive : e.inflight = true)
      (hfree : e.expired = false) : Turn gcfg wall o none true false
  | refreshed (e : Attempts) (ho : o = some e) (hlive : e.inflight = true) :
      Turn gcfg wall o (some { e with
        attempts := 0, expired := false, nextAt := 0, noPath := 0, pathUntil := 0 }) false true
  | forgotten (hidle : ∀ e ∈ o, e.inflight = false) : Turn gcfg wall o none false true

/-- A call that turns one entry. -/
structure Turns (gcfg : GuardConfig) (wall : ℚ) (g : AttemptGuard) (key : IdSuffix)
    (closes frees : Bool) (g' : AttemptGuard) : Prop where
  turn : Turn gcfg wall (g.state.get key) (g'.state.get key) closes frees
  others : ∀ key', key' ≠ key → g'.state.get key' = g.state.get key'
  seq : g'.seq = g.seq

variable {g : AttemptGuard} {wall : ℚ}

variable {e : Attempts} {frees : Bool}

theorem turns_put {closes : Bool} (h : Turn gcfg wall (g.state.get key) (some e) closes frees) :
    Turns gcfg wall g key closes frees (g.put key e) := by
  refine ⟨?_, fun key' hne => ?_, rfl⟩
  · rwa [show (g.put key e).state.get key = some e from
      (get_set _ _ _ _).trans (if_pos rfl)]
  · exact (get_set _ _ _ _).trans (if_neg hne)

theorem turns_drop {closes : Bool} (h : Turn gcfg wall (g.state.get key) none closes frees) :
    Turns gcfg wall g key closes frees (g.drop key) := by
  refine ⟨?_, fun key' hne => ?_, rfl⟩
  · rwa [show (g.drop key).state.get key = none from
      (get_delete _ _ _).trans (if_pos rfl)]
  · exact (get_delete _ _ _).trans (if_neg hne)

variable (gcfg wall)

section

variable (g : AttemptGuard)

theorem turns_same (key : IdSuffix) :
    Turns gcfg wall g key false false g := ⟨.same, fun _ _ => rfl, rfl⟩

theorem turns_allow (id : NodeId) (t : ℚ) :
    Turns gcfg wall g (identitySuffix id) false false (g.allow gcfg id t).2 :=
  turns_put (.note _ rfl rfl rfl rfl rfl)

theorem turns_deferPath (id : NodeId) (t baseMs maxMs : ℚ) (draw : Option ℚ) :
    Turns gcfg wall g (identitySuffix id) false false (g.deferPath id t baseMs maxMs draw) :=
  turns_put (.note _ rfl rfl rfl rfl rfl)

theorem turns_attach (id : NodeId) (k : DialToken) (inc : Option Incarnation) :
    Turns gcfg wall g (identitySuffix id) false false (g.attach id k inc) := by
  unfold AttemptGuard.attach
  cases he : g.state.get (identitySuffix id) with
  | none => exact turns_same gcfg wall g _
  | some e =>
    simp only []
    split
    · refine turns_put ?_
      rw [he]
      exact .note _ rfl rfl rfl rfl rfl
    · exact turns_same gcfg wall g _

end

/-- The attempt that a call was allowed to end is in flight. -/
theorem inflight_of_live {k : Option DialToken} (h : e.live k = true) :
    e.inflight = true := (Bool.and_eq_true_iff.mp h).1

section

variable (g : AttemptGuard)

theorem turns_endKey (key : IdSuffix) (bound : Bool) (k : Option DialToken)
    (inc : Option Incarnation) :
    Turns gcfg wall g key (g.endKey gcfg key bound wall k inc).1
      (bound && (g.endKey gcfg key bound wall k inc).1) (g.endKey gcfg key bound wall k inc).2 := by
  unfold AttemptGuard.endKey
  cases he : g.state.get key with
  | none =>
    rw [Bool.and_false]
    exact turns_same gcfg wall g _
  | some e =>
    simp only []
    by_cases hcond : (!e.live k || e.stale inc) = true
    · rw [if_pos hcond, Bool.and_false]
      exact turns_same gcfg wall g _
    rw [if_neg hcond]
    have hlive : e.inflight = true := by
      simp only [Bool.or_eq_true, Bool.not_eq_true', not_or, Bool.not_eq_false] at hcond
      exact inflight_of_live hcond.1
    cases bound with
    | true =>
      refine turns_drop ?_
      rw [he]
      exact .bound e rfl hlive
    | false =>
      refine turns_put ?_
      rw [he]
      exact .failed e rfl hlive

theorem turns_release (id : NodeId) (k : Option DialToken) :
    Turns gcfg wall g (identitySuffix id) (g.release id k).1 false (g.release id k).2 := by
  unfold AttemptGuard.release
  cases he : g.state.get (identitySuffix id) with
  | none => exact turns_same gcfg wall g _
  | some e =>
    simp only []
    cases hlive : e.live k with
    | false => exact turns_same gcfg wall g _
    | true =>
      simp only [Bool.not_true, Bool.false_eq_true, if_false]
      split
      next hidle =>
        simp only [Bool.and_eq_true, Bool.not_eq_true'] at hidle
        refine turns_drop ?_
        rw [he]
        exact .dropped e rfl (inflight_of_live hlive) hidle.1.2
      · refine turns_put ?_
        rw [he]
        exact .released e rfl (inflight_of_live hlive)

theorem turns_pathDelivered (id : NodeId) :
    Turns gcfg wall g (identitySuffix id) false false (g.pathDelivered id) := by
  unfold AttemptGuard.pathDelivered
  simp only []
  cases he : g.state.get (identitySuffix id) with
  | none => exact turns_same gcfg wall g _
  | some e =>
    simp only []
    split
    next hidle =>
      simp only [Bool.and_eq_true, Bool.not_eq_true'] at hidle
      refine turns_drop ?_
      rw [he]
      exact .tidy e rfl hidle.2 hidle.1.2
    · refine turns_put ?_
      rw [he]
      exact .note _ rfl rfl rfl rfl rfl

theorem turns_freshRecord (id : NodeId) (t : ℚ) :
    Turns gcfg wall g (identitySuffix id) false (g.onFreshRecord gcfg id t).1
      (g.onFreshRecord gcfg id t).2 := by
  unfold AttemptGuard.onFreshRecord
  simp only []
  split
  · exact turns_same gcfg wall g _
  cases he : (g.state.get (identitySuffix id)).filter (·.inflight) with
  | none =>
    have hturn : Turns gcfg wall g (identitySuffix id) false true (g.drop _) := turns_drop
      (.forgotten fun e heq => by
        have := Option.filter_eq_none_iff.mp he e heq
        simpa using this)
    exact ⟨hturn.turn, hturn.others, rfl⟩
  | some e =>
    obtain ⟨hget, hlive⟩ := Option.filter_eq_some_iff.mp he
    have hturn : Turns gcfg wall g (identitySuffix id) false true (g.put _ _) :=
      turns_put (.refreshed e hget hlive)
    exact ⟨hturn.turn, hturn.others, rfl⟩

end

variable {gcfg wall}

/-- An exhausted identity stays exhausted, whatever does not free it. -/
theorem Turn.expired {o o' : Option Attempts} {closes : Bool}
    (h : Turn gcfg wall o o' closes false) (hexpired : o.any (·.expired) = true) :
    o'.any (·.expired) = true := by
  cases h with
  | same => exact hexpired
  | note e hinflight hk hattempts hexp hnextAt =>
    cases ho : o with
    | none => simp [ho] at hexpired
    | some e' => simpa [ho, hexp] using hexpired
  | tidy e ho hidle hfree | dropped e ho hlive hfree => simp [ho, hfree] at hexpired
  | failed e ho hlive =>
    have : e.expired = true := by simpa [ho] using hexpired
    simp [Attempts.failed, this]
  | released e ho hlive => simpa [ho] using hexpired

/-! ### The books -/

/-- The tokens are told apart and each ends once, an attempt in flight is one that was begun and has
not ended, and no schedule lets the next dial come too early. -/
structure Books (mcfg : MarkConfig) (gcfg : GuardConfig) (s : Dials) : Prop where
  nodup : (s.begun.map Prod.fst).Nodup
  given : ∀ x ∈ s.begun, x.1 ≤ s.guard.seq
  once : s.closed.Nodup
  closed : ∀ k ∈ s.closed, k ≤ s.guard.seq
  live : ∀ key, ∀ e ∈ s.guard.state.get key, e.inflight = true →
    (e.k, key) ∈ s.begun ∧ e.k ∉ s.closed
  opened : ∀ k key, (k, key) ∈ s.begun → k ∉ s.closed →
    ∃ e ∈ s.guard.state.get key, e.inflight = true ∧ e.k = k
  spent : ∀ key, ∀ e ∈ s.guard.state.get key, e.expired = true → gcfg.maxAttempts ≤ e.attempts
  tried : ∀ key, ∀ t ∈ s.tried key, t ≤ s.wall ∧ ∀ e ∈ s.guard.state.get key, e.expired = true →
    t + gcfg.refillWindowMs ≤ e.nextAt
  issued : ∀ id, ∀ t ∈ s.issued id, t ≤ s.mono ∧ ∀ m ∈ s.marks.marks.get id, Spent mcfg m →
    ∃ due ∈ m.dueAt, t + mcfg.rRefill ≤ due

theorem books_init : init.Books mcfg gcfg := by
  constructor
  all_goals simp [init, AttemptGuard.init, DeadPeers.init]

section

variable {o o' : Option Attempts}

/-- What is in the entry that a call turned. -/
theorem Turn.live {closes : Bool} (h : Turn gcfg wall o o' closes frees)
    (he : e ∈ o') (hlive : e.inflight = true) :
    closes = false ∧ ∃ d ∈ o, d.inflight = true ∧ d.k = e.k := by
  cases h with
  | same => exact ⟨rfl, e, he, hlive, rfl⟩
  | note e' hinflight hk hattempts hexpired hnextAt =>
    cases he
    cases ho : o with
    | none => simp [ho, Attempts.fresh, hlive] at hinflight
    | some d =>
      rw [ho] at hinflight hk
      exact ⟨rfl, d, rfl, hinflight ▸ hlive, hk.symm⟩
  | failed d ho hlive' =>
    cases he
    simp [Attempts.failed] at hlive
  | released d ho hlive' =>
    cases he
    simp at hlive
  | refreshed d ho hlive' =>
    cases he
    exact ⟨rfl, d, ho, hlive', rfl⟩
  | _ => cases he

/-- An attempt in flight goes on, unless the call closes it. -/
theorem Turn.keeps (h : Turn gcfg wall o o' false frees) {d : Attempts}
    (hd : d ∈ o) (hlive : d.inflight = true) : ∃ e ∈ o', e.inflight = true ∧ e.k = d.k := by
  obtain rfl : o = some d := hd
  cases h with
  | same => exact ⟨d, rfl, hlive, rfl⟩
  | note e hinflight hk hattempts hexpired hnextAt => exact ⟨e, rfl, hinflight.trans hlive, hk⟩
  | tidy e ho hidle hfree =>
    cases ho
    rw [hidle] at hlive
    cases hlive
  | refreshed e ho hlive' =>
    cases ho
    exact ⟨_, rfl, hlive, rfl⟩
  | forgotten hidle =>
    rw [hidle d rfl] at hlive
    cases hlive

/-- A call that closes an attempt does so where one is in flight. -/
theorem Turn.closes (h : Turn gcfg wall o o' true frees) :
    ∃ e, o = some e ∧ e.inflight = true := by
  cases h with
  | bound e ho hlive | failed e ho hlive | released e ho hlive | dropped e ho hlive hfree =>
    exact ⟨e, ho, hlive⟩

/-- An exhausted entry has as many failures as there may be, and is due as it was or one window from
now. -/
theorem Turn.spent {closes : Bool} (h : Turn gcfg wall o o' closes frees)
    (hspent : ∀ d ∈ o, d.expired = true → gcfg.maxAttempts ≤ d.attempts) (he : e ∈ o')
    (hexpired : e.expired = true) :
    gcfg.maxAttempts ≤ e.attempts ∧ (e.nextAt = wall + gcfg.refillWindowMs
      ∨ ∃ d ∈ o, d.expired = true ∧ e.nextAt = d.nextAt) := by
  cases h with
  | same => exact ⟨hspent e he hexpired, .inr ⟨e, he, hexpired, rfl⟩⟩
  | note e' hinflight hk hattempts hexp hnextAt =>
    cases he
    cases ho : o with
    | none => simp [ho, Attempts.fresh, hexpired] at hexp
    | some d =>
      rw [ho] at hexp hattempts hnextAt
      have hd : d.expired = true := hexp ▸ hexpired
      exact ⟨hattempts ▸ hspent d ho hd, .inr ⟨d, rfl, hd, hnextAt⟩⟩
  | failed d ho hlive =>
    cases he
    -- one more failure exhausts the identity, or it was exhausted before
    have hle : gcfg.maxAttempts ≤ ((d.attempts + 1 : ℕ) : ℚ) := by
      simp only [Attempts.failed, Bool.or_eq_true, decide_eq_true_eq] at hexpired
      rcases hexpired with hd | hd
      · have := hspent d ho hd
        push_cast
        linarith
      · exact hd
    refine ⟨hle, .inl ?_⟩
    simp only [Attempts.failed]
    rw [if_pos hle]
  | released d ho hlive =>
    cases he
    exact ⟨hspent d ho hexpired, .inr ⟨d, ho, hexpired, rfl⟩⟩
  | refreshed d ho hlive =>
    cases he
    cases hexpired
  | _ => cases he

end

section

variable (h : s.Books mcfg gcfg)
include h

/-- The token of an attempt tells whose it is. -/
theorem Books.key_eq {k : DialToken} {key key' : IdSuffix}
    (hk : (k, key) ∈ s.begun) (hk' : (k, key') ∈ s.begun) : key = key' :=
  congrArg Prod.snd (List.inj_on_of_nodup_map h.nodup hk hk' rfl)

/-- A call that turns an entry keeps the books. -/
theorem Books.turn {closes : Bool} {g' : AttemptGuard}
    (ht : Turns gcfg s.wall s.guard key closes frees g') :
    ({ s with
        guard := g'
        closed := if closes then (s.guard.entry key).k :: s.closed else s.closed } :
      Dials).Books mcfg gcfg := by
  have hturn := ht.turn
  -- the token that is closed is that of the live attempt
  have hclosing : closes = true → ∃ e, s.guard.state.get key = some e ∧ e.inflight = true
      ∧ (s.guard.entry key).k = e.k ∧ (e.k, key) ∈ s.begun ∧ e.k ∉ s.closed := by
    rintro rfl
    obtain ⟨e, he, hlive⟩ := hturn.closes
    refine ⟨e, he, hlive, ?_, h.live key e he hlive⟩
    unfold AttemptGuard.entry
    rw [he]
    rfl
  have hmem : ∀ k, k ∈ (if closes then (s.guard.entry key).k :: s.closed else s.closed) →
      k ∈ s.closed ∨ (closes = true ∧ k = (s.guard.entry key).k) := by
    intro k hk
    split at hk
    next hc => exact (List.mem_cons.mp hk).elim (fun heq => .inr ⟨hc, heq⟩) .inl
    · exact .inl hk
  refine ⟨h.nodup, fun x hx => ht.seq ▸ h.given x hx, ?_, fun k hk => ?_, fun key' e he hlive => ?_,
    fun k key' hk hopen => ?_, fun key' e he hexpired => ?_, fun key' t0 ht0 => ?_, h.issued⟩
  · split
    next hc =>
      obtain ⟨e, -, -, hk, -, hnot⟩ := hclosing hc
      exact List.nodup_cons.mpr ⟨hk ▸ hnot, h.once⟩
    · exact h.once
  · change k ≤ g'.seq
    rw [ht.seq]
    rcases hmem k hk with hk | ⟨hc, rfl⟩
    · exact h.closed k hk
    · obtain ⟨e, -, -, hk', hbegun, -⟩ := hclosing hc
      exact hk' ▸ h.given _ hbegun
  · change e ∈ g'.state.get key' at he
    by_cases hkey : key' = key
    · subst hkey
      obtain ⟨hc, d, hd, hdlive, hk⟩ := hturn.live he hlive
      rw [hc, ← hk]
      exact h.live key' d hd hdlive
    · rw [ht.others key' hkey] at he
      obtain ⟨hbegun, hnot⟩ := h.live key' e he hlive
      refine ⟨hbegun, fun hk => ?_⟩
      rcases hmem _ hk with hk | ⟨hc, hk⟩
      · exact hnot hk
      · obtain ⟨d, -, -, hd, hbegun', -⟩ := hclosing hc
        exact hkey (h.key_eq hbegun (by rwa [hk, hd]))
  · have hnot : k ∉ s.closed := by
      intro hk'
      apply hopen
      split
      · exact List.mem_cons_of_mem _ hk'
      · exact hk'
    obtain ⟨d, hd, hlive, rfl⟩ := h.opened k key' hk hnot
    change ∃ e ∈ g'.state.get key', _
    by_cases hkey : key' = key
    · subst hkey
      cases closes with
      | false => exact hturn.keeps hd hlive
      | true =>
        obtain ⟨e, he, -, hek, -⟩ := hclosing rfl
        cases he.symm.trans hd
        exact absurd (List.mem_cons.mpr (.inl hek.symm)) hopen
    · rw [ht.others key' hkey]
      exact ⟨d, hd, hlive, rfl⟩
  · change e ∈ g'.state.get key' at he
    by_cases hkey : key' = key
    · subst hkey
      exact (hturn.spent (h.spent key') he hexpired).1
    · rw [ht.others key' hkey] at he
      exact h.spent key' e he hexpired
  · obtain ⟨hle, hnext⟩ := h.tried key' t0 ht0
    refine ⟨hle, fun e he hexpired => ?_⟩
    change e ∈ g'.state.get key' at he
    by_cases hkey : key' = key
    · subst hkey
      rcases (hturn.spent (h.spent key') he hexpired).2 with heq | ⟨d, hd, hdexpired, heq⟩
      · rw [heq]
        linarith
      · rw [heq]
        exact hnext d hd hdexpired
    · rw [ht.others key' hkey] at he
      exact hnext e he hexpired

/-- A call that closes nothing. -/
theorem Books.turn_open {g' : AttemptGuard}
    (ht : Turns gcfg s.wall s.guard key false frees g') :
    ({ s with guard := g' } : Dials).Books mcfg gcfg := h.turn ht

theorem Books.endKey (key : IdSuffix) (bound : Bool)
    (k : Option DialToken) (inc : Option Incarnation) :
    (s.endKey gcfg key bound k inc).Books mcfg gcfg :=
  h.turn (turns_endKey gcfg s.wall s.guard key bound k inc)

/-- A call of the mark table keeps the books. -/
theorem Books.marked (ht : ∀ id m, t.marks.get id = some m → Spent mcfg m →
      Rescheduled mcfg s.marks s.mono id m) :
    ({ s with marks := t } : Dials).Books mcfg gcfg := by
  refine { h with issued := fun id t0 ht0 => ?_ }
  obtain ⟨hle, hdue⟩ := h.issued id t0 ht0
  refine ⟨hle, fun m hm hspent => ?_⟩
  rcases ht id m hm hspent with heq | ⟨m', hm', hspent', heq⟩
  · exact ⟨_, heq, by linarith⟩
  · exact heq ▸ hdue m' hm' hspent'

/-- A dial that goes out: the window of an exhausted mark begins anew. -/
theorem Books.issue (id : NodeId) :
    (s.step mcfg gcfg (.issue id)).Books mcfg gcfg := by
  have heligible := h.marked (t := (s.marks.eligible mcfg id s.mono).2)
    fun id' m => rescheduled_eligible
  unfold step
  simp only []
  split
  · have hconsumed := heligible.marked
      (t := (s.marks.eligible mcfg id s.mono).2.consume mcfg id s.mono)
      fun id' m => rescheduled_consume
    refine { hconsumed with issued := fun id' t0 ht0 => ?_ }
    simp only [Function.update_apply] at ht0
    split at ht0
    next hid =>
      cases ht0
      refine ⟨le_rfl, fun m hm hspent => ?_⟩
      -- the mark of the identity that was dialled is due one window from now
      subst hid
      change ((s.marks.eligible mcfg id' s.mono).2.consume mcfg id' s.mono).marks.get id' = some m
        at hm
      unfold DeadPeers.consume at hm
      cases hold : (s.marks.eligible mcfg id' s.mono).2.marks.get id' with
      | none =>
        rw [hold] at hm
        simp only [hold] at hm
        cases hm
      | some n =>
        rw [hold] at hm
        simp only [] at hm
        split at hm
        · rw [get_set, if_pos rfl] at hm
          cases hm
          exact ⟨_, rfl, le_rfl⟩
        next hcond =>
          cases hold.symm.trans hm
          exact absurd (by simpa [Spent] using hspent) hcond
    · exact hconsumed.issued id' t0 ht0
  · exact heligible

end

theorem entry_put (g : AttemptGuard) (key : IdSuffix) (e : Attempts) :
    (g.put key e).entry key = e := by
  unfold AttemptGuard.entry AttemptGuard.put
  rw [get_set, if_pos rfl]
  rfl

/-- No attempt is begun while one is in flight. -/
theorem inflight_of_allows {t : ℚ} (h : e.allows gcfg t = true) :
    e.inflight = false := by
  unfold Attempts.allows at h
  split at h
  · cases h
  split at h
  all_goals simp only [Bool.and_eq_true, Bool.not_eq_true'] at h
  · exact h.1.2
  · exact h.1

/-- An attempt that is begun has a token of its own, and no other is in flight. -/
theorem Books.dial (h : s.Books mcfg gcfg) (id : NodeId) :
    (s.step mcfg gcfg (.dial id)).Books mcfg gcfg := by
  have hallow := h.turn_open (turns_allow gcfg s.wall s.guard id s.wall)
  unfold step
  simp only []
  split
  next hok =>
    set key := identitySuffix id
    -- the entry is not in flight, so no attempt of the identity is open
    have hidle : (s.guard.entry key).inflight = false := inflight_of_allows hok
    have hnone : ∀ k, (k, key) ∈ s.begun → k ∈ s.closed := by
      intro k hk
      by_contra hopen
      obtain ⟨e, he, hlive, -⟩ := h.opened k key hk hopen
      rw [show s.guard.entry key = e by unfold AttemptGuard.entry; rw [he]; rfl, hlive] at hidle
      cases hidle
    have hentry : (s.guard.allow gcfg id s.wall).2.entry key = s.guard.entry key :=
      entry_put s.guard key _
    have hseq : (s.guard.allow gcfg id s.wall).2.seq = s.guard.seq := rfl
    have hget : ∀ key', ((s.guard.allow gcfg id s.wall).2.begin gcfg id s.wall).2.state.get key' =
        if key' = key then some ((s.guard.entry key).begun gcfg (s.guard.seq + 1) s.wall)
        else s.guard.state.get key' := by
      intro key'
      refine (get_set _ _ _ _).trans ?_
      split
      · exact congrArg some (by rw [← hentry]; rfl)
      next hne => exact (get_set _ _ _ _).trans (if_neg hne)
    have hnew : ∀ x ∈ s.begun, x.1 ≠ s.guard.seq + 1 :=
      fun x hx heq => Nat.not_succ_le_self _ (heq ▸ h.given x hx)
    refine ⟨?_, fun x hx => ?_, h.once, fun k hk => (h.closed k hk).trans (Nat.le_succ _),
      fun key' e he hlive => ?_, fun k key' hk hopen => ?_, fun key' e he hexpired => ?_,
      fun key' t0 ht0 => ?_, h.issued⟩
    · refine List.nodup_cons.mpr ⟨fun hmem => ?_, h.nodup⟩
      obtain ⟨x, hx, heq⟩ := List.mem_map.mp hmem
      exact hnew x hx heq
    · rcases List.mem_cons.mp hx with rfl | hx
      · exact le_rfl
      · exact (h.given x hx).trans (Nat.le_succ _)
    · simp only [Option.mem_def] at he
      rw [hget] at he
      split at he
      next hkey =>
        cases he
        subst hkey
        exact ⟨List.mem_cons_self, fun hk => Nat.not_succ_le_self _ (h.closed _ hk)⟩
      · obtain ⟨hbegun, hnot⟩ := h.live key' e he hlive
        exact ⟨List.mem_cons_of_mem _ hbegun, hnot⟩
    · simp only [Option.mem_def]
      rw [hget]
      rcases List.mem_cons.mp hk with heq | hk
      · cases heq
        exact ⟨_, if_pos rfl, rfl, rfl⟩
      · have hne : key' ≠ key := fun heq => hopen (hnone k (heq ▸ hk))
        rw [if_neg hne]
        exact h.opened k key' hk hopen
    · simp only [Option.mem_def] at he
      rw [hget] at he
      split at he
      next hkey =>
        cases he
        have hexpired' : (s.guard.entry key).expired = true := hexpired
        cases hold : s.guard.state.get key with
        | none =>
          unfold AttemptGuard.entry at hexpired'
          rw [hold] at hexpired'
          cases hexpired'
        | some d =>
          have hd : s.guard.entry key = d := by
            unfold AttemptGuard.entry
            rw [hold]
            rfl
          rw [hd] at hexpired' ⊢
          exact h.spent key d hold hexpired'
      · exact h.spent key' e he hexpired
    · simp only [Function.update_apply] at ht0
      split at ht0
      next hkey =>
        cases ht0
        refine ⟨le_rfl, fun e he hexpired => ?_⟩
        simp only [Option.mem_def] at he
        rw [hget, if_pos hkey] at he
        cases he
        have hexpired' : (s.guard.entry key).expired = true := hexpired
        simp only [Attempts.begun]
        rw [if_pos hexpired']
      next hkey =>
      obtain ⟨hle, hnext⟩ := h.tried key' t0 ht0
      refine ⟨hle, fun e he hexpired => ?_⟩
      simp only [Option.mem_def] at he
      rw [hget, if_neg hkey] at he
      exact hnext e he hexpired
  · exact hallow

/-- Every act keeps the books. -/
theorem Books.step (h : s.Books mcfg gcfg) (a : Act) : (s.step mcfg gcfg a).Books mcfg gcfg := by
  cases a with
  | wait mono wall =>
    refine { h with
      tried := fun key t ht => ⟨?_, (h.tried key t ht).2⟩
      issued := fun id t ht => ⟨?_, (h.issued id t ht).2⟩ }
    · exact (h.tried key t ht).1.trans (le_add_of_nonneg_right wall.2)
    · exact (h.issued id t ht).1.trans (le_add_of_nonneg_right mono.2)
  | marks a => exact h.marked fun id m => rescheduled_step
  | issue id => exact h.issue id
  | dial id => exact h.dial id
  | «end» id bound k inc => exact h.endKey (identitySuffix id) bound k inc
  | attach id k inc => exact h.turn_open (turns_attach gcfg s.wall s.guard id k inc)
  | release id k => exact h.turn (turns_release gcfg s.wall s.guard id k)
  | sweep =>
    change (List.foldl _ s s.guard.state.entries).Books mcfg gcfg
    refine List.foldlRecOn (motive := fun s' : Dials => s'.Books mcfg gcfg) _ _ h ?_
    intro s' hs' e _
    split
    · exact hs'.endKey e.1 false _ _
    · exact hs'
  | deferPath id baseMs maxMs draw =>
    exact h.turn_open (turns_deferPath gcfg s.wall s.guard id s.wall baseMs maxMs draw)
  | pathDelivered id => exact h.turn_open (turns_pathDelivered gcfg s.wall s.guard id)
  | freshRecord id => exact h.turn_open (turns_freshRecord gcfg s.wall s.guard id s.wall)

/-! ### The pace -/

/-- What is asked of an act. -/
structure Paced (mcfg : MarkConfig) (gcfg : GuardConfig) (s : Dials) (a : Act) : Prop where
  /-- A dial of an exhausted mark goes out one refill window after the last, or later. -/
  marks : ∀ id, a = .issue id → (s.marks.eligible mcfg id s.mono).1 = true →
    ∀ m ∈ s.marks.marks.get id, Spent mcfg m → ∀ t ∈ s.issued id, t + mcfg.rRefill ≤ s.mono
  /-- An attempt of an exhausted identity is begun only if that is armed, and one refill window
  after the last, or later. -/
  guard : ∀ id, a = .dial id → (s.guard.allow gcfg id s.wall).1 = true →
    (s.guard.entry (identitySuffix id)).expired = true → gcfg.expiryRefill = true
      ∧ ∀ t ∈ s.tried (identitySuffix id), t + gcfg.refillWindowMs ≤ s.wall
  /-- An identity stays exhausted until it is bound, or a fresh record is granted. -/
  stays : ∀ key, (s.guard.state.get key).any (·.expired) = true →
    ((s.step mcfg gcfg a).guard.state.get key).any (·.expired) = true
      ∨ (∃ id k inc, a = .end id true k inc ∧ identitySuffix id = key
          ∧ (s.guard.end gcfg id true s.wall k inc).1 = true)
      ∨ ∃ id, a = .freshRecord id ∧ identitySuffix id = key
          ∧ (s.guard.onFreshRecord gcfg id s.wall).1 = true
  /-- At most one attempt of an identity is in flight. -/
  single : ∀ key k k', (k, key) ∈ (s.step mcfg gcfg a).begun →
    (k', key) ∈ (s.step mcfg gcfg a).begun → k ∉ (s.step mcfg gcfg a).closed →
    k' ∉ (s.step mcfg gcfg a).closed → k = k'
  /-- No token is given twice, and none ends twice. -/
  tokens : ((s.step mcfg gcfg a).begun.map Prod.fst).Nodup ∧ (s.step mcfg gcfg a).closed.Nodup

/-- Turning an entry leaves the identities exhausted that were, but the one it may free. -/
theorem Turns.expired {closes : Bool} {g' : AttemptGuard} {key' : IdSuffix}
    (ht : Turns gcfg wall g key closes frees g')
    (hexpired : (g.state.get key').any (·.expired) = true) :
    (g'.state.get key').any (·.expired) = true ∨ (key' = key ∧ frees = true) := by
  by_cases hkey : key' = key
  · subst hkey
    cases frees with
    | true => exact .inr ⟨rfl, rfl⟩
    | false => exact .inl (ht.turn.expired hexpired)
  · rw [ht.others key' hkey]
    exact .inl hexpired

theorem expired_step (s : Dials) (a : Act) {key : IdSuffix}
    (hexpired : (s.guard.state.get key).any (·.expired) = true) :
    ((s.step mcfg gcfg a).guard.state.get key).any (·.expired) = true
      ∨ (∃ id k inc, a = .end id true k inc ∧ identitySuffix id = key
          ∧ (s.guard.end gcfg id true s.wall k inc).1 = true)
      ∨ ∃ id, a = .freshRecord id ∧ identitySuffix id = key
          ∧ (s.guard.onFreshRecord gcfg id s.wall).1 = true := by
  cases a with
  | wait mono wall | marks a => exact .inl hexpired
  | issue id =>
    unfold step
    simp only []
    split <;> exact .inl hexpired
  | dial id =>
    have hallow := ((turns_allow gcfg s.wall s.guard id s.wall).expired
      hexpired).resolve_right fun h => by cases h.2
    unfold step
    simp only []
    split
    · refine .inl ?_
      -- beginning an attempt leaves the entry exhausted as it was
      unfold AttemptGuard.begin AttemptGuard.put
      simp only [get_set]
      split
      next hkey =>
        subst hkey
        cases hold : s.guard.state.get (identitySuffix id) with
        | none => simp [hold] at hexpired
        | some e =>
          have hentry : (s.guard.allow gcfg id s.wall).2.entry (identitySuffix id) = e := by
            refine (entry_put s.guard _ _).trans ?_
            unfold AttemptGuard.entry
            rw [hold]
            rfl
          rw [hentry]
          simpa [hold, Attempts.begun] using hexpired
      · exact hallow
    · exact .inl hallow
  | «end» id bound k inc =>
    rcases (turns_endKey gcfg s.wall s.guard (identitySuffix id) bound k
      inc).expired hexpired with h | ⟨rfl, hfrees⟩
    · exact .inl h
    · obtain ⟨rfl, hended⟩ := Bool.and_eq_true_iff.mp hfrees
      exact .inr (.inl ⟨id, k, inc, rfl, rfl, hended⟩)
  | attach id k inc =>
    exact .inl (((turns_attach gcfg s.wall s.guard id k inc).expired
      hexpired).resolve_right fun h => by cases h.2)
  | release id k =>
    exact .inl (((turns_release gcfg s.wall s.guard id k).expired
      hexpired).resolve_right fun h => by cases h.2)
  | sweep =>
    refine .inl ?_
    change ((List.foldl _ s s.guard.state.entries).guard.state.get key).any (·.expired) = true
    refine List.foldlRecOn (motive := fun s' : Dials =>
      (s'.guard.state.get key).any (·.expired) = true) _ _ hexpired ?_
    intro s' hs' e _
    split
    · exact ((turns_endKey gcfg s'.wall s'.guard e.1 false _ _).expired
        hs').resolve_right fun h => by cases h.2
    · exact hs'
  | deferPath id baseMs maxMs draw =>
    exact .inl (((turns_deferPath gcfg s.wall s.guard id s.wall baseMs maxMs
      draw).expired hexpired).resolve_right fun h => by cases h.2)
  | pathDelivered id =>
    exact .inl (((turns_pathDelivered gcfg s.wall s.guard id).expired
      hexpired).resolve_right fun h => by cases h.2)
  | freshRecord id =>
    rcases (turns_freshRecord gcfg s.wall s.guard id s.wall).expired hexpired with h | ⟨rfl, hfrees⟩
    · exact .inl h
    · exact .inr (.inr ⟨id, rfl, rfl, hfrees⟩)

theorem Books.paced (h : s.Books mcfg gcfg) (a : Act) : Paced mcfg gcfg s a := by
  have hnext := h.step a
  refine ⟨?_, ?_, fun key => expired_step s a, fun key k k' hk hk' hopen hopen' => ?_,
    hnext.nodup, hnext.once⟩
  · rintro id - heligible m hm hspent t ht
    obtain ⟨due, hdue, hle⟩ := (h.issued id t ht).2 m hm hspent
    exact hle.trans ((due_of_eligible heligible hm).2 due hdue)
  · rintro id - hallow hexpired
    have hallows : (s.guard.entry (identitySuffix id)).allows gcfg s.wall = true := hallow
    unfold Attempts.allows at hallows
    rw [if_pos hexpired] at hallows
    split at hallows
    · cases hallows
    simp only [Bool.and_eq_true, decide_eq_true_eq] at hallows
    refine ⟨hallows.1.1, fun t ht => ?_⟩
    cases hold : s.guard.state.get (identitySuffix id) with
    | none =>
      unfold AttemptGuard.entry at hexpired
      rw [hold] at hexpired
      cases hexpired
    | some e =>
      have hentry : s.guard.entry (identitySuffix id) = e := by
        unfold AttemptGuard.entry
        rw [hold]
        rfl
      rw [hentry] at hexpired hallows
      exact ((h.tried _ t ht).2 e hold hexpired).trans hallows.2
  · obtain ⟨e, he, -, rfl⟩ := hnext.opened k key hk hopen
    obtain ⟨e', he', -, rfl⟩ := hnext.opened k' key hk' hopen'
    exact congrArg Attempts.k (Option.some.inj (he.symm.trans he'))

/-- **The pace of dials.** Whatever is called in whatever order, an exhausted identity is dialled at
most once in each refill window, by the mark table and by the guard; at most one attempt of an
identity is in flight, and none ends twice. -/
theorem dials_paced (mcfg : MarkConfig) (gcfg : GuardConfig) (as : List Act) :
    EachStep (step mcfg gcfg) (Paced mcfg gcfg) init as :=
  run_safety (fun _ a h => h.step a) (fun _ a h => h.paced a) books_init as

end Dials

end Axona
