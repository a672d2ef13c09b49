import Axona.Transport.Heartbeat
import Mathlib.Data.List.Chain
import Mathlib.Tactic.Linarith

/-! # Who pings on a channel, and who is judged dead

What one end does in a tick or on a receipt is said once, as moves of the channel. From these come
three invariants: what is so in every run, what is so while one end pings on time and the other
hears it, and what is so while everything is on time from the opening. -/

namespace Axona

open Library

/-! ### One end -/

namespace HeartbeatEnd

variable {cfg : HeartbeatConfig} {role : PeerRole} {now t : ℚ} {e : HeartbeatEnd}

/-- A tick without a ping: the pinger's next ping is not due, the ponger heard one lately. -/
def Quiet (cfg : HeartbeatConfig) (role : PeerRole) (now : ℚ) (e : HeartbeatEnd) : Prop :=
  (e.pinger = true ∧ ∃ t, e.lastPingTxAt = some t ∧ now < t + cfg.pingIntervalMs)
    ∨ e.pinger = false ∧ now < e.lastPing + takeoverWait cfg role

/-- A tick changes nothing, or it is a pinger's that sends a ping. -/
theorem heartbeatTick_cases (cfg : HeartbeatConfig) (role : PeerRole) (now : ℚ) (e : HeartbeatEnd) :
    e.Quiet cfg role now ∧ e.heartbeatTick cfg role now = (e, [])
      ∨ (e.pinger = false → e.lastPing + takeoverWait cfg role ≤ now) ∧ e.heartbeatTick cfg role now
          = ({ e with pinger := true, lastPingTxAt := some now }, [.ping now]) := by
  unfold heartbeatTick
  cases hp : e.pinger with
  | false =>
    by_cases hw : takeoverWait cfg role ≤ now - e.lastPing
    · refine .inr ⟨fun _ => by linarith, ?_⟩
      simp [hw, pingTick]
    · refine .inl ⟨.inr ⟨hp, by linarith⟩, ?_⟩
      simp [hw]
  | true =>
    cases hdue : e.due cfg now with
    | true =>
      refine .inr ⟨by simp, ?_⟩
      simp [hp, pingTick]
    | false =>
      refine .inl ⟨.inl ⟨hp, ?_⟩, by simp⟩
      unfold due at hdue
      split at hdue
      · cases hdue
      next t ht =>
        have hlt : ¬ cfg.pingIntervalMs ≤ now - t := by simpa using hdue
        exact ⟨t, ht, by linarith⟩

theorem active_iff : e.active cfg now = true ↔
    ∃ t, e.lastPingTxAt = some t ∧ now ≤ t + (cfg.pingIntervalMs + cfg.tickMs) := by
  unfold active
  cases e.lastPingTxAt with
  | none => simp
  | some t => simp [add_comm]

@[simp] theorem onPing_lastPingTxAt :
    (e.onPing cfg role now true).lastPingTxAt = e.lastPingTxAt := rfl

/-- **Who still pings after a ping.** The offerer that is actively sending. -/
theorem onPing_pinger : (e.onPing cfg role now true).pinger = true ↔
    e.pinger = true ∧ e.active cfg now = true ∧ role = .offerer := by
  unfold onPing
  cases e.pinger <;> cases e.active cfg now <;> cases role <;> simp

theorem le_lastPing (h : e.lastPingRxAt = some t) : t ≤ e.lastPing := by
  have hle : e.lastPingRxAt.getD e.openedAt ≤ e.lastPing := le_max_left ..
  rwa [h] at hle

theorem lastRxAt_le_lastRx (e : HeartbeatEnd) : e.lastRxAt ≤ e.lastRx := le_max_left ..

/-- When the pinger's next ping is due. -/
def nextPing (cfg : HeartbeatConfig) (e : HeartbeatEnd) : ℚ :=
  match e.lastPingTxAt with
  | none => e.openedAt
  | some t => t + cfg.pingIntervalMs

/-- An end in order: its times are past, and as a pinger it did not tick with a ping due and not
send it. -/
structure OnTime (cfg : HeartbeatConfig) (now : ℚ) (e : HeartbeatEnd) : Prop where
  opened : e.openedAt ≤ now
  pinged : ∀ t ∈ e.lastPingTxAt, t ≤ now
  brisk : e.pinger = true → e.tickedAt ≤ e.nextPing cfg

theorem OnTime.mono {now' : ℚ} (h : e.OnTime cfg now) (hle : now ≤ now') : e.OnTime cfg now' where
  opened := h.opened.trans hle
  pinged := fun t ht => (h.pinged t ht).trans hle
  brisk := h.brisk

/-- A pinger that ticks on time sends its next ping at most a tick after it is due. -/
theorem OnTime.le_nextPing (h : e.OnTime cfg now) (hp : e.pinger = true)
    (htick : now ≤ e.tickedAt + cfg.tickMs) : now ≤ e.nextPing cfg + cfg.tickMs := by
  have hbrisk := h.brisk hp
  linarith

theorem OnTime.nextPing_le (h : e.OnTime cfg now) : e.nextPing cfg ≤ now + cfg.pingIntervalMs := by
  have hnonneg := cfg.pingIntervalMs_nonneg
  have hopened := h.opened
  unfold nextPing
  split
  · linarith
  next t ht =>
    have ht := h.pinged t ht
    linarith

theorem inOrder_openHeartbeat (cfg : HeartbeatConfig) (role : PeerRole) (now : ℚ) :
    (openHeartbeat role now).OnTime cfg now where
  opened := le_rfl
  pinged := by simp [openHeartbeat]
  brisk := fun _ => le_rfl

variable (h : e.OnTime cfg now)
include h

theorem OnTime.quiet (hquiet : e.Quiet cfg role now) :
    OnTime cfg now { e with tickedAt := now } where
  opened := h.opened
  pinged := h.pinged
  brisk := fun hp => by
    rcases hquiet with ⟨-, t, ht, hlt⟩ | ⟨hfalse, -⟩
    · simp only [nextPing, ht]
      exact hlt.le
    · rw [hfalse] at hp
      cases hp

theorem OnTime.pings :
    OnTime cfg now { e with pinger := true, lastPingTxAt := some now, tickedAt := now } where
  opened := h.opened
  pinged := by simp
  brisk := fun _ => le_add_of_nonneg_right cfg.pingIntervalMs_nonneg

theorem OnTime.onPing : (e.onPing cfg role now true).OnTime cfg now :=
  { h with
    brisk := fun hp => h.brisk (onPing_pinger.mp hp).1 }

theorem OnTime.onPong : (e.onPong now).OnTime cfg now where
  opened := h.opened
  pinged := h.pinged
  brisk := h.brisk

end HeartbeatEnd

/-! ### Moves -/

namespace Heartbeat

variable {cfg : HeartbeatConfig} {s : Heartbeat} {r : PeerRole} {e : HeartbeatEnd}
  {sent rest : List HeartbeatFrame}

@[simp] theorem update_now : (s.update r e sent).now = s.now := rfl

theorem update_ends (x : PeerRole) :
    (s.update r e sent).ends x = if x = r then some e else s.ends x := by
  simp [update, Function.update_apply]

theorem update_inbox (x : PeerRole) :
    (s.update r e sent).inbox x = if x = r.other then s.inbox r.other ++ sent else s.inbox x := by
  simp [update, Function.update_apply]

@[simp] theorem update_ends_self : (s.update r e sent).ends r = some e := by
  simp [update_ends]

@[simp] theorem update_ends_other : (s.update r e sent).ends r.other = s.ends r.other := by
  simp [update_ends, r.other_ne]

@[simp] theorem update_ends_far : (s.update r.other e sent).ends r = s.ends r := by
  simp [update_ends, r.other_ne.symm]

@[simp] theorem update_inbox_self : (s.update r e sent).inbox r = s.inbox r := by
  simp [update_inbox, r.other_ne.symm]

@[simp] theorem update_inbox_other :
    (s.update r e sent).inbox r.other = s.inbox r.other ++ sent := by
  simp [update_inbox]

theorem update_pings (x : PeerRole) : (s.update r e sent).pings x =
    if x = r.other then s.pings r.other ++ sent.filterMap (·.ping?) else s.pings x := by
  unfold pings
  rw [update_inbox]
  split <;> simp

@[simp] theorem update_pings_self : (s.update r e sent).pings r = s.pings r := by
  simp [update_pings, r.other_ne.symm]

@[simp] theorem update_pings_other : (s.update r e sent).pings r.other
    = s.pings r.other ++ sent.filterMap (·.ping?) := by
  simp [update_pings]

theorem update_pings_nil (x : PeerRole) : (s.update r e []).pings x = s.pings x := by
  rcases r.eq_or x with rfl | rfl <;> simp

@[simp] theorem took_now : (s.took r rest).now = s.now := rfl

@[simp] theorem took_ends : (s.took r rest).ends = s.ends := rfl

@[simp] theorem took_inbox_self : (s.took r rest).inbox r = rest := by
  simp [took]

@[simp] theorem took_inbox_other : (s.took r rest).inbox r.other = s.inbox r.other := by
  simp [took, r.other_ne]

@[simp] theorem took_pings_self : (s.took r rest).pings r = rest.filterMap (·.ping?) := by
  simp [pings]

@[simp] theorem took_pings_other : (s.took r rest).pings r.other = s.pings r.other := by
  simp [pings]

/-- A pong that is received leaves the pings on their way. -/
theorem answered_pings {t t' : ℚ} (hin : s.inbox r = .pong t t' :: rest) (x : PeerRole) :
    ((s.took r rest).update r e []).pings x = s.pings x := by
  rcases r.eq_or x with rfl | rfl
  · simp [pings, hin, HeartbeatFrame.ping?]
  · simp

/-- **What a step does.** An end that acts changes its own state and may send one frame to the
other. -/
inductive Move (cfg : HeartbeatConfig) (s : Heartbeat) : Act → Heartbeat → Prop
  | still {a : Act} (hidle : ∀ r, a = .deliver r → s.ends r = none ∨ s.inbox r = []) :
      Move cfg s a s
  | clock {t t' : ℚ} (ht : s.now ≤ t') : Move cfg s (.wait t) { s with now := t' }
  | opened {r : PeerRole} (hr : s.ends r = none) :
      Move cfg s (.onopen r) (s.update r (.openHeartbeat r s.now) [])
  | quiet {r : PeerRole} {e : HeartbeatEnd} (he : s.ends r = some e)
      (hquiet : e.Quiet cfg r s.now) :
      Move cfg s (.tick r) (s.update r { e with tickedAt := s.now } [])
  | pings {r : PeerRole} {e : HeartbeatEnd} (he : s.ends r = some e)
      (hdue : e.pinger = false → e.lastPing + HeartbeatEnd.takeoverWait cfg r ≤ s.now) :
      Move cfg s (.tick r) (s.update r
        { e with pinger := true, lastPingTxAt := some s.now, tickedAt := s.now } [.ping s.now])
  | heard {r : PeerRole} {e : HeartbeatEnd} {t : ℚ} {rest : List HeartbeatFrame}
      (he : s.ends r = some e) (hin : s.inbox r = .ping t :: rest) :
      Move cfg s (.deliver r)
        ((s.took r rest).update r (e.onPing cfg r s.now true) [.pong t s.now])
  | answered {r : PeerRole} {e : HeartbeatEnd} {t t' : ℚ} {rest : List HeartbeatFrame}
      (he : s.ends r = some e) (hin : s.inbox r = .pong t t' :: rest) :
      Move cfg s (.deliver r) ((s.took r rest).update r (e.onPong s.now) [])
  | shown {r : PeerRole} {e : HeartbeatEnd} {b : Bool} (he : s.ends r = some e) :
      Move cfg s (.reap r) (s.update r { e with stale := b } [])

theorem update_same (he : s.ends r = some e) : s.update r e [] = s := by
  unfold update
  rw [← he]
  simp

theorem move_step (cfg : HeartbeatConfig) (s : Heartbeat) (a : Act) :
    Move cfg s a (s.step cfg a) := by
  cases a with
  | wait t => exact .clock (le_max_left ..)
  | onopen r =>
    simp only [step]
    split
    next hr => exact .opened hr
    · exact .still (by simp)
  | tick r =>
    simp only [step]
    split
    · exact .still (by simp)
    next e he =>
    rcases e.heartbeatTick_cases cfg r s.now with ⟨hquiet, heq⟩ | ⟨hdue, heq⟩
    · rw [heq]
      exact .quiet he hquiet
    · rw [heq]
      exact .pings (e := e) he hdue
  | deliver r =>
    simp only [step]
    split
    next e t rest he hin => exact .heard he hin
    next e t t' rest he hin => exact .answered he hin
    next hping hpong =>
    refine .still fun x hx => ?_
    obtain rfl : r = x := by simpa using hx
    cases he : s.ends r with
    | none => exact .inl rfl
    | some e =>
      cases hin : s.inbox r with
      | nil => exact .inr rfl
      | cons f rest =>
        cases f with
        | ping t => exact absurd hin (hping e t rest he)
        | pong t t' => exact absurd hin (hpong e t t' rest he)
  | reap r =>
    simp only [step]
    split
    · exact .still (by simp)
    next e he =>
    unfold HeartbeatEnd.shown
    split
    · exact .shown he
    · exact .shown he
    · rw [update_same he]
      exact .still (by simp)

/-- **The rule for moves.** What every move preserves, every run preserves. -/
theorem run_of_moves {I : Heartbeat → Prop} (hmove : ∀ s a s', I s → Move cfg s a s' → I s')
    (hs : I s) (as : List Act) : I (run (step cfg) s as) :=
  run_invariant (fun s a h => hmove s a _ h (move_step cfg s a)) hs as

/-! ### Every run -/

/-- The channel in order: whoever sent a frame is open, and the last of its pings on their way is the
last it sent. -/
structure InOrder (cfg : HeartbeatConfig) (s : Heartbeat) : Prop where
  ends : ∀ x, ∀ e ∈ s.ends x, e.OnTime cfg s.now
  frames : ∀ x, ∀ f ∈ s.inbox x, f.sentAt ≤ s.now
  sender : ∀ x, s.inbox x.other ≠ [] →
    ∃ e ∈ s.ends x, ∀ t ∈ (s.pings x.other).getLast?, e.lastPingTxAt = some t

theorem inOrder_init (cfg : HeartbeatConfig) : InOrder cfg init where
  ends := by simp [init]
  frames := by simp [init]
  sender := by simp [init]

namespace InOrder

/-- The last ping on its way is the last its sender sent. -/
theorem last (h : s.InOrder cfg) (he : s.ends r = some e) :
    ∀ t ∈ (s.pings r.other).getLast?, e.lastPingTxAt = some t := by
  intro t ht
  have hne : s.inbox r.other ≠ [] := by
    rintro hnil
    simp [pings, hnil] at ht
  obtain ⟨e', he', hlast⟩ := h.sender r hne
  obtain rfl : e = e' := by simpa [he] using he'
  exact hlast t ht

/-- An end that is not open has sent nothing. -/
theorem inbox_of_closed (h : s.InOrder cfg) (hr : s.ends r = none) : s.inbox r.other = [] := by
  by_contra hne
  obtain ⟨e, he, -⟩ := h.sender r hne
  simp [hr] at he

/-- Where a frame is received both ends are open. -/
theorem isOpen {f : HeartbeatFrame} (h : s.InOrder cfg) (he : s.ends r = some e)
    (hin : s.inbox r = f :: rest) (x : PeerRole) : s.ends x ≠ none := by
  rcases r.eq_or x with rfl | rfl
  · simp [he]
  · obtain ⟨q, hq, -⟩ := h.sender r.other (by simp [hin])
    simp [Option.mem_def.mp hq]

theorem update (h : s.InOrder cfg) (he : e.OnTime cfg s.now) (hsent : ∀ f ∈ sent, f.sentAt ≤ s.now)
    (hlast : ∀ t ∈ (s.pings r.other ++ sent.filterMap (·.ping?)).getLast?,
      e.lastPingTxAt = some t) : (s.update r e sent).InOrder cfg where
  ends := by
    intro x e' he'
    rw [update_ends] at he'
    split at he'
    · obtain rfl : e = e' := by simpa using he'
      exact he
    · exact h.ends x e' he'
  frames := by
    intro x f hf
    rw [update_inbox] at hf
    split at hf
    · rcases List.mem_append.mp hf with hf | hf
      · exact h.frames _ f hf
      · exact hsent f hf
    · exact h.frames x f hf
  sender := by
    intro x hne
    rcases r.eq_or x with rfl | rfl
    · exact ⟨e, by simp, by simpa using hlast⟩
    simp only [PeerRole.other_other, update_inbox_self, update_ends_other,
      update_pings_self] at hne ⊢
    simpa using h.sender r.other (by simpa using hne)

/-- What an end does without a ping of its own leaves the channel in order. -/
theorem update_quiet {e' : HeartbeatEnd} (h : s.InOrder cfg) (he : s.ends r = some e)
    (he' : e'.OnTime cfg s.now) (hsent : ∀ f ∈ sent, f.sentAt ≤ s.now ∧ f.ping? = none)
    (hlast : e'.lastPingTxAt = e.lastPingTxAt) : (s.update r e' sent).InOrder cfg := by
  apply h.update he' fun f hf => (hsent f hf).1
  have hnil : sent.filterMap (·.ping?) = [] :=
    List.filterMap_eq_nil_iff.mpr fun f hf => (hsent f hf).2
  rw [hnil, List.append_nil, hlast]
  exact h.last he

theorem took {f : HeartbeatFrame} (h : s.InOrder cfg) (hin : s.inbox r = f :: rest) :
    (s.took r rest).InOrder cfg where
  ends := h.ends
  frames := by
    intro x f' hf'
    rcases r.eq_or x with rfl | rfl
    · apply h.frames x f'
      rw [hin]
      exact List.mem_cons_of_mem _ (by simpa using hf')
    · exact h.frames _ f' (by simpa using hf')
  sender := by
    intro x hne
    rcases r.eq_or x with rfl | rfl
    · simp only [took_inbox_other, took_ends, took_pings_other] at hne ⊢
      exact h.sender x hne
    have hsent := h.sender r.other (by simp [hin])
    simp only [PeerRole.other_other, took_ends, took_pings_self] at hsent ⊢
    obtain ⟨e, he, hlast⟩ := hsent
    refine ⟨e, he, fun t ht => hlast t ?_⟩
    -- the frame that left was not the last
    have hpings : s.pings r = f.ping?.toList ++ rest.filterMap (·.ping?) := by
      cases f <;> simp [pings, hin, HeartbeatFrame.ping?]
    rw [hpings, List.getLast?_append, Option.mem_def.mp ht]
    rfl

theorem move {a : Act} {s' : Heartbeat} (h : s.InOrder cfg) (hmove : Move cfg s a s') :
    s'.InOrder cfg := by
  cases hmove with
  | still hidle => exact h
  | clock ht =>
    exact {
      ends := fun x e he => (h.ends x e he).mono ht
      frames := fun x f hf => (h.frames x f hf).trans ht
      sender := h.sender }
  | opened hr =>
    apply h.update (HeartbeatEnd.inOrder_openHeartbeat ..) (by simp)
    simp [pings, h.inbox_of_closed hr]
  | quiet he hquiet => exact h.update_quiet he ((h.ends _ _ he).quiet hquiet) (by simp) rfl
  | pings he hdue =>
    apply h.update (h.ends _ _ he).pings
    · simp [HeartbeatFrame.sentAt]
    · simp [HeartbeatFrame.ping?]
  | heard he hin =>
    have hsound := h.ends _ _ he
    exact (h.took hin).update_quiet he hsound.onPing
      (by simp [HeartbeatFrame.sentAt, HeartbeatFrame.ping?]) rfl
  | answered he hin =>
    have hsound := h.ends _ _ he
    exact (h.took hin).update_quiet he hsound.onPong (by simp) rfl
  | shown he =>
    have hsound := h.ends _ _ he
    exact h.update_quiet he ⟨hsound.opened, hsound.pinged, hsound.brisk⟩ (by simp) rfl

end InOrder

theorem inOrder_run (cfg : HeartbeatConfig) (as : List Act) : (run (step cfg) init as).InOrder cfg :=
  run_of_moves (fun _ _ _ h hmove => h.move hmove) (inOrder_init cfg) as

/-! ### A contest for the role -/

/-- Where the responder pings and no ping is on its way to it, the offerer has been silent long
enough to be taken over, and has not been told so yet if it pings itself. -/
structure Contest (cfg : HeartbeatConfig) (s : Heartbeat) : Prop where
  heard : ∀ o ∈ s.ends .offerer, ∀ t ∈ o.lastPingTxAt, s.pings .responder = [] →
    ∃ q ∈ s.ends .responder, ∃ u ∈ q.lastPingRxAt, t ≤ u
  silent : ∀ q ∈ s.ends .responder, q.pinger = true → s.pings .responder = [] →
    ∀ o ∈ s.ends .offerer, ∀ t ∈ o.lastPingTxAt, t + cfg.takeoverMs ≤ s.now
  untold : ∀ q ∈ s.ends .responder, q.pinger = true → s.pings .responder = [] →
    (∀ o ∈ s.ends .offerer, o.pinger = true) → s.pings .offerer ≠ []

namespace Contest

theorem init (cfg : HeartbeatConfig) : Contest cfg init where
  heard := by simp [Heartbeat.init]
  silent := by simp [Heartbeat.init]
  untold := by simp [Heartbeat.init]

/-- What leaves the roles, the pings and their times alone leaves the contest alone. -/
theorem update_same {s' : Heartbeat} {e' : HeartbeatEnd} (h : s.Contest cfg)
    (he : s.ends r = some e) (hnow : s'.now = s.now) (hends : s'.ends = s.ends)
    (hpings : ∀ x, (s'.update r e' sent).pings x = s.pings x) (hp : e'.pinger = e.pinger)
    (htx : e'.lastPingTxAt = e.lastPingTxAt) (hrx : e'.lastPingRxAt = e.lastPingRxAt) :
    (s'.update r e' sent).Contest cfg where
  heard := by
    have hheard := h.heard
    cases r <;> simpa [update_ends, hpings, hends, he, htx, hrx] using hheard
  silent := by
    have hsilent := h.silent
    cases r <;> simpa [update_ends, hpings, hends, he, hp, htx, hnow] using hsilent
  untold := by
    have huntold := h.untold
    cases r <;> simpa [update_ends, hpings, hends, he, hp] using huntold

theorem opened (h : s.Contest cfg) (hr : s.ends r = none) :
    (s.update r (.openHeartbeat r s.now) []).Contest cfg := by
  cases r with
  | offerer =>
    have huntold := h.untold
    exact {
      heard := by simp [update_ends, HeartbeatEnd.openHeartbeat]
      silent := by simp [update_ends, HeartbeatEnd.openHeartbeat]
      untold := by simpa [update_ends, update_pings, HeartbeatEnd.openHeartbeat, hr] using huntold }
  | responder =>
    have hheard := h.heard
    exact {
      heard := by
        simpa [update_ends, update_pings, HeartbeatEnd.openHeartbeat, hr] using hheard
      silent := by simp [update_ends, HeartbeatEnd.openHeartbeat]
      untold := by simp [update_ends, HeartbeatEnd.openHeartbeat] }

theorem pings (h : s.Contest cfg) (he : s.ends r = some e)
    (hdue : e.pinger = false → e.lastPing + HeartbeatEnd.takeoverWait cfg r ≤ s.now) :
    (s.update r { e with pinger := true, lastPingTxAt := some s.now, tickedAt := s.now }
      [.ping s.now]).Contest cfg := by
  cases r with
  | offerer =>
    -- a ping is on its way to the responder
    exact {
      heard := by simp [update_pings, HeartbeatFrame.ping?]
      silent := by simp [update_pings, HeartbeatFrame.ping?]
      untold := by simp [update_pings, HeartbeatFrame.ping?] }
  | responder =>
    have hheard := h.heard
    refine {
      heard := by simpa [update_ends, update_pings, he] using hheard
      silent := ?_
      untold := by simp [update_pings, HeartbeatFrame.ping?] }
    intro q hq _ hnil o ho t ht
    simp only [update_ends, update_pings, PeerRole.other_responder, reduceCtorEq,
      if_false] at ho hnil
    cases hp : e.pinger with
    | true => exact h.silent e he hp hnil o ho t ht
    | false =>
      -- the takeover: the last ping that was heard is the offerer's last
      obtain ⟨q', hq', u, hu, hle⟩ := h.heard o ho t ht hnil
      obtain rfl : e = q' := by simpa [he] using hq'
      have hlast := HeartbeatEnd.le_lastPing hu
      have hwait := hdue hp
      simp only [HeartbeatEnd.takeoverWait, reduceCtorEq, if_false, add_zero] at hwait
      change t + cfg.takeoverMs ≤ s.now
      linarith

theorem hears {t : ℚ} (hcfg : cfg.pingIntervalMs + cfg.tickMs < cfg.takeoverMs)
    (hsound : s.InOrder cfg) (h : s.Contest cfg) (he : s.ends r = some e)
    (hin : s.inbox r = .ping t :: rest) :
    ((s.took r rest).update r (e.onPing cfg r s.now true) [.pong t s.now]).Contest cfg := by
  have hpings : ((s.took r rest).update r (e.onPing cfg r s.now true)
      [.pong t s.now]).pings r.other = s.pings r.other := by
    simp [HeartbeatFrame.ping?]
  cases r with
  | offerer =>
    rw [PeerRole.other_offerer] at hpings
    refine {
      heard := ?_
      silent := ?_
      untold := ?_ }
    · intro o ho u hu hnil
      obtain rfl : e.onPing cfg .offerer s.now true = o := by simpa using ho
      rw [hpings] at hnil
      simpa [update_ends] using h.heard e he u hu hnil
    · intro q hq hp hnil o ho u hu
      obtain rfl : e.onPing cfg .offerer s.now true = o := by simpa using ho
      rw [hpings] at hnil
      exact h.silent q (by simpa [update_ends] using hq) hp hnil e he u hu
    · intro q hq hp hnil hall
      rw [hpings] at hnil
      have hkept := HeartbeatEnd.onPing_pinger.mp (hall _ update_ends_self)
      obtain ⟨u, hu, hlate⟩ := HeartbeatEnd.active_iff.mp hkept.2.1
      -- an offerer that is actively sending was not silent for so long
      have hsilent := h.silent q (by simpa [update_ends] using hq) hp hnil e he u hu
      linarith
  | responder =>
    have hponger : (e.onPing cfg .responder s.now true).pinger = false := by
      apply Bool.eq_false_iff.mpr
      intro hp
      exact absurd (HeartbeatEnd.onPing_pinger.mp hp).2.2 (by decide)
    refine {
      heard := ?_
      silent := by simp [hponger]
      untold := by simp [hponger] }
    intro o ho u hu _
    have hpast := (hsound.ends _ o (by simpa [update_ends] using ho)).pinged u hu
    exact ⟨_, update_ends_self, s.now, rfl, hpast⟩

theorem move {a : Act} {s' : Heartbeat} (hcfg : cfg.pingIntervalMs + cfg.tickMs < cfg.takeoverMs)
    (hsound : s.InOrder cfg) (h : s.Contest cfg) (hmove : Move cfg s a s') : s'.Contest cfg := by
  cases hmove with
  | still hidle => exact h
  | clock ht =>
    exact { h with
      silent := fun q hq hp hnil o ho u hu => (h.silent q hq hp hnil o ho u hu).trans ht }
  | opened hr => exact h.opened hr
  | quiet he hquiet | shown he => exact h.update_same he rfl rfl update_pings_nil rfl rfl rfl
  | pings he hdue => exact h.pings he hdue
  | heard he hin => exact h.hears hcfg hsound he hin
  | answered he hin => exact h.update_same he rfl rfl (answered_pings hin) rfl rfl rfl

end Contest

variable {x : PeerRole}

variable {s' : Heartbeat}

/-- A pinger that hears no ping stays the pinger. -/
theorem isPinger_move {a : Act} (hmove : Move cfg s a s') (hx : s.IsPinger x)
    (hheard : ∀ e ∈ s.ends x, e.pinger = true → a = .deliver x → (s.nextPing x).isSome →
      (e.onPing cfg x s.now true).pinger = true) : s'.IsPinger x := by
  obtain ⟨e, he, hp⟩ := hx
  -- what another end does is not about this one
  have hupdate : ∀ (s₁ : Heartbeat) (r : PeerRole) (e₁ e' : HeartbeatEnd)
      (sent : List HeartbeatFrame), s₁.ends = s.ends → s.ends r = some e₁ →
      (r = x → e₁.pinger = true → e'.pinger = true) → (s₁.update r e' sent).IsPinger x := by
    intro s₁ r e₁ e' sent hends he₁ hkeeps
    rcases r.eq_or x with rfl | rfl
    · obtain rfl : e = e₁ := by simpa [he₁] using he.symm
      exact ⟨e', update_ends_self, hkeeps rfl hp⟩
    · exact ⟨e, by simpa [hends] using he, hp⟩
  cases hmove with
  | still hidle | clock ht => exact ⟨e, he, hp⟩
  | opened hr =>
    rename_i r
    rcases r.eq_or x with rfl | rfl
    · rw [hr] at he
      cases he
    · exact ⟨e, by simpa using he, hp⟩
  | quiet he' hquiet | answered he' hin | shown he' =>
    exact hupdate _ _ _ _ _ rfl he' fun _ hp' => hp'
  | pings he' hdue => exact hupdate _ _ _ _ _ rfl he' fun _ _ => rfl
  | heard he' hin =>
    refine hupdate _ _ _ _ _ rfl he' ?_
    rintro rfl hp'
    exact hheard _ he' hp' rfl (by simp [nextPing, hin, HeartbeatFrame.ping?])

theorem contest_run (hcfg : cfg.pingIntervalMs + cfg.tickMs < cfg.takeoverMs) (as : List Act) :
    (run (step cfg) init as).Contest cfg := by
  have hboth : ∀ s a s', s.InOrder cfg ∧ s.Contest cfg → Move cfg s a s' →
      s'.InOrder cfg ∧ s'.Contest cfg :=
    fun s a s' h hmove => ⟨h.1.move hmove, h.2.move hcfg h.1 hmove⟩
  exact (run_of_moves hboth ⟨inOrder_init cfg, Contest.init cfg⟩ as).2

/-- **The offerer keeps the role** as long as it hears no ping unless it is actively sending. -/
theorem isPinger_of_hearsActive {bs : List Act} (ho : s.IsPinger .offerer)
    (hactive : EachStep (step cfg) (HearsActive cfg) s bs) :
    (run (step cfg) s bs).IsPinger .offerer := by
  have hstep : ∀ (s : Heartbeat) (a : Act), s.IsPinger .offerer → s.HearsActive cfg a →
      (s.step cfg a).IsPinger .offerer := by
    intro s a ho ha
    apply isPinger_move (move_step cfg s a) ho
    rintro e he hp rfl hping
    exact HeartbeatEnd.onPing_pinger.mpr ⟨hp, ha hping e he hp, rfl⟩
  exact EachStep.invariant hstep ho hactive

/-- **A contest ends.** With no ping on its way the offerer alone is the pinger, if it is one. -/
theorem Contest.ponger_responder (h : s.Contest cfg) (ho : s.IsPinger .offerer)
    (hnil : ∀ x, s.pings x = []) : ¬ s.IsPinger .responder := by
  rintro ⟨q, hq, hp⟩
  obtain ⟨o, ho, hpo⟩ := ho
  apply h.untold q hq hp (hnil _) _ (hnil _)
  intro o' ho'
  obtain rfl : o = o' := by simpa [Option.mem_def.mp ho] using ho'
  exact hpo

/-! ### A settled channel -/

/-- What a pinger's far end has heard, `h` last, and is to hear: no two pings lie further apart than
an interval and a tick, after `T`. -/
structure Paced (cfg : HeartbeatConfig) (T : ℚ) (x : PeerRole) (h : Option ℚ) (s : Heartbeat) :
    Prop where
  chain : List.IsChain (fun a b => T < a → T < b ∧ b ≤ a + (cfg.pingIntervalMs + cfg.tickMs))
    (h.toList ++ s.pings x.other)
  last : ∀ t ∈ (h.toList ++ s.pings x.other).getLast?, ∀ e ∈ s.ends x, e.lastPingTxAt = some t
  heard : ∀ t ∈ h, ∀ q ∈ s.ends x.other, t ≤ q.lastPing

theorem mem_inbox_of_mem_pings {t : ℚ} (h : t ∈ s.pings x) : .ping t ∈ s.inbox x := by
  obtain ⟨f, hf, hping⟩ := List.mem_filterMap.mp h
  cases f with
  | ping u =>
    obtain rfl : u = t := by simpa [HeartbeatFrame.ping?] using hping
    exact hf
  | pong u u' => cases hping

/-- All that is on its way was sent by now. -/
theorem InOrder.paced (h : s.InOrder cfg) (x : PeerRole) : Paced cfg s.now x none s where
  chain := by
    apply List.Pairwise.isChain
    apply List.pairwise_of_forall_mem_list
    intro a ha b _ hlt
    have hle := h.frames _ _ (mem_inbox_of_mem_pings (by simpa using ha))
    exact absurd hle (not_le.mpr hlt)
  last := fun t ht e he => h.last he t ht
  heard := by simp

namespace Paced

variable {T : ℚ} {x : PeerRole} {h : Option ℚ}

/-- **A ponger that hears a pinger on time does not take over.** -/
theorem no_takeover {t : ℚ} (hpaced : Paced cfg T x (some t) s) (hT : T < t) (hsound : s.InOrder cfg)
    (hx : s.IsPinger x) (hticks : s.TicksOnTime cfg)
    (hdelays : s.Delays (· < cfg.takeoverMs - cfg.pingIntervalMs - 2 * cfg.tickMs))
    (hpos : cfg.pingIntervalMs + 2 * cfg.tickMs < cfg.takeoverMs) :
    ∀ q ∈ s.ends x.other, s.now < q.lastPing + cfg.takeoverMs := by
  intro q hq
  have hheard := hpaced.heard t rfl q hq
  have hnonneg := cfg.tickMs_nonneg
  cases hpings : s.pings x.other with
  | nil =>
    -- the last ping has arrived: the next one is not due yet, or is by less than a tick
    obtain ⟨e, he, hp⟩ := hx
    have hlast := hpaced.last t (by simp [hpings]) e he
    have hnext := (hsound.ends x e he).le_nextPing hp (hticks x e he)
    simp only [HeartbeatEnd.nextPing, hlast] at hnext
    linarith
  | cons b bs =>
    have hchain := hpaced.chain
    rw [hpings] at hchain
    have hgap := (List.isChain_cons_cons.mp hchain).1 hT
    have hdelay := hdelays _ _ (mem_inbox_of_mem_pings (hpings ▸ List.mem_cons_self))
    simp only [HeartbeatFrame.sentAt] at hdelay
    linarith [hgap.2]

/-- What leaves the pings and their times alone leaves the pace alone. -/
theorem update_same {s₁ : Heartbeat} {e' : HeartbeatEnd} (hpaced : Paced cfg T x h s)
    (he : s.ends r = some e) (hends : s₁.ends = s.ends)
    (hpings : (s₁.update r e' sent).pings x.other = s.pings x.other)
    (htx : e'.lastPingTxAt = e.lastPingTxAt) (hrx : e'.lastPing = e.lastPing) :
    Paced cfg T x h (s₁.update r e' sent) := by
  have hlast := hpaced.last
  have hheard := hpaced.heard
  rcases r.eq_or x with rfl | rfl
  · exact {
      chain := by
        rw [hpings]
        exact hpaced.chain
      last := by
        rw [hpings]
        simpa [he, htx] using hlast
      heard := by simpa [hends] using hheard }
  · exact {
      chain := by
        rw [hpings]
        exact hpaced.chain
      last := by
        rw [hpings]
        simpa [hends] using hlast
      heard := by simpa [he, hrx] using hheard }

theorem pings (hpaced : Paced cfg T x h s) (hsound : s.InOrder cfg) (he : s.ends x = some e)
    (hp : e.pinger = true) (hticks : s.TicksOnTime cfg) : Paced cfg T x h (s.update x
      { e with pinger := true, lastPingTxAt := some s.now, tickedAt := s.now } [.ping s.now]) where
  chain := by
    rw [update_pings_other, ← List.append_assoc]
    refine hpaced.chain.append (List.isChain_singleton _) fun a ha b hb hT => ?_
    obtain rfl : s.now = b := by simpa [HeartbeatFrame.ping?] using hb
    -- the new ping is sent at most a tick after it is due
    have hlast := hpaced.last a ha e he
    have hnext := (hsound.ends x e he).le_nextPing hp (hticks x e he)
    simp only [HeartbeatEnd.nextPing, hlast] at hnext
    have hpast := (hsound.ends x e he).pinged a hlast
    exact ⟨by linarith, by linarith⟩
  last := by simp [HeartbeatFrame.ping?]
  heard := by simpa using hpaced.heard

theorem hears {t : ℚ} (hpaced : Paced cfg T x h s) (hsound : s.InOrder cfg) (hin :
    s.inbox x.other = .ping t :: rest) :
    Paced cfg T x (some t) ((s.took x.other rest).update x.other
      (e.onPing cfg x.other s.now true) [.pong t s.now]) := by
  have hpings : s.pings x.other = t :: rest.filterMap (·.ping?) := by
    simp [Heartbeat.pings, hin, HeartbeatFrame.ping?]
  have hchain := hpaced.chain
  have hlast := hpaced.last
  rw [hpings] at hchain hlast
  exact {
    chain := by simpa using hchain.right_of_append
    last := by
      intro u hu e' he'
      have hrest : u ∈ (t :: rest.filterMap (·.ping?)).getLast? := by simpa using hu
      apply hlast u _ e' (by simpa using he')
      rw [List.getLast?_append, Option.mem_def.mp hrest]
      rfl
    heard := by
      intro u hu q hq
      obtain rfl : t = u := by simpa using hu
      obtain rfl : e.onPing cfg x.other s.now true = q := by simpa using hq
      have hpast := hsound.frames _ (.ping t) (hin ▸ List.mem_cons_self)
      have hnow : s.now ≤ (e.onPing cfg x.other s.now true).lastPing :=
        HeartbeatEnd.le_lastPing rfl
      exact hpast.trans hnow }

end Paced

theorem mem_pings_of_nextPing {t : ℚ} (h : t ∈ s.nextPing x) : t ∈ s.pings x := by
  cases hin : s.inbox x with
  | nil => simp [nextPing, hin] at h
  | cons f rest =>
    have hf : f.ping? = some t := by simpa [nextPing, hin] using h
    simp [pings, hin, hf]

theorem took_clear {f : HeartbeatFrame} (hin : s.inbox r = f :: rest) (h : s.pings x = []) :
    (s.took r rest).pings x = [] := by
  rcases r.eq_or x with rfl | rfl
  · rw [took_pings_self]
    unfold pings at h
    rw [hin] at h
    have hnone := List.filterMap_eq_nil_iff.mp h
    exact List.filterMap_eq_nil_iff.mpr fun f' hf' => hnone f' (List.mem_cons_of_mem _ hf')
  · simpa using h

namespace Settled

variable {x : PeerRole} {a : Act} {s' : Heartbeat}

theorem isOpen (h : s.Settled x) (r : PeerRole) : s.ends r ≠ none := by
  rcases x.eq_or r with rfl | rfl
  · obtain ⟨e, he, -⟩ := h.pinger
    simp [Option.mem_def.mp he]
  · obtain ⟨e, he, -⟩ := h.ponger
    simp [Option.mem_def.mp he]

/-- **A settled channel stays settled** where the ponger does not take over. -/
theorem move (h : s.Settled x) (hmove : Move cfg s a s')
    (hno : ∀ q ∈ s.ends x.other, a = .tick x.other → s.now < q.lastPing + cfg.takeoverMs) :
    s'.Settled x := by
  have hpinger : s'.IsPinger x := by
    apply isPinger_move hmove h.pinger
    intro e he hp _ hping
    obtain ⟨t, ht⟩ := Option.isSome_iff_exists.mp hping
    have hmem := mem_pings_of_nextPing ht
    simp [h.clear] at hmem
  -- the far end goes on answering and sends no ping
  have hupdate : ∀ (s₁ : Heartbeat) (r : PeerRole) (e₁ e' : HeartbeatEnd)
      (sent : List HeartbeatFrame), s₁.ends = s.ends → s₁.pings x = [] → s.ends r = some e₁ →
      (r = x.other → e₁.pinger = false → e'.pinger = false ∧ sent.filterMap (·.ping?) = []) →
      (s₁.update r e' sent).IsPonger x.other ∧ (s₁.update r e' sent).pings x = [] := by
    intro s₁ r e₁ e' sent hends hnil he₁ hkeeps
    obtain ⟨q, hq, hp⟩ := h.ponger
    rcases x.eq_or r with rfl | rfl
    · exact ⟨⟨q, by simpa [hends] using hq, hp⟩, by simpa using hnil⟩
    obtain rfl : q = e₁ := by simpa [he₁] using hq.symm
    obtain ⟨hp', hsent⟩ := hkeeps rfl hp
    refine ⟨⟨e', update_ends_self, hp'⟩, ?_⟩
    rw [update_pings]
    simp [hnil, hsent]
  have hrest : s'.IsPonger x.other ∧ s'.pings x = [] := by
    cases hmove with
    | still hidle | clock ht => exact ⟨h.ponger, h.clear⟩
    | opened hr => exact absurd hr (h.isOpen _)
    | quiet he hquiet | shown he => exact hupdate _ _ _ _ _ rfl h.clear he fun _ hp => ⟨hp, rfl⟩
    | pings he hdue =>
      refine hupdate _ _ _ _ _ rfl h.clear he ?_
      rintro rfl hp
      have hwait := hdue hp
      have hlate := hno _ he rfl
      have htie := cfg.tiebreakMs_nonneg
      unfold HeartbeatEnd.takeoverWait at hwait
      split at hwait <;> linarith
    | heard he hin =>
      refine hupdate _ _ _ _ _ rfl (took_clear hin h.clear) he fun _ hp => ⟨?_, rfl⟩
      apply Bool.eq_false_iff.mpr
      intro hp'
      rw [(HeartbeatEnd.onPing_pinger.mp hp').1] at hp
      cases hp
    | answered he hin =>
      exact hupdate _ _ _ _ _ rfl (took_clear hin h.clear) he fun _ hp => ⟨hp, rfl⟩
  exact ⟨hpinger, hrest.1, hrest.2⟩

end Settled

/-- **The pace is kept.** A ping that is heard is the last heard from then on. -/
theorem Paced.move {T : ℚ} {h : Option ℚ} {a : Act} (hpaced : Paced cfg T x h s)
    (hsound : s.InOrder cfg) (hs : s.Settled x) (hs' : s'.Settled x) (hticks : s.TicksOnTime cfg)
    (hmove : Move cfg s a s') :
    (∀ t ∈ s.nextPing x.other, a = .deliver x.other → Paced cfg T x (some t) s')
      ∧ ((∀ t ∈ s.nextPing x.other, a ≠ .deliver x.other) → Paced cfg T x h s') := by
  have hkeep : Paced cfg T x h s' → (∀ t ∈ s.nextPing x.other, a ≠ .deliver x.other) →
      (∀ t ∈ s.nextPing x.other, a = .deliver x.other → Paced cfg T x (some t) s')
        ∧ ((∀ t ∈ s.nextPing x.other, a ≠ .deliver x.other) → Paced cfg T x h s') :=
    fun hpaced' hnot => ⟨fun t ht ha => absurd ha (hnot t ht), fun _ => hpaced'⟩
  cases hmove with
  | still hidle =>
    refine hkeep hpaced ?_
    rintro t ht rfl
    rcases hidle _ rfl with hnone | hnil
    · exact hs.isOpen _ hnone
    · simp [nextPing, hnil] at ht
  | clock ht => exact hkeep ⟨hpaced.chain, hpaced.last, hpaced.heard⟩ (by simp)
  | opened hr => exact absurd hr (hs.isOpen _)
  | quiet he hquiet | shown he =>
    exact hkeep (hpaced.update_same he rfl (update_pings_nil _) rfl rfl) (by simp)
  | pings he hdue =>
    rename_i r e
    rcases x.eq_or r with rfl | rfl
    · obtain ⟨e', he', hp⟩ := hs.pinger
      obtain rfl : e' = e := by simpa [he] using he'.symm
      exact hkeep (hpaced.pings hsound he hp hticks) (by simp)
    · -- the ponger took over
      obtain ⟨q, hq, hp⟩ := hs'.ponger
      rw [update_ends_self] at hq
      cases hq
      cases hp
  | heard he hin =>
    rename_i r e t rest
    rcases x.eq_or r with rfl | rfl
    · have hclear := hs.clear
      simp [Heartbeat.pings, hin, HeartbeatFrame.ping?] at hclear
    have hnext : s.nextPing x.other = some t := by
      simp [nextPing, hin, HeartbeatFrame.ping?]
    refine ⟨fun u hu _ => ?_, fun hnot => absurd rfl (hnot t hnext)⟩
    obtain rfl : t = u := by simpa [hnext] using hu
    exact hpaced.hears hsound hin
  | answered he hin =>
    refine hkeep (hpaced.update_same he rfl (answered_pings hin _) rfl rfl) ?_
    rintro t ht ha
    obtain rfl : _ = x.other := Act.deliver.inj ha
    simp [nextPing, hin, HeartbeatFrame.ping?] at ht

theorem Paced.lt_of_nextPing {T : ℚ} {t u : ℚ} (h : Paced cfg T x (some t) s) (hT : T < t)
    (hu : u ∈ s.nextPing x.other) : T < u := by
  have hchain := h.chain
  cases hin : s.inbox x.other with
  | nil => simp [nextPing, hin] at hu
  | cons f rest =>
    have hf : f.ping? = some u := by simpa [nextPing, hin] using hu
    simp only [Heartbeat.pings, hin, List.filterMap_cons_some hf, Option.toList_some,
      List.singleton_append,
      List.isChain_cons_cons] at hchain
    exact (hchain.1 hT).1

/-- Both ends tick on time, and no frame takes so long that a ponger could take over meanwhile. -/
def Brisk (cfg : HeartbeatConfig) (s : Heartbeat) : Prop :=
  s.TicksOnTime cfg ∧ s.Delays (· < cfg.takeoverMs - cfg.pingIntervalMs - 2 * cfg.tickMs)

/-- A settled channel whose ponger heard a ping that was sent after `T`. -/
structure Steady (cfg : HeartbeatConfig) (T : ℚ) (x : PeerRole) (s : Heartbeat) : Prop where
  inOrder : s.InOrder cfg
  settled : s.Settled x
  paced : ∃ t, T < t ∧ Paced cfg T x (some t) s

theorem Steady.move {T : ℚ} {a : Act} (h : Steady cfg T x s) (hbrisk : s.Brisk cfg)
    (hpos : cfg.pingIntervalMs + 2 * cfg.tickMs < cfg.takeoverMs) (hmove : Move cfg s a s') :
    Steady cfg T x s' := by
  obtain ⟨t, hT, hpaced⟩ := h.paced
  have hno := hpaced.no_takeover hT h.inOrder h.settled.pinger hbrisk.1 hbrisk.2 hpos
  have hsettled := h.settled.move hmove fun q hq _ => hno q hq
  have hpaced' := hpaced.move h.inOrder h.settled hsettled hbrisk.1 hmove
  refine ⟨h.inOrder.move hmove, hsettled, ?_⟩
  by_cases hhear : ∀ u ∈ s.nextPing x.other, a ≠ .deliver x.other
  · exact ⟨t, hT, hpaced'.2 hhear⟩
  push Not at hhear
  obtain ⟨u, hu, ha⟩ := hhear
  exact ⟨u, hpaced.lt_of_nextPing hT hu, hpaced'.1 u hu ha⟩

/-- **A settled channel stays settled** once a ping has been sent and heard on time. -/
theorem settled_of_brisk {bs cs : List Act} (hsound : s.InOrder cfg)
    (hbrisk : Throughout (step cfg) (Brisk cfg) s (bs ++ .deliver x.other :: cs))
    (hsettled : Throughout (step cfg) (·.Settled x) s bs)
    (hping : ∃ t ∈ (run (step cfg) s bs).nextPing x.other, s.now < t) :
    Throughout (step cfg) (·.Settled x) (run (step cfg) s bs) (.deliver x.other :: cs) := by
  obtain ⟨hbefore, hafter⟩ := throughout_append.mp hbrisk
  -- up to the receipt: what was sent after `s.now` was sent on time
  have hpaced : (run (step cfg) s bs).InOrder cfg
      ∧ ∃ h, Paced cfg s.now x h (run (step cfg) s bs) := by
    refine Throughout.invariant
      (I := fun s' => s'.InOrder cfg ∧ ∃ h, Paced cfg s.now x h s') ?_ ⟨hsound, none, hsound.paced x⟩
      (hbefore.and hsettled)
    rintro s₁ a ⟨hsound₁, h, hpaced⟩ ⟨hbrisk₁, hsettled₁⟩ ⟨-, hsettled₂⟩
    have hmove := move_step cfg s₁ a
    have hpaced' := hpaced.move hsound₁ hsettled₁ hsettled₂ hbrisk₁.1 hmove
    refine ⟨hsound₁.move hmove, ?_⟩
    by_cases hhear : ∀ u ∈ s₁.nextPing x.other, a ≠ .deliver x.other
    · exact ⟨h, hpaced'.2 hhear⟩
    push Not at hhear
    obtain ⟨u, hu, ha⟩ := hhear
    exact ⟨some u, hpaced'.1 u hu ha⟩
  obtain ⟨hsound₁, h, hpaced⟩ := hpaced
  obtain ⟨t, ht, hlt⟩ := hping
  have hsettled₁ := hsettled.last
  -- a ping that is on its way takes less than a takeover
  have hpos : cfg.pingIntervalMs + 2 * cfg.tickMs < cfg.takeoverMs := by
    have hmem := mem_inbox_of_mem_pings (mem_pings_of_nextPing ht)
    have hpast := hsound₁.frames _ _ hmem
    have hdelay := hafter.first.2 _ _ hmem
    linarith
  have hmove := move_step cfg (run (step cfg) s bs) (.deliver x.other)
  have hsettled₂ := hsettled₁.move hmove (by simp)
  have hpaced₂ := (hpaced.move hsound₁ hsettled₁ hsettled₂ hafter.first.1 hmove).1 t ht rfl
  have hsteady : Steady cfg s.now x (step cfg (run (step cfg) s bs) (.deliver x.other)) :=
    ⟨hsound₁.move hmove, hsettled₂, t, hlt, hpaced₂⟩
  exact ⟨hsettled₁, hafter.2.safety (I := Steady cfg s.now x)
    (fun s' a h hbrisk' _ => h.move hbrisk' hpos (move_step cfg s' a)) (fun _ h _ => h.settled)
    hsteady⟩

/-! ### On time from the opening -/

/-- Both ends tick on time, no frame takes longer than `δ`, and neither does the opening of the
other end. -/
def Prompt (cfg : HeartbeatConfig) (δ : ℚ) (s : Heartbeat) : Prop :=
  s.TicksOnTime cfg ∧ s.Delays (· ≤ δ) ∧ s.OpensWithin (· ≤ δ)

/-- Whoever has a ping on its way to the other is open and sent one. -/
theorem InOrder.sent_of_pings (h : s.InOrder cfg) (hx : s.pings x.other ≠ []) :
    ∃ e ∈ s.ends x, e.lastPingTxAt ≠ none := by
  have hin : s.inbox x.other ≠ [] := by
    intro hnil
    simp [pings, hnil] at hx
  obtain ⟨e, he, hlast⟩ := h.sender x hin
  refine ⟨e, he, ?_⟩
  rw [hlast _ (List.getLast?_eq_getLast_of_ne_nil hx)]
  simp

/-- On time, the offerer gives the role up only before its first ping, to a responder that took it;
the responder gives it up only to an offerer that pings. -/
structure Roles (s : Heartbeat) : Prop where
  kept : ∀ o ∈ s.ends .offerer, o.lastPingTxAt ≠ none → o.pinger = true
  yielded : ∀ o ∈ s.ends .offerer, o.pinger = false →
    ∃ q ∈ s.ends .responder, q.lastPingTxAt ≠ none
  taken : ∀ q ∈ s.ends .responder, q.lastPingTxAt ≠ none →
    (∀ o ∈ s.ends .offerer, o.lastPingTxAt = none) → q.pinger = true

namespace Roles

theorem init : Roles init where
  kept := by simp [Heartbeat.init]
  yielded := by simp [Heartbeat.init]
  taken := by simp [Heartbeat.init]

/-- **One of two open ends pings.** -/
theorem some_pinger (h : s.Roles) (hopen : ∀ x, s.ends x ≠ none) (x : PeerRole) :
    s.IsPinger x ∨ s.IsPinger x.other := by
  obtain ⟨o, ho⟩ := Option.ne_none_iff_exists'.mp (hopen .offerer)
  cases hp : o.pinger with
  | true =>
    have hoff : s.IsPinger .offerer := ⟨o, ho, hp⟩
    cases x with
    | offerer => exact .inl hoff
    | responder => exact .inr hoff
  | false =>
    obtain ⟨q, hq, hsent⟩ := h.yielded o ho hp
    have hres : s.IsPinger .responder := by
      refine ⟨q, hq, h.taken q hq hsent fun o' ho' => ?_⟩
      obtain rfl : o = o' := by simpa [ho] using ho'
      by_contra hne
      rw [h.kept o ho hne] at hp
      cases hp
    cases x with
    | offerer => exact .inr hres
    | responder => exact .inl hres

theorem update_same {s₁ : Heartbeat} {e' : HeartbeatEnd} (h : s.Roles) (he : s.ends r = some e)
    (hends : s₁.ends = s.ends) (hp : e'.pinger = e.pinger)
    (htx : e'.lastPingTxAt = e.lastPingTxAt) : (s₁.update r e' sent).Roles where
  kept := by
    have hkept := h.kept
    cases r <;> simpa [update_ends, hends, he, hp, htx] using hkept
  yielded := by
    have hyielded := h.yielded
    cases r <;> simpa [update_ends, hends, he, hp, htx] using hyielded
  taken := by
    have htaken := h.taken
    cases r <;> simpa [update_ends, hends, he, hp, htx] using htaken

theorem opened (h : s.Roles) (hr : s.ends r = none) :
    (s.update r (.openHeartbeat r s.now) []).Roles := by
  cases r with
  | offerer =>
    have htaken := h.taken
    exact {
      kept := by simp [HeartbeatEnd.openHeartbeat]
      yielded := by simp [HeartbeatEnd.openHeartbeat]
      taken := by
        simpa [update_ends, HeartbeatEnd.openHeartbeat, hr] using htaken }
  | responder =>
    have hkept := h.kept
    have hyielded := h.yielded
    exact {
      kept := by simpa [update_ends] using hkept
      yielded := by simpa [update_ends, HeartbeatEnd.openHeartbeat, hr] using hyielded
      taken := by simp [HeartbeatEnd.openHeartbeat] }

theorem pings (h : s.Roles) (he : s.ends r = some e) :
    (s.update r { e with pinger := true, lastPingTxAt := some s.now, tickedAt := s.now }
      sent).Roles := by
  cases r with
  | offerer =>
    exact {
      kept := by simp
      yielded := by simp
      taken := by simp [update_ends] }
  | responder =>
    have hkept := h.kept
    exact {
      kept := by simpa [update_ends] using hkept
      yielded := by simp [update_ends]
      taken := by simp }

theorem hears {t : ℚ} (h : s.Roles) (hsound : s.InOrder cfg) (hticks : s.TicksOnTime cfg)
    (he : s.ends r = some e) (hin : s.inbox r = .ping t :: rest) :
    ((s.took r rest).update r (e.onPing cfg r s.now true) sent).Roles := by
  have hpings : s.pings r ≠ [] := by
    simp [Heartbeat.pings, hin, HeartbeatFrame.ping?]
  cases r with
  | offerer =>
    have hkept : e.lastPingTxAt ≠ none → (e.onPing cfg .offerer s.now true).pinger = true := by
      intro hsent
      have hp := h.kept e he hsent
      obtain ⟨u, hu⟩ := Option.ne_none_iff_exists'.mp hsent
      -- a pinger that ticks on time is actively sending
      have hnext := (hsound.ends _ e he).le_nextPing hp (hticks _ e he)
      simp only [HeartbeatEnd.nextPing, hu] at hnext
      exact HeartbeatEnd.onPing_pinger.mpr
        ⟨hp, HeartbeatEnd.active_iff.mpr ⟨u, hu, by linarith⟩, rfl⟩
    have htaken := h.taken
    exact {
      kept := by simpa using hkept
      yielded := by
        intro o _ _
        simpa [update_ends] using hsound.sent_of_pings (x := .responder) hpings
      taken := by simpa [update_ends, he] using htaken }
  | responder =>
    have hkept := h.kept
    have hyielded := h.yielded
    exact {
      kept := by simpa [update_ends] using hkept
      yielded := by simpa [update_ends, he] using hyielded
      taken := by
        intro q _ _ hall
        obtain ⟨o, ho, hsent⟩ := hsound.sent_of_pings (x := .offerer) hpings
        exact absurd (hall o (by simpa [update_ends] using ho)) hsent }

theorem move {a : Act} {s' : Heartbeat} (h : s.Roles) (hsound : s.InOrder cfg)
    (hticks : s.TicksOnTime cfg) (hmove : Move cfg s a s') : s'.Roles := by
  cases hmove with
  | still hidle => exact h
  | clock ht => exact ⟨h.kept, h.yielded, h.taken⟩
  | opened hr => exact h.opened hr
  | quiet he hquiet | answered he hin | shown he => exact h.update_same he rfl rfl rfl
  | pings he hdue => exact h.pings he
  | heard he hin => exact h.hears hsound hticks he hin

end Roles

/-- **What an end will hear by `B`.** A frame is on its way, or will be: a ping to the far end is
answered, and a pinger pings. -/
inductive Supply (cfg : HeartbeatConfig) (δ : ℚ) (s : Heartbeat) (x : PeerRole) (B : ℚ) : Prop
  | frame {f : HeartbeatFrame} (hf : f ∈ s.inbox x) (h : f.sentAt + δ ≤ B)
  | echo {t : ℚ} (ht : .ping t ∈ s.inbox x.other) (h : t + 2 * δ ≤ B)
  | own {e : HeartbeatEnd} (he : s.ends x = some e) (hp : e.pinger = true)
      (h : e.nextPing cfg + cfg.tickMs + 2 * δ ≤ B)
  | far {q : HeartbeatEnd} (hq : s.ends x.other = some q) (hp : q.pinger = true)
      (h : q.nextPing cfg + cfg.tickMs + δ ≤ B)
  /-- The offerer will open, as the pinger. -/
  | alone {e : HeartbeatEnd} (he : s.ends x = some e) (hx : x = .responder)
      (hnone : s.ends x.other = none) (h : e.openedAt + cfg.tickMs + 2 * δ ≤ B)

namespace Supply

variable {δ B : ℚ} {x : PeerRole}

theorem le (h : Supply cfg δ s x B) (hsound : s.InOrder cfg) (hprompt : s.Prompt cfg δ)
    (hδ : 0 ≤ δ) : s.now ≤ B := by
  obtain ⟨hticks, hdelays, hopens⟩ := hprompt
  have hnonneg := cfg.tickMs_nonneg
  cases h with
  | frame hf h =>
    have hdelay := hdelays _ _ hf
    linarith
  | echo ht h =>
    have hdelay := hdelays _ _ ht
    simp only [HeartbeatFrame.sentAt] at hdelay
    linarith
  | own he hp h =>
    have hnext := (hsound.ends _ _ he).le_nextPing hp (hticks _ _ he)
    linarith
  | far hq hp h =>
    have hnext := (hsound.ends _ _ hq).le_nextPing hp (hticks _ _ hq)
    linarith
  | alone he hx hnone h =>
    have hopen := hopens _ _ he hnone
    linarith

/-- Between two open ends, one of which pings, each hears something soon. -/
theorem fresh (hsound : s.InOrder cfg) (hroles : s.Roles) (hopen : ∀ y, s.ends y ≠ none)
    (hδ : 0 ≤ δ) (hcfg : cfg.pingIntervalMs + cfg.tickMs + 2 * δ ≤ cfg.deadMs) :
    Supply cfg δ s x (s.now + cfg.deadMs) := by
  rcases hroles.some_pinger hopen x with ⟨e, he, hp⟩ | ⟨q, hq, hp⟩
  · have hnext := (hsound.ends _ e he).nextPing_le
    exact .own he hp (by linarith)
  · have hnext := (hsound.ends _ q hq).nextPing_le
    exact .far hq hp (by linarith)

theorem opened (hsound : s.InOrder cfg) (hroles : s.Roles) (hr : s.ends r = none) (hδ : 0 ≤ δ)
    (hcfg : cfg.pingIntervalMs + cfg.tickMs + 2 * δ ≤ cfg.deadMs) :
    Supply cfg δ (s.update r (.openHeartbeat r s.now) []) r (s.now + cfg.deadMs) := by
  have hnonneg := cfg.pingIntervalMs_nonneg
  have hsound' := hsound.move (Move.opened hr)
  have hroles' := hroles.opened hr
  cases hother : s.ends r.other with
  | some q =>
    refine fresh hsound' hroles' (fun y => ?_) hδ hcfg
    rcases r.eq_or y with rfl | rfl
    · simp
    · simp [hother]
  | none =>
    cases r with
    | offerer =>
      refine .own update_ends_self rfl ?_
      simp only [HeartbeatEnd.nextPing, HeartbeatEnd.openHeartbeat]
      linarith
    | responder =>
      refine .alone update_ends_self rfl (by simpa [update_ends] using hother) ?_
      simp only [HeartbeatEnd.openHeartbeat]
      linarith

theorem clock {t : ℚ} (h : Supply cfg δ s x B) : Supply cfg δ { s with now := t } x B := by
  cases h with
  | frame hf h => exact .frame hf h
  | echo ht h => exact .echo ht h
  | own he hp h => exact .own he hp h
  | far hq hp h => exact .far hq hp h
  | alone he hx hnone h => exact .alone he hx hnone h

/-- What leaves the roles and the pings' times alone and loses no frame for `x` and no ping of its
own leaves its supply alone. -/
theorem update_same {s₁ : Heartbeat} {e' : HeartbeatEnd} (h : Supply cfg δ s x B)
    (he : s.ends r = some e) (hends : s₁.ends = s.ends) (hin : ∀ f ∈ s.inbox x, f ∈ s₁.inbox x)
    (hping : ∀ t, .ping t ∈ s.inbox x.other → .ping t ∈ s₁.inbox x.other)
    (hp : e'.pinger = e.pinger) (htx : e'.lastPingTxAt = e.lastPingTxAt)
    (hopened : e'.openedAt = e.openedAt) : Supply cfg δ (s₁.update r e' sent) x B := by
  have hnext : e'.nextPing cfg = e.nextPing cfg := by
    unfold HeartbeatEnd.nextPing
    rw [htx, hopened]
  have hmem : ∀ y, ∀ f ∈ s₁.inbox y, f ∈ (s₁.update r e' sent).inbox y := by
    intro y f hf
    rw [update_inbox]
    split
    next hy => exact List.mem_append_left _ (hy ▸ hf)
    · exact hf
  cases h with
  | frame hf h => exact .frame (hmem _ _ (hin _ hf)) h
  | echo ht h => exact .echo (hmem _ _ (hping _ ht)) h
  | own he₁ hp₁ h =>
    rcases r.eq_or x with rfl | rfl
    · obtain rfl : e = _ := by simpa [he₁] using he.symm
      exact .own update_ends_self (hp.trans hp₁) (by linarith)
    · exact .own (by simpa [hends] using he₁) hp₁ h
  | far hq hp₁ h =>
    rcases r.eq_or x with rfl | rfl
    · exact .far (by simpa [hends] using hq) hp₁ h
    rw [PeerRole.other_other] at hq
    obtain rfl : e = _ := by simpa [hq] using he.symm
    exact .far (by simp) (hp.trans hp₁) (by linarith)
  | alone he₁ hx hnone h =>
    rcases r.eq_or x with rfl | rfl
    · obtain rfl : e = _ := by simpa [he₁] using he.symm
      exact .alone update_ends_self hx (by simpa [hends] using hnone) (by linarith)
    · rw [PeerRole.other_other, he] at hnone
      cases hnone

theorem pings (h : Supply cfg δ s x B) (hsound : s.InOrder cfg) (hticks : s.TicksOnTime cfg)
    (he : s.ends r = some e) : Supply cfg δ (s.update r
      { e with pinger := true, lastPingTxAt := some s.now, tickedAt := s.now }
        [.ping s.now]) x B := by
  rcases r.eq_or x with rfl | rfl
  · cases h with
    | frame hf h => exact .frame (by simpa using hf) h
    | echo ht h => exact .echo (by simpa using .inl ht) h
    | own he₁ hp h =>
      -- the ping that was due is on its way, and its pong will be
      have hnext := (hsound.ends _ _ he₁).le_nextPing hp (hticks _ _ he₁)
      exact .echo (t := s.now) (by simp) (by linarith)
    | far hq hp h => exact .far (by simpa using hq) hp h
    | alone he₁ hx hnone h =>
      obtain rfl : e = _ := by simpa [he₁] using he.symm
      exact .alone update_ends_self hx (by simpa using hnone) h
  · cases h with
    | frame hf h => exact .frame (by simpa using .inl hf) h
    | echo ht h => exact .echo (by simpa using ht) h
    | own he₁ hp h => exact .own (by simpa using he₁) hp h
    | far hq hp h =>
      have hnext := (hsound.ends _ _ hq).le_nextPing hp (hticks _ _ hq)
      refine .frame (f := .ping s.now) (by simp) ?_
      simp only [HeartbeatFrame.sentAt]
      linarith
    | alone he₁ hx hnone h =>
      rw [PeerRole.other_other, he] at hnone
      cases hnone

/-- A ping is heard and answered: its sender will hear the pong. -/
theorem hears {t : ℚ} (h : Supply cfg δ s r.other B) (hsound : s.InOrder cfg)
    (hprompt : s.Prompt cfg δ) (he : s.ends r = some e) (hin : s.inbox r = .ping t :: rest) :
    Supply cfg δ ((s.took r rest).update r (e.onPing cfg r s.now true) [.pong t s.now])
      r.other B := by
  have hpong : s.now + δ ≤ B → Supply cfg δ
      ((s.took r rest).update r (e.onPing cfg r s.now true) [.pong t s.now]) r.other B :=
    fun hle => .frame (f := .pong t s.now) (by simp) hle
  cases h with
  | frame hf h => exact .frame (by simpa using .inl hf) h
  | echo ht h =>
    rw [PeerRole.other_other, hin] at ht
    rcases List.mem_cons.mp ht with heq | hmem
    · obtain rfl : _ = t := HeartbeatFrame.ping.inj heq
      have hdelay := hprompt.2.1 r _ (hin ▸ List.mem_cons_self)
      simp only [HeartbeatFrame.sentAt] at hdelay
      exact hpong (by linarith)
    · exact .echo (by simpa using hmem) h
  | own he₁ hp h => exact .own (by simpa using he₁) hp h
  | far hq hp h =>
    have hnext := (hsound.ends _ _ hq).le_nextPing hp (hprompt.1 _ _ hq)
    exact hpong (by linarith)
  | alone he₁ hx hnone h =>
    rw [PeerRole.other_other, he] at hnone
    cases hnone

/-- The other end opens. -/
theorem opens (h : Supply cfg δ s r.other B) (hprompt : s.Prompt cfg δ) (hr : s.ends r = none) :
    Supply cfg δ (s.update r (.openHeartbeat r s.now) []) r.other B := by
  cases h with
  | frame hf h => exact .frame (by simpa using hf) h
  | echo ht h => exact .echo (by simpa using ht) h
  | own he hp h => exact .own (by simpa using he) hp h
  | far hq hp h =>
    rw [PeerRole.other_other, hr] at hq
    cases hq
  | alone he hx hnone h =>
    cases r with
    | offerer =>
      have hopen := hprompt.2.2 _ _ he hnone
      refine .far (q := .openHeartbeat .offerer s.now) (by simp) rfl ?_
      simp only [HeartbeatEnd.nextPing, HeartbeatEnd.openHeartbeat]
      linarith
    | responder => cases hx

end Supply

/-- What an open end has heard, and what it will hear in time. -/
structure Fed (cfg : HeartbeatConfig) (δ : ℚ) (s : Heartbeat) : Prop where
  inOrder : s.InOrder cfg
  roles : s.Roles
  wide : ∀ x, s.ends x ≠ none → 0 ≤ δ
  supply : ∀ x, ∀ e ∈ s.ends x, Supply cfg δ s x (e.lastRxAt + cfg.deadMs)

namespace Fed

variable {δ : ℚ}

theorem init (cfg : HeartbeatConfig) (δ : ℚ) : Fed cfg δ init where
  inOrder := inOrder_init cfg
  roles := .init
  wide := by simp [Heartbeat.init]
  supply := by simp [Heartbeat.init]

/-- **No end of a channel that is on time is evicted.** -/
theorem not_evicts (h : Fed cfg δ s) (hprompt : s.Prompt cfg δ) (x : PeerRole) :
    ¬ s.Evicts cfg x := by
  rintro ⟨e, he, hverdict⟩
  have hδ := h.wide x (by simp [Option.mem_def.mp he])
  have hle := (h.supply x e he).le h.inOrder hprompt hδ
  have hrx := e.lastRxAt_le_lastRx
  have hlive : ¬ cfg.deadMs < s.now - e.lastRx := by linarith
  unfold HeartbeatEnd.reapTick at hverdict
  simp only [hlive, if_false] at hverdict
  split at hverdict
  · cases hverdict
  · split at hverdict <;> cases hverdict

theorem update_isOpen {s₁ : Heartbeat} (hopen : ∀ x, s₁.ends x ≠ none) (x : PeerRole) :
    (s₁.update r e sent).ends x ≠ none := by
  rw [update_ends]
  split
  · simp
  · exact hopen x

theorem update_wide {e' : HeartbeatEnd} (he : s.ends r = some e)
    (h : ∀ x, s.ends x ≠ none → 0 ≤ δ) (x : PeerRole) :
    (s.update r e' sent).ends x ≠ none → 0 ≤ δ :=
  fun _ => h r (by simp [he])

/-- The supply of the end that acts and that of the other make up the supply. -/
theorem supply_of {s' : Heartbeat} {e' : HeartbeatEnd} (he' : s'.ends r = some e')
    (hself : Supply cfg δ s' r (e'.lastRxAt + cfg.deadMs))
    (hother : ∀ q ∈ s'.ends r.other, Supply cfg δ s' r.other (q.lastRxAt + cfg.deadMs)) :
    ∀ x, ∀ e ∈ s'.ends x, Supply cfg δ s' x (e.lastRxAt + cfg.deadMs) := by
  intro x e he
  rcases r.eq_or x with rfl | rfl
  · obtain rfl : e' = e := by simpa [he'] using he
    exact hself
  · exact hother e he

theorem move {a : Act} {s' : Heartbeat} (h : Fed cfg δ s) (hprompt : s.Prompt cfg δ)
    (hprompt' : s'.Prompt cfg δ)
    (hcfg : cfg.pingIntervalMs + cfg.tickMs + 2 * δ ≤ cfg.deadMs) (hmove : Move cfg s a s') :
    Fed cfg δ s' := by
  have hsound' := h.inOrder.move hmove
  have hroles' := h.roles.move h.inOrder hprompt.1 hmove
  cases hmove with
  | still hidle => exact h
  | clock ht => exact ⟨hsound', hroles', h.wide, fun x e he => (h.supply x e he).clock⟩
  | opened hr =>
    rename_i r
    have hδ : 0 ≤ δ := by
      cases hother : s.ends r.other with
      | some q => exact h.wide r.other (by simp [hother])
      | none =>
        have hopen := hprompt'.2.2 r _ update_ends_self (by simpa using hother)
        simpa [HeartbeatEnd.openHeartbeat] using hopen
    refine ⟨hsound', hroles', fun _ _ => hδ, supply_of update_ends_self
      (.opened h.inOrder h.roles hr hδ hcfg) fun q hq => ?_⟩
    exact (h.supply _ q (by simpa using hq)).opens hprompt hr
  | quiet he hquiet | shown he =>
    refine ⟨hsound', hroles', update_wide he h.wide, supply_of update_ends_self
      ((h.supply _ _ he).update_same he rfl (by simp) (by simp) rfl rfl rfl) fun q hq => ?_⟩
    exact (h.supply _ q (by simpa using hq)).update_same he rfl (by simp) (by simp) rfl rfl rfl
  | pings he hdue =>
    refine ⟨hsound', hroles', update_wide he h.wide, supply_of update_ends_self
      ((h.supply _ _ he).pings h.inOrder hprompt.1 he) fun q hq => ?_⟩
    exact (h.supply _ q (by simpa using hq)).pings h.inOrder hprompt.1 he
  | heard he hin =>
    have hopen := h.inOrder.isOpen he hin
    have hδ := h.wide _ (hopen .offerer)
    refine ⟨hsound', hroles', fun _ _ => hδ, supply_of update_ends_self
      (.fresh hsound' hroles' (update_isOpen hopen) hδ hcfg) fun q hq => ?_⟩
    exact (h.supply _ q (by simpa using hq)).hears h.inOrder hprompt he hin
  | answered he hin =>
    have hopen := h.inOrder.isOpen he hin
    have hδ := h.wide _ (hopen .offerer)
    refine ⟨hsound', hroles', fun _ _ => hδ, supply_of update_ends_self
      (.fresh hsound' hroles' (update_isOpen hopen) hδ hcfg) fun q hq => ?_⟩
    refine (h.supply _ q (by simpa using hq)).update_same he rfl (by simp) ?_ rfl rfl rfl
    simp [hin]

end Fed

/-! ### The heartbeat -/

/-- **What the heartbeat is good for.** Whoever pings, with no more pings on their way the offerer
alone does, if every pinger that heard one was actively sending. One pinger that is heard on time
stays the one. Where all is on time from the opening no end is evicted. -/
theorem heartbeat_settles (cfg : HeartbeatConfig) :
    (∀ as bs : List Act, cfg.pingIntervalMs + cfg.tickMs < cfg.takeoverMs →
      (run (step cfg) init as).IsPinger .offerer →
      (run (step cfg) init as).IsPinger .responder →
      EachStep (step cfg) (HearsActive cfg) (run (step cfg) init as) bs →
      (∀ x, (run (step cfg) init (as ++ bs)).pings x = []) →
      (run (step cfg) init (as ++ bs)).IsPinger .offerer
        ∧ ¬ (run (step cfg) init (as ++ bs)).IsPinger .responder)
    ∧ (∀ (as bs cs : List Act) (x : PeerRole),
      Throughout (step cfg) (fun s => s.TicksOnTime cfg
          ∧ s.Delays (· < cfg.takeoverMs - cfg.pingIntervalMs - 2 * cfg.tickMs))
        (run (step cfg) init as) (bs ++ .deliver x.other :: cs) →
      Throughout (step cfg) (·.Settled x) (run (step cfg) init as) bs →
      (∃ t ∈ (run (step cfg) init (as ++ bs)).nextPing x.other,
        (run (step cfg) init as).now < t) →
      Throughout (step cfg) (·.Settled x) (run (step cfg) init (as ++ bs))
        (.deliver x.other :: cs))
    ∧ ∀ (as : List Act) (δ : ℚ), δ ≤ (cfg.deadMs - cfg.pingIntervalMs - 2 * cfg.tickMs) / 2 →
      Throughout (step cfg)
        (fun s => s.TicksOnTime cfg ∧ s.Delays (· ≤ δ) ∧ s.OpensWithin (· ≤ δ)) init as →
      Throughout (step cfg) (fun s => ∀ x, ¬ s.Evicts cfg x) init as := by
  refine ⟨fun as bs hcfg ho _ hactive hnil => ?_, fun as bs cs x hbrisk hsettled hping => ?_,
    fun as δ hδ hprompt => ?_⟩
  · have hcontest := contest_run hcfg (as ++ bs)
    have hoff := isPinger_of_hearsActive ho hactive
    rw [← run_append] at hoff
    exact ⟨hoff, hcontest.ponger_responder hoff hnil⟩
  · rw [run_append] at hping ⊢
    exact settled_of_brisk (inOrder_run cfg as) hbrisk hsettled hping
  · have hnonneg := cfg.tickMs_nonneg
    have hcfg : cfg.pingIntervalMs + cfg.tickMs + 2 * δ ≤ cfg.deadMs := by linarith
    exact hprompt.safety (I := Fed cfg δ)
      (fun s a h h₁ h₂ => h.move h₁ h₂ hcfg (move_step cfg s a)) (fun s h h₁ => h.not_evicts h₁)
      (.init cfg δ)

/-- A crossing, a channel that stays settled and one that is on time, under the defaults. -/
theorem heartbeat_settles_defaults :
    ((run (step heartbeatDefaults) init
        ([.onopen .responder, .wait 5000, .tick .responder, .onopen .offerer, .tick .offerer]
          ++ [.deliver .offerer, .deliver .responder])).IsPinger .offerer
      ∧ ¬ (run (step heartbeatDefaults) init
        ([.onopen .responder, .wait 5000, .tick .responder, .onopen .offerer, .tick .offerer]
          ++ [.deliver .offerer, .deliver .responder])).IsPinger .responder)
    ∧ Throughout (step heartbeatDefaults) (·.Settled .offerer)
      (run (step heartbeatDefaults) init
        ([.onopen .offerer, .onopen .responder] ++ [.wait 1000, .tick .offerer]))
      (.deliver .responder :: [.tick .responder, .deliver .offerer, .wait 2000])
    ∧ Throughout (step heartbeatDefaults) (fun s => ∀ x, ¬ s.Evicts heartbeatDefaults x) init
      [.onopen .responder, .wait 1000, .tick .responder, .onopen .offerer, .tick .offerer,
        .wait 2000] :=
  ⟨(heartbeat_settles heartbeatDefaults).1 _ _ (by decide +kernel) (by decide +kernel)
      (by decide +kernel) (by decide +kernel) (by decide +kernel),
    (heartbeat_settles heartbeatDefaults).2.1 _ _ _ .offerer (by decide +kernel)
      (by decide +kernel) ⟨1000, by decide +kernel⟩,
    (heartbeat_settles heartbeatDefaults).2.2 _ 8000 (by decide +kernel) (by decide +kernel)⟩

/-- **Where it is not.** Two pingers and no ping on its way, if a takeover comes before a pinger
passes for stalled. A settled channel that is on time, but was not before, and comes to two pingers.
An end evicted although the ticks and frames are on time, as the other opened late. -/
theorem heartbeat_unsettled :
    (∃ (cfg : HeartbeatConfig) (as : List Act),
      (run (step cfg) init as).IsPinger .offerer ∧ (run (step cfg) init as).IsPinger .responder
        ∧ ∀ x, (run (step cfg) init as).pings x = [])
    ∧ (∃ as cs : List Act,
      (run (step heartbeatDefaults) init as).Settled .offerer
        ∧ Throughout (step heartbeatDefaults)
          (fun s => s.TicksOnTime heartbeatDefaults ∧ s.Delays (· < 5000 - 2000 - 2 * 1000))
          (run (step heartbeatDefaults) init as) cs
        ∧ (run (step heartbeatDefaults) init (as ++ cs)).IsPinger .offerer
        ∧ (run (step heartbeatDefaults) init (as ++ cs)).IsPinger .responder)
    ∧ ∃ as : List Act,
      Throughout (step heartbeatDefaults)
          (fun s => s.TicksOnTime heartbeatDefaults
            ∧ s.Delays (· ≤ (20000 - 2000 - 2 * 1000) / 2)) init as
        ∧ (run (step heartbeatDefaults) init as).Evicts heartbeatDefaults .responder := by
  refine ⟨⟨{ heartbeatDefaults with pingIntervalMs := 2, takeoverMs := 2, tickMs := 1 },
      [.onopen .offerer, .onopen .responder, .tick .offerer, .deliver .responder, .wait 2,
        .tick .responder, .deliver .offerer, .deliver .offerer], by decide +kernel⟩,
    ⟨[.onopen .offerer, .onopen .responder, .tick .offerer, .deliver .responder,
        .deliver .offerer, .wait 4000, .tick .responder, .wait 4500, .tick .offerer],
      [.wait 5000, .tick .responder], by decide +kernel⟩,
    ⟨.onopen .responder ::
        (List.range 13).flatMap (fun k => [.wait (1000 * (k + 1)), .tick .responder])
        ++ [.onopen .offerer, .deliver .offerer]
        ++ (List.range 7).flatMap (fun k => [.wait (1000 * (k + 14)), .tick .responder,
          .tick .offerer] ++ if k % 2 = 1 then [.deliver .offerer] else [])
        ++ [.wait 20001], by decide +kernel⟩⟩

end Heartbeat

end Axona
