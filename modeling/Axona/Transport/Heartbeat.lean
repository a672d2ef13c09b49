import Axona.Transport.Negotiation

/-! # The heartbeat of a channel

Of the two ends of an open channel one pings and the other answers. Which one it is changes: a ponger
that hears no ping takes the role over, a pinger that hears one may give it up. Whatever is received,
ping or pong, moves the clock by which an end judges the other one dead.

The channel is ordered and delivers each frame once. Both ends speak the protocol, so no ping is
without its marker; what the code measures of a round trip decides nothing and is left out. An end
compares its own readings of the clock only, so one `now` does for both. -/

namespace Axona

/-- The `heartbeat` option. -/
structure HeartbeatConfig where
  pingIntervalMs : ℚ
  takeoverMs : ℚ
  tiebreakMs : ℚ
  staleMs : ℚ
  deadMs : ℚ
  tickMs : ℚ
  pingIntervalMs_nonneg : 0 ≤ pingIntervalMs := by decide
  tiebreakMs_nonneg : 0 ≤ tiebreakMs := by decide
  tickMs_nonneg : 0 ≤ tickMs := by decide

/-- `HEARTBEAT_DEFAULTS` -/
def heartbeatDefaults : HeartbeatConfig where
  pingIntervalMs := 2000
  takeoverMs := 5000
  tiebreakMs := 1000
  staleMs := 10000
  deadMs := 20000
  tickMs := 1000

namespace PeerRole

/-- The far end. -/
def other : PeerRole → PeerRole
  | offerer => responder
  | responder => offerer

@[simp] theorem other_offerer : other offerer = responder := rfl

@[simp] theorem other_responder : other responder = offerer := rfl

@[simp] theorem other_other (r : PeerRole) : r.other.other = r := by
  cases r <;> rfl

theorem other_ne (r : PeerRole) : r.other ≠ r := by
  cases r <;> rintro ⟨⟩

theorem eq_or (r x : PeerRole) : x = r ∨ x = r.other := by
  cases r <;> cases x <;> simp [other]

/-- What is decided at both ends is decided. -/
instance decidableForall (p : PeerRole → Prop) [∀ r, Decidable (p r)] : Decidable (∀ r, p r) :=
  decidable_of_iff (p offerer ∧ p responder)
    ⟨fun h r => by cases r with | offerer => exact h.1 | responder => exact h.2,
      fun h => ⟨h _, h _⟩⟩

end PeerRole

/-! ### One end -/

/-- A frame of the heartbeat. A pong echoes the `t` of its ping. -/
inductive HeartbeatFrame where
  | ping (t : ℚ)
  | pong (t peerT : ℚ)
deriving DecidableEq, Repr

/-- When a frame was sent. -/
def HeartbeatFrame.sentAt : HeartbeatFrame → ℚ
  | ping t => t
  | pong _ peerT => peerT

/-- The `t` of a ping. -/
def HeartbeatFrame.ping? : HeartbeatFrame → Option ℚ
  | ping t => some t
  | pong _ _ => none

/-- What an end keeps of an open channel; a time of `0` is `none` here. `stale` is what is shown of
the channel. `tickedAt` is when the end last ticked, or opened: the code does not have it. -/
structure HeartbeatEnd where
  pinger : Bool
  openedAt : ℚ
  lastPingTxAt : Option ℚ
  lastPingRxAt : Option ℚ
  lastRxAt : ℚ
  lastPongAt : Option ℚ
  peerLegacy : Bool
  stale : Bool
  tickedAt : ℚ
deriving DecidableEq, Repr

inductive ReapVerdict where
  | reapedPong
  | stale
  | recovered
  | live
deriving DecidableEq, Repr

namespace HeartbeatEnd

variable (cfg : HeartbeatConfig) (role : PeerRole) (now : ℚ) (e : HeartbeatEnd)

/-- `_openHeartbeat` -/
def openHeartbeat : HeartbeatEnd where
  pinger := role = .offerer
  openedAt := now
  lastPingTxAt := none
  lastPingRxAt := none
  lastRxAt := now
  lastPongAt := none
  peerLegacy := false
  stale := false
  tickedAt := now

/-- The last ping that was received or, before the first, the opening. -/
def lastPing : ℚ := max (e.lastPingRxAt.getD e.openedAt) e.openedAt

/-- How long a ponger bears with silence. -/
def takeoverWait : ℚ := cfg.takeoverMs + if role = .offerer then cfg.tiebreakMs else 0

/-- An end that sent a ping of its own not long ago. -/
def active : Bool :=
  match e.lastPingTxAt with
  | none => false
  | some t => now - t ≤ cfg.pingIntervalMs + cfg.tickMs

/-- The pinger's next ping is due. -/
def due : Bool :=
  match e.lastPingTxAt with
  | none => true
  | some t => cfg.pingIntervalMs ≤ now - t

/-- `_pingTick` -/
def pingTick : HeartbeatEnd × List HeartbeatFrame :=
  ({ e with lastPingTxAt := some now }, [.ping now])

/-- `_heartbeatTick` -/
def heartbeatTick : HeartbeatEnd × List HeartbeatFrame :=
  if !e.pinger then
    if takeoverWait cfg role ≤ now - e.lastPing then pingTick now { e with pinger := true }
    else (e, [])
  else if e.due cfg now then e.pingTick now
  else (e, [])

/-- A ping comes in; `hb` is its protocol marker. -/
def onPing (hb : Bool) : HeartbeatEnd :=
  { e with
    lastPingRxAt := some now
    lastRxAt := now
    peerLegacy := e.peerLegacy || !hb
    pinger :=
      if !hb then true
      else if e.pinger then
        -- stalled: the far end took the role over
        if !e.active cfg now then false
        -- a crossing
        else if role = .responder then false
        else true
      else false
    stale := false }

/-- A pong comes in. -/
def onPong : HeartbeatEnd :=
  { e with lastPongAt := some now, lastRxAt := now, stale := false }

/-- The last receipt of anything or, before the first, the opening. -/
def lastRx : ℚ :=
  max e.lastRxAt (max (e.lastPongAt.getD e.openedAt) (max
    (e.lastPingRxAt.getD e.openedAt) e.openedAt))

/-- `_reapTick` of an open channel whose sends go through. -/
def reapTick : ReapVerdict :=
  let since := now - e.lastRx
  if cfg.deadMs < since then .reapedPong
  else if cfg.staleMs < since ∧ ¬ e.stale then .stale
  else if since ≤ cfg.staleMs ∧ e.stale then .recovered
  else .live

/-- What is shown after a verdict. -/
def shown : ReapVerdict → HeartbeatEnd
  | .stale => { e with stale := true }
  | .recovered => { e with stale := false }
  | _ => e

end HeartbeatEnd

/-! ### The channel -/

/-- The two ends, `none` before the channel opens there, and the frames on their way to each. -/
structure Heartbeat where
  now : ℚ
  ends : PeerRole → Option HeartbeatEnd
  inbox : PeerRole → List HeartbeatFrame

namespace Heartbeat

def init : Heartbeat := ⟨0, fun _ => none, fun _ => []⟩

inductive Act where
  /-- The clock moves on. -/
  | wait (t : ℚ)
  | onopen (role : PeerRole)
  | tick (role : PeerRole)
  /-- The next frame reaches an end. -/
  | deliver (role : PeerRole)
  /-- The reaper looks. What it evicts is over: a run that goes on is none of the code's. -/
  | reap (role : PeerRole)
deriving DecidableEq, Repr

/-- The channel after an end changed and sent something. -/
def update (s : Heartbeat) (role : PeerRole) (e : HeartbeatEnd) (sent : List HeartbeatFrame) :
    Heartbeat :=
  { s with
    ends := Function.update s.ends role (some e)
    inbox := Function.update s.inbox role.other (s.inbox role.other ++ sent) }

/-- The frame that came in leaves the channel. -/
def took (s : Heartbeat) (role : PeerRole) (rest : List HeartbeatFrame) : Heartbeat :=
  { s with inbox := Function.update s.inbox role rest }

def step (cfg : HeartbeatConfig) (s : Heartbeat) : Act → Heartbeat
  | .wait t => { s with now := max s.now t }
  | .onopen role =>
    match s.ends role with
    | none => s.update role (.openHeartbeat role s.now) []
    | some _ => s
  | .tick role =>
    match s.ends role with
    | none => s
    | some e =>
      let (e', sent) := e.heartbeatTick cfg role s.now
      s.update role { e' with tickedAt := s.now } sent
  | .deliver role =>
    match s.ends role, s.inbox role with
    | some e, .ping t :: rest =>
      (s.took role rest).update role (e.onPing cfg role s.now true) [.pong t s.now]
    | some e, .pong _ _ :: rest => (s.took role rest).update role (e.onPong s.now) []
    | _, _ => s
  | .reap role =>
    match s.ends role with
    | none => s
    | some e => s.update role (e.shown (e.reapTick cfg s.now)) []

/-- The pings on their way to an end. -/
def pings (s : Heartbeat) (role : PeerRole) : List ℚ := (s.inbox role).filterMap (·.ping?)

/-- The ping an end hears next, if what reaches it next is a ping. -/
def nextPing (s : Heartbeat) (role : PeerRole) : Option ℚ :=
  (s.inbox role).head?.bind (·.ping?)

/-- An end holds the pinger role. -/
def IsPinger (s : Heartbeat) (role : PeerRole) : Prop := ∃ e ∈ s.ends role, e.pinger = true

/-- The channel is open at an end that answers. -/
def IsPonger (s : Heartbeat) (role : PeerRole) : Prop := ∃ e ∈ s.ends role, e.pinger = false

/-- Exactly one pinger, and no ping of the other end in flight. -/
structure Settled (s : Heartbeat) (role : PeerRole) : Prop where
  pinger : s.IsPinger role
  ponger : s.IsPonger role.other
  clear : s.pings role = []

/-- A pinger that is about to hear a ping is actively sending. -/
def HearsActive (cfg : HeartbeatConfig) (s : Heartbeat) : Act → Prop
  | .deliver role => (s.nextPing role).isSome →
      ∀ e ∈ s.ends role, e.pinger = true → e.active cfg s.now = true
  | _ => True

/-- Both ends tick on time. -/
def TicksOnTime (cfg : HeartbeatConfig) (s : Heartbeat) : Prop :=
  ∀ role, ∀ e ∈ s.ends role, s.now ≤ e.tickedAt + cfg.tickMs

/-- What every frame on its way has taken so far. -/
def Delays (P : ℚ → Prop) (s : Heartbeat) : Prop :=
  ∀ role, ∀ f ∈ s.inbox role, P (s.now - f.sentAt)

/-- How long an end has been open alone. -/
def OpensWithin (P : ℚ → Prop) (s : Heartbeat) : Prop :=
  ∀ role, ∀ e ∈ s.ends role, s.ends role.other = none → P (s.now - e.openedAt)

/-- The reaper would evict the far end. -/
def Evicts (cfg : HeartbeatConfig) (s : Heartbeat) (role : PeerRole) : Prop :=
  ∃ e ∈ s.ends role, e.reapTick cfg s.now = .reapedPong

section Decidable

variable (cfg : HeartbeatConfig) (s : Heartbeat) (role : PeerRole) (P : ℚ → Prop) [DecidablePred P]

instance : Decidable (s.IsPinger role) := by
  unfold IsPinger
  infer_instance

instance : Decidable (s.IsPonger role) := by
  unfold IsPonger
  infer_instance

instance : Decidable (s.Settled role) :=
  decidable_of_iff (s.IsPinger role ∧ s.IsPonger role.other ∧ s.pings role = [])
    ⟨fun h => ⟨h.1, h.2.1, h.2.2⟩, fun h => ⟨h.pinger, h.ponger, h.clear⟩⟩

instance : ∀ a, Decidable (s.HearsActive cfg a)
  | .deliver role => inferInstanceAs (Decidable ((s.nextPing role).isSome →
      ∀ e ∈ s.ends role, e.pinger = true → e.active cfg s.now = true))
  | .wait _ | .onopen _ | .tick _ | .reap _ => isTrue trivial

instance : Decidable (s.TicksOnTime cfg) := by
  unfold TicksOnTime
  infer_instance

instance : Decidable (s.Delays P) := by
  unfold Delays
  infer_instance

instance : Decidable (s.OpensWithin P) := by
  unfold OpensWithin
  infer_instance

instance : Decidable (s.Evicts cfg role) := by
  unfold Evicts
  infer_instance

end Decidable

end Heartbeat

end Axona
