import Axona.Library.OrderedMap
import Axona.Pubsub.Envelope
import Mathlib.Data.Rat.Floor

/-! # The guard of dials

`AttemptGuard` has an entry for each identity that dials were made to. An attempt is begun with a
token and ends once: it is bound, it failed, or it is released and counts for nothing. Failures put
the next attempt off, and exhaust the identity; a confirmed non-delivery puts it off by its path.
Entries are under the identity without its region, the lower 256 bits of an id. -/

namespace Axona

open Library

/-- The 256-bit suffix of an id, the key of a guard. -/
abbrev IdSuffix := Nat

/-- `identitySuffix` of a number. Texts are read as the number they write. -/
def identitySuffix (id : NodeId) : IdSuffix := id % 2 ^ 256

/-- A completion token, the `k` of an attempt. -/
abbrev DialToken := Nat

/-- The incarnation of a channel, as a dial that was issued names it. -/
abbrev Incarnation := Nat

/-- What a guard is constructed with, and how it is armed. -/
structure GuardConfig where
  maxAttempts : ℚ := 4
  baseMs : ℚ := 30000
  factor : ℚ := 2
  refillWindowMs : ℚ := 60000
  inflightMaxMs : ℚ := 45000
  /-- An exhausted identity may be tried once for each refill window. -/
  expiryRefill : Bool := false

/-- The entry of an identity. -/
structure Attempts where
  attempts : Nat
  inflight : Bool
  k : DialToken
  beganAt : ℚ
  nextAt : ℚ
  expired : Bool
  pathUntil : ℚ
  noPath : Nat
  inc : Option Incarnation
deriving DecidableEq

namespace Attempts

/-- The entry `_s` makes. -/
def fresh : Attempts := ⟨0, false, 0, 0, 0, false, 0, 0, none⟩

/-- May a dial of the identity go out? -/
def allows (cfg : GuardConfig) (s : Attempts) (t : ℚ) : Bool :=
  if t < s.pathUntil then false
  else if s.expired then cfg.expiryRefill && !s.inflight && decide (s.nextAt ≤ t)
  else !s.inflight && decide (s.nextAt ≤ t)

/-- The entry with an attempt under way. -/
def begun (cfg : GuardConfig) (s : Attempts) (k : DialToken) (t : ℚ) : Attempts :=
  { s with
    nextAt := if s.expired then t + cfg.refillWindowMs else s.nextAt
    inflight := true
    k := k
    beganAt := t }

/-- An attempt is in flight, and it is the one the token names, if one is given. -/
def live (s : Attempts) (k : Option DialToken) : Bool :=
  s.inflight && k.all fun k => decide (k = s.k)

/-- Both name an incarnation, and not the same. -/
def stale (s : Attempts) (inc : Option Incarnation) : Bool :=
  inc.any fun i => s.inc.any fun j => decide (i ≠ j)

/-- The entry after its attempt failed. -/
def failed (cfg : GuardConfig) (s : Attempts) (t : ℚ) : Attempts :=
  let attempts := s.attempts + 1
  { s with
    inflight := false
    k := 0
    inc := none
    attempts := attempts
    expired := s.expired || decide (cfg.maxAttempts ≤ attempts)
    nextAt :=
      if cfg.maxAttempts ≤ attempts then t + cfg.refillWindowMs
      else t + cfg.baseMs * cfg.factor ^ (attempts - 1) }

end Attempts

structure AttemptGuard where
  /-- `_state` -/
  state : OrderedMap IdSuffix Attempts
  /-- `_lastRefillAt` -/
  lastRefillAt : OrderedMap IdSuffix ℚ
  /-- `_seq` -/
  seq : Nat

namespace AttemptGuard

/-- A guard just constructed. -/
def init : AttemptGuard := ⟨∅, ∅, 0⟩

variable (cfg : GuardConfig)

/-- `_s`: the entry of an identity, a fresh one where there is none. -/
def entry (g : AttemptGuard) (key : IdSuffix) : Attempts := (g.state.get key).getD .fresh

/-- The entry is written over. -/
def put (g : AttemptGuard) (key : IdSuffix) (s : Attempts) : AttemptGuard :=
  { g with state := g.state.set key s }

/-- The entry is taken out. -/
def drop (g : AttemptGuard) (key : IdSuffix) : AttemptGuard :=
  { g with state := g.state.delete key }

/-! ### Asking and beginning -/

/-- `allow`: the question leaves an entry. -/
def allow (g : AttemptGuard) (id : NodeId) (t : ℚ) : Bool × AttemptGuard :=
  let key := identitySuffix id
  ((g.entry key).allows cfg t, g.put key (g.entry key))

/-- `begin`: the attempt is issued. The window of an exhausted identity advances. -/
def begin (g : AttemptGuard) (id : NodeId) (t : ℚ) : DialToken × AttemptGuard :=
  let key := identitySuffix id
  let k := g.seq + 1
  (k, { g.put key ((g.entry key).begun cfg k t) with seq := k })

/-! ### Ending -/

/-- `end` under a key: what the terminal event of an attempt does, if it is of the live one. -/
def endKey (g : AttemptGuard) (key : IdSuffix) (bound : Bool) (t : ℚ) (k : Option DialToken)
    (inc : Option Incarnation) : Bool × AttemptGuard :=
  match g.state.get key with
  | none => (false, g)
  | some s =>
    if !s.live k || s.stale inc then (false, g)
    else if bound then (true, g.drop key)
    else (true, g.put key (s.failed cfg t))

/-- `end` -/
def «end» (g : AttemptGuard) (id : NodeId) (bound : Bool) (t : ℚ) (k : Option DialToken)
    (inc : Option Incarnation) : Bool × AttemptGuard :=
  g.endKey cfg (identitySuffix id) bound t k inc

/-- `attach`: the live attempt started the negotiation of an incarnation. -/
def attach (g : AttemptGuard) (id : NodeId) (k : DialToken) (inc : Option Incarnation) :
    AttemptGuard :=
  match g.state.get (identitySuffix id) with
  | none => g
  | some s => if s.live (some k) then g.put (identitySuffix id) { s with inc := inc } else g

/-- `release`: the live attempt ends and counts for nothing. The incarnation stays. -/
def release (g : AttemptGuard) (id : NodeId) (k : Option DialToken) : Bool × AttemptGuard :=
  match g.state.get (identitySuffix id) with
  | none => (false, g)
  | some s =>
    if !s.live k then (false, g)
    else if s.attempts = 0 && !s.expired && decide (s.noPath = 0) then
      (true, g.drop (identitySuffix id))
    else (true, g.put (identitySuffix id) { s with inflight := false, k := 0 })

/-- `sweep`: every attempt in flight for too long ends as a failure. -/
def sweep (g : AttemptGuard) (t : ℚ) : AttemptGuard :=
  g.state.entries.foldl (fun g e =>
    if e.2.inflight && decide (cfg.inflightMaxMs < t - e.2.beganAt) then
      (g.endKey cfg e.1 false t (some e.2.k) none).2
    else g) g

/-- `inflightCount`: how many attempts have not ended. -/
def inflightCount (g : AttemptGuard) : Nat := g.state.countP (·.inflight)

/-! ### Paths and presence -/

/-- `Math.round` -/
def mathRound (x : ℚ) : ℚ := (x + 1 / 2).floor

/-- `deferPath`: the identity is put off for its path, twice as long each time. What is drawn is
`none` without jitter. -/
def deferPath (g : AttemptGuard) (id : NodeId) (t baseMs maxMs : ℚ) (draw : Option ℚ) :
    AttemptGuard :=
  let key := identitySuffix id
  let s := g.entry key
  let noPath := min (s.noPath + 1) 30
  let ms := min maxMs (baseMs * 2 ^ (noPath - 1))
  let ms := draw.elim ms fun x => mathRound (ms * x)
  g.put key { s with noPath := noPath, pathUntil := t + ms }

/-- `pathDelivered`: the path is good. An entry with nothing else in it goes. -/
def pathDelivered (g : AttemptGuard) (id : NodeId) : AttemptGuard :=
  let key := identitySuffix id
  match g.state.get key with
  | none => g
  | some s =>
    if s.attempts = 0 && !s.expired && !s.inflight then g.drop key
    else g.put key { s with noPath := 0, pathUntil := 0 }

/-- `onFreshRecord`: a fresh presence record clears the budget, once for each refill window. An
attempt in flight goes on. -/
def onFreshRecord (g : AttemptGuard) (id : NodeId) (t : ℚ) : Bool × AttemptGuard :=
  let key := identitySuffix id
  if (g.lastRefillAt.get key).any fun last => decide (t - last < cfg.refillWindowMs) then (false, g)
  else
    let g := { g with lastRefillAt := g.lastRefillAt.set key t }
    match (g.state.get key).filter (·.inflight) with
    | some s =>
      (true, g.put key
        { s with attempts := 0, expired := false, nextAt := 0, noPath := 0, pathUntil := 0 })
    | none => (true, g.drop key)

end AttemptGuard

end Axona
