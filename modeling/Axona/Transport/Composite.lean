import Axona.Library.OrderedMap
import Axona.Pubsub.Envelope

/-! # The composite transport

`CompositeTransport` puts several sub-transports behind one. Each reports its own binds and deaths;
the composite keeps for each identity the one route that is admitted, and the subs whose route was
superseded by it. A bootstrap sub gives way to any other.

A sub is named by its place among the subs and a route by its sub and the token the sub has for the
identity, if it has one. What a sub says of itself comes with the step that asks it, and so do the
answers of the bind policy and of the handlers; a sub may be a composite in its turn.

`retired` notes the routes that were superseded and have not closed, `lifted` those among them whose
mark went with a death reported under another token, and `refused` that a handler turned a bind
down; the code does not have them. -/

namespace Axona

open Library

abbrev SubId := Nat

abbrev HandlerId := Nat

/-- The name a sub has for its channel to an identity. -/
abbrev RouteToken := Text

structure Route where
  sub : SubId
  token : Option RouteToken
deriving DecidableEq, Repr

/-- What is known of an identity. -/
structure RouteRecord where
  admitted : Option Route
  superseded : OrderedMap SubId (Option RouteToken)

/-- A handler of binds, and the identities it was told of. -/
structure BoundEntry where
  seen : List NodeId
  refused : Bool
deriving DecidableEq, Repr

/-- `_fireBound`, of one handler. -/
def BoundEntry.fire (e : BoundEntry) (nodeId : NodeId) (refuses : Bool) : BoundEntry :=
  if nodeId ∈ e.seen then e
  else if refuses then { e with refused := true }
  else { e with seen := nodeId :: e.seen }

structure Composite where
  routes : OrderedMap NodeId RouteRecord
  entries : OrderedMap HandlerId BoundEntry
  retired : List (NodeId × Route)
  lifted : List (NodeId × Route)

namespace Composite

/-- What a step does to those around the composite. -/
inductive Effect where
  /-- A handler is told that an identity is bound. -/
  | bound (handler : HandlerId) (nodeId : NodeId)
  /-- The handlers of deaths are told of one. -/
  | died (nodeId : NodeId) (token : Option RouteToken)
  | routeChanged (nodeId : NodeId) (token : Option RouteToken)
  /-- `supersedePeer` of a sub. -/
  | superseded (sub : SubId) (nodeId : NodeId) (token : Option RouteToken)
deriving DecidableEq, Repr

/-- What `_routeBind` decides of a bind. -/
inductive Verdict where
  | admitNew (route : Route)
  | admits
  | switch
  | ignore

/-- A composite whose handlers are registered. -/
def init (handlers : List HandlerId) : Composite :=
  ⟨∅, handlers.foldl (fun m h => m.set h ⟨[], false⟩) ∅, [], []⟩

/-- What is known of an identity; nothing, where there is no record. -/
def recordOf (s : Composite) (nodeId : NodeId) : RouteRecord :=
  (s.routes.get nodeId).getD ⟨none, ∅⟩

/-- The admitted route of an identity. -/
def routeOf (s : Composite) (nodeId : NodeId) : Option Route := (s.recordOf nodeId).admitted

/-- `_isSuperseded` -/
def isSuperseded (s : Composite) (nodeId : NodeId) (t : SubId) : Bool :=
  (s.recordOf nodeId).superseded.has t

def setRecord (s : Composite) (nodeId : NodeId) (known : RouteRecord) : Composite :=
  { s with routes := s.routes.set nodeId known }

/-- A record that says nothing is dropped. -/
def settleRecord (s : Composite) (nodeId : NodeId) (known : RouteRecord) : Composite :=
  if known.admitted.isNone && known.superseded.size == 0 then
    { s with routes := s.routes.delete nodeId }
  else s.setRecord nodeId known

/-- `_supersede`, in the record and in the notes. -/
def supersede (s : Composite) (nodeId : NodeId) (known : RouteRecord) (route : Route) : Composite :=
  { s with
    routes := s.routes.set nodeId
      { known with superseded := known.superseded.set route.sub route.token }
    retired := (nodeId, route) :: s.retired }

/-- The token of a bind is not the one the sub has for the identity now. A sub that cannot name a
token is not asked. -/
def staleToken (token : Option RouteToken) (cur : Option (Option RouteToken)) : Bool :=
  cur.any fun c => token.isSome && decide (c ≠ token)

/-- The route of a bind. -/
def bindRoute (t : SubId) (token : Option RouteToken) (cur : Option (Option RouteToken)) : Route :=
  ⟨t, token.or (cur.getD none)⟩

/-- `_routeBind` -/
def routeBind (isBootstrap : SubId → Bool) (s : Composite) (t : SubId) (nodeId : NodeId)
    (token : Option RouteToken) (cur : Option (Option RouteToken)) :
    Composite × Verdict × List Effect :=
  if staleToken token cur then (s, .ignore, [])
  else if s.isSuperseded nodeId t then (s, .ignore, [])
  else
    let known := s.recordOf nodeId
    let route := bindRoute t token cur
    match known.admitted with
    | none => (s.setRecord nodeId known, .admitNew route, [])
    | some old =>
      if old.sub = t then
        if route.token.isSome && decide (old.token ≠ route.token) then
          (s.setRecord nodeId { known with admitted := some route }, .admits,
            [.routeChanged nodeId route.token])
        else (s, .admits, [])
      else if isBootstrap old.sub && !isBootstrap t then
        (s.supersede nodeId { known with admitted := some route } old, .switch,
          [.superseded old.sub nodeId old.token, .routeChanged nodeId route.token])
      else if !isBootstrap old.sub && isBootstrap t then
        (s.supersede nodeId known route, .ignore, [.superseded t nodeId route.token])
      else (s, .admits, [])

/-- `_admitNew`, with the answer of the bind policy. -/
def admitNew (s : Composite) (nodeId : NodeId) (route : Route) (policy : Bool) : Composite :=
  let known := s.recordOf nodeId
  if policy then s.setRecord nodeId { known with admitted := some route }
  else s.settleRecord nodeId known

/-- `_fireBound`, of every handler. -/
def fireBound (s : Composite) (nodeId : NodeId) (refuses : List HandlerId) :
    Composite × List Effect :=
  let told := s.entries.entries.filterMap fun e =>
    if nodeId ∈ e.2.seen then none else some (.bound e.1 nodeId)
  ({ s with entries := s.entries.filterMap fun h e => some (e.fire nodeId (h ∈ refuses)) }, told)

/-- `_onSubBound` -/
def onSubBound (isBootstrap : SubId → Bool) (s : Composite) (t : SubId) (nodeId : NodeId)
    (token : Option RouteToken) (cur : Option (Option RouteToken)) (policy : Bool)
    (refuses : List HandlerId) : Composite × List Effect :=
  let (s, verdict, effects) := s.routeBind isBootstrap t nodeId token cur
  match verdict with
  | .admitNew route =>
    let s := s.admitNew nodeId route policy
    if policy then
      let (s, told) := s.fireBound nodeId refuses
      (s, effects ++ told)
    else (s, effects)
  | .admits =>
    let (s, told) := s.fireBound nodeId refuses
    (s, effects ++ told)
  | _ => (s, effects)

/-- `_onSubRouteChanged`, with the token the sub has for the identity now. -/
def onSubRouteChanged (s : Composite) (t : SubId) (nodeId : NodeId) (cur : Option RouteToken) :
    Composite × List Effect :=
  match s.routeOf nodeId with
  | none => (s, [])
  | some old =>
    if old.sub = t && cur.isSome && decide (old.token ≠ cur) then
      (s.setRecord nodeId { s.recordOf nodeId with admitted := some ⟨t, cur⟩ },
        [.routeChanged nodeId cur])
    else (s, [])

/-- A death reported under a token is the end of a route, as far as tokens tell. -/
def ends (token route : Option RouteToken) : Bool :=
  token.isNone || route.isNone || decide (token = route)

/-- The notes, when a sub reports the end of its route. -/
def noteEnd (s : Composite) (t : SubId) (nodeId : NodeId) (token : Option RouteToken) : Composite :=
  let ended (p : NodeId × Route) : Bool := p.1 = nodeId && p.2.sub = t && ends token p.2.token
  let left := s.retired.filter fun p => !ended p
  { s with
    retired := left
    lifted :=
      (if s.isSuperseded nodeId t then left.filter fun p => p.1 = nodeId && p.2.sub = t else []) ++
        s.lifted.filter fun p => !ended p }

/-- The record of an identity after a death, and whether it is forwarded. -/
def recordDeath (isBootstrap : SubId → Bool) (known : RouteRecord) (t : SubId)
    (token : Option RouteToken) : RouteRecord × Bool :=
  if known.superseded.has t then ({ known with superseded := known.superseded.delete t }, false)
  else
    match known.admitted with
    | none => (known, true)
    | some route =>
      if route.sub = t then
        if ends token route.token then ({ known with admitted := none }, true) else (known, false)
      else (known, !(isBootstrap t || isBootstrap route.sub))

/-- The token a death is forwarded under. -/
def deathToken (known : RouteRecord) (t : SubId) (token : Option RouteToken) : Option RouteToken :=
  match known.admitted with
  | none => token
  | some route => if route.sub = t then route.token.or token else token

/-- Every handler may be told of the identity again. -/
def rearm (s : Composite) (nodeId : NodeId) : Composite :=
  let forget (e : BoundEntry) : BoundEntry := { e with seen := e.seen.filter (· ≠ nodeId) }
  { s with entries := s.entries.filterMap fun _ e => some (forget e) }

/-- `_onSubDeath` -/
def onSubDeath (isBootstrap : SubId → Bool) (s : Composite) (t : SubId) (nodeId : NodeId)
    (token : Option RouteToken) : Composite × List Effect :=
  let noted := s.noteEnd t nodeId token
  match s.routes.get nodeId with
  | none => (noted.rearm nodeId, [.died nodeId token])
  | some known =>
    let (known', forward) := recordDeath isBootstrap known t token
    let s := noted.settleRecord nodeId known'
    if forward then (s.rearm nodeId, [.died nodeId (deathToken known t token)]) else (s, [])

/-- `closeConnection`, of the record. -/
def closeConnection (s : Composite) (nodeId : NodeId) : Composite :=
  match s.routes.get nodeId with
  | none => s
  | some known => s.settleRecord nodeId { known with admitted := none }

/-- What may happen to a composite. -/
inductive Act where
  /-- A sub reports a bind, under the name of a channel or none. -/
  | bound (t : SubId) (nodeId : NodeId) (token : Option RouteToken)
    (cur : Option (Option RouteToken)) (policy : Bool) (refuses : List HandlerId)
  | routeChanged (t : SubId) (nodeId : NodeId) (cur : Option RouteToken)
  | died (t : SubId) (nodeId : NodeId) (token : Option RouteToken)
  | closeConnection (nodeId : NodeId)

def perform (isBootstrap : SubId → Bool) (s : Composite) : Act → Composite × List Effect
  | .bound t nodeId token cur policy refuses =>
    s.onSubBound isBootstrap t nodeId token cur policy refuses
  | .routeChanged t nodeId cur => s.onSubRouteChanged t nodeId cur
  | .died t nodeId token => s.onSubDeath isBootstrap t nodeId token
  | .closeConnection nodeId => (s.closeConnection nodeId, [])

def step (isBootstrap : SubId → Bool) (s : Composite) (a : Act) : Composite :=
  (s.perform isBootstrap a).1

end Composite

end Axona
