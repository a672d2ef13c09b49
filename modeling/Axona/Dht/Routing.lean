import Axona.Pubsub.Envelope
import Axona.Library.Transition

/-! # Routed messages

How a message goes from hop to hop (`AxonaPeer.routeMessage` and the handler of `route_msg`). A node
chooses the next hop from the peers it can use: by the return route, by the commitment of the hop
before, greedily, or by a lookahead of two hops; a node where the walk would end but that cannot
serve sends it on. Every frame carries the end of its path, and no node forwards onto it.

What a node reads of its tables may differ at each read that an await separates, so each of these
reads is an input, a `RoutingView`. The network keeps every frame that was sent, and any of them may
arrive, never, once or often. A node's `alive` is set when it is made and nothing clears it. -/

namespace Axona

open Library

/-! ### Constants -/

/-- `SIGNAL_RPATH_MAX` -/
def signalRpathMax : Nat := 16

/-- The part of `AxonaDomain` that bears on routed messages. -/
structure RoutingConfig where
  /-- `MAX_HOPS` -/
  maxHops : Nat
  /-- `PATH_MEMORY` -/
  pathMemory : Nat
  /-- `RETURN_ROUTE` -/
  returnRoute : Bool
  /-- `LOOKUP_RESELECT` -/
  lookupReselect : Bool

/-- The path memory in force: eight where the option is not positive. -/
def RoutingConfig.pathMem (cfg : RoutingConfig) : Nat :=
  if 0 < cfg.pathMemory then cfg.pathMemory else 8

/-- What the type of a message means for its path. -/
inductive RouteType where
  /-- `mesh:signal` -/
  | signal
  /-- One of `RETURN_ROUTE_REQUESTS`. -/
  | request
  /-- Any other. -/
  | other
deriving DecidableEq

/-! ### What a node reads -/

/-- A node's tables as they are at one moment. -/
structure RoutingView where
  /-- The peers of the synaptome. -/
  synaptome : List NodeId
  /-- `_deadPeers` -/
  dead : NodeId → Bool
  /-- `transport.isConnected`; `none` where the transport has none. -/
  isConnected : Option (NodeId → Bool)
  /-- `_isStalePeer` -/
  isStale : NodeId → Bool
  /-- Are the pools armed? -/
  armed : Bool
  /-- `transport.boundPeers()`; empty where the transport has no classes. -/
  boundPeers : List NodeId
  /-- `_classOf` is `'I'`. -/
  isIncoming : NodeId → Bool
  /-- `incomingSynapses` -/
  incomingSynapses : List NodeId
  /-- `transport.bridgeNodeIdBig` -/
  bridge : Option NodeId
  /-- `_servingCapable` -/
  servingCapable : Bool

/-- The class of a usable peer. -/
inductive PeerClass where
  /-- A synapse. -/
  | M
  /-- A bound peer of class I that is no synapse. -/
  | I
deriving DecidableEq

namespace RoutingView

variable (v : RoutingView) (me : NodeId) (exclude : List NodeId)

/-- `connOk`, true where the transport cannot say. -/
def connOk (id : NodeId) : Bool := v.isConnected.all (· id)

/-- The filter of `_usablePeers` and of every selector: not this node, not on the path, not dead,
connected. -/
def eligible (id : NodeId) : Bool :=
  id != me && !exclude.contains id && !v.dead id && v.connOk id

/-- `_usablePeers`: the synapses and the bound peers of class I, each once. A stale one of class I
is never usable, a stale synapse is while the pools are not armed. -/
def usablePeers : List (NodeId × PeerClass) :=
  (v.synaptome.eraseDups.filter fun id =>
      v.eligible me exclude id && !(v.armed && v.isStale id)).map (·, .M) ++
    (v.boundPeers.eraseDups.filter fun id =>
      !v.synaptome.contains id && v.isIncoming id && v.eligible me exclude id
        && !v.isStale id).map (·, .I)

/-- The ids of the usable peers. -/
def usableIds : List NodeId := (v.usablePeers me exclude).map (·.1)

/-- The test of the return route and of the commitment: a hop named by the frame is connected, or a
synapse where the transport cannot say. -/
def reachable (id : NodeId) : Bool :=
  id != me && !exclude.contains id && !v.dead id &&
    v.isConnected.elim (v.synaptome.contains id) (· id)

end RoutingView

/-! ### Choosing a hop -/

/-- The first of the ids nearest to the target, among those nearer than a bound. -/
def pickCloser (target : NodeId) (bound : Nat) (ids : List NodeId) : Option NodeId :=
  (ids.foldl (fun (best : Option NodeId × Nat) id =>
    if distance target id < best.2 then (some id, distance target id) else best) (none, bound)).1

/-- The first of the ids nearest to the target. -/
def pickNearest (target : NodeId) (ids : List NodeId) : Option NodeId :=
  ids.foldl (fun best id =>
    if best.all (distance target id < distance target ·) then some id else best) none

/-- `_greedyNextHopToward`, and the greedy choice of the handler. -/
def greedyNextHop (v : RoutingView) (me target : NodeId) (exclude : List NodeId) : Option NodeId :=
  pickCloser target (distance target me) (v.usableIds me exclude)

/-- `_capableFallbackHop`: the bridge's node, else the nearest usable peer whatever its distance. -/
def capableFallbackHop (v : RoutingView) (me target : NodeId) (exclude : List NodeId) :
    Option NodeId :=
  match v.bridge.filter (v.eligible me exclude) with
  | some b => some b
  | none => pickNearest target (v.usableIds me exclude)

/-- The nearer reverse channels of `_findCloserInTwoHops`: usable peers of class I, and then
`incomingSynapses`. -/
def reverseChannels (v : RoutingView) (me : NodeId) (exclude : List NodeId) : List NodeId :=
  ((v.usablePeers me exclude).filter (·.2 = .I)).map (·.1) ++
    v.incomingSynapses.filter (v.eligible me exclude)

/-- The peers of the lookahead round. -/
def probeTargets (v : RoutingView) (me : NodeId) (exclude : List NodeId) : List NodeId :=
  v.synaptome.filter (fun id => v.eligible me exclude id && !(v.armed && v.isStale id)) ++
    ((v.usablePeers me exclude).filter (·.2 = .I)).map (·.1)

/-- `_findCloserInTwoHops`: the first hop, and the node it named. `replies` are the answers of the
round in the order they came, each with the node it names, up to the end of the round. -/
def findCloserInTwoHops (v : RoutingView) (me target : NodeId) (exclude : List NodeId)
    (replies : List (NodeId × Option NodeId)) : Option (NodeId × Option NodeId) :=
  if distance target me = 0 then none
  else match pickCloser target (distance target me) (reverseChannels v me exclude) with
  | some first => some (first, none)
  | none => replies.find? fun r => (probeTargets v me exclude).contains r.1 &&
      r.2.any fun via => distance target via < distance target me

/-! ### Frames and sends -/

/-- A `route_msg` frame, as far as its route goes. -/
structure RouteFrame where
  type : RouteType
  target : NodeId
  hops : Nat
  path : List NodeId
  via : Option NodeId
  rpath : List NodeId
deriving DecidableEq

/-- How a send ended. -/
inductive SendOutcome where
  /-- It was answered. -/
  | answered
  /-- It failed with an error that `isEdgeLoss` knows. -/
  | edgeLoss
  /-- It failed otherwise. -/
  | failed
deriving DecidableEq

/-- A frame that was sent. -/
structure RouteSend where
  dest : NodeId
  frame : RouteFrame
  outcome : SendOutcome

/-- One round of the loop that sends: the tables after the open, how the send ends, and the tables
when it has failed. -/
structure RouteTry where
  opened : RoutingView
  outcome : SendOutcome
  after : RoutingView

/-- What a node reads and hears while it handles one message. -/
structure RouteInput where
  /-- The tables when it chooses, which are those the lookahead round starts from. -/
  atStart : RoutingView
  /-- The answers of the lookahead round. -/
  replies : List (NodeId × Option NodeId)
  /-- The tables after it. -/
  afterRound : RoutingView
  /-- Does a local handler consume the message? -/
  consumed : Bool
  /-- The tables after the handlers. -/
  afterHandler : RoutingView
  /-- The rounds of the loop that sends, as far as it got. -/
  tries : List RouteTry

/-- `arr.slice(-n)`: the last `n`, all of them for zero. -/
def sliceLast (n : Nat) (ids : List NodeId) : List NodeId :=
  if n = 0 then ids else ids.drop (ids.length - n)

/-- How many ids of the path a frame carries. -/
def RoutingConfig.pathMemOf (cfg : RoutingConfig) (type : RouteType) : Nat :=
  if type = .signal ∨ (cfg.returnRoute ∧ type = .request) then max cfg.pathMem signalRpathMax
  else cfg.pathMem

/-- `_rsPick`: the next peer nearer than this node that was not tried. -/
def rsPick (v : RoutingView) (me target : NodeId) (exclude tried : List NodeId) : Option NodeId :=
  pickCloser target (distance target me)
    ((v.usableIds me exclude).filter fun id => !tried.contains id)

/-- The loop that sends. A hop that is not connected after the open is not sent to, and one whose
edge was lost in the send is given up; with re-selection the next one is picked, without the route
that came with the first. -/
def sendLoop (cfg : RoutingConfig) (me : NodeId) (exclude : List NodeId) (frame : RouteFrame) :
    (next : NodeId) → (tried : List NodeId) → List RouteTry → List RouteSend
  | _, _, [] => []
  | next, tried, t :: ts =>
    let plain := { frame with via := none, rpath := [] }
    if cfg.lookupReselect && !t.opened.connOk next then
      match rsPick t.opened me frame.target exclude (next :: tried) with
      | some n => sendLoop cfg me exclude plain n (next :: tried) ts
      | none => []
    else
      let sent : RouteSend := ⟨next, frame, t.outcome⟩
      if cfg.lookupReselect && t.outcome = .edgeLoss then
        match rsPick t.after me frame.target exclude (next :: tried) with
        | some n => sent :: sendLoop cfg me exclude plain n (next :: tried) ts
        | none => [sent]
      else [sent]

/-! ### The two entries -/

/-- What a node did with one message. -/
structure Visit where
  me : NodeId
  target : NodeId
  /-- The path the message came with; at its origin, the origin. -/
  path : List NodeId
  /-- What the node read and heard. -/
  input : RouteInput
  /-- `isTerminal` as the handlers were told. -/
  isTerminal : Bool
  /-- The frames sent. -/
  sends : List RouteSend

/-- A hop chosen, with what goes along: the node a lookahead named, and the rest of the return
route. -/
structure Choice where
  next : NodeId
  via : Option NodeId
  rpath : List NodeId

/-- The choice by lookahead, where nothing nearer is usable. -/
def chooseAhead (v : RoutingView) (me target : NodeId) (exclude : List NodeId)
    (replies : List (NodeId × Option NodeId)) : Option Choice :=
  ((findCloserInTwoHops v me target exclude replies).filter (·.1 ≠ me)).map fun r =>
    ⟨r.1, r.2, []⟩

/-- The hop the handlers leave to be sent to: the choice, or at a node where the walk would end but
that cannot serve, the fallback. `none` where the message was consumed or ends. -/
def hopAfterHandlers (choice : Option Choice) (x : RouteInput) (me target : NodeId)
    (exclude : List NodeId) : Option Choice :=
  if x.consumed then none
  else match choice with
  | some c => some c
  | none =>
    if x.afterRound.servingCapable then none
    else (capableFallbackHop x.afterHandler me target exclude).map fun id => ⟨id, none, []⟩

namespace RoutingConfig

variable (cfg : RoutingConfig)

/-- The hop `routeMessage` chooses: that of the return route while it is connected, else greedily,
else by lookahead. -/
def originChoice (me target : NodeId) (rpath : List NodeId) (x : RouteInput) : Option Choice :=
  match rpath.head?.filter fun f => f != me && x.atStart.isConnected.any (· f) with
  | some f => some ⟨f, none, (rpath.take signalRpathMax).tail⟩
  | none => match greedyNextHop x.atStart me target [] with
    | some id => some ⟨id, none, []⟩
    | none => chooseAhead x.atStart me target [me] x.replies

/-- `routeMessage`: a message starts at this node, perhaps with a return route. -/
def routeMessage (me target : NodeId) (type : RouteType) (rpath : List NodeId) (x : RouteInput) :
    Visit :=
  let choice := originChoice me target rpath x
  let sends := match hopAfterHandlers choice x me target [me] with
    | none => []
    | some c => sendLoop cfg me [me] ⟨type, target, 1, [me], c.via, c.rpath⟩ c.next [] x.tries
  ⟨me, target, [me], x, choice.isNone && x.afterRound.servingCapable, sends⟩

/-- The ids a node does not forward onto: the path of the frame, or its sender when it carries
none, and the node itself. -/
def excluded (me sender : NodeId) (path : List NodeId) : List NodeId :=
  (if path = [] then [sender] else path) ++ [me]

/-- The hop the handler of `route_msg` chooses: that of the return route, that of the commitment,
else greedily, else by lookahead. No selector gives a hop on the path; if one did, the walk would
end here. -/
def hopChoice (me : NodeId) (exclude : List NodeId) (f : RouteFrame) (x : RouteInput) :
    Option Choice :=
  let v := x.atStart
  let choice : Option Choice := match f.rpath.head?.filter (v.reachable me exclude) with
    | some id => some ⟨id, none, (f.rpath.take signalRpathMax).tail⟩
    | none => match f.via.filter (v.reachable me exclude) with
      | some id => some ⟨id, none, []⟩
      | none => match greedyNextHop v me f.target exclude with
        | some id => some ⟨id, none, []⟩
        | none => chooseAhead v me f.target exclude x.replies
  choice.filter fun c => !exclude.contains c.next

/-- The handler of `route_msg`. -/
def onRouteMsg (me sender : NodeId) (f : RouteFrame) (x : RouteInput) : Visit :=
  let exclude := excluded me sender f.path
  let choice := hopChoice me exclude f x
  let sends := match hopAfterHandlers choice x me f.target exclude with
    | none => []
    | some c =>
      if cfg.maxHops ≤ f.hops + 1 then []
      else sendLoop cfg me exclude ⟨f.type, f.target, f.hops + 1,
        sliceLast (cfg.pathMemOf f.type - 1) f.path ++ [me], c.via, c.rpath⟩ c.next [] x.tries
  ⟨me, f.target, f.path, x, choice.isNone && x.afterRound.servingCapable, sends⟩

end RoutingConfig

/-! ### The network -/

/-- A frame on its way: to whom, and from where, the nodes it was at, the last one first. -/
structure RouteFlight where
  dest : NodeId
  frame : RouteFrame
  trail : List NodeId

/-- What was sent, and what every node did. -/
structure RouteNet where
  flights : List RouteFlight
  visits : List Visit

/-- A network nothing was sent in. -/
def RouteNet.empty : RouteNet := ⟨[], []⟩

/-- What happens in the network. -/
inductive RouteAct where
  /-- A message starts at a node. -/
  | originate (me target : NodeId) (type : RouteType) (rpath : List NodeId) (x : RouteInput)
  /-- One of the frames sent arrives. -/
  | arrive (i : Nat) (x : RouteInput)

namespace RouteNet

/-- The frames of a visit, sent on from a trail. -/
def flown (s : RouteNet) (v : Visit) (trail : List NodeId) : RouteNet :=
  ⟨s.flights ++ v.sends.map fun x => ⟨x.dest, x.frame, v.me :: trail⟩, s.visits ++ [v]⟩

/-- One act. -/
def step (cfg : RoutingConfig) (s : RouteNet) : RouteAct → RouteNet
  | .originate me target type rpath x => s.flown (cfg.routeMessage me target type rpath x) []
  | .arrive i x =>
    match s.flights[i]? with
    | none => s
    | some f => s.flown (cfg.onRouteMsg f.dest (f.trail.headD f.dest) f.frame x) f.trail

end RouteNet

end Axona
