import Axona.Dht.Synaptome
import Axona.Transport.ChannelLedger

/-! # The table and the pools

A node with a two-pool profile keeps the peers it routes by in its table, and charges each of its
channels to a class: `M` for those it manages, `I` for those that came in. A bound peer whose
channel is incoming enters the table by a promotion, which moves its channel to `M`. Where the table
has room the ledger is asked first. Where a peer is replaced the table commits first, and the ledger
may put the move off until the close of the replaced channel is confirmed. -/

namespace Axona

open Library

/-- A node with its profile. One number is the cap of the table and the size of `M`. -/
structure TwoPoolConfig where
  node : GateNode
  profile : PoolProfile
  ledger : ChannelLedgerConfig
  /-- `_gateCfg` is set. -/
  gated : Bool := true
  cap_eq : node.cap = profile.M
  pools_eq : ledger.pools = some profile
  enforce : ledger.enforce = true

/-- The table, the ledger, and the bindings of the transport. -/
structure TwoPools where
  gate : AdmissionGate
  ledger : ChannelLedger
  webrtc : WebRTC
  /-- `_lastMeshIdByNodeId` -/
  last : OrderedMap NodeId MeshId

/-- How a promotion ends. -/
inductive Promotion where
  | promoted
  /-- `promotion-transfer-deferred` -/
  | transferDeferred
  /-- `promotion-deficit` -/
  | deficit
  /-- `promotion-reclass-refused-after-commit` -/
  | inconsistent
deriving DecidableEq, Repr

/-- What a request for the class `M` is answered. -/
inductive Answer where
  | ok
  | deferred
  | refused
deriving DecidableEq, Repr

/-- The answer as its asker reads it. -/
def ChannelLedger.Reclassed.answer : ChannelLedger.Reclassed → Answer
  | done _ => .ok
  | deferred _ => .deferred
  | refused _ | noChannel | badClass _ => .refused

namespace TwoPools

variable (c : TwoPoolConfig)

/-- Armed before its first channel. -/
def init (t : Synaptome) : TwoPools := ⟨⟨t, ⟨∅, 0⟩⟩, .init, .init, ∅⟩

/-- `node.synaptome` -/
def synaptome (s : TwoPools) : Synaptome := s.gate.synaptome

/-- The state with another table. -/
def setSynaptome (s : TwoPools) (t : Synaptome) : TwoPools := { s with gate.synaptome := t }

/-! ### Channels of peers -/

/-- The mesh id a peer is bound on. -/
def route (s : TwoPools) (p : NodeId) : Option MeshId :=
  (s.webrtc.meshIdByNodeId.get p).filter fun m => decide (m ≠ [])

/-- The channel a peer is bound on. -/
def served (s : TwoPools) (p : NodeId) : Option (ChanToken × Chan) :=
  (s.route p).bind s.ledger.current

/-- `classOf` -/
def classOf (s : TwoPools) (p : NodeId) : Option Cls := (s.served p).bind fun x => x.2.cls

/-- The peer whose route the mesh id is. -/
def activeNode (s : TwoPools) (m : MeshId) : Option NodeId :=
  (s.webrtc.nodeIdByMeshId.get m).filter fun n =>
    decide (s.webrtc.meshIdByNodeId.get n = some m)

/-- `_lastMeshIdByNodeId` after a peer lost its route; it keeps 256. -/
def remember (last : OrderedMap NodeId MeshId) (n : NodeId) (m : MeshId) :
    OrderedMap NodeId MeshId :=
  if 256 < (last.set n m).size then (last.set n m).dropOldest else last.set n m

/-- `unbindPeer` -/
def unbindPeer (s : TwoPools) (m : MeshId) : TwoPools :=
  { s with
    ledger := s.ledger.unbind m
    webrtc := s.webrtc.unbindPeer m
    last := (s.activeNode m).elim s.last fun n => remember s.last n m }

/-- `_onPeerLost`: the peer whose route it was has died. -/
def onPeerLost (s : TwoPools) (m : MeshId) : TwoPools :=
  ((s.activeNode m).elim s fun n => s.setSynaptome (s.synaptome.delete (.big n))).unbindPeer m

/-- The mesh's teardown of the channel under a mesh id. -/
def retire (s : TwoPools) (m : MeshId) : TwoPools :=
  match s.ledger.current m with
  | none => s
  | some x =>
    if x.2.state = .open then { s with ledger := s.ledger.closing x.1 }.onPeerLost m
    else { s with ledger := s.ledger.closing x.1 }

/-- `closeConnection` -/
def closeConnection (s : TwoPools) (p : NodeId) : TwoPools :=
  match s.route p with
  | none => s
  | some m => (s.unbindPeer m).retire m

/-- The mesh id a bind leaves the peer on. -/
def winner (s : TwoPools) (p : NodeId) (m : MeshId) (channelKey : Option Text) : MeshId :=
  (s.webrtc.duplicate p m channelKey).elim m Prod.fst

/-- `bindPeer`: of two channels of the peer one is torn down. -/
def bindPeer (s : TwoPools) (p : NodeId) (m : MeshId) (channelKey : Option Text) : TwoPools :=
  match s.webrtc.duplicate p m channelKey with
  | none =>
    { s with webrtc := s.webrtc.bindPeer p m channelKey, ledger := s.ledger.bind m p }
  | some x =>
    { s with
      webrtc := s.webrtc.bindPeer p m channelKey
      ledger := s.ledger.bind x.1 p }.retire x.2

/-! ### Classes -/

/-- The channel the transport names for a peer that is replaced: the one that serves its last mesh
id, or else the first record of that id. -/
def replaced (s : TwoPools) (victim : NodeId) : Option ChanToken :=
  ((s.webrtc.meshIdByNodeId.get victim).or (s.last.get victim)).bind fun m =>
    (s.ledger.tByMeshId.get m).or
      ((s.ledger.chan.entries.find? fun e => e.2.meshId = m).map Prod.fst)

/-- `reclass` of a peer's channel to `M`. -/
def reclass (s : TwoPools) (p : NodeId) (after : Option NodeId) : Answer × TwoPools :=
  match (s.route p).bind s.ledger.tByMeshId.get with
  | none => (.refused, s)
  | some t =>
    ((s.ledger.reclass c.ledger t (some .M) (after.bind s.replaced)).1.answer,
      { s with ledger := (s.ledger.reclass c.ledger t (some .M) (after.bind s.replaced)).2 })

/-! ### Entering the table -/

/-- The close of a peer that is replaced. A key that is a text names no route. -/
def closeVictim (s : TwoPools) (key : TableKey) : TwoPools :=
  if key.isText then s.setSynaptome (s.synaptome.delete key)
  else (s.setSynaptome (s.synaptome.delete key)).closeConnection key.id

/-- `_seedInsert` -/
def seedInsert (s : TwoPools) (p : NodeId) : TwoPools :=
  s.setSynaptome (s.synaptome.seedInsert c.node p)

/-- The gate's decision. -/
def decision (s : TwoPools) (w : Surroundings) (now : Int) (p : NodeId) : Admission :=
  (s.synaptome.gateDecision c.node w s.gate.lane now p).1

/-- The join lane after a decision that is not committed. -/
def decided (s : TwoPools) (w : Surroundings) (now : Int) (p : NodeId) : TwoPools :=
  { s with gate.lane := (s.synaptome.gateDecision c.node w s.gate.lane now p).2 }

/-- The join lane after a decision that is. -/
def laneCommit (s : TwoPools) (d : Admission) : TwoPools :=
  { s with gate.lane := s.gate.lane.commit d }

/-- `_admitOrImprove` -/
def admitOrImprove (s : TwoPools) (w : Surroundings) (now : Int) (p : NodeId) : TwoPools :=
  match s.decision c w now p with
  | .refuse _ | .throws => s.decided c w now p
  | .room => (s.decided c w now p).seedInsert c p
  | .lane key t => ((s.decided c w now p).laneCommit (.lane key t)).seedInsert c p
  | .swap key near =>
    if near && key.isText then s.decided c w now p
    else ((s.decided c w now p).closeVictim key).seedInsert c p

/-- A promotion where the table has room: the ledger is asked first. -/
def promoteInto (s : TwoPools) (p : NodeId) (d : Admission) : Promotion × TwoPools :=
  match (s.reclass c p none).1 with
  | .ok => (.promoted, ((s.reclass c p none).2.laneCommit d).seedInsert c p)
  | .deferred | .refused => (.deficit, s)

/-- A promotion in the place of a peer: the table commits first. -/
def promoteFor (s : TwoPools) (p : NodeId) (key : TableKey) : Promotion × TwoPools :=
  match (((s.closeVictim key).seedInsert c p).reclass c p (some key.id)).1 with
  | .ok => (.promoted, (((s.closeVictim key).seedInsert c p).reclass c p (some key.id)).2)
  | .deferred =>
    (.transferDeferred, (((s.closeVictim key).seedInsert c p).reclass c p (some key.id)).2)
  | .refused =>
    (.inconsistent, (((s.closeVictim key).seedInsert c p).reclass c p (some key.id)).2)

/-- `_promote`, `none` where it throws. -/
def promote (s : TwoPools) (w : Surroundings) (now : Int) (p : NodeId) :
    Option Promotion × TwoPools :=
  match s.decision c w now p with
  | .refuse _ => (some .deficit, s.decided c w now p)
  | .throws => (none, s.decided c w now p)
  | .room => ((s.decided c w now p).promoteInto c p .room).map some id
  | .lane key t => ((s.decided c w now p).promoteInto c p (.lane key t)).map some id
  | .swap key near =>
    if near && key.isText then (none, s.decided c w now p)
    else ((s.decided c w now p).promoteFor c p key).map some id

/-- `_legacyInsertAllowed`: how its promotion ended, if it was one, and what it left. -/
def legacyInsertAllowed (s : TwoPools) (p : NodeId) : Option Promotion × TwoPools :=
  if s.classOf p = some .I then
    match (s.reclass c p none).1 with
    | .ok => (some .promoted, (s.reclass c p none).2)
    | .deferred | .refused => (some .deficit, s)
  else (none, s)

/-- A legacy insert. -/
def insert (s : TwoPools) (p : NodeId) (x : Synapse) : Option Promotion × TwoPools :=
  if (s.legacyInsertAllowed c p).1 = some .deficit then s.legacyInsertAllowed c p
  else
    ((s.legacyInsertAllowed c p).1,
      (s.legacyInsertAllowed c p).2.setSynaptome
        ((s.legacyInsertAllowed c p).2.synaptome.set (.big p) x))

/-- `_seedSynaptomeWithSponsor` -/
def seed (s : TwoPools) (w : Surroundings) (now : Int) (p : NodeId) :
    Option Promotion × TwoPools :=
  if s.synaptome.holds p then (none, s)
  else if c.gated then
    if s.classOf p = some .I then s.promote c w now p else (none, s.admitOrImprove c w now p)
  else s.insert c p
    { peerId := .big p
      weight := 1 / 2
      latency := 50
      stratum := clz (c.node.dist p)
      inertia := some 0
      addedBy := none }

/-! ### Steps -/

/-- What can happen. -/
inductive Act where
  /-- The mesh reserves, builds, opens or gives up a channel, or its close is confirmed. -/
  | mesh (a : ChannelLedger.Act)
  /-- The handshake on a channel names its peer. -/
  | bindPeer (p : NodeId) (m : MeshId) (channelKey : Option Text)
  /-- A channel is lost. -/
  | lost (m : MeshId)
  /-- A peer is closed that the gate refused. -/
  | closePeer (p : NodeId)
  /-- A peer announces that it leaves. -/
  | leaving (p : NodeId)
  /-- A dead synapse is evicted. -/
  | evict (key : TableKey)
  /-- A bound peer is offered to the table. -/
  | seed (w : Surroundings) (now : Int) (p : NodeId)
  /-- A call enters its peer after its wait. -/
  | insert (p : NodeId) (x : Synapse)

/-- The calls of the mesh itself. -/
def meshStep (s : TwoPools) : ChannelLedger.Act → TwoPools
  | .reclass _ _ _ | .bind _ _ | .unbind _ => s
  | a => { s with ledger := s.ledger.step c.ledger a }

/-- One act, and how the promotion ended that it was. -/
def act (s : TwoPools) : Act → Option Promotion × TwoPools
  | .mesh a => (none, s.meshStep c a)
  | .bindPeer p m channelKey => (none, s.bindPeer p m channelKey)
  | .lost m => (none, s.retire m)
  | .closePeer p => (none, s.closeConnection p)
  | .leaving p =>
    (none, if s.synaptome.has (.big p) then s.closeVictim (.big p) else s)
  | .evict key => (none, s.closeVictim key)
  | .seed w now p => s.seed c w now p
  | .insert p x => s.insert c p x

/-- One act. -/
def step (s : TwoPools) (a : Act) : TwoPools := (s.act c a).2

end TwoPools

end Axona
