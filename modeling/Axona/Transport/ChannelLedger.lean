import Axona.Transport.WebRTC

/-! # The channel ledger

`ChannelLedger` counts the connections of the mesh: one record for each that may still hold a
socket, and one for each node that some of them is bound to. It builds and closes nothing. It is
asked before a connection is built, and a reservation keeps the place until that happens.

`PoolProfile` is what bounds the counts of an armed ledger. -/

namespace Axona

open Library

/-! ### Pool profiles -/

/-- A feasible profile: nothing is overcommitted. -/
structure PoolProfile where
  M : Nat
  I : Nat
  H : Nat
  pPending : Nat
  cInbound : Nat
  serveFloor : Nat
  promoteMs : Nat
  hostBudget : Option Nat
  doorSockets : Nat
  M_pos : 1 ≤ M
  pPending_pos : 1 ≤ pPending
  pools_le : M + I ≤ H
  pPending_le : pPending ≤ M
  cInbound_le : cInbound ≤ I
  serveFloor_le : serveFloor ≤ M
  budget_le : ∀ b ∈ hostBudget, H + doorSockets ≤ b

/-! ### Records -/

/-- The token of a connection, the mesh's tag of its incarnation. -/
abbrev ChanToken := Nat

/-- The token of a reservation. -/
abbrev ResToken := Nat

/-- `CLS` -/
inductive Cls where
  | M
  | I
deriving DecidableEq, Repr

/-- `'in'` and `'out'` -/
inductive Dir where
  | inbound
  | outbound
deriving DecidableEq, Repr

/-- `CHAN`. A record that would be `GONE` is not kept. -/
inductive ChanState where
  | allocated
  | negotiating
  | open
  | closing
deriving DecidableEq, Repr

/-- `PRE_OPEN` -/
def ChanState.preOpen : ChanState → Bool
  | .allocated | .negotiating => true
  | .open | .closing => false

/-- `POINTABLE` -/
def ChanState.pointable : ChanState → Bool
  | .allocated | .negotiating | .open => true
  | .closing => false

/-- The record of a connection. -/
structure Chan where
  meshId : MeshId
  dir : Dir
  cls : Option Cls
  state : ChanState
  nodeId : Option NodeId
  seq : Nat
deriving DecidableEq, Repr

namespace Chan

/-- It counts against the inbound row. -/
def inboundUnbound (c : Chan) : Bool := c.dir = .inbound && c.state.preOpen && c.nodeId.isNone

/-- It counts against the outbound row. -/
def outboundPending (c : Chan) : Bool := c.dir = .outbound && c.state.preOpen

/-- It is bound to the node, and a peer record may point at it. -/
def serves (c : Chan) (n : NodeId) : Bool := c.nodeId = some n && c.state.pointable

end Chan

/-- A place kept for a connection that is not built yet. -/
structure Reservation where
  cls : Option Cls
  dir : Dir
  at' : Int
deriving DecidableEq, Repr

/-- A move to another class that waits for the channel `after` to be gone. -/
structure ClassMove where
  cls : Cls
  after : ChanToken
deriving DecidableEq, Repr

/-- Which bound a request would exceed. -/
inductive RowFull where
  | phys
  | pool (k : Cls)
  | inbound
  | pending
deriving DecidableEq, Repr

/-- What a ledger is constructed with. -/
structure ChannelLedgerOptions where
  cPhys : Int := 66
  cInbound : Int := 4
  pPending : Int := 8
  reserveTtlMs : Int := 30000
  enforce : Bool := false
  pools : Option PoolProfile := none

/-- The bounds of a ledger. -/
structure ChannelLedgerConfig where
  cPhys : Nat
  cInbound : Nat
  pPending : Nat
  reserveTtlMs : Int
  enforce : Bool
  pools : Option PoolProfile

/-- The constructor: a profile replaces the bounds, each of which is at least one. -/
def ChannelLedgerOptions.config (o : ChannelLedgerOptions) : ChannelLedgerConfig where
  cPhys := (max 1 (o.pools.elim o.cPhys fun p => p.H)).toNat
  cInbound := (max 1 (o.pools.elim o.cInbound fun p => p.cInbound)).toNat
  pPending := (max 1 (o.pools.elim o.pPending fun p => p.pPending)).toNat
  reserveTtlMs := max 0 o.reserveTtlMs
  enforce := o.enforce
  pools := o.pools

/-- `pools[k]` -/
def PoolProfile.size (p : PoolProfile) : Cls → Nat
  | .M => p.M
  | .I => p.I

structure ChannelLedger where
  /-- `_chan` -/
  chan : OrderedMap ChanToken Chan
  /-- `_tByMeshId`: the connection that serves a signalling id. -/
  tByMeshId : OrderedMap MeshId ChanToken
  /-- `_peer`: the connection a bound node is reached by. -/
  peer : OrderedMap NodeId ChanToken
  seq : Nat
  /-- `_res` -/
  res : OrderedMap ResToken Reservation
  resSeq : Nat
  /-- `_pendingReclass` -/
  pendingReclass : OrderedMap ChanToken ClassMove

namespace ChannelLedger

/-- A ledger just constructed. -/
def init : ChannelLedger := ⟨∅, ∅, ∅, 0, ∅, 0, ∅⟩

variable (cfg : ChannelLedgerConfig)

/-! ### Counts -/

def chargedOf (l : ChannelLedger) (k : Cls) : Nat := l.chan.countP fun c => c.cls = some k

def reservedOf (l : ChannelLedger) (k : Cls) : Nat := l.res.countP fun r => r.cls = some k

def reservedAll (l : ChannelLedger) : Nat := l.res.size

def reservedDirOf (l : ChannelLedger) (d : Dir) : Nat := l.res.countP fun r => r.dir = d

def chanAll (l : ChannelLedger) : Nat := l.chan.size

def chanInboundUnbound (l : ChannelLedger) : Nat := l.chan.countP Chan.inboundUnbound

def chanOutboundPending (l : ChannelLedger) : Nat := l.chan.countP Chan.outboundPending

/-- The class has no room: what is charged and what is reserved fill it. -/
def classFull (l : ChannelLedger) (k : Cls) : Bool :=
  cfg.pools.any fun p => decide (p.size k ≤ l.chargedOf k + l.reservedOf k)

/-! ### Reservations -/

/-- The reservation is older than a reservation may get. -/
def expired (r : Reservation) (now : Int) : Bool :=
  decide (0 < cfg.reserveTtlMs) && decide (cfg.reserveTtlMs < now - r.at')

/-- `sweepReservations` -/
def sweepReservations (l : ChannelLedger) (now : Int) : ChannelLedger :=
  { l with res := l.res.filter fun _ r => !expired cfg r now }

/-- The class a request counts against, of an armed ledger. -/
def requestClass (cls : Option Cls) (d : Dir) : Option Cls :=
  if cfg.pools.isSome then some (cls.getD (if d = .inbound then .I else .M)) else none

/-- The first bound that a request would exceed. -/
def rowFull (l : ChannelLedger) (k : Option Cls) (d : Dir) : Option RowFull :=
  if cfg.cPhys ≤ l.chanAll + l.reservedAll then some .phys
  else
    match k.filter (l.classFull cfg) with
    | some k => some (.pool k)
    | none =>
      match d with
      | .inbound =>
        if cfg.cInbound ≤ l.chanInboundUnbound + l.reservedDirOf .inbound then some .inbound
        else none
      | .outbound =>
        if cfg.pPending ≤ l.chanOutboundPending + l.reservedDirOf .outbound then some .pending
        else none

/-- `reserve`: a place, unless a bound is enforced. A bound that is only counted is still named. -/
def reserve (l : ChannelLedger) (cls : Option Cls) (d : Dir) (now : Int) :
    (Option ResToken × Option RowFull) × ChannelLedger :=
  let l := l.sweepReservations cfg now
  let k := requestClass cfg cls d
  let why := l.rowFull cfg k d
  if why.isSome && cfg.enforce then ((none, why), l)
  else
    let token := l.resSeq + 1
    ((some token, why), { l with res := l.res.set token ⟨k, d, now⟩, resSeq := token })

/-- `release` -/
def release (l : ChannelLedger) (token : ResToken) : ChannelLedger :=
  { l with res := l.res.delete token }

/-! ### Classes -/

/-- What comes of a request to move a channel to another class. -/
inductive Reclassed where
  | done (prev : Option Cls)
  | deferred (prev : Option Cls)
  | refused (prev : Option Cls)
  | noChannel
  | badClass (prev : Option Cls)
deriving DecidableEq, Repr

/-- `reclass`: a live channel changes its class. Where the class is full, the move waits for a
channel of the class that is being replaced, or is refused. -/
def reclass (l : ChannelLedger) (t : ChanToken) (cls : Option Cls) (after : Option ChanToken) :
    Reclassed × ChannelLedger :=
  match l.chan.get t with
  | none => (.noChannel, l)
  | some c =>
    match cls with
    | none => (.badClass c.cls, l)
    | some k =>
      if c.cls = some k then (.done c.cls, l)
      else if l.classFull cfg k && cfg.enforce then
        match after.filter fun a => decide (a ≠ t) && (l.chan.get a).any (·.cls = some k) with
        | some a =>
          (.deferred c.cls, { l with pendingReclass := l.pendingReclass.set t ⟨k, a⟩ })
        | none => (.refused c.cls, l)
      else (.done c.cls, { l with chan := l.chan.set t { c with cls := some k } })

/-- A transfer that waited is done, if its channel is live and its class has room. -/
def applyTransfer (l : ChannelLedger) (t : ChanToken) (p : ClassMove) : ChannelLedger :=
  let l := { l with pendingReclass := l.pendingReclass.delete t }
  match l.chan.get t with
  | none => l
  | some c =>
    if l.classFull cfg p.cls then l
    else { l with chan := l.chan.set t { c with cls := some p.cls } }

/-- `_applyPendingReclass`: the transfers that waited for a channel, in their order. -/
def applyPendingReclass (l : ChannelLedger) (goneT : ChanToken) : ChannelLedger :=
  l.pendingReclass.entries.foldl
    (fun l e => if e.2.after = goneT then l.applyTransfer cfg e.1 e.2 else l) l

/-! ### Connections -/

/-- `allocate`: a record for a connection that is being built. Its reservation is consumed; an armed
ledger has no record for one without. -/
def allocate (l : ChannelLedger) (t : ChanToken) (meshId : MeshId) (d : Dir)
    (reservation : Option ResToken) : ChannelLedger :=
  if l.chan.has t then l
  else
    let r := reservation.bind l.res.get
    if cfg.pools.isSome && r.isNone then l
    else
      { l with
        res := reservation.elim l.res l.res.delete
        chan := l.chan.set t ⟨meshId, d, r.bind (·.cls), .allocated, none, l.seq + 1⟩
        tByMeshId := l.tByMeshId.set meshId t
        seq := l.seq + 1 }

/-- `negotiating` -/
def negotiating (l : ChannelLedger) (t : ChanToken) : ChannelLedger :=
  match l.chan.get t with
  | none => l
  | some c =>
    if c.state = .allocated then { l with chan := l.chan.set t { c with state := .negotiating } }
    else l

/-- `open` -/
def opened (l : ChannelLedger) (t : ChanToken) : ChannelLedger :=
  match l.chan.get t with
  | none => l
  | some c =>
    if c.state.preOpen then { l with chan := l.chan.set t { c with state := .open } } else l

/-! ### Bindings -/

/-- The channel that serves a signalling id. -/
def current (l : ChannelLedger) (meshId : MeshId) : Option (ChanToken × Chan) :=
  (l.tByMeshId.get meshId).bind fun t => (l.chan.get t).map fun c => (t, c)

/-- `bind`: the channel that serves a signalling id is the node's from now on. -/
def bind (l : ChannelLedger) (meshId : MeshId) (n : NodeId) : ChannelLedger :=
  match l.current meshId with
  | none => l
  | some (t, c) =>
    if c.state.pointable then
      { l with chan := l.chan.set t { c with nodeId := some n }, peer := l.peer.set n t }
    else l

/-- `_otherPointableFor`: another channel that serves the node, preferably an open one. -/
def otherPointableFor (l : ChannelLedger) (n : NodeId) (exceptT : ChanToken) : Option ChanToken :=
  let others := l.chan.entries.filter fun e => e.1 ≠ exceptT && e.2.serves n
  ((others.find? fun e => e.2.state = .open).or others.head?).map Prod.fst

/-- `_settlePeer`: after a channel stopped serving a node, its record points at another that does,
or goes. -/
def settlePeer (l : ChannelLedger) (n : NodeId) (t : ChanToken) : ChannelLedger :=
  match l.peer.get n with
  | none => l
  | some p =>
    match l.otherPointableFor n t with
    | some other => if p = t then { l with peer := l.peer.set n other } else l
    | none => { l with peer := l.peer.delete n }

/-- The newest bound channel of a signalling id. -/
def newestBound (l : ChannelLedger) (meshId : MeshId) : Option (ChanToken × Chan) :=
  l.chan.entries.foldl (fun newest e =>
    if e.2.meshId = meshId && e.2.nodeId.isSome && newest.all fun x => decide (x.2.seq < e.2.seq)
    then some e else newest) none

/-- The channel whose binding `unbind` drops: the one that serves the signalling id, if it is bound,
or else the newest that is. -/
def unbindTarget (l : ChannelLedger) (meshId : MeshId) : Option (ChanToken × Chan) :=
  match (l.current meshId).filter fun x => x.2.nodeId.isSome with
  | some x => some x
  | none => l.newestBound meshId

/-- `unbind` -/
def unbind (l : ChannelLedger) (meshId : MeshId) : ChannelLedger :=
  match l.unbindTarget meshId with
  | none => l
  | some (t, c) =>
    let l' := { l with chan := l.chan.set t { c with nodeId := none } }
    c.nodeId.elim l' fun n => l'.settlePeer n t

/-! ### Closing -/

/-- The token no longer serves its signalling id. -/
def retire (l : ChannelLedger) (t : ChanToken) (c : Chan) : ChannelLedger :=
  if l.tByMeshId.get c.meshId = some t then { l with tByMeshId := l.tByMeshId.delete c.meshId }
  else l

/-- `closing`: a close was issued. The record stays charged, but no peer record points at it. -/
def closing (l : ChannelLedger) (t : ChanToken) : ChannelLedger :=
  match l.chan.get t with
  | none => l
  | some c =>
    if c.state = .closing then l
    else
      let l := { l with chan := l.chan.set t { c with state := .closing } }.retire t c
      match c.nodeId with
      | none => l
      | some n => if l.peer.get n = some t then l.settlePeer n t else l

/-- `gone`: the transport confirmed the close, and the record goes. -/
def gone (l : ChannelLedger) (t : ChanToken) : ChannelLedger :=
  match l.chan.get t with
  | none => l
  | some c =>
    let l := l.retire t c
    let l := { l with chan := l.chan.delete t }
    let l := c.nodeId.elim l fun n => l.settlePeer n t
    { l with pendingReclass := l.pendingReclass.delete t }.applyPendingReclass cfg t

/-! ### Steps -/

/-- The calls of a ledger. -/
inductive Act where
  | reserve (cls : Option Cls) (d : Dir) (now : Int)
  | release (token : ResToken)
  | sweep (now : Int)
  | reclass (t : ChanToken) (cls : Option Cls) (after : Option ChanToken)
  | allocate (t : ChanToken) (meshId : MeshId) (d : Dir) (reservation : Option ResToken)
  | negotiating (t : ChanToken)
  | open (t : ChanToken)
  | bind (meshId : MeshId) (n : NodeId)
  | unbind (meshId : MeshId)
  | closing (t : ChanToken)
  | gone (t : ChanToken)

def step (l : ChannelLedger) : Act → ChannelLedger
  | .reserve cls d now => (l.reserve cfg cls d now).2
  | .release token => l.release token
  | .sweep now => l.sweepReservations cfg now
  | .reclass t cls after => (l.reclass cfg t cls after).2
  | .allocate t meshId d reservation => l.allocate cfg t meshId d reservation
  | .negotiating t => l.negotiating t
  | .open t => l.opened t
  | .bind meshId n => l.bind meshId n
  | .unbind meshId => l.unbind meshId
  | .closing t => l.closing t
  | .gone t => l.gone cfg t

end ChannelLedger

end Axona
