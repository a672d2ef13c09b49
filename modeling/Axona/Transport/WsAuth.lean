import Axona.Library.Heap
import Axona.Transport.Handshake
import Axona.Transport.WebSocket

/-! # The WebSocket transport with its handshake

In authenticate mode a `WebSocketTransport` binds a connection itself, to the node whose proof it
has verified. What it keeps of a connection, it keeps under the name its owner gave it, and an owner
may give a name again: a client has one name for every socket it opens, and hears of the end of one
when the next may be up.

A connection is told from others of its name by a number, its instance. `order`, `proofs` and
`deaths` note which names were bound last, by what, and whom a close reported dead; the code does
not have them. -/

namespace Axona

open Library

/-- The two nonces of a channel binding value, and the instances they are of. -/
structure NonceOrigin where
  myNonce : Text
  mine : Option Nat
  peerNonce : Text
  peers : Option Nat
deriving DecidableEq, Repr

namespace NonceOrigin

/-- The channel binding value of the two nonces. -/
def cbv (o : NonceOrigin) : Text := cbvFromNonces o.myNonce o.peerNonce "ws".toList

/-- Both nonces are of this instance. -/
def On (o : NonceOrigin) (i : Option Nat) : Prop := o.mine = i ∧ o.peers = i

end NonceOrigin

/-- The handshake of one connection. `madeFor` is the instance that was open when our nonce was
made, `heardOn` the one the peer's nonce came in on. -/
structure WsAuth where
  madeFor : Option Nat
  heardOn : Option Nat
  myNonce : Text
  peerNonce : Option Text
  /-- The proof that came in: `some none` is a body that is no object. -/
  pendingSig : Option (Option Hello)
  sigSent : Bool
  bound : Bool
  verifying : Bool
  expectNodeId : Option Text

/-- What waits at an `await` of `_authMaybeProgress`. -/
inductive WsTask where
  | build (connId : ConnId) (st : Ref) (cbv : Text) (origin : NonceOrigin)
  | verify (connId : ConnId) (st : Ref) (result : Except AuthFailure Text) (origin : NonceOrigin)

/-- A binding: the connection and its instance, if it was open, the node, and what was verified. -/
structure WsProof where
  connId : ConnId
  instance' : Option Nat
  nodeId : Text
  origin : NonceOrigin

structure WsNode where
  ws : WebSocket
  /-- The connections that are open, with their instances. -/
  conns : OrderedMap ConnId Nat
  nextInstance : Nat
  /-- `_authByConn` -/
  auth : OrderedMap ConnId Ref
  states : Heap WsAuth
  tasks : OrderedMap Nat WsTask
  nextTask : Nat
  order : List ConnId
  proofs : List WsProof
  /-- Whom a close reported dead, and whether another open connection was bound to the node. -/
  deaths : List (Text × Bool)

namespace WsNode

def init : WsNode :=
  ⟨.init, ∅, 0, ∅, .empty ⟨none, none, [], none, none, false, false, false, none⟩, ∅, 0, [], [], []⟩

/-- An open connection is bound to the node. -/
def boundTo (s : WsNode) (connId : ConnId) (nodeId : Text) : Bool :=
  s.conns.has connId && decide (s.ws.nodeIdByConnId.get connId = some nodeId)

/-- The open connection that was bound to the node last. -/
def latest (s : WsNode) (nodeId : Text) : Option ConnId :=
  s.order.find? fun c => s.boundTo c nodeId

/-- `_authReject` -/
def authReject (s : WsNode) (connId : ConnId) : WsNode := { s with auth := s.auth.delete connId }

/-- `beginAuth`, with the nonce it would draw. -/
def beginAuth (s : WsNode) (connId : ConnId) (expectNodeId : Option Text) (nonce : Text)
    (throws : Bool) : WsNode :=
  match s.auth.get connId with
  | some r =>
    if expectNodeId.isNone then s
    else
      { s with states := s.states.modify r fun st => { st with expectNodeId := expectNodeId } }
  | none =>
    if throws then s
    else
      let (states, r) := s.states.alloc
        ⟨s.conns.get connId, none, nonce, none, none, false, false, false, expectNodeId⟩
      { s with states := states, auth := s.auth.set connId r }

def addTask (s : WsNode) (task : WsTask) : WsNode :=
  { s with tasks := s.tasks.set s.nextTask task, nextTask := s.nextTask + 1 }

/-- The second half of `_authMaybeProgress`: the check of a proof that is there begins. -/
def beginVerify (P : AuthPrimitives) (s : WsNode) (connId : ConnId) (r : Ref) (cbv : Text)
    (origin : NonceOrigin) : WsNode :=
  let st := s.states.get r
  match st.pendingSig with
  | none => s
  | some body =>
    if st.bound || st.verifying then s
    else
      { s with states := s.states.put r { st with verifying := true } }.addTask
        (.verify connId r (verifyAuthHello P body cbv) origin)

/-- `_authMaybeProgress` -/
def authMaybeProgress (P : AuthPrimitives) (s : WsNode) (connId : ConnId) : WsNode :=
  match s.auth.get connId with
  | none => s
  | some r =>
    let st := s.states.get r
    let peerNonce := st.peerNonce.getD []
    if st.bound || st.myNonce.isEmpty || peerNonce.isEmpty then s
    else
      let cbv := cbvFromNonces st.myNonce peerNonce "ws".toList
      let origin : NonceOrigin := ⟨st.myNonce, st.madeFor, peerNonce, st.heardOn⟩
      if st.sigSent then s.beginVerify P connId r cbv origin
      else
        { s with states := s.states.put r { st with sigSent := true } }.addTask
          (.build connId r cbv origin)

/-- `_authOnHello`, of a frame that came in on an instance. -/
def authOnHello (P : AuthPrimitives) (s : WsNode) (connId : ConnId) (i : Nat)
    (body : Option Text) (nonce : Text) (throws : Bool) : WsNode :=
  match body with
  | none => s.authReject connId
  | some peerNonce =>
    let s := s.beginAuth connId none nonce throws
    match s.auth.get connId with
    | none => s
    | some r =>
      { s with states := s.states.modify r fun st =>
        { st with peerNonce := some peerNonce, heardOn := some i } }.authMaybeProgress P connId

/-- `_authOnSig` -/
def authOnSig (P : AuthPrimitives) (s : WsNode) (connId : ConnId) (body : Option (Option Hello))
    (nonce : Text) (throws : Bool) : WsNode :=
  let s := s.beginAuth connId none nonce throws
  match s.auth.get connId with
  | none => s
  | some r =>
    { s with states := s.states.modify r fun st =>
      { st with pendingSig := body } }.authMaybeProgress P connId

/-- `bindPeer` -/
def bindPeer (s : WsNode) (nodeId : Text) (connId : ConnId) (origin : NonceOrigin) : WsNode :=
  { s with
    ws := s.ws.bindPeer nodeId connId
    order := connId :: s.order
    proofs := ⟨connId, s.conns.get connId, nodeId, origin⟩ :: s.proofs }

/-- The end of `_authMaybeProgress`. The handshake that the name has now need not be the one whose
proof was checked. -/
def afterVerify (allowed : Text → Bool) (s : WsNode) (connId : ConnId) (r : Ref)
    (result : Except AuthFailure Text) (origin : NonceOrigin) : WsNode :=
  if s.auth.has connId then
    match result with
    | .error _ => s.authReject connId
    | .ok nodeId =>
      if (s.states.get r).expectNodeId.any (fun n => decide (nodeId ≠ n)) || !allowed nodeId then
        s.authReject connId
      else
        { s with states := s.states.modify r fun st => { st with bound := true } }.bindPeer nodeId
          connId origin
  else s

/-- What waits goes on; `fails` if our proof cannot be made or sent. -/
def resume (P : AuthPrimitives) (allowed : Text → Bool) (s : WsNode) (k : Nat) (fails : Bool) :
    WsNode :=
  match s.tasks.get k with
  | none => s
  | some task =>
    let s := { s with tasks := s.tasks.delete k }
    match task with
    | .build connId r cbv origin =>
      if s.auth.has connId = false then s
      else if fails then s.authReject connId
      else s.beginVerify P connId r cbv origin
    | .verify connId r result origin => s.afterVerify allowed connId r result origin

/-- `handleConnClosed`: the owner reports the end of an instance. -/
def handleConnClosed (s : WsNode) (connId : ConnId) (i : Nat) : WsNode :=
  let deaths :=
    match s.ws.nodeIdByConnId.get connId with
    | none => s.deaths
    | some n =>
      let others := s.order.any fun c =>
        s.boundTo c n && !decide (c = connId ∧ s.conns.get c = some i)
      (n, others) :: s.deaths
  { s with
    ws := s.ws.handleConnClosed connId
    conns := if s.conns.get connId = some i then s.conns.delete connId else s.conns
    auth := s.auth.delete connId
    deaths := deaths }

/-- What may happen to a transport in authenticate mode. -/
inductive Act where
  /-- The owner opens a connection under a name. -/
  | connect (connId : ConnId)
  /-- An instance has ended, and its owner reports it. -/
  | closed (connId : ConnId) (i : Nat)
  | closeConnection (nodeId : Text)
  | beginAuth (connId : ConnId) (expectNodeId : Option Text) (nonce : Text) (throws : Bool)
  | hello (connId : ConnId) (i : Nat) (body : Option Text) (nonce : Text) (throws : Bool)
  | sig (connId : ConnId) (body : Option (Option Hello)) (nonce : Text) (throws : Bool)
  | resume (k : Nat) (fails : Bool)
  /-- Requests and answers, and the transport's own start and stop. -/
  | traffic (a : WebSocket.Act)

/-- The acts of the transport below that change no binding. -/
def traffic (s : WebSocket) : WebSocket.Act → WebSocket
  | .bindPeer .. => s
  | .unbindPeer _ => s
  | .connClosed _ => s
  | .closeConnection _ => s
  | a => s.step a

def step (P : AuthPrimitives) (allowed : Text → Bool) (s : WsNode) : Act → WsNode
  | .connect connId =>
    { s with
      conns := s.conns.set connId s.nextInstance
      nextInstance := s.nextInstance + 1 }
  | .closed connId i => s.handleConnClosed connId i
  | .closeConnection nodeId => { s with ws := s.ws.closeConnection nodeId }
  | .beginAuth connId expectNodeId nonce throws => s.beginAuth connId expectNodeId nonce throws
  | .hello connId i body nonce throws => s.authOnHello P connId i body nonce throws
  | .sig connId body nonce throws => s.authOnSig P connId body nonce throws
  | .resume k fails => s.resume P allowed k fails
  | .traffic a => { s with ws := traffic s.ws a }

end WsNode

end Axona
