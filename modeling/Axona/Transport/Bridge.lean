import Axona.Library.OrderedMap
import Axona.Transport.Handshake

/-! # The link to a bridge

A browser dials a bridge over a socket. The bridge greets it with a welcome, sends its
authenticated hello and gets the browser's hello-ack; both are signed over the channel binding
value of the link, which the two ends derive from the welcome: its server nonce and its connection
id, both of the bridge's choosing.

The check of a hello is awaited, and so is the signature under an ack; `BridgeTask` is what waits.
A connection is named by a number no other has, and a signature is noted with the connection it was
made for: neither is known to the code. The bridge itself is a parameter, and what the network may
do between the two ends is in `Network of links` below. -/

namespace Axona

open Library

/-- A connection, by a number no other has. -/
abbrev Session := Nat

/-- The key pair of a peer. -/
structure Identity where
  nodeId : Text
  pubkey : Text
deriving DecidableEq, Repr

/-- What a welcome says of the channel: the nonce and the connection id. -/
structure Welcome where
  serverNonce : Text
  connId : Text
deriving DecidableEq, Repr

namespace Welcome

/-- The channel binding value of a link that was greeted so. -/
def cbv (w : Welcome) : Text := cbvFromNonces w.serverNonce w.connId "bridge".toList

/-- The two texts, in either order. -/
def Same (w w' : Welcome) : Prop :=
  w = w' ∨ w.serverNonce = w'.connId ∧ w.connId = w'.serverNonce

/-- Neither text has the sign that stands between them in the value. -/
def Plain (w : Welcome) : Prop := ':' ∉ w.serverNonce ∧ ':' ∉ w.connId

end Welcome

/-- A signature that was made: by whom, under which welcome, and for which connection. -/
structure Signing where
  signer : Identity
  welcome : Welcome
  session : Session
deriving DecidableEq, Repr

namespace Signing

def key (e : Signing) : List Nat := hexBytes e.signer.pubkey

/-- `buildAuthHello`: what is signed. -/
def transcript (e : Signing) : Transcript :=
  ⟨authProto, e.signer.nodeId, e.signer.pubkey, e.welcome.cbv⟩

end Signing

/-- Which of the two frames of the handshake a hello came in. -/
inductive HelloLabel where
  | hello
  | helloAck
deriving DecidableEq, Repr

/-- What waits at an `await` of `onBridgeAuthHello`. -/
inductive BridgeTask where
  /-- The check of a hello, begun on a connection. -/
  | verify (label : HelloLabel) (w : Welcome) (result : Except AuthFailure Text) (σ : Session)
  /-- The signature under the ack. -/
  | reply (nodeId : Text) (w : Welcome) (σ : Session)

/-- The link of a client to its bridge. -/
structure BridgeLink where
  /-- The connection of the socket that is open. -/
  socket : Option Session
  bridgeServerNonce : Option Text
  /-- `bridgeInfo.connId` -/
  connId : Option Text
  bridgeNodeIdBig : Option NodeId
  /-- The bridge that the transport is bound to. -/
  bridgeNodeId : Option NodeId
  tasks : OrderedMap Nat BridgeTask
  nextTask : Nat

namespace BridgeLink

def init : BridgeLink := ⟨none, none, none, none, none, ∅, 0⟩

/-- The welcome in force: `none` before there is a nonce. -/
def welcome (s : BridgeLink) : Option Welcome :=
  s.bridgeServerNonce.bind fun nonce => if nonce = [] then none else some ⟨nonce, s.connId.getD []⟩

/-- `bridgeCbv` -/
def bridgeCbv (s : BridgeLink) : Option Text := s.welcome.map Welcome.cbv

/-- The socket opens. -/
def onOpen (s : BridgeLink) (σ : Session) : BridgeLink := { s with socket := some σ }

/-- The socket closes: the binding and the nonce go. -/
def onClose (s : BridgeLink) : BridgeLink :=
  { s with
    socket := none, bridgeNodeId := none, bridgeNodeIdBig := none, bridgeServerNonce := none }

/-- The welcome of the bridge. -/
def onWelcome (s : BridgeLink) (serverNonce connId : Option Text) : BridgeLink :=
  { s with bridgeServerNonce := serverNonce, connId := connId }

def addTask (s : BridgeLink) (task : BridgeTask) : BridgeLink :=
  { s with tasks := s.tasks.set s.nextTask task, nextTask := s.nextTask + 1 }

/-- `onBridgeAuthHello`, up to the check: a bound link takes no hello. -/
def onBridgeAuthHello (P : AuthPrimitives) (s : BridgeLink) (label : HelloLabel)
    (frame : Option Hello) : BridgeLink :=
  match s.socket with
  | none => s
  | some σ =>
    if s.bridgeNodeId.isSome then s
    else if label = .helloAck ∧ s.bridgeNodeIdBig.isSome then s
    else
      match s.welcome with
      | none => s
      | some w => s.addTask (.verify label w (verifyAuthHello P frame w.cbv) σ)

/-- `onBridgeAuthHello`, after the check: the bridge is bound, and a hello is answered. -/
def afterVerify (s : BridgeLink) (label : HelloLabel) (w : Welcome)
    (result : Except AuthFailure Text) (σ : Session) : BridgeLink :=
  match result with
  | .error _ => s
  | .ok nodeId =>
    let bound := { s with bridgeNodeId := some (hexValue nodeId) }
    match label with
    | .hello => bound.addTask (.reply nodeId w σ)
    | .helloAck => { bound with bridgeNodeIdBig := some (hexValue nodeId) }

end BridgeLink

/-! ### Network of links

One client and its connections, among any number of bridges and other clients. The network is the
attacker's: any welcome and any hello may come in on any connection. Whoever owns a key may sign
with it, for a connection and a welcome. What a bridge does with a hello-ack is not told here:
`Bridge` is what its check comes to, over the welcome it greeted the connection with. -/

/-- The check of a hello-ack at a bridge: the client it binds. -/
abbrev Bridge := Welcome → Option Hello → Option NodeId

/-- The links, and what was said and signed so far. -/
structure Links where
  client : BridgeLink
  signed : List Signing
  /-- The connections the client opened. -/
  opened : List Session
  /-- The welcomes that were sent, or came in, on a connection. -/
  welcomed : List (Session × Welcome)
  /-- By connection: the client a bridge bound. -/
  admitted : OrderedMap Session NodeId

namespace Links

def init : Links := ⟨.init, [], [], [], ∅⟩

inductive Act where
  /-- The client's socket opens, on a connection it has not had. -/
  | open (σ : Session)
  | close
  /-- A welcome comes in at the client. -/
  | welcome (serverNonce connId : Option Text)
  | hello (label : HelloLabel) (frame : Option Hello)
  /-- What waits goes on. -/
  | resume (k : Nat)
  /-- The owner of a key signs. -/
  | sign (e : Signing)
  /-- A welcome is sent on a connection, of this client or another. -/
  | greet (σ : Session) (w : Welcome)
  /-- A hello-ack comes in at a bridge, on a connection it greeted so. -/
  | ack (σ : Session) (w : Welcome) (frame : Option Hello)

/-- The welcome in force at the client is noted for its connection. -/
def note (s : Links) : Links :=
  { s with
    welcomed := (s.client.socket.bind fun σ => s.client.welcome.map fun w => (σ, w)).toList
      ++ s.welcomed }

def resume (own : Identity) (s : Links) (k : Nat) : Links :=
  match s.client.tasks.get k with
  | none => s
  | some task =>
    let c := { s.client with tasks := s.client.tasks.delete k }
    match task with
    | .verify label w result σ => { s with client := c.afterVerify label w result σ }
    | .reply nodeId w σ =>
      { s with
        client := { c with bridgeNodeIdBig := some (hexValue nodeId) }
        signed := ⟨own, w, σ⟩ :: s.signed }

def step (P : AuthPrimitives) (B : Bridge) (own : Identity) (s : Links) : Act → Links
  | .open σ =>
    if s.client.socket.isSome ∨ σ ∈ s.opened then s
    else { s with client := s.client.onOpen σ, opened := σ :: s.opened }
  | .close => { s with client := s.client.onClose }
  | .welcome serverNonce connId =>
    if s.client.socket.isSome then
      note { s with client := s.client.onWelcome serverNonce connId }
    else s
  | .hello label frame => { s with client := s.client.onBridgeAuthHello P label frame }
  | .resume k => s.resume own k
  | .sign e => { s with signed := e :: s.signed }
  | .greet σ w => { s with welcomed := (σ, w) :: s.welcomed }
  | .ack σ w frame =>
    if (σ, w) ∈ s.welcomed then
      match B w frame with
      | none => s
      | some N => { s with admitted := s.admitted.set σ N }
    else s

end Links

end Axona
