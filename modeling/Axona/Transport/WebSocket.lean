import Axona.Transport.WebRTC

/-! # The WebSocket transport

`WebSocketTransport` is the same contract over sockets, for the bridge and for a Node client. A
node is named by its hex id and a socket by the id its owner gave it. It asks less of a binding
than the mesh does: the last one of a node wins, and a socket that closes takes its node along. -/

namespace Axona

open Library

/-- The name of a socket. -/
abbrev ConnId := Text

/-- The state of a `WebSocketTransport`. -/
structure WebSocket where
  started : Bool
  requests : Requests Text (Received Text)
  connIdByNodeId : OrderedMap Text ConnId
  nodeIdByConnId : OrderedMap ConnId Text

namespace WebSocket

/-- A transport just constructed. -/
def init : WebSocket := ⟨false, .init, ∅, ∅⟩

/-- `bindPeer` -/
def bindPeer (s : WebSocket) (nodeId : Text) (connId : ConnId) : WebSocket :=
  { s with
    connIdByNodeId := s.connIdByNodeId.set nodeId connId
    nodeIdByConnId := s.nodeIdByConnId.set connId nodeId }

/-- `unbindPeer` -/
def unbindPeer (s : WebSocket) (connId : ConnId) : WebSocket :=
  let conns := match s.nodeIdByConnId.get connId with
    | none => s.connIdByNodeId
    | some n => s.connIdByNodeId.delete n
  { s with connIdByNodeId := conns, nodeIdByConnId := s.nodeIdByConnId.delete connId }

/-- `handleConnClosed`: the requests to the node of the socket are rejected. -/
def handleConnClosed (s : WebSocket) (connId : ConnId) : WebSocket :=
  let ids := s.requests.idsWhere fun p => some p.node = s.nodeIdByConnId.get connId
  { s with requests := s.requests.dropAll ids .givenUp }.unbindPeer connId

/-- `closeConnection`: the node loses its socket, which stays open. -/
def closeConnection (s : WebSocket) (nodeId : Text) : WebSocket :=
  match s.connIdByNodeId.get nodeId with
  | none => s
  | some connId => if connId = [] then s else s.unbindPeer connId

/-- `send` -/
def send (s : WebSocket) (nodeId : Text) (connOpen throws : Bool) : WebSocket :=
  if s.started = false then { s with requests := s.requests.refuse nodeId }
  else
    match s.connIdByNodeId.get nodeId with
    | none => { s with requests := s.requests.refuse nodeId }
    | some connId =>
      if connId = [] ∨ connOpen = false then { s with requests := s.requests.refuse nodeId }
      else
        let sent := s.requests.ask maxReqId nodeId
        { s with requests := if throws then sent.drop s.requests.nextId .givenUp else sent }

/-- `handleIncoming` and `_handleResponse`: again the id alone decides. -/
def handleIncoming (s : WebSocket) (connId : ConnId) (msg : Response) : WebSocket :=
  { s with requests :=
    s.requests.drop msg.id (.answered ⟨s.nodeIdByConnId.get connId, msg⟩) }

/-- What may happen to a transport. -/
inductive Act where
  | start
  | stop
  | bindPeer (nodeId : Text) (connId : ConnId)
  | unbindPeer (connId : ConnId)
  | connClosed (connId : ConnId)
  | closeConnection (nodeId : Text)
  | send (nodeId : Text) (connOpen throws : Bool)
  /-- The timer of a request goes off. -/
  | timeout (number : Nat)
  | message (connId : ConnId) (msg : Response)

def step (s : WebSocket) : Act → WebSocket
  | .start => { s with started := true }
  | .stop => { s with requests := s.requests.close, started := false }
  | .bindPeer nodeId connId => s.bindPeer nodeId connId
  | .unbindPeer connId => s.unbindPeer connId
  | .connClosed connId => s.handleConnClosed connId
  | .closeConnection nodeId => s.closeConnection nodeId
  | .send nodeId connOpen throws => s.send nodeId connOpen throws
  | .timeout number => { s with requests := s.requests.fire number }
  | .message connId msg => s.handleIncoming connId msg

end WebSocket

end Axona
