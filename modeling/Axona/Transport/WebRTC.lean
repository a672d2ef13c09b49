import Axona.Library.Requests
import Axona.Transport.Wire

/-! # The WebRTC transport

`WebRTCTransport` puts the transport contract over the channels of the mesh: it keeps which node
is bound to which channel, and the table of the requests it sent. A channel is named by its mesh
id, a text of the signalling layer; what a peer is, by the 264-bit number of its node.

Whether a channel is open and whether the mesh throws on a write are the mesh's to say, so a step
brings them along. The mesh reports a lost channel in a step of its own. -/

namespace Axona

open Library

/-- `MAX_REQ_ID` -/
def maxReqId : Nat := 0x7fffffff

/-- A response on the wire, and `answers`, the request its sender means: ids start over after the
last one, so the id alone does not tell. -/
structure Response where
  id : Nat
  ok : Bool
  body : JsValue
  answers : Nat

/-- A response as it came in: the node its channel was bound to, if any. -/
structure Received (ν : Type) where
  boundTo : Option ν
  response : Response

/-- The name of a channel of the mesh. -/
abbrev MeshId := Text

/-- The state of a `WebRTCTransport`. -/
structure WebRTC where
  started : Bool
  requests : Requests NodeId (Received NodeId)
  meshIdByNodeId : OrderedMap NodeId MeshId
  nodeIdByMeshId : OrderedMap MeshId NodeId
  channelKeyByMeshId : OrderedMap MeshId Text

namespace WebRTC

/-- A transport just constructed. -/
def init : WebRTC := ⟨false, .init, ∅, ∅, ∅⟩

/-! ### Bindings -/

/-- Of two channels to one node the one with the smaller key stays; without both keys, the one that
was there. -/
def newWins (channelKey prevKey : Option Text) : Bool :=
  match channelKey, prevKey with
  | some k, some p => decide (k < p)
  | _, _ => false

/-- The keys of the channels, that of the new one among them. -/
def keysWith (s : WebRTC) (meshId : MeshId) (channelKey : Option Text) : OrderedMap MeshId Text :=
  match channelKey with
  | some k => s.channelKeyByMeshId.set meshId k
  | none => s.channelKeyByMeshId

/-- The winner and the loser, where a node is bound on a second channel. -/
def duplicate (s : WebRTC) (nodeId : NodeId) (meshId : MeshId) (channelKey : Option Text) :
    Option (MeshId × MeshId) :=
  (s.meshIdByNodeId.get nodeId).bind fun prev =>
    if prev = meshId then none
    else if newWins channelKey ((s.keysWith meshId channelKey).get prev) then some (meshId, prev)
    else some (prev, meshId)

/-- `bindPeer`: the channel is the node's from now on. If the node has another channel, one of the
two goes, and the mesh is told to disconnect it. -/
def bindPeer (s : WebRTC) (nodeId : NodeId) (meshId : MeshId) (channelKey : Option Text) : WebRTC :=
  match s.duplicate nodeId meshId channelKey with
  | some (winner, loser) =>
    { s with
      meshIdByNodeId := s.meshIdByNodeId.set nodeId winner
      nodeIdByMeshId := (s.nodeIdByMeshId.set winner nodeId).delete loser
      channelKeyByMeshId := (s.keysWith meshId channelKey).delete loser }
  | none =>
    { s with
      meshIdByNodeId := s.meshIdByNodeId.set nodeId meshId
      nodeIdByMeshId := s.nodeIdByMeshId.set meshId nodeId
      channelKeyByMeshId := s.keysWith meshId channelKey }

/-- `unbindPeer`: the channel goes, and the node with it unless another channel is its route. -/
def unbindPeer (s : WebRTC) (meshId : MeshId) : WebRTC :=
  let nodeId := s.nodeIdByMeshId.get meshId
  let s := { s with
    nodeIdByMeshId := s.nodeIdByMeshId.delete meshId
    channelKeyByMeshId := s.channelKeyByMeshId.delete meshId }
  match nodeId with
  | none => s
  | some n =>
    if s.meshIdByNodeId.get n = some meshId then
      { s with meshIdByNodeId := s.meshIdByNodeId.delete n }
    else s

/-- `_onPeerLost`: where the channel was the route to its node, the requests to that node are
rejected. -/
def onPeerLost (s : WebRTC) (meshId : MeshId) : WebRTC :=
  let s' := match s.nodeIdByMeshId.get meshId with
    | none => s
    | some n =>
      if s.meshIdByNodeId.get n = some meshId then
        { s with requests :=
          s.requests.dropAll (s.requests.idsWhere fun p => p.node = n) .givenUp }
      else s
  s'.unbindPeer meshId

/-- `closeConnection`: the node loses its route before the mesh is told to close it. -/
def closeConnection (s : WebRTC) (nodeId : NodeId) : WebRTC :=
  match s.meshIdByNodeId.get nodeId with
  | none => s
  | some meshId => if meshId = [] then s else s.unbindPeer meshId

/-! ### Requests -/

/-- `send`: a request goes out under the next id, and comes back out of the table if the mesh
throws. -/
def send (s : WebRTC) (nodeId : NodeId) (connected throws : Bool) : WebRTC :=
  if s.started = false then { s with requests := s.requests.refuse nodeId }
  else
    match s.meshIdByNodeId.get nodeId with
    | none => { s with requests := s.requests.refuse nodeId }
    | some meshId =>
      if meshId = [] ∨ connected = false then { s with requests := s.requests.refuse nodeId }
      else
        let sent := s.requests.ask maxReqId nodeId
        { s with requests := if throws then sent.drop s.requests.nextId .givenUp else sent }

/-- `_handleResponse`: whatever is outstanding under the id of the response is settled by it. The
channel it came on is not asked for. -/
def handleResponse (s : WebRTC) (meshId : MeshId) (msg : Response) : WebRTC :=
  { s with requests :=
    s.requests.drop msg.id (.answered ⟨s.nodeIdByMeshId.get meshId, msg⟩) }

/-- `_onMessage`, of a response: without `start` nobody listens to the mesh. -/
def onMessage (s : WebRTC) (meshId : MeshId) (msg : Response) : WebRTC :=
  if s.started then s.handleResponse meshId msg else s

/-! ### Lifecycle -/

def start (s : WebRTC) : WebRTC := { s with started := true }

/-- `stop`: every request outstanding is rejected. -/
def stop (s : WebRTC) : WebRTC :=
  if s.started then { s with requests := s.requests.close, started := false } else s

/-! ### Steps -/

/-- What may happen to a transport. -/
inductive Act where
  | start
  | stop
  | bindPeer (nodeId : NodeId) (meshId : MeshId) (channelKey : Option Text)
  | unbindPeer (meshId : MeshId)
  | peerLost (meshId : MeshId)
  | closeConnection (nodeId : NodeId)
  | send (nodeId : NodeId) (connected throws : Bool)
  /-- The timer of a request goes off. -/
  | timeout (number : Nat)
  | message (meshId : MeshId) (msg : Response)

def step (s : WebRTC) : Act → WebRTC
  | .start => s.start
  | .stop => s.stop
  | .bindPeer nodeId meshId channelKey => s.bindPeer nodeId meshId channelKey
  | .unbindPeer meshId => s.unbindPeer meshId
  | .peerLost meshId => s.onPeerLost meshId
  | .closeConnection nodeId => s.closeConnection nodeId
  | .send nodeId connected throws => s.send nodeId connected throws
  | .timeout number => { s with requests := s.requests.fire number }
  | .message meshId msg => s.onMessage meshId msg

end WebRTC

end Axona
