import Axona.Transport.Handshake
import Axona.Transport.WebRTC

/-! # Two ends of the same channels

Two nodes may come to share several channels: both dialled, or one channel outlived a restart of the
signalling. Each end binds them in an order of its own and disconnects the duplicates; what one end
closes the other hears of later, or never.

An end knows a channel by a mesh id, which it gives to one channel at a time. `held` notes the
channel that is bound to the other node and `closed` the channels disconnected as duplicates; the
code does not have them. -/

namespace Axona

open Library

/-- The key of a channel: its two nonces, sorted. -/
def channelKey (myNonce peerNonce : Text) : Text :=
  let p := sortPair myNonce peerNonce
  p.1 ++ ':' :: p.2

theorem channelKey_comm (a b : Text) : channelKey a b = channelKey b a := by
  unfold channelKey
  rw [sortPair_comm]

/-- One of two nodes. -/
inductive Side where
  | left
  | right
deriving DecidableEq, Repr

namespace Side

def other : Side → Side
  | left => right
  | right => left

end Side

/-- The channels between two nodes: the node each end finds at the other, the mesh id of a channel
at each end and the nonce each end drew for it. No two have one key. -/
structure Channels (ι : Type) where
  nodeId : Side → NodeId
  meshId : Side → ι → MeshId
  nonce : Side → ι → Text
  distinct : Function.Injective fun i => channelKey (nonce .left i) (nonce .right i)

namespace Channels

variable {ι : Type} (C : Channels ι)

/-- The key of a channel as an end computes it. -/
def keyAt (side : Side) (i : ι) : Text := channelKey (C.nonce side i) (C.nonce side.other i)

/-- The key of a channel. -/
def key (i : ι) : Text := C.keyAt .left i

/-- Both ends come to the same key. -/
theorem keyAt_eq (side : Side) (i : ι) : C.keyAt side i = C.key i := by
  cases side with
  | left => rfl
  | right => exact channelKey_comm ..

theorem key_injective : Function.Injective C.key := C.distinct

end Channels

structure Pair (ι : Type) where
  ends : Side → WebRTC
  held : Side → Option ι
  closed : List ι

namespace Pair

variable {ι : Type} [DecidableEq ι]

def init : Pair ι := ⟨fun _ => .init, fun _ => none, []⟩

/-- An end binds a channel. Where the other node has a channel already, one of the two is
disconnected. -/
def bind (C : Channels ι) (s : Pair ι) (side : Side) (i : ι) : Pair ι :=
  let w := s.ends side
  let meshId := C.meshId side i
  let key := some (C.keyAt side i)
  let ends := Function.update s.ends side (w.bindPeer (C.nodeId side) meshId key)
  match w.duplicate (C.nodeId side) meshId key with
  | none => { s with ends := ends, held := Function.update s.held side (some i) }
  | some (winner, loser) =>
    { ends := ends
      held := if winner = meshId then Function.update s.held side (some i) else s.held
      closed := (if loser = meshId then some i else s.held side).toList ++ s.closed }

/-- An end hears that a channel is lost. -/
def lost (C : Channels ι) (s : Pair ι) (side : Side) (i : ι) : Pair ι :=
  { s with
    ends := Function.update s.ends side ((s.ends side).onPeerLost (C.meshId side i))
    held := if s.held side = some i then Function.update s.held side none else s.held }

inductive Act (ι : Type) where
  | bind (side : Side) (i : ι)
  | lost (side : Side) (i : ι)
  /-- What an end does with its other peers, and its requests. -/
  | aside (side : Side) (a : WebRTC.Act)

def step (C : Channels ι) (s : Pair ι) : Act ι → Pair ι
  | .bind side i => s.bind C side i
  | .lost side i => s.lost C side i
  | .aside side a => { s with ends := Function.update s.ends side ((s.ends side).step a) }

/-- An act of a transport that is about other peers and other channels. -/
def Apart (C : Channels ι) (side : Side) : WebRTC.Act → Prop
  | .bindPeer nodeId meshId _ => nodeId ≠ C.nodeId side ∧ ∀ i, meshId ≠ C.meshId side i
  | .unbindPeer meshId => ∀ i, meshId ≠ C.meshId side i
  | .peerLost meshId => ∀ i, meshId ≠ C.meshId side i
  | .closeConnection nodeId => nodeId ≠ C.nodeId side
  | _ => True

/-- A mesh id is one channel's at a time: none is bound or lost under the mesh id of another one that
is bound. A channel is lost when it was disconnected at one of the ends. -/
def Possible (C : Channels ι) (s : Pair ι) : Act ι → Prop
  | .bind side i => ∀ j, s.held side = some j → C.meshId side j = C.meshId side i → j = i
  | .lost side i => i ∈ s.closed
      ∧ ∀ j, s.held side = some j → C.meshId side j = C.meshId side i → j = i
  | .aside side a => Apart C side a

/-- Of all mesh ids of an end, that of one channel alone is bound to the other node. -/
def Only (C : Channels ι) (s : Pair ι) (side : Side) (i : ι) : Prop :=
  (s.ends side).meshIdByNodeId.get (C.nodeId side) = some (C.meshId side i)
    ∧ ∀ m, (s.ends side).nodeIdByMeshId.get m = some (C.nodeId side) ↔ m = C.meshId side i

end Pair

end Axona
