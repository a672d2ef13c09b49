import Axona.Library.Double
import Axona.Library.Transition
import Axona.Transport.Bridge

/-! # Presence records

A node that is back says so in a record that it signs itself, with a generation that it counts up
(`presence.js`). Whoever gets one checks it, and heeds it only if its generation is higher than any
it heeded of the identity; then it sends the record on, if it came from the origin, to all its
peers. What the hooks do that are called for a heeded record is elsewhere (`onFreshRecord`).

The network may bring any frame to any node. What the owners of keys have signed is written down, and
so is what the nodes heed and send. -/

namespace Axona

open Library

/-! ### Records -/

/-- `PRESENCE_PROTO` -/
def presenceProto : Text := "axona/presence/1".toList

/-- What is signed of a record, under the protocol's name. -/
structure PresenceCore where
  nodeId : Text
  pubkey : Text
  gen : Nat
  nonce : Text
deriving DecidableEq, Repr

/-- A `presence` frame as it came in. A field is there if it came as a text, or as an integer; `hop`
is outside of what is signed, and `0` where it is missing. -/
structure PresenceFrame where
  proto : Option Text
  nodeId : Option Text
  pubkey : Option Text
  gen : Option Int
  nonce : Option Text
  sig : Option Text
  hop : Nat
deriving DecidableEq, Repr

/-- What the check of a record rests on. -/
structure PresencePrimitives extends AuthPrimitives where
  /-- The check of a signature; `none` where the key cannot be imported. -/
  verifyPresence : List Nat → PresenceCore → List Nat → Option Bool

/-- Why a record is refused. -/
inductive PresenceFailure where
  | notAnObject
  | protoMismatch
  | badNodeId
  | badPubkey
  | badGen
  | badNonce
  | badSigScheme
  | badSigLength
  | pubkeyNodeIdMismatch
  | verifyThrew
  | badSignature
deriving DecidableEq, Repr

/-- What a record proves. -/
structure Presence where
  identityHex : Text
  nodeId : Text
  gen : Nat
deriving DecidableEq, Repr

/-- Lower-case hex of just `n` characters. -/
def lowerHexOf (n : Nat) (t : Text) : Bool := t.length == n && t.all isLowerHex

namespace PresenceFrame

/-- What the signature of a frame is to be over. -/
def core (f : PresenceFrame) : PresenceCore :=
  ⟨f.nodeId.getD [], f.pubkey.getD [], (f.gen.getD 0).toNat, f.nonce.getD []⟩

/-- The key a frame shows. -/
def key (f : PresenceFrame) : List Nat := hexBytes (f.pubkey.getD [])

end PresenceFrame

/-- `verifyPresenceRecord` -/
def verifyPresenceRecord (P : PresencePrimitives) (frame : Option PresenceFrame) :
    Except PresenceFailure Presence :=
  match frame with
  | none => .error .notAnObject
  | some f =>
    let sig := f.sig.getD []
    let sigHex := sig.drop signatureTag.length
    if f.proto ≠ some presenceProto then .error .protoMismatch
    else if lowerHexOf 66 f.core.nodeId = false then .error .badNodeId
    else if lowerHexOf 64 f.core.pubkey = false then .error .badPubkey
    else if f.gen.any (fun g : Int => decide (0 ≤ g ∧ g < exactBound)) = false then .error .badGen
    else if lowerHexOf 32 f.core.nonce = false then .error .badNonce
    else if signatureTag.isPrefixOf sig = false then .error .badSigScheme
    else if lowerHexOf 128 sigHex = false then .error .badSigLength
    else if pubkeyMatchesNodeId P.toAuthPrimitives f.key f.core.nodeId = false then
      .error .pubkeyNodeIdMismatch
    else
      match P.verifyPresence f.key f.core (hexBytes sigHex) with
      | none => .error .verifyThrew
      | some false => .error .badSignature
      | some true => .ok ⟨f.core.nodeId.drop 2, f.core.nodeId, f.core.gen⟩

/-! ### A node -/

/-- What a node keeps of presence. All of it is in memory only. -/
structure PresenceNode where
  /-- `_presenceGen` -/
  gen : Nat := 0
  /-- `_presenceWatermarks` -/
  watermarks : OrderedMap Text Nat := ∅
  /-- `_presenceRelayAt` -/
  relayAt : OrderedMap Text ℚ := ∅
  /-- The identities and generations that were heeded, newest first. -/
  heeded : List (Text × Nat) := []
  /-- The records that were sent on, with the time. -/
  relays : List (Text × Nat × ℚ) := []

/-- What a node does with what comes to it: what it becomes, what it signs, and what it sends. -/
structure PresenceReaction where
  node : PresenceNode
  signed : List (List Nat × PresenceCore) := []
  sent : List (NodeId × PresenceFrame) := []

/-- What can come to a node. -/
inductive PresenceInput where
  /-- `announcePresence`, to the peers in the table; `sig` is what signing gave, if anything. -/
  | announce (nonce : Text) (sig : Option Text) (peers : List NodeId)
  /-- The check of a frame has ended. -/
  | frame (wall : ℚ) (frame : Option PresenceFrame) (peers : List NodeId)
  /-- The node is started again. -/
  | restart

namespace PresenceNode

variable (rate : Option ℚ)

/-- The record is heeded. -/
def heed (n : PresenceNode) (r : Presence) : PresenceNode :=
  { n with
    watermarks := n.watermarks.set r.identityHex r.gen
    heeded := (r.identityHex, r.gen) :: n.heeded }

/-- May the record be sent on? It must come from the origin, and none of the identity may have been
sent on for a while. -/
def relays? (n : PresenceNode) (wall : ℚ) (key : Text) (f : PresenceFrame) : Bool :=
  rate.any fun rate =>
    f.hop == 0 && (n.relayAt.get key).all fun last => decide (rate ≤ wall - last)

/-- The record is sent on, as it came but for its hop. -/
def relay (n : PresenceNode) (wall : ℚ) (r : Presence) : PresenceNode :=
  { n with
    relayAt := n.relayAt.set r.identityHex wall
    relays := (r.identityHex, r.gen, wall) :: n.relays }

/-- The handler of `presence`, after its `await`. -/
def onPresence (P : PresencePrimitives) (n : PresenceNode) (wall : ℚ) (frame : Option PresenceFrame)
    (peers : List NodeId) : PresenceReaction :=
  match verifyPresenceRecord P frame with
  | .error _ => { node := n }
  | .ok r =>
    if (n.watermarks.get r.identityHex).any fun seen => decide (r.gen ≤ seen) then { node := n }
    else
      let n := n.heed r
      match frame.filter (n.relays? rate wall r.identityHex) with
      | none => { node := n }
      | some f => { node := n.relay wall r, sent := peers.map (·, { f with hop := 1 }) }

/-- What an identity signs to announce a generation. -/
def announcement (own : Identity) (gen : Nat) (nonce : Text) : PresenceCore :=
  ⟨own.nodeId, own.pubkey, gen, nonce⟩

/-- And the frame. -/
def announced (own : Identity) (gen : Nat) (nonce sig : Text) : PresenceFrame :=
  ⟨some presenceProto, some own.nodeId, some own.pubkey, some gen, some nonce, some sig, 0⟩

/-- `announcePresence`. A generation that is no safe integer is not built into a record. -/
def announcePresence (own : Identity) (n : PresenceNode) (nonce : Text) (sig : Option Text)
    (peers : List NodeId) : PresenceReaction :=
  if rate.isNone then { node := n }
  else
    let n := { n with gen := n.gen + 1 }
    match sig.filter fun _ => decide (n.gen < exactBound) with
    | none => { node := n }
    | some sig =>
      { node := n
        signed := [(hexBytes own.pubkey, announcement own n.gen nonce)]
        sent := peers.map (·, announced own n.gen nonce sig) }

def react (P : PresencePrimitives) (own : Identity) (n : PresenceNode) :
    PresenceInput → PresenceReaction
  | .announce nonce sig peers => n.announcePresence rate own nonce sig peers
  | .frame wall frame peers => n.onPresence rate P wall frame peers
  | .restart => { node := {} }

end PresenceNode

/-! ### Many nodes -/

/-- The nodes, what the owners of keys have signed, and who sent which frame to whom. -/
structure PresenceNet (ι : Type) where
  nodes : ι → PresenceNode
  signed : List (List Nat × PresenceCore) := []
  sent : List (ι × NodeId × PresenceFrame) := []

/-- What is fixed: `_presenceCfg.relayRateMs` where a node is armed, and whose identity it has. -/
structure PresenceSetup (ι : Type) where
  rate : ι → Option ℚ
  own : ι → Identity

namespace PresenceNet

variable {ι : Type}

/-- What can happen. -/
inductive Act (ι : Type) where
  | node (i : ι) (x : PresenceInput)
  /-- The owner of a key signs elsewhere. -/
  | sign (key : List Nat) (core : PresenceCore)

/-- One act. -/
def step [DecidableEq ι] (P : PresencePrimitives) (S : PresenceSetup ι) (s : PresenceNet ι) :
    Act ι → PresenceNet ι
  | .node i x =>
    let r := (s.nodes i).react (S.rate i) P (S.own i) x
    { nodes := Function.update s.nodes i r.node
      signed := r.signed ++ s.signed
      sent := r.sent.map (i, ·) ++ s.sent }
  | .sign key core => { s with signed := (key, core) :: s.signed }

/-- Nothing has happened. -/
def init : PresenceNet ι := { nodes := fun _ => {} }

end PresenceNet

end Axona
