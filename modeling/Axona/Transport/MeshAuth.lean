import Axona.Library.Heap
import Axona.Transport.Handshake
import Axona.Transport.WebRTC

/-! # The authenticated mesh

Three modules keep a state for each mesh id: `MeshManager` the channel that is up, `MeshAuth` the
handshake, and `WebRTCTransport` the binding. A mesh id is used again: what one channel leaves
behind, the next one under the same id finds. `MeshNode` is the three together.

Each channel is an incarnation of its mesh id, told from the others by a number. A handshake is an
object that a suspended check still holds after it was dropped, so it is named by a reference.
`proofs` and `binds` note what was verified and what was bound; the code does not have them. -/

namespace Axona

open Library

/-- An incarnation of a channel. -/
abbrev Inc := Nat

/-- What the mesh keeps of the channel that is up. -/
structure MeshPeer where
  inc : Inc
  /-- `role`: the offerer dials, and dials again. -/
  offerer : Bool
  /-- `openedAt > 0` -/
  opened : Bool
  retryUsed : Bool
  /-- A retry is due. -/
  retryTimer : Bool
  /-- The fingerprints of the two descriptions, once both are there. -/
  fingerprints : Option (Text × Text)

/-- The handshake of one mesh id. `madeFor` is the incarnation that was up when our nonce was made,
`heardOn` the one the peer's nonce came in on. -/
structure AuthState where
  madeFor : Option Inc
  heardOn : Option Inc
  myNonce : Text
  peerNonce : Option Text
  peerNodeId : Option Text
  /-- The proof that came in: `some none` is a body that is no object. -/
  pendingSig : Option (Option Hello)
  sigSent : Bool
  bound : Bool
  verifying : Bool

/-- The incarnations a channel binding value is of: by its fingerprints, by our nonce and by the
peer's. -/
structure Origin where
  fingerprints : Inc
  mine : Option Inc
  peers : Option Inc
deriving DecidableEq

/-- All of one incarnation. -/
def Origin.one (inc : Inc) : Origin := ⟨inc, some inc, some inc⟩

/-- What waits at an `await` of `_progress`. -/
inductive MeshTask where
  /-- The signature under our own proof. -/
  | build (meshId : MeshId) (st : Ref) (cbv : Text) (origin : Origin)
  /-- The check of the peer's proof. -/
  | verify (meshId : MeshId) (st : Ref) (cbv : Text) (result : Except AuthFailure Text)
      (origin : Origin)

/-- A frame of the mesh. Only the two of the handshake are looked into. -/
inductive MeshFrame where
  | hello (nonce : Option Text)
  | helloSig (body : Option (Option Hello))
  | other

structure MeshNode where
  peers : OrderedMap MeshId MeshPeer
  nextInc : Inc
  /-- The channels retired whose close has not gone through. -/
  closing : List (Inc × MeshId)
  /-- `MeshAuth._state` -/
  states : OrderedMap MeshId Ref
  handshakes : Heap AuthState
  tasks : OrderedMap Nat MeshTask
  nextTask : Nat
  webrtc : WebRTC
  /-- Whose proof was verified, and over what. -/
  proofs : List (NodeId × Origin)
  /-- The calls of `bindPeer`: the incarnation proven, and the one that was up. -/
  binds : List (Inc × Option Inc)

namespace MeshNode

def init : MeshNode :=
  ⟨∅, 0, [], ∅, .empty ⟨none, none, [], none, none, none, false, false, false⟩, ∅, 0, .init, [], []⟩

/-- The incarnation that is up. -/
def current (s : MeshNode) (m : MeshId) : Option Inc := (s.peers.get m).map (·.inc)

/-! ### The channels -/

/-- `_initiateTo` and `_acceptFrom`: a channel under an id that has none. -/
def connect (s : MeshNode) (m : MeshId) (offerer : Bool) : MeshNode :=
  if s.peers.has m then s
  else
    { s with
      peers := s.peers.set m ⟨s.nextInc, offerer, false, false, false, none⟩
      nextInc := s.nextInc + 1 }

/-- `_retire`: the channel goes, and is closed a moment later. `MeshAuth` and the transport hear of
it if it had opened and they are to be told. -/
def retire (s : MeshNode) (m : MeshId) (notifyLost : Bool) : MeshNode :=
  match s.peers.get m with
  | none => s
  | some p =>
    let s := { s with peers := s.peers.delete m, closing := (p.inc, m) :: s.closing }
    if notifyLost && p.opened then
      { s with
        webrtc := if s.webrtc.started then s.webrtc.onPeerLost m else s.webrtc
        states := s.states.delete m }
    else s

/-- `dc.onopen` -/
def onOpen (s : MeshNode) (m : MeshId) : MeshNode :=
  match s.peers.get m with
  | none => s
  | some p =>
    { s with
      peers := s.peers.set m { p with opened := true, retryTimer := false, retryUsed := false } }

/-- The descriptions of a channel are set. -/
def describe (s : MeshNode) (m : MeshId) (fps : Text × Text) : MeshNode :=
  match s.peers.get m with
  | none => s
  | some p => { s with peers := s.peers.set m { p with fingerprints := some fps } }

/-- `_scheduleRetry`: the offerer tries once more, unless the time for it is over. -/
def scheduleRetry (s : MeshNode) (m : MeshId) (overdue : Bool) : MeshNode :=
  match s.peers.get m with
  | none => s
  | some p =>
    if p.retryUsed || p.retryTimer || !p.offerer || overdue then s
    else { s with peers := s.peers.set m { p with retryUsed := true, retryTimer := true } }

/-- The retry: the channel is retired and nobody is told, since another one follows at once, unless
the ledger refuses it. -/
def retry (s : MeshNode) (m : MeshId) (refused : Bool) : MeshNode :=
  match s.peers.get m with
  | none => s
  | some p =>
    if p.retryTimer then
      let s := s.retire m false
      if refused then s else s.connect m true
    else s

/-- A new offer replaces an attempt that has not opened. -/
def replaceAttempt (s : MeshNode) (m : MeshId) : MeshNode :=
  match s.peers.get m with
  | none => s
  | some p => if p.opened then s else (s.retire m false).connect m false

/-! ### The handshake -/

/-- `_ensure`: a handshake is there from now on. -/
def ensure (s : MeshNode) (m : MeshId) (nonce : Text) : MeshNode × Ref :=
  match s.states.get m with
  | some r => (s, r)
  | none =>
    let (h, r) := s.handshakes.alloc
      ⟨s.current m, none, nonce, none, none, none, false, false, false⟩
    ({ s with handshakes := h, states := s.states.set m r }, r)

/-- `onChannelOpen` -/
def onChannelOpen (s : MeshNode) (m : MeshId) (nonce : Text) : MeshNode := (s.ensure m nonce).1

/-- `_cbv`: of both nonces and of the fingerprints of the channel that is up; `null` until they are
there. -/
def cbv (s : MeshNode) (m : MeshId) (st : AuthState) : Option (Text × Origin) :=
  match st.peerNonce, s.peers.get m with
  | some peerNonce, some p =>
    if st.myNonce = [] ∨ peerNonce = [] then none
    else
      p.fingerprints.map fun fp =>
        (cbvFromNonces st.myNonce peerNonce "mesh".toList ++ '|' :: cbvFromFingerprints fp.1 fp.2,
          ⟨p.inc, st.madeFor, st.heardOn⟩)
  | _, _ => none

def addTask (s : MeshNode) (task : MeshTask) : MeshNode :=
  { s with tasks := s.tasks.set s.nextTask task, nextTask := s.nextTask + 1 }

/-- The second half of `_progress`: the check of a proof that is there begins. -/
def beginVerify (P : AuthPrimitives) (s : MeshNode) (m : MeshId) (r : Ref) (cbv : Text)
    (origin : Origin) : MeshNode :=
  let st := s.handshakes.get r
  match st.pendingSig with
  | none => s
  | some body =>
    if st.verifying || st.bound then s
    else
      { s with handshakes := s.handshakes.put r { st with verifying := true } }.addTask
        (.verify m r cbv (verifyAuthHello P body cbv) origin)

/-- `_progress` -/
def progress (P : AuthPrimitives) (s : MeshNode) (m : MeshId) : MeshNode :=
  match s.states.get m with
  | none => s
  | some r =>
    let st := s.handshakes.get r
    if st.bound then s
    else
      match s.cbv m st with
      | none => s
      | some (cbv, origin) =>
        if st.sigSent then s.beginVerify P m r cbv origin
        else
          { s with handshakes := s.handshakes.put r { st with sigSent := true } }.addTask
            (.build m r cbv origin)

/-- `onHello` -/
def onHello (P : AuthPrimitives) (s : MeshNode) (m : MeshId) (inc : Inc) (peerNonce : Option Text)
    (nonce : Text) : MeshNode :=
  match peerNonce with
  | none => s
  | some n =>
    let (s, r) := s.ensure m nonce
    { s with handshakes :=
      s.handshakes.modify r fun st =>
        { st with peerNonce := some n, heardOn := some inc } }.progress P m

/-- `onHelloSig` -/
def onHelloSig (P : AuthPrimitives) (s : MeshNode) (m : MeshId) (body : Option (Option Hello))
    (nonce : Text) : MeshNode :=
  let (s, r) := s.ensure m nonce
  { s with handshakes := s.handshakes.modify r fun st =>
      { st with
        pendingSig := body
        peerNodeId := (body.join.bind (·.nodeId)).or st.peerNodeId } }.progress P m

/-- The transport binds the peer, and a duplicate is disconnected. -/
def bindPeer (s : MeshNode) (nodeId : NodeId) (m : MeshId) (channelKey : Text) : MeshNode :=
  let bound := { s with webrtc := s.webrtc.bindPeer nodeId m (some channelKey) }
  match s.webrtc.duplicate nodeId m (some channelKey) with
  | none => bound
  | some (_, loser) => bound.retire loser true

/-- A proof binds the peer if it is of the node announced and of one that is allowed. -/
def accepts (allowed : Text → Bool) (st : AuthState) (nodeId : Text) : Bool :=
  !(st.peerNodeId.any fun n => decide (n ≠ [] ∧ n ≠ nodeId)) && allowed nodeId

/-- The end of `_progress`: what comes of the check of a proof. -/
def afterVerify (allowed : Text → Bool) (s : MeshNode) (m : MeshId) (r : Ref)
    (result : Except AuthFailure Text) (origin : Origin) : MeshNode :=
  let st := s.handshakes.get r
  let stop (s : MeshNode) : MeshNode :=
    { s with handshakes := s.handshakes.modify r fun st => { st with verifying := false } }
  match result with
  | .error _ => stop s
  | .ok nodeId =>
    let s := { s with proofs := (hexValue nodeId, origin) :: s.proofs }
    if accepts allowed st nodeId then
      let key := sortPair st.myNonce (st.peerNonce.getD [])
      let s := { s with binds := (origin.fingerprints, s.current m) :: s.binds }.bindPeer
        (hexValue nodeId) m (key.1 ++ ':' :: key.2)
      { s with handshakes :=
        s.handshakes.modify r fun st => { st with bound := true, verifying := false } }
    else stop s

/-- What waits goes on. -/
def resume (P : AuthPrimitives) (allowed : Text → Bool) (s : MeshNode) (k : Nat) : MeshNode :=
  match s.tasks.get k with
  | none => s
  | some task =>
    let s := { s with tasks := s.tasks.delete k }
    match task with
    | .build m r cbv origin => s.beginVerify P m r cbv origin
    | .verify m r _ result origin => s.afterVerify allowed m r result origin

/-! ### Frames -/

/-- The mesh id a channel delivers under: a channel that is open, or one that was retired and is not
closed yet. -/
def delivers (s : MeshNode) (inc : Inc) : Option MeshId :=
  match s.peers.entries.find? fun e => e.2.inc = inc ∧ e.2.opened = true with
  | some e => some e.1
  | none => (s.closing.find? fun e => e.1 = inc).map Prod.snd

/-- The node a frame is attributed to. -/
def attributed (s : MeshNode) (inc : Inc) : Option NodeId :=
  if s.webrtc.started then (s.delivers inc).bind s.webrtc.nodeIdByMeshId.get else none

/-- A frame of a channel: the handshake sees it only while the mesh id is not bound. -/
def onMessage (P : AuthPrimitives) (s : MeshNode) (inc : Inc) (frame : MeshFrame) (nonce : Text) :
    MeshNode :=
  if s.webrtc.started then
    match s.delivers inc with
    | none => s
    | some m =>
      if s.webrtc.nodeIdByMeshId.has m then s
      else
        match frame with
        | .hello peerNonce => s.onHello P m inc peerNonce nonce
        | .helloSig body => s.onHelloSig P m body nonce
        | .other => s
  else s

/-! ### Steps -/

inductive Act where
  | connect (m : MeshId) (offerer : Bool)
  | describe (m : MeshId) (fps : Text × Text)
  | open (m : MeshId)
  /-- The mesh reports a channel that is open. -/
  | notice (m : MeshId) (nonce : Text)
  /-- ICE failed. -/
  | failed (m : MeshId) (overdue : Bool)
  | retry (m : MeshId) (refused : Bool)
  | replaceAttempt (m : MeshId)
  /-- A channel is retired, for whatever reason but a retry. -/
  | retire (m : MeshId)
  /-- The close of a retired channel goes through. -/
  | closed (inc : Inc)
  | closeConnection (nodeId : NodeId)
  | message (inc : Inc) (frame : MeshFrame) (nonce : Text)
  | resume (k : Nat)
  | start
  | stop

def step (P : AuthPrimitives) (allowed : Text → Bool) (s : MeshNode) : Act → MeshNode
  | .connect m offerer => s.connect m offerer
  | .describe m fps => s.describe m fps
  | .open m => s.onOpen m
  | .notice m nonce =>
    if (s.peers.get m).any (·.opened) then s.onChannelOpen m nonce else s
  | .failed m overdue => s.scheduleRetry m overdue
  | .retry m refused => s.retry m refused
  | .replaceAttempt m => s.replaceAttempt m
  | .retire m => s.retire m true
  | .closed inc => { s with closing := s.closing.filter fun e => e.1 ≠ inc }
  | .closeConnection nodeId =>
    match s.webrtc.meshIdByNodeId.get nodeId with
    | none => s
    | some m =>
      if m = [] then s
      else { s with webrtc := s.webrtc.closeConnection nodeId }.retire m true
  | .message inc frame nonce => s.onMessage P inc frame nonce
  | .resume k => s.resume P allowed k
  | .start => { s with webrtc := s.webrtc.start }
  | .stop => { s with webrtc := s.webrtc.stop }

end MeshNode

end Axona
