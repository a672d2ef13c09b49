import Axona.Library.Heap
import Axona.Library.Transition
import Axona.Transport.WebRTC

/-! # Negotiating the channels of the mesh

`MeshManager` opens the channels of the mesh. An offer, its answer and the candidates of both ends
travel over signalling that others carry, the bridge or a relay; once the channel is open the two
ends see to it themselves. A key has one negotiation at a time. The attempt id tells an offer and
what belongs to it from those of the attempts before.

Every `await` splits a function in two: what comes after it waits among the `tasks`. A negotiation
that was retired is still there for the tasks that hold it. What the connections do with a
description, what the ledger has room for and what the clock says come with the step that asks. -/

namespace Axona

open Library

/-- `ATTEMPT_REPLACE_MAX` -/
def attemptReplaceMax : Nat := 3

/-- `NEGOTIATION_DEADLINE_MS` -/
def negotiationDeadlineMs : Int := 30000

/-- An attempt id: the run of the node that minted it, and its number there. -/
structure Attempt where
  run : Text
  seq : Nat
deriving DecidableEq, Repr

/-- A frame of the signalling. -/
inductive Signal where
  | offer (attempt : Option Attempt)
  | answer (attempt : Option Attempt)
  | reject (attempt : Option Attempt)
  | ice (attempt : Option Attempt) (candidate : Text)
  /-- A frame of no known kind, or of none. -/
  | other
deriving DecidableEq, Repr

/-! ### Connections -/

inductive SdpType where
  | offer
  | answer
deriving DecidableEq, Repr

inductive SignalingState where
  | stable
  | haveLocalOffer
  | haveRemoteOffer
deriving DecidableEq, Repr

/-- An `RTCPeerConnection`. `remote` says that it has a remote description, `negotiated` that an
offer and its answer were both set; `described` counts the descriptions it took. -/
structure PeerConnection where
  signaling : SignalingState
  remote : Bool
  negotiated : Bool
  candidates : List Text
  described : Nat
deriving DecidableEq, Repr

namespace PeerConnection

def fresh : PeerConnection := ⟨.stable, false, false, [], 0⟩

/-- `setRemoteDescription`; an offer rolls back one of our own. Nothing is set when the connection
does not take the text. -/
def setRemoteDescription (pc : PeerConnection) (type : SdpType) (takes : Bool) :
    Option PeerConnection :=
  if takes then
    match type, pc.signaling with
    | .offer, _ => some { pc with
        signaling := .haveRemoteOffer, remote := true, described := pc.described + 1 }
    | .answer, .haveLocalOffer => some { pc with
        signaling := .stable, remote := true, negotiated := true, described := pc.described + 1 }
    | .answer, _ => none
  else none

/-- `setLocalDescription` -/
def setLocalDescription (pc : PeerConnection) (type : SdpType) (takes : Bool) :
    Option PeerConnection :=
  if takes then
    match type, pc.signaling with
    | .offer, .haveRemoteOffer => none
    | .offer, _ => some { pc with signaling := .haveLocalOffer, described := pc.described + 1 }
    | .answer, .haveRemoteOffer => some { pc with
        signaling := .stable, negotiated := true, described := pc.described + 1 }
    | .answer, _ => none
  else none

end PeerConnection

/-! ### Negotiations -/

inductive PeerRole where
  | offerer
  | responder
deriving DecidableEq, Repr

/-- What is shown of a negotiation. -/
inductive PeerDisplay where
  | new
  | signaling
  | opening
  | open
  | stale
  | failed
  | closed
deriving DecidableEq, Repr

/-- What a `MeshManager` keeps of a peer. `opened` says that `openedAt` was set, and `retryTimer`
that the timer runs. -/
structure Negotiation where
  peerId : MeshId
  role : PeerRole
  state : PeerDisplay
  pc : Option PeerConnection
  opened : Bool
  attempt : Option Attempt
  pendingCandidates : List Text
  retryUsed : Bool
  retryTimer : Bool
deriving DecidableEq, Repr

namespace Negotiation

/-- `_newPeerState` -/
def newPeerState (peerId : MeshId) (role : PeerRole) : Negotiation where
  peerId := peerId
  role := role
  state := .new
  pc := none
  opened := false
  attempt := none
  pendingCandidates := []
  retryUsed := false
  retryTimer := false

/-- `_attachPc` -/
def attachPc (st : Negotiation) : Negotiation :=
  { st with pc := some .fresh, state := .signaling }

/-- `_wireDataChannel` -/
def wireDataChannel (st : Negotiation) : Negotiation := { st with state := .opening }

/-- The negotiation `_initiateTo` begins with. -/
def newOfferer (peerId : MeshId) (attempt : Attempt) : Negotiation :=
  { (newPeerState peerId .offerer).attachPc.wireDataChannel with attempt := some attempt }

/-- `_scheduleRetry`. `overdue`: the deadline of the negotiation has passed. -/
def scheduleRetry (st : Negotiation) (overdue : Bool) : Negotiation :=
  if st.retryUsed || st.retryTimer || st.role ≠ .offerer || overdue then st
  else { st with retryUsed := true, retryTimer := true }

/-- The handler `dc.onopen`: a channel opens over a connection that was negotiated. -/
def onOpen (st : Negotiation) : Negotiation :=
  if st.pc.any (·.negotiated) then
    { st with state := .open, opened := true, retryTimer := false, retryUsed := false }
  else st

/-- `_flushPendingCandidates` -/
def flushPendingCandidates (st : Negotiation) : Negotiation :=
  { st with
    pc := st.pc.map fun pc => { pc with candidates := pc.candidates ++ st.pendingCandidates }
    pendingCandidates := [] }

/-- A candidate of the other end: for the connection, or put by until it has a description. -/
def addCandidate (st : Negotiation) (candidate : Text) : Negotiation :=
  if st.pc.any (·.remote) then
    { st with pc := st.pc.map fun pc => { pc with candidates := pc.candidates ++ [candidate] } }
  else { st with pendingCandidates := st.pendingCandidates ++ [candidate] }

end Negotiation

/-- What goes on after an `await`, and the negotiation it holds. -/
inductive NegTask where
  /-- `_initiateTo`, after `createOffer` -/
  | offerMade (r : Ref)
  /-- `_initiateTo`, after `setLocalDescription` -/
  | offerSet (r : Ref)
  /-- `_handleOffer`, after `setRemoteDescription` -/
  | offerTaken (r : Ref)
  /-- `_handleOffer`, after `_flushPendingCandidates` -/
  | flushed (r : Ref)
  /-- `_handleOffer`, after `createAnswer` -/
  | answerMade (r : Ref)
  /-- `_handleOffer`, after `setLocalDescription` -/
  | answerSet (r : Ref)
  /-- `onSignal` of an answer, after `setRemoteDescription` -/
  | answerTaken (r : Ref)
deriving DecidableEq, Repr

structure MeshManager where
  myId : MeshId
  incRun : Text
  attemptSeq : Nat
  peers : OrderedMap MeshId Ref
  states : Heap Negotiation
  tasks : List NegTask
  /-- How often the negotiation of a key was replaced, and when last. -/
  replaceCounts : OrderedMap MeshId (Nat × Int)
  /-- What was handed to `_sendSignal`. -/
  sent : List (MeshId × Signal)

namespace MeshManager

def init (myId : MeshId) (incRun : Text) : MeshManager where
  myId := myId
  incRun := incRun
  attemptSeq := 0
  peers := ∅
  states := .empty (.newPeerState [] .responder)
  tasks := []
  replaceCounts := ∅
  sent := []

/-- What the key holds. -/
def peer (s : MeshManager) (peerId : MeshId) : Option Negotiation :=
  (s.peers.get peerId).map s.states.get

/-- Is it what its key holds? -/
def serves (s : MeshManager) (r : Ref) : Bool := s.peers.get (s.states.get r).peerId = some r

def update (s : MeshManager) (r : Ref) (f : Negotiation → Negotiation) : MeshManager :=
  { s with states := s.states.modify r f }

def await (s : MeshManager) (t : NegTask) : MeshManager := { s with tasks := s.tasks ++ [t] }

def sendSignal (s : MeshManager) (dest : MeshId) (sig : Signal) : MeshManager :=
  { s with sent := s.sent ++ [(dest, sig)] }

/-- A new negotiation takes the key. -/
def enter (s : MeshManager) (st : Negotiation) : MeshManager :=
  { s with
    states := (s.states.alloc st).1
    peers := s.peers.set st.peerId s.states.next }

/-- `_retire` -/
def retire (s : MeshManager) (peerId : MeshId) : MeshManager :=
  match s.peers.get peerId with
  | none => s
  | some r =>
    { s.update r fun st => { st with retryTimer := false } with peers := s.peers.delete peerId }

/-- `_mintAttempt` -/
def mintAttempt (s : MeshManager) : MeshManager × Attempt :=
  ({ s with attemptSeq := s.attemptSeq + 1 }, ⟨s.incRun, s.attemptSeq + 1⟩)

/-- `_initiateTo`, up to its first `await`. `room`: the ledger reserves. -/
def initiateTo (s : MeshManager) (peerId : MeshId) (room : Bool) : MeshManager :=
  let p := s.mintAttempt
  if room then (p.1.enter (.newOfferer peerId p.2)).await (.offerMade s.states.next) else p.1

/-- `connectViaRelay`, of a key the node has no channel under. -/
def dial (s : MeshManager) (peerId : MeshId) (room : Bool) : MeshManager :=
  if s.peers.has peerId then s else s.initiateTo peerId room

/-- An entry of a peer list, whether its key is in cooldown, and whether the ledger has room. -/
structure Listed where
  peerId : MeshId
  cooldown : Bool
  room : Bool

/-- `onPeerList` -/
def onPeerList (s : MeshManager) (ids : List Listed) : MeshManager :=
  ids.foldl (fun s e =>
    if e.peerId = s.myId ∨ s.peers.has e.peerId ∨ e.cooldown then s
    else s.initiateTo e.peerId e.room) s

/-- `onPeerJoined` and `_acceptFrom` -/
def onPeerJoined (s : MeshManager) (peerId : MeshId) (cooldown : Bool) : MeshManager :=
  if peerId = s.myId ∨ s.peers.has peerId ∨ cooldown then s
  else s.enter (.newPeerState peerId .responder)

/-- `onPeerLeft` -/
def onPeerLeft (s : MeshManager) (peerId : MeshId) : MeshManager :=
  if (s.peer peerId).any (·.state = .open) then s else s.retire peerId

/-! ### Attempts -/

/-- `_replaceCountFor` -/
def replaceCountFor (s : MeshManager) (peerId : MeshId) (now : Int) : Nat :=
  match s.replaceCounts.get peerId with
  | none => 0
  | some (n, time) => if now - time > negotiationDeadlineMs then 0 else n

/-- `_bumpReplaceCount`; counts that have expired read as none, and are not purged here. -/
def bumpReplaceCount (s : MeshManager) (peerId : MeshId) (now : Int) : MeshManager :=
  { s with
    replaceCounts := s.replaceCounts.set peerId (s.replaceCountFor peerId now + 1, now) }

/-- `_sendReject` -/
def sendReject (s : MeshManager) (dest : MeshId) (attempt : Option Attempt) : MeshManager :=
  if attempt.isNone then s else s.sendSignal dest (.reject attempt)

/-- `_attemptOk` -/
def attemptOk (requireFor : MeshId → Bool) (peerId : MeshId) (st : Negotiation)
    (attempt : Option Attempt) : Bool :=
  if attempt.isNone then !requireFor peerId else st.attempt.isNone || st.attempt = attempt

/-- Is an offer of another attempt than the one under way? -/
def replaces (st : Negotiation) (attempt : Option Attempt) : Bool :=
  attempt.isSome && st.attempt ≠ attempt

/-- What becomes of an offer before anything is done about it. -/
inductive OfferVerdict where
  /-- No id where one is required, or a new one for an open channel. -/
  | ignored
  /-- Shed, or no capacity. -/
  | refused
  | replacing
  | handled
deriving DecidableEq, Repr

/-- The first half of `onSignal` of an offer. -/
def offerVerdict (requireFor : MeshId → Bool) (s : MeshManager) (sender : MeshId)
    (attempt : Option Attempt) (room : Bool) (now : Int) : OfferVerdict :=
  if attempt.isNone && requireFor sender then .ignored
  else match s.peer sender with
    | none => if room then .handled else .refused
    | some st =>
      if replaces st attempt then
        if st.opened then .ignored
        else if s.replaceCountFor sender now ≥ attemptReplaceMax then .refused
        else if room then .replacing else .refused
      -- an offer that needs no new connection does not ask the ledger
      else if st.pc.isSome then .handled
      else if room then .handled else .refused

/-- A remote description is set, and `t` waits for it; `onSignal` logs where it is rejected. -/
def setRemote (s : MeshManager) (r : Ref) (type : SdpType) (takes : Bool) (t : NegTask) :
    MeshManager :=
  match (s.states.get r).pc.bind (·.setRemoteDescription type takes) with
  | none => s
  | some pc => (s.update r fun st => { st with pc := some pc }).await t

/-- `_handleOffer`, up to its first `await` -/
def handleOffer (s : MeshManager) (r : Ref) (takes : Bool) : MeshManager :=
  let s := if (s.states.get r).pc.isSome then s else s.update r Negotiation.attachPc
  s.setRemote r .offer takes (.offerTaken r)

/-- The negotiation of the key, or `_initResponderState`. -/
def ensureResponder (s : MeshManager) (peerId : MeshId) : MeshManager × Ref :=
  match s.peers.get peerId with
  | some r => (s, r)
  | none => (s.enter (.newPeerState peerId .responder), s.states.next)

/-- The rest of `onSignal` of an offer. -/
def answerOffer (s : MeshManager) (sender : MeshId) (attempt : Option Attempt) (takes : Bool) :
    MeshManager :=
  let p := s.ensureResponder sender
  (p.1.update p.2 fun st =>
    if attempt.isSome then { st with attempt := attempt } else st).handleOffer p.2 takes

/-- `onSignal`, of an offer -/
def onOffer (requireFor : MeshId → Bool) (s : MeshManager) (sender : MeshId)
    (attempt : Option Attempt) (room takes : Bool) (now : Int) : MeshManager :=
  match s.offerVerdict requireFor sender attempt room now with
  | .ignored => s
  | .refused => s.sendReject sender attempt
  | .replacing =>
    ((s.bumpReplaceCount sender now).retire sender).answerOffer sender attempt takes
  | .handled => s.answerOffer sender attempt takes

/-- `onSignal`, of an answer, up to its first `await` -/
def onAnswer (requireFor : MeshId → Bool) (s : MeshManager) (sender : MeshId)
    (attempt : Option Attempt) (takes : Bool) : MeshManager :=
  match s.peers.get sender with
  | none => s
  | some r =>
    if attemptOk requireFor sender (s.states.get r) attempt then
      s.setRemote r .answer takes (.answerTaken r)
    else s

/-- `onSignal`, of a reject -/
def onReject (s : MeshManager) (sender : MeshId) (attempt : Option Attempt) : MeshManager :=
  match s.peer sender with
  | none => s
  | some st =>
    if st.role ≠ .offerer || st.opened || attempt.isNone || attempt ≠ st.attempt then s
    else s.retire sender

/-- `onSignal`, of a candidate -/
def onIce (requireFor : MeshId → Bool) (s : MeshManager) (sender : MeshId)
    (attempt : Option Attempt) (candidate : Text) : MeshManager :=
  match s.peers.get sender with
  | none => s
  | some r =>
    if attemptOk requireFor sender (s.states.get r) attempt then
      s.update r (·.addCandidate candidate)
    else s

def onSignal (requireFor : MeshId → Bool) (s : MeshManager) (sender : MeshId) (sig : Signal)
    (room takes : Bool) (now : Int) : MeshManager :=
  match sig with
  | .offer attempt => s.onOffer requireFor sender attempt room takes now
  | .answer attempt => s.onAnswer requireFor sender attempt takes
  | .reject attempt => s.onReject sender attempt
  | .ice attempt candidate => s.onIce requireFor sender attempt candidate
  | .other => s

/-! ### What goes on after an `await` -/

/-- The offer is made: it is set, or a retry is scheduled. -/
def afterOfferMade (s : MeshManager) (r : Ref) (takes overdue : Bool) : MeshManager :=
  match (s.states.get r).pc.bind (·.setLocalDescription .offer takes) with
  | some pc => (s.update r fun st => { st with pc := some pc }).await (.offerSet r)
  | none => s.update r fun st => { st with state := .failed }.scheduleRetry overdue

/-- The offer is set: it goes out, if the key is still there for it. -/
def afterOfferSet (s : MeshManager) (r : Ref) : MeshManager :=
  let st := s.states.get r
  if s.serves r then s.sendSignal st.peerId (.offer st.attempt) else s

def afterOfferTaken (s : MeshManager) (r : Ref) : MeshManager :=
  if s.serves r then (s.update r Negotiation.flushPendingCandidates).await (.flushed r) else s

def afterFlushed (s : MeshManager) (r : Ref) : MeshManager :=
  if s.serves r then s.await (.answerMade r) else s

def afterAnswerMade (s : MeshManager) (r : Ref) (takes : Bool) : MeshManager :=
  match (s.states.get r).pc.bind (·.setLocalDescription .answer takes) with
  | some pc => (s.update r fun st => { st with pc := some pc }).await (.answerSet r)
  | none => s

def afterAnswerSet (s : MeshManager) (r : Ref) : MeshManager :=
  let st := s.states.get r
  if s.serves r then s.sendSignal st.peerId (.answer st.attempt) else s

def afterAnswerTaken (s : MeshManager) (r : Ref) : MeshManager :=
  if s.serves r then s.update r Negotiation.flushPendingCandidates else s

/-- A task goes on. -/
def resume (s : MeshManager) (t : NegTask) (takes overdue : Bool) : MeshManager :=
  if t ∈ s.tasks then
    let s := { s with tasks := s.tasks.erase t }
    match t with
    | .offerMade r => s.afterOfferMade r takes overdue
    | .offerSet r => s.afterOfferSet r
    | .offerTaken r => s.afterOfferTaken r
    | .flushed r => s.afterFlushed r
    | .answerMade r => s.afterAnswerMade r takes
    | .answerSet r => s.afterAnswerSet r
    | .answerTaken r => s.afterAnswerTaken r
  else s

/-! ### What the node sees for itself -/

/-- The timer of `_scheduleRetry` -/
def retry (s : MeshManager) (r : Ref) (room : Bool) : MeshManager :=
  let st := s.states.get r
  if st.retryTimer then
    let s := s.update r fun st => { st with retryTimer := false }
    if s.peers.has st.peerId then (s.retire st.peerId).initiateTo st.peerId room else s
  else s

/-- `_onConnState`, of a connection that failed -/
def onConnFailed (s : MeshManager) (r : Ref) (overdue : Bool) : MeshManager :=
  s.update r fun st => { st with state := .failed }.scheduleRetry overdue

/-- `_onConnState`, of a connection that is closed -/
def onConnClosed (s : MeshManager) (r : Ref) : MeshManager :=
  let s := s.update r fun st => { st with state := .closed }
  if s.serves r then s.retire (s.states.get r).peerId else s

/-- The display of `_reapTick`: silent for a while, or heard again. -/
def heartbeat (s : MeshManager) (r : Ref) (silent : Bool) : MeshManager :=
  if s.serves r ∧ (s.states.get r).opened then
    s.update r fun st =>
      if silent then { st with state := .stale }
      else if st.state = .stale then { st with state := .open } else st
  else s

/-- The handler `pc.onicecandidate` -/
def onIceCandidate (s : MeshManager) (r : Ref) (candidate : Text) : MeshManager :=
  let st := s.states.get r
  if s.serves r then s.sendSignal st.peerId (.ice st.attempt candidate) else s

inductive Act where
  | peerList (ids : List Listed)
  | peerJoined (peerId : MeshId) (cooldown : Bool)
  | peerLeft (peerId : MeshId)
  | signal (sender : MeshId) (sig : Signal) (room takes : Bool) (now : Int)
  | resume (t : NegTask) (takes overdue : Bool)
  | heartbeat (r : Ref) (silent : Bool)
  | dial (peerId : MeshId) (room : Bool)
  | iceCandidate (r : Ref) (candidate : Text)
  /-- The channel of the other end arrives. -/
  | dataChannel (r : Ref)
  | opened (r : Ref)
  | connFailed (r : Ref) (overdue : Bool)
  | connClosed (r : Ref)
  | retry (r : Ref) (room : Bool)
  /-- The node gives a key up: its reaper, its degree cap, a `disconnect`. -/
  | retire (peerId : MeshId)

def step (requireFor : MeshId → Bool) (s : MeshManager) : Act → MeshManager
  | .peerList ids => s.onPeerList ids
  | .peerJoined peerId cooldown => s.onPeerJoined peerId cooldown
  | .peerLeft peerId => s.onPeerLeft peerId
  | .signal sender sig room takes now => s.onSignal requireFor sender sig room takes now
  | .resume t takes overdue => s.resume t takes overdue
  | .heartbeat r silent => s.heartbeat r silent
  | .dial peerId room => s.dial peerId room
  | .iceCandidate r candidate => s.onIceCandidate r candidate
  | .dataChannel r => s.update r Negotiation.wireDataChannel
  | .opened r => s.update r Negotiation.onOpen
  | .connFailed r overdue => s.onConnFailed r overdue
  | .connClosed r => s.onConnClosed r
  | .retry r room => s.retry r room
  | .retire peerId => s.retire peerId

end MeshManager

end Axona
