import Axona.Dht.AttemptGuard
import Axona.Dht.DeadPeers
import Axona.Library.Transition

/-! # Dials and what is reported of them

How a node dials a peer it was told of (`AxonaPeer._considerCandidate`, on a transport with
`connectViaRelay`), and what it does with a report of a dial: the peer was bound, the negotiation
failed, or the offer could not be delivered. The token of a dial is begun before its open is
awaited, and learns the incarnation of its channel once the dial was issued. -/

namespace Axona

open Library

/-- How a dial is configured. -/
structure DialConfig where
  marks : MarkConfig
  guard : GuardConfig
  /-- `NO_PATH_DEFER` -/
  noPathDefer : Bool
  noPathMs : ℚ := 30000
  noPathMaxMs : ℚ := 600000

/-- Why a negotiation failed. -/
inductive FailReason where
  /-- The far end had no capacity. -/
  | rejected
  /-- It was aborted for want of a path. -/
  | noPath
  | other
deriving DecidableEq, Repr

/-- What comes of the open that a dial awaits, and of the relay dial that follows one that did not
succeed. -/
inductive OpenOutcome where
  | opened
  /-- A negotiation was started; the mesh names its incarnation, or cannot. -/
  | issued (named : Bool)
  /-- Capacity was refused. -/
  | deferred
  | notIssued
deriving DecidableEq, Repr

structure Dialler where
  guard : AttemptGuard
  /-- `_deadPeers` -/
  marks : DeadPeers
  /-- The clock of the marks. -/
  mono : ℚ
  /-- The clock of the guard. -/
  wall : ℚ
  /-- The dials whose open is awaited. -/
  awaiting : List (NodeId × DialToken)
  /-- The negotiation of the mesh toward a node. -/
  negotiation : NodeId → Option Incarnation
  /-- The dial that started a negotiation, and whom it dialled. -/
  startedBy : Incarnation → Option (NodeId × DialToken)
  /-- How many negotiations were started. -/
  minted : Nat

namespace Dialler

/-- A node just started. -/
def init : Dialler := ⟨.init, .init, 0, 0, [], fun _ => none, fun _ => none, 0⟩

variable (cfg : DialConfig)

/-- `_considerCandidate` up to the open that it awaits: the dial is begun if the mark is eligible
and the guard allows it. -/
def dial (s : Dialler) (id : NodeId) : Dialler :=
  let r := s.marks.eligible cfg.marks id s.mono
  let s := { s with marks := r.2 }
  if r.1 then
    let a := (s.guard.sweep cfg.guard s.wall).allow cfg.guard id s.wall
    if a.1 then
      let b := a.2.begin cfg.guard id s.wall
      { s with guard := b.2, awaiting := (id, b.1) :: s.awaiting }
    else { s with guard := a.2 }
  else s

/-- The mesh starts a negotiation toward a node for a dial. -/
def negotiate (s : Dialler) (id : NodeId) (k : DialToken) : Dialler :=
  { s with
    negotiation := Function.update s.negotiation id (some (s.minted + 1))
    startedBy := Function.update s.startedBy (s.minted + 1) (some (id, k))
    minted := s.minted + 1 }

/-- `connectViaRelay`: no dial is issued toward a node that a negotiation runs toward. -/
def connectViaRelay (s : Dialler) (id : NodeId) (out : OpenOutcome) : OpenOutcome :=
  if (s.negotiation id).isSome && decide (out ≠ .opened) then .notIssued else out

/-- `_considerCandidate` from there on. -/
def answered (s : Dialler) (id : NodeId) (k : DialToken) (out : OpenOutcome) : Dialler :=
  let s := { s with awaiting := s.awaiting.erase (id, k) }
  match s.connectViaRelay id out with
  | .opened => { s with guard := (s.guard.end cfg.guard id true s.wall (some k) none).2 }
  | out =>
    let r := s.marks.eligible cfg.marks id s.mono
    let s := { s with marks := r.2 }
    if r.1 then
      match out with
      | .issued named =>
        let inc := if named then some (s.minted + 1) else none
        { s.negotiate id k with
          marks := s.marks.consume cfg.marks id s.mono
          guard := s.guard.attach id k inc }
      | .deferred => { s with guard := (s.guard.release id (some k)).2 }
      | _ => { s with guard := (s.guard.end cfg.guard id false s.wall (some k) none).2 }
    else { s with guard := (s.guard.release id (some k)).2 }

/-- The negotiation of an incarnation is over. -/
def finish (s : Dialler) (id : NodeId) (inc : Incarnation) : Dialler :=
  if s.negotiation id = some inc then
    { s with negotiation := Function.update s.negotiation id none }
  else s

/-- The handler of `onPeerBound`, but for the admission of the peer: a bind that ends nothing while
an attempt is in flight is an older channel's. -/
def onPeerBound (s : Dialler) (id : NodeId) (inc : Incarnation) : Dialler :=
  let s := s.finish id inc
  let r := s.guard.end cfg.guard id true s.wall none (some inc)
  let s := { s with guard := r.2 }
  if !r.1 && (r.2.entry (identitySuffix id)).inflight then s
  else { s with marks := s.marks.delete cfg.marks id }

/-- The handler of `onNegotiationFailed`, where a channel to the peer is open or not. A capacity
reject counts nothing. -/
def onNegotiationFailed (s : Dialler) (id : NodeId) (reason : FailReason) (inc : Incarnation)
    (isOpen : Bool) : Dialler :=
  let s := s.finish id inc
  if reason = .noPath then s
  else if reason = .rejected && !isOpen then { s with guard := (s.guard.release id none).2 }
  else
    let r := s.guard.end cfg.guard id isOpen s.wall none (some inc)
    let s := { s with guard := r.2 }
    if !r.1 && (r.2.entry (identitySuffix id)).inflight then s
    else if isOpen then s
    else { s with marks := s.marks.fail cfg.marks id s.mono }

/-- `_onNoPath`: the offer of an attempt could not be delivered. Its negotiation is aborted, and the
identity is put off for its path. -/
def onNoPath (s : Dialler) (id : NodeId) (attempt : Incarnation) (draw : ℚ) : Dialler :=
  if cfg.noPathDefer then
    let s := s.finish id attempt
    let g := (s.guard.release id none).2
    { s with guard := g.deferPath id s.wall cfg.noPathMs cfg.noPathMaxMs (some draw) }
  else s

/-- The acts. A report names the incarnation it is about, which some dial started. -/
inductive Act where
  | wait (mono wall : NNRat)
  | dial (id : NodeId)
  | answered (id : NodeId) (k : DialToken) (out : OpenOutcome)
  /-- The mesh starts the negotiation of a dial anew. -/
  | retry (id : NodeId)
  | bound (id : NodeId) (inc : Incarnation)
  | failed (id : NodeId) (reason : FailReason) (inc : Incarnation) (isOpen : Bool)
  | noPath (id : NodeId) (attempt : Incarnation) (draw : ℚ)
  | sweep
  | delivered (id : NodeId)
  | freshRecord (id : NodeId)

/-- The dial that a report is about. -/
def about (s : Dialler) (id : NodeId) (inc : Incarnation) : Option DialToken :=
  ((s.startedBy inc).filter fun x => x.1 = id).map Prod.snd

def step (s : Dialler) : Act → Dialler
  | .wait mono wall => { s with mono := s.mono + mono, wall := s.wall + wall }
  | .dial id => s.dial cfg id
  | .answered id k out => if (id, k) ∈ s.awaiting then s.answered cfg id k out else s
  | .retry id =>
    match (s.negotiation id).bind fun inc => s.about id inc with
    | some k => s.negotiate id k
    | none => s
  | .bound id inc => if (s.about id inc).isSome then s.onPeerBound cfg id inc else s
  | .failed id reason inc isOpen =>
    if (s.about id inc).isSome then s.onNegotiationFailed cfg id reason inc isOpen else s
  | .noPath id attempt draw =>
    if (s.about id attempt).isSome then s.onNoPath cfg id attempt draw else s
  | .sweep => { s with guard := s.guard.sweep cfg.guard s.wall }
  | .delivered id => { s with guard := s.guard.pathDelivered id }
  | .freshRecord id => { s with guard := (s.guard.onFreshRecord cfg.guard id s.wall).2 }

end Dialler

end Axona
