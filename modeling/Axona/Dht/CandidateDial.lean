import Axona.Dht.CandidateCache
import Axona.Dht.Dials
import Mathlib.Data.Finset.Card

/-! # Considering a candidate

`_considerCandidate` dials a peer that the node was told of. Up to the open that it awaits it runs
at once, and so does what follows the open; whatever else the node does comes in between. On a
transport with `connectViaRelay` the open reaches a bound peer only and the relay dials; on any
other transport the open is the dial. -/

namespace Axona

open Library

/-- `MAX_VERIFY_PROBES` -/
def maxVerifyProbes : Nat := 8

structure CandidateConfig where
  self : NodeId
  marks : MarkConfig
  guard : GuardConfig
  /-- `_fillArmed` -/
  armed : Bool
  /-- Does the transport bind identities? -/
  bindingCapable : Bool
  /-- Does the transport have `connectViaRelay`? -/
  relays : Bool

/-- `openIsTheDial` -/
def CandidateConfig.openIsTheDial (cfg : CandidateConfig) : Bool := !cfg.relays

/-- What a call finds when it asks the transport and the gate. -/
structure Found where
  /-- The transport has the peer bound. -/
  bound : Bool
  /-- The gate admits the bound peer. -/
  admitted : Bool
  /-- `_improveAdmits`: the gate predicts that the candidate displaces a near peer. -/
  covered : Bool
deriving DecidableEq

/-- What `connectViaRelay` answers. -/
inductive RelayAnswer where
  | incarnation (inc : Incarnation)
  /-- Started, of an incarnation that the mesh cannot name. -/
  | started
  /-- Capacity was refused. -/
  | refused
  | notStarted
deriving DecidableEq, Repr

/-- What comes of the open a call awaits, and what the relay and the gate say after it. -/
structure OpenReply where
  opened : Bool
  covered : Bool
  relay : RelayAnswer
deriving DecidableEq

/-- A call that awaits its open. -/
structure DialCall where
  peerId : NodeId
  k : DialToken
deriving DecidableEq, Repr

structure CandidateNode where
  tables : Dials
  /-- `_verifyProbes` -/
  verifyProbes : Nat
  synaptome : Finset NodeId
  /-- `_capM()` -/
  capM : Nat
  awaiting : List DialCall
  /-- What the calls that began an attempt came to. -/
  returned : List (DialCall × DialResult)

namespace CandidateNode

/-- A node just started. -/
def init (capM : Nat) : CandidateNode := ⟨.init, 0, ∅, capM, [], []⟩

variable (cfg : CandidateConfig)

/-- A call of the tables. -/
def call (s : CandidateNode) (a : Dials.Act) : CandidateNode :=
  { s with tables := s.tables.step cfg.marks cfg.guard a }

/-- `_isEligibleCandidate` -/
def isEligible (s : CandidateNode) (id : NodeId) : Bool :=
  (s.tables.marks.eligible cfg.marks id s.tables.mono).1

/-- The question of eligibility may refill the mark. -/
def askEligible (s : CandidateNode) (id : NodeId) : CandidateNode :=
  s.call cfg (.marks (.eligible id))

/-- `consume` -/
def consume (s : CandidateNode) (id : NodeId) : CandidateNode := s.call cfg (.marks (.consume id))

/-- `_fillAvailability` -/
def fillAvailability (s : CandidateNode) (excludeOwn : Bool) : Int :=
  (s.capM - s.synaptome.card : Int)
    - max 0 ((s.tables.guard.inflightCount : Int) - if excludeOwn then 1 else 0)

/-- The fill is armed, and has no room for the dial of a call. -/
def noRoom (s : CandidateNode) (covered : Bool) : Bool :=
  cfg.armed && decide (s.fillAvailability true ≤ 0) && !covered

/-- The call that began an attempt is over. -/
def returning (s : CandidateNode) (c : DialCall) (out : DialResult) : CandidateNode :=
  { s with returned := (c, out) :: s.returned }

/-- The token of a call is released. -/
def release (s : CandidateNode) (c : DialCall) : CandidateNode :=
  s.call cfg (.release c.peerId (some c.k))

/-- The token of a call is ended. -/
def «end» (s : CandidateNode) (c : DialCall) (bound : Bool) : CandidateNode :=
  s.call cfg (.end c.peerId bound (some c.k) none)

/-- `_considerCandidate` up to its open: what the call comes to, or `none` while it awaits the open.
What the legacy insert of a transport that binds no identity does is not told. -/
def considerCandidate (s : CandidateNode) (peerId : NodeId) (f : Found) :
    Option DialResult × CandidateNode :=
  if peerId = cfg.self || decide (peerId ∈ s.synaptome) then (some .skip, s)
  else if !s.isEligible cfg peerId then (some .skip, s.askEligible cfg peerId)
  else
    let s := s.askEligible cfg peerId
    if !cfg.bindingCapable then (some .added, s)
    else if f.bound then
      (some .bound, if f.admitted then { s with synaptome := insert peerId s.synaptome } else s)
    else if maxVerifyProbes ≤ s.verifyProbes then (some .skip, s)
    else
      let s := s.call cfg .sweep
      let allowed := (s.tables.guard.allow cfg.guard peerId s.tables.wall).1
      -- the question and, where it is allowed, the beginning of the attempt
      let s := s.call cfg (.dial peerId)
      if !allowed then (some .skip, s)
      else
        let c : DialCall := ⟨peerId, s.tables.guard.seq⟩
        if s.noRoom cfg f.covered then
          (some .deferredDeficit, (s.release cfg c).returning c .deferredDeficit)
        else
          let s := if cfg.openIsTheDial then s.consume cfg peerId else s
          (none, { s with verifyProbes := s.verifyProbes + 1, awaiting := c :: s.awaiting })

/-- `_considerCandidate` from its open on. -/
def openAnswered (s : CandidateNode) (c : DialCall) (r : OpenReply) : DialResult × CandidateNode :=
  let s := { s with verifyProbes := s.verifyProbes - 1, awaiting := s.awaiting.erase c }
  if r.opened then (.bound, s.end cfg c true)
  else if !s.isEligible cfg c.peerId then (.skip, (s.askEligible cfg c.peerId).release cfg c)
  else
    let s := s.askEligible cfg c.peerId
    if !cfg.openIsTheDial && s.noRoom cfg r.covered then (.deferredDeficit, s.release cfg c)
    else if cfg.relays then
      match r.relay with
      | .incarnation inc =>
        (.held, (s.consume cfg c.peerId).call cfg (.attach c.peerId c.k (some inc)))
      | .started => (.held, (s.consume cfg c.peerId).call cfg (.attach c.peerId c.k none))
      | .refused => (.deferred, s.release cfg c)
      | .notStarted => (.failed, s.end cfg c false)
    else (.failed, s.end cfg c false)

/-- The acts: the calls that are considered, and everything else of the node that comes between. -/
inductive Act where
  | consider (peerId : NodeId) (f : Found)
  | answered (c : DialCall) (r : OpenReply)
  /-- A loss, a bind, a report of a dial, a sweep, another dial site, or the clocks going on. -/
  | tables (a : Dials.Act)
  | seat (id : NodeId)
  | drop (id : NodeId)
  | resize (capM : Nat)

def step (s : CandidateNode) : Act → CandidateNode
  | .consider peerId f => (s.considerCandidate cfg peerId f).2
  | .answered c r =>
    if c ∈ s.awaiting then (s.openAnswered cfg c r).2.returning c (s.openAnswered cfg c r).1 else s
  | .tables a => s.call cfg a
  | .seat id => { s with synaptome := insert id s.synaptome }
  | .drop id => { s with synaptome := s.synaptome.erase id }
  | .resize capM => { s with capM := capM }

end CandidateNode

end Axona
