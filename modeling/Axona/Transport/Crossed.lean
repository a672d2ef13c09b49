import Axona.Library.Crossing
import Axona.Transport.Negotiation
import Axona.Transport.Pair

/-! # Two nodes that dial each other

Two nodes and the signalling between them, which loses nothing and keeps the order. Each has a key
for the other. They dial, the frames come in one after the other, tasks go on, connections open or
fail and retries begin; neither node gives the key up by a verdict of its own. -/

namespace Axona

open Library

/-- The key each of two nodes has for the other, and the tags of their runs, drawn apart. -/
structure Dialers where
  key : Side → MeshId
  incRun : Side → Text
  apart : incRun .left ≠ incRun .right

structure Crossed where
  nodes : Side → MeshManager
  /-- What is on its way to a node. -/
  wire : Side → List Signal

namespace Crossed

def init (D : Dialers) : Crossed where
  nodes := fun side => .init (D.key side.other) (D.incRun side)
  wire := fun _ => []

/-- A node has come to `n`, and `rest` is left of what is on its way to it: what it sent to the
other node is on its way there. -/
def post (D : Dialers) (s : Crossed) (side : Side) (rest : List Signal) (n : MeshManager) :
    Crossed :=
  let mail := (n.sent.filter fun p => p.1 = D.key side).map Prod.snd
  { nodes := Function.update s.nodes side { n with sent := [] }
    wire := Function.update (Function.update s.wire side rest) side.other
      (s.wire side.other ++ mail) }

inductive Act where
  | dial (side : Side) (room : Bool)
  /-- The next frame comes in. -/
  | deliver (side : Side) (room takes : Bool) (now : Int)
  | resume (side : Side) (t : NegTask) (takes overdue : Bool)
  | iceCandidate (side : Side) (r : Ref) (candidate : Text)
  | dataChannel (side : Side) (r : Ref)
  | opened (side : Side) (r : Ref)
  | heartbeat (side : Side) (r : Ref) (silent : Bool)
  | connFailed (side : Side) (r : Ref) (overdue : Bool)
  | retry (side : Side) (r : Ref) (room : Bool)

def step (D : Dialers) (requireFor : MeshId → Bool) (s : Crossed) : Act → Crossed
  | .dial side room => s.post D side (s.wire side) ((s.nodes side).dial (D.key side) room)
  | .deliver side room takes now =>
    match s.wire side with
    | [] => s
    | sig :: rest => s.post D side rest
        ((s.nodes side).onSignal requireFor (D.key side) sig room takes now)
  | .resume side t takes overdue =>
    s.post D side (s.wire side) ((s.nodes side).resume t takes overdue)
  | .iceCandidate side r candidate =>
    s.post D side (s.wire side) ((s.nodes side).onIceCandidate r candidate)
  | .dataChannel side r =>
    s.post D side (s.wire side) ((s.nodes side).update r Negotiation.wireDataChannel)
  | .opened side r => s.post D side (s.wire side) ((s.nodes side).update r Negotiation.onOpen)
  | .heartbeat side r silent => s.post D side (s.wire side) ((s.nodes side).heartbeat r silent)
  | .connFailed side r overdue =>
    s.post D side (s.wire side) ((s.nodes side).onConnFailed r overdue)
  | .retry side r room => s.post D side (s.wire side) ((s.nodes side).retry r room)

/-- What a node holds under the key of the other. -/
def held (D : Dialers) (s : Crossed) (side : Side) : Option Negotiation :=
  (s.nodes side).peer (D.key side)

/-- All frames have been delivered and no task waits. -/
def Quiet (s : Crossed) : Prop := ∀ side, s.wire side = [] ∧ (s.nodes side).tasks = []

instance (s : Crossed) : Decidable s.Quiet :=
  decidable_of_iff ((s.wire .left = [] ∧ (s.nodes .left).tasks = [])
      ∧ (s.wire .right = [] ∧ (s.nodes .right).tasks = []))
    ⟨fun h side => by cases side with
      | left => exact h.1
      | right => exact h.2, fun h => ⟨h .left, h .right⟩⟩

/-- One end offers what the other answers, under one attempt id. -/
def Converged (D : Dialers) (s : Crossed) : Prop :=
  ∃ (side : Side) (attempt : Attempt) (st st' : Negotiation),
    s.held D side = some st ∧ s.held D side.other = some st'
      ∧ st.role = .offerer ∧ st'.role = .responder
      ∧ st.attempt = some attempt ∧ st'.attempt = some attempt

/-- Does a node answer an offer of the other? -/
def Answers (D : Dialers) (s : Crossed) (side : Side) : Prop :=
  ∃ st ∈ s.held D side, st.role = .responder

instance (D : Dialers) (s : Crossed) (side : Side) : Decidable (s.Answers D side) :=
  inferInstanceAs (Decidable (∃ st ∈ s.held D side, st.role = .responder))

/-- Is an offer taken, in place of what the key holds? -/
def Taken (v : MeshManager.OfferVerdict) : Prop := v = .replacing ∨ v = .handled

instance (v : MeshManager.OfferVerdict) : Decidable (Taken v) :=
  inferInstanceAs (Decidable (v = .replacing ∨ v = .handled))

/-- The offer that comes in next, and what comes after it. -/
def nextOffer : List Signal → Option (Option Attempt × List Signal)
  | .offer attempt :: rest => some (attempt, rest)
  | _ => none

/-- An offer with `rest` behind it settles the crossing at an end. Where the end has an offer of its
own, it does not take the other's when the other answers its own already, and takes it when its own
is refused; where it has none, it takes it. -/
def Settled (D : Dialers) (s : Crossed) (side : Side) (v : MeshManager.OfferVerdict)
    (rest : List Signal) : Prop :=
  (Taken v → ∀ st ∈ s.held D side, st.role = .offerer → ¬ s.Answers D side.other)
  ∧ (¬ Taken v → ∃ st ∈ s.held D side, st.role = .offerer ∧ .reject st.attempt ∉ rest
    ∧ (v = .ignored → s.Answers D side.other))

instance (D : Dialers) (s : Crossed) (side : Side) (v : MeshManager.OfferVerdict)
    (rest : List Signal) : Decidable (s.Settled D side v rest) :=
  inferInstanceAs (Decidable (_ ∧ _))

/-- **The condition under which crossed offers converge.** Every offer that comes in settles the
crossing. Besides, what a node begins it has room for, the connection of what its key holds takes
the offer it made, and only the attempt that is under way is tried again. -/
def Settles (D : Dialers) (requireFor : MeshId → Bool) (s : Crossed) : Act → Prop
  | .dial side room => (s.nodes side).peers.has (D.key side) = false → room = true
  | .deliver side room _ now => ∀ p ∈ nextOffer (s.wire side),
      s.Settled D side ((s.nodes side).offerVerdict requireFor (D.key side) p.1 room now) p.2
  | .resume side (.offerMade r) takes _ => (s.nodes side).serves r = true →
      (((s.nodes side).states.get r).pc.bind (·.setLocalDescription .offer takes)).isSome = true
  | .retry side r room => ((s.nodes side).states.get r).retryTimer = true →
      (s.nodes side).peers.has ((s.nodes side).states.get r).peerId = true →
      (s.nodes side).serves r = true ∧ room = true
  | _ => True

instance (D : Dialers) (requireFor : MeshId → Bool) (s : Crossed) :
    ∀ a, Decidable (s.Settles D requireFor a)
  | .dial _ _ => inferInstanceAs (Decidable (_ → _))
  | .deliver side room _ now => inferInstanceAs (Decidable (∀ p ∈ nextOffer (s.wire side),
      s.Settled D side ((s.nodes side).offerVerdict requireFor (D.key side) p.1 room now) p.2))
  | .resume _ (.offerMade _) _ _ => inferInstanceAs (Decidable (_ → _))
  | .retry _ _ _ => inferInstanceAs (Decidable (_ → _ → _ ∧ _))
  | .resume _ (.offerSet _) _ _ => isTrue trivial
  | .resume _ (.offerTaken _) _ _ => isTrue trivial
  | .resume _ (.flushed _) _ _ => isTrue trivial
  | .resume _ (.answerMade _) _ _ => isTrue trivial
  | .resume _ (.answerSet _) _ _ => isTrue trivial
  | .resume _ (.answerTaken _) _ _ => isTrue trivial
  | .iceCandidate _ _ _ => isTrue trivial
  | .dataChannel _ _ => isTrue trivial
  | .opened _ _ => isTrue trivial
  | .heartbeat _ _ _ => isTrue trivial
  | .connFailed _ _ _ => isTrue trivial

/-- An act that meets with no refusal and no failure. -/
def Act.granted : Act → Bool
  | .dial _ room => room
  | .deliver _ room takes _ => room && takes
  | .resume _ _ takes _ => takes
  | .connFailed _ _ _ => false
  | .retry _ _ _ => false
  | _ => true

end Crossed

end Axona
