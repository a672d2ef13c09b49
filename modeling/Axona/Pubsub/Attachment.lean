import Axona.Pubsub.Step

/-! # The attachment of a subscriber

A subscriber renews towards the node it is pinned to, and keeps which root and which epoch that node
serves. Every SUB it sends carries a nonce under a number of its own, and the answers echo the
nonce. A DELIVER that names a generation moves the attachment only as the answer to an attempt newer
than the last one committed, or from the pinned node itself, forward in the epochs of the same root;
a DELIVER that names none is of an older kernel and re-pins as it comes.

The record of a topic stands beside a node, whose `upstream` is the pin. -/

namespace Axona

open Library

/-- A nonce of a SUB. What the source draws at random is numbered. -/
abbrev Nonce := Nat

/-- `_attachWindow`: how many attempts are remembered. -/
def attachWindow : Nat := 16

/-- The record of a topic in `_attach`. -/
structure Attachment where
  /-- The generation attached to. -/
  gen : Option Gen
  /-- `from`: the node that serves it. -/
  server : Option NodeId
  seq : Int
  /-- The numbers of the attempts, by nonce. -/
  attempts : OrderedMap Nonce Int
  /-- The number of the last attempt whose answer was accepted. -/
  committed : Int

namespace Attachment

/-- A record nothing was sent for yet. -/
def blank : Attachment := ⟨none, none, 0, ∅, 0⟩

/-- The number of an attempt, zero where it is not remembered. -/
def number (a : Attachment) (nonce : Nonce) : Int := (a.attempts.get nonce).elim 0 toInt32

/-- One more attempt. The oldest ones are forgotten past the window. -/
def attempt (a : Attachment) (nonce : Nonce) : Attachment :=
  let seq := toInt32 a.seq + 1
  let attempts := a.attempts.set nonce seq
  { a with
    seq := seq
    attempts := OrderedMap.dropOldest^[attempts.size - attachWindow] attempts }

end Attachment

/-- What a DELIVER says of the attachment: the sender, the generation it names if that is well
formed, the nonce it echoes, and the child it hands the seat over to. -/
structure DeliverFrame where
  sender : Option NodeId
  gen : Option Gen
  attach : Option Nonce
  delegate : Option NodeId
  items : List DeliverItem

/-- `_genNorm` -/
def genNorm (g : Gen) : Gen := { g with epoch := if 0 ≤ g.epoch then g.epoch else 0 }

/-- The attachment decision. -/
inductive AttachDecision where
  /-- The answer to a newer attempt, and its number. -/
  | commit (k : Int)
  /-- Of the pinned node, forward. -/
  | forward
  /-- Nothing but bodies. -/
  | data
deriving DecidableEq

/-- A node and its attachments. -/
structure Reader where
  node : Node
  attach : OrderedMap TopicId Attachment

namespace Reader

variable (cfg : Config)

/-- The node is the root of the topic. -/
def isRoot (s : Reader) (t : TopicId) : Bool :=
  (s.node.roleAt t).any fun ρ => (s.node.role ρ).isRoot

/-- The attachment decision of `_onDeliver`, for a frame that names a generation. -/
def decision (s : Reader) (t : TopicId) (g : Gen) (sender : NodeId) (nonce : Option Nonce) :
    AttachDecision :=
  if s.isRoot t then .data
  else
    match nonce, s.attach.get t with
    | some nonce, some a =>
      if 0 < a.number nonce ∧ toInt32 a.committed < a.number nonce then .commit (a.number nonce)
      else .data
    | none, some a =>
      match a.gen, s.node.upstream.get t with
      | some ag, some pin =>
        if sender = pin ∧ ag.root = g.root ∧ toInt32 ag.epoch ≤ toInt32 g.epoch then .forward
        else .data
      | _, _ => .data
    | _, none => .data

/-- A frame that was accepted is written into the record: who serves from now on, and what. -/
def accept (s : Reader) (t : TopicId) (v : AttachDecision) (g : Gen) (server : NodeId) : Reader :=
  let a := (s.attach.get t).getD .blank
  let committed := match v with
    | .commit k => k
    | _ => a.committed
  { s with attach :=
    s.attach.set t { a with gen := some g, server := some server, committed := committed } }

/-- The bodies and deletions of a frame, and where it pins the node. -/
def receive (s : Reader) (w : World) (t : TopicId) (pin : Option NodeId) (genTag : Option Gen)
    (items : List DeliverItem) : Reader :=
  { s with node := s.node.step cfg (w, .deliver t pin genTag items) }

/-- `_onDeliver` -/
def onDeliver (s : Reader) (w : World) (t : TopicId) (f : DeliverFrame) : Reader :=
  match cfg.topicLifetime, f.sender, f.gen with
  | true, some sender, some g =>
    let g := genNorm g
    let v := s.decision t g sender f.attach
    match f.delegate.filter (· ≠ cfg.nodeId) with
    | some child =>
      -- a handover has no bodies, and one that is not accepted does nothing
      if v = .data then s else (s.accept t v g child).receive cfg w t (some child) none []
    | none =>
      if v = .data then s.receive cfg w t none none f.items
      else
        let relay := (s.node.roleAt t).any fun ρ => !(s.node.role ρ).isRoot
        (s.accept t v g sender).receive cfg w t (some sender) (if relay then some g else none)
          f.items
  | _, sender, _ => s.receive cfg w t sender none f.items

/-- `_emitSubscribe`: the nonce of the SUB is noted, but at a root. -/
def emitSubscribe (s : Reader) (t : TopicId) (nonce : Nonce) : Reader :=
  if cfg.topicLifetime && !s.isRoot t then
    { s with attach := s.attach.set t (((s.attach.get t).getD .blank).attempt nonce) }
  else s

/-! ### Steps -/

inductive Act where
  | emitSubscribe (t : TopicId) (nonce : Nonce)
  | deliver (t : TopicId) (f : DeliverFrame)
  /-- The record goes, with the subscription or with the role. -/
  | forget (t : TopicId)
  /-- Anything else the node does. -/
  | other (a : Axona.Act) (notDeliver : ∀ t up g items, a ≠ .deliver t up g items)

def step (s : Reader) (a : World × Act) : Reader :=
  match a.2 with
  | .emitSubscribe t nonce => { s with node.world := a.1 }.emitSubscribe cfg t nonce
  | .deliver t f => s.onDeliver cfg a.1 t f
  | .forget t => { s with node.world := a.1, attach := s.attach.delete t }
  | .other a' _ => { s with node := s.node.step cfg (a.1, a') }

end Reader

/-- A node that has just started. -/
def Reader.boot (w : World) : Reader := ⟨.boot w, ∅⟩

end Axona
