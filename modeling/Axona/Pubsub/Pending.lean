import Axona.Pubsub.WriteFlight

/-! # The pending writes of a publisher

A publish and a kill are sent once, and may be lost. The publisher keeps each of them for a while,
under its message id, and sends it again with every tick, until it sees the message somewhere. -/

namespace Axona

open Library

/-- `PENDING_PUB_TTL_MS` -/
def pendingPubTtlMs : Int := 30000

/-- `PENDING_PUB_MAX_TRIES` -/
def pendingPubMaxTries : Nat := 6

/-- An entry of `_pendingPub` or `_pendingKill`. -/
structure PendingWrite where
  topic : TopicId
  write : Write
  at' : Int
  tries : Nat
deriving DecidableEq, Repr

/-- A write on its way to the root of a topic. -/
structure PendingFrame where
  topic : TopicId
  write : Write
deriving DecidableEq, Repr

/-- The timers that send one publish again. -/
structure ResendPump where
  topic : TopicId
  msgId : MsgId
  left : Nat
deriving DecidableEq, Repr

structure PendingWrites where
  pubs : OrderedMap MsgId PendingWrite := ∅
  kills : OrderedMap MsgId PendingWrite := ∅
  pumps : List ResendPump := []
  sent : List PendingFrame := []

/-- The tick: a write that is too old or was sent too often goes, any other is tried once more. -/
def PendingWrite.tick (now : Int) (p : PendingWrite) : Option PendingWrite :=
  if pendingPubTtlMs < now - p.at' ∨ pendingPubMaxTries ≤ p.tries then none
  else some { p with tries := p.tries + 1 }

def PendingWrite.frame (p : PendingWrite) : PendingFrame := ⟨p.topic, p.write⟩

/-- The id a write is kept under, if it has one that is not empty. -/
def Write.pendingId (w : Write) : Option MsgId := w.msgId.filter fun id => !id.isEmpty

namespace PendingWrites

/-- `pubsubPublish` and `pubsubKill`: the write is kept and sent. A publish may be sent again
`gaps` times before the next tick. -/
def submit (s : PendingWrites) (now : Int) (t : TopicId) (w : Write) (gaps : Nat) :
    PendingWrites :=
  let s := { s with sent := ⟨t, w⟩ :: s.sent }
  match w.pendingId with
  | none => s
  | some id =>
    if w.isKill then { s with kills := s.kills.set id ⟨t, w, now, 0⟩ }
    else
      { s with
        pubs := s.pubs.set id ⟨t, w, now, 0⟩
        pumps := if gaps = 0 then s.pumps else ⟨t, id, gaps⟩ :: s.pumps }

/-- `_confirmPending`: the message was seen. -/
def confirmPending (s : PendingWrites) (_topic : TopicId) (id : MsgId) : PendingWrites :=
  if id = [] then s
  else { s with pubs := s.pubs.delete id, kills := s.kills.delete id }

/-- The retry of `refreshTick`. -/
def refreshTick (s : PendingWrites) (now : Int) : PendingWrites :=
  let pubs := s.pubs.filterMap fun _ => PendingWrite.tick now
  let kills := s.kills.filterMap fun _ => PendingWrite.tick now
  { s with
    pubs := pubs
    kills := kills
    sent := (kills.entries.reverse ++ pubs.entries.reverse).map (fun e => e.2.frame) ++ s.sent }

/-- A timer of `_earlyResendPump` fires. -/
def pump (s : PendingWrites) (i : Nat) : PendingWrites :=
  match s.pumps[i]? with
  | none => s
  | some p =>
    match s.pubs.get p.msgId with
    | none => { s with pumps := s.pumps.eraseIdx i }
    | some e =>
      { s with
        sent := ⟨p.topic, e.write⟩ :: s.sent
        pumps :=
          if p.left ≤ 1 then s.pumps.eraseIdx i
          else s.pumps.set i { p with left := p.left - 1 } }

/-- `stop`, `leave` and `resetState`, which leaves the kills. -/
def clear (s : PendingWrites) (kills : Bool) : PendingWrites :=
  { s with pubs := ∅, kills := if kills then ∅ else s.kills }

end PendingWrites

/-- What runs next at a publisher. -/
inductive PendingAct where
  | submit (now : Int) (t : TopicId) (w : Write) (gaps : Nat)
  /-- A delivery, an ack or a held copy of a message of the topic, or of its kill. -/
  | observe (t : TopicId) (id : MsgId)
  | tick (now : Int)
  | pump (i : Nat)
  | clear (kills : Bool)

def PendingWrites.step (s : PendingWrites) : PendingAct → PendingWrites
  | .submit now t w gaps => s.submit now t w gaps
  | .observe t id => s.confirmPending t id
  | .tick now => s.refreshTick now
  | .pump i => s.pump i
  | .clear kills => s.clear kills

/-! ### What is owed

The purpose of the tables, in its own terms: each write that was submitted is owed to its topic
until the message is seen there, or its time is over, and is sent with every tick till then. -/

/-- The writes owed, each with its id. -/
structure OwedWrites where
  owed : List (MsgId × PendingWrite) := []
  sent : List PendingFrame := []

namespace OwedWrites

def submit (s : OwedWrites) (now : Int) (t : TopicId) (w : Write) : OwedWrites :=
  match w.pendingId with
  | none => s
  | some id => ⟨(id, ⟨t, w, now, 0⟩) :: s.owed, ⟨t, w⟩ :: s.sent⟩

/-- A message seen in one topic settles what is owed to that topic. -/
def observe (s : OwedWrites) (t : TopicId) (id : MsgId) : OwedWrites :=
  { s with owed := s.owed.filter fun e => ¬(e.1 = id ∧ e.2.topic = t) }

def tick (s : OwedWrites) (now : Int) : OwedWrites :=
  let owed := s.owed.filterMap fun e => (e.2.tick now).map (Prod.mk e.1)
  ⟨owed, owed.map (fun e => e.2.frame) ++ s.sent⟩

def step (s : OwedWrites) : PendingAct → OwedWrites
  | .submit now t w _ => s.submit now t w
  | .observe t id => s.observe t id
  | .tick now => s.tick now
  | .pump _ => s
  | .clear _ => s

end OwedWrites

end Axona
