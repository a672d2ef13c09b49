import Axona.Pubsub.Attachment

/-! # Seats and their delegation

A relay seats those who subscribe under it, up to a bound. Past the bound it hands seats down: it
promotes one of its leaves to a child relay and offers it a batch of the others, which stay seated
here until the child's ADOPTACK names them; where there is nobody to promote, it passes the newcomer
on to a child it has.

`Tree` is the relays of one topic and every packet sent between them. What is in `sent` may arrive
any number of times, in any order, or never. -/

namespace Axona

open Library

/-! ### Constants -/

/-- `DELEGATE_BATCH`: how many seats a child is offered when it is promoted. -/
def delegateBatch : Nat := 8

/-- `ADOPT_ACK_MS`: how long a child has to answer, in milliseconds. -/
def adoptAckMs : Int := 5000

/-! ### Seats -/

inductive SeatKind where
  | reader
  | child
  | standby
deriving DecidableEq, Repr

/-- The entry of a subscriber in `role.subscribers`. -/
structure Seat where
  since : Int
  lastRenewed : Int
  kind : SeatKind
  demand : Int
deriving DecidableEq, Repr

/-- An entry of `merge.pendingDelegation`: what a child was offered, and when. -/
structure Delegation where
  child : NodeId
  subs : List NodeId
  offeredAt : Int
deriving DecidableEq, Repr

/-- The seats of a role. -/
structure Branch where
  subscribers : OrderedMap NodeId Seat
  /-- The seats that are child relays. -/
  children : OrderedMap NodeId Unit
  pendingDelegation : OrderedMap Nonce Delegation

/-- What a node's seats depend on. -/
structure SeatConfig where
  maxDirect : Nat
  dropMs : Int
  childCooldownMs : Int
  topicLifetime : Bool

/-- What relays tell each other about seats, and what they tell the seated. -/
inductive SeatMessage where
  | adopt (parent : NodeId) (subs : List (NodeId × Int)) (nonce : Nonce)
  | adoptAck (nonce : Nonce) (accepted : List NodeId) (refused : Bool)
  /-- The DELIVER that names the child to turn to. -/
  | delegate (child : NodeId) (attach : Option Nonce)
deriving DecidableEq, Repr

structure Packet where
  sender : NodeId
  target : NodeId
  body : SeatMessage
deriving DecidableEq, Repr

/-- A SUB, as far as its seat goes. -/
structure SeatRequest where
  subscriber : NodeId
  since : Int
  kind : SeatKind
  demand : Int
  attach : Option Nonce

namespace Branch

def empty : Branch := ⟨∅, ∅, ∅⟩

/-- The subscriber is offered to a child. -/
def isPending (b : Branch) (x : NodeId) : Bool :=
  b.pendingDelegation.entries.any fun e => e.2.subs.contains x

/-- The seats that may be promoted or handed off, in the order they were taken. A node that stepped
down a short while ago is not the first of them. -/
def leaves (cfg : SeatConfig) (b : Branch) (cooldown : NodeId → Int) (now : Int) : List NodeId :=
  b.subscribers.entries.foldl (fun leaves e =>
    if b.children.has e.1 || b.isPending e.1 then leaves
    else if e.2.kind = .standby then leaves
    else if cfg.topicLifetime && leaves.isEmpty && decide (now < cooldown e.1) then leaves
    else leaves ++ [e.1]) []

/-- Of two children the one closer to a subscriber; of two as close the earlier one. -/
def closer (x : NodeId) : Option NodeId → NodeId → Option NodeId
  | none, c => some c
  | some best, c => if c ^^^ x < best ^^^ x then some c else some best

/-- `_pickChild`: the child closest to a subscriber. Children that lost their seat are dropped. -/
def pickChild (b : Branch) (x : NodeId) : Option NodeId × Branch :=
  let children := b.children.filter fun c _ => b.subscribers.has c
  (children.keys.foldl (closer x) none, { b with children := children })

/-- `_promoteChild`: the first leaf becomes a child and is offered a batch of the others, if there
are any. -/
def promoteChild (cfg : SeatConfig) (b : Branch) (self : NodeId) (cooldown : NodeId → Int)
    (now : Int) (nonce : Nonce) : Option (Branch × List Packet) :=
  match b.leaves cfg cooldown now with
  | leaf :: next :: rest =>
    let batch := (next :: rest).take delegateBatch
    let subs := batch.map fun x => (x, ((b.subscribers.get x).map (·.since)).getD 0)
    some
      ({ b with
          children := b.children.set leaf ()
          pendingDelegation := b.pendingDelegation.set nonce ⟨leaf, batch, now⟩ },
        ⟨self, leaf, .adopt self subs nonce⟩ ::
          if cfg.topicLifetime then batch.map fun x => ⟨self, x, .delegate leaf none⟩ else [])
  | _ => none

/-- Give a newcomer a seat. -/
def seat (b : Branch) (f : SeatRequest) (now : Int) : Branch :=
  { b with subscribers := b.subscribers.set f.subscriber ⟨f.since, now, f.kind, f.demand⟩ }

/-- `_accept`: the seats, the packets sent and the next nonce. -/
def accept (cfg : SeatConfig) (b : Branch) (self : NodeId) (cooldown : NodeId → Int) (now : Int)
    (f : SeatRequest) (nonce : Nonce) : Branch × List Packet × Nonce :=
  match b.subscribers.get f.subscriber with
  | some old =>
    let renewed : Seat := { old with lastRenewed := now, kind := f.kind, demand := f.demand }
    ({ b with subscribers := b.subscribers.set f.subscriber renewed }, [], nonce)
  | none =>
    if cfg.maxDirect ≤ b.subscribers.size ∧ f.kind ≠ .standby then
      match b.promoteChild cfg self cooldown now nonce with
      | some (b, out) => (b.seat f now, out, nonce + 1)
      | none =>
        match b.pickChild f.subscriber with
        | (some c, b) =>
          -- the newcomer is passed on, and has no seat here
          (b, ⟨self, c, .adopt self [(f.subscriber, f.since)] nonce⟩ ::
            (if cfg.topicLifetime then [⟨self, f.subscriber, .delegate c f.attach⟩] else []),
            nonce + 1)
        | (none, b) => (b.seat f now, [], nonce)
    else (b.seat f now, [], nonce)

/-- `_settleDelegation`: those a child confirmed lose their seat here, and the child is a leaf again
if there are none. -/
def settleDelegation (b : Branch) (nonce : Nonce) (accepted : List NodeId) : Branch :=
  match b.pendingDelegation.get nonce with
  | none => b
  | some pend =>
    let b := { b with pendingDelegation := b.pendingDelegation.delete nonce }
    let released := pend.subs.filter fun x =>
      accepted.contains x && b.subscribers.has x && !b.children.has x
    { b with
      subscribers := b.subscribers.filter fun x _ => !released.contains x
      children := if released = [] then b.children.delete pend.child else b.children }

/-- `_delegationSweep`: what no child answered in time is rolled back. -/
def delegationSweep (b : Branch) (now : Int) : Branch :=
  b.pendingDelegation.entries.foldl (fun b e =>
    if adoptAckMs ≤ now - e.2.offeredAt then b.settleDelegation e.1 [] else b) b

/-- The leases that were not renewed lapse. -/
def lapse (cfg : SeatConfig) (b : Branch) (now : Int) : Branch :=
  let stale (x : NodeId) : Bool :=
    (b.subscribers.get x).any fun seat => decide (cfg.dropMs < now - seat.lastRenewed)
  { b with
    subscribers := b.subscribers.filter fun x _ => !stale x
    children := b.children.filter fun x _ => !stale x }

/-- `_onUnsub` -/
def unsub (b : Branch) (x : NodeId) : Branch :=
  { b with subscribers := b.subscribers.delete x, children := b.children.delete x }

/-- A root that was promoted takes over the seats its principal had, those it does not have. -/
def inherit (b : Branch) (now : Int) (seats : List (NodeId × Int × Bool)) : Branch :=
  seats.foldl (fun b e =>
    if b.subscribers.has e.1 then b
    else
      { b with
        subscribers := b.subscribers.set e.1 ⟨e.2.1, now, .reader, 1⟩
        children := if e.2.2 then b.children.set e.1 () else b.children }) b

end Branch

/-! ### The relays of a topic -/

structure Tree where
  branches : OrderedMap NodeId Branch
  /-- `_childCooldown` of each node. -/
  childCooldown : OrderedMap (NodeId × NodeId) Int
  sent : List Packet
  nextNonce : Nonce

namespace Tree

def init : Tree := ⟨∅, ∅, [], 0⟩

/-- Until when a node does not promote another one again. -/
def cooldown (s : Tree) (self x : NodeId) : Int := (s.childCooldown.get (self, x)).getD 0

/-- Change the seats of a node that has a role. -/
def onBranch (s : Tree) (self : NodeId) (f : Branch → Branch) : Tree :=
  match s.branches.get self with
  | none => s
  | some b => { s with branches := s.branches.set self (f b) }

/-- The seat of a SUB that came to a role. A node does not seat itself. -/
def onSub (cfg : SeatConfig) (s : Tree) (self : NodeId) (f : SeatRequest) (now : Int) : Tree :=
  match s.branches.get self with
  | none => s
  | some b =>
    if f.subscriber = self then s
    else
      let (b, out, nonce) := b.accept cfg self (s.cooldown self) now f s.nextNonce
      { s with branches := s.branches.set self b, sent := out ++ s.sent, nextNonce := nonce }

/-- One subscriber of an ADOPT: the seats, what was sent, the next nonce, and who is seated. -/
def adoptOne (cfg : SeatConfig) (self : NodeId) (cooldown : NodeId → Int) (now : Int)
    (acc : Branch × List Packet × Nonce × List NodeId) (x : NodeId × Int) :
    Branch × List Packet × Nonce × List NodeId :=
  let (b, out, nonce, accepted) := acc
  if x.1 = self then acc
  else
    let (b, more, nonce) := b.accept cfg self cooldown now ⟨x.1, x.2, .reader, 1, none⟩ nonce
    (b, more ++ out, nonce, if b.subscribers.has x.1 then accepted ++ [x.1] else accepted)

/-- `_onAdopt`: a node is told to become a child relay. A root with custody refuses. -/
def onAdopt (cfg : SeatConfig) (s : Tree) (self parent : NodeId) (subs : List (NodeId × Int))
    (nonce : Nonce) (now : Int) (custody : Bool) : Tree :=
  if custody then { s with sent := ⟨self, parent, .adoptAck nonce [] true⟩ :: s.sent }
  else
    let (b, out, next, accepted) := subs.foldl (adoptOne cfg self (s.cooldown self) now)
      ((s.branches.get self).getD .empty, [], s.nextNonce, [])
    { s with
      branches := s.branches.set self b
      sent := ⟨self, parent, .adoptAck nonce accepted false⟩ :: (out ++ s.sent)
      nextNonce := next }

/-- `_onAdoptAck` -/
def onAdoptAck (s : Tree) (self : NodeId) (nonce : Nonce) (accepted : List NodeId)
    (refused : Bool) : Tree :=
  s.onBranch self fun b => b.settleDelegation nonce (if refused then [] else accepted)

/-! ### Steps -/

inductive Act where
  | sub (self : NodeId) (f : SeatRequest) (now : Int)
  | unsub (self x : NodeId) (steppedDown : Bool) (now : Int)
  /-- A packet arrives that was sent. -/
  | receive (p : Packet) (now : Int) (custody : Bool)
  | delegationSweep (self : NodeId) (now : Int)
  | lapse (self : NodeId) (now : Int)
  | inherit (self : NodeId) (now : Int) (seats : List (NodeId × Int × Bool))
  /-- A node makes a role for the topic. -/
  | form (self : NodeId)
  /-- The topic is terminated at a relay. -/
  | terminated (self : NodeId)
  /-- The role of a node goes. -/
  | retire (self : NodeId)

def step (cfg : SeatConfig) (s : Tree) : Act → Tree
  | .sub self f now => s.onSub cfg self f now
  | .unsub self x steppedDown now =>
    let s := s.onBranch self (·.unsub x)
    if cfg.topicLifetime && steppedDown then
      { s with childCooldown := s.childCooldown.set (self, x) (now + cfg.childCooldownMs) }
    else s
  | .receive p now custody =>
    if p ∈ s.sent then
      match p.body with
      | .adopt parent subs nonce => s.onAdopt cfg p.target parent subs nonce now custody
      | .adoptAck nonce accepted refused => s.onAdoptAck p.target nonce accepted refused
      | .delegate _ _ => s
    else s
  | .delegationSweep self now => s.onBranch self (·.delegationSweep now)
  | .lapse self now => s.onBranch self (·.lapse cfg now)
  | .inherit self now seats => s.onBranch self (·.inherit now seats)
  | .form self => if s.branches.has self then s
    else { s with branches := s.branches.set self .empty }
  | .terminated self => s.onBranch self fun b => { b with subscribers := ∅, children := ∅ }
  | .retire self => { s with branches := s.branches.delete self }

end Tree

end Axona
