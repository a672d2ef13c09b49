import Axona.Dht.Inserts

/-! # Who enters the table

On a transport that binds identities the table is fed by binds, by the peers the transport lists as
bound, by a join's sponsor, and by the calls that wait for a channel. Every other id a frame names
is dialed at most. The transport drops a peer when its channel dies or is closed. -/

namespace Axona

open Library

/-- What the admission of a peer reads. -/
structure MembershipConfig where
  inserts : InsertConfig
  /-- `_gateCfg` is set. -/
  gated : Bool := true
  /-- The peers of a bridge socket: `closeConnection` leaves their channel open. -/
  onBridge : NodeId → Bool := fun _ => false

/-- What a seed reads around the table. -/
structure SeedView where
  around : Surroundings
  now : Int
  /-- The pools let the channel of the peer into the table. -/
  allowed : Bool := true

/-- A join at `openConnection`, and what that answered. -/
structure Join where
  sponsor : NodeId
  opened : Option Bool
deriving DecidableEq

/-- The table with its calls, and what the transport holds. -/
structure Membership where
  inserts : Inserts
  /-- The peers the transport holds authenticated. -/
  bound : List NodeId
  /-- What a loop over `boundPeers` has not offered yet. -/
  toOffer : List NodeId
  joins : OrderedMap Nat Join
  nextJoin : Nat
  /-- The peers that died and were not bound since. -/
  died : List NodeId

namespace Membership

variable (c : MembershipConfig)

/-- A node that was not restored, before its first bind. -/
def init : Membership := ⟨Inserts.init ∅, [], [], ∅, 0, []⟩

/-- `node.synaptome` -/
def synaptome (s : Membership) : Synaptome := s.inserts.gate.synaptome

/-- The state with another table. -/
def setSynaptome (s : Membership) (t : Synaptome) : Membership :=
  { s with inserts.gate.synaptome := t }

/-- `closeConnection` -/
def closeConnection (s : Membership) (peer : NodeId) : Membership :=
  if c.onBridge peer then s else { s with bound := s.bound.filter (· ≠ peer) }

/-- `_seedSynaptomeWithSponsor`. A peer that is swapped out is closed. -/
def seed (s : Membership) (v : SeedView) (sponsor : NodeId) : Membership :=
  if s.synaptome.holds sponsor || !v.allowed then s
  else if c.gated then
    let g := s.inserts.gate.offer c.inserts.node v.around v.now sponsor
    { s with
      inserts.gate := g
      bound := s.bound.filter fun q =>
        !s.synaptome.holds q || g.synaptome.holds q || c.onBridge q }
  else s.setSynaptome (s.synaptome.seedInsert c.inserts.node sponsor)

/-- What can happen. -/
inductive Act where
  /-- The transport binds a peer; its incarnation may be stale. -/
  | bind (peer : NodeId) (stale : Bool) (v : SeedView)
  /-- The channel of a peer dies. -/
  | die (peer : NodeId)
  /-- A peer announces that it leaves. -/
  | leaving (peer : NodeId)
  /-- The channel of a peer is closed for another reason. -/
  | close (peer : NodeId)
  /-- `_considerCandidate`: a frame, or a tick, names an id. -/
  | consider (peer : NodeId) (eligible : Bool) (v : SeedView)
  /-- A loop over the bound peers begins, in `_reconcileBound` or `start`. -/
  | list
  /-- The loop offers its next peer; `_reconcileBound` passes over itself and the peers held. -/
  | next (reconciling : Bool) (v : SeedView)
  /-- The loop ends at a throw. -/
  | stop
  /-- `join` begins to wait for its sponsor. -/
  | join (sponsor : NodeId)
  /-- `openConnection` answers a join. -/
  | joinAnswered (k : Nat) (opened : Bool)
  /-- The join goes on. -/
  | joined (k : Nat) (v : SeedView)
  /-- A call begins, waits, or goes on. -/
  | call (a : Inserts.Act)

/-- Can the act come between two offers of a loop? -/
def Act.inLoop : Act → Bool
  | close _ | next _ _ | stop => true
  | _ => false

/-- One step of a call. `openConnection` answers true for a peer that is held authenticated only,
and the acts of a transport that binds nothing do not occur. -/
def callStep (s : Membership) : Inserts.Act → Membership
  | .candidate _ _ _ | .offer _ _ _ | .gone _ => s
  | .answered k opened =>
    let held := ((s.inserts.calls.get k).bind Call.peer).any fun peer => s.bound.contains peer
    { s with inserts := s.inserts.step c.inserts (.answered k (opened && held)) }
  | .evict dead stratum =>
    { s with inserts := s.inserts.step c.inserts (.evict dead stratum) }.closeConnection c dead.id
  | a => { s with inserts := s.inserts.step c.inserts a }

/-- The transport holds a peer authenticated from now on. -/
def bindPeer (s : Membership) (peer : NodeId) : Membership :=
  { s with
    bound := if s.bound.contains peer then s.bound else s.bound ++ [peer]
    died := s.died.filter (· ≠ peer) }

/-- A loop passes over its next peer. -/
def pass (s : Membership) : Membership := { s with toOffer := s.toOffer.tail }

/-- One act, outside a loop or in it. -/
def perform (s : Membership) : Act → Membership
  | .bind peer stale v =>
    if stale then s.bindPeer peer else (s.bindPeer peer).seed c v peer
  | .die peer =>
    { s with
      inserts.gate.synaptome := s.synaptome.delete (.big peer)
      inserts.incoming := s.inserts.incoming.filter (· ≠ peer)
      bound := s.bound.filter (· ≠ peer)
      died := peer :: s.died }
  | .leaving peer =>
    if s.synaptome.has (.big peer) then
      (s.setSynaptome (s.synaptome.delete (.big peer))).closeConnection c peer
    else s
  | .close peer => s.closeConnection c peer
  | .consider peer eligible v =>
    if peer = c.inserts.node.id ∨ s.synaptome.has (.big peer) = true ∨ eligible = false then s
    else if s.bound.contains peer then s.seed c v peer
    -- A dial enters nobody: its bind does.
    else s
  | .list => { s with toOffer := s.bound }
  | .next reconciling v =>
    s.toOffer.head?.elim s fun peer =>
      if reconciling = true ∧ (peer = c.inserts.node.id ∨ s.synaptome.has (.big peer) = true) then
        s.pass
      else s.pass.seed c v peer
  | .stop => { s with toOffer := [] }
  | .join sponsor =>
    { s with joins := s.joins.set s.nextJoin ⟨sponsor, none⟩, nextJoin := s.nextJoin + 1 }
  | .joinAnswered k opened =>
    match s.joins.get k with
    | some ⟨sponsor, none⟩ =>
      { s with joins := s.joins.set k ⟨sponsor, some (opened && s.bound.contains sponsor)⟩ }
    | _ => s
  | .joined k v =>
    match s.joins.get k with
    | some ⟨sponsor, some true⟩ => { s with joins := s.joins.delete k }.seed c v sponsor
    | _ => s
  | .call a => s.callStep c a

/-- One act. A loop runs to its end before anything else does. -/
def step (s : Membership) (a : Act) : Membership :=
  if s.toOffer ≠ [] ∧ a.inLoop = false then s else s.perform c a

end Membership

end Axona
