import Axona.Pubsub.Durability
import Axona.Pubsub.TopicStore

/-! # The replica delta gate

How a root replicates a topic (`_replicateRole`, `repairPlane.js`): it asks for the cohort, pushes
what it holds to every peer of it, and records the verdicts. The push is full if what is held has
changed, and empty otherwise; a signature stands for what is held. Calls may overlap, and between two
awaits the role and the clock go on.

`record` and `consumed` note the full push that the signature on record is of, and the last one that
a peer consumed; the code has neither. -/

namespace Axona

open Library

/-- `ROOT_REPLICATE_FULL_MS` -/
def rootReplicateFullMs : Int := 60000

/-- `sig`: how many bodies, the newest stamp, and how many tombstones. -/
structure ReplicaSig where
  count : Nat
  highWater : Int
  tombstones : Nat
deriving DecidableEq, Repr

def Role.replicaSig (r : Role) : ReplicaSig := ⟨r.cache.length, r.highWater, r.tombstones.size⟩

/-- `dispatchVerdict` -/
inductive PushVerdict where
  | consumed
  | failed
  | unsupported
  | violation
deriving DecidableEq, Repr

/-- A full push: the role as it was when the push went out, and the time. -/
structure FullPush where
  role : Role
  time : Int

namespace FullPush

/-- The ids of the bodies. -/
def ids (p : FullPush) : List MsgId := p.role.cache.map (·.msgId)

/-- The two pushes carry bodies with the same ids and the same active tombstones. -/
def Same (p q : FullPush) : Prop :=
  (∀ id, id ∈ p.ids ↔ id ∈ q.ids) ∧ ∀ id, p.role.activeTomb p.time id = q.role.activeTomb q.time id

/-- Nothing of the first is gone in the second: no body and no tombstone has left, and none of the
tombstones has expired or come to life again. -/
def Stays (p q : FullPush) : Prop :=
  p.ids.Subperm q.ids ∧ ∀ id ∈ p.role.tombstones.keys,
    id ∈ q.role.tombstones.keys ∧ p.role.activeTomb p.time id = q.role.activeTomb q.time id

end FullPush

/-- Where a call stands: it asks for the cohort, waits for the verdicts, or has returned. -/
inductive ReplicaCall where
  | asking (now : Int)
  | pushing (want : List NodeId) (full : Bool) (now : Int) (sent : FullPush)
  | ended (rep : ReplicaReport)

structure ReplicaGate where
  role : Role
  now : Int
  /-- `role.sync.sig` -/
  sig : Option ReplicaSig
  /-- `role.sync.lastFullAt` -/
  lastFullAt : Option Int
  /-- `role.replicas` -/
  replicas : List NodeId
  calls : List ReplicaCall
  /-- The full push whose signature is on record, and whether a peer consumed it. -/
  record : Option (FullPush × Bool)
  /-- The last full push that a peer consumed. -/
  consumed : Option FullPush

inductive ReplicaAct where
  /-- What the role holds changes. -/
  | change (r : Role)
  | wait (now : Int)
  /-- `_successorTick` clears the signature. -/
  | reseat
  /-- `_replicateRole` is called. -/
  | call
  /-- The cohort of a call is known, and what is left of the budget if there is one. -/
  | cohort (i : Nat) (want : List NodeId) (lookupFailed : Bool) (left : Option Nat)
  /-- The verdicts on the pushes of a call are in. -/
  | verdicts (i : Nat) (v : NodeId → PushVerdict)

namespace ReplicaGate

variable (s : ReplicaGate)

/-- A role that was never replicated. -/
def start (r : Role) (now : Int) : ReplicaGate := ⟨r, now, none, none, [], [], none, none⟩

/-- What a full push would carry now. -/
def current : FullPush := ⟨s.role, s.now⟩

/-- `nil` -/
def nil (noCohort : Bool) : ReplicaReport := ⟨noCohort, false, false, 0, 0⟩

/-- `full`: is the push to be a full one? -/
def full (now : Int) (want : List NodeId) : Bool :=
  s.sig ≠ some s.role.replicaSig || want.any (· ∉ s.replicas)
    || rootReplicateFullMs ≤ now - s.lastFullAt.getD 0

/-- A call returns. -/
def returns (i : Nat) (rep : ReplicaReport) : ReplicaGate :=
  { s with calls := s.calls.set i (.ended rep) }

/-- From the answer of the lookup to the pushes. -/
def cohort (i : Nat) (now : Int) (want : List NodeId) (lookupFailed : Bool) (left : Option Nat) :
    ReplicaGate :=
  let full := s.full now want
  let s := { s with replicas := s.replicas.filter (· ∈ want) }
  if want = [] then s.returns i (nil !lookupFailed)
  else if full = true ∧ left = some 0 then s.returns i (nil false)
  else { s with calls := s.calls.set i (.pushing want full now s.current) }

/-- What the verdicts change. -/
def verdicts (i : Nat) (want : List NodeId) (full : Bool) (now : Int) (sent : FullPush)
    (v : NodeId → PushVerdict) : ReplicaGate :=
  let credited := want.filter fun h => v h = .consumed
  let s := { s with replicas := (s.replicas ++ credited).dedup }
  let s := s.returns i ⟨false, true, full, credited.length, want.length⟩
  if full then
    { s with
      sig := some sent.role.replicaSig
      lastFullAt := some now
      record := some (sent, credited ≠ [])
      consumed := if credited = [] then s.consumed else some sent }
  else s

def step (rootReplicas : Nat) (s : ReplicaGate) : ReplicaAct → ReplicaGate
  | .change r => { s with role := r }
  | .wait now => { s with now := now }
  | .reseat => { s with sig := none }
  | .call =>
    let preserves := !s.role.cache.isEmpty || s.role.tombstones.size ≠ 0
    if rootReplicas ≠ 0 ∧ s.role.isRoot = true ∧ s.role.dismantling = none ∧ preserves = true then
      { s with calls := s.calls ++ [.asking s.now] }
    else { s with calls := s.calls ++ [.ended (nil false)] }
  | .cohort i want lookupFailed left =>
    match s.calls[i]? with
    | some (.asking now) => s.cohort i now want lookupFailed left
    | _ => s
  | .verdicts i v =>
    match s.calls[i]? with
    | some (.pushing want full now sent) => s.verdicts i want full now sent v
    | _ => s

/-- What is asked of a step: where the gate lets an empty push do, a peer has consumed what the role
holds now. -/
def EmptyConsumed (s : ReplicaGate) : ReplicaAct → Prop
  | .cohort i want _ _ => ∀ now, s.calls[i]? = some (.asking now) → want ≠ [] →
    s.full now want = false → ∃ p, s.consumed = some p ∧ p.Same s.current
  | _ => True

/-- Where the gate lets an empty push do, a peer has consumed the push on record, or that push carried
what had been consumed before; and nothing has gone since. -/
def Undisturbed (s : ReplicaGate) : ReplicaAct → Prop
  | .cohort i want _ _ => ∀ now, s.calls[i]? = some (.asking now) → want ≠ [] →
    s.full now want = false → ∀ p witnessed, s.record = some (p, witnessed) →
      (witnessed = true ∨ ∃ q, s.consumed = some q ∧ q.Same p) ∧ p.Stays s.current
  | _ => True

end ReplicaGate

end Axona
