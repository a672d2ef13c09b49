import Mathlib.Data.List.Sort
import Axona.Library.Transition
import Axona.Pubsub.Role

/-! # Durability

What a root owes for each message it stamped (`durability.js`): pending until the cohort has it, or
until it is clear that it will not. Every role keeps a ledger of its own; `RoleScopedDurability` sends
what happens to the ledger of the role, and admits an obligation only while the node has room.

A ledger that is full makes room by dropping finished obligations, the oldest first; pending ones are
never dropped. -/

namespace Axona

open Library

/-- `state` -/
inductive DurableState where
  | pending
  | verified
  | expired
  | cancelled
deriving DecidableEq, Repr

/-- Why an obligation expired before it was tried. -/
inductive ExpireReason where
  | noReplicationConfigured
  | noCohortAvailable
deriving DecidableEq, Repr

structure Obligation where
  topicBig : TopicId
  state : DurableState
  attempts : Nat
  /-- `at`: when the state was entered. -/
  time : Int
  reason : Option ExpireReason
deriving DecidableEq, Repr

namespace Obligation

def isPending (e : Obligation) : Bool := e.state = .pending

/-- `record`, on an entry: only a verdict of the cohort verifies it, and without a cohort, or at the
end of the attempts, it expires. -/
def record (maxAttempts : Nat) (now : Int) (verified attempted : Nat) (e : Obligation) :
  Obligation :=
  if !e.isPending then e
  else if 0 < verified then { e with state := .verified, time := now }
  else if attempted = 0 ∨ maxAttempts ≤ e.attempts + 1 then
    { e with attempts := e.attempts + 1, state := .expired, time := now }
  else { e with attempts := e.attempts + 1 }

/-- `_expire`, on an entry. -/
def expire (now : Int) (reason : ExpireReason) (e : Obligation) : Obligation :=
  if !e.isPending then e else { e with state := .expired, reason := some reason, time := now }

/-- `cancel`, on an entry. -/
def cancel (now : Int) (e : Obligation) : Obligation :=
  if !e.isPending then e else { e with state := .cancelled, time := now }

end Obligation

/-- What a replication reports. A flag that is missing is not set. -/
structure ReplicaReport where
  noCohort : Bool
  dispatched : Bool
  snapshot : Bool
  verified : Nat
  attempted : Nat
deriving DecidableEq, Repr

inductive EvidenceKind where
  | noCohort
  | noDispatch
  | noSnapshot
  | evidence
deriving DecidableEq, Repr

/-- `_classify` -/
def ReplicaReport.classify (rep : ReplicaReport) : EvidenceKind :=
  if rep.noCohort then .noCohort
  else if !rep.dispatched then .noDispatch
  else if !rep.snapshot then .noSnapshot
  else .evidence

/-- What `recordTopic` counts. -/
structure TopicCount where
  verified : Nat
  expired : Nat
  pending : Nat
  kind : EvidenceKind
deriving DecidableEq, Repr

structure DurabilityLedger where
  entries : OrderedMap MsgId Obligation
  max : Nat
  maxAttempts : Nat

namespace DurabilityLedger

variable (L : DurabilityLedger)

def size : Nat := L.entries.size

/-- `pending` -/
def pending : Nat := L.entries.countP (·.isPending)

/-- `undurable` -/
def undurable : Nat := L.entries.countP fun e => e.state = .expired

/-- The finished obligations, the one that finished first in front. -/
def terminal (m : OrderedMap MsgId Obligation) : List MsgId :=
  ((m.entries.filter fun e => !e.2.isPending).insertionSort fun a b => a.2.time ≤ b.2.time).map
    Prod.fst

/-- The loop of `_prune`. -/
def pruneTo (max : Nat) : List MsgId → OrderedMap MsgId Obligation → OrderedMap MsgId Obligation
  | [], m => m
  | id :: ids, m => if m.size ≤ max then m else pruneTo max ids (m.delete id)

/-- `_prune` -/
def prune : DurabilityLedger :=
  if L.size ≤ L.max then L
  else { L with entries := pruneTo L.max (terminal L.entries) L.entries }

/-- `reclaimTerminal` -/
def reclaimTerminal : DurabilityLedger :=
  { L with entries := (terminal L.entries).foldl (fun m id => m.delete id) L.entries }

/-- `open` -/
def admitNew (now : Int) (id : MsgId) (topicBig : TopicId) : DurabilityLedger :=
  if id = [] ∨ L.entries.has id = true then L
  else prune { L with entries := L.entries.set id ⟨topicBig, .pending, 0, now, none⟩ }

/-- An entry is changed where it stands. -/
def modify (id : MsgId) (f : Obligation → Obligation) : DurabilityLedger :=
  match L.entries.get id with
  | none => L
  | some e => { L with entries := L.entries.set id (f e) }

/-- `record` -/
def record (now : Int) (id : MsgId) (verified attempted : Nat) : DurabilityLedger :=
  L.modify id (·.record L.maxAttempts now verified attempted)

/-- `recordOne` -/
def recordOne (now : Int) (id : MsgId) (rep : ReplicaReport) : DurabilityLedger :=
  match rep.classify with
  | .noCohort => L.modify id (·.expire now .noCohortAvailable)
  | .evidence => L.record now id rep.verified rep.attempted
  | _ => L

/-- What a report means for an obligation of its topic. -/
def judge (now : Int) (topicBig : TopicId) (rep : ReplicaReport) (e : Obligation) : Obligation :=
  if !e.isPending || e.topicBig ≠ topicBig then e
  else match rep.classify with
    | .noCohort => e.expire now .noCohortAvailable
    | .evidence => e.record L.maxAttempts now rep.verified rep.attempted
    | _ => e

/-- `recordTopic`: every pending obligation of the topic is judged, and counted by what becomes of
it. -/
def recordTopic (now : Int) (topicBig : TopicId) (rep : ReplicaReport) :
    TopicCount × DurabilityLedger :=
  let count := fun st : DurableState => L.entries.countP fun e =>
    e.isPending && e.topicBig = topicBig && (L.judge now topicBig rep e).state = st
  (⟨count .verified, count .expired, count .pending, rep.classify⟩,
    { L with entries := L.entries.filterMap fun _ e => some (L.judge now topicBig rep e) })

end DurabilityLedger

/-- The caps, and how often an obligation is tried. -/
structure DurabilityConfig where
  nodeMax : Nat
  perRoleMax : Nat
  maxAttempts : Nat

/-- The roles of a node, and the ledgers. A role that is none any more may still be held. -/
structure Durability where
  roles : List RoleRef
  ledgers : RoleRef → Option DurabilityLedger
  topicId : RoleRef → TopicId

inductive DurableAct where
  /-- A role is made. -/
  | seat (ρ : RoleRef)
  /-- A role ends. -/
  | unseat (ρ : RoleRef)
  | admitNew (now : Int) (ρ : RoleRef) (id : MsgId)
  | record (now : Int) (ρ : RoleRef) (id : MsgId) (verified attempted : Nat)
  | recordOne (now : Int) (ρ : RoleRef) (id : MsgId) (rep : ReplicaReport)
  | recordTopic (now : Int) (ρ : RoleRef) (rep : ReplicaReport)
  | noCohortConfigured (now : Int) (ρ : RoleRef) (id : MsgId)
  | cancel (now : Int) (ρ : RoleRef) (id : MsgId)
  /-- A role drops its finished obligations. -/
  | reclaim (ρ : RoleRef)
  | clear

namespace Durability

variable (cfg : DurabilityConfig) (s : Durability)

/-- No roles. -/
def empty (topicId : RoleRef → TopicId) : Durability := ⟨[], fun _ => none, topicId⟩

/-- `_ledger`: the ledger of a role, a new one if it has none. -/
def ledger (ρ : RoleRef) : DurabilityLedger :=
  (s.ledgers ρ).getD ⟨∅, cfg.perRoleMax, cfg.maxAttempts⟩

def put (ρ : RoleRef) (L : DurabilityLedger) : Durability :=
  { s with ledgers := Function.update s.ledgers ρ (some L) }

/-- The sum over the ledgers of the roles. -/
def total (f : DurabilityLedger → Nat) : Nat :=
  (s.roles.map fun ρ => (s.ledgers ρ).elim 0 f).sum

/-- `_nodeSize` -/
def nodeSize : Nat := s.total (·.size)

/-- `pending` -/
def pending : Nat := s.total (·.pending)

/-- `undurable` -/
def undurable : Nat := s.total (·.undurable)

/-- Every role drops its finished obligations. -/
def reclaimAll : Durability :=
  { s with ledgers := fun ρ =>
      if ρ ∈ s.roles then (s.ledgers ρ).map (·.reclaimTerminal) else s.ledgers ρ }

/-- `open` -/
def admitNew (now : Int) (ρ : RoleRef) (id : MsgId) : Durability :=
  let s := s.put ρ (s.ledger cfg ρ)
  if cfg.nodeMax ≤ s.nodeSize then
    let s := s.reclaimAll
    if cfg.nodeMax ≤ s.nodeSize then s
    else s.put ρ ((s.ledger cfg ρ).admitNew now id (s.topicId ρ))
  else s.put ρ ((s.ledger cfg ρ).admitNew now id (s.topicId ρ))

def step (s : Durability) : DurableAct → Durability
  | .seat ρ => if ρ ∈ s.roles ∨ (s.ledgers ρ).isSome then s else { s with roles := s.roles ++ [ρ] }
  | .unseat ρ => { s with roles := s.roles.erase ρ }
  | .admitNew now ρ id => s.admitNew cfg now ρ id
  | .record now ρ id verified attempted =>
    s.put ρ ((s.ledger cfg ρ).record now id verified attempted)
  | .recordOne now ρ id rep => s.put ρ ((s.ledger cfg ρ).recordOne now id rep)
  | .recordTopic now ρ rep => s.put ρ ((s.ledger cfg ρ).recordTopic now (s.topicId ρ) rep).2
  | .noCohortConfigured now ρ id =>
    s.put ρ ((s.ledger cfg ρ).modify id (·.expire now .noReplicationConfigured))
  | .cancel now ρ id => s.put ρ ((s.ledger cfg ρ).modify id (·.cancel now))
  | .reclaim ρ =>
    { s with ledgers := Function.update s.ledgers ρ ((s.ledgers ρ).map (·.reclaimTerminal)) }
  | .clear => { s with ledgers := fun ρ =>
      if ρ ∈ s.roles then (s.ledgers ρ).map fun L => { L with entries := ∅ } else s.ledgers ρ }

/-- The obligation of a role for a message. -/
def get (ρ : RoleRef) (id : MsgId) : Option Obligation := (s.ledgers ρ).bind (·.entries.get id)

end Durability

end Axona
