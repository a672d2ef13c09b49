import Mathlib.Data.List.Sort
import Axona.Pubsub.RootClaim

/-! # The handoff of a leave

What a node does with the topics it holds when it leaves in order (`pubsubLeaveHandoff`). It picks
the roles that hold bodies, resolves an heir for each, pushes them in at most two rounds, each with
a window in which the heirs acknowledge, and at last once more to the runner-up of each topic that
was not acknowledged. `leave()` bounds the whole in time: it may go on before the handoff is
through.

The node lives on meanwhile, so each act that reads it is given the node as it then is. -/

namespace Axona

open Library

/-- `HANDOFF_TRIES` -/
def handoffTries : Nat := 2

/-- `_rootAliveForLeave`: a root this node knows of for the topic, the one it backs up or the one of
a fresh beacon, is a direct neighbour. Without a neighbour report it is not. -/
def Node.rootAliveForLeave (cfg : Config) (n : Node) (t : TopicId) (r : Role) : Bool :=
  let beacon := (n.rootBeacons.get t).filter fun b => n.now < b.exp
  let candidates := (r.backupOf.toList ++ beacon.toList.map (·.root)).filter (· ≠ cfg.nodeId)
  n.world.neighbors.any fun neigh => neigh.any fun id => candidates.contains id

/-- `_pickHeirs`: the heir and the runner-up, from ids that come nearest first. -/
def pickHeirs (cfg : Config) (ids : List NodeId) : Option NodeId × Option NodeId :=
  let ordered := ids.filter (· ≠ cfg.nodeId)
  (ordered.head?, ordered.find? fun id => ordered.head? ≠ some id)

/-! ### Jobs -/

/-- A role to hand off. -/
structure HandoffJob where
  t : TopicId
  role : RoleRef
  /-- `none` until it is resolved, and where none is found. -/
  heir : Option NodeId
  /-- The runner-up. -/
  alt : Option NodeId
  /-- The resolver is through with it. -/
  resolved : Bool
deriving DecidableEq

/-- Is the role handed off? A holder that is not the root does not, while its root is seen alive. -/
def Node.handsOff (cfg : Config) (n : Node) (t : TopicId) (ρ : RoleRef) : Bool :=
  let r := n.role ρ
  !r.cache.isEmpty && (r.isRoot || !n.rootAliveForLeave cfg t r)

/-- The order of the jobs: roots without a replica, the other roots, the other holders; within each,
larger caches first. -/
def HandoffJob.before (a : HandoffJob) (n : Node) (replicas : RoleRef → Nat) (b : HandoffJob) :
    Bool :=
  let tier (j : HandoffJob) : Nat :=
    if (n.role j.role).isRoot then (if replicas j.role = 0 then 0 else 1) else 2
  let size (j : HandoffJob) : Nat := (n.role j.role).cache.length
  tier a < tier b || (tier a = tier b && size b ≤ size a)

/-- The jobs of a leave. -/
def Node.handoffJobs (cfg : Config) (n : Node) (replicas : RoleRef → Nat) : List HandoffJob :=
  ((n.axonRoles.entries.filter fun e => n.handsOff cfg e.1 e.2).map fun e =>
    ⟨e.1, e.2, none, none, false⟩).insertionSort fun a b => a.before n replicas b = true

namespace HandoffJob

variable (cfg : Config) (j : HandoffJob)

/-- The resolver: the nearest nodes the table names, and where they give no heir, those a lookup
came by. Either is `none` where it raised. -/
def resolve (closest path : Option (List NodeId)) : HandoffJob :=
  let picked := pickHeirs cfg (closest.getD [])
  let probed := pickHeirs cfg (path.getD [])
  match picked.1 with
  | some heir => { j with heir := some heir, alt := picked.2, resolved := true }
  | none =>
    match probed.1 with
    | some heir => { j with heir := some heir, alt := picked.2.or probed.2, resolved := true }
    | none => { j with heir := none, alt := picked.2, resolved := true }

/-- A retry asks the table again and prefers a node it can reach; the heir that did not answer
becomes the runner-up. -/
def reresolve (n : Node) (closest : Option (List NodeId)) : HandoffJob :=
  let others := (closest.getD []).filter (· ≠ cfg.nodeId)
  match (others.filter n.isReachable ++ others.filter fun id => !n.isReachable id).head? with
  | some pick => if j.heir = some pick then j else { j with alt := j.heir, heir := some pick }
  | none => j

/-- The runner-up, where it is another node than the heir. -/
def runnerUp : Option NodeId := j.alt.filter fun id => j.heir ≠ some id

end HandoffJob

/-! ### Pushes -/

/-- What a push asks of its receiver. -/
inductive PushPolicy where
  /-- To adopt the topic as its root. -/
  | handoff
  /-- To hold the history. -/
  | replicate
deriving DecidableEq, Repr

/-- A push of the whole state of a role. -/
structure Push where
  dest : NodeId
  t : TopicId
  policy : PushPolicy
  msgs : List Entry
  dels : List Del
  /-- The node when it was sent. -/
  node : Node

/-- `_syncSnapshot`, pushed to a node. -/
def Node.syncPush (n : Node) (j : HandoffJob) (policy : PushPolicy) (dest : NodeId) : Push :=
  ⟨dest, j.t, policy, (n.role j.role).cache, (n.role j.role).activeDels n.now, n⟩

/-- The pushes of one round for one job: a root hands its claim to its heir, any other holder
replicates to the heir and to the runner-up. -/
def Node.roundPushes (n : Node) (j : HandoffJob) : List Push :=
  if (n.role j.role).isRoot then j.heir.toList.map (n.syncPush j .handoff)
  else (j.heir.toList ++ j.runnerUp.toList).map (n.syncPush j .replicate)

/-- The last push for a job that was not acknowledged. -/
def Node.fallbackPush (n : Node) (j : HandoffJob) : List Push :=
  (j.runnerUp.or j.heir).toList.map
    (n.syncPush j (if (n.role j.role).isRoot then .handoff else .replicate))

/-! ### The leave -/

/-- Where the handoff stands. -/
inductive LeavePhase where
  | idle
  /-- The heirs are being resolved. -/
  | resolving
  /-- A round was sent, and its acknowledgements may come in. -/
  | window (round : Nat)
  /-- The heirs are being resolved again. -/
  | retry (round : Nat)
  | finished
deriving DecidableEq

/-- A leave. -/
structure Leave where
  phase : LeavePhase
  /-- The node when the handoff began. -/
  start : Option Node
  jobs : List HandoffJob
  /-- `_handoffAcked` -/
  acked : List TopicId
  /-- What had been acknowledged when the first round was sent. -/
  early : List TopicId
  pushes : List Push
  /-- The node has left. -/
  gone : Bool

/-- Nothing was begun. -/
def Leave.idle : Leave := ⟨.idle, none, [], [], [], [], false⟩

/-- What happens during a leave. -/
inductive LeaveAct where
  /-- The handoff begins. -/
  | begin (n : Node) (replicas : RoleRef → Nat)
  /-- The resolver is through with a job. -/
  | resolve (i : Nat) (closest path : Option (List NodeId))
  /-- A job is resolved again. -/
  | reresolve (i : Nat) (n : Node) (closest : Option (List NodeId))
  /-- The handoff goes on to its next phase. -/
  | advance (n : Node)
  /-- A `HANDOFFACK` arrives, with how many bodies are held of how many sent. -/
  | handoffAck (t : TopicId) (held sent : Option Int)
  /-- A `REPLICATE` was consumed where it went. -/
  | dispatched (t : TopicId)
  /-- The node disconnects. -/
  | depart

namespace Leave

/-- `unacked()`: the jobs with an heir that were not acknowledged. -/
def unacked (s : Leave) : List HandoffJob :=
  s.jobs.filter fun j => j.heir.isSome && !s.acked.contains j.t

/-- A round is sent. -/
def sendRound (s : Leave) (n : Node) (round : Nat) : Leave :=
  { s with phase := .window round, pushes := s.pushes ++ s.unacked.flatMap n.roundPushes }

/-- The fallback, and the end. -/
def finish (s : Leave) (n : Node) : Leave :=
  { s with
    phase := .finished
    pushes := s.pushes ++
      (s.jobs.filter fun j => !s.acked.contains j.t).flatMap n.fallbackPush }

/-- The handoff goes on: once every job is resolved to its first round, from a window to the next
round or to its end. -/
def advance (s : Leave) (n : Node) : Leave :=
  match s.phase with
  | .resolving =>
    if s.jobs.all (·.resolved) then
      let s := { s with early := s.acked }
      if s.unacked.isEmpty then s.finish n else s.sendRound n 0
    else s
  | .window round =>
    if round + 1 < handoffTries ∧ s.unacked ≠ [] then { s with phase := .retry (round + 1) }
    else s.finish n
  | .retry round => s.sendRound n round
  | _ => s

/-- `_onHandoffAck`: a short acknowledgement counts for nothing. -/
def onHandoffAck (s : Leave) (t : TopicId) (held sent : Option Int) : Leave :=
  match held, sent with
  | some h, some k => if h < k then s else { s with acked := t :: s.acked }
  | _, _ => { s with acked := t :: s.acked }

/-- One act. A node that has left does nothing more. -/
def step (cfg : Config) (s : Leave) (a : LeaveAct) : Leave :=
  if s.gone then s
  else match a with
  | .begin n replicas =>
    if s.phase = .idle then
      { s with
        phase := .resolving, start := some n, jobs := n.handoffJobs cfg replicas, acked := [] }
    else s
  | .resolve i closest path =>
    if s.phase = .resolving then
      { s with jobs := s.jobs.modify i fun j =>
          if j.resolved then j else j.resolve cfg closest path }
    else s
  | .reresolve i n closest =>
    match s.phase with
    | .retry _ => { s with jobs := s.jobs.modify i fun j =>
        if j.heir.isSome && !s.acked.contains j.t then j.reresolve cfg n closest else j }
    | _ => s
  | .advance n => s.advance n
  | .handoffAck t held sent => s.onHandoffAck t held sent
  | .dispatched t =>
    if s.pushes.any fun p => p.t = t && p.policy = .replicate then { s with acked := t :: s.acked }
    else s
  | .depart => { s with gone := true }

end Leave

end Axona
