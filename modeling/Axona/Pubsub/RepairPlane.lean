import Axona.Pubsub.WireHandlers

/-! # The repair plane and the lifetime of a topic

What the refresh tick does to roles, apart from the sweeps of the merge machine: expiry, the
reapers, the termination of an idle root, the end of a backup's or a child's duty, and the read
repair of a stranded subscriber. A role leaves the table only through `retireRole`, marked, so
that a suspended handler that still holds it commits nothing in it.

The seats of a role, its hosting and its metrics leases are not part of the state; where they
decide, the decision comes in as an argument (`held`, `seats`, …). -/

namespace Axona

open Library

/-- A seat, or a root without demand, that is unserviced this long is dropped. -/
def dropMs : Int := 180000

/-- What the key of a generation's end has in front of the generation. -/
def terminatedTag : Text := "terminated:".toList

namespace Node

variable (cfg : Config)

/-! ### The one detach site -/

/-- `_retireRole`: the role leaves the table, marked, and its generation moves. -/
def retireRole (n : Node) (t : TopicId) (ρ : RoleRef) : Node :=
  { n.modifyRole ρ (fun r => { r with retired := true, gen := toInt32 r.gen + 1 }) with
    axonRoles := n.axonRoles.delete t
    upstream := n.upstream.delete t }

/-- `resetState`: every role is retired, and what the node remembers goes. -/
def resetState (n : Node) : Node :=
  { n.axonRoles.entries.foldl (fun n e => n.retireRole e.1 e.2) n with
    axonRoles := ∅
    mySubscriptions := ∅
    subSince := ∅
    lastSeen := ∅
    backupTopics := ∅
    upstream := ∅
    rootBeacons := ∅
    genHighWater := ∅
    appDelivered := ∅ }

/-! ### The refresh tick -/

/-- What is past its time in a role goes. -/
def expireRole (n : Node) (t : TopicId) : Node :=
  match n.roleAt t with
  | none => n
  | some ρ => n.modifyRole ρ fun r => (r.expireTombstones n.now).expireCache n.now

/-- The reapers, for one role. Custody, a termination in progress, a backup seat and this node's
own subscription keep a role; a root is kept by what it caches; `held` says that a seat, a host
or a lease keeps it. -/
def reap (n : Node) (t : TopicId) (held : Bool) : Node :=
  match n.roleAt t with
  | none => n
  | some ρ =>
    let r := n.role ρ
    if r.custodyAlive n.now || r.dismantling.isSome || r.backupOf.isSome || t ∈ n.backupTopics
      || t ∈ n.mySubscriptions || (r.isRoot && !r.cache.isEmpty) || held then n
    else n.retireRole t ρ

/-- A backup that re-homed under a live upstream and heard nothing for long (`idle`) retires. -/
def retireIdleBackup (n : Node) (t : TopicId) (idle : Bool) : Node :=
  match n.roleAt t with
  | none => n
  | some ρ =>
    if idle && t ∈ n.backupTopics && !(n.role ρ).isRoot && !(n.role ρ).custodyAlive n.now then
      n.retireBackup t ρ
    else n

/-- The reachable-root fallback of a subscriber that nobody adopted: without a nearer neighbour
it claims the root. -/
def claimFallback (n : Node) (t : TopicId) : Node :=
  if t ∈ n.mySubscriptions && (n.upstream.get t).isNone && n.selfClosestReachable cfg t then
    n.claimReachable cfg t
  else n

/-- `_readRepair`: a subscriber nobody serves keeps a role to pull history into. -/
def readRepair (n : Node) (t : TopicId) : Node :=
  if t ∉ n.mySubscriptions || (n.upstream.get t).isSome || (n.roleAt t).isSome then n
  else (n.register { makeRole t false n.now with readHolder := true }).1

/-! ### The lifetime of a topic -/

/-- The remembered epochs that lapsed go. -/
def pruneHighWater (n : Node) : Node :=
  { n with genHighWater := n.genHighWater.filter fun _ g => n.world.mono < g.lapses }

/-- `_standbyLeaseSweep`, for one topic whose lease is over: a backup that holds nothing is no
longer one. -/
def standbyLeaseSweep (n : Node) (t : TopicId) : Node :=
  match n.roleAt t with
  | none => n
  | some ρ =>
    let r := n.role ρ
    if !cfg.topicLifetime || r.isRoot || r.backupOf.isNone || !r.cache.isEmpty
      || r.custodyAlive n.now then n
    else (n.retireBackup t ρ).modifyRole ρ fun r => { r with standbyGen := none }

/-- `_terminateStep`: one more round of notices, or the end of the role. The epoch of the ended
generation is remembered. -/
def terminateStep (n : Node) (t : TopicId) (ρ : RoleRef) (targets : Bool) : Node :=
  if !targets || topicTerminateTries ≤ (n.role ρ).dismantlingSends then
    let n := { n with genHighWater :=
      n.genHighWater.set t ⟨toInt32 (n.role ρ).epoch, n.world.mono + generationMemoryMs⟩ }
    (n.retireBackup t ρ).retireRole t ρ
  else n.modifyRole ρ fun r => { r with dismantlingSends := r.dismantlingSends + 1 }

/-- `_terminationSweep`, for one topic: a root that holds no body and that nobody wants begins to
dismantle, before its first notice. -/
def terminationSweep (n : Node) (t : TopicId) (held targets : Bool) : Node :=
  match n.roleAt t with
  | none => n
  | some ρ =>
    let r := n.role ρ
    if !cfg.topicLifetime || !r.isRoot then n
    else if r.dismantling.isSome then n.terminateStep t ρ targets
    else if !r.cache.isEmpty || r.custodyOpen n.now || t ∈ n.mySubscriptions || held
      || n.now - r.lastDemandAt ≤ dropMs then n
    else (n.modifyRole ρ fun r =>
      { r with dismantling := some n.now, dismantlingSends := 0, gen := toInt32 r.gen + 1 }).terminateStep
        t ρ targets

/-- Is it the same generation? -/
def sameGen (a b : Gen) : Bool := a.root = b.root && toInt32 a.epoch = toInt32 b.epoch

/-- `_endSubscriptionTerminated`: the app's subscription ends with its generation. -/
def endSubscriptionTerminated (n : Node) (t : TopicId) (g : Gen) : Node :=
  let key : AppKey := (t, terminatedTag ++ Nat.toDigits 16 g.root ++ ':' ::
    (toString g.epoch).toList)
  let n := if n.appDelivered.has key then n
    else { n.rememberKey key with app := .terminated t g :: n.app }
  { n with
    mySubscriptions := n.mySubscriptions.erase t
    subSince := n.subSince.delete t
    upstream := n.upstream.delete t }

/-- `dropOwned` of `_onTopicTerminated`, for one role. -/
def dropOwned (n : Node) (ρ : RoleRef) (owner : Option Gen) : Node :=
  n.modifyRole ρ fun r => r.dropOwned owner

/-- The appointment of a backup ends, and the deletions it was appointed to with it. -/
def endStandby (n : Node) (t : TopicId) (ρ : RoleRef) : Node :=
  let n := n.retireBackup t ρ
  (n.modifyRole ρ fun r => { r with standbyGen := none }).dropOwned ρ (n.role ρ).standbyGen

/-- The attachment to an ended generation ends: `att` is the generation of its deletions. -/
def endAttachment (n : Node) (t : TopicId) (ρ : Option RoleRef) (gen : Gen) (att : Option Gen) :
    Node :=
  let n := match ρ with
    | some ρ => n.dropOwned ρ att
    | none => n
  let n : Node := { n with upstream := n.upstream.delete t }
  let n : Node := if (n.rootBeacons.get t).any fun b => b.root = gen.root then
      { n with rootBeacons := n.rootBeacons.delete t } else n
  if t ∈ n.mySubscriptions then n.endSubscriptionTerminated t gen else n

/-- Does the role back up this generation? An appointment without one is its root's. -/
def appointed (n : Node) (ρ : Option RoleRef) (gen : Gen) : Bool :=
  ρ.any fun ρ => (n.role ρ).backupOf.isSome && match (n.role ρ).standbyGen with
    | some g => sameGen g gen
    | none => (n.role ρ).backupOf = some gen.root

/-- `_onTopicTerminated`: the notice of a generation's end. A root ignores it. It ends the
appointment of a backup and the attachment of a child or a reader, each only when it names their
generation, and the role when no duty is left. `att` is the attachment's generation, `attached`
whether the notice matches the attachment, `seats` whether others sit under this role. -/
def onTopicTerminated (n : Node) (t : TopicId) (gen : Gen) (attached : Bool) (att : Option Gen)
    (seats : Bool) : Node :=
  let ρ := n.roleAt t
  if !cfg.topicLifetime || ρ.any (fun ρ => (n.role ρ).isRoot)
    || (!n.appointed ρ gen && !attached) then n
  else if n.appointed ρ gen && ρ.any fun ρ => !(n.role ρ).cache.isEmpty then n
  else
    let n := if n.appointed ρ gen then ρ.elim n (n.endStandby t) else n
    let n := if attached then n.endAttachment t ρ gen att else n
    match ρ with
    | some ρ =>
      if (n.role ρ).backupOf.isNone && t ∉ n.mySubscriptions && (attached || !seats) then
        n.retireRole t ρ
      else n
    | none => n

/-- `_stepDownChild`, for a child whose branch stayed thin (`thin`): it goes when every body it
holds came from its upstream (`heldAbove`). -/
def stepDownChild (n : Node) (t : TopicId) (thin heldAbove : Bool) : Node :=
  match n.roleAt t with
  | none => n
  | some ρ =>
    let r := n.role ρ
    let up := n.upstream.get t
    if !cfg.topicLifetime || r.isRoot || r.backupOf.isSome || t ∈ n.backupTopics || r.readHolder
      || !thin || !(up.any fun up => up ≠ cfg.nodeId && n.isReachable up) || r.custodyOpen n.now
      || !(r.cache.isEmpty || heldAbove) then n
    else n.retireRole t ρ

/-- `_onRehome`: the upstream names its own upstream to turn to. -/
def onRehome (n : Node) (t : TopicId) (sender : NodeId) (next : Option NodeId) : Node :=
  if !cfg.topicLifetime || n.upstream.get t ≠ some sender
    || (n.roleAt t).any fun ρ => (n.role ρ).isRoot then n
  else
    let n := { n with upstream := match next.filter (· ≠ cfg.nodeId) with
      | some up => n.upstream.set t up
      | none => n.upstream.delete t }
    n.send (.subscribe t ((n.roleAt t).bind fun ρ => (n.role ρ).merge.completing))

/-- `_onMetricsOn`: a demand for metrics reaches the root like a SUB. -/
def onMetricsOn (n : Node) (t : TopicId) (a : Arrival) : Node :=
  match n.topicDecision cfg t a with
  | .forward => n
  | .reroute => n.reroute t a
  | .handle =>
    let (closer, n) := n.closerRoot cfg t true
    match closer with
    | some closer => n.deferToRoot cfg t closer
    | none =>
      let (held, n) := if n.axonRoles.has t then (none, n) else n.holdFor cfg t
      if held.isSome then n
      else match n.roleOrRoot cfg t with
      | (none, n) => n
      | (some ρ, n) => n.maybePromoteRoot cfg ρ a

end Node

end Axona
