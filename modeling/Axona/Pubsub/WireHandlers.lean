import Axona.Pubsub.RootElection

/-! # The wire handlers

What a node does with the messages that are routed to it: the interceptions that come before any
write, the root's ingress of publishes and kills, the ingest of stamped history, the deliveries
of a parent, and the subscriptions. A handler that awaits a digest or a signature check parks
itself with what it holds on to; the function that resumes it makes its checks anew. -/

namespace Axona

open Library

/-! ### What arrives -/

/-- The routed messages that name a topic. -/
inductive Verb where
  | sub
  | pub
  | kill
deriving DecidableEq, Repr

/-- How a routed message arrives: the waypoints left, and whether this node is its terminus. -/
structure Arrival where
  via : List NodeId
  isTerminal : Bool
deriving Repr

/-- The token of a write that a gate forwarded, as the gate's ledger reads it. -/
inductive GateToken where
  | none
  | ours
  | foreign
deriving DecidableEq, Repr

/-- The token of a message that a hold forwarded, as the hold's ledger reads it: one of ours
comes with the hold and the beacon record the forward relied on. -/
inductive HoldToken where
  | none
  | ours (since : Int) (root : NodeId) (beaconAt : Option Int)
  | foreign
deriving DecidableEq, Repr

/-- What a node does with a routed message. -/
inductive Decision where
  | handle
  | reroute
  | forward
deriving DecidableEq, Repr

/-- A PUB. -/
structure PubFrame where
  topicId : TopicId
  arrival : Arrival
  holdFwd : HoldToken
  gateFwd : GateToken
  json : Json

/-- A KILL. -/
structure KillFrame where
  topicId : TopicId
  arrival : Arrival
  holdFwd : HoldToken
  gateFwd : GateToken
  kill : Kill

/-- A SUB. `demand` says whether the seat it asks for counts as someone wanting the topic. -/
structure SubFrame where
  topicId : TopicId
  arrival : Arrival
  holdFwd : HoldToken
  subscriber : NodeId
  since : Int
  latest : Bool
  demand : Bool
  merge : Option MergeBlock

/-- A transfer of stamped history: REPLAYUP without a `corr`, HANDOFF or REPLICATE. -/
structure Transfer where
  topicId : TopicId
  from? : Option NodeId
  msgs : List Stamped
  dels : List Del

/-- What is in front of the name of a metric topic. -/
def metricNamespace : Text := "axona:metric:".toList

/-- `isMetricTopicName`. -/
def isMetricTopicName (name : Option Text) : Bool := name.any fun n => metricNamespace.isPrefixOf n

/-- `_noteMetricRole`: what kind of topic the role holds, decided once. -/
def Role.noteMetric (r : Role) (d : Descriptor) : Role :=
  match r.latestOnly with
  | some _ => r
  | none => { r with latestOnly := some (isMetricTopicName d.name) }

/-- The write policy as the root's ingress reads it: only a descriptor that spells `owner` is
held to its owner. -/
def writePolicyRefuses (d : Descriptor) (signer : TextField) : Bool :=
  d.write = .policy .owner && signer.truthy.all fun s => lc s ≠ lc (d.owner.getD [])

namespace Node

variable (cfg : Config)

/-! ### Interceptions -/

/-- `_topicDecision`. -/
def topicDecision (n : Node) (t : TopicId) (a : Arrival) : Decision :=
  match a.via with
  | v :: _ =>
    if v = cfg.nodeId then (if n.axonRoles.has t then .handle else .reroute)
    else if a.isTerminal then .reroute
    else .forward
  | [] => if a.isTerminal then .handle else .forward

/-- `_reroute`: drop the waypoint in front and route on. -/
def reroute (n : Node) (t : TopicId) (a : Arrival) : Node := n.send (.write t a.via.tail)

/-- `_rerouteDeclined`: a refused message goes on only to another waypoint. -/
def rerouteDeclined (n : Node) (t : TopicId) (a : Arrival) : Node :=
  match a.via.tail with
  | v :: via => if v = cfg.nodeId then n else n.send (.write t (v :: via))
  | [] => n

/-- `_holdIntercept`: a bare message on a topic this node stepped down from. It goes to the root
held toward, once; a copy that returns ends here. The result says whether it was handled. -/
def holdIntercept (n : Node) (t : TopicId) (verb : Verb) (a : Arrival) (token : HoldToken) :
    Bool × Node :=
  if !a.via.isEmpty then (false, n)
  else match n.holdFor cfg t with
  | (none, n) => (false, n)
  | (some h, n) =>
    if (n.roleAt t).any fun ρ => (n.role ρ).isRoot then (false, n)
    else if verb = .sub && (n.roleAt t).isSome then (false, n)
    else match token with
    | .foreign => (true, n)
    | .ours since root beaconAt =>
      if h.since = since && h.root = root
        && (n.rootBeacons.get t).any (fun b => b.root = root && some b.heardAt = beaconAt) then
        (true, { n with rootBeacons := n.rootBeacons.delete t })
      else (true, n)
    | .none =>
      match n.holdTarget cfg t (verb = .sub) with
      | (none, n) => (true, n)
      | (some dest, n) =>
        (true, if verb = .sub then n.send (.write t [dest]) else n.forwardToRoot t dest)

/-- `_mergeGateForward`: a write goes to the winner of the round, and the verdict of its route is
waited for. -/
def mergeGateForward (n : Node) (t : TopicId) (g : Gate) : Node :=
  (n.send (.write t [g.winner])).park (.forwardWinner t g.corr)

/-- `_mergeGateIntercept`: a bare write at a gated role goes to the winner; one that returns ends
here. -/
def mergeGateIntercept (n : Node) (t : TopicId) (a : Arrival) (token : GateToken) :
    Bool × Node :=
  if !a.via.isEmpty then (false, n)
  else match token, (n.roleAt t).bind fun ρ => (n.role ρ).merge.gate with
  | .ours, _ => (true, n)
  | .foreign, some _ => (true, n)
  | .foreign, none => (false, n)
  | .none, none => (false, n)
  | .none, some g => if g.staged then (false, n) else (true, n.mergeGateForward t g)

/-- The verdict of a write forwarded to a winner: one that reached nobody ends the round. -/
def winnerVerdict (n : Node) (t : TopicId) (corr : Corr) : ForwardVerdict → Node
  | .failed =>
    match n.roleAt t with
    | none => n
    | some ρ =>
      if (n.role ρ).merge.gate.any fun g => g.corr = corr then n.mergeAbort ρ else n
  | _ => n

/-- `_stagingIntercept`: a role that stages serves nothing. What it is asked goes to the
incumbent, apart from the incumbent's own completing SUB. -/
def stagingIntercept (n : Node) (t : TopicId) (verb : Verb) (completes : NodeId → Bool) :
    Bool × Node :=
  match n.roleAt t with
  | none => (false, n)
  | some ρ =>
    match (n.role ρ).staging with
    | none => (false, n)
    | some st =>
      if (n.role ρ).isRoot then (false, n)
      else if verb = .sub && (!st.created || completes st.loser) then (false, n)
      else (true, n.send (.write t [st.loser]))

/-- `_cutDisposition`: a write refused at the cut goes to the winner of the round, or upstream;
in a staged round it is sent to this node again. -/
def cutDisposition (n : Node) (t : TopicId) : Node :=
  let ρ := n.roleAt t
  match ρ.bind fun ρ => (n.role ρ).merge.gate with
  | some g =>
    if g.staged && ρ.any fun ρ => (n.role ρ).isRoot then n.send (.write t [cfg.nodeId])
    else n.mergeGateForward t g
  | none =>
    match n.upstream.get t with
    | some up => n.forwardToRoot t up
    | none => n

/-! ### Publishes -/

/-- `_maybePromoteRoot`. -/
def maybePromoteRoot (n : Node) (ρ : RoleRef) (a : Arrival) : Node :=
  if (n.role ρ).staging.isSome then n else n.promote cfg ρ a.via a.isTerminal

/-- The closer root a handler defers to. A node with a role for the topic looks for none. -/
def closerRoot (n : Node) (t : TopicId) (requireReachable : Bool) : Option NodeId × Node :=
  if n.axonRoles.has t then (none, n) else n.liveCloserRoot cfg t requireReachable

/-- The role a handler acts in: the one registered, or else a root born here. -/
def roleOrRoot (n : Node) (t : TopicId) : Option RoleRef × Node :=
  match n.roleAt t with
  | some ρ => (some ρ, n)
  | none => n.becomeRoot cfg t

/-- `_onPub`, up to the first `await` of the ingress. -/
def onPub (n : Node) (f : PubFrame) : Node :=
  let t := f.topicId
  match n.topicDecision cfg t f.arrival with
  | .forward => n
  | .reroute => n.reroute t f.arrival
  | .handle =>
    match n.holdIntercept cfg t .pub f.arrival f.holdFwd with
    | (true, n) => n
    | (false, n) =>
      match n.mergeGateIntercept t f.arrival f.gateFwd with
      | (true, n) => n
      | (false, n) =>
        match n.stagingIntercept t .pub fun _ => false with
        | (true, n) => n
        | (false, n) =>
          match n.liveCloserRoot cfg t false with
          | (some closer, n) => n.forwardToRoot t closer
          | (none, n) =>
            match n.roleOrRoot cfg t with
            | (none, n) => n.rerouteDeclined cfg t f.arrival
            | (some ρ, n) =>
              let n := n.maybePromoteRoot cfg ρ f.arrival
              -- only a root stamps; the role is not looked at again after the await
              if !(n.role ρ).isRoot then n.reroute t f.arrival
              else n.park (.publish ρ (n.cutCapture ρ) f.json)

/-- The answer to a publish that was stamped. A root waits for its replicas to be sent to first. -/
def answerStamped (n : Node) (ρ : RoleRef) (id : MsgId) : Node :=
  if (n.role ρ).isRoot && cfg.rootReplicas then n.park (.stamped ρ id)
  else n.send (.ingestAck (n.role ρ).topicId id)

/-- `_sendIngestAck`, with no look at what became of the role meanwhile. -/
def resumeStamped (n : Node) (ρ : RoleRef) (id : MsgId) : Node :=
  n.send (.ingestAck (n.role ρ).topicId id)

/-- The stamp of a publish and the commit behind it: the one serialization point of a topic. -/
def stampPublish (n : Node) (ρ : RoleRef) (id : MsgId) (json : Json) (cut : Cut) : Node :=
  let before := n.role ρ
  let ts := max (succDouble before.lastTs) n.now
  let seq := succDouble before.seq
  let n := n.modifyRole ρ fun r => { r with lastTs := ts, lastDemandAt := n.now, seq := seq }
  let n := n.note (.stamped ρ before ts seq)
  let n := (n.cachePush cfg ρ ⟨id, ts, json, some seq⟩ (some cut)).2
  let n := n.modifyMerge ρ fun m => { m with reserve := m.reserve.map fun s =>
    ⟨s.entries - 1, s.bytes - (json.length + 80)⟩ }
  (n.deliverToApp before.topicId id ts).answerStamped cfg ρ id

/-- `_ingestPublish`, from the signature check on: authenticate, bind to the topic, hold to the
write policy, and stamp. A copy of what is held or killed is acknowledged and no more; a write
that the cut refuses is sent on. -/
def resumePublish (n : Node) (ρ : RoleRef) (cut : Cut) (json : Json) : Node :=
  match json.parsed with
  | none => n
  | some e =>
    if verifyEnvelope cfg.toPrimitives e ≠ .ok then n
    else if !checkFreshness e n.now then n
    else match e.topic, e.msgId with
    | some d, some id =>
      let t := (n.role ρ).topicId
      if deriveTopicId cfg.toPrimitives d ≠ some t then n
      else if writePolicyRefuses d e.signerPubkey then n
      else
        let n := n.modifyRole ρ fun r => r.noteMetric d
        if id ∈ (n.role ρ).cacheIds then n.send (.ingestAck t id)
        else match n.tombstoned (some ρ) id json with
        | (true, n) => n.send (.ingestAck t id)
        | (false, n) =>
          if (n.role ρ).merge.reserve.any fun s =>
            s.entries ≤ 0 || s.bytes < (json.length : Int) + 80 then n
          else if !n.cutHolds ρ (some cut) then n.cutDisposition cfg t
          else n.stampPublish cfg ρ id json cut
    | _, _ => n

/-! ### Kills -/

/-- `_onKill`, up to the first `await`. -/
def onKill (n : Node) (f : KillFrame) : Node :=
  let t := f.topicId
  match n.topicDecision cfg t f.arrival with
  | .forward => n
  | .reroute => n.reroute t f.arrival
  | .handle =>
    match n.holdIntercept cfg t .kill f.arrival f.holdFwd with
    | (true, n) => n
    | (false, n) =>
      match n.mergeGateIntercept t f.arrival f.gateFwd with
      | (true, n) => n
      | (false, n) =>
        match n.stagingIntercept t .kill fun _ => false with
        | (true, n) => n
        | (false, n) =>
          let (closer, n) := n.closerRoot cfg t false
          match closer with
          | some closer => n.forwardToRoot t closer
          | none =>
            match n.roleOrRoot cfg t with
            | (none, n) => n.rerouteDeclined cfg t f.arrival
            | (some ρ, n) =>
              if f.kill.msgId.all List.isEmpty then n
              else n.park (.kill ρ (n.cutCapture ρ) f.kill)

/-- The stamp of a first kill and its commit. What the stamp moved is put back when the cut
refuses the commit. -/
def stampKill (n : Node) (ρ : RoleRef) (t : TopicId) (id : MsgId) (signer : Text) (cut : Cut) :
    Node :=
  let before := n.role ρ
  let ts := max (succDouble before.lastTs) n.now
  let seq := succDouble before.seq
  let stamped := n.modifyRole ρ fun r => { r with lastTs := ts, lastDemandAt := n.now, seq := seq }
  -- `_applyKill` refuses exactly when the cut does not hold
  if n.cutHolds ρ (some cut) then
    let n := stamped.note (.stamped ρ before ts seq)
    let n := (n.applyKill (some ρ) t ⟨id, some ts, some signer, some seq⟩ (some cut) none).2
    n.send (.ingestAck t id)
  else
    let n := stamped.modifyRole ρ fun r =>
      { r with seq := before.seq, lastTs := before.lastTs, lastDemandAt := before.lastDemandAt }
    n.cutDisposition cfg t

/-- `_onKill`, from the signature check on: only the author of a body held here may kill it, a
kill that stands is applied again under its own stamp, and a new one is stamped. -/
def resumeKill (n : Node) (ρ : RoleRef) (cut : Cut) (k : Kill) : Node :=
  if verifyKill cfg.toPrimitives k ≠ .ok then n
  else match k.msgId, k.signerPubkey with
  | some id, some pk =>
    let r := n.role ρ
    if (r.cache.find? fun e => e.msgId = id).any fun e => e.json.author ≠ some (lc pk) then n
    else
      let t := r.topicId
      match r.tombstones.get id with
      | some tomb =>
        match n.applyKill (some ρ) t ⟨id, some tomb.killTs, some (lc pk), tomb.seq⟩ (some cut)
          none with
        | (false, n) => n.cutDisposition cfg t
        | (true, n) => n.send (.ingestAck t id)
      | none => n.stampKill cfg ρ t id (lc pk) cut
  | _, _ => n

/-! ### Stamped history -/

/-- What became of one stamped body. -/
inductive Outcome where
  | held
  | rejected
  | refused
deriving DecidableEq, Repr

/-- `_ingestStamped`, from the checks that were awaited on: the body is taken under the stamp it
has, and the counters are raised above it. -/
def ingestStamped (n : Node) (ρ : RoleRef) (m : Stamped) (cut : Cut) : Outcome × Node :=
  match m.json.parsed with
  | none => (.rejected, n)
  | some e =>
    if verifyEnvelope cfg.toPrimitives e ≠ .ok || e.msgId ≠ some m.msgId then (.rejected, n)
    else match e.topic with
    | none => (.rejected, n)
    | some d =>
      let t := (n.role ρ).topicId
      if deriveTopicId cfg.toPrimitives d ≠ some t then (.rejected, n)
      else
        let n := n.modifyRole ρ fun r => r.noteMetric d
        if n.now + futureToleranceMs < m.publishTs then (.rejected, n)
        else if m.msgId ∈ (n.role ρ).cacheIds then (.held, n)
        else match n.tombstoned (some ρ) m.msgId m.json with
        | (true, n) => (.held, n)
        | (false, n) =>
          match n.cachePush cfg ρ m (some cut) with
          | (false, n) => (.refused, n)
          | (true, n) =>
            let n := (n.modifyRole ρ fun r => r.recover m.publishTs m.seq).note
              (.ingested ρ m.publishTs m.seq true)
            (.held, n.deliverToApp t m.msgId m.publishTs)

/-- The tally with one more body. -/
def Tally.count (c : Tally) : Outcome → Tally
  | .held => { c with held := c.held + 1 }
  | .rejected => { c with rejected := c.rejected + 1 }
  | .refused => { c with rejected := c.rejected + 1, refused := true }

/-- What follows a transfer that is through. -/
def finishIngest (n : Node) (ρ : RoleRef) (tally : Tally) : After → Node
  | .done => n
  | .handoff leaver =>
    if tally.refused then n
    else
      let t := (n.role ρ).topicId
      let n := n.handoffArrived cfg t leaver
      match leaver with
      | some l => n.send (.handoffAck l t tally.held tally.sent)
      | none => n
  | .merge corr y tail => n.mergeFrameDone ρ corr y tally tail

/-- `_ingestStampedBatch`: the next body of a transfer. A check that throws ends the transfer; a
refusal at the cut marks it, and nothing of it is applied any more. -/
def resumeIngest (n : Node) (ρ : RoleRef) (cut : Cut) (msgs : List Stamped) (tally : Tally)
    (after : After) : Node :=
  match msgs with
  | [] => n.finishIngest cfg ρ tally after
  | m :: ms =>
    if m.json.parsed.any fun e => verifyEnvelope cfg.toPrimitives e = .threw then n
    else
      let (o, n) := n.ingestStamped cfg ρ m cut
      let tally := Tally.count tally o
      if tally.refused then
        n.finishIngest cfg ρ { tally with rejected := tally.rejected + ms.length } after
      else n.park (.ingest ρ cut ms tally after)

/-- A transfer into a role: its deletions first, then, one by one, its bodies. -/
def ingestTransfer (n : Node) (ρ : RoleRef) (f : Transfer) (genTag : Option Gen) (after : After) :
    Node :=
  let cut := n.cutCapture ρ
  match n.applyDels ρ f.topicId (some cut) genTag f.dels with
  | (true, n) => n.park (.ingest ρ cut f.msgs ⟨f.msgs.length, 0, 0, false⟩ after)
  | (false, n) => n

/-- `_syncIngest` of a REPLAY_UP: history this node asked for. -/
def onReplayUp (n : Node) (f : Transfer) : Node :=
  match n.roleAt f.topicId with
  | none => n
  | some ρ => n.ingestTransfer ρ f none .done

/-- `_syncIngest` of a HANDOFF: the heir takes the root and the history, unless it is gated. -/
def onHandoff (n : Node) (f : Transfer) : Node :=
  match n.roleAt f.topicId with
  | some ρ =>
    if (n.role ρ).merge.gate.isSome then n
    else n.ingestTransfer ρ f none (.handoff f.from?)
  | none =>
    if cfg.neverRoot || n.world.saturated then n
    else match n.becomeRoot cfg f.topicId with
    | (none, n) => n
    | (some ρ, n) => n.ingestTransfer ρ f none (.handoff f.from?)

/-- `_syncIngest` of a REPLICATE. At a root it is a union, and the claim stays; elsewhere, when
the grant is admitted, the role becomes the backup of the sender. -/
def onReplicate (n : Node) (f : Transfer) (gen : Option Gen) (granted : Bool) : Node :=
  if cfg.neverRoot then n
  else match (n.roleAt f.topicId).filter fun ρ => (n.role ρ).isRoot with
  | some ρ => n.ingestTransfer ρ f none .done
  | none =>
    match f.from? with
    | none => n
    | some sender =>
      if !cfg.rootReplicas || (cfg.topicLifetime && !granted) then n
      else
        let (n, ρ) := match n.roleAt f.topicId with
          | some ρ => (n, ρ)
          | none => n.register (makeRole f.topicId false n.now)
        let gen := if cfg.topicLifetime then gen else none
        let n := n.becomeBackup f.topicId ρ sender gen
        let genTag := if cfg.topicLifetime then gen.orElse fun _ => (n.role ρ).standbyGen else none
        n.ingestTransfer ρ f genTag .done

/-! ### Deliveries -/

/-- A body of a DELIVER at a relay that does not hold it yet: cached without a check of the
envelope, and the dense counter is raised, the stamp's floor is not. -/
def relayBody (n : Node) (ρ : RoleRef) (m : Stamped) : Node :=
  let n := match n.cachePush cfg ρ m none with
    | (true, n) => n.note (.ingested ρ m.publishTs m.seq false)
    | (false, n) => n
  n.modifyRole ρ fun r => { r with seq := max r.seq (m.seq.getD r.seq) }

/-- `_onDeliver`, item by item. The role is the one registered when the message came in. A body
that meets a role of unknown kind waits for its descriptor to be derived, and so does what
follows it. -/
def deliverItems (n : Node) (t : TopicId) (ρ : Option RoleRef) (genTag : Option Gen) :
    List DeliverItem → Node
  | [] => n
  | .del d :: items => deliverItems (n.applyKill ρ t d none genTag).2 t ρ genTag items
  | .body m :: items =>
    match n.tombstoned ρ m.msgId m.json with
    | (true, n) => deliverItems n t ρ genTag items
    | (false, n) =>
      match ρ with
      | none => deliverItems (n.deliverToApp t m.msgId m.publishTs) t ρ genTag items
      | some ρ' =>
        if m.msgId ∈ (n.role ρ').cacheIds then
          deliverItems (n.deliverToApp t m.msgId m.publishTs) t ρ genTag items
        else if (n.role ρ').latestOnly.isNone && (m.json.parsed.bind (·.topic)).isSome then
          n.park (.deliver t ρ' genTag m items)
        else
          deliverItems ((n.relayBody cfg ρ' m).deliverToApp t m.msgId m.publishTs) t ρ genTag items

/-- A descriptor that derives the topic tells its kind. -/
def noteDelivered (n : Node) (t : TopicId) (ρ : RoleRef) (m : Stamped) : Node :=
  match m.json.parsed.bind (·.topic) with
  | some d =>
    if deriveTopicId cfg.toPrimitives d = some t then n.modifyRole ρ fun r => r.noteMetric d
    else n
  | none => n

/-- A DELIVER whose body's descriptor was derived: the kind of the topic is noted, the body is
cached and delivered, with no second look at what is held or killed, and the rest follows. -/
def resumeDeliver (n : Node) (t : TopicId) (ρ : RoleRef) (genTag : Option Gen) (m : Stamped)
    (items : List DeliverItem) : Node :=
  let n := n.noteDelivered cfg t ρ m
  ((n.relayBody cfg ρ m).deliverToApp t m.msgId m.publishTs).deliverItems cfg t
    (some ρ) genTag items

/-- `_onDeliver`. `upstream` is where the attachment decision re-pins this node, `genTag` the
generation its deletions belong to. -/
def onDeliver (n : Node) (t : TopicId) (upstream : Option NodeId) (genTag : Option Gen)
    (items : List DeliverItem) : Node :=
  let n := match upstream with
    | some up => { n with upstream := n.upstream.set t up }
    | none => n
  n.deliverItems cfg t (n.roleAt t) genTag items

/-! ### Subscriptions -/

/-- `meshBare`: the node has no neighbour but the bridge. -/
def meshBare (n : Node) : Bool :=
  n.world.neighbors.any fun ns => ns.all fun x => some x = n.world.bridge

/-- `_onSub`, as far as it moves the claim, the merge and this node's own app. -/
def onSub (n : Node) (f : SubFrame) : Node :=
  let t := f.topicId
  match n.topicDecision cfg t f.arrival with
  | .forward => n
  | .reroute => n.reroute t f.arrival
  | .handle =>
    match n.holdIntercept cfg t .sub f.arrival f.holdFwd with
    | (true, n) => n
    | (false, n) =>
      match n.stagingIntercept t .sub fun loser => f.merge.isSome && f.subscriber = loser with
      | (true, n) => n
      | (false, n) =>
        let (closer, n) := n.closerRoot cfg t true
        match closer with
        | some closer => n.deferToRoot cfg t closer
        | none =>
          -- a node alone with its own SUB elects nobody
          if !n.axonRoles.has t && f.subscriber = cfg.nodeId && n.meshBare then n
          else match n.roleOrRoot cfg t with
          | (none, n) => n.rerouteDeclined cfg t f.arrival
          | (some ρ, n) =>
            if (n.role ρ).dismantling.isSome then n
            else
              let n := n.maybePromoteRoot cfg ρ f.arrival
              if f.subscriber = cfg.nodeId then
                if t ∈ n.mySubscriptions then n.replayLocal ρ f.since f.latest else n
              else
                let n := match f.merge with
                  | some b => n.mergeCompleteOnSub cfg ρ f.subscriber f.arrival.via b
                  | none => n
                if (n.role ρ).staging.any (·.created) && !(n.role ρ).isRoot then n
                else if f.demand then n.modifyRole ρ fun r => { r with lastDemandAt := n.now }
                else n

/-- `_onAdopt`: the node becomes a child relay of `parent`. -/
def onAdopt (n : Node) (t : TopicId) (parent : NodeId) : Node :=
  match n.adoptChild cfg t parent with
  | (none, n) => n
  | (some ρ, n) => n.send (.subscribe t (n.role ρ).merge.completing)

/-! ### The app -/

/-- `pubsubSubscribe`, from the floor that the app asked for. -/
def pubsubSubscribe (n : Node) (t : TopicId) (since : Int) (latest : Bool) : Node :=
  let n := { n with
    mySubscriptions := insert t n.mySubscriptions
    subSince := n.subSince.set t since
    lastSeen := n.lastSeen.set t since }
  let n := match n.roleAt t with
    | some ρ => n.replayLocal ρ since latest
    | none => n
  n.send (.subscribe t ((n.roleAt t).bind fun ρ => (n.role ρ).merge.completing))

/-- `pubsubResetTopicConsumption`: the app counts as having seen nothing of the topic. -/
def pubsubResetTopicConsumption (n : Node) (t : TopicId) : Node :=
  { n with
    upstream := n.upstream.delete t
    lastSeen := n.lastSeen.set t 0
    appDelivered := n.appDelivered.filter fun k _ => k.1 ≠ t }

/-- `pubsubUnsubscribe`. -/
def pubsubUnsubscribe (n : Node) (t : TopicId) : Node :=
  { n with
    mySubscriptions := n.mySubscriptions.erase t
    subSince := n.subSince.delete t }.pubsubResetTopicConsumption t

end Node

end Axona
