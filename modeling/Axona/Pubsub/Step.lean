import Mathlib.Data.Nat.Pairing
import Axona.Pubsub.RepairPlane

/-! # The node as a transition system

A node runs one handler at a time, up to its end or to its next `await`; in between anything
else may run. `Act` names what can run next, with what it reads from outside, and `step` runs
it. A run of a node is a list of acts, each with the world it runs in: frames may be forged,
lost, repeated and reordered, the clocks may jump, and suspended handlers resume in any order. -/

namespace Axona

open Library

/-- What a suspended handler is resumed with. -/
inductive Resume where
  /-- The digest or the signature check it waited for is done, or the replicas have been sent to. -/
  | checked
  /-- The verdict of a route. -/
  | verdict (v : ForwardVerdict)
  /-- Whether an offer reached anyone. -/
  | reached (r : Bool)
deriving DecidableEq, Repr

/-- What runs next. -/
inductive Act where
  /-- A handler that awaited runs on. -/
  | resume (k : Nat) (with' : Resume)
  | pub (f : PubFrame)
  | kill (f : KillFrame)
  | sub (f : SubFrame)
  | deliver (t : TopicId) (upstream : Option NodeId) (genTag : Option Gen)
      (items : List DeliverItem)
  | replayUp (f : Transfer)
  | handoff (f : Transfer)
  | replicate (f : Transfer) (gen : Option Gen) (granted : Bool)
  | adopt (t : TopicId) (parent : NodeId)
  | metricsOn (t : TopicId) (a : Arrival)
  | beacon (root : NodeId) (topics : List (TopicId × Option Int))
  | verify (t : TopicId) (closest : NodeId)
  | peerDied (dead : NodeId)
  | expireBeacons
  | evict (t : TopicId) (root : NodeId) (epoch : Int)
  | mergeOffer (o : MergeOffer)
  | mergePull (q : MergePull)
  | mergeFrame (f : MergeFrame)
  | replayAck (a : ReplayAck) (secondHolder : Bool)
  | mergeClosed (c : MergeClosed)
  | mergeSweep
  | step5Tick (t : TopicId) (corr : Corr) (secondHolder : Bool)
  /-- The write of a gate's forward was acknowledged under another epoch, or not at all. -/
  | winnerReminted (t : TopicId) (root : NodeId) (corr : Corr) (epoch : Int)
  | winnerSilent (t : TopicId) (corr : Corr)
  | expire (t : TopicId)
  | reap (t : TopicId) (held : Bool)
  | retireIdleBackup (t : TopicId) (idle : Bool)
  | claimFallback (t : TopicId)
  | readRepair (t : TopicId)
  | pruneHighWater
  | standbyLease (t : TopicId)
  | terminate (t : TopicId) (held targets : Bool)
  | terminated (t : TopicId) (gen : Gen) (attached : Bool) (att : Option Gen) (seats : Bool)
  | stepDown (t : TopicId) (thin heldAbove : Bool)
  | rehome (t : TopicId) (sender : NodeId) (next : Option NodeId)
  | subscribe (t : TopicId) (since : Int) (latest : Bool)
  | unsubscribe (t : TopicId)
  | resetTopic (t : TopicId)
  | reset

namespace Node

variable (cfg : Config)

/-- `_mergeFlightSilent`: no acknowledgement of a forwarded write, so the round ends. -/
def winnerSilent (n : Node) (t : TopicId) (corr : Corr) : Node := n.winnerVerdict t corr .failed

/-- `_mergeWinnerReminted`: the winner answers under another epoch. The round ends, and the
winner is nominated afresh. -/
def winnerReminted (n : Node) (t : TopicId) (root : NodeId) (corr : Corr) (epoch : Int) : Node :=
  match (n.roleAt t).filter fun ρ => (n.role ρ).merge.gate.any fun g => g.corr = corr with
  | none => n
  | some ρ => (n.mergeAbort ρ).mergeCandidate cfg t root (some (toInt32 epoch))

/-- A suspended handler runs on, with what it waited for. -/
def continueWith (n : Node) : Parked → Resume → Node
  | .publish ρ cut json, .checked => n.resumePublish cfg ρ cut json
  | .kill ρ cut k, .checked => n.resumeKill cfg ρ cut k
  | .stamped ρ id, .checked => n.resumeStamped ρ id
  | .ingest ρ cut msgs tally after, .checked => n.resumeIngest cfg ρ cut msgs tally after
  | .ack ρ corr y tail, .checked => n.mergeAck cfg ρ corr y tail
  | .bound ρ corr x, .checked => n.boundDigest cfg ρ corr x
  | .deliver t ρ genTag m items, .checked => n.resumeDeliver cfg t ρ genTag m items
  | .offered x, .reached r => n.modifyExport x fun m => { m with reached := some r }
  | .forward t dest rec, .verdict v => n.forwardVerdict cfg t dest rec v
  | .forwardWinner t corr, .verdict v => n.winnerVerdict t corr v
  | _, _ => n

/-- Resume the handler suspended under `k`, if there is one. -/
def resume (n : Node) (k : Nat) (r : Resume) : Node :=
  match n.parked.get k with
  | none => n
  | some p => { n with parked := n.parked.delete k }.continueWith cfg p r

/-- Run one act. -/
def perform (n : Node) : Act → Node
  | .resume k r => n.resume cfg k r
  | .pub f => n.onPub cfg f
  | .kill f => n.onKill cfg f
  | .sub f => n.onSub cfg f
  | .deliver t up g items => n.onDeliver cfg t up g items
  | .replayUp f => n.onReplayUp f
  | .handoff f => n.onHandoff cfg f
  | .replicate f g ok => n.onReplicate cfg f g ok
  | .adopt t p => n.onAdopt cfg t p
  | .metricsOn t a => n.onMetricsOn cfg t a
  | .beacon root topics => n.onRootBeacon cfg root topics
  | .verify t c => n.verifyRoot cfg t c
  | .peerDied d => n.pubsubPeerDied d
  | .expireBeacons => n.expireBeacons
  | .evict t root e => n.flightEvict t root e
  | .mergeOffer o => n.onMergeOffer cfg o
  | .mergePull q => n.mergeAnswerPull cfg q
  | .mergeFrame f => n.mergeIngestFrame cfg f
  | .replayAck a s => n.onReplayAck cfg a s
  | .mergeClosed c => n.onMergeClosed c
  | .mergeSweep => n.mergeSweep cfg
  | .step5Tick t c s => n.step5Tick cfg t c s
  | .winnerReminted t root c e => n.winnerReminted cfg t root c e
  | .winnerSilent t c => n.winnerSilent t c
  | .expire t => n.expireRole t
  | .reap t h => n.reap t h
  | .retireIdleBackup t i => n.retireIdleBackup t i
  | .claimFallback t => n.claimFallback cfg t
  | .readRepair t => n.readRepair t
  | .pruneHighWater => n.pruneHighWater
  | .standbyLease t => n.standbyLeaseSweep cfg t
  | .terminate t h g => n.terminationSweep cfg t h g
  | .terminated t g a att s => n.onTopicTerminated cfg t g a att s
  | .stepDown t a b => n.stepDownChild cfg t a b
  | .rehome t s u => n.onRehome cfg t s u
  | .subscribe t s l => n.pubsubSubscribe t s l
  | .unsubscribe t => n.pubsubUnsubscribe t
  | .resetTopic t => n.pubsubResetTopicConsumption t
  | .reset => n.resetState

/-- One step of a node: the world changes, and the act runs in it. -/
def step (n : Node) (a : World × Act) : Node := { n with world := a.1 }.perform cfg a.2

end Node

/-- A node that has just started: no role, no record, nothing sent. -/
def Node.boot (w : World) : Node :=
  { world := w
    exports := Heap.empty
      { winner := 0, winnerEpoch := 0, loserEpoch := 0, state := .offered, snapshot := ⟨[], []⟩,
        manifest := ⟨[], []⟩, lastCursorSent := none, offeredAt := 0, tB := 0, tBWall := 0,
        timing := mergeTiming, hash := none, reached := none, ephemeral := false,
        deferPinned := false, deferred := none }
    pulls := Heap.empty
      { loser := 0, loserEpoch := 0, cursor := none, framesIn := 0, held := 0, sent := 0,
        startedAt := 0, timing := mergeTiming, state := .pulling, manifest := ⟨[], []⟩,
        header := false, tS := 0, hash := none, full := false } }

/-- A run of a node: its acts, one after the other, from the start. -/
abbrev Run := List (World × Act)

/-! ### A node to run -/

/-- A text as a number, one digit for each character. -/
def textCode (t : Text) : Nat := t.foldr (fun c n => 2 ^ 21 * n + (c.toNat + 1)) 0

/-- Digests that never collide, one region, and a signature that is the key written twice. -/
def samplePrimitives : Primitives where
  resolveRegion _ := some 1
  topicHash k := Nat.pair (k.owner.elim 0 fun o => textCode o + 1)
    (Nat.pair (textCode k.name) (match k.write with | .open => 0 | .owner => 1))
  computeMsgId author m := author.getD [] ++ List.replicate m '.'
  manifestHash bodies dels := 2 * bodies.length + dels.length
  verify pk _ sig := sig = pk ++ pk
  verifyKillCore pk _ sig := sig = pk ++ pk

/-- The node `0`, with the merge and the cutover on. -/
def sampleConfig : Config where
  toPrimitives := samplePrimitives
  nodeId := 0
  mergeCapable := true
  cutover := true
  successorGate := true
  topicLifetime := true
  rootReplicas := true
  neverRoot := false
  cacheMax := 1024
  cacheBytes := 1024 * 1024
  stepDownHoldMs := 60000
  exportBytes s := 100 * s.bodies.length + 80 * s.dels.length

/-- Both clocks at `now`, and no neighbour. -/
def sampleWorld (now : Int) : World :=
  { wall := now, mono := now, neighbors := some [], bridge := none, serving := true,
    saturated := false, nonce := now.toNat }

/-- An open topic. -/
def sampleTopic : Descriptor := ⟨some [], none, some ['t'], .absent⟩

/-- Its id. -/
def sampleTopicId : TopicId := (deriveTopicId samplePrimitives sampleTopic).getD 0

/-- An unsigned post to it. -/
def samplePost (m : Message) (ts : Int) : Json :=
  ⟨100, some ⟨some (List.replicate m '.'), some 0, some ts, some sampleTopic, some m, none,
    .missing⟩⟩

/-- A post that ends at this node. -/
def samplePub (m : Message) (ts : Int) : Act :=
  .pub ⟨sampleTopicId, ⟨[], true⟩, .none, .none, samplePost m ts⟩

end Axona
