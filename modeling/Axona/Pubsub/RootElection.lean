import Axona.Pubsub.MergeMachine

/-! # The root election

Where is the root, and who is alive: the receipt of a root's beacon, a root's verification of
its own claim, the conviction of a root that acknowledges nothing, and the events that make a
beacon record a ghost's. -/

namespace Axona

open Library

/-- The largest integer a beacon's epoch may name, `Number.MAX_SAFE_INTEGER`. -/
def maxSafeInteger : Int := 2 ^ 53 - 1

/-- The epoch a beacon names for a topic: `0` when it is missing or malformed, and no larger
than the largest safe integer. -/
def beaconEpoch (raw : Option Int) : Int :=
  raw.elim 0 fun e => if 0 ≤ e then min e maxSafeInteger else 0

/-- How many topics of one beacon are read. -/
def beaconTopicsMax : Nat := 256

/-- What the route of a forwarded write reports. -/
inductive ForwardVerdict where
  /-- It was consumed at the node it was sent to. -/
  | consumed
  /-- It reached nobody. -/
  | failed
  /-- Anything else: consumed elsewhere, or no verdict. -/
  | nothing
deriving DecidableEq, Repr

namespace Node

variable (cfg : Config)

/-! ### Beacons -/

/-- The epoch of the claim this node holds, `0` without one. -/
def myEpoch (n : Node) (t : TopicId) : Int :=
  (n.roleAt t).elim 0 fun ρ => if (n.role ρ).isRoot then (n.role ρ).epoch else 0

/-- A beacon of the accepted winner at its epoch or above extends the record and the hold. -/
def refreshAccepted (n : Node) (t : TopicId) (root : NodeId) (epoch : Int) : Node :=
  match n.roleAt t with
  | none => n
  | some ρ =>
    match (n.role ρ).merge.acceptedWinner with
    | none => n
    | some w =>
      if w.id = root && w.epoch ≤ epoch then
        let n := n.modifyMerge ρ fun m =>
          { m with acceptedWinner := some ⟨w.id, epoch, n.now + cfg.stepDownHoldMs⟩ }
        match n.stepDownHold.get t with
        | some h =>
          if h.root = root then { n with stepDownHold := n.stepDownHold.set t ⟨h.root, n.now⟩ }
          else n
        | none => n
      else n

/-- The record of an accepted beacon. It keeps the highest epoch heard for the seat, whoever is
named. -/
def recordBeacon (n : Node) (t : TopicId) (root : NodeId) (epoch : Int) : Node :=
  let held := (n.rootBeacons.get t).elim 0 fun b => b.epoch.getD 0
  { n with rootBeacons :=
      n.rootBeacons.set t ⟨root, n.now, n.now + beaconTtlMs, some (max epoch held), false⟩ }.note
    (.heard t epoch)

/-- `_onRootBeacon`, for one topic. A beacon is a hint: it is taken when it names a node at least
as close as the best one known here, or when its epoch supersedes this node's own claim. A
superseding epoch, or a closer root that is not convicted, makes this node yield. -/
def onBeaconTopic (n : Node) (root : NodeId) (t : TopicId) (epoch : Int) : Node :=
  let supersedesMine := 0 < n.myEpoch t && n.myEpoch t < epoch
  let n := n.refreshAccepted cfg t root epoch
  if !supersedesMine && distance t (n.bestKnownClosest cfg t) < distance t root then n
  else
    let (staleClaim, n) := (n.recordBeacon t root epoch).rootTombstoned t root (some epoch)
    if supersedesMine || (distance t root < distance t cfg.nodeId && !staleClaim) then
      n.mergeCandidate cfg t root (some epoch)
    else n

/-- `_onRootBeacon`: the topics a root names, with the epochs as they were sent. -/
def onRootBeacon (n : Node) (root : NodeId) (topics : List (TopicId × Option Int)) : Node :=
  (topics.take beaconTopicsMax).foldl
    (fun n e => n.onBeaconTopic cfg root e.1 (beaconEpoch e.2)) n

/-- The records that stopped being pointers go. -/
def expireBeacons (n : Node) : Node :=
  { n with rootBeacons := n.rootBeacons.filter fun _ b => n.now < b.exp }

/-- `pubsubPeerDied`: the records and the pins that name a dead peer go. -/
def pubsubPeerDied (n : Node) (dead : NodeId) : Node :=
  { n with
    rootBeacons := n.rootBeacons.filter fun _ b => b.root ≠ dead
    upstream := n.upstream.filter fun _ up => up ≠ dead }

/-! ### Verification -/

/-- `_verifyRoots`, when the lookups of a root are back: `closest` is the closest node they
visited. A strictly closer one is recorded, except under cutover, and the claim is offered to
it. -/
def verifyRoot (n : Node) (t : TopicId) (closest : NodeId) : Node :=
  if distance t cfg.nodeId ≤ distance t closest then n
  else match n.roleAt t with
  | none => n
  | some ρ =>
    if !(n.role ρ).isRoot then n
    else
      let n := if cfg.cutover then n else
        { n with rootBeacons :=
            n.rootBeacons.set t ⟨closest, n.now, n.now + 2 * rootVerifyMs, none, true⟩ }
      n.mergeCandidate cfg t closest none

/-! ### Convictions -/

/-- `_flightEvict`: a root that acknowledged no write within its budget is convicted, at the
epoch the write was sent under. The topic keeps one conviction, that of the higher epoch, and
the later one of two at the same. -/
def flightEvict (n : Node) (t : TopicId) (root : NodeId) (epoch : Int) : Node :=
  let n :=
    if (n.rootTombstones.get t).all fun prev => prev.epoch ≤ epoch then
      { n with rootTombstones := n.rootTombstones.set t ⟨root, epoch, n.now + rootTombstoneTtlMs⟩ }
    else n
  let n :=
    if (n.rootBeacons.get t).any fun b => b.root = root && b.epoch.all (fun e => e ≤ epoch) then
      { n with rootBeacons := n.rootBeacons.delete t }
    else n
  match n.roleAt t with
  | none => n
  | some ρ =>
    if (n.role ρ).merge.acceptedWinner.any fun w => w.id = root && w.epoch ≤ epoch then
      let n := n.modifyMerge ρ fun m => { m with acceptedWinner := none }
      if (n.stepDownHold.get t).any fun h => h.root = root then
        { n with stepDownHold := n.stepDownHold.delete t }
      else n
    else n

/-! ### Forwarded writes and departures -/

/-- `_forwardToRoot`: a write goes to the root a record names, and the verdict of its route is
waited for. -/
def forwardToRoot (n : Node) (t : TopicId) (dest : NodeId) : Node :=
  (n.send (.write t [dest])).park (.forward t dest (n.rootBeacons.get t))

/-- The verdict of a forwarded write. Consumed at the root it was sent to, it makes this node
yield to that root; failed, it drops the record it was sent by, if that record still stands. -/
def forwardVerdict (n : Node) (t : TopicId) (dest : NodeId) (rec : Option Beacon) :
    ForwardVerdict → Node
  | .consumed => n.mergeCandidate cfg t dest none
  | .failed =>
    match rec, n.rootBeacons.get t with
    | some b, some cur =>
      if cur.root = b.root && cur.heardAt = b.heardAt then
        { n with rootBeacons := n.rootBeacons.delete t }
      else n
    | _, _ => n
  | .nothing => n

/-- `_deferToRoot`: yield to a root there is evidence of, and send the message there. -/
def deferToRoot (n : Node) (t : TopicId) (dest : NodeId) : Node :=
  (n.mergeCandidate cfg t dest none).send (.write t [dest])

/-- `handoffArrived`: the record naming the leaver is a ghost's. The heir yields to a closer live
root other than the leaver. -/
def handoffArrived (n : Node) (t : TopicId) (leaver : Option NodeId) : Node :=
  let n :=
    if leaver.any fun l => (n.rootBeacons.get t).any fun b => b.root = l then
      { n with rootBeacons := n.rootBeacons.delete t }
    else n
  match n.liveCloserRoot cfg t true with
  | (none, n) => n
  | (some c, n) => if leaver = some c then n else n.mergeCandidate cfg t c none

end Node

end Axona
