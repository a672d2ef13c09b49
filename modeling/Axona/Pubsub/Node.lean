import Axona.Pubsub.Role

/-! # The state of a node

A node's pub/sub plane: its roles, the records of the root election, the app's subscriptions,
and the handlers that are suspended at an `await`. Roles and merge records are objects behind
references (`Heap`), so a suspended handler keeps the object it began with.

What the plane reads from outside at a step is its `World`: the two clocks, the routing table,
and fresh randomness. What it does outwards is recorded newest first: the frames sent, the
calls into the app, and the entries of a journal that the safety statements are about. -/

namespace Axona

open Library

/-! ### Surroundings -/

/-- The settings of a node. `exportBytes` is the length of an export in its serialized form. -/
structure Config extends Primitives where
  nodeId : NodeId
  mergeCapable : Bool
  cutover : Bool
  successorGate : Bool
  topicLifetime : Bool
  rootReplicas : Bool
  neverRoot : Bool
  cacheMax : Nat
  cacheBytes : Nat
  stepDownHoldMs : Int
  exportBytes : Snapshot → Nat

/-- What a step reads from outside: the wall clock (`_now()`), the monotonic clock (`_mono()`),
the adapter's neighbours (`none` where it reports none), its bridge, whether it can serve and
whether it is saturated, and a random number for the ids minted in the step. -/
structure World where
  wall : Int
  mono : Int
  neighbors : Option (List NodeId)
  bridge : Option NodeId
  serving : Bool
  saturated : Bool
  nonce : Nat
deriving Inhabited

/-! ### Constants, in milliseconds -/

/-- How long a body or a tombstone is held. -/
def ttlMs : Int := 24 * 60 * 60 * 1000

/-- How far ahead of the clock a replayed stamp may be. -/
def futureToleranceMs : Int := 5 * 60 * 1000

/-- The beacon cadence. -/
def beaconMs : Int := 20000

/-- How long a beacon record is a pointer. -/
def beaconTtlMs : Int := 50000

/-- The cadence of a root's self-verification. -/
def rootVerifyMs : Int := 45000

/-- How long a conviction stands. -/
def rootTombstoneTtlMs : Int := max 600000 (beaconTtlMs * 12)

/-- How many keys the app-delivery memory holds. -/
def appDedupMax : Nat := 8192

/-- The bound on one handoff round. -/
def handoffAckMaxMs : Int := 5000

/-- The byte budget of one frame of a replay. -/
def replayChunkBytes : Nat := 96 * 1024

/-- The bound on an export in its serialized form: bodies, tombstones, manifest, header and one
frame of slack. -/
def exportBytesMax : Nat :=
  16 * 1024 * 1024 + 1024 * 512 + 1024 * 2 * 80 + 1024 + replayChunkBytes

/-- The number of frames of an export, with the header. -/
def mergeFramesMax : Nat := (exportBytesMax + replayChunkBytes - 1) / replayChunkBytes + 1

/-- The bound on one gate interval. -/
def mergeTimeoutMs : Int :=
  max handoffAckMaxMs (2 * ((2 + 2 * mergeFramesMax) * 250 + handoffAckMaxMs))

/-- How long an offer may go unanswered. -/
def mergeOfferTimeoutMs : Int := 2 * handoffAckMaxMs

/-- How long a winner keeps its pins after its acknowledgement. -/
def mergeRetentionMs : Int := mergeTimeoutMs + 2 * futureToleranceMs + 5000

/-- The version of the timing rule. -/
def mergeTimingVersion : Int := 1

/-- How long an ended generation's epoch is remembered, by the monotonic clock: the standby
lease, the skew and the delay of an appointment. -/
def generationMemoryMs : Int := 180000 + 15000 + 60000

/-- How many notices a terminating root sends. -/
def topicTerminateTries : Nat := 3

/-- What is left for a winner's own writes during a round. -/
def mergeWriteReserve : Reserve := ⟨64, 1024 * 1024⟩

example : mergeTimeoutMs = 191000 := by decide

/-! ### The records of the root election -/

/-- A beacon record: the root named, when it was heard, when it stops being a pointer, the
highest epoch heard for the seat (`none` in a record planted by a verification), and whether a
lookup confirmed it. -/
structure Beacon where
  root : NodeId
  heardAt : Int
  exp : Int
  epoch : Option Int
  verified : Bool
deriving DecidableEq, Repr

/-- A conviction: the root and the epoch whose claims are a ghost's until `exp`. -/
structure Conviction where
  root : NodeId
  epoch : Int
  exp : Int
deriving DecidableEq, Repr

/-- The epoch of a generation this node ended, remembered until `lapses` (monotonic). -/
structure HighWater where
  epoch : Int
  lapses : Int
deriving DecidableEq, Repr

/-- A step-down hold: the root yielded to, and since when. -/
structure Hold where
  root : NodeId
  since : Int
deriving DecidableEq, Repr

/-! ### Suspended handlers -/

/-- A message in a replayed transfer. -/
abbrev Stamped := Entry

/-- An item of a DELIVER: a body or a deletion. -/
inductive DeliverItem where
  | body (e : Stamped)
  | del (d : Del)
deriving DecidableEq, Repr

/-- `_cutCapture`: the role and the generation a commit path began with. -/
structure Cut where
  role0 : RoleRef
  gen0 : Int
deriving DecidableEq, Repr

/-- The counts of a transfer so far. -/
structure Tally where
  sent : Nat
  held : Nat
  rejected : Nat
  refused : Bool
deriving DecidableEq, Repr

/-- What a frame of a merge transfer says besides its bodies and deletions: the last cursor,
whether more frames follow, and at the end the counts and the digest of the manifest. -/
structure FrameTail where
  lastCursor : Option Cursor
  more : Bool
  bodies : Nat
  dels : Nat
  hash : Option Digest
deriving DecidableEq, Repr

/-- What follows the ingestion of a transfer. -/
inductive After where
  /-- Nothing: a replay to a parent, or a replica. -/
  | done
  /-- The departure rules of a handoff from `leaver`. -/
  | handoff (leaver : Option NodeId)
  /-- The bookkeeping of a merge frame under `corr`. -/
  | merge (corr : Corr) (pull : PullRef) (tail : FrameTail)
deriving DecidableEq, Repr

/-- A handler suspended at an `await`, with what it holds on to. -/
inductive Parked where
  /-- A publish whose envelope is being verified. -/
  | publish (role : RoleRef) (cut : Cut) (json : Json)
  /-- A kill whose signature is being verified. -/
  | kill (role : RoleRef) (cut : Cut) (kill : Kill)
  /-- A publish that was stamped, while it is sent to the replicas. -/
  | stamped (role : RoleRef) (id : MsgId)
  /-- A transfer whose next body is being verified. -/
  | ingest (role : RoleRef) (cut : Cut) (msgs : List Stamped) (tally : Tally) (after : After)
  /-- The terminal frame of a pull whose manifest is being digested. -/
  | ack (role : RoleRef) (corr : Corr) (pull : PullRef) (tail : FrameTail)
  /-- A bound export whose manifest is being digested. -/
  | bound (role : RoleRef) (corr : Corr) (rec : ExportRef)
  /-- An offer whose route is unresolved. -/
  | offered (rec : ExportRef)
  /-- A DELIVER that waits to learn what kind of topic its role holds, at the body `m`. -/
  | deliver (topic : TopicId) (role : RoleRef) (genTag : Option Gen) (m : Stamped)
      (items : List DeliverItem)
  /-- A write forwarded to a beaconed root; `rec` is the record it went by. -/
  | forward (topic : TopicId) (dest : NodeId) (rec : Option Beacon)
  /-- A write forwarded to the winner of the round `corr`. -/
  | forwardWinner (topic : TopicId) (corr : Corr)
deriving DecidableEq

/-! ### What a node does outwards -/

/-- The frames of the merge exchange, the subscriptions and the forwarded writes. -/
inductive Frame where
  | mergeOffer (dest : NodeId) (t : TopicId) (corr : Corr) (loserEpoch : Int) (count : Nat)
      (timing : Timing) (handoff : Bool)
  | pullUp (dest : NodeId) (t : TopicId) (corr : Corr) (winnerEpoch : Int) (cursor : Option Cursor)
      (timing : Timing) (staged : Bool)
  | exportHeader (dest : NodeId) (t : TopicId) (corr : Corr) (loserEpoch : Int) (bodies dels : Nat)
      (hash : Option Digest)
  | exportRefused (dest : NodeId) (t : TopicId) (corr : Corr) (loserEpoch : Int)
  | exportFrame (dest : NodeId) (t : TopicId) (corr : Corr) (loserEpoch : Int)
      (cursor : Option Cursor) (msgs : List Entry) (dels : List Del) (tail : FrameTail)
  | replayAck (dest : NodeId) (ack : ReplayAck)
  | mergeClosed (dest : NodeId) (t : TopicId) (corr : Corr) (winnerEpoch : Int)
  | subscribe (t : TopicId) (merge : Option Completing)
  | write (t : TopicId) (via : List NodeId)
  | ingestAck (t : TopicId) (id : MsgId)
  | handoffAck (dest : NodeId) (t : TopicId) (held sent : Nat)
deriving DecidableEq

/-- The keys of the app-delivery memory. -/
abbrev AppKey := TopicId × Text

/-- A call into the app. -/
inductive AppEvent where
  /-- A body. -/
  | body (t : TopicId) (id : MsgId)
  /-- The notice that a body was retracted. -/
  | killed (t : TopicId) (id : MsgId)
  /-- The notice that a topic's generation ended, and the subscription with it. -/
  | terminated (t : TopicId) (g : Gen)
deriving DecidableEq, Repr

/-- Why a claim is shed. -/
inductive Why where
  /-- Step 5 of the merge of this exchange, on this record. -/
  | mergeStep5 (corr : Corr) (rec : Export)
  /-- The fallback for a winner that does not speak the merge. -/
  | mergeLegacyFallback
  /-- Any other path. -/
  | other
deriving DecidableEq

/-- An entry of the journal. A role in an entry is the role as it was at that instant. -/
inductive Event where
  /-- `isRoot` of a role changed, to the value given. -/
  | transition (role : RoleRef) (before : Role) (isRoot : Bool) (why : Why) (world : World)
  /-- An epoch was minted for a topic's seat. -/
  | minted (t : TopicId) (epoch : Int)
  /-- A beacon with this epoch was accepted for a topic's seat. -/
  | heard (t : TopicId) (epoch : Int)
  /-- A publish or a kill was stamped and committed. -/
  | stamped (role : RoleRef) (before : Role) (ts : Int) (seq : Int)
  /-- A role was made. -/
  | made (role : RoleRef)
  /-- A stamped body or tombstone was taken into a role, and the floor of its stamps raised with it
  or not. -/
  | ingested (role : RoleRef) (ts : Int) (seq : Option Int) (floored : Bool)
  /-- A full acknowledgement passed every check against a bound export record. -/
  | acked (role : RoleRef) (corr : Corr) (rec : Export) (ack : ReplayAck) (world : World)
  /-- A body came up for the cache, and the cut let it through. -/
  | cached (role : RoleRef) (before : Role) (entry : Entry)

/-! ### The node -/

/-- The state of a node's pub/sub plane. -/
structure Node where
  world : World
  axonRoles : OrderedMap TopicId RoleRef := ∅
  roles : Heap Role := Heap.empty default
  exports : Heap Export
  pulls : Heap Pull
  rootBeacons : OrderedMap TopicId Beacon := ∅
  rootTombstones : OrderedMap TopicId Conviction := ∅
  genHighWater : OrderedMap TopicId HighWater := ∅
  stepDownHold : OrderedMap TopicId Hold := ∅
  upstream : OrderedMap TopicId NodeId := ∅
  backupTopics : Finset TopicId := ∅
  mySubscriptions : Finset TopicId := ∅
  subSince : OrderedMap TopicId Int := ∅
  lastSeen : OrderedMap TopicId Int := ∅
  appDelivered : OrderedMap AppKey Unit := ∅
  parked : OrderedMap Nat Parked := ∅
  nextParked : Nat := 0
  sent : List Frame := []
  app : List AppEvent := []
  journal : List Event := []

namespace Node

/-- `_now()`. -/
def now (n : Node) : Int := n.world.wall

/-- The role registered for a topic. -/
def roleAt (n : Node) (t : TopicId) : Option RoleRef := n.axonRoles.get t

/-- The role behind a reference. -/
def role (n : Node) (ρ : RoleRef) : Role := n.roles.get ρ

/-- Change a role. -/
def modifyRole (n : Node) (ρ : RoleRef) (f : Role → Role) : Node :=
  { n with roles := n.roles.modify ρ f }

/-- Change the merge state of a role. -/
def modifyMerge (n : Node) (ρ : RoleRef) (f : MergeState → MergeState) : Node :=
  n.modifyRole ρ fun r => { r with merge := f r.merge }

/-- Change an export record. -/
def modifyExport (n : Node) (x : ExportRef) (f : Export → Export) : Node :=
  { n with exports := n.exports.modify x f }

/-- Change a pull record. -/
def modifyPull (n : Node) (x : PullRef) (f : Pull → Pull) : Node :=
  { n with pulls := n.pulls.modify x f }

/-- Send a frame. -/
def send (n : Node) (f : Frame) : Node := { n with sent := f :: n.sent }

/-- Write an entry into the journal. -/
def note (n : Node) (e : Event) : Node := { n with journal := e :: n.journal }

/-- Suspend a handler. -/
def park (n : Node) (p : Parked) : Node :=
  { n with parked := n.parked.set n.nextParked p, nextParked := n.nextParked + 1 }

/-- Make a role and register it for its topic. -/
def register (n : Node) (r : Role) : Node × RoleRef :=
  let (h, ρ) := n.roles.alloc r
  ({ n with roles := h, axonRoles := n.axonRoles.set r.topicId ρ }.note (.made ρ), ρ)

end Node

end Axona
