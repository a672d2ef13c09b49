import Mathlib.Data.Finset.Basic
import Axona.Library.OrderedMap
import Axona.Library.Heap
import Axona.Library.Double
import Axona.Library.Election
import Axona.Pubsub.Envelope

/-! # The role of a node in a topic

The per-topic record a relay keeps (`makeRole`): the cache of bodies, the tombstones of killed
ones, the counters a root stamps with, and the state of the merge machine. A merge exchange has
a record at each end, the export of the loser and the pull of the winner; both are objects that
a suspended handler may still hold after they have left the role's tables, so the tables hold
references to them. -/

namespace Axona

open Library

/-- A reference to a role object. -/
abbrev RoleRef := Ref

/-- A reference to an export record. -/
abbrev ExportRef := Ref

/-- A reference to a pull record. -/
abbrev PullRef := Ref

/-! ### What a role holds -/

/-- A cached body. -/
structure Entry where
  /-- The message id. -/
  msgId : MsgId
  /-- The root's stamp. -/
  publishTs : Int
  /-- The body. -/
  json : Json
  /-- The root's dense counter; `none` when it is not a finite number. -/
  seq : Option Int
deriving DecidableEq, Repr

/-- What an entry counts for under the byte cap. -/
def Entry.bytes (e : Entry) : Nat := e.json.length + 80

/-- A generation of a topic: the root that formed it and the epoch it minted. -/
structure Gen where
  /-- The root. -/
  root : NodeId
  /-- Its epoch. -/
  epoch : Int
deriving DecidableEq, Repr

/-- The tombstone of a killed message. -/
structure Tombstone where
  /-- When it expires, by the wall clock. -/
  exp : Int
  /-- The stamp of the kill. -/
  killTs : Int
  /-- Who signed the kill. -/
  signer : Option Text
  /-- The kill's slot of the dense counter. -/
  seq : Option Int
  /-- The obligations that delivered the deletion. -/
  owners : Finset (NodeId × Int)
deriving DecidableEq

/-! ### The merge exchange -/

/-- The time bounds of an exchange, fixed by the offer. -/
structure Timing where
  /-- The version of the rule. -/
  version : Int
  /-- How long the loser's lease runs from the bind. -/
  A : Int
  /-- How far the wall clock may jump meanwhile. -/
  E : Int
deriving DecidableEq, Repr

/-- A place in an export: the header, or the last entry sent. -/
inductive Cursor where
  /-- `'h'`: the header was sent. -/
  | header
  /-- The entry with this stamp and id was the last one sent. -/
  | entry (ts : Int) (id : MsgId)
deriving DecidableEq, Repr

/-- The ids an export or a pull is about. -/
structure Manifest where
  /-- The bodies. -/
  bodies : List MsgId
  /-- The deletions. -/
  dels : List MsgId
deriving DecidableEq, Repr

/-- A deletion in wire form. -/
structure Del where
  /-- The killed message. -/
  msgId : MsgId
  /-- The stamp of the kill; `none` when it is missing. -/
  killTs : Option Int
  /-- Who signed the kill. -/
  signer : Option Text
  /-- The kill's slot of the dense counter. -/
  seq : Option Int
deriving DecidableEq, Repr

/-- What an export was taken from: bodies and deletions, each in the order of their stamps. -/
structure Snapshot where
  /-- The bodies. -/
  bodies : List Entry
  /-- The deletions. -/
  dels : List Del
deriving DecidableEq, Repr

/-- Where an export record stands. -/
inductive ExportState where
  /-- The offer is out. -/
  | offered
  /-- The winner's pull bound it: the snapshot is taken. -/
  | bound
  /-- The loser stepped down. -/
  | completed
deriving DecidableEq, Repr

/-- What a winner answers to an export, or to the offer of one. -/
inductive Disposition where
  /-- Every body is held or covered by a tombstone and every deletion is active. -/
  | full
  /-- Less than that. -/
  | short
  /-- The offered time bounds are not accepted. -/
  | refusedTiming
  /-- The export does not fit. -/
  | refusedCapacity
  /-- The answering node holds no claim. -/
  | notRoot
  /-- The answering node's claim is outranked by the offered one. -/
  | outranked
  /-- The answering node is staging for another loser. -/
  | busy
deriving DecidableEq, Repr

/-- The winner's answer under `corr`: the terminal acknowledgement, or a refusal. -/
structure ReplayAck where
  /-- The topic. -/
  topicId : TopicId
  /-- The exchange. -/
  corr : Corr
  /-- The answering node. -/
  winner : NodeId
  /-- Its epoch. -/
  winnerEpoch : Option Int
  /-- The node whose export it is. -/
  loser : NodeId
  /-- The epoch of that node's claim. -/
  loserEpoch : Option Int
  /-- How many bodies of the manifest the winner accounts for. -/
  retained : Int
  /-- How many deletions of the manifest are active there. -/
  delsActive : Int
  /-- The digest of the manifest as received. -/
  hash : Option Digest
  /-- What the answer says. -/
  disposition : Disposition
deriving DecidableEq, Repr

/-- An export record, at the loser. -/
structure Export where
  /-- The node the claim goes to. -/
  winner : NodeId
  /-- Its epoch, from the offer and then from the bind. -/
  winnerEpoch : Int
  /-- The epoch of this node's claim when the record was made. -/
  loserEpoch : Int
  /-- Where the exchange stands. -/
  state : ExportState
  /-- What was exported, from the bind on. -/
  snapshot : Snapshot
  /-- The ids in it. -/
  manifest : Manifest
  /-- The cursor of the last frame sent. -/
  lastCursorSent : Option Cursor
  /-- When the offer was made, by the wall clock. -/
  offeredAt : Int
  /-- The bind, by the monotonic clock. -/
  tB : Int
  /-- The bind, by the wall clock. -/
  tBWall : Int
  /-- The time bounds. -/
  timing : Timing
  /-- The manifest's digest, once it is computed. -/
  hash : Option Digest
  /-- Did the offer reach anyone? `none` while its route is unresolved. -/
  reached : Option Bool
  /-- The winner said it is an app process. -/
  ephemeral : Bool
  /-- The export is pinned while step 5 waits for a second holder. -/
  deferPinned : Bool
  /-- The full acknowledgement that waits for a second holder. -/
  deferred : Option ReplayAck
deriving DecidableEq, Repr

/-- Where a pull record stands. -/
inductive PullState where
  /-- Frames are coming in. -/
  | pulling
  /-- The terminal acknowledgement is out. -/
  | acked
deriving DecidableEq, Repr

/-- A pull record, at the winner. -/
structure Pull where
  /-- The node that exports. -/
  loser : NodeId
  /-- The epoch of its claim. -/
  loserEpoch : Int
  /-- The cursor of the last frame ingested. -/
  cursor : Option Cursor
  /-- How many frames came in. -/
  framesIn : Nat
  /-- How many of their bodies are held. -/
  held : Nat
  /-- How many bodies they had. -/
  sent : Nat
  /-- When the pull began, by the wall clock. -/
  startedAt : Int
  /-- The time bounds. -/
  timing : Timing
  /-- Where the exchange stands. -/
  state : PullState
  /-- The ids named by the frames so far. -/
  manifest : Manifest
  /-- Was the header admitted? -/
  header : Bool
  /-- When the acknowledgement was sent, by the wall clock. -/
  tS : Int
  /-- The digest acknowledged. -/
  hash : Option Digest
  /-- Was the acknowledgement full? -/
  full : Bool
  /-- What was held when the header was admitted, and pinned then. The source keeps no such list. -/
  baseline : List MsgId := []
deriving DecidableEq, Repr

/-! ### The merge state of a role -/

/-- The gate set by the cut: while it stands unstaged the role commits no write. -/
structure Gate where
  /-- Where writes are forwarded. -/
  winner : NodeId
  /-- The winner's epoch. -/
  winnerEpoch : Int
  /-- The exchange. -/
  corr : Corr
  /-- When the cut was made, by the wall clock. -/
  cutAt : Int
  /-- In a staged round the gate stops no write. -/
  staged : Bool
deriving DecidableEq, Repr

/-- The recorded winner the machine reconciles toward. -/
structure Candidate where
  /-- Its claim. -/
  claim : Claim NodeId
  /-- When it was recorded. -/
  recordedAt : Int
deriving DecidableEq, Repr

/-- The winner a loser stepped down to, and holds toward. -/
structure AcceptedWinner where
  /-- The winner. -/
  id : NodeId
  /-- Its epoch. -/
  epoch : Int
  /-- When the record lapses. -/
  exp : Int
deriving DecidableEq, Repr

/-- What rides on every SUB of a loser that stepped down until the winner closes the round. -/
structure Completing where
  /-- The exchange. -/
  corr : Corr
  /-- The winner. -/
  winner : NodeId
  /-- Its epoch. -/
  winnerEpoch : Int
  /-- The epoch of the claim given up. -/
  loserEpoch : Int
  /-- The manifest's digest. -/
  hash : Option Digest
deriving DecidableEq, Repr

/-- What is left for the winner's own writes during a round. -/
structure Reserve where
  /-- Entries. -/
  entries : Int
  /-- Bytes. -/
  bytes : Int
deriving DecidableEq, Repr

/-- `makeMergeState`: the merge machine's state of a role. A role whose `merge` is still `null`
in the source has this record with nothing set. -/
structure MergeState where
  /-- Minted by step 5, consumed by the flip it is for. -/
  releaseToken : Option Nat := none
  /-- The recorded winner. -/
  candidate : Option Candidate := none
  /-- The cut. -/
  gate : Option Gate := none
  /-- Message ids exempt from eviction and expiry. -/
  pins : Finset MsgId := ∅
  /-- The reserve of a round at the winner. -/
  reserve : Option Reserve := none
  /-- The completion in flight at the loser. -/
  completing : Option Completing := none
  /-- The winner held toward. -/
  acceptedWinner : Option AcceptedWinner := none
  /-- The exchanges that ended, oldest first. -/
  closedCorrs : List Corr := []
deriving DecidableEq

/-- A role that pulls a topic it will root when the round completes. -/
structure Staging where
  /-- The exchange. -/
  corr : Corr
  /-- The incumbent. -/
  loser : NodeId
  /-- The epoch of its claim. -/
  loserEpoch : Int
  /-- Was the role made only to stage? -/
  created : Bool
deriving DecidableEq, Repr

/-! ### The role -/

/-- `makeRole`: what a node keeps for a topic it relays or roots. -/
structure Role where
  /-- The topic. -/
  topicId : TopicId
  /-- When the role was made. -/
  createdAt : Int
  /-- The node is the topic's root. -/
  isRoot : Bool
  /-- The incarnation of the root claim; `0` until one is minted. -/
  epoch : Int := 0
  /-- The bodies, in the order of their arrival. -/
  cache : List Entry := []
  /-- Their ids. -/
  cacheIds : Finset MsgId := ∅
  /-- What they count for under the byte cap. -/
  cacheBytes : Int := 0
  /-- The last time someone wanted the topic. -/
  lastDemandAt : Int := createdAt
  /-- When the termination of a root began. -/
  dismantling : Option Int := none
  /-- How many termination notices went out. -/
  dismantlingSends : Nat := 0
  /-- The generation a backup was appointed to. -/
  standbyGen : Option Gen := none
  /-- The highest stamp emitted or recovered. -/
  lastTs : Int := 0
  /-- The dense counter of messages and kills. -/
  seq : Int := 0
  /-- The tombstones, by the id of the killed message. -/
  tombstones : OrderedMap MsgId Tombstone := ∅
  /-- The exports of this role. -/
  openMerges : OrderedMap Corr ExportRef := ∅
  /-- The pulls into this role. -/
  openPulls : OrderedMap Corr PullRef := ∅
  /-- The merge machine's state. -/
  merge : MergeState := {}
  /-- The cut generation: every cut, retirement and termination moves it. -/
  gen : Int := 0
  /-- The root this role backs up. -/
  backupOf : Option NodeId := none
  /-- The role holds a metric topic, whose newest body alone is kept; `none` until a bound
  descriptor decides. -/
  latestOnly : Option Bool := none
  /-- The role was detached by `_retireRole`. -/
  retired : Bool := false
  /-- The staged pull in progress. -/
  staging : Option Staging := none
  /-- The role was made by the read repair of a subscriber. -/
  readHolder : Bool := false

/-- A freshly made role. -/
def makeRole (topicId : TopicId) (isRoot : Bool) (createdAt : Int) : Role :=
  { topicId, isRoot, createdAt }

instance : Inhabited Role := ⟨makeRole 0 false 0⟩

/-- The tombstone of a message, if it has not expired. -/
def Role.activeTomb (r : Role) (now : Int) (id : MsgId) : Bool :=
  (r.tombstones.get id).any (fun t => now < t.exp)

/-- `_highWater`: the newest stamp held or emitted. -/
def Role.highWater (r : Role) : Int :=
  max r.lastTs ((r.cache.getLast?).elim 0 (·.publishTs))

/-- `_lowWater`: the stamp at the head of the cache. -/
def Role.lowWater (r : Role) : Int := (r.cache.head?).elim 0 (·.publishTs)

end Axona
