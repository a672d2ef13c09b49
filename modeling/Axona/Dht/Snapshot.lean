import Axona.Dht.Synaptome
import Axona.Transport.ChannelLedger

/-! # Snapshots of the table

`snapshot` writes the table as a list of records, each with its id in hex, and `fromSnapshot` and
`_loadFromPersist` enter the records under that text. The readers of the table below are given with
what they do at a key that is a text: some pass over it, and `^` throws at it. -/

namespace Axona

open Library

/-- A record of a snapshot; its id is written in hex. -/
structure SynapseRecord where
  peerId : NodeId
  weight : ℚ
  latency : ℚ
  stratum : Nat
  addedBy : Option Text
deriving DecidableEq

/-- The record of an entry. -/
def SynapseRecord.ofEntry (e : TableKey × Synapse) : SynapseRecord where
  peerId := e.1.id
  weight := e.2.weight
  latency := e.2.latency
  stratum := e.2.stratum
  addedBy := e.2.addedBy

/-- The entry that is set for a record. -/
def SynapseRecord.entry (r : SynapseRecord) (source : Text) : Synapse where
  peerId := .hex r.peerId
  weight := r.weight
  latency := r.latency
  stratum := r.stratum
  inertia := none
  addedBy := some (r.addedBy.getD source)

namespace Synaptome

/-- The table as `snapshot` writes it. -/
def snapshot (t : Synaptome) : List SynapseRecord := t.entries.map .ofEntry

/-- The loop over the records. -/
def enterRecords (source : Text) (t : Synaptome) (rs : List SynapseRecord) : Synaptome :=
  rs.foldl (fun t r => OrderedMap.set t (.hex r.peerId) (r.entry source)) t

/-- The table of the peer `fromSnapshot` makes. -/
def fromSnapshot (rs : List SynapseRecord) : Synaptome := enterRecords "snapshot".toList ∅ rs

/-- `_loadFromPersist`, from the records of the last flush. -/
def loadFromPersist (t : Synaptome) (rs : List SynapseRecord) : Synaptome :=
  if t.size = 0 then enterRecords "persist".toList t rs else t

end Synaptome

/-! ### Readers -/

/-- `^` of a `peerId` and an id, which throws at a text. -/
def TableKey.xor : TableKey → NodeId → Option Nat
  | big id, target => some (id ^^^ target)
  | hex _, _ => none

/-- What the scan of a lookup reads beside the table. -/
structure ScanView where
  self : NodeId
  queried : NodeId → Bool
  dead : NodeId → Bool

/-- What the selectors read beside the table. -/
structure UsableView where
  self : NodeId
  exclude : NodeId → Bool
  dead : NodeId → Bool
  connected : NodeId → Bool
  stale : NodeId → Bool
  armed : Bool
  bound : List NodeId
  classOf : NodeId → Option Cls

namespace UsableView

/-- `usable` -/
def usable (v : UsableView) (id : NodeId) (filterStale : Bool) (seen : List NodeId) : Bool :=
  id != v.self && !seen.contains id && !v.exclude id && !v.dead id && v.connected id
    && !(filterStale && v.stale id)

end UsableView

namespace Synaptome

/-- One entry of the scan: a dead synapse, a candidate, or neither. -/
def scanEntry (v : ScanView) (target : NodeId) (acc : List NodeId × List NodeId)
    (e : TableKey × Synapse) : Option (List NodeId × List NodeId) := do
  let d ← e.2.peerId.xor target
  if v.self ^^^ target ≤ d ∨ v.queried e.2.peerId.id = true then return acc
  if v.dead e.2.peerId.id then return (acc.1 ++ [e.2.peerId.id], acc.2)
  return (acc.1, acc.2 ++ [e.2.peerId.id])

/-- The scan of the table in `_lookupStep`: its dead synapses and its candidates, `none` where it
throws. -/
def lookupScan (t : Synaptome) (v : ScanView) (target : NodeId) :
    Option (List NodeId × List NodeId) :=
  t.entries.foldlM (scanEntry v target) ([], [])

/-- One entry of `_usablePeers`. -/
def usableEntry (v : UsableView) (acc : List NodeId × List (NodeId × Cls))
    (e : TableKey × Synapse) : List NodeId × List (NodeId × Cls) :=
  match e.2.peerId with
  | .hex _ => acc
  | .big id =>
    (id :: acc.1, if v.usable id v.armed acc.1 then acc.2 ++ [(id, .M)] else acc.2)

/-- One bound peer of `_usablePeers`. -/
def usableBound (t : Synaptome) (v : UsableView) (acc : List NodeId × List (NodeId × Cls))
    (id : NodeId) : List NodeId × List (NodeId × Cls) :=
  if acc.1.contains id || t.has (.big id) || v.classOf id != some .I then acc
  else (id :: acc.1, if v.usable id true acc.1 then acc.2 ++ [(id, .I)] else acc.2)

/-- `_usablePeers` -/
def usablePeers (t : Synaptome) (v : UsableView) : List (NodeId × Cls) :=
  (v.bound.foldl (t.usableBound v) (t.entries.foldl (usableEntry v) ([], []))).2

/-- The peers of the table whose `peerId` is a `bigint`. -/
def bigPeers (t : Synaptome) : List NodeId :=
  t.entries.filterMap fun e =>
    match e.2.peerId with
    | .big id => some id
    | .hex _ => none

/-- `distances` before the first round of `findKClosest`. -/
def seedPool (t : Synaptome) (self : NodeId) (incoming : List NodeId) : List NodeId :=
  (self :: t.bigPeers ++ incoming).foldl
    (fun pool id => if pool.contains id then pool else pool ++ [id]) []

end Synaptome

end Axona
