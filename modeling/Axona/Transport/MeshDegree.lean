import Axona.Transport.ChannelLedger
import Mathlib.Data.List.Sort

/-! # The bounded degree of the mesh

The selection of the one channel a pass retires (`mesh_degree.js`), and the two passes that ask for
one (`mesh.js`): the enforcement of the degree cap, and the room made for a newcomer. A pass retires
nothing that it cannot say is unprotected. -/

namespace Axona

open Library

/-- A peer of the mesh, with what a pass reads of it. -/
structure DegreePeer where
  /-- `nodeIdFor`: the node its handshake bound. -/
  nodeId : Option NodeId
  /-- When its channel opened, zero if it never did. -/
  openedAt : Int
  provisional : Bool
  rttMs : Option Int
  cls : Option Cls
deriving DecidableEq

/-- The mesh's peers, under their handles. -/
abbrev MeshPeers := OrderedMap MeshId DegreePeer

/-- What the selection reads of a peer. -/
structure MeshCandidate where
  id : MeshId
  region : Option Nat
  openedAt : Int
  rttMs : Option Int
  inCooldown : Bool
  isProtected : Bool
  cls : Option Cls
deriving DecidableEq

/-- How many candidates are of a region. -/
def regionCount (cs : List MeshCandidate) (r : Option Nat) : Nat :=
  cs.countP fun c => c.region.isSome && c.region == r

/-- May the candidate be retired? -/
def MeshCandidate.eligible (now minUptimeMs : Int) (c : MeshCandidate) : Bool :=
  decide (0 < c.openedAt) && c.region.isSome && !c.inCooldown && !c.isProtected
    && decide (minUptimeMs ≤ now - c.openedAt)

/-- `clsRank` -/
def clsRank : Option Cls → Nat
  | some .I => 0
  | none => 1
  | some .M => 2

/-- Is the first candidate retired rather than the second? By class where there is one, then the
region with more peers, the older channel, and the greater round-trip. -/
def retiresFirst (anyCls : Bool) (count : Option Nat → Nat) (a b : MeshCandidate) : Bool :=
  if anyCls && decide (clsRank a.cls ≠ clsRank b.cls) then decide (clsRank a.cls < clsRank b.cls)
  else if count a.region ≠ count b.region then decide (count b.region < count a.region)
  else if a.openedAt ≠ b.openedAt then decide (a.openedAt < b.openedAt)
  else decide (b.rttMs.getD (-1) ≤ a.rttMs.getD (-1))

/-- `selectMeshRetire` -/
def selectMeshRetire (cs : List MeshCandidate) (now minUptimeMs : Int) : Option MeshCandidate :=
  let eligible := cs.filter (MeshCandidate.eligible now minUptimeMs)
  let anyCls := eligible.any fun c => c.cls.isSome
  (eligible.insertionSort fun a b => retiresFirst anyCls (regionCount cs) a b = true).find?
    fun c => decide (1 < regionCount cs c.region)

/-- The region of a node, the first two digits of its id. -/
def regionOf (id : NodeId) : Nat := id >>> 256

/-- The resolver of `makeProtectionResolver`, with the set it reads in a pass: `none` where there is
none. -/
def resolvesProtected (set : Option (List NodeId)) (nodeId : Option NodeId) : Bool :=
  match nodeId with
  | none => true
  | some nid => set.elim true fun ids => ids.contains nid

/-- How the degree is bounded. -/
structure DegreeConfig where
  maxPeers : Nat
  slack : Nat
  intervalMs : Int
  minUptimeMs : Int

/-- What a pass reads of the manager. -/
structure DegreePass where
  peers : MeshPeers
  /-- The handles in `_retiredRecently`. -/
  retiredRecently : List MeshId
  lastRetireAt : Int
  now : Int

namespace DegreePass

variable (p : DegreePass)

/-- The peers a pass counts: open and not provisional. -/
def opened : List (MeshId × DegreePeer) :=
  p.peers.entries.filter fun e => decide (0 < e.2.openedAt) && !e.2.provisional

/-- The descriptor of a peer. -/
def candidate (set : Option (List NodeId)) (e : MeshId × DegreePeer) : MeshCandidate where
  id := e.1
  region := e.2.nodeId.map regionOf
  openedAt := e.2.openedAt
  rttMs := e.2.rttMs
  inCooldown := p.retiredRecently.contains e.1
  isProtected := resolvesProtected set e.2.nodeId
  cls := e.2.cls

/-- `_enforceDegree`: the handle it retires. -/
def enforceDegree (cfg : DegreeConfig) (set : Option (List NodeId)) : Option MeshId :=
  if cfg.maxPeers = 0 then none
  else if p.now - p.lastRetireAt < cfg.intervalMs then none
  else if p.opened.length ≤ cfg.maxPeers + cfg.slack then none
  else (selectMeshRetire (p.opened.map (p.candidate set)) p.now cfg.minUptimeMs).map (·.id)

/-- `retireForNewcomer`: the handle it retires. -/
def retireForNewcomer (cfg : DegreeConfig) (set : Option (List NodeId)) (newcomerId : MeshId)
    (excludeIds : List MeshId) : Option MeshId :=
  let opened := p.opened.filter fun e => e.1 != newcomerId && !excludeIds.contains e.1
  (selectMeshRetire (opened.map (p.candidate set)) p.now cfg.minUptimeMs).map (·.id)

end DegreePass

end Axona
