import Axona.Library.Ranking
import Axona.Dht.AttemptGuard

/-! # The routing table and its admission gate

The synaptome of a node, the reasons it holds its peers for (`_retentionMap`), and the gate that
admits a peer in the place of another (`_gateDecision`, `_gateCommit`). A key of the table is an id
as a number, or the text that writes it, from an older session; a text is given by the id it writes
in lower case. What the gate reads of the node around it is its `Surroundings`. -/

namespace Axona

open Library

/-- A key of the table, or the `peerId` of an entry. -/
inductive TableKey where
  /-- The id itself. -/
  | big (id : NodeId)
  /-- `toHex` of the id. -/
  | hex (id : NodeId)
deriving DecidableEq, Repr

namespace TableKey

/-- The id a key is read as, `_tableEntries`'s `big`. -/
def id : TableKey → NodeId
  | big id => id
  | hex id => id

/-- Is the key a text? -/
def isText : TableKey → Bool
  | big _ => false
  | hex _ => true

@[simp] theorem id_big (id : NodeId) : (big id).id = id := rfl
@[simp] theorem id_hex (id : NodeId) : (hex id).id = id := rfl

end TableKey

/-- An entry of the table. A field that an entry read from a snapshot lacks is optional. -/
structure Synapse where
  peerId : TableKey
  weight : ℚ
  latency : ℚ
  stratum : Nat
  inertia : Option ℚ
  addedBy : Option Text
deriving DecidableEq

/-- `node.synaptome` -/
abbrev Synaptome := OrderedMap TableKey Synapse

/-- What the gate is constructed with. -/
structure GateConfig where
  kNear : Nat := 5
  sparseFloor : Nat := 2
  /-- The places at the end of the table that are kept for newcomers. -/
  kJoin : Nat := 0
  laneCooldownMs : Int := 1000
  laneWindowMs : Int := 60000

/-- A node as its gate sees it. -/
structure GateNode where
  /-- The node's own id. -/
  id : NodeId
  gate : GateConfig
  /-- `_capM()` -/
  cap : Nat
  /-- `STRATA_GROUPS` -/
  strataGroups : ℕ+ := 4
  /-- `ID_BITS` -/
  idBits : Nat := 264

/-- What the gate reads around the table. -/
structure Surroundings where
  /-- The transport says the channel of the peer is stale. -/
  stale : NodeId → Bool
  /-- `bridgeNodeIdBig` -/
  bridge : Option NodeId
  /-- `obligationsOf` names a duty to the peer, or cannot say. -/
  duty : NodeId → Bool
  /-- `_vitality`, `none` where it is not a number. -/
  vitality : Synapse → Option ℚ

/-! ### Distances -/

/-- `Math.clz32` -/
def clz32 (n : Nat) : Nat := if n = 0 then 32 else 31 - n.log2

/-- `clz264` -/
def clz264 (idBits n : Nat) : Nat := if n = 0 then idBits else idBits - 1 - n.log2

/-- `_clz`: the leading zeros of the lower 64 bits. -/
def clz (xor : Nat) : Nat :=
  if xor = 0 then 64
  else if (xor >>> 32) % 2 ^ 32 ≠ 0 then clz32 ((xor >>> 32) % 2 ^ 32)
  else 32 + clz32 (xor % 2 ^ 32)

namespace GateNode

variable (c : GateNode)

/-- How far a peer is. -/
def dist (p : NodeId) : Nat := c.id ^^^ p

/-- `groupOf`: the band of a peer. -/
def groupOf (p : NodeId) : Nat := min (c.strataGroups - 1) (clz264 c.idBits (c.dist p) >>> 2)

end GateNode

namespace Synaptome

/-- The peers of the table. -/
def peers (t : Synaptome) : List NodeId := t.entries.map fun e => e.1.id

/-- `syn.has(sponsor) || syn.has(toHex(sponsor))` -/
def holds (t : Synaptome) (sponsor : NodeId) : Bool := t.has (.big sponsor) || t.has (.hex sponsor)

/-- `counts.get(g)` -/
def count (t : Synaptome) (c : GateNode) (g : Nat) : Nat :=
  t.entries.countP fun e => c.groupOf e.1.id == g

end Synaptome

/-! ### The reasons -/

/-- Why a peer is held. -/
structure Reasons where
  near : Bool
  band : Bool
  service : Bool
  duty : Bool
deriving DecidableEq, Repr

/-- `any` -/
def Reasons.any (r : Reasons) : Bool := r.near || r.band || r.service || r.duty

/-- The answer of `_retentionMap`. -/
structure Retention where
  map : List (TableKey × Reasons)
  /-- How far the `kNear`-th nearest peer is that is held and not stale. -/
  nearCeil : Option Nat

namespace Synaptome

variable (c : GateNode) (w : Surroundings)

/-- A key and how far its peer is. A candidate has no key. -/
abbrev Ranked := Option TableKey × Nat

/-- The peers that are held and not stale, each with its distance. -/
def held (t : Synaptome) : List Ranked :=
  (t.entries.filter fun e => !w.stale e.1.id).map fun e => (some e.1, c.dist e.1.id)

/-- The peers that are ranked: those held, and the candidate. -/
def ranked (t : Synaptome) (extra : Option NodeId) : List Ranked :=
  t.held c w ++ extra.toList.map fun p => (none, c.dist p)

/-- `nearKeys` -/
def nearKeys (t : Synaptome) (extra : Option NodeId) : List TableKey :=
  ((sortBy Prod.snd (t.ranked c w extra)).take c.gate.kNear).filterMap Prod.fst

/-- `nearCeil` -/
def nearCeil (t : Synaptome) : Option Nat :=
  if c.gate.kNear ≤ (t.held c w).length then
    ((sortBy Prod.snd (t.held c w))[c.gate.kNear - 1]?).map Prod.snd
  else none

/-- The reasons of one entry. -/
def reasons (t : Synaptome) (extra : Option NodeId) (key : TableKey) : Reasons where
  near := (t.nearKeys c w extra).contains key
  band := decide (t.count c (c.groupOf key.id) ≤ c.gate.sparseFloor)
  service := w.bridge.any (· == key.id)
  duty := w.duty key.id

/-- `_retentionMap`. With `kNear` at zero it reads the distance of the peer before the first one,
and throws. -/
def retentionMap (t : Synaptome) (extra : Option NodeId) : Option Retention :=
  if c.gate.kNear = 0 then none
  else some ⟨t.entries.map fun e => (e.1, t.reasons c w extra e.1), t.nearCeil c w⟩

/-- `protectedPeers`: the peers held for any reason, and those that are being promoted; `none` for
`null`. -/
def protectedPeers (t : Synaptome) (promoting : List NodeId) : Option (List NodeId) :=
  (t.retentionMap c w none).map fun R =>
    (R.map.filter fun e => e.2.any).map (fun e => e.1.id) ++ promoting

end Synaptome

/-! ### The gate -/

/-- Why the gate refuses. -/
inductive Refusal where
  | laneSeen
  | laneCooldown
  | noSwap
  | noSwapNear
  | duty
deriving DecidableEq, Repr

/-- What the gate decides. -/
inductive Admission where
  | refuse (why : Refusal)
  /-- `gate-admit` -/
  | room
  /-- `gate-lane` -/
  | lane (laneKey : IdSuffix) (t : Int)
  /-- `gate-swap` -/
  | swap (victimKey : TableKey) (near : Bool)
  /-- A `TypeError`. -/
  | throws
deriving DecidableEq, Repr

/-- The join lane. -/
structure Lane where
  laneSeen : OrderedMap IdSuffix Int
  laneLastAt : Int

/-- A candidate victim, with its vitality and the count of its band. -/
structure Victim where
  key : TableKey
  vitality : Option ℚ
  count : Nat

/-- `v < victimVit`, which is false where one of the two is not a number. -/
def lowerVitality : Option ℚ → Option ℚ → Bool
  | some v, some w => decide (v < w)
  | _, _ => false

namespace Synaptome

variable (c : GateNode) (w : Surroundings)

/-- `_gateDecision` below the cap, and the lane after it. -/
def laneDecision (t : Synaptome) (l : Lane) (now : Int) (sponsor : NodeId) : Admission × Lane :=
  if 0 < c.gate.kJoin ∧ c.cap ≤ t.size + c.gate.kJoin then
    let l := { l with
      laneSeen := l.laneSeen.filter fun _ seenAt => decide (now - seenAt < c.gate.laneWindowMs) }
    if (l.laneSeen.get (identitySuffix sponsor)).any fun seenAt =>
        decide (now - seenAt < c.gate.laneWindowMs) then
      (.refuse .laneSeen, l)
    else if now - l.laneLastAt < c.gate.laneCooldownMs then (.refuse .laneCooldown, l)
    else (.lane (identitySuffix sponsor) now, l)
  else (.room, l)

/-- Is the sponsor strictly closer than the `kNear`-th nearest peer that is held? -/
def nearImprove (t : Synaptome) (sponsor : NodeId) : Bool :=
  (t.nearCeil c w).any fun ceil => decide (c.dist sponsor < ceil)

/-- `protectedKeys`: the entries held for another reason than a duty, with the sponsor ranked in. -/
def isProtected (t : Synaptome) (sponsor : NodeId) (key : TableKey) : Bool :=
  let r := t.reasons c w (some sponsor) key
  r.near || r.band || r.service

/-- May the entry be the victim of a swap? -/
def evictable (t : Synaptome) (sponsor : NodeId) (key : TableKey) : Bool :=
  !t.isProtected c w sponsor key
    && (t.nearImprove c w sponsor
      || decide (t.count c (c.groupOf sponsor) + 2 ≤ t.count c (c.groupOf key.id)))

/-- The victim after one more entry: of the densest band, and of the lowest vitality there. -/
def weaker (best : Option Victim) (v : Victim) : Option Victim :=
  match best with
  | none => some v
  | some b =>
    if b.count < v.count ∨ (v.count = b.count ∧ lowerVitality v.vitality b.vitality = true)
    then some v else some b

/-- The victim of a swap. -/
def victim (t : Synaptome) (sponsor : NodeId) : Option Victim :=
  (t.entries.filter fun e => t.evictable c w sponsor e.1).foldl
    (fun best e => weaker best ⟨e.1, w.vitality e.2, t.count c (c.groupOf e.1.id)⟩) none

/-- `_gateDecision` at the cap. Reporting a swap that is blocked by a duty throws where the victim's
key is a text. -/
def swapDecision (t : Synaptome) (sponsor : NodeId) : Admission :=
  if c.gate.kNear = 0 then .throws
  else match t.victim c w sponsor with
    | none => .refuse (if t.nearImprove c w sponsor then .noSwapNear else .noSwap)
    | some v =>
      if w.duty v.key.id then if v.key.isText then .throws else .refuse .duty
      else .swap v.key (t.nearImprove c w sponsor)

/-- `_gateDecision` -/
def gateDecision (t : Synaptome) (l : Lane) (now : Int) (sponsor : NodeId) : Admission × Lane :=
  if t.size < c.cap then t.laneDecision c l now sponsor
  else (t.swapDecision c w sponsor, l)

/-- `_seedInsert` -/
def seedInsert (t : Synaptome) (sponsor : NodeId) : Synaptome :=
  t.set (.big sponsor)
    { peerId := .big sponsor
      weight := 1 / 2
      latency := 50
      stratum := clz (c.dist sponsor)
      inertia := some 0
      addedBy := none }

/-- `_gateCommit`: the table, `none` where it throws. Reporting a near swap throws where the
victim's key is a text. -/
def gateCommit (t : Synaptome) (sponsor : NodeId) : Admission → Option Synaptome
  | .refuse _ => some t
  | .room | .lane _ _ => some (t.seedInsert c sponsor)
  | .swap victimKey near =>
    if near && victimKey.isText then none
    else some (Synaptome.seedInsert c (t.delete victimKey) sponsor)
  | .throws => none

end Synaptome

/-- The lane after a decision is committed. -/
def Lane.commit (l : Lane) : Admission → Lane
  | .lane laneKey t => { laneSeen := l.laneSeen.set laneKey t, laneLastAt := t }
  | _ => l

/-- The table and the lane. -/
structure AdmissionGate where
  synaptome : Synaptome
  lane : Lane

namespace AdmissionGate

/-- `_admitOrImprove`, behind the test `_seedSynaptomeWithSponsor` makes. A call that throws leaves
the table as it was. -/
def offer (c : GateNode) (g : AdmissionGate) (w : Surroundings) (now : Int) (sponsor : NodeId) :
    AdmissionGate :=
  if g.synaptome.holds sponsor then g
  else
    let r := g.synaptome.gateDecision c w g.lane now sponsor
    { synaptome := (g.synaptome.gateCommit c sponsor r.1).getD g.synaptome
      lane := r.2.commit r.1 }

end AdmissionGate

end Axona
