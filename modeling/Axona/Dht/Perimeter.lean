import Axona.Dht.Synaptome
import Axona.Transport.MeshDegree

/-! # The elective closes

Who closes a channel of a bound peer without being forced to: the gate when it swaps a peer or
refuses one (`_seedSynaptomeWithSponsor`, at once, after a grace window, or when too many closes are
pending), and the mesh when it holds its degree or makes room. What a node owes to its peers is an
input of every act. -/

namespace Axona

open Library

/-- The deferral of refusal closes, as the constructor leaves it: without a bound there is none. -/
structure GraceConfig where
  closeGraceMs : Nat
  graceMaxPending : Nat
  off : graceMaxPending = 0 → closeGraceMs = 0

/-- The normalisation of the options; `none` stands for a value that is not a number of the kind
asked for. -/
def GraceConfig.normalize (closeGraceMs graceMaxPending : Option Int) : GraceConfig :=
  let max := (graceMaxPending.getD 0).toNat
  { closeGraceMs := if max = 0 then 0 else (closeGraceMs.getD 0).toNat
    graceMaxPending := max
    off := fun h => if_pos h }

/-- How a node closes channels. -/
structure PerimeterConfig where
  node : GateNode
  grace : GraceConfig
  degree : DegreeConfig
  /-- `node.maxConnections`, `none` where it is not finite. -/
  maxConnections : Option Nat

/-- The table, and the refusal closes that are pending. -/
structure Perimeter where
  gate : AdmissionGate
  gracePending : OrderedMap NodeId Unit

/-- A close that nothing forced. -/
inductive Close where
  /-- The victim of a swap. -/
  | swap (victimKey : TableKey) (sponsor : NodeId)
  /-- A peer the gate refused. -/
  | grace (sponsor : NodeId)
  /-- A channel the mesh retired. -/
  | mesh (id : MeshId)
deriving DecidableEq

namespace Perimeter

/-- The peer a swap takes from the table. -/
def swapped (c : GateNode) (t : Synaptome) (sponsor : NodeId) (d : Admission) : List Close :=
  match d with
  | .swap victimKey _ => if (t.gateCommit c sponsor d).isSome then [.swap victimKey sponsor] else []
  | _ => []

/-- `doClose`: the duty gate is asked first. -/
def doClose (w : Surroundings) (sponsor : NodeId) : List Close :=
  if w.duty sponsor then [] else [.grace sponsor]

/-- The overflow: the oldest pending closes that no duty blocks are made, until there are less than
`graceMaxPending`. -/
def overflow (w : Surroundings) (max : Nat) :
    Nat → OrderedMap NodeId Unit → OrderedMap NodeId Unit × List Close
  | 0, pending => (pending, [])
  | n + 1, pending =>
    if pending.size < max then (pending, [])
    else match pending.keys.find? fun s => !w.duty s with
      | none => (pending, [])
      | some picked =>
        let r := overflow w max n (pending.delete picked)
        (r.1, .grace picked :: r.2)

variable (c : PerimeterConfig)

/-- `headroom`: one more channel may be kept open. -/
def headroom (s : Perimeter) (incoming : Nat) : Bool :=
  c.maxConnections.all fun cap =>
    decide (s.gate.synaptome.size + incoming + s.gracePending.size + 1 ≤ cap)

/-- A refusal: the close is made, deferred, or deferred already. -/
def refused (s : Perimeter) (w : Surroundings) (incoming : Nat) (sponsor : NodeId) :
    Perimeter × List Close :=
  if c.grace.closeGraceMs ≠ 0 ∧ s.gracePending.has sponsor = true then (s, [])
  else if c.grace.closeGraceMs ≠ 0 ∧ s.headroom c incoming = true then
    let r := overflow w c.grace.graceMaxPending s.gracePending.size s.gracePending
    ({ s with gracePending := r.1.set sponsor () }, r.2)
  else (s, doClose w sponsor)

/-- `_seedSynaptomeWithSponsor` with the gate armed, where the channel of the sponsor is not class I
of a two-pool node. -/
def seed (s : Perimeter) (w : Surroundings) (now : Int) (incoming : Nat) (sponsor : NodeId) :
    Perimeter × List Close :=
  if s.gate.synaptome.holds sponsor then (s, [])
  else
    let r := s.gate.synaptome.gateDecision c.node w s.gate.lane now sponsor
    let s' := { s with gate := s.gate.offer c.node w now sponsor }
    match r.1 with
    | .refuse _ => refused c s' w incoming sponsor
    | d => (s', swapped c.node s.gate.synaptome sponsor d)

/-- `_promote`: the gate decides. Where there is room, the ledger must take the class first; a
refused peer keeps its channel. -/
def promote (s : Perimeter) (w : Surroundings) (now : Int) (reclassed : Bool) (sponsor : NodeId) :
    Perimeter × List Close :=
  if s.gate.synaptome.holds sponsor then (s, [])
  else
    let r := s.gate.synaptome.gateDecision c.node w s.gate.lane now sponsor
    let s' := { s with gate := s.gate.offer c.node w now sponsor }
    match r.1 with
    | .room | .lane _ _ => if reclassed then (s', []) else ({ s with gate.lane := r.2 }, [])
    | d => (s', swapped c.node s.gate.synaptome sponsor d)

/-- The timer of a pending close fires. -/
def graceFires (s : Perimeter) (w : Surroundings) (sponsor : NodeId) : Perimeter × List Close :=
  if s.gracePending.has sponsor then
    let pending := s.gracePending.delete sponsor
    if s.gate.synaptome.has (.big sponsor) then ({ s with gracePending := pending }, [])
    else match doClose w sponsor with
      | [] => ({ s with gracePending := pending.set sponsor () }, [])
      | closes => ({ s with gracePending := pending }, closes)
  else (s, [])

/-- The close of the channel the mesh selects. -/
def meshClose (id : Option MeshId) : List Close := (id.map Close.mesh).toList

/-- What can happen to the table and the channels. -/
inductive Act where
  /-- A bound peer is offered to the gate. -/
  | seed (w : Surroundings) (now : Int) (incoming : Nat) (sponsor : NodeId)
  | promote (w : Surroundings) (now : Int) (reclassed : Bool) (sponsor : NodeId)
  | graceFires (w : Surroundings) (sponsor : NodeId)
  /-- A peer is entered on another path. -/
  | insert (x : Synapse) (sponsor : NodeId)
  /-- A peer died or left, or its entry is being replaced. -/
  | gone (id : NodeId)
  /-- The node stops: every pending close is made. -/
  | clearGrace
  | enforceDegree (w : Surroundings) (promoting : List NodeId) (p : DegreePass)
  | makeRoom (w : Surroundings) (promoting : List NodeId) (p : DegreePass) (newcomerId : MeshId)
    (excludeIds : List MeshId)

/-- One act, and the closes it makes that nothing forced. -/
def act (s : Perimeter) : Act → Perimeter × List Close
  | .seed w now incoming sponsor => s.seed c w now incoming sponsor
  | .promote w now reclassed sponsor => s.promote c w now reclassed sponsor
  | .graceFires w sponsor => s.graceFires w sponsor
  | .insert x sponsor =>
    ({ s with gate.synaptome := s.gate.synaptome.set (.big sponsor) x }, [])
  | .gone id => ({ s with gate.synaptome := s.gate.synaptome.delete (.big id) }, [])
  | .clearGrace => ({ s with gracePending := ∅ }, [])
  | .enforceDegree w promoting p =>
    (s, meshClose (p.enforceDegree c.degree
      (s.gate.synaptome.protectedPeers c.node w promoting)))
  | .makeRoom w promoting p newcomerId excludeIds =>
    (s, meshClose (p.retireForNewcomer c.degree
      (s.gate.synaptome.protectedPeers c.node w promoting) newcomerId excludeIds))

/-- The state after an act. -/
def step (s : Perimeter) (a : Act) : Perimeter := (s.act c a).1

end Perimeter

end Axona
