import Axona.Dht.Synaptome

/-! # The inserts that wait for a channel

`_addByVitality` and `_evictAndReplace` test the table, wait for `openConnection` to answer, and
then enter the peer. A call that waits is an entry of `calls`; between two of its waits any other
act can come. Peers come and go beside the calls: the gate offers them, and they die. -/

namespace Axona

open Library

/-- What the inserts read of the node. -/
structure InsertConfig where
  node : GateNode
  /-- `VITALITY_FLOOR` -/
  vitalityFloor : ℚ := 1 / 10
  /-- `ANNEAL_LOCAL_SAMPLE` -/
  annealLocalSample : Nat := 8

/-- A call that waits. -/
inductive Call where
  /-- `_addByVitality` at `openConnection`, and what that answered. -/
  | vitality (peer : NodeId) (syn : Synapse) (opened : Option Bool)
  /-- `_evictAndReplace` at `closeConnection`. -/
  | closing (group : Nat)
  /-- `_localCandidate` at its probes. -/
  | probing (group : Nat)
  /-- `_evictAndReplace` at `openConnection`, and what that answered. -/
  | replacing (peer : NodeId) (opened : Option Bool)
deriving DecidableEq

/-- The peer a call opens a channel to. -/
def Call.peer : Call → Option NodeId
  | vitality peer _ _ | replacing peer _ => some peer
  | closing _ | probing _ => none

/-- What `openConnection` answered. -/
def Call.opened : Call → Option Bool
  | vitality _ _ opened | replacing _ opened => opened
  | closing _ | probing _ => none

/-- The table, and the calls that wait. -/
structure Inserts where
  gate : AdmissionGate
  /-- The keys of `incomingSynapses`. -/
  incoming : List NodeId
  calls : OrderedMap Nat Call
  nextCall : Nat

namespace Inserts

variable (c : InsertConfig)

/-- Before the first call. -/
def init (t : Synaptome) : Inserts := ⟨⟨t, ⟨∅, 0⟩⟩, [], ∅, 0⟩

/-- A call begins to wait. -/
def wait (s : Inserts) (call : Call) : Inserts :=
  { s with calls := s.calls.set s.nextCall call, nextCall := s.nextCall + 1 }

/-- A call goes on waiting. -/
def waits (s : Inserts) (k : Nat) (call : Call) : Inserts := { s with calls := s.calls.set k call }

/-- A call ends. -/
def ends (s : Inserts) (k : Nat) : Inserts := { s with calls := s.calls.delete k }

/-- `_addByVitality`, up to its wait. -/
def addByVitality (s : Inserts) (peer : NodeId) (syn : Synapse) : Inserts :=
  if c.node.cap ≤ s.gate.synaptome.size then s else s.wait (.vitality peer syn none)

/-- The synapse its callers make. -/
def candidateSynapse (peer : NodeId) (stratum : Nat) (inertia : ℚ) : Synapse where
  peerId := .big peer
  weight := 1 / 2
  latency := 0
  stratum := stratum
  inertia := some inertia
  addedBy := none

/-- `node.addSynapse` -/
def addSynapse (s : Inserts) (peer : NodeId) (syn : Synapse) : Inserts :=
  { s with gate.synaptome := s.gate.synaptome.set (.big peer) syn }

/-- The median of the weights in the table. -/
def medianWeight (t : Synaptome) : ℚ :=
  let weights := (t.entries.map fun e => e.2.weight).insertionSort (· ≤ ·)
  (weights[weights.length / 2]?).getD c.vitalityFloor

/-- `(measuredLat >= 0) ? measuredLat : 200` -/
def measured (latency : ℚ) : ℚ := if 0 ≤ latency then latency else 200

/-- The candidates of `_localCandidate` among the ids the probes replied. -/
def localCandidates (s : Inserts) (eligible : NodeId → Bool) (group : Nat) (replies : List NodeId) :
    List NodeId :=
  (replies.filter fun id =>
    id != c.node.id && eligible id && !s.gate.synaptome.has (.big id)
      && decide (group * 4 ≤ clz264 c.node.idBits (c.node.dist id))
      && decide (clz264 c.node.idBits (c.node.dist id) ≤ group * 4 + 3)).take
      (max 1 c.annealLocalSample)

/-- What can happen to the table and the calls. -/
inductive Act where
  /-- `_considerCandidate` on a transport that binds no identities. -/
  | candidate (peer : NodeId) (eligible : Bool) (inertia : ℚ)
  /-- `_lookupStep` finds its next hop among the incoming synapses, used often enough. -/
  | promote (peer : NodeId) (latency : ℚ) (stratum : Nat) (inertia : ℚ)
  /-- `_lookupStep` caches its target. -/
  | hopCache (target : NodeId) (inertia : ℚ)
  /-- `_evictAndReplace` of a dead synapse. -/
  | evict (dead : TableKey) (stratum : Nat)
  /-- `closeConnection` has ended. -/
  | closed (k : Nat)
  /-- The probes were answered, and one of the candidates is picked. -/
  | probed (k : Nat) (eligible : NodeId → Bool) (replies : List NodeId) (pick : Nat)
  /-- `openConnection` answers. -/
  | answered (k : Nat) (opened : Bool)
  /-- The call goes on; the pools may refuse its peer (`_legacyInsertAllowed`). -/
  | resume (k : Nat) (allowed : Bool) (latency : ℚ)
  /-- `addIncomingSynapse`: another node has a synapse to this one. -/
  | incoming (peer : NodeId)
  /-- The gate is offered a bound peer. -/
  | offer (w : Surroundings) (now : Int) (sponsor : NodeId)
  /-- A peer died or left. -/
  | gone (key : TableKey)

/-- `openConnection` answers a call. -/
def answer (s : Inserts) (k : Nat) (opened : Bool) : Inserts :=
  match s.calls.get k with
  | some (.vitality peer syn none) => s.waits k (.vitality peer syn (some opened))
  | some (.replacing peer none) => s.waits k (.replacing peer (some opened))
  | _ => s

/-- A call goes on after its `openConnection` was answered. -/
def resume (s : Inserts) (k : Nat) (allowed : Bool) (latency : ℚ) : Inserts :=
  match s.calls.get k with
  | some (.vitality peer syn (some opened)) =>
    if opened && allowed then
      (s.ends k).addSynapse peer { syn with latency := measured latency }
    else s.ends k
  | some (.replacing peer (some opened)) =>
    if opened && allowed then
      (s.ends k).addSynapse peer
        { peerId := .big peer
          weight := medianWeight c s.gate.synaptome
          latency := measured latency
          stratum := clz264 c.node.idBits (c.node.dist peer)
          inertia := some 0
          addedBy := none }
    else s.ends k
  | _ => s

/-- One act. -/
def step (s : Inserts) : Act → Inserts
  | .candidate peer eligible inertia =>
    if peer = c.node.id ∨ s.gate.synaptome.has (.big peer) = true then s
    else if eligible then
      s.addByVitality c peer (candidateSynapse peer (clz (c.node.dist peer)) inertia)
    else s
  | .promote peer latency stratum inertia =>
    if peer ∈ s.incoming ∧ s.gate.synaptome.has (.big peer) = false then
      s.addByVitality c peer { candidateSynapse peer stratum inertia with latency := latency }
    else s
  | .hopCache target inertia =>
    if c.node.id = target ∨ s.gate.synaptome.has (.big target) = true then s
    else s.addByVitality c target
      (candidateSynapse target (clz264 c.node.idBits (c.node.dist target)) inertia)
  | .evict dead stratum =>
    { s with gate.synaptome := s.gate.synaptome.delete dead }.wait
      (.closing (min (c.node.strataGroups - 1) (stratum >>> 2)))
  | .closed k =>
    match s.calls.get k with
    | some (.closing group) =>
      if s.gate.synaptome.size = 0 then s.ends k else s.waits k (.probing group)
    | _ => s
  | .probed k eligible replies pick =>
    match s.calls.get k with
    | some (.probing group) =>
      match (s.localCandidates c eligible group replies)[pick]? with
      | none => s.ends k
      | some id =>
        if s.gate.synaptome.has (.big id) then s.ends k else s.waits k (.replacing id none)
    | _ => s
  | .answered k opened => s.answer k opened
  | .resume k allowed latency => s.resume c k allowed latency
  | .incoming peer =>
    if peer = c.node.id ∨ s.gate.synaptome.has (.big peer) = true ∨ peer ∈ s.incoming then s
    else { s with incoming := peer :: s.incoming }
  | .offer w now sponsor => { s with gate := s.gate.offer c.node w now sponsor }
  | .gone key => { s with gate.synaptome := s.gate.synaptome.delete key }

end Inserts

end Axona
