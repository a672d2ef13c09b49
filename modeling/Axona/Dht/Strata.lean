import Axona.Dht.Inserts
import Axona.Dht.Snapshot
import Axona.Library.LeadingZeros

/-! # Strata

Every way a synapse is made for the table, with the stratum it is given. `_seedInsert` and
`_considerCandidate` count with `_clz`; the hop cache and `_evictAndReplace` with `clz264`; a
promotion takes over what the incoming synapse was registered with. The stratum is read when a dead
synapse is replaced: its group says among which peers the next one is sought. -/

namespace Axona

open Library

/-- An entry of `incomingSynapses`. -/
structure IncomingSynapse where
  latency : ℚ
  stratum : Nat
deriving DecidableEq

/-- A node that inserts, with or without the admission gate. -/
structure StrataConfig extends InsertConfig where
  /-- `_gateCfg` is set. -/
  gated : Bool

/-- The table with the calls that wait, the incoming synapses, and the dead synapses that lookups
have collected and not yet evicted. -/
structure Strata where
  inserts : Inserts
  incomingSynapses : OrderedMap NodeId IncomingSynapse
  deadSynapses : List Synapse

/-- What can happen. -/
inductive StrataAct where
  /-- `_seedSynaptomeWithSponsor`, for a sponsor, a bound peer or one that is promoted between the
  pools. The pools may refuse it. -/
  | seed (w : Surroundings) (now : Int) (sponsor : NodeId) (allowed : Bool)
  /-- `_considerCandidate` on a transport that binds no identities. -/
  | candidate (peer : NodeId) (eligible : Bool) (inertia : ℚ)
  /-- `addIncomingSynapse`: the node that made the synapse says its stratum. -/
  | incoming (peer : NodeId) (latency : ℚ) (stratum : Nat)
  /-- `_lookupStep` finds its next hop among the incoming synapses, used often enough. -/
  | promote (peer : NodeId) (inertia : ℚ)
  /-- The promotion has ended, and the incoming synapse is deleted. -/
  | promoted (peer : NodeId)
  /-- `_lookupStep` caches its target. -/
  | hopCache (target : NodeId) (inertia : ℚ)
  /-- `_lookupStep` scans the table. -/
  | lookup (queried dead : NodeId → Bool) (target : NodeId)
  /-- `_evictAndReplace` of one of the dead synapses. -/
  | evict (i : Nat)
  /-- `closeConnection` has ended. -/
  | closed (k : Nat)
  /-- The probes were answered, and one of the candidates is picked. -/
  | probed (k : Nat) (eligible : NodeId → Bool) (replies : List NodeId) (pick : Nat)
  /-- `openConnection` answers. -/
  | answered (k : Nat) (opened : Bool)
  /-- A call goes on; the pools may refuse its peer. -/
  | resume (k : Nat) (allowed : Bool) (latency : ℚ)
  /-- A peer died or left. -/
  | gone (key : TableKey)

namespace Strata

variable (c : StrataConfig)

/-- The table. -/
abbrev table (s : Strata) : Synaptome := s.inserts.gate.synaptome

/-- Before the first act. -/
def init (t : Synaptome) : Strata := ⟨Inserts.init t, ∅, []⟩

/-- An act of the inserts. -/
def act (s : Strata) (a : Inserts.Act) : Strata :=
  { s with inserts := s.inserts.step c.toInsertConfig a }

/-- `_seedSynaptomeWithSponsor` -/
def seed (s : Strata) (w : Surroundings) (now : Int) (sponsor : NodeId) (allowed : Bool) :
    Strata :=
  if c.gated then if allowed then s.act c (.offer w now sponsor) else s
  else if s.table.holds sponsor || !allowed then s
  else { s with inserts.gate.synaptome := s.table.seedInsert c.node sponsor }

/-- `addIncomingSynapse` -/
def addIncoming (s : Strata) (peer : NodeId) (inc : IncomingSynapse) : Strata :=
  if s.table.has (.big peer) || s.incomingSynapses.has peer then s
  else { s with incomingSynapses := s.incomingSynapses.set peer inc }

/-- The synapse of a promotion. -/
def promotedSynapse (peer : NodeId) (inc : IncomingSynapse) (inertia : ℚ) : Synapse :=
  { Inserts.candidateSynapse peer inc.stratum inertia with latency := inc.latency }

/-- A promotion, up to its wait. -/
def promote (s : Strata) (peer : NodeId) (inertia : ℚ) : Strata :=
  match s.incomingSynapses.get peer with
  | none => s
  | some inc =>
    if s.table.has (.big peer) then s
    else
      let syn := promotedSynapse peer inc inertia
      { s with inserts := s.inserts.addByVitality c.toInsertConfig peer syn }

/-- The scan of the table in `_lookupStep`: the dead synapses on the way to the target are
collected, and weigh nothing from here on. -/
def lookup (s : Strata) (queried dead : NodeId → Bool) (target : NodeId) : Strata :=
  match s.table.lookupScan ⟨c.node.id, queried, dead⟩ target with
  | none => s
  | some (ids, _) =>
    let weighed (x : Synapse) : Synapse :=
      if ids.contains x.peerId.id then { x with weight := 0 } else x
    { s with
      inserts.gate.synaptome := s.table.filterMap fun _ x => some (weighed x)
      deadSynapses := s.deadSynapses ++
        ((s.table.entries.map fun e => weighed e.2).filter fun x => ids.contains x.peerId.id) }

/-- `_evictAndReplace`, up to its wait. -/
def evict (s : Strata) (i : Nat) : Strata :=
  match s.deadSynapses[i]? with
  | none => s
  | some deadSyn =>
    { s.act c (.evict deadSyn.peerId deadSyn.stratum) with
      deadSynapses := s.deadSynapses.eraseIdx i }

/-- One act. -/
def step (s : Strata) : StrataAct → Strata
  | .seed w now sponsor allowed => s.seed c w now sponsor allowed
  | .candidate peer eligible inertia => s.act c (.candidate peer eligible inertia)
  | .incoming peer latency stratum => s.addIncoming peer ⟨latency, stratum⟩
  | .promote peer inertia => s.promote c peer inertia
  | .promoted peer => { s with incomingSynapses := s.incomingSynapses.delete peer }
  | .hopCache target inertia => s.act c (.hopCache target inertia)
  | .lookup queried dead target => s.lookup c queried dead target
  | .evict i => s.evict c i
  | .closed k => s.act c (.closed k)
  | .probed k eligible replies pick => s.act c (.probed k eligible replies pick)
  | .answered k opened => s.act c (.answered k opened)
  | .resume k allowed latency => s.act c (.resume k allowed latency)
  | .gone key => s.act c (.gone key)

end Strata

end Axona
