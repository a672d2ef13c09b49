import Axona.Pubsub.Step

/-! # The write flights

A forwarded write is complete only on the acknowledgement of the root it was sent to. Until then it
is an entry of a flight, one for each topic, root and incarnation. An overdue flight asks its root
for the receipt of one of its writes; a root that says it has none gets them all once more; and a
root that stays silent is convicted, and its writes go to the closest live candidate.

A ledger of flights stands beside a node. What the source draws at random is numbered. -/

namespace Axona

open Library

/-! ### Constants, in milliseconds -/

/-- How long a forwarded write may go unacknowledged. -/
def ingestAckMs : Int := 4000

/-- How long a probe may go unanswered. -/
def flightProbeMs : Int := 3000

/-- How many rounds a flight is probed. -/
def flightMaxRounds : Nat := 2

/-- How many evictions a write is promoted past. -/
def flightMaxPromotions : Nat := 4

/-- How many chains are remembered. -/
def flightChainMax : Nat := 1024

/-- How long a chain is remembered. -/
def flightChainTtlMs : Int := rootTombstoneTtlMs

/-! ### Flights -/

/-- A write of a publisher. -/
inductive Write where
  | pub (json : Json)
  | kill (k : Kill)
deriving DecidableEq, Repr

/-- `writeMsgId`: the message a write is about. -/
def Write.msgId : Write → Option MsgId
  | .pub json => json.parsed.bind (·.msgId)
  | .kill k => k.msgId

/-- Is it a kill? -/
def Write.isKill : Write → Bool
  | .pub _ => false
  | .kill _ => true

/-- `corrKey`: what an acknowledgement is correlated by. -/
structure CorrKey where
  topic : TopicId
  msgId : MsgId
  kill : Bool
deriving DecidableEq, Repr

/-- `flightKey`: the topic, the root and the incarnation a flight is towards. -/
structure FlightKey where
  topic : TopicId
  root : NodeId
  epoch : Int
deriving DecidableEq, Repr

/-- A write in flight, with the history of its promotions. -/
structure FlightEntry where
  write : Write
  msgId : MsgId
  attemptId : Nat
  promotions : Nat
  tried : List NodeId
deriving DecidableEq, Repr

/-- Where a flight stands. -/
inductive Stage where
  | awaitAck
  | probing
  | retrying
deriving DecidableEq, Repr

/-- A flight. -/
structure Flight where
  topic : TopicId
  root : NodeId
  epoch : Int
  entries : OrderedMap CorrKey FlightEntry
  stage : Stage
  rounds : Nat
  deadline : Int
  ackTo : NodeId
  flightNonce : Nat
  /-- The exchange whose gate forwarded the write. -/
  merge : Option Corr
  /-- What the root was asked for, and when, without an answer since. The source keeps no such
  list. -/
  asked : List (CorrKey × Int)

/-- How often a write was promoted, and past which roots. -/
structure Chain where
  promotions : Nat
  tried : List NodeId
  exp : Int
deriving DecidableEq, Repr

/-- Why a write is given up. -/
inductive GivenUp where
  | promotionCap
  | stale
deriving DecidableEq, Repr

/-- What a ledger sends: a write with the route of its acknowledgement, a receipt probe, a write to
this node's own handlers as if it had ended here, and the notice that a write is undeliverable. -/
inductive FlightFrame where
  | write (w : Write) (via : NodeId) (ackTo : NodeId) (flightNonce attemptId : Nat)
  | probe (root : NodeId) (key : CorrKey)
  | ingest (t : TopicId) (w : Write)
  | undeliverable (t : TopicId) (w : Write) (why : GivenUp)
deriving DecidableEq, Repr

/-- An entry of the ledger's journal. -/
inductive FlightEvent where
  /-- An acknowledgement by the root of a flight named another epoch than the flight's. -/
  | mismatched (flight : FlightKey) (key : CorrKey)
  /-- The root of a flight was convicted; the flight is as it was then. -/
  | evicted (flight : Flight) (at' : Int)

/-- A node with its flights. -/
structure Ledger where
  node : Node
  flights : OrderedMap FlightKey Flight := ∅
  chains : OrderedMap CorrKey Chain := ∅
  nextNonce : Nat := 0
  sent : List FlightFrame := []
  journal : List FlightEvent := []

namespace Flight

def key (f : Flight) : FlightKey := ⟨f.topic, f.root, f.epoch⟩

/-- A valid answer settles a write. -/
def settle (f : Flight) (ck : CorrKey) : Flight :=
  { f with entries := f.entries.delete ck, asked := f.asked.filter fun a => a.1 ≠ ck }

end Flight

namespace Ledger

variable (cfg : Config)

def now (l : Ledger) : Int := l.node.now

def send (l : Ledger) (f : FlightFrame) : Ledger := { l with sent := f :: l.sent }

def note (l : Ledger) (e : FlightEvent) : Ledger := { l with journal := e :: l.journal }

/-- Write a flight back under its key; one without entries goes. -/
def putFlight (l : Ledger) (k : FlightKey) (f : Flight) : Ledger :=
  { l with flights := if f.entries.size = 0 then l.flights.delete k else l.flights.set k f }

/-! ### The chain ledger -/

/-- `_flightChainNote`. -/
def chainNote (l : Ledger) (ck : CorrKey) (promotions : Nat) (tried : List NodeId) : Ledger :=
  let m := (l.chains.delete ck).set ck ⟨promotions, tried, l.now + flightChainTtlMs⟩
  { l with chains := if flightChainMax < m.size then m.dropOldest else m }

/-- `_flightChainGet`. -/
def chainGet (l : Ledger) (ck : CorrKey) : Option Chain × Ledger :=
  match l.chains.get ck with
  | none => (none, l)
  | some c =>
    if c.exp ≤ l.now then (none, { l with chains := l.chains.delete ck }) else (some c, l)

/-! ### Opening -/

/-- An entry takes over the history of its chain. -/
def inherit (e : FlightEntry) (promotions : Nat) (tried : List NodeId) : FlightEntry :=
  { e with
    promotions := max e.promotions promotions
    tried := tried.foldl (fun ts r => if r ∈ ts then ts else ts ++ [r]) e.tried }

/-- The epoch the beacon record names, `0` without one. -/
def recordEpoch (n : Node) (t : TopicId) : Int :=
  (n.rootBeacons.get t).elim 0 fun b => b.epoch.getD 0

/-- The key a flight is opened under: the expected epoch, or that of the beacon record. -/
def openKey (n : Node) (t : TopicId) (root : NodeId) (expected : Option Int) : FlightKey :=
  match expected with
  | some e => if 1 ≤ e then ⟨t, root, e⟩ else ⟨t, root, recordEpoch n t⟩
  | none => ⟨t, root, recordEpoch n t⟩

/-- The flight under a key, or a new one. -/
def flightAt (l : Ledger) (k : FlightKey) : Flight :=
  (l.flights.get k).getD
    { topic := k.topic, root := k.root, epoch := k.epoch, entries := ∅, stage := .awaitAck,
      rounds := 0, deadline := l.now + ingestAckMs, ackTo := cfg.nodeId,
      flightNonce := l.nextNonce, merge := none, asked := [] }

/-- `_flightOpen`: the write joins the flight of its root and incarnation. The flight and the entry
it joined are the route of the acknowledgement; `none` for a write without a message id. -/
def flightOpen (l : Ledger) (t : TopicId) (root : NodeId) (w : Write) (attempt : Option Nat)
    (expected : Option Int) (chain : Option Chain) : Option (Flight × FlightEntry) × Ledger :=
  match w.msgId.filter fun id => !id.isEmpty with
  | none => (none, l)
  | some id =>
    let k := openKey l.node t root expected
    let f := l.flightAt cfg k
    let ck : CorrKey := ⟨t, id, w.isKill⟩
    let e := (f.entries.get ck).getD ⟨w, id, attempt.getD (l.nextNonce + 1), 0, []⟩
    let e := chain.elim e fun c => inherit e c.promotions c.tried
    let (known, l) := l.chainGet ck
    let e := known.elim e fun c => inherit e c.promotions c.tried
    let f := { f with entries := f.entries.set ck e }
    (some (f, e), { l with flights := l.flights.set k f, nextNonce := l.nextNonce + 2 })

/-- A write sent to the root it is in flight towards. -/
def sendWrite (l : Ledger) (w : Write) (dest : NodeId) (r : Flight × FlightEntry) : Ledger :=
  l.send (.write w dest r.1.ackTo r.1.flightNonce r.2.attemptId)

/-- `_forwardToRoot`, as far as the flight goes. -/
def forwardToRoot (l : Ledger) (t : TopicId) (root : NodeId) (w : Write) (attempt : Option Nat) :
    Ledger :=
  match l.flightOpen cfg t root w attempt none none with
  | (none, l) => l
  | (some r, l) => l.sendWrite w root r

/-- `_forwardToWinner`: the flight is under the epoch of the gate, and belongs to its round. -/
def forwardToWinner (l : Ledger) (t : TopicId) (winner : NodeId) (w : Write)
    (attempt : Option Nat) (corr : Corr) (winnerEpoch : Int) : Ledger :=
  match l.flightOpen cfg t winner w attempt (some winnerEpoch) none with
  | (none, l) => l
  | (some r, l) =>
    let k : FlightKey := ⟨t, winner, winnerEpoch⟩
    match l.flights.get k with
    | none => l.sendWrite w winner r
    | some f =>
      let f := { f with merge := some corr }
      { l with flights := l.flights.set k f }.sendWrite w winner r

/-! ### Completing -/

/-- One flight's word on an acknowledgement from `sender` at `epoch`: it binds when it comes from
the flight's root and, unless the flight is unversioned, at the flight's epoch. -/
def completeAt (l : Ledger) (ck : CorrKey) (sender : Option NodeId) (epoch : Int) (k : FlightKey) :
    Ledger :=
  match l.flights.get k with
  | none => l
  | some f =>
    if !f.entries.has ck || sender ≠ some f.root then l
    else if f.epoch ≠ 0 && epoch ≠ f.epoch then
      let l := l.note (.mismatched k ck)
      match f.merge with
      | some corr => { l with node := l.node.winnerReminted cfg f.topic f.root corr epoch }
      | none => l
    else l.putFlight k (f.settle ck)

/-- `_flightComplete`. -/
def flightComplete (l : Ledger) (ck : CorrKey) (sender : Option NodeId) (epoch : Int) : Ledger :=
  l.flights.keys.foldl (fun l k => l.completeAt cfg ck sender epoch k) l

/-- The fields of a verified proof of ingestion. `authority` tells the nodes whose id the root's
public key hashes to. -/
structure AckProof where
  key : CorrKey
  attemptId : Nat
  ackTo : NodeId
  flightNonce : Nat
  epoch : Int
  authority : NodeId → Bool

/-- One flight's word on a proof. -/
def completeSignedAt (l : Ledger) (p : AckProof) (k : FlightKey) : Ledger :=
  match l.flights.get k with
  | none => l
  | some f =>
    match f.entries.get p.key with
    | none => l
    | some e =>
      if e.attemptId ≠ p.attemptId || f.ackTo ≠ p.ackTo || f.flightNonce ≠ p.flightNonce then l
      else if f.epoch ≠ 0 && p.epoch ≠ f.epoch then l.note (.mismatched k p.key)
      else if !p.authority f.root then l
      else l.putFlight k (f.settle p.key)

/-- `_flightCompleteSigned`. -/
def flightCompleteSigned (l : Ledger) (p : AckProof) : Ledger :=
  l.flights.keys.foldl (fun l k => l.completeSignedAt p k) l

/-! ### Eviction -/

/-- Is the timestamp of a publish outside the skew that every root allows? -/
def staleWrite (w : Write) (now : Int) : Bool :=
  match w with
  | .kill _ => false
  | .pub json => json.parsed.any fun e => e.ts.isSome && !checkFreshness e now

/-- Why a convicted root's write ends here, if it does. -/
def endsChain (e : FlightEntry) (now : Int) : Option GivenUp :=
  if flightMaxPromotions ≤ e.promotions then some .promotionCap
  else if staleWrite e.write now then some .stale
  else none

/-- The closest live candidate that the writes were not evicted from, this node among them. -/
def promoteTo (n : Node) (t : TopicId) (excluded : List NodeId) : NodeId :=
  let ns := (n.world.neighbors.getD []).filter fun x =>
    x ≠ cfg.nodeId && some x ≠ n.world.bridge && x ∉ excluded
  ns.foldl (Node.nearer t) cfg.nodeId

/-- A write goes to its next candidate, or to this node's own handlers. -/
def promote (l : Ledger) (f : Flight) (best : NodeId) (ck : CorrKey) (e : FlightEntry) : Ledger :=
  let tried := e.tried ++ [f.root]
  let l := l.chainNote ck (e.promotions + 1) tried
  if best = cfg.nodeId then l.send (.ingest f.topic e.write)
  else
    match l.flightOpen cfg f.topic best e.write (some e.attemptId) none
      (some ⟨e.promotions + 1, tried, 0⟩) with
    | (none, l) => l
    | (some r, l) => l.sendWrite e.write best r

/-- `_flightEvict`: the root is convicted, the writes whose chain ends here are given up, and the
others are promoted. -/
def flightEvict (l : Ledger) (k : FlightKey) (f : Flight) : Ledger :=
  let l := { l with
    flights := l.flights.delete k
    node := l.node.flightEvict f.topic f.root f.epoch }.note (.evicted f l.now)
  let ended := f.entries.entries.filterMap fun e => (endsChain e.2 l.now).map fun why => (e.2, why)
  let l := ended.foldl (fun l e => l.send (.undeliverable f.topic e.1.write e.2)) l
  let rest := f.entries.entries.filter fun e => (endsChain e.2 l.now).isNone
  let best := promoteTo cfg l.node f.topic (f.root :: rest.flatMap fun e => e.2.tried)
  rest.foldl (fun l e => l.promote cfg f best e.1 e.2) l

/-! ### The sweep -/

/-- An overdue flight asks its root for the receipt of its first write. -/
def probe (l : Ledger) (k : FlightKey) (f : Flight) : Ledger :=
  match f.entries.entries.head? with
  | none => { l with flights := l.flights.delete k }
  | some (ck, _) =>
    let f := { f with
      stage := .probing
      rounds := f.rounds + 1
      deadline := l.now + flightProbeMs
      asked := (ck, l.now) :: f.asked }
    { l with flights := l.flights.set k f }.send (.probe f.root ck)

/-- The sweep's word on one flight. -/
def sweepAt (l : Ledger) (k : FlightKey) : Ledger :=
  match l.flights.get k with
  | none => l
  | some f =>
    if l.now < f.deadline then l
    else match f.stage with
    | .probing => l.flightEvict cfg k f
    | .awaitAck | .retrying =>
      let l := match f.merge with
        | some corr =>
          if f.stage = Stage.awaitAck ∧ f.rounds = 0 then
            { l with node := l.node.winnerSilent f.topic corr }
          else l
        | none => l
      if flightMaxRounds ≤ f.rounds then l.flightEvict cfg k f else l.probe k f

/-- `_flightSweep`. -/
def flightSweep (l : Ledger) : Ledger :=
  l.flights.keys.foldl (fun l k => l.sweepAt cfg k) l

/-! ### Answers to a probe -/

/-- A root that holds nothing gets every write of the flight once more. -/
def retryAt (l : Ledger) (t : TopicId) (k : FlightKey) : Ledger :=
  match l.flights.get k with
  | none => l
  | some f =>
    if f.topic ≠ t || f.stage ≠ .probing then l
    else
      let f := { f with
        stage := .retrying
        deadline := l.now + ingestAckMs
        asked := f.entries.keys.map fun ck => (ck, l.now) }
      f.entries.entries.foldl (fun l e => l.sendWrite e.2.write f.root (f, e.2))
        { l with flights := l.flights.set k f }

/-- `_onReceiptNack`. -/
def onReceiptNack (l : Ledger) (t : TopicId) : Ledger :=
  l.flights.keys.foldl (fun l k => l.retryAt t k) l

/-! ### Steps -/

end Ledger

/-- What runs next at a node with flights. -/
inductive FlightAct where
  | node (a : Act)
  | forward (t : TopicId) (root : NodeId) (w : Write) (attempt : Option Nat)
  | forwardWinner (t : TopicId) (winner : NodeId) (w : Write) (attempt : Option Nat) (corr : Corr)
      (winnerEpoch : Int)
  | ack (key : CorrKey) (sender : Option NodeId) (epoch : Int)
  | proof (p : Ledger.AckProof)
  | sweep
  | nack (t : TopicId)

namespace Ledger

variable (cfg : Config)

/-- Run one act. -/
def perform (l : Ledger) : FlightAct → Ledger
  | .node a => { l with node := l.node.perform cfg a }
  | .forward t root w attempt => l.forwardToRoot cfg t root w attempt
  | .forwardWinner t winner w attempt corr e => l.forwardToWinner cfg t winner w attempt corr e
  | .ack ck sender epoch => l.flightComplete cfg ck sender epoch
  | .proof p => l.flightCompleteSigned p
  | .sweep => l.flightSweep cfg
  | .nack t => l.onReceiptNack t

/-- One step of a node with flights. -/
def step (l : Ledger) (a : World × FlightAct) : Ledger :=
  { l with node := { l.node with world := a.1 } }.perform cfg a.2

/-- A node that has just started has no flight. -/
def boot (w : World) : Ledger := { node := Node.boot w }

end Ledger

end Axona
