import Axona.Dht.CandidateDial
import Axona.Library.Ranking
import Mathlib.Data.Prod.Lex

/-! # The fill

`_fillTick`: below its cap a node searches for candidates and dials them out of its cache, nearest
first, a few in each tick; at its cap it dials one that the gate predicts to displace a near peer. A
tick waits for its searches and for each of its dials, and whatever else the node does comes in
between. One tick runs at a time. -/

namespace Axona

open Library

structure FillConfig where
  self : NodeId
  marks : MarkConfig
  guard : GuardConfig
  bindingCapable : Bool
  relays : Bool
  /-- `_noPathOn` -/
  noPathOn : Bool
  kCache : Nat
  maxPerTick : Nat
  pPending : Nat

namespace FillConfig

/-- The fill is armed. -/
def candidate (cfg : FillConfig) : CandidateConfig where
  self := cfg.self
  marks := cfg.marks
  guard := cfg.guard
  armed := true
  bindingCapable := cfg.bindingCapable
  relays := cfg.relays

def cache (cfg : FillConfig) : CacheConfig where
  self := cfg.self
  kCache := cfg.kCache
  armed := true
  noPathOn := cfg.noPathOn

end FillConfig

/-- Where a tick is. -/
inductive TickPoint where
  | idle
  /-- Below cap: the searches are awaited. -/
  | searching
  /-- At cap: the near search is awaited. -/
  | improving
  /-- The rounds of `_nearImproveStep`. -/
  | offering (rest : List NodeId)
  /-- The rounds of the dial phase. -/
  | choosing (rest : List NodeId)
  /-- The open of a dial is awaited. -/
  | waiting (c : DialCall) (rest : List NodeId) (improve : Bool)
  /-- The dial has come back. -/
  | back (id : NodeId) (out : DialResult) (rest : List NodeId) (improve : Bool)
deriving DecidableEq

structure FillNode where
  node : CandidateNode
  cands : Candidates
  point : TickPoint
  /-- `_fillStats.ticks` -/
  ticks : Nat
  /-- `rep.dialed` -/
  dialed : Nat
  /-- `rep.cancelled` -/
  cancelled : Nat
  /-- The dials of the tick that went out or were cancelled. -/
  made : Nat

/-- What the transport and the gate say in a round of a tick. -/
structure Round where
  /-- `_transportMayDial` -/
  mayDial : Bool
  found : Found
deriving DecidableEq

/-- The dial is put off, and the candidate is kept. -/
def DialResult.deferral (out : DialResult) : Bool :=
  decide (out = .deferred) || decide (out = .deferredDeficit)

namespace FillNode

/-- A node just started. -/
def init (capM : Nat) : FillNode := ⟨.init capM, .init, .idle, 0, 0, 0, 0⟩

variable (cfg : FillConfig)

/-- The candidates of the cache, nearest first; in every other tick those of a band come first. -/
def ordered (s : FillNode) : List NodeId :=
  let bandFirst := s.ticks % 2 = 1
  (sortBy (fun e : Int × CacheEntry =>
    toLex (if bandFirst ∧ e.2.src ≠ .band then 1 else 0, e.1.toNat ^^^ cfg.self))
    s.cands.cache.entries).map fun e => e.1.toNat

/-- The candidate leaves the cache. -/
def forget (s : FillNode) (id : NodeId) : FillNode :=
  { s with cands := { s.cands with cache := s.cands.cache.delete id } }

/-- The guard is asked whether a dial may go out. -/
def askGuard (s : FillNode) (id : NodeId) : FillNode :=
  { s with node.tables.guard :=
      (s.node.tables.guard.allow cfg.guard id s.node.tables.wall).2 }

/-- May the guard and the transport take one more dial of a candidate? -/
def pendingFull (s : FillNode) (x : Round) : Bool :=
  decide (cfg.pPending ≤ s.node.tables.guard.inflightCount) || !x.mayDial

/-- Is the candidate on the cooldown of its path? -/
def cooling (s : FillNode) (id : NodeId) : Bool :=
  (s.cands.cache.get id).any fun e => e.noPathUntil.any fun t => decide (s.node.tables.wall < t)

/-- The tick considers a candidate, and awaits what comes of it. -/
def consider (s : FillNode) (id : NodeId) (x : Round) (rest : List NodeId) (improve : Bool) :
    FillNode :=
  let r := s.node.considerCandidate cfg.candidate id x.found
  match r.1 with
  | some out => { s with node := r.2, point := .back id out rest improve }
  | none =>
    { s with
      node := r.2
      point := .waiting ⟨id, r.2.tables.guard.seq⟩ rest improve
      made := s.made + if cfg.candidate.openIsTheDial then 1 else 0 }

/-- A round of the dial phase. -/
def choose (s : FillNode) (id : NodeId) (rest : List NodeId) (x : Round) : FillNode :=
  if cfg.maxPerTick ≤ s.dialed + s.cancelled then { s with point := .idle }
  else if s.node.fillAvailability false ≤ 0 then { s with point := .idle }
  else if decide (id ∈ s.node.synaptome) || x.found.bound then
    { s.forget id with point := .choosing rest }
  else
    let eligible := s.node.isEligible cfg.candidate id
    let s := { s with node := s.node.askEligible cfg.candidate id }
    if !eligible then { s.forget id with point := .choosing rest }
    else if s.cooling id then { s with point := .choosing rest }
    else if s.pendingFull cfg x then { s with point := .idle }
    else
      let allowed := (s.node.tables.guard.allow cfg.guard id s.node.tables.wall).1
      let s := s.askGuard cfg id
      if !allowed then { s with point := .choosing rest } else s.consider cfg id x rest false

/-- A round of `_nearImproveStep`. -/
def offer (s : FillNode) (id : NodeId) (rest : List NodeId) (x : Round) : FillNode :=
  if decide (id = cfg.self) || decide (id ∈ s.node.synaptome) || x.found.bound then
    { s with point := .offering rest }
  else
    let eligible := s.node.isEligible cfg.candidate id
    let s := { s with node := s.node.askEligible cfg.candidate id }
    if !eligible || !x.found.covered then { s with point := .offering rest }
    else if s.pendingFull cfg x then { s with point := .offering rest }
    else
      let allowed := (s.node.tables.guard.allow cfg.guard id s.node.tables.wall).1
      let s := s.askGuard cfg id
      if !allowed then { s with point := .offering rest } else s.consider cfg id x rest true

/-- The tick goes on with what came of a dial. -/
def goOn (s : FillNode) (id : NodeId) (out : DialResult) (rest : List NodeId) (improve : Bool) :
    FillNode :=
  if improve then { s with dialed := 1, point := .idle }
  else
    match out with
    | .deferred | .deferredDeficit => { s with point := .idle }
    | .held | .bound | .added =>
      { s with
        cands := s.cands.dialled cfg.cache id out
        dialed := s.dialed + 1
        point := .choosing rest }
    | .failed =>
      { s with
        cands := s.cands.dialled cfg.cache id out
        cancelled := s.cancelled + 1
        point := .choosing rest }
    | .skip => { s with cands := s.cands.dialled cfg.cache id out, point := .choosing rest }

/-- The tick begins, if none runs. -/
def tick (s : FillNode) : FillNode :=
  if s.point = .idle then
    { s with
      node := s.node.call cfg.candidate .sweep
      ticks := s.ticks + 1
      dialed := 0
      cancelled := 0
      made := 0
      point := if s.node.capM ≤ s.node.synaptome.card then .improving else .searching }
  else s

/-- The open of a call is answered; the tick may be the one that waits for it. -/
def answered (s : FillNode) (c : DialCall) (r : OpenReply) : FillNode :=
  if c ∈ s.node.awaiting then
    let out := (s.node.openAnswered cfg.candidate c r).1
    let s := { s with node := s.node.step cfg.candidate (.answered c r) }
    match s.point with
    | .waiting c' rest improve =>
      if c = c' then
        { s with
          point := .back c.peerId out rest improve
          made := s.made + if out = .held || (cfg.relays && decide (out = .failed)) then 1 else 0 }
      else s
    | _ => s
  else s

inductive Act where
  /-- A candidate of another source, or whatever else the node does. -/
  | node (a : CandidateNode.Act)
  | nominate (id : NodeId) (src : CandidateSource) (now : ℚ) (w : Nominee)
  | noPath (id : NodeId) (now noPathUntil : ℚ)
  | tick
  /-- The searches of the tick are over, and the near one found these. -/
  | searched (nearest : List NodeId)
  | round (x : Round)

def step (s : FillNode) : Act → FillNode
  -- an answer is told to the tick too
  | .node (.answered c r) => s.answered cfg c r
  | .node a => { s with node := s.node.step cfg.candidate a }
  | .nominate id src now w =>
    -- the peer exchange is asked by the searches of a tick
    if src = .pex ∧ s.point ≠ .searching then s
    else { s with cands := (s.cands.nominateCandidate cfg.cache id src now w).2 }
  | .noPath id now noPathUntil =>
    { s with cands := s.cands.onNoPath cfg.cache id now noPathUntil }
  | .tick => s.tick cfg
  | .searched nearest =>
    match s.point with
    | .searching => { s with point := .choosing (s.ordered cfg) }
    | .improving => { s with point := .offering nearest }
    | _ => s
  | .round x =>
    match s.point with
    | .choosing (id :: rest) => s.choose cfg id rest x
    | .choosing [] => { s with point := .idle }
    | .offering (id :: rest) => s.offer cfg id rest x
    | .offering [] => { s with point := .idle }
    | .back id out rest improve => s.goOn cfg id out rest improve
    | _ => s

end FillNode

end Axona
