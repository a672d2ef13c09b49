import Axona.Dht.Routing

/-! # Lookup walks

How a lookup walks to its target (`AxonaPeer._lookupStep`, `_lookupWalkOrigin`,
`_lookupWalkFinish`). The walk carries the nodes it was at, as a path and as the set `queried`. Each
node gathers its candidates from the synaptome, the incoming synapses and the incoming pool, chooses
one, and hands the walk on: by `lookup_step`, which the next node answers with the result of the
rest, or by `lookup_walk`, which it acknowledges at once, the result coming back as `lookup_done`.

What a node reads at each await, what its sends come to, and its random draws are inputs. Every
frame that was sent stays on its way, and may arrive never, once or often. -/

namespace Axona

open Library

/-! ### What a walk carries -/

/-- The context of a walk (`ctx`). -/
structure WalkCtx where
  sourceId : NodeId
  targetKey : NodeId
  hops : Nat
  path : List NodeId
  queried : List NodeId
deriving DecidableEq

/-- Why a walk ended. -/
inductive StopReason where
  | found
  | maxHops
  | stalled
  | sendFailed
  | stepThrew
  | walkDeadline
deriving DecidableEq

/-- What a walk ends with. -/
structure LookupResult where
  found : Bool
  stalled : Bool
  reason : StopReason
  /-- The visited id nearest to the target. -/
  closest : Option NodeId
  path : List NodeId
  hops : Nat
deriving DecidableEq

namespace WalkCtx

variable (ctx : WalkCtx) (me : NodeId)

/-- `_lookupResult` -/
def result (reason : StopReason) : LookupResult :=
  ⟨reason = .found, reason = .stalled, reason, pickNearest ctx.targetKey ctx.path, ctx.path,
    ctx.hops⟩

/-- `chargeStep`: the walk as it is at the next node. -/
def charge (next : NodeId) : WalkCtx :=
  { ctx with hops := ctx.hops + 1, path := ctx.path ++ [next], queried := next :: ctx.queried }

/-- The walk was not at this node yet. -/
def unvisited (id : NodeId) : Bool := !ctx.queried.contains id

/-- A node to go on to: nearer than this one, and not visited. -/
def onward (id : NodeId) : Bool :=
  decide (distance ctx.targetKey id < distance ctx.targetKey me) && ctx.unvisited id

/-- The candidates of the first read: synapses, incoming synapses, and the incoming pool. -/
def candidates (v : RoutingView) : List NodeId :=
  v.synaptome.filter (fun id => ctx.onward me id && !v.dead id) ++
    v.incomingSynapses.filter (fun id => ctx.onward me id && !v.dead id) ++
      ((v.usablePeers me []).filter fun u => u.2 = .I && ctx.onward me u.1).map (·.1)

/-- `deadSynapses`: the synapses that would be candidates but for their mark. -/
def deadSynapses (v : RoutingView) : List NodeId :=
  v.synaptome.filter fun id => ctx.onward me id && v.dead id

/-- The fallback: the nearest unvisited synapse or incoming synapse, whatever its distance. -/
def fallback (v : RoutingView) : Option NodeId :=
  pickNearest ctx.targetKey
    ((v.synaptome ++ v.incomingSynapses).filter fun id => ctx.unvisited id && !v.dead id)

/-- `direct`: the target, where it is a synapse or an incoming one. -/
def direct (v : RoutingView) : Option NodeId :=
  if (v.synaptome.contains ctx.targetKey || v.incomingSynapses.contains ctx.targetKey)
    && !v.dead ctx.targetKey then some ctx.targetKey else none

/-- `pickNext`: the nearest candidate that is not tried, visited, marked or unconnected. -/
def pickNext (v : RoutingView) (candidates tried : List NodeId) : Option NodeId :=
  pickNearest ctx.targetKey (candidates.filter fun id =>
    !tried.contains id && ctx.unvisited id && !v.dead id && v.connOk id)

end WalkCtx

/-! ### The lookahead -/

/-- The first of the ids with the greatest score, among those that have one. -/
def bestBy (score : NodeId → Option Int) (ids : List NodeId) : Option NodeId :=
  (ids.foldl (fun (best : Option (NodeId × Int)) id =>
    match score id with
    | none => best
    | some s => if best.all (·.2 < s) then some (id, s) else best) none).map (·.1)

/-- The scores of a lookahead round. One that is not above `-Infinity` is `none`. -/
structure Lookahead where
  /-- The candidates by their one-hop score. -/
  order : List NodeId → List NodeId
  /-- Sorting neither adds nor loses a candidate. -/
  order_perm : ∀ ids, (order ids).Perm ids
  /-- `LOOKAHEAD_ALPHA` -/
  alpha : Nat
  /-- The score with the second hop each probe named. -/
  twoHop : NodeId → Option Int
  /-- The score of `bestByAP`. -/
  oneHop : NodeId → Option Int

/-- `_bestByTwoHopAP` -/
def bestByTwoHopAP (x : Lookahead) (targetKey : NodeId) (candidates : List NodeId) :
    Option NodeId :=
  let probeSet := (x.order candidates).take x.alpha
  match probeSet.find? (distance targetKey · = 0) with
  | some first => some first
  | none => match bestBy x.twoHop probeSet with
    | some best => some best
    | none => bestBy x.oneHop candidates

/-! ### One step of a walk -/

/-- What a send of `lookup_walk` comes to. -/
inductive HandOff where
  /-- It is acknowledged. -/
  | taken
  /-- The next node has no handler for it. -/
  | noHandler
  /-- It fails with an error that `isEdgeLoss` knows. -/
  | edgeLoss
  /-- It fails otherwise. -/
  | failed
deriving DecidableEq

/-- What a send of `lookup_step` comes to. -/
inductive StepReply where
  /-- The result of the rest of the walk. -/
  | result (r : LookupResult)
  | edgeLoss
  | failed
deriving DecidableEq

/-- One round of the loop that hands the walk on: the tables after its awaits, what its sends come
to, and the tables after them. -/
structure LookupTry where
  opened : RoutingView
  handOff : HandOff
  reply : StepReply
  after : RoutingView

/-- What a node reads, hears and draws in one step. -/
structure LookupInput where
  /-- The tables when it gathers its candidates. -/
  atStart : RoutingView
  /-- What `_evictAndReplace` put in the place of the dead synapses. -/
  replacements : List NodeId
  /-- The tables after that. -/
  afterEvict : RoutingView
  /-- The index of an epsilon choice, where one is drawn. -/
  epsilon : Option Nat
  /-- The lookahead round. -/
  lookahead : Lookahead
  /-- `LOOKUP_RESELECT` -/
  reselect : Bool
  /-- The rounds of the loop that hands the walk on, as far as it got. -/
  tries : List LookupTry

/-- What a step comes to. -/
inductive StepOutcome where
  /-- The walk ends at this node. -/
  | ended (r : LookupResult)
  /-- The next node answered with the result. -/
  | relayed (r : LookupResult)
  /-- The next node took the walk. -/
  | forwarded
  /-- The step raised. -/
  | threw
  /-- It still waits for an answer. -/
  | waiting
deriving DecidableEq

/-- A walk on its way to a node: by `lookup_walk` with the number of the walk, else by
`lookup_step`. -/
structure WalkFrame where
  dest : NodeId
  walk : Option Nat
  ctx : WalkCtx
deriving DecidableEq

/-- What a step did: the frames it sent, its outcome, and the context as it leaves it. -/
structure StepRun where
  frames : List WalkFrame
  outcome : StepOutcome
  ctx : WalkCtx

/-- How the sends to one node ended. -/
inductive TryOutcome where
  | done (o : StepOutcome)
  | edgeLoss
  | failed

/-- How a `lookup_step` ended. -/
def StepReply.attempt : StepReply → TryOutcome
  | .result r => .done (.relayed r)
  | .edgeLoss => .edgeLoss
  | .failed => .failed

/-- The sends to one node, each with the walk it names. A node that has no handler for `lookup_walk`
is sent a `lookup_step`. -/
def LookupTry.attempt (t : LookupTry) : Option Nat → List (Option Nat) × TryOutcome
  | none => ([none], t.reply.attempt)
  | some k => match t.handOff with
    | .taken => ([some k], .done .forwarded)
    | .noHandler => ([some k, none], t.reply.attempt)
    | .edgeLoss => ([some k], .edgeLoss)
    | .failed => ([some k], .failed)

/-- The loop that hands the walk on. With re-selection a hop that is not connected after the awaits
is not sent to, one whose edge was lost is given up, and the step is charged once it is answered;
without, there is one hop, charged before the send. -/
def handOn (reselect : Bool) (walk : Option Nat) (ctx : WalkCtx) (candidates : List NodeId) :
    (next : NodeId) → (tried : List NodeId) → List LookupTry → StepRun
  | next, _, [] => ⟨[], .waiting, if reselect then ctx else ctx.charge next⟩
  | next, tried, t :: ts =>
    let left := if reselect then ctx else ctx.charge next
    let sendFailed := StepOutcome.ended (left.result .sendFailed)
    if reselect && !t.opened.connOk next then
      match ctx.pickNext t.opened candidates (next :: tried) with
      | some n => handOn reselect walk ctx candidates n (next :: tried) ts
      | none => ⟨[], sendFailed, left⟩
    else
      let frames := (t.attempt walk).1.map fun w => ⟨next, w, ctx.charge next⟩
      match (t.attempt walk).2 with
      | .done o => ⟨frames, o, ctx.charge next⟩
      | .failed => ⟨frames, sendFailed, left⟩
      | .edgeLoss =>
        if reselect then
          match ctx.pickNext t.after candidates (next :: tried) with
          | some n =>
            let rest := handOn reselect walk ctx candidates n (next :: tried) ts
            { rest with frames := frames ++ rest.frames }
          | none => ⟨frames, sendFailed, left⟩
        else ⟨frames, sendFailed, left⟩

namespace LookupInput

variable (x : LookupInput) (me : NodeId) (ctx : WalkCtx)

/-- The tables when the node falls back and chooses: those of the start, unless it waited for the
replacements of dead synapses. -/
def atChoice : RoutingView :=
  if ctx.deadSynapses me x.atStart = [] then x.atStart else x.afterEvict

/-- The candidates before the fallback. -/
def gathered : List NodeId :=
  ctx.candidates me x.atStart ++
    if ctx.deadSynapses me x.atStart = [] then [] else x.replacements.filter (ctx.onward me)

/-- The candidates. -/
def pool : List NodeId :=
  if x.gathered me ctx = [] then (ctx.fallback (x.atChoice me ctx)).toList else x.gathered me ctx

/-- The next node: the target itself, else at the source perhaps any candidate, else the best by the
lookahead. -/
def choose : Option NodeId :=
  match ctx.direct (x.atChoice me ctx) with
  | some id => some id
  | none =>
    let drawn := if me = ctx.sourceId then x.epsilon.bind ((x.pool me ctx)[·]?) else none
    match drawn with
    | some id => some id
    | none => bestByTwoHopAP x.lookahead ctx.targetKey (x.pool me ctx)

end LookupInput

/-- `_lookupStep`. Where no candidate has a score there is no next node, and the step raises. -/
def RoutingConfig.lookupStep (cfg : RoutingConfig) (me : NodeId) (ctx : WalkCtx)
    (walk : Option Nat) (x : LookupInput) : StepRun :=
  if distance ctx.targetKey me = 0 then ⟨[], .ended (ctx.result .found), ctx⟩
  else if cfg.maxHops ≤ ctx.hops then ⟨[], .ended (ctx.result .maxHops), ctx⟩
  else if x.pool me ctx = [] then ⟨[], .ended (ctx.result .stalled), ctx⟩
  else match x.choose me ctx with
  | none => ⟨[], .threw, ctx⟩
  | some next => handOn x.reselect walk ctx (x.pool me ctx) next [] x.tries

/-! ### The originator -/

/-- How far the originator's own step is. -/
inductive OriginStep where
  | begun
  /-- It has done what it does, and not returned; with the context as it will leave it. -/
  | ran (o : StepOutcome) (ctx : WalkCtx)
  /-- It has returned. -/
  | returned (o : StepOutcome)
deriving DecidableEq

/-- A lookup, at the node it started from. -/
structure LookupOrigin where
  me : NodeId
  /-- `LOOKUP_WALK` -/
  acked : Bool
  ctx : WalkCtx
  first : OriginStep
  /-- Does `_walksPending` hold it? -/
  pending : Bool
  /-- What it was settled with, at each call of `settle`. -/
  settled : List LookupResult
deriving DecidableEq

namespace LookupOrigin

/-- A lookup starts. -/
def start (me target : NodeId) (acked : Bool) : LookupOrigin :=
  ⟨me, acked, ⟨me, target, 0, [me], [me]⟩, .begun, acked, []⟩

/-- `finish`, and the timer: a walk that is not pending is left as it is. -/
def finish (o : LookupOrigin) (r : LookupResult) : LookupOrigin :=
  if o.pending then { o with pending := false, settled := o.settled ++ [r] } else o

/-- The originator's step returns. -/
def resume (o : LookupOrigin) : LookupOrigin :=
  match o.first with
  | .ran .waiting _ => o
  | .ran (.ended r) ctx => { o.finish r with first := .returned (.ended r), ctx := ctx }
  | .ran (.relayed r) ctx => { o.finish r with first := .returned (.relayed r), ctx := ctx }
  | .ran out ctx => { o with first := .returned out, ctx := ctx }
  | _ => o

/-- What `lookup` answers, once it does: a result, or that it raised (`none`). -/
def answer (o : LookupOrigin) : Option (Option LookupResult) :=
  match o.first with
  | .returned .threw => some none
  | .returned (.ended r) => if o.acked then o.settled.head?.map some else some (some r)
  | .returned (.relayed r) => if o.acked then o.settled.head?.map some else some (some r)
  | .returned .forwarded => if o.acked then o.settled.head?.map some else none
  | _ => none

end LookupOrigin

/-! ### The network -/

/-- A `lookup_done` on its way. -/
structure DoneFrame where
  dest : NodeId
  walk : Nat
  sourceId : NodeId
  result : LookupResult

/-- What a node did in one step. -/
structure WalkVisit where
  me : NodeId
  ctx : WalkCtx
  input : LookupInput
  run : StepRun

/-- The frames on their way, the lookups, each under its number, and what every node did. -/
structure LookupNet where
  frames : List WalkFrame
  dones : List DoneFrame
  origins : List LookupOrigin
  visits : List WalkVisit

/-- A network no lookup was started in. -/
def LookupNet.empty : LookupNet := ⟨[], [], [], []⟩

/-- What happens in the network. -/
inductive LookupAct where
  /-- A node starts a lookup. -/
  | lookup (me target : NodeId) (acked : Bool)
  /-- The first step of a lookup runs. -/
  | begin (k : Nat) (x : LookupInput)
  /-- It returns. -/
  | resume (k : Nat)
  /-- One of the frames sent arrives. -/
  | arrive (i : Nat) (x : LookupInput)
  /-- One of the results sent back arrives. -/
  | done (i : Nat)
  /-- The deadline of a lookup is up. -/
  | deadline (k : Nat)

/-- `walkPrev`: the node before this one on the path, at its last place on it. -/
def walkPrev (path : List NodeId) (self : NodeId) : Option NodeId :=
  go path.reverse
where
  /-- The path from its end. -/
  go : List NodeId → Option NodeId
  | a :: b :: rest => if a = self then some b else go (b :: rest)
  | _ => none

namespace LookupNet

/-- One lookup changes. -/
def modifyOrigin (s : LookupNet) (k : Nat) (f : LookupOrigin → LookupOrigin) : LookupNet :=
  { s with origins := s.origins.modify k f }

/-- A step of a walk, its frames on their way. -/
def visited (s : LookupNet) (v : WalkVisit) : LookupNet :=
  { s with frames := s.frames ++ v.run.frames, visits := s.visits ++ [v] }

/-- `_lookupWalkFinish`: a result at the source settles its lookup, elsewhere it goes back to the
node before. -/
def walkFinish (s : LookupNet) (me : NodeId) (r : LookupResult) (k : Nat) (sourceId : NodeId) :
    LookupNet :=
  if sourceId = me then s.modifyOrigin k fun o => if o.me = me then o.finish r else o
  else match walkPrev r.path me with
  | none => s
  | some prev => { s with dones := s.dones ++ [⟨prev, k, sourceId, r⟩] }

/-- The step of a walk that came by `lookup_walk` returns. -/
def stepReturned (s : LookupNet) (me : NodeId) (k : Nat) (run : StepRun) : LookupNet :=
  match run.outcome with
  | .ended r => s.walkFinish me r k run.ctx.sourceId
  | .relayed r => s.walkFinish me r k run.ctx.sourceId
  | .threw => s.walkFinish me (run.ctx.result .stepThrew) k run.ctx.sourceId
  | _ => s

/-- One act. -/
def step (cfg : RoutingConfig) (s : LookupNet) : LookupAct → LookupNet
  | .lookup me target acked => { s with origins := s.origins ++ [.start me target acked] }
  | .begin k x =>
    match s.origins[k]? with
    | none => s
    | some o =>
      if o.first = .begun then
        let run := cfg.lookupStep o.me o.ctx (if o.acked then some k else none) x
        (s.visited ⟨o.me, o.ctx, x, run⟩).modifyOrigin k fun o =>
          -- without re-selection the context is charged before the send
          { o with first := .ran run.outcome run.ctx, ctx := if x.reselect then o.ctx else run.ctx }
      else s
  | .resume k => s.modifyOrigin k LookupOrigin.resume
  | .arrive i x =>
    match s.frames[i]? with
    | none => s
    | some f =>
      let run := cfg.lookupStep f.dest f.ctx f.walk x
      let s := s.visited ⟨f.dest, f.ctx, x, run⟩
      match f.walk with
      | none => s
      | some k => s.stepReturned f.dest k run
  | .done i =>
    match s.dones[i]? with
    | none => s
    | some d => s.walkFinish d.dest d.result d.walk d.sourceId
  | .deadline k => s.modifyOrigin k fun o =>
    if o.acked then o.finish (o.ctx.result .walkDeadline) else o

end LookupNet

end Axona
