import Axona.Dht.Lookup

/-! # Lookup walks, await by await

`_lookupStep` as the calls that run it. A call waits before it sends, and again until it is
answered, acknowledged or told that the send failed; it is told so of frames that arrive all the
same. A frame that was sent may arrive never, once or often, and what arrives starts a call at its
node. A result is what a call built from its own context, or was answered with.

`reached` notes the nodes a walk came to; the code does not have it, nor the number of a lookup in
the frames of a recursive walk. -/

namespace Axona

open Library

/-- Why a walk ended, among nodes that come and go. -/
inductive WalkStop where
  | ended (r : StopReason)
  | nodeDown
  | stopped
deriving DecidableEq

/-- What a lookup ends with. -/
structure WalkResult where
  found : Bool
  stalled : Bool
  reason : WalkStop
  /-- The visited id nearest to the target. -/
  closest : Option NodeId
  path : List NodeId
  hops : Nat
deriving DecidableEq

/-- `_lookupResult` -/
def WalkCtx.walkResult (ctx : WalkCtx) (stop : WalkStop) : WalkResult where
  found := stop = .ended .found
  stalled := stop = .ended .stalled
  reason := stop
  closest := pickNearest ctx.targetKey ctx.path
  path := ctx.path
  hops := ctx.hops

/-- The hop a call is about to take: what its loop keeps from round to round. -/
structure Hop where
  next : NodeId
  tried : List NodeId
  candidates : List NodeId
  /-- `LOOKUP_RESELECT` -/
  reselect : Bool
deriving DecidableEq

/-- How far a call is. -/
inductive CallStage where
  | begun
  /-- Before the send: it makes room for the target and opens a channel to the next node. -/
  | trying (hop : Hop)
  /-- It waits for what becomes of a frame. -/
  | awaiting (hop : Hop) (frame : Nat)
  | ended (r : WalkResult)
  /-- `WALK_FORWARDED` -/
  | forwarded
  | threw
deriving DecidableEq

/-- A call of `_lookupStep`. -/
structure WalkCall where
  me : NodeId
  /-- Is it given the walk? -/
  walk : Bool
  /-- The frame it came by; none at the originator. -/
  via : Option Nat
  lookup : Nat
  ctx : WalkCtx
  stage : CallStage
deriving DecidableEq

namespace WalkCall

/-- The node the context names already, before the walk was taken there. -/
def charged (c : WalkCall) : Option NodeId :=
  match c.stage with
  | .trying hop => if hop.reselect then none else some hop.next
  | .awaiting hop _ => if hop.reselect then none else some hop.next
  | _ => none

/-- What it returned. -/
def result (c : WalkCall) : Option WalkResult :=
  match c.stage with
  | .ended r => some r
  | _ => none

/-- Does it wait for what becomes of a frame? -/
def isAwaiting (c : WalkCall) : Bool :=
  match c.stage with
  | .awaiting _ _ => true
  | _ => false

/-- `commit`: with re-selection the step is charged once it was taken. -/
def commit (c : WalkCall) (hop : Hop) : WalkCtx :=
  if hop.reselect then c.ctx.charge hop.next else c.ctx

end WalkCall

/-- `lookup_walk` or `lookup_step`. -/
structure CallFrame where
  dest : NodeId
  walk : Bool
  lookup : Nat
  ctx : WalkCtx
deriving DecidableEq

/-- `lookup_done` -/
structure DoneNote where
  dest : NodeId
  lookup : Nat
  sourceId : NodeId
  result : WalkResult
deriving DecidableEq

/-- A lookup, at the node it started from: its own call, and what the acked walk was settled with. -/
structure WalkOrigin where
  me : NodeId
  target : NodeId
  acked : Bool
  call : Nat
  pending : Bool
  settled : List WalkResult
deriving DecidableEq

/-- `finish` -/
def WalkOrigin.finish (o : WalkOrigin) (r : WalkResult) : WalkOrigin :=
  if o.pending then { o with pending := false, settled := o.settled ++ [r] } else o

structure WalkNet where
  calls : List WalkCall
  frames : List CallFrame
  dones : List DoneNote
  origins : List WalkOrigin
  reached : List (Nat × NodeId)

/-- What the choice of a hop comes to. -/
inductive Opening where
  | ended (stop : WalkStop)
  | threw
  | tries (hop : Hop)

/-- `_lookupStep` as far as the choice of the next hop. -/
def RoutingConfig.opening (cfg : RoutingConfig) (me : NodeId) (ctx : WalkCtx) (alive : Bool)
    (x : LookupInput) : Opening :=
  if !alive then .ended .nodeDown
  else if distance ctx.targetKey me = 0 then .ended (.ended .found)
  else if cfg.maxHops ≤ ctx.hops then .ended (.ended .maxHops)
  else if x.pool me ctx = [] then .ended (.ended .stalled)
  else match x.choose me ctx with
  | none => .threw
  | some next => .tries ⟨next, [], x.pool me ctx, x.reselect⟩

inductive WalkAct where
  /-- A node starts a lookup. -/
  | lookup (me target : NodeId) (acked : Bool)
  /-- A call gathers its candidates and chooses. -/
  | begin (i : Nat) (alive : Bool) (x : LookupInput)
  /-- It sends, if the tables still show the next node connected. -/
  | send (i : Nat) (v : RoutingView)
  /-- A frame arrives. -/
  | arrive (f : Nat)
  /-- The acknowledgement of a `lookup_walk` comes back. -/
  | acked (i : Nat)
  /-- The next node has no handler for `lookup_walk`. -/
  | noHandler (i : Nat)
  /-- The result of the call `j` comes back to the call `i`. -/
  | reply (i j : Nat)
  /-- The send fails, with an error that `isEdgeLoss` knows or another one. -/
  | fail (i : Nat) (edgeLoss : Bool) (v : RoutingView)
  /-- A `lookup_done` arrives. -/
  | done (n : Nat)
  | deadline (k : Nat)
  /-- `_settleWalksPending` -/
  | stop (k : Nat)

namespace WalkNet

/-- No lookup was started. -/
def empty : WalkNet := ⟨[], [], [], [], []⟩

/-- A lookup is settled, unless it was before. -/
def settle (s : WalkNet) (k : Nat) (r : WalkResult) : WalkNet :=
  { s with origins := s.origins.modify k (·.finish r) }

/-- `_lookupWalkFinish` -/
def walkFinish (s : WalkNet) (me : NodeId) (k : Nat) (sourceId : NodeId) (r : WalkResult) :
    WalkNet :=
  if sourceId = me then
    { s with origins := s.origins.modify k fun o => if o.me = me then o.finish r else o }
  else match walkPrev r.path me with
  | none => s
  | some prev => { s with dones := s.dones ++ [⟨prev, k, sourceId, r⟩] }

def setCall (s : WalkNet) (i : Nat) (c : WalkCall) : WalkNet := { s with calls := s.calls.set i c }

/-- A call returns a result: the originator settles its walk with it, a node that took the walk sends
it back, and one that was sent a `lookup_step` answers with it. -/
def conclude (s : WalkNet) (i : Nat) (c : WalkCall) (r : WalkResult) : WalkNet :=
  let s := s.setCall i { c with stage := .ended r }
  match c.walk, c.via with
  | true, none => s.settle c.lookup r
  | true, some _ => s.walkFinish c.me c.lookup c.ctx.sourceId r
  | false, _ => s

/-- A call raises; where it had taken the walk, that is its result. -/
def raise (s : WalkNet) (i : Nat) (c : WalkCall) : WalkNet :=
  let s := s.setCall i { c with stage := .threw }
  match c.walk, c.via with
  | true, some _ =>
    s.walkFinish c.me c.lookup c.ctx.sourceId (c.ctx.walkResult (.ended .stepThrew))
  | _, _ => s

/-- `tryNext`: the next candidate, or the end of the walk. -/
def tryNext (s : WalkNet) (i : Nat) (c : WalkCall) (hop : Hop) (v : RoutingView) : WalkNet :=
  match c.ctx.pickNext v hop.candidates (hop.next :: hop.tried) with
  | some n => s.setCall i
      { c with stage := .trying { hop with next := n, tried := hop.next :: hop.tried } }
  | none => s.conclude i c (c.ctx.walkResult (.ended .sendFailed))

/-- A call sends a frame and waits. -/
def sendFrame (s : WalkNet) (i : Nat) (c : WalkCall) (hop : Hop) (f : CallFrame) : WalkNet :=
  { s.setCall i { c with stage := .awaiting hop s.frames.length } with frames := s.frames ++ [f] }

/-- Some call came by the frame. -/
def Arrived (s : WalkNet) (f : Nat) : Prop := ∃ c ∈ s.calls, c.via = some f

instance (s : WalkNet) (f : Nat) : Decidable (s.Arrived f) :=
  inferInstanceAs (Decidable (∃ c ∈ s.calls, c.via = some f))

/-- A walk that is waited for no longer ends with what its originator's step has come to. -/
def expire (s : WalkNet) (k : Nat) (stop : WalkStop) : WalkNet :=
  match s.origins[k]? with
  | none => s
  | some o => match s.calls[o.call]? with
    | none => s
    | some c => s.settle k (c.ctx.walkResult stop)

def step (cfg : RoutingConfig) (s : WalkNet) : WalkAct → WalkNet
  | .lookup me target acked =>
    { s with
      calls := s.calls ++ [⟨me, acked, none, s.origins.length, ⟨me, target, 0, [me], [me]⟩, .begun⟩]
      origins := s.origins ++ [⟨me, target, acked, s.calls.length, acked, []⟩]
      reached := (s.origins.length, me) :: s.reached }
  | .begin i alive x =>
    match s.calls[i]? with
    | none => s
    | some c => match c.stage with
      | .begun => match cfg.opening c.me c.ctx alive x with
        | .ended stop => s.conclude i c (c.ctx.walkResult stop)
        | .threw => s.raise i c
        | .tries hop => s.setCall i { c with
            ctx := if hop.reselect then c.ctx else c.ctx.charge hop.next
            stage := .trying hop }
      | _ => s
  | .send i v =>
    match s.calls[i]? with
    | none => s
    | some c => match c.stage with
      | .trying hop =>
        if hop.reselect && !v.connOk hop.next then s.tryNext i c hop v
        else s.sendFrame i c hop ⟨hop.next, c.walk, c.lookup, c.commit hop⟩
      | _ => s
  | .arrive f =>
    match s.frames[f]? with
    | none => s
    | some fr =>
      { s with
        calls := s.calls ++ [⟨fr.dest, fr.walk, some f, fr.lookup, fr.ctx, .begun⟩]
        reached := (fr.lookup, fr.dest) :: s.reached }
  | .acked i =>
    match s.calls[i]? with
    | none => s
    | some c => match c.stage with
      | .awaiting hop f =>
        if (s.frames[f]?).any (·.walk) ∧ s.Arrived f then
          s.setCall i { c with ctx := c.commit hop, stage := .forwarded }
        else s
      | _ => s
  | .noHandler i =>
    match s.calls[i]? with
    | none => s
    | some c => match c.stage with
      | .awaiting hop f => match s.frames[f]? with
        | none => s
        | some fr => if fr.walk then s.sendFrame i c hop { fr with walk := false } else s
      | _ => s
  | .reply i j =>
    match s.calls[i]?, s.calls[j]? with
    | some c, some d => match c.stage, d.stage with
      | .awaiting hop f, .ended r =>
        if d.via = some f ∧ d.walk = false then s.conclude i { c with ctx := c.commit hop } r else s
      | _, _ => s
    | _, _ => s
  | .fail i edgeLoss v =>
    match s.calls[i]? with
    | none => s
    | some c => match c.stage with
      | .awaiting hop _ =>
        if hop.reselect && edgeLoss then s.tryNext i c hop v
        else s.conclude i c (c.ctx.walkResult (.ended .sendFailed))
      | _ => s
  | .done n =>
    match s.dones[n]? with
    | none => s
    | some d => s.walkFinish d.dest d.lookup d.sourceId d.result
  | .deadline k => s.expire k (.ended .walkDeadline)
  | .stop k => s.expire k .stopped

/-- What `lookup` answers: an acked walk with what it was settled with first, a recursive one with
the result of its own step. -/
def answer (s : WalkNet) (k : Nat) : Option WalkResult :=
  s.origins[k]?.bind fun o =>
    if o.acked then o.settled.head?
    else (s.calls[o.call]?).bind (·.result)

/-- The target of a lookup. -/
def target (s : WalkNet) (k : Nat) : Option NodeId := (s.origins[k]?).map (·.target)

/-- A result of a lookup, wherever it is: returned by a call, on its way back, or settled with. -/
def IsResult (s : WalkNet) (k : Nat) (r : WalkResult) : Prop :=
  (∃ c ∈ s.calls, c.lookup = k ∧ c.result = some r)
    ∨ (∃ d ∈ s.dones, d.lookup = k ∧ d.result = r)
    ∨ ∃ o, s.origins[k]? = some o ∧ r ∈ o.settled

/-- The walk came to every node of the path, and `closest` is the nearest of them. -/
structure Visited (s : WalkNet) (k : Nat) (r : WalkResult) : Prop where
  path : ∀ id ∈ r.path, (k, id) ∈ s.reached
  closest : ∀ id ∈ r.closest, id ∈ r.path
    ∧ ∀ target ∈ s.target k, ∀ id' ∈ r.path, distance target id ≤ distance target id'

/-- The call whose walk an act gives up on. -/
def givesUp (s : WalkNet) : WalkAct → Option WalkCall
  | .fail i _ _ => (s.calls[i]?).filter (·.isAwaiting)
  | .deadline k => (s.origins[k]?).bind fun o => if o.pending then s.calls[o.call]? else none
  | .stop k => (s.origins[k]?).bind fun o => if o.pending then s.calls[o.call]? else none
  | _ => none

/-- Whoever gives up on a walk has not named a node in it that the walk has not come to. -/
def NamesReached (s : WalkNet) (a : WalkAct) : Prop :=
  ∀ c ∈ s.givesUp a, ∀ id ∈ c.charged, (c.lookup, id) ∈ s.reached

instance (s : WalkNet) (a : WalkAct) : Decidable (s.NamesReached a) :=
  inferInstanceAs (Decidable (∀ c ∈ s.givesUp a, ∀ id ∈ c.charged, (c.lookup, id) ∈ s.reached))

end WalkNet

end Axona
