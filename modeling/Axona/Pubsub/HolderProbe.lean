import Axona.Pubsub.Step

/-! # The probe for a holder

A root whose cache is empty asks other nodes for the topic's history (`repairPlane.js`), a few of
them at a time, and of these tries it makes few. With the option `holderProbe` (`holderProbe.js`) a
pull carries a nonce, and a node that has no role for the topic says so: a try that all answer in
this way does not count, and what bounds the probe then is a budget of pulls and a time.

`Prober` is a node with what its roles keep for this, kept beside the roles as the manager keeps it
in their `sync`. `pulls` is what was sent. Of a try, the code keeps `targets`, `nacked` and
`counted`; the rest is written down here of what happened to it. -/

namespace Axona

open Library

/-! ### Constants -/

/-- How many tries count. -/
def emptyRootProbeMax : Nat := 3

def emptyRootProbeIntervalMs : Int := 5000

/-- How many nodes a try asks. -/
def emptyRootProbeFanout : Nat := 4

/-- The budget of pulls. -/
def holderProbeFrames : Nat := 32

/-- How long after the first try there may be another. -/
def holderProbeWindowMs : Int := 300000

def evidenceMax : Nat := 16

def rolelessMax : Nat := 64

/-! ### What is kept -/

/-- A set of nodes, in the order in which they came. -/
abbrev IdSet := OrderedMap NodeId Unit

/-- `Set.add`, one after the other. -/
def IdSet.addAll (s : IdSet) (ids : List NodeId) : IdSet := ids.foldl (fun s b => s.set b ()) s

/-- `Set.delete`, one after the other. -/
def IdSet.deleteAll (s : IdSet) (ids : List NodeId) : IdSet := ids.foldl OrderedMap.delete s

/-- What became of a try. -/
inductive ProbeOutcome where
  /-- Its verdicts are not in. -/
  | waiting
  /-- When they came, the topic had no root here. -/
  | dropped
  /-- They came, and these are the targets that were reached: all of them, if the adapter tells
  nothing. -/
  | settled (reached : List NodeId)
deriving DecidableEq, Repr

/-- A try, `probeOut`. -/
structure ProbeTry where
  targets : IdSet
  nacked : IdSet := ∅
  counted : Bool := false
  /-- The topic it was made for, and by which role. -/
  topic : TopicId
  role : RoleRef
  /-- The nodes that answered that they have no role. -/
  answered : List NodeId := []
  outcome : ProbeOutcome := .waiting

/-- What a role keeps for the probe. -/
structure ProbeSync where
  probeTries : Nat := 0
  probeAt : Int := 0
  probeDeferred : Bool := false
  probeDeferrals : Nat := 0
  probeDeferredAt : Int := 0
  probeInflight : Bool := false
  probeEvidence : IdSet := ∅
  roleless : IdSet := ∅
  /-- The nodes that were asked, once there is such a set. -/
  probed : Option IdSet := none
  /-- The nonce of the last try. -/
  probeOut : Option Nat := none
  probeStart : Option Int := none
  probeFrames : Nat := 0
  /-- `holderDegraded` is `'no-holder-found'`. -/
  holderDegraded : Bool := false
  /-- How many of the tries that count carry no nonce. -/
  otherTries : Nat := 0

/-- A PULLUP that was sent for a role, with its nonce. -/
structure ProbePull where
  role : RoleRef
  topic : TopicId
  target : NodeId
  probe : Option Nat
deriving DecidableEq, Repr

/-- A handler that awaits. -/
inductive ProbeStage where
  /-- `_emptyRootProbeTry`, its lookups; with the candidates so far. -/
  | gathering (t : TopicId) (cand : IdSet)
  /-- `_emptyRootProbeTry`, the verdicts of its pulls; does the adapter tell verdicts? -/
  | awaiting (t : TopicId) (out : Option Nat) (sends : List NodeId) (declares : Bool)
  /-- `_readRepair`, its lookup. -/
  | repairing (t : TopicId) (ρ : RoleRef)

structure ProbeConfig extends Config where
  holderProbe : Bool

structure Prober where
  node : Node
  sync : RoleRef → ProbeSync := fun _ => {}
  /-- The tries, by their nonces. A nonce is random, and no two are the same. -/
  tries : OrderedMap Nat ProbeTry := ∅
  nextTry : Nat := 0
  parked : OrderedMap Nat ProbeStage := ∅
  nextParked : Nat := 0
  pulls : List ProbePull := []

namespace Prober

variable (cfg : ProbeConfig)

def modifySync (s : Prober) (ρ : RoleRef) (f : ProbeSync → ProbeSync) : Prober :=
  { s with sync := Function.update s.sync ρ (f (s.sync ρ)) }

/-- Suspend a handler. -/
def park (s : Prober) (p : ProbeStage) : Prober :=
  { s with parked := s.parked.set s.nextParked p, nextParked := s.nextParked + 1 }

/-- The root of a topic here. -/
def rootAt (s : Prober) (t : TopicId) : Option RoleRef :=
  (s.node.roleAt t).filter fun ρ => (s.node.role ρ).isRoot

/-- The root of a topic here, while it holds nothing. -/
def emptyRootAt (s : Prober) (t : TopicId) : Option RoleRef :=
  (s.rootAt t).filter fun ρ => (s.node.role ρ).cache = []

/-! ### Evidence and budget -/

/-- `_noteProbeEvidence`: a SUB at an empty root names who may hold history. -/
def noteProbeEvidence (s : Prober) (t : TopicId) (sub : NodeId) (hw : Option Int)
    (via : List NodeId) : Prober :=
  match (s.emptyRootAt t).filter fun _ => cfg.holderProbe with
  | none => s
  | some ρ =>
    let named := (if (hw.any fun h => 0 < h) then [sub] else []) ++ via
    s.modifySync ρ fun y => { y with
      probeEvidence := named.foldl (fun ev x =>
        if x ≠ cfg.nodeId && ev.size < evidenceMax then ev.set x () else ev) y.probeEvidence }

/-- `_probeBudgetSpent`, the question. -/
def probeBudgetSpent (s : Prober) (ρ : RoleRef) : Bool :=
  cfg.holderProbe && (holderProbeFrames ≤ (s.sync ρ).probeFrames
    || (s.sync ρ).probeStart.any fun start => holderProbeWindowMs ≤ s.node.now - start)

/-- `_probeBudgetSpent`, what it marks. -/
def markDegraded (s : Prober) (ρ : RoleRef) : Prober :=
  s.modifySync ρ fun y => { y with holderDegraded := true }

/-! ### The probe -/

/-- `_emptyRootProbe`, up to the lookups. -/
def emptyRootProbe (s : Prober) (t : TopicId) : Prober :=
  match s.emptyRootAt t with
  | none => s
  | some ρ =>
    if s.probeBudgetSpent cfg ρ then s.markDegraded ρ
    else if emptyRootProbeMax ≤ (s.sync ρ).probeTries || (s.sync ρ).probeInflight then s
    else
      let s := s.modifySync ρ fun y => { y with probeInflight := true, probeAt := s.node.now }
      s.park (.gathering t
        (IdSet.addAll ∅ ((s.sync ρ).probeEvidence.keys.filter fun b => b ≠ cfg.nodeId)))

/-- `_emptyRootProbe`, its `finally`. -/
def probeOver (s : Prober) (t : TopicId) : Prober :=
  (s.node.roleAt t).elim s fun ρ => s.modifySync ρ fun y => { y with probeInflight := false }

/-- What the lookups brought: the nodes of the topic's cohort, the path of the iterative lookup,
which nodes this one has a channel to, and whether the adapter tells verdicts. -/
structure Gathered where
  closest : List NodeId
  path : List NodeId
  reach : NodeId → Bool
  declares : Bool

/-- The candidates of a try. -/
def candidates (cand : IdSet) (x : Gathered) : IdSet :=
  cand.addAll ((x.closest ++ x.path).filter fun b => b ≠ cfg.nodeId)

/-- `rank` -/
def probeRank (y : ProbeSync) (path : List NodeId) (b : NodeId) : Nat :=
  if y.probeEvidence.has b then 0 else if b ∈ path then 1 else 2

/-- `_orderProbeCandidates` with the option, and the order without it. -/
def orderProbeCandidates (y : ProbeSync) (cand : IdSet) (x : Gathered) : List NodeId :=
  if cfg.holderProbe then
    (cand.keys.filter fun b => !y.roleless.has b).insertionSort fun a b =>
      probeRank y x.path a < probeRank y x.path b
        ∨ probeRank y x.path a = probeRank y x.path b ∧ (x.reach a = true ∨ x.reach b = false)
  else cand.keys.insertionSort fun a b => x.reach a = true ∨ x.reach b = false

/-- The nodes to ask: those that were not asked before, as long as there are any. -/
def pickTargets (y : ProbeSync) (ordered : List NodeId) : List NodeId :=
  let fresh := ordered.filter fun b => !(y.probed.getD ∅).has b
  (if fresh ≠ [] then fresh else ordered).take emptyRootProbeFanout

/-- The try that is opened after the lookups: by which role, and whom it asks. -/
def opening (s : Prober) (t : TopicId) (cand : IdSet) (x : Gathered) :
    Option (RoleRef × List NodeId) :=
  (s.emptyRootAt t).bind fun ρ =>
    if s.probeBudgetSpent cfg ρ then none
    else
      let targets := pickTargets (s.sync ρ)
        (orderProbeCandidates cfg (s.sync ρ) (candidates cfg cand x) x)
      if targets = [] then none else some (ρ, targets)

/-- `_openProbeTry` -/
def openProbeTry (s : Prober) (t : TopicId) (ρ : RoleRef) (targets : List NodeId) : Prober :=
  let s := s.modifySync ρ fun y => { y with
    probeOut := some s.nextTry
    probeStart := some (y.probeStart.getD s.node.now)
    probeFrames := y.probeFrames + targets.length }
  { s with
    tries := s.tries.set s.nextTry { targets := IdSet.addAll ∅ targets, topic := t, role := ρ }
    nextTry := s.nextTry + 1 }

/-- The pulls of a try. -/
def sendPulls (s : Prober) (t : TopicId) (ρ : RoleRef) (probe : Option Nat)
    (targets : List NodeId) : Prober :=
  { s with pulls := targets.map (fun b => ⟨ρ, t, b, probe⟩) ++ s.pulls }

/-- What an empty root marks before it picks its targets. -/
def markGathered (s : Prober) (t : TopicId) (cand : IdSet) (x : Gathered) : Prober :=
  (s.emptyRootAt t).elim s fun ρ =>
    if s.probeBudgetSpent cfg ρ then s.markDegraded ρ
    else if (candidates cfg cand x).keys = [] then s
    else s.modifySync ρ fun y => { y with probed := some (y.probed.getD ∅) }

/-- `_emptyRootProbeTry`, from the lookups to the sends. -/
def probeGathered (s : Prober) (t : TopicId) (cand : IdSet) (x : Gathered) : Prober :=
  let opened := s.opening cfg t cand x
  let s := s.markGathered cfg t cand x
  match opened with
  | none => s.probeOver t
  | some (ρ, targets) =>
    if cfg.holderProbe then
      ((s.openProbeTry t ρ targets).sendPulls t ρ (some s.nextTry) targets).park
        (.awaiting t (some s.nextTry) targets x.declares)
    else (s.sendPulls t ρ none targets).park (.awaiting t none targets x.declares)

/-! ### The verdicts -/

def modifyTry (s : Prober) (k : Nat) (f : ProbeTry → ProbeTry) : Prober :=
  (s.tries.get k).elim s fun o => { s with tries := s.tries.set k (f o) }

/-- Did every target of a try answer, as far as the try knows? -/
def allNacked (s : Prober) (k : Nat) : Bool :=
  (s.tries.get k).any fun o => o.nacked.size = o.targets.size

/-- What the verdicts leave of the targets: those that were not reached go, if some were. -/
def leftTargets (o : ProbeTry) (sends : List NodeId) (declares : Bool) (consumed : NodeId → Bool) :
    IdSet :=
  if declares && sends.filter consumed ≠ [] then
    IdSet.deleteAll o.targets (sends.filter fun b => !consumed b)
  else o.targets

def dropUnreached (s : Prober) (k : Nat) (sends : List NodeId) (declares : Bool)
    (consumed : NodeId → Bool) : Prober :=
  s.modifyTry k fun o => { o with targets := leftTargets o sends declares consumed }

/-- The verdicts of a try are in. -/
def conclude (s : Prober) (outcome : ProbeOutcome) (counted : Bool) : Option Nat → Prober
  | none => s
  | some k => s.modifyTry k fun o => { o with counted := o.counted || counted, outcome := outcome }

/-- A try counts. -/
def countTry (s : Prober) (ρ : RoleRef) (sends : List NodeId) (out : Option Nat) : Prober :=
  s.modifySync ρ fun y => { y with
    probeTries := y.probeTries + 1
    otherTries := if out.isNone then y.otherTries + 1 else y.otherTries
    probeDeferred := false
    probed := y.probed.map (·.addAll sends) }

/-- `_emptyRootProbeTry`, from the verdicts on: by which nodes was its pull consumed? Where a role
has no set of nodes that were asked, to add to it throws, and all else was done before. -/
def probeVerdicts (s : Prober) (t : TopicId) (out : Option Nat) (sends : List NodeId)
    (declares : Bool) (consumed : NodeId → Bool) : Prober :=
  match s.rootAt t with
  | none => (s.conclude .dropped false out).probeOver t
  | some ρ =>
    let reached := if declares then sends.filter consumed else sends
    let s := out.elim s fun k => s.dropUnreached k sends declares consumed
    if declares && sends.filter consumed = [] then
      ((s.conclude (.settled reached) false out).modifySync ρ fun y => { y with
        probeDeferred := true
        probeDeferrals := y.probeDeferrals + 1
        probeDeferredAt := s.node.now }).probeOver t
    else if out.any fun k => (s.sync ρ).probeOut = some k && s.allNacked k then
      ((s.conclude (.settled reached) false out).modifySync ρ fun y => { y with
        probeDeferred := false
        probed := y.probed.map (·.addAll sends) }).probeOver t
    else ((s.conclude (.settled reached) true out).countTry ρ sends out).probeOver t

/-! ### The answers -/

/-- An answer that came, whatever is made of it. -/
def noteAnswer (s : Prober) (t : TopicId) (corr : Nat) (sender : NodeId) : Prober :=
  s.modifyTry corr fun o =>
    if o.topic = t then { o with answered := sender :: o.answered } else o

/-- A set with its oldest members beyond the limit gone. -/
def trimRoleless (s : IdSet) : IdSet := OrderedMap.dropOldest^[s.size - rolelessMax] s

/-- A try of a role hears a target that has no role. If it counts and this was the last target, it
counts no longer. -/
def hearNack (s : Prober) (ρ : RoleRef) (corr : Nat) (sender : NodeId) (o : ProbeTry) : Prober :=
  let nacked := o.nacked.set sender ()
  let refund := nacked.size = o.targets.size && o.counted
  let s := s.modifyTry corr fun o =>
    { o with nacked := nacked, counted := o.counted && !refund }
  s.modifySync ρ fun y => { y with
    roleless := trimRoleless (y.roleless.set sender ())
    probeTries := if refund then y.probeTries - 1 else y.probeTries }

/-- `_onProbeNack`: a node says that it has no role. -/
def onProbeNack (s : Prober) (t : TopicId) (corr : Nat) (sender : NodeId) : Prober :=
  let s := s.noteAnswer t corr sender
  match (s.node.roleAt t).filter fun ρ => (s.sync ρ).probeOut = some corr with
  | none => s
  | some ρ =>
    match (s.tries.get corr).filter fun o => o.targets.has sender with
    | none => s
    | some o => s.hearNack ρ corr sender o

/-! ### The sweep, and the repair of a reader -/

/-- `_emptyRootProbeSweep`, for one topic. -/
def emptyRootProbeSweep (s : Prober) (t : TopicId) : Prober :=
  match s.node.roleAt t with
  | none => s
  | some ρ =>
    let y := s.sync ρ
    if !(s.node.role ρ).isRoot || (s.node.role ρ).cache ≠ [] then
      if y.holderDegraded && (s.node.role ρ).cache ≠ [] then
        s.modifySync ρ fun y => { y with holderDegraded := false }
      else s
    else if y.holderDegraded || y.probeInflight || emptyRootProbeMax ≤ y.probeTries then s
    else if y.probeDeferred then
      if emptyRootProbeMax ≤ y.probeDeferrals
        || (!s.node.world.serving && s.node.now - y.probeDeferredAt < 4 * emptyRootProbeIntervalMs)
      then s
      else s.emptyRootProbe cfg t
    else if s.node.now - y.probeAt < emptyRootProbeIntervalMs then s
    else s.emptyRootProbe cfg t

/-- May a reader's role be repaired? -/
def repairs (s : Prober) (t : TopicId) : Bool :=
  t ∈ s.node.mySubscriptions && (s.node.upstream.get t).isNone

/-- `_readRepair`, up to the lookup. The tries of a reader's role are in the same ledger. -/
def readRepair (s : Prober) (t : TopicId) : Prober :=
  if !s.repairs t || (s.node.roleAt t).any (fun ρ => (s.node.role ρ).isRoot
      || (s.node.role ρ).cache ≠ [] || (s.node.role ρ).backupOf.isSome || t ∈ s.node.backupTopics)
  then s
  else
    let s := { s with node := s.node.perform cfg.toConfig (.readRepair t) }
    match (s.node.roleAt t).filter fun ρ => (s.node.role ρ).readHolder with
    | none => s
    | some ρ =>
      if emptyRootProbeMax ≤ (s.sync ρ).probeTries
        || s.node.now - (s.sync ρ).probeAt < emptyRootProbeIntervalMs then s
      else
        (s.modifySync ρ fun y => { y with probeAt := s.node.now }).park (.repairing t ρ)

/-- `_readRepair`, from the lookup on: the nodes of the cohort that may be asked, and which of them
this node has a channel to. -/
def repairGathered (s : Prober) (t : TopicId) (ρ : RoleRef) (cand : List NodeId)
    (reach : NodeId → Bool) : Prober :=
  if !s.repairs t || s.node.roleAt t ≠ some ρ || (s.node.role ρ).isRoot
    || (s.node.role ρ).cache ≠ [] || cand = [] then s
  else
    let ordered := (IdSet.addAll ∅ cand).keys.insertionSort fun a b =>
      reach a = true ∨ reach b = false
    let targets := pickTargets (s.sync ρ) ordered
    (s.modifySync ρ fun y => { y with
      probed := some ((y.probed.getD ∅).addAll targets)
      probeTries := y.probeTries + 1
      otherTries := y.otherTries + 1 }).sendPulls t ρ none targets

end Prober

/-! ### Steps -/

/-- What a suspended handler is resumed with. -/
inductive ProbeResume where
  | gathered (x : Prober.Gathered)
  | verdicts (consumed : NodeId → Bool)
  | cohort (cand : List NodeId) (reach : NodeId → Bool)

/-- What runs next. -/
inductive ProbeAct where
  /-- Something of the node's. -/
  | node (a : Act)
  /-- The timer of a fresh root. -/
  | timer (t : TopicId)
  | sweep (t : TopicId)
  /-- The rest of the handling of a SUB. -/
  | evidence (t : TopicId) (sub : NodeId) (hw : Option Int) (via : List NodeId)
  | nack (t : TopicId) (corr : Nat) (sender : NodeId)
  | readRepair (t : TopicId)
  /-- A handler that awaited runs on. -/
  | resume (j : Nat) (with' : ProbeResume)

namespace Prober

variable (cfg : ProbeConfig)

/-- A suspended handler runs on, with what it waited for. -/
def continueWith (s : Prober) : ProbeStage → ProbeResume → Prober
  | .gathering t cand, .gathered x => s.probeGathered cfg t cand x
  | .awaiting t out sends declares, .verdicts consumed =>
    s.probeVerdicts t out sends declares consumed
  | .repairing t ρ, .cohort cand reach => s.repairGathered t ρ cand reach
  | _, _ => s

/-- Resume the handler suspended under `j`, if there is one. -/
def resume (s : Prober) (j : Nat) (r : ProbeResume) : Prober :=
  match s.parked.get j with
  | none => s
  | some p => { s with parked := s.parked.delete j }.continueWith cfg p r

/-- Run one act. -/
def perform (s : Prober) : ProbeAct → Prober
  | .node a => { s with node := s.node.perform cfg.toConfig a }
  | .timer t => s.emptyRootProbe cfg t
  | .sweep t => s.emptyRootProbeSweep cfg t
  | .evidence t sub hw via => s.noteProbeEvidence cfg t sub hw via
  | .nack t corr sender => s.onProbeNack t corr sender
  | .readRepair t => s.readRepair cfg t
  | .resume j r => s.resume cfg j r

/-- The state in another world. -/
def enter (s : Prober) (w : World) : Prober := { s with node := { s.node with world := w } }

/-- One step: the world changes, and the act runs in it. -/
def step (s : Prober) (a : World × ProbeAct) : Prober := (s.enter a.1).perform cfg a.2

/-- A node that has just started. -/
def boot (w : World) : Prober := { node := Node.boot w }

end Prober

end Axona
