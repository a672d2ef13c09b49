import Axona.Pubsub.Step

/-! # The successor gate

A winner that is no service cannot promise that its cache survives. With the gate on, the loser of a
merge holds step 5 back from such a winner until a second node is known to hold the topic: one that
is not the winner and not on its host, and that advertised what the root holds now in a SUB of the
last renewal interval. What the SUBs said is kept for each role beside the node, and with it the
host that each winner named when its export was bound. -/

namespace Axona

open Library

/-! ### Successors -/

/-- A seat renews itself this often at the latest. -/
def renewMs : Int := 60000

/-- How many successors a role remembers. -/
def successorsMax : Nat := 32

/-- How a node came to be a successor: it served a handover that this node won, or it is a backup,
by its seat or by the root's own list. -/
inductive Via where
  | loser
  | standby
  | replica
deriving DecidableEq, Repr

/-- What a successor last said, and when. -/
structure Successor where
  hw : Int
  heardAt : Int
  host : Option Text
  via : Via
deriving DecidableEq, Repr

/-- A SUB, as far as the gate reads it. Whether its seat is a standby's, and whether the root counts
its sender among its replicas, the role knows. -/
structure SuccessorSub where
  subscriber : NodeId
  hw : Option Int
  host : Option Text
  standby : Bool
  replica : Bool

/-- A node, with what the gate remembers: the successors of each role, and the host of the winner of
each export. `confirmations` lists what was ever written down of a successor. -/
structure Gated where
  node : Node
  successors : RoleRef → OrderedMap NodeId Successor
  winnerHost : ExportRef → Option Text
  confirmations : List (RoleRef × NodeId × Successor)

/-- Do both name a host, and the same one? -/
def sameHost : Option Text → Option Text → Bool
  | some a, some b => a ≠ [] && a = b
  | _, _ => false

namespace Gated

variable (cfg : Config)

/-- Write down what a successor of a role said. -/
def remember (s : Gated) (ρ : RoleRef) (sub : NodeId) (y : Successor) : Gated :=
  { s with
    successors := Function.update s.successors ρ ((s.successors ρ).set sub y)
    confirmations := (ρ, sub, y) :: s.confirmations }

/-- A role forgets its oldest successors beyond the limit. -/
def trim (s : Gated) (ρ : RoleRef) : Gated :=
  let known := s.successors ρ
  { s with
    successors := Function.update s.successors ρ
      (OrderedMap.dropOldest^[known.size - successorsMax] known) }

/-- `_noteSuccessorSub`, root side: remember what a would-be successor advertised. -/
def noteSuccessorSub (s : Gated) (ρ : RoleRef) (f : SuccessorSub) : Gated :=
  if !cfg.successorGate || !(s.node.role ρ).isRoot then s
  else
    let loser := ((s.successors ρ).get f.subscriber).any fun prior => prior.via = .loser
    if !(f.standby || f.replica || loser) then s
    else
      (s.remember ρ f.subscriber ⟨f.hw.getD 0, s.node.now, f.host.map (·.take 32),
        if loser then .loser else if f.standby then .standby else .replica⟩).trim ρ

/-- `_noteLoserSuccessor`: the loser of a staged handover served the whole pull. -/
def noteLoserSuccessor (s : Gated) (ρ : RoleRef) (loser : NodeId) : Gated :=
  if cfg.successorGate then
    s.remember ρ loser ⟨(s.node.role ρ).highWater, s.node.now, none, .loser⟩
  else s

/-- Is the successor current, for a root whose high water is `need`: not the winner, not on its
host, and renewed of late at or above it? -/
def isSecondHolder (now need : Int) (winner : NodeId) (host : Option Text) (sub : NodeId)
    (y : Successor) : Bool :=
  sub ≠ winner && !(renewMs < now - y.heardAt) && !(y.hw < need) && !sameHost host y.host

/-- `_secondHolderCurrent`, for an export of a role. -/
def secondHolderCurrent (s : Gated) (ρ : RoleRef) (x : ExportRef) : Bool :=
  (s.successors ρ).entries.any fun e => isSecondHolder s.node.now (s.node.role ρ).highWater
    (s.node.exports.get x).winner (s.winnerHost x) e.1 e.2

/-- What the gate says of the export of an exchange, where there is one. -/
def secondHolderOf (s : Gated) (t : TopicId) (corr : Corr) : Bool :=
  (s.node.roleAt t).any fun ρ =>
    ((s.node.role ρ).openMerges.get corr).any fun x => s.secondHolderCurrent ρ x

/-- An act of the node: the two that run step 5 ask the gate. -/
def asks (s : Gated) : Act → Act
  | .replayAck a _ => .replayAck a (s.secondHolderOf a.topicId a.corr)
  | .step5Tick t corr _ => .step5Tick t corr (s.secondHolderOf t corr)
  | a => a

/-- The stager that a SUB made root. -/
def promoted (n n' : Node) (t : TopicId) : Option RoleRef :=
  (n.roleAt t).filter fun ρ => (n.role ρ).staging.isSome && (n'.role ρ).staging.isNone

/-- The export that a pull bound. -/
def boundBy (n n' : Node) (q : MergePull) : Option ExportRef :=
  ((n'.roleAt q.topicId).bind fun ρ => (n'.role ρ).openMerges.get q.corr).filter fun x =>
    (n.exports.get x).state ≠ .bound && (n'.exports.get x).state = .bound

end Gated

/-! ### Steps -/

/-- What runs next. -/
inductive GateAct where
  /-- Something of the node's. -/
  | node (a : Act)
  /-- A pull whose sender names its host. -/
  | pull (q : MergePull) (fdHost : Option Text)
  /-- The rest of the handling of a SUB that the root seats. -/
  | noted (t : TopicId) (f : SuccessorSub)

namespace Gated

variable (cfg : Config)

/-- Run one act of the node. The loser whose SUB completed a staged round is a successor. -/
def performNode (s : Gated) (a : Act) : Gated :=
  let n := s.node.perform cfg (s.asks a)
  let s' : Gated := { s with node := n }
  match a with
  | .sub f => (promoted s.node n f.topicId).elim s' fun ρ
    => s'.noteLoserSuccessor cfg ρ f.subscriber
  | _ => s'

/-- Run one act. -/
def perform (s : Gated) : GateAct → Gated
  | .node a => s.performNode cfg a
  | .pull q fdHost =>
    let n := s.node.perform cfg (.mergePull q)
    { s with
      node := n
      winnerHost := (boundBy s.node n q).elim s.winnerHost fun x =>
        Function.update s.winnerHost x (fdHost.map (·.take 32)) }
  | .noted t f => (s.node.roleAt t).elim s fun ρ => s.noteSuccessorSub cfg ρ f

/-- The state in another world. -/
def enter (s : Gated) (w : World) : Gated := { s with node := { s.node with world := w } }

/-- One step: the world changes, and the act runs in it. -/
def step (s : Gated) (a : World × GateAct) : Gated := (s.enter a.1).perform cfg a.2

/-- A node that has just started. -/
def boot (w : World) : Gated := ⟨Node.boot w, fun _ => ∅, fun _ => none, []⟩

end Gated

end Axona
