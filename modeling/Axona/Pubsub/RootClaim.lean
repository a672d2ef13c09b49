import Axona.Library.Transition
import Axona.Pubsub.TopicStore

/-! # The root claim

Every change of a role's `isRoot` goes through `setRoot` (`_set`), apart from the birth of a
root in `become`. Around it stand the guards that decide who may claim and when a claim defers:
the beacon record and the convictions (`liveCloserRoot`), the step-down hold, and the custody
rule, by which a root that holds something sheds its claim only with the token minted for that
one flip. -/

namespace Axona

open Library

namespace Node

variable (cfg : Config)

/-! ### Evidence about a topic's root -/

/-- `_isReachableId`: is the node a direct neighbour? Without a neighbour report, yes. -/
def isReachable (n : Node) (id : NodeId) : Bool :=
  n.world.neighbors.elim true fun ns => id ∈ ns

/-- `_rootTombstoned`: does a conviction of the topic name this root at this epoch or a later
one? A conviction past its time is dropped on the way. -/
def rootTombstoned (n : Node) (t : TopicId) (root : NodeId) (epoch : Option Int) :
    Bool × Node :=
  match n.rootTombstones.get t with
  | none => (false, n)
  | some c =>
    if c.exp ≤ n.now then (false, { n with rootTombstones := n.rootTombstones.delete t })
    else (root = c.root && epoch.getD 0 ≤ c.epoch, n)

/-- A record is fresh for one and a half beacon intervals. -/
def fresh (n : Node) (b : Beacon) : Bool := 2 * (n.now - b.heardAt) < 3 * beaconMs

/-- `liveCloserRoot`: the root a beacon record names, when it is strictly closer to the topic
than this node, not convicted, and there is evidence that it lives. -/
def liveCloserRoot (n : Node) (t : TopicId) (requireReachable : Bool) : Option NodeId × Node :=
  match n.rootBeacons.get t with
  | none => (none, n)
  | some b =>
    if b.exp ≤ n.now then (none, n)
    else if b.root = cfg.nodeId then (none, n)
    else if distance t cfg.nodeId ≤ distance t b.root then (none, n)
    else
      let (convicted, n) := n.rootTombstoned t b.root b.epoch
      if convicted then (none, n)
      else if (b.verified && n.fresh b) || n.isReachable b.root || (!requireReachable && n.fresh b)
      then (some b.root, n)
      else (none, n)

/-- The nearer of two nodes to a topic, the first on a tie. -/
def nearer (t : TopicId) (a b : NodeId) : NodeId := if distance t b < distance t a then b else a

/-- `_bestKnownClosest`: the nearest node known locally: self, the neighbours without the
bridge, and the root a beacon record names. -/
def bestKnownClosest (n : Node) (t : TopicId) : NodeId :=
  let ns := (n.world.neighbors.getD []).filter fun x => some x ≠ n.world.bridge
  let best := ns.foldl (nearer t) cfg.nodeId
  (n.rootBeacons.get t).elim best fun b => nearer t best b.root

/-- `_knownEpoch`: the highest incarnation of the topic's seat there is evidence of. -/
def knownEpoch (n : Node) (t : TopicId) : Int :=
  let e := max 0 ((n.roleAt t).elim 0 fun ρ => (n.role ρ).epoch)
  let e := max e ((n.rootBeacons.get t).elim 0 fun b => b.epoch.getD 0)
  let e := max e ((n.rootTombstones.get t).elim 0 (·.epoch))
  max e ((n.genHighWater.get t).elim 0 fun g => if n.world.mono < g.lapses then g.epoch else 0)

/-- `selfClosestReachable`: no direct neighbour but the bridge is nearer to the topic. -/
def selfClosestReachable (n : Node) (t : TopicId) : Bool :=
  (n.world.neighbors.getD []).all fun x =>
    x = cfg.nodeId || some x = n.world.bridge || distance t cfg.nodeId ≤ distance t x

end Node

/-! ### The election relation -/

/-- `claimWins`: does claim `a` win over claim `b`? -/
def claimWins (t : TopicId) (a b : Claim NodeId) : Bool :=
  if 0 < a.epoch && 0 < b.epoch && a.epoch ≠ b.epoch then b.epoch < a.epoch
  else distance t a.id < distance t b.id

/-- The relation is that of the library, at the XOR distance. -/
theorem claimWins_iff {t : TopicId} {a b : Claim NodeId} :
    claimWins t a b = true ↔ Claim.Beats (distance t) a b := by
  unfold claimWins Claim.Beats
  by_cases h : 0 < a.epoch ∧ 0 < b.epoch ∧ a.epoch ≠ b.epoch
  · rw [if_pos h, if_pos (by simpa [and_assoc] using h)]
    exact decide_eq_true_iff
  · rw [if_neg h, if_neg (by simpa [and_assoc] using h)]
    exact decide_eq_true_iff

namespace Node

variable (cfg : Config)

/-- This node's claim to a topic, the epoch as 32 bits read it; unversioned when it is not the
root. -/
def myClaim (n : Node) (t : TopicId) : Claim NodeId :=
  ⟨cfg.nodeId, (n.roleAt t).elim 0 fun ρ =>
    if (n.role ρ).isRoot then toInt32 (n.role ρ).epoch else 0⟩

/-- `wins`: does a claim win over this node's own? -/
def wins (n : Node) (t : TopicId) (claim : Claim NodeId) : Bool :=
  claimWins t claim (n.myClaim cfg t)

/-! ### The transition function -/

/-- The backup residue of a role goes. -/
def retireBackup (n : Node) (t : TopicId) (ρ : RoleRef) : Node :=
  { n.modifyRole ρ (fun r => { r with backupOf := none }) with
    backupTopics := n.backupTopics.erase t }

/-- The ascent to root: the next incarnation is minted, the hold and the backup residue go. -/
def ascend (n : Node) (ρ : RoleRef) (why : Why) : Node :=
  let t := (n.role ρ).topicId
  let before := n.role ρ
  let epoch := succDouble (n.knownEpoch t)
  let n := { n with stepDownHold := n.stepDownHold.delete t }
  let n := if before.backupOf.isSome then n.retireBackup t ρ else n
  let n := n.modifyRole ρ fun r => { r with epoch := epoch, isRoot := true }
  (n.note (.minted t epoch)).note (.transition ρ before true why n.world)

/-- The descent from root. -/
def descend (n : Node) (ρ : RoleRef) (why : Why) : Node :=
  let before := n.role ρ
  (n.modifyRole ρ fun r => { r with isRoot := false }).note
    (.transition ρ before false why n.world)

/-- `_set`: the only place a role's `isRoot` changes. On a merge-capable node a root with
custody descends only on the release token minted for this flip, which it consumes. The result
says whether the flip was committed. -/
def setRoot (n : Node) (ρ : RoleRef) (isRoot : Bool) (why : Why) (token : Option Nat) :
    Bool × Node :=
  let r := n.role ρ
  if r.isRoot = isRoot then (true, n)
  else if isRoot then (true, n.ascend ρ why)
  else if cfg.mergeCapable && r.hasCustody n.now then
    if r.merge.releaseToken.isNone || token ≠ r.merge.releaseToken then (false, n)
    else (true, (n.modifyMerge ρ fun m => { m with releaseToken := none }).descend ρ why)
  else (true, n.descend ρ why)

/-- `become`: a role is created as root, the fallback at a routing terminus. A bridge never
roots. -/
def become (n : Node) (t : TopicId) : Option RoleRef × Node :=
  if cfg.neverRoot then (none, n)
  else
    let epoch := succDouble (n.knownEpoch t)
    let (n, ρ) := n.register { makeRole t true n.now with epoch := epoch }
    (some ρ, n.note (.minted t epoch))

/-- `_becomeRoot`: a node that cannot serve births no root. -/
def becomeRoot (n : Node) (t : TopicId) : Option RoleRef × Node :=
  if n.world.serving then n.become cfg t else (none, n)

/-- `demote`: yield the claim to the root `dest`, pin the upstream to it and subscribe under it.
`false` when there was no claim to yield or the flip was refused. -/
def demote (n : Node) (t : TopicId) (dest : NodeId) (why : Why) (token : Option Nat)
    (holdAlways : Bool) : Bool × Node :=
  match n.roleAt t with
  | none => (false, n)
  | some ρ =>
    if !(n.role ρ).isRoot then (false, n)
    else if dest = cfg.nodeId then (false, n)
    else match n.setRoot cfg ρ false why token with
      | (false, n) => (false, n)
      | (true, n) =>
        let n := { n with upstream := n.upstream.set t dest }
        let n :=
          if holdAlways || distance t dest < distance t cfg.nodeId then
            { n with stepDownHold := n.stepDownHold.set t ⟨dest, n.now⟩ }
          else n
        (true, n.send (.subscribe t (n.role ρ).merge.completing))

/-! ### The step-down hold -/

/-- `holdFor`: the hold of a topic. One past its time is dropped, and the accepted winner of the
role with it. -/
def holdFor (n : Node) (t : TopicId) : Option Hold × Node :=
  match n.stepDownHold.get t with
  | none => (none, n)
  | some h =>
    if cfg.stepDownHoldMs ≤ 0 || cfg.stepDownHoldMs ≤ n.now - h.since then
      let n := { n with stepDownHold := n.stepDownHold.delete t }
      match n.roleAt t with
      | none => (none, n)
      | some ρ => (none, n.modifyMerge ρ fun m =>
          if m.acceptedWinner.any (fun w => w.id = h.root) then { m with acceptedWinner := none }
          else m)
    else (some h, n)

/-- `holdTarget`: where a held node may send a message it will not root. -/
def holdTarget (n : Node) (t : TopicId) (requireReachable : Bool) : Option NodeId × Node :=
  match n.holdFor cfg t with
  | (none, n) => (none, n)
  | (some h, n) =>
    let aw := (n.roleAt t).bind fun ρ => (n.role ρ).merge.acceptedWinner
    if aw.any fun w => w.id = h.root && n.now < w.exp then (some h.root, n)
    else if n.isReachable h.root then (some h.root, n)
    else
      let (c, n) := n.liveCloserRoot cfg t requireReachable
      (if c = some h.root then c else none, n)

/-! ### Claims -/

/-- `promote`: the terminal promotion of a role that is not root, for a bare message that ends
here. A closer live root and the step-down hold stop it. -/
def promote (n : Node) (ρ : RoleRef) (via : List NodeId) (isTerminal : Bool) : Node :=
  let t := (n.role ρ).topicId
  if !via.isEmpty || !isTerminal || (n.role ρ).isRoot then n
  else if !n.world.serving then n
  else
    let (closer, n) := n.liveCloserRoot cfg t true
    if closer.isSome then n
    else match n.holdFor cfg t with
      | (some _, n) => n
      | (none, n) =>
        let n := (n.setRoot cfg ρ true .other none).2
        { n with upstream := n.upstream.delete t }

/-- `claimReachable`: a subscriber left unattached past the window, with no nearer neighbour,
claims the root. -/
def claimReachable (n : Node) (t : TopicId) : Node :=
  match n.holdFor cfg t with
  | (some _, n) => n
  | (none, n) =>
    let (ρ, n) := match n.roleAt t with
      | some ρ => (some ρ, n)
      | none => n.become cfg t
    match ρ with
    | none => n
    | some ρ =>
      let n := (n.setRoot cfg ρ true .other none).2
      { n with upstream := n.upstream.delete t }

/-- `adoptChild`: become, or stay, a child relay of `parent`; `none` when a root with custody
refuses. -/
def adoptChild (n : Node) (t : TopicId) (parent : NodeId) : Option RoleRef × Node :=
  let (n, ρ) := match n.roleAt t with
    | some ρ => (n, ρ)
    | none => n.register (makeRole t false n.now)
  match n.setRoot cfg ρ false .other none with
  | (false, n) => (none, n)
  | (true, n) => (some ρ, { n with upstream := n.upstream.set t parent })

/-- `becomeBackup`: the role is the backup of `principal`. -/
def becomeBackup (n : Node) (t : TopicId) (ρ : RoleRef) (principal : NodeId) (gen : Option Gen) :
    Node :=
  { n.modifyRole ρ (fun r =>
      { r with backupOf := some principal, standbyGen := gen.elim r.standbyGen some }) with
    backupTopics := insert t n.backupTopics }

end Node

end Axona
