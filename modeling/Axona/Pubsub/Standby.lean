import Axona.Pubsub.RepairPlane

/-! # The appointment of a standby

What a node keeps of its appointment as the standby of one topic's root, with the topic's lifetime
armed: who appointed it, under which generation, by a grant issued when, and when the last grant
came. A REPLICATE appoints or renews when it passes the grant rule of `_syncIngest`. The appointment
ends when its lease lapses, and then a LEFT record refuses the generation that was left; it ends
early by promotion, by the notice of the generation's end, and when the standby re-homed.

Whether the role holds anything is decided by the store and is an input here. -/

namespace Axona

open Library

/-! ### Constants -/

/-- `STANDBY_LEASE_MS` -/
def standbyLeaseMs : Int := dropMs

/-- `APPOINTMENT_DELAY_MS` -/
def appointmentDelayMs : Int := 60000

/-- `APPOINTMENT_SKEW_MS` -/
def appointmentSkewMs : Int := 15000

/-- `BACKUP_EVICT_MS` -/
def backupEvictMs : Int := 60000

/-! ### State -/

/-- What a role keeps of its appointment. -/
structure StandbyRole where
  isRoot : Bool
  /-- The principal; `none` when the role is no backup. -/
  backupOf : Option NodeId
  /-- The generation the appointment names. -/
  standbyGen : Option Gen
  /-- The issue stamp of the last grant that had one. -/
  standbyIssuedAt : Option Int
  /-- When the last grant came, `0` at first. -/
  lastReplicaAt : Int
deriving DecidableEq

/-- The part of `makeRole` that bears on the appointment. -/
def StandbyRole.blank : StandbyRole := ⟨false, none, none, none, 0⟩

/-- A LEFT record. -/
structure LeftRecord where
  /-- The root of the generation left; `none` after a thin child stepped down. -/
  rootId : Option NodeId
  epoch : Int
  /-- When it goes, by the monotonic clock. -/
  lapses : Int
deriving DecidableEq

/-- A node as the standby of one topic. -/
structure Standby where
  /-- The role, if there is one. -/
  role : Option StandbyRole
  /-- `_leftRecords` at the topic. -/
  left : Option LeftRecord
  /-- `_grantHoldUntil` -/
  grantHoldUntil : Int
  /-- `_lifeLastWall` and `_lifeLastMono`. -/
  lastTick : Option (Int × Int)
deriving DecidableEq

/-- A node that has just started. -/
def Standby.boot : Standby := ⟨none, none, 0, none⟩

/-- A REPLICATE as far as the appointment goes. -/
structure StandbyGrant where
  /-- Who sent it. -/
  sender : Option NodeId
  /-- Root and epoch of the generation it names; `none` unless the root is an id, and an epoch that
  is not an integer is `none`. -/
  gen : Option (NodeId × Option Int)
  /-- When it was issued, by the clock of its sender. -/
  issuedAt : Option Int
deriving DecidableEq

/-- `_genNorm`, behind `_genValid`. -/
def StandbyGrant.generation (g : StandbyGrant) : Option Gen :=
  g.gen.map fun x => ⟨x.1, (x.2.filter (0 ≤ ·)).getD 0⟩

/-- Why a grant is refused. -/
inductive GrantRefusal where
  /-- `legacy-not-principal` -/
  | legacyNotPrincipal
  /-- `left-record` -/
  | leftRecord
  /-- `invalid-epoch` -/
  | invalidEpoch
  /-- `no-stamp` -/
  | noStamp
  /-- `stale` -/
  | stale
  /-- `obsolete-generation` -/
  | obsoleteGeneration
  /-- `obsolete-grant` -/
  | obsoleteGrant
  /-- `outranked` -/
  | outranked
deriving DecidableEq, Repr

namespace Standby

/-! ### The grant rule -/

/-- `_leftRefuses`, for a generation: the record that is live names it. -/
def leftRefuses (s : Standby) (mono : Int) (gen : Gen) : Bool :=
  s.left.any fun r => mono < r.lapses && r.rootId == some gen.root && r.epoch == toInt32 gen.epoch

/-- `_grantFresh`, for a grant with a stamp. -/
def grantFresh (s : Standby) (now issuedAt : Int) : Bool :=
  !(s.grantHoldUntil != 0 && now < s.grantHoldUntil) &&
    now - issuedAt ≤ appointmentDelayMs + appointmentSkewMs

/-- Does the role have this root's appointment to a later epoch? The later epoch is read as 32
bits. -/
def obsoleteGeneration (r : StandbyRole) (gen : Gen) : Bool :=
  r.standbyGen.any fun g => g.root == gen.root && gen.epoch < toInt32 g.epoch

/-- Does the role have another root's appointment by a grant issued later, beyond the skew? -/
def obsoleteGrant (r : StandbyRole) (gen : Gen) (issuedAt : Int) : Bool :=
  r.standbyGen.any fun g => g.root != gen.root &&
    r.standbyIssuedAt.any fun at₀ => issuedAt + appointmentSkewMs < at₀

/-- Does the role have the appointment of another root whose lease is live and that the grant's does
not win over? -/
def outranked (t : TopicId) (r : StandbyRole) (now : Int) (gen : Gen) : Bool :=
  r.backupOf.isSome && r.standbyGen.any fun g => g.root != gen.root &&
    now - r.lastReplicaAt < standbyLeaseMs &&
      !claimWins t ⟨gen.root, gen.epoch⟩ ⟨g.root, g.epoch⟩

/-- The grant rule of `_syncIngest`: why a REPLICATE is refused, `none` when it is admitted. -/
def refusal (t : TopicId) (s : Standby) (w : World) (g : StandbyGrant) : Option GrantRefusal :=
  match g.generation with
  | none =>
    if s.role.any fun r => r.backupOf.isSome && r.backupOf == g.sender then none
    else some .legacyNotPrincipal
  | some gen =>
    if s.leftRefuses w.mono gen then some .leftRecord
    else if gen.epoch < 1 then some .invalidEpoch
    else match g.issuedAt with
      | none => some .noStamp
      | some issuedAt =>
        if !s.grantFresh w.wall issuedAt then some .stale
        else if s.role.any (obsoleteGeneration · gen) then some .obsoleteGeneration
        else if s.role.any (obsoleteGrant · gen issuedAt) then some .obsoleteGrant
        else if s.role.any (outranked t · w.wall gen) then some .outranked
        else none

/-- `becomeBackup` -/
def becomeBackup (r : StandbyRole) (now : Int) (g : StandbyGrant) : StandbyRole :=
  { r with
    backupOf := g.sender
    lastReplicaAt := now
    standbyGen := g.generation.or r.standbyGen
    standbyIssuedAt := g.issuedAt.or r.standbyIssuedAt }

/-- The REPLICATE arm of `_syncIngest`. A root takes the frame as a union and is not appointed. -/
def onReplicate (t : TopicId) (s : Standby) (w : World) (g : StandbyGrant) : Standby :=
  if s.role.any (·.isRoot) then s
  else match s.refusal t w g with
    | some _ => s
    | none => { s with role := some (becomeBackup (s.role.getD .blank) w.wall g) }

/-! ### How an appointment ends -/

/-- `_wallJumpCheck` -/
def wallJumpCheck (s : Standby) (w : World) : Standby :=
  let jumped := s.lastTick.any fun last =>
    appointmentSkewMs < |(w.wall - last.1) - (w.mono - last.2)|
  { s with
    grantHoldUntil := if jumped then w.wall + appointmentDelayMs else s.grantHoldUntil
    lastTick := some (w.wall, w.mono) }

/-- `_leftPrune` -/
def leftPrune (s : Standby) (w : World) : Standby :=
  { s with left := s.left.filter fun r => w.mono < r.lapses }

/-- `retireBackup` -/
def retireBackup (r : StandbyRole) : StandbyRole := { r with backupOf := none }

/-- `_leftWrite`: the table takes the record when it has one of the topic already or has room. -/
def leftWrite (s : Standby) (w : World) (room : Bool) (rootId : Option NodeId) (epoch : Int) :
    Standby :=
  if room || s.left.isSome then
    { s with left := some ⟨rootId, toInt32 epoch, w.mono + generationMemoryMs⟩ }
  else s

/-- `_standbyLeaseSweep`: a lapsed appointment of a role that holds nothing ends. -/
def standbyLeaseSweep (s : Standby) (w : World) (holds room : Bool) : Standby :=
  match s.role with
  | none => s
  | some r =>
    if r.isRoot || r.backupOf.isNone || w.wall - r.lastReplicaAt ≤ standbyLeaseMs || holds then s
    else
      let s := s.leftWrite w room (((r.standbyGen.map (·.root)).or r.backupOf))
        ((r.standbyGen.map (·.epoch)).getD 0)
      { s with role := some { retireBackup r with standbyGen := none } }

/-- The tick, for a backup that re-homed under a live upstream and has neither seats nor custody
(`spare`): it is one no longer when nothing came for a while. -/
def retireIdle (s : Standby) (w : World) (spare : Bool) : Standby :=
  { s with role := s.role.map fun r =>
      if !r.isRoot && spare && backupEvictMs < w.wall - r.lastReplicaAt then retireBackup r else r }

/-- Does the appointment name this generation? One without a generation is its root's. -/
def appointed (r : StandbyRole) (gen : Gen) : Bool :=
  r.backupOf.isSome && match r.standbyGen with
    | some g => Node.sameGen g gen
    | none => r.backupOf == some gen.root

/-- `_onTopicTerminated`, as far as the appointment goes: the notice of its generation's end ends
it, unless the role holds a body. -/
def onTopicTerminated (s : Standby) (gen : Gen) (holdsBody : Bool) : Standby :=
  { s with role := s.role.map fun r =>
      if r.isRoot || !appointed r gen || holdsBody then r
      else { retireBackup r with standbyGen := none } }

end Standby

/-! ### Runs -/

/-- What happens to a standby. -/
inductive StandbyAct where
  /-- A REPLICATE comes in. -/
  | replicate (g : StandbyGrant)
  /-- The tick. -/
  | tick (holds room spare : Bool)
  /-- A notice of termination comes in. -/
  | terminated (gen : Gen) (holdsBody : Bool)
  /-- A role that is no root is made for another duty, if there is none. -/
  | serve
  /-- The role becomes root: the backup residue goes. -/
  | promote
  /-- The root steps down. -/
  | demote
  /-- The role goes; a thin child that stepped down leaves a record that names no root. -/
  | retire (steppedDown room : Bool)
deriving DecidableEq

namespace Standby

/-- One act. -/
def step (t : TopicId) (s : Standby) (a : World × StandbyAct) : Standby :=
  match a.2 with
  | .replicate g => s.onReplicate t a.1 g
  | .tick holds room spare =>
    (((s.wallJumpCheck a.1).leftPrune a.1).standbyLeaseSweep a.1 holds room).retireIdle a.1 spare
  | .terminated gen holdsBody => s.onTopicTerminated gen holdsBody
  | .serve => { s with role := s.role.or (some .blank) }
  | .promote => { s with role := s.role.map fun r => { retireBackup r with isRoot := true } }
  | .demote => { s with role := s.role.map fun r => { r with isRoot := false } }
  | .retire steppedDown room =>
    let s := if steppedDown then s.leftWrite a.1 room none 0 else s
    { s with role := none }

end Standby

end Axona
