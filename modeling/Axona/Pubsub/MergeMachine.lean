import Mathlib.Data.List.Sort
import Axona.Pubsub.RootClaim

/-! # The merge machine

Two roots of one topic reconcile by an exchange: the loser offers its claim, the winner pulls
the loser's cache, and the loser steps down on the winner's full acknowledgement. At the loser
the bind of the pull is the cut: from there on the role commits no write until the round ends.
At the winner the ids of each frame are pinned before its bodies are ingested, and the
acknowledgement says whether everything named is held. A winner that holds no root yet stages:
it pulls into a role that serves nothing and takes the root when the round completes. -/

namespace Axona

open Library

/-! ### Timing -/

/-- `_mergeTiming`: the bounds this node offers. -/
def mergeTiming : Timing := ⟨mergeTimingVersion, mergeTimeoutMs, futureToleranceMs⟩

/-- `_mergeTimingAccepted`. -/
def mergeTimingAccepted (t : Timing) : Bool :=
  t.version = mergeTimingVersion && handoffAckMaxMs ≤ t.A && t.A ≤ 4 * mergeTimeoutMs
    && 0 ≤ t.E && t.E ≤ futureToleranceMs

namespace Role

/-- `_custodyAlive`: does the role hold something a reaper must not discard? -/
def custodyAlive (r : Role) (now : Int) : Bool :=
  r.merge.completing.isSome || r.merge.gate.isSome
    || r.merge.acceptedWinner.any (fun w => now < w.exp) || r.merge.pins ≠ ∅
    || r.openMerges.size ≠ 0 || r.openPulls.size ≠ 0 || !(r.activeDels now).isEmpty

/-- `_custodyOpen`: the part of it that holds a topic open against its termination. -/
def custodyOpen (r : Role) (now : Int) : Bool :=
  r.merge.completing.isSome || r.merge.gate.isSome
    || r.merge.acceptedWinner.any (fun w => now < w.exp) || r.merge.pins ≠ ∅
    || r.openMerges.size ≠ 0 || r.openPulls.size ≠ 0

/-- `_mergeCloseCorr`: the exchange is over and stays so. The memory of ended exchanges keeps
the last 64. -/
def closeCorr (r : Role) (corr : Corr) : Role :=
  let closed := if corr ∈ r.merge.closedCorrs then r.merge.closedCorrs
    else r.merge.closedCorrs ++ [corr]
  { r with
    openMerges := r.openMerges.delete corr
    merge := { r.merge with closedCorrs := closed.drop (closed.length - 64) } }

/-- `_mergeGateClear`. -/
def gateClear (r : Role) : Role := { r with merge := { r.merge with gate := none } }

/-- The candidate is forgotten, if it is this winner. -/
def dropCandidate (r : Role) (winner : NodeId) : Role :=
  if r.merge.candidate.any (fun c => c.claim.id = winner) then
    { r with merge := { r.merge with candidate := none } }
  else r

/-- Pin the ids of a manifest. -/
def pin (r : Role) (m : Manifest) : Role :=
  { r with merge := { r.merge with pins := r.merge.pins ∪ (m.bodies ++ m.dels).toFinset } }

/-- Unpin the ids of a manifest. -/
def unpin (r : Role) (m : Manifest) : Role :=
  { r with merge := { r.merge with pins := r.merge.pins \ (m.bodies ++ m.dels).toFinset } }

/-- `_mergeReleasePins`: every pin and the reserve go. -/
def releasePins (r : Role) : Role :=
  { r with merge := { r.merge with pins := ∅, reserve := none } }

/-- The order of an export: by stamp, then by id. -/
def exportLe (a b : Int × MsgId) : Prop :=
  a.1 < b.1 ∨ (a.1 = b.1 ∧ @LE.le (List Char) List.instLE a.2 b.2)

instance : DecidableRel exportLe := fun _ _ => inferInstanceAs (Decidable (_ ∨ _))

/-- What a bind exports: the cache and the active tombstones, each in the order of an export. -/
def snapshot (r : Role) (now : Int) : Snapshot :=
  ⟨r.cache.insertionSort fun a b => exportLe (a.publishTs, a.msgId) (b.publishTs, b.msgId),
    (r.activeDels now).insertionSort fun a b =>
      exportLe (a.killTs.getD 0, a.msgId) (b.killTs.getD 0, b.msgId)⟩

end Role

/-- The ids of a snapshot. -/
def Snapshot.manifest (s : Snapshot) : Manifest :=
  ⟨s.bodies.map (·.msgId), s.dels.map (·.msgId)⟩

/-- The lease of a bound record, as two clocks read it: the monotonic one has not passed the
bound, and the wall clock has not jumped. -/
def Export.leaseOk (m : Export) (w : World) : Bool :=
  let dm := w.mono - m.tB
  let dw := w.wall - m.tBWall
  dm ≤ m.timing.A && (dw - dm).natAbs ≤ m.timing.E

/-! ### The frames of an export -/

/-- An entry of an export. -/
inductive Item where
  | body (e : Entry)
  | del (d : Del)
deriving DecidableEq

namespace Item

/-- Its stamp. -/
def ts : Item → Int
  | .body e => e.publishTs
  | .del d => d.killTs.getD 0

/-- Its id. -/
def id : Item → MsgId
  | .body e => e.msgId
  | .del d => d.msgId

/-- `cursorOf`. -/
def cursor (i : Item) : Cursor := .entry i.ts i.id

/-- What it counts for in a frame. -/
def size : Item → Nat
  | .body e => e.json.length + 160
  | .del _ => 160

end Item

/-- The items of a snapshot, bodies first. -/
def Snapshot.items (s : Snapshot) : List Item := s.bodies.map .body ++ s.dels.map .del

/-- How many items fit behind the first `bytes` of a frame. -/
def fill (bytes : Nat) : List Item → Nat
  | [] => 0
  | i :: is => if replayChunkBytes < bytes + i.size then 0 else fill (bytes + i.size) is + 1

/-- How many of the items that are left go into the next frame. A frame holds one item at least.
It does not end inside a group of equal stamps, unless the group alone exceeds a frame. -/
def frameLength : List Item → Nat
  | [] => 0
  | i :: is =>
    let k := fill i.size is + 1
    let taken := (i :: is).take k
    match (i :: is).drop k with
    | [] => k
    | next :: later =>
      let run := (taken.reverse.takeWhile fun x => x.ts = next.ts).length
      let group := ((taken.reverse.takeWhile fun x => x.ts = next.ts)
        ++ next :: later.takeWhile fun x => x.ts = next.ts).map Item.size |>.sum
      if 0 < run ∧ group ≤ replayChunkBytes then max 1 (k - run) else k

/-- The items behind a cursor. -/
def itemsAfter (items : List Item) : Cursor → List Item
  | .header => items
  | c => (items.dropWhile fun i => i.cursor ≠ c).drop 1

/-! ### Payloads -/

/-- A MERGE_OFFER. -/
structure MergeOffer where
  topicId : TopicId
  corr : Corr
  loser : NodeId
  loserEpoch : Option Int
  hw : Option Int
  count : Int
  timing : Option Timing
  handoff : Bool

/-- A PULLUP of a merge exchange. -/
structure MergePull where
  topicId : TopicId
  corr : Corr
  requester : NodeId
  winnerEpoch : Option Int
  timing : Option Timing
  cursor : Option Cursor
  staged : Bool
  handoff : Bool
  ephemeral : Bool

/-- The header of an export. -/
structure Header where
  bodies : Int
  bytes : Int

/-- A REPLAYUP of a merge exchange. -/
structure MergeFrame where
  topicId : TopicId
  corr : Corr
  loserEpoch : Option Int
  refused : Bool
  header : Option Header
  cursor : Option Cursor
  slice : Manifest
  msgs : List Stamped
  dels : List Del
  tail : FrameTail

/-- The merge block of a SUB. -/
structure MergeBlock where
  corr : Corr
  winner : NodeId
  winnerEpoch : Option Int
  loserEpoch : Option Int
  hash : Option Digest

/-- A MERGE_CLOSED. -/
structure MergeClosed where
  topicId : TopicId
  corr : Corr
  winnerEpoch : Option Int

namespace Node

variable (cfg : Config)

/-! ### The loser: gate and abort -/

/-- `_mergeCut`: the cut and the gate, in one synchronous run. Refused on a role that is not
root or is cut already. -/
def mergeCut (n : Node) (t : TopicId) (winner : NodeId) (winnerEpoch : Int) (corr : Corr) :
    Option Node :=
  match n.roleAt t with
  | none => none
  | some ρ =>
    if !(n.role ρ).isRoot || (n.role ρ).merge.gate.isSome then none
    else some (n.modifyRole ρ fun r => { r with
      gen := toInt32 r.gen + 1
      merge := { r.merge with gate := some ⟨winner, toInt32 winnerEpoch, corr, n.now, false⟩ } })

/-- `_mergeUnpinDeferred`: the pins a deferred step 5 took go, unless completion owns them. -/
def mergeUnpinDeferred (n : Node) (ρ : RoleRef) (x : ExportRef) : Node :=
  if (n.exports.get x).deferPinned && (n.role ρ).merge.completing.isNone then
    (n.modifyRole ρ fun r => r.unpin (n.exports.get x).manifest).modifyExport x
      fun m => { m with deferPinned := false }
  else n

/-- `_mergeAbort`: the round of the standing gate ends; the record, the gate and the candidate
go. Nothing without a gate. -/
def mergeAbort (n : Node) (ρ : RoleRef) : Node :=
  match (n.role ρ).merge.gate with
  | none => n
  | some g =>
    let n := match (n.role ρ).openMerges.get g.corr with
      | none => n
      | some x => n.mergeUnpinDeferred ρ x
    n.modifyRole ρ fun r =>
      let r := r.closeCorr g.corr
      { r with merge := { r.merge with candidate := none, gate := none } }

/-! ### The loser: offer -/

/-- `_mergeOffer`: offer the claim to the recorded candidate, once for each incarnation. -/
def mergeOffer (n : Node) (t : TopicId) (ρ : RoleRef) : Node :=
  let r := n.role ρ
  match r.merge.candidate with
  | none => n
  | some c =>
    if !cfg.mergeCapable || !r.isRoot || r.merge.gate.isSome || r.merge.completing.isSome then n
    else
      let toC := r.openMerges.entries.filter fun e => (n.exports.get e.2).winner = c.claim.id
      let stands := toC.findIdx? fun e => toInt32 r.epoch ≤ (n.exports.get e.2).loserEpoch
      -- offers in front of the standing one are superseded before it is met
      let superseded := match stands with | some i => toC.take i | none => toC
      let n := n.modifyRole ρ fun r => superseded.foldl (fun r e => r.closeCorr e.1) r
      if stands.isSome then n
      else
        let corr := n.world.nonce
        let rec' : Export :=
          { winner := c.claim.id, winnerEpoch := toInt32 c.claim.epoch,
            loserEpoch := toInt32 r.epoch, state := .offered, snapshot := ⟨[], []⟩,
            manifest := ⟨[], []⟩, lastCursorSent := none, offeredAt := n.now, tB := 0,
            tBWall := 0, timing := mergeTiming, hash := none, reached := none,
            ephemeral := false, deferPinned := false, deferred := none }
        let (h, x) := n.exports.alloc rec'
        let n := { n with exports := h }
        let n := n.modifyRole ρ fun r => { r with openMerges := r.openMerges.set corr x }
        (n.send (.mergeOffer c.claim.id t corr (toInt32 r.epoch) r.cache.length mergeTiming
          cfg.cutover)).park (.offered x)

/-- `_mergeCandidate`: the one entry of every path that sheds a claim. Without custody, or
without the merge, the claim is given up at once; with it the winner is recorded, if it wins
over this node's claim and over the winner already recorded, and the exchange begins. -/
def mergeCandidate (n : Node) (t : TopicId) (winner : NodeId) (winnerEpoch : Option Int) : Node :=
  match n.roleAt t with
  | none => n
  | some ρ =>
    let r := n.role ρ
    if !cfg.mergeCapable || !r.isRoot || !r.hasCustody n.now then
      (n.demote cfg t winner .other none false).2
    else if winner = cfg.nodeId then n
    else
      let claim : Claim NodeId := ⟨winner, winnerEpoch.getD 0⟩
      if !n.wins cfg t claim then n
      else if r.merge.candidate.any fun prev => !claimWins t claim prev.claim then n
      else
        (n.modifyMerge ρ fun m => { m with candidate := some ⟨claim, n.now⟩ }).mergeOffer cfg t ρ

/-! ### The winner: offer and staging -/

/-- A fresh pull record. -/
def newPull (n : Node) (loser : NodeId) (loserEpoch : Int) (timing : Timing) : Pull :=
  { loser, loserEpoch, cursor := none, framesIn := 0, held := 0, sent := 0, startedAt := n.now,
    timing, state := .pulling, manifest := ⟨[], []⟩, header := false, tS := 0, hash := none,
    full := false }

/-- `_mergePull`: ask for the next frame. -/
def mergePull (n : Node) (t : TopicId) (ρ : RoleRef) (corr : Corr) (cursor : Option Cursor) :
    Node :=
  match (n.role ρ).openPulls.get corr with
  | none => n
  | some y =>
    let p := n.pulls.get y
    n.send (.pullUp p.loser t corr (toInt32 (n.role ρ).epoch) cursor p.timing
      ((n.role ρ).staging.any fun st => st.corr = corr))

/-- Open a pull and ask for its header. -/
def openPull (n : Node) (t : TopicId) (ρ : RoleRef) (corr : Corr) (p : Pull) : Node :=
  let (h, y) := n.pulls.alloc p
  let n := { n with pulls := h }
  (n.modifyRole ρ fun r => { r with openPulls := r.openPulls.set corr y }).mergePull t ρ corr none

/-- An answer of this node as the winner of an exchange, with no manifest to count. -/
def refuse (n : Node) (o : MergeOffer) (winnerEpoch : Int) (d : Disposition) : Node :=
  n.send (.replayAck o.loser ⟨o.topicId, o.corr, cfg.nodeId, some winnerEpoch, o.loser,
    some (o.loserEpoch.getD 0), 0, 0, none, d⟩)

/-- `_stageOffer`: a closer node with no root is offered the win. The result says whether the
offer was answered here. -/
def stageOffer (n : Node) (o : MergeOffer) (ρ : Option RoleRef) : Bool × Node :=
  let t := o.topicId
  let loserEpoch := o.loserEpoch.getD 0
  let epoch := ρ.elim 0 fun ρ => toInt32 (n.role ρ).epoch
  if cfg.neverRoot || n.world.saturated then (false, n)
  else if !o.handoff then (false, n)
  else if !(0 < toInt32 o.count || o.hw.isSome) then (false, n)
  else if distance t o.loser ≤ distance t cfg.nodeId then (false, n)
  else match o.timing with
    | none => (true, n.refuse cfg o epoch .refusedTiming)
    | some timing =>
      if !mergeTimingAccepted timing then (true, n.refuse cfg o epoch .refusedTiming)
      else if ρ.any fun ρ => (n.role ρ).staging.any fun st => st.corr ≠ o.corr then
        (true, n.refuse cfg o epoch .busy)
      else if ρ.any fun ρ => (n.role ρ).openPulls.has o.corr then (true, n)
      else
        let created := ρ.isNone
        let (n, ρ) := match ρ with
          | some ρ => (n, ρ)
          | none => n.register (makeRole t false n.now)
        let n := n.modifyRole ρ fun r =>
          { r with staging := some ⟨o.corr, o.loser, loserEpoch, created⟩ }
        (true, n.openPull t ρ o.corr (n.newPull o.loser loserEpoch timing))

/-- `_onMergeOffer`: pull from a claim this node wins over; answer any other offer. -/
def onMergeOffer (n : Node) (o : MergeOffer) : Node :=
  if !cfg.mergeCapable || o.loser = cfg.nodeId then n
  else
    let t := o.topicId
    let ρ := n.roleAt t
    match ρ.filter fun ρ => (n.role ρ).isRoot with
    | none =>
      let (answered, n) := if cfg.cutover then n.stageOffer cfg o ρ else (false, n)
      if answered then n
      else n.refuse cfg o (ρ.elim 0 fun ρ => toInt32 (n.role ρ).epoch) .notRoot
    | some ρ =>
      let loserEpoch := o.loserEpoch.getD 0
      let epoch := toInt32 (n.role ρ).epoch
      if n.wins cfg t ⟨o.loser, loserEpoch⟩ then
        (n.refuse cfg o epoch .outranked).mergeCandidate cfg t o.loser (some loserEpoch)
      else match o.timing with
        | none => n.refuse cfg o epoch .refusedTiming
        | some timing =>
          if !mergeTimingAccepted timing then n.refuse cfg o epoch .refusedTiming
          else if (n.role ρ).openPulls.has o.corr then n
          else n.openPull t ρ o.corr (n.newPull o.loser loserEpoch timing)

/-- `_stageEnd`: a staged round that ends without completion; a role made only to stage is
discarded. -/
def stageEnd (n : Node) (ρ : RoleRef) (corr : Corr) : Node :=
  match (n.role ρ).staging with
  | none => n
  | some st =>
    if st.corr ≠ corr then n
    else
      let n := n.modifyRole ρ fun r => { r with staging := none }
      if st.created && !(n.role ρ).isRoot then
        { n with axonRoles := n.axonRoles.delete (n.role ρ).topicId }
      else n

/-- `_stagePromote`: the round completed and the stager takes the root, one above every epoch
it knows and the loser's. -/
def stagePromote (n : Node) (ρ : RoleRef) (p : Pull) (corr : Corr) : Node :=
  match (n.role ρ).staging with
  | none => n
  | some st =>
    if st.corr ≠ corr then n
    else
      let n := n.modifyRole ρ fun r => { r with staging := none }
      let n := (n.setRoot cfg ρ true .other none).2
      let epoch := max (toInt32 (n.role ρ).epoch) (succDouble (toInt32 p.loserEpoch))
      let t := (n.role ρ).topicId
      let n := if epoch = (n.role ρ).epoch then n else
        (n.modifyRole ρ fun r => { r with epoch := epoch }).note (.minted t epoch)
      { n with upstream := n.upstream.delete t }

/-! ### The loser: bind and frames -/

/-- The bind: the cut, then the export, in one synchronous run. -/
def mergeBind (n : Node) (q : MergePull) (ρ : RoleRef) (x : ExportRef) : Node :=
  let t := q.topicId
  let winnerEpoch := q.winnerEpoch.getD 0
  let n := n.modifyExport x fun m => { m with winnerEpoch := winnerEpoch }
  match n.mergeCut t q.requester winnerEpoch q.corr with
  | none => n
  | some n =>
    let n := if cfg.cutover && q.staged then
        n.modifyMerge ρ fun m => { m with gate := m.gate.map fun g => { g with staged := true } }
      else n
    let snap := (n.role ρ).snapshot n.now
    let n := n.modifyExport x fun m => { m with ephemeral := q.ephemeral }
    if exportBytesMax < cfg.exportBytes snap then
      let n := n.modifyRole ρ fun r =>
        let r := (r.closeCorr q.corr).gateClear
        { r with merge := { r.merge with candidate := none } }
      n.send (.exportRefused q.requester t q.corr (toInt32 (n.role ρ).epoch))
    else
      (n.modifyExport x fun m => { m with
        snapshot := snap, manifest := snap.manifest, state := .bound, tB := n.world.mono,
        tBWall := n.now, lastCursorSent := some .header }).park (.bound ρ q.corr x)

/-- The digest of a bound manifest is there: the header goes out. -/
def boundDigest (n : Node) (ρ : RoleRef) (corr : Corr) (x : ExportRef) : Node :=
  let m := n.exports.get x
  let hash := cfg.manifestHash m.manifest.bodies m.manifest.dels
  let n := n.modifyExport x fun m => { m with hash := some hash }
  n.send (.exportHeader m.winner (n.role ρ).topicId corr (toInt32 (n.role ρ).epoch)
    m.manifest.bodies.length m.manifest.dels.length (some hash))

/-- A data frame, for a pull whose cursor is the last one sent. -/
def mergeDataFrame (n : Node) (q : MergePull) (ρ : RoleRef) (x : ExportRef) : Node :=
  let m := n.exports.get x
  match m.lastCursorSent with
  | none => n
  | some want =>
    if q.cursor ≠ some want then n
    else
      let left := itemsAfter m.snapshot.items want
      let items := left.take (frameLength left)
      let last := (items.getLast?).elim want Item.cursor
      let more := items.length < left.length
      let n := n.modifyExport x fun m => { m with lastCursorSent := some last }
      n.send (.exportFrame q.requester q.topicId q.corr (toInt32 (n.role ρ).epoch) (some want)
        (items.filterMap fun i => match i with | .body e => some e | .del _ => none)
        (items.filterMap fun i => match i with | .del d => some d | .body _ => none)
        ⟨some last, more, m.manifest.bodies.length, m.manifest.dels.length, m.hash⟩)

/-- A pull of an exchange with an open record: an offered one is bound, closed or left, a bound one
gets its next frame. -/
def mergeAnswerOpen (n : Node) (q : MergePull) (ρ : RoleRef) (x : ExportRef) : Node :=
  let m := n.exports.get x
  match m.state with
  | .offered =>
    if q.timing ≠ some m.timing then
      n.modifyRole ρ fun r =>
        let r := r.closeCorr q.corr
        if cfg.cutover then r.dropCandidate m.winner else r
    else if !(n.role ρ).isRoot || (n.role ρ).merge.gate.isSome
      || (n.role ρ).merge.completing.isSome then n
    else if cfg.cutover && q.staged && !q.handoff then
      n.modifyRole ρ fun r => (r.closeCorr q.corr).dropCandidate m.winner
    else n.mergeBind cfg q ρ x
  | .bound => n.mergeDataFrame q ρ x
  | .completed => n

/-- `_mergeAnswerPull`: the first pull of an exchange binds it, each later one gets the next
frame. Without an offer of its own the node answers a claim that wins over its own. -/
def mergeAnswerPull (n : Node) (q : MergePull) : Node :=
  match n.roleAt q.topicId with
  | none => n
  | some ρ =>
    match (n.role ρ).openMerges.get q.corr with
    | some x =>
      if (n.exports.get x).winner = q.requester then n.mergeAnswerOpen cfg q ρ x else n
    | none =>
      let claim : Claim NodeId := ⟨q.requester, q.winnerEpoch.getD 0⟩
      match q.timing with
      | none => n
      | some timing =>
        if q.corr ∈ (n.role ρ).merge.closedCorrs || !cfg.mergeCapable || !(n.role ρ).isRoot
          || !n.wins cfg q.topicId claim || !mergeTimingAccepted timing then n
        else
          let (h, x) := n.exports.alloc
            { winner := q.requester, winnerEpoch := q.winnerEpoch.getD 0,
              loserEpoch := toInt32 (n.role ρ).epoch, state := .offered, snapshot := ⟨[], []⟩,
              manifest := ⟨[], []⟩, lastCursorSent := none, offeredAt := n.now, tB := 0,
              tBWall := 0, timing, hash := none, reached := none, ephemeral := false,
              deferPinned := false, deferred := none }
          let n := { n with exports := h }
          let n := n.modifyRole ρ fun r =>
            { r with openMerges := r.openMerges.set q.corr x }
          n.mergeAnswerOpen cfg q ρ x

/-! ### The loser: acknowledgement and step-down -/

/-- STEP 5 (`_mergeStep5`), synchronous: the lease is checked again, the export pinned, the
token minted, and the claim given up with it. -/
def mergeStep5 (n : Node) (t : TopicId) (ρ : RoleRef) (corr : Corr) (x : ExportRef) : Node :=
  let m := n.exports.get x
  if !m.leaseOk n.world then n.mergeAbort ρ
  else
    let n := n.modifyRole ρ fun r => r.pin m.manifest
    let tok := n.world.nonce
    let gateCorr := (n.role ρ).merge.gate.map (·.corr)
    let n := n.modifyMerge ρ fun g => { g with
      releaseToken := some tok
      acceptedWinner := some ⟨m.winner, toInt32 m.winnerEpoch, n.now + cfg.stepDownHoldMs⟩ }
    match n.demote cfg t m.winner (.mergeStep5 corr m) (some tok) true with
    | (false, n) =>
      (n.modifyMerge ρ fun g => { g with releaseToken := none, acceptedWinner :=
        none }).mergeAbort ρ
    | (true, n) =>
      let n := if gateCorr = some corr then n.modifyRole ρ Role.gateClear else n
      let n := n.modifyExport x fun m => { m with state := .completed }
      -- a run suspended past the lease claims no completion
      if m.timing.A < n.world.mono - m.tB then n
      else
        let n := n.modifyMerge ρ fun g => { g with
          completing := some ⟨corr, m.winner, toInt32 m.winnerEpoch, toInt32 m.loserEpoch, m.hash⟩ }
        n.send (.subscribe t (n.role ρ).merge.completing)

/-- Do the six fields of an acknowledgement match a record? The topic and the exchange are what
the record was found by. -/
def ackMatches (m : Export) (a : ReplayAck) : Bool :=
  a.winner = m.winner && a.loser = cfg.nodeId
    && toInt32 (a.winnerEpoch.getD 0) = toInt32 m.winnerEpoch
    && toInt32 (a.loserEpoch.getD 0) = toInt32 m.loserEpoch

/-- Is the acknowledgement full for the record's manifest? -/
def ackFull (m : Export) (a : ReplayAck) : Bool :=
  a.disposition = .full && toInt32 a.retained = m.manifest.bodies.length
    && toInt32 a.delsActive = m.manifest.dels.length && a.hash = m.hash

/-- Does an answer refuse the exchange? -/
def isRefusal : Disposition → Bool
  | .refusedTiming | .refusedCapacity | .notRoot | .outranked => true
  | .busy => cfg.cutover
  | .full | .short => false

/-- Does a refusal leave no candidate behind? -/
def dropsCandidate : Disposition → Bool
  | .notRoot | .outranked => true
  | .refusedTiming | .refusedCapacity | .busy => cfg.cutover
  | .full | .short => false

/-- A refusal ends its exchange. -/
def onRefusal (n : Node) (ρ : RoleRef) (m : Export) (a : ReplayAck) : Node :=
  let n := n.modifyRole ρ fun r =>
    let r := r.closeCorr a.corr
    let r := if r.merge.gate.any (fun g => g.corr = a.corr) then r.gateClear else r
    if dropsCandidate cfg a.disposition then r.dropCandidate m.winner else r
  if cfg.cutover && (n.rootBeacons.get a.topicId).any (fun b => b.root = m.winner) then
    { n with rootBeacons := n.rootBeacons.delete a.topicId }
  else n

/-- `_onReplayAck`: the winner's answer. A full acknowledgement that matches a bound record
within its lease leads to step 5, at once or, for an ephemeral winner, when a second holder is
current. -/
def onReplayAck (n : Node) (a : ReplayAck) (secondHolder : Bool) : Node :=
  match n.roleAt a.topicId with
  | none => n
  | some ρ =>
    match (n.role ρ).openMerges.get a.corr with
    | none => n
    | some x =>
      let m := n.exports.get x
      if isRefusal cfg a.disposition then
        if a.winner = m.winner && a.loser = cfg.nodeId then n.onRefusal cfg ρ m a else n
      else if !ackMatches cfg m a || m.state ≠ .bound then n
      else if !m.leaseOk n.world then n.mergeAbort ρ
      else if !ackFull m a then n.mergeAbort ρ
      else
        let n := n.note (.acked ρ a.corr m a n.world)
        if cfg.successorGate && m.ephemeral && !secondHolder then
          let n := if m.deferPinned then n else n.modifyRole ρ fun r => r.pin m.manifest
          n.modifyExport x fun m => { m with deferPinned := true, deferred := some a }
        else n.mergeStep5 cfg a.topicId ρ a.corr x

/-- `_step5Tick`, for one record of one role: a deferred step 5 runs when a second holder is
current or the lease is over, and not when the round is no longer the one deferred. -/
def step5Tick (n : Node) (t : TopicId) (corr : Corr) (secondHolder : Bool) : Node :=
  if !cfg.successorGate then n
  else match n.roleAt t with
  | none => n
  | some ρ =>
    match (n.role ρ).openMerges.get corr with
    | none => n
    | some x =>
      let m := n.exports.get x
      let r := n.role ρ
      let gated := r.merge.gate.any fun g => g.corr = corr
      if m.deferred.isNone then n
      else if !r.isRoot || toInt32 r.epoch ≠ toInt32 m.loserEpoch || m.state ≠ .bound || !gated then
        let n := n.modifyExport x fun m => { m with deferred := none }
        if gated then n.mergeAbort ρ
        else (n.mergeUnpinDeferred ρ x).modifyRole ρ fun r => r.closeCorr corr
      else if m.leaseOk n.world && !secondHolder then n
      else (n.modifyExport x fun m => { m with deferred := none }).mergeStep5 cfg t ρ corr x

/-! ### The winner: frames, acknowledgement, completion -/

/-- The end of a transfer under `corr` as its frame says: the next pull, or at the end of the
export the digest of what was named. -/
def mergeFrameDone (n : Node) (ρ : RoleRef) (corr : Corr) (y : PullRef) (tally : Tally)
    (tail : FrameTail) : Node :=
  let n := n.modifyPull y fun p => { p with
    framesIn := p.framesIn + 1
    held := p.held + tally.held
    sent := p.sent + tally.sent
    cursor := tail.lastCursor.elim p.cursor some }
  if tail.more then n.mergePull (n.role ρ).topicId ρ corr (n.pulls.get y).cursor
  else n.park (.ack ρ corr y tail)

/-- The terminal acknowledgement: the retention check against the manifest, at this instant. -/
def mergeAck (n : Node) (ρ : RoleRef) (corr : Corr) (y : PullRef) (tail : FrameTail) : Node :=
  let r := n.role ρ
  let p := n.pulls.get y
  let hash := cfg.manifestHash p.manifest.bodies p.manifest.dels
  let retained := (p.manifest.bodies.filter fun id => id ∈ r.cacheIds || r.activeTomb n.now
    id).length
  let delsActive := (p.manifest.dels.filter fun id => r.activeTomb n.now id).length
  let full := retained = tail.bodies && delsActive = tail.dels
    && p.manifest.bodies.length = tail.bodies && p.manifest.dels.length = tail.dels
    && some hash = tail.hash
  let n := n.modifyPull y fun p =>
    { p with state := .acked, tS := n.now, hash := some hash, full := full }
  n.send (.replayAck p.loser ⟨r.topicId, corr, cfg.nodeId, some (toInt32 r.epoch), p.loser,
    some p.loserEpoch, retained, delsActive, some hash, if full then .full else .short⟩)

/-- The header of an export: admitted if the export and the reserve fit beside what is held,
which is then pinned. -/
def mergeHeader (n : Node) (ρ : RoleRef) (corr : Corr) (y : PullRef) (h : Header) : Node :=
  let r := n.role ρ
  let p := n.pulls.get y
  if (cfg.cacheMax : Int) < r.cache.length + toInt32 h.bodies + mergeWriteReserve.entries
    || (cfg.cacheBytes : Int) < r.cacheBytes + toInt32 h.bytes + mergeWriteReserve.bytes then
    let n := n.send (.replayAck p.loser ⟨r.topicId, corr, cfg.nodeId, some (toInt32 r.epoch),
      p.loser, some p.loserEpoch, 0, 0, none, .refusedCapacity⟩)
    (n.modifyRole ρ fun r => { r with openPulls := r.openPulls.delete corr }).stageEnd ρ corr
  else
    let n := n.modifyPull y fun p =>
      { p with header := true, cursor := some .header, baseline := r.cache.map (·.msgId) }
    let n := n.modifyMerge ρ fun m => { m with
      pins := m.pins ∪ (r.cache.map (·.msgId)).toFinset, reserve := some mergeWriteReserve }
    n.mergePull r.topicId ρ corr (some .header)

/-- `_mergeIngestFrame` up to its first `await`: the record and the cursor are checked, the ids
of the frame are pinned, and its deletions are applied. -/
def mergeIngestFrame (n : Node) (f : MergeFrame) : Node :=
  match n.roleAt f.topicId with
  | none => n
  | some ρ =>
    match (n.role ρ).openPulls.get f.corr with
    | none => n
    | some y =>
      let p := n.pulls.get y
      if p.state ≠ .pulling then n
      else if f.loserEpoch.any (fun e => e ≠ p.loserEpoch) then n
      else if f.refused then
        (n.modifyRole ρ fun r => { r with openPulls := r.openPulls.delete f.corr }).stageEnd ρ
          f.corr
      else match f.header with
        | some h => n.mergeHeader cfg ρ f.corr y h
        | none =>
          if f.cursor ≠ p.cursor then n
          else
            let n := n.modifyRole ρ fun r => r.pin f.slice
            let n := n.modifyPull y fun p => { p with
              manifest := ⟨p.manifest.bodies ++ f.slice.bodies, p.manifest.dels ++ f.slice.dels⟩ }
            let cut := n.cutCapture ρ
            let len := f.msgs.length
            match n.applyDels ρ f.topicId (some cut) none f.dels with
            | (true, n) =>
              n.park (.ingest ρ cut f.msgs ⟨len, 0, 0, false⟩ (.merge f.corr y f.tail))
            | (false, n) =>
              n.park (.ingest ρ cut [] ⟨len, 0, len, true⟩ (.merge f.corr y f.tail))

/-- A pull leaves the table, and `_mergeReleasePins` runs. -/
def endPull (n : Node) (ρ : RoleRef) (corr : Corr) : Node :=
  n.modifyRole ρ fun r => { r.releasePins with openPulls := r.openPulls.delete corr }

/-- `_mergeCompleteOnSub`: a SUB whose merge block matches an acknowledged pull completes it. -/
def mergeCompleteOnSub (n : Node) (ρ : RoleRef) (sub : NodeId) (via : List NodeId)
    (b : MergeBlock) : Node :=
  let r := n.role ρ
  match r.openPulls.get b.corr with
  | none => n
  | some y =>
    let p := n.pulls.get y
    if p.state ≠ .acked then n
    else if !(b.winner = cfg.nodeId && toInt32 (b.winnerEpoch.getD 0) = toInt32 r.epoch
      && toInt32 (b.loserEpoch.getD 0) = toInt32 p.loserEpoch && b.hash = p.hash && sub = p.loser
      && via.head?.all (fun v => v = cfg.nodeId)) || !p.full then n
    else
      let n := n.endPull ρ b.corr
      (n.send (.mergeClosed sub r.topicId b.corr (toInt32 r.epoch))).stagePromote cfg ρ p b.corr

/-- `_onMergeClosed`: the winner closes the round this node stepped down in. -/
def onMergeClosed (n : Node) (c : MergeClosed) : Node :=
  match n.roleAt c.topicId with
  | none => n
  | some ρ =>
    match (n.role ρ).merge.completing with
    | none => n
    | some k =>
      if k.corr ≠ c.corr || toInt32 (c.winnerEpoch.getD 0) ≠ k.winnerEpoch then n
      else
        n.modifyRole ρ fun r =>
          { r with merge := { r.merge with completing := none, pins := ∅ } }.closeCorr c.corr

/-! ### The sweep -/

/-- The sweep's word on one export record: an offer unanswered for too long is closed. Under
cutover, and where the offer did not surely arrive, the claim stays; otherwise it goes to a
winner that does not speak the merge. -/
def sweepExport (n : Node) (ρ : RoleRef) (corr : Corr) (x : ExportRef) : Node :=
  let m := n.exports.get x
  if m.state = .offered && mergeOfferTimeoutMs ≤ n.now - m.offeredAt then
    let n := n.modifyRole ρ fun r => r.closeCorr corr
    if cfg.cutover then n.modifyRole ρ fun r => r.dropCandidate m.winner
    else if m.reached ≠ some true || !(n.role ρ).isRoot || (n.role ρ).merge.gate.isSome then
      if m.reached ≠ some true && (n.role ρ).merge.gate.isNone then
        n.modifyRole ρ fun r => r.dropCandidate m.winner
      else n
    else
      let tok := n.world.nonce
      let n := n.modifyMerge ρ fun g => { g with releaseToken := some tok }
      (n.demote cfg (n.role ρ).topicId m.winner .mergeLegacyFallback (some tok) false).2
  else n

/-- The sweep's word on one pull record: past its retention, or too slow, it ends with its
pins. -/
def sweepPull (n : Node) (ρ : RoleRef) (corr : Corr) (y : PullRef) : Node :=
  let p := n.pulls.get y
  if (p.state = .acked && mergeRetentionMs ≤ n.now - p.tS)
    || (p.state = .pulling && mergeTimeoutMs ≤ n.now - p.startedAt) then
    (n.endPull ρ corr).stageEnd ρ corr
  else n

/-- `_mergeSweep`, for one role. -/
def sweepRole (n : Node) (ρ : RoleRef) : Node :=
  let n := if (n.role ρ).merge.gate.any (fun g => mergeTimeoutMs ≤ n.now - g.cutAt) then
      n.mergeAbort ρ else n
  let n := (n.role ρ).openMerges.entries.foldl (fun n e => n.sweepExport cfg ρ e.1 e.2) n
  (n.role ρ).openPulls.entries.foldl (fun n e => n.sweepPull ρ e.1 e.2) n

/-- `_mergeSweep`. -/
def mergeSweep (n : Node) : Node :=
  n.axonRoles.entries.foldl (fun n e => n.sweepRole cfg e.2) n

end Node

end Axona
