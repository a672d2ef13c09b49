import Mathlib.Data.Finset.Image
import Mathlib.Algebra.BigOperators.Group.List.Basic
import Axona.Pubsub.Node

/-! # The topic store

One implementation of what a role holds: the bounded cache, the tombstones and the rule that
authorizes them, the wire form of migrated deletions, and the exactly-once memory of what the
app was given. The check every write makes immediately before it commits, `cutHolds`, stands
first. -/

namespace Axona

open Library

/-! ### The cut -/

namespace Node

/-- `_cutCapture`: taken once, before the first `await` of a commit path. -/
def cutCapture (n : Node) (ρ : RoleRef) : Cut := ⟨ρ, toInt32 (n.role ρ).gen⟩

/-- `_cutHolds`: may a write commit in this role now? Not while an unstaged gate stands, not
once its termination began or it was retired, not when another object is registered for its
topic, and not when the role was cut since the capture. -/
def cutHolds (n : Node) (ρ : RoleRef) (cut : Option Cut) : Bool :=
  let r := n.role ρ
  if r.merge.gate.any (fun g => !g.staged) then false
  else if r.dismantling.isSome then false
  else if r.retired then false
  else if (n.roleAt r.topicId).any (fun live => live ≠ ρ) then false
  else match cut with
    | none => true
    | some c => ρ = c.role0 && toInt32 r.gen = c.gen0

end Node

/-! ### The cache -/

namespace Role

/-- Is the id exempt from eviction and expiry? -/
def pinned (r : Role) (id : MsgId) : Bool := id ∈ r.merge.pins

/-- The cache becomes `rest`, with the entries `gone` taken out of it. -/
def forget (r : Role) (gone rest : List Entry) : Role :=
  { r with
    cache := rest
    cacheIds := r.cacheIds \ (gone.map (·.msgId)).toFinset
    cacheBytes := r.cacheBytes - (gone.map (·.bytes)).sum }

/-- Put an entry last. -/
def append (r : Role) (e : Entry) : Role :=
  { r with
    cache := r.cache ++ [e]
    cacheIds := insert e.msgId r.cacheIds
    cacheBytes := r.cacheBytes + e.bytes }

/-- The eviction loop of `_cachePush`: while a cap is exceeded the oldest unpinned entry goes;
with nothing unpinned it stops. `guard` bounds the rounds. -/
def evict (cacheMax cacheBytes : Nat) : Nat → Role → Role
  | 0, r => r
  | guard + 1, r =>
    if r.cache.length > cacheMax ∨ r.cacheBytes > cacheBytes then
      match r.cache.findIdx? (fun e => !r.pinned e.msgId) with
      | none => r
      | some i => evict cacheMax cacheBytes guard (r.forget (r.cache[i]?).toList
        (r.cache.eraseIdx i))
    else r

/-- A metric topic keeps the newest body: every other unpinned entry goes. -/
def trimToLatest (r : Role) : Role :=
  if r.latestOnly = some true ∧ 1 < r.cache.length then
    r.forget (r.cache.dropLast.filter fun e => !r.pinned e.msgId)
      (r.cache.dropLast.filter (fun e => r.pinned e.msgId) ++ r.cache.getLast?.toList)
  else r

/-- In a metric topic, is the body no newer than the newest one held? -/
def superseded (r : Role) (publishTs : Int) : Bool :=
  r.latestOnly = some true && r.cache.any (fun e => publishTs ≤ e.publishTs)

/-- The commit of `_cachePush`. -/
def push (r : Role) (cacheMax cacheBytes : Nat) (e : Entry) : Role :=
  if r.superseded e.publishTs then r
  else
    let r := r.append e
    (r.evict cacheMax cacheBytes (r.cache.length + 1)).trimToLatest

/-- `_expireCache`: of the run of old entries at the head of the cache, the unpinned ones go. -/
def expireCache (r : Role) (now : Int) : Role :=
  let old := r.cache.takeWhile fun e => now - e.publishTs > ttlMs
  let rest := r.cache.dropWhile fun e => now - e.publishTs > ttlMs
  r.forget (old.filter fun e => !r.pinned e.msgId)
    (old.filter (fun e => r.pinned e.msgId) ++ rest)

/-- `_expireTombstones`: an expired tombstone goes unless it is pinned. -/
def expireTombstones (r : Role) (now : Int) : Role :=
  { r with tombstones := r.tombstones.filter fun id t => !(t.exp ≤ now && !r.pinned id) }

/-- `_activeDels`: the tombstones that have not expired, in wire form. -/
def activeDels (r : Role) (now : Int) : List Del :=
  (r.tombstones.entries.filter fun e => now < e.2.exp).map fun e =>
    ⟨e.1, some e.2.killTs, e.2.signer, e.2.seq⟩

/-- The bodies of `_replayTo`: those above the floor, and on demand the last one below it too. -/
def replayBodies (r : Role) (since : Int) (latest : Bool) : List Entry :=
  let above := r.cache.filter fun e => since < e.publishTs
  match latest, r.cache.getLast? with
  | true, some e => if above.any fun e' => e'.msgId = e.msgId then above else above ++ [e]
  | _, _ => above

/-- `hasCustody`: the role holds a body or an active tombstone. -/
def hasCustody (r : Role) (now : Int) : Bool :=
  !r.cache.isEmpty || !(r.activeDels now).isEmpty

/-- `_tombstoned`: is the body to be dropped? Only a kill by the body's own author stands; any
other tombstone of it is revoked. -/
def tombstoned (r : Role) (id : MsgId) (json : Json) : Bool × Role :=
  match r.tombstones.get id with
  | none => (false, r)
  | some t =>
    match t.signer with
    | none | some [] => (true, r)
    | some s =>
      if json.author = some (lc s) then (true, r)
      else (false, { r with tombstones := r.tombstones.delete id })

/-- The commit of `_applyKill`: the tombstone is set and the first entry with its id goes. -/
def bury (r : Role) (id : MsgId) (t : Tombstone) : Role :=
  { r with
    tombstones := r.tombstones.set id t
    cache := r.cache.eraseP (fun e => e.msgId = id)
    cacheIds := r.cacheIds.erase id
    cacheBytes := r.cacheBytes - ((r.cache.find? fun e => e.msgId = id).elim 0 (·.bytes) : Nat) }

/-- One more obligation delivered a deletion that is already held. -/
def ownTombstone (r : Role) (id : MsgId) (g : Gen) : Role :=
  match r.tombstones.get id with
  | none => r
  | some t =>
    { r with tombstones :=
        r.tombstones.set id { t with owners := insert (g.root, toInt32 g.epoch) t.owners } }

/-- A tombstone without an owner that ended; one with no owner left goes. Without a generation to
name, an untagged one goes. -/
def disowned (owner : Option Gen) (t : Tombstone) : Option Tombstone :=
  match owner with
  | none => if t.owners = ∅ then none else some t
  | some g =>
    if (g.root, toInt32 g.epoch) ∈ t.owners then
      let owners := t.owners.erase (g.root, toInt32 g.epoch)
      if owners = ∅ then none else some { t with owners }
    else some t

/-- An obligation ended: it leaves the owners of each tombstone. -/
def dropOwned (r : Role) (owner : Option Gen) : Role :=
  { r with tombstones := r.tombstones.entries.foldl (fun m e =>
      match disowned owner e.2 with
      | none => m.delete e.1
      | some t => m.set e.1 t) r.tombstones }

/-- Raise the counters above a recovered stamp. -/
def recover (r : Role) (publishTs : Int) (seq : Option Int) : Role :=
  { r with lastTs := max r.lastTs publishTs, seq := max r.seq (seq.getD r.seq) }

end Role

namespace Node

variable (cfg : Config)

/-- `_cachePush`: `false` when refused at the cut. -/
def cachePush (n : Node) (ρ : RoleRef) (e : Entry) (cut : Option Cut) : Bool × Node :=
  if n.cutHolds ρ cut then
    (true, (n.modifyRole ρ fun r => r.push cfg.cacheMax cfg.cacheBytes e).note
      (.cached ρ (n.role ρ) e))
  else (false, n)

/-- `_tombstoned`, on the role if there is one. -/
def tombstoned (n : Node) (ρ : Option RoleRef) (id : MsgId) (json : Json) : Bool × Node :=
  match ρ with
  | none => (false, n)
  | some ρ =>
    let (dead, r) := (n.role ρ).tombstoned id json
    (dead, n.modifyRole ρ fun _ => r)

/-! ### App delivery -/

/-- The key of a body in the delivery memory. -/
def bodyKey (t : TopicId) (id : MsgId) : AppKey := (t, id)

/-- What a kill's key has in front of the message id. -/
def killTag : Text := ['k', 'i', 'l', 'l', ':']

/-- The key of a kill in the delivery memory. -/
def killKey (t : TopicId) (id : MsgId) : AppKey := (t, killTag ++ id)

/-- Remember a key; past the bound the oldest one goes. -/
def rememberKey (n : Node) (k : AppKey) : Node :=
  let m := n.appDelivered.set k ()
  { n with appDelivered := if appDedupMax < m.size then m.dropOldest else m }

/-- The newest stamp the app was given of a topic, `0` at first. -/
def seenTs (n : Node) (t : TopicId) : Int := (n.lastSeen.get t).getD 0

/-- A stamp the app was given raises the floor of a renewal. -/
def sawStamp (n : Node) (t : TopicId) (ts : Int) : Node :=
  if n.seenTs t < ts then { n with lastSeen := n.lastSeen.set t ts } else n

/-- `_deliverToApp`: give the app a body, once. -/
def deliverToApp (n : Node) (t : TopicId) (id : MsgId) (ts : Int) : Node :=
  if t ∉ n.mySubscriptions then n
  else if n.appDelivered.has (bodyKey t id) then n
  else
    let n := (n.rememberKey (bodyKey t id)).sawStamp t ts
    { n with app := .body t id :: n.app }

/-- `_deliverKillToApp`: tell the app, once, that a body it was given is retracted. The floor is
raised each time. -/
def deliverKillToApp (n : Node) (t : TopicId) (id : MsgId) (killTs : Int) : Node :=
  if t ∉ n.mySubscriptions then n
  else
    let n := n.sawStamp t killTs
    if n.appDelivered.has (killKey t id) then n
    else
    let n := n.rememberKey (killKey t id)
    if n.appDelivered.has (bodyKey t id) then { n with app := .killed t id :: n.app } else n

/-! ### Kills -/

/-- `_applyKill`: `false` when refused at the cut. The first sight of a kill sets the tombstone
and drops the body; every sight tells the app. -/
def applyKill (n : Node) (ρ : Option RoleRef) (t : TopicId) (d : Del) (cut : Option Cut)
    (genTag : Option Gen) : Bool × Node :=
  match ρ with
  | none => (true, n.deliverKillToApp t d.msgId (d.killTs.getD n.now))
  | some ρ =>
    if n.cutHolds ρ cut then
      let killTs := d.killTs.getD n.now
      let n := n.modifyRole ρ fun r => { r with seq := max r.seq (d.seq.getD r.seq) }
      let n :=
        if (n.role ρ).tombstones.has d.msgId then
          n.modifyRole ρ fun r => genTag.elim r (r.ownTombstone d.msgId)
        else
          let tomb : Tombstone := ⟨n.now + ttlMs, killTs, d.signer, d.seq,
            genTag.elim ∅ fun g => {(g.root, toInt32 g.epoch)}⟩
          (n.modifyRole ρ fun r => r.bury d.msgId tomb).note (.ingested ρ killTs d.seq false)
      (true, n.deliverKillToApp t d.msgId killTs)
    else (false, n)

/-- `_applyDels`: migrated deletions, in order, up to the first one refused at the cut. -/
def applyDels (n : Node) (ρ : RoleRef) (t : TopicId) (cut : Option Cut) (genTag : Option Gen) :
    List Del → Bool × Node
  | [] => (true, n)
  | d :: ds =>
    match n.applyKill (some ρ) t d cut genTag with
    | (true, n') => applyDels n' ρ t cut genTag ds
    | (false, n') => (false, n')

/-- `_replayLocal`: give the app what a role holds above a floor, and its active kills. -/
def replayLocal (n : Node) (ρ : RoleRef) (since : Int) (latest : Bool) : Node :=
  let r := n.role ρ
  let n := (r.cache.filter fun e => since < e.publishTs).foldl
    (fun n e => n.deliverToApp r.topicId e.msgId e.publishTs) n
  let n := match latest, r.cache.getLast? with
    | true, some e => n.deliverToApp r.topicId e.msgId e.publishTs
    | _, _ => n
  (r.activeDels n.now).foldl
    (fun n d => n.deliverKillToApp r.topicId d.msgId (d.killTs.getD n.now)) n

end Node

end Axona
