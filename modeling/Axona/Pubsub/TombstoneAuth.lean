import Mathlib.Data.List.Sort
import Axona.Library.Counters
import Axona.Pubsub.Node

/-! # The tombstone authority

A deletion is authoritative at a node only where the node holds the body the kill is about and the
kill is signed by the publisher of that body. Kills that came before their body wait as
candidates, and so do the kills a full store has no room for. Three bounded tables hold the
tombstones, the candidates and the bodies; a call takes the time from its caller. -/

namespace Axona

open Library

/-! ### Constants -/

/-- The allowance for the clocks of others, in milliseconds. -/
def clockSkew : Int := 5000

/-- `FUTURE_TOLERANCE_MS` of this module, in milliseconds. -/
def authFutureToleranceMs : Int := 30000

/-- How many times the share of one signer, or of one topic, fits in a store. -/
def sublimitFraction : Nat := 16

/-- The sizes a node is built with. -/
structure Profile where
  tombMaxCount : Nat
  candMax : Nat
  recordMax : Nat
deriving DecidableEq, Repr

/-- `RELAY_CAPS` -/
def relayCaps : Profile := ⟨32768, 8192, 768⟩

/-- Until when a candidate that came now is held. -/
def claimRetention (localReceipt : Int) : Int :=
  localReceipt + authFutureToleranceMs + ttlMs + clockSkew

/-- The share of one signer, or of one topic, in a store of so many entries. -/
def sublimit (count : Nat) : Nat := max 1 (count / sublimitFraction)

/-- The bounds of a store of so many entries. -/
def capsFor (count recordMax : Nat) : Caps :=
  ⟨count, count * recordMax, sublimit count, sublimit count⟩

/-! ### Keys and sizes -/

/-- `authKey`: a tombstone is kept under the topic and the message. -/
def authKey (topicId msgId : Text) : Text := topicId ++ '|' :: msgId

/-- What comes before the first separator. -/
def topicOf (k : Text) : Text := if '|' ∈ k then k.takeWhile (· ≠ '|') else k.dropLast

/-- The first two pieces of a key split at its separators. -/
def splitKey (k : Text) : Text × Text :=
  (k.takeWhile (· ≠ '|'), (k.dropWhile (· ≠ '|')).tail.takeWhile (· ≠ '|'))

/-- How many bytes a text is. -/
def canonicalBytes (s : Text) : Nat := (s.map Char.utf8Size).sum

/-- How many bytes a character is inside a quoted text. -/
def quotedChar (c : Char) : Nat :=
  if c = '"' ∨ c = '\\' then 2
  else if c.toNat = 8 ∨ c.toNat = 9 ∨ c.toNat = 10 ∨ c.toNat = 12 ∨ c.toNat = 13 then 2
  else if c.toNat < 32 then 6
  else c.utf8Size

/-- How many bytes a text is once it is quoted. -/
def quoted (s : Text) : Nat := 2 + (s.map quotedChar).sum

/-- How many bytes a whole number is in decimal. -/
def digits (n : Int) : Nat := (Nat.toDigits 10 n.natAbs).length + if n < 0 then 1 else 0

/-- `recBytesOf` of a candidate: its key, and its record in canonical form,
`{"killBytes":…,"signer":…}`. -/
def candBytesOf (k signer killBytes : Text) : Nat :=
  canonicalBytes k + (13 + quoted killBytes + 10 + quoted signer + 1)

/-- `recBytesOf` of a tombstone: its key, and its record in canonical form,
`{"effectiveDeath":…,"killBytes":…,"signerPubkey":…}`. -/
def tombBytesOf (k signer killBytes : Text) (effectiveDeath : Int) : Nat :=
  canonicalBytes k +
    (18 + digits effectiveDeath + 13 + quoted killBytes + 16 + quoted signer + 1)

/-! ### The bodies -/

/-- A body whose signature was verified. A body may have no publisher. -/
structure HeldBody where
  publisher : Option Text
  effectiveDeath : Int
  arrivedAt : Int
deriving DecidableEq, Repr

/-- The bodies, oldest first. -/
structure BodyCache where
  max : Nat
  map : OrderedMap Text HeldBody

namespace BodyCache

/-- Put a body. A full cache gives up its oldest one, and its key is answered. -/
def put (b : BodyCache) (k : Text) (body : HeldBody) : Option Text × BodyCache :=
  if b.map.has k = false ∧ b.max ≤ b.map.size then
    (b.map.keys.head?, { b with map := b.map.dropOldest.set k body })
  else (none, { b with map := b.map.set k body })

/-- Take a body out. Was it there? -/
def evict (b : BodyCache) (k : Text) : Bool × BodyCache :=
  (b.map.has k, { b with map := b.map.delete k })

end BodyCache

/-! ### The candidates -/

/-- What a candidate waits for: its body, or room for its tombstone. -/
inductive CandTag where
  | plain
  | pending
deriving DecidableEq, Repr

/-- A kill that is not authorized yet. -/
structure KillCandidate where
  signer : Text
  killBytes : Text
  tag : CandTag
  bodyArrivedAt : Option Int
  claimRet : Int
  bytes : Nat
deriving DecidableEq, Repr

/-- Why a candidate was not admitted, or that it was. -/
inductive CandAnswer where
  | dup
  | recordTooLarge
  | candGlobal
  | candBytes
  | candSigner
  | candTopic
  | admitted
deriving DecidableEq, Repr

/-- The candidates under their keys, and the books. -/
structure CandidateStore where
  caps : Caps
  recordMax : Nat
  map : OrderedMap Text (List KillCandidate)
  total : Int
  bytes : Int
  perSigner : Counters Text
  perTopic : Counters Text

namespace CandidateStore

/-- The candidates under a key. -/
def get (s : CandidateStore) (k : Text) : List KillCandidate := (s.map.get k).getD []

/-- The candidate of a signer under a key. -/
def find (s : CandidateStore) (k signer : Text) : Option KillCandidate :=
  (s.get k).find? fun c => decide (c.signer = signer)

/-- The books once the candidate `c` of the key `k` is gone. -/
def uncount (s : CandidateStore) (k : Text) (c : KillCandidate) : CandidateStore :=
  { s with
    total := s.total - 1, bytes := s.bytes - c.bytes,
    perSigner := s.perSigner.dec c.signer, perTopic := s.perTopic.dec (topicOf k) }

/-- The expired candidates of one key go, the last one first. -/
def reclaimKey (now : Int) (s : CandidateStore) (k : Text) : CandidateStore :=
  let list := s.get k
  let dead := list.reverse.filter fun c => decide (c.claimRet < now)
  let live := list.filter fun c => decide (now ≤ c.claimRet)
  let s := dead.foldl (fun s c => s.uncount k c) s
  { s with map := if live = [] then s.map.delete k else s.map.set k live }

/-- `reclaimExpired` of the candidates. -/
def reclaimExpired (s : CandidateStore) (now : Int) : CandidateStore :=
  s.map.keys.foldl (reclaimKey now) s

/-- `admitCand`: a candidate comes, unless its kill is there or a bound is met. -/
def admitCand (s : CandidateStore) (k signer killBytes : Text) (now : Int) (tag : CandTag)
    (bodyArrivedAt : Option Int) : CandAnswer × CandidateStore :=
  let s := s.reclaimExpired now
  let list := s.get k
  if list.any fun c => decide (c.signer = signer) then (.dup, s)
  else
    let bytes := candBytesOf k signer killBytes
    if s.recordMax < bytes then (.recordTooLarge, s)
    else if (s.caps.count : Int) ≤ s.total then (.candGlobal, s)
    else if (s.caps.size : Int) < s.bytes + bytes then (.candBytes, s)
    else if (s.caps.perOwner : Int) ≤ s.perSigner.count signer then (.candSigner, s)
    else if (s.caps.perGroup : Int) ≤ s.perTopic.count (topicOf k) then (.candTopic, s)
    else
      let c := ⟨signer, killBytes, tag, bodyArrivedAt, claimRetention now, bytes⟩
      (.admitted, { s with
        map := s.map.set k (list ++ [c]), total := s.total + 1, bytes := s.bytes + bytes,
        perSigner := s.perSigner.inc signer, perTopic := s.perTopic.inc (topicOf k) })

/-- Write over the first candidate of a signer in a list. -/
def tagFirst (signer : Text) (tag : CandTag) (bodyArrivedAt : Option Int) :
    List KillCandidate → List KillCandidate
  | [] => []
  | c :: cs =>
    if c.signer = signer then { c with tag := tag, bodyArrivedAt := bodyArrivedAt } :: cs
    else c :: tagFirst signer tag bodyArrivedAt cs

/-- `setTag` -/
def setTag (s : CandidateStore) (k signer : Text) (tag : CandTag) (bodyArrivedAt : Option Int) :
    CandidateStore :=
  match s.map.get k with
  | none => s
  | some list => { s with map := s.map.set k (tagFirst signer tag bodyArrivedAt list) }

/-- `demoteKey`: the body of a key is gone, and its candidates wait for it again. -/
def demoteKey (s : CandidateStore) (k : Text) : CandidateStore :=
  match s.map.get k with
  | none => s
  | some list =>
    let plain := list.map fun c => { c with tag := .plain, bodyArrivedAt := none }
    { s with map := s.map.set k plain }

/-- `remove`: the candidate of a signer goes. -/
def remove (s : CandidateStore) (k signer : Text) : CandidateStore :=
  match s.map.get k with
  | none => s
  | some list =>
    match list.find? fun c => decide (c.signer = signer) with
    | none => s
    | some c =>
      let rest := list.eraseP fun c => decide (c.signer = signer)
      let s := s.uncount k c
      { s with map := if rest = [] then s.map.delete k else s.map.set k rest }

/-- `purge`: every candidate of a key goes. How many were they? -/
def purge (s : CandidateStore) (k : Text) : Nat × CandidateStore :=
  match s.map.get k with
  | none => (0, s)
  | some list =>
    let s := list.foldl (fun s c => s.uncount k c) s
    (list.length, { s with map := s.map.delete k })

/-- `pendingOldestFirst`: the candidates that wait for room, by the arrival of their bodies. -/
def pendingOldestFirst (s : CandidateStore) : List (Text × KillCandidate) :=
  let out := s.map.entries.flatMap fun e =>
    (e.2.filter fun c => decide (c.tag = .pending)).map fun c => (e.1, c)
  out.insertionSort fun a b => a.2.bodyArrivedAt.getD 0 ≤ b.2.bodyArrivedAt.getD 0

end CandidateStore

/-! ### The tombstones -/

/-- An authoritative deletion. -/
structure AuthTombstone where
  signerPubkey : Text
  effectiveDeath : Int
  killBytes : Text
  bytes : Nat
deriving DecidableEq, Repr

/-- Why a tombstone has no room. -/
inductive TombRefusal where
  | recordTooLarge
  | globalCount
  | globalBytes
  | signer
  | topic
deriving DecidableEq, Repr

/-- Is `d` earlier than the earliest death on record? -/
def earlier (d : Int) (minDeath : Option Int) : Bool := minDeath.all fun m => decide (d < m)

/-- The tombstones under their keys, the books, and the earliest death on record, `none` for
none. -/
structure TombstoneStore where
  caps : Caps
  recordMax : Nat
  map : OrderedMap Text AuthTombstone
  bytes : Int
  perSigner : Counters Text
  perTopic : Counters Text
  minDeath : Option Int

namespace TombstoneStore

/-- A tombstone leaves the table and the books. -/
def drop (s : TombstoneStore) (k : Text) (r : AuthTombstone) : TombstoneStore :=
  { s with
    map := s.map.delete k, bytes := s.bytes - r.bytes,
    perSigner := s.perSigner.dec r.signerPubkey, perTopic := s.perTopic.dec (topicOf k) }

/-- One round of the reclaim, with the earliest death seen so far. -/
def reclaimRound (now : Int) (s : TombstoneStore × Option Int) (e : Text × AuthTombstone) :
    TombstoneStore × Option Int :=
  if e.2.effectiveDeath < now then (s.1.drop e.1 e.2, s.2)
  else if earlier e.2.effectiveDeath s.2 then (s.1, some e.2.effectiveDeath)
  else s

/-- `reclaimExpired` of the tombstones. -/
def reclaimExpired (s : TombstoneStore) (now : Int) : TombstoneStore :=
  if s.minDeath.all fun m => decide (now ≤ m) then s
  else
    let r := s.map.entries.foldl (reclaimRound now) (s, none)
    { r.1 with minDeath := r.2 }

/-- `wouldAdmit`: the first bound that a tombstone meets. -/
def wouldAdmit (s : TombstoneStore) (topicId k signer killBytes : Text) (effectiveDeath : Int) :
    Option TombRefusal :=
  let b := tombBytesOf k signer killBytes effectiveDeath
  if s.recordMax < b then some .recordTooLarge
  else if s.caps.count ≤ s.map.size then some .globalCount
  else if (s.caps.size : Int) < s.bytes + b then some .globalBytes
  else if (s.caps.perOwner : Int) ≤ s.perSigner.count signer then some .signer
  else if (s.caps.perGroup : Int) ≤ s.perTopic.count topicId then some .topic
  else none

/-- The record a tombstone is kept as. -/
def record (k signer killBytes : Text) (effectiveDeath : Int) : AuthTombstone :=
  ⟨signer, effectiveDeath, killBytes, tombBytesOf k signer killBytes effectiveDeath⟩

/-- `insert` -/
def insert (s : TombstoneStore) (topicId k : Text) (r : AuthTombstone) : TombstoneStore :=
  { s with
    map := s.map.set k r, bytes := s.bytes + r.bytes,
    minDeath := if earlier r.effectiveDeath s.minDeath then some r.effectiveDeath else s.minDeath,
    perSigner := s.perSigner.inc r.signerPubkey, perTopic := s.perTopic.inc topicId }

end TombstoneStore

/-! ### The authority -/

/-- What an observer counts. -/
structure Fx where
  cacheRemovals : Nat
  fanouts : Nat
  candidatePurges : Nat
  liveEvictions : Nat
  suppressions : Nat
  demotions : Nat
deriving DecidableEq, Repr

/-- That a tombstone was installed, and the body that was held under its key at that moment. -/
structure Install where
  key : Text
  record : AuthTombstone
  body : Option HeldBody
deriving DecidableEq, Repr

/-- The deletion state of a node. `installs` is the history of its tombstones. -/
structure TombstoneAuthority where
  tomb : TombstoneStore
  cand : CandidateStore
  bodies : BodyCache
  fx : Fx
  installs : List Install

/-- What `suppress` answers. -/
inductive SuppressAnswer where
  | confirmed
  | mismatchTomb
  | expired
  | refused (v : TombRefusal)
  | suppressed
deriving DecidableEq, Repr

/-- What `onKill` answers. -/
inductive KillAnswer where
  | confirmed
  | dropMismatchTomb
  | suppressed
  | dropExpired
  | pendingCapacity (r : SuppressAnswer) (a : CandAnswer)
  | dropNonauthorBodypresent
  | candidate (a : CandAnswer)
deriving DecidableEq, Repr

/-- What `onBody` answers. -/
inductive BodyAnswer where
  | suppressedTombstone
  | dropExpired
  | suppressed
  | pendingCapacity (r : SuppressAnswer)
  | delivered
deriving DecidableEq, Repr

namespace TombstoneAuthority

/-- A node that has seen nothing yet. -/
def create (profile : Profile) (bodyMax : Nat) : TombstoneAuthority where
  tomb := ⟨capsFor profile.tombMaxCount profile.recordMax, profile.recordMax, ∅, 0, ∅, ∅, none⟩
  cand := ⟨capsFor profile.candMax profile.recordMax, profile.recordMax, ∅, 0, 0, ∅, ∅⟩
  bodies := ⟨bodyMax, ∅⟩
  fx := ⟨0, 0, 0, 0, 0, 0⟩
  installs := []

/-- The tombstones whose death has passed go. -/
def reclaimTombs (s : TombstoneAuthority) (now : Int) : TombstoneAuthority :=
  { s with tomb := s.tomb.reclaimExpired now }

/-- The candidates of a key go, and the purge is counted. -/
def purgeCand (s : TombstoneAuthority) (k : Text) : TombstoneAuthority :=
  let (count, cand) := s.cand.purge k
  { s with
    cand := cand,
    fx := if 0 < count then { s.fx with candidatePurges := s.fx.candidatePurges + 1 } else s.fx }

/-- The commit of a deletion: the tombstone comes, the body and the candidates of its key go. -/
def commit (s : TombstoneAuthority) (topicId k : Text) (r : AuthTombstone) :
    TombstoneAuthority :=
  let s := { s with
    tomb := s.tomb.insert topicId k r
    installs := ⟨k, r, s.bodies.map.get k⟩ :: s.installs }
  let (had, bodies) := s.bodies.evict k
  let s := { s with
    bodies := bodies,
    fx := { s.fx with
      cacheRemovals := s.fx.cacheRemovals + (if had then 1 else 0), fanouts := s.fx.fanouts + 1 } }
  let s := s.purgeCand k
  { s with fx := { s.fx with suppressions := s.fx.suppressions + 1 } }

/-- `suppress`: all or nothing, and nothing once the committed death has passed. -/
def suppress (s : TombstoneAuthority) (topicId msgId signer killBytes : Text)
    (effectiveDeath now : Int) : SuppressAnswer × TombstoneAuthority :=
  let k := authKey topicId msgId
  let s := s.reclaimTombs now
  match s.tomb.map.get k with
  | some existing =>
    (if existing.signerPubkey = signer then .confirmed else .mismatchTomb, s)
  | none =>
    if effectiveDeath < now then (.expired, s)
    else match s.tomb.wouldAdmit topicId k signer killBytes effectiveDeath with
      | some v => (.refused v, s)
      | none =>
        (.suppressed, s.commit topicId k (TombstoneStore.record k signer killBytes effectiveDeath))

/-- `_putBody`: the candidates of a body that had to go for it wait for their body again. -/
def putBody (s : TombstoneAuthority) (k : Text) (body : HeldBody) : TombstoneAuthority :=
  match s.bodies.put k body with
  | (none, bodies) => { s with bodies := bodies }
  | (some ev, bodies) =>
    { s with
      bodies := bodies, cand := s.cand.demoteKey ev,
      fx := { s.fx with
        liveEvictions := s.fx.liveEvictions + 1, demotions := s.fx.demotions + 1 } }

/-- `onKill`: a kill comes whose signature was verified. -/
def onKill (s : TombstoneAuthority) (topicId msgId signer killBytes : Text) (now : Int) :
    KillAnswer × TombstoneAuthority :=
  let k := authKey topicId msgId
  let s := s.reclaimTombs now
  match s.tomb.map.get k with
  | some tomb => (if tomb.signerPubkey = signer then .confirmed else .dropMismatchTomb, s)
  | none =>
    match s.bodies.map.get k with
    | some body =>
      if body.publisher = some signer then
        match s.suppress topicId msgId signer killBytes body.effectiveDeath now with
        | (.suppressed, s) => (.suppressed, s)
        | (.expired, s) => (.dropExpired, s)
        | (r, s) =>
          let (a, cand) := s.cand.admitCand k signer killBytes now .pending (some body.arrivedAt)
          (.pendingCapacity r a, { s with cand := cand })
      else (.dropNonauthorBodypresent, s)
    | none =>
      let (a, cand) := s.cand.admitCand k signer killBytes now .plain none
      (.candidate a, { s with cand := cand })

/-- `isSuppressed`: does a tombstone stand against the message now? -/
def isSuppressed (s : TombstoneAuthority) (topicId msgId : Text) (now : Int) : Bool :=
  match s.tomb.map.get (authKey topicId msgId) with
  | none => false
  | some r => decide (now ≤ r.effectiveDeath)

/-- `onBody`: a body comes that was verified. -/
def onBody (s : TombstoneAuthority) (topicId msgId : Text) (publisher : Option Text)
    (effectiveDeath now : Int) : BodyAnswer × TombstoneAuthority :=
  let k := authKey topicId msgId
  let s := s.reclaimTombs now
  if s.isSuppressed topicId msgId now then (.suppressedTombstone, s)
  else if effectiveDeath < now then (.dropExpired, s)
  else
    let s := s.putBody k ⟨publisher, effectiveDeath, now⟩
    match publisher.bind fun p => s.cand.find k p with
    | some c =>
      match s.suppress topicId msgId c.signer c.killBytes effectiveDeath now with
      | (.suppressed, s) => (.suppressed, s)
      | (.confirmed, s) => (.suppressed, s)
      | (.expired, s) => (.dropExpired, s)
      | (r, s) =>
        (.pendingCapacity r, { s with cand := s.cand.setTag k c.signer .pending (some now) })
    | none =>
      if s.cand.get k = [] then (.delivered, s) else (.delivered, s.purgeCand k)

/-- `evictBody`: a body goes for a reason of the caller. -/
def evictBody (s : TombstoneAuthority) (topicId msgId : Text) : Bool × TombstoneAuthority :=
  let k := authKey topicId msgId
  let (had, bodies) := s.bodies.evict k
  let cand := s.cand.demoteKey k
  (had, { s with
    bodies := bodies, cand := cand,
    fx := if had then { s.fx with demotions := s.fx.demotions + 1 } else s.fx })

/-- One candidate is tried again. -/
def retry (now : Int) (s : TombstoneAuthority) (p : Text × KillCandidate) : TombstoneAuthority :=
  match s.bodies.map.get p.1 with
  | none => s
  | some body =>
    if body.publisher = some p.2.signer ∧ now ≤ body.effectiveDeath then
      let (t, m) := splitKey p.1
      match s.suppress t m p.2.signer p.2.killBytes body.effectiveDeath now with
      | (.suppressed, s) => { s with cand := s.cand.remove p.1 p.2.signer }
      | (_, s) => s
    else s

/-- `reclaimAndRetry` -/
def reclaimAndRetry (s : TombstoneAuthority) (now : Int) : TombstoneAuthority :=
  let s := s.reclaimTombs now
  let s := { s with cand := s.cand.reclaimExpired now }
  s.cand.pendingOldestFirst.foldl (retry now) s

/-! ### Calls -/

end TombstoneAuthority

/-- What a node asks of its authority. -/
inductive AuthCall where
  | body (topicId msgId : Text) (publisher : Option Text) (effectiveDeath now : Int)
  | kill (topicId msgId signer killBytes : Text) (now : Int)
  | suppress (topicId msgId signer killBytes : Text) (effectiveDeath now : Int)
  | evictBody (topicId msgId : Text)
  /-- A topic is given up, and a body of it goes without a word to the candidates. -/
  | dropBody (k : Text)
  | sweep (now : Int)
  | reclaim (now : Int)
deriving DecidableEq, Repr

/-- What a call answers. -/
inductive AuthAnswer where
  | body (a : BodyAnswer)
  | kill (a : KillAnswer)
  | suppress (a : SuppressAnswer)
  | evicted (had : Bool)
  | done
deriving DecidableEq, Repr

/-- The time of a call, for those that are given one. -/
def AuthCall.time : AuthCall → Option Int
  | .body _ _ _ _ now | .kill _ _ _ _ now | .suppress _ _ _ _ _ now => some now
  | .evictBody _ _ | .dropBody _ => none
  | .sweep now | .reclaim now => some now

namespace TombstoneAuthority

/-- One call. -/
def call (s : TombstoneAuthority) : AuthCall → AuthAnswer × TombstoneAuthority
  | .body topicId msgId publisher effectiveDeath now =>
    let (a, s) := s.onBody topicId msgId publisher effectiveDeath now
    (.body a, s)
  | .kill topicId msgId signer killBytes now =>
    let (a, s) := s.onKill topicId msgId signer killBytes now
    (.kill a, s)
  | .suppress topicId msgId signer killBytes effectiveDeath now =>
    let (a, s) := s.suppress topicId msgId signer killBytes effectiveDeath now
    (.suppress a, s)
  | .evictBody topicId msgId =>
    let (had, s) := s.evictBody topicId msgId
    (.evicted had, s)
  | .dropBody k => (.done, { s with bodies := (s.bodies.evict k).2 })
  | .sweep now => (.done, s.reclaimAndRetry now)
  | .reclaim now =>
    let s := s.reclaimTombs now
    (.done, { s with cand := s.cand.reclaimExpired now })

/-- The state after a call. -/
def step (s : TombstoneAuthority) (c : AuthCall) : TombstoneAuthority := (s.call c).2

end TombstoneAuthority

end Axona
