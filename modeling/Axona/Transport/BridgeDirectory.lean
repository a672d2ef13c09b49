import Axona.Library.Ranking
import Axona.Transport.Wire
import Mathlib.Data.Prod.Lex

/-! # The bridge directory

How a client orders the bridges it may bootstrap through (`bridgeDirectory.js`): the configured
roots, then those of the public directory that it has reached before, then those it never tried,
then those that have only failed.

An entry is a message of a public topic, so anyone may have written it: `validateBridgeEntry` is
what stands between the message and the ranking. The label, the version and the TURN endpoints of
an entry are passed on by the code and read by nothing here, and are left out. The great circle is
floating point and is a parameter. -/

namespace Axona

open Library

/-- A point on the globe. -/
structure Location where
  lat : ℚ
  lng : ℚ
deriving DecidableEq

/-- `/^wss:\/\/[^\s]+$/` -/
def isWssUrl (url : Text) : Bool :=
  url.take 6 == "wss://".toList && !(url.drop 6).isEmpty && (url.drop 6).all fun c => !isSpace c

/-- A directory entry as `validateBridgeEntry` lets it through. -/
structure BridgeEntry where
  url : Text
  lat : ℚ
  lng : ℚ
  /-- When it was published, `0` where it does not say. -/
  ts : ℚ
  wss : isWssUrl url = true
  lat_range : -90 ≤ lat ∧ lat ≤ 90
  lng_range : -180 ≤ lng ∧ lng ≤ 180
deriving DecidableEq

/-- `validateBridgeEntry`: the entry in a message, `none` where it is malformed. -/
def validateBridgeEntry (msg : JsValue) : Option BridgeEntry :=
  match msg.field "url", msg.field "lat", msg.field "lng" with
  | some (.str url), some (.num lat), some (.num lng) =>
    let ts := match msg.field "ts" with
      | some (.num ts) => ts
      | _ => 0
    if hurl : isWssUrl url = true then
      if hlat : -90 ≤ lat ∧ lat ≤ 90 then
        if hlng : -180 ≤ lng ∧ lng ≤ 180 then some ⟨url, lat, lng, ts, hurl, hlat, hlng⟩
        else none
      else none
    else none
  | _, _, _ => none

/-- What a client has seen of a bridge itself. -/
structure Reputation where
  okCount : Option ℚ := none
  failCount : Option ℚ := none
  lastOkAt : Option ℚ := none
  lastRttMs : Option ℚ := none
  lastTimeToMeshMs : Option ℚ := none
  firstSeen : Option ℚ := none
deriving DecidableEq

namespace Reputation

/-- `rep.okCount > 0` -/
def succeeded (rep : Reputation) : Bool := rep.okCount.any fun n => 0 < n

/-- `rep.failCount > 0` -/
def failed (rep : Reputation) : Bool := rep.failCount.any fun n => 0 < n

/-- `latency` -/
def latency (rep : Reputation) : WithTop ℚ := (rep.lastTimeToMeshMs <|> rep.lastRttMs).elim ⊤ (↑)

end Reputation

/-- `x || …`: a number that is there and not zero. -/
def nonzero (x : Option ℚ) : Option ℚ := x.filter fun n => n ≠ 0

/-- Why a bridge is where it is: `source` and `reason`. -/
inductive BridgeSource where
  /-- `root`, `configured` -/
  | root
  /-- `known`, `prior-success` -/
  | known
  /-- `fresh`, `directory` -/
  | fresh
  /-- `fresh`, `prior-failure` -/
  | tried
deriving DecidableEq, Repr

/-- A bridge to try. -/
structure BridgeCandidate where
  url : Text
  source : BridgeSource
deriving DecidableEq, Repr

/-- What `rankBridges` is called with, and the great circle that `haversineKm` computes. -/
structure BridgeRanking where
  roots : List Text
  entries : List (Option BridgeEntry)
  reputation : Text → Option Reputation
  self : Option Location
  now : ℚ
  maxAgeMs : ℚ
  greatCircle : Location → Location → ℚ

namespace BridgeRanking

/-- The roots, each once, in order. -/
def configured : List Text → List Text → List Text
  | _, [] => []
  | seen, url :: roots =>
    if url ≠ [] ∧ url ∉ seen then url :: configured (url :: seen) roots
    else configured seen roots

variable (d : BridgeRanking)

/-- The client's own experience with a bridge, `{}` where it has none. -/
def rep (url : Text) : Reputation := (d.reputation url).getD {}

/-- `e.ts && now - e.ts > maxAgeMs` -/
def stale (e : BridgeEntry) : Bool := e.ts ≠ 0 ∧ d.maxAgeMs < d.now - e.ts

/-- `haversineKm(self, e)` -/
def haversineKm (e : BridgeEntry) : WithTop ℚ :=
  match d.self with
  | none => ⊤
  | some p => (d.greatCircle p ⟨e.lat, e.lng⟩ : ℚ)

/-- The tier of an entry, by the reputation of its url. -/
def tier (e : BridgeEntry) : BridgeSource :=
  if (d.rep e.url).succeeded then .known
  else if (d.rep e.url).failed then .tried
  else .fresh

/-- The entries that the loop does not skip. -/
def considered : List BridgeEntry :=
  d.entries.reduceOption.filter fun e => !(configured [] d.roots).contains e.url && !d.stale e

/-- By what the known-good are sorted: the latest success first, then the lower latency. -/
def knownKey (e : BridgeEntry) : WithTop ℚ ×ₗ WithTop ℚ :=
  toLex (((-((d.rep e.url).lastOkAt.getD 0) : ℚ) : WithTop ℚ), (d.rep e.url).latency)

/-- By what the untried are sorted: the nearest first, then the longest-standing. -/
def freshKey (e : BridgeEntry) : WithTop ℚ ×ₗ WithTop ℚ :=
  toLex (d.haversineKm e, (nonzero (d.rep e.url).firstSeen <|> nonzero (some e.ts)).elim ⊤ (↑))

/-- By what the failed are sorted: the nearest first. -/
def triedKey (e : BridgeEntry) : WithTop ℚ ×ₗ WithTop ℚ := toLex (d.haversineKm e, 0)

/-- What is put out for an entry. -/
def candidate (e : BridgeEntry) : BridgeCandidate := ⟨e.url, d.tier e⟩

/-- The considered entries in the order they are put out. -/
def ranked : List BridgeEntry :=
  let known := d.considered.filter fun e => d.tier e = .known
  let fresh := d.considered.filter fun e => d.tier e = .fresh
  let tried := d.considered.filter fun e => d.tier e = .tried
  sortBy d.knownKey known ++ sortBy d.freshKey fresh ++ sortBy d.triedKey tried

/-- `rankBridges` -/
def rankBridges : List BridgeCandidate :=
  (configured [] d.roots).map (⟨·, .root⟩) ++ d.ranked.map d.candidate

end BridgeRanking

end Axona
