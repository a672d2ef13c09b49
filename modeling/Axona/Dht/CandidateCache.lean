import Axona.Library.OrderedMap
import Axona.Library.Transition
import Mathlib.Algebra.Order.Ring.Rat

/-! # The candidate cache of the fill

The peers a node was told of and may dial (`_nominateCandidate`, `_onNoPath` and the dial loop of
`_fillTick`). A nomination is checked and entered under its source; a dial takes its candidate out,
and an offer that could not be delivered puts it back, under the source that the dial carried. A
peer that answers a search names whatever integers it likes, so a candidate is an integer. -/

namespace Axona

open Library

/-- Who nominated a candidate. -/
inductive CandidateSource where
  | near
  | band
  | closestSet
  | lookahead
  | directory
  /-- A sample of the peers of another node. -/
  | pex
deriving DecidableEq, Repr

/-- What the cache keeps with a candidate. -/
structure CacheEntry where
  src : CandidateSource
  /-- When it was entered. -/
  time : ℚ
  noPathUntil : Option ℚ
deriving DecidableEq

/-- How the cache is configured. -/
structure CacheConfig where
  self : Int
  kCache : Nat
  /-- `_fillArmed` -/
  armed : Bool
  /-- `_noPathOn` -/
  noPathOn : Bool

/-- The share of the peer exchange. -/
def CacheConfig.pexCap (c : CacheConfig) : Nat := max 1 (c.kCache / 2)

/-- What a node finds when it looks at a nominee. -/
structure Nominee where
  inTable : Bool
  bound : Bool
  /-- Is its channel of class I? -/
  classI : Bool
  eligible : Bool
deriving DecidableEq

/-- What comes of a dial of the fill. -/
inductive DialResult where
  | skip
  | bound
  | held
  | deferred
  | deferredDeficit
  | failed
  | added
deriving DecidableEq, Repr

/-- The candidates of a node. -/
structure Candidates where
  /-- `_fillCache` -/
  cache : OrderedMap Int CacheEntry
  /-- `_heldSrc` -/
  heldSrc : OrderedMap Int CandidateSource

namespace Candidates

/-- No candidates yet. -/
def init : Candidates := ⟨∅, ∅⟩

variable (c : CacheConfig)

/-- How many candidates are of the peer exchange. -/
def pexCount (s : Candidates) : Nat := s.cache.countP fun e => e.src = .pex

/-- The older of two candidates, the first where they are as old. -/
def older (oldest : Option (Int × CacheEntry)) (e : Int × CacheEntry) : Option (Int × CacheEntry) :=
  if e.2.src = .pex then
    match oldest with
    | none => some e
    | some o => if e.2.time < o.2.time then some e else oldest
  else oldest

/-- The oldest candidate of the peer exchange. -/
def oldestPex (s : Candidates) : Option (Int × CacheEntry) := s.cache.entries.foldl older none

/-- Where the share is full, its oldest candidate goes. -/
def evictPex (s : Candidates) : Candidates :=
  if c.pexCap ≤ s.pexCount then
    match s.oldestPex with
    | some e => { s with cache := s.cache.delete e.1 }
    | none => s
  else s

/-- `_nominateCandidate`: did the candidate enter the cache? -/
def nominateCandidate (s : Candidates) (id : Int) (src : CandidateSource) (now : ℚ) (w : Nominee) :
    Bool × Candidates :=
  if c.armed = false then (false, s)
  else if id = c.self then (false, s)
  else if w.inTable || (w.bound && !w.classI) then (false, s)
  else if s.cache.has id then (false, s)
  else if w.eligible = false then (false, s)
  else
    let s := if src = .pex then s.evictPex c else s
    if c.kCache ≤ s.cache.size then (false, s)
    else (true, { s with cache := s.cache.set id ⟨src, now, none⟩ })

/-- The dial loop, once a dial has come back: a deferred candidate stays, any other one leaves. -/
def dialled (s : Candidates) (id : Int) (out : DialResult) : Candidates :=
  match out with
  | .deferred | .deferredDeficit => s
  | .held =>
    let src := ((s.cache.get id).map CacheEntry.src).getD .near
    { cache := s.cache.delete id,
      heldSrc := if c.noPathOn then s.heldSrc.set id src else s.heldSrc }
  | .skip | .bound | .failed | .added => { s with cache := s.cache.delete id }

/-- `_onNoPath`, called for an offer that the relay sink took: none is taken that is addressed to
the node itself. -/
def onNoPath (s : Candidates) (id : Int) (now noPathUntil : ℚ) : Candidates :=
  if id = c.self || !c.noPathOn then s
  else
    let src := (s.heldSrc.get id).getD .near
    let s := { s with heldSrc := s.heldSrc.delete id }
    if c.armed = false then s
    else
      match s.cache.get id with
      | some e => { s with cache := s.cache.set id { e with noPathUntil := some noPathUntil } }
      | none =>
        if c.kCache ≤ s.cache.size then s
        else { s with cache := s.cache.set id ⟨src, now, some noPathUntil⟩ }

/-- What may happen to the candidates. -/
inductive Act where
  | nominate (id : Int) (src : CandidateSource) (now : ℚ) (w : Nominee)
  /-- The dial loop finds a candidate held or ineligible. -/
  | drop (id : Int)
  /-- A dial of the loop has come back. -/
  | dialled (id : Int) (out : DialResult)
  /-- A peer was bound, or its negotiation has failed. -/
  | released (id : Int)
  /-- An offer could not be delivered. -/
  | noPath (id : Int) (now noPathUntil : ℚ)
deriving DecidableEq

def step (s : Candidates) : Act → Candidates
  | .nominate id src now w => (s.nominateCandidate c id src now w).2
  | .drop id => { s with cache := s.cache.delete id }
  | .dialled id out => s.dialled c id out
  | .released id => { s with heldSrc := s.heldSrc.delete id }
  | .noPath id now noPathUntil => s.onNoPath c id now noPathUntil

end Candidates

end Axona
