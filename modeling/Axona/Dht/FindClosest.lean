import Axona.Library.Ranking
import Axona.Transport.Wire
import Mathlib.Data.Int.Bitwise

/-! # The search for the closest peers

`findKClosest`: a node asks the peers it knows that are closest to a target for the closest ones
they know, round by round, until the closest `K` have been considered and nothing new was learnt.

A reply is whatever the channel delivers: of a text of digits with an `n` the codec makes a
`BigInt`, with a sign or without and of any length, and every `BigInt` in a reply becomes a
candidate. A candidate is therefore an integer, and its distance is `^` of the language. -/

namespace Axona

open Library

/-- A search, and what it meets with. Each peer is considered once, so what it replies depends on
the peer alone. -/
structure Search where
  /-- The ids of the keyspace are below `2 ^ bits`. -/
  bits : Nat
  self : Nat
  target : Nat
  /-- The peers of the synapses and of the incoming synapses. -/
  known : List Nat
  self_lt : self < 2 ^ bits
  target_lt : target < 2 ^ bits
  known_lt : ∀ p ∈ known, p < 2 ^ bits
  k : Nat
  alpha : Nat
  maxRounds : Nat
  k_pos : 0 < k
  alpha_pos : 0 < alpha
  maxRounds_pos : 0 < maxRounds
  /-- What a peer replies, `none` where the request fails. -/
  reply : Int → Option WireTree
  /-- Is a peer not probed in a round, being dead or not connected? -/
  skips : Nat → Int → Bool

/-- The `BigInt`s of a reply, if it is an array. -/
def JsValue.bigints : JsValue → List Int
  | .arr xs => xs.filterMap fun
    | .bigint n => some n
    | _ => none
  | _ => []

namespace Search

/-- The state of a search, and what it has done. -/
structure State where
  /-- The keys of `distances`. -/
  pool : List Int
  visited : List Int
  lastPoolSize : Nat
  stableRounds : Nat
  /-- The probes of each round. -/
  probes : List (List Int)
  /-- Has the search ended by itself? -/
  done : Bool

/-- `addCandidate` -/
def addCandidate (pool : List Int) (p : Int) : List Int := if p ∈ pool then pool else pool ++ [p]

variable (q : Search)

/-- `peerId ^ targetBig` -/
def distance (p : Int) : Int := Int.xor p q.target

/-- The candidates that a probe of a peer brings. -/
def answer (p : Int) : List Int :=
  match q.reply p with
  | none => []
  | some tree => (parse bigintReviver tree).bigints

/-- The ids the search begins with. -/
def seeds : List Int := (q.self :: q.known).map Int.ofNat

/-- The state before the first round. -/
def start : State := ⟨q.seeds.foldl addCandidate [], [], 0, 0, [], false⟩

/-- The candidates in the order of their distance. -/
def sorted (s : State) : List Int := sortBy q.distance s.pool

/-- The closest `K`. -/
def topK (s : State) : List Int := (q.sorted s).take q.k

/-- The peers to consider in a round: of the closest `K` first, and then of those beyond. -/
def toQuery (s : State) : List Int :=
  let first := ((q.topK s).filter fun p => p ∉ s.visited).take q.alpha
  if first.length < q.alpha then
    first ++ ((q.sorted s).filter fun p => p ∉ s.visited ∧ p ∉ q.topK s).take
      (q.alpha - first.length)
  else first

/-- A round. -/
def round (r : Nat) (s : State) : State :=
  let topKAllVisited := (q.topK s).all fun p => p ∈ s.visited
  let toQuery := q.toQuery s
  if toQuery = [] then { s with done := true }
  else
    let probes := toQuery.filter fun p : Int => p ≠ q.self ∧ q.skips r p = false
    let pool := (probes.flatMap q.answer).foldl addCandidate s.pool
    let stableRounds := if s.lastPoolSize < pool.length then 0 else s.stableRounds + 1
    { pool := pool
      visited := s.visited ++ toQuery
      lastPoolSize := pool.length
      stableRounds := stableRounds
      probes := s.probes ++ [probes]
      done := topKAllVisited && decide (1 ≤ stableRounds) }

/-- The rounds from the `r`-th on, `n` of them at most. -/
def loop : Nat → Nat → State → State
  | _, 0, s => s
  | r, n + 1, s => if (q.round r s).done then q.round r s else loop (r + 1) n (q.round r s)

/-- The search when it has ended. -/
def final : State := q.loop 0 q.maxRounds q.start

/-- `findKClosest` -/
def findKClosest : List Int := q.topK q.final

end Search

end Axona
