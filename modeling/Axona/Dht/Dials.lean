import Axona.Dht.AttemptGuard
import Axona.Dht.DeadPeers

/-! # The tables of a node that dials

The mark table and the guard of dials, each with its own clock. A dial is issued where the mark is
eligible, which it then consumes; an attempt is begun where the guard allows one. The two happen at
different moments of one dial, so each is an act of its own here, and every other call may come in
between. Of every attempt it is noted when it is begun and when it is closed. -/

namespace Axona

open Library

structure Dials where
  marks : DeadPeers
  guard : AttemptGuard
  /-- The clock of the marks. -/
  mono : ℚ
  /-- The clock of the guard. -/
  wall : ℚ
  /-- When an identity was last dialled. -/
  issued : NodeId → Option ℚ
  /-- When an attempt was last begun. -/
  tried : IdSuffix → Option ℚ
  /-- The attempts that were begun, each with its token. -/
  begun : List (DialToken × IdSuffix)
  /-- The attempts whose end was counted, or that were released. -/
  closed : List DialToken

namespace Dials

/-- Both tables just constructed. -/
def init : Dials := ⟨.init, .init, 0, 0, fun _ => none, fun _ => none, [], []⟩

variable (mcfg : MarkConfig) (gcfg : GuardConfig)

/-- The calls, and the clocks going on. -/
inductive Act where
  | wait (mono wall : NNRat)
  | marks (a : DeadPeers.Act)
  /-- A dial goes out, if the mark is eligible. -/
  | issue (id : NodeId)
  /-- An attempt is begun, if the guard allows it. -/
  | dial (id : NodeId)
  | end (id : NodeId) (bound : Bool) (k : Option DialToken) (inc : Option Incarnation)
  | attach (id : NodeId) (k : DialToken) (inc : Option Incarnation)
  | release (id : NodeId) (k : Option DialToken)
  | sweep
  | deferPath (id : NodeId) (baseMs maxMs : ℚ) (draw : Option ℚ)
  | pathDelivered (id : NodeId)
  | freshRecord (id : NodeId)

/-- The terminal event of an attempt. -/
def endKey (s : Dials) (key : IdSuffix) (bound : Bool) (k : Option DialToken)
    (inc : Option Incarnation) : Dials :=
  let r := s.guard.endKey gcfg key bound s.wall k inc
  { s with
    guard := r.2
    closed := if r.1 then (s.guard.entry key).k :: s.closed else s.closed }

def step (s : Dials) : Act → Dials
  | .wait mono wall => { s with mono := s.mono + mono, wall := s.wall + wall }
  | .marks a => { s with marks := s.marks.step mcfg (s.mono, a) }
  | .issue id =>
    let r := s.marks.eligible mcfg id s.mono
    if r.1 then
      { s with
        marks := r.2.consume mcfg id s.mono
        issued := Function.update s.issued id (some s.mono) }
    else { s with marks := r.2 }
  | .dial id =>
    let r := s.guard.allow gcfg id s.wall
    if r.1 then
      let b := r.2.begin gcfg id s.wall
      { s with
        guard := b.2
        tried := Function.update s.tried (identitySuffix id) (some s.wall)
        begun := (b.1, identitySuffix id) :: s.begun }
    else { s with guard := r.2 }
  | .end id bound k inc => s.endKey gcfg (identitySuffix id) bound k inc
  | .attach id k inc => { s with guard := s.guard.attach id k inc }
  | .release id k =>
    let r := s.guard.release id k
    { s with
      guard := r.2
      closed := if r.1 then (s.guard.entry (identitySuffix id)).k :: s.closed else s.closed }
  | .sweep =>
    s.guard.state.entries.foldl (fun s' e =>
      if e.2.inflight && decide (gcfg.inflightMaxMs < s.wall - e.2.beganAt) then
        s'.endKey gcfg e.1 false (some e.2.k) none
      else s') s
  | .deferPath id baseMs maxMs draw =>
    { s with guard := s.guard.deferPath id s.wall baseMs maxMs draw }
  | .pathDelivered id => { s with guard := s.guard.pathDelivered id }
  | .freshRecord id => { s with guard := (s.guard.onFreshRecord gcfg id s.wall).2 }

end Dials

end Axona
