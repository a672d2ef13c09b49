import Mathlib.Data.List.Dedup
import Axona.Library.Counters
import Axona.Library.Transition
import Axona.Pubsub.Envelope

/-! # The ingest pump

What a node does with the payloads that are pushed to it (`repairPlane.js`). A payload that finds
nothing under way is processed inline, as long as the slice lasts; any other is queued, and a loop
takes them from the queue one after the other, with a pause where a slice is over. The peer a payload
will name is pinned from its acceptance to the end of its processing.

Processing is a call that ends some time later, well or badly (`settle`); what awaits it goes on
after that (`resumeInline`, `resumePump`). -/

namespace Axona

open Library

/-- `INGEST_QUEUE_MAX` -/
def ingestQueueMax : Nat := 4096

/-- `INGEST_SLICE_MS` -/
def ingestSliceMs : Int := 8

/-- A payload, by the number of the call that brought it, and the peer it will name. -/
structure IngestEntry where
  fn : Nat
  dep : Option Text
deriving DecidableEq, Repr

/-- Where a loop waits: for a payload, in the slice that began at `t0`, or between two slices. -/
inductive PumpAt where
  | running (e : IngestEntry) (t0 : Int)
  | yielded
deriving DecidableEq, Repr

/-- The payload a loop waits for. -/
def PumpAt.entry : PumpAt → Option IngestEntry
  | .running e _ => some e
  | .yielded => none

structure Ingest where
  queue : List IngestEntry
  pumping : Bool
  inlineActive : Bool
  inlineSliceStart : Option Int
  inFlight : Counters Text
  dropped : Nat
  /-- The inline payloads that are awaited. -/
  inlines : List IngestEntry
  /-- The loops that have not ended. -/
  pumps : List PumpAt
  /-- The payloads whose processing has ended. -/
  settled : List Nat
  /-- How many payloads came. -/
  calls : Nat
  /-- The payloads that were accepted, in order. -/
  accepted : List IngestEntry
  /-- The payloads whose processing was begun, in order. -/
  started : List IngestEntry

inductive IngestAct where
  /-- `_ingestEnqueue`, with what the clock says each time it is read. -/
  | enqueue (dep : Option Text) (nowMs t0 now : Int)
  /-- The processing of a payload ends, or throws. -/
  | settle (fn : Nat)
  /-- What awaits an inline payload goes on. -/
  | resumeInline (fn : Nat)
  /-- A loop goes on. -/
  | resumePump (i : Nat) (t0 now : Int)
  /-- The turn in which the inline slice began is over. -/
  | clear

namespace Ingest

variable (s : Ingest)

def empty : Ingest := ⟨[], false, false, none, ∅, 0, [], [], [], 0, [], []⟩

/-- The dependency as it is kept. -/
def dependency : Option Text → Option Text
  | none => none
  | some d => if d = [] then none else some (lc d)

/-- `_pinInFlight` -/
def pin (m : Counters Text) : Option Text → Counters Text
  | none => m
  | some d => m.inc d

/-- `_unpinInFlight` -/
def unpin (m : Counters Text) : Option Text → Counters Text
  | none => m
  | some d => if m.count d - 1 ≤ 0 then m.delete d else m.set d (some (m.count d - 1))

/-- A payload is pinned, and its processing begins. -/
def begun (e : IngestEntry) : Ingest :=
  { s with inFlight := pin s.inFlight e.dep, started := s.started ++ [e] }

/-- `_ingestPump`, from the head of its inner loop to where it waits next, or ends. -/
def pump (t0 now : Int) : Ingest × Option PumpAt :=
  match s.queue with
  | [] => ({ s with pumping := false }, none)
  | e :: q =>
    if now - t0 < ingestSliceMs then ({ s with queue := q }.begun e, some (.running e t0))
    else (s, some .yielded)

/-- `_ingestEnqueue` -/
def enqueue (dep : Option Text) (nowMs t0 now : Int) : Ingest :=
  let e : IngestEntry := ⟨s.calls, dependency dep⟩
  let s := { s with calls := s.calls + 1 }
  let idle : Bool := s.queue = [] && !s.pumping && !s.inlineActive
  let start := s.inlineSliceStart.getD nowMs
  let s := if idle then { s with inlineSliceStart := some start } else s
  if idle = true ∧ nowMs - start < ingestSliceMs then
    { s with
      inlineActive := true
      accepted := s.accepted ++ [e]
      inlines := s.inlines ++ [e] }.begun e
  else if ingestQueueMax ≤ s.queue.length then { s with dropped := s.dropped + 1 }
  else
    let s := { s with queue := s.queue ++ [e], accepted := s.accepted ++ [e] }
    if s.pumping then s
    else
      let (s, p) := { s with pumping := true }.pump t0 now
      { s with pumps := s.pumps ++ p.toList }

/-- The inline payload that a call awaits has ended. -/
def resumeInline (fn : Nat) : Ingest :=
  match s.inlines.find? fun e => e.fn = fn with
  | none => s
  | some e =>
    if fn ∈ s.settled then
      { s with
        inlineActive := false
        inFlight := unpin s.inFlight e.dep
        inlines := s.inlines.erase e }
    else s

/-- The `i`-th loop goes on to where it waits next. -/
def resumePump (i : Nat) (t0 now : Int) : Ingest :=
  let onward := fun (s : Ingest) (t0 : Int) =>
    let (s, p) := s.pump t0 now
    { s with pumps := s.pumps.take i ++ p.toList ++ s.pumps.drop (i + 1) }
  match s.pumps[i]? with
  | none => s
  | some .yielded => onward s t0
  | some (.running e t1) =>
    if e.fn ∈ s.settled then onward { s with inFlight := unpin s.inFlight e.dep } t1 else s

def step (s : Ingest) : IngestAct → Ingest
  | .enqueue dep nowMs t0 now => s.enqueue dep nowMs t0 now
  | .settle fn => if fn ∈ s.started.map (·.fn) then { s with settled := fn :: s.settled } else s
  | .resumeInline fn => s.resumeInline fn
  | .resumePump i t0 now => s.resumePump i t0 now
  | .clear => { s with inlineSliceStart := none }

/-- `queuedDependencies` -/
def queuedDependencies : List Text :=
  ((s.inFlight.entries.filter fun x => 0 < x.2.getD 0).map Prod.fst
    ++ s.queue.filterMap (·.dep)).dedup

end Ingest

end Axona
