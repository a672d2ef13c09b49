import Axona.Library.OrderedMap
import Axona.Library.Transition
import Axona.Pubsub.Envelope

/-! # What a node saves of its state

The persistence wiring of `AxonaPeer`: a namespace that has changed is marked dirty, which arms a
debounce timer if none is armed; when it goes off, a flush takes what is dirty and writes the
namespaces one after the other. A flush waits for each write, so a second one may begin before it
ends.

Of the state of a namespace only its version is kept, the number of times it has changed. A write
reads the state in one go, after an await, and gives it to the adapter, which succeeds or fails
later. -/

namespace Axona

open Library

/-- A key of the adapter. -/
inductive Namespace where
  | synaptome
  | subscriptions
  | wireVersion
  | identity
  /-- Such as `hosting`. -/
  | other (name : Text)
deriving DecidableEq

namespace Namespace

/-- Does `_writeNamespace` write it? It ignores `identity` and throws at the rest. -/
def supported : Namespace → Bool
  | .synaptome | .subscriptions | .wireVersion => true
  | .identity | .other _ => false

end Namespace

/-- A flush under way. -/
structure Flush where
  /-- The namespace that is written. -/
  current : Namespace
  /-- The version that was read, once it is. -/
  snap : Option Nat
  /-- The namespaces that come after it. -/
  waiting : List Namespace
deriving DecidableEq

/-- The persistence of a node with an adapter. -/
structure Persist where
  /-- `_persistDirty` -/
  dirty : List Namespace
  /-- Is `_persistTimer` armed? -/
  timer : Bool
  flushes : OrderedMap Nat Flush
  /-- The id of the next flush. -/
  next : Nat
  version : Namespace → Nat
  /-- The version that the adapter has: that of the save that succeeded last. -/
  saved : Namespace → Nat

namespace Persist

/-- A node just started, and nothing to save. -/
def init : Persist := ⟨[], false, ∅, 0, fun _ => 0, fun _ => 0⟩

/-- `_persistDirty.add` -/
def addDirty (s : Persist) (ns : Namespace) : Persist :=
  { s with dirty := if ns ∈ s.dirty then s.dirty else s.dirty ++ [ns] }

/-- The state of a namespace changes. -/
def change (s : Persist) (ns : Namespace) : Persist :=
  { s with version := Function.update s.version ns (s.version ns + 1) }

/-- `_markPersistDirty`, where the state has changed. -/
def markPersistDirty (s : Persist) (ns : Namespace) : Persist :=
  { (s.change ns).addDirty ns with timer := true }

/-- `_flushDirtyToPersist`, up to its first write. -/
def flushDirtyToPersist (s : Persist) : Persist :=
  match s.dirty with
  | [] => s
  | ns :: rest =>
    { s with dirty := [], flushes := s.flushes.set s.next ⟨ns, none, rest⟩, next := s.next + 1 }

/-- The timer goes off. -/
def fire (s : Persist) : Persist :=
  if s.timer then { s with timer := false }.flushDirtyToPersist else s

/-- `_flushAllToPersist` -/
def flushAllToPersist (s : Persist) : Persist :=
  ({ s with timer := false }.addDirty .wireVersion).flushDirtyToPersist

/-- `snapshot`: a write reads the state of its namespace. -/
def snapshot (s : Persist) (i : Nat) : Persist :=
  match s.flushes.get i with
  | some ⟨ns, none, rest⟩ =>
    if ns.supported then { s with flushes := s.flushes.set i ⟨ns, some (s.version ns),
      rest⟩ } else s
  | _ => s

/-- A flush goes on to the next namespace, or ends. -/
def advance (s : Persist) (i : Nat) : List Namespace → Persist
  | [] => { s with flushes := s.flushes.delete i }
  | ns :: rest => { s with flushes := s.flushes.set i ⟨ns, none, rest⟩ }

/-- What became of a write. `identity` is ignored and a namespace without a writer is dropped; a
write that fails, be it at the adapter or before, leaves its namespace dirty. -/
def settle (s : Persist) (i : Nat) (ok : Bool) : Persist :=
  match s.flushes.get i with
  | none => s
  | some ⟨ns, snap, rest⟩ =>
    if ns.supported = false then s.advance i rest
    else
      match ok, snap with
      | true, some v => { s with saved := Function.update s.saved ns v }.advance i rest
      | true, none => s
      | false, _ => (s.addDirty ns).advance i rest

/-- What may happen. -/
inductive Act where
  /-- The state of a namespace changes and is marked. -/
  | mark (ns : Namespace)
  /-- The synaptome changes, which nothing marks. -/
  | learn
  | fire
  /-- The node leaves. -/
  | flushAll
  /-- A flush reads the state that it is to write. -/
  | snapshot (i : Nat)
  /-- A write of a flush succeeds or fails. -/
  | settle (i : Nat) (ok : Bool)
deriving DecidableEq

def step (s : Persist) : Act → Persist
  | .mark ns => s.markPersistDirty ns
  | .learn => s.change .synaptome
  | .fire => s.fire
  | .flushAll => s.flushAllToPersist
  | .snapshot i => s.snapshot i
  | .settle i ok => s.settle i ok

end Persist

end Axona
