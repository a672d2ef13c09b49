import Axona.Library.Bytes
import Axona.Pubsub.WriteFlight
import Axona.Transport.Handshake

/-! # The proofs of ingestion

The root that took in a forwarded write signs a proof of it (`ackProof.js`) and routes it to the
owner of the flight. What is signed is a string of bytes of fixed widths: the purpose of the proof,
the write it is about, and the flight it is meant for. The owner checks the signature with the key
in the proof, and then that the proof is one of its flights' and the key one of the flight's root;
this last check is awaited, and the table of flights may be another when it is over.

`SignedLedger` is a ledger of flights with the proofs that wait there. `completed` notes what a
proof completed; the code does not have it. -/

namespace Axona

open Library

/-! ### The transcript -/

/-- `PURPOSE` -/
inductive Purpose where
  | ingestAck
  | receiptNack
  | receiptProbeAck
deriving DecidableEq, Repr

def Purpose.byte : Purpose → Nat
  | .ingestAck => 1
  | .receiptNack => 2
  | .receiptProbeAck => 3

/-- `_isPurpose` -/
def Purpose.ofByte (b : Option Int) : Option Purpose :=
  if b = some 1 then some .ingestAck
  else if b = some 2 then some .receiptNack
  else if b = some 3 then some .receiptProbeAck
  else none

/-- `OP`: is it a kill? -/
def killOp (op : Text) : Option Bool :=
  if op = "pub".toList then some false else if op = "kill".toList then some true else none

def opByte (kill : Bool) : Nat := if kill then 2 else 1

/-- `DOMAIN` -/
def ackProofDomain : Text := "AXONA_INGEST_ACK_PROOF_V1".toList

/-- What a proof covers. -/
structure AckTranscript where
  purpose : Purpose
  kill : Bool
  topicId : TopicId
  msgId : List Nat
  epoch : Nat
  attemptId : Nat
  ackTo : NodeId
  flightNonce : Nat
  rootPub : List Nat
deriving DecidableEq, Repr

/-- Its bytes. -/
def AckTranscript.bytes (t : AckTranscript) : List Nat :=
  ackProofDomain.map Char.toNat ++ [t.purpose.byte] ++ [opByte t.kill] ++ bigEndian 33 t.topicId
    ++ t.msgId ++ bigEndian 8 t.epoch ++ bigEndian 16 t.attemptId ++ bigEndian 33 t.ackTo
    ++ bigEndian 16 t.flightNonce ++ t.rootPub

/-! ### The check of a proof -/

/-- A proof as it came in: numbers that are none are left out, the rest is what `String` makes of
it. -/
structure ProofFrame where
  purpose : Option Int
  op : Text
  topicId : Text
  msgId : Text
  epoch : Option Int
  attemptId : Text
  ackTo : Text
  flightNonce : Text
  rootPub : Text
  sig : Text
deriving DecidableEq, Repr

/-- What the check rests on. -/
structure ProofPrimitives where
  /-- The SHA-256 of a key, as a number. -/
  sha256 : List Nat → Nat
  /-- The check of a signature over bytes; `none` where it throws. -/
  verify : List Nat → List Nat → List Nat → Option Bool

/-- Why a proof is refused. -/
inductive ProofFailure where
  | badOp
  | badPurpose
  | badSigLen
  | badRootPub
  | badTopic
  | badMsgId
  | badEpoch
  | badAttempt
  | badAckTo
  | badNonce
  | verifyThrew
  | badSignature
deriving DecidableEq, Repr

/-- A field that must be there, or this is why the proof is refused. -/
def ProofFailure.unless {α : Type} (e : ProofFailure) : Option α → Except ProofFailure α
  | none => .error e
  | some a => .ok a

/-- The epoch of a proof, if it can be told from others. -/
def safeEpoch (epoch : Option Int) : Option Nat :=
  epoch.bind fun e => if 0 ≤ e ∧ e ≤ maxSafeInteger then some e.toNat else none

/-- `buildTranscript`, for a purpose, an operation and a key that were checked before. -/
def buildTranscript (purpose : Purpose) (kill : Bool) (rootPub : List Nat) (f : ProofFrame) :
    Except ProofFailure (List Nat) := do
  let topic ← ProofFailure.badTopic.unless (hexOfWidth 33 f.topicId)
  let msg ← ProofFailure.badMsgId.unless (hexOfWidth 32 f.msgId)
  let epoch ← ProofFailure.badEpoch.unless (safeEpoch f.epoch)
  let attempt ← ProofFailure.badAttempt.unless (hexOfWidth 16 f.attemptId)
  let ackTo ← ProofFailure.badAckTo.unless (hexOfWidth 33 f.ackTo)
  let nonce ← ProofFailure.badNonce.unless (hexOfWidth 16 f.flightNonce)
  .ok (ackProofDomain.map Char.toNat ++ [purpose.byte] ++ [opByte kill] ++ topic ++ msg
    ++ bigEndian 8 epoch ++ attempt ++ ackTo ++ nonce ++ rootPub)

/-- A proof that passed: what the code keeps of it, and its signature. -/
structure SignedProof where
  purpose : Purpose
  fields : Ledger.AckProof
  rootPub : List Nat
  sig : List Nat

/-- `rootPubMatchesNodeHash` -/
def rootPubMatchesNodeHash (P : ProofPrimitives) (rootPub : List Nat) (expected : NodeId) : Bool :=
  rootPub.length == 32 && P.sha256 rootPub % 2 ^ 256 == expected % 2 ^ 256

/-- `verifyAckProof` -/
def verifyAckProof (P : ProofPrimitives) (f : ProofFrame) : Except ProofFailure SignedProof := do
  let kill ← ProofFailure.badOp.unless (killOp f.op)
  let purpose ← ProofFailure.badPurpose.unless (Purpose.ofByte f.purpose)
  let sig ← ProofFailure.badSigLen.unless (hexOfWidth 64 f.sig)
  let rootPub ← ProofFailure.badRootPub.unless (hexOfWidth 32 f.rootPub)
  let transcript ← buildTranscript purpose kill rootPub f
  match P.verify rootPub transcript sig with
  | none => .error .verifyThrew
  | some false => .error .badSignature
  | some true =>
    .ok {
      purpose, rootPub, sig
      fields := {
        key := ⟨hexValue f.topicId, f.msgId, kill⟩
        attemptId := hexValue f.attemptId
        ackTo := hexValue f.ackTo
        flightNonce := hexValue f.flightNonce
        epoch := f.epoch.getD 0
        authority := rootPubMatchesNodeHash P rootPub } }

/-! ### The ledger -/

/-- A proof that waits for the check of its key. The flight it was compared with is the one under
`key` with that nonce; it has seen the flights with the nonces `seen`. -/
structure Waiting where
  proof : SignedProof
  key : FlightKey
  nonce : Nat
  seen : List Nat

/-- An entry that a proof completed, with its flight as it was. -/
structure Completion where
  flight : Flight
  key : CorrKey
  entry : FlightEntry
  proof : SignedProof

structure SignedLedger where
  ledger : Ledger
  waiting : OrderedMap Nat Waiting := ∅
  nextWaiting : Nat := 0
  /-- The flights a proof took out of the table with entries that were not its own, by nonce. -/
  orphans : OrderedMap Nat Flight := ∅
  /-- What was deleted from a flight after it had left the table. -/
  deleted : List (Nat × CorrKey) := []
  completed : List Completion := []

namespace SignedLedger

/-- The comparison of a proof with a flight, up to the check of the key. -/
def compare (l : Ledger) (p : Ledger.AckProof) (k : FlightKey) (f : Flight) : Ledger × Bool :=
  match f.entries.get p.key with
  | none => (l, false)
  | some e =>
    if e.attemptId ≠ p.attemptId || f.ackTo ≠ p.ackTo || f.flightNonce ≠ p.flightNonce then
      (l, false)
    else if f.epoch ≠ 0 && p.epoch ≠ f.epoch then (l.note (.mismatched k p.key), false)
    else (l, true)

/-- A proof is compared with flight after flight until there is a key to be checked. -/
def visit (s : SignedLedger) (p : SignedProof) : List (FlightKey × Flight) → List Nat → SignedLedger
  | [], _ => s
  | (k, f) :: rest, seen =>
    let (l, matched) := compare s.ledger p.fields k f
    let s := { s with ledger := l }
    if matched then
      { s with
        waiting := s.waiting.set s.nextWaiting ⟨p, k, f.flightNonce, f.flightNonce :: seen⟩
        nextWaiting := s.nextWaiting + 1 }
    else s.visit p rest (f.flightNonce :: seen)

/-- `_flightCompleteSigned`, from the flights not seen yet. -/
def flightCompleteSigned (s : SignedLedger) (p : SignedProof) (seen : List Nat) : SignedLedger :=
  s.visit p (s.ledger.flights.entries.filter fun e => e.2.flightNonce ∉ seen) seen

/-- The flight that was convicted, with the time. -/
def convicted (journal : List FlightEvent) (nonce : Nat) : Option (Flight × Int) :=
  journal.findSome? fun
    | .evicted f now => if f.flightNonce = nonce then some (f, now) else none
    | .mismatched .. => none

/-- The entries of a flight that is in the table no more: a flight that was convicted keeps those it
passed on, and one that was completed has none. -/
def leftIn (s : SignedLedger) (nonce : Nat) : List CorrKey :=
  let entries : List CorrKey :=
    match s.orphans.get nonce, convicted s.ledger.journal nonce with
    | some f, _ => f.entries.keys
    | none, some (f, now) =>
      (f.entries.entries.filter fun e => (Ledger.endsChain e.2 now).isNone).map Prod.fst
    | none, none => []
  entries.filter fun ck => (nonce, ck) ∉ s.deleted

/-- The key of a proof is the root's. The entry goes from the flight the proof was compared with;
and if that has none left, whatever flight is under the key goes. -/
def complete (s : SignedLedger) (w : Waiting) : SignedLedger :=
  let ck := w.proof.fields.key
  match s.ledger.flights.get w.key with
  | none => { s with deleted := (w.nonce, ck) :: s.deleted }
  | some f =>
    if f.flightNonce = w.nonce then
      { s with
        ledger := s.ledger.putFlight w.key (f.settle ck)
        completed := match f.entries.get ck with
          | none => s.completed
          | some e => ⟨f, ck, e, w.proof⟩ :: s.completed }
    else
      let s := { s with deleted := (w.nonce, ck) :: s.deleted }
      if s.leftIn w.nonce = [] then
        { s with
          ledger := { s.ledger with flights := s.ledger.flights.delete w.key }
          orphans := s.orphans.set f.flightNonce f
          completed := f.entries.entries.map (fun e => Completion.mk f e.1 e.2 w.proof) ++
            s.completed }
      else s

/-- The check of a key is over. -/
def resume (s : SignedLedger) (k : Nat) : SignedLedger :=
  match s.waiting.get k with
  | none => s
  | some w =>
    let s := { s with waiting := s.waiting.delete k }
    let s := if w.proof.fields.authority w.key.root then s.complete w else s
    s.flightCompleteSigned w.proof w.seen

end SignedLedger

/-- What runs next. A proof is one that came in and whose signature was checked meanwhile. -/
inductive SignedAct where
  | flight (a : FlightAct)
  | proof (frame : ProofFrame)
  | resume (k : Nat)

namespace SignedLedger

/-- An act of the ledger. The proofs come in by frames. -/
def perform (cfg : Config) (s : SignedLedger) : FlightAct → SignedLedger
  | .proof _ => s
  | a => { s with ledger := s.ledger.perform cfg a }

/-- One step of a node with flights and proofs. -/
def step (P : ProofPrimitives) (cfg : Config) (s : SignedLedger) (a : World × SignedAct) :
    SignedLedger :=
  let s := { s with ledger := { s.ledger with node := { s.ledger.node with world := a.1 } } }
  match a.2 with
  | .flight a => s.perform cfg a
  | .proof frame =>
    match verifyAckProof P frame with
    | .error _ => s
    | .ok p => s.flightCompleteSigned p []
  | .resume k => s.resume k

def boot (w : World) : SignedLedger := { ledger := Ledger.boot w }

end SignedLedger

end Axona
