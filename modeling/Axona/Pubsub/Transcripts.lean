import Axona.Library.Utf16
import Axona.Pubsub.AckProof
import Axona.Transport.Capability

/-! # The transcripts that are signed

Three modules build the bytes that a key signs: the proof of an ingestion (`ackProof.js`), the
attestation of a capability (`capAttest.js`) and the offer of a handover (`handoffBinding.js`). A
field comes as bytes or as hex digits of any case, and the builders read both alike. -/

namespace Axona

open Library

/-! ### Fields -/

/-- A field as the builders of proofs and attestations take it: a `Uint8Array`, or what `String`
makes of it. -/
inductive FieldArg where
  | bytes (b : List UInt8)
  | other (printed : Text)
deriving DecidableEq, Repr

namespace FieldArg

/-- The bytes of a field, if there are just `width` of them. -/
def decode (width : Nat) : FieldArg → Option (List Nat)
  | .bytes b => if b.length = width then some (b.map UInt8.toNat) else none
  | .other printed => hexOfWidth width printed

/-- The bytes of a field. -/
def octets : FieldArg → List Nat
  | .bytes b => b.map UInt8.toNat
  | .other printed => hexBytes printed

/-- The number of a field. -/
def number : FieldArg → Nat
  | .bytes b => ofBytes (b.map UInt8.toNat)
  | .other printed => hexValue printed

end FieldArg

/-! ### The proof of an ingestion -/

/-- The fields of a proof; a number that is no integer is `none`. -/
structure AckFields where
  purpose : Option Int
  op : Option Int
  topicId : FieldArg
  msgId : FieldArg
  epoch : Option Int
  attemptId : FieldArg
  ackTo : FieldArg
  flightNonce : FieldArg
  rootPub : FieldArg
deriving DecidableEq, Repr

/-- `_isOp`: is it a kill? -/
def killOfByte (op : Option Int) : Option Bool :=
  if op = some 1 then some false else if op = some 2 then some true else none

/-- `buildTranscript` (`ackProof.js`) -/
def AckFields.buildTranscript (f : AckFields) : Except ProofFailure (List Nat) := do
  let purpose ← ProofFailure.badPurpose.unless (Purpose.ofByte f.purpose)
  let kill ← ProofFailure.badOp.unless (killOfByte f.op)
  let topic ← ProofFailure.badTopic.unless (f.topicId.decode 33)
  let msg ← ProofFailure.badMsgId.unless (f.msgId.decode 32)
  let epoch ← ProofFailure.badEpoch.unless (safeEpoch f.epoch)
  let attempt ← ProofFailure.badAttempt.unless (f.attemptId.decode 16)
  let ackTo ← ProofFailure.badAckTo.unless (f.ackTo.decode 33)
  let nonce ← ProofFailure.badNonce.unless (f.flightNonce.decode 16)
  let rootPub ← ProofFailure.badRootPub.unless (f.rootPub.decode 32)
  .ok (ackProofDomain.map Char.toNat ++ [purpose.byte] ++ [opByte kill] ++ topic ++ msg
    ++ bigEndian 8 epoch ++ attempt ++ ackTo ++ nonce ++ rootPub)

/-! ### The attestation of a capability -/

/-- The fields of an attestation; a digest that is no `Uint8Array` is `none`. -/
structure CapFields where
  nodeId : FieldArg
  digest : Option (List UInt8)
deriving DecidableEq, Repr

/-- `buildCapTranscript` (`capAttest.js`) -/
def CapFields.buildCapTranscript (f : CapFields) : Except CapFailure (List Nat) :=
  match f.nodeId.decode 33 with
  | none => .error .badNodeId
  | some node =>
    match f.digest with
    | none => .error .badDigest
    | some digest =>
      if digest.length ≠ 32 then .error .badDigest
      else
        .ok (asciiBytes capDomain ++ writeFlightAckV1.length :: asciiBytes writeFlightAckV1 ++ node
          ++ digest.map UInt8.toNat)

/-! ### The offer of a handover -/

/-- `DOMAIN` (`handoffBinding.js`) -/
def handoffDomain : Text := "AXONA_HANDOFF_CAP_V1".toList

/-- The fields of an offer; the round and the ids are what `String` makes of them. -/
structure HandoffFields where
  topicId : Text
  corr : Units
  loser : Text
  winner : Text
  loserEpoch : Int
deriving DecidableEq, Repr

/-- Why an offer has no transcript. -/
inductive HandoffFailure where
  | corrLength
  | idWidth
deriving DecidableEq, Repr

/-- An integer under `>>> 0`: its lowest 32 bits. -/
def toUint32 (n : Int) : Nat := (n % 2 ^ 32).toNat

/-- `handoffTranscript` -/
def HandoffFields.handoffTranscript (f : HandoffFields) : Except HandoffFailure (List Nat) :=
  let c := (utf8 (scalars f.corr)).map UInt8.toNat
  if c.length < 1 ∨ 255 < c.length then .error .corrLength
  else
    match hexOfWidth 33 (lc f.topicId), hexOfWidth 33 (lc f.loser), hexOfWidth 33 (lc f.winner) with
    | some topic, some loser, some winner =>
      .ok (asciiBytes handoffDomain ++ c.length :: c ++ topic ++ loser ++ winner
        ++ bigEndian 4 (toUint32 f.loserEpoch))
    | _, _, _ => .error .idWidth

/-! ### The builders together -/

/-- The arguments of one of the builders. -/
inductive TranscriptArgs where
  | ackProof (f : AckFields)
  | capability (f : CapFields)
  | handoff (f : HandoffFields)
deriving DecidableEq, Repr

/-- The bytes that are signed, if the builder accepts its arguments. -/
def TranscriptArgs.bytes? : TranscriptArgs → Option (List Nat)
  | .ackProof f => f.buildTranscript.toOption
  | .capability f => f.buildCapTranscript.toOption
  | .handoff f => f.handoffTranscript.toOption

/-- What a builder was asked to cover, whichever way its arguments were written. -/
inductive Covered where
  | ackProof (t : AckTranscript)
  | capability (nodeId : NodeId) (digest : List Nat)
  | handoff (corr : List Char) (topicId : TopicId) (loser winner : NodeId) (loserEpoch : Int)
deriving DecidableEq, Repr

/-- The arguments read: ids by their numbers, other fields by their bytes, the round by its
characters and the epochs as they are. -/
def TranscriptArgs.covered : TranscriptArgs → Covered
  | .ackProof f => .ackProof {
      purpose := (Purpose.ofByte f.purpose).getD .ingestAck
      kill := (killOfByte f.op).getD false
      topicId := f.topicId.number
      msgId := f.msgId.octets
      epoch := (f.epoch.getD 0).toNat
      attemptId := f.attemptId.number
      ackTo := f.ackTo.number
      flightNonce := f.flightNonce.number
      rootPub := f.rootPub.octets }
  | .capability f => .capability f.nodeId.number ((f.digest.getD []).map UInt8.toNat)
  | .handoff f =>
    .handoff (scalars f.corr) (hexValue f.topicId) (hexValue f.loser) (hexValue f.winner)
      f.loserEpoch

/-- Its bytes. -/
def Covered.bytes : Covered → List Nat
  | .ackProof t => t.bytes
  | .capability nodeId digest =>
    asciiBytes capDomain ++ writeFlightAckV1.length :: asciiBytes writeFlightAckV1
      ++ bigEndian 33 nodeId ++ digest
  | .handoff corr topicId loser winner loserEpoch =>
    let c := (utf8 corr).map UInt8.toNat
    asciiBytes handoffDomain ++ c.length :: c ++ bigEndian 33 topicId ++ bigEndian 33 loser
      ++ bigEndian 33 winner ++ bigEndian 4 (toUint32 loserEpoch)

end Axona
