import Axona.Pubsub.Envelope
import Mathlib.Data.Char
import Mathlib.Data.List.Lex

/-! # The authenticated hello

What a peer sends to prove its node id, and how the other end checks it (`handshake-auth.js`): the
key it shows must hash to the key part of the id, and it must have signed a transcript that holds
the channel binding value. The value is the checker's own, never read from the frame, so that a
hello is good on one channel only.

The hash, the signature check and the proof of work are parameters. A transcript is signed as
canonical JSON, which is told from another by its fields. -/

namespace Axona

/-! ### Transcripts and frames -/

/-- `AUTH_PROTO` -/
def authProto : Text := "axona/5".toList

/-- What is signed. -/
structure Transcript where
  proto : Text
  nodeId : Text
  pubkey : Text
  cbv : Text
deriving DecidableEq, Repr

/-- A hello as it came in. A field is there if it came as a text. -/
structure Hello where
  proto : Option Text
  nodeId : Option Text
  pubkey : Option Text
  sig : Option Text
  pow : Option Text
deriving DecidableEq, Repr

/-- What the check of a hello rests on. -/
structure AuthPrimitives where
  /-- The SHA-256 of a key, as a number. -/
  sha256 : List Nat → Nat
  /-- The check of a signature; `none` where the key cannot be imported. -/
  verify : List Nat → Transcript → List Nat → Option Bool
  /-- The proof of work of a key. -/
  powVerify : Text → Text → Bool

/-- Why a hello is refused. -/
inductive AuthFailure where
  | notAnObject
  | protoMismatch
  | badNodeId
  | badPubkey
  | badSigScheme
  | missingCbv
  | badSigLength
  | pubkeyNodeIdMismatch
  | verifyThrew
  | badSignature
  | badPow
deriving DecidableEq, Repr

/-! ### The check -/

/-- `isHex` -/
def isHex (t : Text) : Bool := t.all fun c => (hexDigit? c).isSome

/-- The number a hex text denotes. -/
def hexValue (t : Text) : Nat := t.foldl (fun n c => 16 * n + (hexDigit? c).getD 0) 0

/-- `pubkeyMatchesNodeId`: the key hashes to the low 256 bits of the id. -/
def pubkeyMatchesNodeId (P : AuthPrimitives) (key : List Nat) (nodeId : Text) : Bool :=
  key.length == 32 && nodeId.length == 66 && hexValue nodeId % 2 ^ 256 == P.sha256 key

/-- The bytes of a hex text, as the handshake decodes them once the text is known to be hex. -/
def hexBytes (t : Text) : List Nat := (hexToBytes t).getD []

/-- The bytes of a hex text of just `n` of them. -/
def hexOfWidth (n : Nat) (t : Text) : Option (List Nat) :=
  if t.length = 2 * n ∧ isHex t = true then some (hexBytes t) else none

/-- The transcript of a hello under a channel binding value. -/
def Hello.transcript (h : Hello) (cbv : Text) : Transcript :=
  ⟨authProto, h.nodeId.getD [], h.pubkey.getD [], cbv⟩

/-- The key a hello shows. -/
def Hello.key (h : Hello) : List Nat := hexBytes (h.pubkey.getD [])

/-- `verifyAuthHello`: the id a hello proves, under the checker's own channel binding value. -/
def verifyAuthHello (P : AuthPrimitives) (frame : Option Hello) (cbv : Text) :
    Except AuthFailure Text :=
  match frame with
  | none => .error .notAnObject
  | some h =>
    if h.proto ≠ some authProto then .error .protoMismatch
    else
      let nodeId := h.nodeId.getD []
      let pubkey := h.pubkey.getD []
      let sig := h.sig.getD []
      let sigHex := sig.drop signatureTag.length
      if nodeId.length ≠ 66 ∨ isHex nodeId = false then .error .badNodeId
      else if pubkey.length ≠ 64 ∨ isHex pubkey = false then .error .badPubkey
      else if signatureTag.isPrefixOf sig = false then .error .badSigScheme
      else if cbv = [] then .error .missingCbv
      else if sigHex.length ≠ 128 ∨ isHex sigHex = false then .error .badSigLength
      else if pubkeyMatchesNodeId P h.key nodeId = false then .error .pubkeyNodeIdMismatch
      else
        match P.verify h.key (h.transcript cbv) (hexBytes sigHex) with
        | none => .error .verifyThrew
        | some false => .error .badSignature
        | some true =>
          if P.powVerify pubkey (h.pow.getD []) = false then .error .badPow else .ok nodeId

/-- Two texts in their order. -/
def sortPair (a b : Text) : Text × Text := if b < a then (b, a) else (a, b)

/-- `cbvFromNonces` -/
def cbvFromNonces (nonceA nonceB extra : Text) : Text :=
  let p := sortPair nonceA nonceB
  "n:".toList ++ p.1 ++ ':' :: p.2 ++ (if extra = [] then [] else ':' :: extra)

/-- `cbvFromFingerprints` -/
def cbvFromFingerprints (fpA fpB : Text) : Text :=
  let p := sortPair fpA fpB
  "fp:".toList ++ p.1 ++ ':' :: p.2

/-- Both ends come to one value, whoever names whose text first. -/
theorem sortPair_comm (a b : Text) : sortPair a b = sortPair b a := by
  unfold sortPair
  rcases lt_trichotomy a b with hlt | heq | hlt
  · rw [if_neg hlt.asymm, if_pos hlt]
  · rw [heq]
  · rw [if_pos hlt, if_neg hlt.asymm]

/-- Two texts in their order are those two. -/
theorem sortPair_inj {a b c d : Text} (h : sortPair a b = sortPair c d) :
    a = c ∧ b = d ∨ a = d ∧ b = c := by
  unfold sortPair at h
  split at h <;> split at h <;> cases h <;> simp

/-- **The value tells the two nonces**, where the sign between them is in neither. -/
theorem cbvFromNonces_inj {a b c d extra : Text} (ha : ':' ∉ a) (hb : ':' ∉ b)
    (h : cbvFromNonces a b extra = cbvFromNonces c d extra) : a = c ∧ b = d ∨ a = d ∧ b = c := by
  have hfst : ':' ∉ (sortPair a b).1 := by unfold sortPair; split <;> assumption
  have hsnd : ':' ∉ (sortPair a b).2 := by unfold sortPair; split <;> assumption
  unfold cbvFromNonces at h
  simp only [List.append_assoc, List.append_cancel_left_eq] at h
  rw [← List.append_assoc, ← List.append_assoc, List.append_cancel_right_eq] at h
  apply sortPair_inj
  rcases List.append_eq_append_iff.mp h with ⟨l, hq, hrest⟩ | ⟨l, hp, hrest⟩
  · cases l with
    | nil =>
      rw [List.append_nil] at hq
      exact Prod.ext hq.symm (List.cons.inj hrest).2
    | cons x l =>
      obtain ⟨-, htail⟩ := List.cons.inj hrest
      exact absurd (htail ▸ List.mem_append_right l List.mem_cons_self) hsnd
  · cases l with
    | nil =>
      rw [List.append_nil] at hp
      exact Prod.ext hp (List.cons.inj hrest).2.symm
    | cons x l =>
      obtain ⟨rfl, -⟩ := List.cons.inj hrest
      exact absurd (hp ▸ List.mem_append_right _ List.mem_cons_self) hfst

end Axona
