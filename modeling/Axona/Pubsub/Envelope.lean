import Axona.Library.Utf16
import Mathlib.Data.Nat.Bitwise
import Mathlib.Data.List.Basic

/-! # Topics, envelopes and kills

What travels between the nodes of the pub/sub plane and what a receiver recomputes from it:
the topic descriptor and the id derived from it (`resolveTopic`), the signed envelope
(`verifyEnvelope`, `checkFreshness`) and the signed kill (`verifyKill`). The fields of an
envelope are the sender's to choose, so each is there, missing or of the wrong kind.

The digests, the signature check and the region table are the parameters collected in
`Primitives`. Texts are lists of characters; a number is an integer. -/

namespace Axona

/-! ### Identifiers -/

/-- The id of a node, as the number its hex form denotes. -/
abbrev NodeId := Nat

/-- The id of a topic, in the same keyspace as the nodes. -/
abbrev TopicId := Nat

/-- A text. -/
abbrev Text := List Char

/-- A message id: the hex digest of author and message, or whatever text a sender puts there. -/
abbrev MsgId := Text

/-- The digest of a manifest. -/
abbrev Digest := Nat

/-- The correlation id of one merge exchange. -/
abbrev Corr := Nat

/-- `lc`: the lower-case form of a text. -/
def lc (t : Text) : Text := t.map Char.toLower

/-- The XOR distance of a node from a topic. -/
def distance (t : TopicId) (n : NodeId) : Nat := n ^^^ t

/-- Two nodes at one distance from a topic are one node. -/
theorem distance_inj {t : TopicId} {a b : NodeId} : distance t a = distance t b ↔ a = b := by
  unfold distance
  exact Nat.xor_left_inj

/-! ### Topic descriptors -/

/-- Who may write to a topic. -/
inductive WritePolicy where
  /-- Anyone. -/
  | open
  /-- The owner named by the descriptor. -/
  | owner
deriving DecidableEq, Repr

/-- The `write` field of a descriptor as it was sent. -/
inductive WriteField where
  /-- Not there, or `null`. -/
  | absent
  /-- One of the two policies by name. -/
  | policy (p : WritePolicy)
  /-- Anything else. -/
  | other
deriving DecidableEq, Repr

/-- A topic descriptor as it was sent. -/
structure Descriptor where
  /-- The region by name or code; `none` when it is missing or `null`. -/
  region : Option Text
  /-- The owner's Author ID; `none` when it is missing or `null`. -/
  owner : Option Text
  /-- The name; `none` when it is not a string. -/
  name : Option Text
  /-- The write policy. -/
  write : WriteField
deriving DecidableEq, Repr

/-- What a topic id is a digest of: owner, name and write policy. -/
structure TopicKey where
  /-- The owner in lower case, if one is named. -/
  owner : Option Text
  /-- The name. -/
  name : Text
  /-- The effective write policy. -/
  write : WritePolicy
deriving DecidableEq, Repr

/-- A descriptor with its defaults filled in, and the id derived from it. -/
structure ResolvedTopic where
  /-- The code of the region. -/
  region : Nat
  /-- Owner, name and policy. -/
  key : TopicKey
  /-- The topic id. -/
  topicId : TopicId
deriving DecidableEq, Repr

/-- The ways `resolveTopic` throws. -/
inductive TopicError where
  /-- `name must be a non-empty string` -/
  | name
  /-- `owner must be a 64-hex Author ID or null` -/
  | owner
  /-- `write must be 'open' or 'owner'` -/
  | write
  /-- `unknown region` -/
  | unknownRegion
  /-- `region is required` -/
  | regionRequired
  /-- The region is a system region that holds only the open bridge directory. -/
  | systemRegion
deriving DecidableEq, Repr

/-! ### Envelopes and kills -/

/-- The content of a message, in canonical form. -/
abbrev Message := Nat

/-- A field that should hold a string. -/
inductive TextField where
  /-- Not there, or one of the falsy values `null`, `false`, `0`. -/
  | missing
  /-- A string. -/
  | text (t : Text)
  /-- A value of another kind; `printed` is what `String(x)` makes of it. -/
  | other (printed : Text)
deriving DecidableEq, Repr

/-- What `String(x)` makes of a field that counts as true; `none` for one that does not. -/
def TextField.truthy : TextField → Option Text
  | .missing => none
  | .text [] => none
  | .text t => some t
  | .other t => some t

/-- A published envelope as `JSON.parse` reads it. -/
structure Envelope where
  /-- The content address; `none` when it is not a string. -/
  msgId : Option MsgId
  /-- The publisher's sequence number; `none` when it is not a number. -/
  seq : Option Int
  /-- The publisher's clock; `none` when it is not a number. -/
  ts : Option Int
  /-- The descriptor; `none` when it is not an object. -/
  topic : Option Descriptor
  /-- The content; `none` when there is no such key. -/
  message : Option Message
  /-- The signature; `none` when it is not a string. -/
  signature : Option Text
  /-- The signer's public key. -/
  signerPubkey : TextField
deriving DecidableEq, Repr

/-- A body as it is carried: its length as text, and what it parses to (`none` when it does not
parse to an object). -/
structure Json where
  /-- The number of characters. -/
  length : Nat
  /-- The envelope. -/
  parsed : Option Envelope
deriving DecidableEq, Repr

/-- The part of an envelope under its signature. -/
structure Core where
  /-- The publisher's sequence number. -/
  seq : Int
  /-- The publisher's clock. -/
  ts : Int
  /-- The descriptor. -/
  topic : Descriptor
  /-- The content. -/
  message : Message
deriving DecidableEq, Repr

/-- A kill as it was sent. -/
structure Kill where
  /-- The topic id it names; `none` when it is not a string. -/
  topicId : Option TopicId
  /-- The message to retract; `none` when it is not a string. -/
  msgId : Option MsgId
  /-- The killer's clock; `none` when it is not a number. -/
  ts : Option Int
  /-- The killer's sequence number; `none` when it is not a number. -/
  seq : Option Int
  /-- The signer's public key; `none` when it is not a string. -/
  signerPubkey : Option Text
  /-- The signature; `none` when it is not a string. -/
  signature : Option Text
deriving DecidableEq, Repr

/-- The part of a kill under its signature. -/
structure KillCore where
  /-- The topic id. -/
  topicId : TopicId
  /-- The message to retract. -/
  msgId : MsgId
  /-- The killer's clock. -/
  ts : Int
  /-- The killer's sequence number. -/
  seq : Int
deriving DecidableEq, Repr

/-- What the model takes from outside: the region table, the digests and Ed25519. -/
structure Primitives where
  /-- `resolveRegion`: the code of a region given by name or code. -/
  resolveRegion : Text → Option Nat
  /-- The digest of owner, name and policy. -/
  topicHash : TopicKey → Nat
  /-- The digest of author and message. -/
  computeMsgId : Option Text → Message → MsgId
  /-- The digest of a manifest. -/
  manifestHash : List MsgId → List MsgId → Digest
  /-- Ed25519 over an envelope core: public key bytes, core, signature bytes. -/
  verify : List Nat → Core → List Nat → Bool
  /-- Ed25519 over a kill core. -/
  verifyKillCore : List Nat → KillCore → List Nat → Bool

/-! ### Deriving a topic id -/

/-- Is the character one of `0-9a-f`? -/
def isLowerHex (c : Char) : Bool := ('0' ≤ c && c ≤ '9') || ('a' ≤ c && c ≤ 'f')

/-- The length of an Author ID in hex digits. -/
def authorHexChars : Nat := 64

/-- Is the text an Author ID in lower case? -/
def isAuthorId (t : Text) : Bool := t.length == authorHexChars && t.all isLowerHex

/-- The code of the one system region, the region of the bridges. -/
def systemRegionBridge : Nat := 0xff

/-- The name of the one topic the system region holds. -/
def bridgeDirectoryTopic : Text := "axona:bridge-directory".toList

/-- The topic id: the region byte in front of the digest. -/
def Primitives.topicIdOf (P : Primitives) (code : Nat) (k : TopicKey) : TopicId :=
  code * 2 ^ 256 + P.topicHash k

/-- The write policy a descriptor comes to: `open` without an owner whatever the field says,
`owner` by default with one. -/
def effectiveWrite (owner : Option Text) (w : WriteField) : Except TopicError WritePolicy :=
  match owner, w with
  | none, _ => .ok .open
  | some _, .absent => .ok .owner
  | some _, .policy p => .ok p
  | some _, .other => .error .write

/-- `resolveTopic`: fill in a descriptor's defaults and derive its topic id. `selfRegion` is the
region of the publisher's own node, which only a publisher passes. -/
def resolveTopic (P : Primitives) (d : Descriptor) (selfRegion : Option Text := none) :
    Except TopicError ResolvedTopic := do
  let name ← match d.name with
    | none | some [] => .error .name
    | some n => .ok n
  let owner := d.owner.map lc
  if owner.any (fun o => !isAuthorId o) then .error .owner
  let w ← effectiveWrite owner d.write
  let code ← match d.region, selfRegion with
    | some r, _ => (P.resolveRegion r).elim (.error .unknownRegion) .ok
    | none, some r => (P.resolveRegion r).elim (.error .unknownRegion) .ok
    | none, none => .error .regionRequired
  if code == systemRegionBridge && (name != bridgeDirectoryTopic || owner.isSome) then
    .error .systemRegion
  let key : TopicKey := ⟨owner, name, w⟩
  return ⟨code, key, P.topicIdOf code key⟩

/-- `deriveTopicIdBig`: just the id; `none` where `resolveTopic` throws. -/
def deriveTopicId (P : Primitives) (d : Descriptor) : Option TopicId :=
  (resolveTopic P d).toOption.map (·.topicId)

/-! ### Checking an envelope -/

/-- The value of a hex digit, of either case. -/
def hexDigit? (c : Char) : Option Nat :=
  if '0' ≤ c && c ≤ '9' then some (c.toNat - '0'.toNat)
  else if 'a' ≤ c && c ≤ 'f' then some (c.toNat - 'a'.toNat + 10)
  else if 'A' ≤ c && c ≤ 'F' then some (c.toNat - 'A'.toNat + 10)
  else none

/-- A character that `parseInt` skips in front of a number. -/
def isSpace (c : Char) : Bool :=
  let u := c.toNat
  (9 ≤ u && u ≤ 13) || u == 0x20 || u == 0xa0 || u == 0x1680 || (0x2000 ≤ u && u ≤ 0x200a)
    || u == 0x2028 || u == 0x2029 || u == 0x202f || u == 0x205f || u == 0x3000 || u == 0xfeff

/-- The byte `parseInt` reads from two characters, `NaN` stored as `0`. -/
def hexByte (a b : Char) : Nat :=
  match hexDigit? a, hexDigit? b with
  | some x, some y => 16 * x + y
  | some x, none => x
  | none, some y =>
    if a == '+' || isSpace a then y
    else if a == '-' then (256 - y) % 256
    else 0
  | none, none => 0

/-- The bytes of hex digits, two by two. -/
def hexPairs : List Char → Option (List Nat)
  | [] => some []
  | [_] => none
  | a :: b :: rest => (hexPairs rest).map (hexByte a b :: ·)

/-- `hexToBytes`; `none` where it throws, on a text of odd length. It goes by 16-bit units, and a
surrogate is read as what is no digit. -/
def hexToBytes (t : Text) : Option (List Nat) :=
  hexPairs ((Library.units t).map Library.unitChar)

/-- The tag in front of a signature. -/
def signatureTag : Text := ['e', 'd', '2', '5', '5', '1', '9', ':']

/-- What a check of a signed object comes to. -/
inductive Verdict where
  /-- It passes. -/
  | ok
  /-- It does not. -/
  | bad
  /-- The check throws, and the handler that awaits it ends there. -/
  | threw
deriving DecidableEq, Repr

/-- The signature check shared by envelopes and kills: the tag, the two lengths, and then
Ed25519 (`check`) over the bytes of key and signature. -/
def checkSignature (check : List Nat → List Nat → Bool) (signature signerPubkey : Text) :
    Verdict :=
  if signatureTag.isPrefixOf signature then
    match hexToBytes (signature.drop signatureTag.length), hexToBytes signerPubkey with
    | some sig, some pk =>
      if sig.length != 64 || pk.length != 32 then .bad
      else if check pk sig then .ok else .bad
    | _, _ => .threw
  else .bad

/-- `verifyEnvelope`: the fields are there and of their kinds, a signature that is there
verifies under the signer's key, and the message id is the digest of author and message. An
envelope without a signature passes on its digest alone. -/
def verifyEnvelope (P : Primitives) (e : Envelope) : Verdict :=
  match e.msgId, e.ts, e.topic, e.message, e.seq with
  | some id, some ts, some d, some m, some seq =>
    if d.name.isNone then .bad
    else match e.signature, e.signerPubkey with
    | none, _ => if P.computeMsgId none m = id then .ok else .bad
    | some sig, .text pk =>
      match checkSignature (fun k s => P.verify k ⟨seq, ts, d, m⟩ s) sig pk with
      | .ok => if P.computeMsgId (some pk) m = id then .ok else .bad
      | v => v
    | some _, _ => .bad
  | _, _, _, _, _ => .bad

/-- How far the publisher's clock may be from the receiver's, in milliseconds. -/
def maxPublishSkewMs : Nat := 300000

/-- `checkFreshness`, made at live ingress only. -/
def checkFreshness (e : Envelope) (now : Int) : Bool :=
  match e.ts with
  | none => false
  | some ts => (ts - now).natAbs ≤ maxPublishSkewMs

/-- `verifyKill`: the fields are there and the signature verifies under the signer's key. -/
def verifyKill (P : Primitives) (k : Kill) : Verdict :=
  match k.topicId, k.msgId, k.ts, k.seq, k.signerPubkey, k.signature with
  | some t, some id, some ts, some seq, some pk, some sig =>
    checkSignature (fun pk' s => P.verifyKillCore pk' ⟨t, id, ts, seq⟩ s) sig pk
  | _, _, _, _, _, _ => .bad

/-- The author a body names, in lower case; `none` when it names none. -/
def Json.author (j : Json) : Option Text :=
  j.parsed.bind fun e => e.signerPubkey.truthy.map lc

end Axona
