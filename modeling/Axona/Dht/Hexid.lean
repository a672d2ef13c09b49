import Axona.Dht.Region
import Axona.Library.Digits

/-! # The keyspace and its hex form

Ids under a keyspace profile (`hexid.js`): a region prefix above a hash, as a number and as a text
of fixed width. The widths are those of the profile, which `configureKeyspace` checks; production
is 8 bits of region above 256 bits of hash. `resolveTopic` is here in the form that writes the
topic id as text (`post.js`); the digest it cuts is a parameter of 256 bits. -/

namespace Axona

open Library

/-! ### Profiles -/

/-- A keyspace profile: the two widths, within what `configureKeyspace` lets through. -/
structure KeyspaceProfile where
  /-- `HASH_BITS` -/
  hashBits : Nat
  /-- `S2_BITS` -/
  regionBits : Nat
  /-- A hash has at least 8 bits. -/
  hash_ge : 8 ≤ hashBits
  /-- A hash has at most 256 bits. -/
  hash_le : hashBits ≤ 256
  /-- A region has at most 16 bits. -/
  region_le : regionBits ≤ 16
deriving DecidableEq

namespace KeyspaceProfile

/-- The profile in force before `configureKeyspace` is called. -/
def production : KeyspaceProfile := ⟨256, 8, by decide, by decide, by decide⟩

variable (p : KeyspaceProfile)

/-- `ID_BITS` -/
def idBits : Nat := p.regionBits + p.hashBits

/-- `HEX_CHARS` -/
def hexChars : Nat := (p.idBits + 3) / 4

/-- `AUTHOR_HEX_CHARS` -/
def authorHexChars : Nat := (p.hashBits + 3) / 4

/-- `MAX_ID` -/
def maxId : Nat := 2 ^ p.idBits - 1

/-- `MAX_HASH`, which is `HASH_MASK` too. -/
def maxHash : Nat := 2 ^ p.hashBits - 1

/-- `MAX_S2` -/
def maxS2 : Nat := 2 ^ p.regionBits - 1

/-! ### Encoding -/

/-- The ways the conversions throw. -/
inductive HexError where
  /-- `id out of range` -/
  | range
  /-- `hex id must be … chars` -/
  | length
  /-- `hex id contains non-hex chars` -/
  | chars
  /-- `s2Prefix out of range` -/
  | s2Prefix
  /-- `hash256 out of range` -/
  | hash
deriving DecidableEq, Repr

/-- `toHex` -/
def toHex (id : Nat) : Except HexError Text :=
  if p.maxId < id then .error .range
  else .ok ((Nat.toDigits 16 id).leftpad p.hexChars '0')

/-- `BigInt('0x' + hex)`, where the text is of hex digits. -/
def hexValue (hex : Text) : Nat := ofFixed 16 (hex.map fun c => (hexDigit? c).getD 0)

/-- Is the text of hex digits, of either case? -/
def isHex (hex : Text) : Bool := !hex.isEmpty && hex.all fun c => (hexDigit? c).isSome

/-- `fromHex` -/
def fromHex (hex : Text) : Except HexError Nat :=
  if hex.length ≠ p.hexChars then .error .length
  else if isHex hex then .ok (hexValue hex)
  else .error .chars

/-- `isHexId` -/
def isHexId (hex : Text) : Bool := hex.length == p.hexChars && isHex hex

/-! ### Composition and decomposition -/

/-- `assembleId` -/
def assembleId (s2Prefix hash256 : Nat) : Except HexError Nat :=
  if p.maxS2 < s2Prefix then .error .s2Prefix
  else if p.maxHash < hash256 then .error .hash
  else .ok (s2Prefix <<< p.hashBits ||| hash256)

/-- `extractS2Prefix` -/
def extractS2Prefix (id : Nat) : Nat := id >>> p.hashBits

/-- `s2PrefixOfHex` -/
def s2PrefixOfHex (hex : Text) : Except HexError Nat :=
  if p.isHexId hex then .ok (hexValue (hex.take 2)) else .error .range

end KeyspaceProfile

/-! ### Topic ids as texts -/

/-- What `resolveTopic` returns: the descriptor with its defaults, and the id as text. -/
structure ResolvedHex where
  /-- The code of the region. -/
  region : Nat
  /-- Owner, name and policy. -/
  key : TopicKey
  /-- The topic id. -/
  topicId : Text
deriving DecidableEq

/-- `sha256Hex`: the 64 digits of a digest. -/
def sha256Hex (digest : Fin (2 ^ 256)) : Text := (fixedDigits 16 64 digest).map Nat.digitChar

namespace KeyspaceProfile

variable (p : KeyspaceProfile)

/-- Is the text an Author ID in lower case, at the width of the profile? -/
def isAuthorId (t : Text) : Bool := t.length == p.authorHexChars && t.all isLowerHex

/-- The id as `resolveTopic` writes it: two digits of region, and as much of the digest as the
width of an id leaves. -/
def topicIdHex (code : Nat) (digest : Fin (2 ^ 256)) : Text :=
  (Nat.toDigits 16 code).leftpad 2 '0' ++ (sha256Hex digest).take (p.hexChars - 2)

/-- The code of the region a descriptor asks for, or of the publisher's own where it asks for
none. -/
def requestedRegion (R : Regions) : Option Text → Option Text → Except TopicError Nat
  | some r, _ | none, some r => (R.resolveRegion r).elim (.error .unknownRegion) .ok
  | none, none => .error .regionRequired

/-- `resolveTopic` under a profile. `sha` is the digest of owner, name and policy in canonical
form. -/
def resolveTopic (R : Regions) (sha : TopicKey → Fin (2 ^ 256)) (d : Descriptor)
    (selfRegion : Option Text := none) : Except TopicError ResolvedHex := do
  let name ← match d.name with
    | none | some [] => .error .name
    | some n => .ok n
  let owner := d.owner.map lc
  if owner.any (fun o => !p.isAuthorId o) then .error .owner
  let w ← effectiveWrite owner d.write
  let code ← requestedRegion R d.region selfRegion
  if isSystemRegion code && (name != bridgeDirectoryTopic || owner.isSome) then
    .error .systemRegion
  let key : TopicKey := ⟨owner, name, w⟩
  return ⟨code, key, p.topicIdHex code (sha key)⟩

end KeyspaceProfile

/-! ### The lateral spread of a lookup step -/

/-- The part of a synapse the lateral spread reads. -/
structure Neighbour where
  /-- The peer. -/
  peerId : NodeId
  /-- How much the link is worth. -/
  weight : Rat
deriving DecidableEq

/-- `id >> BigInt(k)`: a shift by a negative amount goes the other way. -/
def bigShift (id : Nat) : Int → Nat
  | .ofNat k => id >>> k
  | .negSucc k => id <<< (k + 1)

/-- The synapses `_lookupStep` takes for regional neighbours, in the order of the synaptome. -/
def regional (geoRegionBits : Nat) (self targetKey : NodeId) (synaptome : List Neighbour) :
    List Neighbour :=
  let nodeRegion := bigShift self (64 - geoRegionBits)
  synaptome.filter fun s =>
    s.peerId != targetKey && bigShift s.peerId (64 - geoRegionBits) == nodeRegion

end Axona
