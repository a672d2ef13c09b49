import Axona.Dht.Hexid
import Axona.Identity.Keys
import Axona.Std.Chunk

/-! # The identity of a node

A node is minted, written as an envelope, and loaded from one (`identity/index.js`). Its id is a
region above the hash of its public key (`nodeid.js`), at the widths of the keyspace profile, and a
nonce shows the work that was done for it (`pow.js`). An envelope comes from a store, so its fields
are whatever JSON brings; every one of them is checked, and the id is derived anew.

The keys are those that may be exported. The trigonometry of `geoCellId`, the two hashes and the
tables behind the regions are parameters. -/

namespace Axona

/-- The ways minting, dumping and loading fail. -/
inductive IdentityFault where
  /-- `createNodeIdentity: region must be { lat: number, lng: number }` -/
  | coordinates
  /-- `region override … does not resolve to a region code` -/
  | override
  /-- `sim-only and refused on the production 264-bit keyspace` -/
  | fast
  /-- `Web Crypto Ed25519 generateKey failed` -/
  | keygen
  /-- `privateKey export failed` -/
  | exportKey
  /-- `envelope must be an object` -/
  | envelope
  /-- `id must be 66-char hex` -/
  | id
  /-- `pubkey must be 64-char hex` -/
  | pubkey
  /-- `privkey must be base64 string` -/
  | privkey
  /-- `region must be { lat, lng }` -/
  | region
  /-- `region.code must be a canonical or system region code` -/
  | regionCode
  /-- `region.name … is not the name of region code …` -/
  | regionName
  /-- `privateKey import failed` -/
  | importKey
  /-- `stored id … does not match derived id …` -/
  | mismatch
  /-- `private key does not correspond to the stored public key` -/
  | correspondence
  /-- A `RangeError` of `assembleId` or `toHex`. -/
  | nodeId (e : KeyspaceProfile.HexError)
  /-- `powMint: no nonce within … tries` -/
  | pow
deriving DecidableEq, Repr

/-- The value, or the fault where there is none. -/
def orFault {α : Type} (fault : IdentityFault) : Option α → Except IdentityFault α
  | none => .error fault
  | some a => .ok a

/-! ### Fields -/

/-- The whole number a number is, unless it is negative. -/
def JsNumber.code : JsNumber → Option Nat
  | .fin q => if q.den = 1 ∧ 0 ≤ q.num then some q.num.toNat else none
  | _ => none

/-- The text, if it is one. -/
def Field.text {V : Type*} : Field V → Option Text
  | .str s => some s
  | _ => none

/-- Is it `undefined`? -/
def Field.isMissing {V : Type*} : Field V → Bool
  | .missing => true
  | _ => false

/-- `resolveRegion`, of whatever was given. -/
def Regions.resolve {V : Type*} (R : Regions) : Field V → Option Nat
  | .num x => x.code.bind R.canonicalRegion
  | .str s => R.resolveRegion s
  | _ => none

/-- The field after `JSON.parse(JSON.stringify(x))`: there is no number in JSON for `NaN` and the
infinities. Values that are neither numbers nor texts are left as they are. -/
def Field.json {V : Type*} : Field V → Field V
  | .num .nan | .num (.inf _) => .null
  | f => f

/-! ### Identities and envelopes -/

/-- Where a node is; with a code and its name when the id was minted with a region override. -/
@[ext] structure RegionInfo where
  lat : JsNumber
  lng : JsNumber
  code : Option Nat
  name : Option Text
deriving DecidableEq

/-- An identity. One that was minted fast has no private key. -/
@[ext] structure NodeIdentity (Priv : Type) where
  id : Text
  pubkey : PubKey
  privateKey : Option Priv
  region : RegionInfo
  createdAt : JsNumber
  pow : Text
deriving DecidableEq

/-- The region of an envelope. -/
structure RegionFields (V : Type) where
  lat : Field V
  lng : Field V
  code : Field V
  name : Field V
deriving DecidableEq

/-- An envelope. There may be no region in it. -/
structure NodeEnvelope (V : Type) where
  id : Field V
  pubkey : Field V
  privkey : Field V
  region : Option (RegionFields V)
  createdAt : Field V
  pow : Field V
deriving DecidableEq

/-- The envelope after `JSON.parse(JSON.stringify(x))`. -/
def NodeEnvelope.json {V : Type} (env : NodeEnvelope V) : NodeEnvelope V where
  id := env.id.json
  pubkey := env.pubkey.json
  privkey := env.privkey.json
  region := env.region.map fun r => ⟨r.lat.json, r.lng.json, r.code.json, r.name.json⟩
  createdAt := env.createdAt.json
  pow := env.pow.json

/-- The options of `createNodeIdentity`. -/
structure NodeOptions (V : Type) where
  lat : Field V
  lng : Field V
  fast : Bool := false
  region : Field V := .missing

/-- What the identities of nodes rest on. -/
structure IdentityEnv (Priv : Type) where
  profile : KeyspaceProfile
  regions : Regions
  keys : KeySystem Priv
  /-- `geoCellId`, which is the same at `0` and at `-0`. -/
  geoCellId : JsNumber → JsNumber → Nat
  sha256 : PubKey → Fin (2 ^ 256)
  /-- `powBits` of a public key and a nonce, in the role `transport`. -/
  powBits : Text → Text → Nat

namespace IdentityEnv

variable {Priv V : Type} (E : IdentityEnv Priv)

/-! ### Proof of work -/

/-- `maxTries` -/
def powMaxTries : Nat := 50000000

/-- A digit of `toString(36)`. -/
def digit36 (d : Nat) : Char :=
  if d < 10 then Char.ofNat ('0'.toNat + d) else Char.ofNat ('a'.toNat + (d - 10))

/-- `i.toString(36)` -/
def toString36 (i : Nat) : Text :=
  if i < 36 then [digit36 i] else toString36 (i / 36) ++ [digit36 (i % 36)]
termination_by i
decreasing_by omega

/-- `powVerify`, at the difficulty `d`. -/
def powVerify (d : Nat) (pubkeyHex nonce : Text) : Bool :=
  d = 0 || (!nonce.isEmpty && d ≤ E.powBits pubkeyHex nonce)

/-- `powMint`; `none` where it gives up. -/
def powMint (d : Nat) (pubkeyHex : Text) : Option Text :=
  if d = 0 then some []
  else ((List.range powMaxTries).map toString36).find? fun nonce => d ≤ E.powBits pubkeyHex nonce

/-! ### The node id -/

/-- `computeNodeIdBigInt`. The check of an explicit code is the one `canonicalRegion` makes. -/
def computeNodeIdBigInt (pubkey : PubKey) (lat lng : JsNumber) (regionCode : Option Nat) :
    Except KeyspaceProfile.HexError Nat :=
  match E.regions.canonicalRegion (regionCode.getD (E.geoCellId lat lng)) with
  | none => .error .s2Prefix
  | some s2Prefix =>
    let hash := (E.sha256 pubkey).val &&& E.profile.maxHash
    E.profile.assembleId s2Prefix hash

/-- `computeNodeId` -/
def computeNodeId (pubkey : PubKey) (lat lng : JsNumber) (regionCode : Option Nat) :
    Except IdentityFault Text :=
  (E.computeNodeIdBigInt pubkey lat lng regionCode >>= E.profile.toHex).mapError .nodeId

/-! ### Minting -/

/-- The code a region override names, `none` without an override. -/
def overrideCode (region : Field V) : Except IdentityFault (Option Nat) :=
  if region.isNullish then .ok none
  else (orFault .override (E.regions.resolve region)).map some

/-- `createNodeIdentity`, at the difficulty `d`. `pair` is the key pair that is generated, and
`rand` are the random bytes that stand in for one in a simulation. -/
def createNodeIdentity (d : Nat) (o : NodeOptions V) (pair : Option Priv) (rand : PubKey)
    (now : Int) : Except IdentityFault (NodeIdentity Priv) :=
  match o.lat, o.lng with
  | .num lat, .num lng => do
    let code ← E.overrideCode o.region
    let region : RegionInfo := ⟨lat, lng, code, code.bind E.regions.regionName⟩
    if o.fast then
      if E.profile = .production then .error .fast
      else do
        let id ← E.computeNodeId rand lat lng code
        return ⟨id, rand, none, region, .fin now, []⟩
    else do
      let privateKey ← orFault .keygen pair
      let pubkey := E.keys.publicKey privateKey
      let id ← E.computeNodeId pubkey lat lng code
      let pow ← orFault .pow (E.powMint d pubkey.hex)
      return ⟨id, pubkey, some privateKey, region, .fin now, pow⟩
  | _, _ => .error .coordinates

/-! ### Dumping and loading -/

/-- `dumpIdentity` -/
def dumpIdentity (x : NodeIdentity Priv) : Except IdentityFault (NodeEnvelope V) := do
  let privateKey ← orFault .exportKey x.privateKey
  return {
    id := .str x.id
    pubkey := .str x.pubkey.hex
    privkey := .str (E.keys.exportKey privateKey)
    region := some {
      lat := .num x.region.lat
      lng := .num x.region.lng
      code := x.region.code.elim .missing fun c => .num (.fin c)
      name := x.region.name.elim .missing .str }
    createdAt := .num x.createdAt
    pow := .str x.pow }

/-- The region code of an envelope, `none` for one with neither a code nor a name. -/
def loadCode (r : RegionFields V) : Except IdentityFault (Option Nat) :=
  match r.code, r.name with
  | .missing, .missing => .ok none
  | code, name => do
    let c ← orFault .regionCode
      ((code.number.bind JsNumber.code).filter fun c => E.regions.canonicalRegion c = some c)
    if !name.isMissing && name.text ≠ E.regions.regionName c then .error .regionName
    else return some c

/-- The nonce of an envelope while it meets the difficulty `d`, and a new one otherwise. -/
def loadPow (d : Nat) (pubkeyHex : Text) (pow : Field V) : Except IdentityFault Text :=
  let storedPow := pow.text.getD []
  if E.powVerify d pubkeyHex storedPow then .ok storedPow
  else orFault .pow (E.powMint d pubkeyHex)

/-- `loadIdentity`, at the difficulty `d`. -/
def loadIdentity (d : Nat) (now : Int) :
    Option (NodeEnvelope V) → Except IdentityFault (NodeIdentity Priv)
  | none => .error .envelope
  | some env => do
    let id ← orFault .id (env.id.text.filter fun id => id.length = 66)
    let pubkey ← orFault .pubkey (env.pubkey.text.bind PubKey.ofHex)
    let privkey ← orFault .privkey env.privkey.text
    let r ← orFault .region env.region
    let lat ← orFault .region r.lat.number
    let lng ← orFault .region r.lng.number
    let code ← E.loadCode r
    let privateKey ← orFault .importKey (E.keys.importKey privkey)
    let expected ← E.computeNodeId pubkey lat lng code
    if expected ≠ id then .error .mismatch
    else if !E.keys.signsFor privateKey pubkey then .error .correspondence
    else do
      let pow ← E.loadPow d pubkey.hex env.pow
      let region : RegionInfo := ⟨lat, lng, code, code.bind E.regions.regionName⟩
      return ⟨id, pubkey, some privateKey, region, env.createdAt.number.getD (.fin now), pow⟩

end IdentityEnv

end Axona
