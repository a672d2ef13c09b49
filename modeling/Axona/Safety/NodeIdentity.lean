import Axona.Identity.NodeIdentity
import Axona.Library.Fallible
import Axona.Safety.Author
import Axona.Safety.Keyspace

/-! # An identity that is stored

What is minted, dumped and loaded again is the identity it was, as long as the loader takes its id:
it asks for 66 characters, which is the width of an id in production, where the others ask for the
width of the profile. Through JSON the coordinates have to be finite as well, which nobody asked for
when the identity was minted. And whatever the loader takes is genuine. -/

namespace Axona

open Library AuthorStore

/-! ### Faults -/

theorem orFault_eq_ok {α : Type} {fault : IdentityFault} {o : Option α} {a : α} :
    orFault fault o = .ok a ↔ o = some a := by
  cases o <;> simp [orFault]

/-! ### Fields -/

@[simp] theorem JsNumber.code_natCast (c : Nat) : (JsNumber.fin c).code = some c := by
  simp [JsNumber.code]

/-- Is the number finite? -/
def JsNumber.isFinite : JsNumber → Bool
  | .fin _ => true
  | _ => false

theorem Field.json_num {V : Type} (x : JsNumber) :
    (Field.num x : Field V).json = if x.isFinite then .num x else .null := by
  cases x <;> rfl

theorem Field.text_eq_some {V : Type} {f : Field V} {t : Text} : f.text = some t ↔ f = .str t := by
  cases f <;> simp [Field.text]

theorem Field.number_eq_some {V : Type} {f : Field V} {x : JsNumber} :
    f.number = some x ↔ f = .num x := by
  cases f <;> simp [Field.number]

/-- An id is as long as the profile says. -/
theorem KeyspaceProfile.length_of_toHex {p : KeyspaceProfile} {id : Nat} {t : Text}
    (h : p.toHex id = .ok t) : t.length = p.hexChars := by
  have hid : id < 2 ^ p.idBits := by
    by_contra hge
    have hmax : p.maxId < id := by
      have := Nat.two_pow_pos p.idBits
      unfold maxId
      omega
    rw [toHex, if_pos hmax] at h
    cases h
  rw [toHex_eq hid] at h
  cases h
  simp

namespace RegionInfo

/-- Can the coordinates be written in JSON? -/
def isFinite (r : RegionInfo) : Bool := r.lat.isFinite && r.lng.isFinite

end RegionInfo

namespace IdentityEnv

variable {Priv V : Type} {E : IdentityEnv Priv} {d : Nat} {now : Int} {x y : NodeIdentity Priv}
  {k : Priv} {env : NodeEnvelope V}

theorem length_of_computeNodeId {pubkey : PubKey} {lat lng : JsNumber} {code : Option Nat}
    {id : Text} (h : E.computeNodeId pubkey lat lng code = .ok id) :
    id.length = E.profile.hexChars := by
  unfold computeNodeId at h
  obtain ⟨big, -, hhex⟩ := bind_eq_ok.mp (mapError_eq_ok.mp h)
  exact KeyspaceProfile.length_of_toHex hhex

theorem resolve_canonical {R : Regions} {region : Field V} {c : Nat}
    (h : R.resolve region = some c) : R.canonicalRegion c = some c := by
  cases region with
  | num n =>
    obtain ⟨raw, -, hc⟩ := Option.bind_eq_some_iff.mp h
    exact Regions.canonicalRegion_idem hc
  | str s => exact Regions.canonicalRegion_of_resolve h
  | _ => cases h

/-! ### What is minted -/

/-- A signing identity as it is minted. -/
structure Minted (E : IdentityEnv Priv) (x : NodeIdentity Priv) (k : Priv) : Prop where
  privateKey : x.privateKey = some k
  pubkey : x.pubkey = E.keys.publicKey k
  id : E.computeNodeId x.pubkey x.region.lat x.region.lng x.region.code = .ok x.id
  code : ∀ c, x.region.code = some c → E.regions.canonicalRegion c = some c
  name : x.region.name = x.region.code.bind E.regions.regionName
  createdAt : x.createdAt.isFinite = true

theorem minted_of_create {o : NodeOptions V} {pair : Option Priv} {rand : PubKey} {t : Int}
    (h : E.createNodeIdentity d o pair rand t = .ok x) (hk : x.privateKey = some k) :
    E.Minted x k := by
  unfold createNodeIdentity at h
  split at h
  next lat lng hlat hlng =>
    obtain ⟨code, hcode, h⟩ := bind_eq_ok.mp h
    have hcanonical : ∀ c, code = some c → E.regions.canonicalRegion c = some c := by
      rintro c rfl
      unfold overrideCode at hcode
      split at hcode
      · cases hcode
      obtain ⟨c', hc', heq⟩ := map_eq_ok.mp hcode
      cases heq
      exact resolve_canonical (orFault_eq_ok.mp hc')
    split at h
    · -- an identity that is minted fast does not sign
      split at h
      · cases h
      obtain ⟨id, -, h⟩ := bind_eq_ok.mp h
      cases h
      cases hk
    · obtain ⟨privateKey, -, h⟩ := bind_eq_ok.mp h
      obtain ⟨id, hid, h⟩ := bind_eq_ok.mp h
      obtain ⟨pow, -, h⟩ := bind_eq_ok.mp h
      cases h
      cases hk
      exact ⟨rfl, rfl, hid, hcanonical, rfl, rfl⟩
  next => cases h

/-! ### What is loaded -/

/-- What the loader found in an envelope that it took. -/
structure Loaded (E : IdentityEnv Priv) (d : Nat) (now : Int) (env : NodeEnvelope V)
    (y : NodeIdentity Priv) : Prop where
  id : env.id = .str y.id
  width : y.id.length = 66
  pubkey : env.pubkey.text.bind PubKey.ofHex = some y.pubkey
  region : ∃ r, env.region = some r ∧ r.lat = .num y.region.lat ∧ r.lng = .num y.region.lng ∧
    E.loadCode r = .ok y.region.code
  derived : E.computeNodeId y.pubkey y.region.lat y.region.lng y.region.code = .ok y.id
  signs : ∃ k, env.privkey.text.bind E.keys.importKey = some k ∧ y.privateKey = some k ∧
    E.keys.signsFor k y.pubkey = true
  name : y.region.name = y.region.code.bind E.regions.regionName
  createdAt : y.createdAt = env.createdAt.number.getD (.fin now)
  pow : E.loadPow d y.pubkey.hex env.pow = .ok y.pow

theorem loadIdentity_iff : E.loadIdentity d now (some env) = .ok y ↔ E.Loaded d now env y := by
  unfold loadIdentity
  simp only [bind_eq_ok, orFault_eq_ok]
  constructor
  · rintro ⟨id, hid, pubkey, hpubkey, privkey, hprivkey, r, hr, lat, hlat, lng, hlng, code, hcode,
      privateKey, hkey, expected, hexpected, h⟩
    obtain ⟨hid, hwidth⟩ := Option.filter_eq_some_iff.mp hid
    split at h
    · cases h
    next hmatch =>
    cases not_not.mp hmatch
    split at h
    · cases h
    next hsigns =>
    obtain ⟨pow, hpow, h⟩ := bind_eq_ok.mp h
    cases h
    refine ⟨Field.text_eq_some.mp hid, of_decide_eq_true hwidth, hpubkey, ?_, hexpected, ?_, rfl,
      rfl, hpow⟩
    · exact ⟨r, hr, Field.number_eq_some.mp hlat, Field.number_eq_some.mp hlng, hcode⟩
    · refine ⟨privateKey, ?_, rfl, by simpa using hsigns⟩
      rw [hprivkey]
      exact hkey
  · intro h
    obtain ⟨r, hr, hlat, hlng, hcode⟩ := h.region
    obtain ⟨privateKey, hkey, hprivate, hsigns⟩ := h.signs
    obtain ⟨privkey, hprivkey, hkey⟩ := Option.bind_eq_some_iff.mp hkey
    refine ⟨y.id, ?_, y.pubkey, h.pubkey, privkey, hprivkey, r, hr, y.region.lat,
      Field.number_eq_some.mpr hlat, y.region.lng, Field.number_eq_some.mpr hlng, y.region.code,
      hcode, privateKey, hkey, y.id, h.derived, ?_⟩
    · rw [h.id]
      exact Option.filter_eq_some_iff.mpr ⟨rfl, decide_eq_true h.width⟩
    · rw [if_neg (not_not.mpr rfl), if_neg (by simp [hsigns])]
      refine bind_eq_ok.mpr ⟨y.pow, h.pow, ?_⟩
      rw [← h.name, ← h.createdAt, ← hprivate]
      rfl

/-! ### What is dumped -/

/-- The code and the name of an identity are read back. -/
theorem loadCode_dump (hm : E.Minted x k) :
    E.loadCode (V := V) ⟨.num x.region.lat, .num x.region.lng,
      x.region.code.elim .missing fun c => .num (.fin c), x.region.name.elim .missing .str⟩
      = .ok x.region.code := by
  have hname := hm.name
  cases hcode : x.region.code with
  | none =>
    rw [hcode] at hname
    rw [hname]
    rfl
  | some c =>
    rw [hcode] at hname
    have hread : ((Field.num (.fin c) : Field V).number.bind JsNumber.code).filter
        (fun c => E.regions.canonicalRegion c = some c) = some c := by
      refine Option.filter_eq_some_iff.mpr ⟨?_, decide_eq_true (hm.code c hcode)⟩
      exact JsNumber.code_natCast c
    unfold loadCode
    simp only [Option.elim_some]
    rw [hread]
    refine bind_eq_ok.mpr ⟨c, rfl, if_neg ?_⟩
    -- the name is that of the code
    cases hn : x.region.name with
    | none => simp [Field.isMissing]
    | some n =>
      have hregion : E.regions.regionName c = some n := hname.symm.trans hn
      simp [Field.text, hregion]

/-- **A dump is loaded** as what was minted, up to the nonce, when the id has the width that the
loader asks for. -/
theorem loaded_dump_iff (hm : E.Minted x k) (hdump : E.dumpIdentity x = .ok env) :
    E.Loaded d now env y ↔ x.id.length = 66 ∧ y = { x with pow := y.pow } ∧
      E.loadPow d x.pubkey.hex (.str x.pow : Field V) = .ok y.pow := by
  obtain ⟨privateKey, hkey, hdump⟩ := bind_eq_ok.mp hdump
  cases hdump
  obtain rfl : k = privateKey :=
    Option.some.inj (hm.privateKey.symm.trans (orFault_eq_ok.mp hkey))
  have hpubkey : (Field.text (.str x.pubkey.hex : Field V)).bind PubKey.ofHex = some x.pubkey :=
    PubKey.ofHex_hex x.pubkey
  have hprivkey : (Field.text (.str (E.keys.exportKey k) : Field V)).bind E.keys.importKey
      = some k := E.keys.import_export k
  constructor
  · intro h
    have hid : x.id = y.id := by
      have := h.id
      injection this
    obtain ⟨r, hr, hlat, hlng, hcode⟩ := h.region
    cases hr
    obtain ⟨k', hk', hprivate, -⟩ := h.signs
    have hpub := Option.some.inj (hpubkey.symm.trans h.pubkey)
    have hcodes := Except.ok.inj ((loadCode_dump hm).symm.trans hcode)
    refine ⟨hid ▸ h.width, ?_, hpub ▸ h.pow⟩
    refine NodeIdentity.ext hid.symm hpub.symm ?_ ?_ h.createdAt rfl
    · rw [hprivate, ← hk', hprivkey, hm.privateKey]
    · refine RegionInfo.ext ?_ ?_ hcodes.symm ?_
      · injection hlat with hlat
        exact hlat.symm
      · injection hlng with hlng
        exact hlng.symm
      · rw [h.name, hm.name, hcodes]
  · rintro ⟨hwidth, hy, hpow⟩
    rw [hy]
    refine ⟨rfl, hwidth, hpubkey, ⟨_, rfl, rfl, rfl, loadCode_dump hm⟩, hm.id, ?_, hm.name, rfl,
      hpow⟩
    refine ⟨k, hprivkey, hm.privateKey, ?_⟩
    show E.keys.signsFor k x.pubkey = true
    rw [hm.pubkey]
    exact E.keys.signsFor_self k

/-- JSON carries a dump when the coordinates are finite. -/
theorem json_dump (hm : E.Minted x k) (hdump : E.dumpIdentity x = .ok env)
    (hfinite : x.region.isFinite = true) : env.json = env := by
  obtain ⟨privateKey, -, hdump⟩ := bind_eq_ok.mp hdump
  cases hdump
  obtain ⟨hlat, hlng⟩ := Bool.and_eq_true_iff.mp hfinite
  have hcode : (x.region.code.elim .missing fun c => .num (.fin c) : Field V).json
      = x.region.code.elim .missing fun c => .num (.fin c) := by
    cases x.region.code <;> rfl
  have hname : (x.region.name.elim .missing .str : Field V).json
      = x.region.name.elim .missing .str := by
    cases x.region.name <;> rfl
  unfold NodeEnvelope.json
  simp only [Option.map_some, Field.json_num, hlat, hlng, hm.createdAt, if_true, hcode, hname]
  rfl

/-- And what is loaded after JSON had finite coordinates. -/
theorem isFinite_of_loaded_json (hdump : E.dumpIdentity x = .ok env)
    (h : E.Loaded d now env.json y) : x.region.isFinite = true := by
  obtain ⟨privateKey, -, hdump⟩ := bind_eq_ok.mp hdump
  cases hdump
  obtain ⟨r, hr, hlat, hlng, -⟩ := h.region
  cases hr
  have hfinite {a b : JsNumber} (hab : (Field.num a : Field V).json = .num b) :
      a.isFinite = true := by
    rw [Field.json_num] at hab
    split at hab
    · assumption
    · cases hab
  exact Bool.and_eq_true_iff.mpr ⟨hfinite hlat, hfinite hlng⟩

/-! ### The property -/

/-- `y` is the identity `x`, with its nonce while that meets the difficulty. -/
structure Same (E : IdentityEnv Priv) (d : Nat) (x y : NodeIdentity Priv) : Prop where
  id : y.id = x.id
  pubkey : y.pubkey = x.pubkey
  privateKey : y.privateKey = x.privateKey
  region : y.region = x.region
  createdAt : y.createdAt = x.createdAt
  pow : E.powVerify d x.pubkey.hex x.pow = true → y.pow = x.pow

/-- Loading the envelope gives the identity back. -/
def Restores (E : IdentityEnv Priv) (d : Nat) (now : Int) (x : NodeIdentity Priv)
    (env : NodeEnvelope V) : Prop :=
  ∃ y, E.loadIdentity d now (some env) = .ok y ∧ E.Same d x y

/-- The identity is dumped, and comes back from the dump, and from the dump after JSON. -/
def Survives (E : IdentityEnv Priv) (V : Type) (d : Nat) (now : Int) (x : NodeIdentity Priv) :
    Prop :=
  ∃ env : NodeEnvelope V, E.dumpIdentity x = .ok env ∧ E.Restores d now x env ∧
    E.Restores d now x env.json

/-- The nonce meets the difficulty, or there is one that does. -/
def Affords (E : IdentityEnv Priv) (d : Nat) (x : NodeIdentity Priv) : Prop :=
  E.powVerify d x.pubkey.hex x.pow = true ∨ (E.powMint d x.pubkey.hex).isSome = true

/-- The id of the envelope is that of its public key and its region, and its private key signs for
the public key. -/
def Genuine (E : IdentityEnv Priv) (env : NodeEnvelope V) : Prop :=
  ∃ pubkey k r lat lng id, env.pubkey.text.bind PubKey.ofHex = some pubkey ∧
    env.privkey.text.bind E.keys.importKey = some k ∧ env.region = some r ∧ r.lat = .num lat ∧
    r.lng = .num lng ∧ env.id = .str id ∧
    E.computeNodeId pubkey lat lng (r.code.number.bind JsNumber.code) = .ok id ∧
    E.keys.signsFor k pubkey = true

theorem loadPow_iff (d : Nat) (x : NodeIdentity Priv) :
    (∃ pow, E.loadPow d x.pubkey.hex (.str x.pow : Field V) = .ok pow) ↔ E.Affords d x := by
  unfold loadPow Affords
  show (∃ pow, (if E.powVerify d x.pubkey.hex x.pow then .ok x.pow
    else orFault .pow (E.powMint d x.pubkey.hex)) = Except.ok pow) ↔ _
  by_cases hmeets : E.powVerify d x.pubkey.hex x.pow
  · simp [hmeets]
  · simp only [hmeets, Bool.false_eq_true, if_false, false_or]
    simp [orFault_eq_ok, Option.isSome_iff_exists]

theorem restores_dump_iff (hm : E.Minted x k) (hdump : E.dumpIdentity x = .ok env) :
    E.Restores d now x env ↔ x.id.length = 66 ∧ E.Affords d x := by
  unfold Restores
  rw [← loadPow_iff (V := V)]
  constructor
  · rintro ⟨y, hy, -⟩
    obtain ⟨hwidth, -, hpow⟩ := (loaded_dump_iff hm hdump).mp (loadIdentity_iff.mp hy)
    exact ⟨hwidth, y.pow, hpow⟩
  · rintro ⟨hwidth, pow, hpow⟩
    refine ⟨{ x with pow }, ?_, ⟨rfl, rfl, rfl, rfl, rfl, ?_⟩⟩
    · exact loadIdentity_iff.mpr ((loaded_dump_iff hm hdump).mpr ⟨hwidth, rfl, hpow⟩)
    · intro hmeets
      unfold loadPow at hpow
      change (if E.powVerify d x.pubkey.hex x.pow then .ok x.pow else _) = Except.ok pow at hpow
      rw [if_pos hmeets] at hpow
      exact (Except.ok.inj hpow).symm

/-- **What is minted survives** in a keyspace whose ids are as wide as those of production, at
coordinates that JSON can write, while a nonce can be found. -/
theorem survives_of_minted (hm : E.Minted x k) (V : Type) (d : Nat) (now : Int) :
    E.Survives V d now x ↔ E.profile.hexChars = 66 ∧ x.region.isFinite = true ∧ E.Affords d x := by
  rw [← length_of_computeNodeId hm.id]
  constructor
  · rintro ⟨env, hdump, hdirect, y, hy, -⟩
    obtain ⟨hwidth, hpow⟩ := (restores_dump_iff hm hdump).mp hdirect
    exact ⟨hwidth, isFinite_of_loaded_json hdump (loadIdentity_iff.mp hy), hpow⟩
  · rintro ⟨hwidth, hfinite, hpow⟩
    obtain ⟨env, hdump⟩ : ∃ env : NodeEnvelope V, E.dumpIdentity x = .ok env :=
      ⟨_, bind_eq_ok.mpr ⟨k, orFault_eq_ok.mpr hm.privateKey, rfl⟩⟩
    have hrestores : E.Restores d now x env := (restores_dump_iff hm hdump).mpr ⟨hwidth, hpow⟩
    refine ⟨env, hdump, hrestores, ?_⟩
    rw [json_dump hm hdump hfinite]
    exact hrestores

/-- The code that is loaded is the one in the envelope. -/
theorem code_of_loadCode {r : RegionFields V} {code : Option Nat}
    (h : E.loadCode r = .ok code) : r.code.number.bind JsNumber.code = code := by
  unfold loadCode at h
  split at h
  next hcode hname =>
    cases h
    rw [hcode]
    rfl
  next =>
  obtain ⟨c, hc, h⟩ := bind_eq_ok.mp h
  obtain ⟨hread, -⟩ := Option.filter_eq_some_iff.mp (orFault_eq_ok.mp hc)
  rw [hread]
  split at h
  · cases h
  · cases h
    rfl

/-- **What is loaded is genuine.** -/
theorem Loaded.genuine (h : E.Loaded d now env y) : E.Genuine env := by
  obtain ⟨r, hr, hlat, hlng, hcode⟩ := h.region
  obtain ⟨k, hkey, -, hsigns⟩ := h.signs
  refine ⟨y.pubkey, k, r, y.region.lat, y.region.lng, y.id, h.pubkey, hkey, hr, hlat, hlng, h.id,
    ?_,
    hsigns⟩
  rw [code_of_loadCode hcode]
  exact h.derived

end IdentityEnv

/-- **Node identities survive storage.** A signing identity that was minted is dumped and loaded as
it was, also through JSON, exactly when the ids of the keyspace are 66 characters wide, its
coordinates are finite, and its nonce meets the difficulty or one is found that does. And whatever
envelope is loaded is genuine. -/
theorem identity_survives_iff {Priv V : Type} (E : IdentityEnv Priv) :
    (∀ (d₀ d : Nat) (o : NodeOptions V) (pair : Option Priv) (rand : PubKey) (t now : Int)
      (x : NodeIdentity Priv), E.createNodeIdentity d₀ o pair rand t = .ok x →
      x.privateKey.isSome = true → (E.Survives V d now x ↔
        E.profile.hexChars = 66 ∧ x.region.isFinite = true ∧ E.Affords d x)) ∧
    ∀ (d : Nat) (now : Int) (env : Option (NodeEnvelope V)) (y : NodeIdentity Priv),
      E.loadIdentity d now env = .ok y → ∃ e ∈ env, E.Genuine e := by
  refine ⟨?_, ?_⟩
  · intro d₀ d o pair rand t now x hx hsigns
    obtain ⟨k, hk⟩ := Option.isSome_iff_exists.mp hsigns
    exact IdentityEnv.survives_of_minted (IdentityEnv.minted_of_create hx hk) V d now
  · intro d now env y hy
    cases env with
    | none => cases hy
    | some e => exact ⟨e, rfl, (IdentityEnv.loadIdentity_iff.mp hy).genuine⟩

/-- One cell for all coordinates, and one hash for all keys. -/
def sampleIdentities (p : KeyspaceProfile) : IdentityEnv PubKey where
  profile := p
  regions := sampleRegions
  keys := plainKeys
  geoCellId _ _ := 0x89
  sha256 _ := 0
  powBits _ _ := 0

/-- A node without a region override. -/
def nodeAt (lat : JsNumber) : NodeOptions Unit := { lat := .num lat, lng := .num (.fin 2) }

/-- The identity with the key `k` in a keyspace whose ids are `zeros + 2` characters wide. -/
def mintedAt (lat : JsNumber) (zeros : Nat) (k : PubKey) : NodeIdentity PubKey :=
  ⟨"89".toList ++ List.replicate zeros '0', k, some k, ⟨lat, .fin 2, none, none⟩, .fin 0, []⟩

theorem create_production {lat : JsNumber} (h : lat = .fin 1 ∨ lat = .nan) :
    (sampleIdentities .production).createNodeIdentity 0 (nodeAt lat) (some (flatKey 7))
      (flatKey 7) 0
      = .ok (mintedAt lat 64 (flatKey 7)) := by
  rcases h with rfl | rfl
  · decide +kernel
  · decide +kernel

/-- In production an identity at a point on the globe survives. -/
theorem identity_survives_production :
    (sampleIdentities .production).Survives Unit 0 1 (mintedAt (.fin 1) 64 (flatKey 7)) :=
  ((identity_survives_iff (sampleIdentities .production)).1 0 0 (nodeAt (.fin 1))
    (some (flatKey 7)) (flatKey 7) 0 1 _ (create_production (.inl rfl)) rfl).mpr
    ⟨by decide, rfl, .inl rfl⟩

/-- Ids of 72 bits. -/
def smallKeyspace : KeyspaceProfile :=
  ⟨64, 8, by decide, by decide, KeyspaceProfile.production.region_le⟩

/-- An identity of a smaller keyspace is refused by the loader for the width of its id, and one at no
point on the globe does not come back from JSON. -/
theorem identity_lost :
    ¬(∀ (E : IdentityEnv PubKey) (d₀ d : Nat) (o : NodeOptions Unit) (pair : Option PubKey)
      (rand : PubKey) (t now : Int) (x : NodeIdentity PubKey), E.profile = smallKeyspace →
      E.createNodeIdentity d₀ o pair rand t = .ok x → x.privateKey.isSome = true →
      E.Survives Unit d now x) ∧
    ¬∀ (E : IdentityEnv PubKey) (d₀ d : Nat) (o : NodeOptions Unit) (pair : Option PubKey)
      (rand : PubKey) (t now : Int) (x : NodeIdentity PubKey), E.profile = .production →
      E.createNodeIdentity d₀ o pair rand t = .ok x → x.privateKey.isSome = true →
      E.Survives Unit d now x := by
  refine ⟨?_, ?_⟩
  · intro h
    have hx : (sampleIdentities smallKeyspace).createNodeIdentity 0 (nodeAt (.fin 1))
        (some (flatKey 7)) (flatKey 7) 0 = .ok (mintedAt (.fin 1) 16 (flatKey 7)) := by decide +kernel
    have hsurvives := h _ 0 0 _ _ _ 0 1 _ rfl hx rfl
    have hwidth := ((IdentityEnv.survives_of_minted (IdentityEnv.minted_of_create hx rfl)
      Unit 0 1).mp hsurvives).1
    exact absurd hwidth (by decide)
  · intro h
    have hx := create_production (.inr rfl)
    have hsurvives := h _ 0 0 _ _ _ 0 1 _ rfl hx rfl
    have hfinite := ((IdentityEnv.survives_of_minted (IdentityEnv.minted_of_create hx rfl)
      Unit 0 1).mp hsurvives).2.1
    cases hfinite

end Axona
