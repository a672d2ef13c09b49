import Axona.Dht.Hexid

/-! # Two views of an id

An id is a number where it is routed and a text where it is sent, and its region is read from
either. The two views agree on every id under every profile as far as whole ids go. The shortcuts
that read or write a region byte as two hex digits, and the shift by `64 - GEO_REGION_BITS` in a
lookup step, fix widths that the profile leaves open. -/

namespace Axona

open Library

namespace KeyspaceProfile

variable {p : KeyspaceProfile}

/-! ### Hex digits -/

theorem hexDigit?_digitChar {d : Nat} (h : d < 16) : hexDigit? d.digitChar = some d := by
  have hall : ∀ d < 16, hexDigit? d.digitChar = some d := by decide
  exact hall d h

theorem digitChar_lt_iff {d e : Nat} (hd : d < 16) (he : e < 16) :
    d.digitChar < e.digitChar ↔ d < e := by
  have hall : ∀ d < 16, ∀ e < 16, (d.digitChar < e.digitChar ↔ d < e) := by decide
  exact hall d hd e he

theorem digitChar_inj {d e : Nat} (hd : d < 16) (he : e < 16) :
    d.digitChar = e.digitChar ↔ d = e := by
  have hall : ∀ d < 16, ∀ e < 16, (d.digitChar = e.digitChar ↔ d = e) := by decide
  exact hall d hd e he

/-- The text of hex digits. -/
def hexText (ds : List Nat) : Text := ds.map Nat.digitChar

@[simp] theorem length_hexText (ds : List Nat) : (hexText ds).length = ds.length :=
  List.length_map _

theorem hexValue_hexText {ds : List Nat} (h : ∀ d ∈ ds, d < 16) :
    hexValue (hexText ds) = ofFixed 16 ds := by
  rw [hexValue, hexText, List.map_map]
  congr 1
  refine (List.map_congr_left fun d hd => ?_).trans (List.map_id ds)
  rw [Function.comp_apply, hexDigit?_digitChar (h d hd)]
  rfl

theorem isHex_hexText {ds : List Nat} (h : ∀ d ∈ ds, d < 16) (hne : ds ≠ []) :
    isHex (hexText ds) := by
  rw [isHex, hexText, Bool.and_eq_true]
  constructor
  · simpa using hne
  · rw [List.all_map, List.all_eq_true]
    intro d hd
    rw [Function.comp_apply, hexDigit?_digitChar (h d hd)]
    rfl

theorem mem_fixed {w n : Nat} : ∀ d ∈ fixedDigits 16 w n, d < 16 := by
  intro d hd
  exact lt_of_mem_fixedDigits (by decide) hd

/-! ### Whole ids -/

theorem idBits_le : p.idBits ≤ 4 * p.hexChars := by
  unfold hexChars
  omega

theorem two_le_hexChars : 2 ≤ p.hexChars := by
  have := p.hash_ge
  unfold hexChars idBits
  omega

theorem pow_hex (k : Nat) : (16 : Nat) ^ k = 2 ^ (4 * k) := by
  rw [pow_mul]
  norm_num

variable {id : Nat}

/-- An id in range fits in the hex digits of the profile. -/
theorem lt_pow_hexChars (h : id < 2 ^ p.idBits) : id < 16 ^ p.hexChars := by
  rw [pow_hex]
  exact h.trans_le (Nat.pow_le_pow_right (by decide) idBits_le)

/-- An id in range is written with the digits of its number. -/
theorem toHex_eq (h : id < 2 ^ p.idBits) :
    p.toHex id = .ok (hexText (fixedDigits 16 p.hexChars id)) := by
  have hmax : ¬ p.maxId < id := by
    unfold maxId
    omega
  have hw : p.hexChars ≠ 0 := by
    have := two_le_hexChars (p := p)
    omega
  rw [toHex, if_neg hmax, leftpad_toDigits (by decide) hw (lt_pow_hexChars h)]
  rfl

theorem isHex_toHex : isHex (hexText (fixedDigits 16 p.hexChars id)) := by
  refine isHex_hexText mem_fixed fun hnil => ?_
  have hlen := congrArg List.length hnil
  rw [length_fixedDigits, List.length_nil] at hlen
  have := two_le_hexChars (p := p)
  omega

/-- What is written is read back. -/
theorem fromHex_toHex (h : id < 2 ^ p.idBits) : p.toHex id >>= p.fromHex = .ok id := by
  rw [toHex_eq h]
  change p.fromHex (hexText (fixedDigits 16 p.hexChars id)) = .ok id
  rw [fromHex, if_neg (by simp), if_pos isHex_toHex, hexValue_hexText mem_fixed,
    ofFixed_fixedDigits (lt_pow_hexChars h)]

/-- Texts are ordered as their ids are. -/
theorem hexText_lt_iff {a b : Nat} (ha : a < 2 ^ p.idBits) (hb : b < 2 ^ p.idBits) :
    hexText (fixedDigits 16 p.hexChars a) < hexText (fixedDigits 16 p.hexChars b) ↔ a < b := by
  rw [hexText, hexText, map_lt_map_iff (c := 16) (fun d hd e he => digitChar_lt_iff hd he)
    (fun d hd e he => digitChar_inj hd he) mem_fixed mem_fixed,
    fixedDigits_lt_iff (by decide) (lt_pow_hexChars ha) (lt_pow_hexChars hb)]

/-! ### The region prefix -/

/-- The first two digits of an id are what is above the others. -/
theorem s2PrefixOfHex_toHex (h : id < 2 ^ p.idBits) :
    p.toHex id >>= p.s2PrefixOfHex = .ok (id / 16 ^ (p.hexChars - 2)) := by
  have hid : p.isHexId (hexText (fixedDigits 16 p.hexChars id)) := by
    rw [isHexId, isHex_toHex]
    simp
  obtain ⟨k, hk⟩ := Nat.exists_eq_add_of_le (two_le_hexChars (p := p))
  rw [toHex_eq h]
  change p.s2PrefixOfHex (hexText (fixedDigits 16 p.hexChars id)) = _
  rw [s2PrefixOfHex, if_pos hid, hk, hexText, ← List.map_take, take_fixedDigits,
    ← hexText, hexValue_hexText mem_fixed]
  have hlt : id / 16 ^ k < 16 ^ 2 := by
    have hfit := lt_pow_hexChars h
    rw [hk, pow_add, Nat.mul_comm] at hfit
    exact Nat.div_lt_of_lt_mul hfit
  rw [ofFixed_fixedDigits hlt, Nat.add_sub_cancel_left]

theorem extractS2Prefix_eq (id : Nat) : p.extractS2Prefix id = id / 2 ^ p.hashBits :=
  Nat.shiftRight_eq_div_pow id p.hashBits

/-! ### Topic ids -/

/-- How many digits of a digest go into a topic id. -/
def digestChars (p : KeyspaceProfile) : Nat := min 64 (p.hexChars - 2)

/-- What of a digest goes into a topic id fits in its digits. -/
theorem digest_lt (p : KeyspaceProfile) (digest : Fin (2 ^ 256)) :
    (digest : Nat) / 16 ^ (64 - p.digestChars) < 16 ^ p.digestChars := by
  have hle : p.digestChars ≤ 64 := Nat.min_le_left _ _
  refine Nat.div_lt_of_lt_mul ?_
  rw [← pow_add, Nat.sub_add_cancel hle]
  exact digest.isLt.trans_le (by norm_num)

/-- A topic id is its region above the leading digits of the digest. -/
theorem hexValue_topicIdHex {code : Nat} (hcode : code < 256) (digest : Fin (2 ^ 256)) :
    hexValue (p.topicIdHex code digest)
      = 16 ^ p.digestChars * code + digest / 16 ^ (64 - p.digestChars) := by
  have hle : p.digestChars ≤ 64 := Nat.min_le_left _ _
  have hsum : 64 = p.digestChars + (64 - p.digestChars) := (Nat.add_sub_of_le hle).symm
  -- `slice` stops at the end of the digest
  have htake : (fixedDigits 16 64 digest).take (p.hexChars - 2)
      = fixedDigits 16 p.digestChars (digest / 16 ^ (64 - p.digestChars)) := by
    rw [← take_fixedDigits, ← hsum]
    unfold digestChars
    rw [← List.take_take, List.take_of_length_le (i := 64)]
    simp
  rw [topicIdHex, sha256Hex, leftpad_toDigits (by decide) (by decide) hcode, ← List.map_take, htake,
    ← List.map_append, ← hexText, hexValue_hexText, ofFixed_append, length_fixedDigits,
    ofFixed_fixedDigits hcode, ofFixed_fixedDigits (digest_lt p digest)]
  intro d hd
  rcases List.mem_append.mp hd with hd | hd
  · exact mem_fixed d hd
  · exact mem_fixed d hd

theorem requestedRegion_ok {R : Regions} {region selfRegion : Option Text} {code : Nat}
    (h : requestedRegion R region selfRegion = .ok code) :
    (region.or selfRegion).bind R.resolveRegion = some code := by
  have helim : ∀ t, (R.resolveRegion t).elim (Except.error TopicError.unknownRegion) Except.ok
      = Except.ok code →
      R.resolveRegion t = some code := by
    intro t ht
    cases hr : R.resolveRegion t with
    | none => rw [hr] at ht; cases ht
    | some c => rw [hr] at ht; cases ht; rfl
  cases region with
  | some t => exact helim t h
  | none =>
    cases selfRegion with
    | some t => exact helim t h
    | none => cases h

/-- What `resolveTopic` returns carries the id of the region that was asked for. -/
theorem resolveTopic_ok {R : Regions} {sha : TopicKey → Fin (2 ^ 256)} {d : Descriptor}
    {selfRegion : Option Text} {r : ResolvedHex} (h : p.resolveTopic R sha d selfRegion = .ok r) :
    r.topicId = p.topicIdHex r.region (sha r.key) ∧
      (d.region.or selfRegion).bind R.resolveRegion = some r.region := by
  obtain ⟨region, owner, name, write⟩ := d
  simp only [resolveTopic, bind, Except.bind, pure, Except.pure] at h
  split at h
  next => cases h
  next => cases h
  next n _ =>
  split at h
  next => cases h
  next =>
  cases hw : effectiveWrite (owner.map lc) write with
  | error e => rw [hw] at h; cases h
  | ok w =>
    cases hc : requestedRegion R region selfRegion with
    | error e => rw [hw, hc] at h; cases h
    | ok code =>
      simp only [hw, hc] at h
      split at h
      next => cases h
      next =>
        cases h
        exact ⟨rfl, requestedRegion_ok hc⟩

/-- A topic in the open, in a region the table holds whatever else it holds. -/
def penguinTopic : Descriptor := ⟨some "penguin".toList, none, some "colony".toList, .absent⟩

theorem resolveTopic_penguin (R : Regions) (sha : TopicKey → Fin (2 ^ 256)) :
    p.resolveTopic R sha penguinTopic = .ok ⟨0xaa, ⟨none, "colony".toList, .open⟩,
      p.topicIdHex 0xaa (sha ⟨none, "colony".toList, .open⟩)⟩ := by
  have hregion : requestedRegion R (some "penguin".toList) none = .ok 0xaa := by
    rw [requestedRegion, Regions.resolveRegion_penguin]
    rfl
  rw [resolveTopic, penguinTopic, hregion]
  rfl

end KeyspaceProfile

/-! ### Regional neighbours -/

/-- The region of an id at a granularity: its highest `geoRegionBits` bits. -/
def prefixAt (p : KeyspaceProfile) (geoRegionBits : Nat) (id : Nat) : Nat :=
  id >>> (p.idBits - geoRegionBits)

/-- A shift that goes the other way loses nothing, like one by no bits. -/
theorem bigShift_eq_iff (g a b : Nat) :
    bigShift a (64 - g) = bigShift b (64 - g) ↔ a / 2 ^ (64 - g) = b / 2 ^ (64 - g) := by
  rcases Nat.lt_or_ge 64 g with hlt | hle
  · obtain ⟨k, rfl⟩ := Nat.exists_eq_add_of_lt hlt
    have hk : (64 : Int) - ((64 + k + 1 : Nat) : Int) = Int.negSucc k := by omega
    have hz : 64 - (64 + k + 1) = 0 := by omega
    rw [hk, hz, pow_zero, Nat.div_one, Nat.div_one, bigShift, bigShift, Nat.shiftLeft_eq,
      Nat.shiftLeft_eq]
    exact Nat.mul_left_inj (by positivity)
  · have hk : (64 : Int) - (g : Int) = Int.ofNat (64 - g) := by
      rw [Int.ofNat_eq_natCast]
      omega
    rw [hk, bigShift, bigShift, Nat.shiftRight_eq_div_pow, Nat.shiftRight_eq_div_pow]

/-- Two shifts tell the same ids below a bound apart only when they are the same shift, as far as
the bound goes. -/
theorem div_pow_agree_iff {e f n : Nat} (hf : f ≤ n) :
    (∀ a < 2 ^ n, ∀ b < 2 ^ n, (a / 2 ^ e = b / 2 ^ e ↔ a / 2 ^ f = b / 2 ^ f)) ↔ f = min e n := by
  constructor
  · intro h
    rcases lt_trichotomy f (min e n) with hlt | heq | hgt
    · -- the power at the finer shift is lost by the coarser
      have hin : (2 : Nat) ^ f < 2 ^ n :=
        Nat.pow_lt_pow_right (by decide) (hlt.trans_le (Nat.min_le_right e n))
      have hz : (2 : Nat) ^ f / 2 ^ e = 0 :=
        Nat.div_eq_of_lt (Nat.pow_lt_pow_right (by decide) (hlt.trans_le (Nat.min_le_left e n)))
      have := (h (2 ^ f) hin 0 (by positivity)).mp (by rw [hz, Nat.zero_div])
      rw [Nat.div_self (by positivity), Nat.zero_div] at this
      exact absurd this one_ne_zero
    · exact heq
    · have hef : e < f := by omega
      have hin : (2 : Nat) ^ e < 2 ^ n := Nat.pow_lt_pow_right (by decide) (hef.trans_le hf)
      have hz : (2 : Nat) ^ e / 2 ^ f = 0 := Nat.div_eq_of_lt (Nat.pow_lt_pow_right (by decide) hef)
      have := (h (2 ^ e) hin 0 (by positivity)).mpr (by rw [hz, Nat.zero_div])
      rw [Nat.div_self (by positivity), Nat.zero_div] at this
      exact absurd this one_ne_zero
  · rintro rfl a ha b hb
    rcases Nat.le_total e n with hle | hle
    · rw [Nat.min_eq_left hle]
    have hn : (2 : Nat) ^ n ≤ 2 ^ e := Nat.pow_le_pow_right (by decide) hle
    rw [Nat.min_eq_right hle, Nat.div_eq_of_lt ha, Nat.div_eq_of_lt hb,
      Nat.div_eq_of_lt (ha.trans_le hn), Nat.div_eq_of_lt (hb.trans_le hn)]

theorem mem_regional {g : Nat} {self targetKey : NodeId} {synaptome : List Neighbour}
    {s : Neighbour} :
    s ∈ regional g self targetKey synaptome ↔ s ∈ synaptome ∧ s.peerId ≠ targetKey ∧
      s.peerId / 2 ^ (64 - g) = self / 2 ^ (64 - g) := by
  rw [regional, List.mem_filter, Bool.and_eq_true, bne_iff_ne, beq_iff_eq, bigShift_eq_iff]

/-! ### Agreement -/

/-- The views of an id agree under a profile. -/
structure KeyspaceAgrees (p : KeyspaceProfile) (geoRegionBits : Nat) (R : Regions)
    (sha : TopicKey → Fin (2 ^ 256)) : Prop where
  /-- What is written is read back. -/
  roundTrip : ∀ id < 2 ^ p.idBits, p.toHex id >>= p.fromHex = .ok id
  /-- Texts are ordered as their ids are. -/
  ordered : ∀ a < 2 ^ p.idBits, ∀ b < 2 ^ p.idBits, ∀ ha hb, p.toHex a = .ok ha →
    p.toHex b = .ok hb → (ha < hb ↔ a < b)
  /-- The region read from the text is the one read from the number. -/
  prefixed : ∀ id < 2 ^ p.idBits,
    p.toHex id >>= p.s2PrefixOfHex = .ok (p.extractS2Prefix id)
  /-- A topic id is an id, in the region that was asked for. -/
  topics : ∀ d selfRegion r, p.resolveTopic R sha d selfRegion = .ok r →
    KeyspaceProfile.hexValue r.topicId < 2 ^ p.idBits ∧
      (d.region.or selfRegion).bind R.resolveRegion =
        some (p.extractS2Prefix (KeyspaceProfile.hexValue r.topicId))
  /-- The regional neighbours of a node are the peers whose region is its own. -/
  neighbours : ∀ self < 2 ^ p.idBits, ∀ targetKey synaptome, (∀ s ∈ synaptome,
    s.peerId < 2 ^ p.idBits) → ∀ s, s ∈ regional geoRegionBits self targetKey synaptome ↔
      s ∈ synaptome ∧ s.peerId ≠ targetKey ∧
        prefixAt p geoRegionBits s.peerId = prefixAt p geoRegionBits self

/-- The profiles under which they do: one byte of region, a hash of whole hex digits, and a shift
that leaves of an id what its region has. -/
def KeyspaceProfile.Aligned (p : KeyspaceProfile) (geoRegionBits : Nat) : Prop :=
  p.regionBits = 8 ∧ 4 ∣ p.hashBits ∧ p.idBits - geoRegionBits = min (64 - geoRegionBits) p.idBits

namespace KeyspaceProfile

variable {p : KeyspaceProfile}

theorem idBits_of_byte (hr : p.regionBits = 8) (hh : 4 ∣ p.hashBits) :
    4 * (p.hexChars - 2) = p.hashBits ∧ 4 * p.digestChars = p.hashBits := by
  have hle := p.hash_le
  obtain ⟨k, hk⟩ := hh
  unfold digestChars hexChars idBits
  omega

/-- Above as many digits as the hash has, the region is where the number has it. -/
theorem topics_of_aligned {R : Regions} {sha : TopicKey → Fin (2 ^ 256)} {d : Descriptor}
    {selfRegion : Option Text} {r : ResolvedHex} (hr : p.regionBits = 8) (hh : 4 ∣ p.hashBits)
    (h : p.resolveTopic R sha d selfRegion = .ok r) : hexValue r.topicId < 2 ^ p.idBits ∧
      (d.region.or selfRegion).bind R.resolveRegion =
        some (p.extractS2Prefix (hexValue r.topicId)) := by
  obtain ⟨htopic, hregion⟩ := resolveTopic_ok h
  obtain ⟨t, -, ht⟩ := Option.bind_eq_some_iff.mp hregion
  have hcode : r.region < 256 := Regions.resolveRegion_lt ht
  have hpow : (16 : Nat) ^ p.digestChars = 2 ^ p.hashBits := by
    rw [pow_hex, (idBits_of_byte hr hh).2]
  have hlt := digest_lt p (sha r.key)
  rw [htopic, hexValue_topicIdHex hcode, hregion, hpow]
  rw [hpow] at hlt
  constructor
  · calc 2 ^ p.hashBits * r.region + (sha r.key : Nat) / 16 ^ (64 - p.digestChars)
        < 2 ^ p.hashBits * r.region + 2 ^ p.hashBits := Nat.add_lt_add_left hlt _
      _ = 2 ^ p.hashBits * (r.region + 1) := (Nat.mul_succ _ _).symm
      _ ≤ 2 ^ p.hashBits * 256 := Nat.mul_le_mul_left _ hcode
      _ = 2 ^ p.idBits := by rw [idBits, hr, Nat.add_comm, pow_add]; norm_num
  · rw [extractS2Prefix_eq, Nat.mul_add_div (by positivity), Nat.div_eq_of_lt hlt, Nat.add_zero]

/-- A topic in region `0xaa` is in range and in its region only where the digest goes in whole and
a byte of region fits above it. -/
theorem hash_of_topics {R : Regions} {sha : TopicKey → Fin (2 ^ 256)}
    (h : ∀ d selfRegion r, p.resolveTopic R sha d selfRegion = .ok r →
      hexValue r.topicId < 2 ^ p.idBits ∧ (d.region.or selfRegion).bind R.resolveRegion =
          some (p.extractS2Prefix (hexValue r.topicId))) :
    4 * p.digestChars = p.hashBits ∧ 8 ≤ p.regionBits := by
  obtain ⟨hin, hreg⟩ := h penguinTopic none _ (resolveTopic_penguin R sha)
  generalize sha ⟨none, "colony".toList, .open⟩ = digest at hin hreg
  have hext : p.extractS2Prefix (hexValue (p.topicIdHex 0xaa digest)) = 0xaa := by
    have hpen := hreg.symm.trans (R.resolveRegion_penguin)
    exact Option.some.inj hpen
  have hlt := digest_lt p digest
  rw [hexValue_topicIdHex (by decide)] at hin hext
  generalize (digest : Nat) / 16 ^ (64 - p.digestChars) = tail at hin hext hlt
  rw [extractS2Prefix_eq] at hext
  rw [pow_hex] at hin hext hlt
  -- between the multiples of the hash width that `0xaa` and `0xab` are
  have hlow : 2 ^ p.hashBits * 0xaa ≤ 2 ^ (4 * p.digestChars) * 0xaa + tail := by
    have := Nat.mul_div_le (2 ^ (4 * p.digestChars) * 0xaa + tail) (2 ^ p.hashBits)
    rwa [hext] at this
  have hhigh : 2 ^ (4 * p.digestChars) * 0xaa + tail < 2 ^ p.hashBits * 0xab := by
    have := Nat.lt_mul_div_succ (2 ^ (4 * p.digestChars) * 0xaa + tail) (Nat.two_pow_pos p.hashBits)
    rwa [hext] at this
  have heq : 4 * p.digestChars = p.hashBits := by
    rcases lt_trichotomy (4 * p.digestChars) p.hashBits with hlt' | heq | hgt
    · have : 2 ^ (4 * p.digestChars + 1) ≤ 2 ^ p.hashBits :=
        Nat.pow_le_pow_right (by decide) hlt'
      rw [pow_succ] at this
      omega
    · exact heq
    · have : 2 ^ (p.hashBits + 1) ≤ 2 ^ (4 * p.digestChars) :=
        Nat.pow_le_pow_right (by decide) hgt
      rw [pow_succ] at this
      omega
  refine ⟨heq, ?_⟩
  by_contra hsmall
  have hpow : 2 ^ p.regionBits ≤ 2 ^ 7 := Nat.pow_le_pow_right (by decide) (by omega)
  have hid : 2 ^ p.idBits = 2 ^ p.hashBits * 2 ^ p.regionBits := by
    rw [idBits, Nat.add_comm, pow_add]
  rw [heq, hid] at hin
  have := Nat.mul_le_mul_left (2 ^ p.hashBits) hpow
  omega

/-- The first two digits are the region only where the region has no more than a byte. -/
theorem region_of_prefixed (hr : 8 ≤ p.regionBits) (h : ∀ id < 2 ^ p.idBits,
    p.toHex id >>= p.s2PrefixOfHex = .ok (p.extractS2Prefix id)) : p.regionBits = 8 := by
  have hin : (2 : Nat) ^ p.hashBits < 2 ^ p.idBits :=
    Nat.pow_lt_pow_right (by decide) (by unfold idBits; omega)
  have hid := (s2PrefixOfHex_toHex hin).symm.trans (h _ hin)
  rw [extractS2Prefix_eq, Nat.div_self (by positivity), pow_hex] at hid
  have hone : (2 : Nat) ^ p.hashBits / 2 ^ (4 * (p.hexChars - 2)) = 1 := Except.ok.inj hid
  -- the lowest id of region one has its bit no lower than the first two digits
  have hle : 4 * (p.hexChars - 2) ≤ p.hashBits := by
    by_contra hlt
    rw [Nat.div_eq_of_lt (Nat.pow_lt_pow_right (by decide) (by omega))] at hone
    cases hone
  have := p.hash_ge
  unfold hexChars idBits at hle
  omega

end KeyspaceProfile

/-- The two views of an id agree, for every id, topic and synaptome, exactly under the profiles
whose widths are those the shortcuts fix. -/
theorem keyspaceAgrees_iff (p : KeyspaceProfile) (geoRegionBits : Nat) (R : Regions)
    (sha : TopicKey → Fin (2 ^ 256)) :
    KeyspaceAgrees p geoRegionBits R sha ↔ p.Aligned geoRegionBits := by
  have hsub : p.idBits - geoRegionBits ≤ p.idBits := Nat.sub_le _ _
  constructor
  · intro h
    obtain ⟨hdigest, hge⟩ := KeyspaceProfile.hash_of_topics h.topics
    refine ⟨KeyspaceProfile.region_of_prefixed hge h.prefixed, ⟨_, hdigest.symm⟩, ?_⟩
    rw [← div_pow_agree_iff hsub]
    intro a ha b hb
    -- one synapse is enough, for a target that is neither end
    have hmem := h.neighbours b hb (a + 1) [⟨a, 0⟩]
      (by intro s hs; rw [List.mem_singleton.mp hs]; exact ha) ⟨a, 0⟩
    rw [mem_regional] at hmem
    simpa [prefixAt, Nat.shiftRight_eq_div_pow] using hmem
  · rintro ⟨hr, hh, hshift⟩
    refine ⟨fun id => KeyspaceProfile.fromHex_toHex, ?_, ?_,
      fun d selfRegion r => KeyspaceProfile.topics_of_aligned hr hh, ?_⟩
    · intro a ha b hb ta tb hta htb
      rw [KeyspaceProfile.toHex_eq ha] at hta
      rw [KeyspaceProfile.toHex_eq hb] at htb
      cases hta
      cases htb
      exact KeyspaceProfile.hexText_lt_iff ha hb
    · intro id hid
      rw [KeyspaceProfile.s2PrefixOfHex_toHex hid, KeyspaceProfile.extractS2Prefix_eq,
        KeyspaceProfile.pow_hex, (KeyspaceProfile.idBits_of_byte hr hh).1]
    · intro self hself targetKey synaptome hin s
      rw [mem_regional]
      refine and_congr_right fun hs => and_congr_right fun _ => ?_
      rw [prefixAt, prefixAt, Nat.shiftRight_eq_div_pow, Nat.shiftRight_eq_div_pow]
      exact (div_pow_agree_iff hsub).mpr hshift s.peerId (hin s hs) self hself

/-- A region table in which every cell that is not major folds into one of them. -/
def sampleRegions : Regions where
  legacy := fun _ => none
  canonical := fun c => if isMajor c then c else 0x89
  legacy_cell := by
    intro t c h
    cases h
  canonical_major := by
    intro c
    split
    · assumption
    · decide
  canonical_self := fun c h => if_pos h

/-- In production two nodes of one region are not neighbours to each other: the shift is the one
for ids of 64 bits. -/
theorem keyspace_disagrees :
    prefixAt .production 8 (2 ^ 60) = prefixAt .production 8 0 ∧
      regional 8 0 1 [⟨2 ^ 60, 1⟩] = [] ∧
      ¬ KeyspaceAgrees .production 8 sampleRegions (fun _ => 0) := by
  have hpre : prefixAt .production 8 (2 ^ 60) = prefixAt .production 8 0 := by decide +kernel
  have hreg : regional 8 0 1 [⟨2 ^ 60, 1⟩] = [] := by decide +kernel
  refine ⟨hpre, hreg, fun h => ?_⟩
  have hmem := (h.neighbours 0 (by decide +kernel) 1 [⟨2 ^ 60, 1⟩]
    (by intro s hs; rw [List.mem_singleton.mp hs]; decide +kernel) ⟨2 ^ 60, 1⟩).mpr
    ⟨List.mem_singleton_self _, by decide +kernel, hpre⟩
  rw [hreg] at hmem
  cases hmem

end Axona
