import Axona.Pubsub.Envelope

/-! # Keys

A public key is 32 bytes, written as hex (`bytesToHex`, `hexToBytes`). The private key is a handle of
Web Crypto or of its software stand-in (`ed25519.js`): it can be written as text, read back, and
tried against a public key. -/

namespace Axona

/-- The 32 raw bytes of a public key. -/
structure PubKey where
  bytes : List Nat
  length_eq : bytes.length = 32
  lt : ∀ b ∈ bytes, b < 256
deriving DecidableEq

/-- `bytesToHex` -/
def bytesToHex (bs : List Nat) : Text :=
  bs.flatMap fun b => [Nat.digitChar (b / 16), Nat.digitChar (b % 16)]

/-- `pubkeyHex` -/
def PubKey.hex (a : PubKey) : Text := bytesToHex a.bytes

/-- Ed25519 as the identities use it. -/
structure KeySystem (Priv : Type*) where
  publicKey : Priv → PubKey
  /-- `exportPrivateKeyPkcs8`, in base64. -/
  exportKey : Priv → Text
  /-- `importPrivateKey`, from base64. -/
  importKey : Text → Option Priv
  /-- Does the public key verify what the private key signs? -/
  signsFor : Priv → PubKey → Bool
  import_export : ∀ k, importKey (exportKey k) = some k
  signsFor_self : ∀ k, signsFor k (publicKey k) = true

/-! ### Hex and bytes -/

theorem hexDigit?_lt {c : Char} {v : Nat} (h : hexDigit? c = some v) : v < 16 := by
  unfold hexDigit? at h
  split at h
  next hc =>
    rw [Bool.and_eq_true, decide_eq_true_eq, decide_eq_true_eq] at hc
    have h9 : c.toNat ≤ '9'.toNat := hc.2
    have heq := Option.some.inj h
    have hz : '0'.toNat = 48 := rfl
    have hn : '9'.toNat = 57 := rfl
    omega
  split at h
  next hc =>
    rw [Bool.and_eq_true, decide_eq_true_eq, decide_eq_true_eq] at hc
    have hf : c.toNat ≤ 'f'.toNat := hc.2
    have heq := Option.some.inj h
    have ha : 'a'.toNat = 97 := rfl
    have hf' : 'f'.toNat = 102 := rfl
    omega
  split at h
  next hc =>
    rw [Bool.and_eq_true, decide_eq_true_eq, decide_eq_true_eq] at hc
    have hf : c.toNat ≤ 'F'.toNat := hc.2
    have heq := Option.some.inj h
    have ha : 'A'.toNat = 65 := rfl
    have hf' : 'F'.toNat = 70 := rfl
    omega
  · cases h

/-- The case of a hex digit does not matter. -/
theorem hexDigit?_toLower (c : Char) : hexDigit? c.toLower = hexDigit? c := by
  by_cases h : c.toNat < 128
  · have hall : ∀ n < 128, hexDigit? (Char.ofNat n).toLower = hexDigit? (Char.ofNat n) := by decide
    simpa using hall c.toNat h
  have hup : ¬ (c.val ≥ 'A'.val ∧ c.val ≤ 'Z'.val) := by
    rintro ⟨-, hz⟩
    have : c.toNat ≤ 90 := hz
    omega
  rw [show c.toLower = c from dif_neg hup]

theorem hexByte_lt (a b : Char) : hexByte a b < 256 := by
  unfold hexByte
  split
  next x y hx hy =>
    have := hexDigit?_lt hx
    have := hexDigit?_lt hy
    omega
  next x hx hy =>
    have := hexDigit?_lt hx
    omega
  next y hx hy =>
    have := hexDigit?_lt hy
    split_ifs <;> omega
  next => decide

theorem hexByte_digitChar {b : Nat} (h : b < 256) :
    hexByte (Nat.digitChar (b / 16)) (Nat.digitChar (b % 16)) = b := by
  have hall : ∀ b < 256, hexByte (Nat.digitChar (b / 16)) (Nat.digitChar (b % 16)) = b := by
    decide +kernel
  exact hall b h

variable {bs : List Nat}

/-- A text of characters of one unit each is read two by two. -/
theorem hexToBytes_of_lt {t : Text} (h : ∀ c ∈ t, c.toNat < 0x10000) :
    hexToBytes t = hexPairs t := by
  rw [hexToBytes, Library.map_unitChar_units_of_lt h]

/-- Hex digits are such characters. -/
theorem hexToBytes_of_isHex {t : Text} (h : ∀ c ∈ t, (hexDigit? c).isSome = true) :
    hexToBytes t = hexPairs t := by
  refine hexToBytes_of_lt fun c hc => ?_
  have hdigit := h c hc
  unfold hexDigit? at hdigit
  split_ifs at hdigit with h0 ha hA
  · exact lt_of_le_of_lt (Bool.and_eq_true_iff.mp h0 |>.2 |> of_decide_eq_true) (by decide)
  · exact lt_of_le_of_lt (Bool.and_eq_true_iff.mp ha |>.2 |> of_decide_eq_true) (by decide)
  · exact lt_of_le_of_lt (Bool.and_eq_true_iff.mp hA |>.2 |> of_decide_eq_true) (by decide)
  · cases hdigit

theorem isHex_bytesToHex (h : ∀ b ∈ bs, b < 256) :
    ∀ c ∈ bytesToHex bs, (hexDigit? c).isSome = true := by
  have hall : ∀ d < 16, (hexDigit? (Nat.digitChar d)).isSome = true := by decide
  intro c hc
  obtain ⟨b, hb, hc⟩ := List.mem_flatMap.mp hc
  have hlt := h b hb
  rcases List.mem_pair.mp hc with rfl | rfl
  · exact hall _ (by omega)
  · exact hall _ (by omega)

/-- Bytes are read back from their hex form. -/
theorem hexToBytes_bytesToHex (h : ∀ b ∈ bs, b < 256) :
    hexToBytes (bytesToHex bs) = some bs := by
  rw [hexToBytes_of_isHex (isHex_bytesToHex h)]
  induction bs with
  | nil => rfl
  | cons b bs ih =>
    have hrest := ih fun b' hb' => h b' (List.mem_cons_of_mem b hb')
    have hb := hexByte_digitChar (h b List.mem_cons_self)
    change (hexPairs (bytesToHex bs)).map (hexByte _ _ :: ·) = some (b :: bs)
    rw [hrest, hb]
    rfl

theorem hexToBytes_lt {t : Text} (h : hexToBytes t = some bs) :
    ∀ b ∈ bs, b < 256 := by
  unfold hexToBytes at h
  generalize (Library.units t).map Library.unitChar = us at h
  induction us using hexPairs.induct generalizing bs with
  | case1 =>
    cases h
    intro b hb
    cases hb
  | case2 c => cases h
  | case3 a b rest ih =>
    obtain ⟨bs', hrest, rfl⟩ := Option.map_eq_some_iff.mp h
    intro b' hb'
    rcases List.mem_cons.mp hb' with rfl | hmem
    · exact hexByte_lt a b
    · exact ih hrest b' hmem

/-- `hexToBytes`, where it gives the bytes of a public key. -/
def PubKey.ofHex (t : Text) : Option PubKey :=
  match h : hexToBytes t with
  | none => none
  | some bs => if hlen : bs.length = 32 then some ⟨bs, hlen, hexToBytes_lt h⟩ else none

@[simp] theorem PubKey.ofHex_hex (a : PubKey) : PubKey.ofHex a.hex = some a := by
  have hbytes : hexToBytes a.hex = some a.bytes := hexToBytes_bytesToHex a.lt
  unfold PubKey.ofHex
  split
  next h =>
    rw [hbytes] at h
    cases h
  next bs h =>
  rw [hbytes] at h
  cases h
  exact dif_pos a.length_eq

end Axona
