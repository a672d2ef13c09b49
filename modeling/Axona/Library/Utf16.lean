import Mathlib.Data.List.Basic

/-! # Texts in 16-bit units

A text as a sequence of 16-bit units, what it stands for, and its bytes. Two units of the two halves
of the surrogate range, one after the other, stand for one character beyond the first 65536; a
surrogate that has no other half stands for the replacement character. -/

namespace Axona.Library

/-- A text as its 16-bit units. -/
abbrev Units := List UInt16

/-- The first half of a pair. -/
def isHighSurrogate (u : UInt16) : Bool := 0xD800 ≤ u && u ≤ 0xDBFF

/-- The second half of a pair. -/
def isLowSurrogate (u : UInt16) : Bool := 0xDC00 ≤ u && u ≤ 0xDFFF

/-- The character of a pair. -/
def pairChar (high low : UInt16) : Char :=
  Char.ofNat (0x10000 + (high.toNat - 0xD800) * 0x400 + (low.toNat - 0xDC00))

/-- The character of one unit that is in no pair. -/
def unitChar (u : UInt16) : Char :=
  if isHighSurrogate u || isLowSurrogate u then '\uFFFD' else Char.ofNat u.toNat

/-- The characters a text stands for. -/
def scalars : Units → List Char
  | [] => []
  | [u] => [unitChar u]
  | u :: v :: rest =>
    if isHighSurrogate u && isLowSurrogate v then pairChar u v :: scalars rest
    else unitChar u :: scalars (v :: rest)

/-- The units of a character: one, or the two halves of a pair. -/
def charUnits (c : Char) : Units :=
  if c.toNat < 0x10000 then [c.toNat.toUInt16]
  else [(0xD800 + (c.toNat - 0x10000) / 0x400).toUInt16,
    (0xDC00 + (c.toNat - 0x10000) % 0x400).toUInt16]

/-- The units of a text. -/
def units (t : List Char) : Units := t.flatMap charUnits

/-- A character of one unit is what its unit stands for. -/
theorem map_unitChar_charUnits {c : Char} (h : c.toNat < 0x10000) :
    (charUnits c).map unitChar = [c] := by
  have hvalid : c.toNat < 0xD800 ∨ 0xDFFF < c.toNat := by
    rcases c.valid with h | h
    · exact .inl h
    · exact .inr h.1
  have hnat : c.toNat.toUInt16.toNat = c.toNat := UInt16.toNat_ofNat_of_lt h
  have hnone : (isHighSurrogate c.toNat.toUInt16 || isLowSurrogate c.toNat.toUInt16) = false := by
    simp only [isHighSurrogate, isLowSurrogate, UInt16.le_iff_toNat_le, hnat, Bool.or_eq_false_iff,
      Bool.and_eq_false_iff, decide_eq_false_iff_not, UInt16.reduceToNat]
    omega
  rw [charUnits, if_pos h, List.map_singleton, unitChar, hnone, hnat]
  simp [Char.ofNat_toNat]

/-- A character of two units stands for no character in either. -/
theorem map_unitChar_pair {c : Char} (h : ¬c.toNat < 0x10000) :
    (charUnits c).map unitChar = ['\uFFFD', '\uFFFD'] := by
  have hlt : c.toNat < 0x110000 := by
    have hvalid : c.toNat < 0xD800 ∨ 0xDFFF < c.toNat ∧ c.toNat < 0x110000 := c.valid
    omega
  have hhigh : (0xD800 + (c.toNat - 0x10000) / 0x400).toUInt16.toNat
      = 0xD800 + (c.toNat - 0x10000) / 0x400 :=
    UInt16.toNat_ofNat_of_lt (by rw [UInt16.size]; omega)
  have hlow : (0xDC00 + (c.toNat - 0x10000) % 0x400).toUInt16.toNat
      = 0xDC00 + (c.toNat - 0x10000) % 0x400 :=
    UInt16.toNat_ofNat_of_lt (by rw [UInt16.size]; omega)
  have hfirst : isHighSurrogate (0xD800 + (c.toNat - 0x10000) / 0x400).toUInt16 = true := by
    simp only [isHighSurrogate, UInt16.le_iff_toNat_le, hhigh, Bool.and_eq_true, decide_eq_true_eq,
      UInt16.reduceToNat]
    omega
  have hsecond : isLowSurrogate (0xDC00 + (c.toNat - 0x10000) % 0x400).toUInt16 = true := by
    simp only [isLowSurrogate, UInt16.le_iff_toNat_le, hlow, Bool.and_eq_true, decide_eq_true_eq,
      UInt16.reduceToNat]
    omega
  rw [charUnits, if_neg h, List.map_cons, List.map_singleton, unitChar, unitChar, hfirst, hsecond]
  simp

/-- **A text without a replacement character in its units** is what its units stand for. -/
theorem map_unitChar_units {t : List Char} (h : '\uFFFD' ∉ (units t).map unitChar) :
    (units t).map unitChar = t := by
  induction t with
  | nil => rfl
  | cons c t ih =>
    rw [units, List.flatMap_cons, List.map_append] at h ⊢
    rw [List.mem_append, not_or] at h
    by_cases hc : c.toNat < 0x10000
    · rw [map_unitChar_charUnits hc, List.singleton_append]
      exact congrArg _ (ih h.2)
    · rw [map_unitChar_pair hc] at h
      exact absurd List.mem_cons_self h.1

/-- The same of a text of characters of one unit each. -/
theorem map_unitChar_units_of_lt {t : List Char} (h : ∀ c ∈ t, c.toNat < 0x10000) :
    (units t).map unitChar = t := by
  induction t with
  | nil => rfl
  | cons c t ih =>
    rw [units, List.flatMap_cons, List.map_append,
      map_unitChar_charUnits (h c List.mem_cons_self), List.singleton_append]
    exact congrArg _ (ih fun c' hc' => h c' (List.mem_cons_of_mem c hc'))

/-- The UTF-8 bytes of characters. -/
def utf8 (cs : List Char) : List UInt8 := cs.flatMap String.utf8EncodeChar

/-- **The bytes tell the characters.** -/
theorem utf8_inj {cs ds : List Char} (h : utf8 cs = utf8 ds) : cs = ds := by
  have hbytes : cs.utf8Encode = ds.utf8Encode := congrArg List.toByteArray h
  have harrays : some cs.toArray = some ds.toArray := by
    rw [← List.utf8Decode?_utf8Encode, hbytes, List.utf8Decode?_utf8Encode]
  exact congrArg Array.toList (Option.some.inj harrays)

/-- The units of a text in ASCII. -/
def asciiUnits (t : List Char) : Units := t.map fun c => c.toNat.toUInt16

end Axona.Library
