import Mathlib.Data.List.Basic

/-! # Base64

The standard alphabet with padding, three bytes to four characters. `decode` reads what `encode`
writes; of other texts it reads the quanta it can and no more. -/

namespace Axona.Library.Base64

/-- The character of six bits. -/
def sextetChar (n : Nat) : Char :=
  if n < 26 then Char.ofNat (65 + n)
  else if n < 52 then Char.ofNat (71 + n)
  else if n < 62 then Char.ofNat (n - 4)
  else if n = 62 then '+' else '/'

/-- The six bits of a character. -/
def charSextet (c : Char) : Option Nat :=
  if 65 ≤ c.toNat ∧ c.toNat ≤ 90 then some (c.toNat - 65)
  else if 97 ≤ c.toNat ∧ c.toNat ≤ 122 then some (c.toNat - 71)
  else if 48 ≤ c.toNat ∧ c.toNat ≤ 57 then some (c.toNat + 4)
  else if c = '+' then some 62
  else if c = '/' then some 63
  else none

theorem charSextet_sextetChar {n : Nat} (h : n < 64) : charSextet (sextetChar n) = some n := by
  decide +revert

/-- The text of bytes. -/
def encode : List UInt8 → List Char
  | a :: b :: c :: rest =>
    sextetChar (a.toNat / 4) :: sextetChar (a.toNat % 4 * 16 + b.toNat / 16)
      :: sextetChar (b.toNat % 16 * 4 + c.toNat / 64) :: sextetChar (c.toNat % 64) :: encode rest
  | [a, b] =>
    [sextetChar (a.toNat / 4), sextetChar (a.toNat % 4 * 16 + b.toNat / 16),
      sextetChar (b.toNat % 16 * 4), '=']
  | [a] => [sextetChar (a.toNat / 4), sextetChar (a.toNat % 4 * 16), '=', '=']
  | [] => []

/-- The bytes of one quantum: three, or fewer before the padding. -/
def quantum (w x y z : Char) : List UInt8 :=
  match charSextet w, charSextet x, charSextet y, charSextet z with
  | some a, some b, some c, some d =>
    [.ofNat (a * 4 + b / 16), .ofNat (b % 16 * 16 + c / 4), .ofNat (c % 4 * 64 + d)]
  | some a, some b, some c, none => [.ofNat (a * 4 + b / 16), .ofNat (b % 16 * 16 + c / 4)]
  | some a, some b, none, none => [.ofNat (a * 4 + b / 16)]
  | _, _, _, _ => []

/-- The bytes of a text. -/
def decode : List Char → List UInt8
  | w :: x :: y :: z :: rest => quantum w x y z ++ decode rest
  | _ => []

theorem ofNat_eq {n : Nat} {a : UInt8} (h : n = a.toNat) : UInt8.ofNat n = a := by
  rw [h, UInt8.ofNat_toNat]

theorem charSextet_pad : charSextet '=' = none := by decide

/-- **The round trip.** -/
theorem decode_encode (bs : List UInt8) : decode (encode bs) = bs := by
  induction bs using encode.induct with
  | case1 a b c rest ih =>
    have ha := a.toNat_lt
    have hb := b.toNat_lt
    have hc := c.toNat_lt
    rw [encode, decode, quantum, charSextet_sextetChar (by omega), charSextet_sextetChar (by omega),
      charSextet_sextetChar (by omega), charSextet_sextetChar (by omega), ih]
    dsimp only
    rw [ofNat_eq (a := a) (by omega), ofNat_eq (a := b) (by omega), ofNat_eq (a := c) (by omega)]
    rfl
  | case2 a b =>
    have ha := a.toNat_lt
    have hb := b.toNat_lt
    rw [encode, decode, quantum, charSextet_sextetChar (by omega), charSextet_sextetChar (by omega),
      charSextet_sextetChar (by omega), charSextet_pad]
    dsimp only
    rw [ofNat_eq (a := a) (by omega), ofNat_eq (a := b) (by omega)]
    rfl
  | case3 a =>
    have ha := a.toNat_lt
    rw [encode, decode, quantum, charSextet_sextetChar (by omega), charSextet_sextetChar (by omega),
      charSextet_pad]
    dsimp only
    rw [ofNat_eq (a := a) (by omega)]
    rfl
  | case4 => rfl

end Axona.Library.Base64
