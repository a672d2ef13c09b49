import Axona.Library.Double

/-! # Doubles in decimal

The size of a finite 64-bit float is a whole number of units of `2 ^ -1074`, with 53 significant
bits. `roundRatio` rounds a fraction of such units to the nearest size, ties to even, and
`shortest` is the decimal with the fewest digits that is rounded to a given size, and among these
the nearest. -/

namespace Axona.Library

/-! ### Sizes -/

/-- The smallest double is `2 ^ -1074`. -/
def unitExp : Nat := 1074

/-- A number of units of `2 ^ -1074` that is the size of a finite double. -/
def IsMagnitude (n : Nat) : Prop := n < 2 ^ 2098 ∧ 2 ^ (Nat.log2 n - 52) ∣ n

instance (n : Nat) : Decidable (IsMagnitude n) := inferInstanceAs (Decidable (_ ∧ _))

/-- The size of a finite double. -/
abbrev Magnitude := { n : Nat // IsMagnitude n }

/-- The fraction `a / b` of a unit, rounded to 53 significant bits; the result may be too large for
a double. -/
def roundRatio (a b : Nat) : Nat :=
  let u := 2 ^ (Nat.log2 (a / b) - 52)
  roundHalfEven (a / (b * u)) (a % (b * u)) (b * u) * u

/-- Rounding depends on the fraction alone. -/
theorem roundRatio_congr {a b a' b' : Nat} (hb : 0 < b) (hb' : 0 < b') (h : a * b' = a' * b) :
    roundRatio a b = roundRatio a' b' := by
  have hscale (m : Nat) (hm : 0 < m) : a / (b * m) = a' / (b' * m) := by
    rw [← Nat.mul_div_mul_right a (b * m) hb', ← Nat.mul_div_mul_right a' (b' * m) hb, h]
    congr 1
    ring
  have hunit : a / b = a' / b' := by simpa using hscale 1 one_pos
  unfold roundRatio
  simp only [hunit]
  set u := 2 ^ (Nat.log2 (a' / b') - 52) with hu
  have hupos : 0 < u := Nat.two_pow_pos _
  set q := a' / (b' * u) with hq
  have hqa : a / (b * u) = q := hscale u hupos
  rw [hqa]
  -- the remainders are in the ratio of the denominators
  have ha := Nat.div_add_mod a (b * u)
  have ha' := Nat.div_add_mod a' (b' * u)
  rw [hqa] at ha
  rw [← hq] at ha'
  set r := a % (b * u)
  set r' := a' % (b' * u)
  have hratio : r * b' = r' * b := by
    have h1 : b * u * q * b' + r * b' = b' * u * q * b + r' * b := by
      rw [← Nat.add_mul, ← Nat.add_mul, ha, ha', h]
    have h2 : b * u * q * b' = b' * u * q * b := by ring
    omega
  have hcmp : (b * u < 2 * r ↔ b' * u < 2 * r') ∧ (2 * r = b * u ↔ 2 * r' = b' * u) := by
    have e1 : 2 * r * b' = 2 * r' * b := by rw [Nat.mul_assoc, hratio, Nat.mul_assoc]
    have e2 : b * u * b' = b' * u * b := by ring
    constructor
    · rw [← Nat.mul_lt_mul_right hb', e1, e2, Nat.mul_lt_mul_right hb]
    · rw [← Nat.mul_left_inj hb'.ne', e1, e2, Nat.mul_left_inj hb.ne']
  unfold roundHalfEven
  simp only [hcmp.1, hcmp.2]

/-- A size is rounded to itself. -/
theorem roundRatio_exact {n b : Nat} (hb : 0 < b) (hn : IsMagnitude n) :
    roundRatio (n * b) b = n := by
  have hdiv : n * b / b = n := Nat.mul_div_cancel n hb
  unfold roundRatio
  simp only [hdiv]
  set u := 2 ^ (Nat.log2 n - 52) with hu
  have hupos : 0 < u := Nat.two_pow_pos _
  obtain ⟨m, hm⟩ : u ∣ n := hn.2
  have heq : n * b = m * (b * u) := by
    rw [hm]
    ring
  have hmod : n * b % (b * u) = 0 := by rw [heq, Nat.mul_mod_left]
  have hquot : n * b / (b * u) = m := by
    rw [heq]
    exact Nat.mul_div_cancel m (Nat.mul_pos hb hupos)
  unfold roundHalfEven
  rw [hmod, hquot, if_neg]
  · rw [Nat.mul_comm, ← hm]
  · have : 0 < b * u := Nat.mul_pos hb hupos
    omega

/-! ### Decimals -/

/-- The decimal with the `k` digits of `s`, the first of which has the place value `10 ^ (n - 1)`. -/
structure Decimal where
  s : Nat
  k : Nat
  n : Int
deriving DecidableEq, Repr

/-- The size nearest to `s * 10 ^ e`. -/
def decimalSize (s : Nat) (e : Int) : Nat :=
  roundRatio (s * 10 ^ e.toNat * 2 ^ unitExp) (10 ^ (-e).toNat)

/-- Units of `10 ^ -1074` do as well. -/
theorem decimalSize_eq {s e : Nat} {n : Int} (he : (e : Int) = n + unitExp) :
    decimalSize s n = roundRatio (s * 10 ^ e) (5 ^ unitExp) := by
  unfold decimalSize
  apply roundRatio_congr (Nat.pow_pos (by decide)) (Nat.pow_pos (by decide))
  have hexp : n.toNat + unitExp = e + (-n).toNat := by omega
  calc s * 10 ^ n.toNat * 2 ^ unitExp * 5 ^ unitExp
      = s * (10 ^ n.toNat * (2 * 5) ^ unitExp) := by rw [mul_pow]; ring
    _ = s * 10 ^ (n.toNat + unitExp) := by rw [pow_add]
    _ = s * 10 ^ e * 10 ^ (-n).toNat := by rw [hexp, pow_add, Nat.mul_assoc]

/-- Zeros behind the digits are part of the exponent. -/
theorem decimalSize_mul_pow (s z : Nat) : decimalSize (s * 10 ^ z) 0 = decimalSize s z := by
  unfold decimalSize
  simp

/-- The size `n` in units of `10 ^ -1074`, and how many digits it has. -/
def decimalUnits (n : Nat) : Nat := n * 5 ^ unitExp

def decimalDigits (n : Nat) : Nat := Nat.log 10 (decimalUnits n) + 1

/-- The decimal of `k` digits for a number of them; `10 ^ k` has one more. -/
def decimalOf (n k s : Nat) : Decimal :=
  if s < 10 ^ k then ⟨s, k, decimalDigits n - unitExp⟩
  else ⟨10 ^ (k - 1), k, decimalDigits n - unitExp + 1⟩

/-- The decimal of `k` digits that is rounded to the size `n` and is nearest to it, if there is
one. -/
def pickDecimal (n k : Nat) : Option Decimal :=
  let c := 10 ^ (decimalDigits n - k)
  let low := decimalUnits n / c
  let r := decimalUnits n % c
  let fits (s : Nat) : Bool := roundRatio (s * c) (5 ^ unitExp) = n
  if fits low && (!fits (low + 1) || 2 * r < c || (2 * r = c && low % 2 = 0)) then
    some (decimalOf n k low)
  else if fits (low + 1) then some (decimalOf n k (low + 1))
  else none

/-- The decimal with the fewest digits. -/
def shortest (n : Nat) : Decimal :=
  ((List.range (decimalDigits n)).findSome? fun i => pickDecimal n (i + 1)).getD ⟨0, 1, 0⟩

/-- A decimal whose digits are as many as it says, and that is rounded to the size `n`. -/
structure Decimal.Denotes (d : Decimal) (n : Nat) : Prop where
  pos : 0 < d.k
  low : 10 ^ (d.k - 1) ≤ d.s
  high : d.s < 10 ^ d.k
  size : decimalSize d.s (d.n - d.k) = n

theorem denotes_of_pickDecimal {n k : Nat} {d : Decimal} (hn : 0 < n) (hk : 0 < k)
    (hle : k ≤ decimalDigits n) (h : pickDecimal n k = some d) : d.Denotes n := by
  set c := 10 ^ (decimalDigits n - k) with hc
  set low := decimalUnits n / c with hlow
  have hcpos : 0 < c := Nat.pow_pos (by decide)
  have hpos : decimalUnits n ≠ 0 := (Nat.mul_pos hn (Nat.pow_pos (by decide))).ne'
  have hdigits : decimalDigits n = Nat.log 10 (decimalUnits n) + 1 := rfl
  have hge : 10 ^ (k - 1) ≤ low := by
    rw [hlow, Nat.le_div_iff_mul_le hcpos, hc, ← pow_add]
    refine (Nat.pow_le_pow_right (by decide) ?_).trans (Nat.pow_log_le_self 10 hpos)
    omega
  have hlt : low < 10 ^ k := by
    rw [hlow, Nat.div_lt_iff_lt_mul hcpos, hc, ← pow_add]
    refine (Nat.lt_pow_succ_log_self (by decide) _).trans_le (Nat.pow_le_pow_right (by decide) ?_)
    omega
  -- what a number of `k` digits that fits comes to
  have hfit {s : Nat} (hs : low ≤ s) (hs' : s ≤ 10 ^ k)
      (hfits : roundRatio (s * c) (5 ^ unitExp) = n) : (decimalOf n k s).Denotes n := by
    unfold decimalOf
    split
    next hsk =>
      refine ⟨hk, hge.trans hs, hsk, ?_⟩
      rw [decimalSize_eq (e := decimalDigits n - k) (by dsimp only; omega)]
      exact hfits
    next hsk =>
    obtain rfl : s = 10 ^ k := by omega
    refine ⟨hk, le_refl _, Nat.pow_lt_pow_right (by decide) (by dsimp only; omega), ?_⟩
    have hunits : 10 ^ (k - 1) * 10 ^ (decimalDigits n - k + 1)
        = 10 ^ k * 10 ^ (decimalDigits n - k) := by
      rw [← pow_add, ← pow_add, show k - 1 + (decimalDigits n - k + 1)
        = k + (decimalDigits n - k) by omega]
    rw [decimalSize_eq (e := decimalDigits n - k + 1) (by dsimp only; omega)]
    rw [hunits]
    exact hfits
  unfold pickDecimal at h
  simp only [← hc, ← hlow] at h
  split at h
  next hfits =>
    cases h
    rw [Bool.and_eq_true, decide_eq_true_eq] at hfits
    exact hfit (le_refl _) hlt.le hfits.1
  split at h
  next hfits =>
    cases h
    exact hfit (Nat.le_succ _) hlt (of_decide_eq_true hfits)
  · cases h

/-- All the digits of a size are rounded to it. -/
theorem pickDecimal_exact {n : Nat} (hn : IsMagnitude n) :
    ∃ d, pickDecimal n (decimalDigits n) = some d := by
  have hfits : roundRatio (decimalUnits n) (5 ^ unitExp) = n :=
    roundRatio_exact (Nat.pow_pos (by decide)) hn
  unfold pickDecimal
  simp [hfits, Nat.mod_one]

/-- **The shortest decimal of a size is rounded to it.** -/
theorem denotes_shortest {n : Nat} (hpos : 0 < n) (hn : IsMagnitude n) :
    (shortest n).Denotes n := by
  have hdigits : 0 < decimalDigits n := Nat.succ_pos _
  unfold shortest
  cases hfind : (List.range (decimalDigits n)).findSome? fun i => pickDecimal n (i + 1) with
  | none =>
    obtain ⟨d, hd⟩ := pickDecimal_exact hn
    rw [List.findSome?_eq_none_iff] at hfind
    have hlast := hfind (decimalDigits n - 1) (List.mem_range.mpr (by omega))
    rw [Nat.sub_add_cancel hdigits, hd] at hlast
    cases hlast
  | some d =>
    obtain ⟨i, hi, hd⟩ := List.exists_of_findSome?_eq_some hfind
    have := List.mem_range.mp hi
    exact denotes_of_pickDecimal hpos (Nat.succ_pos i) (by omega) hd

end Axona.Library
