import Mathlib.Data.Nat.Log
import Mathlib.Tactic.Ring

/-! # Integer arithmetic in a language of doubles

Where the only number type is the 64-bit float, a counter is an integer that is exact up to
`2 ^ 53` in size and is rounded to 53 significant bits above that; the bit operators read an
integer modulo `2 ^ 32`, as a signed 32-bit number. `roundDouble` and `toInt32` are these two
readings of an integer, `succDouble` is the counter step `n + 1`. -/

namespace Axona.Library

/-! ### Rounding to 53 significant bits -/

/-- The largest size up to which every integer is a double. -/
def exactBound : Nat := 2 ^ 53

/-- `q` units and a remainder `r` of a unit of size `u`, rounded to the nearest whole number of
units, ties to the even one. -/
def roundHalfEven (q r u : Nat) : Nat :=
  if u < 2 * r ∨ (2 * r = u ∧ q % 2 = 1) then q + 1 else q

/-- The double nearest to the integer `n`. -/
def roundDouble (n : Int) : Int :=
  if n.natAbs ≤ exactBound then n
  else
    let u := 2 ^ (Nat.log2 n.natAbs - 52)
    n.sign * (roundHalfEven (n.natAbs / u) (n.natAbs % u) u * u : Nat)

/-- The counter step `n + 1`. -/
def succDouble (n : Int) : Int := roundDouble (n + 1)

variable {n : Int}

theorem roundDouble_of_le (h : n.natAbs ≤ exactBound) : roundDouble n = n := by
  simp [roundDouble, h]

/-- Below the exact bound a counter step is the successor. -/
theorem succDouble_of_lt (h₀ : 0 ≤ n) (h : n < exactBound) : succDouble n = n + 1 := by
  refine roundDouble_of_le ?_
  have : (n + 1).natAbs = n.natAbs + 1 := by omega
  omega

/-- Below the exact bound a counter step goes up. -/
theorem lt_succDouble (h₀ : 0 ≤ n) (h : n < exactBound) : n < succDouble n := by
  rw [succDouble_of_lt h₀ h]; omega

/-- Above the exact bound no number is rounded below it. -/
theorem exactBound_le_roundDouble (h : exactBound < n) : exactBound ≤ roundDouble n := by
  set a := n.natAbs with ha
  have hn : n = a := by omega
  have hbig : exactBound < a := by omega
  have hlog : 53 ≤ Nat.log2 a :=
    (Nat.le_log2 (by omega)).mpr (le_of_lt (by simpa [exactBound] using hbig))
  set u := 2 ^ (Nat.log2 a - 52) with hu
  have hupos : 0 < u := Nat.two_pow_pos _
  -- the power of two below the number is a whole number of units
  have hunits : 2 ^ Nat.log2 a = 2 ^ 52 * u := by
    rw [hu, ← pow_add]
    congr 1
    omega
  have hpow : 2 ^ Nat.log2 a ≤ a := Nat.log2_self_le (by omega)
  have hq : 2 ^ 52 ≤ a / u := (Nat.le_div_iff_mul_le hupos).mpr (by omega)
  have hround : 2 ^ 52 ≤ roundHalfEven (a / u) (a % u) u := by
    unfold roundHalfEven
    split <;> omega
  have hunit : 2 ≤ u := by
    calc 2 = 2 ^ 1 := rfl
      _ ≤ u := Nat.pow_le_pow_right (by omega) (by omega)
  have hprod : exactBound ≤ roundHalfEven (a / u) (a % u) u * u := by
    calc exactBound = 2 ^ 52 * 2 := by decide
      _ ≤ _ := Nat.mul_le_mul hround hunit
  have hsign : n.sign = 1 := Int.sign_eq_one_of_pos (by omega)
  unfold roundDouble
  rw [if_neg (by omega), hsign, one_mul]
  exact_mod_cast hprod

/-- Rounding to a whole number of units keeps the order. -/
theorem roundHalfEven_mono {q q' r r' u : Nat} (h : q * u + r ≤ q' * u + r') (hr' : r' < u) :
    roundHalfEven q r u ≤ roundHalfEven q' r' u := by
  have hq : q ≤ q' := by
    by_contra hlt
    have := Nat.mul_le_mul_right u (show q' + 1 ≤ q by omega)
    rw [Nat.add_mul] at this
    omega
  rcases Nat.lt_or_ge q q' with hlt | hge
  · have hup : roundHalfEven q r u ≤ q + 1 := by
      unfold roundHalfEven
      split <;> omega
    have hdown : q' ≤ roundHalfEven q' r' u := by
      unfold roundHalfEven
      split <;> omega
    omega
  · obtain rfl : q = q' := by omega
    unfold roundHalfEven
    split <;> split <;> omega

/-- The units in which a number is rounded, and how many of them it has at least. -/
theorem units_le {n : Nat} (h : exactBound < n) :
    2 ^ 52 ≤ n / 2 ^ (Nat.log2 n - 52) ∧ n / 2 ^ (Nat.log2 n - 52) < 2 ^ 53 := by
  have hlog : 53 ≤ Nat.log2 n :=
    (Nat.le_log2 (by omega)).mpr (le_of_lt (by simpa [exactBound] using h))
  have hlow : 2 ^ 52 * 2 ^ (Nat.log2 n - 52) = 2 ^ Nat.log2 n := by
    rw [← pow_add]
    congr 1
    omega
  have hhigh : 2 ^ 53 * 2 ^ (Nat.log2 n - 52) = 2 ^ (Nat.log2 n + 1) := by
    rw [← pow_add]
    congr 1
    omega
  constructor
  · rw [Nat.le_div_iff_mul_le (Nat.two_pow_pos _), hlow]
    exact Nat.log2_self_le (by omega)
  · rw [Nat.div_lt_iff_lt_mul (Nat.two_pow_pos _), hhigh]
    exact Nat.lt_log2_self

/-- Rounding keeps the order. -/
theorem roundDouble_mono {m n : Nat} (h : m ≤ n) : roundDouble m ≤ roundDouble n := by
  by_cases hn : n ≤ exactBound
  · rw [roundDouble_of_le (n := m) (by simpa using h.trans hn),
      roundDouble_of_le (by simpa using hn)]
    exact_mod_cast h
  by_cases hm : m ≤ exactBound
  · rw [roundDouble_of_le (by simpa using hm)]
    have := exactBound_le_roundDouble (n := n) (by omega)
    omega
  have hm : exactBound < m := by omega
  have hn : exactBound < n := by omega
  have hpos : ∀ k : Nat, exactBound < k → roundDouble k =
      (roundHalfEven (k / 2 ^ (Nat.log2 k - 52)) (k % 2 ^ (Nat.log2 k - 52)) (2 ^ (Nat.log2 k - 52))
        * 2 ^ (Nat.log2 k - 52) : Nat) := by
    intro k hk
    have hsign : Int.sign k = 1 := Int.sign_eq_one_of_pos (by omega)
    unfold roundDouble
    rw [if_neg (by simpa using hk), hsign, one_mul, Int.natAbs_natCast]
  rw [hpos m hm, hpos n hn]
  have hlog : Nat.log2 m ≤ Nat.log2 n :=
    (Nat.le_log2 (by omega)).mpr ((Nat.log2_self_le (by omega)).trans h)
  norm_cast
  rcases Nat.lt_or_ge (Nat.log2 m) (Nat.log2 n) with hlt | hge
  · -- the smaller number is rounded up to a power of two at most, and the larger one is above it
    have hq := (units_le hm).2
    have hq' := (units_le hn).1
    have hup : roundHalfEven (m / 2 ^ (Nat.log2 m - 52)) (m % 2 ^ (Nat.log2 m - 52))
        (2 ^ (Nat.log2 m - 52)) ≤ 2 ^ 53 := by
      unfold roundHalfEven
      split <;> omega
    have hdown : 2 ^ 52 ≤ roundHalfEven (n / 2 ^ (Nat.log2 n - 52)) (n % 2 ^ (Nat.log2 n - 52))
        (2 ^ (Nat.log2 n - 52)) := by
      unfold roundHalfEven
      split <;> omega
    have hlogm : 53 ≤ Nat.log2 m :=
      (Nat.le_log2 (by omega)).mpr (le_of_lt (by simpa [exactBound] using hm))
    calc _ ≤ 2 ^ 53 * 2 ^ (Nat.log2 m - 52) := Nat.mul_le_mul_right _ hup
      _ = 2 ^ 52 * 2 ^ (Nat.log2 m + 1 - 52) := by
        rw [← pow_add, ← pow_add]
        congr 1
        omega
      _ ≤ 2 ^ 52 * 2 ^ (Nat.log2 n - 52) :=
        Nat.mul_le_mul_left _ (Nat.pow_le_pow_right (by omega) (by omega))
      _ ≤ _ := Nat.mul_le_mul_right _ hdown
  · have heq : Nat.log2 m = Nat.log2 n := by omega
    rw [heq]
    apply Nat.mul_le_mul_right
    have hpow := Nat.two_pow_pos (Nat.log2 n - 52)
    apply roundHalfEven_mono _ (Nat.mod_lt _ hpow)
    rwa [Nat.div_add_mod', Nat.div_add_mod']

/-- At the exact bound the counter stands still. -/
example : succDouble (2 ^ 53) = 2 ^ 53 := by decide +kernel

/-! ### The 32-bit reading -/

/-- The signed 32-bit number with the low 32 bits of `n`, written `n | 0` in the source. -/
def toInt32 (n : Int) : Int := (n + 2 ^ 31) % 2 ^ 32 - 2 ^ 31

/-- A number of 32 bits is its own 32-bit reading. -/
theorem toInt32_of_mem (h₁ : -(2 ^ 31) ≤ n) (h₂ : n < 2 ^ 31) : toInt32 n = n := by
  unfold toInt32
  omega

theorem toInt32_of_nonneg (h₁ : 0 ≤ n) (h₂ : n < 2 ^ 31) : toInt32 n = n :=
  toInt32_of_mem (by omega) h₂

theorem toInt32_lt (n : Int) : toInt32 n < 2 ^ 31 := by
  unfold toInt32
  omega

theorem toInt32_le (h : 0 ≤ n) : toInt32 n ≤ n := by
  unfold toInt32
  omega

/-- The reading of a number of 32 bits is the number. -/
@[simp] theorem toInt32_toInt32 (n : Int) : toInt32 (toInt32 n) = toInt32 n := by
  unfold toInt32
  omega

end Axona.Library
