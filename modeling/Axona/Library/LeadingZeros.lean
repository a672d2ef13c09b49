import Mathlib.Data.Nat.Bitwise

/-! # Leading zeros

The leading zeros of a number among its lowest `w` bits. Whatever stands above these bits is not
looked at. -/

namespace Axona.Library

/-- How many of the lowest `w` bits are zero before the first one that is not. -/
def leadingZeros : Nat → Nat → Nat
  | 0, _ => 0
  | w + 1, n => if n.testBit w then 0 else leadingZeros w n + 1

theorem leadingZeros_succ (w n : Nat) :
    leadingZeros (w + 1) n = if n.testBit w then 0 else leadingZeros w n + 1 := rfl

@[simp] theorem leadingZeros_zero (w : Nat) : leadingZeros w 0 = w := by
  induction w with
  | zero => rfl
  | succ w ih => rw [leadingZeros_succ, Nat.zero_testBit, if_neg Bool.false_ne_true, ih]

/-- Only the lowest `w` bits are looked at. -/
theorem leadingZeros_congr {w m n : Nat} (h : ∀ i < w, m.testBit i = n.testBit i) :
    leadingZeros w m = leadingZeros w n := by
  induction w with
  | zero => rfl
  | succ w ih =>
    rw [leadingZeros_succ, leadingZeros_succ, h w (Nat.lt_succ_self w),
      ih fun i hi => h i (Nat.lt_succ_of_lt hi)]

theorem leadingZeros_mod (w n : Nat) : leadingZeros w (n % 2 ^ w) = leadingZeros w n := by
  apply leadingZeros_congr
  intro i hi
  rw [Nat.testBit_mod_two_pow, decide_eq_true hi, Bool.true_and]

/-- **Two halves.** The upper `d` bits are looked at first, and the lower `w` if those are zero. -/
theorem leadingZeros_add (w d n : Nat) : leadingZeros (w + d) n
      = if (n >>> w) % 2 ^ d = 0 then d + leadingZeros w n else leadingZeros d (n >>> w) := by
  induction d with
  | zero => rw [pow_zero, Nat.mod_one, if_pos rfl, Nat.zero_add, Nat.add_zero]
  | succ d ih =>
    have hbit : n.testBit (w + d) = (n >>> w).testBit d := (Nat.testBit_shiftRight ..).symm
    rw [← Nat.add_assoc, leadingZeros_succ, leadingZeros_succ, hbit]
    cases htop : (n >>> w).testBit d with
    | true =>
      have hne : ¬(n >>> w) % 2 ^ (d + 1) = 0 := by
        intro h0
        have hlow : ((n >>> w) % 2 ^ (d + 1)).testBit d = true := by
          rw [Nat.testBit_mod_two_pow, htop, decide_eq_true (Nat.lt_succ_self d)]
          rfl
        rw [h0, Nat.zero_testBit] at hlow
        cases hlow
      rw [if_neg hne]
      rfl
    | false =>
      have hsame : (n >>> w) % 2 ^ (d + 1) = (n >>> w) % 2 ^ d := by
        apply Nat.eq_of_testBit_eq
        intro i
        rw [Nat.testBit_mod_two_pow, Nat.testBit_mod_two_pow]
        rcases Nat.lt_trichotomy i d with hi | rfl | hi
        · rw [decide_eq_true hi, decide_eq_true (Nat.lt_succ_of_lt hi)]
        · rw [htop, Bool.and_false, Bool.and_false]
        · rw [decide_eq_false (by omega), decide_eq_false (by omega)]
      rw [hsame, if_neg Bool.false_ne_true, if_neg Bool.false_ne_true, ih]
      split <;> omega

/-- The count of a number that fits. -/
theorem leadingZeros_eq_log2 {w n : Nat} (h : n < 2 ^ w) :
    leadingZeros w n = if n = 0 then w else w - 1 - n.log2 := by
  induction w with
  | zero =>
    have hn : n = 0 := by omega
    rw [if_pos hn]
    rfl
  | succ w ih =>
    rw [leadingZeros_succ]
    by_cases hlow : n < 2 ^ w
    · rw [Nat.testBit_lt_two_pow hlow, if_neg Bool.false_ne_true, ih hlow]
      split
      · rfl
      next h0 =>
      have hlog : n.log2 < w := (Nat.log2_lt h0).mpr hlow
      omega
    · have h0 : n ≠ 0 := by
        rintro rfl
        exact hlow (Nat.two_pow_pos w)
      have hlog : n.log2 = w := by
        apply le_antisymm
        · exact Nat.lt_succ_iff.mp ((Nat.log2_lt h0).mpr h)
        · exact (Nat.le_log2 h0).mpr (Nat.le_of_not_lt hlow)
      have htop : n.testBit w = true := hlog ▸ Nat.testBit_log2 h0
      rw [if_pos htop, if_neg h0, hlog]
      omega

/-! ### Where two numbers part -/

/-- Of their lowest `w` bits, the two numbers have the first `k` in common, and not the next. -/
def PartAfter (w m n k : Nat) : Prop :=
  k ≤ w ∧ (∀ j < k, m.testBit (w - 1 - j) = n.testBit (w - 1 - j))
    ∧ (k < w → m.testBit (w - 1 - k) ≠ n.testBit (w - 1 - k))

/-- Two numbers part where their xor has its first one. -/
theorem partAfter_iff {w m n k : Nat} : PartAfter w m n k ↔ leadingZeros w (m ^^^ n) = k := by
  induction w generalizing k with
  | zero =>
    refine ⟨fun h => (Nat.le_zero.mp h.1).symm, ?_⟩
    rintro rfl
    exact ⟨le_refl 0, fun j hj => absurd hj (Nat.not_lt_zero j), fun h => absurd h (lt_irrefl 0)⟩
  | succ w ih =>
    rw [leadingZeros_succ, Nat.testBit_xor]
    cases k with
    | zero =>
      by_cases hbit : m.testBit w = n.testBit w
      · rw [hbit, Bool.xor_self, if_neg Bool.false_ne_true]
        refine ⟨fun h => absurd hbit (h.2.2 (Nat.succ_pos w)), fun h => ?_⟩
        cases h
      · have hxor : (m.testBit w ^^ n.testBit w) = true := Bool.xor_iff_ne.mpr hbit
        rw [hxor, if_pos rfl]
        exact iff_of_true ⟨Nat.zero_le _, fun j hj => absurd hj (Nat.not_lt_zero j),
          fun _ => hbit⟩ rfl
    | succ k =>
      by_cases hbit : m.testBit w = n.testBit w
      · rw [hbit, Bool.xor_self, if_neg Bool.false_ne_true, Nat.succ_inj, ← ih]
        refine ⟨fun ⟨hk, hcommon, hpart⟩ => ⟨Nat.succ_le_succ_iff.mp hk, fun j hj => ?_,
          fun hlt => ?_⟩, fun ⟨hk, hcommon, hpart⟩ => ⟨Nat.succ_le_succ hk, fun j hj => ?_,
          fun hlt => ?_⟩⟩
        · have hsucc := hcommon (j + 1) (Nat.succ_lt_succ hj)
          rwa [show w + 1 - 1 - (j + 1) = w - 1 - j by omega] at hsucc
        · have hsucc := hpart (Nat.succ_lt_succ hlt)
          rwa [show w + 1 - 1 - (k + 1) = w - 1 - k by omega] at hsucc
        · cases j with
          | zero => exact hbit
          | succ j =>
            rw [show w + 1 - 1 - (j + 1) = w - 1 - j by omega]
            exact hcommon j (Nat.lt_of_succ_lt_succ hj)
        · rw [show w + 1 - 1 - (k + 1) = w - 1 - k by omega]
          exact hpart (Nat.lt_of_succ_lt_succ hlt)
      · have hxor : (m.testBit w ^^ n.testBit w) = true := Bool.xor_iff_ne.mpr hbit
        rw [hxor, if_pos rfl]
        refine ⟨fun h => absurd (h.2.1 0 (Nat.succ_pos k)) hbit, fun h => ?_⟩
        cases h

end Axona.Library
