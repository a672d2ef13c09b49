import Mathlib.Data.List.Induction
import Mathlib.Tactic.Ring

/-! # Numbers as bytes

The big-endian bytes of a number, of a given width, and the number that bytes stand for. -/

namespace Axona.Library

/-- The number that bytes stand for, the highest first. -/
def ofBytes (bs : List Nat) : Nat := bs.foldl (fun n b => 256 * n + b) 0

/-- The bytes of a number, the highest first; what the width does not hold is lost. -/
def bigEndian : Nat → Nat → List Nat
  | 0, _ => []
  | width + 1, n => bigEndian width (n / 256) ++ [n % 256]

@[simp] theorem length_bigEndian (width n : Nat) : (bigEndian width n).length = width := by
  induction width generalizing n with
  | zero => rfl
  | succ width ih => rw [bigEndian, List.length_append, ih, List.length_singleton]

theorem ofBytes_concat (bs : List Nat) (b : Nat) : ofBytes (bs ++ [b]) = 256 * ofBytes bs + b := by
  unfold ofBytes
  rw [List.foldl_append]
  rfl

/-- Bytes are those of the number they stand for. -/
theorem bigEndian_ofBytes {bs : List Nat} (h : ∀ b ∈ bs, b < 256) :
    bigEndian bs.length (ofBytes bs) = bs := by
  induction bs using List.reverseRecOn with
  | nil => rfl
  | append_singleton bs b ih =>
    have hb : b < 256 := h b (List.mem_append_right _ (List.mem_singleton_self b))
    have hdiv : (256 * ofBytes bs + b) / 256 = ofBytes bs := by omega
    have hmod : (256 * ofBytes bs + b) % 256 = b := by omega
    rw [ofBytes_concat, List.length_append, List.length_singleton, bigEndian, hdiv, hmod,
      ih fun b' hb' => h b' (List.mem_append_left _ hb')]

/-- A number that fits is that of its bytes. -/
theorem ofBytes_bigEndian {width n : Nat} (h : n < 256 ^ width) :
    ofBytes (bigEndian width n) = n := by
  induction width generalizing n with
  | zero =>
    rw [pow_zero, Nat.lt_one_iff] at h
    exact h.symm
  | succ width ih =>
    have hdiv : n / 256 < 256 ^ width := by
      rw [pow_succ] at h
      exact Nat.div_lt_of_lt_mul (by rwa [Nat.mul_comm] at h)
    rw [bigEndian, ofBytes_concat, ih hdiv]
    omega

/-- Two numbers that fit have different bytes. -/
theorem bigEndian_inj {width n m : Nat} (hn : n < 256 ^ width) (hm : m < 256 ^ width)
    (h : bigEndian width n = bigEndian width m) : n = m := by
  rw [← ofBytes_bigEndian hn, h, ofBytes_bigEndian hm]

end Axona.Library
