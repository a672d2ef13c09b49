import Mathlib.Data.Nat.Digits.Defs
import Mathlib.Data.List.Basic
import Mathlib.Data.List.Induction

/-! # Numbers in a fixed number of digits

A number below `b ^ w` in `w` digits of base `b`, the highest first, padded with zeros. Such digit
lists are ordered as their numbers are, the leading digits are those of a quotient, and padding
what `Nat.toDigits` prints comes to the same. -/

namespace Axona.Library

/-- The `w` digits of a number, the highest first; what they do not hold is lost. -/
def fixedDigits (b : Nat) : Nat → Nat → List Nat
  | 0, _ => []
  | w + 1, n => fixedDigits b w (n / b) ++ [n % b]

/-- The number that digits stand for, the highest first. -/
def ofFixed (b : Nat) (ds : List Nat) : Nat := ds.foldl (fun n d => b * n + d) 0

variable {b : Nat}

@[simp] theorem length_fixedDigits (w n : Nat) : (fixedDigits b w n).length = w := by
  induction w generalizing n with
  | zero => rfl
  | succ w ih => simp [fixedDigits, ih]

theorem lt_of_mem_fixedDigits (hb : 0 < b) {w n d : Nat} (h : d ∈ fixedDigits b w n) : d < b := by
  induction w generalizing n with
  | zero => cases h
  | succ w ih =>
    rcases List.mem_append.mp h with h | h
    · exact ih h
    · rw [List.mem_singleton.mp h]
      exact Nat.mod_lt n hb

@[simp] theorem fixedDigits_zero (w : Nat) : fixedDigits b w 0 = List.replicate w 0 := by
  induction w with
  | zero => rfl
  | succ w ih => rw [fixedDigits, Nat.zero_div, Nat.zero_mod, ih, List.replicate_succ']

/-! ### Reading digits -/

theorem ofFixed_concat (ds : List Nat) (d : Nat) : ofFixed b (ds ++ [d])
    = b * ofFixed b ds + d := by
  unfold ofFixed
  rw [List.foldl_append]
  rfl

theorem ofFixed_append (ds es : List Nat) :
    ofFixed b (ds ++ es) = b ^ es.length * ofFixed b ds + ofFixed b es := by
  induction es using List.reverseRecOn with
  | nil => simp [ofFixed]
  | append_singleton es e ih =>
    rw [← List.append_assoc, ofFixed_concat, ih, ofFixed_concat, List.length_append,
      List.length_singleton, pow_succ]
    ring

/-- A number that fits is that of its digits. -/
theorem ofFixed_fixedDigits {w n : Nat} (h : n < b ^ w) : ofFixed b (fixedDigits b w n) = n := by
  induction w generalizing n with
  | zero =>
    rw [pow_zero, Nat.lt_one_iff] at h
    exact h.symm
  | succ w ih =>
    have hdiv : n / b < b ^ w := Nat.div_lt_of_lt_mul (by rwa [pow_succ'] at h)
    rw [fixedDigits, ofFixed_concat, ih hdiv]
    exact Nat.div_add_mod n b

/-- Digits of the base stand for a number that fits in them. -/
theorem ofFixed_lt {ds : List Nat} (h : ∀ d ∈ ds, d < b) : ofFixed b ds < b ^ ds.length := by
  induction ds using List.reverseRecOn with
  | nil => exact Nat.one_pos
  | append_singleton ds d ih =>
    have hlt := ih fun x hx => h x (List.mem_append_left _ hx)
    have hd : d < b := h d (List.mem_append_right _ (List.mem_singleton_self d))
    rw [ofFixed_concat, List.length_append, List.length_singleton, pow_succ]
    calc b * ofFixed b ds + d < b * ofFixed b ds + b := by omega
      _ = (ofFixed b ds + 1) * b := by ring
      _ ≤ b ^ ds.length * b := Nat.mul_le_mul_right b hlt

/-! ### Leading digits -/

/-- The leading digits are those of the quotient. -/
theorem take_fixedDigits (k j n : Nat) :
    (fixedDigits b (k + j) n).take k = fixedDigits b k (n / b ^ j) := by
  induction j generalizing n with
  | zero => rw [Nat.add_zero, pow_zero, Nat.div_one, List.take_of_length_le (by simp)]
  | succ j ih =>
    rw [← Nat.add_assoc, fixedDigits, List.take_append_of_le_length (by simp), ih,
      Nat.div_div_eq_div_mul, pow_succ']

/-! ### Order -/

theorem concat_lt_concat {ds es : List Nat} {d e : Nat} (h : ds.length = es.length) :
    ds ++ [d] < es ++ [e] ↔ ds < es ∨ (ds = es ∧ d < e) := by
  induction ds generalizing es with
  | nil =>
    cases es with
    | nil => simp [List.cons_lt_cons_iff]
    | cons e es => simp at h
  | cons x ds ih =>
    cases es with
    | nil => simp at h
    | cons y es =>
      have hlen : ds.length = es.length := by simpa using h
      rw [List.cons_append, List.cons_append, List.cons_lt_cons_iff, List.cons_lt_cons_iff, ih hlen,
        List.cons.injEq]
      constructor
      · rintro (hlt | ⟨rfl, hlt | ⟨rfl, hlt⟩⟩)
        · exact .inl (.inl hlt)
        · exact .inl (.inr ⟨rfl, hlt⟩)
        · exact .inr ⟨⟨rfl, rfl⟩, hlt⟩
      · rintro ((hlt | ⟨rfl, hlt⟩) | ⟨⟨rfl, rfl⟩, hlt⟩)
        · exact .inl hlt
        · exact .inr ⟨rfl, .inl hlt⟩
        · exact .inr ⟨rfl, .inr ⟨rfl, hlt⟩⟩

/-- Two numbers with the same digits, and both fitting, are the same number. -/
theorem fixedDigits_inj {w n m : Nat} (hn : n < b ^ w) (hm : m < b ^ w) :
    fixedDigits b w n = fixedDigits b w m ↔ n = m := by
  constructor
  · intro h
    rw [← ofFixed_fixedDigits hn, h, ofFixed_fixedDigits hm]
  · exact congrArg _

/-- The digits of numbers that fit are ordered as the numbers are. -/
theorem fixedDigits_lt_iff (hb : 0 < b) {w n m : Nat} (hn : n < b ^ w) (hm : m < b ^ w) :
    fixedDigits b w n < fixedDigits b w m ↔ n < m := by
  induction w generalizing n m with
  | zero =>
    rw [pow_zero, Nat.lt_one_iff] at hn hm
    subst hn hm
    simp
  | succ w ih =>
    rw [pow_succ'] at hn hm
    have hn' : n / b < b ^ w := Nat.div_lt_of_lt_mul hn
    have hm' : m / b < b ^ w := Nat.div_lt_of_lt_mul hm
    have hlen : (fixedDigits b w (n / b)).length = (fixedDigits b w (m / b)).length := by simp
    rw [fixedDigits, fixedDigits, concat_lt_concat hlen, ih hn' hm', fixedDigits_inj hn' hm']
    -- the quotients decide, and the last digits where they are equal
    have en := Nat.div_add_mod n b
    have em := Nat.div_add_mod m b
    have hmod := Nat.mod_lt n hb
    constructor
    · rintro (h | ⟨heq, h⟩)
      · have : b * (n / b + 1) ≤ b * (m / b) := Nat.mul_le_mul_left b h
        rw [Nat.mul_succ] at this
        omega
      · rw [heq] at en
        omega
    · intro h
      rcases Nat.lt_or_ge (n / b) (m / b) with hlt | hge
      · exact .inl hlt
      have heq : n / b = m / b := Nat.le_antisymm (Nat.div_le_div_right h.le) hge
      rw [heq] at en
      exact .inr ⟨heq, by omega⟩

/-- Writing digits with an alphabet in their order keeps the order. -/
theorem map_lt_map_iff {α : Type} [LT α] {f : Nat → α} {c : Nat}
    (hlt : ∀ d < c, ∀ e < c, (f d < f e ↔ d < e)) (hinj : ∀ d < c, ∀ e < c, (f d = f e ↔ d = e))
    {ds es : List Nat} (hd : ∀ d ∈ ds, d < c) (he : ∀ e ∈ es, e < c) :
    ds.map f < es.map f ↔ ds < es := by
  induction ds generalizing es with
  | nil =>
    cases es with
    | nil | cons e es => simp
  | cons d ds ih =>
    cases es with
    | nil => simp
    | cons e es =>
      have hd' := hd d List.mem_cons_self
      have he' := he e List.mem_cons_self
      rw [List.map_cons, List.map_cons, List.cons_lt_cons_iff, List.cons_lt_cons_iff,
        hlt d hd' e he', hinj d hd' e he',
        ih (fun x hx => hd x (List.mem_cons_of_mem d hx))
          (fun x hx => he x (List.mem_cons_of_mem e hx))]

/-! ### Printing -/

/-- Padding what is printed to a width that holds it prints the digits. -/
theorem leftpad_toDigits (hb : 1 < b) {w n : Nat} (hw : w ≠ 0) (h : n < b ^ w) :
    (Nat.toDigits b n).leftpad w '0' = (fixedDigits b w n).map Nat.digitChar := by
  induction w generalizing n with
  | zero => exact absurd rfl hw
  | succ w ih =>
    rcases Nat.lt_or_ge n b with hlt | hge
    · -- one digit: all the others are zeros
      rw [Nat.toDigits_of_lt_base hlt, fixedDigits, Nat.div_eq_of_lt hlt, Nat.mod_eq_of_lt hlt,
        fixedDigits_zero]
      simp [List.leftpad]
    have hw' : w ≠ 0 := by
      rintro rfl
      rw [zero_add, pow_one] at h
      omega
    have hdiv : n / b < b ^ w := Nat.div_lt_of_lt_mul (by rwa [pow_succ'] at h)
    have hpos : 0 < n / b := Nat.div_pos hge (by omega)
    have happ : Nat.toDigits b n = Nat.toDigits b (n / b) ++ [Nat.digitChar (n % b)] := by
      rw [← Nat.toDigits_of_lt_base (Nat.mod_lt n (by omega)),
        Nat.toDigits_append_toDigits hb hpos (Nat.mod_lt n (by omega)), Nat.div_add_mod]
    rw [happ, fixedDigits, List.map_append, ← ih hw' hdiv]
    simp [List.leftpad]

end Axona.Library
