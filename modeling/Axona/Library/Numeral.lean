import Mathlib.Data.Nat.Digits.Lemmas
import Axona.Library.Decimal
import Axona.Library.Digits
import Axona.Library.Utf16

/-! # Numbers in text

How a double is printed, with the fewest digits that tell it from all others, and how a numeral with
a fraction and an exponent is read: the double nearest to what it says. What is printed is read as
what it was. -/

namespace Axona.Library

/-! ### Doubles -/

/-- A 64-bit float. -/
inductive Double where
  | nan
  | infinite (neg : Bool)
  | finite (neg : Bool) (size : Magnitude)
deriving DecidableEq

/-- The double of a size; one that is too large is infinite. -/
def Double.ofSize (neg : Bool) (n : Nat) : Double :=
  if h : IsMagnitude n then .finite neg ⟨n, h⟩ else .infinite neg

/-! ### Units -/

/-- The unit of an ASCII character. -/
def unit (c : Char) : UInt16 := c.toNat.toUInt16

def digitUnit (d : Nat) : UInt16 := (48 + d).toUInt16

def unitDigit? (u : UInt16) : Option Nat :=
  if 48 ≤ u.toNat ∧ u.toNat ≤ 57 then some (u.toNat - 48) else none

theorem unitDigit?_digitUnit {d : Nat} (h : d < 10) : unitDigit? (digitUnit d) = some d := by
  decide +revert

/-- Digits in text. -/
def digitsText (ds : List Nat) : Units := ds.map digitUnit

/-- The decimal digits of a number, the highest first. -/
def decimals (n : Nat) : List Nat := (Nat.digits 10 n).reverse

theorem decimals_lt {n d : Nat} (h : d ∈ decimals n) : d < 10 :=
  Nat.digits_lt_base (by decide) (List.mem_reverse.mp h)

theorem ofFixed_decimals (n : Nat) : ofFixed 10 (decimals n) = n := by
  unfold ofFixed decimals
  rw [List.foldl_reverse]
  conv_rhs => rw [← Nat.ofDigits_digits 10 n]
  rw [Nat.ofDigits_eq_foldr]
  congr 1
  funext d m
  simp [Nat.add_comm]

/-! ### Numerals -/

/-- A numeral: the digits before and behind the point, and the exponent where there is one. -/
structure Numeral where
  int : List Nat
  frac : List Nat
  exp : Option Int
deriving DecidableEq, Repr

/-- The exponent in text. -/
def expText (e : Int) : Units :=
  unit 'e' :: (if 0 ≤ e then unit '+' else unit '-') :: digitsText (decimals e.natAbs)

/-- A numeral in text. -/
def Numeral.text (m : Numeral) : Units :=
  digitsText m.int ++ (if m.frac = [] then [] else unit '.' :: digitsText m.frac)
    ++ m.exp.elim [] expText

/-- The double that a numeral says. -/
def Numeral.double (neg : Bool) (m : Numeral) : Double :=
  .ofSize neg (decimalSize (ofFixed 10 (m.int ++ m.frac)) (m.exp.getD 0 - m.frac.length))

/-- How a decimal is written (`Number::toString`). -/
def Decimal.numeral (d : Decimal) : Numeral :=
  let ds := decimals d.s
  if d.k ≤ d.n ∧ d.n ≤ 21 then ⟨ds ++ List.replicate (d.n - d.k).toNat 0, [], none⟩
  else if 0 < d.n ∧ d.n ≤ 21 then ⟨ds.take d.n.toNat, ds.drop d.n.toNat, none⟩
  else if -6 < d.n ∧ d.n ≤ 0 then ⟨[0], List.replicate (-d.n).toNat 0 ++ ds, none⟩
  else ⟨ds.take 1, ds.drop 1, some (d.n - 1)⟩

/-- A finite double in text (`Number::toString`); both zeros are `0`. -/
def sizeText (neg : Bool) (n : Nat) : Units :=
  if n = 0 then [unit '0'] else (if neg then [unit '-'] else []) ++ (shortest n).numeral.text

/-! ### Reading -/

/-- The digits a text begins with, and what is behind them. -/
def readDigits : Units → List Nat × Units
  | [] => ([], [])
  | u :: us =>
    match unitDigit? u with
    | some d => ((readDigits us).1.cons d, (readDigits us).2)
    | none => ([], u :: us)

/-- The digits before the point: a zero, or digits that do not begin with one. -/
def readInt : Units → Option (List Nat × Units)
  | [] => none
  | u :: us =>
    match unitDigit? u with
    | none => none
    | some 0 => some ([0], us)
    | some d => some ((readDigits us).1.cons d, (readDigits us).2)

/-- The digits behind the point, if there is one. -/
def readFrac : Units → Option (List Nat × Units)
  | [] => some ([], [])
  | u :: us =>
    if u = unit '.' then if (readDigits us).1 = [] then none else some (readDigits us)
    else some ([], u :: us)

/-- The sign of an exponent. -/
def readSign : Units → Bool × Units
  | [] => (false, [])
  | u :: us =>
    if u = unit '+' then (false, us) else if u = unit '-' then (true, us) else (false, u :: us)

/-- The exponent, if there is one. -/
def readExp : Units → Option (Option Int × Units)
  | [] => some (none, [])
  | u :: us =>
    if u = unit 'e' ∨ u = unit 'E' then
      let (neg, us) := readSign us
      let (ds, us) := readDigits us
      if ds = [] then none
      else some (some (if neg then -(ofFixed 10 ds : Int) else ofFixed 10 ds), us)
    else some (none, u :: us)

/-- A numeral without a sign. -/
def readNumeral (t : Units) : Option (Numeral × Units) := do
  let (int, t) ← readInt t
  let (frac, t) ← readFrac t
  let (exp, t) ← readExp t
  some (⟨int, frac, exp⟩, t)

/-- A number. -/
def readNumber : Units → Option (Double × Units)
  | [] => none
  | u :: us =>
    if u = unit '-' then (readNumeral us).map fun m => (m.1.double true, m.2)
    else (readNumeral (u :: us)).map fun m => (m.1.double false, m.2)

/-- Nothing that goes on with a number. -/
def EndsNumber (rest : Units) : Prop :=
  ∀ u ∈ rest.head?, unitDigit? u = none ∧ u ≠ unit '.' ∧ u ≠ unit 'e' ∧ u ≠ unit 'E'

/-! ### What is printed is read -/

variable {rest : Units}

theorem readDigits_append {ds : List Nat} (hds : ∀ d ∈ ds, d < 10)
    (hrest : ∀ u ∈ rest.head?, unitDigit? u = none) :
    readDigits (digitsText ds ++ rest) = (ds, rest) := by
  induction ds with
  | nil =>
    cases rest with
    | nil => rfl
    | cons u us =>
      show readDigits (u :: us) = ([], u :: us)
      rw [readDigits, hrest u rfl]
  | cons d ds ih =>
    have hd := unitDigit?_digitUnit (hds d List.mem_cons_self)
    have ih := ih fun x hx => hds x (List.mem_cons_of_mem d hx)
    show readDigits (digitUnit d :: (digitsText ds ++ rest)) = (d :: ds, rest)
    rw [readDigits, hd, ih]

/-- A numeral as it may stand in a text. -/
structure Numeral.Written (m : Numeral) : Prop where
  int : m.int = [0] ∨ ∃ d ds, m.int = d :: ds ∧ d ≠ 0
  digits : ∀ d ∈ m.int ++ m.frac, d < 10
  exp : ∀ e, m.exp = some e → e ≠ 0

variable {tail : Units}

theorem not_digit_of_frac {frac : List Nat} (htail : ∀ u ∈ tail.head?, unitDigit? u = none) :
    ∀ u ∈ ((if frac = [] then [] else unit '.' :: digitsText frac) ++ tail).head?,
      unitDigit? u = none := by
  split
  · exact htail
  rintro u hu
  cases hu
  decide

variable {m : Numeral}

theorem readInt_append (hm : m.Written) (htail : ∀ u ∈ tail.head?, unitDigit? u = none) :
    readInt (digitsText m.int ++ tail) = some (m.int, tail) := by
  have hlt : ∀ d ∈ m.int, d < 10 := fun d hd => hm.digits d (List.mem_append_left _ hd)
  rcases hm.int with h0 | ⟨d, ds, hint, hne⟩
  · rw [h0]
    rfl
  rw [hint] at hlt ⊢
  have hd := unitDigit?_digitUnit (hlt d List.mem_cons_self)
  have hrest := readDigits_append (fun x hx => hlt x (List.mem_cons_of_mem d hx)) htail
  show readInt (digitUnit d :: (digitsText ds ++ tail)) = _
  rw [readInt, hd]
  cases d with
  | zero => exact absurd rfl hne
  | succ d =>
    rw [hrest]
    rfl

theorem readFrac_append {frac : List Nat} (hlt : ∀ d ∈ frac, d < 10)
    (htail : ∀ u ∈ tail.head?, unitDigit? u = none ∧ u ≠ unit '.') :
    readFrac ((if frac = [] then [] else unit '.' :: digitsText frac) ++ tail)
      = some (frac, tail) := by
  split
  next hnil =>
    subst hnil
    cases tail with
    | nil => rfl
    | cons u us =>
      show readFrac (u :: us) = _
      rw [readFrac, if_neg (htail u rfl).2]
  next hne =>
  have hdigits := readDigits_append hlt fun u hu => (htail u hu).1
  show readFrac (unit '.' :: (digitsText frac ++ tail)) = _
  rw [readFrac, if_pos rfl, hdigits, if_neg hne]

theorem readExp_append {exp : Option Int} (hexp : ∀ e, exp = some e → e ≠ 0)
    (hrest : EndsNumber rest) : readExp (exp.elim [] expText ++ rest) = some (exp, rest) := by
  cases exp with
  | none =>
    cases rest with
    | nil => rfl
    | cons u us =>
      obtain ⟨-, -, he, hE⟩ := hrest u rfl
      show readExp (u :: us) = _
      rw [readExp, if_neg (not_or.mpr ⟨he, hE⟩)]
  | some e =>
    have hdigits : readDigits (digitsText (decimals e.natAbs) ++ rest) = (decimals e.natAbs, rest) :=
      readDigits_append (fun _ => decimals_lt) fun u hu => (hrest u hu).1
    have hne : decimals e.natAbs ≠ [] := by
      unfold decimals
      rw [Ne, List.reverse_eq_nil_iff, Nat.digits_eq_nil_iff_eq_zero]
      exact Int.natAbs_ne_zero.mpr (hexp e rfl)
    show readExp (unit 'e' :: (if 0 ≤ e then unit '+' else unit '-')
      :: (digitsText (decimals e.natAbs) ++ rest)) = _
    rw [readExp, if_pos (.inl rfl)]
    by_cases h0 : 0 ≤ e
    · rw [if_pos h0]
      have hsign : readSign (unit '+' :: (digitsText (decimals e.natAbs) ++ rest))
          = (false, digitsText (decimals e.natAbs) ++ rest) := rfl
      rw [hsign]
      simp only [hdigits]
      rw [if_neg hne, ofFixed_decimals]
      simp [abs_of_nonneg h0]
    · rw [if_neg h0]
      have hsign : readSign (unit '-' :: (digitsText (decimals e.natAbs) ++ rest))
          = (true, digitsText (decimals e.natAbs) ++ rest) := rfl
      rw [hsign]
      simp only [hdigits]
      rw [if_neg hne, ofFixed_decimals]
      simp [abs_of_neg (not_le.mp h0)]

/-- **A numeral is read as it was written.** -/
theorem readNumeral_append (hm : m.Written) (hrest : EndsNumber rest) :
    readNumeral (m.text ++ rest) = some (m, rest) := by
  have htail : ∀ u ∈ (m.exp.elim [] expText ++ rest).head?, unitDigit? u = none ∧ u ≠ unit '.' := by
    cases hexp : m.exp with
    | none => exact fun u hu => ⟨(hrest u hu).1, (hrest u hu).2.1⟩
    | some e =>
      rintro u hu
      cases hu
      decide
  have hfrac : ∀ d ∈ m.frac, d < 10 := fun d hd => hm.digits d (List.mem_append_right _ hd)
  unfold readNumeral Numeral.text
  rw [List.append_assoc, List.append_assoc,
    readInt_append hm (not_digit_of_frac fun u hu => (htail u hu).1)]
  simp only [Option.bind_eq_bind, Option.bind_some]
  rw [readFrac_append hfrac htail]
  simp only [Option.bind_some]
  rw [readExp_append hm.exp hrest]
  rfl

/-! ### What a decimal says -/

theorem ofFixed_replicate_zero (z : Nat) : ofFixed 10 (List.replicate z 0) = 0 := by
  induction z with
  | zero => rfl
  | succ z ih => rw [List.replicate_succ', ofFixed_concat, ih]

namespace Decimal.Denotes

variable {d : Decimal} {n : Nat}

variable (h : d.Denotes n)
include h

theorem s_pos : d.s ≠ 0 :=
  ((Nat.pow_pos (by decide)).trans_le h.low).ne'

theorem length_decimals : (decimals d.s).length = d.k := by
  have hlog : Nat.log 10 d.s = d.k - 1 :=
    Nat.log_eq_of_pow_le_of_lt_pow h.low (by rw [Nat.sub_add_cancel h.pos]; exact h.high)
  unfold decimals
  rw [List.length_reverse, Nat.length_digits 10 _ (by decide) h.s_pos, hlog,
    Nat.sub_add_cancel h.pos]

/-- The first digit is not zero. -/
theorem decimals_eq_cons : ∃ c ds, decimals d.s = c :: ds ∧ c ≠ 0 := by
  have hne : Nat.digits 10 d.s ≠ [] := Nat.digits_ne_nil_iff_ne_zero.mpr h.s_pos
  refine ⟨_, (Nat.digits 10 d.s).dropLast.reverse, ?_, Nat.getLast_digit_ne_zero 10 h.s_pos⟩
  unfold decimals
  conv_lhs => rw [← List.dropLast_append_getLast hne]
  rw [List.reverse_append]
  rfl

/-- **A decimal is written as a numeral.** -/
theorem written_numeral : d.numeral.Written := by
  obtain ⟨c, ds, hds, hc⟩ := h.decimals_eq_cons
  have hlt : ∀ x ∈ decimals d.s, x < 10 := fun x => decimals_lt
  have hzeros {z x : Nat} (hx : x ∈ List.replicate z 0) : x < 10 := by
    rw [List.eq_of_mem_replicate hx]
    decide
  unfold numeral
  split
  · refine ⟨.inr ⟨c, ds ++ List.replicate (d.n - d.k).toNat 0, by rw [hds]; rfl, hc⟩, ?_,
      fun e he => by cases he⟩
    intro x hx
    rw [List.append_nil] at hx
    exact (List.mem_append.mp hx).elim (hlt x) hzeros
  split
  next hn =>
    refine ⟨.inr ⟨c, ds.take (d.n.toNat - 1), ?_, hc⟩, ?_, fun e he => by cases he⟩
    · obtain ⟨i, hi⟩ : ∃ i, d.n.toNat = i + 1 := ⟨d.n.toNat - 1, by omega⟩
      rw [hds, hi]
      rfl
    · rw [List.take_append_drop]
      exact hlt
  split
  · refine ⟨.inl rfl, ?_, fun e he => by cases he⟩
    intro x hx
    rcases List.mem_append.mp hx with hx | hx
    · rw [List.mem_singleton.mp hx]
      decide
    · exact (List.mem_append.mp hx).elim hzeros (hlt x)
  · refine ⟨.inr ⟨c, [], by rw [hds]; rfl, hc⟩, ?_, ?_⟩
    · rw [List.take_append_drop]
      exact hlt
    · intro e he
      cases he
      have := h.pos
      omega

/-- **The numeral of a decimal says the size it is rounded to.** -/
theorem double_numeral (neg : Bool) : d.numeral.double neg = .ofSize neg n := by
  have hlen := h.length_decimals
  have hpos := h.pos
  have hsize {s : Nat} {e : Int} (hs : s = d.s) (he : e = d.n - d.k) : decimalSize s e = n := by
    rw [hs, he]
    exact h.size
  unfold numeral Numeral.double
  congr 1
  split
  next hn =>
    obtain ⟨z, hz⟩ : ∃ z : Nat, d.n - d.k = z := ⟨(d.n - d.k).toNat, by omega⟩
    rw [hz, Int.toNat_natCast, List.append_nil, ofFixed_append, ofFixed_decimals,
      ofFixed_replicate_zero, List.length_replicate, Nat.add_zero, Nat.mul_comm]
    show decimalSize (d.s * 10 ^ z) 0 = n
    rw [decimalSize_mul_pow]
    exact hsize rfl hz.symm
  split
  next hn =>
    apply hsize
    · rw [List.take_append_drop, ofFixed_decimals]
    · rw [List.length_drop, hlen]
      show (0 : Int) - _ = _
      omega
  split
  next hn =>
    apply hsize
    · rw [← List.append_assoc, ofFixed_append, ofFixed_decimals, ofFixed_append,
        ofFixed_replicate_zero]
      simp [ofFixed]
    · rw [List.length_append, List.length_replicate, hlen]
      show (0 : Int) - _ = _
      omega
  · apply hsize
    · rw [List.take_append_drop, ofFixed_decimals]
    · rw [List.length_drop, hlen]
      show d.n - 1 - _ = _
      omega

end Decimal.Denotes

/-! ### What a number is read as -/

theorem Double.ofSize_magnitude (neg : Bool) (n : Magnitude) : ofSize neg n = .finite neg n := by
  unfold ofSize
  rw [dif_pos n.2]

/-- A numeral begins with a digit. -/
theorem Numeral.Written.text_eq_cons (hm : m.Written) :
    ∃ c t, m.text = digitUnit c :: t ∧ c < 10 := by
  unfold text
  rcases hm.int with h0 | ⟨c, ds, hint, -⟩
  · rw [h0]
    exact ⟨0, _, rfl, by decide⟩
  · have hlt : c < 10 := hm.digits c (by rw [hint]; exact List.mem_cons_self)
    rw [hint]
    exact ⟨c, _, rfl, hlt⟩

theorem digitUnit_ne_minus {c : Nat} (h : c < 10) : digitUnit c ≠ unit '-' := by
  decide +revert

/-- A numeral behind a sign, and one that has none. -/
theorem readNumber_append (hm : m.Written) (neg : Bool) (hrest : EndsNumber rest) :
    readNumber ((if neg then [unit '-'] else []) ++ m.text ++ rest) = some (m.double neg,
      rest) := by
  have hread := readNumeral_append hm hrest
  cases neg with
  | true =>
    show readNumber (unit '-' :: (m.text ++ rest)) = _
    rw [readNumber, if_pos rfl, hread]
    rfl
  | false =>
    obtain ⟨c, t, ht, hc⟩ := hm.text_eq_cons
    rw [ht] at hread ⊢
    show readNumber (digitUnit c :: (t ++ rest)) = _
    rw [readNumber, if_neg (digitUnit_ne_minus hc)]
    show (readNumeral (digitUnit c :: t ++ rest)).map _ = _
    rw [hread]
    rfl

/-- A zero in text has no sign. -/
def Double.printed (neg : Bool) (n : Magnitude) : Double := .finite (neg && n.1 != 0) n

/-- **A finite double is read as it was printed**, only that a zero has lost its sign. -/
theorem readNumber_sizeText (neg : Bool) (n : Magnitude) (hrest : EndsNumber rest) :
    readNumber (sizeText neg n ++ rest) = some (.printed neg n, rest) := by
  obtain ⟨n, hn⟩ := n
  unfold sizeText Double.printed
  split
  next h0 =>
    obtain rfl : n = 0 := h0
    have hm : Numeral.Written ⟨[0], [], none⟩ :=
      ⟨.inl rfl, by simp, fun e he => by cases he⟩
    have hzero : decimalSize 0 0 = 0 := by simp [decimalSize, roundRatio, roundHalfEven]
    have hread := readNumber_append hm false hrest
    rw [show ([unit '0'] : Units) ++ rest = [] ++ Numeral.text ⟨[0], [], none⟩ ++ rest from rfl]
    refine hread.trans ?_
    have hdouble : Numeral.double false ⟨[0], [], none⟩ = .ofSize false (decimalSize 0 0) := rfl
    have hsign : (neg && (0 : Nat) != 0) = false := Bool.and_false neg
    rw [hdouble, hzero, hsign]
    exact congrArg (fun d => some (d, rest)) (Double.ofSize_magnitude false ⟨0, hn⟩)
  next h0 =>
  have hden := denotes_shortest (Nat.pos_of_ne_zero h0) hn
  rw [readNumber_append hden.written_numeral neg hrest, hden.double_numeral neg,
    Double.ofSize_magnitude neg ⟨n, hn⟩, bne_iff_ne.mpr h0, Bool.and_true]

end Axona.Library
