import Mathlib.Data.Char
import Mathlib.Order.Std

/-! # Semantic versions

The versions of the semantic versioning standard, as data, as text, and in their precedence: three
numbers, then the identifiers of a prerelease, where a number comes before a name and a shorter
list before a longer one, and no prerelease last; the build does not count.

The second half is about the texts. Two lists of identifiers differ at some identifier first, and
a comparison of their texts sees no more than the two identifiers there, and the dot after the one
of lower precedence. -/

namespace Axona.Library

/-- A character of an identifier. -/
def isIdentChar (c : Char) : Bool := c == '-' || c.isAlphanum

/-- An identifier that is not a number. -/
structure NameIdent where
  text : List Char
  chars : ∀ c ∈ text, isIdentChar c = true
  notNumber : ∃ c ∈ text, c.isDigit = false
deriving DecidableEq

/-- An identifier of a prerelease. -/
inductive Ident where
  | num (n : Nat)
  | name (t : NameIdent)
deriving DecidableEq

namespace Ident

/-- The text of an identifier. -/
def text : Ident → List Char
  | .num n => Nat.toDigits 10 n
  | .name t => t.text

/-- The precedence of identifiers. -/
def order : Ident → Ident → Ordering
  | .num m, .num n => compare m n
  | .num _, .name _ => .lt
  | .name _, .num _ => .gt
  | .name s, .name t => compare s.text t.text

end Ident

/-- The precedence of lists of identifiers. -/
def identsOrder : List Ident → List Ident → Ordering := List.compareLex Ident.order

/-- The precedence of prereleases: no prerelease is last. -/
def preOrder (xs ys : List Ident) : Ordering :=
  if xs = [] ∧ ys ≠ [] then .gt
  else if xs ≠ [] ∧ ys = [] then .lt
  else identsOrder xs ys

/-- What follows the first identifier of a list, in the text. -/
def moreText (xs : List Ident) : List Char := xs.flatMap fun x => '.' :: x.text

/-- The text of a list of identifiers, with dots between them. -/
def identsText : List Ident → List Char
  | [] => []
  | x :: xs => x.text ++ moreText xs

/-- A semantic version. -/
structure SemVer where
  major : Nat
  minor : Nat
  patch : Nat
  pre : List Ident
  /-- The build metadata, empty where there is none. -/
  build : List Char
  build_chars : ∀ c ∈ build, isIdentChar c = true ∨ c = '.'
  build_parts : build ≠ [] → ∀ t ∈ build.splitOn '.', t ≠ []

namespace SemVer

/-- The text of the build metadata. -/
def buildText (v : SemVer) : List Char := if v.build = [] then [] else '+' :: v.build

/-- The text of a version. -/
def text (v : SemVer) : List Char :=
  Nat.toDigits 10 v.major ++ '.' :: (Nat.toDigits 10 v.minor ++ '.' :: (Nat.toDigits 10 v.patch
    ++ ((if v.pre = [] then [] else '-' :: identsText v.pre) ++ v.buildText)))

/-- The precedence of versions. -/
def precedence (v w : SemVer) : Ordering :=
  (compare v.major w.major).then <| (compare v.minor w.minor).then <|
    (compare v.patch w.patch).then (preOrder v.pre w.pre)

end SemVer

/-! ### The order of identifiers -/

theorem compareNat_self (n : Nat) : compare n n = .eq := Std.ReflCmp.compare_self

theorem compareChars_self (l : List Char) : compare l l = .eq := Std.ReflCmp.compare_self

theorem eq_of_compareChars {l l' : List Char} (h : compare l l' = .eq) : l = l' :=
  Std.LawfulEqCmp.eq_of_compare h

instance : Std.LawfulEqCmp Ident.order where
  compare_self {x} := by
    cases x with
    | num n => exact compareNat_self n
    | name t => exact compareChars_self t.text
  eq_of_compare {x y} h := by
    cases x with
    | num m =>
      cases y with
      | num n => exact congrArg Ident.num (compare_eq_iff_eq.mp h)
      | name t => cases h
    | name s =>
      cases y with
      | num n => cases h
      | name t =>
        have htext : s.text = t.text := eq_of_compareChars h
        cases s
        cases t
        cases htext
        rfl

instance : Std.OrientedCmp Ident.order where
  eq_swap {x y} := by
    cases x with
    | num m =>
      cases y with
      | num n =>
        change compare m n = (compare n m).swap
        exact Std.OrientedCmp.eq_swap
      | name t => rfl
    | name s =>
      cases y with
      | num n => rfl
      | name t =>
        change compare s.text t.text = (compare t.text s.text).swap
        exact Std.OrientedCmp.eq_swap

theorem Ident.order_self (x : Ident) : x.order x = .eq := Std.ReflCmp.compare_self

theorem Ident.order_eq_iff {x y : Ident} : x.order y = .eq ↔ x = y :=
  Std.LawfulEqCmp.compare_eq_iff_eq

theorem Ident.order_swap (x y : Ident) : y.order x = (x.order y).swap := Std.OrientedCmp.eq_swap

theorem identsOrder_eq_iff {xs ys : List Ident} : identsOrder xs ys = .eq ↔ xs = ys := by
  unfold identsOrder
  exact Std.LawfulEqCmp.compare_eq_iff_eq

theorem identsOrder_swap (xs ys : List Ident) : identsOrder ys xs = (identsOrder xs ys).swap := by
  unfold identsOrder
  exact Std.OrientedCmp.eq_swap

theorem identsOrder_cons (x y : Ident) (xs ys : List Ident) :
    identsOrder (x :: xs) (y :: ys) = (x.order y).then (identsOrder xs ys) :=
  List.compareLex_cons_cons

/-! ### The characters of identifiers -/

variable {c : Char}

theorem isIdentChar_cases (h : isIdentChar c = true) :
    c = '-' ∨ 48 ≤ c.toNat ∧ c.toNat ≤ 122 := by
  rw [isIdentChar, Bool.or_eq_true, beq_iff_eq] at h
  refine h.imp_right fun h => ?_
  have hrange {a b : Char} (ha : 48 ≤ a.toNat) (hb : b.toNat ≤ 122) (hac : a.val ≤ c.val)
      (hcb : c.val ≤ b.val) : 48 ≤ c.toNat ∧ c.toNat ≤ 122 :=
    ⟨Nat.le_trans ha hac, Nat.le_trans hcb hb⟩
  rcases Bool.or_eq_true_iff.mp h with h | h
  · rcases Bool.or_eq_true_iff.mp h with h | h
    · obtain ⟨hlow, hhigh⟩ : c.val ≥ 'A'.val ∧ c.val ≤ 'Z'.val := of_decide_eq_true h
      exact hrange (by decide) (by decide) hlow hhigh
    · obtain ⟨hlow, hhigh⟩ := Bool.and_eq_true_iff.mp h
      exact hrange (by decide) (by decide) (of_decide_eq_true hlow) (of_decide_eq_true hhigh)
  · obtain ⟨hlow, hhigh⟩ := Bool.and_eq_true_iff.mp h
    exact hrange (by decide) (by decide) (of_decide_eq_true hlow) (of_decide_eq_true hhigh)

theorem ne_dot_of_isIdentChar (h : isIdentChar c = true) : c ≠ '.' := by
  rintro rfl
  revert h
  decide

theorem plus_lt_of_isIdentChar (h : isIdentChar c = true) : compare '+' c = .lt := by
  rw [compare_lt_iff_lt]
  rcases isIdentChar_cases h with rfl | ⟨hlow, -⟩
  · decide
  · exact UInt32.lt_iff_toNat_lt.mpr (lt_of_lt_of_le (by decide) hlow)

theorem isIdentChar_of_isDigit (h : c.isDigit = true) : isIdentChar c = true := by
  simp [isIdentChar, Char.isAlphanum, h]

theorem Ident.chars (x : Ident) : ∀ c ∈ x.text, isIdentChar c = true := by
  cases x with
  | num n =>
    intro c hc
    exact isIdentChar_of_isDigit (Nat.isDigit_of_mem_toDigits (by decide) le_rfl hc)
  | name t => exact t.chars

/-- An identifier of lower precedence does not begin with the text of the other. -/
theorem Ident.not_prefix {x y : Ident} (h : x.order y = .lt) : ¬ y.text <+: x.text := by
  rintro ⟨t, ht⟩
  cases x with
  | num m =>
    cases y with
    | num n =>
      -- more digits make a larger number
      have hlt : m < n := compare_lt_iff_lt.mp h
      have hm := Nat.ofDigitChars_ten_toDigits (n := m)
      rw [← show Nat.toDigits 10 n ++ t = Nat.toDigits 10 m from ht, Nat.ofDigitChars_append,
        Nat.ofDigitChars_ten_toDigits, Nat.ofDigitChars_eq_ofDigitChars_zero] at hm
      have hpow : n ≤ 10 ^ t.length * n := Nat.le_mul_of_pos_left n (Nat.pow_pos (by decide))
      omega
    | name s =>
      obtain ⟨c, hc, hdigit⟩ := s.notNumber
      have hmem : c ∈ Nat.toDigits 10 m := by
        rw [← show s.text ++ t = Nat.toDigits 10 m from ht]
        exact List.mem_append_left t hc
      rw [Nat.isDigit_of_mem_toDigits (by decide) le_rfl hmem] at hdigit
      cases hdigit
  | name s =>
    cases y with
    | num n => cases h
    | name s' =>
      have hlt : compare s.text s'.text = .lt := h
      have hself : ∀ l : List Char, compare (l ++ t) l ≠ .lt := by
        intro l
        induction l with
        | nil => cases t <;> simp
        | cons a l ih => simpa using ih
      rw [← show s'.text ++ t = s.text from ht] at hlt
      exact hself _ hlt

/-! ### The texts of identifiers -/

/-- What follows an identifier in the text of a version. -/
def IsRest (r : List Char) : Prop := r = [] ∨ (∃ t, r = '.' :: t) ∨ ∃ t, r = '+' :: t

/-- The dot, where one follows. -/
def dotOf (r : List Char) : List Char := if r.head? = some '.' then ['.'] else []

theorem compare_append_left (l s t : List Char) : compare (l ++ s) (l ++ t) = compare s t := by
  induction l with
  | nil => rfl
  | cons a l ih => simp [ih]

/-- Two texts of identifiers that do not begin alike are told apart by them and the dot that follows
the first. -/
theorem compare_texts {l l' r r' : List Char} (hl : ∀ c ∈ l, isIdentChar c = true)
    (hl' : ∀ c ∈ l', isIdentChar c = true) (hr : IsRest r) (hpre : ¬ l' <+: l) :
    compare (l ++ r) (l' ++ r') = .lt ↔ compare (l ++ dotOf r) l' = .lt := by
  induction l generalizing l' with
  | nil =>
    cases l' with
    | nil => exact absurd (List.prefix_refl _) hpre
    | cons b l' =>
      have hb := hl' b List.mem_cons_self
      rcases hr with rfl | ⟨t, rfl⟩ | ⟨t, rfl⟩
      · simp [dotOf]
      · -- no character of an identifier is a dot, so it is told apart there
        have hne : compare '.' b ≠ .eq := by
          rw [Ne, Std.LawfulEqCmp.compare_eq_iff_eq]
          exact (ne_dot_of_isIdentChar hb).symm
        cases hcmp : compare '.' b with
        | lt | gt => simp [dotOf, hcmp]
        | eq => exact absurd hcmp hne
      · simp [dotOf, plus_lt_of_isIdentChar hb]
  | cons a l ih =>
    cases l' with
    | nil => exact absurd List.nil_prefix hpre
    | cons b l' =>
      by_cases hab : a = b
      · subst hab
        have hpre' : ¬ l' <+: l := fun h => hpre (List.cons_prefix_cons.mpr ⟨rfl, h⟩)
        simpa using ih (fun c hc => hl c (List.mem_cons_of_mem a hc))
          (fun c hc => hl' c (List.mem_cons_of_mem a hc)) hpre'
      · have hne : compare a b ≠ .eq := by rwa [Ne, Std.LawfulEqCmp.compare_eq_iff_eq]
        cases hcmp : compare a b with
        | lt | gt => simp [hcmp]
        | eq => exact absurd hcmp hne

/-- The text of an identifier, with the dot after it where others follow, is below that of another
one. -/
def TextBelow (x : Ident) (xs : List Ident) (y : Ident) : Prop :=
  compare (x.text ++ if xs = [] then [] else ['.']) y.text = .lt

/-- Of the first identifiers in which two lists differ, the one of lower precedence is below the
other one as a text. -/
def TextsAgree : List Ident → List Ident → Prop
  | x :: xs, y :: ys =>
    if x = y then TextsAgree xs ys
    else if x.order y = .lt then TextBelow x xs y
    else TextBelow y ys x
  | _, _ => True

theorem TextsAgree.symm {xs ys : List Ident} (h : TextsAgree xs ys) : TextsAgree ys xs := by
  induction xs generalizing ys with
  | nil => cases ys <;> trivial
  | cons x xs ih =>
    cases ys with
    | nil => trivial
    | cons y ys =>
      unfold TextsAgree at h ⊢
      by_cases heq : x = y
      · rw [if_pos heq] at h
        rw [if_pos heq.symm]
        exact ih h
      rw [if_neg heq] at h
      rw [if_neg (Ne.symm heq)]
      have hswap := Ident.order_swap x y
      have hne : x.order y ≠ .eq := fun ho => heq (Ident.order_eq_iff.mp ho)
      cases ho : x.order y with
      | lt =>
        rw [ho, if_pos rfl] at h
        rw [hswap, ho, if_neg (by decide)]
        exact h
      | eq => exact absurd ho hne
      | gt =>
        rw [ho, if_neg (by decide)] at h
        rw [hswap, ho, if_pos (by rfl)]
        exact h

/-- The text after a list of identifiers: nothing, or the build. -/
def IsBuild (b : List Char) : Prop := b = [] ∨ ∃ t, b = '+' :: t

theorem isRest_moreText (xs : List Ident) {b : List Char} (hb : IsBuild b) :
    IsRest (moreText xs ++ b) := by
  cases xs with
  | nil => exact hb.imp_right .inr
  | cons x xs => exact .inr (.inl ⟨_, rfl⟩)

theorem dotOf_moreText (xs : List Ident) {b : List Char} (hb : IsBuild b) :
    dotOf (moreText xs ++ b) = if xs = [] then [] else ['.'] := by
  cases xs with
  | nil =>
    rcases hb with rfl | ⟨t, rfl⟩
    · rfl
    · rfl
  | cons x xs => rfl

/-- Where the precedence says lower, the texts say so too exactly if they agree. -/
theorem compare_moreText {xs ys : List Ident} (h : identsOrder xs ys = .lt) {b b' : List Char}
    (hb : IsBuild b) : compare (moreText xs ++ b) (moreText ys ++ b') = .lt ↔ TextsAgree xs ys := by
  induction xs generalizing ys with
  | nil =>
    cases ys with
    | nil => cases h
    | cons y ys =>
      refine iff_of_true ?_ (by unfold TextsAgree; trivial)
      rcases hb with rfl | ⟨t, rfl⟩
      · rfl
      · rfl
  | cons x xs ih =>
    cases ys with
    | nil => cases h
    | cons y ys =>
      rw [identsOrder_cons] at h
      have hcons : ∀ (z : Ident) (zs : List Ident) (c : List Char),
          moreText (z :: zs) ++ c = ['.'] ++ (z.text ++ (moreText zs ++ c)) := by
        intro z zs c
        simp [moreText]
      rw [hcons, hcons, compare_append_left]
      unfold TextsAgree
      by_cases heq : x = y
      · subst heq
        rw [if_pos rfl, compare_append_left]
        rw [Ident.order_self] at h
        exact ih h
      have hlt : x.order y = .lt := by
        cases ho : x.order y with
        | lt => rfl
        | eq => exact absurd (Ident.order_eq_iff.mp ho) heq
        | gt =>
          rw [ho] at h
          cases h
      rw [if_neg heq, if_pos hlt, compare_texts x.chars y.chars (isRest_moreText xs hb)
        (Ident.not_prefix hlt), dotOf_moreText xs hb, TextBelow]

/-- The same of whole lists. -/
theorem compare_identsText {xs ys : List Ident} (hx : xs ≠ []) (hy : ys ≠ [])
    (h : identsOrder xs ys = .lt) {b b' : List Char} (hb : IsBuild b) :
    compare (identsText xs ++ b) (identsText ys ++ b') = .lt ↔ TextsAgree xs ys := by
  have hmore : compare (moreText xs ++ b) (moreText ys ++ b') = .lt ↔ TextsAgree xs ys :=
    compare_moreText h hb
  rw [← hmore]
  cases xs with
  | nil => exact absurd rfl hx
  | cons x xs =>
    cases ys with
    | nil => exact absurd rfl hy
    | cons y ys => simp [identsText, moreText]

end Axona.Library
