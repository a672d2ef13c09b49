import Axona.Library.SemVer
import Axona.Transport.Versions

/-! # The version gate

The two sides of the handshake decide alike, whatever the versions: both compare the client's with
the minimum of the server, and by the same function, which is a total preorder of the texts that
parse.

It is not the precedence of semantic versions. What follows the numbers is compared as one text, so
`rc.10` is below `rc.9`, the build counts, and a release with a build counts as a prerelease; and
numbers that one double stands for are taken for equal. `VersionsAgree` says of which versions that
makes no difference. -/

namespace Axona

open Library

/-! ### What is compared of a version -/

/-- What `parseVersion` keeps of the text after the numbers. -/
def Library.SemVer.tail (v : SemVer) : Text :=
  if v.pre = [] then v.build else identsText v.pre ++ v.buildText

/-- The numbers are two doubles, or what comes after them orders the versions as the numbers do. -/
def NumbersAgree (m n : Nat) (rest : Ordering) : Prop :=
  toDouble m = toDouble n → rest = compare m n

/-- What follows the numbers orders the versions by their precedence. Versions of the same
prerelease have the same build; a release has no build, or one that is above the prerelease as a
text; and two prereleases are ordered alike by the first identifiers in which they differ and by
their texts. -/
def TailsAgree (v w : SemVer) : Prop :=
  if v.pre = w.pre then v.build = w.build
  else if v.pre = [] then v.build ≠ [] → compare w.tail v.tail = .lt
  else if w.pre = [] then w.build ≠ [] → compare v.tail w.tail = .lt
  else TextsAgree v.pre w.pre

/-- **The condition.** The first numbers in which the versions differ are two doubles, or what comes
after them happens to order the versions in the same way; and where the numbers are the same, what
follows them orders the versions by their precedence. -/
def VersionsAgree (v w : SemVer) : Prop :=
  if v.major ≠ w.major then
    NumbersAgree v.major w.major <| (compareDouble (toDouble v.minor) (toDouble w.minor)).then <|
      (compareDouble (toDouble v.patch) (toDouble w.patch)).then (comparePre v.tail w.tail)
  else if v.minor ≠ w.minor then
    NumbersAgree v.minor w.minor <|
      (compareDouble (toDouble v.patch) (toDouble w.patch)).then (comparePre v.tail w.tail)
  else if v.patch ≠ w.patch then NumbersAgree v.patch w.patch (comparePre v.tail w.tail)
  else TailsAgree v w

/-! ### Reading a version -/

/-- The text begins with no digit. -/
def NoDigit (s : Text) : Prop := ∀ c ∈ s.head?, c.isDigit = false

theorem matchDigits_toDigits (n : Nat) {s : Text} (hs : NoDigit s) :
    matchDigits (Nat.toDigits 10 n ++ s) = some (n, s) := by
  have hdigits : ∀ c ∈ Nat.toDigits 10 n, c.isDigit = true :=
    fun c hc => Nat.isDigit_of_mem_toDigits (by decide) le_rfl hc
  have htake : (Nat.toDigits 10 n ++ s).takeWhile Char.isDigit = Nat.toDigits 10 n := by
    rw [List.takeWhile_append_of_pos hdigits]
    cases s with
    | nil => simp
    | cons c s => simp [hs c rfl]
  have hdrop : (Nat.toDigits 10 n ++ s).dropWhile Char.isDigit = s := by
    rw [List.dropWhile_append_of_pos hdigits]
    cases s with
    | nil => rfl
    | cons c s => simp [hs c rfl]
  unfold matchDigits
  rw [htake, hdrop]
  split
  next hnil => exact absurd hnil Nat.toDigits_ne_nil
  next d ds hcons => rw [← hcons, Nat.ofDigitChars_ten_toDigits]

variable {c : Char}

theorem not_lineTerminator (h : isIdentChar c = true ∨ c = '.' ∨ c = '+') :
    isLineTerminator c = false := by
  by_contra hc
  simp only [isLineTerminator, Bool.not_eq_false, Bool.or_eq_true, beq_iff_eq] at hc
  rcases hc with ((rfl | rfl) | rfl) | rfl <;> revert h <;> decide

variable {xs : List Ident}

theorem char_of_mem_moreText (h : c ∈ moreText xs) :
    isIdentChar c = true ∨ c = '.' := by
  obtain ⟨x, -, hc⟩ := List.mem_flatMap.mp h
  rcases List.mem_cons.mp hc with rfl | hc
  · exact .inr rfl
  · exact .inl (x.chars c hc)

theorem char_of_mem_identsText (h : c ∈ identsText xs) :
    isIdentChar c = true ∨ c = '.' := by
  cases xs with
  | nil => cases h
  | cons x xs =>
    rcases List.mem_append.mp h with h | h
    · exact .inl (x.chars c h)
    · exact char_of_mem_moreText h

variable {v : SemVer}

theorem char_of_mem_buildText (h : c ∈ v.buildText) :
    isIdentChar c = true ∨ c = '.' ∨ c = '+' := by
  unfold SemVer.buildText at h
  split at h
  · cases h
  rcases List.mem_cons.mp h with rfl | h
  · exact .inr (.inr rfl)
  · exact (v.build_chars c h).imp_right .inl

theorem char_of_mem_tail (h : c ∈ v.tail) :
    isIdentChar c = true ∨ c = '.' ∨ c = '+' := by
  unfold SemVer.tail at h
  split at h
  · exact (v.build_chars c h).imp_right .inl
  rcases List.mem_append.mp h with h | h
  · exact (char_of_mem_identsText h).imp_right .inl
  · exact char_of_mem_buildText h

theorem text_ne_nil (x : Ident) : x.text ≠ [] := by
  cases x with
  | num n => exact Nat.toDigits_ne_nil
  | name t =>
    obtain ⟨c, hc, -⟩ := t.notNumber
    exact List.ne_nil_of_mem hc

theorem identsText_ne_nil (h : xs ≠ []) : identsText xs ≠ [] := by
  cases xs with
  | nil => exact absurd rfl h
  | cons x xs => exact List.append_ne_nil_of_left_ne_nil (text_ne_nil x) _

theorem tail_eq_nil_iff : v.tail = [] ↔ v.pre = [] ∧ v.build = [] := by
  unfold SemVer.tail
  split
  next h => simp [h]
  next h => simp [h, identsText_ne_nil h]

/-- The sign and the tail. -/
theorem matchTail_text (v : SemVer) :
    matchTail ((if v.pre = [] then [] else '-' :: identsText v.pre) ++ v.buildText)
      = some v.tail := by
  have hok : ∀ {t : Text}, t = v.tail → t ≠ [] → t.isEmpty = false ∧ t.any isLineTerminator
    = false := by
    rintro t rfl hne
    refine ⟨by simpa using hne, ?_⟩
    rw [List.any_eq_false]
    intro c hc
    rw [not_lineTerminator (char_of_mem_tail hc)]
    decide
  by_cases hpre : v.pre = []
  · by_cases hbuild : v.build = []
    · simp [SemVer.tail, SemVer.buildText, hpre, hbuild, matchTail]
    have htail : v.build = v.tail := by simp [SemVer.tail, hpre]
    obtain ⟨hempty, hline⟩ := hok htail hbuild
    simp [SemVer.buildText, hpre, hbuild, matchTail, hempty, hline, htail.symm]
  · have htail : identsText v.pre ++ v.buildText = v.tail := by simp [SemVer.tail, hpre]
    obtain ⟨hempty, hline⟩ := hok htail (List.append_ne_nil_of_left_ne_nil
      (identsText_ne_nil hpre) _)
    rw [if_neg hpre, List.cons_append, matchTail, hempty, hline, htail]
    rfl

theorem noDigit_tail (v : SemVer) :
    NoDigit ((if v.pre = [] then [] else '-' :: identsText v.pre) ++ v.buildText) := by
  intro c hc
  unfold SemVer.buildText at hc
  split at hc
  · split at hc
    · cases hc
    · cases hc
      rfl
  · cases hc
    rfl

/-- A version is read as its numbers, each as a double, and its tail. -/
theorem parseVersion_text (v : SemVer) : parseVersion v.text =
    some ⟨toDouble v.major, toDouble v.minor, toDouble v.patch, v.tail⟩ := by
  have hdot : ∀ s : Text, NoDigit ('.' :: s) := by
    intro s c hc
    cases hc
    rfl
  simp [parseVersion, SemVer.text, matchDigits_toDigits _ (hdot _),
    matchDigits_toDigits _ (noDigit_tail v), matchTail_text]

/-! ### Comparing texts -/

theorem utf16_of_lt (h : c.toNat < 0x10000) : utf16 c = [c.toNat] := if_pos h

theorem compare_toNat (a b : Char) : compare a.toNat b.toNat = compare a b := by
  have hlt : ∀ a b : Char, a.toNat < b.toNat ↔ a < b := fun a b => UInt32.lt_iff_toNat_lt.symm
  rcases lt_trichotomy a b with h | rfl | h
  · rw [compare_lt_iff_lt.mpr h, compare_lt_iff_lt.mpr ((hlt a b).mpr h)]
  · rw [compare_eq_iff_eq.mpr rfl, compare_eq_iff_eq.mpr rfl]
  · rw [compare_gt_iff_gt.mpr h, compare_gt_iff_gt.mpr ((hlt b a).mpr h)]

/-- Texts of plain characters are compared character by character. -/
theorem compareText_eq {s t : Text} (hs : ∀ c ∈ s, c.toNat < 0x10000)
    (ht : ∀ c ∈ t, c.toNat < 0x10000) : compareText s t = compare s t := by
  unfold compareText
  induction s generalizing t with
  | nil =>
    cases t with
    | nil => rfl
    | cons b t =>
      rw [List.flatMap_cons, utf16_of_lt (ht b List.mem_cons_self)]
      rfl
  | cons a s ih =>
    rw [List.flatMap_cons, utf16_of_lt (hs a List.mem_cons_self)]
    cases t with
    | nil => rfl
    | cons b t =>
      rw [List.flatMap_cons, utf16_of_lt (ht b List.mem_cons_self), List.singleton_append,
        List.singleton_append, List.compare_cons_cons, List.compare_cons_cons, compare_toNat,
        ih (fun c hc => hs c (List.mem_cons_of_mem a hc))
          (fun c hc => ht c (List.mem_cons_of_mem b hc))]

theorem toNat_lt_of_isIdentChar (h : isIdentChar c = true ∨ c = '.' ∨ c = '+') :
    c.toNat < 0x10000 := by
  rcases h with h | rfl | rfl
  · rcases isIdentChar_cases h with rfl | ⟨-, h⟩
    · decide
    · omega
  · decide
  · decide

theorem comparePre_tail (v w : SemVer) : comparePre v.tail w.tail =
    if v.tail = [] ∧ w.tail ≠ [] then .gt else if v.tail ≠ [] ∧ w.tail = [] then .lt
    else compare v.tail w.tail := by
  unfold comparePre
  rw [compareText_eq (fun c hc => toNat_lt_of_isIdentChar (char_of_mem_tail hc))
    (fun c hc => toNat_lt_of_isIdentChar (char_of_mem_tail hc))]

theorem compareText_self (s : Text) : compareText s s = .eq := by
  unfold compareText
  exact Std.ReflCmp.compare_self

theorem comparePre_self (s : Text) : comparePre s s = .eq := by
  unfold comparePre
  rw [if_neg (by simp), if_neg (by simp), compareText_self]

theorem comparePre_swap (s t : Text) : comparePre t s = (comparePre s t).swap := by
  have hswap : compareText t s = (compareText s t).swap := by
    unfold compareText
    exact Std.OrientedCmp.eq_swap
  unfold comparePre
  by_cases hs : s = [] <;> by_cases ht : t = [] <;> simp [hs, ht, hswap]
  exact compareText_self []

/-- Two tails are told apart unless they are the same. -/
theorem comparePre_tail_eq_iff {w : SemVer} : comparePre v.tail w.tail = .eq ↔ v.tail
    = w.tail := by
  constructor
  · rw [comparePre_tail]
    split_ifs with hv hw
    · rintro ⟨⟩
    · rintro ⟨⟩
    · exact eq_of_compareChars
  · intro h
    rw [h, comparePre_self]

/-! ### What follows the numbers -/

theorem preOrder_eq_iff {ys : List Ident} : preOrder xs ys = .eq ↔ xs = ys := by
  unfold preOrder
  split_ifs with hx hy
  · simp only [false_iff]
    rintro rfl
    exact hx.2 hx.1
  · simp only [false_iff]
    rintro rfl
    exact hy.1 hy.2
  · exact identsOrder_eq_iff

theorem isBuild_buildText (v : SemVer) : IsBuild v.buildText := by
  unfold SemVer.buildText
  split
  · exact .inl rfl
  · exact .inr ⟨_, rfl⟩

/-- Of versions of one prerelease the tails are the same as the builds are. -/
theorem tail_eq_iff {w : SemVer} (h : v.pre = w.pre) : v.tail = w.tail ↔ v.build = w.build := by
  unfold SemVer.tail
  rw [h]
  split
  · exact Iff.rfl
  unfold SemVer.buildText
  rw [List.append_cancel_left_eq]
  split_ifs with hv hw hw <;> simp_all

/-- A prerelease is below another one as a text where it is so by precedence, if their texts
agree. -/
theorem comparePre_lt_iff {w : SemVer} (hv : v.pre ≠ []) (hw : w.pre ≠ [])
    (h : identsOrder v.pre w.pre = .lt) :
    comparePre v.tail w.tail = .lt ↔ TextsAgree v.pre w.pre := by
  have hnv : v.tail ≠ [] := fun hnil => hv (tail_eq_nil_iff.mp hnil).1
  have hnw : w.tail ≠ [] := fun hnil => hw (tail_eq_nil_iff.mp hnil).1
  rw [comparePre_tail, if_neg (fun h => hnv h.1), if_neg (fun h => hnw h.2), SemVer.tail,
    SemVer.tail, if_neg hv, if_neg hw, compare_identsText hv hw h (isBuild_buildText v)]

/-- A prerelease is below a release as a text if the release has no build or one above it. -/
theorem comparePre_release {w : SemVer} (hv : v.pre ≠ []) (hw : w.pre = []) :
    comparePre v.tail w.tail = .lt ↔ (w.build ≠ [] → compare v.tail w.tail = .lt) := by
  have hnv : v.tail ≠ [] := fun hnil => hv (tail_eq_nil_iff.mp hnil).1
  rw [comparePre_tail, if_neg (fun h => hnv h.1)]
  by_cases hbuild : w.build = []
  · rw [if_pos ⟨hnv, tail_eq_nil_iff.mpr ⟨hw, hbuild⟩⟩]
    simp [hbuild]
  · rw [if_neg fun h => hbuild (tail_eq_nil_iff.mp h.2).2]
    simp [hbuild]

/-- The tails are compared as the prereleases are ordered exactly if they agree. -/
theorem comparePre_iff (v w : SemVer) :
    comparePre v.tail w.tail = preOrder v.pre w.pre ↔ TailsAgree v w := by
  have hflip : ∀ {o : Ordering}, o.swap = .lt ↔ o = .gt := by
    intro o
    cases o <;> decide
  unfold TailsAgree
  by_cases heq : v.pre = w.pre
  · rw [if_pos heq, preOrder_eq_iff.mpr heq, comparePre_tail_eq_iff, tail_eq_iff heq]
  rw [if_neg heq]
  by_cases hv : v.pre = []
  · -- the first one is the release
    have hw : w.pre ≠ [] := fun hw => heq (hv.trans hw.symm)
    have horder : preOrder v.pre w.pre = .gt := if_pos ⟨hv, hw⟩
    rw [if_pos hv, horder, ← hflip, ← comparePre_swap, comparePre_release hw hv]
  rw [if_neg hv]
  by_cases hw : w.pre = []
  · have horder : preOrder v.pre w.pre = .lt := by
      rw [preOrder, if_neg (fun h => hv h.1), if_pos ⟨hv, hw⟩]
    rw [if_pos hw, horder, comparePre_release hv hw]
  rw [if_neg hw]
  have horder : preOrder v.pre w.pre = identsOrder v.pre w.pre := by
    rw [preOrder, if_neg (fun h => hv h.1), if_neg (fun h => hw h.2)]
  rw [horder]
  cases ho : identsOrder v.pre w.pre with
  | lt => exact comparePre_lt_iff hv hw ho
  | eq => exact absurd (identsOrder_eq_iff.mp ho) heq
  | gt =>
    have hswap : identsOrder w.pre v.pre = .lt := by rw [identsOrder_swap v.pre w.pre, ho]; rfl
    rw [← hflip, ← comparePre_swap, comparePre_lt_iff hw hv hswap]
    exact ⟨TextsAgree.symm, TextsAgree.symm⟩

/-! ### The numbers -/

theorem toDouble_mono {m n : Nat} (h : m ≤ n) : toDouble m ≤ toDouble n := by
  have hmono := roundDouble_mono h
  unfold toDouble
  by_cases hn : roundDouble n < 2 ^ 1024
  · rw [if_pos hn, if_pos (hmono.trans_lt hn)]
    exact WithTop.coe_le_coe.mpr (Int.toNat_le_toNat hmono)
  · rw [if_neg hn]
    exact le_top

theorem compareDouble_self (x : WithTop Nat) : compareDouble x x = .eq :=
  compare_eq_iff_eq.mpr rfl

theorem compareDouble_of_lt {x y : WithTop Nat} (h : x < y) : compareDouble x y = .lt :=
  compare_lt_iff_lt.mpr h

theorem compareDouble_of_gt {x y : WithTop Nat} (h : y < x) : compareDouble x y = .gt :=
  compare_gt_iff_gt.mpr h

/-- Numbers that differ are compared as such exactly if their doubles differ, or what comes next
makes up for it. -/
theorem compare_then_iff {m n : Nat} (h : m ≠ n) (rest next : Ordering) :
    (compareDouble (toDouble m) (toDouble n)).then rest = (compare m n).then next ↔
      NumbersAgree m n rest := by
  unfold NumbersAgree
  have hthen : (compare m n).then next = compare m n := by
    cases hmn : compare m n with
    | lt => rfl
    | eq => exact absurd (compare_eq_iff_eq.mp hmn) h
    | gt => rfl
  rw [hthen]
  by_cases hd : toDouble m = toDouble n
  · rw [hd, compareDouble_self]
    simp
  refine iff_of_true ?_ fun heq => absurd heq hd
  rcases Nat.lt_or_gt_of_ne h with hlt | hgt
  · rw [compare_lt_iff_lt.mpr hlt, compareDouble_of_lt (lt_of_le_of_ne (toDouble_mono hlt.le) hd)]
    rfl
  · rw [compare_gt_iff_gt.mpr hgt,
      compareDouble_of_gt (lt_of_le_of_ne (toDouble_mono hgt.le) (Ne.symm hd))]
    rfl

theorem compare_then_self (n : Nat) (rest next : Ordering) :
    (compareDouble (toDouble n) (toDouble n)).then rest = (compare n n).then next ↔ rest
      = next := by
  rw [compareDouble_self, compare_eq_iff_eq.mpr rfl]
  rfl

/-- Versions are compared by their precedence exactly if they agree. -/
theorem compareVersions_text_iff (v w : SemVer) :
    compareVersions v.text w.text = some (v.precedence w) ↔ VersionsAgree v w := by
  have hcompare : compareVersions v.text w.text =
      some ((compareDouble (toDouble v.major) (toDouble w.major)).then <|
        (compareDouble (toDouble v.minor) (toDouble w.minor)).then <|
          (compareDouble (toDouble v.patch) (toDouble w.patch)).then
            (comparePre v.tail w.tail)) := by
    simp [compareVersions, parseVersion_text, ParsedVersion.compareTo, compareLex]
  rw [hcompare, Option.some_inj, SemVer.precedence]
  unfold VersionsAgree
  by_cases hmajor : v.major = w.major
  · rw [if_neg (not_not.mpr hmajor), hmajor, compare_then_self]
    by_cases hminor : v.minor = w.minor
    · rw [if_neg (not_not.mpr hminor), hminor, compare_then_self]
      by_cases hpatch : v.patch = w.patch
      · rw [if_neg (not_not.mpr hpatch), hpatch, compare_then_self, comparePre_iff]
      · rw [if_pos hpatch, compare_then_iff hpatch]
    · rw [if_pos hminor, compare_then_iff hminor]
  · rw [if_pos hmajor, compare_then_iff hmajor]

/-! ### A total preorder -/

instance : Std.TransCmp comparePre := by
  -- first by whether there is anything, and then by the units
  have hkey : comparePre = compareLex (compareOn List.isEmpty)
    (compareOn fun s => s.flatMap utf16) := by
    funext s t
    unfold comparePre compareLex compareOn
    cases s <;> cases t <;> rfl
  rw [hkey]
  infer_instance

instance : Std.TransCmp compareDouble := inferInstanceAs (Std.TransCmp WithTop.linearOrder.compare)

instance : Std.TransCmp ParsedVersion.compareTo := by
  have hdouble : ∀ number : ParsedVersion → WithTop Nat,
      Std.TransCmp fun A B => compareDouble (number A) (number B) := fun _ =>
    { eq_swap := Std.OrientedCmp.eq_swap
      isLE_trans := Std.TransCmp.isLE_trans }
  have hpre : Std.TransCmp fun A B : ParsedVersion => comparePre A.pre B.pre :=
    { eq_swap := fun {A B} => comparePre_swap B.pre A.pre
      isLE_trans := fun {A B C} hab hbc => by
        have htrans : ∀ {s t u : Text}, (comparePre s t).isLE → (comparePre t u).isLE →
            (comparePre s u).isLE := Std.TransCmp.isLE_trans
        exact htrans hab hbc }
  unfold ParsedVersion.compareTo
  infer_instance

/-- The one version is not after the other. -/
def NotAfter (s t : Text) : Prop := ∃ o, compareVersions s t = some o ∧ o.isLE = true

theorem compareVersions_eq_some {s t : Text} {o : Ordering} : compareVersions s t = some o ↔
    ∃ A B, parseVersion s = some A ∧ parseVersion t = some B ∧ A.compareTo B = o := by
  unfold compareVersions
  cases parseVersion s <;> cases parseVersion t <;> simp

theorem compareVersions_swap (s t : Text) :
    compareVersions t s = (compareVersions s t).map Ordering.swap := by
  have hswap : ∀ A B : ParsedVersion, B.compareTo A = (A.compareTo B).swap :=
    fun A B => Std.OrientedCmp.eq_swap
  unfold compareVersions
  cases parseVersion s with
  | none => cases parseVersion t <;> rfl
  | some A =>
    cases parseVersion t with
    | none => rfl
    | some B => exact congrArg some (hswap A B)

theorem NotAfter.trans {s t u : Text} (h : NotAfter s t) (h' : NotAfter t u) : NotAfter s u := by
  obtain ⟨o, ho, hle⟩ := h
  obtain ⟨o', ho', hle'⟩ := h'
  obtain ⟨A, B, hA, hB, rfl⟩ := compareVersions_eq_some.mp ho
  obtain ⟨B', C, hB', hC, rfl⟩ := compareVersions_eq_some.mp ho'
  cases hB.symm.trans hB'
  have htrans : ∀ {A B C : ParsedVersion}, (A.compareTo B).isLE → (B.compareTo C).isLE →
      (A.compareTo C).isLE := Std.TransCmp.isLE_trans
  exact ⟨_, compareVersions_eq_some.mpr ⟨A, C, hA, hC, rfl⟩, htrans hle hle'⟩

theorem notAfter_total {s t : Text} (h : (compareVersions s t).isSome = true) :
    NotAfter s t ∨ NotAfter t s := by
  obtain ⟨o, ho⟩ := Option.isSome_iff_exists.mp h
  have hswap := compareVersions_swap s t
  rw [ho] at hswap
  cases o with
  | lt | eq => exact .inl ⟨_, ho, rfl⟩
  | gt => exact .inr ⟨_, hswap, rfl⟩

/-! ### The two sides -/

/-- The client goes on. -/
def clientAccepts (c : HelloClient) (s : HelloServer) : Prop :=
  ∃ frame, performClientHandshake c s.hello = .ok frame

/-- The server goes on. -/
def serverAccepts (c : HelloClient) (s : HelloServer) : Prop :=
  ∃ frame, performServerHandshake s c.hello = .ok frame

theorem wireCompatible_comm (a b : Text) : wireCompatible a b = wireCompatible b a := by
  unfold wireCompatible
  exact decide_eq_decide.mpr eq_comm

/-- Both sides go on, or none does: on the same comparison. -/
theorem accepts_iff (c : HelloClient) (s : HelloServer) :
    clientAccepts c s ↔ serverAccepts c s := by
  unfold clientAccepts serverAccepts HelloClient.hello HelloServer.hello buildClientHello
    buildServerHello performClientHandshake performServerHandshake
  dsimp only
  rw [wireCompatible_comm s.wireVersion c.wireVersion]
  split
  · simp
  split
  · simp
  · simp
  · simp

/-- **The version gate.** Versions are compared by their precedence exactly if they agree; the
comparison is a total preorder of the texts that parse; and the two sides accept alike. -/
theorem version_gate (v w : SemVer) :
    (compareVersions v.text w.text = some (v.precedence w) ↔ VersionsAgree v w) ∧
      (∀ s t : Text, (compareVersions s t).isSome = true → NotAfter s t ∨ NotAfter t s) ∧
      (∀ s t u : Text, NotAfter s t → NotAfter t u → NotAfter s u) ∧
      ∀ (c : HelloClient) (s : HelloServer), clientAccepts c s ↔ serverAccepts c s :=
  ⟨compareVersions_text_iff v w, fun _ _ => notAfter_total, fun _ _ _ => NotAfter.trans, accepts_iff⟩

/-! ### The tenth candidate -/

/-- `1.0.0-rc.n` -/
def releaseCandidate (n : Nat) : SemVer where
  major := 1
  minor := 0
  patch := 0
  pre := [.name ⟨"rc".toList, by simp [isIdentChar], by simp⟩, .num n]
  build := []
  build_chars := by simp
  build_parts := by simp

/-- The tenth release candidate is taken for older than the ninth. -/
theorem rc_ten_below_rc_nine :
    ¬ ∀ v w : SemVer, compareVersions v.text w.text = some (v.precedence w) := by
  intro h
  exact absurd (h (releaseCandidate 10) (releaseCandidate 9)) (by decide +kernel)

end Axona
