import Axona.Library.Json
import Axona.Library.OrderedMap

/-! # JSON texts

Printing a JSON value without blanks, and reading a text with the grammar of JSON: blanks between
the tokens, both cases of the hexadecimal digits, every escape, and of two members with one key the
last. What is printed is read as the value it was printed from, whatever follows it. So are texts
with gaps, by a reader that allows them: then they tell the values they were printed from. -/

namespace Axona.Library

/-! ### Strings -/

def hexUnit (d : Nat) : UInt16 := if d < 10 then digitUnit d else (87 + d).toUInt16

def unitHex? (u : UInt16) : Option Nat :=
  let n := u.toNat
  if 48 ≤ n ∧ n ≤ 57 then some (n - 48)
  else if 97 ≤ n ∧ n ≤ 102 then some (n - 87)
  else if 65 ≤ n ∧ n ≤ 70 then some (n - 55)
  else none

theorem unitHex?_hexUnit {d : Nat} (h : d < 16) : unitHex? (hexUnit d) = some d := by
  decide +revert

/-- What stands behind the backslash for a unit that has a short escape. -/
def shortEscape? (u : UInt16) : Option UInt16 :=
  if u = 8 then some (unit 'b')
  else if u = 9 then some (unit 't')
  else if u = 10 then some (unit 'n')
  else if u = 12 then some (unit 'f')
  else if u = 13 then some (unit 'r')
  else if u = unit '"' then some (unit '"')
  else if u = unit '\\' then some (unit '\\')
  else none

/-- The unit that a short escape stands for. -/
def unescape? (u : UInt16) : Option UInt16 :=
  if u = unit 'b' then some 8
  else if u = unit 't' then some 9
  else if u = unit 'n' then some 10
  else if u = unit 'f' then some 12
  else if u = unit 'r' then some 13
  else if u = unit '"' ∨ u = unit '\\' ∨ u = unit '/' then some u
  else none

/-- A unit in a string, when it is in no pair. -/
def quoteUnit (u : UInt16) : Units :=
  match shortEscape? u with
  | some c => [unit '\\', c]
  | none =>
    if u < 32 || isHighSurrogate u || isLowSurrogate u then
      unit '\\' :: unit 'u' :: (fixedDigits 16 4 u.toNat).map hexUnit
    else [u]

/-- The inside of a string (`QuoteJSONString`): pairs stand as they are, single surrogates are
escaped. -/
def quoteUnits : Units → Units
  | [] => []
  | [u] => quoteUnit u
  | u :: v :: rest =>
    if isHighSurrogate u && isLowSurrogate v then u :: v :: quoteUnits rest
    else quoteUnit u ++ quoteUnits (v :: rest)

/-- A text as a string. -/
def quote (s : Units) : Units := unit '"' :: quoteUnits s ++ [unit '"']

/-- The string up to its closing mark, and what is behind it. -/
def readString : Units → Option (Units × Units)
  | [] => none
  | u :: us =>
    if u = unit '"' then some ([], us)
    else if u = unit '\\' then
      match us with
      | [] => none
      | e :: us =>
        if e = unit 'u' then
          match us with
          | a :: b :: c :: d :: us => do
            let digits ← [a, b, c, d].mapM unitHex?
            let (s, t) ← readString us
            some ((ofFixed 16 digits).toUInt16 :: s, t)
          | _ => none
        else do
          let c ← unescape? e
          let (s, t) ← readString us
          some (c :: s, t)
    else if u < 32 then none
    else do
      let (s, t) ← readString us
      some (u :: s, t)

theorem readString_mark (t : Units) : readString (unit '"' :: t) = some ([], t) := by
  rw [readString.eq_def]
  exact if_pos rfl

variable {u : UInt16}

theorem readString_cons (hmark : u ≠ unit '"') (hslash : u ≠ unit '\\') (hlow : ¬ u < 32)
    (t : Units) : readString (u :: t) = (readString t).map fun r => (u :: r.1, r.2) := by
  rw [readString.eq_def]
  simp only [if_neg hmark, if_neg hslash, if_neg hlow]
  cases readString t <;> rfl

theorem readString_escape {e c : UInt16} (he : unescape? e = some c) (hu : e ≠ unit 'u')
    (t : Units) :
    readString (unit '\\' :: e :: t) = (readString t).map fun r => (c :: r.1, r.2) := by
  have hmark : unit '\\' ≠ unit '"' := by decide
  rw [readString.eq_def]
  simp only [if_neg hmark, if_neg hu, he, if_true]
  cases readString t <;> rfl

theorem readString_hex (u : UInt16) (t : Units) :
    readString (unit '\\' :: unit 'u' :: ((fixedDigits 16 4 u.toNat).map hexUnit ++ t))
      = (readString t).map fun r => (u :: r.1, r.2) := by
  have hmark : unit '\\' ≠ unit '"' := by decide
  obtain ⟨a, b, c, d, hds⟩ : ∃ a b c d, fixedDigits 16 4 u.toNat = [a, b, c, d] := ⟨_, _, _, _, rfl⟩
  have hread : ([a, b, c, d].map hexUnit).mapM unitHex? = some [a, b, c, d] := by
    have hlt {x : Nat} (hx : x ∈ [a, b, c, d]) : unitHex? (hexUnit x) = some x :=
      unitHex?_hexUnit (lt_of_mem_fixedDigits (w := 4) (by decide) (hds ▸ hx))
    simp [hlt]
  have hnum : (ofFixed 16 [a, b, c, d]).toUInt16 = u := by
    rw [← hds, ofFixed_fixedDigits (by exact u.toNat_lt)]
    exact UInt16.ofNat_toNat
  rw [hds]
  show readString (unit '\\' :: unit 'u'
    :: hexUnit a :: hexUnit b :: hexUnit c :: hexUnit d :: t) = _
  rw [List.map_cons, List.map_cons, List.map_cons, List.map_cons, List.map_nil] at hread
  rw [readString.eq_def]
  simp only [if_neg hmark, if_true, hread]
  cases readString t with
  | none => rfl
  | some r => exact congrArg (fun u => some (u :: r.1, r.2)) hnum

theorem unescape?_shortEscape {c : UInt16} (h : shortEscape? u = some c) :
    unescape? c = some u ∧ c ≠ unit 'u' := by
  unfold shortEscape? at h
  split_ifs at h <;> (obtain rfl := Option.some.inj h; subst u; decide)

theorem readString_quoteUnit (u : UInt16) (t : Units) :
    readString (quoteUnit u ++ t) = (readString t).map fun r => (u :: r.1, r.2) := by
  unfold quoteUnit
  cases hshort : shortEscape? u with
  | some c =>
    obtain ⟨hc, hu⟩ := unescape?_shortEscape hshort
    exact readString_escape hc hu t
  | none =>
    dsimp only
    split
    · exact readString_hex u t
    next hplain =>
    rw [Bool.or_eq_true, Bool.or_eq_true, not_or, not_or, decide_eq_true_eq] at hplain
    apply readString_cons _ _ hplain.1.1
    all_goals
      rintro rfl
      revert hshort
      decide

theorem surrogate_plain (h : isHighSurrogate u = true ∨ isLowSurrogate u = true) :
    u ≠ unit '"' ∧ u ≠ unit '\\' ∧ ¬ u < 32 := by
  refine ⟨?_, ?_, fun hlt => ?_⟩
  · rintro rfl
    revert h
    decide
  · rintro rfl
    revert h
    decide
  · have hlt : u.toNat < 32 := hlt
    unfold isHighSurrogate isLowSurrogate at h
    simp only [Bool.and_eq_true, decide_eq_true_eq] at h
    have hge : 55296 ≤ u.toNat := by
      rcases h with ⟨h, -⟩ | ⟨h, -⟩
      · exact h
      · have : 56320 ≤ u.toNat := h
        omega
    omega

/-- **A string is read as the text it was printed from.** -/
theorem readString_quoteUnits (s t : Units) :
    readString (quoteUnits s ++ unit '"' :: t) = some (s, t) := by
  induction s using quoteUnits.induct with
  | case1 => exact readString_mark t
  | case2 u =>
    rw [quoteUnits, readString_quoteUnit, readString_mark]
    rfl
  | case3 u v rest hpair ih =>
    rw [Bool.and_eq_true] at hpair
    obtain ⟨hmark, hslash, hlow⟩ := surrogate_plain (.inl hpair.1)
    obtain ⟨hmark', hslash', hlow'⟩ := surrogate_plain (.inr hpair.2)
    rw [quoteUnits, if_pos (Bool.and_eq_true _ _ ▸ hpair)]
    show readString (u :: v :: (quoteUnits rest ++ unit '"' :: t)) = _
    rw [readString_cons hmark hslash hlow, readString_cons hmark' hslash' hlow', ih]
    rfl
  | case4 u v rest hpair ih =>
    rw [quoteUnits, if_neg hpair, List.append_assoc, readString_quoteUnit, ih]
    rfl

/-! ### Printing -/

def nullText : Units := asciiUnits ['n', 'u', 'l', 'l']

def trueText : Units := asciiUnits ['t', 'r', 'u', 'e']

def falseText : Units := asciiUnits ['f', 'a', 'l', 's', 'e']

/-- A double in text (`Number::toString`). -/
def Double.text : Double → Units
  | .nan => asciiUnits ['N', 'a', 'N']
  | .infinite neg =>
    (if neg then [unit '-'] else []) ++ asciiUnits ['I', 'n', 'f', 'i', 'n', 'i', 't', 'y']
  | .finite neg n => sizeText neg n

/-- Texts with commas between them. -/
def joinComma : List Units → Units
  | [] => []
  | [t] => t
  | t :: u :: ts => t ++ unit ',' :: joinComma (u :: ts)

/-- The text of an array of these texts. -/
def arrayText (ts : List Units) : Units := unit '[' :: joinComma ts ++ [unit ']']

def memberText (p : Units × Units) : Units := quote p.1 ++ unit ':' :: p.2

/-- The text of an object with these keys and texts. -/
def objectText (ps : List (Units × Units)) : Units :=
  unit '{' :: joinComma (ps.map memberText) ++ [unit '}']

namespace JsonValue

mutual

/-- A value in text. -/
def print : JsonValue → Units
  | .gap => []
  | .null => nullText
  | .bool true => trueText
  | .bool false => falseText
  | .num d => d.text
  | .str s => quote s
  | .arr items => arrayText (printItems items)
  | .obj members => objectText (printMembers members)

def printItems : List JsonValue → List Units
  | [] => []
  | j :: items => j.print :: printItems items

def printMembers : List (Units × JsonValue) → List (Units × Units)
  | [] => []
  | (k, j) :: members => (k, j.print) :: printMembers members

end

theorem printItems_eq (items : List JsonValue) : printItems items = items.map print := by
  induction items with
  | nil => rfl
  | cons j items ih => rw [printItems, ih, List.map_cons]

theorem printMembers_eq (members : List (Units × JsonValue)) :
    printMembers members = members.map fun p => (p.1, p.2.print) := by
  induction members with
  | nil => rfl
  | cons p members ih => rw [printMembers, ih, List.map_cons]

end JsonValue

/-! ### Reading -/

def isBlank (u : UInt16) : Bool := u == 32 || u == 9 || u == 10 || u == 13

def skipBlanks (t : Units) : Units := t.dropWhile isBlank

/-- What follows an element: whether there is another one. -/
def readNext (close : UInt16) (t : Units) : Option (Bool × Units) :=
  match skipBlanks t with
  | [] => none
  | u :: us =>
    if u = unit ',' then some (true, us) else if u = close then some (false, us) else none

section List

variable {α : Type}

/-- The elements up to the closing mark; the fuel is for as many. -/
def readList (elem : Units → Option (α × Units)) (close : UInt16) :
    Nat → Units → Option (List α × Units)
  | 0, _ => none
  | n + 1, t => do
    let (a, t) ← elem t
    let (more, t) ← readNext close t
    if more then (readList elem close n t).map fun r => (a :: r.1, r.2) else some ([a], t)

/-- Elements between an opening mark, which has been read, and a closing one; there may be none. -/
def readElements (elem : Units → Option (α × Units)) (close : UInt16) (t : Units) :
    Option (List α × Units) :=
  match skipBlanks t with
  | [] => none
  | u :: us => if u = close then some ([], us) else readList elem close (us.length + 1) (u :: us)

end List

/-- A key and the colon. -/
def readKey (t : Units) : Option (Units × Units) :=
  match skipBlanks t with
  | [] => none
  | u :: us =>
    if u = unit '"' then do
      let (k, t) ← readString us
      match skipBlanks t with
      | [] => none
      | u :: us => if u = unit ':' then some (k, us) else none
    else none

def readMember (value : Units → Option (JsonValue × Units)) (t : Units) :
    Option ((Units × JsonValue) × Units) := do
  let (k, t) ← readKey t
  let (j, t) ← value t
  some ((k, j), t)

/-- The members an object has when these are written one after the other. -/
def ofMembers (members : List (Units × JsonValue)) : List (Units × JsonValue) :=
  (members.foldl (fun m p => m.set p.1 p.2) (∅ : OrderedMap Units JsonValue)).entries

/-- One of the three words, or a number. -/
def readScalar (t : Units) : Option (JsonValue × Units) :=
  (nullText.isPrefixOf? t).map (fun r => (.null, r))
    <|> (trueText.isPrefixOf? t).map (fun r => (.bool true, r))
    <|> (falseText.isPrefixOf? t).map (fun r => (.bool false, r))
    <|> (readNumber t).map fun r => (.num r.1, r.2)

/-- A mark that may follow an element. -/
def endsElement (u : UInt16) : Bool := u == unit ',' || u == unit ']' || u == unit '}'

/-- A value, nested less than `depth` times; with `gaps` an element may be missing. -/
def readValue (gaps : Bool) : Nat → Units → Option (JsonValue × Units)
  | 0, _ => none
  | depth + 1, t =>
    match skipBlanks t with
    | [] => none
    | u :: us =>
      if u = unit '"' then (readString us).map fun r => (.str r.1, r.2)
      else if u = unit '[' then
        (readElements (readValue gaps depth) (unit ']') us).map fun r => (.arr r.1, r.2)
      else if u = unit '{' then
        (readElements (readMember (readValue gaps depth)) (unit '}') us).map fun r =>
          (.obj (ofMembers r.1), r.2)
      else if gaps && endsElement u then some (.gap, u :: us)
      else readScalar (u :: us)

/-- A text that is one value. A text is not nested deeper than it is long. -/
def parseText (gaps : Bool) (t : Units) : Option JsonValue := do
  let (j, rest) ← readValue gaps (t.length + 1) t
  if skipBlanks rest = [] then some j else none

/-- **`JSON.parse`.** -/
def parseJson (t : Units) : Option JsonValue := parseText false t

/-! ### What ends a value -/

/-- Nothing, or what may follow an element. -/
def EndsValue (rest : Units) : Prop := ∀ u ∈ rest.head?, endsElement u = true

theorem endsValue_nil : EndsValue [] := by
  rintro u ⟨⟩

theorem endsValue_cons (h : endsElement u = true) (us : Units) : EndsValue (u :: us) := by
  rintro v ⟨⟩
  exact h

theorem endsElement_iff : endsElement u = true ↔ u = unit ',' ∨ u = unit ']' ∨ u = unit '}' := by
  simp [endsElement, or_assoc]

theorem EndsValue.endsNumber {rest : Units} (h : EndsValue rest) : EndsNumber rest := by
  intro u hu
  rcases endsElement_iff.mp (h u hu) with rfl | rfl | rfl <;> decide

theorem skipBlanks_cons (h : isBlank u = false) (us : Units) : skipBlanks (u :: us) = u :: us := by
  unfold skipBlanks
  rw [List.dropWhile_cons, if_neg (by rw [h]; exact Bool.false_ne_true)]

/-- A mark that ends arrays or objects. -/
structure IsClose (close : UInt16) : Prop where
  blank : isBlank close = false
  comma : close ≠ unit ','
  ends : endsElement close = true

theorem isClose_array : IsClose (unit ']') := by constructor <;> decide

theorem isClose_object : IsClose (unit '}') := by constructor <;> decide

theorem IsClose.readNext {close : UInt16} (h : IsClose close) (t : Units) :
    readNext close (close :: t) = some (false, t) := by
  unfold Library.readNext
  rw [skipBlanks_cons h.blank]
  simp only [if_neg h.comma, if_true]

/-! ### Lists of elements -/

section List

variable {α : Type} {elem : Units → Option (α × Units)} {close : UInt16}

variable {ts : List Units}

/-- The length of a text is at least that of each part. -/
theorem length_le_joinComma {t : Units} (h : t ∈ ts) : t.length ≤ (joinComma ts).length := by
  induction ts using joinComma.induct with
  | case1 => cases h
  | case2 u => rw [List.mem_singleton.mp h]; exact le_refl _
  | case3 u v ts ih =>
    rw [joinComma, List.length_append, List.length_cons]
    rcases List.mem_cons.mp h with rfl | h
    · exact Nat.le_add_right _ _
    · exact (ih h).trans (by omega)

theorem length_le_length_joinComma (ts : List Units) : ts.length ≤ (joinComma ts).length + 1 := by
  induction ts using joinComma.induct with
  | case1 => exact Nat.zero_le _
  | case2 u => exact Nat.le_add_left _ _
  | case3 u v ts ih =>
    simp only [joinComma, List.length_append, List.length_cons] at ih ⊢
    omega

/-- Where every element is read as it should be, so is the list. -/
theorem readList_join (hclose : IsClose close) {as : List α}
    (h : List.Forall₂ (fun t a => ∀ u us, endsElement u = true →
      elem (t ++ u :: us) = some (a, u :: us)) ts as) (hne : ts ≠ []) {n : Nat}
    (hn : ts.length ≤ n) (rest : Units) :
    readList elem close n (joinComma ts ++ close :: rest) = some (as, rest) := by
  induction ts using joinComma.induct generalizing as n with
  | case1 => exact absurd rfl hne
  | case2 t =>
    obtain ⟨n, rfl⟩ : ∃ m, n = m + 1 := ⟨n - 1, (Nat.sub_add_cancel hn).symm⟩
    obtain ⟨a, _, ha, hnil, rfl⟩ := List.forall₂_cons_left_iff.mp h
    cases hnil
    rw [joinComma, readList, ha _ _ hclose.ends]
    simp [hclose.readNext]
  | case3 t u ts ih =>
    obtain ⟨n, rfl⟩ : ∃ m, n = m + 1 := ⟨n - 1, by simp only [List.length_cons] at hn; omega⟩
    obtain ⟨a, as, ha, has, rfl⟩ := List.forall₂_cons_left_iff.mp h
    have hrest := ih has (List.cons_ne_nil _ _) (Nat.le_of_succ_le_succ hn)
    have hnext (us : Units) : readNext close (unit ',' :: us) = some (true, us) := rfl
    rw [joinComma, List.append_assoc, readList, List.cons_append, ha _ _ (by decide)]
    simp [hnext, hrest]

theorem readElements_nil (hclose : IsClose close) (rest : Units) :
    readElements elem close (close :: rest) = some ([], rest) := by
  unfold readElements
  rw [skipBlanks_cons hclose.blank]
  exact if_pos rfl

/-- Elements of which the first does not look like a closing mark. -/
theorem readElements_cons {u : UInt16} {us : Units} (hblank : isBlank u = false) (hne : u ≠ close) :
    readElements elem close (u :: us) = readList elem close (us.length + 1) (u :: us) := by
  unfold readElements
  rw [skipBlanks_cons hblank]
  exact if_neg hne

/-- Where no element begins like a blank or a closing mark, neither do all of them, unless there is
one and it is empty. -/
theorem joinComma_eq_cons (hclose : IsClose close)
    (hbegin : ∀ t ∈ ts, ∀ u ∈ t.head?, isBlank u = false ∧ u ≠ close) (hne : ts ≠ [])
    (hgap : ts ≠ [[]]) : ∃ u us, joinComma ts = u :: us ∧ isBlank u = false ∧ u ≠ close := by
  obtain ⟨t, ts, rfl⟩ := List.exists_cons_of_ne_nil hne
  cases t with
  | nil =>
    cases ts with
    | nil => exact absurd rfl hgap
    | cons t ts => exact ⟨unit ',', joinComma (t :: ts), rfl, by decide, hclose.comma.symm⟩
  | cons u us =>
    have hu := hbegin _ List.mem_cons_self u rfl
    cases ts with
    | nil => exact ⟨u, us, rfl, hu⟩
    | cons t ts => exact ⟨u, us ++ unit ',' :: joinComma (t :: ts), rfl, hu⟩

/-- **Where every element is read as it should be, so are all.** -/
theorem readElements_join (hclose : IsClose close) {as : List α}
    (h : List.Forall₂ (fun t a => ∀ u us, endsElement u = true →
      elem (t ++ u :: us) = some (a, u :: us)) ts as)
    (hbegin : ∀ t ∈ ts, ∀ u ∈ t.head?, isBlank u = false ∧ u ≠ close) (hgap : ts ≠ [[]])
    (rest : Units) : readElements elem close (joinComma ts ++ close :: rest) = some (as, rest) := by
  by_cases hne : ts = []
  · subst hne
    cases h
    exact readElements_nil hclose rest
  have hlen := length_le_length_joinComma ts
  obtain ⟨u, us, hjoin, hblank, hmark⟩ := joinComma_eq_cons hclose hbegin hne hgap
  have hread := readList_join (n := (us ++ close :: rest).length + 1) hclose h hne (by
    simp only [hjoin, List.length_cons, List.length_append] at hlen ⊢
    omega) rest
  rw [hjoin, List.cons_append] at hread ⊢
  rw [readElements_cons hblank hmark, hread]

end List

/-! ### Members -/

theorem readKey_quote (k t : Units) : readKey (quote k ++ unit ':' :: t) = some (k, t) := by
  have hquote : quote k ++ unit ':' :: t
      = unit '"' :: (quoteUnits k ++ unit '"' :: unit ':' :: t) := by
    simp [quote]
  rw [hquote, readKey, skipBlanks_cons (by decide)]
  simp only [if_true, readString_quoteUnits, Option.bind_eq_bind, Option.bind_some]
  rw [skipBlanks_cons (by decide)]
  rfl

theorem readMember_memberText (value : Units → Option (JsonValue × Units)) (p : Units × Units)
    (rest : Units) : readMember value (memberText p ++ rest)
      = (value (p.2 ++ rest)).map fun r => ((p.1, r.1), r.2) := by
  have htext : memberText p ++ rest = quote p.1 ++ unit ':' :: (p.2 ++ rest) := by
    simp [memberText]
  rw [htext, readMember, readKey_quote]
  simp only [Option.bind_eq_bind, Option.bind_some]
  cases value (p.2 ++ rest) <;> rfl

theorem entries_foldl_set {m : OrderedMap Units JsonValue} {members : List (Units × JsonValue)}
    (h : (m.entries ++ members).Pairwise fun p q => p.1 ≠ q.1) :
    (members.foldl (fun m p => m.set p.1 p.2) m).entries = m.entries ++ members := by
  induction members generalizing m with
  | nil => exact (List.append_nil _).symm
  | cons p members ih =>
    have hnew : OrderedMap.find p.1 m.entries = none := by
      rw [OrderedMap.find_eq_none_iff]
      intro hmem
      obtain ⟨q, hq, hkey⟩ := List.mem_map.mp hmem
      exact (List.pairwise_append.mp h).2.2 q hq p List.mem_cons_self hkey
    have hset : (m.set p.1 p.2).entries = m.entries ++ [p] := by
      unfold OrderedMap.set
      rw [dif_pos hnew]
    rw [List.foldl_cons, ih (by rw [hset, List.append_assoc]; exact h), hset, List.append_assoc]
    rfl

/-- Members with distinct keys are those of the object. -/
theorem ofMembers_eq {members : List (Units × JsonValue)} (h : (members.map Prod.fst).Nodup) :
    ofMembers members = members :=
  entries_foldl_set (m := ∅) (List.pairwise_map.mp h)

/-! ### What is printed is read -/

/-- Beginnings of values. -/
structure BeginsValue (u : UInt16) : Prop where
  blank : isBlank u = false
  not_ends : endsElement u = false

/-- The first unit of a number. -/
def BeginsNumber (u : UInt16) : Prop := u = unit '-' ∨ ∃ c, c < 10 ∧ u = digitUnit c

theorem BeginsNumber.plain (h : BeginsNumber u) :
    BeginsValue u ∧ u ≠ unit '"' ∧ u ≠ unit '[' ∧ u ≠ unit '{' ∧ u ≠ unit 'n' ∧ u ≠ unit 't'
      ∧ u ≠ unit 'f' := by
  have hdigit : ∀ c < 10, (isBlank (digitUnit c) = false ∧ endsElement (digitUnit c) = false)
      ∧ digitUnit c ≠ unit '"' ∧ digitUnit c ≠ unit '[' ∧ digitUnit c ≠ unit '{'
      ∧ digitUnit c ≠ unit 'n' ∧ digitUnit c ≠ unit 't' ∧ digitUnit c ≠ unit 'f' := by decide
  rcases h with rfl | ⟨c, hc, rfl⟩
  · exact ⟨⟨by decide, by decide⟩, by decide⟩
  · obtain ⟨⟨hb, he⟩, hrest⟩ := hdigit c hc
    exact ⟨⟨hb, he⟩, hrest⟩

theorem sizeText_eq_cons (neg : Bool) (n : Magnitude) :
    ∃ u us, sizeText neg n = u :: us ∧ BeginsNumber u := by
  unfold sizeText
  split
  · exact ⟨unit '0', [], rfl, .inr ⟨0, by decide, by decide⟩⟩
  next h0 =>
  have hden := denotes_shortest (Nat.pos_of_ne_zero h0) n.2
  obtain ⟨c, t, ht, hc⟩ := hden.written_numeral.text_eq_cons
  rw [ht]
  cases neg with
  | true => exact ⟨unit '-', digitUnit c :: t, rfl, .inl rfl⟩
  | false => exact ⟨digitUnit c, t, rfl, .inr ⟨c, hc, rfl⟩⟩

theorem readScalar_number (h : BeginsNumber u) (us : Units) :
    readScalar (u :: us) = (readNumber (u :: us)).map fun r => (.num r.1, r.2) := by
  obtain ⟨-, -, -, -, hn, ht, hf⟩ := h.plain
  have hprefix {w : UInt16} (ws : Units) (hw : u ≠ w) : (w :: ws).isPrefixOf? (u :: us) = none := by
    rw [List.isPrefixOf?, if_neg]
    rw [beq_iff_eq]
    exact hw.symm
  have hnull : nullText.isPrefixOf? (u :: us) = none := hprefix _ hn
  have htrue : trueText.isPrefixOf? (u :: us) = none := hprefix _ ht
  have hfalse : falseText.isPrefixOf? (u :: us) = none := hprefix _ hf
  unfold readScalar
  rw [hnull, htrue, hfalse]
  rfl

theorem isPrefixOf?_append (word rest : Units) : word.isPrefixOf? (word ++ rest) = some rest := by
  induction word with
  | nil => rfl
  | cons u word ih => rw [List.cons_append, List.isPrefixOf?, if_pos (beq_self_eq_true u), ih]

section Values

variable (gaps : Bool) (depth : Nat) (us : Units)

theorem readValue_scalar {u : UInt16} (h : BeginsValue u) (hstr : u ≠ unit '"')
    (harr : u ≠ unit '[') (hobj : u ≠ unit '{') :
    readValue gaps (depth + 1) (u :: us) = readScalar (u :: us) := by
  rw [readValue, skipBlanks_cons h.blank]
  simp [hstr, harr, hobj, h.not_ends]

theorem readValue_string : readValue gaps (depth + 1) (unit '"' :: us)
      = (readString us).map fun r => (.str r.1, r.2) := by
  rw [readValue, skipBlanks_cons (by decide)]
  exact if_pos rfl

theorem readValue_array : readValue gaps (depth + 1) (unit '[' :: us)
      = (readElements (readValue gaps depth) (unit ']') us).map fun r => (.arr r.1, r.2) := by
  have hstr : unit '[' ≠ unit '"' := by decide
  rw [readValue, skipBlanks_cons (by decide)]
  simp only [if_neg hstr, if_true]

theorem readValue_object : readValue gaps (depth + 1) (unit '{' :: us)
      = (readElements (readMember (readValue gaps depth)) (unit '}') us).map fun r =>
          (.obj (ofMembers r.1), r.2) := by
  have hstr : unit '{' ≠ unit '"' := by decide
  have harr : unit '{' ≠ unit '[' := by decide
  rw [readValue, skipBlanks_cons (by decide)]
  simp only [if_neg hstr, if_neg harr, if_true]

/-- Where an element should be, a mark that ends it is a gap. -/
theorem readValue_gap {u : UInt16} (h : endsElement u = true) :
    readValue true (depth + 1) (u :: us) = some (.gap, u :: us) := by
  have hplain : isBlank u = false ∧ u ≠ unit '"' ∧ u ≠ unit '[' ∧ u ≠ unit '{' := by
    rcases endsElement_iff.mp h with rfl | rfl | rfl <;> decide
  rw [readValue, skipBlanks_cons hplain.1]
  simp [hplain, h]

end Values

namespace JsonValue

variable {j : JsonValue}

theorem print_eq_cons {g : Bool} (hj : j.Normal g) (hne : j ≠ .gap) :
    ∃ u us, j.print = u :: us ∧ BeginsValue u := by
  have hplain {u : UInt16} {us : Units} (h : j.print = u :: us) (hb : isBlank u = false)
      (he : endsElement u = false) : ∃ u us, j.print = u :: us ∧ BeginsValue u :=
    ⟨u, us, h, hb, he⟩
  cases j with
  | gap => exact absurd rfl hne
  | null | str s | arr items | obj members => exact hplain rfl (by decide) (by decide)
  | bool b => cases b <;> exact hplain rfl (by decide) (by decide)
  | num d =>
    obtain ⟨neg, n, rfl⟩ := hj
    obtain ⟨u, us, h, hu⟩ := sizeText_eq_cons (neg && n.1 != 0) n
    exact ⟨u, us, h, hu.plain.1⟩

theorem readScalar_null (rest : Units) : readScalar (nullText ++ rest) = some (.null, rest) := by
  unfold readScalar
  rw [isPrefixOf?_append]
  rfl

theorem readScalar_true (rest : Units) :
    readScalar (trueText ++ rest) = some (.bool true, rest) := by
  have hnull : nullText.isPrefixOf? (trueText ++ rest) = none := rfl
  unfold readScalar
  rw [hnull, isPrefixOf?_append]
  rfl

theorem readScalar_false (rest : Units) :
    readScalar (falseText ++ rest) = some (.bool false, rest) := by
  have hnull : nullText.isPrefixOf? (falseText ++ rest) = none := rfl
  have htrue : trueText.isPrefixOf? (falseText ++ rest) = none := rfl
  unfold readScalar
  rw [hnull, htrue, isPrefixOf?_append]
  rfl

section

variable {g : Bool} (hj : j.Normal g)
include hj

/-- Texts of values begin like values. -/
theorem begins_print {u : UInt16} (hu : u ∈ j.print.head?) :
    BeginsValue u := by
  have hne : j ≠ .gap := by
    rintro rfl
    cases hu
  obtain ⟨v, us, h, hv⟩ := print_eq_cons hj hne
  rw [h] at hu
  cases hu
  exact hv

/-- Only a gap leaves nothing in the text. -/
theorem eq_gap_of_print (h : j.print = []) : j = .gap := by
  by_contra hne
  obtain ⟨u, us, hcons, -⟩ := print_eq_cons hj hne
  cases h.symm.trans hcons

/-- **A printed value is read as what it was, whatever follows it**; a gap is where something
follows. -/
theorem readValue_print {depth : Nat}
    (hdepth : j.print.length < depth) {rest : Units} (hrest : EndsValue rest)
    (hgap : j = .gap → rest ≠ []) : readValue g depth (j.print ++ rest) = some (j, rest) := by
  obtain ⟨depth, rfl⟩ : ∃ d, depth = d + 1 := ⟨depth - 1, by omega⟩
  induction j using ind generalizing depth rest with
  | gap =>
    obtain rfl : g = true := hj
    obtain ⟨u, us, rfl⟩ := List.exists_cons_of_ne_nil (hgap rfl)
    exact readValue_gap depth us (hrest u rfl)
  | null =>
    rw [← readScalar_null]
    exact readValue_scalar g depth _ ⟨by decide, by decide⟩ (by decide) (by decide) (by decide)
  | bool b =>
    cases b with
    | true =>
      rw [← readScalar_true]
      exact readValue_scalar g depth _ ⟨by decide, by decide⟩ (by decide) (by decide) (by decide)
    | false =>
      rw [← readScalar_false]
      exact readValue_scalar g depth _ ⟨by decide, by decide⟩ (by decide) (by decide) (by decide)
  | num d =>
    obtain ⟨neg, n, rfl⟩ := hj
    obtain ⟨u, us, htext, hu⟩ := sizeText_eq_cons (neg && n.1 != 0) n
    have hread := readNumber_sizeText (neg && n.1 != 0) n hrest.endsNumber
    obtain ⟨hbegin, hstr, harr, hobj, -⟩ := hu.plain
    show readValue g (depth + 1) (sizeText (neg && n.1 != 0) n ++ rest) = _
    rw [htext] at hread ⊢
    rw [List.cons_append, readValue_scalar g depth _ hbegin hstr harr hobj, readScalar_number hu,
      ← List.cons_append, hread]
    simp [Double.printed]
  | str s =>
    have htext : (str s).print ++ rest = unit '"' :: (quoteUnits s ++ unit '"' :: rest) := by
      simp [print, quote]
    rw [htext, readValue_string, readString_quoteUnits]
    rfl
  | arr items ih =>
    rw [Normal, normalItems_iff] at hj
    have htext : (arr items).print ++ rest
        = unit '[' :: (joinComma (items.map print) ++ unit ']' :: rest) := by
      simp [print, arrayText, printItems_eq]
    have hlen : (joinComma (items.map print)).length + 2 = (arr items).print.length := by
      simp [print, arrayText, printItems_eq]
    have helems : List.Forall₂ (fun t j => ∀ u us, endsElement u = true →
        readValue g depth (t ++ u :: us) = some (j, u :: us)) (items.map print) items := by
      rw [List.forall₂_map_left_iff, List.forall₂_same]
      intro i hi u us hu
      have hle := length_le_joinComma (List.mem_map_of_mem (f := print) hi)
      obtain ⟨depth, rfl⟩ : ∃ d, depth = d + 1 := ⟨depth - 1, by omega⟩
      exact ih i hi (hj.2 i hi) (endsValue_cons hu us) (fun _ => List.cons_ne_nil _ _) depth
        (by omega)
    rw [htext, readValue_array, readElements_join isClose_array helems]
    · rfl
    · rintro t ht u hu
      obtain ⟨i, hi, rfl⟩ := List.mem_map.mp ht
      have hbegin := begins_print (hj.2 i hi) hu
      refine ⟨hbegin.blank, ?_⟩
      rintro rfl
      cases hbegin.not_ends
    · intro hnil
      obtain ⟨i, hitems, hi⟩ := List.map_eq_singleton_iff.mp hnil
      subst hitems
      exact hj.1 (congrArg (fun i => [i]) (eq_gap_of_print (hj.2 i List.mem_cons_self) hi))
  | obj members ih =>
    rw [Normal, normalMembers_iff] at hj
    let texts := members.map fun p => memberText (p.1, p.2.print)
    have htext : (obj members).print ++ rest
        = unit '{' :: (joinComma texts ++ unit '}' :: rest) := by
      simp [print, objectText, printMembers_eq, texts, Function.comp_def]
    have hlen : (joinComma texts).length + 2 = (obj members).print.length := by
      simp [print, objectText, printMembers_eq, texts, Function.comp_def]
    have helems : List.Forall₂ (fun t p => ∀ u us, endsElement u = true →
        readMember (readValue g depth) (t ++ u :: us) = some (p, u :: us)) texts members := by
      rw [List.forall₂_map_left_iff, List.forall₂_same]
      intro p hp u us hu
      have hle : (memberText (p.1, p.2.print)).length ≤ (joinComma texts).length :=
        length_le_joinComma (List.mem_map_of_mem (f := fun p => memberText (p.1, p.2.print)) hp)
      have hmember : (memberText (p.1, p.2.print)).length
          = (quote p.1).length + (p.2.print.length + 1) := by simp [memberText]
      obtain ⟨depth, rfl⟩ : ∃ d, depth = d + 1 := ⟨depth - 1, by omega⟩
      rw [readMember_memberText, ih p hp (hj.2 p hp) (endsValue_cons hu us)
        (fun _ => List.cons_ne_nil _ _) depth (by omega)]
      rfl
    rw [htext, readValue_object, readElements_join isClose_object helems]
    · rw [Option.map_some, ofMembers_eq hj.1]
    · rintro t ht u hu
      obtain ⟨p, -, rfl⟩ := List.mem_map.mp ht
      obtain rfl : unit '"' = u := Option.some.inj hu
      decide
    · intro hnil
      obtain ⟨p, -, hp⟩ := List.map_eq_singleton_iff.mp hnil
      cases hp

/-- **What is printed is parsed as what it was.** -/
theorem parseText_print (hgap : j ≠ .gap) :
    parseText g j.print = some j := by
  have hread := readValue_print hj (Nat.lt_succ_self _) endsValue_nil fun h => absurd h hgap
  rw [List.append_nil] at hread
  unfold parseText
  rw [hread]
  rfl

end

theorem parseJson_print (hj : j.Normal false) : parseJson j.print = some j :=
  parseText_print hj (by rintro rfl; cases hj)

/-- A text is that of one value. -/
theorem print_inj {i : JsonValue} (hj : j.Normal true) (hi : i.Normal true) (hjgap : j ≠ .gap)
    (higap : i ≠ .gap) (h : j.print = i.print) : j = i := by
  have hread := parseText_print hj hjgap
  rw [h, parseText_print hi higap] at hread
  exact (Option.some.inj hread).symm

end JsonValue

end Axona.Library
