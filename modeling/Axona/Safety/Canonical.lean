import Axona.Library.Fallible
import Axona.Pubsub.Canonical

/-! # What survives the wire

The canonical text of a value is that of what the value itself says, with its keys in order and with
gaps for its holes; the canonical text of what was parsed is that of what `JSON.stringify` printed.
A text says one thing only. So the two agree exactly on the values of which `JSON.stringify` prints
what they themselves say. -/

namespace Axona

open Library
open JsonValue (sortMembers sortedItems sortedMembers)

namespace RawValue

/-! ### Values part by part -/

/-- What holds of a value when it holds of its parts holds of all values. -/
@[elab_as_elim] theorem ind {motive : RawValue → Prop} (undefined : motive .undefined)
    (null : motive .null) (symbol : motive .symbol) (scalar : ∀ s, motive (.scalar s))
    (unreadable : motive .unreadable)
    (function : ∀ toJSON, (∀ r ∈ toJSON, motive r) → motive (.function toJSON))
    (array : ∀ items toJSON, (∀ i ∈ items, ∀ v ∈ i, motive v) → (∀ r ∈ toJSON, motive r) →
      motive (.array items toJSON))
    (object : ∀ members boxed toJSON, (∀ p ∈ members, motive p.2) → (∀ r ∈ toJSON, motive r) →
      motive (.object members boxed toJSON)) (v : RawValue) : motive v :=
  @RawValue.rec motive (fun i => ∀ v ∈ i, motive v) (fun items => ∀ i ∈ items, ∀ v ∈ i, motive v)
    (fun members => ∀ p ∈ members, motive p.2) (fun p => motive p.2) undefined null symbol scalar
    unreadable function array object (by rintro v ⟨⟩)
    (fun v hv w hw => by obtain rfl := Option.some.inj hw; exact hv) (List.forall_mem_nil _)
    (fun _ _ hi hitems => List.forall_mem_cons.mpr ⟨hi, hitems⟩) (List.forall_mem_nil _)
    (fun _ _ hp hmembers => List.forall_mem_cons.mpr ⟨hp, hmembers⟩) (fun _ _ hv => hv) v

theorem distinctItem_iff {i : Option RawValue} : DistinctItem i ↔ ∀ v ∈ i, v.Distinct := by
  cases i <;> simp [DistinctItem]

variable {items : List (Option RawValue)}

theorem distinctItems_iff : DistinctItems items ↔ ∀ i ∈ items, ∀ v ∈ i, v.Distinct := by
  induction items with
  | nil => simp [DistinctItems]
  | cons i items ih => rw [DistinctItems, ih, List.forall_mem_cons, distinctItem_iff]

variable {members : List (Units × RawValue)}

theorem distinctMembers_iff : DistinctMembers members ↔ ∀ p ∈ members, p.2.Distinct := by
  induction members with
  | nil => simp [DistinctMembers]
  | cons p members ih => rw [DistinctMembers, ih, List.forall_mem_cons]

/-! ### What is printed -/

section Normal

variable {g : Bool}

theorem normal_doubleJson (d : Double) : (doubleJson d).Normal g ∧ doubleJson d ≠ .gap := by
  cases d with
  | nan | infinite neg => exact ⟨trivial, by rintro ⟨⟩⟩
  | finite neg n => exact ⟨⟨neg, n, rfl⟩, by rintro ⟨⟩⟩

variable {j : JsonValue}

theorem normal_scalarJson {s : Scalar} (h : s.json = .ok j) :
    j.Normal g ∧ j ≠ .gap := by
  cases s with
  | bool b | string s => cases h; exact ⟨trivial, by rintro ⟨⟩⟩
  | number d => cases h; exact normal_doubleJson d
  | bigint => cases h

theorem normal_getD {o : Option JsonValue} (h : ∀ j ∈ o, j.Normal g ∧ j ≠ .gap) :
    (o.getD .null).Normal g ∧ o.getD .null ≠ .gap := by
  cases o with
  | none => exact ⟨trivial, by rintro ⟨⟩⟩
  | some j => exact h j rfl

/-- An array of values is not one gap. -/
theorem normal_arr {js : List JsonValue} (h : ∀ j ∈ js, j.Normal g ∧ j ≠ .gap) :
    (JsonValue.arr js).Normal g := by
  refine ⟨?_, JsonValue.normalItems_iff.mpr fun j hj => (h j hj).1⟩
  rintro rfl
  exact (h _ List.mem_cons_self).2 rfl

/-- The result of the `toJSON` method. -/
def toJSON : RawValue → Option RawValue
  | .function toJSON => toJSON
  | .array _ toJSON => toJSON
  | .object _ _ toJSON => toJSON
  | _ => none

theorem json_false (v : RawValue) : v.json false = (v.toJSON.getD v).json true := by
  cases v with
  | function toJSON | array items toJSON | object members boxed toJSON => cases toJSON <;> rfl
  | _ => rfl

/-- What the items are printed as. -/
theorem normal_of_itemsJson {items : List (Option RawValue)} {js : List JsonValue}
    (ih : ∀ i ∈ items, ∀ v ∈ i, ∀ j, v.json false = .ok (some j) → j.Normal g ∧ j ≠ .gap)
    (h : itemsJson items = .ok js) : ∀ j ∈ js, j.Normal g ∧ j ≠ .gap := by
  induction items generalizing js with
  | nil =>
    cases h
    exact List.forall_mem_nil _
  | cons i items ihitems =>
    rw [List.forall_mem_cons] at ih
    cases i with
    | none =>
      obtain ⟨js, hjs, h⟩ := bind_eq_ok.mp h
      cases h
      exact List.forall_mem_cons.mpr ⟨⟨trivial, by rintro ⟨⟩⟩, ihitems ih.2 hjs⟩
    | some v =>
      obtain ⟨o, ho, h⟩ := bind_eq_ok.mp h
      obtain ⟨js, hjs, h⟩ := bind_eq_ok.mp h
      cases h
      refine List.forall_mem_cons.mpr ⟨normal_getD fun j hj => ?_, ihitems ih.2 hjs⟩
      obtain rfl := hj
      exact ih.1 v rfl j ho

/-- What the members are printed as. -/
theorem normal_of_membersJson {members : List (Units × RawValue)} {js : List (Units × JsonValue)}
    (ih : ∀ p ∈ members, ∀ j, p.2.json false = .ok (some j) → j.Normal g)
    (h : membersJson members = .ok js) :
    JsonValue.NormalMembers g js ∧ (js.map Prod.fst).Sublist (members.map Prod.fst) := by
  induction members generalizing js with
  | nil =>
    cases h
    exact ⟨trivial, .slnil⟩
  | cons p members ihmembers =>
    rw [List.forall_mem_cons] at ih
    obtain ⟨o, ho, h⟩ := bind_eq_ok.mp h
    obtain ⟨js, hjs, h⟩ := bind_eq_ok.mp h
    cases h
    obtain ⟨hnormal, hkeys⟩ := ihmembers ih.2 hjs
    cases o with
    | none => exact ⟨hnormal, hkeys.cons _⟩
    | some j => exact ⟨⟨ih.1 j ho, hnormal⟩, hkeys.cons_cons _⟩

theorem normal_of_bare {v : RawValue}
    (hbare : ∀ j, v.json true = .ok (some j) → j.Normal g ∧ j ≠ .gap)
    (ih : ∀ r ∈ v.toJSON, ∀ j, r.json true = .ok (some j) → j.Normal g ∧ j ≠ .gap) {asked : Bool}
    (h : v.json asked = .ok (some j)) : j.Normal g ∧ j ≠ .gap := by
  cases asked with
  | true => exact hbare j h
  | false =>
    rw [json_false] at h
    cases hr : v.toJSON with
    | none => rw [hr] at h; exact hbare j h
    | some r => rw [hr] at h; exact ih r hr j h

/-- **What is printed is normal.** -/
theorem normal_json {v : RawValue} (hv : v.Distinct) {asked : Bool}
    (h : v.json asked = .ok (some j)) : j.Normal g ∧ j ≠ .gap := by
  induction v using ind generalizing asked j with
  | undefined | symbol | unreadable => cases h
  | null => cases h; exact ⟨trivial, by rintro ⟨⟩⟩
  | scalar s =>
    obtain ⟨j', hj', heq⟩ := map_eq_ok.mp h
    cases heq
    exact normal_scalarJson hj'
  | function toJSON ih =>
    rw [Distinct, distinctItem_iff] at hv
    refine normal_of_bare (v := .function toJSON) (fun j h => ?_)
      (fun r hr j => ih r hr (hv r hr)) h
    cases toJSON <;> cases h
  | array items toJSON ihitems ih =>
    rw [Distinct, distinctItem_iff, distinctItems_iff] at hv
    refine normal_of_bare (v := .array items toJSON) (fun j h => ?_)
      (fun r hr j => ih r hr (hv.2 r hr)) h
    have h : (itemsJson items).map (fun js => some (.arr js)) = .ok (some j) := by
      cases toJSON <;> exact h
    obtain ⟨js, hjs, heq⟩ := map_eq_ok.mp h
    cases heq
    have hnormal :=
      normal_of_itemsJson (fun i hi v hv' j => ihitems i hi v hv' (hv.1 i hi v hv')) hjs
    exact ⟨normal_arr hnormal, by rintro ⟨⟩⟩
  | object members boxed toJSON ihmembers ih =>
    rw [Distinct, distinctItem_iff, distinctMembers_iff] at hv
    refine normal_of_bare (v := .object members boxed toJSON) (fun j h => ?_)
      (fun r hr j => ih r hr (hv.2.2 r hr)) h
    cases boxed with
    | some s =>
      have h : s.json.map some = .ok (some j) := by cases toJSON <;> exact h
      obtain ⟨j', hj', heq⟩ := map_eq_ok.mp h
      cases heq
      exact normal_scalarJson hj'
    | none =>
      have h : (membersJson members).map (fun js => some (.obj js)) = .ok (some j) := by
        cases toJSON <;> exact h
      obtain ⟨js, hjs, heq⟩ := map_eq_ok.mp h
      cases heq
      obtain ⟨hnormal, hkeys⟩ :=
        normal_of_membersJson (fun p hp j h => (ihmembers p hp (hv.2.1 p hp) h).1) hjs
      exact ⟨⟨hv.1.sublist hkeys, hnormal⟩, by rintro ⟨⟩⟩

end Normal

/-! ### The canonical text -/

/-- An array that is not one hole says what its items say. -/
theorem shape_array (h : items ≠ [none]) (toJSON : Option RawValue) :
    (RawValue.array items toJSON).shape = (shapeItems items).map .arr := by
  rw [shape]
  exact h

theorem canonicalItems_eq (ih : ∀ i ∈ items, ∀ v ∈ i, v.canonical = v.shape.map JsonValue.print) :
    canonicalItems items = (shapeItems items).map (·.map JsonValue.print) := by
  induction items with
  | nil => rfl
  | cons i items ihitems =>
    rw [List.forall_mem_cons] at ih
    cases i with
    | none =>
      rw [canonicalItems, shapeItems, ihitems ih.2]
      cases shapeItems items <;> rfl
    | some v =>
      rw [canonicalItems, shapeItems, ihitems ih.2, ih.1 v rfl]
      cases v.shape <;> cases shapeItems items <;> rfl

theorem canonicalMembers_eq (ih : ∀ p ∈ members, p.2.canonical = p.2.shape.map JsonValue.print) :
    canonicalMembers members = (shapeMembers members).map (·.map fun p => (p.1, p.2.print)) := by
  induction members with
  | nil => rfl
  | cons p members ihmembers =>
    rw [List.forall_mem_cons] at ih
    rw [canonicalMembers, shapeMembers, ihmembers ih.2, ih.1]
    cases p.2.noForm <;> cases p.2.shape <;> cases shapeMembers members <;> rfl

theorem leafText_eq (v : RawValue) :
    leafText v = (v.json false).map fun o => (o.getD .null).print := by
  unfold leafText stringify
  cases v.json false with
  | error e => rfl
  | ok o => cases o <;> rfl

/-- **The canonical text is that of what the value itself says.** -/
theorem canonical_eq (v : RawValue) : v.canonical = v.shape.map JsonValue.print := by
  induction v using ind with
  | undefined | null | symbol | unreadable => rfl
  | scalar s =>
    rw [canonical, leafText_eq, json, shape]
    cases s.json <;> rfl
  | function toJSON ih =>
    rw [canonical, leafText_eq, shape]
    cases json false (.function toJSON) <;> rfl
  | array items toJSON ihitems ih =>
    rw [canonical, canonicalItems_eq ihitems]
    by_cases hgap : items = [none]
    · subst hgap
      rfl
    · rw [shape_array hgap]
      cases shapeItems items with
      | error e => rfl
      | ok js => exact congrArg (fun ts => Except.ok (arrayText ts)) (JsonValue.printItems_eq js).symm
  | object members boxed toJSON ihmembers ih =>
    rw [canonical, canonicalMembers_eq ihmembers, shape]
    cases shapeMembers members with
    | error e => rfl
    | ok js =>
      show Except.ok (objectText (sortMembers (js.map fun p => (p.1, p.2.print)))) = _
      rw [JsonValue.sortMembers_map, ← JsonValue.printMembers_eq]
      rfl

theorem normal_of_shapeItems {js : List JsonValue}
    (ih : ∀ i ∈ items, ∀ v ∈ i, ∀ j, v.shape = .ok j → j.Normal true ∧ j ≠ .gap)
    (h : shapeItems items = .ok js) : JsonValue.NormalItems true js := by
  induction items generalizing js with
  | nil =>
    cases h
    trivial
  | cons i items ihitems =>
    rw [List.forall_mem_cons] at ih
    cases i with
    | none =>
      obtain ⟨js, hjs, h⟩ := bind_eq_ok.mp h
      cases h
      exact ⟨rfl, ihitems ih.2 hjs⟩
    | some v =>
      obtain ⟨j, hj, h⟩ := bind_eq_ok.mp h
      obtain ⟨js, hjs, h⟩ := bind_eq_ok.mp h
      cases h
      exact ⟨(ih.1 v rfl j hj).1, ihitems ih.2 hjs⟩

/-- One gap is one hole. -/
theorem eq_of_shapeItems
    (ih : ∀ i ∈ items, ∀ v ∈ i, ∀ j, v.shape = .ok j → j.Normal true ∧ j ≠ .gap)
    (h : shapeItems items = .ok [.gap]) : items = [none] := by
  have hnil {items : List (Option RawValue)} (h : shapeItems items = .ok []) : items = [] := by
    cases items with
    | nil => rfl
    | cons i items =>
      cases i with
      | none =>
        obtain ⟨js, -, h⟩ := bind_eq_ok.mp h
        cases h
      | some v =>
        obtain ⟨j, -, h⟩ := bind_eq_ok.mp h
        obtain ⟨js, -, h⟩ := bind_eq_ok.mp h
        cases h
  cases items with
  | nil => cases h
  | cons i items =>
    cases i with
    | none =>
      obtain ⟨js, hjs, h⟩ := bind_eq_ok.mp h
      cases h
      rw [hnil hjs]
    | some v =>
      obtain ⟨j, hj, h⟩ := bind_eq_ok.mp h
      obtain ⟨js, -, h⟩ := bind_eq_ok.mp h
      cases h
      exact absurd rfl (ih _ List.mem_cons_self v rfl _ hj).2

theorem normal_of_shapeMembers {js : List (Units × JsonValue)}
    (ih : ∀ p ∈ members, ∀ j, p.2.shape = .ok j → j.Normal true)
    (h : shapeMembers members = .ok js) :
    JsonValue.NormalMembers true js ∧ (js.map Prod.fst).Sublist (members.map Prod.fst) := by
  induction members generalizing js with
  | nil =>
    cases h
    exact ⟨trivial, .slnil⟩
  | cons p members ihmembers =>
    rw [List.forall_mem_cons] at ih
    rw [shapeMembers] at h
    split at h
    · obtain ⟨hnormal, hkeys⟩ := ihmembers ih.2 h
      exact ⟨hnormal, hkeys.cons _⟩
    obtain ⟨j, hj, h⟩ := bind_eq_ok.mp h
    obtain ⟨js, hjs, h⟩ := bind_eq_ok.mp h
    cases h
    obtain ⟨hnormal, hkeys⟩ := ihmembers ih.2 hjs
    exact ⟨⟨ih.1 j hj, hnormal⟩, hkeys.cons_cons _⟩

variable {v : RawValue} {j : JsonValue}

/-- **What a value itself says is normal**, but for its gaps. -/
theorem normal_shape (hv : v.Distinct) (h : v.shape = .ok j) : j.Normal true ∧ j ≠ .gap := by
  induction v using ind generalizing j with
  | undefined | null | symbol => cases h; exact ⟨trivial, by rintro ⟨⟩⟩
  | scalar s => exact normal_scalarJson h
  | unreadable => cases h
  | function toJSON ih =>
    obtain ⟨o, ho, rfl⟩ := map_eq_ok.mp h
    refine normal_getD fun j hj => ?_
    obtain rfl := hj
    exact normal_json hv ho
  | array items toJSON ihitems ih =>
    rw [Distinct, distinctItems_iff] at hv
    have hall := fun i hi v hv' j => ihitems i hi v hv' (hv.1 i hi v hv') (j := j)
    by_cases hgap : items = [none]
    · subst hgap
      cases h
      exact ⟨⟨by rintro ⟨⟩, trivial⟩, by rintro ⟨⟩⟩
    · rw [shape_array hgap] at h
      obtain ⟨js, hjs, rfl⟩ := map_eq_ok.mp h
      refine ⟨⟨?_, normal_of_shapeItems hall hjs⟩, by rintro ⟨⟩⟩
      rintro rfl
      exact hgap (eq_of_shapeItems hall hjs)
  | object members boxed toJSON ihmembers ih =>
    rw [Distinct, distinctMembers_iff] at hv
    rw [shape] at h
    obtain ⟨js, hjs, rfl⟩ := map_eq_ok.mp h
    obtain ⟨hnormal, hkeys⟩ :=
      normal_of_shapeMembers (fun p hp j h => (ihmembers p hp (hv.2.1 p hp) h).1) hjs
    rw [JsonValue.normalMembers_iff] at hnormal
    refine ⟨⟨JsonValue.nodup_keys_sortMembers (hv.1.sublist hkeys), ?_⟩, by rintro ⟨⟩⟩
    rw [JsonValue.normalMembers_iff]
    exact fun p hp => hnormal p ((sortBy_perm _ js).mem_iff.mp hp)

/-! ### Plain values -/

theorem sorted_scalarJson {s : Scalar} (h : s.json = .ok j) : j.sorted = j := by
  cases s with
  | bool b | string s => cases h; rfl
  | number d => cases h; cases d <;> rfl
  | bigint => cases h

theorem shapeItems_of_plain {js : List JsonValue}
    (ih : ∀ i ∈ items, ∀ v ∈ i, v.Plain → ∀ o, v.json false = .ok o →
      v.shape = .ok (o.getD .null).sorted) (hitems : PlainItems items)
    (h : itemsJson items = .ok js) : shapeItems items = .ok (sortedItems js) := by
  induction items generalizing js with
  | nil =>
    cases h
    rfl
  | cons i items ihitems =>
    rw [List.forall_mem_cons] at ih
    cases i with
    | none => exact absurd hitems id
    | some v =>
      obtain ⟨o, ho, h⟩ := bind_eq_ok.mp h
      obtain ⟨js, hjs, h⟩ := bind_eq_ok.mp h
      cases h
      rw [shapeItems, ih.1 v rfl hitems.1 o ho, ihitems ih.2 hitems.2 hjs]
      rfl

/-- Without a `toJSON` method, what is left out is not printed, and nothing else. -/
theorem noForm_iff (hv : v.Plain) {o : Option JsonValue} (h : v.json false = .ok o) :
    v.noForm = o.isNone := by
  cases v with
  | undefined | null | symbol => cases h; rfl
  | scalar s =>
    obtain ⟨j, -, rfl⟩ := map_eq_ok.mp h
    rfl
  | unreadable => cases h
  | function toJSON =>
    obtain rfl : toJSON = none := hv
    cases h
    rfl
  | array items toJSON =>
    obtain ⟨rfl, -⟩ := hv
    obtain ⟨js, -, rfl⟩ := map_eq_ok.mp h
    rfl
  | object members boxed toJSON =>
    obtain ⟨rfl, rfl, -⟩ := hv
    obtain ⟨js, -, rfl⟩ := map_eq_ok.mp h
    rfl

theorem shapeMembers_of_plain {js : List (Units × JsonValue)}
    (ih : ∀ p ∈ members, p.2.Plain → ∀ o, p.2.json false = .ok o →
      p.2.shape = .ok (o.getD .null).sorted) (hmembers : PlainMembers members)
    (h : membersJson members = .ok js) : shapeMembers members = .ok (sortedMembers js) := by
  induction members generalizing js with
  | nil =>
    cases h
    rfl
  | cons p members ihmembers =>
    rw [List.forall_mem_cons] at ih
    obtain ⟨o, ho, h⟩ := bind_eq_ok.mp h
    obtain ⟨js, hjs, h⟩ := bind_eq_ok.mp h
    cases h
    have hrest := ihmembers ih.2 hmembers.2 hjs
    rw [shapeMembers, noForm_iff hmembers.1 ho]
    cases o with
    | none => exact hrest
    | some j =>
      rw [ih.1 hmembers.1 _ ho, hrest]
      rfl

/-- **A plain value is printed as what it itself says.** -/
theorem shape_of_plain (hv : v.Plain) {o : Option JsonValue} (h : v.json false = .ok o) :
    v.shape = .ok (o.getD .null).sorted := by
  induction v using ind generalizing o with
  | undefined | null | symbol => cases h; rfl
  | scalar s =>
    obtain ⟨j, hj, rfl⟩ := map_eq_ok.mp h
    rw [shape, hj]
    exact congrArg Except.ok (sorted_scalarJson hj).symm
  | unreadable => cases h
  | function toJSON ih =>
    obtain rfl : toJSON = none := hv
    cases h
    rfl
  | array items toJSON ihitems ih =>
    obtain ⟨rfl, hitems⟩ := hv
    obtain ⟨js, hjs, rfl⟩ := map_eq_ok.mp h
    have hne : items ≠ [none] := by
      rintro rfl
      exact hitems
    rw [shape_array hne,
      shapeItems_of_plain (fun i hi v hv' hp o => ihitems i hi v hv' hp) hitems hjs]
    rfl
  | object members boxed toJSON ihmembers ih =>
    obtain ⟨rfl, rfl, hmembers⟩ := hv
    obtain ⟨js, hjs, rfl⟩ := map_eq_ok.mp h
    rw [shape, shapeMembers_of_plain (fun p hp hplain o => ihmembers p hp hplain) hmembers hjs]
    rfl

theorem faithful_of_plain (hv : v.Plain) (h : v.json false = .ok (some j)) : v.Faithful :=
  ⟨j, h, shape_of_plain hv h⟩

/-! ### What was parsed -/

theorem ofJson_items {items : List JsonValue}
    (ih : ∀ j ∈ items, (ofJson j).Distinct ∧ (ofJson j).Plain
      ∧ (ofJson j).json false = .ok (some j)) :
    DistinctItems (ofItems items) ∧ PlainItems (ofItems items)
      ∧ itemsJson (ofItems items) = .ok items := by
  induction items with
  | nil => exact ⟨trivial, trivial, rfl⟩
  | cons j items ihitems =>
    rw [List.forall_mem_cons] at ih
    obtain ⟨hdistinct, hplain, hjson⟩ := ihitems ih.2
    refine ⟨⟨ih.1.1, hdistinct⟩, ⟨ih.1.2.1, hplain⟩, ?_⟩
    rw [ofItems, itemsJson, ih.1.2.2, hjson]
    rfl

theorem ofJson_members {members : List (Units × JsonValue)}
    (ih : ∀ p ∈ members, (ofJson p.2).Distinct ∧ (ofJson p.2).Plain
      ∧ (ofJson p.2).json false = .ok (some p.2)) :
    (ofMembers members).map Prod.fst = members.map Prod.fst
      ∧ DistinctMembers (ofMembers members) ∧ PlainMembers (ofMembers members)
      ∧ membersJson (ofMembers members) = .ok members := by
  induction members with
  | nil => exact ⟨rfl, trivial, trivial, rfl⟩
  | cons p members ihmembers =>
    rw [List.forall_mem_cons] at ih
    obtain ⟨hkeys, hdistinct, hplain, hjson⟩ := ihmembers ih.2
    refine ⟨congrArg (p.1 :: ·) hkeys, ⟨ih.1.1, hdistinct⟩, ⟨ih.1.2.1, hplain⟩, ?_⟩
    rw [ofMembers, membersJson, ih.1.2.2, hjson]
    rfl

/-- **A parsed value is plain, and is printed as it was.** -/
theorem ofJson_eq (hj : j.Normal false) :
    (ofJson j).Distinct ∧ (ofJson j).Plain ∧ (ofJson j).json false = .ok (some j) := by
  induction j using JsonValue.ind with
  | gap => cases hj
  | null | bool | str => exact ⟨trivial, trivial, rfl⟩
  | num d =>
    obtain ⟨neg, n, rfl⟩ := hj
    have hprinted : doubleJson (.printed neg n) = .num (.printed neg n) := by
      simp [doubleJson, Double.printed]
    exact ⟨trivial, trivial, congrArg (fun j => Except.ok (some j)) hprinted⟩
  | arr items ih =>
    rw [JsonValue.Normal, JsonValue.normalItems_iff] at hj
    obtain ⟨hdistinct, hplain, hjson⟩ := ofJson_items fun j hmem => ih j hmem (hj.2 j hmem)
    refine ⟨⟨hdistinct, trivial⟩, ⟨rfl, hplain⟩, ?_⟩
    show (itemsJson (ofItems items)).map (fun js => some (JsonValue.arr js)) = _
    rw [hjson]
    rfl
  | obj members ih =>
    rw [JsonValue.Normal, JsonValue.normalMembers_iff] at hj
    obtain ⟨hkeys, hdistinct, hplain, hjson⟩ := ofJson_members fun p hmem => ih p hmem (hj.2 p hmem)
    refine ⟨⟨hkeys ▸ hj.1, hdistinct, trivial⟩, ⟨rfl, rfl, hplain⟩, ?_⟩
    show (membersJson (ofMembers members)).map (fun js => some (JsonValue.obj js)) = _
    rw [hjson]
    rfl

/-- What is printed comes out of the wire. -/
theorem parsed_eq (hv : v.Distinct) (h : v.json false = .ok (some j)) : v.parsed = some j := by
  have hstring : v.stringify = .ok (some j.print) := by
    rw [stringify, h]
    rfl
  rw [parsed, hstring]
  exact JsonValue.parseJson_print (normal_json hv h).1

/-- Values have one canonical text when they say the same. -/
theorem canonical_inj {w : RawValue} (hv : v.Distinct) (hw : w.Distinct) (hj : w.shape = .ok j) :
    v.canonical = w.canonical ↔ v.shape = .ok j := by
  rw [canonical_eq, canonical_eq, hj]
  refine ⟨fun h => ?_, fun h => by rw [h]⟩
  obtain ⟨i, hi, hprint⟩ := map_eq_ok.mp h
  obtain ⟨hinormal, higap⟩ := normal_shape hv hi
  obtain ⟨hjnormal, hjgap⟩ := normal_shape hw hj
  rw [hi, JsonValue.print_inj hinormal hjnormal higap hjgap hprint]

/-- **The canonical text of a value is that of what was parsed exactly when `JSON.stringify` prints
what the value itself says.** -/
theorem canonical_eq_iff (hv : v.Distinct) (hj : v.json false = .ok (some j)) :
    v.canonical = (ofJson j).canonical ↔ v.Faithful := by
  obtain ⟨hdistinct, hplain, hjson⟩ := ofJson_eq (normal_json hv hj).1
  rw [canonical_inj hv hdistinct (shape_of_plain hplain hjson)]
  refine ⟨fun h => ⟨j, hj, h⟩, ?_⟩
  rintro ⟨i, hi, hshape⟩
  rw [hj] at hi
  cases Except.ok.inj hi
  exact hshape

/-- Faithful values have one canonical text when they are printed alike, up to the order of keys. -/
theorem Faithful.canonical_iff {w : RawValue} (hv : v.Distinct) (hw : w.Distinct)
    (hfaithful : v.Faithful) (hfaithful' : w.Faithful) {i : JsonValue}
    (hj : v.json false = .ok (some j)) (hi : w.json false = .ok (some i)) :
    v.canonical = w.canonical ↔ j.Same i := by
  obtain ⟨j', hj', hshape⟩ := hfaithful
  obtain ⟨i', hi', hshape'⟩ := hfaithful'
  cases Except.ok.inj (hj.symm.trans hj')
  cases Except.ok.inj (hi.symm.trans hi')
  rw [canonical_inj hv hw hshape', hshape, Except.ok.injEq]
  exact (JsonValue.same_iff (g := false) (normal_json hv hj).1 (normal_json hw hi).1).symm

end RawValue

/-! ### The wire -/

/-- **What is signed is what is verified exactly for the faithful values**: only of these is the
canonical text that of what was parsed, and only these have the canonical text of another faithful
value exactly when both are parsed as the same, up to the order of keys. -/
theorem canonical_survives (v : Value) (s : Units) (h : v.1.stringify = .ok (some s)) :
    ∃ j, parseJson s = some j
      ∧ (v.1.canonical = (RawValue.ofJson j).canonical ↔ v.1.Faithful)
      ∧ ((∀ w : Value, w.1.Faithful → ∀ i, w.1.parsed = some i →
          (v.1.canonical = w.1.canonical ↔ j.Same i)) ↔ v.1.Faithful) := by
  obtain ⟨o, hjson, hprint⟩ := map_eq_ok.mp h
  obtain ⟨j, rfl, rfl⟩ := Option.map_eq_some_iff.mp hprint
  have hnormal := (RawValue.normal_json (g := false) v.2 hjson).1
  have hiff := RawValue.canonical_eq_iff v.2 hjson
  refine ⟨j, JsonValue.parseJson_print hnormal, hiff, ?_, ?_⟩
  · intro hall
    obtain ⟨hdistinct, hplain, hself⟩ := RawValue.ofJson_eq hnormal
    rw [← hiff]
    exact (hall ⟨RawValue.ofJson j, hdistinct⟩ (RawValue.faithful_of_plain hplain hself) j
      (RawValue.parsed_eq hdistinct hself)).mpr ((JsonValue.same_iff hnormal hnormal).mpr rfl)
  · rintro hv w hw i hi
    obtain ⟨k, hk, -⟩ := id hw
    rw [RawValue.parsed_eq w.2 hk] at hi
    cases hi
    exact RawValue.Faithful.canonical_iff v.2 w.2 hv hw hjson hk

theorem canonical_survives_array :
    ∃ j, parseJson (arrayText [nullText, trueText]) = some j
      ∧ ((RawValue.array [some .null, some (.scalar (.bool true))] none).canonical
          = (RawValue.ofJson j).canonical
        ↔ (RawValue.array [some .null, some (.scalar (.bool true))] none).Faithful)
      ∧ ((∀ w : Value, w.1.Faithful → ∀ i, w.1.parsed = some i →
          ((RawValue.array [some .null, some (.scalar (.bool true))] none).canonical
            = w.1.canonical ↔ j.Same i))
        ↔ (RawValue.array [some .null, some (.scalar (.bool true))] none).Faithful) :=
  canonical_survives ⟨.array [some .null, some (.scalar (.bool true))] none,
    ⟨⟨trivial, trivial, trivial⟩, trivial⟩⟩ _ rfl

/-- A date, which is an object with no keys and with a `toJSON` method. -/
def dateOf (text : List Char) : RawValue :=
  .object [] none (some (.scalar (.string (asciiUnits text))))

/-- An object that has a date under `at`. -/
def dated (text : List Char) : Value :=
  ⟨.object [(asciiUnits ['a', 't'], dateOf text)] none none,
    ⟨List.nodup_singleton _, ⟨⟨List.nodup_nil, trivial, trivial⟩, trivial⟩, trivial⟩⟩

/-- **A date is signed as an empty object and verified as a text.** -/
theorem date_is_lost :
    ¬ ∀ (v : Value) (s : Units), v.1.stringify = .ok (some s) → ∀ j, parseJson s = some j →
      v.1.canonical = (RawValue.ofJson j).canonical := by
  intro h
  let text := asciiUnits ['1', '9', '7', '0', '-', '0', '1', '-', '0', '1', 'T', '0', '0', ':', '0',
    '0', ':', '0', '0', '.', '0', '0', '0', 'Z']
  let j := JsonValue.obj [(asciiUnits ['a', 't'], .str text)]
  have hj : j.Normal false := ⟨List.nodup_singleton _, trivial, trivial⟩
  have heq := h (dated ['1', '9', '7', '0', '-', '0', '1', '-', '0', '1', 'T', '0', '0', ':', '0',
    '0', ':', '0', '0', '.', '0', '0', '0', 'Z']) j.print rfl j (JsonValue.parseJson_print hj)
  revert heq
  decide

end Axona
