import Axona.Library.Numeral
import Axona.Library.Ranking

/-! # JSON values

The values that JSON texts stand for, and when two of them are the same but for the order in which
the objects have their keys: when sorting all keys makes them equal. So that texts which leave
elements out can be spoken of as well, there is a `gap`, which is no value. -/

namespace Axona.Library

inductive JsonValue where
  /-- An element that is not there. -/
  | gap
  | null
  | bool (b : Bool)
  | num (d : Double)
  | str (s : Units)
  | arr (items : List JsonValue)
  | obj (members : List (Units × JsonValue))

namespace JsonValue

/-- What holds of a value when it holds of its parts holds of all values. -/
@[elab_as_elim] theorem ind {motive : JsonValue → Prop} (gap : motive .gap)
    (null : motive .null) (bool : ∀ b, motive (.bool b)) (num : ∀ d, motive (.num d)) (str : ∀ s,
      motive (.str s))
    (arr : ∀ items, (∀ j ∈ items, motive j) → motive (.arr items))
    (obj : ∀ members, (∀ p ∈ members, motive p.2) → motive (.obj members)) (j : JsonValue) :
    motive j :=
  @JsonValue.rec motive (fun items => ∀ j ∈ items, motive j)
    (fun members => ∀ p ∈ members, motive p.2) (fun p => motive p.2) gap null bool num str arr obj
      (List.forall_mem_nil _)
    (fun _ _ hj hitems => List.forall_mem_cons.mpr ⟨hj, hitems⟩) (List.forall_mem_nil _)
    (fun _ _ hp hmembers => List.forall_mem_cons.mpr ⟨hp, hmembers⟩) (fun _ _ hj => hj) j

/-! ### Key order -/

/-- Texts are ordered by their units. -/
def keyRank (k : Units) : List Nat := k.map UInt16.toNat

theorem keyRank_injective : Function.Injective keyRank :=
  List.map_injective_iff.mpr fun _ _ => UInt16.toNat_inj.mp

/-- Members in the order of their keys. -/
abbrev sortMembers {α : Type} (members : List (Units × α)) : List (Units × α) :=
  sortBy (fun p => keyRank p.1) members

mutual

/-- The value with the keys of all objects in order. -/
def sorted : JsonValue → JsonValue
  | .gap => .gap
  | .null => .null
  | .bool b => .bool b
  | .num d => .num d
  | .str s => .str s
  | .arr items => .arr (sortedItems items)
  | .obj members => .obj (sortMembers (sortedMembers members))

def sortedItems : List JsonValue → List JsonValue
  | [] => []
  | j :: items => j.sorted :: sortedItems items

def sortedMembers : List (Units × JsonValue) → List (Units × JsonValue)
  | [] => []
  | (k, j) :: members => (k, j.sorted) :: sortedMembers members

end

mutual

/-- Equal up to the order of keys: objects of one size, with every member of the first among those
of the second. -/
def Same : JsonValue → JsonValue → Prop
  | .gap, .gap => True
  | .null, .null => True
  | .bool b, .bool c => b = c
  | .num d, .num e => d = e
  | .str s, .str t => s = t
  | .arr items, .arr others => SameItems items others
  | .obj members, .obj others => members.length = others.length ∧ SameMembers members others
  | _, _ => False

def SameItems : List JsonValue → List JsonValue → Prop
  | [], [] => True
  | j :: items, i :: others => j.Same i ∧ SameItems items others
  | _, _ => False

def SameMembers : List (Units × JsonValue) → List (Units × JsonValue) → Prop
  | [], _ => True
  | (k, j) :: members, others =>
    (∃ i, (k, i) ∈ others ∧ j.Same i) ∧ SameMembers members others

end

mutual

/-- The values that are printed: numbers are finite, a zero has no sign, no key is there twice, and
no array is one gap. There are gaps only where they are allowed. -/
def Normal (gaps : Bool) : JsonValue → Prop
  | .gap => gaps = true
  | .null => True
  | .bool _ => True
  | .num d => ∃ neg n, d = .printed neg n
  | .str _ => True
  | .arr items => items ≠ [.gap] ∧ NormalItems gaps items
  | .obj members => (members.map Prod.fst).Nodup ∧ NormalMembers gaps members

def NormalItems (gaps : Bool) : List JsonValue → Prop
  | [] => True
  | j :: items => j.Normal gaps ∧ NormalItems gaps items

def NormalMembers (gaps : Bool) : List (Units × JsonValue) → Prop
  | [] => True
  | (_, j) :: members => j.Normal gaps ∧ NormalMembers gaps members

end

/-! ### Items and members one by one -/

theorem sortedMembers_eq (members : List (Units × JsonValue)) :
    sortedMembers members = members.map fun p => (p.1, p.2.sorted) := by
  induction members with
  | nil => rfl
  | cons p members ih => rw [sortedMembers, ih, List.map_cons]

theorem sameMembers_iff {members others : List (Units × JsonValue)} :
    SameMembers members others ↔ ∀ p ∈ members, ∃ i, (p.1, i) ∈ others ∧ p.2.Same i := by
  induction members with
  | nil => simp [SameMembers]
  | cons p members ih => rw [SameMembers, ih, List.forall_mem_cons]

theorem normalItems_iff {g : Bool} {items : List JsonValue} :
    NormalItems g items ↔ ∀ j ∈ items, j.Normal g := by
  induction items with
  | nil => simp [NormalItems]
  | cons j items ih => rw [NormalItems, ih, List.forall_mem_cons]

theorem normalMembers_iff {g : Bool} {members : List (Units × JsonValue)} :
    NormalMembers g members ↔ ∀ p ∈ members, p.2.Normal g := by
  induction members with
  | nil => simp [NormalMembers]
  | cons p members ih => rw [NormalMembers, ih, List.forall_mem_cons]

theorem keys_sortedMembers (members : List (Units × JsonValue)) :
    (sortedMembers members).map Prod.fst = members.map Prod.fst := by
  rw [sortedMembers_eq, List.map_map]
  rfl

/-! ### Sorting -/

section SortMembers

variable {α : Type} {members others : List (Units × α)}

section

variable (h : (members.map Prod.fst).Nodup)
include h

theorem nodup_keyRank :
    (members.map fun p => keyRank p.1).Nodup := by
  have := h.map keyRank_injective
  rwa [List.map_map] at this

theorem nodup_keys_sortMembers :
    ((sortMembers members).map Prod.fst).Nodup :=
  ((sortBy_perm _ members).map Prod.fst).nodup_iff.mpr h

/-- Where the keys are distinct, only one order is that of the keys. -/
theorem sortMembers_eq_of_perm (hperm : members.Perm others) :
    sortMembers members = sortMembers others := by
  have hothers : (others.map Prod.fst).Nodup := (hperm.map Prod.fst).nodup_iff.mp h
  refine List.Perm.eq_of_pairwise (fun a b _ _ (hab : keyRank a.1 < keyRank b.1) hba => ?_)
    (sortBy_pairwise (nodup_keyRank h)) (sortBy_pairwise (nodup_keyRank hothers))
    ((sortBy_perm _ members).trans (hperm.trans (sortBy_perm _ others).symm))
  exact absurd (hab.trans hba) (lt_irrefl _)

theorem sortMembers_eq_iff :
    sortMembers members = sortMembers others ↔ members.Perm others := by
  refine ⟨fun heq => ?_, sortMembers_eq_of_perm h⟩
  have hsort : (sortMembers others).Perm others := sortBy_perm _ others
  rw [← heq] at hsort
  exact (sortBy_perm _ members).symm.trans hsort

end

/-- Sorting looks at the keys alone. -/
theorem sortMembers_map {β : Type} (f : α → β) (members : List (Units × α)) :
    sortMembers (members.map fun p => (p.1, f p.2))
      = (sortMembers members).map fun p => (p.1, f p.2) :=
  (List.map_insertionSort (fun p q : Units × α => keyRank p.1 ≤ keyRank q.1)
    (fun p q : Units × β => keyRank p.1 ≤ keyRank q.1) _ _ fun _ _ _ _ => Iff.rfl).symm

end SortMembers

/-! ### Equal up to the order of keys -/

theorem sameItems_iff {items others : List JsonValue}
    (ih : ∀ j ∈ items, ∀ i ∈ others, j.Same i ↔ j.sorted = i.sorted) :
    SameItems items others ↔ sortedItems items = sortedItems others := by
  induction items generalizing others with
  | nil => cases others <;> simp [SameItems, sortedItems]
  | cons j items ihitems =>
    cases others with
    | nil => simp [SameItems, sortedItems]
    | cons i others =>
      rw [SameItems, sortedItems, sortedItems, List.cons.injEq,
        ih j List.mem_cons_self i List.mem_cons_self,
        ihitems fun a ha b hb => ih a (List.mem_cons_of_mem _ ha) b (List.mem_cons_of_mem _ hb)]

theorem sameObjects_iff {members others : List (Units × JsonValue)}
    (h : (members.map Prod.fst).Nodup)
    (ih : ∀ p ∈ members, ∀ q ∈ others, p.2.Same q.2 ↔ p.2.sorted = q.2.sorted) :
    (members.length = others.length ∧ SameMembers members others)
      ↔ sortMembers (sortedMembers members) = sortMembers (sortedMembers others) := by
  have hkeys : ((sortedMembers members).map Prod.fst).Nodup := by rwa [keys_sortedMembers]
  rw [sortMembers_eq_iff hkeys, sameMembers_iff]
  constructor
  · rintro ⟨hlen, hsame⟩
    have hsub : sortedMembers members ⊆ sortedMembers others := by
      rw [sortedMembers_eq, sortedMembers_eq]
      intro x hx
      obtain ⟨p, hp, rfl⟩ := List.mem_map.mp hx
      obtain ⟨i, hi, hsame⟩ := hsame p hp
      exact List.mem_map.mpr ⟨(p.1, i), hi, Prod.ext rfl ((ih p hp _ hi).mp hsame).symm⟩
    apply (List.subperm_of_subset hkeys.of_map hsub).perm_of_length_le
    rw [sortedMembers_eq, sortedMembers_eq, List.length_map, List.length_map, hlen]
  · intro hperm
    constructor
    · have := hperm.length_eq
      rwa [sortedMembers_eq, sortedMembers_eq, List.length_map, List.length_map] at this
    · intro p hp
      have hmem : (p.1, p.2.sorted) ∈ sortedMembers others := by
        rw [← hperm.mem_iff, sortedMembers_eq]
        exact List.mem_map_of_mem hp
      rw [sortedMembers_eq] at hmem
      obtain ⟨q, hq, heq⟩ := List.mem_map.mp hmem
      obtain ⟨hkey, hvalue⟩ := Prod.mk.inj heq
      exact ⟨q.2, hkey ▸ hq, (ih p hp q hq).mpr hvalue.symm⟩

/-- **Values are equal up to the order of keys when sorting the keys makes them equal.** -/
theorem same_iff {g : Bool} {j i : JsonValue} (hj : j.Normal g) (hi : i.Normal g) :
    j.Same i ↔ j.sorted = i.sorted := by
  induction j using ind generalizing i with
  | gap | null | bool b | num d | str s => cases i <;> simp [Same, JsonValue.sorted]
  | arr items ih =>
    cases i with
    | arr others =>
      rw [Normal, normalItems_iff] at hj hi
      rw [Same, JsonValue.sorted, JsonValue.sorted, JsonValue.arr.injEq]
      exact sameItems_iff fun a ha b hb => ih a ha (hj.2 a ha) (hi.2 b hb)
    | _ => simp [Same, JsonValue.sorted]
  | obj members ih =>
    cases i with
    | obj others =>
      rw [Normal, normalMembers_iff] at hj hi
      rw [Same, JsonValue.sorted, JsonValue.sorted, JsonValue.obj.injEq]
      exact sameObjects_iff hj.1 fun a ha b hb => ih a ha (hj.2 a ha) (hi.2 b hb)
    | _ => simp [Same, JsonValue.sorted]

end JsonValue

end Axona.Library
