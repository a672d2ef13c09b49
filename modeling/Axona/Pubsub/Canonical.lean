import Axona.Library.JsonText

/-! # Canonical encoding (`pubsub/post.js`)

What a message is signed over. The sender encodes the value in its memory; the receiver encodes what
`JSON.parse` made of the text that `JSON.stringify` made of it. A value is modelled as what reading
it gives: an object as its enumerable keys with their values, an array as its items, and each with
the result of its `toJSON` method where it has one. -/

namespace Axona

open Library

/-! ### Values -/

/-- The primitive values that an object can be a wrapper of. -/
inductive Scalar where
  | bool (b : Bool)
  | number (d : Double)
  | string (s : Units)
  | bigint

/-- A value of the language. -/
inductive RawValue where
  | undefined
  | null
  | symbol
  | scalar (s : Scalar)
  /-- What throws when it is read: a getter, or the way back to an object from within. -/
  | unreadable
  | function (toJSON : Option RawValue)
  /-- Items, or holes where there is none. -/
  | array (items : List (Option RawValue)) (toJSON : Option RawValue)
  | object (members : List (Units × RawValue)) (boxed : Option Scalar) (toJSON : Option RawValue)

namespace RawValue

mutual

/-- No object has a key twice. -/
def Distinct : RawValue → Prop
  | .undefined => True
  | .null => True
  | .symbol => True
  | .scalar _ => True
  | .unreadable => True
  | .function toJSON => DistinctItem toJSON
  | .array items toJSON => DistinctItems items ∧ DistinctItem toJSON
  | .object members _ toJSON =>
    (members.map Prod.fst).Nodup ∧ DistinctMembers members ∧ DistinctItem toJSON

def DistinctItem : Option RawValue → Prop
  | none => True
  | some v => v.Distinct

def DistinctItems : List (Option RawValue) → Prop
  | [] => True
  | i :: items => DistinctItem i ∧ DistinctItems items

def DistinctMembers : List (Units × RawValue) → Prop
  | [] => True
  | (_, v) :: members => v.Distinct ∧ DistinctMembers members

end

end RawValue

/-- A value whose objects have no key twice. -/
abbrev Value := { v : RawValue // v.Distinct }

/-! ### `JSON.stringify` -/

/-- The JSON of a double: what is not finite is `null`, and a zero has no sign. -/
def doubleJson : Double → JsonValue
  | .finite neg n => .num (.printed neg n)
  | .nan => .null
  | .infinite _ => .null

def Scalar.json : Scalar → Except Unit JsonValue
  | .bool b => .ok (.bool b)
  | .number d => .ok (doubleJson d)
  | .string s => .ok (.str s)
  | .bigint => .error ()

namespace RawValue

mutual

/-- What `JSON.stringify` prints of a value, if anything (`SerializeJSONProperty`). The result of a
`toJSON` method is not asked for its own. -/
def json (asked : Bool) : RawValue → Except Unit (Option JsonValue)
  | .undefined => .ok none
  | .null => .ok (some .null)
  | .symbol => .ok none
  | .scalar s => s.json.map some
  | .unreadable => .error ()
  | .function toJSON =>
    match asked, toJSON with
    | false, some r => r.json true
    | _, _ => .ok none
  | .array items toJSON =>
    match asked, toJSON with
    | false, some r => r.json true
    | _, _ => (itemsJson items).map fun js => some (.arr js)
  | .object members boxed toJSON =>
    match asked, toJSON with
    | false, some r => r.json true
    | _, _ =>
      match boxed with
      | some s => s.json.map some
      | none => (membersJson members).map fun js => some (.obj js)

/-- The items; a hole reads as `undefined`, and what is not printed is `null`. -/
def itemsJson : List (Option RawValue) → Except Unit (List JsonValue)
  | [] => .ok []
  | none :: items => do
    let js ← itemsJson items
    .ok (.null :: js)
  | some v :: items => do
    let j ← v.json false
    let js ← itemsJson items
    .ok (j.getD .null :: js)

/-- The members; what is not printed is left out. -/
def membersJson : List (Units × RawValue) → Except Unit (List (Units × JsonValue))
  | [] => .ok []
  | (k, v) :: members => do
    let j ← v.json false
    let js ← membersJson members
    .ok (j.elim js fun j => (k, j) :: js)

end

/-- `JSON.stringify`. -/
def stringify (v : RawValue) : Except Unit (Option Units) :=
  (v.json false).map (·.map JsonValue.print)

/-! ### `canonical` -/

/-- `undefined`, a function or a symbol. -/
def noForm : RawValue → Bool
  | .undefined => true
  | .symbol => true
  | .function _ => true
  | _ => false

/-- What is no object is left to `JSON.stringify`. -/
def leafText (v : RawValue) : Except Unit Units := v.stringify.map (·.getD nullText)

mutual

/-- `canonical`. -/
def canonical : RawValue → Except Unit Units
  | .undefined => leafText .undefined
  | .null => leafText .null
  | .symbol => leafText .symbol
  | .scalar s => leafText (.scalar s)
  | .unreadable => .error ()
  | .function toJSON => leafText (.function toJSON)
  | .array items _ => (canonicalItems items).map arrayText
  -- each part has its key, so that sorting the parts is visiting the sorted keys
  | .object members _ _ =>
    (canonicalMembers members).map fun parts => objectText (JsonValue.sortMembers parts)

/-- `value.map(canonical)`: a hole stays a hole, which is joined as an empty text. -/
def canonicalItems : List (Option RawValue) → Except Unit (List Units)
  | [] => .ok []
  | none :: items => do
    let ts ← canonicalItems items
    .ok ([] :: ts)
  | some v :: items => do
    let t ← v.canonical
    let ts ← canonicalItems items
    .ok (t :: ts)

/-- The parts of an object. -/
def canonicalMembers : List (Units × RawValue) → Except Unit (List (Units × Units))
  | [] => .ok []
  | (k, v) :: members =>
    if v.noForm then canonicalMembers members
    else do
      let t ← v.canonical
      let parts ← canonicalMembers members
      .ok ((k, t) :: parts)

end

/-! ### What is parsed -/

mutual

/-- The value that `JSON.parse` gives. -/
def ofJson : JsonValue → RawValue
  | .gap => .undefined
  | .null => .null
  | .bool b => .scalar (.bool b)
  | .num d => .scalar (.number d)
  | .str s => .scalar (.string s)
  | .arr items => .array (ofItems items) none
  | .obj members => .object (ofMembers members) none none

def ofItems : List JsonValue → List (Option RawValue)
  | [] => []
  | j :: items => some (ofJson j) :: ofItems items

def ofMembers : List (Units × JsonValue) → List (Units × RawValue)
  | [] => []
  | (k, j) :: members => (k, ofJson j) :: ofMembers members

end

/-- What comes out of the wire when a value goes in. -/
def parsed (v : RawValue) : Option JsonValue :=
  match v.stringify with
  | .ok (some s) => parseJson s
  | _ => none

/-! ### What a value itself says -/

mutual

/-- The JSON that the items and members of a value make up, with the keys in order, without its
`toJSON` methods and without what it is a wrapper of. A hole is a gap, unless it is alone in its
array, which is then like an empty one. A function that is an item is what its `toJSON` method
says. -/
def shape : RawValue → Except Unit JsonValue
  | .undefined => .ok .null
  | .null => .ok .null
  | .symbol => .ok .null
  | .scalar s => s.json
  | .unreadable => .error ()
  | .function toJSON => (json false (.function toJSON)).map (·.getD .null)
  | .array [none] _ => .ok (.arr [])
  | .array items _ => (shapeItems items).map .arr
  | .object members _ _ => (shapeMembers members).map fun js => .obj (JsonValue.sortMembers js)

def shapeItems : List (Option RawValue) → Except Unit (List JsonValue)
  | [] => .ok []
  | none :: items => do
    let js ← shapeItems items
    .ok (.gap :: js)
  | some v :: items => do
    let j ← v.shape
    let js ← shapeItems items
    .ok (j :: js)

def shapeMembers : List (Units × RawValue) → Except Unit (List (Units × JsonValue))
  | [] => .ok []
  | (k, v) :: members =>
    if v.noForm then shapeMembers members
    else do
      let j ← v.shape
      let js ← shapeMembers members
      .ok ((k, j) :: js)

end

mutual

/-- No `toJSON` method, no wrapper and no hole. -/
def Plain : RawValue → Prop
  | .undefined => True
  | .null => True
  | .symbol => True
  | .scalar _ => True
  | .unreadable => True
  | .function toJSON => toJSON = none
  | .array items toJSON => toJSON = none ∧ PlainItems items
  | .object members boxed toJSON => boxed = none ∧ toJSON = none ∧ PlainMembers members

def PlainItems : List (Option RawValue) → Prop
  | [] => True
  | none :: _ => False
  | some v :: items => v.Plain ∧ PlainItems items

def PlainMembers : List (Units × RawValue) → Prop
  | [] => True
  | (_, v) :: members => v.Plain ∧ PlainMembers members

end

/-- `JSON.stringify` prints what the value itself says, but for the order of the keys. -/
def Faithful (v : RawValue) : Prop :=
  ∃ j, v.json false = .ok (some j) ∧ v.shape = .ok j.sorted

end RawValue

end Axona
