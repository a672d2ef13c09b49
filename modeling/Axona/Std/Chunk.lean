import Axona.Pubsub.Envelope
import Axona.Library.Base64
import Axona.Library.OrderedMap
import Mathlib.Data.Rat.Floor

/-! # Files in chunks

`chunkBytes` cuts a file into a manifest and slices, one message each, and a reassembler puts the
messages of many files together again (`std/chunk.js`). A message comes from anyone, so its fields
are whatever JSON brings. What the language does with a value that is neither a number nor a text is
left open (`Platform`), and so is how `b64ToBytes` reads a text that `bytesToB64` did not write: the
one of Node passes over what is wrong in it, the one of a browser throws. -/

namespace Axona

open Library

/-- A number: `NaN`, one of the infinities, or finite. -/
inductive JsNumber where
  | nan
  | inf (negative : Bool)
  | fin (x : ℚ)
deriving DecidableEq

/-- A field of an object. `V` are the values other than numbers and texts. -/
inductive Field (V : Type*) where
  /-- `undefined` -/
  | missing
  | null
  | num (x : JsNumber)
  | str (s : Text)
  | other (v : V)
deriving DecidableEq

namespace Field

variable {V : Type*}

/-- `a ?? b` -/
def coalesce : Field V → Field V → Field V
  | missing, b | null, b => b
  | a, _ => a

/-- The default of a parameter, for `undefined` only. -/
def withDefault : Field V → Field V → Field V
  | missing, b => b
  | a, _ => a

/-- `a == null` -/
def isNullish : Field V → Bool
  | missing | null => true
  | _ => false

/-- Is the field this text? -/
def isText (t : Text) : Field V → Bool
  | str s => s == t
  | _ => false

/-- Is the field this number? -/
def isNumber (q : ℚ) : Field V → Bool
  | num x => x == .fin q
  | _ => false

/-- The number, if it is one. -/
def number : Field V → Option JsNumber
  | num x => some x
  | _ => none

end Field

/-- What the code stands on. -/
structure Platform (V : Type*) where
  /-- The length that no `Uint8Array` exceeds. -/
  maxLength : Nat
  /-- `Number(text)` -/
  toNumber : Text → JsNumber
  /-- `new Uint8Array(value)`, `none` where it throws. -/
  fromValue : V → Option (List UInt8)
  /-- Is the value true? -/
  truthy : V → Bool
  /-- `b64ToBytes`, `none` where it throws. -/
  b64ToBytes : Text → Option (List UInt8)
  /-- It reads what `bytesToB64` writes. -/
  reads : ∀ bytes, b64ToBytes (Base64.encode bytes) = some bytes

namespace Platform

variable {V : Type*} (P : Platform V)

/-- A whole number of bytes that are zero; `none` for a `RangeError`. -/
def zeros : JsNumber → Option (List UInt8)
  | .nan => some []
  | .inf _ => none
  | .fin x =>
    let length := if 0 ≤ x then ⌊x⌋ else ⌈x⌉
    if 0 ≤ length ∧ length ≤ P.maxLength then some (List.replicate length.toNat 0) else none

/-- `new Uint8Array(size)`, of a size that is not nullish. -/
def newUint8Array : Field V → Option (List UInt8)
  | .missing | .null => some []
  | .num x => P.zeros x
  | .str s => P.zeros (P.toNumber s)
  | .other v => P.fromValue v

/-- Is the field true? -/
def isTrue : Field V → Bool
  | .missing | .null => false
  | .num .nan => false
  | .num (.inf _) => true
  | .num (.fin x) => x != 0
  | .str s => !s.isEmpty
  | .other v => P.truthy v

end Platform

/-! ### Cutting -/

/-- `CHUNK_FORMAT` -/
def chunkFormat : ℚ := 1

/-- `ENVELOPE_RESERVE` -/
def envelopeReserve : ℚ := 1024

/-- A message: a manifest or a slice. -/
structure ChunkMessage (V : Type*) where
  f : Field V := .missing
  k : Field V := .missing
  id : Field V := .missing
  n : Field V := .missing
  i : Field V := .missing
  d : Field V := .missing
  size : Field V := .missing
  name : Field V := .missing
  mime : Field V := .missing
  metadata : Field V := .missing
deriving DecidableEq

/-- The options of `chunkBytes`; `maxMessageBytes` as the number it is. -/
structure ChunkOptions (V : Type*) where
  name : Field V := .missing
  mime : Field V := .missing
  metadata : Field V := .missing
  maxMessageBytes : JsNumber := .fin 15360
  fileId : Field V := .missing

/-- What `rawChunkSize` returns. -/
inductive RawChunk where
  | nan
  | unbounded
  | size (raw : Nat)
deriving DecidableEq

/-- `rawChunkSize` -/
def rawChunkSize : JsNumber → RawChunk
  | .nan => .nan
  | .inf false => .unbounded
  | .inf true => .size 1
  | .fin x => .size (max 1 ⌊(x - envelopeReserve) * 3 / 4⌋.toNat)

namespace RawChunk

/-- `n`: how many slices there are. -/
def count : RawChunk → Nat → JsNumber
  | nan, _ => .nan
  | unbounded, _ => .fin 1
  | size raw, length => .fin (max 1 ((length + raw - 1) / raw) : Nat)

/-- The slices. The loop up to `NaN` makes none. -/
def slices : RawChunk → List UInt8 → List (List UInt8)
  | nan, _ => []
  | unbounded, bytes => [bytes]
  | size raw, bytes =>
    (List.range (max 1 ((bytes.length + raw - 1) / raw))).map fun i =>
      (bytes.take (min bytes.length ((i + 1) * raw))).drop (i * raw)

end RawChunk

namespace ChunkOptions

variable {V : Type*} (P : Platform V) (o : ChunkOptions V) (random : Text) (bytes : List UInt8)

/-- The name in force. -/
def fileName : Field V := o.name.withDefault (.str "file".toList)

/-- The type in force. -/
def fileMime : Field V := o.mime.withDefault (.str "application/octet-stream".toList)

/-- `fileId || randomFileId()` -/
def id : Field V := if P.isTrue o.fileId then o.fileId else .str random

/-- `n` -/
def count : JsNumber := (rawChunkSize o.maxMessageBytes).count bytes.length

/-- The slices of the bytes. -/
def slices : List (List UInt8) := (rawChunkSize o.maxMessageBytes).slices bytes

/-- The manifest. -/
def manifest : ChunkMessage V where
  f := .num (.fin chunkFormat)
  k := .str ['m']
  id := o.id P random
  n := .num (o.count bytes)
  size := .num (.fin bytes.length)
  name := o.fileName
  mime := o.fileMime
  metadata := if o.metadata.isNullish then .missing else o.metadata

/-- The message of a slice. -/
def chunk (i : Nat) (slice : List UInt8) : ChunkMessage V where
  f := .num (.fin chunkFormat)
  k := .str ['c']
  id := o.id P random
  i := .num (.fin i)
  n := .num (o.count bytes)
  d := .str (Base64.encode slice)

/-- `chunkBytes`: the messages. -/
def chunkBytes : List (ChunkMessage V) :=
  o.manifest P random bytes :: (o.slices bytes).mapIdx (o.chunk P random bytes)

end ChunkOptions

/-! ### Putting together -/

/-- What the reassembler has of a file. -/
structure FileRecord (V : Type*) where
  n : Option JsNumber
  metadata : Field V
  name : Field V
  mime : Field V
  size : Field V
  slots : OrderedMap JsNumber (List UInt8)
  fired : Bool

/-- What `onComplete` is called with. -/
structure Completed (V : Type*) where
  id : Text
  name : Field V
  mime : Field V
  size : Nat
  bytes : List UInt8
  metadata : Field V
deriving DecidableEq

/-- How a message is put to the record of its file. -/
inductive Putting where
  | refused
  | threw
  | taken
deriving DecidableEq

/-- How `accept` ends: it returns `false`, throws, or returns `true`, perhaps after `onComplete`. -/
inductive Acceptance (V : Type*) where
  | refused
  | threw
  | taken (completed : Option (Completed V))
deriving DecidableEq

namespace FileRecord

variable {V : Type*} (P : Platform V)

/-- `mk` -/
def mk₀ : FileRecord V where
  n := none
  metadata := .null
  name := .str "file".toList
  mime := .str "application/octet-stream".toList
  size := .null
  slots := ∅
  fired := false

/-- A manifest says all there is to say of the file. -/
def putManifest (f : FileRecord V) (m : ChunkMessage V) : FileRecord V :=
  { f with
    name := m.name.coalesce f.name
    mime := m.mime.coalesce f.mime
    size := m.size.coalesce f.size
    metadata := m.metadata.coalesce f.metadata
    n := m.n.number.or f.n }

/-- A slice brings its bytes, unless its place is taken, and the count where none is known. -/
def putSlice (f : FileRecord V) (n : Field V) (i : JsNumber) (d : Text) :
    FileRecord V × Putting :=
  let f := { f with n := f.n.or n.number }
  if f.slots.has i then (f, .taken)
  else match P.b64ToBytes d with
    | none => (f, .threw)
    | some bytes => ({ f with slots := f.slots.set i bytes }, .taken)

/-- A message is put to the record of its file. -/
def put (f : FileRecord V) (m : ChunkMessage V) : FileRecord V × Putting :=
  if m.k.isText ['m'] then (f.putManifest m, .taken)
  else if m.k.isText ['c'] then
    match m.i, m.d with
    | .num i, .str d => f.putSlice P m.n i d
    | _, _ => (f, .refused)
  else (f, .refused)

/-- As many indices are there as the count says. -/
def full (f : FileRecord V) : Bool := f.n == some (.fin f.slots.size)

/-- The slices in their order; `none` where one is missing, and its length is asked. -/
def slices (f : FileRecord V) : Option (List (List UInt8)) :=
  (List.range f.slots.size).mapM fun i : Nat => f.slots.get (.fin i)

/-- `bytes`, before and after the slices are set: `none` where there is no room for them. -/
def assemble (f : FileRecord V) (slices : List (List UInt8)) : Option (List UInt8) :=
  let len := slices.flatten.length
  match if f.size.isNullish then some (List.replicate len 0) else P.newUint8Array f.size with
  | none => none
  | some bytes => if bytes.length < len then none else some (slices.flatten ++ bytes.drop len)

/-- `complete`: the record and the call of `onComplete`, `none` where it throws. -/
def complete (f : FileRecord V) (id : Text) : Option (FileRecord V × Option (Completed V)) :=
  if f.fired || !f.full then some (f, none)
  else match f.slices with
    | none => none
    | some slices =>
      match f.assemble P slices with
      | none => none
      | some bytes => some ({ f with fired := true, slots := ∅ },
          some ⟨id, f.name, f.mime, bytes.length, bytes, f.metadata⟩)

end FileRecord

/-- `files` -/
abbrev Reassembler (V : Type*) := OrderedMap Text (FileRecord V)

namespace Reassembler

variable {V : Type*} (P : Platform V)

/-- The record of a file, made anew at its first message. -/
def file (s : Reassembler V) (id : Text) : FileRecord V := (s.get id).getD .mk₀

/-- A message of a file is taken. -/
def take (s : Reassembler V) (id : Text) (m : ChunkMessage V) : Reassembler V × Acceptance V :=
  let f := s.file id
  if f.fired then (s.set id f, .taken none)
  else match f.put P m with
    | (f, .refused) => (s.set id f, .refused)
    | (f, .threw) => (s.set id f, .threw)
    | (f, .taken) =>
      match f.complete P id with
      | none => (s.set id f, .threw)
      | some (f, completed) => (s.set id f, .taken completed)

/-- Does the reassembler keep to other files? -/
def excludes (only : Option Text) (id : Text) : Bool := only.any (· != id)

/-- `accept`, of a message that is an object or not; `only` is the file it keeps to. -/
def accept (only : Option Text) (s : Reassembler V) :
    Option (ChunkMessage V) → Reassembler V × Acceptance V
  | none => (s, .refused)
  | some m =>
    if !m.f.isNumber chunkFormat then (s, .refused)
    else match m.id with
      | .str id => if excludes only id then (s, .refused) else s.take P id m
      | _ => (s, .refused)

end Reassembler

end Axona
