import Axona.Pubsub.Envelope
import Mathlib.Algebra.Order.Ring.Rat

/-! # The wire codec

Three channels carry frames between two peers: the WebRTC data channel of the mesh, the socket
of a browser to its bridge, and the socket of a Node client to its bridge. A frame is an
envelope around the payload of `send`, of a reply or of `notify`; it crosses as a JSON text.
A payload may hold `BigInt`s and `Set`s, which JSON does not know, so `wire.js` has a codec for
them: a `BigInt` goes out as its digits and an `n`, a `Set` as an array, and a text of that form
comes back as a `BigInt`.

A JSON text stands for the tree it denotes: `WireTree` is what `JSON.stringify` writes and
`JSON.parse` reads back. -/

namespace Axona

/-! ### Values and texts -/

/-- A value of a payload: a JSON value, a `BigInt` or a `Set`. -/
inductive JsValue where
  | null
  | bool (b : Bool)
  | num (x : ℚ)
  | str (s : Text)
  | bigint (n : Int)
  | arr (xs : List JsValue)
  | set (xs : List JsValue)
  | obj (fields : List (Text × JsValue))

/-- The tree a JSON text denotes. -/
inductive WireTree where
  | null
  | bool (b : Bool)
  | num (x : ℚ)
  | str (s : Text)
  | arr (xs : List WireTree)
  | obj (fields : List (Text × WireTree))

namespace JsValue

/-- What holds of a value when it holds of its elements holds of every value. -/
@[elab_as_elim, induction_eliminator]
theorem induct {P : JsValue → Prop} (null : P .null) (bool : ∀ b, P (.bool b))
    (num : ∀ x, P (.num x)) (str : ∀ s, P (.str s)) (bigint : ∀ n, P (.bigint n))
    (arr : ∀ xs, (∀ x ∈ xs, P x) → P (.arr xs)) (set : ∀ xs, (∀ x ∈ xs, P x) → P (.set xs))
    (obj : ∀ fields : List (Text × JsValue), (∀ f ∈ fields, P f.2) → P (.obj fields))
    (v : JsValue) : P v := by
  refine @JsValue.rec P (fun xs => ∀ x ∈ xs, P x) (fun fields => ∀ f ∈ fields, P f.2)
    (fun f => P f.2) null bool num str bigint arr set obj ?_ ?_ ?_ ?_ ?_ v
  · simp
  · intro x xs hx hxs y hy
    rcases List.mem_cons.mp hy with rfl | hy
    · exact hx
    · exact hxs y hy
  · simp
  · intro f fields hf hfields g hg
    rcases List.mem_cons.mp hg with rfl | hg
    · exact hf
    · exact hfields g hg
  · exact fun _ _ h => h

end JsValue

/-! ### The codec -/

/-- `bigint.toString()`. -/
def bigintToText (n : Int) : Text :=
  if n < 0 then '-' :: Nat.toDigits 10 n.natAbs else Nat.toDigits 10 n.natAbs

/-- `BigInt(text)`, of a text of decimal digits with or without a sign. -/
def textToBigint : Text → Int
  | '-' :: ds => -(Nat.ofDigitChars 10 ds 0 : Int)
  | ds => Nat.ofDigitChars 10 ds 0

/-- The digits of the pattern: one or more, then a final `n`. -/
def digitsN (s : Text) : Bool :=
  s.getLast? == some 'n' && !s.dropLast.isEmpty && s.dropLast.all Char.isDigit

/-- `/^-?\d+n$/.test(s)`. -/
def isBigintText : Text → Bool
  | '-' :: s => digitsN s
  | s => digitsN s

/-- `bigintReviver`: a text of that form comes back as a `BigInt`. -/
def bigintReviver : JsValue → JsValue
  | .str s => if isBigintText s then .bigint (textToBigint s.dropLast) else .str s
  | v => v

/-! ### JSON -/

mutual

/-- `JSON.stringify(v, bigintReplacer)` where `replaced`, else `JSON.stringify(v)`: a `BigInt`
that nothing replaces throws, and a `Set` that nothing replaces is an object without fields. -/
def stringify (replaced : Bool) : JsValue → Option WireTree
  | .null => some .null
  | .bool b => some (.bool b)
  | .num x => some (.num x)
  | .str s => some (.str s)
  | .bigint n => if replaced then some (.str (bigintToText n ++ ['n'])) else none
  | .arr xs => (stringifyList replaced xs).map .arr
  | .set xs => if replaced then (stringifyList replaced xs).map .arr else some (.obj [])
  | .obj fields => (stringifyFields replaced fields).map .obj

def stringifyList (replaced : Bool) : List JsValue → Option (List WireTree)
  | [] => some []
  | x :: xs => do
    let y ← stringify replaced x
    let ys ← stringifyList replaced xs
    return y :: ys

def stringifyFields (replaced : Bool) : List (Text × JsValue) → Option (List (Text × WireTree))
  | [] => some []
  | (k, x) :: fields => do
    let y ← stringify replaced x
    let ys ← stringifyFields replaced fields
    return (k, y) :: ys

end

mutual

/-- `JSON.parse(text, reviver)`: the reviver sees every value once its elements are read. -/
def parse (reviver : JsValue → JsValue) : WireTree → JsValue
  | .null => reviver .null
  | .bool b => reviver (.bool b)
  | .num x => reviver (.num x)
  | .str s => reviver (.str s)
  | .arr xs => reviver (.arr (parseList reviver xs))
  | .obj fields => reviver (.obj (parseFields reviver fields))

def parseList (reviver : JsValue → JsValue) : List WireTree → List JsValue
  | [] => []
  | x :: xs => parse reviver x :: parseList reviver xs

def parseFields (reviver : JsValue → JsValue) : List (Text × WireTree) → List (Text × JsValue)
  | [] => []
  | (k, x) :: fields => (k, parse reviver x) :: parseFields reviver fields

end

/-! ### Digits -/

theorem digitsN_append {ds : Text} (hne : ds ≠ []) (hds : ∀ c ∈ ds, c.isDigit) :
    digitsN (ds ++ ['n']) = true := by
  have hall : ds.all Char.isDigit = true := by
    rw [List.all_eq_true]
    exact hds
  have hempty : ds.isEmpty = false := by
    rw [List.isEmpty_eq_false_iff]
    exact hne
  unfold digitsN
  rw [List.getLast?_concat, List.dropLast_concat, hempty, hall]
  rfl

/-- The text of a `BigInt` is of the form the reviver looks for. -/
theorem isBigintText_bigintToText (n : Int) : isBigintText (bigintToText n ++ ['n']) = true := by
  have hdigits : digitsN (Nat.toDigits 10 n.natAbs ++ ['n']) = true :=
    digitsN_append Nat.toDigits_ne_nil fun c hc =>
      Nat.isDigit_of_mem_toDigits (by decide) (by decide) hc
  unfold bigintToText
  split
  · exact hdigits
  rename_i h
  unfold isBigintText
  split
  next s heq =>
    -- no digit is a minus sign
    exfalso
    have hmem : '-' ∈ Nat.toDigits 10 n.natAbs := by
      cases hd : Nat.toDigits 10 n.natAbs with
      | nil => exact absurd hd Nat.toDigits_ne_nil
      | cons c cs =>
        rw [hd] at heq
        cases heq
        exact List.mem_cons_self
    have := Nat.isDigit_of_mem_toDigits (by decide) (by decide) hmem
    exact absurd this (by decide)
  · exact hdigits

/-- And reading it gives the `BigInt` back. -/
theorem textToBigint_bigintToText (n : Int) : textToBigint (bigintToText n) = n := by
  unfold bigintToText
  split
  next h =>
    show -(Nat.ofDigitChars 10 (Nat.toDigits 10 n.natAbs) 0 : Int) = n
    rw [Nat.ofDigitChars_ten_toDigits]
    omega
  next h =>
  unfold textToBigint
  split
  next s heq =>
    exfalso
    have hmem : '-' ∈ Nat.toDigits 10 n.natAbs := heq ▸ List.mem_cons_self
    have := Nat.isDigit_of_mem_toDigits (by decide) (by decide) hmem
    exact absurd this (by decide)
  · rw [Nat.ofDigitChars_ten_toDigits]
    omega

/-- The reviver undoes the replacer on a `BigInt`. -/
theorem bigintReviver_bigint (n : Int) :
    bigintReviver (.str (bigintToText n ++ ['n'])) = .bigint n := by
  show (if isBigintText (bigintToText n ++ ['n']) then
    JsValue.bigint (textToBigint (bigintToText n ++ ['n']).dropLast) else _) = _
  rw [if_pos (isBigintText_bigintToText n), List.dropLast_concat, textToBigint_bigintToText]

/-! ### What a channel does to a value -/

/-- A channel: the data channel of the mesh, the bridge socket of a browser, and the bridge socket
of a Node client, outward and inward. -/
inductive Channel where
  | mesh
  | bridge
  | clientOut
  | clientIn
deriving DecidableEq

/-- The sender passes `bigintReplacer`. A Node client does not; the bridge does. -/
def Channel.replaces (ch : Channel) : Bool := ch ≠ .clientOut

/-- The receiver passes `bigintReviver`. A Node client does not; the bridge does. -/
def Channel.revives (ch : Channel) : Bool := ch ≠ .clientIn

/-- The reviver a receiver passes. -/
def Channel.reviver (ch : Channel) : JsValue → JsValue := if ch.revives then bigintReviver else id

/-- A value through a channel, or nothing where `JSON.stringify` throws. -/
def Channel.pass (ch : Channel) (v : JsValue) : Option JsValue :=
  (stringify ch.replaces v).map (parse ch.reviver)

namespace JsValue

mutual

/-- The value with its `Set`s as arrays. -/
def setsToArrays : JsValue → JsValue
  | .arr xs => .arr (setsToArraysList xs)
  | .set xs => .arr (setsToArraysList xs)
  | .obj fields => .obj (setsToArraysFields fields)
  | v => v

def setsToArraysList : List JsValue → List JsValue
  | [] => []
  | x :: xs => setsToArrays x :: setsToArraysList xs

def setsToArraysFields : List (Text × JsValue) → List (Text × JsValue)
  | [] => []
  | (k, x) :: fields => (k, setsToArrays x) :: setsToArraysFields fields

end

mutual

/-- The test holds of the value and of all that is in it. -/
def all (p : JsValue → Bool) : JsValue → Bool
  | .arr xs => p (.arr xs) && allList p xs
  | .set xs => p (.set xs) && allList p xs
  | .obj fields => p (.obj fields) && allFields p fields
  | v => p v

def allList (p : JsValue → Bool) : List JsValue → Bool
  | [] => true
  | x :: xs => all p x && allList p xs

def allFields (p : JsValue → Bool) : List (Text × JsValue) → Bool
  | [] => true
  | (_, x) :: fields => all p x && allFields p fields

end

end JsValue

/-- What a channel carries: no text that looks like a `BigInt` where the receiver revives; no
`BigInt` where only one end knows the codec; no `Set` where the sender does not replace. -/
def Channel.carries (ch : Channel) : JsValue → Bool
  | .str s => !(ch.revives && isBigintText s)
  | .bigint _ => ch.replaces && ch.revives
  | .set _ => ch.replaces
  | _ => true

/-! ### Element by element -/

section

variable {ch : Channel} {rev : JsValue → JsValue} {replaced : Bool}

/-- A list comes through as it should when each of its elements does. -/
theorem parseList_stringifyList (xs : List JsValue)
    (h : ∀ x ∈ xs, (stringify replaced x).map (parse rev) = some x.setsToArrays ↔
      x.all ch.carries = true) :
    (stringifyList replaced xs).map (parseList rev) = some (JsValue.setsToArraysList xs) ↔
      JsValue.allList ch.carries xs = true := by
  induction xs with
  | nil => exact ⟨fun _ => rfl, fun _ => rfl⟩
  | cons x xs ih =>
    rw [JsValue.allList, Bool.and_eq_true, ← h x List.mem_cons_self,
      ← ih fun y hy => h y (List.mem_cons_of_mem _ hy), JsValue.setsToArraysList, stringifyList]
    cases stringify replaced x with
    | none => simp
    | some y =>
      cases stringifyList replaced xs with
      | none => simp
      | some ys =>
        show some (parse rev y :: parseList rev ys) = _ ↔ _
        simp

/-- The fields of an object come through as they should when each value does. -/
theorem parseFields_stringifyFields (fields : List (Text × JsValue))
    (h : ∀ f ∈ fields, (stringify replaced f.2).map (parse rev) = some f.2.setsToArrays ↔
      f.2.all ch.carries = true) : (stringifyFields replaced fields).map (parseFields rev) =
        some (JsValue.setsToArraysFields fields) ↔ JsValue.allFields ch.carries fields = true := by
  induction fields with
  | nil => exact ⟨fun _ => rfl, fun _ => rfl⟩
  | cons f fields ih =>
    obtain ⟨k, x⟩ := f
    rw [JsValue.allFields, Bool.and_eq_true, ← h (k, x) List.mem_cons_self,
      ← ih fun y hy => h y (List.mem_cons_of_mem _ hy), JsValue.setsToArraysFields,
      stringifyFields]
    cases stringify replaced x with
    | none => simp
    | some y =>
      cases stringifyFields replaced fields with
      | none => simp
      | some ys =>
        show some ((k, parse rev y) :: parseFields rev ys) = _ ↔ _
        simp

end

/-! ### A value through a channel -/

section

variable (ch : Channel)

theorem Channel.reviver_arr (xs : List JsValue) :
    ch.reviver (.arr xs) = .arr xs := by
  unfold reviver
  split <;> rfl

theorem Channel.reviver_obj (fields : List (Text × JsValue)) :
    ch.reviver (.obj fields) = .obj fields := by
  unfold reviver
  split <;> rfl

theorem Channel.pass_arr (xs : List JsValue) : ch.pass (.arr xs) =
      ((stringifyList ch.replaces xs).map (parseList ch.reviver)).map .arr := by
  show ((stringifyList ch.replaces xs).map WireTree.arr).map (parse ch.reviver) = _
  rw [Option.map_map, Option.map_map]
  congr 1
  funext ys
  exact ch.reviver_arr _

theorem Channel.pass_obj (fields : List (Text × JsValue)) : ch.pass (.obj fields) =
      ((stringifyFields ch.replaces fields).map (parseFields ch.reviver)).map .obj := by
  show ((stringifyFields ch.replaces fields).map WireTree.obj).map (parse ch.reviver) = _
  rw [Option.map_map, Option.map_map]
  congr 1
  funext ys
  exact ch.reviver_obj _

/-- A value comes out with its `Set`s as arrays and nothing else changed exactly where the channel
carries it. -/
theorem Channel.pass_iff (v : JsValue) :
    ch.pass v = some v.setsToArrays ↔ v.all ch.carries = true := by
  induction v with
  | null | bool b | num x => cases ch <;> exact ⟨fun _ => rfl, fun _ => rfl⟩
  | str s =>
    show some (ch.reviver (.str s)) = some (.str s) ↔ (!(ch.revives && isBigintText s)) = true
    unfold reviver
    cases ch.revives with
    | false => simp
    | true =>
      show some (if isBigintText s then _ else _) = _ ↔ _
      cases isBigintText s <;> simp
  | bigint n =>
    cases ch with
    | mesh | bridge =>
      refine ⟨fun _ => rfl, fun _ => ?_⟩
      exact congrArg some (bigintReviver_bigint n)
    | clientOut | clientIn =>
      refine ⟨?_, ?_⟩ <;> rintro ⟨⟩
  | arr xs ih =>
    rw [pass_arr]
    have hlist := parseList_stringifyList xs ih
    show _ ↔ (true && JsValue.allList ch.carries xs) = true
    rw [Bool.true_and, ← hlist]
    exact (Option.map_injective fun _ _ h => JsValue.arr.inj h).eq_iff (b := some _)
  | set xs ih =>
    have hlist := parseList_stringifyList xs ih
    show _ ↔ (ch.replaces && JsValue.allList ch.carries xs) = true
    cases hr : ch.replaces with
    | false =>
      -- nothing replaces it, so it arrives as an object without fields
      unfold pass
      rw [hr]
      show some (ch.reviver (.obj [])) = some (.arr _) ↔ _
      rw [reviver_obj]
      refine ⟨?_, ?_⟩ <;> rintro ⟨⟩
    | true =>
      have harr : ch.pass (.set xs) = ch.pass (.arr xs) := by
        unfold pass
        rw [hr]
        rfl
      rw [harr, pass_arr, Bool.true_and, ← hlist]
      exact (Option.map_injective fun _ _ h => JsValue.arr.inj h).eq_iff (b := some _)
  | obj fields ih =>
    rw [pass_obj]
    have hlist := parseFields_stringifyFields fields ih
    show _ ↔ (true && JsValue.allFields ch.carries fields) = true
    rw [Bool.true_and, ← hlist]
    exact (Option.map_injective fun _ _ h => JsValue.obj.inj h).eq_iff (b := some _)
end

/-! ### Frames -/

/-- What a transport sends: a request, the answer to one, or a notification. -/
inductive WireFrame where
  | req (id : ℚ) (type : Text) (body : JsValue)
  | res (id : ℚ) (ok : Bool) (body : JsValue)
  | ntf (type : Text) (body : JsValue)

/-- The payload of a frame, as `send`, `_reply` and `notify` build it. -/
def WireFrame.payload : WireFrame → JsValue
  | .req id type body => .obj [("k".toList, .str "req".toList), ("id".toList, .num id),
      ("type".toList, .str type), ("body".toList, body)]
  | .res id ok body => .obj [("k".toList, .str "res".toList), ("id".toList, .num id),
      ("ok".toList, .bool ok), ("body".toList, body)]
  | .ntf type body => .obj [("k".toList, .str "ntf".toList), ("type".toList, .str type),
      ("body".toList, body)]

/-- The message on the channel: the mesh sends the payload itself, a socket wraps it. -/
def Channel.wrap (ch : Channel) (payload : JsValue) : JsValue :=
  if ch = .mesh then payload
  else .obj [("type".toList, .str "axona".toList), ("payload".toList, payload)]

/-- A property of an object. -/
def JsValue.field (k : String) : JsValue → Option JsValue
  | .obj fields => (fields.find? fun f => f.1 = k.toList).map Prod.snd
  | _ => none

/-- The two types the mesh keeps to itself. -/
def heartbeatTypes : List Text := ["ping".toList, "pong".toList]

/-- A message of the heartbeat of the mesh. -/
def JsValue.isHeartbeat (msg : JsValue) : Bool :=
  match msg.field "type" with
  | some (.str s) => heartbeatTypes.contains s
  | _ => false

/-- What the receiver takes for the payload: the mesh everything but its heartbeat, a socket what
is wrapped for Axona. -/
def Channel.unwrap (ch : Channel) (msg : JsValue) : Option JsValue :=
  if ch = .mesh then
    if msg.isHeartbeat then none else some msg
  else
    match msg.field "type" with
    | some (.str s) => if s = "axona".toList then msg.field "payload" else none
    | _ => none

/-- `_onMessage` and `handleIncoming`: the frame a payload is dispatched as. A type or an id that
came out as a `BigInt` finds no handler and no request. -/
def WireFrame.read (payload : JsValue) : Option WireFrame :=
  match payload.field "k" with
  | some (.str k) =>
    if k = "req".toList then
      match payload.field "id", payload.field "type", payload.field "body" with
      | some (.num id), some (.str type), some body => some (.req id type body)
      | _, _, _ => none
    else if k = "res".toList then
      match payload.field "id", payload.field "ok", payload.field "body" with
      | some (.num id), some (.bool ok), some body => some (.res id ok body)
      | _, _, _ => none
    else if k = "ntf".toList then
      match payload.field "type", payload.field "body" with
      | some (.str type), some body => some (.ntf type body)
      | _, _ => none
    else none
  | _ => none

/-- A frame through a channel: what the handler of the receiver is called with. -/
def Channel.deliver (ch : Channel) (fr : WireFrame) : Option WireFrame :=
  (ch.pass (ch.wrap fr.payload)).bind fun msg => (ch.unwrap msg).bind WireFrame.read

/-- The frame with the `Set`s of its body as arrays. -/
def WireFrame.setsToArrays : WireFrame → WireFrame
  | .req id type body => .req id type body.setsToArrays
  | .res id ok body => .res id ok body.setsToArrays
  | .ntf type body => .ntf type body.setsToArrays

/-- The type of a frame. -/
def WireFrame.type? : WireFrame → Option Text
  | .req _ type _ | .ntf type _ => some type
  | .res .. => none

/-- The body of a frame. -/
def WireFrame.body : WireFrame → JsValue
  | .req _ _ body | .res _ _ body | .ntf _ body => body

/-- **The condition.** Everything in the payload is something the channel carries, and on the mesh
the type is not that of a heartbeat. -/
def Channel.Carries (ch : Channel) (fr : WireFrame) : Prop :=
  fr.payload.all ch.carries = true ∧
    (ch = .mesh → ∀ s ∈ fr.type?, s ∉ heartbeatTypes)

/-! ### A frame through a channel -/

section

variable (ch : Channel)

theorem Channel.pass_str (s : Text) : ch.pass (.str s) = some (ch.reviver (.str s)) :=
  rfl

theorem Channel.pass_num (x : ℚ) : ch.pass (.num x) = some (.num x) := by
  cases ch <;> rfl

theorem Channel.pass_bool (b : Bool) : ch.pass (.bool b) = some (.bool b) := by
  cases ch <;> rfl

/-- An object passes field by field. -/
theorem Channel.pass_fields (fields : List (Text × JsValue)) :
    ch.pass (.obj fields) =
      (fields.mapM fun f => (ch.pass f.2).map fun v => (f.1, v)).map .obj := by
  rw [pass_obj]
  congr 1
  induction fields with
  | nil => rfl
  | cons f fields ih =>
    obtain ⟨k, x⟩ := f
    rw [List.mapM_cons, ← ih, stringifyFields]
    show _ = (ch.pass x |>.map fun v => (k, v)).bind _
    unfold pass
    cases stringify ch.replaces x with
    | none => rfl
    | some y => cases stringifyFields ch.replaces fields <;> rfl

/-- A wrapped payload passes when the payload does. -/
theorem Channel.pass_wrap (payload : JsValue) :
    ch.pass (ch.wrap payload) = (ch.pass payload).map ch.wrap := by
  unfold wrap
  split
  · exact (Option.map_id' ..).symm
  have haxona : ch.reviver (.str "axona".toList) = .str "axona".toList := by cases ch <;> rfl
  rw [pass_fields]
  simp only [List.mapM_cons, List.mapM_nil, pass_str, haxona]
  cases ch.pass payload <;> rfl

/-- The payload that comes out of a channel, whatever the channel made of it, is what the dispatch
reads. -/
theorem Channel.deliver_eq (fr : WireFrame) :
    ch.deliver fr = (ch.pass fr.payload).bind fun p =>
      if ch = .mesh ∧ p.isHeartbeat = true then none else WireFrame.read p := by
  unfold deliver
  rw [pass_wrap, Option.bind_map]
  congr 1
  funext p
  cases ch with
  | mesh =>
    show (if p.isHeartbeat = true then none else some p).bind WireFrame.read = _
    cases p.isHeartbeat <;> rfl
  | bridge | clientOut | clientIn => rfl

/-- A text comes out as it went in, or as a `BigInt`. -/
theorem Channel.reviver_str (s : Text) :
    ch.reviver (.str s) = .str s ∨ ∃ n, ch.reviver (.str s) = .bigint n := by
  unfold reviver bigintReviver
  split
  · dsimp only
    split
    · exact .inr ⟨_, rfl⟩
    · exact .inl rfl
  · exact .inl rfl

theorem Channel.reviver_str_iff (s : Text) :
    ch.reviver (.str s) = .str s ↔ (JsValue.str s).all ch.carries = true := by
  rw [← ch.pass_iff, pass_str]
  exact Option.some_inj.symm

theorem Channel.all_payload (fr : WireFrame) : fr.payload.all ch.carries = true ↔
      (∀ s ∈ fr.type?, (JsValue.str s).all ch.carries = true) ∧ fr.body.all ch.carries = true := by
  have hreq : (JsValue.str ['r', 'e', 'q']).all ch.carries = true := by cases ch <;> rfl
  have hres : (JsValue.str ['r', 'e', 's']).all ch.carries = true := by cases ch <;> rfl
  have hntf : (JsValue.str ['n', 't', 'f']).all ch.carries = true := by cases ch <;> rfl
  have hnum : ∀ x, (JsValue.num x).all ch.carries = true := by cases ch <;> exact fun _ => rfl
  have hbool : ∀ b, (JsValue.bool b).all ch.carries = true := by cases ch <;> exact fun _ => rfl
  have hobj : ∀ fields, (JsValue.obj fields).all ch.carries =
      JsValue.allFields ch.carries fields := by cases ch <;> exact fun _ => rfl
  cases fr <;>
    simp [WireFrame.payload, WireFrame.type?, WireFrame.body, JsValue.allFields, hobj, hnum, hbool,
      hreq, hres, hntf]

end

section

variable (ch : Channel) (id : ℚ) (type : Text) (ok : Bool) (body : JsValue)

theorem Channel.reviver_kind (ch : Channel) :
    ∀ k ∈ ["req", "res", "ntf"], ch.reviver (.str k.toList) = .str k.toList := by
  intro k hk
  rw [ch.reviver_str_iff]
  revert k
  cases ch <;> decide

/-- A frame comes out with the body the channel made of its own, and the type likewise. -/
theorem Channel.pass_req : ch.pass (WireFrame.req id type body).payload =
    (ch.pass body).map fun b => .obj [("k".toList, .str "req".toList), ("id".toList, .num id),
      ("type".toList, ch.reviver (.str type)), ("body".toList, b)] := by
  rw [WireFrame.payload, pass_fields]
  simp only [List.mapM_cons, List.mapM_nil, pass_str, pass_num, reviver_kind ch "req" (by decide)]
  cases ch.pass body <;> rfl

theorem Channel.pass_res : ch.pass (WireFrame.res id ok body).payload =
    (ch.pass body).map fun b => .obj [("k".toList, .str "res".toList), ("id".toList, .num id),
      ("ok".toList, .bool ok), ("body".toList, b)] := by
  rw [WireFrame.payload, pass_fields]
  simp only [List.mapM_cons, List.mapM_nil, pass_str, pass_num, pass_bool,
    reviver_kind ch "res" (by decide)]
  cases ch.pass body <;> rfl

theorem Channel.pass_ntf : ch.pass (WireFrame.ntf type body).payload =
    (ch.pass body).map fun b => .obj [("k".toList, .str "ntf".toList),
      ("type".toList, ch.reviver (.str type)), ("body".toList, b)] := by
  rw [WireFrame.payload, pass_fields]
  simp only [List.mapM_cons, List.mapM_nil, pass_str, reviver_kind ch "ntf" (by decide)]
  cases ch.pass body <;> rfl

end

/-- The mesh keeps the types of its heartbeat to itself. -/
theorem Channel.kept_iff (ch : Channel) {s : Text} {fr fr' : WireFrame} :
    (if ch = .mesh ∧ heartbeatTypes.contains s = true then none else some fr) = some fr' ↔
      fr = fr' ∧ (ch = .mesh → s ∉ heartbeatTypes) := by
  by_cases hbeat : ch = .mesh ∧ heartbeatTypes.contains s = true
  · rw [if_pos hbeat]
    refine ⟨by rintro ⟨⟩, fun h => ?_⟩
    exact absurd (List.contains_iff_mem.mp hbeat.2) (h.2 hbeat.1)
  · have hquiet : ch = .mesh → s ∉ heartbeatTypes := fun hmesh hmem =>
      hbeat ⟨hmesh, List.contains_iff_mem.mpr hmem⟩
    rw [if_neg hbeat, Option.some_inj, and_iff_left hquiet]

/-- **A channel is transparent to a frame exactly where it carries it.** -/
theorem codec_transparent (ch : Channel) (fr : WireFrame) :
    ch.deliver fr = some fr.setsToArrays ↔ ch.Carries fr := by
  unfold Channel.Carries
  rw [ch.all_payload, ← ch.pass_iff, ch.deliver_eq]
  cases fr with
  | res id ok body =>
    rw [ch.pass_res]
    cases hbody : ch.pass body with
    | none => simp [WireFrame.body, hbody]
    | some b =>
      show (if ch = .mesh ∧ false = true then none else some (WireFrame.res id ok b)) = _ ↔ _
      simp [WireFrame.setsToArrays, WireFrame.body, WireFrame.type?, hbody]
  | req id type body =>
    rw [ch.pass_req]
    cases hbody : ch.pass body with
    | none => simp [WireFrame.body, hbody]
    | some b =>
      have hcarries := ch.reviver_str_iff type
      rcases ch.reviver_str type with htype | ⟨n, htype⟩
      · rw [htype] at hcarries ⊢
        show (if ch = .mesh ∧ heartbeatTypes.contains type = true then none
          else some (WireFrame.req id type b)) = _ ↔ _
        rw [ch.kept_iff]
        simp [WireFrame.setsToArrays, WireFrame.body, WireFrame.type?, hbody, ← hcarries]
      · rw [htype] at hcarries ⊢
        show (if ch = .mesh ∧ false = true then none else none) = _ ↔ _
        simp [WireFrame.setsToArrays, WireFrame.body, WireFrame.type?, hbody, ← hcarries]
  | ntf type body =>
    rw [ch.pass_ntf]
    cases hbody : ch.pass body with
    | none => simp [WireFrame.body, hbody]
    | some b =>
      have hcarries := ch.reviver_str_iff type
      rcases ch.reviver_str type with htype | ⟨n, htype⟩
      · rw [htype] at hcarries ⊢
        show (if ch = .mesh ∧ heartbeatTypes.contains type = true then none
          else some (WireFrame.ntf type b)) = _ ↔ _
        rw [ch.kept_iff]
        simp [WireFrame.setsToArrays, WireFrame.body, WireFrame.type?, hbody, ← hcarries]
      · rw [htype] at hcarries ⊢
        show (if ch = .mesh ∧ false = true then none else none) = _ ↔ _
        simp [WireFrame.setsToArrays, WireFrame.body, WireFrame.type?, hbody, ← hcarries]

/-- The text of a message and a `BigInt` of the same digits are one message on the wire, and the
receiver takes both for the `BigInt`. -/
theorem text_revived :
    ¬ ∀ (ch : Channel) (fr : WireFrame), ch.deliver fr = some fr.setsToArrays := by
  intro h
  have hdelivered : Channel.deliver .mesh (.ntf "chat".toList (.str "7n".toList)) =
      some (.ntf "chat".toList (.bigint 7)) := rfl
  have := (h .mesh (.ntf "chat".toList (.str "7n".toList))).symm.trans hdelivered
  cases this

/-- The socket of a Node client throws on a `BigInt` it is to send, and hands on a text where the
bridge sent a `BigInt`. -/
example :
    Channel.deliver .clientOut (.ntf "probe".toList (.bigint 7)) = none ∧
      Channel.deliver .clientIn (.ntf "probe".toList (.bigint 7)) =
        some (.ntf "probe".toList (.str "7n".toList)) := ⟨rfl, rfl⟩

end Axona
