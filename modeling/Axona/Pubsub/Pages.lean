import Axona.Pubsub.MergeMachine

/-! # The pages of an export

A winner pulls an export frame by frame: the first pull is at the header, and each later one at the
cursor that the last frame ended at (`_mergePull`). Here are the frames as values, and the loser's
answers to such a sequence of pulls. -/

namespace Axona

open Library

/-- A data frame: the cursor it answers, what it carries, where it ends, and whether more is to
come. -/
structure Page where
  cursor : Cursor
  items : List Item
  last : Cursor
  more : Bool

namespace Page

def bodies (p : Page) : List Entry :=
  p.items.filterMap fun i => match i with | .body e => some e | .del _ => none

def dels (p : Page) : List Del :=
  p.items.filterMap fun i => match i with | .del d => some d | .body _ => none

end Page

/-- The frame that answers a pull at a cursor. -/
def Snapshot.page (s : Snapshot) (want : Cursor) : Page :=
  let left := itemsAfter s.items want
  let items := left.take (frameLength left)
  ⟨want, items, (items.getLast?).elim want Item.cursor, items.length < left.length⟩

/-- The frames that at most `n` pulls get, each at the cursor the one before ended at. -/
def Snapshot.pages (s : Snapshot) : Nat → Cursor → List Page
  | 0, _ => []
  | n + 1, want =>
    if (s.page want).more then s.page want :: s.pages n (s.page want).last else [s.page want]

/-! ### What a frame takes on the wire

The builder counts `json.length + 160` for an entry, whatever it is. What follows is the length of
the text that `JSON.stringify` makes of it. -/

/-- The texts that are not made here. -/
structure FrameText where
  /-- The length of a body as a string, in its quotes and with its escapes. -/
  quoted : Json → Nat
  /-- What a frame takes beside its entries: topic, `corr`, epoch, cursors and manifest. -/
  rest : Nat

/-- The length of a number's text. -/
def numberLength (n : Int) : Nat := (toString n).length

/-- The length of an object's text, from its keys and the lengths of their values. -/
def objectLength (members : List (String × Nat)) : Nat :=
  2 + (members.map fun m => m.1.length + 3 + m.2).sum + (members.length - 1)

namespace FrameText

variable (w : FrameText)

/-- The length of an entry's text in `msgs` or `dels`. -/
def entry : Item → Nat
  | .body e => objectLength <|
      [("json", w.quoted e.json), ("publishTs", numberLength e.publishTs),
        ("msgId", e.msgId.length + 2)] ++ (e.seq.map fun k => ("seq", numberLength k)).toList
  | .del d => objectLength <|
      [("del", 4), ("msgId", d.msgId.length + 2)]
        ++ (d.killTs.map fun ts => ("killTs", numberLength ts)).toList
        ++ [("signer", d.signer.elim 4 fun s => s.length + 2)]
        ++ (d.seq.map fun k => ("seq", numberLength k)).toList

/-- The length of a frame's text: each entry with a comma, and its id with one in the slice. -/
def frame (l : List Item) : Nat :=
  w.rest + (l.map fun i => w.entry i + 1 + (i.id.length + 2) + 1).sum

end FrameText

/-- The group of equal stamps around a place. -/
def groupItems (ts : Int) (before behind : List Item) : List Item :=
  (before.reverse.takeWhile fun i => i.ts = ts).reverse ++ behind.takeWhile fun i => i.ts = ts

/-- Entries of one group. -/
def OneStamp (l : List Item) : Prop := ∀ i ∈ l, ∀ j ∈ l, i.ts = j.ts

/-- The frames of an export tile it. -/
structure Tiled (s : Snapshot) (ps : List Page) : Prop where
  /-- The first pull is at the header, each later one where the last frame ended. -/
  follow : (ps.map (·.cursor)) = .header :: (ps.dropLast.map (·.last))
  /-- The last frame, and no other, has no more behind it. -/
  ends : ps.map (·.more) = List.replicate (ps.length - 1) true ++ [false]
  /-- Every body is sent once, in order. -/
  bodies : ps.flatMap Page.bodies = s.bodies
  /-- Every deletion is sent once, in order. -/
  dels : ps.flatMap Page.dels = s.dels

/-- What is asked of the frames of an export. -/
structure Paged (w : FrameText) (s : Snapshot) (ps : List Page) : Prop
    extends Tiled s ps where
  /-- A frame is within bounds, but for what is of one group. -/
  fits : ∀ p ∈ ps, w.frame p.items ≤ replayChunkBytes ∨ OneStamp p.items
  /-- No frame ends within a group, unless the group is out of bounds. -/
  groups : ∀ ps₁ ps₂ i j, ps = ps₁ ++ ps₂ → (ps₁.flatMap (·.items)).getLast? = some i →
    (ps₂.flatMap (·.items)).head? = some j → i.ts = j.ts → replayChunkBytes
      < w.frame (groupItems j.ts (ps₁.flatMap (·.items)) (ps₂.flatMap (·.items)))

namespace Node

/-- What goes out for a frame. -/
def pageFrame (n : Node) (q : MergePull) (ρ : RoleRef) (x : ExportRef) (p : Page) : Frame :=
  let m := n.exports.get x
  .exportFrame q.requester q.topicId q.corr (toInt32 (n.role ρ).epoch) (some p.cursor) p.bodies
    p.dels ⟨some p.last, p.more, m.manifest.bodies.length, m.manifest.dels.length, m.hash⟩

/-- The pulls of an export, one after the other. -/
def answerPulls (n : Node) (q : MergePull) (ρ : RoleRef) (x : ExportRef) (cs : List Cursor) :
    Node :=
  cs.foldl (fun n c => n.mergeDataFrame { q with cursor := some c } ρ x) n

end Node

end Axona
