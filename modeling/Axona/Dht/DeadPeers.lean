import Axona.Library.OrderedMap
import Axona.Pubsub.Envelope
import Mathlib.Data.Rat.Floor

/-! # The marks of dead peers

`DeadPeers` keeps a mark for each identity that is not to be dialled now. A loss mark counts the
failures of its identity and says when the next dial is due; an exhausted one, with as many failures
as are counted, is due once for each refill window. A policy mark is never due. The numbers of a
configuration are any finite ones, and so are the times. -/

namespace Axona

open Library

/-! ### Configurations -/

/-- What the table is constructed with. A number that is absent, or is no finite number, is
`none`. -/
structure MarkOptions where
  B : Option ℚ := none
  factor : Option ℚ := none
  aMax : Option ℚ := none
  rRefill : Option ℚ := none
  mMarks : Option ℚ := none
  mHyst : Option ℚ := none
  mPolicy : Option ℚ := none

/-- `cfg`: the numbers a table works with, each at least what the constructor makes of it. -/
structure MarkConfig where
  /-- The first backoff, in ms. -/
  B : ℚ
  factor : ℚ
  /-- The failures to exhaustion. -/
  aMax : ℚ
  /-- One attempt for each such time after exhaustion, in ms. -/
  rRefill : ℚ
  mMarks : ℚ
  mHyst : ℚ
  mPolicy : ℚ
  B_nonneg : 0 ≤ B
  one_le_factor : 1 ≤ factor
  one_le_aMax : 1 ≤ aMax
  rRefill_nonneg : 0 ≤ rRefill
  one_le_mMarks : 1 ≤ mMarks
  mHyst_nonneg : 0 ≤ mHyst
  one_le_mPolicy : 1 ≤ mPolicy

/-- `num`: a finite number is taken, but not below its least value. -/
def markNumber (v : Option ℚ) (dflt least : ℚ) : ℚ := v.elim dflt (max least)

theorem le_markNumber {v : Option ℚ} {dflt least : ℚ} (h : least ≤ dflt) :
    least ≤ markNumber v dflt least := by
  cases v with
  | none => exact h
  | some n => exact le_max_left least n

/-- The constructor, with the numbers of `MARK_DEFAULTS`. -/
def MarkOptions.config (o : MarkOptions) : MarkConfig where
  B := markNumber o.B 30000 0
  factor := markNumber o.factor 2 1
  aMax := markNumber o.aMax 4 1
  rRefill := markNumber o.rRefill 60000 0
  mMarks := markNumber o.mMarks 256 1
  mHyst := markNumber o.mHyst 32 0
  mPolicy := markNumber o.mPolicy 1024 1
  B_nonneg := le_markNumber (by norm_num)
  one_le_factor := le_markNumber (by norm_num)
  one_le_aMax := le_markNumber (by norm_num)
  rRefill_nonneg := le_markNumber (by norm_num)
  one_le_mMarks := le_markNumber (by norm_num)
  mHyst_nonneg := le_markNumber (by norm_num)
  one_le_mPolicy := le_markNumber (by norm_num)

/-! ### Marks -/

/-- `kind` -/
inductive MarkKind where
  | loss
  | policy
deriving DecidableEq, Repr

structure Mark where
  kind : MarkKind
  attempts : ℚ
  /-- When the identity is next due; `none` for never. -/
  dueAt : Option ℚ
  token : Bool
  seq : Nat
deriving DecidableEq

/-- The mark has as many failures as are counted. -/
def Mark.exhausted (cfg : MarkConfig) (m : Mark) : Bool := decide (cfg.aMax ≤ m.attempts)

/-- A loss mark that is exhausted, and whose attempt is not due. -/
def Mark.waiting (cfg : MarkConfig) (m : Mark) : Bool :=
  m.kind = .loss && m.exhausted cfg && !m.token

structure DeadPeers where
  marks : OrderedMap NodeId Mark
  /-- `_fullLatched` -/
  fullLatched : Bool
  /-- `_policyCount` -/
  policyCount : Nat
  /-- `_seq` -/
  seq : Nat

namespace DeadPeers

/-- A table just constructed. -/
def init : DeadPeers := ⟨∅, false, 0, 0⟩

variable (cfg : MarkConfig)

/-! ### Bounds -/

def lossCount (t : DeadPeers) : ℚ := t.marks.size - t.policyCount

/-- The identity has a policy mark. -/
def isPolicy (t : DeadPeers) (id : NodeId) : Bool := (t.marks.get id).any fun m => m.kind = .policy

def policyFull (t : DeadPeers) : Bool := decide (cfg.mPolicy ≤ t.policyCount)

/-- `_latch` -/
def latch (t : DeadPeers) : DeadPeers :=
  if cfg.mMarks ≤ t.lossCount then { t with fullLatched := true }
  else if t.lossCount < cfg.mMarks - cfg.mHyst then { t with fullLatched := false }
  else t

@[simp] theorem marks_latch (t : DeadPeers) : (t.latch cfg).marks = t.marks := by
  unfold latch
  split
  · rfl
  · split <;> rfl

@[simp] theorem policyCount_latch (t : DeadPeers) : (t.latch cfg).policyCount = t.policyCount := by
  unfold latch
  split
  · rfl
  · split <;> rfl

/-- The oldest exhausted loss mark that waits. -/
def oldestWaiting (t : DeadPeers) : Option (NodeId × Mark) :=
  t.marks.entries.foldl (fun victim e =>
    if e.2.waiting cfg && victim.all fun v => decide (e.2.seq < v.2.seq) then some e
    else victim) none

/-- `_admitWrite`: room for a new loss mark. At the bound the oldest exhausted one that waits makes
room; with none there is no room. -/
def admitWrite (t : DeadPeers) : Option DeadPeers :=
  if t.lossCount < cfg.mMarks then some t
  else (t.oldestWaiting cfg).map fun v => { t with marks := t.marks.delete v.1 }

/-! ### The automaton -/

/-- `_schedule`: a mark below exhaustion has a whole number of failures. -/
def schedule (now attempts : ℚ) : ℚ :=
  if cfg.aMax ≤ attempts then now + cfg.rRefill
  else now + cfg.B * cfg.factor ^ (attempts - 1).floor.toNat

/-- A new loss mark, where there is room for one. -/
def write (t : DeadPeers) (id : NodeId) (attempts dueAt : ℚ) : DeadPeers :=
  match t.admitWrite cfg with
  | none => t
  | some t =>
    { t with
      marks := t.marks.set id ⟨.loss, attempts, some dueAt, false, t.seq + 1⟩
      seq := t.seq + 1 }.latch cfg

/-- `add`: membership only. No failure is counted. -/
def add (t : DeadPeers) (id : NodeId) (now : ℚ) : DeadPeers :=
  if t.marks.has id then t else t.write cfg id 0 (now + cfg.B)

/-- `fail`: a failure is counted, and the mark is due by the new count. -/
def fail (t : DeadPeers) (id : NodeId) (now : ℚ) : DeadPeers :=
  match t.marks.get id with
  | none => t.write cfg id 1 (schedule cfg now 1)
  | some m =>
    match m.kind with
    | .policy => t
    | .loss =>
      let attempts := min (m.attempts + 1) cfg.aMax
      { t with
        marks := t.marks.set id
          { m with
            attempts := attempts
            token := false
            dueAt := some (schedule cfg now attempts) } }

/-- `_markPolicy`: a loss mark becomes a policy mark. -/
def markPolicy (t : DeadPeers) (id : NodeId) : DeadPeers :=
  if t.isPolicy id then t
  else if t.policyFull cfg then t
  else
    { t with
      marks := (t.marks.delete id).set id ⟨.policy, 0, none, false, t.seq + 1⟩
      policyCount := t.policyCount + 1
      seq := t.seq + 1 }.latch cfg

/-- `mark`: a kind other than `'policy'` is a failure. -/
def mark (t : DeadPeers) (id : NodeId) (kind : MarkKind) (now : ℚ) : DeadPeers :=
  match kind with
  | .policy => t.markPolicy cfg id
  | .loss => t.fail cfg id now

/-- `eligible`. The attempt of an exhausted mark that is due is refilled. -/
def eligible (t : DeadPeers) (id : NodeId) (now : ℚ) : Bool × DeadPeers :=
  match t.marks.get id with
  | none => (!(t.fullLatched || t.policyFull cfg), t)
  | some m =>
    match m.kind with
    | .policy => (false, t)
    | .loss =>
      if m.dueAt.all fun due => decide (now < due) then (false, t)
      else if m.exhausted cfg then
        (true, { t with marks := t.marks.set id { m with token := true } })
      else (true, t)

/-- `consume`: the attempt goes out. The window of an exhausted mark advances. -/
def consume (t : DeadPeers) (id : NodeId) (now : ℚ) : DeadPeers :=
  match t.marks.get id with
  | none => t
  | some m =>
    if m.kind = .loss && m.exhausted cfg then
      { t with
        marks := t.marks.set id { m with token := false, dueAt := some (now + cfg.rRefill) } }
    else t

/-- `delete` -/
def delete (t : DeadPeers) (id : NodeId) : DeadPeers :=
  { t with
    marks := t.marks.delete id
    policyCount := if t.isPolicy id then t.policyCount - 1 else t.policyCount }.latch cfg

/-- `bind`: the identity is bound. -/
def bind (t : DeadPeers) (id : NodeId) : DeadPeers := t.delete cfg id

/-- `clear` -/
def clear (t : DeadPeers) : DeadPeers :=
  { t with marks := ∅, policyCount := 0, fullLatched := false }

/-! ### Steps -/

/-- The calls of a table. -/
inductive Act where
  | add (id : NodeId)
  | mark (id : NodeId) (kind : MarkKind)
  | fail (id : NodeId)
  | eligible (id : NodeId)
  | consume (id : NodeId)
  | bind (id : NodeId)
  | delete (id : NodeId)
  | clear
deriving DecidableEq, Repr

/-- A call, with what the clock says at it. -/
def step (t : DeadPeers) (x : ℚ × Act) : DeadPeers :=
  match x.2 with
  | .add id => t.add cfg id x.1
  | .mark id kind => t.mark cfg id kind x.1
  | .fail id => t.fail cfg id x.1
  | .eligible id => (t.eligible cfg id x.1).2
  | .consume id => t.consume cfg id x.1
  | .bind id => t.bind cfg id
  | .delete id => t.delete cfg id
  | .clear => t.clear

end DeadPeers

end Axona
