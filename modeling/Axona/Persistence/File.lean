import Axona.Library.Disk
import Axona.Library.OrderedMap
import Axona.Library.Transition
import Axona.Pubsub.Envelope

/-! # A directory of JSON files

`FilePersistence` (`persistence/file.js`), await by await: one file for each key, written under a
temporary name and renamed. Between two calls of the file system anything else may go on, and each
of them may fail. A file is read and written piece by piece; only the rename is atomic.

Transactions wait for one another (`_txTail`); what is loaded, saved or deleted outside of them
waits for nobody. `log` notes what was read and what took effect, in order; the code does not have
it. -/

namespace Axona

open Library

/-- `JSON.stringify` and `JSON.parse`, by way of `utf8`. Values are those that JSON has. -/
structure JsonCodec (V : Type*) where
  stringify : V → List UInt8
  parse : List UInt8 → Option V
  parse_stringify : ∀ v, parse (stringify v) = some v

/-- `_fileFor` -/
def fileFor (key : Text) : Option Text :=
  if '/' ∈ key ∨ '\\' ∈ key ∨ key.head? = some '.' then none else some (key ++ ".json".toList)

/-- The temporary name of `_writeKey`. -/
def tmpFor (dst : Text) : Text := dst ++ ".tmp".toList

section Calls

variable {V : Type*}

/-- What is asked of the directory. No value is `undefined`. -/
inductive FileJob (V : Type*) where
  | load (key : Text)
  | save (key : Text) (value : Option V)
  | delete (key : Text)
  | transaction (keys : List Text)
deriving DecidableEq

/-- How far a call is. -/
inductive FileStage (V : Type*) where
  /-- It waits for `_init`. -/
  | starting
  /-- It waits for the transactions before it. -/
  | queued
  /-- `_readKey`; the file, if it is open, and what was read of it. -/
  | reading (key : Text) (file : Option (Inode Text × List UInt8)) (keys : List Text)
      (entries : OrderedMap Text (Option V))
  /-- It waits for `fn`. -/
  | calling (entries : OrderedMap Text (Option V))
  /-- `_writeKey`; the temporary file, from when it is opened, and how much is written. -/
  | writing (key : Text) (value : V) (file : Option (Inode Text × Nat))
      (left : List (Text × Option V))
  /-- `_deleteKey` -/
  | deleting (key : Text) (left : List (Text × Option V))
  | resolved (value : Option V)
  | rejected

namespace FileStage

/-- The keys that a transaction has still to read. -/
def read (entries : OrderedMap Text (Option V)) : List Text → FileStage V
  | [] => .calling entries
  | key :: keys => .reading key none keys entries

/-- What is still to be written. -/
def write : List (Text × Option V) → FileStage V
  | [] => .resolved none
  | (key, some v) :: left => .writing key v none left
  | (key, none) :: left => .deleting key left

/-- The writes a call has left. -/
def left : FileStage V → List (Text × Option V)
  | .writing key v _ left => (key, some v) :: left
  | .deleting key left => (key, none) :: left
  | _ => []

/-- Has the call ended? -/
def ended : FileStage V → Bool
  | .resolved _ => true
  | .rejected => true
  | _ => false

/-- The key whose file is looked up next. -/
def looksUp : FileStage V → Option Text
  | .reading key none _ _ => some key
  | _ => none

/-- The key whose temporary file is opened next. -/
def opens : FileStage V → Option Text
  | .writing key _ none _ => some key
  | _ => none

/-- The key whose temporary file the call has in use. -/
def holds : FileStage V → Option Text
  | .writing key _ (some _) _ => some key
  | _ => none

/-- The key whose file is removed next. -/
def removes : FileStage V → Option Text
  | .deleting key _ => some key
  | _ => none

/-- Is the temporary file written? -/
def filled (json : JsonCodec V) : FileStage V → Bool
  | .writing _ v (some (_, pos)) _ => (json.stringify v).length ≤ pos
  | _ => false

end FileStage

/-- A call, and all it is to write. -/
structure FileCall (V : Type*) where
  job : FileJob V
  stage : FileStage V
  writes : List (Text × Option V)

namespace FileCall

def isTransaction (c : FileCall V) : Bool :=
  match c.job with
  | .transaction _ => true
  | _ => false

/-- A value is read. -/
def readDone (c : FileCall V) (key : Text) (v : Option V) (keys : List Text)
    (entries : OrderedMap Text (Option V)) : FileStage V :=
  if c.isTransaction then .read (entries.set key v) keys else .resolved v

end FileCall

/-- What a call did to the directory: it found the file of a key, or none, or it put one there, or
took it away. -/
inductive FileEvent (V : Type*) where
  | read (i : Nat) (key : Text)
  | effect (i : Nat) (key : Text) (value : Option V)
deriving DecidableEq

namespace FileEvent

def call : FileEvent V → Nat
  | .read i _ => i
  | .effect i _ _ => i

/-- What the call `i` wrote. -/
def effectOf (i : Nat) : FileEvent V → Option (Text × Option V)
  | .read _ _ => none
  | .effect j key v => if j = i then some (key, v) else none

end FileEvent

/-- The directory, the calls, and `_txTail`: the transactions that wait and the one that runs. -/
structure FilePersistence (V : Type*) where
  disk : Disk Text UInt8
  calls : List (FileCall V)
  queue : List Nat
  running : Option Nat
  closed : Bool
  log : List (FileEvent V)

inductive FileAct (V : Type*) where
  | call (job : FileJob V)
  /-- `_init` is done. -/
  | ready (i : Nat)
  /-- The next transaction gets its turn. -/
  | turn
  | lookup (i : Nat)
  | read (i m : Nat)
  /-- `fn` returns. -/
  | apply (i : Nat) (result : Option (OrderedMap Text (Option V)))
  | openTmp (i : Nat)
  | write (i m : Nat)
  | rename (i : Nat)
  | remove (i : Nat)
  /-- `rm` fails, and nobody is told. -/
  | removeFails (i : Nat)
  /-- Any other call fails: of the file system, of `fn`, of `JSON.stringify`. -/
  | fail (i : Nat)
  | close

namespace FilePersistence

variable {s : FilePersistence V} {i : Nat} {c : FileCall V}

/-- A new instance, in a directory with these files. -/
def init (files : Text → Option (List UInt8)) : FilePersistence V :=
  ⟨Disk.ofFiles files, [], [], none, false, []⟩

/-- A call gets on. The one that ends makes way for the next transaction. -/
def put (s : FilePersistence V) (i : Nat) (c : FileCall V) : FilePersistence V :=
  { s with
    calls := s.calls.set i c
    running := if c.stage.ended = true ∧ s.running = some i then none else s.running }

def note (s : FilePersistence V) (e : FileEvent V) : FilePersistence V :=
  { s with log := s.log ++ [e] }

/-- `_check`, at the time of the call. -/
def enter (s : FilePersistence V) (job : FileJob V) : FilePersistence V :=
  { s with calls := s.calls ++ [⟨job, if s.closed then .rejected else .starting, []⟩] }

/-- What a call does once there is a directory. -/
def start (s : FilePersistence V) (i : Nat) (c : FileCall V) : FilePersistence V :=
  match c.stage, c.job with
  | .starting, .load key => s.put i { c with stage := .read ∅ [key] }
  | .starting, .save key v => s.put i { c with stage := .write [(key, v)], writes := [(key, v)] }
  | .starting, .delete key =>
    s.put i { c with stage := .write [(key, none)], writes := [(key, none)] }
  | .starting, .transaction _ =>
    { s.put i { c with stage := .queued } with queue := s.queue ++ [i] }
  | _, _ => s

/-- A transaction begins, unless the instance was closed meanwhile. -/
def begin (s : FilePersistence V) (i : Nat) (c : FileCall V) : FilePersistence V :=
  match c.job with
  | .transaction keys =>
    if s.closed then s.put i { c with stage := .rejected }
    else { s.put i { c with stage := .read ∅ keys } with running := some i }
  | _ => s

/-- `_readKey`, as far as the file is open. -/
def lookup (s : FilePersistence V) (i : Nat) (c : FileCall V) : FilePersistence V :=
  match c.stage with
  | .reading key none keys entries => match fileFor key with
    | none => s.put i { c with stage := .rejected }
    | some name => match s.disk.dir name with
      | none => (s.note (.read i key)).put i { c with stage := c.readDone key none keys entries }
      | some n => (s.note (.read i key)).put i
          { c with stage := .reading key (some (n, [])) keys entries }
  | _ => s

/-- `_readKey`: the next bytes, or the end of the file. -/
def read (json : JsonCodec V) (s : FilePersistence V) (i m : Nat) (c : FileCall V) :
    FilePersistence V :=
  match c.stage with
  | .reading key (some (n, got)) keys entries =>
    if got.length < (s.disk.data n).length then
      let got := got ++ ((s.disk.data n).drop got.length).take m
      s.put i { c with stage := .reading key (some (n, got)) keys entries }
    else match json.parse got with
      | none => s.put i { c with stage := .rejected }
      | some v => s.put i { c with stage := c.readDone key (some v) keys entries }
  | _ => s

/-- `fn` has returned. -/
def apply (s : FilePersistence V) (i : Nat) (result : Option (OrderedMap Text (Option V)))
    (c : FileCall V) : FilePersistence V :=
  match c.stage, result with
  | .calling _, none => s.put i { c with stage := .resolved none }
  | .calling _, some m => s.put i { c with stage := .write m.entries, writes := m.entries }
  | _, _ => s

/-- `_writeKey`, as far as the temporary file is open. -/
def openTmp (s : FilePersistence V) (i : Nat) (c : FileCall V) : FilePersistence V :=
  match c.stage with
  | .writing key v none left => match fileFor key with
    | none => s.put i { c with stage := .rejected }
    | some name =>
      let (disk, n) := s.disk.openWrite (tmpFor name)
      { s with disk }.put i { c with stage := .writing key v (some (n, 0)) left }
  | _ => s

/-- `_writeKey`: the next bytes. -/
def write (json : JsonCodec V) (s : FilePersistence V) (i m : Nat) (c : FileCall V) :
    FilePersistence V :=
  match c.stage with
  | .writing key v (some (n, pos)) left =>
    let piece := ((json.stringify v).drop pos).take m
    { s with disk := s.disk.writeAt 0 n pos piece }.put i
      { c with stage := .writing key v (some (n, pos + piece.length)) left }
  | _ => s

/-- `_writeKey`: the temporary file gets the name of the key. -/
def rename (json : JsonCodec V) (s : FilePersistence V) (i : Nat) (c : FileCall V) :
    FilePersistence V :=
  match c.stage with
  | .writing key v (some (_, pos)) left =>
    if pos < (json.stringify v).length then s
    else match (fileFor key).bind fun name => s.disk.rename (tmpFor name) name with
      | none => s.put i { c with stage := .rejected }
      | some disk =>
        { s.note (.effect i key (some v)) with disk }.put i { c with stage := .write left }
  | _ => s

/-- `_deleteKey` -/
def remove (s : FilePersistence V) (i : Nat) (c : FileCall V) : FilePersistence V :=
  match c.stage with
  | .deleting key left => match fileFor key with
    | none => s.put i { c with stage := .rejected }
    | some name => { s.note (.effect i key none) with disk := s.disk.remove name }.put i
        { c with stage := .write left }
  | _ => s

/-- `_deleteKey`, where the file stays. -/
def removeFails (s : FilePersistence V) (i : Nat) (c : FileCall V) : FilePersistence V :=
  match c.stage with
  | .deleting key left => match fileFor key with
    | none => s.put i { c with stage := .rejected }
    | some _ => s.put i { c with stage := .write left }
  | _ => s

/-- A call fails at what it waits for. -/
def fail (s : FilePersistence V) (i : Nat) (c : FileCall V) : FilePersistence V :=
  match c.stage with
  | .starting => s.put i { c with stage := .rejected }
  | .reading .. => s.put i { c with stage := .rejected }
  | .calling _ => s.put i { c with stage := .rejected }
  | .writing .. => s.put i { c with stage := .rejected }
  | _ => s

/-- What an act does to a call, if there is one. -/
def onCall (s : FilePersistence V) (i : Nat) (f : FileCall V → FilePersistence V) :
    FilePersistence V :=
  match s.calls[i]? with
  | none => s
  | some c => f c

def step (json : JsonCodec V) (s : FilePersistence V) : FileAct V → FilePersistence V
  | .call job => s.enter job
  | .ready i => s.onCall i (s.start i)
  | .turn => match s.running, s.queue with
    | none, i :: queue => s.onCall i ({ s with queue }.begin i)
    | _, _ => s
  | .lookup i => s.onCall i (s.lookup i)
  | .read i m => s.onCall i (s.read json i m)
  | .apply i result => s.onCall i (s.apply i result)
  | .openTmp i => s.onCall i (s.openTmp i)
  | .write i m => s.onCall i (s.write json i m)
  | .rename i => s.onCall i (s.rename json i)
  | .remove i => s.onCall i (s.remove i)
  | .removeFails i => s.onCall i (s.removeFails i)
  | .fail i => s.onCall i (s.fail i)
  | .close => { s with closed := true }

/-! ### What is asked for -/

/-- What the call `i` wrote so far. -/
def effects (s : FilePersistence V) (i : Nat) : List (Text × Option V) :=
  s.log.filterMap (FileEvent.effectOf i)

def job (s : FilePersistence V) (i : Nat) : Option (FileJob V) := (s.calls[i]?).map (·.job)

/-- A call that has ended has written all it was to write, or nothing. -/
def AllOrNothing (s : FilePersistence V) : Prop :=
  ∀ (i : Nat) (c : FileCall V), s.calls[i]? = some c → c.stage.ended = true →
    s.effects i = [] ∨ s.effects i = c.writes

/-- What the event `e` of another call may be, after `log`, for the transaction `i` to go on: before
its first event anything, before its first write a read; a delete always. -/
def Spares (s : FilePersistence V) (i : Nat) (log : List (FileEvent V)) (e : FileEvent V) : Prop :=
  e.call = i ∨ (∀ e' ∈ log, e'.call ≠ i) ∨ (∃ key, s.job e.call = some (.delete key))
    ∨ ∃ key, e = .read e.call key ∧ ∀ e' ∈ log, e'.effectOf i = none

/-- When a transaction writes, no save and no transaction has written since its first read, and none
but itself has read or saved since its first write. -/
def Serial (s : FilePersistence V) : Prop :=
  ∀ log i key v keys, log ++ [.effect i key v] <+: s.log → s.job i = some (.transaction keys) →
    ∀ log' e, log' ++ [e] <+: log → s.Spares i log' e

/-- What a load returns was in the file at the start, or some call has put it there. -/
def LoadsWhole (json : JsonCodec V) (files : Text → Option (List UInt8)) (s : FilePersistence V) :
    Prop :=
  ∀ (i : Nat) (c : FileCall V) key v, s.calls[i]? = some c → c.job = .load key →
    c.stage = .resolved (some v) →
      (∃ text ∈ (fileFor key).bind files, json.parse text = some v)
        ∨ ∃ (j : Nat) (d : FileCall V), s.calls[j]? = some d ∧ (key, some v) ∈ d.writes
          ∧ .effect j key (some v) ∈ s.log

/-! ### What may go wrong -/

/-- A transaction is given up before its first write. -/
def GivesUp (s : FilePersistence V) (i : Nat) (c : FileCall V) : Prop :=
  c.isTransaction = true → s.effects i = []

/-- What takes effect is the next write of a transaction none of whose writes was lost, or a delete,
or it comes while no transaction is under way. -/
def TakesEffect (s : FilePersistence V) (i : Nat) (c : FileCall V) : Prop :=
  match c.job with
  | .transaction _ => s.effects i ++ c.stage.left = c.writes
  | .delete _ => True
  | _ => ∀ j ∈ s.running, ∀ e ∈ s.log, e.call ≠ j

/-- The step is in order: nobody opens the temporary file of a key while another call has it in use,
no transaction loses a write once it has made one, no save comes into a transaction, and no load
comes in between the writes of one. -/
def Orderly (json : JsonCodec V) (s : FilePersistence V) : FileAct V → Prop
  | .lookup i => ∀ c ∈ s.calls[i]?, ∀ key ∈ c.stage.looksUp, fileFor key ≠ none →
      c.isTransaction = false → ∀ j ∈ s.running, s.effects j = []
  | .openTmp i => ∀ c ∈ s.calls[i]?, ∀ key ∈ c.stage.opens,
      if fileFor key = none then s.GivesUp i c else ∀ d ∈ s.calls, d.stage.holds ≠ some key
  | .rename i => ∀ c ∈ s.calls[i]?, c.stage.filled json = true → s.TakesEffect i c
  | .remove i => ∀ c ∈ s.calls[i]?, ∀ key ∈ c.stage.removes,
      if fileFor key = none then s.GivesUp i c else s.TakesEffect i c
  | .removeFails i => ∀ c ∈ s.calls[i]?, ∀ key ∈ c.stage.removes, s.GivesUp i c
  | .fail i => ∀ c ∈ s.calls[i]?, c.stage.ended = false → c.stage.removes = none → s.GivesUp i c
  | _ => True

section Decidable

variable [DecidableEq V]

instance (s : FilePersistence V) (i : Nat) (c : FileCall V) : Decidable (s.GivesUp i c) :=
  inferInstanceAs (Decidable (c.isTransaction = true → s.effects i = []))

instance (s : FilePersistence V) (i : Nat) : ∀ c : FileCall V, Decidable (s.TakesEffect i c)
  | ⟨.transaction _, stage, writes⟩ =>
    inferInstanceAs (Decidable (s.effects i ++ stage.left = writes))
  | ⟨.delete _, _, _⟩ => isTrue trivial
  | ⟨.load _, _, _⟩ => inferInstanceAs (Decidable (∀ j ∈ s.running, ∀ e ∈ s.log, e.call ≠ j))
  | ⟨.save _ _, _, _⟩ => inferInstanceAs (Decidable (∀ j ∈ s.running, ∀ e ∈ s.log, e.call ≠ j))

instance (json : JsonCodec V) (s : FilePersistence V) :
    ∀ a : FileAct V, Decidable (s.Orderly json a)
  | .lookup i => inferInstanceAs (Decidable (∀ c ∈ s.calls[i]?, ∀ key ∈ c.stage.looksUp,
      fileFor key ≠ none → c.isTransaction = false → ∀ j ∈ s.running, s.effects j = []))
  | .openTmp i => inferInstanceAs (Decidable (∀ c ∈ s.calls[i]?, ∀ key ∈ c.stage.opens,
      if fileFor key = none then s.GivesUp i c else ∀ d ∈ s.calls, d.stage.holds ≠ some key))
  | .rename i => inferInstanceAs (Decidable (∀ c ∈ s.calls[i]?,
      c.stage.filled json = true → s.TakesEffect i c))
  | .remove i => inferInstanceAs (Decidable (∀ c ∈ s.calls[i]?, ∀ key ∈ c.stage.removes,
      if fileFor key = none then s.GivesUp i c else s.TakesEffect i c))
  | .removeFails i => inferInstanceAs (Decidable (∀ c ∈ s.calls[i]?, ∀ key ∈ c.stage.removes,
      s.GivesUp i c))
  | .fail i => inferInstanceAs (Decidable (∀ c ∈ s.calls[i]?, c.stage.ended = false →
      c.stage.removes = none → s.GivesUp i c))
  | .call _ => isTrue trivial
  | .ready _ => isTrue trivial
  | .turn => isTrue trivial
  | .read _ _ => isTrue trivial
  | .apply _ _ => isTrue trivial
  | .write _ _ => isTrue trivial
  | .close => isTrue trivial

end Decidable

end FilePersistence

end Calls

end Axona
