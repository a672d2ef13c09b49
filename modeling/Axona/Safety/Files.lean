import Axona.Persistence.File

/-! # Transactions over a directory

A transaction is one for itself as long as nobody comes in between and none of its writes is lost
after the first; a file is whole as long as no two calls write to one temporary file. The queue sees
to it that no other transaction comes in between, and to nothing else. -/

namespace Axona

open Library

/-! ### Names -/

/-- A key has a file of its own. -/
theorem fileFor_inj {key key' name : Text} (h : fileFor key = some name)
    (h' : fileFor key' = some name) : key = key' := by
  unfold fileFor at h h'
  split at h
  · cases h
  split at h'
  · cases h'
  · have heq := (Option.some.inj h).trans (Option.some.inj h').symm
    exact List.append_cancel_right heq

theorem tmpFor_inj {name name' : Text} (h : tmpFor name = tmpFor name') : name = name' :=
  List.append_cancel_right h

/-- A temporary name is not the name of a key. -/
theorem tmpFor_ne {key name : Text} (h : fileFor key = some name) (name' : Text) :
    tmpFor name' ≠ name := by
  unfold fileFor at h
  split at h
  · cases h
  intro heq
  have hlast := congrArg List.getLast? (heq.trans (Option.some.inj h).symm)
  simp [tmpFor, List.getLast?_append] at hlast

variable {V : Type*}

namespace FileStage

@[simp] theorem left_write (writes : List (Text × Option V)) :
    (FileStage.write writes).left = writes := by
  rcases writes with - | ⟨⟨key, _ | v⟩, left⟩ <;> rfl

@[simp] theorem left_read (entries : OrderedMap Text (Option V)) (keys : List Text) :
    (FileStage.read entries keys).left = [] := by
  cases keys <;> rfl

/-- Is the call in what it was called for? -/
def live : FileStage V → Bool
  | .reading .. => true
  | .calling _ => true
  | .writing .. => true
  | .deleting .. => true
  | _ => false

theorem ended_of_live {stage : FileStage V} (h : stage.live = true) : stage.ended = false := by
  cases stage <;> first | rfl | cases h

theorem live_or_ended_write (writes : List (Text × Option V)) :
    (FileStage.write writes).live = true ∨ (FileStage.write writes).ended = true ∧ writes = [] := by
  rcases writes with - | ⟨⟨key, _ | v⟩, left⟩ <;> simp [FileStage.write, live, ended]

end FileStage

namespace FileCall

variable {c : FileCall V} {key : Text} {v : Option V} {keys : List Text}
  {entries : OrderedMap Text (Option V)}

@[simp] theorem left_readDone : (c.readDone key v keys entries).left = [] := by
  unfold readDone
  split
  · exact FileStage.left_read ..
  · rfl

/-- Only a transaction reads on. -/
theorem readDone_cases : (c.readDone key v keys entries).ended = true
    ∨ (c.readDone key v keys entries).live = true ∧ c.isTransaction = true := by
  unfold readDone
  split
  next htrans =>
    refine .inr ⟨?_, htrans⟩
    cases keys <;> rfl
  · exact .inl rfl

end FileCall

namespace FilePersistence

variable {json : JsonCodec V} {files : Text → Option (List UInt8)} {s s' : FilePersistence V}
  {i j : Nat} {c c' d : FileCall V}

/-! ### What a call does -/

/-- What a call that has begun does in an orderly step: to the directory, in the log, and what it
comes to. -/
inductive Moves (json : JsonCodec V) (s : FilePersistence V) (i : Nat) (c : FileCall V) :
    Disk Text UInt8 → List (FileEvent V) → FileCall V → Prop
  | rejects (hc : c.stage = .starting ∨ c.stage.live = true)
      (h : c.stage.left ≠ [] → s.GivesUp i c) :
    Moves json s i c s.disk [] { c with stage := .rejected }
  | loads {key} (hc : c.stage = .starting) (hjob : c.job = .load key) :
    Moves json s i c s.disk [] { c with stage := .reading key none [] ∅ }
  | saves {key v} (hc : c.stage = .starting)
      (hjob : c.job = .save key v ∨ c.job = .delete key ∧ v = none) :
    Moves json s i c s.disk [] ⟨c.job, .write [(key, v)], [(key, v)]⟩
  | misses {key name keys entries} (hc : c.stage = .reading key none keys entries)
      (hname : fileFor key = some name) (hn : s.disk.dir name = none)
      (h : c.isTransaction = false → ∀ j ∈ s.running, s.effects j = []) :
    Moves json s i c s.disk [.read i key] { c with stage := c.readDone key none keys entries }
  | finds {key name n keys entries} (hc : c.stage = .reading key none keys entries)
      (hname : fileFor key = some name) (hn : s.disk.dir name = some n)
      (h : c.isTransaction = false → ∀ j ∈ s.running, s.effects j = []) :
    Moves json s i c s.disk [.read i key]
      { c with stage := .reading key (some (n, [])) keys entries }
  | reads {key n got keys entries piece} (m : Nat)
      (hc : c.stage = .reading key (some (n, got)) keys entries)
      (hpiece : piece = ((s.disk.data n).drop got.length).take m) :
    Moves json s i c s.disk []
      { c with stage := .reading key (some (n, got ++ piece)) keys entries }
  | parses {key n got keys entries v} (hc : c.stage = .reading key (some (n, got)) keys entries)
      (hend : (s.disk.data n).length ≤ got.length) (hv : json.parse got = some v) :
    Moves json s i c s.disk [] { c with stage := c.readDone key (some v) keys entries }
  | applies {entries} (hc : c.stage = .calling entries) (m : OrderedMap Text (Option V)) :
    Moves json s i c s.disk [] { c with stage := .write m.entries, writes := m.entries }
  | returns {entries} (hc : c.stage = .calling entries) :
    Moves json s i c s.disk [] { c with stage := .resolved none }
  | opens {key v name left} (hc : c.stage = .writing key v none left)
      (hname : fileFor key = some name) (h : ∀ d ∈ s.calls, d.stage.holds ≠ some key) :
    Moves json s i c (s.disk.openWrite (tmpFor name)).1 []
      { c with stage := .writing key v (some ((s.disk.openWrite (tmpFor name)).2, 0)) left }
  | writes {key v n pos left piece} (m : Nat)
      (hc : c.stage = .writing key v (some (n, pos)) left)
      (hpiece : piece = ((json.stringify v).drop pos).take m) :
    Moves json s i c (s.disk.writeAt 0 n pos piece) []
      { c with stage := .writing key v (some (n, pos + piece.length)) left }
  | renames {key v n pos name left disk} (hc : c.stage = .writing key v (some (n, pos)) left)
      (hpos : (json.stringify v).length ≤ pos) (hname : fileFor key = some name)
      (hdisk : s.disk.rename (tmpFor name) name = some disk) (h : s.TakesEffect i c) :
    Moves json s i c disk [.effect i key (some v)] { c with stage := .write left }
  | removes {key name left} (hc : c.stage = .deleting key left) (hname : fileFor key = some name)
      (h : s.TakesEffect i c) :
    Moves json s i c (s.disk.remove name) [.effect i key none] { c with stage := .write left }
  | loses {key left} (hc : c.stage = .deleting key left) (h : s.GivesUp i c) :
    Moves json s i c s.disk [] { c with stage := .write left }

/-- The state after a move. -/
def moved (s : FilePersistence V) (i : Nat) (disk : Disk Text UInt8) (es : List (FileEvent V))
    (c : FileCall V) : FilePersistence V :=
  { s with disk, log := s.log ++ es }.put i c

/-- What a step comes to. -/
inductive Stepped (json : JsonCodec V) (s : FilePersistence V) : FilePersistence V → Prop
  | idle : Stepped json s s
  | enters (job : FileJob V) : Stepped json s (s.enter job)
  | closes : Stepped json s { s with closed := true }
  | queues {i c keys} (hget : s.calls[i]? = some c) (hc : c.stage = .starting)
      (hjob : c.job = .transaction keys) :
    Stepped json s { s.put i { c with stage := .queued } with queue := s.queue ++ [i] }
  | begins {i c queue} (hidle : s.running = none) (hqueue : s.queue = i :: queue)
      (hget : s.calls[i]? = some c) :
    Stepped json s ({ s with queue }.begin i c)
  | moves {i c disk es c'} (hget : s.calls[i]? = some c) (h : Moves json s i c disk es c') :
    Stepped json s (s.moved i disk es c')

theorem Stepped.onCall {f : FileCall V → FilePersistence V}
    (h : ∀ c, s.calls[i]? = some c → Stepped json s (f c)) : Stepped json s (s.onCall i f) := by
  unfold FilePersistence.onCall
  split
  · exact .idle
  next c hget => exact h c hget

section Steps

variable (hget : s.calls[i]? = some c)

include hget

theorem Moves.stepped {disk es} (h : Moves json s i c disk es c') :
    Stepped json s ({ s with disk, log := s.log ++ es }.put i c') := .moves hget h

/-- A move without an event. -/
theorem Moves.stepped_quiet {disk} (h : Moves json s i c disk [] c') :
    Stepped json s ({ s with disk }.put i c') := by
  have hs := h.stepped hget
  rwa [List.append_nil] at hs

theorem stepped_start : Stepped json s (s.start i c) := by
  unfold start
  split
  next hc hjob => exact (Moves.loads hc hjob).stepped_quiet hget
  next hc hjob => exact (Moves.saves hc (.inl hjob)).stepped_quiet hget
  next hc hjob => exact (Moves.saves hc (.inr ⟨hjob, rfl⟩)).stepped_quiet hget
  next hc hjob => exact .queues hget hc hjob
  · exact .idle

theorem stepped_lookup (h : ∀ key ∈ c.stage.looksUp, fileFor key ≠ none →
    c.isTransaction = false → ∀ j ∈ s.running, s.effects j = []) :
    Stepped json s (s.lookup i c) := by
  unfold lookup
  split
  next key keys entries hc =>
    have hlive : c.stage.live = true := by simp [hc, FileStage.live]
    have hleft : c.stage.left = [] := by simp [hc, FileStage.left]
    have hlooks : key ∈ c.stage.looksUp := by simp [hc, FileStage.looksUp]
    split
    · exact (Moves.rejects (.inr hlive) fun hne => absurd hleft hne).stepped_quiet hget
    next name hname =>
    have hfits := h key hlooks (by simp [hname])
    split
    next hn => exact (Moves.misses hc hname hn hfits).stepped hget
    next n hn => exact (Moves.finds hc hname hn hfits).stepped hget
  · exact .idle

theorem stepped_read (m : Nat) : Stepped json s (s.read json i m c) := by
  unfold read
  split
  next key n got keys entries hc =>
    split
    · exact (Moves.reads m hc rfl).stepped_quiet hget
    next hend =>
    split
    · have hlive : c.stage.live = true := by simp [hc, FileStage.live]
      have hleft : c.stage.left = [] := by simp [hc, FileStage.left]
      exact (Moves.rejects (.inr hlive) fun hne => absurd hleft hne).stepped_quiet hget
    next v hv => exact (Moves.parses hc (Nat.le_of_not_lt hend) hv).stepped_quiet hget
  · exact .idle

theorem stepped_apply (result : Option (OrderedMap Text (Option V))) :
    Stepped json s (s.apply i result c) := by
  unfold apply
  split
  next hc => exact (Moves.returns hc).stepped_quiet hget
  next m hc => exact (Moves.applies hc m).stepped_quiet hget
  · exact .idle

theorem stepped_openTmp (h : ∀ key ∈ c.stage.opens,
    if fileFor key = none then s.GivesUp i c else ∀ d ∈ s.calls, d.stage.holds ≠ some key) :
    Stepped json s (s.openTmp i c) := by
  unfold openTmp
  split
  next key v left hc =>
    have hfits := h key (by simp [hc, FileStage.opens])
    split
    next hname =>
      have hlive : c.stage.live = true := by simp [hc, FileStage.live]
      rw [if_pos hname] at hfits
      exact (Moves.rejects (.inr hlive) fun _ => hfits).stepped_quiet hget
    next name hname =>
      rw [if_neg (by simp [hname])] at hfits
      exact (Moves.opens hc hname hfits).stepped_quiet hget
  · exact .idle

theorem stepped_write (m : Nat) : Stepped json s (s.write json i m c) := by
  unfold write
  split
  next hc => exact (Moves.writes m hc rfl).stepped_quiet hget
  · exact .idle

theorem stepped_rename (hlinked : ∀ {key v n pos left},
      c.stage = .writing key v (some (n, pos)) left →
        ∃ name, fileFor key = some name ∧ s.disk.dir (tmpFor name) = some n)
    (h : c.stage.filled json = true → s.TakesEffect i c) : Stepped json s (s.rename json i c) := by
  unfold rename
  split
  next key v n pos left hc =>
    split
    · exact .idle
    next hpos =>
    have hfilled : c.stage.filled json = true := by
      simpa [hc, FileStage.filled] using Nat.le_of_not_lt hpos
    obtain ⟨name, hname, hn⟩ := hlinked hc
    rw [hname, Option.bind_some]
    split
    next hnone => simp [Disk.rename, hn] at hnone
    next disk hdisk =>
      exact (Moves.renames hc (Nat.le_of_not_lt hpos) hname hdisk (h hfilled)).stepped hget
  · exact .idle

theorem stepped_remove (h : ∀ key ∈ c.stage.removes,
    if fileFor key = none then s.GivesUp i c else s.TakesEffect i c) :
    Stepped json s (s.remove i c) := by
  unfold remove
  split
  next key left hc =>
    have hfits := h key (by simp [hc, FileStage.removes])
    split
    next hname =>
      have hlive : c.stage.live = true := by simp [hc, FileStage.live]
      rw [if_pos hname] at hfits
      exact (Moves.rejects (.inr hlive) fun _ => hfits).stepped_quiet hget
    next name hname =>
      rw [if_neg (by simp [hname])] at hfits
      exact (Moves.removes hc hname hfits).stepped hget
  · exact .idle

theorem stepped_removeFails (h : ∀ key ∈ c.stage.removes, s.GivesUp i c) :
    Stepped json s (s.removeFails i c) := by
  unfold removeFails
  split
  next key left hc =>
    have hfits := h key (by simp [hc, FileStage.removes])
    split
    · have hlive : c.stage.live = true := by simp [hc, FileStage.live]
      exact (Moves.rejects (.inr hlive) fun _ => hfits).stepped_quiet hget
    · exact (Moves.loses hc hfits).stepped_quiet hget
  · exact .idle

theorem stepped_fail (h : c.stage.ended = false → c.stage.removes = none → s.GivesUp i c) :
    Stepped json s (s.fail i c) := by
  have hrejects : c.stage = .starting ∨ c.stage.live = true → c.stage.removes = none →
      Stepped json s (s.put i { c with stage := .rejected }) := by
    intro hc hrem
    have hended : c.stage.ended = false := by
      rcases hc with hc | hc
      · simp [hc, FileStage.ended]
      · exact FileStage.ended_of_live hc
    exact (Moves.rejects hc fun _ => h hended hrem).stepped_quiet hget
  unfold fail
  split
  next hc => exact hrejects (.inl hc) (by simp [hc, FileStage.removes])
  next hc => exact hrejects (.inr (by simp [hc, FileStage.live])) (by simp [hc, FileStage.removes])
  next hc => exact hrejects (.inr (by simp [hc, FileStage.live])) (by simp [hc, FileStage.removes])
  next hc => exact hrejects (.inr (by simp [hc, FileStage.live])) (by simp [hc, FileStage.removes])
  · exact .idle

omit hget in
theorem stepped (hlinked : ∀ {i : Nat} {c : FileCall V} {key v n pos left}, s.calls[i]? = some c →
      c.stage = .writing key v (some (n, pos)) left →
      ∃ name, fileFor key = some name ∧ s.disk.dir (tmpFor name) = some n)
    {a : FileAct V} (h : s.Orderly json a) : Stepped json s (s.step json a) := by
  cases a with
  | call job => exact .enters job
  | ready i => exact .onCall fun c hget => stepped_start hget
  | turn =>
    simp only [step]
    split
    next i queue hidle hqueue => exact .onCall fun c hget => .begins hidle hqueue hget
    · exact .idle
  | lookup i => exact .onCall fun c hget => stepped_lookup hget (h c hget)
  | read i m => exact .onCall fun c hget => stepped_read hget m
  | apply i result => exact .onCall fun c hget => stepped_apply hget result
  | openTmp i => exact .onCall fun c hget => stepped_openTmp hget (h c hget)
  | write i m => exact .onCall fun c hget => stepped_write hget m
  | rename i => exact .onCall fun c hget => stepped_rename hget (hlinked hget) (h c hget)
  | remove i => exact .onCall fun c hget => stepped_remove hget (h c hget)
  | removeFails i => exact .onCall fun c hget => stepped_removeFails hget (h c hget)
  | fail i => exact .onCall fun c hget => stepped_fail hget (h c hget)
  | close => exact .closes

end Steps

/-! ### Whose turn it is -/

/-- A call is in order: it does nothing before it begins, it writes what it is to write and nothing
else, and a transaction is at work only when it is its turn. -/
structure GoodCall (s : FilePersistence V) (i : Nat) (c : FileCall V) : Prop where
  waits : c.stage = .starting ∨ c.stage = .queued → ∀ e ∈ s.log, e.call ≠ i
  unwritten : c.stage.left = [] → c.stage.ended = false → c.writes = []
  whole : s.effects i = [] ∨ s.effects i ++ c.stage.left = c.writes
  left : c.stage.left <:+ c.writes
  single : c.isTransaction = false → c.writes.length ≤ 1
  calls : ∀ entries, c.stage = .calling entries → c.isTransaction = true
  turn : c.isTransaction = true → c.stage.live = true → s.running = some i

/-- The calls in order, and one transaction at a time. -/
structure Book (s : FilePersistence V) : Prop where
  calls : ∀ (i : Nat) (c : FileCall V), s.calls[i]? = some c → s.GoodCall i c
  events : ∀ e ∈ s.log, e.call < s.calls.length
  running : ∀ i ∈ s.running,
    ∃ c, s.calls[i]? = some c ∧ c.isTransaction = true ∧ c.stage.live = true
  queue : ∀ i ∈ s.queue, ∃ c, s.calls[i]? = some c ∧ c.stage = .queued
  nodup : s.queue.Nodup

variable {e : FileEvent V}

theorem effectOf_of_ne (h : e.call ≠ i) : e.effectOf i = none := by
  cases e with
  | read j key => rfl
  | effect j key v => exact if_neg h

theorem effects_of_none (h : ∀ e ∈ s.log, e.call ≠ i) : s.effects i = [] := by
  apply List.filterMap_eq_nil_iff.mpr
  intro e he
  exact effectOf_of_ne (h e he)

section

variable (disk : Disk Text UInt8) (es : List (FileEvent V)) (c : FileCall V)

@[simp] theorem moved_effects :
    (s.moved i disk es c).effects j = s.effects j ++ es.filterMap (FileEvent.effectOf j) :=
  List.filterMap_append

@[simp] theorem moved_log :
    (s.moved i disk es c).log = s.log ++ es := rfl

@[simp] theorem moved_calls :
    (s.moved i disk es c).calls = s.calls.set i c := rfl

@[simp] theorem moved_disk :
    (s.moved i disk es c).disk = disk := rfl

@[simp] theorem moved_queue :
    (s.moved i disk es c).queue = s.queue := rfl

end

theorem put_running_of_ne (hne : j ≠ i) : (s.put i c).running = some j ↔ s.running = some j := by
  by_cases hr : s.running = some i
  · have hij : i ≠ j := Ne.symm hne
    by_cases hc : c.stage.ended = true <;> simp [put, hr, hc, hij]
  · simp [put, hr]

theorem put_running_self :
    (s.put i c).running = some i ↔ c.stage.ended = false ∧ s.running = some i := by
  by_cases hr : s.running = some i
  · by_cases hc : c.stage.ended = true <;> simp [put, hr, hc]
  · simp [put, hr]

/-- A call that gives up has written nothing. -/
theorem GoodCall.effects_eq_nil (hok : s.GoodCall i c) (hended : c.stage.ended = false)
    (h : c.stage.left ≠ [] → s.GivesUp i c) : s.effects i = [] := by
  rcases hok.whole with hnil | heq
  · exact hnil
  by_cases hleft : c.stage.left = []
  · rw [hleft, List.append_nil, hok.unwritten hleft hended] at heq
    exact heq
  cases htrans : c.isTransaction with
  | true => exact h hleft htrans
  | false =>
    have hlen := congrArg List.length heq
    have hsingle := hok.single htrans
    have hpos := List.length_pos_iff.mpr hleft
    rw [List.length_append] at hlen
    exact List.length_eq_zero_iff.mp (by omega)

/-- Of a call whose next write takes effect none was lost. -/
theorem GoodCall.effects_append (hok : s.GoodCall i c) (h : s.TakesEffect i c)
    (hleft : c.stage.left ≠ []) : s.effects i ++ c.stage.left = c.writes := by
  have hother : c.isTransaction = false → s.effects i ++ c.stage.left = c.writes := by
    intro htrans
    rcases hok.whole with hnil | heq
    · have hsingle := hok.single htrans
      have hpos := List.length_pos_iff.mpr hleft
      rw [hnil, List.nil_append]
      exact hok.left.eq_of_length_le (by omega)
    · exact heq
  unfold TakesEffect at h
  cases hjob : c.job with
  | transaction keys => rwa [hjob] at h
  | load key | save key v | delete key => exact hother (by simp [FileCall.isTransaction, hjob])

section Moves

variable {disk : Disk Text UInt8} {es : List (FileEvent V)} (h : Moves json s i c disk es c')

include h

theorem Moves.job_eq : c'.job = c.job := by
  cases h <;> rfl

theorem Moves.isTransaction_eq : c'.isTransaction = c.isTransaction := by
  unfold FileCall.isTransaction
  rw [h.job_eq]

theorem Moves.own : ∀ e ∈ es, e.call = i := by
  cases h <;> simp [FileEvent.call]

theorem Moves.began : c.stage = .starting ∨ c.stage.live = true := by
  cases h <;> simp_all [FileStage.live]

theorem Moves.goes : c'.stage.ended = true
    ∨ c'.stage.live = true ∧ (c'.isTransaction = true → c.stage.live = true) := by
  cases h with
  | rejects | returns => exact .inl rfl
  | loads hc hjob =>
    refine .inr ⟨rfl, fun htrans => ?_⟩
    simp [FileCall.isTransaction, hjob] at htrans
  | @saves key v hc hjob =>
    refine .inr ⟨by cases v <;> rfl, fun htrans => ?_⟩
    rcases hjob with hjob | ⟨hjob, -⟩ <;> simp [FileCall.isTransaction, hjob] at htrans
  | misses hc | parses hc =>
    apply FileCall.readDone_cases.imp_right
    rintro ⟨hlive, -⟩
    exact ⟨hlive, fun _ => by simp [hc, FileStage.live]⟩
  | finds hc | reads m hc | opens hc | writes m hc =>
    exact .inr ⟨rfl, fun _ => by simp [hc, FileStage.live]⟩
  | applies hc m =>
    rcases FileStage.live_or_ended_write m.entries with hlive | ⟨hended, -⟩
    · exact .inr ⟨hlive, fun _ => by simp [hc, FileStage.live]⟩
    · exact .inl hended
  | @renames _ _ _ _ _ left _ hc | @removes _ _ left hc | @loses _ left hc =>
    rcases FileStage.live_or_ended_write left with hlive | ⟨hended, -⟩
    · exact .inr ⟨hlive, fun _ => by simp [hc, FileStage.live]⟩
    · exact .inl hended

section

variable (hok : s.GoodCall i c)
include hok

theorem Moves.unwritten :
    c'.stage.left = [] → c'.stage.ended = false → c'.writes = [] := by
  have hwrite : ∀ {left writes : List (Text × Option V)}, (FileStage.write left).left = [] →
      (FileStage.write left).ended = false → writes = [] := by
    intro left writes hleft hended
    rw [FileStage.left_write] at hleft
    rw [hleft] at hended
    cases hended
  have hunread : c.stage.left = [] → c.stage.ended = false → ∀ {stage : FileStage V},
      stage.left = [] → stage.ended = false → c.writes = [] :=
    fun hleft hended _ _ _ => hok.unwritten hleft hended
  cases h with
  | rejects | returns => exact fun _ hended => nomatch hended
  | loads hc | misses hc | finds hc | reads m hc | parses hc =>
    exact hunread (by simp [hc, FileStage.left]) (by simp [hc, FileStage.ended])
  | saves | applies | renames | removes | loses => exact hwrite
  | opens | writes => exact fun hleft => nomatch hleft

theorem Moves.whole : s.effects i ++ es.filterMap (FileEvent.effectOf i) = []
      ∨ s.effects i ++ es.filterMap (FileEvent.effectOf i) ++ c'.stage.left = c'.writes := by
  have hended : c.stage.ended = false := by
    rcases h.began with hc | hc
    · simp [hc, FileStage.ended]
    · exact FileStage.ended_of_live hc
  have hnone : (c.stage.left ≠ [] → s.GivesUp i c) → s.effects i ++ [] = [] := by
    intro hgives
    rw [List.append_nil]
    exact hok.effects_eq_nil hended hgives
  have hunread : c.stage.left = [] → s.effects i ++ [] = [] :=
    fun hc => hnone fun hne => absurd hc hne
  cases h with
  | rejects hc hgives => exact .inl (hnone hgives)
  | loads hc | saves hc | misses hc | finds hc | reads m hc | parses hc | applies hc | returns hc =>
    exact .inl (hunread (by simp [hc, FileStage.left]))
  | opens hc | writes m hc =>
    have hwhole := hok.whole
    rw [hc] at hwhole
    simpa [FileStage.left] using hwhole
  | renames hc _ _ _ htakes | removes hc _ htakes =>
    have hnext := hok.effects_append htakes (by simp [hc, FileStage.left])
    rw [hc] at hnext
    simp only [FileStage.left] at hnext
    refine .inr ?_
    simpa [FileEvent.effectOf] using hnext
  | loses hc hgives => exact .inl (hnone fun _ => hgives)

theorem Moves.left : c'.stage.left <:+ c'.writes := by
  have hleft := hok.left
  cases h with
  | rejects | loads | finds | reads | returns => exact List.nil_suffix
  | saves | misses | parses | applies => simp
  | opens hc | writes m hc => rwa [hc] at hleft
  | renames hc | removes hc | loses hc =>
    rw [hc] at hleft
    simpa using (List.suffix_cons ..).trans hleft

theorem Moves.single : c'.isTransaction = false → c'.writes.length ≤ 1 := by
  rw [h.isTransaction_eq]
  intro htrans
  cases h with
  | saves => exact Nat.le_refl 1
  | applies hc => exact absurd (hok.calls _ hc) (by simp [htrans])
  | _ => exact hok.single htrans

end

theorem Moves.calls : ∀ entries, c'.stage = .calling entries → c'.isTransaction = true := by
  have hwrite : ∀ {left : List (Text × Option V)} {entries},
      FileStage.write left ≠ .calling entries := by
    rintro (- | ⟨⟨key, - | v⟩, left⟩) entries heq <;> cases heq
  have hread : ∀ {key v keys entries entries'}, c.readDone key v keys entries = .calling entries' →
      c.isTransaction = true := by
    intro key v keys entries entries' heq
    rcases FileCall.readDone_cases (c := c) with hc | ⟨-, hc⟩
    · rw [heq] at hc
      cases hc
    · exact hc
  intro entries hc'
  cases h with
  | misses | parses => exact hread hc'
  | saves | applies | renames | removes | loses => exact absurd hc' hwrite
  | _ => cases hc'

end Moves

/-- One call changes, and what is new in the log is its own. -/
theorem Book.of_set {es : List (FileEvent V)} (hb : s.Book) (hget : s.calls[i]? = some c)
    (hcalls : s'.calls = s.calls.set i c') (hlog : s'.log = s.log ++ es)
    (hown : ∀ e ∈ es, e.call = i) (hself : s'.GoodCall i c')
    (hrunning : ∀ {j}, j ≠ i → (s'.running = some j ↔ s.running = some j))
    (hturn : s'.running = some i → c'.isTransaction = true ∧ c'.stage.live = true)
    (hqueue : ∀ j ∈ s'.queue, j = i ∧ c'.stage = .queued ∨ j ≠ i ∧ j ∈ s.queue)
    (hnodup : s'.queue.Nodup) : s'.Book := by
  have hlt : i < s.calls.length := (List.getElem?_eq_some_iff.mp hget).1
  have hnew : s'.calls[i]? = some c' := hcalls ▸ List.getElem?_set_self hlt
  have hother : ∀ {j}, j ≠ i → s'.calls[j]? = s.calls[j]? :=
    fun hne => hcalls ▸ List.getElem?_set_ne (Ne.symm hne)
  refine ⟨fun j d hd => ?_, fun e he => ?_, fun j hj => ?_, fun j hj => ?_, hnodup⟩
  · by_cases hji : j = i
    · subst hji
      cases hnew.symm.trans hd
      exact hself
    rw [hother hji] at hd
    have hdok := hb.calls j d hd
    have heffects : s'.effects j = s.effects j := by
      have hes : es.filterMap (FileEvent.effectOf j) = [] := by
        apply List.filterMap_eq_nil_iff.mpr
        intro e he
        exact effectOf_of_ne (hown e he ▸ Ne.symm hji)
      rw [effects, hlog, List.filterMap_append, hes, List.append_nil, effects]
    refine ⟨fun hc e he => ?_, hdok.unwritten, heffects ▸ hdok.whole, hdok.left, hdok.single,
      hdok.calls, fun htrans hlive => (hrunning hji).mpr (hdok.turn htrans hlive)⟩
    rw [hlog] at he
    rcases List.mem_append.mp he with he | he
    · exact hdok.waits hc e he
    · exact hown e he ▸ Ne.symm hji
  · rw [hcalls, List.length_set]
    rw [hlog] at he
    rcases List.mem_append.mp he with he | he
    · exact hb.events e he
    · exact hown e he ▸ hlt
  · by_cases hji : j = i
    · subst hji
      exact ⟨c', hnew, hturn hj⟩
    · obtain ⟨d, hd, hdt⟩ := hb.running j ((hrunning hji).mp hj)
      exact ⟨d, (hother hji).trans hd, hdt⟩
  · rcases hqueue j hj with ⟨rfl, hq⟩ | ⟨hji, hj⟩
    · exact ⟨c', hnew, hq⟩
    · obtain ⟨d, hd, hq⟩ := hb.queue j hj
      exact ⟨d, (hother hji).trans hd, hq⟩

theorem Book.stage_of_mem_queue (hb : s.Book) (hget : s.calls[i]? = some c) (hi : i ∈ s.queue) :
    c.stage = .queued := by
  obtain ⟨d, hd, hq⟩ := hb.queue i hi
  cases hget.symm.trans hd
  exact hq

/-- A call that is not queued is not in the queue. -/
theorem Book.ne_of_mem_queue (hb : s.Book) (hget : s.calls[i]? = some c) (hc : c.stage ≠ .queued)
    (hj : j ∈ s.queue) : j ≠ i := by
  rintro rfl
  exact hc (hb.stage_of_mem_queue hget hj)

/-- A move of a call leaves the calls in order. -/
theorem Book.moved {disk es} (hb : s.Book) (hget : s.calls[i]? = some c)
    (h : Moves json s i c disk es c') : (s.moved i disk es c').Book := by
  have hok := hb.calls i c hget
  have hstage : c'.stage.ended = true ∨ c'.stage.live = true := h.goes.imp_right And.left
  have hunqueued : c.stage ≠ .queued := by
    intro hq
    rcases h.began with hc | hc <;> simp [hq, FileStage.live] at hc
  apply hb.of_set hget rfl rfl h.own
  · refine ⟨fun hc => ?_, h.unwritten hok, ?_, h.left hok, h.single hok, h.calls, ?_⟩
    · rcases hc with hc | hc <;> simp [hc, FileStage.ended, FileStage.live] at hstage
    · rw [moved_effects]
      exact h.whole hok
    · intro htrans hlive
      have hended := FileStage.ended_of_live hlive
      rcases h.goes with hc | ⟨-, hc⟩
      · exact absurd (hended.symm.trans hc) Bool.false_ne_true
      · exact put_running_self.mpr ⟨hended, hok.turn (h.isTransaction_eq ▸ htrans) (hc htrans)⟩
  · exact fun hne => put_running_of_ne hne
  · intro hr
    obtain ⟨hended, hr⟩ := put_running_self.mp hr
    obtain ⟨d, hd, htrans, -⟩ := hb.running i hr
    cases hget.symm.trans hd
    refine ⟨h.isTransaction_eq ▸ htrans, hstage.resolve_left ?_⟩
    exact fun hc => absurd (hended.symm.trans hc) Bool.false_ne_true
  · exact fun j hj => .inr ⟨hb.ne_of_mem_queue hget hunqueued hj, hj⟩
  · exact hb.nodup

theorem book_init : (init files : FilePersistence V).Book where
  calls := fun _ _ h => by simp [init] at h
  events := fun _ h => by simp [init] at h
  running := fun _ h => by simp [init] at h
  queue := fun _ h => by simp [init] at h
  nodup := List.nodup_nil

variable {job : FileJob V}

/-- A call is an old one, or the new one. -/
theorem enter_calls (h : (s.enter job).calls[j]? = some d) : s.calls[j]? = some d
      ∨ j = s.calls.length ∧ d = ⟨job, if s.closed then .rejected else .starting, []⟩ := by
  by_cases hj : j < s.calls.length
  · exact .inl ((List.getElem?_append_left hj).symm.trans h)
  obtain ⟨hlt, heq⟩ := List.getElem?_eq_some_iff.mp h
  have hlen : j = s.calls.length := by
    simp only [FilePersistence.enter, List.length_append, List.length_singleton] at hlt
    omega
  subst hlen
  refine .inr ⟨rfl, ?_⟩
  rw [← heq]
  simp [FilePersistence.enter]

theorem enter_calls_of_some (h : s.calls[j]? = some d) :
    (s.enter job).calls[j]? = some d :=
  (List.getElem?_append_left (List.getElem?_eq_some_iff.mp h).1).trans h

theorem Book.enter (hb : s.Book) (job : FileJob V) : (s.enter job).Book := by
  refine ⟨fun j d hd => ?_, fun e he => ?_, fun j hj => ?_, fun j hj => ?_, hb.nodup⟩
  · rcases enter_calls hd with hd | ⟨rfl, rfl⟩
    · have hdok := hb.calls j d hd
      exact ⟨hdok.waits, hdok.unwritten, hdok.whole, hdok.left, hdok.single, hdok.calls, hdok.turn⟩
    have hnone : ∀ e ∈ s.log, e.call ≠ s.calls.length :=
      fun e he => Nat.ne_of_lt (hb.events e he)
    refine ⟨fun _ => hnone, fun _ _ => rfl, .inl (effects_of_none hnone), ?_, fun _ => ?_, ?_, ?_⟩
    · split <;> exact List.nil_suffix
    · exact Nat.zero_le 1
    · intro entries hc
      split at hc <;> cases hc
    · intro _ hlive
      split at hlive <;> cases hlive
  · exact Nat.lt_of_lt_of_le (hb.events e he) (by simp [FilePersistence.enter])
  · obtain ⟨d, hd, h⟩ := hb.running j hj
    exact ⟨d, enter_calls_of_some hd, h⟩
  · obtain ⟨d, hd, h⟩ := hb.queue j hj
    exact ⟨d, enter_calls_of_some hd, h⟩

theorem Book.close (hb : s.Book) : ({ s with closed := true } : FilePersistence V).Book :=
  ⟨fun j d hd =>
    have hdok := hb.calls j d hd
    ⟨hdok.waits, hdok.unwritten, hdok.whole, hdok.left, hdok.single, hdok.calls, hdok.turn⟩,
    hb.events, hb.running, hb.queue, hb.nodup⟩

/-- A transaction goes into the queue. -/
theorem Book.queues (hb : s.Book) (hget : s.calls[i]? = some c) (hc : c.stage = .starting) :
    ({ s.put i { c with stage := .queued } with queue := s.queue ++ [i] } :
      FilePersistence V).Book := by
  have hok := hb.calls i c hget
  have hunqueued : c.stage ≠ .queued := by simp [hc]
  have hwaits := hok.waits (.inl hc)
  have hwrites := hok.unwritten (by simp [hc, FileStage.left]) (by simp [hc, FileStage.ended])
  refine hb.of_set hget rfl (List.append_nil _).symm (by simp) ?_ ?_ ?_ ?_ ?_
  · refine ⟨fun _ => hwaits, fun _ _ => hwrites, .inl (effects_of_none hwaits), List.nil_suffix,
      hok.single, ?_, ?_⟩
    · exact fun entries hc => nomatch hc
    · exact fun _ hlive => nomatch hlive
  · exact fun hne => put_running_of_ne (c := { c with stage := .queued }) hne
  · intro hr
    obtain ⟨-, hr⟩ := (put_running_self (c := { c with stage := .queued })).mp hr
    obtain ⟨d, hd, -, hlive⟩ := hb.running i hr
    cases hget.symm.trans hd
    simp [hc, FileStage.live] at hlive
  · intro j hj
    rcases List.mem_append.mp hj with hj | hj
    · exact .inr ⟨hb.ne_of_mem_queue hget hunqueued hj, hj⟩
    · exact .inl ⟨List.mem_singleton.mp hj, rfl⟩
  · refine List.nodup_append.mpr ⟨hb.nodup, List.nodup_singleton i, ?_⟩
    intro j hj k hk
    rw [List.mem_singleton.mp hk]
    exact hb.ne_of_mem_queue hget hunqueued hj

theorem begin_of_closed {keys : List Text} (hjob : c.job = .transaction keys)
    (hclosed : s.closed = true) : s.begin i c = s.put i { c with stage := .rejected } := by
  simp [FilePersistence.begin, hjob, hclosed]

theorem begin_of_open {keys : List Text} (hjob : c.job = .transaction keys)
    (hclosed : s.closed = false) :
    s.begin i c = { s.put i { c with stage := .read ∅ keys } with running := some i } := by
  simp [FilePersistence.begin, hjob, hclosed]

/-- The first one leaves the queue. -/
theorem Book.dequeue {queue : List Nat} (hb : s.Book) (hqueue : s.queue = i :: queue) :
    ({ s with queue } : FilePersistence V).Book := by
  have hnodup := hb.nodup
  rw [hqueue, List.nodup_cons] at hnodup
  refine ⟨fun j d hd => ?_, hb.events, hb.running, fun j hj => ?_, hnodup.2⟩
  · have hdok := hb.calls j d hd
    exact ⟨hdok.waits, hdok.unwritten, hdok.whole, hdok.left, hdok.single, hdok.calls, hdok.turn⟩
  · exact hb.queue j (by simp [hqueue, hj])

theorem Book.begin (hb : s.Book) (hidle : s.running = none) (hqueue : i ∉ s.queue)
    (hget : s.calls[i]? = some c) (hc : c.stage = .queued) : (s.begin i c).Book := by
  have hok := hb.calls i c hget
  have hwaits := hok.waits (.inr hc)
  have hwrites := hok.unwritten (by simp [hc, FileStage.left]) (by simp [hc, FileStage.ended])
  have hqueues : ∀ j ∈ s.queue, j ≠ i ∧ j ∈ s.queue := by
    intro j hj
    refine ⟨?_, hj⟩
    rintro rfl
    exact hqueue hj
  cases hjob : c.job with
  | transaction keys =>
    cases hclosed : s.closed with
    | true =>
      rw [begin_of_closed hjob hclosed]
      refine hb.of_set hget rfl (List.append_nil _).symm (by simp) ?_ ?_ ?_ ?_ hb.nodup
      · refine ⟨fun _ => hwaits, fun _ _ => hwrites, .inl (effects_of_none hwaits),
          List.nil_suffix, hok.single, ?_, ?_⟩
        · exact fun entries hc => nomatch hc
        · exact fun _ hlive => nomatch hlive
      · exact fun hne => put_running_of_ne hne
      · intro hr
        exact absurd (put_running_self.mp hr).1 (by simp [FileStage.ended])
      · exact fun j hj => .inr (hqueues j hj)
    | false =>
      rw [begin_of_open hjob hclosed]
      have htrans : c.isTransaction = true := by simp [FileCall.isTransaction, hjob]
      have hlive : (FileStage.read ∅ keys : FileStage V).live = true := by cases keys <;> rfl
      refine hb.of_set hget rfl (List.append_nil _).symm (by simp) ?_ ?_ ?_ ?_ hb.nodup
      · refine ⟨fun _ => hwaits, fun _ _ => hwrites, .inl (effects_of_none hwaits), ?_,
          hok.single, fun _ _ => htrans, fun _ _ => rfl⟩
        simp
      · intro j hne
        simp [hidle, Ne.symm hne]
      · exact fun _ => ⟨htrans, hlive⟩
      · exact fun j hj => .inr (hqueues j hj)
  | _ =>
    rw [FilePersistence.begin, hjob]
    exact hb

theorem Book.stepped (hb : s.Book) (h : Stepped json s s') : s'.Book := by
  cases h with
  | idle => exact hb
  | enters job => exact hb.enter job
  | closes => exact hb.close
  | queues hget hc => exact hb.queues hget hc
  | @begins i c queue hidle hqueue hget =>
    have hc := hb.stage_of_mem_queue hget (by simp [hqueue])
    have hnodup := hb.nodup
    rw [hqueue, List.nodup_cons] at hnodup
    apply (hb.dequeue hqueue).begin
    · exact hidle
    · exact hnodup.1
    · exact hget
    · exact hc
  | moves hget h => exact hb.moved hget h

/-! ### What comes between -/

/-- No transaction was broken into that wrote afterwards, nor is the one that is under way. -/
structure Ordered (s : FilePersistence V) : Prop where
  serial : s.Serial
  running : ∀ i ∈ s.running, ∀ log e, log ++ [e] <+: s.log → s.Spares i log e

/-- The calls keep their jobs. -/
def KeepsJobs (s s' : FilePersistence V) : Prop :=
  ∀ {j job}, s.job j = some job → s'.job j = some job

theorem job_of_get (hget : s.calls[i]? = some c) : s.job i = some c.job := by
  rw [job, hget, Option.map_some]

theorem KeepsJobs.of_set (hget : s.calls[i]? = some c) (hjob : c'.job = c.job)
    (hcalls : s'.calls = s.calls.set i c') : s.KeepsJobs s' := by
  intro j job hj
  by_cases hji : j = i
  · subst hji
    have hnew := List.getElem?_set_self (a := c') (List.getElem?_eq_some_iff.mp hget).1
    rw [← hcalls] at hnew
    rw [job_of_get hnew, hjob, ← job_of_get hget, hj]
  · rw [FilePersistence.job, hcalls, List.getElem?_set_ne (Ne.symm hji)]
    exact hj

theorem KeepsJobs.enter (s : FilePersistence V) (job : FileJob V) : s.KeepsJobs (s.enter job) := by
  intro j job' hj
  obtain ⟨d, hd, rfl⟩ := Option.map_eq_some_iff.mp hj
  exact job_of_get (enter_calls_of_some hd)

theorem Spares.mono {log : List (FileEvent V)} (h : s.Spares i log e) (hjobs : s.KeepsJobs s') :
    s'.Spares i log e := by
  apply h.imp_right
  apply Or.imp_right
  apply Or.imp_left
  rintro ⟨key, hjob⟩
  exact ⟨key, hjobs hjob⟩

/-- A call that is in the log had its job before. -/
theorem Book.job_of_keeps (hb : s.Book) (hjobs : s.KeepsJobs s') (he : e ∈ s.log)
    (hjob : s'.job e.call = some job) : s.job e.call = some job := by
  have hget := List.getElem?_eq_getElem (hb.events e he)
  have hold := job_of_get hget
  exact hold.trans ((hjobs hold).symm.trans hjob)

/-- A step without an event; whoever begins has done nothing. -/
theorem Ordered.of_log_eq (ho : s.Ordered) (hb : s.Book) (hjobs : s.KeepsJobs s')
    (hlog : s'.log = s.log)
    (hrunning : ∀ i ∈ s'.running, i ∈ s.running ∨ ∀ e ∈ s.log, e.call ≠ i) : s'.Ordered := by
  refine ⟨?_, ?_⟩
  · intro log i key v keys hpre hjob log' e he
    rw [hlog] at hpre
    have hmem : .effect i key v ∈ s.log := hpre.subset (by simp)
    have hold := hb.job_of_keeps hjobs hmem hjob
    exact (ho.serial log i key v keys hpre hold log' e he).mono hjobs
  · intro i hi log e hpre
    rw [hlog] at hpre
    rcases hrunning i hi with hi | hnone
    · exact (ho.running i hi log e hpre).mono hjobs
    · have hsub : log ⊆ s.log := (List.prefix_append log [e]).trans hpre |>.subset
      exact .inr (.inl fun e' he' => hnone e' (hsub he'))

/-- A step with an event: it spares the transaction under way, and it is that one's if it is the
write of a transaction. -/
theorem Ordered.of_log_append (ho : s.Ordered) (hb : s.Book) (hjobs : s.KeepsJobs s')
    (hlog : s'.log = s.log ++ [e]) (hrunning : ∀ i ∈ s'.running, i ∈ s.running)
    (hspares : ∀ i ∈ s.running, s.Spares i s.log e)
    (hturn : ∀ i key v keys, e = .effect i key v → s'.job i = some (.transaction keys) →
      i ∈ s.running) : s'.Ordered := by
  refine ⟨?_, ?_⟩
  · intro log i key v keys hpre hjob log' e' he'
    rw [hlog] at hpre
    rcases List.prefix_concat_iff.mp hpre with heq | hpre
    · obtain ⟨rfl, hlast⟩ := List.append_inj' heq rfl
      have hi := hturn i key v keys (List.singleton_inj.mp hlast).symm hjob
      exact (ho.running i hi log' e' he').mono hjobs
    · have hmem : .effect i key v ∈ s.log := hpre.subset (by simp)
      have hold := hb.job_of_keeps hjobs hmem hjob
      exact (ho.serial log i key v keys hpre hold log' e' he').mono hjobs
  · intro i hi log e' hpre
    rw [hlog] at hpre
    rcases List.prefix_concat_iff.mp hpre with heq | hpre
    · obtain ⟨rfl, hlast⟩ := List.append_inj' heq rfl
      rw [List.singleton_inj.mp hlast]
      exact (hspares i (hrunning i hi)).mono hjobs
    · exact (ho.running i (hrunning i hi) log e' hpre).mono hjobs

/-- A lookup spares the transaction under way. -/
theorem spares_read {key : Text} (hok : s.GoodCall i c) (hlive : c.stage.live = true)
    (h : c.isTransaction = false → ∀ j ∈ s.running, s.effects j = []) :
    ∀ j ∈ s.running, s.Spares j s.log (.read i key) := by
  intro j hj
  cases htrans : c.isTransaction with
  | true => exact .inl (Option.some.inj ((hok.turn htrans hlive).symm.trans hj))
  | false =>
    have hnone := List.filterMap_eq_nil_iff.mp (h htrans j hj)
    exact .inr (.inr (.inr ⟨key, rfl, hnone⟩))

/-- A write that takes effect spares the transaction under way. -/
theorem spares_effect {key : Text} {v : Option V} (hok : s.GoodCall i c)
    (hget : s.calls[i]? = some c) (hlive : c.stage.live = true) (h : s.TakesEffect i c) :
    ∀ j ∈ s.running, s.Spares j s.log (.effect i key v) := by
  intro j hj
  unfold TakesEffect at h
  cases hjob : c.job with
  | transaction keys =>
    have htrans : c.isTransaction = true := by simp [FileCall.isTransaction, hjob]
    exact .inl (Option.some.inj ((hok.turn htrans hlive).symm.trans hj))
  | delete key' =>
    have hdelete := job_of_get hget
    rw [hjob] at hdelete
    exact .inr (.inr (.inl ⟨key', hdelete⟩))
  | load key' | save key' v' =>
    rw [hjob] at h
    exact .inr (.inl (h j hj))

/-- A move notes nothing, or one event that spares the transaction under way. -/
theorem Moves.spares {disk es} (h : Moves json s i c disk es c') (hok : s.GoodCall i c)
    (hget : s.calls[i]? = some c) : es = [] ∨ c.stage.live = true ∧
      ∃ e, es = [e] ∧ e.call = i ∧ ∀ j ∈ s.running, s.Spares j s.log e := by
  cases h with
  | misses hc hname hn h | finds hc hname hn h =>
    have hlive : c.stage.live = true := by simp [hc, FileStage.live]
    exact .inr ⟨hlive, _, rfl, rfl, spares_read hok hlive h⟩
  | renames hc hpos hname hdisk h | removes hc hname h =>
    have hlive : c.stage.live = true := by simp [hc, FileStage.live]
    exact .inr ⟨hlive, _, rfl, rfl, spares_effect hok hget hlive h⟩
  | _ => exact .inl rfl

theorem put_running_subset (hj : j ∈ (s.put i c).running) : j ∈ s.running := by
  by_cases hji : j = i
  · subst hji
    exact (put_running_self.mp hj).2
  · exact (put_running_of_ne hji).mp hj

theorem Ordered.moved {disk es} (ho : s.Ordered) (hb : s.Book) (hget : s.calls[i]? = some c)
    (h : Moves json s i c disk es c') : (s.moved i disk es c').Ordered := by
  have hok := hb.calls i c hget
  have hjobs : s.KeepsJobs (s.moved i disk es c') :=
    KeepsJobs.of_set hget h.job_eq rfl
  have hrunning : ∀ j ∈ (s.moved i disk es c').running, j ∈ s.running :=
    fun j hj => put_running_subset hj
  rcases h.spares hok hget with rfl | ⟨hlive, e, rfl, he, hspares⟩
  · apply ho.of_log_eq hb hjobs (List.append_nil _)
    exact fun j hj => .inl (hrunning j hj)
  apply ho.of_log_append hb hjobs rfl hrunning hspares
  rintro j key v keys rfl hjob
  obtain rfl : j = i := he
  have hc := Option.some.inj ((hjobs (job_of_get hget)).symm.trans hjob)
  exact hok.turn (by simp [FileCall.isTransaction, hc]) hlive

theorem ordered_init : (init files : FilePersistence V).Ordered where
  serial := by
    intro log i key v keys hpre
    simp [init] at hpre
  running := fun i hi => by simp [init] at hi

theorem Ordered.begin (ho : s.Ordered) (hb : s.Book) (hget : s.calls[i]? = some c)
    (hc : c.stage = .queued) : (s.begin i c).Ordered := by
  have hwaits := (hb.calls i c hget).waits (.inr hc)
  cases hjob : c.job with
  | transaction keys =>
    cases hclosed : s.closed with
    | true =>
      rw [begin_of_closed hjob hclosed]
      refine ho.of_log_eq hb (KeepsJobs.of_set (i := i) hget ?_ rfl) rfl ?_
      · rfl
      · exact fun j hj => .inl (put_running_subset hj)
    | false =>
      rw [begin_of_open hjob hclosed]
      refine ho.of_log_eq hb (KeepsJobs.of_set (i := i) hget ?_ rfl) rfl ?_
      · rfl
      · intro j hj
        cases Option.mem_def.mp hj
        exact .inr hwaits
  | _ =>
    rw [FilePersistence.begin, hjob]
    exact ho

theorem Ordered.stepped (ho : s.Ordered) (hb : s.Book) (h : Stepped json s s') : s'.Ordered := by
  cases h with
  | idle => exact ho
  | enters job => exact ho.of_log_eq hb (KeepsJobs.enter s job) rfl fun j hj => .inl hj
  | closes => exact ho.of_log_eq hb id rfl fun j hj => .inl hj
  | @queues i c keys hget hc hjob =>
    refine ho.of_log_eq hb (KeepsJobs.of_set hget ?_ rfl) rfl ?_
    · rfl
    · exact fun j hj => .inl (put_running_subset (i := i) (c := { c with stage := .queued }) hj)
  | @begins i c queue hidle hqueue hget =>
    have hc := hb.stage_of_mem_queue hget (by simp [hqueue])
    have hold : ({ s with queue } : FilePersistence V).Ordered :=
      ho.of_log_eq hb id rfl fun j hj => .inl hj
    exact hold.begin (hb.dequeue hqueue) hget hc
  | moves hget h => exact ho.moved hb hget h

end FilePersistence

end Axona
