import Axona.Safety.Files

/-! # Whole files

A file that a key has was written to its end before it got that name, and whoever has it open goes
on to see what it had then: the next one to write the key opens another file. That holds as long as
a temporary file is written by one call at a time. -/

namespace Axona

open Library

variable {V : Type*}

namespace FilePersistence

variable {json : JsonCodec V} {files : Text → Option (List UInt8)} {s s' : FilePersistence V}
  {i j : Nat} {c c' d : FileCall V} {key key' name : Text} {text : List UInt8} {n : Inode Text}
  {disk : Disk Text UInt8} {es : List (FileEvent V)}

variable (json files) in
/-- What a key has in full: what it had at the start, or a value that was put there. -/
def InFull (s : FilePersistence V) (key : Text) (text : List UInt8) : Prop :=
  (∃ name, fileFor key = some name ∧ files name = some text)
    ∨ ∃ j v, .effect j key (some v) ∈ s.log ∧ json.stringify v = text

variable (json files) in
/-- A file that nobody writes to: it has no temporary name, and it is whole. -/
structure Settled (s : FilePersistence V) (key : Text) (n : Inode Text) : Prop where
  named : ∀ a, s.disk.dir a = some n → fileFor key = some a
  fresh : ∀ {m}, n = .new m → m < s.disk.next
  whole : s.InFull json files key (s.disk.data n)

variable (json files) in
/-- What a call has open is in order, and what a load has returned. -/
structure GoodFiles (s : FilePersistence V) (c : FileCall V) : Prop where
  writes : ∀ {key v n pos left}, c.stage = .writing key v (some (n, pos)) left →
    ∃ name, fileFor key = some name ∧ s.disk.dir (tmpFor name) = some n
      ∧ pos ≤ (json.stringify v).length ∧ s.disk.data n = (json.stringify v).take pos
  reads : ∀ {key n got keys entries}, c.stage = .reading key (some (n, got)) keys entries →
    s.Settled json files key n ∧ got <+: s.disk.data n
  asks : ∀ {key key' file keys entries}, c.job = .load key →
    c.stage = .reading key' file keys entries → key' = key
  loaded : ∀ {key v}, c.job = .load key → c.stage = .resolved (some v) →
    ∃ text, s.InFull json files key text ∧ json.parse text = some v

variable (json files) in
/-- The directory in order. -/
structure Filed (s : FilePersistence V) : Prop where
  linked : s.disk.Linked
  stored : ∀ {key name n}, fileFor key = some name → s.disk.dir name = some n →
    s.InFull json files key (s.disk.data n)
  calls : ∀ (i : Nat) (c : FileCall V), s.calls[i]? = some c → s.GoodFiles json files c
  alone : ∀ (i j : Nat) (c d : FileCall V) key, s.calls[i]? = some c → s.calls[j]? = some d →
    c.stage.holds = some key → d.stage.holds = some key → i = j

theorem InFull.mono (h : s.InFull json files key text) (hlog : s.log ⊆ s'.log) :
    s'.InFull json files key text := by
  apply h.imp_right
  rintro ⟨j, v, hmem, htext⟩
  exact ⟨j, v, hlog hmem, htext⟩

theorem Settled.mono (h : s.Settled json files key n) (hkeeps : s.disk.Keeps s'.disk n)
    (hlog : s.log ⊆ s'.log) : s'.Settled json files key n where
  named := fun a ha => h.named a (hkeeps.names ha)
  fresh := fun hn => Nat.lt_of_lt_of_le (h.fresh hn) hkeeps.next
  whole := by
    rw [hkeeps.data]
    exact h.whole.mono hlog

/-- No temporary name is the name of a settled file. -/
theorem Settled.dir_tmpFor_ne (h : s.Settled json files key n) (name : Text) :
    s.disk.dir (tmpFor name) ≠ some n :=
  fun hn => tmpFor_ne (h.named _ hn) name rfl

/-- A stored file is settled. -/
theorem Filed.settled (h : s.Filed json files) (hname : fileFor key = some name)
    (hn : s.disk.dir name = some n) : s.Settled json files key n where
  named := by
    intro a ha
    rw [h.linked.inj ha hn, hname]
  fresh := by
    rintro m rfl
    exact h.linked.fresh hn
  whole := h.stored hname hn

variable (json files) in
/-- What a call does to the disk is not seen by the others: a settled file stays as it is, and so
does a temporary file that is not its own. -/
structure Frame (s : FilePersistence V) (i : Nat) (disk : Disk Text UInt8) : Prop where
  linked : disk.Linked
  settled : ∀ {key n}, s.Settled json files key n → s.disk.Keeps disk n
  temporary : ∀ {j : Nat} {d : FileCall V} {key name n}, j ≠ i → s.calls[j]? = some d →
    d.stage.holds = some key → fileFor key = some name → s.disk.dir (tmpFor name) = some n →
      disk.dir (tmpFor name) = some n ∧ disk.data n = s.disk.data n

section

variable (h : s.Filed json files)
include h

theorem Filed.frame_refl : s.Frame json files i s.disk :=
  ⟨h.linked, fun _ => Disk.Keeps.refl .., fun _ _ _ _ hn => ⟨hn, rfl⟩⟩

theorem Filed.frame_openWrite (hname : fileFor key = some name)
    (hfree : ∀ d ∈ s.calls, d.stage.holds ≠ some key) :
    s.Frame json files i (s.disk.openWrite (tmpFor name)).1 where
  linked := h.linked.openWrite _
  settled := fun hn => Disk.keeps_openWrite (hn.dir_tmpFor_ne name) hn.fresh
  temporary := by
    intro j d key' name' n _ hd hholds hname' hn
    have hne : tmpFor name' ≠ tmpFor name := by
      intro heq
      rw [tmpFor_inj heq] at hname'
      exact hfree d (List.mem_of_getElem? hd) (fileFor_inj hname' hname ▸ hholds)
    have hother : s.disk.dir (tmpFor name) ≠ some n := fun hn' => hne (h.linked.inj hn hn')
    refine ⟨(Disk.dir_openWrite_of_ne hne).trans hn, ?_⟩
    apply (Disk.keeps_openWrite hother _).data
    rintro m rfl
    exact h.linked.fresh hn

section

variable (hget : s.calls[i]? = some c) (hc : c.stage.holds = some key)
  (hname : fileFor key = some name)
include hget hc hname

/-- Two calls that have a temporary file in use do not have the same. -/
theorem Filed.tmpFor_ne (hji : j ≠ i)
    (hd : s.calls[j]? = some d) (hholds : d.stage.holds = some key') {name' : Text}
    (hname' : fileFor key' = some name') : tmpFor name' ≠ tmpFor name := by
  intro heq
  rw [tmpFor_inj heq] at hname'
  rw [fileFor_inj hname' hname] at hholds
  exact hji (h.alone j i d c key hd hget hholds hc)

theorem Filed.frame_writeAt (hn : s.disk.dir (tmpFor name) = some n) (pos : Nat) (piece :
    List UInt8) :
    s.Frame json files i (s.disk.writeAt 0 n pos piece) where
  linked := h.linked.writeAt ..
  settled := by
    intro key' n' hn'
    apply Disk.keeps_writeAt
    rintro rfl
    exact hn'.dir_tmpFor_ne name hn
  temporary := by
    intro j d key' name' n' hji hd hholds hname' hn'
    refine ⟨hn', Disk.data_writeAt_of_ne ?_ ..⟩
    rintro rfl
    exact h.tmpFor_ne hget hc hname hji hd hholds hname' (h.linked.inj hn' hn)

theorem Filed.frame_rename (hdisk : s.disk.rename (tmpFor name) name = some disk) :
    s.Frame json files i disk where
  linked := h.linked.rename hdisk
  settled := fun hn => Disk.keeps_rename hdisk (hn.dir_tmpFor_ne name)
  temporary := by
    intro j d key' name' n' hji hd hholds hname' hn'
    obtain ⟨-, hdata, hdir⟩ := Disk.dir_rename hdisk
    have hne := h.tmpFor_ne hget hc hname hji hd hholds hname'
    rw [hdir hne (Axona.tmpFor_ne hname name'), hdata]
    exact ⟨hn', rfl⟩

end

theorem Filed.frame_remove (hname : fileFor key = some name) :
    s.Frame json files i (s.disk.remove name) where
  linked := h.linked.remove _
  settled := fun _ => Disk.keeps_remove ..
  temporary := by
    intro j d key' name' n' _ _ _ _ hn'
    exact ⟨(Function.update_of_ne (Axona.tmpFor_ne hname name') ..).trans hn', rfl⟩

end

theorem Moves.frame (h : Moves json s i c disk es c') (hf : s.Filed json files)
    (hget : s.calls[i]? = some c) : s.Frame json files i disk := by
  have hok := hf.calls i c hget
  cases h with
  | opens hc hname hfree => exact hf.frame_openWrite hname hfree
  | writes m hc hpiece =>
    obtain ⟨name, hname, hn, -⟩ := hok.writes hc
    exact hf.frame_writeAt hget (by rw [hc]; rfl) hname hn ..
  | renames hc hpos hname hdisk => exact hf.frame_rename hget (by rw [hc]; rfl) hname hdisk
  | removes hc hname => exact hf.frame_remove hname
  | _ => exact hf.frame_refl

/-- A call keeps what it has, holds or returned, while another one moves. -/
theorem GoodFiles.frame (hok : s.GoodFiles json files d) (hframe : s.Frame json files i disk)
    (hji : j ≠ i) (hd : s.calls[j]? = some d) (c' : FileCall V) (es : List (FileEvent V)) :
    (s.moved i disk es c').GoodFiles json files d := by
  have hlog : s.log ⊆ (s.moved i disk es c').log := List.subset_append_left ..
  refine ⟨fun hc => ?_, fun hc => ?_, hok.asks, fun hjob hc => ?_⟩
  · obtain ⟨name, hname, hn, hpos, hdata⟩ := hok.writes hc
    obtain ⟨hn', hsame⟩ := hframe.temporary hji hd (by rw [hc]; rfl) hname hn
    exact ⟨name, hname, hn', hpos, hsame.trans hdata⟩
  · obtain ⟨hsettled, hgot⟩ := hok.reads hc
    have hkeeps := hframe.settled hsettled
    refine ⟨hsettled.mono hkeeps hlog, ?_⟩
    rw [moved_disk, hkeeps.data]
    exact hgot
  · obtain ⟨text, hwhole, hparse⟩ := hok.loaded hjob hc
    exact ⟨text, hwhole.mono hlog, hparse⟩

/-- A file that has the name of a key is whole after the move. -/
theorem Moves.stored (h : Moves json s i c disk es c') (hf : s.Filed json files)
    (hget : s.calls[i]? = some c) (hname : fileFor key = some name)
    (hn : disk.dir name = some n) : (s.moved i disk es c').InFull json files key (disk.data n) := by
  have hlog : s.log ⊆ (s.moved i disk es c').log := List.subset_append_left ..
  have hframe := h.frame hf hget
  have hold : ∀ {n}, s.disk.dir name = some n →
      (s.moved i disk es c').InFull json files key (disk.data n) := by
    intro n hn
    rw [(hframe.settled (hf.settled hname hn)).data]
    exact (hf.stored hname hn).mono hlog
  cases h with
  | opens hc hname' =>
    rw [Disk.dir_openWrite_of_ne (Axona.tmpFor_ne hname _).symm] at hn
    exact hold hn
  | @renames key' v n' pos name' left disk hc hpos hname' hdisk htakes =>
    obtain ⟨hdir, hdata, hother⟩ := Disk.dir_rename hdisk
    by_cases heq : name = name'
    · -- the file that is renamed was written to its end
      subst heq
      obtain rfl := fileFor_inj hname hname'
      obtain ⟨name'', hname'', htmp, -, htext⟩ := (hf.calls i c hget).writes hc
      cases hname.symm.trans hname''
      cases hn.symm.trans (hdir.trans htmp)
      rw [List.take_of_length_le hpos] at htext
      rw [hdata, htext]
      exact .inr ⟨i, v, by simp, rfl⟩
    · rw [hother (Axona.tmpFor_ne hname _).symm heq] at hn
      exact hold hn
  | @removes key' name' left hc hname' =>
    by_cases heq : name = name'
    · simp [Disk.remove, heq] at hn
    · simp only [Disk.remove, Function.update_of_ne heq] at hn
      exact hold hn
  | _ => exact hold hn

theorem holds_write (writes : List (Text × Option V)) : (FileStage.write writes).holds = none := by
  rcases writes with - | ⟨⟨key, - | v⟩, left⟩ <;> rfl

variable {v : Option V}

theorem holds_readDone {keys : List Text} {entries : OrderedMap Text (Option V)} :
    (c.readDone key v keys entries).holds = none := by
  unfold FileCall.readDone
  split
  · cases keys <;> rfl
  · rfl

/-- A call holds the temporary file it held, or one that nobody holds. -/
theorem Moves.holds (h : Moves json s i c disk es c') (hc' : c'.stage.holds = some key) :
    c.stage.holds = some key ∨ ∀ d ∈ s.calls, d.stage.holds ≠ some key := by
  cases h with
  | opens hc hname hfree =>
    cases hc'
    exact .inr hfree
  | writes m hc hpiece =>
    rw [hc]
    exact .inl hc'
  | saves | applies | renames | removes | loses => simp [holds_write] at hc'
  | misses | parses => simp [holds_readDone] at hc'
  | _ => cases hc'

/-- A call that has nothing open and does not read or return is in order. -/
theorem goodFiles_of_quiet (hholds : c.stage.holds = none)
    (hread : ∀ key file keys entries, c.stage ≠ .reading key file keys entries)
    (hdone : ∀ v, c.stage ≠ .resolved (some v)) : s.GoodFiles json files c where
  writes := fun hc => by simp [hc, FileStage.holds] at hholds
  reads := fun hc => absurd hc (hread _ _ _ _)
  asks := fun _ hc => absurd hc (hread _ _ _ _)
  loaded := fun _ hc => absurd hc (hdone _)

theorem goodFiles_write {job : FileJob V} (left writes : List (Text × Option V)) :
    s.GoodFiles json files ⟨job, .write left, writes⟩ := by
  apply goodFiles_of_quiet (holds_write left)
  · rcases left with - | ⟨⟨key, - | v⟩, left⟩ <;> intro _ _ _ _ hc <;> cases hc
  · rcases left with - | ⟨⟨key, - | v⟩, left⟩ <;> intro _ hc <;> cases hc

/-- What is read goes to a load as its result, and to a transaction among its entries. -/
theorem goodFiles_readDone {keys : List Text} {entries : OrderedMap Text (Option V)}
    (h : ∀ key' v', c.job = .load key' → v = some v' →
      ∃ text, s.InFull json files key' text ∧ json.parse text = some v') :
    s.GoodFiles json files { c with stage := c.readDone key v keys entries } := by
  unfold FileCall.readDone
  split
  next htrans =>
    have hload : ∀ {key'}, c.job ≠ .load key' := by
      intro key' hjob
      simp [FileCall.isTransaction, hjob] at htrans
    refine ⟨fun hc => ?_, fun hc => ?_, fun h => absurd h hload, fun h => absurd h hload⟩
    · cases keys <;> cases hc
    · cases keys <;> cases hc
  · refine ⟨?_, ?_, ?_, fun hjob hc => h _ _ hjob (FileStage.resolved.inj hc)⟩
    · exact fun hc => by cases hc
    · exact fun hc => by cases hc
    · exact fun _ hc => by cases hc

/-- What a call comes to by a move is in order. -/
theorem Moves.goodFiles (h : Moves json s i c disk es c') (hf : s.Filed json files)
    (hget : s.calls[i]? = some c) : (s.moved i disk es c').GoodFiles json files c' := by
  have hlog : s.log ⊆ (s.moved i disk es c').log := List.subset_append_left ..
  have hok := hf.calls i c hget
  have hframe := h.frame hf hget
  cases h with
  | rejects | returns =>
    exact goodFiles_of_quiet rfl (fun _ _ _ _ hc => nomatch hc) (fun _ hc => nomatch hc)
  | loads hc hjob =>
    refine ⟨?_, ?_, ?_, ?_⟩
    · exact fun hc => nomatch hc
    · exact fun hc => nomatch hc
    · intro key key' file keys entries hjob' hc'
      cases hc'
      exact FileJob.load.inj (hjob.symm.trans hjob')
    · exact fun _ hc => nomatch hc
  | saves | applies | renames | removes | loses => exact goodFiles_write ..
  | misses => exact goodFiles_readDone fun _ _ _ hv => nomatch hv
  | finds hc hname hn =>
    have hsettled := hf.settled hname hn
    refine ⟨?_, ?_, ?_, ?_⟩
    · exact fun hc => nomatch hc
    · intro key n got keys entries hc'
      cases hc'
      exact ⟨hsettled.mono (hframe.settled hsettled) hlog, List.nil_prefix⟩
    · intro key key' file keys entries hjob' hc'
      cases hc'
      exact hok.asks hjob' hc
    · exact fun _ hc => nomatch hc
  | @reads key n got keys entries piece m hc hpiece =>
    obtain ⟨hsettled, hgot⟩ := hok.reads hc
    refine ⟨?_, ?_, ?_, ?_⟩
    · exact fun hc => nomatch hc
    · intro key' n' got' keys' entries' hc'
      cases hc'
      refine ⟨hsettled.mono (hframe.settled hsettled) hlog, ?_⟩
      obtain ⟨rest, hrest⟩ := hgot
      rw [hpiece, moved_disk, ← hrest, List.drop_left]
      exact List.prefix_append_right_inj got |>.mpr (List.take_prefix m rest)
    · intro key key' file keys entries hjob' hc'
      cases hc'
      exact hok.asks hjob' hc
    · exact fun _ hc => nomatch hc
  | @parses key n got keys entries v hc hend hv =>
    obtain ⟨hsettled, hgot⟩ := hok.reads hc
    have hall := hgot.eq_of_length_le hend
    apply goodFiles_readDone
    intro key' v' hjob hv'
    cases hv'
    obtain rfl := hok.asks hjob hc
    exact ⟨got, hall ▸ hsettled.whole.mono hlog, hv⟩
  | @opens key v name left hc hname hfree =>
    refine ⟨?_, ?_, ?_, ?_⟩
    · intro key' v' n' pos left' hc'
      cases hc'
      exact ⟨name, hname, Disk.dir_openWrite_self .., Nat.zero_le _, Disk.data_openWrite_self ..⟩
    · exact fun hc => nomatch hc
    · exact fun _ hc => nomatch hc
    · exact fun _ hc => nomatch hc
  | @writes key v n pos left piece m hc hpiece =>
    obtain ⟨name, hname, hn, hpos, htext⟩ := hok.writes hc
    refine ⟨?_, ?_, ?_, ?_⟩
    · intro key' v' n' pos' left' hc'
      cases hc'
      subst hpiece
      refine ⟨name, hname, hn, ?_, ?_⟩
      · rw [List.length_take, List.length_drop]
        omega
      · rw [moved_disk, Disk.data_writeAt_take 0 htext hpos, List.take_eq_take_iff,
          List.length_take, List.length_drop]
        omega
    · exact fun hc => nomatch hc
    · exact fun _ hc => nomatch hc
    · exact fun _ hc => nomatch hc

theorem Filed.moved (hf : s.Filed json files) (hget : s.calls[i]? = some c)
    (h : Moves json s i c disk es c') : (s.moved i disk es c').Filed json files := by
  have hframe := h.frame hf hget
  have hlt := (List.getElem?_eq_some_iff.mp hget).1
  have hnew : (s.moved i disk es c').calls[i]? = some c' := List.getElem?_set_self hlt
  have hother : ∀ {j}, j ≠ i → (s.moved i disk es c').calls[j]? = s.calls[j]? :=
    fun hne => List.getElem?_set_ne (Ne.symm hne)
  -- the new holder of a key is alone with it
  have halone : ∀ {j d key}, j ≠ i → s.calls[j]? = some d → c'.stage.holds = some key →
      d.stage.holds ≠ some key := by
    intro j d key hji hd hc' hholds
    rcases h.holds hc' with hc | hfree
    · exact hji (hf.alone j i d c key hd hget hholds hc)
    · exact hfree d (List.mem_of_getElem? hd) hholds
  refine ⟨hframe.linked, h.stored hf hget, fun j d hd => ?_, fun j k d d' key hd hd' hj hk => ?_⟩
  · by_cases hji : j = i
    · subst hji
      cases hnew.symm.trans hd
      exact h.goodFiles hf hget
    · rw [hother hji] at hd
      exact (hf.calls j d hd).frame hframe hji hd c' es
  · by_cases hji : j = i
    · by_cases hki : k = i
      · exact hji.trans hki.symm
      subst hji
      cases hnew.symm.trans hd
      rw [hother hki] at hd'
      exact absurd hk (halone hki hd' hj)
    · rw [hother hji] at hd
      by_cases hki : k = i
      · subst hki
        cases hnew.symm.trans hd'
        exact absurd hj (halone hji hd hk)
      · rw [hother hki] at hd'
        exact hf.alone j k d d' key hd hd' hj hk

theorem filed_init : (init files : FilePersistence V).Filed json files where
  linked := Disk.linked_ofFiles files
  stored := by
    intro key name n hname hn
    obtain ⟨text, htext, rfl⟩ := Option.map_eq_some_iff.mp hn
    refine .inl ⟨name, hname, htext.trans ?_⟩
    simp [init, Disk.ofFiles, htext]
  calls := fun _ _ h => by simp [init] at h
  alone := fun _ _ _ _ _ h => by simp [init] at h

/-- Calls that have nothing open come in or change, and nothing else does. -/
theorem Filed.of_calls (hf : s.Filed json files) (hdisk : s'.disk = s.disk) (hlog : s'.log = s.log)
    (hcalls : ∀ (j : Nat) (d : FileCall V), s'.calls[j]? = some d →
      s.calls[j]? = some d ∨ d.stage.holds = none ∧ s.GoodFiles json files d) :
    s'.Filed json files := by
  have hwhole : ∀ {key text}, s.InFull json files key text → s'.InFull json files key text :=
    fun h => h.mono (hlog ▸ List.Subset.refl _)
  refine ⟨hdisk ▸ hf.linked, fun hname hn => ?_, fun j d hd => ?_,
    fun j k d d' key hd hd' hj hk => ?_⟩
  · rw [hdisk] at hn ⊢
    exact hwhole (hf.stored hname hn)
  · have hok : s.GoodFiles json files d := by
      rcases hcalls j d hd with hd | ⟨-, hok⟩
      · exact hf.calls j d hd
      · exact hok
    refine ⟨hdisk ▸ hok.writes, fun hc => ?_, hok.asks, fun hjob hc => ?_⟩
    · obtain ⟨hsettled, hgot⟩ := hok.reads hc
      refine ⟨hsettled.mono ?_ (hlog ▸ List.Subset.refl _), hdisk ▸ hgot⟩
      exact hdisk ▸ Disk.Keeps.refl ..
    · obtain ⟨text, htext, hparse⟩ := hok.loaded hjob hc
      exact ⟨text, hwhole htext, hparse⟩
  · rcases hcalls j d hd with hd | ⟨hnone, -⟩
    · rcases hcalls k d' hd' with hd' | ⟨hnone, -⟩
      · exact hf.alone j k d d' key hd hd' hj hk
      · simp [hk] at hnone
    · simp [hj] at hnone

/-- One call changes that has nothing open then. -/
theorem Filed.of_set (hf : s.Filed json files) (hget : s.calls[i]? = some c)
    (hdisk : s'.disk = s.disk) (hlog : s'.log = s.log) (hcalls : s'.calls = s.calls.set i c')
    (hholds : c'.stage.holds = none) (hok : s.GoodFiles json files c') : s'.Filed json files := by
  apply hf.of_calls hdisk hlog
  intro j d hd
  rw [hcalls] at hd
  by_cases hji : j = i
  · subst hji
    rw [List.getElem?_set_self (List.getElem?_eq_some_iff.mp hget).1] at hd
    cases hd
    exact .inr ⟨hholds, hok⟩
  · rw [List.getElem?_set_ne (Ne.symm hji)] at hd
    exact .inl hd

theorem goodFiles_rejected {job : FileJob V} {writes : List (Text × Option V)} :
    s.GoodFiles json files ⟨job, .rejected, writes⟩ :=
  goodFiles_of_quiet rfl (fun _ _ _ _ hc => nomatch hc) (fun _ hc => nomatch hc)

theorem Filed.enter (hf : s.Filed json files) (job : FileJob V) :
    (s.enter job).Filed json files := by
  refine hf.of_calls rfl rfl fun j d hd => ?_
  rcases enter_calls hd with hd | ⟨-, rfl⟩
  · exact .inl hd
  refine .inr ?_
  split
  · exact ⟨rfl, goodFiles_rejected⟩
  · exact ⟨rfl, goodFiles_of_quiet rfl (fun _ _ _ _ hc => nomatch hc) (fun _ hc => nomatch hc)⟩

theorem Filed.begin (hf : s.Filed json files) (hget : s.calls[i]? = some c) :
    (s.begin i c).Filed json files := by
  cases hjob : c.job with
  | transaction keys =>
    cases hclosed : s.closed with
    | true =>
      rw [begin_of_closed hjob hclosed]
      exact hf.of_set hget rfl rfl rfl rfl goodFiles_rejected
    | false =>
      rw [begin_of_open hjob hclosed]
      have hload : ∀ {key}, c.job ≠ .load key := by simp [hjob]
      refine hf.of_set (i := i) hget rfl rfl rfl ?_ ?_
      · cases keys <;> rfl
      · refine ⟨?_, ?_, fun h => absurd h hload, fun h => absurd h hload⟩
        · cases keys <;> exact fun hc => nomatch hc
        · cases keys <;> exact fun hc => nomatch hc
  | _ =>
    rw [FilePersistence.begin, hjob]
    exact hf

theorem Filed.stepped (hf : s.Filed json files) (h : Stepped json s s') : s'.Filed json files := by
  cases h with
  | idle => exact hf
  | enters job => exact hf.enter job
  | closes => exact hf.of_calls rfl rfl fun _ _ hd => .inl hd
  | queues hget hc hjob =>
    refine hf.of_set hget rfl rfl rfl rfl ?_
    exact goodFiles_of_quiet rfl (fun _ _ _ _ hc => nomatch hc) (fun _ hc => nomatch hc)
  | @begins i c queue hidle hqueue hget =>
    have hold : ({ s with queue } : FilePersistence V).Filed json files :=
      hf.of_calls rfl rfl fun _ _ hd => .inl hd
    exact hold.begin hget
  | moves hget h => exact hf.moved hget h

/-! ### Whole runs -/

variable (json files) in
/-- The calls, the log and the directory in order. -/
structure FiledInOrder (s : FilePersistence V) : Prop where
  book : s.Book
  ordered : s.Ordered
  filed : s.Filed json files

theorem filedInOrder_init : (init files : FilePersistence V).FiledInOrder json files :=
  ⟨book_init, ordered_init, filed_init⟩

/-- **The step rule.** An orderly step keeps everything in order. -/
theorem FiledInOrder.step {a : FileAct V} (h : s.FiledInOrder json files) (ha : s.Orderly json a) :
    (s.step json a).FiledInOrder json files := by
  have hstep : Stepped json s (s.step json a) := by
    apply stepped _ ha
    intro i c key v n pos left hget hc
    obtain ⟨name, hname, hn, -⟩ := (h.filed.calls i c hget).writes hc
    exact ⟨name, hname, hn⟩
  exact ⟨h.book.stepped hstep, h.ordered.stepped h.book hstep, h.filed.stepped hstep⟩

theorem Book.allOrNothing (hb : s.Book) : s.AllOrNothing := by
  intro i c hget hended
  have hleft : c.stage.left = [] := by
    cases hc : c.stage <;> simp_all [FileStage.ended, FileStage.left]
  have hwhole := (hb.calls i c hget).whole
  rwa [hleft, List.append_nil] at hwhole

/-- What took effect is among what its call was to write. -/
theorem Book.mem_writes (hb : s.Book) (h : .effect i key v ∈ s.log) :
    ∃ c, s.calls[i]? = some c ∧ (key, v) ∈ c.writes := by
  have hmem : (key, v) ∈ s.effects i := List.mem_filterMap.mpr ⟨_, h, if_pos rfl⟩
  have hget := List.getElem?_eq_getElem (hb.events _ h)
  refine ⟨_, hget, ?_⟩
  rcases (hb.calls _ _ hget).whole with hnil | heq
  · have hnil' : s.effects i = [] := hnil
    rw [hnil'] at hmem
    cases hmem
  · rw [← heq]
    exact List.mem_append_left _ hmem

theorem FiledInOrder.loadsWhole (h : s.FiledInOrder json files) : s.LoadsWhole json files := by
  intro i c key v hget hjob hc
  obtain ⟨text, hwhole, hparse⟩ := (h.filed.calls i c hget).loaded hjob hc
  rcases hwhole with ⟨name, hname, htext⟩ | ⟨j, v', hmem, rfl⟩
  · refine .inl ⟨text, ?_, hparse⟩
    rw [hname]
    exact htext
  · cases (json.parse_stringify v').symm.trans hparse
    obtain ⟨d, hd, hwrites⟩ := h.book.mem_writes hmem
    exact .inr ⟨j, d, hd, hwrites, hmem⟩

/-- **Transactions are atomic, and loads are whole, in an orderly run.** As long as no two calls use
a key's temporary file at once, no transaction loses a write once it has made one, and no save and
no load takes effect inside a transaction, every call writes all or nothing, nobody comes between
the reads and the writes of a transaction, and what is loaded was written in full. -/
theorem transactions_atomic (json : JsonCodec V) (files : Text → Option (List UInt8))
    (as : List (FileAct V)) (h : EachStep (step json) (Orderly json) (init files) as) :
    (run (step json) (init files) as).AllOrNothing ∧ (run (step json) (init files) as).Serial
      ∧ (run (step json) (init files) as).LoadsWhole json files := by
  have hgood : (run (step json) (init files) as).FiledInOrder json files :=
    h.invariant (I := fun s => s.FiledInOrder json files) (fun _ _ hs ha => hs.step ha) filedInOrder_init
  exact ⟨hgood.book.allOrNothing, hgood.ordered.serial, hgood.loadsWhole⟩

/-! ### Runs with numbers -/

/-- A natural number as JSON has it. -/
def isNumber (text : List UInt8) : Bool :=
  text = [48] || text.head?.any (49 ≤ ·) && text.all fun b => 48 ≤ b && b ≤ 57

/-- Numbers, as their texts. -/
def numbers : JsonCodec { text : List UInt8 // isNumber text = true } where
  stringify := Subtype.val
  parse := fun text => if h : isNumber text = true then some ⟨text, h⟩ else none
  parse_stringify := fun v => dif_pos v.2

/-- A transaction over two keys, a save after it, and a load. -/
def sampleRun : List (FileAct { text : List UInt8 // isNumber text = true }) :=
  [.call (.transaction [['a']]), .call (.save ['a'] (some ⟨[55], rfl⟩)), .ready 0, .ready 1, .turn,
    .lookup 0, .apply 0 (some ⟨[(['a'], some ⟨[49], rfl⟩), (['b'], none)], by decide⟩),
    .openTmp 0, .write 0 1, .rename 0, .remove 0, .openTmp 1, .write 1 1, .rename 1,
    .call (.load ['a']), .ready 2, .lookup 2, .read 2 1, .read 2 0]

theorem transactions_atomic_sample :
    (run (step numbers) (init fun _ => none) sampleRun).AllOrNothing
      ∧ (run (step numbers) (init fun _ => none) sampleRun).Serial
      ∧ (run (step numbers) (init fun _ => none) sampleRun).LoadsWhole numbers fun _ => none :=
  transactions_atomic numbers (fun _ => none) sampleRun (by decide)

/-- The second write of a transaction fails. -/
def lostRun : List (FileAct { text : List UInt8 // isNumber text = true }) :=
  [.call (.transaction []), .ready 0, .turn,
    .apply 0 (some ⟨[(['a'], some ⟨[49], rfl⟩), (['b'], some ⟨[49], rfl⟩)], by decide⟩),
    .openTmp 0, .write 0 1, .rename 0, .openTmp 0, .fail 0]

/-- A save comes between the read of a transaction and its write. -/
def crossedRun : List (FileAct { text : List UInt8 // isNumber text = true }) :=
  [.call (.transaction [['a']]), .call (.save ['a'] (some ⟨[55], rfl⟩)), .ready 0, .ready 1, .turn,
    .lookup 0, .openTmp 1, .write 1 1, .rename 1,
    .apply 0 (some ⟨[(['a'], some ⟨[49], rfl⟩)], by decide⟩), .openTmp 0, .write 0 1, .rename 0]

/-- 9999 and 12 are saved at once, and 1299 is loaded. -/
def tornRun : List (FileAct { text : List UInt8 // isNumber text = true }) :=
  [.call (.save ['a'] (some ⟨[57, 57, 57, 57], rfl⟩)), .call (.save ['a'] (some ⟨[49, 50], rfl⟩)),
    .ready 0, .ready 1, .openTmp 0, .openTmp 1, .write 0 4, .write 1 2, .rename 0,
    .call (.load ['a']), .ready 2, .lookup 2, .read 2 4, .read 2 0]

theorem transactions_broken :
    ¬ (run (step numbers) (init fun _ => none) lostRun).AllOrNothing
      ∧ ¬ (run (step numbers) (init fun _ => none) crossedRun).Serial
      ∧ ¬ (run (step numbers) (init fun _ => none) tornRun).LoadsWhole numbers fun _ => none := by
  refine ⟨fun h => ?_, fun h => ?_, fun h => ?_⟩
  · have hlost := h 0 _ rfl rfl
    revert hlost
    decide
  · have hcrossed := h [.read 0 ['a'], .effect 1 ['a'] (some ⟨[55], rfl⟩)] 0 ['a']
      (some ⟨[49], rfl⟩) [['a']] ⟨[], rfl⟩ rfl [.read 0 ['a']] (.effect 1 ['a'] (some ⟨[55], rfl⟩))
      ⟨[], rfl⟩
    rcases hcrossed with hown | hnone | ⟨key, hdelete⟩ | ⟨key, hread, -⟩
    · cases hown
    · exact hnone _ (List.mem_singleton.mpr rfl) rfl
    · cases hdelete
    · cases hread
  · have htorn := h 2 _ ['a'] ⟨[49, 50, 57, 57], rfl⟩ rfl rfl rfl
    rcases htorn with ⟨text, htext, -⟩ | ⟨j, d, -, -, hmem⟩
    · cases htext
    · have hlog : (run (step numbers) (init fun _ => none) tornRun).log
          = [.effect 0 ['a'] (some ⟨[57, 57, 57, 57], rfl⟩), .read 2 ['a']] := rfl
      rw [hlog] at hmem
      simp only [List.mem_cons, FileEvent.effect.injEq, reduceCtorEq, List.not_mem_nil, or_false,
        Option.some.injEq] at hmem
      exact absurd (congrArg Subtype.val hmem.2.2) (by decide)

end FilePersistence

end Axona
