import Mathlib.Data.List.Basic

/-! # A directory of files

Names and the files behind them. A name may come to stand for another file, and a file that has
lost its name is still there for whoever has it open, so files have identities of their own
(`Inode`). `openWrite`, `writeAt`, `rename` and `remove` are the calls of a file system; a rename is
atomic, a write is not: a file is written piece by piece, at the position of the handle.

`Linked` says that no file has two names. Under it a file that is written under one name is seen
under no other. -/

namespace Axona.Library

variable {ν α : Type*}

/-- A file: one that was there before, by the name it had, or one created since. -/
inductive Inode (ν : Type*) where
  | old (name : ν)
  | new (n : Nat)
deriving DecidableEq

/-- The files under their names, and what is in them. -/
structure Disk (ν α : Type*) where
  dir : ν → Option (Inode ν)
  data : Inode ν → List α
  next : Nat

namespace Disk

variable {d : Disk ν α} {name name' : ν} {n n' : Inode ν}

/-- The disk with these files on it. -/
def ofFiles (files : ν → Option (List α)) : Disk ν α where
  dir := fun name => (files name).map fun _ => .old name
  data := fun n => match n with
    | .old name => (files name).getD []
    | .new _ => []
  next := 0

/-- No file has two names, and none has a name that is not there yet. -/
structure Linked (d : Disk ν α) : Prop where
  inj : ∀ {a b n}, d.dir a = some n → d.dir b = some n → a = b
  fresh : ∀ {a m}, d.dir a = some (.new m) → m < d.next

theorem linked_ofFiles (files : ν → Option (List α)) : (ofFiles files).Linked where
  inj := by
    intro a b n ha hb
    obtain ⟨-, -, rfl⟩ := Option.map_eq_some_iff.mp ha
    obtain ⟨-, -, heq⟩ := Option.map_eq_some_iff.mp hb
    exact (Inode.old.inj heq).symm
  fresh := by
    intro a m ha
    obtain ⟨-, -, heq⟩ := Option.map_eq_some_iff.mp ha
    cases heq

section Calls

variable [DecidableEq ν]

/-- Open a file for writing. What was in it is gone; where there was none it is created. -/
def openWrite (d : Disk ν α) (name : ν) : Disk ν α × Inode ν :=
  match d.dir name with
  | some n => ({ d with data := Function.update d.data n [] }, n)
  | none => (⟨Function.update d.dir name (some (.new d.next)),
      Function.update d.data (.new d.next) [], d.next + 1⟩, .new d.next)

/-- Write a piece at a position; `blank` fills up what the file is too short by. -/
def writeAt (d : Disk ν α) (blank : α) (n : Inode ν) (pos : Nat) (piece : List α) : Disk ν α :=
  let text := d.data n ++ List.replicate (pos - (d.data n).length) blank
  let text := text.take pos ++ piece ++ text.drop (pos + piece.length)
  { d with data := Function.update d.data n text }

/-- The file of the first name gets the second one, whose own file loses it. -/
def rename (d : Disk ν α) (name name' : ν) : Option (Disk ν α) :=
  (d.dir name).map fun n =>
    { d with dir := Function.update (Function.update d.dir name none) name' (some n) }

/-- A name is removed. -/
def remove (d : Disk ν α) (name : ν) : Disk ν α :=
  { d with dir := Function.update d.dir name none }

/-! ### Names -/

theorem dir_openWrite_self (d : Disk ν α) (name : ν) :
    (d.openWrite name).1.dir name = some (d.openWrite name).2 := by
  unfold openWrite
  split
  next n hn => exact hn
  · simp

theorem dir_openWrite_of_ne (h : name' ≠ name) : (d.openWrite name).1.dir name' = d.dir name' := by
  unfold openWrite
  split
  · rfl
  · simp [h]

theorem data_openWrite_self (d : Disk ν α) (name : ν) :
    (d.openWrite name).1.data (d.openWrite name).2 = [] := by
  unfold openWrite
  split <;> simp

theorem data_openWrite_of_ne (h : n ≠ (d.openWrite name).2) :
    (d.openWrite name).1.data n = d.data n := by
  unfold openWrite at h ⊢
  split
  next n' hn' =>
    simp only [hn'] at h
    exact Function.update_of_ne h ..
  next hnone =>
    simp only [hnone] at h
    exact Function.update_of_ne h ..

theorem next_le_openWrite (d : Disk ν α) (name : ν) : d.next ≤ (d.openWrite name).1.next := by
  unfold openWrite
  split
  · exact Nat.le_refl _
  · exact Nat.le_succ _

/-- What is opened has the name already, or is new. -/
theorem openWrite_cases (d : Disk ν α) (name : ν) : d.dir name = some (d.openWrite name).2
      ∨ d.dir name = none ∧ (d.openWrite name).2 = .new d.next
        ∧ (d.openWrite name).1.next = d.next + 1 := by
  unfold openWrite
  split
  next n hn => exact .inl hn
  next hnone => exact .inr ⟨hnone, rfl, rfl⟩

theorem Linked.openWrite (h : d.Linked) (name : ν) : (d.openWrite name).1.Linked := by
  have hfresh : ∀ {a m}, d.dir a = some (.new m) → .new m ≠ (Inode.new d.next : Inode ν) := by
    intro a m ha heq
    have hlt := h.fresh ha
    rw [Inode.new.inj heq] at hlt
    exact Nat.lt_irrefl _ hlt
  rcases d.openWrite_cases name with hname | ⟨hnone, hnew, hnext⟩
  · have hdir : (d.openWrite name).1.dir = d.dir := by
      funext a
      by_cases ha : a = name
      · rw [ha, dir_openWrite_self, hname]
      · exact dir_openWrite_of_ne ha
    refine ⟨fun ha hb => ?_, fun ha => ?_⟩
    · rw [hdir] at ha hb
      exact h.inj ha hb
    · rw [hdir] at ha
      exact Nat.lt_of_lt_of_le (h.fresh ha) (d.next_le_openWrite name)
  have hother : ∀ {a}, a ≠ name → (d.openWrite name).1.dir a ≠ some (.new d.next) := by
    intro a ha heq
    rw [dir_openWrite_of_ne ha] at heq
    exact hfresh heq rfl
  have hself := d.dir_openWrite_self name
  rw [hnew] at hself
  refine ⟨fun {a b n} ha hb => ?_, fun {a m} ha => ?_⟩
  · by_cases hna : a = name
    · by_cases hnb : b = name
      · exact hna.trans hnb.symm
      · rw [hna, hself] at ha
        exact absurd (hb.trans ha.symm) (hother hnb)
    · by_cases hnb : b = name
      · rw [hnb, hself] at hb
        exact absurd (ha.trans hb.symm) (hother hna)
      · rw [dir_openWrite_of_ne hna] at ha
        rw [dir_openWrite_of_ne hnb] at hb
        exact h.inj ha hb
  · rw [hnext]
    by_cases hna : a = name
    · rw [hna, hself] at ha
      obtain rfl : d.next = m := by simpa using ha
      exact Nat.lt_succ_self _
    · rw [dir_openWrite_of_ne hna] at ha
      exact Nat.lt_succ_of_lt (h.fresh ha)

variable {d' : Disk ν α}

theorem Linked.rename (h : d.Linked) (hd : d.rename name name' = some d') :
    d'.Linked := by
  obtain ⟨n, hn, rfl⟩ := Option.map_eq_some_iff.mp hd
  have hdir : ∀ {a m}, Function.update (Function.update d.dir name none) name' (some n) a = some m →
      a = name' ∧ m = n ∨ a ≠ name ∧ d.dir a = some m := by
    intro a m ha
    by_cases hna : a = name'
    · subst hna
      rw [Function.update_self] at ha
      exact .inl ⟨rfl, (Option.some.inj ha).symm⟩
    rw [Function.update_of_ne hna] at ha
    by_cases hnb : a = name
    · subst hnb
      rw [Function.update_self] at ha
      cases ha
    · rw [Function.update_of_ne hnb] at ha
      exact .inr ⟨hnb, ha⟩
  refine ⟨fun ha hb => ?_, fun ha => ?_⟩
  · rcases hdir ha with ⟨hna, hma⟩ | ⟨hna, ha'⟩ <;> rcases hdir hb with ⟨hnb, hmb⟩ | ⟨hnb, hb'⟩
    · exact hna.trans hnb.symm
    · rw [hma] at hb'
      exact absurd (h.inj hb' hn) hnb
    · rw [hmb] at ha'
      exact absurd (h.inj ha' hn) hna
    · exact h.inj ha' hb'
  · rcases hdir ha with ⟨rfl, rfl⟩ | ⟨-, ha⟩
    · exact h.fresh hn
    · exact h.fresh ha

theorem Linked.remove (h : d.Linked) (name : ν) : (d.remove name).Linked := by
  have hdir : ∀ {a m}, Function.update d.dir name none a = some m → d.dir a = some m := by
    intro a m ha
    by_cases hna : a = name
    · subst hna
      rw [Function.update_self] at ha
      cases ha
    · rwa [Function.update_of_ne hna] at ha
  exact ⟨fun ha hb => h.inj (hdir ha) (hdir hb), fun ha => h.fresh (hdir ha)⟩

theorem Linked.writeAt (h : d.Linked) (blank : α) (n : Inode ν) (pos : Nat) (piece : List α) :
    (d.writeAt blank n pos piece).Linked := ⟨h.inj, h.fresh⟩

/-! ### What is in a file -/

theorem data_writeAt_of_ne (h : n' ≠ n) (blank : α) (pos : Nat) (piece : List α) :
    (d.writeAt blank n pos piece).data n' = d.data n' := Function.update_of_ne h ..

/-- The next piece of a text, written behind what is there of it. -/
theorem data_writeAt_take (blank : α) {text : List α} {pos : Nat} (h : d.data n = text.take pos)
    (hpos : pos ≤ text.length) (m : Nat) :
    (d.writeAt blank n pos ((text.drop pos).take m)).data n = text.take (pos + m) := by
  have hlen : (text.take pos).length = pos := by simp [hpos]
  have hdata : (d.writeAt blank n pos ((text.drop pos).take m)).data n
      = (text.take pos).take pos ++ (text.drop pos).take m
        ++ (text.take pos).drop (pos + ((text.drop pos).take m).length) := by
    simp [writeAt, h, hlen]
  have hdrop : (text.take pos).drop (pos + ((text.drop pos).take m).length) = [] :=
    List.drop_eq_nil_of_le (by rw [hlen]; exact Nat.le_add_right ..)
  rw [hdata, hdrop, List.take_take, Nat.min_self, List.append_nil, ← List.take_add]

/-! ### What is seen of an open file -/

/-- Who has the file open sees the same in it, and it has got no other name. -/
structure Keeps (d d' : Disk ν α) (n : Inode ν) : Prop where
  data : d'.data n = d.data n
  names : ∀ {a}, d'.dir a = some n → d.dir a = some n
  next : d.next ≤ d'.next

omit [DecidableEq ν] in
theorem Keeps.refl (d : Disk ν α) (n : Inode ν) : d.Keeps d n := ⟨rfl, id, Nat.le_refl _⟩

/-- A name is opened that is not the name of the file. -/
theorem keeps_openWrite (hname : d.dir name ≠ some n) (hfresh : ∀ {m}, n = .new m → m < d.next) :
    d.Keeps (d.openWrite name).1 n := by
  have hne : n ≠ (d.openWrite name).2 := by
    intro heq
    rcases d.openWrite_cases name with hd | ⟨-, hnew, -⟩
    · exact hname (heq ▸ hd)
    · exact absurd (hfresh (heq.trans hnew)) (Nat.lt_irrefl _)
  refine ⟨data_openWrite_of_ne hne, fun {a} ha => ?_, d.next_le_openWrite name⟩
  by_cases hna : a = name
  · rw [hna, dir_openWrite_self] at ha
    exact absurd (Option.some.inj ha).symm hne
  · rwa [dir_openWrite_of_ne hna] at ha

theorem keeps_writeAt (h : n ≠ n') (blank : α) (pos : Nat) (piece : List α) :
    d.Keeps (d.writeAt blank n' pos piece) n :=
  ⟨data_writeAt_of_ne h blank pos piece, id, Nat.le_refl _⟩

/-- A file that is renamed is another one. -/
theorem keeps_rename (h : d.rename name name' = some d') (hn :
    d.dir name ≠ some n) :
    d.Keeps d' n := by
  obtain ⟨n', hn', rfl⟩ := Option.map_eq_some_iff.mp h
  refine ⟨rfl, fun {a} ha => ?_, Nat.le_refl _⟩
  by_cases hna : a = name'
  · rw [hna] at ha
    simp only [Function.update_self] at ha
    exact absurd (hn'.trans ha) hn
  · simp only [Function.update_of_ne hna] at ha
    by_cases hnb : a = name
    · rw [hnb, Function.update_self] at ha
      cases ha
    · rwa [Function.update_of_ne hnb] at ha

theorem keeps_remove (d : Disk ν α) (name : ν) (n : Inode ν) : d.Keeps (d.remove name) n := by
  refine ⟨rfl, fun {a} ha => ?_, Nat.le_refl _⟩
  by_cases hna : a = name
  · simp only [remove, hna, Function.update_self] at ha
    cases ha
  · simpa only [remove, Function.update_of_ne hna] using ha

/-- Where a file is renamed, its new name is its name, and any third name is as it was. -/
theorem dir_rename (h : d.rename name name' = some d') :
    d'.dir name' = d.dir name ∧ d'.data = d.data
      ∧ ∀ {a}, a ≠ name → a ≠ name' → d'.dir a = d.dir a := by
  obtain ⟨n, hn, rfl⟩ := Option.map_eq_some_iff.mp h
  refine ⟨?_, rfl, fun hna hnb => ?_⟩
  · simp [hn]
  · simp [hna, hnb]

end Calls

end Disk

end Axona.Library
