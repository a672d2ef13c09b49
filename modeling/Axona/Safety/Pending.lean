import Axona.Pubsub.Pending

/-! # Whether the pending writes are the ones owed

A message id is of the author and the content, and not of the topic. The tables of pending writes
have one entry for an id, and any sight of it settles both. So they are what is owed as long as no
id is pending for two writes at once. -/

namespace Axona

open Library OrderedMap

/-- A publisher, beside what it owes. -/
abbrev Publisher := PendingWrites × OwedWrites

namespace Publisher

def step (s : Publisher) (a : PendingAct) : Publisher := (s.1.step a, s.2.step a)

def init : Publisher := ({}, {})

/-- **Pending writes are settled per topic**: the tables hold what is owed, each write with its time
and its tries, and whatever was to be sent was. -/
structure Agrees (s : Publisher) : Prop where
  owed : (s.1.pubs.entries ++ s.1.kills.entries).Perm s.2.owed
  sent : s.2.sent.Subperm s.1.sent

/-- **The condition.** No write is submitted while its id is pending for another of its kind, no
message is seen in one topic while its id is pending for another, and nothing is pending when the
tables are cleared. -/
def Separate (s : Publisher) : PendingAct → Prop
  | .submit _ _ w _ => ∀ id, w.pendingId = some id →
      (if w.isKill then s.1.kills else s.1.pubs).get id = none
  | .observe t id => ∀ p, s.1.pubs.get id = some p ∨ s.1.kills.get id = some p → p.topic = t
  | .clear kills => s.1.pubs.size = 0 ∧ (kills = true → s.1.kills.size = 0)
  | .tick _ => True
  | .pump _ => True

/-- Whatever is owed has an id. -/
def Named (s : Publisher) : Prop := ∀ e ∈ s.2.owed, e.1 ≠ []

variable {s : Publisher}

theorem ne_nil_of_pendingId {w : Write} {id : MsgId} (h : w.pendingId = some id) : id ≠ [] := by
  rintro rfl
  have := (Option.filter_eq_some_iff.mp h).2
  cases this

theorem Named.step (h : s.Named) (a : PendingAct) : (s.step a).Named := by
  cases a with
  | submit now t w gaps =>
    show ∀ e ∈ (s.2.submit now t w).owed, e.1 ≠ []
    unfold OwedWrites.submit
    split
    · exact h
    next id hid =>
    intro e he
    rcases List.mem_cons.mp he with rfl | he
    · exact ne_nil_of_pendingId hid
    · exact h e he
  | observe t id => exact fun e he => h e (List.mem_filter.mp he).1
  | tick now =>
    intro e he
    obtain ⟨e', he', hsome⟩ := List.mem_filterMap.mp he
    obtain ⟨p, -, rfl⟩ := Option.map_eq_some_iff.mp hsome
    exact h e' he'
  | pump i | clear kills => exact h

/-! ### Submitting -/

section

variable {m : OrderedMap MsgId PendingWrite}

theorem length_set_of_some {id : MsgId} {p : PendingWrite}
    (h : m.get id = some p) (q : PendingWrite) : (m.set id q).entries.length
      = m.entries.length := by
  have := countP_set_over h q fun _ => true
  rw [← size_eq_countP, ← size_eq_countP] at this
  exact Nat.add_right_cancel this

theorem entries_set_of_none {id : MsgId} (h : m.get id = none)
    (q : PendingWrite) : (m.set id q).entries.Perm ((id, q) :: m.entries) := by
  have := entries_set_perm m id q
  rwa [delete_of_get_none h] at this

/-- A new entry in one of the tables is what is newly owed exactly if there was none under its
id. -/
theorem perm_set_iff {rest owed : List (MsgId × PendingWrite)}
    (h : (m.entries ++ rest).Perm owed) (id : MsgId) (q : PendingWrite) :
    ((m.set id q).entries ++ rest).Perm ((id, q) :: owed) ↔ m.get id = none := by
  constructor
  · intro hperm
    cases hget : m.get id with
    | none => rfl
    | some p =>
      have hlen := hperm.length_eq
      have hlen' := h.length_eq
      rw [List.length_append, length_set_of_some hget, List.length_cons] at hlen
      rw [List.length_append] at hlen'
      omega
  · intro hnone
    exact ((entries_set_of_none hnone q).append_right rest).trans (h.cons _)

end

theorem submit_iff (h : s.Agrees) (now : Int) (t : TopicId) (w : Write) (gaps : Nat) :
    (s.step (.submit now t w gaps)).Agrees ↔ s.Separate (.submit now t w gaps) := by
  have hsent : s.2.sent.Subperm (⟨t, w⟩ :: s.1.sent) :=
    h.sent.trans (List.sublist_cons_self _ _).subperm
  cases hid : w.pendingId with
  | none =>
    refine iff_of_true ?_ (by rintro id hsome; rw [hid] at hsome; cases hsome)
    have h₁ : s.1.submit now t w gaps = { s.1 with sent := ⟨t, w⟩ :: s.1.sent } := by
      unfold PendingWrites.submit
      rw [hid]
    have h₂ : s.2.submit now t w = s.2 := by
      unfold OwedWrites.submit
      rw [hid]
    show Agrees (s.1.submit now t w gaps, s.2.submit now t w)
    rw [h₁, h₂]
    exact ⟨h.owed, hsent⟩
  | some id =>
    have h₂ : s.2.submit now t w = ⟨(id, ⟨t, w, now, 0⟩) :: s.2.owed, ⟨t, w⟩ :: s.2.sent⟩ := by
      unfold OwedWrites.submit
      rw [hid]
    have hcond : s.Separate (.submit now t w gaps) ↔
        (if w.isKill then s.1.kills else s.1.pubs).get id = none := by
      constructor
      · exact fun hsep => hsep id hid
      · rintro hnone id' hid'
        rw [hid] at hid'
        exact Option.some.inj hid' ▸ hnone
    have hboth : (⟨t, w⟩ :: s.2.sent).Subperm (⟨t, w⟩ :: s.1.sent) :=
      List.subperm_cons _ |>.mpr h.sent
    rw [hcond]
    show Agrees (s.1.submit now t w gaps, s.2.submit now t w) ↔ _
    rw [h₂]
    unfold PendingWrites.submit
    rw [hid]
    simp only []
    split
    · have hswap : (s.1.kills.entries ++ s.1.pubs.entries).Perm s.2.owed :=
        List.perm_append_comm.trans h.owed
      rw [← perm_set_iff hswap id ⟨t, w, now, 0⟩]
      exact ⟨fun hnext => List.perm_append_comm.trans hnext.owed,
        fun hperm => ⟨List.perm_append_comm.trans hperm, hboth⟩⟩
    · rw [← perm_set_iff h.owed id ⟨t, w, now, 0⟩]
      exact ⟨fun hnext => hnext.owed, fun hperm => ⟨hperm, hboth⟩⟩

/-! ### Seeing a message -/

/-- The entries of both tables. -/
theorem mem_tables {id : MsgId} {p : PendingWrite} :
    (s.1.pubs.get id = some p ∨ s.1.kills.get id = some p) ↔
      (id, p) ∈ s.1.pubs.entries ++ s.1.kills.entries := by
  rw [List.mem_append]
  exact or_congr ⟨mem_of_get, get_of_mem⟩ ⟨mem_of_get, get_of_mem⟩

theorem observe_iff (hn : s.Named) (h : s.Agrees) (t : TopicId) (id : MsgId) :
    (s.step (.observe t id)).Agrees ↔ s.Separate (.observe t id) := by
  have hsep : s.Separate (.observe t id) ↔ ∀ e ∈ s.2.owed, e.1 = id → e.2.topic = t := by
    constructor
    · rintro hsep ⟨id', p⟩ he rfl
      exact hsep p (mem_tables.mpr (h.owed.mem_iff.mpr he))
    · intro howed p hp
      exact howed (id, p) (h.owed.mem_iff.mp (mem_tables.mp hp)) rfl
  rw [hsep]
  have hcode : (s.1.confirmPending t id).pubs.entries ++ (s.1.confirmPending t id).kills.entries =
      (s.1.pubs.entries ++ s.1.kills.entries).filter fun e => id = [] ∨ e.1 ≠ id := by
    unfold PendingWrites.confirmPending
    rw [List.filter_append]
    by_cases hempty : id = []
    · simp [hempty]
    · simp only [hempty, false_or]
      rfl
  have hsent : (s.1.confirmPending t id).sent = s.1.sent := by
    unfold PendingWrites.confirmPending
    split <;> rfl
  have hperm := h.owed.filter fun e => decide (id = [] ∨ e.1 ≠ id)
  constructor
  · -- whatever is owed to another topic is still owed, but no entry has its id
    rintro hnext e he rfl
    by_contra hother
    have hmem : e ∈ (s.2.observe t e.1).owed :=
      List.mem_filter.mpr ⟨he, by simpa using hother⟩
    replace hmem : e ∈ (s.1.confirmPending t e.1).pubs.entries
      ++ (s.1.confirmPending t e.1).kills.entries := hnext.owed.mem_iff.mpr hmem
    rw [hcode] at hmem
    obtain hempty | hne := of_decide_eq_true (List.mem_filter.mp hmem).2
    · exact hn e he hempty
    · exact hne rfl
  · intro howed
    refine ⟨?_, ?_⟩
    · show ((s.1.confirmPending t id).pubs.entries
        ++ (s.1.confirmPending t id).kills.entries).Perm (s.2.observe t id).owed
      rw [hcode]
      refine hperm.trans (List.Perm.of_eq (List.filter_congr fun e he => ?_))
      have hname := hn e he
      have htopic := howed e he
      by_cases heq : e.1 = id
      · have hne : id ≠ [] := heq ▸ hname
        simp [heq, htopic heq, hne]
      · simp [heq]
    · show s.2.sent.Subperm (s.1.confirmPending t id).sent
      rw [hsent]
      exact h.sent

/-! ### The tick -/

theorem tick_agrees (h : s.Agrees) (now : Int) : (s.step (.tick now)).Agrees := by
  have howed : ((s.1.refreshTick now).pubs.entries ++ (s.1.refreshTick now).kills.entries).Perm
      (s.2.tick now).owed := by
    have := h.owed.filterMap fun e => (e.2.tick now).map (Prod.mk e.1)
    rwa [List.filterMap_append] at this
  refine ⟨howed, ?_⟩
  have hframes : ((s.2.tick now).owed.map fun e => e.2.frame).Perm
      (((s.1.refreshTick now).kills.entries.reverse
        ++ (s.1.refreshTick now).pubs.entries.reverse).map fun e => e.2.frame) := by
    refine (howed.symm.trans (List.perm_append_comm.trans ?_)).map _
    exact (List.reverse_perm _).symm.append (List.reverse_perm _).symm
  exact ((List.subperm_append_left _).mpr h.sent).trans (hframes.append_right _).subperm

/-! ### The step -/

theorem clear_iff (h : s.Agrees) (kills : Bool) :
    (s.step (.clear kills)).Agrees ↔ s.Separate (.clear kills) := by
  have hlen := h.owed.length_eq
  rw [List.length_append] at hlen
  constructor
  · intro hnext
    have hlen' := hnext.owed.length_eq
    replace hlen' : ([] ++ (if kills then ∅ else s.1.kills).entries).length = s.2.owed.length :=
      hlen'
    rw [List.nil_append, ← hlen] at hlen'
    cases kills with
    | true =>
      replace hlen' : 0 = s.1.pubs.size + s.1.kills.size := hlen'
      exact ⟨by omega, fun _ => by omega⟩
    | false =>
      replace hlen' : s.1.kills.size = s.1.pubs.size + s.1.kills.size := hlen'
      exact ⟨by omega, by rintro ⟨⟩⟩
  · rintro ⟨hpubs, hkills⟩
    have hnil : s.1.pubs.entries = [] := List.length_eq_zero_iff.mp hpubs
    have howed := h.owed
    rw [hnil, List.nil_append] at howed
    refine ⟨?_, h.sent⟩
    show ([] ++ (if kills then ∅ else s.1.kills).entries).Perm s.2.owed
    rw [List.nil_append]
    cases kills with
    | true =>
      rw [List.length_eq_zero_iff.mp (hkills rfl)] at howed
      exact howed
    | false => exact howed

theorem pump_agrees (h : s.Agrees) (i : Nat) : (s.step (.pump i)).Agrees := by
  show Agrees (s.1.pump i, s.2)
  unfold PendingWrites.pump
  split
  · exact h
  split
  · exact ⟨h.owed, h.sent⟩
  · exact ⟨h.owed, h.sent.trans (List.sublist_cons_self _ _).subperm⟩

theorem step_iff (hn : s.Named) (h : s.Agrees) (a : PendingAct) :
    (s.step a).Agrees ↔ s.Separate a := by
  cases a with
  | submit now t w gaps => exact submit_iff h now t w gaps
  | observe t id => exact observe_iff hn h t id
  | tick now => exact iff_of_true (tick_agrees h now) trivial
  | pump i => exact iff_of_true (pump_agrees h i) trivial
  | clear kills => exact clear_iff h kills

end Publisher

/-! ### Over whole runs -/

/-- **What a publisher keeps is what it owes.** In every state of a run the tables of pending writes
hold exactly the writes owed, and every retry owed was sent, exactly if in no step two writes meet
under one id. -/
theorem pending_as_owed_iff (as : List PendingAct) :
    EachStep Publisher.step (fun s a => (s.step a).Agrees) .init as ↔
      EachStep Publisher.step Publisher.Separate .init as :=
  EachStep.keeps_iff (I := Publisher.Named) (P := Publisher.Agrees)
    (fun _ a h => h.step a) (fun _ a hn h => Publisher.step_iff hn h a) (by rintro e ⟨⟩)
    ⟨.refl _, List.nil_subperm⟩ as

/-- The same post to two topics, and it is seen in the second. -/
def postedTwice : List PendingAct :=
  [.submit 0 1 (.pub (samplePost 3 0)) 0, .submit 0 2 (.pub (samplePost 3 0)) 0,
    .observe 2 (List.replicate 3 '.')]

/-- **The post to the first topic is pending no more**, though it was never seen there. -/
theorem pending_of_two_topics :
    ¬EachStep Publisher.step (fun s a => (s.step a).Agrees) .init postedTwice
      ∧ (run Publisher.step .init postedTwice).1.pubs.size = 0
      ∧ (run Publisher.step .init postedTwice).2.owed.map (fun e => e.2.topic) = [1] := by
  refine ⟨fun h => ?_, by decide +kernel, by decide +kernel⟩
  have hlen := h.2.1.owed.length_eq
  revert hlen
  decide +kernel

end Axona
