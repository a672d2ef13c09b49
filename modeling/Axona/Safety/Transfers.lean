import Axona.Safety.Channels

/-! # What a deferred move to another class does

A request to move a channel to another class is numbered here when it is made. It is taken when it
is accepted, or when the transfer it left behind is applied; the building of a channel counts as
the request before all others. What is asked is that a transfer is applied once, at the end of the
channel it names, within the bound, and that the class of a channel is that of the last request
taken. A request that is accepted leaves an older transfer of its channel in place, and that
is what breaks the last. -/

namespace Axona.ChannelLedger

open Library OrderedMap

variable {cfg : ChannelLedgerConfig} {l : ChannelLedger} {t : ChanToken}

/-! ### What the calls do to classes and transfers -/

@[simp] theorem pending_settlePeer (l : ChannelLedger) (n : NodeId) (t : ChanToken) :
    (l.settlePeer n t).pendingReclass = l.pendingReclass := by
  unfold settlePeer
  split
  · rfl
  split
  · split <;> rfl
  · rfl

/-- The call leaves every transfer alone, and every channel its class. -/
structure Neutral (l l' : ChannelLedger) : Prop where
  pending : l'.pendingReclass = l.pendingReclass
  cls : ∀ t, (l'.chan.get t).map (·.cls) = (l.chan.get t).map (·.cls)

theorem Neutral.of_eq {l' : ChannelLedger} (hchan : l'.chan = l.chan)
    (hpending : l'.pendingReclass = l.pendingReclass) : l.Neutral l' :=
  ⟨hpending, fun t => by rw [hchan]⟩

/-- Writing a channel over with one of the same class is neutral. -/
theorem Neutral.of_set {l' : ChannelLedger} {c d : Chan} (hget : l.chan.get t = some d)
    (hchan : l'.chan = l.chan.set t c) (hpending : l'.pendingReclass = l.pendingReclass)
    (hcls : c.cls = d.cls) : l.Neutral l' := by
  refine ⟨hpending, fun t' => ?_⟩
  rw [hchan, get_set]
  split
  next heq =>
    rw [heq, hget]
    exact congrArg some hcls
  · rfl

section

variable (l : ChannelLedger)

theorem neutral_negotiating (t : ChanToken) : l.Neutral (l.negotiating t) := by
  unfold negotiating
  cases hget : l.chan.get t with
  | none => exact .of_eq rfl rfl
  | some d =>
    simp only []
    split
    · exact .of_set hget rfl rfl rfl
    · exact .of_eq rfl rfl

theorem neutral_opened (t : ChanToken) : l.Neutral (l.opened t) := by
  unfold opened
  cases hget : l.chan.get t with
  | none => exact .of_eq rfl rfl
  | some d =>
    simp only []
    split
    · exact .of_set hget rfl rfl rfl
    · exact .of_eq rfl rfl

theorem neutral_bind (m : MeshId) (n : NodeId) : l.Neutral (l.bind m n) := by
  unfold bind
  cases hcur : l.current m with
  | none => exact .of_eq rfl rfl
  | some x =>
    obtain ⟨t, d⟩ := x
    simp only []
    split
    · exact .of_set (get_of_current hcur) rfl rfl rfl
    · exact .of_eq rfl rfl

theorem neutral_unbind (m : MeshId) : l.Neutral (l.unbind m) := by
  unfold unbind
  cases htarget : l.unbindTarget m with
  | none => exact .of_eq rfl rfl
  | some x =>
    obtain ⟨t, d⟩ := x
    have hget := (of_unbindTarget htarget).1
    simp only []
    cases d.nodeId with
    | none => exact .of_set hget rfl rfl rfl
    | some n => exact .of_set hget (chan_settlePeer _ n t) (pending_settlePeer _ n t) rfl

theorem neutral_closing (t : ChanToken) : l.Neutral (l.closing t) := by
  unfold closing
  cases hget : l.chan.get t with
  | none => exact .of_eq rfl rfl
  | some d =>
    simp only []
    split
    · exact .of_eq rfl rfl
    obtain ⟨by', hretire⟩ :=
      retire_eq { l with chan := l.chan.set t { d with state := .closing } } t d
    rw [hretire]
    cases d.nodeId with
    | none => exact .of_set hget rfl rfl rfl
    | some n =>
      simp only []
      split
      · exact .of_set hget (chan_settlePeer _ n t) (pending_settlePeer _ n t) rfl
      · exact .of_set hget rfl rfl rfl

theorem neutral_reserve (cls : Option Cls) (d : Dir) (now : Int) :
    l.Neutral (l.reserve cfg cls d now).2 := by
  unfold reserve
  simp only []
  split <;> exact .of_eq rfl rfl

end

variable (cfg) in
/-- What a request for another class does: it is accepted, deferred, or leaves the ledger as it
was. -/
theorem reclass_cases (l : ChannelLedger) (t : ChanToken) (cls : Option Cls)
    (after : Option ChanToken) :
    (∃ c k, l.chan.get t = some c ∧ cls = some k ∧ (l.reclass cfg t cls after).1 = .done c.cls
        ∧ (l.reclass cfg t cls after).2.pendingReclass = l.pendingReclass
        ∧ ∀ t', ((l.reclass cfg t cls after).2.chan.get t').map (·.cls) =
          if t' = t then some (some k) else (l.chan.get t').map (·.cls))
      ∨ (∃ c p, (l.reclass cfg t cls after).1 = .deferred c
        ∧ (l.reclass cfg t cls after).2 = { l with pendingReclass := l.pendingReclass.set t p })
      ∨ ((∀ c, (l.reclass cfg t cls after).1 ≠ .done c)
        ∧ (∀ c, (l.reclass cfg t cls after).1 ≠ .deferred c)
        ∧ (l.reclass cfg t cls after).2 = l) := by
  unfold reclass
  cases hget : l.chan.get t with
  | none => exact .inr (.inr ⟨fun _ h => (by cases h), fun _ h => (by cases h), rfl⟩)
  | some c =>
    cases cls with
    | none => exact .inr (.inr ⟨fun _ h => (by cases h), fun _ h => (by cases h), rfl⟩)
    | some k =>
      simp only []
      by_cases hsame : c.cls = some k
      · rw [if_pos hsame]
        refine .inl ⟨c, k, rfl, rfl, rfl, rfl, fun t' => ?_⟩
        split
        next heq => rw [heq, hget, Option.map_some, hsame]
        · rfl
      · rw [if_neg hsame]
        by_cases hfull : (l.classFull cfg k && cfg.enforce) = true
        · rw [if_pos hfull]
          split
          · exact .inr (.inl ⟨_, _, rfl, rfl⟩)
          · exact .inr (.inr ⟨fun _ h => (by cases h), fun _ h => (by cases h), rfl⟩)
        · rw [if_neg hfull]
          refine .inl ⟨c, k, rfl, rfl, rfl, rfl, fun t' => ?_⟩
          rw [get_set]
          split <;> rfl

/-! ### Applying the transfers that waited -/

/-- The ledger without a channel, before the transfers that waited for it are looked at. -/
def depart (l : ChannelLedger) (t : ChanToken) (c : Chan) : ChannelLedger :=
  let l := l.retire t c
  let l := { l with chan := l.chan.delete t }
  let l := c.nodeId.elim l fun n => l.settlePeer n t
  { l with pendingReclass := l.pendingReclass.delete t }

theorem gone_of_get {c : Chan} (h : l.chan.get t = some c) :
    l.gone cfg t = (l.depart t c).applyPendingReclass cfg t := by
  unfold gone
  rw [h]
  rfl

theorem gone_of_none (h : l.chan.get t = none) : l.gone cfg t = l := by
  unfold gone
  rw [h]

theorem chan_depart (l : ChannelLedger) (t : ChanToken) (c : Chan) :
    (l.depart t c).chan = l.chan.delete t := by
  obtain ⟨by', hretire⟩ := retire_eq l t c
  unfold depart
  rw [hretire]
  cases c.nodeId with
  | none => rfl
  | some n => exact chan_settlePeer _ n t

theorem pending_depart (l : ChannelLedger) (t : ChanToken) (c : Chan) :
    (l.depart t c).pendingReclass = l.pendingReclass.delete t := by
  obtain ⟨by', hretire⟩ := retire_eq l t c
  unfold depart
  rw [hretire]
  cases c.nodeId with
  | none => rfl
  | some n => exact congrArg (·.delete t) (pending_settlePeer _ n t)

/-- A transfer is applied if its channel is live and its class has room. -/
def applies (cfg : ChannelLedgerConfig) (l : ChannelLedger) (t : ChanToken) (p : ClassMove) :
    Bool :=
  l.chan.has t && !l.classFull cfg p.cls

theorem pending_applyTransfer (l : ChannelLedger) (t : ChanToken) (p : ClassMove) :
    (l.applyTransfer cfg t p).pendingReclass = l.pendingReclass.delete t := by
  unfold applyTransfer
  simp only []
  split
  · rfl
  · split <;> rfl

variable (cfg) in
/-- A transfer that is applied gives its channel the class, and no other channel another one. -/
theorem cls_applyTransfer (l : ChannelLedger) (t t' : ChanToken) (p : ClassMove) :
    ((l.applyTransfer cfg t p).chan.get t').map (·.cls) =
      if t' = t ∧ l.applies cfg t p = true then some (some p.cls)
      else (l.chan.get t').map (·.cls) := by
  unfold applyTransfer applies OrderedMap.has
  simp only []
  cases hget : l.chan.get t with
  | none => simp
  | some c =>
    have hfull : classFull cfg { l with pendingReclass := l.pendingReclass.delete t } p.cls
      = l.classFull cfg p.cls := rfl
    rw [hfull]
    cases l.classFull cfg p.cls with
    | true => simp
    | false =>
      by_cases heq : t' = t
      · simp [heq]
      · simp [heq]

/-- A transfer that is applied leaves its class within the bound, and takes no more of the other. -/
theorem used_applyTransfer_le (l : ChannelLedger) (t : ChanToken) (p : ClassMove) {P : PoolProfile}
    (hP : cfg.pools = some P) (k : Cls) : (l.applyTransfer cfg t p).used (.cls k) ≤
      if l.applies cfg t p = true ∧ k = p.cls then P.size k else l.used (.cls k) := by
  unfold applyTransfer applies OrderedMap.has
  simp only []
  cases hget : l.chan.get t with
  | none =>
    rw [if_neg (by simp)]
    exact le_of_eq rfl
  | some c =>
    have hfull : classFull cfg { l with pendingReclass := l.pendingReclass.delete t } p.cls
      = l.classFull cfg p.cls := rfl
    rw [hfull]
    cases hroom : l.classFull cfg p.cls with
    | true =>
      rw [if_neg (by simp)]
      exact le_of_eq rfl
    | false =>
      have hset := used_set (s := { l with
        pendingReclass := l.pendingReclass.delete t
        chan := l.chan.set t { c with cls := some p.cls } }) hget rfl rfl (.cls k)
      by_cases hk : k = p.cls
      · rw [if_pos ⟨rfl, hk⟩]
        have hlt : l.used (.cls k) < P.size k := by
          unfold classFull at hroom
          rw [hP] at hroom
          rw [hk, used_cls]
          simpa using hroom
        have hone : (if (Row.cls k).ofChan { c with cls := some p.cls } then 1 else 0) ≤ 1 := by
          split <;> omega
        simp only [Bool.false_eq_true, if_false] at hset ⊢
        omega
      · rw [if_neg fun h => hk h.2]
        rw [if_neg (show ¬(Row.cls k).ofChan { c with cls := some p.cls } = true by
          simp [Row.cls, Ne.symm hk])] at hset
        simp only [Bool.false_eq_true, if_false] at hset ⊢
        omega

/-! ### Requests in order -/

/-- A request that was taken: its number, and the class it gave. -/
structure Taken where
  no : Nat
  cls : Option Cls
deriving DecidableEq, Repr

/-- A transfer that was applied: the number of its request, its channel, and what it waited for. -/
structure Moved where
  no : Nat
  chan : ChanToken
  move : ClassMove
deriving DecidableEq, Repr

/-- A ledger, and the requests for another class that were made of it. -/
structure Requested where
  ledger : ChannelLedger
  /-- How many were made. The next one has the next number. -/
  asked : Nat
  /-- The request that a channel's transfer comes from. -/
  waiting : ChanToken → Nat
  /-- Of a live channel, the last request in order that was taken. -/
  latest : ChanToken → Option Taken
  applied : List Moved

namespace Requested

variable {s : Requested} {x : Taken}

/-- A ledger just constructed, of which nothing was asked. -/
def init : Requested := ⟨ChannelLedger.init, 0, fun _ => 0, fun _ => none, []⟩

/-- A request is taken. One that was made after it stays the latest. -/
def take (s : Requested) (t : ChanToken) (x : Taken) : Requested :=
  let newer := (s.latest t).filter fun y => x.no < y.no
  { s with latest := Function.update s.latest t (newer.or (some x)) }

variable (cfg)

/-- A transfer that waited is done, and its request is taken if it was applied. -/
def apply (s : Requested) (t : ChanToken) (p : ClassMove) : Requested :=
  let s' := { s with ledger := s.ledger.applyTransfer cfg t p }
  if s.ledger.applies cfg t p then
    { s'.take t ⟨s.waiting t, some p.cls⟩ with applied := ⟨s.waiting t, t, p⟩ :: s.applied }
  else s'

/-- The transfers among the entries that waited for the channel. -/
def applyAll (a : ChanToken) (es : List (ChanToken × ClassMove)) (s : Requested) : Requested :=
  es.foldl (fun s e => if e.2.after = a then s.apply cfg e.1 e.2 else s) s

/-- What a request for another class leaves. -/
def answered (s : Requested) (t : ChanToken) (cls : Option Cls) : Reclassed → Requested
  | .done _ => s.take t ⟨s.asked, cls⟩
  | .deferred _ => { s with waiting := Function.update s.waiting t s.asked }
  | .refused _ | .noChannel | .badClass _ => s

def step (s : Requested) : Act → Requested
  | .reclass t cls after =>
    let r := s.ledger.reclass cfg t cls after
    { s with ledger := r.2, asked := s.asked + 1 }.answered t cls r.1
  | .allocate t m d r =>
    let l := s.ledger.allocate cfg t m d r
    if s.ledger.chan.has t then { s with ledger := l }
    else
      { s with
        ledger := l
        latest := Function.update s.latest t ((l.chan.get t).map fun c => ⟨0, c.cls⟩) }
  | .gone t =>
    match s.ledger.chan.get t with
    | none => s
    | some c =>
      let s := { s with ledger := s.ledger.depart t c, latest := Function.update s.latest t none }
      s.applyAll cfg t s.ledger.pendingReclass.entries
  | a => { s with ledger := s.ledger.step cfg a }

variable {cfg}

@[simp] theorem ledger_apply (s : Requested) (t : ChanToken) (p : ClassMove) :
    (s.apply cfg t p).ledger = s.ledger.applyTransfer cfg t p := by
  unfold apply
  split <;> rfl

theorem applyAll_cons (a : ChanToken) (e : ChanToken × ClassMove)
    (es : List (ChanToken × ClassMove)) (s : Requested) : s.applyAll cfg a (e :: es) =
      (if e.2.after = a then s.apply cfg e.1 e.2 else s).applyAll cfg a es := rfl

/-- What is asked of a transfer that a call applied. -/
structure Lawful (cfg : ChannelLedgerConfig) (s : Requested) (a : Act) (m : Moved) : Prop where
  /-- The channel it names was live, and has just gone. -/
  ended : a = .gone m.move.after ∧ s.ledger.chan.has m.move.after = true
  waited : s.ledger.pendingReclass.get m.chan = some m.move ∧ s.waiting m.chan = m.no
  /-- No later request of the channel was taken. -/
  newest : ∀ x ∈ s.latest m.chan, x.no ≤ m.no
  fits : ∀ P ∈ cfg.pools, (s.step cfg a).ledger.chargedOf m.move.cls
    + (s.step cfg a).ledger.reservedOf m.move.cls ≤ P.size m.move.cls

/-- What is asked of a call. -/
structure Faithful (cfg : ChannelLedgerConfig) (s : Requested) (a : Act) : Prop where
  lawful : ∃ new, (s.step cfg a).applied = new ++ s.applied ∧ ∀ m ∈ new, Lawful cfg s a m
  /-- No transfer is applied twice. -/
  once : ((s.step cfg a).applied.map (·.no)).Nodup
  /-- The class of a channel is that of the last request taken. -/
  follows : ∀ t c, (s.step cfg a).ledger.chan.get t = some c →
    ((s.step cfg a).latest t).map (·.cls) = some c.cls

/-- A later request of the channel was taken while its transfer waited. -/
def Overtaken (s : Requested) (t : ChanToken) : Prop := ∃ x ∈ s.latest t, s.waiting t < x.no

/-- The call ends a channel for which the transfer of a live one waits that was overtaken. -/
def EndsOvertaken (s : Requested) : Act → Prop
  | .gone a => s.ledger.chan.has a = true ∧ ∃ e ∈ s.ledger.pendingReclass.entries,
    e.2.after = a ∧ s.ledger.chan.has e.1 = true ∧ s.Overtaken e.1
  | _ => False

instance (s : Requested) (t : ChanToken) : Decidable (s.Overtaken t) :=
  decidable_of_iff ((s.latest t).any (fun x => decide (s.waiting t < x.no)) = true) <| by
    simp [Overtaken, Option.any_eq_true]

instance (s : Requested) : ∀ a, Decidable (s.EndsOvertaken a)
  | .gone a => inferInstanceAs (Decidable (s.ledger.chan.has a = true ∧
      ∃ e ∈ s.ledger.pendingReclass.entries,
        e.2.after = a ∧ s.ledger.chan.has e.1 = true ∧ s.Overtaken e.1))
  | .reserve _ _ _ | .release _ | .sweep _ | .reclass _ _ _ | .allocate _ _ _ _ | .negotiating _
  | .open _ | .bind _ _ | .unbind _ | .closing _ => isFalse id

/-- The numbers are given out in order, and each to one channel. -/
structure Ordered (s : Requested) : Prop where
  latest_le : ∀ t, ∀ x ∈ s.latest t, x.no ≤ s.asked
  waiting_le : ∀ t p, s.ledger.pendingReclass.get t = some p → s.waiting t ≤ s.asked
  waiting_inj : ∀ t t' p p', s.ledger.pendingReclass.get t = some p →
    s.ledger.pendingReclass.get t' = some p' → s.waiting t = s.waiting t' → t = t'
  applied_le : ∀ m ∈ s.applied, m.no ≤ s.asked
  spent : ∀ m ∈ s.applied, ∀ t p, s.ledger.pendingReclass.get t = some p → s.waiting t ≠ m.no
  nodup : (s.applied.map (·.no)).Nodup
  follows : ∀ t, (s.latest t).map (·.cls) = (s.ledger.chan.get t).map (·.cls)

theorem ordered_init : init.Ordered := by
  refine ⟨?_, ?_, ?_, ?_, ?_, List.nodup_nil, fun _ => rfl⟩
  all_goals simp [init, ChannelLedger.init]

variable {l : ChannelLedger}

/-- A transfer fewer waits, and nothing else changed. -/
theorem Ordered.drop (h : s.Ordered)
    (hpending : ∀ t p, l.pendingReclass.get t = some p → s.ledger.pendingReclass.get t = some p)
    (hcls : ∀ t, (l.chan.get t).map (·.cls) = (s.ledger.chan.get t).map (·.cls)) :
    ({ s with ledger := l } : Requested).Ordered :=
  { h with
    waiting_le t p hp := h.waiting_le t p (hpending t p hp)
    waiting_inj t t' p p' hp hp' := h.waiting_inj t t' p p' (hpending t p hp) (hpending t' p' hp')
    spent m hm t p hp := h.spent m hm t p (hpending t p hp)
    follows t := (h.follows t).trans (hcls t).symm }

/-- A request that is taken as the latest. -/
theorem latest_take (hnew : ∀ y ∈ s.latest t, y.no ≤ x.no) (t' : ChanToken) :
    (s.take t x).latest t' = if t' = t then some x else s.latest t' := by
  unfold take
  have hnone : ((s.latest t).filter fun y => x.no < y.no) = none := by
    refine Option.filter_eq_none_iff.mpr fun y hy => ?_
    simpa using hnew y hy
  rw [hnone]
  exact Function.update_apply _ _ _ _

/-- What waits once a transfer was looked at is what else waited. -/
theorem pending_of_applyTransfer {t' : ChanToken} {p p' : ClassMove}
    (h : (l.applyTransfer cfg t p).pendingReclass.get t' = some p') :
    t' ≠ t ∧ l.pendingReclass.get t' = some p' := by
  rw [pending_applyTransfer] at h
  have hne := ne_of_get_delete h
  replace h := of_get_delete h
  exact ⟨hne, h⟩

variable (cfg) in
/-- Applying a transfer that was not overtaken keeps the order. -/
theorem Ordered.apply {p : ClassMove} (h : s.Ordered) (hp : s.ledger.pendingReclass.get t = some p)
    (hnew : s.ledger.chan.has t = true → ¬s.Overtaken t) : (s.apply cfg t p).Ordered := by
  have hcls := cls_applyTransfer cfg s.ledger t
  unfold Requested.apply
  by_cases happ : s.ledger.applies cfg t p = true
  · rw [if_pos happ]
    have hlive : s.ledger.chan.has t = true := (Bool.and_eq_true_iff.mp happ).1
    have hlatest := latest_take (s := { s with ledger := s.ledger.applyTransfer cfg t p })
      (x := ⟨s.waiting t, some p.cls⟩)
      fun y hy => not_lt.mp fun hlt => hnew hlive ⟨y, hy, hlt⟩
    refine ⟨fun t' x hx => ?_, fun t' p' hp' => ?_, fun t' t'' p' p'' hp' hp'' => ?_,
      fun m hm => ?_, fun m hm t' p' hp' => ?_, ?_, fun t' => ?_⟩
    · rw [hlatest] at hx
      split at hx
      · cases hx
        exact h.waiting_le t p hp
      · exact h.latest_le t' x hx
    · exact h.waiting_le t' p' (pending_of_applyTransfer hp').2
    · exact h.waiting_inj t' t'' p' p'' (pending_of_applyTransfer hp').2
        (pending_of_applyTransfer hp'').2
    · rcases List.mem_cons.mp hm with rfl | hm
      · exact h.waiting_le t p hp
      · exact h.applied_le m hm
    · obtain ⟨hne, hp'⟩ := pending_of_applyTransfer hp'
      rcases List.mem_cons.mp hm with rfl | hm
      · exact fun heq => hne (h.waiting_inj t' t p' p hp' hp heq)
      · exact h.spent m hm t' p' hp'
    · -- the number is new, for its transfer waited until now
      refine List.nodup_cons.mpr ⟨fun hmem => ?_, h.nodup⟩
      obtain ⟨m, hm, hno⟩ := List.mem_map.mp hmem
      exact h.spent m hm t p hp hno.symm
    · change ((take _ t _).latest t').map _ = _
      rw [hlatest]
      refine Eq.trans ?_ (hcls t' p).symm
      by_cases heq : t' = t
      · rw [if_pos heq, if_pos ⟨heq, happ⟩]
        rfl
      · rw [if_neg heq, if_neg fun hboth => heq hboth.1]
        exact h.follows t'
  · rw [if_neg happ]
    refine h.drop (fun t' p' hp' => (pending_of_applyTransfer hp').2) fun t' => ?_
    rw [hcls, if_neg fun hboth => happ hboth.2]

/-- What is looked at once a channel has gone: the transfers that waited, each of its own
channel. -/
structure Waits (s : Requested) (a : ChanToken) (es : List (ChanToken × ClassMove)) : Prop where
  nodup : (es.map Prod.fst).Nodup
  pending : ∀ e ∈ es, s.ledger.pendingReclass.get e.1 = some e.2
  current : ∀ e ∈ es, e.2.after = a → s.ledger.chan.has e.1 = true → ¬s.Overtaken e.1

variable {a : ChanToken} {es : List (ChanToken × ClassMove)}

/-- Looking at one transfer leaves the others as they were. -/
theorem Waits.tail {e : ChanToken × ClassMove} (h : s.Waits a (e :: es)) :
    (s.apply cfg e.1 e.2).Waits a es := by
  obtain ⟨hfirst, hrest⟩ := List.nodup_cons.mp h.nodup
  have hne : ∀ e' ∈ es, e'.1 ≠ e.1 := by
    intro e' he' heq
    exact hfirst (heq ▸ List.mem_map_of_mem he')
  refine ⟨hrest, fun e' he' => ?_, fun e' he' hafter hlive => ?_⟩
  · rw [ledger_apply, pending_applyTransfer, get_delete, if_neg (hne e' he')]
    exact h.pending e' (List.mem_cons_of_mem e he')
  · have hlive' : s.ledger.chan.has e'.1 = true := by
      have hcls := cls_applyTransfer cfg s.ledger e.1 e'.1 e.2
      rw [if_neg fun hboth => hne e' he' hboth.1] at hcls
      rw [ledger_apply] at hlive
      unfold OrderedMap.has at hlive ⊢
      rw [← Option.isSome_map, hcls, Option.isSome_map] at hlive
      exact hlive
    have hcurrent := h.current e' (List.mem_cons_of_mem e he') hafter hlive'
    -- the latest request of another channel is the same
    have hlatest : (s.apply cfg e.1 e.2).latest e'.1 = s.latest e'.1 := by
      unfold Requested.apply
      split
      · exact Function.update_of_ne (hne e' he') _ _
      · rfl
    have hwaiting : (s.apply cfg e.1 e.2).waiting = s.waiting := by
      unfold Requested.apply
      split <;> rfl
    unfold Overtaken at hcurrent ⊢
    rw [hlatest, hwaiting]
    exact hcurrent

theorem Waits.skip {e : ChanToken × ClassMove} (h : s.Waits a (e :: es)) : s.Waits a es :=
  ⟨(List.nodup_cons.mp h.nodup).2, fun e' he' => h.pending e' (List.mem_cons_of_mem e he'),
    fun e' he' => h.current e' (List.mem_cons_of_mem e he')⟩

/-- The transfers are applied in order, each within the bound of its class. -/
theorem used_applyAll_le (es : List (ChanToken × ClassMove)) {P : PoolProfile}
    (hP : cfg.pools = some P) {k : Cls} (h : s.ledger.used (.cls k) ≤ P.size k) :
    (s.applyAll cfg a es).ledger.used (.cls k) ≤ P.size k := by
  induction es generalizing s with
  | nil => exact h
  | cons e es ih =>
    rw [applyAll_cons]
    refine ih ?_
    split
    · rw [ledger_apply]
      have hle := used_applyTransfer_le s.ledger e.1 e.2 hP k
      split at hle
      · exact hle
      · exact hle.trans h
    · exact h

/-- What applying the transfers that waited does to a ledger whose numbers are in order. -/
structure Settled (cfg : ChannelLedgerConfig) (a : ChanToken) (es : List (ChanToken × ClassMove))
    (s s' : Requested) : Prop where
  ordered : s'.Ordered
  lawful : ∃ new, s'.applied = new ++ s.applied ∧ ∀ m ∈ new, (m.chan, m.move) ∈ es
    ∧ m.move.after = a ∧ s.waiting m.chan = m.no ∧ s.ledger.chan.has m.chan = true
    ∧ ∀ P ∈ cfg.pools, s'.ledger.used (.cls m.move.cls) ≤ P.size m.move.cls

theorem Ordered.applyAll (h : s.Ordered) (hw : s.Waits a es) :
    Settled cfg a es s (s.applyAll cfg a es) := by
  induction es generalizing s with
  | nil => exact ⟨h, [], rfl, by simp⟩
  | cons e es ih =>
    rw [applyAll_cons]
    by_cases hafter : e.2.after = a
    · rw [if_pos hafter]
      have hpending := hw.pending e List.mem_cons_self
      have hfirst := h.apply cfg hpending (hw.current e List.mem_cons_self hafter)
      obtain ⟨hordered, new, hnew, hlawful⟩ := ih hfirst hw.tail
      -- the others were live, and waited under the same numbers, before the first was looked at
      have hwaiting : (s.apply cfg e.1 e.2).waiting = s.waiting := by
        unfold Requested.apply
        split <;> rfl
      have hlive : ∀ t, (s.apply cfg e.1 e.2).ledger.chan.has t = true →
          s.ledger.chan.has t = true := by
        intro t ht
        have hcls := cls_applyTransfer cfg s.ledger e.1 t e.2
        rw [ledger_apply] at ht
        unfold OrderedMap.has at ht ⊢
        rw [← Option.isSome_map, hcls] at ht
        split at ht
        next hboth =>
          rw [hboth.1]
          exact (Bool.and_eq_true_iff.mp hboth.2).1
        · rwa [Option.isSome_map] at ht
      have hrest : ∀ m ∈ new, (m.chan, m.move) ∈ e :: es ∧ m.move.after = a
          ∧ s.waiting m.chan = m.no ∧ s.ledger.chan.has m.chan = true
          ∧ ∀ P ∈ cfg.pools, ((s.apply cfg e.1 e.2).applyAll cfg a es).ledger.used
              (.cls m.move.cls) ≤ P.size m.move.cls := by
        intro m hm
        obtain ⟨hmem, hafter', hno, hchan, hfits⟩ := hlawful m hm
        exact ⟨List.mem_cons_of_mem e hmem, hafter', hwaiting ▸ hno, hlive _ hchan, hfits⟩
      by_cases happ : s.ledger.applies cfg e.1 e.2 = true
      · refine ⟨hordered, new ++ [⟨s.waiting e.1, e.1, e.2⟩], ?_, fun m hm => ?_⟩
        · rw [hnew, List.append_assoc]
          refine congrArg (new ++ ·) ?_
          unfold Requested.apply
          rw [if_pos happ]
          rfl
        · rcases List.mem_append.mp hm with hm | hm
          · exact hrest m hm
          obtain rfl := List.mem_singleton.mp hm
          refine ⟨List.mem_cons_self, hafter, rfl, (Bool.and_eq_true_iff.mp happ).1, ?_⟩
          intro P hP
          refine used_applyAll_le es hP ?_
          have hle := used_applyTransfer_le s.ledger e.1 e.2 hP e.2.cls
          rw [if_pos ⟨happ, rfl⟩] at hle
          rwa [ledger_apply]
      · refine ⟨hordered, new, ?_, hrest⟩
        rw [hnew]
        unfold Requested.apply
        rw [if_neg happ]
    · rw [if_neg hafter]
      obtain ⟨hordered, new, hnew, hlawful⟩ := ih h hw.skip
      refine ⟨hordered, new, hnew, fun m hm => ?_⟩
      obtain ⟨hmem, hrest⟩ := hlawful m hm
      exact ⟨List.mem_cons_of_mem e hmem, hrest⟩

/-- A neutral call, beside which nothing is asked. -/
theorem Ordered.neutral (h : s.Ordered) (hl : s.ledger.Neutral l) :
    ({ s with ledger := l } : Requested).Ordered :=
  h.drop (fun _ _ hp => hl.pending ▸ hp) hl.cls

/-- A request that is only counted. -/
theorem Ordered.ask (h : s.Ordered) : ({ s with asked := s.asked + 1 } : Requested).Ordered :=
  { h with
    latest_le t x hx := (h.latest_le t x hx).trans (Nat.le_succ _)
    waiting_le t p hp := (h.waiting_le t p hp).trans (Nat.le_succ _)
    applied_le m hm := (h.applied_le m hm).trans (Nat.le_succ _) }

/-- A request that is taken when it is made. -/
theorem Ordered.accept {cls : Option Cls} (h : s.Ordered)
    (hpending : l.pendingReclass = s.ledger.pendingReclass)
    (hcls : ∀ t', (l.chan.get t').map (·.cls) =
      if t' = t then some cls else (s.ledger.chan.get t').map (·.cls)) :
    ({ s with ledger := l, asked := s.asked + 1 }.take t ⟨s.asked + 1, cls⟩).Ordered := by
  have hask := h.ask
  have hlatest := latest_take (s := { s with ledger := l, asked := s.asked + 1 }) (t := t)
    (x := ⟨s.asked + 1, cls⟩) fun y hy => hask.latest_le t y hy
  refine ⟨fun t' x hx => ?_, fun t' p hp => ?_, fun t' t'' p p' hp hp' => ?_, hask.applied_le,
    fun m hm t' p hp => ?_, h.nodup, fun t' => ?_⟩
  · rw [hlatest] at hx
    split at hx
    · cases hx
      exact le_rfl
    · exact hask.latest_le t' x hx
  · exact hask.waiting_le t' p (hpending ▸ hp)
  · exact h.waiting_inj t' t'' p p' (hpending ▸ hp) (hpending ▸ hp')
  · exact h.spent m hm t' p (hpending ▸ hp)
  · rw [hlatest]
    refine Eq.trans ?_ (hcls t').symm
    split
    · rfl
    · exact h.follows t'

/-- A request that leaves a transfer, in the place of an older one of its channel. -/
theorem Ordered.defer {p : ClassMove} (h : s.Ordered) : ({ s with
        ledger := { s.ledger with pendingReclass := s.ledger.pendingReclass.set t p }
        asked := s.asked + 1
        waiting := Function.update s.waiting t (s.asked + 1) } : Requested).Ordered := by
  have hother : ∀ t', t' ≠ t → Function.update s.waiting t (s.asked + 1) t' = s.waiting t' :=
    fun t' hne => Function.update_of_ne hne _ _
  have hself : Function.update s.waiting t (s.asked + 1) t = s.asked + 1 :=
    Function.update_self _ _ _
  have hget : ∀ t' p', (s.ledger.pendingReclass.set t p).get t' = some p' → t' ≠ t →
      s.ledger.pendingReclass.get t' = some p' := by
    intro t' p' hp' hne
    rwa [get_set, if_neg hne] at hp'
  refine ⟨h.ask.latest_le, fun t' p' hp' => ?_, fun t' t'' p' p'' hp' hp'' heq => ?_,
    h.ask.applied_le, fun m hm t' p' hp' => ?_, h.nodup, h.follows⟩
  · by_cases hne : t' = t
    · exact hne ▸ hself.le
    · exact (hother t' hne).trans_le (h.ask.waiting_le t' p' (hget t' p' hp' hne))
  · simp only [] at heq hp' hp''
    -- the new number is above all that were given out
    by_cases hne : t' = t
    · by_cases hne' : t'' = t
      · exact hne.trans hne'.symm
      rw [hne, hself, hother t'' hne'] at heq
      have := h.waiting_le t'' p'' (hget t'' p'' hp'' hne')
      omega
    · by_cases hne' : t'' = t
      · rw [hne', hself, hother t' hne] at heq
        have := h.waiting_le t' p' (hget t' p' hp' hne)
        omega
      · rw [hother t' hne, hother t'' hne'] at heq
        exact h.waiting_inj t' t'' p' p'' (hget t' p' hp' hne) (hget t'' p'' hp'' hne') heq
  · simp only [] at hp' ⊢
    by_cases hne : t' = t
    · have := h.applied_le m hm
      rw [hne, hself]
      omega
    · rw [hother t' hne]
      exact h.spent m hm t' p' (hget t' p' hp' hne)

variable (cfg) in
theorem Ordered.reclass (h : s.Ordered) (t : ChanToken) (cls : Option Cls)
    (after : Option ChanToken) : (s.step cfg (.reclass t cls after)).Ordered
      ∧ (s.step cfg (.reclass t cls after)).applied = s.applied := by
  unfold step
  simp only []
  rcases reclass_cases cfg s.ledger t cls after with
    ⟨c, k, -, hk, hdone, hpending, hcls⟩ | ⟨c, p, hdeferred, hl⟩ | ⟨hdone, hdeferred, hl⟩
  · rw [hdone]
    exact ⟨h.accept hpending (hk ▸ hcls), rfl⟩
  · rw [hdeferred, hl]
    exact ⟨h.defer, rfl⟩
  · rw [hl]
    unfold answered
    split
    next hr => exact absurd hr (hdone _)
    next hr => exact absurd hr (hdeferred _)
    all_goals exact ⟨h.ask, rfl⟩

variable (cfg) in
/-- A channel that is built is of the class its place was kept in. -/
theorem Ordered.allocate (h : s.Ordered) (t : ChanToken) (m : MeshId) (d : Dir)
    (r : Option ResToken) : (s.step cfg (.allocate t m d r)).Ordered
      ∧ (s.step cfg (.allocate t m d r)).applied = s.applied := by
  have hl : (s.ledger.allocate cfg t m d r).pendingReclass = s.ledger.pendingReclass
      ∧ (s.ledger.chan.has t = true → s.ledger.allocate cfg t m d r = s.ledger)
      ∧ ∀ t', t' ≠ t → (s.ledger.allocate cfg t m d r).chan.get t' = s.ledger.chan.get t' := by
    unfold ChannelLedger.allocate
    by_cases hhas : s.ledger.chan.has t = true
    · rw [if_pos hhas]
      exact ⟨rfl, fun _ => rfl, fun _ _ => rfl⟩
    rw [if_neg hhas]
    simp only []
    split
    · exact ⟨rfl, fun _ => rfl, fun _ _ => rfl⟩
    · refine ⟨rfl, fun hhas' => absurd hhas' hhas, fun t' hne => ?_⟩
      simp [hne]
  obtain ⟨hpending, hsame, hother⟩ := hl
  unfold step
  simp only []
  split
  next hhas =>
    rw [hsame hhas]
    exact ⟨h, rfl⟩
  refine ⟨⟨fun t' x hx => ?_, fun t' p hp => ?_, fun t' t'' p p' hp hp' => ?_, h.applied_le,
    fun m hm t' p hp => ?_, h.nodup, fun t' => ?_⟩, rfl⟩
  · simp only [Function.update_apply] at hx
    split at hx
    · obtain ⟨c, -, rfl⟩ := Option.map_eq_some_iff.mp hx
      exact Nat.zero_le _
    · exact h.latest_le t' x hx
  · exact h.waiting_le t' p (hpending ▸ hp)
  · exact h.waiting_inj t' t'' p p' (hpending ▸ hp) (hpending ▸ hp')
  · exact h.spent m hm t' p (hpending ▸ hp)
  · simp only [Function.update_apply]
    split
    next heq =>
      rw [heq]
      cases (s.ledger.allocate cfg t m d r).chan.get t <;> rfl
    next hne =>
      rw [hother t' hne]
      exact h.follows t'

/-- The books without a channel that goes, before its transfers are looked at. -/
theorem Ordered.depart {c : Chan} (h : s.Ordered) (t : ChanToken) :
    ({ s with ledger := s.ledger.depart t c, latest := Function.update s.latest t none } :
      Requested).Ordered := by
  have hpending : ∀ t' p, (s.ledger.depart t c).pendingReclass.get t' = some p →
      s.ledger.pendingReclass.get t' = some p := by
    intro t' p hp
    rw [pending_depart] at hp
    exact of_get_delete hp
  refine ⟨fun t' x hx => ?_, fun t' p hp => ?_, fun t' t'' p p' hp hp' => ?_, h.applied_le,
    fun m hm t' p hp => ?_, h.nodup, fun t' => ?_⟩
  · simp only [Function.update_apply] at hx
    split at hx
    · cases hx
    · exact h.latest_le t' x hx
  · exact h.waiting_le t' p (hpending t' p hp)
  · exact h.waiting_inj t' t'' p p' (hpending t' p hp) (hpending t'' p' hp')
  · exact h.spent m hm t' p (hpending t' p hp)
  · simp only [Function.update_apply]
    rw [chan_depart, get_delete]
    split
    · rfl
    · exact h.follows t'

/-- A channel that goes while no transfer was overtaken that waits for it. -/
theorem Ordered.gone (h : s.Ordered) (hfree : ¬s.EndsOvertaken (.gone a)) :
    (s.step cfg (.gone a)).Ordered ∧ ∃ new, (s.step cfg (.gone a)).applied = new ++ s.applied
      ∧ ∀ m ∈ new, Lawful cfg s (.gone a) m := by
  cases hget : s.ledger.chan.get a with
  | none =>
    have hstep : s.step cfg (.gone a) = s := by
      unfold step
      simp only []
      rw [hget]
    rw [hstep]
    exact ⟨h, [], rfl, by simp⟩
  | some c =>
    have hhas : s.ledger.chan.has a = true := has_iff.mpr ⟨c, hget⟩
    -- the entries that are looked at waited before the channel went, and are of other channels
    have hentry : ∀ e ∈ (s.ledger.depart a c).pendingReclass.entries,
        s.ledger.pendingReclass.get e.1 = some e.2 ∧ e.1 ≠ a := by
      intro e he
      have he' := get_of_mem he
      rw [pending_depart] at he'
      have hne := ne_of_get_delete he'
      replace he' := of_get_delete he'
      exact ⟨he', hne⟩
    have hlive : ∀ t', (s.ledger.depart a c).chan.has t' = true → s.ledger.chan.has t' = true := by
      intro t' ht'
      rw [chan_depart] at ht'
      obtain ⟨d, hd⟩ := has_iff.mp ht'
      replace hd := of_get_delete hd
      exact has_iff.mpr ⟨d, hd⟩
    have hlatest : ∀ t', t' ≠ a → Function.update s.latest a none t' = s.latest t' :=
      fun t' hne => Function.update_of_ne hne _ _
    have hcurrent : ∀ t' p, s.ledger.pendingReclass.get t' = some p → p.after = a →
        s.ledger.chan.has t' = true → ¬s.Overtaken t' :=
      fun t' p hp hafter ht' hover =>
        hfree ⟨hhas, (t', p), mem_of_get hp, hafter, ht', hover⟩
    have hwaits : Waits { s with
        ledger := s.ledger.depart a c
        latest := Function.update s.latest a none } a
        (s.ledger.depart a c).pendingReclass.entries :=
      ⟨(s.ledger.depart a c).pendingReclass.keys_nodup, fun e he => get_of_mem he,
        fun e he hafter ht' => by
          unfold Overtaken
          simp only []
          rw [hlatest _ (hentry e he).2]
          exact hcurrent e.1 e.2 (hentry e he).1 hafter (hlive _ ht')⟩
    have hsettled : Settled cfg a _ _ _ := (h.depart (c := c) a).applyAll hwaits
    have hstep : s.step cfg (.gone a) =
        ({ s with ledger := s.ledger.depart a c, latest := Function.update s.latest a none } :
          Requested).applyAll cfg a (s.ledger.depart a c).pendingReclass.entries := by
      unfold step
      simp only []
      rw [hget]
    rw [← hstep] at hsettled
    obtain ⟨hordered, new, hnew, hlawful⟩ := hsettled
    refine ⟨hordered, new, hnew, fun m hm => ?_⟩
    obtain ⟨hmem, hafter, hno, ht', hfits⟩ := hlawful m hm
    obtain ⟨hwaited, -⟩ := hentry _ hmem
    refine ⟨⟨by rw [hafter], by rwa [hafter]⟩, ⟨hwaited, hno⟩, fun x hx => ?_, hfits⟩
    refine not_lt.mp fun hlt => hcurrent m.chan m.move hwaited hafter (hlive _ ht') ⟨x, hx, ?_⟩
    rwa [show s.waiting m.chan = m.no from hno]

/-- The books stay in order, and what is applied is lawful, unless a channel goes for which a
transfer waits that was overtaken. -/
theorem Ordered.step (h : s.Ordered) {a : Act} (hfree : ¬s.EndsOvertaken a) :
    (s.step cfg a).Ordered ∧ ∃ new, (s.step cfg a).applied = new ++ s.applied
      ∧ ∀ m ∈ new, Lawful cfg s a m := by
  cases a with
  | gone a => exact h.gone hfree
  | reclass t cls after =>
    obtain ⟨hordered, happlied⟩ := h.reclass cfg t cls after
    exact ⟨hordered, [], happlied, by simp⟩
  | allocate t m d r =>
    obtain ⟨hordered, happlied⟩ := h.allocate cfg t m d r
    exact ⟨hordered, [], happlied, by simp⟩
  | reserve cls d now => exact ⟨h.neutral (neutral_reserve _ _ _ _), [], rfl, by simp⟩
  | release token | sweep now => exact ⟨h.neutral (.of_eq rfl rfl), [], rfl, by simp⟩
  | negotiating t => exact ⟨h.neutral (neutral_negotiating _ _), [], rfl, by simp⟩
  | «open» t => exact ⟨h.neutral (neutral_opened _ _), [], rfl, by simp⟩
  | bind m n => exact ⟨h.neutral (neutral_bind _ _ _), [], rfl, by simp⟩
  | unbind m => exact ⟨h.neutral (neutral_unbind _ _), [], rfl, by simp⟩
  | closing t => exact ⟨h.neutral (neutral_closing _ _), [], rfl, by simp⟩

theorem Ordered.faithful (h : s.Ordered) {a : Act} (hfree : ¬s.EndsOvertaken a) :
    Faithful cfg s a := by
  obtain ⟨hordered, hlawful⟩ : (s.step cfg a).Ordered ∧ _ := h.step hfree
  refine ⟨hlawful, hordered.nodup, fun t c hc => ?_⟩
  rw [hordered.follows, hc]
  rfl

/-- **Transfers and requests.** In every run in which no channel goes while an overtaken transfer of
a live channel waits for it, every transfer is applied at most once, at the end of the channel it
names, within the bound of its class and after no later request that was taken, and every channel is
of the class that the last request taken gave it. -/
theorem classes_follow_requests (cfg : ChannelLedgerConfig) (as : List Act)
    (hfree : EachStep (step cfg) (fun s a => ¬s.EndsOvertaken a) init as) :
    EachStep (step cfg) (Faithful cfg) init as :=
  hfree.safety (I := Ordered) (fun _ _ h hfree => (h.step hfree).1)
    (fun _ _ h hfree => h.faithful hfree) ordered_init

/-- An armed ledger that enforces its bounds, with two places in each class. -/
def twoEach : ChannelLedgerConfig :=
  ChannelLedgerOptions.config
    { enforce := true
      pools := some { narrowProfile with
        pPending := 2
        cInbound := 2
        pPending_pos := narrowProfile.M_pos
        pPending_le := le_rfl
        cInbound_le := le_rfl } }

/-- Two managed channels, and an incoming one that is promoted in the place of the first. -/
def replacesFirst : List Act :=
  [.reserve (some .M) .outbound 0, .allocate 1 ['a'] .outbound (some 1),
    .reserve (some .M) .outbound 0, .allocate 2 ['b'] .outbound (some 2),
    .reserve (some .I) .inbound 0, .allocate 3 ['c'] .inbound (some 3),
    .reclass 3 (some .M) (some 1)]

/-- A transfer that is applied once the channel it names has gone. -/
theorem replacement_applied :
    EachStep (step twoEach) (Faithful twoEach) init (replacesFirst ++ [.gone 1])
      ∧ ((run (step twoEach) init (replacesFirst ++ [.gone 1])).ledger.chan.get 3).map (·.cls)
        = some (some .M) :=
  ⟨classes_follow_requests twoEach _ (by decide +kernel), by decide +kernel⟩

/-- **A demotion is undone by an older transfer**: the channel was promoted and demoted while its
first promotion still waited. -/
theorem demotion_undone :
    ¬EachStep (step twoEach) (Faithful twoEach) init (replacesFirst ++
      [.gone 2, .reclass 3 (some .M) none, .reclass 3 (some .I) none, .gone 1]) := by
  intro hrun
  obtain ⟨-, -, -, -, hlast, -⟩ := ((eachStep_append _ _ replacesFirst _).mp hrun)
  have hfollows := hlast.follows 3
  revert hfollows
  decide +kernel

end Requested

end Axona.ChannelLedger
