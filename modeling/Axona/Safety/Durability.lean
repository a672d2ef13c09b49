import Mathlib.Algebra.Order.BigOperators.Group.List
import Axona.Pubsub.Durability

/-! # The quotas of the durability ledgers

The node refuses an obligation it has no room for. A ledger does not: it makes room among what is
finished, and where all of it is pending it grows past its cap. And the one who makes room for the
node may drop the finished obligation that is asked for again. -/

namespace Axona

open Library OrderedMap

/-! ### What pruning takes -/

/-- Finished obligations are dropped, and nothing else changes. -/
structure Thins (m m' : OrderedMap MsgId Obligation) : Prop where
  pending : m'.countP (·.isPending) = m.countP (·.isPending)
  size : m'.size ≤ m.size
  get : ∀ id, m'.get id = m.get id
    ∨ m'.get id = none ∧ ∃ e, m.get id = some e ∧ e.isPending = false

namespace Thins

variable {m m' m'' : OrderedMap MsgId Obligation} {id : MsgId} {e : Obligation}

theorem refl (m : OrderedMap MsgId Obligation) : Thins m m :=
  ⟨rfl, Nat.le_refl _, fun _ => .inl rfl⟩

theorem trans (h : Thins m m') (h' : Thins m' m'') : Thins m m'' where
  pending := h'.pending.trans h.pending
  size := h'.size.trans h.size
  get := by
    intro id
    rcases h'.get id with heq | ⟨hnone, e, he, hfin⟩
    · rw [heq]
      exact h.get id
    · rcases h.get id with heq | ⟨hgone, -⟩
      · exact .inr ⟨hnone, e, heq.symm.trans he, hfin⟩
      · rw [hgone] at he
        cases he

/-- A finished obligation goes. -/
theorem delete (h : ∀ e, m.get id = some e → e.isPending = false) : Thins m (m.delete id) := by
  cases hget : m.get id with
  | none =>
    rw [delete_of_get_none hget]
    exact refl m
  | some e =>
    refine ⟨?_, size_delete_le m id, fun id' => ?_⟩
    · rw [countP_eq_delete hget, h e hget]
      rfl
    · rw [get_delete]
      split
      next heq =>
        rw [heq]
        exact .inr ⟨rfl, e, hget, h e hget⟩
      · exact .inl rfl

theorem get_pending (h : Thins m m') (he : m.get id = some e) (hp : e.isPending = true) :
    m'.get id = some e := by
  rcases h.get id with heq | ⟨-, e', he', hfin⟩
  · exact heq.trans he
  cases he.symm.trans he'
  rw [hp] at hfin
  cases hfin

/-- Of what is left each was there. -/
theorem get_of_some (h : Thins m m') (he : m'.get id = some e) : m.get id = some e := by
  rcases h.get id with heq | ⟨hnone, -⟩
  · exact heq.symm.trans he
  · rw [hnone] at he
    cases he

end Thins

namespace DurabilityLedger

variable {m : OrderedMap MsgId Obligation} {id id' : MsgId} {e e' : Obligation} {ids : List MsgId}
  {L : DurabilityLedger} {now : Int}

theorem mem_terminal : id ∈ terminal m ↔ ∃ e, m.get id = some e ∧ e.isPending = false := by
  unfold terminal
  rw [List.mem_map]
  constructor
  · rintro ⟨⟨id', e⟩, hmem, rfl⟩
    obtain ⟨hmem, hfin⟩ := List.mem_filter.mp ((List.mem_insertionSort _).mp hmem)
    exact ⟨e, get_of_mem hmem, by simpa using hfin⟩
  · rintro ⟨e, hget, hfin⟩
    refine ⟨(id, e), (List.mem_insertionSort _).mpr (List.mem_filter.mpr ⟨?_, ?_⟩), rfl⟩
    · exact mem_of_get hget
    · simp [hfin]

theorem fin_of_mem_terminal (h : id ∈ terminal m) :
    ∀ e, m.get id = some e → e.isPending = false := by
  intro e he
  obtain ⟨e', he', hfin⟩ := mem_terminal.mp h
  exact Option.some.inj (he'.symm.trans he) ▸ hfin

/-- A map of pending obligations has as many as it counts. -/
theorem size_eq_pending (h : ∀ id e, m.get id = some e → e.isPending = true) :
    m.size = m.countP (·.isPending) := by
  symm
  apply List.countP_eq_length.mpr
  rintro ⟨id, e⟩ hmem
  exact h id e (get_of_mem hmem)

theorem thins_pruneTo (max : Nat) (h : ∀ id ∈ ids, ∀ e, m.get id = some e → e.isPending = false) :
    Thins m (pruneTo max ids m) := by
  induction ids generalizing m with
  | nil => exact Thins.refl m
  | cons id ids ih =>
    unfold pruneTo
    split
    · exact Thins.refl m
    have hthin : Thins m (m.delete id) := Thins.delete (h id List.mem_cons_self)
    apply hthin.trans
    apply ih
    intro id' hid' e he
    exact h id' (List.mem_cons_of_mem _ hid') e (hthin.get_of_some he)

/-- The loop ends below the cap, or with the pending obligations alone. -/
theorem size_pruneTo (max : Nat) (h : ∀ id ∈ ids, ∀ e, m.get id = some e → e.isPending = false)
    (hall : ∀ id e, m.get id = some e → e.isPending = false → id ∈ ids) :
    (pruneTo max ids m).size ≤ max ∨ (pruneTo max ids m).size = m.countP (·.isPending) := by
  induction ids generalizing m with
  | nil =>
    refine .inr (size_eq_pending fun id e he => ?_)
    by_contra hfin
    cases hall id e he (by simpa using hfin)
  | cons id ids ih =>
    unfold pruneTo
    split
    next hle => exact .inl hle
    have hthin : Thins m (m.delete id) := Thins.delete (h id List.mem_cons_self)
    rw [← hthin.pending]
    apply ih
    · intro id' hid' e he
      exact h id' (List.mem_cons_of_mem _ hid') e (hthin.get_of_some he)
    · intro id' e he hfin
      rcases List.mem_cons.mp (hall id' e (hthin.get_of_some he) hfin) with rfl | hmem
      · simp at he
      · exact hmem

theorem thins_prune (L : DurabilityLedger) : Thins L.entries L.prune.entries := by
  unfold prune
  split
  · exact Thins.refl _
  · exact thins_pruneTo _ fun id hid => fin_of_mem_terminal hid

/-- A ledger that was pruned is within its cap, or all of it is pending. -/
theorem size_prune (L : DurabilityLedger) : L.prune.size ≤ L.max ∨ L.prune.size = L.pending := by
  unfold prune
  split
  next hle => exact .inl hle
  apply size_pruneTo
  · exact fun id hid => fin_of_mem_terminal hid
  · exact fun id e he hfin => mem_terminal.mpr ⟨e, he, hfin⟩

@[simp] theorem max_prune (L : DurabilityLedger) : L.prune.max = L.max := by
  unfold prune
  split <;> rfl

theorem foldl_delete_eq_pruneTo : ids.foldl (fun m id => m.delete id) m = pruneTo 0 ids m := by
  induction ids generalizing m with
  | nil => rfl
  | cons id ids ih =>
    unfold pruneTo
    split
    next hle =>
      -- nothing is left to delete
      have hempty : m.entries = [] := List.length_eq_zero_iff.mp (Nat.le_zero.mp hle)
      have hdelete : m.delete id = m := OrderedMap.ext (by simp [OrderedMap.delete, hempty])
      rw [List.foldl_cons, hdelete, ih]
      cases ids with
      | nil => rfl
      | cons id' ids => exact if_pos hle
    · exact ih

theorem thins_reclaimTerminal (L : DurabilityLedger) :
    Thins L.entries L.reclaimTerminal.entries := by
  unfold reclaimTerminal
  rw [foldl_delete_eq_pruneTo]
  exact thins_pruneTo _ fun id hid => fin_of_mem_terminal hid

/-- After it only the pending obligations are there. -/
theorem size_reclaimTerminal (L : DurabilityLedger) : L.reclaimTerminal.size = L.pending := by
  have hthin := L.thins_reclaimTerminal
  have hsize : L.reclaimTerminal.size ≤ 0 ∨ L.reclaimTerminal.size = L.pending := by
    unfold reclaimTerminal
    rw [foldl_delete_eq_pruneTo]
    apply size_pruneTo
    · exact fun id hid => fin_of_mem_terminal hid
    · exact fun id e he hfin => mem_terminal.mpr ⟨e, he, hfin⟩
  rcases hsize with hle | heq
  · have hpending := countP_le_size L.reclaimTerminal.entries (·.isPending)
    rw [hthin.pending] at hpending
    have hzero : L.reclaimTerminal.entries.size ≤ 0 := hle
    change L.reclaimTerminal.entries.size = L.entries.countP (·.isPending)
    omega
  · exact heq

theorem get_reclaimTerminal_of_terminal (L : DurabilityLedger) (he : L.entries.get id = some e)
    (hfin : e.isPending = false) : L.reclaimTerminal.entries.get id = none := by
  have hall : ∀ id e, L.reclaimTerminal.entries.get id = some e → e.isPending = true := by
    have hsize : L.reclaimTerminal.entries.size = L.reclaimTerminal.entries.countP (·.isPending) :=
      L.size_reclaimTerminal.trans L.thins_reclaimTerminal.pending.symm
    intro id e he
    exact List.countP_eq_length.mp hsize.symm (id, e) (mem_of_get he)
  rcases L.thins_reclaimTerminal.get id with heq | ⟨hnone, -⟩
  · have hp := hall id e (heq.trans he)
    rw [hp] at hfin
    cases hfin
  · exact hnone

/-! ### What a ledger does -/

section

variable (L : DurabilityLedger) (id : MsgId) (f : Obligation → Obligation)

theorem get_modify :
    (L.modify id f).entries.get id'
      = if id' = id then (L.entries.get id).map f else L.entries.get id' := by
  unfold modify
  cases hget : L.entries.get id with
  | none =>
    by_cases heq : id' = id
    · simp [heq, hget]
    · simp [heq]
  | some e =>
    change (L.entries.set id (f e)).get id' = _
    rw [get_set]
    rfl

@[simp] theorem size_modify :
    (L.modify id f).size = L.size := by
  unfold modify
  split
  · rfl
  next e hget => exact size_set_over hget _

@[simp] theorem max_modify :
    (L.modify id f).max = L.max := by
  unfold modify
  split <;> rfl

end

/-- What is not the opening of an obligation adds none, and leaves the finished ones as they are or
drops them. -/
structure Tends (L L' : DurabilityLedger) : Prop where
  max : L'.max = L.max
  size : L'.size ≤ L.size
  final : ∀ {id e}, L.entries.get id = some e → e.isPending = false →
    L'.entries.get id = none ∨ L'.entries.get id = some e

theorem Tends.refl (L : DurabilityLedger) : L.Tends L := ⟨rfl, Nat.le_refl _, fun he _ => .inr he⟩

theorem tends_of_thins {m : OrderedMap MsgId Obligation} (h : Thins L.entries m) :
    L.Tends { L with entries := m } where
  max := rfl
  size := h.size
  final := by
    intro id e he _
    rcases h.get id with heq | ⟨hnone, -⟩
    · exact .inr (heq.trans he)
    · exact .inl hnone

/-- The finished obligation stays as it is. -/
theorem tends_modify (L : DurabilityLedger) (id : MsgId) {f : Obligation → Obligation}
    (hf : ∀ e, e.isPending = false → f e = e) : L.Tends (L.modify id f) where
  max := max_modify L id f
  size := (size_modify L id f).le
  final := by
    intro id' e he hfin
    rw [get_modify]
    split
    next heq =>
      rw [← heq, he, Option.map_some, hf e hfin]
      exact .inr rfl
    · exact .inr he

theorem record_of_terminal {maxAttempts verified attempted : Nat} (h : e.isPending = false) :
    e.record maxAttempts now verified attempted = e := by
  simp [Obligation.record, h]

theorem expire_of_terminal {reason : ExpireReason} (h : e.isPending = false) :
    e.expire now reason = e := by
  simp [Obligation.expire, h]

theorem cancel_of_terminal (h : e.isPending = false) : e.cancel now = e := by
  simp [Obligation.cancel, h]

theorem tends_recordOne (L : DurabilityLedger) (now : Int) (id : MsgId) (rep : ReplicaReport) :
    L.Tends (L.recordOne now id rep) := by
  unfold recordOne
  split
  · exact L.tends_modify id fun e h => expire_of_terminal h
  · exact L.tends_modify id fun e h => record_of_terminal h
  · exact Tends.refl L

variable {topicBig : TopicId}

theorem judge_of_terminal {rep : ReplicaReport} (h : e.isPending = false) :
    L.judge now topicBig rep e = e := by
  simp [judge, h]

theorem tends_recordTopic (L : DurabilityLedger) (now : Int) (topicBig : TopicId)
    (rep : ReplicaReport) : L.Tends (L.recordTopic now topicBig rep).2 where
  max := rfl
  size := List.length_filterMap_le ..
  final := by
    intro id e he hfin
    refine .inr ?_
    change (L.entries.filterMap _).get id = some e
    rw [get_filterMap, he, Option.bind_some, judge_of_terminal hfin]

/-- The ledger with one more obligation, before it is pruned. -/
def withNew (L : DurabilityLedger) (now : Int) (id : MsgId) (topicBig : TopicId) :
    DurabilityLedger :=
  { L with entries := L.entries.set id ⟨topicBig, .pending, 0, now, none⟩ }

theorem admitNew_of_held (h : id = [] ∨ L.entries.has id = true) :
    L.admitNew now id topicBig = L := if_pos h

theorem admitNew_of_new (hid : id ≠ []) (h : L.entries.get id = none) :
    L.admitNew now id topicBig = (L.withNew now id topicBig).prune := by
  apply if_neg
  simp [hid, OrderedMap.has, h]

theorem pending_withNew (h : L.entries.get id = none) :
    (L.withNew now id topicBig).pending = L.pending + 1 :=
  countP_set_new h _ _

/-- **Room for one more.** A ledger is within its cap with a new obligation exactly when fewer were
pending than the cap allows. -/
theorem size_admitNew_le_iff (hid : id ≠ []) (h : L.entries.get id = none) :
    (L.admitNew now id topicBig).size ≤ L.max ↔ L.pending < L.max := by
  rw [admitNew_of_new hid h]
  have hpending : (L.withNew now id topicBig).prune.pending = L.pending + 1 :=
    (thins_prune _).pending.trans (pending_withNew h)
  have hle : (L.withNew now id topicBig).prune.pending ≤ (L.withNew now id topicBig).prune.size :=
    countP_le_size ..
  rcases size_prune (L.withNew now id topicBig) with hmax | heq
  · change _ ≤ L.max at hmax
    omega
  · rw [pending_withNew h] at heq
    omega

theorem size_admitNew_le (L : DurabilityLedger) (now : Int) (id : MsgId) (topicBig : TopicId) :
    (L.admitNew now id topicBig).size ≤ L.size + 1 := by
  by_cases hheld : id = [] ∨ L.entries.has id = true
  · rw [admitNew_of_held hheld]
    exact Nat.le_succ _
  rw [not_or] at hheld
  have hnone : L.entries.get id = none := by
    have hhas := hheld.2
    simpa [OrderedMap.has] using hhas
  rw [admitNew_of_new hheld.1 hnone]
  have hset : (L.withNew now id topicBig).size = L.size + 1 := size_set_new hnone _
  rw [← hset]
  exact (thins_prune _).size

/-- What was there is there still, or it was finished and is dropped. -/
theorem get_admitNew (he : L.entries.get id' = some e) :
    (L.admitNew now id topicBig).entries.get id' = some e
      ∨ e.isPending = false ∧ (L.admitNew now id topicBig).entries.get id' = none := by
  by_cases hheld : id = [] ∨ L.entries.has id = true
  · rw [admitNew_of_held hheld]
    exact .inl he
  rw [not_or] at hheld
  have hnone : L.entries.get id = none := by
    have hhas := hheld.2
    simpa [OrderedMap.has] using hhas
  rw [admitNew_of_new hheld.1 hnone]
  have hne : id' ≠ id := by
    rintro rfl
    rw [hnone] at he
    cases he
  have hset : (L.withNew now id topicBig).entries.get id' = some e := by
    rw [withNew, get_set, if_neg hne, he]
  rcases (thins_prune (L.withNew now id topicBig)).get id' with heq | ⟨hgone, e', he', hfin⟩
  · exact .inl (heq.trans hset)
  · cases hset.symm.trans he'
    exact .inr ⟨hfin, hgone⟩

/-- What was not there is not there, unless it is the new one. -/
theorem get_admitNew_of_none (he : L.entries.get id' = none) (hne : id' ≠ id) :
    (L.admitNew now id topicBig).entries.get id' = none := by
  by_cases hheld : id = [] ∨ L.entries.has id = true
  · rw [admitNew_of_held hheld]
    exact he
  rw [not_or] at hheld
  have hnone : L.entries.get id = none := by
    have hhas := hheld.2
    simpa [OrderedMap.has] using hhas
  rw [admitNew_of_new hheld.1 hnone]
  have hset : (L.withNew now id topicBig).entries.get id' = none := by
    rw [withNew, get_set, if_neg hne, he]
  rcases (thins_prune (L.withNew now id topicBig)).get id' with heq | ⟨hgone, -⟩
  · exact heq.trans hset
  · exact hgone

theorem get_admitNew_self (hid : id ≠ []) (h : L.entries.get id = none) :
    (L.admitNew now id topicBig).entries.get id = some ⟨topicBig, .pending, 0, now, none⟩ := by
  rw [admitNew_of_new hid h]
  apply (thins_prune _).get_pending
  · rw [withNew, get_set, if_pos rfl]
  · rfl

@[simp] theorem max_admitNew (L : DurabilityLedger) (now : Int) (id : MsgId) (topicBig : TopicId) :
    (L.admitNew now id topicBig).max = L.max := by
  unfold admitNew
  split
  · rfl
  · exact max_prune _

end DurabilityLedger

/-! ### The node -/

namespace Durability

variable {cfg : DurabilityConfig} {s s' : Durability} {ρ ρ' : RoleRef} {L L' : DurabilityLedger}
  {id id' : MsgId} {e : Obligation} {now : Int} {a : DurableAct}

/-- All obligations of the roles of the node. -/
def obligations (s : Durability) : List Obligation :=
  s.roles.flatMap fun ρ => (s.ledgers ρ).elim [] fun L => L.entries.entries.map Prod.snd

/-- The counters of the node are those of a recount. -/
structure Counted (s : Durability) : Prop where
  size : s.nodeSize = s.obligations.length
  pending : s.pending = s.obligations.countP (·.isPending)
  undurable : s.undurable = s.obligations.countP fun e => e.state = .expired

/-- The counts of a report are those of a recount. -/
def CountsRight (cfg : DurabilityConfig) (s : Durability) : DurableAct → Prop
  | .recordTopic now ρ rep =>
    ((s.ledger cfg ρ).recordTopic now (s.topicId ρ) rep).1.pending
      = ((s.ledger cfg ρ).recordTopic now (s.topicId ρ) rep).2.entries.countP fun e =>
          e.isPending && e.topicBig = s.topicId ρ
  | _ => True

/-- What is asked of a step: the quotas hold after it, no pending obligation is dropped to admit
another, a finished one stays as it is or is dropped, and the counters are right. -/
structure QuotasKept (cfg : DurabilityConfig) (s : Durability) (a : DurableAct) : Prop where
  roles : ∀ ρ L, (s.step cfg a).ledgers ρ = some L → L.size ≤ cfg.perRoleMax
  node : (s.step cfg a).nodeSize ≤ cfg.nodeMax
  kept : ∀ now ρ id, a = .admitNew now ρ id → ∀ ρ' id' e, s.get ρ' id' = some e →
    e.isPending = true → (s.step cfg a).get ρ' id' = some e
  final : ∀ ρ id e, s.get ρ id = some e → e.isPending = false →
    (s.step cfg a).get ρ id = none ∨ (s.step cfg a).get ρ id = some e
  counted : (s.step cfg a).Counted
  counts : s.CountsRight cfg a

/-- An obligation the node has room for is opened for a message that the role has none for, and then
its ledger has fewer pending ones than its cap; or for one that is pending; or for a finished one
that the node need not drop to make room. -/
def HasRoom (cfg : DurabilityConfig) (s : Durability) : DurableAct → Prop
  | .admitNew _ ρ id => id ≠ [] → s.pending < cfg.nodeMax →
    match s.get ρ id with
    | none => (s.ledger cfg ρ).pending < cfg.perRoleMax
    | some e => e.isPending = true ∨ s.nodeSize < cfg.nodeMax ∨ ρ ∉ s.roles
  | _ => True

/-- The ledgers within the quotas. -/
structure Within (cfg : DurabilityConfig) (s : Durability) : Prop where
  max : ∀ ρ L, s.ledgers ρ = some L → L.max = cfg.perRoleMax
  roles : ∀ ρ L, s.ledgers ρ = some L → L.size ≤ cfg.perRoleMax
  node : s.nodeSize ≤ cfg.nodeMax
  nodup : s.roles.Nodup

/-! ### Counters -/

theorem counted (s : Durability) : s.Counted := by
  have hlength : ∀ ρ, (s.ledgers ρ).elim 0 (·.size)
      = ((s.ledgers ρ).elim [] fun L => L.entries.entries.map Prod.snd).length := by
    intro ρ
    cases s.ledgers ρ with
    | none => rfl
    | some L => exact (List.length_map _).symm
  have hcount : ∀ (p : Obligation → Bool) ρ, (s.ledgers ρ).elim 0 (·.entries.countP p)
      = ((s.ledgers ρ).elim [] fun L => L.entries.entries.map Prod.snd).countP p := by
    intro p ρ
    cases s.ledgers ρ with
    | none => rfl
    | some L => exact List.countP_map.symm
  refine ⟨?_, ?_, ?_⟩
  · rw [obligations, List.length_flatMap]
    exact congrArg List.sum (List.map_congr_left fun ρ _ => hlength ρ)
  · rw [obligations, List.countP_flatMap]
    exact congrArg List.sum (List.map_congr_left fun ρ _ => hcount _ ρ)
  · rw [obligations, List.countP_flatMap]
    exact congrArg List.sum (List.map_congr_left fun ρ _ => hcount _ ρ)

theorem judge_topicBig (L : DurabilityLedger) (now : Int) (topicBig : TopicId) (rep : ReplicaReport)
    (e : Obligation) : (L.judge now topicBig rep e).topicBig = e.topicBig := by
  unfold DurabilityLedger.judge
  split
  · rfl
  split
  · unfold Obligation.expire
    split <;> rfl
  · unfold Obligation.record
    split_ifs <;> rfl
  · rfl

theorem countsRight (cfg : DurabilityConfig) (s : Durability) (a : DurableAct) :
    s.CountsRight cfg a := by
  cases a with
  | recordTopic now ρ rep =>
    change List.countP _ _ = List.countP _ (List.filterMap _ _)
    rw [List.countP_filterMap]
    apply List.countP_congr
    rintro ⟨id, e⟩ -
    simp only [Option.map_some, Option.getD_some, judge_topicBig, Obligation.isPending]
    by_cases hp : e.state = .pending
    · simp [hp, and_comm]
    have hjudge : (s.ledger cfg ρ).judge now (s.topicId ρ) rep e = e := by
      apply DurabilityLedger.judge_of_terminal
      simpa [Obligation.isPending] using hp
    simp [hp, hjudge]
  | _ => trivial

/-! ### Sums over the roles -/

theorem sum_update_of_notMem {l : List RoleRef} {g : RoleRef → Nat} {b : Nat} (h : ρ ∉ l) :
    (l.map (Function.update g ρ b)).sum = (l.map g).sum := by
  congr 1
  apply List.map_congr_left
  intro ρ' hρ'
  apply Function.update_of_ne
  rintro rfl
  exact h hρ'

theorem sum_update {l : List RoleRef} {g : RoleRef → Nat} {b : Nat} (hnodup : l.Nodup)
    (h : ρ ∈ l) : (l.map (Function.update g ρ b)).sum + g ρ = (l.map g).sum + b := by
  induction l with
  | nil => cases h
  | cons a l ih =>
    obtain ⟨ha, hnodup⟩ := List.nodup_cons.mp hnodup
    rw [List.map_cons, List.map_cons, List.sum_cons, List.sum_cons]
    rcases List.mem_cons.mp h with rfl | h
    · rw [sum_update_of_notMem ha, Function.update_self]
      omega
    have hne : a ≠ ρ := by
      rintro rfl
      exact ha h
    rw [Function.update_of_ne hne]
    have hrest := ih hnodup h
    omega

theorem total_put_eq (f : DurabilityLedger → Nat) : (s.put ρ L).total f
    = (s.roles.map (Function.update (fun ρ => (s.ledgers ρ).elim 0 f) ρ (f L))).sum := by
  unfold total
  congr 1
  apply List.map_congr_left
  intro ρ' _
  by_cases hne : ρ' = ρ
  · subst hne
    simp [put]
  · simp [put, hne]

/-- What a ledger gains the node gains at most. -/
theorem total_put_le {f : DurabilityLedger → Nat} {k : Nat} (hnodup : s.roles.Nodup)
    (h : f L ≤ (s.ledgers ρ).elim 0 f + k) : (s.put ρ L).total f ≤ s.total f + k := by
  rw [total_put_eq]
  by_cases hmem : ρ ∈ s.roles
  · have hsum := sum_update (g := fun ρ => (s.ledgers ρ).elim 0 f) (b := f L) hnodup hmem
    unfold total
    omega
  · rw [sum_update_of_notMem hmem]
    exact Nat.le_add_right _ _

theorem size_ledger (cfg : DurabilityConfig) (s : Durability) (ρ : RoleRef) :
    (s.ledger cfg ρ).size = (s.ledgers ρ).elim 0 (·.size) := by
  unfold ledger
  cases s.ledgers ρ <;> rfl

theorem get_ledger (cfg : DurabilityConfig) (s : Durability) (ρ : RoleRef) (id : MsgId) :
    (s.ledger cfg ρ).entries.get id = s.get ρ id := by
  unfold ledger get
  cases s.ledgers ρ <;> rfl

theorem get_put : (s.put ρ L).get ρ' id = if ρ' = ρ then L.entries.get id else s.get ρ' id := by
  unfold get put
  by_cases hne : ρ' = ρ
  · subst hne
    simp
  · simp [hne]

theorem Within.max_ledger (hw : s.Within cfg) (ρ : RoleRef) :
    (s.ledger cfg ρ).max = cfg.perRoleMax := by
  unfold ledger
  cases hL : s.ledgers ρ with
  | none => rfl
  | some L => exact hw.max ρ L hL

theorem Within.size_ledger_le (hw : s.Within cfg) (ρ : RoleRef) :
    (s.ledger cfg ρ).size ≤ cfg.perRoleMax := by
  rw [size_ledger]
  cases hL : s.ledgers ρ with
  | none => exact Nat.zero_le _
  | some L => exact hw.roles ρ L hL

/-- The ledger of a role is replaced by one within the cap. -/
theorem Within.put (hw : s.Within cfg) (hmax : L.max = cfg.perRoleMax)
    (hsize : L.size ≤ cfg.perRoleMax)
    (hnode : (s.put ρ L).nodeSize ≤ cfg.nodeMax) : (s.put ρ L).Within cfg := by
  have hcases : ∀ {ρ' L'}, (s.put ρ L).ledgers ρ' = some L' → L' = L ∨ s.ledgers ρ' = some L' := by
    intro ρ' L' h
    by_cases hne : ρ' = ρ
    · subst hne
      simp only [Durability.put, Function.update_self] at h
      exact .inl (Option.some.inj h).symm
    · simp only [Durability.put, Function.update_of_ne hne] at h
      exact .inr h
  refine ⟨fun ρ' L' h => ?_, fun ρ' L' h => ?_, hnode, hw.nodup⟩
  · rcases hcases h with rfl | h
    · exact hmax
    · exact hw.max ρ' L' h
  · rcases hcases h with rfl | h
    · exact hsize
    · exact hw.roles ρ' L' h

/-- What a step that opens nothing does. -/
def Calm (cfg : DurabilityConfig) (s s' : Durability) : Prop :=
  s'.Within cfg ∧ ∀ ρ id e, s.get ρ id = some e → e.isPending = false →
    s'.get ρ id = none ∨ s'.get ρ id = some e

theorem Within.calm_put (hw : s.Within cfg) (h : (s.ledger cfg ρ).Tends L) :
    s.Calm cfg (s.put ρ L) := by
  have hsize := h.size
  refine ⟨hw.put (h.max.trans (hw.max_ledger ρ)) (hsize.trans (hw.size_ledger_le ρ)) ?_, ?_⟩
  · rw [size_ledger] at hsize
    exact (total_put_le (k := 0) hw.nodup hsize).trans hw.node
  · intro ρ' id e he hfin
    rw [get_put]
    split
    next heq =>
      rw [heq, ← get_ledger cfg] at he
      exact h.final he hfin
    · exact .inr he

/-- The roles stay, and each ledger stays or tends. -/
theorem Within.calm_of_tends (hw : s.Within cfg) (hroles : s'.roles = s.roles)
    (h : ∀ ρ, s'.ledgers ρ = s.ledgers ρ
      ∨ ∃ L L', s.ledgers ρ = some L ∧ s'.ledgers ρ = some L' ∧ L.Tends L') : s.Calm cfg s' := by
  have hle : ∀ ρ, (s'.ledgers ρ).elim 0 (·.size) ≤ (s.ledgers ρ).elim 0 (·.size) := by
    intro ρ
    rcases h ρ with heq | ⟨L, L', hL, hL', ht⟩
    · rw [heq]
    · rw [hL, hL']
      exact ht.size
  refine ⟨⟨fun ρ L' hL' => ?_, fun ρ L' hL' => ?_, ?_, hroles ▸ hw.nodup⟩, ?_⟩
  · rcases h ρ with heq | ⟨L, L'', hL, hL'', ht⟩
    · exact hw.max ρ L' (heq.symm.trans hL')
    · cases hL''.symm.trans hL'
      exact ht.max.trans (hw.max ρ L hL)
  · rcases h ρ with heq | ⟨L, L'', hL, hL'', ht⟩
    · exact hw.roles ρ L' (heq.symm.trans hL')
    · cases hL''.symm.trans hL'
      exact ht.size.trans (hw.roles ρ L hL)
  · apply Nat.le_trans _ hw.node
    unfold nodeSize total
    rw [hroles]
    exact List.sum_le_sum fun ρ _ => hle ρ
  · intro ρ id e he hfin
    rcases h ρ with heq | ⟨L, L', hL, hL', ht⟩
    · refine .inr ?_
      unfold get
      rw [heq]
      exact he
    · unfold get at he ⊢
      rw [hL, Option.bind_some] at he
      rw [hL', Option.bind_some]
      exact ht.final he hfin

theorem ledgers_reclaimAll (s : Durability) (ρ : RoleRef) : s.reclaimAll.ledgers ρ
    = if ρ ∈ s.roles then (s.ledgers ρ).map (·.reclaimTerminal) else s.ledgers ρ := rfl

section

variable (hw : s.Within cfg)
include hw

theorem Within.calm_reclaimAll : s.Calm cfg s.reclaimAll := by
  refine hw.calm_of_tends rfl fun ρ => ?_
  rw [ledgers_reclaimAll]
  split
  · cases hL : s.ledgers ρ with
    | none => exact .inl rfl
    | some L =>
      exact .inr ⟨L, _, rfl, rfl, DurabilityLedger.tends_of_thins L.thins_reclaimTerminal⟩
  · exact .inl rfl

theorem Within.calm_reclaim (ρ : RoleRef) :
    s.Calm cfg (s.step cfg (.reclaim ρ)) := by
  refine hw.calm_of_tends rfl fun ρ' => ?_
  by_cases hne : ρ' = ρ
  · subst hne
    simp only [step, Function.update_self]
    cases hL : s.ledgers ρ' with
    | none => exact .inl rfl
    | some L =>
      exact .inr ⟨L, _, rfl, rfl, DurabilityLedger.tends_of_thins L.thins_reclaimTerminal⟩
  · exact .inl (Function.update_of_ne hne ..)

theorem Within.calm_clear : s.Calm cfg (s.step cfg .clear) := by
  refine hw.calm_of_tends rfl fun ρ => ?_
  change (if ρ ∈ s.roles then _ else _) = _ ∨ ∃ L L', _ ∧ (if ρ ∈ s.roles then _ else _) = _ ∧ _
  split
  · cases hL : s.ledgers ρ with
    | none => exact .inl rfl
    | some L => exact .inr ⟨L, _, rfl, rfl, rfl, Nat.zero_le _, fun _ _ => .inl rfl⟩
  · exact .inl rfl

theorem Within.calm_seat (ρ : RoleRef) : s.Calm cfg (s.step cfg (.seat ρ)) := by
  simp only [step]
  split
  · exact ⟨hw, fun _ _ _ he _ => .inr he⟩
  next hnew =>
  rw [not_or] at hnew
  have hnone : s.ledgers ρ = none := by simpa using hnew.2
  refine ⟨⟨hw.max, hw.roles, ?_, ?_⟩, fun _ _ _ he _ => .inr he⟩
  · apply Nat.le_trans _ hw.node
    simp [nodeSize, total, hnone]
  · refine List.nodup_append.mpr ⟨hw.nodup, List.nodup_singleton ρ, ?_⟩
    rintro ρ' hρ' _ hmem rfl
    exact hnew.1 (List.mem_singleton.mp hmem ▸ hρ')

theorem Within.calm_unseat (ρ : RoleRef) :
    s.Calm cfg (s.step cfg (.unseat ρ)) := by
  refine ⟨⟨hw.max, hw.roles, ?_, hw.nodup.erase ρ⟩, fun _ _ _ he _ => .inr he⟩
  apply Nat.le_trans _ hw.node
  exact (List.erase_sublist.map _).sum_le_sum fun _ _ => Nat.zero_le _

/-- A step that opens nothing is calm. -/
theorem Within.calm_step (ha : ∀ now ρ id, a ≠ .admitNew now ρ id) :
    s.Calm cfg (s.step cfg a) := by
  cases a with
  | seat ρ => exact hw.calm_seat ρ
  | unseat ρ => exact hw.calm_unseat ρ
  | admitNew now ρ id => exact absurd rfl (ha now ρ id)
  | record now ρ id verified attempted =>
    apply hw.calm_put
    exact DurabilityLedger.tends_modify _ _ fun e h => DurabilityLedger.record_of_terminal h
  | recordOne now ρ id rep => exact hw.calm_put (DurabilityLedger.tends_recordOne ..)
  | recordTopic now ρ rep => exact hw.calm_put (DurabilityLedger.tends_recordTopic ..)
  | noCohortConfigured now ρ id =>
    apply hw.calm_put
    exact DurabilityLedger.tends_modify _ _ fun e h => DurabilityLedger.expire_of_terminal h
  | cancel now ρ id =>
    apply hw.calm_put
    exact DurabilityLedger.tends_modify _ _ fun e h => DurabilityLedger.cancel_of_terminal h
  | reclaim ρ => exact hw.calm_reclaim ρ
  | clear => exact hw.calm_clear

end

/-! ### Opening an obligation -/

theorem pending_le_nodeSize (s : Durability) : s.pending ≤ s.nodeSize := by
  unfold pending nodeSize total
  apply List.sum_le_sum
  intro ρ _
  cases s.ledgers ρ with
  | none => exact Nat.le_refl 0
  | some L => exact countP_le_size ..

/-- When everybody has made room, only pending obligations are there. -/
theorem nodeSize_reclaimAll (s : Durability) : s.reclaimAll.nodeSize = s.pending := by
  unfold nodeSize pending total
  refine congrArg List.sum (List.map_congr_left fun ρ (hρ : ρ ∈ s.roles) => ?_)
  rw [ledgers_reclaimAll, if_pos hρ]
  cases s.ledgers ρ with
  | none => rfl
  | some L => exact L.size_reclaimTerminal

theorem get_reclaimAll_of_pending (he : s.get ρ id = some e) (hp : e.isPending = true) :
    s.reclaimAll.get ρ id = some e := by
  unfold get at he ⊢
  obtain ⟨L, hL, hLe⟩ := Option.bind_eq_some_iff.mp he
  rw [ledgers_reclaimAll, hL]
  split
  · exact L.thins_reclaimTerminal.get_pending hLe hp
  · exact hLe

theorem get_reclaimAll_of_terminal (hρ : ρ ∈ s.roles) (he : s.get ρ id = some e)
    (hfin : e.isPending = false) : s.reclaimAll.get ρ id = none := by
  unfold get at he ⊢
  obtain ⟨L, hL, hLe⟩ := Option.bind_eq_some_iff.mp he
  rw [ledgers_reclaimAll, hL, if_pos hρ]
  exact L.get_reclaimTerminal_of_terminal hLe hfin

theorem get_reclaimAll_of_notMem (hρ : ρ ∉ s.roles) : s.reclaimAll.get ρ id = s.get ρ id := by
  unfold get
  rw [ledgers_reclaimAll, if_neg hρ]

theorem get_reclaimAll_of_none (he : s.get ρ id = none) : s.reclaimAll.get ρ id = none := by
  cases hget : s.reclaimAll.get ρ id with
  | none => rfl
  | some e =>
    unfold get at he hget
    rw [ledgers_reclaimAll] at hget
    split at hget
    · obtain ⟨L', hL', hLe⟩ := Option.bind_eq_some_iff.mp hget
      obtain ⟨L, hL, rfl⟩ := Option.map_eq_some_iff.mp hL'
      rw [hL, Option.bind_some, L.thins_reclaimTerminal.get_of_some hLe] at he
      cases he
    · rw [he] at hget
      cases hget

section

variable (cfg : DurabilityConfig) (s : Durability)

theorem pending_ledger_reclaimAll (ρ : RoleRef) :
    (s.reclaimAll.ledger cfg ρ).pending = (s.ledger cfg ρ).pending := by
  unfold ledger
  rw [ledgers_reclaimAll]
  split
  · cases s.ledgers ρ with
    | none => rfl
    | some L => exact L.thins_reclaimTerminal.pending
  · rfl

theorem put_ledger_get :
    (s.put ρ (s.ledger cfg ρ)).get ρ' id = s.get ρ' id := by
  rw [get_put]
  split
  next heq => rw [heq, get_ledger]
  · rfl

theorem total_put_ledger (ρ : RoleRef)
    {f : DurabilityLedger → Nat} (hf : f ⟨∅, cfg.perRoleMax, cfg.maxAttempts⟩ = 0) :
    (s.put ρ (s.ledger cfg ρ)).total f = s.total f := by
  rw [total_put_eq]
  unfold total
  congr 1
  apply List.map_congr_left
  intro ρ' _
  by_cases hne : ρ' = ρ
  · subst hne
    rw [Function.update_self, ledger]
    cases s.ledgers ρ' with
    | none => exact hf
    | some L => rfl
  · rw [Function.update_of_ne hne]

theorem ledger_put_self (ρ : RoleRef)
    (L : DurabilityLedger) : (s.put ρ L).ledger cfg ρ = L := by
  simp [ledger, put]

end

/-- One obligation, where the node has room. -/
def admitted (cfg : DurabilityConfig) (s : Durability) (now : Int) (ρ : RoleRef) (id : MsgId) :
    Durability := s.put ρ ((s.ledger cfg ρ).admitNew now id (s.topicId ρ))

theorem Within.calm_admitted (hw : s.Within cfg) (h : id = [] ∨ s.get ρ id ≠ none) :
    s.Calm cfg (s.admitted cfg now ρ id) := by
  apply hw.calm_put
  have hheld : id = [] ∨ (s.ledger cfg ρ).entries.has id = true := by
    apply h.imp_right
    intro hne
    rw [OrderedMap.has, get_ledger]
    exact Option.isSome_iff_ne_none.mpr hne
  rw [DurabilityLedger.admitNew_of_held hheld]
  exact DurabilityLedger.Tends.refl _

/-- What was there is there still, or it was finished and is dropped. -/
theorem get_admitted (he : s.get ρ' id' = some e) : (s.admitted cfg now ρ id).get ρ' id' = some e
    ∨ e.isPending = false ∧ (s.admitted cfg now ρ id).get ρ' id' = none := by
  rw [admitted, get_put]
  split
  next heq =>
    rw [heq, ← get_ledger cfg] at he
    exact DurabilityLedger.get_admitNew he
  · exact .inl he

theorem get_admitted_of_none (he : s.get ρ' id' = none) (hne : ρ' = ρ → id' ≠ id) :
    (s.admitted cfg now ρ id).get ρ' id' = none := by
  rw [admitted, get_put]
  split
  next heq =>
    rw [heq, ← get_ledger cfg] at he
    exact DurabilityLedger.get_admitNew_of_none he (hne heq)
  · exact he

theorem get_admitted_self (hid : id ≠ []) (hnew : s.get ρ id = none) :
    (s.admitted cfg now ρ id).get ρ id = some ⟨s.topicId ρ, .pending, 0, now, none⟩ := by
  rw [← get_ledger cfg] at hnew
  rw [admitted, get_put, if_pos rfl, DurabilityLedger.get_admitNew_self hid hnew]

/-- A new obligation keeps the quota of its role exactly when there is room in its ledger. -/
theorem Within.size_admitted_iff (hw : s.Within cfg) (hid : id ≠ []) (hnew : s.get ρ id = none) :
    ((s.ledger cfg ρ).admitNew now id (s.topicId ρ)).size ≤ cfg.perRoleMax
      ↔ (s.ledger cfg ρ).pending < cfg.perRoleMax := by
  rw [← get_ledger cfg] at hnew
  rw [← hw.max_ledger ρ]
  exact DurabilityLedger.size_admitNew_le_iff hid hnew

/-- With room at the node and in the ledger an obligation keeps the quotas. -/
theorem Within.admitted (hw : s.Within cfg) (hroom : s.nodeSize < cfg.nodeMax)
    (h : id ≠ [] → s.get ρ id = none → (s.ledger cfg ρ).pending < cfg.perRoleMax) :
    (s.admitted cfg now ρ id).Within cfg := by
  by_cases hheld : id = [] ∨ s.get ρ id ≠ none
  · exact (hw.calm_admitted hheld).1
  rw [not_or, not_not] at hheld
  apply hw.put
  · exact (DurabilityLedger.max_admitNew ..).trans (hw.max_ledger ρ)
  · exact (hw.size_admitted_iff hheld.1 hheld.2).mpr (h hheld.1 hheld.2)
  · have hgain := DurabilityLedger.size_admitNew_le (s.ledger cfg ρ) now id (s.topicId ρ)
    rw [size_ledger] at hgain
    have hle : (s.admitted cfg now ρ id).nodeSize ≤ s.nodeSize + 1 := total_put_le hw.nodup hgain
    exact hle.trans hroom

/-- The steps of `open`: the ledger is there, the finished ones are dropped where the node is full,
and the obligation is opened where it has room then. -/
theorem admitNew_cases (cfg : DurabilityConfig) (s : Durability) (now : Int) (ρ : RoleRef)
    (id : MsgId) : (s.nodeSize < cfg.nodeMax
        ∧ s.admitNew cfg now ρ id = (s.put ρ (s.ledger cfg ρ)).admitted cfg now ρ id)
      ∨ (cfg.nodeMax ≤ s.nodeSize ∧ cfg.nodeMax ≤ s.pending
        ∧ s.admitNew cfg now ρ id = (s.put ρ (s.ledger cfg ρ)).reclaimAll)
      ∨ cfg.nodeMax ≤ s.nodeSize ∧ s.pending < cfg.nodeMax ∧ s.admitNew cfg now ρ id
          = (s.put ρ (s.ledger cfg ρ)).reclaimAll.admitted cfg now ρ id := by
  have hsize : (s.put ρ (s.ledger cfg ρ)).nodeSize = s.nodeSize := total_put_ledger cfg s ρ rfl
  have hpending : (s.put ρ (s.ledger cfg ρ)).reclaimAll.nodeSize = s.pending :=
    (nodeSize_reclaimAll _).trans (total_put_ledger cfg s ρ rfl)
  unfold admitNew
  simp only [hsize, hpending]
  by_cases hfull : cfg.nodeMax ≤ s.nodeSize
  · rw [if_pos hfull]
    by_cases hpend : cfg.nodeMax ≤ s.pending
    · rw [if_pos hpend]
      exact .inr (.inl ⟨hfull, hpend, rfl⟩)
    · rw [if_neg hpend]
      exact .inr (.inr ⟨hfull, Nat.lt_of_not_le hpend, rfl⟩)
  · rw [if_neg hfull]
    exact .inl ⟨Nat.lt_of_not_le hfull, rfl⟩

theorem Calm.quotasKept (h : s.Calm cfg (s.step cfg a)) (hkept : ∀ now ρ id, a = .admitNew now ρ id →
    ∀ ρ' id' e, s.get ρ' id' = some e → e.isPending = true → (s.step cfg a).get ρ' id' = some e) :
    s.QuotasKept cfg a :=
  ⟨h.1.roles, h.1.node, hkept, h.2, counted _, countsRight cfg s a⟩

/-- An obligation that is opened where there is room disturbs nothing. -/
theorem Within.calm_admitNew (hw : s.Within cfg) (h : s.HasRoom cfg (.admitNew now ρ id)) :
    s.Calm cfg (s.admitNew cfg now ρ id) := by
  have ht := hw.calm_put (DurabilityLedger.Tends.refl (s.ledger cfg ρ))
  have hsize : (s.put ρ (s.ledger cfg ρ)).nodeSize = s.nodeSize := total_put_ledger cfg s ρ rfl
  have hget : ∀ {ρ' id'}, (s.put ρ (s.ledger cfg ρ)).get ρ' id' = s.get ρ' id' :=
    put_ledger_get cfg s
  have hr := ht.1.calm_reclaimAll
  rcases admitNew_cases cfg s now ρ id with ⟨hroom, heq⟩ | ⟨hfull, hpend, heq⟩ | ⟨hfull, hpend, heq⟩
  · rw [heq]
    refine ⟨ht.1.admitted (hsize ▸ hroom) fun hid hnew => ?_, fun ρ' id' e he hfin => ?_⟩
    · rw [hget] at hnew
      have hlt := h hid (Nat.lt_of_le_of_lt s.pending_le_nodeSize hroom)
      rw [hnew] at hlt
      rwa [ledger_put_self]
    · rw [← hget] at he
      rcases get_admitted he with hsome | ⟨-, hnone⟩
      · exact .inr hsome
      · exact .inl hnone
  · rw [heq]
    refine ⟨hr.1, fun ρ' id' e he hfin => ?_⟩
    exact hr.2 ρ' id' e (hget.trans he) hfin
  rw [heq]
  refine ⟨hr.1.admitted ?_ fun hid hnew => ?_, fun ρ' id' e he hfin => ?_⟩
  · have hpending : (s.put ρ (s.ledger cfg ρ)).pending = s.pending :=
      total_put_ledger cfg s ρ rfl
    rw [nodeSize_reclaimAll, hpending]
    exact hpend
  · rw [pending_ledger_reclaimAll, ledger_put_self]
    have hlt := h hid hpend
    cases he : s.get ρ id with
    | none =>
      rw [he] at hlt
      exact hlt
    | some e =>
      -- it was there: a pending one stays, and a finished one is not dropped here
      rw [he] at hlt
      rw [← hget] at he
      rcases hlt with hp | hlt | hρ
      · rw [get_reclaimAll_of_pending he hp] at hnew
        cases hnew
      · exact absurd hlt (Nat.not_lt_of_le hfull)
      · rw [get_reclaimAll_of_notMem (s := s.put ρ (s.ledger cfg ρ)) hρ, he] at hnew
        cases hnew
  · rcases hr.2 ρ' id' e (hget.trans he) hfin with hnone | hsome
    · by_cases hsame : ρ' = ρ ∧ id' = id
      · obtain ⟨rfl, rfl⟩ := hsame
        by_cases hid : id' = []
        · refine .inl ?_
          rw [Durability.admitted, get_put, if_pos rfl,
            DurabilityLedger.admitNew_of_held (.inl hid), get_ledger, hnone]
        have hρ := h hid hpend
        rw [he] at hρ
        rcases hρ with hp | hlt | hρ
        · rw [hp] at hfin
          cases hfin
        · exact absurd hlt (Nat.not_lt_of_le hfull)
        · rw [get_reclaimAll_of_notMem (s := s.put ρ' (s.ledger cfg ρ')) hρ, hget, he] at hnone
          cases hnone
      · refine .inl (get_admitted_of_none hnone fun hρ hid => hsame ⟨hρ, hid⟩)
    · rcases get_admitted hsome with hsome | ⟨-, hnone⟩
      · exact .inr hsome
      · exact .inl hnone

/-- No pending obligation is dropped to admit another. -/
theorem get_admitNew_of_pending (he : s.get ρ' id' = some e) (hp : e.isPending = true) :
    (s.admitNew cfg now ρ id).get ρ' id' = some e := by
  have hadmitted : ∀ {t : Durability}, t.get ρ' id' = some e →
      (t.admitted cfg now ρ id).get ρ' id' = some e := by
    intro t ht
    rcases get_admitted ht with hsome | ⟨hfin, -⟩
    · exact hsome
    · rw [hp] at hfin
      cases hfin
  rw [← put_ledger_get cfg s (ρ := ρ)] at he
  rcases admitNew_cases cfg s now ρ id with ⟨-, heq⟩ | ⟨-, -, heq⟩ | ⟨-, -, heq⟩
  · rw [heq]
    exact hadmitted he
  · rw [heq]
    exact get_reclaimAll_of_pending he hp
  · rw [heq]
    exact hadmitted (get_reclaimAll_of_pending he hp)

/-- An opening that does what is asked had room. -/
theorem Within.hasRoom_of_quotasKept (hw : s.Within cfg) (h : s.QuotasKept cfg (.admitNew now ρ id)) :
    s.HasRoom cfg (.admitNew now ρ id) := by
  intro hid hpend
  have ht := hw.calm_put (DurabilityLedger.Tends.refl (s.ledger cfg ρ))
  have hget : ∀ {ρ' id'}, (s.put ρ (s.ledger cfg ρ)).get ρ' id' = s.get ρ' id' :=
    put_ledger_get cfg s
  have hroles : ∀ {t : Durability}, s.admitNew cfg now ρ id = t.admitted cfg now ρ id →
      ((t.ledger cfg ρ).admitNew now id (t.topicId ρ)).size ≤ cfg.perRoleMax := by
    intro t heq
    refine h.roles ρ _ ?_
    rw [step, heq]
    simp [Durability.admitted, Durability.put]
  rcases admitNew_cases cfg s now ρ id with ⟨hroom, heq⟩ | ⟨-, hfull, -⟩ | ⟨hfull, -, heq⟩
  · cases he : s.get ρ id with
    | none =>
      have hlt := (ht.1.size_admitted_iff hid (hget.trans he)).mp (hroles heq)
      rwa [ledger_put_self] at hlt
    | some e => exact .inr (.inl hroom)
  · exact absurd hpend (Nat.not_lt_of_le hfull)
  cases he : s.get ρ id with
  | none =>
    have hnone := get_reclaimAll_of_none (hget.trans he)
    have hlt := (ht.1.calm_reclaimAll.1.size_admitted_iff hid hnone).mp (hroles heq)
    rwa [pending_ledger_reclaimAll, ledger_put_self] at hlt
  | some e =>
    by_contra hnot
    simp only [not_or, Bool.not_eq_true, not_not] at hnot
    obtain ⟨hfin, -, hρ⟩ := hnot
    -- the finished one was dropped, and is pending again
    have hnone :=
      get_reclaimAll_of_terminal (s := s.put ρ (s.ledger cfg ρ)) hρ (hget.trans he) hfin
    have hself : ((s.put ρ (s.ledger cfg ρ)).reclaimAll.admitted cfg now ρ id).get ρ id
        = some ⟨_, .pending, 0, now, none⟩ := get_admitted_self hid hnone
    have hfinal := h.final ρ id e he hfin
    rw [step, heq, hself] at hfinal
    rcases hfinal with hfinal | hfinal
    · cases hfinal
    · rw [← Option.some.inj hfinal] at hfin
      cases hfin

/-- **One step.** It does what is asked exactly when it opens an obligation where there is room. -/
theorem Within.quotasKept_iff (hw : s.Within cfg) : s.QuotasKept cfg a ↔ s.HasRoom cfg a := by
  cases a with
  | admitNew now ρ id =>
    refine ⟨hw.hasRoom_of_quotasKept, fun h => (hw.calm_admitNew h).quotasKept ?_⟩
    intro now' ρ' id' heq ρ'' id'' e he hp
    exact get_admitNew_of_pending he hp
  | _ =>
    refine iff_of_true ?_ trivial
    exact (hw.calm_step (by simp)).quotasKept (by simp)

theorem Within.step (hw : s.Within cfg) (ha : s.HasRoom cfg a) : (s.step cfg a).Within cfg := by
  by_cases hopen : ∃ now ρ id, a = .admitNew now ρ id
  · obtain ⟨now, ρ, id, rfl⟩ := hopen
    exact (hw.calm_admitNew ha).1
  · push Not at hopen
    exact (hw.calm_step hopen).1

theorem within_empty (cfg : DurabilityConfig) (topicId : RoleRef → TopicId) :
    (empty topicId).Within cfg :=
  ⟨(fun _ _ h => nomatch h), (fun _ _ h => nomatch h), Nat.zero_le _, List.nodup_nil⟩

/-- **The quotas of the durability ledgers.** In a run from no roles every step does what is asked
exactly when every step that opens an obligation does so where there is room. -/
theorem quotas_iff (cfg : DurabilityConfig) (topicId : RoleRef → TopicId) (as : List DurableAct) :
    EachStep (step cfg) (QuotasKept cfg) (empty topicId) as
      ↔ EachStep (step cfg) (HasRoom cfg) (empty topicId) as :=
  EachStep.agree_iff (I := fun s => s.Within cfg) (fun _ _ hw ha => hw.step ha)
    (fun _ _ hw => hw.quotasKept_iff) (within_empty cfg topicId) as

/-- Two messages are pending at a role whose cap is one. -/
theorem role_over_cap : ¬ EachStep (step ⟨4, 1, 6⟩) (QuotasKept ⟨4, 1, 6⟩) (empty fun _ => 0)
    [.seat 0, .admitNew 0 0 ['a'], .admitNew 1 0 ['b']] := by
  rintro ⟨-, -, h, -⟩
  have hroles := h.roles 0 _ rfl
  revert hroles
  decide

end Durability

end Axona
