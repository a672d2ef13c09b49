import Axona.Dht.DeadPeers
import Axona.Library.Transition

/-! # The bounds of the mark table

How many marks there are of each kind, how a mark goes, and when the table is full. All of it holds
in every run of a table whose two bounds are whole numbers and whose latch has a number of loss
marks to be released at; for any other configuration some run breaks it. -/

namespace Axona.DeadPeers

open Library OrderedMap

variable {cfg : MarkConfig} {t : DeadPeers} {id : NodeId}

/-! ### Counting marks -/

/-- How many loss marks there are. -/
def lossMarks (t : DeadPeers) : Nat := t.marks.countP fun m => m.kind = .loss

/-- How many policy marks there are. -/
def policyMarks (t : DeadPeers) : Nat := t.marks.countP fun m => m.kind = .policy

/-- The policy marks are counted. -/
def Counted (t : DeadPeers) : Prop := t.policyCount = t.policyMarks

theorem size_eq_add (t : DeadPeers) : t.marks.size = t.lossMarks + t.policyMarks := by
  unfold lossMarks policyMarks OrderedMap.size OrderedMap.countP
  rw [List.length_eq_countP_add_countP (fun e : NodeId × Mark => decide (e.2.kind = .loss))]
  refine congrArg _ (List.countP_congr fun e _ => ?_)
  cases hkind : e.2.kind <;> simp [hkind]

theorem Counted.lossCount_eq (h : t.Counted) : t.lossCount = t.lossMarks := by
  unfold lossCount
  rw [size_eq_add, show t.policyCount = t.policyMarks from h]
  push_cast
  ring

/-! ### What a call does -/

/-- The marks once a call was taken, apart from the latch. -/
inductive Change (cfg : MarkConfig) (t : DeadPeers) (x : ℚ × Act) : DeadPeers → Prop
  /-- Nothing is written. -/
  | none : Change cfg t x t
  /-- A mark is written over by one of its kind. -/
  | rewrite (id : NodeId) (m m' : Mark) (hget : t.marks.get id = some m)
      (hkind : m'.kind = m.kind) : Change cfg t x { t with marks := t.marks.set id m' }
  /-- A new loss mark, below the bound. -/
  | write (id : NodeId) (m : Mark) (hnew : t.marks.get id = Option.none) (hkind : m.kind = .loss)
      (hroom : t.lossCount < cfg.mMarks) :
      Change cfg t x ({ t with marks := t.marks.set id m, seq := t.seq + 1 }.latch cfg)
  /-- A new loss mark at the bound, for which the oldest exhausted one that waits makes room. -/
  | evict (id : NodeId) (m : Mark) (v : NodeId × Mark) (hnew : t.marks.get id = Option.none)
      (hkind : m.kind = .loss) (hfull : cfg.mMarks ≤ t.lossCount)
      (hv : t.oldestWaiting cfg = some v) :
      Change cfg t x ({ t with marks := (t.marks.delete v.1).set id m, seq := t.seq + 1 }.latch cfg)
  /-- A new policy mark, below the bound. -/
  | policy (id : NodeId) (m : Mark) (hact : x.2 = .mark id .policy) (hnot : t.isPolicy id = false)
      (hkind : m.kind = .policy) (hroom : t.policyFull cfg = false) :
      Change cfg t x ({ t with
        marks := (t.marks.delete id).set id m
        policyCount := t.policyCount + 1
        seq := t.seq + 1 }.latch cfg)
  /-- A mark is taken out. -/
  | delete (id : NodeId) (hact : x.2 = .bind id ∨ x.2 = .delete id) :
      Change cfg t x (t.delete cfg id)
  | clear (hact : x.2 = .clear) : Change cfg t x t.clear

theorem change_write {x : ℚ × Act} (hnew : t.marks.get id = none) (attempts dueAt : ℚ) :
    Change cfg t x (t.write cfg id attempts dueAt) := by
  unfold DeadPeers.write admitWrite
  by_cases hroom : t.lossCount < cfg.mMarks
  · rw [if_pos hroom]
    exact .write id _ hnew rfl hroom
  · rw [if_neg hroom]
    cases hv : t.oldestWaiting cfg with
    | none => exact .none
    | some v => exact .evict id _ v hnew rfl (not_lt.mp hroom) hv

theorem change_fail {x : ℚ × Act} (id : NodeId) (now : ℚ) :
    Change cfg t x (t.fail cfg id now) := by
  unfold DeadPeers.fail
  cases hget : t.marks.get id with
  | none => exact change_write hget _ _
  | some m =>
    simp only []
    cases hkind : m.kind with
    | policy => exact .none
    | loss => exact .rewrite id m _ hget hkind.symm

/-- What a call can do to the marks. -/
theorem change_step (cfg : MarkConfig) (t : DeadPeers) (x : ℚ × Act) :
    Change cfg t x (t.step cfg x) := by
  obtain ⟨now, a⟩ := x
  cases a with
  | add id =>
    change Change cfg t _ (t.add cfg id now)
    unfold DeadPeers.add OrderedMap.has
    cases hget : t.marks.get id with
    | none => exact change_write hget _ _
    | some m => exact .none
  | mark id kind =>
    change Change cfg t _ (t.mark cfg id kind now)
    cases kind with
    | loss => exact change_fail id now
    | policy =>
      change Change cfg t _ (t.markPolicy cfg id)
      unfold markPolicy
      cases hnot : t.isPolicy id with
      | true => exact .none
      | false =>
        cases hroom : t.policyFull cfg with
        | true => exact .none
        | false => exact .policy id _ rfl hnot rfl hroom
  | fail id => exact change_fail id now
  | eligible id =>
    change Change cfg t _ (t.eligible cfg id now).2
    unfold DeadPeers.eligible
    cases hget : t.marks.get id with
    | none => exact .none
    | some m =>
      simp only []
      cases hkind : m.kind with
      | policy => exact .none
      | loss =>
        simp only []
        split
        · exact .none
        split
        · exact .rewrite id m _ hget hkind.symm
        · exact .none
  | consume id =>
    change Change cfg t _ (t.consume cfg id now)
    unfold DeadPeers.consume
    cases hget : t.marks.get id with
    | none => exact .none
    | some m =>
      simp only []
      split
      · exact .rewrite id m _ hget rfl
      · exact .none
  | bind id => exact .delete id (.inl rfl)
  | delete id => exact .delete id (.inr rfl)
  | clear => exact .clear rfl

/-! ### The latch -/

@[simp] theorem lossMarks_latch (t : DeadPeers) : (t.latch cfg).lossMarks = t.lossMarks := by
  unfold lossMarks
  rw [marks_latch]

@[simp] theorem policyMarks_latch (t : DeadPeers) : (t.latch cfg).policyMarks = t.policyMarks := by
  unfold policyMarks
  rw [marks_latch]

/-- The latch agrees with the number of loss marks. -/
structure Latched (cfg : MarkConfig) (t : DeadPeers) : Prop where
  reached : cfg.mMarks ≤ t.lossMarks → t.fullLatched = true
  released : (t.lossMarks : ℚ) < cfg.mMarks - cfg.mHyst → t.fullLatched = false

theorem latched_latch (h : t.Counted) : (t.latch cfg).Latched cfg := by
  have hhyst := cfg.mHyst_nonneg
  have hcount := h.lossCount_eq
  refine ⟨fun hle => ?_, fun hlt => ?_⟩
  · rw [lossMarks_latch, ← hcount] at hle
    unfold latch
    rw [if_pos hle]
  · rw [lossMarks_latch, ← hcount] at hlt
    unfold latch
    rw [if_neg (by linarith), if_pos hlt]

/-! ### How a mark goes -/

/-- Of all loss marks that are exhausted and wait, the one that makes room is the oldest. -/
theorem of_oldestWaiting {v : NodeId × Mark} (h : t.oldestWaiting cfg = some v) :
    t.marks.get v.1 = some v.2 ∧ v.2.waiting cfg = true
      ∧ ∀ id m, t.marks.get id = some m → m.waiting cfg = true → v.2.seq ≤ m.seq := by
  -- what the scan of `es` leaves is an entry that waits, and none that was passed is older
  suffices hscan : ∀ (es seen : List (NodeId × Mark)) (victim : Option (NodeId × Mark)),
      (∀ v ∈ victim, v ∈ seen ∧ v.2.waiting cfg = true) →
      (∀ e ∈ seen, e.2.waiting cfg = true → ∃ v ∈ victim, v.2.seq ≤ e.2.seq) →
      ∀ v, es.foldl (fun victim e =>
        if e.2.waiting cfg && victim.all fun v => decide (e.2.seq < v.2.seq) then some e
        else victim) victim = some v →
      (v ∈ seen ++ es ∧ v.2.waiting cfg = true)
        ∧ ∀ e ∈ seen ++ es, e.2.waiting cfg = true → v.2.seq ≤ e.2.seq by
    obtain ⟨⟨hmem, hwaits⟩, holdest⟩ := hscan t.marks.entries [] none (by simp) (by simp) v h
    exact ⟨get_of_mem hmem, hwaits, fun id m hget => holdest (id, m) (mem_of_get hget)⟩
  intro es
  induction es with
  | nil =>
    intro seen victim hin hleast v hv
    rw [List.append_nil]
    refine ⟨hin v hv, fun e he hwaits => ?_⟩
    obtain ⟨w, hw, hle⟩ := hleast e he hwaits
    cases hw.symm.trans hv
    exact hle
  | cons e es ih =>
    intro seen victim hin hleast v hv
    rw [List.foldl_cons] at hv
    have happend : seen ++ e :: es = (seen ++ [e]) ++ es := by
      rw [List.append_assoc]
      rfl
    rw [happend]
    refine ih (seen ++ [e]) _ ?_ ?_ v hv
    · intro w hw
      split at hw
      next hcond =>
        cases hw
        exact ⟨List.mem_append_right _ List.mem_cons_self, (Bool.and_eq_true_iff.mp hcond).1⟩
      · exact ⟨List.mem_append_left _ (hin w hw).1, (hin w hw).2⟩
    · intro f hf hwaits
      by_cases hcond : (e.2.waiting cfg && victim.all fun v => decide (e.2.seq < v.2.seq)) = true
      · rw [if_pos hcond]
        refine ⟨e, rfl, ?_⟩
        rcases List.mem_append.mp hf with hf | hf
        · obtain ⟨w, hw, hle⟩ := hleast f hf hwaits
          have hlt := (Bool.and_eq_true_iff.mp hcond).2
          rw [hw, Option.all_some, decide_eq_true_iff] at hlt
          omega
        · rw [List.mem_singleton.mp hf]
      · rw [if_neg hcond]
        rcases List.mem_append.mp hf with hf | hf
        · exact hleast f hf hwaits
        obtain rfl := List.mem_singleton.mp hf
        cases hvictim : victim with
        | none => simp [hwaits, hvictim] at hcond
        | some w =>
          refine ⟨w, rfl, ?_⟩
          simpa [hwaits, hvictim] using hcond

/-- A loss mark makes room for a new one at the bound: it is exhausted, its attempt is not due, and
no other such mark is older. -/
structure MakesRoom (cfg : MarkConfig) (t : DeadPeers) (x : ℚ × Act) (m : Mark) : Prop where
  waits : m.waiting cfg = true
  oldest : ∀ id m', t.marks.get id = some m' → m'.waiting cfg = true → m.seq ≤ m'.seq
  full : cfg.mMarks ≤ t.lossMarks
  arrives : ∃ id m', t.marks.get id = none ∧ (t.step cfg x).marks.get id = some m'
    ∧ m'.kind = .loss

/-- What has become of the mark of an identity. -/
inductive Fate (cfg : MarkConfig) (t : DeadPeers) (x : ℚ × Act) (id : NodeId) (m : Mark) : Prop
  | kept (m' : Mark) (hget : (t.step cfg x).marks.get id = some m') (hkind : m'.kind = m.kind)
  | removed (hact : x.2 = .bind id ∨ x.2 = .delete id ∨ x.2 = .clear)
  | converted (m' : Mark) (hact : x.2 = .mark id .policy) (hloss : m.kind = .loss)
      (hget : (t.step cfg x).marks.get id = some m') (hkind : m'.kind = .policy)
  | evicted (hroom : MakesRoom cfg t x m) (hgone : (t.step cfg x).marks.get id = none)

variable {m : Mark}

theorem fate (hc : t.Counted) (x : ℚ × Act) (hm : t.marks.get id = some m) :
    Fate cfg t x id m := by
  have hchange := change_step cfg t x
  generalize hs : t.step cfg x = t' at hchange
  -- a mark that another identity's is written beside stays
  have hstays : ∀ {id' m'}, t'.marks.get id = (t.marks.set id' m').get id → id ≠ id' →
      Fate cfg t x id m := by
    intro id' m' hget hne
    rw [get_set, if_neg hne, hm] at hget
    exact .kept m (hs ▸ hget) rfl
  cases hchange with
  | none => exact .kept m (by rw [hs, hm]) rfl
  | rewrite id' n m' hget hkind =>
    by_cases hid : id = id'
    · subst hid
      cases hm.symm.trans hget
      refine .kept m' (hs ▸ ?_) hkind
      exact (get_set _ _ _ _).trans (if_pos rfl)
    · exact hstays rfl hid
  | write id' m' hnew hkind hroom =>
    refine @hstays id' m' (by rw [marks_latch]) fun hid => ?_
    rw [hid, hnew] at hm
    cases hm
  | evict id' m' v hnew hkind hfull hv =>
    have hid : id ≠ id' := fun hid => by
      rw [hid, hnew] at hm
      cases hm
    obtain ⟨hget, hwaits, holdest⟩ := of_oldestWaiting hv
    by_cases hvictim : id = v.1
    · cases hm.symm.trans (hvictim ▸ hget)
      refine .evicted ⟨hwaits, holdest, hc.lossCount_eq ▸ hfull, id', m', hnew, ?_, hkind⟩ ?_
      · rw [hs, marks_latch]
        exact (get_set _ _ _ _).trans (if_pos rfl)
      · rw [hs, marks_latch]
        change ((t.marks.delete v.1).set id' m').get id = none
        rw [get_set, if_neg hid, get_delete, if_pos hvictim]
    · refine .kept m ?_ rfl
      rw [hs, marks_latch]
      change ((t.marks.delete v.1).set id' m').get id = some m
      rw [get_set, if_neg hid, get_delete, if_neg hvictim, hm]
  | policy id' m' hact hnot hkind hroom =>
    by_cases hid : id = id'
    · subst hid
      refine .converted m' hact ?_ ?_ hkind
      · unfold isPolicy at hnot
        rw [hm] at hnot
        cases hk : m.kind with
        | loss => rfl
        | policy => simp [hk] at hnot
      · rw [hs, marks_latch]
        exact (get_set _ _ _ _).trans (if_pos rfl)
    · refine .kept m ?_ rfl
      rw [hs, marks_latch]
      change ((t.marks.delete id').set id' m').get id = some m
      rw [get_set, if_neg hid, get_delete, if_neg hid, hm]
  | delete id' hact =>
    by_cases hid : id = id'
    · subst hid
      exact .removed (hact.elim .inl fun h => .inr (.inl h))
    refine .kept m ?_ rfl
    rw [hs]
    unfold DeadPeers.delete
    rw [marks_latch]
    exact (get_delete _ _ _).trans ((if_neg hid).trans hm)
  | clear hact => exact .removed (.inr (.inr hact))

/-! ### The bounds -/

variable {k : MarkKind}

/-- The counts after a mark was set where there was none. -/
theorem countP_new (h : t.marks.get id = none) :
    (t.marks.set id m).countP (fun m => m.kind = k) =
      t.marks.countP (fun m => m.kind = k) + if m.kind = k then 1 else 0 := by
  rw [countP_set_new h]
  simp

theorem countP_same {m' : Mark} (h : t.marks.get id = some m) (hkind : m'.kind = m.kind) :
    (t.marks.set id m').countP (fun m => m.kind = k) = t.marks.countP (fun m => m.kind = k) := by
  have hover := countP_set_over h m' fun m => decide (m.kind = k)
  rw [hkind] at hover
  omega

theorem countP_delete (h : t.marks.get id = some m) (k : MarkKind) :
    t.marks.countP (fun m => m.kind = k) =
      (t.marks.delete id).countP (fun m => m.kind = k) + if m.kind = k then 1 else 0 := by
  rw [countP_eq_delete h]
  simp

theorem countP_delete_le (t : DeadPeers) (id : NodeId) (k : MarkKind) :
    (t.marks.delete id).countP (fun m => m.kind = k) ≤ t.marks.countP fun m => m.kind = k :=
  countP_filter_le t.marks (fun id' _ => id' ≠ id) fun m => decide (m.kind = k)

/-- What a configuration has to be for its bounds to hold. -/
structure WholeBounds (cfg : MarkConfig) : Prop where
  marks : ∃ n : ℕ, cfg.mMarks = n
  policy : ∃ n : ℕ, cfg.mPolicy = n
  hyst : cfg.mHyst < cfg.mMarks

/-- The marks are counted, both bounds hold, and the latch agrees. -/
structure Bounded (cfg : MarkConfig) (t : DeadPeers) : Prop where
  counted : t.Counted
  loss : (t.lossMarks : ℚ) ≤ cfg.mMarks
  policy : (t.policyMarks : ℚ) ≤ cfg.mPolicy
  latched : t.Latched cfg

theorem bounded_init (cfg : MarkConfig) : init.Bounded cfg where
  counted := rfl
  loss := by
    have := cfg.one_le_mMarks
    change ((0 : ℕ) : ℚ) ≤ _
    push_cast
    linarith
  policy := by
    have := cfg.one_le_mPolicy
    change ((0 : ℕ) : ℚ) ≤ _
    push_cast
    linarith
  latched := by
    refine ⟨fun hle => ?_, fun _ => rfl⟩
    have := cfg.one_le_mMarks
    change cfg.mMarks ≤ ((0 : ℕ) : ℚ) at hle
    push_cast at hle
    linarith

variable {n : ℕ}

/-- One more is within a whole bound that was not reached. -/
theorem succ_le_bound {b : ℚ} (hb : ∃ k : ℕ, b = k) (h : (n : ℚ) < b) :
    ((n + 1 : ℕ) : ℚ) ≤ b := by
  obtain ⟨k, rfl⟩ := hb
  exact_mod_cast Nat.succ_le_of_lt (by exact_mod_cast h)

/-- A table whose counts are within bounds, and whose latch was just set. -/
theorem bounded_latch (hc : t.Counted) (hloss : (t.lossMarks : ℚ) ≤ cfg.mMarks)
    (hpolicy : (t.policyMarks : ℚ) ≤ cfg.mPolicy) : (t.latch cfg).Bounded cfg where
  counted := by
    unfold Counted
    rw [policyCount_latch, policyMarks_latch]
    exact hc
  loss := (lossMarks_latch t).symm ▸ hloss
  policy := (policyMarks_latch t).symm ▸ hpolicy
  latched := latched_latch hc

/-- The count of the policy marks follows a mark that is taken out. -/
theorem Counted.takeOut (h : t.Counted) (id : NodeId) :
    ({ t with
        marks := t.marks.delete id
        policyCount := if t.isPolicy id then t.policyCount - 1 else t.policyCount } :
      DeadPeers).Counted := by
  have hcount : t.policyCount = t.marks.countP fun m => m.kind = .policy := h
  unfold Counted policyMarks isPolicy
  cases hget : t.marks.get id with
  | none =>
    rw [delete_of_get_none hget]
    exact hcount
  | some n =>
    have hdelete := countP_delete hget .policy
    by_cases hnkind : n.kind = .policy
    · rw [if_pos hnkind] at hdelete
      simp only [Option.any_some, hnkind, decide_true, if_true]
      omega
    · rw [if_neg hnkind] at hdelete
      simp only [Option.any_some, hnkind, decide_false, Bool.false_eq_true, if_false]
      omega

/-- Every call keeps the bounds. -/
theorem Bounded.step (h : t.Bounded cfg) (hfits : WholeBounds cfg) (x : ℚ × Act) :
    (t.step cfg x).Bounded cfg := by
  have hcount : t.policyCount = t.policyMarks := h.counted
  have hlossCount := h.counted.lossCount_eq
  have hchange := change_step cfg t x
  generalize t.step cfg x = t' at hchange
  cases hchange with
  | none => exact h
  | rewrite id m m' hget hkind =>
    have hl : ({ t with marks := t.marks.set id m' } : DeadPeers).lossMarks = t.lossMarks :=
      countP_same hget hkind
    have hp : ({ t with marks := t.marks.set id m' } : DeadPeers).policyMarks = t.policyMarks :=
      countP_same hget hkind
    exact ⟨hcount.trans hp.symm, hl ▸ h.loss, hp ▸ h.policy, ⟨hl ▸ h.latched.reached,
      hl ▸ h.latched.released⟩⟩
  | write id m hnew hkind hroom =>
    have hl := countP_new (k := .loss) (m := m) hnew
    have hp := countP_new (k := .policy) (m := m) hnew
    rw [if_pos hkind] at hl
    rw [if_neg (by simp [hkind])] at hp
    have hpolicy : ({ t with
        marks := t.marks.set id m, seq := t.seq + 1 } : DeadPeers).policyMarks = t.policyMarks := hp
    refine bounded_latch (hcount.trans hpolicy.symm) ?_ (hpolicy.symm ▸ h.policy)
    change (((t.marks.set id m).countP _ : ℕ) : ℚ) ≤ _
    rw [hl]
    exact succ_le_bound hfits.marks (hlossCount ▸ hroom)
  | evict id m v hnew hkind hfull hv =>
    obtain ⟨hget, hwaits, -⟩ := of_oldestWaiting hv
    have hvkind : v.2.kind = .loss := by
      unfold Mark.waiting at hwaits
      simp only [Bool.and_eq_true, decide_eq_true_eq] at hwaits
      exact hwaits.1.1
    have hnew' : ({ t with marks := t.marks.delete v.1 } : DeadPeers).marks.get id = none := by
      change (t.marks.delete v.1).get id = none
      rw [get_delete, hnew]
      split <;> rfl
    have hl := countP_new (k := .loss) (m := m) hnew'
    have hp := countP_new (k := .policy) (m := m) hnew'
    have hl' := countP_delete hget .loss
    have hp' := countP_delete hget .policy
    rw [if_pos hkind] at hl
    rw [if_neg (by simp [hkind])] at hp
    rw [if_pos hvkind] at hl'
    rw [if_neg (by simp [hvkind])] at hp'
    -- one loss mark went, and one came
    have hloss : ({ t with
        marks := (t.marks.delete v.1).set id m, seq := t.seq + 1 } : DeadPeers).lossMarks
        = t.lossMarks := hl.trans hl'.symm
    have hpolicy : ({ t with
        marks := (t.marks.delete v.1).set id m, seq := t.seq + 1 } : DeadPeers).policyMarks
        = t.policyMarks := hp.trans hp'.symm
    exact bounded_latch (hcount.trans hpolicy.symm) (hloss.symm ▸ h.loss) (hpolicy.symm ▸ h.policy)
  | policy id m hact hnot hkind hroom =>
    have hnew : ({ t with marks := t.marks.delete id } : DeadPeers).marks.get id = none :=
      (get_delete _ _ _).trans (if_pos rfl)
    have hl := countP_new (k := .loss) (m := m) hnew
    have hp := countP_new (k := .policy) (m := m) hnew
    rw [if_neg (by simp [hkind])] at hl
    rw [if_pos hkind] at hp
    -- the mark that was there was no policy mark
    have hp' : (t.marks.delete id).countP (fun m => m.kind = .policy) = t.policyMarks := by
      cases hget : t.marks.get id with
      | none => rw [delete_of_get_none hget]; rfl
      | some n =>
        have hnkind : ¬n.kind = .policy := by
          unfold isPolicy at hnot
          simpa [hget] using hnot
        have hdelete := countP_delete hget .policy
        rw [if_neg hnkind] at hdelete
        exact hdelete.symm
    have hl' : (t.marks.delete id).countP (fun m => m.kind = .loss) ≤ t.lossMarks :=
      countP_delete_le t id .loss
    refine bounded_latch ?_ ?_ ?_
    · change t.policyCount + 1 = _
      rw [hcount, ← hp']
      exact hp.symm
    · refine le_trans ?_ h.loss
      change (((t.marks.delete id).set id m).countP _ : ℚ) ≤ _
      rw [hl]
      exact_mod_cast hl'
    · change (((t.marks.delete id).set id m).countP _ : ℚ) ≤ _
      rw [hp]
      refine succ_le_bound hfits.policy ?_
      unfold policyFull at hroom
      rw [hcount, decide_eq_false_iff_not, not_le] at hroom
      exact_mod_cast hp' ▸ hroom
  | delete id hact =>
    have hl : (t.marks.delete id).countP (fun m => m.kind = .loss) ≤ t.lossMarks :=
      countP_delete_le t id .loss
    have hp : (t.marks.delete id).countP (fun m => m.kind = .policy) ≤ t.policyMarks :=
      countP_delete_le t id .policy
    exact bounded_latch (h.counted.takeOut id) (le_trans (by exact_mod_cast hl) h.loss)
      (le_trans (by exact_mod_cast hp) h.policy)
  | clear hact =>
    have hzero := bounded_init cfg
    exact ⟨rfl, hzero.loss, hzero.policy, ⟨hzero.latched.reached, fun _ => rfl⟩⟩

/-- What is asked of a call. -/
structure BoundsKept (cfg : MarkConfig) (t : DeadPeers) (x : ℚ × Act) : Prop where
  loss : ((t.step cfg x).lossMarks : ℚ) ≤ cfg.mMarks
  policy : ((t.step cfg x).policyMarks : ℚ) ≤ cfg.mPolicy
  fate : ∀ id m, t.marks.get id = some m → Fate cfg t x id m
  reached : cfg.mMarks ≤ (t.step cfg x).lossMarks → (t.step cfg x).fullLatched = true
  released : ((t.step cfg x).lossMarks : ℚ) < cfg.mMarks - cfg.mHyst →
    (t.step cfg x).fullLatched = false
  /-- In particular the latch is released where no loss mark is left. -/
  empty : (t.step cfg x).lossMarks = 0 → (t.step cfg x).fullLatched = false

theorem Bounded.boundsKept (h : t.Bounded cfg) (hfits : WholeBounds cfg) (x : ℚ × Act) : BoundsKept cfg t x := by
  obtain ⟨-, hloss, hpolicy, hlatched⟩ := h.step hfits x
  refine ⟨hloss, hpolicy, fun _ _ => fate h.counted x, hlatched.reached, hlatched.released,
    fun hzero => hlatched.released ?_⟩
  have := hfits.hyst
  rw [hzero]
  push_cast
  linarith

/-! ### Configurations that do not fit -/

/-- As many identities as are told, one call for each. -/
def each (act : NodeId → Act) (n : ℕ) : List (ℚ × Act) := (List.range n).map fun id => (0, act id)

theorem run_each_succ (act : NodeId → Act) (n : ℕ) (t : DeadPeers) :
    run (step cfg) t (each act (n + 1)) = (run (step cfg) t (each act n)).step cfg (0, act n) := by
  unfold each
  rw [List.range_succ, List.map_append, run_append]
  rfl

/-- A table with marks of one kind, of the first identities. -/
structure Filled (t : DeadPeers) (k : MarkKind) (n : ℕ) : Prop where
  size : t.marks.size = n
  all : t.marks.countP (fun m => m.kind = k) = n
  counted : t.Counted
  free : ∀ id, n ≤ id → t.marks.get id = none

theorem filled_init (k : MarkKind) : init.Filled k 0 := ⟨rfl, rfl, rfl, fun _ _ => rfl⟩

/-- One more mark, of the next identity. -/
theorem Filled.set {t' : DeadPeers} (h : t.Filled k n) (hkind : m.kind = k)
    (hmarks : t'.marks = t.marks.set n m) (hc : t'.Counted) :
    t'.Filled k (n + 1) := by
  have hnew := h.free n le_rfl
  refine ⟨?_, ?_, hc, fun id hid => ?_⟩
  · rw [hmarks, size_eq_countP, countP_set_new hnew, ← size_eq_countP, h.size, if_pos rfl]
  · rw [hmarks, countP_new hnew, h.all, if_pos hkind]
  · rw [hmarks, get_set, if_neg (Nat.ne_of_gt hid)]
    exact h.free id (Nat.le_of_succ_le hid)

/-- A table of loss marks alone, and one of policy marks alone. -/
theorem Filled.counts (h : t.Filled k n) :
    t.lossMarks = (if k = .loss then n else 0)
      ∧ t.policyMarks = (if k = .policy then n else 0) := by
  have hsize := size_eq_add t
  have hall := h.all
  rw [h.size] at hsize
  cases k with
  | loss =>
    have hl : t.lossMarks = n := hall
    rw [if_pos rfl, if_neg (by decide)]
    omega
  | policy =>
    have hp : t.policyMarks = n := hall
    rw [if_pos rfl, if_neg (by decide)]
    omega

/-- Adding identities below the bound writes a mark for each. -/
theorem filled_adds (hn : n ≤ ⌈cfg.mMarks⌉₊) :
    (run (step cfg) init (each .add n)).Filled .loss n := by
  induction n with
  | zero => exact filled_init .loss
  | succ n ih =>
    have hfilled := ih (Nat.le_of_succ_le hn)
    rw [run_each_succ]
    generalize run (step cfg) init (each .add n) = t at hfilled
    have hnew := hfilled.free n le_rfl
    have hroom : t.lossCount < cfg.mMarks := by
      rw [hfilled.counted.lossCount_eq, hfilled.counts.1, if_pos rfl]
      exact Nat.lt_ceil.mp hn
    have hadd : t.step cfg (0, .add n) = { t with
        marks := t.marks.set n ⟨.loss, 0, some (0 + cfg.B), false, t.seq + 1⟩
        seq := t.seq + 1 }.latch cfg := by
      change t.add cfg n 0 = _
      unfold DeadPeers.add OrderedMap.has DeadPeers.write admitWrite
      rw [hnew, if_neg (by simp), if_pos hroom]
    rw [hadd]
    refine hfilled.set (m := ⟨.loss, 0, some (0 + cfg.B), false, t.seq + 1⟩) rfl
      (marks_latch _ _) ?_
    unfold Counted
    rw [policyCount_latch, policyMarks_latch]
    have hp := countP_new (k := .policy) (m := ⟨.loss, 0, some (0 + cfg.B), false, t.seq + 1⟩) hnew
    exact hfilled.counted.trans hp.symm

/-- Marking identities by policy below the bound writes a mark for each. -/
theorem filled_policies (hn : n ≤ ⌈cfg.mPolicy⌉₊) :
    (run (step cfg) init (each (.mark · .policy) n)).Filled .policy n := by
  induction n with
  | zero => exact filled_init .policy
  | succ n ih =>
    have hfilled := ih (Nat.le_of_succ_le hn)
    rw [run_each_succ]
    generalize run (step cfg) init (each (.mark · .policy) n) = t at hfilled
    have hnew := hfilled.free n le_rfl
    have hnot : t.isPolicy n = false := by
      unfold isPolicy
      rw [hnew]
      rfl
    have hroom : t.policyFull cfg = false := by
      unfold policyFull
      rw [show t.policyCount = t.policyMarks from hfilled.counted, hfilled.counts.2, if_pos rfl]
      exact decide_eq_false (not_le.mpr (Nat.lt_ceil.mp hn))
    have hmark : t.step cfg (0, .mark n .policy) = { t with
        marks := t.marks.set n ⟨.policy, 0, none, false, t.seq + 1⟩
        policyCount := t.policyCount + 1
        seq := t.seq + 1 }.latch cfg := by
      change t.markPolicy cfg n = _
      unfold markPolicy
      rw [hnot, hroom, delete_of_get_none hnew]
      rfl
    rw [hmark]
    refine hfilled.set (m := ⟨.policy, 0, none, false, t.seq + 1⟩) rfl (marks_latch _ _) ?_
    unfold Counted
    rw [policyCount_latch, policyMarks_latch]
    have hp := countP_new (k := .policy) (m := ⟨.policy, 0, none, false, t.seq + 1⟩) hnew
    exact (congrArg (· + 1) hfilled.counted).trans hp.symm

/-- A latch that would be released at no number of loss marks stays set. -/
theorem fullLatched_stuck (hhyst : cfg.mMarks ≤ cfg.mHyst) (h : t.Counted)
    (hset : t.fullLatched = true) : (t.latch cfg).fullLatched = true := by
  have hnonneg : (0 : ℚ) ≤ t.lossMarks := Nat.cast_nonneg _
  unfold latch
  rw [h.lossCount_eq]
  split
  · rfl
  · rw [if_neg (not_lt.mpr (le_trans (by linarith) hnonneg))]
    exact hset

/-- Taking every mark out of a latched table, where the latch is never released. -/
theorem emptied (hhyst : cfg.mMarks ≤ cfg.mHyst) (h : t.Filled .loss n)
    (hset : t.fullLatched = true) (j : ℕ) :
    (run (step cfg) t (each .delete j)).fullLatched = true
      ∧ (run (step cfg) t (each .delete j)).Counted
      ∧ ∀ id, id < j ∨ n ≤ id → (run (step cfg) t (each .delete j)).marks.get id = none := by
  induction j with
  | zero => exact ⟨hset, h.counted, fun id hid => h.free id (hid.resolve_left (Nat.not_lt_zero id))⟩
  | succ j ih =>
    rw [run_each_succ]
    generalize run (step cfg) t (each .delete j) = u at ih
    obtain ⟨hset, hcounted, hfree⟩ := ih
    refine ⟨fullLatched_stuck hhyst (hcounted.takeOut j) hset, ?_, fun id hid => ?_⟩
    · change (u.delete cfg j).Counted
      unfold Counted DeadPeers.delete
      rw [policyCount_latch, policyMarks_latch]
      exact hcounted.takeOut j
    · change (u.delete cfg j).marks.get id = none
      unfold DeadPeers.delete
      rw [marks_latch]
      refine (get_delete _ _ _).trans ?_
      split
      · rfl
      next hne =>
        exact hfree id (hid.imp_left fun hlt => lt_of_le_of_ne (Nat.le_of_lt_succ hlt) hne)

/-- A table without marks has none of either kind. -/
theorem lossMarks_of_empty (h : ∀ id, t.marks.get id = none) : t.lossMarks = 0 := by
  refine List.countP_eq_zero.mpr fun e he => ?_
  have := get_of_mem he
  rw [h] at this
  cases this

/-- Of the last call, in a run of which each is sound. -/
theorem boundsKept_last {act : NodeId → Act} (h : EachStep (step cfg) (BoundsKept cfg) t (each act (n + 1))) :
    BoundsKept cfg (run (step cfg) t (each act n)) (0, act n) := by
  unfold each at h
  rw [List.range_succ, List.map_append, eachStep_append] at h
  exact h.2.1

/-- **The bounds of the mark table.** Of a configuration every run keeps the bounds, the marks and
the latch exactly if the two bounds are whole numbers and the latch is released somewhere: at some
number of loss marks. -/
theorem bounds_iff (cfg : MarkConfig) :
    (∀ xs, EachStep (step cfg) (BoundsKept cfg) init xs) ↔ WholeBounds cfg := by
  constructor
  · intro h
    have hmarks : 0 < cfg.mMarks := lt_of_lt_of_le one_pos cfg.one_le_mMarks
    have hpolicy : 0 < cfg.mPolicy := lt_of_lt_of_le one_pos cfg.one_le_mPolicy
    obtain ⟨n, hn⟩ := Nat.exists_eq_add_one_of_ne_zero (Nat.ceil_pos.mpr hmarks).ne'
    obtain ⟨k, hk⟩ := Nat.exists_eq_add_one_of_ne_zero (Nat.ceil_pos.mpr hpolicy).ne'
    -- as many loss marks as fit below the bound reach it
    have hloss := (filled_adds hn.ge).counts.1
    have hlast := boundsKept_last (h (each .add (n + 1)))
    rw [run_each_succ, if_pos rfl] at hloss
    have hreached : cfg.mMarks ≤ (n + 1 : ℕ) := hn ▸ Nat.le_ceil cfg.mMarks
    refine ⟨⟨n + 1, le_antisymm hreached (hloss ▸ hlast.loss)⟩, ⟨k + 1, ?_⟩, ?_⟩
    · have hcount := (filled_policies hk.ge).counts.2
      have hlast := boundsKept_last (h (each (.mark · .policy) (k + 1)))
      rw [run_each_succ, if_pos rfl] at hcount
      exact le_antisymm (hk ▸ Nat.le_ceil cfg.mPolicy) (hcount ▸ hlast.policy)
    · -- else the table is emptied, and the latch stays set
      by_contra hhyst
      have hset := hlast.reached (hloss.symm ▸ hreached)
      rw [← run_each_succ] at hset
      have hend := emptied (not_lt.mp hhyst) (filled_adds hn.ge) hset (n + 1)
      have hempty := (boundsKept_last (eachStep_append _ _ (each .add (n + 1)) _ |>.mp
        (h (each .add (n + 1) ++ each .delete (n + 1)))).2).empty
      rw [← run_each_succ] at hempty
      have hzero := lossMarks_of_empty fun id => hend.2.2 id (lt_or_ge id (n + 1))
      rw [hempty hzero] at hend
      cases hend.1
  · intro hfits xs
    exact run_safety (I := Bounded cfg) (fun t x ht => ht.step hfits x)
      (fun t x ht => ht.boundsKept hfits x) (bounded_init cfg) xs

/-- A bound of one and a half marks. -/
def oneAndAHalf : MarkConfig := MarkOptions.config { mMarks := some (3 / 2) }

/-- A table that is released at no number of loss marks. -/
def neverReleased : MarkConfig := MarkOptions.config { mMarks := some 1, mHyst := some 1 }

/-- **Two marks at a bound of one and a half, and a latch that the last mark leaves set.** -/
theorem bounds_broken :
    ¬EachStep (step oneAndAHalf) (BoundsKept oneAndAHalf) init [(0, .fail 1), (0, .fail 2)]
      ∧ ¬EachStep (step neverReleased) (BoundsKept neverReleased) init [(0, .fail 1), (0, .bind 1)] := by
  constructor
  · rintro ⟨-, hlast, -⟩
    have hloss := hlast.loss
    revert hloss
    decide +kernel
  · rintro ⟨-, hlast, -⟩
    have hempty := hlast.empty
    revert hempty
    decide +kernel

end Axona.DeadPeers
