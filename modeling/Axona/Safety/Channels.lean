import Axona.Library.Transition
import Axona.Transport.ChannelLedger

/-! # What the channel ledger keeps

Two things are asked of the ledger, whatever is called in whatever order. The nodes it has a record
of are those that a channel serves, each pointing at such a channel. And an armed ledger that
enforces its bounds is never past one. Each is kept by every call but one kind, which is named. -/

namespace Axona.ChannelLedger

open Library OrderedMap

variable {cfg : ChannelLedgerConfig} {l : ChannelLedger} {t : ChanToken} {n : NodeId}

/-! ### Which channel serves whom -/

/-- The channel is bound to the node, and may be pointed at. -/
def Serving (l : ChannelLedger) (t : ChanToken) (n : NodeId) : Prop :=
  ∃ c, l.chan.get t = some c ∧ c.serves n = true

instance (l : ChannelLedger) (t : ChanToken) (n : NodeId) : Decidable (l.Serving t n) :=
  decidable_of_iff ((l.chan.get t).any (·.serves n) = true) (Option.any_eq_true _ _)

/-- A node has a record exactly if some channel serves it, and the record points at one that
does. -/
structure BoundSet (l : ChannelLedger) : Prop where
  recorded : ∀ n, l.peer.has n = true ↔ ∃ t, l.Serving t n
  points : ∀ n t, l.peer.get n = some t → l.Serving t n

theorem boundSet_init : BoundSet init := by
  refine ⟨fun n => ⟨fun h => ?_, ?_⟩, fun n t h => ?_⟩
  · cases h
  · rintro ⟨t, c, hc, -⟩
    cases hc
  · cases h

variable {l' : ChannelLedger}

/-- Whatever leaves the records alone, and who serves whom, keeps the one fitting the other. -/
theorem BoundSet.congr (h : l.BoundSet) (hpeer : l'.peer = l.peer)
    (hserving : ∀ t n, l'.Serving t n ↔ l.Serving t n) : l'.BoundSet := by
  refine ⟨fun n => ?_, fun n t ht => ?_⟩
  · rw [hpeer, h.recorded n]
    exact exists_congr fun t => (hserving t n).symm
  · rw [hpeer] at ht
    exact (hserving t n).mpr (h.points n t ht)

variable {c : Chan}

/-- A channel that is written over serves whom it now serves. -/
theorem serving_set {t' : ChanToken} {seq : Nat} {by' : OrderedMap MeshId ChanToken}
    {peer : OrderedMap NodeId ChanToken} :
    ({ l with chan := l.chan.set t c, tByMeshId := by', peer := peer, seq := seq } :
      ChannelLedger).Serving t' n ↔ if t' = t then c.serves n = true else l.Serving t' n := by
  unfold Serving
  simp only [get_set]
  split <;> simp

/-- Writing over a channel with one that serves the same nodes changes nothing. -/
theorem BoundSet.rewrite (h : l.BoundSet) {c' : Chan} (hget : l.chan.get t = some c)
    (hserves : ∀ n, c'.serves n = c.serves n) :
    ({ l with chan := l.chan.set t c' } : ChannelLedger).BoundSet := by
  refine h.congr rfl fun t' n => ?_
  rw [serving_set]
  split
  next heq =>
    rw [hserves, heq]
    constructor
    · exact fun hc => ⟨c, hget, hc⟩
    · rintro ⟨d, hd, hserve⟩
      rw [hget] at hd
      rwa [Option.some.inj hd]
  · exact Iff.rfl

/-! ### Settling a record -/

/-- Where another channel serves the node, one is found. -/
theorem of_otherPointableFor {o : ChanToken} (h : l.otherPointableFor n t = some o) :
    o ≠ t ∧ l.Serving o n := by
  unfold otherPointableFor at h
  obtain ⟨e, he, rfl⟩ := Option.map_eq_some_iff.mp h
  have hmem : e ∈ l.chan.entries.filter fun e => e.1 ≠ t && e.2.serves n := by
    rcases Option.or_eq_some_iff.mp he with hfind | ⟨-, hhead⟩
    · exact List.mem_of_find?_eq_some hfind
    · exact List.mem_of_mem_head? hhead
  obtain ⟨hentry, hcond⟩ := List.mem_filter.mp hmem
  obtain ⟨hne, hserves⟩ := Bool.and_eq_true_iff.mp hcond
  exact ⟨by simpa using hne, e.2, get_of_mem hentry, hserves⟩

theorem of_otherPointableFor_none (h : l.otherPointableFor n t = none) {t' : ChanToken}
    (hne : t' ≠ t) : ¬l.Serving t' n := by
  rintro ⟨c, hget, hserves⟩
  unfold otherPointableFor at h
  simp only [Option.map_eq_none_iff, Option.or_eq_none_iff] at h
  have hnil := List.head?_eq_none_iff.mp h.2
  have hmem : (t', c) ∈ l.chan.entries.filter fun e => e.1 ≠ t && e.2.serves n := by
    refine List.mem_filter.mpr ⟨mem_of_get hget, ?_⟩
    simp [hne, hserves]
  rw [hnil] at hmem
  cases hmem

@[simp] theorem chan_settlePeer (l : ChannelLedger) (n : NodeId) (t : ChanToken) :
    (l.settlePeer n t).chan = l.chan := by
  unfold settlePeer
  split
  · rfl
  split
  · split <;> rfl
  · rfl

@[simp] theorem res_settlePeer (l : ChannelLedger) (n : NodeId) (t : ChanToken) :
    (l.settlePeer n t).res = l.res := by
  unfold settlePeer
  split
  · rfl
  split
  · split <;> rfl
  · rfl

/-- The records fit the channels, but for that of one node, which may still point at a channel that
no longer serves it. -/
structure Unsettled (l : ChannelLedger) (n : NodeId) (t : ChanToken) : Prop where
  recorded : ∀ m, m ≠ n → (l.peer.has m = true ↔ ∃ t', l.Serving t' m)
  points : ∀ m t', m ≠ n → l.peer.get m = some t' → l.Serving t' m
  dropped : ¬l.Serving t n
  has : ∀ t', l.Serving t' n → l.peer.has n = true
  points_self : ∀ t', l.peer.get n = some t' → t' = t ∨ l.Serving t' n

/-- `_settlePeer` mends the record. -/
theorem Unsettled.settle (h : l.Unsettled n t) : (l.settlePeer n t).BoundSet := by
  have hserving : ∀ t' m, (l.settlePeer n t).Serving t' m ↔ l.Serving t' m := by
    intro t' m
    unfold Serving
    rw [chan_settlePeer]
  -- the records of the other nodes are as they were
  have hother : ∀ m, m ≠ n → (l.settlePeer n t).peer.get m = l.peer.get m := by
    intro m hm
    unfold settlePeer
    split
    · rfl
    split
    · split
      · simp [hm]
      · rfl
    · simp [hm]
  have hself : ((l.settlePeer n t).peer.has n = true ↔ ∃ t', l.Serving t' n)
      ∧ ∀ t', (l.settlePeer n t).peer.get n = some t' → l.Serving t' n := by
    unfold settlePeer
    split
    next hnone =>
      have hhas : l.peer.has n = false := by
        unfold OrderedMap.has
        rw [hnone]
        rfl
      refine ⟨⟨fun hn => ?_, ?_⟩, fun t' ht' => ?_⟩
      · rw [hhas] at hn
        cases hn
      · rintro ⟨t', ht'⟩
        exact h.has t' ht'
      · rw [hnone] at ht'
        cases ht'
    next p hp =>
    split
    next o ho =>
      have hserves := (of_otherPointableFor ho).2
      split
      · refine ⟨⟨fun _ => ⟨o, hserves⟩, fun _ => by simp⟩, fun t' ht' => ?_⟩
        rw [get_set, if_pos rfl] at ht'
        rwa [← Option.some.inj ht']
      next hne =>
      refine ⟨⟨fun _ => ⟨o, hserves⟩, fun _ => h.has o hserves⟩, fun t' ht' => ?_⟩
      cases hp.symm.trans ht'
      exact (h.points_self p hp).resolve_left hne
    next hnone =>
    -- nobody serves the node: not the channel that was dropped, and no other
    have hnobody : ∀ t', ¬l.Serving t' n := by
      intro t' ht'
      by_cases heq : t' = t
      · exact h.dropped (heq ▸ ht')
      · exact of_otherPointableFor_none hnone heq ht'
    refine ⟨⟨fun hn => ?_, ?_⟩, fun t' ht' => ?_⟩
    · simp [OrderedMap.has] at hn
    · rintro ⟨t', ht'⟩
      exact (hnobody t' ht').elim
    · simp at ht'
  refine ⟨fun m => ?_, fun m t' ht' => ?_⟩
  · rw [exists_congr fun t' => hserving t' m]
    by_cases hm : m = n
    · rw [hm]
      exact hself.1
    · rw [← h.recorded m hm]
      unfold OrderedMap.has
      rw [hother m hm]
  · rw [hserving]
    by_cases hm : m = n
    · subst hm
      exact hself.2 t' ht'
    · rw [hother m hm] at ht'
      exact h.points m t' hm ht'

variable {s : ChannelLedger}

/-- A channel that stops serving its node leaves only the record of that node to be settled. -/
theorem BoundSet.unsettled (h : l.BoundSet) (hpeer : s.peer = l.peer)
    (hserving : ∀ t' m, s.Serving t' m ↔ t' ≠ t ∧ l.Serving t' m)
    (honly : ∀ m, l.Serving t m → m = n) : s.Unsettled n t := by
  have hother : ∀ t' m, m ≠ n → (s.Serving t' m ↔ l.Serving t' m) := by
    intro t' m hm
    rw [hserving, and_iff_right_iff_imp]
    rintro hs rfl
    exact hm (honly m hs)
  refine ⟨fun m hm => ?_, fun m t' hm ht' => ?_, fun hs => ?_, fun t' hs => ?_, fun t' ht' => ?_⟩
  · rw [hpeer, h.recorded m]
    exact exists_congr fun t' => (hother t' m hm).symm
  · rw [hpeer] at ht'
    exact (hother t' m hm).mpr (h.points m t' ht')
  · exact ((hserving t n).mp hs).1 rfl
  · rw [hpeer, h.recorded n]
    exact ⟨t', ((hserving t' n).mp hs).2⟩
  · rw [hpeer] at ht'
    by_cases heq : t' = t
    · exact .inl heq
    · exact .inr ((hserving t' n).mpr ⟨heq, h.points n t' ht'⟩)

/-! ### The calls -/

variable {m : MeshId}

theorem get_of_current (h : l.current m = some (t, c)) : l.chan.get t = some c := by
  obtain ⟨t', -, h⟩ := Option.bind_eq_some_iff.mp h
  obtain ⟨c', hc', heq⟩ := Option.map_eq_some_iff.mp h
  cases heq
  exact hc'

theorem mem_of_newestBound {x : ChanToken × Chan} (h : l.newestBound m = some x) :
    x ∈ l.chan.entries ∧ x.2.nodeId.isSome = true := by
  -- what was taken so far is one of the entries, and bound
  suffices hrun : ∀ (es : List (ChanToken × Chan)) (newest : Option (ChanToken × Chan)),
      (∀ x, newest = some x → x ∈ l.chan.entries ∧ x.2.nodeId.isSome = true) →
      (∀ e ∈ es, e ∈ l.chan.entries) → ∀ x, es.foldl (fun newest e =>
        if e.2.meshId = m && e.2.nodeId.isSome && newest.all fun x => decide (x.2.seq < e.2.seq)
        then some e else newest) newest = some x →
      x ∈ l.chan.entries ∧ x.2.nodeId.isSome = true from
    hrun l.chan.entries none (fun _ h => by cases h) (fun _ he => he) x h
  intro es
  induction es with
  | nil => exact fun newest hnewest _ x hx => hnewest x hx
  | cons e es ih =>
    intro newest hnewest hes
    rw [List.foldl_cons]
    refine ih _ (fun x hx => ?_) fun e' he' => hes e' (List.mem_cons_of_mem _ he')
    split at hx
    next hcond =>
      cases hx
      simp only [Bool.and_eq_true] at hcond
      exact ⟨hes e List.mem_cons_self, hcond.1.2⟩
    · exact hnewest x hx

/-- What `unbind` drops is the binding of a channel. -/
theorem of_unbindTarget (h : l.unbindTarget m = some (t, c)) :
    l.chan.get t = some c ∧ c.nodeId.isSome = true := by
  unfold unbindTarget at h
  split at h
  next x hx =>
    obtain ⟨hcur, hbound⟩ := Option.filter_eq_some_iff.mp hx
    cases h
    exact ⟨get_of_current hcur, hbound⟩
  · obtain ⟨hmem, hbound⟩ := mem_of_newestBound h
    exact ⟨get_of_mem hmem, hbound⟩

theorem BoundSet.allocate (h : l.BoundSet) (m : MeshId) (d : Dir) (r : Option ResToken) :
    (l.allocate cfg t m d r).BoundSet := by
  unfold ChannelLedger.allocate
  split
  · exact h
  next hnew =>
  simp only []
  split
  · exact h
  refine h.congr rfl fun t' n => ?_
  unfold Serving
  simp only [get_set]
  split
  next heq =>
    subst heq
    have hnone : l.chan.get t' = none := by simpa [OrderedMap.has] using hnew
    rw [hnone]
    simp [Chan.serves]
  · exact Iff.rfl

theorem BoundSet.unbind (h : l.BoundSet) (m : MeshId) : (l.unbind m).BoundSet := by
  unfold ChannelLedger.unbind
  split
  · exact h
  next t c htarget =>
  obtain ⟨hget, hbound⟩ := of_unbindTarget htarget
  obtain ⟨n, hn⟩ := Option.isSome_iff_exists.mp hbound
  simp only [hn, Option.elim_some]
  refine Unsettled.settle (h.unsettled rfl (fun t' m' => ?_) fun m' hm' => ?_)
  · rw [serving_set]
    split
    next heq => simp [heq, Chan.serves]
    next hne => simp [hne]
  · obtain ⟨c', hc', hserves⟩ := hm'
    cases hget.symm.trans hc'
    simp only [Chan.serves, hn, Bool.and_eq_true, decide_eq_true_eq] at hserves
    exact (Option.some.inj hserves.1).symm

/-- Whom a channel serves it is bound to. -/
theorem eq_of_serving {m : NodeId} (hget : l.chan.get t = some c) (hn : c.nodeId = some n)
    (h : l.Serving t m) : m = n := by
  obtain ⟨c', hc', hserves⟩ := h
  cases hget.symm.trans hc'
  simp only [Chan.serves, hn, Bool.and_eq_true, decide_eq_true_eq] at hserves
  exact (Option.some.inj hserves.1).symm

theorem not_serving_of_unbound (hget : l.chan.get t = some c) (hn : c.nodeId = none) (m : NodeId) :
    ¬l.Serving t m := by
  rintro ⟨c', hc', hserves⟩
  cases hget.symm.trans hc'
  simp [Chan.serves, hn] at hserves

theorem retire_eq (l : ChannelLedger) (t : ChanToken) (c : Chan) :
    ∃ by', l.retire t c = { l with tByMeshId := by' } := by
  unfold retire
  split
  · exact ⟨_, rfl⟩
  · exact ⟨_, rfl⟩

theorem BoundSet.closing (h : l.BoundSet) (t : ChanToken) : (l.closing t).BoundSet := by
  unfold ChannelLedger.closing
  split
  · exact h
  next c hget =>
  split
  · exact h
  simp only []
  obtain ⟨by', hretire⟩ :=
    retire_eq { l with chan := l.chan.set t { c with state := .closing } } t c
  rw [hretire]
  have hserving : ∀ t' m', ({ l with
      chan := l.chan.set t { c with state := .closing }, tByMeshId := by' } :
      ChannelLedger).Serving t' m' ↔ t' ≠ t ∧ l.Serving t' m' := by
    intro t' m'
    unfold Serving
    simp only [get_set]
    split
    next heq => simp [heq, Chan.serves, ChanState.pointable]
    next hne => simp [hne]
  split
  next hn =>
    refine h.congr rfl fun t' m' => ?_
    rw [hserving, and_iff_right_iff_imp]
    rintro hs rfl
    exact not_serving_of_unbound hget hn m' hs
  next n hn =>
  have hun := h.unsettled (s := { l with
    chan := l.chan.set t { c with state := .closing }, tByMeshId := by' }) rfl hserving
    fun m' hm' => eq_of_serving hget hn hm'
  split
  · exact hun.settle
  next hne =>
  -- the record points elsewhere already
  refine ⟨fun m' => ?_, fun m' t' ht' => (hserving t' m').mpr ⟨?_, h.points m' t' ht'⟩⟩
  · rw [exists_congr fun t' => hserving t' m']
    refine (h.recorded m').trans ⟨?_, ?_⟩
    · rintro ⟨t', ht'⟩
      obtain ⟨p, hp⟩ := has_iff.mp ((h.recorded m').mpr ⟨t', ht'⟩)
      refine ⟨p, ?_, h.points m' p hp⟩
      rintro rfl
      obtain rfl := eq_of_serving hget hn (h.points m' p hp)
      exact hne hp
    · rintro ⟨t', ht'⟩
      exact ⟨t', ht'.2⟩
  · rintro rfl
    obtain rfl := eq_of_serving hget hn (h.points m' t' ht')
    exact hne ht'

theorem BoundSet.applyTransfer (h : l.BoundSet) (p : ClassMove) :
    (l.applyTransfer cfg t p).BoundSet := by
  unfold ChannelLedger.applyTransfer
  have h' : ({ l with pendingReclass := l.pendingReclass.delete t } : ChannelLedger).BoundSet :=
    h.congr rfl fun _ _ => Iff.rfl
  simp only []
  split
  · exact h'
  next c hget =>
  split
  · exact h'
  · refine h'.rewrite hget ?_
    exact fun _ => rfl

theorem BoundSet.applyPendingReclass (h : l.BoundSet) (t : ChanToken) :
    (l.applyPendingReclass cfg t).BoundSet := by
  unfold ChannelLedger.applyPendingReclass
  generalize l.pendingReclass.entries = es
  induction es generalizing l with
  | nil => exact h
  | cons e es ih =>
    rw [List.foldl_cons]
    refine ih ?_
    split
    · exact h.applyTransfer e.2
    · exact h

theorem BoundSet.gone (h : l.BoundSet) (t : ChanToken) : (l.gone cfg t).BoundSet := by
  unfold ChannelLedger.gone
  split
  · exact h
  next c hget =>
  refine BoundSet.applyPendingReclass ?_ t
  obtain ⟨by', hretire⟩ := retire_eq l t c
  rw [hretire]
  have hserving : ∀ t' m', ({ l with chan := l.chan.delete t, tByMeshId := by' } :
      ChannelLedger).Serving t' m' ↔ t' ≠ t ∧ l.Serving t' m' := by
    intro t' m'
    unfold Serving
    simp only [get_delete]
    split
    next heq => simp [heq]
    next hne => simp [hne]
  cases hn : c.nodeId with
  | none =>
    refine h.congr rfl fun t' m' => ?_
    change ({ l with chan := l.chan.delete t, tByMeshId := by' } : ChannelLedger).Serving t' m' ↔ _
    rw [hserving, and_iff_right_iff_imp]
    rintro hs rfl
    exact not_serving_of_unbound hget hn m' hs
  | some n =>
    have hun := h.unsettled (s := { l with chan := l.chan.delete t, tByMeshId := by' }) rfl
      hserving fun m' hm' => eq_of_serving hget hn hm'
    exact hun.settle.congr rfl fun _ _ => Iff.rfl

/-! ### The exact condition -/

/-- The call binds anew a channel that another node is reached by. -/
def Steals (l : ChannelLedger) : Act → Prop
  | .bind m n => ∃ t c A, l.current m = some (t, c) ∧ c.state.pointable = true
      ∧ c.nodeId = some A ∧ A ≠ n ∧ l.peer.get A = some t
  | _ => False

/-- A binding keeps the records fitting, unless it takes the channel another one points at. -/
theorem BoundSet.bind_iff (h : l.BoundSet) (m : MeshId) (n : NodeId) :
    (l.bind m n).BoundSet ↔ ¬Steals l (.bind m n) := by
  unfold ChannelLedger.bind
  split
  next hnone =>
    refine iff_of_true h ?_
    rintro ⟨t, c, A, hcur, -⟩
    rw [hnone] at hcur
    cases hcur
  next t c hcur =>
  have hget := get_of_current hcur
  split
  next hpoint =>
    have hserving : ∀ t' m', ({ l with
        chan := l.chan.set t { c with nodeId := some n }, peer := l.peer.set n t } :
        ChannelLedger).Serving t' m' ↔ if t' = t then m' = n else l.Serving t' m' := by
      intro t' m'
      unfold Serving
      simp only [get_set]
      split
      · simp only [Chan.serves, hpoint, Option.some.injEq, exists_eq_left', Bool.and_true,
          decide_eq_true_eq]
        exact eq_comm
      · exact Iff.rfl
    constructor
    · rintro h' ⟨t', c', A, hcur', -, hA, hne, hpeer⟩
      cases Option.some.inj (hcur.symm.trans hcur')
      -- the record that still points at the channel
      have hpoints := h'.points A t (by simp [hne, hpeer])
      rw [hserving, if_pos rfl] at hpoints
      exact hne hpoints
    · intro hfree
      -- nobody else points at the channel
      have hothers : ∀ m', m' ≠ n → l.peer.get m' ≠ some t := by
        intro m' hm' hpeer
        obtain ⟨c', hc', hserves⟩ := h.points m' t hpeer
        cases hget.symm.trans hc'
        simp only [Chan.serves, Bool.and_eq_true, decide_eq_true_eq] at hserves
        exact hfree ⟨t, c, m', hcur, hpoint, hserves.1, hm', hpeer⟩
      refine ⟨fun m' => ?_, fun m' t' ht' => ?_⟩
      · rw [exists_congr fun t' => hserving t' m', has_set]
        by_cases hm' : m' = n
        · subst hm'
          refine iff_of_true (by simp) ⟨t, by simp⟩
        simp only [hm', decide_false, Bool.false_or]
        refine ⟨fun hhas => ?_, ?_⟩
        · obtain ⟨p, hp⟩ := has_iff.mp hhas
          refine ⟨p, ?_⟩
          rw [if_neg (by rintro rfl; exact hothers m' hm' hp)]
          exact h.points m' p hp
        · rintro ⟨t', ht'⟩
          split at ht'
          · exact absurd ht' (by simp)
          · exact (h.recorded m').mpr ⟨t', ht'⟩
      · rw [hserving]
        simp only [get_set] at ht'
        by_cases hm' : m' = n
        · rw [if_pos hm'] at ht'
          rw [if_pos (Option.some.inj ht').symm]
          exact hm'
        · rw [if_neg hm'] at ht'
          rw [if_neg (by rintro rfl; exact hothers m' hm' ht')]
          exact h.points m' t' ht'
  next hclosing =>
  refine iff_of_true h ?_
  rintro ⟨t', c', A, hcur', hpoint, -⟩
  cases Option.some.inj (hcur.symm.trans hcur')
  exact hclosing hpoint

theorem BoundSet.step_iff (h : l.BoundSet) (a : Act) : (l.step cfg a).BoundSet ↔ ¬Steals l a := by
  cases a with
  | bind m n => exact h.bind_iff m n
  | reserve cls d now =>
    refine iff_of_true ?_ id
    simp only [step, reserve]
    split
    all_goals exact h.congr rfl fun _ _ => Iff.rfl
  | release token | sweep now => exact iff_of_true (h.congr rfl fun _ _ => Iff.rfl) id
  | reclass t cls after =>
    refine iff_of_true ?_ id
    simp only [step, reclass]
    split
    · exact h
    next c hget =>
    split
    · exact h
    split
    · exact h
    split
    · split
      · exact h.congr rfl fun _ _ => Iff.rfl
      · exact h
    · exact h.rewrite hget fun _ => rfl
  | allocate t m d r => exact iff_of_true (h.allocate m d r) id
  | negotiating t =>
    refine iff_of_true ?_ id
    simp only [step, negotiating]
    split
    · exact h
    next c hget =>
    split
    next hstate =>
      refine h.rewrite hget fun n => ?_
      simp [Chan.serves, hstate, ChanState.pointable]
    · exact h
  | «open» t =>
    refine iff_of_true ?_ id
    simp only [step, opened]
    split
    · exact h
    next c hget =>
    split
    next hstate =>
      refine h.rewrite hget fun n => ?_
      have hpoint : c.state.pointable = true := by
        cases hc : c.state <;> simp_all [ChanState.preOpen, ChanState.pointable]
      simp only [Chan.serves, hpoint]
      rfl
    · exact h
  | unbind m => exact iff_of_true (h.unbind m) id
  | closing t => exact iff_of_true (h.closing t) id
  | gone t => exact iff_of_true (h.gone t) id

/-- **Whom the ledger has bound.** In every state of a run a node has a record exactly if a channel
that is not closing serves it, and the record points at such a channel, exactly if no call of the
run binds to another node a channel that a record points at. -/
theorem boundSet_iff (cfg : ChannelLedgerConfig) (as : List Act) :
    EachStep (step cfg) (fun l a => (l.step cfg a).BoundSet) init as ↔
      EachStep (step cfg) (fun l a => ¬Steals l a) init as :=
  eachStep_keeps_iff (fun _ a h => h.step_iff a) boundSet_init as

/-- A ledger without a profile. -/
def plainLedger : ChannelLedgerConfig := ChannelLedgerOptions.config {}

/-- **A record outlives the binding it was made for**: one channel, bound to one node and then to
another. -/
theorem record_outlives_rebinding :
    ¬EachStep (step plainLedger) (fun l a => (l.step plainLedger a).BoundSet) init
      [.allocate 1 ['m'] .outbound none, .open 1, .bind ['m'] 10, .bind ['m'] 11] := by
  rintro ⟨-, -, -, hlast, -⟩
  have hserving := hlast.points 10 1 (by decide)
  revert hserving
  decide

/-! ### The rows -/

/-- What a bound counts: connections and reservations. -/
structure Row where
  ofChan : Chan → Bool
  ofRes : Reservation → Bool

namespace Row

/-- Everything. -/
def all : Row := ⟨fun _ => true, fun _ => true⟩

/-- The charges and the reservations of a class. -/
def cls (k : Cls) : Row := ⟨fun c => c.cls = some k, fun r => r.cls = some k⟩

/-- The negotiations of a direction that are bounded, and the reservations. -/
def dir (d : Dir) : Row :=
  ⟨fun c => d.casesOn c.inboundUnbound c.outboundPending, fun r => r.dir = d⟩

end Row

/-- How much of a row is used. -/
def used (l : ChannelLedger) (r : Row) : Nat := l.chan.countP r.ofChan + l.res.countP r.ofRes

variable {r : Row} {c c' : Chan}

section

variable (l : ChannelLedger)

theorem used_all : l.used Row.all = l.chanAll + l.reservedAll := by
  unfold used chanAll reservedAll
  rw [size_eq_countP, size_eq_countP]
  rfl

theorem used_cls (k : Cls) :
    l.used (.cls k) = l.chargedOf k + l.reservedOf k := rfl

theorem used_inbound :
    l.used (.dir .inbound) = l.chanInboundUnbound + l.reservedDirOf .inbound := rfl

theorem used_outbound :
    l.used (.dir .outbound) = l.chanOutboundPending + l.reservedDirOf .outbound := rfl

end

/-- A connection written over counts in its stead. -/
theorem used_set (hget : l.chan.get t = some c) (hchan : s.chan = l.chan.set t c')
    (hres : s.res = l.res) (r : Row) :
    s.used r + (if r.ofChan c then 1 else 0) = l.used r + if r.ofChan c' then 1 else 0 := by
  unfold used
  rw [hchan, hres]
  have := countP_set_over hget c' r.ofChan
  omega

/-- It takes no more of a row that counted it already, or does not count it now. -/
theorem used_set_le (hget : l.chan.get t = some c) (hchan : s.chan = l.chan.set t c')
    (hres : s.res = l.res) (h : r.ofChan c' = true → r.ofChan c = true) : s.used r ≤ l.used r := by
  have hset := used_set hget hchan hres r
  by_cases hc : r.ofChan c' = true
  · rw [if_pos hc, if_pos (h hc)] at hset
    omega
  · rw [if_neg hc] at hset
    omega

theorem used_congr (hchan : l'.chan = l.chan) (hres : l'.res = l.res) (r : Row) :
    l'.used r = l.used r := by
  unfold used
  rw [hchan, hres]

@[simp] theorem used_settlePeer (l : ChannelLedger) (n : NodeId) (t : ChanToken) (r : Row) :
    (l.settlePeer n t).used r = l.used r :=
  used_congr (chan_settlePeer l n t) (res_settlePeer l n t) r

theorem used_sweepReservations_le (l : ChannelLedger) (now : Int) (r : Row) :
    (l.sweepReservations cfg now).used r ≤ l.used r :=
  Nat.add_le_add_left (countP_filter_le _ _ _) _

/-! ### The bounds -/

/-- What a ledger with a profile is constructed as, when its bounds are enforced. -/
def armed (p : PoolProfile) (o : ChannelLedgerOptions) : ChannelLedgerConfig :=
  { o with enforce := true, pools := some p }.config

/-- No bound is exceeded. -/
structure Within (p : PoolProfile) (cfg : ChannelLedgerConfig) (l : ChannelLedger) : Prop where
  cls : ∀ k, l.chargedOf k + l.reservedOf k ≤ p.size k
  all : l.chanAll + l.reservedAll ≤ p.H
  inbound : l.chanInboundUnbound + l.reservedDirOf .inbound ≤ cfg.cInbound
  pending : l.chanOutboundPending + l.reservedDirOf .outbound ≤ p.pPending

/-- The bound of a direction. -/
def dirCap (cfg : ChannelLedgerConfig) : Dir → Nat
  | .inbound => cfg.cInbound
  | .outbound => cfg.pPending

variable {p : PoolProfile} {o : ChannelLedgerOptions}

theorem cPhys_armed : (armed p o).cPhys = p.H := by
  have := p.M_pos
  have := p.pools_le
  show (max 1 (p.H : Int)).toNat = p.H
  omega

theorem pPending_armed : (armed p o).pPending = p.pPending := by
  have := p.pPending_pos
  show (max 1 (p.pPending : Int)).toNat = p.pPending
  omega

/-- The bounds, row by row. -/
theorem within_iff : l.Within p (armed p o) ↔ (∀ k, l.used (.cls k) ≤ p.size k)
    ∧ l.used .all ≤ p.H ∧ ∀ d, l.used (.dir d) ≤ dirCap (armed p o) d := by
  constructor
  · intro h
    refine ⟨h.cls, (used_all l).trans_le h.all, fun d => ?_⟩
    cases d with
    | inbound => exact h.inbound
    | outbound => exact h.pending.trans_eq pPending_armed.symm
  · rintro ⟨hcls, hall, hdir⟩
    exact ⟨hcls, (used_all l).symm.trans_le hall, hdir .inbound,
      (hdir .outbound).trans_eq pPending_armed⟩

theorem Within.of_used_le (h : l.Within p (armed p o)) (hle : ∀ r, l'.used r ≤ l.used r) :
    l'.Within p (armed p o) := by
  obtain ⟨hcls, hall, hdir⟩ := within_iff.mp h
  exact within_iff.mpr ⟨fun k => (hle _).trans (hcls k), (hle _).trans hall,
    fun d => (hle _).trans (hdir d)⟩

/-- A reservation that is granted fits into every row it counts against. -/
theorem Within.reserve (h : l.Within p (armed p o)) (cls : Option Cls) (d : Dir) (now : Int) :
    (l.reserve (armed p o) cls d now).2.Within p (armed p o) := by
  have hswept : (l.sweepReservations (armed p o) now).Within p (armed p o) :=
    h.of_used_le fun r => used_sweepReservations_le l now r
  unfold ChannelLedger.reserve
  simp only []
  generalize l.sweepReservations (armed p o) now = s at hswept
  split
  · exact hswept
  next hfree =>
  obtain ⟨k, hk⟩ : ∃ k, requestClass (armed p o) cls d = some k := ⟨_, rfl⟩
  rw [hk] at hfree ⊢
  -- no row is full
  have hrow : s.rowFull (armed p o) (some k) d = none := by
    have henforce : (armed p o).enforce = true := rfl
    simpa [henforce] using hfree
  have hle : ∀ r : Row, ({ s with
      res := s.res.set (s.resSeq + 1) ⟨some k, d, now⟩, resSeq := s.resSeq + 1 } :
      ChannelLedger).used r ≤ s.used r + if r.ofRes ⟨some k, d, now⟩ then 1 else 0 := by
    intro r
    unfold used
    simp only [countP_set]
    have := countP_filter_le s.res (fun j _ => j ≠ s.resSeq + 1) r.ofRes
    have hdelete : (s.res.delete (s.resSeq + 1)).countP r.ofRes
        = (s.res.filter fun j _ => j ≠ s.resSeq + 1).countP r.ofRes := rfl
    omega
  obtain ⟨hcls, hall, hdir⟩ := within_iff.mp hswept
  unfold rowFull at hrow
  split at hrow
  · cases hrow
  next hphys =>
  rw [cPhys_armed, ← used_all] at hphys
  split at hrow
  · cases hrow
  next hclass =>
  have hroom : s.used (.cls k) < p.size k := by
    have hnot : s.classFull (armed p o) k = false := by
      cases hfull : s.classFull (armed p o) k with
      | false => rfl
      | true => simp [hfull] at hclass
    simpa [classFull, armed, ChannelLedgerOptions.config, used_cls] using hnot
  have hdirRoom : s.used (.dir d) < dirCap (armed p o) d := by
    cases d with
    | inbound =>
      simp only [] at hrow
      split at hrow
      · cases hrow
      · rw [used_inbound]
        exact Nat.lt_of_not_le ‹_›
    | outbound =>
      simp only [] at hrow
      split at hrow
      · cases hrow
      · rw [used_outbound]
        exact Nat.lt_of_not_le ‹_›
  refine within_iff.mpr ⟨fun k' => (hle _).trans ?_, (hle _).trans ?_, fun d' => (hle _).trans ?_⟩
  · by_cases hk' : k' = k
    · subst hk'
      rw [if_pos (by simp [Row.cls])]
      exact hroom
    · rw [if_neg (by simp [Row.cls, Ne.symm hk'])]
      exact hcls k'
  · rw [if_pos (show Row.all.ofRes _ = true from rfl)]
    omega
  · by_cases hd' : d' = d
    · subst hd'
      rw [if_pos (by simp [Row.dir])]
      exact hdirRoom
    · rw [if_neg (by simp [Row.dir, Ne.symm hd'])]
      exact hdir d'

/-- A connection that is built takes the place of its reservation in every row that is not of a
direction, and in the row of a direction if the reservation was for it. -/
theorem used_allocate {d : Dir} {token : ResToken} {x : Reservation} (hnew : l.chan.get t = none)
    (hx : l.res.get token = some x) (r : Row) :
    (l.allocate cfg t m d (some token)).used r + (if r.ofRes x then 1 else 0)
      = l.used r + if r.ofChan ⟨m, d, x.cls, .allocated, none, l.seq + 1⟩ then 1 else 0 := by
  have hhas : l.chan.has t = false := by
    unfold OrderedMap.has
    rw [hnew]
    rfl
  have heq : (l.allocate cfg t m d (some token)).used r = ({ l with
      res := l.res.delete token
      chan := l.chan.set t ⟨m, d, x.cls, .allocated, none, l.seq + 1⟩ } :
      ChannelLedger).used r := by
    unfold allocate
    rw [if_neg (by simp [hhas])]
    simp [hx]
    rfl
  rw [heq]
  unfold used
  simp only [countP_set_new hnew, countP_eq_delete hx]
  omega

/-- Without a reservation an armed ledger has no record. -/
theorem allocate_unreserved {d : Dir} {reservation : Option ResToken}
    (h : reservation.bind l.res.get = none) : l.allocate (armed p o) t m d reservation = l := by
  unfold allocate
  split
  · rfl
  rw [if_pos]
  rw [h]
  rfl

/-- The row of a direction is full. -/
def DirFull (cfg : ChannelLedgerConfig) (l : ChannelLedger) (d : Dir) : Prop :=
  dirCap cfg d ≤ l.used (.dir d)

/-- The call adds to a row that is full: a connection is built in the other direction than it was
reserved for, or an inbound negotiation loses the node it is bound to. -/
def Overfills (cfg : ChannelLedgerConfig) (l : ChannelLedger) : Act → Prop
  | .allocate t _ d (some token) =>
    ∃ x, l.chan.get t = none ∧ l.res.get token = some x ∧ x.dir ≠ d ∧ DirFull cfg l d
  | .unbind m =>
    ∃ t c, l.unbindTarget m = some (t, c) ∧ c.dir = .inbound ∧ c.state.preOpen = true
      ∧ DirFull cfg l .inbound
  | _ => False

section

variable (h : l.Within p (armed p o))
include h

theorem Within.allocate_iff (t : ChanToken) (m : MeshId) (d : Dir)
    (reservation : Option ResToken) :
    (l.allocate (armed p o) t m d reservation).Within p (armed p o) ↔
      ¬Overfills (armed p o) l (.allocate t m d reservation) := by
  cases hres : reservation.bind l.res.get with
  | none =>
    rw [allocate_unreserved hres]
    refine iff_of_true h ?_
    cases reservation with
    | none => exact id
    | some token =>
      rintro ⟨x, -, hx, -⟩
      rw [Option.bind_some, hx] at hres
      cases hres
  | some x =>
  obtain ⟨token, rfl, hx⟩ := Option.bind_eq_some_iff.mp hres
  cases hget : l.chan.get t with
  | some c =>
    have hsame : l.allocate (armed p o) t m d (some token) = l := by
      unfold allocate
      rw [if_pos (has_iff.mpr ⟨c, hget⟩)]
    rw [hsame]
    refine iff_of_true h ?_
    rintro ⟨x, hnone, -⟩
    rw [hget] at hnone
    cases hnone
  | none =>
  have hused : ∀ r, (l.allocate (armed p o) t m d (some token)).used r
      + (if r.ofRes x then 1 else 0)
      = l.used r + if r.ofChan ⟨m, d, x.cls, .allocated, none, l.seq + 1⟩ then 1 else 0 :=
    used_allocate hget hx
  obtain ⟨hcls, hall, hdir⟩ := within_iff.mp h
  -- a row of a direction counts the connection if it is of that direction
  have hcount : ∀ d', (Row.dir d').ofChan ⟨m, d, x.cls, .allocated, none, l.seq + 1⟩
      = decide (d = d') := by
    intro d'
    cases d' <;> simp [Row.dir, Chan.inboundUnbound, Chan.outboundPending, ChanState.preOpen]
  constructor
  · rintro h' ⟨x', -, hx', hne, hfull⟩
    cases hx.symm.trans hx'
    have hd := hused (.dir d)
    rw [hcount, if_neg (by simpa [Row.dir] using hne), if_pos (by simp)] at hd
    have hcap := (within_iff.mp h').2.2 d
    unfold DirFull at hfull
    omega
  · intro hfits
    refine within_iff.mpr ⟨fun k => ?_, ?_, fun d' => ?_⟩
    · have hk := hused (.cls k)
      have hsame : (Row.cls k).ofChan ⟨m, d, x.cls, .allocated, none, l.seq + 1⟩
          = (Row.cls k).ofRes x := rfl
      rw [hsame] at hk
      have hkept := hcls k
      omega
    · have hk := hused .all
      have hsame : Row.all.ofChan ⟨m, d, x.cls, .allocated, none, l.seq + 1⟩
          = Row.all.ofRes x := rfl
      rw [hsame] at hk
      omega
    · have hd := hused (.dir d')
      rw [hcount] at hd
      have hkept := hdir d'
      by_cases hd' : d = d'
      · subst hd'
        by_cases hsame : x.dir = d
        · rw [if_pos (by simpa [Row.dir] using hsame), if_pos (by simp)] at hd
          omega
        · have hroom : ¬DirFull (armed p o) l d := fun hfull => hfits ⟨x, hget, hx, hsame, hfull⟩
          unfold DirFull at hroom
          rw [if_neg (by simpa [Row.dir] using hsame), if_pos (by simp)] at hd
          omega
      · rw [if_neg (show ¬decide (d = d') = true by simpa using hd')] at hd
        omega

theorem Within.unbind_iff (m : MeshId) :
    (l.unbind m).Within p (armed p o) ↔ ¬Overfills (armed p o) l (.unbind m) := by
  cases htarget : l.unbindTarget m with
  | none =>
    have hsame : l.unbind m = l := by
      unfold ChannelLedger.unbind
      rw [htarget]
    rw [hsame]
    refine iff_of_true h ?_
    rintro ⟨t, c, hsome, -⟩
    rw [htarget] at hsome
    cases hsome
  | some x =>
  obtain ⟨t, c⟩ := x
  obtain ⟨hget, hbound⟩ := of_unbindTarget htarget
  have hused : ∀ r, (l.unbind m).used r
      = ({ l with chan := l.chan.set t { c with nodeId := none } } : ChannelLedger).used r := by
    intro r
    unfold ChannelLedger.unbind
    rw [htarget]
    simp only []
    cases c.nodeId with
    | none => rfl
    | some n => exact used_settlePeer _ n t r
  have hset := fun r => used_set (s := { l with
    chan := l.chan.set t { c with nodeId := none } }) hget rfl rfl r
  -- only the inbound row looks at who a connection is bound to
  have hsame : ∀ r : Row, r.ofChan { c with nodeId := none } = r.ofChan c →
      (l.unbind m).used r = l.used r := by
    intro r hr
    have := hset r
    rw [hr] at this
    rw [hused]
    omega
  have hinbound := hset (.dir .inbound)
  rw [← hused] at hinbound
  have hnot : (Row.dir .inbound).ofChan c = false := by
    simp [Row.dir, Chan.inboundUnbound, Option.isNone_eq_false_iff.mpr hbound]
  rw [hnot, if_neg Bool.false_ne_true] at hinbound
  have hcounts : (Row.dir .inbound).ofChan { c with nodeId := none } = true ↔
      c.dir = .inbound ∧ c.state.preOpen = true := by
    simp [Row.dir, Chan.inboundUnbound]
  obtain ⟨hcls, hall, hdir⟩ := within_iff.mp h
  have hkept := hdir .inbound
  constructor
  · rintro h' ⟨t', c', htarget', hin, hpre, hfull⟩
    cases Option.some.inj (htarget.symm.trans htarget')
    rw [if_pos (hcounts.mpr ⟨hin, hpre⟩)] at hinbound
    have hcap := (within_iff.mp h').2.2 .inbound
    unfold DirFull at hfull
    omega
  · intro hfits
    refine within_iff.mpr ⟨fun k => ?_, ?_, fun d => ?_⟩
    · exact (hsame (.cls k) rfl).trans_le (hcls k)
    · exact (hsame .all rfl).trans_le hall
    · cases d with
      | outbound => exact (hsame (.dir .outbound) rfl).trans_le (hdir .outbound)
      | inbound =>
        by_cases hc : (Row.dir .inbound).ofChan { c with nodeId := none } = true
        · have hroom : ¬DirFull (armed p o) l .inbound := fun hfull =>
            hfits ⟨t, c, htarget, (hcounts.mp hc).1, (hcounts.mp hc).2, hfull⟩
          unfold DirFull at hroom
          rw [if_pos hc] at hinbound
          omega
        · rw [if_neg hc] at hinbound
          omega

/-- A channel moved to a class that has room. -/
theorem Within.setCls (hget : l.chan.get t = some c) {k : Cls}
    (hroom : l.classFull (armed p o) k = false) :
    ({ l with chan := l.chan.set t { c with cls := some k } } :
      ChannelLedger).Within p (armed p o) := by
  have hset := fun r => used_set (s := { l with
    chan := l.chan.set t { c with cls := some k } }) hget rfl rfl r
  have hlt : l.used (.cls k) < p.size k := by
    simpa [classFull, armed, ChannelLedgerOptions.config, used_cls] using hroom
  obtain ⟨hcls, hall, hdir⟩ := within_iff.mp h
  refine within_iff.mpr ⟨fun k' => ?_, ?_, fun d => ?_⟩
  · have hk := hset (.cls k')
    by_cases hk' : k' = k
    · subst hk'
      have hle : (if (Row.cls k').ofChan { c with cls := some k' } then 1 else 0) ≤ 1 := by
        split <;> omega
      omega
    · rw [if_neg (show ¬(Row.cls k').ofChan { c with cls := some k } = true by
        simp [Row.cls, Ne.symm hk'])] at hk
      have := hcls k'
      omega
  · have hk := hset .all
    simp only [Row.all] at hk hall ⊢
    omega
  · refine (used_set_le (s := { l with chan := l.chan.set t { c with cls := some k } }) hget rfl
      rfl ?_).trans (hdir d)
    cases d <;> exact id

theorem Within.applyTransfer (t : ChanToken) (x : ClassMove) :
    (l.applyTransfer (armed p o) t x).Within p (armed p o) := by
  unfold ChannelLedger.applyTransfer
  have h' : ({ l with pendingReclass := l.pendingReclass.delete t } :
      ChannelLedger).Within p (armed p o) := h.of_used_le fun r => le_of_eq rfl
  simp only []
  split
  · exact h'
  next c hget =>
  split
  · exact h'
  next hroom => exact h'.setCls hget (by simpa using hroom)

theorem Within.applyPendingReclass (t : ChanToken) :
    (l.applyPendingReclass (armed p o) t).Within p (armed p o) := by
  unfold ChannelLedger.applyPendingReclass
  generalize l.pendingReclass.entries = es
  induction es generalizing l with
  | nil => exact h
  | cons e es ih =>
    rw [List.foldl_cons]
    refine ih ?_
    split
    · exact h.applyTransfer e.1 e.2
    · exact h

theorem Within.gone (t : ChanToken) :
    (l.gone (armed p o) t).Within p (armed p o) := by
  unfold ChannelLedger.gone
  split
  · exact h
  next c hget =>
  refine Within.applyPendingReclass ?_ t
  obtain ⟨by', hretire⟩ := retire_eq l t c
  rw [hretire]
  refine h.of_used_le fun r => ?_
  have hdelete : ({ l with chan := l.chan.delete t, tByMeshId := by' } : ChannelLedger).used r
      ≤ l.used r :=
    Nat.add_le_add_right (countP_filter_le l.chan (fun k _ => k ≠ t) r.ofChan) _
  cases c.nodeId with
  | none => exact hdelete
  | some n => exact (used_settlePeer _ n t r).trans_le hdelete

/-- A channel written over with one of its class that no row of a direction counts anew. -/
theorem Within.rewrite (hget : l.chan.get t = some c)
    (hchan : l'.chan = l.chan.set t c') (hres : l'.res = l.res) (hcls : c'.cls = c.cls)
    (hdir : ∀ d, (Row.dir d).ofChan c' = true → (Row.dir d).ofChan c = true) :
    l'.Within p (armed p o) := by
  obtain ⟨hclss, hall, hdirs⟩ := within_iff.mp h
  refine within_iff.mpr ⟨fun k => ?_, ?_, fun d => ?_⟩
  · refine (used_set_le hget hchan hres fun hc => ?_).trans (hclss k)
    simpa [Row.cls, hcls] using hc
  · exact (used_set_le hget hchan hres id).trans hall
  · exact (used_set_le hget hchan hres (hdir d)).trans (hdirs d)

theorem Within.closing (t : ChanToken) :
    (l.closing t).Within p (armed p o) := by
  unfold ChannelLedger.closing
  split
  · exact h
  next c hget =>
  split
  · exact h
  simp only []
  obtain ⟨by', hretire⟩ :=
    retire_eq { l with chan := l.chan.set t { c with state := .closing } } t c
  rw [hretire]
  have hclosing : ({ l with
      chan := l.chan.set t { c with state := .closing }, tByMeshId := by' } :
      ChannelLedger).Within p (armed p o) := by
    refine h.rewrite hget rfl rfl rfl fun d hd => ?_
    cases d <;> simp [Row.dir, Chan.inboundUnbound, Chan.outboundPending, ChanState.preOpen] at hd
  split
  · exact hclosing
  next n hn =>
  split
  · exact hclosing.of_used_le fun r => (used_settlePeer _ n t r).le
  · exact hclosing

theorem Within.step_iff (a : Act) :
    (l.step (armed p o) a).Within p (armed p o) ↔ ¬Overfills (armed p o) l a := by
  cases a with
  | reserve cls d now => exact iff_of_true (h.reserve cls d now) id
  | release token =>
    refine iff_of_true (h.of_used_le fun r => ?_) id
    exact Nat.add_le_add_left (countP_filter_le l.res (fun k _ => k ≠ token) r.ofRes) _
  | sweep now => exact iff_of_true (h.of_used_le fun r => used_sweepReservations_le l now r) id
  | reclass t cls after =>
    refine iff_of_true ?_ id
    simp only [step, reclass]
    split
    · exact h
    next c hget =>
    split
    · exact h
    split
    · exact h
    split
    · split
      · exact h.of_used_le fun r => le_of_eq rfl
      · exact h
    next hroom =>
    refine h.setCls hget ?_
    have henforce : (armed p o).enforce = true := rfl
    simpa [henforce] using hroom
  | allocate t m d reservation => exact h.allocate_iff t m d reservation
  | negotiating t =>
    refine iff_of_true ?_ id
    simp only [step, negotiating]
    split
    · exact h
    next c hget =>
    split
    next hstate =>
      refine h.rewrite hget rfl rfl rfl fun d hd => ?_
      cases d <;>
        simpa [Row.dir, Chan.inboundUnbound, Chan.outboundPending, ChanState.preOpen, hstate]
          using hd
    · exact h
  | «open» t =>
    refine iff_of_true ?_ id
    simp only [step, opened]
    split
    · exact h
    next c hget =>
    split
    · refine h.rewrite hget rfl rfl rfl fun d hd => ?_
      cases d <;> simp [Row.dir, Chan.inboundUnbound, Chan.outboundPending, ChanState.preOpen] at hd
    · exact h
  | bind m n =>
    refine iff_of_true ?_ id
    simp only [step, ChannelLedger.bind]
    split
    · exact h
    next t c hcur =>
    split
    · refine h.rewrite (get_of_current hcur) rfl rfl rfl fun d hd => ?_
      cases d with
      | inbound => simp [Row.dir, Chan.inboundUnbound] at hd
      | outbound => exact hd
    · exact h
  | unbind m => exact h.unbind_iff m
  | closing t => exact iff_of_true (h.closing t) id
  | gone t => exact iff_of_true (h.gone t) id

end

theorem within_init : Within p (armed p o) init :=
  within_iff.mpr ⟨fun _ => Nat.zero_le _, Nat.zero_le _, fun _ => Nat.zero_le _⟩

/-! ### What releases capacity -/

/-- The call ends a channel or a reservation that counts. -/
def Releases (cfg : ChannelLedgerConfig) (l : ChannelLedger) : Act → Prop
  | .gone t => l.chan.has t = true
  | .release token => l.res.has token = true
  | .reserve _ _ now | .sweep now => ∃ token x, l.res.get token = some x ∧ expired cfg x now = true
  | _ => False

/-- The call moves a channel from the class to the other one. -/
def MovesFrom (l : ChannelLedger) (k : Cls) : Act → Prop
  | .reclass t cls _ => (l.chan.get t).bind (·.cls) = some k ∧ cls ≠ some k
  | _ => False

/-- Capacity is given back by an end only: in all, and in a class but for a move to the other. -/
structure Charges (cfg : ChannelLedgerConfig) (l : ChannelLedger) (a : Act) : Prop where
  all : (l.step cfg a).chanAll + (l.step cfg a).reservedAll < l.chanAll + l.reservedAll →
    Releases cfg l a
  cls : ∀ k, (l.step cfg a).chargedOf k + (l.step cfg a).reservedOf k
    < l.chargedOf k + l.reservedOf k → Releases cfg l a ∨ MovesFrom l k a

/-- The tokens of the reservations have been given out. -/
def Numbered (l : ChannelLedger) : Prop := ∀ token x, l.res.get token = some x → token ≤ l.resSeq

/-- A row that takes a connection for the reservation it is built with, and asks no more of it than
its class. -/
structure Row.Steady (r : Row) : Prop where
  cls : ∀ c c' : Chan, c.cls = c'.cls → r.ofChan c = r.ofChan c'
  res : ∀ (c : Chan) (x : Reservation), c.cls = x.cls → r.ofChan c = r.ofRes x

theorem Row.steady_all : Row.all.Steady := ⟨fun _ _ _ => rfl, fun _ _ _ => rfl⟩

theorem Row.steady_cls (k : Cls) : (Row.cls k).Steady :=
  ⟨fun c c' h => by simp [Row.cls, h], fun c x h => by simp [Row.cls, h]⟩

section

variable (l : ChannelLedger)

theorem res_applyTransfer (t : ChanToken) (x : ClassMove) :
    (l.applyTransfer cfg t x).res = l.res := by
  unfold applyTransfer
  simp only []
  split
  · rfl
  · split <;> rfl

theorem res_applyPendingReclass (t : ChanToken) :
    (l.applyPendingReclass cfg t).res = l.res := by
  unfold applyPendingReclass
  generalize l.pendingReclass.entries = es
  induction es generalizing l with
  | nil => rfl
  | cons e es ih =>
    rw [List.foldl_cons, ih]
    split
    · exact res_applyTransfer l e.1 e.2
    · rfl

theorem resSeq_settlePeer (n : NodeId) (t : ChanToken) :
    (l.settlePeer n t).resSeq = l.resSeq := by
  unfold settlePeer
  split
  · rfl
  split
  · split <;> rfl
  · rfl

theorem resSeq_applyPendingReclass (t : ChanToken) :
    (l.applyPendingReclass cfg t).resSeq = l.resSeq := by
  unfold applyPendingReclass
  generalize l.pendingReclass.entries = es
  induction es generalizing l with
  | nil => rfl
  | cons e es ih =>
    rw [List.foldl_cons, ih]
    split
    · unfold applyTransfer
      simp only []
      split
      · rfl
      · split <;> rfl
    · rfl

end

/-- What a call does to the reservations: one is added under the next token, or some go. -/
theorem res_step (cfg : ChannelLedgerConfig) (l : ChannelLedger) (a : Act) :
    (∃ x, (l.step cfg a).res = (l.sweepReservations cfg x.at').res.set (l.resSeq + 1) x
      ∧ (l.step cfg a).resSeq = l.resSeq + 1)
    ∨ (∀ token x, (l.step cfg a).res.get token = some x → l.res.get token = some x)
      ∧ (l.step cfg a).resSeq = l.resSeq := by
  have hkeep : ∀ token : ResToken, ∀ x, (l.res.delete token).get token = some x →
      l.res.get token = some x := by simp
  cases a with
  | reserve cls d now =>
    simp only [step, reserve]
    split
    · exact .inr ⟨fun token x h => (get_filter_some.mp h).1, rfl⟩
    · exact .inl ⟨⟨_, d, now⟩, rfl, rfl⟩
  | release token =>
    refine .inr ⟨fun j x h => ?_, rfl⟩
    simp only [step, release] at h
    replace h := of_get_delete h
    exact h
  | sweep now => exact .inr ⟨fun token x h => (get_filter_some.mp h).1, rfl⟩
  | reclass t cls after =>
    refine .inr ?_
    simp only [step, reclass]
    split
    · exact ⟨fun _ _ h => h, rfl⟩
    split
    · exact ⟨fun _ _ h => h, rfl⟩
    split
    · exact ⟨fun _ _ h => h, rfl⟩
    split
    · split
      · exact ⟨fun _ _ h => h, rfl⟩
      · exact ⟨fun _ _ h => h, rfl⟩
    · exact ⟨fun _ _ h => h, rfl⟩
  | allocate t m d reservation =>
    refine .inr ?_
    simp only [step, allocate]
    split
    · exact ⟨fun _ _ h => h, rfl⟩
    split
    · exact ⟨fun _ _ h => h, rfl⟩
    refine ⟨fun token x h => ?_, rfl⟩
    cases reservation with
    | none => exact h
    | some j =>
      simp only [Option.elim_some] at h
      replace h := of_get_delete h
      exact h
  | negotiating t =>
    refine .inr ?_
    simp only [step, negotiating]
    split
    · exact ⟨fun _ _ h => h, rfl⟩
    · split <;> exact ⟨fun _ _ h => h, rfl⟩
  | «open» t =>
    refine .inr ?_
    simp only [step, opened]
    split
    · exact ⟨fun _ _ h => h, rfl⟩
    · split <;> exact ⟨fun _ _ h => h, rfl⟩
  | bind m n =>
    refine .inr ?_
    simp only [step, ChannelLedger.bind]
    split
    · exact ⟨fun _ _ h => h, rfl⟩
    · split <;> exact ⟨fun _ _ h => h, rfl⟩
  | unbind m =>
    refine .inr ?_
    simp only [step, ChannelLedger.unbind]
    split
    · exact ⟨fun _ _ h => h, rfl⟩
    next t c _ =>
    cases c.nodeId with
    | none => exact ⟨fun _ _ h => h, rfl⟩
    | some n =>
      refine ⟨fun token x h => ?_, resSeq_settlePeer _ n t⟩
      rwa [Option.elim_some, res_settlePeer] at h
  | closing t =>
    refine .inr ?_
    simp only [step, ChannelLedger.closing]
    split
    · exact ⟨fun _ _ h => h, rfl⟩
    next c _ =>
    split
    · exact ⟨fun _ _ h => h, rfl⟩
    obtain ⟨by', hretire⟩ :=
      retire_eq { l with chan := l.chan.set t { c with state := .closing } } t c
    rw [hretire]
    split
    · exact ⟨fun _ _ h => h, rfl⟩
    next n _ =>
    split
    · refine ⟨fun token x h => ?_, resSeq_settlePeer _ n t⟩
      rwa [res_settlePeer] at h
    · exact ⟨fun _ _ h => h, rfl⟩
  | gone t =>
    refine .inr ?_
    simp only [step, ChannelLedger.gone]
    split
    · exact ⟨fun _ _ h => h, rfl⟩
    next c _ =>
    rw [res_applyPendingReclass, resSeq_applyPendingReclass]
    obtain ⟨by', hretire⟩ := retire_eq l t c
    rw [hretire]
    cases c.nodeId with
    | none => exact ⟨fun _ _ h => h, rfl⟩
    | some n =>
      refine ⟨fun token x h => ?_, resSeq_settlePeer _ n t⟩
      rwa [Option.elim_some, res_settlePeer] at h

theorem Numbered.step (h : l.Numbered) (a : Act) : (l.step cfg a).Numbered := by
  intro token x hx
  rcases res_step cfg l a with ⟨y, hres, hseq⟩ | ⟨hres, hseq⟩
  · rw [hres, get_set] at hx
    rw [hseq]
    split at hx
    next heq => exact heq.le
    · exact (h token x (get_filter_some.mp hx).1).trans (Nat.le_succ _)
  · rw [hseq]
    exact h token x (hres token x hx)

/-- Where no reservation is overdue, the sweep keeps them all. -/
theorem sweepReservations_eq {now : Int}
    (h : ¬∃ token x, l.res.get token = some x ∧ expired cfg x now = true) :
    l.sweepReservations cfg now = l := by
  unfold sweepReservations
  have hres : (l.res.filter fun _ r => !expired cfg r now) = l.res := by
    refine OrderedMap.ext (List.filter_eq_self.mpr fun e he => ?_)
    cases hexp : expired cfg e.2 now with
    | false => simp [hexp]
    | true => exact (h ⟨e.1, e.2, get_of_mem he, hexp⟩).elim
  rw [hres]

/-- A connection written over with one of its class leaves a steady row as it was. -/
theorem Row.Steady.le_set {by' : OrderedMap MeshId ChanToken} {peer : OrderedMap NodeId ChanToken}
    (hr : r.Steady) (hget : l.chan.get t = some c) (hcls : c'.cls = c.cls) :
    l.used r ≤ ({ l with chan := l.chan.set t c', tByMeshId := by', peer := peer } :
      ChannelLedger).used r := by
  have hset := used_set (s := { l with
    chan := l.chan.set t c', tByMeshId := by', peer := peer }) hget rfl rfl r
  rw [hr.cls c' c hcls] at hset
  omega

/-- A move to a class that the row counts too. -/
theorem used_le_reclass {t : ChanToken} {cls : Option Cls} {after : Option ChanToken}
    (hmove : ∀ c k, l.chan.get t = some c → c.cls ≠ some k → cls = some k →
      r.ofChan c = true → r.ofChan { c with cls := some k } = true) :
    l.used r ≤ (l.reclass cfg t cls after).2.used r := by
  unfold reclass
  split
  · exact le_rfl
  next c hget =>
  split
  · exact le_rfl
  next k =>
  split
  · exact le_rfl
  next hne =>
  split
  · split
    · exact le_of_eq rfl
    · exact le_rfl
  have hset := used_set (s := { l with chan := l.chan.set t { c with cls := some k } }) hget
    rfl rfl r
  show l.used r ≤ ({ l with chan := l.chan.set t { c with cls := some k } } :
    ChannelLedger).used r
  by_cases hcount : r.ofChan c = true
  · rw [if_pos hcount, if_pos (hmove c k hget hne rfl hcount)] at hset
    omega
  · rw [if_neg hcount] at hset
    omega

section

variable (hr : r.Steady)
include hr

/-- A connection takes the place of its reservation. -/
theorem used_le_allocate {t : ChanToken} {m : MeshId} {d : Dir} {reservation : Option ResToken} :
    l.used r ≤ (l.allocate cfg t m d reservation).used r := by
  cases hget : l.chan.get t with
  | some c =>
    unfold allocate
    rw [if_pos (has_iff.mpr ⟨c, hget⟩)]
  | none =>
  cases hx : reservation.bind l.res.get with
  | some x =>
    obtain ⟨token, rfl, hx⟩ := Option.bind_eq_some_iff.mp hx
    have hused : (l.allocate cfg t m d (some token)).used r + (if r.ofRes x then 1 else 0)
        = l.used r + if r.ofChan ⟨m, d, x.cls, .allocated, none, l.seq + 1⟩ then 1 else 0 :=
      used_allocate hget hx r
    rw [hr.res _ x rfl] at hused
    omega
  | none =>
    unfold allocate
    simp only [hx]
    split
    · exact le_rfl
    split
    · exact le_rfl
    -- a connection without a reservation is one more
    have hdelete : reservation.elim l.res l.res.delete = l.res := by
      cases reservation with
      | none => rfl
      | some token => exact delete_of_get_none hx
    unfold used
    simp only [hdelete, countP_set_new hget]
    omega

theorem used_le_unbind {m : MeshId} : l.used r ≤ (l.unbind m).used r := by
  unfold ChannelLedger.unbind
  split
  · exact le_rfl
  next t c htarget =>
  have hget := (of_unbindTarget htarget).1
  cases c.nodeId with
  | none => exact hr.le_set hget rfl
  | some n =>
    rw [Option.elim_some, used_settlePeer]
    exact hr.le_set hget rfl

theorem used_le_closing {t : ChanToken} : l.used r ≤ (l.closing t).used r := by
  simp only [ChannelLedger.closing]
  split
  · exact le_rfl
  next c hget =>
  split
  · exact le_rfl
  obtain ⟨by', hretire⟩ :=
    retire_eq { l with chan := l.chan.set t { c with state := .closing } } t c
  rw [hretire]
  split
  · exact hr.le_set hget rfl
  next n _ =>
  split
  · rw [used_settlePeer]
    exact hr.le_set hget rfl
  · exact hr.le_set hget rfl

/-- **No call gives back what a steady row counts**, but one that ends something, and a move of a
channel to another class. -/
theorem used_le_step (hnum : l.Numbered) {a : Act} (hrel : ¬Releases cfg l a)
    (hmove : ∀ t c k, l.chan.get t = some c → c.cls ≠ some k →
      (∃ after, a = .reclass t (some k) after) →
      r.ofChan c = true → r.ofChan { c with cls := some k } = true) :
    l.used r ≤ (l.step cfg a).used r := by
  cases a with
  | reserve cls d now =>
    simp only [step, reserve, sweepReservations_eq hrel]
    split
    · exact le_rfl
    have hnew : l.res.get (l.resSeq + 1) = none := by
      cases hget : l.res.get (l.resSeq + 1) with
      | none => rfl
      | some x => exact absurd (hnum _ x hget) (Nat.not_succ_le_self _)
    unfold used
    simp only [countP_set_new hnew]
    omega
  | release token =>
    have hnone : l.res.get token = none := by
      simpa [Releases, OrderedMap.has] using hrel
    simp only [step, release, delete_of_get_none hnone]
    exact le_rfl
  | sweep now =>
    simp only [step, sweepReservations_eq hrel]
    exact le_rfl
  | reclass t cls after =>
    exact used_le_reclass fun c k hget hne hcls => hmove t c k hget hne ⟨after, by rw [hcls]⟩
  | allocate t m d reservation => exact used_le_allocate hr
  | negotiating t =>
    simp only [step, negotiating]
    split
    · exact le_rfl
    next c hget =>
    split
    · exact hr.le_set hget rfl
    · exact le_rfl
  | «open» t =>
    simp only [step, opened]
    split
    · exact le_rfl
    next c hget =>
    split
    · exact hr.le_set hget rfl
    · exact le_rfl
  | bind m n =>
    simp only [step, ChannelLedger.bind]
    split
    · exact le_rfl
    next t c hcur =>
    split
    · exact hr.le_set (get_of_current hcur) rfl
    · exact le_rfl
  | unbind m => exact used_le_unbind hr
  | closing t => exact used_le_closing hr
  | gone t =>
    have hnone : l.chan.get t = none := by
      simpa [Releases, OrderedMap.has] using hrel
    simp only [step, ChannelLedger.gone, hnone]
    exact le_rfl

end

theorem Numbered.charges (h : l.Numbered) (a : Act) : Charges cfg l a := by
  refine ⟨fun hlt => ?_, fun k hlt => ?_⟩
  · by_contra hrel
    rw [← used_all, ← used_all] at hlt
    exact absurd (used_le_step Row.steady_all h hrel fun _ _ _ _ _ _ _ => rfl) hlt.not_ge
  · by_cases hrel : Releases cfg l a
    · exact .inl hrel
    refine .inr (by_contra fun hmove => ?_)
    refine absurd (used_le_step (Row.steady_cls k) h hrel ?_) hlt.not_ge
    rintro t c k' hget hne ⟨after, rfl⟩ hc
    have hk : c.cls = some k := by simpa [Row.cls] using hc
    refine absurd ⟨?_, fun heq => hne (hk.trans heq.symm)⟩ hmove
    rw [hget]
    exact hk

/-- **Capacity.** In every run of an armed ledger that enforces its bounds none of them is exceeded
in any state, and capacity is given back by an end only, exactly if no call of the run adds to a row
that is full. -/
theorem within_capacity_iff (p : PoolProfile) (o : ChannelLedgerOptions) (as : List Act) :
    EachStep (step (armed p o)) (fun l a =>
        (l.step (armed p o) a).Within p (armed p o) ∧ Charges (armed p o) l a) init as ↔
      EachStep (step (armed p o)) (fun l a => ¬Overfills (armed p o) l a) init as := by
  refine Iff.trans ?_ (eachStep_keeps_iff (P := fun l => l.Within p (armed p o))
    (fun _ a h => h.step_iff a) within_init as)
  exact eachStep_congr (I := Numbered) (fun _ a h => h.step a)
    (fun _ a h => and_iff_left (h.charges a)) (fun _ _ h => by cases h) as

/-- A profile with room for one inbound negotiation. -/
def narrowProfile : PoolProfile :=
  ⟨2, 2, 4, 1, 1, 0, 0, none, 0, by decide, by decide, by decide, by decide, by decide, by decide,
    by decide⟩

/-- **A binding that is dropped before its channel opened makes one negotiation too many**: a second
one was let in while the first was bound. -/
theorem unbound_past_capacity :
    ¬EachStep (step (armed narrowProfile {})) (fun l a =>
        (l.step (armed narrowProfile {}) a).Within narrowProfile (armed narrowProfile {})
          ∧ Charges (armed narrowProfile {}) l a) init
      [.reserve none .inbound 0, .allocate 1 ['m'] .inbound (some 1), .bind ['m'] 10,
        .reserve none .inbound 1, .allocate 2 ['k'] .inbound (some 2), .unbind ['m']] := by
  rintro ⟨-, -, -, -, -, ⟨hlast, -⟩, -⟩
  have hrow := hlast.inbound
  revert hrow
  decide

end Axona.ChannelLedger
