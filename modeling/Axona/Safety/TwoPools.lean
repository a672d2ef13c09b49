import Axona.Dht.TwoPools
import Axona.Safety.Membership
import Axona.Safety.Survivor
import Axona.Safety.Transfers

/-! # The table agrees with the pools

A peer in the table has its open channel in class `M`, or a move to `M` waits for it. A promotion
that ends as a deficit leaves its peer out with its channel as it was, and none is refused after the
table committed. The node keeps to that in exactly the runs in which no incoming channel without a
waiting move comes to serve a peer of the table, a replacement finds its move granted or put off,
and every move that waited finds room. -/

namespace Axona

open Library OrderedMap

namespace ChannelLedger

variable {cfg : ChannelLedgerConfig} {l l' : ChannelLedger} {t : ChanToken} {m : MeshId} {ch : Chan}

theorem current_eq_some_iff :
    l.current m = some (t, ch) ↔ l.tByMeshId.get m = some t ∧ l.chan.get t = some ch := by
  unfold current
  rw [Option.bind_eq_some_iff]
  constructor
  · rintro ⟨t', ht', h⟩
    obtain ⟨ch', hch', heq⟩ := Option.map_eq_some_iff.mp h
    cases heq
    exact ⟨ht', hch'⟩
  · rintro ⟨ht, hch⟩
    exact ⟨t, ht, by rw [hch]; rfl⟩

/-- The channel that serves the mesh id is open and incoming, and no move waits for it. -/
def Unmanaged (l : ChannelLedger) (m : MeshId) : Prop :=
  ∃ t ch, l.current m = some (t, ch) ∧ ch.state = .open ∧ ch.cls = some .I
    ∧ l.pendingReclass.get t = none

/-- A mesh id is served by a channel of its own, and the moves that wait are to `M`. -/
structure Orderly (l : ChannelLedger) : Prop where
  wired : ∀ m t, l.tByMeshId.get m = some t → ∃ ch, l.chan.get t = some ch ∧ ch.meshId = m
  upward : ∀ t x, l.pendingReclass.get t = some x → x.cls = .M

/-- The ledger stays orderly, and no channel becomes unmanaged. -/
structure Calm (l l' : ChannelLedger) : Prop where
  orderly : l'.Orderly
  unmanaged : ∀ m, l'.Unmanaged m → l.Unmanaged m

namespace Orderly

theorem refl (h : l.Orderly) : l.Calm l := ⟨h, fun _ h => h⟩

/-- A channel is written over under its mesh id. -/
theorem overwrite (h : l.Orderly) {ch' : Chan} (hget : l.chan.get t = some ch)
    (hchan : l'.chan = l.chan.set t ch') (hpending : l'.pendingReclass = l.pendingReclass)
    (hserves : ∀ m t', l'.tByMeshId.get m = some t' → l.tByMeshId.get m = some t')
    (hmesh : ch'.meshId = ch.meshId) : l'.Orderly := by
  refine ⟨fun m t' ht' => ?_, fun t' x hx => ?_⟩
  · obtain ⟨d, hd, hm⟩ := h.wired m t' (hserves m t' ht')
    rw [hchan, get_set]
    by_cases ht : t' = t
    · rw [if_pos ht]
      rw [ht, hget] at hd
      cases hd
      exact ⟨ch', rfl, hmesh.trans hm⟩
    · rw [if_neg ht]
      exact ⟨d, hd, hm⟩
  · rw [hpending] at hx
    exact h.upward t' x hx

/-- It is no more open than it was, nor more incoming. -/
theorem rewrite (h : l.Orderly) {ch' : Chan} (hget : l.chan.get t = some ch)
    (hchan : l'.chan = l.chan.set t ch') (hpending : l'.pendingReclass = l.pendingReclass)
    (hserves : ∀ m t', l'.tByMeshId.get m = some t' → l.tByMeshId.get m = some t')
    (hmesh : ch'.meshId = ch.meshId) (hopen : ch'.state = .open → ch.state = .open)
    (hcls : ch'.cls = some .I → ch.cls = some .I) : l.Calm l' := by
  refine ⟨h.overwrite hget hchan hpending hserves hmesh, ?_⟩
  · rintro m ⟨t', d, hcur, hstate, hd, hnone⟩
    obtain ⟨ht', hget'⟩ := current_eq_some_iff.mp hcur
    rw [hpending] at hnone
    rw [hchan, get_set] at hget'
    by_cases ht : t' = t
    · rw [if_pos ht] at hget'
      cases hget'
      refine ⟨t, ch, current_eq_some_iff.mpr ⟨ht ▸ hserves m t' ht', hget⟩, hopen hstate, hcls hd,
        ht ▸ hnone⟩
    · rw [if_neg ht] at hget'
      exact ⟨t', d, current_eq_some_iff.mpr ⟨hserves m t' ht', hget'⟩, hstate, hd, hnone⟩

/-- No channel, no serving token and no move is touched. -/
theorem congr (h : l.Orderly) (hchan : l'.chan = l.chan) (hby : l'.tByMeshId = l.tByMeshId)
    (hpending : l'.pendingReclass = l.pendingReclass) : l.Calm l' := by
  refine ⟨⟨fun m t ht => ?_, fun t x hx => ?_⟩, ?_⟩
  · rw [hby] at ht
    rw [hchan]
    exact h.wired m t ht
  · rw [hpending] at hx
    exact h.upward t x hx
  · rintro m ⟨t, d, hcur, hrest⟩
    rw [hpending] at hrest
    refine ⟨t, d, ?_, hrest⟩
    obtain ⟨ht, hget⟩ := current_eq_some_iff.mp hcur
    rw [hby] at ht
    rw [hchan] at hget
    exact current_eq_some_iff.mpr ⟨ht, hget⟩

end Orderly

@[simp] theorem tByMeshId_settlePeer (l : ChannelLedger) (n : NodeId) (t : ChanToken) :
    (l.settlePeer n t).tByMeshId = l.tByMeshId := by
  unfold settlePeer
  split
  · rfl
  split
  · split <;> rfl
  · rfl

/-- What is left of the serving tokens when one is retired. -/
theorem tByMeshId_retire {m' : MeshId} {t' : ChanToken}
    (h : (l.retire t ch).tByMeshId.get m' = some t') : l.tByMeshId.get m' = some t' := by
  unfold retire at h
  split at h
  · have hget : (l.tByMeshId.delete ch.meshId).get m' = some t' := h
    exact of_get_delete hget
  · exact h

namespace Orderly

variable (h : l.Orderly)
include h

theorem unbind (m : MeshId) : l.Calm (l.unbind m) := by
  unfold ChannelLedger.unbind
  cases htarget : l.unbindTarget m with
  | none => exact h.refl
  | some x =>
    obtain ⟨t, d⟩ := x
    have hget := (of_unbindTarget htarget).1
    simp only []
    cases d.nodeId with
    | none => exact h.rewrite hget rfl rfl (fun _ _ h => h) rfl (fun h => h) fun h => h
    | some n =>
      refine h.rewrite hget (chan_settlePeer _ n t) (pending_settlePeer _ n t) ?_ rfl (fun h => h)
        fun h => h
      intro m' t' ht'
      have hby : (ChannelLedger.settlePeer { l with chan := l.chan.set t { d with nodeId := none } }
        n t).tByMeshId.get m' = some t' := ht'
      rw [tByMeshId_settlePeer] at hby
      exact hby

theorem bind (m : MeshId) (n : NodeId) : l.Calm (l.bind m n) := by
  unfold ChannelLedger.bind
  cases hcur : l.current m with
  | none => exact h.refl
  | some x =>
    obtain ⟨t, d⟩ := x
    simp only []
    split
    · exact h.rewrite (get_of_current hcur) rfl rfl (fun _ _ h => h) rfl (fun h => h) fun h => h
    · exact h.refl

theorem negotiating (t : ChanToken) : l.Calm (l.negotiating t) := by
  unfold ChannelLedger.negotiating
  cases hget : l.chan.get t with
  | none => exact h.refl
  | some d =>
    simp only []
    split
    · exact h.rewrite hget rfl rfl (fun _ _ h => h) rfl (fun h => by cases h) fun h => h
    · exact h.refl

theorem closing (t : ChanToken) : l.Calm (l.closing t) := by
  unfold ChannelLedger.closing
  cases hget : l.chan.get t with
  | none => exact h.refl
  | some d =>
    simp only []
    split
    · exact h.refl
    have hserves : ∀ m t', (ChannelLedger.retire
        { l with chan := l.chan.set t { d with state := .closing } } t d).tByMeshId.get m
          = some t' → l.tByMeshId.get m = some t' := by
      intro m t' ht'
      have hby := tByMeshId_retire ht'
      exact hby
    obtain ⟨by', hretire⟩ :=
      retire_eq { l with chan := l.chan.set t { d with state := .closing } } t d
    rw [hretire] at hserves ⊢
    cases d.nodeId with
    | none => exact h.rewrite hget rfl rfl hserves rfl (fun h => by cases h) fun h => h
    | some n =>
      simp only []
      split
      · refine h.rewrite hget (chan_settlePeer _ n t) (pending_settlePeer _ n t) ?_ rfl
          (fun h => by cases h) fun h => h
        intro m' t' ht'
        rw [tByMeshId_settlePeer] at ht'
        exact hserves m' t' ht'
      · exact h.rewrite hget rfl rfl hserves rfl (fun h => by cases h) fun h => h

theorem reserve (cls : Option Cls) (d : Dir) (now : Int) :
    l.Calm (l.reserve cfg cls d now).2 := by
  unfold ChannelLedger.reserve
  simp only []
  split <;> exact h.congr rfl rfl rfl

theorem allocate (t : ChanToken) (m : MeshId) (d : Dir) (r : Option ResToken) :
    l.Calm (l.allocate cfg t m d r) := by
  unfold ChannelLedger.allocate
  split
  · exact h.refl
  next hnew =>
  simp only []
  split
  · exact h.refl
  have hfresh : ∀ m', l.tByMeshId.get m' ≠ some t := by
    intro m' ht
    obtain ⟨d', hd', -⟩ := h.wired m' t ht
    exact hnew (has_iff.mpr ⟨d', hd'⟩)
  refine ⟨⟨fun m' t' ht' => ?_, h.upward⟩, ?_⟩
  · rw [get_set] at ht'
    by_cases hm : m' = m
    · rw [if_pos hm] at ht'
      cases ht'
      exact ⟨_, by rw [get_set, if_pos rfl], hm.symm⟩
    rw [if_neg hm] at ht'
    obtain ⟨d', hd', hmesh⟩ := h.wired m' t' ht'
    have hne : t' ≠ t := by
      rintro rfl
      exact hfresh m' ht'
    refine ⟨d', ?_, hmesh⟩
    rw [get_set, if_neg hne]
    exact hd'
  · rintro m' ⟨t', d', hcur, hstate, hcls, hnone⟩
    obtain ⟨ht', hget⟩ := current_eq_some_iff.mp hcur
    rw [get_set] at ht' hget
    by_cases hm : m' = m
    · rw [if_pos hm] at ht'
      cases ht'
      rw [if_pos rfl] at hget
      cases hget
      cases hstate
    · rw [if_neg hm] at ht'
      have hne : t' ≠ t := by
        rintro rfl
        exact hfresh m' ht'
      rw [if_neg hne] at hget
      exact ⟨t', d', current_eq_some_iff.mpr ⟨ht', hget⟩, hstate, hcls, hnone⟩

/-- A request for `M`. -/
theorem reclass (t : ChanToken) (after : Option ChanToken) :
    l.Calm (l.reclass cfg t (some .M) after).2 := by
  unfold ChannelLedger.reclass
  cases hget : l.chan.get t with
  | none => exact h.refl
  | some d =>
    simp only []
    split
    · exact h.refl
    split
    · split
      · next a ha =>
        refine ⟨⟨h.wired, fun t' x hx => ?_⟩, ?_⟩
        · rw [get_set] at hx
          split at hx
          · exact (Option.some.inj hx) ▸ rfl
          · exact h.upward t' x hx
        · rintro m ⟨t', d', hcur, hstate, hcls, hnone⟩
          rw [get_set] at hnone
          split at hnone
          · cases hnone
          · exact ⟨t', d', hcur, hstate, hcls, hnone⟩
      · exact h.refl
    · exact h.rewrite hget rfl rfl (fun _ _ h => h) rfl (fun h => h) fun h => by cases h

end Orderly

/-! ### Channels that open -/

/-- The channel that serves the mesh id is about to open, is incoming, and no move waits for it. -/
def OpensUnmanaged (l : ChannelLedger) (t : ChanToken) (m : MeshId) : Prop :=
  ∃ ch, l.current m = some (t, ch) ∧ ch.state.preOpen = true ∧ ch.cls = some .I
    ∧ l.pendingReclass.get t = none

theorem Orderly.opened (h : l.Orderly) (t : ChanToken) : (l.opened t).Orderly := by
  unfold ChannelLedger.opened
  cases hget : l.chan.get t with
  | none => exact h
  | some d =>
    simp only []
    split
    · exact h.overwrite hget rfl rfl (fun _ _ h => h) rfl
    · exact h

theorem unmanaged_opened : (l.opened t).Unmanaged m ↔ l.Unmanaged m ∨ l.OpensUnmanaged t m := by
  unfold ChannelLedger.opened
  cases hget : l.chan.get t with
  | none =>
    refine ⟨.inl, fun h => h.resolve_right ?_⟩
    rintro ⟨ch, hcur, -⟩
    rw [(current_eq_some_iff.mp hcur).2] at hget
    cases hget
  | some d =>
    simp only []
    by_cases hpre : d.state.preOpen = true
    · rw [if_pos hpre]
      constructor
      · rintro ⟨t', d', hcur, hstate, hcls, hnone⟩
        obtain ⟨ht', hget'⟩ := current_eq_some_iff.mp hcur
        rw [get_set] at hget'
        by_cases ht : t' = t
        · rw [if_pos ht] at hget'
          cases hget'
          refine .inr ⟨d, current_eq_some_iff.mpr ⟨ht ▸ ht', hget⟩, hpre, hcls, ht ▸ hnone⟩
        · rw [if_neg ht] at hget'
          exact .inl ⟨t', d', current_eq_some_iff.mpr ⟨ht', hget'⟩, hstate, hcls, hnone⟩
      · rintro (⟨t', d', hcur, hstate, hcls, hnone⟩ | ⟨d', hcur, -, hcls, hnone⟩)
        · obtain ⟨ht', hget'⟩ := current_eq_some_iff.mp hcur
          have hne : t' ≠ t := by
            rintro rfl
            cases hget.symm.trans hget'
            rw [hstate] at hpre
            cases hpre
          refine ⟨t', d', current_eq_some_iff.mpr ⟨ht', ?_⟩, hstate, hcls, hnone⟩
          rw [get_set, if_neg hne]
          exact hget'
        · obtain ⟨ht', hget'⟩ := current_eq_some_iff.mp hcur
          cases hget.symm.trans hget'
          refine ⟨t, { d with state := .open }, current_eq_some_iff.mpr ⟨ht', ?_⟩, rfl, hcls, hnone⟩
          rw [get_set, if_pos rfl]
    · rw [if_neg hpre]
      refine ⟨.inl, fun h => h.resolve_right ?_⟩
      rintro ⟨d', hcur, hpre', -⟩
      cases hget.symm.trans (current_eq_some_iff.mp hcur).2
      exact hpre hpre'

/-! ### Moves that waited -/

/-- A serving token is left where its channel is. -/
theorem tByMeshId_depart (h : l.Orderly) (hget : l.chan.get t = some ch) {t' : ChanToken} :
    (l.depart t ch).tByMeshId.get m = some t' ↔ l.tByMeshId.get m = some t' ∧ t' ≠ t := by
  have hdepart : (l.depart t ch).tByMeshId = (l.retire t ch).tByMeshId := by
    unfold depart
    cases ch.nodeId with
    | none => rfl
    | some n => exact tByMeshId_settlePeer _ n t
  rw [hdepart]
  unfold retire
  constructor
  · intro ht'
    refine ⟨tByMeshId_retire (by unfold retire; exact ht'), ?_⟩
    rintro rfl
    split at ht'
    · next hserves =>
      have hdelete : (l.tByMeshId.delete ch.meshId).get m = some t' := ht'
      rw [get_delete] at hdelete
      split at hdelete
      · cases hdelete
      next hm =>
      obtain ⟨d, hd, hmesh⟩ := h.wired m t' hdelete
      cases hget.symm.trans hd
      exact hm hmesh.symm
    next hserves =>
    obtain ⟨d, hd, rfl⟩ := h.wired m t' ht'
    cases hget.symm.trans hd
    exact hserves ht'
  · rintro ⟨ht', hne⟩
    split
    · next hserves =>
      show (l.tByMeshId.delete ch.meshId).get m = some t'
      rw [get_delete, if_neg]
      · exact ht'
      · rintro rfl
        exact hne (Option.some.inj (ht'.symm.trans hserves))
    · exact ht'

theorem Orderly.depart (h : l.Orderly) (hget : l.chan.get t = some ch) :
    (l.depart t ch).Orderly := by
  refine ⟨fun m t' ht' => ?_, fun t' x hx => ?_⟩
  · obtain ⟨ht', hne⟩ := (tByMeshId_depart h hget).mp ht'
    obtain ⟨d, hd, hmesh⟩ := h.wired m t' ht'
    refine ⟨d, ?_, hmesh⟩
    rw [chan_depart, get_delete, if_neg hne]
    exact hd
  · rw [pending_depart] at hx
    exact h.upward t' x (of_get_delete hx)

/-- The transfers that waited for a channel, one after the other. -/
def applyEach (cfg : ChannelLedgerConfig) (a : ChanToken) (l : ChannelLedger)
    (es : List (ChanToken × ClassMove)) : ChannelLedger :=
  es.foldl (fun l e => if e.2.after = a then l.applyTransfer cfg e.1 e.2 else l) l

/-- The transfer takes a place of `M`: its channel is there, and in another class. -/
def takesPlace (l : ChannelLedger) (a : ChanToken) (e : ChanToken × ClassMove) : Bool :=
  decide (e.2.after = a) && (l.chan.get e.1).any fun ch => decide (ch.cls ≠ some .M)

/-- How many places of `M` are taken by the transfers that come before a channel's. -/
def takenBefore (l : ChannelLedger) (a : ChanToken) (es : List (ChanToken × ClassMove))
    (t : ChanToken) : Nat :=
  (es.takeWhile fun e => decide (e.1 ≠ t)).countP (l.takesPlace a)

/-- The transfer of a channel finds room in `M`, after those before it. -/
def FindsPlace (cfg : ChannelLedgerConfig) (l : ChannelLedger) (a t : ChanToken) : Prop :=
  ∀ p ∈ cfg.pools, l.used (.cls .M) + l.takenBefore a l.pendingReclass.entries t < p.size .M

variable {p : PoolProfile} {a : ChanToken} {e : ChanToken × ClassMove}

theorem classFull_eq (hp : cfg.pools = some p) (l : ChannelLedger) (k : Cls) :
    l.classFull cfg k = decide (p.size k ≤ l.used (.cls k)) := by
  unfold classFull
  rw [hp]
  rfl

/-- What applying a transfer to `M` leaves of a channel. -/
theorem get_applyTransfer (hup : e.2.cls = .M) (t : ChanToken) :
    (l.applyTransfer cfg e.1 e.2).chan.get t =
      (l.chan.get t).map fun ch =>
        if t = e.1 ∧ l.classFull cfg .M = false then { ch with cls := some .M } else ch := by
  unfold applyTransfer
  rw [hup]
  simp only []
  cases hget : l.chan.get e.1 with
  | none =>
    by_cases ht : t = e.1
    · rw [ht, hget]
      rfl
    · simp [ht]
  | some d =>
    have hfull : classFull cfg { l with pendingReclass := l.pendingReclass.delete e.1 } .M
      = l.classFull cfg .M := rfl
    rw [hfull]
    cases l.classFull cfg .M with
    | true => simp
    | false =>
      by_cases ht : t = e.1
      · rw [ht, hget]
        simp
      · simp [ht]

/-- The places of `M` after a transfer. -/
theorem used_applyTransfer (hp : cfg.pools = some p) (hup : e.2.cls = .M) (hafter : e.2.after = a) :
    (l.applyTransfer cfg e.1 e.2).used (.cls .M) = l.used (.cls .M) +
      if l.used (.cls .M) < p.size .M ∧ l.takesPlace a e = true then 1 else 0 := by
  unfold applyTransfer takesPlace
  rw [hup, hafter]
  simp only []
  cases hget : l.chan.get e.1 with
  | none => simp [used]
  | some d =>
    have hfull : classFull cfg { l with pendingReclass := l.pendingReclass.delete e.1 } .M
      = l.classFull cfg .M := rfl
    simp only [hfull, classFull_eq hp]
    by_cases hroom : p.size .M ≤ l.used (.cls .M)
    · rw [decide_eq_true hroom, if_pos rfl, if_neg fun h => not_lt.mpr hroom h.1]
      rfl
    rw [decide_eq_false hroom, if_neg Bool.false_ne_true]
    have hset := used_set (s := { l with
      pendingReclass := l.pendingReclass.delete e.1
      chan := l.chan.set e.1 { d with cls := some .M } }) hget rfl rfl (.cls .M)
    have hnew : (Row.cls .M).ofChan { d with cls := some .M } = true :=
      show decide (some Cls.M = some Cls.M) = true from rfl
    rw [if_pos hnew] at hset
    by_cases hd : d.cls = some .M
    · have hold : (Row.cls .M).ofChan d = true := decide_eq_true hd
      rw [if_pos hold] at hset
      rw [if_neg fun h => absurd h.2 (by simp [hd])]
      omega
    · have hold : ¬(Row.cls .M).ofChan d = true := fun h => hd (of_decide_eq_true h)
      rw [if_neg hold] at hset
      rw [if_pos ⟨not_le.mp hroom, by simp [hd]⟩]
      omega

/-- A transfer of another channel leaves the others where they are. -/
theorem takesPlace_applyTransfer (hup : e.2.cls = .M) {e' : ChanToken × ClassMove}
    (hne : e'.1 ≠ e.1) : (l.applyTransfer cfg e.1 e.2).takesPlace a e' = l.takesPlace a e' := by
  unfold takesPlace
  rw [get_applyTransfer hup, Option.any_map]
  congr 2
  funext ch
  rw [if_neg fun h => hne h.1]

theorem takenBefore_cons (hne : e.1 ≠ t) (es : List (ChanToken × ClassMove)) :
    l.takenBefore a (e :: es) t =
      (if l.takesPlace a e = true then 1 else 0) + l.takenBefore a es t := by
  unfold takenBefore
  rw [List.takeWhile_cons, if_pos (decide_eq_true hne), List.countP_cons, Nat.add_comm]

theorem takenBefore_head (es : List (ChanToken × ClassMove)) :
    l.takenBefore a (e :: es) e.1 = 0 := by
  unfold takenBefore
  rw [List.takeWhile_cons_of_neg (by simp)]
  rfl

theorem takenBefore_applyTransfer (hup : e.2.cls = .M) {es : List (ChanToken × ClassMove)}
    (hnew : e.1 ∉ es.map Prod.fst) (t : ChanToken) :
    (l.applyTransfer cfg e.1 e.2).takenBefore a es t = l.takenBefore a es t := by
  refine List.countP_congr fun e' he' => ?_
  rw [takesPlace_applyTransfer hup]
  rintro heq
  exact hnew (List.mem_map.mpr ⟨e', (List.takeWhile_sublist _).subset he', heq⟩)

/-- What each channel is after the transfers: one of `M` if its transfer was among them and found
room, and as it was if not. -/
theorem get_applyEach (hp : cfg.pools = some p) (a : ChanToken) {es : List (ChanToken × ClassMove)}
    (hnodup : (es.map Prod.fst).Nodup) (hup : ∀ e ∈ es, e.2.cls = .M) (t : ChanToken) :
    (∀ x, (t, x) ∈ es → x.after = a → (applyEach cfg a l es).chan.get t =
      (l.chan.get t).map fun ch =>
        if l.used (.cls .M) + l.takenBefore a es t < p.size .M then { ch with cls := some .M }
        else ch)
      ∧ ((∀ x, (t, x) ∈ es → x.after ≠ a) →
        (applyEach cfg a l es).chan.get t = l.chan.get t) := by
  induction es generalizing l with
  | nil => exact ⟨fun x hx => (by cases hx), fun _ => rfl⟩
  | cons e es ih =>
    obtain ⟨hhead, hnodup⟩ := List.nodup_cons.mp hnodup
    have hup' : ∀ e' ∈ es, e'.2.cls = .M := fun e' he' => hup e' (List.mem_cons_of_mem _ he')
    have hue : e.2.cls = .M := hup e List.mem_cons_self
    by_cases hafter : e.2.after = a
    · have hstep : applyEach cfg a l (e :: es)
          = applyEach cfg a (l.applyTransfer cfg e.1 e.2) es := by
        unfold applyEach
        rw [List.foldl_cons, if_pos hafter]
      rw [hstep]
      obtain ⟨ihin, ihout⟩ := ih (l := l.applyTransfer cfg e.1 e.2) hnodup hup'
      have hother : t ≠ e.1 → (l.applyTransfer cfg e.1 e.2).chan.get t = l.chan.get t := by
        intro hne
        rw [get_applyTransfer hue]
        simp [hne]
      refine ⟨fun x hx hxa => ?_, fun hout => ?_⟩
      · rcases List.mem_cons.mp hx with rfl | hx
        · have hrest : ∀ x', (t, x') ∈ es → x'.after ≠ a := fun x' hx' =>
            absurd (List.mem_map.mpr ⟨_, hx', rfl⟩) hhead
          rw [ihout hrest, takenBefore_head, get_applyTransfer hue, classFull_eq hp]
          simp [not_le]
        have hne : t ≠ e.1 := by
          rintro rfl
          exact hhead (List.mem_map.mpr ⟨_, hx, rfl⟩)
        rw [ihin x hx hxa, hother hne, takenBefore_applyTransfer hue hhead,
          takenBefore_cons hne.symm, used_applyTransfer hp hue hafter]
        have hiff : ∀ n : Nat, (l.used (.cls .M)
              + (if l.used (.cls .M) < p.size .M ∧ l.takesPlace a e = true then 1 else 0)
              + n < p.size .M)
            ↔ l.used (.cls .M) + ((if l.takesPlace a e = true then 1 else 0) + n)
              < p.size .M := by
          intro n
          by_cases htakes : l.takesPlace a e = true
          · by_cases hroom : l.used (.cls .M) < p.size .M
            · rw [if_pos ⟨hroom, htakes⟩, if_pos htakes]
              omega
            · rw [if_neg fun h => hroom h.1, if_pos htakes]
              omega
          · rw [if_neg fun h => htakes h.2, if_neg htakes]
            omega
        simp only [hiff]
      · have hne : t ≠ e.1 := by
          rintro rfl
          exact hout e.2 List.mem_cons_self hafter
        rw [ihout fun x hx => hout x (List.mem_cons_of_mem _ hx), hother hne]
    · have hstep : applyEach cfg a l (e :: es) = applyEach cfg a l es := by
        unfold applyEach
        rw [List.foldl_cons, if_neg hafter]
      rw [hstep]
      obtain ⟨ihin, ihout⟩ := ih (l := l) hnodup hup'
      refine ⟨fun x hx hxa => ?_, fun hout => ihout fun x hx => hout x (List.mem_cons_of_mem _ hx)⟩
      rcases List.mem_cons.mp hx with rfl | hx
      · exact absurd hxa hafter
      have hne : e.1 ≠ t := by
        rintro rfl
        exact hhead (List.mem_map.mpr ⟨_, hx, rfl⟩)
      have hskip : ¬l.takesPlace a e = true := by
        unfold takesPlace
        simp [hafter]
      rw [ihin x hx hxa, takenBefore_cons hne, if_neg hskip, Nat.zero_add]

theorem tByMeshId_applyTransfer (l : ChannelLedger) (t : ChanToken) (x : ClassMove) :
    (l.applyTransfer cfg t x).tByMeshId = l.tByMeshId := by
  unfold applyTransfer
  simp only []
  split
  · rfl
  · split <;> rfl

theorem tByMeshId_applyEach (a : ChanToken) (es : List (ChanToken × ClassMove)) :
    (applyEach cfg a l es).tByMeshId = l.tByMeshId := by
  induction es generalizing l with
  | nil => rfl
  | cons e es ih =>
    unfold applyEach
    rw [List.foldl_cons]
    refine ih.trans ?_
    split
    · exact tByMeshId_applyTransfer l e.1 e.2
    · rfl

/-- The transfers that waited for the channel wait no more. -/
theorem pending_applyEach (a : ChanToken) (es : List (ChanToken × ClassMove)) (t : ChanToken) :
    (applyEach cfg a l es).pendingReclass.get t =
      if ∃ e ∈ es, e.1 = t ∧ e.2.after = a then none else l.pendingReclass.get t := by
  induction es generalizing l with
  | nil => simp [applyEach]
  | cons e es ih =>
    unfold applyEach
    rw [List.foldl_cons]
    refine ih.trans ?_
    by_cases hrest : ∃ e ∈ es, e.1 = t ∧ e.2.after = a
    · obtain ⟨e', he', hwaits⟩ := hrest
      rw [if_pos ⟨e', he', hwaits⟩, if_pos ⟨e', List.mem_cons_of_mem e he', hwaits⟩]
    rw [if_neg hrest]
    by_cases hhead : e.1 = t ∧ e.2.after = a
    · rw [if_pos hhead.2, pending_applyTransfer, get_delete, if_pos hhead.1.symm,
        if_pos ⟨e, List.mem_cons_self, hhead⟩]
    have hnone : ¬∃ e' ∈ e :: es, e'.1 = t ∧ e'.2.after = a := by
      rintro ⟨e', he', hwaits⟩
      rcases List.mem_cons.mp he' with rfl | he'
      · exact hhead hwaits
      · exact hrest ⟨e', he', hwaits⟩
    rw [if_neg hnone]
    by_cases hafter : e.2.after = a
    · have hne : t ≠ e.1 := by
        rintro rfl
        exact hhead ⟨rfl, hafter⟩
      rw [if_pos hafter, pending_applyTransfer, get_delete, if_neg hne]
    · rw [if_neg hafter]

/-- What a channel's going leaves of another channel. The one whose move waited for it has no move
waiting any more, and is of class `M` if it found a place. -/
theorem get_gone (h : l.Orderly) (hp : cfg.pools = some p) {c : Chan} (hget : l.chan.get a = some c)
    (hne : t ≠ a) :
    (∀ x, l.pendingReclass.get t = some x → x.after = a →
      (l.gone cfg a).pendingReclass.get t = none
        ∧ (FindsPlace cfg (l.depart a c) a t → ∀ ch, l.chan.get t = some ch →
          (l.gone cfg a).chan.get t = some { ch with cls := some .M })
        ∧ (¬FindsPlace cfg (l.depart a c) a t → (l.gone cfg a).chan.get t = l.chan.get t))
      ∧ ((∀ x, l.pendingReclass.get t = some x → x.after ≠ a) →
        (l.gone cfg a).pendingReclass.get t = l.pendingReclass.get t
          ∧ (l.gone cfg a).chan.get t = l.chan.get t) := by
  have hchan : (l.depart a c).chan.get t = l.chan.get t := by
    rw [chan_depart, get_delete, if_neg hne]
  have hpending : (l.depart a c).pendingReclass.get t = l.pendingReclass.get t := by
    rw [pending_depart, get_delete, if_neg hne]
  have hwaits : ∀ x, (t, x) ∈ (l.depart a c).pendingReclass.entries ↔
      l.pendingReclass.get t = some x := by
    intro x
    rw [← hpending]
    exact ⟨get_of_mem, mem_of_get⟩
  have hup : ∀ e ∈ (l.depart a c).pendingReclass.entries, e.2.cls = .M := fun e he =>
    (h.depart hget).upward e.1 e.2 (get_of_mem he)
  have hgone : l.gone cfg a
      = applyEach cfg a (l.depart a c) (l.depart a c).pendingReclass.entries := gone_of_get hget
  obtain ⟨hin, hout⟩ := get_applyEach (l := l.depart a c) hp a
    (l.depart a c).pendingReclass.keys_nodup hup t
  rw [hgone, pending_applyEach, hpending]
  constructor
  · intro x hx hafter
    have hmem := (hwaits x).mpr hx
    have heach := hin x hmem hafter
    rw [hchan] at heach
    refine ⟨if_pos ⟨(t, x), hmem, rfl, hafter⟩, fun hplace ch hch => ?_, fun hplace => ?_⟩
    · rw [heach, hch, Option.map_some, if_pos (hplace p hp)]
    · rw [heach]
      have hfull : ¬(l.depart a c).used (.cls .M)
          + (l.depart a c).takenBefore a (l.depart a c).pendingReclass.entries t < p.size .M := by
        intro hlt
        refine hplace fun p' hp' => ?_
        rw [hp] at hp'
        exact (Option.some.inj hp') ▸ hlt
      simp [hfull]
  · intro hnot
    have hnone : ¬∃ e ∈ (l.depart a c).pendingReclass.entries, e.1 = t ∧ e.2.after = a := by
      rintro ⟨⟨t', x⟩, hmem, rfl, hafter⟩
      exact hnot x ((hwaits x).mp hmem) hafter
    refine ⟨if_neg hnone, ?_⟩
    rw [hout fun x hx => hnot x ((hwaits x).mp hx), hchan]

theorem tByMeshId_gone {c : Chan} (hget : l.chan.get a = some c) :
    (l.gone cfg a).tByMeshId = (l.depart a c).tByMeshId := by
  rw [gone_of_get hget]
  exact tByMeshId_applyEach a _

theorem Orderly.gone (h : l.Orderly) (hp : cfg.pools = some p) (a : ChanToken) :
    (l.gone cfg a).Orderly := by
  cases hget : l.chan.get a with
  | none =>
    rw [gone_of_none hget]
    exact h
  | some c =>
    have hdepart := h.depart hget
    refine ⟨fun m t ht => ?_, fun t x hx => ?_⟩
    · rw [tByMeshId_gone hget] at ht
      obtain ⟨ht, hne⟩ := (tByMeshId_depart h hget).mp ht
      obtain ⟨d, hd, hmesh⟩ := h.wired m t ht
      obtain ⟨hin, hout⟩ := get_gone (t := t) h hp hget hne
      by_cases hwaits : ∃ x, l.pendingReclass.get t = some x ∧ x.after = a
      · obtain ⟨x, hx, hafter⟩ := hwaits
        obtain ⟨-, hplace, hnone⟩ := hin x hx hafter
        by_cases hfinds : FindsPlace cfg (l.depart a c) a t
        · exact ⟨_, hplace hfinds d hd, hmesh⟩
        · exact ⟨d, (hnone hfinds).trans hd, hmesh⟩
      · have hsame := (hout fun x hx hafter => hwaits ⟨x, hx, hafter⟩).2
        exact ⟨d, hsame.trans hd, hmesh⟩
    · rw [gone_of_get hget] at hx
      have hx' : (applyEach cfg a (l.depart a c)
          (l.depart a c).pendingReclass.entries).pendingReclass.get t = some x := hx
      rw [pending_applyEach] at hx'
      split at hx'
      · cases hx'
      · exact hdepart.upward t x hx'

/-- The channel that serves the mesh id is open and incoming, and its move, which waits for `a`,
finds no room. -/
def MissesPlace (cfg : ChannelLedgerConfig) (l : ChannelLedger) (a : ChanToken) (m : MeshId) :
    Prop :=
  ∃ c t ch x, l.chan.get a = some c ∧ t ≠ a ∧ l.current m = some (t, ch) ∧ ch.state = .open
    ∧ ch.cls = some .I ∧ l.pendingReclass.get t = some x ∧ x.after = a
    ∧ ¬FindsPlace cfg (l.depart a c) a t

/-- A channel that goes leaves no other unmanaged but those whose move finds no room. -/
theorem unmanaged_gone (h : l.Orderly) (hp : cfg.pools = some p) (hm : (l.gone cfg a).Unmanaged m) :
    l.Unmanaged m ∨ l.MissesPlace cfg a m := by
  obtain ⟨t, ch, hcur, hstate, hcls, hnone⟩ := hm
  cases hget : l.chan.get a with
  | none =>
    rw [gone_of_none hget] at hcur hnone
    exact .inl ⟨t, ch, hcur, hstate, hcls, hnone⟩
  | some c =>
    obtain ⟨ht, hch⟩ := current_eq_some_iff.mp hcur
    rw [tByMeshId_gone hget] at ht
    obtain ⟨ht, hne⟩ := (tByMeshId_depart h hget).mp ht
    obtain ⟨hin, hout⟩ := get_gone (t := t) h hp hget hne
    by_cases hwaits : ∃ x, l.pendingReclass.get t = some x ∧ x.after = a
    · obtain ⟨x, hx, hafter⟩ := hwaits
      obtain ⟨-, hplace, hsame⟩ := hin x hx hafter
      by_cases hfinds : FindsPlace cfg (l.depart a c) a t
      · obtain ⟨d, hd, -⟩ := h.wired m t ht
        rw [hplace hfinds d hd] at hch
        cases hch
        cases hcls
      · rw [hsame hfinds] at hch
        exact .inr ⟨c, t, ch, x, hget, hne, current_eq_some_iff.mpr ⟨ht, hch⟩, hstate, hcls, hx,
          hafter, hfinds⟩
    · obtain ⟨hpending, hsame⟩ := hout fun x hx hafter => hwaits ⟨x, hx, hafter⟩
      rw [hpending] at hnone
      rw [hsame] at hch
      exact .inl ⟨t, ch, current_eq_some_iff.mpr ⟨ht, hch⟩, hstate, hcls, hnone⟩

theorem unmanaged_of_missesPlace (h : l.Orderly) (hp : cfg.pools = some p)
    (hm : l.MissesPlace cfg a m) : (l.gone cfg a).Unmanaged m := by
  obtain ⟨c, t, ch, x, hget, hne, hcur, hstate, hcls, hx, hafter, hfinds⟩ := hm
  obtain ⟨ht, hch⟩ := current_eq_some_iff.mp hcur
  obtain ⟨hnone, -, hsame⟩ := (get_gone (t := t) h hp hget hne).1 x hx hafter
  refine ⟨t, ch, current_eq_some_iff.mpr ⟨?_, (hsame hfinds).trans hch⟩, hstate, hcls, hnone⟩
  rw [tByMeshId_gone hget]
  exact (tByMeshId_depart h hget).mpr ⟨ht, hne⟩

/-! ### A request that is granted -/

/-- A request for `M` is granted where the channel is of `M` already, or `M` has room. -/
def Grants (cfg : ChannelLedgerConfig) (l : ChannelLedger) (ch : Chan) : Prop :=
  ch.cls = some .M ∨ ∀ p ∈ cfg.pools, l.used (.cls .M) < p.size .M

/-- A request for `M` may wait where it names another channel that is of `M`. -/
def PutsOff (l : ChannelLedger) (t : ChanToken) (after : Option ChanToken) : Prop :=
  ∃ a, after = some a ∧ a ≠ t ∧ ∃ d, l.chan.get a = some d ∧ d.cls = some .M

/-- The three answers to a request for `M`. -/
theorem answer_reclass (hp : cfg.pools = some p) (henforce : cfg.enforce = true)
    (hget : l.chan.get t = some ch) (after : Option ChanToken) :
    ((l.reclass cfg t (some .M) after).1.answer = .ok ↔ l.Grants cfg ch)
      ∧ ((l.reclass cfg t (some .M) after).1.answer = .refused ↔
        ¬l.Grants cfg ch ∧ ¬l.PutsOff t after) := by
  have hgrants : l.Grants cfg ch ↔ ch.cls = some .M ∨ l.used (.cls .M) < p.size .M := by
    unfold Grants
    rw [hp]
    simp
  rw [hgrants]
  unfold ChannelLedger.reclass
  rw [hget]
  simp only []
  by_cases hcls : ch.cls = some .M
  · simp [hcls, Reclassed.answer]
  rw [if_neg hcls, henforce, classFull_eq hp, Bool.and_true]
  by_cases hroom : l.used (.cls .M) < p.size .M
  · rw [if_neg (by simpa using hroom)]
    simp [hroom, Reclassed.answer]
  rw [if_pos (by simpa using hroom)]
  cases hafter : after.filter fun a =>
    decide (a ≠ t) && (l.chan.get a).any (·.cls = some Cls.M) with
  | some a =>
    have hputs : l.PutsOff t after := by
      obtain ⟨rfl, ha⟩ := Option.filter_eq_some_iff.mp hafter
      rw [Bool.and_eq_true, decide_eq_true_eq] at ha
      obtain ⟨d, hd, hM⟩ := (Option.any_eq_true _ _).mp ha.2
      exact ⟨a, rfl, ha.1, d, hd, of_decide_eq_true hM⟩
    simp [hcls, hroom, hputs, Reclassed.answer]
  | none =>
    have hputs : ¬l.PutsOff t after := by
      rintro ⟨a, rfl, hne, d, hd, hM⟩
      simp [Option.filter, hne, hd, hM] at hafter
    simp [hcls, hroom, hputs, Reclassed.answer]

/-- A request that is not refused leaves the channel managed. -/
theorem not_unmanaged_reclass (hby : l.tByMeshId.get m = some t) {after : Option ChanToken}
    (hanswer : (l.reclass cfg t (some .M) after).1.answer ≠ .refused) :
    ¬(l.reclass cfg t (some .M) after).2.Unmanaged m := by
  unfold ChannelLedger.reclass at hanswer ⊢
  cases hget : l.chan.get t with
  | none =>
    rw [hget] at hanswer
    exact absurd rfl hanswer
  | some ch =>
    rw [hget] at hanswer
    simp only [] at hanswer ⊢
    rintro ⟨t', d, hcur, -, hcls, hnone⟩
    obtain ⟨ht', hd⟩ := current_eq_some_iff.mp hcur
    split at ht'
    · next hM =>
      rw [if_pos hM] at hd
      cases hby.symm.trans ht'
      cases hget.symm.trans hd
      rw [hM] at hcls
      cases hcls
    next hM =>
    rw [if_neg hM] at hanswer hd hnone
    split at ht'
    · next hfull =>
      rw [if_pos hfull] at hanswer hd hnone
      cases hafter : after.filter fun a =>
        decide (a ≠ t) && (l.chan.get a).any (·.cls = some Cls.M) with
      | none =>
        rw [hafter] at hanswer
        exact absurd rfl hanswer
      | some a =>
        rw [hafter] at ht' hnone
        cases hby.symm.trans ht'
        have hset : (l.pendingReclass.set t ⟨.M, a⟩).get t = none := hnone
        rw [get_set, if_pos rfl] at hset
        cases hset
    · next hfull =>
      rw [if_neg hfull] at hd
      cases hby.symm.trans ht'
      have hset : (l.chan.set t { ch with cls := some .M }).get t = some d := hd
      rw [get_set, if_pos rfl] at hset
      cases hset
      cases hcls

/-! ### Channels that stay unmanaged -/

/-- Another channel is written over, or this one with its class and state. -/
theorem Unmanaged.overwrite (hm : l.Unmanaged m) {ch' : Chan} (hget : l.chan.get t = some ch)
    (hchan : l'.chan = l.chan.set t ch') (hpending : l'.pendingReclass = l.pendingReclass)
    (hserves : l'.tByMeshId.get m = l.tByMeshId.get m)
    (hkeep : l.tByMeshId.get m = some t → ch'.state = ch.state ∧ ch'.cls = ch.cls) :
    l'.Unmanaged m := by
  obtain ⟨t', d, hcur, hstate, hcls, hnone⟩ := hm
  obtain ⟨ht', hd⟩ := current_eq_some_iff.mp hcur
  rw [← hpending] at hnone
  by_cases ht : t' = t
  · obtain rfl := ht
    cases hget.symm.trans hd
    obtain ⟨hs, hc⟩ := hkeep ht'
    refine ⟨t', ch', current_eq_some_iff.mpr ⟨hserves.trans ht', ?_⟩, hs.trans hstate,
      hc.trans hcls, hnone⟩
    rw [hchan, get_set, if_pos rfl]
  · refine ⟨t', d, current_eq_some_iff.mpr ⟨hserves.trans ht', ?_⟩, hstate, hcls, hnone⟩
    rw [hchan, get_set, if_neg ht]
    exact hd

theorem Unmanaged.bind (hm : l.Unmanaged m) (m' : MeshId) (n : NodeId) :
    (l.bind m' n).Unmanaged m := by
  unfold ChannelLedger.bind
  cases hcur : l.current m' with
  | none => exact hm
  | some x =>
    obtain ⟨t, d⟩ := x
    simp only []
    split
    · exact hm.overwrite (get_of_current hcur) rfl rfl rfl fun _ => ⟨rfl, rfl⟩
    · exact hm

theorem Unmanaged.unbind (hm : l.Unmanaged m) (m' : MeshId) : (l.unbind m').Unmanaged m := by
  unfold ChannelLedger.unbind
  cases htarget : l.unbindTarget m' with
  | none => exact hm
  | some x =>
    obtain ⟨t, d⟩ := x
    have hget := (of_unbindTarget htarget).1
    simp only []
    cases d.nodeId with
    | none => exact hm.overwrite hget rfl rfl rfl fun _ => ⟨rfl, rfl⟩
    | some n =>
      refine hm.overwrite hget (chan_settlePeer _ n t) (pending_settlePeer _ n t) ?_
        fun _ => ⟨rfl, rfl⟩
      exact congrArg (·.get m) (tByMeshId_settlePeer _ n t)

/-- The channel that closes serves another mesh id. -/
theorem Unmanaged.closing (h : l.Orderly) (hm : l.Unmanaged m) {m' : MeshId}
    (hcur : l.current m' = some (t, ch)) (hne : m ≠ m') : (l.closing t).Unmanaged m := by
  obtain ⟨ht, hget⟩ := current_eq_some_iff.mp hcur
  have hmesh : ch.meshId = m' := by
    obtain ⟨d, hd, hmesh⟩ := h.wired m' t ht
    cases hget.symm.trans hd
    exact hmesh
  have hother : l.tByMeshId.get m ≠ some t := by
    intro htm
    obtain ⟨d, hd, hmesh'⟩ := h.wired m t htm
    cases hget.symm.trans hd
    exact hne (hmesh'.symm.trans hmesh)
  unfold ChannelLedger.closing
  rw [hget]
  simp only []
  split
  · exact hm
  have hserves : (ChannelLedger.retire
      { l with chan := l.chan.set t { ch with state := .closing } } t ch).tByMeshId.get m
        = l.tByMeshId.get m := by
    unfold ChannelLedger.retire
    split
    · show (l.tByMeshId.delete ch.meshId).get m = l.tByMeshId.get m
      rw [get_delete, if_neg]
      rintro rfl
      exact hne hmesh
    · rfl
  obtain ⟨by', hretire⟩ :=
    retire_eq { l with chan := l.chan.set t { ch with state := .closing } } t ch
  rw [hretire] at hserves ⊢
  have hkeep : l.tByMeshId.get m = some t → ChanState.closing = ch.state ∧ ch.cls = ch.cls :=
    fun htm => absurd htm hother
  cases ch.nodeId with
  | none => exact hm.overwrite hget rfl rfl hserves hkeep
  | some n =>
    simp only []
    split
    · refine hm.overwrite hget (chan_settlePeer _ n t) (pending_settlePeer _ n t) ?_ hkeep
      rw [tByMeshId_settlePeer]
      exact hserves
    · exact hm.overwrite hget rfl rfl hserves hkeep

end ChannelLedger

/-! ### The node -/

namespace TwoPools

variable {c : TwoPoolConfig} {s s' : TwoPools} {p q : NodeId} {m : MeshId}

/-- The peer is in the table. -/
def Held (s : TwoPools) (p : NodeId) : Prop := s.synaptome.holds p = true

/-- If the peer's channel is open and classified, it is of class `M`, or a move to `M` waits for
it. -/
def Managed (s : TwoPools) (p : NodeId) : Prop :=
  ∀ t ch, s.served p = some (t, ch) → ch.state = .open → ch.cls.isSome = true →
    ch.cls = some .M ∨ ∃ x, s.ledger.pendingReclass.get t = some x ∧ x.cls = .M

/-- The peer that is offered to the table. -/
def Act.offers : Act → Option NodeId
  | .seed _ _ p | .insert p _ => some p
  | _ => none

/-- **The table agrees with the pools** after a step. -/
structure Agrees (c : TwoPoolConfig) (s : TwoPools) (a : Act) : Prop where
  managed : ∀ p, (s.step c a).Held p → (s.step c a).Managed p
  /-- A deficit leaves its peer out, with the incoming channel it had. -/
  deficit : (s.act c a).1 = some .deficit → ∃ p ∈ a.offers, ¬(s.step c a).Held p
    ∧ (s.step c a).classOf p = some .I ∧ (s.step c a).served p = s.served p
  consistent : (s.act c a).1 ≠ some .inconsistent

/-- The request of a peer that replaced another finds the peer's channel, and room in `M` or the
replaced peer's channel there. -/
def Entitled (c : TwoPoolConfig) (s : TwoPools) (p victim : NodeId) : Prop :=
  ∃ t ch, s.served p = some (t, ch)
    ∧ (s.ledger.Grants c.ledger ch ∨ s.ledger.PutsOff t (s.replaced victim))

/-- No incoming channel without a waiting move comes to serve a peer of the table: by opening, by a
bind, or by a waiting move that finds no room. Where a peer is replaced by one with an incoming
channel, the ledger has a place for the channel or may wait for one; and no peer of the table is
offered again while `M` is full and its channel is still incoming. -/
def Covered (c : TwoPoolConfig) (s : TwoPools) : Act → Prop
  | .mesh (.open t) => ∀ p m, s.Held p → s.route p = some m → ¬s.ledger.OpensUnmanaged t m
  | .mesh (.gone t) => ∀ p m, s.Held p → s.route p = some m → ¬s.ledger.MissesPlace c.ledger t m
  | .bindPeer p m channelKey => s.Held p → s.winner p m channelKey ≠ [] →
    ¬s.ledger.Unmanaged (s.winner p m channelKey)
  | .seed w now p => ¬s.Held p → c.gated = true → s.classOf p = some .I → ∀ key near,
    s.decision c w now p = .swap key near → (near && key.isText) = false →
      (s.closeVictim key).Entitled c p key.id
  | .insert p _ => s.Held p → s.classOf p = some .I → s.ledger.used (.cls .M) < c.profile.M
  | _ => True

/-! ### What is kept -/

/-- The peer's channel is open and incoming, and no move waits for it. -/
def Exposed (s : TwoPools) (p : NodeId) : Prop := ∃ m, s.route p = some m ∧ s.ledger.Unmanaged m

/-- The ledger is orderly, and no peer of the table is exposed. -/
structure NoneExposed (s : TwoPools) : Prop where
  orderly : s.ledger.Orderly
  managed : ∀ p, s.Held p → ¬s.Exposed p

/-- No peer enters the table, and none is newly exposed. -/
structure Settles (s s' : TwoPools) : Prop where
  orderly : s'.ledger.Orderly
  held : ∀ p, s'.Held p → s.Held p
  exposed : ∀ p, s'.Exposed p → s.Exposed p

theorem served_eq_some_iff {x : ChanToken × Chan} :
    s.served p = some x ↔ ∃ m, s.route p = some m ∧ s.ledger.current m = some x :=
  Option.bind_eq_some_iff

theorem classOf_eq_some_iff {k : Cls} :
    s.classOf p = some k ↔ ∃ t ch, s.served p = some (t, ch) ∧ ch.cls = some k := by
  unfold classOf
  rw [Option.bind_eq_some_iff]
  constructor
  · rintro ⟨⟨t, ch⟩, hserved, hcls⟩
    exact ⟨t, ch, hserved, hcls⟩
  · rintro ⟨t, ch, hserved, hcls⟩
    exact ⟨(t, ch), hserved, hcls⟩

theorem managed_iff (h : s.ledger.Orderly) : s.Managed p ↔ ¬s.Exposed p := by
  constructor
  · rintro hmanaged ⟨m, hroute, t, ch, hcur, hstate, hcls, hnone⟩
    rcases hmanaged t ch (served_eq_some_iff.mpr ⟨m, hroute, hcur⟩) hstate (by rw [hcls]; rfl) with
      hM | ⟨x, hx, -⟩
    · rw [hM] at hcls
      cases hcls
    · rw [hnone] at hx
      cases hx
  · intro hexposed t ch hserved hstate hsome
    obtain ⟨m, hroute, hcur⟩ := served_eq_some_iff.mp hserved
    obtain ⟨k, hk⟩ := Option.isSome_iff_exists.mp hsome
    cases k with
    | M => exact .inl hk
    | I =>
      cases hpending : s.ledger.pendingReclass.get t with
      | none => exact absurd ⟨m, hroute, t, ch, hcur, hstate, hk, hpending⟩ hexposed
      | some x => exact .inr ⟨x, rfl, h.upward t x hpending⟩

/-- A peer with an exposed channel has an incoming one. -/
theorem classOf_of_exposed (h : s.Exposed p) : s.classOf p = some .I := by
  obtain ⟨m, hroute, t, ch, hcur, -, hcls, -⟩ := h
  exact classOf_eq_some_iff.mpr ⟨t, ch, served_eq_some_iff.mpr ⟨m, hroute, hcur⟩, hcls⟩

namespace Settles

theorem refl (h : s.ledger.Orderly) : s.Settles s := ⟨h, fun _ h => h, fun _ h => h⟩

theorem trans {s'' : TwoPools} (h : s.Settles s') (h' : s'.Settles s'') : s.Settles s'' :=
  ⟨h'.orderly, fun p hp => h.held p (h'.held p hp), fun p hp => h.exposed p (h'.exposed p hp)⟩

/-- The ledger stays calm, and the routes that are left were there. -/
theorem of_calm (hcalm : s.ledger.Calm s'.ledger) (hheld : ∀ p, s'.Held p → s.Held p)
    (hroute : ∀ p m, s'.route p = some m → s.route p = some m) : s.Settles s' where
  orderly := hcalm.orderly
  held := hheld
  exposed := by
    rintro p ⟨m, hm, hunmanaged⟩
    exact ⟨m, hroute p m hm, hcalm.unmanaged m hunmanaged⟩

theorem noneExposed (h : s.Settles s') (hs : s.NoneExposed) : s'.NoneExposed :=
  ⟨h.orderly, fun p hp hexposed => hs.managed p (h.held p hp) (h.exposed p hexposed)⟩

end Settles

/-! ### Channels of peers -/

theorem route_unbindPeer {m' : MeshId} (h : (s.unbindPeer m').route p = some m) :
    s.route p = some m := by
  obtain ⟨hget, hne⟩ := Option.filter_eq_some_iff.mp h
  exact Option.filter_eq_some_iff.mpr ⟨Holds.route_unbindPeer hget, hne⟩

section

variable (h : s.ledger.Orderly)
include h

theorem settles_unbindPeer (m : MeshId) : s.Settles (s.unbindPeer m) :=
  .of_calm (h.unbind m) (fun _ h => h) fun _ _ => route_unbindPeer

theorem settles_delete (key : TableKey) :
    s.Settles (s.setSynaptome (s.synaptome.delete key)) :=
  .of_calm h.refl (fun _ h => Synaptome.holds_of_delete h) fun _ _ h => h

theorem settles_onPeerLost (m : MeshId) : s.Settles (s.onPeerLost m) := by
  unfold onPeerLost
  cases s.activeNode m with
  | none => exact settles_unbindPeer h m
  | some n =>
    have hdelete := settles_delete h (.big n)
    exact hdelete.trans (settles_unbindPeer hdelete.orderly m)

theorem settles_retire (m : MeshId) : s.Settles (s.retire m) := by
  unfold retire
  cases s.ledger.current m with
  | none => exact .refl h
  | some x =>
    have hclosing : s.Settles { s with ledger := s.ledger.closing x.1 } :=
      .of_calm (h.closing x.1) (fun _ h => h) fun _ _ h => h
    simp only []
    split
    · exact hclosing.trans (settles_onPeerLost hclosing.orderly m)
    · exact hclosing

theorem settles_closeConnection (p : NodeId) :
    s.Settles (s.closeConnection p) := by
  unfold closeConnection
  cases s.route p with
  | none => exact .refl h
  | some m =>
    have hunbind := settles_unbindPeer h m
    exact hunbind.trans (settles_retire hunbind.orderly m)

theorem settles_closeVictim (key : TableKey) :
    s.Settles (s.closeVictim key) := by
  have hdelete := settles_delete h key
  unfold closeVictim
  split
  · exact hdelete
  · exact hdelete.trans (settles_closeConnection hdelete.orderly key.id)

theorem settles_reclass (p : NodeId) (after : Option NodeId) :
    s.Settles (s.reclass c p after).2 := by
  unfold reclass
  cases (s.route p).bind s.ledger.tByMeshId.get with
  | none => exact .refl h
  | some t => exact .of_calm (h.reclass t _) (fun _ h => h) fun _ _ h => h

end

/-- A request that is not refused leaves its peer managed. -/
theorem not_exposed_reclass {after : Option NodeId} (h : (s.reclass c p after).1 ≠ .refused) :
    ¬(s.reclass c p after).2.Exposed p := by
  rintro ⟨m, hroute, hunmanaged⟩
  unfold reclass at h hroute hunmanaged
  cases hby : (s.route p).bind s.ledger.tByMeshId.get with
  | none =>
    rw [hby] at h
    exact h rfl
  | some t =>
    rw [hby] at h hroute hunmanaged
    obtain ⟨m', hm', ht⟩ := Option.bind_eq_some_iff.mp hby
    have hroute' : s.route p = some m := hroute
    cases hm'.symm.trans hroute'
    exact ChannelLedger.not_unmanaged_reclass ht h hunmanaged

/-! ### Entering the table -/

theorem held_seedInsert : (s.seedInsert c p).Held q ↔ q = p ∨ s.Held q := by
  unfold Held
  show (s.synaptome.seedInsert c.node p).holds q = true ↔ _
  rw [Synaptome.holds_seedInsert, Bool.or_eq_true, decide_eq_true_eq]

/-- A peer enters that is managed. -/
theorem NoneExposed.enter (h : s.NoneExposed) (hp : ¬s.Exposed p) : (s.seedInsert c p).NoneExposed where
  orderly := h.orderly
  managed q hq hexposed := by
    rcases held_seedInsert.mp hq with rfl | hq
    · exact hp hexposed
    · exact h.managed q hq hexposed

theorem settles_decided (h : s.ledger.Orderly) (w : Surroundings) (now : Int) (p : NodeId) :
    s.Settles (s.decided c w now p) := .of_calm h.refl (fun _ h => h) fun _ _ h => h

theorem settles_laneCommit (h : s.ledger.Orderly) (d : Admission) : s.Settles (s.laneCommit d) :=
  .of_calm h.refl (fun _ h => h) fun _ _ h => h

/-- A peer without an incoming channel enters by the gate alone. -/
theorem NoneExposed.admitOrImprove (h : s.NoneExposed) (hp : s.classOf p ≠ some .I) (w : Surroundings)
    (now : Int) : (s.admitOrImprove c w now p).NoneExposed := by
  have hdecided := settles_decided (c := c) h.orderly w now p
  have henter : ∀ {s' : TwoPools}, (s.decided c w now p).Settles s' →
      (s'.seedInsert c p).NoneExposed := by
    intro s' hs'
    have hsettles := hdecided.trans hs'
    refine (hsettles.noneExposed h).enter fun hexposed => hp ?_
    exact classOf_of_exposed (hsettles.exposed p hexposed)
  unfold TwoPools.admitOrImprove
  cases s.decision c w now p with
  | refuse _ | throws => exact hdecided.noneExposed h
  | room => exact henter (.refl hdecided.orderly)
  | lane key t => exact henter (settles_laneCommit hdecided.orderly _)
  | swap key near =>
    simp only []
    split
    · exact hdecided.noneExposed h
    · exact henter (settles_closeVictim hdecided.orderly key)

/-! ### Promotions -/

/-- What a promotion leaves: a sound node unless it was refused after the table committed, and after
a deficit the peer outside with the channel it had. -/
structure Leaves (s : TwoPools) (p : NodeId) (r : Option Promotion × TwoPools) : Prop where
  noneExposed : r.1 ≠ some .inconsistent → r.2.NoneExposed
  deficit : r.1 = some .deficit →
    (r.2.Held p ↔ s.Held p) ∧ r.2.classOf p = some .I ∧ r.2.served p = s.served p

theorem NoneExposed.promoteInto (h : s.NoneExposed) (hI : s.classOf p = some .I) (d : Admission) :
    s.Leaves p ((s.promoteInto c p d).map some id) := by
  unfold TwoPools.promoteInto
  cases hanswer : (s.reclass c p none).1 with
  | ok =>
    have hsettles := settles_reclass (c := c) h.orderly p none
    have hnot : ¬(s.reclass c p none).2.Exposed p :=
      not_exposed_reclass (by rw [hanswer]; rintro ⟨⟩)
    have hcommit := settles_laneCommit hsettles.orderly d
    refine ⟨fun _ => ?_, by rintro ⟨⟩⟩
    exact ((hsettles.trans hcommit).noneExposed h).enter fun hexposed => hnot (hcommit.exposed p hexposed)
  | deferred | refused => exact ⟨fun _ => h, fun _ => ⟨Iff.rfl, hI, rfl⟩⟩

/-- The table commits first, and the peer is managed if its request is not refused then. -/
theorem NoneExposed.promoteFor (h : s.NoneExposed) (p : NodeId) (key : TableKey) :
    s.Leaves p ((s.promoteFor c p key).map some id) := by
  have hclose := settles_closeVictim h.orderly key
  have hsettles := settles_reclass (c := c) (s := (s.closeVictim key).seedInsert c p)
    hclose.orderly p (some key.id)
  have hsound : (((s.closeVictim key).seedInsert c p).reclass c p (some key.id)).1 ≠ .refused →
      (((s.closeVictim key).seedInsert c p).reclass c p (some key.id)).2.NoneExposed := by
    intro hanswer
    refine ⟨hsettles.orderly, fun q hq hexposed => ?_⟩
    rcases held_seedInsert.mp (hsettles.held q hq) with rfl | hq
    · exact not_exposed_reclass hanswer hexposed
    · exact (hclose.noneExposed h).managed q hq (hsettles.exposed q hexposed)
  unfold TwoPools.promoteFor
  cases hanswer : (((s.closeVictim key).seedInsert c p).reclass c p (some key.id)).1 with
  | ok | deferred => exact ⟨fun _ => hsound (by rw [hanswer]; rintro ⟨⟩), by rintro ⟨⟩⟩
  | refused => exact ⟨fun hne => absurd rfl hne, by rintro ⟨⟩⟩

theorem NoneExposed.promote (h : s.NoneExposed) (hI : s.classOf p = some .I) (w : Surroundings) (now : Int) :
    s.Leaves p (s.promote c w now p) := by
  have hdecided := settles_decided (c := c) h.orderly w now p
  have hsound := hdecided.noneExposed h
  unfold TwoPools.promote
  cases s.decision c w now p with
  | refuse _ => exact ⟨fun _ => hsound, fun _ => ⟨Iff.rfl, hI, rfl⟩⟩
  | throws => exact ⟨fun _ => hsound, by rintro ⟨⟩⟩
  | room =>
    have hinto := hsound.promoteInto (c := c) hI .room
    exact ⟨hinto.noneExposed, hinto.deficit⟩
  | lane key t =>
    have hinto := hsound.promoteInto (c := c) hI (.lane key t)
    exact ⟨hinto.noneExposed, hinto.deficit⟩
  | swap key near =>
    simp only []
    split
    · exact ⟨fun _ => hsound, by rintro ⟨⟩⟩
    · have hfor := hsound.promoteFor (c := c) p key
      exact ⟨hfor.noneExposed, hfor.deficit⟩

/-- A request in the place of a peer is refused exactly where its peer is not entitled to it. -/
theorem refused_iff (h : s.ledger.Orderly) (victim : NodeId) :
    (s.reclass c p (some victim)).1 = .refused ↔ ¬s.Entitled c p victim := by
  unfold reclass Entitled
  cases hby : (s.route p).bind s.ledger.tByMeshId.get with
  | none =>
    refine ⟨fun _ => ?_, fun _ => rfl⟩
    rintro ⟨t, ch, hserved, -⟩
    obtain ⟨m, hroute, hcur⟩ := served_eq_some_iff.mp hserved
    rw [hroute, Option.bind_some, (ChannelLedger.current_eq_some_iff.mp hcur).1] at hby
    cases hby
  | some t =>
    obtain ⟨m, hroute, ht⟩ := Option.bind_eq_some_iff.mp hby
    obtain ⟨ch, hget, -⟩ := h.wired m t ht
    have hserved : s.served p = some (t, ch) :=
      served_eq_some_iff.mpr ⟨m, hroute, ChannelLedger.current_eq_some_iff.mpr ⟨ht, hget⟩⟩
    refine (ChannelLedger.answer_reclass c.pools_eq c.enforce hget _).2.trans ?_
    rw [Option.bind_some, hserved, ← not_or]
    refine not_congr ⟨fun hor => ⟨t, ch, rfl, hor⟩, ?_⟩
    rintro ⟨t', ch', heq, hor⟩
    cases Option.some.inj heq
    exact hor

/-- A peer is replaced only where the table is full, and the join lane stays as it was. -/
theorem decided_of_swap {w : Surroundings} {now : Int} {key : TableKey} {near : Bool}
    (h : s.decision c w now p = .swap key near) : s.decided c w now p = s := by
  unfold decision at h
  unfold decided
  unfold Synaptome.gateDecision at h ⊢
  split at h
  · exfalso
    unfold Synaptome.laneDecision at h
    split at h
    · simp only [] at h
      split at h
      · cases h
      · split at h <;> cases h
    · cases h
  next hroom => rw [if_neg hroom]

/-- A promotion is refused after the table committed exactly where its peer is not entitled to the
place of the one it replaced. -/
theorem inconsistent_iff (h : s.ledger.Orderly) (w : Surroundings) (now : Int) :
    (s.promote c w now p).1 = some .inconsistent ↔ ∃ key near,
      s.decision c w now p = .swap key near ∧ (near && key.isText) = false
        ∧ ¬(s.closeVictim key).Entitled c p key.id := by
  have hinto : ∀ (s : TwoPools) (d : Admission), (s.promoteInto c p d).1 ≠ .inconsistent := by
    intro s d
    unfold promoteInto
    cases (s.reclass c p none).1 <;> rintro ⟨⟩
  have hfor : ∀ key : TableKey, (s.promoteFor c p key).1 = .inconsistent ↔
      ¬(s.closeVictim key).Entitled c p key.id := by
    intro key
    have hrefused := refused_iff (c := c) (p := p) (s := (s.closeVictim key).seedInsert c p)
      (settles_closeVictim h key).orderly key.id
    have hentitled : ((s.closeVictim key).seedInsert c p).Entitled c p key.id ↔
        (s.closeVictim key).Entitled c p key.id := Iff.rfl
    rw [← hentitled, ← hrefused]
    unfold promoteFor
    cases (((s.closeVictim key).seedInsert c p).reclass c p (some key.id)).1 <;> simp
  unfold promote
  cases hd : s.decision c w now p with
  | refuse _ | throws => simp
  | room | lane key t =>
    refine ⟨fun heq => absurd (Option.some.inj heq) (hinto _ _), ?_⟩
    rintro ⟨key, near, ⟨⟩, -⟩
  | swap key near =>
    simp only []
    rw [decided_of_swap hd]
    cases htext : near && key.isText with
    | true =>
      rw [if_pos rfl]
      refine ⟨by rintro ⟨⟩, ?_⟩
      rintro ⟨key', near', heq, hfalse, -⟩
      cases heq
      rw [htext] at hfalse
      cases hfalse
    | false =>
      rw [if_neg Bool.false_ne_true]
      refine ⟨fun heq => ⟨key, near, rfl, htext, (hfor key).mp (Option.some.inj heq)⟩, ?_⟩
      rintro ⟨key', near', heq, -, hnot⟩
      cases heq
      exact congrArg some ((hfor key).mpr hnot)

/-! ### Legacy inserts -/

theorem legacyInsertAllowed_of_ne (h : s.classOf p ≠ some .I) :
    s.legacyInsertAllowed c p = (none, s) := if_neg h

/-- A legacy insert ends as a deficit exactly where its peer's channel is incoming and `M` is
full. -/
theorem deficit_insert_iff (x : Synapse) :
    (s.insert c p x).1 = some .deficit ↔
      s.classOf p = some .I ∧ ¬s.ledger.used (.cls .M) < c.profile.M := by
  have hfst : (s.insert c p x).1 = (s.legacyInsertAllowed c p).1 := by
    unfold insert
    split <;> rfl
  rw [hfst]
  by_cases hI : s.classOf p = some .I
  · obtain ⟨t, ch, hserved, hcls⟩ := classOf_eq_some_iff.mp hI
    obtain ⟨m, hroute, hcur⟩ := served_eq_some_iff.mp hserved
    obtain ⟨ht, hget⟩ := ChannelLedger.current_eq_some_iff.mp hcur
    have hgrants : s.ledger.Grants c.ledger ch ↔ s.ledger.used (.cls .M) < c.profile.M := by
      unfold ChannelLedger.Grants
      rw [hcls, c.pools_eq]
      simp [PoolProfile.size]
    have hby : (s.route p).bind s.ledger.tByMeshId.get = some t :=
      Option.bind_eq_some_iff.mpr ⟨m, hroute, ht⟩
    have hanswer : (s.reclass c p none).1 = .ok ↔ s.ledger.Grants c.ledger ch := by
      unfold reclass
      rw [hby]
      exact (ChannelLedger.answer_reclass c.pools_eq c.enforce hget _).1
    rw [and_iff_right hI, ← hgrants, ← hanswer]
    unfold legacyInsertAllowed
    rw [if_pos hI]
    cases (s.reclass c p none).1 <;> simp
  · rw [legacyInsertAllowed_of_ne hI]
    exact ⟨by rintro ⟨⟩, fun h => absurd h.1 hI⟩

theorem consistent_insert (x : Synapse) : (s.insert c p x).1 ≠ some .inconsistent := by
  have hlegacy : (s.legacyInsertAllowed c p).1 ≠ some .inconsistent := by
    unfold legacyInsertAllowed
    split
    · cases (s.reclass c p none).1 <;> rintro ⟨⟩
    · rintro ⟨⟩
  unfold insert
  split
  · exact hlegacy
  · exact hlegacy

/-- A legacy insert keeps the node sound: it promotes its peer, or leaves it out. -/
theorem NoneExposed.insert (h : s.NoneExposed) (p : NodeId) (x : Synapse) : s.Leaves p (s.insert c p x) := by
  by_cases hI : s.classOf p = some .I
  · have hstays : s.legacyInsertAllowed c p = (some .deficit, s) → s.Leaves p (s.insert c p x) := by
      intro hlegacy
      have hinsert : s.insert c p x = (some .deficit, s) := by
        unfold TwoPools.insert
        rw [hlegacy]
        rfl
      rw [hinsert]
      exact ⟨fun _ => h, fun _ => ⟨Iff.rfl, hI, rfl⟩⟩
    cases hanswer : (s.reclass c p none).1 with
    | ok =>
      have hlegacy : s.legacyInsertAllowed c p = (some .promoted, (s.reclass c p none).2) := by
        unfold legacyInsertAllowed
        rw [if_pos hI, hanswer]
      have hinsert : s.insert c p x = (some .promoted, (s.reclass c p none).2.setSynaptome
          ((s.reclass c p none).2.synaptome.set (.big p) x)) := by
        unfold TwoPools.insert
        rw [hlegacy]
        rfl
      have hsettles := settles_reclass (c := c) h.orderly p none
      have hnot : ¬(s.reclass c p none).2.Exposed p :=
        not_exposed_reclass (by rw [hanswer]; rintro ⟨⟩)
      rw [hinsert]
      refine ⟨fun _ => ⟨hsettles.orderly, fun q hq hexposed => ?_⟩, by rintro ⟨⟩⟩
      have hq' := (Synaptome.holds_set_big (t := (s.reclass c p none).2.synaptome) x).symm.trans hq
      rw [Bool.or_eq_true, decide_eq_true_eq] at hq'
      rcases hq' with rfl | hq'
      · exact hnot hexposed
      · exact (hsettles.noneExposed h).managed q hq' hexposed
    | deferred | refused => exact hstays (by unfold legacyInsertAllowed; rw [if_pos hI, hanswer])
  · have hinsert : s.insert c p x
        = (none, s.setSynaptome (s.synaptome.set (.big p) x)) := by
      unfold TwoPools.insert
      rw [legacyInsertAllowed_of_ne hI]
      rfl
    rw [hinsert]
    refine ⟨fun _ => ⟨h.orderly, fun q hq hexposed => ?_⟩, by rintro ⟨⟩⟩
    have hq' := (Synaptome.holds_set_big (t := s.synaptome) x).symm.trans hq
    rw [Bool.or_eq_true, decide_eq_true_eq] at hq'
    rcases hq' with rfl | hq'
    · exact hI (classOf_of_exposed hexposed)
    · exact h.managed q hq' hexposed

/-! ### Binding -/

/-- A bind, before one of two channels is torn down. -/
def bound (s : TwoPools) (p : NodeId) (m : MeshId) (channelKey : Option Text) : TwoPools :=
  { s with
    webrtc := s.webrtc.bindPeer p m channelKey
    ledger := s.ledger.bind (s.winner p m channelKey) p }

variable {channelKey : Option Text}

theorem bindPeer_eq : s.bindPeer p m channelKey = (s.webrtc.duplicate p m channelKey).elim
    (s.bound p m channelKey) fun x => (s.bound p m channelKey).retire x.2 := by
  unfold bindPeer bound winner
  cases s.webrtc.duplicate p m channelKey <;> rfl

theorem route_bound : (s.bound p m channelKey).route q =
    if q = p then (some (s.winner p m channelKey)).filter fun m => decide (m ≠ [])
    else s.route q := by
  have hget : (s.webrtc.bindPeer p m channelKey).meshIdByNodeId.get q =
      if q = p then some (s.winner p m channelKey) else s.webrtc.meshIdByNodeId.get q := by
    unfold WebRTC.bindPeer winner
    cases s.webrtc.duplicate p m channelKey with
    | none | some x => exact get_set _ _ _ _
  have hroute : (s.bound p m channelKey).route q =
      ((s.webrtc.bindPeer p m channelKey).meshIdByNodeId.get q).filter
        fun m => decide (m ≠ []) := rfl
  rw [hroute, hget]
  split <;> rfl

/-- The two channels of a duplicate are two, and the loser is nobody's. -/
theorem duplicate_loser {x : MeshId × MeshId} (h : s.webrtc.duplicate p m channelKey = some x) :
    x.1 ≠ x.2 ∧ s.winner p m channelKey = x.1
      ∧ (s.bound p m channelKey).webrtc.nodeIdByMeshId.get x.2 = none := by
  refine ⟨?_, ?_, ?_⟩
  · obtain ⟨prev, -, h⟩ := Option.bind_eq_some_iff.mp h
    split at h
    · cases h
    next hne =>
    split at h
    · cases h
      exact Ne.symm hne
    · cases h
      exact hne
  · unfold winner
    rw [h]
    rfl
  · show (s.webrtc.bindPeer p m channelKey).nodeIdByMeshId.get x.2 = none
    unfold WebRTC.bindPeer
    rw [h]
    show ((s.webrtc.nodeIdByMeshId.set x.1 p).delete x.2).get x.2 = none
    rw [get_delete, if_pos rfl]

/-- A bind takes nobody into the table, and exposes at most the peer it binds. -/
theorem bindPeer_exposed (h : s.ledger.Orderly) (p : NodeId) (m : MeshId)
    (channelKey : Option Text) :
    (s.bound p m channelKey).Settles (s.bindPeer p m channelKey)
      ∧ ∀ q, (s.bound p m channelKey).Exposed q → s.Exposed q ∨
        q = p ∧ s.winner p m channelKey ≠ [] ∧ s.ledger.Unmanaged (s.winner p m channelKey) := by
  have hcalm := h.bind (s.winner p m channelKey) p
  constructor
  · rw [bindPeer_eq]
    have horderly : (s.bound p m channelKey).ledger.Orderly := hcalm.orderly
    cases s.webrtc.duplicate p m channelKey with
    | none => exact .refl horderly
    | some x => exact settles_retire horderly x.2
  · rintro q ⟨m', hroute, hunmanaged⟩
    rw [route_bound] at hroute
    split at hroute
    · next hq =>
      obtain ⟨heq, hne⟩ := Option.filter_eq_some_iff.mp hroute
      cases heq
      exact .inr ⟨hq, of_decide_eq_true hne, hcalm.unmanaged _ hunmanaged⟩
    · exact .inl ⟨m', hroute, hcalm.unmanaged m' hunmanaged⟩

/-- A peer of the table that is bound to an unmanaged channel is exposed. -/
theorem exposed_bindPeer (h : s.ledger.Orderly) (hne : s.winner p m channelKey ≠ [])
    (hm : s.ledger.Unmanaged (s.winner p m channelKey)) :
    (s.bindPeer p m channelKey).Exposed p
      ∧ ∀ q, (s.bindPeer p m channelKey).Held q ↔ s.Held q := by
  have hroute : (s.bound p m channelKey).route p = some (s.winner p m channelKey) := by
    rw [route_bound, if_pos rfl]
    exact Option.filter_eq_some_iff.mpr ⟨rfl, decide_eq_true hne⟩
  have hbound : (s.bound p m channelKey).ledger.Unmanaged (s.winner p m channelKey) :=
    hm.bind _ p
  rw [bindPeer_eq]
  cases hdup : s.webrtc.duplicate p m channelKey with
  | none => exact ⟨⟨_, hroute, hbound⟩, fun _ => Iff.rfl⟩
  | some x =>
    obtain ⟨hx, hwinner, hloser⟩ := duplicate_loser hdup
    have horderly : (s.bound p m channelKey).ledger.Orderly :=
      (h.bind (s.winner p m channelKey) p).orderly
    show ((s.bound p m channelKey).retire x.2).Exposed p
      ∧ ∀ q, ((s.bound p m channelKey).retire x.2).Held q ↔ s.Held q
    unfold retire
    cases hcur : (s.bound p m channelKey).ledger.current x.2 with
    | none => exact ⟨⟨_, hroute, hbound⟩, fun _ => Iff.rfl⟩
    | some y =>
      have hclosing : ((s.bound p m channelKey).ledger.closing y.1).Unmanaged
          (s.winner p m channelKey) := hbound.closing horderly hcur (hwinner ▸ hx)
      simp only []
      split
      · have hactive : activeNode { s.bound p m channelKey with
            ledger := (s.bound p m channelKey).ledger.closing y.1 } x.2 = none := by
          unfold activeNode
          rw [hloser]
          rfl
        unfold onPeerLost
        rw [hactive]
        refine ⟨⟨s.winner p m channelKey, ?_, hclosing.unbind x.2⟩, fun _ => Iff.rfl⟩
        show (((s.bound p m channelKey).webrtc.unbindPeer x.2).meshIdByNodeId.get p).filter _ = _
        rw [unbindPeer_route, if_neg (by rw [hloser]; rintro ⟨⟨⟩, -⟩)]
        exact hroute
      · exact ⟨⟨_, hroute, hclosing⟩, fun _ => Iff.rfl⟩

/-! ### Steps -/

theorem NoneExposed.seed (h : s.NoneExposed) (w : Surroundings) (now : Int) (p : NodeId) :
    s.Leaves p (s.seed c w now p) := by
  unfold TwoPools.seed
  split
  · exact ⟨fun _ => h, by rintro ⟨⟩⟩
  split
  · split
    next hI => exact h.promote hI w now
    next hI => exact ⟨fun _ => h.admitOrImprove hI w now, by rintro ⟨⟩⟩
  · exact h.insert p _

/-- What an act that promotes a peer leaves agrees with the pools unless it was refused late, or
ended as a deficit for a peer of the table. -/
theorem Leaves.agrees_iff {a : Act} (h : s.Leaves p (s.act c a)) (ha : a.offers = some p) :
    s.Agrees c a ↔ (s.act c a).1 ≠ some .inconsistent
      ∧ ((s.act c a).1 = some .deficit → ¬s.Held p) := by
  constructor
  · intro hagrees
    refine ⟨hagrees.consistent, fun hdeficit hheld => ?_⟩
    obtain ⟨q, hq, hout, -⟩ := hagrees.deficit hdeficit
    rw [ha] at hq
    cases hq
    exact hout ((h.deficit hdeficit).1.mpr hheld)
  · rintro ⟨hconsistent, hout⟩
    have hsound : (s.step c a).NoneExposed := h.noneExposed hconsistent
    refine ⟨fun q hq => (managed_iff hsound.orderly).mpr (hsound.managed q hq), fun hdeficit => ?_,
      hconsistent⟩
    obtain ⟨hheld, hleft⟩ := h.deficit hdeficit
    exact ⟨p, ha, fun hp => hout hdeficit (hheld.mp hp), hleft⟩

/-- An act that is no promotion keeps the node sound exactly where it exposes no peer of the
table. -/
theorem NoneExposed.exposes {a : Act} {B : NodeId → Prop} (h : s.NoneExposed)
    (horderly : (s.step c a).ledger.Orderly) (hnone : (s.act c a).1 = none)
    (hheld : ∀ p, (s.step c a).Held p → s.Held p)
    (hexposed : ∀ p, (s.step c a).Exposed p → s.Exposed p ∨ B p)
    (hB : ∀ p, s.Held p → B p → (s.step c a).Held p ∧ (s.step c a).Exposed p) :
    (s.Agrees c a ↔ ∀ p, s.Held p → ¬B p)
      ∧ ((∀ p, s.Held p → ¬B p) → (s.step c a).NoneExposed) := by
  have hsound : (∀ p, s.Held p → ¬B p) → (s.step c a).NoneExposed := by
    refine fun hfree => ⟨horderly, fun p hp hexp => ?_⟩
    rcases hexposed p hexp with hbefore | hnew
    · exact h.managed p (hheld p hp) hbefore
    · exact hfree p (hheld p hp) hnew
  refine ⟨⟨fun hagrees p hp hnew => ?_, fun hfree => ?_⟩, hsound⟩
  · obtain ⟨hp', hexp⟩ := hB p hp hnew
    exact (managed_iff horderly).mp (hagrees.managed p hp') hexp
  · refine ⟨fun p hp => (managed_iff horderly).mpr ((hsound hfree).managed p hp), ?_, ?_⟩
    · rw [hnone]
      rintro ⟨⟩
    · rw [hnone]
      rintro ⟨⟩

/-- An act that settles. -/
theorem NoneExposed.quiet {a : Act} (h : s.NoneExposed) (hsettles : s.Settles (s.step c a))
    (hnone : (s.act c a).1 = none) : s.Agrees c a ∧ (s.step c a).NoneExposed := by
  obtain ⟨hagrees, hsound⟩ := h.exposes (B := fun _ => False) hsettles.orderly hnone hsettles.held
    (fun p hp => .inl (hsettles.exposed p hp)) fun _ _ hf => hf.elim
  exact ⟨hagrees.mpr fun _ _ hf => hf, hsound fun _ _ hf => hf⟩

/-- What the mesh does, its channels that open or go apart. -/
theorem settles_mesh (h : s.ledger.Orderly) {a : ChannelLedger.Act} (hopen : ∀ t, a ≠ .open t)
    (hgone : ∀ t, a ≠ .gone t) : s.Settles (s.meshStep c a) := by
  have hcalm : ∀ {l : ChannelLedger}, s.ledger.Calm l → s.Settles { s with ledger := l } :=
    fun hl => .of_calm hl (fun _ h => h) fun _ _ h => h
  cases a with
  | reserve cls d now => exact hcalm (h.reserve cls d now)
  | release token | sweep now => exact hcalm (h.congr rfl rfl rfl)
  | reclass _ _ _ | bind _ _ | unbind _ => exact .refl h
  | allocate t m d r => exact hcalm (h.allocate t m d r)
  | negotiating t => exact hcalm (h.negotiating t)
  | «open» t => exact absurd rfl (hopen t)
  | closing t => exact hcalm (h.closing t)
  | gone t => exact absurd rfl (hgone t)

section

variable (h : s.NoneExposed)
include h

theorem NoneExposed.mesh (a : ChannelLedger.Act) :
    (s.Agrees c (.mesh a) ↔ s.Covered c (.mesh a))
      ∧ (s.Covered c (.mesh a) → (s.step c (.mesh a)).NoneExposed) := by
  by_cases hopen : ∃ t, a = .open t
  · obtain ⟨t, rfl⟩ := hopen
    have hiff := h.exposes (c := c) (a := .mesh (.open t))
      (B := fun p => ∃ m, s.route p = some m ∧ s.ledger.OpensUnmanaged t m) (h.orderly.opened t) rfl
      (fun _ h => h)
      (by
        rintro p ⟨m, hroute, hm⟩
        rcases ChannelLedger.unmanaged_opened.mp hm with hm | hm
        · exact .inl ⟨m, hroute, hm⟩
        · exact .inr ⟨m, hroute, hm⟩)
      (by
        rintro p hp ⟨m, hroute, hm⟩
        exact ⟨hp, m, hroute, ChannelLedger.unmanaged_opened.mpr (.inr hm)⟩)
    have hcovered : s.Covered c (.mesh (.open t)) ↔
        ∀ p, s.Held p → ¬∃ m, s.route p = some m ∧ s.ledger.OpensUnmanaged t m :=
      ⟨fun hall p hp hex => hex.elim fun m hm => hall p m hp hm.1 hm.2,
        fun hall p m hp hroute hm => hall p hp ⟨m, hroute, hm⟩⟩
    rwa [hcovered]
  by_cases hgone : ∃ t, a = .gone t
  · obtain ⟨t, rfl⟩ := hgone
    have hiff := h.exposes (c := c) (a := .mesh (.gone t))
      (B := fun p => ∃ m, s.route p = some m ∧ s.ledger.MissesPlace c.ledger t m)
      (h.orderly.gone c.pools_eq t) rfl (fun _ h => h)
      (by
        rintro p ⟨m, hroute, hm⟩
        rcases ChannelLedger.unmanaged_gone h.orderly c.pools_eq hm with hm | hm
        · exact .inl ⟨m, hroute, hm⟩
        · exact .inr ⟨m, hroute, hm⟩)
      (by
        rintro p hp ⟨m, hroute, hm⟩
        exact ⟨hp, m, hroute, ChannelLedger.unmanaged_of_missesPlace h.orderly c.pools_eq hm⟩)
    have hcovered : s.Covered c (.mesh (.gone t)) ↔
        ∀ p, s.Held p → ¬∃ m, s.route p = some m ∧ s.ledger.MissesPlace c.ledger t m :=
      ⟨fun hall p hp hex => hex.elim fun m hm => hall p m hp hm.1 hm.2,
        fun hall p m hp hroute hm => hall p hp ⟨m, hroute, hm⟩⟩
    rwa [hcovered]
  obtain ⟨hagrees, hsound⟩ := h.quiet (c := c) (a := .mesh a)
    (settles_mesh h.orderly (fun t ht => hopen ⟨t, ht⟩) fun t ht => hgone ⟨t, ht⟩) rfl
  have hcovered : s.Covered c (.mesh a) := by
    cases a with
    | «open» t => exact absurd ⟨t, rfl⟩ hopen
    | gone t => exact absurd ⟨t, rfl⟩ hgone
    | _ => trivial
  exact ⟨⟨fun _ => hcovered, fun _ => hagrees⟩, fun _ => hsound⟩

theorem NoneExposed.bindPeer (p : NodeId) (m : MeshId) (channelKey : Option Text) :
    (s.Agrees c (.bindPeer p m channelKey) ↔ s.Covered c (.bindPeer p m channelKey))
      ∧ (s.Covered c (.bindPeer p m channelKey) →
        (s.step c (.bindPeer p m channelKey)).NoneExposed) := by
  obtain ⟨hsettles, hexposed⟩ := bindPeer_exposed h.orderly p m channelKey
  have hiff := h.exposes (c := c) (a := .bindPeer p m channelKey)
    (B := fun q => q = p ∧ s.winner p m channelKey ≠ []
      ∧ s.ledger.Unmanaged (s.winner p m channelKey))
    hsettles.orderly rfl hsettles.held (fun q hq => hexposed q (hsettles.exposed q hq))
    (by
      rintro q hq ⟨rfl, hne, hm⟩
      obtain ⟨hexp, hheld⟩ := exposed_bindPeer h.orderly hne hm
      exact ⟨(hheld q).mpr hq, hexp⟩)
  have hcovered : s.Covered c (.bindPeer p m channelKey) ↔
      ∀ q, s.Held q → ¬(q = p ∧ s.winner p m channelKey ≠ []
        ∧ s.ledger.Unmanaged (s.winner p m channelKey)) := by
    constructor
    · rintro hcov q hq ⟨rfl, hne, hm⟩
      exact hcov hq hne hm
    · exact fun hall hp hne hm => hall p hp ⟨rfl, hne, hm⟩
  rwa [hcovered]

/-- A bound peer is offered to the table. -/
theorem NoneExposed.offered (w : Surroundings) (now : Int) (p : NodeId) :
    s.Agrees c (.seed w now p) ↔ s.Covered c (.seed w now p) := by
  have hleaves := h.seed (c := c) w now p
  rw [Leaves.agrees_iff (c := c) (a := .seed w now p) hleaves rfl]
  have hout : (s.seed c w now p).1 = some .deficit → ¬s.Held p := by
    intro hdeficit hp
    have hheld : s.seed c w now p = (none, s) := if_pos hp
    rw [hheld] at hdeficit
    cases hdeficit
  refine (and_iff_left hout).trans ?_
  show (s.seed c w now p).1 ≠ some .inconsistent ↔ (¬s.Held p → _)
  unfold TwoPools.seed
  by_cases hp : s.synaptome.holds p = true
  · rw [if_pos hp]
    exact ⟨fun _ hnot => absurd hp hnot, fun _ => by rintro ⟨⟩⟩
  rw [if_neg hp]
  by_cases hgated : c.gated = true
  · rw [if_pos hgated]
    by_cases hI : s.classOf p = some .I
    · rw [if_pos hI, ne_eq, inconsistent_iff h.orderly]
      constructor
      · intro hno _ _ _ key near hd htext
        by_contra hnot
        exact hno ⟨key, near, hd, htext, hnot⟩
      · rintro hall ⟨key, near, hd, htext, hnot⟩
        exact hnot (hall hp hgated hI key near hd htext)
    · rw [if_neg hI]
      exact ⟨fun _ _ _ hI' => absurd hI' hI, fun _ => by rintro ⟨⟩⟩
  · rw [if_neg hgated]
    exact ⟨fun _ _ hg => absurd hg hgated, fun _ => consistent_insert _⟩

theorem NoneExposed.inserted (p : NodeId) (x : Synapse) :
    s.Agrees c (.insert p x) ↔ s.Covered c (.insert p x) := by
  have hleaves := h.insert (c := c) p x
  rw [Leaves.agrees_iff (c := c) (a := .insert p x) hleaves rfl]
  refine (and_iff_right (consistent_insert x)).trans ?_
  show ((s.insert c p x).1 = some .deficit → ¬s.Held p) ↔ _
  rw [deficit_insert_iff]
  constructor
  · intro hout hp hI
    by_contra hfull
    exact hout ⟨hI, hfull⟩ hp
  · rintro hcov ⟨hI, hfull⟩ hp
    exact hfull (hcov hp hI)

/-- **One act**: it leaves the table agreeing with the pools exactly where it is covered, and no
peer is exposed then. -/
theorem NoneExposed.act (a : Act) :
    (s.Agrees c a ↔ s.Covered c a) ∧ (s.Covered c a → (s.step c a).NoneExposed) := by
  have hquiet : ∀ {a : Act}, s.Settles (s.step c a) → (s.act c a).1 = none → s.Covered c a →
      (s.Agrees c a ↔ s.Covered c a) ∧ (s.Covered c a → (s.step c a).NoneExposed) := by
    intro a hsettles hnone hcov
    obtain ⟨hagrees, hsound⟩ := h.quiet hsettles hnone
    exact ⟨⟨fun _ => hcov, fun _ => hagrees⟩, fun _ => hsound⟩
  cases a with
  | mesh a => exact h.mesh a
  | bindPeer p m channelKey => exact h.bindPeer p m channelKey
  | lost m => exact hquiet (settles_retire h.orderly m) rfl trivial
  | closePeer p => exact hquiet (settles_closeConnection h.orderly p) rfl trivial
  | leaving p =>
    refine hquiet ?_ rfl trivial
    unfold step TwoPools.act
    simp only []
    split
    · exact settles_closeVictim h.orderly _
    · exact .refl h.orderly
  | evict key => exact hquiet (settles_closeVictim h.orderly key) rfl trivial
  | seed w now p =>
    have hiff := h.offered (c := c) w now p
    exact ⟨hiff, fun hcov => (h.seed w now p).noneExposed (hiff.mpr hcov).consistent⟩
  | insert p x =>
    exact ⟨h.inserted p x, fun _ => (h.insert p x).noneExposed (consistent_insert x)⟩

end

theorem noneExposed_init (t : Synaptome) : (init t).NoneExposed where
  orderly := ⟨fun _ _ ht => (by cases ht), fun _ _ hx => (by cases hx)⟩
  managed p _ hexposed := by
    obtain ⟨m, hroute, -⟩ := hexposed
    cases hroute

/-- **The table agrees with the pools** after every step of a run exactly where every step is
covered. -/
theorem pools_agree_iff (c : TwoPoolConfig) (t : Synaptome) (as : List Act) :
    EachStep (step c) (Agrees c) (init t) as ↔ EachStep (step c) (Covered c) (init t) as :=
  EachStep.agree_iff (I := NoneExposed) (fun _ a h hcov => (h.act a).2 hcov) (fun _ a h => (h.act a).1)
    (noneExposed_init t) as

/-- Two places in each class, and the nearest peer protected. -/
def twoManaged : TwoPoolConfig where
  node := AdmissionGate.nearestOnly
  profile := ChannelLedger.Requested.twoEach.pools.get rfl
  ledger := ChannelLedger.Requested.twoEach
  cap_eq := rfl
  pools_eq := rfl
  enforce := rfl

/-- A peer is bound on a channel of its own and offered to the table. -/
def joins (cls : Option Cls) (d : Dir) (n : Nat) (m : MeshId) (p : NodeId) : List Act :=
  [.mesh (.reserve cls d 0), .mesh (.allocate n m d (some n)), .mesh (.open n), .bindPeer p m none,
    .seed ⟨fun _ => false, none, fun _ => false, fun x => some (x.peerId.id : ℚ)⟩ 0 p]

/-- Two managed peers, and an incoming one that takes the place of the first of them. -/
def firstReplaced : List Act :=
  joins (some .M) .outbound 1 ['a'] 4 ++ joins (some .M) .outbound 2 ['b'] 8
    ++ joins none .inbound 3 ['c'] 2

/-- **The peer that took a place is replaced before the place is free.** Its own channel is still
incoming, so the next promotion has nothing to wait for, and is refused with its peer in the
table. -/
theorem replaced_again : ¬EachStep (step twoManaged) (Agrees twoManaged) (init ∅)
    (firstReplaced ++ joins none .inbound 4 ['d'] 1) := by
  intro hrun
  obtain ⟨-, -, -, -, hlast, -⟩ := ((eachStep_append _ _ firstReplaced _).mp hrun).2
  have hconsistent := hlast.consistent
  revert hconsistent
  decide +kernel

end TwoPools

end Axona
