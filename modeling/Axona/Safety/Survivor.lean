import Axona.Library.Transition
import Axona.Transport.Pair

/-! # Which of several channels survives

Each end keeps the channel with the smaller key, and both ends compute one key. So the channel with
the smallest key is disconnected by neither, whatever each end has bound and heard when it binds it;
and an end that has bound it keeps it. -/

namespace Axona

open Library OrderedMap

variable {ι : Type} {C : Channels ι} {side : Side} {w : WebRTC} {i j : ι}

/-! ### What unbinding does -/

theorem unbindPeer_tables (w : WebRTC) (m : MeshId) :
    (w.unbindPeer m).nodeIdByMeshId = w.nodeIdByMeshId.delete m
      ∧ (w.unbindPeer m).channelKeyByMeshId = w.channelKeyByMeshId.delete m := by
  unfold WebRTC.unbindPeer
  simp only []
  split
  · exact ⟨rfl, rfl⟩
  split
  · exact ⟨rfl, rfl⟩
  · exact ⟨rfl, rfl⟩

/-- The route of a node goes with its own channel only. -/
theorem unbindPeer_route (w : WebRTC) (m : MeshId) (n : NodeId) :
    (w.unbindPeer m).meshIdByNodeId.get n =
      if w.nodeIdByMeshId.get m = some n ∧ w.meshIdByNodeId.get n = some m then none
      else w.meshIdByNodeId.get n := by
  unfold WebRTC.unbindPeer
  cases hm : w.nodeIdByMeshId.get m with
  | none => exact (if_neg (by rintro ⟨⟨⟩, -⟩)).symm
  | some n' =>
    simp only []
    by_cases hroute : w.meshIdByNodeId.get n' = some m
    · rw [if_pos hroute, get_delete]
      by_cases hn : n = n'
      · rw [if_pos hn, if_pos ⟨congrArg some hn.symm, hn ▸ hroute⟩]
      · rw [if_neg hn, if_neg (by rintro ⟨⟨⟩, -⟩; exact hn rfl)]
    · rw [if_neg hroute]
      exact (if_neg (by rintro ⟨⟨⟩, hn⟩; exact hroute hn)).symm

/-! ### One end -/

/-- The bindings of a transport agree with the channel that is held: it is the route to the other
node, no other mesh id is bound to that node, its key is known, and no other node is routed over a
channel to this one. -/
structure Holds (C : Channels ι) (side : Side) (w : WebRTC) (held : Option ι) : Prop where
  route : w.meshIdByNodeId.get (C.nodeId side) = held.map (C.meshId side)
  back : ∀ m, w.nodeIdByMeshId.get m = some (C.nodeId side) ↔ held.map (C.meshId side) = some m
  key : ∀ i, held = some i → w.channelKeyByMeshId.get (C.meshId side i) = some (C.key i)
  others : ∀ n m, n ≠ C.nodeId side → w.meshIdByNodeId.get n = some m → ∀ i, m ≠ C.meshId side i

namespace Holds

variable {held : Option ι} {m : MeshId} {n : NodeId}

theorem init (C : Channels ι) (side : Side) : Holds C side .init none where
  route := rfl
  back _ := ⟨nofun, nofun⟩
  key := nofun
  others := nofun

/-- Requests change no binding. -/
theorem congr {w' : WebRTC} (h : Holds C side w held)
    (hroute : w'.meshIdByNodeId = w.meshIdByNodeId) (hback : w'.nodeIdByMeshId = w.nodeIdByMeshId)
    (hkey : w'.channelKeyByMeshId = w.channelKeyByMeshId) : Holds C side w' held where
  route := hroute ▸ h.route
  back := hback ▸ h.back
  key := hkey ▸ h.key
  others := hroute ▸ h.others

theorem route_unbindPeer {l : MeshId} (hroute : (w.unbindPeer m).meshIdByNodeId.get n = some l) :
    w.meshIdByNodeId.get n = some l := by
  rw [unbindPeer_route] at hroute
  split at hroute
  · cases hroute
  · exact hroute

/-- A mesh id ends that is not the route. -/
theorem unbindPeer (h : Holds C side w held) (hm : held.map (C.meshId side) ≠ some m) :
    Holds C side (w.unbindPeer m) held where
  route := by
    rw [unbindPeer_route, if_neg fun hand => hm ((h.back m).mp hand.1)]
    exact h.route
  back m' := by
    rw [(unbindPeer_tables w m).1, get_delete, ← h.back m']
    by_cases heq : m' = m
    · rw [if_pos heq, heq]
      exact ⟨nofun, fun hn => absurd ((h.back m).mp hn) hm⟩
    · rw [if_neg heq]
  key i hi := by
    rw [(unbindPeer_tables w m).2, get_delete, if_neg, h.key i hi]
    rintro rfl
    exact hm (by rw [hi]; rfl)
  others n m' hn hroute := h.others n m' hn (route_unbindPeer hroute)

/-- The route ends. -/
theorem unbind (h : Holds C side w (some i)) :
    Holds C side (w.unbindPeer (C.meshId side i)) none where
  route := by
    rw [unbindPeer_route, if_pos ⟨(h.back _).mpr rfl, h.route⟩]
    rfl
  back m' := by
    rw [(unbindPeer_tables w _).1, get_delete]
    refine ⟨fun hn => ?_, nofun⟩
    split at hn
    · cases hn
    next hne => exact absurd (Option.some.inj ((h.back m').mp hn)).symm hne
  key := nofun
  others n m' hn hroute := h.others n m' hn (route_unbindPeer hroute)

theorem onPeerLost (h : Holds C side w held) (hm : held.map (C.meshId side) ≠ some m) :
    Holds C side (w.onPeerLost m) held := by
  unfold WebRTC.onPeerLost
  split
  · exact h.unbindPeer hm
  split
  · refine Holds.unbindPeer ?_ hm
    exact h.congr rfl rfl rfl
  · exact h.unbindPeer hm

theorem lost (h : Holds C side w (some i)) :
    Holds C side (w.onPeerLost (C.meshId side i)) none := by
  unfold WebRTC.onPeerLost
  split
  · exact h.unbind
  split
  · refine Holds.unbind ?_
    exact h.congr rfl rfl rfl
  · exact h.unbind

/-- **Binding** a channel: the node has no other one. -/
theorem bind_only (h : Holds C side w held)
    (hm : ∀ j, held = some j → C.meshId side j = C.meshId side i) :
    w.duplicate (C.nodeId side) (C.meshId side i) (some (C.key i)) = none
      ∧ Holds C side (w.bindPeer (C.nodeId side) (C.meshId side i) (some (C.key i))) (some i) := by
  have hnone : w.duplicate (C.nodeId side) (C.meshId side i) (some (C.key i)) = none := by
    unfold WebRTC.duplicate
    rw [h.route]
    cases held with
    | none => rfl
    | some j => exact if_pos (hm j rfl)
  have hw : w.bindPeer (C.nodeId side) (C.meshId side i) (some (C.key i)) = { w with
      meshIdByNodeId := w.meshIdByNodeId.set (C.nodeId side) (C.meshId side i)
      nodeIdByMeshId := w.nodeIdByMeshId.set (C.meshId side i) (C.nodeId side)
      channelKeyByMeshId := w.channelKeyByMeshId.set (C.meshId side i) (C.key i) } := by
    unfold WebRTC.bindPeer
    rw [hnone]
    rfl
  refine ⟨hnone, hw ▸ ⟨?_, fun m => ?_, ?_, fun n m hn hroute => ?_⟩⟩
  · exact (get_set ..).trans (if_pos rfl)
  · show (w.nodeIdByMeshId.set _ _).get m = _ ↔ some (C.meshId side i) = some m
    rw [get_set]
    by_cases heq : m = C.meshId side i
    · rw [if_pos heq, heq]
      exact iff_of_true rfl rfl
    · rw [if_neg heq, h.back m]
      refine ⟨fun hheld => ?_, fun hi => absurd (Option.some.inj hi).symm heq⟩
      obtain ⟨j, hj, rfl⟩ := Option.map_eq_some_iff.mp hheld
      exact absurd (hm j hj) heq
  · rintro _ ⟨⟩
    exact (get_set ..).trans (if_pos rfl)
  · replace hroute : (w.meshIdByNodeId.set _ _).get n = some m := hroute
    rw [get_set, if_neg hn] at hroute
    exact h.others n m hn hroute

/-- Of two channels one is kept. -/
theorem settle (h : Holds C side w (some j)) {winner loser : ι} (hj : j = winner ∨ j = loser)
    (hne : C.meshId side winner ≠ C.meshId side loser) {keys : OrderedMap MeshId Text}
    (hkey : keys.get (C.meshId side winner) = some (C.key winner)) :
    Holds C side { w with
      meshIdByNodeId := w.meshIdByNodeId.set (C.nodeId side) (C.meshId side winner)
      nodeIdByMeshId := (w.nodeIdByMeshId.set (C.meshId side winner) (C.nodeId side)).delete
        (C.meshId side loser)
      channelKeyByMeshId := keys.delete (C.meshId side loser) } (some winner) where
  route := (get_set ..).trans (if_pos rfl)
  back m := by
    show ((w.nodeIdByMeshId.set _ _).delete _).get m = _ ↔ some (C.meshId side winner) = some m
    rw [get_delete, get_set]
    by_cases hl : m = C.meshId side loser
    · rw [if_pos hl, hl]
      exact ⟨nofun, fun hw => absurd (Option.some.inj hw) hne⟩
    by_cases hw : m = C.meshId side winner
    · rw [if_neg hl, if_pos hw, hw]
      exact iff_of_true rfl rfl
    rw [if_neg hl, if_neg hw, h.back m]
    refine iff_of_false (fun hheld => ?_) fun hm => hw (Option.some.inj hm).symm
    rcases hj with rfl | rfl
    · exact hw (Option.some.inj hheld).symm
    · exact hl (Option.some.inj hheld).symm
  key := by
    rintro _ ⟨⟩
    show (keys.delete _).get _ = _
    rw [get_delete, if_neg hne, hkey]
  others n m hn hroute := by
    replace hroute : (w.meshIdByNodeId.set _ _).get n = some m := hroute
    rw [get_set, if_neg hn] at hroute
    exact h.others n m hn hroute

/-- **Binding a second channel.** The one with the smaller key is the route from now on, and the
other one is disconnected. -/
theorem bind_second (h : Holds C side w (some j)) (hm : C.meshId side j ≠ C.meshId side i) :
    (C.key i < C.key j
        ∧ w.duplicate (C.nodeId side) (C.meshId side i) (some (C.key i)) =
          some (C.meshId side i, C.meshId side j)
        ∧ Holds C side (w.bindPeer (C.nodeId side) (C.meshId side i) (some (C.key i))) (some i))
      ∨ (¬C.key i < C.key j
        ∧ w.duplicate (C.nodeId side) (C.meshId side i) (some (C.key i)) =
          some (C.meshId side j, C.meshId side i)
        ∧ Holds C side (w.bindPeer (C.nodeId side) (C.meshId side i) (some (C.key i)))
          (some j)) := by
  have hold : (w.keysWith (C.meshId side i) (some (C.key i))).get (C.meshId side j) =
      some (C.key j) := by
    unfold WebRTC.keysWith
    rw [get_set, if_neg hm, h.key j rfl]
  have hnew : (w.keysWith (C.meshId side i) (some (C.key i))).get (C.meshId side i) =
      some (C.key i) := by
    unfold WebRTC.keysWith
    rw [get_set, if_pos rfl]
  have hdup : w.duplicate (C.nodeId side) (C.meshId side i) (some (C.key i)) =
      if decide (C.key i < C.key j) then some (C.meshId side i, C.meshId side j)
      else some (C.meshId side j, C.meshId side i) := by
    unfold WebRTC.duplicate
    rw [h.route, Option.map_some, Option.bind_some, if_neg hm, hold]
    rfl
  by_cases hlt : C.key i < C.key j
  · rw [decide_eq_true hlt, if_pos rfl] at hdup
    refine .inl ⟨hlt, hdup, ?_⟩
    unfold WebRTC.bindPeer
    rw [hdup]
    exact h.settle (.inr rfl) hm.symm hnew
  · rw [decide_eq_false hlt, if_neg Bool.false_ne_true] at hdup
    refine .inr ⟨hlt, hdup, ?_⟩
    unfold WebRTC.bindPeer
    rw [hdup]
    exact h.settle (.inl rfl) hm hold

/-! ### Other peers -/

/-- Another node is routed over another mesh id. -/
theorem rebind (h : Holds C side w held) (hn : n ≠ C.nodeId side) (hm : ∀ i, m ≠ C.meshId side i)
    {back : OrderedMap MeshId NodeId} {keys : OrderedMap MeshId Text}
    (hback : ∀ m', (∀ i, m' ≠ C.meshId side i) → back.get m' ≠ some (C.nodeId side))
    (hbacks : ∀ i, back.get (C.meshId side i) = w.nodeIdByMeshId.get (C.meshId side i))
    (hkeys : ∀ i, keys.get (C.meshId side i) = w.channelKeyByMeshId.get (C.meshId side i)) :
    Holds C side { w with
      meshIdByNodeId := w.meshIdByNodeId.set n m
      nodeIdByMeshId := back
      channelKeyByMeshId := keys } held where
  route := by
    show (w.meshIdByNodeId.set n m).get _ = _
    rw [get_set, if_neg hn.symm]
    exact h.route
  back m' := by
    show back.get m' = _ ↔ _
    by_cases hname : ∃ i, m' = C.meshId side i
    · obtain ⟨i, rfl⟩ := hname
      rw [hbacks i]
      exact h.back _
    · rw [not_exists] at hname
      refine iff_of_false (hback m' hname) fun hheld => ?_
      obtain ⟨i, -, hi⟩ := Option.map_eq_some_iff.mp hheld
      exact hname i hi.symm
  key i hi := (hkeys i).trans (h.key i hi)
  others n' m' hn' hroute := by
    replace hroute : (w.meshIdByNodeId.set n m).get n' = some m' := hroute
    rw [get_set] at hroute
    split at hroute
    · exact Option.some.inj hroute ▸ hm
    · exact h.others n' m' hn' hroute

/-- No other mesh id is bound to the other node. -/
theorem back_apart (h : Holds C side w held) (hm : ∀ i, m ≠ C.meshId side i) :
    w.nodeIdByMeshId.get m ≠ some (C.nodeId side) := by
  intro hback
  obtain ⟨i, -, hi⟩ := Option.map_eq_some_iff.mp ((h.back m).mp hback)
  exact hm i hi.symm

theorem bindPeer_apart (h : Holds C side w held) (hn : n ≠ C.nodeId side)
    (hm : ∀ i, m ≠ C.meshId side i) (key : Option Text) :
    Holds C side (w.bindPeer n m key) held := by
  have hset : ∀ k : MeshId, ∀ m', (∀ i, m' ≠ C.meshId side i) →
      (w.nodeIdByMeshId.set k n).get m' ≠ some (C.nodeId side) := by
    intro k m' hm'
    rw [get_set]
    split
    · exact fun heq => hn (Option.some.inj heq)
    · exact h.back_apart hm'
  have hkeys : ∀ i, (w.keysWith m key).get (C.meshId side i) =
      w.channelKeyByMeshId.get (C.meshId side i) := by
    intro i
    unfold WebRTC.keysWith
    cases key with
    | none => rfl
    | some k => exact (get_set ..).trans (if_neg (hm i).symm)
  unfold WebRTC.bindPeer
  cases hdup : w.duplicate n m key with
  | none =>
    refine h.rebind hn hm (hset m) (fun i => ?_) hkeys
    rw [get_set, if_neg (hm i).symm]
  | some p =>
    obtain ⟨winner, loser⟩ := p
    obtain ⟨prev, hprev, hp⟩ := Option.bind_eq_some_iff.mp hdup
    have hapart : (∀ i, winner ≠ C.meshId side i) ∧ ∀ i, loser ≠ C.meshId side i := by
      have hprev := h.others n prev hn hprev
      split at hp
      · cases hp
      split at hp
      · cases hp
        exact ⟨hm, hprev⟩
      · cases hp
        exact ⟨hprev, hm⟩
    refine h.rebind hn hapart.1 (fun m' hm' => ?_) (fun i => ?_) fun i => ?_
    · rw [get_delete]
      split
      · rintro ⟨⟩
      · exact hset winner m' hm'
    · rw [get_delete, if_neg (hapart.2 i).symm, get_set, if_neg (hapart.1 i).symm]
    · rw [get_delete, if_neg (hapart.2 i).symm, hkeys i]

theorem apart_ne (hm : ∀ i, m ≠ C.meshId side i) : held.map (C.meshId side) ≠ some m := by
  intro hheld
  obtain ⟨i, -, hi⟩ := Option.map_eq_some_iff.mp hheld
  exact hm i hi.symm

theorem aside (h : Holds C side w held) {a : WebRTC.Act} (ha : Pair.Apart C side a) :
    Holds C side (w.step a) held := by
  cases a with
  | bindPeer n m key => exact h.bindPeer_apart ha.1 ha.2 key
  | unbindPeer m => exact h.unbindPeer (apart_ne ha)
  | peerLost m => exact h.onPeerLost (apart_ne ha)
  | closeConnection n =>
    show Holds C side (w.closeConnection n) held
    unfold WebRTC.closeConnection
    split
    · exact h
    next m hroute =>
    split
    · exact h
    · exact h.unbindPeer (apart_ne (h.others n m ha hroute))
  | send n connected throws =>
    show Holds C side (w.send n connected throws) held
    unfold WebRTC.send
    split
    · exact h.congr rfl rfl rfl
    split
    · exact h.congr rfl rfl rfl
    split
    · exact h.congr rfl rfl rfl
    · exact h.congr rfl rfl rfl
  | message m msg =>
    show Holds C side (w.onMessage m msg) held
    unfold WebRTC.onMessage
    split
    · exact h.congr rfl rfl rfl
    · exact h
  | stop =>
    show Holds C side w.stop held
    unfold WebRTC.stop
    split
    · exact h.congr rfl rfl rfl
    · exact h
  | start | timeout => exact h.congr rfl rfl rfl

end Holds

/-! ### Both ends -/

namespace Pair

/-- Both ends agree with what is held, and the channel with the smallest key was not closed. -/
structure EndsAgree (C : Channels ι) (i₀ : ι) (s : Pair ι) : Prop where
  holds : ∀ side, Holds C side (s.ends side) (s.held side)
  spared : i₀ ∉ s.closed

variable {s : Pair ι} {i₀ : ι}

theorem endsAgree_init (C : Channels ι) (i₀ : ι) : EndsAgree C i₀ .init where
  holds side := .init C side
  spared := nofun

/-- What changes one end only. -/
theorem EndsAgree.update (h : s.EndsAgree C i₀) {held : Option ι} {closed : List ι}
    (hend : Holds C side w held) (hspared : i₀ ∉ closed) :
    EndsAgree C i₀ ⟨Function.update s.ends side w, Function.update s.held side held, closed⟩ where
  holds side' := by
    show Holds C side' (Function.update s.ends side w side')
      (Function.update s.held side held side')
    by_cases heq : side' = side
    · rw [heq, Function.update_self, Function.update_self]
      exact hend
    · rw [Function.update_of_ne heq, Function.update_of_ne heq]
      exact h.holds side'
  spared := hspared

/-- **What a bind does** to the end: it holds the new channel, or the one it held stays and has the
smaller key; and what is closed has the larger key of the two. -/
theorem EndsAgree.bind_cases (h : s.EndsAgree C i₀) (side : Side) (i : ι) :
    ∃ w k closed, s.bind C side i =
        ⟨Function.update s.ends side w, Function.update s.held side (some k), closed ++ s.closed⟩
      ∧ Holds C side w (some k)
      ∧ ((k = i ∧ ∀ j, s.held side = some j →
          C.meshId side j = C.meshId side i ∨ C.key i < C.key j)
        ∨ s.held side = some k ∧ ¬C.key i < C.key k)
      ∧ ∀ l ∈ closed, C.key k ≤ C.key l ∧ l ≠ k := by
  have hend := h.holds side
  unfold bind
  simp only [C.keyAt_eq]
  by_cases hm : ∀ j, s.held side = some j → C.meshId side j = C.meshId side i
  · obtain ⟨hnone, hbound⟩ := hend.bind_only hm
    refine ⟨_, i, [], ?_, hbound, .inl ⟨rfl, fun j hj => .inl (hm j hj)⟩, nofun⟩
    rw [hnone]
    rfl
  rw [not_forall] at hm
  obtain ⟨j, hm⟩ := hm
  rw [Classical.not_imp] at hm
  obtain ⟨hj, hm⟩ := hm
  rw [hj] at hend
  rcases hend.bind_second hm with ⟨hlt, hdup, hbound⟩ | ⟨hlt, hdup, hbound⟩
  · refine ⟨_, i, [j], ?_, hbound, .inl ⟨rfl, fun j' hj' => .inr ?_⟩, ?_⟩
    · rw [hdup]
      simp only []
      rw [if_pos trivial, if_neg hm, hj]
      rfl
    · cases hj.symm.trans hj'
      exact hlt
    · rintro l hl
      rw [List.mem_singleton.mp hl]
      exact ⟨hlt.le, fun hji => hm (congrArg _ hji)⟩
  · refine ⟨_, j, [i], ?_, hbound, .inr ⟨hj, hlt⟩, ?_⟩
    · rw [hdup]
      simp only []
      rw [if_neg hm, if_pos trivial, ← hj, Function.update_eq_self]
      rfl
    · rintro l hl
      rw [List.mem_singleton.mp hl]
      exact ⟨not_lt.mp hlt, fun hij => hm (congrArg _ hij.symm)⟩

variable [DecidableEq ι]

/-- **What a loss does** to the end: it holds what it held, unless it held what is lost. -/
theorem EndsAgree.lost_holds (h : s.EndsAgree C i₀) (hp : s.Possible C (.lost side i)) :
    ∃ w held, s.lost C side i =
        ⟨Function.update s.ends side w, Function.update s.held side held, s.closed⟩
      ∧ Holds C side w held ∧ (s.held side ≠ some i → held = s.held side) := by
  have hend := h.holds side
  unfold lost
  by_cases hheld : s.held side = some i
  · refine ⟨_, none, ?_, (hheld ▸ hend).lost, absurd hheld⟩
    rw [if_pos hheld]
  have hroute : (s.held side).map (C.meshId side) ≠ some (C.meshId side i) := by
    intro hm
    obtain ⟨j, hj, hname⟩ := Option.map_eq_some_iff.mp hm
    exact hheld (hp.2 j hj hname ▸ hj)
  refine ⟨_, s.held side, ?_, hend.onPeerLost hroute, fun _ => rfl⟩
  rw [if_neg hheld, Function.update_eq_self]

section

variable (hmin : ∀ i, C.key i₀ ≤ C.key i) (h : s.EndsAgree C i₀)
include hmin h

/-- **The step.** -/
theorem EndsAgree.step (a : Act ι)
    (hp : s.Possible C a) : EndsAgree C i₀ (s.step C a) := by
  cases a with
  | bind side i =>
    obtain ⟨w, k, closed, heq, hend, -, hclosed⟩ := h.bind_cases side i
    show EndsAgree C i₀ (s.bind C side i)
    rw [heq]
    refine h.update hend fun hmem => ?_
    rcases List.mem_append.mp hmem with hl | hl
    · obtain ⟨hle, hne⟩ := hclosed i₀ hl
      exact hne (C.key_injective (le_antisymm (hmin k) hle))
    · exact h.spared hl
  | lost side i =>
    obtain ⟨w, held, heq, hend, -⟩ := h.lost_holds hp
    show EndsAgree C i₀ (s.lost C side i)
    rw [heq]
    exact h.update hend h.spared
  | aside side a =>
    have hend := (h.holds side).aside hp
    have heq : s.step C (.aside side a) = ⟨Function.update s.ends side ((s.ends side).step a),
        Function.update s.held side (s.held side), s.closed⟩ := by
      rw [Function.update_eq_self]
      rfl
    rw [heq]
    exact h.update hend h.spared

omit [DecidableEq ι] in
/-- An end that binds the channel with the smallest key holds it. -/
theorem EndsAgree.held_bind (side : Side) :
    (s.bind C side i₀).held side = some i₀ := by
  obtain ⟨w, k, closed, heq, -, hk, -⟩ := h.bind_cases side i₀
  rw [heq]
  refine (Function.update_self ..).trans (congrArg some ?_)
  rcases hk with ⟨hk, -⟩ | ⟨-, hle⟩
  · exact hk
  · exact C.key_injective (le_antisymm (not_lt.mp hle) (hmin k))

/-- And goes on to. -/
theorem EndsAgree.held_step (a : Act ι)
    (hp : s.Possible C a) (hheld : s.held side = some i₀) :
    (s.step C a).held side = some i₀ := by
  cases a with
  | bind side' i =>
    obtain ⟨w, k, closed, heq, hend, hk, hclosed⟩ := h.bind_cases side' i
    show (s.bind C side' i).held side = some i₀
    rw [heq]
    by_cases hside : side = side'
    · subst hside
      refine (Function.update_self ..).trans ?_
      rcases hk with ⟨rfl, hk⟩ | ⟨hk, -⟩
      · rcases hk i₀ hheld with hname | hlt
        · exact congrArg some (hp i₀ hheld hname).symm
        · exact absurd hlt (not_lt.mpr (hmin k))
      · exact hk.symm.trans hheld
    · exact (Function.update_of_ne hside ..).trans hheld
  | lost side' i =>
    obtain ⟨w, held, heq, -, hkeep⟩ := h.lost_holds hp
    show (s.lost C side' i).held side = some i₀
    rw [heq]
    by_cases hside : side = side'
    · subst hside
      refine (Function.update_self ..).trans ((hkeep fun hi => ?_).trans hheld)
      rw [hheld] at hi
      exact h.spared (Option.some.inj hi ▸ hp.1)
    · exact (Function.update_of_ne hside ..).trans hheld
  | aside side' a => exact hheld

end

omit [DecidableEq ι] in
/-- What is held is all that is bound to the other node. -/
theorem EndsAgree.only (h : s.EndsAgree C i₀) (hheld : s.held side = some i) : s.Only C side i := by
  have hend := h.holds side
  rw [hheld] at hend
  exact ⟨hend.route, fun m => (hend.back m).trans ⟨fun hm => (Option.some.inj hm).symm,
    fun hm => congrArg some hm.symm⟩⟩

end Pair

/-- **One survivor.** -/
theorem one_survivor (C : Channels ι) [DecidableEq ι] (i₀ : ι) (hmin : ∀ i, C.key i₀ ≤ C.key i)
    (as : List (Pair.Act ι)) (hrun : EachStep (Pair.step C) (Pair.Possible C) .init as) :
    i₀ ∉ (run (Pair.step C) .init as).closed
      ∧ ∀ side, .bind side i₀ ∈ as → (run (Pair.step C) .init as).Only C side i₀ := by
  have hsound : (run (Pair.step C) .init as).EndsAgree C i₀ :=
    EachStep.invariant (fun s a h hp => h.step hmin a hp) (Pair.endsAgree_init C i₀) hrun
  refine ⟨hsound.spared, fun side hbind => hsound.only ?_⟩
  exact EachStep.reaches (I := Pair.EndsAgree C i₀) (S := fun s => s.held side = some i₀)
    (B := fun a => a = .bind side i₀) (fun s a h hp => h.step hmin a hp)
    (fun s a h hp hheld => h.held_step hmin a hp hheld)
    (fun s a h _ ha => by rw [ha]; exact h.held_bind hmin side) (Pair.endsAgree_init C i₀) hrun
    ⟨_, hbind, rfl⟩

/-- Two channels of which each end drew the nonces. -/
def bothDialled : Channels Bool where
  nodeId side := if side = .left then 2 else 1
  meshId _ i := if i then ['2'] else ['1']
  nonce side i := [if side = .left then (if i then 'b' else 'a') else (if i then 'd' else 'c')]
  distinct i j h := by
    revert i j
    decide

/-- The left end disconnects a channel that is bound at the right one, which hears of it. -/
def bothBound : List (Pair.Act Bool) :=
  [.bind .left true, .bind .right true, .bind .left false, .lost .right true, .bind .right false]

theorem one_survivor_dialled :
    false ∉ (run (Pair.step bothDialled) .init bothBound).closed
      ∧ ∀ side, .bind side false ∈ bothBound →
        (run (Pair.step bothDialled) .init bothBound).Only bothDialled side false := by
  have hname : ∀ side i j, bothDialled.meshId side j = bothDialled.meshId side i → j = i := by
    intro side
    cases side with
    | left => decide
    | right => decide
  exact one_survivor bothDialled false (by decide) bothBound
    ⟨fun j _ => hname _ _ j, fun j _ => hname _ _ j, fun j _ => hname _ _ j,
      ⟨by decide +kernel, fun j _ => hname _ _ j⟩, fun j _ => hname _ _ j, trivial⟩

end Axona
