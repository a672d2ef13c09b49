import Axona.Transport.Negotiation

/-! # Signalling and the channels that are open

The signalling is carried by others, so nothing it says should end a channel that has opened, or
change what the connection of the channel agreed on. The handlers of the frames guard against it
each in a way of its own; this file tells which frames come through, and shows that there are no
others. -/

namespace Axona

open Library OrderedMap

/-! ### The connections -/

namespace PeerConnection

variable {pc pc' : PeerConnection} {type : SdpType} {takes : Bool}

theorem negotiated_setRemoteDescription (h : pc.setRemoteDescription type takes = some pc') (hn :
    pc.negotiated = true) :
    pc'.negotiated = true := by
  unfold setRemoteDescription at h
  split at h
  · split at h
    · cases h
      exact hn
    · cases h
      rfl
    · cases h
  · cases h

theorem negotiated_setLocalDescription (h : pc.setLocalDescription type takes = some pc') (hn :
    pc.negotiated = true) :
    pc'.negotiated = true := by
  unfold setLocalDescription at h
  split at h
  · split at h
    · cases h
    · cases h
      exact hn
    · cases h
      rfl
    · cases h
  · cases h

/-- A description that is taken is counted. -/
theorem described_setRemoteDescription (h : pc.setRemoteDescription type takes = some pc') :
    pc'.described = pc.described + 1 := by
  unfold setRemoteDescription at h
  split at h
  · split at h <;> cases h <;> rfl
  · cases h

theorem described_setLocalDescription (h : pc.setLocalDescription type takes = some pc') :
    pc'.described = pc.described + 1 := by
  unfold setLocalDescription at h
  split at h
  · split at h <;> cases h <;> rfl
  · cases h

end PeerConnection

/-! ### What every run keeps -/

/-- A channel is open over a connection that was negotiated. -/
def Negotiation.OpenNegotiated (st : Negotiation) : Prop :=
  st.opened = true → st.pc.any (·.negotiated) = true

/-- A change that keeps whose negotiation it is, and keeps it sound. -/
structure Negotiation.SamePeer (st st' : Negotiation) : Prop where
  peerId : st'.peerId = st.peerId
  keyed : st.OpenNegotiated → st'.OpenNegotiated

namespace Negotiation

/-- A change of neither the connection nor the opening. -/
theorem SamePeer.of_eq {st st' : Negotiation} (hid : st'.peerId = st.peerId)
    (hopen : st'.opened = st.opened) (hpc : st'.pc = st.pc) : st.SamePeer st' := by
  refine ⟨hid, ?_⟩
  intro h
  unfold OpenNegotiated
  rw [hopen, hpc]
  exact h

/-- The connection has taken a description, and what was negotiated stays so. -/
theorem SamePeer.describe {st : Negotiation} {pc' : PeerConnection}
    (h : ∀ pc, st.pc = some pc → pc.negotiated = true → pc'.negotiated = true) :
    st.SamePeer { st with pc := some pc' } := by
  refine ⟨rfl, ?_⟩
  intro hs hopen
  have hany := hs hopen
  cases hpc : st.pc with
  | none =>
    rw [hpc] at hany
    cases hany
  | some pc =>
    rw [hpc] at hany
    exact h pc hpc hany

theorem SamePeer.fail (st : Negotiation) (overdue : Bool) :
    st.SamePeer ({ st with state := .failed }.scheduleRetry overdue) := by
  unfold Negotiation.scheduleRetry
  split
  · exact .of_eq rfl rfl rfl
  · exact .of_eq rfl rfl rfl

theorem SamePeer.onOpen (st : Negotiation) : st.SamePeer st.onOpen := by
  unfold Negotiation.onOpen
  split
  next h => exact ⟨rfl, fun _ _ => h⟩
  · exact .of_eq rfl rfl rfl

theorem any_negotiated_map (pc : Option PeerConnection) (cs : PeerConnection → List Text) :
    (pc.map fun pc => { pc with candidates := cs pc }).any (·.negotiated)
      = pc.any (·.negotiated) := by
  cases pc with
  | none => rfl
  | some pc => rfl

/-- More candidates for the connection. -/
theorem SamePeer.candidates {st st' : Negotiation} (cs : PeerConnection → List Text)
    (hid : st'.peerId = st.peerId) (hopen : st'.opened = st.opened)
    (hpc : st'.pc = st.pc.map fun pc => { pc with candidates := cs pc }) : st.SamePeer st' := by
  refine ⟨hid, ?_⟩
  intro h
  unfold OpenNegotiated
  rw [hopen, hpc, any_negotiated_map]
  exact h

theorem SamePeer.flush (st : Negotiation) : st.SamePeer st.flushPendingCandidates :=
  .candidates _ rfl rfl rfl

theorem SamePeer.addCandidate (st : Negotiation) (candidate : Text) :
    st.SamePeer (st.addCandidate candidate) := by
  unfold Negotiation.addCandidate
  split
  · exact .candidates _ rfl rfl rfl
  · exact .of_eq rfl rfl rfl

theorem SamePeer.display (st : Negotiation) (silent : Bool) :
    st.SamePeer (if silent then { st with state := .stale }
      else if st.state = .stale then { st with state := .open } else st) := by
  split
  · exact .of_eq rfl rfl rfl
  split
  · exact .of_eq rfl rfl rfl
  · exact .of_eq rfl rfl rfl

/-- A negotiation without a connection has not opened. -/
theorem SamePeer.attachPc {st : Negotiation} (h : st.pc.isSome = false) : st.SamePeer st.attachPc := by
  refine ⟨rfl, ?_⟩
  intro hs hopen
  have hany := hs hopen
  rw [Option.isSome_eq_false_iff, Option.isNone_iff_eq_none] at h
  rw [h] at hany
  cases hany

end Negotiation

namespace MeshManager

/-- What a key holds is a negotiation of that key, and an open channel was negotiated. -/
structure Keyed (s : MeshManager) : Prop where
  keyed : ∀ k r, s.peers.get k = some r → r < s.states.next ∧ (s.states.get r).peerId = k
  states : ∀ r, (s.states.get r).OpenNegotiated

namespace Keyed

variable {s s' : MeshManager}

theorem init (myId : MeshId) (incRun : Text) : (MeshManager.init myId incRun).Keyed where
  keyed := by
    intro k r h
    cases h
  states := by
    intro r h
    cases h

section

variable (h : s.Keyed)
include h

/-- What was sent, the tasks and the counts say nothing of it. -/
theorem congr (hp : s'.peers = s.peers) (hs : s'.states = s.states) : s'.Keyed where
  keyed := by
    rw [hp, hs]
    exact h.keyed
  states := by
    rw [hs]
    exact h.states

theorem update {r : Ref} {f : Negotiation → Negotiation}
    (hf : (s.states.get r).SamePeer (f (s.states.get r))) : (s.update r f).Keyed where
  keyed := by
    intro k q hq
    obtain ⟨hlt, hid⟩ := h.keyed k q hq
    refine ⟨hlt, ?_⟩
    show ((s.states.modify r f).get q).peerId = k
    rw [Heap.get_modify]
    split
    · next hqr =>
      subst hqr
      rw [hf.peerId]
      exact hid
    · exact hid
  states := by
    intro q
    show ((s.states.modify r f).get q).OpenNegotiated
    rw [Heap.get_modify]
    split
    · exact hf.keyed (h.states r)
    · exact h.states q

theorem await (t : NegTask) : (s.await t).Keyed := h.congr rfl rfl

theorem sendSignal (dest : MeshId) (sig : Signal) : (s.sendSignal dest sig).Keyed :=
  h.congr rfl rfl

theorem enter {st : Negotiation} (hst : st.OpenNegotiated) : (s.enter st).Keyed where
  keyed := by
    intro k r hr
    show r < s.states.next + 1 ∧ ((s.states.alloc st).1.get r).peerId = k
    replace hr : (s.peers.set st.peerId s.states.next).get k = some r := hr
    rw [get_set] at hr
    split at hr
    · next hk =>
      cases hr
      rw [Heap.get_alloc, if_pos rfl]
      exact ⟨Nat.lt_succ_self _, hk.symm⟩
    · obtain ⟨hlt, hid⟩ := h.keyed k r hr
      rw [Heap.get_alloc_of_lt _ _ hlt]
      exact ⟨Nat.lt_succ_of_lt hlt, hid⟩
  states := by
    intro r
    show ((s.states.alloc st).1.get r).OpenNegotiated
    rw [Heap.get_alloc]
    split
    · exact hst
    · exact h.states r

theorem delete (k : MeshId) : ({ s with peers := s.peers.delete k }).Keyed where
  keyed := by
    intro k' r hr
    replace hr : (s.peers.delete k).get k' = some r := hr
    exact h.keyed k' r (of_get_delete hr)
  states := h.states

theorem retire (peerId : MeshId) : (s.retire peerId).Keyed := by
  unfold MeshManager.retire
  split
  · exact h
  · exact (h.update (.of_eq rfl rfl rfl)).delete peerId

theorem mintAttempt : s.mintAttempt.1.Keyed := h.congr rfl rfl

theorem initiateTo (peerId : MeshId) (room : Bool) :
    (s.initiateTo peerId room).Keyed := by
  unfold MeshManager.initiateTo
  split
  · refine (h.mintAttempt.enter ?_).await _
    intro hopen
    cases hopen
  · exact h.mintAttempt

theorem dial (peerId : MeshId) (room : Bool) : (s.dial peerId room).Keyed := by
  unfold MeshManager.dial
  split
  · exact h
  · exact h.initiateTo peerId room

theorem onPeerList (ids : List Listed) : (s.onPeerList ids).Keyed := by
  unfold MeshManager.onPeerList
  induction ids generalizing s with
  | nil => exact h
  | cons e ids ih =>
    rw [List.foldl_cons]
    split
    · exact ih h
    · exact ih (h.initiateTo _ _)

theorem onPeerJoined (peerId : MeshId) (cooldown : Bool) :
    (s.onPeerJoined peerId cooldown).Keyed := by
  unfold MeshManager.onPeerJoined
  split
  · exact h
  refine h.enter ?_
  intro hopen
  cases hopen

theorem onPeerLeft (peerId : MeshId) : (s.onPeerLeft peerId).Keyed := by
  unfold MeshManager.onPeerLeft
  split
  · exact h
  · exact h.retire peerId

theorem sendReject (dest : MeshId) (attempt : Option Attempt) :
    (s.sendReject dest attempt).Keyed := by
  unfold MeshManager.sendReject
  split
  · exact h
  · exact h.sendSignal _ _

theorem setRemote (r : Ref) (type : SdpType) (takes : Bool) (t : NegTask) :
    (s.setRemote r type takes t).Keyed := by
  unfold MeshManager.setRemote
  split
  · exact h
  next pc hpc =>
  refine (h.update (.describe ?_)).await t
  intro pc' hpc' hn
  rw [hpc', Option.bind_some] at hpc
  exact PeerConnection.negotiated_setRemoteDescription hpc hn

theorem setLocal {r : Ref} {type : SdpType} {takes : Bool} {pc : PeerConnection}
    (hpc : (s.states.get r).pc.bind (·.setLocalDescription type takes) = some pc) :
    (s.update r fun st => { st with pc := some pc }).Keyed := by
  refine h.update (.describe ?_)
  intro pc' hpc' hn
  rw [hpc', Option.bind_some] at hpc
  exact PeerConnection.negotiated_setLocalDescription hpc hn

theorem handleOffer (r : Ref) (takes : Bool) : (s.handleOffer r takes).Keyed := by
  have hat : (if (s.states.get r).pc.isSome then s else s.update r Negotiation.attachPc).Keyed := by
    split
    · exact h
    next hpc => exact h.update (.attachPc (Bool.not_eq_true _ ▸ hpc))
  exact hat.setRemote r .offer takes _

theorem ensureResponder (peerId : MeshId) : (s.ensureResponder peerId).1.Keyed := by
  unfold MeshManager.ensureResponder
  split
  · exact h
  refine h.enter ?_
  intro hopen
  cases hopen

theorem answerOffer (sender : MeshId) (attempt : Option Attempt) (takes : Bool) :
    (s.answerOffer sender attempt takes).Keyed := by
  unfold MeshManager.answerOffer
  refine Keyed.handleOffer (Keyed.update (h.ensureResponder sender) ?_) _ _
  split
  · exact .of_eq rfl rfl rfl
  · exact .of_eq rfl rfl rfl

end

theorem onOffer (requireFor : MeshId → Bool) (h : s.Keyed) (sender : MeshId)
    (attempt : Option Attempt) (room takes : Bool) (now : Int) :
    (s.onOffer requireFor sender attempt room takes now).Keyed := by
  unfold MeshManager.onOffer
  split
  · exact h
  · exact h.sendReject _ _
  · have hbump : (s.bumpReplaceCount sender now).Keyed := h.congr rfl rfl
    exact (hbump.retire sender).answerOffer _ _ _
  · exact h.answerOffer _ _ _

theorem onAnswer (requireFor : MeshId → Bool) (h : s.Keyed) (sender : MeshId)
    (attempt : Option Attempt) (takes : Bool) :
    (s.onAnswer requireFor sender attempt takes).Keyed := by
  unfold MeshManager.onAnswer
  split
  · exact h
  split
  · exact h.setRemote _ _ _ _
  · exact h

theorem onReject (h : s.Keyed) (sender : MeshId) (attempt : Option Attempt) :
    (s.onReject sender attempt).Keyed := by
  unfold MeshManager.onReject
  split
  · exact h
  split
  · exact h
  · exact h.retire sender

theorem onIce (requireFor : MeshId → Bool) (h : s.Keyed) (sender : MeshId)
    (attempt : Option Attempt) (candidate : Text) :
    (s.onIce requireFor sender attempt candidate).Keyed := by
  unfold MeshManager.onIce
  split
  · exact h
  split
  · exact h.update (.addCandidate _ _)
  · exact h

theorem onSignal (requireFor : MeshId → Bool) (h : s.Keyed) (sender : MeshId) (sig : Signal)
    (room takes : Bool) (now : Int) : (s.onSignal requireFor sender sig room takes now).Keyed := by
  cases sig with
  | offer attempt => exact h.onOffer requireFor sender attempt room takes now
  | answer attempt => exact h.onAnswer requireFor sender attempt takes
  | reject attempt => exact h.onReject sender attempt
  | ice attempt candidate => exact h.onIce requireFor sender attempt candidate
  | other => exact h

section

variable (h : s.Keyed)
include h

theorem sendIf (c : Prop) [Decidable c] (dest : MeshId) (sig : Signal) :
    (if c then s.sendSignal dest sig else s).Keyed := by
  split
  · exact h.sendSignal _ _
  · exact h

theorem resume (t : NegTask) (takes overdue : Bool) :
    (s.resume t takes overdue).Keyed := by
  unfold MeshManager.resume
  split
  · have hs : ({ s with tasks := s.tasks.erase t }).Keyed := h.congr rfl rfl
    generalize ({ s with tasks := s.tasks.erase t } : MeshManager) = s' at hs
    cases t with
    | offerMade r =>
      show (s'.afterOfferMade r takes overdue).Keyed
      unfold afterOfferMade
      split
      next hset => exact (hs.setLocal hset).await _
      · exact hs.update (.fail _ _)
    | offerSet r | answerSet r => exact hs.sendIf _ _ _
    | offerTaken r =>
      show (s'.afterOfferTaken r).Keyed
      unfold afterOfferTaken
      split
      · exact (hs.update (.flush _)).await _
      · exact hs
    | flushed r =>
      show (s'.afterFlushed r).Keyed
      unfold afterFlushed
      split
      · exact hs.await _
      · exact hs
    | answerMade r =>
      show (s'.afterAnswerMade r takes).Keyed
      unfold afterAnswerMade
      split
      next hset => exact (hs.setLocal hset).await _
      · exact hs
    | answerTaken r =>
      show (s'.afterAnswerTaken r).Keyed
      unfold afterAnswerTaken
      split
      · exact hs.update (.flush _)
      · exact hs
  · exact h

theorem heartbeat (r : Ref) (silent : Bool) : (s.heartbeat r silent).Keyed := by
  unfold MeshManager.heartbeat
  split
  · exact h.update (.display _ _)
  · exact h

theorem retry (r : Ref) (room : Bool) : (s.retry r room).Keyed := by
  unfold MeshManager.retry
  simp only []
  split
  · have hs : (s.update r fun st => { st with retryTimer := false }).Keyed :=
      h.update (.of_eq rfl rfl rfl)
    split
    · exact (hs.retire _).initiateTo _ _
    · exact hs
  · exact h

theorem onConnClosed (r : Ref) : (s.onConnClosed r).Keyed := by
  have hs : (s.update r fun st => { st with state := .closed }).Keyed :=
    h.update (.of_eq rfl rfl rfl)
  unfold MeshManager.onConnClosed
  simp only []
  split
  · exact hs.retire _
  · exact hs

end

theorem step (requireFor : MeshId → Bool) (h : s.Keyed) (a : Act) :
    (s.step requireFor a).Keyed := by
  cases a with
  | peerList ids => exact h.onPeerList ids
  | peerJoined peerId cooldown => exact h.onPeerJoined peerId cooldown
  | peerLeft peerId => exact h.onPeerLeft peerId
  | signal sender sig room takes now => exact h.onSignal requireFor sender sig room takes now
  | resume t takes overdue => exact h.resume t takes overdue
  | heartbeat r silent => exact h.heartbeat r silent
  | dial peerId room => exact h.dial peerId room
  | iceCandidate r candidate => exact h.sendIf _ _ _
  | dataChannel r => exact h.update (.of_eq rfl rfl rfl)
  | opened r => exact h.update (.onOpen _)
  | connFailed r overdue => exact h.update (.fail _ _)
  | connClosed r => exact h.onConnClosed r
  | retry r room => exact h.retry r room
  | retire peerId => exact h.retire peerId

end Keyed

/-! ### A channel that stands -/

/-- The descriptions a connection took. -/
def described (s : MeshManager) (r : Ref) : Option Nat := (s.states.get r).pc.map (·.described)

/-- The key holds the channel, which is open, and its connection took no description since `s₀`. -/
structure Stands (s₀ : MeshManager) (k : MeshId) (r : Ref) (s : MeshManager) : Prop where
  current : s.peers.get k = some r
  opened : (s.states.get r).opened = true
  described : s.described r = s₀.described r

/-- What is left as it was of a key and of a negotiation. -/
structure Leaves (k : MeshId) (r : Ref) (s s' : MeshManager) : Prop where
  next : s.states.next ≤ s'.states.next
  current : s'.peers.get k = s.peers.get k
  opened : (s'.states.get r).opened = (s.states.get r).opened
  described : s'.described r = s.described r

namespace Leaves

variable {k : MeshId} {r : Ref} {s s' s'' : MeshManager}

theorem refl (s : MeshManager) : Leaves k r s s := ⟨le_rfl, rfl, rfl, rfl⟩

theorem trans (h : Leaves k r s s') (h' : Leaves k r s' s'') : Leaves k r s s'' where
  next := h.next.trans h'.next
  current := h'.current.trans h.current
  opened := h'.opened.trans h.opened
  described := h'.described.trans h.described

theorem stands {s₀ : MeshManager} (h : Leaves k r s s') (hs : Stands s₀ k r s) :
    Stands s₀ k r s' where
  current := h.current.trans hs.current
  opened := h.opened.trans hs.opened
  described := h.described.trans hs.described

theorem of_eq (hp : s'.peers = s.peers) (hs : s'.states = s.states) : Leaves k r s s' where
  next := by rw [hs]
  current := by rw [hp]
  opened := by rw [hs]
  described := by
    unfold MeshManager.described
    rw [hs]

variable (s : MeshManager)

theorem await (t : NegTask) : Leaves k r s (s.await t) := of_eq rfl rfl

theorem sendSignal (dest : MeshId) (sig : Signal) :
    Leaves k r s (s.sendSignal dest sig) := of_eq rfl rfl

/-- A change of another negotiation. -/
theorem update_of_ne {q : Ref} (hq : r ≠ q) (f : Negotiation → Negotiation) :
    Leaves k r s (s.update q f) where
  next := le_rfl
  current := rfl
  opened := by
    show ((s.states.modify q f).get r).opened = _
    rw [Heap.get_modify_of_ne _ f hq]
  described := by
    show ((s.states.modify q f).get r).pc.map _ = _
    rw [Heap.get_modify_of_ne _ f hq]
    rfl

/-- A change of neither the opening nor the descriptions. -/
theorem update (q : Ref) {f : Negotiation → Negotiation}
    (hopen : (f (s.states.get q)).opened = (s.states.get q).opened)
    (hpc : (f (s.states.get q)).pc.map (·.described) = (s.states.get q).pc.map (·.described)) :
    Leaves k r s (s.update q f) := by
  by_cases hq : r = q
  · subst hq
    refine ⟨le_rfl, rfl, ?_, ?_⟩
    · show ((s.states.modify r f).get r).opened = _
      rw [Heap.get_modify_self]
      exact hopen
    · show ((s.states.modify r f).get r).pc.map _ = _
      rw [Heap.get_modify_self]
      exact hpc
  · exact update_of_ne s hq f

theorem enter {st : Negotiation} (hk : st.peerId ≠ k) (hr : r < s.states.next) :
    Leaves k r s (s.enter st) where
  next := Nat.le_succ _
  current := by
    show (s.peers.set st.peerId s.states.next).get k = _
    rw [get_set, if_neg (Ne.symm hk)]
  opened := by
    show ((s.states.alloc st).1.get r).opened = _
    rw [Heap.get_alloc_of_lt _ _ hr]
  described := by
    show ((s.states.alloc st).1.get r).pc.map _ = _
    rw [Heap.get_alloc_of_lt _ _ hr]
    rfl

theorem retire {peerId : MeshId} (hk : peerId ≠ k) :
    Leaves k r s (s.retire peerId) := by
  unfold MeshManager.retire
  split
  · exact refl s
  next q _ =>
  refine (update s q (f := fun st => { st with retryTimer := false }) rfl rfl).trans
    ⟨le_rfl, ?_, rfl, rfl⟩
  show (s.peers.delete peerId).get k = s.peers.get k
  rw [get_delete, if_neg (Ne.symm hk)]

theorem initiateTo {peerId : MeshId} (hk : peerId ≠ k) (hr : r < s.states.next)
    (room : Bool) : Leaves k r s (s.initiateTo peerId room) := by
  have hmint : Leaves k r s s.mintAttempt.1 := of_eq rfl rfl
  unfold MeshManager.initiateTo
  split
  · exact (hmint.trans (enter _ hk hr)).trans (await _ _)
  · exact hmint

theorem setRemote_of_ne {q : Ref} (hq : r ≠ q) (type : SdpType) (takes : Bool)
    (t : NegTask) : Leaves k r s (s.setRemote q type takes t) := by
  unfold MeshManager.setRemote
  split
  · exact refl s
  · exact (update_of_ne s hq _).trans (await _ _)

theorem handleOffer {q : Ref} (hq : r ≠ q) (takes : Bool) :
    Leaves k r s (s.handleOffer q takes) := by
  refine Leaves.trans ?_ (setRemote_of_ne _ hq .offer takes (.offerTaken q))
  split
  · exact refl s
  · exact update_of_ne s hq _

end Leaves

section Frames

variable {k : MeshId} {r : Ref} {s : MeshManager}

/-- The keys that are held are passed over. -/
theorem leaves_onPeerList (hk : s.peers.get k = some r) (hr : r < s.states.next)
    (ids : List Listed) : Leaves k r s (s.onPeerList ids) := by
  unfold onPeerList
  induction ids generalizing s with
  | nil => exact .refl s
  | cons e ids ih =>
    rw [List.foldl_cons]
    split
    · exact ih hk hr
    next hnew =>
    have hne : e.peerId ≠ k := by
      intro he
      refine hnew (.inr (.inl ?_))
      rw [he, OrderedMap.has, hk]
      rfl
    have hone := Leaves.initiateTo (r := r) s hne hr e.room
    exact hone.trans (ih (hone.current.trans hk) (Nat.lt_of_lt_of_le hr hone.next))

theorem leaves_onPeerJoined (hk : s.peers.get k = some r) (hr : r < s.states.next)
    (peerId : MeshId) (cooldown : Bool) : Leaves k r s (s.onPeerJoined peerId cooldown) := by
  unfold onPeerJoined
  split
  · exact .refl s
  next hnew =>
  refine .enter s ?_ hr
  intro he
  replace he : peerId = k := he
  refine hnew (.inr (.inl ?_))
  rw [he, OrderedMap.has, hk]
  rfl

theorem peerId_retire (s : MeshManager) (peerId : MeshId) (q : Ref) :
    ((s.retire peerId).states.get q).peerId = (s.states.get q).peerId := by
  unfold retire
  split
  · rfl
  next q' _ =>
  show ((s.states.modify q' fun st => { st with retryTimer := false }).get q).peerId = _
  rw [Heap.get_modify]
  split
  · next hq => rw [hq]
  · rfl

/-- What another sender's offer does is done to another negotiation. -/
theorem leaves_answerOffer (hs : s.Keyed) (hr : r < s.states.next)
    (hid : (s.states.get r).peerId = k) {sender : MeshId} (hk : sender ≠ k)
    (attempt : Option Attempt) (takes : Bool) :
    Leaves k r s (s.answerOffer sender attempt takes) := by
  have hensure : Leaves k r s (s.ensureResponder sender).1 ∧ r ≠ (s.ensureResponder sender).2 := by
    unfold ensureResponder
    cases hq : s.peers.get sender with
    | some q =>
      refine ⟨.refl s, ?_⟩
      intro he
      replace he : r = q := he
      refine hk ?_
      rw [← (hs.keyed sender q hq).2, ← he, hid]
    | none => exact ⟨.enter s hk hr, Nat.ne_of_lt hr⟩
  unfold answerOffer
  exact (hensure.1.trans (.update_of_ne _ hensure.2 _)).trans (.handleOffer _ hensure.2 takes)

theorem leaves_onOffer (requireFor : MeshId → Bool) (hs : s.Keyed) (hr : r < s.states.next)
    (hid : (s.states.get r).peerId = k) {sender : MeshId} (hk : sender ≠ k)
    (attempt : Option Attempt) (room takes : Bool) (now : Int) :
    Leaves k r s (s.onOffer requireFor sender attempt room takes now) := by
  unfold onOffer
  split
  · exact .refl s
  · unfold sendReject
    split
    · exact .refl s
    · exact .sendSignal _ _ _
  · have hbump : Leaves k r s (s.bumpReplaceCount sender now) := .of_eq rfl rfl
    have hsb : (s.bumpReplaceCount sender now).Keyed := hs.congr rfl rfl
    have hret : Leaves k r s ((s.bumpReplaceCount sender now).retire sender) :=
      hbump.trans (.retire _ hk)
    refine hret.trans (leaves_answerOffer (hsb.retire sender) ?_ ?_ hk attempt takes)
    · exact Nat.lt_of_lt_of_le hr hret.next
    · rw [peerId_retire]
      exact hid
  · exact leaves_answerOffer hs hr hid hk attempt takes

theorem leaves_onReject (hk : s.peers.get k = some r) (hopen : (s.states.get r).opened = true)
    (sender : MeshId) (attempt : Option Attempt) : Leaves k r s (s.onReject sender attempt) := by
  unfold onReject
  split
  · exact .refl s
  next st hst =>
  split
  · exact .refl s
  next hcheck =>
  refine .retire s ?_
  intro he
  unfold peer at hst
  rw [he, hk] at hst
  cases hst
  simp [hopen] at hcheck

theorem leaves_onIce (requireFor : MeshId → Bool) (sender : MeshId) (attempt : Option Attempt)
    (candidate : Text) : Leaves k r s (s.onIce requireFor sender attempt candidate) := by
  unfold onIce
  split
  · exact .refl s
  split
  · refine .update s _ ?_ ?_
    · unfold Negotiation.addCandidate
      split <;> rfl
    · unfold Negotiation.addCandidate
      split
      · show (Option.map _ (Option.map _ _)) = _
        rw [Option.map_map]
        rfl
      · rfl
  · exact .refl s

theorem leaves_flush (q : Ref) : Leaves k r s (s.update q Negotiation.flushPendingCandidates) := by
  refine .update s q rfl ?_
  show (Option.map _ (Option.map _ _)) = _
  rw [Option.map_map]
  rfl

theorem leaves_heartbeat (q : Ref) (silent : Bool) : Leaves k r s (s.heartbeat q silent) := by
  unfold heartbeat
  split
  · refine .update s q ?_ ?_
    · split
      · rfl
      · split <;> rfl
    · split
      · rfl
      · split <;> rfl
  · exact .refl s

end Frames

/-! ### Which frames come through -/

/-- Would the connection take a remote description? -/
def TakesRemote (s : MeshManager) (r : Ref) (type : SdpType) (takes : Bool) : Prop :=
  ((s.states.get r).pc.bind (·.setRemoteDescription type takes)).isSome = true

/-- Would it take one of ours? -/
def TakesLocal (s : MeshManager) (r : Ref) (type : SdpType) (takes : Bool) : Prop :=
  ((s.states.get r).pc.bind (·.setLocalDescription type takes)).isSome = true

/-- What the signalling can bring about: a frame of the bridge or of a relay, and the handler of one
going on. The heartbeat of a channel that is not found dead only changes how it is shown. -/
def Act.signalled : Act → Bool
  | .peerList _ => true
  | .peerJoined _ _ => true
  | .peerLeft _ => true
  | .signal _ _ _ _ _ => true
  | .resume _ _ _ => true
  | .heartbeat _ _ => true
  | _ => false

/-- An act that does no harm to the channel `r` of the key `k`. A peer leaves while the channel is
shown as open; an offer under its key is told off by its attempt id, and so is an answer, or the
connection takes neither; and the answering of an earlier offer does not go on to describe it. -/
def Harmless (requireFor : MeshId → Bool) (k : MeshId) (r : Ref) (s : MeshManager) : Act → Prop
  | .peerLeft peerId => peerId = k → (s.states.get r).state = .open
  | .signal sender (.offer attempt) _ takes _ => sender = k →
      (attempt = none ∧ requireFor k = true)
      ∨ (attempt ≠ none ∧ (s.states.get r).attempt ≠ attempt)
      ∨ ¬ s.TakesRemote r .offer takes
  | .signal sender (.answer attempt) _ takes _ => sender = k →
      attemptOk requireFor k (s.states.get r) attempt = true → ¬ s.TakesRemote r .answer takes
  | .resume t takes _ => t ∈ s.tasks →
      (t = .offerMade r → ¬ s.TakesLocal r .offer takes)
      ∧ (t = .answerMade r → ¬ s.TakesLocal r .answer takes)
  | _ => True

section Channel

variable {k : MeshId} {r : Ref} {s₀ s s' : MeshManager}

section

variable (h : Stands s₀ k r s)
include h

/-- A connection takes one more description: that of the channel has been touched then. -/
theorem Stands.describe_iff {q : Ref} {pc pc' : PeerConnection}
    (hpc : (s.states.get q).pc = some pc) (hone : pc'.described = pc.described + 1) (t : NegTask) :
    Stands s₀ k r ((s.update q fun st => { st with pc := some pc' }).await t) ↔ q ≠ r := by
  by_cases hq : q = r
  · subst hq
    refine iff_of_false ?_ fun hne => hne rfl
    intro h'
    have heq := h'.described.trans h.described.symm
    have hpc' : ((s.states.modify q fun st => { st with pc := some pc' }).get q).pc = some pc' := by
      rw [Heap.get_modify_self]
    replace heq : ((s.states.modify q fun st => { st with pc := some pc' }).get q).pc.map
        (·.described) = (s.states.get q).pc.map (·.described) := heq
    rw [hpc, hpc', Option.map_some, Option.map_some, Option.some.injEq] at heq
    omega
  · exact iff_of_true (((Leaves.update_of_ne s (Ne.symm hq) _).trans (.await _ _)).stands h) hq

theorem Stands.setRemote_iff (type : SdpType) (takes : Bool) (t : NegTask) :
    Stands s₀ k r (s.setRemote r type takes t) ↔ ¬ s.TakesRemote r type takes := by
  unfold setRemote TakesRemote
  cases hpc : (s.states.get r).pc with
  | none => simp [h]
  | some pc =>
    rw [Option.bind_some]
    cases hset : pc.setRemoteDescription type takes with
    | none => simp [h]
    | some pc' =>
      have hone := PeerConnection.described_setRemoteDescription hset
      simp [h.describe_iff hpc hone t]

theorem Stands.setLocal_iff {q : Ref} {type : SdpType} {takes : Bool}
    {pc' : PeerConnection}
    (hset : (s.states.get q).pc.bind (·.setLocalDescription type takes) = some pc') (t : NegTask) :
    Stands s₀ k r ((s.update q fun st => { st with pc := some pc' }).await t) ↔ q ≠ r := by
  cases hpc : (s.states.get q).pc with
  | none =>
    rw [hpc] at hset
    cases hset
  | some pc =>
    rw [hpc, Option.bind_some] at hset
    exact h.describe_iff hpc (PeerConnection.described_setLocalDescription hset) t

/-- A channel that is open has a connection. -/
theorem Stands.pc_isSome (hs : s.Keyed) :
    (s.states.get r).pc.isSome = true := by
  have hany := hs.states r h.opened
  cases hpc : (s.states.get r).pc with
  | none =>
    rw [hpc] at hany
    cases hany
  | some pc => rfl

theorem Stands.onPeerLeft_iff (peerId : MeshId) :
    Stands s₀ k r (s.onPeerLeft peerId) ↔ (peerId = k → (s.states.get r).state = .open) := by
  by_cases hk : peerId = k
  · subst hk
    have hpeer : s.peer peerId = some (s.states.get r) := by
      unfold peer
      rw [h.current]
      rfl
    unfold onPeerLeft
    rw [hpeer, Option.any_some]
    by_cases hopen : (s.states.get r).state = .open
    · rw [if_pos (decide_eq_true hopen)]
      exact iff_of_true h fun _ => hopen
    rw [if_neg (by simpa using hopen)]
    refine iff_of_false ?_ (by simpa using hopen)
    intro h'
    have hcur := h'.current
    unfold retire at hcur
    rw [h.current] at hcur
    replace hcur : (s.peers.delete peerId).get peerId = some r := hcur
    rw [get_delete, if_pos rfl] at hcur
    cases hcur
  · refine iff_of_true ?_ fun he => absurd he hk
    unfold onPeerLeft
    split
    · exact h
    · exact (Leaves.retire s hk).stands h

/-- An offer under the key of an open channel is either ignored or handled. -/
theorem Stands.offerVerdict_eq (hs : s.Keyed) (requireFor : MeshId → Bool)
    (attempt : Option Attempt) (room : Bool) (now : Int) :
    s.offerVerdict requireFor k attempt room now = if (attempt = none ∧ requireFor k = true)
        ∨ (attempt ≠ none ∧ (s.states.get r).attempt ≠ attempt) then .ignored else .handled := by
  have hpeer : s.peer k = some (s.states.get r) := by
    unfold peer
    rw [h.current]
    rfl
  unfold offerVerdict
  rw [hpeer]
  cases attempt with
  | none =>
    by_cases hreq : requireFor k = true
    · simp [hreq]
    · simp [hreq, replaces, h.pc_isSome hs]
  | some a =>
    by_cases hsame : (s.states.get r).attempt = some a
    · simp [replaces, hsame, h.pc_isSome hs]
    · simp [replaces, hsame, h.opened]

theorem Stands.answerOffer_iff (hs : s.Keyed) (attempt : Option Attempt)
    (takes : Bool) :
    Stands s₀ k r (s.answerOffer k attempt takes) ↔ ¬ s.TakesRemote r .offer takes := by
  have hensure : s.ensureResponder k = (s, r) := by
    unfold ensureResponder
    rw [h.current]
  unfold answerOffer
  rw [hensure]
  generalize hf : (fun st : Negotiation =>
    if attempt.isSome then { st with attempt := attempt } else st) = f
  have hopen : (f (s.states.get r)).opened = (s.states.get r).opened := by
    subst hf
    split <;> rfl
  have hpc : (f (s.states.get r)).pc = (s.states.get r).pc := by
    subst hf
    split <;> rfl
  have hstands : Stands s₀ k r (s.update r f) := by
    refine (Leaves.update s r hopen ?_).stands h
    rw [hpc]
  have hpc' : ((s.update r f).states.get r).pc = (s.states.get r).pc := by
    show ((s.states.modify r f).get r).pc = _
    rw [Heap.get_modify_self, hpc]
  unfold handleOffer
  simp only []
  rw [hpc', if_pos (h.pc_isSome hs), hstands.setRemote_iff]
  unfold TakesRemote
  rw [hpc']

end

section

variable (requireFor : MeshId → Bool) (h : Stands s₀ k r s) (hs : s.Keyed) (sender : MeshId)
include h hs

theorem Stands.onOffer_iff (attempt : Option Attempt) (room takes : Bool) (now : Int) :
    Stands s₀ k r (s.onOffer requireFor sender attempt room takes now) ↔
      (sender = k → (attempt = none ∧ requireFor k = true)
        ∨ (attempt ≠ none ∧ (s.states.get r).attempt ≠ attempt)
        ∨ ¬ s.TakesRemote r .offer takes) := by
  obtain ⟨hlt, hid⟩ := hs.keyed k r h.current
  by_cases hk : sender = k
  · subst hk
    have hself : ∀ p : Prop, (sender = sender → p) ↔ p := fun _ => forall_prop_of_true rfl
    unfold MeshManager.onOffer
    rw [h.offerVerdict_eq hs, hself, ← or_assoc]
    by_cases hign : (attempt = none ∧ requireFor sender = true)
        ∨ (attempt ≠ none ∧ (s.states.get r).attempt ≠ attempt)
    · rw [if_pos hign]
      exact iff_of_true h (.inl hign)
    · rw [if_neg hign]
      exact (h.answerOffer_iff hs attempt takes).trans (or_iff_right hign).symm
  · exact iff_of_true ((leaves_onOffer requireFor hs hlt hid hk attempt room takes now).stands h)
      fun he => absurd he hk

theorem Stands.onAnswer_iff (attempt : Option Attempt) (takes : Bool) :
    Stands s₀ k r (s.onAnswer requireFor sender attempt takes) ↔
      (sender = k → attemptOk requireFor k (s.states.get r) attempt = true →
        ¬ s.TakesRemote r .answer takes) := by
  obtain ⟨-, hid⟩ := hs.keyed k r h.current
  by_cases hk : sender = k
  · subst hk
    have hself : ∀ p : Prop, (sender = sender → p) ↔ p := fun _ => forall_prop_of_true rfl
    unfold MeshManager.onAnswer
    rw [h.current, hself]
    simp only []
    by_cases hok : attemptOk requireFor sender (s.states.get r) attempt = true
    · rw [if_pos hok, h.setRemote_iff]
      exact ⟨fun hn _ => hn, fun hn => hn hok⟩
    · rw [if_neg hok]
      exact iff_of_true h fun he => absurd he hok
  · refine iff_of_true ?_ fun he => absurd he hk
    unfold MeshManager.onAnswer
    cases hq : s.peers.get sender with
    | none => exact h
    | some q =>
      have hne : r ≠ q := by
        intro he
        refine hk ?_
        rw [← (hs.keyed sender q hq).2, ← he, hid]
      dsimp only
      split
      · exact (Leaves.setRemote_of_ne s hne _ _ _).stands h
      · exact h

theorem Stands.onSignal_iff (sig : Signal) (room takes : Bool) (now : Int) :
    Stands s₀ k r (s.onSignal requireFor sender sig room takes now) ↔
      Harmless requireFor k r s (.signal sender sig room takes now) := by
  cases sig with
  | offer attempt => exact h.onOffer_iff requireFor hs sender attempt room takes now
  | answer attempt => exact h.onAnswer_iff requireFor hs sender attempt takes
  | reject attempt =>
    exact iff_of_true ((leaves_onReject h.current h.opened sender attempt).stands h) trivial
  | ice attempt candidate =>
    exact iff_of_true ((leaves_onIce requireFor sender attempt candidate).stands h) trivial
  | other => exact iff_of_true h trivial

end

section

variable (h : Stands s₀ k r s)
include h

theorem Stands.afterOfferMade_iff (q : Ref) (takes overdue : Bool) :
    Stands s₀ k r (s.afterOfferMade q takes overdue) ↔ (q = r → ¬ s.TakesLocal r .offer takes) := by
  unfold afterOfferMade
  cases hset : (s.states.get q).pc.bind (·.setLocalDescription .offer takes) with
  | none =>
    refine iff_of_true ?_ ?_
    · refine (Leaves.update s q ?_ ?_).stands h
      · unfold Negotiation.scheduleRetry
        split <;> rfl
      · unfold Negotiation.scheduleRetry
        split <;> rfl
    · rintro rfl
      simp [TakesLocal, hset]
  | some pc' =>
    refine (h.setLocal_iff hset _).trans (forall_congr' ?_)
    rintro rfl
    simp [TakesLocal, hset]

theorem Stands.afterAnswerMade_iff (q : Ref) (takes : Bool) :
    Stands s₀ k r (s.afterAnswerMade q takes) ↔ (q = r → ¬ s.TakesLocal r .answer takes) := by
  unfold afterAnswerMade
  cases hset : (s.states.get q).pc.bind (·.setLocalDescription .answer takes) with
  | none =>
    refine iff_of_true h ?_
    rintro rfl
    simp [TakesLocal, hset]
  | some pc' =>
    refine (h.setLocal_iff hset _).trans (forall_congr' ?_)
    rintro rfl
    simp [TakesLocal, hset]

theorem Stands.sendIf (c : Prop) [Decidable c] (dest : MeshId)
    (sig : Signal) : Stands s₀ k r (if c then s.sendSignal dest sig else s) := by
  split
  · exact (Leaves.sendSignal s dest sig).stands h
  · exact h

theorem Stands.resume_iff (t : NegTask) (takes overdue : Bool) :
    Stands s₀ k r (s.resume t takes overdue) ↔
      (t ∈ s.tasks → (t = .offerMade r → ¬ s.TakesLocal r .offer takes)
        ∧ (t = .answerMade r → ¬ s.TakesLocal r .answer takes)) := by
  unfold resume
  by_cases ht : t ∈ s.tasks
  · rw [if_pos ht]
    refine Iff.trans ?_ ⟨fun hn _ => hn, fun hn => hn ht⟩
    have hleave : Leaves k r s { s with tasks := s.tasks.erase t } := .of_eq rfl rfl
    have hs := hleave.stands h
    have htake : ∀ type, ({ s with tasks := s.tasks.erase t } : MeshManager).TakesLocal r type takes
        ↔ s.TakesLocal r type takes := fun _ => Iff.rfl
    generalize ({ s with tasks := s.tasks.erase t } : MeshManager) = s' at hs htake
    cases t with
    | offerMade q =>
      refine (hs.afterOfferMade_iff q takes overdue).trans ?_
      simp [htake]
    | offerSet q =>
      have hsent : Stands s₀ k r (s'.afterOfferSet q) := hs.sendIf _ _ _
      simpa using hsent
    | offerTaken q =>
      have hflush : Stands s₀ k r (s'.afterOfferTaken q) := by
        unfold afterOfferTaken
        split
        · exact ((leaves_flush q).trans (.await _ _)).stands hs
        · exact hs
      simpa using hflush
    | flushed q =>
      have hmade : Stands s₀ k r (s'.afterFlushed q) := by
        unfold afterFlushed
        split
        · exact (Leaves.await _ _).stands hs
        · exact hs
      simpa using hmade
    | answerMade q =>
      refine (hs.afterAnswerMade_iff q takes).trans ?_
      simp [htake]
    | answerSet q =>
      have hsent : Stands s₀ k r (s'.afterAnswerSet q) := hs.sendIf _ _ _
      simpa using hsent
    | answerTaken q =>
      have hflush : Stands s₀ k r (s'.afterAnswerTaken q) := by
        unfold afterAnswerTaken
        split
        · exact (leaves_flush q).stands hs
        · exact hs
      simpa using hflush
  · rw [if_neg ht]
    exact iff_of_true h fun hmem => absurd hmem ht

end

/-- **One step.** The channel stands after it exactly when the step is harmless. -/
theorem Stands.step_iff (requireFor : MeshId → Bool) {a : Act} (ha : a.signalled = true)
    (hs : s.Keyed) (h : Stands s₀ k r s) :
    Stands s₀ k r (s.step requireFor a) ↔ Harmless requireFor k r s a := by
  obtain ⟨hlt, -⟩ := hs.keyed k r h.current
  cases a with
  | peerList ids => exact iff_of_true ((leaves_onPeerList h.current hlt ids).stands h) trivial
  | peerJoined peerId cooldown =>
    exact iff_of_true ((leaves_onPeerJoined h.current hlt peerId cooldown).stands h) trivial
  | peerLeft peerId => exact h.onPeerLeft_iff peerId
  | signal sender sig room takes now => exact h.onSignal_iff requireFor hs sender sig room takes now
  | resume t takes overdue => exact h.resume_iff t takes overdue
  | heartbeat q silent => exact iff_of_true ((leaves_heartbeat q silent).stands h) trivial
  | dial _ _ | iceCandidate _ _ | dataChannel _ | opened _ | connFailed _ _ | connClosed _
  | retry _ _ | retire _ => cases ha

end Channel

/-- The key holds a channel that has opened and was not found dead. -/
structure Live (s : MeshManager) (k : MeshId) (r : Ref) : Prop where
  current : s.peers.get k = some r
  opened : (s.states.get r).opened = true
  alive : (s.states.get r).state ≠ .failed ∧ (s.states.get r).state ≠ .closed

end MeshManager

/-- **What the signalling can do to an open channel.** From every state that a node can reach, and
under all signalling, a channel that has opened stays what its key holds, and its connection as it
was described, in every state exactly when every step is harmless. -/
theorem open_channel_stands_iff (requireFor : MeshId → Bool) (myId : MeshId) (incRun : Text)
    (as bs : List MeshManager.Act) (k : MeshId) (r : Ref)
    (hlive : (run (MeshManager.step requireFor) (.init myId incRun) as).Live k r)
    (hbs : ∀ b ∈ bs, b.signalled = true) :
    EachStep (MeshManager.step requireFor)
      (fun s a => (run (MeshManager.step requireFor) (.init myId incRun) as).Stands k r
        (s.step requireFor a))
      (run (MeshManager.step requireFor) (.init myId incRun) as) bs ↔
    EachStep (MeshManager.step requireFor) (MeshManager.Harmless requireFor k r)
      (run (MeshManager.step requireFor) (.init myId incRun) as) bs := by
  have hsound : (run (MeshManager.step requireFor) (.init myId incRun) as).Keyed :=
    run_invariant (I := MeshManager.Keyed) (fun _ a h => h.step requireFor a) (.init myId incRun) as
  exact EachStep.keeps_iff_of_labels (I := MeshManager.Keyed)
    (fun _ a h => h.step requireFor a) (fun _ _ ha hs h => h.step_iff requireFor ha hs) hsound
    ⟨hlive.current, hlive.opened, rfl⟩ hbs

/-- An offer is answered, and the channel opens. -/
def opensChannel : List MeshManager.Act :=
  [.signal ['k'] (.offer (some ⟨['p'], 1⟩)) true true 0, .resume (.offerTaken 0) true false,
    .resume (.flushed 0) true false, .resume (.answerMade 0) true false,
    .resume (.answerSet 0) true false, .dataChannel 0, .opened 0]

theorem open_channel_stands_iff_answered :
    EachStep (MeshManager.step fun _ => false)
      (fun s a => (run (MeshManager.step fun _ => false) (.init ['m'] ['n'])
        opensChannel).Stands ['k'] 0 (s.step (fun _ => false) a))
      (run (MeshManager.step fun _ => false) (.init ['m'] ['n']) opensChannel)
      [.peerLeft ['k'], .signal ['k'] (.reject none) true true 0] ↔
    EachStep (MeshManager.step fun _ => false) (MeshManager.Harmless (fun _ => false) ['k'] 0)
      (run (MeshManager.step fun _ => false) (.init ['m'] ['n']) opensChannel)
      [.peerLeft ['k'], .signal ['k'] (.reject none) true true 0] :=
  open_channel_stands_iff (fun _ => false) ['m'] ['n'] opensChannel
    [.peerLeft ['k'], .signal ['k'] (.reject none) true true 0] ['k'] 0
    ⟨by decide +kernel, by decide +kernel, by decide +kernel⟩
    (by decide)

/-- A channel that was silent for a while is shown as stale, and goes with a word of the bridge; an
offer without an id, and one that comes twice, describe the connection again. -/
theorem stale_channel_taken_down :
    (((run (MeshManager.step fun _ => false) (.init ['m'] ['n'])
        (opensChannel ++ [.heartbeat 0 true])).peers.get ['k'] = some 0
      ∧ (run (MeshManager.step fun _ => false) (.init ['m'] ['n'])
        (opensChannel ++ [.heartbeat 0 true, .peerLeft ['k']])).peers.get ['k'] = none)
    ∧ (run (MeshManager.step fun _ => false) (.init ['m'] ['n']) opensChannel).described 0 = some 2
      ∧ (run (MeshManager.step fun _ => false) (.init ['m'] ['n'])
        (opensChannel ++ [.signal ['k'] (.offer none) true true 0])).described 0 = some 3
      ∧ (run (MeshManager.step fun _ => false) (.init ['m'] ['n'])
        (opensChannel ++ [.signal ['k'] (.offer (some ⟨['p'], 1⟩)) true true 0])).described 0
          = some 3)
    ∧ ¬ ∀ (requireFor : MeshId → Bool) (myId : MeshId) (incRun : Text)
        (as bs : List MeshManager.Act) (k : MeshId) (r : Ref),
        (run (MeshManager.step requireFor) (.init myId incRun) as).Live k r →
        (∀ b ∈ bs, b.signalled = true) →
        EachStep (MeshManager.step requireFor)
          (fun s a => (run (MeshManager.step requireFor) (.init myId incRun) as).Stands k r
            (s.step requireFor a))
          (run (MeshManager.step requireFor) (.init myId incRun) as) bs := by
  refine ⟨by decide +kernel, ?_⟩
  intro h
  have hall := h (fun _ => false) ['m'] ['n'] (opensChannel ++ [.heartbeat 0 true])
    [.peerLeft ['k']] ['k'] 0 ⟨by decide +kernel, by decide +kernel, by decide +kernel⟩ (by decide)
  have hgone := hall.1.current
  revert hgone
  decide +kernel

end Axona
