import Axona.Safety.Replay
import Axona.Transport.MeshAuth

/-! # Whose frames are on a channel of the mesh

A frame is attributed to the node its mesh id is bound to. The binding is to be of the channel the
frame came on: the proof behind it was over the nonces and the fingerprints of that incarnation, not
of an earlier one that had the same mesh id.

What keeps the two apart is that the mesh reports a lost channel, and `MeshAuth` and the transport
forget its mesh id. The condition `Steady` names the steps in which that does not happen. -/

namespace Axona

open Library OrderedMap

/-- The handshake is of the incarnation: both its nonces are. -/
structure AuthState.IsOf (st : AuthState) (inc : Inc) : Prop where
  mine : st.madeFor = some inc
  peers : st.peerNonce.isSome = true → st.heardOn = some inc

namespace MeshTask

def meshId : MeshTask → MeshId
  | .build m _ _ _ => m
  | .verify m _ _ _ _ => m

def ref : MeshTask → Ref
  | .build _ r _ _ => r
  | .verify _ r _ _ _ => r

def origin : MeshTask → Origin
  | .build _ _ _ o => o
  | .verify _ _ _ _ o => o

/-- It is the check of a proof. -/
def isVerify : MeshTask → Bool
  | .build _ _ _ _ => false
  | .verify _ _ _ _ _ => true

end MeshTask

/-- The frame leaves the handshake alone. -/
def MeshFrame.inert : MeshFrame → Bool
  | .hello peerNonce => peerNonce.isNone
  | .helloSig _ => false
  | .other => true

namespace WebRTC

variable {w : WebRTC} {m : MeshId}

theorem nodeIdByMeshId_unbindPeer (w : WebRTC) (m : MeshId) :
    (w.unbindPeer m).nodeIdByMeshId = w.nodeIdByMeshId.delete m := by
  unfold unbindPeer
  simp only []
  split
  · rfl
  · split <;> rfl

/-- The node of a channel that is unbound has no route over it. -/
theorem of_get_meshIdByNodeId_unbindPeer {N : NodeId} {m' : MeshId}
    (h : (w.unbindPeer m).meshIdByNodeId.get N = some m') :
    w.meshIdByNodeId.get N = some m' ∧ (w.nodeIdByMeshId.get m = some N → m' ≠ m) := by
  unfold unbindPeer at h
  simp only [] at h
  split at h
  next hnone => exact ⟨h, fun hN => by rw [hnone] at hN; cases hN⟩
  next n hn =>
  split at h
  next hroute =>
    replace h : (w.meshIdByNodeId.delete n).get N = some m' := h
    rw [get_delete] at h
    split at h
    · cases h
    next hne =>
    refine ⟨h, fun hN => absurd ?_ hne⟩
    exact Option.some.inj (hN.symm.trans hn)
  next hroute =>
  refine ⟨h, fun hN heq => hroute ?_⟩
  cases hn.symm.trans hN
  exact heq ▸ h

/-- Of the bindings a lost channel leaves what `unbindPeer` leaves. -/
theorem onPeerLost_eq (w : WebRTC) (m : MeshId) :
    ∃ q, w.onPeerLost m = { w with requests := q }.unbindPeer m := by
  unfold onPeerLost
  split
  · exact ⟨w.requests, rfl⟩
  split
  · exact ⟨_, rfl⟩
  · exact ⟨w.requests, rfl⟩

/-- Of two channels to one node one is the one just bound, the other the route so far. -/
theorem of_duplicate {N : NodeId} {key : Option Text} {winner loser : MeshId}
    (h : w.duplicate N m key = some (winner, loser)) :
    ∃ prev, w.meshIdByNodeId.get N = some prev ∧ prev ≠ m
      ∧ (winner = m ∧ loser = prev ∨ winner = prev ∧ loser = m) := by
  unfold duplicate at h
  obtain ⟨prev, hprev, h⟩ := Option.bind_eq_some_iff.mp h
  split at h
  · cases h
  next hne =>
  refine ⟨prev, hprev, hne, ?_⟩
  split at h
  all_goals cases Option.some.inj h
  · exact .inl ⟨rfl, rfl⟩
  · exact .inr ⟨rfl, rfl⟩

/-- The route to a node is a channel bound to it. -/
def Routed (w : WebRTC) : Prop :=
  ∀ N m, w.meshIdByNodeId.get N = some m → w.nodeIdByMeshId.get m = some N

/-- `bindPeer` binds one channel at most that was not bound. -/
theorem Routed.of_bindPeer (h : w.Routed) {N N' : NodeId} {m' : MeshId} {key : Option Text}
    (hN' : (w.bindPeer N m key).nodeIdByMeshId.get m' = some N') :
    m' = m ∧ N' = N ∨ w.nodeIdByMeshId.get m' = some N' := by
  unfold bindPeer at hN'
  split at hN'
  next winner loser hdup =>
    replace hN' : ((w.nodeIdByMeshId.set winner N).delete loser).get m' = some N' := hN'
    obtain ⟨prev, hprev, -, ⟨rfl, rfl⟩ | ⟨rfl, rfl⟩⟩ := of_duplicate hdup
    all_goals
      rw [get_delete, get_set] at hN'
      split at hN'
      · cases hN'
      split at hN'
    · exact .inl ⟨‹_›, (Option.some.inj hN').symm⟩
    · exact .inr hN'
    next heq =>
      rw [← Option.some.inj hN', heq]
      exact .inr (h N _ hprev)
    · exact .inr hN'
  next hdup =>
  replace hN' : (w.nodeIdByMeshId.set m N).get m' = some N' := hN'
  rw [get_set] at hN'
  split at hN'
  · exact .inl ⟨‹_›, (Option.some.inj hN').symm⟩
  · exact .inr hN'

/-- **The routes stay routes.** -/
theorem Routed.bindPeer (h : w.Routed) (hfree : w.nodeIdByMeshId.get m = none) (N : NodeId)
    (key : Option Text) : (w.bindPeer N m key).Routed := by
  intro N' m' hroute
  unfold WebRTC.bindPeer at hroute ⊢
  split
  next winner loser hdup =>
    rw [hdup] at hroute
    replace hroute : (w.meshIdByNodeId.set N winner).get N' = some m' := hroute
    show ((w.nodeIdByMeshId.set winner N).delete loser).get m' = some N'
    obtain ⟨prev, hprev, hne, hwin⟩ := of_duplicate hdup
    rw [get_set] at hroute
    rw [get_delete, get_set]
    split at hroute
    next heq =>
      cases hroute
      rw [if_neg, if_pos rfl, heq]
      rcases hwin with ⟨rfl, rfl⟩ | ⟨rfl, rfl⟩
      · exact Ne.symm hne
      · exact hne
    next hN =>
    have hold := h N' m' hroute
    -- neither of the two channels is the route to another node
    have hm : m' ≠ m := by
      rintro rfl
      rw [hfree] at hold
      cases hold
    have hp : m' ≠ prev := by
      rintro rfl
      exact hN (Option.some.inj (hold.symm.trans (h N _ hprev)))
    rcases hwin with ⟨rfl, rfl⟩ | ⟨rfl, rfl⟩
    · rw [if_neg hp, if_neg hm]
      exact hold
    · rw [if_neg hm, if_neg hp]
      exact hold
  next hdup =>
  rw [hdup] at hroute
  replace hroute : (w.meshIdByNodeId.set N m).get N' = some m' := hroute
  show (w.nodeIdByMeshId.set m N).get m' = some N'
  rw [get_set] at hroute ⊢
  split at hroute
  next heq =>
    cases hroute
    rw [if_pos rfl, heq]
  · have hold := h N' m' hroute
    rw [if_neg]
    · exact hold
    · rintro rfl
      rw [hfree] at hold
      cases hold

end WebRTC

namespace MeshNode

/-! ### The property and the condition -/

/-- **Whoever a frame is attributed to has proven itself on the channel it came on.** -/
def Attributed (s : MeshNode) : Act → Prop
  | .message inc _ _ => ∀ N, s.attributed inc = some N → (N, Origin.one inc) ∈ s.proofs
  | _ => True

/-- **An incarnation is bound once, and while it is up.** -/
structure BoundOnce (s : MeshNode) : Prop where
  once : (s.binds.map Prod.fst).Nodup
  up : ∀ b ∈ s.binds, b.2 = some b.1

/-- The check comes out so that it binds. -/
def WouldBind (allowed : Text → Bool) (st : AuthState) : Except AuthFailure Text → Prop
  | .error _ => False
  | .ok nodeId => accepts allowed st nodeId = true

/-- What waits for the handshake can still end in a binding. -/
def CanBind (P : AuthPrimitives) (allowed : Text → Bool) (st : AuthState) : MeshTask → Prop
  | .build _ _ cbv _ => st.bound = false ∧ ∃ body, st.pendingSig = some body
      ∧ WouldBind allowed st (verifyAuthHello P body cbv)
  | .verify _ _ _ result _ => WouldBind allowed st result

def MayBind (P : AuthPrimitives) (allowed : Text → Bool) (s : MeshNode) (task : MeshTask) : Prop :=
  CanBind P allowed (s.handshakes.get task.ref) task

/-- No handshake of the mesh id can still end in a binding. -/
def Quiet (P : AuthPrimitives) (allowed : Text → Bool) (s : MeshNode) (m : MeshId) : Prop :=
  ∀ k task, s.tasks.get k = some task → task.meshId = m → ¬s.MayBind P allowed task

/-- **The condition.** A channel that has opened is not dialled anew. When one is retired, whoever
is bound on it is unbound with it, and no check is under way that would bind it later. And a channel
that was retired has no frame to deliver that is attributed to anyone or that is of a handshake. -/
def Steady (P : AuthPrimitives) (allowed : Text → Bool) (s : MeshNode) : Act → Prop
  | .retry m _ => ∀ p, s.peers.get m = some p → p.retryTimer = true → p.opened = false
  | .retire m => ∀ p, s.peers.get m = some p → p.opened = true →
      (s.webrtc.started = true ∨ s.webrtc.nodeIdByMeshId.get m = none) ∧ s.Quiet P allowed m
  | .message inc frame _ => s.webrtc.started = true → ∀ m, s.delivers inc = some m →
      (∃ p, s.peers.get m = some p ∧ p.inc = inc ∧ p.opened = true)
        ∨ s.webrtc.nodeIdByMeshId.get m = none ∧ frame.inert = true
  | _ => True

/-! ### What a run keeps -/

/-- A task is one of the handshake of the channel that is up, or nothing comes of it. -/
def InOrder (P : AuthPrimitives) (allowed : Text → Bool) (s : MeshNode) (task : MeshTask) : Prop :=
  (s.states.get task.meshId = some task.ref
      ∧ ∃ inc, s.current task.meshId = some inc ∧ task.origin = .one inc)
    ∨ (∀ m, s.states.get m ≠ some task.ref) ∧ ¬s.MayBind P allowed task

/-- Channels, handshakes, tasks and bindings agree with one another. -/
structure ChannelBooks (P : AuthPrimitives) (allowed : Text → Bool) (s : MeshNode) : Prop where
  /-- The incarnations are numbered. -/
  numbered : ∀ m inc, s.current m = some inc → inc < s.nextInc
  /-- And no two channels have one number. -/
  single : ∀ m m' inc, s.current m = some inc → s.current m' = some inc → m = m'
  /-- A handshake is of the channel that is up, which is open. -/
  states : ∀ m r, s.states.get m = some r → r < s.handshakes.next
    ∧ ∃ p, s.peers.get m = some p ∧ p.opened = true ∧ (s.handshakes.get r).IsOf p.inc
  tasks : ∀ k task, s.tasks.get k = some task →
    k < s.nextTask ∧ task.ref < s.handshakes.next ∧ s.InOrder P allowed task
  /-- A check is of a handshake that waits for it. -/
  checks : ∀ k task, s.tasks.get k = some task → task.isVerify = true →
    (s.handshakes.get task.ref).verifying = true ∧ (s.handshakes.get task.ref).bound = false
  /-- And of no other check. -/
  alone : ∀ k k' task task', s.tasks.get k = some task → s.tasks.get k' = some task' →
    task.isVerify = true → task'.isVerify = true → task.ref = task'.ref → k = k'
  /-- A mesh id is bound by the handshake of the channel that is up. -/
  bound : ∀ m N, s.webrtc.nodeIdByMeshId.get m = some N → ∃ r inc, s.states.get m = some r
    ∧ (s.handshakes.get r).bound = true ∧ s.current m = some inc ∧ (N, Origin.one inc) ∈ s.proofs
  routes : s.webrtc.Routed
  /-- An incarnation that was bound is, while it is up, one whose handshake is over. -/
  settled : ∀ b ∈ s.binds, b.1 < s.nextInc ∧ ∀ m, s.current m = some b.1 →
    ∃ r, s.states.get m = some r ∧ (s.handshakes.get r).bound = true
  once : (s.binds.map Prod.fst).Nodup
  up : ∀ b ∈ s.binds, b.2 = some b.1

variable {P : AuthPrimitives} {allowed : Text → Bool} {s : MeshNode} {m : MeshId} {r : Ref}

theorem channelBooks_init : ChannelBooks P allowed .init where
  numbered := by rintro m inc ⟨⟩
  single := by rintro m m' inc ⟨⟩
  states := by rintro m r ⟨⟩
  tasks := by rintro k task ⟨⟩
  checks := by rintro k task ⟨⟩
  alone := by rintro k k' task task' ⟨⟩
  bound := by rintro m N ⟨⟩
  routes := by rintro N m ⟨⟩
  settled := by rintro b ⟨⟩
  once := List.nodup_nil
  up := by rintro b ⟨⟩

theorem current_of_get {p : MeshPeer} (h : s.peers.get m = some p) : s.current m = some p.inc := by
  unfold current
  rw [h]
  rfl

/-- A handshake is of one mesh id. -/
theorem ChannelBooks.inj (h : s.ChannelBooks P allowed) {m' : MeshId} (hm : s.states.get m = some r)
    (hm' : s.states.get m' = some r) : m = m' := by
  obtain ⟨-, p, hp, -, hof⟩ := h.states m r hm
  obtain ⟨-, p', hp', -, hof'⟩ := h.states m' r hm'
  have hinc : p.inc = p'.inc := Option.some.inj (hof.mine.symm.trans hof'.mine)
  exact h.single m m' p.inc (current_of_get hp) (hinc ▸ current_of_get hp')

/-- The handshake of a mesh id is of the incarnation that is up. -/
theorem ChannelBooks.isOf (h : s.ChannelBooks P allowed) {inc : Inc} (hr : s.states.get m = some r)
    (hinc : s.current m = some inc) : (s.handshakes.get r).IsOf inc := by
  obtain ⟨-, p, hp, -, hof⟩ := h.states m r hr
  rw [current_of_get hp] at hinc
  cases hinc
  exact hof

/-- It rests on three fields of the handshake. -/
theorem CanBind.congr {st st' : AuthState} {task : MeshTask} (h : CanBind P allowed st' task)
    (hbound : st'.bound = st.bound) (hsig : st'.pendingSig = st.pendingSig)
    (hnode : st'.peerNodeId = st.peerNodeId) : CanBind P allowed st task := by
  have hwould : ∀ result, WouldBind allowed st' result → WouldBind allowed st result := by
    intro result hw
    cases result with
    | error => exact hw
    | ok nodeId =>
      unfold WouldBind accepts at hw ⊢
      rw [← hnode]
      exact hw
  cases task with
  | build m' r' cbv origin =>
    obtain ⟨hopen, body, hbody, hw⟩ := h
    exact ⟨hbound ▸ hopen, body, hsig ▸ hbody, hwould _ hw⟩
  | verify m' r' result origin => exact hwould _ h

/-- What waits for a handshake that is over binds nothing. -/
theorem ChannelBooks.quiet (h : s.ChannelBooks P allowed) (hr : s.states.get m = some r)
    (hbound : (s.handshakes.get r).bound = true) : s.Quiet P allowed m := by
  intro k task hk hm hmay
  obtain ⟨-, -, ⟨hst, -⟩ | ⟨-, hspent⟩⟩ := h.tasks k task hk
  · rw [hm, hr] at hst
    have href : r = task.ref := Option.some.inj hst
    cases task with
    | build m' r' cbv origin =>
      obtain rfl : r = r' := href
      have hopen : (s.handshakes.get r).bound = false := hmay.1
      rw [hbound] at hopen
      cases hopen
    | verify m' r' result origin =>
      obtain rfl : r = r' := href
      have hopen : (s.handshakes.get r).bound = false := (h.checks k _ hk rfl).2
      rw [hbound] at hopen
      cases hopen
  · exact hspent hmay

/-! ### The channels -/

section

variable (h : s.ChannelBooks P allowed)
include h

/-- A channel goes on under its number. -/
theorem ChannelBooks.setPeer {p p' : MeshPeer} (hp : s.peers.get m = some p)
    (hinc : p'.inc = p.inc) (hopen : p.opened = true → p'.opened = true) :
    ChannelBooks P allowed { s with peers := s.peers.set m p' } := by
  have hget : ∀ m', (s.peers.set m p').get m' = if m' = m then some p' else s.peers.get m' :=
    fun m' => get_set ..
  have hcur : ∀ m', current { s with peers := s.peers.set m p' } m' = s.current m' := by
    intro m'
    show ((s.peers.set m p').get m').map (·.inc) = (s.peers.get m').map (·.inc)
    rw [hget]
    split
    next heq => rw [heq, hp, Option.map_some, Option.map_some, hinc]
    · rfl
  refine ⟨?_, ?_, ?_, ?_, h.checks, h.alone, ?_, h.routes, ?_, h.once, h.up⟩
  · intro m' inc hm'
    exact h.numbered m' inc (hcur m' ▸ hm')
  · intro m₁ m₂ inc h₁ h₂
    exact h.single m₁ m₂ inc (hcur m₁ ▸ h₁) (hcur m₂ ▸ h₂)
  · intro m' r hr
    obtain ⟨hlt, q, hq, hqo, hof⟩ := h.states m' r hr
    refine ⟨hlt, ?_⟩
    show ∃ q, (s.peers.set m p').get m' = some q ∧ _
    rw [hget]
    split
    next heq =>
      rw [heq, hp] at hq
      cases hq
      exact ⟨p', rfl, hopen hqo, hinc ▸ hof⟩
    · exact ⟨q, hq, hqo, hof⟩
  · intro k task hk
    obtain ⟨hlt, href, ⟨hst, inc, hc, ho⟩ | hspent⟩ := h.tasks k task hk
    · exact ⟨hlt, href, .inl ⟨hst, inc, (hcur _).trans hc, ho⟩⟩
    · exact ⟨hlt, href, .inr hspent⟩
  · intro m' N hN
    obtain ⟨r, inc, hr, hb, hc, hproof⟩ := h.bound m' N hN
    exact ⟨r, inc, hr, hb, (hcur m').trans hc, hproof⟩
  · intro b hb
    obtain ⟨hlt, hset⟩ := h.settled b hb
    exact ⟨hlt, fun m' hm' => hset m' (hcur m' ▸ hm')⟩

/-- **A new channel.** -/
theorem ChannelBooks.connect (m : MeshId) (offerer : Bool) :
    ChannelBooks P allowed (s.connect m offerer) := by
  unfold MeshNode.connect
  split
  · exact h
  next hfree =>
  have hnone : s.peers.get m = none := by
    rw [Bool.not_eq_true, OrderedMap.has, Option.isSome_eq_false_iff, Option.isNone_iff_eq_none]
      at hfree
    exact hfree
  have hcur : ∀ m', current { s with
      peers := s.peers.set m ⟨s.nextInc, offerer, false, false, false, none⟩
      nextInc := s.nextInc + 1 } m' = if m' = m then some s.nextInc else s.current m' := by
    intro m'
    show ((s.peers.set m _).get m').map (·.inc) = _
    rw [get_set]
    split <;> rfl
  -- a mesh id that had a channel has the same one still
  have hold : ∀ m' inc, s.current m' = some inc → m' ≠ m := by
    rintro m' inc hc rfl
    unfold MeshNode.current at hc
    rw [hnone] at hc
    cases hc
  refine ⟨?_, ?_, ?_, ?_, h.checks, h.alone, ?_, h.routes, ?_, h.once, h.up⟩
  · intro m' inc hm'
    show inc < s.nextInc + 1
    rw [hcur] at hm'
    split at hm'
    · cases hm'
      exact Nat.lt_succ_self _
    · exact Nat.lt_succ_of_lt (h.numbered m' inc hm')
  · intro m₁ m₂ inc h₁ h₂
    rw [hcur] at h₁ h₂
    split at h₁ <;> split at h₂
    next e₁ e₂ => rw [e₁, e₂]
    · cases h₁
      exact absurd (h.numbered m₂ _ h₂) (lt_irrefl _)
    · cases h₂
      exact absurd (h.numbered m₁ _ h₁) (lt_irrefl _)
    · exact h.single m₁ m₂ inc h₁ h₂
  · intro m' r hr
    obtain ⟨hlt, q, hq, hqo, hof⟩ := h.states m' r hr
    refine ⟨hlt, q, ?_, hqo, hof⟩
    show (s.peers.set m _).get m' = some q
    rw [get_set, if_neg (hold m' q.inc (current_of_get hq))]
    exact hq
  · intro k task hk
    obtain ⟨hlt, href, ⟨hst, inc, hc, ho⟩ | hspent⟩ := h.tasks k task hk
    · exact ⟨hlt, href, .inl ⟨hst, inc, by rw [hcur, if_neg (hold _ inc hc)]; exact hc, ho⟩⟩
    · exact ⟨hlt, href, .inr hspent⟩
  · intro m' N hN
    obtain ⟨r, inc, hr, hb, hc, hproof⟩ := h.bound m' N hN
    exact ⟨r, inc, hr, hb, by rw [hcur, if_neg (hold _ inc hc)]; exact hc, hproof⟩
  · intro b hb
    obtain ⟨hlt, hset⟩ := h.settled b hb
    refine ⟨Nat.lt_succ_of_lt hlt, fun m' hm' => ?_⟩
    rw [hcur] at hm'
    split at hm'
    · exact absurd (Option.some.inj hm') (Nat.ne_of_gt hlt)
    · exact hset m' hm'

/-- A mesh id is unbound. -/
theorem ChannelBooks.unbind {w : WebRTC}
    (hids : ∀ m' N, w.nodeIdByMeshId.get m' = some N → s.webrtc.nodeIdByMeshId.get m' = some N)
    (hroutes : w.Routed) : ChannelBooks P allowed { s with webrtc := w } :=
  ⟨h.numbered, h.single, h.states, h.tasks, h.checks, h.alone,
    fun m' N hN => h.bound m' N (hids m' N hN), hroutes, h.settled, h.once, h.up⟩

/-- **A channel goes**, and its handshake, if nothing is left of it that could bind. -/
theorem ChannelBooks.drop (hunbound : s.webrtc.nodeIdByMeshId.get m = none)
    (hquiet : ∀ r, s.states.get m = some r → s.Quiet P allowed m) (closing : List (Inc × MeshId)) :
    ChannelBooks P allowed { s with
      peers := s.peers.delete m, closing := closing, states := s.states.delete m } := by
  have hcur : ∀ m', current { s with
      peers := s.peers.delete m, closing := closing, states := s.states.delete m } m' =
        if m' = m then none else s.current m' := by
    intro m'
    show ((s.peers.delete m).get m').map (·.inc) = _
    rw [get_delete]
    split <;> rfl
  have hst : ∀ m', (s.states.delete m).get m' = if m' = m then none else s.states.get m' :=
    fun m' => get_delete ..
  refine ⟨?_, ?_, ?_, ?_, h.checks, h.alone, ?_, h.routes, ?_, h.once, h.up⟩
  · intro m' inc hm'
    rw [hcur] at hm'
    split at hm'
    · cases hm'
    · exact h.numbered m' inc hm'
  · intro m₁ m₂ inc h₁ h₂
    rw [hcur] at h₁ h₂
    split at h₁
    · cases h₁
    split at h₂
    · cases h₂
    exact h.single m₁ m₂ inc h₁ h₂
  · intro m' r hr
    replace hr : (s.states.delete m).get m' = some r := hr
    rw [hst] at hr
    split at hr
    · cases hr
    next hne =>
    obtain ⟨hlt, q, hq, hqo, hof⟩ := h.states m' r hr
    refine ⟨hlt, q, ?_, hqo, hof⟩
    show (s.peers.delete m).get m' = some q
    rw [get_delete, if_neg hne]
    exact hq
  · intro k task hk
    obtain ⟨hlt, href, ⟨htask, inc, hc, ho⟩ | ⟨hdead, hspent⟩⟩ := h.tasks k task hk
    · refine ⟨hlt, href, ?_⟩
      by_cases heq : task.meshId = m
      · -- its handshake goes with the channel
        rw [heq] at htask
        refine .inr ⟨fun m' hm' => ?_, hquiet _ htask k task hk heq⟩
        replace hm' : (s.states.delete m).get m' = some task.ref := hm'
        rw [hst] at hm'
        split at hm'
        · cases hm'
        next hne => exact hne (h.inj hm' htask)
      · refine .inl ⟨?_, inc, ?_, ho⟩
        · show (s.states.delete m).get _ = _
          rw [hst, if_neg heq]
          exact htask
        · rw [hcur, if_neg heq]
          exact hc
    · refine ⟨hlt, href, .inr ⟨fun m' hm' => ?_, hspent⟩⟩
      replace hm' : (s.states.delete m).get m' = some task.ref := hm'
      rw [hst] at hm'
      split at hm'
      · cases hm'
      · exact hdead m' hm'
  · intro m' N hN
    obtain ⟨r, inc, hr, hb, hc, hproof⟩ := h.bound m' N hN
    have hne : m' ≠ m := by
      rintro rfl
      rw [show s.webrtc.nodeIdByMeshId.get m' = some N from hN] at hunbound
      cases hunbound
    refine ⟨r, inc, ?_, hb, ?_, hproof⟩
    · show (s.states.delete m).get m' = _
      rw [hst, if_neg hne]
      exact hr
    · rw [hcur, if_neg hne]
      exact hc
  · intro b hb
    obtain ⟨hlt, hset⟩ := h.settled b hb
    refine ⟨hlt, fun m' hm' => ?_⟩
    rw [hcur] at hm'
    split at hm'
    · cases hm'
    next hne =>
    obtain ⟨r, hr, hbound⟩ := hset m' hm'
    refine ⟨r, ?_, hbound⟩
    show (s.states.delete m).get m' = _
    rw [hst, if_neg hne]
    exact hr

theorem ChannelBooks.unbindPeer (m : MeshId)
    (q : Requests NodeId (Received NodeId)) :
    ChannelBooks P allowed { s with webrtc := { s.webrtc with requests := q }.unbindPeer m } := by
  refine h.unbind (fun m' N hN => ?_) fun N m' hm' => ?_
  · rw [WebRTC.nodeIdByMeshId_unbindPeer] at hN
    exact of_get_delete hN
  · obtain ⟨hroute, hne⟩ := WebRTC.of_get_meshIdByNodeId_unbindPeer hm'
    have hN := h.routes N m' hroute
    rw [WebRTC.nodeIdByMeshId_unbindPeer, get_delete, if_neg]
    · exact hN
    · rintro rfl
      exact hne hN rfl

end

theorem get_unbindPeer_self (w : WebRTC) (m : MeshId) :
    (w.unbindPeer m).nodeIdByMeshId.get m = none := by
  rw [WebRTC.nodeIdByMeshId_unbindPeer, get_delete, if_pos rfl]

section

variable (h : s.ChannelBooks P allowed)
include h

/-- A channel that has not opened has no handshake. -/
theorem ChannelBooks.states_none {p : MeshPeer} (hp : s.peers.get m = some p)
    (hclosed : p.opened = false) : s.states.get m = none := by
  cases hr : s.states.get m with
  | none => rfl
  | some r =>
    obtain ⟨-, q, hq, hqo, -⟩ := h.states m r hr
    rw [hp] at hq
    cases hq
    rw [hclosed] at hqo
    cases hqo

/-- A mesh id without a handshake is not bound. -/
theorem ChannelBooks.unbound (hnone : s.states.get m = none) :
    s.webrtc.nodeIdByMeshId.get m = none := by
  cases hN : s.webrtc.nodeIdByMeshId.get m with
  | none => rfl
  | some N =>
    obtain ⟨r, -, hr, -⟩ := h.bound m N hN
    rw [hnone] at hr
    cases hr

/-- **A channel is retired.** -/
theorem ChannelBooks.retire (notifyLost : Bool)
    (hopen : ∀ p, s.peers.get m = some p → p.opened = true → notifyLost = true
      ∧ (s.webrtc.started = true ∨ s.webrtc.nodeIdByMeshId.get m = none) ∧ s.Quiet P allowed m) :
    ChannelBooks P allowed (s.retire m notifyLost) := by
  unfold MeshNode.retire
  split
  · exact h
  next p hp =>
  simp only []
  split
  next htold =>
    obtain ⟨-, hpo⟩ := Bool.and_eq_true_iff.mp htold
    obtain ⟨-, hbound, hquiet⟩ := hopen p hp hpo
    split
    next hstarted =>
      obtain ⟨q, hq⟩ := WebRTC.onPeerLost_eq s.webrtc m
      rw [hq]
      exact (h.unbindPeer m q).drop (get_unbindPeer_self _ m) (fun _ _ => hquiet) _
    next hstopped => exact h.drop (hbound.resolve_left hstopped) (fun _ _ => hquiet) _
  next htold =>
  have hclosed : p.opened = false := by
    rw [← Bool.not_eq_true]
    intro hpo
    exact htold (Bool.and_eq_true_iff.mpr ⟨(hopen p hp hpo).1, hpo⟩)
  have hnone := h.states_none hp hclosed
  have hdrop := h.drop (h.unbound hnone)
    (fun r hr => by rw [hnone] at hr; cases hr) ((p.inc, m) :: s.closing)
  rw [delete_of_get_none hnone] at hdrop
  exact hdrop

/-- A channel that has not opened is retired without further ado. -/
theorem ChannelBooks.retire_closed (notifyLost : Bool)
    (hclosed : ∀ p, s.peers.get m = some p → p.opened = false) :
    ChannelBooks P allowed (s.retire m notifyLost) := by
  refine h.retire notifyLost fun p hp hpo => ?_
  rw [hclosed p hp] at hpo
  cases hpo

end

/-! ### The handshake -/

section

variable (h : s.ChannelBooks P allowed)
include h

/-- A handshake is written to. Nothing is taken back that was bound; what a handshake that was
dropped could bind stays as it is. -/
theorem ChannelBooks.modify (f : AuthState → AuthState)
    (hof : ∀ inc, (s.handshakes.get r).IsOf inc → (f (s.handshakes.get r)).IsOf inc)
    (hbound : (s.handshakes.get r).bound = true → (f (s.handshakes.get r)).bound = true)
    (hlive : (∃ m, s.states.get m = some r)
      ∨ (f (s.handshakes.get r)).bound = (s.handshakes.get r).bound
        ∧ (f (s.handshakes.get r)).pendingSig = (s.handshakes.get r).pendingSig
        ∧ (f (s.handshakes.get r)).peerNodeId = (s.handshakes.get r).peerNodeId)
    (hchecks : ∀ k task, s.tasks.get k = some task → task.isVerify = true → task.ref = r →
      (f (s.handshakes.get r)).verifying = true ∧ (f (s.handshakes.get r)).bound = false) :
    ChannelBooks P allowed { s with handshakes := s.handshakes.modify r f } := by
  have hkept : ∀ r', (s.handshakes.get r').bound = true →
      ((s.handshakes.modify r f).get r').bound = true := by
    intro r' hb
    rw [Heap.get_modify]
    split
    next heq => exact hbound (heq ▸ hb)
    · exact hb
  refine ⟨h.numbered, h.single, ?_, ?_, ?_, h.alone, ?_, h.routes, ?_, h.once, h.up⟩
  · intro m r' hr'
    obtain ⟨hlt, p, hp, hpo, hst⟩ := h.states m r' hr'
    refine ⟨hlt, p, hp, hpo, ?_⟩
    show ((s.handshakes.modify r f).get r').IsOf p.inc
    rw [Heap.get_modify]
    split
    next heq => exact hof p.inc (heq ▸ hst)
    · exact hst
  · intro k task hk
    obtain ⟨hlt, href, hlive' | ⟨hdead, hspent⟩⟩ := h.tasks k task hk
    · exact ⟨hlt, href, .inl hlive'⟩
    refine ⟨hlt, href, .inr ⟨hdead, fun hmay => hspent ?_⟩⟩
    by_cases heq : task.ref = r
    · obtain ⟨m, hm⟩ | ⟨hb, hp, hn⟩ := hlive
      · exact absurd (heq ▸ hm) (hdead m)
      replace hmay : CanBind P allowed ((s.handshakes.modify r f).get task.ref) task := hmay
      rw [heq, Heap.get_modify_self] at hmay
      unfold MayBind
      rw [heq]
      exact hmay.congr hb hp hn
    · replace hmay : CanBind P allowed ((s.handshakes.modify r f).get task.ref) task := hmay
      rw [Heap.get_modify_of_ne _ f heq] at hmay
      exact hmay
  · intro k task hk hv
    show ((s.handshakes.modify r f).get task.ref).verifying = true ∧ _
    rw [Heap.get_modify]
    split
    next heq => exact hchecks k task hk hv heq
    · exact h.checks k task hk hv
  · intro m N hN
    obtain ⟨r', inc, hr', hb, hc, hproof⟩ := h.bound m N hN
    exact ⟨r', inc, hr', hkept r' hb, hc, hproof⟩
  · intro b hb
    obtain ⟨hlt, hset⟩ := h.settled b hb
    refine ⟨hlt, fun m hm => ?_⟩
    obtain ⟨r', hr', hb'⟩ := hset m hm
    exact ⟨r', hr', hkept r' hb'⟩

/-- **A handshake begins** on a channel that is open. -/
theorem ChannelBooks.ensure {p : MeshPeer} (hp : s.peers.get m = some p)
    (hpo : p.opened = true) (nonce : Text) : ChannelBooks P allowed (s.ensure m nonce).1 := by
  unfold MeshNode.ensure
  split
  · exact h
  next hnone =>
  have hst : ∀ m', (s.states.set m s.handshakes.next).get m' =
      if m' = m then some s.handshakes.next else s.states.get m' := fun m' => get_set ..
  have hold : ∀ r a, r < s.handshakes.next → (s.handshakes.alloc a).1.get r = s.handshakes.get r :=
    fun r a hr => Heap.get_alloc_of_lt _ a hr
  have hkept : ∀ {m' r'}, s.states.get m' = some r' →
      (s.states.set m s.handshakes.next).get m' = some r' := by
    intro m' r' hr'
    rw [hst, if_neg]
    · exact hr'
    · rintro rfl
      rw [hnone] at hr'
      cases hr'
  refine ⟨h.numbered, h.single, ?_, ?_, ?_, h.alone, ?_, h.routes, ?_, h.once, h.up⟩
  · intro m' r hr
    replace hr : (s.states.set m s.handshakes.next).get m' = some r := hr
    rw [hst] at hr
    split at hr
    next heq =>
      cases hr
      refine ⟨Nat.lt_succ_self _, p, heq ▸ hp, hpo, ?_⟩
      show ((s.handshakes.alloc _).1.get s.handshakes.next).IsOf p.inc
      rw [Heap.get_alloc, if_pos rfl, current_of_get hp]
      exact ⟨rfl, by rintro ⟨⟩⟩
    next hne =>
    obtain ⟨hlt, q, hq, hqo, hof⟩ := h.states m' r hr
    refine ⟨Nat.lt_succ_of_lt hlt, q, hq, hqo, ?_⟩
    show ((s.handshakes.alloc _).1.get r).IsOf q.inc
    rw [hold r _ hlt]
    exact hof
  · intro k task hk
    obtain ⟨hlt, href, ⟨hlive, hc⟩ | ⟨hdead, hspent⟩⟩ := h.tasks k task hk
    · exact ⟨hlt, Nat.lt_succ_of_lt href, .inl ⟨hkept hlive, hc⟩⟩
    refine ⟨hlt, Nat.lt_succ_of_lt href, .inr ⟨fun m' hm' => ?_, fun hmay => hspent ?_⟩⟩
    · replace hm' : (s.states.set m s.handshakes.next).get m' = some task.ref := hm'
      rw [hst] at hm'
      split at hm'
      · exact absurd (Option.some.inj hm') (Nat.ne_of_gt href)
      · exact hdead m' hm'
    · replace hmay : CanBind P allowed ((s.handshakes.alloc _).1.get task.ref) task := hmay
      rw [hold _ _ href] at hmay
      exact hmay
  · intro k task hk hv
    show ((s.handshakes.alloc _).1.get task.ref).verifying = true ∧ _
    rw [hold _ _ (h.tasks k task hk).2.1]
    exact h.checks k task hk hv
  · intro m' N hN
    obtain ⟨r', inc, hr', hb, hc, hproof⟩ := h.bound m' N hN
    refine ⟨r', inc, hkept hr', ?_, hc, hproof⟩
    show ((s.handshakes.alloc _).1.get r').bound = true
    rw [hold _ _ (h.states m' r' hr').1]
    exact hb
  · intro b hb
    obtain ⟨hlt, hset⟩ := h.settled b hb
    refine ⟨hlt, fun m' hm' => ?_⟩
    obtain ⟨r', hr', hb'⟩ := hset m' hm'
    refine ⟨r', hkept hr', ?_⟩
    show ((s.handshakes.alloc _).1.get r').bound = true
    rw [hold _ _ (h.states m' r' hr').1]
    exact hb'

/-- **Something more waits.** -/
theorem ChannelBooks.addTask (task : MeshTask)
    (href : task.ref < s.handshakes.next) (hin : s.InOrder P allowed task)
    (hcheck : task.isVerify = true → (s.handshakes.get task.ref).verifying = true
      ∧ (s.handshakes.get task.ref).bound = false
      ∧ ∀ k task', s.tasks.get k = some task' → task'.isVerify = true → task'.ref ≠ task.ref) :
    ChannelBooks P allowed (s.addTask task) := by
  have hget : ∀ k task', (s.addTask task).tasks.get k = some task' →
      k = s.nextTask ∧ task' = task ∨ k < s.nextTask ∧ s.tasks.get k = some task' := by
    intro k task' hk
    replace hk : (s.tasks.set s.nextTask task).get k = some task' := hk
    rw [get_set] at hk
    split at hk
    next heq => exact .inl ⟨heq, (Option.some.inj hk).symm⟩
    · exact .inr ⟨(h.tasks k task' hk).1, hk⟩
  refine ⟨h.numbered, h.single, h.states, ?_, ?_, ?_, h.bound, h.routes, h.settled, h.once, h.up⟩
  · intro k task' hk
    obtain ⟨rfl, rfl⟩ | ⟨-, hk⟩ := hget k task' hk
    · exact ⟨Nat.lt_succ_self _, href, hin⟩
    · obtain ⟨hlt, href', hin'⟩ := h.tasks k task' hk
      exact ⟨Nat.lt_succ_of_lt hlt, href', hin'⟩
  · intro k task' hk hv
    obtain ⟨rfl, rfl⟩ | ⟨-, hk⟩ := hget k task' hk
    · exact ⟨(hcheck hv).1, (hcheck hv).2.1⟩
    · exact h.checks k task' hk hv
  · intro k k' t t' hk hk' hv hv' heq
    obtain ⟨rfl, rfl⟩ | ⟨-, hwas⟩ := hget k t hk <;>
      obtain ⟨rfl, rfl⟩ | ⟨-, hwas'⟩ := hget k' t' hk'
    · rfl
    · exact absurd heq.symm ((hcheck hv).2.2 k' t' hwas' hv')
    · exact absurd heq ((hcheck hv').2.2 k t hwas hv)
    · exact h.alone k k' t t' hwas hwas' hv hv' heq

/-- Something goes on. -/
theorem ChannelBooks.endTask (k : Nat) :
    ChannelBooks P allowed { s with tasks := s.tasks.delete k } := by
  have hget : ∀ j task, (s.tasks.delete k).get j = some task → s.tasks.get j = some task := by
    intro j task hj
    exact of_get_delete hj
  exact ⟨h.numbered, h.single, h.states, fun j task hj => h.tasks j task (hget j task hj),
    fun j task hj => h.checks j task (hget j task hj),
    fun j j' t t' hj hj' => h.alone j j' t t' (hget j t hj) (hget j' t' hj'),
    h.bound, h.routes, h.settled, h.once, h.up⟩

/-- **A check begins.** -/
theorem ChannelBooks.beginVerify {cbv : Text} {origin : Origin}
    (href : r < s.handshakes.next) (hin : s.InOrder P allowed (.build m r cbv origin)) :
    ChannelBooks P allowed (s.beginVerify P m r cbv origin) := by
  unfold MeshNode.beginVerify
  simp only []
  split
  · exact h
  next body hbody =>
  split
  · exact h
  next hidle =>
  rw [Bool.or_eq_true, not_or, Bool.not_eq_true, Bool.not_eq_true] at hidle
  have hnone : ∀ k task, s.tasks.get k = some task → task.isVerify = true → task.ref ≠ r := by
    rintro k task hk hv rfl
    have hbusy := (h.checks k task hk hv).1
    rw [hidle.1] at hbusy
    cases hbusy
  let f : AuthState → AuthState := fun st => { st with verifying := true }
  have hf : (s.handshakes.modify r f).get r = f (s.handshakes.get r) := Heap.get_modify_self ..
  have hmod := h.modify (r := r) f (fun _ hof => ⟨hof.1, hof.2⟩) id (.inr ⟨rfl, rfl, rfl⟩)
    fun k task hk hv heq => absurd heq (hnone k task hk hv)
  refine hmod.addTask _ href ?_ fun _ => ⟨?_, ?_, hnone⟩
  · obtain hlive | ⟨hdead, hspent⟩ := hin
    · exact .inl hlive
    refine .inr ⟨hdead, fun hmay => hspent ⟨hidle.2, body, hbody, ?_⟩⟩
    replace hmay : CanBind P allowed ((s.handshakes.modify r f).get r) _ := hmay
    rw [hf] at hmay
    exact hmay
  · show ((s.handshakes.modify r f).get r).verifying = true
    rw [hf]
  · show ((s.handshakes.modify r f).get r).bound = false
    rw [hf]
    exact hidle.2

/-- The channel binding value is of the incarnation that is up. -/
theorem ChannelBooks.origin_of_cbv (hr : s.states.get m = some r)
    {cbv : Text} {origin : Origin} (hcbv : s.cbv m (s.handshakes.get r) = some (cbv, origin)) :
    ∃ inc, s.current m = some inc ∧ origin = .one inc := by
  unfold MeshNode.cbv at hcbv
  split at hcbv
  next peerNonce p hpeer hp =>
    split at hcbv
    · cases hcbv
    have hof := h.isOf hr (current_of_get hp)
    obtain ⟨fp, -, heq⟩ := Option.map_eq_some_iff.mp hcbv
    refine ⟨p.inc, current_of_get hp, ?_⟩
    rw [← (Prod.mk.inj heq).2, hof.mine, hof.peers (by rw [hpeer]; rfl)]
    rfl
  · cases hcbv

/-- **The handshake goes on.** -/
theorem ChannelBooks.progress (m : MeshId) : ChannelBooks P allowed (s.progress P m) := by
  unfold MeshNode.progress
  split
  · exact h
  next r hr =>
  simp only []
  split
  · exact h
  split
  · exact h
  next cbv origin hcbv =>
  have href := (h.states m r hr).1
  have horigin := h.origin_of_cbv hr hcbv
  split
  · exact h.beginVerify href (.inl ⟨hr, horigin⟩)
  have hmod := h.modify (r := r) (fun st => { st with sigSent := true })
    (fun _ hof => ⟨hof.1, hof.2⟩) id (.inr ⟨rfl, rfl, rfl⟩) fun k task hk hv heq =>
      heq ▸ h.checks k task hk hv
  exact hmod.addTask _ href (.inl ⟨hr, horigin⟩) (by rintro ⟨⟩)

end

/-! ### Bindings -/

section

variable (h : s.ChannelBooks P allowed)
include h

/-- A proof that was verified is noted. -/
theorem ChannelBooks.prove (proof : NodeId × Origin) :
    ChannelBooks P allowed { s with proofs := proof :: s.proofs } := by
  refine ⟨h.numbered, h.single, h.states, h.tasks, h.checks, h.alone, ?_, h.routes, h.settled,
    h.once, h.up⟩
  intro m N hN
  obtain ⟨r, inc, hr, hb, hc, hproof⟩ := h.bound m N hN
  exact ⟨r, inc, hr, hb, hc, List.mem_cons_of_mem _ hproof⟩

/-- A check that was refused is over. -/
theorem ChannelBooks.stopVerify (hnone : ∀ k task, s.tasks.get k = some task → task.isVerify = true → task.ref ≠ r) :
    ChannelBooks P allowed { s with
      handshakes := s.handshakes.modify r fun st => { st with verifying := false } } :=
  h.modify (fun st => { st with verifying := false }) (fun _ hof => ⟨hof.1, hof.2⟩) id
    (.inr ⟨rfl, rfl, rfl⟩) fun k task hk hv heq => absurd heq (hnone k task hk hv)

/-- **An incarnation is bound**, for the first time. -/
theorem ChannelBooks.settle {inc : Inc} (hr : s.states.get m = some r)
    (hinc : s.current m = some inc) (hopen : (s.handshakes.get r).bound = false)
    (hnone : ∀ k task, s.tasks.get k = some task → task.isVerify = true → task.ref ≠ r) :
    ChannelBooks P allowed { s with
      handshakes := s.handshakes.modify r fun st => { st with bound := true, verifying := false }
      binds := (inc, some inc) :: s.binds } := by
  let f : AuthState → AuthState := fun st => { st with bound := true, verifying := false }
  have hmod := h.modify (r := r) f (fun _ hof => ⟨hof.1, hof.2⟩) (fun _ => rfl) (.inl ⟨m, hr⟩)
    fun k task hk hv heq => absurd heq (hnone k task hk hv)
  refine ⟨h.numbered, h.single, hmod.states, hmod.tasks, hmod.checks, h.alone, hmod.bound, h.routes,
    ?_, ?_, ?_⟩
  · intro b hb
    obtain rfl | hb := List.mem_cons.mp hb
    · refine ⟨h.numbered m inc hinc, fun m' hm' => ?_⟩
      obtain rfl := h.single m' m inc hm' hinc
      refine ⟨r, hr, ?_⟩
      show ((s.handshakes.modify r f).get r).bound = true
      rw [Heap.get_modify_self]
    · exact hmod.settled b hb
  · show (((inc, some inc) :: s.binds).map Prod.fst).Nodup
    rw [List.map_cons, List.nodup_cons]
    refine ⟨fun hmem => ?_, h.once⟩
    obtain ⟨b, hb, hfst⟩ := List.mem_map.mp hmem
    obtain ⟨-, hset⟩ := h.settled b hb
    obtain ⟨r', hr', hbound⟩ := hset m (hfst ▸ hinc)
    rw [hr] at hr'
    cases hr'
    rw [hopen] at hbound
    cases hbound
  · intro b hb
    obtain rfl | hb := List.mem_cons.mp hb
    · rfl
    · exact h.up b hb

/-- **The transport binds** a mesh id whose handshake is over. -/
theorem ChannelBooks.bindPeer {inc : Inc} {N : NodeId}
    (hr : s.states.get m = some r) (hbound : (s.handshakes.get r).bound = true)
    (hinc : s.current m = some inc) (hproof : (N, Origin.one inc) ∈ s.proofs)
    (hfree : s.webrtc.nodeIdByMeshId.get m = none) (key : Text) :
    ChannelBooks P allowed (s.bindPeer N m key) := by
  have hw : ChannelBooks P allowed { s with webrtc := s.webrtc.bindPeer N m (some key) } := by
    refine ⟨h.numbered, h.single, h.states, h.tasks, h.checks, h.alone, ?_,
      h.routes.bindPeer hfree N (some key), h.settled, h.once, h.up⟩
    intro m' N' hN'
    rcases h.routes.of_bindPeer hN' with ⟨rfl, rfl⟩ | hold
    · exact ⟨r, inc, hr, hbound, hinc, hproof⟩
    · exact h.bound m' N' hold
  unfold MeshNode.bindPeer
  split
  · exact hw
  next winner loser hdup =>
  refine hw.retire true fun p _ _ => ⟨rfl, .inr ?_, ?_⟩
  · show (s.webrtc.bindPeer N m (some key)).nodeIdByMeshId.get loser = none
    unfold WebRTC.bindPeer
    rw [hdup]
    exact (get_delete ..).trans (if_pos rfl)
  · obtain ⟨prev, hprev, -, ⟨-, rfl⟩ | ⟨-, rfl⟩⟩ := WebRTC.of_duplicate hdup
    · obtain ⟨r', -, hr', hb', -⟩ := h.bound _ N (h.routes N _ hprev)
      exact hw.quiet hr' hb'
    · exact hw.quiet hr hbound

end

/-- The handshake is marked after the transport has bound; it might as well be before. -/
theorem bindPeer_modify (s : MeshNode) (N : NodeId) (m : MeshId) (key : Text) (r : Ref)
    (f : AuthState → AuthState) :
    { s.bindPeer N m key with handshakes := (s.bindPeer N m key).handshakes.modify r f } =
      { s with handshakes := s.handshakes.modify r f }.bindPeer N m key := by
  unfold MeshNode.bindPeer
  simp only []
  split
  · rfl
  unfold MeshNode.retire
  simp only []
  split
  · rfl
  · split <;> rfl

/-- **What comes of a check.** -/
theorem ChannelBooks.afterVerify (h : s.ChannelBooks P allowed) {value : Text}
    {result : Except AuthFailure Text} {origin : Origin}
    (hin : s.InOrder P allowed (.verify m r value result origin))
    (hopen : (s.handshakes.get r).bound = false)
    (hnone : ∀ k task, s.tasks.get k = some task → task.isVerify = true → task.ref ≠ r) :
    ChannelBooks P allowed (s.afterVerify allowed m r result origin) := by
  unfold MeshNode.afterVerify
  simp only []
  split
  · exact h.stopVerify hnone
  next nodeId =>
  have hproof := h.prove (hexValue nodeId, origin)
  split
  next haccept =>
    obtain ⟨hr, inc, hinc, rfl⟩ | ⟨-, hspent⟩ := hin
    · have hfree : s.webrtc.nodeIdByMeshId.get m = none := by
        cases hN : s.webrtc.nodeIdByMeshId.get m with
        | none => rfl
        | some N =>
          obtain ⟨r', -, hr', hb, -⟩ := h.bound m N hN
          rw [show s.states.get m = some r from hr] at hr'
          cases hr'
          rw [hopen] at hb
          cases hb
      have hset := hproof.settle hr hinc hopen hnone
      rw [bindPeer_modify]
      have hcur : current { s with proofs := (hexValue nodeId, Origin.one inc) :: s.proofs } m =
        some inc := hinc
      rw [hcur]
      have hbound := congrArg AuthState.bound (Heap.get_modify_self s.handshakes r
        fun st => { st with bound := true, verifying := false })
      exact hset.bindPeer hr hbound hinc List.mem_cons_self hfree _
    · exact absurd haccept hspent
  · exact hproof.stopVerify hnone

theorem ChannelBooks.resume (h : s.ChannelBooks P allowed) (k : Nat) :
    ChannelBooks P allowed (s.resume P allowed k) := by
  unfold MeshNode.resume
  split
  · exact h
  next task hk =>
  have hend := h.endTask k
  obtain ⟨-, href, hin⟩ := h.tasks k task hk
  cases task with
  | build m r cbv origin => exact hend.beginVerify href hin
  | verify m r value result origin =>
    refine hend.afterVerify hin (h.checks k _ hk rfl).2 fun j task hj hv heq => ?_
    replace hj : (s.tasks.delete k).get j = some task := hj
    have hne := ne_of_get_delete hj
    exact hne (h.alone j k _ _ (of_get_delete hj) hk hv rfl heq)

/-! ### Frames -/

/-- The handshake of a mesh id whose channel is open is there after `_ensure`. -/
theorem states_ensure (s : MeshNode) (m : MeshId) (nonce : Text) :
    (s.ensure m nonce).1.states.get m = some (s.ensure m nonce).2 := by
  unfold MeshNode.ensure
  split
  next r hr => exact hr
  · exact (get_set ..).trans (if_pos rfl)

theorem current_ensure (s : MeshNode) (m m' : MeshId) (nonce : Text) :
    (s.ensure m nonce).1.current m' = s.current m' := by
  unfold MeshNode.ensure
  split <;> rfl

section

variable (h : s.ChannelBooks P allowed)
include h

/-- **A frame of the channel that is up.** -/
theorem ChannelBooks.onHello {p : MeshPeer} (hp : s.peers.get m = some p)
    (hpo : p.opened = true) (peerNonce : Option Text) (nonce : Text) :
    ChannelBooks P allowed (s.onHello P m p.inc peerNonce nonce) := by
  unfold MeshNode.onHello
  split
  · exact h
  next n =>
  have hens := h.ensure hp hpo nonce
  have hr := states_ensure s m nonce
  have hof := hens.isOf hr ((current_ensure s m m nonce).trans (current_of_get hp))
  refine (hens.modify (fun st => { st with peerNonce := some n, heardOn := some p.inc }) ?_ id
    (.inl ⟨m, hr⟩) fun k task hk hv heq => heq ▸ hens.checks k task hk hv).progress m
  intro inc hinc
  exact ⟨hinc.mine, fun _ => hof.mine.symm.trans hinc.mine⟩

theorem ChannelBooks.onHelloSig {p : MeshPeer} (hp : s.peers.get m = some p)
    (hpo : p.opened = true) (body : Option (Option Hello)) (nonce : Text) :
    ChannelBooks P allowed (s.onHelloSig P m body nonce) := by
  unfold MeshNode.onHelloSig
  have hens := h.ensure hp hpo nonce
  have hr := states_ensure s m nonce
  exact (hens.modify (fun st => { st with
      pendingSig := body
      peerNodeId := (body.join.bind (·.nodeId)).or st.peerNodeId }) (fun _ hof => ⟨hof.1, hof.2⟩) id
    (.inl ⟨m, hr⟩) fun k task hk hv heq => heq ▸ hens.checks k task hk hv).progress m

theorem ChannelBooks.onMessage {inc : Inc} {frame : MeshFrame} {nonce : Text}
    (hsteady : s.Steady P allowed (.message inc frame nonce)) :
    ChannelBooks P allowed (s.onMessage P inc frame nonce) := by
  unfold MeshNode.onMessage
  split
  next hstarted =>
    split
    · exact h
    next m hm =>
    split
    · exact h
    obtain ⟨p, hp, rfl, hpo⟩ | ⟨-, hinert⟩ := hsteady hstarted m hm
    · cases frame with
      | hello peerNonce => exact h.onHello hp hpo peerNonce nonce
      | helloSig body => exact h.onHelloSig hp hpo body nonce
      | other => exact h
    · cases frame with
      | hello peerNonce =>
        obtain rfl : peerNonce = none := Option.isNone_iff_eq_none.mp hinert
        exact h
      | helloSig body => cases hinert
      | other => exact h
  · exact h

/-- **The frames are attributed as they should be.** -/
theorem ChannelBooks.attributed {a : Act} (hsteady : s.Steady P allowed a) :
    s.Attributed a := by
  cases a with
  | message inc frame nonce =>
    intro N hN
    unfold MeshNode.attributed at hN
    split at hN
    next hstarted =>
      obtain ⟨m, hm, hbound⟩ := Option.bind_eq_some_iff.mp hN
      obtain ⟨p, hp, rfl, -⟩ | ⟨hfree, -⟩ := hsteady hstarted m hm
      · obtain ⟨r, inc, -, -, hinc, hproof⟩ := h.bound m N hbound
        rw [current_of_get hp] at hinc
        cases hinc
        exact hproof
      · rw [hfree] at hbound
        cases hbound
    · cases hN
  | _ => trivial

end

/-! ### The step -/

/-- The transport starts or stops: the bindings stay. -/
theorem ChannelBooks.ofWebRTC (h : s.ChannelBooks P allowed) {w : WebRTC}
    (hids : w.nodeIdByMeshId = s.webrtc.nodeIdByMeshId)
    (hroutes : w.meshIdByNodeId = s.webrtc.meshIdByNodeId) :
    ChannelBooks P allowed { s with webrtc := w } := by
  refine h.unbind (fun m N hN => hids ▸ hN) fun N m hm => ?_
  rw [hids]
  exact h.routes N m (hroutes ▸ hm)

theorem ChannelBooks.closeConnection (h : s.ChannelBooks P allowed) {N : NodeId}
    (hm : s.webrtc.meshIdByNodeId.get N = some m) (hne : m ≠ []) :
    ChannelBooks P allowed ({ s with webrtc := s.webrtc.closeConnection N }.retire m true) := by
  unfold WebRTC.closeConnection
  rw [hm]
  simp only []
  rw [if_neg hne]
  refine (h.unbindPeer m s.webrtc.requests).retire true fun p _ _ =>
    ⟨rfl, .inr (get_unbindPeer_self _ m), ?_⟩
  obtain ⟨r, -, hr, hb, -⟩ := h.bound m N (h.routes N m hm)
  exact h.quiet hr hb

/-- **The step.** -/
theorem ChannelBooks.step (h : s.ChannelBooks P allowed) {a : Act} (hsteady : s.Steady P allowed a) :
    ChannelBooks P allowed (s.step P allowed a) := by
  cases a with
  | connect m offerer => exact h.connect m offerer
  | describe m fps =>
    show ChannelBooks P allowed (s.describe m fps)
    unfold describe
    split
    · exact h
    next p hp => exact h.setPeer hp rfl id
  | «open» m =>
    show ChannelBooks P allowed (s.onOpen m)
    unfold onOpen
    split
    · exact h
    next p hp => exact h.setPeer hp rfl fun _ => rfl
  | notice m nonce =>
    rw [MeshNode.step]
    split
    next hany =>
      obtain ⟨p, hp, hpo⟩ := (Option.any_eq_true _ _).mp hany
      exact h.ensure hp hpo nonce
    · exact h
  | failed m overdue =>
    show ChannelBooks P allowed (s.scheduleRetry m overdue)
    unfold scheduleRetry
    split
    · exact h
    next p hp =>
    split
    · exact h
    · exact h.setPeer hp rfl id
  | retry m refused =>
    show ChannelBooks P allowed (s.retry m refused)
    unfold MeshNode.retry
    split
    · exact h
    next p hp =>
    split
    next htimer =>
      have hret := h.retire_closed false fun q hq => by
        rw [hp] at hq
        cases hq
        exact hsteady p hp htimer
      split
      · exact hret
      · exact hret.connect m true
    · exact h
  | replaceAttempt m =>
    show ChannelBooks P allowed (s.replaceAttempt m)
    unfold MeshNode.replaceAttempt
    split
    · exact h
    next p hp =>
    split
    · exact h
    next hclosed =>
    refine (h.retire_closed false fun q hq => ?_).connect m false
    rw [hp] at hq
    cases hq
    exact Bool.not_eq_true _ ▸ hclosed
  | retire m => exact h.retire true fun p hp hpo => ⟨rfl, hsteady p hp hpo⟩
  | closed inc =>
    exact ⟨h.numbered, h.single, h.states, h.tasks, h.checks, h.alone, h.bound, h.routes, h.settled,
      h.once, h.up⟩
  | closeConnection N =>
    rw [MeshNode.step]
    split
    · exact h
    next m hm =>
    split
    · exact h
    next hne => exact h.closeConnection hm hne
  | message inc frame nonce => exact h.onMessage hsteady
  | resume k => exact h.resume k
  | start => exact h.ofWebRTC rfl rfl
  | stop =>
    refine h.ofWebRTC ?_ ?_ <;> (unfold WebRTC.stop; split <;> rfl)

end MeshNode

/-! ### Over whole runs -/

/-- **A binding of the mesh is of one incarnation.** In every steady run each frame is attributed to
a node that proved itself over the nonces and the fingerprints of the channel it came on, and each
incarnation is bound once at most, while it is up. -/
theorem binding_of_incarnation (P : AuthPrimitives) (allowed : Text → Bool)
    (as : List MeshNode.Act)
    (hrun : EachStep (MeshNode.step P allowed) (MeshNode.Steady P allowed) .init as) :
    EachStep (MeshNode.step P allowed) MeshNode.Attributed .init as
      ∧ (run (MeshNode.step P allowed) .init as).BoundOnce := by
  refine ⟨hrun.safety (I := MeshNode.ChannelBooks P allowed) (fun _ _ h hC => h.step hC)
    (fun _ _ h hC => h.attributed hC) MeshNode.channelBooks_init, ?_⟩
  have h := hrun.invariant (I := MeshNode.ChannelBooks P allowed) (fun _ _ h hC => h.step hC)
    MeshNode.channelBooks_init
  exact ⟨h.once, h.up⟩

/-- A frame of an open channel is no breach. -/
theorem MeshNode.steady_message {P : AuthPrimitives} {allowed : Text → Bool} {s : MeshNode}
    {m : MeshId} {inc : Inc} {frame : MeshFrame} {nonce : Text} (hm : s.delivers inc = some m)
    (hp : (s.peers.get m).map (fun p => (p.inc, p.opened)) = some (inc, true)) :
    s.Steady P allowed (.message inc frame nonce) := by
  rintro - m' hm'
  cases hm.symm.trans hm'
  obtain ⟨p, hp, heq⟩ := Option.map_eq_some_iff.mp hp
  obtain ⟨hinc, hpo⟩ := Prod.mk.inj heq
  exact .inl ⟨p, hp, hinc, hpo⟩

/-- A channel is dialled, opens, and its other end proves itself. -/
def dialled : List MeshNode.Act :=
  [.start, .connect ['m'] true, .describe ['m'] (['f'], ['g']), .open ['m'], .notice ['m'] ['x'],
    .message 0 (.hello (some ['y'])) [], .message 0 (.helloSig (some (some (sampleHello 'b')))) [],
    .resume 0, .resume 1, .message 0 .other []]

theorem binding_of_incarnation_dialled :
    EachStep (MeshNode.step sampleAuth fun _ => true) MeshNode.Attributed .init dialled
      ∧ (run (MeshNode.step sampleAuth fun _ => true) .init dialled).BoundOnce :=
  binding_of_incarnation sampleAuth (fun _ => true) dialled
    ⟨trivial, trivial, trivial, trivial, trivial,
      MeshNode.steady_message (m := ['m']) (by decide +kernel) (by decide +kernel),
      MeshNode.steady_message (m := ['m']) (by decide +kernel) (by decide +kernel),
      trivial, trivial,
      MeshNode.steady_message (m := ['m']) (by decide +kernel) (by decide +kernel), trivial⟩

/-- Its connection fails, it is dialled anew, and the new channel has a frame before any hello. -/
def redialled : List MeshNode.Act :=
  [.failed ['m'] false, .retry ['m'] false, .describe ['m'] (['h'], ['k']), .open ['m'],
    .notice ['m'] ['z'], .message 1 .other []]

/-- The frame is attributed to the node of the old channel, though nothing was verified on the new
one. -/
theorem attributed_redialled :
    ((run (MeshNode.step sampleAuth fun _ => true) .init (dialled ++ redialled)).attributed 1 =
        some (hexValue (sampleIdentity 'b').nodeId)
      ∧ (run (MeshNode.step sampleAuth fun _ => true) .init (dialled ++ redialled)).proofs =
        [(hexValue (sampleIdentity 'b').nodeId, Origin.one 0)])
    ∧ ¬ ∀ (P : AuthPrimitives) (allowed : Text → Bool) (as : List MeshNode.Act),
      EachStep (MeshNode.step P allowed) MeshNode.Attributed .init as
        ∧ (run (MeshNode.step P allowed) .init as).BoundOnce := by
  have hframe : (run (MeshNode.step sampleAuth fun _ => true) .init
      (dialled ++ redialled)).attributed 1 = some (hexValue (sampleIdentity 'b').nodeId) := by
    decide +kernel
  have hproofs : (run (MeshNode.step sampleAuth fun _ => true) .init
      (dialled ++ redialled)).proofs = [(hexValue (sampleIdentity 'b').nodeId, Origin.one 0)] := by
    decide +kernel
  refine ⟨⟨hframe, hproofs⟩, fun h => ?_⟩
  have hrun := (h sampleAuth (fun _ => true)
    (dialled ++ redialled ++ [.message 1 .other []])).1
  have hmem := ((eachStep_append ..).mp hrun).2.1 _ hframe
  rw [hproofs] at hmem
  have hinc : (1 : Inc) = 0 :=
    congrArg (fun e : NodeId × Origin => e.2.fingerprints) (List.mem_singleton.mp hmem)
  cases hinc

end Axona
