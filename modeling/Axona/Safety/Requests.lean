import Axona.Library.Transition
import Axona.Transport.WebSocket

/-! # Whose answer settles a request

A transport promises of every request that its promise settles once, and that only the peer asked
can settle it. The first half holds: the table, the timers and the promises stay in order whatever
happens. The second half is up to the peers: a response is matched by its id, never by its channel,
and the ids are small numbers that every peer can guess. -/

namespace Axona

open Library

/-- A response that suits the request it settles: its channel was bound to the peer asked, and it
answers that request and no earlier one of the same id. -/
def Suits {ν : Type} (node : ν) (number : Nat) (f : Received ν) : Prop :=
  f.boundTo = some node ∧ f.response.answers = number

/-- **Every promise settles once, and by the peer asked.** -/
structure Integrity {ν : Type} (r : Requests ν (Received ν)) : Prop where
  /-- None settles twice. -/
  once : r.done.Nodup
  /-- One that has not settled settles when its timer goes off. -/
  settles : ∀ k < r.asked.length, k ∈ r.done ∨ k ∈ (r.fire k).done
  /-- What settled one was its answer. -/
  answered : r.Answered Suits

theorem integrity_iff {ν : Type} {r : Requests ν (Received ν)} (h : r.InOrder) :
    Integrity r ↔ r.Answered Suits :=
  ⟨Integrity.answered, fun ha => ⟨h.once, h.settles.2, ha⟩⟩

/-- A response that comes in under an id that is outstanding keeps the answers right exactly when
it suits the request there. -/
theorem answered_response {ν : Type} {r : Requests ν (Received ν)} (h : r.InOrder) (id : Nat)
    (f : Received ν) : (r.drop id (.answered f)).Answered Suits ↔
      r.Answered Suits ∧ ∀ p, r.pending.get id = some p → Suits p.node p.number f := by
  cases hp : r.pending.get id with
  | none =>
    have hdrop : r.drop id (.answered f) = r := by
      unfold Requests.drop
      rw [hp]
    rw [hdrop]
    exact (and_iff_left (by rintro p ⟨⟩)).symm
  | some p =>
    rw [Requests.answered_answer h hp]
    refine and_congr_right fun _ => ⟨fun hs q hq => ?_, fun hs => hs p rfl⟩
    rwa [← Option.some.inj hq]

/-! ### Over the mesh -/

namespace WebRTC

/-- **The condition.** A response that comes in while a request is outstanding under its id comes
over the channel bound to the peer asked, and answers that request. -/
def AnswersRequest (s : WebRTC) : Act → Prop
  | .message meshId msg => s.started = true → ∀ p, s.requests.pending.get msg.id = some p →
      s.nodeIdByMeshId.get meshId = some p.node ∧ msg.answers = p.number
  | _ => True

theorem requests_unbindPeer (s : WebRTC) (meshId : MeshId) :
    (s.unbindPeer meshId).requests = s.requests := by
  unfold unbindPeer
  simp only []
  split
  · rfl
  · split <;> rfl

theorem requests_bindPeer (s : WebRTC) (nodeId : NodeId) (meshId : MeshId)
    (channelKey : Option Text) : (s.bindPeer nodeId meshId channelKey).requests = s.requests := by
  unfold bindPeer
  split <;> rfl

/-- What a step does to the requests. -/
theorem step_requests (s : WebRTC) (a : Act) (h : s.requests.InOrder) : (s.step a).requests.InOrder ∧
      ((s.step a).requests.Answered Suits ↔ s.requests.Answered Suits ∧ s.AnswersRequest a) := by
  have hquiet : ∀ {r : Requests NodeId (Received NodeId)},
      r.InOrder ∧ (r.Answered Suits ↔ s.requests.Answered Suits) →
      r.InOrder ∧ (r.Answered Suits ↔ s.requests.Answered Suits ∧ True) := fun hr =>
    ⟨hr.1, hr.2.trans (and_iff_left trivial).symm⟩
  have hgiven : ∀ f : Received NodeId, Settlement.givenUp ≠ .answered f := by rintro f ⟨⟩
  cases a with
  | start => exact hquiet ⟨h, Iff.rfl⟩
  | stop =>
    refine hquiet ?_
    rw [step, stop]
    split
    · exact ⟨h.close, Requests.answered_close⟩
    · exact ⟨h, Iff.rfl⟩
  | bindPeer nodeId meshId channelKey =>
    refine hquiet ?_
    rw [step, requests_bindPeer]
    exact ⟨h, Iff.rfl⟩
  | unbindPeer meshId =>
    refine hquiet ?_
    rw [step, requests_unbindPeer]
    exact ⟨h, Iff.rfl⟩
  | peerLost meshId =>
    refine hquiet ?_
    rw [step, onPeerLost, requests_unbindPeer]
    split
    · exact ⟨h, Iff.rfl⟩
    split
    · exact ⟨h.dropAll _ _, Requests.answered_dropAll hgiven⟩
    · exact ⟨h, Iff.rfl⟩
  | closeConnection nodeId =>
    refine hquiet ?_
    rw [step, closeConnection]
    split
    · exact ⟨h, Iff.rfl⟩
    split
    · exact ⟨h, Iff.rfl⟩
    · rw [requests_unbindPeer]
      exact ⟨h, Iff.rfl⟩
  | send nodeId connected throws =>
    refine hquiet ?_
    rw [step, send]
    split
    · exact ⟨h.refuse _, Requests.answered_refuse h⟩
    split
    · exact ⟨h.refuse _, Requests.answered_refuse h⟩
    split
    · exact ⟨h.refuse _, Requests.answered_refuse h⟩
    have hask := h.ask maxReqId nodeId
    cases throws with
    | false => exact ⟨hask, Requests.answered_ask h⟩
    | true =>
      exact ⟨hask.drop _ _, (Requests.answered_drop hgiven).trans (Requests.answered_ask h)⟩
  | timeout number => exact hquiet ⟨h.fire _, Requests.answered_fire⟩
  | message meshId msg =>
    rw [step, onMessage]
    cases hstarted : s.started with
    | false =>
      rw [if_neg (by simp)]
      refine ⟨h, (and_iff_left ?_).symm⟩
      intro hs
      rw [hstarted] at hs
      cases hs
    | true =>
      rw [if_pos rfl]
      refine ⟨h.drop _ _, (answered_response h _ _).trans (and_congr_right fun _ => ?_)⟩
      exact ⟨fun hs _ => hs, fun hs => hs hstarted⟩

end WebRTC

/-! ### Over sockets -/

namespace WebSocket

/-- **The condition**, of a socket. -/
def AnswersRequest (s : WebSocket) : Act → Prop
  | .message connId msg => ∀ p, s.requests.pending.get msg.id = some p →
      s.nodeIdByConnId.get connId = some p.node ∧ msg.answers = p.number
  | _ => True

/-- What a step does to the requests. -/
theorem step_requests (s : WebSocket) (a : Act) (h : s.requests.InOrder) : (s.step a).requests.InOrder ∧
      ((s.step a).requests.Answered Suits ↔ s.requests.Answered Suits ∧ s.AnswersRequest a) := by
  have hquiet : ∀ {r : Requests Text (Received Text)},
      r.InOrder ∧ (r.Answered Suits ↔ s.requests.Answered Suits) →
      r.InOrder ∧ (r.Answered Suits ↔ s.requests.Answered Suits ∧ True) := fun hr =>
    ⟨hr.1, hr.2.trans (and_iff_left trivial).symm⟩
  have hgiven : ∀ f : Received Text, Settlement.givenUp ≠ .answered f := by rintro f ⟨⟩
  cases a with
  | start | bindPeer | unbindPeer => exact hquiet ⟨h, Iff.rfl⟩
  | stop => exact hquiet ⟨h.close, Requests.answered_close⟩
  | connClosed connId => exact hquiet ⟨h.dropAll _ _, Requests.answered_dropAll hgiven⟩
  | closeConnection nodeId =>
    refine hquiet ?_
    rw [step, closeConnection]
    split
    · exact ⟨h, Iff.rfl⟩
    · split <;> exact ⟨h, Iff.rfl⟩
  | send nodeId connOpen throws =>
    refine hquiet ?_
    rw [step, send]
    split
    · exact ⟨h.refuse _, Requests.answered_refuse h⟩
    split
    · exact ⟨h.refuse _, Requests.answered_refuse h⟩
    split
    · exact ⟨h.refuse _, Requests.answered_refuse h⟩
    have hask := h.ask maxReqId nodeId
    cases throws with
    | false => exact ⟨hask, Requests.answered_ask h⟩
    | true =>
      exact ⟨hask.drop _ _, (Requests.answered_drop hgiven).trans (Requests.answered_ask h)⟩
  | timeout number => exact hquiet ⟨h.fire _, Requests.answered_fire⟩
  | message connId msg => exact ⟨h.drop _ _, answered_response h _ _⟩

end WebSocket

/-! ### Over whole runs -/

/-- **Requests keep their integrity exactly where the responses fit.** Over the mesh and over
sockets, after every run each promise has settled at most once, each one that has not will when its
timer goes off, and those that settled by a response were answered by the peer asked, if and only
if every response that came in under an outstanding id came from the peer asked and answered that
request. -/
theorem request_integrity (as : List WebRTC.Act) (bs : List WebSocket.Act) :
    (Integrity (run WebRTC.step .init as).requests ↔
      EachStep WebRTC.step WebRTC.AnswersRequest .init as) ∧
    (Integrity (run WebSocket.step .init bs).requests ↔
      EachStep WebSocket.step WebSocket.AnswersRequest .init bs) := by
  have hnil : ∀ {ν : Type}, (Requests.init : Requests ν (Received ν)).Answered Suits := by
    rintro ν k f ⟨⟩
  refine ⟨?_, ?_⟩
  · have hsound := run_invariant (I := fun s : WebRTC => s.requests.InOrder)
      (fun s a h => (s.step_requests a h).1) (s := .init) Requests.inOrder_init as
    rw [integrity_iff hsound, EachStep.exact (I := fun s : WebRTC => s.requests.InOrder)
      (P := fun s => s.requests.Answered Suits) (fun s a h => (s.step_requests a h).1)
      (fun s a h => (s.step_requests a h).2) Requests.inOrder_init as]
    exact and_iff_right hnil
  · have hsound := run_invariant (I := fun s : WebSocket => s.requests.InOrder)
      (fun s a h => (s.step_requests a h).1) (s := .init) Requests.inOrder_init bs
    rw [integrity_iff hsound, EachStep.exact (I := fun s : WebSocket => s.requests.InOrder)
      (P := fun s => s.requests.Answered Suits) (fun s a h => (s.step_requests a h).1)
      (fun s a h => (s.step_requests a h).2) Requests.inOrder_init bs]
    exact and_iff_right hnil

/-- A request to peer `1` has the first id. Peer `2` answers it before peer `1` does. -/
def strangerAnswers : List WebRTC.Act :=
  [.start, .bindPeer 1 "a".toList none, .bindPeer 2 "b".toList none, .send 1 true false,
    .message "b".toList ⟨1, true, .str "forged".toList, 0⟩]

theorem answered_by_stranger :
    (run WebRTC.step .init strangerAnswers).requests.settled =
        [(0, .answered ⟨some 2, ⟨1, true, .str "forged".toList, 0⟩⟩)]
      ∧ (run WebRTC.step .init strangerAnswers).requests.asked = [1]
      ∧ ¬ ∀ as, Integrity (run WebRTC.step .init as).requests := by
  refine ⟨rfl, rfl, fun h => ?_⟩
  obtain ⟨node, hnode, hbound, -⟩ := (h strangerAnswers).answered 0 _ List.mem_cons_self
  replace hnode : some 1 = some node := hnode
  replace hbound : some 2 = some node := hbound
  rw [← hnode] at hbound
  cases hbound

end Axona
