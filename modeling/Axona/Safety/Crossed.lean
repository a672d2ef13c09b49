import Axona.Safety.Signalling
import Axona.Transport.Crossed

/-! # Crossed offers of two nodes

Two nodes that dial each other at the same time have two attempts between them, and each end decides
by itself whether to give up its own for the other's. Each end with its negotiation is a party of
`Crossing`: what it does with an offer, a reject, a dial or a retry is a move there, and everything
else it does leaves its part as it was. -/

namespace Axona

open Library OrderedMap

/-! ### A negotiation that goes on -/

/-- An offer of ours does not finish a negotiation. -/
theorem PeerConnection.negotiated_setLocal_offer {pc pc' : PeerConnection} {takes : Bool}
    (h : pc.setLocalDescription .offer takes = some pc') : pc'.negotiated = pc.negotiated := by
  unfold setLocalDescription at h
  split at h
  · split at h
    · cases h
    · cases h
      rfl
    next htype _ => cases htype
    · cases h
  · cases h

/-- Was the connection negotiated? -/
def Negotiation.negotiated (st : Negotiation) : Bool := st.pc.any (·.negotiated)

/-- A change that keeps what a negotiation is about. Where `c` does not hold, the connection of an
offerer is not negotiated by it. -/
structure Negotiation.Same (c : Prop) (st st' : Negotiation) : Prop where
  peerId : st'.peerId = st.peerId
  role : st'.role = st.role
  attempt : st'.attempt = st.attempt
  timer : st'.retryTimer = true → st.retryTimer = true ∨ st.role = .offerer
  negotiated : st.role = .offerer → st'.negotiated = true → st.negotiated = true ∨ c

namespace Negotiation.Same

variable {c : Prop} {st st' st'' : Negotiation}

theorem of_eq (hid : st'.peerId = st.peerId) (hrole : st'.role = st.role)
    (hat : st'.attempt = st.attempt) (htimer : st'.retryTimer = true → st.retryTimer = true)
    (hpc : st'.negotiated = st.negotiated) : Same c st st' where
  peerId := hid
  role := hrole
  attempt := hat
  timer := fun h => .inl (htimer h)
  negotiated := fun _ h => .inl (hpc ▸ h)

theorem refl (st : Negotiation) : Same c st st := of_eq rfl rfl rfl id rfl

theorem trans (h : Same c st st') (h' : Same c st' st'') : Same c st st'' where
  peerId := h'.peerId.trans h.peerId
  role := h'.role.trans h.role
  attempt := h'.attempt.trans h.attempt
  timer := by
    intro ht
    rcases h'.timer ht with ht' | hrole
    · exact h.timer ht'
    · exact .inr (h.role ▸ hrole)
  negotiated := by
    intro hrole hn
    rcases h'.negotiated (h.role.trans hrole) hn with hn' | hc
    · exact h.negotiated hrole hn'
    · exact .inr hc

/-- The connection takes a description. -/
theorem describe {pc' : PeerConnection}
    (h : st.role = .offerer → pc'.negotiated = true → st.negotiated = true ∨ c) :
    Same c st { st with pc := some pc' } :=
  ⟨rfl, rfl, rfl, .inl, h⟩

theorem fail (st : Negotiation) (overdue : Bool) :
    Same c st ({ st with state := .failed }.scheduleRetry overdue) := by
  unfold scheduleRetry
  split
  · exact of_eq rfl rfl rfl id rfl
  next hretry =>
  refine ⟨rfl, rfl, rfl, ?_, fun _ h => .inl h⟩
  intro _
  right
  simp at hretry
  exact hretry.1.2

theorem onOpen (st : Negotiation) : Same c st st.onOpen := by
  unfold Negotiation.onOpen
  split
  · refine of_eq rfl rfl rfl ?_ rfl
    intro h
    cases h
  · exact refl st

theorem candidates (cs : PeerConnection → List Text) (hid : st'.peerId = st.peerId)
    (hrole : st'.role = st.role) (hat : st'.attempt = st.attempt)
    (htimer : st'.retryTimer = st.retryTimer)
    (hpc : st'.pc = st.pc.map fun pc => { pc with candidates := cs pc }) : Same c st st' := by
  refine of_eq hid hrole hat (fun h => htimer ▸ h) ?_
  unfold Negotiation.negotiated
  rw [hpc, any_negotiated_map]

theorem flush (st : Negotiation) : Same c st st.flushPendingCandidates :=
  candidates _ rfl rfl rfl rfl rfl

theorem addCandidate (st : Negotiation) (candidate : Text) :
    Same c st (st.addCandidate candidate) := by
  unfold Negotiation.addCandidate
  split
  · exact candidates _ rfl rfl rfl rfl rfl
  · exact of_eq rfl rfl rfl id rfl

theorem display (st : Negotiation) (silent : Bool) :
    Same c st (if silent then { st with state := .stale }
      else if st.state = .stale then { st with state := .open } else st) := by
  split
  · exact of_eq rfl rfl rfl id rfl
  split
  · exact of_eq rfl rfl rfl id rfl
  · exact refl st

end Negotiation.Same

/-! ### What a node is about -/

namespace NegTask

/-- The negotiation a task holds. -/
def ref : NegTask → Ref
  | offerMade r => r
  | offerSet r => r
  | offerTaken r => r
  | flushed r => r
  | answerMade r => r
  | answerSet r => r
  | answerTaken r => r

/-- The negotiation whose offer is still to go out with it. -/
def holds : NegTask → Option Ref
  | offerMade r => some r
  | offerSet r => some r
  | _ => none

/-- The role of the negotiation a task is about. -/
def role : NegTask → Option PeerRole
  | offerMade _ => some .offerer
  | offerSet _ => some .offerer
  | offerTaken _ => some .responder
  | flushed _ => some .responder
  | answerMade _ => some .responder
  | answerSet _ => some .responder
  | answerTaken _ => none

theorem ref_of_holds {t : NegTask} {r : Ref} (h : t.holds = some r) : t.ref = r := by
  cases t <;> cases h <;> rfl

end NegTask

namespace MeshManager

/-- How many tasks hold the offer of a negotiation back. -/
def heldBack (n : MeshManager) (r : Ref) : Nat := n.tasks.countP fun t => t.holds = some r

/-- What a node is about with the other. -/
def slot (n : MeshManager) (k : MeshId) : Crossing.Slot (Option Attempt) :=
  match n.peers.get k with
  | none => .idle
  | some r =>
    match (n.states.get r).role with
    | .offerer => .offering (n.states.get r).attempt (n.heldBack r = 0)
    | .responder => .answering (n.states.get r).attempt

section Slots

variable {n : MeshManager} {k : MeshId} {r : Ref}

theorem slot_none (h : n.peers.get k = none) : n.slot k = .idle := by
  unfold slot
  rw [h]

section

variable (h : n.peers.get k = some r)
include h

theorem slot_offerer (hrole : (n.states.get r).role = .offerer) :
    n.slot k = .offering (n.states.get r).attempt (n.heldBack r = 0) := by
  unfold slot
  rw [h]
  simp only []
  rw [hrole]

theorem slot_responder (hrole : (n.states.get r).role = .responder) :
    n.slot k = .answering (n.states.get r).attempt := by
  unfold slot
  rw [h]
  simp only []
  rw [hrole]

theorem slot_ne_idle : n.slot k ≠ .idle := by
  cases hrole : (n.states.get r).role with
  | offerer =>
    rw [slot_offerer h hrole]
    rintro ⟨⟩
  | responder =>
    rw [slot_responder h hrole]
    rintro ⟨⟩

end

theorem of_slot_offering {a : Option Attempt} {b : Bool} (h : n.slot k = .offering a b) :
    ∃ r, n.peers.get k = some r ∧ (n.states.get r).role = .offerer
      ∧ (n.states.get r).attempt = a ∧ decide (n.heldBack r = 0) = b := by
  cases hr : n.peers.get k with
  | none =>
    rw [slot_none hr] at h
    cases h
  | some r =>
    cases hrole : (n.states.get r).role with
    | offerer =>
      rw [slot_offerer hr hrole] at h
      cases h
      exact ⟨r, rfl, hrole, rfl, rfl⟩
    | responder =>
      rw [slot_responder hr hrole] at h
      cases h

theorem of_slot_answering {a : Option Attempt} (h : n.slot k = .answering a) :
    ∃ r, n.peers.get k = some r ∧ (n.states.get r).role = .responder
      ∧ (n.states.get r).attempt = a := by
  cases hr : n.peers.get k with
  | none =>
    rw [slot_none hr] at h
    cases h
  | some r =>
    cases hrole : (n.states.get r).role with
    | offerer =>
      rw [slot_offerer hr hrole] at h
      cases h
    | responder =>
      rw [slot_responder hr hrole] at h
      cases h
      exact ⟨r, rfl, hrole, rfl⟩

end Slots

/-- An attempt id among the first `m` of a run. -/
def Minted (incRun : Text) (m : Nat) (a : Option Attempt) : Prop :=
  ∃ q, q ≤ m ∧ a = some ⟨incRun, q⟩

variable {a : Option Attempt}

theorem Minted.mono {incRun : Text} {m m' : Nat} (hm : m ≤ m') (h : Minted incRun m a) :
    Minted incRun m' a := by
  obtain ⟨q, hq, ha⟩ := h
  exact ⟨q, hq.trans hm, ha⟩

/-- The next id of a run is not among those minted. -/
theorem Minted.ne_next {incRun : Text} {m : Nat} (h : Minted incRun m a) :
    a ≠ some ⟨incRun, m + 1⟩ := by
  obtain ⟨q, hq, rfl⟩ := h
  rintro ⟨⟩
  omega

/-- Ids of two runs differ. -/
theorem Minted.ne {own other : Text} {m m' : Nat} {b : Option Attempt} (hne : own ≠ other)
    (ha : Minted own m a) (hb : Minted other m' b) : a ≠ b := by
  obtain ⟨q, -, rfl⟩ := ha
  obtain ⟨q', -, rfl⟩ := hb
  rintro ⟨⟩
  exact hne rfl

/-- A negotiation with the other node: an offerer has an attempt of this node's run, a responder one
of the other's. -/
structure StateOk (k : MeshId) (own : Text) (m : Nat) (other : Text) (m' : Nat) (st : Negotiation) :
    Prop where
  peerId : st.peerId = k
  timer : st.retryTimer = true → st.role = .offerer
  offers : st.role = .offerer → Minted own m st.attempt
  answers : st.role = .responder → Minted other m' st.attempt

/-- A task holds a negotiation that is there, of the role it is about. -/
structure TaskOk (n : MeshManager) (t : NegTask) : Prop where
  ref : t.ref < n.states.next
  role : ∀ p, t.role = some p → (n.states.get t.ref).role = p

/-- What holds of a node that has to do with one other only, whose run has come to `m'`. -/
structure Ok (k : MeshId) (own other : Text) (m' : Nat) (n : MeshManager) : Prop where
  onCourse : n.Keyed
  incRun : n.incRun = own
  only : ∀ k' r, n.peers.get k' = some r → k' = k
  states : ∀ r, r < n.states.next → StateOk k own n.attemptSeq other m' (n.states.get r)
  tasks : ∀ t ∈ n.tasks, n.TaskOk t
  held : ∀ r, n.heldBack r ≤ 1

/-! ### Steps that leave a node about the same -/

/-- The node is about what it was about. Where `C` does not hold of an offerer, its connection is
not negotiated. -/
structure Steady (C : Ref → Prop) (n n' : MeshManager) : Prop where
  incRun : n'.incRun = n.incRun
  attemptSeq : n'.attemptSeq = n.attemptSeq
  peers : n'.peers = n.peers
  next : n'.states.next = n.states.next
  states : ∀ r, (n.states.get r).Same (C r) (n'.states.get r)
  tasks : (∀ t ∈ n.tasks, n.TaskOk t) → ∀ t ∈ n'.tasks, n'.TaskOk t
  heldBack_le : ∀ r, n'.heldBack r ≤ n.heldBack r
  heldBack : ∀ r, n.serves r = true → n'.heldBack r = n.heldBack r
  sent : n'.sent = n.sent

namespace Steady

variable {C : Ref → Prop} {n n' n'' : MeshManager}

theorem refl (n : MeshManager) : Steady C n n where
  incRun := rfl
  attemptSeq := rfl
  peers := rfl
  next := rfl
  states := fun _ => .refl _
  tasks := id
  heldBack_le := fun _ => le_rfl
  heldBack := fun _ _ => rfl
  sent := rfl

theorem serves (h : Steady C n n') (r : Ref) : n'.serves r = n.serves r := by
  unfold MeshManager.serves
  rw [h.peers, (h.states r).peerId]

theorem trans (h : Steady C n n') (h' : Steady C n' n'') : Steady C n n'' where
  incRun := h'.incRun.trans h.incRun
  attemptSeq := h'.attemptSeq.trans h.attemptSeq
  peers := h'.peers.trans h.peers
  next := h'.next.trans h.next
  states := fun r => (h.states r).trans (h'.states r)
  tasks := fun ht => h'.tasks (h.tasks ht)
  heldBack_le := fun r => (h'.heldBack_le r).trans (h.heldBack_le r)
  heldBack := by
    intro r hr
    rw [h'.heldBack r ((h.serves r).trans hr), h.heldBack r hr]
  sent := h'.sent.trans h.sent

theorem update (n : MeshManager) {r : Ref} {f : Negotiation → Negotiation}
    (hf : (n.states.get r).Same (C r) (f (n.states.get r))) : Steady C n (n.update r f) := by
  have hsame : ∀ q, (n.states.get q).Same (C q) ((n.states.modify r f).get q) := by
    intro q
    rw [Heap.get_modify]
    split
    · next hq =>
      subst hq
      exact hf
    · exact .refl _
  refine ⟨rfl, rfl, rfl, rfl, hsame, ?_, fun _ => le_rfl, fun _ _ => rfl, rfl⟩
  intro ht t hmem
  refine ⟨(ht t hmem).ref, ?_⟩
  intro p hp
  exact (hsame t.ref).role.trans ((ht t hmem).role p hp)

/-- One more task, that holds no offer back. -/
theorem await (n : MeshManager) {t : NegTask} (hholds : t.holds = none) (ht : n.TaskOk t) :
    Steady C n (n.await t) := by
  have heq : ∀ r, (n.await t).heldBack r = n.heldBack r := by
    intro r
    show (n.tasks ++ [t]).countP _ = _
    simp [MeshManager.heldBack, hholds]
  refine ⟨rfl, rfl, rfl, rfl, fun _ => .refl _, ?_, fun r => (heq r).le, fun r _ => heq r, rfl⟩
  intro hall t' hmem
  have hok : n.TaskOk t' := by
    rcases List.mem_append.mp hmem with hold | hnew
    · exact hall t' hold
    · rw [List.mem_singleton.mp hnew]
      exact ht
  exact ⟨hok.ref, hok.role⟩

end Steady

/-- Without one of its tasks. -/
def without (n : MeshManager) (t : NegTask) : MeshManager := { n with tasks := n.tasks.erase t }

theorem heldBack_without {n : MeshManager} {t : NegTask} (ht : t ∈ n.tasks) (r : Ref) :
    n.heldBack r = (n.without t).heldBack r + if t.holds = some r then 1 else 0 := by
  unfold heldBack
  rw [(List.perm_cons_erase ht).countP_eq, List.countP_cons]
  simp [without]

namespace Steady

variable {C : Ref → Prop} {n : MeshManager}

theorem without {t : NegTask} (ht : t ∈ n.tasks)
    (hholds : ∀ r, t.holds = some r → n.serves r = false) : Steady C n (n.without t) := by
  have heq : ∀ r, n.serves r = true → (n.without t).heldBack r = n.heldBack r := by
    intro r hr
    rw [heldBack_without ht r, if_neg]
    · rfl
    · intro hhold
      rw [hholds r hhold] at hr
      cases hr
  refine ⟨rfl, rfl, rfl, rfl, fun _ => .refl _, ?_, ?_, heq, rfl⟩
  · intro hall t' hmem
    have hok := hall t' (List.mem_of_mem_erase hmem)
    exact ⟨hok.ref, hok.role⟩
  · intro r
    rw [heldBack_without ht r]
    exact Nat.le_add_right _ _

/-- The offer is made, and goes on to be set. -/
theorem made {r : Ref} (ht : .offerMade r ∈ n.tasks) (hr : r < n.states.next) :
    Steady C n ((n.without (.offerMade r)).await (.offerSet r)) := by
  have heq : ∀ q, ((n.without (.offerMade r)).await (.offerSet r)).heldBack q = n.heldBack q := by
    intro q
    rw [heldBack_without ht q]
    show ((n.without (.offerMade r)).tasks ++ [NegTask.offerSet r]).countP _ = _
    rw [List.countP_append]
    simp [NegTask.holds, MeshManager.heldBack]
  refine ⟨rfl, rfl, rfl, rfl, fun _ => .refl _, ?_, fun q => (heq q).le, fun q _ => heq q, rfl⟩
  intro hall t hmem
  rcases List.mem_append.mp hmem with hold | hnew
  · have hok := hall t (List.mem_of_mem_erase hold)
    exact ⟨hok.ref, hok.role⟩
  · rw [List.mem_singleton.mp hnew]
    refine ⟨hr, ?_⟩
    rintro p ⟨⟩
    exact (hall _ ht).role _ rfl

end Steady

namespace Ok

variable {k : MeshId} {own other : Text} {m' : Nat} {n n' : MeshManager} {C : Ref → Prop}

variable (h : n.Ok k own other m')
include h

theorem current {r : Ref} (hr : n.peers.get k = some r) :
    StateOk k own n.attemptSeq other m' (n.states.get r) :=
  h.states r (h.onCourse.keyed k r hr).1

theorem serves {r : Ref} (hr : n.peers.get k = some r) :
    n.serves r = true := by
  unfold MeshManager.serves
  rw [(h.onCourse.keyed k r hr).2, hr]
  exact decide_eq_true rfl

/-- What serves its key serves the other's. -/
theorem of_serves {r : Ref} (hr : n.serves r = true) :
    n.peers.get k = some r := by
  have hget := of_decide_eq_true hr
  rw [h.only _ _ hget] at hget
  exact hget

theorem steady (hs : Steady C n n') (hsound : n'.Keyed) :
    n'.Ok k own other m' where
  onCourse := hsound
  incRun := hs.incRun.trans h.incRun
  only := by
    rw [hs.peers]
    exact h.only
  states := by
    intro r hr
    rw [hs.next] at hr
    rw [hs.attemptSeq]
    have hok := h.states r hr
    have hsame := hs.states r
    refine ⟨hsame.peerId.trans hok.peerId, ?_, ?_, ?_⟩
    · intro ht
      rw [hsame.role]
      exact (hsame.timer ht).elim hok.timer id
    · rw [hsame.role, hsame.attempt]
      exact hok.offers
    · rw [hsame.role, hsame.attempt]
      exact hok.answers
  tasks := hs.tasks h.tasks
  held := fun r => (hs.heldBack_le r).trans (h.held r)

theorem slot_steady (hs : Steady C n n') : n'.slot k = n.slot k := by
  cases hr : n.peers.get k with
  | none => rw [slot_none hr, slot_none (hs.peers ▸ hr)]
  | some r =>
    have hr' : n'.peers.get k = some r := hs.peers ▸ hr
    have hsame := hs.states r
    cases hrole : (n.states.get r).role with
    | offerer =>
      rw [slot_offerer hr hrole, slot_offerer hr' (hsame.role.trans hrole), hsame.attempt,
        hs.heldBack r (h.serves hr)]
    | responder =>
      rw [slot_responder hr hrole, slot_responder hr' (hsame.role.trans hrole), hsame.attempt]

theorem mono {m'' : Nat} (hm : m' ≤ m'') : n.Ok k own other m'' :=
  { h with
    states := by
      intro r hr
      have hok := h.states r hr
      exact ⟨hok.peerId, hok.timer, hok.offers, fun hrole => (hok.answers hrole).mono hm⟩ }

end Ok

/-! ### Steps that put another negotiation in its place -/

/-- The key has come to hold a new negotiation; `b` tasks hold its offer back. -/
structure Entered (k : MeshId) (p : PeerRole) (a : Option Attempt) (b : Nat)
    (n n' : MeshManager) : Prop where
  incRun : n'.incRun = n.incRun
  attemptSeq : n.attemptSeq ≤ n'.attemptSeq
  current : n'.peers.get k = some n.states.next
  only : ∀ k', k' ≠ k → n'.peers.get k' = n.peers.get k'
  next : n'.states.next = n.states.next + 1
  peerId : (n'.states.get n.states.next).peerId = k
  role : (n'.states.get n.states.next).role = p
  attempt : (n'.states.get n.states.next).attempt = a
  timer : (n'.states.get n.states.next).retryTimer = true → p = .offerer
  negotiated : p = .offerer → (n'.states.get n.states.next).negotiated = false
  old : ∀ r, r < n.states.next → (n.states.get r).Same False (n'.states.get r)
  tasks : (∀ t ∈ n.tasks, n.TaskOk t) → ∀ t ∈ n'.tasks, n'.TaskOk t
  heldBack_le : ∀ r, r ≠ n.states.next → n'.heldBack r ≤ n.heldBack r
  heldBack : (∀ t ∈ n.tasks, n.TaskOk t) → n'.heldBack n.states.next = b
  sent : n'.sent = n.sent

namespace Entered

variable {k : MeshId} {p : PeerRole} {a : Option Attempt} {b : Nat} {n n' n'' : MeshManager}

/-- No task holds what is not there yet. -/
theorem heldBack_next (h : ∀ t ∈ n.tasks, n.TaskOk t) : n.heldBack n.states.next = 0 := by
  unfold MeshManager.heldBack
  rw [List.countP_eq_zero]
  intro t ht hhold
  have href := NegTask.ref_of_holds (of_decide_eq_true hhold)
  exact absurd href (Nat.ne_of_lt (h t ht).ref)

theorem enter (n : MeshManager) (st : Negotiation) (htimer : st.retryTimer = false)
    (hneg : st.negotiated = false) : Entered st.peerId st.role st.attempt 0 n (n.enter st) where
  incRun := rfl
  attemptSeq := le_rfl
  current := by
    show (n.peers.set st.peerId n.states.next).get st.peerId = _
    rw [get_set, if_pos rfl]
  only := by
    intro k' hk
    show (n.peers.set st.peerId n.states.next).get k' = _
    rw [get_set, if_neg hk]
  next := rfl
  peerId := by
    show ((n.states.alloc st).1.get n.states.next).peerId = _
    rw [Heap.get_alloc, if_pos rfl]
  role := by
    show ((n.states.alloc st).1.get n.states.next).role = _
    rw [Heap.get_alloc, if_pos rfl]
  attempt := by
    show ((n.states.alloc st).1.get n.states.next).attempt = _
    rw [Heap.get_alloc, if_pos rfl]
  timer := by
    show ((n.states.alloc st).1.get n.states.next).retryTimer = true → _
    rw [Heap.get_alloc, if_pos rfl, htimer]
    intro h
    cases h
  negotiated := by
    intro _
    show ((n.states.alloc st).1.get n.states.next).negotiated = _
    rw [Heap.get_alloc, if_pos rfl, hneg]
  old := by
    intro r hr
    show (n.states.get r).Same False ((n.states.alloc st).1.get r)
    rw [Heap.get_alloc_of_lt _ _ hr]
    exact .refl _
  tasks := by
    intro hall t ht
    have hok := hall t ht
    refine ⟨Nat.lt_succ_of_lt hok.ref, ?_⟩
    intro q hq
    show ((n.states.alloc st).1.get t.ref).role = q
    rw [Heap.get_alloc_of_lt _ _ hok.ref]
    exact hok.role q hq
  heldBack_le := fun _ _ => le_rfl
  heldBack := heldBack_next
  sent := rfl

theorem serves (h : Entered k p a b n n') : n'.serves n.states.next = true := by
  unfold MeshManager.serves
  rw [h.peerId, h.current]
  exact decide_eq_true rfl

theorem steady (h : Entered k p a b n n') (hs : Steady (fun _ => False) n' n'') :
    Entered k p a b n n'' where
  incRun := hs.incRun.trans h.incRun
  attemptSeq := h.attemptSeq.trans hs.attemptSeq.ge
  current := by rw [hs.peers, h.current]
  only := by
    rw [hs.peers]
    exact h.only
  next := hs.next.trans h.next
  peerId := (hs.states _).peerId.trans h.peerId
  role := (hs.states _).role.trans h.role
  attempt := (hs.states _).attempt.trans h.attempt
  timer := by
    intro ht
    rcases (hs.states _).timer ht with ht' | hrole
    · exact h.timer ht'
    · exact h.role.symm.trans hrole
  negotiated := by
    intro hrole
    rw [← Bool.not_eq_true]
    intro hn
    rcases (hs.states _).negotiated (h.role.trans hrole) hn with hn' | hf
    · rw [h.negotiated hrole] at hn'
      cases hn'
    · exact hf
  old := fun r hr => (h.old r hr).trans (hs.states r)
  tasks := fun hall => hs.tasks (h.tasks hall)
  heldBack_le := fun r hr => (hs.heldBack_le r).trans (h.heldBack_le r hr)
  heldBack := fun hall => (hs.heldBack _ h.serves).trans (h.heldBack hall)
  sent := hs.sent.trans h.sent

/-- The offer of the new negotiation is under way to be made. -/
theorem offering (h : Entered k .offerer a 0 n n') :
    Entered k .offerer a 1 n (n'.await (.offerMade n.states.next)) :=
  { h with
    tasks := by
      intro hall t ht
      rcases List.mem_append.mp ht with hold | hnew
      · have hok := h.tasks hall t hold
        exact ⟨hok.ref, hok.role⟩
      rw [List.mem_singleton.mp hnew]
      refine ⟨?_, ?_⟩
      · show n.states.next < n'.states.next
        rw [h.next]
        exact Nat.lt_succ_self _
      · rintro q ⟨⟩
        exact h.role
    heldBack_le := by
      intro r hr
      have hne : ¬ n.states.next = r := fun he => hr he.symm
      show (n'.tasks ++ [NegTask.offerMade n.states.next]).countP _ ≤ _
      rw [List.countP_append]
      simp only [List.countP_singleton, NegTask.holds, Option.some.injEq, hne, decide_false,
        Bool.false_eq_true, if_false, Nat.add_zero]
      exact h.heldBack_le r hr
    heldBack := by
      intro hall
      show (n'.tasks ++ [NegTask.offerMade n.states.next]).countP _ = _
      rw [List.countP_append]
      simp only [List.countP_singleton, NegTask.holds, decide_true, if_true]
      exact congrArg (· + 1) (h.heldBack hall) }

/-- What came before the new negotiation: the old one was retired. -/
theorem of_retire (h : Entered k p a b (n.retire k) n') : Entered k p a b n n' := by
  unfold MeshManager.retire at h
  cases hr : n.peers.get k with
  | none =>
    rw [hr] at h
    exact h
  | some r =>
    rw [hr] at h
    have hsteady : Steady (fun _ => False) n
        (n.update r fun st => { st with retryTimer := false }) := by
      refine .update n (.of_eq rfl rfl rfl ?_ rfl)
      intro ht
      cases ht
    refine ⟨h.incRun, h.attemptSeq, h.current, ?_, h.next, h.peerId, h.role, h.attempt, h.timer,
      h.negotiated, fun q hq => (hsteady.states q).trans (h.old q hq), ?_, h.heldBack_le, ?_,
      h.sent⟩
    · intro k' hk
      rw [h.only k' hk]
      rw [get_delete, if_neg hk]
    · intro hall
      refine h.tasks ?_
      intro t ht
      have hok := hsteady.tasks hall t ht
      exact ⟨hok.ref, hok.role⟩
    · intro hall
      refine h.heldBack ?_
      intro t ht
      have hok := hsteady.tasks hall t ht
      exact ⟨hok.ref, hok.role⟩

/-- What came before the new negotiation left the node about the same. -/
theorem of_steady {n₀ : MeshManager} (hs : Steady (fun _ => False) n₀ n)
    (h : Entered k p a b n n') : Entered k p a b n₀ n' := by
  have hnext := hs.next
  refine ⟨h.incRun.trans hs.incRun, hs.attemptSeq.ge.trans h.attemptSeq, ?_, ?_, ?_, ?_, ?_, ?_, ?_,
    ?_, ?_, fun hall => h.tasks (hs.tasks hall), ?_, ?_, h.sent.trans hs.sent⟩
  · rw [← hnext]
    exact h.current
  · rw [← hs.peers]
    exact h.only
  · rw [← hnext]
    exact h.next
  · rw [← hnext]
    exact h.peerId
  · rw [← hnext]
    exact h.role
  · rw [← hnext]
    exact h.attempt
  · rw [← hnext]
    exact h.timer
  · rw [← hnext]
    exact h.negotiated
  · rw [← hnext]
    exact fun r hr => (hs.states r).trans (h.old r hr)
  · rw [← hnext]
    exact fun r hr => (h.heldBack_le r hr).trans (hs.heldBack_le r)
  · rw [← hnext]
    exact fun hall => h.heldBack (hs.tasks hall)

theorem initiateTo (n : MeshManager) (k : MeshId) :
    Entered k .offerer (some ⟨n.incRun, n.attemptSeq + 1⟩) 1 n (n.initiateTo k true)
      ∧ (n.initiateTo k true).attemptSeq = n.attemptSeq + 1 := by
  have hmint := Entered.enter n.mintAttempt.1 (.newOfferer k ⟨n.incRun, n.attemptSeq + 1⟩) rfl rfl
  have hoffer := hmint.offering
  refine ⟨⟨hoffer.incRun, (Nat.le_succ _).trans hoffer.attemptSeq, hoffer.current, hoffer.only,
    hoffer.next, hoffer.peerId, hoffer.role, hoffer.attempt, hoffer.timer, hoffer.negotiated,
    hoffer.old, ?_, hoffer.heldBack_le, ?_, hoffer.sent⟩, rfl⟩
  · intro hall
    refine hoffer.tasks ?_
    intro t ht
    exact ⟨(hall t ht).ref, (hall t ht).role⟩
  · intro hall
    refine hoffer.heldBack ?_
    intro t ht
    exact ⟨(hall t ht).ref, (hall t ht).role⟩

end Entered

/-! ### The handlers -/

section Handlers

variable {C : Ref → Prop} {n : MeshManager} {k : MeshId} {own other : Text} {m' : Nat} {r : Ref}

theorem enter_update (n : MeshManager) (st : Negotiation) {f : Negotiation → Negotiation}
    (hid : (f st).peerId = st.peerId) : (n.enter st).update n.states.next f = n.enter (f st) := by
  unfold enter update
  rw [hid]
  rw [Heap.modify_alloc]

/-- The connection of a responder takes a description. -/
theorem steady_setRemote (hr : r < n.states.next) (hrole : (n.states.get r).role = .responder)
    (type : SdpType) (takes : Bool) : Steady C n (n.setRemote r type takes (.offerTaken r)) := by
  unfold setRemote
  split
  · exact .refl n
  next pc hpc =>
  have hdesc : Steady C n (n.update r fun st => { st with pc := some pc }) := by
    refine .update n (.describe ?_)
    intro hoff
    rw [hrole] at hoff
    cases hoff
  refine hdesc.trans (.await _ rfl ⟨hr, ?_⟩)
  rintro q ⟨⟩
  exact (hdesc.states r).role.trans hrole

theorem steady_handleOffer (hr : r < n.states.next) (hrole : (n.states.get r).role = .responder)
    (takes : Bool) : Steady C n (n.handleOffer r takes) := by
  unfold handleOffer
  split
  · exact steady_setRemote hr hrole _ _
  next hpc =>
  have hat : Steady C n (n.update r Negotiation.attachPc) := by
    refine .update n (.of_eq rfl rfl rfl id ?_)
    rw [Bool.not_eq_true, Option.isSome_eq_false_iff, Option.isNone_iff_eq_none] at hpc
    unfold Negotiation.negotiated
    rw [hpc]
    rfl
  have hrole' := (hat.states r).role.trans hrole
  exact hat.trans (steady_setRemote (n := n.update r Negotiation.attachPc) hr hrole' _ _)

/-- An offer is answered where the key holds nothing. -/
theorem entered_answerOffer (hnone : n.peers.get k = none) (a : Attempt) (takes : Bool) :
    Entered k .responder (some a) 0 n (n.answerOffer k (some a) takes) := by
  have hensure : n.ensureResponder k = (n.enter (.newPeerState k .responder), n.states.next) := by
    unfold ensureResponder
    rw [hnone]
  unfold answerOffer
  rw [hensure]
  simp only [Option.isSome_some, if_true]
  rw [enter_update _ _ rfl]
  have hent := Entered.enter n
    { Negotiation.newPeerState k .responder with attempt := some a } rfl rfl
  refine hent.steady (steady_handleOffer ?_ hent.role takes)
  rw [hent.next]
  exact Nat.lt_succ_self _

theorem get_retire_self (n : MeshManager) (k : MeshId) : (n.retire k).peers.get k = none := by
  unfold retire
  cases hr : n.peers.get k with
  | none => exact hr
  | some r =>
    rw [get_delete, if_pos rfl]

/-- **An offer is taken**: the key holds a responder of its attempt. -/
theorem entered_onOffer {requireFor : MeshId → Bool} {a : Attempt} {room : Bool} {now : Int}
    (hnew : ∀ q, n.peers.get k = some q → (n.states.get q).attempt ≠ some a)
    (ht : Crossed.Taken (n.offerVerdict requireFor k (some a) room now)) (takes : Bool) :
    Entered k .responder (some a) 0 n (n.onOffer requireFor k (some a) room takes now) := by
  unfold onOffer
  rcases ht with hv | hv
  · rw [hv]
    have hent := entered_answerOffer (get_retire_self (n.bumpReplaceCount k now) k) a takes
    have hbump := hent.of_retire
    exact ⟨hbump.incRun, hbump.attemptSeq, hbump.current, hbump.only, hbump.next, hbump.peerId,
      hbump.role, hbump.attempt, hbump.timer, hbump.negotiated, hbump.old,
      fun h => hbump.tasks fun t ht => ⟨(h t ht).ref, (h t ht).role⟩, hbump.heldBack_le,
      fun h => hbump.heldBack fun t ht => ⟨(h t ht).ref, (h t ht).role⟩, hbump.sent⟩
  rw [hv]
  refine entered_answerOffer ?_ a takes
  cases hq : n.peers.get k with
  | none => rfl
  | some q =>
    exfalso
    have hpeer : n.peer k = some (n.states.get q) := by
      unfold peer
      rw [hq]
      rfl
    unfold offerVerdict at hv
    rw [hpeer] at hv
    simp only [Option.isNone_some, Bool.false_and, Bool.false_eq_true, if_false, replaces,
      Option.isSome_some, Bool.true_and, decide_eq_true_eq, hnew q hq, ne_eq, not_false_eq_true,
      if_true] at hv
    split at hv
    · cases hv
    split at hv
    · cases hv
    · split at hv <;> cases hv

/-- An offer is not taken: the other end hears of it, if it is refused. -/
theorem onOffer_not_taken {requireFor : MeshId → Bool} {a : Attempt} {room : Bool} {now : Int}
    (ht : ¬ Crossed.Taken (n.offerVerdict requireFor k (some a) room now)) (takes : Bool) :
    n.onOffer requireFor k (some a) room takes now =
      if n.offerVerdict requireFor k (some a) room now = .ignored then n
      else n.sendSignal k (.reject (some a)) := by
  unfold onOffer
  cases hv : n.offerVerdict requireFor k (some a) room now with
  | ignored => rfl
  | refused => rfl
  | replacing => exact absurd (.inl hv) ht
  | handled => exact absurd (.inr hv) ht

/-- An answer leaves the node about the same; what it negotiates is named by it. -/
theorem Ok.steady_onAnswer (h : n.Ok k own other m') (requireFor : MeshId → Bool) (a : Attempt)
    (takes : Bool) : Steady (fun q => n.peers.get k = some q ∧ (n.states.get q).attempt = some a) n
      (n.onAnswer requireFor k (some a) takes) := by
  unfold onAnswer
  cases hr : n.peers.get k with
  | none => exact .refl n
  | some r =>
    simp only []
    split
    · next hok =>
      unfold setRemote
      split
      · exact .refl n
      next pc hpc =>
      refine Steady.trans (.update n (.describe ?_)) (.await _ rfl ⟨?_, ?_⟩)
      · intro hrole _
        obtain ⟨q, -, hat⟩ := (h.current hr).offers hrole
        right
        refine ⟨rfl, ?_⟩
        unfold attemptOk at hok
        rw [hat] at hok ⊢
        simpa using hok
      · exact (h.onCourse.keyed k r hr).1
      · rintro q ⟨⟩
    · exact .refl n

theorem steady_onIce (requireFor : MeshId → Bool) (a : Option Attempt) (candidate : Text) :
    Steady C n (n.onIce requireFor k a candidate) := by
  unfold onIce
  split
  · exact .refl n
  split
  · exact .update n (.addCandidate _ _)
  · exact .refl n

theorem steady_heartbeat (silent : Bool) : Steady C n (n.heartbeat r silent) := by
  unfold heartbeat
  split
  · exact .update n (.display _ _)
  · exact .refl n

/-- The offer is made; where it is not, the negotiation is not that of its key any more. -/
theorem Ok.steady_offerMade (h : n.Ok k own other m') (ht : .offerMade r ∈ n.tasks)
    {takes : Bool} (overdue : Bool) (hset : n.serves r = true →
      ((n.states.get r).pc.bind (·.setLocalDescription .offer takes)).isSome = true) :
    Steady C n ((n.without (.offerMade r)).afterOfferMade r takes overdue) := by
  have hr := (h.tasks _ ht).ref
  cases hpc : (n.states.get r).pc.bind (·.setLocalDescription .offer takes) with
  | some pc' =>
    have hafter : (n.without (.offerMade r)).afterOfferMade r takes overdue
        = ((n.without (.offerMade r)).await (.offerSet r)).update r
          fun st => { st with pc := some pc' } := by
      have hget : (n.without (.offerMade r)).states = n.states := rfl
      unfold afterOfferMade
      rw [hget, hpc]
      rfl
    rw [hafter]
    refine (Steady.made ht hr).trans (.update _ (.describe ?_))
    intro _ hn
    left
    cases hold : (n.states.get r).pc with
    | none =>
      rw [hold] at hpc
      cases hpc
    | some pc =>
      rw [hold, Option.bind_some] at hpc
      show (n.states.get r).negotiated = true
      unfold Negotiation.negotiated
      rw [hold, Option.any_some, ← PeerConnection.negotiated_setLocal_offer hpc]
      exact hn
  | none =>
    have hnot : n.serves r = false := by
      rw [← Bool.not_eq_true]
      intro hs
      have hsome := hset hs
      rw [hpc] at hsome
      cases hsome
    have hget : (n.without (.offerMade r)).states = n.states := rfl
    unfold afterOfferMade
    rw [hget, hpc]
    refine Steady.trans (.without ht ?_) (.update _ (.fail _ _))
    rintro q ⟨⟩
    exact hnot

/-- **A task goes on** and sends nothing: the node is about the same. -/
theorem Ok.steady_resume (h : n.Ok k own other m') {t : NegTask} (ht : t ∈ n.tasks) {takes : Bool}
    (overdue : Bool) (hmade : ∀ q, t = .offerMade q → n.serves q = true →
      ((n.states.get q).pc.bind (·.setLocalDescription .offer takes)).isSome = true)
    (hsends : ∀ q, n.serves q = true → t ≠ .offerSet q ∧ t ≠ .answerSet q) :
    Steady C n (n.resume t takes overdue) := by
  unfold resume
  rw [if_pos ht]
  have hok := h.tasks t ht
  cases t with
  | offerMade q => exact h.steady_offerMade ht overdue (hmade q rfl)
  | offerSet q =>
    have hnot : n.serves q = false := by
      rw [← Bool.not_eq_true]
      intro hs
      exact (hsends q hs).1 rfl
    show Steady C n ((n.without (.offerSet q)).afterOfferSet q)
    unfold afterOfferSet
    rw [show (n.without (.offerSet q)).serves q = n.serves q from rfl, hnot, if_neg (by simp)]
    refine .without ht ?_
    rintro q' ⟨⟩
    exact hnot
  | offerTaken q =>
    have hw : Steady C n (n.without (.offerTaken q)) := .without ht (by rintro q' ⟨⟩)
    show Steady C n ((n.without (.offerTaken q)).afterOfferTaken q)
    unfold afterOfferTaken
    split
    · have hf : Steady C (n.without (.offerTaken q))
          ((n.without (.offerTaken q)).update q Negotiation.flushPendingCandidates) :=
        .update _ (.flush _)
      refine (hw.trans hf).trans (.await _ rfl ⟨hok.ref, ?_⟩)
      rintro p ⟨⟩
      exact (hf.states q).role.trans (hok.role _ rfl)
    · exact hw
  | flushed q =>
    have hw : Steady C n (n.without (.flushed q)) := .without ht (by rintro q' ⟨⟩)
    show Steady C n ((n.without (.flushed q)).afterFlushed q)
    unfold afterFlushed
    split
    · exact hw.trans (.await _ rfl ⟨hok.ref, hok.role⟩)
    · exact hw
  | answerMade q =>
    have hw : Steady C n (n.without (.answerMade q)) := .without ht (by rintro q' ⟨⟩)
    show Steady C n ((n.without (.answerMade q)).afterAnswerMade q takes)
    unfold afterAnswerMade
    split
    · next pc' _ =>
      have hd : Steady C (n.without (.answerMade q))
          ((n.without (.answerMade q)).update q fun st => { st with pc := some pc' }) := by
        refine .update _ (.describe ?_)
        intro hoff
        have hresp := hok.role _ rfl
        replace hoff : (n.states.get q).role = .offerer := hoff
        replace hresp : (n.states.get q).role = .responder := hresp
        rw [hresp] at hoff
        cases hoff
      refine (hw.trans hd).trans (.await _ rfl ⟨hok.ref, ?_⟩)
      rintro p ⟨⟩
      exact (hd.states q).role.trans (hok.role _ rfl)
    · exact hw
  | answerSet q =>
    have hnot : n.serves q = false := by
      rw [← Bool.not_eq_true]
      intro hs
      exact (hsends q hs).2 rfl
    show Steady C n ((n.without (.answerSet q)).afterAnswerSet q)
    unfold afterAnswerSet
    rw [show (n.without (.answerSet q)).serves q = n.serves q from rfl, hnot, if_neg (by simp)]
    exact .without ht (by rintro q' ⟨⟩)
  | answerTaken q =>
    have hw : Steady C n (n.without (.answerTaken q)) := .without ht (by rintro q' ⟨⟩)
    show Steady C n ((n.without (.answerTaken q)).afterAnswerTaken q)
    unfold afterAnswerTaken
    split
    · exact hw.trans (.update _ (.flush _))
    · exact hw

end Handlers

/-- A node that has taken a new negotiation is as it should be. -/
theorem Ok.entered {k : MeshId} {own other : Text} {m' : Nat} {n n' : MeshManager} {p : PeerRole}
    {b : Nat} (h : n.Ok k own other m') (he : Entered k p a b n n') (hsound : n'.Keyed)
    (hb : b ≤ 1) (hoff : p = .offerer → Minted own n'.attemptSeq a)
    (hans : p = .responder → Minted other m' a) : n'.Ok k own other m' where
  onCourse := hsound
  incRun := he.incRun.trans h.incRun
  only := by
    intro k' r hr
    by_cases hk : k' = k
    · exact hk
    · rw [he.only k' hk] at hr
      exact h.only k' r hr
  states := by
    intro r hr
    rw [he.next] at hr
    rcases Nat.lt_succ_iff_lt_or_eq.mp hr with hlt | rfl
    · have hok := h.states r hlt
      have hsame := he.old r hlt
      refine ⟨hsame.peerId.trans hok.peerId, ?_, ?_, ?_⟩
      · intro ht
        rw [hsame.role]
        exact (hsame.timer ht).elim hok.timer id
      · rw [hsame.role, hsame.attempt]
        exact fun hrole => (hok.offers hrole).mono he.attemptSeq
      · rw [hsame.role, hsame.attempt]
        exact hok.answers
    · refine ⟨he.peerId, ?_, ?_, ?_⟩
      · rw [he.role]
        exact he.timer
      · rw [he.role, he.attempt]
        exact hoff
      · rw [he.role, he.attempt]
        exact hans
  tasks := he.tasks h.tasks
  held := by
    intro r
    by_cases hr : r = n.states.next
    · rw [hr, he.heldBack h.tasks]
      exact hb
    · exact (he.heldBack_le r hr).trans (h.held r)

/-- A node that gives its negotiation up is as it should be. -/
theorem Ok.retire {k : MeshId} {own other : Text} {m' : Nat} {n : MeshManager}
    (h : n.Ok k own other m') : (n.retire k).Ok k own other m' := by
  unfold MeshManager.retire
  cases hr : n.peers.get k with
  | none => exact h
  | some r =>
    have hs : Steady (fun _ => False) n (n.update r fun st => { st with retryTimer := false }) := by
      refine .update n (.of_eq rfl rfl rfl ?_ rfl)
      intro ht
      cases ht
    have hsound : (n.update r fun st => { st with retryTimer := false }).Keyed :=
      h.onCourse.update (.of_eq rfl rfl rfl)
    have hok := h.steady hs hsound
    refine ⟨hsound.delete k, hok.incRun, ?_, hok.states, ?_, hok.held⟩
    · intro k' q hq
      replace hq : (n.peers.delete k).get k' = some q := hq
      replace hq := of_get_delete hq
      exact h.only k' q hq
    · intro t ht
      exact ⟨(hok.tasks t ht).ref, (hok.tasks t ht).role⟩

end MeshManager

/-! ### The two nodes -/

/-- A frame as the other party hears it. -/
def Signal.message : Signal → Option (Crossing.Message (Option Attempt))
  | .offer a => some (.offer a)
  | .reject a => some (.reject a)
  | _ => none

/-- What a frame may name: an offer names an attempt of its sender, what answers one an attempt of
the node it comes to. -/
def Signal.Named (own : Text) (m : Nat) (other : Text) (m' : Nat) : Signal → Prop
  | .offer a => MeshManager.Minted other m' a
  | .answer a => MeshManager.Minted own m a
  | .reject a => MeshManager.Minted own m a
  | _ => True

theorem Signal.Named.mono {own other : Text} {m m₁ m' m₁' : Nat} (hm : m ≤ m₁) (hm' : m' ≤ m₁')
    {f : Signal} (h : f.Named own m other m') : f.Named own m₁ other m₁' := by
  cases f with
  | offer a => exact MeshManager.Minted.mono hm' h
  | answer a | reject a => exact MeshManager.Minted.mono hm h
  | ice a c | other => trivial

/-- The offers and the rejects among frames. -/
def messages (w : List Signal) : List (Crossing.Message (Option Attempt)) :=
  w.filterMap Signal.message

theorem mem_messages_offer {a : Option Attempt} {w : List Signal} :
    .offer a ∈ messages w ↔ .offer a ∈ w := by
  unfold messages
  rw [List.mem_filterMap]
  constructor
  · rintro ⟨f, hf, hm⟩
    cases f <;> cases hm
    exact hf
  · intro h
    exact ⟨_, h, rfl⟩

theorem mem_messages_reject {a : Option Attempt} {w : List Signal} :
    .reject a ∈ messages w ↔ .reject a ∈ w := by
  unfold messages
  rw [List.mem_filterMap]
  constructor
  · rintro ⟨f, hf, hm⟩
    cases f <;> cases hm
    exact hf
  · intro h
    exact ⟨_, h, rfl⟩

namespace Side

@[simp] theorem other_other (side : Side) : side.other.other = side := by
  cases side <;> rfl

theorem other_ne (side : Side) : side.other ≠ side := by
  cases side <;> rintro ⟨⟩

theorem eq_or (side i : Side) : i = side ∨ i = side.other := by
  cases side <;> cases i <;> simp [other]

end Side

namespace Crossed

variable {D : Dialers} {s : Crossed}

theorem apart_at (D : Dialers) (side : Side) : D.incRun side ≠ D.incRun side.other := by
  cases side with
  | left => exact D.apart
  | right => exact D.apart.symm

def slot (D : Dialers) (s : Crossed) (side : Side) : Crossing.Slot (Option Attempt) :=
  (s.nodes side).slot (D.key side)

/-- What has come of an offer that was answered: the answer is on its way, or in. -/
def Heard (s : Crossed) (side : Side) (r : Ref) : Prop :=
  ((s.nodes side).states.get r).negotiated = true
    ∨ .answer ((s.nodes side).states.get r).attempt ∈ s.wire side

/-- **What the condition keeps.** Each node is as it should be, the frames name what they may, the
two ends are parties of a crossing, and an answer that is heard is the other's to what is
offered. -/
structure OnCourse (D : Dialers) (s : Crossed) : Prop where
  ok : ∀ side, (s.nodes side).Ok (D.key side) (D.incRun side) (D.incRun side.other)
    (s.nodes side.other).attemptSeq
  sent : ∀ side, (s.nodes side).sent = []
  named : ∀ side, ∀ f ∈ s.wire side, f.Named (D.incRun side) (s.nodes side).attemptSeq
    (D.incRun side.other) (s.nodes side.other).attemptSeq
  crossing : ∀ side, Crossing.BothAt (s.slot D side) (s.slot D side.other)
    (messages (s.wire side)) (messages (s.wire side.other))
  heard : ∀ side r, (s.nodes side).peers.get (D.key side) = some r →
    ((s.nodes side).states.get r).role = .offerer → s.Heard side r →
    s.slot D side.other = .answering ((s.nodes side).states.get r).attempt

theorem onCourse_init (D : Dialers) : (init D).OnCourse D where
  ok := by
    intro side
    refine ⟨.init _ _, rfl, ?_, ?_, ?_, ?_⟩
    · intro k r h
      cases h
    · intro r h
      cases h
    · intro t h
      cases h
    · intro r
      exact Nat.zero_le _
  sent := fun _ => rfl
  named := by
    intro side f h
    cases h
  crossing := fun _ => Crossing.bothAt_init
  heard := by
    intro side r h
    cases h

/-- Somebody is about something. -/
def Busy (D : Dialers) (s : Crossed) : Prop := ∃ side, s.slot D side ≠ .idle

/-- What a step leads to that meets the condition. -/
structure Leads (D : Dialers) (s s' : Crossed) : Prop where
  onCourse : s'.OnCourse D
  busy : s.Busy D → s'.Busy D

variable {side : Side}

theorem Busy.at (h : s.Busy D) : s.slot D side ≠ .idle ∨ s.slot D side.other ≠ .idle := by
  obtain ⟨i, hi⟩ := h
  rcases side.eq_or i with rfl | rfl
  · exact .inl hi
  · exact .inr hi

section Post

variable (D) (s) (side : Side) (rest : List Signal) (n : MeshManager)

theorem nodes_post_self : (s.post D side rest n).nodes side = { n with sent := [] } :=
  Function.update_self ..

theorem nodes_post_other : (s.post D side rest n).nodes side.other = s.nodes side.other :=
  Function.update_of_ne side.other_ne ..

theorem wire_post_self : (s.post D side rest n).wire side = rest := by
  show Function.update (Function.update s.wire side rest) side.other _ side = rest
  rw [Function.update_of_ne side.other_ne.symm, Function.update_self]

theorem wire_post_other : (s.post D side rest n).wire side.other =
    s.wire side.other ++ (n.sent.filter fun p => p.1 = D.key side).map Prod.snd :=
  Function.update_self ..

end Post

variable {n : MeshManager}

/-- What was sent says nothing of how a node is. -/
theorem ok_sent {k : MeshId} {own other : Text} {m' : Nat} (h : n.Ok k own other m') :
    ({ n with sent := [] } : MeshManager).Ok k own other m' :=
  { h with
    onCourse := h.onCourse.congr rfl rfl
    tasks := fun t ht => ⟨(h.tasks t ht).ref, (h.tasks t ht).role⟩ }

variable {rest : List Signal}

/-- **One node acts.** What is to be shown of its new state, and of the other end that has not
changed. -/
theorem OnCourse.post (h : s.OnCourse D) (side : Side) (out : List Signal)
    (hok : n.Ok (D.key side) (D.incRun side) (D.incRun side.other)
      (s.nodes side.other).attemptSeq) (hseq : (s.nodes side).attemptSeq ≤ n.attemptSeq)
    (hrest : ∀ f ∈ rest, f ∈ s.wire side)
    (hout : (n.sent.filter fun p => p.1 = D.key side).map Prod.snd = out)
    (hnamed : ∀ f ∈ out, f.Named (D.incRun side.other) (s.nodes side.other).attemptSeq
      (D.incRun side) n.attemptSeq)
    (hcross : Crossing.BothAt (n.slot (D.key side)) (s.slot D side.other) (messages rest)
      (messages (s.wire side.other ++ out)))
    (hmine : ∀ r, n.peers.get (D.key side) = some r → (n.states.get r).role = .offerer →
      ((n.states.get r).negotiated = true ∨ .answer (n.states.get r).attempt ∈ rest) →
      s.slot D side.other = .answering (n.states.get r).attempt)
    (htheirs : ∀ a b, s.slot D side.other = .offering a b →
      (s.slot D side = .answering a ∨ .answer a ∈ out) → n.slot (D.key side) = .answering a)
    (hbusy : s.Busy D → n.slot (D.key side) ≠ .idle ∨ s.slot D side.other ≠ .idle) :
    s.Leads D (s.post D side rest n) := by
  subst hout
  have hself := nodes_post_self D s side rest n
  have hother := nodes_post_other D s side rest n
  have hwself := wire_post_self D s side rest n
  have hwother := wire_post_other D s side rest n
  have hslot : (s.post D side rest n).slot D side = n.slot (D.key side) := by
    unfold slot
    rw [hself]
    rfl
  have hslot' : (s.post D side rest n).slot D side.other = s.slot D side.other := by
    unfold slot
    rw [hother]
  have hnameds := h.named side
  have hnamedo := h.named side.other
  have hcr : Crossing.BothAt ((s.post D side rest n).slot D side)
      ((s.post D side rest n).slot D side.other) (messages ((s.post D side rest n).wire side))
      (messages ((s.post D side rest n).wire side.other)) := by
    rw [hslot, hslot', hwself, hwother]
    exact hcross
  refine ⟨⟨?_, ?_, ?_, ?_, ?_⟩, ?_⟩
  · intro i
    rcases side.eq_or i with rfl | rfl
    · rw [hself, hother]
      exact ok_sent hok
    · rw [hother, Side.other_other, hself]
      have hoko := h.ok side.other
      rw [Side.other_other] at hoko
      exact hoko.mono hseq
  · intro i
    rcases side.eq_or i with rfl | rfl
    · rw [hself]
    · rw [hother]
      exact h.sent side.other
  · intro i
    rcases side.eq_or i with rfl | rfl
    · rw [hwself, hself, hother]
      intro f hf
      exact (hnameds f (hrest f hf)).mono hseq le_rfl
    · rw [hwother, hother, Side.other_other, hself]
      rw [Side.other_other] at hnamedo
      intro f hf
      rcases List.mem_append.mp hf with hold | hnew
      · exact (hnamedo f hold).mono le_rfl hseq
      · exact hnamed f hnew
  · intro i
    rcases side.eq_or i with rfl | rfl
    · exact hcr
    · rw [Side.other_other]
      exact hcr.swap
  · intro i
    rcases side.eq_or i with rfl | rfl
    · unfold Heard
      rw [hslot', hself, hwself]
      exact hmine
    unfold Heard
    rw [Side.other_other, hslot, hother, hwother]
    intro r hr hrole hheard
    have hold := h.heard side.other r hr hrole
    rw [Side.other_other] at hold
    refine htheirs _ _ (MeshManager.slot_offerer hr hrole) ?_
    rcases hheard with hneg | hans
    · exact .inl (hold (.inl hneg))
    rcases List.mem_append.mp hans with hwas | hnew
    · exact .inl (hold (.inr hwas))
    · exact .inr hnew
  · intro hold
    rcases hbusy hold with hne | hne
    · exact ⟨side, hslot ▸ hne⟩
    · exact ⟨side.other, hslot' ▸ hne⟩

theorem messages_append (v w : List Signal) : messages (v ++ w) = messages v ++ messages w :=
  List.filterMap_append

section

variable (h : s.OnCourse D) (side : Side)
include h

/-- **A node goes on about the same**, and may send what is neither an offer nor a reject. -/
theorem OnCourse.goesOn (out : List Signal) {C : Ref → Prop}
    {n' : MeshManager} (hs : MeshManager.Steady C (s.nodes side) n)
    (hn : n' = { n with sent := n.sent ++ out.map fun f => (D.key side, f) }) (hsound : n.Keyed)
    (hrest : ∀ f ∈ rest, f ∈ s.wire side) (hmsg : messages out = [])
    (hnamed : ∀ f ∈ out, f.Named (D.incRun side.other) (s.nodes side.other).attemptSeq
      (D.incRun side) (s.nodes side).attemptSeq)
    (hcross : Crossing.BothAt (s.slot D side) (s.slot D side.other) (messages rest)
      (messages (s.wire side.other)))
    (hC : ∀ r, (s.nodes side).peers.get (D.key side) = some r → C r →
      .answer ((s.nodes side).states.get r).attempt ∈ s.wire side)
    (hans : ∀ a, .answer a ∈ out → s.slot D side = .answering a) :
    s.Leads D (s.post D side rest n') := by
  have hok := h.ok side
  have hok' := hok.steady hs hsound
  have hslot : n'.slot (D.key side) = s.slot D side := by
    subst hn
    show n.slot (D.key side) = _
    exact hok.slot_steady hs
  have hsent : n.sent = [] := hs.sent.trans (h.sent side)
  refine h.post side out ?_ ?_ hrest ?_ ?_ ?_ ?_ ?_ (fun hold => hslot ▸ hold.at)
  · subst hn
    exact ⟨hok'.onCourse.congr rfl rfl, hok'.incRun, hok'.only, hok'.states,
      fun t ht => ⟨(hok'.tasks t ht).ref, (hok'.tasks t ht).role⟩, hok'.held⟩
  · subst hn
    exact hs.attemptSeq.ge
  · subst hn
    rw [hsent, List.nil_append, List.filter_eq_self.mpr, List.map_map]
    · exact List.map_id _
    · intro p hp
      obtain ⟨f, -, rfl⟩ := List.mem_map.mp hp
      exact decide_eq_true rfl
  · intro f hf
    subst hn
    have hseq : n.attemptSeq = (s.nodes side).attemptSeq := hs.attemptSeq
    rw [hseq]
    exact hnamed f hf
  · rw [hslot, messages_append, hmsg, List.append_nil]
    exact hcross
  · subst hn
    intro r hr hrole hheard
    replace hr : n.peers.get (D.key side) = some r := hr
    replace hrole : (n.states.get r).role = .offerer := hrole
    rw [hs.peers] at hr
    have hsame := hs.states r
    rw [hsame.role] at hrole
    rw [hsame.attempt]
    refine h.heard side r hr hrole ?_
    rcases hheard with hneg | hin
    · rcases hsame.negotiated hrole hneg with hneg' | hc
      · exact .inl hneg'
      · exact .inr (hC r hr hc)
    · replace hin : .answer (n.states.get r).attempt ∈ rest := hin
      rw [hsame.attempt] at hin
      exact .inr (hrest _ hin)
  · intro a b _ hor
    rw [hslot]
    exact hor.elim id (hans a)

/-- The same, where nothing is sent. -/
theorem OnCourse.steady {C : Ref → Prop}
    (hs : MeshManager.Steady C (s.nodes side) n) (hsound : n.Keyed)
    (hrest : ∀ f ∈ rest, f ∈ s.wire side)
    (hcross : Crossing.BothAt (s.slot D side) (s.slot D side.other) (messages rest)
      (messages (s.wire side.other)))
    (hC : ∀ r, (s.nodes side).peers.get (D.key side) = some r → C r →
      .answer ((s.nodes side).states.get r).attempt ∈ s.wire side) :
    s.Leads D (s.post D side rest n) := by
  refine h.goesOn side [] hs ?_ hsound hrest rfl ?_ hcross hC ?_
  · rw [List.map_nil, List.append_nil]
  · intro f hf
    cases hf
  · intro a ha
    cases ha

/-- Nothing comes in and nothing is sent. -/
theorem OnCourse.rests (hs : MeshManager.Steady (fun _ => False) (s.nodes side) n) (hsound : n.Keyed) :
    s.Leads D (s.post D side (s.wire side) n) :=
  h.steady side hs hsound (fun _ => id) (h.crossing side) fun _ _ => False.elim

end

variable {a : Option Attempt}

/-- **A new negotiation takes the place of what there was.** -/
theorem OnCourse.entered (h : s.OnCourse D) (side : Side) {p : PeerRole} {b : Nat}
    (he : MeshManager.Entered (D.key side) p a b (s.nodes side) n) (hsound : n.Keyed) (hb : b ≤ 1)
    (hrest : ∀ f ∈ rest, f ∈ s.wire side)
    (hoff : p = .offerer → MeshManager.Minted (D.incRun side) n.attemptSeq a)
    (hans : p = .responder → MeshManager.Minted (D.incRun side.other)
      (s.nodes side.other).attemptSeq a)
    (hcross : Crossing.BothAt (n.slot (D.key side)) (s.slot D side.other) (messages rest)
      (messages (s.wire side.other))) (hnew : p = .offerer → .answer a ∉ rest)
    (hkeep : ∀ c d, s.slot D side.other = .offering c d → s.slot D side ≠ .answering c) :
    s.Leads D (s.post D side rest n) := by
  have hok := h.ok side
  have hbusy := MeshManager.slot_ne_idle he.current
  refine h.post side [] (hok.entered he hsound hb hoff hans) he.attemptSeq hrest ?_ ?_ ?_
    ?_ ?_ fun _ => .inl hbusy
  · rw [he.sent, h.sent side]
    rfl
  · intro f hf
    cases hf
  · rw [List.append_nil]
    exact hcross
  · intro r hr hrole hheard
    rw [he.current, Option.some.injEq] at hr
    subst hr
    have hp : p = .offerer := he.role.symm.trans hrole
    exfalso
    rcases hheard with hneg | hin
    · rw [he.negotiated hp] at hneg
      cases hneg
    · rw [he.attempt] at hin
      exact hnew hp hin
  · intro c d hc hor
    rcases hor with hwas | hin
    · exact absurd hwas (hkeep c d hc)
    · cases hin

/-! ### What comes in -/

theorem held_of_get {r : Ref} (h : (s.nodes side).peers.get (D.key side) = some r) :
    s.held D side = some ((s.nodes side).states.get r) := by
  unfold held MeshManager.peer
  rw [h]
  rfl

theorem answers_of_slot (h : s.slot D side = .answering a) : s.Answers D side := by
  obtain ⟨r, hr, hrole, -⟩ := MeshManager.of_slot_answering h
  exact ⟨_, held_of_get hr, hrole⟩

theorem slot_of_answers (h : s.Answers D side) : ∃ a, s.slot D side = .answering a := by
  obtain ⟨st, hst, hrole⟩ := h
  unfold held MeshManager.peer at hst
  rw [Option.mem_def, Option.map_eq_some_iff] at hst
  obtain ⟨r, hr, rfl⟩ := hst
  exact ⟨_, MeshManager.slot_responder hr hrole⟩

theorem slot_of_offerer {st : Negotiation} (h : s.held D side = some st)
    (hrole : st.role = .offerer) :
    ∃ r, (s.nodes side).peers.get (D.key side) = some r ∧ (s.nodes side).states.get r = st
      ∧ ∃ b, s.slot D side = .offering st.attempt b := by
  unfold held MeshManager.peer at h
  rw [Option.map_eq_some_iff] at h
  obtain ⟨r, hr, rfl⟩ := h
  exact ⟨r, hr, rfl, _, MeshManager.slot_offerer hr hrole⟩

/-- What is offered of late is not what an end answers. -/
theorem OnCourse.not_answering (h : s.OnCourse D) (hw : s.wire side = .offer a :: rest)
    {c : Option Attempt} {d : Bool} (hc : s.slot D side.other = .offering c d) :
    s.slot D side ≠ .answering c := by
  have hcross := h.crossing side
  rw [hw] at hcross
  intro hans
  cases d with
  | false => exact (hcross.theirs.unsent c hc).2.2 hans
  | true =>
    have hnot := (hcross.mine.answering c hans).1
    rcases hcross.theirs.sent c hc with hlast | ⟨hnil, -⟩
    · exact hnot (List.mem_of_getLast? hlast)
    · cases hnil

/-- An offer that comes in is of another attempt than what the key holds. -/
theorem OnCourse.offer_new (h : s.OnCourse D) (hw : s.wire side = .offer a :: rest) {r : Ref}
    (hr : (s.nodes side).peers.get (D.key side) = some r) :
    ((s.nodes side).states.get r).attempt ≠ a := by
  have hnamed : MeshManager.Minted _ _ a := h.named side (.offer a) (hw ▸ List.mem_cons_self)
  have hok := (h.ok side).current hr
  cases hrole : ((s.nodes side).states.get r).role with
  | offerer => exact (hok.offers hrole).ne (apart_at D side) hnamed
  | responder =>
    have hcross := h.crossing side
    rw [hw] at hcross
    have hnot := (hcross.mine.answering _ (MeshManager.slot_responder hr hrole)).1
    rintro rfl
    exact hnot List.mem_cons_self

variable {room : Bool}

section

variable (h : s.OnCourse D)
include h

theorem OnCourse.takes_offer (requireFor : MeshId → Bool)
    (hw : s.wire side = .offer a :: rest) {now : Int}
    (ht : Taken ((s.nodes side).offerVerdict requireFor (D.key side) a room now))
    (hone : ∀ st, s.held D side = some st → st.role = .offerer → ¬ s.Answers D side.other)
    (takes : Bool) : s.Leads D (s.post D side rest
      ((s.nodes side).onOffer requireFor (D.key side) a room takes now)) := by
  have hnamed : MeshManager.Minted _ _ a := h.named side (.offer a) (hw ▸ List.mem_cons_self)
  have hnew := fun r hr => h.offer_new hw (r := r) hr
  have hminted := hnamed
  obtain ⟨q, -, rfl⟩ := hnamed
  have he := MeshManager.entered_onOffer hnew ht takes
  have hcross := h.crossing side
  rw [hw] at hcross
  refine h.entered side he ((h.ok side).onCourse.onOffer requireFor _ _ _ _ _) (Nat.zero_le _) ?_ ?_ ?_
    ?_ ?_ ?_
  · intro f hf
    rw [hw]
    exact List.mem_cons_of_mem _ hf
  · intro hp
    cases hp
  · exact fun _ => hminted
  · rw [MeshManager.slot_responder he.current he.role, he.attempt]
    refine hcross.accept ?_
    intro b c hb d hd
    obtain ⟨r, hr, hrole, -, -⟩ := MeshManager.of_slot_offering hb
    exact hone _ (held_of_get hr) hrole (answers_of_slot hd)
  · intro hp
    cases hp
  · intro c d hc
    exact h.not_answering hw hc

theorem OnCourse.refuses_offer (hw : s.wire side = .offer a :: rest)
    {st : Negotiation} (hst : s.held D side = some st) (hrole : st.role = .offerer)
    (hrej : .reject st.attempt ∉ rest) :
    s.Leads D (s.post D side rest ((s.nodes side).sendSignal (D.key side) (.reject a))) := by
  have hnamed : MeshManager.Minted _ _ a := h.named side (.offer a) (hw ▸ List.mem_cons_self)
  obtain ⟨r, hr, rfl, b, hslot⟩ := slot_of_offerer hst hrole
  have hok := h.ok side
  have hcross := h.crossing side
  rw [hw, hslot] at hcross
  have hrest : ∀ f ∈ rest, f ∈ s.wire side := by
    intro f hf
    rw [hw]
    exact List.mem_cons_of_mem _ hf
  have hsame : ((s.nodes side).sendSignal (D.key side) (.reject a)).slot (D.key side)
      = s.slot D side := rfl
  refine h.post side [.reject a] ?_ le_rfl hrest ?_ ?_ ?_ ?_ ?_ (fun hold => hsame ▸ hold.at)
  · exact ⟨hok.onCourse.sendSignal _ _, hok.incRun, hok.only, hok.states,
      fun t ht => ⟨(hok.tasks t ht).ref, (hok.tasks t ht).role⟩, hok.held⟩
  · show (((s.nodes side).sent ++ [(D.key side, Signal.reject a)]).filter _).map _ = _
    rw [h.sent side]
    simp
  · intro f hf
    rw [List.mem_singleton.mp hf]
    exact hnamed
  · rw [hsame, hslot, messages_append]
    exact hcross.refuse fun hmem => hrej (mem_messages_reject.mp hmem)
  · intro q hq hqrole hheard
    exact h.heard side q hq hqrole (hheard.imp_right (hrest _))
  · intro c d _ hor
    rw [hsame]
    refine hor.elim id ?_
    intro hin
    cases List.mem_singleton.mp hin

theorem OnCourse.on_offer (requireFor : MeshId → Bool)
    (hw : s.wire side = .offer a :: rest) {takes : Bool} {now : Int}
    (hset : s.Settles D requireFor (.deliver side room takes now)) : s.Leads D (s.post D side rest
      ((s.nodes side).onOffer requireFor (D.key side) a room takes now)) := by
  obtain ⟨htaken, hnot⟩ := hset (a, rest) (by rw [hw]; rfl)
  by_cases ht : Taken ((s.nodes side).offerVerdict requireFor (D.key side) a room now)
  · exact h.takes_offer requireFor hw ht (htaken ht) takes
  obtain ⟨st, hst, hrole, hrej, hign⟩ := hnot ht
  have hnamed : MeshManager.Minted _ _ a := h.named side (.offer a) (hw ▸ List.mem_cons_self)
  obtain ⟨q, -, rfl⟩ := hnamed
  rw [MeshManager.onOffer_not_taken ht]
  by_cases hv : (s.nodes side).offerVerdict requireFor (D.key side)
      (some ⟨D.incRun side.other, q⟩) room now = .ignored
  · rw [if_pos hv]
    obtain ⟨d, hd⟩ := slot_of_answers (hign hv)
    obtain ⟨r, -, -, b, hslot⟩ := slot_of_offerer hst hrole
    have hcross := h.crossing side
    rw [hw, hslot, hd] at hcross
    refine h.steady side (C := fun _ => False) (.refl _) (h.ok side).onCourse ?_ ?_ ?_
    · intro f hf
      rw [hw]
      exact List.mem_cons_of_mem _ hf
    · rw [hslot, hd]
      exact hcross.ignore
    · intro r _ hf
      exact hf.elim
  · rw [if_neg hv]
    exact h.refuses_offer hw hst hrole hrej

theorem OnCourse.on_answer (requireFor : MeshId → Bool)
    (hw : s.wire side = .answer a :: rest) (takes : Bool) :
    s.Leads D (s.post D side rest ((s.nodes side).onAnswer requireFor (D.key side) a takes)) := by
  have hnamed : MeshManager.Minted _ _ a := h.named side (.answer a) (hw ▸ List.mem_cons_self)
  obtain ⟨q, -, rfl⟩ := hnamed
  have hok := h.ok side
  have hcross := h.crossing side
  rw [hw] at hcross
  refine h.steady side (hok.steady_onAnswer requireFor _ takes)
    (hok.onCourse.onAnswer requireFor _ _ _) ?_ hcross ?_
  · intro f hf
    rw [hw]
    exact List.mem_cons_of_mem _ hf
  · rintro r - ⟨-, ha⟩
    rw [ha, hw]
    exact List.mem_cons_self

/-- A reject ends the offer it names. It cannot name one that has opened: that was answered. -/
theorem OnCourse.on_reject (hw : s.wire side = .reject a :: rest) :
    s.Leads D (s.post D side rest ((s.nodes side).onReject (D.key side) a)) := by
  have hnamed : MeshManager.Minted _ _ a := h.named side (.reject a) (hw ▸ List.mem_cons_self)
  have hok := h.ok side
  have hcross := h.crossing side
  rw [hw] at hcross
  have hrest : ∀ f ∈ rest, f ∈ s.wire side := by
    intro f hf
    rw [hw]
    exact List.mem_cons_of_mem _ hf
  by_cases hoff : ∃ b, s.slot D side = .offering a b
  · obtain ⟨b, hslot⟩ := hoff
    rw [hslot] at hcross
    obtain ⟨r, hr, hrole, hat, -⟩ := MeshManager.of_slot_offering hslot
    have hclosed : ((s.nodes side).states.get r).opened = false := by
      rw [← Bool.not_eq_true]
      intro hopen
      have hans := h.heard side r hr hrole (.inl (hok.onCourse.states r hopen))
      obtain ⟨-, c, d, hc, -⟩ := hcross.mine.refused a b rfl List.mem_cons_self
      rw [hans] at hc
      cases hc
    have hpeer : (s.nodes side).peer (D.key side) = some ((s.nodes side).states.get r) := by
      unfold MeshManager.peer
      rw [hr]
      rfl
    have hret : (s.nodes side).onReject (D.key side) a = (s.nodes side).retire (D.key side) := by
      unfold MeshManager.onReject
      rw [hpeer]
      obtain ⟨q, -, rfl⟩ := hnamed
      simp [hrole, hclosed, hat]
    have hnone := MeshManager.get_retire_self (s.nodes side) (D.key side)
    rw [hret]
    have hseq : ((s.nodes side).retire (D.key side)).attemptSeq = (s.nodes side).attemptSeq := by
      unfold MeshManager.retire
      rw [hr]
      rfl
    have hsent : ((s.nodes side).retire (D.key side)).sent = (s.nodes side).sent := by
      unfold MeshManager.retire
      rw [hr]
      rfl
    refine h.post side [] hok.retire hseq.ge hrest ?_ ?_ ?_ ?_ ?_ fun _ => .inr hcross.rejected.2
    · rw [hsent, h.sent side]
      rfl
    · intro f hf
      cases hf
    · rw [MeshManager.slot_none hnone, List.append_nil]
      exact hcross.rejected.1
    · intro q hq
      rw [hnone] at hq
      cases hq
    · intro c d hc hor
      rcases hor with hans | hin
      · rw [hslot] at hans
        cases hans
      · cases hin
  · have hsame : (s.nodes side).onReject (D.key side) a = s.nodes side := by
      unfold MeshManager.onReject
      split
      · rfl
      next st hst =>
      rw [if_pos]
      by_contra hcheck
      simp at hcheck
      obtain ⟨r, -, -, b, hslot⟩ := slot_of_offerer (D := D) hst hcheck.1.1.1
      exact hoff ⟨b, hcheck.2 ▸ hslot⟩
    rw [hsame]
    refine h.steady side (C := fun _ => False) (.refl _) hok.onCourse hrest ?_ fun r _ => False.elim
    exact hcross.stale fun b hb => hoff ⟨b, hb⟩

theorem OnCourse.deliver (requireFor : MeshId → Bool) {takes : Bool} {now : Int}
    (hset : s.Settles D requireFor (.deliver side room takes now)) :
    s.Leads D (s.step D requireFor (.deliver side room takes now)) := by
  unfold step
  simp only []
  cases hw : s.wire side with
  | nil => exact ⟨h, id⟩
  | cons f rest =>
    have hcross := h.crossing side
    rw [hw] at hcross
    have hrest : ∀ g ∈ rest, g ∈ s.wire side := by
      intro g hg
      rw [hw]
      exact List.mem_cons_of_mem _ hg
    cases f with
    | offer a => exact h.on_offer requireFor hw hset
    | answer a => exact h.on_answer requireFor hw takes
    | reject a => exact h.on_reject hw
    | ice a candidate =>
      exact h.steady side (C := fun _ => False) (MeshManager.steady_onIce requireFor a candidate)
        ((h.ok side).onCourse.onIce requireFor _ _ _) hrest hcross fun r _ => False.elim
    | other =>
      exact h.steady side (C := fun _ => False) (.refl _) (h.ok side).onCourse hrest hcross
        fun r _ => False.elim

end

/-! ### What a node does for itself -/

section

variable (h : s.OnCourse D)
include h

/-- A dial, or another try: a new offer is under way to be made. -/
theorem OnCourse.begins (side : Side) {n₀ : MeshManager}
    (hs : MeshManager.Steady (fun _ => False) (s.nodes side) n₀) (hsound : n.Keyed)
    (hn : n = n₀.initiateTo (D.key side) true
      ∨ n = (n₀.retire (D.key side)).initiateTo (D.key side) true)
    (hfree : ∀ c, s.slot D side ≠ .answering c) : s.Leads D (s.post D side (s.wire side) n) := by
  have hok := h.ok side
  have hrun : n₀.incRun = D.incRun side := hs.incRun.trans hok.incRun
  have hseq : n₀.attemptSeq = (s.nodes side).attemptSeq := hs.attemptSeq
  have hentered : MeshManager.Entered (D.key side) .offerer
      (some ⟨D.incRun side, (s.nodes side).attemptSeq + 1⟩) 1 (s.nodes side) n
      ∧ n.attemptSeq = (s.nodes side).attemptSeq + 1 := by
    rcases hn with rfl | rfl
    · have hone := MeshManager.Entered.initiateTo n₀ (D.key side)
      rw [hrun, hseq] at hone
      exact ⟨hone.1.of_steady hs, hone.2⟩
    have hone := MeshManager.Entered.initiateTo (n₀.retire (D.key side)) (D.key side)
    have htables : (n₀.retire (D.key side)).incRun = n₀.incRun
        ∧ (n₀.retire (D.key side)).attemptSeq = n₀.attemptSeq := by
      unfold MeshManager.retire
      split
      · exact ⟨rfl, rfl⟩
      · exact ⟨rfl, rfl⟩
    rw [htables.1, htables.2, hrun, hseq] at hone
    exact ⟨hone.1.of_retire.of_steady hs, hone.2⟩
  obtain ⟨he, hnext⟩ := hentered
  have hnamed := h.named side
  have hnamedo := h.named side.other
  rw [Side.other_other] at hnamedo
  refine h.entered side he hsound le_rfl (fun _ => id) ?_ ?_ ?_ ?_ ?_
  · intro _
    exact ⟨_, hnext.ge, rfl⟩
  · intro hp
    cases hp
  · rw [MeshManager.slot_offerer he.current he.role, he.attempt, he.heldBack hok.tasks]
    refine (h.crossing side).offer hfree ?_ ?_ ?_
    · rw [mem_messages_offer]
      intro hmem
      have hm : MeshManager.Minted _ _ _ := hnamedo _ hmem
      exact hm.ne_next rfl
    · rw [mem_messages_reject]
      intro hmem
      have hm : MeshManager.Minted _ _ _ := hnamed _ hmem
      exact hm.ne_next rfl
    · intro hans
      obtain ⟨r, hr, hrole, hat⟩ := MeshManager.of_slot_answering hans
      have hm := ((h.ok side.other).current hr).answers hrole
      rw [Side.other_other, hat] at hm
      exact hm.ne_next rfl
  · intro _ hmem
    have hm : MeshManager.Minted _ _ _ := hnamed _ hmem
    exact hm.ne_next rfl
  · intro c d _
    exact hfree c

theorem OnCourse.dial (requireFor : MeshId → Bool)
    (hset : s.Settles D requireFor (.dial side room)) :
    s.Leads D (s.step D requireFor (.dial side room)) := by
  show s.Leads D (s.post D side (s.wire side) ((s.nodes side).dial (D.key side) room))
  unfold MeshManager.dial
  by_cases hhas : (s.nodes side).peers.has (D.key side) = true
  · rw [if_pos hhas]
    exact h.rests side (.refl _) (h.ok side).onCourse
  rw [if_neg hhas]
  have hroom : room = true := hset (Bool.not_eq_true _ ▸ hhas)
  subst hroom
  refine h.begins side (.refl _) ((h.ok side).onCourse.initiateTo _ _) (.inl rfl) ?_
  intro c hc
  obtain ⟨r, hr, -, -⟩ := MeshManager.of_slot_answering hc
  refine hhas ?_
  rw [OrderedMap.has, hr]
  rfl

theorem OnCourse.retry (requireFor : MeshId → Bool) {r : Ref}
    (hset : s.Settles D requireFor (.retry side r room)) :
    s.Leads D (s.step D requireFor (.retry side r room)) := by
  have hok := h.ok side
  have hsound := hok.onCourse.retry r room
  show s.Leads D (s.post D side (s.wire side) ((s.nodes side).retry r room))
  unfold MeshManager.retry at hsound ⊢
  simp only [] at hsound ⊢
  by_cases htimer : ((s.nodes side).states.get r).retryTimer = true
  · rw [if_pos htimer] at hsound ⊢
    have hs : MeshManager.Steady (fun _ => False) (s.nodes side)
        ((s.nodes side).update r fun st => { st with retryTimer := false }) := by
      refine .update _ (.of_eq rfl rfl rfl ?_ rfl)
      intro ht
      cases ht
    have hpeers : ((s.nodes side).update r fun st => { st with retryTimer := false }).peers
        = (s.nodes side).peers := rfl
    rw [hpeers] at hsound ⊢
    by_cases hhas : (s.nodes side).peers.has ((s.nodes side).states.get r).peerId = true
    · rw [if_pos hhas] at hsound ⊢
      obtain ⟨hserves, hroom⟩ := hset htimer hhas
      have hr := hok.of_serves hserves
      have hid := (hok.current hr).peerId
      subst hroom
      rw [hid] at hsound ⊢
      refine h.begins side hs hsound (.inr rfl) ?_
      intro c hc
      obtain ⟨q, hq, hrole, -⟩ := MeshManager.of_slot_answering hc
      rw [hr, Option.some.injEq] at hq
      subst hq
      rw [(hok.current hr).timer htimer] at hrole
      cases hrole
    · rw [if_neg hhas] at hsound ⊢
      exact h.rests side hs hsound
  · rw [if_neg htimer] at hsound ⊢
    exact h.rests side (.refl _) hsound

/-- The offer goes out: it was held back by this task alone. -/
theorem OnCourse.sends_offer {r : Ref} (ht : .offerSet r ∈ (s.nodes side).tasks)
    (hserves : (s.nodes side).serves r = true) (takes overdue : Bool) : s.Leads D
      (s.post D side (s.wire side) ((s.nodes side).resume (.offerSet r) takes overdue)) := by
  have hok := h.ok side
  have hr := hok.of_serves hserves
  have hid := (hok.current hr).peerId
  have hone := hok.held r
  have hback := MeshManager.heldBack_without ht r
  simp only [NegTask.holds, if_true] at hback
  have hrole := (hok.tasks _ ht).role _ rfl
  replace hrole : ((s.nodes side).states.get r).role = .offerer := hrole
  have hresume : (s.nodes side).resume (.offerSet r) takes overdue
      = ((s.nodes side).without (.offerSet r)).sendSignal (D.key side)
        (.offer ((s.nodes side).states.get r).attempt) := by
    unfold MeshManager.resume
    rw [if_pos ht]
    show ((s.nodes side).without (.offerSet r)).afterOfferSet r = _
    unfold MeshManager.afterOfferSet
    rw [show ((s.nodes side).without (.offerSet r)).serves r = (s.nodes side).serves r from rfl,
      hserves, if_pos rfl, ← hid]
    rfl
  rw [hresume]
  have hslot : s.slot D side = .offering ((s.nodes side).states.get r).attempt false := by
    unfold slot
    rw [MeshManager.slot_offerer hr hrole, hback]
    rfl
  have hzero : ((s.nodes side).without (.offerSet r)).heldBack r = 0 := by omega
  have hslot' : (((s.nodes side).without (.offerSet r)).sendSignal (D.key side)
      (.offer ((s.nodes side).states.get r).attempt)).slot (D.key side)
      = .offering ((s.nodes side).states.get r).attempt true := by
    show ((s.nodes side).without (.offerSet r)).slot (D.key side) = _
    rw [MeshManager.slot_offerer (n := (s.nodes side).without (.offerSet r)) hr hrole, hzero]
    rfl
  have hcross := h.crossing side
  rw [hslot] at hcross
  refine h.post side [.offer ((s.nodes side).states.get r).attempt] ?_ le_rfl
    (fun _ => id) ?_ ?_ ?_ ?_ ?_ fun _ => .inl (MeshManager.slot_ne_idle hr)
  · refine ⟨hok.onCourse.congr rfl rfl, hok.incRun, hok.only, hok.states, ?_, ?_⟩
    · intro t hmem
      have hokt := hok.tasks t (List.mem_of_mem_erase hmem)
      exact ⟨hokt.ref, hokt.role⟩
    · intro q
      have hle := MeshManager.heldBack_without ht q
      exact (Nat.le.intro hle.symm).trans (hok.held q)
  · show (((s.nodes side).sent ++ [(D.key side, Signal.offer _)]).filter _).map _ = _
    rw [h.sent side]
    simp
  · intro f hf
    rw [List.mem_singleton.mp hf]
    exact (hok.current hr).offers hrole
  · rw [hslot', messages_append]
    exact hcross.send
  · intro q hq hqrole hheard
    exact h.heard side q hq hqrole hheard
  · intro c d _ hor
    rcases hor with hans | hin
    · rw [hslot] at hans
      cases hans
    · cases List.mem_singleton.mp hin

/-- The answer goes out, and names what the node answers. -/
theorem OnCourse.sends_answer {r : Ref} (ht : .answerSet r ∈ (s.nodes side).tasks)
    (hserves : (s.nodes side).serves r = true) (takes overdue : Bool) : s.Leads D
      (s.post D side (s.wire side) ((s.nodes side).resume (.answerSet r) takes overdue)) := by
  have hok := h.ok side
  have hr := hok.of_serves hserves
  have hid := (hok.current hr).peerId
  have hrole := (hok.tasks _ ht).role _ rfl
  replace hrole : ((s.nodes side).states.get r).role = .responder := hrole
  have hresume : (s.nodes side).resume (.answerSet r) takes overdue
      = ((s.nodes side).without (.answerSet r)).sendSignal (D.key side)
        (.answer ((s.nodes side).states.get r).attempt) := by
    unfold MeshManager.resume
    rw [if_pos ht]
    show ((s.nodes side).without (.answerSet r)).afterAnswerSet r = _
    unfold MeshManager.afterAnswerSet
    rw [show ((s.nodes side).without (.answerSet r)).serves r = (s.nodes side).serves r from rfl,
      hserves, if_pos rfl, ← hid]
    rfl
  have hs : MeshManager.Steady (fun _ => False) (s.nodes side)
      ((s.nodes side).without (.answerSet r)) := .without ht (by rintro q ⟨⟩)
  refine h.goesOn side [.answer ((s.nodes side).states.get r).attempt] hs hresume
    (hok.onCourse.congr rfl rfl) (fun _ => id) rfl ?_ (h.crossing side) (fun _ _ => False.elim) ?_
  · intro f hf
    rw [List.mem_singleton.mp hf]
    exact (hok.current hr).answers hrole
  · intro a ha
    cases List.mem_singleton.mp ha
    exact MeshManager.slot_responder hr hrole

theorem OnCourse.resume (requireFor : MeshId → Bool) {t : NegTask}
    {takes overdue : Bool} (hset : s.Settles D requireFor (.resume side t takes overdue)) :
    s.Leads D (s.step D requireFor (.resume side t takes overdue)) := by
  have hok := h.ok side
  show s.Leads D (s.post D side (s.wire side) ((s.nodes side).resume t takes overdue))
  by_cases ht : t ∈ (s.nodes side).tasks
  · by_cases hsends : ∃ q, (s.nodes side).serves q = true ∧ (t = .offerSet q ∨ t = .answerSet q)
    · obtain ⟨q, hserves, rfl | rfl⟩ := hsends
      · exact h.sends_offer ht hserves takes overdue
      · exact h.sends_answer ht hserves takes overdue
    · refine h.rests side (hok.steady_resume ht overdue ?_ ?_) (hok.onCourse.resume _ _ _)
      · rintro q rfl
        exact hset
      · intro q hq
        exact ⟨fun he => hsends ⟨q, hq, .inl he⟩, fun he => hsends ⟨q, hq, .inr he⟩⟩
  · unfold MeshManager.resume
    rw [if_neg ht]
    exact h.rests side (.refl _) hok.onCourse

theorem OnCourse.iceCandidate (side : Side) (r : Ref) (candidate : Text) :
    s.Leads D (s.post D side (s.wire side) ((s.nodes side).onIceCandidate r candidate)) := by
  have hok := h.ok side
  unfold MeshManager.onIceCandidate
  by_cases hserves : (s.nodes side).serves r = true
  · rw [if_pos hserves, (hok.current (hok.of_serves hserves)).peerId]
    refine h.goesOn side [.ice ((s.nodes side).states.get r).attempt candidate]
      (C := fun _ => False) (.refl _) rfl hok.onCourse (fun _ => id) rfl ?_ (h.crossing side)
        (fun _ _ => False.elim) ?_
    · intro f hf
      rw [List.mem_singleton.mp hf]
      trivial
    · intro a ha
      cases List.mem_singleton.mp ha
  · rw [if_neg hserves]
    exact h.rests side (.refl _) hok.onCourse

/-- **One step** that meets the condition keeps it all. -/
theorem OnCourse.step (requireFor : MeshId → Bool) {a : Act}
    (hset : s.Settles D requireFor a) : s.Leads D (s.step D requireFor a) := by
  cases a with
  | dial side room => exact h.dial requireFor hset
  | deliver side room takes now => exact h.deliver requireFor hset
  | resume side t takes overdue => exact h.resume requireFor hset
  | iceCandidate side r candidate => exact h.iceCandidate side r candidate
  | dataChannel side r =>
    exact h.rests side (.update _ (.of_eq rfl rfl rfl id rfl))
      ((h.ok side).onCourse.update (.of_eq rfl rfl rfl))
  | opened side r =>
    exact h.rests side (.update _ (.onOpen _)) ((h.ok side).onCourse.update (.onOpen _))
  | heartbeat side r silent =>
    exact h.rests side (MeshManager.steady_heartbeat silent) ((h.ok side).onCourse.heartbeat r silent)
  | connFailed side r overdue =>
    exact h.rests side (.update _ (.fail _ _)) ((h.ok side).onCourse.update (.fail _ _))
  | retry side r room => exact h.retry requireFor hset

end

/-- A dial that has room leaves the node about something. -/
theorem busy_dial (requireFor : MeshId → Bool) (hset : s.Settles D requireFor (.dial side room)) :
    (s.step D requireFor (.dial side room)).Busy D := by
  have hheld : ∃ r, ((s.nodes side).dial (D.key side) room).peers.get (D.key side) = some r := by
    unfold MeshManager.dial
    by_cases hhas : (s.nodes side).peers.has (D.key side) = true
    · rw [if_pos hhas]
      exact Option.isSome_iff_exists.mp hhas
    · rw [if_neg hhas]
      have hroom : room = true := hset (Bool.not_eq_true _ ▸ hhas)
      subst hroom
      exact ⟨_, (MeshManager.Entered.initiateTo _ _).1.current⟩
  obtain ⟨r, hr⟩ := hheld
  refine ⟨side, ?_⟩
  have hself := nodes_post_self D s side (s.wire side) ((s.nodes side).dial (D.key side) room)
  show ((s.post D side (s.wire side) _).nodes side).slot _ ≠ _
  rw [hself]
  exact MeshManager.slot_ne_idle (n := { (s.nodes side).dial (D.key side) room with sent := [] }) hr

/-- Of a node without tasks no offer is held back. -/
theorem slot_ne_unsent (h : (s.nodes side).tasks = []) (a : Option Attempt) :
    s.slot D side ≠ .offering a false := by
  intro hslot
  obtain ⟨r, -, -, -, hback⟩ := MeshManager.of_slot_offering hslot
  unfold MeshManager.heldBack at hback
  rw [h] at hback
  cases hback

theorem converged_of_slots (side : Side) (h : s.OnCourse D) (hoff : s.slot D side = .offering a true)
    (hans : s.slot D side.other = .answering a) : s.Converged D := by
  obtain ⟨r, hr, hrole, rfl, -⟩ := MeshManager.of_slot_offering hoff
  obtain ⟨r', hr', hrole', hat⟩ := MeshManager.of_slot_answering hans
  obtain ⟨q, -, hq⟩ := ((h.ok side).current hr).offers hrole
  exact ⟨side, _, _, _, held_of_get hr, held_of_get hr', hrole, hrole', hq, hat.trans hq⟩

/-- **Agreement**, once the wires are empty and no task waits. -/
theorem OnCourse.converged (h : s.OnCourse D) (hbusy : s.Busy D) (hquiet : s.Quiet) : s.Converged D := by
  have hcross := h.crossing .left
  rw [(hquiet .left).1, (hquiet Side.left.other).1] at hcross
  have hagree := hcross.agreed (slot_ne_unsent (hquiet .left).2)
    (slot_ne_unsent (hquiet Side.left.other).2) hbusy.at
  obtain ⟨a, ⟨hoff, hans⟩ | ⟨hans, hoff⟩⟩ := hagree
  · exact converged_of_slots .left h hoff hans
  · exact converged_of_slots .right h hoff hans

end Crossed

/-- **Crossed offers converge.** In every run of two nodes that dial each other in which each step
settles the crossing, and in every state of it where all frames have been delivered, one end offers
what the other answers, under one attempt id. -/
theorem crossed_offers_converge (D : Dialers) (requireFor : MeshId → Bool) (as : List Crossed.Act)
    (hset : EachStep (Crossed.step D requireFor) (Crossed.Settles D requireFor) (.init D) as)
    (hdial : ∃ a ∈ as, ∃ side room, a = .dial side room)
    (hquiet : (run (Crossed.step D requireFor) (.init D) as).Quiet) :
    (run (Crossed.step D requireFor) (.init D) as).Converged D := by
  have hsound : (run (Crossed.step D requireFor) (.init D) as).OnCourse D :=
    hset.invariant (I := Crossed.OnCourse D) (fun _ _ h ha => (h.step requireFor ha).onCourse)
      (Crossed.onCourse_init D)
  have hbusy : (run (Crossed.step D requireFor) (.init D) as).Busy D := by
    refine hset.reaches (I := Crossed.OnCourse D) (B := fun a => ∃ side room, a = .dial side room)
      (fun _ _ h ha => (h.step requireFor ha).onCourse)
      (fun _ _ h ha => (h.step requireFor ha).busy) ?_ (Crossed.onCourse_init D) hdial
    rintro s - h ha ⟨side, room, rfl⟩
    exact Crossed.busy_dial requireFor ha
  exact hsound.converged hbusy hquiet

/-- Two nodes and their runs. -/
def sampleDialers : Dialers where
  key
    | .left => ['r']
    | .right => ['l']
  incRun
    | .left => ['a']
    | .right => ['b']
  apart := by decide

/-- A node dials and its offer goes out. -/
def offersOut (side : Side) : List Crossed.Act :=
  [.resume side (.offerMade 0) true false, .resume side (.offerSet 0) true false]

/-- A node answers the offer it has taken. -/
def answersOut (side : Side) (r : Ref) : List Crossed.Act :=
  [.resume side (.offerTaken r) true false, .resume side (.flushed r) true false,
    .resume side (.answerMade r) true false, .resume side (.answerSet r) true false]

/-- Both dial, and the right one has no room for another negotiation when the offer comes. -/
def oneRefuses : List Crossed.Act :=
  [.dial .left true, .dial .right true] ++ offersOut .left ++ offersOut .right
    ++ [.deliver .right false true 0, .deliver .left true true 0] ++ answersOut .left 1
    ++ [.deliver .left true true 0, .deliver .right true true 0,
      .resume .right (.answerTaken 0) true false]

theorem crossed_offers_converge_refused :
    (run (Crossed.step sampleDialers fun _ => false) (.init sampleDialers) oneRefuses).Converged
      sampleDialers :=
  crossed_offers_converge sampleDialers (fun _ => false) oneRefuses (by decide +kernel)
    ⟨.dial .left true, by simp [oneRefuses], .left, true, rfl⟩ (by decide +kernel)

/-- Both dial, and each takes the other's offer. -/
def bothTake : List Crossed.Act :=
  [.dial .left true, .dial .right true] ++ offersOut .left ++ offersOut .right
    ++ [.deliver .left true true 0, .deliver .right true true 0] ++ answersOut .left 1
    ++ answersOut .right 1 ++ [.deliver .left true true 0, .deliver .right true true 0]

/-- Each end answers what the other has given up, and drops the other's answer as stale. -/
theorem crossed_offers_diverge :
    ((run (Crossed.step sampleDialers fun _ => false) (.init sampleDialers) bothTake).Quiet
      ∧ ((run (Crossed.step sampleDialers fun _ => false) (.init sampleDialers) bothTake).held
          sampleDialers .left).map (fun st => (st.role, st.attempt))
        = some (.responder, some ⟨['b'], 1⟩)
      ∧ ((run (Crossed.step sampleDialers fun _ => false) (.init sampleDialers) bothTake).held
          sampleDialers .right).map (fun st => (st.role, st.attempt))
        = some (.responder, some ⟨['a'], 1⟩))
    ∧ ¬ ∀ (D : Dialers) (requireFor : MeshId → Bool) (as : List Crossed.Act),
        (∀ a ∈ as, a.granted = true) → (∀ side, .dial side true ∈ as) →
        (run (Crossed.step D requireFor) (.init D) as).Quiet →
        (run (Crossed.step D requireFor) (.init D) as).Converged D := by
  have hruns : (run (Crossed.step sampleDialers fun _ => false) (.init sampleDialers)
      bothTake).Quiet
      ∧ ((run (Crossed.step sampleDialers fun _ => false) (.init sampleDialers) bothTake).held
          sampleDialers .left).map (fun st => (st.role, st.attempt))
        = some (.responder, some ⟨['b'], 1⟩)
      ∧ ((run (Crossed.step sampleDialers fun _ => false) (.init sampleDialers) bothTake).held
          sampleDialers .right).map (fun st => (st.role, st.attempt))
        = some (.responder, some ⟨['a'], 1⟩) := by
    decide +kernel
  refine ⟨hruns, ?_⟩
  intro h
  have hdial : ∀ side, Crossed.Act.dial side true ∈ bothTake := by
    intro side
    cases side <;> simp [bothTake]
  obtain ⟨side, a, st, st', hst, -, hrole, -⟩ :=
    h sampleDialers (fun _ => false) bothTake (by decide) hdial hruns.1
  obtain ⟨-, hleft, hright⟩ := hruns
  cases side with
  | left =>
    rw [hst] at hleft
    cases hrole.symm.trans (congrArg (fun p => (p.map Prod.fst).getD .offerer) hleft)
  | right =>
    rw [hst] at hright
    cases hrole.symm.trans (congrArg (fun p => (p.map Prod.fst).getD .offerer) hright)

end Axona
