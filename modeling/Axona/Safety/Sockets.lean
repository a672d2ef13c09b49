import Axona.Safety.Replay
import Axona.Transport.WsAuth

/-! # Whether a binding follows the live connection

A node that proves itself on a second connection is routed over that one. But the end of either
connection takes the route, and reports the node dead; and whatever check is under way when a
connection ends may bind the next one of its name. -/

namespace Axona

open Library OrderedMap

namespace WsNode

/-! ### The property and the condition -/

/-- A proof of a node was verified for an instance: over the value of two nonces of that instance,
which no other two nonces have. -/
structure VerifiedOn (P : AuthPrimitives) (o : NonceOrigin) (i : Nat) (n : Text) : Prop where
  own : o.On (some i)
  passed : ∃ body, verifyAuthHello P body o.cbv = .ok n
  told : ∀ a b, ':' ∉ a → ':' ∉ b → cbvFromNonces a b "ws".toList = o.cbv →
    a = o.myNonce ∧ b = o.peerNonce ∨ a = o.peerNonce ∧ b = o.myNonce

/-- **The bindings follow the live connection.** A node that is bound on open connections is routed
over the one bound last; whatever bound an open connection was verified over nonces of that very
instance; and no close reported a node dead, with its requests rejected, while another open
connection was bound to it. -/
structure FollowsLive (P : AuthPrimitives) (s : WsNode) : Prop where
  routed : ∀ n c, s.latest n = some c → s.ws.connIdByNodeId.get n = some c
  own : ∀ p ∈ s.proofs, ∀ i, p.instance' = some i → VerifiedOn P p.origin i p.nodeId
  verified : ∀ c i n, s.conns.get c = some i → s.ws.nodeIdByConnId.get c = some n →
    ∃ p ∈ s.proofs, p.connId = c ∧ p.instance' = some i ∧ p.nodeId = n
  deaths : ∀ d ∈ s.deaths, d.2 = false

/-- What goes on binds: the connection, its handshake and the node, and what was verified. -/
def binding (allowed : Text → Bool) (s : WsNode) (k : Nat) :
    Option (ConnId × Ref × Text × NonceOrigin) :=
  match s.tasks.get k with
  | some (.verify c r (.ok n) origin) =>
    if s.auth.has c = true ∧ (s.states.get r).expectNodeId.any (fun e => decide (n ≠ e)) = false
        ∧ allowed n = true then
      some (c, r, n, origin)
    else none
  | _ => none

/-- A connection may be bound to a node: it is open, or the node has no open connection; and it is
not taken from a node that is bound on another as well. -/
structure MayBind (s : WsNode) (c : ConnId) (n : Text) : Prop where
  up : s.conns.get c = none → ∀ c', s.boundTo c' n = false
  taken : ∀ m, m ≠ n → s.latest m = some c → ∀ c', s.boundTo c' m = true → c' = c

/-- **The condition.** No connection is opened under a name that is bound, or whose handshake is
still there; a hello is of the instance that is open; no connection ends, and none is closed, while
another open one is bound to its node; and what goes on to bind is of the handshake that the name
has now (`_authByConn.get(connId) === st`), and may bind. -/
def InPlace (allowed : Text → Bool) (s : WsNode) : Act → Prop
  | .connect c => s.ws.nodeIdByConnId.get c = none ∧ s.auth.get c = none
  | .hello c i .. => s.conns.get c = some i
  | .closed c i => ∀ n, s.ws.nodeIdByConnId.get c = some n →
      ∀ c', s.boundTo c' n = true → c' = c ∧ s.conns.get c = some i
  | .closeConnection n => ∀ c m, s.ws.connIdByNodeId.get n = some c → c ≠ [] →
      s.ws.nodeIdByConnId.get c = some m → ∀ c', s.boundTo c' m = true → c' = c
  | .resume k _ => ∀ c r n origin, s.binding allowed k = some (c, r, n, origin) →
      s.auth.get c = some r ∧ s.MayBind c n
  | _ => True

variable {P : AuthPrimitives} {allowed : Text → Bool} {s s' : WsNode} {c d : ConnId} {n m : Text}

theorem followsLive_init : FollowsLive P .init where
  routed := by rintro n c ⟨⟩
  own := by rintro p ⟨⟩
  verified := by rintro c i n ⟨⟩
  deaths := by rintro d ⟨⟩

/-! ### The handshakes -/

/-- Where the name still has the handshake, the nonces are of the instance that is open. -/
def Current (s : WsNode) (c : ConnId) (r : Ref) (o : NonceOrigin) : Prop :=
  r < s.states.next ∧ (s.auth.get c = some r → o.On (s.conns.get c))

/-- What waits was begun over the value of its nonces. -/
def TaskSound (P : AuthPrimitives) (s : WsNode) : WsTask → Prop
  | .build c r cbv o => cbv = o.cbv ∧ s.Current c r o
  | .verify c r result o => (∃ body, result = verifyAuthHello P body o.cbv) ∧ s.Current c r o

/-- The handshake of a name is of the instance that is open under it. -/
structure Handshakes (P : AuthPrimitives) (s : WsNode) : Prop where
  live : ∀ c r, s.auth.get c = some r → r < s.states.next
    ∧ (s.states.get r).madeFor = s.conns.get c
    ∧ ∀ nonce, (s.states.get r).peerNonce = some nonce → (s.states.get r).heardOn = s.conns.get c
  apart : ∀ c c' r, s.auth.get c = some r → s.auth.get c' = some r → c = c'
  tasks : ∀ k task, s.tasks.get k = some task → TaskSound P s task

theorem handshakes_init : Handshakes P .init where
  live := by rintro c r ⟨⟩
  apart := by rintro c c' r ⟨⟩
  tasks := by rintro k task ⟨⟩

/-- No handshake, no task and no nonce is new, and a name that has a handshake is open as it was. -/
structure Fewer (s s' : WsNode) : Prop where
  auth : ∀ c r, s'.auth.get c = some r → s.auth.get c = some r ∧ s'.conns.get c = s.conns.get c
  next : s'.states.next = s.states.next
  cells : ∀ r, (s'.states.get r).madeFor = (s.states.get r).madeFor
    ∧ (s'.states.get r).peerNonce = (s.states.get r).peerNonce
    ∧ (s'.states.get r).heardOn = (s.states.get r).heardOn
  tasks : ∀ k task, s'.tasks.get k = some task → s.tasks.get k = some task

theorem Fewer.current (h : s.Fewer s') {r : Ref} {o : NonceOrigin} (hc : s.Current c r o) :
    s'.Current c r o := by
  refine ⟨h.next ▸ hc.1, fun hr => ?_⟩
  obtain ⟨hauth, hconns⟩ := h.auth c r hr
  rw [hconns]
  exact hc.2 hauth

theorem Fewer.taskSound (h : s.Fewer s') {task : WsTask} (ht : s.TaskSound P task) :
    s'.TaskSound P task := by
  cases task with
  | build c r cbv o => exact ⟨ht.1, h.current ht.2⟩
  | verify c r result o => exact ⟨ht.1, h.current ht.2⟩

theorem Fewer.handshakes (h : s.Fewer s') (hs : Handshakes P s) : Handshakes P s' where
  live c r hr := by
    obtain ⟨hauth, hconns⟩ := h.auth c r hr
    obtain ⟨hmade, hpeer, hheard⟩ := h.cells r
    rw [h.next, hconns, hmade, hpeer, hheard]
    exact hs.live c r hauth
  apart c c' r hr hr' := hs.apart c c' r (h.auth c r hr).1 (h.auth c' r hr').1
  tasks k task ht := h.taskSound (hs.tasks k task (h.tasks k task ht))

/-- A field of a handshake that is no nonce. -/
theorem fewer_states {states : Heap WsAuth} (hnext : states.next = s.states.next)
    (h : ∀ r, (states.get r).madeFor = (s.states.get r).madeFor
      ∧ (states.get r).peerNonce = (s.states.get r).peerNonce
      ∧ (states.get r).heardOn = (s.states.get r).heardOn) :
    s.Fewer { s with states := states } :=
  ⟨fun _ _ h => ⟨h, rfl⟩, hnext, h, fun _ _ h => h⟩

theorem fewer_modify (r : Ref) {f : WsAuth → WsAuth} (hf : ∀ st, (f st).madeFor = st.madeFor
    ∧ (f st).peerNonce = st.peerNonce ∧ (f st).heardOn = st.heardOn) :
    s.Fewer { s with states := s.states.modify r f } := by
  refine fewer_states rfl fun r' => ?_
  rw [Heap.get_modify]
  split
  next heq => exact heq ▸ hf _
  · exact ⟨rfl, rfl, rfl⟩

theorem fewer_authReject (s : WsNode) (c : ConnId) : s.Fewer (s.authReject c) :=
  ⟨fun _ _ h => ⟨of_get_delete h, rfl⟩, rfl, fun _ => ⟨rfl, rfl, rfl⟩, fun _ _ h => h⟩

theorem fewer_endTask (s : WsNode) (k : Nat) : s.Fewer { s with tasks := s.tasks.delete k } :=
  ⟨fun _ _ h => ⟨h, rfl⟩, rfl, fun _ => ⟨rfl, rfl, rfl⟩, fun _ _ h => of_get_delete h⟩

namespace Handshakes

variable (h : Handshakes P s)
include h

theorem addTask {task : WsTask} (ht : s.TaskSound P task) : Handshakes P (s.addTask task) := by
  refine ⟨h.live, h.apart, fun k task' hk => ?_⟩
  replace hk : (s.tasks.set s.nextTask task).get k = some task' := hk
  rw [get_set] at hk
  have hsound : s.TaskSound P task' := by
    split at hk
    · exact Option.some.inj hk ▸ ht
    · exact h.tasks k task' hk
  cases task' with
  | build => exact hsound
  | verify => exact hsound

theorem beginAuth (c : ConnId) (expect : Option Text) (nonce : Text) (throws : Bool) :
    Handshakes P (s.beginAuth c expect nonce throws) := by
  unfold WsNode.beginAuth
  split
  · split
    · exact h
    · exact (fewer_modify _ (f := fun st => { st with expectNodeId := expect })
        fun _ => ⟨rfl, rfl, rfl⟩).handshakes h
  split
  · exact h
  set new : WsAuth := ⟨s.conns.get c, none, nonce, none, none, false, false, false, expect⟩
  have hget : ∀ c' r, (s.auth.set c s.states.next).get c' = some r →
      c' = c ∧ r = s.states.next ∨ s.auth.get c' = some r ∧ r < s.states.next := by
    intro c' r hr
    rw [get_set] at hr
    split at hr
    next heq => exact .inl ⟨heq, (Option.some.inj hr).symm⟩
    · exact .inr ⟨hr, (h.live c' r hr).1⟩
  have hcurrent : ∀ c' r o, s.Current c' r o → Current { s with
      states := (s.states.alloc new).1, auth := s.auth.set c s.states.next } c' r o := by
    rintro c' r o ⟨hlt, hon⟩
    refine ⟨hlt.trans (Nat.lt_succ_self _), fun hr => ?_⟩
    rcases hget c' r hr with ⟨-, rfl⟩ | ⟨hauth, -⟩
    · exact absurd hlt (Nat.lt_irrefl _)
    · exact hon hauth
  refine ⟨fun c' r hr => ?_, fun c₁ c₂ r h₁ h₂ => ?_, fun k task hk => ?_⟩
  · rcases hget c' r hr with ⟨rfl, rfl⟩ | ⟨hauth, hlt⟩
    · have hcell : (s.states.alloc new).1.get s.states.next = new := by
        rw [Heap.get_alloc, if_pos rfl]
      refine ⟨Nat.lt_succ_self _, congrArg WsAuth.madeFor hcell, fun nonce' hnonce => ?_⟩
      have hpeer : new.peerNonce = some nonce' := hcell ▸ hnonce
      cases hpeer
    · obtain ⟨-, hmade, hheard⟩ := h.live c' r hauth
      have hcell : (s.states.alloc new).1.get r = s.states.get r := Heap.get_alloc_of_lt _ _ hlt
      refine ⟨hlt.trans (Nat.lt_succ_self _), ?_, ?_⟩
      · exact (congrArg WsAuth.madeFor hcell).trans hmade
      · intro nonce' hnonce
        exact (congrArg WsAuth.heardOn hcell).trans (hheard nonce' (hcell ▸ hnonce))
  · rcases hget c₁ r h₁ with ⟨rfl, rfl⟩ | ⟨hauth₁, hlt₁⟩
    · rcases hget c₂ _ h₂ with ⟨rfl, -⟩ | ⟨-, hlt⟩
      · rfl
      · exact absurd hlt (Nat.lt_irrefl _)
    · rcases hget c₂ r h₂ with ⟨-, rfl⟩ | ⟨hauth₂, -⟩
      · exact absurd hlt₁ (Nat.lt_irrefl _)
      · exact h.apart c₁ c₂ r hauth₁ hauth₂
  · have ht := h.tasks k task hk
    cases task with
    | build c' r cbv o => exact ⟨ht.1, hcurrent c' r o ht.2⟩
    | verify c' r result o => exact ⟨ht.1, hcurrent c' r o ht.2⟩

/-- The nonce of the peer comes in on the instance that is open. -/
theorem hear {r : Ref} {i : Nat} (hr : s.auth.get c = some r) (hi : s.conns.get c = some i)
    (nonce : Text) : Handshakes P { s with states := s.states.modify r fun st =>
      { st with peerNonce := some nonce, heardOn := some i } } := by
  refine ⟨fun c' r' hr' => ?_, h.apart, h.tasks⟩
  obtain ⟨hlt, hmade, hheard⟩ := h.live c' r' hr'
  rw [Heap.get_modify]
  split
  next heq =>
    subst heq
    obtain rfl := h.apart c c' r' hr hr'
    exact ⟨hlt, hmade, fun _ _ => hi.symm⟩
  · exact ⟨hlt, hmade, hheard⟩

theorem beginVerify {r : Ref} {cbv : Text} {o : NonceOrigin} (hcbv : cbv = o.cbv)
    (hcurrent : s.Current c r o) : Handshakes P (s.beginVerify P c r cbv o) := by
  unfold WsNode.beginVerify
  simp only []
  split
  · exact h
  next body _ =>
  split
  · exact h
  have hfewer : s.Fewer { s with
      states := s.states.put r { s.states.get r with verifying := true } } :=
    fewer_modify (s := s) r (f := fun st => { st with verifying := true }) fun _ => ⟨rfl, rfl, rfl⟩
  exact (hfewer.handshakes h).addTask ⟨⟨body, by rw [hcbv]⟩, hfewer.current hcurrent⟩

theorem authMaybeProgress (c : ConnId) : Handshakes P (s.authMaybeProgress P c) := by
  unfold WsNode.authMaybeProgress
  split
  · exact h
  next r hr =>
  simp only []
  split
  · exact h
  next hready =>
  obtain ⟨hlt, hmade, hheard⟩ := h.live c r hr
  have hcurrent : s.Current c r ⟨(s.states.get r).myNonce, (s.states.get r).madeFor,
      (s.states.get r).peerNonce.getD [], (s.states.get r).heardOn⟩ := by
    refine ⟨hlt, fun _ => ⟨hmade, ?_⟩⟩
    cases hpeer : (s.states.get r).peerNonce with
    | none =>
      rw [hpeer] at hready
      exact absurd (by simp) hready
    | some nonce => exact hheard nonce hpeer
  split
  · exact h.beginVerify rfl hcurrent
  · have hfewer : s.Fewer { s with
        states := s.states.put r { s.states.get r with sigSent := true } } :=
      fewer_modify (s := s) r (f := fun st => { st with sigSent := true }) fun _ => ⟨rfl, rfl, rfl⟩
    exact (hfewer.handshakes h).addTask ⟨rfl, hfewer.current hcurrent⟩

end Handshakes

/-- What opening a handshake leaves as it was. -/
theorem conns_beginAuth (s : WsNode) (c : ConnId) (expect : Option Text) (nonce : Text)
    (throws : Bool) : (s.beginAuth c expect nonce throws).conns = s.conns := by
  unfold WsNode.beginAuth
  split
  · split <;> rfl
  · split <;> rfl

namespace Handshakes

variable (h : Handshakes P s)
include h

theorem authOnHello {i : Nat} (hi : s.conns.get c = some i) (body : Option Text) (nonce : Text)
    (throws : Bool) : Handshakes P (s.authOnHello P c i body nonce throws) := by
  unfold WsNode.authOnHello
  split
  · exact (fewer_authReject s c).handshakes h
  simp only []
  have hbegin := h.beginAuth c none nonce throws
  split
  · exact hbegin
  next r hr =>
  rw [← conns_beginAuth s c none nonce throws] at hi
  exact (hbegin.hear hr hi _).authMaybeProgress c

theorem authOnSig (c : ConnId) (body : Option (Option Hello)) (nonce : Text) (throws : Bool) :
    Handshakes P (s.authOnSig P c body nonce throws) := by
  unfold WsNode.authOnSig
  simp only []
  have hbegin := h.beginAuth c none nonce throws
  split
  · exact hbegin
  · exact ((fewer_modify _ (f := fun st => { st with pendingSig := body })
      fun _ => ⟨rfl, rfl, rfl⟩).handshakes hbegin).authMaybeProgress c

theorem resume (k : Nat) (fails : Bool) : Handshakes P (s.resume P allowed k fails) := by
  unfold WsNode.resume
  split
  · exact h
  next task htask =>
  have hend := (fewer_endTask s k).handshakes h
  have hsound := (fewer_endTask s k).taskSound (h.tasks k task htask)
  cases task with
  | build c r cbv o =>
    simp only []
    split
    · exact hend
    split
    · exact (fewer_authReject _ c).handshakes hend
    · exact hend.beginVerify hsound.1 hsound.2
  | verify c r result o =>
    simp only []
    unfold afterVerify
    split
    · split
      · exact (fewer_authReject _ c).handshakes hend
      split
      · exact (fewer_authReject _ c).handshakes hend
      · have hbound := (fewer_modify (s := { s with tasks := s.tasks.delete k }) r
          (f := fun st => { st with bound := true }) fun _ => ⟨rfl, rfl, rfl⟩).handshakes hend
        exact ⟨hbound.live, hbound.apart, hbound.tasks⟩
    · exact hend

theorem step {a : Act} (hin : s.InPlace allowed a) : Handshakes P (s.step P allowed a) := by
  cases a with
  | connect c =>
    refine Fewer.handshakes (s := s) ⟨fun c' r hr => ⟨hr, ?_⟩, rfl, fun _ => ⟨rfl, rfl, rfl⟩,
      fun _ _ ht => ht⟩ h
    change (s.conns.set c s.nextInstance).get c' = s.conns.get c'
    rw [get_set, if_neg]
    rintro rfl
    have hnone : s.auth.get c' = none := hin.2
    have hsome : s.auth.get c' = some r := hr
    rw [hnone] at hsome
    cases hsome
  | closed c i =>
    refine Fewer.handshakes (s := s) ⟨fun c' r hr => ?_, rfl, fun _ => ⟨rfl, rfl, rfl⟩,
      fun _ _ ht => ht⟩ h
    replace hr : (s.auth.delete c).get c' = some r := hr
    refine ⟨of_get_delete hr, ?_⟩
    change (if s.conns.get c = some i then s.conns.delete c else s.conns).get c' = s.conns.get c'
    split
    · rw [get_delete, if_neg (ne_of_get_delete hr)]
    · rfl
  | closeConnection n => exact ⟨h.live, h.apart, h.tasks⟩
  | beginAuth c expect nonce throws => exact h.beginAuth c expect nonce throws
  | hello c i body nonce throws => exact h.authOnHello hin body nonce throws
  | sig c body nonce throws => exact h.authOnSig c body nonce throws
  | resume k fails => exact h.resume k fails
  | traffic a => exact ⟨h.live, h.apart, h.tasks⟩

/-- **What the missing check would tell**: a proof of the handshake that the name has now was
verified for the instance that is open. -/
theorem verifiedOn {k i : Nat} {r : Ref} {o : NonceOrigin}
    (hk : s.tasks.get k = some (.verify c r (.ok n) o)) (hr : s.auth.get c = some r)
    (hi : s.conns.get c = some i) : VerifiedOn P o i n := by
  obtain ⟨⟨body, hbody⟩, -, hon⟩ := h.tasks k _ hk
  refine ⟨hi ▸ hon hr, ⟨body, hbody.symm⟩, fun a b ha hb heq => cbvFromNonces_inj ha hb heq⟩

end Handshakes

/-! ### The connection bound last -/

theorem boundTo_iff : s.boundTo c n = true ↔
    s.conns.has c = true ∧ s.ws.nodeIdByConnId.get c = some n := by
  unfold boundTo
  rw [Bool.and_eq_true, decide_eq_true_eq]

theorem boundTo_of_latest (h : s.latest n = some c) : s.boundTo c n = true :=
  List.find?_some (p := fun c => s.boundTo c n) h

theorem latest_congr (ho : s'.order = s.order) (hb : ∀ c, s'.boundTo c n = s.boundTo c n) :
    s'.latest n = s.latest n := by
  unfold latest
  rw [ho]
  exact congrArg (List.find? · s.order) (funext hb)

/-- A connection that was not the last one is bound no more. -/
theorem latest_except (ho : s'.order = c :: s.order) (hc : s'.boundTo c m = false)
    (hb : ∀ d, d ≠ c → s'.boundTo d m = s.boundTo d m) (hlast : s.latest m ≠ some c) :
    s'.latest m = s.latest m := by
  unfold latest at hlast ⊢
  rw [ho, List.find?_cons_of_neg (by rw [hc]; exact Bool.false_ne_true)]
  generalize s.order = l at hlast
  induction l with
  | nil => rfl
  | cons d l ih =>
    by_cases hd : d = c
    · subst hd
      have hno : s.boundTo d m = false := by
        by_contra hyes
        rw [Bool.not_eq_false] at hyes
        exact hlast (List.find?_cons_of_pos hyes)
      rw [List.find?_cons, hno] at hlast
      rw [List.find?_cons, List.find?_cons, hno, hc]
      exact ih hlast
    · rw [List.find?_cons, List.find?_cons, hb d hd]
      cases hs : s.boundTo d m with
      | true => rfl
      | false =>
        rw [List.find?_cons, hs] at hlast
        exact ih hlast

/-- What touches neither the bindings nor the connections. -/
theorem FollowsLive.congr (h : s.FollowsLive P) (hroute : s'.ws.connIdByNodeId = s.ws.connIdByNodeId)
    (hname : s'.ws.nodeIdByConnId = s.ws.nodeIdByConnId) (hconns : s'.conns = s.conns)
    (ho : s'.order = s.order) (hp : s'.proofs = s.proofs) (hd : s'.deaths = s.deaths) :
    s'.FollowsLive P where
  routed n c hl := by
    have hb : ∀ c, s'.boundTo c n = s.boundTo c n := by
      intro c
      unfold boundTo
      rw [hconns, hname]
    rw [latest_congr ho hb] at hl
    rw [hroute]
    exact h.routed n c hl
  own := hp ▸ h.own
  verified := by
    rw [hconns, hname, hp]
    exact h.verified
  deaths := hd ▸ h.deaths

/-! ### Opening -/

theorem FollowsLive.connect (h : s.FollowsLive P) (hnone : s.ws.nodeIdByConnId.get c = none) :
    (s.step P allowed (.connect c)).FollowsLive P := by
  have hget : ∀ c', c' ≠ c → (s.conns.set c s.nextInstance).get c' = s.conns.get c' :=
    fun c' hne => (get_set ..).trans (if_neg hne)
  have hsame : ∀ n c', (s.step P allowed (.connect c)).boundTo c' n = s.boundTo c' n := by
    intro n c'
    show ((s.conns.set c s.nextInstance).has c' && decide (s.ws.nodeIdByConnId.get c' = some n)) =
      (s.conns.has c' && decide (s.ws.nodeIdByConnId.get c' = some n))
    by_cases hc : c' = c
    · have hno : ¬s.ws.nodeIdByConnId.get c = some n := by
        rw [hnone]
        rintro ⟨⟩
      rw [hc, decide_eq_false hno, Bool.and_false, Bool.and_false]
    · unfold OrderedMap.has
      rw [hget c' hc]
  refine ⟨fun n c' hl => ?_, h.own, fun c' i n hi hn => ?_, h.deaths⟩
  · have hlatest : (s.step P allowed (.connect c)).latest n = s.latest n :=
      latest_congr rfl (hsame n)
    exact h.routed n c' (hlatest.symm.trans hl)
  · by_cases hc : c' = c
    · rw [hc] at hn
      rw [show s.ws.nodeIdByConnId.get c = some n from hn] at hnone
      cases hnone
    · exact h.verified c' i n ((hget c' hc).symm.trans hi) hn

/-! ### Unbinding -/

/-- A connection is unbound, and is open no more if `gone`. -/
def Unbound (s s' : WsNode) (c : ConnId) (gone : Bool) : Prop :=
  s'.ws.connIdByNodeId = (s.ws.unbindPeer c).connIdByNodeId
    ∧ s'.ws.nodeIdByConnId = s.ws.nodeIdByConnId.delete c
    ∧ s'.conns = (if gone then s.conns.delete c else s.conns)
    ∧ s'.order = s.order ∧ s'.proofs = s.proofs

variable {gone : Bool}

section

variable (h : s.Unbound s' c gone)
include h

theorem Unbound.name (d : ConnId) :
    s'.ws.nodeIdByConnId.get d = if d = c then none else s.ws.nodeIdByConnId.get d := by
  rw [h.2.1, get_delete]

theorem Unbound.conns {i : Nat} (hd : s'.conns.get d = some i) :
    s.conns.get d = some i := by
  rw [h.2.2.1] at hd
  split at hd
  · exact of_get_delete hd
  · exact hd

theorem Unbound.boundTo (d : ConnId) (n : Text) :
    s'.boundTo d n = if d = c then false else s.boundTo d n := by
  unfold WsNode.boundTo
  rw [h.name d]
  by_cases hd : d = c
  · rw [if_pos hd, if_pos hd, decide_eq_false (by rintro ⟨⟩), Bool.and_false]
  rw [if_neg hd, if_neg hd]
  congr 1
  unfold OrderedMap.has
  rw [h.2.2.1]
  split
  · rw [get_delete, if_neg hd]
  · rfl

/-- The route that goes. -/
theorem Unbound.route (n : Text) : s'.ws.connIdByNodeId.get n =
      if s.ws.nodeIdByConnId.get c = some n then none else s.ws.connIdByNodeId.get n := by
  rw [h.1]
  unfold WebSocket.unbindPeer
  cases hc : s.ws.nodeIdByConnId.get c with
  | none => exact (if_neg (by rintro ⟨⟩)).symm
  | some m =>
    rw [get_delete]
    by_cases hm : n = m
    · rw [if_pos hm, if_pos (by rw [hm])]
    · rw [if_neg hm, if_neg (by rintro ⟨⟩; exact hm rfl)]

/-- **Unbinding** a connection leaves the others routed, if no other open one is bound to its node. -/
theorem Unbound.routed (hf : s.FollowsLive P)
    (hcond : ∀ n, s.ws.nodeIdByConnId.get c = some n → ∀ d, s.boundTo d n = true → d = c) (n : Text)
    (d : ConnId) (hl : s'.latest n = some d) : s'.ws.connIdByNodeId.get n = some d := by
  have hd := boundTo_of_latest hl
  rw [h.boundTo] at hd
  split at hd
  · cases hd
  next hne =>
  have hother : s.ws.nodeIdByConnId.get c ≠ some n := fun hn => hne (hcond n hn d hd)
  have hsame : ∀ e, s'.boundTo e n = s.boundTo e n := by
    intro e
    rw [h.boundTo]
    split
    next heq =>
      unfold WsNode.boundTo
      rw [heq, decide_eq_false hother, Bool.and_false]
    · rfl
  rw [latest_congr h.2.2.2.1 hsame] at hl
  rw [h.route, if_neg hother]
  exact hf.routed n d hl

theorem Unbound.verified (hf : s.FollowsLive P) (d : ConnId) (i : Nat)
    (n : Text) (hi : s'.conns.get d = some i) (hn : s'.ws.nodeIdByConnId.get d = some n) :
    ∃ p ∈ s'.proofs, p.connId = d ∧ p.instance' = some i ∧ p.nodeId = n := by
  rw [h.name d] at hn
  rw [h.2.2.2.2]
  split at hn
  · cases hn
  · exact hf.verified d i n (h.conns hi) hn

end

theorem unbound_closed (s : WsNode) (c : ConnId) (i : Nat) :
    s.Unbound (s.handleConnClosed c i) c (decide (s.conns.get c = some i)) := by
  refine ⟨rfl, rfl, ?_, rfl, rfl⟩
  show (if s.conns.get c = some i then s.conns.delete c else s.conns) = _
  by_cases hi : s.conns.get c = some i
  · rw [if_pos hi, decide_eq_true hi, if_pos rfl]
  · rw [if_neg hi, decide_eq_false hi, if_neg Bool.false_ne_true]

theorem FollowsLive.closed (h : s.FollowsLive P) {i : Nat}
    (hin : s.InPlace allowed (.closed c i)) : (s.handleConnClosed c i).FollowsLive P := by
  have hu := unbound_closed s c i
  refine ⟨hu.routed h fun m hm d hd => (hin m hm d hd).1, h.own, hu.verified h, ?_⟩
  cases hc : s.ws.nodeIdByConnId.get c with
  | none =>
    have hdeaths : (s.handleConnClosed c i).deaths = s.deaths := by
      unfold handleConnClosed
      simp only [hc]
    rw [hdeaths]
    exact h.deaths
  | some n =>
    have hdeaths : (s.handleConnClosed c i).deaths = (n, s.order.any fun d =>
        s.boundTo d n && !decide (d = c ∧ s.conns.get d = some i)) :: s.deaths := by
      unfold handleConnClosed
      simp only [hc]
    rw [hdeaths]
    intro e he
    rcases List.mem_cons.mp he with rfl | he
    · refine List.any_eq_false.mpr fun d _ hd => ?_
      rw [Bool.and_eq_true, Bool.not_eq_true', decide_eq_false_iff_not] at hd
      obtain ⟨rfl, hopen⟩ := hin n hc d hd.1
      exact hd.2 ⟨rfl, hopen⟩
    · exact h.deaths e he

theorem FollowsLive.closeConnection (h : s.FollowsLive P)
    (hin : s.InPlace allowed (.closeConnection n)) :
    FollowsLive P { s with ws := s.ws.closeConnection n } := by
  unfold WebSocket.closeConnection
  split
  · exact h
  next c hroute =>
  split
  · exact h
  next hne =>
  have hu : s.Unbound { s with ws := s.ws.unbindPeer c } c false := ⟨rfl, rfl, rfl, rfl, rfl⟩
  exact ⟨hu.routed h fun m hm => hin c m hroute hne hm, h.own, hu.verified h, h.deaths⟩

/-! ### Binding -/

theorem boundTo_bindPeer (s : WsNode) (n : Text) (c : ConnId) (origin : NonceOrigin) (d : ConnId)
    (m : Text) : (s.bindPeer n c origin).boundTo d m =
      if d = c then s.conns.has c && decide (n = m) else s.boundTo d m := by
  show (s.conns.has d && decide ((s.ws.nodeIdByConnId.set c n).get d = some m)) = _
  rw [get_set]
  by_cases hd : d = c
  · rw [if_pos hd, if_pos hd, hd, decide_eq_decide.mpr Option.some_inj]
  · rw [if_neg hd, if_neg hd]
    rfl

theorem route_bindPeer (s : WsNode) (n : Text) (c : ConnId) (origin : NonceOrigin) (m : Text) :
    (s.bindPeer n c origin).ws.connIdByNodeId.get m =
      if m = n then some c else s.ws.connIdByNodeId.get m := by
  show (s.ws.connIdByNodeId.set n c).get m = _
  exact get_set ..

/-- **Binding.** -/
theorem FollowsLive.bindPeer (h : s.FollowsLive P) (hmay : s.MayBind c n) {origin : NonceOrigin}
    (hverified : ∀ i, s.conns.get c = some i → VerifiedOn P origin i n) :
    (s.bindPeer n c origin).FollowsLive P := by
  have hb := boundTo_bindPeer s n c origin
  have hr := route_bindPeer s n c origin
  have ho : (s.bindPeer n c origin).order = c :: s.order := rfl
  refine ⟨fun m e he => ?_, fun p hp i hi => ?_, fun d i m hi hm => ?_, h.deaths⟩
  · have hbound := boundTo_of_latest he
    rw [hr]
    split
    next hm =>
      subst hm
      cases hopen : s.conns.get c with
      | none =>
        rw [hb] at hbound
        split at hbound
        · rw [Bool.and_eq_true] at hbound
          have hhas := hbound.1
          unfold OrderedMap.has at hhas
          rw [hopen] at hhas
          cases hhas
        · rw [hmay.up hopen e] at hbound
          cases hbound
      | some i =>
        have hc : (s.bindPeer m c origin).boundTo c m = true := by
          rw [hb, if_pos rfl, decide_eq_true rfl, Bool.and_true]
          exact has_iff.mpr ⟨i, hopen⟩
        unfold latest at he
        rw [ho, List.find?_cons, hc] at he
        exact he
    next hm =>
    have hc : (s.bindPeer n c origin).boundTo c m = false := by
      rw [hb, if_pos rfl, decide_eq_false (Ne.symm hm), Bool.and_false]
    have hrest : ∀ d, d ≠ c → (s.bindPeer n c origin).boundTo d m = s.boundTo d m :=
      fun d hd => by rw [hb, if_neg hd]
    by_cases hlast : s.latest m = some c
    · -- no other connection of that node is open
      rw [hb] at hbound
      split at hbound
      · rw [decide_eq_false (Ne.symm hm), Bool.and_false] at hbound
        cases hbound
      next hne => exact absurd (hmay.taken m hm hlast e hbound) hne
    · rw [latest_except ho hc hrest hlast] at he
      exact h.routed m e he
  · rcases List.mem_cons.mp hp with rfl | hp
    · exact hverified i hi
    · exact h.own p hp i hi
  · replace hm : (s.ws.nodeIdByConnId.set c n).get d = some m := hm
    rw [get_set] at hm
    split at hm
    next hd =>
      subst hd
      cases hm
      exact ⟨_, List.mem_cons_self, rfl, hi, rfl⟩
    · obtain ⟨p, hp, hrest⟩ := h.verified d i m hi hm
      exact ⟨p, List.mem_cons_of_mem _ hp, hrest⟩

/-! ### Beside the bindings -/

/-- Nothing but the handshakes and their tasks is changed. -/
structure Aside (s s' : WsNode) : Prop where
  ws : s'.ws = s.ws
  conns : s'.conns = s.conns
  order : s'.order = s.order
  proofs : s'.proofs = s.proofs
  deaths : s'.deaths = s.deaths

theorem Aside.refl (s : WsNode) : s.Aside s := ⟨rfl, rfl, rfl, rfl, rfl⟩

theorem Aside.trans {s'' : WsNode} (h : s.Aside s') (h' : s'.Aside s'') : s.Aside s'' :=
  ⟨h'.ws.trans h.ws, h'.conns.trans h.conns, h'.order.trans h.order, h'.proofs.trans h.proofs,
    h'.deaths.trans h.deaths⟩

theorem Aside.followsLive (h : s.Aside s') (hf : s.FollowsLive P) : s'.FollowsLive P :=
  hf.congr (by rw [h.ws]) (by rw [h.ws]) h.conns h.order h.proofs h.deaths

section

variable (s : WsNode) (c : ConnId)

theorem aside_beginAuth (expect : Option Text) (nonce : Text)
    (throws : Bool) : s.Aside (s.beginAuth c expect nonce throws) := by
  unfold beginAuth
  split
  · split
    · exact .refl s
    · exact ⟨rfl, rfl, rfl, rfl, rfl⟩
  · split
    · exact .refl s
    · exact ⟨rfl, rfl, rfl, rfl, rfl⟩

theorem aside_beginVerify (r : Ref) (cbv : Text) (origin : NonceOrigin) :
    s.Aside (s.beginVerify P c r cbv origin) := by
  unfold beginVerify
  simp only []
  split
  · exact .refl s
  split
  · exact .refl s
  · exact ⟨rfl, rfl, rfl, rfl, rfl⟩

theorem aside_authMaybeProgress : s.Aside (s.authMaybeProgress P c) := by
  unfold authMaybeProgress
  split
  · exact .refl s
  simp only []
  split
  · exact .refl s
  split
  · exact aside_beginVerify s _ _ _ _
  · exact ⟨rfl, rfl, rfl, rfl, rfl⟩

theorem aside_authOnHello (i : Nat) (body : Option Text) (nonce : Text)
    (throws : Bool) : s.Aside (s.authOnHello P c i body nonce throws) := by
  unfold authOnHello
  split
  · exact ⟨rfl, rfl, rfl, rfl, rfl⟩
  simp only []
  have hbegin := aside_beginAuth s c none nonce throws
  split
  · exact hbegin
  · refine hbegin.trans (Aside.trans ?_ (aside_authMaybeProgress ..))
    exact ⟨rfl, rfl, rfl, rfl, rfl⟩

theorem aside_authOnSig (body : Option (Option Hello)) (nonce : Text)
    (throws : Bool) : s.Aside (s.authOnSig P c body nonce throws) := by
  unfold authOnSig
  simp only []
  have hbegin := aside_beginAuth s c none nonce throws
  split
  · exact hbegin
  · refine hbegin.trans (Aside.trans ?_ (aside_authMaybeProgress ..))
    exact ⟨rfl, rfl, rfl, rfl, rfl⟩

end

/-- What goes on binds, or it changes nothing but the handshakes. -/
theorem resume_cases (P : AuthPrimitives) (allowed : Text → Bool) (s : WsNode) (k : Nat)
    (fails : Bool) : (s.binding allowed k = none ∧ s.Aside (s.resume P allowed k fails))
      ∨ ∃ c r n origin w, s.binding allowed k = some (c, r, n, origin) ∧ s.Aside w
        ∧ s.tasks.get k = some (.verify c r (.ok n) origin)
        ∧ s.resume P allowed k fails = w.bindPeer n c origin := by
  unfold resume binding
  cases hk : s.tasks.get k with
  | none => exact .inl ⟨rfl, .refl s⟩
  | some task =>
    cases task with
    | build c r cbv origin =>
      refine .inl ⟨rfl, ?_⟩
      simp only []
      split
      · exact ⟨rfl, rfl, rfl, rfl, rfl⟩
      split
      · exact ⟨rfl, rfl, rfl, rfl, rfl⟩
      · refine Aside.trans ?_ (aside_beginVerify ..)
        exact ⟨rfl, rfl, rfl, rfl, rfl⟩
    | verify c r result origin =>
      simp only []
      unfold afterVerify
      cases hauth : s.auth.has c with
      | false =>
        refine .inl ⟨?_, ?_⟩
        · cases result with
          | error e => rfl
          | ok n => exact if_neg fun hall => Bool.false_ne_true (hauth ▸ hall.1)
        · rw [if_neg Bool.false_ne_true]
          exact ⟨rfl, rfl, rfl, rfl, rfl⟩
      | true =>
        simp only [if_true]
        cases result with
        | error e => exact .inl ⟨rfl, ⟨rfl, rfl, rfl, rfl, rfl⟩⟩
        | ok n =>
          simp only []
          cases hexpect : (s.states.get r).expectNodeId.any (fun e => decide (n ≠ e)) with
          | true =>
            refine .inl ⟨if_neg fun hall => Bool.false_ne_true hall.2.1.symm, ?_⟩
            rw [if_pos (by rw [Bool.true_or])]
            exact ⟨rfl, rfl, rfl, rfl, rfl⟩
          | false =>
            cases hallow : allowed n with
            | false =>
              refine .inl ⟨if_neg fun hall => Bool.false_ne_true hall.2.2, ?_⟩
              rw [if_pos (by rfl)]
              exact ⟨rfl, rfl, rfl, rfl, rfl⟩
            | true =>
              refine .inr ⟨c, r, n, origin, { s with
                tasks := s.tasks.delete k
                states := s.states.modify r fun st => { st with bound := true } },
                if_pos ⟨hauth, rfl, rfl⟩, ⟨rfl, rfl, rfl, rfl, rfl⟩, rfl, ?_⟩
              exact if_neg (by rintro ⟨⟩)

/-- Whether a connection may be bound depends on the bindings only. -/
theorem Aside.mayBind (h : s.Aside s') (hmay : s.MayBind c n) : s'.MayBind c n := by
  have hb : ∀ d m, s'.boundTo d m = s.boundTo d m := by
    intro d m
    unfold boundTo
    rw [h.conns, h.ws]
  have hl : ∀ m, s'.latest m = s.latest m := fun m => latest_congr h.order fun d => hb d m
  refine ⟨fun hc d => (hb d n).trans (hmay.up (by rw [← h.conns, hc]) d), ?_⟩
  intro m hm hlast d hd
  exact hmay.taken m hm ((hl m).symm.trans hlast) d ((hb d m).symm.trans hd)

theorem FollowsLive.resume (h : s.FollowsLive P) (hs : Handshakes P s) {k : Nat} {fails : Bool}
    (hin : s.InPlace allowed (.resume k fails)) :
    (s.resume P allowed k fails).FollowsLive P := by
  rcases resume_cases P allowed s k fails with
    ⟨-, haside⟩ | ⟨c, r, n, origin, w, hbinds, haside, htask, heq⟩
  · exact haside.followsLive h
  · obtain ⟨hr, hmay⟩ := hin c r n origin hbinds
    rw [heq]
    refine (haside.followsLive h).bindPeer (haside.mayBind hmay) fun i hi => ?_
    exact hs.verifiedOn htask hr (haside.conns ▸ hi)

/-! ### The step and the run -/

/-- Requests and answers change neither map. -/
theorem traffic_maps (w : WebSocket) (a : WebSocket.Act) :
    (traffic w a).connIdByNodeId = w.connIdByNodeId
      ∧ (traffic w a).nodeIdByConnId = w.nodeIdByConnId := by
  cases a with
  | send nodeId connOpen throws =>
    have heq : traffic w (.send nodeId connOpen throws) = w.send nodeId connOpen throws := rfl
    rw [heq]
    unfold WebSocket.send
    split
    · exact ⟨rfl, rfl⟩
    split
    · exact ⟨rfl, rfl⟩
    split
    · exact ⟨rfl, rfl⟩
    · exact ⟨rfl, rfl⟩
  | start | stop | bindPeer | unbindPeer | connClosed | closeConnection | timeout | message =>
    exact ⟨rfl, rfl⟩

/-- **The step.** -/
theorem FollowsLive.step (h : s.FollowsLive P) (hs : Handshakes P s) {a : Act}
    (hin : s.InPlace allowed a) : (s.step P allowed a).FollowsLive P := by
  cases a with
  | connect c => exact h.connect hin.1
  | closed c i => exact h.closed hin
  | closeConnection n => exact h.closeConnection hin
  | beginAuth c expect nonce throws => exact (aside_beginAuth s c expect nonce throws).followsLive h
  | hello c i body nonce throws => exact (aside_authOnHello s c i body nonce throws).followsLive h
  | sig c body nonce throws => exact (aside_authOnSig s c body nonce throws).followsLive h
  | resume k fails => exact h.resume hs hin
  | traffic a =>
    obtain ⟨hroute, hname⟩ := traffic_maps s.ws a
    exact h.congr hroute hname rfl rfl rfl rfl

end WsNode

/-- **The bindings follow the live connection** in every state of a run whose steps are all in their
place. -/
theorem follows_live (P : AuthPrimitives) (allowed : Text → Bool) (as : List WsNode.Act)
    (hrun : EachStep (WsNode.step P allowed) (WsNode.InPlace allowed) .init as) :
    EachStep (WsNode.step P allowed) (fun s a => (s.step P allowed a).FollowsLive P) .init as :=
  hrun.safety (I := fun s => s.FollowsLive P ∧ WsNode.Handshakes P s)
    (fun _ _ h hin => ⟨h.1.step h.2 hin, h.2.step hin⟩) (fun _ _ h hin => h.1.step h.2 hin)
    ⟨WsNode.followsLive_init, WsNode.handshakes_init⟩

/-- The node of key `b` proves itself on a connection. -/
def proven (c : ConnId) (i : Nat) : List WsNode.Act :=
  [.connect c, .hello c i (some ['p']) ['m'] false,
    .sig c (some (some (sampleHello 'b'))) ['m'] false]

/-- It does so, and its connection ends. -/
def comesAndGoes : List WsNode.Act := proven ['1'] 0 ++ [.resume 1 false, .closed ['1'] 0]

/-- A transport with the sample primitives and no allowlist. -/
abbrev sampleWs (as : List WsNode.Act) : WsNode :=
  run (WsNode.step sampleAuth fun _ => true) .init as

theorem follows_live_comesAndGoes : EachStep (WsNode.step sampleAuth fun _ => true)
    (fun s a => (s.step sampleAuth (fun _ => true) a).FollowsLive sampleAuth) .init
    comesAndGoes := by
  have hauth : (sampleWs (proven ['1'] 0)).auth.get ['1'] = some 0 := by decide +kernel
  have hbinding : ((sampleWs (proven ['1'] 0)).binding (fun _ => true) 1).map
      (fun b => (b.1, b.2.1)) = some (['1'], 0) := by decide +kernel
  have hup : (sampleWs (proven ['1'] 0)).conns.get ['1'] = some 0 := by decide +kernel
  have horder : (sampleWs (proven ['1'] 0)).order = [] := by decide +kernel
  set bound := (sampleWs (proven ['1'] 0)).step sampleAuth (fun _ => true) (.resume 1 false)
    with hbound
  have hopen : bound.conns.entries = [(['1'], 0)] := by decide +kernel
  refine follows_live sampleAuth (fun _ => true) comesAndGoes ((eachStep_append ..).mpr
    ⟨⟨⟨rfl, rfl⟩, by unfold WsNode.InPlace; decide +kernel, trivial, trivial⟩, fun c r n origin hb => ?_,
      fun n hn c hc => ?_, trivial⟩)
  · change (sampleWs (proven ['1'] 0)).binding (fun _ => true) 1 = _ at hb
    rw [hb] at hbinding
    cases hbinding
    refine ⟨hauth, fun hdown => ?_, fun m hm hlast => ?_⟩
    · change (sampleWs (proven ['1'] 0)).conns.get ['1'] = none at hdown
      rw [hup] at hdown
      cases hdown
    · change (sampleWs (proven ['1'] 0)).latest m = _ at hlast
      unfold WsNode.latest at hlast
      rw [horder] at hlast
      cases hlast
  · change bound.boundTo c n = true at hc
    have hhas := (WsNode.boundTo_iff.mp hc).1
    have hone : c = ['1'] := by
      rw [OrderedMap.has_iff_mem_keys, OrderedMap.keys, hopen] at hhas
      exact List.mem_singleton.mp hhas
    exact ⟨hone, by decide +kernel⟩

/-- It does so on two. -/
def bothProven : List WsNode.Act :=
  proven ['1'] 0 ++ proven ['2'] 1 ++ [.resume 1 false, .resume 3 false]

/-- And the older one ends. -/
def olderEnds : List WsNode.Act := bothProven ++ [.closed ['1'] 0]

/-- The check of a connection is under way when the connection ends, and goes on when the next one
of its name has begun. -/
def nameAgain : List WsNode.Act :=
  proven ['1'] 0 ++ [.closed ['1'] 0, .connect ['1'], .beginAuth ['1'] none ['n'] false,
    .resume 1 false]

/-- The node is reported dead and is routed no more, though it is bound on the newer connection; and
the next connection of a name is bound by the proof of the one before. -/
theorem older_connection_ends :
    ((sampleWs olderEnds).latest (sampleIdentity 'b').nodeId = some ['2']
      ∧ (sampleWs olderEnds).ws.connIdByNodeId.get (sampleIdentity 'b').nodeId = none
      ∧ (sampleWs olderEnds).deaths = [((sampleIdentity 'b').nodeId, true)])
    ∧ ((sampleWs nameAgain).boundTo ['1'] (sampleIdentity 'b').nodeId = true
      ∧ (sampleWs nameAgain).conns.get ['1'] = some 1
      ∧ (sampleWs nameAgain).proofs.map (fun p => (p.origin.mine, p.origin.peers))
        = [(some 0, some 0)])
    ∧ ¬ ∀ (P : AuthPrimitives) (allowed : Text → Bool) (as : List WsNode.Act),
      EachStep (WsNode.step P allowed) (fun s a => (s.step P allowed a).FollowsLive P) .init
        as := by
  have hlatest : (sampleWs olderEnds).latest (sampleIdentity 'b').nodeId = some ['2'] := by
    decide +kernel
  have hroute : (sampleWs olderEnds).ws.connIdByNodeId.get (sampleIdentity 'b').nodeId = none := by
    decide +kernel
  refine ⟨⟨hlatest, hroute, by decide +kernel⟩,
    ⟨by decide +kernel, by decide +kernel, by decide +kernel⟩, fun h => ?_⟩
  have hlast := ((eachStep_append _ _ bothProven [.closed ['1'] 0]).mp
    (h sampleAuth (fun _ => true) olderEnds)).2.1
  have hsplit : sampleWs olderEnds =
      WsNode.step sampleAuth (fun _ => true) (sampleWs bothProven) (.closed ['1'] 0) := by
    unfold sampleWs olderEnds
    rw [run_append, run_cons, run_nil]
  rw [hsplit] at hlatest hroute
  have hrouted := hlast.routed _ _ hlatest
  rw [hroute] at hrouted
  cases hrouted

end Axona
