import Axona.Safety.Mesh
import Axona.Transport.Capability

/-! # By whose key a capability is attested

A handshake binds a peer once, to the id whose proof was verified. The key that attestations are
checked with is read off the proof that is at hand when the check of the binding one ends, and that
need not be the one that was checked. -/

namespace Axona

open Library OrderedMap

namespace MeshNode

variable {P : AuthPrimitives} {allowed : Text → Bool} {s s' s'' : MeshNode} {r : Ref}

/-! ### A handshake binds once -/

/-- The checks under way and the handshakes they are of. -/
structure Orderly (s : MeshNode) : Prop where
  states : ∀ m r, s.states.get m = some r → r < s.handshakes.next
  tasks : ∀ k task, s.tasks.get k = some task → k < s.nextTask ∧ task.ref < s.handshakes.next
  /-- A check is of a handshake that waits for it. -/
  checks : ∀ k task, s.tasks.get k = some task → task.isVerify = true →
    (s.handshakes.get task.ref).verifying = true ∧ (s.handshakes.get task.ref).bound = false
  /-- And of no other check. -/
  alone : ∀ k k' task task', s.tasks.get k = some task → s.tasks.get k' = some task' →
    task.isVerify = true → task'.isVerify = true → task.ref = task'.ref → k = k'

/-- A handshake that is there stays, and stays bound. -/
structure Keeps (s s' : MeshNode) : Prop where
  next : s.handshakes.next ≤ s'.handshakes.next
  bound : ∀ r, (s.handshakes.get r).bound = true → r < s.handshakes.next →
    (s'.handshakes.get r).bound = true

/-- An orderly step. -/
structure Orders (s s' : MeshNode) : Prop extends s.Keeps s' where
  orderly : s'.Orderly

theorem Keeps.trans (h : s.Keeps s') (h' : s'.Keeps s'') : s.Keeps s'' :=
  ⟨h.next.trans h'.next, fun r hb hr => h'.bound r (h.bound r hb hr) (hr.trans_le h.next)⟩

theorem Orders.trans (h : s.Orders s') (h' : s'.Orders s'') : s.Orders s'' :=
  ⟨h.toKeeps.trans h'.toKeeps, h'.orderly⟩

theorem orderly_init : Orderly .init where
  states := by rintro m r ⟨⟩
  tasks := by rintro k task ⟨⟩
  checks := by rintro k task ⟨⟩
  alone := by rintro k k' task task' ⟨⟩

section

variable (h : s.Orderly)
include h

/-- What touches neither the handshakes nor the tasks. -/
theorem Orderly.aside (hh : s'.handshakes = s.handshakes)
    (ht : s'.tasks = s.tasks) (hn : s'.nextTask = s.nextTask)
    (hs : ∀ m r, s'.states.get m = some r → s.states.get m = some r) : s.Orders s' where
  next := hh ▸ le_rfl
  bound r hb _ := hh ▸ hb
  orderly :=
    ⟨fun m r hr => hh ▸ h.states m r (hs m r hr),
      fun k task hk => by
        rw [hh, hn]
        exact h.tasks k task (ht ▸ hk),
      fun k task hk => hh ▸ h.checks k task (ht ▸ hk),
      fun k k' task task' hk hk' => h.alone k k' task task' (ht ▸ hk) (ht ▸ hk')⟩

theorem Orderly.refl : s.Orders s := h.aside rfl rfl rfl fun _ _ hr => hr

/-- A handshake is changed, but not as to what it waits for. -/
theorem Orderly.modify (r : Ref) {f : AuthState → AuthState}
    (hv : (f (s.handshakes.get r)).verifying = (s.handshakes.get r).verifying)
    (hb : (f (s.handshakes.get r)).bound = (s.handshakes.get r).bound) :
    s.Orders { s with handshakes := s.handshakes.modify r f } := by
  have hsame : ∀ r', ((s.handshakes.modify r f).get r').verifying = (s.handshakes.get r').verifying
      ∧ ((s.handshakes.modify r f).get r').bound = (s.handshakes.get r').bound := by
    intro r'
    rw [Heap.get_modify]
    split
    next heq =>
      subst heq
      exact ⟨hv, hb⟩
    · exact ⟨rfl, rfl⟩
  refine ⟨⟨le_rfl, fun r' hb _ => (hsame r').2.trans hb⟩, h.states, h.tasks,
    fun k task hk hver => ?_,
    h.alone⟩
  obtain ⟨h₁, h₂⟩ := h.checks k task hk hver
  exact ⟨(hsame _).1.trans h₁, (hsame _).2.trans h₂⟩

theorem Orderly.retire (m : MeshId) (notifyLost : Bool) :
    s.Orders (s.retire m notifyLost) := by
  unfold MeshNode.retire
  split
  · exact h.refl
  split
  · refine h.aside rfl rfl rfl fun m' r hr => ?_
    replace hr : (s.states.delete m).get m' = some r := hr
    exact of_get_delete hr
  · exact h.aside rfl rfl rfl fun _ _ hr => hr

theorem Orderly.connect (m : MeshId) (offerer : Bool) :
    s.Orders (s.connect m offerer) := by
  unfold MeshNode.connect
  split
  · exact h.refl
  · exact h.aside rfl rfl rfl fun _ _ hr => hr

theorem Orderly.ensure (m : MeshId) (nonce : Text) :
    s.Orders (s.ensure m nonce).1 ∧ (s.ensure m nonce).2 <
      (s.ensure m nonce).1.handshakes.next := by
  unfold MeshNode.ensure
  split
  next r hr => exact ⟨h.refl, h.states m r hr⟩
  refine ⟨⟨⟨Nat.le_succ _, fun r hb hr => ?_⟩, ?_, ?_, ?_, h.alone⟩, Nat.lt_succ_self _⟩
  · exact (congrArg AuthState.bound (Heap.get_alloc_of_lt _ _ hr)).trans hb
  · intro m' r hr
    replace hr : (s.states.set m s.handshakes.next).get m' = some r := hr
    rw [get_set] at hr
    split at hr
    · exact Option.some.inj hr ▸ Nat.lt_succ_self _
    · exact (h.states m' r hr).trans (Nat.lt_succ_self _)
  · intro k task hk
    exact ⟨(h.tasks k task hk).1, (h.tasks k task hk).2.trans (Nat.lt_succ_self _)⟩
  · intro k task hk hver
    show ((s.handshakes.alloc _).1.get task.ref).verifying = true
      ∧ ((s.handshakes.alloc _).1.get task.ref).bound = false
    rw [Heap.get_alloc_of_lt _ _ (h.tasks k task hk).2]
    exact h.checks k task hk hver

/-- A task that is no check is added. -/
theorem Orderly.addBuild {m : MeshId} {cbv : Text} {origin : Origin}
    (hr : r < s.handshakes.next) : s.Orders (s.addTask (.build m r cbv origin)) := by
  have hold : ∀ k task, (s.addTask (.build m r cbv origin)).tasks.get k = some task →
      task.isVerify = true → s.tasks.get k = some task := by
    intro k task hk hver
    replace hk : (s.tasks.set s.nextTask (.build m r cbv origin)).get k = some task := hk
    rw [get_set] at hk
    split at hk
    · cases hk
      cases hver
    · exact hk
  refine ⟨⟨le_rfl, fun _ hb _ => hb⟩, h.states, fun k task hk => ?_, fun k task hk hver =>
    h.checks k task (hold k task hk hver) hver, fun k k' task task' hk hk' hv hv' =>
    h.alone k k' task task' (hold k task hk hv) (hold k' task' hk' hv') hv hv'⟩
  replace hk : (s.tasks.set s.nextTask (.build m r cbv origin)).get k = some task := hk
  rw [get_set] at hk
  split at hk
  next heq => exact ⟨heq ▸ Nat.lt_succ_self _, Option.some.inj hk ▸ hr⟩
  · exact ⟨(h.tasks k task hk).1.trans (Nat.lt_succ_self _), (h.tasks k task hk).2⟩

theorem Orderly.beginVerify {m : MeshId} {cbv : Text} {origin : Origin}
    (hr : r < s.handshakes.next) : s.Orders (s.beginVerify P m r cbv origin) := by
  unfold MeshNode.beginVerify
  simp only []
  split
  · exact h.refl
  next body hbody =>
  split
  · exact h.refl
  next hidle =>
  rw [Bool.or_eq_true, not_or] at hidle
  set task : MeshTask := .verify m r cbv (verifyAuthHello P body cbv) origin with htask
  set w := { s with
    handshakes := s.handshakes.put r { s.handshakes.get r with verifying := true } } with hw
  -- Nothing was under way for this handshake, or it would not be idle.
  have hothers : ∀ k t, s.tasks.get k = some t → t.isVerify = true → t.ref ≠ r := by
    rintro k t hk hver rfl
    exact hidle.1 (h.checks k t hk hver).1
  have hcases : ∀ k t, (w.addTask task).tasks.get k = some t →
      (k = s.nextTask ∧ t = task) ∨ (k ≠ s.nextTask ∧ s.tasks.get k = some t) := by
    intro k t hk
    replace hk : (s.tasks.set s.nextTask task).get k = some t := hk
    rw [get_set] at hk
    split at hk
    next heq => exact .inl ⟨heq, (Option.some.inj hk).symm⟩
    next hne => exact .inr ⟨hne, hk⟩
  refine ⟨⟨le_rfl, fun r' hb _ => ?_⟩, h.states, fun k t hk => ?_, fun k t hk hver => ?_,
    fun k k' t t' hk hk' hv hv' heq => ?_⟩
  · show ((s.handshakes.put r _).get r').bound = true
    rw [Heap.get_put]
    split
    next heq => exact heq ▸ hb
    · exact hb
  · obtain ⟨rfl, rfl⟩ | ⟨-, hold⟩ := hcases k t hk
    · exact ⟨Nat.lt_succ_self _, hr⟩
    · exact ⟨(h.tasks k t hold).1.trans (Nat.lt_succ_self _), (h.tasks k t hold).2⟩
  · show ((s.handshakes.put r _).get t.ref).verifying = true
      ∧ ((s.handshakes.put r _).get t.ref).bound = false
    obtain ⟨-, rfl⟩ | ⟨-, hold⟩ := hcases k t hk
    · show ((s.handshakes.put r _).get r).verifying = true
        ∧ ((s.handshakes.put r _).get r).bound = false
      rw [Heap.get_put_self]
      exact ⟨rfl, Bool.not_eq_true _ ▸ hidle.2⟩
    · rw [Heap.get_put_of_ne _ _ (hothers k t hold hver)]
      exact h.checks k t hold hver
  · obtain ⟨rfl, rfl⟩ | ⟨-, hold⟩ := hcases k t hk
    · obtain ⟨rfl, -⟩ | ⟨-, hold'⟩ := hcases k' t' hk'
      · rfl
      · exact absurd heq.symm (hothers k' t' hold' hv')
    · obtain ⟨-, rfl⟩ | ⟨-, hold'⟩ := hcases k' t' hk'
      · exact absurd heq (hothers k t hold hv)
      · exact h.alone k k' t t' hold hold' hv hv' heq

theorem Orderly.progress (m : MeshId) : s.Orders (s.progress P m) := by
  unfold MeshNode.progress
  split
  · exact h.refl
  next r hr =>
  simp only []
  split
  · exact h.refl
  split
  · exact h.refl
  next cbv origin _ =>
  split
  · exact h.beginVerify (h.states m r hr)
  · have hput := h.modify r (f := fun st => { st with sigSent := true }) rfl rfl
    exact hput.trans (hput.orderly.addBuild (h.states m r hr))

theorem Orderly.onMessage (inc : Inc) (frame : MeshFrame) (nonce : Text) :
    s.Orders (s.onMessage P inc frame nonce) := by
  unfold MeshNode.onMessage
  split
  · split
    · exact h.refl
    next m _ =>
    split
    · exact h.refl
    cases frame with
    | hello peerNonce =>
      show s.Orders (s.onHello P m inc peerNonce nonce)
      unfold MeshNode.onHello
      split
      · exact h.refl
      next n =>
      have hens := (h.ensure m nonce).1
      have hmod := hens.orderly.modify (s.ensure m nonce).2
        (f := fun st => { st with peerNonce := some n, heardOn := some inc }) rfl rfl
      exact (hens.trans hmod).trans (hmod.orderly.progress m)
    | helloSig body =>
      unfold MeshNode.onHelloSig
      have hens := (h.ensure m nonce).1
      have hmod := hens.orderly.modify (s.ensure m nonce).2
        (f := fun st => { st with
          pendingSig := body
          peerNodeId := (body.join.bind (·.nodeId)).or st.peerNodeId }) rfl rfl
      exact (hens.trans hmod).trans (hmod.orderly.progress m)
    | other => exact h.refl
  · exact h.refl

/-- A task is taken up. -/
theorem Orderly.endTask (k : Nat) :
    s.Orders { s with tasks := s.tasks.delete k } := by
  have hold : ∀ k' task, (s.tasks.delete k).get k' = some task → s.tasks.get k' = some task := by
    intro k' task hk'
    exact of_get_delete hk'
  exact ⟨⟨le_rfl, fun _ hb _ => hb⟩, h.states, fun k' task hk' => h.tasks k' task
    (hold k' task hk'),
    fun k' task hk' => h.checks k' task (hold k' task hk'),
    fun k₁ k₂ task task' hk₁ hk₂ => h.alone k₁ k₂ task task' (hold k₁ task hk₁) (hold k₂ task' hk₂)⟩

/-- A handshake that nothing waits for any more is settled. -/
theorem Orderly.settle {f : AuthState → AuthState}
    (hnone : ∀ k task, s.tasks.get k = some task → task.isVerify = true → task.ref ≠ r)
    (hb : (s.handshakes.get r).bound = true → (f (s.handshakes.get r)).bound = true) :
    s.Orders { s with handshakes := s.handshakes.modify r f } := by
  refine ⟨⟨le_rfl, fun r' hb' _ => ?_⟩, h.states, h.tasks, fun k task hk hver => ?_, h.alone⟩
  · rw [Heap.get_modify]
    split
    next heq => exact hb (heq ▸ hb')
    · exact hb'
  · show ((s.handshakes.modify r f).get task.ref).verifying = true
      ∧ ((s.handshakes.modify r f).get task.ref).bound = false
    rw [Heap.get_modify_of_ne _ _ (hnone k task hk hver)]
    exact h.checks k task hk hver

theorem Orderly.bindPeer (nodeId : NodeId) (m : MeshId) (key : Text) :
    s.Orders (s.bindPeer nodeId m key) := by
  unfold MeshNode.bindPeer
  have hw : s.Orders { s with webrtc := s.webrtc.bindPeer nodeId m (some key) } :=
    h.aside rfl rfl rfl fun _ _ hr => hr
  split
  · exact hw
  · exact hw.trans (hw.orderly.retire _ true)

end

theorem tasks_bindPeer (s : MeshNode) (nodeId : NodeId) (m : MeshId) (key : Text) :
    (s.bindPeer nodeId m key).tasks = s.tasks := by
  unfold MeshNode.bindPeer MeshNode.retire
  simp only []
  split
  · rfl
  split
  · rfl
  · split <;> rfl

theorem handshakes_bindPeer (s : MeshNode) (nodeId : NodeId) (m : MeshId) (key : Text) :
    (s.bindPeer nodeId m key).handshakes = s.handshakes := by
  unfold MeshNode.bindPeer MeshNode.retire
  simp only []
  split
  · rfl
  split
  · rfl
  · split <;> rfl

theorem Orderly.afterVerify (h : s.Orderly) {m : MeshId} {result : Except AuthFailure Text}
    {origin : Origin}
    (hnone : ∀ k task, s.tasks.get k = some task → task.isVerify = true → task.ref ≠ r) :
    s.Orders (s.afterVerify allowed m r result origin) := by
  unfold MeshNode.afterVerify
  simp only []
  split
  · exact h.settle hnone id
  next nodeId =>
  have hp : s.Orders { s with proofs := (hexValue nodeId, origin) :: s.proofs } :=
    h.aside rfl rfl rfl fun _ _ hr => hr
  split
  · have hb : s.Orders { s with
        proofs := (hexValue nodeId, origin) :: s.proofs
        binds := (origin.fingerprints, s.current m) :: s.binds } :=
      h.aside rfl rfl rfl fun _ _ hr => hr
    refine (hb.trans (hb.orderly.bindPeer (hexValue nodeId) m _)).trans
      ((hb.orderly.bindPeer _ m _).orderly.settle (fun k task hk => ?_) fun _ => rfl)
    rw [tasks_bindPeer] at hk
    exact hnone k task hk
  · exact hp.trans (hp.orderly.settle hnone id)

theorem Orderly.resume (h : s.Orderly) (k : Nat) : s.Orders (s.resume P allowed k) := by
  unfold MeshNode.resume
  split
  · exact h.refl
  next task hk =>
  have hend := h.endTask k
  obtain ⟨-, hr⟩ := h.tasks k task hk
  cases task with
  | build m r cbv origin => exact hend.trans (hend.orderly.beginVerify hr)
  | verify m r cbv result origin =>
    refine hend.trans (hend.orderly.afterVerify fun j task hj hver heq => ?_)
    have hne := ne_of_get_delete hj
    exact hne (h.alone j k _ _ (of_get_delete hj) hk hver rfl heq)

/-- **The step.** -/
theorem Orderly.step (h : s.Orderly) (a : Act) : s.Orders (s.step P allowed a) := by
  cases a with
  | connect m offerer => exact h.connect m offerer
  | describe m fps =>
    show s.Orders (s.describe m fps)
    unfold describe
    split
    · exact h.refl
    · exact h.aside rfl rfl rfl fun _ _ hr => hr
  | «open» m =>
    show s.Orders (s.onOpen m)
    unfold onOpen
    split
    · exact h.refl
    · exact h.aside rfl rfl rfl fun _ _ hr => hr
  | notice m nonce =>
    rw [MeshNode.step]
    split
    · exact (h.ensure m nonce).1
    · exact h.refl
  | failed m overdue =>
    show s.Orders (s.scheduleRetry m overdue)
    unfold scheduleRetry
    split
    · exact h.refl
    split
    · exact h.refl
    · exact h.aside rfl rfl rfl fun _ _ hr => hr
  | retry m refused =>
    show s.Orders (s.retry m refused)
    unfold MeshNode.retry
    split
    · exact h.refl
    split
    · have hret := h.retire m false
      split
      · exact hret
      · exact hret.trans (hret.orderly.connect m true)
    · exact h.refl
  | replaceAttempt m =>
    show s.Orders (s.replaceAttempt m)
    unfold MeshNode.replaceAttempt
    split
    · exact h.refl
    split
    · exact h.refl
    · exact (h.retire m false).trans ((h.retire m false).orderly.connect m false)
  | retire m => exact h.retire m true
  | closed inc | start | stop => exact h.aside rfl rfl rfl fun _ _ hr => hr
  | closeConnection nodeId =>
    rw [MeshNode.step]
    split
    · exact h.refl
    split
    · exact h.refl
    have hw : s.Orders { s with webrtc := s.webrtc.closeConnection nodeId } :=
      h.aside rfl rfl rfl fun _ _ hr => hr
    exact hw.trans (hw.orderly.retire _ true)
  | message inc frame nonce => exact h.onMessage inc frame nonce
  | resume k => exact h.resume k

/-- A binding is of a handshake that was not bound. -/
theorem Orderly.open_of_binding (h : s.Orderly) {a : Act} {nodeId cbv : Text}
    (hbind : s.binding allowed a = some (r, nodeId, cbv)) :
    (s.handshakes.get r).bound = false ∧ r < s.handshakes.next := by
  unfold MeshNode.binding at hbind
  split at hbind
  next k =>
    split at hbind
    next m r' cbv' nodeId' origin hk =>
      split at hbind
      · cases Option.some.inj hbind
        exact ⟨(h.checks k _ hk rfl).2, (h.tasks k _ hk).2⟩
      · cases hbind
    · cases hbind
  · cases hbind

/-- After which it is. -/
theorem bound_of_binding {a : Act} {nodeId cbv : Text}
    (hbind : s.binding allowed a = some (r, nodeId, cbv)) :
    ((s.step P allowed a).handshakes.get r).bound = true
      ∧ ((s.step P allowed a).handshakes.get r).shownKey = (s.handshakes.get r).shownKey := by
  unfold MeshNode.binding at hbind
  split at hbind
  next k =>
    split at hbind
    next m r' cbv' nodeId' origin hk =>
      split at hbind
      next haccept =>
        obtain ⟨rfl, -⟩ := Prod.mk.inj (Option.some.inj hbind)
        show ((s.resume P allowed k).handshakes.get r').bound = true
          ∧ ((s.resume P allowed k).handshakes.get r').shownKey = _
        unfold MeshNode.resume
        rw [hk]
        unfold MeshNode.afterVerify
        simp only []
        rw [if_pos haccept, Heap.get_modify_self]
        refine ⟨rfl, ?_⟩
        unfold AuthState.shownKey
        rw [handshakes_bindPeer]
      · cases hbind
    · cases hbind
  · cases hbind

end MeshNode

namespace CapNode

variable {P : CapPrimitives} {allowed : Text → Bool} {s : CapNode} {r : Ref}

/-! ### The property and the condition -/

/-- The key is that of the node a handshake was bound to, and the value kept is the one that was
proven over. -/
def Owned (P : CapPrimitives) (c : CapState) (key : List Nat) : Prop :=
  ∃ nodeId, c.proven = some (nodeId, c.cbv.getD [])
    ∧ pubkeyMatchesNodeId P.toAuthPrimitives key nodeId = true

/-- An attestation over the value of the channel passed the check with that key. -/
def Attested (P : CapPrimitives) (c : CapState) : Prop :=
  ∃ key nodeId transcript sig, Owned P c key
    ∧ capTranscript P nodeId (c.cbv.getD []) = .ok transcript
    ∧ P.verifyBytes key transcript sig = some true

/-- **Capability is attested by the authenticated key**: no other key is at hand to check an
attestation with, and whoever is marked, or will be by a check under way, has attested it by that
key. -/
structure ByTheOwner (P : CapPrimitives) (s : CapNode) : Prop where
  key : ∀ r t key, (s.caps.get r).peerPubkey = some t → hexOfWidth 32 t = some key →
    Owned P (s.caps.get r) key
  checks : ∀ k check nodeId, s.checks.get k = some check → check.result = .ok nodeId →
    Attested P (s.caps.get check.st)
  capable : ∀ r, (s.caps.get r).capable = true → Attested P (s.caps.get r)

/-- **The condition.** When the check of a proof ends and binds, the proof that is at hand by then
shows a key of the id that was proven, if it shows one. -/
def SameKey (P : CapPrimitives) (allowed : Text → Bool) (s : CapNode) : Act → Prop
  | .mesh a => ∀ r nodeId cbv t key, s.mesh.binding allowed a = some (r, nodeId, cbv) →
      (s.mesh.handshakes.get r).shownKey = some t → hexOfWidth 32 t = some key →
      pubkeyMatchesNodeId P.toAuthPrimitives key nodeId = true
  | _ => True

/-- What every run keeps. -/
structure Orderly (s : CapNode) : Prop where
  mesh : s.mesh.Orderly
  /-- Only a handshake that is bound has been proven. -/
  proven : ∀ r, (s.caps.get r).proven.isSome = true →
    (s.mesh.handshakes.get r).bound = true ∧ r < s.mesh.handshakes.next

theorem orderly_init : Orderly .init := ⟨MeshNode.orderly_init, by rintro r ⟨⟩⟩

theorem byTheOwner_init : ByTheOwner P .init where
  key := by rintro r t key ⟨⟩
  checks := by rintro k check nodeId ⟨⟩
  capable := by rintro r ⟨⟩

/-! ### The checks of attestations -/

theorem mesh_verifyCap (body : Option (Option CapFrame)) :
    (s.verifyCap P r body).mesh = s.mesh ∧ (s.verifyCap P r body).caps = s.caps := by
  unfold verifyCap
  simp only []
  split
  · exact ⟨rfl, rfl⟩
  · split <;> exact ⟨rfl, rfl⟩

/-- A check begins with the key that is kept. -/
theorem ByTheOwner.verifyCap (h : ByTheOwner P s) (body : Option (Option CapFrame)) :
    ByTheOwner P (s.verifyCap P r body) := by
  unfold CapNode.verifyCap
  simp only []
  split
  · exact h
  split
  · exact h
  next key hkey =>
  obtain ⟨t, ht, hwidth⟩ := Option.bind_eq_some_iff.mp hkey
  refine ⟨h.key, fun k check nodeId hk hok => ?_, h.capable⟩
  replace hk : (s.checks.set s.nextCheck _).get k = some check := hk
  rw [get_set] at hk
  split at hk
  · cases hk
    obtain ⟨transcript, sig, htranscript, hverify⟩ := of_verifyCapAttest hok
    exact ⟨key, _, transcript, sig, h.key r t key ht hwidth, htranscript, hverify⟩
  · exact h.checks k check nodeId hk hok

/-- The mesh goes on, and what the handshakes keep is unchanged. -/
theorem Orderly.ofMesh (h : s.Orderly) {mesh : MeshNode} (hm : s.mesh.Orders mesh) :
    Orderly { s with mesh := mesh } where
  mesh := hm.orderly
  proven r hr := ⟨hm.bound r (h.proven r hr).1 (h.proven r hr).2,
    (h.proven r hr).2.trans_le hm.next⟩

theorem ByTheOwner.modify (h : ByTheOwner P s) (r : Ref) {f : CapState → CapState}
    (hkey : (f (s.caps.get r)).peerPubkey = (s.caps.get r).peerPubkey)
    (hcbv : (f (s.caps.get r)).cbv = (s.caps.get r).cbv)
    (hproven : (f (s.caps.get r)).proven = (s.caps.get r).proven)
    (hcapable : (f (s.caps.get r)).capable = true → Attested P (s.caps.get r)) :
    ByTheOwner P { s with caps := s.caps.modify r f } := by
  have howned : ∀ r' key, Owned P (s.caps.get r') key → Owned P
    ((s.caps.modify r f).get r') key := by
    intro r' key hown
    rw [Heap.get_modify]
    split
    next heq =>
      subst heq
      unfold Owned
      rw [hproven, hcbv]
      exact hown
    · exact hown
  have hattested : ∀ r', Attested P (s.caps.get r') → Attested P ((s.caps.modify r f).get r') := by
    rintro r' ⟨key, nodeId, transcript, sig, hown, htranscript, hverify⟩
    refine ⟨key, nodeId, transcript, sig, howned r' key hown, ?_, hverify⟩
    rw [Heap.get_modify]
    split
    next heq =>
      subst heq
      rw [hcbv]
      exact htranscript
    · exact htranscript
  refine ⟨fun r' t key ht hwidth => howned r' key ?_,
    fun k check nodeId hk hok => hattested _ (h.checks k check nodeId hk hok), fun r' hr' => ?_⟩
  · replace ht : ((s.caps.modify r f).get r').peerPubkey = some t := ht
    rw [Heap.get_modify] at ht
    split at ht
    next heq => exact h.key r' t key (heq ▸ hkey ▸ ht) hwidth
    · exact h.key r' t key ht hwidth
  · refine hattested r' ?_
    replace hr' : ((s.caps.modify r f).get r').capable = true := hr'
    rw [Heap.get_modify] at hr'
    split at hr'
    next heq => exact heq ▸ hcapable hr'
    · exact h.capable r' hr'

/-! ### The binding -/

theorem caps_onBound (nodeId cbv : Text) : (s.onBound P r nodeId cbv).mesh = s.mesh
      ∧ (s.onBound P r nodeId cbv).caps = s.caps.modify r fun c =>
        c.settle (s.mesh.handshakes.get r).shownKey nodeId cbv := by
  unfold onBound
  simp only []
  split
  · exact mesh_verifyCap _
  · exact ⟨rfl, rfl⟩

theorem Orderly.onBound (h : s.Orderly) (nodeId cbv : Text)
    (hb : (s.mesh.handshakes.get r).bound = true) (hr : r < s.mesh.handshakes.next) :
    Orderly (s.onBound P r nodeId cbv) := by
  obtain ⟨hmesh, hcaps⟩ := caps_onBound (P := P) (s := s) (r := r) nodeId cbv
  refine ⟨hmesh ▸ h.mesh, fun r' hr' => ?_⟩
  rw [hmesh]
  rw [hcaps, Heap.get_modify] at hr'
  split at hr'
  next heq => exact heq ▸ ⟨hb, hr⟩
  · exact h.proven r' hr'

/-- **A handshake that was never proven is bound**: it is by the owner exactly if the key shown is
the one of the id. -/
theorem onBound_iff (h : ByTheOwner P s) (nodeId cbv : Text) (hnew : (s.caps.get r).proven = none) :
    ByTheOwner P (s.onBound P r nodeId cbv) ↔
      ∀ t key, (s.mesh.handshakes.get r).shownKey = some t → hexOfWidth 32 t = some key →
        pubkeyMatchesNodeId P.toAuthPrimitives key nodeId = true := by
  constructor
  · intro hnext t key ht hwidth
    obtain ⟨-, hcaps⟩ := caps_onBound (P := P) (s := s) (r := r) nodeId cbv
    have hown := hnext.key r t key
    rw [hcaps, Heap.get_modify_self] at hown
    obtain ⟨nodeId', heq, hmatch⟩ := hown ht hwidth
    cases Option.some.inj heq
    exact hmatch
  · intro hkey
    -- Nothing was attested under this handshake before.
    have hnone : ¬Attested P (s.caps.get r) := by
      rintro ⟨key, nodeId', transcript, sig, ⟨n, hn, -⟩, -⟩
      rw [hnew] at hn
      cases hn
    set f : CapState → CapState := fun c =>
      c.settle (s.mesh.handshakes.get r).shownKey nodeId cbv with hf
    have hset : ByTheOwner P { s with caps := s.caps.modify r f } := by
      refine ⟨fun r' t key ht hwidth => ?_, fun k check n hk hok => ?_, fun r' hr' => ?_⟩
      · replace ht : ((s.caps.modify r f).get r').peerPubkey = some t := ht
        rw [Heap.get_modify] at ht ⊢
        split at ht
        next heq =>
          rw [if_pos heq]
          exact ⟨nodeId, rfl, hkey t key ht hwidth⟩
        next hne =>
          rw [if_neg hne]
          exact h.key r' t key ht hwidth
      · have hold := h.checks k check n hk hok
        have hne : check.st ≠ r := fun heq => hnone (by rwa [heq] at hold)
        rw [Heap.get_modify_of_ne _ _ hne]
        exact hold
      · replace hr' : ((s.caps.modify r f).get r').capable = true := hr'
        rw [Heap.get_modify] at hr' ⊢
        split at hr'
        next heq => exact absurd (h.capable r hr') hnone
        next hne =>
          rw [if_neg hne]
          exact h.capable r' hr'
    unfold onBound
    simp only []
    split
    · exact hset.verifyCap _
    · exact hset

/-! ### The step -/

/-- What is kept of the handshakes' proofs is unchanged. -/
theorem Orderly.ofCaps (h : s.Orderly) {s' : CapNode} (hmesh : s'.mesh = s.mesh)
    (hproven : ∀ r, (s'.caps.get r).proven = (s.caps.get r).proven) : s'.Orderly where
  mesh := hmesh ▸ h.mesh
  proven r hr := by
    rw [hmesh]
    exact h.proven r (hproven r ▸ hr)

theorem Orderly.modify (h : s.Orderly) (r : Ref) {f : CapState → CapState}
    (hf : ∀ c, (f c).proven = c.proven) : Orderly { s with caps := s.caps.modify r f } := by
  refine h.ofCaps rfl fun r' => ?_
  rw [Heap.get_modify]
  split
  next heq => exact heq ▸ hf _
  · rfl

theorem Orderly.onCapAttest (h : s.Orderly) (m : MeshId) (body : Option (Option CapFrame)) :
    Orderly (s.onCapAttest P m body) := by
  unfold CapNode.onCapAttest
  split
  · exact h
  next r _ =>
  simp only []
  split
  · exact h.modify r fun _ => rfl
  · obtain ⟨hmesh, hcaps⟩ := mesh_verifyCap (P := P) (s := s) (r := r) body
    exact h.ofCaps hmesh fun r' => hcaps ▸ rfl

theorem ByTheOwner.onCapAttest (h : ByTheOwner P s) (m : MeshId)
    (body : Option (Option CapFrame)) : ByTheOwner P (s.onCapAttest P m body) := by
  unfold CapNode.onCapAttest
  split
  · exact h
  next r _ =>
  simp only []
  split
  · exact h.modify r rfl rfl rfl fun hc => h.capable r hc
  · exact h.verifyCap body

/-- **The step.** -/
theorem Orderly.step (h : s.Orderly) (a : Act) : Orderly (s.step P allowed a) := by
  cases a with
  | mesh a =>
    have hstep : s.mesh.Orders (s.mesh.step P.toAuthPrimitives allowed a) := h.mesh.step a
    rw [CapNode.step]
    split
    · exact h.ofMesh hstep
    next r nodeId cbv hbind =>
    have hr := (h.mesh.open_of_binding hbind).2
    exact (h.ofMesh hstep).onBound nodeId cbv (MeshNode.bound_of_binding hbind).1
      (hr.trans_le hstep.next)
  | capAttest inc body =>
    rw [CapNode.step]
    split
    · exact h
    next m _ => exact h.onCapAttest m body
  | checked k =>
    rw [CapNode.step]
    split
    · exact h
    next check _ =>
    split
    · exact h.ofCaps rfl fun _ => rfl
    · have hend : Orderly { s with checks := s.checks.delete k } := h.ofCaps rfl fun _ => rfl
      exact hend.modify check.st fun _ => rfl

/-- The end of a check. -/
theorem ByTheOwner.checked (h : ByTheOwner P s) (k : Nat) :
    ByTheOwner P (s.step P allowed (.checked k)) := by
  rw [CapNode.step]
  split
  · exact h
  next check hk =>
  have hend : ByTheOwner P { s with checks := s.checks.delete k } := by
    refine ⟨h.key, fun k' check' nodeId hk' hok => ?_, h.capable⟩
    replace hk' : (s.checks.delete k).get k' = some check' := hk'
    exact h.checks k' check' nodeId (of_get_delete hk') hok
  split
  · exact hend
  next nodeId hok => exact hend.modify check.st rfl rfl rfl fun _ => h.checks k check nodeId hk hok

/-- **What a step does to whose key it is.** -/
theorem step_iff (h : s.Orderly) (hown : ByTheOwner P s) (a : Act) :
    ByTheOwner P (s.step P allowed a) ↔ SameKey P allowed s a := by
  cases a with
  | mesh a =>
    have hnext : ByTheOwner P { s with mesh := s.mesh.step P.toAuthPrimitives allowed a } :=
      ⟨hown.key, hown.checks, hown.capable⟩
    rw [CapNode.step]
    split
    next hbind =>
      refine iff_of_true hnext fun r nodeId cbv t key hsome => ?_
      rw [hbind] at hsome
      cases hsome
    next r nodeId cbv hbind =>
    have hnew : (s.caps.get r).proven = none := by
      by_contra hsome
      have hbound := (h.proven r (Option.isSome_iff_ne_none.mpr hsome)).1
      rw [(h.mesh.open_of_binding hbind).1] at hbound
      cases hbound
    rw [onBound_iff hnext nodeId cbv hnew]
    show (∀ t key, ((s.mesh.step P.toAuthPrimitives allowed a).handshakes.get r).shownKey = some t →
      _ → _) ↔ _
    rw [(MeshNode.bound_of_binding hbind).2]
    constructor
    · intro hkey r' nodeId' cbv' t key hbind' ht hwidth
      rw [hbind] at hbind'
      obtain ⟨rfl, hrest⟩ := Prod.mk.inj (Option.some.inj hbind')
      cases hrest
      exact hkey t key ht hwidth
    · exact fun hkey t key => hkey r nodeId cbv t key hbind
  | capAttest inc body =>
    refine iff_of_true ?_ trivial
    rw [CapNode.step]
    split
    · exact hown
    next m _ => exact hown.onCapAttest m body
  | checked k => exact iff_of_true (hown.checked k) trivial

end CapNode

/-! ### Over whole runs -/

/-- **Whose key attests a capability.** In every state of a run whoever is marked capable has been
by the key of the node it was bound to, over the value of the channel it was proven on, and no other
key is at hand, exactly if no check of a proof ends in a binding when the proof at hand shows a key
of another node. -/
theorem attested_by_owner_iff (P : CapPrimitives) (allowed : Text → Bool)
    (as : List CapNode.Act) :
    EachStep (CapNode.step P allowed) (fun s a => CapNode.ByTheOwner P (s.step P allowed a)) .init
        as ↔
      EachStep (CapNode.step P allowed) (CapNode.SameKey P allowed) .init as :=
  EachStep.keeps_iff (P := CapNode.ByTheOwner P) (fun _ a h => h.step a)
    (fun _ a h hown => CapNode.step_iff h hown a) CapNode.orderly_init CapNode.byTheOwner_init as

/-- Signatures as in `sampleAuth`; the digest of a value is not looked at. -/
def sampleCap : CapPrimitives where
  toAuthPrimitives := sampleAuth
  cbvDigest _ := List.replicate 32 0
  verifyBytes key _ sig := some (decide (sig = key ++ key))

/-- A proof that only shows a key. -/
def bareKey (digit : Char) : Hello := ⟨none, none, some (sampleIdentity digit).pubkey, none, none⟩

/-- An attestation in the name of one node, signed by another. -/
def signedFor (node signer : Char) : CapFrame :=
  ⟨some writeFlightAckV1, some (sampleIdentity node).nodeId, List.replicate 128 signer⟩

/-- While the proof of a node is checked another one comes in that shows another key, and then an
attestation signed by that key. -/
def substituted : List CapNode.Act :=
  [.mesh .start, .mesh (.connect ['m'] true), .mesh (.describe ['m'] (['f'], ['g'])),
    .mesh (.open ['m']), .mesh (.notice ['m'] ['x']), .mesh (.message 0 (.hello (some ['y'])) []),
    .mesh (.message 0 (.helloSig (some (some (sampleHello 'b')))) []), .mesh (.resume 0),
    .mesh (.message 0 (.helloSig (some (some (bareKey 'c')))) []), .mesh (.resume 1),
    .capAttest 0 (some (some (signedFor 'b' 'c')))]

/-- **A key that no proof was checked with attests the capability.** -/
theorem attested_by_another :
    (run (CapNode.step sampleCap fun _ => true) .init
        (substituted ++ [.checked 0])).isCapable ['m'] = true
      ∧ ¬EachStep (CapNode.step sampleCap fun _ => true)
        (fun s a => CapNode.ByTheOwner sampleCap (s.step sampleCap (fun _ => true) a)) .init
        (substituted ++ [.checked 0]) := by
  refine ⟨by decide +kernel, fun h => ?_⟩
  have hlast := ((eachStep_append ..).mp h).2.1
  set s := (run (CapNode.step sampleCap fun _ => true) .init substituted).step sampleCap
    (fun _ => true) (.checked 0) with hs
  have hkey : (s.caps.get 0).peerPubkey = some (sampleIdentity 'c').pubkey := by decide +kernel
  have hproven : (s.caps.get 0).proven.map Prod.fst = some (sampleIdentity 'b').nodeId := by
    decide +kernel
  obtain ⟨nodeId, hnode, hmatch⟩ := hlast.key 0 _ (hexBytes (sampleIdentity 'c').pubkey) hkey
    (by decide +kernel)
  rw [hnode] at hproven
  obtain rfl := Option.some.inj hproven
  have hno : pubkeyMatchesNodeId sampleAuth (hexBytes (sampleIdentity 'c').pubkey)
    (sampleIdentity 'b').nodeId = false := by decide +kernel
  exact absurd hmatch (Bool.not_eq_true _ ▸ hno)

end Axona
