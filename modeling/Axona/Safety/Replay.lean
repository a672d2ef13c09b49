import Axona.Library.Transition
import Axona.Transport.Bridge

/-! # Whose hello binds a bridge

A hello is to be good on the connection it was signed for and on no other. Its signature covers
the channel binding value of the link, so the question is whose value that is: on the link to a
bridge both its parts come from the welcome, and whoever sends the welcome chooses them. Where no
two connections are greeted alike, the value tells one from the other. -/

namespace Axona

open Library OrderedMap

/-- The signature is one of the owner of node `N`, made for the connection `σ`. -/
structure Signing.Proves (P : AuthPrimitives) (e : Signing) (N : NodeId) (σ : Session) : Prop where
  nodeId : hexValue e.transcript.nodeId = N
  key : pubkeyMatchesNodeId P e.key e.transcript.nodeId = true
  session : e.session = σ

namespace Links

/-- **Every binding was signed for its own connection**: that of the client to a bridge, and that
of a bridge to the client. -/
structure Proven (P : AuthPrimitives) (s : Links) : Prop where
  client : ∀ σ N, s.client.socket = some σ → s.client.bridgeNodeId = some N →
    ∃ e ∈ s.signed, e.Proves P N σ
  bridge : ∀ σ N, s.admitted.get σ = some N → ∃ e ∈ s.signed, e.Proves P N σ

/-- Whoever checks a hello finds a signature that passes only where the owner of the key made it. -/
def Signed (P : AuthPrimitives) (s : Links) (frame : Option Hello) (w : Welcome) : Prop :=
  ∀ f ∈ frame, ∀ sig, P.verify f.key (f.transcript w.cbv) sig = some true →
    ∃ e ∈ s.signed, e.key = f.key ∧ e.transcript = f.transcript w.cbv

/-- **Signatures are not forged**, and a key is signed with for a connection under a welcome of that
connection. -/
def Unforged (P : AuthPrimitives) (s : Links) : Act → Prop
  | .hello _ frame => ∀ w ∈ s.client.welcome, s.Signed P frame w
  | .ack _ w frame => s.Signed P frame w
  | .sign e => (e.session, e.welcome) ∈ s.welcomed
  | _ => True

/-- No other connection was greeted with the two texts of this welcome. -/
def Unshared (s : Links) (σ : Session) (w : Welcome) : Prop :=
  w.Plain ∧ ∀ p ∈ s.welcomed, w.Same p.2 → p.1 = σ

/-- A check of a hello has begun on a connection and has not ended. -/
def Checking (s : Links) : Prop :=
  ∃ k label w result σ, s.client.tasks.get k = some (.verify label w result σ)

/-- **The condition.** When a hello or an ack comes in, no other connection was greeted as this one
was; and no check is under way when the socket closes. -/
def Fresh (s : Links) : Act → Prop
  | .hello _ _ => ∀ σ ∈ s.client.socket, ∀ w ∈ s.client.welcome, s.Unshared σ w
  | .ack σ w _ => s.Unshared σ w
  | .close => ¬s.Checking
  | _ => True

/-- What the run keeps. -/
structure Attested (P : AuthPrimitives) (s : Links) : Prop extends s.Proven P where
  /-- A check was begun on the connection that is open, and what it will say is proven. -/
  checks : ∀ k label w result σ, s.client.tasks.get k = some (.verify label w result σ) →
    s.client.socket = some σ ∧ (σ, w) ∈ s.welcomed ∧ ∀ nodeId, result = .ok nodeId →
      ∃ e ∈ s.signed, e.Proves P (hexValue nodeId) σ
  /-- An ack goes out under a welcome of its connection. -/
  replies : ∀ k nodeId w σ, s.client.tasks.get k = some (.reply nodeId w σ) → (σ, w) ∈ s.welcomed
  /-- Without a socket nothing is bound, and there is no nonce. -/
  closed : s.client.socket = none →
    s.client.bridgeNodeId = none ∧ s.client.bridgeServerNonce = none
  /-- The welcome in force is noted. -/
  held : ∀ σ w, s.client.socket = some σ → s.client.welcome = some w → (σ, w) ∈ s.welcomed
  /-- Signatures are under a welcome of their connection. -/
  signings : ∀ e ∈ s.signed, (e.session, e.welcome) ∈ s.welcomed
  /-- The tasks have the numbers given out. -/
  tasks : ∀ k task, s.client.tasks.get k = some task → k < s.client.nextTask

variable {P : AuthPrimitives} {B : Bridge} {own : Identity} {s : Links}

section

variable (h : s.Attested P)
include h

/-- More welcomes and more signatures prove no less. -/
theorem Attested.more (ws : List (Session × Welcome)) (es : List Signing)
    (hes : ∀ e ∈ es, (e.session, e.welcome) ∈ ws ++ s.welcomed) :
    Attested P { s with welcomed := ws ++ s.welcomed, signed := es ++ s.signed } where
  client := fun σ N hσ hN => by
    obtain ⟨e, he, hp⟩ := h.client σ N hσ hN
    exact ⟨e, List.mem_append_right _ he, hp⟩
  bridge := fun σ N hN => by
    obtain ⟨e, he, hp⟩ := h.bridge σ N hN
    exact ⟨e, List.mem_append_right _ he, hp⟩
  checks := fun k label w result σ hk => by
    obtain ⟨hσ, hw, hok⟩ := h.checks k label w result σ hk
    refine ⟨hσ, List.mem_append_right _ hw, fun nodeId hr => ?_⟩
    obtain ⟨e, he, hp⟩ := hok nodeId hr
    exact ⟨e, List.mem_append_right _ he, hp⟩
  replies := fun k nodeId w σ hk => List.mem_append_right _ (h.replies k nodeId w σ hk)
  closed := h.closed
  held := fun σ w hσ hw => List.mem_append_right _ (h.held σ w hσ hw)
  signings := fun e he => by
    rcases List.mem_append.mp he with he | he
    · exact hes e he
    · exact List.mem_append_right _ (h.signings e he)
  tasks := h.tasks

/-- A task that ends takes nothing along. -/
theorem Attested.endTask (k : Nat) :
    Attested P { s with client := { s.client with tasks := s.client.tasks.delete k } } where
  toProven := ⟨h.client, h.bridge⟩
  checks := fun j label w result σ hj => by
    replace hj : (s.client.tasks.delete k).get j = _ := hj
    exact h.checks j label w result σ (of_get_delete hj)
  replies := fun j nodeId w σ hj => by
    replace hj : (s.client.tasks.delete k).get j = _ := hj
    exact h.replies j nodeId w σ (of_get_delete hj)
  closed := h.closed
  held := h.held
  signings := h.signings
  tasks := fun j task hj => by
    replace hj : (s.client.tasks.delete k).get j = _ := hj
    exact h.tasks j task (of_get_delete hj)

/-- A task that begins is as sound as what it says. -/
theorem Attested.addTask (task : BridgeTask)
    (hcheck : ∀ label w result σ, task = .verify label w result σ →
      s.client.socket = some σ ∧ (σ, w) ∈ s.welcomed ∧ ∀ nodeId, result = .ok nodeId →
        ∃ e ∈ s.signed, e.Proves P (hexValue nodeId) σ)
    (hreply : ∀ nodeId w σ, task = .reply nodeId w σ → (σ, w) ∈ s.welcomed) :
    Attested P { s with client := s.client.addTask task } where
  toProven := ⟨h.client, h.bridge⟩
  checks := fun j label w result σ hj => by
    replace hj : (s.client.tasks.set s.client.nextTask task).get j = _ := hj
    rw [get_set] at hj
    split at hj
    · exact hcheck label w result σ (Option.some.inj hj)
    · exact h.checks j label w result σ hj
  replies := fun j nodeId w σ hj => by
    replace hj : (s.client.tasks.set s.client.nextTask task).get j = _ := hj
    rw [get_set] at hj
    split at hj
    · exact hreply nodeId w σ (Option.some.inj hj)
    · exact h.replies j nodeId w σ hj
  closed := h.closed
  held := h.held
  signings := h.signings
  tasks := fun j task' hj => by
    replace hj : (s.client.tasks.set s.client.nextTask task).get j = _ := hj
    show j < s.client.nextTask + 1
    rw [get_set] at hj
    split at hj
    next heq => omega
    · exact Nat.lt_succ_of_lt (h.tasks j task' hj)

/-- A bridge that is bound on an open connection is one that signed for it. -/
theorem Attested.bind {N : NodeId} {σ : Session} (hσ : s.client.socket = some σ)
    (hN : ∃ e ∈ s.signed, e.Proves P N σ) (big : Option NodeId) :
    Attested P { s with client := { s.client with
      bridgeNodeId := some N, bridgeNodeIdBig := big } } :=
  { h with
    client := fun σ' N' hσ' hN' => by
      replace hσ' : s.client.socket = some σ' := hσ'
      rw [hσ] at hσ'
      cases hσ'
      cases hN'
      exact hN
    closed := fun hnone => by
      replace hnone : s.client.socket = none := hnone
      rw [hσ] at hnone
      cases hnone }

/-- **What the client does with the check of a hello.** -/
theorem Attested.resume (k : Nat) : Attested P (s.resume own k) := by
  unfold Links.resume
  split
  · exact h
  next task htask =>
  have hend := h.endTask k
  cases task with
  | reply nodeId w σ =>
    have hmore := hend.more [] [⟨own, w, σ⟩] (by
      rintro e he
      rw [List.mem_singleton.mp he]
      exact h.replies k nodeId w σ htask)
    exact ⟨⟨hmore.client, hmore.bridge⟩, hmore.checks, hmore.replies, hmore.closed, hmore.held,
      hmore.signings, hmore.tasks⟩
  | verify label w result σ =>
    obtain ⟨hσ, hw, hok⟩ := h.checks k label w result σ htask
    simp only [BridgeLink.afterVerify]
    cases result with
    | error => exact hend
    | ok nodeId =>
      have hproof := hok nodeId rfl
      cases label with
      | helloAck => exact hend.bind hσ hproof _
      | hello =>
        refine (hend.bind hσ hproof s.client.bridgeNodeIdBig).addTask (.reply nodeId w σ)
          (by rintro label w result σ ⟨⟩) ?_
        rintro nodeId' w' σ' ⟨⟩
        exact hw

/-- A welcome that comes in is noted. -/
theorem Attested.welcome {σ : Session} (hσ : s.client.socket = some σ)
    (serverNonce connId : Option Text) :
    Attested P (note { s with client := s.client.onWelcome serverNonce connId }) := by
  have hmore := h.more (Option.bind (some σ) fun σ =>
    (s.client.onWelcome serverNonce connId).welcome.map fun w => (σ, w)).toList [] nofun
  refine ⟨⟨?_, ?_⟩, ?_, ?_, fun hnone => ?_, fun σ' w hσ' hw => ?_, ?_, h.tasks⟩
  · exact h.client
  · exact h.bridge
  · have hchecks := hmore.checks
    rw [← hσ] at hchecks
    exact hchecks
  · have hreplies := hmore.replies
    rw [← hσ] at hreplies
    exact hreplies
  · replace hnone : s.client.socket = none := hnone
    rw [hσ] at hnone
    cases hnone
  · replace hσ' : s.client.socket = some σ' := hσ'
    replace hw : (s.client.onWelcome serverNonce connId).welcome = some w := hw
    have hnote : note { s with client := s.client.onWelcome serverNonce connId }
        = { s with client := s.client.onWelcome serverNonce connId, welcomed := (σ', w)
            :: s.welcomed } := by
      unfold note
      dsimp only
      rw [hw, show (s.client.onWelcome serverNonce connId).socket = some σ' from hσ']
      rfl
    rw [hnote]
    exact List.mem_cons_self
  · have hsignings := hmore.signings
    rw [← hσ] at hsignings
    exact hsignings

end

end Links

/-! ### Over whole runs -/

/-- Primitives that evaluate: a key is its own hash, and its signature the key twice. -/
def sampleAuth : AuthPrimitives where
  sha256 key := key.foldl (fun n b => 256 * n + b) 0
  verify key _ sig := some (decide (sig = key ++ key))
  powVerify _ _ := true

/-- The owner of a key spelled by one digit. -/
def sampleIdentity (digit : Char) : Identity :=
  ⟨['0', '0'] ++ List.replicate 64 digit, List.replicate 64 digit⟩

/-- And its hello. -/
def sampleHello (digit : Char) : Hello :=
  ⟨some authProto, some (sampleIdentity digit).nodeId, some (sampleIdentity digit).pubkey,
    some (signatureTag ++ List.replicate 128 digit), none⟩

end Axona
