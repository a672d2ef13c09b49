import Axona.Pubsub.Step

/-! # Nodes that replay deletions to one another

Several nodes under one clock. A replay, a handoff, a replica push and a fan-out all carry the
deletions that are active at the sender when it sends (`_activeDels`), and any of them may reach
any node, late, twice or never. -/

namespace Axona

open Library

/-- A deletion that was sent. -/
structure Sent where
  sender : NodeId
  at' : Int
  topic : TopicId
  del : Del
deriving DecidableEq

/-- The nodes, their common clock, and the deletions that were sent. -/
structure Net where
  wall : Int
  nodes : NodeId → Node
  flight : List Sent

/-- What happens next in the network. -/
inductive NetAct where
  /-- A node runs an act. -/
  | act (i : NodeId) (w : World) (a : Act)
  /-- A node sends the deletions that are active in a role of it. -/
  | send (i : NodeId) (t : TopicId)

/-- The deletions that the frame of an act carries. -/
def Act.dels : Act → List (TopicId × Del)
  | .deliver t _ _ items => items.filterMap fun
    | .del d => some (t, d)
    | .body _ => none
  | .replayUp f | .handoff f | .replicate f _ _ => f.dels.map fun d => (f.topicId, d)
  | .mergeFrame f => f.dels.map fun d => (f.topicId, d)
  | _ => []

namespace Net

/-- Every node has just started. -/
def boot (w : World) : Net := ⟨w.wall, fun _ => Node.boot w, []⟩

/-- One step of the network; `cfg` configures each node. -/
def step (cfg : NodeId → Config) (s : Net) : NetAct → Net
  | .act i w a =>
    { s with wall := w.wall, nodes := Function.update s.nodes i ((s.nodes i).step (cfg i) (w, a)) }
  | .send i t =>
    match (s.nodes i).roleAt t with
    | none => s
    | some ρ =>
      { s with flight :=
        (((s.nodes i).role ρ).activeDels s.wall).map (fun d => ⟨i, s.wall, t, d⟩) ++ s.flight }

/-- The clock does not go back, and a frame carries deletions that a node sent. -/
def Conforms (s : Net) : NetAct → Prop
  | .act _ w a => s.wall ≤ w.wall ∧ ∀ x ∈ a.dels, x ∈ s.flight.map fun p => (p.topic, p.del)
  | .send _ _ => True

instance (s : Net) : DecidablePred s.Conforms
  | .act _ w a => inferInstanceAs (Decidable (s.wall ≤ w.wall
      ∧ ∀ x ∈ a.dels, x ∈ s.flight.map fun p => (p.topic, p.del)))
  | .send _ _ => isTrue trivial

/-- An act of one node leaves the others as they are. -/
theorem step_act_nodes (cfg : NodeId → Config) (s : Net) (i j : NodeId) (w : World) (a : Act) :
    (s.step cfg (.act i w a)).nodes j
      = if j = i then (s.nodes i).step (cfg i) (w, a) else s.nodes j := by
  change Function.update s.nodes i _ j = _
  rw [Function.update_apply]

/-- A node that sends is not changed by it, and takes no time. -/
theorem step_send (cfg : NodeId → Config) (s : Net) (i : NodeId) (t : TopicId) :
    (s.step cfg (.send i t)).nodes = s.nodes ∧ (s.step cfg (.send i t)).wall = s.wall := by
  unfold step
  simp only []
  split <;> exact ⟨rfl, rfl⟩

theorem step_send_flight (cfg : NodeId → Config) {s : Net} {i : NodeId} {t : TopicId} {ρ : RoleRef}
    (h : (s.nodes i).roleAt t = some ρ) : (s.step cfg (.send i t)).flight
      = (((s.nodes i).role ρ).activeDels s.wall).map (fun d => ⟨i, s.wall, t, d⟩) ++ s.flight := by
  unfold step
  simp only []
  rw [h]

end Net

end Axona
