import Axona.Moves.Step

/-! # The lives of roles and exports

A handler keeps hold of a role object and of an export record while it waits. Whatever runs in
between, some of what it comes back to has gone in one direction only: so a write that was cut
from its role stays cut, and an export that was bound stays as it was bound. -/

namespace Axona

open Library OrderedMap

variable {cfg : Config} {P : Input → Prop} {n n' : Node} {ρ : RoleRef} {x : ExportRef}

/-- The end of the role has begun: it was retired, or its termination was. -/
def Node.Ended (n : Node) (ρ : RoleRef) : Prop :=
  (n.role ρ).retired = true ∨ ∃ at', (n.role ρ).dismantling = some at'

theorem cutHolds_of_ended {cut : Cut} (h : n.Ended ρ) : n.cutHolds ρ (some cut) = false := by
  unfold Node.cutHolds
  rcases h with h | ⟨at', h⟩
  · simp [h]
  · simp [h]

/-- **An export record ages**: what it is bound to stays, and once it is completed all of it. -/
structure ExportCore.Ages (m m' : ExportCore) : Prop where
  bound : m.state = .bound → m' = m ∨ m' = { m with state := .completed }
  completed : m.state = .completed → m' = m

theorem Move.exportAges (h : Move cfg P n n') (hx : x < n.exports.next) :
    (n.exports.get x).core.Ages (n'.exports.get x).core := by
  cases h.exportEffect x with
  | same h | defer _ _ _ h => exact ⟨fun _ => .inl h, fun _ => h⟩
  | made hnext => exact absurd hx (by rw [hnext]; exact lt_irrefl _)
  | rebid hoff | bind _ _ _ hoff =>
    constructor
    · intro hb
      cases hoff.symm.trans hb
    · intro hc
      cases hoff.symm.trans hc
  | complete _ h => exact ⟨fun _ => .inr h, fun hc => by rw [h, ← hc]⟩

/-- **A node ages**: what was made ages, and does not come back into a table it has left. -/
structure Node.Ages (n n' : Node) : Prop where
  roles : n.roles.next ≤ n'.roles.next
  exports : n.exports.next ≤ n'.exports.next
  role : ∀ ρ < n.roles.next, (n.role ρ).core.Ages (n'.role ρ).core
  record : ∀ x < n.exports.next, (n.exports.get x).core.Ages (n'.exports.get x).core
  seat : ∀ ρ < n.roles.next, ∀ t, n'.roleAt t = some ρ → n.roleAt t = some ρ
  opened : ∀ x < n.exports.next, ∀ ρ corr, (n'.role ρ).openMerges.get corr = some x →
    (n.role ρ).openMerges.get corr = some x

namespace Node.Ages

theorem world (n : Node) (w : World) : n.Ages { n with world := w } :=
  ⟨le_rfl, le_rfl, fun _ _ => .of_life rfl, fun _ _ => ⟨fun _ => .inl rfl, fun _ => rfl⟩,
    fun _ _ _ h => h, fun _ _ _ _ h => h⟩

theorem move (hn : n.Ages n') {m : Node} (h : Move cfg P n' m) : n.Ages m where
  roles := hn.roles.trans h.roles_next
  exports := hn.exports.trans h.exports_next
  role ρ hρ := (hn.role ρ hρ).trans (h.roleAges (hρ.trans_le hn.roles))
  record x hx := by
    have hold := hn.record x hx
    have hm := h.exportAges (hx.trans_le hn.exports)
    constructor
    · intro hb
      rcases hold.bound hb with heq | heq
      · exact heq ▸ hm.bound ((congrArg ExportCore.state heq).trans hb)
      · exact .inr ((hm.completed (congrArg ExportCore.state heq)).trans heq)
    · intro hc
      have heq := hold.completed hc
      exact (hm.completed ((congrArg ExportCore.state heq).trans hc)).trans heq
  seat ρ hρ t ht := by
    refine hn.seat ρ hρ t ((h.roleAt ht).resolve_right fun hnext => ?_)
    exact absurd (hρ.trans_le hn.roles) (hnext.1 ▸ lt_irrefl _)
  opened x hx ρ corr hopen := by
    refine hn.opened x hx ρ corr ((h.openMerges hopen).resolve_right fun hnext => ?_)
    exact absurd (hx.trans_le hn.exports) (hnext.1 ▸ lt_irrefl _)

theorem step (hwf : n'.Wf) (hn : n.Ages n') (a : World × Act) : n.Ages (n'.step cfg a) := by
  refine step_rule hwf (fun _ _ _ h hm => hm.move h) ?_
  exact ⟨hn.roles, hn.exports, hn.role, hn.record, hn.seat, hn.opened⟩

theorem run (hwf : n.Wf) (as : Run) : n.Ages (run (Node.step cfg) n as) :=
  (run_invariant (I := fun m : Node => m.Wf ∧ n.Ages m)
    (fun _ a hm => ⟨hm.1.step a, step hm.1 hm.2 a⟩) ⟨hwf, world n n.world⟩ as).2

end Node.Ages

/-- **What is past stays past.** From any moment of any run on, role objects and export records age,
and do not come back where they have left; so no cut holds again at a role whose end has begun,
however long the handler that took it waits. -/
theorem node_ages (w : World) (as bs : Run) :
    let n := run (Node.step cfg) (Node.boot w) as
    let n' := run (Node.step cfg) n bs
    n.Ages n' ∧ ∀ ρ < n.roles.next, n.Ended ρ → ∀ cut, n'.cutHolds ρ (some cut) = false := by
  intro n n'
  have hages : n.Ages n' := .run (run_wf w as) bs
  refine ⟨hages, fun ρ hρ hended cut => cutHolds_of_ended ?_⟩
  have hrole := hages.role ρ hρ
  rcases hended with h | ⟨at', h⟩
  · exact .inl (hrole.retired h)
  · exact .inr ⟨at', (hrole.dismantling at' h).1⟩

end Axona
