import Axona.Pubsub.SuccessorGate
import Axona.Safety.Deferral

/-! # The gate of step 5

Step 5 flips for an ephemeral winner only on the word of a second holder: a successor the root
remembers, other than the winner and its host, that renewed itself of late at or above what the root
holds at the flip. Until then the deferral stands, unless the round is flipped or aborted, in every
run whose steps spare it. -/

namespace Axona

open Library OrderedMap

variable {cfg : Config} {P : Input → Prop} {n n' : Node} {t : TopicId} {ρ : RoleRef} {corr : Corr}
  {x : ExportRef}

/-! ### Flips -/

/-- What was written into the journal holds no flip of step 5. -/
def Node.Unflipped (n n' : Node) : Prop :=
  ∃ es, n'.journal = es ++ n.journal ∧ ∀ e ∈ es, e.isFlip = false

theorem Node.Unflipped.refl (n : Node) : n.Unflipped n := ⟨[], rfl, by rintro e ⟨⟩⟩

theorem Node.Unflipped.trans {n₁ n₂ n₃ : Node} (h : n₁.Unflipped n₂) (h' : n₂.Unflipped n₃) :
    n₁.Unflipped n₃ := by
  obtain ⟨es, hes, hf⟩ := h
  obtain ⟨es', hes', hf'⟩ := h'
  refine ⟨es' ++ es, by rw [hes', hes, List.append_assoc], fun e he => ?_⟩
  rcases List.mem_append.mp he with he | he
  · exact hf' e he
  · exact hf e he

theorem RoleMove.unflipped {r' : Role} {es : List Event} (h : RoleMove cfg P n ρ r' es) :
    ∀ e ∈ es, e.isFlip = false := by
  cases h with
  | descend _ _ why hwhy _ =>
    cases why with
    | mergeStep5 c m => exact absurd rfl (hwhy c m)
    | _ => simp [Event.isFlip]
  | _ => simp [Event.isFlip]

/-- Only step 5 writes a flip of step 5. -/
theorem Move.unflipped (h : Move cfg P n n') (hP : ¬P .flip) : n.Unflipped n' := by
  obtain ⟨es, hes, hnew⟩ := h.journal
  refine ⟨es, hes, fun e he => ?_⟩
  cases hnew e he with
  | role _ hr hev => exact hr.unflipped e hev
  | flip _ _ _ _ _ hflip => exact absurd hflip hP
  | _ => rfl

theorem Moves.unflipped (h : Moves cfg P n n') (hP : ¬P .flip) : n.Unflipped n' :=
  moves_climb (P := Node.Unflipped) Node.Unflipped.refl Node.Unflipped.trans
    (fun _ _ h => h.unflipped hP) h

/-- A flip of step 5 was written down last, for the record of an open exchange, within its lease and
with the high water that the role had. -/
def Node.Flips (n n' : Node) (ρ : RoleRef) (corr : Corr) (x : ExportRef) : Prop :=
  ∃ r m es, n'.journal = .transition ρ r false (.mergeStep5 corr m) n.world :: (es ++ n.journal)
    ∧ (∀ e ∈ es, e.isFlip = false) ∧ m.leaseOk n.world = true ∧ r.highWater = (n.role ρ).highWater
    ∧ m.core = (n.exports.get x).core ∧ m.ephemeral = (n.exports.get x).ephemeral

/-- What asked the gate, and of which record. -/
inductive Asked (cfg : Config) (n : Node) (ρ : RoleRef) (corr : Corr) (x : ExportRef) : Act → Prop
  | answer {a : ReplayAck} {second : Bool} (hat : n.roleAt a.topicId = some ρ) (hcorr :
    a.corr = corr)
      (hopen : (n.role ρ).openMerges.get corr = some x)
      (hgate : cfg.successorGate = true → (n.exports.get x).ephemeral = true → second = true) :
      Asked cfg n ρ corr x (.replayAck a second)
  | tick {t : TopicId} {second : Bool} (hat : n.roleAt t = some ρ)
      (hopen : (n.role ρ).openMerges.get corr = some x) (hgate : second = true) :
      Asked cfg n ρ corr x (.step5Tick t corr second)

/-- Step 5 writes a flip, or aborts without one. -/
theorem mergeStep5_flips {k : Node} (es : List Event) (hat : k.roleAt t = some ρ)
    (hr : n.SameRound k ρ) (hw : k.world = n.world)
    (hcore : (k.exports.get x).core = (n.exports.get x).core)
    (heph : (k.exports.get x).ephemeral = (n.exports.get x).ephemeral)
    (hj : k.journal = es ++ n.journal) (hes : ∀ e ∈ es, e.isFlip = false) :
    n.Unflipped (k.mergeStep5 cfg t ρ corr x)
      ∨ ((n.exports.get x).leaseOk n.world = true ∧ n.Flips
        (k.mergeStep5 cfg t ρ corr x) ρ corr x) := by
  have hcases : k.StepsDown (k.mergeStep5 cfg t ρ corr x) ρ corr x ∨ _ := mergeStep5_cases hat
  rcases hcases with ⟨hlease, ⟨r, hhigh, hevent⟩, -⟩ | ⟨k', -, hjournal, heq⟩
  · have hlease' : (n.exports.get x).leaseOk n.world = true := by
      rw [← hw, ← Export.leaseOk_of_core hcore]
      exact hlease
    refine .inr ⟨hlease', r, k.exports.get x, es, ?_, hes, ?_, hhigh.trans hr.highWater, hcore,
      heph⟩
    · rw [hevent, hj, hw]
    · rw [← hw]
      exact hlease
  · have habort : Moves cfg (fun i => i ≠ .flip) k' (k'.mergeAbort ρ) :=
      Moves.mergeAbort ⟨nofun, nofun, fun _ => nofun⟩
    rw [heq]
    refine .inl (Node.Unflipped.trans ⟨es, hjournal.trans hj, hes⟩ ?_)
    exact Moves.unflipped habort fun h => h rfl

/-- **A step writes a flip of step 5 only where the gate was asked**, and did not hold it back. -/
theorem perform_flips (hwf : n.Wf) (a : Act) : n.Unflipped (n.perform cfg a)
      ∨ ∃ ρ corr x, Asked cfg n ρ corr x a ∧ n.Flips (n.perform cfg a) ρ corr x := by
  by_cases hflip : Takes cfg n a .flip
  · cases hflip with
    | @flip a second =>
      change n.Unflipped (n.onReplayAck cfg a second)
        ∨ ∃ ρ corr x, Asked cfg n ρ corr x _ ∧ n.Flips (n.onReplayAck cfg a second) ρ corr x
      cases hat : n.roleAt a.topicId with
      | none =>
        refine .inl ?_
        unfold Node.onReplayAck
        rw [hat]
        exact .refl n
      | some ρ =>
        cases hopen : (n.role ρ).openMerges.get a.corr with
        | none =>
          rw [onReplayAck_closed hat hopen]
          exact .inl (.refl n)
        | some x =>
          have hfree : MayAbort (fun i => i ≠ .flip) ρ := ⟨nofun, nofun, fun _ => nofun⟩
          have hcase : AckCase cfg n a second ρ x _ := onReplayAck_case hat hopen
          generalize n.onReplayAck cfg a second = n' at hcase ⊢
          cases hcase with
          | ignored => exact .inl (.refl n)
          | refused _ =>
            have hmoves : Moves cfg (fun i => i ≠ .flip) n
              (n.onRefusal cfg ρ (n.exports.get x) a) :=
              Moves.onRefusal _ a nofun (hfree.mayEnd _)
            exact .inl (Moves.unflipped hmoves fun h => h rfl)
          | aborted _ =>
            have hmoves : Moves cfg (fun i => i ≠ .flip) n (n.mergeAbort ρ) :=
              Moves.mergeAbort hfree
            exact .inl (Moves.unflipped hmoves fun h => h rfl)
          | deferred _ e he =>
            refine .inl ⟨[e], ?_, by simpa using he⟩
            unfold Node.deferStep5
            split <;> rfl
          | step5 _ e he _ hsecond =>
            have hstep : n.Unflipped ((n.note e).mergeStep5 cfg a.topicId ρ a.corr x) ∨ _ :=
              mergeStep5_flips (k := n.note e) [e] hat
                ⟨rfl, rfl, rfl, rfl, fun _ => rfl, fun _ => rfl⟩ rfl rfl rfl rfl (by simpa using he)
            rcases hstep with h | ⟨-, h⟩
            · exact .inl h
            · exact .inr ⟨ρ, a.corr, x, .answer hat rfl hopen hsecond, h⟩
    | @flipTick t corr second =>
      change n.Unflipped (n.step5Tick cfg t corr second)
        ∨ ∃ ρ c x, Asked cfg n ρ c x _ ∧ n.Flips (n.step5Tick cfg t corr second) ρ c x
      cases hat : n.roleAt t with
      | none =>
        refine .inl ?_
        unfold Node.step5Tick
        rw [hat]
        split <;> exact .refl n
      | some ρ =>
        cases hopen : (n.role ρ).openMerges.get corr with
        | none =>
          rw [step5Tick_closed hat hopen]
          exact .inl (.refl n)
        | some x =>
          have hfree : MayAbort (fun i => i ≠ .flip) ρ := ⟨nofun, nofun, fun _ => nofun⟩
          have hundefer : n.Unflipped (n.undefer x) := ⟨[], rfl, by rintro e ⟨⟩⟩
          have hcase : TickCase cfg n t corr second ρ x _ := step5Tick_case hat hopen
          generalize n.step5Tick cfg t corr second = n' at hcase ⊢
          cases hcase with
          | ignored => exact .inl (.refl n)
          | stale _ =>
            have hmoves : Moves cfg (fun i => i ≠ .flip) (n.undefer x)
              ((n.undefer x).mergeAbort ρ) :=
              Moves.mergeAbort hfree
            exact .inl (hundefer.trans (Moves.unflipped hmoves fun h => h rfl))
          | strayed _ _ =>
            refine .inl (hundefer.trans ?_)
            unfold Node.mergeUnpinDeferred
            split
            · exact ⟨[], rfl, by rintro e ⟨⟩⟩
            · exact ⟨[], rfl, by rintro e ⟨⟩⟩
          | step5 _ hsecond =>
            have heph : ((n.undefer x).exports.get x).ephemeral = (n.exports.get x).ephemeral := by
              rcases n.export_undefer x x with h | h
              · rw [h]
              · rw [h]
            have hstep : n.Unflipped ((n.undefer x).mergeStep5 cfg t ρ corr x) ∨ _ :=
              mergeStep5_flips (k := n.undefer x) [] hat (.undefer n ρ x) rfl (n.core_undefer x x)
                heph rfl (by rintro e ⟨⟩)
            rcases hstep with h | ⟨hlease, h⟩
            · exact .inl h
            · exact .inr ⟨ρ, corr, x, .tick hat hopen (hsecond hlease), h⟩
  · rcases perform_moves hwf a with h | h
    · exact .inl (Moves.unflipped h fun h => hflip h.1)
    · exact .inl (Moves.unflipped h fun h => hflip h.1)

/-! ### Steps -/

/-- The successor of a role that the gate takes as a second holder of an export: one it remembers,
other than the winner and its host, that renewed itself of late, at or above what the role holds. -/
structure Gated.Holder (s : Gated) (w : World) (ρ : RoleRef) (x : ExportRef) (need : Int)
    (sub : NodeId) (y : Successor) : Prop where
  remembered : (s.successors ρ).get sub = some y
  said : (ρ, sub, y) ∈ s.confirmations
  notWinner : sub ≠ (s.node.exports.get x).winner
  current : w.wall - y.heardAt ≤ renewMs
  highWater : need ≤ y.hw
  notHost : sameHost (s.winnerHost x) y.host = false

/-- The flips that the step writes down are within their leases, and one for an ephemeral winner has
a second holder at that instant. -/
def FlipBacked (cfg : Config) (s : Gated) (a : World × GateAct) : Prop :=
  ∃ es, (s.step cfg a).node.journal = es ++ s.node.journal
    ∧ ∀ ρ r corr m w, .transition ρ r false (.mergeStep5 corr m) w ∈ es →
      w = a.1 ∧ m.leaseOk w = true ∧ (cfg.successorGate = true → m.ephemeral = true →
        ∃ x sub y, (s.node.role ρ).openMerges.get corr = some x
          ∧ m.core = (s.node.exports.get x).core ∧ s.Holder w ρ x r.highWater sub y)

/-- A deferral that waits is as it should be, and stands after the step, unless the step flips it or
aborts it. -/
def DeferralKept (cfg : Config) (s : Gated) (a : World × GateAct) : Prop :=
  ∀ t ρ corr x, s.node.Postponed t ρ corr x → s.node.Deferral t ρ corr x
    ∧ Outcome (s.enter a.1).node (s.step cfg a).node t ρ corr x

/-- Does the step spare every deferral that waits? -/
def SparesAll (cfg : Config) (s : Gated) (a : World × GateAct) : Prop :=
  ∀ b, a.2 = .node b → ∀ t ρ corr x, s.node.Postponed t ρ corr x →
    Spares cfg (s.enter a.1).node t ρ corr x ((s.enter a.1).asks b)

/-- What the gate remembers was said. -/
def Gated.Heard (s : Gated) : Prop :=
  ∀ ρ sub y, (s.successors ρ).get sub = some y → (ρ, sub, y) ∈ s.confirmations

theorem Gated.Heard.remember {s : Gated} (h : s.Heard) (ρ : RoleRef) (sub : NodeId) (y :
    Successor) :
    (s.remember ρ sub y).Heard := by
  intro ρ' sub' y' hget
  change (Function.update s.successors ρ ((s.successors ρ).set sub y) ρ').get sub' = some y' at hget
  by_cases hρ : ρ' = ρ
  · subst hρ
    rw [Function.update_self, get_set] at hget
    split at hget
    · next hsub =>
      cases hget
      subst hsub
      exact List.mem_cons_self
    · exact List.mem_cons_of_mem _ (h ρ' sub' y' hget)
  · rw [Function.update_of_ne hρ] at hget
    exact List.mem_cons_of_mem _ (h ρ' sub' y' hget)

theorem Gated.Heard.trim {s : Gated} (h : s.Heard) (ρ : RoleRef) : (s.trim ρ).Heard := by
  intro ρ' sub y hget
  unfold Gated.trim at hget
  by_cases hρ : ρ' = ρ
  · subst hρ
    simp only [Function.update_self] at hget
    exact h ρ' sub y (get_of_iterate_dropOldest hget)
  · simp only [Function.update_of_ne hρ] at hget
    exact h ρ' sub y hget

theorem Gated.Heard.step {s : Gated} (h : s.Heard) (a : World × GateAct) :
    (s.step cfg a).Heard := by
  have hloser (k : Gated) (hk : k.Heard) (ρ : RoleRef) (sub : NodeId) :
      (k.noteLoserSuccessor cfg ρ sub).Heard := by
    unfold Gated.noteLoserSuccessor
    split
    · exact hk.remember ρ sub _
    · exact hk
  obtain ⟨w, a⟩ := a
  cases a with
  | node b =>
    change ((s.enter w).performNode cfg b).Heard
    unfold Gated.performNode
    cases b with
    | sub f =>
      simp only []
      cases Gated.promoted (s.enter w).node _ f.topicId with
      | none => exact h
      | some ρ =>
        exact hloser { s.enter w with node := (s.enter w).node.perform cfg ((s.enter w).asks (.sub f)) }
          h ρ f.subscriber
    | _ => exact h
  | pull q host => exact h
  | noted t f =>
    change (Option.elim _ _ _ : Gated).Heard
    cases (s.enter w).node.roleAt t with
    | none => exact h
    | some ρ =>
      change ((s.enter w).noteSuccessorSub cfg ρ f).Heard
      unfold Gated.noteSuccessorSub
      split
      · exact h
      simp only []
      split
      · exact h
      · exact Gated.Heard.trim (Gated.Heard.remember h ρ f.subscriber _) ρ

/-- The node of a step: it ran an act, or it only read the world. -/
theorem Gated.step_node (cfg : Config) (s : Gated) (a : World × GateAct) :
    (∃ b, a.2 = .node b ∧ (s.step cfg a).node = s.node.step cfg (a.1, (s.enter a.1).asks b))
      ∨ (∃ q host, a.2 = .pull q host ∧ (s.step cfg a).node = s.node.step cfg (a.1, .mergePull q))
      ∨ (∃ t f, a.2 = .noted t f ∧ (s.step cfg a).node = (s.enter a.1).node) := by
  have hloser (k : Gated) (ρ : RoleRef) (sub : NodeId) :
      (k.noteLoserSuccessor cfg ρ sub).node = k.node := by
    unfold Gated.noteLoserSuccessor
    split <;> rfl
  obtain ⟨w, a⟩ := a
  cases a with
  | node b =>
    refine .inl ⟨b, rfl, ?_⟩
    change ((s.enter w).performNode cfg b).node = _
    unfold Gated.performNode
    cases b with
    | sub f =>
      simp only []
      cases Gated.promoted (s.enter w).node _ f.topicId with
      | none => rfl
      | some ρ => exact hloser _ ρ f.subscriber
    | _ => rfl
  | pull q host => exact .inr (.inl ⟨q, host, rfl, rfl⟩)
  | noted t f =>
    refine .inr (.inr ⟨t, f, rfl, ?_⟩)
    change (Option.elim _ _ _ : Gated).node = _
    cases (s.enter w).node.roleAt t with
    | none => rfl
    | some ρ =>
      change ((s.enter w).noteSuccessorSub cfg ρ f).node = _
      unfold Gated.noteSuccessorSub
      split
      · rfl
      simp only []
      split <;> rfl

/-! ### Runs -/

/-- What every state of a run keeps. -/
structure Gated.WellFormed (s : Gated) : Prop where
  wf : s.node.Wf
  cut : s.node.CutSound
  heard : s.Heard

section

variable {s : Gated}

theorem Gated.WellFormed.enter (h : s.WellFormed) (w : World) : (s.enter w).WellFormed :=
  ⟨h.wf.world w, h.cut, h.heard⟩

theorem Gated.WellFormed.step (h : s.WellFormed) (a : World × GateAct) :
    (s.step cfg a).WellFormed := by
  refine ⟨?_, ?_, h.heard.step a⟩
  · rcases Gated.step_node cfg s a with ⟨b, -, hn⟩ | ⟨q, host, -, hn⟩ | ⟨t, f, -, hn⟩
    all_goals rw [hn]
    · exact h.wf.step _
    · exact h.wf.step _
    · exact h.wf.world _
  · rcases Gated.step_node cfg s a with ⟨b, -, hn⟩ | ⟨q, host, -, hn⟩ | ⟨t, f, -, hn⟩
    all_goals rw [hn]
    · exact h.cut.step h.wf _
    · exact h.cut.step h.wf _
    · exact h.cut

/-- What the gate answered for a record: a second holder is current. -/
theorem Gated.holder_of_current (hs : s.Heard) {y : ExportRef}
    (h : s.secondHolderCurrent ρ y = true) :
    ∃ sub z, s.Holder s.node.world ρ y (s.node.role ρ).highWater sub z := by
  obtain ⟨e, he, hholder⟩ := List.any_eq_true.mp h
  have hget : (s.successors ρ).get e.1 = some e.2 := get_of_mem he
  unfold Gated.isSecondHolder at hholder
  simp only [Bool.and_eq_true, Bool.not_eq_true', decide_eq_true_eq, decide_eq_false_iff_not,
    not_lt] at hholder
  obtain ⟨⟨⟨hwinner, hcurrent⟩, hhigh⟩, hhost⟩ := hholder
  exact ⟨e.1, e.2, hget, hs ρ e.1 e.2 hget, hwinner, hcurrent, hhigh, hhost⟩

theorem Gated.secondHolderOf_eq (hat : s.node.roleAt t = some ρ)
    (hopen : (s.node.role ρ).openMerges.get corr = some x) :
    s.secondHolderOf t corr = s.secondHolderCurrent ρ x := by
  unfold Gated.secondHolderOf
  rw [hat, Option.any_some, hopen, Option.any_some]

/-- The gate that was asked for an ephemeral winner knew a second holder. -/
theorem Asked.holder {b : Act} (h : Asked cfg s.node ρ corr x (s.asks b)) (hs : s.Heard)
    (hg : cfg.successorGate = true) (he : (s.node.exports.get x).ephemeral = true) :
    (s.node.role ρ).openMerges.get corr = some x
      ∧ ∃ sub y, s.Holder s.node.world ρ x (s.node.role ρ).highWater sub y := by
  cases b with
  | replayAck a second =>
    cases h with
    | answer hat hcorr hopen hgate =>
      subst hcorr
      refine ⟨hopen, Gated.holder_of_current hs ?_⟩
      rw [← Gated.secondHolderOf_eq hat hopen]
      exact hgate hg he
  | step5Tick t c second =>
    cases h with
    | tick hat hopen hgate =>
      refine ⟨hopen, Gated.holder_of_current hs ?_⟩
      rw [← Gated.secondHolderOf_eq hat hopen]
      exact hgate
  | _ => cases h

/-- **A flip is backed**, whatever the step. -/
theorem flipBacked_step (hs : s.WellFormed) (a : World × GateAct) : FlipBacked cfg s a := by
  have hs' := hs.enter a.1
  have hnone (h : (s.enter a.1).node.Unflipped (s.step cfg a).node) : FlipBacked cfg s a := by
    obtain ⟨es, hes, hf⟩ := h
    refine ⟨es, hes, fun ρ r corr m w hmem => ?_⟩
    have hflip := hf _ hmem
    cases hflip
  rcases Gated.step_node cfg s a with ⟨b, hb, hn⟩ | ⟨q, host, -, hn⟩ | ⟨t, f, -, hn⟩
  · have hstep : (s.enter a.1).node.Unflipped (s.node.step cfg (a.1, (s.enter a.1).asks b))
        ∨ ∃ ρ corr x, Asked cfg (s.enter a.1).node ρ corr x ((s.enter a.1).asks b)
          ∧ (s.enter a.1).node.Flips (s.node.step cfg (a.1, (s.enter a.1).asks b)) ρ corr x :=
      perform_flips hs'.wf _
    rw [← hn] at hstep
    rcases hstep with h | ⟨ρ, corr, x, hasked, r, m, es, hj, hes, hlease, hhigh, hcore, heph⟩
    · exact hnone h
    refine ⟨_ :: es, hj, fun ρ' r' corr' m' w' hmem => ?_⟩
    rcases List.mem_cons.mp hmem with heq | hmem
    · cases heq
      refine ⟨rfl, hlease, fun hg he => ?_⟩
      obtain ⟨hopen, sub, y, hholder⟩ := hasked.holder hs'.heard hg (heph.symm.trans he)
      refine ⟨x, sub, y, hopen, hcore, ?_⟩
      rw [hhigh]
      exact ⟨hholder.remembered, hholder.said, hholder.notWinner, hholder.current,
        hholder.highWater, hholder.notHost⟩
    · have hflip := hes _ hmem
      cases hflip
  · have hstep : (s.enter a.1).node.Unflipped (s.node.step cfg (a.1, .mergePull q)) ∨ _ :=
      perform_flips hs'.wf (.mergePull q)
    rw [← hn] at hstep
    rcases hstep with h | ⟨ρ, corr, x, hasked, -⟩
    · exact hnone h
    · cases hasked
  · refine hnone ?_
    rw [hn]
    exact .refl _

/-- **A deferral comes to no third end** in a step that spares it, and the marks that the step leaves
are those of deferrals as they should be. -/
theorem deferralKept_step (hs : s.WellFormed) (hk : s.node.DefersSound) (a : World × GateAct)
    (hspare : SparesAll cfg s a) : (s.step cfg a).node.DefersSound ∧ DeferralKept cfg s a := by
  have hs' := hs.enter a.1
  have hk' : (s.enter a.1).node.DefersSound := by
    intro t ρ corr x hm
    have hd := hk t ρ corr x ⟨hm.here, hm.binds, hm.mark⟩
    exact hd.of_kept rfl rfl rfl rfl hd.pins
  -- one act of the node, with what spares each deferral
  have hact (b : Act) (hn : (s.step cfg a).node = (s.enter a.1).node.perform cfg b)
      (hb : ∀ t ρ corr x, s.node.Postponed t ρ corr x → Spares cfg
        (s.enter a.1).node t ρ corr x b) :
      (s.step cfg a).node.DefersSound ∧ DeferralKept cfg s a := by
    have hout (t : TopicId) (ρ : RoleRef) (corr : Corr) (x : ExportRef)
        (hd : (s.enter a.1).node.Deferral t ρ corr x) :
        Outcome (s.enter a.1).node (s.step cfg a).node t ρ corr x := by
      rw [hn]
      exact perform_outcome hs'.wf hs'.cut hd (hb t ρ corr x ⟨hd.here, hd.binds, hd.deferred⟩)
    refine ⟨fun t ρ corr x hm => ?_, fun t ρ corr x hw => ?_⟩
    · by_cases hdefer : Takes cfg (s.enter a.1).node b (.defer ρ corr)
      · cases hdefer with
        | defer hat =>
          rw [hn] at hm ⊢
          exact onReplayAck_marked hs'.wf hs'.cut hk' hat hm
      · have hold : (s.enter a.1).node.Marked t ρ corr x :=
          perform_marked_before hs'.wf hdefer (hn ▸ hm)
        exact (hout t ρ corr x (hk' t ρ corr x hold)).deferral hm
    · have hd := hk t ρ corr x hw.marked
      exact ⟨hd, hout t ρ corr x (hd.of_kept rfl rfl rfl rfl hd.pins)⟩
  rcases Gated.step_node cfg s a with ⟨b, hb, hn⟩ | ⟨q, host, -, hn⟩ | ⟨t, f, -, hn⟩
  · exact hact _ hn fun t ρ corr x hw => hspare b hb t ρ corr x hw
  · refine hact (.mergePull q) hn fun t ρ corr x hw => ?_
    change ¬Retires cfg (s.enter a.1).node (.mergePull q) t
    rintro ⟨⟩
  refine ⟨?_, fun t ρ corr x hw => ?_⟩
  · rw [hn]
    exact hk'
  · have hd := hk t ρ corr x hw.marked
    refine ⟨hd, .inl ?_⟩
    rw [hn]
    exact hd.of_kept rfl rfl rfl rfl hd.pins

end

/-- **The successor gate.** In every run, a flip of step 5 for an ephemeral winner has a second holder
at that instant, within the lease. And in every run whose steps spare the deferrals, each that waits
is bound behind its gate with its manifest pinned, until it is flipped or aborted. -/
theorem step5_gated (w : World) (as : List (World × GateAct)) :
    EachStep (Gated.step cfg) (FlipBacked cfg) (Gated.boot w) as
      ∧ (EachStep (Gated.step cfg) (SparesAll cfg) (Gated.boot w) as →
        EachStep (Gated.step cfg) (DeferralKept cfg) (Gated.boot w) as
          ∧ ∀ t ρ corr x, (run (Gated.step cfg) (Gated.boot w) as).node.Postponed t ρ corr x →
            (run (Gated.step cfg) (Gated.boot w) as).node.Deferral t ρ corr x) := by
  have hboot : (Gated.boot w).WellFormed := by
    refine ⟨Node.boot_wf w, ?_, ?_⟩
    · intro ρ corr x hb
      cases hb.1
    · intro ρ sub y hget
      cases hget
  have hmarks : (Gated.boot w).node.DefersSound := by
    intro t ρ corr x hm
    cases hm.here
  refine ⟨run_safety (I := Gated.WellFormed) (fun _ a h => h.step a) (fun _ a h => flipBacked_step h a)
    hboot as, fun h => ?_⟩
  have hstep (s : Gated) (a : World × GateAct) (hi : s.WellFormed ∧ s.node.DefersSound)
      (hc : SparesAll cfg s a) : (s.step cfg a).WellFormed ∧ (s.step cfg a).node.DefersSound :=
    ⟨hi.1.step a, (deferralKept_step hi.1 hi.2 a hc).1⟩
  refine ⟨EachStep.safety hstep (fun s a hi hc => (deferralKept_step hi.1 hi.2 a hc).2)
    ⟨hboot, hmarks⟩ h, fun t ρ corr x hw => ?_⟩
  exact (EachStep.invariant hstep ⟨hboot, hmarks⟩ h).2 t ρ corr x hw.marked

/-- The sample node takes a post as root and binds its export to an ephemeral winner, whose full
acknowledgement is deferred. Then a refusal of the exchange comes in late. -/
def lateRefusal : List (World × GateAct) :=
  [(sampleWorld 1000, .node (samplePub 3 1000)), (sampleWorld 1001, .node (.resume 0 .checked)),
    (sampleWorld 1002, .node (.beacon sampleTopicId [(sampleTopicId, some 5)])),
    (sampleWorld 1003, .pull ⟨sampleTopicId, 1002, sampleTopicId, some 5, some mergeTiming,
      none, false, false, true⟩ none),
    (sampleWorld 1004, .node (.resume 3 .checked)),
    (sampleWorld 1005, .node (.replayAck ⟨sampleTopicId, 1002, sampleTopicId, some 5, 0, some 1, 1,
      0,
      some 2, .full⟩ false)),
    (sampleWorld 1006, .node (.replayAck ⟨sampleTopicId, 1002, sampleTopicId, some 5, 0, some 1, 0,
      0,
      none, .notRoot⟩ false))]

/-- The deferred record is dropped, and its manifest stays pinned. -/
theorem deferral_dropped :
    ¬∀ as : List (World × GateAct), EachStep (Gated.step sampleConfig) (DeferralKept sampleConfig)
      (Gated.boot (sampleWorld 0)) as := by
  intro h
  have hlast := ((eachStep_append _ _ (lateRefusal.take 6) (lateRefusal.drop 6)).mp (h lateRefusal)).2
  set s := run (Gated.step sampleConfig) (Gated.boot (sampleWorld 0)) (lateRefusal.take 6) with hs
  have hw : s.node.Postponed sampleTopicId 0 1002 0 := by
    refine ⟨?_, ⟨?_, ?_⟩, ?_⟩
    all_goals decide +kernel
  rcases (hlast.1 sampleTopicId 0 1002 0 hw).2 with hd | hf | ha
  · have hopen : ((s.step sampleConfig (sampleWorld 1006, .node (.replayAck ⟨sampleTopicId, 1002,
        sampleTopicId, some 5, 0, some 1, 0, 0, none, .notRoot⟩ false))).node.role 0).openMerges.get
        1002 = none := by decide +kernel
    exact absurd (hopen.symm.trans hd.binds.1) nofun
  · have hstate : ((s.step sampleConfig (sampleWorld 1006, .node (.replayAck ⟨sampleTopicId, 1002,
        sampleTopicId, some 5, 0, some 1, 0, 0, none, .notRoot⟩ false))).node.exports.get 0).state
        = .bound := by decide +kernel
    exact absurd (hstate.symm.trans hf.completed) nofun
  · have hpinned : ¬Disjoint ((s.step sampleConfig (sampleWorld 1006, .node (.replayAck ⟨sampleTopicId,
        1002, sampleTopicId, some 5, 0, some 1, 0, 0, none, .notRoot⟩ false))).node.role 0).merge.pins
        ((s.enter (sampleWorld 1006)).node.exports.get 0).manifest.ids := by decide +kernel
    exact hpinned (ha.unpinned (by decide +kernel))

end Axona
