import Axona.Pubsub.Seats

/-! # Who loses a seat

A relay that hands a subscriber down keeps it until the child says it has it. The promotion of a
child does so: the batch stays seated, and only an ADOPTACK of that child releases the names in it.
A newcomer that is passed on to a child is not seated, and nothing waits for an answer. -/

namespace Axona

open Library OrderedMap

namespace Branch

variable {cfg : SeatConfig} {b : Branch} {self : NodeId} {cooldown : NodeId → Int} {now : Int}
  {f : SeatRequest} {nonce : Nonce} {x : NodeId}

/-- **The newcomer is passed on**: there is no seat to spare and nobody to promote, but a child. -/
structure Deepens (cfg : SeatConfig) (b : Branch) (cooldown : NodeId → Int) (now : Int)
    (f : SeatRequest) : Prop where
  newcomer : b.subscribers.has f.subscriber = false
  full : cfg.maxDirect ≤ b.subscribers.size
  kind : f.kind ≠ .standby
  noLeaf : (b.leaves cfg cooldown now).length < 2
  child : ∃ c, b.children.has c = true ∧ b.subscribers.has c = true

/-! ### What `_accept` does -/

theorem has_seat (b : Branch) (f : SeatRequest) (now : Int) (x : NodeId) :
    (b.seat f now).subscribers.has x = (decide (x = f.subscriber) || b.subscribers.has x) :=
  has_set ..

/-- There is somebody to promote where there are two leaves. -/
theorem promoteChild_eq_none :
    b.promoteChild cfg self cooldown now nonce = none ↔ (b.leaves cfg cooldown now).length < 2 := by
  unfold promoteChild
  split
  next leaf next rest heq => simp [heq]
  next hshort =>
  rw [eq_self, true_iff]
  cases hl : b.leaves cfg cooldown now with
  | nil => exact Nat.zero_lt_two
  | cons leaf rest =>
    cases rest with
    | nil => exact Nat.one_lt_two
    | cons next rest => exact (hshort leaf next rest hl).elim

/-- Of a list that is not empty one is the closest. -/
theorem isSome_foldl_closer (x : NodeId) (l : List NodeId) (best : Option NodeId) :
    (l.foldl (closer x) best).isSome = (best.isSome || !l.isEmpty) := by
  induction l generalizing best with
  | nil => simp
  | cons c l ih =>
    rw [List.foldl_cons, ih]
    cases best with
    | none => simp [closer]
    | some d =>
      simp only [closer]
      split <;> rfl

/-- A child is picked where one is seated. -/
theorem pickChild_isSome :
    (b.pickChild x).1.isSome = true ↔ ∃ c, b.children.has c = true ∧ b.subscribers.has c
      = true := by
  have hpick : (b.pickChild x).1.isSome =
      !(b.children.filter fun c _ => b.subscribers.has c).keys.isEmpty :=
    (isSome_foldl_closer x _ none).trans (Bool.false_or _)
  rw [hpick, Bool.not_eq_true', List.isEmpty_eq_false_iff_exists_mem]
  constructor
  · rintro ⟨c, hc⟩
    obtain ⟨v, hv⟩ := has_iff.mp (has_iff_mem_keys.mpr hc)
    obtain ⟨hget, hhas⟩ := get_filter_some.mp hv
    exact ⟨c, has_iff.mpr ⟨v, hget⟩, hhas⟩
  · rintro ⟨c, hchild, hhas⟩
    obtain ⟨v, hv⟩ := has_iff.mp hchild
    refine ⟨c, has_iff_mem_keys.mp (has_iff.mpr ⟨v, ?_⟩)⟩
    exact get_filter_some.mpr ⟨hv, hhas⟩

/-- **What an acceptance leads to**: no seat is lost, what is offered is noted as pending or was
offered before, and only offers and handovers are sent. -/
structure Grown (me : NodeId) (b : Branch) (nonce : Nonce) (b' : Branch) (out : List Packet)
    (nonce' : Nonce) : Prop where
  keeps : ∀ x, b.subscribers.has x = true → b'.subscribers.has x = true
  mono : nonce ≤ nonce'
  /-- The offers are this node's own, under nonces of their own. -/
  adopts : ∀ p ∈ out, ∀ parent subs k, p.body = .adopt parent subs k →
    parent = me ∧ p.sender = me ∧ nonce ≤ k ∧ k < nonce'
  single : ∀ p ∈ out, ∀ q ∈ out, ∀ parent subs parent' subs' k, p.body = .adopt parent subs k →
    q.body = .adopt parent' subs' k → p.target = q.target
  noAck : ∀ p ∈ out, ∀ k accepted refused, p.body ≠ .adoptAck k accepted refused
  pending : ∀ k d, b'.pendingDelegation.get k = some d → b.pendingDelegation.get k = some d
    ∨ nonce ≤ k ∧ k < nonce' ∧ ∃ subs, ⟨me, d.child, .adopt me subs k⟩ ∈ out

/-- Nothing but seats and children changes. -/
theorem Grown.of_seats {b' : Branch} (hkeeps : ∀ x, b.subscribers.has x = true →
      b'.subscribers.has x = true) (hpending : b'.pendingDelegation = b.pendingDelegation) :
    Grown self b nonce b' [] nonce where
  keeps := hkeeps
  mono := le_rfl
  adopts := by simp
  single := by simp
  noAck := by simp
  pending := fun k d hd => .inl (hpending ▸ hd)

/-- One offer, under the next nonce, and handovers. -/
theorem Grown.of_offer {b' : Branch} {c : NodeId} {subs : List (NodeId × Int)}
    {out : List Packet} (hkeeps : ∀ x, b.subscribers.has x = true → b'.subscribers.has x = true)
    (hout : ∀ p ∈ out, ∃ child attach, p.body = .delegate child attach)
    (hpending : ∀ k d, b'.pendingDelegation.get k = some d →
      b.pendingDelegation.get k = some d ∨ k = nonce ∧ d.child = c) :
    Grown self b nonce b' (⟨self, c, .adopt self subs nonce⟩ :: out) (nonce + 1) where
  keeps := hkeeps
  mono := Nat.le_succ _
  adopts := by
    intro p hp parent subs' k hbody
    rcases List.mem_cons.mp hp with rfl | hp
    · cases hbody
      exact ⟨rfl, rfl, le_rfl, Nat.lt_succ_self _⟩
    · obtain ⟨child, attach, hd⟩ := hout p hp
      rw [hd] at hbody
      cases hbody
  single := by
    intro p hp q hq parent subs₁ parent' subs₂ k hb hb'
    rcases List.mem_cons.mp hp with rfl | hp
    · rcases List.mem_cons.mp hq with rfl | hq
      · rfl
      obtain ⟨child, attach, hd⟩ := hout q hq
      rw [hd] at hb'
      cases hb'
    · obtain ⟨child, attach, hd⟩ := hout p hp
      rw [hd] at hb
      cases hb
  noAck := by
    intro p hp k accepted refused hbody
    rcases List.mem_cons.mp hp with rfl | hp
    · cases hbody
    obtain ⟨child, attach, hd⟩ := hout p hp
    rw [hd] at hbody
    cases hbody
  pending := by
    intro k d hd
    rcases hpending k d hd with hold | ⟨rfl, rfl⟩
    · exact .inl hold
    · exact .inr ⟨le_rfl, Nat.lt_succ_self _, subs, List.mem_cons_self⟩

/-- **The promotion of a child** keeps all seats. -/
theorem Grown.of_promoteChild {b' : Branch} {out : List Packet}
    (h : b.promoteChild cfg self cooldown now nonce = some (b', out)) :
    Grown self b nonce b' out (nonce + 1) := by
  unfold promoteChild at h
  split at h
  next leaf next rest _ =>
    cases Option.some.inj h
    refine .of_offer (fun _ hx => hx) ?_ ?_
    · intro p hp
      split at hp
      · obtain ⟨x, -, rfl⟩ := List.mem_map.mp hp
        exact ⟨leaf, none, rfl⟩
      · cases hp
    · intro k d hd
      replace hd : (b.pendingDelegation.set nonce ⟨leaf, _, now⟩).get k = some d := hd
      rw [get_set] at hd
      split at hd
      · exact .inr ⟨‹_›, (congrArg Delegation.child (Option.some.inj hd)).symm⟩
      · exact .inl hd
  · cases h

theorem Grown.seat {b' : Branch} {out : List Packet} {nonce' : Nonce}
    (h : Grown self b nonce b' out nonce') : Grown self b nonce (b'.seat f now) out nonce' := by
  refine ⟨fun x hx => ?_, h.mono, h.adopts, h.single, h.noAck, h.pending⟩
  rw [has_seat, h.keeps x hx, Bool.or_true]

/-- **The step of an acceptance.** -/
theorem grown_accept (cfg : SeatConfig) (b : Branch) (self : NodeId) (cooldown : NodeId → Int)
    (now : Int) (f : SeatRequest) (nonce : Nonce) :
    Grown self b nonce (b.accept cfg self cooldown now f nonce).1
      (b.accept cfg self cooldown now f nonce).2.1
      (b.accept cfg self cooldown now f nonce).2.2 := by
  unfold accept
  split
  · refine .of_seats (fun x hx => ?_) rfl
    simp [hx]
  split
  · split
    next b' out hpromote => exact (Grown.of_promoteChild hpromote).seat
    split
    next c b' hpick =>
      obtain rfl : (b.pickChild f.subscriber).2 = b' := by rw [hpick]
      refine .of_offer (fun x hx => hx) ?_ fun k d hd => .inl hd
      intro p hp
      split at hp
      · rw [List.mem_singleton.mp hp]
        exact ⟨c, f.attach, rfl⟩
      · cases hp
    next b' hpick =>
      obtain rfl : (b.pickChild f.subscriber).2 = b' := by rw [hpick]
      exact .seat (.of_seats (fun x hx => hx) rfl)
  · exact .seat (.of_seats (fun x hx => hx) rfl)

/-- **Who is seated**: all but a newcomer that is passed on. -/
theorem has_accept_iff :
    (b.accept cfg self cooldown now f nonce).1.subscribers.has f.subscriber = true
      ↔ ¬b.Deepens cfg cooldown now f := by
  unfold accept
  split
  next old hold =>
    -- a renewal
    have hhas : b.subscribers.has f.subscriber = true := has_iff.mpr ⟨old, hold⟩
    refine iff_of_true (by simp) fun h => ?_
    rw [h.newcomer] at hhas
    cases hhas
  next hnew =>
  have hnewcomer : b.subscribers.has f.subscriber = false := by simp [OrderedMap.has, hnew]
  split
  next hfull =>
    split
    next b' out hpromote =>
      refine iff_of_true (by simp [has_seat]) fun h => ?_
      have hnone := (@promoteChild_eq_none cfg b self cooldown now nonce).mpr h.noLeaf
      rw [hpromote] at hnone
      cases hnone
    next hpromote =>
    have hleaf := promoteChild_eq_none.mp hpromote
    split
    next c b' hpick =>
      obtain rfl : (b.pickChild f.subscriber).2 = b' := by rw [hpick]
      refine iff_of_false ?_ fun h => h ⟨hnewcomer, hfull.1, hfull.2, hleaf, ?_⟩
      · exact Bool.eq_false_iff.mp hnewcomer
      · exact pickChild_isSome.mp (by rw [hpick]; rfl)
    next b' hpick =>
    refine iff_of_true (by simp [has_seat]) fun h => ?_
    have hsome := (pickChild_isSome (x := f.subscriber)).mpr h.child
    rw [hpick] at hsome
    cases hsome
  next hroom =>
    exact iff_of_true (by simp [has_seat]) fun h => hroom ⟨h.full, h.kind⟩

/-! ### What takes seats away -/

/-- **Who is released.** A settled delegation takes the seats of those that were offered to the
child and that its answer names. -/
theorem of_settleDelegation {accepted : List NodeId} (hhas : b.subscribers.has x = true)
    (hgone : (b.settleDelegation nonce accepted).subscribers.has x = false) :
    ∃ pend, b.pendingDelegation.get nonce = some pend ∧ x ∈ pend.subs ∧ x ∈ accepted := by
  unfold settleDelegation at hgone
  split at hgone
  · rw [hhas] at hgone
    cases hgone
  next pend hpend =>
  refine ⟨pend, hpend, ?_⟩
  by_contra hkept
  obtain ⟨seat, hseat⟩ := has_iff.mp hhas
  refine absurd ?_ (Bool.eq_false_iff.mp hgone)
  refine has_iff.mpr ⟨seat, get_filter_some.mpr ⟨hseat, ?_⟩⟩
  rw [Bool.not_eq_true', List.contains_eq_mem, decide_eq_false_iff_not, List.mem_filter]
  rintro ⟨hsub, hok⟩
  simp only [Bool.and_eq_true, List.contains_eq_mem, decide_eq_true_eq] at hok
  exact hkept ⟨hsub, hok.1.1⟩

/-- A delegation that nobody answered takes no seat. -/
theorem has_delegationSweep (hhas : b.subscribers.has x = true) :
    (b.delegationSweep now).subscribers.has x = true := by
  unfold delegationSweep
  generalize b.pendingDelegation.entries = entries
  induction entries generalizing b with
  | nil => exact hhas
  | cons e entries ih =>
    rw [List.foldl_cons]
    refine ih ?_
    split
    · by_contra hgone
      obtain ⟨-, -, -, hnone⟩ := of_settleDelegation hhas (Bool.eq_false_iff.mpr hgone)
      cases hnone
    · exact hhas

/-- **Whose lease lapses.** -/
theorem of_lapse (hhas : b.subscribers.has x = true)
    (hgone : (b.lapse cfg now).subscribers.has x = false) :
    ∃ seat, b.subscribers.get x = some seat ∧ cfg.dropMs < now - seat.lastRenewed := by
  obtain ⟨seat, hseat⟩ := has_iff.mp hhas
  refine ⟨seat, hseat, ?_⟩
  by_contra hfresh
  refine absurd ?_ (Bool.eq_false_iff.mp hgone)
  refine has_iff.mpr ⟨seat, get_filter_some.mpr ⟨hseat, ?_⟩⟩
  simp only [hseat, Option.any_some, Bool.not_eq_true', decide_eq_false_iff_not]
  exact hfresh

theorem has_inherit {seats : List (NodeId × Int × Bool)} (hhas : b.subscribers.has x = true) :
    (b.inherit now seats).subscribers.has x = true := by
  unfold inherit
  induction seats generalizing b with
  | nil => exact hhas
  | cons e seats ih =>
    rw [List.foldl_cons]
    refine ih ?_
    split
    · exact hhas
    · simp [hhas]

/-- Only the unsubscribed one loses its seat. -/
theorem of_unsub {y : NodeId} (hhas : b.subscribers.has x = true)
    (hgone : (b.unsub y).subscribers.has x = false) : x = y := by
  by_contra hne
  simp [unsub, OrderedMap.has, hne] at hgone
  rw [OrderedMap.has, hgone] at hhas
  cases hhas

/-- What a settled delegation leaves pending was pending. -/
theorem pending_settleDelegation {accepted : List NodeId} {k : Nonce} {d : Delegation}
    (h : (b.settleDelegation nonce accepted).pendingDelegation.get k = some d) :
    b.pendingDelegation.get k = some d := by
  unfold settleDelegation at h
  split at h
  · exact h
  · replace h : (b.pendingDelegation.delete nonce).get k = some d := h
    exact of_get_delete h

theorem pending_delegationSweep {k : Nonce} {d : Delegation}
    (h : (b.delegationSweep now).pendingDelegation.get k = some d) :
    b.pendingDelegation.get k = some d := by
  unfold delegationSweep at h
  generalize b.pendingDelegation.entries = entries at h
  induction entries generalizing b with
  | nil => exact h
  | cons e entries ih =>
    rw [List.foldl_cons] at h
    have hstep := ih h
    split at hstep
    · exact pending_settleDelegation hstep
    · exact hstep

theorem pending_inherit (b : Branch) (now : Int) (seats : List (NodeId × Int × Bool)) :
    (b.inherit now seats).pendingDelegation = b.pendingDelegation := by
  unfold inherit
  induction seats generalizing b with
  | nil => rfl
  | cons e seats ih =>
    rw [List.foldl_cons, ih]
    split <;> rfl

/-- **An acceptance after another.** -/
theorem Grown.trans {b₁ b₂ : Branch} {n₁ n₂ : Nonce} {out₁ out₂ : List Packet}
    (h : Grown self b nonce b₁ out₁ n₁) (h' : Grown self b₁ n₁ b₂ out₂ n₂) :
    Grown self b nonce b₂ (out₂ ++ out₁) n₂ where
  keeps := fun x hx => h'.keeps x (h.keeps x hx)
  mono := h.mono.trans h'.mono
  adopts := by
    intro p hp parent subs k hbody
    rcases List.mem_append.mp hp with hp | hp
    · obtain ⟨hparent, hsender, hlow, hhigh⟩ := h'.adopts p hp parent subs k hbody
      exact ⟨hparent, hsender, h.mono.trans hlow, hhigh⟩
    · obtain ⟨hparent, hsender, hlow, hhigh⟩ := h.adopts p hp parent subs k hbody
      exact ⟨hparent, hsender, hlow, hhigh.trans_le h'.mono⟩
  single := by
    intro p hp q hq parent subs parent' subs' k hb hb'
    rcases List.mem_append.mp hp with hp | hp <;> rcases List.mem_append.mp hq with hq | hq
    · exact h'.single p hp q hq parent subs parent' subs' k hb hb'
    · obtain ⟨-, -, hlow, -⟩ := h'.adopts p hp parent subs k hb
      obtain ⟨-, -, -, hhigh⟩ := h.adopts q hq parent' subs' k hb'
      exact absurd hhigh (Nat.not_lt.mpr hlow)
    · obtain ⟨-, -, -, hhigh⟩ := h.adopts p hp parent subs k hb
      obtain ⟨-, -, hlow, -⟩ := h'.adopts q hq parent' subs' k hb'
      exact absurd hhigh (Nat.not_lt.mpr hlow)
    · exact h.single p hp q hq parent subs parent' subs' k hb hb'
  noAck := by
    intro p hp
    rcases List.mem_append.mp hp with hp | hp
    · exact h'.noAck p hp
    · exact h.noAck p hp
  pending := by
    intro k d hd
    rcases h'.pending k d hd with hold | ⟨hlow, hhigh, subs, hmem⟩
    · rcases h.pending k d hold with hold | ⟨hlow, hhigh, subs, hmem⟩
      · exact .inl hold
      · exact .inr ⟨hlow, hhigh.trans_le h'.mono, subs, List.mem_append_right _ hmem⟩
    · exact .inr ⟨h.mono.trans hlow, hhigh, subs, List.mem_append_left _ hmem⟩

end Branch

/-! ### The seats of an ADOPT -/

namespace Tree

open Branch

variable {cfg : SeatConfig} {s : Tree} {self : NodeId} {x : NodeId}

/-- What the subscribers of an ADOPT lead to, and that those it names are seated. -/
structure Adopted (me : NodeId) (b : Branch) (nonce : Nonce)
    (acc : Branch × List Packet × Nonce × List NodeId) : Prop where
  grown : Grown me b nonce acc.1 acc.2.1 acc.2.2.1
  named : ∀ x ∈ acc.2.2.2, acc.1.subscribers.has x = true

variable {b : Branch}

theorem adopted_adoptOne {nonce : Nonce} {cooldown : NodeId → Int} {now : Int}
    {acc : Branch × List Packet × Nonce × List NodeId} (h : Adopted self b nonce acc)
    (sub : NodeId × Int) : Adopted self b nonce (adoptOne cfg self cooldown now acc sub) := by
  obtain ⟨b₁, out, n, accepted⟩ := acc
  unfold adoptOne
  simp only []
  split
  · exact h
  have hstep := grown_accept cfg b₁ self cooldown now ⟨sub.1, sub.2, .reader, 1, none⟩ n
  refine ⟨h.grown.trans hstep, fun x hx => ?_⟩
  split at hx
  next hhas =>
    rcases List.mem_append.mp hx with hx | hx
    · exact hstep.keeps x (h.named x hx)
    · rw [List.mem_singleton.mp hx]
      exact hhas
  next => exact hstep.keeps x (h.named x hx)

/-- **The fold over an ADOPT.** -/
theorem adopted_foldl {nonce : Nonce} {cooldown : NodeId → Int} {now : Int}
    (subs : List (NodeId × Int)) {acc : Branch × List Packet × Nonce × List NodeId}
    (h : Adopted self b nonce acc) :
    Adopted self b nonce (subs.foldl (adoptOne cfg self cooldown now) acc) := by
  induction subs generalizing acc with
  | nil => exact h
  | cons sub subs ih => exact ih (adopted_adoptOne h sub)

theorem adopted_nil (me : NodeId) (b : Branch) (nonce : Nonce) :
    Adopted me b nonce (b, [], nonce, []) where
  grown := .of_seats (fun _ hx => hx) rfl
  named := by simp

/-! ### The seats of a node -/

/-- The node has a seat for a subscriber. -/
def seated (s : Tree) (self x : NodeId) : Bool :=
  (s.branches.get self).any (·.subscribers.has x)

theorem seated_iff :
    s.seated self x = true ↔ ∃ b, s.branches.get self = some b ∧ b.subscribers.has x = true :=
  Option.any_eq_true _ _

variable {s' : Tree} {me : NodeId}

/-- The seats after those of one node were written. -/
theorem seated_set (h : s'.branches = s.branches.set me b) :
    s'.seated self x = if self = me then b.subscribers.has x else s.seated self x := by
  rw [seated, h, get_set]
  split
  · rfl
  · rfl

/-- No seat is lost where a node's seats grow. -/
theorem seated_of_grown {nonce nonce' : Nonce} {out : List Packet}
    (h : s'.branches = s.branches.set me b)
    (hgrown : Grown me ((s.branches.get me).getD .empty) nonce b out nonce')
    (hseat : s.seated self x = true) : s'.seated self x = true := by
  rw [seated_set h]
  split
  next heq =>
    obtain ⟨b₀, hb₀, hhas⟩ := seated_iff.mp hseat
    rw [heq] at hb₀
    rw [hb₀] at hgrown
    exact hgrown.keeps x hhas
  next => exact hseat

/-- **Where a seat goes**: at the node whose seats were changed, if the change took it. -/
theorem seated_onBranch {f : Branch → Branch} (hseat : s.seated self x = true)
    (hgone : (s.onBranch me f).seated self x = false) :
    self = me ∧ ∃ b, s.branches.get me = some b ∧ b.subscribers.has x = true ∧
      (f b).subscribers.has x = false := by
  obtain ⟨b₀, hb₀, hhas⟩ := seated_iff.mp hseat
  unfold onBranch at hgone
  split at hgone
  · rw [hseat] at hgone
    cases hgone
  next b hb =>
  rw [seated_set rfl] at hgone
  split at hgone
  next heq =>
    rw [heq, hb] at hb₀
    obtain rfl := Option.some.inj hb₀
    exact ⟨heq, b, hb, hhas, hgone⟩
  next =>
    rw [hseat] at hgone
    cases hgone

/-! ### The packets -/

/-- **The books of the relays.** An offer is its sender's own and its nonce names it, an answer
follows an offer, and what is pending was offered. -/
structure OffersBooked (s : Tree) : Prop where
  offers : ∀ p ∈ s.sent, ∀ parent subs k, p.body = .adopt parent subs k →
    parent = p.sender ∧ k < s.nextNonce
  single : ∀ p ∈ s.sent, ∀ q ∈ s.sent, ∀ parent subs parent' subs' k,
    p.body = .adopt parent subs k → q.body = .adopt parent' subs' k → p.target = q.target
  answers : ∀ p ∈ s.sent, ∀ k accepted refused, p.body = .adoptAck k accepted refused →
    ∃ subs, ⟨p.target, p.sender, .adopt p.target subs k⟩ ∈ s.sent
  pending : ∀ me b k d, s.branches.get me = some b → b.pendingDelegation.get k = some d →
    ∃ subs, ⟨me, d.child, .adopt me subs k⟩ ∈ s.sent

theorem offersBooked_init : OffersBooked init where
  offers := by simp [init]
  single := by simp [init]
  answers := by simp [init]
  pending := by simp [init]

/-- A pending delegation is answered by the child it was offered to. -/
theorem OffersBooked.answered_by {k : Nonce} {d : Delegation} {p : Packet} {accepted : List NodeId}
    {refused : Bool} (h : OffersBooked s) (hp : p ∈ s.sent)
    (hbody : p.body = .adoptAck k accepted refused) (hb : s.branches.get p.target = some b)
    (hd : b.pendingDelegation.get k = some d) : p.sender = d.child := by
  obtain ⟨subs, hoffer⟩ := h.answers p hp k accepted refused hbody
  obtain ⟨subs', hoffered⟩ := h.pending p.target b k d hb hd
  exact h.single _ hoffer _ hoffered _ _ _ _ k rfl rfl

/-- Nothing is sent, and nothing becomes pending. -/
theorem OffersBooked.of_branches (h : OffersBooked s) (hsent : s'.sent = s.sent)
    (hnonce : s'.nextNonce = s.nextNonce)
    (hpending : ∀ me b k d, s'.branches.get me = some b → b.pendingDelegation.get k = some d →
      ∃ b₀, s.branches.get me = some b₀ ∧ b₀.pendingDelegation.get k = some d) : OffersBooked s' where
  offers := by
    rw [hsent, hnonce]
    exact h.offers
  single := by
    rw [hsent]
    exact h.single
  answers := by
    rw [hsent]
    exact h.answers
  pending := by
    intro me b k d hb hd
    obtain ⟨b₀, hb₀, hd₀⟩ := hpending me b k d hb hd
    rw [hsent]
    exact h.pending me b₀ k d hb₀ hd₀

theorem OffersBooked.onBranch {f : Branch → Branch} (h : OffersBooked s)
    (hf : ∀ b k d, (f b).pendingDelegation.get k = some d → b.pendingDelegation.get k = some d) :
    OffersBooked (s.onBranch me f) := by
  unfold Tree.onBranch
  split
  · exact h
  next b hb =>
  refine h.of_branches rfl rfl fun me' b' k d hb' hd => ?_
  replace hb' : (s.branches.set me (f b)).get me' = some b' := hb'
  rw [get_set] at hb'
  split at hb'
  next heq =>
    cases hb'
    exact ⟨b, heq ▸ hb, hf b k d hd⟩
  next => exact ⟨b', hb', hd⟩

/-- **A node's seats grow.** -/
theorem OffersBooked.grow {out : List Packet} (h : OffersBooked s)
    (hgrown : Grown me ((s.branches.get me).getD .empty) s.nextNonce b out s'.nextNonce)
    (hbranches : s'.branches = s.branches.set me b) (hsent : s'.sent = out ++ s.sent) :
    OffersBooked s' where
  offers := by
    intro p hp parent subs k hbody
    rw [hsent] at hp
    rcases List.mem_append.mp hp with hp | hp
    · obtain ⟨hparent, hsender, -, hk⟩ := hgrown.adopts p hp parent subs k hbody
      exact ⟨hparent.trans hsender.symm, hk⟩
    · obtain ⟨hparent, hk⟩ := h.offers p hp parent subs k hbody
      exact ⟨hparent, hk.trans_le hgrown.mono⟩
  single := by
    intro p hp q hq parent subs parent' subs' k hb hb'
    rw [hsent] at hp hq
    rcases List.mem_append.mp hp with hp | hp <;> rcases List.mem_append.mp hq with hq | hq
    · exact hgrown.single p hp q hq parent subs parent' subs' k hb hb'
    · obtain ⟨-, -, hlow, -⟩ := hgrown.adopts p hp parent subs k hb
      exact absurd (h.offers q hq parent' subs' k hb').2 (Nat.not_lt.mpr hlow)
    · obtain ⟨-, -, hlow, -⟩ := hgrown.adopts q hq parent' subs' k hb'
      exact absurd (h.offers p hp parent subs k hb).2 (Nat.not_lt.mpr hlow)
    · exact h.single p hp q hq parent subs parent' subs' k hb hb'
  answers := by
    intro p hp k accepted refused hbody
    rw [hsent] at hp ⊢
    rcases List.mem_append.mp hp with hp | hp
    · exact absurd hbody (hgrown.noAck p hp k accepted refused)
    · obtain ⟨subs, hoffer⟩ := h.answers p hp k accepted refused hbody
      exact ⟨subs, List.mem_append_right _ hoffer⟩
  pending := by
    intro me' b' k d hb' hd
    rw [hbranches, get_set] at hb'
    rw [hsent]
    split at hb'
    next heq =>
      cases hb'
      rw [heq]
      rcases hgrown.pending k d hd with hold | ⟨-, -, subs, hmem⟩
      · cases hme : s.branches.get me with
        | none =>
          rw [hme] at hold
          cases hold
        | some b₀ =>
          rw [hme] at hold
          obtain ⟨subs, hmem⟩ := h.pending me b₀ k d hme hold
          exact ⟨subs, List.mem_append_right _ hmem⟩
      · exact ⟨subs, List.mem_append_left _ hmem⟩
    next =>
      obtain ⟨subs, hmem⟩ := h.pending me' b' k d hb' hd
      exact ⟨subs, List.mem_append_right _ hmem⟩

/-- **An offer is answered.** -/
theorem OffersBooked.answer {parent : NodeId} {k : Nonce} {subs : List (NodeId × Int)}
    {accepted : List NodeId} {refused : Bool} (h : OffersBooked s)
    (hoffer : ⟨parent, me, .adopt parent subs k⟩ ∈ s.sent) :
    OffersBooked { s with sent := ⟨me, parent, .adoptAck k accepted refused⟩ :: s.sent } where
  offers := by
    intro p hp parent' subs' k' hbody
    rcases List.mem_cons.mp hp with rfl | hp
    · cases hbody
    · exact h.offers p hp parent' subs' k' hbody
  single := by
    intro p hp q hq parent₁ subs₁ parent₂ subs₂ k' hb hb'
    rcases List.mem_cons.mp hp with rfl | hp
    · cases hb
    rcases List.mem_cons.mp hq with rfl | hq
    · cases hb'
    · exact h.single p hp q hq parent₁ subs₁ parent₂ subs₂ k' hb hb'
  answers := by
    intro p hp k' accepted' refused' hbody
    rcases List.mem_cons.mp hp with rfl | hp
    · cases hbody
      exact ⟨subs, List.mem_cons_of_mem _ hoffer⟩
    · obtain ⟨subs', hoffer'⟩ := h.answers p hp k' accepted' refused' hbody
      exact ⟨subs', List.mem_cons_of_mem _ hoffer'⟩
  pending := by
    intro me' b k' d hb hd
    obtain ⟨subs', hmem⟩ := h.pending me' b k' d hb hd
    exact ⟨subs', List.mem_cons_of_mem _ hmem⟩

/-! ### What a step does -/

/-- **A SUB**: no seat is lost, and the newcomer has one unless it is passed on. -/
theorem grown_onSub {f : SeatRequest} {now : Int} (hb : s.branches.get me = some b)
    (hself : f.subscriber ≠ me) : ∃ b' out, (s.onSub cfg me f now).branches = s.branches.set me b' ∧
      (s.onSub cfg me f now).sent = out ++ s.sent ∧
      Grown me ((s.branches.get me).getD .empty) s.nextNonce b' out
        (s.onSub cfg me f now).nextNonce ∧
      (b'.subscribers.has f.subscriber = true ↔ ¬b.Deepens cfg (s.cooldown me) now f) := by
  have hstep : s.onSub cfg me f now =
      { s with
        branches := s.branches.set me (b.accept cfg me (s.cooldown me) now f s.nextNonce).1
        sent := (b.accept cfg me (s.cooldown me) now f s.nextNonce).2.1 ++ s.sent
        nextNonce := (b.accept cfg me (s.cooldown me) now f s.nextNonce).2.2 } := by
    unfold onSub
    rw [hb]
    exact if_neg hself
  rw [hstep, hb]
  exact ⟨_, _, rfl, rfl, grown_accept cfg b me (s.cooldown me) now f s.nextNonce, has_accept_iff⟩

/-- Nothing comes of a SUB where there is no role, nor of one that came from the node itself. -/
theorem onSub_eq_self {f : SeatRequest} {now : Int}
    (h : s.branches.get me = none ∨ f.subscriber = me) : s.onSub cfg me f now = s := by
  unfold onSub
  split
  · rfl
  next b hb =>
  refine if_pos (h.resolve_left fun hnone => ?_)
  rw [hb] at hnone
  cases hnone

/-- **An ADOPT**: a refusal is sent, or no seat is lost and those are named that have one. -/
theorem onAdopt_cases (s : Tree) (me parent : NodeId) (subs : List (NodeId × Int)) (k : Nonce)
    (now : Int) (custody : Bool) : s.onAdopt cfg me parent subs k now custody =
        { s with sent := ⟨me, parent, .adoptAck k [] true⟩ :: s.sent } ∨
    ∃ b out next accepted, s.onAdopt cfg me parent subs k now custody =
        { s with
          branches := s.branches.set me b
          sent := ⟨me, parent, .adoptAck k accepted false⟩ :: (out ++ s.sent)
          nextNonce := next } ∧
      Adopted me ((s.branches.get me).getD .empty) s.nextNonce (b, out, next, accepted) := by
  unfold onAdopt
  split
  · exact .inl rfl
  · exact .inr ⟨_, _, _, _, rfl, adopted_foldl subs (adopted_nil me _ s.nextNonce)⟩

/-- **The books are kept** by every step. -/
theorem offersBooked_step (cfg : SeatConfig) (s : Tree) (a : Act) (h : OffersBooked s) :
    OffersBooked (step cfg s a) := by
  cases a with
  | sub me f now =>
    show OffersBooked (s.onSub cfg me f now)
    cases hb : s.branches.get me with
    | none => rwa [onSub_eq_self (.inl hb)]
    | some b =>
      by_cases hself : f.subscriber = me
      · rwa [onSub_eq_self (.inr hself)]
      · obtain ⟨b', out, hbranches, hsent, hgrown, -⟩ := @grown_onSub cfg s b me f now hb hself
        exact h.grow hgrown hbranches hsent
  | unsub me x steppedDown now =>
    have hunsub : OffersBooked (s.onBranch me (·.unsub x)) := h.onBranch fun _ _ _ hd => hd
    simp only [step]
    split
    · exact hunsub.of_branches rfl rfl fun me' b k d hb hd => ⟨b, hb, hd⟩
    · exact hunsub
  | receive p now custody =>
    simp only [step]
    split
    next hp =>
      split
      next parent subs k hbody =>
        obtain ⟨rfl, -⟩ := h.offers p hp parent subs k hbody
        have hoffer : ⟨p.sender, p.target, .adopt p.sender subs k⟩ ∈ s.sent := by
          rwa [← hbody]
        rcases onAdopt_cases s p.target p.sender subs k now custody with
          heq | ⟨b, out, next, accepted, heq, hadopted⟩
        · rw [heq]
          exact h.answer hoffer
        · -- the seats first, then the answer
          have hgrow : OffersBooked
              { s with
                branches := s.branches.set p.target b, sent := out ++ s.sent, nextNonce := next } :=
            h.grow hadopted.grown rfl rfl
          rw [heq]
          exact hgrow.answer (List.mem_append_right _ hoffer)
      · exact h.onBranch fun _ _ _ hd => pending_settleDelegation hd
      · exact h
    · exact h
  | delegationSweep me now => exact h.onBranch fun _ _ _ hd => pending_delegationSweep hd
  | lapse me now | terminated me => exact h.onBranch fun _ _ _ hd => hd
  | inherit me now seats =>
    refine h.onBranch fun b k d hd => ?_
    rwa [pending_inherit] at hd
  | form me =>
    simp only [step]
    split
    · exact h
    refine h.of_branches rfl rfl fun me' b k d hb hd => ?_
    replace hb : (s.branches.set me .empty).get me' = some b := hb
    rw [get_set] at hb
    split at hb
    · rw [← Option.some.inj hb] at hd
      cases hd
    · exact ⟨b, hb, hd⟩
  | retire me =>
    refine h.of_branches rfl rfl fun me' b k d hb hd => ?_
    replace hb : (s.branches.delete me).get me' = some b := hb
    exact ⟨b, of_get_delete hb, hd⟩

/-! ### The property -/

/-- **What a relay may let a seat go for**: the child that was offered the subscriber names it, the
subscriber leaves, its lease lapses, or the topic or the role ends. -/
inductive Excused (cfg : SeatConfig) (s : Tree) (me x : NodeId) : Act → Prop where
  | acked {p : Packet} {k : Nonce} {accepted : List NodeId} {b : Branch} {pend : Delegation}
      {now : Int} {custody : Bool} (arrived : p ∈ s.sent) (target : p.target = me)
      (names : p.body = .adoptAck k accepted false ∧ x ∈ accepted)
      (role : s.branches.get me = some b) (offered : b.pendingDelegation.get k = some pend)
      (batch : x ∈ pend.subs) (child : p.sender = pend.child) :
      Excused cfg s me x (.receive p now custody)
  | left {steppedDown : Bool} {now : Int} : Excused cfg s me x (.unsub me x steppedDown now)
  | lapsed {b : Branch} {seat : Seat} {now : Int} (role : s.branches.get me = some b)
      (lease : b.subscribers.get x = some seat) (stale : cfg.dropMs < now - seat.lastRenewed) :
      Excused cfg s me x (.lapse me now)
  | terminated : Excused cfg s me x (.terminated me)
  | retired : Excused cfg s me x (.retire me)

/-- **No subscriber is stranded** by a step: a seat is let go for a reason only, an answer names
those its sender has a seat for, and a SUB at a relay leads to a seat there. -/
structure Unstranded (cfg : SeatConfig) (s : Tree) (a : Act) : Prop where
  kept : ∀ me x, s.seated me x = true → (step cfg s a).seated me x = false → Excused cfg s me x a
  named : ∀ new, (step cfg s a).sent = new ++ s.sent → ∀ p ∈ new, ∀ k accepted refused,
    p.body = .adoptAck k accepted refused → ∀ x ∈ accepted, (step cfg s a).seated p.sender x = true
  given : ∀ me f now, a = .sub me f now → s.branches.has me = true → f.subscriber ≠ me →
    (step cfg s a).seated me f.subscriber = true

/-- The step passes a newcomer on. -/
def Deepens (cfg : SeatConfig) (s : Tree) : Act → Prop
  | .sub me f now => ∃ b, s.branches.get me = some b ∧ f.subscriber ≠ me ∧
      b.Deepens cfg (s.cooldown me) now f
  | _ => False

/-- **A seat that is let go.** -/
theorem excused_step (h : OffersBooked s) (a : Act) (me x : NodeId) (hseat : s.seated me x = true)
    (hgone : (step cfg s a).seated me x = false) : Excused cfg s me x a := by
  have hkept {P : Prop} (hkeep : (step cfg s a).seated me x = true) : P := by
    rw [hgone] at hkeep
    cases hkeep
  cases a with
  | sub me' f now =>
    refine hkept ?_
    show (s.onSub cfg me' f now).seated me x = true
    cases hb : s.branches.get me' with
    | none => rwa [onSub_eq_self (.inl hb)]
    | some b =>
      by_cases hself : f.subscriber = me'
      · rwa [onSub_eq_self (.inr hself)]
      · obtain ⟨b', out, hbranches, -, hgrown, -⟩ := grown_onSub hb hself
        exact seated_of_grown hbranches hgrown hseat
  | unsub me' y steppedDown now =>
    have hbranch : (s.onBranch me' (·.unsub y)).seated me x = false := by
      simp only [step] at hgone
      split at hgone <;> exact hgone
    obtain ⟨rfl, b, -, hhas, hlost⟩ := seated_onBranch hseat hbranch
    obtain rfl := of_unsub hhas hlost
    exact .left
  | receive p now custody =>
    simp only [step] at hgone
    split at hgone
    next hp =>
      split at hgone
      next parent subs k hbody =>
        refine hkept ?_
        simp only [step, if_pos hp, hbody]
        rcases onAdopt_cases s p.target parent subs k now custody with
          heq | ⟨b, out, next, accepted, heq, hadopted⟩
        · rw [heq]
          exact hseat
        · rw [heq]
          exact seated_of_grown rfl hadopted.grown hseat
      next k accepted refused hbody =>
        obtain ⟨htarget, b, hb, hhas, hlost⟩ := seated_onBranch hseat hgone
        obtain ⟨pend, hpend, hbatch, hnamed⟩ := of_settleDelegation hhas hlost
        cases refused with
        | true => cases hnamed
        | false =>
          exact .acked hp htarget.symm ⟨hbody, hnamed⟩ (htarget ▸ hb) hpend hbatch
            (h.answered_by hp hbody hb hpend)
      · rw [hseat] at hgone
        cases hgone
    · rw [hseat] at hgone
      cases hgone
  | delegationSweep me' now =>
    obtain ⟨-, b, -, hhas, hlost⟩ := seated_onBranch hseat hgone
    rw [has_delegationSweep hhas] at hlost
    cases hlost
  | lapse me' now =>
    obtain ⟨rfl, b, hb, hhas, hlost⟩ := seated_onBranch hseat hgone
    obtain ⟨seat, hlease, hstale⟩ := of_lapse hhas hlost
    exact .lapsed hb hlease hstale
  | inherit me' now seats =>
    obtain ⟨-, b, -, hhas, hlost⟩ := seated_onBranch hseat hgone
    rw [has_inherit hhas] at hlost
    cases hlost
  | form me' =>
    refine hkept ?_
    simp only [step]
    split
    · exact hseat
    next hnew =>
    rw [seated_set rfl]
    split
    next heq =>
      obtain ⟨b, hb, -⟩ := seated_iff.mp hseat
      exact absurd (has_iff.mpr ⟨b, heq ▸ hb⟩) hnew
    next => exact hseat
  | terminated me' =>
    obtain ⟨rfl, -⟩ := seated_onBranch hseat hgone
    exact .terminated
  | retire me' =>
    by_cases heq : me = me'
    · rw [heq]
      exact .retired
    · refine hkept ?_
      simpa [step, seated, heq] using hseat

/-- Of what was sent before nothing is new. -/
theorem eq_nil_of_sent (hsent : s'.sent = s.sent) {new : List Packet}
    (hnew : s'.sent = new ++ s.sent) : new = [] := by
  rw [hsent] at hnew
  exact List.self_eq_append_left.mp hnew

@[simp] theorem onBranch_sent (s : Tree) (me : NodeId) (f : Branch → Branch) :
    (s.onBranch me f).sent = s.sent := by
  unfold onBranch
  split <;> rfl

/-- **An answer names the seated.** -/
theorem named_step (s : Tree) (a : Act) (new : List Packet)
    (hnew : (step cfg s a).sent = new ++ s.sent) (p : Packet) (hp : p ∈ new) (k : Nonce)
    (accepted : List NodeId) (refused : Bool) (hbody : p.body = .adoptAck k accepted refused)
    (x : NodeId) (hx : x ∈ accepted) : (step cfg s a).seated p.sender x = true := by
  have hnone {P : Prop} (hsent : (step cfg s a).sent = s.sent) : P := by
    rw [eq_nil_of_sent hsent hnew] at hp
    cases hp
  cases a with
  | sub me f now =>
    cases hb : s.branches.get me with
    | none => exact hnone (congrArg sent (onSub_eq_self (.inl hb)))
    | some b =>
      by_cases hself : f.subscriber = me
      · exact hnone (congrArg sent (onSub_eq_self (.inr hself)))
      obtain ⟨b', out, -, hsent, hgrown, -⟩ := grown_onSub hb hself
      obtain rfl := List.append_cancel_right (hnew.symm.trans hsent)
      exact absurd hbody (hgrown.noAck p hp k accepted refused)
  | unsub me y steppedDown now =>
    refine hnone ?_
    simp only [step]
    split <;> exact onBranch_sent ..
  | receive q now custody =>
    by_cases hq : q ∈ s.sent
    · cases hoffer : q.body with
      | adopt parent subs k' =>
        simp only [step, if_pos hq, hoffer] at hnew ⊢
        rcases onAdopt_cases s q.target parent subs k' now custody with
          heq | ⟨b, out, next, named, heq, hadopted⟩
        · rw [heq] at hnew
          obtain rfl : [_] = new := List.append_cancel_right hnew
          rw [List.mem_singleton.mp hp] at hbody
          cases hbody
          cases hx
        · rw [heq] at hnew ⊢
          obtain rfl : _ :: out = new := List.append_cancel_right hnew
          rcases List.mem_cons.mp hp with rfl | hout
          · cases hbody
            rw [seated_set rfl, if_pos rfl]
            exact hadopted.named x hx
          · exact absurd hbody (hadopted.grown.noAck p hout k accepted refused)
      | adoptAck k' named refused' =>
        refine hnone ?_
        simp only [step, if_pos hq, hoffer]
        exact onBranch_sent ..
      | delegate child attach =>
        refine hnone ?_
        simp only [step, if_pos hq, hoffer]
    · refine hnone ?_
      simp only [step, if_neg hq]
  | delegationSweep me now | lapse me now | inherit me now seats | terminated me =>
    exact hnone (onBranch_sent ..)
  | form me =>
    refine hnone ?_
    simp only [step]
    split <;> rfl
  | retire me => exact hnone rfl

/-- **Exactly the newcomers that are passed on are stranded.** -/
theorem unstranded_iff (h : OffersBooked s) (a : Act) : Unstranded cfg s a ↔ ¬Deepens cfg s a := by
  constructor
  · intro hgood hdeep
    cases a with
    | sub me f now =>
      obtain ⟨b, hb, hself, hdeep⟩ := hdeep
      have hgiven := hgood.given me f now rfl (has_iff.mpr ⟨b, hb⟩) hself
      obtain ⟨b', out, hbranches, -, -, hhas⟩ := @grown_onSub cfg s b me f now hb hself
      replace hgiven : (s.onSub cfg me f now).seated me f.subscriber = true := hgiven
      rw [seated_set hbranches, if_pos rfl] at hgiven
      exact hhas.mp hgiven hdeep
    | _ => exact hdeep
  · intro hroom
    refine ⟨excused_step h a, named_step s a, ?_⟩
    rintro me f now rfl hrole hself
    obtain ⟨b, hb⟩ := has_iff.mp hrole
    obtain ⟨b', out, hbranches, -, -, hhas⟩ := @grown_onSub cfg s b me f now hb hself
    show (s.onSub cfg me f now).seated me f.subscriber = true
    rw [seated_set hbranches, if_pos rfl]
    exact hhas.mpr fun hdeep => hroom ⟨b, hb, hself, hdeep⟩

/-- **Who is stranded.** In whatever order the packets between the relays arrive, however often, and
whichever of them are lost, no subscriber is stranded in the run exactly if no newcomer is passed on
to a child. -/
theorem never_stranded_iff (cfg : SeatConfig) (as : List Act) :
    EachStep (step cfg) (Unstranded cfg) init as ↔
      EachStep (step cfg) (fun s a => ¬Deepens cfg s a) init as :=
  eachStep_congr (offersBooked_step cfg) (fun _ a h => unstranded_iff h a) offersBooked_init as

/-- Relays of two seats each. -/
def smallSeats : SeatConfig where
  maxDirect := 2
  dropMs := 60000
  childCooldownMs := 60000
  topicLifetime := false

/-- A reader that asks for a seat. -/
def askSeat (x : NodeId) : SeatRequest := ⟨x, 0, .reader, 1, none⟩

/-- Four readers come to a relay. The third makes it promote the first and offer it the second, the
fourth finds no two leaves. -/
def crowd : List Act :=
  [.form 1, .sub 1 (askSeat 10) 0, .sub 1 (askSeat 11) 1, .sub 1 (askSeat 12) 2,
    .sub 1 (askSeat 13) 3]

/-- **The fourth reader is stranded**: it has no seat, nothing is kept for it, and the ADOPT that
passes it on may be lost. -/
theorem stranded_crowd : ¬EachStep (step smallSeats) (Unstranded smallSeats) init crowd := by
  rintro ⟨-, -, -, -, hfourth, -⟩
  have hgiven := hfourth.given 1 (askSeat 13) 3 rfl (by decide) (by decide)
  revert hgiven
  decide

end Tree

end Axona
