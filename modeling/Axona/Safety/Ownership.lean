import Axona.Safety.Tombstones

/-! # Who a deletion belongs to

A tombstone carries the names of the obligations that delivered it and goes with the last of them.
A delivery without a generation leaves no name. So the record of a deletion that came both ways
has the names of some of its carriers only, and the end of the last one named takes it from the
rest; and the time it is given is counted from the first delivery, whoever delivers it again. What
the record says is read off the deliveries here: while no end meets one of these cases, it names
exactly the obligations that are left. -/

namespace Axona

open Library OrderedMap

/-! ### Deliveries and obligations -/

/-- Who delivers a deletion. -/
inductive Carrier where
  /-- An obligation of a generation. -/
  | duty (g : Gen)
  /-- An appointment or an attachment without a generation. -/
  | legacy
  /-- Nobody's obligation: it stands for its lifetime. -/
  | free
deriving DecidableEq

/-- The generation a delivery is tagged with. -/
def Carrier.tag : Carrier → Option Gen
  | .duty g => some g
  | .legacy | .free => none

/-- The deliveries of one deletion that have not ended: the obligations of a generation, and of the
untagged ones when the lifetime of the last delivery is over. -/
structure Carriers where
  /-- The generations whose obligations delivered it. -/
  duties : Finset Gen
  /-- The end of what the obligations without a generation delivered. -/
  legacy : Option Int
  /-- The end of what nobody is obliged to. -/
  free : Option Int
  /-- When it was delivered first, since all that was delivered before had ended or was swept. -/
  first : Option Int
deriving DecidableEq

namespace Carriers

/-- No carrier is left. -/
def nil : Carriers := ⟨∅, none, none, none⟩

/-- Every delivery has ended. -/
def Ended (c : Carriers) : Prop := c.duties = ∅ ∧ c.legacy = none ∧ c.free = none

instance (c : Carriers) : Decidable c.Ended := inferInstanceAs (Decidable (_ ∧ _))

/-- One more delivery, at a time. -/
def add (c : Carriers) (now : Int) (k : Carrier) : Carriers :=
  let c := { c with first := c.first.or (some now) }
  match k with
  | .duty g => { c with duties := insert g c.duties }
  | .legacy => { c with legacy := some (now + ttlMs) }
  | .free => { c with free := some (now + ttlMs) }

/-- An obligation ended; with the last duty, or with what came untagged, the deliveries are over. -/
def finish (c : Carriers) : Option Gen → Carriers
  | some g => { c with
      duties := c.duties.erase g
      first := if g ∈ c.duties ∧ c.duties.erase g = ∅ then none else c.first }
  | none => { c with
      legacy := none
      first := if c.duties = ∅ then none else c.first }

/-- What is left at a time: an untagged delivery counts for its lifetime. -/
def current (c : Carriers) (now : Int) : Carriers :=
  { c with legacy := c.legacy.filter (now < ·), free := c.free.filter (now < ·) }

/-- The lifetime of the first delivery is over. -/
def Lapsed (c : Carriers) (now : Int) : Prop := ∃ τ ∈ c.first, τ + ttlMs ≤ now

instance (c : Carriers) (now : Int) : Decidable (c.Lapsed now) :=
  decidable_of_iff ((c.first.any fun τ => τ + ttlMs ≤ now) = true) (by simp [Lapsed, Option.any_eq_true])

/-- **The ends that the names of a tombstone can tell.** No other duty that is left has the name of
the generation that ends; and what ends last leaves nothing untagged behind. -/
def Tells (c : Carriers) : Option Gen → Prop
  | some g => (∀ g' ∈ c.duties, g'.key = g.key → g' = g)
      ∧ (g ∈ c.duties → c.duties.erase g = ∅ → c.legacy = none ∧ c.free = none)
  | none => c.duties = ∅ → c.free = none

instance (c : Carriers) : (owner : Option Gen) → Decidable (c.Tells owner)
  | some _ => inferInstanceAs (Decidable (_ ∧ _))
  | none => inferInstanceAs (Decidable (_ → _))

/-- **What the record says**: it names the duties that are left and is counted from the first
delivery. Without a record nothing is left. -/
def Records (c : Carriers) : Option Tombstone → Prop
  | some t => t.owners = c.duties.image Gen.key ∧ c.first = some (t.exp - ttlMs)
  | none => c.Ended ∧ c.first = none

theorem Ended.current {c : Carriers} (h : c.Ended) (now : Int) : (c.current now).Ended := by
  obtain ⟨hd, hl, hf⟩ := h
  exact ⟨hd, by simp [Carriers.current, hl], by simp [Carriers.current, hf]⟩

theorem Records.current {c : Carriers} {o : Option Tombstone} (h : c.Records o) (now : Int) :
    (c.current now).Records o := by
  cases o with
  | none => exact ⟨h.1.current now, h.2⟩
  | some t => exact h

/-- A delivery adds its name to the record that stands, or is the first of a new one. -/
theorem Records.add {c : Carriers} {o : Option Tombstone} (h : c.Records o) (now : Int)
    (k : Carrier) {t : Tombstone}
    (hstands : ∀ t₀ ∈ o, t.exp = t₀.exp ∧ t.owners = k.tag.elim t₀.owners fun g =>
      insert g.key t₀.owners)
    (hnew : o = none → t.exp = now + ttlMs ∧ t.owners = k.tag.elim ∅ fun g => {g.key}) :
    (c.add now k).Records (some t) := by
  cases o with
  | none =>
    obtain ⟨⟨hduties, -, -⟩, hfirst⟩ := h
    obtain ⟨hexp, howners⟩ := hnew rfl
    have hsince : now = t.exp - ttlMs := by omega
    cases k with
    | duty g => exact ⟨by simp [Carriers.add, howners, hduties, Carrier.tag],
        by simp [Carriers.add, hfirst, hsince]⟩
    | legacy | free => exact ⟨by simp [Carriers.add, howners, hduties, Carrier.tag],
        by simp [Carriers.add, hfirst, hsince]⟩
  | some t₀ =>
    obtain ⟨howners₀, hfirst⟩ := h
    obtain ⟨hexp, howners⟩ := hstands t₀ rfl
    cases k with
    | duty g => exact ⟨by simp [Carriers.add, howners, howners₀, Carrier.tag, Finset.image_insert],
        by simp [Carriers.add, hfirst, hexp]⟩
    | legacy | free => exact ⟨by simp [Carriers.add, howners, howners₀, Carrier.tag],
        by simp [Carriers.add, hfirst, hexp]⟩

/-- An end that the names can tell takes its own name from the record, and the record only if
nothing is left. -/
theorem Records.finish {c : Carriers} {o : Option Tombstone} (h : c.Records o) {owner : Option Gen}
    (htells : c.Tells owner) : (c.finish owner).Records (o.bind (Role.disowned owner)) := by
  cases o with
  | none =>
    obtain ⟨⟨hduties, hlegacy, hfree⟩, hfirst⟩ := h
    cases owner with
    | none => exact ⟨⟨hduties, rfl, hfree⟩, by simp [Carriers.finish, hfirst]⟩
    | some g => exact ⟨⟨by simp [Carriers.finish, hduties], hlegacy, hfree⟩,
        by simp [Carriers.finish, hfirst]⟩
  | some t =>
    obtain ⟨howners, hfirst⟩ := h
    cases owner with
    | none =>
      change Carriers.Records _ (Role.disowned none t)
      unfold Role.disowned
      by_cases hduties : c.duties = ∅
      · have hnone : t.owners = ∅ := by rw [howners, hduties, Finset.image_empty]
        rw [if_pos hnone]
        exact ⟨⟨hduties, rfl, htells hduties⟩, if_pos hduties⟩
      · have hsome : t.owners ≠ ∅ := by
          rw [howners]
          simpa using hduties
        rw [if_neg hsome]
        exact ⟨howners, (if_neg hduties).trans hfirst⟩
    | some g =>
      obtain ⟨halone, hlast⟩ := htells
      change Carriers.Records _ (Role.disowned (some g) t)
      unfold Role.disowned
      simp only []
      by_cases hg : g ∈ c.duties
      · have hnamed : (g.root, toInt32 g.epoch) ∈ t.owners := by
          rw [howners]
          exact Finset.mem_image_of_mem Gen.key hg
        -- no other duty goes by the name, so the names that are left are those of the others
        have hleft : t.owners.erase (g.root, toInt32 g.epoch) = (c.duties.erase g).image Gen.key := by
          rw [howners]
          ext x
          simp only [Finset.mem_erase, Finset.mem_image]
          constructor
          · rintro ⟨hne, g', hg', rfl⟩
            exact ⟨g', ⟨fun heq => hne (heq ▸ rfl), hg'⟩, rfl⟩
          · rintro ⟨g', ⟨hne, hg'⟩, rfl⟩
            exact ⟨fun heq => hne (halone g' hg' heq), g', hg', rfl⟩
        rw [if_pos hnamed]
        by_cases hempty : c.duties.erase g = ∅
        · rw [if_pos (by rw [hleft, hempty, Finset.image_empty])]
          obtain ⟨hlegacy, hfree⟩ := hlast hg hempty
          exact ⟨⟨hempty, hlegacy, hfree⟩, if_pos ⟨hg, hempty⟩⟩
        · rw [if_neg (by rw [hleft]; simpa using hempty)]
          exact ⟨hleft, (if_neg fun hend => hempty hend.2).trans hfirst⟩
      · have hother : (g.root, toInt32 g.epoch) ∉ t.owners := by
          rw [howners]
          intro hmem
          obtain ⟨g', hg', hkey⟩ := Finset.mem_image.mp hmem
          exact hg (halone g' hg' hkey ▸ hg')
        rw [if_neg hother]
        refine ⟨?_, (if_neg fun hend => hg hend.1).trans hfirst⟩
        rw [howners]
        exact congrArg _ (Finset.erase_eq_of_notMem hg).symm

/-- The ends of several obligations, one after another. -/
theorem Records.finishAll {c : Carriers} {o : Option Tombstone} (h : c.Records o)
    (owners : List (Option Gen)) (htells : EachStep Carriers.finish Tells c owners) :
    (owners.foldl Carriers.finish c).Records
      (owners.foldl (fun o owner => o.bind (Role.disowned owner)) o) := by
  induction owners generalizing c o with
  | nil => exact h
  | cons owner owners ih => exact ih (h.finish htells.1) htells.2

end Carriers

/-! ### A role and what is delivered to it -/

/-- A node, and the carriers of one deletion of one topic. -/
structure Custody where
  /-- The node. -/
  node : Node
  /-- Who delivered the deletion and has not ended. -/
  carriers : Carriers

/-- What happens to the deletions of a topic. -/
inductive CustodyAct where
  /-- A deletion is delivered. -/
  | deliver (d : Del) (cut : Option Cut) (c : Carrier)
  /-- The notice of a generation's end comes in. -/
  | terminated (gen : Gen) (attached : Bool) (att : Option Gen) (seats : Bool)
  /-- The tick lets expired tombstones go. -/
  | expire

namespace Custody

variable (cfg : Config) (t : TopicId) (id : MsgId)

/-- One act at the topic, seen from the deletion of one message. -/
def step (s : Custody) (a : World × CustodyAct) : Custody :=
  let n := { s.node with world := a.1 }
  let left := s.carriers.current n.now
  match a.2 with
  | .deliver d cut c =>
    match n.applyKill (n.roleAt t) t d cut c.tag with
    | (true, n') => ⟨n', if d.msgId = id ∧ (n.roleAt t).isSome then left.add n.now c else left⟩
    | (false, n') => ⟨n', left⟩
  | .terminated gen attached att seats =>
    let n' := n.onTopicTerminated cfg t gen attached att seats
    let left := (n.endedBy cfg t gen attached att).foldl Carriers.finish left
    ⟨n', if (n'.roleAt t).isSome then left else { left with first := none }⟩
  | .expire =>
    ⟨n.expireRole t, if left.Lapsed n.now ∧ (n.roleAt t).all fun ρ => !(n.role ρ).pinned id then
      { left with first := none } else left⟩

/-- The record of the deletion. -/
def record (s : Custody) : Option Tombstone :=
  (s.node.roleAt t).bind fun ρ => (s.node.role ρ).tombstones.get id

/-- While a carrier has not ended, the tombstone is installed. -/
def TombstoneStays (s : Custody) : Prop := ¬s.carriers.Ended → s.record t id ≠ none

/-- **The condition.** The names can tell each obligation that ends, a notice that leaves the role
no duty leaves the deletion no carrier, and so does the time when a tick comes after the lifetime of
the first delivery, unless an exchange pins the record. -/
def EndsApart (s : Custody) (a : World × CustodyAct) : Prop :=
  let n := { s.node with world := a.1 }
  let left := s.carriers.current n.now
  match a.2 with
  | .deliver .. => True
  | .terminated gen attached att seats =>
    EachStep Carriers.finish Carriers.Tells left (n.endedBy cfg t gen attached att)
      ∧ ∀ ρ ∈ n.roleAt t, Moves.Released n t ρ gen attached seats →
        ((n.endedBy cfg t gen attached att).foldl Carriers.finish left).Ended
  | .expire => left.Lapsed n.now → (∀ ρ ∈ n.roleAt t, (n.role ρ).pinned id = false) → left.Ended

variable {cfg : Config} {t : TopicId} {id : MsgId} {ρ : RoleRef}

/-! ### What each act leaves of the record -/

/-- What the app is told does not touch the roles. -/
theorem role_deliverKillToApp (n : Node) (t : TopicId) (id : MsgId) (ts : Int) :
    (n.deliverKillToApp t id ts).role ρ = n.role ρ :=
  congrArg (fun h => Heap.get h ρ) (Node.deliverKillToApp_tables n t id ts).1

/-- One more name in one tombstone. -/
theorem ownTombstone_get (r : Role) (id' : MsgId) (g : Gen) :
    (r.ownTombstone id' g).tombstones.get id = if id = id' then
      (r.tombstones.get id).map fun t => { t with owners := insert g.key t.owners }
      else r.tombstones.get id := by
  unfold Role.ownTombstone
  by_cases hid : id = id'
  · subst hid
    cases ht : r.tombstones.get id with
    | none => simp [ht]
    | some t => simp [Gen.key]
  · cases ht : r.tombstones.get id' with
    | none => simp [hid]
    | some t => simp [hid]

/-- A deletion that is let through leaves a tombstone of its message: the one that stood with one
more name, or a new one. -/
theorem applyKill_record {n : Node} (id : MsgId) (t : TopicId) (d : Del) {cut : Option Cut}
    (tag : Option Gen) (hcut : n.cutHolds ρ cut = true) :
    ∃ n', n.applyKill (some ρ) t d cut tag = (true, n') ∧ n'.axonRoles = n.axonRoles
      ∧ (id ≠ d.msgId → (n'.role ρ).tombstones.get id = (n.role ρ).tombstones.get id)
      ∧ (id = d.msgId → ∃ tomb, (n'.role ρ).tombstones.get id = some tomb
        ∧ (∀ t₀ ∈ (n.role ρ).tombstones.get id, tomb.exp = t₀.exp
          ∧ tomb.owners = tag.elim t₀.owners fun g => insert g.key t₀.owners)
        ∧ ((n.role ρ).tombstones.get id = none → tomb.exp = n.now + ttlMs
          ∧ tomb.owners = tag.elim ∅ fun g => {g.key})) := by
  unfold Node.applyKill
  simp only []
  rw [if_pos hcut]
  refine ⟨_, rfl, ?_⟩
  rw [role_deliverKillToApp]
  have htable {m : Node} (h : m.axonRoles = n.axonRoles) :
      (m.deliverKillToApp t d.msgId (d.killTs.getD n.now)).axonRoles = n.axonRoles :=
    (Node.deliverKillToApp_tables m t d.msgId _).2.trans h
  have hrole := Node.role_modifyRole_self n ρ fun r => { r with seq := max r.seq (d.seq.getD r.seq) }
  have hroles : (n.modifyRole ρ fun r => { r with seq := max r.seq (d.seq.getD r.seq) }).axonRoles
      = n.axonRoles := rfl
  have hnow : (n.modifyRole ρ fun r => { r with seq := max r.seq (d.seq.getD r.seq) }).now = n.now :=
    rfl
  generalize n.modifyRole ρ (fun r => { r with seq := max r.seq (d.seq.getD r.seq) }) = m
    at hrole hroles hnow ⊢
  have htombs : (m.role ρ).tombstones = (n.role ρ).tombstones := by rw [hrole]
  split
  next hhas =>
    -- the record is there, and may have one more owner
    rw [htombs] at hhas
    obtain ⟨t₀, ht₀⟩ := has_iff.mp hhas
    refine ⟨htable (m := m.modifyRole ρ _) hroles, ?_⟩
    rw [Node.role_modifyRole_self]
    cases tag with
    | none =>
      refine ⟨fun _ => by rw [← htombs]; rfl, ?_⟩
      rintro rfl
      refine ⟨t₀, by rw [← ht₀, ← htombs]; rfl, ?_, fun hnone => ?_⟩
      · rintro t₁ ht₁
        cases ht₀.symm.trans ht₁
        exact ⟨rfl, rfl⟩
      · cases ht₀.symm.trans hnone
    | some g =>
      have hget := @ownTombstone_get id (m.role ρ) d.msgId g
      rw [htombs] at hget
      refine ⟨fun hid => hget.trans (if_neg hid), ?_⟩
      rintro rfl
      rw [if_pos rfl, ht₀] at hget
      refine ⟨_, hget, ?_, fun hnone => ?_⟩
      · rintro t₁ ht₁
        cases ht₀.symm.trans ht₁
        exact ⟨rfl, rfl⟩
      · cases ht₀.symm.trans hnone
  next hhas =>
  rw [htombs] at hhas
  refine ⟨htable (m := (m.modifyRole ρ _).note _) hroles, ?_⟩
  have hnote (k : Node) (e : Event) : (k.note e).role ρ = k.role ρ := rfl
  rw [hnote, Node.role_modifyRole_self, Role.bury, get_set, htombs, hnow]
  refine ⟨fun hid => if_neg hid, ?_⟩
  rintro rfl
  rw [if_pos rfl]
  refine ⟨_, rfl, fun t₀ ht₀ => ?_, fun _ => ⟨rfl, ?_⟩⟩
  · exact absurd (has_iff.mpr ⟨t₀, ht₀⟩) hhas
  · cases tag <;> rfl

/-- A notice makes no role. -/
theorem terminated_none {n : Node} (gen : Gen) (attached : Bool) (att : Option Gen) (seats : Bool)
    (hat : n.roleAt t = none) :
    (n.onTopicTerminated cfg t gen attached att seats).roleAt t = none := by
  unfold Node.onTopicTerminated
  simp only [hat, Option.any_none, Option.elim_none]
  split
  · exact hat
  split
  · exact hat
  have hend : (n.endAttachment t none gen att).axonRoles = n.axonRoles := by
    unfold Node.endAttachment Node.endSubscriptionTerminated
    simp only []
    split_ifs <;> rfl
  have hsame : (if n.appointed none gen = true then n else n) = n := ite_self n
  rw [hsame]
  split
  · rw [Node.roleAt, hend]
    exact hat
  · exact hat

/-- A role that a notice takes out of the table has no duty left. -/
theorem terminated_released {n : Node} {gen : Gen} {attached : Bool} {att : Option Gen} {seats : Bool}
    (hat : n.roleAt t = some ρ)
    (hgone : (n.onTopicTerminated cfg t gen attached att seats).roleAt t = none) :
    Moves.Released n t ρ gen attached seats := by
  let P : Input → Prop
    | .retire _ => Moves.Released n t ρ gen attached seats
    | _ => True
  have hmoves : Moves cfg P n (n.onTopicTerminated cfg t gen attached att seats) := by
    refine Moves.onTopicTerminated trivial t gen attached att seats (fun _ _ => trivial) ?_
    rintro ρ' hat' hr
    cases hat.symm.trans hat'
    exact hr
  have hkept := moves_preserve
    (I := fun m => m.roleAt t = some ρ ∨ Moves.Released n t ρ gen attached seats) (by
      rintro m m' hmove (hm | hm)
      · rcases hmove.roleAt_kept hm with h | ⟨-, hr⟩
        · exact .inl h
        · exact .inr hr
      · exact .inr hm) hmoves (.inl hat)
  rcases hkept with h | h
  · rw [hgone] at h
    cases h
  · exact h

/-! ### Runs -/

/-- The record of the deletion at the topic's role, if it has one, says what is left. -/
structure Told (t : TopicId) (ρ : RoleRef) (id : MsgId) (s : Custody) : Prop where
  seat : ∀ ρ', s.node.roleAt t = some ρ' → ρ' = ρ
  records : s.carriers.Records (s.record t id)

theorem Told.kept {s : Custody} (h : s.Told t ρ id) : s.TombstoneStays t id := by
  intro hleft hnone
  have hrecords := h.records
  rw [hnone] at hrecords
  exact hleft hrecords.1

theorem record_of_seat {s : Custody} (h : s.node.roleAt t = some ρ) :
    s.record t id = (s.node.role ρ).tombstones.get id := by
  rw [record, h]
  rfl

theorem record_of_gone {s : Custody} (h : s.node.roleAt t = none) : s.record t id = none := by
  rw [record, h]
  rfl

theorem Told.deliver {s : Custody} (h : s.Told t ρ id) (w : World) (d : Del) (cut : Option Cut)
    (c : Carrier) : (s.step cfg t id (w, .deliver d cut c)).Told t ρ id := by
  have hleft := h.records.current w.wall
  unfold step
  simp only []
  set n : Node := { s.node with world := w } with hn
  cases hat : n.roleAt t with
  | none =>
    have hgone : s.record t id = none := record_of_gone hat
    have hrun : n.applyKill none t d cut c.tag
        = (true, n.deliverKillToApp t d.msgId (d.killTs.getD n.now)) := rfl
    have htable : (n.deliverKillToApp t d.msgId (d.killTs.getD n.now)).roleAt t = none := by
      rw [Node.roleAt, (Node.deliverKillToApp_tables n t _ _).2]
      exact hat
    rw [hrun]
    simp only [Option.isSome_none, Bool.false_eq_true, and_false, if_false]
    refine ⟨fun ρ' hρ' => ?_, ?_⟩
    · cases htable.symm.trans hρ'
    · rw [record_of_gone htable]
      rwa [hgone] at hleft
  | some ρ' =>
    obtain rfl := h.seat ρ' hat
    have hrecord : s.record t id = (n.role ρ').tombstones.get id := record_of_seat hat
    cases hcut : n.cutHolds ρ' cut with
    | false =>
      have hrefused : n.applyKill (some ρ') t d cut c.tag = (false, n) := by
        unfold Node.applyKill
        simp only [hcut, Bool.false_eq_true, if_false]
      rw [hrefused]
      exact ⟨h.seat, hleft⟩
    | true =>
      obtain ⟨n', hrun, htable, hothers, hown⟩ := applyKill_record id t d c.tag hcut
      have hat' : n'.roleAt t = some ρ' := by
        rw [Node.roleAt, htable]
        exact hat
      rw [hrun]
      refine ⟨fun ρ'' h'' => Option.some.inj (h''.symm.trans hat'), ?_⟩
      rw [record_of_seat hat']
      by_cases hid : id = d.msgId
      · obtain ⟨tomb, htomb, hstands, hnew⟩ := hown hid
        rw [if_pos ⟨hid.symm, rfl⟩, htomb]
        rw [hrecord] at hleft
        exact hleft.add w.wall c hstands hnew
      · rw [if_neg fun hsame => hid hsame.1.symm, hothers hid, ← hrecord]
        exact hleft

theorem Told.terminated {s : Custody} (h : s.Told t ρ id) (w : World) (gen : Gen) (attached : Bool)
    (att : Option Gen) (seats : Bool)
    (hends : s.EndsApart cfg t id (w, .terminated gen attached att seats)) :
    (s.step cfg t id (w, .terminated gen attached att seats)).Told t ρ id := by
  have hleft := h.records.current w.wall
  obtain ⟨htells, hlast⟩ := hends
  unfold step
  simp only [] at htells hlast ⊢
  set n : Node := { s.node with world := w } with hn
  cases hat : n.roleAt t with
  | none =>
    have hgone : s.record t id = none := record_of_gone hat
    have hended : n.endedBy cfg t gen attached att = [] := by
      unfold Node.endedBy
      rw [hat]
    have hnone := @terminated_none cfg t n gen attached att seats hat
    refine ⟨fun ρ' h' => (nomatch hnone.symm.trans h'), ?_⟩
    rw [record_of_gone hnone, hended, if_neg (by rw [hnone]; exact Bool.false_ne_true)]
    rw [hgone] at hleft
    exact ⟨hleft.1, rfl⟩
  | some ρ' =>
    obtain rfl := h.seat ρ' hat
    obtain ⟨hrecord, hseat⟩ := @Node.terminated_record cfg id t ρ' n gen attached att seats hat
    have hfinish := hleft.finishAll _ htells
    rw [show s.record t id = (n.role ρ').tombstones.get id from record_of_seat hat, ← hrecord]
      at hfinish
    rcases hseat with hseat | hgone
    · refine ⟨fun ρ'' h'' => Option.some.inj (h''.symm.trans hseat), ?_⟩
      rw [record_of_seat hseat, if_pos (by rw [hseat]; rfl)]
      exact hfinish
    · refine ⟨fun ρ'' h'' => (nomatch hgone.symm.trans h''), ?_⟩
      rw [record_of_gone hgone, if_neg (by rw [hgone]; exact Bool.false_ne_true)]
      exact ⟨hlast ρ' hat (terminated_released hat hgone), rfl⟩

theorem Told.expire {s : Custody} (h : s.Told t ρ id) (w : World)
    (hends : s.EndsApart cfg t id (w, .expire)) : (s.step cfg t id (w, .expire)).Told t ρ id := by
  unfold EndsApart at hends
  unfold step Node.expireRole
  simp only [] at hends ⊢
  set n : Node := { s.node with world := w } with hn
  have hleft := h.records.current n.now
  generalize s.carriers.current n.now = left at hends hleft ⊢
  cases hat : n.roleAt t with
  | none =>
    refine ⟨h.seat, ?_⟩
    rw [show s.record t id = none from record_of_gone hat] at hleft
    change Carriers.Records (if left.Lapsed n.now ∧ true then { left with first := none } else left)
      ((n.roleAt t).bind _)
    rw [hat]
    split
    · exact ⟨hleft.1, rfl⟩
    · exact hleft
  | some ρ' =>
    obtain rfl := h.seat ρ' hat
    have hrecord : s.record t id = (n.role ρ').tombstones.get id := record_of_seat hat
    have hswept : ((n.modifyRole ρ' fun r => (r.expireTombstones n.now).expireCache n.now).role
        ρ').tombstones.get id
          = (s.record t id).filter fun t => !(t.exp ≤ n.now && !(n.role ρ').pinned id) := by
      rw [Node.role_modifyRole_self, hrecord]
      exact get_filter ..
    refine ⟨h.seat, ?_⟩
    change Carriers.Records (if left.Lapsed n.now ∧ (!(n.role ρ').pinned id) = true then
      { left with first := none } else left) ((n.roleAt t).bind fun ρ => ((n.modifyRole ρ' fun r =>
        (r.expireTombstones n.now).expireCache n.now).role ρ).tombstones.get id)
    rw [hat, Option.bind_some, hswept]
    cases ht : s.record t id with
    | none =>
      rw [ht] at hleft
      split
      · exact ⟨hleft.1, rfl⟩
      · exact hleft
    | some tomb =>
      rw [ht] at hleft
      have hlapsed : left.Lapsed n.now ↔ tomb.exp ≤ n.now := by
        rw [Carriers.Lapsed, hleft.2]
        simp
      cases hpin : (n.role ρ').pinned id with
      | true =>
        rw [if_neg (by simp), Option.filter_some, if_pos (by simp)]
        exact hleft
      | false =>
        by_cases hexp : tomb.exp ≤ n.now
        · have hfree : ∀ ρ'' ∈ n.roleAt t, (n.role ρ'').pinned id = false := by
            intro ρ'' h''
            cases hat.symm.trans h''
            exact hpin
          rw [if_pos ⟨hlapsed.mpr hexp, rfl⟩, Option.filter_some, if_neg (by simp [hexp])]
          exact ⟨hends (hlapsed.mpr hexp) hfree, rfl⟩
        · rw [if_neg fun hl => hexp (hlapsed.mp hl.1)]
          rw [Option.filter_some, if_pos (by simp [hexp])]
          exact hleft

/-- **What one act preserves.** -/
theorem Told.step {s : Custody} (h : s.Told t ρ id) (a : World × CustodyAct)
    (hends : s.EndsApart cfg t id a) : (s.step cfg t id a).Told t ρ id := by
  obtain ⟨w, a⟩ := a
  cases a with
  | deliver d cut c => exact h.deliver w d cut c
  | terminated gen attached att seats => exact h.terminated w gen attached att seats hends
  | expire => exact h.expire w hends

end Custody

/-- **Who a deletion belongs to.** For every role that holds no tombstone of a message and every run of
deliveries, notices and ticks from there whose ends the names of a tombstone can tell, the
tombstone is installed in every state in which a carrier of the deletion has not ended. -/
theorem tombstone_kept (cfg : Config) (n : Node) (t : TopicId) (ρ : RoleRef) (id : MsgId)
    (hat : n.roleAt t = some ρ) (hnone : (n.role ρ).tombstones.get id = none)
    (as : List (World × CustodyAct))
    (h : EachStep (Custody.step cfg t id) (Custody.EndsApart cfg t id) ⟨n, .nil⟩ as) :
    (run (Custody.step cfg t id) ⟨n, .nil⟩ as).TombstoneStays t id := by
  have hstart : Custody.Told t ρ id ⟨n, .nil⟩ := by
    refine ⟨fun ρ' h' => Option.some.inj (h'.symm.trans hat), ?_⟩
    rw [Custody.record_of_seat hat]
    change Carriers.Records _ ((n.role ρ).tombstones.get id)
    rw [hnone]
    exact ⟨⟨rfl, rfl, rfl⟩, rfl⟩
  exact (h.invariant (fun _ a hs ha => hs.step a ha) hstart).kept

/-- A reader's relay. -/
def sampleRelay : Node :=
  run (Node.step sampleConfig) (Node.boot (sampleWorld 0)) ((buriedRun (sampleSigned 3 800)).take 2)

/-- A deletion comes with two duties, a notice of another generation is ignored, and the tick
finds the tombstone active. -/
def twoDuties : List (World × CustodyAct) :=
  [(sampleWorld 1002, .deliver (sampleDel 3 900 1) none (.duty ⟨6, 1⟩)),
    (sampleWorld 1003, .deliver (sampleDel 3 900 1) none (.duty ⟨7, 1⟩)),
    (sampleWorld 1004, .terminated ⟨8, 1⟩ false none true), (sampleWorld 1005, .expire)]

theorem tombstone_kept_two :
    (run (Custody.step sampleConfig sampleTopicId (sampleDel 3 900 1).msgId) ⟨sampleRelay, .nil⟩
      twoDuties).TombstoneStays sampleTopicId (sampleDel 3 900 1).msgId := by
  refine tombstone_kept sampleConfig sampleRelay sampleTopicId 0 _ (by decide +kernel)
    (by decide +kernel) twoDuties ⟨trivial, trivial, ⟨?_, ?_⟩, ?_, trivial⟩
  · exact trivial
  · intro ρ hρ hr
    have hnamed : (run (Custody.step sampleConfig sampleTopicId (sampleDel 3 900 1).msgId)
        ⟨sampleRelay, .nil⟩ (twoDuties.take 2)).node.appointed (some 0) ⟨8, 1⟩ = false := by
      decide +kernel
    obtain rfl : 0 = ρ := Option.some.inj ((by decide +kernel :
      (run (Custody.step sampleConfig sampleTopicId (sampleDel 3 900 1).msgId)
        ⟨sampleRelay, .nil⟩ (twoDuties.take 2)).node.roleAt sampleTopicId = some 0).symm.trans hρ)
    rcases hr.named with h | h
    · cases hnamed.symm.trans h
    · cases h
  · intro hlapsed
    exact absurd hlapsed (by decide +kernel)

/-- A deletion that came untagged comes again with a duty, and the duty ends. -/
def mixedDeliveries : List (World × CustodyAct) :=
  [(sampleWorld 1002, .deliver (sampleDel 3 900 1) none .free),
    (sampleWorld 1003, .deliver (sampleDel 3 900 1) none (.duty ⟨7, 1⟩)),
    (sampleWorld 1004, .terminated ⟨7, 1⟩ true (some ⟨7, 1⟩) true)]

/-- Two milliseconds after it came the untagged deletion has no tombstone. -/
theorem tombstone_dropped :
    ¬∀ (n : Node) (t : TopicId) (ρ : RoleRef) (id : MsgId), n.roleAt t = some ρ →
      (n.role ρ).tombstones.get id = none → ∀ as : List (World × CustodyAct),
        (run (Custody.step sampleConfig t id) ⟨n, .nil⟩ as).TombstoneStays t id := by
  intro h
  exact h sampleRelay sampleTopicId 0 (sampleDel 3 900 1).msgId (by decide +kernel)
    (by decide +kernel) mixedDeliveries (by decide +kernel) (by decide +kernel)

end Axona
