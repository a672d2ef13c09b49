import Axona.Safety.Cache
import Axona.Pubsub.Network

/-! # The tombstones of a role

A tombstone is revoked when a body comes in that its signer is not the author of. Of a replayed
and of a published body the author is verified by then, of a relayed one nothing is: a DELIVER with
a forged author takes a tombstone away. Apart from that, and from the end of the last obligation
that delivered it, a tombstone stands to its expiry. The expiry counts from its receipt and not
from the kill, so nodes that replay a deletion to one another keep it for as long as they do. -/

namespace Axona

open Library OrderedMap

variable {cfg : Config} {P : Input → Prop} {n n' : Node}

/-! ### What takes a tombstone away -/

theorem Tombstone.Same.refl (t : Tombstone) : t.Same t := ⟨rfl, rfl, rfl⟩

variable {t : Tombstone}

theorem Tombstone.Same.trans {t' t'' : Tombstone} (h : t.Same t') (h' : t'.Same t'') :
    t.Same t'' :=
  ⟨h'.1.trans h.1, h'.2.1.trans h.2.1, h'.2.2.trans h.2.2⟩

/-- The role has the tombstone, under whatever owners. -/
def Role.Keeps (r : Role) (id : MsgId) (t : Tombstone) : Prop :=
  ∃ t', r.tombstones.get id = some t' ∧ t.Same t'

/-- A body whose author was verified names the signer of the tombstone. -/
def Input.Rightful (cfg : Config) (ρ : RoleRef) (topic : TopicId) (id : MsgId) (t : Tombstone) :
    Input → Prop
  | .publish ρ' _ j | .body ρ' ⟨_, _, j, _⟩ => ρ' = ρ → ∀ e d,
      Genuine cfg.toPrimitives topic id j e d → standsAgainst t.signer j = true
  | _ => True

/-- A body checked as it was delivered names the signer of the tombstone. -/
def Input.Unforged (ρ : RoleRef) (id : MsgId) (t : Tombstone) : Input → Prop
  | .check ρ' m => ρ' = ρ → m.msgId = id → standsAgainst t.signer m.json = true
  | _ => True

namespace Role

theorem push_tombstones (r : Role) (cacheMax cacheBytes : Nat) (e : Entry) (id : MsgId) :
    (r.push cacheMax cacheBytes e).tombstones.get id = r.tombstones.get id := by
  rcases r.push_cases cacheMax cacheBytes e with h | h
  · rw [h]
  rcases h.tombstones id with hsame | ⟨-, -, hfalse⟩
  · exact hsame
  · exact hfalse.elim

end Role

variable {id : MsgId}

/-- A move leaves an active tombstone where it is. -/
theorem Node.keeps_move (h : Move cfg P n n') {ρ : RoleRef} (hρ : ρ < n.roles.next)
    (hactive : n.now < t.exp) (hright : ∀ i, P i → i.Rightful cfg ρ (n.role ρ).topicId id t)
    (hforged : ∀ i, P i → i.Unforged ρ id t)
    (howned : ¬P (.disown ρ)) (hn : (n.role ρ).Keeps id t) : (n'.role ρ).Keeps id t := by
  obtain ⟨t₁, ht₁, hsame⟩ := hn
  have hstay (hget : (n'.role ρ).tombstones.get id = (n.role ρ).tombstones.get id) :
      (n'.role ρ).Keeps id t := ⟨t₁, hget.trans ht₁, hsame⟩
  cases h.storeEffect ρ with
  | same h => exact hstay (by rw [h.tombstones])
  | fresh hnext _ => exact absurd hρ (by rw [hnext]; exact lt_irrefl _)
  | shrink h =>
    rcases h.tombstones id with hget | ⟨t₂, ht₂, hc⟩
    · exact hstay hget
    cases ht₁.symm.trans ht₂
    cases hc' : (n'.role ρ).tombstones.get id with
    | some t' =>
      rw [hc'] at hc
      exact ⟨t', hc', hsame.trans hc.some⟩
    | none =>
      -- its time is not over, and no body contradicts it
      rw [hc'] at hc
      have hsigner : t₁.signer = t.signer := hsame.2.2
      cases hc with
      | lapsed hexp => exact absurd hactive (not_lt.mpr (hsame.1 ▸ hexp))
      | @revoked j e d hP hj genuine =>
        have hstands : standsAgainst t.signer j = true := by
          rcases hP with ⟨cut, hP⟩ | ⟨m, hP, rfl⟩
          · exact hright _ hP rfl e d genuine
          · exact hright _ hP rfl e d genuine
        rw [hsigner, hstands] at hj
        cases hj
      | contradicted hP hid hj =>
        rw [hsigner, hforged _ hP rfl hid] at hj
        cases hj
  | disown _ _ hP => exact absurd hP howned
  | push _ _ h => exact hstay (by rw [h, Role.push_tombstones])
  | @bury d tomb _ hnew _ _ h =>
    -- a deletion that is held is not set again
    have hne : id ≠ d.msgId := by
      rintro rfl
      rw [OrderedMap.has, ht₁] at hnew
      cases hnew
    refine hstay ?_
    rw [h, Role.bury, get_set, if_neg hne]

/-! ### The end of obligations -/

/-- The name that a generation has in the owners of a tombstone. -/
def Gen.key (g : Gen) : NodeId × Int := (g.root, toInt32 g.epoch)

/-- Some obligation that delivered the deletion does not end with these, or it has no names and
none of these is without one. -/
def Tombstone.Outlives (t : Tombstone) (ended : List (Option Gen)) : Prop :=
  (t.owners = ∅ ∧ none ∉ ended) ∨ ∃ k ∈ t.owners, ∀ g, some g ∈ ended → g.key ≠ k

theorem Tombstone.Outlives.disowned {owner : Option Gen} {ended : List (Option Gen)}
    (h : t.Outlives (owner :: ended)) :
    ∃ t', Role.disowned owner t = some t' ∧ t'.Outlives ended := by
  rcases h with ⟨hempty, hnone⟩ | ⟨k, hk, hne⟩
  · cases owner with
    | none => exact absurd List.mem_cons_self hnone
    | some g =>
      refine ⟨t, ?_, .inl ⟨hempty, fun h => hnone (List.mem_cons_of_mem _ h)⟩⟩
      simp [Role.disowned, hempty]
  · have hothers (g : Gen) (hg : some g ∈ ended) : g.key ≠ k := hne g (List.mem_cons_of_mem _ hg)
    cases owner with
    | none => exact ⟨t, if_neg (Finset.ne_empty_of_mem hk), .inr ⟨k, hk, hothers⟩⟩
    | some g =>
      have hleft : k ∈ t.owners.erase g.key :=
        Finset.mem_erase.mpr ⟨(hne g List.mem_cons_self).symm, hk⟩
      by_cases hg : g.key ∈ t.owners
      · refine ⟨{ t with owners := t.owners.erase g.key }, ?_, .inr ⟨k, hleft, hothers⟩⟩
        exact (if_pos hg).trans (if_neg (Finset.ne_empty_of_mem hleft))
      · exact ⟨t, if_neg hg, .inr ⟨k, hk, hothers⟩⟩

/-- The ends of several obligations, one after another. -/
theorem Tombstone.Outlives.disownAll {ended : List (Option Gen)} (h : t.Outlives ended) :
    ∃ t', ended.foldl (fun o owner => o.bind (Role.disowned owner)) (some t) = some t'
      ∧ t.Same t' := by
  induction ended generalizing t with
  | nil => exact ⟨t, rfl, .refl t⟩
  | cons owner ended ih =>
    obtain ⟨t₁, ht₁, hleft⟩ := h.disowned
    obtain ⟨t', ht', hsame⟩ := ih hleft
    refine ⟨t', ?_, (Role.disowned_some ht₁).trans hsame⟩
    rw [List.foldl_cons, Option.bind_some, ht₁]
    exact ht'

namespace Node

section

variable {t : TopicId} {ρ : RoleRef}

/-- The obligations that the notice of a generation's end ends: the appointment that it names, and
the attachment. -/
def endedBy (cfg : Config) (n : Node) (t : TopicId) (gen : Gen) (attached : Bool)
    (att : Option Gen) : List (Option Gen) :=
  match n.roleAt t with
  | none => []
  | some ρ =>
    if !cfg.topicLifetime || (n.role ρ).isRoot || (!n.appointed (some ρ) gen && !attached) then []
    else if n.appointed (some ρ) gen && !(n.role ρ).cache.isEmpty then []
    else (if n.appointed (some ρ) gen then [(n.role ρ).standbyGen] else [])
      ++ if attached then [att] else []

/-- What the end of an appointment leaves of a record. -/
theorem endStandby_record (n : Node) : ((n.endStandby t ρ).role ρ).tombstones.get id
      = ((n.role ρ).tombstones.get id).bind (Role.disowned (n.role ρ).standbyGen) := by
  have hbackup : (n.retireBackup t ρ).role ρ = { n.role ρ with backupOf := none } :=
    Node.role_modifyRole_self n ρ fun r => { r with backupOf := none }
  let m := (n.retireBackup t ρ).modifyRole ρ fun r => { r with standbyGen := none }
  have hm : m.role ρ = { n.role ρ with backupOf := none, standbyGen := none } := by
    rw [Node.role_modifyRole_self, hbackup]
  change ((m.modifyRole ρ fun r =>
    r.dropOwned ((n.retireBackup t ρ).role ρ).standbyGen).role ρ).tombstones.get id = _
  rw [Node.role_modifyRole_self, Role.dropOwned_get, hm, hbackup]

/-- What the end of an attachment leaves of a record. -/
theorem endAttachment_record (n : Node) (gen : Gen) (att : Option Gen) :
    ((n.endAttachment t (some ρ) gen att).role ρ).tombstones.get id
      = ((n.role ρ).tombstones.get id).bind (Role.disowned att) := by
  have hrole : (n.dropOwned ρ att).role ρ = (n.role ρ).dropOwned att :=
    Node.role_modifyRole_self n ρ fun r => r.dropOwned att
  rw [← Role.dropOwned_get, ← hrole]
  unfold Node.endAttachment Node.endSubscriptionTerminated
  simp only []
  split_ifs <;> rfl

theorem axonRoles_endAttachment (n : Node) (gen : Gen) (att : Option Gen) :
    (n.endAttachment t (some ρ) gen att).axonRoles = n.axonRoles := by
  unfold Node.endAttachment Node.endSubscriptionTerminated
  simp only []
  split_ifs <;> rfl

/-- A notice takes from each tombstone the names of the obligations it ends, and the role stays or
is left without a duty. -/
theorem terminated_record (n : Node) (gen : Gen) (attached : Bool) (att : Option Gen) (seats : Bool)
    (hat : n.roleAt t = some ρ) :
    ((n.onTopicTerminated cfg t gen attached att seats).role ρ).tombstones.get id
        = (n.endedBy cfg t gen attached att).foldl (fun o owner => o.bind (Role.disowned owner))
          ((n.role ρ).tombstones.get id)
      ∧ ((n.onTopicTerminated cfg t gen attached att seats).roleAt t = some ρ
        ∨ (n.onTopicTerminated cfg t gen attached att seats).roleAt t = none) := by
  unfold Node.onTopicTerminated Node.endedBy
  simp only [hat, Option.any_some, Option.elim_some]
  split
  · exact ⟨rfl, .inl hat⟩
  split
  · exact ⟨rfl, .inl hat⟩
  -- the appointment ends, then the attachment
  set m := if n.appointed (some ρ) gen = true then n.endStandby t ρ else n with hm
  have hmrecord : (m.role ρ).tombstones.get id
      = (if n.appointed (some ρ) gen = true then [(n.role ρ).standbyGen] else []).foldl
        (fun o owner => o.bind (Role.disowned owner)) ((n.role ρ).tombstones.get id)
      ∧ m.roleAt t = some ρ := by
    rw [hm]
    split
    · exact ⟨endStandby_record n, hat⟩
    · exact ⟨rfl, hat⟩
  set k := if attached = true then m.endAttachment t (some ρ) gen att else m with hk
  have hkrecord : (k.role ρ).tombstones.get id
      = (if attached = true then [att] else []).foldl
        (fun o owner => o.bind (Role.disowned owner)) ((m.role ρ).tombstones.get id)
      ∧ k.roleAt t = some ρ := by
    rw [hk]
    split
    · refine ⟨endAttachment_record m gen att, ?_⟩
      rw [Node.roleAt, axonRoles_endAttachment]
      exact hmrecord.2
    · exact ⟨rfl, hmrecord.2⟩
  rw [List.foldl_append, ← hmrecord.1, ← hkrecord.1]
  split
  · refine ⟨?_, .inr ?_⟩
    · have hretired : (k.retireRole t ρ).role ρ
          = { k.role ρ with retired := true, gen := toInt32 (k.role ρ).gen + 1 } :=
        Node.role_modifyRole_self k ρ fun r => { r with retired := true, gen := toInt32 r.gen + 1 }
      rw [hretired]
    · change (k.axonRoles.delete t).get t = none
      rw [get_delete, if_pos rfl]
  · exact ⟨rfl, .inl hkrecord.2⟩

end

end Node

/-! ### Runs in which nothing takes it away -/

/-- A tombstone that has not expired is among the active deletions. -/
theorem Role.mem_activeDels {r : Role} {now : Int} (ht : r.tombstones.get id = some t)
    (hactive : now < t.exp) :
    ⟨id, some t.killTs, t.signer, t.seq⟩ ∈ r.activeDels now := by
  refine List.mem_map.mpr ⟨(id, t), List.mem_filter.mpr ⟨mem_of_get ht, ?_⟩, rfl⟩
  exact decide_eq_true hactive

namespace Node

variable {ρ : RoleRef}

/-- The tombstone is active, and no verified body of its message is by another author. -/
def Unchallenged (cfg : Config) (ρ : RoleRef) (topic : TopicId) (id : MsgId) (t : Tombstone)
    (n : Node) (a : World × Act) : Prop :=
  a.1.wall < t.exp ∧ ∀ i, Takes cfg n a.2 i → i.Rightful cfg ρ topic id t

/-- No DELIVER brings a body of the message that names another author. -/
def Unforged (cfg : Config) (ρ : RoleRef) (id : MsgId) (t : Tombstone) (n : Node)
    (a : World × Act) : Prop :=
  ∀ i, Takes cfg n a.2 i → i.Unforged ρ id t

/-- The act leaves the topic its role with the tombstone: it does not retire the role, and if it
ends obligations of the role, one that delivered the deletion is left. -/
def Leaves (cfg : Config) (topic : TopicId) (ρ : RoleRef) (id : MsgId) (n : Node) : Act → Prop
  | .reap _ _ => True
  | .terminated t g attached att seats => ¬Retires cfg n (.terminated t g attached att seats) topic
      ∧ (t = topic → ∀ tomb ∈ (n.role ρ).tombstones.get id,
        tomb.Outlives (n.endedBy cfg t g attached att))
  | a => ¬Retires cfg n a topic

variable {w : World} {a : Act} {topic : TopicId}

/-- The reapers leave a role with an active tombstone alone. -/
theorem reap_active (hat : n.roleAt topic = some ρ) (ht : (n.role ρ).tombstones.get id = some t)
    (hactive : n.now < t.exp) (held : Bool) : n.reap topic held = n := by
  have hdels := List.ne_nil_of_mem (Role.mem_activeDels ht hactive)
  have halive : (n.role ρ).custodyAlive n.now = true := by simp [Role.custodyAlive, hdels]
  unfold Node.reap
  simp only [hat, halive, Bool.true_or, if_true]

/-- The role of a topic stays in the table through an act that retires none of the topic. -/
theorem roleAt_step (hwf : n.Wf) (hat : n.roleAt topic = some ρ) (h : ¬Retires cfg n a topic) :
    (n.step cfg (w, a)).roleAt topic = some ρ := by
  refine step_rule (I := fun m => m.roleAt topic = some ρ) hwf ?_ hat
  intro P m m' hP _ _ hmove hm
  rcases hmove.roleAt_kept hm with hkept | ⟨-, hr⟩
  · exact hkept
  · cases hP _ hr with
    | retire hr => exact absurd hr h

/-- A tombstone stands through an act that ends no obligation of its role. -/
theorem keeps_step (hwf : n.Wf) (hat : n.roleAt topic = some ρ) (hn : (n.role ρ).Keeps id t)
    (hright : n.Unchallenged cfg ρ topic id t (w, a)) (hforged : n.Unforged cfg ρ id t (w, a))
    (howned : ¬Takes cfg n a (.disown ρ)) : ((n.step cfg (w, a)).role ρ).Keeps id t := by
  obtain ⟨hlt, htopic⟩ := hwf.registered topic ρ hat
  refine (step_rule (I := fun m : Node => m.now < t.exp ∧ ρ < m.roles.next
    ∧ (m.role ρ).topicId = topic ∧ (m.role ρ).Keeps id t) (w := w) hwf ?_
      ⟨hright.1, hlt, htopic, hn⟩).2.2.2
  rintro Q m m' hQ - - hmove ⟨hnow, hltm, htopicm, hm⟩
  refine ⟨by rwa [hmove.now], lt_of_lt_of_le hltm hmove.roles_next,
    (hmove.topicId hltm).trans htopicm, ?_⟩
  refine keeps_move hmove hltm hnow (fun i hi => ?_) (fun i hi => hforged i (hQ i hi))
    (fun hd => howned (hQ _ hd)) hm
  rw [htopicm]
  exact hright.2 i (hQ i hi)

/-- **What one step preserves**: the topic has its role, and the role its tombstone. -/
theorem Leaves.step (h : n.Leaves cfg topic ρ id a) (hwf : n.Wf) (hat : n.roleAt topic = some ρ)
    (hn : (n.role ρ).Keeps id t) (hright : n.Unchallenged cfg ρ topic id t (w, a))
    (hforged : n.Unforged cfg ρ id t (w, a)) :
    (n.step cfg (w, a)).roleAt topic = some ρ ∧ ((n.step cfg (w, a)).role ρ).Keeps id t := by
  cases a with
  | reap t' held =>
    by_cases ht : t' = topic
    · subst ht
      obtain ⟨t₁, ht₁, hsame⟩ := hn
      have hstep : n.step cfg (w, .reap t' held) = { n with world := w } :=
        @reap_active { n with world := w } t₁ id ρ t' hat ht₁ (hsame.1 ▸ hright.1) held
      rw [hstep]
      exact ⟨hat, t₁, ht₁, hsame⟩
    · refine ⟨roleAt_step hwf hat ?_, keeps_step hwf hat hn hright hforged (by rintro ⟨⟩)⟩
      rintro ⟨⟩
      exact ht rfl
  | terminated t' g attached att seats =>
    refine ⟨roleAt_step hwf hat h.1, ?_⟩
    by_cases ht : t' = topic
    · subst ht
      obtain ⟨t₁, ht₁, hsame⟩ := hn
      obtain ⟨t₂, ht₂, hsame'⟩ := (h.2 rfl t₁ ht₁).disownAll
      refine ⟨t₂, ?_, hsame.trans hsame'⟩
      rw [← ht₂, ← ht₁]
      exact (@terminated_record cfg id t' ρ { n with world := w } g attached att seats hat).1
    · refine keeps_step hwf hat hn hright hforged ?_
      intro hd
      cases hd with
      | disown hat' =>
        exact ht ((hwf.registered t' ρ hat').2.symm.trans (hwf.registered topic ρ hat).2)
  | _ => exact ⟨roleAt_step hwf hat h, keeps_step hwf hat hn hright hforged (by rintro ⟨⟩)⟩

end Node

/-- **A tombstone stands.** From any state that is reached, a tombstone of a topic's role stands
for as long as it is active and no verified body is by another author, if no DELIVER names another
author for its message, and no act retires the role or ends the last obligation that delivered the
deletion. -/
theorem tombstone_stands (w : World) (as₀ as : Run) (topic : TopicId) (ρ : RoleRef) (id : MsgId)
    (t : Tombstone) (hat : (run (Node.step cfg) (Node.boot w) as₀).roleAt topic = some ρ)
    (ht : ((run (Node.step cfg) (Node.boot w) as₀).role ρ).tombstones.get id = some t)
    (h : EachStep (Node.step cfg) (fun m a => m.Unchallenged cfg ρ topic id t a
      ∧ m.Unforged cfg ρ id t a ∧ m.Leaves cfg topic ρ id a.2)
        (run (Node.step cfg) (Node.boot w) as₀) as) :
    (run (Node.step cfg) (Node.boot w) (as₀ ++ as)).roleAt topic = some ρ
      ∧ ((run (Node.step cfg) (Node.boot w) (as₀ ++ as)).role ρ).Keeps id t := by
  rw [run_append]
  refine (h.invariant (I := fun m : Node => m.Wf ∧ m.roleAt topic = some ρ
    ∧ (m.role ρ).Keeps id t) ?_ ⟨run_wf w as₀, hat, t, ht, .refl t⟩).2
  rintro m a ⟨hm, hat, hn⟩ ⟨hright, hforged, hleaves⟩
  exact ⟨hm.step a, hleaves.step hm hat hn hright hforged⟩

/-- A public key. -/
def sampleAuthor : Text := List.replicate 64 'a'

/-- A post signed with it. -/
def sampleSigned (m : Message) (ts : Int) : Json :=
  ⟨300, some ⟨some (sampleAuthor ++ List.replicate m '.'), some 0, some ts, some sampleTopic,
    some m,
    some (signatureTag ++ sampleAuthor ++ sampleAuthor), .text sampleAuthor⟩⟩

/-- The author's deletion of a post. -/
def sampleDel (m : Message) (ts : Int) (seq : Int) : Del :=
  ⟨sampleAuthor ++ List.replicate m '.', some ts, some sampleAuthor, some seq⟩

/-- The tombstone that this deletion makes at a wall clock. -/
def sampleTombstone (ts : Int) (seq : Int) (now : Int) : Tombstone :=
  { exp := now + ttlMs, killTs := ts, signer := some sampleAuthor, seq := some seq, owners := ∅ }

/-- A reader's relay gets the author's deletion of a post, and then a body with the post's id. -/
def buriedRun (j : Json) : Run :=
  [(sampleWorld 1000, .subscribe sampleTopicId 0 false),
    (sampleWorld 1001, .readRepair sampleTopicId),
    (sampleWorld 1002, .deliver sampleTopicId none none [.del (sampleDel 3 900 1)]),
    (sampleWorld 1003, .deliver sampleTopicId none none
      [.body ⟨(sampleDel 3 900 1).msgId, 800, j, some 2⟩])]

/-- A DELIVER brings nothing that was verified. -/
theorem Node.unchallenged_deliver {ρ : RoleRef} {topic : TopicId} {w : World}
    (hw : w.wall < t.exp) (t' : TopicId) (up : Option NodeId) (g : Option Gen)
    (items : List DeliverItem) : n.Unchallenged cfg ρ topic id t (w, .deliver t' up g items) := by
  refine ⟨hw, fun i hi => ?_⟩
  cases hi <;> exact trivial

theorem tombstone_stands_one :
    let n := run (Node.step sampleConfig) (Node.boot (sampleWorld 0)) (buriedRun (sampleSigned 3 800))
    n.roleAt sampleTopicId = some 0
      ∧ (n.role 0).Keeps (sampleDel 3 900 1).msgId (sampleTombstone 900 1 1002) := by
  refine tombstone_stands (sampleWorld 0) ((buriedRun (sampleSigned 3 800)).take 3)
    ((buriedRun (sampleSigned 3 800)).drop 3) sampleTopicId 0 (sampleDel 3 900 1).msgId
    (sampleTombstone 900 1 1002) (by decide +kernel) (by decide +kernel) ⟨⟨?_, ?_, nofun⟩, trivial⟩
  · exact Node.unchallenged_deliver (show (1003 : Int) < 1002 + ttlMs by decide) _ _ _ _
  · rintro i hi
    cases hi with
    | check _ hm =>
      rintro - -
      cases DeliverItem.body.inj (List.mem_singleton.mp hm)
      decide +kernel
    | _ => exact trivial

/-- The unsigned body takes the tombstone of the author's deletion away. -/
theorem tombstone_revoked :
    ¬∀ (w : World) (as₀ as : Run) (topic : TopicId) (ρ : RoleRef) (id : MsgId) (t : Tombstone),
      (run (Node.step sampleConfig) (Node.boot w) as₀).roleAt topic = some ρ →
      ((run (Node.step sampleConfig) (Node.boot w) as₀).role ρ).tombstones.get id = some t →
      (∃ j e d, Genuine samplePrimitives topic id j e d ∧ standsAgainst t.signer j = true) →
      EachStep (Node.step sampleConfig) (Node.Unchallenged sampleConfig ρ topic id t)
        (run (Node.step sampleConfig) (Node.boot w) as₀) as →
      ((run (Node.step sampleConfig) (Node.boot w) (as₀ ++ as)).role ρ).Keeps id t := by
  intro h
  obtain ⟨t, ht, -⟩ := h (sampleWorld 0) ((buriedRun (samplePost 3 800)).take 3)
    ((buriedRun (samplePost 3 800)).drop 3) sampleTopicId 0 (sampleDel 3 900 1).msgId
    (sampleTombstone 900 1 1002) (by decide +kernel) (by decide +kernel)
    ⟨sampleSigned 3 800, _, sampleTopic, ⟨rfl, rfl, rfl, by decide +kernel, by decide +kernel⟩,
      by decide +kernel⟩
    ⟨Node.unchallenged_deliver (show (1003 : Int) < 1002 + ttlMs by decide) _ _ _ _, trivial⟩
  have hgone : ((run (Node.step sampleConfig) (Node.boot (sampleWorld 0))
      (buriedRun (samplePost 3 800))).role 0).tombstones.get (sampleDel 3 900 1).msgId = none := by
    decide +kernel
  cases hgone.symm.trans ht

/-! ### How long a tombstone lives -/

/-- A tombstone after a move was there before, or it is set now: for a deletion that came in, or
for a kill that is stamped here and not behind the clock. -/
theorem Move.tombstone (h : Move cfg P n n') {ρ : RoleRef}
    (ht : (n'.role ρ).tombstones.get id = some t) :
    (∃ t₀, (n.role ρ).tombstones.get id = some t₀ ∧ t₀.Same t)
      ∨ (n.role ρ).tombstones.has id = false ∧ t.exp = n.now + ttlMs
        ∧ ((∃ d, P (.del ρ d) ∧ d.msgId = id ∧ t.killTs = d.killTs.getD n.now)
          ∨ n.now ≤ t.killTs) := by
  cases h.storeEffect ρ with
  | same h => exact .inl ⟨t, h.tombstones ▸ ht, .refl t⟩
  | fresh _ h =>
    rw [h.tombstones] at ht
    cases ht
  | shrink h => exact .inl (RoleMove.kept_of_shrink h ht)
  | disown owner h =>
    rw [h, Role.dropOwned_get] at ht
    obtain ⟨t₀, ht₀, hd⟩ := Option.bind_eq_some_iff.mp ht
    exact .inl ⟨t₀, ht₀, Role.disowned_some hd⟩
  | push _ _ h =>
    rw [h, Role.push_tombstones] at ht
    exact .inl ⟨t, ht, .refl t⟩
  | @bury d tomb hP hnew hts hexp h =>
    rw [h, Role.bury, get_set] at ht
    split at ht
    · next hid =>
      cases ht
      refine .inr ⟨hid ▸ hnew, hexp, ?_⟩
      rcases hP with hP | ⟨-, hstamped, -⟩
      · exact .inl ⟨d, hP, hid.symm, hts⟩
      · exact .inr hstamped
    · exact .inl ⟨t, ht, .refl t⟩

/-- The role holds an active tombstone of the message, and nothing in this act takes it away. -/
def Node.Standing (cfg : Config) (n : Node) (ρ : RoleRef) (id : MsgId) (a : World × Act) : Prop :=
  ρ < n.roles.next ∧ ¬Takes cfg n a.2 (.disown ρ) ∧ ∃ t, (n.role ρ).tombstones.get id = some t
    ∧ n.Unchallenged cfg ρ (n.role ρ).topicId id t a ∧ n.Unforged cfg ρ id t a

/-- Every tombstone expires at most `B` after its kill was stamped. -/
def Node.ExpiresWithin (B : Int) (n : Node) : Prop :=
  ∀ ρ id t, (n.role ρ).tombstones.get id = some t → t.exp ≤ t.killTs + B

/-- What a step sets expires within the bound too, if each deletion that it may take in stands
already or is not too old. -/
theorem Node.ExpiresWithin.step {B : Int} (hwf : n.Wf) (hn : n.ExpiresWithin B)
    (a : World × Act) (hB : ttlMs ≤ B) (hdel : ∀ ρ d, Takes cfg n a.2 (.del ρ d) →
      n.Standing cfg ρ d.msgId a ∨ ∃ k ∈ d.killTs, a.1.wall + ttlMs ≤ k + B) :
    (n.step cfg a).ExpiresWithin B := by
  obtain ⟨w, a⟩ := a
  -- what stands stands through the whole step, so it is not set again
  let Stands (m : Node) : Prop := ∀ ρ id, n.Standing cfg ρ id (w, a) →
    ρ < m.roles.next ∧ (m.role ρ).topicId = (n.role ρ).topicId ∧ (m.role ρ).tombstones.has id = true
      ∧ ∃ t, n.Unchallenged cfg ρ (n.role ρ).topicId id t (w, a) ∧ n.Unforged cfg ρ id t (w, a)
        ∧ (m.role ρ).Keeps id t
  refine (step_rule (I := fun m => m.now = w.wall ∧ Stands m ∧ m.ExpiresWithin B) (w := w) hwf ?_
    ⟨rfl, ?_, hn⟩).2.2
  · rintro P m m' hP - - hmove ⟨hnow, hstands, hexp⟩
    refine ⟨hmove.now.trans hnow, ?_, ?_⟩
    · intro ρ id hst
      obtain ⟨hlt, htopic, -, t, hright, hforged, hkeeps⟩ := hstands ρ id hst
      have hkept : (m'.role ρ).Keeps id t := by
        refine Node.keeps_move hmove hlt (hnow ▸ hright.1) ?_ (fun i hi => hforged i (hP i hi))
          (fun hd => hst.2.1 (hP _ hd)) hkeeps
        intro i hi
        rw [htopic]
        exact hright.2 i (hP i hi)
      have hhas : (m'.role ρ).tombstones.has id = true := by
        obtain ⟨t', ht', -⟩ := hkept
        exact has_iff.mpr ⟨t', ht'⟩
      exact ⟨hlt.trans_le hmove.roles_next, (hmove.topicId hlt).trans htopic, hhas, t, hright,
        hforged, hkept⟩
    · intro ρ id t ht
      rcases hmove.tombstone ht with ⟨t₀, ht₀, hsame⟩ | ⟨hnew, hset, ⟨d, hd, rfl, hts⟩ | hts⟩
      · rw [hsame.1, hsame.2.1]
        exact hexp ρ id t₀ ht₀
      · rcases hdel ρ d (hP _ hd) with hst | ⟨k, hk, hle⟩
        · rw [(hstands ρ d.msgId hst).2.2.1] at hnew
          cases hnew
        · rw [hset, hts, Option.mem_def.mp hk, hnow]
          exact hle
      · omega
  · rintro ρ id ⟨hlt, -, t, ht, hright, hforged⟩
    exact ⟨hlt, rfl, has_iff.mpr ⟨t, ht⟩, t, hright, hforged, t, ht, .refl t⟩

/-- **The schedules.** A deletion that a node may take in stands there already, or it was sent by a
node of a lower level, `L` before at most. -/
def Net.Descends (cfg : NodeId → Config) (lvl : NodeId → Nat) (L : Nat) (s : Net) : NetAct → Prop
  | .act i w a => ∀ ρ d, Takes (cfg i) (s.nodes i) a (.del ρ d) →
      (s.nodes i).Standing (cfg i) ρ d.msgId (w, a)
        ∨ ∃ p ∈ s.flight, p.del = d ∧ w.wall ≤ p.at' + L ∧ lvl p.sender < lvl i
  | .send _ _ => True

/-- The time that a deletion lives on for, down to a level. -/
def lifetime (L k : Nat) : Int := k * (ttlMs + L) + ttlMs

theorem lifetime_mono {L j k : Nat} (h : j ≤ k) : lifetime L j ≤ lifetime L k := by
  have hnonneg : 0 ≤ ttlMs + L := Int.add_nonneg (by decide) (Int.natCast_nonneg L)
  exact Int.add_le_add_right (Int.mul_le_mul_of_nonneg_right (Int.ofNat_le.mpr h) hnonneg) ttlMs

theorem lifetime_succ (L k : Nat) : lifetime L (k + 1) = lifetime L k + (ttlMs + L) := by
  unfold lifetime
  push_cast
  ring

/-- What the nodes hold expires in the time of their levels, and was sent while it was active. -/
structure Net.Fading (lvl : NodeId → Nat) (L : Nat) (s : Net) : Prop where
  wf : ∀ i, (s.nodes i).Wf
  held : ∀ i, (s.nodes i).ExpiresWithin (lifetime L (lvl i))
  sent : ∀ p ∈ s.flight, ∃ k ∈ p.del.killTs, p.at' ≤ k + lifetime L (lvl p.sender)

theorem Net.Fading.step {cfg : NodeId → Config} {lvl : NodeId → Nat} {L : Nat} {s : Net}
    (hs : s.Fading lvl L) (e : NetAct) (h : s.Descends cfg lvl L e) :
    (s.step cfg e).Fading lvl L := by
  cases e with
  | act i w a =>
    refine ⟨fun j => ?_, fun j => ?_, hs.sent⟩
    · rw [step_act_nodes]
      split
      · exact (hs.wf i).step (w, a)
      · exact hs.wf j
    · rw [step_act_nodes]
      split
      next hj =>
        subst hj
        refine (hs.held j).step (hs.wf j) (w, a) ?_ fun ρ d hd => ?_
        · have hzero : lifetime L 0 = ttlMs := by simp [lifetime]
          exact hzero ▸ lifetime_mono (Nat.zero_le _)
        · rcases h ρ d hd with hst | ⟨p, hp, rfl, hprompt, hlower⟩
          · exact .inl hst
          · obtain ⟨k, hk, hle⟩ := hs.sent p hp
            have hlevel := lifetime_mono (L := L) (Nat.succ_le_of_lt hlower)
            rw [Nat.succ_eq_add_one, lifetime_succ] at hlevel
            refine .inr ⟨k, hk, ?_⟩
            change w.wall + ttlMs ≤ k + lifetime L (lvl j)
            omega
      · exact hs.held j
  | send i t =>
    have hnodes := (step_send cfg s i t).1
    refine ⟨by rw [hnodes]; exact hs.wf, by rw [hnodes]; exact hs.held, ?_⟩
    cases hat : (s.nodes i).roleAt t with
    | none =>
      have hsame : s.step cfg (.send i t) = s := by
        unfold Net.step
        simp only [hat]
      rw [hsame]
      exact hs.sent
    | some ρ =>
      rw [step_send_flight cfg hat]
      intro p hp
      rcases List.mem_append.mp hp with hp | hp
      · obtain ⟨d, hd, rfl⟩ := List.mem_map.mp hp
        obtain ⟨⟨id, tomb⟩, hmem, rfl⟩ := List.mem_map.mp hd
        obtain ⟨hin, hactive⟩ := List.mem_filter.mp hmem
        have hexp := hs.held i ρ id tomb (get_of_mem hin)
        have hwall : s.wall < tomb.exp := by simpa using hactive
        exact ⟨tomb.killTs, rfl, (hwall.trans_le hexp).le⟩
      · exact hs.sent p hp

/-- **The lifetime of a tombstone.** In every run of the network in which deletions only go down from
level to level, over `H` levels at most and each within `L`, no node has an active tombstone of a
kill later than a fixed time after the kill was stamped. -/
theorem tombstone_lifetime (cfg : NodeId → Config) (w : World) (lvl : NodeId → Nat) (H L : Nat)
    (hH : ∀ i, lvl i ≤ H) (es : List NetAct)
    (h : EachStep (Net.step cfg) (Net.Descends cfg lvl L) (Net.boot w) es) (i : NodeId)
    (ρ : RoleRef) (id : MsgId) (t : Tombstone)
    (ht : (((run (Net.step cfg) (Net.boot w) es).nodes i).role ρ).tombstones.get id = some t)
    (hactive : (run (Net.step cfg) (Net.boot w) es).wall < t.exp) :
    (run (Net.step cfg) (Net.boot w) es).wall ≤ t.killTs + (H * (ttlMs + L) + ttlMs) := by
  have hstart : (Net.boot w).Fading lvl L :=
    ⟨fun _ => Node.boot_wf w, fun _ => by rintro ρ id t ⟨⟩, by rintro p ⟨⟩⟩
  have hend := h.invariant (I := Net.Fading lvl L) (fun s e hs he => hs.step e he) hstart
  have hexp := hend.held i ρ id t ht
  have hlevel : lifetime L (lvl i) ≤ lifetime L H := lifetime_mono (hH i)
  unfold lifetime at hlevel hexp
  omega

/-! ### Two nodes that keep a deletion -/

/-- What the app is told does not touch the roles. -/
theorem Node.deliverKillToApp_tables (n : Node) (t : TopicId) (id : MsgId) (killTs : Int) :
    (n.deliverKillToApp t id killTs).roles = n.roles
      ∧ (n.deliverKillToApp t id killTs).axonRoles = n.axonRoles := by
  have hsaw := Moves.sawStamp_core n t killTs
  unfold Node.deliverKillToApp
  simp only []
  split
  · exact ⟨rfl, rfl⟩
  · split_ifs <;> exact ⟨congrArg NodeCore.roles hsaw, congrArg NodeCore.axonRoles hsaw⟩

/-- The role of the topic takes writes, and pins nothing. -/
structure Node.Serves (n : Node) (t : TopicId) (ρ : RoleRef) : Prop where
  registered : n.roleAt t = some ρ
  topicId : (n.role ρ).topicId = t
  gate : (n.role ρ).merge.gate = none
  pins : (n.role ρ).merge.pins = ∅
  dismantling : (n.role ρ).dismantling = none
  retired : (n.role ρ).retired = false

namespace Node.Serves

variable {t : TopicId} {ρ : RoleRef}

section

variable (h : n.Serves t ρ)
include h

/-- The conditions are about the table and five fields of the role. -/
theorem of_role (hat : n'.roleAt t = n.roleAt t)
    (htopic : (n'.role ρ).topicId = (n.role ρ).topicId)
    (hmerge : (n'.role ρ).merge = (n.role ρ).merge)
    (hdis : (n'.role ρ).dismantling = (n.role ρ).dismantling)
    (hret : (n'.role ρ).retired = (n.role ρ).retired) : n'.Serves t ρ :=
  ⟨hat.trans h.registered, htopic.trans h.topicId, by rw [hmerge, h.gate], by rw [hmerge, h.pins],
    hdis.trans h.dismantling, hret.trans h.retired⟩

theorem cutHolds {cut : Option Cut} (hcut : ∀ c ∈ cut, c = n.cutCapture ρ) :
    n.cutHolds ρ cut = true := by
  unfold Node.cutHolds
  simp only []
  rw [h.gate, h.dismantling, h.retired, h.topicId, h.registered]
  cases cut with
  | none => simp
  | some c =>
    rw [hcut c rfl]
    simp [Node.cutCapture]

/-- The sweep takes what is past its time, and nothing is pinned. -/
theorem expire (w : World) : (n.step cfg (w, .expire t)).Serves t ρ ∧ ∀ id,
      ((n.step cfg (w, .expire t)).role ρ).tombstones.get id
        = ((n.role ρ).tombstones.get id).filter fun t => w.wall < t.exp := by
  have hstep : n.step cfg (w, .expire t) = { n with world := w }.modifyRole ρ fun r =>
      (r.expireTombstones w.wall).expireCache w.wall := by
    have hat : ({ n with world := w } : Node).roleAt t = some ρ := h.registered
    change Node.expireRole { n with world := w } t = _
    unfold Node.expireRole
    rw [hat]
    rfl
  have hrole : (n.step cfg (w, .expire t)).role ρ
      = ((n.role ρ).expireTombstones w.wall).expireCache w.wall := by
    rw [hstep]
    exact Node.role_modifyRole_self ..
  refine ⟨h.of_role (by rw [hstep]; rfl) ?_ ?_ ?_ ?_, fun id => ?_⟩
  · rw [hrole]; rfl
  · rw [hrole]; rfl
  · rw [hrole]; rfl
  · rw [hrole]; rfl
  · rw [hrole]
    change ((n.role ρ).tombstones.filter fun id t =>
      !(t.exp ≤ w.wall && !(n.role ρ).pinned id)).get id = _
    rw [get_filter]
    congr 1
    funext t
    rw [Role.pinned, h.pins]
    by_cases hexp : t.exp ≤ w.wall
    · simp [hexp, not_lt.mpr hexp]
    · simp [hexp, not_le.mp hexp]

/-- A deletion of a message without a tombstone sets one that counts from now. -/
theorem applyKill {d : Del} {cut : Option Cut}
    (hcut : ∀ c ∈ cut, c = n.cutCapture ρ) (hnone : (n.role ρ).tombstones.get d.msgId = none) :
    ∃ m, n.applyKill (some ρ) t d cut none = (true, m) ∧ m.Serves t ρ
      ∧ (m.role ρ).tombstones.get d.msgId
        = some ⟨n.now + ttlMs, d.killTs.getD n.now, d.signer, d.seq, ∅⟩ := by
  let seen (r : Role) : Role := { r with seq := max r.seq (d.seq.getD r.seq) }
  let tomb : Tombstone := ⟨n.now + ttlMs, d.killTs.getD n.now, d.signer, d.seq, ∅⟩
  let m : Node := ((n.modifyRole ρ seen).modifyRole ρ fun r => r.bury d.msgId tomb).note
    (.ingested ρ (d.killTs.getD n.now) d.seq false)
  have heq : n.applyKill (some ρ) t d cut none = (true, m.deliverKillToApp t d.msgId
    (d.killTs.getD n.now)) := by
    have hfirst : ((n.modifyRole ρ seen).role ρ).tombstones.has d.msgId = false := by
      rw [Node.role_modifyRole_self]
      change ((n.role ρ).tombstones.get d.msgId).isSome = false
      rw [hnone]
      rfl
    unfold Node.applyKill
    simp only []
    rw [if_pos (h.cutHolds hcut), if_neg (by rw [hfirst]; exact Bool.false_ne_true)]
    rfl
  obtain ⟨hroles, htable⟩ := Node.deliverKillToApp_tables m t d.msgId (d.killTs.getD n.now)
  have hrole : (m.deliverKillToApp t d.msgId (d.killTs.getD n.now)).role ρ
      = (seen (n.role ρ)).bury d.msgId tomb := by
    change (m.deliverKillToApp t d.msgId (d.killTs.getD n.now)).roles.get ρ = _
    rw [hroles]
    change ((n.modifyRole ρ seen).modifyRole ρ fun r => r.bury d.msgId tomb).role ρ = _
    rw [Node.role_modifyRole_self, Node.role_modifyRole_self]
  refine ⟨_, heq, h.of_role (congrArg (OrderedMap.get · t) htable) ?_ ?_ ?_ ?_, ?_⟩
  · rw [hrole]; rfl
  · rw [hrole]; rfl
  · rw [hrole]; rfl
  · rw [hrole]; rfl
  · rw [hrole, Role.bury, get_set, if_pos rfl]

end

/-- A frame that carries one deletion: a REPLAYUP at the node `0`, a DELIVER elsewhere. -/
def replayOf (t : TopicId) (i : NodeId) (d : Del) : Act :=
  if i = 0 then .replayUp ⟨t, none, [], [d]⟩ else .deliver t none none [.del d]

theorem replay (h : n.Serves t ρ) (i : NodeId) {d : Del}
    (hnone : (n.role ρ).tombstones.get d.msgId = none) : (n.perform cfg (replayOf t i d)).Serves t ρ
      ∧ ((n.perform cfg (replayOf t i d)).role ρ).tombstones.get d.msgId
        = some ⟨n.now + ttlMs, d.killTs.getD n.now, d.signer, d.seq, ∅⟩ := by
  unfold replayOf
  by_cases hi : i = 0
  · obtain ⟨m, heq, hserves, hget⟩ := h.applyKill
      (show ∀ c ∈ some (n.cutCapture ρ), c = n.cutCapture ρ by rintro c ⟨⟩; rfl) hnone
    have hdels : n.applyDels ρ t (some (n.cutCapture ρ)) none [d] = (true, m) := by
      unfold Node.applyDels
      rw [heq]
      rfl
    have hrun : n.onReplayUp ⟨t, none, [], [d]⟩
        = m.park (.ingest ρ (n.cutCapture ρ) [] ⟨0, 0, 0, false⟩ .done) := by
      unfold Node.onReplayUp
      rw [h.registered]
      unfold Node.ingestTransfer
      simp only []
      rw [hdels]
      rfl
    rw [if_pos hi]
    change (n.onReplayUp ⟨t, none, [], [d]⟩).Serves t ρ
      ∧ ((n.onReplayUp ⟨t, none, [], [d]⟩).role ρ).tombstones.get d.msgId = _
    rw [hrun]
    exact ⟨hserves.of_role rfl rfl rfl rfl rfl, hget⟩
  · obtain ⟨m, heq, hserves, hget⟩ := h.applyKill
      (show ∀ c ∈ (none : Option Cut), c = n.cutCapture ρ by rintro c ⟨⟩) hnone
    have hrun : n.onDeliver cfg t none none [.del d] = m := by
      unfold Node.onDeliver
      simp only []
      rw [h.registered]
      unfold Node.deliverItems
      rw [heq]
      rfl
    rw [if_neg hi]
    change (n.onDeliver cfg t none none [.del d]).Serves t ρ
      ∧ ((n.onDeliver cfg t none none [.del d]).role ρ).tombstones.get d.msgId = _
    rw [hrun]
    exact ⟨hserves, hget⟩

end Node.Serves

/-- A network of nodes with one configuration. -/
def sampleNodes (i : NodeId) : Config := { sampleConfig with nodeId := i }

/-- The author's kill of a post. -/
def sampleKill (m : Message) (ts : Int) : Kill :=
  ⟨some sampleTopicId, some (sampleDel m ts 0).msgId, some ts, some 0, some sampleAuthor,
    some (signatureTag ++ sampleAuthor ++ sampleAuthor)⟩

/-- The node `1` relays the topic; the node `0` is its root and stamps a post and its kill. -/
def killedNet : List NetAct :=
  [.act 1 (sampleWorld 1000) (.subscribe sampleTopicId 0 false),
    .act 1 (sampleWorld 1000) (.readRepair sampleTopicId),
    .act 0 (sampleWorld 1000) (.pub ⟨sampleTopicId, ⟨[], true⟩, .none, .none, sampleSigned 3 1000⟩),
    .act 0 (sampleWorld 1001) (.resume 0 .checked),
    .act 0 (sampleWorld 1002) (.kill ⟨sampleTopicId, ⟨[], true⟩, .none, .none, sampleKill 3 1002⟩),
    .act 0 (sampleWorld 1003) (.resume 2 .checked)]

/-- Then the root sends the deletion to the relay. -/
def relayedNet : List NetAct :=
  killedNet ++ [.send 0 sampleTopicId, .act 1 (sampleWorld 1005)
    (.deliver sampleTopicId none none [.del (sampleDel 3 1003 2)])]

/-- Does a DELIVER wait under this number? -/
def Node.delivers (n : Node) (k : Nat) : Bool :=
  (n.parked.get k).any fun
    | .deliver .. => true
    | _ => false

/-- A handler that is no DELIVER takes no deletion in when it runs on. -/
theorem Node.not_del_of_resume {k : Nat} (h : n.delivers k = false) (r : Resume) (ρ : RoleRef)
    (d : Del) : ¬Takes cfg n (.resume k r) (.del ρ d) := by
  intro htakes
  cases htakes with
  | resumeDel hp _ =>
    rw [Node.delivers, hp] at h
    cases h

theorem tombstone_lifetime_relayed :
    (run (Net.step sampleNodes) (Net.boot (sampleWorld 0)) relayedNet).wall
      ≤ 1003 + ((1 : Nat) * (ttlMs + (2 : Nat)) + ttlMs) := by
  refine tombstone_lifetime sampleNodes (sampleWorld 0) (fun i => if i = 0 then 0 else 1) 1 2
    (fun i => by split <;> decide) relayedNet ⟨by rintro _ _ ⟨⟩, by rintro _ _ ⟨⟩,
      by rintro _ _ ⟨⟩, ?_, by rintro _ _ ⟨⟩, ?_, trivial, ?_, trivial⟩
    1 0 (sampleDel 3 1003 2).msgId (sampleTombstone 1003 2 1005) (by decide +kernel)
    (by decide +kernel)
  · exact fun ρ d h => absurd h (Node.not_del_of_resume (by decide +kernel) _ ρ d)
  · exact fun ρ d h => absurd h (Node.not_del_of_resume (by decide +kernel) _ ρ d)
  · intro ρ d h
    cases h with
    | del _ hd =>
      obtain rfl := DeliverItem.del.inj (List.mem_singleton.mp hd)
      have hsent : (run (Net.step sampleNodes) (Net.boot (sampleWorld 0))
          (killedNet ++ [.send 0 sampleTopicId])).flight
            = [⟨0, 1003, sampleTopicId, sampleDel 3 1003 2⟩] := by decide +kernel
      refine .inr ⟨⟨0, 1003, sampleTopicId, sampleDel 3 1003 2⟩, ?_, rfl, by decide, by decide⟩
      exact hsent ▸ List.mem_singleton_self _

/-- The node `A` holds the deletion up to `e`, and the node `B` not as long. -/
structure Net.Carried (s : Net) (A B : NodeId) (e : Int) : Prop where
  ne : A ≠ B
  holder : (s.nodes A).Serves sampleTopicId 0
  taker : (s.nodes B).Serves sampleTopicId 0
  held : ((s.nodes A).role 0).tombstones.get (sampleDel 3 1003 2).msgId
    = some (sampleTombstone 1003 2 (e - ttlMs))
  lapsed : ∀ t ∈ ((s.nodes B).role 0).tombstones.get (sampleDel 3 1003 2).msgId, t.exp < e
  wall : s.wall < e

/-- Just before the deletion expires at `A`, where it has gone from `B`, `A` replays it to `B`. -/
def replayRound (A B : NodeId) (e : Int) : List NetAct :=
  [.act B (sampleWorld (e - 1)) (.expire sampleTopicId), .send A sampleTopicId,
    .act B (sampleWorld (e - 1)) (Node.Serves.replayOf sampleTopicId B (sampleDel 3 1003 2))]

theorem Net.Carried.round {s : Net} {A B : NodeId} {e : Int} (h : s.Carried A B e) :
    EachStep (Net.step sampleNodes) Net.Conforms s (replayRound A B e)
      ∧ (run (Net.step sampleNodes) s (replayRound A B e)).Carried B A (e - 1 + ttlMs)
      ∧ (run (Net.step sampleNodes) s (replayRound A B e)).wall = e - 1 := by
  have hne := h.ne
  have httl : 1 < ttlMs := by decide
  -- the deletion goes from `B`
  set s₁ := s.step sampleNodes (.act B (sampleWorld (e - 1)) (.expire sampleTopicId)) with hs₁
  have hB₁ : s₁.nodes B = (s.nodes B).step (sampleNodes B)
      (sampleWorld (e - 1), .expire sampleTopicId) := by
    rw [hs₁, Net.step_act_nodes, if_pos rfl]
  have hA₁ : s₁.nodes A = s.nodes A := by rw [hs₁, Net.step_act_nodes, if_neg hne]
  obtain ⟨hserves₁, hget₁⟩ := @Node.Serves.expire (sampleNodes B) _ _ _ h.taker
    (sampleWorld (e - 1))
  rw [← hB₁] at hserves₁ hget₁
  have hnone : ((s₁.nodes B).role 0).tombstones.get (sampleDel 3 1003 2).msgId = none := by
    rw [hget₁, Option.filter_eq_none_iff]
    intro t ht
    have hover := h.lapsed t ht
    change ¬decide (e - 1 < t.exp) = true
    rw [decide_eq_true_iff]
    omega
  -- `A` sends it
  set s₂ := s₁.step sampleNodes (.send A sampleTopicId) with hs₂
  obtain ⟨hnodes₂, hwall₂⟩ : s₂.nodes = s₁.nodes ∧ s₂.wall = e - 1 :=
    Net.step_send sampleNodes s₁ A sampleTopicId
  have hflight : (sampleTopicId, sampleDel 3 1003 2)
      ∈ s₂.flight.map fun p => (p.topic, p.del) := by
    rw [hs₂, Net.step_send_flight sampleNodes (by rw [hA₁]; exact h.holder.registered)]
    rw [List.map_append, List.map_map]
    refine List.mem_append_left _ (List.mem_map.mpr ⟨_, ?_, rfl⟩)
    refine Role.mem_activeDels (t := sampleTombstone 1003 2 (e - ttlMs))
      (by rw [hA₁]; exact h.held) ?_
    change e - 1 < e - ttlMs + ttlMs
    omega
  -- `B` takes it in
  set s₃ := s₂.step sampleNodes (.act B (sampleWorld (e - 1))
    (Node.Serves.replayOf sampleTopicId B (sampleDel 3 1003 2))) with hs₃
  have hA₃ : s₃.nodes A = s.nodes A := by rw [hs₃, Net.step_act_nodes, if_neg hne, hnodes₂, hA₁]
  let k : Node := { s₁.nodes B with world := sampleWorld (e - 1) }
  have hB₃ : s₃.nodes B = k.perform (sampleNodes B)
      (Node.Serves.replayOf sampleTopicId B (sampleDel 3 1003 2)) := by
    rw [hs₃, Net.step_act_nodes, if_pos rfl, hnodes₂]
    rfl
  have hk : k.Serves sampleTopicId 0 := hserves₁.of_role rfl rfl rfl rfl rfl
  obtain ⟨hserves₃, hget₃⟩ := @Node.Serves.replay (sampleNodes B) _ _ _ hk B _
    (show (k.role 0).tombstones.get (sampleDel 3 1003 2).msgId = none from hnone)
  rw [← hB₃] at hserves₃ hget₃
  have hdels : ∀ x ∈ (Node.Serves.replayOf sampleTopicId B (sampleDel 3 1003 2)).dels,
      x ∈ s₂.flight.map fun p => (p.topic, p.del) := by
    intro x hx
    have hx : x = (sampleTopicId, sampleDel 3 1003 2) := by
      unfold Node.Serves.replayOf at hx
      split at hx
      · exact List.mem_singleton.mp hx
      · exact List.mem_singleton.mp hx
    rw [hx]
    exact hflight
  have hwall : s.wall ≤ e - 1 := Int.le_sub_one_of_lt h.wall
  have hend : run (Net.step sampleNodes) s (replayRound A B e) = s₃ := rfl
  rw [hend]
  refine ⟨⟨⟨hwall, ?_⟩, trivial, ⟨le_of_eq hwall₂, hdels⟩, trivial⟩,
    ⟨hne.symm, hserves₃, ?_, ?_, ?_, ?_⟩, rfl⟩
  · rintro x ⟨⟩
  · rw [hA₃]
    exact h.holder
  · rw [hget₃, Int.add_sub_cancel]
    rfl
  · rw [hA₃, h.held]
    rintro t ⟨⟩
    change e - ttlMs + ttlMs < e - 1 + ttlMs
    omega
  · change e - 1 < e - 1 + ttlMs
    omega

/-- The deletion goes back and forth, `k` times. -/
def replayRounds : Nat → NodeId → NodeId → Int → List NetAct
  | 0, _, _, _ => []
  | k + 1, A, B, e => replayRound A B e ++ replayRounds k B A (e - 1 + ttlMs)

theorem Net.Carried.rounds {s : Net} {A B : NodeId} {e : Int} (h : s.Carried A B e) (k : Nat)
    (hwall : e ≤ s.wall + ttlMs) :
    EachStep (Net.step sampleNodes) Net.Conforms s (replayRounds k A B e)
      ∧ ∃ A' B', (run (Net.step sampleNodes) s (replayRounds k A B e)).Carried A' B'
          (e + k * (ttlMs - 1)) ∧ e + k * (ttlMs - 1)
          ≤ (run (Net.step sampleNodes) s (replayRounds k A B e)).wall + ttlMs := by
  induction k generalizing s A B e with
  | zero =>
    rw [replayRounds, run_nil]
    exact ⟨trivial, A, B, by simpa using h, by simpa using hwall⟩
  | succ k ih =>
    obtain ⟨hconf, hcarried, hlate⟩ := h.round
    obtain ⟨hconf', A', B', hcarried', hlate'⟩ := ih hcarried (by rw [hlate])
    have he : e - 1 + ttlMs + k * (ttlMs - 1) = e + (k + 1 : Nat) * (ttlMs - 1) := by
      push_cast
      ring
    rw [he] at hcarried' hlate'
    refine ⟨(eachStep_append _ _ _ _).mpr ⟨hconf, hconf'⟩, A', B', ?_, ?_⟩
    · rw [replayRounds, run_append]
      exact hcarried'
    · rw [replayRounds, run_append]
      exact hlate'

theorem killedNet_carried :
    (run (Net.step sampleNodes) (Net.boot (sampleWorld 0)) killedNet).Carried 0 1
      (1003 + ttlMs) where
  ne := by decide
  holder := by constructor <;> decide +kernel
  taker := by constructor <;> decide +kernel
  held := by decide +kernel
  lapsed := by decide +kernel
  wall := by decide +kernel

/-- Two nodes keep the deletion for as long as they replay it to one another. -/
theorem tombstone_kept_alive :
    ¬∃ D : Int, ∀ es : List NetAct,
      EachStep (Net.step sampleNodes) Net.Conforms (Net.boot (sampleWorld 0)) es →
      ∀ i ρ id t,
        (((run (Net.step sampleNodes) (Net.boot (sampleWorld 0)) es).nodes i).role
          ρ).tombstones.get id = some t →
        (run (Net.step sampleNodes) (Net.boot (sampleWorld 0)) es).wall < t.exp →
        (run (Net.step sampleNodes) (Net.boot (sampleWorld 0)) es).wall ≤ t.killTs + D := by
  rintro ⟨D, h⟩
  have hstart : EachStep (Net.step sampleNodes) Net.Conforms (Net.boot (sampleWorld 0)) killedNet := by
    decide +kernel
  have hwall : (run (Net.step sampleNodes) (Net.boot (sampleWorld 0)) killedNet).wall = 1003 := by
    decide +kernel
  obtain ⟨hconf, A, B, hcarried, hlate⟩ := killedNet_carried.rounds (D.toNat + 1) (by rw [hwall])
  rw [← run_append] at hcarried hlate
  have hbound := h _ ((eachStep_append _ _ _ _).mpr ⟨hstart, hconf⟩) A 0 _ _ hcarried.held (by
    have := hcarried.wall
    change _ < 1003 + ttlMs + _ - ttlMs + ttlMs
    omega)
  change _ ≤ (1003 : Int) + D at hbound
  have hround : ttlMs - 1 = 86399999 := by decide
  rw [hround] at hlate
  omega

end Axona
