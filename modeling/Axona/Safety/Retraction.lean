import Axona.Safety.Tombstones

/-! # A body and its kill

A subscriber is told of a body and of its kill, in whatever order the two come in, how often, and
with one of them suspended in between. What the app makes of one message is a small machine (`Ear`),
and the delivery memory runs it: a kill that comes first is remembered and never told again. What
stands against that is the tombstone of a role, if there is one and the body has not passed it. -/

namespace Axona

open Library OrderedMap

variable {cfg : Config} {n n' : Node} {t : TopicId} {id : MsgId}

/-! ### What the app makes of one message -/

/-- What the app was told of a message, and what its node remembers of it. -/
inductive Ear where
  /-- Nothing. -/
  | quiet
  /-- The body. -/
  | told
  /-- Nothing, and the kill counts as told. -/
  | missed
  /-- The body, then its kill. -/
  | retracted
  /-- The body, after its kill counted as told. -/
  | revived
deriving DecidableEq, Repr

namespace Ear

/-- A body comes up for the app. -/
def tell : Ear → Ear
  | quiet => told
  | missed => revived
  | e => e

/-- A kill comes up for the app. -/
def kill : Ear → Ear
  | quiet => missed
  | told => retracted
  | e => e

end Ear

/-- Is the call about the message? -/
def AppEvent.about (t : TopicId) (id : MsgId) : AppEvent → Bool
  | .body t' id' | .killed t' id' => t' = t && id' = id
  | .terminated _ _ => false

namespace Node

/-- The last thing the app was told about a message. -/
def lastWord (n : Node) (t : TopicId) (id : MsgId) : Option AppEvent :=
  n.app.find? (AppEvent.about t id)

/-- The delivery memory and the calls made so far are those of the ear. The keys of the message are
the newest, so that the memory drops others first. -/
def Hears (n : Node) (t : TopicId) (id : MsgId) : Ear → Prop
  | .quiet => bodyKey t id ∉ n.appDelivered.keys ∧ killKey t id ∉ n.appDelivered.keys
      ∧ n.lastWord t id = none
  | .told => (∃ ks, n.appDelivered.keys = ks ++ [bodyKey t id])
      ∧ killKey t id ∉ n.appDelivered.keys ∧ n.lastWord t id = some (.body t id)
  | .missed => (∃ ks, n.appDelivered.keys = ks ++ [killKey t id])
      ∧ bodyKey t id ∉ n.appDelivered.keys ∧ n.lastWord t id = none
  | .retracted => (∃ ks, n.appDelivered.keys = ks ++ [bodyKey t id, killKey t id])
      ∧ n.lastWord t id = some (.killed t id)
  | .revived => (∃ ks, n.appDelivered.keys = ks ++ [killKey t id, bodyKey t id])
      ∧ n.lastWord t id = some (.body t id)

theorem killKey_ne_bodyKey (t : TopicId) (id : MsgId) : killKey t id ≠ bodyKey t id := by
  intro h
  have hid : killTag ++ id = id := congrArg Prod.snd h
  have hlen := congrArg List.length hid
  rw [List.length_append] at hlen
  have htag : killTag.length = 5 := rfl
  omega

/-- A new key becomes the newest, and the newest key before it stays. -/
theorem keys_rememberKey {k : AppKey} (h : k ∉ n.appDelivered.keys) :
    (∃ ks, (n.rememberKey k).appDelivered.keys = ks ++ [k] ∧ ∀ k' ∈ ks, k' ∈ n.appDelivered.keys)
    ∧ ∀ ks k₀, n.appDelivered.keys = ks ++ [k₀] →
      ∃ ks', (n.rememberKey k).appDelivered.keys = ks' ++ [k₀, k] := by
  have hset : (n.appDelivered.set k ()).keys = n.appDelivered.keys ++ [k] :=
    keys_set_new h
  unfold rememberKey
  simp only []
  by_cases hfull : appDedupMax < (n.appDelivered.set k ()).size
  · rw [if_pos hfull]
    rw [size_eq_length_keys, hset, List.length_append] at hfull
    rw [keys_dropOldest, hset]
    have hbound : 1 < appDedupMax := by decide
    have hlen : 1 < n.appDelivered.keys.length := by
      simp only [List.length_singleton] at hfull
      omega
    have hne : n.appDelivered.keys ≠ [] := by
      intro hnil
      rw [hnil] at hlen
      simp at hlen
    rw [List.tail_append_of_ne_nil hne]
    refine ⟨⟨_, rfl, fun k' hk' => List.mem_of_mem_tail hk'⟩, ?_⟩
    intro ks k₀ hks
    rw [hks] at hlen ⊢
    have hks₀ : ks ≠ [] := by
      rintro rfl
      simp at hlen
    refine ⟨ks.tail, ?_⟩
    rw [List.tail_append_of_ne_nil hks₀, List.append_assoc]
    rfl
  · rw [if_neg hfull, hset]
    refine ⟨⟨_, rfl, fun k' hk' => hk'⟩, ?_⟩
    intro ks k₀ hks
    exact ⟨ks, by rw [hks, List.append_assoc]; rfl⟩

theorem deliverToApp_old {ts : Int} (hk : bodyKey t id ∈ n.appDelivered.keys) :
    n.deliverToApp t id ts = n := by
  unfold deliverToApp
  split
  · rfl
  rw [if_pos (has_iff_mem_keys.mpr hk)]

theorem deliverToApp_new {ts : Int} (hsub : t ∈ n.mySubscriptions)
    (hk : bodyKey t id ∉ n.appDelivered.keys) :
    (n.deliverToApp t id ts).appDelivered = (n.rememberKey (bodyKey t id)).appDelivered
      ∧ (n.deliverToApp t id ts).app = .body t id :: n.app := by
  have hsaw := Moves.sawStamp_app (n.rememberKey (bodyKey t id)) t ts
  unfold deliverToApp
  rw [if_neg (not_not.mpr hsub), if_neg (fun h => hk (has_iff_mem_keys.mp h))]
  exact ⟨hsaw.2, congrArg (AppEvent.body t id :: ·) hsaw.1⟩

theorem deliverKillToApp_old {ts : Int} (hk : killKey t id ∈ n.appDelivered.keys) :
    (n.deliverKillToApp t id ts).appDelivered = n.appDelivered
      ∧ (n.deliverKillToApp t id ts).app = n.app := by
  have hsaw := Moves.sawStamp_app n t ts
  unfold deliverKillToApp
  split
  · exact ⟨rfl, rfl⟩
  rw [if_pos (by rw [hsaw.2]; exact has_iff_mem_keys.mpr hk)]
  exact ⟨hsaw.2, hsaw.1⟩

theorem deliverKillToApp_new {ts : Int} (hsub : t ∈ n.mySubscriptions)
    (hk : killKey t id ∉ n.appDelivered.keys) :
    (n.deliverKillToApp t id ts).appDelivered = (n.rememberKey (killKey t id)).appDelivered
      ∧ (n.deliverKillToApp t id ts).app
        = if bodyKey t id ∈ (n.rememberKey (killKey t id)).appDelivered.keys
          then .killed t id :: n.app else n.app := by
  obtain ⟨happ, hdel⟩ := Moves.sawStamp_app n t ts
  have hmem : ((n.sawStamp t ts).rememberKey (killKey t id)).appDelivered
      = (n.rememberKey (killKey t id)).appDelivered := by
    unfold rememberKey
    rw [hdel]
  unfold deliverKillToApp
  rw [if_neg (not_not.mpr hsub), if_neg (by rw [hdel]; exact fun h => hk (has_iff_mem_keys.mp h))]
  by_cases hbody : bodyKey t id ∈ (n.rememberKey (killKey t id)).appDelivered.keys
  · rw [if_pos (by rw [hmem]; exact has_iff_mem_keys.mpr hbody), if_pos hbody]
    exact ⟨hmem, congrArg (AppEvent.killed t id :: ·) happ⟩
  · rw [if_neg (by rw [hmem]; exact fun h => hbody (has_iff_mem_keys.mp h)), if_neg hbody]
    exact ⟨hmem, happ⟩

theorem lastWord_cons_self {ev : AppEvent} (happ : n'.app = ev :: n.app)
    (hev : ev.about t id = true) : n'.lastWord t id = some ev := by
  unfold lastWord
  rw [happ, List.find?_cons_of_pos hev]

variable {e : Ear} (h : n.Hears t id e)
include h

/-- What the ear is after the app was told nothing. -/
theorem Hears.congr (hdel : n'.appDelivered = n.appDelivered)
    (happ : n'.app = n.app) : n'.Hears t id e := by
  have hlast : n'.lastWord t id = n.lastWord t id := by rw [lastWord, lastWord, happ]
  cases e <;> simpa only [Hears, hdel, hlast] using h

/-- **The memory runs the ear, on bodies.** -/
theorem Hears.deliverToApp (hsub : t ∈ n.mySubscriptions)
    (ts : Int) : (n.deliverToApp t id ts).Hears t id e.tell := by
  have habout : (AppEvent.body t id).about t id = true := by simp [AppEvent.about]
  cases e with
  | quiet =>
    obtain ⟨hb, hk, -⟩ := h
    obtain ⟨hdel, happ⟩ := deliverToApp_new hsub hb
    obtain ⟨⟨ks, hks, hold⟩, -⟩ := keys_rememberKey hb
    show (∃ ks, _ = ks ++ [bodyKey t id]) ∧ _
    rw [hdel, hks]
    refine ⟨⟨ks, rfl⟩, ?_, lastWord_cons_self happ habout⟩
    intro hmem
    rcases List.mem_append.mp hmem with hmem | hmem
    · exact hk (hold _ hmem)
    · exact killKey_ne_bodyKey t id (List.mem_singleton.mp hmem)
  | missed =>
    obtain ⟨⟨ks, hks⟩, hb, -⟩ := h
    obtain ⟨hdel, happ⟩ := deliverToApp_new hsub hb
    obtain ⟨ks', hks'⟩ := (keys_rememberKey hb).2 ks (killKey t id) hks
    show (∃ ks, _ = ks ++ [killKey t id, bodyKey t id]) ∧ _
    rw [hdel]
    exact ⟨⟨ks', hks'⟩, lastWord_cons_self happ habout⟩
  | told | retracted | revived =>
    obtain ⟨ks, hks⟩ := h.1
    rw [deliverToApp_old (by rw [hks]; simp)]
    exact h

/-- **The memory runs the ear, on kills.** -/
theorem Hears.deliverKillToApp (hsub : t ∈ n.mySubscriptions)
    (ts : Int) : (n.deliverKillToApp t id ts).Hears t id e.kill := by
  have habout : (AppEvent.killed t id).about t id = true := by simp [AppEvent.about]
  cases e with
  | quiet =>
    obtain ⟨hb, hk, hlast⟩ := h
    obtain ⟨hdel, happ⟩ := deliverKillToApp_new hsub hk
    obtain ⟨⟨ks, hks, hold⟩, -⟩ := keys_rememberKey hk
    have hno : bodyKey t id ∉ (n.rememberKey (killKey t id)).appDelivered.keys := by
      rw [hks]
      intro hmem
      rcases List.mem_append.mp hmem with hmem | hmem
      · exact hb (hold _ hmem)
      · exact killKey_ne_bodyKey t id (List.mem_singleton.mp hmem).symm
    rw [if_neg hno] at happ
    show (∃ ks, _ = ks ++ [killKey t id]) ∧ _
    rw [hdel]
    exact ⟨⟨ks, hks⟩, hno, by rw [lastWord, happ]; exact hlast⟩
  | told =>
    obtain ⟨⟨ks, hks⟩, hk, -⟩ := h
    obtain ⟨hdel, happ⟩ := deliverKillToApp_new hsub hk
    obtain ⟨ks', hks'⟩ := (keys_rememberKey hk).2 ks (bodyKey t id) hks
    rw [if_pos (by rw [hks']; simp)] at happ
    show (∃ ks, _ = ks ++ [bodyKey t id, killKey t id]) ∧ _
    rw [hdel]
    exact ⟨⟨ks', hks'⟩, lastWord_cons_self happ habout⟩
  | missed | retracted | revived =>
    obtain ⟨ks, hks⟩ := h.1
    obtain ⟨hdel, happ⟩ := @deliverKillToApp_old n t id ts (by rw [hks]; simp)
    exact h.congr hdel happ

end Node

/-! ### The node around it -/

/-- What a commit under no cut looks at in the role. -/
structure Role.SameGuard (r r' : Role) : Prop where
  topicId : r'.topicId = r.topicId
  gate : r'.merge.gate = r.merge.gate
  dismantling : r'.dismantling = r.dismantling
  retired : r'.retired = r.retired

theorem Role.sameGuard_of_core {r r' : Role} (h : r'.core = r.core) : r.SameGuard r' :=
  ⟨congrArg RoleCore.topicId h, congrArg RoleCore.gate h, congrArg RoleCore.dismantling h,
    congrArg RoleCore.retired h⟩

/-- The two nodes have the same subscriptions, table of roles, suspended handlers and tombstones,
and their roles are under the same guard. -/
structure Node.Beside (n n' : Node) : Prop where
  mySubscriptions : n'.mySubscriptions = n.mySubscriptions
  axonRoles : n'.axonRoles = n.axonRoles
  parked : n'.parked = n.parked
  guard : ∀ ρ, (n.role ρ).SameGuard (n'.role ρ)
  tombstones : ∀ ρ id, (n'.role ρ).tombstones.get id = (n.role ρ).tombstones.get id

theorem Node.beside_of_core (h : n'.core = n.core) (hsub : n'.mySubscriptions = n.mySubscriptions) :
    n.Beside n' := by
  have hrole (ρ : RoleRef) : n'.role ρ = n.role ρ := congrArg (fun c => c.roles.get ρ) h
  refine ⟨hsub, congrArg NodeCore.axonRoles h, congrArg NodeCore.parked h, ?_, ?_⟩
  · intro ρ
    rw [hrole]
    exact Role.sameGuard_of_core rfl
  · intro ρ id
    rw [hrole]

theorem Node.Beside.trans {n'' : Node} (h : n.Beside n') (h' : n'.Beside n'') : n.Beside n'' where
  mySubscriptions := h'.mySubscriptions.trans h.mySubscriptions
  axonRoles := h'.axonRoles.trans h.axonRoles
  parked := h'.parked.trans h.parked
  guard ρ := by
    obtain ⟨ht, hg, hd, hr⟩ := h.guard ρ
    obtain ⟨ht', hg', hd', hr'⟩ := h'.guard ρ
    exact ⟨ht'.trans ht, hg'.trans hg, hd'.trans hd, hr'.trans hr⟩
  tombstones ρ id := (h'.tombstones ρ id).trans (h.tombstones ρ id)

/-- A change of a role that keeps its guard and its tombstones. -/
theorem Node.Beside.modifyRole (n : Node) (ρ : RoleRef) (f : Role → Role)
    (hg : (n.role ρ).SameGuard (f (n.role ρ)))
    (ht : ∀ id, (f (n.role ρ)).tombstones.get id = (n.role ρ).tombstones.get id) :
    n.Beside (n.modifyRole ρ f) := by
  refine ⟨rfl, rfl, rfl, fun ρ' => ?_, fun ρ' id => ?_⟩
  · by_cases h : ρ' = ρ
    · subst h
      rw [Node.role_modifyRole_self]
      exact hg
    · rw [show (n.modifyRole ρ f).role ρ' = n.role ρ' from Heap.get_modify_of_ne n.roles f h]
      exact Role.sameGuard_of_core rfl
  · by_cases h : ρ' = ρ
    · subst h
      rw [Node.role_modifyRole_self, ht id]
    · rw [show (n.modifyRole ρ f).role ρ' = n.role ρ' from Heap.get_modify_of_ne n.roles f h]

/-- The app was told nothing, and nothing was forgotten of what it was told. -/
def Node.SameEar (n n' : Node) : Prop := n'.appDelivered = n.appDelivered ∧ n'.app = n.app

theorem Node.relayBody_beside (n : Node) (ρ : RoleRef) (m : Stamped) :
    n.Beside (n.relayBody cfg ρ m) ∧ n.SameEar (n.relayBody cfg ρ m) := by
  have hseq {k : Node} (hk : n.Beside k ∧ n.SameEar k) :
      n.Beside (k.modifyRole ρ fun r => { r with seq := max r.seq (m.seq.getD r.seq) })
        ∧ n.SameEar (k.modifyRole ρ fun r => { r with seq := max r.seq (m.seq.getD r.seq) }) :=
    ⟨hk.1.trans (Node.Beside.modifyRole k ρ _ ⟨rfl, rfl, rfl, rfl⟩ fun _ => rfl), hk.2⟩
  unfold Node.relayBody Node.cachePush
  by_cases hcut : n.cutHolds ρ none = true
  · simp only [hcut, if_true]
    refine hseq ?_
    have hmod := Node.Beside.modifyRole n ρ (fun r => r.push cfg.cacheMax cfg.cacheBytes m)
      (by
        rcases (n.role ρ).push_cases cfg.cacheMax cfg.cacheBytes m with h | h
        · rw [h]
          exact Role.sameGuard_of_core rfl
        · exact ⟨congrArg RoleCore.topicId h.rest, congrArg RoleCore.gate h.rest,
            congrArg RoleCore.dismantling h.rest, congrArg RoleCore.retired h.rest⟩)
      (fun id => Role.push_tombstones ..)
    exact ⟨⟨rfl, rfl, rfl, hmod.guard, hmod.tombstones⟩, rfl, rfl⟩
  · simp only [hcut, Bool.false_eq_true, if_false]
    exact hseq ⟨Node.beside_of_core rfl rfl, rfl, rfl⟩

theorem Node.noteDelivered_beside (n : Node) (ρ : RoleRef) (m : Stamped) :
    n.Beside (n.noteDelivered cfg t ρ m) ∧ n.SameEar (n.noteDelivered cfg t ρ m) := by
  unfold Node.noteDelivered
  split
  · next d _ =>
    split
    · have hcore := Role.noteMetric_core (n.role ρ) d
      refine ⟨Node.Beside.modifyRole n ρ _ (Role.sameGuard_of_core hcore) ?_, rfl, rfl⟩
      intro id
      exact congrArg (fun c => c.tombstones.get id) hcore
    · exact ⟨Node.beside_of_core rfl rfl, rfl, rfl⟩
  · exact ⟨Node.beside_of_core rfl rfl, rfl, rfl⟩

theorem Node.cutHolds_congr (hax : n'.axonRoles = n.axonRoles) {ρ : RoleRef}
    (hg : (n.role ρ).SameGuard (n'.role ρ)) : n'.cutHolds ρ none = n.cutHolds ρ none := by
  unfold Node.cutHolds Node.roleAt
  simp only [hg.gate, hg.dismantling, hg.retired, hg.topicId, hax]

/-! ### The DELIVERs of one body and of its kill -/

/-- The suspended handler is a DELIVER that waits at the body. -/
def Parked.delivers (t : TopicId) (id : MsgId) : Parked → Bool
  | .deliver t' _ _ m _ => t' = t && m.msgId = id
  | _ => false

/-- A DELIVER of the body waits. -/
def Node.Waits (n : Node) (t : TopicId) (id : MsgId) : Prop :=
  ∃ e ∈ n.parked.entries, e.2.delivers t id = true

/-- The role for the topic, if there is one, holds a tombstone of the message. -/
def Node.Buried (n : Node) (ro : Option RoleRef) (id : MsgId) : Prop :=
  ∃ ρ ∈ ro, ((n.role ρ).tombstones.get id).isSome = true

/-- The role for the topic, if there is one, takes a kill. -/
def Node.TakesKills (n : Node) (ro : Option RoleRef) : Prop := ∀ ρ ∈ ro, n.cutHolds ρ none = true

/-- The node is subscribed, its role for the topic is `ro`, a tombstone of the message there stands
against its body, and a DELIVER that waits at the body has nothing behind it. -/
structure Node.Listens (n : Node) (t : TopicId) (m : Stamped) (ro : Option RoleRef) : Prop where
  subscribed : t ∈ n.mySubscriptions
  role : n.roleAt t = ro
  stands : ∀ ρ ∈ ro, ∀ tomb, (n.role ρ).tombstones.get m.msgId = some tomb →
    standsAgainst tomb.signer m.json = true
  waiting : ∀ k p, n.parked.get k = some p → p.delivers t m.msgId = true →
    ∃ ρ g, ro = some ρ ∧ p = .deliver t ρ g m []

namespace Node

variable {m : Stamped} {ro : Option RoleRef}

theorem waits_iff : n.Waits t id ↔ ∃ k p, n.parked.get k = some p ∧ p.delivers t id = true := by
  constructor
  · rintro ⟨⟨k, p⟩, he, hd⟩
    exact ⟨k, p, get_of_mem he, hd⟩
  · rintro ⟨k, p, hp, hd⟩
    exact ⟨(k, p), mem_of_get hp, hd⟩

namespace Beside

theorem listens (h : n.Beside n') (hl : n.Listens t m ro) : n'.Listens t m ro where
  subscribed := by rw [h.mySubscriptions]; exact hl.subscribed
  role := by rw [roleAt, h.axonRoles]; exact hl.role
  stands ρ hρ tomb ht := hl.stands ρ hρ tomb (by rw [← h.tombstones]; exact ht)
  waiting k p hp := hl.waiting k p (by rw [← h.parked]; exact hp)

theorem buried (h : n.Beside n') : n'.Buried ro id ↔ n.Buried ro id := by
  unfold Buried
  simp only [h.tombstones]

theorem takesKills (h : n.Beside n') : n'.TakesKills ro ↔ n.TakesKills ro := by
  unfold TakesKills
  simp only [cutHolds_congr h.axonRoles (h.guard _)]

theorem waits (h : n.Beside n') : n'.Waits t id ↔ n.Waits t id := by
  unfold Waits
  rw [h.parked]

end Beside

/-- The world, and where the node is attached, are beside the point. -/
theorem beside_of_world (n : Node) (w : World) (us : OrderedMap TopicId NodeId) :
    n.Beside { n with world := w, upstream := us } :=
  ⟨rfl, rfl, rfl, fun _ => Role.sameGuard_of_core rfl, fun _ _ => rfl⟩

/-! What the app is told leaves the rest alone. -/

theorem deliverToApp_beside (n : Node) (t : TopicId) (id : MsgId) (ts : Int) :
    n.Beside (n.deliverToApp t id ts) := by
  unfold deliverToApp
  split
  · exact beside_of_core rfl rfl
  split
  · exact beside_of_core rfl rfl
  refine beside_of_core (Moves.sawStamp_core (n.rememberKey (bodyKey t id)) t ts) ?_
  unfold sawStamp
  split <;> rfl

theorem deliverKillToApp_beside (n : Node) (t : TopicId) (id : MsgId) (ts : Int) :
    n.Beside (n.deliverKillToApp t id ts) := by
  have hsaw : n.Beside (n.sawStamp t ts) := by
    refine beside_of_core (Moves.sawStamp_core n t ts) ?_
    unfold sawStamp
    split <;> rfl
  unfold deliverKillToApp
  simp only []
  split
  · exact beside_of_core rfl rfl
  split
  · exact hsaw
  split
  · exact hsaw.trans (beside_of_core rfl rfl)
  · exact hsaw.trans (beside_of_core rfl rfl)

/-- The scene goes on: what the node listens for, what is buried, and whether a kill is taken. -/
structure GoesOn (n n' : Node) (t : TopicId) (m : Stamped) (ro : Option RoleRef) : Prop where
  listens : n'.Listens t m ro
  buried : n'.Buried ro m.msgId ↔ n.Buried ro m.msgId
  takesKills : n'.TakesKills ro ↔ n.TakesKills ro

theorem Beside.goesOn (h : n.Beside n') (hl : n.Listens t m ro) : n.GoesOn n' t m ro :=
  ⟨h.listens hl, h.buried, h.takesKills⟩

/-- A tombstone that stands against the body suppresses it, and stays. -/
theorem tombstoned_stands {ρ : RoleRef}
    (hst : ∀ tomb, (n.role ρ).tombstones.get m.msgId = some tomb →
      standsAgainst tomb.signer m.json = true) : n.tombstoned (some ρ) m.msgId m.json
      = (((n.role ρ).tombstones.get m.msgId).isSome, n) := by
  have hself (r : Role) (hr : r = n.role ρ) : (n.modifyRole ρ fun _ => r) = n := by
    rw [modifyRole, Heap.modify_eq_self (show r = n.roles.get ρ from hr)]
  have hrole : (n.role ρ).tombstoned m.msgId m.json
      = (((n.role ρ).tombstones.get m.msgId).isSome, n.role ρ) := by
    unfold Role.tombstoned
    cases htomb : (n.role ρ).tombstones.get m.msgId with
    | none => rfl
    | some tomb =>
      have hstands := hst tomb htomb
      simp only []
      cases hs : tomb.signer with
      | none => rfl
      | some s =>
        cases s with
        | nil => rfl
        | cons c cs =>
          have hauthor : m.json.author = some (lc (c :: cs)) := by
            rw [hs] at hstands
            exact of_decide_eq_true hstands
          simp only [hauthor, if_true]
          rfl
  unfold tombstoned
  simp only []
  rw [hrole, hself _ rfl]

/-- A DELIVER of the body is suppressed, or waits, or tells the app. -/
theorem deliverItems_body (h : n.Listens t m ro) {e : Ear} (he : n.Hears t m.msgId e)
    (g : Option Gen) : n.GoesOn (n.deliverItems cfg t ro g [.body m]) t m ro
      ∧ ((n.Buried ro m.msgId ∧ (n.deliverItems cfg t ro g [.body m]).Hears t m.msgId e
          ∧ ((n.deliverItems cfg t ro g [.body m]).Waits t m.msgId ↔ n.Waits t m.msgId))
        ∨ (¬n.Buried ro m.msgId ∧ (n.deliverItems cfg t ro g [.body m]).Hears t m.msgId e
          ∧ (n.deliverItems cfg t ro g [.body m]).Waits t m.msgId)
        ∨ (¬n.Buried ro m.msgId ∧ (n.deliverItems cfg t ro g [.body m]).Hears t m.msgId e.tell
          ∧ ((n.deliverItems cfg t ro g [.body m]).Waits t m.msgId ↔ n.Waits t m.msgId))) := by
  have htold {k : Node} (hb : n.Beside k) (hs : n.SameEar k) (hno : ¬n.Buried ro m.msgId) :
      n.GoesOn (k.deliverToApp t m.msgId m.publishTs) t m ro
        ∧ ((n.Buried ro m.msgId ∧ (k.deliverToApp t m.msgId m.publishTs).Hears t m.msgId e
            ∧ ((k.deliverToApp t m.msgId m.publishTs).Waits t m.msgId ↔ n.Waits t m.msgId))
          ∨ (¬n.Buried ro m.msgId ∧ (k.deliverToApp t m.msgId m.publishTs).Hears t m.msgId e
            ∧ (k.deliverToApp t m.msgId m.publishTs).Waits t m.msgId)
          ∨ (¬n.Buried ro m.msgId ∧ (k.deliverToApp t m.msgId m.publishTs).Hears t m.msgId e.tell
            ∧ ((k.deliverToApp t m.msgId m.publishTs).Waits t m.msgId ↔ n.Waits t m.msgId))) := by
    have hall := hb.trans (deliverToApp_beside k t m.msgId m.publishTs)
    refine ⟨hall.goesOn h, .inr (.inr ⟨hno, ?_, hall.waits⟩)⟩
    exact (he.congr hs.1 hs.2).deliverToApp (hb.listens h).subscribed m.publishTs
  unfold deliverItems
  cases ro with
  | none =>
    refine htold (beside_of_core rfl rfl) ⟨rfl, rfl⟩ ?_
    rintro ⟨ρ, hρ, -⟩
    cases hρ
  | some ρ =>
    rw [tombstoned_stands (h.stands ρ rfl)]
    cases htomb : ((n.role ρ).tombstones.get m.msgId).isSome with
    | true =>
      have hb : n.Beside n := beside_of_core rfl rfl
      exact ⟨hb.goesOn h, .inl ⟨⟨ρ, rfl, htomb⟩, he, Iff.rfl⟩⟩
    | false =>
      have hno : ¬n.Buried (some ρ) m.msgId := by
        rintro ⟨ρ', hρ', hsome⟩
        cases hρ'
        rw [htomb] at hsome
        cases hsome
      simp only []
      split
      · exact htold (beside_of_core rfl rfl) ⟨rfl, rfl⟩ hno
      split
      · refine ⟨⟨⟨h.subscribed, h.role, h.stands, ?_⟩, Iff.rfl, Iff.rfl⟩,
          .inr (.inl ⟨hno, he.congr rfl rfl, ?_⟩)⟩
        · intro k p hp hd
          rw [park, get_set] at hp
          split at hp
          · cases hp
            exact ⟨ρ, g, rfl, rfl⟩
          · exact h.waiting k p hp hd
        · rw [waits_iff]
          refine ⟨n.nextParked, .deliver t ρ g m [], ?_, ?_⟩
          · rw [park, get_set, if_pos rfl]
          · simp [Parked.delivers]
      · obtain ⟨hb, hs⟩ := @relayBody_beside cfg n ρ m
        exact htold hb hs hno

/-- A DELIVER that waited runs on past the tombstones, and tells the app. -/
theorem resumeDeliver_body {k : Nat} {ρ : RoleRef} {g : Option Gen} {e : Ear}
    (h : n.Listens t m (some ρ)) (he : n.Hears t m.msgId e)
    (hn : n' = { n with parked := n.parked.delete k }.resumeDeliver cfg t ρ g m []) :
    n.GoesOn n' t m (some ρ) ∧ n'.Hears t m.msgId e.tell
      ∧ (n'.Waits t m.msgId → n.Waits t m.msgId) := by
  set n₀ : Node := { n with parked := n.parked.delete k } with hn₀
  have hget (k' : Nat) (p : Parked) (hp : n₀.parked.get k' = some p) :
      n.parked.get k' = some p := by
    rw [hn₀] at hp
    exact of_get_delete hp
  have hl : n₀.Listens t m (some ρ) :=
    ⟨h.subscribed, h.role, h.stands, fun k' p hp => h.waiting k' p (hget k' p hp)⟩
  have hwaits : n₀.Waits t m.msgId → n.Waits t m.msgId := by
    rw [waits_iff, waits_iff]
    rintro ⟨k', p, hp, hd⟩
    exact ⟨k', p, hget k' p hp, hd⟩
  obtain ⟨hnote, hsnote⟩ := @noteDelivered_beside cfg t n₀ ρ m
  obtain ⟨hrelay, hsrelay⟩ := @relayBody_beside cfg (n₀.noteDelivered cfg t ρ m) ρ m
  have hb := hnote.trans hrelay
  have hhears : ((n₀.noteDelivered cfg t ρ m).relayBody cfg ρ m).Hears t m.msgId e :=
    (he.congr hsnote.1 hsnote.2).congr hsrelay.1 hsrelay.2
  have hall := hb.trans (deliverToApp_beside _ t m.msgId m.publishTs)
  have hres : n' = ((n₀.noteDelivered cfg t ρ m).relayBody cfg ρ m).deliverToApp t m.msgId
      m.publishTs := hn
  rw [hres]
  refine ⟨⟨hall.listens hl, hall.buried, hall.takesKills⟩, ?_, fun hw => hwaits (hall.waits.mp hw)⟩
  exact hhears.deliverToApp (hb.listens hl).subscribed m.publishTs

/-- A change of the role for the topic that keeps its guard and leaves a tombstone of the
message. -/
theorem Listens.buried {ρ : RoleRef} {r' : Role} (h : n.Listens t m (some ρ))
    (hg : (n.role ρ).SameGuard r') {tomb : Tombstone}
    (ht : r'.tombstones.get m.msgId = some tomb) (hst : standsAgainst tomb.signer m.json = true) :
    (n.modifyRole ρ fun _ => r').Listens t m (some ρ)
      ∧ (n.modifyRole ρ fun _ => r').Buried (some ρ) m.msgId
      ∧ ((n.modifyRole ρ fun _ => r').TakesKills (some ρ) ↔ n.TakesKills (some ρ)) := by
  have hrole : (n.modifyRole ρ fun _ => r').role ρ = r' := role_modifyRole_self n ρ _
  refine ⟨⟨h.subscribed, h.role, ?_, h.waiting⟩, ⟨ρ, rfl, ?_⟩, ?_⟩
  · rintro ρ' ⟨⟩ tomb' ht'
    rw [hrole, ht] at ht'
    cases ht'
    exact hst
  · rw [hrole, ht]
    rfl
  · have hcut : (n.modifyRole ρ fun _ => r').cutHolds ρ none = n.cutHolds ρ none :=
      @cutHolds_congr n (n.modifyRole ρ fun _ => r') rfl ρ (by rw [hrole]; exact hg)
    constructor
    · rintro htakes ρ' ⟨⟩
      rw [← hcut]
      exact htakes ρ rfl
    · rintro htakes ρ' ⟨⟩
      rw [hcut]
      exact htakes ρ rfl

/-- The commit of a kill: the tombstone stands, or has one more owner. -/
theorem applyKill_commit {ρ : RoleRef} {d : Del} (g : Option Gen) (hid : d.msgId = m.msgId)
    (hauth : standsAgainst d.signer m.json = true) (h : n.Listens t m (some ρ))
    (hcut : n.cutHolds ρ none = true) : ∃ k : Node, (n.applyKill (some ρ) t d none g).2
        = k.deliverKillToApp t m.msgId (d.killTs.getD n.now)
      ∧ k.Listens t m (some ρ) ∧ n.SameEar k ∧ k.Buried (some ρ) m.msgId
      ∧ (k.TakesKills (some ρ) ↔ n.TakesKills (some ρ))
      ∧ (k.Waits t m.msgId ↔ n.Waits t m.msgId) := by
  let r : Role := { n.role ρ with seq := max (n.role ρ).seq (d.seq.getD (n.role ρ).seq) }
  let n₁ : Node := n.modifyRole ρ fun r => { r with seq := max r.seq (d.seq.getD r.seq) }
  have hb : n.Beside n₁ := Beside.modifyRole n ρ _ ⟨rfl, rfl, rfl, rfl⟩ fun _ => rfl
  have hrole : n₁.role ρ = r := role_modifyRole_self n ρ _
  have hl := hb.listens h
  -- the role after the commit, with its tombstone
  have hfin (r' : Role) (hg : r.SameGuard r') (tomb : Tombstone)
      (ht : r'.tombstones.get m.msgId = some tomb)
      (hst : standsAgainst tomb.signer m.json = true) :
      (n₁.modifyRole ρ fun _ => r').Listens t m (some ρ)
        ∧ (n₁.modifyRole ρ fun _ => r').Buried (some ρ) m.msgId
        ∧ ((n₁.modifyRole ρ fun _ => r').TakesKills (some ρ) ↔ n.TakesKills (some ρ)) := by
    obtain ⟨hl', hburied, htakes⟩ := hl.buried (by rw [hrole]; exact hg) ht hst
    exact ⟨hl', hburied, htakes.trans hb.takesKills⟩
  unfold applyKill
  simp only []
  rw [if_pos hcut, hid]
  cases htomb : (n₁.role ρ).tombstones.has m.msgId with
  | true =>
    obtain ⟨tomb, ht⟩ := has_iff.mp htomb
    have hst := hl.stands ρ rfl tomb ht
    rw [hrole] at ht
    let r' : Role := g.elim r (r.ownTombstone m.msgId)
    have hr' : r.SameGuard r' ∧ ∃ tomb', r'.tombstones.get m.msgId = some tomb'
        ∧ standsAgainst tomb'.signer m.json = true := by
      cases g with
      | none => exact ⟨Role.sameGuard_of_core rfl, tomb, ht, hst⟩
      | some g =>
        let tomb' : Tombstone :=
          { tomb with owners := insert (g.root, toInt32 g.epoch) tomb.owners }
        have hown : r' = { r with tombstones := r.tombstones.set m.msgId tomb' } := by
          show r.ownTombstone m.msgId g = _
          unfold Role.ownTombstone
          rw [ht]
        rw [hown]
        refine ⟨⟨rfl, rfl, rfl, rfl⟩, tomb', ?_, hst⟩
        rw [get_set, if_pos rfl]
    obtain ⟨hg, tomb', ht', hst'⟩ := hr'
    obtain ⟨hl', hburied, htakes⟩ := hfin r' hg tomb' ht' hst'
    have hmod : (n₁.modifyRole ρ fun r => g.elim r (r.ownTombstone m.msgId))
        = n₁.modifyRole ρ fun _ => r' := by
      unfold modifyRole Heap.modify
      rw [show n₁.roles.get ρ = r from hrole]
    refine ⟨n₁.modifyRole ρ fun _ => r', ?_, hl', ⟨rfl, rfl⟩, hburied, htakes, Iff.rfl⟩
    rw [← hmod]
    rfl
  | false =>
    let tomb : Tombstone := ⟨n₁.now + ttlMs, d.killTs.getD n.now, d.signer, d.seq,
      g.elim ∅ fun g => {(g.root, toInt32 g.epoch)}⟩
    obtain ⟨hl', hburied, htakes⟩ := hfin (r.bury m.msgId tomb) ⟨rfl, rfl, rfl, rfl⟩ tomb
      (by rw [Role.bury, get_set, if_pos rfl]) hauth
    have hmod : (n₁.modifyRole ρ fun r => r.bury m.msgId tomb)
        = n₁.modifyRole ρ fun _ => r.bury m.msgId tomb := by
      unfold modifyRole Heap.modify
      rw [show n₁.roles.get ρ = r from hrole]
    refine ⟨(n₁.modifyRole ρ fun _ => r.bury m.msgId tomb).note
      (.ingested ρ (d.killTs.getD n.now) d.seq false), ?_,
      ⟨hl'.subscribed, hl'.role, hl'.stands, hl'.waiting⟩, ⟨rfl, rfl⟩, hburied, htakes, Iff.rfl⟩
    rw [← hmod]
    rfl

/-- A DELIVER of the kill is refused at the role, or buries the body there and tells the app. -/
theorem deliverItems_kill {d : Del} (g : Option Gen) (hid : d.msgId = m.msgId)
    (hauth : standsAgainst d.signer m.json = true) (h : n.Listens t m ro) {e : Ear}
    (he : n.Hears t m.msgId e) : (n.deliverItems cfg t ro g [.del d]).Listens t m ro
      ∧ ((n.deliverItems cfg t ro g [.del d]).TakesKills ro ↔ n.TakesKills ro)
      ∧ ((n.deliverItems cfg t ro g [.del d]).Waits t m.msgId ↔ n.Waits t m.msgId)
      ∧ ((¬n.TakesKills ro ∧ (n.deliverItems cfg t ro g [.del d]).Hears t m.msgId e
          ∧ ((n.deliverItems cfg t ro g [.del d]).Buried ro m.msgId ↔ n.Buried ro m.msgId))
        ∨ (n.TakesKills ro ∧ (n.deliverItems cfg t ro g [.del d]).Hears t m.msgId e.kill
          ∧ ((n.deliverItems cfg t ro g [.del d]).Buried ro m.msgId ↔ ro.isSome = true))) := by
  have hstep : n.deliverItems cfg t ro g [.del d] = (n.applyKill ro t d none g).2 := rfl
  rw [hstep]
  cases ro with
  | none =>
    have hb := deliverKillToApp_beside n t d.msgId (d.killTs.getD n.now)
    have hkill : (n.applyKill none t d none g).2
        = n.deliverKillToApp t d.msgId (d.killTs.getD n.now) := rfl
    have htakes : n.TakesKills none := by
      rintro ρ ⟨⟩
    rw [hkill]
    refine ⟨hb.listens h, hb.takesKills, hb.waits, .inr ⟨htakes, ?_, ?_⟩⟩
    · rw [hid]
      exact he.deliverKillToApp h.subscribed _
    · constructor
      · rintro ⟨ρ, hρ, -⟩
        cases hρ
      · rintro ⟨⟩
  | some ρ =>
    by_cases hcut : n.cutHolds ρ none = true
    · obtain ⟨k, heq, hl, hs, hburied, htakes, hwaits⟩ := applyKill_commit g hid hauth h hcut
      have hb := deliverKillToApp_beside k t m.msgId (d.killTs.getD n.now)
      have hhears : k.Hears t m.msgId e := he.congr hs.1 hs.2
      rw [heq]
      refine ⟨hb.listens hl, hb.takesKills.trans htakes, hb.waits.trans hwaits, .inr ⟨?_, ?_, ?_⟩⟩
      · rintro ρ' ⟨⟩
        exact hcut
      · exact hhears.deliverKillToApp hl.subscribed _
      · exact ⟨fun _ => rfl, fun _ => hb.buried.mpr hburied⟩
    · have hkill : (n.applyKill (some ρ) t d none g).2 = n := by
        unfold applyKill
        simp only []
        rw [if_neg hcut]
      rw [hkill]
      refine ⟨h, Iff.rfl, Iff.rfl, .inl ⟨?_, he, Iff.rfl⟩⟩
      intro htakes
      exact hcut (htakes ρ rfl)

end Node

/-! ### Runs -/

/-- What can run of the two DELIVERs: one of them comes in, or one that waits at the body runs
on. -/
inductive FanoutAct (t : TopicId) (m : Stamped) (d : Del) (n : Node) : Act → Prop
  | body (up : Option NodeId) (g : Option Gen) : FanoutAct t m d n (.deliver t up g [.body m])
  | kill (up : Option NodeId) (g : Option Gen) : FanoutAct t m d n (.deliver t up g [.del d])
  | resume {k : Nat} {p : Parked} (hp : n.parked.get k = some p)
      (hd : p.delivers t m.msgId = true) : FanoutAct t m d n (.resume k .checked)

/-- Does the act bring the kill? -/
def Act.Kills (t : TopicId) (d : Del) (a : Act) : Prop := ∃ up g, a = .deliver t up g [.del d]

/-- Does the act bring the body? -/
def Act.Brings (t : TopicId) (m : Stamped) (a : Act) : Prop :=
  ∃ up g, a = .deliver t up g [.body m]

/-- What an act on the two DELIVERs makes of the ear, the tombstone and the DELIVERs that wait. -/
inductive FanoutEffect (t : TopicId) (m : Stamped) (d : Del) (ro : Option RoleRef) (n n' : Node)
    (a : Act) (e : Ear) : Ear → Prop
  | suppressed (ha : ¬a.Kills t d) (hb : n.Buried ro m.msgId)
      (hb' : n'.Buried ro m.msgId) (hw : n'.Waits t m.msgId ↔ n.Waits t m.msgId) :
      FanoutEffect t m d ro n n' a e e
  | waits (ha : ¬a.Kills t d) (hb : ¬n.Buried ro m.msgId) (hb' : ¬n'.Buried ro m.msgId)
      (hw : n'.Waits t m.msgId) : FanoutEffect t m d ro n n' a e e
  | told (ha : ¬a.Kills t d) (hb : n'.Buried ro m.msgId ↔ n.Buried ro m.msgId)
      (hfree : ¬n.Buried ro m.msgId ∨ n.Waits t m.msgId)
      (hw : n'.Waits t m.msgId → n.Waits t m.msgId) : FanoutEffect t m d ro n n' a e e.tell
  | refused (ha : a.Kills t d) (hno : ¬n.TakesKills ro)
      (hb : n'.Buried ro m.msgId ↔ n.Buried ro m.msgId)
      (hw : n'.Waits t m.msgId ↔ n.Waits t m.msgId) : FanoutEffect t m d ro n n' a e e
  | buried (ha : a.Kills t d) (htakes : n.TakesKills ro)
      (hb : n'.Buried ro m.msgId ↔ ro.isSome = true)
      (hw : n'.Waits t m.msgId ↔ n.Waits t m.msgId) : FanoutEffect t m d ro n n' a e e.kill

variable {m : Stamped} {d : Del} {ro : Option RoleRef}

theorem not_kills_body (up : Option NodeId) (g : Option Gen) :
    ¬Act.Kills t d (.deliver t up g [.body m]) := by
  rintro ⟨up', g', h⟩
  cases h

theorem FanoutAct.step {a : World × Act} {e : Ear} (hid : d.msgId = m.msgId)
    (hauth : standsAgainst d.signer m.json = true) (h : n.Listens t m ro)
    (he : n.Hears t m.msgId e) (ha : FanoutAct t m d n a.2) :
    (n.step cfg a).Listens t m ro ∧ ((n.step cfg a).TakesKills ro ↔ n.TakesKills ro)
      ∧ ∃ e', (n.step cfg a).Hears t m.msgId e'
        ∧ FanoutEffect t m d ro n (n.step cfg a) a.2 e e' := by
  obtain ⟨w, a⟩ := a
  -- the handler starts in the new world, attached where the DELIVER says
  have hstart (up : Option NodeId) : ∃ us, n.Beside { n with world := w, upstream := us }
      ∧ ∀ g items, n.step cfg (w, .deliver t up g items)
        = Node.deliverItems cfg { n with world := w, upstream := us } t ro g items := by
    rw [← h.role]
    cases up with
    | none => exact ⟨n.upstream, Node.beside_of_world .., fun g items => rfl⟩
    | some up => exact ⟨n.upstream.set t up, Node.beside_of_world .., fun g items => rfl⟩
  cases ha with
  | body up g =>
    obtain ⟨us, hb, hstep⟩ := hstart up
    rw [hstep]
    obtain ⟨⟨hl, hbur, htakes⟩, hcase⟩ :=
      @Node.deliverItems_body cfg _ t m ro (hb.listens h) e (he.congr rfl rfl) g
    refine ⟨hl, htakes.trans hb.takesKills, ?_⟩
    rcases hcase with ⟨hbn, hear, hw⟩ | ⟨hbn, hear, hw⟩ | ⟨hbn, hear, hw⟩
    · exact ⟨e, hear, .suppressed (not_kills_body up g) (hb.buried.mp hbn) (hbur.mpr hbn)
        (hw.trans hb.waits)⟩
    · exact ⟨e, hear, .waits (not_kills_body up g) (mt hb.buried.mpr hbn) (mt hbur.mp hbn) hw⟩
    · exact ⟨e.tell, hear, .told (not_kills_body up g) (hbur.trans hb.buried)
        (.inl (mt hb.buried.mpr hbn)) (hw.trans hb.waits).mp⟩
  | kill up g =>
    obtain ⟨us, hb, hstep⟩ := hstart up
    rw [hstep]
    obtain ⟨hl, htakes, hw, hcase⟩ :=
      @Node.deliverItems_kill cfg _ t m ro d g hid hauth (hb.listens h) e (he.congr rfl rfl)
    refine ⟨hl, htakes.trans hb.takesKills, ?_⟩
    rcases hcase with ⟨hno, hear, hbur⟩ | ⟨hyes, hear, hbur⟩
    · exact ⟨e, hear, .refused ⟨up, g, rfl⟩ (mt hb.takesKills.mpr hno) (hbur.trans hb.buried)
        (hw.trans hb.waits)⟩
    · exact ⟨e.kill, hear, .buried ⟨up, g, rfl⟩ (hb.takesKills.mp hyes) hbur (hw.trans hb.waits)⟩
  | @resume k p hp hd =>
    obtain ⟨ρ, g, rfl, rfl⟩ := h.waiting k p hp hd
    have hb : n.Beside { n with world := w } := Node.beside_of_world ..
    have hstep : n.step cfg (w, .resume k .checked)
        = { n with world := w, parked := n.parked.delete k }.resumeDeliver cfg t ρ g m [] := by
      show Node.resume cfg { n with world := w } k .checked = _
      unfold Node.resume
      rw [hp]
      rfl
    obtain ⟨⟨hl, hbur, htakes⟩, hear, hw⟩ :=
      @Node.resumeDeliver_body cfg { n with world := w } _ t m k ρ g e (hb.listens h)
        (he.congr rfl rfl) hstep
    refine ⟨hl, htakes.trans hb.takesKills, e.tell, hear, .told ?_ (hbur.trans hb.buried)
      (.inr (Node.waits_iff.mpr ⟨k, _, hp, hd⟩)) fun h => hb.waits.mp (hw h)⟩
    rintro ⟨up, g, h⟩
    cases h

/-- No kill was taken: the app was told nothing or the body. -/
def Node.Unretracted (n : Node) (t : TopicId) (m : Stamped) (ro : Option RoleRef) : Prop :=
  n.Listens t m ro ∧ ¬n.Buried ro m.msgId
    ∧ (n.Hears t m.msgId .quiet ∨ n.Hears t m.msgId .told)

/-- The body came in: the app was told of it, or a DELIVER waits at it. -/
def Node.Reached (n : Node) (t : TopicId) (id : MsgId) : Prop := n.Hears t id .told ∨ n.Waits t id

section Run

variable (hid : d.msgId = m.msgId) (hauth : standsAgainst d.signer m.json = true)

include hid hauth

/-- As long as every kill is refused, the app is told nothing but the body. -/
theorem Node.Unretracted.step {a : World × Act} (h : n.Unretracted t m ro)
    (ha : FanoutAct t m d n a.2 ∧ (a.2.Kills t d → ¬n.TakesKills ro)) :
    (n.step cfg a).Unretracted t m ro
      ∧ (n.Reached t m.msgId ∨ a.2.Brings t m → (n.step cfg a).Reached t m.msgId) := by
  obtain ⟨hl, hbur, hear⟩ := h
  obtain ⟨ha, hrefused⟩ := ha
  have hno (hk : a.2.Kills t d) : ¬a.2.Brings t m := by
    rintro ⟨up', g', h'⟩
    obtain ⟨up, g, h⟩ := hk
    rw [h] at h'
    cases h'
  -- with the ear before the step, what the act makes of it
  have hstep {e : Ear} (he : n.Hears t m.msgId e) (hqt : e = .quiet ∨ e = .told) :
      (n.step cfg a).Unretracted t m ro ∧ ((e = .told ∨ n.Waits t m.msgId) ∨ a.2.Brings t m
          → (n.step cfg a).Reached t m.msgId) := by
    obtain ⟨hl', -, e', he', heff⟩ := @FanoutAct.step cfg n t m d ro a e hid hauth hl he ha
    cases heff with
    | suppressed _ hb => exact absurd hb hbur
    | waits _ _ hb' hw =>
      refine ⟨⟨hl', hb', ?_⟩, fun _ => .inr hw⟩
      rcases hqt with rfl | rfl
      · exact .inl he'
      · exact .inr he'
    | told _ hb =>
      have htold : (n.step cfg a).Hears t m.msgId .told := by
        rcases hqt with rfl | rfl <;> exact he'
      exact ⟨⟨hl', mt hb.mp hbur, .inr htold⟩, fun _ => .inl htold⟩
    | refused hk _ hb hw =>
      refine ⟨⟨hl', mt hb.mp hbur, ?_⟩, ?_⟩
      · rcases hqt with rfl | rfl
        · exact .inl he'
        · exact .inr he'
      · rintro ((rfl | hwait) | hbrings)
        · exact .inl he'
        · exact .inr (hw.mpr hwait)
        · exact absurd hbrings (hno hk)
    | buried hk htakes => exact absurd htakes (hrefused hk)
  rcases hear with hq | ht
  · obtain ⟨hun, hreach⟩ := hstep hq (.inl rfl)
    refine ⟨hun, ?_⟩
    rintro ((htold | hwait) | hbrings)
    · -- a quiet ear was told nothing
      exfalso
      have h₁ := htold.2.2
      rw [hq.2.2] at h₁
      cases h₁
    · exact hreach (.inl (.inr hwait))
    · exact hreach (.inr hbrings)
  · obtain ⟨hun, hreach⟩ := hstep ht (.inr rfl)
    refine ⟨hun, ?_⟩
    rintro (- | hbrings)
    · exact hreach (.inl (.inl rfl))
    · exact hreach (.inr hbrings)

/-- A kill that is taken. -/
theorem Node.Listens.killed {e : Ear} (hl : n.Listens t m ro) (he : n.Hears t m.msgId e)
    (htakes : n.TakesKills ro) (w : World) (up : Option NodeId) (g : Option Gen) :
    (n.step cfg (w, .deliver t up g [.del d])).Listens t m ro
      ∧ (n.step cfg (w, .deliver t up g [.del d])).Hears t m.msgId e.kill
      ∧ ((n.step cfg (w, .deliver t up g [.del d])).Buried ro m.msgId ↔ ro.isSome = true)
      ∧ ((n.step cfg (w, .deliver t up g [.del d])).Waits t m.msgId ↔ n.Waits t m.msgId) := by
  have hk : Act.Kills t d (.deliver t up g [.del d]) := ⟨up, g, rfl⟩
  obtain ⟨hl', -, e', he', heff⟩ :=
    @FanoutAct.step cfg n t m d ro (w, .deliver t up g [.del d]) e hid hauth hl he (.kill up g)
  cases heff with
  | suppressed hno | waits hno | told hno => exact absurd hk hno
  | refused _ hno => exact absurd htakes hno
  | buried _ _ hb hw => exact ⟨hl', he', hb, hw⟩

variable {a : World × Act}

/-- A body that was told and retracted stays so. -/
theorem retracted_step (h : n.Listens t m ro ∧ n.Hears t m.msgId .retracted) (ha : FanoutAct t m d n a.2) :
    (n.step cfg a).Listens t m ro ∧ (n.step cfg a).Hears t m.msgId .retracted := by
  obtain ⟨hl', -, e', he', heff⟩ := @FanoutAct.step cfg n t m d ro a _ hid hauth h.1 h.2 ha
  refine ⟨hl', ?_⟩
  cases heff <;> exact he'

/-- Without a role nothing stands against a body whose kill was missed. -/
theorem missed_step (h : n.Listens t m none ∧ (n.Hears t m.msgId .missed ∨ n.Hears t m.msgId .revived))
    (ha : FanoutAct t m d n a.2) : ((n.step cfg a).Listens t m none
      ∧ ((n.step cfg a).Hears t m.msgId .missed ∨ (n.step cfg a).Hears t m.msgId .revived))
    ∧ (n.Hears t m.msgId .revived ∨ a.2.Brings t m → (n.step cfg a).Hears t m.msgId .revived) := by
  obtain ⟨hl, hear⟩ := h
  have hno (k : Node) : ¬k.Buried none m.msgId := by
    rintro ⟨ρ, hρ, -⟩
    cases hρ
  have hkills (hk : a.2.Kills t d) : ¬a.2.Brings t m := by
    rintro ⟨up', g', h'⟩
    obtain ⟨up, g, h⟩ := hk
    rw [h] at h'
    cases h'
  rcases hear with hm | hr
  · obtain ⟨hl', -, e', he', heff⟩ := @FanoutAct.step cfg n t m d none a _ hid hauth hl hm ha
    have hnotr : ¬n.Hears t m.msgId .revived := by
      intro hr
      have h₁ := hr.2
      rw [hm.2.2] at h₁
      cases h₁
    cases heff with
    | suppressed _ hb => exact absurd hb (hno n)
    | waits _ _ _ hw =>
      obtain ⟨k, p, hp, hd⟩ := Node.waits_iff.mp hw
      obtain ⟨ρ, g, hρ, -⟩ := hl'.waiting k p hp hd
      cases hρ
    | told => exact ⟨⟨hl', .inr he'⟩, fun _ => he'⟩
    | refused hk | buried hk =>
      exact ⟨⟨hl', .inl he'⟩, fun h => h.elim (absurd · hnotr) (absurd · (hkills hk))⟩
  · obtain ⟨hl', -, e', he', heff⟩ := @FanoutAct.step cfg n t m d none a _ hid hauth hl hr ha
    have hrev : (n.step cfg a).Hears t m.msgId .revived := by
      cases heff <;> exact he'
    exact ⟨⟨hl', .inr hrev⟩, fun _ => hrev⟩

/-- Behind a tombstone only a DELIVER that waited before it reaches the app. -/
theorem buried_step (h : n.Listens t m ro ∧ n.Buried ro m.msgId ∧ (n.Hears t m.msgId .revived
      ∨ n.Hears t m.msgId .missed ∧ n.Waits t m.msgId)) (ha : FanoutAct t m d n a.2) :
    (n.step cfg a).Listens t m ro ∧ (n.step cfg a).Buried ro m.msgId
      ∧ ((n.step cfg a).Hears t m.msgId .revived
        ∨ (n.step cfg a).Hears t m.msgId .missed ∧ (n.step cfg a).Waits t m.msgId) := by
  obtain ⟨hl, hbur, hear⟩ := h
  have hsome : ro.isSome = true := by
    obtain ⟨ρ, hρ, -⟩ := hbur
    rw [hρ]
    rfl
  rcases hear with hr | ⟨hm, hwait⟩
  · obtain ⟨hl', -, e', he', heff⟩ := @FanoutAct.step cfg n t m d ro a _ hid hauth hl hr ha
    cases heff with
    | suppressed _ _ hb' => exact ⟨hl', hb', .inl he'⟩
    | waits _ hb => exact absurd hbur hb
    | told _ hb | refused _ _ hb => exact ⟨hl', hb.mpr hbur, .inl he'⟩
    | buried _ _ hb => exact ⟨hl', hb.mpr hsome, .inl he'⟩
  · obtain ⟨hl', -, e', he', heff⟩ := @FanoutAct.step cfg n t m d ro a _ hid hauth hl hm ha
    cases heff with
    | suppressed _ _ hb' hw => exact ⟨hl', hb', .inr ⟨he', hw.mpr hwait⟩⟩
    | waits _ hb => exact absurd hbur hb
    | told _ hb => exact ⟨hl', hb.mpr hbur, .inl he'⟩
    | refused _ _ hb hw => exact ⟨hl', hb.mpr hbur, .inr ⟨he', hw.mpr hwait⟩⟩
    | buried _ _ hb hw => exact ⟨hl', hb.mpr hsome, .inr ⟨he', hw.mpr hwait⟩⟩

/-- Behind a tombstone with no DELIVER waiting the body is not told. -/
theorem suppressed_step (h : n.Listens t m ro ∧ n.Buried ro m.msgId ∧ n.Hears t m.msgId .missed
      ∧ ¬n.Waits t m.msgId) (ha : FanoutAct t m d n a.2) :
    (n.step cfg a).Listens t m ro ∧ (n.step cfg a).Buried ro m.msgId
      ∧ (n.step cfg a).Hears t m.msgId .missed ∧ ¬(n.step cfg a).Waits t m.msgId := by
  obtain ⟨hl, hbur, hm, hwait⟩ := h
  have hsome : ro.isSome = true := by
    obtain ⟨ρ, hρ, -⟩ := hbur
    rw [hρ]
    rfl
  obtain ⟨hl', -, e', he', heff⟩ := @FanoutAct.step cfg n t m d ro a _ hid hauth hl hm ha
  cases heff with
  | suppressed _ _ hb' hw => exact ⟨hl', hb', he', mt hw.mp hwait⟩
  | waits _ hb => exact absurd hbur hb
  | told _ _ hfree =>
    rcases hfree with hb | hw
    · exact absurd hbur hb
    · exact absurd hw hwait
  | refused _ _ hb hw => exact ⟨hl', hb.mpr hbur, he', mt hw.mp hwait⟩
  | buried _ _ hb hw => exact ⟨hl', hb.mpr hsome, he', mt hw.mp hwait⟩

/-! What a run makes of the body, once the kill has come. -/

variable {as : Run} (hrun : EachStep (Node.step cfg) (fun n a => FanoutAct t m d n a.2) n as)

include hrun

/-- Behind a tombstone that a DELIVER of the body waited before, the body is told in the end. -/
theorem revived_run (hl : n.Listens t m ro) (hbur : n.Buried ro m.msgId)
    (hm : n.Hears t m.msgId .missed) (hwait : n.Waits t m.msgId)
    (hdone : ¬(run (Node.step cfg) n as).Waits t m.msgId) :
    (run (Node.step cfg) n as).lastWord t m.msgId = some (.body t m.msgId) := by
  have hfinal := EachStep.invariant
    (I := fun n : Node => n.Listens t m ro ∧ n.Buried ro m.msgId
      ∧ (n.Hears t m.msgId .revived ∨ n.Hears t m.msgId .missed ∧ n.Waits t m.msgId))
    (fun n a h ha => buried_step hid hauth h ha) ⟨hl, hbur, .inr ⟨hm, hwait⟩⟩ hrun
  rcases hfinal.2.2 with hr | hw
  · exact hr.2
  · exact absurd hw.2 hdone

/-- Behind a tombstone with no DELIVER waiting the body is never told. -/
theorem suppressed_run (hl : n.Listens t m ro) (hbur : n.Buried ro m.msgId)
    (hm : n.Hears t m.msgId .missed) (hwait : ¬n.Waits t m.msgId) :
    (run (Node.step cfg) n as).lastWord t m.msgId ≠ some (.body t m.msgId) := by
  have hfinal := EachStep.invariant
    (I := fun n : Node => n.Listens t m ro ∧ n.Buried ro m.msgId
      ∧ n.Hears t m.msgId .missed ∧ ¬n.Waits t m.msgId)
    (fun n a h ha => suppressed_step hid hauth h ha) ⟨hl, hbur, hm, hwait⟩ hrun
  rw [hfinal.2.2.1.2.2]
  rintro ⟨⟩

/-- Without a role a body that comes after its kill is told. -/
theorem missed_run (hl : n.Listens t m none) (hm : n.Hears t m.msgId .missed)
    (hlate : ∃ a ∈ as, a.2.Brings t m) :
    (run (Node.step cfg) n as).lastWord t m.msgId = some (.body t m.msgId) := by
  have hfinal := EachStep.reaches
    (I := fun n : Node => n.Listens t m none
      ∧ (n.Hears t m.msgId .missed ∨ n.Hears t m.msgId .revived))
    (S := fun n : Node => n.Hears t m.msgId .revived) (B := fun a => a.2.Brings t m)
    (fun n a h ha => (missed_step hid hauth h ha).1)
    (fun n a h ha hs => (missed_step hid hauth h ha).2 (.inl hs))
    (fun n a h ha hb => (missed_step hid hauth h ha).2 (.inr hb)) ⟨hl, .inl hm⟩ hrun hlate
  exact hfinal.2

/-- A body that was told and retracted stays retracted. -/
theorem retracted_run (hl : n.Listens t m ro) (hr : n.Hears t m.msgId .retracted) :
    (run (Node.step cfg) n as).lastWord t m.msgId ≠ some (.body t m.msgId) := by
  have hfinal := EachStep.invariant
    (I := fun n : Node => n.Listens t m ro ∧ n.Hears t m.msgId .retracted)
    (fun n a h ha => retracted_step hid hauth h ha) ⟨hl, hr⟩ hrun
  rw [hfinal.2.2]
  rintro ⟨⟩

/-- Where every kill is refused, a body that comes in is told in the end. -/
theorem refused_run (hun : n.Unretracted t m ro) (hno : ¬n.TakesKills ro)
    (hbody : n.Reached t m.msgId ∨ ∃ a ∈ as, a.2.Brings t m)
    (hdone : ¬(run (Node.step cfg) n as).Waits t m.msgId) :
    (run (Node.step cfg) n as).lastWord t m.msgId = some (.body t m.msgId) := by
  have hstep (n : Node) (a : World × Act) (h : n.Unretracted t m ro ∧ ¬n.TakesKills ro)
      (ha : FanoutAct t m d n a.2) : ((n.step cfg a).Unretracted t m ro
        ∧ ¬(n.step cfg a).TakesKills ro)
      ∧ (n.Reached t m.msgId ∨ a.2.Brings t m → (n.step cfg a).Reached t m.msgId) := by
    obtain ⟨hun', hreach⟩ := @Node.Unretracted.step cfg n t m d ro hid hauth a h.1
      ⟨ha, fun _ => h.2⟩
    refine ⟨⟨hun', ?_⟩, hreach⟩
    rcases h.1.2.2 with he | he
    · exact mt (FanoutAct.step hid hauth h.1.1 he ha).2.1.mp h.2
    · exact mt (FanoutAct.step hid hauth h.1.1 he ha).2.1.mp h.2
  have hfinal : (run (Node.step cfg) n as).Reached t m.msgId := by
    rcases hbody with hreached | hb
    · have hkept := EachStep.invariant
        (I := fun n => (n.Unretracted t m ro ∧ ¬n.TakesKills ro) ∧ n.Reached t m.msgId)
        (fun n a h ha => ⟨(hstep n a h.1 ha).1, (hstep n a h.1 ha).2 (.inl h.2)⟩)
        ⟨⟨hun, hno⟩, hreached⟩ hrun
      exact hkept.2
    · exact EachStep.reaches (I := fun n => n.Unretracted t m ro ∧ ¬n.TakesKills ro)
        (S := fun n => n.Reached t m.msgId) (B := fun a => a.2.Brings t m)
        (fun n a h ha => (hstep n a h ha).1) (fun n a h ha hs => (hstep n a h ha).2 (.inl hs))
        (fun n a h ha hb => (hstep n a h ha).2 (.inr hb)) ⟨hun, hno⟩ hrun hb
  rcases hfinal with htold | hw
  · exact htold.2.2
  · exact absurd hw hdone

end Run

/-- The node has neither heard of the message nor a DELIVER of it that waits. -/
def Node.Unheard (n : Node) (t : TopicId) (id : MsgId) : Prop :=
  Node.bodyKey t id ∉ n.appDelivered.keys ∧ Node.killKey t id ∉ n.appDelivered.keys
    ∧ n.lastWord t id = none ∧ (∀ ρ ∈ n.roleAt t, (n.role ρ).tombstones.get id = none)
    ∧ ¬n.Waits t id

/-- The role for the topic, if there is one, takes the kill; and the app was given the body, or
there is a role and no DELIVER of the body waits. -/
def Node.Retractable (n : Node) (t : TopicId) (id : MsgId) : Prop :=
  n.TakesKills (n.roleAt t) ∧ (Node.bodyKey t id ∈ n.appDelivered.keys
    ∨ ((n.roleAt t).isSome = true ∧ ¬n.Waits t id))

instance (n : Node) (t : TopicId) (id : MsgId) : Decidable (n.Waits t id) := by
  unfold Node.Waits
  infer_instance

instance (n : Node) (t : TopicId) (id : MsgId) : Decidable (n.Unheard t id) := by
  unfold Node.Unheard
  infer_instance

instance (n : Node) (t : TopicId) (id : MsgId) : Decidable (n.Retractable t id) := by
  unfold Node.Retractable Node.TakesKills
  infer_instance

/-- **A body and its kill.** A subscribed node that has not heard of the message gets its body and
its authorised kill, each as often as may be, and runs every DELIVER that waits to its end. The last
the app hears is not the body if and only if, when the first kill came, the role took it and either
the app had the body or a role and no DELIVER of the body waited. -/
theorem kill_commutes (n₀ : Node) (t : TopicId) (m : Stamped) (d : Del) (before after : Run)
    (wk : World) (up : Option NodeId) (g : Option Gen) (hid : d.msgId = m.msgId)
    (hauth : standsAgainst d.signer m.json = true) (hsub : t ∈ n₀.mySubscriptions)
    (hnew : n₀.Unheard t m.msgId)
    (hbefore : EachStep (Node.step cfg) (fun n a => FanoutAct t m d n a.2 ∧ ¬a.2.Kills t d) n₀
      before)
    (hafter : EachStep (Node.step cfg) (fun n a => FanoutAct t m d n a.2)
      ((run (Node.step cfg) n₀ before).step cfg (wk, .deliver t up g [.del d])) after)
    (hbody : ∃ a ∈ before ++ after, a.2.Brings t m)
    (hdone : ¬(run (Node.step cfg) n₀ (before ++ (wk, .deliver t up g [.del d]) :: after)).Waits t
      m.msgId) :
    (run (Node.step cfg) n₀ (before ++ (wk, .deliver t up g [.del d]) :: after)).lastWord t m.msgId
        ≠ some (.body t m.msgId)
      ↔ (run (Node.step cfg) n₀ before).Retractable t m.msgId := by
  set n₁ := run (Node.step cfg) n₀ before with hn₁
  have hend : run (Node.step cfg) n₀ (before ++ (wk, .deliver t up g [.del d]) :: after)
      = run (Node.step cfg) n₁ ((wk, .deliver t up g [.del d]) :: after) := by
    rw [run_append]
  rw [hend] at hdone ⊢
  obtain ⟨hbody₀, hkill₀, hlast₀, htomb₀, hwait₀⟩ := hnew
  -- up to the first kill
  have hstart : n₀.Unretracted t m (n₀.roleAt t) := by
    refine ⟨⟨hsub, rfl, ?_, ?_⟩, ?_, .inl ⟨hbody₀, hkill₀, hlast₀⟩⟩
    · intro ρ hρ tomb ht
      rw [htomb₀ ρ hρ] at ht
      cases ht
    · intro k p hp hd
      exact absurd (Node.waits_iff.mpr ⟨k, p, hp, hd⟩) hwait₀
    · rintro ⟨ρ, hρ, hsome⟩
      rw [htomb₀ ρ hρ] at hsome
      cases hsome
  generalize n₀.roleAt t = ro at hstart
  have hun : n₁.Unretracted t m ro := EachStep.invariant (I := fun n => n.Unretracted t m ro)
    (fun n a h ha => (h.step hid hauth ⟨ha.1, fun hk => absurd hk ha.2⟩).1) hstart hbefore
  have hreached (hb : ∃ a ∈ before, a.2.Brings t m) : n₁.Reached t m.msgId :=
    EachStep.reaches (I := fun n => n.Unretracted t m ro) (S := fun n => n.Reached t m.msgId)
      (B := fun a => a.2.Brings t m)
      (fun n a h ha => (h.step hid hauth ⟨ha.1, fun hk => absurd hk ha.2⟩).1)
      (fun n a h ha hs => (h.step hid hauth ⟨ha.1, fun hk => absurd hk ha.2⟩).2 (.inl hs))
      (fun n a h ha hb => (h.step hid hauth ⟨ha.1, fun hk => absurd hk ha.2⟩).2 (.inr hb))
      hstart hbefore hb
  have hl := hun.1
  unfold Node.Retractable
  rw [hl.role]
  have hcame : n₁.Reached t m.msgId ∨ ∃ a ∈ after, a.2.Brings t m := by
    obtain ⟨b, hb, hbrings⟩ := hbody
    rcases List.mem_append.mp hb with hb | hb
    · exact .inl (hreached ⟨b, hb, hbrings⟩)
    · exact .inr ⟨b, hb, hbrings⟩
  by_cases htakes : n₁.TakesKills ro
  · rw [run_cons] at hdone ⊢
    rw [and_iff_right htakes]
    rcases hun.2.2 with hq | ht
    · -- the kill is the first the node hears of the message
      obtain ⟨hl₂, hm₂, hbur₂, hw₂⟩ := hl.killed hid hauth hq htakes wk up g
      have hfirst : ¬Node.bodyKey t m.msgId ∈ n₁.appDelivered.keys := hq.1
      rw [or_iff_right hfirst]
      cases ro with
      | none =>
        -- no role: the body is still to come, and nothing stands against it
        have hlate : ∃ a ∈ after, a.2.Brings t m := by
          rcases hcame with (htold | hwait) | hlate
          · exact absurd (htold.2.2.symm.trans hq.2.2) (by rintro ⟨⟩)
          · obtain ⟨k, p, hp, hd⟩ := Node.waits_iff.mp hwait
            obtain ⟨ρ, g', hρ, -⟩ := hl.waiting k p hp hd
            cases hρ
          · exact hlate
        have hword := missed_run hid hauth hafter hl₂ hm₂ hlate
        exact iff_of_false (fun hne => hne hword) fun h => Bool.false_ne_true h.1
      | some ρ =>
        have hbur := hbur₂.mpr rfl
        by_cases hwait : n₁.Waits t m.msgId
        · have hword := revived_run hid hauth hafter hl₂ hbur hm₂ (hw₂.mpr hwait) hdone
          exact iff_of_false (fun hne => hne hword) fun h => h.2 hwait
        · have hword := suppressed_run hid hauth hafter hl₂ hbur hm₂ (mt hw₂.mp hwait)
          exact iff_of_true hword ⟨rfl, hwait⟩
    · -- the app had the body
      obtain ⟨hl₂, hr₂, -, -⟩ := hl.killed hid hauth ht htakes wk up g
      obtain ⟨ks, hks⟩ := ht.1
      refine iff_of_true (retracted_run hid hauth hafter hl₂ hr₂) (.inl ?_)
      rw [hks]
      exact List.mem_append_right ks (List.mem_singleton_self _)
  · -- every kill is refused
    have hrest : EachStep (Node.step cfg) (fun n a => FanoutAct t m d n a.2) n₁
        ((wk, .deliver t up g [.del d]) :: after) := ⟨.kill up g, hafter⟩
    have hword := refused_run hid hauth hrest hun htakes
      (hcame.imp_right fun ⟨b, hb, hbrings⟩ => ⟨b, List.mem_cons_of_mem _ hb, hbrings⟩) hdone
    exact iff_of_false (fun hne => hne hword) fun h => htakes h.1

/-- A node that is subscribed to the sample topic and has no role for it. -/
def readerNode : Node :=
  (Node.boot (sampleWorld 0)).step sampleConfig (sampleWorld 1000, .subscribe sampleTopicId 0 false)

/-- A signed body as it is fanned out. -/
def signedStamped : Stamped := ⟨(sampleDel 3 950 2).msgId, 900, sampleSigned 3 890, some 1⟩

/-- The body comes up. -/
def bodyComes (now : Int) : World × Act :=
  (sampleWorld now, .deliver sampleTopicId none none [.body signedStamped])

/-- Its author's kill comes up. -/
def killComes (now : Int) : World × Act :=
  (sampleWorld now, .deliver sampleTopicId none none [.del (sampleDel 3 950 2)])

theorem kill_commutes_reader :
    (run (Node.step sampleConfig) readerNode [bodyComes 1001]).Retractable sampleTopicId
        signedStamped.msgId
      ∧ ((run (Node.step sampleConfig) readerNode
            ([bodyComes 1001] ++ killComes 1002 :: [bodyComes 1003])).lastWord sampleTopicId
              signedStamped.msgId ≠ some (.body sampleTopicId signedStamped.msgId)
          ↔ (run (Node.step sampleConfig) readerNode [bodyComes 1001]).Retractable sampleTopicId
            signedStamped.msgId) := by
  refine ⟨by decide +kernel, ?_⟩
  refine kill_commutes readerNode sampleTopicId signedStamped (sampleDel 3 950 2) [bodyComes 1001]
    [bodyComes 1003] (sampleWorld 1002) none none rfl (by decide) (by decide +kernel)
    (by decide +kernel) ⟨⟨.body none none, not_kills_body none none⟩, trivial⟩
    ⟨.body none none, trivial⟩ ⟨bodyComes 1001, by simp, none, none, rfl⟩ (by decide +kernel)

/-- A subscriber without a role hears the kill first. -/
theorem told_after_kill :
    ¬∀ (n₀ : Node) (t : TopicId) (m : Stamped) (d : Del) (before after : Run) (wk : World)
      (up : Option NodeId) (g : Option Gen), d.msgId = m.msgId →
      standsAgainst d.signer m.json = true → t ∈ n₀.mySubscriptions → n₀.Unheard t m.msgId →
      EachStep (Node.step sampleConfig) (fun n a => FanoutAct t m d n a.2 ∧ ¬a.2.Kills t d) n₀
        before →
      EachStep (Node.step sampleConfig) (fun n a => FanoutAct t m d n a.2)
        ((run (Node.step sampleConfig) n₀ before).step sampleConfig
          (wk, .deliver t up g [.del d])) after →
      (∃ a ∈ before ++ after, a.2.Brings t m) →
      ¬(run (Node.step sampleConfig) n₀
        (before ++ (wk, .deliver t up g [.del d]) :: after)).Waits t m.msgId →
      (run (Node.step sampleConfig) n₀
        (before ++ (wk, .deliver t up g [.del d]) :: after)).lastWord t m.msgId
          ≠ some (.body t m.msgId) := by
  intro h
  refine h readerNode sampleTopicId signedStamped (sampleDel 3 950 2) [] [bodyComes 1003]
    (sampleWorld 1002) none none rfl (by decide) (by decide +kernel) (by decide +kernel) trivial
    ⟨.body none none, trivial⟩ ⟨bodyComes 1003, by simp, none, none, rfl⟩ (by decide +kernel) ?_
  decide +kernel

end Axona
