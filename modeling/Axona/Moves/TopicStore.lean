import Axona.Moves.RootClaim

/-! # The topic store, in moves

What a role forgets, what a push leaves in it, and how a deletion comes in. -/

namespace Axona

open Library OrderedMap

namespace Role

/-! ### What a role forgets -/

variable {C : MsgId → Tombstone → Option Tombstone → Prop}

theorem Shrink.refl (r : Role) : r.Shrink C r :=
  ⟨rfl, List.Sublist.refl _, fun _ he _ => he, id, id, id, fun _ => .inl rfl⟩

variable {r : Role}

/-- What is lost after the tombstones stayed as they are may change them. -/
theorem Shrink.trans {r' r'' : Role} (h : r.Shrink (fun _ _ _ => False) r') (h' : r'.Shrink C r'') :
    r.Shrink C r'' where
  rest := by rw [← h.rest, ← h'.rest]
  cache := h'.cache.trans h.cache
  pinned e he hp := by
    have hpins : r'.merge.pins = r.merge.pins := congrArg RoleCore.pins h.rest
    refine h'.pinned e (h.pinned e he hp) ?_
    rwa [Role.pinned, hpins]
  indexed hi := h'.indexed (h.indexed hi)
  counted hc := h'.counted (h.counted hc)
  tidy ht := h'.tidy (h.tidy ht)
  tombstones id := by
    have hsame : r'.tombstones.get id = r.tombstones.get id := by
      rcases h.tombstones id with hsame | ⟨-, -, hfalse⟩
      · exact hsame
      · exact hfalse.elim
    rw [← hsame]
    exact h'.tombstones id

variable {id : MsgId}

/-- A tombstone that is still there keeps what every change keeps. -/
theorem Shrink.kept {r' : Role} (h : r.Shrink C r') {R : Tombstone → Tombstone → Prop}
    (hR : ∀ t, R t t) (hC : ∀ id t t', C id t (some t') → R t t') {t' : Tombstone}
    (ht' : r'.tombstones.get id = some t') : ∃ t, r.tombstones.get id = some t ∧ R t t' := by
  rcases h.tombstones id with hsame | ⟨t, ht, hc⟩
  · exact ⟨t', by rw [← hsame, ht'], hR t'⟩
  · rw [ht'] at hc
    exact ⟨t, ht, hC id t t' hc⟩

/-- Taking unpinned entries out of the cache keeps index and byte count right. -/
theorem forget_shrink {gone rest : List Entry} (hsub : rest.Sublist r.cache)
    (hperm : (gone ++ rest).Perm r.cache) (hfree : ∀ e ∈ gone, r.pinned e.msgId = false) :
    r.Shrink C (r.forget gone rest) where
  rest := rfl
  cache := hsub
  pinned e he hp := by
    rcases List.mem_append.mp (hperm.mem_iff.mpr he) with h | h
    · rw [hfree e h] at hp
      cases hp
    · exact h
  indexed hi id hid := by
    obtain ⟨hid, hgone⟩ := Finset.mem_sdiff.mp hid
    obtain ⟨e, he, rfl⟩ := hi id hid
    rcases List.mem_append.mp (hperm.mem_iff.mpr he) with h | h
    · exact absurd (by simpa using ⟨e, h, rfl⟩) hgone
    · exact ⟨e, h, rfl⟩
  counted hc := by
    have hsum : (r.cache.map (·.bytes)).sum = (gone.map (·.bytes)).sum +
      (rest.map (·.bytes)).sum := by
      rw [← List.sum_append, ← List.map_append]
      exact ((hperm.map _).sum_eq).symm
    change r.cacheBytes - ((gone.map (·.bytes)).sum : Nat) = ((rest.map (·.bytes)).sum : Nat)
    rw [hc, hsum]
    push_cast
    omega
  tidy ht := by
    have hids : ((gone ++ rest).map (·.msgId)).Nodup := (hperm.map _).nodup_iff.mpr ht.nodup
    rw [List.map_append, List.nodup_append] at hids
    obtain ⟨-, hnodup, hdisj⟩ := hids
    refine ⟨hnodup, ?_⟩
    ext id
    have hmem : id ∈ r.cache.map (·.msgId) ↔ id ∈ (gone ++ rest).map (·.msgId) :=
      (hperm.map _).mem_iff.symm
    change id ∈ r.cacheIds \ (gone.map (·.msgId)).toFinset ↔ id ∈ (rest.map (·.msgId)).toFinset
    rw [ht.ids, Finset.mem_sdiff, List.mem_toFinset, List.mem_toFinset, List.mem_toFinset, hmem,
      List.map_append, List.mem_append]
    constructor
    · rintro ⟨h | h, hgone⟩
      · exact absurd h hgone
      · exact h
    · exact fun h => ⟨.inr h, fun hgone => hdisj id hgone id h rfl⟩
  tombstones _ := .inl rfl

/-- A list is what fails a test, in front of what passes it, up to the order. -/
theorem filter_perm (p : Entry → Bool) (es : List Entry) :
    (es.filter (fun e => !p e) ++ es.filter p).Perm es :=
  List.perm_append_comm.trans (List.filter_append_perm p es)

/-- Of a stretch of the cache the unpinned entries go. -/
theorem forget_unpinned {old rest : List Entry} (h : r.cache = old ++ rest) :
    r.Shrink C (r.forget (old.filter fun e => !r.pinned e.msgId)
      (old.filter (fun e => r.pinned e.msgId) ++ rest)) := by
  refine forget_shrink ?_ ?_ ?_
  · rw [h]
    exact List.Sublist.append List.filter_sublist (List.Sublist.refl rest)
  · rw [h, ← List.append_assoc]
    exact (filter_perm _ old).append_right rest
  · intro e he
    simpa using (List.mem_filter.mp he).2

theorem expireCache_shrink (r : Role) (now : Int) : r.Shrink C (r.expireCache now) :=
  forget_unpinned (by simp)

/-- Only the tombstones change. -/
theorem tombstones_shrink {m : OrderedMap MsgId Tombstone}
    (h : ∀ id, m.get id = r.tombstones.get id ∨ ∃ t, r.tombstones.get id = some t ∧ C id t
      (m.get id)) :
    r.Shrink C { r with tombstones := m } :=
  ⟨rfl, List.Sublist.refl _, fun _ he _ => he, fun hi => hi, fun hc => hc,
    fun ht => ⟨ht.nodup, ht.ids⟩, h⟩

theorem expireTombstones_shrink {now : Int} (hC : ∀ id t, t.exp ≤ now → C id t none) :
    r.Shrink C (r.expireTombstones now) := by
  refine tombstones_shrink fun id => ?_
  rw [get_filter]
  cases ht : r.tombstones.get id with
  | none => exact .inl rfl
  | some t =>
    by_cases hexp : t.exp ≤ now
    · by_cases hp : r.pinned id = true
      · exact .inl (by simp [hp])
      refine .inr ⟨t, rfl, ?_⟩
      have hgone : (some t).filter (fun t => !(t.exp ≤ now && !r.pinned id)) = none := by
        simp [hexp, hp]
      rw [hgone]
      exact hC id t hexp
    · exact .inl (by simp [hexp])

variable {json : Json}

/-- The tombstone that a body is checked against goes when it does not stand against the body. -/
theorem tombstoned_shrink (hC : ∀ t, standsAgainst t.signer json = false → C id t none) :
    r.Shrink C (r.tombstoned id json).2 := by
  unfold tombstoned
  split
  · exact .refl r
  next t ht =>
  split
  · exact .refl r
  · exact .refl r
  next s hne hs =>
  split
  · exact .refl r
  next hauthor =>
  refine tombstones_shrink fun id' => ?_
  rw [get_delete]
  split
  · next h =>
    subst h
    refine .inr ⟨t, ht, hC t ?_⟩
    unfold standsAgainst
    rw [hs]
    cases s with
    | nil => exact (hne rfl).elim
    | cons c cs => simpa using hauthor
  · exact .inl rfl

/-- A body that passes the check meets no tombstone any more. -/
theorem tombstoned_false {r' : Role} (h : r.tombstoned id json = (false, r')) :
    r'.tombstones.get id = none := by
  unfold tombstoned at h
  split at h
  · next hnone =>
    cases h
    exact hnone
  split at h
  · cases h
  · cases h
  split at h
  · cases h
  · cases h
    rw [get_delete, if_pos rfl]

theorem tombstoned_cacheIds (r : Role) (id : MsgId) (json : Json) :
    (r.tombstoned id json).2.cacheIds = r.cacheIds := by
  unfold tombstoned
  split
  · rfl
  split
  · rfl
  · rfl
  · split <;> rfl

/-- A body that passes the check and is not in the index is fresh. -/
theorem fresh_of_tombstoned {r' : Role} (h : r.tombstoned id json = (false, r'))
    (hid : id ∉ r.cacheIds) : r'.Fresh id json := by
  have hids := tombstoned_cacheIds r id json
  rw [h] at hids
  refine ⟨by rwa [hids], fun t ht => ?_⟩
  rw [tombstoned_false h] at ht
  cases ht

theorem ownTombstone_shrink {g : Gen} (hC : ∀ t owners, C id t (some { t with owners })) :
    r.Shrink C (r.ownTombstone id g) := by
  unfold ownTombstone
  split
  · exact .refl r
  next t ht =>
  refine tombstones_shrink fun id' => ?_
  rw [get_set]
  split
  · next h =>
    subst h
    exact .inr ⟨t, ht, hC t _⟩
  · exact .inl rfl

/-- What the end of an obligation makes of each tombstone. -/
theorem dropOwned_get (r : Role) (owner : Option Gen) (id : MsgId) :
    (r.dropOwned owner).tombstones.get id = (r.tombstones.get id).bind (disowned owner) := by
  rw [← get_foldl_alter r.tombstones (disowned owner) id]
  unfold dropOwned
  simp only []
  congr 2
  funext m e
  cases disowned owner e.2 <;> rfl

theorem dropOwned_shrink (r : Role) (owner : Option Gen) :
    r.Shrink (fun _ t t' => t' = disowned owner t) (r.dropOwned owner) := by
  refine tombstones_shrink fun id => ?_
  have hget := dropOwned_get r owner id
  cases ht : r.tombstones.get id with
  | none =>
    rw [ht] at hget
    exact .inl hget
  | some t =>
    rw [ht] at hget
    exact .inr ⟨t, rfl, hget⟩

/-- An obligation that ends leaves all but the owners of a tombstone alone. -/
theorem disowned_some {owner : Option Gen} {t t' : Tombstone} (h : disowned owner t = some t') :
    t.Same t' := by
  unfold disowned at h
  split at h
  · split_ifs at h
    cases h
    exact ⟨rfl, rfl, rfl⟩
  · simp only [] at h
    split_ifs at h <;> cases h <;> exact ⟨rfl, rfl, rfl⟩

/-! ### What a push leaves in a role -/

/-- The role that `evict` and `trimToLatest` leave is one that only lost entries. -/
theorem evict_shrink (cacheMax cacheBytes guard : Nat) (r : Role) :
    r.Shrink C (r.evict cacheMax cacheBytes guard) := by
  induction guard generalizing r with
  | zero => exact .refl r
  | succ guard ih =>
    unfold evict
    split
    · split
      · exact .refl r
      next i hi =>
      obtain ⟨hlt, hfree, -⟩ := List.findIdx?_eq_some_iff_getElem.mp hi
      have hgone : (r.cache[i]?).toList = [r.cache[i]] := by
        rw [List.getElem?_eq_getElem hlt, Option.toList_some]
      refine (forget_shrink (List.eraseIdx_sublist _ _) ?_ ?_).trans (ih _)
      · rw [hgone]
        exact List.getElem_cons_eraseIdx_perm hlt
      · rw [hgone]
        intro e he
        rw [List.mem_singleton.mp he]
        simpa using hfree
    · exact .refl r

theorem trimToLatest_shrink (r : Role) : r.Shrink C r.trimToLatest := by
  unfold trimToLatest
  split
  · next h =>
    have hne : r.cache ≠ [] := by
      rintro hnil
      simp [hnil] at h
    refine forget_unpinned ?_
    rw [List.getLast?_eq_getLast_of_ne_nil hne]
    exact (List.dropLast_append_getLast hne).symm
  · exact .refl r

/-- After a push the role is the old one, or the old one with the entry, less what the caps
evicted. -/
theorem push_cases (r : Role) (cacheMax cacheBytes : Nat) (e : Entry) :
    r.push cacheMax cacheBytes e = r
      ∨ (r.append e).Shrink (fun _ _ _ => False) (r.push cacheMax cacheBytes e) := by
  unfold push
  split
  · exact .inl rfl
  · exact .inr ((evict_shrink ..).trans (trimToLatest_shrink _))

end Role

variable {cfg : Config} {P : Input → Prop} {n n' : Node}

namespace Moves

/-! ### Pushes and deliveries -/

variable {cut : Option Cut}

theorem cachePush {ρ : RoleRef} {e : Entry}
    (hnew : n.cutHolds ρ cut = true → (n.role ρ).superseded e.publishTs = false →
      P (.late ρ e) ∨ (n.role ρ).Fresh e.msgId e.json)
    (src : n.cutHolds ρ cut = true → Source cfg P (n.role ρ).topicId ρ e cut) :
    Moves cfg P n (n.cachePush cfg ρ e cut).2 := by
  unfold Node.cachePush
  split
  next hcut => exact role (.push hcut (hnew hcut) (src hcut)) rfl
  · exact .refl

/-- A body is checked against the tombstone of its id, if it is one that may revoke it. -/
theorem tombstoned {ρ : Option RoleRef} {id : MsgId} {json : Json}
    (hrev : ∀ ρ' ∈ ρ, ∀ t, standsAgainst t.signer json = false → Changes cfg P n ρ' id t none) :
    Moves cfg P n (n.tombstoned ρ id json).2 := by
  cases ρ with
  | none => exact .refl
  | some ρ =>
    have h : (n.role ρ).Shrink (Changes cfg P n ρ) ((n.role ρ).tombstoned id json).2 :=
      Role.tombstoned_shrink (hrev ρ rfl)
    exact shrink h

/-- A key that is new in the delivery memory is the one that is remembered. -/
theorem has_rememberKey {m : Node} {k k' : AppKey}
    (h : (m.rememberKey k).appDelivered.has k' = true) : k' = k ∨ m.appDelivered.has k' = true := by
  have hset : (m.appDelivered.set k ()).has k' = true := by
    unfold Node.rememberKey at h
    simp only [] at h
    split at h
    · obtain ⟨v, hv⟩ := has_iff.mp h
      exact has_iff.mpr ⟨v, get_of_mem (List.mem_of_mem_tail (mem_of_get hv))⟩
    · exact h
  rw [has_set] at hset
  rcases Bool.or_eq_true_iff.mp hset with hk | hold
  · exact .inl (of_decide_eq_true hk)
  · exact .inr hold

theorem sawStamp_core (m : Node) (t : TopicId) (ts : Int) : (m.sawStamp t ts).core = m.core := by
  unfold Node.sawStamp
  split <;> rfl

theorem sawStamp_app (m : Node) (t : TopicId) (ts : Int) :
    (m.sawStamp t ts).app = m.app ∧ (m.sawStamp t ts).appDelivered = m.appDelivered := by
  unfold Node.sawStamp
  split <;> exact ⟨rfl, rfl⟩

theorem deliverToApp (t : TopicId) (id : MsgId) (ts : Int) :
    Moves cfg P n (n.deliverToApp t id ts) := by
  unfold Node.deliverToApp
  split
  · exact .refl
  split
  · exact .refl
  have hsaw := sawStamp_app (n.rememberKey (Node.bodyKey t id)) t ts
  refine side (sawStamp_core (n.rememberKey (Node.bodyKey t id)) t ts) ⟨[.body t id], ?_, ?_⟩
  · show _ :: _ = _
    rw [hsaw.1]
    rfl
  · intro t' id' hk
    rw [hsaw.2] at hk
    rcases has_rememberKey hk with heq | hold
    · cases heq
      exact .inr (.inl List.mem_cons_self)
    · exact .inl hold

theorem deliverKillToApp (t : TopicId) (id : MsgId) (killTs : Int) :
    Moves cfg P n (n.deliverKillToApp t id killTs) := by
  unfold Node.deliverKillToApp
  simp only []
  have hsaw := sawStamp_app n t killTs
  -- a kill's key has its tag in front
  have hkey (evs : List AppEvent) {m : Node} (hm : m.appDelivered
        = ((n.sawStamp t killTs).rememberKey (Node.killKey t id)).appDelivered)
      (happ : m.app = evs ++ n.app) : AppGrows n m := by
    refine ⟨evs, happ, ?_⟩
    intro t' id' hk
    rw [hm] at hk
    rcases has_rememberKey hk with heq | hold
    · have hid : id' = Node.killTag ++ id := congrArg Prod.snd heq
      exact .inr (.inr (.inl ⟨id, hid.symm⟩))
    · rw [hsaw.2] at hold
      exact .inl hold
  split
  · exact .refl
  split
  · exact side (sawStamp_core n t killTs) (.same hsaw.1 hsaw.2)
  split
  · exact side (sawStamp_core n t killTs)
      (hkey [.killed t id] rfl (congrArg (AppEvent.killed t id :: ·) hsaw.1))
  · exact side (sawStamp_core n t killTs) (hkey [] rfl hsaw.1)

/-- A deletion comes in: on its first sight the role is told, under the input it came by. -/
theorem applyKill {ρ : Option RoleRef} {t : TopicId} {d : Del} {genTag : Option Gen}
    (hP : ∀ ρ' ∈ ρ, (n.role ρ').tombstones.has d.msgId = false →
      P (.del ρ' d) ∨ ((∃ cut k, P (.kill ρ' cut k)) ∧ n.now ≤ d.killTs.getD n.now
        ∧ d.killTs.getD n.now ≤ (n.role ρ').lastTs)) :
    Moves cfg P n (n.applyKill ρ t d cut genTag).2 := by
  unfold Node.applyKill
  cases ρ with
  | none => exact deliverKillToApp t d.msgId _
  | some ρ =>
    simp only []
    split
    · next hcut =>
      refine .trans ?_ (deliverKillToApp t d.msgId _)
      set m := n.modifyRole ρ fun r => { r with seq := max r.seq (d.seq.getD r.seq) } with hm
      have hmrole : m.role ρ = { n.role ρ with
          seq := max (n.role ρ).seq (d.seq.getD (n.role ρ).seq) } := Node.role_modifyRole_self ..
      have hnm : Moves cfg P n m := role (.raiseSeq (d.seq.getD (n.role ρ).seq)) rfl
      have hmcut : m.cutHolds ρ cut = true := by
        rw [← hcut]
        unfold Node.cutHolds
        rw [hmrole]
        rfl
      split
      · refine hnm.trans (shrink ?_)
        cases genTag with
        | none => exact .refl _
        | some g => exact Role.ownTombstone_shrink fun t owners => .owned owners
      next hnew =>
      have hnew : (m.role ρ).tombstones.has d.msgId = false := by simpa using hnew
      refine hnm.trans (role (.bury ?_ hmcut hnew rfl rfl ?_) rfl)
      · have h := hP ρ rfl (by rw [hmrole] at hnew; exact hnew)
        rw [hmrole]
        exact h
      · intro s hs
        rw [hmrole]
        simp only [Option.mem_def] at hs
        simp [hs]
    · exact .refl

theorem applyDels {ρ : RoleRef} {t : TopicId} {genTag : Option Gen} {ds : List Del}
    (hP : ∀ d ∈ ds, P (.del ρ d)) :
    Moves cfg P n (n.applyDels ρ t cut genTag ds).2 := by
  induction ds generalizing n with
  | nil => exact .refl
  | cons d ds ih =>
    have hd : Moves cfg P n (n.applyKill (some ρ) t d cut genTag).2 := by
      refine applyKill ?_
      rintro ρ' ⟨⟩ -
      exact .inl (hP d List.mem_cons_self)
    unfold Node.applyDels
    split
    · next heq =>
      rw [heq] at hd
      exact hd.trans (ih fun d' hd' => hP d' (List.mem_cons_of_mem _ hd'))
    next heq => rwa [heq] at hd

theorem replayLocal (ρ : RoleRef) (since : Int) (latest : Bool) :
    Moves cfg P n (n.replayLocal ρ since latest) := by
  unfold Node.replayLocal
  refine .trans ?_ (moves_foldl (fun _ _ _ => deliverKillToApp _ _ _) _)
  have hbodies : Moves cfg P n (((n.role ρ).cache.filter fun e => since < e.publishTs).foldl
      (fun m e => m.deliverToApp (n.role ρ).topicId e.msgId e.publishTs) n) :=
    moves_foldl (fun _ _ _ => deliverToApp _ _ _) _
  split
  · exact hbodies.trans (deliverToApp _ _ _)
  · exact hbodies

end Moves

end Axona
