import Axona.Safety.Books

/-! # The tombstone authority over its calls

What a call may do is said once, as a list of small writes. From it: the books stay right and the
bounds unexceeded over any calls, no live entry goes for another one, and a refused call changes
nothing but what had expired. Then what a tombstone was installed on, and that the body it is
about stays dead. -/

namespace Axona

open Library OrderedMap

/-! ### What a call may do -/

/-- A key of two ids without the separator. -/
def FreeKey (k : Text) : Prop := ∃ t m, Free t ∧ Free m ∧ k = authKey t m

/-- The bodies are held under keys of two ids. -/
def FreeKeys (s : TombstoneAuthority) : Prop :=
  ∀ k body, s.bodies.map.get k = some body → FreeKey k

/-- **What a call does, one write at a time.** `A` says that a deletion rests on a body that is held,
and `D` that a body of the key is delivered. -/
inductive AuthMove (now : Int) (A : Prop) (D : Text → Prop) (s : TombstoneAuthority) :
    TombstoneAuthority → Prop
  | reclaimTombs : AuthMove now A D s (s.reclaimTombs now)
  | reclaimCands : AuthMove now A D s { s with cand := s.cand.reclaimExpired now }
  | setTag (k signer : Text) (tag : CandTag) (at' : Option Int) :
      AuthMove now A D s { s with cand := s.cand.setTag k signer tag at' }
  | demoteKey (k : Text) : AuthMove now A D s { s with cand := s.cand.demoteKey k }
  | admitCand (k signer killBytes : Text) (tag : CandTag) (at' : Option Int) :
      AuthMove now A D s { s with cand := (s.cand.admitCand k signer killBytes now tag at').2 }
  | putBody {k : Text} (body : HeldBody) (hk : FreeKey k) :
      AuthMove now A D s { s with bodies := (s.bodies.put k body).2 }
  | dropBody (k : Text) : AuthMove now A D s { s with bodies := (s.bodies.evict k).2 }
  | fx (fx : Fx) : AuthMove now A D s { s with fx := fx }
  | commit {topicId k signer killBytes : Text} {death : Int} (hk : topicOf k = topicId)
      (hnew : s.tomb.map.get k = none) (hlive : now ≤ death)
      (hroom : s.tomb.wouldAdmit topicId k signer killBytes death = none)
      (hbody : A → ∃ body, s.bodies.map.get k = some body ∧ body.publisher = some signer) :
      AuthMove now A D s (s.commit topicId k (TombstoneStore.record k signer killBytes death))
  | purge {k : Text} (hD : D k) : AuthMove now A D s (s.purgeCand k)

/-- What a call does. -/
abbrev AuthMoves (now : Int) (A : Prop) (D : Text → Prop) :
    TombstoneAuthority → TombstoneAuthority → Prop :=
  Relation.ReflTransGen (AuthMove now A D)

namespace TombstoneAuthority

variable {s s' : TombstoneAuthority} {now : Int} {A : Prop} {D : Text → Prop} {k : Text}

theorem installs_commit (topicId : Text) (r : AuthTombstone) :
    (s.commit topicId k r).installs = ⟨k, r, s.bodies.map.get k⟩ :: s.installs := rfl

theorem cand_commit (topicId : Text) (r : AuthTombstone) :
    (s.commit topicId k r).cand = (s.cand.purge k).2 := rfl

theorem suppress_moves {topicId msgId signer killBytes : Text} {death : Int} (hfree : Free topicId)
    (hbody : A → ∃ body, s.bodies.map.get (authKey topicId msgId) = some body
      ∧ body.publisher = some signer) :
    AuthMoves now A D s (s.suppress topicId msgId signer killBytes death now).2 := by
  have hreclaim : AuthMove now A D s (s.reclaimTombs now) := .reclaimTombs
  unfold suppress
  simp only []
  split
  · exact .single hreclaim
  next hnew =>
  split
  · exact .single hreclaim
  next hlive =>
  split
  · exact .single hreclaim
  next hroom =>
    exact (Relation.ReflTransGen.single hreclaim).tail
      (.commit (topicOf_authKey hfree msgId) hnew (not_lt.mp hlive) hroom hbody)

/-- **All or nothing.** -/
theorem suppress_spec (s : TombstoneAuthority) (topicId msgId signer killBytes : Text)
    (death now : Int) : ((s.suppress topicId msgId signer killBytes death now).1 ≠ .suppressed
        ∧ (s.suppress topicId msgId signer killBytes death now).2 = s.reclaimTombs now)
      ∨ s.suppress topicId msgId signer killBytes death now
        = (.suppressed, (s.reclaimTombs now).commit topicId (authKey topicId msgId)
            (TombstoneStore.record (authKey topicId msgId) signer killBytes death)) := by
  unfold suppress
  simp only []
  split
  · refine .inl ⟨?_, rfl⟩
    split
    · rintro ⟨⟩
    · rintro ⟨⟩
  split
  · exact .inl ⟨by rintro ⟨⟩, rfl⟩
  split
  · exact .inl ⟨by rintro ⟨⟩, rfl⟩
  · exact .inr rfl

theorem get_purge (s : CandidateStore) (k : Text) : (s.purge k).2.map.get k = none := by
  unfold CandidateStore.purge
  split
  next h => exact h
  · show (OrderedMap.delete _ k).get k = none
    rw [get_delete, if_pos rfl]

theorem remove_of_get_none {s : CandidateStore} (h : s.map.get k = none) (signer : Text) :
    s.remove k signer = s := by
  unfold CandidateStore.remove
  rw [h]

theorem putBody_moves (body : HeldBody) (hk : FreeKey k) :
    AuthMoves now A D s (s.putBody k body) := by
  have hput : AuthMove now A D s { s with bodies := (s.bodies.put k body).2 } := .putBody body hk
  unfold putBody
  split
  next bodies heq =>
    rw [heq] at hput
    exact .single hput
  next ev bodies heq =>
    rw [heq] at hput
    exact ((Relation.ReflTransGen.single hput).tail (.demoteKey ev)).tail (.fx _)

/-- A body is held once it is put. -/
theorem get_put (b : BodyCache) (k : Text) (body : HeldBody) :
    (b.put k body).2.map.get k = some body := by
  unfold BodyCache.put
  split
  · show (b.map.dropOldest.set k body).get k = _
    rw [get_set, if_pos rfl]
  · show (b.map.set k body).get k = _
    rw [get_set, if_pos rfl]

theorem bodies_putBody (body : HeldBody) : (s.putBody k body).bodies = (s.bodies.put k body).2 := by
  unfold putBody
  split
  next heq => rw [heq]
  next heq => rw [heq]

theorem onKill_moves {topicId msgId signer killBytes : Text} (hfree : Free topicId) :
    AuthMoves now A D s (s.onKill topicId msgId signer killBytes now).2 := by
  have hreclaim : AuthMoves now A D s (s.reclaimTombs now) := .single .reclaimTombs
  have hcand : ∀ (s' : TombstoneAuthority) (tag : CandTag) (at' : Option Int),
      AuthMove now A D s' { s' with
        cand := (s'.cand.admitCand (authKey topicId msgId) signer killBytes now tag at').2 } :=
    fun s' tag at' => .admitCand _ _ _ _ _
  unfold onKill
  simp only []
  split
  · exact hreclaim
  split
  next body hbody =>
    split
    next hpublisher =>
      have hsup : AuthMoves now A D (s.reclaimTombs now) ((s.reclaimTombs now).suppress topicId
          msgId signer killBytes body.effectiveDeath now).2 :=
        suppress_moves hfree fun _ => ⟨body, hbody, hpublisher⟩
      split
      next heq =>
        rw [heq] at hsup
        exact hreclaim.trans hsup
      next heq =>
        rw [heq] at hsup
        exact hreclaim.trans hsup
      next heq =>
        rw [heq] at hsup
        exact (hreclaim.trans hsup).tail (hcand _ _ _)
    · exact hreclaim
  · exact hreclaim.tail (hcand _ _ _)

theorem signer_of_find {s : CandidateStore} {k : Text} {publisher : Option Text} {c : KillCandidate}
    (h : (publisher.bind fun p => s.find k p) = some c) : publisher = some c.signer := by
  cases publisher with
  | none => cases h
  | some p =>
    have hc := List.find?_some h
    rw [decide_eq_true_eq] at hc
    rw [hc]

theorem onBody_moves {topicId msgId : Text} {publisher : Option Text} {death : Int}
    (hfree : Free topicId) (hmsg : Free msgId)
    (hD : (s.onBody topicId msgId publisher death now).1 = .delivered → D (authKey topicId msgId)) :
    AuthMoves now A D s (s.onBody topicId msgId publisher death now).2 := by
  have hreclaim : AuthMoves now A D s (s.reclaimTombs now) := .single .reclaimTombs
  unfold onBody at hD ⊢
  simp only [] at hD ⊢
  split at hD
  next hdead =>
    rw [if_pos hdead]
    exact hreclaim
  next hdead =>
  rw [if_neg hdead]
  split at hD
  next hexpired =>
    rw [if_pos hexpired]
    exact hreclaim
  next hexpired =>
  rw [if_neg hexpired]
  set k := authKey topicId msgId with hk
  set s₁ := (s.reclaimTombs now).putBody k ⟨publisher, death, now⟩ with hs₁
  have hput : AuthMoves now A D s s₁ :=
    hreclaim.trans (putBody_moves _ ⟨topicId, msgId, hfree, hmsg, rfl⟩)
  have hbody : s₁.bodies.map.get k = some ⟨publisher, death, now⟩ := by
    rw [hs₁, bodies_putBody, get_put]
  cases hfind : publisher.bind fun p => s₁.cand.find k p with
  | some c =>
    have hsup : AuthMoves now A D s₁ (s₁.suppress topicId msgId c.signer c.killBytes death now).2 :=
      suppress_moves hfree fun _ => ⟨_, hbody, signer_of_find hfind⟩
    simp only []
    split
    next heq =>
      rw [heq] at hsup
      exact hput.trans hsup
    next heq =>
      rw [heq] at hsup
      exact hput.trans hsup
    next heq =>
      rw [heq] at hsup
      exact hput.trans hsup
    next heq =>
      rw [heq] at hsup
      exact (hput.trans hsup).tail (.setTag ..)
  | none =>
    rw [hfind] at hD
    simp only [] at hD ⊢
    split at hD
    next hempty =>
      rw [if_pos hempty]
      exact hput
    next hempty =>
      rw [if_neg hempty]
      exact hput.tail (.purge (hD rfl))

variable (h : FreeKeys s)
include h

/-- Every move leaves the bodies under keys of two ids. -/
theorem freeKeys_move (hmove : AuthMove now A D s s') : FreeKeys s' := by
  have hput : ∀ {m : OrderedMap Text HeldBody} {k : Text} {body : HeldBody}, FreeKey k →
      (∀ k body, m.get k = some body → FreeKey k) →
      ∀ j body', (m.set k body).get j = some body' → FreeKey j := by
    intro m k body hk hm j body' hj
    rw [get_set] at hj
    split at hj
    next heq => exact heq ▸ hk
    · exact hm j body' hj
  have hdel : ∀ k j body, (s.bodies.map.delete k).get j = some body → FreeKey j := by
    intro k j body hj
    exact h j body (of_get_delete hj)
  cases hmove with
  | putBody body hk =>
    unfold FreeKeys BodyCache.put
    split
    · refine hput hk fun j body' hj => h j body' ?_
      exact get_of_mem (List.mem_of_mem_tail (mem_of_get hj))
    · exact hput hk h
  | dropBody k => exact hdel k
  | commit _ _ _ _ _ => exact hdel _
  | reclaimTombs | reclaimCands | setTag | demoteKey | admitCand | fx | purge => exact h

/-- The bodies of a sweep are under keys of two ids, so each retry is about its own key. -/
theorem retry_moves (p : Text × KillCandidate) :
    AuthMoves now A D s (retry now s p) := by
  unfold retry
  split
  · exact .refl
  next body hbody =>
  split
  next hcond =>
    obtain ⟨t, m, ht, hm, hkey⟩ := h _ _ hbody
    rw [hkey, splitKey_authKey ht hm]
    have hsup : AuthMoves now A D s
        (s.suppress t m p.2.signer p.2.killBytes body.effectiveDeath now).2 :=
      suppress_moves ht fun _ => ⟨body, hkey ▸ hbody, hcond.1⟩
    simp only []
    split
    next s₂ heq =>
      -- the commit took the candidates of the key with it
      have hcommit := suppress_spec s t m p.2.signer p.2.killBytes body.effectiveDeath now
      rw [heq] at hcommit hsup
      rcases hcommit with ⟨hne, -⟩ | hcommit
      · exact absurd rfl hne
      have hgone : s₂.cand.map.get (authKey t m) = none := by
        rw [(Prod.mk.inj hcommit).2]
        exact get_purge _ _
      rw [remove_of_get_none hgone]
      exact hsup
    next heq =>
      rw [heq] at hsup
      exact hsup
  · exact .refl

theorem freeKeys_moves (hmoves : AuthMoves now A D s s') : FreeKeys s' :=
  moves_preserve (I := FreeKeys) (fun _ _ hmove h => freeKeys_move h hmove) hmoves h

theorem foldl_retry_moves (ps : List (Text × KillCandidate)) :
    AuthMoves now A D s (ps.foldl (retry now) s) := by
  induction ps generalizing s with
  | nil => exact .refl
  | cons p ps ih =>
    have hretry : AuthMoves now A D s (retry now s p) := retry_moves h p
    exact hretry.trans (ih (freeKeys_moves h hretry))

theorem reclaimAndRetry_moves : AuthMoves now A D s (s.reclaimAndRetry now) := by
  have hstart : AuthMoves now A D s
      { s.reclaimTombs now with cand := (s.reclaimTombs now).cand.reclaimExpired now } :=
    (Relation.ReflTransGen.single .reclaimTombs).tail .reclaimCands
  exact hstart.trans (foldl_retry_moves (freeKeys_moves h hstart) _)

end TombstoneAuthority

/-- The ids of a call are free of the separator. -/
def AuthCall.Free : AuthCall → Prop
  | .body t m _ _ _ | .kill t m _ _ _ | .suppress t m _ _ _ _ | .evictBody t m =>
    Axona.Free t ∧ Axona.Free m
  | .dropBody _ | .sweep _ | .reclaim _ => True

/-- A call that lays a deletion on no body that is not held. -/
def AuthCall.Local : AuthCall → Prop
  | .suppress _ _ _ _ _ _ => False
  | .body _ _ _ _ _ | .kill _ _ _ _ _ | .evictBody _ _ | .dropBody _ | .sweep _ | .reclaim _ =>
    True

/-- The call delivers a body of the key. -/
def Delivers (s : TombstoneAuthority) (c : AuthCall) (k : Text) : Prop :=
  (s.call c).1 = .body .delivered ∧
    ∃ topicId msgId publisher death now, c = .body topicId msgId publisher death now
      ∧ k = authKey topicId msgId

namespace TombstoneAuthority

variable {s : TombstoneAuthority} {now : Int} {c : AuthCall}

/-- **What a call does is made of moves at its time.** -/
theorem step_moves (now : Int) (h : FreeKeys s) (hc : c.Free) (hnow : ∀ t ∈ c.time, t = now) :
    AuthMoves now c.Local (Delivers s c) s (s.step c) := by
  cases c with
  | body topicId msgId publisher death t =>
    obtain rfl := hnow t rfl
    refine onBody_moves hc.1 hc.2 fun hdelivered => ⟨?_, topicId, msgId, publisher, death, t, rfl,
      rfl⟩
    show AuthAnswer.body (s.onBody topicId msgId publisher death t).1 = _
    rw [hdelivered]
  | kill topicId msgId signer killBytes t =>
    obtain rfl := hnow t rfl
    exact onKill_moves hc.1
  | suppress topicId msgId signer killBytes death t =>
    obtain rfl := hnow t rfl
    exact suppress_moves hc.1 fun h => h.elim
  | evictBody topicId msgId =>
    have hmoves : AuthMoves now (AuthCall.evictBody topicId msgId).Local
        (Delivers s (.evictBody topicId msgId)) s
        { s with
          bodies := (s.bodies.evict (authKey topicId msgId)).2
          cand := s.cand.demoteKey (authKey topicId msgId) } :=
      (Relation.ReflTransGen.single (.dropBody _)).tail (.demoteKey _)
    exact hmoves.tail (.fx _)
  | dropBody k => exact .single (.dropBody k)
  | sweep t =>
    obtain rfl := hnow t rfl
    exact reclaimAndRetry_moves h
  | reclaim t =>
    obtain rfl := hnow t rfl
    exact (Relation.ReflTransGen.single .reclaimTombs).tail .reclaimCands

/-! ### What every call keeps -/

/-- **The authority is in order.** -/
structure InOrder (s : TombstoneAuthority) : Prop where
  tomb : s.tomb.InOrder
  cand : s.cand.InOrder
  bodies : s.bodies.map.size ≤ max 1 s.bodies.max

theorem kept_create (profile : Profile) (bodyMax : Nat) : (create profile bodyMax).InOrder where
  tomb := ⟨⟨.nil, .nil, by rintro k r ⟨⟩⟩, by rintro k r ⟨⟩⟩
  cand := ⟨⟨rfl, .nil⟩, .nil, by rintro k c ⟨⟩⟩
  bodies := Nat.zero_le _

theorem size_put (b : BodyCache) (k : Text) (body : HeldBody) (h : b.map.size ≤ max 1 b.max) :
    (b.put k body).2.map.size ≤ max 1 b.max := by
  unfold BodyCache.put
  split
  next hfull =>
    -- a new key, for which the oldest one goes
    have hnew : k ∉ b.map.dropOldest.keys := by
      rw [keys_dropOldest]
      intro hmem
      have hhas := has_iff_mem_keys.mpr (List.mem_of_mem_tail hmem)
      rw [hfull.1] at hhas
      cases hhas
    show (b.map.dropOldest.set k body).size ≤ _
    rw [size_eq_length_keys, keys_set_new hnew, List.length_append,
      keys_dropOldest, List.length_tail, ← size_eq_length_keys]
    simp only [List.length_singleton]
    omega
  next hroom =>
  show (b.map.set k body).size ≤ _
  have hset := (entries_set_perm b.map k body).length_eq
  rw [List.length_cons] at hset
  cases hget : b.map.get k with
  | none =>
    rw [delete_of_get_none hget] at hset
    have hhas : b.map.has k = false := by
      rw [OrderedMap.has, hget]
      rfl
    have hlt : b.map.size < b.max := by
      by_contra hle
      exact hroom ⟨hhas, not_lt.mp hle⟩
    show (b.map.set k body).entries.length ≤ _
    rw [hset]
    exact le_trans hlt (le_max_right _ _)
  | some old =>
    have hold := (entries_perm_of_get hget).length_eq
    rw [List.length_cons] at hold
    show (b.map.set k body).entries.length ≤ _
    rw [hset, ← hold]
    exact h

theorem kept_move (h : s.InOrder) (hmove : AuthMove now A D s s') : s'.InOrder := by
  cases hmove with
  | reclaimTombs => exact ⟨(h.tomb.reclaimExpired now).1, h.cand, h.bodies⟩
  | reclaimCands => exact ⟨h.tomb, h.cand.reclaimExpired now, h.bodies⟩
  | setTag k signer tag at' => exact ⟨h.tomb, h.cand.setTag k signer tag at', h.bodies⟩
  | demoteKey k => exact ⟨h.tomb, h.cand.demoteKey k, h.bodies⟩
  | admitCand k signer killBytes tag at' =>
    exact ⟨h.tomb, h.cand.admitCand k signer killBytes now tag at', h.bodies⟩
  | putBody body hk =>
    refine ⟨h.tomb, h.cand, ?_⟩
    have hmax : ∀ k, (s.bodies.put k body).2.max = s.bodies.max := by
      intro k
      unfold BodyCache.put
      split <;> rfl
    show (s.bodies.put _ body).2.map.size ≤ max 1 (s.bodies.put _ body).2.max
    rw [hmax]
    exact size_put _ _ _ h.bodies
  | dropBody k =>
    exact ⟨h.tomb, h.cand, (List.length_filter_le _ _).trans h.bodies⟩
  | fx fx => exact ⟨h.tomb, h.cand, h.bodies⟩
  | commit hk hnew _ hroom _ =>
    exact ⟨h.tomb.insert hnew hk hroom, h.cand.purge _, (List.length_filter_le _ _).trans h.bodies⟩
  | purge hD => exact ⟨h.tomb, h.cand.purge _, h.bodies⟩

/-- **A live tombstone stays.** -/
theorem tomb_move (h : s.InOrder) (hmove : AuthMove now A D s s') {r : AuthTombstone}
    (hget : s.tomb.map.get k = some r) (hlive : now ≤ r.effectiveDeath) :
    s'.tomb.map.get k = some r := by
  cases hmove with
  | reclaimTombs =>
    have hreclaim := (h.tomb.reclaimExpired now).2.2 k
    rw [hget, Option.filter_some, if_pos (decide_eq_true hlive)] at hreclaim
    exact hreclaim
  | commit hk hnew _ _ _ =>
    show (s.tomb.map.set _ _).get k = some r
    rw [get_set, if_neg, hget]
    rintro rfl
    rw [hnew] at hget
    cases hget
  | reclaimCands | setTag | demoteKey | admitCand | putBody | dropBody | fx | purge => exact hget

end TombstoneAuthority

namespace CandidateStore

variable {s : CandidateStore} {k signer : Text} {now : Int} {c : KillCandidate}

/-- A candidate whose kill is still there under its key. -/
def Holds (s : CandidateStore) (k : Text) (c : KillCandidate) : Prop :=
  ∃ c' ∈ s.get k, SameKill c c'

theorem get_reclaimKey (j : Text) : (reclaimKey now s k).get j =
      if j = k then (s.get k).filter (fun c => decide (now ≤ c.claimRet)) else s.get j := by
  rw [reclaimKey_eq]
  exact get_putList s.map k j _

/-- An unexpired candidate outlives a reclaim. -/
theorem mem_reclaimExpired (hc : c ∈ s.get k) (hlive : now ≤ c.claimRet) :
    c ∈ (s.reclaimExpired now).get k := by
  unfold reclaimExpired
  generalize s.map.keys = ks
  induction ks generalizing s with
  | nil => exact hc
  | cons j ks ih =>
    refine ih ?_
    rw [get_reclaimKey]
    split
    next heq =>
      subst heq
      exact List.mem_filter.mpr ⟨hc, decide_eq_true hlive⟩
    · exact hc

theorem Holds.retag {list list' : List KillCandidate} {j : Text} (h : s.Holds k c)
    (hget : s.map.get j = some list) (hsame : List.Forall₂ SameKill list list') :
    ({ s with map := s.map.set j list' } : CandidateStore).Holds k c := by
  obtain ⟨c', hc', hs⟩ := h
  unfold Holds get
  simp only [get_set]
  split
  next heq =>
    subst heq
    rw [get, hget] at hc'
    obtain ⟨c'', hc'', hs'⟩ := forall₂_mem_left hsame hc'
    exact ⟨c'', hc'', hs.trans hs'⟩
  · exact ⟨c', hc', hs⟩

theorem Holds.setTag (h : s.Holds k c) (j signer : Text) (tag : CandTag) (at' : Option Int) :
    (s.setTag j signer tag at').Holds k c := by
  unfold CandidateStore.setTag
  split
  · exact h
  next hget => exact h.retag hget (tagFirst_same ..)

theorem Holds.demoteKey (h : s.Holds k c) (j : Text) : (s.demoteKey j).Holds k c := by
  unfold CandidateStore.demoteKey
  split
  · exact h
  next hget =>
  refine h.retag hget ?_
  rw [List.forall₂_map_right_iff]
  exact List.forall₂_same.mpr fun c _ => ⟨rfl, rfl, rfl, rfl⟩

theorem Holds.reclaimExpired (h : s.Holds k c) (hlive : now ≤ c.claimRet) :
    (s.reclaimExpired now).Holds k c := by
  obtain ⟨c', hc', hs⟩ := h
  exact ⟨c', mem_reclaimExpired hc' (hs.claimRet.symm ▸ hlive), hs⟩

/-- **No candidate goes to admit another.** -/
theorem Holds.admitCand (h : s.Holds k c) (hlive : now ≤ c.claimRet) (j signer killBytes : Text)
    (tag : CandTag) (at' : Option Int) :
    (s.admitCand j signer killBytes now tag at').2.Holds k c := by
  have h' := h.reclaimExpired hlive
  unfold CandidateStore.admitCand
  simp only []
  generalize s.reclaimExpired now = s₁ at h' ⊢
  split
  · exact h'
  split
  · exact h'
  split
  · exact h'
  split
  · exact h'
  split
  · exact h'
  split
  · exact h'
  obtain ⟨c', hc', hs⟩ := h'
  refine ⟨c', ?_, hs⟩
  unfold get at hc' ⊢
  simp only [get_set]
  split
  next heq =>
    subst heq
    exact List.mem_append_left _ hc'
  · exact hc'

theorem Holds.purge {j : Text} (h : s.Holds k c) (hne : k ≠ j) : (s.purge j).2.Holds k c := by
  unfold CandidateStore.purge
  split
  · exact h
  next list _ =>
  obtain ⟨c', hc', hs⟩ := h
  obtain ⟨hmap, -, -⟩ := foldl_uncount_frame (s := s) (k := j) list
  refine ⟨c', ?_, hs⟩
  show c' ∈ (((list.foldl (fun s c => s.uncount j c) s).map.delete j).get k).getD []
  rw [hmap, get_delete, if_neg hne]
  exact hc'

end CandidateStore

namespace TombstoneAuthority

variable {s s' : TombstoneAuthority} {now : Int} {A : Prop} {D : Text → Prop} {k : Text}

/-- **The history only grows.** -/
theorem installs_move (hmove : AuthMove now A D s s') : ∃ new, s'.installs = new ++ s.installs := by
  cases hmove with
  | commit _ _ _ _ _ => exact ⟨[_], rfl⟩
  | reclaimTombs | reclaimCands | setTag | demoteKey | admitCand | putBody | dropBody | fx | purge
    =>
    exact ⟨[], rfl⟩

theorem installs_moves (hmoves : AuthMoves now A D s s') :
    ∃ new, s'.installs = new ++ s.installs := by
  induction hmoves with
  | refl => exact ⟨[], rfl⟩
  | tail _ hmove ih =>
    obtain ⟨new, hnew⟩ := ih
    obtain ⟨new', hnew'⟩ := installs_move hmove
    exact ⟨new' ++ new, by rw [hnew', hnew, List.append_assoc]⟩

/-- **An unexpired candidate stays**, unless a tombstone of its key has just been installed or a
body of its key delivered. -/
theorem cand_moves {c : KillCandidate} (hmoves : AuthMoves now A D s s') (h : s.cand.Holds k c)
    (hlive : now ≤ c.claimRet) :
    s'.cand.Holds k c ∨ D k ∨ ∃ new, s'.installs = new ++ s.installs ∧ ∃ i ∈ new, i.key = k := by
  induction hmoves with
  | refl => exact .inl h
  | @tail m _ hpre hmove ih =>
    rcases ih with hheld | hD | ⟨new, hnew, i, hi, hkey⟩
    · cases hmove with
      | reclaimCands => exact .inl (hheld.reclaimExpired hlive)
      | setTag j signer tag at' => exact .inl (hheld.setTag j signer tag at')
      | demoteKey j => exact .inl (hheld.demoteKey j)
      | admitCand j signer killBytes tag at' => exact .inl (hheld.admitCand hlive j signer killBytes tag at')
      | reclaimTombs | putBody | dropBody | fx => exact .inl hheld
      | @purge j hD =>
        by_cases hj : k = j
        · exact .inr (.inl (hj ▸ hD))
        · exact .inl (hheld.purge hj)
      | @commit topicId j signer killBytes death _ _ _ _ _ =>
        by_cases hj : k = j
        · -- the history so far, then the tombstone of the key
          obtain ⟨new, hnew⟩ := installs_moves hpre
          have hcommit := installs_commit (s := m) (k := j) topicId
            (TombstoneStore.record j signer killBytes death)
          rw [hnew, ← List.cons_append] at hcommit
          exact .inr (.inr ⟨_, hcommit, _, List.mem_cons_self, hj.symm⟩)
        · exact .inl (hheld.purge hj)
    · exact .inr (.inl hD)
    · obtain ⟨new', hnew'⟩ := installs_move hmove
      exact .inr (.inr ⟨new' ++ new, by rw [hnew', hnew, List.append_assoc], i,
        List.mem_append_right _ hi, hkey⟩)

/-- The bounds of every table, which no call changes. -/
def bounds (s : TombstoneAuthority) : Caps × Nat × Caps × Nat × Nat :=
  (s.tomb.caps, s.tomb.recordMax, s.cand.caps, s.cand.recordMax, s.bodies.max)

end TombstoneAuthority

/-- The call was refused, or had nothing to do. -/
def AuthAnswer.refused : AuthAnswer → Bool
  | .suppress a => decide (a ≠ .suppressed)
  | .kill .suppressed | .kill (.candidate .admitted) | .kill (.pendingCapacity _ .admitted) => false
  | .kill _ => true
  | .body .suppressedTombstone | .body .dropExpired => true
  | .body _ | .evicted _ | .done => false

namespace TombstoneAuthority

variable {s s' : TombstoneAuthority} {now : Int} {A : Prop} {D : Text → Prop} {k : Text}

/-- A candidate that is not admitted leaves the store as the reclaim left it. -/
theorem admitCand_refused {s : CandidateStore} {k signer killBytes : Text} {tag : CandTag}
    {at' : Option Int} (h : (s.admitCand k signer killBytes now tag at').1 ≠ .admitted) :
    (s.admitCand k signer killBytes now tag at').2 = s.reclaimExpired now := by
  unfold CandidateStore.admitCand at h ⊢
  simp only [] at h ⊢
  split
  · rfl
  next hdup =>
  rw [if_neg hdup] at h
  split
  · rfl
  next hrecord =>
  rw [if_neg hrecord] at h
  split
  · rfl
  next hcount =>
  rw [if_neg hcount] at h
  split
  · rfl
  next hsize =>
  rw [if_neg hsize] at h
  split
  · rfl
  next howner =>
  rw [if_neg howner] at h
  split
  · rfl
  next hgroup =>
  rw [if_neg hgroup] at h
  exact absurd rfl h

/-- The earliest death a reclaim remembers has not passed. -/
theorem foldl_reclaimRound_min (es : List (Text × AuthTombstone)) (t : TombstoneStore × Option Int)
    (h : ∀ m ∈ t.2, now ≤ m) : ∀ m ∈ (es.foldl (TombstoneStore.reclaimRound now) t).2, now ≤ m := by
  induction es generalizing t with
  | nil => exact h
  | cons e es ih =>
    refine ih _ ?_
    unfold TombstoneStore.reclaimRound
    split
    · exact h
    next hdead =>
    split
    · rintro m hm
      cases hm
      exact not_lt.mp hdead
    · exact h

/-- Reclaiming twice at one time is reclaiming once. -/
theorem reclaimTombs_idem (s : TombstoneAuthority) (now : Int) :
    (s.reclaimTombs now).reclaimTombs now = s.reclaimTombs now := by
  have hidem : (s.tomb.reclaimExpired now).reclaimExpired now = s.tomb.reclaimExpired now := by
    by_cases hmin : (s.tomb.minDeath.all fun m => decide (now ≤ m)) = true
    · have hsame : s.tomb.reclaimExpired now = s.tomb := if_pos hmin
      rw [hsame, hsame]
    set t := s.tomb.map.entries.foldl (TombstoneStore.reclaimRound now) (s.tomb, none) with ht
    have hone : s.tomb.reclaimExpired now = { t.1 with minDeath := t.2 } := if_neg hmin
    have hle : ∀ m ∈ t.2, now ≤ m :=
      foldl_reclaimRound_min s.tomb.map.entries (s.tomb, none) (by rintro m ⟨⟩)
    rw [hone]
    refine if_pos ?_
    rw [Option.all_eq_true_iff_get]
    intro hsome
    exact decide_eq_true (hle _ (Option.get_mem hsome))
  show ({ s with tomb := (s.tomb.reclaimExpired now).reclaimExpired now } : TombstoneAuthority) = _
  rw [hidem]
  rfl

/-- A deletion whose death has not passed is not refused as expired. -/
theorem suppress_ne_expired {topicId msgId signer killBytes : Text} {death : Int}
    (h : ¬death < now) : (s.suppress topicId msgId signer killBytes death now).1 ≠ .expired := by
  unfold suppress
  simp only []
  split
  · split
    · rintro ⟨⟩
    · rintro ⟨⟩
  rw [if_neg h]
  split
  · rintro ⟨⟩
  · rintro ⟨⟩

theorem onKill_refused {topicId msgId signer killBytes : Text}
    (h : (AuthAnswer.kill (s.onKill topicId msgId signer killBytes now).1).refused = true) :
    (s.onKill topicId msgId signer killBytes now).2 = s.reclaimTombs now
      ∨ (s.onKill topicId msgId signer killBytes now).2
        = { s.reclaimTombs now with cand := s.cand.reclaimExpired now } := by
  unfold onKill at h ⊢
  simp only [] at h ⊢
  cases htomb : (s.reclaimTombs now).tomb.map.get (authKey topicId msgId) with
  | some tomb => exact .inl rfl
  | none =>
    rw [htomb] at h
    cases hbody : (s.reclaimTombs now).bodies.map.get (authKey topicId msgId) with
    | none =>
      rw [hbody] at h
      refine .inr ?_
      rw [admitCand_refused]
      · rfl
      · intro hadmitted
        rw [hadmitted] at h
        cases h
    | some body =>
      rw [hbody] at h
      simp only [] at h ⊢
      by_cases hpublisher : body.publisher = some signer
      · rw [if_pos hpublisher] at h ⊢
        rcases suppress_spec (s.reclaimTombs now) topicId msgId signer killBytes
          body.effectiveDeath now with ⟨hne, heq⟩ | hsup
        · rw [reclaimTombs_idem] at heq
          split
          next hsup => exact absurd (congrArg Prod.fst hsup) hne
          next hsup =>
            rw [hsup] at heq
            exact .inl heq
          next r s₂ hnsup hnexp hsup =>
          rw [hsup] at h heq
          have hs₂ : s₂ = s.reclaimTombs now := heq
          subst hs₂
          refine .inr ?_
          rw [admitCand_refused]
          · rfl
          · intro hadmitted
            have hpending : (AuthAnswer.kill (.pendingCapacity r .admitted)).refused = true := by
              rw [← hadmitted]
              cases r with
              | suppressed => exact (hnsup rfl).elim
              | expired => exact (hnexp rfl).elim
              | confirmed | mismatchTomb | refused => exact h
            cases hpending
        · rw [hsup] at h
          cases h
      · rw [if_neg hpublisher]
        exact .inl rfl

theorem onBody_refused {topicId msgId : Text} {publisher : Option Text} {death : Int}
    (h : (AuthAnswer.body (s.onBody topicId msgId publisher death now).1).refused = true) :
    (s.onBody topicId msgId publisher death now).2 = s.reclaimTombs now := by
  unfold onBody at h ⊢
  simp only [] at h ⊢
  split at h
  next hdead => rw [if_pos hdead]
  next hdead =>
  rw [if_neg hdead]
  split at h
  next hexpired => rw [if_pos hexpired]
  next hexpired =>
  -- past the two refusals the body is in the cache, whatever the answer
  exfalso
  split at h
  next c hfind =>
    have hne : (((s.reclaimTombs now).putBody (authKey topicId msgId)
        ⟨publisher, death, now⟩).suppress topicId msgId c.signer c.killBytes death now).1
          ≠ .expired :=
      suppress_ne_expired hexpired
    split at h
    · cases h
    · cases h
    next heq => exact absurd (congrArg Prod.fst heq) hne
    · cases h
  next hfind =>
  split at h
  · cases h
  · cases h

/-- **A refused call changes nothing but what had expired.** -/
theorem call_refused {c : AuthCall} (hrefused : (s.call c).1.refused = true) :
    ∃ t ∈ c.time, s.step c = s.reclaimTombs t
      ∨ s.step c = { s.reclaimTombs t with cand := s.cand.reclaimExpired t } := by
  cases c with
  | body topicId msgId publisher death t => exact ⟨t, rfl, .inl (onBody_refused hrefused)⟩
  | kill topicId msgId signer killBytes t => exact ⟨t, rfl, onKill_refused hrefused⟩
  | suppress topicId msgId signer killBytes death t =>
    refine ⟨t, rfl, .inl ?_⟩
    rcases suppress_spec s topicId msgId signer killBytes death t with ⟨-, heq⟩ | hsup
    · exact heq
    have hne : (s.suppress topicId msgId signer killBytes death t).1 ≠ .suppressed :=
      of_decide_eq_true hrefused
    rw [hsup] at hne
    exact absurd rfl hne
  | evictBody topicId msgId | dropBody k | sweep t | reclaim t => cases hrefused

theorem bounds_reclaimTombs (now : Int) (s : TombstoneStore) :
    (s.reclaimExpired now).caps = s.caps ∧ (s.reclaimExpired now).recordMax = s.recordMax := by
  have hfold : ∀ (es : List (Text × AuthTombstone)) (t : TombstoneStore × Option Int),
      (es.foldl (TombstoneStore.reclaimRound now) t).1.caps = t.1.caps
        ∧ (es.foldl (TombstoneStore.reclaimRound now) t).1.recordMax = t.1.recordMax := by
    intro es
    induction es with
    | nil => exact fun _ => ⟨rfl, rfl⟩
    | cons e es ih =>
      intro t
      have hround : (TombstoneStore.reclaimRound now t e).1.caps = t.1.caps
          ∧ (TombstoneStore.reclaimRound now t e).1.recordMax = t.1.recordMax := by
        unfold TombstoneStore.reclaimRound
        split
        · exact ⟨rfl, rfl⟩
        · split <;> exact ⟨rfl, rfl⟩
      rw [List.foldl_cons, (ih _).1, (ih _).2]
      exact hround
  unfold TombstoneStore.reclaimExpired
  split
  · exact ⟨rfl, rfl⟩
  · exact hfold _ _

theorem bounds_reclaimCands (now : Int) (s : CandidateStore) :
    (s.reclaimExpired now).caps = s.caps ∧ (s.reclaimExpired now).recordMax = s.recordMax := by
  unfold CandidateStore.reclaimExpired
  generalize s.map.keys = ks
  induction ks generalizing s with
  | nil => exact ⟨rfl, rfl⟩
  | cons k ks ih =>
    have hframe := CandidateStore.foldl_uncount_frame (s := s) (k := k)
      ((s.get k).reverse.filter fun c => decide (c.claimRet < now))
    rw [List.foldl_cons, (ih _).1, (ih _).2]
    exact hframe.2

theorem bounds_admitCand (now : Int) (s : CandidateStore) (k signer killBytes : Text) (tag :
    CandTag)
    (at' : Option Int) : (s.admitCand k signer killBytes now tag at').2.caps = s.caps
      ∧ (s.admitCand k signer killBytes now tag at').2.recordMax = s.recordMax := by
  have hreclaim := bounds_reclaimCands now s
  by_cases hadmitted : (s.admitCand k signer killBytes now tag at').1 = .admitted
  · unfold CandidateStore.admitCand
    simp only []
    split_ifs <;> exact hreclaim
  · rw [admitCand_refused hadmitted]
    exact hreclaim

theorem bounds_purge (s : CandidateStore) (k : Text) :
    (s.purge k).2.caps = s.caps ∧ (s.purge k).2.recordMax = s.recordMax := by
  unfold CandidateStore.purge
  split
  · exact ⟨rfl, rfl⟩
  next list _ => exact (CandidateStore.foldl_uncount_frame (s := s) (k := k) list).2

/-- **No call changes a bound.** -/
theorem bounds_move (hmove : AuthMove now A D s s') : s'.bounds = s.bounds := by
  cases hmove with
  | reclaimTombs =>
    obtain ⟨hcaps, hrecord⟩ := bounds_reclaimTombs now s.tomb
    unfold bounds reclaimTombs
    rw [hcaps, hrecord]
  | reclaimCands =>
    obtain ⟨hcaps, hrecord⟩ := bounds_reclaimCands now s.cand
    unfold bounds
    rw [hcaps, hrecord]
  | setTag =>
    unfold bounds CandidateStore.setTag
    split <;> rfl
  | demoteKey =>
    unfold bounds CandidateStore.demoteKey
    split <;> rfl
  | admitCand k signer killBytes tag at' =>
    obtain ⟨hcaps, hrecord⟩ := bounds_admitCand now s.cand k signer killBytes tag at'
    unfold bounds
    rw [hcaps, hrecord]
  | putBody body hk =>
    unfold bounds BodyCache.put
    split <;> rfl
  | dropBody | fx => rfl
  | @commit topicId j _ _ _ _ _ _ _ _ =>
    obtain ⟨hcaps, hrecord⟩ := bounds_purge s.cand j
    unfold bounds
    rw [cand_commit, hcaps, hrecord]
    rfl
  | @purge j hD =>
    obtain ⟨hcaps, hrecord⟩ := bounds_purge s.cand j
    unfold bounds
    show (_, _, (s.cand.purge j).2.caps, (s.cand.purge j).2.recordMax, _) = _
    rw [hcaps, hrecord]
    rfl

/-! ### Runs -/

/-- What holds of the authority after any calls. -/
structure KeptInOrder (profile : Profile) (bodyMax : Nat) (s : TombstoneAuthority) : Prop where
  kept : s.InOrder
  keys : FreeKeys s
  bounds : s.bounds = (create profile bodyMax).bounds

theorem keptInOrder_step {profile : Profile} {bodyMax : Nat} {c : AuthCall} (h : KeptInOrder profile bodyMax s)
    (hc : c.Free) : KeptInOrder profile bodyMax (s.step c) := by
  have hmoves := step_moves (c.time.getD 0) h.keys hc fun t ht => by rw [ht]; rfl
  exact moves_preserve (I := KeptInOrder profile bodyMax)
    (fun a b hmove h => ⟨kept_move h.kept hmove, freeKeys_move h.keys hmove,
      (bounds_move hmove).trans h.bounds⟩) hmoves h

theorem keptInOrder_run {profile : Profile} {bodyMax : Nat} (calls : List AuthCall)
    (hfree : ∀ c ∈ calls, c.Free) (h : KeptInOrder profile bodyMax s) :
    KeptInOrder profile bodyMax (run step s calls) := by
  induction calls generalizing s with
  | nil => exact h
  | cons c calls ih =>
    exact ih (fun c' hc' => hfree c' (List.mem_cons_of_mem _ hc'))
      (keptInOrder_step h (hfree c List.mem_cons_self))

theorem keptInOrder_create (profile : Profile) (bodyMax : Nat) :
    KeptInOrder profile bodyMax (create profile bodyMax) :=
  ⟨kept_create profile bodyMax, by rintro k body ⟨⟩, rfl⟩

end TombstoneAuthority

instance (c : AuthCall) : Decidable c.Free := by
  cases c <;> unfold AuthCall.Free <;> infer_instance

instance (c : AuthCall) : Decidable c.Local := by
  cases c <;> unfold AuthCall.Local <;> infer_instance

/-- A body and the kill its publisher signed. -/
def deletionCalls : List AuthCall :=
  [.body ['t'] ['m'] (some ['p']) 100 0, .kill ['t'] ['m'] ['p'] [] 1]

/-- A refused call may take an expired tombstone away, a full body cache gives up a body that is
alive, and the books of a topic whose id holds the separator are never balanced again. -/
theorem books_unbalanced :
    ((run TombstoneAuthority.step (.create relayCaps 8) deletionCalls).call
        (.body ['t'] ['m'] (some ['p']) 100 200)).1.refused = true
      ∧ (run TombstoneAuthority.step (.create relayCaps 8) deletionCalls).tomb.map.size = 1
      ∧ ((run TombstoneAuthority.step (.create relayCaps 8) deletionCalls).step
        (.body ['t'] ['m'] (some ['p']) 100 200)).tomb.map.size = 0
      ∧ (run TombstoneAuthority.step (.create relayCaps 1)
        [.body ['t'] ['m'] (some ['p']) 100 0, .body ['t'] ['n'] (some ['p']) 100 1]).bodies.map.get
        (authKey ['t'] ['m']) = none
      ∧ (run TombstoneAuthority.step (.create relayCaps 8)
        [.body ['a', '|'] ['m'] (some ['p']) 100 0, .kill ['a', '|'] ['m'] ['p'] [] 1,
          .reclaim 200]).tomb.map.size = 0
      ∧ (run TombstoneAuthority.step (.create relayCaps 8)
        [.body ['a', '|'] ['m'] (some ['p']) 100 0, .kill ['a', '|'] ['m'] ['p'] [] 1,
          .reclaim 200]).tomb.perTopic.count ['a', '|'] = 1 := by
  decide +kernel

open TombstoneAuthority in
/-- **The books and the bounds of the authority.** After any calls the books of both stores are what a
recount says and no bound is exceeded. The next call takes away no tombstone before its death and
no candidate before its time, but for the candidates of the key it decides; and where it is
refused it changes nothing but what had expired. -/
theorem deletion_books (profile : Profile) (bodyMax : Nat) (calls : List AuthCall)
    (hfree : ∀ c ∈ calls, c.Free) (c : AuthCall) (hc : c.Free) :
    let s := run step (create profile bodyMax) calls
    s.InOrder
      ∧ s.bounds = (create profile bodyMax).bounds
      ∧ (∀ k r, s.tomb.map.get k = some r → (∀ t ∈ c.time, t ≤ r.effectiveDeath) →
          (s.step c).tomb.map.get k = some r)
      ∧ (∀ k, ∀ x ∈ s.cand.get k, (∀ t ∈ c.time, t ≤ x.claimRet) →
          (s.step c).cand.Holds k x ∨ Delivers s c k
            ∨ ∃ new, (s.step c).installs = new ++ s.installs ∧ ∃ i ∈ new, i.key = k)
      ∧ ((s.call c).1.refused = true → ∃ t ∈ c.time, s.step c = s.reclaimTombs t
          ∨ s.step c = { s.reclaimTombs t with cand := s.cand.reclaimExpired t }) := by
  intro s
  have hgood : KeptInOrder profile bodyMax s := keptInOrder_run calls hfree (keptInOrder_create profile bodyMax)
  -- a call without a time is made of moves at any time
  have hmoves : ∀ live : Int, (∀ t ∈ c.time, t ≤ live) → ∃ now ≤ live,
      AuthMoves now c.Local (Delivers s c) s (s.step c) := by
    intro live hlive
    cases htime : c.time with
    | none =>
      exact ⟨live, le_rfl, step_moves _ hgood.keys hc (by rw [htime]; rintro t ⟨⟩)⟩
    | some t =>
      exact ⟨t, hlive t htime, step_moves _ hgood.keys hc (by rw [htime]; rintro t ⟨⟩; rfl)⟩
  refine ⟨hgood.kept, hgood.bounds, ?_, ?_, call_refused⟩
  · intro k r hget hlive
    obtain ⟨now, hnow, hm⟩ := hmoves _ hlive
    have hkept : (s.step c).InOrder ∧ (s.step c).tomb.map.get k = some r :=
      moves_preserve (I := fun s : TombstoneAuthority => s.InOrder ∧ s.tomb.map.get k = some r)
        (fun a b hmove h => ⟨kept_move h.1 hmove, tomb_move h.1 hmove h.2 hnow⟩) hm
        ⟨hgood.kept, hget⟩
    exact hkept.2
  · intro k x hx hlive
    obtain ⟨now, hnow, hm⟩ := hmoves _ hlive
    exact cand_moves hm ⟨x, hx, .refl x⟩ hnow

/-- A refused body after a deletion: what the theorem says of it. -/
theorem deletion_books_sample :
    ((run TombstoneAuthority.step (.create relayCaps 8) deletionCalls).call
        (.body ['t'] ['m'] (some ['p']) 100 2)).1.refused = true
      ∧ ∃ t ∈ (AuthCall.body ['t'] ['m'] (some ['p']) 100 2).time,
        (run TombstoneAuthority.step (.create relayCaps 8) deletionCalls).step
            (.body ['t'] ['m'] (some ['p']) 100 2)
          = (run TombstoneAuthority.step (.create relayCaps 8) deletionCalls).reclaimTombs t
        ∨ (run TombstoneAuthority.step (.create relayCaps 8) deletionCalls).step
            (.body ['t'] ['m'] (some ['p']) 100 2)
          = { (run TombstoneAuthority.step (.create relayCaps 8) deletionCalls).reclaimTombs t with
              cand := (run TombstoneAuthority.step (.create relayCaps 8)
                deletionCalls).cand.reclaimExpired t } := by
  have hrefused : ((run TombstoneAuthority.step (.create relayCaps 8) deletionCalls).call
      (.body ['t'] ['m'] (some ['p']) 100 2)).1.refused = true := by decide +kernel
  exact ⟨hrefused, (deletion_books relayCaps 8 deletionCalls (by decide)
    (.body ['t'] ['m'] (some ['p']) 100 2) (by decide)).2.2.2.2 hrefused⟩

/-! ### What a tombstone was installed on -/

namespace TombstoneAuthority

variable {s s' : TombstoneAuthority} {now : Int} {A : Prop} {D : Text → Prop} {k : Text}

/-- The body an installation rests on was held, and its publisher signed the kill. -/
def Install.Earned (i : Install) : Prop :=
  ∃ body, i.body = some body ∧ body.publisher = some i.record.signerPubkey

/-- **Every tombstone was earned.** -/
structure AllEarned (s : TombstoneAuthority) : Prop where
  installed : ∀ k r, s.tomb.map.get k = some r → ∃ i ∈ s.installs, i.key = k ∧ i.record = r
  earned : ∀ i ∈ s.installs, Install.Earned i

theorem allEarned_move (hA : A) (hkept : s.InOrder) (h : AllEarned s)
    (hmove : AuthMove now A D s s') : AllEarned s' := by
  cases hmove with
  | reclaimTombs =>
    refine ⟨fun k r hget => ?_, h.earned⟩
    have hget' : (s.tomb.reclaimExpired now).map.get k = some r := hget
    rw [(hkept.tomb.reclaimExpired now).2.2, Option.filter_eq_some_iff] at hget'
    exact h.installed k r hget'.1
  | @commit topicId j signer killBytes death hk hnew hlive hroom hbody =>
    obtain ⟨body, hheld, hpublisher⟩ := hbody hA
    refine ⟨fun k r hget => ?_, fun i hi => ?_⟩
    · have hget' : (s.tomb.map.set j (TombstoneStore.record j signer killBytes death)).get k
          = some r := hget
      rw [installs_commit]
      rw [get_set] at hget'
      split at hget'
      next heq =>
        cases hget'
        exact ⟨_, List.mem_cons_self, heq.symm, rfl⟩
      · obtain ⟨i, hi, hkey, hrecord⟩ := h.installed k r hget'
        exact ⟨i, List.mem_cons_of_mem _ hi, hkey, hrecord⟩
    · rw [installs_commit] at hi
      rcases List.mem_cons.mp hi with rfl | hi'
      · exact ⟨body, hheld, hpublisher⟩
      · exact h.earned i hi'
  | reclaimCands | setTag | demoteKey | admitCand | putBody | dropBody | fx | purge =>
    exact ⟨h.installed, h.earned⟩

/-- At the time `t` the installed tombstones stand that are not dead. -/
def Standing (t : Int) (s : TombstoneAuthority) : Prop :=
  ∀ i ∈ s.installs, t ≤ i.record.effectiveDeath → s.tomb.map.get i.key = some i.record

theorem Standing.mono {t t' : Int} (h : Standing t s) (ht : t ≤ t') : Standing t' s :=
  fun i hi hlive => h i hi (ht.trans hlive)

theorem standing_move (hkept : s.InOrder) (h : Standing now s) (hmove : AuthMove now A D s s') :
    Standing now s' := by
  intro i hi hlive
  cases hmove with
  | @commit topicId j signer killBytes death hk hnew _ hroom hbody =>
    rw [installs_commit] at hi
    rcases List.mem_cons.mp hi with rfl | hi'
    · show (s.tomb.map.set j _).get j = some _
      rw [get_set, if_pos rfl]
    · exact tomb_move hkept (.commit hk hnew ‹_› hroom hbody : AuthMove now A D s _)
        (h i hi' hlive) hlive
  | reclaimTombs => exact tomb_move hkept (.reclaimTombs : AuthMove now A D s _) (h i hi hlive) hlive
  | reclaimCands | setTag | demoteKey | admitCand | putBody | dropBody | fx | purge
    => exact h i hi hlive

/-- **The step.** -/
theorem standing_step {t : Int} {c : AuthCall} (hkept : s.InOrder) (hkeys : FreeKeys s)
    (h : Standing t s) (hc : c.Free) (htime : ∀ t' ∈ c.time, t ≤ t') :
    Standing (c.time.getD t) (s.step c) := by
  have hle : t ≤ c.time.getD t := by
    cases hct : c.time with
    | none => exact le_rfl
    | some t' => exact htime t' hct
  have hmoves := step_moves (c.time.getD t) hkeys hc fun t' ht' => by rw [ht']; rfl
  have hboth : (s.step c).InOrder ∧ Standing (c.time.getD t) (s.step c) :=
    moves_preserve (I := fun s : TombstoneAuthority => s.InOrder ∧ Standing (c.time.getD t) s)
      (fun a b hmove h => ⟨kept_move h.1 hmove, standing_move h.1 h.2 hmove⟩) hmoves
      ⟨hkept, h.mono hle⟩
  exact hboth.2

/-- **The run.** -/
theorem standing_run {profile : Profile} {bodyMax : Nat} {t : Int} (calls : List AuthCall)
    (hgood : KeptInOrder profile bodyMax s) (hfree : ∀ c ∈ calls, c.Free)
    (hclock : (calls.filterMap AuthCall.time).Pairwise (· ≤ ·))
    (hstart : ∀ t' ∈ calls.filterMap AuthCall.time, t ≤ t') (h : Standing t s) :
    ∀ t', t ≤ t' → (∀ u ∈ calls.filterMap AuthCall.time, u ≤ t') →
      Standing t' (run step s calls) := by
  induction calls generalizing s t with
  | nil => exact fun t' ht' _ => h.mono ht'
  | cons c calls ih =>
    intro t' ht' hend
    have hc := hfree c List.mem_cons_self
    have hfree' := fun c' hc' => hfree c' (List.mem_cons_of_mem c hc')
    have hgood' := keptInOrder_step hgood hc
    rw [run_cons]
    cases htime : c.time with
    | none =>
      rw [List.filterMap_cons_none htime] at hclock hstart hend
      have hs := standing_step hgood.kept hgood.keys h hc (by rw [htime]; rintro u ⟨⟩)
      rw [htime] at hs
      exact ih hgood' hfree' hclock hstart hs t' ht' hend
    | some u =>
      rw [List.filterMap_cons_some htime] at hclock hstart hend
      obtain ⟨hu, hclock⟩ := List.pairwise_cons.mp hclock
      have hs := standing_step hgood.kept hgood.keys h hc
        (by rw [htime]; rintro u' ⟨⟩; exact hstart u List.mem_cons_self)
      rw [htime] at hs
      exact ih hgood' hfree' hclock hu hs t' (hend u List.mem_cons_self)
        fun v hv => hend v (List.mem_cons_of_mem _ hv)

end TombstoneAuthority

open TombstoneAuthority in
/-- **The authority to delete.** Every tombstone was installed while a body of its key was held whose
publisher signed the kill; and from then on, while the clock does not run back and the committed
death has not passed, no body of the key is delivered. -/
theorem deletion_authority (profile : Profile) (bodyMax : Nat) (calls : List AuthCall)
    (hfree : ∀ c ∈ calls, c.Free) (hlocal : ∀ c ∈ calls, c.Local) :
    let s := run step (create profile bodyMax) calls
    (∀ k r, s.tomb.map.get k = some r → ∃ i ∈ s.installs, i.key = k ∧ i.record = r
        ∧ ∃ body, i.body = some body ∧ body.publisher = some r.signerPubkey)
      ∧ ∀ i ∈ s.installs, ∀ topicId msgId publisher death now,
        ((calls ++ [AuthCall.body topicId msgId publisher death now]).filterMap AuthCall.time).Pairwise
          (· ≤ ·) →
        i.key = authKey topicId msgId → now ≤ i.record.effectiveDeath →
        (s.onBody topicId msgId publisher death now).1 ≠ .delivered := by
  intro s
  have hgood : KeptInOrder profile bodyMax s := keptInOrder_run calls hfree (keptInOrder_create profile bodyMax)
  refine ⟨?_, ?_⟩
  · -- each call is made of moves, and each of them keeps every tombstone earned
    have hearned : ∀ (cs : List AuthCall) (s₀ : TombstoneAuthority), KeptInOrder profile bodyMax s₀ →
        AllEarned s₀ → (∀ c ∈ cs, c.Free) → (∀ c ∈ cs, c.Local) → AllEarned (run step s₀ cs) := by
      intro cs
      induction cs with
      | nil => exact fun _ _ h _ _ => h
      | cons c cs ih =>
        intro s₀ hg he hf hl
        have hc := hf c List.mem_cons_self
        have hmoves := step_moves (c.time.getD 0) hg.keys hc fun t ht => by rw [ht]; rfl
        have hstep : (s₀.step c).InOrder ∧ AllEarned (s₀.step c) :=
          moves_preserve (I := fun s : TombstoneAuthority => s.InOrder ∧ AllEarned s)
            (fun a b hmove h => ⟨kept_move h.1 hmove,
              allEarned_move (hl c List.mem_cons_self) h.1 h.2 hmove⟩) hmoves ⟨hg.kept, he⟩
        exact ih _ (keptInOrder_step hg hc) hstep.2 (fun c' hc' => hf c' (List.mem_cons_of_mem _ hc'))
          fun c' hc' => hl c' (List.mem_cons_of_mem _ hc')
    have hall := hearned calls _ (keptInOrder_create profile bodyMax)
      ⟨by rintro k r ⟨⟩, by rintro i ⟨⟩⟩ hfree hlocal
    intro k r hget
    obtain ⟨i, hi, hkey, hrecord⟩ := hall.installed k r hget
    obtain ⟨body, hbody, hpublisher⟩ := hall.earned i hi
    exact ⟨i, hi, hkey, hrecord, body, hbody, hrecord ▸ hpublisher⟩
  · intro i hi topicId msgId publisher death now hclock hkey hlive
    rw [List.filterMap_append, List.pairwise_append] at hclock
    obtain ⟨hbefore, -, hlast⟩ := hclock
    have hend : ∀ u ∈ calls.filterMap AuthCall.time, u ≤ now := fun u hu =>
      hlast u hu now (by simp [AuthCall.time])
    -- the clock starts before the first call
    obtain ⟨t, ht, hstart⟩ : ∃ t ≤ now, ∀ u ∈ calls.filterMap AuthCall.time, t ≤ u := by
      cases hcalls : calls.filterMap AuthCall.time with
      | nil => exact ⟨now, le_rfl, by rintro u ⟨⟩⟩
      | cons u us =>
        rw [hcalls] at hbefore hend
        refine ⟨u, hend u List.mem_cons_self, fun v hv => ?_⟩
        rcases List.mem_cons.mp hv with rfl | hv'
        · exact le_rfl
        · exact (List.pairwise_cons.mp hbefore).1 v hv'
    have hstanding := standing_run (t := t) calls (keptInOrder_create profile bodyMax) hfree hbefore hstart
      (by rintro i ⟨⟩) now ht hend
    have hget := tomb_move (D := fun _ => False) hgood.kept
      (.reclaimTombs : AuthMove now True (fun _ => False) s _) (hstanding i hi hlive) hlive
    have hdead : (s.reclaimTombs now).isSuppressed topicId msgId now = true := by
      unfold isSuppressed
      rw [← hkey, hget]
      exact decide_eq_true hlive
    unfold onBody
    simp only []
    rw [if_pos hdead]
    rintro ⟨⟩

/-- The killed body comes again before its death. -/
theorem deletion_authority_sample :
    ((run TombstoneAuthority.step (.create relayCaps 8) deletionCalls).onBody ['t'] ['m'] (some ['p'])
      100 50).1 ≠ .delivered :=
  (deletion_authority relayCaps 8 deletionCalls (by decide) (by decide)).2
    ⟨authKey ['t'] ['m'], TombstoneStore.record (authKey ['t'] ['m']) ['p'] [] 100,
      some ⟨some ['p'], 100, 0⟩⟩
    (by decide +kernel) ['t'] ['m'] (some ['p']) 100 50 (by decide +kernel) rfl (by decide)

end Axona
