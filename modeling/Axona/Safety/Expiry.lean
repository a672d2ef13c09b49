import Mathlib.Data.List.TakeWhile
import Axona.Moves.TopicStore

/-! # Expiry of the cache

The scan of `_expireCache` stops at the first young entry. It takes the cache to be in the order of
the stamps; the cache is in the order of arrival. -/

namespace Axona

open Library

namespace Role

variable {r : Role} {now : Int} {e : Entry}

/-- Is the entry older than the time to live? -/
def old (now : Int) (e : Entry) : Bool := now - e.publishTs > ttlMs

/-- Is the entry to go? -/
def lapsed (r : Role) (now : Int) (e : Entry) : Bool := old now e && !r.pinned e.msgId

/-- Index and byte count are those of the cache. -/
structure Booked (r : Role) : Prop where
  ids : r.cacheIds = (r.cache.map (·.msgId)).toFinset
  counted : r.Counted

/-- What expiry is for: every unpinned old entry goes, whatever else is there stays, the books go on
to say what is there, no tombstone past its expiry is active, and after the sweep of the tombstones
only pinned ones are there past theirs. -/
structure ExpiresRight (r : Role) (now : Int) : Prop where
  gone : ∀ e ∈ (r.expireCache now).cache, r.pinned e.msgId = false → old now e = false
  kept : (r.cache.filter fun e => r.pinned e.msgId || !old now e).Sublist (r.expireCache now).cache
  booked : r.Booked → (r.expireCache now).Booked
  active : ∀ id t, (r.expireCache now).tombstones.get id = some t → t.exp ≤ now →
    ∀ d ∈ (r.expireCache now).activeDels now, d.msgId ≠ id
  swept : ∀ id t, ((r.expireTombstones now).expireCache now).tombstones.get id = some t →
    t.exp ≤ now → r.pinned id = true

/-- No unpinned old entry stands behind a young one, and none that is to go has the id of one that
is to stay, as far as the books are right. -/
structure OldFirst (r : Role) (now : Int) : Prop where
  order : r.cache.Pairwise fun e e' => r.lapsed now e' = true → old now e = true
  ids : r.Booked → ∀ e ∈ r.cache, ∀ e' ∈ r.cache, r.lapsed now e = true → r.lapsed now e' = false →
    e.msgId ≠ e'.msgId

theorem cache_expireCache (r : Role) (now : Int) : (r.expireCache now).cache
    = (r.cache.takeWhile (old now)).filter (fun e => r.pinned e.msgId)
      ++ r.cache.dropWhile (old now) := rfl

theorem old_of_mem_takeWhile (h : e ∈ r.cache.takeWhile (old now)) : old now e = true :=
  List.mem_takeWhile_imp h

/-- What is pinned or young stays in any case. -/
theorem kept_expireCache (r : Role) (now : Int) :
    (r.cache.filter fun e => r.pinned e.msgId || !old now e).Sublist (r.expireCache now).cache := by
  rw [cache_expireCache]
  conv_lhs => rw [← List.takeWhile_append_dropWhile (p := old now) (l := r.cache)]
  rw [List.filter_append]
  apply List.Sublist.append
  · have hold : (r.cache.takeWhile (old now)).filter (fun e => r.pinned e.msgId || !old now e)
        = (r.cache.takeWhile (old now)).filter fun e => r.pinned e.msgId := by
      apply List.filter_congr
      intro e he
      simp [old_of_mem_takeWhile he]
    rw [hold]
  · exact List.filter_sublist

/-- The first entry that is left of the scan is young. -/
theorem head_dropWhile_young {rest : List Entry} (h : r.cache.dropWhile (old now) = e :: rest) :
    old now e = false := by
  have hne : r.cache.dropWhile (old now) ≠ [] := by simp [h]
  have hhead := List.head_dropWhile_not (old now) hne
  simpa [h] using hhead

/-- The scan reaches every unpinned old entry exactly when each stands behind old ones only. -/
theorem gone_iff_order : (∀ e ∈ (r.expireCache now).cache, r.pinned e.msgId = false →
      old now e = false)
    ↔ r.cache.Pairwise fun e e' => r.lapsed now e' = true → old now e = true := by
  have hsplit := List.takeWhile_append_dropWhile (p := old now) (l := r.cache)
  rw [cache_expireCache]
  constructor
  · intro h
    rw [← hsplit, List.pairwise_append]
    have hrest : ∀ e ∈ r.cache.dropWhile (old now), r.lapsed now e = false := by
      intro e he
      cases hp : r.pinned e.msgId with
      | true => simp [lapsed, hp]
      | false => simp [lapsed, h e (List.mem_append_right _ he) hp]
    refine ⟨?_, ?_, ?_⟩
    · exact List.pairwise_of_forall_mem_list fun e he _ _ _ => old_of_mem_takeWhile he
    · exact List.pairwise_of_forall_mem_list fun e _ e' he' h' => by simp [hrest e' he'] at h'
    · exact fun e he _ _ _ => old_of_mem_takeWhile he
  · intro h e he hp
    rcases List.mem_append.mp he with he | he
    · simp [hp] at he
    rw [← hsplit, List.pairwise_append] at h
    cases hdrop : r.cache.dropWhile (old now) with
    | nil => simp [hdrop] at he
    | cons y rest =>
      have hyoung := head_dropWhile_young hdrop
      have hpair := h.2.1
      rw [hdrop] at he hpair
      rcases List.mem_cons.mp he with rfl | he
      · exact hyoung
      -- an old one behind the young one at the head
      by_contra hold
      have hlapsed : r.lapsed now e = true := by simpa [lapsed, hp] using hold
      have hy := (List.pairwise_cons.mp hpair).1 e he hlapsed
      exact absurd (hyoung.symm.trans hy) Bool.false_ne_true

/-- An entry goes, or it stays. -/
theorem mem_gone_or_kept (h : e ∈ r.cache) :
    e ∈ (r.cache.takeWhile (old now)).filter (fun e => !r.pinned e.msgId)
      ∨ e ∈ (r.expireCache now).cache := by
  rw [cache_expireCache]
  rw [← List.takeWhile_append_dropWhile (p := old now) (l := r.cache)] at h
  rcases List.mem_append.mp h with h | h
  · cases hp : r.pinned e.msgId with
    | true => exact .inr (List.mem_append_left _ (List.mem_filter.mpr ⟨h, hp⟩))
    | false => exact .inl (List.mem_filter.mpr ⟨h, by simp [hp]⟩)
  · exact .inr (List.mem_append_right _ h)

theorem mem_cacheIds_expireCache {id : MsgId} : id ∈ (r.expireCache now).cacheIds ↔ id ∈ r.cacheIds
    ∧ ∀ e ∈ (r.cache.takeWhile (old now)).filter (fun e => !r.pinned e.msgId), e.msgId ≠ id := by
  change id ∈ r.cacheIds \ _ ↔ _
  rw [Finset.mem_sdiff, List.mem_toFinset, List.mem_map]
  exact and_congr_right fun _ => by
    push Not
    exact Iff.rfl

/-- As far as the scan goes, the books stay right exactly when no entry that goes has the id of one
that stays. -/
theorem booked_iff_ids (hb : r.Booked)
    (hgone : ∀ e ∈ (r.expireCache now).cache, r.pinned e.msgId = false → old now e = false) :
    (r.expireCache now).Booked ↔ ∀ e ∈ r.cache, ∀ e' ∈ r.cache, r.lapsed now e = true →
      r.lapsed now e' = false → e.msgId ≠ e'.msgId := by
  have hlapsed : ∀ e ∈ (r.cache.takeWhile (old now)).filter (fun e => !r.pinned e.msgId),
      r.lapsed now e = true ∧ e ∈ r.cache := by
    intro e he
    obtain ⟨he, hp⟩ := List.mem_filter.mp he
    refine ⟨?_, (List.takeWhile_sublist _).subset he⟩
    rw [lapsed, old_of_mem_takeWhile he, hp]
    rfl
  have hkept : ∀ e ∈ (r.expireCache now).cache, r.lapsed now e = false ∧ e ∈ r.cache := by
    intro e he
    refine ⟨?_, (expireCache_shrink (C := fun _ _ _ => True) r now).cache.subset he⟩
    cases hp : r.pinned e.msgId with
    | true => simp [lapsed, hp]
    | false => simp [lapsed, hgone e he hp]
  constructor
  · intro hb' e he e' he' hl hl' heq
    have hstays : e' ∈ (r.expireCache now).cache := by
      rcases mem_gone_or_kept he' with hg | hk
      · exact absurd ((hlapsed e' hg).1.symm.trans hl') (by simp)
      · exact hk
    have hgoes : e ∈ (r.cache.takeWhile (old now)).filter (fun e => !r.pinned e.msgId) := by
      rcases mem_gone_or_kept he with hg | hk
      · exact hg
      · exact absurd ((hkept e hk).1.symm.trans hl) (by simp)
    have hid : e'.msgId ∈ (r.expireCache now).cacheIds := by
      rw [hb'.ids, List.mem_toFinset]
      exact List.mem_map_of_mem hstays
    exact (mem_cacheIds_expireCache.mp hid).2 e hgoes heq
  · intro hids
    refine ⟨?_, (expireCache_shrink (C := fun _ _ _ => True) r now).counted hb.counted⟩
    ext id
    rw [mem_cacheIds_expireCache, hb.ids, List.mem_toFinset, List.mem_toFinset, List.mem_map,
      List.mem_map]
    constructor
    · rintro ⟨⟨e, he, rfl⟩, hnone⟩
      rcases mem_gone_or_kept he with hg | hk
      · exact absurd rfl (hnone e hg)
      · exact ⟨e, hk, rfl⟩
    · rintro ⟨e, he, rfl⟩
      obtain ⟨hl, hmem⟩ := hkept e he
      refine ⟨⟨e, hmem, rfl⟩, fun e' he' => ?_⟩
      obtain ⟨hl', hmem'⟩ := hlapsed e' he'
      exact hids e' hmem' e hmem hl' hl

theorem activeDels_unexpired (r : Role) (now : Int) {id : MsgId} {t : Tombstone}
    (ht : r.tombstones.get id = some t) (hexp : t.exp ≤ now) :
    ∀ d ∈ r.activeDels now, d.msgId ≠ id := by
  rintro d hd rfl
  obtain ⟨⟨id', t'⟩, hmem, rfl⟩ := List.mem_map.mp hd
  obtain ⟨hmem, hlt⟩ := List.mem_filter.mp hmem
  have hget := OrderedMap.get_of_mem hmem
  cases ht.symm.trans hget
  simp at hlt
  omega

theorem swept_expireTombstones {id : MsgId} {t : Tombstone}
    (ht : ((r.expireTombstones now).expireCache now).tombstones.get id = some t)
    (hexp : t.exp ≤ now) : r.pinned id = true := by
  change (r.tombstones.filter _).get id = some t at ht
  rw [OrderedMap.get_filter_some] at ht
  simpa [hexp] using ht.2

/-- **Expiry is complete and exact** exactly when no unpinned old entry stands behind a young one
and none that goes has the id of one that stays. -/
theorem expiresRight_iff (r : Role) (now : Int) : r.ExpiresRight now ↔ r.OldFirst now := by
  constructor
  · intro h
    exact ⟨gone_iff_order.mp h.gone, fun hb => (booked_iff_ids hb h.gone).mp (h.booked hb)⟩
  · intro h
    have hgone := gone_iff_order.mpr h.order
    refine ⟨hgone, kept_expireCache r now, fun hb => (booked_iff_ids hb hgone).mpr (h.ids hb),
      ?_, ?_⟩
    · exact fun id t ht hexp => activeDels_unexpired _ now ht hexp
    · exact fun id t ht hexp => swept_expireTombstones ht hexp

/-- An old body. -/
def sampleOld : Entry := ⟨['o'], 0, ⟨0, none⟩, none⟩

/-- A new body arrived, and an old one after it. -/
def sampleCache : Role :=
  ((makeRole 0 true 0).append ⟨['y'], ttlMs, ⟨0, none⟩, none⟩).append sampleOld

theorem old_stays : ¬ sampleCache.ExpiresRight (ttlMs + 1) := by
  intro h
  have hyoung := h.gone sampleOld (by decide) (by decide)
  revert hyoung
  decide

end Role

end Axona
