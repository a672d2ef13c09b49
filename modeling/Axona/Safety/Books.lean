import Mathlib.Data.List.TakeWhile
import Axona.Library.Transition
import Axona.Pubsub.TombstoneAuth

/-! # The books of the tombstone authority

Two stores bound the deletions a node holds, and refuse what they have no room for. Beside its
entries each keeps books: how many there are, how many bytes, how many of each signer and of each
topic. Here: every operation of a store keeps its books what a recount of the entries would say,
and every bound unexceeded. -/

namespace Axona

open Library OrderedMap

/-! ### Keys -/

/-- An id without the separator. -/
def Free (t : Text) : Prop := '|' ∉ t

instance (t : Text) : Decidable (Free t) := by
  unfold Free
  infer_instance

theorem Free.all {t : Text} (h : Free t) : ∀ c ∈ t, decide (c ≠ '|') = true := by
  intro c hc
  simpa using ne_of_mem_of_not_mem hc h

theorem takeWhile_free {t : Text} (h : Free t) (rest : Text) :
    (t ++ '|' :: rest).takeWhile (· ≠ '|') = t := by
  rw [List.takeWhile_append_of_pos h.all]
  simp

theorem dropWhile_free {t : Text} (h : Free t) (rest : Text) :
    (t ++ '|' :: rest).dropWhile (· ≠ '|') = '|' :: rest := by
  rw [List.dropWhile_append_of_pos h.all]
  simp

theorem topicOf_authKey {t : Text} (h : Free t) (m : Text) : topicOf (authKey t m) = t := by
  unfold topicOf authKey
  rw [if_pos (by simp), takeWhile_free h]

theorem splitKey_authKey {t m : Text} (ht : Free t) (hm : Free m) :
    splitKey (authKey t m) = (t, m) := by
  have hall : m.takeWhile (· ≠ '|') = m := by
    rw [List.takeWhile_eq_self_iff]
    intro c hc
    have hne : c ≠ '|' := fun h => hm (h ▸ hc)
    simpa using hne
  unfold splitKey authKey
  rw [takeWhile_free ht, dropWhile_free ht, List.tail_cons, hall]

/-! ### The books of the candidates -/

/-- What the books say of a candidate. -/
def candItem (k : Text) (c : KillCandidate) : Booked Text Text :=
  ⟨c.signer, topicOf k, candBytesOf k c.signer c.killBytes⟩

/-- The candidates of a table, recounted. -/
def candItems (es : List (Text × List KillCandidate)) : List (Booked Text Text) :=
  es.flatMap fun e => e.2.map (candItem e.1)

/-- The candidate was counted with its size. -/
def Sized (k : Text) (c : KillCandidate) : Prop := c.bytes = candBytesOf k c.signer c.killBytes

namespace CandidateStore

variable {s : CandidateStore} {k signer : Text} {now : Int}

/-- The books of the store say of the items what a recount would. -/
structure Books (s : CandidateStore) (l : List (Booked Text Text)) : Prop where
  total : s.total = l.length
  balanced : Balanced s.bytes s.perSigner s.perTopic l

/-- **The store is in order**: its books are right, its bounds are kept, and every candidate was
counted with its size, which is not above the bound of a record. -/
structure InOrder (s : CandidateStore) : Prop where
  books : s.Books (candItems s.map.entries)
  within : Within s.caps (candItems s.map.entries)
  sized : ∀ k, ∀ c ∈ s.get k, Sized k c ∧ c.bytes ≤ s.recordMax

variable {l : List (Booked Text Text)}

theorem Books.perm {l' : List (Booked Text Text)} (h : s.Books l) (hp : l.Perm l') : s.Books l' :=
  ⟨h.total.trans (by rw [hp.length_eq]), h.balanced.perm hp⟩

theorem Books.uncount {c : KillCandidate} (hc : Sized k c) (h : s.Books (candItem k c :: l)) :
    (s.uncount k c).Books l := by
  refine ⟨?_, ?_⟩
  · show s.total - 1 = _
    rw [h.total, List.length_cons]
    push_cast
    omega
  · have hdrop := h.balanced.drop
    show Balanced (s.bytes - c.bytes) (s.perSigner.dec c.signer) (s.perTopic.dec (topicOf k)) l
    rw [hc]
    exact hdrop

/-- What `uncount` leaves alone. -/
theorem foldl_uncount_frame (cs : List KillCandidate) :
    (cs.foldl (fun s c => s.uncount k c) s).map = s.map
      ∧ (cs.foldl (fun s c => s.uncount k c) s).caps = s.caps
      ∧ (cs.foldl (fun s c => s.uncount k c) s).recordMax = s.recordMax := by
  induction cs generalizing s with
  | nil => exact ⟨rfl, rfl, rfl⟩
  | cons c cs ih => exact ih

theorem Books.foldl_uncount {cs : List KillCandidate} (hc : ∀ c ∈ cs, Sized k c)
    (h : s.Books (cs.map (candItem k) ++ l)) :
    (cs.foldl (fun s c => s.uncount k c) s).Books l := by
  induction cs generalizing s with
  | nil => exact h
  | cons c cs ih =>
    rw [List.foldl_cons]
    refine ih (fun c' hc' => hc c' (List.mem_cons_of_mem _ hc')) ?_
    rw [List.map_cons, List.cons_append] at h
    exact h.uncount (hc c List.mem_cons_self)

/-- The candidates of one key, and the others. -/
theorem candItems_perm (m : OrderedMap Text (List KillCandidate)) (k : Text) :
    (candItems m.entries).Perm
      (((m.get k).getD []).map (candItem k) ++ candItems (m.delete k).entries) := by
  cases h : m.get k with
  | none => rw [delete_of_get_none h]; exact .refl _
  | some list => exact (entries_perm_of_get h).flatMap_right _

theorem candItems_set_perm (m : OrderedMap Text (List KillCandidate)) (k : Text)
    (list : List KillCandidate) : (candItems (m.set k list).entries).Perm
      (list.map (candItem k) ++ candItems (m.delete k).entries) :=
  (entries_set_perm m k list).flatMap_right _

/-- The table of the store once the list under `k` is written, or deleted when it is empty. -/
def putList (m : OrderedMap Text (List KillCandidate)) (k : Text) (list : List KillCandidate) :
    OrderedMap Text (List KillCandidate) :=
  if list = [] then m.delete k else m.set k list

theorem candItems_putList_perm (m : OrderedMap Text (List KillCandidate)) (k : Text)
    (list : List KillCandidate) : (candItems (putList m k list).entries).Perm
      (list.map (candItem k) ++ candItems (m.delete k).entries) := by
  unfold putList
  split
  next h =>
    rw [h]
    exact .refl _
  · exact candItems_set_perm m k list

theorem get_putList (m : OrderedMap Text (List KillCandidate)) (k j : Text)
    (list : List KillCandidate) :
    ((putList m k list).get j).getD [] = if j = k then list else (m.get j).getD [] := by
  unfold putList
  split
  next h =>
    rw [get_delete]
    by_cases hj : j = k
    · rw [if_pos hj, if_pos hj, h]
      rfl
    · rw [if_neg hj, if_neg hj]
  · rw [get_set]
    by_cases hj : j = k
    · rw [if_pos hj, if_pos hj]
      rfl
    · rw [if_neg hj, if_neg hj]

/-- **Candidates of one key go.** The list under the key is split into those that go and those
that stay. -/
theorem InOrder.drop (h : s.InOrder) (dead live : List KillCandidate)
    (hsplit : (s.get k).Perm (dead ++ live)) :
    ({ dead.foldl (fun s c => s.uncount k c) s with map := putList s.map k live } :
      CandidateStore).InOrder := by
  obtain ⟨-, hcaps, hrecord⟩ := foldl_uncount_frame (s := s) (k := k) dead
  have hold : (candItems s.map.entries).Perm
      (dead.map (candItem k) ++ (live.map (candItem k) ++ candItems (s.map.delete k).entries)) := by
    refine (candItems_perm s.map k).trans ?_
    rw [← List.append_assoc, ← List.map_append]
    exact (hsplit.map _).append_right _
  have hnew := candItems_putList_perm s.map k live
  refine ⟨?_, ?_, ?_⟩
  · have hsized : ∀ c ∈ dead, Sized k c := fun c hc =>
      (h.sized k c (hsplit.mem_iff.mpr (List.mem_append_left _ hc))).1
    have hbooks := (h.books.perm hold).foldl_uncount hsized
    exact ⟨hbooks.total.trans (by rw [hnew.length_eq]), hbooks.balanced.perm hnew.symm⟩
  · rw [hcaps]
    refine h.within.anti ?_
    exact hnew.subperm.trans ((List.sublist_append_right _ _).subperm.trans hold.symm.subperm)
  · intro j c hc
    rw [hrecord]
    have hc' : c ∈ ((putList s.map k live).get j).getD [] := hc
    rw [get_putList] at hc'
    by_cases hj : j = k
    · rw [if_pos hj] at hc'
      rw [hj]
      exact h.sized k c (hsplit.mem_iff.mpr (List.mem_append_right _ hc'))
    · rw [if_neg hj] at hc'
      exact h.sized j c hc'

/-- What a reclaim does to a key. -/
theorem reclaimKey_eq (s : CandidateStore) (k : Text) (now : Int) : reclaimKey now s k =
      { ((s.get k).reverse.filter fun c => decide (c.claimRet < now)).foldl
          (fun s c => s.uncount k c) s with
        map := putList s.map k ((s.get k).filter fun c => decide (now ≤ c.claimRet)) } := by
  obtain ⟨hmap, -, -⟩ := foldl_uncount_frame (s := s) (k := k)
    ((s.get k).reverse.filter fun c => decide (c.claimRet < now))
  unfold reclaimKey putList
  simp only []
  rw [hmap]

theorem InOrder.reclaimKey (h : s.InOrder) (k : Text) (now : Int) : (reclaimKey now s k).InOrder := by
  rw [reclaimKey_eq]
  refine h.drop _ _ ?_
  have hlive : (s.get k).filter (fun c => decide (now ≤ c.claimRet))
      = (s.get k).filter (fun c => !decide (c.claimRet < now)) := by
    refine List.filter_congr fun c _ => ?_
    by_cases hc : c.claimRet < now
    · rw [decide_eq_false (not_le.mpr hc), decide_eq_true hc]
      rfl
    · rw [decide_eq_true (not_lt.mp hc), decide_eq_false hc]
      rfl
  rw [hlive]
  refine ((List.filter_append_perm (fun c => decide (c.claimRet < now)) (s.get k)).symm).trans ?_
  exact ((List.reverse_perm _).filter _).symm.append_right _

theorem InOrder.reclaimExpired (h : s.InOrder) (now : Int) : (s.reclaimExpired now).InOrder := by
  unfold CandidateStore.reclaimExpired
  generalize s.map.keys = ks
  induction ks generalizing s with
  | nil => exact h
  | cons k ks ih => exact ih (h.reclaimKey k now)

theorem forall₂_mem_right {α β : Type*} {R : α → β → Prop} {as : List α} {bs : List β}
    (h : List.Forall₂ R as bs) {b : β} (hb : b ∈ bs) : ∃ a ∈ as, R a b := by
  induction h with
  | nil => cases hb
  | cons hab _ ih =>
    rcases List.mem_cons.mp hb with rfl | hb'
    · exact ⟨_, List.mem_cons_self, hab⟩
    · obtain ⟨a, ha, hR⟩ := ih hb'
      exact ⟨a, List.mem_cons_of_mem _ ha, hR⟩

theorem forall₂_mem_left {α β : Type*} {R : α → β → Prop} {as : List α} {bs : List β}
    (h : List.Forall₂ R as bs) {a : α} (ha : a ∈ as) : ∃ b ∈ bs, R a b := by
  obtain ⟨b, hb, hR⟩ := forall₂_mem_right h.flip ha
  exact ⟨b, hb, hR⟩

/-- The same kill, whatever it waits for. -/
structure SameKill (c c' : KillCandidate) : Prop where
  signer : c'.signer = c.signer
  killBytes : c'.killBytes = c.killBytes
  claimRet : c'.claimRet = c.claimRet
  bytes : c'.bytes = c.bytes

theorem SameKill.refl (c : KillCandidate) : SameKill c c := ⟨rfl, rfl, rfl, rfl⟩

theorem SameKill.trans {c c' c'' : KillCandidate} (h : SameKill c c') (h' : SameKill c' c'') :
    SameKill c c'' :=
  ⟨h'.signer.trans h.signer, h'.killBytes.trans h.killBytes, h'.claimRet.trans h.claimRet,
    h'.bytes.trans h.bytes⟩

theorem SameKill.candItem {c c' : KillCandidate} (h : SameKill c c') (k : Text) :
    candItem k c' = candItem k c := by
  unfold Axona.candItem
  rw [h.signer, h.killBytes]

theorem SameKill.sized {c c' : KillCandidate} (h : SameKill c c') {k : Text} (hc : Sized k c) :
    Sized k c' := by
  unfold Sized at hc ⊢
  rw [h.bytes, h.signer, h.killBytes, hc]

/-- **Candidates of one key are tagged anew.** -/
theorem InOrder.retag {list list' : List KillCandidate} (h : s.InOrder) (hget : s.map.get k = some list)
    (hsame : List.Forall₂ SameKill list list') :
    ({ s with map := s.map.set k list' } : CandidateStore).InOrder := by
  have hitems : list'.map (candItem k) = list.map (candItem k) := by
    clear hget
    induction hsame with
    | nil => rfl
    | cons hc _ ih => rw [List.map_cons, List.map_cons, hc.candItem, ih]
  have hperm : (candItems (s.map.set k list').entries).Perm (candItems s.map.entries) := by
    refine (candItems_set_perm s.map k list').trans ?_
    have hold := candItems_perm s.map k
    rw [hget, Option.getD_some] at hold
    rw [hitems]
    exact hold.symm
  refine ⟨⟨h.books.total.trans (by rw [hperm.length_eq]), h.books.balanced.perm hperm.symm⟩,
    h.within.anti hperm.subperm, ?_⟩
  intro j c hc
  have hc' : c ∈ ((s.map.set k list').get j).getD [] := hc
  rw [get_set] at hc'
  by_cases hj : j = k
  · rw [if_pos hj, Option.getD_some] at hc'
    obtain ⟨c₀, hc₀, hs⟩ := forall₂_mem_right hsame hc'
    have hsized := h.sized k c₀ (by rw [CandidateStore.get, hget]; exact hc₀)
    rw [hj]
    exact ⟨hs.sized hsized.1, hs.bytes.symm ▸ hsized.2⟩
  · rw [if_neg hj] at hc'
    exact h.sized j c hc'

theorem tagFirst_same (signer : Text) (tag : CandTag) (at' : Option Int)
    (list : List KillCandidate) : List.Forall₂ SameKill list (tagFirst signer tag at' list) := by
  induction list with
  | nil => exact .nil
  | cons c cs ih =>
    unfold tagFirst
    split
    · exact .cons ⟨rfl, rfl, rfl, rfl⟩ (List.forall₂_same.mpr fun c _ => .refl c)
    · exact .cons (.refl c) ih

theorem InOrder.setTag (h : s.InOrder) (k signer : Text) (tag : CandTag) (at' : Option Int) :
    (s.setTag k signer tag at').InOrder := by
  unfold CandidateStore.setTag
  split
  · exact h
  next list hget => exact h.retag hget (tagFirst_same signer tag at' list)

theorem InOrder.demoteKey (h : s.InOrder) (k : Text) : (s.demoteKey k).InOrder := by
  unfold CandidateStore.demoteKey
  split
  · exact h
  next list hget =>
  refine h.retag hget ?_
  rw [List.forall₂_map_right_iff]
  exact List.forall₂_same.mpr fun c _ => ⟨rfl, rfl, rfl, rfl⟩

/-- **A candidate comes.** -/
theorem InOrder.admitCand (h : s.InOrder) (k signer killBytes : Text) (now : Int) (tag : CandTag)
    (at' : Option Int) : (s.admitCand k signer killBytes now tag at').2.InOrder := by
  have h' := h.reclaimExpired now
  unfold CandidateStore.admitCand
  simp only []
  generalize s.reclaimExpired now = s₁ at h' ⊢
  split
  · exact h'
  split
  · exact h'
  next hrecord =>
  split
  · exact h'
  next hcount =>
  split
  · exact h'
  next hsize =>
  split
  · exact h'
  next howner =>
  split
  · exact h'
  next hgroup =>
  set c : KillCandidate :=
    ⟨signer, killBytes, tag, at', claimRetention now, candBytesOf k signer killBytes⟩ with hc
  have hperm : (candItem k c :: candItems s₁.map.entries).Perm
      (candItems (s₁.map.set k (s₁.get k ++ [c])).entries) := by
    refine .trans ?_ (candItems_set_perm s₁.map k _).symm
    rw [List.map_append]
    refine ((candItems_perm s₁.map k).cons (candItem k c)).trans ?_
    rw [← List.cons_append]
    exact (List.perm_append_singleton _ _).symm.append_right _
  have hsum := h'.books.balanced.size
  have hsigner := h'.books.balanced.owners.count_eq signer
  have htopic := h'.books.balanced.groups.count_eq (topicOf k)
  have htotal := h'.books.total
  refine ⟨⟨?_, (h'.books.balanced.add (x := candItem k c)).perm hperm⟩,
    (h'.within.add (x := candItem k c) ?_ ?_ ?_ ?_).anti hperm.symm.subperm, ?_⟩
  · rw [← hperm.length_eq, htotal, List.length_cons]
    push_cast
    rfl
  · omega
  · show _ + candBytesOf k signer killBytes ≤ s₁.caps.size
    omega
  · have heq : (candItem k c).owner = signer := rfl
    rw [heq]
    omega
  · have heq : (candItem k c).group = topicOf k := rfl
    rw [heq]
    omega
  · intro j c' hc'
    have hmem : c' ∈ ((s₁.map.set k (s₁.get k ++ [c])).get j).getD [] := hc'
    rw [get_set] at hmem
    by_cases hj : j = k
    · rw [if_pos hj, Option.getD_some] at hmem
      rw [hj]
      rcases List.mem_append.mp hmem with hold | hnew
      · exact h'.sized k c' hold
      rw [List.mem_singleton] at hnew
      rw [hnew]
      exact ⟨rfl, not_lt.mp hrecord⟩
    · rw [if_neg hj] at hmem
      exact h'.sized j c' hmem

theorem InOrder.purge (h : s.InOrder) (k : Text) : (s.purge k).2.InOrder := by
  unfold CandidateStore.purge
  split
  · exact h
  next list hget =>
  have hlist : s.get k = list := by rw [CandidateStore.get, hget, Option.getD_some]
  obtain ⟨hmap, -, -⟩ := foldl_uncount_frame (s := s) (k := k) list
  have hdrop := h.drop list [] (by rw [hlist, List.append_nil])
  rw [putList, if_pos rfl] at hdrop
  show ({ list.foldl (fun s c => s.uncount k c) s with
    map := (list.foldl (fun s c => s.uncount k c) s).map.delete k } : CandidateStore).InOrder
  rw [hmap]
  exact hdrop

end CandidateStore

/-! ### The books of the tombstones -/

/-- What the books say of a tombstone. -/
def tombItem (k : Text) (r : AuthTombstone) : Booked Text Text :=
  ⟨r.signerPubkey, topicOf k, tombBytesOf k r.signerPubkey r.killBytes r.effectiveDeath⟩

/-- The tombstones of a table, recounted. -/
def tombItems (es : List (Text × AuthTombstone)) : List (Booked Text Text) :=
  es.map fun e => tombItem e.1 e.2

namespace TombstoneStore

variable {s : TombstoneStore} {k : Text} {r : AuthTombstone} {now : Int}

/-- The store is in order, the earliest death apart. -/
structure Accounted (s : TombstoneStore) : Prop where
  books : Balanced s.bytes s.perSigner s.perTopic (tombItems s.map.entries)
  within : Within s.caps (tombItems s.map.entries)
  sized : ∀ k r, s.map.get k = some r →
    r.bytes = tombBytesOf k r.signerPubkey r.killBytes r.effectiveDeath ∧ r.bytes ≤ s.recordMax

/-- **The store is in order**: its books are right, its bounds are kept, every tombstone was counted
with its size, and none dies before the earliest death on record. -/
structure InOrder (s : TombstoneStore) : Prop extends s.Accounted where
  minDeath : ∀ k r, s.map.get k = some r → ∃ m ∈ s.minDeath, m ≤ r.effectiveDeath

theorem Accounted.drop (h : s.Accounted) (hget : s.map.get k = some r) : (s.drop k r).Accounted := by
  have hperm : (tombItems s.map.entries).Perm
      (tombItem k r :: tombItems (s.map.delete k).entries) :=
    (entries_perm_of_get hget).map _
  refine ⟨?_, ?_, ?_⟩
  · have hdrop := (h.books.perm hperm).drop
    show Balanced (s.bytes - r.bytes) (s.perSigner.dec r.signerPubkey)
      (s.perTopic.dec (topicOf k)) (tombItems (s.map.delete k).entries)
    rw [(h.sized k r hget).1]
    exact hdrop
  · exact h.within.anti ((List.sublist_cons_self _ _).subperm.trans hperm.symm.subperm)
  · intro j r' hj
    have hj' : (s.map.delete k).get j = some r' := hj
    exact h.sized j r' (of_get_delete hj')

theorem exists_le_of_earlier {d : Int} {min : Option Int} (h : earlier d min = false) :
    ∃ m ∈ min, m ≤ d := by
  cases min with
  | none => simp [earlier] at h
  | some m => exact ⟨m, rfl, by simpa [earlier] using h⟩

theorem le_of_earlier {d m : Int} {min : Option Int} (h : earlier d min = true) (hm : m ∈ min) :
    d ≤ m := by
  rw [Option.mem_def] at hm
  subst hm
  have hlt : d < m := by simpa [earlier] using h
  exact hlt.le

/-- **The rounds of a reclaim.** Each entry is visited once: one whose death has passed goes, and
the earliest death of the others is remembered. -/
theorem foldl_reclaimRound (now : Int) (es : List (Text × AuthTombstone)) (min : Option Int)
    (hnodup : (es.map Prod.fst).Nodup) (hin : ∀ e ∈ es, s.map.get e.1 = some e.2) (h : s.Accounted) :
    let t := es.foldl (reclaimRound now) (s, min)
    t.1.Accounted ∧ t.1.caps = s.caps ∧ t.1.recordMax = s.recordMax
      ∧ (∀ k, t.1.map.get k =
          if k ∈ es.map Prod.fst then (s.map.get k).filter
            (fun r => decide (now ≤ r.effectiveDeath))
          else s.map.get k)
      ∧ (∀ e ∈ es, now ≤ e.2.effectiveDeath → ∃ m ∈ t.2, m ≤ e.2.effectiveDeath)
      ∧ ∀ m ∈ min, ∃ m' ∈ t.2, m' ≤ m := by
  induction es generalizing s min with
  | nil =>
    refine ⟨h, rfl, rfl, fun k => rfl, ?_, fun m hm => ⟨m, hm, le_rfl⟩⟩
    intro e he
    cases he
  | cons e es ih =>
    obtain ⟨hnew, hnodup⟩ := List.nodup_cons.mp hnodup
    have hget := hin e List.mem_cons_self
    have hrest : ∀ e' ∈ es, e'.1 ≠ e.1 := fun e' he' heq =>
      hnew (List.mem_map.mpr ⟨e', he', heq⟩)
    have hfilter : ∀ k, k ∉ es.map Prod.fst → k ≠ e.1 → k ∉ (e :: es).map Prod.fst := by
      intro k hk hne hmem
      rcases List.mem_cons.mp hmem with h | h
      · exact hne h
      · exact hk h
    have hself : e.1 ∈ (e :: es).map Prod.fst := List.mem_cons_self
    have hlater : ∀ k ∈ es.map Prod.fst, k ∈ (e :: es).map Prod.fst := fun k hk =>
      List.mem_cons_of_mem _ hk
    rw [List.foldl_cons]
    by_cases hdead : e.2.effectiveDeath < now
    · -- the entry goes
      have hround : reclaimRound now (s, min) e = (s.drop e.1 e.2, min) := if_pos hdead
      rw [hround]
      have hsub : ∀ e' ∈ es, (s.drop e.1 e.2).map.get e'.1 = some e'.2 := by
        intro e' he'
        show (s.map.delete e.1).get e'.1 = _
        rw [get_delete, if_neg (hrest e' he')]
        exact hin e' (List.mem_cons_of_mem _ he')
      obtain ⟨hsound, hcaps, hrecord, hmap, hmin, hle⟩ := ih min hnodup hsub (h.drop hget)
      refine ⟨hsound, hcaps, hrecord, fun k => ?_, ?_, hle⟩
      · rw [hmap k]
        have hdel : (s.drop e.1 e.2).map.get k = if k = e.1 then none else s.map.get k :=
          get_delete ..
        by_cases hk : k = e.1
        · subst hk
          rw [if_neg hnew, hdel, if_pos rfl, if_pos hself, hget, Option.filter_some,
            if_neg (by simpa using hdead)]
        · rw [hdel, if_neg hk]
          by_cases hmem : k ∈ es.map Prod.fst
          · rw [if_pos hmem, if_pos (hlater k hmem)]
          · rw [if_neg hmem, if_neg (hfilter k hmem hk)]
      · intro e' he' halive
        rcases List.mem_cons.mp he' with rfl | he'
        · omega
        · exact hmin e' he' halive
    · -- the entry stays
      have hsub : ∀ e' ∈ es, s.map.get e'.1 = some e'.2 := fun e' he' =>
        hin e' (List.mem_cons_of_mem _ he')
      have hkeep : ∀ k, (if k ∈ es.map Prod.fst then
            (s.map.get k).filter (fun r => decide (now ≤ r.effectiveDeath)) else s.map.get k)
          = if k ∈ (e :: es).map Prod.fst then
            (s.map.get k).filter (fun r => decide (now ≤ r.effectiveDeath)) else s.map.get k := by
        intro k
        by_cases hk : k = e.1
        · subst hk
          rw [if_neg hnew, if_pos hself, hget, Option.filter_some, if_pos (by simpa using hdead)]
        · by_cases hmem : k ∈ es.map Prod.fst
          · rw [if_pos hmem, if_pos (hlater k hmem)]
          · rw [if_neg hmem, if_neg (hfilter k hmem hk)]
      by_cases hearlier : earlier e.2.effectiveDeath min = true
      · have hround : reclaimRound now (s, min) e = (s, some e.2.effectiveDeath) :=
          (if_neg hdead).trans (if_pos hearlier)
        rw [hround]
        obtain ⟨hsound, hcaps, hrecord, hmap, hmin, hle⟩ :=
          ih (some e.2.effectiveDeath) hnodup hsub h
        refine ⟨hsound, hcaps, hrecord, fun k => (hmap k).trans (hkeep k), ?_, ?_⟩
        · intro e' he' halive
          rcases List.mem_cons.mp he' with rfl | he'
          · exact hle _ rfl
          · exact hmin e' he' halive
        · intro m hm
          obtain ⟨m', hm', hle'⟩ := hle _ rfl
          exact ⟨m', hm', hle'.trans (le_of_earlier hearlier hm)⟩
      · have hround : reclaimRound now (s, min) e = (s, min) :=
          (if_neg hdead).trans (if_neg hearlier)
        rw [hround]
        obtain ⟨hsound, hcaps, hrecord, hmap, hmin, hle⟩ := ih min hnodup hsub h
        refine ⟨hsound, hcaps, hrecord, fun k => (hmap k).trans (hkeep k), ?_, hle⟩
        intro e' he' halive
        rcases List.mem_cons.mp he' with rfl | he'
        · obtain ⟨m, hm, hme⟩ := exists_le_of_earlier (Bool.eq_false_iff.mpr hearlier)
          obtain ⟨m', hm', hle'⟩ := hle m hm
          exact ⟨m', hm', hle'.trans hme⟩
        · exact hmin e' he' halive

/-- **What a reclaim does**: the tombstones whose death has passed go, and no other. -/
theorem InOrder.reclaimExpired (h : s.InOrder) (now : Int) :
    (s.reclaimExpired now).InOrder ∧ (s.reclaimExpired now).caps = s.caps
      ∧ ∀ k, (s.reclaimExpired now).map.get k =
        (s.map.get k).filter fun r => decide (now ≤ r.effectiveDeath) := by
  unfold TombstoneStore.reclaimExpired
  by_cases hmin : (s.minDeath.all fun m => decide (now ≤ m)) = true
  · -- no death on record has passed
    rw [if_pos hmin]
    refine ⟨h, rfl, fun k => ?_⟩
    cases hget : s.map.get k with
    | none => rfl
    | some r =>
      obtain ⟨m, hm, hle⟩ := h.minDeath k r hget
      rw [Option.mem_def] at hm
      rw [hm, Option.all_some, decide_eq_true_eq] at hmin
      rw [Option.filter_some, if_pos (decide_eq_true (hmin.trans hle))]
  · rw [if_neg hmin]
    obtain ⟨hsound, hcaps, hrecord, hmap, hdeath, -⟩ :=
      foldl_reclaimRound now s.map.entries none s.map.keys_nodup
        (fun e he => get_of_mem he) h.toAccounted
    have hget : ∀ k, (s.map.entries.foldl (reclaimRound now) (s, none)).1.map.get k =
        (s.map.get k).filter fun r => decide (now ≤ r.effectiveDeath) := by
      intro k
      rw [hmap k]
      by_cases hmem : k ∈ s.map.entries.map Prod.fst
      · rw [if_pos hmem]
      have hnone : s.map.get k = none := find_eq_none_iff.mpr hmem
      rw [if_neg hmem, hnone]
      rfl
    refine ⟨⟨⟨hsound.books, hsound.within, hsound.sized⟩, ?_⟩, hcaps, hget⟩
    intro k r hr
    have hr' : (s.map.entries.foldl (reclaimRound now) (s, none)).1.map.get k = some r := hr
    rw [hget, Option.filter_eq_some_iff, decide_eq_true_eq] at hr'
    exact hdeath (k, r) (mem_of_get hr'.1) hr'.2

/-- **A tombstone comes.** -/
theorem InOrder.insert (h : s.InOrder) {topicId signer killBytes : Text} {effectiveDeath : Int}
    (hnew : s.map.get k = none) (htopic : topicOf k = topicId)
    (hroom : s.wouldAdmit topicId k signer killBytes effectiveDeath = none) :
    (s.insert topicId k (record k signer killBytes effectiveDeath)).InOrder := by
  unfold wouldAdmit at hroom
  simp only [] at hroom
  split at hroom
  · cases hroom
  next hrecord =>
  split at hroom
  · cases hroom
  next hcount =>
  split at hroom
  · cases hroom
  next hsize =>
  split at hroom
  · cases hroom
  next howner =>
  split at hroom
  · cases hroom
  next hgroup =>
  set r := record k signer killBytes effectiveDeath with hr
  have hperm : (tombItem k r :: tombItems s.map.entries).Perm
      (tombItems (s.map.set k r).entries) := by
    have hset := (entries_set_perm s.map k r).map fun e => tombItem e.1 e.2
    rw [delete_of_get_none hnew] at hset
    exact hset.symm
  have hsum := h.books.size
  have hsigner := h.books.owners.count_eq signer
  have htopics := h.books.groups.count_eq topicId
  have hlength : (tombItems s.map.entries).length = s.map.size := List.length_map _
  refine ⟨⟨?_, (h.within.add (x := tombItem k r) ?_ ?_ ?_ ?_).anti hperm.symm.subperm, ?_⟩, ?_⟩
  · have hadd := (h.books.add (x := tombItem k r)).perm hperm
    rw [← htopic]
    exact hadd
  · omega
  · show _ + tombBytesOf k signer killBytes effectiveDeath ≤ s.caps.size
    omega
  · have heq : (tombItem k r).owner = signer := rfl
    rw [heq]
    omega
  · have heq : (tombItem k r).group = topicId := htopic
    rw [heq]
    omega
  · intro j r' hj
    have hj' : (s.map.set k r).get j = some r' := hj
    rw [get_set] at hj'
    split at hj'
    next heq =>
      cases hj'
      rw [heq]
      exact ⟨rfl, not_lt.mp hrecord⟩
    · exact h.sized j r' hj'
  · intro j r' hj
    have hj' : (s.map.set k r).get j = some r' := hj
    rw [get_set] at hj'
    show ∃ m ∈ (if earlier r.effectiveDeath s.minDeath then some r.effectiveDeath else s.minDeath),
      m ≤ r'.effectiveDeath
    by_cases hearlier : earlier r.effectiveDeath s.minDeath = true
    · rw [if_pos hearlier]
      refine ⟨_, rfl, ?_⟩
      split at hj'
      · cases hj'
        exact le_rfl
      · obtain ⟨m, hm, hle⟩ := h.minDeath j r' hj'
        exact (le_of_earlier hearlier hm).trans hle
    · rw [if_neg hearlier]
      split at hj'
      · cases hj'
        exact exists_le_of_earlier (Bool.eq_false_iff.mpr hearlier)
      · exact h.minDeath j r' hj'

end TombstoneStore

end Axona
