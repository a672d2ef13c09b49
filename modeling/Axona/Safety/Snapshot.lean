import Axona.Dht.Snapshot
import Axona.Safety.Membership

/-! # What a restored table is

A live entry is entered under its id. A restored one is entered under the text that writes the id,
so the selectors pass over it, the scan of a lookup throws at it, an admission enters its peer again
beside it, and a death leaves it. Only the empty table is restored as it was. -/

namespace Axona

open Library

namespace Synaptome

variable {t t' : Synaptome}

/-- Every entry is a text, under a text. -/
def Texts (t : Synaptome) : Prop :=
  ∀ e ∈ t.entries, e.1.isText = true ∧ e.2.peerId.isText = true

/-- What is asked of the table that is restored from another. -/
structure Restored (t t' : Synaptome) : Prop where
  peers : t'.peers = t.peers
  /-- Keys and `peerId`s are those of live entries. -/
  live : ∀ e ∈ t'.entries, e.1.isText = false ∧ e.2.peerId.isText = false
  noThrow : ∀ v target, t'.lookupScan v target ≠ none
  lookup : ∀ v target, t'.lookupScan v target = t.lookupScan v target
  usable : ∀ v, t'.usablePeers v = t.usablePeers v
  closest : ∀ self incoming, t'.seedPool self incoming = t.seedPool self incoming
  /-- The vitality is a function of the weight and the inertia. -/
  gate : ∀ c w l now p,
    (∃ f : ℚ → Option ℚ → Option ℚ, ∀ x, w.vitality x = f x.weight x.inertia) →
      (t'.gateDecision c w l now p).1 = (t.gateDecision c w l now p).1
  member : ∀ p, t'.has (.big p) = t.has (.big p)
  /-- A peer that an admission does not find is not there under another key. -/
  once : ∀ p, t'.has (.big p) = false → t'.holds p = false
  /-- A death takes the peer out. -/
  dies : ∀ p, Synaptome.holds (t'.delete (.big p)) p = false
  records : t'.snapshot = t.snapshot

/-! ### A table of texts -/

namespace Texts

/-- The scan of a lookup throws at the first entry. -/
theorem lookupScan_eq_none (h : t.Texts) (hne : t.entries ≠ []) (v : ScanView) (target : NodeId) :
    t.lookupScan v target = none := by
  unfold lookupScan
  cases hentries : t.entries with
  | nil => exact absurd hentries hne
  | cons e es =>
    have htext := (h e (hentries ▸ List.mem_cons_self)).2
    rw [List.foldlM_cons]
    unfold scanEntry
    cases hpeer : e.2.peerId with
    | big id =>
      rw [hpeer] at htext
      cases htext
    | hex id => rfl

end Texts

/-! ### What is restored -/

theorem texts_enterRecords (source : Text) (rs : List SynapseRecord) (h : t.Texts) :
    (t.enterRecords source rs).Texts := by
  unfold enterRecords
  refine List.foldlRecOn (motive := Texts) _ _ h ?_
  intro t ht r hr e he
  rcases List.mem_cons.mp ((OrderedMap.entries_set_perm t _ _).mem_iff.mp he) with rfl | he
  · exact ⟨rfl, rfl⟩
  · exact ht e (List.mem_filter.mp he).1

theorem texts_empty : Texts ∅ := fun e he => by cases he

theorem texts_fromSnapshot (rs : List SynapseRecord) : (fromSnapshot rs).Texts :=
  texts_enterRecords _ rs texts_empty

theorem texts_loadFromPersist (rs : List SynapseRecord) : (loadFromPersist ∅ rs).Texts :=
  texts_enterRecords _ rs texts_empty

/-- The empty table is restored. -/
theorem restored_empty : Restored ∅ ∅ where
  peers := rfl
  live := fun e he => by cases he
  noThrow := fun v target h => by cases h
  lookup := fun _ _ => rfl
  usable := fun _ => rfl
  closest := fun _ _ => rfl
  gate := fun _ _ _ _ _ _ => rfl
  member := fun _ => rfl
  once := fun _ _ => rfl
  dies := fun _ => rfl
  records := rfl

/-- A table of texts is restored from the empty one only. -/
theorem Texts.restored_only_empty (h : t'.Texts) (hempty : t.entries = [] → t'.entries = []) :
    Restored t t' ↔ t.size = 0 := by
  refine ⟨fun hrestored => ?_, fun hsize => ?_⟩
  · by_contra hsize
    have hpeers := congrArg List.length hrestored.peers
    rw [← size_eq, ← size_eq] at hpeers
    have hne : t'.entries ≠ [] := fun hnil =>
      hsize (hpeers.symm.trans (congrArg List.length hnil))
    exact hrestored.noThrow ⟨0, fun _ => false, fun _ => false⟩ 0 (h.lookupScan_eq_none hne _ _)
  · have ht : t = ∅ := OrderedMap.ext (List.eq_nil_of_length_eq_zero hsize)
    have ht' : t' = ∅ := OrderedMap.ext (hempty (List.eq_nil_of_length_eq_zero hsize))
    rw [ht, ht']
    exact restored_empty

/-- **Only the empty table is restored.** -/
theorem restored_iff (t : Synaptome) :
    (Restored t (fromSnapshot t.snapshot) ↔ t.size = 0)
      ∧ (Restored t (loadFromPersist ∅ t.snapshot) ↔ t.size = 0) := by
  have hsame : t.entries = [] → t.snapshot = [] := fun h => by
    unfold snapshot
    rw [h]
    rfl
  refine ⟨(texts_fromSnapshot _).restored_only_empty fun h => ?_,
    (texts_loadFromPersist _).restored_only_empty fun h => ?_⟩
  · rw [hsame h]
    rfl
  · rw [hsame h]
    rfl

/-- The table of one peer. -/
def onePeer : Synaptome :=
  OrderedMap.set ∅ (.big 1) ⟨.big 1, 1 / 2, 50, 63, some 0, none⟩

/-- **A lookup throws at the peer that was restored.** -/
theorem restored_throws : ¬Restored onePeer (fromSnapshot onePeer.snapshot) := by
  intro h
  exact h.noThrow ⟨0, fun _ => false, fun _ => false⟩ 1 (by decide +kernel)

end Synaptome

end Axona
