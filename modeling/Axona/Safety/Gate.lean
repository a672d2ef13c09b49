import Axona.Dht.Synaptome
import Axona.Library.Endless
import Mathlib.Data.Prod.Lex

/-! # The admission gate settles

Offers of peers out of a fixed population, one after the other without end. A swap by which the
`kNear` nearest peers come closer fills their places better, any other one makes the bands of the
table more even and leaves those places as they are; so there are finitely many. Where no duty and
no bridge holds a peer, a table that no offer changes any more has the nearest peers in it, unless a
victim is entered under a text: reporting the swap then throws. -/

namespace Axona

open Library OrderedMap

variable {c : GateNode} {w : Surroundings} {t : Synaptome} {s : NodeId}

theorem GateNode.dist_injective (c : GateNode) : Function.Injective c.dist :=
  fun _ _ h => Nat.xor_right_inj.mp h

theorem GateNode.groupOf_mem (c : GateNode) (p : NodeId) :
    c.groupOf p ∈ Finset.range c.strataGroups := by
  have hpos := c.strataGroups.pos
  have hle : c.groupOf p ≤ c.strataGroups - 1 := min_le_left _ _
  exact Finset.mem_range.mpr (by omega)

namespace Synaptome

/-! ### The peers of a table -/

theorem size_eq (t : Synaptome) : t.size = t.peers.length := (List.length_map _).symm

theorem count_eq (t : Synaptome) (c : GateNode) (g : Nat) :
    t.count c g = crowd c.groupOf t.peers g := by
  unfold count crowd peers
  rw [List.countP_map]
  exact List.countP_congr fun e _ => by simp

theorem mem_peers {e : TableKey × Synapse} (he : e ∈ t.entries) : e.1.id ∈ t.peers :=
  List.mem_map_of_mem he

theorem holds_iff : t.holds s = true ↔ s ∈ t.peers := by
  unfold holds
  rw [Bool.or_eq_true, has_iff_mem_keys, has_iff_mem_keys]
  unfold OrderedMap.keys peers
  simp only [List.mem_map]
  constructor
  · rintro (⟨e, he, hkey⟩ | ⟨e, he, hkey⟩)
    · exact ⟨e, he, by rw [hkey, TableKey.id_big]⟩
    · exact ⟨e, he, by rw [hkey, TableKey.id_hex]⟩
  · rintro ⟨e, he, rfl⟩
    cases hkey : e.1 with
    | big id => exact .inl ⟨e, he, hkey⟩
    | hex id => exact .inr ⟨e, he, hkey⟩

/-- A peer that was not in the table is entered beside the others. -/
theorem peers_seedInsert (c : GateNode) (hs : s ∉ t.peers) :
    (t.seedInsert c s).peers.Perm (s :: t.peers) := by
  have hget : t.get (.big s) = none := by
    cases hget : t.get (.big s) with
    | none => rfl
    | some x => exact absurd (mem_peers (mem_of_get hget)) hs
  unfold seedInsert peers
  refine ((entries_set_perm t (.big s) _).map _).trans ?_
  rw [delete_of_get_none hget]
  exact .refl _

/-- An entry that is deleted is taken from the others. -/
theorem peers_delete {v : TableKey × Synapse} (hv : v ∈ t.entries) :
    t.peers.Perm (v.1.id :: Synaptome.peers (t.delete v.1)) := by
  unfold peers
  exact (entries_perm_of_get (get_of_mem hv)).map _

/-! ### The near set -/

theorem rank_map {α β : Type*} [LinearOrder β] (f : α → β) (l : List α) (b : β) :
    rank f l b = rank (fun x => x) (l.map f) b := by
  unfold rank
  rw [List.countP_map]
  rfl

section Near

variable (hlive : ∀ p ∈ t.peers, w.stale p = false)

include hlive

theorem held_eq : t.held c w = t.entries.map fun e => (some e.1, c.dist e.1.id) := by
  unfold held
  rw [List.filter_eq_self.mpr fun e he => by simp [hlive _ (mem_peers he)]]

theorem held_dist : (t.held c w).map Prod.snd = t.peers.map c.dist := by
  rw [held_eq hlive]
  simp [peers, Function.comp_def]

theorem rank_held (b : Nat) : rank Prod.snd (t.held c w) b = rank c.dist t.peers b := by
  rw [rank_map, held_dist hlive, ← rank_map]

theorem ranked_dist (s : NodeId) :
    (t.ranked c w (some s)).map Prod.snd = (t.peers ++ [s]).map c.dist := by
  unfold ranked
  rw [List.map_append, held_dist hlive]
  simp

variable (hnodup : t.peers.Nodup) (hs : s ∉ t.peers)

include hnodup hs

/-- An entry is near, with a newcomer ranked in, when fewer than `kNear` peers are closer. -/
theorem near_iff {e : TableKey × Synapse} (he : e ∈ t.entries) :
    (t.reasons c w (some s) e.1).near = true ↔
      rank c.dist (t.peers ++ [s]) (c.dist e.1.id) < c.gate.kNear := by
  have hnd : ((t.ranked c w (some s)).map Prod.snd).Nodup := by
    rw [ranked_dist hlive]
    refine List.Nodup.map c.dist_injective ?_
    exact List.Nodup.append hnodup (List.nodup_singleton s) (by simpa using hs)
  have hrank : ∀ d, rank Prod.snd (t.ranked c w (some s)) d = rank c.dist (t.peers ++ [s]) d :=
    fun d => by rw [rank_map, ranked_dist hlive, ← rank_map]
  change (t.nearKeys c w (some s)).contains e.1 = true ↔ _
  rw [List.contains_iff_mem]
  unfold nearKeys
  rw [List.mem_filterMap]
  constructor
  · rintro ⟨⟨key, d⟩, hmem, rfl⟩
    obtain ⟨hin, hlt⟩ := (mem_take_sortBy hnd).mp hmem
    rw [hrank] at hlt
    -- the one ranked under this key is the entry
    have hd : d = c.dist e.1.id := by
      unfold ranked at hin
      rw [held_eq hlive] at hin
      simp only [List.mem_append, List.mem_map, Prod.mk.injEq, Option.some.injEq,
        Option.toList_some, List.mem_singleton, reduceCtorEq, false_and, and_false, exists_false,
        or_false] at hin
      obtain ⟨e', -, hkey, rfl⟩ := hin
      rw [hkey]
    exact hd ▸ hlt
  · intro hlt
    refine ⟨(some e.1, c.dist e.1.id), (mem_take_sortBy hnd).mpr ⟨?_, hrank _ ▸ hlt⟩, rfl⟩
    unfold ranked
    rw [held_eq hlive]
    exact List.mem_append_left _ (List.mem_map_of_mem (f := fun e : TableKey × Synapse =>
      (some e.1, c.dist e.1.id)) he)

/-- A newcomer improves the near set when fewer than `kNear` peers of a table with so many are
closer. -/
theorem nearImprove_iff (hk : c.gate.kNear ≠ 0) : t.nearImprove c w s = true ↔
    c.gate.kNear ≤ t.peers.length ∧ rank c.dist t.peers (c.dist s) < c.gate.kNear := by
  have hnd : ((t.held c w).map Prod.snd).Nodup := by
    rw [held_dist hlive]
    exact hnodup.map c.dist_injective
  have hlength : (t.held c w).length = t.peers.length := by
    rw [← List.length_map (f := Prod.snd), held_dist hlive, List.length_map]
  have hne : ∀ x ∈ t.held c w, x.2 ≠ c.dist s := by
    intro x hx heq
    have hmem : c.dist s ∈ t.peers.map c.dist := by
      rw [← held_dist hlive, ← heq]
      exact List.mem_map_of_mem hx
    obtain ⟨p, hp, hps⟩ := List.mem_map.mp hmem
    exact hs (c.dist_injective hps ▸ hp)
  unfold nearImprove nearCeil
  by_cases hlen : c.gate.kNear ≤ t.peers.length
  · have hi : c.gate.kNear - 1 < (sortBy Prod.snd (t.held c w)).length := by
      rw [(sortBy_perm Prod.snd _).length_eq, hlength]
      omega
    rw [if_pos (hlength ▸ hlen), List.getElem?_eq_getElem hi, Option.map_some, Option.any_some,
      decide_eq_true_iff, lt_sortBy_getElem hnd hi hne, rank_held hlive, and_iff_right hlen]
    omega
  · rw [if_neg (hlength ▸ hlen)]
    simp [hlen]

end Near

/-! ### The victim -/

theorem weaker_isSome (b : Option Victim) (v : Victim) : (weaker b v).isSome = true := by
  cases b with
  | none => rfl
  | some b =>
    unfold weaker
    simp only []
    split <;> rfl

theorem weaker_eq {b : Option Victim} {v x : Victim} (h : weaker b v = some x) :
    b = some x ∨ v = x := by
  cases b with
  | none => exact .inr (Option.some.inj h)
  | some b =>
    unfold weaker at h
    simp only [] at h
    split at h
    · exact .inr (Option.some.inj h)
    · exact .inl h

/-- The victim is an entry that may be evicted. -/
theorem victim_mem {v : Victim} (h : t.victim c w s = some v) :
    ∃ e ∈ t.entries, v.key = e.1 ∧ t.evictable c w s e.1 = true := by
  have aux : ∀ (es : List (TableKey × Synapse)) (b : Option Victim),
      es.foldl (fun best e =>
        weaker best ⟨e.1, w.vitality e.2, t.count c (c.groupOf e.1.id)⟩) b = some v →
      b = some v ∨ ∃ e ∈ es, v.key = e.1 := by
    intro es
    induction es with
    | nil => exact fun b hb => .inl hb
    | cons e es ih =>
      intro b hb
      rcases ih _ hb with hb | ⟨e', he', hkey⟩
      · rcases weaker_eq hb with hb | rfl
        · exact .inl hb
        · exact .inr ⟨e, List.mem_cons_self, rfl⟩
      · exact .inr ⟨e', List.mem_cons_of_mem _ he', hkey⟩
  rcases aux _ none h with h | ⟨e, he, hkey⟩
  · cases h
  · obtain ⟨hmem, hev⟩ := List.mem_filter.mp he
    exact ⟨e, hmem, hkey, hev⟩

/-- There is a victim where an entry may be evicted. -/
theorem victim_isSome {e : TableKey × Synapse} (he : e ∈ t.entries)
    (hev : t.evictable c w s e.1 = true) : ∃ v, t.victim c w s = some v := by
  have aux : ∀ (es : List (TableKey × Synapse)) (b : Option Victim), b.isSome = true ∨ es ≠ [] →
      (es.foldl (fun best e =>
        weaker best ⟨e.1, w.vitality e.2, t.count c (c.groupOf e.1.id)⟩) b).isSome = true := by
    intro es
    induction es with
    | nil => exact fun b hb => hb.resolve_right fun h => h rfl
    | cons e es ih => exact fun b _ => ih _ (.inl (weaker_isSome _ _))
  refine Option.isSome_iff_exists.mp (aux _ _ (.inr ?_))
  exact List.ne_nil_of_mem (List.mem_filter.mpr ⟨he, hev⟩)

/-! ### What an offer does -/

/-- What an offer makes of the table. -/
inductive Change (c : GateNode) (w : Surroundings) (t : Synaptome) (s : NodeId) : Synaptome → Prop
  | same : Change c w t s t
  | enter (hnew : s ∉ t.peers) (hroom : t.size < c.cap) : Change c w t s (t.seedInsert c s)
  | swap (v : TableKey × Synapse) (hv : v ∈ t.entries) (hnew : s ∉ t.peers)
      (hfull : c.cap ≤ t.size) (hkNear : c.gate.kNear ≠ 0)
      (hev : t.evictable c w s v.1 = true) (hduty : w.duty v.1.id = false) :
      Change c w t s (seedInsert c (t.delete v.1) s)

end Synaptome

open Synaptome

theorem AdmissionGate.change_offer (c : GateNode) (g : AdmissionGate) (w : Surroundings)
    (now : Int) (s : NodeId) : Change c w g.synaptome s (g.offer c w now s).synaptome := by
  unfold AdmissionGate.offer
  cases hholds : g.synaptome.holds s with
  | true => exact .same
  | false =>
    have hnew : s ∉ g.synaptome.peers := fun hs => by
      rw [holds_iff.mpr hs] at hholds
      cases hholds
    simp only [Bool.false_eq_true, if_false]
    unfold gateDecision
    by_cases hroom : g.synaptome.size < c.cap
    · rw [if_pos hroom]
      unfold laneDecision
      simp only []
      split_ifs
      · exact .same
      · exact .same
      · exact .enter hnew hroom
      · exact .enter hnew hroom
    rw [if_neg hroom]
    unfold swapDecision
    by_cases hk : c.gate.kNear = 0
    · rw [if_pos hk]
      exact .same
    rw [if_neg hk]
    cases hv : g.synaptome.victim c w s with
    | none => exact .same
    | some v =>
      obtain ⟨e, he, hkey, hev⟩ := victim_mem hv
      simp only []
      by_cases hduty : w.duty v.key.id = true
      · rw [if_pos hduty]
        cases v.key.isText <;> exact .same
      rw [if_neg hduty]
      simp only [gateCommit]
      split_ifs
      · exact .same
      · rw [hkey] at hduty ⊢
        exact .swap e he hnew (not_lt.mp hroom) hk hev (Bool.eq_false_iff.mpr hduty)

/-! ### The measure -/

/-- A table of peers of a population, each once, within the cap. -/
structure Synaptome.DrawnFrom (c : GateNode) (P : Finset NodeId) (t : Synaptome) : Prop where
  nodup : t.peers.Nodup
  member : ∀ p ∈ t.peers, p ∈ P
  size_le : t.size ≤ c.cap

/-- How far a table is from settled: the places that are free, those of the nearest peers that are
not filled, and how uneven its bands are. -/
def Synaptome.unsettled (c : GateNode) (P : Finset NodeId) (t : Synaptome) : ℕ ×ₗ ℕ ×ₗ ℕ :=
  toLex (c.cap - t.size, toLex
    (P.card * c.gate.kNear - filled c.dist c.gate.kNear (P.image c.dist) t.peers,
      unevenness c.groupOf (Finset.range c.strataGroups) t.peers))

variable {P : Finset NodeId} {t' : Synaptome}

namespace Synaptome

variable {v : TableKey × Synapse}

/-- In a swap the newcomer stands in the table for the victim. -/
theorem exchange_swap (hv : v ∈ t.entries) (hnew : s ∉ t.peers) :
    (s :: t.peers).Perm (v.1.id :: (seedInsert c (t.delete v.1) s).peers) := by
  have hdelete := peers_delete hv
  have hnew' : s ∉ Synaptome.peers (t.delete v.1) := fun hs =>
    hnew (hdelete.mem_iff.mpr (List.mem_cons_of_mem _ hs))
  refine (hdelete.cons s).trans ((List.Perm.swap _ _ _).trans ?_)
  exact ((peers_seedInsert c hnew').symm.cons _)

theorem size_swap (hv : v ∈ t.entries) (hnew : s ∉ t.peers) :
    (seedInsert c (t.delete v.1) s).size = t.size := by
  have hlength := (exchange_swap (c := c) hv hnew).length_eq
  rw [List.length_cons, List.length_cons] at hlength
  rw [size_eq, size_eq]
  omega

theorem size_enter (hnew : s ∉ t.peers) : (t.seedInsert c s).size = t.size + 1 := by
  rw [size_eq, size_eq, (peers_seedInsert c hnew).length_eq, List.length_cons]

theorem Change.drawnFrom (h : Change c w t s t') (ht : t.DrawnFrom c P) (hs : s ∈ P) : t'.DrawnFrom c P := by
  cases h with
  | same => exact ht
  | enter hnew hroom =>
    have hperm := peers_seedInsert c hnew
    refine ⟨hperm.nodup_iff.mpr (List.nodup_cons.mpr ⟨hnew, ht.nodup⟩), fun p hp => ?_, ?_⟩
    · rcases List.mem_cons.mp (hperm.mem_iff.mp hp) with rfl | hp
      · exact hs
      · exact ht.member p hp
    · rw [size_enter hnew]
      exact hroom
  | swap v hv hnew hfull hkNear hev hduty =>
    have hperm := exchange_swap (c := c) hv hnew
    have hnd := hperm.nodup_iff.mp (List.nodup_cons.mpr ⟨hnew, ht.nodup⟩)
    refine ⟨(List.nodup_cons.mp hnd).2, fun p hp => ?_, ?_⟩
    · rcases List.mem_cons.mp (hperm.mem_iff.mpr (List.mem_cons_of_mem _ hp)) with rfl | hp
      · exact hs
      · exact ht.member p hp
    · rw [size_swap hv hnew]
      exact ht.size_le

/-- The victim of a swap is not among the nearest peers, and either the newcomer is, or its band
has two peers less than the victim's. -/
theorem swap_cases (ht : t.DrawnFrom c P) (hlive : ∀ p ∈ P, w.stale p = false) (hnew : s ∉ t.peers)
    (hv : v ∈ t.entries) (hk : c.gate.kNear ≠ 0) (hev : t.evictable c w s v.1 = true) :
    (c.dist s < c.dist v.1.id ∧ rank c.dist t.peers (c.dist s) < c.gate.kNear)
      ∨ (c.gate.kNear ≤ rank c.dist t.peers (c.dist v.1.id)
        ∧ t.count c (c.groupOf s) + 2 ≤ t.count c (c.groupOf v.1.id)) := by
  have hlive' : ∀ p ∈ t.peers, w.stale p = false := fun p hp => hlive p (ht.member p hp)
  obtain ⟨hprot, hhow⟩ := Bool.and_eq_true_iff.mp hev
  have hfar : c.gate.kNear ≤ rank c.dist (t.peers ++ [s]) (c.dist v.1.id) := by
    refine not_lt.mp fun hlt => ?_
    have hnear := (near_iff hlive' ht.nodup hnew hv).mpr hlt
    simp [isProtected, hnear] at hprot
  have hsplit : rank c.dist (t.peers ++ [s]) (c.dist v.1.id) =
      rank c.dist t.peers (c.dist v.1.id) + if c.dist s < c.dist v.1.id then 1 else 0 := by
    rw [rank_append]
    unfold rank
    simp [List.countP_cons]
  rw [hsplit] at hfar
  have hlast := rank_lt_length (f := c.dist) (mem_peers hv)
  by_cases himproves : t.nearImprove c w s = true
  · obtain ⟨-, hrank⟩ := (nearImprove_iff hlive' ht.nodup hnew hk).mp himproves
    refine .inl ⟨not_le.mp fun hle => ?_, hrank⟩
    rw [if_neg (not_lt.mpr hle)] at hfar
    exact absurd (hfar.trans (rank_mono t.peers hle)) (not_le.mpr hrank)
  have hmargin := (Bool.or_eq_true_iff.mp hhow).resolve_left himproves
  refine .inr ⟨?_, of_decide_eq_true hmargin⟩
  rw [nearImprove_iff hlive' ht.nodup hnew hk] at himproves
  by_cases hlt : c.dist s < c.dist v.1.id
  · rw [if_pos hlt] at hfar
    have hrank : c.gate.kNear ≤ rank c.dist t.peers (c.dist s) :=
      not_lt.mp fun h => himproves ⟨by omega, h⟩
    exact hrank.trans (rank_mono t.peers hlt.le)
  · rw [if_neg hlt] at hfar
    exact hfar

/-- A swap brings the table nearer to settled. -/
theorem unsettled_swap (ht : t.DrawnFrom c P) (hs : s ∈ P) (hlive : ∀ p ∈ P, w.stale p = false)
    (hv : v ∈ t.entries) (hnew : s ∉ t.peers) (hk : c.gate.kNear ≠ 0)
    (hev : t.evictable c w s v.1 = true) :
    (seedInsert c (t.delete v.1) s).unsettled c P < t.unsettled c P := by
  have hperm := exchange_swap (c := c) hv hnew
  unfold unsettled
  rw [size_swap hv hnew]
  refine Prod.Lex.right _ ?_
  have hbound := filled_le (f := c.dist) c.gate.kNear (P.image c.dist) t.peers
  have hbound' := filled_le (f := c.dist) c.gate.kNear (P.image c.dist)
    (seedInsert c (t.delete v.1) s).peers
  rw [Finset.card_image_of_injective P c.dist_injective] at hbound hbound'
  rcases swap_cases ht hlive hnew hv hk hev with ⟨hlt, hnear⟩ | ⟨hfar, hmargin⟩
  · have hmore := filled_lt_of_near hperm hlt hnear
      (fun p hp heq => hnew (c.dist_injective heq ▸ hp)) (Finset.mem_image_of_mem c.dist hs)
    exact Prod.Lex.left _ _ (by omega)
  have hkept := filled_le_of_far hperm (mem_peers hv) hfar (P.image c.dist)
  rw [count_eq, count_eq] at hmargin
  have heven := unevenness_lt hperm (c.groupOf_mem s) (c.groupOf_mem v.1.id) hmargin
  rcases hkept.lt_or_eq with hlt | heq
  · exact Prod.Lex.left _ _ (by omega)
  · rw [heq]
    exact Prod.Lex.right _ heven

theorem Change.unsettled_le (h : Change c w t s t') (ht : t.DrawnFrom c P) (hs : s ∈ P)
    (hlive : ∀ p ∈ P, w.stale p = false) : t'.unsettled c P ≤ t.unsettled c P := by
  cases h with
  | same => exact le_rfl
  | enter hnew hroom =>
    refine le_of_lt (Prod.Lex.left _ _ ?_)
    rw [size_enter hnew]
    omega
  | swap v hv hnew hfull hkNear hev hduty =>
    exact (unsettled_swap ht hs hlive hv hnew hkNear hev).le

/-- No swap takes a peer from a band of no more than `sparseFloor`. -/
theorem Change.floor (h : Change c w t s t') (g : Nat) (hg : c.gate.sparseFloor < t.count c g) :
    c.gate.sparseFloor ≤ t'.count c g := by
  cases h with
  | same => exact hg.le
  | enter hnew hroom =>
    refine hg.le.trans ?_
    rw [count_eq, count_eq]
    unfold crowd
    rw [(peers_seedInsert c hnew).countP_eq, List.countP_cons]
    exact Nat.le_add_right _ _
  | swap v hv hnew hfull hkNear hev hduty =>
    have hcount := crowd_exchange (exchange_swap (c := c) hv hnew) c.groupOf g
    rw [← count_eq, ← count_eq] at hcount
    split_ifs at hcount <;> omega

end Synaptome

/-! ### Endless offers -/

/-- An offer of a peer, and what is around the table. -/
structure Offer where
  sponsor : NodeId
  around : Surroundings
  now : Int

namespace AdmissionGate

/-- `_seedSynaptomeWithSponsor` on the path of the gate. -/
def step (c : GateNode) (g : AdmissionGate) (o : Offer) : AdmissionGate :=
  g.offer c o.around o.now o.sponsor

/-- Does the offer take a peer out of the table? -/
def Swaps (c : GateNode) (g : AdmissionGate) (o : Offer) : Prop :=
  ∃ p ∈ g.synaptome.peers, p ∉ (g.step c o).synaptome.peers

/-- The offer improves the near set of a table without room, and its victim, which is owed nothing,
is entered under a text. -/
def TextVictim (c : GateNode) (g : AdmissionGate) (o : Offer) : Prop :=
  c.cap ≤ g.synaptome.size ∧ g.synaptome.nearImprove c o.around o.sponsor = true
    ∧ ∃ v ∈ g.synaptome.victim c o.around o.sponsor,
      v.key.isText = true ∧ o.around.duty v.key.id = false

/-- Offers of members of a population of which none is stale. -/
structure Offered (P : Finset NodeId) (o : Offer) : Prop where
  member : o.sponsor ∈ P
  live : ∀ p ∈ P, o.around.stale p = false

/-- No duty and no bridge is involved. -/
structure Plain (o : Offer) : Prop where
  duty : ∀ p, o.around.duty p = false
  bridge : o.around.bridge = none

/-- The steps from `m` to `n` leave the table as it was, every member is offered in them, and no
duty and no bridge is involved. -/
structure Settled (c : GateNode) (P : Finset NodeId) (g : AdmissionGate) (os : ℕ → Offer)
    (m n : ℕ) : Prop where
  unchanged : ∀ i, m ≤ i → i < n →
    (along (step c) g os (i + 1)).synaptome = (along (step c) g os i).synaptome
  offered : ∀ p ∈ P, ∃ i, m ≤ i ∧ i < n ∧ (os i).sponsor = p
  plain : ∀ i, m ≤ i → i < n → Plain (os i)

/-- The `kNear` nearest members of a population are in the table. -/
def HoldsNearest (c : GateNode) (P : Finset NodeId) (t : Synaptome) : Prop :=
  ∀ p ∈ P, (P.filter fun q => c.dist q < c.dist p).card < c.gate.kNear → p ∈ t.peers

/-- What is asked of an endless sequence of offers. -/
structure Settles (c : GateNode) (P : Finset NodeId) (g : AdmissionGate) (os : ℕ → Offer) :
    Prop where
  finite : {n | Swaps c (along (step c) g os n) (os n)}.Finite
  floor : ∀ n b, c.gate.sparseFloor < (along (step c) g os n).synaptome.count c b →
    c.gate.sparseFloor ≤ (along (step c) g os (n + 1)).synaptome.count c b
  nearest : c.gate.kNear + c.gate.sparseFloor * c.strataGroups < c.cap → ∀ m n,
    Settled c P g os m n → (∀ p ∈ P, p ∈ (along (step c) g os m).synaptome.peers)
      ∨ HoldsNearest c P (along (step c) g os m).synaptome

end AdmissionGate

namespace Synaptome

/-- The keys of the entries that are near, with a newcomer ranked in, are no more than `kNear`. -/
theorem card_nearKeys_le (t : Synaptome) (s : NodeId) :
    (t.nearKeys c w (some s)).toFinset.card ≤ c.gate.kNear :=
  (List.toFinset_card_le _).trans ((List.length_filterMap_le _ _).trans (List.length_take_le _ _))

/-- The keys of the entries that their band holds. -/
def sparseKeys (c : GateNode) (t : Synaptome) : Finset TableKey :=
  t.keys.toFinset.filter fun key => t.count c (c.groupOf key.id) ≤ c.gate.sparseFloor

/-- In each band of few peers there are no more than so many of them. -/
theorem card_sparseKeys_le (c : GateNode) (t : Synaptome) :
    (t.sparseKeys c).card ≤ c.gate.sparseFloor * c.strataGroups := by
  have hbands : (t.sparseKeys c).card ≤
      c.gate.sparseFloor * ((t.sparseKeys c).image fun key => c.groupOf key.id).card := by
    refine Finset.card_le_mul_card_image _ _ fun g hg => ?_
    obtain ⟨key, hkey, rfl⟩ := Finset.mem_image.mp hg
    refine le_trans ?_ (Finset.mem_filter.mp hkey).2
    have hsub : ((t.sparseKeys c).filter fun key' => c.groupOf key'.id = c.groupOf key.id) ⊆
        (t.keys.filter fun key' => c.groupOf key'.id == c.groupOf key.id).toFinset := by
      intro key' hkey'
      obtain ⟨hin, hgroup⟩ := Finset.mem_filter.mp hkey'
      rw [List.mem_toFinset, List.mem_filter]
      exact ⟨List.mem_toFinset.mp (Finset.mem_filter.mp hin).1, by simpa using hgroup⟩
    refine (Finset.card_le_card hsub).trans ((List.toFinset_card_le _).trans ?_)
    unfold count OrderedMap.keys
    rw [← List.countP_eq_length_filter, List.countP_map]
    exact le_rfl
  have hgroups : ((t.sparseKeys c).image fun key => c.groupOf key.id).card ≤ c.strataGroups :=
    (Finset.card_le_card (Finset.image_subset_iff.mpr fun key _ =>
      c.groupOf_mem key.id)).trans_eq (Finset.card_range _)
  exact hbands.trans (Nat.mul_le_mul_left _ hgroups)

/-- A table of more than `kNear + sparseFloor * STRATA_GROUPS` peers has one that no distance and
no band holds. -/
theorem exists_unprotected (hcap : c.gate.kNear + c.gate.sparseFloor * c.strataGroups < t.size)
    (s : NodeId) : ∃ e ∈ t.entries, (t.reasons c w (some s) e.1).near = false
      ∧ (t.reasons c w (some s) e.1).band = false := by
  by_contra hnone
  have hcard : t.keys.toFinset.card = t.size :=
    (List.toFinset_card_of_nodup t.keys_nodup).trans (List.length_map _)
  have hcover : t.keys.toFinset ⊆ (t.nearKeys c w (some s)).toFinset ∪ t.sparseKeys c := by
    intro key hkey
    obtain ⟨e, he, rfl⟩ := List.mem_map.mp (List.mem_toFinset.mp hkey)
    unfold sparseKeys
    rw [Finset.mem_union, List.mem_toFinset, Finset.mem_filter, and_iff_right hkey]
    by_contra hneither
    rw [not_or] at hneither
    refine hnone ⟨e, he, ?_, decide_eq_false hneither.2⟩
    exact Bool.eq_false_iff.mpr fun hin => hneither.1 (List.contains_iff_mem.mp hin)
  have hunion := (Finset.card_le_card hcover).trans (Finset.card_union_le _ _)
  have hnear := card_nearKeys_le (c := c) (w := w) t s
  have hsparse := card_sparseKeys_le c t
  omega

end Synaptome

namespace AdmissionGate

variable {g : AdmissionGate} {o : Offer}

/-- An offer of a member that is not in the table changes it, where there is room. -/
theorem offer_enters (hjoin : c.gate.kJoin = 0) (hroom : g.synaptome.size < c.cap)
    (hnew : o.sponsor ∉ g.synaptome.peers) :
    (g.step c o).synaptome = g.synaptome.seedInsert c o.sponsor := by
  have hholds : g.synaptome.holds o.sponsor = false :=
    Bool.eq_false_iff.mpr fun h => hnew (holds_iff.mp h)
  unfold step offer gateDecision laneDecision
  simp only [hholds, Bool.false_eq_true, if_false, if_pos hroom, hjoin, lt_irrefl, false_and]
  rfl

/-- An offer of one of the nearest members changes a table that is large enough. -/
theorem offer_swaps (hsound : g.synaptome.DrawnFrom c P) (ho : Offered P o) (hplain : Plain o)
    (hcap : c.gate.kNear + c.gate.sparseFloor * c.strataGroups < c.cap)
    (hfull : c.cap ≤ g.synaptome.size) (hnew : o.sponsor ∉ g.synaptome.peers)
    (hnear : (P.filter fun q => c.dist q < c.dist o.sponsor).card < c.gate.kNear)
    (hfree : ¬TextVictim c g o) : o.sponsor ∈ (g.step c o).synaptome.peers := by
  have hlive : ∀ p ∈ g.synaptome.peers, o.around.stale p = false :=
    fun p hp => ho.live p (hsound.member p hp)
  have hk : c.gate.kNear ≠ 0 := by omega
  have hlarge : c.gate.kNear ≤ g.synaptome.peers.length := by
    rw [← size_eq]
    omega
  -- no more peers of the table are closer than members of the population
  have hrank : rank c.dist g.synaptome.peers (c.dist o.sponsor) < c.gate.kNear := by
    refine lt_of_le_of_lt ?_ hnear
    unfold rank
    rw [List.countP_eq_length_filter, ← List.toFinset_card_of_nodup (hsound.nodup.filter _)]
    refine Finset.card_le_card fun q hq => ?_
    obtain ⟨hq, hlt⟩ := List.mem_filter.mp (List.mem_toFinset.mp hq)
    exact Finset.mem_filter.mpr ⟨hsound.member q hq, of_decide_eq_true hlt⟩
  have himproves := (nearImprove_iff hlive hsound.nodup hnew hk).mpr ⟨hlarge, hrank⟩
  obtain ⟨e, he, hfar, hband⟩ := exists_unprotected (c := c) (w := o.around)
    (lt_of_lt_of_le hcap hfull) o.sponsor
  have hservice : (g.synaptome.reasons c o.around (some o.sponsor) e.1).service = false := by
    unfold reasons
    rw [hplain.bridge]
    rfl
  have hev : g.synaptome.evictable c o.around o.sponsor e.1 = true := by
    simp [evictable, isProtected, hfar, hband, hservice, himproves]
  obtain ⟨v, hv⟩ := victim_isSome he hev
  obtain ⟨e', he', hkey, -⟩ := victim_mem hv
  have hnumber : v.key.isText = false :=
    Bool.eq_false_iff.mpr fun htext =>
      hfree ⟨hfull, himproves, v, hv, htext, hplain.duty _⟩
  have hholds : g.synaptome.holds o.sponsor = false :=
    Bool.eq_false_iff.mpr fun h => hnew (holds_iff.mp h)
  have hstep : (g.step c o).synaptome =
      seedInsert c (g.synaptome.delete v.key) o.sponsor := by
    unfold step offer gateDecision swapDecision
    simp only [hholds, Bool.false_eq_true, if_false, if_neg (not_lt.mpr hfull), if_neg hk, hv,
      hplain.duty, himproves, gateCommit, hnumber, Bool.and_false]
    rfl
  rw [hstep, hkey]
  have hperm := exchange_swap (c := c) he' hnew
  rcases List.mem_cons.mp (hperm.mem_iff.mp List.mem_cons_self) with heq | hin
  · exact absurd (heq ▸ mem_peers he') hnew
  · exact hin

/-- **The gate settles.** Along every endless sequence of offers of the members of a population of
which none is stale there are finitely many swaps, no band of more than `sparseFloor` peers falls
below it, and a large enough table that every member was offered to in vain holds the whole
population or its nearest members; provided that no victim of a swap that improves the near set is
entered under a text. -/
theorem swaps_settle (c : GateNode) (P : Finset NodeId) (g : AdmissionGate) (os : ℕ → Offer)
    (hjoin : c.gate.kJoin = 0) (hsound : g.synaptome.DrawnFrom c P) (ho : ∀ n, Offered P (os n))
    (hfree : ∀ n, ¬TextVictim c (along (step c) g os n) (os n)) : Settles c P g os := by
  have hkeep : ∀ (g : AdmissionGate) (o : Offer), g.synaptome.DrawnFrom c P → Offered P o →
      (g.step c o).synaptome.DrawnFrom c P :=
    fun g o hg ho => (change_offer c g _ _ _).drawnFrom hg ho.member
  have hall := along_invariant hkeep hsound ho
  refine ⟨?_, fun n b => (change_offer c _ _ _ _).floor b, fun hcap m n hsettled => ?_⟩
  · refine finite_of_descent (fun g => g.synaptome.unsettled c P) hkeep
      (fun g o hg ho => (change_offer c g _ _ _).unsettled_le hg ho.member ho.live) ?_ hsound ho
    rintro g o hg ho ⟨p, hp, hgone⟩
    have hchange := change_offer c g o.around o.now o.sponsor
    unfold step at hgone ⊢
    generalize (g.offer c o.around o.now o.sponsor).synaptome = t' at hchange hgone ⊢
    cases hchange with
    | same => exact absurd hp hgone
    | enter hnew hroom =>
      exact absurd ((peers_seedInsert c hnew).mem_iff.mpr (List.mem_cons_of_mem _ hp)) hgone
    | swap v hv hnew hfull hk hev hduty =>
      exact unsettled_swap hg ho.member ho.live hv hnew hk hev
  · -- the table stays what it is at the first step
    have hstays : ∀ i, m ≤ i → i < n → (along (step c) g os i).synaptome
        = (along (step c) g os m).synaptome := by
      intro i hmi
      induction i, hmi using Nat.le_induction with
      | base => exact fun _ => rfl
      | succ i hmi ih =>
        intro hi
        exact (hsettled.unchanged i hmi (Nat.lt_of_succ_lt hi)).trans (ih (Nat.lt_of_succ_lt hi))
    by_cases hroom : (along (step c) g os m).synaptome.size < c.cap
    · refine .inl fun p hp => ?_
      obtain ⟨i, hmi, hin, rfl⟩ := hsettled.offered p hp
      by_contra hout
      rw [← hstays i hmi hin] at hroom hout
      have henters := offer_enters hjoin hroom hout
      have hsame := hsettled.unchanged i hmi hin
      rw [along_succ, henters] at hsame
      refine hout (hsame ▸ (peers_seedInsert c hout).mem_iff.mpr List.mem_cons_self)
    · refine .inr fun p hp hnear => ?_
      obtain ⟨i, hmi, hin, rfl⟩ := hsettled.offered p hp
      by_contra hout
      rw [← hstays i hmi hin] at hroom hout
      have hsame := hsettled.unchanged i hmi hin
      refine hout (hsame ▸ ?_)
      exact offer_swaps (hall i) (ho i) (hsettled.plain i hmi hin) hcap (not_lt.mp hroom) hout
        hnear (hfree i)

/-- A node that protects its nearest peer, with two places in its table. -/
def nearestOnly : GateNode := { id := 0, gate := { kNear := 1, sparseFloor := 0 }, cap := 2 }

/-- The table of the peers 2 and 4, under keys of a form. -/
def twoPeers (key : NodeId → TableKey) : AdmissionGate where
  synaptome := (OrderedMap.set ∅ (key 2) ⟨key 2, 1 / 2, 50, 62, some 0, none⟩).set (key 4)
    ⟨key 4, 1 / 2, 50, 61, some 0, none⟩
  lane := ⟨∅, 0⟩

/-- The peers 1, 2 and 4, offered over and over. -/
def cycle (n : ℕ) : Offer where
  sponsor := if n % 3 = 0 then 1 else if n % 3 = 1 then 2 else 4
  around := ⟨fun _ => false, none, fun _ => false, fun s => some s.weight⟩
  now := 0

theorem offered_cycle (n : ℕ) : Offered {1, 2, 4} (cycle n) := by
  refine ⟨?_, fun _ _ => rfl⟩
  unfold cycle
  split_ifs <;> decide

/-- A table in which every peer is entered under its id. -/
def Live (g : AdmissionGate) : Prop := ∀ e ∈ g.synaptome.entries, e.1.isText = false

theorem Live.step (h : g.Live) (o : Offer) : (g.step c o).Live := by
  have hinsert : ∀ (t : Synaptome), (∀ e ∈ t.entries, e.1.isText = false) →
      ∀ e ∈ (t.seedInsert c o.sponsor).entries, e.1.isText = false := by
    intro t ht e he
    rcases List.mem_cons.mp ((entries_set_perm t _ _).mem_iff.mp he) with rfl | he
    · rfl
    · exact ht e (List.mem_filter.mp he).1
  have hchange := change_offer c g o.around o.now o.sponsor
  unfold Live AdmissionGate.step
  generalize (g.offer c o.around o.now o.sponsor).synaptome = t' at hchange ⊢
  cases hchange with
  | same => exact h
  | enter hnew hroom => exact hinsert _ h
  | swap v hv hnew hfull hk hev hduty =>
    exact hinsert _ fun e he => h e (List.mem_filter.mp he).1

theorem Live.not_textVictim (h : g.Live) (o : Offer) : ¬TextVictim c g o := by
  rintro ⟨-, -, v, hv, htext, -⟩
  obtain ⟨e, he, hkey, -⟩ := victim_mem hv
  rw [hkey, h e he] at htext
  cases htext

/-- The gate of a table of ids settles. -/
theorem ids_settle : Settles nearestOnly {1, 2, 4} (twoPeers .big) cycle :=
  swaps_settle nearestOnly {1, 2, 4} (twoPeers .big) cycle rfl
    ⟨by decide, by decide, by decide⟩ offered_cycle
    fun n => (along_invariant (C := fun _ => True) (fun _ o h _ => h.step o)
      (show (twoPeers .big).Live by unfold Live; decide) (fun _ => trivial) n).not_textVictim _

/-- **A text stands in the way of a nearer peer**: the swap throws, and the table stays without
its nearest peer however often the peer is offered. -/
theorem texts_stay : ¬Settles nearestOnly {1, 2, 4} (twoPeers .hex) cycle := by
  intro h
  have hsame : ∀ i < 3, (along (step nearestOnly) (twoPeers .hex) cycle (i + 1)).synaptome.entries
      = (along (step nearestOnly) (twoPeers .hex) cycle i).synaptome.entries := by decide +kernel
  have hoffered : ∀ p ∈ ({1, 2, 4} : Finset NodeId), ∃ i < 3, (cycle i).sponsor = p := by decide
  have hsettled : Settled nearestOnly {1, 2, 4} (twoPeers .hex) cycle 0 3 := by
    refine ⟨fun i _ hi => OrderedMap.ext (hsame i hi), fun p hp => ?_,
      fun _ _ _ => ⟨fun _ => rfl, rfl⟩⟩
    obtain ⟨i, hi, hp⟩ := hoffered p hp
    exact ⟨i, Nat.zero_le i, hi, hp⟩
  rcases h.nearest (by decide) 0 3 hsettled with hwhole | hnearest
  · exact absurd (hwhole 1 (by decide)) (by decide)
  · exact absurd (hnearest 1 (by decide) (by decide)) (by decide)

end AdmissionGate

end Axona
