import Axona.Dht.Strata
import Axona.Library.Transition
import Axona.Safety.Gate

/-! # One stratum for one distance

`_clz` looks at the lowest 64 bits of a distance, `clz264` at all of them. A synapse made by a seed
or by candidate admission therefore has the stratum of its distance only where the two counts
happen to be the same; the others have it always. -/

namespace Axona

open Library OrderedMap

/-! ### The two counts -/

theorem clz32_eq {n : Nat} (h : n < 2 ^ 32) : clz32 n = leadingZeros 32 n := by
  rw [leadingZeros_eq_log2 h]
  rfl

theorem clz264_eq {w n : Nat} (h : n < 2 ^ w) : clz264 w n = leadingZeros w n :=
  (leadingZeros_eq_log2 h).symm

/-- `_clz` counts in the lowest 64 bits. -/
theorem clz_eq (xor : Nat) : clz xor = leadingZeros 64 xor := by
  have hhi : (xor >>> 32) % 2 ^ 32 < 2 ^ 32 := Nat.mod_lt _ (Nat.two_pow_pos 32)
  have hlo : xor % 2 ^ 32 < 2 ^ 32 := Nat.mod_lt _ (Nat.two_pow_pos 32)
  have hhalves := leadingZeros_add 32 32 xor
  unfold clz
  rw [clz32_eq hhi, clz32_eq hlo, leadingZeros_mod, leadingZeros_mod]
  by_cases h0 : xor = 0
  · rw [if_pos h0, h0, leadingZeros_zero]
  rw [if_neg h0]
  by_cases hzero : (xor >>> 32) % 2 ^ 32 = 0
  · rw [if_pos hzero] at hhalves
    rw [if_neg (not_not_intro hzero), hhalves]
  · rw [if_neg hzero] at hhalves
    rw [if_pos hzero, hhalves]

/-- Counted from the top, the two ids part at the same place in the whole id and in its lowest 64
bits. -/
def GateNode.Alike (c : GateNode) (p : NodeId) : Prop :=
  ∃ k, PartAfter c.idBits c.id p k ∧ PartAfter 64 c.id p k

variable {c : GateNode}

theorem alike_iff {p : NodeId} :
    c.Alike p ↔ clz (c.dist p) = leadingZeros c.idBits (c.dist p) := by
  rw [clz_eq]
  refine ⟨fun ⟨k, hwhole, hlow⟩ => ?_, fun h => ⟨_, partAfter_iff.mpr rfl, partAfter_iff.mpr h⟩⟩
  exact (partAfter_iff.mp hlow).trans (partAfter_iff.mp hwhole).symm

/-! ### The strata of the synapses -/

/-- The stratum of the synapse counts the leading zeros of its distance, over the whole width. -/
def Synapse.Counted (c : GateNode) (x : Synapse) : Prop :=
  x.stratum = leadingZeros c.idBits (c.dist x.peerId.id)

/-- The peer of the synapse is of the keyspace. -/
def Synapse.Within (c : GateNode) (x : Synapse) : Prop := x.peerId.id < 2 ^ c.idBits

theorem GateNode.dist_lt (hself : c.id < 2 ^ c.idBits) {p : NodeId} (hp : p < 2 ^ c.idBits) :
    c.dist p < 2 ^ c.idBits := Nat.xor_lt_two_pow hself hp

/-- The group of a stratum is that of the peer. -/
theorem Synapse.Counted.group {x : Synapse} (h : x.Counted c) (hx : x.Within c)
    (hself : c.id < 2 ^ c.idBits) :
    min ((c.strataGroups : Nat) - 1) (x.stratum >>> 2) = c.groupOf x.peerId.id := by
  unfold GateNode.groupOf
  rw [clz264_eq (GateNode.dist_lt hself hx), ← h]

/-- What a call that waits is about: a counted synapse, a group, or a peer of the keyspace. -/
def Call.InKeyspace (c : GateNode) : Call → Prop
  | .vitality peer syn _ => syn.Counted c ∧ syn.peerId = .big peer ∧ peer < 2 ^ c.idBits
  | .closing group | .probing group => group < c.strataGroups
  | .replacing peer _ => peer < 2 ^ c.idBits

/-- The decision seats the sponsor: `_gateCommit` gets to its `_seedInsert`. -/
def Admission.seats : Admission → Bool
  | .room | .lane _ _ => true
  | .swap victimKey near => !(near && victimKey.isText)
  | .refuse _ | .throws => false

/-! ### The inserts -/

namespace Inserts

/-- The synapses of the table are counted, and so is what waits for a place in it. -/
structure Counted (c : GateNode) (s : Inserts) : Prop where
  table : s.gate.synaptome.All fun _ x => x.Counted c ∧ x.Within c
  calls : s.calls.All fun _ call => call.InKeyspace c

variable {c : InsertConfig} {s : Inserts} {k : Nat}

/-- What `_localCandidate` picks is one of the replies, in the group it was asked for. -/
theorem mem_localCandidates {eligible : NodeId → Bool} {group : Nat} {replies : List NodeId}
    {id : NodeId} (h : id ∈ s.localCandidates c eligible group replies) :
    id ∈ replies ∧ group * 4 ≤ clz264 c.node.idBits (c.node.dist id)
      ∧ clz264 c.node.idBits (c.node.dist id) ≤ group * 4 + 3 := by
  obtain ⟨hmem, hfilter⟩ := List.mem_filter.mp (List.mem_of_mem_take h)
  simp only [Bool.and_eq_true, decide_eq_true_eq] at hfilter
  exact ⟨hmem, hfilter.1.2, hfilter.2⟩

namespace Counted

section

variable (h : s.Counted c.node)
include h

theorem waits {call : Call} (hcall : call.InKeyspace c.node) :
    (s.waits k call).Counted c.node := ⟨h.table, h.calls.set hcall⟩

theorem wait {call : Call} (hcall : call.InKeyspace c.node) :
    (s.wait call).Counted c.node := ⟨h.table, h.calls.set hcall⟩

theorem ends : (s.ends k).Counted c.node := ⟨h.table, h.calls.delete⟩

theorem addSynapse {peer : NodeId} {x : Synapse} (hx : x.Counted c.node)
    (hin : x.Within c.node) : (s.addSynapse peer x).Counted c.node :=
  ⟨h.table.set ⟨hx, hin⟩, h.calls⟩

end

theorem delete {c : GateNode} (h : s.Counted c) (key : TableKey) :
    Counted c { s with gate.synaptome := s.gate.synaptome.delete key } :=
  ⟨h.table.delete, h.calls⟩

variable (h : s.Counted c.node)
include h

theorem addByVitality {peer : NodeId} {x : Synapse}
    (hcall : s.gate.synaptome.size < c.node.cap → (Call.vitality peer x none).InKeyspace c.node) :
    (s.addByVitality c peer x).Counted c.node := by
  unfold Inserts.addByVitality
  split
  · exact h
  next hroom => exact h.wait (hcall (Nat.lt_of_not_le hroom))

theorem answer (opened : Bool) : (s.answer k opened).Counted c.node := by
  unfold Inserts.answer
  split
  · next peer syn hcall =>
    have hsound := h.calls k _ hcall
    exact h.waits hsound
  · next peer hcall =>
    have hsound := h.calls k _ hcall
    exact h.waits hsound
  · exact h

theorem resume (hself : c.node.id < 2 ^ c.node.idBits) (allowed : Bool)
    (latency : ℚ) : (s.resume c k allowed latency).Counted c.node := by
  unfold Inserts.resume
  split
  · next peer syn opened hcall =>
    obtain ⟨hsyn, hpeer, hin⟩ := h.calls k _ hcall
    split
    · refine h.ends.addSynapse hsyn ?_
      show syn.peerId.id < _
      rw [hpeer]
      exact hin
    · exact h.ends
  · next peer opened hcall =>
    have hin := h.calls k _ hcall
    split
    · refine h.ends.addSynapse ?_ hin
      exact clz264_eq (GateNode.dist_lt hself hin)
    · exact h.ends
  · exact h

theorem closed : (s.step c (.closed k)).Counted c.node := by
  unfold Inserts.step
  simp only []
  split
  · next group hcall =>
    have hgroup := h.calls k _ hcall
    split
    · exact h.ends
    · exact h.waits hgroup
  · exact h

theorem probed (eligible : NodeId → Bool) {replies : List NodeId}
    (pick : Nat) (hin : ∀ p ∈ replies, p < 2 ^ c.node.idBits) :
    (s.step c (.probed k eligible replies pick)).Counted c.node := by
  unfold Inserts.step
  simp only []
  split
  · split
    · exact h.ends
    next hpick =>
    split
    · exact h.ends
    · exact h.waits (hin _ (mem_localCandidates (List.mem_of_getElem? hpick)).1)
  · exact h

end Counted

end Inserts

namespace Strata

variable {c : StrataConfig} {s : Strata}

/-- `_seedSynaptomeWithSponsor` gets to its `_seedInsert`. -/
def seats (c : StrataConfig) (s : Strata) (w : Surroundings) (now : Int) (sponsor : NodeId)
    (allowed : Bool) : Bool :=
  allowed && !s.table.holds sponsor
    && (!c.gated || (s.table.gateDecision c.node w s.inserts.gate.lane now sponsor).1.seats)

/-- The peers of the act are of the keyspace. -/
def ActWithin (c : StrataConfig) : StrataAct → Prop
  | .seed _ _ p _ | .candidate p _ _ | .incoming p _ _ | .promote p _ | .hopCache p _ =>
    p < 2 ^ c.node.idBits
  | .probed _ _ replies _ => ∀ p ∈ replies, p < 2 ^ c.node.idBits
  | _ => True

/-- What is asked of an act. -/
structure Counts (c : StrataConfig) (s : Strata) (a : StrataAct) : Prop where
  /-- The synapses of the table are counted. -/
  table : (s.step c a).table.All fun _ x => x.Counted c.node
  /-- So are those that are made for it and wait. -/
  made : ∀ k peer x opened,
    (s.step c a).inserts.calls.get k = some (.vitality peer x opened) → x.Counted c.node
  /-- The one after a dead synapse is sought in the group of the dead one. -/
  sought : ∀ i deadSyn, a = .evict i → s.deadSynapses[i]? = some deadSyn →
    (s.step c a).inserts.calls.get s.inserts.nextCall
      = some (.closing (c.node.groupOf deadSyn.peerId.id))
  /-- And it is found there. -/
  found : ∀ k eligible replies pick group peer, a = .probed k eligible replies pick →
    s.inserts.calls.get k = some (.probing group) →
    (s.step c a).inserts.calls.get k = some (.replacing peer none) → c.node.groupOf peer = group

/-- A peer that is seeded, or admitted as a candidate, parts from the node at the same place in the
whole id and in its lowest 64 bits; and one that is promoted was registered with the number of
leading bits that its id shares with the node's. -/
def PartsAlike (c : StrataConfig) (s : Strata) : StrataAct → Prop
  | .seed w now p allowed => s.seats c w now p allowed = true → c.node.Alike p
  | .candidate p eligible _ =>
    p ≠ c.node.id → s.table.has (.big p) = false → eligible = true →
      s.table.size < c.node.cap → c.node.Alike p
  | .promote p _ => ∀ inc, s.incomingSynapses.get p = some inc → s.table.has (.big p) = false →
      s.table.size < c.node.cap → PartAfter c.node.idBits c.node.id p inc.stratum
  | _ => True

/-- All synapses of the node are counted and of its keyspace. -/
structure AllCounted (c : StrataConfig) (s : Strata) : Prop where
  inserts : s.inserts.Counted c.node
  dead : ∀ x ∈ s.deadSynapses, x.Counted c.node ∧ x.Within c.node

/-! ### What a seed enters -/

variable {p : NodeId}

/-- The synapse of a seed is counted exactly where the two ids are alike. -/
theorem seedInsert_counted {t : Synaptome}
    (h : t.All fun _ x => x.Counted c.node ∧ x.Within c.node) (hp : p < 2 ^ c.node.idBits)
    (halike : c.node.Alike p) :
    (t.seedInsert c.node p).All fun _ x => x.Counted c.node ∧ x.Within c.node :=
  OrderedMap.All.set h ⟨alike_iff.mp halike, hp⟩

theorem alike_of_seedInsert {t : Synaptome}
    (h : (t.seedInsert c.node p).All fun _ x => x.Counted c.node) : c.node.Alike p := by
  have hseed := OrderedMap.All.of_set h
  exact alike_iff.mpr hseed

/-- What `_gateCommit` makes of the table: the sponsor is seeded, into the table or what a swap
leaves of it, or nothing happens. -/
theorem gateCommit_cases (c : GateNode) (t : Synaptome) (p : NodeId) (d : Admission) :
    (d.seats = true ∧ ∃ t' : Synaptome, (∀ P : TableKey → Synapse → Prop, t.All P → t'.All P)
      ∧ (t.gateCommit c p d).getD t = t'.seedInsert c p)
    ∨ d.seats = false ∧ (t.gateCommit c p d).getD t = t := by
  cases d with
  | refuse why | throws => exact .inr ⟨rfl, rfl⟩
  | room | lane laneKey now => exact .inl ⟨rfl, t, fun _ h => h, rfl⟩
  | swap victimKey near =>
    have hseats : (Admission.swap victimKey near).seats = !(near && victimKey.isText) := rfl
    have hcommit : t.gateCommit c p (.swap victimKey near) = if near && victimKey.isText then none
          else some (Synaptome.seedInsert c (t.delete victimKey) p) := rfl
    rw [hseats, hcommit]
    cases near && victimKey.isText with
    | true => exact .inr ⟨rfl, rfl⟩
    | false => exact .inl ⟨rfl, t.delete victimKey, fun _ h => h.delete, rfl⟩

/-- What a seed makes of the node. -/
theorem seed_cases (c : StrataConfig) (s : Strata) (w : Surroundings) (now : Int) (p : NodeId)
    (allowed : Bool) : (s.seed c w now p allowed).inserts.calls = s.inserts.calls
    ∧ (s.seed c w now p allowed).deadSynapses = s.deadSynapses
    ∧ ((s.seats c w now p allowed = true ∧ ∃ t' : Synaptome,
        (∀ P : TableKey → Synapse → Prop, s.table.All P → t'.All P)
        ∧ (s.seed c w now p allowed).table = t'.seedInsert c.node p)
      ∨ s.seats c w now p allowed = false ∧ (s.seed c w now p allowed).table = s.table) := by
  unfold seed seats
  cases allowed with
  | false =>
    cases c.gated with
    | false =>
      rw [Bool.not_false, Bool.or_true]
      exact ⟨rfl, rfl, .inr ⟨rfl, rfl⟩⟩
    | true => exact ⟨rfl, rfl, .inr ⟨rfl, rfl⟩⟩
  | true =>
    cases hgated : c.gated with
    | false =>
      cases hholds : s.table.holds p with
      | true => exact ⟨rfl, rfl, .inr ⟨rfl, rfl⟩⟩
      | false => exact ⟨rfl, rfl, .inl ⟨rfl, s.table, fun _ h => h, rfl⟩⟩
    | true =>
      refine ⟨rfl, rfl, ?_⟩
      show _ ∨ _ ∧ (s.inserts.gate.offer c.node w now p).synaptome = s.table
      unfold AdmissionGate.offer
      cases hholds : s.table.holds p with
      | true => exact .inr ⟨rfl, rfl⟩
      | false =>
        have hcases := gateCommit_cases c.node s.table p
          (s.table.gateDecision c.node w s.inserts.gate.lane now p).1
        simpa only [Bool.true_and, Bool.not_false, Bool.not_true, Bool.false_or, if_true, act,
          Inserts.step, AdmissionGate.offer, hholds, Bool.false_eq_true, if_false] using hcases

/-! ### What every act keeps -/

namespace AllCounted

theorem of_inserts (h : AllCounted c s) {i : Inserts} (hi : i.Counted c.node) :
    AllCounted c { s with inserts := i } := ⟨hi, h.dead⟩

theorem seed (h : AllCounted c s) {w : Surroundings} {now : Int} {p : NodeId} {allowed : Bool}
    (hp : p < 2 ^ c.node.idBits) (hclear : s.seats c w now p allowed = true → c.node.Alike p) :
    AllCounted c (s.seed c w now p allowed) := by
  obtain ⟨hcalls, hdead, htable⟩ := seed_cases c s w now p allowed
  refine ⟨⟨?_, hcalls ▸ h.inserts.calls⟩, hdead ▸ h.dead⟩
  show (s.seed c w now p allowed).table.All _
  rcases htable with ⟨hseats, t', ht', heq⟩ | ⟨-, heq⟩
  · rw [heq]
    exact seedInsert_counted (ht' _ h.inserts.table) hp (hclear hseats)
  · rw [heq]
    exact h.inserts.table

/-- A dead synapse that weighs nothing keeps its peer and its stratum. -/
theorem weighed {x : Synapse} (h : x.Counted c.node ∧ x.Within c.node) (dead : Bool) :
    (if dead then { x with weight := 0 } else x).Counted c.node
      ∧ (if dead then { x with weight := 0 } else x).Within c.node := by
  cases dead with
  | false | true => exact h

theorem lookup (h : AllCounted c s) (queried dead : NodeId → Bool) (target : NodeId) :
    AllCounted c (s.lookup c queried dead target) := by
  unfold Strata.lookup
  split
  · exact h
  next ids candidates hscan =>
  refine ⟨⟨fun key x hget => ?_, h.inserts.calls⟩, fun x hx => ?_⟩
  · have hget' := hget
    rw [get_filterMap] at hget'
    obtain ⟨y, hy, hx⟩ := Option.bind_eq_some_iff.mp hget'
    cases hx
    exact weighed (h.inserts.table key y hy) _
  · rcases List.mem_append.mp hx with hx | hx
    · exact h.dead x hx
    · obtain ⟨e, he, rfl⟩ := List.mem_map.mp (List.mem_filter.mp hx).1
      exact weighed (h.inserts.table e.1 e.2 (get_of_mem he)) _

theorem evict (h : AllCounted c s) (i : Nat) : AllCounted c (s.evict c i) := by
  unfold Strata.evict
  split
  · exact h
  next deadSyn hget =>
  refine ⟨?_, fun x hx => h.dead x (List.mem_of_mem_eraseIdx hx)⟩
  have hwithout := h.inserts.delete deadSyn.peerId
  refine hwithout.wait (c := c.toInsertConfig) ?_
  exact lt_of_le_of_lt (min_le_left _ _) (Nat.sub_lt c.node.strataGroups.pos Nat.one_pos)

/-- The step lemma. -/
theorem step (h : AllCounted c s) (hself : c.node.id < 2 ^ c.node.idBits) {a : StrataAct}
    (ha : ActWithin c a) (hclear : PartsAlike c s a) : AllCounted c (s.step c a) := by
  cases a with
  | seed w now p allowed => exact h.seed ha hclear
  | candidate p eligible inertia =>
    refine h.of_inserts ?_
    unfold Inserts.step
    simp only []
    split
    · exact h.inserts
    next hnew =>
    obtain ⟨hown, hmissing⟩ := not_or.mp hnew
    split
    · next heligible =>
      refine h.inserts.addByVitality fun hroom => ⟨?_, rfl, ha⟩
      exact alike_iff.mp (hclear hown (Bool.eq_false_iff.mpr hmissing) heligible hroom)
    · exact h.inserts
  | incoming p latency stratum =>
    unfold Strata.step addIncoming
    simp only []
    split
    · exact h
    · exact ⟨h.inserts, h.dead⟩
  | promote p inertia =>
    unfold Strata.step promote
    simp only []
    split
    · exact h
    next inc hinc =>
    split
    · exact h
    next hmissing =>
    refine h.of_inserts (h.inserts.addByVitality fun hroom => ⟨?_, rfl, ha⟩)
    have hshared := hclear inc hinc (Bool.eq_false_iff.mpr hmissing) hroom
    exact (partAfter_iff.mp hshared).symm
  | promoted p => exact ⟨h.inserts, h.dead⟩
  | hopCache p inertia =>
    refine h.of_inserts ?_
    unfold Inserts.step
    simp only []
    split
    · exact h.inserts
    · refine h.inserts.addByVitality fun _ => ⟨?_, rfl, ha⟩
      exact clz264_eq (GateNode.dist_lt hself ha)
  | lookup queried dead target => exact h.lookup queried dead target
  | evict i => exact h.evict i
  | closed k => exact h.of_inserts h.inserts.closed
  | probed k eligible replies pick => exact h.of_inserts (h.inserts.probed eligible pick ha)
  | answered k opened => exact h.of_inserts (h.inserts.answer opened)
  | resume k allowed latency => exact h.of_inserts (h.inserts.resume hself allowed latency)
  | gone key => exact h.of_inserts (h.inserts.delete key)

end AllCounted

/-! ### What an act is asked for -/

theorem sought_evict (h : AllCounted c s) (hself : c.node.id < 2 ^ c.node.idBits) {i : Nat}
    {deadSyn : Synapse} (hdead : s.deadSynapses[i]? = some deadSyn) :
    (s.step c (.evict i)).inserts.calls.get s.inserts.nextCall
      = some (.closing (c.node.groupOf deadSyn.peerId.id)) := by
  obtain ⟨hcounted, hin⟩ := h.dead deadSyn (List.mem_of_getElem? hdead)
  rw [← hcounted.group hin hself]
  have hstep : s.step c (.evict i) = { s.act c (.evict deadSyn.peerId deadSyn.stratum) with
      deadSynapses := s.deadSynapses.eraseIdx i } := by
    unfold step evict
    simp only [hdead]
  rw [hstep]
  show (s.inserts.calls.set s.inserts.nextCall _).get s.inserts.nextCall = _
  rw [get_set, if_pos rfl]

/-- A peer within the bounds of a group is of the group. -/
theorem groupOf_eq {c : GateNode} {group : Nat} (hgroup : group < c.strataGroups)
    (hlo : group * 4 ≤ clz264 c.idBits (c.dist p))
    (hhi : clz264 c.idBits (c.dist p) ≤ group * 4 + 3) : c.groupOf p = group := by
  unfold GateNode.groupOf
  rw [Nat.shiftRight_eq_div_pow]
  omega

theorem found_probed (h : AllCounted c s) {k pick group : Nat} {eligible : NodeId → Bool}
    {replies : List NodeId} {peer : NodeId} (hcall : s.inserts.calls.get k = some (.probing group))
    (hfound : (s.step c (.probed k eligible replies pick)).inserts.calls.get k
      = some (.replacing peer none)) : c.node.groupOf peer = group := by
  have hgroup := h.inserts.calls k _ hcall
  have hfound' : (s.inserts.step c.toInsertConfig (.probed k eligible replies pick)).calls.get k
      = some (.replacing peer none) := hfound
  unfold Inserts.step at hfound'
  simp only [hcall] at hfound'
  split at hfound'
  · have hnone : (s.inserts.calls.delete k).get k = some (.replacing peer none) := hfound'
    rw [get_delete, if_pos rfl] at hnone
    cases hnone
  next id hpick =>
  split at hfound'
  · have hnone : (s.inserts.calls.delete k).get k = some (.replacing peer none) := hfound'
    rw [get_delete, if_pos rfl] at hnone
    cases hnone
  have hset : (s.inserts.calls.set k (.replacing id none)).get k
      = some (.replacing peer none) := hfound'
  rw [get_set, if_pos rfl] at hset
  obtain rfl : id = peer := by
    cases hset
    rfl
  obtain ⟨-, hlo, hhi⟩ := Inserts.mem_localCandidates (List.mem_of_getElem? hpick)
  exact groupOf_eq hgroup hlo hhi

/-- A call that begins to wait is the next one. -/
theorem get_addByVitality {i : Inserts} {peer : NodeId} {x : Synapse}
    (hroom : i.gate.synaptome.size < c.node.cap) :
    (i.addByVitality c.toInsertConfig peer x).calls.get i.nextCall
      = some (.vitality peer x none) := by
  unfold Inserts.addByVitality
  rw [if_neg (Nat.not_le_of_lt hroom)]
  show (i.calls.set i.nextCall _).get i.nextCall = _
  rw [get_set, if_pos rfl]

theorem clear_of_counts {a : StrataAct} (h : Counts c s a) : PartsAlike c s a := by
  cases a with
  | seed w now p allowed =>
    intro hseats
    obtain ⟨-, -, ⟨-, t', -, heq⟩ | ⟨hno, -⟩⟩ := seed_cases c s w now p allowed
    · have htable : (s.seed c w now p allowed).table.All fun _ x => x.Counted c.node := h.table
      rw [heq] at htable
      exact alike_of_seedInsert htable
    · rw [hno] at hseats
      cases hseats
  | candidate p eligible inertia =>
    intro hown hmissing heligible hroom
    have hmade := h.made s.inserts.nextCall p
      (Inserts.candidateSynapse p (clz (c.node.dist p)) inertia) none
    have hnew : ¬(p = c.node.id ∨ s.table.has (.big p) = true) := by
      rintro (he | he)
      · exact hown he
      · rw [hmissing] at he
        cases he
    have hstep : (s.step c (.candidate p eligible inertia)).inserts
        = s.inserts.addByVitality c.toInsertConfig p
          (Inserts.candidateSynapse p (clz (c.node.dist p)) inertia) := by
      show s.inserts.step c.toInsertConfig (.candidate p eligible inertia) = _
      unfold Inserts.step
      simp only [if_neg hnew, heligible, if_true]
    rw [hstep] at hmade
    exact alike_iff.mpr (hmade (get_addByVitality hroom))
  | promote p inertia =>
    intro inc hinc hmissing hroom
    have hmade := h.made s.inserts.nextCall p (promotedSynapse p inc inertia) none
    have hstep : (s.step c (.promote p inertia)).inserts
        = s.inserts.addByVitality c.toInsertConfig p (promotedSynapse p inc inertia) := by
      unfold step promote
      simp only [hinc, hmissing, Bool.false_eq_true, if_false]
    rw [hstep] at hmade
    have hcounted := hmade (get_addByVitality hroom)
    exact partAfter_iff.mpr hcounted.symm
  | _ => trivial

theorem counts_of_clear (h : AllCounted c s) (hself : c.node.id < 2 ^ c.node.idBits) {a : StrataAct}
    (ha : ActWithin c a) (hclear : PartsAlike c s a) : Counts c s a := by
  have hwhole := h.step hself ha hclear
  refine ⟨hwhole.inserts.table.mono fun _ _ hx => hx.1, fun k peer x opened hcall => ?_, ?_, ?_⟩
  · exact (hwhole.inserts.calls k _ hcall).1
  · rintro i deadSyn rfl hdead
    exact sought_evict h hself hdead
  · rintro k eligible replies pick group peer rfl hcall hfound
    exact found_probed h hcall hfound

/-- **The strata.** A run gives every synapse the leading zeros of its distance over the whole id,
and seeks the one after a dead synapse in the group of the dead one, exactly if it is clear: each
peer that is seeded or admitted as a candidate parts from the node at the same place in the whole id
and in its lowest 64 bits. -/
theorem strata_counted_iff (c : StrataConfig) (hself : c.node.id < 2 ^ c.node.idBits)
    (t : Synaptome) (ht : t.All fun _ x => x.Counted c.node ∧ x.Within c.node)
    (as : List StrataAct) (has : ∀ a ∈ as, ActWithin c a) :
    EachStep (step c) (Counts c) (init t) as ↔ EachStep (step c) (PartsAlike c) (init t) as := by
  refine EachStep.agree_iff_of_labels (I := AllCounted c) (L := ActWithin c)
    (fun s a ha hs hclear => hs.step hself ha hclear)
    (fun s a ha hs => ⟨clear_of_counts, counts_of_clear hs hself ha⟩) ?_ has
  refine ⟨⟨ht, OrderedMap.all_empty⟩, fun x hx => ?_⟩
  cases hx

/-- A node without the gate, in region `0x12`. -/
def plainNode : StrataConfig where
  node := { AdmissionGate.nearestOnly with id := 0x12 <<< 256 + 4, gate := {}, cap := 20 }
  gated := false

/-- A peer of region `0x92`, in the other half of the keyspace. -/
def farPeer : NodeId := 0x92 <<< 256 + 5

/-- Nothing is stale, and nothing is owed. -/
def quiet : Surroundings := ⟨fun _ => false, none, fun _ => false, fun _ => none⟩

/-- A peer that parts from the node at the first bit, of the id and of its lowest 64 bits, is seeded,
and the far one comes in by the hop cache. -/
theorem strata_counted_sample :
    EachStep (step plainNode) (Counts plainNode) (init ∅)
      [.seed quiet 0 (0x92 <<< 256 + 2 ^ 63) true, .hopCache farPeer 0, .answered 0 true,
        .resume 0 true 20] := by
  refine (strata_counted_iff plainNode (by decide +kernel) ∅ OrderedMap.all_empty _ ?_).mpr
    ⟨fun _ => ?_, trivial, trivial, trivial, trivial⟩
  · intro a ha
    simp only [List.mem_cons, List.not_mem_nil, or_false] at ha
    rcases ha with rfl | rfl | rfl | rfl
    · show _ < _
      decide +kernel
    · show _ < _
      decide +kernel
    · trivial
    · trivial
  · exact alike_iff.mpr (by decide +kernel)

/-- **The far peer is seeded into the nearest group**: its synapse has stratum 63, and the one after
it is sought in group 3, while the gate counts it in group 0. -/
theorem far_peer_misplaced :
    ¬EachStep (step plainNode) (Counts plainNode) (init ∅) [.seed quiet 0 farPeer true]
      ∧ (run (step plainNode) (init ∅) [.seed quiet 0 farPeer true,
          .lookup (fun _ => false) (fun _ => true) farPeer, .evict 0]).inserts.calls.get 0
        = some (.closing 3)
      ∧ plainNode.node.groupOf farPeer = 0 := by
  refine ⟨?_, by decide +kernel, by decide +kernel⟩
  rintro ⟨hcounts, -⟩
  have hget : ((step plainNode (init ∅) (.seed quiet 0 farPeer true)).table.get
      (.big farPeer)).map (fun x => (x.peerId, x.stratum)) = some (.big farPeer, 63) := by
    decide +kernel
  obtain ⟨x, hx, hmap⟩ := Option.map_eq_some_iff.mp hget
  obtain ⟨hpeer, hstratum⟩ := Prod.mk.inj hmap
  have hcounted : x.stratum = leadingZeros 264 (plainNode.node.dist x.peerId.id) :=
    hcounts.table _ _ hx
  rw [hpeer, hstratum] at hcounted
  exact absurd hcounted (by decide +kernel)

end Strata

end Axona
