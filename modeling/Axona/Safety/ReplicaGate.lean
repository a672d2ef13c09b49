import Axona.Pubsub.ReplicaGate

/-! # The signature and what it stands for

The delta gate compares numbers of entries, not entries, and records its signature whether or not
the push was consumed. So it is right as long as nothing that was pushed has gone, because then equal
numbers are equal contents, and as long as a push on record was consumed. -/

namespace Axona

open Library OrderedMap

/-! ### Equal numbers -/

theorem Role.activeTomb_of_notMem {r : Role} {now : Int} {id : MsgId}
    (h : id ∉ r.tombstones.keys) : r.activeTomb now id = false := by
  have hnone : r.tombstones.get id = none := by
    rw [← Option.not_isSome_iff_eq_none]
    intro hsome
    exact h (has_iff_mem_keys.mp hsome)
  simp [Role.activeTomb, hnone]

/-- **Where nothing has gone, equal signatures mean equal contents.** -/
theorem FullPush.Stays.same {p q : FullPush} (h : p.Stays q)
    (hsig : p.role.replicaSig = q.role.replicaSig) : p.Same q := by
  obtain ⟨hids, htombs⟩ := h
  simp only [Role.replicaSig, ReplicaSig.mk.injEq] at hsig
  obtain ⟨hcount, -, hsize⟩ := hsig
  have hperm : p.ids.Perm q.ids := by
    refine hids.perm_of_length_le ?_
    simp only [FullPush.ids, List.length_map]
    exact Nat.le_of_eq hcount.symm
  refine ⟨fun id => hperm.mem_iff, fun id => ?_⟩
  by_cases hid : id ∈ p.role.tombstones.keys
  · exact (htombs id hid).2
  -- as many tombstones, and none of the old ones gone: there is no new one
  have hkeys : p.role.tombstones.keys.Perm q.role.tombstones.keys := by
    have hsub : p.role.tombstones.keys.Subperm q.role.tombstones.keys :=
      p.role.tombstones.keys_nodup.subperm fun id' hid' => (htombs id' hid').1
    refine hsub.perm_of_length_le ?_
    rw [← size_eq_length_keys, ← size_eq_length_keys]
    exact Nat.le_of_eq hsize.symm
  have hid' : id ∉ q.role.tombstones.keys := fun hmem => hid (hkeys.mem_iff.mpr hmem)
  rw [Role.activeTomb_of_notMem hid, Role.activeTomb_of_notMem hid']

theorem FullPush.Same.trans {p q r : FullPush} (h : p.Same q) (h' : q.Same r) : p.Same r :=
  ⟨fun id => (h.1 id).trans (h'.1 id), fun id => (h.2 id).trans (h'.2 id)⟩

namespace ReplicaGate

variable {s : ReplicaGate} {a : ReplicaAct} {n : Nat}

/-! ### What is on record -/

/-- The signature on record is that of the push on record, and if a peer consumed it no other was
consumed later. -/
structure Linked (s : ReplicaGate) : Prop where
  sig : ∀ sg, s.sig = some sg → ∃ p w, s.record = some (p, w) ∧ p.role.replicaSig = sg
  seen : ∀ p, s.record = some (p, true) → s.consumed = some p

theorem Linked.of_eq {s' : ReplicaGate} (h : s.Linked) (hsig : s'.sig = s.sig)
    (hrecord : s'.record = s.record) (hconsumed : s'.consumed = s.consumed) : s'.Linked := by
  refine ⟨fun sg hsg => ?_, fun p hp => ?_⟩
  · rw [hrecord]
    exact h.sig sg (hsig ▸ hsg)
  · rw [hconsumed]
    exact h.seen p (hrecord ▸ hp)

/-- **The record of a push.** -/
theorem Linked.verdicts (h : s.Linked) (i : Nat) (want : List NodeId) (full : Bool) (now : Int)
    (sent : FullPush) (v : NodeId → PushVerdict) : (s.verdicts i want full now sent v).Linked := by
  unfold ReplicaGate.verdicts
  cases full with
  | false => exact h.of_eq rfl rfl rfl
  | true =>
    refine ⟨fun sg hsg => ?_, fun p hp => ?_⟩
    · exact ⟨sent, _, rfl, Option.some.inj hsg⟩
    · obtain ⟨rfl, hseen⟩ := Prod.mk.inj (Option.some.inj hp)
      exact if_neg (of_decide_eq_true hseen)

theorem Linked.step (h : s.Linked) (a : ReplicaAct) : (s.step n a).Linked := by
  cases a with
  | change r | wait now => exact h.of_eq rfl rfl rfl
  | reseat => exact ⟨fun sg hsg => (by cases hsg), h.seen⟩
  | call =>
    simp only [ReplicaGate.step]
    split
    · exact h.of_eq rfl rfl rfl
    · exact h.of_eq rfl rfl rfl
  | cohort i want lookupFailed left =>
    simp only [ReplicaGate.step]
    split
    · simp only [cohort, returns]
      split_ifs
      · exact h.of_eq rfl rfl rfl
      · exact h.of_eq rfl rfl rfl
      · exact h.of_eq rfl rfl rfl
    · exact h
  | verdicts i v =>
    simp only [ReplicaGate.step]
    split
    next want full now sent _ => exact h.verdicts i want full now sent v
    · exact h

/-- **The gate.** Undisturbed, it lets an empty push do only where a peer has consumed what is
held. -/
theorem Linked.right (h : s.Linked) (ha : s.Undisturbed a) : s.EmptyConsumed a := by
  cases a with
  | cohort i want lookupFailed left =>
    intro now hi hwant hfull
    have hsig : s.sig = some s.role.replicaSig := by
      simp only [full, Bool.or_eq_false_iff, decide_eq_false_iff_not, not_not] at hfull
      exact hfull.1.1
    obtain ⟨p, witnessed, hrecord, hp⟩ := h.sig _ hsig
    obtain ⟨hseen, hstays⟩ := ha now hi hwant hfull p witnessed hrecord
    have hsame : p.Same s.current := hstays.same hp
    rcases hseen with rfl | ⟨q, hq, hqp⟩
    · exact ⟨p, h.seen p hrecord, hsame⟩
    · exact ⟨q, hq, hqp.trans hsame⟩
  | _ => trivial

/-- **The delta gate.** In a run that is undisturbed at each of its gates, a push is empty only where
a peer has consumed what the role holds. -/
theorem gate_right (n : Nat) (r : Role) (now : Int) (as : List ReplicaAct)
    (h : EachStep (step n) Undisturbed (start r now) as) :
    EachStep (step n) EmptyConsumed (start r now) as := by
  refine h.safety (I := Linked) (fun s a hs _ => hs.step a) (fun s a hs ha => hs.right ha) ?_
  exact ⟨fun sg hsg => (by cases hsg), fun p hp => (by cases hp)⟩

/-- A root with one body. -/
def oneBody (id : MsgId) (ts : Int) : Role :=
  { makeRole 0 true 0 with cache := [⟨id, ts, ⟨0, none⟩, none⟩] }

/-- A full push that the one peer consumes, and then an empty one. -/
theorem gate_right_sample : EachStep (step 1) EmptyConsumed (start (oneBody ['a'] 1) 100)
    [.call, .cohort 0 [7] false none, .verdicts 0 fun _ => .consumed, .call,
      .cohort 1 [7] false none] := by
  apply gate_right
  refine ⟨trivial, fun now hi _ hfull => ?_, trivial, trivial, fun now hi _ hfull => ?_, trivial⟩
  · intro p w hrecord
    cases hrecord
  · intro p w hrecord
    cases hrecord
    refine ⟨.inl rfl, List.Subperm.refl _, fun id hid => ?_⟩
    cases hid

/-- A body is evicted and an older one comes late; and a full push that nobody consumes is
recorded. -/
theorem gate_misses :
    (¬EachStep (step 1) EmptyConsumed (start { oneBody ['a'] 1 with lastTs := 5 } 100)
      [.call, .cohort 0 [7] false none, .verdicts 0 fun _ => .consumed,
        .change { oneBody ['b'] 2 with lastTs := 5 }, .call, .cohort 1 [7] false none])
    ∧ ¬EachStep (step 1) EmptyConsumed (start (oneBody ['a'] 1) 100)
      [.call, .cohort 0 [7] false none, .verdicts 0 fun _ => .consumed,
        .change { oneBody ['b'] 2 with lastTs := 5 }, .call, .cohort 1 [7] false none,
        .verdicts 1 fun _ => .failed, .call, .cohort 2 [7] false none] := by
  refine ⟨?_, ?_⟩
  · rintro ⟨-, -, -, -, -, h, -⟩
    obtain ⟨p, hp, hids, -⟩ := h 100 rfl (by simp) (by decide)
    cases hp
    exact absurd ((hids ['a']).mp (by decide)) (by decide)
  · rintro ⟨-, -, -, -, -, -, -, -, h, -⟩
    obtain ⟨p, hp, hids, -⟩ := h 100 rfl (by simp) (by decide)
    cases hp
    exact absurd ((hids ['a']).mp (by decide)) (by decide)

end ReplicaGate

end Axona
