import Mathlib.Algebra.Order.BigOperators.Group.List
import Axona.Safety.Cut

/-! # The cache of a role

What holds of the cache in every run: the byte count and the protection of pinned bodies always,
the rest under a condition on the bodies that come up for the cache. A relayed body that waited for
its descriptor is pushed with no second look at what is held and killed by then, so a copy of it
may stand twice, or beside its own tombstone. A body is put last wherever its stamp belongs, so the
cache is in the order of the stamps only if no body comes in behind one that is held. -/

namespace Axona

open Library

variable {cfg : Config} {P : Input → Prop} {n n' : Node}

/-! ### One body, one entry -/

/-- No cached body is under a tombstone that stands against it. -/
def Role.Uncovered (r : Role) : Prop :=
  ∀ e ∈ r.cache, ∀ t, r.tombstones.get e.msgId = some t → standsAgainst t.signer e.json = false

/-- Byte count, index and tombstones agree with what is cached. -/
structure Role.Consistent (r : Role) : Prop where
  counted : r.Counted
  tidy : r.Tidy
  uncovered : r.Uncovered

namespace Role

theorem makeRole_consistent (t : TopicId) (b : Bool) (now : Int) : (makeRole t b now).Consistent :=
  ⟨rfl, ⟨List.nodup_nil, rfl⟩, by rintro e ⟨⟩⟩

variable {r : Role}

theorem SameStore.counted {r' : Role} (h : r.SameStore r') (hr : r.Counted) : r'.Counted := by
  rw [Counted, h.cacheBytes, h.cache]
  exact hr

theorem SameStore.consistent {r' : Role} (h : r.SameStore r') (hr : r.Consistent) : r'.Consistent := by
  refine ⟨h.counted hr.counted, ⟨?_, ?_⟩, ?_⟩
  · rw [h.cache]
    exact hr.tidy.nodup
  · rw [h.cacheIds, h.cache]
    exact hr.tidy.ids
  · rw [Uncovered, h.cache, h.tombstones]
    exact hr.uncovered

theorem Shrink.consistent {C : MsgId → Tombstone → Option Tombstone → Prop} {r' : Role}
    (h : r.Shrink C r') (hC : ∀ id t t', C id t (some t') → t.Same t') (hr : r.Consistent) :
    r'.Consistent := by
  refine ⟨h.counted hr.counted, h.tidy hr.tidy, ?_⟩
  intro e he t' ht'
  obtain ⟨t, ht, -, -, hs⟩ := h.kept (fun _ => ⟨rfl, rfl, rfl⟩) hC ht'
  rw [hs]
  exact hr.uncovered e (h.cache.subset he) t ht

/-! ### Putting a body last -/

theorem append_counted (hr : r.Counted) (e : Entry) : (r.append e).Counted := by
  change r.cacheBytes + e.bytes = (((r.cache ++ [e]).map (·.bytes)).sum : Nat)
  rw [hr, List.map_append, List.sum_append]
  simp

/-- A fresh body may be put last. -/
theorem append_consistent (hr : r.Consistent) {e : Entry} (hnew : r.Fresh e.msgId e.json) :
    (r.append e).Consistent := by
  obtain ⟨hid, htomb⟩ := hnew
  rw [hr.tidy.ids, List.mem_toFinset] at hid
  refine ⟨append_counted hr.counted e, ⟨?_, ?_⟩, ?_⟩
  · change ((r.cache ++ [e]).map (·.msgId)).Nodup
    rw [List.map_append, List.nodup_append]
    refine ⟨hr.tidy.nodup, List.nodup_singleton _, ?_⟩
    rintro id hmem id' hid' rfl
    rw [List.map_singleton, List.mem_singleton] at hid'
    exact hid (hid' ▸ hmem)
  · change insert e.msgId r.cacheIds = ((r.cache ++ [e]).map (·.msgId)).toFinset
    rw [hr.tidy.ids]
    ext id
    simp
  · intro e' he' t ht
    rcases List.mem_append.mp he' with h | h
    · exact hr.uncovered e' h t ht
    · rw [List.mem_singleton.mp h] at ht ⊢
      exact htomb t ht

theorem push_consistent (hr : r.Consistent) {e : Entry} (cacheMax cacheBytes : Nat)
    (hnew : r.superseded e.publishTs = false → r.Fresh e.msgId e.json) :
    (r.push cacheMax cacheBytes e).Consistent := by
  cases hsup : r.superseded e.publishTs with
  | true =>
    rw [push, if_pos hsup]
    exact hr
  | false =>
    rcases r.push_cases cacheMax cacheBytes e with h | h
    · rwa [h]
    · exact h.consistent (fun _ _ _ hc => hc.elim) (append_consistent hr (hnew hsup))

/-! ### Burying a body -/

/-- What the first entry of an id counts for is what its erasure takes off. -/
theorem sum_eraseP (id : MsgId) (es : List Entry) :
    (es.map (·.bytes)).sum = (es.find? fun e => e.msgId = id).elim 0 (·.bytes)
      + ((es.eraseP fun e => e.msgId = id).map (·.bytes)).sum := by
  induction es with
  | nil => rfl
  | cons e es ih =>
    by_cases h : e.msgId = id
    · simp [h]
    · simp [h, ih, Nat.add_left_comm]

/-- Erasing the one entry of an id leaves none. -/
theorem ne_of_mem_eraseP {id : MsgId} {es : List Entry} (hn : (es.map (·.msgId)).Nodup) {e : Entry}
    (he : e ∈ es.eraseP fun e => e.msgId = id) : e.msgId ≠ id := by
  induction es with
  | nil => cases he
  | cons e' es ih =>
    obtain ⟨hnew, hn⟩ := List.nodup_cons.mp hn
    by_cases h : e'.msgId = id
    · rw [List.eraseP_cons_of_pos (by simpa using h)] at he
      rintro rfl
      exact hnew (List.mem_map.mpr ⟨e, he, h.symm⟩)
    · rw [List.eraseP_cons_of_neg (by simpa using h)] at he
      rcases List.mem_cons.mp he with rfl | he
      · exact h
      · exact ih hn he

theorem bury_counted (hr : r.Counted) (id : MsgId) (t : Tombstone) :
    (r.bury id t).Counted := by
  have hsum := sum_eraseP id r.cache
  change r.cacheBytes - ((r.cache.find? fun e => e.msgId = id).elim 0 (·.bytes) : Nat)
    = (((r.cache.eraseP fun e => e.msgId = id).map (·.bytes)).sum : Nat)
  rw [hr, hsum]
  push_cast
  omega

/-- A kill takes its body out of cache and index, and no other body has its id. -/
theorem bury_consistent (hr : r.Consistent) (id : MsgId) (t : Tombstone) :
    (r.bury id t).Consistent := by
  have hgone {e : Entry} (he : e ∈ (r.bury id t).cache) : e.msgId ≠ id :=
    ne_of_mem_eraseP hr.tidy.nodup he
  have hsub : (r.bury id t).cache.Sublist r.cache := List.eraseP_sublist
  refine ⟨bury_counted hr.counted id t, ⟨(hsub.map _).nodup hr.tidy.nodup, ?_⟩, ?_⟩
  · change r.cacheIds.erase id = _
    rw [hr.tidy.ids]
    ext id'
    rw [Finset.mem_erase, List.mem_toFinset, List.mem_toFinset, List.mem_map, List.mem_map]
    constructor
    · rintro ⟨hne, e, he, rfl⟩
      exact ⟨e, (List.mem_eraseP_of_neg (by simpa using hne)).mpr he, rfl⟩
    · rintro ⟨e, he, rfl⟩
      exact ⟨hgone he, e, hsub.subset he, rfl⟩
  · intro e he t' ht'
    rw [bury, OrderedMap.get_set, if_neg (hgone he)] at ht'
    exact hr.uncovered e (hsub.subset he) t' ht'

end Role

/-! ### Runs in which nothing stale is pushed -/

/-- The cache as its readers take it at a wall clock: no id twice, index and byte count exact, and
no body under an active tombstone of its author. -/
structure Role.CacheRight (r : Role) (now : Int) : Prop where
  nodup : (r.cache.map (·.msgId)).Nodup
  ids : r.cacheIds = (r.cache.map (·.msgId)).toFinset
  bytes : r.cacheBytes = (r.cache.map (·.bytes)).sum
  uncovered : ∀ e ∈ r.cache, ∀ t, r.tombstones.get e.msgId = some t → now < t.exp →
    standsAgainst t.signer e.json = false

theorem Role.Consistent.cacheRight {r : Role} (h : r.Consistent) (now : Int) : r.CacheRight now :=
  ⟨h.tidy.nodup, h.tidy.ids, h.counted, fun e he t ht _ => h.uncovered e he t ht⟩

/-- No DELIVER that waited runs on with a body that the role holds or buried meanwhile. -/
def Node.NothingStale (cfg : Config) (n : Node) (a : World × Act) : Prop :=
  ∀ k t ρ g m items, a.2 = .resume k .checked → n.parked.get k = some (.deliver t ρ g m items) →
    ¬Moves.Stale cfg n t ρ m

theorem Node.NothingStale.late {a : World × Act} (h : n.NothingStale cfg a) (ρ : RoleRef)
    (m : Stamped) : ¬Takes cfg n a.2 (.late ρ m) := by
  obtain ⟨w, a⟩ := a
  rintro ⟨⟩
  next k t g items hp hs => exact h k t ρ g m items rfl hp hs

/-- Every role is sound. -/
def Node.CachesSound (n : Node) : Prop := ∀ ρ, (n.role ρ).Consistent

/-- A body that is pushed is fresh, unless it waited; a kill takes its body with it. -/
theorem Node.CachesSound.move (h : Move cfg P n n') (hP : ∀ ρ m, ¬P (.late ρ m))
    (hn : n.CachesSound) : n'.CachesSound := by
  intro ρ
  cases h.storeEffect ρ with
  | same h => exact h.consistent (hn ρ)
  | fresh _ h => exact h.consistent (Role.makeRole_consistent 0 false 0)
  | shrink h => exact h.consistent (fun _ _ _ hc => hc.some) (hn ρ)
  | disown owner h =>
    rw [h]
    exact (Role.dropOwned_shrink _ owner).consistent (fun _ _ _ hc => Role.disowned_some hc.symm) (hn ρ)
  | push hnew _ h =>
    rw [h]
    exact Role.push_consistent (hn ρ) _ _ fun hsup => (hnew hsup).resolve_left (hP ρ _)
  | bury _ _ _ _ h =>
    rw [h]
    exact Role.bury_consistent (hn ρ) _ _

/-- **The cache of a role.** In every run in which no DELIVER that waited runs on with a body held
or buried by then, the caches of all roles are right in every state. -/
theorem cache_right (w : World) (as : Run)
    (h : EachStep (Node.step cfg) (Node.NothingStale cfg) (Node.boot w) as) (ρ : RoleRef) :
    ((run (Node.step cfg) (Node.boot w) as).role ρ).CacheRight
      (run (Node.step cfg) (Node.boot w) as).now := by
  have hstart : (Node.boot w).Wf ∧ (Node.boot w).CachesSound :=
    ⟨Node.boot_wf w, fun ρ => Role.makeRole_consistent 0 false 0⟩
  refine ((h.invariant (I := fun m : Node => m.Wf ∧ m.CachesSound) ?_ hstart).2 ρ).cacheRight _
  rintro m a ⟨hwf, hm⟩ ha
  exact ⟨hwf.step a, step_rule hwf
    (fun hP _ _ hmove hk => hk.move hmove fun ρ m hl => ha.late ρ m (hP _ hl)) hm⟩

/-- A body of the sample topic as it is relayed. -/
def sampleStamped (m : Message) (ts : Int) (seq : Int) : Stamped :=
  ⟨List.replicate m '.', ts, samplePost m ts, some seq⟩

/-- A reader's relay gets one body by two DELIVERs, and both wait for its descriptor. -/
def twiceRun : Run :=
  [(sampleWorld 1000, .subscribe sampleTopicId 0 false),
    (sampleWorld 1001, .readRepair sampleTopicId),
    (sampleWorld 1002, .deliver sampleTopicId none none [.body (sampleStamped 3 900 1)]),
    (sampleWorld 1003, .deliver sampleTopicId none none [.body (sampleStamped 3 900 1)]),
    (sampleWorld 1004, .resume 0 .checked), (sampleWorld 1005, .resume 1 .checked)]

theorem cache_right_once :
    ((run (Node.step sampleConfig) (Node.boot (sampleWorld 0)) (twiceRun.take 5)).role
      0).CacheRight (run (Node.step sampleConfig) (Node.boot (sampleWorld 0))
        (twiceRun.take 5)).now := by
  refine cache_right (sampleWorld 0) (twiceRun.take 5) ⟨?_, ?_, ?_, ?_, ?_, trivial⟩ 0
  case refine_5 =>
    rintro k t ρ g m items ⟨⟩ hp hs
    have hwaits : (run (Node.step sampleConfig) (Node.boot (sampleWorld 0))
        (twiceRun.take 4)).parked.get 0
          = some (.deliver sampleTopicId 0 none (sampleStamped 3 900 1) []) := by decide +kernel
    cases hwaits.symm.trans hp
    have htomb : ((run (Node.step sampleConfig) (Node.boot (sampleWorld 0))
        (twiceRun.take 4)).role 0).tombstones.get (sampleStamped 3 900 1).msgId = none := by
      decide +kernel
    refine hs.2.2 ⟨by decide +kernel, fun t ht => ?_⟩
    cases htomb.symm.trans ht
  all_goals rintro k t ρ g m items ⟨⟩

/-- The second DELIVER that waited puts its copy beside the first. -/
theorem cached_twice :
    ¬∀ (w : World) (as : Run) (ρ : RoleRef),
      ((run (Node.step sampleConfig) (Node.boot w) as).role ρ).CacheRight
        (run (Node.step sampleConfig) (Node.boot w) as).now := by
  intro h
  have hdup : ¬(((run (Node.step sampleConfig) (Node.boot (sampleWorld 0)) twiceRun).role
      0).cache.map (·.msgId)).Nodup := by decide +kernel
  exact hdup (h (sampleWorld 0) twiceRun 0).nodup

/-! ### The order of the stamps -/

/-- The stamp of `a` is not above that of `b`: by time, and on a tie by the dense counters, where
both have one. -/
def Entry.Before (a b : Entry) : Prop :=
  a.publishTs < b.publishTs ∨ (a.publishTs = b.publishTs ∧ ∀ x ∈ a.seq, ∀ y ∈ b.seq, x ≤ y)

instance (a b : Entry) : Decidable (a.Before b) := inferInstanceAs (Decidable (_ ∨ _))

theorem Entry.Before.publishTs {a b : Entry} (h : a.Before b) : a.publishTs ≤ b.publishTs := by
  rcases h with h | ⟨h, -⟩
  · exact h.le
  · exact h.le

/-- The cache is in the order of the stamps, and what its readers take from that: the low water is
the least stamp held, the high water the greatest one held, or the floor of the role's own stamps
if that is above it, the last body the latest, and a replay returns each body above its floor. -/
structure Role.Ordered (r : Role) : Prop where
  ascending : r.cache.Pairwise Entry.Before
  low : ∀ e ∈ r.cache, r.lowWater ≤ e.publishTs
  lowHeld : r.cache ≠ [] → ∃ e ∈ r.cache, e.publishTs = r.lowWater
  high : ∀ e ∈ r.cache, e.publishTs ≤ r.highWater
  highHeld : r.cache ≠ [] → ∃ e ∈ r.cache, r.highWater = max r.lastTs e.publishTs
  last : ∀ l, r.cache.getLast? = some l → ∀ e ∈ r.cache, e = l ∨ e.Before l
  latest : ∀ since l, r.cache.getLast? = some l →
    ∃ e ∈ r.replayBodies since true, e.msgId = l.msgId
  replay : ∀ since latest, ∀ e ∈ r.cache, since < e.publishTs → e ∈ r.replayBodies since latest

namespace Role

variable {r : Role}

/-- A replay returns each body above its floor, in whatever order the cache is. -/
theorem mem_replayBodies {e : Entry} (since : Int) (latest : Bool) (he : e ∈ r.cache)
    (h : since < e.publishTs) : e ∈ r.replayBodies since latest := by
  have habove : e ∈ r.cache.filter fun e => since < e.publishTs :=
    List.mem_filter.mpr ⟨he, by simpa using h⟩
  unfold replayBodies
  simp only []
  split
  · split
    · exact habove
    · exact List.mem_append_left _ habove
  · exact habove

/-- Asked for the latest, a replay returns the last body, or one of its id. -/
theorem last_replayBodies {l : Entry} (since : Int) (hl : r.cache.getLast? = some l) :
    ∃ e ∈ r.replayBodies since true, e.msgId = l.msgId := by
  unfold replayBodies
  simp only [hl]
  split
  · next h =>
    obtain ⟨e, he, hid⟩ := List.any_eq_true.mp h
    exact ⟨e, he, by simpa using hid⟩
  · exact ⟨l, List.mem_append_right _ (List.mem_singleton_self l), rfl⟩

/-- What the readers of a cache take from it holds once it is in order. -/
theorem ordered_of_ascending (h : r.cache.Pairwise Entry.Before) : r.Ordered := by
  have hlast {l : Entry} (hl : r.cache.getLast? = some l) : ∀ e ∈ r.cache, e = l ∨ e.Before l := by
    obtain ⟨es, hes⟩ := List.getLast?_eq_some_iff.mp hl
    rw [hes, List.pairwise_append] at h
    intro e he
    rw [hes] at he
    rcases List.mem_append.mp he with he | he
    · exact .inr (h.2.2 e he l (List.mem_singleton_self l))
    · exact .inl (List.mem_singleton.mp he)
  refine ⟨h, ?_, ?_, ?_, ?_, fun l hl => hlast hl, fun since l hl => last_replayBodies since hl,
    fun since latest e he hs => mem_replayBodies since latest he hs⟩
  · intro e he
    unfold lowWater
    cases hc : r.cache with
    | nil => simp [hc] at he
    | cons e' es =>
      rw [hc] at h he
      rcases List.mem_cons.mp he with rfl | he
      · exact le_refl _
      · exact ((List.pairwise_cons.mp h).1 e he).publishTs
  · intro hne
    unfold lowWater
    cases hc : r.cache with
    | nil => exact absurd hc hne
    | cons e es => exact ⟨e, List.mem_cons_self, rfl⟩
  · intro e he
    have hne : r.cache ≠ [] := List.ne_nil_of_mem he
    have hl := List.getLast?_eq_getLast_of_ne_nil hne
    unfold highWater
    rw [hl]
    refine le_max_of_le_right ?_
    rcases hlast hl e he with heq | hb
    · rw [← heq]
      exact le_refl _
    · exact hb.publishTs
  · intro hne
    refine ⟨_, List.getLast_mem hne, ?_⟩
    unfold highWater
    rw [List.getLast?_eq_getLast_of_ne_nil hne]
    rfl

/-- A body that comes in behind none is put where it belongs. -/
theorem push_ascending {m : Entry} (hr : r.cache.Pairwise Entry.Before)
    (cacheMax cacheBytes : Nat)
    (hm : r.superseded m.publishTs = false → ∀ e ∈ r.cache, e.Before m) :
    (r.push cacheMax cacheBytes m).cache.Pairwise Entry.Before := by
  cases hsup : r.superseded m.publishTs with
  | true =>
    rw [push, if_pos hsup]
    exact hr
  | false =>
    rcases r.push_cases cacheMax cacheBytes m with h | h
    · rwa [h]
    refine List.Pairwise.sublist h.cache (List.pairwise_append.mpr ⟨hr,
      List.pairwise_singleton _ _, ?_⟩)
    intro e he m' hm'
    rw [List.mem_singleton.mp hm']
    exact hm hsup e he

end Role

/-- Each body that came up for the cache, unless a newer one superseded it, came in behind none. -/
def Node.CameInOrder (n : Node) : Prop :=
  ∀ ρ r m, .cached ρ r m ∈ n.journal → r.superseded m.publishTs = false →
    ∀ e ∈ r.cache, e.Before m

instance (n : Node) : Decidable n.CameInOrder :=
  decidable_of_iff (n.journal.all fun ev => match ev with
    | .cached _ r m => r.superseded m.publishTs || decide (∀ e ∈ r.cache, e.Before m)
    | _ => true) <| by
    rw [List.all_eq_true]
    constructor
    · intro h ρ r m hj hsup
      have := h _ hj
      simpa [hsup] using this
    · intro h ev hev
      cases ev with
      | cached ρ r m =>
        cases hsup : r.superseded m.publishTs with
        | true => simp [hsup]
        | false => simpa [hsup] using h ρ r m hev hsup
      | _ => rfl

theorem Node.ascending_move (h : Move cfg P n n') (hin : n'.CameInOrder)
    (hn : ∀ ρ, (n.role ρ).cache.Pairwise Entry.Before) (ρ : RoleRef) :
    (n'.role ρ).cache.Pairwise Entry.Before := by
  cases h.storeEffect ρ with
  | same h =>
    rw [h.cache]
    exact hn ρ
  | fresh _ h =>
    rw [h.cache]
    exact List.Pairwise.nil
  | shrink h => exact (hn ρ).sublist h.cache
  | disown owner h =>
    rw [h]
    exact hn ρ
  | @push m _ hj h =>
    rw [h]
    exact Role.push_ascending (hn ρ) _ _ (hin ρ _ m hj)
  | bury _ _ _ _ h =>
    rw [h]
    exact (hn ρ).sublist List.eraseP_sublist

/-- **The order of the cache.** In every run, a replay returns each held body above its floor; and if
each body came in behind none that was held, the caches of all roles are in order in every state. -/
theorem cache_ordered (w : World) (as : Run) (ρ : RoleRef) :
    let n := run (Node.step cfg) (Node.boot w) as
    (∀ since latest, ∀ e ∈ (n.role ρ).cache, since < e.publishTs →
        e ∈ (n.role ρ).replayBodies since latest)
      ∧ (n.CameInOrder → (n.role ρ).Ordered) := by
  refine ⟨fun since latest e he hs => Role.mem_replayBodies since latest he hs, fun h => ?_⟩
  have hstart : (Node.boot w).Wf ∧ ((Node.boot w).CameInOrder →
      ∀ ρ, ((Node.boot w).role ρ).cache.Pairwise Entry.Before) :=
    ⟨Node.boot_wf w, fun _ _ => List.Pairwise.nil⟩
  refine Role.ordered_of_ascending ((run_invariant (I := fun m : Node => m.Wf
    ∧ (m.CameInOrder → ∀ ρ, (m.role ρ).cache.Pairwise Entry.Before)) ?_ hstart as).2 h ρ)
  rintro m a ⟨hwf, hm⟩
  refine ⟨hwf.step a, step_rule (I := fun k : Node =>
    k.CameInOrder → ∀ ρ, (k.role ρ).cache.Pairwise Entry.Before) hwf ?_ hm⟩
  rintro Q k k' - - - hmove hk hin
  refine Node.ascending_move hmove hin (hk ?_)
  exact fun ρ r m hj => hin ρ r m (hmove.mem_journal hj)

/-- A reader's relay gets two bodies, the later one first. -/
def lateRun : Run :=
  twiceRun.take 3 ++ [(sampleWorld 1004, .resume 0 .checked),
    (sampleWorld 1005, .deliver sampleTopicId none none [.body (sampleStamped 4 800 1)])]

theorem cache_ordered_one :
    ((run (Node.step sampleConfig) (Node.boot (sampleWorld 0)) (lateRun.take 4)).role 0).Ordered :=
  (cache_ordered (sampleWorld 0) (lateRun.take 4) 0).2 (by decide +kernel)

/-- A root stamps a post, and then the kill of a message that it does not hold. -/
def emittedRun : Run :=
  let killer : Text := List.replicate 64 '0'
  [(sampleWorld 1000, samplePub 3 1000), (sampleWorld 1001, .resume 0 .checked),
    (sampleWorld 1002, .kill ⟨sampleTopicId, ⟨[], true⟩, .none, .none,
      ⟨some sampleTopicId, some ['x'], some 0, some 0, some killer,
        some (signatureTag ++ killer ++ killer)⟩⟩), (sampleWorld 1003, .resume 2 .checked)]

/-- Its high water is then the stamp of the kill, which no body has. -/
theorem high_water_emitted :
    ¬∀ (w : World) (as : Run) (ρ : RoleRef),
      let r := (run (Node.step sampleConfig) (Node.boot w) as).role ρ
      r.cache ≠ [] → ∃ e ∈ r.cache, e.publishTs = r.highWater := by
  intro h
  have hheld : ((run (Node.step sampleConfig) (Node.boot (sampleWorld 0)) emittedRun).role
      0).cache ≠ [] := by decide +kernel
  have hnone : ∀ e ∈ ((run (Node.step sampleConfig) (Node.boot (sampleWorld 0)) emittedRun).role
      0).cache, e.publishTs ≠ ((run (Node.step sampleConfig) (Node.boot (sampleWorld 0))
        emittedRun).role 0).highWater := by decide +kernel
  obtain ⟨e, he, heq⟩ := h (sampleWorld 0) emittedRun 0 hheld
  exact hnone e he heq

/-- The earlier body is put behind the later one. -/
theorem cached_behind :
    ¬∀ (w : World) (as : Run) (ρ : RoleRef),
      ((run (Node.step sampleConfig) (Node.boot w) as).role ρ).Ordered := by
  intro h
  have hlow : ¬∀ e ∈ ((run (Node.step sampleConfig) (Node.boot (sampleWorld 0)) lateRun).role
      0).cache, ((run (Node.step sampleConfig) (Node.boot (sampleWorld 0)) lateRun).role 0).lowWater
        ≤ e.publishTs := by decide +kernel
  exact hlow (h (sampleWorld 0) lateRun 0).low

end Axona
