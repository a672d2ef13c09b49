import Axona.Dht.FindClosest

/-! # What a search returns

A search ends within its rounds, probes no more than `alpha` peers in each, no peer twice and never
itself, and stops early only when the closest candidates have all been considered. What it returns
are the closest ids it has learnt, except that it has taken any integer for an id: a negative one
is at a negative distance, before every id there is, and one that is too large comes after them,
and is returned where there are fewer ids than asked for. -/

namespace Axona

open Library

namespace Search

variable {q : Search} {s : State}

/-! ### The promise and the condition -/

/-- An id of the keyspace. -/
def InKeyspace (q : Search) (p : Int) : Prop := 0 ≤ p ∧ p < 2 ^ q.bits

instance (q : Search) (p : Int) : Decidable (q.InKeyspace p) := inferInstanceAs (Decidable (_ ∧ _))

/-- The integer was known, or it was in a reply to a probe. -/
def Learnt (q : Search) (s : State) (p : Int) : Prop :=
  p ∈ q.seeds ∨ ∃ p' ∈ s.probes.flatten, p ∈ q.answer p'

/-- **The promise.** -/
structure Honest (q : Search) : Prop where
  rounds : q.final.probes.length ≤ q.maxRounds
  parallel : ∀ probes ∈ q.final.probes, probes.length ≤ q.alpha
  notSelf : (q.self : Int) ∉ q.final.probes.flatten
  once : q.final.probes.flatten.Nodup
  early : q.final.probes.length < q.maxRounds → ∀ p ∈ q.topK q.final, p ∈ q.final.visited
  /-- Of the distinct ids of the keyspace that were learnt, the closest in the order of their
  distance. -/
  closest : ∀ ids : List Int, ids.Nodup → (∀ p, p ∈ ids ↔ q.Learnt q.final p ∧ q.InKeyspace p) →
    q.findKClosest = (sortBy q.distance ids).take q.k

/-- **The condition.** No reply to a probe holds a negative integer; and if one holds an integer that
is too large for an id, then `K` ids of the keyspace have been learnt. -/
structure Clean (q : Search) : Prop where
  nonneg : ∀ p, q.Learnt q.final p → 0 ≤ p
  enough : (∃ p, q.Learnt q.final p ∧ 2 ^ q.bits ≤ p) →
    ∃ ids : List Int, ids.Nodup ∧ ids.length = q.k ∧
      ∀ p ∈ ids, q.Learnt q.final p ∧ q.InKeyspace p

/-! ### Distances -/

variable {p : Int}

theorem distance_inj {p' : Int} : q.distance p = q.distance p' ↔ p = p' := by
  refine ⟨fun h => ?_, congrArg _⟩
  unfold distance at h
  cases p with
  | ofNat m =>
    cases p' with
    | ofNat n => simpa [Int.xor] using h
    | negSucc n => simp [Int.xor] at h
  | negSucc m =>
    cases p' with
    | ofNat n => simp [Int.xor] at h
    | negSucc n => simpa [Int.xor] using h

/-- A negative integer is closer than every id. -/
theorem distance_neg_iff : q.distance p < 0 ↔ p < 0 := by
  unfold distance
  cases p with
  | ofNat m => exact iff_of_false (Int.natCast_nonneg _).not_gt (Int.natCast_nonneg m).not_gt
  | negSucc m => exact iff_of_true (Int.negSucc_lt_zero _) (Int.negSucc_lt_zero m)

/-- An integer that is too large is farther away than every id. -/
theorem distance_lt_iff (hp : 0 ≤ p) : q.distance p < 2 ^ q.bits ↔ p < 2 ^ q.bits := by
  obtain ⟨n, rfl⟩ := Int.eq_ofNat_of_zero_le hp
  have hdist : q.distance n = ((n ^^^ q.target : Nat) : Int) := rfl
  rw [hdist]
  have hcast : ∀ m : Nat, (m : Int) < 2 ^ q.bits ↔ m < 2 ^ q.bits := fun m => by norm_cast
  rw [hcast, hcast]
  constructor
  · intro h
    have hback := Nat.xor_lt_two_pow h q.target_lt
    rwa [Nat.xor_assoc, Nat.xor_self, Nat.xor_zero] at hback
  · exact fun h => Nat.xor_lt_two_pow h q.target_lt

theorem map_distance_nodup {l : List Int} (h : l.Nodup) : (l.map q.distance).Nodup :=
  h.map fun _ _ => distance_inj.mp

/-! ### The pool -/

theorem addCandidate_extends (pool : List Int) (p : Int) : pool <+: addCandidate pool p := by
  unfold addCandidate
  split
  · exact List.prefix_refl pool
  · exact List.prefix_append pool [p]

theorem foldl_addCandidate_extends (l pool : List Int) : pool <+: l.foldl addCandidate pool := by
  induction l generalizing pool with
  | nil => exact List.prefix_refl pool
  | cons p l ih => exact (addCandidate_extends pool p).trans (ih _)

theorem mem_addCandidate {pool : List Int} {p' : Int} :
    p' ∈ addCandidate pool p ↔ p' ∈ pool ∨ p' = p := by
  unfold addCandidate
  split
  next h =>
    refine ⟨.inl, ?_⟩
    rintro (h' | rfl)
    · exact h'
    · exact h
  · simp

theorem mem_foldl_addCandidate {l pool : List Int} :
    p ∈ l.foldl addCandidate pool ↔ p ∈ pool ∨ p ∈ l := by
  induction l generalizing pool with
  | nil => simp
  | cons p' l ih => rw [List.foldl_cons, ih, mem_addCandidate, List.mem_cons, or_assoc]

theorem nodup_foldl_addCandidate {l pool : List Int} (h : pool.Nodup) :
    (l.foldl addCandidate pool).Nodup := by
  induction l generalizing pool with
  | nil => exact h
  | cons p l ih =>
    apply ih
    unfold addCandidate
    split
    · exact h
    next hnew =>
    exact List.nodup_append.mpr ⟨h, List.nodup_singleton p, by
      rintro a ha b hb rfl
      exact hnew (List.mem_singleton.mp hb ▸ ha)⟩

theorem sorted_perm (q : Search) (s : State) : (q.sorted s).Perm s.pool := sortBy_perm _ _

theorem nodup_sorted (h : s.pool.Nodup) : (q.sorted s).Nodup := (q.sorted_perm s).nodup_iff.mpr h

/-! ### A round -/

theorem toQuery_length_le (q : Search) (s : State) : (q.toQuery s).length ≤ q.alpha := by
  unfold toQuery
  dsimp only
  have hfirst := List.length_take_le q.alpha ((q.topK s).filter fun p => p ∉ s.visited)
  split
  · have hmore := List.length_take_le
      (q.alpha - (((q.topK s).filter fun p => p ∉ s.visited).take q.alpha).length)
      ((q.sorted s).filter fun p => p ∉ s.visited ∧ p ∉ q.topK s)
    rw [List.length_append]
    omega
  · exact hfirst

theorem not_visited_of_mem_toQuery (h : p ∈ q.toQuery s) : p ∉ s.visited := by
  unfold toQuery at h
  dsimp only at h
  have hfirst : ∀ {n : Nat}, p ∈ ((q.topK s).filter fun p => p ∉ s.visited).take n →
      p ∉ s.visited := fun h => by simpa using (List.mem_filter.mp (List.mem_of_mem_take h)).2
  split at h
  · rcases List.mem_append.mp h with h | h
    · exact hfirst h
    have hp := (List.mem_filter.mp (List.mem_of_mem_take h)).2
    simp only [decide_eq_true_eq] at hp
    exact hp.1
  · exact hfirst h

theorem nodup_toQuery (h : s.pool.Nodup) : (q.toQuery s).Nodup := by
  have hsorted := nodup_sorted (q := q) h
  have hfirst : (((q.topK s).filter fun p => p ∉ s.visited).take q.alpha).Nodup :=
    ((hsorted.sublist (List.take_sublist _ _)).filter _).sublist (List.take_sublist _ _)
  unfold toQuery
  dsimp only
  split
  · refine List.nodup_append.mpr ⟨hfirst, (hsorted.filter _).sublist (List.take_sublist _ _), ?_⟩
    rintro a ha b hb rfl
    have htop := (List.mem_filter.mp (List.mem_of_mem_take ha)).1
    have hbeyond := (List.mem_filter.mp (List.mem_of_mem_take hb)).2
    simp only [decide_eq_true_eq] at hbeyond
    exact hbeyond.2 htop
  · exact hfirst

/-- Where nobody is left to consider, every candidate was. -/
theorem visited_of_toQuery_nil (h : q.toQuery s = []) (hp : p ∈ q.topK s) :
    p ∈ s.visited := by
  by_contra hnot
  have halpha := q.alpha_pos
  have hmem : p ∈ (q.topK s).filter fun p => p ∉ s.visited :=
    List.mem_filter.mpr ⟨hp, by simpa using hnot⟩
  have hfirst : ((q.topK s).filter fun p => p ∉ s.visited).take q.alpha = [] := by
    unfold toQuery at h
    dsimp only at h
    split at h
    · exact (List.append_eq_nil_iff.mp h).1
    · exact h
  rcases List.take_eq_nil_iff.mp hfirst with h0 | h0
  · omega
  · rw [h0] at hmem
    cases hmem

/-- What holds of a search after any number of rounds. -/
structure AfterRounds (q : Search) (r : Nat) (s : State) : Prop where
  poolNodup : s.pool.Nodup
  learnt : ∀ p, p ∈ s.pool ↔ q.Learnt s p
  rounds : s.probes.length ≤ r
  parallel : ∀ probes ∈ s.probes, probes.length ≤ q.alpha
  considered : ∀ p ∈ s.probes.flatten, p ∈ s.visited
  notSelf : (q.self : Int) ∉ s.probes.flatten
  once : s.probes.flatten.Nodup
  lastPoolSize : s.lastPoolSize ≤ s.pool.length
  early : s.done = true → ∀ p ∈ q.topK s, p ∈ s.visited

theorem afterRounds_start (q : Search) : q.AfterRounds 0 q.start where
  poolNodup := nodup_foldl_addCandidate List.nodup_nil
  learnt p := by
    change p ∈ q.seeds.foldl addCandidate [] ↔ q.Learnt q.start p
    rw [mem_foldl_addCandidate]
    simp [Learnt, start]
  rounds := le_rfl
  parallel := by simp [start]
  considered := by simp [start]
  notSelf := by simp [start]
  once := by simp [start]
  lastPoolSize := Nat.zero_le _
  early := by rintro ⟨⟩

/-- A round keeps what holds of the search. -/
theorem AfterRounds.round {r : Nat} (h : q.AfterRounds r s) : q.AfterRounds (r + 1) (q.round r s) := by
  unfold Search.round
  dsimp only
  split
  next hnil =>
    exact ⟨h.poolNodup, h.learnt, h.rounds.trans (Nat.le_succ r), h.parallel, h.considered,
      h.notSelf, h.once, h.lastPoolSize, fun _ p hp => visited_of_toQuery_nil hnil hp⟩
  next hsome =>
  set probes := (q.toQuery s).filter fun p : Int => p ≠ q.self ∧ q.skips r p = false with hprobes
  set pool := (probes.flatMap q.answer).foldl addCandidate s.pool with hpool
  have hextends : s.pool <+: pool := foldl_addCandidate_extends _ _
  have hquery : ∀ p ∈ probes, p ∈ q.toQuery s := fun p hp => (List.mem_filter.mp hp).1
  have hself : ∀ p ∈ probes, p ≠ q.self := by
    intro p hp
    have := (List.mem_filter.mp hp).2
    simp only [decide_eq_true_eq] at this
    exact this.1
  have hflat : (s.probes ++ [probes]).flatten = s.probes.flatten ++ probes := by simp
  refine ⟨nodup_foldl_addCandidate h.poolNodup, fun p => ?_, ?_, ?_, ?_, ?_, ?_, le_rfl, ?_⟩
  · rw [hpool, mem_foldl_addCandidate, h.learnt]
    simp only [Learnt, hflat, List.mem_append, List.mem_flatMap, or_assoc, or_and_right, exists_or]
  · have := h.rounds
    simp only [List.length_append, List.length_singleton]
    omega
  · intro l hl
    rcases List.mem_append.mp hl with hl | hl
    · exact h.parallel l hl
    · rw [List.mem_singleton.mp hl]
      exact (List.length_filter_le _ _).trans (q.toQuery_length_le s)
  · intro p hp
    rw [hflat] at hp
    rcases List.mem_append.mp hp with hp | hp
    · exact List.mem_append_left _ (h.considered p hp)
    · exact List.mem_append_right _ (hquery p hp)
  · rw [hflat, List.mem_append, not_or]
    exact ⟨h.notSelf, fun hp => hself _ hp rfl⟩
  · rw [hflat]
    refine List.nodup_append.mpr ⟨h.once, (nodup_toQuery h.poolNodup).filter _, ?_⟩
    rintro a ha b hb rfl
    exact not_visited_of_mem_toQuery (hquery a hb) (h.considered a ha)
  · intro hdone p hp
    rw [Bool.and_eq_true, decide_eq_true_eq, List.all_eq_true] at hdone
    -- the pool has not grown, so the closest are those that had all been considered
    have hstable : ¬ s.lastPoolSize < pool.length := by
      intro hgrew
      have := hdone.2
      rw [if_pos hgrew] at this
      omega
    have hsame : pool = s.pool := by
      have := h.lastPoolSize
      exact (hextends.eq_of_length (by have := hextends.length_le; omega)).symm
    have hp' : p ∈ q.topK s := by
      rw [topK, sorted, ← hsame]
      exact hp
    exact List.mem_append_left _ (by simpa using hdone.1 p hp')

/-- Rounds keep it, and a search with rounds left has ended by itself. -/
theorem AfterRounds.loop {r n : Nat} (h : q.AfterRounds r s) : q.AfterRounds (r + n) (q.loop r n s) ∧
      ((q.loop r n s).probes.length < n + s.probes.length → (q.loop r n s).done = true ∨ n
        = 0) := by
  induction n generalizing r s with
  | zero => exact ⟨h, fun _ => .inr rfl⟩
  | succ n ih =>
    have hround := h.round
    unfold Search.loop
    split
    next hdone =>
      refine ⟨?_, fun _ => .inl hdone⟩
      have hle : r + 1 ≤ r + (n + 1) := by omega
      exact ⟨hround.poolNodup, hround.learnt, hround.rounds.trans hle, hround.parallel,
        hround.considered, hround.notSelf, hround.once, hround.lastPoolSize, hround.early⟩
    next hgoes =>
    obtain ⟨hsound, hended⟩ := ih hround
    refine ⟨by rwa [Nat.add_comm n 1, ← Nat.add_assoc], fun hlt => ?_⟩
    have hone : (q.round r s).probes.length = s.probes.length + 1 := by
      unfold Search.round at hgoes ⊢
      dsimp only at hgoes ⊢
      split
      next hnil =>
        rw [if_pos hnil] at hgoes
        exact absurd rfl hgoes
      · simp
    refine (hended (by omega)).imp_right fun hzero => ?_
    subst hzero
    exact absurd hlt (by simp only [Search.loop, hone]; omega)

theorem afterRounds_final (q : Search) : q.AfterRounds q.maxRounds q.final := by
  have h := (q.afterRounds_start.loop (n := q.maxRounds)).1
  rwa [Nat.zero_add] at h

/-! ### The result -/

/-- The ids of the keyspace come before the others, if none of them is negative. -/
theorem sortBy_split {l : List Int} (hl : l.Nodup) (hnonneg : ∀ p ∈ l, 0 ≤ p) :
    sortBy q.distance l = sortBy q.distance (l.filter fun p => q.InKeyspace p) ++
      sortBy q.distance (l.filter fun p => ¬ q.InKeyspace p) := by
  have hin : ∀ p ∈ sortBy q.distance (l.filter fun p => q.InKeyspace p), q.InKeyspace p := by
    intro p hp
    simpa using (List.mem_filter.mp ((sortBy_perm _ _).mem_iff.mp hp)).2
  have hout : ∀ p ∈ sortBy q.distance (l.filter fun p => ¬ q.InKeyspace p),
      0 ≤ p ∧ 2 ^ q.bits ≤ p := by
    intro p hp
    have hp := List.mem_filter.mp ((sortBy_perm _ _).mem_iff.mp hp)
    have hpos := hnonneg p hp.1
    have hnot : ¬ q.InKeyspace p := by simpa using hp.2
    exact ⟨hpos, not_lt.mp fun hlt => hnot ⟨hpos, hlt⟩⟩
  have hstrict : ∀ {l : List Int}, l.Nodup →
      (sortBy q.distance l).Pairwise fun a b => q.distance a < q.distance b :=
    fun h => sortBy_pairwise (map_distance_nodup h)
  have hasymm : Std.Antisymm fun a b : Int => q.distance a < q.distance b :=
    ⟨fun a b hab hba => absurd (hab.trans hba) (lt_irrefl _)⟩
  refine List.Perm.eq_of_pairwise' (hstrict hl) (List.pairwise_append.mpr
    ⟨hstrict (hl.filter _), hstrict (hl.filter _), fun a ha b hb => ?_⟩) ?_
  · have hnear := (distance_lt_iff (q := q) (hin a ha).1).mpr (hin a ha).2
    have hfar := (distance_lt_iff (q := q) (hout b hb).1).not.mpr (not_lt.mpr (hout b hb).2)
    omega
  · refine (sortBy_perm _ _).trans (List.Perm.symm ?_)
    refine ((sortBy_perm _ _).append (sortBy_perm _ _)).trans ?_
    simpa using List.filter_append_perm (fun p => decide (q.InKeyspace p)) l

/-- The distinct ids of the keyspace that were learnt. -/
def good (q : Search) : List Int := q.final.pool.filter fun p => q.InKeyspace p

theorem good_nodup (q : Search) : q.good.Nodup := q.afterRounds_final.poolNodup.filter _

theorem mem_good : p ∈ q.good ↔ q.Learnt q.final p ∧ q.InKeyspace p := by
  rw [good, List.mem_filter, q.afterRounds_final.learnt, decide_eq_true_eq]

/-- The sort does not depend on the order in which the ids were learnt. -/
theorem sortBy_good {ids : List Int} (hnodup : ids.Nodup)
    (hids : ∀ p, p ∈ ids ↔ q.Learnt q.final p ∧ q.InKeyspace p) :
    sortBy q.distance ids = sortBy q.distance q.good := by
  have hperm : ids.Perm q.good := (List.perm_ext_iff_of_nodup hnodup q.good_nodup).mpr
    fun p => (hids p).trans mem_good.symm
  have hasymm : Std.Antisymm fun a b : Int => q.distance a < q.distance b :=
    ⟨fun a b hab hba => absurd (hab.trans hba) (lt_irrefl _)⟩
  refine List.Perm.eq_of_pairwise' (sortBy_pairwise (map_distance_nodup hnodup))
    (sortBy_pairwise (map_distance_nodup q.good_nodup)) ?_
  exact (sortBy_perm _ _).trans (hperm.trans (sortBy_perm _ _).symm)

/-- No negative integer was learnt if none is closest. -/
theorem nonneg_of_closest (h : q.findKClosest = (sortBy q.distance q.good).take q.k)
    (hp : q.Learnt q.final p) : 0 ≤ p := by
  by_contra hneg
  have hmem : p ∈ q.sorted q.final :=
    (q.sorted_perm q.final).mem_iff.mpr ((q.afterRounds_final.learnt p).mpr hp)
  have hstrict := sortBy_sorted q.distance q.final.pool
  obtain ⟨e, rest, hcons⟩ := List.exists_cons_of_ne_nil (List.ne_nil_of_mem hmem)
  -- the first candidate is no farther away, so it is negative as well
  have hfirst : q.distance e ≤ q.distance p := by
    rw [show sortBy q.distance q.final.pool = e :: rest from hcons, List.pairwise_cons] at hstrict
    rw [hcons] at hmem
    rcases List.mem_cons.mp hmem with rfl | hmem
    · exact le_rfl
    · exact hstrict.1 p hmem
  have heneg : e < 0 :=
    distance_neg_iff.mp (hfirst.trans_lt (distance_neg_iff.mpr (not_le.mp hneg)))
  have htop : e ∈ q.findKClosest := by
    obtain ⟨n, hn⟩ := Nat.exists_eq_succ_of_ne_zero q.k_pos.ne'
    rw [findKClosest, topK, hcons, hn]
    exact List.mem_cons_self
  rw [h] at htop
  have hgood := (sortBy_perm q.distance q.good).mem_iff.mp (List.mem_of_mem_take htop)
  exact absurd (mem_good.mp hgood).2.1 (not_le.mpr heneg)

theorem length_findKClosest (q : Search) : q.findKClosest.length = min q.k q.final.pool.length := by
  rw [findKClosest, topK, List.length_take, (q.sorted_perm q.final).length_eq]

/-- Where an integer that is too large was learnt, there are enough ids to leave it out. -/
theorem enough_of_closest (h : q.findKClosest = (sortBy q.distance q.good).take q.k)
    (hp : q.Learnt q.final p) (hlarge : 2 ^ q.bits ≤ p) : q.k ≤ q.good.length := by
  by_contra hfew
  have hlen := q.length_findKClosest
  rw [h, List.length_take, (sortBy_perm q.distance q.good).length_eq] at hlen
  have hbad : q.good.length < q.final.pool.length := by
    refine List.length_filter_lt_length_iff_exists.mpr ⟨p, (q.afterRounds_final.learnt p).mpr hp, ?_⟩
    simpa using fun hin : q.InKeyspace p => absurd hin.2 (not_lt.mpr hlarge)
  omega

theorem Honest.clean (h : q.Honest) : q.Clean := by
  have hclosest := h.closest q.good q.good_nodup fun p => mem_good
  refine ⟨fun p => nonneg_of_closest hclosest, fun ⟨p, hp, hlarge⟩ => ?_⟩
  have henough := enough_of_closest hclosest hp hlarge
  refine ⟨q.good.take q.k, q.good_nodup.sublist (List.take_sublist _ _), ?_, fun p hp => ?_⟩
  · rw [List.length_take]
    omega
  · exact mem_good.mp (List.mem_of_mem_take hp)

/-- Under the condition the closest candidates are ids. -/
theorem Clean.closest (h : q.Clean) : q.findKClosest = (sortBy q.distance q.good).take q.k := by
  have hnonneg : ∀ p ∈ q.final.pool, 0 ≤ p := fun p hp => h.nonneg p
    ((q.afterRounds_final.learnt p).mp hp)
  rw [findKClosest, topK, sorted, sortBy_split q.afterRounds_final.poolNodup hnonneg]
  change (sortBy q.distance q.good ++ _).take q.k = _
  cases hbad : q.final.pool.filter fun p => ¬ q.InKeyspace p with
  | nil => simp [sortBy]
  | cons p rest =>
    have hp : p ∈ q.final.pool.filter fun p => ¬ q.InKeyspace p := hbad ▸ List.mem_cons_self
    obtain ⟨hpool, hout⟩ := List.mem_filter.mp hp
    have hlearnt := (q.afterRounds_final.learnt p).mp hpool
    have hlarge : 2 ^ q.bits ≤ p := by
      refine not_lt.mp fun hlt => ?_
      exact (by simpa using hout : ¬ q.InKeyspace p) ⟨hnonneg p hpool, hlt⟩
    obtain ⟨ids, hnodup, hlen, hids⟩ := h.enough ⟨p, hlearnt, hlarge⟩
    have hle : ids.length ≤ q.good.length :=
      (List.subperm_of_subset hnodup fun p hp => mem_good.mpr (hids p hp)).length_le
    apply List.take_append_of_le_length
    rw [(sortBy_perm q.distance q.good).length_eq]
    omega

theorem Clean.honest (h : q.Clean) : q.Honest where
  rounds := q.afterRounds_final.rounds
  parallel := q.afterRounds_final.parallel
  notSelf := q.afterRounds_final.notSelf
  once := q.afterRounds_final.once
  early hlt := by
    have hended := (q.afterRounds_start.loop (n := q.maxRounds)).2
    have hpos := q.maxRounds_pos
    refine q.afterRounds_final.early ((hended ?_).resolve_right (by omega))
    exact hlt
  closest ids hnodup hids := by rw [sortBy_good hnodup hids, h.closest]

/-- **The search keeps its promise exactly when no reply holds a negative integer, and none that is
too large where there are not enough ids.** -/
theorem honest_iff_clean (q : Search) : q.Honest ↔ q.Clean := ⟨Honest.clean, Clean.honest⟩

/-! ### A peer at a negative distance -/

/-- A node whose one peer replies to a probe with `-5n`. -/
def negativeReply : Search where
  bits := 8
  self := 1
  target := 3
  known := [2]
  self_lt := by decide
  target_lt := by decide
  known_lt := by decide
  k := 1
  alpha := 3
  maxRounds := 40
  k_pos := by decide
  alpha_pos := by decide
  maxRounds_pos := by decide
  reply p := if p = 2 then some (.arr [.str "-5n".toList]) else none
  skips _ _ := false

theorem negativeReply_not_honest : negativeReply.findKClosest = [-5] ∧ ¬ negativeReply.Honest := by
  have hresult : negativeReply.findKClosest = [-5] := by decide +kernel
  refine ⟨hresult, fun h => ?_⟩
  have hmem : (-5 : Int) ∈ negativeReply.sorted negativeReply.final := by
    apply List.mem_of_mem_take (i := negativeReply.k)
    change -5 ∈ negativeReply.findKClosest
    rw [hresult]
    exact List.mem_singleton_self _
  have hpool := (negativeReply.sorted_perm _).mem_iff.mp hmem
  exact absurd (h.clean.nonneg _ ((negativeReply.afterRounds_final.learnt _).mp hpool)) (by decide)

end Search

end Axona
