import Axona.Dht.CandidateCache

/-! # The bounds of the candidate cache

The cache is never larger than its bound, and the node itself is never in it. The share of the peer
exchange is checked where a candidate is nominated, and not where one is put back after an offer
that could not be delivered: that is the one way it is exceeded. -/

namespace Axona

open Library OrderedMap

namespace Candidates

variable {c : CacheConfig} {s : Candidates} {id : Int} {src : CandidateSource} {now : ℚ}
  {w : Nominee}

/-! ### The promise and the condition -/

/-- The bounds that the cache is to keep. -/
structure Bounds (c : CacheConfig) (s : Candidates) : Prop where
  size : s.cache.size ≤ c.kCache
  pex : s.pexCount ≤ max 1 (c.kCache / 2)
  self : s.cache.get c.self = none

/-- A nomination that is refused leaves everything as it was. -/
def RefusalKeeps (c : CacheConfig) (s : Candidates) : Act → Prop
  | .nominate id src now w =>
    (s.nominateCandidate c id src now w).1 = false → (s.nominateCandidate c id src now w).2 = s
  | _ => True

/-- **The condition.** No candidate of the peer exchange is put back while its share is full, where
there is room in the cache and it is not there already. -/
def RequeuesInShare (c : CacheConfig) (s : Candidates) : Act → Prop
  | .noPath id _ _ =>
    ¬ (id ≠ c.self ∧ c.noPathOn = true ∧ c.armed = true ∧ s.heldSrc.get id = some .pex ∧
      s.cache.get id = none ∧ s.cache.size < c.kCache ∧ c.pexCap ≤ s.pexCount)
  | _ => True

/-- What holds of the cache without any condition. -/
structure Within (c : CacheConfig) (s : Candidates) : Prop where
  size : s.cache.size ≤ c.kCache
  self : s.cache.get c.self = none

theorem within_init (c : CacheConfig) : Within c init := ⟨Nat.zero_le _, rfl⟩

theorem bounds_init (c : CacheConfig) : Bounds c init := ⟨Nat.zero_le _, Nat.zero_le _, rfl⟩

theorem bounds_iff_within : Bounds c s ↔ Within c s ∧ s.pexCount ≤ c.pexCap :=
  ⟨fun h => ⟨⟨h.size, h.self⟩, h.pex⟩, fun h => ⟨h.1.size, h.2, h.1.self⟩⟩

theorem pexCap_pos (c : CacheConfig) : 0 < c.pexCap := lt_max_of_lt_left Nat.one_pos

/-! ### Entries that come and go -/

theorem Within.delete (h : Within c s) (id : Int) :
    Within c { s with cache := s.cache.delete id } where
  size := (size_delete_le _ _).trans h.size
  self := by simp [h.self]

theorem pexCount_delete_le (s : Candidates) (id : Int) :
    ({ s with cache := s.cache.delete id } : Candidates).pexCount ≤ s.pexCount :=
  List.Sublist.countP_le List.filter_sublist

/-! ### The eviction -/

/-- What is found is of the peer exchange and in the list, and something is if anything is there. -/
theorem foldl_older (l : List (Int × CacheEntry)) (o : Option (Int × CacheEntry)) :
    (∀ e, l.foldl older o = some e → o = some e ∨ (e ∈ l ∧ e.2.src = .pex)) ∧
      (l.foldl older o = none → o = none ∧ ∀ e ∈ l, e.2.src ≠ .pex) := by
  induction l generalizing o with
  | nil => simp
  | cons x l ih =>
    obtain ⟨hsome, hnone⟩ := ih (older o x)
    have hstep : ∀ e, older o x = some e → o = some e ∨ (e = x ∧ x.2.src = .pex) := by
      intro e he
      unfold older at he
      split at he
      next hx =>
        cases o with
        | none => exact .inr ⟨(Option.some.inj he).symm, hx⟩
        | some y =>
          dsimp only at he
          split at he
          · exact .inr ⟨(Option.some.inj he).symm, hx⟩
          · exact .inl he
      · exact .inl he
    refine ⟨fun e he => ?_, fun he => ?_⟩
    · rcases hsome e he with he | ⟨hmem, hpex⟩
      · refine (hstep e he).imp_right fun ⟨heq, hx⟩ => ?_
        exact ⟨heq ▸ List.mem_cons_self, heq ▸ hx⟩
      · exact .inr ⟨List.mem_cons_of_mem x hmem, hpex⟩
    · obtain ⟨hold, hrest⟩ := hnone he
      have hx : x.2.src ≠ .pex := by
        intro hx
        unfold older at hold
        rw [if_pos hx] at hold
        cases o with
        | none => cases hold
        | some y =>
          dsimp only at hold
          split at hold <;> cases hold
      unfold older at hold
      rw [if_neg hx] at hold
      refine ⟨hold, fun e hmem => ?_⟩
      rcases List.mem_cons.mp hmem with rfl | hmem
      · exact hx
      · exact hrest e hmem

/-- Where there is a candidate of the peer exchange, the oldest one is there and is one. -/
theorem oldestPex_spec (h : 0 < s.pexCount) :
    ∃ e, s.oldestPex = some e ∧ s.cache.get e.1 = some e.2 ∧ e.2.src = .pex := by
  obtain ⟨x, hx, hpex⟩ := List.countP_pos_iff.mp h
  obtain ⟨hsome, hnone⟩ := foldl_older s.cache.entries none
  cases he : s.cache.entries.foldl older none with
  | none => exact absurd (by simpa using hpex) ((hnone he).2 x hx)
  | some e =>
    obtain ⟨hmem, hsrc⟩ := (hsome e he).resolve_left (by rintro ⟨⟩)
    exact ⟨e, he, get_of_mem hmem, hsrc⟩

/-- A full share loses one candidate, and so does the cache. -/
theorem evictPex_full (h : c.pexCap ≤ s.pexCount) :
    (s.evictPex c).pexCount + 1 = s.pexCount ∧ (s.evictPex c).cache.size + 1 = s.cache.size := by
  obtain ⟨e, hold, hget, hsrc⟩ := oldestPex_spec (s := s) (by have := pexCap_pos c; omega)
  rw [evictPex, if_pos h, hold]
  have hcount := countP_eq_delete hget fun e => e.src = .pex
  rw [if_pos (by simpa using hsrc)] at hcount
  exact ⟨hcount.symm, (size_delete hget).symm⟩

theorem evictPex_not_full (h : ¬ c.pexCap ≤ s.pexCount) : s.evictPex c = s := if_neg h

theorem Within.evictPex (h : Within c s) : Within c (s.evictPex c) := by
  unfold Candidates.evictPex
  split
  · split
    · exact h.delete _
    · exact h
  · exact h

theorem evictPex_get (h : s.cache.get id = none) : (s.evictPex c).cache.get id = none := by
  unfold evictPex
  split
  · split
    · simp [h]
    · exact h
  · exact h

/-! ### A nomination -/

/-- What a nomination comes to: nothing, or room is made and the candidate entered. -/
theorem nominate_cases (h : Within c s) (id : Int) (src : CandidateSource) (now : ℚ) (w : Nominee) :
    (s.nominateCandidate c id src now w) = (false, s) ∨ (id ≠ c.self ∧ s.cache.get id = none ∧
        ∃ s', (s' = s ∧ src ≠ .pex ∨ src = .pex ∧ s' = s.evictPex c) ∧ s'.cache.size < c.kCache ∧
          s.nominateCandidate c id src now w =
            (true, { s' with cache := s'.cache.set id ⟨src, now, none⟩ })) := by
  unfold nominateCandidate
  dsimp only
  split_ifs with harmed hself hheld hhas helig hpex hfull hfull
  · exact .inl rfl
  · exact .inl rfl
  · exact .inl rfl
  · exact .inl rfl
  · exact .inl rfl
  · -- a full cache had a candidate of the peer exchange to lose only if it was over its bound
    refine .inl (Prod.ext rfl ?_)
    by_cases hshare : c.pexCap ≤ s.pexCount
    · have hsize := (evictPex_full hshare).2
      have := h.size
      omega
    · exact evictPex_not_full hshare
  · have hnew : s.cache.get id = none := by simpa [OrderedMap.has] using hhas
    exact .inr ⟨hself, hnew, _, .inr ⟨hpex, rfl⟩, not_le.mp hfull, rfl⟩
  · exact .inl rfl
  · have hnew : s.cache.get id = none := by simpa [OrderedMap.has] using hhas
    exact .inr ⟨hself, hnew, s, .inl ⟨rfl, hpex⟩, not_le.mp hfull, rfl⟩

theorem refusalKeeps (h : Within c s) (a : Act) : RefusalKeeps c s a := by
  cases a with
  | nominate id src now w =>
    intro hrefused
    rcases nominate_cases h id src now w with heq | ⟨-, -, s', -, -, heq⟩
    · rw [heq]
    · rw [heq] at hrefused
      cases hrefused
  | _ => trivial

theorem Within.set (h : Within c s) (hid : id ≠ c.self) (hroom : s.cache.size < c.kCache)
    (hnew : s.cache.get id = none) (e : CacheEntry) :
    Within c { s with cache := s.cache.set id e } where
  size := by
    rw [size_set_new hnew]
    omega
  self := by rw [get_set, if_neg hid.symm, h.self]

theorem pexCount_set (hnew : s.cache.get id = none) (e : CacheEntry) :
    ({ s with cache := s.cache.set id e } : Candidates).pexCount =
      s.pexCount + if e.src = .pex then 1 else 0 := by
  simpa [pexCount] using countP_set_new hnew e fun e => e.src = .pex

theorem within_nominate (h : Within c s) (id : Int) (src : CandidateSource) (now : ℚ)
    (w : Nominee) : Within c (s.nominateCandidate c id src now w).2 := by
  rcases nominate_cases h id src now w with heq | ⟨hid, hnew, s', hs', hroom, heq⟩
  · rw [heq]
    exact h
  · rw [heq]
    rcases hs' with ⟨rfl, -⟩ | ⟨-, rfl⟩
    · exact h.set hid hroom hnew _
    · exact h.evictPex.set hid hroom (evictPex_get hnew) _

theorem pexCount_nominate (h : Within c s) (hpex : s.pexCount ≤ c.pexCap) (id : Int)
    (src : CandidateSource) (now : ℚ) (w : Nominee) :
    (s.nominateCandidate c id src now w).2.pexCount ≤ c.pexCap := by
  rcases nominate_cases h id src now w with heq | ⟨-, hnew, s', hs', -, heq⟩
  · rw [heq]
    exact hpex
  rw [heq]
  rcases hs' with ⟨rfl, hsrc⟩ | ⟨hsrc, rfl⟩
  · rwa [pexCount_set hnew, if_neg hsrc, Nat.add_zero]
  rw [pexCount_set (evictPex_get hnew), if_pos hsrc]
  by_cases hshare : c.pexCap ≤ s.pexCount
  · have := (evictPex_full hshare).1
    omega
  · rw [evictPex_not_full hshare]
    omega

/-! ### A candidate that is put back -/

/-- What comes of an offer that could not be delivered: the cache is as it was, or a candidate that
is there cools down, or one that is not there is put back. -/
theorem noPath_cases (s : Candidates) (id : Int) (now noPathUntil : ℚ) :
    (s.onNoPath c id now noPathUntil).cache = s.cache ∨
      (∃ e, s.cache.get id = some e ∧ (s.onNoPath c id now noPathUntil).cache =
        s.cache.set id { e with noPathUntil := some noPathUntil }) ∨
      (id ≠ c.self ∧ c.noPathOn = true ∧ c.armed = true ∧ s.cache.get id = none ∧
        s.cache.size < c.kCache ∧ (s.onNoPath c id now noPathUntil).cache =
          s.cache.set id ⟨(s.heldSrc.get id).getD .near, now, some noPathUntil⟩) := by
  unfold onNoPath
  split
  · exact .inl rfl
  next hon =>
  simp only [Bool.or_eq_true, decide_eq_true_eq, Bool.not_eq_true', not_or,
    Bool.not_eq_false] at hon
  by_cases harmed : c.armed = false
  · exact .inl (by rw [if_pos harmed])
  rw [if_neg harmed]
  split
  next e he => exact .inr (.inl ⟨e, he, rfl⟩)
  next hnone =>
  by_cases hfull : c.kCache ≤ s.cache.size
  · exact .inl (by rw [if_pos hfull])
  · refine .inr (.inr ⟨hon.1, hon.2, by simpa using harmed, hnone, not_le.mp hfull, ?_⟩)
    rw [if_neg hfull]

theorem within_congr {s' : Candidates} (h : Within c s) (hc : s'.cache = s.cache) : Within c s' :=
  ⟨hc ▸ h.size, hc ▸ h.self⟩

theorem within_noPath (h : Within c s) (id : Int) (now noPathUntil : ℚ) :
    Within c (s.onNoPath c id now noPathUntil) := by
  rcases noPath_cases (c := c) s id now noPathUntil with hc | ⟨e, he, hc⟩ | ⟨hid, -, -, hnew, hroom,
    hc⟩
  · exact within_congr h hc
  · have hid : c.self ≠ id := by
      rintro rfl
      rw [h.self] at he
      cases he
    refine ⟨?_, ?_⟩
    · rw [hc, size_set_over he]
      exact h.size
    · rw [hc, get_set, if_neg hid, h.self]
  · exact within_congr (h.set hid hroom hnew _) hc

/-- A share that is kept goes on to be kept exactly under the condition. -/
theorem pexCount_noPath (hpex : s.pexCount ≤ c.pexCap) (id : Int) (now noPathUntil : ℚ) :
    (s.onNoPath c id now noPathUntil).pexCount ≤ c.pexCap ↔
      RequeuesInShare c s (.noPath id now noPathUntil) := by
  rcases noPath_cases (c := c) s id now noPathUntil with
    hc | ⟨e, he, hc⟩ | ⟨hid, hon, harmed, hnew, hroom, hc⟩
  · -- nothing was put back, so it was not a candidate that the condition is about
    have hkept : (s.onNoPath c id now noPathUntil).pexCount ≤ c.pexCap := by rwa [pexCount, hc]
    refine iff_of_true hkept fun hput => ?_
    obtain ⟨hid, hon, harmed, -, hnew, hroom, -⟩ := hput
    have hhas : (s.onNoPath c id now noPathUntil).cache.get id ≠ none := by
      simp [onNoPath, hid, hon, harmed, hnew, not_le.mpr hroom]
    rw [hc] at hhas
    exact hhas hnew
  · have hsame := countP_set_over he { e with noPathUntil := some noPathUntil }
      fun e => e.src = .pex
    have hkept : (s.onNoPath c id now noPathUntil).pexCount ≤ c.pexCap := by
      rw [pexCount, hc]
      have : s.pexCount = s.cache.countP fun e => e.src = .pex := rfl
      dsimp only at hsame
      omega
    refine iff_of_true hkept ?_
    rintro ⟨hid, hon, harmed, hsrc, hnew, hroom⟩
    rw [hnew] at he
    cases he
  · have hcount : (s.onNoPath c id now noPathUntil).pexCount =
        s.pexCount + if (s.heldSrc.get id).getD .near = .pex then 1 else 0 := by
      rw [← pexCount_set (s := s) hnew ⟨(s.heldSrc.get id).getD .near, now,
        some noPathUntil⟩, pexCount, pexCount, hc]
    have hsrc : (s.heldSrc.get id).getD .near = .pex ↔ s.heldSrc.get id = some .pex := by
      cases s.heldSrc.get id <;> simp
    rw [hcount]
    simp only [RequeuesInShare, hid, hon, harmed, hnew, hroom, hsrc, true_and, not_and, not_le, Ne,
      not_false_eq_true]
    by_cases hpexSrc : s.heldSrc.get id = some .pex
    · simp only [hpexSrc, if_true, true_imp_iff]
      omega
    · simp only [hpexSrc, if_false, false_imp_iff, iff_true]
      omega

/-! ### Steps and runs -/

theorem dialled_cache (s : Candidates) (id : Int) (out : DialResult) :
    (s.dialled c id out).cache = s.cache ∨ (s.dialled c id out).cache = s.cache.delete id := by
  cases out <;> simp [dialled]

theorem within_step (h : Within c s) (a : Act) : Within c (s.step c a) := by
  cases a with
  | nominate id src now w => exact within_nominate h id src now w
  | drop id => exact h.delete id
  | dialled id out =>
    rcases dialled_cache (c := c) s id out with hc | hc
    · exact within_congr h hc
    · exact within_congr (h.delete id) hc
  | released id => exact within_congr h rfl
  | noPath id now noPathUntil => exact within_noPath h id now noPathUntil

/-- Bounds that are kept go on to be kept exactly under the condition. -/
theorem bounds_step (hw : Within c s) (h : Bounds c s) (a : Act) :
    Bounds c (s.step c a) ↔ RequeuesInShare c s a := by
  have hpex := (bounds_iff_within.mp h).2
  rw [bounds_iff_within, and_iff_right (within_step hw a)]
  cases a with
  | nominate id src now w => exact iff_of_true (pexCount_nominate hw hpex id src now w) trivial
  | drop id => exact iff_of_true ((pexCount_delete_le s id).trans hpex) trivial
  | dialled id out =>
    refine iff_of_true ?_ trivial
    rcases dialled_cache (c := c) s id out with hc | hc
    · rwa [step, pexCount, hc]
    · rw [step, pexCount, hc]
      exact (pexCount_delete_le s id).trans hpex
  | released id => exact iff_of_true hpex trivial
  | noPath id now noPathUntil => exact pexCount_noPath hpex id now noPathUntil

/-- **The cache keeps its bounds in every state of a run, and a nomination that is refused changes
nothing, exactly when every step of the run meets the condition.** -/
theorem bounds_iff_requeuesInShare (c : CacheConfig) (as : List Act) :
    EachStep (step c) (fun s a => Bounds c (s.step c a) ∧ RefusalKeeps c s a) init as ↔
      EachStep (step c) (RequeuesInShare c) init as := by
  have hrefusal : EachStep (step c) (fun s a => Bounds c (s.step c a) ∧ RefusalKeeps c s a) init as
      ↔ EachStep (step c) (fun s a => Bounds c (s.step c a)) init as :=
    eachStep_congr (I := Within c) (fun _ a h => within_step h a)
      (fun s a h => and_iff_left (refusalKeeps h a)) (within_init c) as
  rw [hrefusal]
  exact EachStep.keeps_iff (I := Within c) (fun _ a h => within_step h a)
    (fun s a hw h => bounds_step hw h a) (within_init c) (bounds_init c) as

/-! ### A share that is exceeded -/

/-- A node with room for four candidates, two of them of the peer exchange. -/
def four : CacheConfig := ⟨0, 4, true, true⟩

/-- Two candidates of the peer exchange are nominated after a third was dialled, whose offer then
could not be delivered. -/
def putBack : List Act :=
  let fresh : Nominee := ⟨false, false, false, true⟩
  [.nominate 1 .pex 0 fresh, .dialled 1 .held, .nominate 2 .pex 1 fresh, .nominate 3 .pex 2 fresh,
    .noPath 1 3 33]

theorem putBack_not_bounds : ¬ Bounds four (run (step four) init putBack) := by
  intro h
  exact absurd h.pex (by decide +kernel)

end Candidates

end Axona
