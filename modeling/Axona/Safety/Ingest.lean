import Axona.Pubsub.Ingest

/-! # Nothing that was accepted is lost

The books of the ingest pump: what was accepted is what was begun and, behind it, what is queued; a
queue that is not empty has its loop, and there is one loop at most; and the pins are those of the
payloads that were begun and are still awaited. -/

namespace Axona

open Library

namespace Ingest

variable {s : Ingest} {e : IngestEntry} {q l : List IngestEntry} {t0 now : Int}

/-! ### Pins -/

theorem counts_pin {m : Counters Text} (h : Counts m (l.filterMap (·.dep))) (e : IngestEntry) :
    Counts (pin m e.dep) ((e :: l).filterMap (·.dep)) := by
  cases hdep : e.dep with
  | none => simpa [pin, hdep] using h
  | some d => simpa [pin, hdep] using h.inc

theorem counts_unpin {m : Counters Text} (h : Counts m ((e :: l).filterMap (·.dep))) :
    Counts (unpin m e.dep) (l.filterMap (·.dep)) := by
  cases hdep : e.dep with
  | none => simpa [unpin, hdep] using h
  | some d =>
    rw [List.filterMap_cons_some hdep] at h
    have hget : (m.get d).join = some (m.count d) := by
      rw [h.count_eq, h d, if_neg (by simp)]
      rfl
    -- there is a count, so the code's subtraction is that of a counter
    have hdec : unpin m (some d) = m.dec d := by
      simp only [unpin, Counters.dec, hget]
    rw [hdec]
    exact h.dec

/-! ### The books -/

/-- The payloads that were begun and are still awaited. -/
def active (s : Ingest) : List IngestEntry := s.inlines ++ s.pumps.filterMap PumpAt.entry

/-- A new payload at the end of the queue. -/
def queued (s : Ingest) (x : Option Int) (dep : Option Text) : Ingest :=
  { s with
    calls := s.calls + 1
    inlineSliceStart := x
    queue := s.queue ++ [IngestEntry.mk s.calls dep]
    accepted := s.accepted ++ [IngestEntry.mk s.calls dep] }

/-- The books, if the payloads of `l` are awaited. -/
structure Books (s : Ingest) (l : List IngestEntry) : Prop where
  kept : s.accepted = s.started ++ s.queue
  fresh : ∀ e ∈ s.accepted, e.fn < s.calls
  nodup : (s.accepted.map (·.fn)).Nodup
  pins : Counts s.inFlight (l.filterMap (·.dep))
  awaited : ∀ e ∈ s.started, e.fn ∈ s.settled ∨ e ∈ l

namespace Books

theorem perm {l' : List IngestEntry} (h : s.Books l) (hp : l.Perm l') : s.Books l' := by
  refine ⟨h.kept, h.fresh, h.nodup, h.pins.perm (hp.filterMap _), fun e he => ?_⟩
  exact (h.awaited e he).imp_right hp.mem_iff.mp

/-- The head of the queue is begun. -/
theorem begun (h : s.Books l) (hq : s.queue = e :: q) :
    ({ s with queue := q }.begun e).Books (e :: l) := by
  refine ⟨?_, h.fresh, h.nodup, counts_pin h.pins e, fun e' he' => ?_⟩
  · change s.accepted = (s.started ++ [e]) ++ q
    rw [h.kept, hq, List.append_assoc]
    rfl
  · rcases List.mem_append.mp he' with he' | he'
    · exact (h.awaited e' he').imp_right (List.mem_cons_of_mem e)
    · exact .inr (List.mem_cons.mpr (.inl (List.mem_singleton.mp he')))

/-- A payload that has ended is awaited no more. -/
theorem ended (h : s.Books (e :: l)) (he : e.fn ∈ s.settled) :
    { s with inFlight := unpin s.inFlight e.dep }.Books l := by
  refine ⟨h.kept, h.fresh, h.nodup, counts_unpin h.pins, fun e' he' => ?_⟩
  rcases h.awaited e' he' with hset | hmem
  · exact .inl hset
  rcases List.mem_cons.mp hmem with rfl | hmem
  · exact .inl he
  · exact .inr hmem

/-- A new payload goes to the end of the queue. -/
theorem queued (h : s.Books l) (x : Option Int) (dep : Option Text) : (s.queued x dep).Books l := by
  refine ⟨?_, fun e he => ?_, ?_, h.pins, h.awaited⟩
  · change s.accepted ++ _ = s.started ++ (s.queue ++ _)
    rw [h.kept, List.append_assoc]
  · rcases List.mem_append.mp he with he | he
    · exact Nat.lt_succ_of_lt (h.fresh e he)
    · rw [List.mem_singleton.mp he]
      exact Nat.lt_succ_self s.calls
  · change (List.map _ (s.accepted ++ _)).Nodup
    rw [List.map_append, List.nodup_append]
    refine ⟨h.nodup, List.nodup_singleton _, fun a ha b hb => ?_⟩
    obtain ⟨e, he, rfl⟩ := List.mem_map.mp ha
    rw [List.mem_singleton.mp hb]
    exact Nat.ne_of_lt (h.fresh e he)

end Books

/-! ### The loop -/

/-- What a loop does from the head of its inner loop: it ends, begins a payload, or pauses. -/
theorem pump_cases (s : Ingest) (t0 now : Int) :
    (s.queue = [] ∧ s.pump t0 now = ({ s with pumping := false }, none))
      ∨ (∃ e q, s.queue = e :: q ∧ now - t0 < ingestSliceMs
          ∧ s.pump t0 now = ({ s with queue := q }.begun e, some (.running e t0)))
      ∨ (s.queue ≠ [] ∧ ingestSliceMs ≤ now - t0 ∧ s.pump t0 now = (s, some .yielded)) := by
  unfold pump
  cases hq : s.queue with
  | nil => exact .inl ⟨rfl, rfl⟩
  | cons e q =>
    by_cases hslice : now - t0 < ingestSliceMs
    · exact .inr (.inl ⟨e, q, rfl, hslice, by simp [hslice]⟩)
    · exact .inr (.inr ⟨by simp, by omega, by simp [hslice]⟩)

theorem pumps_pump (s : Ingest) (t0 now : Int) : (s.pump t0 now).1.pumps = s.pumps := by
  rcases pump_cases s t0 now with ⟨-, heq⟩ | ⟨e, q, -, -, heq⟩ | ⟨-, -, heq⟩
  all_goals simp [heq, begun]

/-- No loop, and then nothing is queued, or one. -/
def Looped (s : Ingest) : Prop :=
  (s.pumps = [] ∧ s.pumping = false ∧ s.queue = []) ∨ ∃ p, s.pumps = [p] ∧ s.pumping = true

/-- No inline payload, or one. -/
def Inlined (s : Ingest) : Prop :=
  (s.inlines = [] ∧ s.inlineActive = false) ∨ ∃ e, s.inlines = [e] ∧ s.inlineActive = true

/-- The invariant of the pump. -/
structure OneLoop (s : Ingest) : Prop where
  books : s.Books s.active
  looped : s.Looped
  inlined : s.Inlined

/-- The loop, and no other, goes on from the head of its inner loop. -/
def onward (s : Ingest) (t0 now : Int) : Ingest :=
  { (s.pump t0 now).1 with pumps := (s.pump t0 now).2.toList }

/-- **The loop goes on**, if the inline payload is the only other that is awaited. -/
theorem Books.onward (h : s.Books s.inlines) (hp : s.pumping = true) (hi : s.Inlined)
    (t0 now : Int) : (s.onward t0 now).OneLoop := by
  unfold Ingest.onward
  rcases pump_cases s t0 now with ⟨hq, heq⟩ | ⟨e, q, hq, -, heq⟩ | ⟨-, -, heq⟩
  · rw [heq]
    refine ⟨?_, .inl ⟨rfl, rfl, hq⟩, hi⟩
    exact Books.perm (l := s.inlines) ⟨h.kept, h.fresh, h.nodup, h.pins, h.awaited⟩
      (.of_eq (List.append_nil _).symm)
  · rw [heq]
    have hb := h.begun hq
    refine ⟨?_, .inr ⟨_, rfl, hp⟩, hi⟩
    exact Books.perm (l := e :: s.inlines) ⟨hb.kept, hb.fresh, hb.nodup, hb.pins, hb.awaited⟩
      (List.perm_append_singleton e s.inlines).symm
  · rw [heq]
    refine ⟨?_, .inr ⟨_, rfl, hp⟩, hi⟩
    exact Books.perm (l := s.inlines) ⟨h.kept, h.fresh, h.nodup, h.pins, h.awaited⟩
      (.of_eq (List.append_nil _).symm)

/-! ### A payload comes -/

/-- What becomes of a payload: it is begun at once, dropped, or queued, and then the loop is begun
if there is none. -/
theorem enqueue_cases (s : Ingest) (dep : Option Text) (nowMs t0 now : Int) : ∃ x : Option Int,
      (s.queue = [] ∧ s.pumping = false ∧ s.inlineActive = false ∧ s.enqueue dep nowMs t0 now
          = { { s.queued x (dependency dep) with queue := [] }.begun
                ⟨s.calls, dependency dep⟩ with
              inlineActive := true
              inlines := s.inlines ++ [⟨s.calls, dependency dep⟩] })
      ∨ (∃ n, s.enqueue dep nowMs t0 now
          = { s with calls := s.calls + 1, inlineSliceStart := x, dropped := n })
      ∨ (s.pumping = true ∧ s.enqueue dep nowMs t0 now = s.queued x (dependency dep))
      ∨ (s.pumping = false ∧ s.enqueue dep nowMs t0 now
          = let r := { s.queued x (dependency dep) with pumping := true }.pump t0 now
            { r.1 with pumps := s.pumps ++ r.2.toList }) := by
  by_cases hidle : s.queue = [] ∧ s.pumping = false ∧ s.inlineActive = false
  · obtain ⟨hq, hp, hi⟩ := hidle
    refine ⟨some (s.inlineSliceStart.getD nowMs), ?_⟩
    by_cases hslice : nowMs - s.inlineSliceStart.getD nowMs < ingestSliceMs
    · refine .inl ⟨hq, hp, hi, ?_⟩
      simp [enqueue, queued, begun, hq, hp, hi, hslice]
    · refine .inr (.inr (.inr ⟨hp, ?_⟩))
      simp [enqueue, queued, hq, hp, hi, hslice, pumps_pump, ingestQueueMax]
  refine ⟨s.inlineSliceStart, .inr ?_⟩
  have hbusy : ¬((s.queue = [] ∧ s.pumping = false) ∧ s.inlineActive = false) := by
    rwa [and_assoc]
  by_cases hfull : ingestQueueMax ≤ s.queue.length
  · refine .inl ⟨s.dropped + 1, ?_⟩
    simp [enqueue, hbusy, hfull]
  cases hp : s.pumping with
  | true =>
    refine .inr (.inl ⟨rfl, ?_⟩)
    simp [enqueue, queued, hfull, hp]
  | false =>
    refine .inr (.inr ⟨rfl, ?_⟩)
    have hbusy' : ¬(s.queue = [] ∧ s.inlineActive = false) :=
      fun h => hidle ⟨h.1, hp, h.2⟩
    simp [enqueue, queued, hbusy', hfull, hp, pumps_pump]

theorem Looped.none (h : s.Looped) (hp : s.pumping = false) : s.pumps = [] := by
  rcases h with h | ⟨p, -, hpumping⟩
  · exact h.1
  · rw [hp] at hpumping
    cases hpumping

theorem Looped.some {p : PumpAt} {i : Nat} (h : s.Looped) (hp : s.pumps[i]? = some p) :
    s.pumps = [p] ∧ i = 0 ∧ s.pumping = true := by
  rcases h with ⟨hnone, -, -⟩ | ⟨p', hone, hpumping⟩
  · simp [hnone] at hp
  rw [hone, List.getElem?_singleton] at hp
  split at hp
  next hi => exact ⟨by rw [hone, Option.some.inj hp], hi, hpumping⟩
  next => cases hp

section

variable (h : s.OneLoop)
include h

theorem OneLoop.enqueue (dep : Option Text) (nowMs t0 now : Int) :
    (s.enqueue dep nowMs t0 now).OneLoop := by
  obtain ⟨x, hcases⟩ := enqueue_cases s dep nowMs t0 now
  have hb := h.books.queued x (dependency dep)
  rcases hcases with ⟨hq, hp, hi, heq⟩ | ⟨n, heq⟩ | ⟨hp, heq⟩ | ⟨hp, heq⟩
  · have hpumps := h.looped.none hp
    have hinlines : s.inlines = [] := by
      rcases h.inlined with hnone | ⟨e, -, hactive⟩
      · exact hnone.1
      · rw [hi] at hactive
        cases hactive
    have hqueue : (s.queued x (dependency dep)).queue = [⟨s.calls, dependency dep⟩] := by
      simp [queued, hq]
    have hbegun := hb.begun hqueue
    rw [heq]
    refine ⟨?_, .inl ⟨hpumps, hp, rfl⟩, .inr ⟨_, by rw [hinlines]; rfl, rfl⟩⟩
    refine Books.perm (l := _ :: s.active)
      ⟨hbegun.kept, hbegun.fresh, hbegun.nodup, hbegun.pins, hbegun.awaited⟩ (.of_eq ?_)
    simp [active, hinlines, hpumps, Ingest.begun, queued]
  · rw [heq]
    refine ⟨⟨h.books.kept, fun e he => ?_, h.books.nodup, h.books.pins, h.books.awaited⟩,
      h.looped, h.inlined⟩
    exact Nat.lt_succ_of_lt (h.books.fresh e he)
  · rw [heq]
    refine ⟨hb, ?_, h.inlined⟩
    rcases h.looped with ⟨-, hnot, -⟩ | hone
    · rw [hp] at hnot
      cases hnot
    · exact .inr hone
  · have hpumps := h.looped.none hp
    have hactive : s.active = s.inlines := by simp [active, hpumps]
    rw [hactive] at hb
    rw [heq, hpumps]
    exact Books.onward (s := { s.queued x (dependency dep) with pumping := true })
      ⟨hb.kept, hb.fresh, hb.nodup, hb.pins, hb.awaited⟩ rfl h.inlined t0 now

theorem OneLoop.resumeInline (fn : Nat) : (s.resumeInline fn).OneLoop := by
  unfold Ingest.resumeInline
  split
  · exact h
  next e he =>
  split
  next hset =>
    have hfn : e.fn = fn := by simpa using List.find?_some he
    have hinlines : s.inlines = [e] := by
      rcases h.inlined with ⟨hnone, -⟩ | ⟨e', hone, -⟩
      · simp [hnone] at he
      · rw [hone] at he ⊢
        rw [List.mem_singleton.mp (List.mem_of_find?_eq_some he)]
    have hb : s.Books (e :: s.pumps.filterMap PumpAt.entry) := by
      have hbooks := h.books
      rwa [active, hinlines] at hbooks
    have hended := hb.ended (hfn ▸ hset)
    refine ⟨?_, h.looped, .inl ⟨by simp [hinlines], rfl⟩⟩
    refine Books.perm (l := s.pumps.filterMap PumpAt.entry)
      ⟨hended.kept, hended.fresh, hended.nodup, hended.pins, hended.awaited⟩ (.of_eq ?_)
    simp [active, hinlines]
  · exact h

/-- What a loop that goes on does: nothing, if it is not there or the payload it waits for has not
ended. -/
theorem OneLoop.resumePump_cases (i : Nat) (t0 now : Int) : s.resumePump i t0 now = s
      ∨ (s.pumps = [.yielded] ∧ s.pumping = true ∧ i = 0 ∧ s.resumePump i t0 now = s.onward t0 now)
      ∨ (∃ e t1, s.pumps = [.running e t1] ∧ s.pumping = true ∧ i = 0 ∧ e.fn ∈ s.settled
        ∧ s.resumePump i t0 now = { s with inFlight := unpin s.inFlight e.dep }.onward t1 now) := by
  have honward : ∀ {s : Ingest} {p : PumpAt} (t0 : Int), s.pumps = [p] →
      { (s.pump t0 now).1 with
        pumps := (s.pump t0 now).1.pumps.take 0 ++ (s.pump t0 now).2.toList
          ++ (s.pump t0 now).1.pumps.drop (0 + 1) } = s.onward t0 now := by
    intro s p t0 hpumps
    simp [onward, pumps_pump, hpumps]
  unfold Ingest.resumePump
  split
  · exact .inl rfl
  next hp =>
    obtain ⟨hpumps, rfl, hpumping⟩ := h.looped.some hp
    exact .inr (.inl ⟨hpumps, hpumping, rfl, honward t0 hpumps⟩)
  next e t1 hp =>
  obtain ⟨hpumps, rfl, hpumping⟩ := h.looped.some hp
  split
  next hset => exact .inr (.inr ⟨e, t1, hpumps, hpumping, rfl, hset, honward t1 hpumps⟩)
  · exact .inl rfl

theorem OneLoop.resumePump (i : Nat) (t0 now : Int) :
    (s.resumePump i t0 now).OneLoop := by
  have hb := h.books
  rcases h.resumePump_cases i t0 now with
    heq | ⟨hpumps, hpumping, -, heq⟩ | ⟨e, t1, hpumps, hpumping, -, hset, heq⟩
  · rwa [heq]
  · rw [heq]
    have hactive : s.active = s.inlines := by simp [active, hpumps, PumpAt.entry]
    rw [hactive] at hb
    exact hb.onward hpumping h.inlined t0 now
  · rw [heq]
    have hactive : s.active = s.inlines ++ [e] := by simp [active, hpumps, PumpAt.entry]
    rw [hactive] at hb
    have hended := (hb.perm (List.perm_append_singleton e s.inlines)).ended hset
    exact Books.onward (s := { s with inFlight := unpin s.inFlight e.dep }) hended hpumping
      h.inlined t1 now

/-- **One step.** -/
theorem OneLoop.step (a : IngestAct) : (s.step a).OneLoop := by
  cases a with
  | enqueue dep nowMs t0 now => exact h.enqueue dep nowMs t0 now
  | settle fn =>
    simp only [Ingest.step]
    split
    · refine ⟨⟨h.books.kept, h.books.fresh, h.books.nodup, h.books.pins, fun e he => ?_⟩,
        h.looped, h.inlined⟩
      exact (h.books.awaited e he).imp_left (List.mem_cons_of_mem fn)
    · exact h
  | resumeInline fn => exact h.resumeInline fn
  | resumePump i t0 now => exact h.resumePump i t0 now
  | clear =>
    exact ⟨⟨h.books.kept, h.books.fresh, h.books.nodup, h.books.pins, h.books.awaited⟩,
      h.looped, h.inlined⟩

end

theorem oneLoop_empty : empty.OneLoop :=
  ⟨⟨rfl, (fun _ h => nomatch h), List.nodup_nil, .nil, (fun _ h => nomatch h)⟩,
    .inl ⟨rfl, rfl, rfl⟩, .inl ⟨rfl, rfl⟩⟩

/-! ### What is pinned -/

/-- **What the duty gate reads**: the peers of the payloads that are awaited or queued. -/
theorem Books.mem_queuedDependencies (h : s.Books l) (d : Text) :
    d ∈ s.queuedDependencies ↔ ∃ e ∈ l ++ s.queue, e.dep = some d := by
  have hpin : d ∈ (s.inFlight.entries.filter fun x => 0 < x.2.getD 0).map Prod.fst
      ↔ ∃ e ∈ l, e.dep = some d := by
    rw [← List.mem_filterMap, h.pins.mem_iff d]
    constructor
    · intro hd
      obtain ⟨⟨d', c⟩, hx, rfl⟩ := List.mem_map.mp hd
      have hpos : 0 < c.getD 0 := by simpa using (List.mem_filter.mp hx).2
      have hget := OrderedMap.get_of_mem (List.mem_of_mem_filter hx)
      cases c with
      | none => cases hpos
      | some c => exact ⟨c, hget, hpos⟩
    · rintro ⟨c, hget, hpos⟩
      have hmem : (d, some c) ∈ s.inFlight.entries.filter fun x => 0 < x.2.getD 0 :=
        List.mem_filter.mpr ⟨OrderedMap.mem_of_get hget, by simpa using hpos⟩
      exact List.mem_map.mpr ⟨_, hmem, rfl⟩
  unfold queuedDependencies
  rw [List.mem_dedup, List.mem_append, hpin, List.mem_filterMap]
  simp only [List.mem_append, or_and_right, exists_or]

/-! ### The pump as a whole -/

/-- What holds of the pump at every instant. What was accepted was begun once, in the order of
acceptance, or is queued behind and has its loop; there is one loop at most; and a payload that has
not ended is pinned. -/
structure Pumped (s : Ingest) : Prop where
  inOrder : s.accepted = s.started ++ s.queue
  once : (s.started.map (·.fn)).Nodup
  awake : s.queue ≠ [] → s.pumps ≠ []
  single : s.pumps.length ≤ 1
  pinned : ∀ e ∈ s.accepted, e.fn ∉ s.settled → ∀ d, e.dep = some d → d ∈ s.queuedDependencies

theorem OneLoop.pumped (h : s.OneLoop) : s.Pumped := by
  refine ⟨h.books.kept, ?_, fun hq hnone => ?_, ?_, fun e he hset d hdep => ?_⟩
  · have hnodup := h.books.nodup
    rw [h.books.kept, List.map_append] at hnodup
    exact (List.nodup_append.mp hnodup).1
  · rcases h.looped with hidle | ⟨p, hone, -⟩
    · exact hq hidle.2.2
    · rw [hone] at hnone
      cases hnone
  · rcases h.looped with ⟨hnone, -, -⟩ | ⟨p, hone, -⟩
    · rw [hnone]
      exact Nat.zero_le 1
    · rw [hone]
      exact Nat.le_refl 1
  · refine (h.books.mem_queuedDependencies d).mpr ⟨e, List.mem_append.mpr ?_, hdep⟩
    rw [h.books.kept] at he
    rcases List.mem_append.mp he with hstarted | hqueued
    · exact .inl ((h.books.awaited e hstarted).resolve_left hset)
    · exact .inr hqueued

/-- The turns of a loop: it goes on, and the clock is within the slice. -/
def turn (s : Ingest) : IngestAct → Bool
  | .resumePump i t0 now =>
    match s.pumps[i]? with
    | none => false
    | some .yielded => now - t0 < ingestSliceMs
    | some (.running e t1) => e.fn ∈ s.settled && decide (now - t1 < ingestSliceMs)
  | _ => false

/-- Nothing that was accepted or begun is taken back. -/
def Grows (s s' : Ingest) : Prop :=
  s.accepted.length ≤ s'.accepted.length ∧ s.started.length ≤ s'.started.length

theorem grows_pump (s : Ingest) (t0 now : Int) : s.Grows (s.pump t0 now).1 := by
  rcases pump_cases s t0 now with ⟨-, heq⟩ | ⟨e, q, -, -, heq⟩ | ⟨-, -, heq⟩
  · rw [heq]
    exact ⟨Nat.le_refl _, Nat.le_refl _⟩
  · rw [heq]
    exact ⟨Nat.le_refl _, by simp [begun]⟩
  · rw [heq]
    exact ⟨Nat.le_refl _, Nat.le_refl _⟩

theorem OneLoop.grows (h : s.OneLoop) (a : IngestAct) : s.Grows (s.step a) := by
  have hsame : s.Grows s := ⟨Nat.le_refl _, Nat.le_refl _⟩
  cases a with
  | enqueue dep nowMs t0 now =>
    obtain ⟨x, hcases⟩ := enqueue_cases s dep nowMs t0 now
    simp only [Ingest.step]
    rcases hcases with ⟨-, -, -, heq⟩ | ⟨n, heq⟩ | ⟨-, heq⟩ | ⟨-, heq⟩
    · rw [heq]
      exact ⟨by simp [Ingest.begun, queued], by simp [Ingest.begun, queued]⟩
    · rw [heq]
      exact hsame
    · rw [heq]
      exact ⟨by simp [queued], Nat.le_refl _⟩
    · rw [heq]
      have hpump := grows_pump { s.queued x (dependency dep) with pumping := true } t0 now
      refine ⟨Nat.le_trans ?_ hpump.1, hpump.2⟩
      simp [queued]
  | settle fn =>
    simp only [Ingest.step]
    split
    · exact hsame
    · exact hsame
  | resumeInline fn =>
    simp only [Ingest.step, Ingest.resumeInline]
    split
    · exact hsame
    split
    · exact hsame
    · exact hsame
  | resumePump i t0 now =>
    simp only [Ingest.step]
    rcases h.resumePump_cases i t0 now with heq | ⟨-, -, -, heq⟩ | ⟨e, t1, -, -, -, -, heq⟩
    · rw [heq]
      exact hsame
    · rw [heq]
      exact grows_pump s t0 now
    · rw [heq]
      exact grows_pump { s with inFlight := unpin s.inFlight e.dep } t1 now
  | clear => exact hsame

/-- From the head of its inner loop, within the slice, a loop begins the next payload if there is
one. -/
theorem started_onward (hslice : now - t0 < ingestSliceMs) :
    s.queue = [] ∨ (s.onward t0 now).started.length = s.started.length + 1 := by
  unfold onward
  rcases pump_cases s t0 now with ⟨hq, -⟩ | ⟨e, q, -, -, heq⟩ | ⟨-, hover, -⟩
  · exact .inl hq
  · rw [heq]
    exact .inr (by simp [begun])
  · omega

/-- **A turn** begins a payload, unless all that were accepted were begun. -/
theorem OneLoop.turn (h : s.OneLoop) {a : IngestAct} (ha : s.turn a = true) :
    s.started.length + 1 ≤ (s.step a).started.length ∨ s.accepted.length ≤ s.started.length := by
  have hempty : s.queue = [] → s.accepted.length ≤ s.started.length := by
    intro hq
    rw [h.books.kept, hq, List.append_nil]
  cases a with
  | resumePump i t0 now =>
    simp only [Ingest.step]
    cases hp : s.pumps[i]? with
    | none => simp [Ingest.turn, hp] at ha
    | some p =>
      obtain ⟨hpumps, rfl, -⟩ := h.looped.some hp
      cases p with
      | yielded =>
        have hslice : now - t0 < ingestSliceMs := by simpa [Ingest.turn, hp] using ha
        have heq : s.resumePump 0 t0 now = s.onward t0 now := by
          simp [Ingest.resumePump, hpumps, onward, pumps_pump]
        rw [heq]
        rcases started_onward (s := s) hslice with hq | hlen
        · exact .inr (hempty hq)
        · exact .inl (Nat.le_of_eq hlen.symm)
      | running e t1 =>
        obtain ⟨hset, hslice⟩ : e.fn ∈ s.settled ∧ now - t1 < ingestSliceMs := by
          simpa [Ingest.turn, hp] using ha
        have heq : s.resumePump 0 t0 now
            = { s with inFlight := unpin s.inFlight e.dep }.onward t1 now := by
          simp [Ingest.resumePump, hpumps, hset, onward, pumps_pump]
        rw [heq]
        rcases started_onward (s := { s with inFlight := unpin s.inFlight e.dep }) hslice with
          hq | hlen
        · exact .inr (hempty hq)
        · exact .inl (Nat.le_of_eq hlen.symm)
  | _ => cases ha

theorem oneLoop_run (as : List IngestAct) : (run step empty as).OneLoop :=
  run_invariant (fun _ a h => h.step a) oneLoop_empty as

/-- **The ingest pump.** At every instant of every run what was accepted was begun once, in order,
or is queued and has its loop, which is the only one, and what has not ended is pinned. And with
every turn of the loop one more is begun, until all that were accepted are. -/
theorem ingest_once (as : List IngestAct) :
    (run step empty as).Pumped ∧ ∀ bs,
      min (run step empty as).accepted.length
          ((run step empty as).started.length + stepCount step turn (run step empty as) bs)
        ≤ (run step (run step empty as) bs).started.length := by
  refine ⟨(oneLoop_run as).pumped, fun bs => ?_⟩
  refine min_le_run
    (I := fun s : Ingest => s.OneLoop ∧ (run step empty as).accepted.length ≤ s.accepted.length)
    (fun s a h => ⟨h.1.step a, h.2.trans (h.1.grows a).1⟩) (fun s a h => (h.1.grows a).2)
    (fun s a h ha => ?_) ⟨oneLoop_run as, Nat.le_refl _⟩ bs
  exact (h.1.turn ha).imp_right h.2.trans

end Ingest

end Axona
