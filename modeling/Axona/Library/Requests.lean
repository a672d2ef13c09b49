import Axona.Library.OrderedMap

/-! # Requests under reusable ids

A node asks others and waits for their answers. Each request goes out under a small id, and the
table of the requests outstanding is kept by id; a timer is set for each, and gives it up. The ids
start over after the last one, so an id may be given out while an older request still has it: the
older one is then out of the table, and its timer takes the newer one with it.

A request is told from the others by its number, its place among all that were asked. `InOrder` says
what holds of the table, the timers and the requests settled so far whatever is done to them: every
request is settled at most once, and one that is not has its timer set. -/

namespace Axona.Library

/-- A request that waits for its answer: whom it went to, and its number. -/
structure Outstanding (ν : Type*) where
  node : ν
  number : Nat

/-- What settles a request. -/
inductive Settlement (φ : Type*) where
  | answered (frame : φ)
  | timedOut
  | givenUp

/-- The requests of a node. -/
structure Requests (ν φ : Type*) where
  nextId : Nat
  /-- By id: the requests outstanding. -/
  pending : OrderedMap Nat (Outstanding ν)
  /-- By number: the timers set, each with the id it drops. -/
  timers : OrderedMap Nat Nat
  /-- Whom each request went to, by number. -/
  asked : List ν
  /-- What was settled, newest first. -/
  settled : List (Nat × Settlement φ)

namespace Requests

variable {ν φ : Type*}

/-- No request yet. -/
def init : Requests ν φ := ⟨1, ∅, ∅, [], []⟩

/-- The request of that number is settled, and its timer is cleared. -/
def settle (r : Requests ν φ) (number : Nat) (c : Settlement φ) : Requests ν φ :=
  { r with timers := r.timers.delete number, settled := (number, c) :: r.settled }

/-- The request under an id is settled. -/
def drop (r : Requests ν φ) (id : Nat) (c : Settlement φ) : Requests ν φ :=
  match r.pending.get id with
  | none => r
  | some p => { r with pending := r.pending.delete id }.settle p.number c

/-- The requests under the ids are settled. -/
def dropAll (r : Requests ν φ) (ids : List Nat) (c : Settlement φ) : Requests ν φ :=
  ids.foldl (fun r id => r.drop id c) r

/-- The ids of the requests outstanding that satisfy `p`. -/
def idsWhere (r : Requests ν φ) (p : Outstanding ν → Bool) : List Nat :=
  (r.pending.entries.filter fun e => p e.2).map Prod.fst

/-- All that is outstanding is settled. -/
def close (r : Requests ν φ) : Requests ν φ :=
  { r.dropAll r.pending.keys .givenUp with pending := ∅ }

/-- The timer of a request goes off: it drops whatever is under the id it was set for. -/
def fire (r : Requests ν φ) (number : Nat) : Requests ν φ :=
  match r.timers.get number with
  | none => r
  | some id => { r with pending := r.pending.delete id }.settle number .timedOut

/-- A request goes out under the next id. -/
def ask (r : Requests ν φ) (maxId : Nat) (node : ν) : Requests ν φ :=
  { r with
    nextId := if maxId ≤ r.nextId then 1 else r.nextId + 1
    pending := r.pending.set r.nextId ⟨node, r.asked.length⟩
    timers := r.timers.set r.asked.length r.nextId
    asked := r.asked ++ [node] }

/-- A request is refused before it has an id. -/
def refuse (r : Requests ν φ) (node : ν) : Requests ν φ :=
  { r with asked := r.asked ++ [node], settled := (r.asked.length, .givenUp) :: r.settled }

/-- The numbers settled. -/
def done (r : Requests ν φ) : List Nat := r.settled.map Prod.fst

/-! ### What holds of the requests -/

/-- **The requests are in order.** -/
structure InOrder (r : Requests ν φ) : Prop where
  /-- What is outstanding went to the node noted, and its timer is set for its id. -/
  pending : ∀ id p, r.pending.get id = some p →
    r.asked[p.number]? = some p.node ∧ r.timers.get p.number = some id
  /-- A timer set is that of a request not settled. -/
  timers : ∀ k id, r.timers.get k = some id → k < r.asked.length ∧ k ∉ r.done
  /-- No request is settled twice. -/
  once : r.done.Nodup
  /-- Only what was asked is settled. -/
  asked : ∀ k ∈ r.done, k < r.asked.length
  /-- What is not settled has its timer set. -/
  waits : ∀ k < r.asked.length, k ∈ r.done ∨ ∃ id, r.timers.get k = some id

/-- Every answer that settled a request is as `ok` says. -/
def Answered (ok : ν → Nat → φ → Prop) (r : Requests ν φ) : Prop :=
  ∀ k f, (k, Settlement.answered f) ∈ r.settled → ∃ node, r.asked[k]? = some node ∧ ok node k f

variable {r : Requests ν φ} {ok : ν → Nat → φ → Prop}

theorem inOrder_init : (init : Requests ν φ).InOrder :=
  ⟨by rintro id p ⟨⟩, by rintro k id ⟨⟩, List.nodup_nil, by rintro k ⟨⟩, by rintro k ⟨⟩⟩

section

variable (h : r.InOrder)
include h

/-- A request whose timer is set is settled, and what is under its id goes. -/
theorem InOrder.settle {k id : Nat} (hk : r.timers.get k = some id) (c : Settlement φ) :
    ({ r with pending := r.pending.delete id }.settle k c).InOrder := by
  obtain ⟨hlt, hopen⟩ := h.timers k id hk
  refine ⟨?_, ?_, ?_, ?_, ?_⟩
  · intro j p hp
    replace hp : (r.pending.delete id).get j = some p := hp
    rw [OrderedMap.get_delete] at hp
    split at hp
    · cases hp
    next hj =>
    obtain ⟨hasked, htimer⟩ := h.pending j p hp
    refine ⟨hasked, ?_⟩
    show (r.timers.delete k).get p.number = some j
    have hne : p.number ≠ k := by
      rintro rfl
      rw [htimer] at hk
      exact hj (Option.some.inj hk)
    rw [OrderedMap.get_delete, if_neg hne]
    exact htimer
  · intro m i hm
    replace hm : (r.timers.delete k).get m = some i := hm
    rw [OrderedMap.get_delete] at hm
    split at hm
    · cases hm
    next hmk =>
    obtain ⟨hmlt, hmopen⟩ := h.timers m i hm
    refine ⟨hmlt, fun hmem => ?_⟩
    rcases List.mem_cons.mp hmem with heq | hmem
    · exact hmk heq
    · exact hmopen hmem
  · exact List.nodup_cons.mpr ⟨hopen, h.once⟩
  · intro m hm
    rcases List.mem_cons.mp hm with rfl | hm
    · exact hlt
    · exact h.asked m hm
  · intro m hm
    by_cases hmk : m = k
    · exact .inl (List.mem_cons.mpr (.inl hmk))
    rcases h.waits m hm with hdone | ⟨i, hi⟩
    · exact .inl (List.mem_cons_of_mem _ hdone)
    refine .inr ⟨i, ?_⟩
    show (r.timers.delete k).get m = some i
    rw [OrderedMap.get_delete, if_neg hmk]
    exact hi

theorem InOrder.drop (id : Nat) (c : Settlement φ) : (r.drop id c).InOrder := by
  unfold Requests.drop
  split
  · exact h
  next p hp => exact h.settle (h.pending id p hp).2 c

theorem InOrder.dropAll (ids : List Nat) (c : Settlement φ) :
    (r.dropAll ids c).InOrder := by
  induction ids generalizing r with
  | nil => exact h
  | cons id ids ih => exact ih (h.drop id c)

theorem InOrder.close : r.close.InOrder := by
  have hall := h.dropAll r.pending.keys .givenUp
  exact ⟨by rintro id p ⟨⟩, hall.timers, hall.once, hall.asked, hall.waits⟩

theorem InOrder.fire (number : Nat) : (r.fire number).InOrder := by
  unfold Requests.fire
  split
  · exact h
  next id hid => exact h.settle hid .timedOut

theorem InOrder.ask (maxId : Nat) (node : ν) : (r.ask maxId node).InOrder := by
  have hnew : r.asked.length ∉ r.done := fun hmem => absurd (h.asked _ hmem) (Nat.lt_irrefl _)
  refine ⟨?_, ?_, h.once, ?_, ?_⟩
  · intro j p hp
    replace hp : (r.pending.set r.nextId ⟨node, r.asked.length⟩).get j = some p := hp
    show (r.asked ++ [node])[p.number]? = _ ∧
      (r.timers.set r.asked.length r.nextId).get p.number = some j
    rw [OrderedMap.get_set] at hp ⊢
    split at hp
    next hj =>
      cases hp
      rw [if_pos rfl, hj]
      exact ⟨List.getElem?_concat_length .., rfl⟩
    next hj =>
    obtain ⟨hasked, htimer⟩ := h.pending j p hp
    have hlt := (h.timers _ _ htimer).1
    rw [if_neg (Nat.ne_of_lt hlt), List.getElem?_append_left hlt]
    exact ⟨hasked, htimer⟩
  · intro m i hm
    replace hm : (r.timers.set r.asked.length r.nextId).get m = some i := hm
    show m < (r.asked ++ [node]).length ∧ m ∉ r.done
    rw [List.length_append]
    rw [OrderedMap.get_set] at hm
    split at hm
    next heq =>
      rw [heq]
      exact ⟨Nat.lt_succ_self _, hnew⟩
    next =>
      obtain ⟨hlt, hopen⟩ := h.timers m i hm
      exact ⟨Nat.lt_succ_of_lt hlt, hopen⟩
  · intro m hm
    show m < (r.asked ++ [node]).length
    rw [List.length_append]
    exact Nat.lt_succ_of_lt (h.asked m hm)
  · intro m hm
    replace hm : m < (r.asked ++ [node]).length := hm
    rw [List.length_append] at hm
    show m ∈ r.done ∨ ∃ id, (r.timers.set r.asked.length r.nextId).get m = some id
    rw [OrderedMap.get_set]
    by_cases heq : m = r.asked.length
    · exact .inr ⟨r.nextId, if_pos heq⟩
    · rw [if_neg heq]
      exact h.waits m (by have := List.length_singleton (a := node); omega)

theorem InOrder.refuse (node : ν) : (r.refuse node).InOrder := by
  have hnew : r.asked.length ∉ r.done := fun hmem => absurd (h.asked _ hmem) (Nat.lt_irrefl _)
  have hlen : (r.asked ++ [node]).length = r.asked.length + 1 := List.length_append ..
  refine ⟨?_, ?_, List.nodup_cons.mpr ⟨hnew, h.once⟩, ?_, ?_⟩
  · intro j p hp
    obtain ⟨hasked, htimer⟩ := h.pending j p hp
    refine ⟨?_, htimer⟩
    show (r.asked ++ [node])[p.number]? = _
    rw [List.getElem?_append_left (h.timers _ _ htimer).1]
    exact hasked
  · intro m i hm
    obtain ⟨hlt, hopen⟩ := h.timers m i hm
    refine ⟨by rw [Requests.refuse, hlen]; exact Nat.lt_succ_of_lt hlt, fun hmem => ?_⟩
    rcases List.mem_cons.mp hmem with heq | hmem
    · exact absurd heq (Nat.ne_of_lt hlt)
    · exact hopen hmem
  · intro m hm
    show m < (r.asked ++ [node]).length
    rw [hlen]
    rcases List.mem_cons.mp hm with rfl | hm
    · exact Nat.lt_succ_self _
    · exact Nat.lt_succ_of_lt (h.asked m hm)
  · intro m hm
    replace hm : m < (r.asked ++ [node]).length := hm
    rw [hlen] at hm
    by_cases heq : m = r.asked.length
    · exact .inl (List.mem_cons.mpr (.inl heq))
    rcases h.waits m (by omega) with hdone | htimer
    · exact .inl (List.mem_cons_of_mem _ hdone)
    · exact .inr htimer

end

/-! ### Who answers -/

variable {c : Settlement φ}

/-- A request settled without an answer leaves the answers as they are. -/
theorem answered_settle {k : Nat} (hc : ∀ f, c ≠ .answered f) :
    (r.settle k c).Answered ok ↔ r.Answered ok := by
  refine ⟨fun h j f hj => h j f (List.mem_cons_of_mem _ hj), fun h j f hj => ?_⟩
  rcases List.mem_cons.mp hj with heq | hj
  · exact absurd (Prod.mk.inj heq).2.symm (hc f)
  · exact h j f hj

theorem answered_drop {id : Nat} (hc : ∀ f, c ≠ .answered f) :
    (r.drop id c).Answered ok ↔ r.Answered ok := by
  unfold drop
  split
  · exact Iff.rfl
  · exact answered_settle hc

theorem answered_dropAll {ids : List Nat} (hc : ∀ f, c ≠ .answered f) :
    (r.dropAll ids c).Answered ok ↔ r.Answered ok := by
  induction ids generalizing r with
  | nil => exact Iff.rfl
  | cons id ids ih => exact ih.trans (answered_drop hc)

theorem answered_close : r.close.Answered ok ↔ r.Answered ok :=
  answered_dropAll (by rintro f ⟨⟩)

theorem answered_fire {number : Nat} : (r.fire number).Answered ok ↔ r.Answered ok := by
  unfold fire
  split
  · exact Iff.rfl
  · exact answered_settle (by rintro f ⟨⟩)

theorem InOrder.asked_append (hr : r.InOrder) (node : ν) {k : Nat} {f : φ}
    (hk : (k, Settlement.answered f) ∈ r.settled) : (r.asked ++ [node])[k]? = r.asked[k]? :=
  List.getElem?_append_left (hr.asked k (List.mem_map_of_mem hk))

theorem answered_ask {maxId : Nat} {node : ν} (hr : r.InOrder) :
    (r.ask maxId node).Answered ok ↔ r.Answered ok := by
  refine ⟨fun h k f hk => ?_, fun h k f hk => ?_⟩
  · rw [← hr.asked_append node hk]
    exact h k f hk
  · show ∃ m, (r.asked ++ [node])[k]? = some m ∧ _
    rw [hr.asked_append node hk]
    exact h k f hk

theorem answered_refuse {node : ν} (hr : r.InOrder) :
    (r.refuse node).Answered ok ↔ r.Answered ok := by
  refine ⟨fun h k f hk => ?_, fun h k f hk => ?_⟩
  · rw [← hr.asked_append node hk]
    exact h k f (List.mem_cons_of_mem _ hk)
  · rcases List.mem_cons.mp hk with heq | hk
    · cases heq
    show ∃ m, (r.asked ++ [node])[k]? = some m ∧ _
    rw [hr.asked_append node hk]
    exact h k f hk

/-- **An answer is right when it suits the request it settles.** -/
theorem answered_answer {id : Nat} {p : Outstanding ν} {f : φ} (hr : r.InOrder)
    (hp : r.pending.get id = some p) :
    (r.drop id (.answered f)).Answered ok ↔ r.Answered ok ∧ ok p.node p.number f := by
  have hasked := (hr.pending id p hp).1
  have hdrop : r.drop id (.answered f) =
      { r with pending := r.pending.delete id }.settle p.number (.answered f) := by
    unfold drop
    rw [hp]
  rw [hdrop]
  refine ⟨fun h => ⟨fun k g hk => h k g (List.mem_cons_of_mem _ hk), ?_⟩, ?_⟩
  · obtain ⟨node, hnode, hok⟩ := h p.number f List.mem_cons_self
    replace hnode : r.asked[p.number]? = some node := hnode
    rw [hasked] at hnode
    rwa [Option.some.inj hnode]
  · rintro ⟨h, hok⟩ k g hk
    rcases List.mem_cons.mp hk with heq | hk
    · obtain ⟨rfl, hg⟩ := Prod.mk.inj heq
      cases hg
      exact ⟨p.node, hasked, hok⟩
    · exact h k g hk

/-- **Each request is settled once.** None is settled twice, and one that is not settled will be
when its timer goes off. -/
theorem InOrder.settles (h : r.InOrder) :
    r.done.Nodup ∧ ∀ k < r.asked.length, k ∈ r.done ∨ k ∈ (r.fire k).done := by
  refine ⟨h.once, fun k hk => ?_⟩
  rcases h.waits k hk with hdone | ⟨id, hid⟩
  · exact .inl hdone
  refine .inr ?_
  unfold Requests.fire
  rw [hid]
  exact List.mem_cons_self

end Requests

end Axona.Library
