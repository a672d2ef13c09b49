import Mathlib.Data.List.Nodup

/-! # Crossed offers

Two parties may each offer the other to begin something together, over channels that lose nothing
and keep the order. A party that is offered something either takes the offer, and answers it from
then on instead of what it had, or refuses it with a word back. Where both have an offer out, the
two cross, and if both take the other's then neither stands by its own.

`Crossing.BothAt` is what holds as long as of two offers that cross at most one is taken: it is
enough that a party does not take an offer while its own has been taken, and it gives back an
agreement as soon as nothing is on its way. -/

namespace Axona.Library

namespace Crossing

/-- What a party is about. -/
inductive Slot (α : Type*) where
  | idle
  /-- It offers `a`; `sent` says that the offer is out. -/
  | offering (a : α) (sent : Bool)
  | answering (a : α)
deriving DecidableEq

/-- What is on its way. -/
inductive Message (α : Type*) where
  | offer (a : α)
  | reject (a : α)
deriving DecidableEq

namespace Message

variable {α : Type*}

/-- What a message offers. -/
def offered : Message α → Option α
  | offer a => some a
  | reject _ => none

end Message

/-- The offers among messages, in their order. -/
def offers {α : Type*} (w : List (Message α)) : List α := w.filterMap Message.offered

variable {α : Type*}

@[simp] theorem offers_nil : offers ([] : List (Message α)) = [] := rfl

@[simp] theorem offers_offer_cons (a : α) (w : List (Message α)) :
    offers (.offer a :: w) = a :: offers w := rfl

@[simp] theorem offers_reject_cons (a : α) (w : List (Message α)) :
    offers (.reject a :: w) = offers w := rfl

@[simp] theorem offers_append (v w : List (Message α)) : offers (v ++ w) = offers v ++ offers w :=
  List.filterMap_append

@[simp] theorem mem_offers {a : α} {w : List (Message α)} : a ∈ offers w ↔ .offer a ∈ w := by
  unfold offers
  rw [List.mem_filterMap]
  constructor
  · rintro ⟨m, hm, ha⟩
    cases m with
    | offer b =>
      cases ha
      exact hm
    | reject b => cases ha
  · intro h
    exact ⟨_, h, rfl⟩

/-- **What holds of one party**, which is about `x` while the other is about `y`; `v` is on its way
to it and `w` to the other. Its offer is not known before it is sent, and after that is the last one
on its way, or was taken, or was refused. Whoever answers is offered something by the other. -/
structure At (x y : Slot α) (v w : List (Message α)) : Prop where
  nodup : (offers v).Nodup
  idle : x = .idle → offers w = []
  unsent : ∀ a, x = .offering a false → a ∉ offers w ∧ .reject a ∉ v ∧ y ≠ .answering a
  sent : ∀ a, x = .offering a true → (offers w).getLast? = some a
    ∨ offers w = [] ∧ (y = .answering a ∨ .reject a ∈ v)
  refused : ∀ a b, x = .offering a b → .reject a ∈ v → offers w = []
    ∧ ∃ c d, y = .offering c d ∧ .reject c ∉ w
  answering : ∀ a, x = .answering a → a ∉ offers v ∧ ∃ c d, y = .offering c d

/-- What holds of both. -/
structure BothAt (x y : Slot α) (v w : List (Message α)) : Prop where
  mine : At x y v w
  theirs : At y x w v

theorem BothAt.swap {x y : Slot α} {v w : List (Message α)} (h : BothAt x y v w) : BothAt y x w v :=
  ⟨h.theirs, h.mine⟩

/-- Nobody has begun. -/
theorem bothAt_init : BothAt (.idle : Slot α) .idle [] [] := by
  have hat : At (.idle : Slot α) .idle [] [] := by
    refine ⟨List.nodup_nil, fun _ => rfl, ?_, ?_, ?_, ?_⟩
    · intro a h
      cases h
    · intro a h
      cases h
    · intro a b h
      cases h
    · intro a h
      cases h
  exact ⟨hat, hat⟩

/-- Taking the first of several leaves the last one, unless it was that. -/
theorem getLast?_of_cons {a b : α} {l : List α} (h : (a :: l).getLast? = some b) :
    l.getLast? = some b ∨ l = [] ∧ a = b := by
  cases l with
  | nil =>
    cases h
    exact .inr ⟨rfl, rfl⟩
  | cons c l =>
    rw [List.getLast?_cons_cons] at h
    exact .inl h

namespace BothAt

variable {x y : Slot α} {v w : List (Message α)} {a e : α}

/-- A party that does not answer begins to offer something new. -/
theorem offer (h : BothAt x y v w) (hx : ∀ b, x ≠ .answering b)
    (how : .offer a ∉ w) (hov : .reject a ∉ v) (hoy : y ≠ .answering a) :
    BothAt (.offering a false) y v w where
  mine := by
    refine ⟨h.mine.nodup, ?_, ?_, ?_, ?_, ?_⟩
    · intro hidle
      cases hidle
    · rintro b ⟨⟩
      exact ⟨by simpa using how, hov, hoy⟩
    · intro b hb
      cases hb
    · rintro b c ⟨⟩ hrej
      exact absurd hrej hov
    · intro b hb
      cases hb
  theirs := by
    refine ⟨h.theirs.nodup, h.theirs.idle, ?_, ?_, ?_, ?_⟩
    · intro b hb
      obtain ⟨hw, hv, -⟩ := h.theirs.unsent b hb
      exact ⟨hw, hv, by rintro ⟨⟩⟩
    · intro b hb
      refine (h.theirs.sent b hb).imp_right ?_
      rintro ⟨hnil, hans | hrej⟩
      · exact absurd hans (hx b)
      · exact ⟨hnil, .inr hrej⟩
    · intro b c hb hrej
      exact ⟨(h.theirs.refused b c hb hrej).1, a, false, rfl, hov⟩
    · intro b hb
      exact ⟨(h.theirs.answering b hb).1, a, false, rfl⟩

/-- The offer goes out. -/
theorem send (h : BothAt (.offering a false) y v w) :
    BothAt (.offering a true) y v (w ++ [.offer a]) := by
  obtain ⟨hw, hv, hy⟩ := h.mine.unsent a rfl
  refine ⟨⟨h.mine.nodup, ?_, ?_, ?_, ?_, ?_⟩, ⟨?_, h.theirs.idle, ?_, ?_, ?_, ?_⟩⟩
  · intro hidle
    cases hidle
  · intro b hb
    cases hb
  · rintro b ⟨⟩
    left
    simp
  · rintro b c ⟨⟩ hrej
    exact absurd hrej hv
  · intro b hb
    cases hb
  · rw [offers_append]
    exact List.Nodup.append h.theirs.nodup (List.nodup_singleton a) (by simpa using hw)
  · intro b hb
    obtain ⟨hov, hrw, -⟩ := h.theirs.unsent b hb
    refine ⟨hov, ?_, by rintro ⟨⟩⟩
    simpa using hrw
  · intro b hb
    refine (h.theirs.sent b hb).imp_right ?_
    rintro ⟨hnil, hans | hrej⟩
    · cases hans
    · exact ⟨hnil, .inr (List.mem_append_left _ hrej)⟩
  · intro b c hb hrej
    have hrej' : .reject b ∈ w := by simpa using hrej
    exact ⟨(h.theirs.refused b c hb hrej').1, a, true, rfl, hv⟩
  · intro b hb
    obtain ⟨hnot, -⟩ := h.theirs.answering b hb
    refine ⟨?_, a, true, rfl⟩
    have hne : b ≠ a := by
      rintro rfl
      exact hy hb
    simpa [hne] using hnot

/-- An offer is taken: at most one of two that cross is. -/
theorem accept (h : BothAt x y (.offer e :: v) w)
    (hone : ∀ b c, x = .offering b c → ∀ d, y ≠ .answering d) : BothAt (.answering e) y v w := by
  have hnodup : e ∉ offers v ∧ (offers v).Nodup := List.nodup_cons.mp h.mine.nodup
  have hy : ∃ c d, y = .offering c d := by
    cases y with
    | idle =>
      have hnil := h.theirs.idle rfl
      cases hnil
    | offering c d => exact ⟨c, d, rfl⟩
    | answering d =>
      obtain ⟨-, b, c, hx⟩ := h.theirs.answering d rfl
      exact absurd rfl (hone b c hx d)
  obtain ⟨c, d, rfl⟩ := hy
  refine ⟨⟨hnodup.2, ?_, ?_, ?_, ?_, ?_⟩, ⟨h.theirs.nodup, ?_, ?_, ?_, ?_, ?_⟩⟩
  · intro hidle
    cases hidle
  · intro b hb
    cases hb
  · intro b hb
    cases hb
  · intro b c' hb
    cases hb
  · rintro b ⟨⟩
    exact ⟨hnodup.1, c, d, rfl⟩
  · intro hidle
    cases hidle
  · rintro b ⟨⟩
    obtain ⟨hov, hrw, -⟩ := h.theirs.unsent c rfl
    refine ⟨fun hmem => hov (List.mem_cons_of_mem e hmem), hrw, ?_⟩
    rintro ⟨⟩
    exact hov List.mem_cons_self
  · rintro b ⟨⟩
    rcases h.theirs.sent c rfl with hlast | ⟨hnil, -⟩
    · rcases getLast?_of_cons hlast with hrest | ⟨hrest, rfl⟩
      · exact .inl hrest
      · exact .inr ⟨hrest, .inl rfl⟩
    · cases hnil
  · intro b c' hb hrej
    have hnil := (h.theirs.refused b c' hb hrej).1
    cases hnil
  · intro b hb
    cases hb

/-- An offer is refused by a party whose own offer is not: the other hears of it. -/
theorem refuse {b : Bool} (h : BothAt (.offering a b) y (.offer e :: v) w) (hrej : .reject a ∉ v) :
    BothAt (.offering a b) y v (w ++ [.reject e]) := by
  have hnodup : e ∉ offers v ∧ (offers v).Nodup := List.nodup_cons.mp h.mine.nodup
  have hofs : offers (w ++ [.reject e]) = offers w := by simp
  refine ⟨⟨hnodup.2, ?_, ?_, ?_, ?_, ?_⟩, ⟨?_, ?_, ?_, ?_, ?_, ?_⟩⟩
  · intro hidle
    cases hidle
  · rintro c ⟨⟩
    obtain ⟨hw, -, hy⟩ := h.mine.unsent a rfl
    exact ⟨by rwa [hofs], hrej, hy⟩
  · rintro c ⟨⟩
    rcases h.mine.sent a rfl with hlast | ⟨hnil, hans | hmem⟩
    · exact .inl (by rwa [hofs])
    · exact .inr ⟨by rwa [hofs], .inl hans⟩
    rcases List.mem_cons.mp hmem with hhead | hmem
    · cases hhead
    · exact absurd hmem hrej
  · rintro c d ⟨⟩ hmem
    exact absurd hmem hrej
  · intro c hc
    cases hc
  · rw [hofs]
    exact h.theirs.nodup
  · intro hidle
    have hnil := h.theirs.idle hidle
    cases hnil
  · intro c hc
    obtain ⟨hov, hrw, -⟩ := h.theirs.unsent c hc
    refine ⟨fun hmem => hov (List.mem_cons_of_mem e hmem), ?_, by rintro ⟨⟩⟩
    have hne : e ≠ c := by
      rintro rfl
      exact hov List.mem_cons_self
    simpa [hne.symm] using hrw
  · intro c hc
    rcases h.theirs.sent c hc with hlast | ⟨hnil, -⟩
    · rcases getLast?_of_cons hlast with hrest | ⟨hrest, rfl⟩
      · exact .inl hrest
      · exact .inr ⟨hrest, .inr (by simp)⟩
    · cases hnil
  · intro c d hc hmem
    rcases List.mem_append.mp hmem with hold | hnew
    · have hnil := (h.theirs.refused c d hc hold).1
      cases hnil
    -- the offer that is refused just now: it was the last of theirs
    cases List.mem_singleton.mp hnew
    refine ⟨?_, a, b, rfl, hrej⟩
    cases d with
    | false => exact absurd List.mem_cons_self (h.theirs.unsent e hc).1
    | true =>
      rcases h.theirs.sent e hc with hlast | ⟨hnil, -⟩
      · rcases getLast?_of_cons hlast with hrest | ⟨hrest, -⟩
        · exact absurd (List.mem_of_getLast? hrest) hnodup.1
        · exact hrest
      · cases hnil
  · intro c hc
    obtain ⟨hnot, -⟩ := h.theirs.answering c hc
    exact ⟨by rwa [hofs], a, b, rfl⟩

/-- An offer of a party that answers by now is passed over. -/
theorem ignore {b : Bool} {d : α} (h : BothAt (.offering a b) (.answering d) (.offer e :: v) w) :
    BothAt (.offering a b) (.answering d) v w := by
  have hnodup : e ∉ offers v ∧ (offers v).Nodup := List.nodup_cons.mp h.mine.nodup
  refine ⟨⟨hnodup.2, ?_, ?_, ?_, ?_, ?_⟩, ⟨h.theirs.nodup, ?_, ?_, ?_, ?_, ?_⟩⟩
  · intro hidle
    cases hidle
  · intro c hc
    obtain ⟨hw, hv, hy⟩ := h.mine.unsent c hc
    exact ⟨hw, fun hmem => hv (List.mem_cons_of_mem _ hmem), hy⟩
  · intro c hc
    refine (h.mine.sent c hc).imp_right fun hwas => ⟨hwas.1, hwas.2.imp_right fun hmem => ?_⟩
    rcases List.mem_cons.mp hmem with hhead | hmem
    · cases hhead
    · exact hmem
  · intro c b' hc hmem
    exact h.mine.refused c b' hc (List.mem_cons_of_mem _ hmem)
  · intro c hc
    cases hc
  · intro hidle
    cases hidle
  · intro c hc
    cases hc
  · intro c hc
    cases hc
  · intro c b' hc
    cases hc
  · exact h.theirs.answering

/-- A party hears that its offer is refused, and has none any more. -/
theorem rejected {b : Bool} (h : BothAt (.offering a b) y (.reject a :: v) w) :
    BothAt .idle y v w ∧ y ≠ .idle := by
  obtain ⟨hnil, c, d, rfl, hrw⟩ := h.mine.refused a b rfl List.mem_cons_self
  refine ⟨⟨⟨h.mine.nodup, fun _ => hnil, ?_, ?_, ?_, ?_⟩,
    ⟨h.theirs.nodup, ?_, ?_, ?_, ?_, ?_⟩⟩, by rintro ⟨⟩⟩
  · intro a' ha
    cases ha
  · intro a' ha
    cases ha
  · intro a' b' ha
    cases ha
  · intro a' ha
    cases ha
  · intro hidle
    cases hidle
  · intro a' ha
    obtain ⟨hv, hw, -⟩ := h.theirs.unsent a' ha
    exact ⟨hv, hw, by rintro ⟨⟩⟩
  · intro a' ha
    refine (h.theirs.sent a' ha).imp_right ?_
    rintro ⟨hv, hans | hrej⟩
    · cases hans
    · exact ⟨hv, .inr hrej⟩
  · rintro a' b' ⟨⟩ hrej
    exact absurd hrej hrw
  · intro a' ha
    cases ha

/-- A refusal of an offer that is not up any more. -/
theorem stale (h : BothAt x y (.reject e :: v) w) (hx : ∀ b, x ≠ .offering e b) : BothAt x y v w := by
  refine ⟨⟨h.mine.nodup, h.mine.idle, ?_, ?_, ?_, h.mine.answering⟩,
    ⟨h.theirs.nodup, h.theirs.idle, h.theirs.unsent, h.theirs.sent, ?_, h.theirs.answering⟩⟩
  · intro a ha
    obtain ⟨hw, hv, hy⟩ := h.mine.unsent a ha
    exact ⟨hw, fun hmem => hv (List.mem_cons_of_mem _ hmem), hy⟩
  · intro a ha
    refine (h.mine.sent a ha).imp_right fun hwas => ⟨hwas.1, hwas.2.imp_right fun hmem => ?_⟩
    rcases List.mem_cons.mp hmem with hhead | hmem
    · cases hhead
      exact absurd ha (hx true)
    · exact hmem
  · intro a b ha hmem
    exact h.mine.refused a b ha (List.mem_cons_of_mem _ hmem)
  · intro a b ha hmem
    obtain ⟨hnil, c, d, hc, hnot⟩ := h.theirs.refused a b ha hmem
    exact ⟨hnil, c, d, hc, fun hin => hnot (List.mem_cons_of_mem _ hin)⟩

end BothAt

/-- The two agree: one offers what the other answers. -/
def Agreed (x y : Slot α) : Prop :=
  ∃ a, x = .offering a true ∧ y = .answering a ∨ x = .answering a ∧ y = .offering a true

theorem Agreed.symm {x y : Slot α} (h : Agreed x y) : Agreed y x := by
  obtain ⟨a, ha | ha⟩ := h
  · exact ⟨a, .inr ⟨ha.2, ha.1⟩⟩
  · exact ⟨a, .inl ⟨ha.2, ha.1⟩⟩

namespace BothAt

variable {x y : Slot α}

/-- An offer that is out and not on its way is answered, once no refusal is on its way either. -/
theorem answered (h : BothAt x y [] []) {a : α} (ha : x = .offering a true) : y = .answering a := by
  rcases h.mine.sent a ha with hlast | ⟨-, hans | hrej⟩
  · cases hlast
  · exact hans
  · cases hrej

/-- A party that is about something agrees with the other. -/
theorem agreed_of_ne_idle (h : BothAt x y [] []) (hx : ∀ a, x ≠ .offering a false)
    (hy : ∀ a, y ≠ .offering a false) (hne : x ≠ .idle) : Agreed x y := by
  cases hslot : x with
  | idle => exact absurd hslot hne
  | offering a b =>
    cases b with
    | false => exact absurd hslot (hx a)
    | true => exact ⟨a, .inl ⟨rfl, h.answered hslot⟩⟩
  | answering a =>
    obtain ⟨-, c, d, hc⟩ := h.mine.answering a hslot
    cases d with
    | false => exact absurd hc (hy c)
    | true =>
      have hans := h.swap.answered hc
      rw [hslot] at hans
      exact ⟨c, .inr ⟨hans, hc⟩⟩

/-- **Agreement.** Nothing is on its way, no offer is held back and somebody is about something:
then the two are about the same. -/
theorem agreed (h : BothAt x y [] []) (hx : ∀ a, x ≠ .offering a false)
    (hy : ∀ a, y ≠ .offering a false) (hbusy : x ≠ .idle ∨ y ≠ .idle) : Agreed x y := by
  rcases hbusy with hne | hne
  · exact h.agreed_of_ne_idle hx hy hne
  · exact (h.swap.agreed_of_ne_idle hy hx hne).symm

end BothAt

end Crossing

end Axona.Library
