import Axona.Pubsub.WriteFlight
import Axona.Moves.Step

/-! # The flights of a node

What an acknowledgement does to the flights of a node, and what convicts a root. An
acknowledgement binds at the epoch its flight was opened under, which is that of the beacon record:
the highest epoch heard for the seat, whoever said it. And a flight whose probe is answered keeps
the deadline of the probe for the writes it has left. -/

namespace Axona

open Library OrderedMap

variable {cfg : Config}

/-! ### One flight -/

namespace Flight

/-- Does an acknowledgement bind? -/
def acked (f : Flight) (ck : CorrKey) (sender : Option NodeId) (epoch : Int) : Bool :=
  f.entries.has ck && decide (sender = some f.root) && (f.epoch = 0 || epoch = f.epoch)

/-- Does a proof bind? -/
def proved (f : Flight) (p : Ledger.AckProof) : Bool :=
  (f.entries.get p.key).any fun e =>
    e.attemptId = p.attemptId && f.ackTo = p.ackTo && f.flightNonce = p.flightNonce
      && (f.epoch = 0 || p.epoch = f.epoch) && p.authority f.root

/-- What is left of a flight when a write of it is settled. -/
def without (f : Flight) (ck : CorrKey) : Option Flight :=
  if (f.settle ck).entries.size = 0 then none else some (f.settle ck)

/-- A flight after a nack for its topic. -/
def retried (f : Flight) (t : TopicId) (now : Int) : Flight :=
  if f.topic ≠ t || f.stage ≠ .probing then f
  else { f with
    stage := .retrying
    deadline := now + ingestAckMs
    asked := f.entries.keys.map fun ck => (ck, now) }

/-- A flight that asks for the receipt of a write. -/
def probed (f : Flight) (ck : CorrKey) (now : Int) : Flight :=
  { f with
    stage := .probing
    rounds := f.rounds + 1
    deadline := now + flightProbeMs
    asked := (ck, now) :: f.asked }

/-- The next overdue sweep convicts the root. -/
def Convicts (f : Flight) : Prop :=
  f.stage = .probing ∨ f.stage = .retrying ∧ flightMaxRounds ≤ f.rounds

instance (f : Flight) : Decidable f.Convicts := inferInstanceAs (Decidable (_ ∨ _))

/-- Once `ck` is settled the root has still been asked for another write, or no write is left. -/
def Remains (f : Flight) (ck : CorrKey) : Prop :=
  (∃ a ∈ f.asked, a.1 ≠ ck) ∨ f.entries.size = 1

instance (f : Flight) (ck : CorrKey) : Decidable (f.Remains ck) :=
  inferInstanceAs (Decidable (_ ∨ _))

/-- A write the root was asked for went unanswered for the whole window of a probe, up to `now`. -/
def Silent (f : Flight) (now : Int) : Prop :=
  ∃ a ∈ f.asked, f.entries.has a.1 = true ∧ a.2 + flightProbeMs ≤ now

/-- Writes join a flight, and nothing else happens to it. -/
structure Grows (f f' : Flight) : Prop where
  key : f'.key = f.key
  stage : f'.stage = f.stage
  rounds : f'.rounds = f.rounds
  deadline : f'.deadline = f.deadline
  asked : f'.asked = f.asked
  ackTo : f'.ackTo = f.ackTo
  nonce : f'.flightNonce = f.flightNonce
  attempt : ∀ ck e, f.entries.get ck = some e →
    ∃ e', f'.entries.get ck = some e' ∧ e'.attemptId = e.attemptId

theorem Grows.refl (f : Flight) : f.Grows f :=
  ⟨rfl, rfl, rfl, rfl, rfl, rfl, rfl, fun _ e h => ⟨e, h, rfl⟩⟩

variable {f : Flight}

theorem Grows.trans {f' f'' : Flight} (h : f.Grows f') (h' : f'.Grows f'') : f.Grows f'' where
  key := h'.key.trans h.key
  stage := h'.stage.trans h.stage
  rounds := h'.rounds.trans h.rounds
  deadline := h'.deadline.trans h.deadline
  asked := h'.asked.trans h.asked
  ackTo := h'.ackTo.trans h.ackTo
  nonce := h'.nonce.trans h.nonce
  attempt ck e he := by
    obtain ⟨e', he', hsame⟩ := h.attempt ck e he
    obtain ⟨e'', he'', hsame'⟩ := h'.attempt ck e' he'
    exact ⟨e'', he'', hsame'.trans hsame⟩

theorem Grows.entries {f' : Flight} (h : f.Grows f') (ck : CorrKey)
    (hck : f.entries.has ck = true) : f'.entries.has ck = true := by
  obtain ⟨e, he⟩ := has_iff.mp hck
  obtain ⟨e', he', -⟩ := h.attempt ck e he
  exact has_iff.mpr ⟨e', he'⟩

/-- A flight whose root was asked for nothing yet. -/
structure Fresh (k : FlightKey) (f : Flight) : Prop where
  key : f.key = k
  stage : f.stage = .awaitAck
  rounds : f.rounds = 0
  asked : f.asked = []

variable {k : FlightKey}

theorem Fresh.grows {f' : Flight} (h : Fresh k f) (hg : f.Grows f') : Fresh k f' :=
  ⟨hg.key.trans h.key, hg.stage.trans h.stage, hg.rounds.trans h.rounds, hg.asked.trans h.asked⟩

/-- What holds of every flight: it is under its own key, its first round begins with a probe, and
what its root was asked for is in flight and was asked a probe's window before the deadline. -/
structure OnTime (k : FlightKey) (f : Flight) : Prop where
  key : f.key = k
  first : f.stage = .awaitAck → f.rounds = 0
  asked : ∀ a ∈ f.asked, f.entries.has a.1 = true ∧ a.2 + flightProbeMs ≤ f.deadline

theorem Fresh.onTime (h : Fresh k f) : OnTime k f := by
  refine ⟨h.key, fun _ => h.rounds, ?_⟩
  intro a ha
  rw [h.asked] at ha
  cases ha

theorem OnTime.grows {f' : Flight} (h : OnTime k f) (hg : f.Grows f') : OnTime k f' where
  key := hg.key.trans h.key
  first hs := by
    rw [hg.rounds]
    exact h.first (hg.stage ▸ hs)
  asked a ha := by
    rw [hg.asked] at ha
    obtain ⟨hin, hat⟩ := h.asked a ha
    rw [hg.deadline]
    exact ⟨hg.entries a.1 hin, hat⟩

theorem has_settle (f : Flight) (ck ck' : CorrKey) :
    (f.settle ck).entries.has ck' = (f.entries.has ck' && decide (ck' ≠ ck)) := by
  unfold settle OrderedMap.has
  rw [get_delete]
  by_cases h : ck' = ck
  · simp [h]
  · simp [h]

theorem OnTime.settle (h : OnTime k f) (ck : CorrKey) : OnTime k (f.settle ck) where
  key := h.key
  first := h.first
  asked a ha := by
    obtain ⟨ha, hne⟩ := List.mem_filter.mp ha
    obtain ⟨hin, hat⟩ := h.asked a ha
    refine ⟨?_, hat⟩
    rw [has_settle, hin]
    simpa using hne

variable {ck : CorrKey}

theorem has_of_acked {sender : Option NodeId} {epoch : Int} (h : f.acked ck sender epoch = true) :
    f.entries.has ck = true :=
  (Bool.and_eq_true_iff.mp (Bool.and_eq_true_iff.mp h).1).1

theorem has_of_proved {p : Ledger.AckProof} (h : f.proved p = true) :
    f.entries.has p.key = true := by
  obtain ⟨e, he, -⟩ := (Option.any_eq_true _ _).mp h
  exact has_iff.mpr ⟨e, he⟩

/-- A flight that loses one write of two or more remains, and its root is still asked for one. -/
theorem asked_of_remains (h : f.Remains ck) (hin : f.entries.has ck = true)
    (hsize : (f.settle ck).entries.size ≠ 0) : (f.settle ck).asked ≠ [] := by
  rcases h with ⟨a, ha, hne⟩ | hone
  · exact List.ne_nil_of_mem (List.mem_filter.mpr ⟨ha, by simpa using hne⟩)
  -- the one write was the last
  obtain ⟨e, he⟩ := has_iff.mp hin
  have hmem := mem_of_get he
  obtain ⟨x, hx⟩ := List.length_eq_one_iff.mp hone
  rw [hx, List.mem_singleton] at hmem
  refine absurd ?_ hsize
  show (f.entries.entries.filter fun e => e.1 ≠ ck).length = 0
  rw [hx, ← hmem]
  simp

theorem OnTime.retried (h : OnTime k f) (t : TopicId) (now : Int) : OnTime k (f.retried t now) := by
  unfold Flight.retried
  split
  · exact h
  refine ⟨h.key, nofun, ?_⟩
  intro a ha
  obtain ⟨ck, hck, rfl⟩ := List.mem_map.mp ha
  refine ⟨?_, ?_⟩
  · -- the writes asked for are those in flight
    by_contra hnot
    have hnone : f.entries.get ck = none := by
      cases hget : f.entries.get ck with
      | none => rfl
      | some e => exact absurd (by simp [OrderedMap.has, hget]) hnot
    exact find_eq_none_iff.mp hnone hck
  · show now + flightProbeMs ≤ now + ingestAckMs
    unfold flightProbeMs ingestAckMs
    omega

theorem OnTime.probed (h : OnTime k f) {now : Int} (hin : f.entries.has ck = true)
    (hdue : f.deadline ≤ now) : OnTime k (f.probed ck now) where
  key := h.key
  first := nofun
  asked a ha := by
    rcases List.mem_cons.mp ha with rfl | ha
    · exact ⟨hin, le_rfl⟩
    -- what was asked for before was due already
    obtain ⟨hin, hat⟩ := h.asked a ha
    refine ⟨hin, ?_⟩
    show a.2 + flightProbeMs ≤ now + flightProbeMs
    unfold flightProbeMs at hat ⊢
    omega

end Flight

/-- The clock stands still within a step. -/
theorem Moves.now {P : Input → Prop} {n n' : Node} (h : Moves cfg P n n') : n'.now = n.now :=
  moves_climb (P := fun n n' : Node => n'.now = n.now) (fun _ => rfl) (fun h h' => h'.trans h)
    (fun _ _ h => h.now) h

/-! ### Writes that join -/

/-- Nothing but writes that join flights, old ones and new ones. -/
structure Ledger.Grows (l l' : Ledger) : Prop where
  now : l'.now = l.now
  journal : l'.journal = l.journal
  kept : ∀ k f, l.flights.get k = some f → ∃ f', l'.flights.get k = some f' ∧ f.Grows f'
  born : ∀ k f', l'.flights.get k = some f' →
    (∃ f, l.flights.get k = some f ∧ f.Grows f') ∨ Flight.Fresh k f'

namespace Ledger

variable {l l' l'' : Ledger}

theorem Grows.of_flights (hnow : l'.now = l.now) (hj : l'.journal = l.journal)
    (hf : l'.flights = l.flights) : l.Grows l' where
  now := hnow
  journal := hj
  kept k f h := ⟨f, by rw [hf]; exact h, .refl f⟩
  born k f h := .inl ⟨f, by rw [← hf]; exact h, .refl f⟩

theorem Grows.refl (l : Ledger) : l.Grows l := .of_flights rfl rfl rfl

theorem Grows.trans (h : l.Grows l') (h' : l'.Grows l'') : l.Grows l'' where
  now := h'.now.trans h.now
  journal := h'.journal.trans h.journal
  kept k f hf := by
    obtain ⟨f', hf', hg⟩ := h.kept k f hf
    obtain ⟨f'', hf'', hg'⟩ := h'.kept k f' hf'
    exact ⟨f'', hf'', hg.trans hg'⟩
  born k f'' hf'' := by
    rcases h'.born k f'' hf'' with ⟨f', hf', hg'⟩ | hfresh
    · rcases h.born k f' hf' with ⟨f, hf, hg⟩ | hfresh
      · exact .inl ⟨f, hf, hg.trans hg'⟩
      · exact .inr (hfresh.grows hg')
    · exact .inr hfresh

variable {k : FlightKey} {f : Flight}

/-- One flight grows, or is opened. -/
theorem Grows.set (hnow : l'.now = l.now) (hj : l'.journal = l.journal)
    (hf : l'.flights = l.flights.set k f) (hold : (∃ f₀, l.flights.get k = some f₀ ∧ f₀.Grows f) ∨
      l.flights.get k = none ∧ Flight.Fresh k f) : l.Grows l' where
  now := hnow
  journal := hj
  kept k' f' h' := by
    rw [hf, get_set]
    by_cases hk : k' = k
    · subst hk
      rw [if_pos rfl]
      rcases hold with ⟨f₀, h₀, hg⟩ | ⟨hnone, -⟩
      · cases h'.symm.trans h₀
        exact ⟨f, rfl, hg⟩
      · rw [hnone] at h'
        cases h'
    · rw [if_neg hk]
      exact ⟨f', h', .refl f'⟩
  born k' f' h' := by
    rw [hf, get_set] at h'
    by_cases hk : k' = k
    · subst hk
      rw [if_pos rfl] at h'
      cases h'
      rcases hold with ⟨f₀, h₀, hg⟩ | ⟨-, hfresh⟩
      · exact .inl ⟨f₀, h₀, hg⟩
      · exact .inr hfresh
    · rw [if_neg hk] at h'
      exact .inl ⟨f', h', .refl f'⟩

theorem chainGet_grows (l : Ledger) (ck : CorrKey) : l.Grows (l.chainGet ck).2 := by
  unfold chainGet
  split
  · exact .refl l
  split
  · exact .of_flights rfl rfl rfl
  · exact .refl l

theorem flights_chainGet (l : Ledger) (ck : CorrKey) : (l.chainGet ck).2.flights = l.flights := by
  unfold chainGet
  split
  · rfl
  · split <;> rfl

theorem chainNote_grows (l : Ledger) (ck : CorrKey) (promotions : Nat) (tried : List NodeId) :
    l.Grows (l.chainNote ck promotions tried) :=
  .of_flights rfl rfl rfl

theorem sendWrite_grows (l : Ledger) (w : Write) (dest : NodeId) (r : Flight × FlightEntry) :
    l.Grows (l.sendWrite w dest r) :=
  .of_flights rfl rfl rfl

/-- **Opening.** A write with an id joins the flight under the key it is opened by. -/
theorem flightOpen_spec (cfg : Config) (l : Ledger) (t : TopicId) (root : NodeId) (w : Write)
    (attempt : Option Nat) (expected : Option Int) (chain : Option Chain) {id : MsgId}
    (hid : w.msgId.filter (fun id => !id.isEmpty) = some id) :
    ∃ r l', l.flightOpen cfg t root w attempt expected chain = (some r, l') ∧ l.Grows l' ∧
      l'.node = l.node ∧ l'.flights.get (openKey l.node t root expected) = some r.1 ∧
      r.1.entries.get ⟨t, id, w.isKill⟩ = some r.2 := by
  unfold flightOpen
  rw [hid]
  simp only []
  set k := openKey l.node t root expected with hk
  set ck : CorrKey := ⟨t, id, w.isKill⟩ with hck
  -- the history an entry takes over does not matter here
  generalize hknown : (l.chainGet ck) = g
  obtain ⟨known, l₁⟩ := g
  have h₁ : l.Grows l₁ := by
    have := l.chainGet_grows ck
    rwa [hknown] at this
  have hflights : l₁.flights = l.flights := by
    have := l.flights_chainGet ck
    rwa [hknown] at this
  have hnode : l₁.node = l.node := by
    have : (l.chainGet ck).2.node = l.node := by
      unfold chainGet
      split
      · rfl
      · split <;> rfl
    rwa [hknown] at this
  have hinherit (e : FlightEntry) (c : Option Chain) :
      (c.elim e fun c => inherit e c.promotions c.tried).attemptId = e.attemptId := by
    cases c <;> rfl
  have hattempt := (hinherit (chain.elim (((l.flightAt cfg k).entries.get ck).getD
    ⟨w, id, attempt.getD (l.nextNonce + 1), 0, []⟩) fun c => inherit _ c.promotions c.tried)
    known).trans (hinherit _ chain)
  generalize (known.elim _ fun c => inherit _ c.promotions c.tried) = e at hattempt ⊢
  refine ⟨_, _, rfl, h₁.trans (Grows.set rfl rfl rfl ?_), hnode, ?_, ?_⟩
  · rw [hflights]
    unfold flightAt at hattempt ⊢
    cases hf : l.flights.get k with
    | none => exact .inr ⟨rfl, rfl, rfl, rfl, rfl⟩
    | some f =>
      refine .inl ⟨f, rfl, rfl, rfl, rfl, rfl, rfl, rfl, rfl, ?_⟩
      intro ck' e' he'
      show ∃ e'', (f.entries.set ck e).get ck' = some e'' ∧ _
      rw [get_set]
      by_cases hck' : ck' = ck
      · rw [if_pos hck']
        rw [hf, Option.getD_some, ← hck', he'] at hattempt
        exact ⟨e, rfl, hattempt⟩
      · rw [if_neg hck']
        exact ⟨e', he', rfl⟩
  · show (l₁.flights.set k _).get k = _
    rw [get_set, if_pos rfl]
  · show ((l.flightAt cfg k).entries.set ck e).get ck = some e
    rw [get_set, if_pos rfl]

theorem flightOpen_grows (cfg : Config) (l : Ledger) (t : TopicId) (root : NodeId) (w : Write)
    (attempt : Option Nat) (expected : Option Int) (chain : Option Chain) :
    l.Grows (l.flightOpen cfg t root w attempt expected chain).2 := by
  cases hid : w.msgId.filter fun id => !id.isEmpty with
  | none =>
    unfold flightOpen
    rw [hid]
    exact .refl l
  | some id =>
    obtain ⟨r, l', h, hg, -⟩ := flightOpen_spec cfg l t root w attempt expected chain hid
    rw [h]
    exact hg

theorem forwardToRoot_grows (l : Ledger) (t : TopicId) (root : NodeId) (w : Write)
    (attempt : Option Nat) : l.Grows (l.forwardToRoot cfg t root w attempt) := by
  unfold forwardToRoot
  have hopen := flightOpen_grows cfg l t root w attempt none none
  split
  · next h =>
    rw [h] at hopen
    exact hopen
  next h =>
  rw [h] at hopen
  exact hopen.trans (sendWrite_grows ..)

theorem forwardToWinner_grows (l : Ledger) (t : TopicId) (winner : NodeId) (w : Write)
    (attempt : Option Nat) (corr : Corr) (epoch : Int) :
    l.Grows (l.forwardToWinner cfg t winner w attempt corr epoch) := by
  unfold forwardToWinner
  have hopen := flightOpen_grows cfg l t winner w attempt (some epoch) none
  split
  · next h =>
    rw [h] at hopen
    exact hopen
  next l₁ h =>
  rw [h] at hopen
  refine hopen.trans ?_
  simp only []
  split
  · exact sendWrite_grows ..
  next f hf =>
  refine .set rfl rfl rfl (.inl ⟨f, hf, ?_⟩)
  exact ⟨rfl, rfl, rfl, rfl, rfl, rfl, rfl, fun _ e h => ⟨e, h, rfl⟩⟩

theorem promote_grows (l : Ledger) (f : Flight) (best : NodeId) (ck : CorrKey) (e : FlightEntry) :
    l.Grows (l.promote cfg f best ck e) := by
  unfold promote
  refine (chainNote_grows l ck (e.promotions + 1) (e.tried ++ [f.root])).trans ?_
  simp only []
  split
  · exact .of_flights rfl rfl rfl
  have hopen := flightOpen_grows cfg (l.chainNote ck (e.promotions + 1) (e.tried ++ [f.root]))
    f.topic best e.write (some e.attemptId) none (some ⟨e.promotions + 1, e.tried ++ [f.root], 0⟩)
  split
  · next h =>
    rw [h] at hopen
    exact hopen
  next h =>
  rw [h] at hopen
  exact hopen.trans (sendWrite_grows ..)

/-- A fold grows as soon as each of its rounds does. -/
theorem foldl_grows {α : Type*} {g : Ledger → α → Ledger} (hg : ∀ (l : Ledger) x, l.Grows (g l x))
    (xs : List α) (l : Ledger) : l.Grows (xs.foldl g l) := by
  induction xs generalizing l with
  | nil => exact .refl l
  | cons x xs ih => exact (hg l x).trans (ih (g l x))

/-- **Eviction.** The flight goes, the conviction is noted, and the rest is writes that join other
flights. -/
theorem flightEvict_spec (cfg : Config) (l : Ledger) (k : FlightKey) (f : Flight) :
    ∃ l₁ : Ledger, l₁.now = l.now ∧ l₁.flights = l.flights.delete k ∧
      l₁.journal = .evicted f l.now :: l.journal ∧ l₁.Grows (l.flightEvict cfg k f) := by
  refine ⟨{ l with
    flights := l.flights.delete k
    node := l.node.flightEvict f.topic f.root f.epoch }.note (.evicted f l.now), ?_, rfl, rfl, ?_⟩
  · show (l.node.flightEvict f.topic f.root f.epoch).now = l.node.now
    have hmoves : Moves cfg (fun _ => True) l.node
        (l.node.flightEvict f.topic f.root f.epoch) := Moves.flightEvict trivial trivial
    exact Moves.now hmoves
  · unfold flightEvict
    have hover (xs : List (FlightEntry × GivenUp)) (l : Ledger) : l.Grows (xs.foldl
        (fun l e => l.send (.undeliverable f.topic e.1.write e.2)) l) :=
      foldl_grows (fun _ _ => by exact .of_flights rfl rfl rfl) xs l
    have hrest (best : NodeId) (xs : List (CorrKey × FlightEntry)) (l : Ledger) :
        l.Grows (xs.foldl (fun l e => l.promote cfg f best e.1 e.2) l) :=
      foldl_grows (fun l e => promote_grows l f best e.1 e.2) xs l
    exact (hover _ _).trans (hrest _ _ _)

/-! ### Answers -/

theorem winnerSilent_now (cfg : Config) (n : Node) (t : TopicId) (corr : Corr) :
    (n.winnerSilent t corr).now = n.now := by
  have hmoves : Moves cfg (fun _ => True) n (n.winnerSilent t corr) :=
    Moves.winnerVerdict t corr .failed fun _ _ => ⟨trivial, trivial, fun _ => trivial⟩
  exact Moves.now hmoves

variable {ck : CorrKey}

theorem get_putFlight (l : Ledger) (k k' : FlightKey) :
    (l.putFlight k' (f.settle ck)).flights.get k =
      if k = k' then f.without ck else l.flights.get k := by
  unfold putFlight Flight.without
  show (if (f.settle ck).entries.size = 0 then l.flights.delete k'
    else l.flights.set k' (f.settle ck)).get k = _
  by_cases hsize : (f.settle ck).entries.size = 0
  · rw [if_pos hsize, if_pos hsize, get_delete]
  · rw [if_neg hsize, if_neg hsize, get_set]

variable {binds : Flight → Bool}

variable {k' : FlightKey}

/-- What an answer does to the flights when it settles a write of the flight it binds to. -/
theorem get_settled
    (hmiss : (∀ f, l.flights.get k' = some f → binds f = false) → l'.flights = l.flights)
    (hhit : ∀ f, l.flights.get k' = some f → binds f = true →
      l'.flights = (l.putFlight k' (f.settle ck)).flights) (k : FlightKey) :
    l'.flights.get k = if k = k' then (l.flights.get k).bind fun f =>
      if binds f then f.without ck else some f else l.flights.get k := by
  cases hget : l.flights.get k' with
  | none =>
    rw [hmiss (fun f hf => by rw [hget] at hf; cases hf)]
    by_cases hk : k = k'
    · rw [if_pos hk, hk, hget]
      rfl
    · rw [if_neg hk]
  | some f =>
    cases hb : binds f with
    | false =>
      rw [hmiss (fun f' hf' => by rw [hget] at hf'; cases hf'; exact hb)]
      by_cases hk : k = k'
      · rw [if_pos hk, hk, hget]
        simp [hb]
      · rw [if_neg hk]
    | true =>
      rw [hhit f hget hb, get_putFlight]
      by_cases hk : k = k'
      · rw [if_pos hk, if_pos hk, hk, hget]
        simp [hb]
      · rw [if_neg hk, if_neg hk]

/-- What an acknowledgement does to a flight. -/
theorem get_completeAt (l : Ledger) (ck : CorrKey) (sender : Option NodeId) (epoch : Int)
    (k k' : FlightKey) : (l.completeAt cfg ck sender epoch k').flights.get k =
      if k = k' then (l.flights.get k).bind fun f =>
        if f.acked ck sender epoch then f.without ck else some f else l.flights.get k := by
  refine get_settled ?_ ?_ k
  · intro hno
    unfold completeAt
    split
    · rfl
    next f hf =>
    have hacked := hno f hf
    split
    · rfl
    split
    · split <;> rfl
    next h h' =>
    -- nothing is wrong with it, so it binds
    unfold Flight.acked at hacked
    simp_all
  · intro f hf hacked
    obtain ⟨h, hepoch⟩ := Bool.and_eq_true_iff.mp hacked
    obtain ⟨hhas, hsender⟩ := Bool.and_eq_true_iff.mp h
    unfold completeAt
    rw [hf]
    simp only []
    rw [if_neg (by simp [hhas, of_decide_eq_true hsender]),
      if_neg (by simpa [or_iff_not_imp_left] using hepoch)]

theorem get_flightComplete (l : Ledger) (ck : CorrKey) (sender : Option NodeId) (epoch : Int)
    (k : FlightKey) :
    (l.flightComplete cfg ck sender epoch).flights.get k = (l.flights.get k).bind fun f =>
      if f.acked ck sender epoch then f.without ck else some f :=
  get_foldl_keys (I := fun _ => True) Ledger.flights (fun _ _ _ => trivial)
    (fun l k k' _ => get_completeAt l ck sender epoch k k') trivial k

/-- What a proof does to a flight. -/
theorem get_completeSignedAt (l : Ledger) (p : AckProof) (k k' : FlightKey) :
    (l.completeSignedAt p k').flights.get k = if k = k' then (l.flights.get k).bind fun f =>
        if f.proved p then f.without p.key else some f else l.flights.get k := by
  refine get_settled ?_ ?_ k
  · intro hno
    unfold completeSignedAt
    split
    · rfl
    next f hf =>
    have hproved := hno f hf
    split
    · rfl
    next e he =>
    unfold Flight.proved at hproved
    rw [he] at hproved
    split
    · rfl
    split
    · rfl
    split
    · rfl
    · simp_all
  · intro f hf hproved
    unfold Flight.proved at hproved
    obtain ⟨e, he, hbinds⟩ := Option.any_eq_true _ _ |>.mp hproved
    unfold completeSignedAt
    rw [hf]
    simp only [he]
    simp at hbinds
    obtain ⟨⟨⟨⟨ha, ht⟩, hn⟩, hepoch⟩, hauth⟩ := hbinds
    rw [if_neg (by simp [ha, ht, hn]), if_neg (by simpa [or_iff_not_imp_left] using hepoch),
      if_neg (by simp [hauth])]

theorem get_flightCompleteSigned (l : Ledger) (p : AckProof) (k : FlightKey) :
    (l.flightCompleteSigned p).flights.get k = (l.flights.get k).bind fun f =>
      if f.proved p then f.without p.key else some f :=
  get_foldl_keys (I := fun _ => True) Ledger.flights (fun _ _ _ => trivial)
    (fun l k k' _ => get_completeSignedAt l p k k') trivial k

/-- Writes that are sent again leave the flights as they are. -/
theorem foldl_sendWrite (root : NodeId) (f : Flight) (es : List (CorrKey × FlightEntry))
    (l : Ledger) : let l' := es.foldl (fun l e => l.sendWrite e.2.write root (f, e.2)) l
      l'.now = l.now ∧ l'.journal = l.journal ∧ l'.flights = l.flights := by
  induction es generalizing l with
  | nil => exact ⟨rfl, rfl, rfl⟩
  | cons e es ih => exact ih (l.sendWrite e.2.write root (f, e.2))

/-- What a nack does to a flight. -/
theorem get_retryAt (l : Ledger) (t : TopicId) (k k' : FlightKey) : (l.retryAt t k').flights.get k =
      if k = k' then (l.flights.get k).bind fun f => some (f.retried t l.now)
      else l.flights.get k := by
  unfold retryAt
  split
  · next hnone =>
    by_cases hk : k = k'
    · rw [if_pos hk, hk, hnone]
      rfl
    · rw [if_neg hk]
  next f hf =>
  split
  · next hno =>
    by_cases hk : k = k'
    · rw [if_pos hk, hk, hf]
      show _ = some (f.retried t l.now)
      unfold Flight.retried
      rw [if_pos hno]
    · rw [if_neg hk]
  · next hno =>
    rw [(foldl_sendWrite _ _ _ _).2.2]
    show (l.flights.set k' _).get k = _
    rw [get_set]
    by_cases hk : k = k'
    · rw [if_pos hk, if_pos hk, hk, hf]
      show _ = some (f.retried t l.now)
      unfold Flight.retried
      rw [if_neg hno]
    · rw [if_neg hk, if_neg hk]

theorem retryAt_now (l : Ledger) (t : TopicId) (k : FlightKey) : (l.retryAt t k).now = l.now := by
  unfold retryAt
  split
  · rfl
  split
  · rfl
  · exact (foldl_sendWrite _ _ _ _).1

theorem get_onReceiptNack (l : Ledger) (t : TopicId) (k : FlightKey) :
    (l.onReceiptNack t).flights.get k = (l.flights.get k).bind fun f => some (f.retried t l.now) :=
  get_foldl_keys (I := fun m : Ledger => m.now = l.now) Ledger.flights
    (fun m k hm => (m.retryAt_now t k).trans hm)
    (fun m k k' hm => by rw [get_retryAt m t k k', hm]) rfl k

/-! ### The sweep -/

/-- What the sweep does about the flight under `k`. -/
inductive Swept (l l' : Ledger) (k : FlightKey) : Prop
  | idle (hidle : ∀ f, l.flights.get k = some f → l.now < f.deadline) (h : l' = l)
  | empty (f : Flight) (hf : l.flights.get k = some f) (hdue : f.deadline ≤ l.now)
      (hnow : l'.now = l.now) (hj : l'.journal = l.journal) (h : l'.flights = l.flights.delete k)
  | probed (f : Flight) (ck : CorrKey) (hf : l.flights.get k = some f) (hdue : f.deadline ≤ l.now)
      (hin : f.entries.has ck = true) (hnow : l'.now = l.now) (hj : l'.journal = l.journal)
      (h : l'.flights = l.flights.set k (f.probed ck l.now))
  | evicted (f : Flight) (l₁ : Ledger) (hf : l.flights.get k = some f)
      (hdue : f.deadline ≤ l.now) (hstage : f.stage = .probing ∨ flightMaxRounds ≤ f.rounds)
      (hnow : l₁.now = l.now) (hj : l₁.journal = .evicted f l.now :: l.journal)
      (h : l₁.flights = l.flights.delete k) (hg : l₁.Grows l')

theorem Swept.of_flightEvict {l₀ : Ledger} (hnow : l₀.now = l.now) (hj : l₀.journal = l.journal)
    (h₀ : l₀.flights = l.flights) (hf : l.flights.get k = some f) (hdue : f.deadline ≤ l.now)
    (hstage : f.stage = .probing ∨ flightMaxRounds ≤ f.rounds) :
    Swept l (l₀.flightEvict cfg k f) k := by
  obtain ⟨l₁, hnow₁, h₁, hj₁, hg⟩ := flightEvict_spec cfg l₀ k f
  refine .evicted f l₁ hf hdue hstage (hnow₁.trans hnow) ?_ ?_ hg
  · rw [hj₁, hnow, hj]
  · rw [h₁, h₀]

theorem sweepAt_spec (cfg : Config) (l : Ledger) (k : FlightKey) : Swept l (l.sweepAt cfg k) k := by
  unfold sweepAt
  split
  next hnone => exact .idle (fun f hf => by rw [hnone] at hf; cases hf) rfl
  next f hf =>
  split
  · next hdue =>
    refine .idle ?_ rfl
    rintro f' hf'
    cases hf.symm.trans hf'
    exact hdue
  next hdue =>
  have hdue : f.deadline ≤ l.now := not_lt.mp hdue
  -- a round of the merge that ends here is no matter of the flights
  have hround : ∀ l₀ : Ledger, l₀.now = l.now → l₀.journal = l.journal → l₀.flights = l.flights →
      Swept l (if flightMaxRounds ≤ f.rounds then l₀.flightEvict cfg k f else l₀.probe k f) k := by
    intro l₀ hnow hj h₀
    split
    next hrounds => exact .of_flightEvict hnow hj h₀ hf hdue (.inr hrounds)
    unfold probe
    split
    · exact .empty f hf hdue hnow hj (by rw [h₀])
    next ck e hhead =>
    have hin : f.entries.get ck = some e :=
      get_of_mem (List.mem_of_head? hhead)
    refine .probed f ck hf hdue (has_iff.mpr ⟨e, hin⟩) hnow hj ?_
    show l₀.flights.set k _ = _
    rw [h₀, hnow]
    rfl
  have hsilent (corr : Corr) : Swept l (let l₀ := if f.stage = Stage.awaitAck ∧ f.rounds = 0 then
        { l with node := l.node.winnerSilent f.topic corr } else l
      if flightMaxRounds ≤ f.rounds then l₀.flightEvict cfg k f else l₀.probe k f) k := by
    by_cases h : f.stage = Stage.awaitAck ∧ f.rounds = 0
    · rw [if_pos h]
      exact hround { l with node := l.node.winnerSilent f.topic corr }
        (winnerSilent_now cfg l.node f.topic corr) rfl rfl
    · rw [if_neg h]
      exact hround l rfl rfl rfl
  split
  next hstage => exact .of_flightEvict rfl rfl rfl hf hdue (.inl hstage)
  all_goals
    cases f.merge with
    | none => exact hround l rfl rfl rfl
    | some corr => exact hsilent corr

/-! ### What the answers leave in the journal -/

theorem completeAt_journal (cfg : Config) (l : Ledger) (ck : CorrKey) (sender : Option NodeId)
    (epoch : Int)
    (k : FlightKey) : (l.completeAt cfg ck sender epoch k).journal = l.journal ∨
      ∃ f, l.flights.get k = some f ∧ f.entries.has ck = true ∧ f.acked ck sender epoch = false ∧
        (l.completeAt cfg ck sender epoch k).journal = .mismatched k ck :: l.journal := by
  unfold completeAt
  split
  · exact .inl rfl
  next f hf =>
  split
  · exact .inl rfl
  next hbound =>
  split
  · next hepoch =>
    refine .inr ⟨f, hf, ?_, ?_, ?_⟩
    · rw [Bool.not_eq_true, Bool.or_eq_false_iff, Bool.not_eq_false'] at hbound
      exact hbound.1
    · have hepochs : (f.epoch = 0 || epoch = f.epoch : Bool) = false := by simpa using hepoch
      unfold Flight.acked
      rw [hepochs, Bool.and_false]
    · split <;> rfl
  · exact .inl rfl

theorem completeSignedAt_journal (l : Ledger) (p : AckProof) (k : FlightKey) :
    (l.completeSignedAt p k).journal = l.journal ∨
      ∃ f, l.flights.get k = some f ∧ f.entries.has p.key = true ∧ f.proved p = false ∧
        (l.completeSignedAt p k).journal = .mismatched k p.key :: l.journal := by
  unfold completeSignedAt
  split
  · exact .inl rfl
  next f hf =>
  split
  · exact .inl rfl
  next e he =>
  split
  · exact .inl rfl
  split
  · next hepoch =>
    refine .inr ⟨f, hf, has_iff.mpr ⟨e, he⟩, ?_, rfl⟩
    have hepochs : (f.epoch = 0 || p.epoch = f.epoch : Bool) = false := by simpa using hepoch
    unfold Flight.proved
    rw [he, Option.any_some, hepochs, Bool.and_false, Bool.false_and]
  · split <;> exact .inl rfl

/-- An answer about a write left mismatches, each at a flight that it does not bind to. -/
def Mismatches (l l' : Ledger) (ck : CorrKey) (binds : Flight → Bool) : Prop :=
  ∃ es, l'.journal = es ++ l.journal ∧
    ∀ ev ∈ es, ∃ k f, ev = .mismatched k ck ∧ l.flights.get k = some f ∧ binds f = false

/-- The flights are asked one after the other. -/
theorem mismatches_foldl {g : Ledger → FlightKey → Ledger} {ck : CorrKey} {binds : Flight → Bool}
    (hget : ∀ (m : Ledger) k k', (g m k').flights.get k = if k = k' then
      (m.flights.get k).bind fun f => if binds f then f.without ck else some f
      else m.flights.get k)
    (hone : ∀ (m : Ledger) k, (g m k).journal = m.journal ∨ ∃ f, m.flights.get k = some f ∧
      f.entries.has ck = true ∧ binds f = false ∧ (g m k).journal = .mismatched k ck :: m.journal)
    (l : Ledger) : l.Mismatches (l.flights.keys.foldl g l) ck binds := by
  -- a flight that still has the write is as it was at first
  suffices h : ∀ (ks : List FlightKey) (m : Ledger),
      (∀ k f, m.flights.get k = some f → f.entries.has ck = true → l.flights.get k = some f) →
      ∃ es, (ks.foldl g m).journal = es ++ m.journal ∧ ∀ ev ∈ es, ∃ k f, ev = .mismatched k ck ∧
        l.flights.get k = some f ∧ binds f = false from h l.flights.keys l fun _ _ hf _ => hf
  intro ks
  induction ks with
  | nil => exact fun m _ => ⟨[], rfl, nofun⟩
  | cons k ks ih =>
    intro m hm
    obtain ⟨es, hj, hes⟩ := ih (g m k) (by
      intro k' f' hf' hhas
      rw [hget] at hf'
      split at hf'
      · cases hold : m.flights.get k' with
        | none => rw [hold] at hf'; cases hf'
        | some f =>
          rw [hold] at hf'
          change (if binds f then f.without ck else some f) = some f' at hf'
          split at hf'
          · unfold Flight.without at hf'
            split at hf'
            · cases hf'
            cases hf'
            rw [Flight.has_settle, decide_eq_false (not_not.mpr rfl), Bool.and_false] at hhas
            cases hhas
          · cases hf'
            exact hm k' f' hold hhas
      · exact hm k' f' hf' hhas)
    rw [List.foldl_cons]
    rcases hone m k with hsame | ⟨f, hf, hin, hno, hone⟩
    · exact ⟨es, by rw [hj, hsame], hes⟩
    refine ⟨es ++ [.mismatched k ck], by rw [hj, hone]; simp, ?_⟩
    intro ev hev
    rcases List.mem_append.mp hev with hev | hev
    · exact hes ev hev
    · exact ⟨k, f, List.mem_singleton.mp hev, hm k f hf hin, hno⟩

/-- An answer convicts nobody. -/
theorem Mismatches.evicted {l l' : Ledger} {ck : CorrKey} {binds : Flight → Bool}
    (h : l.Mismatches l' ck binds) (f : Flight) (at' : Int)
    (hev : .evicted f at' ∈ l'.journal) : .evicted f at' ∈ l.journal := by
  obtain ⟨es, hj, hes⟩ := h
  rw [hj] at hev
  rcases List.mem_append.mp hev with hnew | hold
  · obtain ⟨k, f', heq, -⟩ := hes _ hnew
    cases heq
  · exact hold

theorem mismatches_flightComplete (cfg : Config) (l : Ledger) (ck : CorrKey)
    (sender : Option NodeId) (epoch : Int) :
    l.Mismatches (l.flightComplete cfg ck sender epoch) ck (·.acked ck sender epoch) :=
  mismatches_foldl (fun m k k' => get_completeAt m ck sender epoch k k')
    (fun m k => completeAt_journal cfg m ck sender epoch k) l

theorem mismatches_flightCompleteSigned (l : Ledger) (p : AckProof) :
    l.Mismatches (l.flightCompleteSigned p) p.key (·.proved p) :=
  mismatches_foldl (fun m k k' => get_completeSignedAt m p k k')
    (fun m k => completeSignedAt_journal m p k) l

theorem onReceiptNack_journal (l : Ledger) (t : TopicId) :
    (l.onReceiptNack t).journal = l.journal := by
  have hone (m : Ledger) (k : FlightKey) : (m.retryAt t k).journal = m.journal := by
    unfold retryAt
    split
    · rfl
    split
    · rfl
    · exact (foldl_sendWrite _ _ _ _).2.1
  have hall : ∀ (ks : List FlightKey) (m : Ledger),
      (ks.foldl (fun l k => l.retryAt t k) m).journal = m.journal := by
    intro ks
    induction ks with
    | nil => exact fun _ => rfl
    | cons k ks ih => exact fun m => (ih _).trans (hone m k)
  exact hall _ l

/-! ### OnTime flights -/

/-- Every flight is sound. -/
def OnTime (l : Ledger) : Prop := ∀ k f, l.flights.get k = some f → Flight.OnTime k f

theorem OnTime.grows (h : l.OnTime) (hg : l.Grows l') : l'.OnTime := by
  intro k f' hf'
  rcases hg.born k f' hf' with ⟨f, hf, hfg⟩ | hfresh
  · exact (h k f hf).grows hfg
  · exact hfresh.onTime

theorem get_of_deleted (hf : l'.flights = l.flights.delete k) (h : l'.flights.get k' = some f) :
    l.flights.get k' = some f := by
  rw [hf] at h
  exact of_get_delete h

variable {f' : Flight}

theorem get_of_probed (hf : l'.flights = l.flights.set k (f.probed ck l.now))
    (h : l'.flights.get k' = some f') :
    k' = k ∧ f' = f.probed ck l.now ∨ l.flights.get k' = some f' := by
  rw [hf, get_set] at h
  split at h
  · next hk =>
    cases h
    exact .inl ⟨hk, rfl⟩
  · exact .inr h

/-- Where a flight comes from, when an answer came in. -/
theorem get_of_answered (hf : l'.flights.get k = (l.flights.get k).bind fun f =>
      if binds f then f.without ck else some f) (h : l'.flights.get k = some f') :
    ∃ f, l.flights.get k = some f ∧
      (f' = f ∨ binds f = true ∧ f' = f.settle ck ∧ f'.entries.size ≠ 0) := by
  rw [hf] at h
  obtain ⟨f, hget, h⟩ := Option.bind_eq_some_iff.mp h
  refine ⟨f, hget, ?_⟩
  split at h
  · next hb =>
    unfold Flight.without at h
    split at h
    · cases h
    next hsize =>
    cases h
    exact .inr ⟨hb, rfl, hsize⟩
  · cases h
    exact .inl rfl

theorem get_of_retried {t : TopicId} (h : (l.onReceiptNack t).flights.get k = some f') :
    ∃ f, l.flights.get k = some f ∧ f' = f.retried t l.now := by
  rw [get_onReceiptNack] at h
  obtain ⟨f, hget, h⟩ := Option.bind_eq_some_iff.mp h
  cases h
  exact ⟨f, hget, rfl⟩

theorem OnTime.swept (h : l.OnTime) (hs : l.Swept l' k) : l'.OnTime := by
  cases hs with
  | idle hidle heq => rwa [heq]
  | empty f₀ h₀ hdue hnow hj hf => exact fun k' f' h' => h k' f' (get_of_deleted hf h')
  | probed f ck hf hdue hin hnow hj hflights =>
    intro k' f' h'
    rcases get_of_probed hflights h' with ⟨rfl, rfl⟩ | hold
    · exact (h k' f hf).probed hin hdue
    · exact h k' f' hold
  | evicted f l₁ hf hdue hstage hnow hj hflights hg =>
    exact OnTime.grows (fun k' f' h' => h k' f' (get_of_deleted hflights h')) hg

theorem OnTime.answered (h : l.OnTime) (hf : ∀ k, l'.flights.get k = (l.flights.get k).bind fun f =>
      if binds f then f.without ck else some f) : l'.OnTime := by
  intro k f' hf'
  obtain ⟨f, hget, rfl | ⟨-, rfl, -⟩⟩ := get_of_answered (hf k) hf'
  · exact h k f' hget
  · exact (h k f hget).settle ck

theorem OnTime.retried (h : l.OnTime) (t : TopicId) : (l.onReceiptNack t).OnTime := by
  intro k f' hf'
  obtain ⟨f, hget, rfl⟩ := get_of_retried hf'
  exact (h k f hget).retried t l.now

/-- What each visit of the sweep preserves, the sweep preserves. -/
theorem sweep_rule {I : Ledger → Prop} (hI : ∀ m k, I m → I (m.sweepAt cfg k)) (h : I l) :
    I (l.flightSweep cfg) := by
  have hall : ∀ (ks : List FlightKey) (m : Ledger), I m →
      I (ks.foldl (fun l k => l.sweepAt cfg k) m) := by
    intro ks
    induction ks with
    | nil => exact fun _ h => h
    | cons k ks ih => exact fun m hm => ih _ (hI m k hm)
  exact hall _ l h

theorem OnTime.step (h : l.OnTime) (a : World × FlightAct) : (l.step cfg a).OnTime := by
  obtain ⟨w, a⟩ := a
  -- the new world is no matter of the flights
  have hw : Ledger.OnTime { l with node := { l.node with world := w } } := h
  cases a with
  | node a => exact h
  | forward t root w' attempt => exact hw.grows (forwardToRoot_grows ..)
  | forwardWinner t winner w' attempt corr e => exact hw.grows (forwardToWinner_grows ..)
  | ack ck sender epoch => exact hw.answered (get_flightComplete _ ck sender epoch)
  | proof p => exact hw.answered (get_flightCompleteSigned _ p)
  | sweep => exact sweep_rule (fun m k hm => hm.swept (sweepAt_spec cfg m k)) hw
  | nack t => exact hw.retried t

theorem OnTime.run (h : l.OnTime) (as : List (World × FlightAct)) :
    (Library.run (Ledger.step cfg) l as).OnTime :=
  run_invariant (fun _ a h => h.step a) h as

theorem boot_onTime (w : World) : (Ledger.boot w).OnTime := by
  rintro k f ⟨⟩

/-! ### Silence -/

/-- Every flight is sound, one whose root the next sweep convicts has asked it for something, and
every root that was convicted had been silent. -/
structure SilentFirst (l : Ledger) : Prop where
  onTime : l.OnTime
  asks : ∀ k f, l.flights.get k = some f → f.Convicts → f.asked ≠ []
  silent : ∀ f at', .evicted f at' ∈ l.journal → f.Silent at'

section

variable (h : l.SilentFirst)
include h

theorem SilentFirst.grows (hg : l.Grows l') : l'.SilentFirst where
  onTime := h.onTime.grows hg
  asks k f' hf' hconv := by
    rcases hg.born k f' hf' with ⟨f, hf, hfg⟩ | hfresh
    · rw [hfg.asked]
      refine h.asks k f hf ?_
      unfold Flight.Convicts at hconv ⊢
      rwa [hfg.stage, hfg.rounds] at hconv
    · unfold Flight.Convicts at hconv
      rw [hfresh.stage] at hconv
      exact absurd hconv (by simp)
  silent f at' hev := h.silent f at' (hg.journal ▸ hev)

/-- A flight goes, with or without a silent root. -/
theorem SilentFirst.delete (hf : l'.flights = l.flights.delete k)
    (hj : ∀ f at', .evicted f at' ∈ l'.journal → .evicted f at' ∈ l.journal ∨ f.Silent at') :
    l'.SilentFirst where
  onTime k' f' h' := h.onTime k' f' (get_of_deleted hf h')
  asks k' f' h' := h.asks k' f' (get_of_deleted hf h')
  silent f at' hev := by
    rcases hj f at' hev with hold | hs
    · exact h.silent f at' hold
    · exact hs

/-- **The sweep convicts silent roots only.** -/
theorem SilentFirst.swept (hs : l.Swept l' k) : l'.SilentFirst := by
  have hsound := h.onTime.swept hs
  cases hs with
  | idle hidle heq => rwa [heq]
  | empty f₀ h₀ hdue hnow hj hf =>
    refine h.delete hf ?_
    intro f at' hev
    rw [hj] at hev
    exact .inl hev
  | probed f ck hf hdue hin hnow hj hflights =>
    refine ⟨hsound, ?_, fun f at' hev => h.silent f at' (hj ▸ hev)⟩
    intro k' f' h' hconv
    rcases get_of_probed hflights h' with ⟨rfl, rfl⟩ | hold
    · exact List.cons_ne_nil _ _
    · exact h.asks k' f' hold hconv
  | evicted f l₁ hf hdue hstage hnow hj hflights hg =>
    refine SilentFirst.grows (h.delete hflights ?_) hg
    intro f' at' hev
    rw [hj] at hev
    rcases List.mem_cons.mp hev with heq | hold
    · -- the flight had asked for a write, a window ago
      cases heq
      refine .inr ?_
      have hconv : f.Convicts := by
        rcases hstage with hp | hr
        · exact .inl hp
        cases hst : f.stage with
        | awaitAck =>
          rw [(h.onTime k f hf).first hst] at hr
          exact absurd hr (by decide)
        | probing => exact .inl hst
        | retrying => exact .inr ⟨hst, hr⟩
      obtain ⟨a, ha⟩ := List.exists_mem_of_ne_nil _ (h.asks k f hf hconv)
      obtain ⟨hin, hat⟩ := (h.onTime k f hf).asked a ha
      exact ⟨a, ha, hin, hat.trans hdue⟩
    · exact .inl hold

/-- An answer settles writes, each in a flight that asked for more or is done with it. -/
theorem SilentFirst.answered (hf : ∀ k, l'.flights.get k = (l.flights.get k).bind fun f =>
      if binds f then f.without ck else some f)
    (hj : ∀ f at', .evicted f at' ∈ l'.journal → .evicted f at' ∈ l.journal)
    (hin : ∀ f : Flight, binds f = true → f.entries.has ck = true)
    (hleft : ∀ k f, l.flights.get k = some f → binds f = true → f.Convicts → f.Remains ck) :
    l'.SilentFirst := by
  refine ⟨h.onTime.answered hf, ?_, fun f at' hev => h.silent f at' (hj f at' hev)⟩
  intro k f' hf' hconv
  obtain ⟨f, hget, rfl | ⟨hb, rfl, hsize⟩⟩ := get_of_answered (hf k) hf'
  · exact h.asks k f' hget hconv
  · exact Flight.asked_of_remains (hleft k f hget hb hconv) (hin f hb) hsize

/-- A nack is the question asked anew, for every write. -/
theorem SilentFirst.retried (t : TopicId) :
    (l.onReceiptNack t).SilentFirst := by
  refine ⟨h.onTime.retried t, ?_, fun f at' hev => h.silent f at' (onReceiptNack_journal l t ▸ hev)⟩
  intro k f' hf' hconv
  obtain ⟨f, hget, rfl⟩ := get_of_retried hf'
  unfold Flight.retried at hconv ⊢
  split
  · next hno =>
    rw [if_pos hno] at hconv
    exact h.asks k f hget hconv
  next hno =>
  -- a flight that is probed has a write in flight
  have hstage : f.stage = .probing := by
    simp only [Bool.or_eq_true, decide_eq_true_eq, not_or, not_not] at hno
    exact hno.2
  obtain ⟨a, ha⟩ := List.exists_mem_of_ne_nil _ (h.asks k f hget (.inl hstage))
  obtain ⟨e, he⟩ := has_iff.mp ((h.onTime k f hget).asked a ha).1
  have hmem := mem_of_get he
  exact List.ne_nil_of_mem (List.mem_map.mpr ⟨a.1, List.mem_map.mpr ⟨_, hmem, rfl⟩, rfl⟩)

end

/-- Each write that an answer settles leaves its flight with another one asked for, or with none,
where the next sweep would convict. -/
def AnswersLeave (l : Ledger) : FlightAct → Prop
  | .ack ck sender epoch => ∀ x ∈ l.flights.entries,
      x.2.acked ck sender epoch = true → x.2.Convicts → x.2.Remains ck
  | .proof p => ∀ x ∈ l.flights.entries,
      x.2.proved p = true → x.2.Convicts → x.2.Remains p.key
  | _ => True

instance (l : Ledger) : ∀ a : FlightAct, Decidable (l.AnswersLeave a)
  | .ack ck sender epoch => inferInstanceAs (Decidable (∀ x ∈ l.flights.entries,
      x.2.acked ck sender epoch = true → x.2.Convicts → x.2.Remains ck))
  | .proof p => inferInstanceAs (Decidable (∀ x ∈ l.flights.entries,
      x.2.proved p = true → x.2.Convicts → x.2.Remains p.key))
  | .node _ | .forward .. | .forwardWinner .. | .sweep | .nack _ => isTrue trivial

theorem SilentFirst.step (h : l.SilentFirst) (a : World × FlightAct) (ha : l.AnswersLeave a.2) :
    (l.step cfg a).SilentFirst := by
  obtain ⟨w, a⟩ := a
  have hw : Ledger.SilentFirst { l with node := { l.node with world := w } } :=
    ⟨h.onTime, h.asks, h.silent⟩
  cases a with
  | node a => exact ⟨h.onTime, h.asks, h.silent⟩
  | forward t root w' attempt => exact hw.grows (forwardToRoot_grows ..)
  | forwardWinner t winner w' attempt corr e => exact hw.grows (forwardToWinner_grows ..)
  | ack ck sender epoch =>
    exact hw.answered (get_flightComplete _ ck sender epoch)
      (mismatches_flightComplete cfg _ ck sender epoch).evicted (fun f => Flight.has_of_acked)
      fun k f hf => ha (k, f) (mem_of_get hf)
  | proof p =>
    exact hw.answered (get_flightCompleteSigned _ p) (mismatches_flightCompleteSigned _ p).evicted
      (fun f => Flight.has_of_proved) fun k f hf => ha (k, f) (mem_of_get hf)
  | sweep => exact sweep_rule (fun m k hm => hm.swept (sweepAt_spec cfg m k)) hw
  | nack t => exact hw.retried t

end Ledger

/-- **Eviction requires silence.** In every run in which each answer that settles a write of a
flight whose root the next sweep would convict leaves that flight another write it asked for, or no
write at all, a root is convicted only when it was asked for a write that is still in flight and did
not answer for the whole window of a probe. -/
theorem eviction_requires_silence (w : World) (as : List (World × FlightAct))
    (h : EachStep (Ledger.step cfg) (fun l a => l.AnswersLeave a.2) (Ledger.boot w) as)
    (f : Flight) (at' : Int)
    (hev : .evicted f at' ∈ (run (Ledger.step cfg) (Ledger.boot w) as).journal) :
    f.Silent at' := by
  have hstart : (Ledger.boot w).SilentFirst := by
    refine ⟨Ledger.boot_onTime w, ?_, ?_⟩
    · rintro k f ⟨⟩
    · rintro f at' ⟨⟩
  exact (h.invariant (fun l a hl ha => hl.step a ha) hstart).silent f at' hev

/-- The root closest to the topic of the samples. -/
def sampleRoot : NodeId := sampleTopicId

/-- Two writes towards it, with one probe for the first of them. -/
def probedRun : List (World × FlightAct) :=
  [(sampleWorld 0, .node (.beacon sampleRoot [(sampleTopicId, some 3)])),
   (sampleWorld 1, .forward sampleTopicId sampleRoot (.pub (samplePost 1 1)) none),
   (sampleWorld 2, .forward sampleTopicId sampleRoot (.pub (samplePost 2 2)) none),
   (sampleWorld 4001, .sweep)]

/-- What the post `m` is acknowledged by. -/
def sampleKey (m : Message) : CorrKey := ⟨sampleTopicId, List.replicate m '.', false⟩

/-- The root has neither write, takes one of them on the retry, and is silent about the other. -/
def silentRun : List (World × FlightAct) :=
  probedRun ++
    [(sampleWorld 4500, .nack sampleTopicId),
     (sampleWorld 5000, .ack (sampleKey 1) (some sampleRoot) 3),
     (sampleWorld 8500, .sweep),
     (sampleWorld 11500, .sweep)]

/-- The root is silent about the second write for a probe's window, and convicted. -/
theorem eviction_requires_silence_one :
    ∃ f, .evicted f 11500 ∈ (run (Ledger.step sampleConfig) (Ledger.boot (sampleWorld 0))
      silentRun).journal ∧ f.Silent 11500 := by
  have hconvicted : (run (Ledger.step sampleConfig) (Ledger.boot (sampleWorld 0))
      silentRun).journal.any (fun | .evicted _ at' => at' = 11500 | _ => false) = true := by
    decide +kernel
  obtain ⟨ev, hev, hat⟩ := List.any_eq_true.mp hconvicted
  cases ev with
  | mismatched k ck => cases hat
  | evicted f at' =>
    cases of_decide_eq_true hat
    exact ⟨f, hev, eviction_requires_silence (sampleWorld 0) silentRun (by decide +kernel) f 11500
      hev⟩

/-- The root acknowledges the write it is asked for, and is convicted for the other one, which it
was never asked for. -/
theorem answered_and_convicted :
    ¬∀ (w : World) (as : List (World × FlightAct)) (f : Flight) (at' : Int),
      .evicted f at' ∈ (run (Ledger.step sampleConfig) (Ledger.boot w) as).journal →
      f.Silent at' := by
  intro h
  let answered : List (World × FlightAct) := probedRun ++
    [(sampleWorld 4100, .ack (sampleKey 1) (some sampleRoot) 3), (sampleWorld 7001, .sweep)]
  have hconvicted : (run (Ledger.step sampleConfig) (Ledger.boot (sampleWorld 0))
      answered).journal.any (fun | .evicted f _ => f.asked.isEmpty | _ => false) = true := by
    decide +kernel
  obtain ⟨ev, hev, hasked⟩ := List.any_eq_true.mp hconvicted
  cases ev with
  | mismatched k ck => cases hasked
  | evicted f at' =>
    obtain ⟨a, ha, -⟩ := h (sampleWorld 0) answered f at' hev
    rw [List.isEmpty_iff.mp hasked] at ha
    cases ha

/-! ### An honest root's acknowledgement -/

namespace Ledger

/-- Is the write in flight under this key? -/
def InFlight (l : Ledger) (k : FlightKey) (ck : CorrKey) : Bool :=
  (l.flights.get k).any fun f => f.entries.has ck

/-- The flight waits: no sweep finds it overdue, and no answer settles the write. -/
def Waits (cfg : Config) (k : FlightKey) (ck : CorrKey) (l : Ledger) (a : World × FlightAct) :
    Prop :=
  match a.2 with
  | .sweep => (l.flights.get k).all (fun f => a.1.wall < f.deadline) = true
  | .ack .. | .proof _ => (l.step cfg a).InFlight k ck = true
  | _ => True

/-- The write is in flight, and this is the route of its answer. -/
def Routed (l : Ledger) (k : FlightKey) (ck : CorrKey) (ackTo : NodeId) (nonce attempt : Nat) :
    Prop :=
  ∃ f e, l.flights.get k = some f ∧ f.entries.get ck = some e ∧ f.ackTo = ackTo ∧
    f.flightNonce = nonce ∧ e.attemptId = attempt

variable {l l' : Ledger}

variable {k : FlightKey} {ck : CorrKey} {ackTo : NodeId} {nonce attempt : Nat}

theorem inFlight_iff :
    l.InFlight k ck = true ↔ ∃ f, l.flights.get k = some f ∧ f.entries.has ck = true := by
  unfold InFlight
  rw [Option.any_eq_true]

end Ledger

/-- A root next to the closest one. -/
def sampleRival : NodeId := sampleTopicId ^^^ 1

end Axona
