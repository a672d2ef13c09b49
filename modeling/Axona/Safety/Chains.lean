import Axona.Safety.Flights

/-! # The chains of a node's writes

A write whose root is convicted is promoted: it goes to the next candidate, and takes along how
often it was promoted and which roots it has left. Both are in the entry of its flight, and on
record for a write that is forwarded once more. So a write is promoted a few times only, and never
back, as long as one flight at a time has it and its record lasts. Two flights of one write count
apart. -/

namespace Axona

open Library OrderedMap

variable {cfg : Config}

/-! ### What a chain is -/

/-- `corrKey`: what a write is known by in its topic. -/
def Write.corrKey (t : TopicId) (w : Write) : Option CorrKey :=
  (w.msgId.filter fun id => !id.isEmpty).map fun id => ⟨t, id, w.isKill⟩

/-- The root that a write was promoted past, when the event did that. -/
def FlightEvent.promoted (ck : CorrKey) : FlightEvent → Option NodeId
  | .mismatched .. => none
  | .evicted f at' =>
    ((f.entries.get ck).filter fun e => (Ledger.endsChain e at').isNone).map fun _ => f.root

@[simp] theorem FlightEvent.promoted_evicted (ck : CorrKey) (f : Flight) (at' : Int) :
    (FlightEvent.evicted f at').promoted ck =
      ((f.entries.get ck).filter fun e => (Ledger.endsChain e at').isNone).map fun _ => f.root :=
  rfl

namespace Ledger

/-- The roots a write was promoted past, the latest first. -/
def history (l : Ledger) (ck : CorrKey) : List NodeId :=
  l.journal.filterMap fun ev => ev.promoted ck

/-- The ledger in a world. -/
def seeing (l : Ledger) (w : World) : Ledger := { l with node := { l.node with world := w } }

/-- The flight the sweep evicts when it comes to `k`. -/
def evictedAt (l : Ledger) (k : FlightKey) : Option Flight :=
  (l.flights.get k).filter fun f =>
    f.deadline ≤ l.now && (f.stage = .probing || flightMaxRounds ≤ f.rounds)

/-- The writes of a flight that are promoted when it is evicted. -/
def promotes (l : Ledger) (f : Flight) : List (CorrKey × FlightEntry) :=
  f.entries.entries.filter fun e => (endsChain e.2 l.now).isNone

/-- Where they go. -/
def target (cfg : Config) (l : Ledger) (f : Flight) : NodeId :=
  promoteTo cfg l.node f.topic (f.root :: (l.promotes f).flatMap fun e => e.2.tried)

/-! ### The bound -/

/-- A visit of the sweep promotes writes to this node, or to a node that they were not promoted
past. -/
def Anew (cfg : Config) (l : Ledger) (k : FlightKey) : Prop :=
  ∀ f ∈ l.evictedAt k, ∀ e ∈ l.promotes f, l.target cfg f ≠ cfg.nodeId →
    l.target cfg f ∉ e.2.tried ∧ l.target cfg f ∉ (l.sweepAt cfg k).history e.1

/-- After a step no write was promoted too often, and the step promoted none back. -/
structure Bounded (cfg : Config) (l : Ledger) (a : World × FlightAct) : Prop where
  promotions : ∀ ck, ((l.step cfg a).history ck).length ≤ flightMaxPromotions
  anew : a.2 = .sweep →
    EachStep (fun l k => l.sweepAt cfg k) (Anew cfg) (l.seeing a.1) l.flights.keys

/-- Does the sweep find the flight of generation `ν` under `k` overdue? -/
def due (k : FlightKey) (ν : Nat) (l : Ledger) (a : World × FlightAct) : Bool :=
  match a.2 with
  | .sweep => (l.flights.get k).any fun f => f.flightNonce = ν && f.deadline ≤ a.1.wall
  | _ => false

/-! ### One flight at a time -/

/-- A write that joins the flight under `k` was never promoted, or its chain is on record, or the
flight has it already. -/
def Inherits (l : Ledger) (k : FlightKey) (ck : CorrKey) : Prop :=
  l.history ck = [] ∨ (l.chains.get ck).any (fun c => l.now < c.exp) = true ∨
    l.InFlight k ck = true

instance (l : Ledger) (k : FlightKey) (ck : CorrKey) : Decidable (l.Inherits k ck) :=
  inferInstanceAs (Decidable (_ ∨ _ ∨ _))

/-- The writes of the flight that the sweep evicts are in no other flight. -/
def Alone (l : Ledger) (k : FlightKey) : Prop :=
  ∀ f ∈ l.evictedAt k, ∀ e ∈ l.promotes f, ∀ k' ∈ l.flights.keys, l.InFlight k' e.1 = true → k' = k

instance (l : Ledger) (k : FlightKey) : Decidable (l.Alone k) :=
  inferInstanceAs (Decidable (∀ f ∈ l.evictedAt k, _))

/-- A forwarded write takes its history over, and an evicted one is in one flight. -/
def Inherited (cfg : Config) (l : Ledger) (a : World × FlightAct) : Prop :=
  match a.2 with
  | .forward t root w _ =>
    ∀ ck ∈ w.corrKey t, (l.seeing a.1).Inherits (openKey l.node t root none) ck
  | .forwardWinner t winner w _ _ e =>
    ∀ ck ∈ w.corrKey t, (l.seeing a.1).Inherits (openKey l.node t winner (some e)) ck
  | .sweep => EachStep (fun l k => l.sweepAt cfg k) Alone (l.seeing a.1) l.flights.keys
  | _ => True

instance (cfg : Config) (l : Ledger) :
    ∀ a : World × FlightAct, Decidable (l.Inherited cfg a)
  | (_, .forward ..) | (_, .forwardWinner ..) => inferInstanceAs (Decidable (∀ ck ∈ _, _))
  | (_, .sweep) => inferInstanceAs (Decidable (EachStep ..))
  | (_, .node _) | (_, .ack ..) | (_, .proof _) | (_, .nack _) => isTrue trivial

variable {l l' l'' : Ledger}

/-! ### Histories -/

theorem history_of_journal (h : l'.journal = l.journal) (ck : CorrKey) :
    l'.history ck = l.history ck := by
  unfold history
  rw [h]

theorem history_mismatched {k : FlightKey} {ck' : CorrKey}
    (h : l'.journal = .mismatched k ck' :: l.journal) (ck : CorrKey) :
    l'.history ck = l.history ck := by
  unfold history
  rw [h]
  rfl

/-- A write that an evicted flight promotes was promoted past its root. -/
theorem history_promoted {f : Flight} {e : CorrKey × FlightEntry}
    (h : l'.journal = .evicted f l.now :: l.journal) (he : e ∈ l.promotes f) :
    l'.history e.1 = f.root :: l.history e.1 := by
  obtain ⟨hin, hgoes⟩ := List.mem_filter.mp he
  unfold history
  rw [h]
  refine List.filterMap_cons_some ?_
  rw [FlightEvent.promoted_evicted, get_of_mem hin, Option.filter_some, if_pos hgoes]
  rfl

variable {ck : CorrKey}

/-- Any other write was not. -/
theorem history_not_promoted {f : Flight} (h : l'.journal = .evicted f l.now :: l.journal)
    (hno : ck ∉ (l.promotes f).map Prod.fst) : l'.history ck = l.history ck := by
  unfold history
  rw [h]
  refine List.filterMap_cons_none ?_
  rw [FlightEvent.promoted_evicted]
  cases hget : f.entries.get ck with
  | none => rfl
  | some e =>
    rw [Option.filter_some, if_neg]
    · rfl
    · intro hgoes
      have hmem : (ck, e) ∈ l.promotes f :=
        List.mem_filter.mpr ⟨mem_of_get hget, hgoes⟩
      exact hno (List.mem_map.mpr ⟨(ck, e), hmem, rfl⟩)

/-- The count and the roots that go with a write miss none of its promotions. -/
structure Covers (l : Ledger) (ck : CorrKey) (promotions : Nat) (tried : List NodeId) : Prop where
  count : (l.history ck).length ≤ promotions
  roots : l.history ck ⊆ tried

theorem Covers.mono {p p' : Nat} {ts ts' : List NodeId} (h : l.Covers ck p ts) (hp : p ≤ p')
    (hts : ts ⊆ ts') : l.Covers ck p' ts' :=
  ⟨h.count.trans hp, List.Subset.trans h.roots hts⟩

theorem Covers.of_history {p : Nat} {ts : List NodeId} (h : l.Covers ck p ts)
    (heq : l'.history ck = l.history ck) : l'.Covers ck p ts := by
  refine ⟨?_, ?_⟩
  · rw [heq]
    exact h.count
  · rw [heq]
    exact h.roots

theorem covers_of_empty (h : l.history ck = []) (p : Nat) (ts : List NodeId) :
    l.Covers ck p ts := by
  refine ⟨?_, ?_⟩
  · rw [h]
    exact Nat.zero_le p
  · rw [h]
    exact List.nil_subset ts

end Ledger

/-! ### What an entry takes over -/

/-- The entry counts as many promotions at least, and knows the roots. -/
structure FlightEntry.Knows (e : FlightEntry) (promotions : Nat) (tried : List NodeId) :
    Prop where
  count : promotions ≤ e.promotions
  roots : tried ⊆ e.tried

namespace Ledger

variable {l l' l'' : Ledger}

theorem mem_inherited (ts rs : List NodeId) (r : NodeId) :
    r ∈ ts.foldl (fun rs r => if r ∈ rs then rs else rs ++ [r]) rs ↔ r ∈ rs ∨ r ∈ ts := by
  induction ts generalizing rs with
  | nil => simp
  | cons t ts ih =>
    rw [List.foldl_cons, ih, List.mem_cons]
    by_cases h : t ∈ rs
    · rw [if_pos h]
      constructor
      · rintro (hr | hr)
        · exact .inl hr
        · exact .inr (.inr hr)
      · rintro (hr | rfl | hr)
        · exact .inl hr
        · exact .inl h
        · exact .inr hr
    · rw [if_neg h, List.mem_append, List.mem_singleton, or_assoc]

theorem knows_inherit (e : FlightEntry) (p : Nat) (ts : List NodeId) :
    (inherit e p ts).Knows p ts :=
  ⟨Nat.le_max_right _ _, fun r hr => (mem_inherited ts e.tried r).mpr (.inr hr)⟩

variable {e : FlightEntry}

theorem knows_inherit_of_knows {p : Nat} {ts : List NodeId} (h : e.Knows p ts) (p' : Nat)
    (ts' : List NodeId) : (inherit e p' ts').Knows p ts :=
  ⟨h.count.trans (Nat.le_max_left _ _),
    fun r hr => (mem_inherited ts' e.tried r).mpr (.inl (h.roots hr))⟩

/-- An entry that takes over a chain, if there is one, knows what it knew. -/
theorem knows_elim_of_knows {p : Nat} {ts : List NodeId} (h : e.Knows p ts) (chain : Option Chain) :
    (chain.elim e fun c => inherit e c.promotions c.tried).Knows p ts := by
  cases chain with
  | none => exact h
  | some c => exact knows_inherit_of_knows h c.promotions c.tried

theorem write_elim (e : FlightEntry) (chain : Option Chain) :
    (chain.elim e fun c => inherit e c.promotions c.tried).write = e.write := by
  cases chain with
  | none => rfl
  | some c => rfl

/-! ### Opening -/

/-- What opening leaves. The write joins the flight under its key; its entry keeps the write it has
there, and knows what it knew, the chain it is given and the chain on record. -/
structure Opened (cfg : Config) (l l' : Ledger) (k : FlightKey) (ck : CorrKey) (w : Write)
    (chain : Option Chain) (e : FlightEntry) : Prop where
  node : l'.node = l.node
  journal : l'.journal = l.journal
  next : l.nextNonce < l'.nextNonce
  chains : ∀ ck c, l'.chains.get ck = some c → l.chains.get ck = some c
  flights : l'.flights = l.flights.set k
    { l.flightAt cfg k with entries := (l.flightAt cfg k).entries.set ck e }
  write : e.write = ((l.flightAt cfg k).entries.get ck).elim w (·.write)
  old : ∀ e₀, (l.flightAt cfg k).entries.get ck = some e₀ → e.Knows e₀.promotions e₀.tried
  given : ∀ c ∈ chain, e.Knows c.promotions c.tried
  recorded : ∀ c, l.chains.get ck = some c → l.now < c.exp → e.Knows c.promotions c.tried

/-- A chain is on record until its time has come; looking it up changes nothing else. -/
theorem chainGet_spec (l : Ledger) (ck : CorrKey) :
    (l.chainGet ck).2.node = l.node ∧ (l.chainGet ck).2.journal = l.journal ∧
      (l.chainGet ck).2.flights = l.flights ∧ (l.chainGet ck).2.nextNonce = l.nextNonce ∧
      (∀ ck' c, (l.chainGet ck).2.chains.get ck' = some c → l.chains.get ck' = some c) ∧
      ∀ c, l.chains.get ck = some c → l.now < c.exp → (l.chainGet ck).1 = some c := by
  unfold chainGet
  cases hget : l.chains.get ck with
  | none => exact ⟨rfl, rfl, rfl, rfl, fun _ _ h => h, nofun⟩
  | some c =>
    simp only []
    split
    · next hexp =>
      refine ⟨rfl, rfl, rfl, rfl, ?_, ?_⟩
      · intro ck' c' h'
        replace h' := of_get_delete h'
        exact h'
      · rintro c' hc' hlive
        cases hc'
        exact absurd hexp (not_le.mpr hlive)
    · exact ⟨rfl, rfl, rfl, rfl, fun _ _ h => h, fun _ h _ => h⟩

theorem flightOpen_none (cfg : Config) (l : Ledger) {t : TopicId} (root : NodeId) {w : Write}
    (attempt : Option Nat) (expected : Option Int) (chain : Option Chain) (h : w.corrKey t = none) :
    l.flightOpen cfg t root w attempt expected chain = (none, l) := by
  unfold flightOpen
  rw [Option.map_eq_none_iff.mp h]

theorem flightOpen_opened (cfg : Config) (l : Ledger) {t : TopicId} (root : NodeId) {w : Write}
    (attempt : Option Nat) (expected : Option Int) (chain : Option Chain) {ck : CorrKey}
    (h : w.corrKey t = some ck) :
    ∃ r l', l.flightOpen cfg t root w attempt expected chain = (some r, l') ∧
      Opened cfg l l' (openKey l.node t root expected) ck w chain r.2 := by
  obtain ⟨id, hid, rfl⟩ := Option.map_eq_some_iff.mp h
  unfold flightOpen
  rw [hid]
  simp only []
  set k := openKey l.node t root expected
  set ck : CorrKey := ⟨t, id, w.isKill⟩ with hck
  obtain ⟨hnode, hj, hf, hn, hc, hlive⟩ := l.chainGet_spec ck
  generalize hbase : (((l.flightAt cfg k).entries.get ck).getD
    ⟨w, id, attempt.getD (l.nextNonce + 1), 0, []⟩) = base
  refine ⟨_, _, rfl, hnode, hj, ?_, hc, by rw [hf], ?_, ?_, ?_, ?_⟩
  · show l.nextNonce < (l.chainGet ck).2.nextNonce + 2
    rw [hn]
    exact Nat.lt_add_of_pos_right Nat.two_pos
  · rw [write_elim, write_elim, ← hbase]
    cases (l.flightAt cfg k).entries.get ck with
    | none => rfl
    | some e₀ => rfl
  · intro e₀ he₀
    rw [he₀] at hbase
    cases hbase
    exact knows_elim_of_knows (knows_elim_of_knows ⟨le_rfl, List.Subset.refl _⟩ chain) _
  · rintro c rfl
    exact knows_elim_of_knows (knows_inherit base c.promotions c.tried) _
  · intro c hget hexp
    rw [hlive c hget hexp]
    exact knows_inherit _ c.promotions c.tried

/-! ### Flights that were covered stay so -/

/-- Every flight is under its key, and each of its entries under that of its write. What an entry
knows, and what is on record, misses no promotion. The writes that are pending are in no flight, and
their record is out of date. -/
structure Chained (l : Ledger) (pending : List CorrKey) : Prop where
  keys : ∀ k f, l.flights.get k = some f → f.key = k
  names : ∀ k f ck e, l.flights.get k = some f → f.entries.get ck = some e →
    e.write.corrKey k.topic = some ck
  entries : ∀ k f ck e, l.flights.get k = some f → f.entries.get ck = some e →
    ck ∉ pending ∧ l.Covers ck e.promotions e.tried
  chains : ∀ ck c, l.chains.get ck = some c → ck ∉ pending → l.Covers ck c.promotions c.tried

/-- An empty flight, or the one under the key. -/
theorem Chained.at_key {pending : List CorrKey} (h : l.Chained pending) (cfg : Config)
    (k : FlightKey) : (l.flightAt cfg k).key = k ∧
      ∀ ck e, (l.flightAt cfg k).entries.get ck = some e → e.write.corrKey k.topic = some ck ∧
        ck ∉ pending ∧ l.Covers ck e.promotions e.tried := by
  unfold Ledger.flightAt
  cases hf : l.flights.get k with
  | none =>
    refine ⟨rfl, ?_⟩
    intro ck e he
    rw [Option.getD_none, get_empty] at he
    cases he
  | some f =>
    refine ⟨h.keys k f hf, ?_⟩
    intro ck e he
    exact ⟨h.names k f ck e hf he, h.entries k f ck e hf he⟩

/-- A flight that a covered write joins. -/
theorem Chained.opened {pending : List CorrKey} (h : l.Chained pending) {k : FlightKey}
    {ck : CorrKey} {w : Write} {chain : Option Chain} (ho : Opened cfg l l' k ck w chain e)
    (hw : w.corrKey k.topic = some ck) (hno : ck ∉ pending)
    (hcov : l.Covers ck e.promotions e.tried) : l'.Chained pending := by
  have hhist := fun ck => history_of_journal ho.journal ck
  obtain ⟨hkey, hentries⟩ := h.at_key cfg k
  have hget (k' : FlightKey) (f : Flight) (hf : l'.flights.get k' = some f) :
      (k' = k ∧ f = { l.flightAt cfg k with entries := (l.flightAt cfg k).entries.set ck e }) ∨
        l.flights.get k' = some f := by
    rw [ho.flights, get_set] at hf
    split at hf
    next hk => exact .inl ⟨hk, (Option.some.inj hf).symm⟩
    · exact .inr hf
  -- the entry of the write, and the others as they were
  have hentry (ck' : CorrKey) (e' : FlightEntry)
      (he' : ((l.flightAt cfg k).entries.set ck e).get ck' = some e') :
      (ck' = ck ∧ e' = e) ∨ (l.flightAt cfg k).entries.get ck' = some e' := by
    rw [get_set] at he'
    split at he'
    next hck => exact .inl ⟨hck, (Option.some.inj he').symm⟩
    · exact .inr he'
  refine ⟨?_, ?_, ?_, ?_⟩
  · intro k' f hf
    rcases hget k' f hf with ⟨rfl, rfl⟩ | hold
    · exact hkey
    · exact h.keys k' f hold
  · intro k' f ck' e' hf he'
    rcases hget k' f hf with ⟨rfl, rfl⟩ | hold
    · rcases hentry ck' e' he' with ⟨rfl, rfl⟩ | hold
      · rw [ho.write]
        cases hold : (l.flightAt cfg k').entries.get ck' with
        | none => exact hw
        | some e₀ => exact (hentries ck' e₀ hold).1
      · exact (hentries ck' e' hold).1
    · exact h.names k' f ck' e' hold he'
  · intro k' f ck' e' hf he'
    suffices hold : ck' ∉ pending ∧ l.Covers ck' e'.promotions e'.tried from
      ⟨hold.1, hold.2.of_history (hhist ck')⟩
    rcases hget k' f hf with ⟨rfl, rfl⟩ | hold
    · rcases hentry ck' e' he' with ⟨rfl, rfl⟩ | hold
      · exact ⟨hno, hcov⟩
      · exact (hentries ck' e' hold).2
    · exact h.entries k' f ck' e' hold he'
  · intro ck' c hc hno
    exact (h.chains ck' c (ho.chains ck' c hc) hno).of_history (hhist ck')

/-! ### Flights that lose writes -/

end Ledger

/-- The flight keeps its generation and some of its writes, and comes forward by no more than the
rounds there are. -/
structure Flight.Wanes (f f' : Flight) : Prop where
  key : f'.key = f.key
  nonce : f'.flightNonce = f.flightNonce
  rounds : f.rounds ≤ f'.rounds
  most : f'.rounds ≤ max f.rounds flightMaxRounds
  entries : ∀ ck e, f'.entries.get ck = some e → f.entries.get ck = some e

theorem Flight.Wanes.refl (f : Flight) : f.Wanes f :=
  ⟨rfl, rfl, le_rfl, Nat.le_max_left _ _, fun _ _ h => h⟩

theorem Flight.Wanes.trans {f f' f'' : Flight} (h : f.Wanes f') (h' : f'.Wanes f'') :
    f.Wanes f'' where
  key := h'.key.trans h.key
  nonce := h'.nonce.trans h.nonce
  rounds := h.rounds.trans h'.rounds
  most := by
    have := h.most
    have := h'.most
    omega
  entries ck e he := h.entries ck e (h'.entries ck e he)

theorem Flight.settle_wanes (f : Flight) (ck : CorrKey) : f.Wanes (f.settle ck) := by
  refine ⟨rfl, rfl, le_rfl, Nat.le_max_left _ _, ?_⟩
  intro ck' e he
  change (f.entries.delete ck).get ck' = some e at he
  exact of_get_delete he

theorem Flight.retried_wanes (f : Flight) (t : TopicId) (now : Int) :
    f.Wanes (f.retried t now) := by
  unfold Flight.retried
  split
  · exact .refl f
  · exact ⟨rfl, rfl, le_rfl, Nat.le_max_left _ _, fun _ _ h => h⟩

namespace Ledger

variable {l l' l'' : Ledger}

/-- No write joins a flight, no chain is noted, and no write is promoted. -/
structure Wanes (l l' : Ledger) : Prop where
  history : ∀ ck, l'.history ck = l.history ck
  next : l'.nextNonce = l.nextNonce
  chains : l'.chains = l.chains
  flights : ∀ k f', l'.flights.get k = some f' → ∃ f, l.flights.get k = some f ∧ f.Wanes f'

theorem Wanes.of_flights (hj : l'.journal = l.journal) (hn : l'.nextNonce = l.nextNonce)
    (hc : l'.chains = l.chains) (hf : l'.flights = l.flights) : l.Wanes l' := by
  refine ⟨history_of_journal hj, hn, hc, ?_⟩
  intro k f' hf'
  rw [hf] at hf'
  exact ⟨f', hf', .refl f'⟩

theorem Wanes.refl (l : Ledger) : l.Wanes l := .of_flights rfl rfl rfl rfl

theorem Wanes.trans (h : l.Wanes l') (h' : l'.Wanes l'') : l.Wanes l'' := by
  refine ⟨fun ck => (h'.history ck).trans (h.history ck), h'.next.trans h.next,
    h'.chains.trans h.chains, ?_⟩
  intro k f'' hf''
  obtain ⟨f', hf', hw'⟩ := h'.flights k f'' hf''
  obtain ⟨f, hf, hw⟩ := h.flights k f' hf'
  exact ⟨f, hf, hw.trans hw'⟩

/-- What each visit of a pass does to the ledger, the pass does. -/
theorem foldl_wanes {α : Type*} {g : Ledger → α → Ledger} (hg : ∀ (l : Ledger) x, l.Wanes (g l x))
    (l : Ledger) (xs : List α) : l.Wanes (xs.foldl g l) :=
  run_climbs Wanes.refl Wanes.trans hg l xs

variable {pending : List CorrKey}

theorem Chained.wanes (h : l.Chained pending) (hw : l.Wanes l') : l'.Chained pending where
  keys k f' hf' := by
    obtain ⟨f, hf, hfw⟩ := hw.flights k f' hf'
    exact hfw.key.trans (h.keys k f hf)
  names k f' ck e hf' he := by
    obtain ⟨f, hf, hfw⟩ := hw.flights k f' hf'
    exact h.names k f ck e hf (hfw.entries ck e he)
  entries k f' ck e hf' he := by
    obtain ⟨f, hf, hfw⟩ := hw.flights k f' hf'
    obtain ⟨hno, hcov⟩ := h.entries k f ck e hf (hfw.entries ck e he)
    exact ⟨hno, hcov.of_history (hw.history ck)⟩
  chains ck c hc hno := by
    rw [hw.chains] at hc
    exact (h.chains ck c hc hno).of_history (hw.history ck)

theorem completeAt_wanes (l : Ledger) (ck : CorrKey) (sender : Option NodeId) (epoch : Int)
    (k : FlightKey) : l.Wanes (l.completeAt cfg ck sender epoch k) := by
  have hrest : (l.completeAt cfg ck sender epoch k).nextNonce = l.nextNonce ∧
      (l.completeAt cfg ck sender epoch k).chains = l.chains := by
    unfold completeAt
    split
    · exact ⟨rfl, rfl⟩
    split
    · exact ⟨rfl, rfl⟩
    split
    · split <;> exact ⟨rfl, rfl⟩
    · exact ⟨rfl, rfl⟩
  refine ⟨?_, hrest.1, hrest.2, ?_⟩
  · intro ck'
    rcases completeAt_journal cfg l ck sender epoch k with hj | ⟨f, -, -, -, hj⟩
    · exact history_of_journal hj ck'
    · exact history_mismatched hj ck'
  · intro k' f' hf'
    have hget := @get_completeAt cfg l ck sender epoch k' k
    by_cases hk : k' = k
    · rw [if_pos hk] at hget
      obtain ⟨f, hf, rfl | ⟨-, rfl, -⟩⟩ := get_of_answered hget hf'
      · exact ⟨f', hf, .refl f'⟩
      · exact ⟨f, hf, f.settle_wanes ck⟩
    · rw [if_neg hk, hf'] at hget
      exact ⟨f', hget.symm, .refl f'⟩

theorem completeSignedAt_wanes (l : Ledger) (p : AckProof) (k : FlightKey) :
    l.Wanes (l.completeSignedAt p k) := by
  have hrest : (∀ ck, (l.completeSignedAt p k).history ck = l.history ck) ∧
      (l.completeSignedAt p k).nextNonce = l.nextNonce ∧
      (l.completeSignedAt p k).chains = l.chains := by
    unfold completeSignedAt
    split
    · exact ⟨fun _ => rfl, rfl, rfl⟩
    split
    · exact ⟨fun _ => rfl, rfl, rfl⟩
    split
    · exact ⟨fun _ => rfl, rfl, rfl⟩
    split
    · exact ⟨history_mismatched rfl, rfl, rfl⟩
    split <;> exact ⟨fun _ => rfl, rfl, rfl⟩
  refine ⟨hrest.1, hrest.2.1, hrest.2.2, ?_⟩
  · intro k' f' hf'
    have hget := get_completeSignedAt l p k' k
    by_cases hk : k' = k
    · rw [if_pos hk] at hget
      obtain ⟨f, hf, rfl | ⟨-, rfl, -⟩⟩ := get_of_answered hget hf'
      · exact ⟨f', hf, .refl f'⟩
      · exact ⟨f, hf, f.settle_wanes p.key⟩
    · rw [if_neg hk, hf'] at hget
      exact ⟨f', hget.symm, .refl f'⟩

/-- What is sent leaves everything else. -/
theorem foldl_send {α : Type*} {g : Ledger → α → Ledger}
    (hg : ∀ (l : Ledger) x, ∃ frame, g l x = l.send frame) (l : Ledger) (xs : List α) :
    ∃ frames, xs.foldl g l = { l with sent := frames } := by
  induction xs generalizing l with
  | nil => exact ⟨l.sent, rfl⟩
  | cons x xs ih =>
    obtain ⟨frame, hx⟩ := hg l x
    rw [List.foldl_cons, hx]
    exact ih (l.send frame)

theorem retryAt_wanes (l : Ledger) (t : TopicId) (k : FlightKey) : l.Wanes (l.retryAt t k) := by
  have hflights (k' : FlightKey) (f' : Flight) (hf' : (l.retryAt t k).flights.get k' = some f') :
      ∃ f, l.flights.get k' = some f ∧ f.Wanes f' := by
    have hget := get_retryAt l t k' k
    rw [hf'] at hget
    split at hget
    · obtain ⟨f, hf, heq⟩ := Option.bind_eq_some_iff.mp hget.symm
      cases heq
      exact ⟨f, hf, f.retried_wanes t l.now⟩
    · exact ⟨f', hget.symm, .refl f'⟩
  have hrest : (l.retryAt t k).journal = l.journal ∧ (l.retryAt t k).nextNonce = l.nextNonce ∧
      (l.retryAt t k).chains = l.chains := by
    unfold retryAt
    split
    · exact ⟨rfl, rfl, rfl⟩
    split
    · exact ⟨rfl, rfl, rfl⟩
    next f hf hno =>
    obtain ⟨frames, h⟩ := foldl_send (g := fun (l : Ledger) (e : CorrKey × FlightEntry) =>
      l.sendWrite e.2.write f.root (_, e.2)) (fun _ _ => ⟨_, rfl⟩) _ f.entries.entries
    rw [h]
    exact ⟨rfl, rfl, rfl⟩
  exact ⟨history_of_journal hrest.1, hrest.2.1, hrest.2.2, hflights⟩

/-! ### Flights that writes join -/

/-- The flights there are keep their generation and their rounds, and the new ones are of a new
generation. -/
structure Joins (l l' : Ledger) : Prop where
  next : l.nextNonce ≤ l'.nextNonce
  kept : ∀ k f, l.flights.get k = some f →
    ∃ f', l'.flights.get k = some f' ∧ f'.flightNonce = f.flightNonce ∧ f'.rounds = f.rounds
  born : ∀ k f', l.flights.get k = none → l'.flights.get k = some f' →
    l.nextNonce ≤ f'.flightNonce ∧ f'.flightNonce < l'.nextNonce ∧ f'.rounds = 0

theorem Joins.of_flights (hn : l'.nextNonce = l.nextNonce) (hf : l'.flights = l.flights) :
    l.Joins l' := by
  refine ⟨hn.ge, ?_, ?_⟩
  · intro k f h
    rw [hf]
    exact ⟨f, h, rfl, rfl⟩
  · intro k f hnone h
    rw [hf, hnone] at h
    cases h

theorem Joins.refl (l : Ledger) : l.Joins l := .of_flights rfl rfl

theorem Joins.trans (h : l.Joins l') (h' : l'.Joins l'') : l.Joins l'' where
  next := h.next.trans h'.next
  kept k f hf := by
    obtain ⟨f', hf', hn, hr⟩ := h.kept k f hf
    obtain ⟨f'', hf'', hn', hr'⟩ := h'.kept k f' hf'
    exact ⟨f'', hf'', hn'.trans hn, hr'.trans hr⟩
  born k f'' hnone hf'' := by
    cases hmid : l'.flights.get k with
    | none =>
      obtain ⟨hge, hlt, hr⟩ := h'.born k f'' hmid hf''
      exact ⟨h.next.trans hge, hlt, hr⟩
    | some f' =>
      -- the flight was opened in the first part
      obtain ⟨hge, hlt, hr⟩ := h.born k f' hnone hmid
      obtain ⟨f₂, hf₂, hn', hr'⟩ := h'.kept k f' hmid
      cases hf''.symm.trans hf₂
      rw [hn', hr']
      exact ⟨hge, hlt.trans_le h'.next, hr⟩

variable {k : FlightKey}

theorem Opened.joins {ck : CorrKey} {w : Write} {chain : Option Chain} {e : FlightEntry}
    (h : Opened cfg l l' k ck w chain e) : l.Joins l' := by
  have hget (k' : FlightKey) : l'.flights.get k' = if k' = k then
      some { l.flightAt cfg k with entries := (l.flightAt cfg k).entries.set ck e }
      else l.flights.get k' := by
    rw [h.flights, get_set]
  refine ⟨h.next.le, ?_, ?_⟩
  · intro k' f hf
    rw [hget]
    split
    · next hk =>
      subst hk
      refine ⟨_, rfl, ?_⟩
      unfold Ledger.flightAt
      rw [hf]
      exact ⟨rfl, rfl⟩
    · exact ⟨f, hf, rfl, rfl⟩
  · intro k' f' hnone hf'
    rw [hget] at hf'
    split at hf'
    · next hk =>
      subst hk
      cases hf'
      unfold Ledger.flightAt
      rw [hnone]
      exact ⟨le_rfl, h.next, rfl⟩
    · rw [hnone] at hf'
      cases hf'

theorem flightOpen_joins (cfg : Config) (l : Ledger) (t : TopicId) (root : NodeId) (w : Write)
    (attempt : Option Nat) (expected : Option Int) (chain : Option Chain) :
    l.Joins (l.flightOpen cfg t root w attempt expected chain).2 := by
  cases h : w.corrKey t with
  | none =>
    rw [flightOpen_none cfg l root attempt expected chain h]
    exact .refl l
  | some ck =>
    obtain ⟨r, l', heq, ho⟩ := flightOpen_opened cfg l root attempt expected chain h
    rw [heq]
    exact ho.joins

theorem promote_joins (l : Ledger) (f : Flight) (best : NodeId) (e : CorrKey × FlightEntry) :
    l.Joins (l.promote cfg f best e.1 e.2) := by
  have hnote : l.Joins (l.chainNote e.1 (e.2.promotions + 1) (e.2.tried ++ [f.root])) :=
    .of_flights rfl rfl
  unfold promote
  refine hnote.trans ?_
  simp only []
  split
  · exact .of_flights rfl rfl
  have hopen := flightOpen_joins cfg
    (l.chainNote e.1 (e.2.promotions + 1) (e.2.tried ++ [f.root])) f.topic best e.2.write
    (some e.2.attemptId) none (some ⟨e.2.promotions + 1, e.2.tried ++ [f.root], 0⟩)
  split
  · next h =>
    rw [h] at hopen
    exact hopen
  next h =>
  rw [h] at hopen
  exact hopen.trans (.of_flights rfl rfl)

/-! ### Forwarding -/

/-- What forwarding leaves: a write without an id is left to its root, and any other one joins the
flight under its key. -/
inductive Forwarded (cfg : Config) (l l' : Ledger) (t : TopicId) (k : FlightKey) (w : Write) : Prop
  | refused (h : w.corrKey t = none) (heq : l' = l)
  | joined (ck : CorrKey) (e : FlightEntry) (l₁ : Ledger) (h : w.corrKey t = some ck)
      (ho : Opened cfg l l₁ k ck w none e) (hw : l₁.Wanes l')

theorem forwardToRoot_forwarded (l : Ledger) (t : TopicId) (root : NodeId) (w : Write)
    (attempt : Option Nat) :
    Forwarded cfg l (l.forwardToRoot cfg t root w attempt) t (openKey l.node t root none) w := by
  unfold forwardToRoot
  cases h : w.corrKey t with
  | none =>
    rw [flightOpen_none cfg l root attempt none none h]
    exact .refused h rfl
  | some ck =>
    obtain ⟨r, l₁, heq, ho⟩ := flightOpen_opened cfg l root attempt none none h
    rw [heq]
    exact .joined ck r.2 l₁ h ho (.of_flights rfl rfl rfl rfl)

theorem forwardToWinner_forwarded (l : Ledger) (t : TopicId) (winner : NodeId) (w : Write)
    (attempt : Option Nat) (corr : Corr) (epoch : Int) :
    Forwarded cfg l (l.forwardToWinner cfg t winner w attempt corr epoch) t
      (openKey l.node t winner (some epoch)) w := by
  unfold forwardToWinner
  cases h : w.corrKey t with
  | none =>
    rw [flightOpen_none cfg l winner attempt (some epoch) none h]
    exact .refused h rfl
  | some ck =>
    obtain ⟨r, l₁, heq, ho⟩ := flightOpen_opened cfg l winner attempt (some epoch) none h
    rw [heq]
    refine .joined ck r.2 l₁ h ho ?_
    simp only []
    split
    · exact .of_flights rfl rfl rfl rfl
    next f hf =>
    -- the flight is marked as one of the round, and is otherwise as it was
    refine ⟨fun _ => rfl, rfl, rfl, ?_⟩
    intro k f' hf'
    change (l₁.flights.set _ _).get k = some f' at hf'
    rw [get_set] at hf'
    split at hf'
    · next hk =>
      cases hf'
      rw [hk]
      exact ⟨f, hf, rfl, rfl, le_rfl, Nat.le_max_left _ _, fun _ _ h => h⟩
    · exact ⟨f', hf', .refl f'⟩

theorem openKey_topic (n : Node) (t : TopicId) (root : NodeId) (expected : Option Int) :
    (openKey n t root expected).topic = t := by
  unfold openKey
  split
  · split <;> rfl
  · rfl

/-- A forwarded write that takes its history over is covered. -/
theorem Chained.forwarded (h : l.Chained []) {t : TopicId} {w : Write} (hk : k.topic = t)
    (hf : Forwarded cfg l l' t k w) (hin : ∀ ck ∈ w.corrKey t, l.Inherits k ck) :
    l'.Chained [] := by
  cases hf with
  | refused hw heq => rwa [heq]
  | joined ck e l₁ hw ho hwanes =>
    subst hk
    refine (h.opened ho hw List.not_mem_nil ?_).wanes hwanes
    rcases hin ck hw with hnone | hlive | hthere
    · exact covers_of_empty hnone _ _
    · -- the chain is on record
      obtain ⟨c, hc, hexp⟩ := (Option.any_eq_true _ _).mp hlive
      have hknows := ho.recorded c hc (of_decide_eq_true hexp)
      exact (h.chains ck c hc List.not_mem_nil).mono hknows.count hknows.roots
    · -- the flight has the write
      obtain ⟨f, hf, hhas⟩ := inFlight_iff.mp hthere
      obtain ⟨e₀, he₀⟩ := has_iff.mp hhas
      have hknows := ho.old e₀ (by
        unfold Ledger.flightAt
        rw [hf]
        exact he₀)
      exact (h.entries k f ck e₀ hf he₀).2.mono hknows.count hknows.roots

/-! ### Promotion -/

/-- What is on record once a chain is noted. -/
theorem get_chainNote {ck ck' : CorrKey} {p : Nat} {ts : List NodeId} {c : Chain}
    (h : (l.chainNote ck p ts).chains.get ck' = some c) :
    ck' = ck ∧ c = ⟨p, ts, l.now + flightChainTtlMs⟩ ∨ ck' ≠ ck ∧ l.chains.get ck' = some c := by
  have hset : ((l.chains.delete ck).set ck ⟨p, ts, l.now + flightChainTtlMs⟩).get ck' = some c := by
    unfold chainNote at h
    simp only [] at h
    split at h
    · exact get_of_iterate_dropOldest (j := 1) h
    · exact h
  rw [get_set, get_delete] at hset
  split at hset
  · next hck =>
    cases hset
    exact .inl ⟨hck, rfl⟩
  next hck => exact .inr ⟨hck, hset⟩

/-- The chain of a write is noted while the write is in no flight. -/
theorem Chained.noted {ck : CorrKey} (h : l.Chained (ck :: pending)) {p : Nat} {ts : List NodeId}
    (hcov : l.Covers ck p ts) : (l.chainNote ck p ts).Chained pending where
  keys := h.keys
  names := h.names
  entries k f ck' e hf he := by
    obtain ⟨hno, hcov⟩ := h.entries k f ck' e hf he
    exact ⟨fun hmem => hno (List.mem_cons_of_mem ck hmem), hcov.of_history rfl⟩
  chains ck' c hc hno := by
    rcases get_chainNote hc with ⟨rfl, rfl⟩ | ⟨hne, hold⟩
    · exact hcov.of_history rfl
    · have hnot : ck' ∉ ck :: pending := fun hmem => (List.mem_cons.mp hmem).elim hne hno
      exact (h.chains ck' c hold hnot).of_history rfl

variable {e : CorrKey × FlightEntry} {f : Flight}

/-- **Promotion.** A write that takes along its count and its roots is covered where it goes. -/
theorem Chained.promote (h : l.Chained (e.1 :: pending)) (hno : e.1 ∉ pending) (best : NodeId)
    (hw : e.2.write.corrKey f.topic = some e.1)
    (hcov : l.Covers e.1 (e.2.promotions + 1) (e.2.tried ++ [f.root])) :
    (l.promote cfg f best e.1 e.2).Chained pending := by
  have hnoted := h.noted hcov
  unfold Ledger.promote
  simp only []
  split
  · exact hnoted.wanes (.of_flights rfl rfl rfl rfl)
  obtain ⟨r, l₁, heq, ho⟩ := flightOpen_opened cfg
    (l.chainNote e.1 (e.2.promotions + 1) (e.2.tried ++ [f.root])) best (some e.2.attemptId) none
    (some ⟨e.2.promotions + 1, e.2.tried ++ [f.root], 0⟩) hw
  rw [heq]
  have hknows := ho.given _ rfl
  refine (hnoted.opened ho ?_ hno ?_).wanes (.of_flights rfl rfl rfl rfl)
  · rw [openKey_topic]
    exact hw
  · have hhist : (l.chainNote e.1 (e.2.promotions + 1) (e.2.tried ++ [f.root])).history e.1 =
        l.history e.1 := history_of_journal rfl e.1
    exact (hcov.of_history hhist).mono hknows.count hknows.roots

/-- The writes of an evicted flight are promoted one after the other. -/
theorem Chained.promote_all (best : NodeId) (es : List (CorrKey × FlightEntry))
    (h : l.Chained (es.map Prod.fst)) (hnodup : (es.map Prod.fst).Nodup)
    (hw : ∀ e ∈ es, e.2.write.corrKey f.topic = some e.1)
    (hcov : ∀ e ∈ es, l.Covers e.1 (e.2.promotions + 1) (e.2.tried ++ [f.root])) :
    (es.foldl (fun l e => l.promote cfg f best e.1 e.2) l).Chained [] := by
  induction es generalizing l with
  | nil => exact h
  | cons e es ih =>
    rw [List.map_cons, List.nodup_cons] at hnodup
    rw [List.foldl_cons]
    refine ih ?_ hnodup.2 (fun e' he' => hw e' (List.mem_cons_of_mem e he')) ?_
    · exact h.promote hnodup.1 best (hw e List.mem_cons_self) (hcov e List.mem_cons_self)
    · intro e' he'
      have hj := (@promote_grows cfg l f best e.1 e.2).journal
      exact (hcov e' (List.mem_cons_of_mem e he')).of_history (history_of_journal hj e'.1)

/-! ### Eviction -/

theorem flightEvict_world (cfg : Config) (n : Node) (t : TopicId) (root : NodeId) (epoch : Int) :
    (n.flightEvict t root epoch).world = n.world := by
  have hmoves : Moves cfg (fun _ => True) n (n.flightEvict t root epoch) :=
    Moves.flightEvict trivial trivial
  exact moves_climb (P := fun n n' : Node => n'.world = n.world) (fun _ => rfl)
    (fun h h' => h'.trans h) (fun _ _ h => h.world) hmoves

theorem promoteTo_of_world {n n' : Node} (h : n'.world = n.world) (t : TopicId)
    (excluded : List NodeId) : promoteTo cfg n' t excluded = promoteTo cfg n t excluded := by
  unfold promoteTo
  rw [h]

/-- **Eviction.** The flight goes, the conviction is noted, and the writes whose chain goes on are
promoted. -/
theorem flightEvict_run (cfg : Config) (l : Ledger) (k : FlightKey) (f : Flight) :
    ∃ l₂ : Ledger, l₂.journal = .evicted f l.now :: l.journal ∧
      l₂.flights = l.flights.delete k ∧ l₂.chains = l.chains ∧ l₂.nextNonce = l.nextNonce ∧
      l.flightEvict cfg k f =
        (l.promotes f).foldl (fun m e => m.promote cfg f (l.target cfg f) e.1 e.2) l₂ := by
  unfold flightEvict
  simp only []
  have hworld := flightEvict_world cfg l.node f.topic f.root f.epoch
  set l₁ : Ledger := ({ l with
    flights := l.flights.delete k
    node := l.node.flightEvict f.topic f.root f.epoch } : Ledger).note (.evicted f l.now) with hl₁
  have hnow : l₁.now = l.now := congrArg World.wall hworld
  obtain ⟨frames, hsent⟩ := foldl_send
    (g := fun (l : Ledger) (e : FlightEntry × GivenUp) =>
      l.send (.undeliverable f.topic e.1.write e.2)) (fun _ _ => ⟨_, rfl⟩) l₁
    (f.entries.entries.filterMap fun e => (endsChain e.2 l₁.now).map fun why => (e.2, why))
  rw [hsent]
  refine ⟨{ l₁ with sent := frames }, rfl, rfl, rfl, rfl, ?_⟩
  have hrest : (f.entries.entries.filter fun e =>
      (endsChain e.2 ({ l₁ with sent := frames } : Ledger).now).isNone) = l.promotes f := by
    unfold promotes
    rw [← hnow]
    rfl
  rw [hrest]
  have htarget : promoteTo cfg ({ l₁ with sent := frames } : Ledger).node f.topic
      (f.root :: (l.promotes f).flatMap fun e => e.2.tried) = l.target cfg f := by
    exact promoteTo_of_world hworld f.topic _
  rw [htarget]

theorem promotes_lt (h : e ∈ l.promotes f) : e.2.promotions < flightMaxPromotions := by
  have hgoes := (List.mem_filter.mp h).2
  by_contra hcap
  unfold endsChain at hgoes
  rw [if_pos (not_lt.mp hcap)] at hgoes
  cases hgoes

theorem get_of_promotes (h : e ∈ l.promotes f) : f.entries.get e.1 = some e.2 :=
  get_of_mem (List.mem_filter.mp h).1

theorem promotes_nodup (l : Ledger) (f : Flight) : ((l.promotes f).map Prod.fst).Nodup :=
  f.entries.keys_nodup.sublist (List.filter_sublist.map Prod.fst)

theorem history_flightEvict (l : Ledger) (k : FlightKey) (f : Flight) (ck : CorrKey) :
    (l.flightEvict cfg k f).history ck =
      ({ l with journal := .evicted f l.now :: l.journal } : Ledger).history ck := by
  obtain ⟨l₁, -, -, hj, hg⟩ := flightEvict_spec cfg l k f
  refine history_of_journal ?_ ck
  rw [hg.journal, hj]

/-- An evicted flight whose writes are in no other flight leaves all of them covered. -/
theorem Chained.evicted (h : l.Chained []) (hf : l.flights.get k = some f)
    (halone : ∀ e ∈ l.promotes f, ∀ k', l.InFlight k' e.1 = true → k' = k) :
    (l.flightEvict cfg k f).Chained [] := by
  obtain ⟨l₂, hj, hflights, hchains, -, heq⟩ := flightEvict_run cfg l k f
  have hget {k' : FlightKey} {f' : Flight} (hf' : l₂.flights.get k' = some f') :
      k' ≠ k ∧ l.flights.get k' = some f' := by
    rw [hflights, get_delete] at hf'
    split at hf'
    · cases hf'
    next hk => exact ⟨hk, hf'⟩
  rw [heq]
  refine Chained.promote_all _ _ ⟨?_, ?_, ?_, ?_⟩ (l.promotes_nodup f) ?_ ?_
  · exact fun k' f' hf' => h.keys k' f' (hget hf').2
  · exact fun k' f' ck e hf' he => h.names k' f' ck e (hget hf').2 he
  · intro k' f' ck e hf' he
    obtain ⟨hk, hold⟩ := hget hf'
    have hno : ck ∉ (l.promotes f).map Prod.fst := by
      intro hmem
      obtain ⟨e', he', rfl⟩ := List.mem_map.mp hmem
      refine hk (halone e' he' k' ?_)
      exact inFlight_iff.mpr ⟨f', hold, has_iff.mpr ⟨e, he⟩⟩
    exact ⟨hno, (h.entries k' f' ck e hold he).2.of_history (history_not_promoted hj hno)⟩
  · intro ck c hc hno
    rw [hchains] at hc
    exact (h.chains ck c hc List.not_mem_nil).of_history (history_not_promoted hj hno)
  · intro e he
    rw [show f.topic = k.topic from congrArg FlightKey.topic (h.keys k f hf)]
    exact h.names k f e.1 e.2 hf (get_of_promotes he)
  · intro e he
    have hcov := (h.entries k f e.1 e.2 hf (get_of_promotes he)).2
    have hhist := history_promoted hj he
    refine ⟨?_, ?_⟩
    · rw [hhist, List.length_cons]
      exact Nat.succ_le_succ hcov.count
    · rw [hhist]
      refine List.cons_subset.mpr ⟨?_, ?_⟩
      · exact List.mem_append_right _ (List.mem_singleton_self _)
      · exact List.Subset.trans hcov.roots (List.subset_append_left _ _)

/-- No write was promoted too often. -/
def Capped (l : Ledger) : Prop := ∀ ck, (l.history ck).length ≤ flightMaxPromotions

theorem Capped.of_history (h : l.Capped) (heq : ∀ ck, l'.history ck = l.history ck) :
    l'.Capped := by
  intro ck
  rw [heq]
  exact h ck

theorem Capped.evicted (h : l.Capped) (hc : l.Chained []) (hf : l.flights.get k = some f) :
    (l.flightEvict cfg k f).Capped := by
  intro ck
  rw [history_flightEvict]
  by_cases hmem : ck ∈ (l.promotes f).map Prod.fst
  · obtain ⟨e, he, rfl⟩ := List.mem_map.mp hmem
    have hcov := (hc.entries k f e.1 e.2 hf (get_of_promotes he)).2
    rw [history_promoted rfl he, List.length_cons]
    exact Nat.succ_le_of_lt (hcov.count.trans_lt (promotes_lt he))
  · rw [history_not_promoted rfl hmem]
    exact h ck

/-- The target is this node or none of the nodes that are left out. -/
theorem promoteTo_spec (cfg : Config) (n : Node) (t : TopicId) (excluded : List NodeId) :
    promoteTo cfg n t excluded = cfg.nodeId ∨ promoteTo cfg n t excluded ∉ excluded := by
  unfold promoteTo
  have hfold (ns : List NodeId) (x : NodeId) :
      ns.foldl (Node.nearer t) x = x ∨ ns.foldl (Node.nearer t) x ∈ ns := by
    induction ns generalizing x with
    | nil => exact .inl rfl
    | cons y ys ih =>
      rw [List.foldl_cons]
      rcases ih (Node.nearer t x y) with h | h
      · rw [h]
        unfold Node.nearer
        split
        · exact .inr List.mem_cons_self
        · exact .inl rfl
      · exact .inr (List.mem_cons_of_mem y h)
  rcases hfold _ cfg.nodeId with h | h
  · exact .inl h
  have hallowed := (List.mem_filter.mp h).2
  simp only [Bool.and_eq_true, decide_eq_true_eq] at hallowed
  exact .inr hallowed.2

/-! ### The sweep -/

/-- A flight is evicted when it is probed or out of rounds. -/
theorem sweepAt_evicted (cfg : Config) (hs : l.OnTime) (h : l.evictedAt k = some f) :
    l.flights.get k = some f ∧ l.sweepAt cfg k = l.flightEvict cfg k f := by
  obtain ⟨hf, hdue⟩ := Option.filter_eq_some_iff.mp h
  simp only [Bool.and_eq_true, Bool.or_eq_true, decide_eq_true_eq] at hdue
  refine ⟨hf, ?_⟩
  have hfirst := (hs k f hf).first
  unfold sweepAt
  rw [hf]
  simp only []
  rw [if_neg (not_lt.mpr hdue.1)]
  cases hstage : f.stage with
  | probing => rfl
  | awaitAck =>
    -- a first round has no probe behind it
    have hrounds := hdue.2.resolve_left (by rw [hstage]; nofun)
    rw [hfirst hstage] at hrounds
    cases hrounds
  | retrying =>
    have hrounds := hdue.2.resolve_left (by rw [hstage]; nofun)
    cases f.merge with
    | none =>
      rw [if_pos hrounds]
    | some corr =>
      simp only [reduceCtorEq, false_and, if_false]
      rw [if_pos hrounds]

/-- Any other flight is left alone, or probed. -/
theorem sweepAt_wanes (h : l.evictedAt k = none) : l.Wanes (l.sweepAt cfg k) := by
  have hkept : ∀ f, l.flights.get k = some f → f.deadline ≤ l.now →
      ¬(f.stage = .probing ∨ flightMaxRounds ≤ f.rounds) := by
    intro f hf hdue hstage
    unfold evictedAt at h
    rw [hf, Option.filter_some, if_pos] at h
    · cases h
    · simpa using ⟨hdue, hstage⟩
  have hprobe (l₀ : Ledger) (f : Flight) (hf : l.flights.get k = some f)
      (hrounds : ¬flightMaxRounds ≤ f.rounds) (h₀ : l.Wanes l₀)
      (hf₀ : l₀.flights = l.flights) : l.Wanes (l₀.probe k f) := by
    unfold probe
    split
    · refine h₀.trans ⟨fun _ => rfl, rfl, rfl, ?_⟩
      intro k' f' hf'
      exact ⟨f', get_of_deleted rfl hf', .refl f'⟩
    next ck e hhead =>
    refine h₀.trans ⟨fun _ => rfl, rfl, rfl, ?_⟩
    intro k' f' hf'
    rcases get_of_probed (f := f) rfl hf' with ⟨rfl, rfl⟩ | hold
    · rw [hf₀]
      refine ⟨f, hf, rfl, rfl, Nat.le_succ _, ?_, fun _ _ h => h⟩
      show f.rounds + 1 ≤ max f.rounds flightMaxRounds
      omega
    · exact ⟨f', hold, .refl f'⟩
  unfold sweepAt
  split
  · exact .refl l
  next f hf =>
  split
  · exact .refl l
  next hdue =>
  obtain ⟨hstage, hrounds⟩ := not_or.mp (hkept f hf (not_lt.mp hdue))
  have hround (l₀ : Ledger) (h₀ : l.Wanes l₀) (hf₀ : l₀.flights = l.flights) :
      l.Wanes (if flightMaxRounds ≤ f.rounds then l₀.flightEvict cfg k f else l₀.probe k f) := by
    rw [if_neg hrounds]
    exact hprobe l₀ f hf hrounds h₀ hf₀
  split
  next hprobing => exact absurd hprobing hstage
  all_goals
    cases f.merge with
    | none => exact hround l (.refl l) rfl
    | some corr =>
      -- the round of the merge may end, which is no matter of the flights
      by_cases hfirst : f.stage = Stage.awaitAck ∧ f.rounds = 0
      · simp only [if_pos hfirst]
        exact hround { l with node := l.node.winnerSilent f.topic corr }
          (.of_flights rfl rfl rfl rfl) rfl
      · simp only [if_neg hfirst]
        exact hround l (.refl l) rfl

/-! ### Steps of a bounded chain -/

/-- Flights are sound, chains are covered, and no write was promoted too often. -/
structure Covered (l : Ledger) : Prop where
  onTime : l.OnTime
  chained : l.Chained []
  capped : l.Capped

theorem Covered.boot (w : World) : (Ledger.boot w).Covered where
  onTime := boot_onTime w
  chained := by
    refine ⟨?_, ?_, ?_, ?_⟩
    · rintro k f ⟨⟩
    · rintro k f ck e ⟨⟩
    · rintro k f ck e ⟨⟩
    · rintro ck c ⟨⟩
  capped _ := Nat.zero_le _

section

variable (h : l.Covered)
include h

theorem Covered.wanes (hw : l.Wanes l') (hs : l'.OnTime) : l'.Covered :=
  ⟨hs, h.chained.wanes hw, h.capped.of_history hw.history⟩

/-- **A visit of the sweep**, to a flight whose writes are in no other flight. -/
theorem Covered.visit (halone : l.Alone k) : (l.sweepAt cfg k).Covered := by
  have hs : (l.sweepAt cfg k).OnTime := h.onTime.swept (sweepAt_spec cfg l k)
  cases hev : l.evictedAt k with
  | none => exact h.wanes (sweepAt_wanes hev) hs
  | some f =>
    obtain ⟨hf, heq⟩ := sweepAt_evicted cfg h.onTime hev
    refine ⟨hs, ?_, ?_⟩
    · rw [heq]
      refine h.chained.evicted hf ?_
      intro e he k' hin
      obtain ⟨f', hf', -⟩ := inFlight_iff.mp hin
      have hkey : k' ∈ l.flights.keys := has_iff_mem_keys.mp (has_iff.mpr ⟨f', hf'⟩)
      exact halone f hev e he k' hkey hin
    · rw [heq]
      exact h.capped.evicted h.chained hf

theorem Covered.anew (k : FlightKey) : l.Anew cfg k := by
  intro f hev e he hself
  obtain ⟨hf, heq⟩ := sweepAt_evicted cfg h.onTime hev
  have hout : l.target cfg f ∉ f.root :: (l.promotes f).flatMap fun e => e.2.tried :=
    (promoteTo_spec cfg l.node f.topic _).resolve_left hself
  rw [List.mem_cons, not_or] at hout
  have htried : l.target cfg f ∉ e.2.tried := fun hmem =>
    hout.2 (List.mem_flatMap.mpr ⟨e, he, hmem⟩)
  have hcov := (h.chained.entries k f e.1 e.2 hf (get_of_promotes he)).2
  refine ⟨htried, ?_⟩
  rw [heq, history_flightEvict, history_promoted rfl he, List.mem_cons, not_or]
  exact ⟨hout.1, fun hmem => htried (hcov.roots hmem)⟩

/-- A forwarded write takes its history over. -/
theorem Covered.forwarded {t : TopicId} {w : Write} (hk : k.topic = t)
    (hf : Forwarded cfg l l' t k w) (hg : l.Grows l') (hin : ∀ ck ∈ w.corrKey t, l.Inherits k ck) :
    l'.Covered :=
  ⟨h.onTime.grows hg, h.chained.forwarded hk hf hin,
    h.capped.of_history (history_of_journal hg.journal)⟩

/-- **A step.** -/
theorem Covered.step (a : World × FlightAct) (ha : l.Inherited cfg a) :
    (l.step cfg a).Covered := by
  have hs : (l.step cfg a).OnTime := h.onTime.step a
  obtain ⟨w, a⟩ := a
  have hw : (l.seeing w).Covered := h.wanes (.of_flights rfl rfl rfl rfl) h.onTime
  cases a with
  | node a => exact h.wanes (.of_flights rfl rfl rfl rfl) hs
  | forward t root w' attempt =>
    exact hw.forwarded (openKey_topic ..) (forwardToRoot_forwarded (l.seeing w) t root w' attempt)
      (forwardToRoot_grows ..) ha
  | forwardWinner t winner w' attempt corr e =>
    exact hw.forwarded (openKey_topic ..)
      (forwardToWinner_forwarded (l.seeing w) t winner w' attempt corr e)
      (forwardToWinner_grows ..) ha
  | ack ck sender epoch =>
    exact hw.wanes (foldl_wanes (fun l k => completeAt_wanes l ck sender epoch k) _ _) hs
  | proof p => exact hw.wanes (foldl_wanes (fun l k => completeSignedAt_wanes l p k) _ _) hs
  | sweep => exact EachStep.invariant (fun _ _ hm halone => hm.visit halone) hw ha
  | nack t => exact hw.wanes (foldl_wanes (fun l k => retryAt_wanes l t k) _ _) hs

theorem Covered.bounded (a : World × FlightAct) (ha : l.Inherited cfg a) :
    l.Bounded cfg a := by
  refine ⟨(h.step a ha).capped, ?_⟩
  obtain ⟨w, a⟩ := a
  rintro rfl
  have hw : (l.seeing w).Covered := h.wanes (.of_flights rfl rfl rfl rfl) h.onTime
  exact EachStep.safety (fun _ _ hm halone => hm.visit halone) (fun _ k hm _ => hm.anew k) hw ha

end

/-! ### Generations of flights -/

/-- Flights come and go. One that is there before and after is of the same generation and no fewer
rounds; any other one is of a new generation. -/
structure Ages (l l' : Ledger) : Prop where
  next : l.nextNonce ≤ l'.nextNonce
  flights : ∀ k f', l'.flights.get k = some f' →
    (∃ f, l.flights.get k = some f ∧ f'.flightNonce = f.flightNonce ∧ f.rounds ≤ f'.rounds ∧
      f'.rounds ≤ max f.rounds flightMaxRounds) ∨
    l.nextNonce ≤ f'.flightNonce ∧ f'.flightNonce < l'.nextNonce ∧ f'.rounds ≤ flightMaxRounds

theorem Ages.refl (l : Ledger) : l.Ages l :=
  ⟨le_rfl, fun _ f h => .inl ⟨f, h, rfl, le_rfl, Nat.le_max_left _ _⟩⟩

theorem Ages.trans (h : l.Ages l') (h' : l'.Ages l'') : l.Ages l'' := by
  refine ⟨h.next.trans h'.next, ?_⟩
  intro k f'' hf''
  have hnext := h'.next
  rcases h'.flights k f'' hf'' with ⟨f', hf', hn', hr', hm'⟩ | ⟨hge, hlt, hr⟩
  · rcases h.flights k f' hf' with ⟨f, hf, hn, hr, hm⟩ | ⟨hge, hlt, hr⟩
    · refine .inl ⟨f, hf, hn'.trans hn, hr.trans hr', ?_⟩
      omega
    · refine .inr ⟨?_, ?_, ?_⟩
      · omega
      · omega
      · omega
  · exact .inr ⟨h.next.trans hge, hlt, hr⟩

theorem Wanes.ages (h : l.Wanes l') : l.Ages l' := by
  refine ⟨h.next.ge, ?_⟩
  intro k f' hf'
  obtain ⟨f, hf, hw⟩ := h.flights k f' hf'
  exact .inl ⟨f, hf, hw.nonce, hw.rounds, hw.most⟩

theorem Joins.ages (h : l.Joins l') : l.Ages l' := by
  refine ⟨h.next, ?_⟩
  intro k f' hf'
  cases hold : l.flights.get k with
  | none =>
    obtain ⟨hge, hlt, hr⟩ := h.born k f' hold hf'
    exact .inr ⟨hge, hlt, hr.le.trans (Nat.zero_le _)⟩
  | some f =>
    obtain ⟨f₂, hf₂, hn, hr⟩ := h.kept k f hold
    cases hf'.symm.trans hf₂
    exact .inl ⟨f, rfl, hn, hr.ge, hr.le.trans (Nat.le_max_left _ _)⟩

theorem Forwarded.ages {t : TopicId} {w : Write} (h : Forwarded cfg l l' t k w) : l.Ages l' := by
  cases h with
  | refused h heq =>
    rw [heq]
    exact .refl l
  | joined ck e l₁ h ho hw => exact ho.joins.ages.trans hw.ages

/-- The promotions of an evicted flight join other flights. -/
theorem flightEvict_joins (cfg : Config) (l : Ledger) (k : FlightKey) (f : Flight) :
    ∃ l₂ : Ledger, l₂.flights = l.flights.delete k ∧ l₂.nextNonce = l.nextNonce ∧
      l₂.Joins (l.flightEvict cfg k f) := by
  obtain ⟨l₂, -, hflights, -, hn, heq⟩ := flightEvict_run cfg l k f
  refine ⟨l₂, hflights, hn, ?_⟩
  rw [heq]
  exact run_climbs Joins.refl Joins.trans (fun m e => promote_joins m f _ e) l₂ (l.promotes f)

theorem flightEvict_ages (cfg : Config) (l : Ledger) (k : FlightKey) (f : Flight) :
    l.Ages (l.flightEvict cfg k f) := by
  obtain ⟨l₂, hflights, hn, hjoins⟩ := flightEvict_joins cfg l k f
  have hgone : l.Ages l₂ := by
    refine ⟨hn.ge, ?_⟩
    intro k' f' hf'
    exact .inl ⟨f', get_of_deleted hflights hf', rfl, le_rfl, Nat.le_max_left _ _⟩
  exact hgone.trans hjoins.ages

theorem OnTime.sweepAt_ages (cfg : Config) (hs : l.OnTime) (k : FlightKey) :
    l.Ages (l.sweepAt cfg k) := by
  cases hev : l.evictedAt k with
  | none => exact (sweepAt_wanes hev).ages
  | some f =>
    rw [(sweepAt_evicted cfg hs hev).2]
    exact flightEvict_ages cfg l k f

theorem sweep_ages (hs : l.OnTime) (ks : List FlightKey) :
    l.Ages (ks.foldl (fun l k => l.sweepAt cfg k) l) := by
  have h := @run_invariant _ _ (fun l k => l.sweepAt cfg k) (fun m => m.OnTime ∧ l.Ages m) l
    (fun m k hm => ⟨hm.1.swept (sweepAt_spec cfg m k), hm.2.trans (hm.1.sweepAt_ages cfg k)⟩)
    ⟨hs, .refl l⟩ ks
  exact h.2

theorem OnTime.step_ages (h : l.OnTime) (a : World × FlightAct) : l.Ages (l.step cfg a) := by
  obtain ⟨w, a⟩ := a
  have hw : l.Ages (l.seeing w) := Wanes.ages (.of_flights rfl rfl rfl rfl)
  cases a with
  | node a => exact Wanes.ages (.of_flights rfl rfl rfl rfl)
  | forward t root w' attempt =>
    exact hw.trans (forwardToRoot_forwarded (l.seeing w) t root w' attempt).ages
  | forwardWinner t winner w' attempt corr e =>
    exact hw.trans (forwardToWinner_forwarded (l.seeing w) t winner w' attempt corr e).ages
  | ack ck sender epoch =>
    exact hw.trans (foldl_wanes (fun l k => completeAt_wanes l ck sender epoch k) _ _).ages
  | proof p => exact hw.trans (foldl_wanes (fun l k => completeSignedAt_wanes l p k) _ _).ages
  | sweep => exact hw.trans (sweep_ages (l := l.seeing w) h _)
  | nack t => exact hw.trans (foldl_wanes (fun l k => retryAt_wanes l t k) _ _).ages

/-- Every flight is of a generation given out before, and has no more rounds than there are. -/
def Aged (l : Ledger) : Prop :=
  ∀ k f, l.flights.get k = some f → f.flightNonce < l.nextNonce ∧ f.rounds ≤ flightMaxRounds

theorem Aged.ages (h : l.Aged) (ha : l.Ages l') : l'.Aged := by
  intro k f' hf'
  rcases ha.flights k f' hf' with ⟨f, hf, hn, -, hm⟩ | ⟨-, hlt, hr⟩
  · obtain ⟨hlt, hr⟩ := h k f hf
    refine ⟨?_, hm.trans (max_le hr le_rfl)⟩
    rw [hn]
    exact hlt.trans_le ha.next
  · exact ⟨hlt, hr⟩

/-- How far the flight of generation `ν` under `k` has come: its rounds as long as it is there, and
past all of them once it is gone. -/
def progress (k : FlightKey) (ν : Nat) (l : Ledger) : Nat :=
  match (l.flights.get k).filter fun f => f.flightNonce = ν with
  | some f => f.rounds
  | none => if ν < l.nextNonce then flightMaxRounds + 1 else 0

theorem progress_there {ν : Nat} (hf : l.flights.get k = some f) (hν : f.flightNonce = ν) :
    l.progress k ν = f.rounds := by
  unfold progress
  rw [hf, Option.filter_some, if_pos (decide_eq_true hν)]

theorem progress_gone {ν : Nat} (hno : ∀ f, l.flights.get k = some f → f.flightNonce ≠ ν) :
    l.progress k ν = if ν < l.nextNonce then flightMaxRounds + 1 else 0 := by
  unfold progress
  have hnone : ((l.flights.get k).filter fun f => f.flightNonce = ν) = none := by
    rw [Option.filter_eq_none_iff]
    intro f hf
    simpa using hno f hf
  rw [hnone]

/-- A flight is there, with a generation given out, or gone. -/
theorem Aged.progress_cases (h : l.Aged) (k : FlightKey) (ν : Nat) :
    (∃ f, l.flights.get k = some f ∧ f.flightNonce = ν ∧ ν < l.nextNonce ∧
      l.progress k ν = f.rounds ∧ f.rounds ≤ flightMaxRounds) ∨
    (∀ f, l.flights.get k = some f → f.flightNonce ≠ ν) ∧
      l.progress k ν = if ν < l.nextNonce then flightMaxRounds + 1 else 0 := by
  by_cases hthere : ∃ f, l.flights.get k = some f ∧ f.flightNonce = ν
  · obtain ⟨f, hf, rfl⟩ := hthere
    obtain ⟨hlt, hr⟩ := h k f hf
    exact .inl ⟨f, hf, rfl, hlt, progress_there hf rfl, hr⟩
  · have hno : ∀ f, l.flights.get k = some f → f.flightNonce ≠ ν :=
      fun f hf hν => hthere ⟨f, hf, hν⟩
    exact .inr ⟨hno, progress_gone hno⟩

/-- A flight that is gone does not come back, and one that is there has no fewer rounds. -/
theorem Aged.progress_le (h : l.Aged) (ha : l.Ages l') (k : FlightKey) (ν : Nat) :
    l.progress k ν ≤ l'.progress k ν := by
  have hnext := ha.next
  rcases h.progress_cases k ν with ⟨f, hf, hν, hlt, heq, hr⟩ | ⟨hno, heq⟩
  · rcases (h.ages ha).progress_cases k ν with ⟨f', hf', hν', -, heq', -⟩ | ⟨-, heq'⟩
    · rw [heq, heq']
      rcases ha.flights k f' hf' with ⟨f₀, hf₀, -, hle, -⟩ | ⟨hge, -, -⟩
      · cases hf.symm.trans hf₀
        exact hle
      · omega
    · rw [heq, heq', if_pos (hlt.trans_le hnext)]
      exact hr.trans (Nat.le_succ _)
  · rw [heq]
    split
    · next hlt =>
      rcases (h.ages ha).progress_cases k ν with ⟨f', hf', hν', -, heq', -⟩ | ⟨-, heq'⟩
      · -- the flight would have come back
        rcases ha.flights k f' hf' with ⟨f₀, hf₀, hn, -, -⟩ | ⟨hge, -, -⟩
        · exact absurd (hn.symm.trans hν') (hno f₀ hf₀)
        · omega
      · rw [heq', if_pos (hlt.trans_le hnext)]
    · exact Nat.zero_le _

/-! ### Overdue flights -/

/-- The flight of generation `ν` under `k` has had `r` rounds, and is overdue. -/
def Overdue (k : FlightKey) (ν r : Nat) (l : Ledger) : Prop :=
  ∃ f, l.flights.get k = some f ∧ f.flightNonce = ν ∧ f.rounds = r ∧ f.deadline ≤ l.now

/-- A visit to another flight leaves it so. -/
theorem Overdue.visit_other (hs : l.OnTime) {k' : FlightKey} {ν r : Nat} (h : l.Overdue k ν r)
    (hk : k ≠ k') : (l.sweepAt cfg k').Overdue k ν r := by
  obtain ⟨f, hf, hν, hr, hdue⟩ := h
  cases sweepAt_spec cfg l k' with
  | idle hidle heq =>
    rw [heq]
    exact ⟨f, hf, hν, hr, hdue⟩
  | empty f₀ hf₀ hdue₀ hnow hj hflights =>
    refine ⟨f, ?_, hν, hr, hnow ▸ hdue⟩
    rw [hflights, get_delete, if_neg hk]
    exact hf
  | probed f₀ ck hf₀ hdue₀ hin hnow hj hflights =>
    refine ⟨f, ?_, hν, hr, hnow ▸ hdue⟩
    rw [hflights, get_set, if_neg hk]
    exact hf
  | evicted f₀ l₁ hf₀ hdue₀ hstage hnow hj hflights hg =>
    have hf₁ : l₁.flights.get k = some f := by
      rw [hflights, get_delete, if_neg hk]
      exact hf
    obtain ⟨f', hf', hgrows⟩ := hg.kept k f hf₁
    -- the flight is of the generation it was of
    have hev : l.evictedAt k' = some f₀ := by
      unfold evictedAt
      rw [hf₀, Option.filter_some, if_pos]
      simpa using ⟨hdue₀, hstage⟩
    obtain ⟨l₂, hflights₂, -, hjoins⟩ := flightEvict_joins cfg l k' f₀
    have hf₂ : l₂.flights.get k = some f := by
      rw [hflights₂, get_delete, if_neg hk]
      exact hf
    obtain ⟨f'', hf'', hn, -⟩ := hjoins.kept k f hf₂
    rw [← (sweepAt_evicted cfg hs hev).2] at hf''
    cases hf'.symm.trans hf''
    refine ⟨f', hf', hn.trans hν, hgrows.rounds.trans hr, ?_⟩
    rw [hgrows.deadline, hg.now, hnow]
    exact hdue

/-- **A visit to an overdue flight** is one more round for it, or its end. -/
theorem Overdue.visit (hs : l.OnTime) (ha : l.Aged) {ν r : Nat} (h : l.Overdue k ν r) :
    r + 1 ≤ (l.sweepAt cfg k).progress k ν := by
  obtain ⟨f, hf, hν, rfl, hdue⟩ := h
  obtain ⟨hlt, hr⟩ := ha k f hf
  have hnext := (hs.sweepAt_ages cfg k).next
  have hgone (hno : ∀ f', (l.sweepAt cfg k).flights.get k = some f' → f'.flightNonce ≠ ν) :
      f.rounds + 1 ≤ (l.sweepAt cfg k).progress k ν := by
    rw [progress_gone hno, if_pos (by omega)]
    exact Nat.succ_le_succ hr
  cases sweepAt_spec cfg l k with
  | idle hidle heq => exact absurd (hidle f hf) (not_lt.mpr hdue)
  | empty f₀ hf₀ hdue₀ hnow hj hflights =>
    refine hgone ?_
    intro f' hf'
    rw [hflights, get_delete, if_pos rfl] at hf'
    cases hf'
  | probed f₀ ck hf₀ hdue₀ hin hnow hj hflights =>
    cases hf.symm.trans hf₀
    have hget : (l.sweepAt cfg k).flights.get k = some (f.probed ck l.now) := by
      rw [hflights, get_set, if_pos rfl]
    exact (progress_there hget hν).ge
  | evicted f₀ l₁ hf₀ hdue₀ hstage hnow hj hflights hg =>
    refine hgone ?_
    intro f' hf'
    have hev : l.evictedAt k = some f₀ := by
      unfold evictedAt
      rw [hf₀, Option.filter_some, if_pos]
      simpa using ⟨hdue₀, hstage⟩
    rw [(sweepAt_evicted cfg hs hev).2] at hf'
    obtain ⟨l₂, hflights₂, hn, hjoins⟩ := flightEvict_joins cfg l k f₀
    have hnone : l₂.flights.get k = none := by
      rw [hflights₂, get_delete, if_pos rfl]
    obtain ⟨hge, -, -⟩ := hjoins.born k f' hnone hf'
    omega

/-- A sweep comes by every flight. -/
theorem Overdue.sweep (hs : l.OnTime) (ha : l.Aged) {ν r : Nat} (h : l.Overdue k ν r)
    {ks : List FlightKey} (hk : k ∈ ks) :
    r + 1 ≤ (ks.foldl (fun l k => l.sweepAt cfg k) l).progress k ν := by
  induction ks generalizing l with
  | nil => cases hk
  | cons k' ks ih =>
    rw [List.foldl_cons]
    have hs' : (l.sweepAt cfg k').OnTime := hs.swept (sweepAt_spec cfg l k')
    have ha' : (l.sweepAt cfg k').Aged := ha.ages (hs.sweepAt_ages cfg k')
    by_cases heq : k = k'
    · subst heq
      exact (h.visit hs ha).trans (ha'.progress_le (sweep_ages hs' ks) k ν)
    · exact ih hs' ha' (h.visit_other hs heq) ((List.mem_cons.mp hk).resolve_left heq)

/-- A flight that sweeps find overdue more often than it has rounds is gone. -/
theorem gone_of_due (w : World) (as : List (World × FlightAct)) (k : FlightKey) (ν : Nat)
    (h : flightMaxRounds < stepCount (Ledger.step cfg) (Ledger.due k ν) (Ledger.boot w) as) :
    ∀ f, (run (Ledger.step cfg) (Ledger.boot w) as).flights.get k = some f → f.flightNonce ≠ ν := by
  have hstep (l : Ledger) (a : World × FlightAct) (hl : l.OnTime ∧ l.Aged) :
      (l.step cfg a).OnTime ∧ (l.step cfg a).Aged :=
    ⟨hl.1.step a, hl.2.ages (hl.1.step_ages a)⟩
  have hboot : (Ledger.boot w).OnTime ∧ (Ledger.boot w).Aged := by
    refine ⟨boot_onTime w, ?_⟩
    rintro k f ⟨⟩
  have hle := min_le_run (b := flightMaxRounds + 1) (p := Ledger.due k ν) (f := progress k ν)
    hstep (fun l a hl => hl.2.progress_le (hl.1.step_ages a) k ν) ?_ hboot as
  · intro f hf hν
    obtain ⟨-, hr⟩ := (run_invariant hstep hboot as).2 k f hf
    rw [progress_there hf hν] at hle
    omega
  · rintro l ⟨w', a⟩ ⟨hs, ha⟩ hdue
    refine .inl ?_
    cases a with
    | sweep =>
      obtain ⟨f, hf, hdue⟩ := (Option.any_eq_true _ _).mp hdue
      simp only [Bool.and_eq_true, decide_eq_true_eq] at hdue
      rw [progress_there hf hdue.1]
      have hover : (l.seeing w').Overdue k ν f.rounds := ⟨f, hf, hdue.1, rfl, hdue.2⟩
      exact hover.sweep (l := l.seeing w') hs ha (has_iff_mem_keys.mp (has_iff.mpr ⟨f, hf⟩))
    | _ => cases hdue

end Ledger

/-- **A write chain is bounded.** In every run in which a forwarded write takes its history over
and an evicted write is in one flight only, no write is promoted more often than
`flightMaxPromotions`, and none is promoted to a node that it was promoted past. And in every run, a
flight that `flightMaxRounds + 1` sweeps find overdue is gone. -/
theorem chains_bounded (w : World) (as : List (World × FlightAct)) :
    (EachStep (Ledger.step cfg) (Ledger.Inherited cfg) (Ledger.boot w) as →
      EachStep (Ledger.step cfg) (Ledger.Bounded cfg) (Ledger.boot w) as) ∧
    ∀ k ν, flightMaxRounds < stepCount (Ledger.step cfg) (Ledger.due k ν) (Ledger.boot w) as →
      ∀ f, (run (Ledger.step cfg) (Ledger.boot w) as).flights.get k = some f →
        f.flightNonce ≠ ν := by
  refine ⟨?_, Ledger.gone_of_due w as⟩
  exact EachStep.safety (fun _ a h ha => h.step a ha) (fun _ a h ha => h.bounded a ha)
    (Ledger.Covered.boot w)

/-- Three neighbours between the sample's root and this node. -/
def neighboursAt (now : Int) : World :=
  { sampleWorld now with
    neighbors := some [sampleTopicId ^^^ 2, sampleTopicId ^^^ 3, sampleTopicId ^^^ 4] }

/-- A write towards a root that does not answer, and neighbours that do not answer either. -/
def unansweredRun : List (World × FlightAct) :=
  (neighboursAt 0, .forward sampleTopicId sampleRoot (.pub (samplePost 1 1)) none) ::
    [4000, 7000, 11000, 14000, 18000, 21000, 25000, 28000].map fun now => (neighboursAt now, .sweep)

/-- The write is promoted past the root and the three neighbours, and no further. -/
theorem chains_bounded_one :
    EachStep (Ledger.step sampleConfig) (Ledger.Bounded sampleConfig)
        (Ledger.boot (neighboursAt 0)) unansweredRun ∧
      ((run (Ledger.step sampleConfig) (Ledger.boot (neighboursAt 0)) unansweredRun).history
        (sampleKey 1)).length = 4 :=
  ⟨(chains_bounded (neighboursAt 0) unansweredRun).1 (by decide +kernel), by decide +kernel⟩

/-- The root changes while the write is in flight, and the write is forwarded once more: two
flights, each of which counts from nothing. The write is promoted five times. -/
theorem promoted_five_times :
    ¬∀ (w : World) (as : List (World × FlightAct)),
      Throughout (Ledger.step sampleConfig) (fun l => l.chains.size < flightChainMax)
        (Ledger.boot w) as →
      EachStep (Ledger.step sampleConfig) (Ledger.Bounded sampleConfig) (Ledger.boot w) as := by
  intro h
  let twice : List (World × FlightAct) :=
    (neighboursAt 0, .forward sampleTopicId sampleRival (.pub (samplePost 1 1)) none) ::
      unansweredRun
  have hbounded := h (neighboursAt 0) twice (by decide +kernel)
  have hcapped : (run (Ledger.step sampleConfig) (Ledger.boot (neighboursAt 0)) twice).Capped :=
    hbounded.invariant (I := Ledger.Capped) (fun _ _ _ hb => hb.promotions)
      (Ledger.Covered.boot (neighboursAt 0)).capped
  have hfive : ((run (Ledger.step sampleConfig) (Ledger.boot (neighboursAt 0)) twice).history
      (sampleKey 1)).length = 5 := by decide +kernel
  have hcap := hcapped (sampleKey 1)
  rw [hfive] at hcap
  exact absurd hcap (by decide)

end Axona
