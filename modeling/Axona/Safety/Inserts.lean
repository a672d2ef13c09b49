import Axona.Dht.Inserts
import Axona.Library.Transition
import Axona.Safety.Gate

/-! # The cap, and calls that go on

A call tests the table before it waits and enters its peer after. The table keeps its cap, and no
synapse is replaced by a fresh one, exactly where every call that goes on finds room, and its peer
not entered meanwhile. No call enters the node itself. -/

namespace Axona

open Library Synaptome

namespace Synaptome

theorem size_set_new {t : Synaptome} {key : TableKey} (h : t.has key = false) (x : Synapse) :
    (OrderedMap.set t key x).size = t.size + 1 := by
  have hget : t.get key = none := Option.not_isSome_iff_eq_none.mp (Bool.eq_false_iff.mp h)
  have hlength := (OrderedMap.entries_set_perm t key x).length_eq
  rw [OrderedMap.delete_of_get_none hget, List.length_cons] at hlength
  exact hlength

theorem size_delete_le (t : Synaptome) (key : TableKey) :
    (OrderedMap.delete t key).size ≤ t.size := List.length_filter_le _ _

theorem size_offer {c : GateNode} {g : AdmissionGate} (w : Surroundings) (now : Int) (s : NodeId)
    (h : g.synaptome.size ≤ c.cap) : (g.offer c w now s).synaptome.size ≤ c.cap := by
  have hchange := AdmissionGate.change_offer c g w now s
  generalize (g.offer c w now s).synaptome = t' at hchange ⊢
  cases hchange with
  | same => exact h
  | enter hnew hroom =>
    rw [size_enter hnew]
    exact hroom
  | swap v hv hnew hfull hk hev hduty =>
    rw [size_swap hv hnew]
    exact h

end Synaptome

namespace Inserts

variable {c : InsertConfig} {s : Inserts} {k : Nat}

/-! ### What a call enters -/

/-- The act goes on with a call that enters a peer. -/
def Enters (s : Inserts) (a : Act) (peer : NodeId) : Prop :=
  ∃ k latency call, a = .resume k true latency ∧ s.calls.get k = some call
    ∧ call.peer = some peer ∧ call.opened = some true

/-- What is asked of an act. -/
structure CapKept (c : InsertConfig) (s : Inserts) (a : Act) : Prop where
  cap : (s.step c a).gate.synaptome.size ≤ c.node.cap
  own : ∀ peer, s.Enters a peer → peer ≠ c.node.id
  fresh : ∀ peer, s.Enters a peer → s.gate.synaptome.has (.big peer) = false

/-- A call that enters a peer finds room, and the peer not in the table. -/
def FindsRoom (c : InsertConfig) (s : Inserts) (a : Act) : Prop :=
  ∀ peer, s.Enters a peer →
    s.gate.synaptome.size < c.node.cap ∧ s.gate.synaptome.has (.big peer) = false

/-- The table is within its cap, and no call is about the node itself. -/
structure InBounds (c : InsertConfig) (s : Inserts) : Prop where
  size_le : s.gate.synaptome.size ≤ c.node.cap
  calls : ∀ k call, s.calls.get k = some call → call.peer ≠ some c.node.id
  incoming : c.node.id ∉ s.incoming

/-- A call that is not both answered and allowed enters nobody. -/
theorem not_enters {call : Call} {allowed : Bool} (hcall : s.calls.get k = some call)
    (h : call.opened = some true → allowed = false) (latency : ℚ) (peer : NodeId) :
    ¬s.Enters (.resume k allowed latency) peer := by
  rintro ⟨k', latency', call', ha, hcall', -, hopen⟩
  cases ha
  cases hcall.symm.trans hcall'
  cases h hopen

/-- How a call goes on: it enters its peer, or it leaves the table as it was. -/
theorem resume_cases (c : InsertConfig) (s : Inserts) (k : Nat) (allowed : Bool) (latency : ℚ) :
    (∃ peer x, s.Enters (.resume k allowed latency) peer
      ∧ s.resume c k allowed latency = (s.ends k).addSynapse peer x)
      ∨ (∀ peer, ¬s.Enters (.resume k allowed latency) peer)
        ∧ (s.resume c k allowed latency = s ∨ s.resume c k allowed latency = s.ends k) := by
  unfold resume
  cases hcall : s.calls.get k with
  | none =>
    refine .inr ⟨?_, .inl rfl⟩
    rintro peer ⟨k', latency', call', ha, hcall', -, -⟩
    cases ha
    rw [hcall] at hcall'
    cases hcall'
  | some call =>
    cases call with
    | closing group | probing group =>
      refine .inr ⟨not_enters hcall ?_ latency, .inl rfl⟩
      intro h
      cases h
    | vitality peer syn opened | replacing peer opened =>
      rcases opened with _ | (_ | _)
      · refine .inr ⟨not_enters hcall ?_ latency, .inl rfl⟩
        intro h
        cases h
      · refine .inr ⟨not_enters hcall ?_ latency, .inr rfl⟩
        intro h
        cases h
      · cases allowed with
        | false => exact .inr ⟨not_enters hcall (fun _ => rfl) latency, .inr rfl⟩
        | true => exact .inl ⟨peer, _, ⟨k, latency, _, rfl, hcall, rfl, rfl⟩, rfl⟩

variable {a : Act} {peer : NodeId}

/-- Only a call that goes on enters a peer. -/
theorem Enters.resumes (h : s.Enters a peer) :
    ∃ k latency, a = .resume k true latency := by
  obtain ⟨k, latency, call, rfl, -⟩ := h
  exact ⟨k, latency, rfl⟩

/-- A call that goes on enters one peer. -/
theorem Enters.eq {peer' : NodeId} (h : s.Enters a peer) (h' : s.Enters a peer') :
    peer = peer' := by
  obtain ⟨k, latency, call, rfl, hcall, hpeer, -⟩ := h
  obtain ⟨k', latency', call', ha, hcall', hpeer', -⟩ := h'
  cases ha
  cases hcall.symm.trans hcall'
  exact Option.some.inj (hpeer.symm.trans hpeer')

/-- A call that enters a peer does so. -/
theorem Enters.step (h : s.Enters a peer) (c : InsertConfig) :
    ∃ k x, s.step c a = (s.ends k).addSynapse peer x := by
  obtain ⟨k, latency, rfl⟩ := h.resumes
  rcases resume_cases c s k true latency with ⟨peer', x, henters, hr⟩ | ⟨hno, -⟩
  · rw [h.eq henters]
    exact ⟨k, x, hr⟩
  · exact absurd h (hno peer)

/-- What an act makes of the gate. -/
inductive Fed (s : Inserts) (a : Act) : AdmissionGate → Prop
  | same : Fed s a s.gate
  | loses (key : TableKey) :
      Fed s a { s.gate with synaptome := s.gate.synaptome.delete key }
  | enters (peer : NodeId) (x : Synapse) (h : s.Enters a peer) :
      Fed s a { s.gate with synaptome := s.gate.synaptome.set (.big peer) x }
  | offer (w : Surroundings) (now : Int) (sponsor : NodeId) (h : a = .offer w now sponsor) :
      Fed s a (s.gate.offer c.node w now sponsor)

theorem fed_addByVitality (c : InsertConfig) (s : Inserts) (peer : NodeId) (x : Synapse) :
    (s.addByVitality c peer x).gate = s.gate := by
  unfold addByVitality
  split <;> rfl

theorem fed_step (c : InsertConfig) (s : Inserts) (a : Act) :
    Fed (c := c) s a (s.step c a).gate := by
  cases a with
  | candidate peer eligible inertia =>
    unfold step
    simp only []
    split
    · exact .same
    split
    · rw [fed_addByVitality]
      exact .same
    · exact .same
  | promote peer latency stratum inertia =>
    unfold step
    simp only []
    split
    · rw [fed_addByVitality]
      exact .same
    · exact .same
  | hopCache target inertia =>
    unfold step
    simp only []
    split
    · exact .same
    · rw [fed_addByVitality]
      exact .same
  | evict dead stratum => exact .loses dead
  | closed k =>
    unfold step
    simp only []
    split
    · split <;> exact .same
    · exact .same
  | probed k eligible replies pick =>
    unfold step
    simp only []
    split
    · split
      · exact .same
      · split <;> exact .same
    · exact .same
  | answered k opened =>
    unfold step answer
    simp only []
    split <;> exact .same
  | resume k allowed latency =>
    show Fed s _ (s.resume c k allowed latency).gate
    rcases resume_cases c s k allowed latency with ⟨peer, x, henters, hr⟩ | ⟨-, hr | hr⟩
    · rw [hr]
      exact .enters peer x henters
    · rw [hr]
      exact .same
    · rw [hr]
      exact .same
  | incoming peer =>
    unfold step
    simp only []
    split <;> exact .same
  | offer w now sponsor => exact .offer w now sponsor rfl
  | gone key => exact .loses key

/-! ### What every act keeps -/

namespace InBounds

section

variable (h : InBounds c s)
include h

/-- Nothing of the table but its size is read. -/
theorem of_table {t : Synaptome} (ht : t.size ≤ c.node.cap) :
    InBounds c { s with gate.synaptome := t } := ⟨ht, h.calls, h.incoming⟩

theorem waits (k : Nat) {call : Call} (hcall : call.peer ≠ some c.node.id) :
    InBounds c (s.waits k call) := by
  refine ⟨h.size_le, fun k' call' hget => ?_, h.incoming⟩
  have hget' : (s.calls.set k call).get k' = some call' := hget
  rw [OrderedMap.get_set] at hget'
  by_cases hk : k' = k
  · rw [if_pos hk] at hget'
    exact Option.some.inj hget' ▸ hcall
  · rw [if_neg hk] at hget'
    exact h.calls k' call' hget'

theorem wait {call : Call} (hcall : call.peer ≠ some c.node.id) :
    InBounds c (s.wait call) :=
  have hwaits := h.waits s.nextCall hcall
  ⟨hwaits.size_le, hwaits.calls, hwaits.incoming⟩

theorem ends (k : Nat) : InBounds c (s.ends k) := by
  refine ⟨h.size_le, fun k' call' hget => ?_, h.incoming⟩
  have hget' : (s.calls.delete k).get k' = some call' := hget
  exact h.calls k' call' (OrderedMap.of_get_delete hget')

theorem addByVitality {peer : NodeId} (hpeer : peer ≠ c.node.id) (x : Synapse) :
    InBounds c (s.addByVitality c peer x) := by
  unfold Inserts.addByVitality
  split
  · exact h
  · exact h.wait fun he => hpeer (Option.some.inj he)

theorem answer (k : Nat) (opened : Bool) : InBounds c (s.answer k opened) := by
  unfold Inserts.answer
  split
  next peer syn hcall =>
    have hpeer := h.calls k (.vitality peer syn none) hcall
    exact h.waits k hpeer
  next peer hcall =>
    have hpeer := h.calls k (.replacing peer none) hcall
    exact h.waits k hpeer
  · exact h

theorem resume {allowed : Bool} {latency : ℚ}
    (hfind : s.FindsRoom c (.resume k allowed latency)) :
    InBounds c (s.resume c k allowed latency) := by
  rcases resume_cases c s k allowed latency with ⟨peer, x, henters, hr⟩ | ⟨-, hr | hr⟩
  · rw [hr]
    obtain ⟨hroom, hnew⟩ := hfind peer henters
    refine (h.ends k).of_table ?_
    show (OrderedMap.set s.gate.synaptome (.big peer) x).size ≤ c.node.cap
    rw [Synaptome.size_set_new hnew]
    exact hroom
  · rw [hr]
    exact h
  · rw [hr]
    exact h.ends k

end

/-- The candidates of the probes are other nodes. -/
theorem ne_of_mem_localCandidates {eligible : NodeId → Bool} {group : Nat} {replies : List NodeId}
    {id : NodeId} (h : id ∈ s.localCandidates c eligible group replies) : id ≠ c.node.id := by
  have hfilter := (List.mem_filter.mp (List.mem_of_mem_take h)).2
  simp only [Bool.and_eq_true, bne_iff_ne] at hfilter
  exact hfilter.1.1.1.1

theorem probed (h : InBounds c s) (k : Nat) (eligible : NodeId → Bool) (replies : List NodeId)
    (pick : Nat) : InBounds c (s.step c (.probed k eligible replies pick)) := by
  unfold step
  simp only []
  split
  · split
    · exact h.ends k
    next hpick =>
    split
    · exact h.ends k
    · refine h.waits k fun he => ?_
      exact ne_of_mem_localCandidates (List.mem_of_getElem? hpick) (Option.some.inj he)
  · exact h

theorem step (h : InBounds c s) (a : Act) (hfind : s.FindsRoom c a) : InBounds c (s.step c a) := by
  cases a with
  | candidate peer eligible inertia =>
    unfold Inserts.step
    simp only []
    split
    · exact h
    next hown =>
    split
    · exact h.addByVitality (fun he => hown (.inl he)) _
    · exact h
  | promote peer latency stratum inertia =>
    unfold Inserts.step
    simp only []
    split
    next hin => exact h.addByVitality (fun he => h.incoming (he ▸ hin.1)) _
    · exact h
  | hopCache target inertia =>
    unfold Inserts.step
    simp only []
    split
    · exact h
    next hown => exact h.addByVitality (fun he => hown (.inl he.symm)) _
  | evict dead stratum =>
    have hdelete := h.of_table ((size_delete_le s.gate.synaptome dead).trans h.size_le)
    exact hdelete.wait fun he => by cases he
  | closed k =>
    unfold Inserts.step
    simp only []
    split
    · split
      · exact h.ends k
      · exact h.waits k fun he => by cases he
    · exact h
  | probed k eligible replies pick => exact h.probed k eligible replies pick
  | answered k opened => exact h.answer k opened
  | resume k allowed latency => exact h.resume hfind
  | incoming peer =>
    unfold Inserts.step
    simp only []
    split
    · exact h
    next hown =>
    refine ⟨h.size_le, h.calls, fun hmem => ?_⟩
    rcases List.mem_cons.mp hmem with he | hmem
    · exact hown (.inl he.symm)
    · exact h.incoming hmem
  | offer w now sponsor =>
    have hoffer := size_offer w now sponsor h.size_le
    exact ⟨hoffer, h.calls, h.incoming⟩
  | gone key => exact h.of_table ((size_delete_le s.gate.synaptome key).trans h.size_le)

end InBounds

theorem inBounds_init {t : Synaptome} (h : t.size ≤ c.node.cap) : InBounds c (init t) := by
  refine ⟨h, fun k call hcall => ?_, List.not_mem_nil⟩
  cases hcall

/-- Only a call that goes on can miss its room. -/
theorem findsRoom_of_ne (h : ∀ k latency, a ≠ .resume k true latency) :
    s.FindsRoom c a := by
  intro peer henters
  obtain ⟨k, latency, rfl⟩ := henters.resumes
  exact absurd rfl (h k latency)

theorem findsRoom_resume {allowed : Bool} {latency : ℚ} {call : Call}
    (hcall : s.calls.get k = some call) (hpeer : call.peer = some peer)
    (hroom : s.gate.synaptome.size < c.node.cap) (hnew : s.gate.synaptome.has (.big peer) = false) :
    s.FindsRoom c (.resume k allowed latency) := by
  rintro peer' ⟨k', latency', call', ha, hcall', hpeer', -⟩
  cases ha
  cases hcall.symm.trans hcall'
  cases hpeer.symm.trans hpeer'
  exact ⟨hroom, hnew⟩

/-- A call that entered a new peer within the cap has found room for it. -/
theorem findsRoom_of_kept (h : s.CapKept c a) : s.FindsRoom c a := by
  intro peer henters
  have hnew := h.fresh peer henters
  obtain ⟨k, x, hr⟩ := henters.step c
  have hcap := h.cap
  rw [hr] at hcap
  exact ⟨Nat.lt_of_succ_le ((size_set_new hnew x).symm.le.trans hcap), hnew⟩

theorem kept_iff (h : InBounds c s) : s.CapKept c a ↔ s.FindsRoom c a := by
  refine ⟨findsRoom_of_kept, fun hfind => ⟨(h.step a hfind).size_le, ?_, ?_⟩⟩
  · rintro peer ⟨k, latency, call, -, hcall, hpeer, -⟩ rfl
    exact h.calls k call hcall hpeer
  · exact fun peer henters => (hfind peer henters).2

/-- **The table keeps its cap, and its synapses, in exactly the runs whose calls still find room,
and their peer missing, when they go on.** -/
theorem inserts_kept_iff (c : InsertConfig) (t : Synaptome) (ht : t.size ≤ c.node.cap)
    (as : List Act) :
    EachStep (step c) (CapKept c) (init t) as ↔ EachStep (step c) (FindsRoom c) (init t) as :=
  EachStep.agree_iff (I := InBounds c) (fun _ a hs hfind => hs.step a hfind)
    (fun _ _ hs => kept_iff hs) (inBounds_init ht) as

/-- A node with one place in its table. -/
def onePlace : InsertConfig := { node := { AdmissionGate.nearestOnly with gate := {}, cap := 1 } }

/-- Two lookups cache their targets; both wait for their channel at once. -/
def twoLookups : List Act :=
  [.hopCache 1 0, .hopCache 2 0, .answered 0 true, .answered 1 true, .resume 0 true 20,
    .resume 1 true 20]

/-- A lookup whose channel opens before the next one begins finds room. -/
theorem one_lookup_kept :
    EachStep (step onePlace) (CapKept onePlace) (init ∅)
      [.hopCache 1 0, .answered 0 true, .resume 0 true 20, .hopCache 2 0] := by
  refine (inserts_kept_iff onePlace ∅ (by decide) _).mpr ⟨?_, ?_, ?_, ?_, trivial⟩
  · exact findsRoom_of_ne fun k latency h => by cases h
  · exact findsRoom_of_ne fun k latency h => by cases h
  · have hcall : (run (step onePlace) (init ∅) [.hopCache 1 0, .answered 0 true]).calls.get 0
        = some (.vitality 1 (candidateSynapse 1 263 0) (some true)) := by
      decide +kernel
    exact findsRoom_resume hcall rfl (by decide +kernel) (by decide +kernel)
  · exact findsRoom_of_ne fun k latency h => by cases h

/-- **Both calls found the table below its cap before they waited**: it ends above it. -/
theorem both_enter : ¬EachStep (step onePlace) (CapKept onePlace) (init ∅) twoLookups := by
  rintro ⟨-, -, -, -, -, h, -⟩
  have hsize : ¬(run (step onePlace) (init ∅) twoLookups).gate.synaptome.size ≤ 1 := by
    decide +kernel
  exact hsize h.cap

end Inserts

end Axona
