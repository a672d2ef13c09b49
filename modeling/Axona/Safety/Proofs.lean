import Axona.Pubsub.AckProof
import Axona.Safety.Flights
import Axona.Safety.Identity

/-! # What a proof of ingestion completes

The bytes that are signed tell the purpose of a proof, the write and the flight apart. The owner of
a flight compares all of them but the purpose, and it compares them before it waits for the check
of the key. -/

namespace Axona

open Library OrderedMap

/-! ### Texts and bytes -/

variable {t : Text} {bs : List Nat}

/-- The bytes of a hex text are those of the number it spells. -/
theorem hexToBytes_spells (hhex : isHex t = true) (h : hexToBytes t = some bs) :
    2 * bs.length = t.length ∧ (∀ b ∈ bs, b < 256)
      ∧ ∀ n : Nat, t.foldl (fun n c => 16 * n + (hexDigit? c).getD 0) n =
        bs.foldl (fun n b => 256 * n + b) n := by
  rw [hexToBytes_of_isHex (List.all_eq_true.mp hhex)] at h
  induction t using hexPairs.induct generalizing bs with
  | case1 =>
    cases h
    exact ⟨rfl, by rintro b ⟨⟩, fun _ => rfl⟩
  | case2 c => cases h
  | case3 a b rest ih =>
    rw [hexPairs, Option.map_eq_some_iff] at h
    obtain ⟨bs, hrest, rfl⟩ := h
    unfold isHex at hhex
    rw [List.all_cons, List.all_cons, Bool.and_eq_true, Bool.and_eq_true] at hhex
    obtain ⟨ha, hb, hhex⟩ := hhex
    obtain ⟨hlen, hlt, hfold⟩ := ih hhex hrest
    obtain ⟨x, hx⟩ := Option.isSome_iff_exists.mp ha
    obtain ⟨y, hy⟩ := Option.isSome_iff_exists.mp hb
    have hbyte : hexByte a b = 16 * x + y := by
      unfold hexByte
      rw [hx, hy]
    have hx16 := hexDigit?_lt hx
    have hy16 := hexDigit?_lt hy
    refine ⟨?_, ?_, fun n => ?_⟩
    · rw [List.length_cons, List.length_cons, List.length_cons, ← hlen]
      omega
    · intro c hc
      rcases List.mem_cons.mp hc with rfl | hc
      · omega
      · exact hlt c hc
    · rw [List.foldl_cons, List.foldl_cons, List.foldl_cons, hfold, hx, hy, hbyte]
      congr 1
      show 16 * (16 * n + x) + y = 256 * n + (16 * x + y)
      omega

/-- A hex text of even length has bytes. -/
theorem hexToBytes_isSome (hhex : isHex t = true) (h : t.length % 2 = 0) :
    (hexToBytes t).isSome = true := by
  rw [hexToBytes_of_isHex (List.all_eq_true.mp hhex)]
  clear hhex
  induction t using hexPairs.induct with
  | case1 => rfl
  | case2 c => cases h
  | case3 a b rest ih =>
    rw [hexPairs, Option.isSome_map]
    apply ih
    rw [List.length_cons, List.length_cons] at h
    omega

/-- A text of just so many bytes spells a number of that width. -/
theorem hexOfWidth_eq {width : Nat} (h : hexOfWidth width t = some bs) :
    bs = bigEndian width (hexValue t) := by
  unfold hexOfWidth at h
  split at h
  next hok =>
    cases h
    obtain ⟨bs, hbs⟩ := Option.isSome_iff_exists.mp
      (hexToBytes_isSome (t := t) hok.2 (by rw [hok.1]; exact Nat.mul_mod_right 2 width))
    have hbytes : hexBytes t = bs := by
      unfold hexBytes
      rw [hbs]
      rfl
    obtain ⟨hlen, hlt, hfold⟩ := hexToBytes_spells hok.2 hbs
    have hwidth : bs.length = width := by omega
    have hvalue : hexValue t = ofBytes bs := hfold 0
    rw [hbytes, hvalue, ← hwidth, bigEndian_ofBytes hlt]
  · cases h

/-! ### The transcript -/

/-- The fields fit their widths. -/
structure AckTranscript.FitsWidths (t : AckTranscript) : Prop where
  topicId : t.topicId < 256 ^ 33
  msgId : t.msgId.length = 32
  epoch : t.epoch < 256 ^ 8
  attemptId : t.attemptId < 256 ^ 16
  ackTo : t.ackTo < 256 ^ 33
  flightNonce : t.flightNonce < 256 ^ 16
  rootPub : t.rootPub.length = 32

/-- The purpose stands right after the domain. -/
theorem AckTranscript.purpose_of_bytes {t t' : AckTranscript} (heq : t.bytes = t'.bytes) :
    t.purpose = t'.purpose := by
  unfold AckTranscript.bytes at heq
  simp only [List.append_assoc, List.singleton_append] at heq
  have hbyte := (List.cons.inj (List.append_cancel_left heq)).1
  cases hp : t.purpose <;> cases hp' : t'.purpose <;> rw [hp, hp'] at hbyte <;>
    first | rfl | cases hbyte

/-- **The bytes tell every field**: what was signed for one purpose, write, flight or root was
signed for no other. -/
theorem AckTranscript.bytes_inj {t t' : AckTranscript} (h : t.FitsWidths) (h' : t'.FitsWidths)
    (heq : t.bytes = t'.bytes) : t = t' := by
  have hpurpose := AckTranscript.purpose_of_bytes heq
  unfold AckTranscript.bytes at heq
  -- every field but the last has a fixed width, so the parts are told from the end
  have hlen : t.rootPub.length = t'.rootPub.length := h.rootPub.trans h'.rootPub.symm
  obtain ⟨heq, hpub⟩ := List.append_inj' heq hlen
  obtain ⟨heq, hnonce⟩ := List.append_inj' heq (by simp)
  obtain ⟨heq, hackTo⟩ := List.append_inj' heq (by simp)
  obtain ⟨heq, hattempt⟩ := List.append_inj' heq (by simp)
  obtain ⟨heq, hepoch⟩ := List.append_inj' heq (by simp)
  obtain ⟨heq, hmsg⟩ := List.append_inj' heq (h.msgId.trans h'.msgId.symm)
  obtain ⟨heq, htopic⟩ := List.append_inj' heq (by simp)
  obtain ⟨heq, hop⟩ := List.append_inj' heq rfl
  obtain ⟨purpose, kill, topicId, msgId, epoch, attemptId, ackTo, flightNonce, rootPub⟩ := t
  obtain ⟨purpose', kill', topicId', msgId', epoch', attemptId', ackTo', flightNonce', rootPub'⟩ :=
    t'
  obtain rfl : purpose = purpose' := hpurpose
  obtain rfl : kill = kill' := by cases kill <;> cases kill' <;> first | rfl | cases hop
  obtain rfl := bigEndian_inj h.topicId h'.topicId htopic
  obtain rfl := bigEndian_inj h.epoch h'.epoch hepoch
  obtain rfl := bigEndian_inj h.attemptId h'.attemptId hattempt
  obtain rfl := bigEndian_inj h.ackTo h'.ackTo hackTo
  obtain rfl := bigEndian_inj h.flightNonce h'.flightNonce hnonce
  obtain rfl : msgId = msgId' := hmsg
  obtain rfl : rootPub = rootPub' := hpub
  rfl

/-- What a proof that passed covers. -/
def SignedProof.transcript (p : SignedProof) : AckTranscript where
  purpose := p.purpose
  kill := p.fields.key.kill
  topicId := p.fields.key.topic
  msgId := hexBytes p.fields.key.msgId
  epoch := p.fields.epoch.toNat
  attemptId := p.fields.attemptId
  ackTo := p.fields.ackTo
  flightNonce := p.fields.flightNonce
  rootPub := p.rootPub

/-- A proof carries a signature of its key over what it says. -/
structure SignedProof.Genuine (P : ProofPrimitives) (p : SignedProof) : Prop where
  signed : P.verify p.rootPub p.transcript.bytes p.sig = some true
  epoch : 0 ≤ p.fields.epoch
  authority : p.fields.authority = rootPubMatchesNodeHash P p.rootPub

theorem ProofFailure.of_unless {α β : Type} {e : ProofFailure} {o : Option α}
    {g : α → Except ProofFailure β} {b : β} (h : (e.unless o >>= g) = .ok b) :
    ∃ a, o = some a ∧ g a = .ok b := by
  cases o with
  | none => cases h
  | some a => exact ⟨a, rfl, h⟩

theorem hexOfWidth_bytes {width : Nat} (h : hexOfWidth width t = some bs) : bs = hexBytes t := by
  unfold hexOfWidth at h
  split at h
  · exact (Option.some.inj h).symm
  · cases h

/-- What is signed is what the frame says. -/
theorem of_buildTranscript {purpose : Purpose} {kill : Bool} {rootPub bytes : List Nat}
    {f : ProofFrame} (h : buildTranscript purpose kill rootPub f = .ok bytes) :
    ∃ e : Nat, f.epoch = some (e : Int)
      ∧ bytes = AckTranscript.bytes ⟨purpose, kill, hexValue f.topicId, hexBytes f.msgId, e,
        hexValue f.attemptId, hexValue f.ackTo, hexValue f.flightNonce, rootPub⟩ := by
  unfold buildTranscript at h
  obtain ⟨topic, htopic, h⟩ := ProofFailure.of_unless h
  obtain ⟨msg, hmsg, h⟩ := ProofFailure.of_unless h
  obtain ⟨e, he, h⟩ := ProofFailure.of_unless h
  obtain ⟨attempt, hattempt, h⟩ := ProofFailure.of_unless h
  obtain ⟨ackTo, hackTo, h⟩ := ProofFailure.of_unless h
  obtain ⟨nonce, hnonce, h⟩ := ProofFailure.of_unless h
  cases h
  obtain ⟨raw, hraw, he⟩ := Option.bind_eq_some_iff.mp he
  split at he
  next hsafe =>
    refine ⟨e, ?_, ?_⟩
    · rw [hraw, ← Option.some.inj he, Int.toNat_of_nonneg hsafe.1]
    · unfold AckTranscript.bytes
      rw [hexOfWidth_eq htopic, hexOfWidth_bytes hmsg, hexOfWidth_eq hattempt, hexOfWidth_eq hackTo,
        hexOfWidth_eq hnonce]
  · cases he

/-- **A proof that passes is genuine.** -/
theorem genuine_of_verifyAckProof {P : ProofPrimitives} {f : ProofFrame} {p : SignedProof}
    (h : verifyAckProof P f = .ok p) : p.Genuine P := by
  unfold verifyAckProof at h
  obtain ⟨kill, -, h⟩ := ProofFailure.of_unless h
  obtain ⟨purpose, -, h⟩ := ProofFailure.of_unless h
  obtain ⟨sig, -, h⟩ := ProofFailure.of_unless h
  obtain ⟨rootPub, -, h⟩ := ProofFailure.of_unless h
  cases htranscript : buildTranscript purpose kill rootPub f with
  | error e =>
    rw [htranscript] at h
    cases h
  | ok bytes =>
    rw [htranscript] at h
    simp only [bind, Except.bind] at h
    obtain ⟨e, he, rfl⟩ := of_buildTranscript htranscript
    split at h
    · cases h
    · cases h
    next hverify =>
    cases h
    refine ⟨?_, ?_, rfl⟩
    · unfold SignedProof.transcript
      simp only [he, Option.getD_some, Int.toNat_natCast]
      exact hverify
    · simp only [he, Option.getD_some]
      exact Int.natCast_nonneg e

/-! ### The property and the condition -/

/-- **A proof that covers the entry it completes**: the key is the root's, and it signed a proof of
ingestion for just this write and flight. -/
def Completion.Covered (P : ProofPrimitives) (c : Completion) : Prop :=
  ∃ t : AckTranscript, ∃ sig, P.verify t.rootPub t.bytes sig = some true
    ∧ rootPubMatchesNodeHash P t.rootPub c.flight.root = true
    ∧ t.purpose = .ingestAck ∧ t.kill = c.key.kill ∧ t.topicId = c.flight.topic
    ∧ t.msgId = hexBytes c.key.msgId ∧ (t.epoch : Int) = c.flight.epoch
    ∧ t.attemptId = c.entry.attemptId ∧ t.ackTo = c.flight.ackTo
    ∧ t.flightNonce = c.flight.flightNonce

namespace SignedLedger

/-- The flight under the key is still the one that was compared, and the proof is one of ingestion
and of the attempt and the epoch of the flight now; or the flight that was compared has left the
table with other entries. -/
def StillBound (s : SignedLedger) (w : Waiting) (f : Flight) : Prop :=
  if f.flightNonce = w.nonce then
    ∀ e, f.entries.get w.proof.fields.key = some e →
      w.proof.purpose = .ingestAck ∧ w.proof.fields.attemptId = e.attemptId
        ∧ w.proof.fields.epoch = f.epoch
  else
    { s with deleted := (w.nonce, w.proof.fields.key) :: s.deleted }.leftIn w.nonce ≠ []

/-- **The condition.** When the check of a key ends well, what waited for it is still bound to the
flight under the key, if there is one. -/
def InTime (s : SignedLedger) : SignedAct → Prop
  | .resume k => ∀ w f, s.waiting.get k = some w → w.proof.fields.authority w.key.root = true →
      s.ledger.flights.get w.key = some f → s.StillBound w f
  | _ => True

/-! ### What a run keeps -/

/-- A flight is under its own key, is acknowledged to this node, and has writes of its topic. -/
structure Addressed (cfg : Config) (k : FlightKey) (f : Flight) : Prop where
  key : f.key = k
  ackTo : f.ackTo = cfg.nodeId
  topic : ∀ ck, f.entries.has ck = true → ck.topic = k.topic

/-- All flights are. -/
def AllAddressed (cfg : Config) (l : Ledger) : Prop :=
  ∀ k f, l.flights.get k = some f → Addressed cfg k f

/-- What a proof waits for: it is genuine, and of the flight it was compared with. -/
structure Compared (P : ProofPrimitives) (cfg : Config) (w : Waiting) : Prop where
  genuine : w.proof.Genuine P
  ackTo : w.proof.fields.ackTo = cfg.nodeId
  nonce : w.proof.fields.flightNonce = w.nonce
  topic : w.proof.fields.key.topic = w.key.topic

/-- Every flight is the node's own, what waits passed the comparisons, and what completed was covered
by its proof. -/
structure AllCovered (P : ProofPrimitives) (cfg : Config) (s : SignedLedger) : Prop where
  flights : AllAddressed cfg s.ledger
  waiting : ∀ j w, s.waiting.get j = some w → Compared P cfg w
  covered : ∀ c ∈ s.completed, c.Covered P

variable {P : ProofPrimitives} {cfg : Config} {s : SignedLedger} {l : Ledger}

/-! ### The flights -/

theorem AllAddressed.congr {l' : Ledger} (h : AllAddressed cfg l) (hf : l'.flights = l.flights) :
    AllAddressed cfg l' := fun k f hk => h k f (hf ▸ hk)

theorem AllAddressed.delete (h : AllAddressed cfg l) (k : FlightKey) :
    AllAddressed cfg { l with flights := l.flights.delete k } := by
  intro k' f hf
  replace hf : (l.flights.delete k).get k' = some f := hf
  exact h k' f (of_get_delete hf)

variable {k : FlightKey} {f : Flight}

theorem AllAddressed.set (h : AllAddressed cfg l) (hf : Addressed cfg k f) :
    AllAddressed cfg { l with flights := l.flights.set k f } := by
  intro k' f' hk'
  replace hk' : (l.flights.set k f).get k' = some f' := hk'
  rw [get_set] at hk'
  split at hk'
  next heq =>
    cases hk'
    exact heq ▸ hf
  · exact h k' f' hk'

theorem Addressed.settle (h : Addressed cfg k f) (ck : CorrKey) :
    Addressed cfg k (f.settle ck) where
  key := h.key
  ackTo := h.ackTo
  topic ck' hck' := by
    rw [Flight.has_settle, Bool.and_eq_true] at hck'
    exact h.topic ck' hck'.1

theorem Addressed.flightAt (h : AllAddressed cfg l) (k : FlightKey) :
    Addressed cfg k (l.flightAt cfg k) := by
  unfold Ledger.flightAt
  cases hf : l.flights.get k with
  | none => exact ⟨rfl, rfl, by rintro ck ⟨⟩⟩
  | some f => exact h k f hf

/-- A write of the topic joins. -/
theorem Addressed.join (h : Addressed cfg k f) {ck : CorrKey} (hck : ck.topic = k.topic)
    (e : FlightEntry) : Addressed cfg k { f with entries := f.entries.set ck e } where
  key := h.key
  ackTo := h.ackTo
  topic ck' hck' := by
    replace hck' : (f.entries.set ck e).has ck' = true := hck'
    rw [has_set, Bool.or_eq_true, decide_eq_true_eq] at hck'
    rcases hck' with rfl | hold
    · exact hck
    · exact h.topic ck' hold

theorem topic_openKey (n : Node) (t : TopicId) (root : NodeId) (expected : Option Int) :
    (Ledger.openKey n t root expected).topic = t := by
  unfold Ledger.openKey
  split
  · split <;> rfl
  · rfl

section

variable (h : AllAddressed cfg l)
include h

theorem AllAddressed.flightOpen (t : TopicId) (root : NodeId) (w : Write)
    (attempt : Option Nat) (expected : Option Int) (chain : Option Chain) :
    AllAddressed cfg (l.flightOpen cfg t root w attempt expected chain).2 := by
  unfold Ledger.flightOpen
  split
  · exact h
  next id _ =>
  have hchain : AllAddressed cfg (l.chainGet ⟨t, id, w.isKill⟩).2 :=
    h.congr (l.flights_chainGet _)
  have htopic : (⟨t, id, w.isKill⟩ : CorrKey).topic =
      (Ledger.openKey l.node t root expected).topic := (topic_openKey ..).symm
  exact hchain.set ((Addressed.flightAt h _).join htopic _)

theorem AllAddressed.forwardToRoot (t : TopicId) (root : NodeId)
    (w : Write) (attempt : Option Nat) :
    AllAddressed cfg (l.forwardToRoot cfg t root w attempt) := by
  have hopen := h.flightOpen t root w attempt none none
  unfold Ledger.forwardToRoot
  split
  next heq => rwa [heq] at hopen
  next heq =>
    rw [heq] at hopen
    exact hopen

theorem AllAddressed.forwardToWinner (t : TopicId) (winner : NodeId)
    (w : Write) (attempt : Option Nat) (corr : Corr) (epoch : Int) :
    AllAddressed cfg (l.forwardToWinner cfg t winner w attempt corr epoch) := by
  have hopen := h.flightOpen t winner w attempt (some epoch) none
  unfold Ledger.forwardToWinner
  split
  next heq => rwa [heq] at hopen
  next heq =>
  rw [heq] at hopen
  simp only []
  split
  · exact hopen
  next f hf =>
    have hold := hopen _ f hf
    exact hopen.set ⟨hold.key, hold.ackTo, hold.topic⟩

theorem AllAddressed.promote (f : Flight) (best : NodeId) (ck : CorrKey)
    (e : FlightEntry) : AllAddressed cfg (l.promote cfg f best ck e) := by
  unfold Ledger.promote
  simp only []
  have hnote : AllAddressed cfg (l.chainNote ck (e.promotions + 1) (e.tried ++ [f.root])) := h
  split
  · exact hnote
  have hopen := hnote.flightOpen f.topic best e.write (some e.attemptId) none
    (some ⟨e.promotions + 1, e.tried ++ [f.root], 0⟩)
  split
  next heq => rwa [heq] at hopen
  next heq =>
    rw [heq] at hopen
    exact hopen

theorem AllAddressed.flightEvict (k : FlightKey) (f : Flight) :
    AllAddressed cfg (l.flightEvict cfg k f) := by
  have hover (xs : List (FlightEntry × GivenUp)) (l : Ledger) (h : AllAddressed cfg l) :
      AllAddressed cfg (xs.foldl (fun l e => l.send (.undeliverable f.topic e.1.write e.2)) l) := by
    induction xs generalizing l with
    | nil => exact h
    | cons x xs ih => exact ih _ h
  have hrest (best : NodeId) (xs : List (CorrKey × FlightEntry)) (l : Ledger)
      (h : AllAddressed cfg l) :
      AllAddressed cfg (xs.foldl (fun l e => l.promote cfg f best e.1 e.2) l) := by
    induction xs generalizing l with
    | nil => exact h
    | cons x xs ih => exact ih _ (h.promote f best x.1 x.2)
  unfold Ledger.flightEvict
  exact hrest _ _ _ (hover _ _ (h.delete k))

theorem AllAddressed.sweepAt (k : FlightKey) :
    AllAddressed cfg (l.sweepAt cfg k) := by
  unfold Ledger.sweepAt
  split
  · exact h
  next f hf =>
  split
  · exact h
  have hround : ∀ l₀ : Ledger, l₀.flights = l.flights → AllAddressed cfg
      (if flightMaxRounds ≤ f.rounds then l₀.flightEvict cfg k f else l₀.probe k f) := by
    intro l₀ heq
    have h₀ := h.congr heq
    split
    · exact h₀.flightEvict k f
    unfold Ledger.probe
    split
    · exact h₀.delete k
    · have hold := h k f hf
      exact h₀.set ⟨hold.key, hold.ackTo, hold.topic⟩
  split
  · exact h.flightEvict k f
  all_goals
    cases f.merge with
    | none => exact hround l rfl
    | some corr =>
      by_cases hsilent : f.stage = Stage.awaitAck ∧ f.rounds = 0
      · simp only [if_pos hsilent]
        exact hround { l with node := l.node.winnerSilent f.topic corr } rfl
      · simp only [if_neg hsilent]
        exact hround l rfl

theorem AllAddressed.answered {l' : Ledger} {ck : CorrKey}
    {binds : Flight → Bool} (hf : ∀ k, l'.flights.get k = (l.flights.get k).bind fun f =>
      if binds f then f.without ck else some f) : AllAddressed cfg l' := by
  intro k f' hf'
  obtain ⟨f, hget, rfl | ⟨-, rfl, -⟩⟩ := Ledger.get_of_answered (hf k) hf'
  · exact h k f' hget
  · exact (h k f hget).settle ck

theorem AllAddressed.retried (t : TopicId) :
    AllAddressed cfg (l.onReceiptNack t) := by
  intro k f' hf'
  obtain ⟨f, hget, rfl⟩ := Ledger.get_of_retried hf'
  have hold := h k f hget
  unfold Flight.retried
  split
  · exact hold
  · exact ⟨hold.key, hold.ackTo, hold.topic⟩

/-- **The acts of the ledger.** -/
theorem AllAddressed.perform (a : FlightAct) :
    AllAddressed cfg (l.perform cfg a) := by
  cases a with
  | node a => exact h
  | forward t root w attempt => exact h.forwardToRoot t root w attempt
  | forwardWinner t winner w attempt corr e => exact h.forwardToWinner t winner w attempt corr e
  | ack ck sender epoch => exact h.answered (Ledger.get_flightComplete _ ck sender epoch)
  | proof p => exact h.answered (Ledger.get_flightCompleteSigned _ p)
  | sweep => exact Ledger.sweep_rule (fun _ k hm => hm.sweepAt k) h
  | nack t => exact h.retried t

theorem AllAddressed.putFlight (hf : Addressed cfg k f) :
    AllAddressed cfg (l.putFlight k f) := by
  unfold Ledger.putFlight
  split
  · exact h.delete k
  · exact h.set hf

end

/-! ### The proofs -/

/-- What a comparison that succeeds says. -/
theorem of_compare {p : Ledger.AckProof} (h : (compare l p k f).2 = true) :
    f.entries.has p.key = true ∧ f.ackTo = p.ackTo ∧ f.flightNonce = p.flightNonce := by
  unfold compare at h
  split at h
  · cases h
  next e he =>
  split at h
  · cases h
  next hsame =>
  rw [Bool.or_eq_true, Bool.or_eq_true, not_or, not_or] at hsame
  refine ⟨has_iff.mpr ⟨e, he⟩, ?_, ?_⟩
  · simpa using hsame.1.2
  · simpa using hsame.2

theorem flights_compare (l : Ledger) (p : Ledger.AckProof) (k : FlightKey) (f : Flight) :
    (compare l p k f).1.flights = l.flights := by
  unfold compare
  split
  · rfl
  split
  · rfl
  · split <;> rfl

/-- A proof goes from flight to flight. -/
theorem AllCovered.visit (h : s.AllCovered P cfg) {p : SignedProof} (hp : p.Genuine P)
    (fs : List (FlightKey × Flight)) (seen : List Nat)
    (hfs : ∀ e ∈ fs, Addressed cfg e.1 e.2) : (s.visit p fs seen).AllCovered P cfg := by
  induction fs generalizing s seen with
  | nil => exact h
  | cons e fs ih =>
    obtain ⟨k, f⟩ := e
    have hf : Addressed cfg k f := hfs _ List.mem_cons_self
    have hl := h.flights.congr (flights_compare s.ledger p.fields k f)
    rw [SignedLedger.visit]
    simp only []
    split
    next hmatched =>
      obtain ⟨hentry, hackTo, hnonce⟩ := of_compare hmatched
      refine ⟨hl, fun j w hw => ?_, h.covered⟩
      replace hw : (s.waiting.set s.nextWaiting _).get j = some w := hw
      rw [get_set] at hw
      split at hw
      · cases hw
        exact ⟨hp, hackTo.symm.trans hf.ackTo, hnonce.symm, hf.topic _ hentry⟩
      · exact h.waiting j w hw
    · have hnext : AllCovered P cfg { s with ledger := (compare s.ledger p.fields k f).1 } :=
        ⟨hl, h.waiting, h.covered⟩
      exact ih hnext _ fun e he => hfs e (List.mem_cons_of_mem _ he)

theorem AllCovered.flightCompleteSigned (h : s.AllCovered P cfg) {p : SignedProof} (hp : p.Genuine P)
    (seen : List Nat) : (s.flightCompleteSigned p seen).AllCovered P cfg := by
  refine h.visit hp _ seen fun e he => ?_
  exact h.flights e.1 e.2 (get_of_mem (List.mem_filter.mp he).1)

/-- **The entry that a proof completes in time is the one it covers.** -/
theorem covered_of_stillBound {w : Waiting} (hw : Compared P cfg w) (hf : Addressed cfg w.key f)
    (hnonce : f.flightNonce = w.nonce) (hauth : w.proof.fields.authority w.key.root = true)
    {e : FlightEntry} (hpurpose : w.proof.purpose = .ingestAck)
    (hattempt : w.proof.fields.attemptId = e.attemptId) (hepoch : w.proof.fields.epoch = f.epoch) :
    Completion.Covered P ⟨f, w.proof.fields.key, e, w.proof⟩ := by
  have hroot : f.root = w.key.root := congrArg FlightKey.root hf.key
  have htopic : f.topic = w.key.topic := congrArg FlightKey.topic hf.key
  rw [hw.genuine.authority] at hauth
  refine ⟨w.proof.transcript, w.proof.sig, hw.genuine.signed, hroot ▸ hauth, hpurpose, rfl,
    hw.topic.trans htopic.symm, rfl, ?_, hattempt, hw.ackTo.trans hf.ackTo.symm,
    hw.nonce.trans hnonce.symm⟩
  show ((w.proof.fields.epoch.toNat : Nat) : Int) = f.epoch
  rw [Int.toNat_of_nonneg hw.genuine.epoch, hepoch]

theorem AllCovered.complete (h : s.AllCovered P cfg) {w : Waiting} (hw : Compared P cfg w)
    (hauth : w.proof.fields.authority w.key.root = true)
    (hbound : ∀ f, s.ledger.flights.get w.key = some f → s.StillBound w f) :
    (s.complete w).AllCovered P cfg := by
  unfold SignedLedger.complete
  simp only []
  split
  · exact ⟨h.flights, h.waiting, h.covered⟩
  next f hf =>
  have haddr := h.flights w.key f hf
  have hstill := hbound f hf
  unfold StillBound at hstill
  split
  next hsame =>
    rw [if_pos hsame] at hstill
    refine ⟨h.flights.putFlight (haddr.settle _), h.waiting, ?_⟩
    split
    · exact h.covered
    next e he =>
    obtain ⟨hpurpose, hattempt, hepoch⟩ := hstill e he
    rintro c hc
    rcases List.mem_cons.mp hc with rfl | hc
    · exact covered_of_stillBound hw haddr hsame hauth hpurpose hattempt hepoch
    · exact h.covered c hc
  next hother =>
  rw [if_neg hother] at hstill
  rw [if_neg hstill]
  exact ⟨h.flights, h.waiting, h.covered⟩

/-- **The step.** -/
theorem AllCovered.step (h : s.AllCovered P cfg) (a : World × SignedAct) (hin : s.InTime a.2) :
    (s.step P cfg a).AllCovered P cfg := by
  obtain ⟨w, a⟩ := a
  have hw : AllCovered P cfg
      { s with ledger := { s.ledger with node := { s.ledger.node with world := w } } } :=
    ⟨h.flights, h.waiting, h.covered⟩
  cases a with
  | flight a =>
    show AllCovered P cfg (SignedLedger.perform cfg _ a)
    unfold SignedLedger.perform
    split
    · exact hw
    · exact ⟨hw.flights.perform _, h.waiting, h.covered⟩
  | proof frame =>
    rw [SignedLedger.step]
    simp only []
    split
    · exact hw
    next p hp => exact hw.flightCompleteSigned (genuine_of_verifyAckProof hp) []
  | resume k =>
    show AllCovered P cfg (SignedLedger.resume _ k)
    unfold SignedLedger.resume
    split
    · exact hw
    next w' hk =>
    have hcmp := h.waiting k w' hk
    have hend : AllCovered P cfg { s with
        ledger := { s.ledger with node := { s.ledger.node with world := w } }
        waiting := s.waiting.delete k } := by
      refine ⟨h.flights, fun j w'' hj => ?_, h.covered⟩
      replace hj : (s.waiting.delete k).get j = some w'' := hj
      replace hj := of_get_delete hj
      exact h.waiting j w'' hj
    split
    next hauth =>
      exact (hend.complete hcmp hauth fun f hf => hin w' f hk hauth hf).flightCompleteSigned
        hcmp.genuine _
    · exact hend.flightCompleteSigned hcmp.genuine _

theorem allCovered_boot (w : World) : (boot w).AllCovered P cfg where
  flights := by rintro k f ⟨⟩
  waiting := by rintro j w ⟨⟩
  covered := by rintro c ⟨⟩

end SignedLedger

/-! ### Over whole runs -/

/-- **What a proof completes, it covers.** In a run in which every proof whose key was checked is
then still bound to the flight under its key, each entry that a proof completed is one that its
flight's root signed a proof of ingestion for: of this topic, message and operation, this attempt,
this flight and its epoch, and to this node. -/
theorem completed_by_covering_proof (P : ProofPrimitives) (cfg : Config) (w : World)
    (as : List (World × SignedAct))
    (hrun : EachStep (SignedLedger.step P cfg) (fun s a => s.InTime a.2) (.boot w) as) :
    ∀ c ∈ (run (SignedLedger.step P cfg) (.boot w) as).completed, c.Covered P :=
  (hrun.invariant (I := SignedLedger.AllCovered P cfg) (fun _ a h hC => h.step a hC)
    (SignedLedger.allCovered_boot w)).covered

/-- A root whose key has signed these transcripts and no other. -/
def sampleProofs (signed : List (List Nat)) : ProofPrimitives where
  sha256 := ofBytes
  verify key bytes sig := some (decide (bytes ∈ signed ∧ sig = key ++ key))

/-- A kill, its root, and what is signed about it for one purpose. -/
def forwardedKill : Kill := ⟨some 0, some (List.replicate 64 'a'), some 0, some 0, none, none⟩

def forwardedTo : NodeId := hexValue (List.replicate 64 'b')

def signedAbout (purpose : Purpose) : AckTranscript :=
  ⟨purpose, true, 0, List.replicate 32 0xaa, 0, 1, sampleConfig.nodeId, 0, List.replicate 32 0xbb⟩

/-- The proof of it. -/
def proofAbout (purpose : Purpose) : ProofFrame where
  purpose := some purpose.byte
  op := "kill".toList
  topicId := List.replicate 66 '0'
  msgId := List.replicate 64 'a'
  epoch := some 0
  attemptId := List.replicate 31 '0' ++ ['1']
  ackTo := List.replicate 66 '0'
  flightNonce := List.replicate 32 '0'
  rootPub := List.replicate 64 'b'
  sig := List.replicate 128 'b'

/-- The kill is forwarded to its root, and the proof comes in. -/
def provenRun (purpose : Purpose) : List (World × SignedAct) :=
  [(sampleWorld 0, .flight (.forward 0 forwardedTo (.kill forwardedKill) none)),
   (sampleWorld 1, .proof (proofAbout purpose)), (sampleWorld 1, .resume 0)]

/-- The proof is still bound when the check of its key is over. -/
theorem inTime_of_all {s : SignedLedger} {k : Nat}
    (h : ((s.waiting.get k).all fun w => (s.ledger.flights.get w.key).all fun f =>
      f.flightNonce = w.nonce && (f.entries.get w.proof.fields.key).all fun e =>
        w.proof.purpose = .ingestAck && w.proof.fields.attemptId = e.attemptId
          && w.proof.fields.epoch = f.epoch) = true) : s.InTime (.resume k) := by
  rintro w f hw - hf
  have hf' := (Option.all_eq_true ..).mp ((Option.all_eq_true ..).mp h w hw) f hf
  rw [Bool.and_eq_true, decide_eq_true_eq] at hf'
  unfold SignedLedger.StillBound
  rw [if_pos hf'.1]
  intro e he
  have he' := (Option.all_eq_true ..).mp hf'.2 e he
  rw [Bool.and_eq_true, Bool.and_eq_true, decide_eq_true_eq, decide_eq_true_eq,
    decide_eq_true_eq] at he'
  exact ⟨he'.1.1, he'.1.2, he'.2⟩

theorem completed_by_covering_proof_one :
    (run (SignedLedger.step (sampleProofs [(signedAbout .ingestAck).bytes]) sampleConfig)
        (.boot (sampleWorld 0)) (provenRun .ingestAck)).completed.length = 1
      ∧ ∀ c ∈ (run (SignedLedger.step (sampleProofs [(signedAbout .ingestAck).bytes]) sampleConfig)
        (.boot (sampleWorld 0)) (provenRun .ingestAck)).completed,
        c.Covered (sampleProofs [(signedAbout .ingestAck).bytes]) :=
  ⟨by decide +kernel, completed_by_covering_proof _ sampleConfig (sampleWorld 0)
    (provenRun .ingestAck) ⟨trivial, trivial, inTime_of_all (by decide +kernel), trivial⟩⟩

/-- **A proof that the root holds nothing completes the write.** The root has signed no proof of
ingestion at all. -/
theorem completed_by_receipt_nack :
    (run (SignedLedger.step (sampleProofs [(signedAbout .receiptNack).bytes]) sampleConfig)
        (.boot (sampleWorld 0)) (provenRun .receiptNack)).ledger.flights.size = 0
      ∧ ¬∀ c ∈ (run (SignedLedger.step (sampleProofs [(signedAbout .receiptNack).bytes])
        sampleConfig) (.boot (sampleWorld 0)) (provenRun .receiptNack)).completed,
        c.Covered (sampleProofs [(signedAbout .receiptNack).bytes]) := by
  refine ⟨by decide +kernel, fun h => ?_⟩
  have hlen : (run (SignedLedger.step (sampleProofs [(signedAbout .receiptNack).bytes]) sampleConfig)
    (.boot (sampleWorld 0)) (provenRun .receiptNack)).completed.length = 1 := by decide +kernel
  obtain ⟨c, hc⟩ := List.exists_mem_of_length_pos (hlen ▸ Nat.one_pos)
  obtain ⟨t, sig, hverify, -, hpurpose, -⟩ := h c hc
  have hsigned : t.bytes = (signedAbout .receiptNack).bytes := by
    have := of_decide_eq_true (Option.some.inj hverify)
    exact List.mem_singleton.mp this.1
  rw [AckTranscript.purpose_of_bytes hsigned] at hpurpose
  cases hpurpose

end Axona
