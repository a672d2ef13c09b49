import Axona.Identity.Keys
import Axona.Safety.Tombstones

/-! # One signed message, one id

The id of a message is a digest of what its author is called and of its content; its signature is
checked against the bytes that the author's name spells. The reader of hex digits is lenient, so
most keys have several spellings. Here: the keys that have one, and that a message has one id
exactly when its author's key is one of them. -/

namespace Axona

open Library

/-! ### Spellings of a byte -/

/-- Both hex digits of the byte are decimal digits, and the first is not zero. -/
def plainByte (b : Nat) : Bool := 1 ≤ b / 16 && b / 16 ≤ 9 && b % 16 ≤ 9

/-- The two hex digits of a byte, in lower case. -/
def lowerSpelling (b : Nat) : Char × Char := (Nat.digitChar (b / 16), Nat.digitChar (b % 16))

/-- Another way to spell a byte: in upper case, or a digit with a sign in front. -/
def otherSpelling (b : Nat) : Char × Char :=
  if b < 16 then ('+', Nat.digitChar b)
  else ((Nat.digitChar (b / 16)).toUpper, (Nat.digitChar (b % 16)).toUpper)

/-- The two characters, of one unit each, denote the byte. -/
def Spells (s : Char × Char) (b : Nat) : Prop :=
  hexByte s.1 s.2 = b ∧ s.1.toNat < 0x10000 ∧ s.2.toNat < 0x10000

instance (s : Char × Char) (b : Nat) : Decidable (Spells s b) :=
  inferInstanceAs (Decidable (_ ∧ _ ∧ _))

/-- Both spellings of a byte denote it, and they differ unless the byte is plain. -/
theorem spellings : ∀ b < 256, Spells (lowerSpelling b) b ∧ Spells (otherSpelling b) b
      ∧ (plainByte b = false → lowerSpelling b ≠ otherSpelling b) := by
  decide +kernel

/-- A decimal digit has one character. -/
theorem hexDigit?_decimal {c : Char} {v : Nat} (h : hexDigit? c = some v) (hv : v ≤ 9) :
    c.toNat = 48 + v := by
  unfold hexDigit? at h
  split at h
  next hc =>
    rw [Bool.and_eq_true, decide_eq_true_eq, decide_eq_true_eq] at hc
    have h0 : '0'.toNat ≤ c.toNat := hc.1
    have heq := Option.some.inj h
    have hz : '0'.toNat = 48 := rfl
    omega
  split at h
  · have heq := Option.some.inj h
    omega
  split at h
  · have heq := Option.some.inj h
    omega
  · cases h

/-- **A plain byte has one spelling.** -/
theorem hexByte_plain {a b : Char} {n : Nat} (h : hexByte a b = n) (hn : plainByte n = true) :
    a.toNat = 48 + n / 16 ∧ b.toNat = 48 + n % 16 := by
  unfold plainByte at hn
  rw [Bool.and_eq_true, Bool.and_eq_true, decide_eq_true_eq, decide_eq_true_eq,
    decide_eq_true_eq] at hn
  obtain ⟨⟨hlow, hhigh⟩, hmod⟩ := hn
  unfold hexByte at h
  cases hx : hexDigit? a with
  | none =>
    rw [hx] at h
    cases hy : hexDigit? b with
    | none =>
      rw [hy] at h
      simp only [] at h
      omega
    | some y =>
      have hy16 := hexDigit?_lt hy
      rw [hy] at h
      simp only [] at h
      split at h
      · omega
      split at h
      · omega
      · omega
  | some x =>
    have hx16 := hexDigit?_lt hx
    rw [hx] at h
    cases hy : hexDigit? b with
    | none =>
      rw [hy] at h
      simp only [] at h
      omega
    | some y =>
      have hy16 := hexDigit?_lt hy
      rw [hy] at h
      simp only [] at h
      have hxn : x = n / 16 := by omega
      have hyn : y = n % 16 := by omega
      subst hxn hyn
      exact ⟨hexDigit?_decimal hx hhigh, hexDigit?_decimal hy hmod⟩

/-! ### Spellings of a key -/

/-- The text that spells the bytes, each with `f`. -/
def spell (f : Nat → Char × Char) : List Nat → Text
  | [] => []
  | b :: bs => (f b).1 :: (f b).2 :: spell f bs

variable {bs : List Nat}

theorem lt_of_mem_spell {f : Nat → Char × Char} (hf : ∀ b ∈ bs, Spells (f b) b) :
    ∀ c ∈ spell f bs, c.toNat < 0x10000 := by
  induction bs with
  | nil => exact fun c => nofun
  | cons b bs ih =>
    obtain ⟨-, hfirst, hsecond⟩ := hf b List.mem_cons_self
    intro c hc
    rcases List.mem_cons.mp hc with rfl | hc
    · exact hfirst
    rcases List.mem_cons.mp hc with rfl | hc
    · exact hsecond
    · exact ih (fun b' hb' => hf b' (List.mem_cons_of_mem _ hb')) c hc

theorem hexToBytes_spell {f : Nat → Char × Char} (hf : ∀ b ∈ bs, Spells (f b) b) :
    hexToBytes (spell f bs) = some bs := by
  rw [hexToBytes_of_lt (lt_of_mem_spell hf)]
  induction bs with
  | nil => rfl
  | cons b bs ih =>
    rw [spell, hexPairs, ih fun b' hb' => hf b' (List.mem_cons_of_mem _ hb'),
      (hf b List.mem_cons_self).1]
    rfl

theorem hexPairs_plain {s t : List Char} (hs : hexPairs s = some bs) (ht : hexPairs t = some bs)
    (hplain : ∀ b ∈ bs, plainByte b = true) : s = t := by
  induction s using hexPairs.induct generalizing t bs with
  | case1 =>
    cases hs
    induction t using hexPairs.induct with
    | case1 => rfl
    | case2 c => cases ht
    | case3 a b rest _ =>
      rw [hexPairs, Option.map_eq_some_iff] at ht
      obtain ⟨_, _, ⟨⟩⟩ := ht
  | case2 c => cases hs
  | case3 a b rest ih =>
    rw [hexPairs, Option.map_eq_some_iff] at hs
    obtain ⟨bs', hrest, rfl⟩ := hs
    cases t with
    | nil => cases ht
    | cons a' t =>
      cases t with
      | nil => cases ht
      | cons b' rest' =>
        rw [hexPairs, Option.map_eq_some_iff] at ht
        obtain ⟨bs'', hrest', heq⟩ := ht
        obtain ⟨hbyte, rfl⟩ := List.cons.inj heq
        have hp := hplain _ List.mem_cons_self
        obtain ⟨ha, hb⟩ := hexByte_plain rfl hp
        obtain ⟨ha', hb'⟩ := hexByte_plain hbyte hp
        rw [ih hrest hrest' fun b hb => hplain b (List.mem_cons_of_mem _ hb),
          Char.toNat_inj.mp (ha.trans ha'.symm), Char.toNat_inj.mp (hb.trans hb'.symm)]

/-- The characters that spell plain bytes are decimal digits. -/
theorem toNat_le_of_hexPairs {s : List Char} (hs : hexPairs s = some bs)
    (hplain : ∀ b ∈ bs, plainByte b = true) : ∀ c ∈ s, c.toNat ≤ 57 := by
  induction s using hexPairs.induct generalizing bs with
  | case1 => exact fun c hc => absurd hc List.not_mem_nil
  | case2 c => cases hs
  | case3 a b rest ih =>
    rw [hexPairs, Option.map_eq_some_iff] at hs
    obtain ⟨bs', hrest, rfl⟩ := hs
    have hp := hplain _ List.mem_cons_self
    obtain ⟨ha, hb⟩ := hexByte_plain rfl hp
    simp only [plainByte, Bool.and_eq_true, decide_eq_true_eq] at hp
    intro c hc
    rcases List.mem_cons.mp hc with rfl | hc
    · omega
    rcases List.mem_cons.mp hc with rfl | hc
    · omega
    · exact ih hrest (fun b hb => hplain b (List.mem_cons_of_mem _ hb)) c hc

/-- **A key of plain bytes has one spelling.** -/
theorem hexToBytes_plain {s t : Text} (hs : hexToBytes s = some bs) (ht : hexToBytes t = some bs)
    (hplain : ∀ b ∈ bs, plainByte b = true) : s = t := by
  -- no unit of either text is half of a pair
  have hunits : ∀ u : Text, hexToBytes u = some bs → (units u).map unitChar = u := by
    refine fun u hu => map_unitChar_units fun hmem => ?_
    exact absurd (toNat_le_of_hexPairs hu hplain _ hmem) (by decide)
  rw [← hunits s hs, ← hunits t ht]
  exact hexPairs_plain hs ht hplain

theorem spell_ne (hbytes : ∀ b ∈ bs, b < 256) {b : Nat} (hb : b ∈ bs)
    (hplain : plainByte b = false) : spell lowerSpelling bs ≠ spell otherSpelling bs := by
  induction bs with
  | nil => cases hb
  | cons b' bs ih =>
    intro heq
    rw [spell, spell] at heq
    obtain ⟨h1, heq⟩ := List.cons.inj heq
    obtain ⟨h2, heq⟩ := List.cons.inj heq
    rcases List.mem_cons.mp hb with rfl | hb'
    · exact (spellings b (hbytes b List.mem_cons_self)).2.2 hplain (Prod.ext h1 h2)
    · exact ih (fun c hc => hbytes c (List.mem_cons_of_mem _ hc)) hb' heq

/-! ### Envelopes that nodes accept -/

/-- **Some node verifies the envelope and caches it**: in a reachable state a handler that was waiting
for the signature check runs on, and the id of the envelope is new in the cache of its role. -/
inductive Accepts (P : Primitives) (e : Envelope) : Prop
  | published (cfg : Config) (hcfg : cfg.toPrimitives = P) (w w' : World) (as : Run) {k : Nat}
      {ρ : RoleRef} {cut : Cut} {json : Json} {id : MsgId}
      (hparked : (run (Node.step cfg) (.boot w) as).parked.get k = some (.publish ρ cut json))
      (hparsed : json.parsed = some e) (hid : e.msgId = some id)
      (hnew : id ∉ ((run (Node.step cfg) (.boot w) as).role ρ).cacheIds)
      (hheld : id ∈ ((({ run (Node.step cfg) (.boot w) as with world := w' } : Node).resumePublish
        cfg ρ cut json).role ρ).cacheIds)
  | stamped (cfg : Config) (hcfg : cfg.toPrimitives = P) (w w' : World) (as : Run) {k : Nat}
      {ρ : RoleRef} {cut : Cut} {m : Stamped} {ms : List Stamped} {tally : Tally} {after : After}
      (hparked : (run (Node.step cfg) (.boot w) as).parked.get k =
        some (.ingest ρ cut (m :: ms) tally after))
      (hparsed : m.json.parsed = some e)
      (hnew : m.msgId ∉ ((run (Node.step cfg) (.boot w) as).role ρ).cacheIds)
      (hheld : m.msgId ∈ ((({ run (Node.step cfg) (.boot w) as with world := w' } :
        Node).ingestStamped
        cfg ρ m cut).2.role ρ).cacheIds)

variable {P : Primitives} {e : Envelope}

/-- What is accepted was verified. -/
theorem Accepts.verified (h : Accepts P e) : verifyEnvelope P e = .ok := by
  cases h with
  | published cfg hcfg w w' as hparked hparsed hid hnew hheld =>
    by_contra hbad
    unfold Node.resumePublish at hheld
    rw [hparsed, hcfg] at hheld
    simp only [] at hheld
    rw [if_pos hbad] at hheld
    exact hnew hheld
  | @stamped cfg hcfg w w' as k ρ cut m ms tally after hparked hparsed hnew hheld =>
    by_contra hbad
    unfold Node.ingestStamped at hheld
    rw [hparsed, hcfg] at hheld
    simp only [] at hheld
    have hcond : (decide (verifyEnvelope P e ≠ .ok) || decide (e.msgId ≠ some m.msgId)) = true := by
      rw [decide_eq_true hbad, Bool.true_or]
    rw [if_pos hcond] at hheld
    exact hnew hheld

/-- A body is in the cache it is pushed to, when that was empty. -/
theorem mem_push_empty {r : Role} (hcache : r.cache = []) {cacheMax cacheBytes : Nat}
    {m : Stamped} (hmax : 1 ≤ cacheMax) (hbytes : r.cacheBytes + m.bytes ≤ cacheBytes) :
    m.msgId ∈ (r.push cacheMax cacheBytes m).cacheIds := by
  have hfresh : r.superseded m.publishTs = false := by
    unfold Role.superseded
    rw [hcache, List.any_nil, Bool.and_false]
  have hlength : (r.append m).cache.length = 1 := by
    unfold Role.append
    rw [hcache]
    rfl
  have hkeep : (r.append m).evict cacheMax cacheBytes 2 = r.append m := by
    unfold Role.evict
    refine if_neg ?_
    rw [hlength, not_or, not_lt, not_lt]
    exact ⟨hmax, hbytes⟩
  have htrim : (r.append m).trimToLatest = r.append m := by
    unfold Role.trimToLatest
    refine if_neg ?_
    rw [hlength]
    rintro ⟨-, hlt⟩
    exact absurd hlt (lt_irrefl 1)
  unfold Role.push
  rw [hfresh]
  simp only [Bool.false_eq_true, if_false]
  rw [hlength, hkeep, htrim]
  exact Finset.mem_insert_self _ _

theorem role_deliverToApp (n : Node) (t : TopicId) (id : MsgId) (ts : Int) (ρ : RoleRef) :
    (n.deliverToApp t id ts).role ρ = n.role ρ := by
  unfold Node.deliverToApp
  split
  · rfl
  split
  · rfl
  · unfold Node.sawStamp
    split <;> rfl

variable {d : Descriptor}

/-- **The ingest of a stamped body that passes every check.** -/
theorem ingestStamped_eq {cfg : Config} {n n₂ n₃ : Node} {ρ : RoleRef} {m : Stamped} {cut : Cut}
    (hparsed : m.json.parsed = some e) (hok : verifyEnvelope cfg.toPrimitives e = .ok)
    (hid : e.msgId = some m.msgId) (hd : e.topic = some d)
    (ht : deriveTopicId cfg.toPrimitives d = some (n.role ρ).topicId)
    (hclock : ¬n.now + futureToleranceMs < m.publishTs)
    (hnew : m.msgId ∉ ((n.modifyRole ρ fun r => r.noteMetric d).role ρ).cacheIds)
    (htomb : (n.modifyRole ρ fun r => r.noteMetric d).tombstoned (some ρ) m.msgId m.json = (false,
      n₂)) (hpush : n₂.cachePush cfg ρ m (some cut) = (true, n₃)) :
    (n.ingestStamped cfg ρ m cut).2 =
      ((n₃.modifyRole ρ fun r => r.recover m.publishTs m.seq).note
        (.ingested ρ m.publishTs m.seq true)).deliverToApp (n.role ρ).topicId m.msgId
          m.publishTs := by
  have hchecked :
      ¬(decide (verifyEnvelope cfg.toPrimitives e ≠ .ok) || decide (e.msgId ≠ some m.msgId))
        = true := by
    rw [hok, hid]
    simp
  have hclock' : ¬(n.modifyRole ρ fun r => r.noteMetric d).now + futureToleranceMs < m.publishTs :=
    hclock
  unfold Node.ingestStamped
  rw [hparsed]
  simp only []
  rw [if_neg hchecked, hd]
  simp only []
  rw [if_neg (not_not.mpr ht), if_neg hclock', if_neg hnew, htomb]
  simp only []
  rw [hpush]

/-- What is verified and names a topic is accepted: a node that is asked to stand by for the topic
takes it as history. -/
theorem accepts_of_verified {t : TopicId} {id : MsgId} (hid : e.msgId = some id)
    (hd : e.topic = some d) (ht : deriveTopicId P d = some t) (hok : verifyEnvelope P e = .ok) :
    Accepts P e := by
  set cfg : Config := { sampleConfig with toPrimitives := P } with hcfg
  set w := sampleWorld 0 with hw
  set m : Stamped := ⟨id, 0, ⟨0, some e⟩, none⟩ with hm
  set as : Run := [(w, .replicate ⟨t, some 1, [m], []⟩ none true)] with has
  set n : Node := run (Node.step cfg) (.boot w) as with hn
  have hrole : n.role 0 = { makeRole t false 0 with backupOf := some 1 } := rfl
  have hparked : n.parked.get 0 = some (.ingest 0 ⟨0, 0⟩ [m] ⟨1, 0, 0, false⟩ .done) := rfl
  have hroles : n.axonRoles.get t = some 0 := by
    show ((∅ : OrderedMap TopicId RoleRef).set t 0).get t = some 0
    rw [OrderedMap.get_set, if_pos rfl]
  refine @Accepts.stamped P e cfg rfl w w as 0 0 ⟨0, 0⟩ m [] ⟨1, 0, 0,
    false⟩ .done hparked rfl ?_ ?_
  · show id ∉ (n.role 0).cacheIds
    rw [hrole]
    exact Finset.notMem_empty _
  · -- the kind of the topic is noted, and nothing else of the role changes before the push
    set n₁ := n.modifyRole 0 fun r => r.noteMetric d with hn₁
    have hrole₁ : n₁.role 0 =
        { makeRole t false 0 with
          backupOf := some 1, latestOnly := some (isMetricTopicName d.name) } := by
      rw [hn₁, Node.role_modifyRole_self, hrole]
      rfl
    set n₂ := n₁.modifyRole 0 fun _ => n₁.role 0 with hn₂
    have hrole₂ : n₂.role 0 = n₁.role 0 := Node.role_modifyRole_self ..
    have htomb : n₁.tombstoned (some 0) m.msgId m.json = (false, n₂) := by
      unfold Node.tombstoned
      rw [hn₂, hrole₁]
      rfl
    have hcut : n₂.cutHolds 0 (some ⟨0, 0⟩) = true := by
      have hat : n₂.roleAt t = some 0 := hroles
      unfold Node.cutHolds
      rw [hrole₂, hrole₁]
      show (if ((n₂.roleAt t).any fun live => decide (live ≠ 0)) = true then false else _) = true
      rw [hat]
      rfl
    have heq : (n.ingestStamped cfg 0 m ⟨0, 0⟩).2 = _ := ingestStamped_eq rfl hok hid hd ht
      (show ¬(0 : Int) + futureToleranceMs < 0 by decide)
      (by
        rw [← hn₁, hrole₁]
        exact Finset.notMem_empty _)
      htomb (if_pos hcut)
    show id ∈ ((n.ingestStamped cfg 0 m ⟨0, 0⟩).2.role 0).cacheIds
    rw [heq]
    have hheld : id ∈ ((n₂.role 0).push cfg.cacheMax cfg.cacheBytes m).cacheIds := by
      rw [hrole₂, hrole₁]
      exact mem_push_empty rfl (show 1 ≤ 1024 by decide)
        (show (0 : Int) + 80 ≤ 1024 * 1024 by decide)
    rw [role_deliverToApp]
    show id ∈ (((n₂.modifyRole 0 fun r => r.push cfg.cacheMax cfg.cacheBytes m).modifyRole 0
      fun r => r.recover 0 none).role 0).cacheIds
    rw [Node.role_modifyRole_self, Node.role_modifyRole_self]
    exact hheld

/-! ### One id for one message -/

/-- The digest of author and content never collides on the name of the author. -/
def AuthorsApart (P : Primitives) : Prop :=
  ∀ a b m, P.computeMsgId (some a) m = P.computeMsgId (some b) m → a = b

/-- The envelope carries the content `c` and a signature, and its key is spelled to be `k`. -/
structure SignedBy (k : List Nat) (c : Core) (e : Envelope) : Prop where
  seq : e.seq = some c.seq
  ts : e.ts = some c.ts
  topic : e.topic = some c.topic
  message : e.message = some c.message
  signed : e.signature.isSome = true
  key : ∃ pk, e.signerPubkey = .text pk ∧ hexToBytes pk = some k

/-- What a verified envelope with a signature has as its id. -/
theorem msgId_of_verified {k : List Nat} {c : Core} (h : SignedBy k c e) {pk : Text}
    (hpk : e.signerPubkey = .text pk) (hok : verifyEnvelope P e = .ok) :
    e.msgId = some (P.computeMsgId (some pk) c.message) := by
  obtain ⟨sig, hsig⟩ := Option.isSome_iff_exists.mp h.signed
  unfold verifyEnvelope at hok
  rw [h.ts, h.topic, h.message, h.seq, hsig, hpk] at hok
  cases hid : e.msgId with
  | none =>
    rw [hid] at hok
    cases hok
  | some id =>
    rw [hid] at hok
    simp only [] at hok
    split at hok
    · cases hok
    split at hok
    next hcheck =>
      split at hok
      next heq => rw [heq]
      · cases hok
    next hcheck => exact absurd hok hcheck

/-- The envelope of a content under a spelling of its author's key. -/
def envelopeOf (P : Primitives) (c : Core) (sig pk : Text) : Envelope :=
  ⟨some (P.computeMsgId (some pk) c.message), some c.seq, some c.ts, some c.topic, some c.message,
    some sig, .text pk⟩

/-- **Whatever spells the key is verified.** -/
theorem verify_envelopeOf {c : Core} {k s : List Nat} {sig pk : Text}
    (hname : c.topic.name.isSome = true) (hpk : hexToBytes pk = some k) (hk : k.length = 32)
    (htag : signatureTag.isPrefixOf sig = true)
    (hsig : hexToBytes (sig.drop signatureTag.length) = some s) (hs : s.length = 64)
    (hverify : P.verify k c s = true) : verifyEnvelope P (envelopeOf P c sig pk) = .ok := by
  have hcheck : checkSignature (fun k s => P.verify k c s) sig pk = .ok := by
    unfold checkSignature
    rw [if_pos htag, hsig, hpk]
    simp only []
    rw [hs, hk]
    exact (if_neg (by decide)).trans (if_pos hverify)
  unfold verifyEnvelope envelopeOf
  simp only []
  rw [if_neg (by simpa using Option.isSome_iff_ne_none.mp hname), hcheck]
  rw [if_pos trivial]

/-- A descriptor without a name derives no topic. -/
theorem name_of_derive {t : TopicId} (h : deriveTopicId P d = some t) :
    d.name.isSome = true := by
  cases hn : d.name with
  | some name => rfl
  | none =>
    unfold deriveTopicId resolveTopic at h
    rw [hn] at h
    cases h

/-- **One signed message has one id exactly when its author's key has one spelling**: for an author
who signed a content that names a topic, any two accepted envelopes that carry his signature over
it have the same id, if and only if every byte of his key is spelled by two decimal digits, the
first of them not zero. -/
theorem one_identity (P : Primitives) (hP : AuthorsApart P) (k : List Nat) (hk : k.length = 32)
    (hbytes : ∀ b ∈ k, b < 256) (c : Core) (t : TopicId) (ht : deriveTopicId P c.topic = some t)
    (sig : Text) (s : List Nat) (htag : signatureTag.isPrefixOf sig = true)
    (hsig : hexToBytes (sig.drop signatureTag.length) = some s) (hs : s.length = 64)
    (hverify : P.verify k c s = true) :
    (∀ e e', SignedBy k c e → SignedBy k c e' → Accepts P e → Accepts P e' → e.msgId = e'.msgId)
      ↔ ∀ b ∈ k, plainByte b = true := by
  constructor
  · intro hone b hb
    by_contra hplain
    rw [Bool.not_eq_true] at hplain
    -- the two spellings of the key give the content two ids
    have hspell : ∀ f : Nat → Char × Char, (∀ b ∈ k, Spells (f b) b) →
        SignedBy k c (envelopeOf P c sig (spell f k)) ∧ Accepts P (envelopeOf P c sig (spell f k)) := by
      intro f hf
      have hkey := hexToBytes_spell hf
      refine ⟨⟨rfl, rfl, rfl, rfl, rfl, _, rfl, hkey⟩, accepts_of_verified rfl rfl ht ?_⟩
      exact verify_envelopeOf (name_of_derive ht) hkey hk htag hsig hs hverify
    obtain ⟨hlower, hacclower⟩ := hspell lowerSpelling fun b hb => (spellings b (hbytes b hb)).1
    obtain ⟨hother, haccother⟩ := hspell otherSpelling fun b hb => (spellings b (hbytes b hb)).2.1
    have hids := hone _ _ hlower hother hacclower haccother
    exact spell_ne hbytes hb hplain (hP _ _ _ (Option.some.inj hids))
  · intro hplain e e' he he' hacc hacc'
    obtain ⟨pk, hpk, hkey⟩ := he.key
    obtain ⟨pk', hpk', hkey'⟩ := he'.key
    rw [msgId_of_verified he hpk hacc.verified, msgId_of_verified he' hpk' hacc'.verified,
      hexToBytes_plain hkey hkey' hplain]

/-- The digests of the sample never collide. -/
theorem samplePrimitives_apart : AuthorsApart samplePrimitives := by
  intro a b m h
  exact List.append_cancel_right h

/-- The content of a post to the sample topic. -/
def sampleCore : Core := ⟨0, 1000, sampleTopic, 3⟩

/-- A post signed with the key whose digits are all `x`, with the key spelled `pk`. -/
def spelledPost (x : Char) (pk : Text) : Json :=
  ⟨300, some (envelopeOf samplePrimitives sampleCore (signatureTag ++ List.replicate 128 x) pk)⟩

/-- An author whose key has one spelling. -/
theorem one_identity_plain :
    (∀ e e', SignedBy (List.replicate 32 0x11) sampleCore e →
      SignedBy (List.replicate 32 0x11) sampleCore e' →
      Accepts samplePrimitives e → Accepts samplePrimitives e' → e.msgId = e'.msgId)
    ↔ ∀ b ∈ List.replicate 32 0x11, plainByte b = true :=
  one_identity samplePrimitives samplePrimitives_apart (List.replicate 32 0x11) (by decide)
    (by decide) sampleCore sampleTopicId (by decide +kernel)
    (signatureTag ++ List.replicate 128 '1') (List.replicate 64 0x11) (by decide +kernel)
    (by decide +kernel) (by decide) (by decide +kernel)

/-- The author's post, and the same post with the key in upper case: the root of the topic caches both, each
under an id of its own. -/
theorem two_identities :
    hexToBytes (List.replicate 64 'a') = hexToBytes (List.replicate 64 'A')
      ∧ (((run (Node.step sampleConfig) (.boot (sampleWorld 1000))
        [(sampleWorld 1000, .pub ⟨sampleTopicId, ⟨[], true⟩, .none, .none,
            spelledPost 'a' (List.replicate 64 'a')⟩),
          (sampleWorld 1000, .resume 0 .checked),
          (sampleWorld 1000, .pub ⟨sampleTopicId, ⟨[], true⟩, .none, .none,
            spelledPost 'a' (List.replicate 64 'A')⟩),
          (sampleWorld 1000, .resume 2 .checked)]).role 0).cache.map (·.msgId)
        = [List.replicate 64 'a' ++ ['.', '.', '.'], List.replicate 64 'A' ++ ['.', '.', '.']])
      ∧ ¬∀ e e', SignedBy (List.replicate 32 0xaa) sampleCore e →
        SignedBy (List.replicate 32 0xaa) sampleCore e' →
        Accepts samplePrimitives e → Accepts samplePrimitives e' → e.msgId = e'.msgId := by
  refine ⟨by decide +kernel, by decide +kernel, fun hone => ?_⟩
  have haccepts : ∀ x ∈ ['a', 'A'],
      Accepts samplePrimitives (envelopeOf samplePrimitives sampleCore
        (signatureTag ++ List.replicate 128 'a') (List.replicate 64 x)) := by
    intro x hx
    refine accepts_of_verified (t := sampleTopicId) rfl rfl (by decide +kernel) ?_
    rcases List.mem_cons.mp hx with rfl | hx'
    · decide +kernel
    · rw [List.mem_singleton.mp hx']
      decide +kernel
  have hsigned : ∀ x ∈ ['a', 'A'],
      SignedBy (List.replicate 32 0xaa) sampleCore (envelopeOf samplePrimitives sampleCore
        (signatureTag ++ List.replicate 128 'a') (List.replicate 64 x)) := by
    intro x hx
    refine ⟨rfl, rfl, rfl, rfl, rfl, _, rfl, ?_⟩
    rcases List.mem_cons.mp hx with rfl | hx'
    · decide +kernel
    · rw [List.mem_singleton.mp hx']
      decide +kernel
  have hids := hone _ _ (hsigned 'a' (by decide)) (hsigned 'A' (by decide))
    (haccepts 'a' (by decide)) (haccepts 'A' (by decide))
  exact absurd hids (by decide +kernel)

end Axona
