import Axona.Library.Digits
import Axona.Pubsub.Transcripts
import Axona.Safety.Proofs

/-! # What a signature covers

Each builder begins with a domain of its own, and all its fields but one have a fixed width; the one
that has none is led by its length. So the bytes tell the builder and every argument, up to the way
a builder reads it, but for the epoch of an offer: of that only the lowest 32 bits are signed. -/

namespace Axona

open Library

/-! ### Fields -/

variable {bs : List Nat}

theorem ofBytes_lt (h : ∀ b ∈ bs, b < 256) : ofBytes bs < 256 ^ bs.length :=
  ofFixed_lt h

/-- A hex text of just so many bytes spells a number that fits in them. -/
theorem hexValue_lt_of_hexOfWidth {width : Nat} {t : Text} (h : hexOfWidth width t = some bs) :
    hexValue t < 256 ^ width := by
  have hbytes := hexOfWidth_bytes h
  unfold hexOfWidth at h
  split at h
  next hok =>
    obtain ⟨cs, hcs⟩ := Option.isSome_iff_exists.mp
      (hexToBytes_isSome (t := t) hok.2 (by rw [hok.1]; exact Nat.mul_mod_right 2 width))
    obtain ⟨hlen, hlt, hfold⟩ := hexToBytes_spells hok.2 hcs
    have hwidth : cs.length = width := by omega
    have hvalue : hexValue t = ofBytes cs := hfold 0
    rw [hvalue, ← hwidth]
    exact ofBytes_lt hlt
  · cases h

theorem hexValue_lc (t : Text) : hexValue (lc t) = hexValue t := by
  unfold hexValue lc
  rw [List.foldl_map]
  simp only [hexDigit?_toLower]

namespace FieldArg

/-- What a builder reads from a field of a given width. -/
structure Reads (a : FieldArg) (width : Nat) (bs : List Nat) : Prop where
  octets : bs = a.octets
  length : bs.length = width
  number : bs = bigEndian width a.number
  fits : a.number < 256 ^ width

theorem reads_of_decode {a : FieldArg} {width : Nat} {bs : List Nat}
    (h : a.decode width = some bs) : a.Reads width bs := by
  cases a with
  | bytes b =>
    rw [decode] at h
    split at h
    next hlen =>
      cases h
      have hlen' : (b.map UInt8.toNat).length = width := by rw [List.length_map, hlen]
      have hlt : ∀ x ∈ b.map UInt8.toNat, x < 256 := by
        intro x hx
        obtain ⟨u, -, rfl⟩ := List.mem_map.mp hx
        exact u.toNat_lt
      refine ⟨rfl, hlen', ?_, ?_⟩
      · rw [← hlen']
        exact (bigEndian_ofBytes hlt).symm
      · rw [← hlen']
        exact ofBytes_lt hlt
    · cases h
  | other printed =>
    rw [decode] at h
    have hnumber : bs = bigEndian width (hexValue printed) := hexOfWidth_eq h
    refine ⟨hexOfWidth_bytes h, ?_, hnumber, hexValue_lt_of_hexOfWidth h⟩
    rw [hnumber, length_bigEndian]

end FieldArg

/-! ### What is covered -/

/-- The parts fit their widths. -/
def Covered.FitsWidths : Covered → Prop
  | .ackProof t => t.FitsWidths
  | .capability nodeId digest => nodeId < 256 ^ 33 ∧ digest.length = 32
  | .handoff _ topicId loser winner _ =>
    topicId < 256 ^ 33 ∧ loser < 256 ^ 33 ∧ winner < 256 ^ 33

/-- The seventh byte, where the domains differ. -/
def Covered.tag : Covered → Nat
  | .ackProof _ => 'I'.toNat
  | .capability .. => 'C'.toNat
  | .handoff .. => 'H'.toNat

theorem Covered.tag_of_bytes (c : Covered) : c.bytes[6]? = some c.tag := by
  cases c <;> simp only [Covered.bytes, AckTranscript.bytes, List.append_assoc] <;> rfl

theorem toUint32_inj {m n : Int} (h : toUint32 m = toUint32 n) : (2 ^ 32 : Int) ∣ m - n := by
  unfold toUint32 at h
  omega

theorem toUint32_lt (n : Int) : toUint32 n < 256 ^ 4 := by
  unfold toUint32
  omega

theorem toUint32_of_dvd {m n : Int} (h : (2 ^ 32 : Int) ∣ m - n) : toUint32 m = toUint32 n := by
  unfold toUint32
  omega

/-- Two offers that differ in their epochs alone, and there by a multiple of `2 ^ 32`. -/
def Covered.EpochWraps : Covered → Covered → Prop
  | .handoff corr topicId loser winner e, .handoff corr' topicId' loser' winner' e' =>
    (corr = corr' ∧ topicId = topicId' ∧ loser = loser' ∧ winner = winner')
      ∧ e ≠ e' ∧ (2 ^ 32 : Int) ∣ e - e'
  | _, _ => False

/-- The bytes of an offer tell all but its epoch, and that up to `2 ^ 32`. -/
theorem Covered.handoff_of_bytes {corr corr' : List Char} {topicId topicId' : TopicId}
    {loser loser' winner winner' : NodeId} {e e' : Int}
    (h : (Covered.handoff corr topicId loser winner e).FitsWidths)
    (h' : (Covered.handoff corr' topicId' loser' winner' e').FitsWidths)
    (heq : (Covered.handoff corr topicId loser winner e).bytes
      = (Covered.handoff corr' topicId' loser' winner' e').bytes) :
    (corr = corr' ∧ topicId = topicId' ∧ loser = loser' ∧ winner = winner')
      ∧ (2 ^ 32 : Int) ∣ e - e' := by
  obtain ⟨htopic, hloser, hwinner⟩ := h
  obtain ⟨htopic', hloser', hwinner'⟩ := h'
  unfold Covered.bytes at heq
  -- the widths are fixed behind the round, so the parts are told from the end
  obtain ⟨heq, hepoch⟩ := List.append_inj' heq (by simp)
  obtain ⟨heq, hw⟩ := List.append_inj' heq (by simp)
  obtain ⟨heq, hl⟩ := List.append_inj' heq (by simp)
  obtain ⟨heq, ht⟩ := List.append_inj' heq (by simp)
  have hround := (List.cons.inj (List.append_cancel_left heq)).2
  have hbytes := List.map_injective_iff.mpr (fun _ _ => UInt8.toNat_inj.mp) hround
  exact ⟨⟨utf8_inj hbytes, bigEndian_inj htopic htopic' ht, bigEndian_inj hloser hloser' hl,
    bigEndian_inj hwinner hwinner' hw⟩,
    toUint32_inj (bigEndian_inj (toUint32_lt e) (toUint32_lt e') hepoch)⟩

/-- The bytes of an attestation tell its arguments. -/
theorem Covered.capability_of_bytes {nodeId nodeId' : NodeId} {digest digest' : List Nat}
    (h : (Covered.capability nodeId digest).FitsWidths) (h' : (Covered.capability nodeId' digest').FitsWidths)
    (heq : (Covered.capability nodeId digest).bytes = (Covered.capability nodeId' digest').bytes) :
    nodeId = nodeId' ∧ digest = digest' := by
  unfold Covered.bytes at heq
  obtain ⟨heq, hdigest⟩ := List.append_inj' heq (h.2.trans h'.2.symm)
  obtain ⟨-, hnode⟩ := List.append_inj' heq (by simp)
  exact ⟨bigEndian_inj h.1 h'.1 hnode, hdigest⟩

/-- **The bytes tell what is covered**, up to the epochs of two offers. -/
theorem Covered.eq_or_wraps_of_bytes {c d : Covered} (hc : c.FitsWidths) (hd : d.FitsWidths)
    (h : c.bytes = d.bytes) : c = d ∨ c.EpochWraps d := by
  have htag : c.tag = d.tag := by
    apply Option.some.inj
    rw [← c.tag_of_bytes, h, d.tag_of_bytes]
  cases c with
  | ackProof t =>
    cases d with
    | ackProof t' => exact .inl (congrArg _ (AckTranscript.bytes_inj hc hd h))
    | capability | handoff => cases htag
  | capability nodeId digest =>
    cases d with
    | ackProof | handoff => cases htag
    | capability nodeId' digest' =>
      obtain ⟨rfl, rfl⟩ := Covered.capability_of_bytes hc hd h
      exact .inl rfl
  | handoff corr topicId loser winner e =>
    cases d with
    | ackProof | capability => cases htag
    | handoff corr' topicId' loser' winner' e' =>
      obtain ⟨hsame, hdvd⟩ := Covered.handoff_of_bytes hc hd h
      by_cases he : e = e'
      · obtain ⟨rfl, rfl, rfl, rfl⟩ := hsame
        exact .inl (by rw [he])
      · exact .inr ⟨hsame, he, hdvd⟩

/-- Offers whose epochs wrap have the same bytes. -/
theorem Covered.bytes_of_epochWraps {c d : Covered} (h : c.EpochWraps d) :
    c.bytes = d.bytes ∧ c ≠ d := by
  cases c with
  | ackProof | capability => cases h
  | handoff corr topicId loser winner e =>
    cases d with
    | ackProof | capability => cases h
    | handoff corr' topicId' loser' winner' e' =>
      obtain ⟨⟨rfl, rfl, rfl, rfl⟩, hne, hdvd⟩ := h
      constructor
      · rw [Covered.bytes, Covered.bytes, toUint32_of_dvd hdvd]
      · intro heq
        injection heq with _ _ _ _ he
        exact hne he
/-! ### The builders -/

theorem safeEpoch_eq {raw : Option Int} {e : Nat} (h : safeEpoch raw = some e) :
    e = (raw.getD 0).toNat ∧ e < 256 ^ 8 := by
  obtain ⟨n, rfl, hn⟩ := Option.bind_eq_some_iff.mp h
  split at hn
  next hsafe =>
    cases hn
    refine ⟨rfl, ?_⟩
    have hmax : maxSafeInteger < 256 ^ 8 := by decide
    omega
  · cases hn

theorem AckFields.covered_of_build {f : AckFields} (h : f.buildTranscript = .ok bs) :
    bs = (TranscriptArgs.ackProof f).covered.bytes ∧ (TranscriptArgs.ackProof f).covered.FitsWidths := by
  unfold AckFields.buildTranscript at h
  obtain ⟨purpose, hpurpose, h⟩ := ProofFailure.of_unless h
  obtain ⟨kill, hkill, h⟩ := ProofFailure.of_unless h
  obtain ⟨topic, htopic, h⟩ := ProofFailure.of_unless h
  obtain ⟨msg, hmsg, h⟩ := ProofFailure.of_unless h
  obtain ⟨e, he, h⟩ := ProofFailure.of_unless h
  obtain ⟨attempt, hattempt, h⟩ := ProofFailure.of_unless h
  obtain ⟨ackTo, hackTo, h⟩ := ProofFailure.of_unless h
  obtain ⟨nonce, hnonce, h⟩ := ProofFailure.of_unless h
  obtain ⟨rootPub, hrootPub, h⟩ := ProofFailure.of_unless h
  cases h
  have htopic := FieldArg.reads_of_decode htopic
  have hmsg := FieldArg.reads_of_decode hmsg
  have hattempt := FieldArg.reads_of_decode hattempt
  have hackTo := FieldArg.reads_of_decode hackTo
  have hnonce := FieldArg.reads_of_decode hnonce
  have hrootPub := FieldArg.reads_of_decode hrootPub
  obtain ⟨rfl, hepoch⟩ := safeEpoch_eq he
  constructor
  · unfold TranscriptArgs.covered Covered.bytes AckTranscript.bytes
    simp only [hpurpose, hkill, Option.getD_some, ← htopic.number, ← hmsg.octets, ← hattempt.number,
      ← hackTo.number, ← hnonce.number, ← hrootPub.octets]
  · exact {
      topicId := htopic.fits
      msgId := hmsg.octets ▸ hmsg.length
      epoch := hepoch
      attemptId := hattempt.fits
      ackTo := hackTo.fits
      flightNonce := hnonce.fits
      rootPub := hrootPub.octets ▸ hrootPub.length }

theorem CapFields.covered_of_build {f : CapFields} (h : f.buildCapTranscript = .ok bs) :
    bs = (TranscriptArgs.capability f).covered.bytes
      ∧ (TranscriptArgs.capability f).covered.FitsWidths := by
  unfold CapFields.buildCapTranscript at h
  split at h
  · cases h
  next node hnode =>
  split at h
  · cases h
  next digest hdigest =>
  split at h
  · cases h
  next hlen =>
  cases h
  have hnode := FieldArg.reads_of_decode hnode
  constructor
  · unfold TranscriptArgs.covered Covered.bytes
    simp only [hdigest, Option.getD_some, ← hnode.number]
  · refine ⟨hnode.fits, ?_⟩
    rw [hdigest, Option.getD_some, List.length_map]
    exact not_not.mp hlen

theorem HandoffFields.covered_of_build {f : HandoffFields} (h : f.handoffTranscript = .ok bs) :
    bs = (TranscriptArgs.handoff f).covered.bytes ∧ (TranscriptArgs.handoff f).covered.FitsWidths := by
  unfold HandoffFields.handoffTranscript at h
  simp only [] at h
  split at h
  · cases h
  split at h
  next topic loser winner htopic hloser hwinner =>
    cases h
    constructor
    · unfold TranscriptArgs.covered Covered.bytes
      simp only [hexOfWidth_eq htopic, hexOfWidth_eq hloser, hexOfWidth_eq hwinner, hexValue_lc]
    · have htopic := hexValue_lt_of_hexOfWidth htopic
      have hloser := hexValue_lt_of_hexOfWidth hloser
      have hwinner := hexValue_lt_of_hexOfWidth hwinner
      rw [hexValue_lc] at htopic hloser hwinner
      exact ⟨htopic, hloser, hwinner⟩
  · cases h

theorem eq_ok_of_toOption {ε α : Type} {r : Except ε α} {a : α} (h : r.toOption = some a) :
    r = .ok a := by
  cases r with
  | error e => cases h
  | ok b => exact congrArg _ (Option.some.inj h)

/-- **What is signed is what is covered**, in fields that fit. -/
theorem TranscriptArgs.covered_of_bytes {x : TranscriptArgs} (h : x.bytes? = some bs) :
    bs = x.covered.bytes ∧ x.covered.FitsWidths := by
  cases x with
  | ackProof f =>
    apply AckFields.covered_of_build
    exact eq_ok_of_toOption h
  | capability f =>
    apply CapFields.covered_of_build
    exact eq_ok_of_toOption h
  | handoff f =>
    apply HandoffFields.covered_of_build
    exact eq_ok_of_toOption h

/-- **Equal bytes cover the same**, whichever builders they are from, unless they are of two offers
that differ in their epochs alone, by a multiple of `2 ^ 32`. -/
theorem transcripts_told_apart (x y : TranscriptArgs) (xs ys : List Nat)
    (hx : x.bytes? = some xs) (hy : y.bytes? = some ys) :
    (xs = ys → x.covered = y.covered) ↔ ¬ x.covered.EpochWraps y.covered := by
  obtain ⟨rfl, hxfits⟩ := TranscriptArgs.covered_of_bytes hx
  obtain ⟨rfl, hyfits⟩ := TranscriptArgs.covered_of_bytes hy
  constructor
  · intro h hwraps
    obtain ⟨heq, hne⟩ := Covered.bytes_of_epochWraps hwraps
    exact hne (h heq)
  · intro hwraps heq
    exact (Covered.eq_or_wraps_of_bytes hxfits hyfits heq).resolve_right hwraps

/-- An offer of one round, with a given epoch. -/
def sampleOffer (loserEpoch : Int) : TranscriptArgs :=
  let id := List.replicate 66 'a'
  .handoff ⟨id, asciiUnits "r1".toList, id, id, loserEpoch⟩

theorem sampleOffer_covered (e : Int) :
    (sampleOffer e).bytes? = some (sampleOffer e).covered.bytes := by
  have hsome : (hexOfWidth 33 (lc (List.replicate 66 'a'))).isSome = true := by decide +kernel
  obtain ⟨id, hid⟩ := Option.isSome_iff_exists.mp hsome
  obtain rfl : id = bigEndian 33 (hexValue (List.replicate 66 'a')) := by
    rw [← hexValue_lc, ← hexOfWidth_eq hid]
  have hcorr : scalars (asciiUnits "r1".toList) = "r1".toList := by decide
  unfold sampleOffer TranscriptArgs.bytes? HandoffFields.handoffTranscript
  simp only [hid, hcorr]
  rfl

/-- Epochs that are not a multiple of `2 ^ 32` apart are told apart. -/
theorem transcripts_told_apart_epochs : ∃ xs ys,
    (sampleOffer 1).bytes? = some xs ∧ (sampleOffer 2).bytes? = some ys
      ∧ (xs = ys → (sampleOffer 1).covered = (sampleOffer 2).covered) := by
  refine ⟨_, _, sampleOffer_covered 1, sampleOffer_covered 2, ?_⟩
  apply (transcripts_told_apart _ _ _ _ (sampleOffer_covered 1) (sampleOffer_covered 2)).mpr
  rintro ⟨-, -, hdvd⟩
  revert hdvd
  decide

/-- Offers of the epochs `0` and `2 ^ 32` are signed by the same bytes. -/
theorem epochs_share_a_transcript : ∃ (x y : TranscriptArgs) (bs : List Nat),
    x.bytes? = some bs ∧ y.bytes? = some bs ∧ x.covered ≠ y.covered := by
  refine ⟨sampleOffer 0, sampleOffer (2 ^ 32), (sampleOffer 0).covered.bytes,
    sampleOffer_covered 0, ?_, ?_⟩
  · rw [sampleOffer_covered]
    rfl
  · intro h
    injection h with _ _ _ _ he
    exact absurd he (by decide)

end Axona
