import Axona.Identity.Keys
import Axona.Pubsub.RootElection
import Axona.Safety.Keyspace

/-! # The order of claims

A claim comes in by a beacon: the parser takes its id as a text of hex digits and its epoch as an
integer, `0` where the sender gives none. `claimWins` compares two such claims by their epochs where
both give one, and otherwise by the distances of the nodes that the ids name. Of the claims of two
nodes exactly one wins. Where all give an epoch, or none does, the winner is that of a strict order;
among three of which only some do, three claims can win over one another in a circle. -/

namespace Axona

open Library

/-! ### What a beacon claims -/

/-- `isHexId` (`ids.js`): one to 66 hex digits in lower case. -/
def isHexId (s : Text) : Bool := 1 ≤ s.length && s.length ≤ 66 && s.all isLowerHex

/-- A hex text without the `0x` it may begin with. -/
def stripHexPrefix : Text → Text
  | '0' :: 'x' :: h => h
  | '0' :: 'X' :: h => h
  | h => h

/-- `asId`, for a text; `none` where it throws. -/
def asId (p : KeyspaceProfile) (v : Text) : Option NodeId :=
  let h := stripHexPrefix v
  if KeyspaceProfile.isHex h then
    if p.maxId < KeyspaceProfile.hexValue h then none else some (KeyspaceProfile.hexValue h)
  else none

/-- A claim as `claimWins` is given it: the id as text, and the epoch where it is an integer. -/
structure HexClaim where
  id : Text
  epoch : Option Int
deriving DecidableEq, Repr

/-- What `_onRootBeacon` makes of the root a beacon names and the epoch beside a topic; `none` where
it skips the topic. -/
def admitClaim (p : KeyspaceProfile) (root : Text) (rawE : Option Int) : Option HexClaim :=
  if isHexId (lc root) && (asId p root).isSome then some ⟨lc root,
    some (beaconEpoch rawE)⟩ else none

namespace HexClaim

/-- `claimWins`, for claims with their ids as texts; `none` where an id that is looked at is none. -/
def claimWins (p : KeyspaceProfile) (t : TopicId) (a b : HexClaim) : Option Bool :=
  let ea := a.epoch.getD 0
  let eb := b.epoch.getD 0
  if 0 < ea && 0 < eb && ea ≠ eb then some (eb < ea)
  else (asId p a.id).bind fun x => (asId p b.id).map fun y => distance t x < distance t y

/-- The claim with the id as a number, where it is one. -/
def read (p : KeyspaceProfile) (a : HexClaim) : Option (Claim NodeId) :=
  (asId p a.id).map fun x => ⟨x, a.epoch.getD 0⟩

end HexClaim

/-! ### Claims that were admitted -/

namespace KeyspaceProfile

theorem isHex_lc (s : Text) : isHex (lc s) = isHex s := by
  simp [isHex, lc, List.all_map, Function.comp_def, hexDigit?_toLower]

theorem hexValue_lc (s : Text) : hexValue (lc s) = hexValue s := by
  simp [hexValue, lc, Function.comp_def, hexDigit?_toLower]

end KeyspaceProfile

variable {p : KeyspaceProfile} {t : TopicId} {a b c : HexClaim}

/-- Hex digits do not begin with `0x`. -/
theorem stripHexPrefix_of_isHex {s : Text} (h : KeyspaceProfile.isHex s) :
    stripHexPrefix s = s := by
  rw [KeyspaceProfile.isHex, Bool.and_eq_true, List.all_eq_true] at h
  unfold stripHexPrefix
  split
  · exact absurd (h.2 'x' (by simp)) (by decide)
  · exact absurd (h.2 'X' (by simp)) (by decide)
  · rfl

theorem isHex_of_isHexId {s : Text} (h : isHexId s) : KeyspaceProfile.isHex s := by
  simp only [isHexId, Bool.and_eq_true, decide_eq_true_eq, List.all_eq_true] at h
  obtain ⟨⟨hlen, -⟩, hall⟩ := h
  rw [KeyspaceProfile.isHex, Bool.and_eq_true, List.all_eq_true]
  constructor
  · cases s with
    | nil => exact absurd hlen (by decide)
    | cons c s => rfl
  · intro c hc
    have := hall c hc
    simp only [isLowerHex, Bool.or_eq_true] at this
    unfold hexDigit?
    rcases this with h | h
    · rw [if_pos h]
      rfl
    · simp [h]
      split <;> rfl

/-- The parser writes the id in lower case; it names the same node. -/
theorem asId_lc {s : Text} (h : isHexId (lc s)) : asId p (lc s) = asId p s := by
  have hs : KeyspaceProfile.isHex (lc s) := isHex_of_isHexId h
  have hs' : KeyspaceProfile.isHex s := by rwa [KeyspaceProfile.isHex_lc] at hs
  rw [asId, asId, stripHexPrefix_of_isHex hs, stripHexPrefix_of_isHex hs', KeyspaceProfile.isHex_lc,
    KeyspaceProfile.hexValue_lc]

/-- A claim that was admitted names a node and an epoch that is not negative. -/
theorem read_of_admitClaim {root : Text} {rawE : Option Int} (h : admitClaim p root rawE = some a) :
    ∃ x, asId p root = some x ∧ a.read p = some ⟨x, beaconEpoch rawE⟩ := by
  unfold admitClaim at h
  split at h
  next hroot =>
    rw [Bool.and_eq_true] at hroot
    obtain ⟨x, hx⟩ := Option.isSome_iff_exists.mp hroot.2
    cases h
    refine ⟨x, hx, ?_⟩
    rw [HexClaim.read, asId_lc hroot.1, hx]
    rfl
  · cases h

/-- Claims that name nodes are compared as those nodes' claims. -/
theorem claimWins_of_read {x y : Claim NodeId} (ha : a.read p = some x) (hb : b.read p = some y) :
    a.claimWins p t b = some (Axona.claimWins t x y) := by
  obtain ⟨i, hi, rfl⟩ := Option.map_eq_some_iff.mp ha
  obtain ⟨j, hj, rfl⟩ := Option.map_eq_some_iff.mp hb
  unfold HexClaim.claimWins Axona.claimWins
  simp only []
  split
  · rfl
  · rw [hi, hj]
    rfl

/-! ### The order -/

namespace HexClaim

/-- The claim gives its epoch. -/
def Versioned (a : HexClaim) : Prop := 0 < a.epoch.getD 0

instance (a : HexClaim) : Decidable a.Versioned := inferInstanceAs (Decidable (0 < _))

end HexClaim

theorem versioned_of_read {x : Claim NodeId} (ha : a.read p = some x) :
    a.Versioned ↔ x.Versioned := by
  obtain ⟨i, -, rfl⟩ := Option.map_eq_some_iff.mp ha
  exact Iff.rfl

theorem asId_of_read {x : Claim NodeId} (ha : a.read p = some x) : asId p a.id = some x.id := by
  obtain ⟨i, hi, rfl⟩ := Option.map_eq_some_iff.mp ha
  exact hi

/-- Among claims of which none gives an epoch the distance alone decides. -/
theorem beats_trans_of_unversioned {dist : NodeId → Nat} {x y z : Claim NodeId}
    (hx : ¬ x.Versioned) (hz : ¬ z.Versioned) (hxy : Claim.Beats dist x y)
    (hyz : Claim.Beats dist y z) : Claim.Beats dist x z := by
  rw [Claim.beats_of_unversioned (.inl hx)] at hxy ⊢
  rw [Claim.beats_of_unversioned (.inr hz)] at hyz
  exact hxy.trans hyz

/-- **The order of claims.** No admitted claim wins over itself; of the claims of two nodes exactly
one wins; and winning is transitive among claims that all give their epochs, and among claims of
which none does. -/
theorem claims_ordered {root₁ root₂ root₃ : Text} {e₁ e₂ e₃ : Option Int}
    (ha : admitClaim p root₁ e₁ = some a) (hb : admitClaim p root₂ e₂ = some b)
    (hc : admitClaim p root₃ e₃ = some c) :
    a.claimWins p t a = some false
      ∧ (asId p a.id ≠ asId p b.id →
        (a.claimWins p t b = some true ∧ b.claimWins p t a = some false)
          ∨ (a.claimWins p t b = some false ∧ b.claimWins p t a = some true))
      ∧ ((a.Versioned ∧ b.Versioned ∧ c.Versioned) ∨ (¬ a.Versioned ∧ ¬ b.Versioned ∧ ¬ c.Versioned) →
        a.claimWins p t b = some true → b.claimWins p t c = some true →
          a.claimWins p t c = some true) := by
  -- the three claims as those of the nodes they name
  obtain ⟨x, -, hx⟩ := read_of_admitClaim ha
  obtain ⟨y, -, hy⟩ := read_of_admitClaim hb
  obtain ⟨z, -, hz⟩ := read_of_admitClaim hc
  simp only [claimWins_of_read hx hx, claimWins_of_read hx hy, claimWins_of_read hy hx,
    claimWins_of_read hy hz, claimWins_of_read hx hz, Option.some.injEq, Bool.eq_false_iff, ne_eq,
    claimWins_iff]
  refine ⟨fun h => h.asymm h, fun hne => ?_, fun hv hab hbc => ?_⟩
  · rw [asId_of_read hx, asId_of_read hy] at hne
    have hdist : distance t x ≠ distance t y := fun h => hne (congrArg some (distance_inj.mp h))
    exact (Claim.beats_total hdist).imp (fun h => ⟨h, h.asymm⟩) fun h => ⟨h.asymm, h⟩
  · rw [versioned_of_read hx, versioned_of_read hy, versioned_of_read hz] at hv
    rcases hv with ⟨hvx, hvy, hvz⟩ | ⟨hvx, -, hvz⟩
    · exact hab.trans hvx hvy hvz hbc
    · exact beats_trans_of_unversioned hvx hvz hab hbc

/-- Three versioned claims, in lower and upper case, and padded. -/
theorem claims_ordered_versioned :
    (⟨"0a".toList, some 2⟩ : HexClaim).claimWins .production 0 ⟨['c'], some 1⟩ = some true := by
  have ha : admitClaim .production "0A".toList (some 2) = some ⟨"0a".toList, some 2⟩ := by
    decide +kernel
  have hb : admitClaim .production ['B'] (some 2) = some ⟨['b'], some 2⟩ := by decide +kernel
  have hc : admitClaim .production ['c'] (some 1) = some ⟨['c'], some 1⟩ := by decide +kernel
  exact (claims_ordered ha hb hc).2.2 (by decide) (by decide +kernel) (by decide +kernel)

/-- Where one of three claims gives no epoch they can win over one another in a circle: the farthest
over the nearest by its epoch, and the nearer over the farther otherwise. -/
theorem claims_in_a_circle :
    ¬ ∀ (p : KeyspaceProfile) (t : TopicId) (root₁ root₂ root₃ : Text) (e₁ e₂ e₃ : Option Int)
      (a b c : HexClaim), admitClaim p root₁ e₁ = some a → admitClaim p root₂ e₂ = some b →
      admitClaim p root₃ e₃ = some c →
      a.claimWins p t a ≠ some true
        ∧ (a.id ≠ b.id → Xor (a.claimWins p t b = some true) (b.claimWins p t a = some true))
        ∧ (a.claimWins p t b = some true → b.claimWins p t c = some true →
          a.claimWins p t c = some true) := by
  intro h
  have hcircle := h .production 0 ['1'] ['2'] ['3'] (some 1) none (some 2) ⟨['1'], some 1⟩
    ⟨['2'], some 0⟩ ⟨['3'], some 2⟩ (by decide +kernel) (by decide +kernel) (by decide +kernel)
  exact absurd (hcircle.2.2 (by decide +kernel) (by decide +kernel)) (by decide +kernel)

end Axona
