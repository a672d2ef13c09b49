import Axona.Transport.BridgeDirectory
import Mathlib.Data.List.ReduceOption
import Mathlib.Tactic.Linarith

/-! # What a ranking of the bridges promises

The roots come first, and then every url whose newest entry is not stale, once, by the tier and the
place of that entry; the order in which the entries arrived decides only between ties.

The loop of `rankBridges` skips the url of a root, and nothing else that is there already: a url
with two entries that are not stale comes out twice. An entry without a date is never stale, so
it also stands in for a dated one that is. These are the only ways a ranking goes wrong. -/

namespace Axona

open Library

/-- The tiers in their order. -/
def BridgeSource.level : BridgeSource → Nat
  | .root => 0
  | .known => 1
  | .fresh => 2
  | .tried => 3

namespace BridgeRanking

variable {d : BridgeRanking} {e : BridgeEntry} {picks : List BridgeEntry}

/-! ### What is promised -/

section Promise

variable (d)

/-- The roots in order, each where it is first. -/
def rootUrls : List Text := (d.roots.filter fun url => url ≠ []).eraseDups

/-- By what an entry is sorted in its tier. -/
def key (e : BridgeEntry) : WithTop ℚ ×ₗ WithTop ℚ :=
  match d.tier e with
  | .known => d.knownKey e
  | .fresh => d.freshKey e
  | .tried | .root => d.triedKey e

/-- The tier of an entry, and its place there. -/
def place (e : BridgeEntry) : Nat ×ₗ (WithTop ℚ ×ₗ WithTop ℚ) := toLex ((d.tier e).level, d.key e)

/-- No entry of the url is of a later time. -/
def Newest (e : BridgeEntry) : Prop :=
  some e ∈ d.entries ∧ ∀ e', some e' ∈ d.entries → e'.url = e.url → e'.ts ≤ e.ts

/-- The newest entries that are to be listed, in order. -/
structure Layered (picks : List BridgeEntry) : Prop where
  nodup : (picks.map (·.url)).Nodup
  sound : ∀ e ∈ picks, d.Newest e ∧ e.url ∉ d.rootUrls ∧ d.stale e = false
  complete : ∀ e, d.Newest e → e.url ∉ d.rootUrls → d.stale e = false → e.url ∈ picks.map (·.url)
  ordered : picks.Pairwise fun a b => d.place a ≤ d.place b

/-- The roots and the candidates of some entries. -/
def listing (picks : List BridgeEntry) : List BridgeCandidate :=
  d.rootUrls.map (⟨·, .root⟩) ++ picks.map d.candidate

/-- **What a ranking promises.** The roots and the newest entries in their layers; and from any
other order of the entries, the same up to ties. -/
def Ranks : Prop :=
  ∃ picks, d.Layered picks ∧ d.rankBridges = d.listing picks ∧
    ∀ entries' : List (Option BridgeEntry), entries'.Perm d.entries →
      ∃ picks' : List BridgeEntry, picks'.Perm picks ∧ picks'.map d.place = picks.map d.place ∧
        ({ d with entries := entries' } : BridgeRanking).rankBridges = d.listing picks'

/-- **The condition.** No url that is not a root's has two entries that are not stale, or one
without a date beside a stale one of a later time. -/
structure Single : Prop where
  once : (d.considered.map (·.url)).Nodup
  dated : ∀ e ∈ d.considered, e.ts = 0 → ∀ e', some e' ∈ d.entries → e'.url = e.url → 0 < e'.ts →
    d.stale e' = false

end Promise

/-! ### The roots -/

theorem configured_eq (seen roots : List Text) :
    configured seen roots = (roots.filter fun url => url ≠ [] ∧ url ∉ seen).eraseDups := by
  induction roots generalizing seen with
  | nil => rfl
  | cons url roots ih =>
    by_cases hnew : url ≠ [] ∧ url ∉ seen
    · have hrest : ((roots.filter fun u => u ≠ [] ∧ u ∉ seen).filter fun u => !u == url)
          = roots.filter fun u => u ≠ [] ∧ u ∉ url :: seen := by
        rw [List.filter_filter]
        refine List.filter_congr fun u _ => ?_
        rw [Bool.eq_iff_iff]
        simp only [Bool.and_eq_true, Bool.not_eq_true', beq_eq_false_iff_ne, decide_eq_true_eq,
          List.mem_cons, not_or]
        tauto
      rw [configured, if_pos hnew, ih, List.filter_cons_of_pos (by simpa using hnew),
        List.eraseDups_cons, hrest]
    · rw [configured, if_neg hnew, ih, List.filter_cons_of_neg (by simpa using hnew)]

theorem configured_nil (d : BridgeRanking) : configured [] d.roots = d.rootUrls := by
  simp [configured_eq, rootUrls]

theorem rankBridges_eq (d : BridgeRanking) : d.rankBridges = d.listing d.ranked := by
  rw [rankBridges, listing, configured_nil]

/-! ### The entries -/

theorem mem_considered :
    e ∈ d.considered ↔ some e ∈ d.entries ∧ e.url ∉ d.rootUrls ∧ d.stale e = false := by
  simp [considered, configured_nil, List.reduceOption_mem_iff]

/-- An entry is in one of the three tiers of the directory. -/
theorem tier_cases (d : BridgeRanking) (e : BridgeEntry) :
    d.tier e = .known ∨ d.tier e = .fresh ∨ d.tier e = .tried := by
  unfold tier
  split_ifs <;> simp

/-- Nothing is lost and nothing is added by the tiers. -/
theorem ranked_perm (d : BridgeRanking) : d.ranked.Perm d.considered := by
  have hsplit : ∀ l : List BridgeEntry,
      ((l.filter fun e => d.tier e = .known) ++ (l.filter fun e => d.tier e = .fresh)
        ++ l.filter fun e => d.tier e = .tried).Perm l := by
    intro l
    induction l with
    | nil => rfl
    | cons e l ih =>
      rcases d.tier_cases e with ht | ht | ht
      · simpa [ht] using ih
      · simp only [ht, List.append_assoc, List.filter_cons, decide_true, if_true, reduceCtorEq,
          decide_false, Bool.false_eq_true, if_false, List.cons_append] at ih ⊢
        exact List.perm_middle.trans (ih.cons e)
      · simp only [ht, List.filter_cons, decide_true, if_true, reduceCtorEq, decide_false,
          Bool.false_eq_true, if_false] at ih ⊢
        exact List.perm_middle.trans (ih.cons e)
  exact (((sortBy_perm _ _).append (sortBy_perm _ _)).append (sortBy_perm _ _)).trans
    (hsplit d.considered)

theorem tier_of_mem {f : BridgeEntry → WithTop ℚ ×ₗ WithTop ℚ} {t : BridgeSource}
    (he : e ∈ sortBy f (d.considered.filter fun e => d.tier e = t)) : d.tier e = t := by
  have he := (sortBy_perm f _).mem_iff.mp he
  simpa using (List.mem_filter.mp he).2

/-- In a tier the places are in the order of its keys. -/
theorem tier_ordered {f : BridgeEntry → WithTop ℚ ×ₗ WithTop ℚ} {t : BridgeSource}
    (hkey : ∀ e, d.tier e = t → d.key e = f e) :
    (sortBy f (d.considered.filter fun e => d.tier e = t)).Pairwise
      fun a b => d.place a ≤ d.place b := by
  refine (sortBy_sorted f _).imp_of_mem fun {a b} ha hb hab => ?_
  have hta := tier_of_mem ha
  have htb := tier_of_mem hb
  rw [place, place, hta, htb, hkey a hta, hkey b htb]
  exact Prod.Lex.toLex_le_toLex.mpr (.inr ⟨rfl, hab⟩)

theorem place_le_of_level {a b : BridgeEntry} (h : (d.tier a).level < (d.tier b).level) :
    d.place a ≤ d.place b :=
  Prod.Lex.toLex_le_toLex.mpr (.inl h)

/-- What is ranked is in order, tier by tier. -/
theorem ranked_ordered (d : BridgeRanking) :
    d.ranked.Pairwise fun a b => d.place a ≤ d.place b := by
  refine List.pairwise_append.mpr ⟨List.pairwise_append.mpr ⟨?_, ?_, ?_⟩, ?_, ?_⟩
  · exact tier_ordered fun e he => by rw [key, he]
  · exact tier_ordered fun e he => by rw [key, he]
  · intro a ha b hb
    apply place_le_of_level
    rw [tier_of_mem ha, tier_of_mem hb]
    decide
  · exact tier_ordered fun e he => by rw [key, he]
  · intro a ha b hb
    apply place_le_of_level
    rw [tier_of_mem hb]
    rcases List.mem_append.mp ha with ha | ha
    · rw [tier_of_mem ha]
      decide
    · rw [tier_of_mem ha]
      decide

/-- Another order of the entries ranks them the same up to ties. -/
theorem ranked_arrival {entries' : List (Option BridgeEntry)} (h : entries'.Perm d.entries) :
    let d' : BridgeRanking := { d with entries := entries' }
    d'.ranked.Perm d.ranked ∧ d'.ranked.map d.place = d.ranked.map d.place := by
  intro d'
  have hperm : d'.ranked.Perm d.ranked := by
    refine d'.ranked_perm.trans (List.Perm.trans ?_ d.ranked_perm.symm)
    exact (h.filterMap id).filter _
  refine ⟨hperm, ?_⟩
  apply List.Perm.eq_of_pairwise' (r := (· ≤ ·))
  · exact List.pairwise_map.mpr d'.ranked_ordered
  · exact List.pairwise_map.mpr d.ranked_ordered
  · exact hperm.map d.place

/-! ### When it is kept -/

/-- A newer entry than one that has a date and is not stale is not stale. -/
theorem stale_newer {e' : BridgeEntry} (hfresh : d.stale e = false) (hdated : e.ts ≠ 0)
    (h : e.ts < e'.ts) : d.stale e' = false := by
  simp only [stale, decide_eq_false_iff_not, not_and, not_lt] at hfresh ⊢
  intro _
  have := hfresh hdated
  linarith

namespace Single

/-- Where the condition holds, a considered entry is the newest of its url. -/
theorem newest (h : d.Single) (he : e ∈ d.considered) : d.Newest e := by
  obtain ⟨hmem, hroot, hfresh⟩ := mem_considered.mp he
  refine ⟨hmem, fun e' hmem' hurl => ?_⟩
  by_contra hlater
  have hlater : e.ts < e'.ts := not_le.mp hlater
  have hfresh' : d.stale e' = false := by
    by_cases hdated : e.ts = 0
    · exact h.dated e he hdated e' hmem' hurl (hdated ▸ hlater)
    · exact stale_newer hfresh hdated hlater
  -- then both are considered, and they are of one url
  have he' : e' ∈ d.considered := mem_considered.mpr ⟨hmem', hurl ▸ hroot, hfresh'⟩
  have heq : e' = e := List.inj_on_of_nodup_map h.once he' he hurl
  exact hlater.ne (by rw [heq])

theorem layered (h : d.Single) : d.Layered d.ranked where
  nodup := (d.ranked_perm.map _).nodup_iff.mpr h.once
  sound e he := by
    have he := d.ranked_perm.mem_iff.mp he
    exact ⟨h.newest he, (mem_considered.mp he).2⟩
  complete e hnew hroot hfresh := by
    apply List.mem_map_of_mem
    exact d.ranked_perm.mem_iff.mpr (mem_considered.mpr ⟨hnew.1, hroot, hfresh⟩)
  ordered := d.ranked_ordered

theorem ranks (h : d.Single) : d.Ranks :=
  ⟨d.ranked, h.layered, d.rankBridges_eq, fun _ hperm =>
    ⟨_, (ranked_arrival hperm).1, (ranked_arrival hperm).2, rankBridges_eq _⟩⟩

end Single

/-- The urls of a listing are those of the entries it is made of. -/
theorem listing_urls {picks' : List BridgeEntry} (h : d.listing picks = d.listing picks') :
    picks.map (·.url) = picks'.map (·.url) := by
  have hsame := congrArg (List.map BridgeCandidate.url) (List.append_cancel_left h)
  simpa [candidate, Function.comp_def] using hsame

/-- What is promised holds under the condition only. -/
theorem Ranks.single (h : d.Ranks) : d.Single := by
  obtain ⟨picks, hpicks, hout, -⟩ := h
  have hurls : picks.map (·.url) = d.ranked.map (·.url) :=
    listing_urls (hout.symm.trans d.rankBridges_eq)
  have honce : (d.considered.map (·.url)).Nodup := by
    rw [← (d.ranked_perm.map _).nodup_iff, ← hurls]
    exact hpicks.nodup
  refine ⟨honce, fun e he hundated e' hmem' hurl hlater => ?_⟩
  have hlisted : e.url ∈ picks.map (·.url) := by
    rw [hurls]
    exact List.mem_map_of_mem (d.ranked_perm.mem_iff.mpr he)
  obtain ⟨p, hp, hpurl⟩ := List.mem_map.mp hlisted
  obtain ⟨hnew, hroot, hfresh⟩ := hpicks.sound p hp
  -- the entry that is listed is the one that is considered, and it is not the newest
  have heq : p = e :=
    List.inj_on_of_nodup_map honce (mem_considered.mpr ⟨hnew.1, hroot, hfresh⟩) he hpurl
  have hle := hnew.2 e' hmem' (hurl.trans hpurl.symm)
  rw [heq, hundated] at hle
  exact absurd hlater (not_lt.mpr hle)

/-- **The ranking is a layered order of the bridges exactly when no url has two entries to
list.** -/
theorem ranks_iff_single (d : BridgeRanking) : d.Ranks ↔ d.Single := ⟨Ranks.single, Single.ranks⟩

/-! ### A bridge that publishes twice -/

/-- A message of the directory. -/
def published (url : String) (ts : ℚ) : JsValue :=
  .obj [("url".toList, .str url.toList), ("lat".toList, .num 38), ("lng".toList, .num (-77)),
    ("ts".toList, .num ts)]

/-- A client that has read what one bridge published on two days. -/
def twoDays : BridgeRanking where
  roots := ["wss://bridge.axona.net".toList]
  entries := [published "wss://b.net" 1, published "wss://b.net" 2].map validateBridgeEntry
  reputation _ := none
  self := none
  now := 3
  maxAgeMs := 48 * 60 * 60 * 1000
  greatCircle _ _ := 0

theorem twoDays_not_ranks :
    twoDays.rankBridges = [⟨"wss://bridge.axona.net".toList, .root⟩, ⟨"wss://b.net".toList, .fresh⟩,
      ⟨"wss://b.net".toList, .fresh⟩] ∧ ¬ twoDays.Ranks := by
  refine ⟨by decide +kernel, fun h => ?_⟩
  have honce := h.single.once
  revert honce
  decide +kernel

end BridgeRanking

end Axona
