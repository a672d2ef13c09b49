import Axona.Identity.Author

/-! # An author that is stored stays

Where the read of a stored envelope fails, and where two calls find none at the same time, the code
mints an author it should not have: the last one written is kept, and each call returns its own. As
long as nobody is in the way of a call that mints, the author that is stored stays and is the one
that is returned; and no run in which somebody is can come to its end without a breach. -/

namespace Axona

open Library

namespace AuthorStore

variable {Priv : Type*} {K : KeySystem Priv} {s : AuthorStore Priv} {a : AuthorAct Priv} {i j : Nat}
  {id id' : AuthorIdentity Priv} {x : PubKey}

/-! ### Envelopes -/

/-- What is written under the key is valid. -/
theorem author_dump (k : Priv) (t : Int) :
    (Saved.envelope (dumpAuthorIdentity K (mintedAuthor K k t))).author K
      = some (K.publicKey k) := by
  simp [Saved.author, loadAuthorIdentity, dumpAuthorIdentity, mintedAuthor, K.import_export,
    K.signsFor_self]

/-- Only the time of creation depends on the clock. -/
theorem author_of_load {env : AuthorEnvelope} {now : Int}
    (h : loadAuthorIdentity K now env = some id) :
    (Saved.envelope env).author K = some id.pubkey := by
  revert h
  simp only [Saved.author, loadAuthorIdentity]
  split
  · split
    · intro h
      cases h
      rfl
    · intro h
      cases h
  · intro h
    cases h

/-! ### What a step does -/

/-- A call that goes on changes what is saved and its own place, both as `move` says. -/
theorem step_go {c : AuthorCall Priv} (h : s.calls[i]? = some c) (m : AuthorMove Priv) :
    s.step K (.go i m) = ⟨(move K s.saved c m).1, s.calls.set i (move K s.saved c m).2⟩ := by
  simp only [step, h]

/-- How a call comes where it is, other than by minting a key pair and writing it. -/
inductive GoesOn (K : KeySystem Priv) (saved : Saved) :
    AuthorCall Priv → AuthorCall Priv → Prop where
  | stays {c} : GoesOn K saved c c
  | reads : GoesOn K saved .reading (.loading saved)
  | mints {c} : GoesOn K saved c .minting
  | fails {c} : GoesOn K saved c .failed
  | loads {v id} (h : v.author K = some id.pubkey) : GoesOn K saved (.loading v) (.returned id)
  | written {k t} : GoesOn K saved (.saving k t) (.returning k t)
  | finishes {k t} : GoesOn K saved (.returning k t) (.returned (mintedAuthor K k t))

theorem comes_loaded (saved v : Saved) (imports : Bool) (now : Int) :
    GoesOn K saved (.loading v) (loaded K imports now v) := by
  cases v with
  | nothing | broken => exact .mints
  | envelope env =>
    cases imports with
    | false => exact .mints
    | true =>
      cases h : loadAuthorIdentity K now env with
      | none =>
        simp only [loaded, h]
        exact .mints
      | some id =>
        simp only [loaded, h]
        exact .loads (author_of_load h)

/-- **What a call does**: it mints a key pair, writes it, or leaves the store alone. -/
theorem move_cases (saved : Saved) (c : AuthorCall Priv) (m : AuthorMove Priv) :
    (∃ k t, c = .minting ∧ m = .mint (some k) t ∧ move K saved c m = (saved, .saving k t))
      ∨ (∃ k t, c = .saving k t ∧ m = .save ∧ move K saved c m
          = (.envelope (dumpAuthorIdentity K (mintedAuthor K k t)), .returning k t))
      ∨ ((move K saved c m).1 = saved ∧ GoesOn K saved c (move K saved c m).2) := by
  cases c with
  | reading =>
    cases m with
    | get => exact .inr (.inr ⟨rfl, .reads⟩)
    | getFails => exact .inr (.inr ⟨rfl, .mints⟩)
    | _ => exact .inr (.inr ⟨rfl, .stays⟩)
  | loading v =>
    cases m with
    | load imports now => exact .inr (.inr ⟨rfl, comes_loaded saved v imports now⟩)
    | _ => exact .inr (.inr ⟨rfl, .stays⟩)
  | minting =>
    cases m with
    | mint k now =>
      cases k with
      | none => exact .inr (.inr ⟨rfl, .fails⟩)
      | some k => exact .inl ⟨k, now, rfl, rfl, rfl⟩
    | _ => exact .inr (.inr ⟨rfl, .stays⟩)
  | saving k t =>
    cases m with
    | save => exact .inr (.inl ⟨k, t, rfl, rfl, rfl⟩)
    | saveFails => exact .inr (.inr ⟨rfl, .written⟩)
    | _ => exact .inr (.inr ⟨rfl, .stays⟩)
  | returning k t =>
    cases m with
    | finish => exact .inr (.inr ⟨rfl, .finishes⟩)
    | _ => exact .inr (.inr ⟨rfl, .stays⟩)
  | returned id | failed => cases m <;> exact .inr (.inr ⟨rfl, .stays⟩)

/-- **What a step does.** A key pair is minted, or written, or the store is left alone and every
call comes where it is from where it was, if it is not a new one. -/
theorem step_cases (s : AuthorStore Priv) (a : AuthorAct Priv) :
    (∃ i k t, a = .go i (.mint (some k) t) ∧ s.calls[i]? = some .minting
        ∧ s.step K a = { s with calls := s.calls.set i (.saving k t) })
      ∨ (∃ i k t, a = .go i .save ∧ s.calls[i]? = some (.saving k t)
        ∧ s.step K a = ⟨.envelope (dumpAuthorIdentity K (mintedAuthor K k t)),
          s.calls.set i (.returning k t)⟩)
      ∨ ((s.step K a).saved = s.saved ∧ ∀ (j : Nat) c', (s.step K a).calls[j]? = some c' →
        c' = .reading ∨ ∃ c, s.calls[j]? = some c ∧ GoesOn K s.saved c c') := by
  cases a with
  | call =>
    refine .inr (.inr ⟨rfl, fun j c' h => ?_⟩)
    change (s.calls ++ [AuthorCall.reading])[j]? = some c' at h
    rcases Nat.lt_or_ge j s.calls.length with hold | hnew
    · rw [List.getElem?_append_left hold] at h
      exact .inr ⟨c', h, .stays⟩
    · rw [List.getElem?_append_right hnew] at h
      exact .inl (List.mem_singleton.mp (List.mem_of_getElem? h))
  | go i m =>
    cases hc : s.calls[i]? with
    | none =>
      have heq : s.step K (.go i m) = s := by simp only [step, hc]
      rw [heq]
      exact .inr (.inr ⟨rfl, fun j c' h => .inr ⟨c', h, .stays⟩⟩)
    | some c =>
      rw [step_go hc]
      rcases move_cases (K := K) s.saved c m with
        ⟨k, t, rfl, rfl, heq⟩ | ⟨k, t, rfl, rfl, heq⟩ | ⟨hsaved, hcomes⟩
      · exact .inl ⟨i, k, t, rfl, hc, by rw [heq]⟩
      · exact .inr (.inl ⟨i, k, t, rfl, hc, by rw [heq]⟩)
      · refine .inr (.inr ⟨hsaved, fun j c' h => .inr ?_⟩)
        by_cases hij : i = j
        · subst hij
          rw [List.getElem?_set_self (List.getElem?_eq_some_iff.mp hc).1] at h
          exact ⟨c, hc, Option.some.inj h ▸ hcomes⟩
        · rw [List.getElem?_set_ne hij] at h
          exact ⟨c', h, .stays⟩

/-! ### Nobody in the way -/

/-- While an author is stored, no call holds the key of another, and what was read before was that
author's or nobody's. -/
structure OneAuthor (K : KeySystem Priv) (s : AuthorStore Priv) : Prop where
  held : ∀ x i k, s.author K = some x → s.Holds i k → K.publicKey k = x
  read : ∀ (i : Nat) v x, s.calls[i]? = some (.loading v) → v.author K = some x →
    s.author K = some x

/-- Who holds a key pair after a step that mints none held it before. -/
theorem holds_of_goesOn {s' : AuthorStore Priv} {k : Priv}
    (h : ∀ (j : Nat) c', s'.calls[j]? = some c' →
      c' = .reading ∨ ∃ c, s.calls[j]? = some c ∧ GoesOn K s.saved c c') (hj : s'.Holds j k) :
    s.Holds j k := by
  obtain ⟨t, hj | hj⟩ := hj
  · rcases h j _ hj with hnew | ⟨c, hc, hcomes⟩
    · cases hnew
    · cases hcomes with
      | stays => exact ⟨t, .inl hc⟩
  · rcases h j _ hj with hnew | ⟨c, hc, hcomes⟩
    · cases hnew
    cases hcomes with
    | stays => exact ⟨t, .inr hc⟩
    | written => exact ⟨t, .inl hc⟩

/-- After one call has moved, a call stands where that one came or where it stood. -/
theorem calls_set {l : List (AuthorCall Priv)} {c c' : AuthorCall Priv}
    (h : (l.set i c')[j]? = some c) : (j = i ∧ c = c') ∨ l[j]? = some c := by
  by_cases hij : i = j
  · subst hij
    have hlt : i < l.length := by
      have hmem := (List.getElem?_eq_some_iff.mp h).1
      rwa [List.length_set] at hmem
    rw [List.getElem?_set_self hlt] at h
    exact .inl ⟨rfl, (Option.some.inj h).symm⟩
  · rw [List.getElem?_set_ne hij] at h
    exact .inr h

/-- Who holds a key pair after one call has come to hold one. -/
theorem holds_set {c' : AuthorCall Priv} {v : Saved} {k k' : Priv}
    (hc' : ∀ t, .saving k' t = c' ∨ .returning k' t = c' → k' = k)
    (hj : Holds ⟨v, s.calls.set i c'⟩ j k') : k' = k ∨ s.Holds j k' := by
  obtain ⟨t, hj | hj⟩ := hj
  · rcases calls_set hj with ⟨-, heq⟩ | hj
    · exact .inl (hc' t (.inl heq))
    · exact .inr ⟨t, .inl hj⟩
  · rcases calls_set hj with ⟨-, heq⟩ | hj
    · exact .inl (hc' t (.inr heq))
    · exact .inr ⟨t, .inr hj⟩

/-- **The invariant is kept** by a step with nobody in the way. -/
theorem OneAuthor.step (h : s.OneAuthor K) (ha : s.Uncontested K a) : (s.step K a).OneAuthor K := by
  rcases step_cases (K := K) s a with
    ⟨i, k, t, rfl, hi, heq⟩ | ⟨i, k, t, rfl, hi, heq⟩ | ⟨hsaved, hcalls⟩
  · rw [heq]
    refine ⟨fun x j k' hx hj => ?_, fun j v x hj hv => ?_⟩
    · rcases holds_set (k := k) (by rintro t (h | h) <;> cases h; rfl) hj with rfl | hj
      · exact (ha hi x hx).symm
      · exact h.held x j k' hx hj
    · rcases calls_set hj with ⟨-, hload⟩ | hj
      · cases hload
      · exact h.read j v x hj hv
  · rw [heq]
    refine ⟨fun x j k' hx hj => ?_, fun j v x hj hv => ?_⟩
    · have hxk : K.publicKey k = x := Option.some.inj ((author_dump k t).symm.trans hx)
      rcases holds_set (k := k) (by rintro t (h | h) <;> cases h; rfl) hj with rfl | hj
      · exact hxk
      · exact (ha k t hi j k' hj).trans hxk
    · rcases calls_set hj with ⟨-, hload⟩ | hj
      · cases hload
      -- what was read is stored still, and it is what the caller holds
      have hstored := h.read j v x hj hv
      have hxk := h.held x i k hstored ⟨t, .inl hi⟩
      exact (author_dump k t).trans (congrArg some hxk)
  · have hauthor : (s.step K a).author K = s.author K := congrArg (Saved.author K) hsaved
    refine ⟨fun x j k hx hj => ?_, fun j v x hj hv => ?_⟩
    · rw [hauthor] at hx
      exact h.held x j k hx (holds_of_goesOn hcalls hj)
    · rw [hauthor]
      rcases hcalls j _ hj with hnew | ⟨c, hc, hcomes⟩
      · cases hnew
      cases hcomes with
      | stays => exact h.read j v x hc hv
      | reads => exact hv

/-- **A step with nobody in the way** does what is asked. -/
theorem OneAuthor.kept (h : s.OneAuthor K) (ha : s.Uncontested K a) : s.AuthorKept K a := by
  rcases step_cases (K := K) s a with
    ⟨i, k, t, rfl, hi, heq⟩ | ⟨i, k, t, rfl, hi, heq⟩ | ⟨hsaved, hcalls⟩
  · refine ⟨fun x hx => ?_, fun x j id hx hj hnot => ?_⟩
    · rw [heq]
      exact hx
    · rw [heq] at hj
      rcases calls_set hj with ⟨-, hret⟩ | hj
      · cases hret
      · exact absurd hj hnot
  · refine ⟨fun x hx => ?_, fun x j id hx hj hnot => ?_⟩
    · rw [heq]
      have hxk := h.held x i k hx ⟨t, .inl hi⟩
      exact (author_dump k t).trans (congrArg some hxk)
    · rw [heq] at hj
      rcases calls_set hj with ⟨-, hret⟩ | hj
      · cases hret
      · exact absurd hj hnot
  · refine ⟨fun x hx => ?_, fun x j id hx hj hnot => ?_⟩
    · have hauthor : (s.step K a).author K = s.author K := congrArg (Saved.author K) hsaved
      exact hauthor.trans hx
    · rcases hcalls j _ hj with hnew | ⟨c, hc, hcomes⟩
      · cases hnew
      cases hcomes with
      | stays => exact absurd hc hnot
      | loads hv =>
        have hstored := h.read j _ _ hc hv
        exact Option.some.inj (hstored.symm.trans hx)
      | finishes => exact h.held x j _ hx ⟨_, .inr hc⟩

/-! ### Somebody in the way -/

/-- An author is stored, and a call holds the key of another. -/
def Doomed (K : KeySystem Priv) (s : AuthorStore Priv) : Prop :=
  ∃ x i k, s.author K = some x ∧ s.Holds i k ∧ K.publicKey k ≠ x

/-- A call that holds a key pair goes on to hold it, or returns its author. -/
theorem Holds.step {k : Priv} (h : s.Holds i k) (a : AuthorAct Priv) : (s.step K a).Holds i k
      ∨ ∃ t, (s.step K a).calls[i]? = some (.returned (mintedAuthor K k t)) := by
  obtain ⟨t, h⟩ := h
  have hlt : i < s.calls.length := by
    rcases h with h | h
    · exact (List.getElem?_eq_some_iff.mp h).1
    · exact (List.getElem?_eq_some_iff.mp h).1
  cases a with
  | call =>
    refine .inl ⟨t, ?_⟩
    simp only [AuthorStore.step, List.getElem?_append_left hlt]
    exact h
  | go j m =>
    cases hj : s.calls[j]? with
    | none =>
      simp only [AuthorStore.step, hj]
      exact .inl ⟨t, h⟩
    | some c =>
      rw [step_go hj]
      by_cases hij : j = i
      · subst hij
        simp only [Holds, List.getElem?_set_self hlt, Option.some.injEq]
        -- a key pair that is held is written or not, and then returned
        rcases h with h | h
        · cases hj.symm.trans h
          cases m with
          | save | saveFails => exact .inl ⟨t, .inr rfl⟩
          | _ => exact .inl ⟨t, .inl rfl⟩
        · cases hj.symm.trans h
          cases m with
          | finish => exact .inr ⟨t, rfl⟩
          | _ => exact .inl ⟨t, .inr rfl⟩
      · refine .inl ⟨t, ?_⟩
        simp only [List.getElem?_set_ne hij]
        exact h

theorem Doomed.step (h : s.Doomed K) (ha : s.AuthorKept K a) : (s.step K a).Doomed K := by
  obtain ⟨x, i, k, hx, hi, hne⟩ := h
  have hx' := ha.stays x hx
  rcases hi.step (K := K) a with hi' | ⟨t, hret⟩
  · exact ⟨x, i, k, hx', hi', hne⟩
  have hnot : s.calls[i]? ≠ some (.returned (mintedAuthor K k t)) := by
    obtain ⟨t', hi | hi⟩ := hi
    · rw [hi]
      simp
    · rw [hi]
      simp
  exact absurd (ha.returns x i _ hx hret hnot) hne

/-- Somebody in the way is doom. -/
theorem doomed_of_not_clear (hnot : ¬s.Uncontested K a) : (s.step K a).Doomed K := by
  cases a with
  | call => exact absurd trivial hnot
  | go i m =>
    cases m with
    | mint k now =>
      cases k with
      | none => exact absurd trivial hnot
      | some k =>
        simp only [Uncontested, Classical.not_imp, not_forall] at hnot
        obtain ⟨hi, x, hx, hne⟩ := hnot
        have hlt := (List.getElem?_eq_some_iff.mp hi).1
        rw [step_go hi]
        exact ⟨x, i, k, hx, ⟨now, .inl (List.getElem?_set_self hlt)⟩, Ne.symm hne⟩
    | save =>
      simp only [Uncontested, Classical.not_imp, not_forall] at hnot
      obtain ⟨k, t, hi, j, k', hj, hne⟩ := hnot
      have hij : i ≠ j := by
        rintro rfl
        obtain ⟨t', hj | hj⟩ := hj
        · cases hi.symm.trans hj
          exact hne rfl
        · cases hi.symm.trans hj
      rw [step_go hi]
      obtain ⟨t', hj⟩ := hj
      refine ⟨K.publicKey k, j, k', author_dump k t, ⟨t', ?_⟩, hne⟩
      simp only [List.getElem?_set_ne hij]
      exact hj
    | _ => exact absurd trivial hnot

/-- **A durable author.** From whatever is stored under the key, a run with nobody in the way of the
calls that mint never loses the author that is stored, and returns no other. And a run that loses
none, and in which all calls have come to an end, is such a run. -/
theorem author_kept (K : KeySystem Priv) (saved : Saved) (as : List (AuthorAct Priv)) :
    (EachStep (step K) (Uncontested K) ⟨saved, []⟩ as → EachStep (step K) (AuthorKept K) ⟨saved, []⟩ as)
      ∧ ((∀ c ∈ (run (step K) ⟨saved, []⟩ as).calls, ended c = true) →
        EachStep (step K) (AuthorKept K) ⟨saved, []⟩ as →
          EachStep (step K) (Uncontested K) ⟨saved, []⟩ as) := by
  refine ⟨fun h => ?_, fun hend h => ?_⟩
  · refine h.safety (I := OneAuthor K) (fun s a hs ha => hs.step ha) (fun s a hs ha => hs.kept ha) ?_
    refine ⟨fun x i k _ hi => ?_, fun i v x hi _ => ?_⟩
    · obtain ⟨t, hi | hi⟩ := hi
      · cases hi
      · cases hi
    · cases hi
  · refine EachStep.of_doomed (D := Doomed K) (F := fun s => ∀ c ∈ s.calls, ended c = true)
      (fun s a hs ha => hs.step ha) (fun s a _ hnot => doomed_of_not_clear hnot) ?_ h hend
    rintro s hs ⟨x, i, k, -, ⟨t, hi | hi⟩, -⟩
    · cases hs _ (List.mem_of_getElem? hi)
    · cases hs _ (List.mem_of_getElem? hi)

/-- A key pair that is its own public key. -/
def plainKeys : KeySystem PubKey where
  publicKey k := k
  exportKey := PubKey.hex
  importKey := PubKey.ofHex
  signsFor k a := k = a
  import_export := PubKey.ofHex_hex
  signsFor_self _ := decide_eq_true rfl

/-- The key of one byte, over and over. -/
def flatKey (b : Fin 256) : PubKey where
  bytes := List.replicate 32 b
  length_eq := by simp
  lt := by simp

/-- One read fails while an author is stored; and two calls find none at the same time. -/
theorem author_replaced :
    (¬EachStep (step plainKeys) (AuthorKept plainKeys)
      ⟨.envelope (dumpAuthorIdentity plainKeys (mintedAuthor plainKeys (flatKey 0) 0)), []⟩
      [.call, .go 0 .getFails, .go 0 (.mint (some (flatKey 1)) 1), .go 0 .save])
    ∧ ¬EachStep (step plainKeys) (AuthorKept plainKeys) ⟨.nothing, []⟩
      [.call, .call, .go 0 .get, .go 1 .get, .go 0 (.load true 0), .go 1 (.load true 0),
        .go 0 (.mint (some (flatKey 0)) 0), .go 1 (.mint (some (flatKey 1)) 1),
        .go 0 .save, .go 1 .save] := by
  have hne : flatKey 1 ≠ flatKey 0 := by decide
  have hone : ∀ t, (Saved.envelope (dumpAuthorIdentity plainKeys
      (mintedAuthor plainKeys (flatKey 1) t))).author plainKeys = some (flatKey 1) :=
    author_dump (K := plainKeys) (flatKey 1)
  refine ⟨?_, ?_⟩
  · rintro ⟨-, -, -, h, -⟩
    have hstays := h.stays (flatKey 0) (author_dump _ _)
    exact hne (Option.some.inj ((hone 1).symm.trans hstays))
  · rintro ⟨-, -, -, -, -, -, -, -, -, h, -⟩
    have hstays := h.stays (flatKey 0) (author_dump _ _)
    exact hne (Option.some.inj ((hone 1).symm.trans hstays))

end AuthorStore

end Axona
