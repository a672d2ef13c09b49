import Axona.Dht.Presence
import Axona.Library.Latest
import Axona.Safety.Replay

/-! # What a presence record does

A record is heeded once at a node, and only if the key of its identity signed it; it is sent on at a
bounded pace, whatever comes in. Among nodes that do as they should, a record is sent by its origin
and by those it reached from there, and no further. -/

namespace Axona

open Library OrderedMap

/-! ### The check -/

/-- The signature is of the key of the identity, and says the generation. -/
structure Signs (P : PresencePrimitives) (e : List Nat × PresenceCore) (identityHex : Text)
    (gen : Nat) : Prop where
  identity : e.2.nodeId.drop 2 = identityHex
  gen : e.2.gen = gen
  key : pubkeyMatchesNodeId P.toAuthPrimitives e.1 e.2.nodeId = true

/-- A record that passes says what it proves, shows a key that matches its identity, and carries a
signature of that key over what it says. -/
theorem of_verifyPresenceRecord {P : PresencePrimitives} {frame : Option PresenceFrame}
    {r : Presence} (h : verifyPresenceRecord P frame = .ok r) :
    ∃ f, frame = some f ∧ Signs P (f.key, f.core) r.identityHex r.gen
      ∧ ∃ sig, P.verifyPresence f.key f.core sig = some true := by
  unfold verifyPresenceRecord at h
  split at h
  · cases h
  next f =>
  dsimp only at h
  iterate 7
    split at h
    · cases h
  split at h
  · cases h
  next hmatch =>
  split at h
  · cases h
  · cases h
  next hverify =>
  cases h
  exact ⟨f, rfl, ⟨rfl, rfl, by simpa using hmatch⟩, _, hverify⟩

/-! ### A node -/

namespace PresenceNode

variable {rate : Option ℚ} {P : PresencePrimitives} {n : PresenceNode}

/-- **In order**: the watermarks are the last generations heeded, each above the one before it; the
last time a record of an identity was sent on is known, and is a while after the one before it; and
what was sent on was heeded. -/
structure Orderly (rate : Option ℚ) (n : PresenceNode) : Prop where
  heeded : Tracks (· < ·) n.watermarks n.heeded
  relays : ∀ ms ∈ rate,
    Tracks (fun t t' => ms ≤ t' - t) n.relayAt (n.relays.map fun r => (r.1, r.2.2))
  relayed : (n.relays.map fun r => (r.1, r.2.1)).Sublist n.heeded

theorem Orderly.empty : Orderly rate {} := ⟨tracks_nil, fun _ _ => tracks_nil, .slnil⟩

/-- **The handler.** -/
theorem Orderly.onPresence (h : n.Orderly rate) (wall : ℚ) (frame : Option PresenceFrame)
    (peers : List NodeId) : (n.onPresence rate P wall frame peers).node.Orderly rate := by
  unfold PresenceNode.onPresence
  split
  · exact h
  next r hr =>
  split
  · exact h
  next hseen =>
  have hheeded : Tracks (· < ·) (n.heed r).watermarks (n.heed r).heeded := by
    refine h.heeded.set fun seen hget => ?_
    rw [Option.mem_def.mp hget] at hseen
    simpa using hseen
  dsimp only
  split
  · exact ⟨hheeded, h.relays, h.relayed.cons _⟩
  next f hf =>
  have hmay := (Option.filter_eq_some_iff.mp hf).2
  refine ⟨hheeded, fun ms hms => (h.relays ms hms).set fun t ht => ?_, h.relayed.cons_cons _⟩
  have hlast : (n.heed r).relayAt.get r.identityHex = some t := ht
  unfold relays? at hmay
  rw [Option.mem_def.mp hms, hlast] at hmay
  simpa using (Bool.and_eq_true_iff.mp hmay).2

/-- **The step of a node.** -/
theorem Orderly.react (h : n.Orderly rate) (own : Identity) (x : PresenceInput) :
    (n.react rate P own x).node.Orderly rate := by
  cases x with
  | announce nonce sig peers =>
    show (n.announcePresence rate own nonce sig peers).node.Orderly rate
    have hcounted : Orderly rate { n with gen := n.gen + 1 } :=
      ⟨h.heeded, h.relays, h.relayed⟩
    unfold announcePresence
    split
    · exact h
    dsimp only
    split <;> exact hcounted
  | frame wall frame peers => exact h.onPresence wall frame peers
  | restart => exact .empty

/-- A generation is above all that were heeded of an identity. -/
def Above (n : PresenceNode) (identityHex : Text) (gen : Nat) : Prop :=
  ∀ g, (identityHex, g) ∈ n.heeded → g < gen

theorem Orderly.above_iff (h : n.Orderly rate) {identityHex : Text} {gen : Nat} :
    (n.watermarks.get identityHex).any (fun seen => decide (gen ≤ seen)) = false
      ↔ n.Above identityHex gen := by
  rw [h.heeded.latest]
  constructor
  · intro hany g hg
    obtain ⟨last, hlast, hle⟩ := h.heeded.follows.le_last hg
    rw [Option.mem_def.mp hlast] at hany
    have hlt : last < gen := by simpa using hany
    rcases hle with rfl | hle
    · exact hlt
    · exact hle.trans hlt
  · intro habove
    cases hlast : lastOf identityHex n.heeded with
    | none => rfl
    | some last => simpa using habove last (mem_of_lastOf hlast)

/-- **What the handler does.** A record that passes and is above all that was heeded is heeded, and
sent on at most as it came but for its hop, if it came from the origin; nothing else is. -/
theorem Orderly.onPresence_cases (h : n.Orderly rate) (P : PresencePrimitives) (wall : ℚ)
    (frame : Option PresenceFrame) (peers : List NodeId) :
    n.onPresence rate P wall frame peers = { node := n }
        ∧ (∀ r, verifyPresenceRecord P frame = .ok r → ¬n.Above r.identityHex r.gen)
      ∨ ∃ f r, frame = some f ∧ verifyPresenceRecord P frame = .ok r
        ∧ n.Above r.identityHex r.gen
        ∧ (n.onPresence rate P wall frame peers).node.heeded = (r.identityHex, r.gen) :: n.heeded
        ∧ ((n.onPresence rate P wall frame peers).sent = []
          ∨ f.hop = 0
            ∧ (n.onPresence rate P wall frame peers).sent = peers.map (·, { f with hop := 1 })) := by
  unfold PresenceNode.onPresence
  split
  next e hr => exact .inl ⟨rfl, fun r hok => by cases hr.symm.trans hok⟩
  next r hr =>
  obtain ⟨f, rfl, -⟩ := of_verifyPresenceRecord hr
  split
  next hseen =>
    refine .inl ⟨rfl, fun r' hr' habove => ?_⟩
    cases hr.symm.trans hr'
    rw [h.above_iff.mpr habove] at hseen
    cases hseen
  next hseen =>
  refine .inr ⟨f, r, rfl, hr, h.above_iff.mp (Bool.eq_false_iff.mpr hseen), ?_⟩
  have hheeded : (n.heed r).heeded = (r.identityHex, r.gen) :: n.heeded := rfl
  dsimp only
  split
  · exact ⟨hheeded, .inl rfl⟩
  next f' hf =>
  obtain ⟨hf', hmay⟩ := Option.filter_eq_some_iff.mp hf
  cases hf'
  refine ⟨hheeded, .inr ⟨?_, rfl⟩⟩
  unfold relays? at hmay
  cases rate with
  | none => cases hmay
  | some ms => exact eq_of_beq (Bool.and_eq_true_iff.mp hmay).1

/-- **What is heeded** was heeded before, or is what the frame says that came in. -/
theorem Orderly.heeded_react (h : n.Orderly rate) {own : Identity} {x : PresenceInput}
    {a : Text × Nat} (ha : a ∈ (n.react rate P own x).node.heeded) :
    a ∈ n.heeded ∨ ∃ wall f peers, x = .frame wall (some f) peers
      ∧ Signs P (f.key, f.core) a.1 a.2
      ∧ ∃ sig, P.verifyPresence f.key f.core sig = some true := by
  cases x with
  | announce nonce sig peers =>
    replace ha : a ∈ (n.announcePresence rate own nonce sig peers).node.heeded := ha
    unfold announcePresence at ha
    split at ha
    · exact .inl ha
    dsimp only at ha
    split at ha <;> exact .inl ha
  | frame wall frame peers =>
    replace ha : a ∈ (n.onPresence rate P wall frame peers).node.heeded := ha
    rcases h.onPresence_cases P wall frame peers with ⟨heq, -⟩ | ⟨f, r, rfl, hr, -, hheeded, -⟩
    · rw [heq] at ha
      exact .inl ha
    rw [hheeded] at ha
    rcases List.mem_cons.mp ha with rfl | ha
    · obtain ⟨f', hf', hsigns, hsig⟩ := of_verifyPresenceRecord hr
      cases hf'
      exact .inr ⟨wall, f, peers, rfl, hsigns, hsig⟩
    · exact .inl ha
  | restart => cases ha

/-- **What is sent** is a record of the node's own, or one that came from its origin. -/
theorem Orderly.sent_react (h : n.Orderly rate) {own : Identity} {x : PresenceInput} {dest : NodeId}
    {f : PresenceFrame} (hf : (dest, f) ∈ (n.react rate P own x).sent) :
    (∃ gen nonce sig, f = announced own gen nonce sig)
      ∨ ∃ wall f₀ peers, x = .frame wall (some f₀) peers ∧ f₀.hop = 0 ∧ f = { f₀ with hop := 1 } := by
  cases x with
  | announce nonce sig peers =>
    replace hf : (dest, f) ∈ (n.announcePresence rate own nonce sig peers).sent := hf
    unfold announcePresence at hf
    split at hf
    · cases hf
    dsimp only at hf
    split at hf
    · cases hf
    · obtain ⟨p, -, heq⟩ := List.mem_map.mp hf
      cases heq
      exact .inl ⟨_, _, _, rfl⟩
  | frame wall frame peers =>
    replace hf : (dest, f) ∈ (n.onPresence rate P wall frame peers).sent := hf
    rcases h.onPresence_cases P wall frame peers with
      ⟨heq, -⟩ | ⟨f₀, r, rfl, -, -, -, hnone | ⟨hhop, hsome⟩⟩
    · rw [heq] at hf
      cases hf
    · rw [hnone] at hf
      cases hf
    · rw [hsome] at hf
      obtain ⟨p, -, heq⟩ := List.mem_map.mp hf
      cases heq
      exact .inr ⟨wall, f₀, peers, rfl, hhop, rfl⟩
  | restart => cases hf

end PresenceNode

/-! ### Runs -/

namespace PresenceNet

variable {ι : Type} [DecidableEq ι] {P : PresencePrimitives} {S : PresenceSetup ι}
  {s : PresenceNet ι} {a : Act ι} {i j : ι}

/-- Every node is in order. -/
def InOrder (S : PresenceSetup ι) (s : PresenceNet ι) : Prop := ∀ i, (s.nodes i).Orderly (S.rate i)

theorem InOrder.step (h : s.InOrder S) (a : Act ι) : (s.step P S a).InOrder S := by
  cases a with
  | node i x => exact (Function.forall_update_iff ..).mpr ⟨(h i).react _ x, fun j _ => h j⟩
  | sign key core => exact h

theorem inOrder_run (as : List (Act ι)) : (run (step P S) init as).InOrder S :=
  run_invariant (fun _ a h => h.step a) (fun _ => .empty) as

/-- **What is heeded** at a node, in the network. -/
theorem heeded_step (h : s.InOrder S) {y : Text × Nat}
    (hy : y ∈ ((s.step P S a).nodes j).heeded) :
    y ∈ (s.nodes j).heeded ∨ ∃ wall f peers, a = .node j (.frame wall (some f) peers)
      ∧ Signs P (f.key, f.core) y.1 y.2
      ∧ ∃ sig, P.verifyPresence f.key f.core sig = some true := by
  cases a with
  | node i x =>
    by_cases hij : j = i
    · subst hij
      simp only [step, Function.update_self] at hy
      refine ((h j).heeded_react hy).imp_right fun ⟨wall, f, peers, hx, hf⟩ => ?_
      exact ⟨wall, f, peers, congrArg _ hx, hf⟩
    · simp only [step, Function.update_of_ne hij] at hy
      exact .inl hy
  | sign key core => exact .inl hy

theorem signed_step : s.signed ⊆ (s.step P S a).signed := by
  cases a with
  | node i x => exact List.subset_append_right ..
  | sign key core => exact List.subset_cons_self ..

theorem sent_step : s.sent ⊆ (s.step P S a).sent := by
  cases a with
  | node i x => exact List.subset_append_right ..
  | sign key core => exact List.Subset.refl _

/-! ### Signatures -/

/-- **Signatures are not forged.** -/
def Unforged (P : PresencePrimitives) (s : PresenceNet ι) : Act ι → Prop
  | .node _ (.frame _ (some f) _) => ∀ sig, P.verifyPresence f.key f.core sig = some true →
    (f.key, f.core) ∈ s.signed
  | _ => True

/-- Every record that was heeded was signed. -/
def Signed (P : PresencePrimitives) (s : PresenceNet ι) : Prop :=
  ∀ i, ∀ y ∈ (s.nodes i).heeded, ∃ e ∈ s.signed, Signs P e y.1 y.2

theorem Signed.step (h : s.Signed P) (horder : s.InOrder S) (ha : s.Unforged P a) :
    (s.step P S a).Signed P := by
  intro j y hy
  rcases heeded_step horder hy with hy | ⟨wall, f, peers, rfl, hsigns, sig, hsig⟩
  · obtain ⟨e, he, hsigns⟩ := h j y hy
    exact ⟨e, signed_step he, hsigns⟩
  · exact ⟨_, signed_step (ha sig hsig), hsigns⟩

/-! ### Hops -/

/-- The id of a node. -/
def idOf (S : PresenceSetup ι) (i : ι) : NodeId := hexValue (S.own i).nodeId

/-- **The nodes are among themselves**: what comes in was sent by one of them. -/
def Among (S : PresenceSetup ι) (s : PresenceNet ι) : Act ι → Prop
  | .node i (.frame _ (some f) _) => ∃ j, (j, idOf S i, f) ∈ s.sent
  | _ => True

/-- The node sent the frame there, and it is one of its own. -/
def Announces (S : PresenceSetup ι) (s : PresenceNet ι) (k : ι) (dest : NodeId)
    (f : PresenceFrame) : Prop :=
  (k, dest, f) ∈ s.sent ∧ ∃ gen nonce sig, f = PresenceNode.announced (S.own k) gen nonce sig

/-- The frame came there from its origin, or from a node that had it from its origin. -/
def Reached (S : PresenceSetup ι) (s : PresenceNet ι) (dest : NodeId) (k : ι)
    (f : PresenceFrame) : Prop :=
  Announces S s k dest f
    ∨ ∃ j, Announces S s k (idOf S j) f ∧ (j, dest, { f with hop := 1 }) ∈ s.sent

/-- **Two hops**: whatever was sent, and whatever was heeded, is from its origin or was passed on
once. -/
structure TwoHops (S : PresenceSetup ι) (s : PresenceNet ι) : Prop where
  sent : ∀ j dest f, (j, dest, f) ∈ s.sent → Announces S s j dest f
    ∨ ∃ k f₀, Announces S s k (idOf S j) f₀ ∧ f = { f₀ with hop := 1 }
  heeded : ∀ i, ∀ y ∈ (s.nodes i).heeded, ∃ k f, Reached S s (idOf S i) k f
    ∧ y = (f.core.nodeId.drop 2, f.core.gen)

theorem Announces.step {k : ι} {dest : NodeId} {f : PresenceFrame} (h : Announces S s k dest f) :
    Announces S (s.step P S a) k dest f :=
  ⟨sent_step h.1, h.2⟩

theorem TwoHops.step (h : s.TwoHops S) (horder : s.InOrder S) (ha : s.Among S a) :
    (s.step P S a).TwoHops S := by
  constructor
  · intro j dest f hf
    have hold (hf : (j, dest, f) ∈ s.sent) : Announces S (s.step P S a) j dest f
        ∨ ∃ k f₀, Announces S (s.step P S a) k (idOf S j) f₀ ∧ f = { f₀ with hop := 1 } :=
      (h.sent j dest f hf).imp (·.step) fun ⟨k, f₀, hk, heq⟩ => ⟨k, f₀, hk.step, heq⟩
    cases a with
    | sign key core => exact hold hf
    | node i x =>
      rcases List.mem_append.mp hf with hnew | hf
      · obtain ⟨out, hout, heq⟩ := List.mem_map.mp hnew
        cases heq
        rcases (horder _).sent_react hout with hown | ⟨wall, f₀, peers, rfl, hhop, rfl⟩
        · exact .inl ⟨hf, hown⟩
        -- what is passed on has no hop, so it came from its origin
        obtain ⟨k, hk⟩ := ha
        rcases h.sent k _ f₀ hk with hown | ⟨_, _, _, rfl⟩
        · exact .inr ⟨k, f₀, hown.step, rfl⟩
        · cases hhop
      · exact hold hf
  · intro j y hy
    rcases heeded_step horder hy with hy | ⟨wall, f, peers, rfl, hsigns, -⟩
    · obtain ⟨k, f, hreached, heq⟩ := h.heeded j y hy
      exact ⟨k, f, hreached.imp (·.step) fun ⟨i, hk, hi⟩ => ⟨i, hk.step, sent_step hi⟩, heq⟩
    · obtain ⟨k, hk⟩ := ha
      have hsays : y = (f.core.nodeId.drop 2, f.core.gen) :=
        Prod.ext hsigns.identity.symm hsigns.gen.symm
      rcases h.sent k _ f hk with hown | ⟨k', f₀, hown, rfl⟩
      · exact ⟨k, f, .inl hown.step, hsays⟩
      · exact ⟨k', f₀, .inr ⟨k, hown.step, sent_step hk⟩, hsays⟩

/-! ### The results -/

/-- Primitives that evaluate. -/
def samplePresence : PresencePrimitives where
  toAuthPrimitives := sampleAuth
  verifyPresence key _ sig := some (decide (sig = key ++ key))

/-- Three nodes that send records on. -/
def threeNodes : PresenceSetup (Fin 3) where
  rate _ := some 5000
  own i := sampleIdentity i.val.digitChar

/-- The first announcement of the first node. -/
def firstRecord : PresenceFrame :=
  PresenceNode.announced (threeNodes.own 0) 1 (List.replicate 32 'a')
    (signatureTag ++ List.replicate 128 '0')

/-- It is announced to the second node, which sends it on to the third. -/
def passedOn : List (Act (Fin 3)) :=
  [.node 0 (.announce (List.replicate 32 'a') firstRecord.sig [idOf threeNodes 1]),
    .node 1 (.frame 0 (some firstRecord) [idOf threeNodes 2]),
    .node 2 (.frame 0 (some { firstRecord with hop := 1 }) [idOf threeNodes 0])]

variable (P S)

/-- **A record is heeded once, and only if the owner of its identity signed it.** In every run in
which no signature is forged, the generations that a node heeded of an identity since it started
rise, the key of the identity signed each of them, and a record that passes the check is heeded if
its generation is above all of these; any other frame changes nothing. -/
theorem presence_fresh (as : List (Act ι)) (h : EachStep (step P S) (Unforged P) init as) (i : ι) :
    let s := run (step P S) init as
    let n := s.nodes i
    (n.heeded.Pairwise fun y z => y.1 = z.1 → z.2 < y.2)
      ∧ (∀ y ∈ n.heeded, ∃ e ∈ s.signed, Signs P e y.1 y.2)
      ∧ ∀ wall frame peers,
        (∀ r, verifyPresenceRecord P frame = .ok r → n.Above r.identityHex r.gen →
          (n.onPresence (S.rate i) P wall frame peers).node.heeded
            = (r.identityHex, r.gen) :: n.heeded)
        ∧ ((∀ r, verifyPresenceRecord P frame = .ok r → ¬n.Above r.identityHex r.gen) →
          n.onPresence (S.rate i) P wall frame peers = { node := n }) := by
  intro s n
  have horder : n.Orderly (S.rate i) := inOrder_run as i
  have hsigned : s.InOrder S ∧ s.Signed P :=
    h.invariant (I := fun s => s.InOrder S ∧ s.Signed P)
      (fun _ a hs ha => ⟨hs.1.step a, hs.2.step hs.1 ha⟩) ⟨fun _ => .empty, fun _ _ => nofun⟩
  refine ⟨horder.heeded.follows.pairwise, hsigned.2 i, fun wall frame peers => ?_⟩
  rcases horder.onPresence_cases P wall frame peers with
    ⟨heq, hlow⟩ | ⟨f, r', -, hr', habove, hheeded, -⟩
  · exact ⟨fun r hr habove => absurd habove (hlow r hr), fun _ => heq⟩
  · refine ⟨fun r hr _ => ?_, fun hlow => absurd habove (hlow r' hr')⟩
    cases hr.symm.trans hr'
    exact hheeded

theorem presence_fresh_third :
    ∃ e ∈ (run (step samplePresence threeNodes) init passedOn).signed,
      Signs samplePresence e (List.replicate 64 '0') 1 :=
  (presence_fresh samplePresence threeNodes passedOn
    ⟨trivial, fun _ _ => by decide +kernel, fun _ _ => by decide +kernel, trivial⟩ 2).2.1
    (List.replicate 64 '0', 1) (by decide +kernel)

/-- **The pace is kept, whatever comes in.** In every run, a node sent a record on at most once since
it started, and only one that it heeded; between two records of one identity that it sent on there
is as long a time as is configured. -/
theorem presence_paced (as : List (Act ι)) (i : ι) :
    let n := (run (step P S) init as).nodes i
    (n.relays.map fun r => (r.1, r.2.1)).Nodup
      ∧ (∀ r ∈ n.relays, (r.1, r.2.1) ∈ n.heeded)
      ∧ ∀ ms ∈ S.rate i,
        Follows (fun t t' => ms ≤ t' - t) (n.relays.map fun r => (r.1, r.2.2)) := by
  intro n
  have horder : n.Orderly (S.rate i) := inOrder_run as i
  have hnodup : n.heeded.Nodup :=
    horder.heeded.follows.pairwise.imp fun hlt heq => (hlt (congrArg Prod.fst heq)).ne'
      (congrArg Prod.snd heq)
  exact ⟨horder.relayed.nodup hnodup, fun r hr => horder.relayed.subset (List.mem_map_of_mem hr),
    fun ms hms => (horder.relays ms hms).follows⟩

/-- **A record goes two hops at most.** In every run of nodes among themselves, what a node heeds was
announced by its origin, and came from there, or from a node that had it from there. -/
theorem presence_two_hops (as : List (Act ι)) (h : EachStep (step P S) (Among S) init as) (i : ι) :
    ∀ y ∈ ((run (step P S) init as).nodes i).heeded, ∃ k gen nonce sig,
      y = ((S.own k).nodeId.drop 2, gen)
        ∧ Reached S (run (step P S) init as) (idOf S i) k
          (PresenceNode.announced (S.own k) gen nonce sig) := by
  have hhops := h.invariant (I := fun s => s.InOrder S ∧ s.TwoHops S)
    (fun _ a hs ha => ⟨hs.1.step a, hs.2.step hs.1 ha⟩)
    ⟨fun _ => .empty, fun _ _ _ => nofun, fun _ _ => nofun⟩
  intro y hy
  obtain ⟨k, f, hreached, heq⟩ := hhops.2.heeded i y hy
  obtain ⟨gen, nonce, sig, rfl⟩ :
      ∃ gen nonce sig, f = PresenceNode.announced (S.own k) gen nonce sig :=
    hreached.elim (·.2) fun ⟨_, hk, _⟩ => hk.2
  exact ⟨k, gen, nonce, sig, heq, hreached⟩

theorem presence_two_hops_third : ∃ k gen nonce sig,
    (List.replicate 64 '0', 1) = ((threeNodes.own k).nodeId.drop 2, gen)
      ∧ Reached threeNodes (run (step samplePresence threeNodes) init passedOn)
        (idOf threeNodes 2) k (PresenceNode.announced (threeNodes.own k) gen nonce sig) :=
  presence_two_hops samplePresence threeNodes passedOn
    ⟨trivial, ⟨0, by decide +kernel⟩, ⟨1, by decide +kernel⟩, trivial⟩ 2 _ (by decide +kernel)

end PresenceNet

end Axona
