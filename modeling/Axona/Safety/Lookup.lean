import Axona.Dht.Lookup
import Axona.Safety.Routing

/-! # A lookup walk does not come back, and names its stop

Every hop a walk is handed to is outside the set of nodes it was at, whichever way it was chosen, so
its path repeats no node; it takes no more hops than the cap; and its originator settles once.

A walk that stops as stalled had no unvisited synapse or incoming synapse left at its last node. The
fallback does not look at the incoming pool, so such a stop is right only where every usable peer of
that pool was visited. -/

namespace Axona

open Library

variable {cfg : RoutingConfig} {v : RoutingView} {me : NodeId} {ctx : WalkCtx} {x : LookupInput}

/-! ### Choosing -/

theorem pickNearest_none {target : NodeId} {ids : List NodeId}
    (h : pickNearest target ids = none) : ids = [] := by
  have haux : ∀ (ids : List NodeId) (best : Option NodeId), ids.foldl (fun best id =>
      if best.all (distance target id < distance target ·) then some id else best) best = none →
        best = none ∧ ids = [] := by
    intro ids
    induction ids with
    | nil => exact fun best h => ⟨h, rfl⟩
    | cons id ids ih =>
      intro best h
      rw [List.foldl_cons] at h
      obtain ⟨hbest, -⟩ := ih _ h
      split at hbest
      · cases hbest
      next hno =>
        subst hbest
        exact absurd rfl hno
  exact (haux ids none h).2

theorem mem_of_bestBy {score : NodeId → Option Int} {ids : List NodeId} {id : NodeId}
    (h : bestBy score ids = some id) : id ∈ ids := by
  unfold bestBy at h
  obtain ⟨b, hb, rfl⟩ := Option.map_eq_some_iff.mp h
  have hpick := foldl_picks (T := fun x best => ∃ s, best = some (x, s)) hb fun best x => by
    cases score x with
    | none => exact .inl rfl
    | some s =>
      simp only []
      split
      · exact .inr ⟨s, rfl⟩
      · exact .inl rfl
  rcases hpick with hnone | ⟨x, hx, s, heq⟩
  · cases hnone
  · cases heq
    exact hx

theorem mem_of_bestByTwoHopAP {l : Lookahead} {target : NodeId} {ids : List NodeId} {id : NodeId}
    (h : bestByTwoHopAP l target ids = some id) : id ∈ ids := by
  have hprobe : ∀ {id : NodeId}, id ∈ (l.order ids).take l.alpha → id ∈ ids :=
    fun hid => (l.order_perm ids).mem_iff.mp (List.mem_of_mem_take hid)
  unfold bestByTwoHopAP at h
  simp only [] at h
  split at h
  next first hfirst =>
    cases h
    exact hprobe (List.mem_of_find?_eq_some hfirst)
  next =>
  split at h
  next best hbest =>
    cases h
    exact hprobe (mem_of_bestBy hbest)
  next => exact mem_of_bestBy h

namespace WalkCtx

/-- A node the walk was not at. -/
theorem unvisited_iff {id : NodeId} : ctx.unvisited id = true ↔ id ∉ ctx.queried := by
  simp [unvisited]

theorem not_mem_of_onward {id : NodeId} (h : ctx.onward me id = true) : id ∉ ctx.queried := by
  rw [onward, Bool.and_eq_true] at h
  exact unvisited_iff.mp h.2

theorem onward_of_candidate {id : NodeId} (h : id ∈ ctx.candidates me v) :
    ctx.onward me id = true := by
  rcases List.mem_append.mp h with hsyn | hpool
  · rw [← List.filter_append] at hsyn
    have hp := (List.mem_filter.mp hsyn).2
    rw [Bool.and_eq_true] at hp
    exact hp.1
  · obtain ⟨u, hu, rfl⟩ := List.mem_map.mp hpool
    have hp := (List.mem_filter.mp hu).2
    rw [Bool.and_eq_true] at hp
    exact hp.2

theorem not_mem_of_fallback {id : NodeId} (h : ctx.fallback v = some id) : id ∉ ctx.queried := by
  have hp := (List.mem_filter.mp (mem_of_pickNearest h)).2
  rw [Bool.and_eq_true] at hp
  exact unvisited_iff.mp hp.1

theorem not_mem_of_pickNext {ids tried : List NodeId} {id : NodeId}
    (h : ctx.pickNext v ids tried = some id) : id ∉ ctx.queried := by
  have hp := (List.mem_filter.mp (mem_of_pickNearest h)).2
  simp only [Bool.and_eq_true] at hp
  exact unvisited_iff.mp hp.1.1.2

theorem direct_eq {id : NodeId} (h : ctx.direct v = some id) : id = ctx.targetKey := by
  unfold direct at h
  split at h
  · exact (Option.some.inj h).symm
  · cases h

/-- The fallback leaves no unvisited synapse or incoming synapse but the marked ones. -/
theorem fallback_none (h : ctx.fallback v = none) {id : NodeId}
    (hid : id ∈ v.synaptome ++ v.incomingSynapses) (hdead : v.dead id = false) :
    id ∈ ctx.queried := by
  by_contra hnot
  have hmem : id ∈ (v.synaptome ++ v.incomingSynapses).filter
      fun id => ctx.unvisited id && !v.dead id := by
    refine List.mem_filter.mpr ⟨hid, ?_⟩
    rw [unvisited_iff.mpr hnot, hdead]
    rfl
  rw [pickNearest_none h] at hmem
  cases hmem

end WalkCtx

namespace LookupInput

theorem not_mem_of_pool {id : NodeId} (h : id ∈ x.pool me ctx) : id ∉ ctx.queried := by
  unfold pool at h
  split at h
  · exact WalkCtx.not_mem_of_fallback (Option.mem_toList.mp h)
  rcases List.mem_append.mp h with hcand | hrepl
  · exact WalkCtx.not_mem_of_onward (WalkCtx.onward_of_candidate hcand)
  split at hrepl
  · cases hrepl
  · exact WalkCtx.not_mem_of_onward (List.mem_filter.mp hrepl).2

/-- **The choice.** By direct synapse, by draw, or by lookahead, it is a node the walk was not at,
as long as it was not at the target. -/
theorem not_mem_of_choose {id : NodeId} (htarget : ctx.targetKey ∉ ctx.queried)
    (h : x.choose me ctx = some id) : id ∉ ctx.queried := by
  unfold choose at h
  split at h
  next d hd =>
    cases h
    rw [WalkCtx.direct_eq hd]
    exact htarget
  next =>
  simp only [] at h
  split at h
  next d hd =>
    cases h
    split at hd
    · obtain ⟨i, -, hi⟩ := Option.bind_eq_some_iff.mp hd
      exact not_mem_of_pool (List.mem_of_getElem? hi)
    · cases hd
  next => exact not_mem_of_pool (mem_of_bestByTwoHopAP h)

theorem pool_eq_nil (h : x.pool me ctx = []) : ctx.fallback (x.atChoice me ctx) = none := by
  unfold pool at h
  split at h
  · exact Option.toList_eq_nil_iff.mp h
  next hne => exact absurd h hne

end LookupInput

/-! ### One step of a walk -/

/-- What a step that hands the walk on leaves: its frames go to nodes the walk was not at, and carry
it one hop further; the context is as it was, or one hop further; and where the walk ends, it was
that a send failed. -/
structure StepRun.Onward (ctx : WalkCtx) (walk : Option Nat) (r : StepRun) : Prop where
  frames : ∀ f ∈ r.frames, f.dest ∉ ctx.queried ∧ f.ctx = ctx.charge f.dest
  left : r.ctx = ctx ∨ ∃ next, next ∉ ctx.queried ∧ r.ctx = ctx.charge next
  ended : ∀ out, r.outcome = .ended out → out = r.ctx.result .sendFailed
  forwarded : r.outcome = .forwarded → walk ≠ none

theorem attempt_ended (t : LookupTry) (walk : Option Nat) {o : StepOutcome}
    (h : (t.attempt walk).2 = .done o) :
    (∀ out, o ≠ .ended out) ∧ (o = .forwarded → walk ≠ none) := by
  have hreply : ∀ {r : StepReply}, r.attempt = .done o →
      (∀ out, o ≠ .ended out) ∧ (o = .forwarded → walk ≠ none) := by
    intro r hr
    cases r with
    | result out =>
      cases hr
      exact ⟨fun _ => by rintro ⟨⟩, by rintro ⟨⟩⟩
    | edgeLoss | failed => cases hr
  unfold LookupTry.attempt at h
  cases walk with
  | none => exact hreply h
  | some k =>
    cases hoff : t.handOff with
    | noHandler =>
      rw [hoff] at h
      exact hreply h
    | taken =>
      rw [hoff] at h
      cases h
      exact ⟨fun _ => by rintro ⟨⟩, fun _ => Option.some_ne_none k⟩
    | edgeLoss | failed =>
      rw [hoff] at h
      cases h

/-- **The loop.** Whichever sends fail and whichever candidates are taken after them. -/
theorem handOn_onward {reselect : Bool} {walk : Option Nat} {ids tried : List NodeId}
    {next : NodeId} {ts : List LookupTry} (hnext : next ∉ ctx.queried) :
    (handOn reselect walk ctx ids next tried ts).Onward ctx walk := by
  have hleft : ∀ {next : NodeId}, next ∉ ctx.queried →
      (if reselect then ctx else ctx.charge next) = ctx ∨
        ∃ n, n ∉ ctx.queried ∧ (if reselect then ctx else ctx.charge next) = ctx.charge n := by
    intro next hnext
    cases reselect with
    | true => exact .inl rfl
    | false => exact .inr ⟨next, hnext, rfl⟩
  induction ts generalizing next tried with
  | nil =>
    exact ⟨fun f hf => absurd hf List.not_mem_nil, hleft hnext, by rintro out ⟨⟩, by rintro ⟨⟩⟩
  | cons t ts ih =>
    unfold handOn
    have hleft := hleft hnext
    generalize (if reselect then ctx else ctx.charge next) = left at hleft ⊢
    have hframes : ∀ f ∈ (t.attempt walk).1.map fun w => WalkFrame.mk next w (ctx.charge next),
        f.dest ∉ ctx.queried ∧ f.ctx = ctx.charge f.dest := by
      intro f hf
      obtain ⟨w, -, rfl⟩ := List.mem_map.mp hf
      exact ⟨hnext, rfl⟩
    -- a round that ends the walk here
    have hfailed : ∀ frames : List WalkFrame,
        (∀ f ∈ frames, f.dest ∉ ctx.queried ∧ f.ctx = ctx.charge f.dest) →
          (StepRun.mk frames (.ended (left.result .sendFailed)) left).Onward ctx walk := by
      intro frames hf
      refine ⟨hf, hleft, ?_, by rintro ⟨⟩⟩
      rintro out ⟨⟩
      rfl
    split
    · split
      next n hn => exact ih (WalkCtx.not_mem_of_pickNext hn)
      next => exact hfailed [] fun f hf => absurd hf List.not_mem_nil
    split
    next o ho =>
      obtain ⟨hended, hfwd⟩ := attempt_ended t walk ho
      refine ⟨hframes, .inr ⟨next, hnext, rfl⟩, ?_, hfwd⟩
      intro out hout
      exact absurd hout (hended out)
    next => exact hfailed _ hframes
    next =>
    split
    · split
      next n hn =>
        have hrest : (handOn reselect walk ctx ids n (next :: tried) ts).Onward ctx walk :=
          ih (WalkCtx.not_mem_of_pickNext hn)
        refine ⟨?_, hrest.left, hrest.ended, hrest.forwarded⟩
        intro f hf
        rcases List.mem_append.mp hf with hf | hf
        · exact hframes f hf
        · exact hrest.frames f hf
      next => exact hfailed _ hframes
    · exact hfailed _ hframes

theorem distance_eq_zero {target : NodeId} : distance target me = 0 ↔ me = target := by
  unfold distance
  exact Nat.xor_eq_zero_iff

/-- The step of a walk stops as stalled exactly where, short of the target and of the cap, it finds
no candidate. -/
def LookupInput.Stalls (x : LookupInput) (cfg : RoutingConfig) (me : NodeId) (ctx : WalkCtx) :
    Prop :=
  me ≠ ctx.targetKey ∧ ctx.hops < cfg.maxHops ∧ x.pool me ctx = []

/-- **A step of a walk.** Its frames go to nodes the walk was not at, as long as it is below the
cap; and it says how it ended. -/
theorem lookupStep_spec (cfg : RoutingConfig) (x : LookupInput) (walk : Option Nat)
    (htarget : ctx.targetKey ∈ ctx.queried → ctx.targetKey = me) :
    let r := cfg.lookupStep me ctx walk x
    (∀ f ∈ r.frames, me ≠ ctx.targetKey ∧ ctx.hops < cfg.maxHops ∧ f.dest ∉ ctx.queried ∧
        f.ctx = ctx.charge f.dest) ∧
      (r.ctx = ctx ∨ ctx.hops < cfg.maxHops ∧ ∃ next, next ∉ ctx.queried ∧
        r.ctx = ctx.charge next) ∧
      (∀ out, r.outcome = .ended out → ∃ reason, out = r.ctx.result reason ∧
        (reason = .stalled ↔ x.Stalls cfg me ctx)) ∧
      (r.outcome = .forwarded → walk ≠ none) := by
  intro r
  have hno : ∀ f ∈ ([] : List WalkFrame), me ≠ ctx.targetKey ∧ ctx.hops < cfg.maxHops ∧
      f.dest ∉ ctx.queried ∧ f.ctx = ctx.charge f.dest := fun f hf => absurd hf List.not_mem_nil
  have hr : r = cfg.lookupStep me ctx walk x := rfl
  clear_value r
  unfold RoutingConfig.lookupStep at hr
  split at hr
  next hfound =>
    subst hr
    refine ⟨hno, .inl rfl, ?_, by rintro ⟨⟩⟩
    rintro out ⟨⟩
    exact ⟨.found, rfl, by rintro ⟨⟩, fun h => absurd (distance_eq_zero.mp hfound) h.1⟩
  next hshort =>
  have hne : me ≠ ctx.targetKey := fun h => hshort (distance_eq_zero.mpr h)
  split at hr
  next hcap =>
    subst hr
    refine ⟨hno, .inl rfl, ?_, by rintro ⟨⟩⟩
    rintro out ⟨⟩
    exact ⟨.maxHops, rfl, by rintro ⟨⟩, fun h => absurd h.2.1 (not_lt.mpr hcap)⟩
  next hcap =>
  have hlt := not_le.mp hcap
  split at hr
  next hpool =>
    subst hr
    refine ⟨hno, .inl rfl, ?_, by rintro ⟨⟩⟩
    rintro out ⟨⟩
    exact ⟨.stalled, rfl, fun _ => ⟨hne, hlt, hpool⟩, fun _ => rfl⟩
  next hpool =>
  split at hr
  next =>
    subst hr
    exact ⟨hno, .inl rfl, by rintro out ⟨⟩, by rintro ⟨⟩⟩
  next next hnext =>
  have hoff : next ∉ ctx.queried :=
    LookupInput.not_mem_of_choose (fun h => hne (htarget h).symm) hnext
  have hon : (handOn x.reselect walk ctx (x.pool me ctx) next [] x.tries).Onward ctx walk :=
    handOn_onward hoff
  rw [← hr] at hon
  refine ⟨?_, ?_, ?_, hon.forwarded⟩
  · intro f hf
    obtain ⟨hdest, hctx⟩ := hon.frames f hf
    exact ⟨hne, hlt, hdest, hctx⟩
  · rcases hon.left with heq | hnew
    · exact .inl heq
    · exact .inr ⟨hlt, hnew⟩
  · intro out hout
    exact ⟨.sendFailed, hon.ended out hout, by rintro ⟨⟩, fun h => absurd h.2.2 hpool⟩

/-! ### What a walk carries -/

/-- A walk as it is at a node: its path repeats no node and is what was queried, its hop count is
that of its path, and it was at the target only if it is there. -/
structure WalkCtx.NoRepeat (cfg : RoutingConfig) (me : NodeId) (ctx : WalkCtx) : Prop where
  queried : ctx.queried = ctx.path.reverse
  nodup : ctx.path.Nodup
  length : ctx.path.length = ctx.hops + 1
  hops : ctx.hops ≤ cfg.maxHops
  target : ctx.targetKey ∈ ctx.queried → ctx.targetKey = me

theorem WalkCtx.sound_start (cfg : RoutingConfig) (me target : NodeId) :
    WalkCtx.NoRepeat cfg me ⟨me, target, 0, [me], [me]⟩ :=
  ⟨rfl, by simp, rfl, Nat.zero_le _, List.mem_singleton.mp⟩

/-- A walk below the cap is handed on to a node it was not at. -/
theorem WalkCtx.NoRepeat.charge (h : ctx.NoRepeat cfg me) {next : NodeId} (hne : me ≠ ctx.targetKey)
    (hlt : ctx.hops < cfg.maxHops) (hnext : next ∉ ctx.queried) :
    (ctx.charge next).NoRepeat cfg next := by
  have hpath : next ∉ ctx.path := by
    rw [← List.mem_reverse, ← h.queried]
    exact hnext
  constructor
  · change next :: ctx.queried = (ctx.path ++ [next]).reverse
    rw [List.reverse_append, h.queried]
    rfl
  · exact List.nodup_append.mpr ⟨h.nodup, by simp, fun a ha b hb => by
      rintro rfl
      exact hpath (List.mem_singleton.mp hb ▸ ha)⟩
  · change (ctx.path ++ [next]).length = ctx.hops + 1 + 1
    rw [List.length_append, h.length]
    rfl
  · exact hlt
  · intro hmem
    rcases List.mem_cons.mp hmem with heq | hold
    · exact heq
    · exact absurd (h.target hold).symm hne

/-- No peer is left to go on to: of the synapses, the incoming synapses and the incoming pool, every
one that is connected and not marked dead was visited. -/
def RoutingView.Exhausted (v : RoutingView) (me : NodeId) (queried : List NodeId) : Prop :=
  ∀ id, id ∈ v.synaptome ∨ id ∈ v.incomingSynapses ∨ (id, .I) ∈ v.usablePeers me [] →
    v.dead id = false → v.connOk id = true → id ∈ queried

namespace WalkVisit

/-- The hops of a step are outside what the walk carried, and its results carry no repeated node and
no more hops than the cap. -/
structure HopsOutside (cfg : RoutingConfig) (v : WalkVisit) : Prop where
  frames : ∀ f ∈ v.run.frames, f.dest ∉ v.ctx.queried ∧ f.ctx.path = v.ctx.path ++ [f.dest] ∧
    f.ctx.queried = f.dest :: v.ctx.queried
  ended : ∀ r, v.run.outcome = .ended r → r.path.Nodup ∧ r.hops ≤ cfg.maxHops ∧
    r.path.length = r.hops + 1

/-- A step that stops as stalled has no peer left. -/
def NamesStop (v : WalkVisit) : Prop :=
  ∀ r, v.run.outcome = .ended r → r.stalled = true →
    (v.input.atChoice v.me v.ctx).Exhausted v.me v.ctx.queried

end WalkVisit

/-- Where a node short of the target and of the cap has no nearer candidate, and every synapse and
incoming synapse it reads is visited or marked dead, the usable peers of its incoming pool are
visited too. -/
def LookupInput.Covered (x : LookupInput) (cfg : RoutingConfig) (me : NodeId) (ctx : WalkCtx) :
    Prop :=
  let v := x.atChoice me ctx
  me ≠ ctx.targetKey → ctx.hops < cfg.maxHops → x.gathered me ctx = [] →
    (∀ id ∈ v.synaptome ++ v.incomingSynapses, id ∈ ctx.queried ∨ v.dead id = true) →
      ∀ id, (id, .I) ∈ v.usablePeers me [] → id ∈ ctx.queried

namespace LookupInput

/-- There is no candidate where none was gathered and no synapse is left. -/
theorem pool_eq_nil_iff : x.pool me ctx = [] ↔ x.gathered me ctx = [] ∧
    ∀ id ∈ (x.atChoice me ctx).synaptome ++ (x.atChoice me ctx).incomingSynapses,
      id ∈ ctx.queried ∨ (x.atChoice me ctx).dead id = true := by
  constructor
  · intro h
    have hnone := pool_eq_nil h
    refine ⟨?_, fun id hid => ?_⟩
    · unfold pool at h
      split at h
      next hg => exact hg
      next hg => exact absurd h hg
    · cases hdead : (x.atChoice me ctx).dead id with
      | true => exact .inr rfl
      | false => exact .inl (WalkCtx.fallback_none hnone hid hdead)
  · rintro ⟨hg, hall⟩
    unfold pool
    rw [if_pos hg, Option.toList_eq_nil_iff]
    cases hf : ctx.fallback (x.atChoice me ctx) with
    | none => rfl
    | some id =>
      have hp := List.mem_filter.mp (mem_of_pickNearest hf)
      rw [Bool.and_eq_true, Bool.not_eq_true'] at hp
      rcases hall id hp.1 with hq | hdead
      · exact absurd hq (WalkCtx.unvisited_iff.mp hp.2.1)
      · rw [hdead] at hp
        cases hp.2.2

end LookupInput

theorem mem_incoming_usable {id : NodeId} (h : (id, .I) ∈ v.usablePeers me []) :
    v.dead id = false ∧ v.connOk id = true := by
  rcases List.mem_append.mp h with h | h
  · obtain ⟨id', -, heq⟩ := List.mem_map.mp h
    cases heq
  obtain ⟨id', hid, heq⟩ := List.mem_map.mp h
  cases heq
  have hp := (List.mem_filter.mp hid).2
  simp only [RoutingView.eligible, Bool.and_eq_true, Bool.not_eq_true'] at hp
  exact ⟨hp.1.2.1.2, hp.1.2.2⟩

/-- **The stop of a step.** It is named right exactly where the incoming pool is covered. -/
theorem namesStop_iff (walk : Option Nat)
    (htarget : ctx.targetKey ∈ ctx.queried → ctx.targetKey = me) :
    WalkVisit.NamesStop ⟨me, ctx, x, cfg.lookupStep me ctx walk x⟩ ↔ x.Covered cfg me ctx := by
  obtain ⟨-, -, hended, -⟩ := lookupStep_spec cfg x walk htarget
  constructor
  · intro h hne hlt hg hall id hid
    have hpool := LookupInput.pool_eq_nil_iff.mpr ⟨hg, hall⟩
    have hstalled : (cfg.lookupStep me ctx walk x).outcome = .ended (ctx.result .stalled) := by
      unfold RoutingConfig.lookupStep
      rw [if_neg (fun h => hne (distance_eq_zero.mp h)), if_neg (not_le.mpr hlt), if_pos hpool]
    obtain ⟨hdead, hconn⟩ := mem_incoming_usable hid
    exact h _ hstalled rfl id (.inr (.inr hid)) hdead hconn
  · intro h r hr hst id hid hdead hconn
    obtain ⟨reason, rfl, hreason⟩ := hended r hr
    obtain ⟨hne, hlt, hpool⟩ := hreason.mp (of_decide_eq_true hst)
    obtain ⟨hg, hall⟩ := LookupInput.pool_eq_nil_iff.mp hpool
    rcases hid with hsyn | hinc | hpool
    · rcases hall id (List.mem_append_left _ hsyn) with hq | hd
      · exact hq
      · rw [hd] at hdead
        cases hdead
    · rcases hall id (List.mem_append_right _ hinc) with hq | hd
      · exact hq
      · rw [hd] at hdead
        cases hdead
    · exact h hne hlt hg hall id hpool

/-! ### The network -/

/-- Every walk on its way, or about to begin, is sound, and so is every step that was taken. -/
structure LookupNet.NoRepeats (cfg : RoutingConfig) (s : LookupNet) : Prop where
  frames : ∀ f ∈ s.frames, f.ctx.NoRepeat cfg f.dest
  begun : ∀ o ∈ s.origins, o.first = .begun → o.ctx.NoRepeat cfg o.me
  visits : ∀ v ∈ s.visits, v.HopsOutside cfg

theorem visit_sound (h : ctx.NoRepeat cfg me) (walk : Option Nat) (x : LookupInput) :
    WalkVisit.HopsOutside cfg ⟨me, ctx, x, cfg.lookupStep me ctx walk x⟩ ∧
      ∀ f ∈ (cfg.lookupStep me ctx walk x).frames, f.ctx.NoRepeat cfg f.dest := by
  obtain ⟨hframes, hleft, hended, -⟩ := lookupStep_spec cfg x walk h.target
  have hctx : (cfg.lookupStep me ctx walk x).ctx.path.Nodup ∧
      (cfg.lookupStep me ctx walk x).ctx.hops ≤ cfg.maxHops ∧
        (cfg.lookupStep me ctx walk x).ctx.path.length =
          (cfg.lookupStep me ctx walk x).ctx.hops + 1 := by
    rcases hleft with heq | ⟨hlt, next, hnext, heq⟩
    · rw [heq]
      exact ⟨h.nodup, h.hops, h.length⟩
    rw [heq]
    refine ⟨?_, hlt, ?_⟩
    · refine List.nodup_append.mpr ⟨h.nodup, by simp, fun a ha b hb => ?_⟩
      rintro rfl
      rw [h.queried, List.mem_reverse] at hnext
      exact hnext (List.mem_singleton.mp hb ▸ ha)
    · change (ctx.path ++ [next]).length = ctx.hops + 1 + 1
      rw [List.length_append, h.length]
      rfl
  refine ⟨⟨?_, ?_⟩, ?_⟩
  · intro f hf
    obtain ⟨-, -, hdest, heq⟩ := hframes f hf
    rw [heq]
    exact ⟨hdest, rfl, rfl⟩
  · intro r hr
    obtain ⟨reason, rfl, -⟩ := hended r hr
    exact hctx
  · intro f hf
    obtain ⟨hne, hlt, hdest, heq⟩ := hframes f hf
    rw [heq]
    exact h.charge hne hlt hdest

namespace LookupNet

variable {s : LookupNet}

/-- Sending a result back touches no frame, no visit and no context. -/
theorem walkFinish_frames (s : LookupNet) (me : NodeId) (r : LookupResult) (k : Nat)
    (sourceId : NodeId) : (s.walkFinish me r k sourceId).frames = s.frames ∧
      (s.walkFinish me r k sourceId).visits = s.visits := by
  unfold walkFinish
  split
  · exact ⟨rfl, rfl⟩
  split
  · exact ⟨rfl, rfl⟩
  · exact ⟨rfl, rfl⟩

theorem stepReturned_frames (s : LookupNet) (me : NodeId) (k : Nat) (run : StepRun) :
    (s.stepReturned me k run).frames = s.frames ∧ (s.stepReturned me k run).visits = s.visits := by
  unfold stepReturned
  split
  · exact walkFinish_frames s me _ k _
  · exact walkFinish_frames s me _ k _
  · exact walkFinish_frames s me _ k _
  · exact ⟨rfl, rfl⟩

end LookupNet

/-! ### The originator -/

namespace LookupOrigin

variable {o o' o'' : LookupOrigin}

/-- A lookup is settled once it is not pending, and no sooner; and its own step hands a walk on only
with `lookup_walk`. -/
structure SettledOnce (o : LookupOrigin) : Prop where
  settled : o.settled.length = if o.acked && !o.pending then 1 else 0
  pending : o.pending = true → o.acked = true
  recursive : o.acked = false → o.first ≠ .returned .forwarded ∧
    ∀ ctx, o.first ≠ .ran .forwarded ctx
  returned : o.first ≠ .returned .waiting

/-- What a lookup keeps as it goes on: what it answered, that it was settled, that its step
returned. It begins but once. -/
structure Leads (o o' : LookupOrigin) : Prop where
  acked : o'.acked = o.acked
  settled : o.pending = false → o'.pending = false
  answer : ∀ a, o.answer = some a → o'.answer = some a
  returned : ∀ out, o.first = .returned out → o'.first = .returned out
  begun : o'.first = .begun → o.first = .begun ∧ o'.me = o.me ∧ o'.ctx = o.ctx

theorem Leads.refl (o : LookupOrigin) : o.Leads o :=
  ⟨rfl, id, fun _ => id, fun _ => id, fun h => ⟨h, rfl, rfl⟩⟩

theorem Leads.trans (h : o.Leads o') (h' : o'.Leads o'') : o.Leads o'' := by
  refine ⟨h'.acked.trans h.acked, fun hp => h'.settled (h.settled hp),
    fun a ha => h'.answer a (h.answer a ha), fun out ho => h'.returned out (h.returned out ho), ?_⟩
  intro hb
  obtain ⟨hb', hme', hctx'⟩ := h'.begun hb
  obtain ⟨hb, hme, hctx⟩ := h.begun hb'
  exact ⟨hb, hme'.trans hme, hctx'.trans hctx⟩

/-- A pending lookup has answered only if it raised. -/
theorem SettledOnce.answer_pending (h : o.SettledOnce) (hp : o.pending = true) {a : Option LookupResult}
    (ha : o.answer = some a) : o.first = .returned .threw := by
  have hnil : o.settled = [] := by
    have hlen := h.settled
    rw [hp, h.pending hp] at hlen
    exact List.eq_nil_of_length_eq_zero hlen
  unfold answer at ha
  rw [h.pending hp, hnil] at ha
  cases hf : o.first with
  | begun | ran out ctx =>
    rw [hf] at ha
    cases ha
  | returned out =>
    cases out with
    | threw => rfl
    | _ =>
      rw [hf] at ha
      cases ha

theorem finish_spec (h : o.SettledOnce) (r : LookupResult) :
    o.Leads (o.finish r) ∧ (o.finish r).SettledOnce ∧ ((o.finish r).pending = false) := by
  unfold finish
  split
  next hp =>
    refine ⟨⟨rfl, fun hf => rfl, ?_, fun _ => id, fun hb => ⟨hb, rfl, rfl⟩⟩,
      ⟨?_, ?_, h.recursive, h.returned⟩, rfl⟩
    · intro a ha
      have hthrew := h.answer_pending hp ha
      unfold answer at ha ⊢
      rw [hthrew] at ha ⊢
      exact ha
    · have hlen := h.settled
      rw [hp, h.pending hp] at hlen
      change (o.settled ++ [r]).length = _
      rw [List.length_append, hlen, h.pending hp]
      rfl
    · rintro ⟨⟩
  next hp => exact ⟨Leads.refl o, h, Bool.eq_false_iff.mpr hp⟩

theorem answer_ran {out : StepOutcome} {ctx : WalkCtx} (h : o.first = .ran out ctx) :
    o.answer = none := by
  unfold answer
  rw [h]

/-- The step of a lookup returns: what it waited for is there. -/
theorem resume_spec (h : o.SettledOnce) : o.Leads o.resume ∧ o.resume.SettledOnce := by
  -- a step that had not returned has answered nothing, so it is what comes after that counts
  have hreturn : ∀ (p : LookupOrigin) (out out' : StepOutcome) (ctx ctx' : WalkCtx),
      o.first = .ran out ctx → p.acked = o.acked → (o.pending = false → p.pending = false) →
        o.Leads { p with first := .returned out', ctx := ctx' } := by
    intro p out out' ctx ctx' hf hacked hpend
    refine ⟨hacked, hpend, ?_, ?_, by rintro ⟨⟩⟩
    · intro a ha
      rw [answer_ran hf] at ha
      cases ha
    · intro out'' hout
      rw [hf] at hout
      cases hout
  unfold resume
  cases hf : o.first with
  | begun | returned out => exact ⟨Leads.refl o, h⟩
  | ran out ctx =>
    cases out with
    | waiting => exact ⟨Leads.refl o, h⟩
    | ended r | relayed r =>
      obtain ⟨hleads, hsound, -⟩ := finish_spec h r
      exact ⟨hreturn _ _ _ _ _ hf hleads.acked hleads.settled, hsound.settled, hsound.pending,
        fun _ => ⟨by rintro ⟨⟩, fun _ => by rintro ⟨⟩⟩, by rintro ⟨⟩⟩
    | forwarded =>
      refine ⟨hreturn _ _ _ _ _ hf rfl id, h.settled, h.pending, fun hacked => ?_, by rintro ⟨⟩⟩
      exact absurd hf ((h.recursive hacked).2 ctx)
    | threw =>
      exact ⟨hreturn _ _ _ _ _ hf rfl id, h.settled, h.pending,
        fun _ => ⟨by rintro ⟨⟩, fun _ => by rintro ⟨⟩⟩, by rintro ⟨⟩⟩
/-- A lookup whose step has returned and that is not pending has answered. -/
theorem SettledOnce.answered (h : o.SettledOnce) (hp : o.pending = false) {out : StepOutcome}
    (hr : o.first = .returned out) : o.answer.isSome = true := by
  have hw : out ≠ .waiting := by
    rintro rfl
    exact h.returned hr
  unfold answer
  rw [hr]
  have hlen := h.settled
  rw [hp] at hlen
  cases hacked : o.acked with
  | true =>
    rw [hacked] at hlen
    obtain ⟨r, hs⟩ := List.length_eq_one_iff.mp hlen
    cases out with
    | waiting => exact absurd rfl hw
    | _ => simp [hs]
  | false =>
    cases out with
    | waiting => exact absurd rfl hw
    | forwarded => exact absurd hr (h.recursive hacked).1
    | _ => simp

end LookupOrigin

namespace LookupNet

variable {s s' : LookupNet}

/-- Every lookup that was there goes on, and all of them are sound. -/
structure Grows (s s' : LookupNet) : Prop where
  leads : ∀ (k : Nat) (o : LookupOrigin), s.origins[k]? = some o →
    ∃ o', s'.origins[k]? = some o' ∧ o.Leads o'
  sound : ∀ o ∈ s'.origins, o.SettledOnce

theorem Grows.refl (h : ∀ o ∈ s.origins, o.SettledOnce) (hsame : s'.origins = s.origins) :
    s.Grows s' := by
  refine ⟨fun k o ho => ⟨o, hsame ▸ ho, .refl o⟩, hsame ▸ h⟩

/-- A step that is recorded changes no lookup. -/
theorem Grows.of_visited {v : WalkVisit} (h : (s.visited v).Grows s') : s.Grows s' :=
  ⟨h.leads, h.sound⟩

section

variable (h : ∀ o ∈ s.origins, o.SettledOnce)
include h

/-- One lookup goes on. -/
theorem grows_modify (k : Nat) (f : LookupOrigin → LookupOrigin)
    (hf : ∀ o, s.origins[k]? = some o → o.Leads (f o) ∧ (f o).SettledOnce) :
    s.Grows (s.modifyOrigin k f) := by
  have hget : ∀ j, (s.modifyOrigin k f).origins[j]? =
      (s.origins[j]?).map fun o => if k = j then f o else o := by
    intro j
    exact List.getElem?_modify f k s.origins j
  constructor
  · intro j o ho
    refine ⟨if k = j then f o else o, ?_, ?_⟩
    · rw [hget, ho]
      rfl
    · split
      next hkj =>
        subst hkj
        exact (hf o ho).1
      next => exact .refl o
  · intro o' ho'
    obtain ⟨j, hj⟩ := List.mem_iff_getElem?.mp ho'
    rw [hget] at hj
    obtain ⟨o, ho, rfl⟩ := Option.map_eq_some_iff.mp hj
    split
    next hkj =>
      subst hkj
      exact (hf o ho).2
    next => exact h o (List.mem_of_getElem? ho)

theorem grows_walkFinish (me : NodeId) (r : LookupResult) (k : Nat)
    (sourceId : NodeId) : s.Grows (s.walkFinish me r k sourceId) := by
  unfold walkFinish
  split
  · refine grows_modify h k _ fun o ho => ?_
    have hsound := h o (List.mem_of_getElem? ho)
    split
    · obtain ⟨hleads, hfin, -⟩ := LookupOrigin.finish_spec hsound r
      exact ⟨hleads, hfin⟩
    · exact ⟨.refl o, hsound⟩
  · split
    · exact .refl h rfl
    · exact .refl h rfl

theorem grows_stepReturned (me : NodeId) (k : Nat)
    (run : StepRun) : s.Grows (s.stepReturned me k run) := by
  unfold stepReturned
  split
  · exact grows_walkFinish h me _ k _
  · exact grows_walkFinish h me _ k _
  · exact grows_walkFinish h me _ k _
  · exact .refl h rfl

end

/-- What holds of a network: its walks are sound, and so are its lookups. -/
structure Invariant (cfg : RoutingConfig) (s : LookupNet) : Prop where
  sound : s.NoRepeats cfg
  origins : ∀ o ∈ s.origins, o.SettledOnce

/-- The lookups of a network go on with each act. -/
theorem step_grows (h : s.Invariant cfg) (a : LookupAct) : s.Grows (s.step cfg a) := by
  have hvisited : ∀ v, ∀ o ∈ (s.visited v).origins, o.SettledOnce := fun _ => h.origins
  cases a with
  | lookup me target acked =>
    constructor
    · intro k o ho
      refine ⟨o, ?_, .refl o⟩
      change (s.origins ++ [_])[k]? = some o
      rw [List.getElem?_append_left (List.getElem?_eq_some_iff.mp ho).1]
      exact ho
    · intro o ho
      rcases List.mem_append.mp ho with hold | hnew
      · exact h.origins o hold
      rw [List.mem_singleton.mp hnew]
      refine ⟨?_, id, fun _ => ⟨by rintro ⟨⟩, fun _ => by rintro ⟨⟩⟩, by rintro ⟨⟩⟩
      cases acked with
      | true => rfl
      | false => rfl
  | begin k x =>
    unfold step
    simp only []
    cases ho : s.origins[k]? with
    | none => exact .refl h.origins rfl
    | some o =>
      simp only []
      split
      next hb =>
        refine .of_visited (grows_modify (hvisited _) k _ fun o' ho' => ?_)
        obtain rfl : o = o' := Option.some.inj (ho.symm.trans ho')
        have hsound := h.origins o (List.mem_of_getElem? ho)
        refine ⟨⟨rfl, id, ?_, ?_, by rintro ⟨⟩⟩, hsound.settled, hsound.pending, ?_, by rintro ⟨⟩⟩
        · intro a ha
          unfold LookupOrigin.answer at ha
          rw [hb] at ha
          cases ha
        · intro out hout
          rw [hb] at hout
          cases hout
        · -- a recursive walk is handed on by `lookup_step` only
          intro hacked
          refine ⟨by rintro ⟨⟩, fun ctx hran => ?_⟩
          have hctx := h.sound.begun o (List.mem_of_getElem? ho) hb
          obtain ⟨-, -, -, hfwd⟩ := lookupStep_spec cfg x (if o.acked then some k else none)
            hctx.target
          change OriginStep.ran _ _ = OriginStep.ran _ _ at hran
          rw [OriginStep.ran.injEq] at hran
          refine hfwd hran.1 ?_
          rw [hacked]
          rfl
      next => exact .refl h.origins rfl
  | resume k =>
    refine grows_modify h.origins k _ fun o ho => ?_
    exact LookupOrigin.resume_spec (h.origins o (List.mem_of_getElem? ho))
  | arrive i x =>
    unfold step
    simp only []
    cases hf : s.frames[i]? with
    | none => exact .refl h.origins rfl
    | some f =>
      simp only []
      cases hw : f.walk with
      | none => exact .refl h.origins rfl
      | some k => exact .of_visited (grows_stepReturned (hvisited _) f.dest k _)
  | done i =>
    unfold step
    simp only []
    cases hd : s.dones[i]? with
    | none => exact .refl h.origins rfl
    | some d => exact grows_walkFinish h.origins d.dest d.result d.walk d.sourceId
  | deadline k =>
    refine grows_modify h.origins k _ fun o ho => ?_
    have hsound := h.origins o (List.mem_of_getElem? ho)
    split
    · obtain ⟨hleads, hfin, -⟩ := LookupOrigin.finish_spec hsound (o.ctx.result .walkDeadline)
      exact ⟨hleads, hfin⟩
    · exact ⟨.refl o, hsound⟩

/-- The lookups of a network that begin are those that were there. -/
theorem Grows.sound_begun (h : s.Grows s') (hs : s.NoRepeats cfg)
    (hlen : s'.origins.length = s.origins.length) :
    ∀ o ∈ s'.origins, o.first = .begun → o.ctx.NoRepeat cfg o.me := by
  intro o' ho' hb
  obtain ⟨k, hk, hget⟩ := List.getElem_of_mem ho'
  rw [hlen] at hk
  obtain ⟨o'', ho'', hleads⟩ := h.leads k s.origins[k] (List.getElem?_eq_getElem hk)
  obtain rfl : o' = o'' := by
    rw [List.getElem?_eq_getElem (hlen ▸ hk)] at ho''
    exact hget.symm.trans (Option.some.inj ho'')
  obtain ⟨hb', hme, hctx⟩ := hleads.begun hb
  rw [hme, hctx]
  exact hs.begun _ (List.getElem_mem hk) hb'

theorem length_modifyOrigin (s : LookupNet) (k : Nat) (f : LookupOrigin → LookupOrigin) :
    (s.modifyOrigin k f).origins.length = s.origins.length :=
  List.length_modify f s.origins k

theorem length_walkFinish (s : LookupNet) (me : NodeId) (r : LookupResult) (k : Nat)
    (sourceId : NodeId) : (s.walkFinish me r k sourceId).origins.length = s.origins.length := by
  unfold walkFinish
  split
  · exact length_modifyOrigin s k _
  split
  · rfl
  · rfl

theorem length_stepReturned (s : LookupNet) (me : NodeId) (k : Nat) (run : StepRun) :
    (s.stepReturned me k run).origins.length = s.origins.length := by
  unfold stepReturned
  split
  · exact length_walkFinish s me _ k _
  · exact length_walkFinish s me _ k _
  · exact length_walkFinish s me _ k _
  · rfl

/-- The step of a walk an act takes: at which node, with what context and under what number, and
what the node reads. -/
def taken (s : LookupNet) : LookupAct → Option (NodeId × WalkCtx × Option Nat × LookupInput)
  | .begin k x => (s.origins[k]?.filter (·.first = .begun)).map fun o =>
    (o.me, o.ctx, if o.acked then some k else none, x)
  | .arrive i x => s.frames[i]?.map fun f => (f.dest, f.ctx, f.walk, x)
  | _ => none

/-- What is on record of a step. -/
def visitOf (cfg : RoutingConfig) (t : NodeId × WalkCtx × Option Nat × LookupInput) : WalkVisit :=
  ⟨t.1, t.2.1, t.2.2.2, cfg.lookupStep t.1 t.2.1 t.2.2.1 t.2.2.2⟩

/-- An act adds to the record the step it takes, and its frames are on their way. Only a new lookup
is added to the others. -/
theorem step_visits (cfg : RoutingConfig) (s : LookupNet) (a : LookupAct) : (s.step cfg a).frames =
        s.frames ++ (((s.taken a).map (visitOf cfg)).toList.flatMap (·.run.frames)) ∧
      (s.step cfg a).visits = s.visits ++ ((s.taken a).map (visitOf cfg)).toList ∧
      ((s.step cfg a).origins.length = s.origins.length ∨
        ∃ me target acked, (s.step cfg a).origins = s.origins ++ [.start me target acked]) := by
  have hnone : s.taken a = none → (s.step cfg a).frames = s.frames →
      (s.step cfg a).visits = s.visits → (s.step cfg a).frames =
            s.frames ++ (((s.taken a).map (visitOf cfg)).toList.flatMap (·.run.frames)) ∧
          (s.step cfg a).visits = s.visits ++ ((s.taken a).map (visitOf cfg)).toList := by
    intro ht hf hv
    rw [ht, hf, hv]
    exact ⟨(List.append_nil _).symm, (List.append_nil _).symm⟩
  have hsome : ∀ t, s.taken a = some t →
      (s.step cfg a).frames = s.frames ++ (visitOf cfg t).run.frames →
      (s.step cfg a).visits = s.visits ++ [visitOf cfg t] → (s.step cfg a).frames =
            s.frames ++ (((s.taken a).map (visitOf cfg)).toList.flatMap (·.run.frames)) ∧
          (s.step cfg a).visits = s.visits ++ ((s.taken a).map (visitOf cfg)).toList := by
    intro t ht hf hv
    rw [ht, hf, hv]
    exact ⟨by simp, rfl⟩
  rw [← and_assoc]
  cases a with
  | lookup me target acked => exact ⟨hnone rfl rfl rfl, .inr ⟨me, target, acked, rfl⟩⟩
  | begin k x =>
    cases ho : s.origins[k]? with
    | none =>
      have hsame : s.step cfg (.begin k x) = s := by simp only [step, ho]
      exact ⟨hnone (by simp [taken, ho]) (by rw [hsame]) (by rw [hsame]), .inl (by rw [hsame])⟩
    | some o =>
      by_cases hb : o.first = .begun
      · have htaken : s.taken (.begin k x) =
            some (o.me, o.ctx, if o.acked then some k else none, x) := by
          simp [taken, ho, hb]
        refine ⟨hsome _ htaken ?_ ?_, .inl ?_⟩
        · simp only [step, ho, if_pos hb]
          rfl
        · simp only [step, ho, if_pos hb]
          rfl
        · simp only [step, ho, if_pos hb]
          exact length_modifyOrigin _ k _
      · have hsame : s.step cfg (.begin k x) = s := by simp only [step, ho, if_neg hb]
        exact ⟨hnone (by simp [taken, ho, hb]) (by rw [hsame]) (by rw [hsame]),
          .inl (by rw [hsame])⟩
  | resume k | deadline k => exact ⟨hnone rfl rfl rfl, .inl (length_modifyOrigin s k _)⟩
  | arrive i x =>
    cases hf : s.frames[i]? with
    | none =>
      have hsame : s.step cfg (.arrive i x) = s := by simp only [step, hf]
      exact ⟨hnone (by simp [taken, hf]) (by rw [hsame]) (by rw [hsame]), .inl (by rw [hsame])⟩
    | some f =>
      have htaken : s.taken (.arrive i x) = some (f.dest, f.ctx, f.walk, x) := by
        simp [taken, hf]
      cases hw : f.walk with
      | none =>
        have hstep : s.step cfg (.arrive i x) =
            s.visited (visitOf cfg (f.dest, f.ctx, f.walk, x)) := by
          simp only [step, hf, hw, visitOf]
        exact ⟨hsome _ htaken (by rw [hstep]; rfl) (by rw [hstep]; rfl), .inl (by rw [hstep]; rfl)⟩
      | some k =>
        have hstep : s.step cfg (.arrive i x) =
            (s.visited (visitOf cfg (f.dest, f.ctx, f.walk, x))).stepReturned f.dest k
              (cfg.lookupStep f.dest f.ctx (some k) x) := by
          simp only [step, hf, hw, visitOf]
        obtain ⟨hframes, hvisits⟩ := stepReturned_frames
          (s.visited (visitOf cfg (f.dest, f.ctx, f.walk, x))) f.dest k
            (cfg.lookupStep f.dest f.ctx (some k) x)
        refine ⟨hsome _ htaken ?_ ?_, .inl ?_⟩
        · rw [hstep, hframes]
          rfl
        · rw [hstep, hvisits]
          rfl
        · rw [hstep, length_stepReturned]
          rfl
  | done i =>
    cases hd : s.dones[i]? with
    | none =>
      have hsame : s.step cfg (.done i) = s := by simp only [step, hd]
      exact ⟨hnone rfl (by rw [hsame]) (by rw [hsame]), .inl (by rw [hsame])⟩
    | some d =>
      have hstep : s.step cfg (.done i) = s.walkFinish d.dest d.result d.walk d.sourceId := by
        simp only [step, hd]
      obtain ⟨hframes, hvisits⟩ := walkFinish_frames s d.dest d.result d.walk d.sourceId
      refine ⟨hnone rfl (hstep ▸ hframes) (hstep ▸ hvisits), .inl ?_⟩
      rw [hstep, length_walkFinish]

/-- A step is taken from a sound walk. -/
theorem NoRepeats.taken (h : s.NoRepeats cfg) {a : LookupAct}
    {t : NodeId × WalkCtx × Option Nat × LookupInput} (ht : s.taken a = some t) :
    WalkCtx.NoRepeat cfg t.1 t.2.1 := by
  cases a with
  | begin k x =>
    obtain ⟨o, ho, rfl⟩ := Option.map_eq_some_iff.mp ht
    obtain ⟨ho, hb⟩ := Option.filter_eq_some_iff.mp ho
    exact h.begun o (List.mem_of_getElem? ho) (of_decide_eq_true hb)
  | arrive i x =>
    obtain ⟨f, hf, rfl⟩ := Option.map_eq_some_iff.mp ht
    exact h.frames f (List.mem_of_getElem? hf)
  | _ => cases ht

/-- **The invariant.** Every act keeps the walks and the lookups sound. -/
theorem Invariant.step (h : s.Invariant cfg) (a : LookupAct) : (s.step cfg a).Invariant cfg := by
  have hgrows := step_grows h a
  obtain ⟨hframes, hvisits, horigins⟩ := step_visits cfg s a
  have hbegun : ∀ o ∈ (s.step cfg a).origins, o.first = .begun → o.ctx.NoRepeat cfg o.me := by
    rcases horigins with hlen | ⟨me, target, acked, hnew⟩
    · exact hgrows.sound_begun h.sound hlen
    intro o ho hb
    rw [hnew] at ho
    rcases List.mem_append.mp ho with hold | hlast
    · exact h.sound.begun o hold hb
    · rw [List.mem_singleton.mp hlast]
      exact WalkCtx.sound_start cfg me target
  have hnew : ∀ v ∈ ((s.taken a).map (visitOf cfg)).toList, v.HopsOutside cfg ∧
      ∀ f ∈ v.run.frames, f.ctx.NoRepeat cfg f.dest := by
    intro v hv
    obtain ⟨t, ht, rfl⟩ := Option.map_eq_some_iff.mp (Option.mem_toList.mp hv)
    exact visit_sound (h.sound.taken ht) t.2.2.1 t.2.2.2
  refine ⟨⟨?_, hbegun, ?_⟩, hgrows.sound⟩
  · intro f hf
    rw [hframes] at hf
    rcases List.mem_append.mp hf with hold | hlast
    · exact h.sound.frames f hold
    · obtain ⟨v, hv, hmem⟩ := List.mem_flatMap.mp hlast
      exact (hnew v hv).2 f hmem
  · intro v hv
    rw [hvisits] at hv
    rcases List.mem_append.mp hv with hold | hlast
    · exact h.sound.visits v hold
    · exact (hnew v hlast).1

theorem invariant_empty (cfg : RoutingConfig) : LookupNet.empty.Invariant cfg :=
  ⟨⟨fun _ hf => absurd hf List.not_mem_nil, fun _ ho => absurd ho List.not_mem_nil,
    fun _ hv => absurd hv List.not_mem_nil⟩, fun _ ho => absurd ho List.not_mem_nil⟩

/-- The step an act takes reads an incoming pool that is covered. -/
def Covered (cfg : RoutingConfig) (s : LookupNet) (a : LookupAct) : Prop :=
  ∀ t, s.taken a = some t → t.2.2.2.Covered cfg t.1 t.2.1

/-- **The stops of one act.** -/
theorem namesStops_step (h : s.Invariant cfg) (a : LookupAct) :
    (∀ v ∈ (s.step cfg a).visits, v.NamesStop) ↔
      (∀ v ∈ s.visits, v.NamesStop) ∧ Covered cfg s a := by
  obtain ⟨-, hvisits, -⟩ := step_visits cfg s a
  rw [hvisits, List.forall_mem_append]
  refine and_congr_right fun _ => ?_
  constructor
  · intro hall t ht
    refine (namesStop_iff t.2.2.1 (h.sound.taken ht).target).mp (hall (visitOf cfg t) ?_)
    rw [ht]
    exact List.mem_singleton.mpr rfl
  · intro hcov v hv
    obtain ⟨t, ht, rfl⟩ := Option.map_eq_some_iff.mp (Option.mem_toList.mp hv)
    exact (namesStop_iff t.2.2.1 (h.sound.taken ht).target).mpr (hcov t ht)

/-! ### Runs -/

theorem invariant_run (h : s.Invariant cfg) (as : List LookupAct) :
    (run (step cfg) s as).Invariant cfg := by
  induction as generalizing s with
  | nil => exact h
  | cons a as ih => exact ih (h.step a)

/-- The deadline of a lookup settles it. -/
theorem deadline_settles (h : s.Invariant cfg) {k : Nat} {o : LookupOrigin}
    (ho : (s.step cfg (.deadline k)).origins[k]? = some o) : o.pending = false := by
  have hget : (s.step cfg (.deadline k)).origins[k]? = (s.origins[k]?).map fun o =>
      if o.acked then o.finish (o.ctx.result .walkDeadline) else o :=
    List.getElem?_modify_eq _ k s.origins
  rw [hget] at ho
  obtain ⟨o₀, ho₀, rfl⟩ := Option.map_eq_some_iff.mp ho
  have hsound := h.origins o₀ (List.mem_of_getElem? ho₀)
  split
  next => exact (LookupOrigin.finish_spec hsound _).2.2
  next hacked => exact Bool.eq_false_iff.mpr fun hp => hacked (hsound.pending hp)

/-- **A lookup over a run.** It keeps what it answered, and once its deadline came it is settled. -/
theorem origin_run (h : s.Invariant cfg) {k : Nat} {o : LookupOrigin}
    (ho : s.origins[k]? = some o) (as : List LookupAct) :
    ∃ o', (run (step cfg) s as).origins[k]? = some o' ∧ o.Leads o' ∧
      (.deadline k ∈ as → o'.pending = false) := by
  induction as generalizing s o with
  | nil => exact ⟨o, ho, .refl o, fun hmem => absurd hmem List.not_mem_nil⟩
  | cons a as ih =>
    obtain ⟨o₁, ho₁, hleads⟩ := (step_grows h a).leads k o ho
    obtain ⟨o', ho', hleads', hsettled⟩ := ih (h.step a) ho₁
    refine ⟨o', ho', hleads.trans hleads', fun hmem => ?_⟩
    rcases List.mem_cons.mp hmem with rfl | hmem
    · exact hleads'.settled (deadline_settles h ho₁)
    · exact hsettled hmem

/-- A walk never comes back: each hop of each step is outside what the walk carried, which grows by
that hop; the paths on the way and in the results repeat no node, and are no longer than the cap
allows. -/
structure NeverRevisits (cfg : RoutingConfig) (s : LookupNet) : Prop where
  hops : ∀ v ∈ s.visits, ∀ f ∈ v.run.frames, f.dest ∉ v.ctx.queried ∧
    f.ctx.path = v.ctx.path ++ [f.dest] ∧ f.ctx.queried = f.dest :: v.ctx.queried
  paths : ∀ f ∈ s.frames, f.ctx.path.Nodup ∧ f.ctx.path.length = f.ctx.hops + 1 ∧
    f.ctx.hops ≤ cfg.maxHops
  results : ∀ v ∈ s.visits, ∀ r, v.run.outcome = .ended r → r.path.Nodup ∧
    r.hops ≤ cfg.maxHops ∧ r.path.length = r.hops + 1

/-- Each lookup of a run settles at most once and keeps its answer; it has one once its own step has
returned and, where the walk is acknowledged, its deadline came. -/
def SettlesOnce (cfg : RoutingConfig) (as : List LookupAct) : Prop :=
  ∀ pre post k o, as = pre ++ post → (run (step cfg) empty pre).origins[k]? = some o →
    ∃ o', (run (step cfg) empty as).origins[k]? = some o' ∧ o'.settled.length ≤ 1 ∧
      (∀ a, o.answer = some a → o'.answer = some a) ∧
        (∀ out, o.first = .returned out → o.acked = false ∨ .deadline k ∈ post →
          o'.answer.isSome = true)

theorem settlesOnce (cfg : RoutingConfig) (as : List LookupAct) : SettlesOnce cfg as := by
  rintro pre post k o rfl ho
  have hpre := invariant_run (invariant_empty cfg) pre
  have hall := invariant_run (invariant_empty cfg) (pre ++ post)
  obtain ⟨o', ho', hleads, hdeadline⟩ := origin_run hpre ho post
  rw [← run_append] at ho'
  have hsound := hall.origins o' (List.mem_of_getElem? ho')
  refine ⟨o', ho', ?_, hleads.answer, fun out hout hor => ?_⟩
  · rw [hsound.settled]
    split
    · exact le_refl 1
    · exact Nat.zero_le 1
  · refine hsound.answered ?_ (hleads.returned out hout)
    rcases hor with hrec | hmem
    · refine Bool.eq_false_iff.mpr fun hp => ?_
      have hacked := hsound.pending hp
      rw [hleads.acked, hrec] at hacked
      cases hacked
    · exact hdeadline hmem

end LookupNet

/-- **A lookup walk never revisits, and names its stop where the incoming pool is covered.** In
every run of the network, whatever the nodes read at each moment, whatever their sends come to and
whichever frames arrive: no walk comes back to a node or goes beyond the cap, and each lookup
settles once. Every step that stops as stalled had no peer left exactly where no step ran out of
nearer candidates and of unvisited synapses with an unvisited usable peer in its incoming pool. -/
theorem lookup_walk_sound (cfg : RoutingConfig) (as : List LookupAct) :
    (run (LookupNet.step cfg) .empty as).NeverRevisits cfg ∧ LookupNet.SettlesOnce cfg as ∧
      ((∀ v ∈ (run (LookupNet.step cfg) .empty as).visits, v.NamesStop) ↔
        EachStep (LookupNet.step cfg) (LookupNet.Covered cfg) .empty as) := by
  have hinv := LookupNet.invariant_run (LookupNet.invariant_empty cfg) as
  refine ⟨⟨fun v hv => (hinv.sound.visits v hv).frames, fun f hf => ?_,
    fun v hv => (hinv.sound.visits v hv).ended⟩, LookupNet.settlesOnce cfg as, ?_⟩
  · have hctx := hinv.sound.frames f hf
    exact ⟨hctx.nodup, hctx.length, hctx.hops⟩
  · have hexact := EachStep.exact (I := LookupNet.Invariant cfg)
      (P := fun s => ∀ v ∈ s.visits, v.NamesStop) (C := LookupNet.Covered cfg)
      (fun _ a h => h.step a) (fun _ a h => LookupNet.namesStops_step h a)
      (LookupNet.invariant_empty cfg) as
    exact hexact.trans (and_iff_right fun v hv => absurd hv List.not_mem_nil)

/-- A node whose one peer is in its incoming pool, farther from the target than it is. -/
def incomingOnly : RoutingView :=
  ⟨[], fun _ => false, some fun _ => true, fun _ => false, false, [8], fun _ => true, [], none,
    true⟩

/-- It starts a lookup that stops at once. -/
def stallsEarly : List LookupAct :=
  [.lookup 1 2 false, .begin 0 ⟨incomingOnly, [], incomingOnly, none,
    ⟨id, fun ids => .refl ids, 2, fun _ => some 0, fun _ => some 0⟩, true, []⟩]

/-- The walk is reported as stalled with a peer it could have gone on to. -/
theorem stalled_with_peer : ¬ ∀ (cfg : RoutingConfig) (as : List LookupAct),
    ∀ v ∈ (run (LookupNet.step cfg) .empty as).visits, v.NamesStop := by
  intro h
  have hstop := h ⟨40, 8, true, true⟩ stallsEarly _ (List.mem_singleton.mpr rfl)
  have hmem := hstop _ rfl rfl 8 (.inr (.inr (by decide))) rfl rfl
  exact absurd hmem (by decide)

end Axona
