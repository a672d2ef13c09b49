import Axona.Dht.LookupCalls
import Axona.Safety.Lookup

/-! # Whom a walk came to

The path of a result names nodes, and a lookup takes the nearest of them for the closest node the
walk was at. A node is named when the step to it is charged. With re-selection that is after the
node took the walk; without it is before the frame was sent, and a walk that is given up meanwhile
names a node that may know nothing of it. -/

namespace Axona

open Library

/-! ### The nearest of a path -/

/-- What `pickNearest` picks is at least as near as any. -/
theorem pickNearest_le {target : NodeId} {ids : List NodeId} {id : NodeId}
    (h : pickNearest target ids = some id) :
    ∀ id' ∈ ids, distance target id ≤ distance target id' := by
  have haux : ∀ (ids : List NodeId) (best : Option NodeId), ids.foldl (fun best id =>
      if best.all (distance target id < distance target ·) then some id else best) best = some id →
        (∀ b ∈ best, distance target id ≤ distance target b)
          ∧ ∀ id' ∈ ids, distance target id ≤ distance target id' := by
    intro ids
    induction ids with
    | nil =>
      rintro best rfl
      simp
    | cons a ids ih =>
      intro best hfold
      rw [List.foldl_cons] at hfold
      obtain ⟨hbest, hall⟩ := ih _ hfold
      split at hbest
      next hlt =>
        have ha := hbest a rfl
        refine ⟨fun b hb => ?_, List.forall_mem_cons.mpr ⟨ha, hall⟩⟩
        rw [Option.mem_def.mp hb] at hlt
        simp only [Option.all_some, decide_eq_true_eq] at hlt
        omega
      next hnot =>
      refine ⟨hbest, List.forall_mem_cons.mpr ⟨?_, hall⟩⟩
      cases best with
      | none => simp at hnot
      | some b =>
        have hb := hbest b rfl
        simp only [Option.all_some, decide_eq_true_eq] at hnot
        omega
  exact (haux ids none h).2

namespace WalkCall

variable {c : WalkCall} {hop : Hop}

/-- A call tries a hop, or waits for what becomes of the frame it sent for it. -/
def Takes (c : WalkCall) (hop : Hop) : Prop := c.stage = .trying hop ∨ ∃ f,
  c.stage = .awaiting hop f

theorem Takes.result_eq (h : c.Takes hop) : c.result = none := by
  rcases h with h | ⟨f, h⟩ <;> simp [result, h]

theorem Takes.charged_eq (h : c.Takes hop) :
    c.charged = if hop.reselect then none else some hop.next := by
  rcases h with h | ⟨f, h⟩ <;> simp [charged, h]

/-- The context of the frame, and of the call once it is taken, names the old nodes and the next. -/
theorem mem_commit {id : NodeId} :
    id ∈ (c.commit hop).path → id ∈ c.ctx.path ∨ id = hop.next := by
  unfold commit
  split
  · simp [WalkCtx.charge]
  · exact .inl

theorem commit_targetKey (c : WalkCall) (hop : Hop) :
    (c.commit hop).targetKey = c.ctx.targetKey := by
  unfold commit
  split <;> rfl

end WalkCall

namespace WalkNet

variable {cfg : RoutingConfig} {s s' : WalkNet} {i k : Nat} {c c' : WalkCall} {r : WalkResult}

/-! ### What is in order -/

/-- A call is in order: its target is that of its lookup, a node its context names has the walk, or
is the one it tries; and what it waits for and came by are frames of its lookup. -/
structure TracedCall (s : WalkNet) (c : WalkCall) : Prop where
  target : s.target c.lookup = some c.ctx.targetKey
  path : c.result = none → ∀ id ∈ c.ctx.path, (c.lookup, id) ∈ s.reached ∨ c.charged = some id
  charged : ∀ id ∈ c.charged, id ∈ c.ctx.path
  frame : ∀ hop f, c.stage = .awaiting hop f →
    ∃ fr, s.frames[f]? = some fr ∧ fr.dest = hop.next ∧ fr.lookup = c.lookup
  via : ∀ f ∈ c.via, ∃ fr, s.frames[f]? = some fr ∧ fr.lookup = c.lookup
    ∧ (fr.lookup, fr.dest) ∈ s.reached

/-- A frame is in order: its target is that of its lookup, and its path is reached, or will be by it. -/
structure TracedFrame (s : WalkNet) (f : CallFrame) : Prop where
  target : s.target f.lookup = some f.ctx.targetKey
  path : ∀ id ∈ f.ctx.path, (f.lookup, id) ∈ s.reached ∨ id = f.dest

/-- `closest` is the nearest of the path. -/
def TracedResult (s : WalkNet) (k : Nat) (r : WalkResult) : Prop :=
  ∃ t, s.target k = some t ∧ r.closest = pickNearest t r.path

/-- The network in order. -/
structure Traced (s : WalkNet) : Prop where
  calls : ∀ c ∈ s.calls, s.TracedCall c
  frames : ∀ f ∈ s.frames, s.TracedFrame f
  origins : ∀ (k : Nat) (o : WalkOrigin), s.origins[k]? = some o →
    ∃ c, s.calls[o.call]? = some c ∧ c.lookup = k
  results : ∀ k r, s.IsResult k r → s.TracedResult k r

/-- A lookup that waits has a step of its own that has not returned. -/
def Waits (s : WalkNet) : Prop :=
  ∀ (k : Nat) (o : WalkOrigin), s.origins[k]? = some o → o.pending = true →
    ∀ c ∈ s.calls[o.call]?, c.walk = true ∧ c.via = none ∧ c.result = none

/-- Nothing that was known is lost. -/
structure Extends (s s' : WalkNet) : Prop where
  frames : ∀ (f : Nat) (fr : CallFrame), s.frames[f]? = some fr → s'.frames[f]? = some fr
  reached : ∀ p ∈ s.reached, p ∈ s'.reached
  target : ∀ k t, s.target k = some t → s'.target k = some t

theorem TracedCall.mono (h : s.TracedCall c) (hext : s.Extends s') : s'.TracedCall c where
  target := hext.target _ _ h.target
  path := fun hr id hid => (h.path hr id hid).imp_left (hext.reached _)
  charged := h.charged
  frame := fun hop f hstage => by
    obtain ⟨fr, hfr, hdest, hlookup⟩ := h.frame hop f hstage
    exact ⟨fr, hext.frames f fr hfr, hdest, hlookup⟩
  via := fun f hf => by
    obtain ⟨fr, hfr, hlookup, hreached⟩ := h.via f hf
    exact ⟨fr, hext.frames f fr hfr, hlookup, hext.reached _ hreached⟩

theorem TracedFrame.mono {f : CallFrame} (h : s.TracedFrame f) (hext : s.Extends s') :
    s'.TracedFrame f where
  target := hext.target _ _ h.target
  path := fun id hid => (h.path id hid).imp_left (hext.reached _)

theorem TracedResult.mono (h : s.TracedResult k r) (hext : s.Extends s') : s'.TracedResult k r := by
  obtain ⟨t, ht, heq⟩ := h
  exact ⟨t, hext.target _ _ ht, heq⟩

theorem TracedCall.walkResult (h : s.TracedCall c) (stop : WalkStop) :
    s.TracedResult c.lookup (c.ctx.walkResult stop) := ⟨_, h.target, rfl⟩

/-! ### A call changes -/

@[simp] theorem setCall_origins : (s.setCall i c).origins = s.origins := rfl

theorem setCall_get (hi : s.calls[i]? = some c) : (s.setCall i c').calls[i]? = some c' := by
  obtain ⟨hlt, -⟩ := List.getElem?_eq_some_iff.mp hi
  exact List.getElem?_set_self hlt

theorem setCall_get_of_ne {j : Nat} (hij : i ≠ j) :
    (s.setCall i c').calls[j]? = s.calls[j]? := List.getElem?_set_ne hij

theorem extends_setCall (s : WalkNet) (i : Nat) (c : WalkCall) : s.Extends (s.setCall i c) :=
  ⟨fun _ _ h => h, fun _ h => h, fun _ _ h => h⟩

theorem isResult_setCall (h : (s.setCall i c).IsResult k r) :
    s.IsResult k r ∨ c.lookup = k ∧ c.result = some r := by
  rcases h with ⟨d, hd, hlookup, hr⟩ | h | h
  · rcases List.mem_or_eq_of_mem_set hd with hd | rfl
    · exact .inl (.inl ⟨d, hd, hlookup, hr⟩)
    · exact .inr ⟨hlookup, hr⟩
  · exact .inl (.inr (.inl h))
  · exact .inl (.inr (.inr h))

theorem Traced.setCall (h : s.Traced) (hi : s.calls[i]? = some c) (hlookup : c'.lookup = c.lookup)
    (hgood : s.TracedCall c') (hres : ∀ r, c'.result = some r → s.TracedResult c'.lookup r) :
    (s.setCall i c').Traced where
  calls := fun d hd => by
    rcases List.mem_or_eq_of_mem_set hd with hd | rfl
    · exact (h.calls d hd).mono (extends_setCall ..)
    · exact hgood.mono (extends_setCall ..)
  frames := fun f hf => (h.frames f hf).mono (extends_setCall ..)
  origins := fun k o ho => by
    obtain ⟨d, hd, hk⟩ := h.origins k o ho
    by_cases heq : i = o.call
    · subst heq
      obtain rfl : c = d := by simpa [hi] using hd
      exact ⟨c', setCall_get hi, hlookup.trans hk⟩
    · exact ⟨d, (setCall_get_of_ne heq).trans hd, hk⟩
  results := fun k r hr => by
    rcases isResult_setCall hr with hr | ⟨rfl, hr'⟩
    · exact (h.results k r hr).mono (extends_setCall ..)
    · exact (hres r hr').mono (extends_setCall ..)

theorem Waits.setCall (h : s.Waits) (hi : s.calls[i]? = some c) (hwalk : c'.walk = c.walk)
    (hvia : c'.via = c.via) (hr : c'.result = none) : (s.setCall i c').Waits := by
  intro k o ho hp d hd
  by_cases heq : i = o.call
  · subst heq
    obtain ⟨hcw, hcv, -⟩ := h k o ho hp c hi
    obtain rfl : c' = d := by simpa [setCall_get hi] using hd
    exact ⟨hwalk.trans hcw, hvia.trans hcv, hr⟩
  · exact h k o ho hp d ((setCall_get_of_ne heq).symm.trans hd)

/-! ### A result is handed on -/

/-- At most a result of a lookup is handed on. -/
structure HandsOn (s s' : WalkNet) (k : Nat) (r : WalkResult) : Prop where
  calls : s'.calls = s.calls
  frames : s'.frames = s.frames
  reached : s'.reached = s.reached
  target : s'.target = s.target
  dones : ∀ d ∈ s'.dones, d ∈ s.dones ∨ d.lookup = k ∧ d.result = r
  origins : ∀ (j : Nat) (o' : WalkOrigin), s'.origins[j]? = some o' → ∃ o, s.origins[j]? = some o ∧
    (o' = o ∨ j = k ∧ o.pending = true
      ∧ o' = { o with pending := false, settled := o.settled ++ [r] })

namespace HandsOn

theorem refl (s : WalkNet) (k : Nat) (r : WalkResult) : s.HandsOn s k r where
  calls := rfl
  frames := rfl
  reached := rfl
  target := rfl
  dones := fun _ hd => .inl hd
  origins := fun _ o ho => ⟨o, ho, .inl rfl⟩

/-- A lookup finishes, or does not. -/
theorem of_modify (s : WalkNet) (k : Nat) (r : WalkResult) (f : WalkOrigin → WalkOrigin)
    (hf : ∀ o, f o = o ∨ f o = o.finish r) :
    s.HandsOn { s with origins := s.origins.modify k f } k r := by
  have hcases : ∀ o, f o = o ∨ o.pending = true
      ∧ f o = { o with pending := false, settled := o.settled ++ [r] } := by
    intro o
    rcases hf o with heq | heq
    · exact .inl heq
    unfold WalkOrigin.finish at heq
    split at heq
    next hp => exact .inr ⟨hp, heq⟩
    · exact .inl heq
  have htarget : ∀ o, (f o).target = o.target := by
    intro o
    rcases hcases o with heq | ⟨-, heq⟩
    · rw [heq]
    · rw [heq]
  refine {
    calls := rfl
    frames := rfl
    reached := rfl
    target := ?_
    dones := fun _ hd => .inl hd
    origins := ?_ }
  · funext j
    unfold WalkNet.target
    rw [List.getElem?_modify]
    split
    · cases s.origins[j]? with
      | none => rfl
      | some o => simp [htarget]
    · simp
  · intro j o' ho'
    rw [List.getElem?_modify] at ho'
    obtain ⟨o, ho, heq⟩ := Option.map_eq_some_iff.mp ho'
    refine ⟨o, ho, ?_⟩
    split at heq
    next hjk =>
      rcases hcases o with hsame | ⟨hp, hset⟩
      · exact .inl (heq.symm.trans hsame)
      · exact .inr ⟨hjk.symm, hp, heq.symm.trans hset⟩
    · exact .inl heq.symm

theorem settle (s : WalkNet) (k : Nat) (r : WalkResult) : s.HandsOn (s.settle k r) k r :=
  of_modify s k r _ fun _ => .inr rfl

theorem walkFinish (s : WalkNet) (me : NodeId) (k : Nat) (sourceId : NodeId) (r : WalkResult) :
    s.HandsOn (s.walkFinish me k sourceId r) k r := by
  unfold WalkNet.walkFinish
  split
  · apply of_modify
    intro o
    split
    · exact .inr rfl
    · exact .inl rfl
  · split
    · exact .refl s k r
    next prev hprev =>
    exact { HandsOn.refl s k r with
      dones := fun d hd => by
        rcases List.mem_append.mp hd with hd | hd
        · exact .inl hd
        · obtain rfl := List.mem_singleton.mp hd
          exact .inr ⟨rfl, rfl⟩ }

variable (h : s.HandsOn s' k r)
include h

theorem grow : s.Extends s' where
  frames := fun f fr hfr => by rwa [h.frames]
  reached := fun p hp => by rwa [h.reached]
  target := fun j t ht => by rwa [h.target]

theorem isResult {k' : Nat} {r' : WalkResult} (hr : s'.IsResult k' r') :
    s.IsResult k' r' ∨ k' = k ∧ r' = r := by
  rcases hr with ⟨d, hd, hk, hr⟩ | ⟨d, hd, hk, hr⟩ | ⟨o', ho', hr⟩
  · exact .inl (.inl ⟨d, h.calls ▸ hd, hk, hr⟩)
  · rcases h.dones d hd with hd | ⟨hk', hr'⟩
    · exact .inl (.inr (.inl ⟨d, hd, hk, hr⟩))
    · exact .inr ⟨hk.symm.trans hk', hr.symm.trans hr'⟩
  · obtain ⟨o, ho, rfl | ⟨rfl, -, rfl⟩⟩ := h.origins _ _ ho'
    · exact .inl (.inr (.inr ⟨_, ho, hr⟩))
    rcases List.mem_append.mp hr with hr | hr
    · exact .inl (.inr (.inr ⟨o, ho, hr⟩))
    · exact .inr ⟨rfl, List.mem_singleton.mp hr⟩

theorem traced (hs : s.Traced) (hr : s.TracedResult k r) : s'.Traced where
  calls := fun c hc => (hs.calls c (h.calls ▸ hc)).mono h.grow
  frames := fun f hf => (hs.frames f (h.frames ▸ hf)).mono h.grow
  origins := fun j o' ho' => by
    obtain ⟨o, ho, rfl | ⟨-, -, rfl⟩⟩ := h.origins j o' ho'
    · simpa [h.calls] using hs.origins j _ ho
    · simpa [h.calls] using hs.origins j o ho
  results := fun k' r' hr' => by
    rcases h.isResult hr' with hr' | ⟨rfl, rfl⟩
    · exact (hs.results k' r' hr').mono h.grow
    · exact hr.mono h.grow

theorem waits (hs : s.Waits) : s'.Waits := by
  intro j o' ho' hp c hc
  obtain ⟨o, ho, rfl | ⟨-, -, rfl⟩⟩ := h.origins j o' ho'
  · exact hs j _ ho hp c (h.calls ▸ hc)
  · cases hp

end HandsOn

/-! ### What a step does -/

/-- The network in order, and what it was before: a result is an old one, or `B` of its lookup. -/
structure Follows (s s' : WalkNet) (B : Nat → WalkResult → Prop) : Prop where
  traced : s'.Traced
  waits : s'.Waits
  grow : s.Extends s'
  results : ∀ k r, s'.IsResult k r → s.IsResult k r ∨ B k r

variable {B : Nat → WalkResult → Prop}

theorem Extends.refl (s : WalkNet) : s.Extends s :=
  ⟨fun _ _ h => h, fun _ h => h, fun _ _ h => h⟩

theorem Extends.trans {s₁ s₂ : WalkNet} (h : s.Extends s₁) (h' : s₁.Extends s₂) : s.Extends s₂ where
  frames := fun f fr hf => h'.frames f fr (h.frames f fr hf)
  reached := fun p hp => h'.reached p (h.reached p hp)
  target := fun k t ht => h'.target k t (h.target k t ht)

theorem Follows.trans {s₁ s₂ : WalkNet} (h : s.Follows s₁ B) (h' : s₁.Follows s₂ B) :
    s.Follows s₂ B :=
  { h' with
    grow := h.grow.trans h'.grow
    results := fun k r hr => (h'.results k r hr).elim (h.results k r) .inr }

section

variable (hs : s.Traced) (hw : s.Waits)
include hs hw

theorem follows_refl : s.Follows s B :=
  ⟨hs, hw, .refl s, fun _ _ hr => .inl hr⟩

/-- A call that goes on. -/
theorem follows_setCall (hi : s.calls[i]? = some c)
    (hlookup : c'.lookup = c.lookup) (hwalk : c'.walk = c.walk) (hvia : c'.via = c.via)
    (hgood : s.TracedCall c') (hr : c'.result = none) : s.Follows (s.setCall i c') B where
  traced := hs.setCall hi hlookup hgood fun r hr' => by
    rw [hr] at hr'
    cases hr'
  waits := hw.setCall hi hwalk hvia hr
  grow := extends_setCall ..
  results := fun k r hr' => by
    rcases isResult_setCall hr' with hr' | ⟨-, hr'⟩
    · exact .inl hr'
    · rw [hr] at hr'
      cases hr'

theorem follows_handsOn (h : s.HandsOn s' k r)
    (hr : s.TracedResult k r) (hB : s.IsResult k r ∨ B k r) : s.Follows s' B where
  traced := h.traced hs hr
  waits := h.waits hw
  grow := h.grow
  results := fun k' r' hr' => by
    rcases h.isResult hr' with hr' | ⟨rfl, rfl⟩
    · exact .inl hr'
    · exact hB

end

/-- A call that waits for nothing has no more to say of its context, once it has a result. -/
theorem TracedCall.stage (h : s.TracedCall c) {stage : CallStage}
    (hcharged : ({ c with stage := stage } : WalkCall).charged = none)
    (hframe : ∀ hop f, stage ≠ .awaiting hop f)
    (hpath : ({ c with stage := stage } : WalkCall).result = none →
      ∀ id ∈ c.ctx.path, (c.lookup, id) ∈ s.reached) : s.TracedCall { c with stage := stage } where
  target := h.target
  path := fun hr id hid => .inl (hpath hr id hid)
  charged := fun id hid => by
    rw [hcharged] at hid
    cases hid
  frame := fun hop f hstage => absurd hstage (hframe hop f)
  via := h.via

theorem handsOn_conclude (s : WalkNet) (i : Nat) (c : WalkCall) (r : WalkResult) :
    (s.setCall i { c with stage := .ended r }).HandsOn (s.conclude i c r) c.lookup r := by
  unfold conclude
  split
  · exact .settle ..
  · exact .walkFinish ..
  · exact .refl ..

theorem conclude_calls (s : WalkNet) (i : Nat) (c : WalkCall) (r : WalkResult) :
    (s.conclude i c r).calls = s.calls.set i { c with stage := .ended r } :=
  (handsOn_conclude s i c r).calls

theorem follows_conclude (hs : s.Traced) (hw : s.Waits) (hi : s.calls[i]? = some c)
    (hlookup : c'.lookup = c.lookup) (hwalk : c'.walk = c.walk) (hvia : c'.via = c.via)
    (hgood : s.TracedCall c') (hr : s.TracedResult c.lookup r)
    (hB : s.IsResult c.lookup r ∨ B c.lookup r) : s.Follows (s.conclude i c' r) B := by
  have hhands := handsOn_conclude s i c' r
  rw [← hlookup] at hr hB
  have hset : (s.setCall i { c' with stage := .ended r }).Traced := by
    refine hs.setCall hi hlookup (hgood.stage rfl (by simp) fun h => ?_) fun r' hr' => ?_
    · cases h
    · obtain rfl : r = r' := by simpa [WalkCall.result] using hr'
      exact hr
  exact {
    traced := hhands.traced hset (hr.mono (extends_setCall ..))
    waits := by
      intro k o' ho' hp d hd
      obtain ⟨o, ho, rfl | ⟨-, -, rfl⟩⟩ := hhands.origins k o' ho'
      · by_cases heq : i = o'.call
        · -- the walk of the originator's own step was settled just now
          subst heq
          obtain ⟨hcw, hcv, -⟩ := hw k o' ho hp c hi
          obtain ⟨d', hd', hk⟩ := hs.origins k o' ho
          obtain rfl : c = d' := by simpa [hi] using hd'
          have hsettle : s.conclude o'.call c' r
              = (s.setCall o'.call { c' with stage := .ended r }).settle c'.lookup r := by
            unfold conclude
            simp only [hwalk, hvia, hcw, hcv]
          rw [hsettle, hlookup, hk] at ho'
          have hfin : some (o'.finish r) = some o' := by
            have hold : s.origins[k]? = some o' := ho
            rw [← ho']
            unfold settle
            rw [List.getElem?_modify_eq, setCall_origins, hold]
            rfl
          have hpend : (o'.finish r).pending = false := by
            unfold WalkOrigin.finish
            rw [if_pos hp]
          rw [Option.some.inj hfin, hp] at hpend
          cases hpend
        · rw [hhands.calls, setCall_get_of_ne heq] at hd
          exact hw k o' ho hp d hd
      · cases hp
    grow := (extends_setCall ..).trans hhands.grow
    results := fun k r' hr' => by
      rcases hhands.isResult hr' with hr' | ⟨rfl, rfl⟩
      · rcases isResult_setCall hr' with hr' | ⟨rfl, heq⟩
        · exact .inl hr'
        · obtain rfl : r = r' := by simpa [WalkCall.result] using heq
          exact hB
      · exact hB }

theorem follows_raise (hs : s.Traced) (hw : s.Waits) (hi : s.calls[i]? = some c)
    (hgood : s.TracedCall c) (hpath : ∀ id ∈ c.ctx.path, (c.lookup, id) ∈ s.reached)
    (hB : B c.lookup (c.ctx.walkResult (.ended .stepThrew))) : s.Follows (s.raise i c) B := by
  have hset : s.Follows (s.setCall i { c with stage := .threw }) B :=
    follows_setCall hs hw hi rfl rfl rfl (hgood.stage rfl (by simp) fun _ => hpath) rfl
  unfold raise
  split
  · exact hset.trans (follows_handsOn hset.traced hset.waits (.walkFinish ..)
      ((hgood.walkResult _).mono (extends_setCall ..)) (.inr hB))
  · exact hset

/-- Where nothing is charged ahead the walk came to every node the context names. -/
theorem TracedCall.reached (h : s.TracedCall c) (hr : c.result = none) (hc : c.charged = none) :
    ∀ id ∈ c.ctx.path, (c.lookup, id) ∈ s.reached := by
  intro id hid
  rcases h.path hr id hid with hreached | hcharged
  · exact hreached
  · rw [hc] at hcharged
    cases hcharged

section Hop

variable {hop : Hop} {fr : CallFrame}

section

variable (h : s.TracedCall c) (ht : c.Takes hop)
include h ht

/-- What the context will name once the hop is taken: nodes the walk came to, and the next one. -/
theorem TracedCall.commit :
    ∀ id ∈ (c.commit hop).path, (c.lookup, id) ∈ s.reached ∨ id = hop.next := by
  intro id hid
  rcases WalkCall.mem_commit hid with hid | rfl
  · rcases h.path ht.result_eq id hid with hreached | hcharged
    · exact .inl hreached
    rw [ht.charged_eq] at hcharged
    split at hcharged
    · cases hcharged
    · exact .inr (Option.some.inj hcharged).symm
  · exact .inr rfl

/-- Once the next node has the walk, the walk came to every node the context names. -/
theorem TracedCall.taken (hnext : (c.lookup, hop.next) ∈ s.reached) {stage : CallStage}
    (hcharged : ({ c with ctx := c.commit hop, stage := stage } : WalkCall).charged = none)
    (hframe : ∀ hop f, stage ≠ .awaiting hop f) :
    s.TracedCall { c with ctx := c.commit hop, stage := stage } where
  target := by
    rw [WalkCall.commit_targetKey]
    exact h.target
  path := fun _ id hid => by
    rcases h.commit ht id hid with hreached | rfl
    · exact .inl hreached
    · exact .inl hnext
  charged := fun id hid => by
    rw [hcharged] at hid
    cases hid
  frame := fun hop f hstage => absurd hstage (hframe hop f)
  via := h.via

theorem TracedCall.committed (hnext : (c.lookup, hop.next) ∈ s.reached) : s.TracedCall { c with ctx := c.commit hop } where
  target := by
    rw [WalkCall.commit_targetKey]
    exact h.target
  path := fun _ id hid => by
    rcases h.commit ht id hid with hreached | rfl
    · exact .inl hreached
    · exact .inl hnext
  charged := fun id hid => by
    change id ∈ c.charged at hid
    have hold := h.charged id hid
    rw [ht.charged_eq] at hid
    unfold WalkCall.commit
    split at hid
    · cases hid
    next hre => rwa [if_neg hre]
  frame := h.frame
  via := h.via

end

/-- The next node of a call has the walk when its frame arrived. -/
theorem Traced.next_reached (hs : s.Traced) (hi : s.calls[i]? = some c) {f : Nat}
    (hstage : c.stage = .awaiting hop f) (harrived : s.Arrived f) :
    (c.lookup, hop.next) ∈ s.reached := by
  obtain ⟨fr, hfr, hdest, hlookup⟩ := (hs.calls c (List.mem_of_getElem? hi)).frame hop f hstage
  obtain ⟨d, hd, hvia⟩ := harrived
  obtain ⟨fr', hfr', -, hreached⟩ := (hs.calls d hd).via f hvia
  obtain rfl : fr = fr' := by simpa [hfr] using hfr'
  rwa [hlookup, hdest] at hreached

/-- The next candidate is tried, or the walk ends here. -/
theorem follows_tryNext (hs : s.Traced) (hw : s.Waits) (hi : s.calls[i]? = some c)
    (ht : c.Takes hop) (hre : hop.reselect = true) (v : RoutingView)
    (hB : B c.lookup (c.ctx.walkResult (.ended .sendFailed))) :
    s.Follows (s.tryNext i c hop v) B := by
  have hgood := hs.calls c (List.mem_of_getElem? hi)
  have hreached := hgood.reached ht.result_eq (by rw [ht.charged_eq, if_pos hre])
  unfold tryNext
  split
  · refine follows_setCall hs hw hi rfl rfl rfl (hgood.stage ?_ (by simp) fun _ => hreached) rfl
    simp [WalkCall.charged, hre]
  · exact follows_conclude hs hw hi rfl rfl rfl hgood (hgood.walkResult _) (.inr hB)

theorem follows_sendFrame (hs : s.Traced) (hw : s.Waits) (hi : s.calls[i]? = some c)
    (ht : c.Takes hop) (hfr : s.TracedFrame fr) (hdest : fr.dest = hop.next)
    (hlookup : fr.lookup = c.lookup) : s.Follows (s.sendFrame i c hop fr) B := by
  have hgood := hs.calls c (List.mem_of_getElem? hi)
  have hext : s.Extends { s with frames := s.frames ++ [fr] } := by
    refine ⟨fun f fr' hf => ?_, fun _ hp => hp, fun _ _ ht => ht⟩
    obtain ⟨hlt, -⟩ := List.getElem?_eq_some_iff.mp hf
    exact (List.getElem?_append_left hlt).trans hf
  have hsent : s.Follows { s with frames := s.frames ++ [fr] } B := {
    traced := {
      calls := fun d hd => (hs.calls d hd).mono hext
      frames := fun f hf => by
        rcases List.mem_append.mp hf with hf | hf
        · exact (hs.frames f hf).mono hext
        · obtain rfl := List.mem_singleton.mp hf
          exact hfr.mono hext
      origins := hs.origins
      results := fun k r hr => (hs.results k r hr).mono hext }
    waits := hw
    grow := hext
    results := fun _ _ hr => .inl hr }
  have hgood' := hgood.mono hext
  have hcharged : ({ c with stage := .awaiting hop s.frames.length } : WalkCall).charged
      = c.charged := ht.charged_eq.symm
  refine hsent.trans (follows_setCall hsent.traced hsent.waits hi rfl rfl rfl {
    target := hgood'.target
    path := fun _ id hid => by
      rw [hcharged]
      exact hgood'.path ht.result_eq id hid
    charged := fun id hid => hgood'.charged id (hcharged ▸ hid)
    frame := fun hop' f hstage => by
      cases hstage
      exact ⟨fr, List.getElem?_concat_length, hdest, hlookup⟩
    via := hgood'.via } rfl)

end Hop

/-- A call begins at a node the walk came to. -/
theorem follows_enter (hs : s.Traced) (hw : s.Waits) {me : NodeId} {origins : List WalkOrigin}
    (hext : s.Extends { s with
      calls := s.calls ++ [c], origins := origins, reached := (c.lookup, me) :: s.reached })
    (hgood : TracedCall { s with
      calls := s.calls ++ [c], origins := origins, reached := (c.lookup, me) :: s.reached } c)
    (hr : c.result = none)
    (horigins : ∀ (k : Nat) (o : WalkOrigin), origins[k]? = some o → s.origins[k]? = some o
      ∨ o.settled = [] ∧ o.call = s.calls.length ∧ c.lookup = k
        ∧ (o.pending = true → c.walk = true ∧ c.via = none)) :
    s.Follows { s with
      calls := s.calls ++ [c], origins := origins, reached := (c.lookup, me) :: s.reached } B := by
  have hlast : (s.calls ++ [c])[s.calls.length]? = some c := List.getElem?_concat_length
  have hold : ∀ {j : Nat} {d : WalkCall}, s.calls[j]? = some d → (s.calls ++ [c])[j]? = some d := by
    intro j d hd
    obtain ⟨hlt, -⟩ := List.getElem?_eq_some_iff.mp hd
    exact (List.getElem?_append_left hlt).trans hd
  have hresults : ∀ k r, IsResult { s with
      calls := s.calls ++ [c], origins := origins, reached := (c.lookup, me) :: s.reached } k r →
        s.IsResult k r := by
    rintro k r (⟨d, hd, hk, hr'⟩ | h | ⟨o, ho, hset⟩)
    · rcases List.mem_append.mp hd with hd | hd
      · exact .inl ⟨d, hd, hk, hr'⟩
      obtain rfl := List.mem_singleton.mp hd
      rw [hr] at hr'
      cases hr'
    · exact .inr (.inl h)
    · rcases horigins k o ho with ho | ⟨hnil, -⟩
      · exact .inr (.inr ⟨o, ho, hset⟩)
      · rw [hnil] at hset
        cases hset
  exact {
    traced := {
      calls := fun d hd => by
        rcases List.mem_append.mp hd with hd | hd
        · exact (hs.calls d hd).mono hext
        · obtain rfl := List.mem_singleton.mp hd
          exact hgood
      frames := fun f hf => (hs.frames f hf).mono hext
      origins := fun k o ho => by
        rcases horigins k o ho with ho | ⟨-, hcall, hk, -⟩
        · obtain ⟨d, hd, hk⟩ := hs.origins k o ho
          exact ⟨d, hold hd, hk⟩
        · exact ⟨c, by rw [hcall]; exact hlast, hk⟩
      results := fun k r hr' => (hs.results k r (hresults k r hr')).mono hext }
    waits := fun k o ho hp d hd => by
      rcases horigins k o ho with ho | ⟨-, hcall, -, hfresh⟩
      · obtain ⟨d', hd', -⟩ := hs.origins k o ho
        obtain rfl : d' = d := by simpa [hold hd'] using hd
        exact hw k o ho hp d' hd'
      · rw [hcall] at hd
        obtain rfl : c = d := by simpa [hlast] using hd
        exact ⟨(hfresh hp).1, (hfresh hp).2, hr⟩
    grow := hext
    results := fun k r hr' => .inl (hresults k r hr') }

/-- A result that an act builds, from the context of a call that has none yet. If it names a node
ahead, it is of the call the act gives up. -/
def Built (s : WalkNet) (a : WalkAct) (k : Nat) (r : WalkResult) : Prop :=
  ∃ c ∈ s.calls, c.lookup = k ∧ c.result = none ∧ (∃ stop, r = c.ctx.walkResult stop)
    ∧ ∀ id ∈ c.charged, s.givesUp a = some c

variable {a : WalkAct}

theorem built_of_uncharged (hi : s.calls[i]? = some c) (hr : c.result = none)
    (hc : c.charged = none) (stop : WalkStop) : s.Built a c.lookup (c.ctx.walkResult stop) :=
  ⟨c, List.mem_of_getElem? hi, rfl, hr, ⟨stop, rfl⟩, by simp [hc]⟩

section

variable (hs : s.Traced) (hw : s.Waits)
include hs hw

theorem follows_lookup (me target : NodeId) (acked : Bool) :
    s.Follows (s.step cfg (.lookup me target acked)) B := by
  have hold : ∀ {j : Nat} {o : WalkOrigin}, s.origins[j]? = some o →
      (s.origins ++ [⟨me, target, acked, s.calls.length, acked, []⟩])[j]? = some o := by
    intro j o ho
    obtain ⟨hlt, -⟩ := List.getElem?_eq_some_iff.mp ho
    exact (List.getElem?_append_left hlt).trans ho
  apply follows_enter hs hw
  · refine ⟨fun _ _ hf => hf, fun p hp => List.mem_cons_of_mem _ hp, fun k t ht => ?_⟩
    obtain ⟨o, ho, rfl⟩ := Option.map_eq_some_iff.mp ht
    exact Option.map_eq_some_iff.mpr ⟨o, hold ho, rfl⟩
  · exact {
      target := by simp [WalkNet.target]
      path := fun _ id hid => .inl (by
        obtain rfl := List.mem_singleton.mp hid
        exact List.mem_cons_self)
      charged := by simp [WalkCall.charged]
      frame := by simp
      via := by simp }
  · rfl
  · intro k o ho
    rcases Nat.lt_or_ge k s.origins.length with hlt | hge
    · exact .inl ((List.getElem?_append_left hlt).symm.trans ho)
    have hlt := (List.getElem?_eq_some_iff.mp ho).1
    rw [List.length_append, List.length_singleton] at hlt
    obtain rfl : k = s.origins.length := by omega
    obtain rfl : _ = o := by simpa using ho
    exact .inr ⟨rfl, rfl, rfl, fun hp => ⟨hp, rfl⟩⟩

theorem follows_arrive (f : Nat) :
    s.Follows (s.step cfg (.arrive f)) B := by
  simp only [step]
  split
  · exact follows_refl hs hw
  next fr hfr =>
  have hgood := hs.frames fr (List.mem_of_getElem? hfr)
  apply follows_enter hs hw
  · exact ⟨fun _ _ hf => hf, fun p hp => List.mem_cons_of_mem _ hp, fun _ _ ht => ht⟩
  · exact {
      target := hgood.target
      path := fun _ id hid => .inl (by
        rcases hgood.path id hid with hreached | rfl
        · exact List.mem_cons_of_mem _ hreached
        · exact List.mem_cons_self)
      charged := by simp [WalkCall.charged]
      frame := by simp
      via := fun f' hf' => by
        obtain rfl : f = f' := by simpa using hf'
        exact ⟨fr, hfr, rfl, List.mem_cons_self⟩ }
  · rfl
  · exact fun k o ho => .inl ho

theorem follows_begin (i : Nat) (alive : Bool) (x : LookupInput) :
    s.Follows (s.step cfg (.begin i alive x)) (s.Built (.begin i alive x)) := by
  simp only [step]
  split
  · exact follows_refl hs hw
  next c hi =>
  have hgood := hs.calls c (List.mem_of_getElem? hi)
  split
  next hstage =>
    have hr : c.result = none := by simp [WalkCall.result, hstage]
    have hc : c.charged = none := by simp [WalkCall.charged, hstage]
    have hreached := hgood.reached hr hc
    split
    next stop hstop =>
      exact follows_conclude hs hw hi rfl rfl rfl hgood (hgood.walkResult stop)
        (.inr (built_of_uncharged hi hr hc stop))
    · exact follows_raise hs hw hi hgood hreached (built_of_uncharged hi hr hc _)
    next hop hhop =>
    refine follows_setCall hs hw hi rfl rfl rfl ?_ rfl
    -- without re-selection the next node is named from here on
    cases hre : hop.reselect with
    | true =>
      exact { hgood with
        path := fun _ id hid => .inl (hreached id (by simpa using hid))
        charged := by simp [WalkCall.charged, hre]
        frame := by simp }
    | false =>
      exact { hgood with
        path := fun _ id hid => by
          have hid : id ∈ c.ctx.path ∨ id = hop.next := by
            simpa [WalkCtx.charge] using hid
          rcases hid with hid | rfl
          · exact .inl (hreached id hid)
          · exact .inr (by simp [WalkCall.charged, hre])
        charged := fun id hid => by
          obtain rfl : hop.next = id := by simpa [WalkCall.charged, hre] using hid
          simp [WalkCtx.charge]
        frame := by simp }
  · exact follows_refl hs hw

theorem follows_send (i : Nat) (v : RoutingView) :
    s.Follows (s.step cfg (.send i v)) (s.Built (.send i v)) := by
  simp only [step]
  split
  · exact follows_refl hs hw
  next c hi =>
  have hgood := hs.calls c (List.mem_of_getElem? hi)
  split
  next hop hstage =>
    have ht : c.Takes hop := .inl hstage
    split
    next hdead =>
      have hre : hop.reselect = true := by
        rw [Bool.and_eq_true] at hdead
        exact hdead.1
      refine follows_tryNext hs hw hi ht hre v ?_
      exact built_of_uncharged hi ht.result_eq (by rw [ht.charged_eq, if_pos hre]) _
    · refine follows_sendFrame hs hw hi ht ⟨?_, hgood.commit ht⟩ rfl rfl
      rw [WalkCall.commit_targetKey]
      exact hgood.target
  · exact follows_refl hs hw

theorem follows_acked (i : Nat) :
    s.Follows (s.step cfg (.acked i)) B := by
  simp only [step]
  split
  · exact follows_refl hs hw
  next c hi =>
  have hgood := hs.calls c (List.mem_of_getElem? hi)
  split
  next hop f hstage =>
    have ht : c.Takes hop := .inr ⟨f, hstage⟩
    split
    next harrived =>
      refine follows_setCall hs hw hi rfl rfl rfl (hgood.taken ht ?_ rfl (by simp)) rfl
      exact hs.next_reached hi hstage harrived.2
    · exact follows_refl hs hw
  · exact follows_refl hs hw

theorem follows_noHandler (i : Nat) :
    s.Follows (s.step cfg (.noHandler i)) B := by
  simp only [step]
  split
  · exact follows_refl hs hw
  next c hi =>
  split
  next hop f hstage =>
    split
    · exact follows_refl hs hw
    next fr hfr =>
    split
    · have hgood := hs.frames fr (List.mem_of_getElem? hfr)
      obtain ⟨fr', hfr', hdest, hlookup⟩ :=
        (hs.calls c (List.mem_of_getElem? hi)).frame hop f hstage
      obtain rfl : fr = fr' := by simpa [hfr] using hfr'
      exact follows_sendFrame hs hw hi (.inr ⟨f, hstage⟩) ⟨hgood.target, hgood.path⟩ hdest hlookup
    · exact follows_refl hs hw
  · exact follows_refl hs hw

theorem follows_reply (i j : Nat) :
    s.Follows (s.step cfg (.reply i j)) B := by
  simp only [step]
  split
  next c d hi hj =>
    split
    next hop f r hstage hended =>
      split
      next hvia =>
        have hgood := hs.calls c (List.mem_of_getElem? hi)
        have hd := List.mem_of_getElem? hj
        -- the answer is of the same lookup
        obtain ⟨fr, hfr, -, hlookup⟩ := hgood.frame hop f hstage
        obtain ⟨fr', hfr', hlookup', -⟩ := (hs.calls d hd).via f hvia.1
        obtain rfl : fr = fr' := by simpa [hfr] using hfr'
        have hresult : s.IsResult c.lookup r :=
          .inl ⟨d, hd, hlookup'.symm.trans hlookup, by simp [WalkCall.result, hended]⟩
        have hnext := hs.next_reached hi hstage ⟨d, hd, hvia.1⟩
        exact follows_conclude hs hw hi rfl rfl rfl (hgood.committed (.inr ⟨f, hstage⟩) hnext)
          (hs.results _ _ hresult) (.inl hresult)
      · exact follows_refl hs hw
    · exact follows_refl hs hw
  · exact follows_refl hs hw

theorem follows_fail (i : Nat) (edgeLoss : Bool) (v : RoutingView) :
    s.Follows (s.step cfg (.fail i edgeLoss v)) (s.Built (.fail i edgeLoss v)) := by
  simp only [step]
  split
  · exact follows_refl hs hw
  next c hi =>
  have hmem := List.mem_of_getElem? hi
  have hgood := hs.calls c hmem
  split
  next hop f hstage =>
    have ht : c.Takes hop := .inr ⟨f, hstage⟩
    have hbuilt : s.Built (.fail i edgeLoss v) c.lookup
        (c.ctx.walkResult (.ended .sendFailed)) := by
      refine ⟨c, hmem, rfl, ht.result_eq, ⟨_, rfl⟩, fun _ _ => ?_⟩
      simp [givesUp, hi, WalkCall.isAwaiting, hstage]
    split
    next hloss =>
      rw [Bool.and_eq_true] at hloss
      exact follows_tryNext hs hw hi ht hloss.1 v hbuilt
    · exact follows_conclude hs hw hi rfl rfl rfl hgood (hgood.walkResult _) (.inr hbuilt)
  · exact follows_refl hs hw

theorem follows_done (n : Nat) :
    s.Follows (s.step cfg (.done n)) B := by
  simp only [step]
  split
  · exact follows_refl hs hw
  next d hd =>
  have hresult : s.IsResult d.lookup d.result :=
    .inr (.inl ⟨d, List.mem_of_getElem? hd, rfl, rfl⟩)
  exact follows_handsOn hs hw (.walkFinish ..) (hs.results _ _ hresult) (.inl hresult)

end

/-- A lookup that was settled is not settled again. -/
theorem settle_of_settled {o : WalkOrigin} (ho : s.origins[k]? = some o)
    (hp : o.pending = false) : s.settle k r = s := by
  have hsame : s.origins.modify k (·.finish r) = s.origins := by
    apply List.ext_getElem?
    intro j
    rw [List.getElem?_modify]
    split
    next hkj =>
      rw [← hkj, ho]
      simp [WalkOrigin.finish, hp]
    · simp
  unfold settle
  rw [hsame]

theorem follows_expire (hs : s.Traced) (hw : s.Waits) (k : Nat) (stop : WalkStop)
    (ha : s.givesUp a = (s.origins[k]?).bind fun o =>
      if o.pending then s.calls[o.call]? else none) : s.Follows (s.expire k stop) (s.Built a) := by
  unfold expire
  split
  · exact follows_refl hs hw
  next o ho =>
  split
  · exact follows_refl hs hw
  next c hc =>
  cases hp : o.pending with
  | false =>
    rw [settle_of_settled ho hp]
    exact follows_refl hs hw
  | true =>
    have hmem := List.mem_of_getElem? hc
    obtain ⟨c', hc', hk⟩ := hs.origins k o ho
    obtain rfl : c = c' := by simpa [hc] using hc'
    have hgood := (hs.calls c hmem).walkResult stop
    rw [hk] at hgood
    refine follows_handsOn hs hw (.settle ..) hgood (.inr ⟨c, hmem, hk, ?_, ⟨stop, rfl⟩, ?_⟩)
    · exact (hw k o ho hp c hc).2.2
    · intro _ _
      simp [ha, ho, hp, hc]

/-- **What a step does**: the network stays in order, and a result is an old one or is built from the
context of a call; only a call that is given up may have named a node ahead. -/
theorem step_follows (cfg : RoutingConfig) (hs : s.Traced) (hw : s.Waits) (a : WalkAct) :
    s.Follows (s.step cfg a) (s.Built a) := by
  cases a with
  | lookup me target acked => exact follows_lookup hs hw me target acked
  | begin i alive x => exact follows_begin hs hw i alive x
  | send i v => exact follows_send hs hw i v
  | arrive f => exact follows_arrive hs hw f
  | acked i => exact follows_acked hs hw i
  | noHandler i => exact follows_noHandler hs hw i
  | reply i j => exact follows_reply hs hw i j
  | fail i edgeLoss v => exact follows_fail hs hw i edgeLoss v
  | done n => exact follows_done hs hw n
  | deadline k | stop k => exact follows_expire hs hw k _ rfl

/-! ### Whom a walk came to -/

/-- Every result of a lookup names nodes the walk came to. -/
def AllReached (s : WalkNet) : Prop :=
  ∀ k r, s.IsResult k r → ∀ id ∈ r.path, (k, id) ∈ s.reached

theorem mem_of_givesUp (ha : s.givesUp a = some c) : c ∈ s.calls := by
  cases a with
  | fail i edgeLoss v => exact List.mem_of_getElem? (Option.filter_eq_some_iff.mp ha).1
  | deadline k | stop k =>
    obtain ⟨o, -, hc⟩ := Option.bind_eq_some_iff.mp ha
    split at hc
    · exact List.mem_of_getElem? hc
    · cases hc
  | lookup me target acked | begin i alive x | send i v | arrive f | acked i | noHandler i
  | reply i j | done n => cases ha

/-- A lookup that waits is settled with what its originator's step has come to. -/
theorem isResult_expire (hs : s.Traced) (stop : WalkStop)
    (ha : ((s.origins[k]?).bind fun o => if o.pending then s.calls[o.call]? else none) = some c) :
    (s.expire k stop).reached = s.reached
      ∧ (s.expire k stop).IsResult c.lookup (c.ctx.walkResult stop) := by
  obtain ⟨o, ho, hc⟩ := Option.bind_eq_some_iff.mp ha
  split at hc
  next hp =>
    obtain ⟨c', hc', hk⟩ := hs.origins k o ho
    obtain rfl : c = c' := by simpa [hc] using hc'
    have hexpire : s.expire k stop = s.settle k (c.ctx.walkResult stop) := by
      unfold expire
      simp only [ho, hc]
    rw [hexpire, hk]
    refine ⟨rfl, .inr (.inr ⟨o.finish (c.ctx.walkResult stop), ?_, ?_⟩)⟩
    · unfold settle
      rw [List.getElem?_modify_eq, ho]
      rfl
    · simp [WalkOrigin.finish, hp]
  · cases hc

variable (cfg) in
/-- An act that gives up on a walk leaves a result with what its context names. -/
theorem isResult_givesUp (ha : s.givesUp a = some c) {id : NodeId} (hid : id ∈ c.charged)
    (hs : s.Traced) : (s.step cfg a).reached = s.reached
      ∧ ∃ stop, (s.step cfg a).IsResult c.lookup (c.ctx.walkResult stop) := by
  cases a with
  | fail i edgeLoss v =>
    obtain ⟨hi, hwaits⟩ := Option.filter_eq_some_iff.mp ha
    unfold WalkCall.isAwaiting at hwaits
    split at hwaits
    next hop f hstage =>
      -- it names a node ahead, so it does not select again
      have hre : hop.reselect = false := by
        cases hre : hop.reselect with
        | false => rfl
        | true => simp [WalkCall.charged, hstage, hre] at hid
      have hstep : s.step cfg (.fail i edgeLoss v)
          = s.conclude i c (c.ctx.walkResult (.ended .sendFailed)) := by
        simp only [step, hi, hstage, hre, Bool.false_and, Bool.false_eq_true, if_false]
      rw [hstep]
      refine ⟨(handsOn_conclude ..).reached, .ended .sendFailed,
        .inl ⟨{ c with stage := .ended (c.ctx.walkResult (.ended .sendFailed)) }, ?_, rfl, rfl⟩⟩
      rw [conclude_calls]
      exact List.mem_of_getElem? (setCall_get hi)
    · cases hwaits
  | deadline k =>
    obtain ⟨hreached, hr⟩ := isResult_expire hs (.ended .walkDeadline) ha
    exact ⟨hreached, _, hr⟩
  | stop k =>
    obtain ⟨hreached, hr⟩ := isResult_expire hs .stopped ha
    exact ⟨hreached, _, hr⟩
  | lookup me target acked | begin i alive x | send i v | arrive f | acked i | noHandler i
  | reply i j | done n => cases ha

/-- **One act keeps results to the nodes that were reached** exactly when the walk it gives up on
names no other. -/
theorem allReached_step (hs : s.Traced) (hw : s.Waits) (h : s.AllReached) (a : WalkAct) :
    (s.step cfg a).AllReached ↔ s.NamesReached a := by
  have hstep := step_follows cfg hs hw a
  constructor
  · intro hall c hc id hid
    obtain ⟨hreached, stop, hr⟩ := isResult_givesUp cfg hc hid hs
    have hpath := (hs.calls c (mem_of_givesUp hc)).charged id hid
    have hmem := hall _ _ hr id hpath
    rwa [hreached] at hmem
  · intro hnames k r hr id hid
    rcases hstep.results k r hr with hr | ⟨c, hmem, rfl, hnone, ⟨stop, rfl⟩, hgives⟩
    · exact hstep.grow.reached _ (h k r hr id hid)
    apply hstep.grow.reached
    rcases (hs.calls c hmem).path hnone id hid with hreached | hcharged
    · exact hreached
    · exact hnames c (hgives id hcharged) id hcharged

theorem Traced.visited_iff (hs : s.Traced) :
    (∀ k r, s.IsResult k r → s.Visited k r) ↔ s.AllReached := by
  refine ⟨fun h k r hr => (h k r hr).path, fun h k r hr => ⟨h k r hr, fun id hid => ?_⟩⟩
  obtain ⟨t, ht, hclosest⟩ := hs.results k r hr
  rw [Option.mem_def, hclosest] at hid
  refine ⟨mem_of_pickNearest hid, fun target htarget => ?_⟩
  obtain rfl : t = target := by simpa [ht] using htarget
  exact pickNearest_le hid

theorem isResult_of_answer (hs : s.Traced) (h : s.answer k = some r) : s.IsResult k r := by
  obtain ⟨o, ho, hr⟩ := Option.bind_eq_some_iff.mp h
  split at hr
  · exact .inr (.inr ⟨o, ho, List.mem_of_mem_head? hr⟩)
  obtain ⟨c, hc, hk⟩ := hs.origins k o ho
  rw [hc] at hr
  exact .inl ⟨c, List.mem_of_getElem? hc, hk, hr⟩

theorem traced_empty : empty.Traced where
  calls := by simp [empty]
  frames := by simp [empty]
  origins := by simp [empty]
  results := by simp [empty, IsResult]

theorem waits_empty : empty.Waits := by
  intro k o ho
  cases ho

/-- **Whom a walk came to.** In a run of the network every result names nodes the walk came to, and
the nearest of them, exactly where no walk was given up that named a node ahead; and so does what a
lookup answers then. -/
theorem walk_visited_iff (cfg : RoutingConfig) (as : List WalkAct) :
    (EachStep (step cfg)
        (fun s a => ∀ k r, (s.step cfg a).IsResult k r → (s.step cfg a).Visited k r) empty as
      ↔ EachStep (step cfg) NamesReached empty as)
    ∧ (EachStep (step cfg) NamesReached empty as →
      ∀ k r, (run (step cfg) empty as).answer k = some r →
        (run (step cfg) empty as).Visited k r) := by
  have hstep : ∀ (s : WalkNet) (a : WalkAct), s.Traced ∧ s.Waits →
      (s.step cfg a).Traced ∧ (s.step cfg a).Waits := by
    intro s a h
    have hfollows := step_follows cfg h.1 h.2 a
    exact ⟨hfollows.traced, hfollows.waits⟩
  have hinit : empty.Traced ∧ empty.Waits := ⟨traced_empty, waits_empty⟩
  have hempty : empty.AllReached := by
    rintro k r (⟨c, hc, -⟩ | ⟨d, hd, -⟩ | ⟨o, ho, -⟩)
    · cases hc
    · cases hd
    · cases ho
  refine ⟨?_, fun h k r hr => ?_⟩
  · rw [← EachStep.keeps_iff (P := AllReached) hstep
      (fun s a hI hs => allReached_step hI.1 hI.2 hs a) hinit hempty as]
    exact eachStep_congr hstep (fun s a hI => (hstep s a hI).1.visited_iff) hinit as
  · have hrun := EachStep.invariant
      (I := fun s => (s.Traced ∧ s.Waits) ∧ s.AllReached) (C := NamesReached) (fun s a hI hC =>
        ⟨hstep s a hI.1, (allReached_step hI.1.1 hI.1.2 hI.2 a).mpr hC⟩) ⟨hinit, hempty⟩ h
    exact hrun.1.1.visited_iff.mpr hrun.2 k r (isResult_of_answer hrun.1.1 hr)

/-- A node with one synapse, which is nearer to the target than it is, and is gone. -/
def lostSynapse : RoutingView :=
  ⟨[2], fun _ => false, some fun _ => false, fun _ => false, false, [], fun _ => false, [], none,
    true⟩

/-- It sends the walk there without re-selection; the walk arrives, and no acknowledgement. -/
def acknowledgementLost : List WalkAct :=
  [.lookup 1 3 true,
    .begin 0 true ⟨lostSynapse, [], lostSynapse, none,
      ⟨id, fun ids => .refl ids, 2, fun _ => some 0, fun _ => some 0⟩, false, []⟩,
    .send 0 lostSynapse, .arrive 0, .deadline 0]

/-- The node it names has the walk. -/
theorem walk_visited_deadline : (run (step ⟨40, 8, true, false⟩) empty acknowledgementLost).Visited 0
    ⟨false, false, .ended .walkDeadline, some 2, [1, 2], 1⟩ :=
  (walk_visited_iff ⟨40, 8, true, false⟩ acknowledgementLost).2 (by decide) 0 _ (by decide)

/-- It sends the walk there without re-selection; the send fails. -/
def namesLost : List WalkAct :=
  [.lookup 1 3 true,
    .begin 0 true ⟨lostSynapse, [], lostSynapse, none,
      ⟨id, fun ids => .refl ids, 2, fun _ => some 0, fun _ => some 0⟩, false, []⟩,
    .send 0 lostSynapse, .fail 0 true lostSynapse]

/-- A lookup answers that a node was the closest it came to which never saw the walk. -/
theorem closest_not_reached : ¬ ∀ (cfg : RoutingConfig) (as : List WalkAct) (k : Nat)
    (r : WalkResult), (run (step cfg) empty as).answer k = some r →
      (run (step cfg) empty as).Visited k r := by
  intro h
  have hvisited := h ⟨40, 8, true, false⟩ namesLost 0
    ⟨false, false, .ended .sendFailed, some 2, [1, 2], 1⟩ (by decide)
  have hmem := hvisited.path 2 (by decide)
  exact absurd hmem (by decide)

end WalkNet

end Axona
