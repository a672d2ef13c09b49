import Axona.Library.Transition
import Axona.Transport.Composite

/-! # The route of an identity

A handler is told of an identity once and is told again only after a death; so a route that is
closed on purpose is not announced when it is bound anew. And a death counts as that of the admitted
route, or of a superseded one, by little more than the sub that reports it. -/

namespace Axona

open Library OrderedMap

namespace Composite

/-! ### The rule and the condition -/

/-- The handlers that turn a bind down. -/
def Act.refuses : Act → List HandlerId
  | .bound _ _ _ _ _ refuses => refuses
  | _ => []

/-- **The route rule**, for one step: a handler that accepts binds is told of an identity exactly
when the identity comes to have an admitted route; a death is forwarded only if it is that of the
admitted route; and no route is admitted that was superseded and has not closed. -/
structure RouteRule (isBootstrap : SubId → Bool) (s : Composite) (a : Act) : Prop where
  announced : ∀ h e, s.entries.get h = some e → e.refused = false → h ∉ a.refuses → ∀ n,
    .bound h n ∈ (s.perform isBootstrap a).2 ↔
      s.routeOf n = none ∧ (s.step isBootstrap a).routeOf n ≠ none
  died : ∀ n token', .died n token' ∈ (s.perform isBootstrap a).2 → ∃ t token route,
    a = .died t n token ∧ s.routeOf n = some route ∧ route.sub = t ∧ ends token route.token = true
  retired : ∀ n route, (s.step isBootstrap a).routeOf n = some route → s.routeOf n ≠ some route →
    (n, route) ∉ (s.step isBootstrap a).retired

/-- The route that a bind would have admitted in place of what is. -/
def admission (isBootstrap : SubId → Bool) (s : Composite) (t : SubId) (n : NodeId)
    (token : Option RouteToken) (cur : Option (Option RouteToken)) (policy : Bool) : Option Route :=
  if staleToken token cur || s.isSuperseded n t then none
  else
    let route := bindRoute t token cur
    match s.routeOf n with
    | none => if policy then some route else none
    | some old =>
      if old.sub = t then
        if route.token.isSome && decide (old.token ≠ route.token) then some route else none
      else if isBootstrap old.sub && !isBootstrap t then some route
      else none

/-- **The condition.** A bind that gives a route to an identity without one finds no handler that
was told of it and not of its death; no route is admitted whose mark went with the death of another;
and a death is reported by a superseded sub, or of an identity that has an admitted route, by the
sub of that route or between a bootstrap sub and another. -/
def InOrder (isBootstrap : SubId → Bool) (s : Composite) : Act → Prop
  | .bound t n token cur policy refuses =>
    ∀ route, s.admission isBootstrap t n token cur policy = some route → (n, route) ∉ s.lifted
      ∧ (s.routeOf n = none → ∀ h e, s.entries.get h = some e → e.refused = false → h ∉ refuses →
        n ∉ e.seen)
  | .routeChanged t n cur => ∀ route, s.routeOf n = some route → route.sub = t →
      cur.isSome = true → route.token ≠ cur → (n, ⟨t, cur⟩) ∉ s.lifted
  | .died t n _ => s.isSuperseded n t = true ∨ ∃ route, s.routeOf n = some route
      ∧ (route.sub = t ∨ isBootstrap t = true ∨ isBootstrap route.sub = true)
  | .closeConnection _ => True

/-- What the condition keeps. -/
structure HandlersTold (s : Composite) : Prop where
  told : ∀ h e, s.entries.get h = some e → e.refused = false → ∀ n, s.routeOf n ≠ none → n ∈ e.seen
  marked : ∀ n route, (n, route) ∈ s.retired →
    s.isSuperseded n route.sub = true ∨ (n, route) ∈ s.lifted
  lifted : ∀ p ∈ s.lifted, p ∈ s.retired
  apart : ∀ n route, s.routeOf n = some route → s.isSuperseded n route.sub = false

variable {isBootstrap : SubId → Bool} {s w : Composite} {t : SubId} {n m : NodeId}
  {known : RouteRecord}

theorem kept_init (handlers : List HandlerId) : HandlersTold (.init handlers) where
  told := by
    intro h e _ _ n hn
    exact absurd rfl hn
  marked := by rintro n route ⟨⟩
  lifted := by rintro p ⟨⟩
  apart := by rintro n route ⟨⟩

/-! ### Records -/

section

variable (s : Composite) (n : NodeId) (known : RouteRecord)

theorem recordOf_setRecord (m : NodeId) :
    (s.setRecord n known).recordOf m = if m = n then known else s.recordOf m := by
  unfold recordOf setRecord
  simp only [get_set]
  split
  · rfl
  · rfl

/-- A record that is dropped says what none says. -/
theorem recordOf_settleRecord (m : NodeId) :
    (s.settleRecord n known).recordOf m = if m = n then known else s.recordOf m := by
  unfold settleRecord
  split
  next hempty =>
    rw [Bool.and_eq_true, Option.isNone_iff_eq_none, beq_iff_eq] at hempty
    have hknown : known = ⟨none, ∅⟩ := by
      obtain ⟨admitted, superseded⟩ := known
      obtain ⟨rfl, hsize⟩ := hempty
      congr 1
      exact OrderedMap.ext (List.eq_nil_of_length_eq_zero hsize)
    unfold recordOf
    simp only [get_delete]
    split
    · exact hknown.symm
    · rfl
  · exact recordOf_setRecord s n known m

theorem settleRecord_rest :
    (s.settleRecord n known).retired = s.retired ∧ (s.settleRecord n known).lifted = s.lifted
      ∧ (s.settleRecord n known).entries = s.entries := by
  unfold settleRecord
  split
  · exact ⟨rfl, rfl, rfl⟩
  · exact ⟨rfl, rfl, rfl⟩

end

/-! ### Handlers -/

variable {e : BoundEntry}

theorem bound_mem_fireBound {refuses : List HandlerId} {h : HandlerId}
    (he : s.entries.get h = some e) :
    .bound h m ∈ (s.fireBound n refuses).2 ↔ m = n ∧ n ∉ e.seen := by
  unfold fireBound
  simp only [List.mem_filterMap]
  constructor
  · rintro ⟨⟨h', e'⟩, hmem, hsome⟩
    split at hsome
    · cases hsome
    next hseen =>
    obtain ⟨rfl, rfl⟩ : h' = h ∧ n = m := by simpa using hsome
    cases (get_of_mem hmem).symm.trans he
    exact ⟨rfl, hseen⟩
  · rintro ⟨rfl, hseen⟩
    exact ⟨(h, e), mem_of_get he, if_neg hseen⟩

theorem get_fireBound {refuses : List HandlerId} {h : HandlerId}
    (he : (s.fireBound n refuses).1.entries.get h = some e) :
    ∃ e', s.entries.get h = some e' ∧ e = e'.fire n (h ∈ refuses) := by
  unfold fireBound at he
  simp only [get_filterMap] at he
  obtain ⟨e', he', heq⟩ := Option.bind_eq_some_iff.mp he
  exact ⟨e', he', (Option.some.inj heq).symm⟩

/-- A handler that has not turned a bind down was told of it. -/
theorem seen_fire {r : Bool} (h : (e.fire n r).refused = false) :
    e.refused = false ∧ n ∈ (e.fire n r).seen ∧ ∀ m ∈ e.seen, m ∈ (e.fire n r).seen := by
  unfold BoundEntry.fire at h ⊢
  split at h
  next hseen =>
    rw [if_pos hseen]
    exact ⟨h, hseen, fun m hm => hm⟩
  next hseen =>
  split at h
  · cases h
  next hr =>
    rw [if_neg hseen, if_neg hr]
    exact ⟨h, List.mem_cons_self, fun m hm => List.mem_cons_of_mem _ hm⟩

/-! ### Binds -/

/-- The route of an identity and the subs superseded for it are all that is changed. -/
structure Routed (s w : Composite) (n : NodeId) (route : Option Route) (marks : List Route) :
    Prop where
  routeOf : ∀ m, w.routeOf m = if m = n then route else s.routeOf m
  isSuperseded : ∀ m t, w.isSuperseded m t = true ↔
    s.isSuperseded m t = true ∨ m = n ∧ ∃ x ∈ marks, x.sub = t
  retired : w.retired = marks.map (Prod.mk n) ++ s.retired
  lifted : w.lifted = s.lifted
  entries : w.entries = s.entries

theorem Routed.refl (s : Composite) (n : NodeId) : s.Routed s n (s.routeOf n) [] where
  routeOf m := by
    split
    next hm => rw [hm]
    · rfl
  isSuperseded m t := by simp
  retired := rfl
  lifted := rfl
  entries := rfl

/-- A record is written that supersedes no sub. -/
theorem Routed.of_record (known : RouteRecord)
    (hw : ∀ m, w.recordOf m = if m = n then known else s.recordOf m)
    (hknown : known.superseded = (s.recordOf n).superseded) (hrest : w.retired = s.retired ∧
      w.lifted = s.lifted ∧ w.entries = s.entries) : s.Routed w n known.admitted [] where
  routeOf m := by
    unfold Composite.routeOf
    rw [hw m]
    split
    · rfl
    · rfl
  isSuperseded m t := by
    have hsame : (w.recordOf m).superseded = (s.recordOf m).superseded := by
      rw [hw m]
      split
      next hm => rw [hm, hknown]
      · rfl
    unfold Composite.isSuperseded
    rw [hsame]
    simp
  retired := hrest.1
  lifted := hrest.2.1
  entries := hrest.2.2

theorem routed_supersede (s : Composite) (n : NodeId) (route : Option Route) (old : Route) :
    s.Routed (s.supersede n { s.recordOf n with admitted := route } old) n route [old] where
  routeOf m := by
    show ((s.setRecord n _).recordOf m).admitted = _
    rw [recordOf_setRecord]
    split
    · rfl
    · rfl
  isSuperseded m t := by
    show ((s.setRecord n _).recordOf m).superseded.has t = true ↔ _
    rw [recordOf_setRecord]
    by_cases hm : m = n
    · subst hm
      rw [if_pos rfl, has_set, Bool.or_eq_true, decide_eq_true_eq]
      have hmem : (∃ x ∈ [old], x.sub = t) ↔ t = old.sub :=
        ⟨fun h => by simpa [eq_comm] using h, fun h => ⟨old, List.mem_cons_self, h.symm⟩⟩
      rw [hmem, and_iff_right rfl, or_comm]
      exact Iff.rfl
    · rw [if_neg hm, or_iff_left fun h => hm h.1]
      exact Iff.rfl
  retired := rfl
  lifted := rfl
  entries := rfl

/-- An effect that is neither an announcement nor a death. -/
def Effect.quiet : Effect → Bool
  | .bound .. => false
  | .died .. => false
  | _ => true

/-- What comes of a bind: the routing, the subs it supersedes and whether the handlers are told. -/
structure Outcome (s : Composite) (n : NodeId) (refuses : List HandlerId) (admission : Option Route)
    (out : Composite × List Effect) (w : Composite) (marks : List Route) (told : Bool)
    (before : List Effect) : Prop where
  routed : s.Routed w n (admission.or (s.routeOf n)) marks
  out : out =
    if told then ((w.fireBound n refuses).1, before ++ (w.fireBound n refuses).2) else (w, before)
  quiet : ∀ e ∈ before, e.quiet = true
  marks : ∀ x ∈ marks, ∀ r, admission.or (s.routeOf n) = some r → x.sub ≠ r.sub
  fresh : ∀ r, admission = some r →
    s.routeOf n ≠ some r ∧ s.isSuperseded n r.sub = false ∧ (s.routeOf n = none → told = true)
  known : told = true → admission = none → s.routeOf n ≠ none

/-- A bind that changes nothing. -/
theorem outcome_ignored (s : Composite) (n : NodeId) (refuses : List HandlerId) :
    s.Outcome n refuses none (s, []) s [] false [] where
  routed := by
    rw [Option.none_or]
    exact .refl s n
  out := rfl
  quiet := by rintro e ⟨⟩
  marks := by rintro x ⟨⟩
  fresh := by rintro r ⟨⟩
  known := by rintro ⟨⟩

section

variable {token : Option RouteToken} {cur : Option (Option RouteToken)} {before : List Effect}
  {old : Route}

variable (hstale : staleToken token cur = false) (hsup : s.isSuperseded n t = false)
include hstale hsup

theorem admission_none (hold : s.routeOf n = none) (policy : Bool) :
    s.admission isBootstrap t n token cur policy =
      if policy then some (bindRoute t token cur) else none := by
  unfold admission
  rw [hstale, hsup, Bool.false_or, if_neg Bool.false_ne_true]
  simp only [hold]

theorem admission_some (hold : s.routeOf n = some old) (policy : Bool) :
    s.admission isBootstrap t n token cur policy =
      if old.sub = t then if (bindRoute t token cur).token.isSome
            && decide (old.token ≠ (bindRoute t token cur).token) then some (bindRoute t token cur)
        else none else if isBootstrap old.sub && !isBootstrap t then some (bindRoute t token cur)
      else none := by
  unfold admission
  rw [hstale, hsup, Bool.false_or, if_neg Bool.false_ne_true]
  simp only [hold]

/-- A sub binds where there is no admitted route. -/
theorem outcome_none (hold : s.routeOf n = none) (policy : Bool) (refuses : List HandlerId) :
    ∃ w, s.Outcome n refuses (s.admission isBootstrap t n token cur policy)
      (s.onSubBound isBootstrap t n token cur policy refuses) w [] policy [] := by
  have hbind : s.routeBind isBootstrap t n token cur =
      (s.setRecord n (s.recordOf n), .admitNew (bindRoute t token cur), []) := by
    unfold routeBind
    rw [if_neg (by rw [hstale]; exact Bool.false_ne_true),
      if_neg (by rw [hsup]; exact Bool.false_ne_true)]
    simp only [show (s.recordOf n).admitted = none from hold]
  have hself : (s.setRecord n (s.recordOf n)).recordOf n = s.recordOf n :=
    (recordOf_setRecord ..).trans (if_pos rfl)
  rw [admission_none hstale hsup hold]
  unfold onSubBound
  rw [hbind]
  cases policy with
  | true =>
    refine ⟨_, ?_, rfl, by rintro e ⟨⟩, by rintro x ⟨⟩, ?_, by rintro _ ⟨⟩⟩
    · refine Routed.of_record ⟨some (bindRoute t token cur), (s.recordOf n).superseded⟩
        (fun m => ?_) rfl ⟨rfl, rfl, rfl⟩
      unfold admitNew
      simp only [hself, if_true]
      rw [recordOf_setRecord, recordOf_setRecord]
      split
      · rfl
      · rfl
    · rintro r ⟨⟩
      exact ⟨by rw [hold]; rintro ⟨⟩, hsup, fun _ => rfl⟩
  | false =>
    refine ⟨_, ?_, rfl, by rintro e ⟨⟩, by rintro x ⟨⟩, by rintro r ⟨⟩, by rintro ⟨⟩⟩
    rw [if_neg Bool.false_ne_true, Option.none_or]
    refine Routed.of_record (s.recordOf n) (fun m => ?_) rfl ?_
    · unfold admitNew
      simp only [hself, Bool.false_eq_true, if_false]
      rw [recordOf_settleRecord, recordOf_setRecord]
      split
      · rfl
      · rfl
    · unfold admitNew
      simp only [Bool.false_eq_true, if_false]
      exact settleRecord_rest ..

/-- A sub binds where a route is admitted. -/
theorem outcome_some (hold : s.routeOf n = some old) (policy : Bool) (refuses : List HandlerId) :
    ∃ w marks told before, s.Outcome n refuses (s.admission isBootstrap t n token cur policy)
      (s.onSubBound isBootstrap t n token cur policy refuses) w marks told before := by
  have hbind : s.routeBind isBootstrap t n token cur = if old.sub = t then
        if (bindRoute t token cur).token.isSome
            && decide (old.token ≠ (bindRoute t token cur).token) then
          (s.setRecord n { s.recordOf n with admitted := some (bindRoute t token cur) }, .admits,
            [.routeChanged n (bindRoute t token cur).token])
        else (s, .admits, [])
      else if isBootstrap old.sub && !isBootstrap t then
        (s.supersede n { s.recordOf n with admitted := some (bindRoute t token cur) } old, .switch,
          [.superseded old.sub n old.token, .routeChanged n (bindRoute t token cur).token])
      else if !isBootstrap old.sub && isBootstrap t then
        (s.supersede n (s.recordOf n) (bindRoute t token cur), .ignore,
          [.superseded t n (bindRoute t token cur).token])
      else (s, .admits, []) := by
    unfold routeBind
    rw [if_neg (by rw [hstale]; exact Bool.false_ne_true),
      if_neg (by rw [hsup]; exact Bool.false_ne_true)]
    simp only [show (s.recordOf n).admitted = some old from hold]
  have hsub : (bindRoute t token cur).sub = t := rfl
  rw [admission_some hstale hsup hold]
  unfold onSubBound
  rw [hbind]
  generalize bindRoute t token cur = route at hsub
  by_cases hsame : old.sub = t
  · rw [if_pos hsame, if_pos hsame]
    by_cases htoken : (route.token.isSome && decide (old.token ≠ route.token)) = true
    · -- the sub has another channel now
      rw [if_pos htoken, if_pos htoken]
      refine ⟨_, [], true, _, ?_, rfl, ?_, by rintro x ⟨⟩, ?_, by rintro _ ⟨⟩⟩
      · refine Routed.of_record ⟨some route, (s.recordOf n).superseded⟩ (fun m => ?_) rfl
          ⟨rfl, rfl, rfl⟩
        exact recordOf_setRecord ..
      · intro e he
        rw [List.mem_singleton.mp he]
        rfl
      · rintro r ⟨⟩
        refine ⟨?_, hsub ▸ hsup, fun _ => rfl⟩
        rw [hold]
        rintro ⟨⟩
        simp at htoken
    · rw [if_neg htoken, if_neg htoken]
      refine ⟨s, [], true, [], ?_, rfl, by rintro e ⟨⟩, by rintro x ⟨⟩, by rintro r ⟨⟩, ?_⟩
      · rw [Option.none_or]
        exact .refl s n
      · intro _ _
        rw [hold]
        rintro ⟨⟩
  rw [if_neg hsame, if_neg hsame]
  by_cases hswitch : (isBootstrap old.sub && !isBootstrap t) = true
  · rw [if_pos hswitch, if_pos hswitch]
    refine ⟨_, [old], false, _, routed_supersede s n (some route) old, rfl, ?_, ?_, ?_,
      by rintro ⟨⟩⟩
    · intro e he
      rcases List.mem_cons.mp he with rfl | he
      · rfl
      · rw [List.mem_singleton.mp he]
        rfl
    · intro x hx r hr
      cases hr
      rw [List.mem_singleton.mp hx, hsub]
      exact hsame
    · rintro r ⟨⟩
      refine ⟨?_, hsub ▸ hsup, fun hnone => ?_⟩
      · rw [hold]
        rintro ⟨⟩
        exact hsame hsub
      · rw [hold] at hnone
        cases hnone
  rw [if_neg hswitch, if_neg hswitch]
  by_cases hborn : (!isBootstrap old.sub && isBootstrap t) = true
  · rw [if_pos hborn]
    refine ⟨_, [route], false, _, ?_, rfl, ?_, ?_, by rintro r ⟨⟩, by rintro ⟨⟩⟩
    · rw [Option.none_or]
      exact routed_supersede s n (s.routeOf n) route
    · intro e he
      rw [List.mem_singleton.mp he]
      rfl
    · intro x hx r hr
      rw [Option.none_or, hold] at hr
      rw [List.mem_singleton.mp hx, hsub, ← Option.some.inj hr]
      exact Ne.symm hsame
  · rw [if_neg hborn]
    refine ⟨s, [], true, [], ?_, rfl, by rintro e ⟨⟩, by rintro x ⟨⟩, by rintro r ⟨⟩, ?_⟩
    · rw [Option.none_or]
      exact .refl s n
    · intro _ _
      rw [hold]
      rintro ⟨⟩

end

/-- **What a bind does.** -/
theorem onSubBound_spec (isBootstrap : SubId → Bool) (s : Composite) (t : SubId) (n : NodeId)
    (token : Option RouteToken) (cur : Option (Option RouteToken)) (policy : Bool)
    (refuses : List HandlerId) :
    ∃ w marks told before, s.Outcome n refuses (s.admission isBootstrap t n token cur policy)
      (s.onSubBound isBootstrap t n token cur policy refuses) w marks told before := by
  cases hstale : staleToken token cur with
  | true =>
    have hadm : s.admission isBootstrap t n token cur policy = none := by
      unfold admission
      rw [hstale, Bool.true_or, if_pos rfl]
    have hout : s.onSubBound isBootstrap t n token cur policy refuses = (s, []) := by
      unfold onSubBound routeBind
      rw [if_pos hstale]
    rw [hadm, hout]
    exact ⟨s, [], false, [], outcome_ignored s n refuses⟩
  | false =>
  cases hsup : s.isSuperseded n t with
  | true =>
    have hadm : s.admission isBootstrap t n token cur policy = none := by
      unfold admission
      rw [hsup, Bool.or_true, if_pos rfl]
    have hout : s.onSubBound isBootstrap t n token cur policy refuses = (s, []) := by
      unfold onSubBound routeBind
      rw [if_neg (by rw [hstale]; exact Bool.false_ne_true), if_pos hsup]
    rw [hadm, hout]
    exact ⟨s, [], false, [], outcome_ignored s n refuses⟩
  | false =>
  cases hold : s.routeOf n with
  | none =>
    obtain ⟨w, h⟩ := outcome_none hstale hsup hold policy refuses
    exact ⟨w, [], policy, [], h⟩
  | some old => exact outcome_some hstale hsup hold policy refuses

section

variable {refuses : List HandlerId} {adm : Option Route} {out : Composite × List Effect}
  {marks : List Route} {told : Bool} {before : List Effect}

variable (h : s.Outcome n refuses adm out w marks told before)
include h

theorem Outcome.bound_mem {k : HandlerId}
    {e : BoundEntry} (he : s.entries.get k = some e) (m : NodeId) :
    .bound k m ∈ out.2 ↔ told = true ∧ m = n ∧ n ∉ e.seen := by
  have hbefore : .bound k m ∉ before := fun hmem => by
    have := h.quiet _ hmem
    cases this
  rw [h.out]
  cases told with
  | false => simp [hbefore]
  | true =>
    rw [if_pos rfl, List.mem_append, or_iff_right hbefore, and_iff_right rfl]
    exact bound_mem_fireBound (h.routed.entries ▸ he)

theorem Outcome.died_mem (m : NodeId)
    (token : Option RouteToken) : .died m token ∉ out.2 := by
  have hbefore : .died m token ∉ before := fun hmem => by
    have := h.quiet _ hmem
    cases this
  rw [h.out]
  cases told with
  | false => exact hbefore
  | true =>
    rw [if_pos rfl]
    intro hmem
    rcases List.mem_append.mp hmem with hmem | hmem
    · exact hbefore hmem
    unfold fireBound at hmem
    obtain ⟨e, -, he⟩ := List.mem_filterMap.mp hmem
    split at he
    · cases he
    · cases he

theorem Outcome.routeOf (m : NodeId) :
    out.1.routeOf m = if m = n then adm.or (s.routeOf n) else s.routeOf m := by
  rw [← h.routed.routeOf, h.out]
  split
  · rfl
  · rfl

theorem Outcome.isSuperseded (m : NodeId)
    (t : SubId) : out.1.isSuperseded m t = true ↔
      s.isSuperseded m t = true ∨ m = n ∧ ∃ x ∈ marks, x.sub = t := by
  rw [← h.routed.isSuperseded, h.out]
  split
  · rfl
  · rfl

theorem Outcome.notes :
    out.1.retired = marks.map (Prod.mk n) ++ s.retired ∧ out.1.lifted = s.lifted := by
  rw [← h.routed.retired, ← h.routed.lifted, h.out]
  split
  · exact ⟨rfl, rfl⟩
  · exact ⟨rfl, rfl⟩

/-- The route that is admitted was not superseded by this bind. -/
theorem Outcome.not_marked {route : Route}
    (hadm : adm = some route) : (n, route) ∈ out.1.retired ↔ (n, route) ∈ s.retired := by
  rw [h.notes.1, List.mem_append, or_iff_right]
  intro hmem
  obtain ⟨x, hx, heq⟩ := List.mem_map.mp hmem
  obtain rfl := (Prod.mk.inj heq).2
  exact h.marks x hx x (by rw [hadm]; rfl) rfl

/-- **The rule, for a bind.** -/
theorem Outcome.rule_iff (hk : s.HandlersTold) :
    ((∀ k e, s.entries.get k = some e → e.refused = false → k ∉ refuses → ∀ m,
        .bound k m ∈ out.2 ↔ s.routeOf m = none ∧ out.1.routeOf m ≠ none)
      ∧ ∀ m route, out.1.routeOf m = some route → s.routeOf m ≠ some route →
        (m, route) ∉ out.1.retired) ↔ ∀ route, adm = some route → (n, route) ∉ s.lifted
        ∧ (s.routeOf n = none → ∀ k e, s.entries.get k = some e → e.refused = false →
          k ∉ refuses → n ∉ e.seen) := by
  constructor
  · rintro ⟨hann, hret⟩ route hadm
    have hroute : out.1.routeOf n = some route := by
      rw [h.routeOf, if_pos rfl, hadm]
      rfl
    refine ⟨fun hlifted => ?_, fun hnone k e he hacc hk' => ?_⟩
    · exact hret n route hroute (h.fresh route hadm).1
        ((h.not_marked hadm).mpr (hk.lifted _ hlifted))
    · have hmem := (hann k e he hacc hk' n).mpr ⟨hnone, by rw [hroute]; rintro ⟨⟩⟩
      exact ((h.bound_mem he n).mp hmem).2.2
  · intro hin
    refine ⟨fun k e he hacc hk' m => ?_, fun m route hroute hold hmem => ?_⟩
    · rw [h.bound_mem he, h.routeOf]
      constructor
      · rintro ⟨htold, rfl, hseen⟩
        have hnone : s.routeOf m = none := by
          by_contra hne
          exact hseen (hk.told k e he hacc m hne)
        refine ⟨hnone, ?_⟩
        rw [if_pos rfl]
        cases hadm : adm with
        | none => exact absurd hnone (h.known htold hadm)
        | some route => rintro ⟨⟩
      · rintro ⟨hnone, hne⟩
        split at hne
        next hm =>
          subst hm
          cases hadm : adm with
          | none =>
            rw [hadm, Option.none_or] at hne
            exact absurd hnone hne
          | some route =>
            exact ⟨(h.fresh route hadm).2.2 hnone, rfl, (hin route hadm).2 hnone k e he hacc hk'⟩
        · exact absurd hnone hne
    · rw [h.routeOf] at hroute
      split at hroute
      next hm =>
        subst hm
        cases hadm : adm with
        | none =>
          rw [hadm, Option.none_or] at hroute
          exact hold hroute
        | some r =>
          rw [hadm] at hroute
          obtain rfl : r = route := Option.some.inj hroute
          rcases hk.marked _ _ ((h.not_marked hadm).mp hmem) with hmark | hlifted
          · rw [(h.fresh r hadm).2.1] at hmark
            cases hmark
          · exact (hin r hadm).1 hlifted
      · exact hold hroute

/-- What every run in order keeps, for a bind. -/
theorem Outcome.kept (hk : s.HandlersTold) :
    out.1.HandlersTold where
  told := by
    intro k e he hacc m hm
    rw [h.routeOf] at hm
    have hentries : ∃ e', s.entries.get k = some e' ∧ e'.refused = false
        ∧ (∀ m ∈ e'.seen, m ∈ e.seen) ∧ (told = true → n ∈ e.seen) := by
      rw [h.out] at he
      cases told with
      | false =>
        rw [if_neg Bool.false_ne_true] at he
        exact ⟨e, h.routed.entries ▸ he, hacc, fun _ hm => hm, by rintro ⟨⟩⟩
      | true =>
        rw [if_pos rfl] at he
        obtain ⟨e', he', rfl⟩ := get_fireBound he
        obtain ⟨hacc', hseen, hgrow⟩ := seen_fire hacc
        exact ⟨e', h.routed.entries ▸ he', hacc', hgrow, fun _ => hseen⟩
    obtain ⟨e', he', hacc', hgrow, htold⟩ := hentries
    split at hm
    next heq =>
      subst heq
      by_cases hnone : s.routeOf m = none
      · cases hadm : adm with
        | none =>
          rw [hadm, Option.none_or] at hm
          exact absurd hnone hm
        | some route => exact htold ((h.fresh route hadm).2.2 hnone)
      · exact hgrow m (hk.told k e' he' hacc' m hnone)
    · exact hgrow m (hk.told k e' he' hacc' m hm)
  marked := by
    intro m route hmem
    rw [h.notes.1] at hmem
    rw [h.notes.2]
    rcases List.mem_append.mp hmem with hnew | hold
    · obtain ⟨x, hx, heq⟩ := List.mem_map.mp hnew
      obtain ⟨rfl, rfl⟩ := Prod.mk.inj heq
      exact .inl ((h.isSuperseded ..).mpr (.inr ⟨rfl, x, hx, rfl⟩))
    · exact (hk.marked m route hold).imp (fun hmark => (h.isSuperseded ..).mpr (.inl hmark)) id
  lifted := by
    intro p hp
    rw [h.notes.2] at hp
    rw [h.notes.1]
    exact List.mem_append_right _ (hk.lifted p hp)
  apart := by
    intro m route hroute
    rw [h.routeOf] at hroute
    rw [← Bool.not_eq_true, h.isSuperseded]
    rintro (hmark | ⟨rfl, x, hx, hsub⟩)
    · split at hroute
      next hm =>
        subst hm
        cases hadm : adm with
        | none =>
          rw [hadm, Option.none_or] at hroute
          rw [hk.apart m route hroute] at hmark
          cases hmark
        | some r =>
          rw [hadm] at hroute
          obtain rfl : r = route := Option.some.inj hroute
          rw [(h.fresh r hadm).2.1] at hmark
          cases hmark
      · rw [hk.apart m route hroute] at hmark
        cases hmark
    · rw [if_pos rfl] at hroute
      exact h.marks x hx route hroute hsub

end

/-! ### Route changes -/

/-- **What a route change does**: the admitted route of the sub follows its token. -/
theorem onSubRouteChanged_spec (hk : s.HandlersTold) (t : SubId) (n : NodeId) (cur : Option RouteToken) :
    ∃ w adm before, s.Outcome n [] adm (s.onSubRouteChanged t n cur) w [] false before
      ∧ ∀ route, adm = some route ↔ route = ⟨t, cur⟩ ∧ ∃ old, s.routeOf n = some old ∧ old.sub = t
        ∧ cur.isSome = true ∧ old.token ≠ cur := by
  unfold onSubRouteChanged
  cases hold : s.routeOf n with
  | none =>
    refine ⟨s, none, [], outcome_ignored s n [], fun route => ⟨by rintro ⟨⟩, ?_⟩⟩
    rintro ⟨-, old, ⟨⟩, -⟩
  | some old =>
    simp only []
    by_cases hcur : (decide (old.sub = t) && cur.isSome && decide (old.token ≠ cur)) = true
    · rw [if_pos hcur]
      obtain ⟨hsub, hsome, htoken⟩ : old.sub = t ∧ cur.isSome = true ∧ old.token ≠ cur := by
        simpa [and_assoc] using hcur
      refine ⟨_, some ⟨t, cur⟩, _, ⟨?_, rfl, ?_, by rintro x ⟨⟩, ?_, by rintro ⟨⟩⟩, fun route => ?_⟩
      · exact Routed.of_record ⟨some ⟨t, cur⟩, (s.recordOf n).superseded⟩
          (fun m => recordOf_setRecord ..) rfl ⟨rfl, rfl, rfl⟩
      · intro e he
        rw [List.mem_singleton.mp he]
        rfl
      · rintro r ⟨⟩
        refine ⟨?_, ?_, fun hnone => ?_⟩
        · rw [hold]
          rintro ⟨⟩
          exact htoken rfl
        · exact hsub ▸ hk.apart n old hold
        · rw [hold] at hnone
          cases hnone
      · constructor
        · rintro ⟨⟩
          exact ⟨rfl, old, rfl, hsub, hsome, htoken⟩
        · rintro ⟨rfl, -⟩
          rfl
    · rw [if_neg hcur]
      refine ⟨s, none, [], outcome_ignored s n [], fun route => ⟨by rintro ⟨⟩, ?_⟩⟩
      rintro ⟨-, old', hold', hsub, hsome, htoken⟩
      cases hold'
      exact absurd (by simp [hsub, hsome, htoken]) hcur

/-! ### Deaths and closes -/

theorem recordOf_of_get_none (h : s.routes.get n = none) : s.recordOf n = ⟨none, ∅⟩ := by
  unfold recordOf
  rw [h]
  rfl

/-- **What a death does.** -/
theorem onSubDeath_spec (isBootstrap : SubId → Bool) (s : Composite) (t : SubId) (n : NodeId)
    (token : Option RouteToken) : (∀ m, (s.onSubDeath isBootstrap t n token).1.recordOf m =
        if m = n then (recordDeath isBootstrap (s.recordOf n) t token).1 else s.recordOf m)
      ∧ (s.onSubDeath isBootstrap t n token).1.retired = (s.noteEnd t n token).retired
      ∧ (s.onSubDeath isBootstrap t n token).1.lifted = (s.noteEnd t n token).lifted
      ∧ (s.onSubDeath isBootstrap t n token).1.entries =
        (if (recordDeath isBootstrap (s.recordOf n) t token).2 then (s.rearm n).entries
          else s.entries) ∧ ∃ token', (s.onSubDeath isBootstrap t n token).2 =
        if (recordDeath isBootstrap (s.recordOf n) t token).2 then [.died n token'] else [] := by
  unfold onSubDeath
  cases hget : s.routes.get n with
  | none =>
    have hnew : recordDeath isBootstrap (s.recordOf n) t token = (⟨none, ∅⟩, true) := by
      rw [recordOf_of_get_none hget]
      rfl
    rw [hnew]
    refine ⟨fun m => ?_, rfl, rfl, rfl, token, rfl⟩
    by_cases hm : m = n
    · rw [if_pos hm, hm]
      exact recordOf_of_get_none hget
    · rw [if_neg hm]
      rfl
  | some known =>
    have hknown : s.recordOf n = known := by
      unfold recordOf
      rw [hget]
      rfl
    rw [hknown]
    simp only []
    obtain ⟨hret, hlift, hent⟩ :=
      settleRecord_rest (s.noteEnd t n token) n (recordDeath isBootstrap known t token).1
    have hrecord := recordOf_settleRecord (s.noteEnd t n token) n
      (recordDeath isBootstrap known t token).1
    cases hforward : (recordDeath isBootstrap known t token).2 with
    | true =>
      refine ⟨hrecord, hret, hlift, ?_, _, rfl⟩
      simp only [if_true]
      unfold rearm
      rw [hent]
      rfl
    | false => exact ⟨hrecord, hret, hlift, hent, none, rfl⟩

theorem recordOf_closeConnection (s : Composite) (n m : NodeId) : (s.closeConnection n).recordOf m =
      if m = n then { s.recordOf n with admitted := none } else s.recordOf m := by
  unfold closeConnection
  cases hget : s.routes.get n with
  | none =>
    simp only []
    split
    next hm => rw [hm, recordOf_of_get_none hget]
    · rfl
  | some known =>
    rw [recordOf_settleRecord]
    have hknown : s.recordOf n = known := by
      unfold recordOf
      rw [hget]
      rfl
    rw [hknown]

/-- The record after a death: what is superseded shrinks, and so does what is admitted; and whom the
death is forwarded of. -/
theorem recordDeath_cases (isBootstrap : SubId → Bool) (known : RouteRecord) (t : SubId)
    (token : Option RouteToken) :
    (∀ t', (recordDeath isBootstrap known t token).1.superseded.has t' =
        (known.superseded.has t' && !(decide (t' = t) && known.superseded.has t)))
      ∧ ((recordDeath isBootstrap known t token).1.admitted = known.admitted
        ∨ (recordDeath isBootstrap known t token).1.admitted = none
          ∧ (recordDeath isBootstrap known t token).2 = true)
      ∧ ((recordDeath isBootstrap known t token).2 = true ↔ known.superseded.has t = false
        ∧ ∀ route, known.admitted = some route → route.sub = t ∧ ends token route.token = true
            ∨ route.sub ≠ t ∧ isBootstrap t = false ∧ isBootstrap route.sub = false)
      ∧ ((recordDeath isBootstrap known t token).2 = true → ∀ route, known.admitted = some route →
        route.sub = t → (recordDeath isBootstrap known t token).1.admitted = none) := by
  unfold recordDeath
  cases hsup : known.superseded.has t with
  | true =>
    rw [if_pos rfl]
    refine ⟨fun t' => ?_, .inl rfl, by simp, by simp⟩
    show (known.superseded.delete t).has t' = _
    unfold OrderedMap.has
    rw [get_delete]
    by_cases ht : t' = t
    · rw [if_pos ht, decide_eq_true ht]
      simp
    · rw [if_neg ht, decide_eq_false ht]
      simp
  | false =>
    rw [if_neg Bool.false_ne_true]
    cases hadm : known.admitted with
    | none => simp [hadm]
    | some route =>
      simp only []
      by_cases hsub : route.sub = t
      · rw [if_pos hsub]
        cases hends : ends token route.token with
        | true => simp [hsub, hends]
        | false => simp [hsub, hends, hadm]
      · rw [if_neg hsub]
        refine ⟨by simp, .inl hadm, ?_, ?_⟩
        · simp [hsub]
        · rintro - r ⟨⟩ hr
          exact absurd hr hsub

section

variable {token : Option RouteToken}

theorem routeOf_onSubDeath (m : NodeId) :
    (s.onSubDeath isBootstrap t n token).1.routeOf m = s.routeOf m
      ∨ m = n ∧ (s.onSubDeath isBootstrap t n token).1.routeOf m = none
        ∧ (recordDeath isBootstrap (s.recordOf n) t token).2 = true := by
  have hrecord := (onSubDeath_spec isBootstrap s t n token).1 m
  have hadm := (recordDeath_cases isBootstrap (s.recordOf n) t token).2.1
  unfold routeOf
  rw [hrecord]
  by_cases hm : m = n
  · rw [if_pos hm, hm]
    exact hadm.imp id fun h => ⟨rfl, h⟩
  · rw [if_neg hm]
    exact .inl rfl

theorem isSuperseded_onSubDeath (m : NodeId) (t' : SubId) :
    (s.onSubDeath isBootstrap t n token).1.isSuperseded m t' = true ↔
      s.isSuperseded m t' = true ∧ ¬(m = n ∧ t' = t) := by
  have hrecord := (onSubDeath_spec isBootstrap s t n token).1 m
  have hsup := (recordDeath_cases isBootstrap (s.recordOf n) t token).1 t'
  unfold isSuperseded
  rw [hrecord]
  by_cases hm : m = n
  · subst hm
    rw [if_pos rfl, hsup]
    by_cases ht : t' = t
    · subst ht
      simp
    · simp [ht]
  · rw [if_neg hm]
    simp [hm]

/-- A death is forwarded of the admitted route exactly if the condition holds. -/
theorem died_iff : s.InOrder isBootstrap (.died t n token) ↔
    ((recordDeath isBootstrap (s.recordOf n) t token).2 = true → ∃ route, s.routeOf n = some route
      ∧ route.sub = t ∧ ends token route.token = true) := by
  have hforward := (recordDeath_cases isBootstrap (s.recordOf n) t token).2.2.1
  rw [hforward]
  constructor
  · rintro (hsup | ⟨route, hroute, hsub⟩) ⟨hno, hall⟩
    · rw [show (s.recordOf n).superseded.has t = true from hsup] at hno
      cases hno
    · rcases hall route hroute with ⟨heq, hends⟩ | ⟨hne, hboot, hboot'⟩
      · exact ⟨route, hroute, heq, hends⟩
      rcases hsub with hsub | hsub | hsub
      · exact absurd hsub hne
      · rw [hboot] at hsub
        cases hsub
      · rw [hboot'] at hsub
        cases hsub
  · intro h
    cases hsup : s.isSuperseded n t with
    | true => exact .inl hsup
    | false =>
      right
      by_contra hno
      have hall : ∀ route, (s.recordOf n).admitted = some route →
          route.sub ≠ t ∧ isBootstrap t = false ∧ isBootstrap route.sub = false := by
        intro route hroute
        refine ⟨fun hsub => hno ⟨route, hroute, .inl hsub⟩, ?_, ?_⟩
        · exact Bool.eq_false_iff.mpr fun hb => hno ⟨route, hroute, .inr (.inl hb)⟩
        · exact Bool.eq_false_iff.mpr fun hb => hno ⟨route, hroute, .inr (.inr hb)⟩
      obtain ⟨route, hroute, hsub, -⟩ := h ⟨hsup, fun route hroute => .inr (hall route hroute)⟩
      exact hno ⟨route, hroute, .inl hsub⟩

theorem HandlersTold.onSubDeath (hk : s.HandlersTold) (hin : s.InOrder isBootstrap (.died t n token)) :
    HandlersTold (s.onSubDeath isBootstrap t n token).1 := by
  obtain ⟨-, hret, hlift, hent, -⟩ := onSubDeath_spec isBootstrap s t n token
  have hforward := died_iff.mp hin
  have hclear := (recordDeath_cases isBootstrap (s.recordOf n) t token).2.2.2
  refine ⟨fun k e he hacc m hm => ?_, fun m route hmem => ?_, fun p hp => ?_,
    fun m route hroute => ?_⟩
  · have hm' : s.routeOf m ≠ none := by
      intro hnone
      rcases routeOf_onSubDeath m with heq | ⟨-, heq, -⟩
      · exact hm (heq.trans hnone)
      · exact hm heq
    rw [hent] at he
    split at he
    next hf =>
      -- the handlers may be told again
      have hne : m ≠ n := by
        rintro rfl
        obtain ⟨route, hroute, hsub, -⟩ := hforward hf
        refine hm ?_
        unfold routeOf
        rw [(onSubDeath_spec isBootstrap s t m token).1, if_pos rfl]
        exact hclear hf route hroute hsub
      unfold rearm at he
      simp only [get_filterMap] at he
      obtain ⟨e', he', heq⟩ := Option.bind_eq_some_iff.mp he
      cases heq
      exact List.mem_filter.mpr ⟨hk.told k e' he' hacc m hm', decide_eq_true hne⟩
    · exact hk.told k e he hacc m hm'
  · rw [hret] at hmem
    rw [hlift]
    obtain ⟨hold, hopen⟩ := List.mem_filter.mp hmem
    rw [Bool.not_eq_true'] at hopen
    have hnotes : ∀ p, p ∈ s.lifted → (!(decide (p.1 = n) && decide (p.2.sub = t)
        && ends token p.2.token)) = true → p ∈ (s.noteEnd t n token).lifted :=
      fun p hp hleft => List.mem_append_right _ (List.mem_filter.mpr ⟨hp, hleft⟩)
    rcases hk.marked m route hold with hmark | hlifted
    · by_cases hsame : m = n ∧ route.sub = t
      · -- the mark goes, and the route has not closed
        right
        obtain ⟨rfl, rfl⟩ := hsame
        refine List.mem_append_left _ ?_
        rw [if_pos hmark]
        exact List.mem_filter.mpr ⟨hmem, by simp⟩
      · exact .inl ((isSuperseded_onSubDeath m route.sub).mpr ⟨hmark, hsame⟩)
    · exact .inr (hnotes _ hlifted (by rw [Bool.not_eq_true']; exact hopen))
  · rw [hlift] at hp
    rw [hret]
    rcases List.mem_append.mp hp with hp | hp
    · split at hp
      · exact (List.mem_filter.mp hp).1
      · cases hp
    · obtain ⟨hp, hopen⟩ := List.mem_filter.mp hp
      exact List.mem_filter.mpr ⟨hk.lifted p hp, hopen⟩
  · have hold : s.routeOf m = some route := by
      rcases routeOf_onSubDeath m with heq | ⟨-, heq, -⟩
      · exact heq.symm.trans hroute
      · rw [heq] at hroute
        cases hroute
    refine Bool.eq_false_iff.mpr fun hmark => ?_
    have := ((isSuperseded_onSubDeath m route.sub).mp hmark).1
    rw [hk.apart m route hold] at this
    cases this

theorem closeConnection_rest (s : Composite) (n : NodeId) :
    (s.closeConnection n).retired = s.retired ∧ (s.closeConnection n).lifted = s.lifted
      ∧ (s.closeConnection n).entries = s.entries := by
  unfold closeConnection
  split
  · exact ⟨rfl, rfl, rfl⟩
  · exact settleRecord_rest ..

theorem routeOf_closeConnection {route : Route} (h : (s.closeConnection n).routeOf m = some route) :
    s.routeOf m = some route := by
  unfold routeOf at h
  rw [recordOf_closeConnection] at h
  split at h
  · cases h
  · exact h

theorem isSuperseded_closeConnection (s : Composite) (n m : NodeId) (t : SubId) :
    (s.closeConnection n).isSuperseded m t = s.isSuperseded m t := by
  unfold isSuperseded
  rw [recordOf_closeConnection]
  split
  next hm => rw [hm]
  · rfl

theorem HandlersTold.closeConnection (hk : s.HandlersTold) (n : NodeId) : HandlersTold (s.closeConnection n) := by
  obtain ⟨hret, hlift, hent⟩ := closeConnection_rest s n
  refine ⟨fun k e he hacc m hm => ?_, fun m route hmem => ?_, ?_, fun m route hroute => ?_⟩
  · obtain ⟨route, hroute⟩ := Option.ne_none_iff_exists'.mp hm
    refine hk.told k e (hent ▸ he) hacc m ?_
    rw [routeOf_closeConnection hroute]
    rintro ⟨⟩
  · rw [isSuperseded_closeConnection, hlift]
    exact hk.marked m route (hret ▸ hmem)
  · rw [hlift, hret]
    exact hk.lifted
  · rw [isSuperseded_closeConnection]
    exact hk.apart m route (routeOf_closeConnection hroute)

/-! ### The step and the run -/

theorem HandlersTold.step (hk : s.HandlersTold) {a : Act} (hin : s.InOrder isBootstrap a) :
    HandlersTold (s.step isBootstrap a) := by
  cases a with
  | bound t n token cur policy refuses =>
    obtain ⟨w, marks, told, before, h⟩ := onSubBound_spec isBootstrap s t n token cur policy refuses
    exact h.kept hk
  | routeChanged t n cur =>
    obtain ⟨w, adm, before, h, -⟩ := onSubRouteChanged_spec hk t n cur
    exact h.kept hk
  | died t n token => exact hk.onSubDeath hin
  | closeConnection n => exact hk.closeConnection n

/-- Where no route is admitted and no handler is told, the rule is about deaths. -/
theorem routeRule_of_less {a : Act} (hroute : ∀ m route, (s.step isBootstrap a).routeOf m =
    some route → s.routeOf m = some route)
    (hbound : ∀ k m, .bound k m ∉ (s.perform isBootstrap a).2) : s.RouteRule isBootstrap a ↔
      ∀ n token', .died n token' ∈ (s.perform isBootstrap a).2 → ∃ t token route,
        a = .died t n token ∧ s.routeOf n = some route ∧ route.sub = t
          ∧ ends token route.token = true := by
  refine ⟨fun h => h.died, fun h => ⟨fun k e _ _ _ m => ?_, h, fun m route hnew hold => ?_⟩⟩
  · refine iff_of_false (hbound k m) ?_
    rintro ⟨hnone, hne⟩
    obtain ⟨route, hnew⟩ := Option.ne_none_iff_exists'.mp hne
    rw [hroute m route hnew] at hnone
    cases hnone
  · exact absurd (hroute m route hnew) hold

theorem routeRule_iff (hk : s.HandlersTold) (a : Act) : s.RouteRule isBootstrap a ↔
    s.InOrder isBootstrap a := by
  cases a with
  | bound t n token cur policy refuses =>
    obtain ⟨w, marks, told, before, h⟩ := onSubBound_spec isBootstrap s t n token cur policy refuses
    rw [show s.InOrder isBootstrap (.bound t n token cur policy refuses) ↔ _ from
      (h.rule_iff hk).symm]
    refine ⟨fun hrule => ⟨hrule.announced, hrule.retired⟩, ?_⟩
    rintro ⟨hann, hret⟩
    exact ⟨hann, fun m token' hmem => absurd hmem (h.died_mem m token'), hret⟩
  | routeChanged t n cur =>
    obtain ⟨w, adm, before, h, hadm⟩ := onSubRouteChanged_spec hk t n cur
    have hrule := h.rule_iff hk
    constructor
    · intro hr route hroute hsub hsome htoken
      exact ((hrule.mp ⟨hr.announced, hr.retired⟩) _ ((hadm _).mpr
        ⟨rfl, route, hroute, hsub, hsome, htoken⟩)).1
    · intro hin
      obtain ⟨hann, hret⟩ := hrule.mpr fun route hr => by
        obtain ⟨rfl, old, hold, hsub, hsome, htoken⟩ := (hadm route).mp hr
        refine ⟨hin old hold hsub hsome htoken, fun hnone => ?_⟩
        rw [hold] at hnone
        cases hnone
      exact ⟨hann, fun m token' hmem => absurd hmem (h.died_mem m token'), hret⟩
  | died t n token =>
    obtain ⟨-, -, -, -, token', heff⟩ := onSubDeath_spec isBootstrap s t n token
    have hperform : (s.perform isBootstrap (.died t n token)).2 =
        if (recordDeath isBootstrap (s.recordOf n) t token).2 then [.died n token'] else [] := heff
    rw [routeRule_of_less, died_iff, hperform]
    · cases hf : (recordDeath isBootstrap (s.recordOf n) t token).2 with
      | false => simp
      | true =>
        simp only [if_true, List.mem_singleton]
        constructor
        · intro h _
          obtain ⟨t', token'', route, ha, hroute⟩ := h n token' rfl
          cases ha
          exact ⟨route, hroute⟩
        · intro h m token'' heq
          obtain ⟨route, hroute⟩ := h trivial
          cases heq
          exact ⟨t, token, route, rfl, hroute⟩
    · intro m route hroute
      rcases routeOf_onSubDeath m with heq | ⟨-, heq, -⟩
      · exact heq.symm.trans hroute
      · rw [show (s.step isBootstrap (.died t n token)).routeOf m = none from heq] at hroute
        cases hroute
    · intro k m hmem
      rw [hperform] at hmem
      split at hmem
      · cases List.mem_singleton.mp hmem
      · cases hmem
  | closeConnection n =>
    have hless : s.RouteRule isBootstrap (.closeConnection n) ↔ _ :=
      routeRule_of_less (fun _ _ h => routeOf_closeConnection h) (by rintro k m ⟨⟩)
    rw [hless]
    exact iff_of_true (by rintro m token' ⟨⟩) trivial

end

end Composite

/-- **The route rule holds over a whole run** exactly if every step is in order. -/
theorem route_rule_iff (isBootstrap : SubId → Bool) (handlers : List HandlerId)
    (as : List Composite.Act) :
    EachStep (Composite.step isBootstrap) (Composite.RouteRule isBootstrap) (.init handlers) as ↔
      EachStep (Composite.step isBootstrap) (Composite.InOrder isBootstrap) (.init handlers) as :=
  EachStep.agree_iff (I := Composite.HandlersTold) (fun _ _ hk hin => hk.step hin)
    (fun _ a hk => Composite.routeRule_iff hk a) (Composite.kept_init handlers) as

/-- The first sub is a bootstrap one. -/
def firstBoots (t : SubId) : Bool := t == 0

/-- A sub binds a channel to an identity. -/
def bindOn (t : SubId) (token : RouteToken) : Composite.Act :=
  .bound t 7 (some token) (some (some token)) true []

/-- An identity bound on the second sub is closed on purpose. -/
def boundAndClosed : Composite :=
  run (Composite.step firstBoots) (.init [0]) [bindOn 1 ['a'], .closeConnection 7]

/-- **The next bind is not announced**, though it gives the identity a route; and the end of a third
sub's channel is forwarded as the death of an identity whose route on the second stands. -/
theorem closed_not_announced :
    (boundAndClosed.routeOf 7 = none
      ∧ (boundAndClosed.step firstBoots (bindOn 1 ['b'])).routeOf 7 = some ⟨1, some ['b']⟩
      ∧ (boundAndClosed.perform firstBoots (bindOn 1 ['b'])).2 = [])
    ∧ (((Composite.init [0]).step firstBoots (bindOn 1 ['a'])).perform firstBoots
          (.died 2 7 (some ['c']))).2 = [.died 7 (some ['c'])]
    ∧ ¬ ∀ (isBootstrap : SubId → Bool) (handlers : List HandlerId) (as : List Composite.Act),
      (∃ t, isBootstrap t = true) →
        EachStep (Composite.step isBootstrap) (Composite.RouteRule isBootstrap) (.init handlers)
          as := by
  refine ⟨⟨by decide +kernel, by decide +kernel, by decide +kernel⟩, by decide +kernel, fun h => ?_⟩
  have hlast := ((eachStep_append _ _ [bindOn 1 ['a'], .closeConnection 7] [bindOn 1 ['b']]).mp
    (h firstBoots [0] _ ⟨0, rfl⟩)).2.1
  have hann := (hlast.announced 0 ⟨[7], false⟩ (by decide +kernel) rfl (by decide) 7).mpr
    ⟨by decide +kernel, by decide +kernel⟩
  have hnone : (boundAndClosed.perform firstBoots (bindOn 1 ['b'])).2 = [] := by decide +kernel
  exact absurd (hnone ▸ hann) (by rintro ⟨⟩)

end Axona
