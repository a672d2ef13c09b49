import Axona.Dht.Routing
import Axona.Library.Walk

/-! # Routed messages make progress or end

No node forwards onto the path of the frame, however it chose the hop, so a walk makes no short
cycle; the hop count of a frame is the length of its walk, and bounded. The handlers of a message
are told that it ends only at a node that can serve and found nothing nearer. -/

namespace Axona

open Library

variable {cfg : RoutingConfig} {v : RoutingView} {me target : NodeId} {exclude : List NodeId}

/-! ### Selectors -/

/-- What a fold for the nearest keeps: a candidate, or what it began with. -/
theorem pickCloser_aux (target : NodeId) (ids : List NodeId) (best : Option NodeId × Nat) :
    let r := ids.foldl (fun (best : Option NodeId × Nat) id =>
      if distance target id < best.2 then (some id, distance target id) else best) best
    (r = best ∨ ∃ id ∈ ids, r = (some id, distance target id)) ∧
      r.2 ≤ best.2 ∧ ∀ id ∈ ids, r.2 ≤ distance target id := by
  induction ids generalizing best with
  | nil => exact ⟨.inl rfl, le_refl _, fun _ h => absurd h List.not_mem_nil⟩
  | cons id ids ih =>
    simp only [List.foldl_cons]
    by_cases hlt : distance target id < best.2
    · rw [if_pos hlt]
      obtain ⟨hfrom, hle, hall⟩ := ih (some id, distance target id)
      refine ⟨.inr ?_, hle.trans hlt.le, ?_⟩
      · rcases hfrom with heq | ⟨id', hid', heq⟩
        · exact ⟨id, List.mem_cons_self, heq⟩
        · exact ⟨id', List.mem_cons_of_mem id hid', heq⟩
      · intro id' hid'
        rcases List.mem_cons.mp hid' with rfl | hmem
        · exact hle
        · exact hall id' hmem
    · rw [if_neg hlt]
      obtain ⟨hfrom, hle, hall⟩ := ih best
      refine ⟨?_, hle, ?_⟩
      · rcases hfrom with heq | ⟨id', hid', heq⟩
        · exact .inl heq
        · exact .inr ⟨id', List.mem_cons_of_mem id hid', heq⟩
      · intro id' hid'
        rcases List.mem_cons.mp hid' with rfl | hmem
        · exact hle.trans (not_lt.mp hlt)
        · exact hall id' hmem

variable {id : NodeId}

variable {ids : List NodeId}

theorem mem_of_pickCloser {bound : Nat} (h : pickCloser target bound ids = some id) : id ∈ ids := by
  obtain ⟨hfrom, -, -⟩ := pickCloser_aux target ids (none, bound)
  unfold pickCloser at h
  rcases hfrom with heq | ⟨id', hid', heq⟩
  · rw [heq] at h
    cases h
  · rw [heq] at h
    cases h
    exact hid'

/-- Nothing is picked where nothing is within the bound. -/
theorem pickCloser_none {bound : Nat} (h : pickCloser target bound ids = none) :
    ∀ id ∈ ids, bound ≤ distance target id := by
  obtain ⟨hfrom, -, hall⟩ := pickCloser_aux target ids (none, bound)
  unfold pickCloser at h
  rcases hfrom with heq | ⟨id', hid', heq⟩
  · rw [heq] at hall
    exact hall
  · rw [heq] at h
    cases h

theorem mem_of_pickNearest (h : pickNearest target ids = some id) :
    id ∈ ids := by
  unfold pickNearest at h
  have hpick := foldl_picks (T := fun x best => best = some x) h fun best x => by
    split
    · exact .inr rfl
    · exact .inl rfl
  rcases hpick with hnone | ⟨x, hx, heq⟩
  · cases hnone
  · cases heq
    exact hx

/-- A node does not forward to itself, nor onto what it excludes. -/
def Off (me : NodeId) (exclude : List NodeId) (id : NodeId) : Prop := id ≠ me ∧ id ∉ exclude

theorem off_of_eligible (h : v.eligible me exclude id = true) : Off me exclude id := by
  simp only [RoutingView.eligible, Bool.and_eq_true, bne_iff_ne, Bool.not_eq_true',
    List.contains_eq_mem, decide_eq_false_iff_not] at h
  exact ⟨h.1.1.1, h.1.1.2⟩

theorem off_of_reachable (h : v.reachable me exclude id = true) : Off me exclude id := by
  simp only [RoutingView.reachable, Bool.and_eq_true, bne_iff_ne, Bool.not_eq_true',
    List.contains_eq_mem, decide_eq_false_iff_not] at h
  exact ⟨h.1.1.1, h.1.1.2⟩

theorem off_of_usable {x : NodeId × PeerClass} (h : x ∈ v.usablePeers me exclude) :
    Off me exclude x.1 := by
  rcases List.mem_append.mp h with h | h
  · obtain ⟨id, hid, rfl⟩ := List.mem_map.mp h
    have hp := (List.mem_filter.mp hid).2
    rw [Bool.and_eq_true] at hp
    exact off_of_eligible hp.1
  · obtain ⟨id, hid, rfl⟩ := List.mem_map.mp h
    have hp := (List.mem_filter.mp hid).2
    simp only [Bool.and_eq_true] at hp
    exact off_of_eligible hp.1.2

theorem off_of_usableIds (h : id ∈ v.usableIds me exclude) : Off me exclude id := by
  obtain ⟨x, hx, rfl⟩ := List.mem_map.mp h
  exact off_of_usable hx

theorem off_of_incoming (h : id ∈ ((v.usablePeers me exclude).filter (·.2 = .I)).map (·.1)) :
    Off me exclude id := by
  obtain ⟨x, hx, rfl⟩ := List.mem_map.mp h
  exact off_of_usable (List.mem_filter.mp hx).1

variable {replies : List (NodeId × Option NodeId)}

/-- The first hop of a lookahead is off the path too. -/
theorem off_of_ahead {r : NodeId × Option NodeId}
    (h : findCloserInTwoHops v me target exclude replies = some r) : Off me exclude r.1 := by
  unfold findCloserInTwoHops at h
  split at h
  next => cases h
  next =>
  split at h
  next first hfirst =>
    cases h
    rcases List.mem_append.mp (mem_of_pickCloser hfirst) with hmem | hmem
    · exact off_of_incoming hmem
    · exact off_of_eligible (List.mem_filter.mp hmem).2
  next =>
  have hprobed := List.find?_some h
  rw [Bool.and_eq_true, List.contains_eq_mem, decide_eq_true_eq] at hprobed
  rcases List.mem_append.mp hprobed.1 with hmem | hmem
  · have hp := (List.mem_filter.mp hmem).2
    rw [Bool.and_eq_true] at hp
    exact off_of_eligible hp.1
  · exact off_of_incoming hmem

theorem off_of_fallback (h : capableFallbackHop v me target exclude = some id) :
    Off me exclude id := by
  unfold capableFallbackHop at h
  split at h
  next b hb =>
    cases h
    exact off_of_eligible (Option.filter_eq_some_iff.mp hb).2
  next => exact off_of_usableIds (mem_of_pickNearest h)

variable {tried : List NodeId}

theorem off_of_pick (h : rsPick v me target exclude tried = some id) :
    Off me exclude id :=
  off_of_usableIds (List.mem_filter.mp (mem_of_pickCloser h)).1

/-! ### The loop that sends -/

/-- Two frames that differ in what goes along with the choice only. -/
def RouteFrame.Same (f g : RouteFrame) : Prop :=
  f.type = g.type ∧ f.target = g.target ∧ f.hops = g.hops ∧ f.path = g.path

/-- Every send of the loop is off the path, and of the frame it was given. -/
theorem sendLoop_sends {frame : RouteFrame} {next : NodeId} {ts : List RouteTry}
    (hnext : Off me exclude next) :
    ∀ x ∈ sendLoop cfg me exclude frame next tried ts,
      Off me exclude x.dest ∧ x.frame.Same frame := by
  induction ts generalizing frame next tried with
  | nil => exact fun x hx => absurd hx List.not_mem_nil
  | cons t ts ih =>
    intro x hx
    unfold sendLoop at hx
    -- the frame of a later round has lost its route and nothing else
    have hlater : ∀ n, Off me exclude n →
        x ∈ sendLoop cfg me exclude { frame with via := none, rpath := [] } n (next :: tried) ts →
          Off me exclude x.dest ∧ x.frame.Same frame := by
      intro n hn hmem
      have hih := ih hn x hmem
      exact hih
    have hsent : x = ⟨next, frame, t.outcome⟩ → Off me exclude x.dest ∧ x.frame.Same frame := by
      rintro rfl
      exact ⟨hnext, rfl, rfl, rfl, rfl⟩
    split at hx
    · split at hx
      next n hn => exact hlater n (off_of_pick hn) hx
      next => cases hx
    split at hx
    · split at hx
      next n hn =>
        rcases List.mem_cons.mp hx with heq | hmem
        · exact hsent heq
        · exact hlater n (off_of_pick hn) hmem
      next => exact hsent (List.mem_singleton.mp hx)
    · exact hsent (List.mem_singleton.mp hx)

/-- There is a next send only after one whose edge was lost. -/
def OneAtATime (sends : List RouteSend) : Prop :=
  ∀ pre x post, sends = pre ++ x :: post → post ≠ [] → x.outcome = .edgeLoss

theorem oneAtATime_nil : OneAtATime [] := by
  rintro pre x post h
  exact absurd h.symm (List.append_ne_nil_of_right_ne_nil pre (List.cons_ne_nil x post))

theorem oneAtATime_singleton (x : RouteSend) : OneAtATime [x] := by
  rintro pre y post h hpost
  cases pre with
  | nil =>
    rw [List.nil_append, List.cons.injEq] at h
    exact absurd h.2.symm hpost
  | cons z pre =>
    rw [List.cons_append, List.cons.injEq] at h
    exact absurd h.2.symm (List.append_ne_nil_of_right_ne_nil pre (List.cons_ne_nil y post))

theorem OneAtATime.cons {x : RouteSend} {sends : List RouteSend} (hx : x.outcome = .edgeLoss)
    (h : OneAtATime sends) : OneAtATime (x :: sends) := by
  rintro pre y post heq hpost
  cases pre with
  | nil =>
    rw [List.nil_append, List.cons.injEq] at heq
    rw [← heq.1]
    exact hx
  | cons z pre =>
    rw [List.cons_append, List.cons.injEq] at heq
    exact h pre y post heq.2 hpost

theorem sendLoop_oneAtATime {frame : RouteFrame} {next : NodeId} {ts : List RouteTry} :
    OneAtATime (sendLoop cfg me exclude frame next tried ts) := by
  induction ts generalizing frame next tried with
  | nil => exact oneAtATime_nil
  | cons t ts ih =>
    unfold sendLoop
    split
    · split
      · exact ih
      · exact oneAtATime_nil
    split
    next hlost =>
      rw [Bool.and_eq_true, decide_eq_true_eq] at hlost
      split
      · exact ih.cons hlost.2
      · exact oneAtATime_singleton _
    next => exact oneAtATime_singleton _

/-! ### What a node does with a message -/

/-- What holds of a visit: no send is to the node itself or onto the path the message came with,
one send follows another only after an edge loss, and the handlers were told that the message ends
here only at a node that can serve, where no usable peer off the path is nearer and no peer probed
named one that is. -/
structure Visit.RoutesRight (x : Visit) : Prop where
  offPath : ∀ send ∈ x.sends, send.dest ≠ x.me ∧ send.dest ∉ x.path
  oneAtATime : OneAtATime x.sends
  serving : x.isTerminal = true → x.input.afterRound.servingCapable = true
  nearest : x.isTerminal = true → ∀ id ∈ x.input.atStart.usableIds x.me x.path,
    distance x.target x.me ≤ distance x.target id
  ahead : x.isTerminal = true → ∀ r ∈ x.input.replies,
    r.1 ∈ probeTargets x.input.atStart x.me x.path → ∀ via ∈ r.2,
      distance x.target x.me ≤ distance x.target via

/-- No lookahead: whatever a peer probed named is no nearer. -/
theorem ahead_none (h : findCloserInTwoHops v me target exclude replies = none) :
    ∀ r ∈ replies, r.1 ∈ probeTargets v me exclude → ∀ via ∈ r.2,
      distance target me ≤ distance target via := by
  intro r hr hprobed via hvia
  unfold findCloserInTwoHops at h
  split at h
  next hzero =>
    rw [hzero]
    exact Nat.zero_le _
  next =>
  split at h
  next => cases h
  next =>
  by_contra hlt
  have hmiss := List.find?_eq_none.mp h r hr
  obtain ⟨p, o⟩ := r
  obtain rfl : o = some via := hvia
  simp [hprobed, not_le.mp hlt] at hmiss

/-- A lookahead that leaves no choice found nothing. -/
theorem ahead_of_choice (h : chooseAhead v me target exclude replies = none) :
    findCloserInTwoHops v me target exclude replies = none := by
  unfold chooseAhead at h
  cases hfound : findCloserInTwoHops v me target exclude replies with
  | none => rfl
  | some r =>
    have hne := (off_of_ahead hfound).1
    simp [hfound, hne] at h

theorem off_of_chooseAhead {c : Choice} (h : chooseAhead v me target exclude replies = some c) :
    Off me exclude c.next := by
  obtain ⟨r, hr, rfl⟩ := Option.map_eq_some_iff.mp h
  exact off_of_ahead (Option.filter_eq_some_iff.mp hr).1

theorem off_of_hop {choice : Option Choice} {x : RouteInput} {c : Choice}
    (hchoice : ∀ c ∈ choice, Off me exclude c.next)
    (h : hopAfterHandlers choice x me target exclude = some c) : Off me exclude c.next := by
  unfold hopAfterHandlers at h
  split at h
  next => cases h
  next =>
  split at h
  next => exact hchoice c h
  next =>
  split at h
  next => cases h
  next =>
    obtain ⟨id, hid, rfl⟩ := Option.map_eq_some_iff.mp h
    exact off_of_fallback hid

/-! ### Choices -/

section

variable (v : RoutingView) (me : NodeId) (exclude : List NodeId)

/-- The node itself is never eligible, on the path or not. -/
theorem eligible_self :
    v.eligible me (exclude ++ [me]) = v.eligible me exclude := by
  funext id
  unfold RoutingView.eligible
  by_cases h : id = me
  · simp [h]
  · simp [h]

theorem usableIds_self :
    v.usableIds me (exclude ++ [me]) = v.usableIds me exclude := by
  unfold RoutingView.usableIds RoutingView.usablePeers
  rw [eligible_self]

theorem probeTargets_self :
    probeTargets v me (exclude ++ [me]) = probeTargets v me exclude := by
  unfold probeTargets RoutingView.usablePeers
  rw [eligible_self]

end

theorem off_of_greedy (h : greedyNextHop v me target exclude = some id) : Off me exclude id :=
  off_of_usableIds (mem_of_pickCloser h)

/-- The choice of an origin is another node; without one, nothing nearer is usable or was named. -/
theorem originChoice_spec (me target : NodeId) (rpath : List NodeId) (x : RouteInput) :
    (∀ c ∈ RoutingConfig.originChoice me target rpath x, Off me [me] c.next) ∧
      (RoutingConfig.originChoice me target rpath x = none →
        greedyNextHop x.atStart me target [] = none ∧
          findCloserInTwoHops x.atStart me target [me] x.replies = none) := by
  have hself : ∀ {id : NodeId}, id ≠ me → Off me [me] id := fun h => ⟨h, by simpa using h⟩
  unfold RoutingConfig.originChoice
  split
  next f hf =>
    refine ⟨?_, fun h => by cases h⟩
    rintro c ⟨⟩
    have hp := (Option.filter_eq_some_iff.mp hf).2
    rw [Bool.and_eq_true, bne_iff_ne] at hp
    exact hself hp.1
  next =>
  split
  next id hid =>
    refine ⟨?_, fun h => by cases h⟩
    rintro c ⟨⟩
    exact hself (off_of_greedy hid).1
  next hnone => exact ⟨fun c hc => off_of_chooseAhead hc, fun h => ⟨hnone, ahead_of_choice h⟩⟩

/-- So is that of a node on the way, off the path. -/
theorem hopChoice_spec (me : NodeId) (exclude : List NodeId) (f : RouteFrame) (x : RouteInput) :
    (∀ c ∈ RoutingConfig.hopChoice me exclude f x, Off me exclude c.next) ∧
      (RoutingConfig.hopChoice me exclude f x = none →
        greedyNextHop x.atStart me f.target exclude = none ∧
          findCloserInTwoHops x.atStart me f.target exclude x.replies = none) := by
  have hsome : ∀ {id : NodeId} {c : Choice}, Off me exclude id → c.next = id →
      ((some c).filter fun c => !exclude.contains c.next) = some c := by
    rintro id c hoff rfl
    simp [hoff.2]
  unfold RoutingConfig.hopChoice
  simp only []
  split
  next id hid =>
    have hoff := off_of_reachable (Option.filter_eq_some_iff.mp hid).2
    rw [hsome hoff rfl]
    refine ⟨?_, fun h => by cases h⟩
    rintro c ⟨⟩
    exact hoff
  next =>
  split
  next id hid =>
    have hoff := off_of_reachable (Option.filter_eq_some_iff.mp hid).2
    rw [hsome hoff rfl]
    refine ⟨?_, fun h => by cases h⟩
    rintro c ⟨⟩
    exact hoff
  next =>
  split
  next id hid =>
    have hoff := off_of_greedy hid
    rw [hsome hoff rfl]
    refine ⟨?_, fun h => by cases h⟩
    rintro c ⟨⟩
    exact hoff
  next hnone =>
  cases hahead : chooseAhead x.atStart me f.target exclude x.replies with
  | none => exact ⟨by rintro c ⟨⟩, fun _ => ⟨hnone, ahead_of_choice hahead⟩⟩
  | some c =>
    have hoff := off_of_chooseAhead hahead
    rw [hsome hoff rfl]
    refine ⟨?_, fun h => by cases h⟩
    rintro c' ⟨⟩
    exact hoff

/-! ### Visits -/

/-- The origin of a message is on its path, and chooses like any node of it. -/
theorem routeMessage_sound (me target : NodeId) (type : RouteType) (rpath : List NodeId)
    (x : RouteInput) : (cfg.routeMessage me target type rpath x).RoutesRight ∧
      ∀ send ∈ (cfg.routeMessage me target type rpath x).sends,
        send.frame.hops = 1 ∧ send.frame.path = [me] ∧ send.dest ≠ me := by
  obtain ⟨hoff, hend⟩ := originChoice_spec me target rpath x
  have hsends : ∀ send ∈ (cfg.routeMessage me target type rpath x).sends,
      Off me [me] send.dest ∧ send.frame.hops = 1 ∧ send.frame.path = [me] := by
    intro send hmem
    unfold RoutingConfig.routeMessage at hmem
    simp only [] at hmem
    split at hmem
    next => cases hmem
    next c hc =>
      obtain ⟨hdest, -, -, hhops, hpath⟩ := sendLoop_sends (off_of_hop hoff hc) send hmem
      exact ⟨hdest, hhops, hpath⟩
  have hterm : (cfg.routeMessage me target type rpath x).isTerminal = true →
      RoutingConfig.originChoice me target rpath x = none ∧
        x.afterRound.servingCapable = true := by
    intro h
    have hboth : ((RoutingConfig.originChoice me target rpath x).isNone &&
        x.afterRound.servingCapable) = true := h
    rw [Bool.and_eq_true, Option.isNone_iff_eq_none] at hboth
    exact hboth
  refine ⟨⟨fun send hmem => (hsends send hmem).1, ?_, fun h => (hterm h).2, ?_, ?_⟩, ?_⟩
  · unfold RoutingConfig.routeMessage
    simp only []
    split
    · exact oneAtATime_nil
    · exact sendLoop_oneAtATime
  · intro h id hid
    have hid' : id ∈ x.atStart.usableIds me ([] ++ [me]) := hid
    rw [usableIds_self] at hid'
    exact pickCloser_none (hend (hterm h).1).1 id hid'
  · intro h
    exact ahead_none (hend (hterm h).1).2
  · intro send hmem
    exact ⟨(hsends send hmem).2.1, (hsends send hmem).2.2, (hsends send hmem).1.1⟩

/-- So does a node on the way. -/
theorem onRouteMsg_sound (me sender : NodeId) (f : RouteFrame) (x : RouteInput)
    (hpath : f.path ≠ []) : (cfg.onRouteMsg me sender f x).RoutesRight ∧
      ∀ send ∈ (cfg.onRouteMsg me sender f x).sends, f.hops + 1 < cfg.maxHops ∧
        send.frame.hops = f.hops + 1 ∧
          send.frame.path = sliceLast (cfg.pathMemOf f.type - 1) f.path ++ [me] ∧
            send.dest ∉ f.path ∧ send.dest ≠ me := by
  have hex : RoutingConfig.excluded me sender f.path = f.path ++ [me] := by
    rw [RoutingConfig.excluded, if_neg hpath]
  obtain ⟨hoff, hend⟩ := hopChoice_spec me (f.path ++ [me]) f x
  have hsends : ∀ send ∈ (cfg.onRouteMsg me sender f x).sends,
      Off me (f.path ++ [me]) send.dest ∧ f.hops + 1 < cfg.maxHops ∧ send.frame.hops = f.hops + 1 ∧
          send.frame.path = sliceLast (cfg.pathMemOf f.type - 1) f.path ++ [me] := by
    intro send hmem
    unfold RoutingConfig.onRouteMsg at hmem
    simp only [hex] at hmem
    split at hmem
    next => cases hmem
    next c hc =>
    split at hmem
    next => cases hmem
    next hmax =>
      obtain ⟨hdest, -, -, hhops, hp⟩ := sendLoop_sends (off_of_hop hoff hc) send hmem
      exact ⟨hdest, not_le.mp hmax, hhops, hp⟩
  have hterm : (cfg.onRouteMsg me sender f x).isTerminal = true →
      RoutingConfig.hopChoice me (f.path ++ [me]) f x = none ∧
        x.afterRound.servingCapable = true := by
    intro h
    have hboth : ((RoutingConfig.hopChoice me (RoutingConfig.excluded me sender f.path) f x).isNone
        && x.afterRound.servingCapable) = true := h
    rw [hex, Bool.and_eq_true, Option.isNone_iff_eq_none] at hboth
    exact hboth
  have hnotin : ∀ send ∈ (cfg.onRouteMsg me sender f x).sends,
      send.dest ≠ me ∧ send.dest ∉ f.path := by
    intro send hmem
    obtain ⟨⟨hne, hnot⟩, -⟩ := hsends send hmem
    exact ⟨hne, fun h => hnot (List.mem_append_left _ h)⟩
  refine ⟨⟨hnotin, ?_, fun h => (hterm h).2, ?_, ?_⟩, ?_⟩
  · unfold RoutingConfig.onRouteMsg
    simp only []
    split
    · exact oneAtATime_nil
    split
    · exact oneAtATime_nil
    · exact sendLoop_oneAtATime
  · intro h id hid
    have hid' : id ∈ x.atStart.usableIds me f.path := hid
    rw [← usableIds_self] at hid'
    exact pickCloser_none (hend (hterm h).1).1 id hid'
  · intro h r hr hprobed
    have hprobed' : r.1 ∈ probeTargets x.atStart me f.path := hprobed
    rw [← probeTargets_self] at hprobed'
    exact ahead_none (hend (hterm h).1).2 r hr hprobed'
  · intro send hmem
    obtain ⟨-, hmax, hhops, hp⟩ := hsends send hmem
    exact ⟨hmax, hhops, hp, (hnotin send hmem).2, (hnotin send hmem).1⟩

/-! ### Walks -/

theorem pathMem_pos (cfg : RoutingConfig) : 0 < cfg.pathMem := by
  unfold RoutingConfig.pathMem
  split
  · assumption
  · decide

theorem pathMem_le (cfg : RoutingConfig) (type : RouteType) : cfg.pathMem ≤ cfg.pathMemOf type := by
  unfold RoutingConfig.pathMemOf
  split
  · exact Nat.le_max_left _ _
  · exact le_refl _

/-- The end of a path that is kept is that of a shorter memory, never of less than `m` steps. -/
theorem sliceLast_path {m n k : Nat} (trail : List NodeId) (hk : m ≤ k) (hn : m ≤ n + 1) :
    ∃ k', m ≤ k' + 1 ∧ sliceLast n (trail.take k).reverse = (trail.take k').reverse := by
  unfold sliceLast
  split
  · exact ⟨k, by omega, rfl⟩
  refine ⟨min n k, by omega, ?_⟩
  have hdrop := drop_reverse_take n (trail.take k)
  rw [List.length_reverse, hdrop, List.take_take]

/-- What holds of a frame on its way: its hop count is the length of its walk, its path is the end
of it, and it goes to none of the last nodes of it. -/
structure RouteFlight.KeepsTrail (cfg : RoutingConfig) (f : RouteFlight) : Prop where
  started : f.trail ≠ []
  hops : f.frame.hops = f.trail.length
  bounded : f.frame.hops ≤ 1 ∨ f.frame.hops < cfg.maxHops
  path : ∃ k, cfg.pathMem ≤ k ∧ f.frame.path = (f.trail.take k).reverse
  noCycle : NoShortCycle cfg.pathMem (f.dest :: f.trail)

theorem RouteFlight.KeepsTrail.path_ne_nil {f : RouteFlight} (h : f.KeepsTrail cfg) : f.frame.path ≠ [] := by
  obtain ⟨k, hk, hpath⟩ := h.path
  have hpos := pathMem_pos cfg
  rw [hpath]
  intro hnil
  have hlen := congrArg List.length hnil
  rw [List.length_reverse, List.length_take, List.length_nil] at hlen
  have := List.length_pos_iff.mpr h.started
  omega

/-- Every node of the walk that the memory holds is on the path. -/
theorem RouteFlight.KeepsTrail.mem_path {f : RouteFlight} (h : f.KeepsTrail cfg)
    (hid : id ∈ f.trail.take cfg.pathMem) : id ∈ f.frame.path := by
  obtain ⟨k, hk, hpath⟩ := h.path
  rw [hpath, List.mem_reverse]
  exact (List.take_subset_take_left f.trail hk) hid

/-- What holds in the network. -/
structure RouteNet.AllRight (cfg : RoutingConfig) (s : RouteNet) : Prop where
  visits : ∀ x ∈ s.visits, x.RoutesRight
  flights : ∀ f ∈ s.flights, f.KeepsTrail cfg

theorem RouteNet.AllRight.flown {s : RouteNet} (h : s.AllRight cfg) {x : Visit} {trail : List NodeId}
    (hx : x.RoutesRight) (hsends : ∀ send ∈ x.sends,
      (⟨send.dest, send.frame, x.me :: trail⟩ : RouteFlight).KeepsTrail cfg) :
    (s.flown x trail).AllRight cfg := by
  refine ⟨?_, ?_⟩
  · intro y hy
    rcases List.mem_append.mp hy with hold | hnew
    · exact h.visits y hold
    · rw [List.mem_singleton.mp hnew]
      exact hx
  · intro f hf
    rcases List.mem_append.mp hf with hold | hnew
    · exact h.flights f hold
    · obtain ⟨send, hmem, rfl⟩ := List.mem_map.mp hnew
      exact hsends send hmem

theorem RouteNet.AllRight.step {s : RouteNet} (h : s.AllRight cfg) (a : RouteAct) :
    (s.step cfg a).AllRight cfg := by
  have hpos := pathMem_pos cfg
  cases a with
  | originate me target type rpath x =>
    have hsaid : (cfg.routeMessage me target type rpath x).RoutesRight ∧ _ :=
      routeMessage_sound me target type rpath x
    obtain ⟨hsound, hsends⟩ := hsaid
    refine h.flown hsound fun send hmem => ?_
    obtain ⟨hhops, hpath, hne⟩ := hsends send hmem
    refine ⟨List.cons_ne_nil _ _, hhops, .inl hhops.le, ⟨cfg.pathMem, le_refl _, ?_⟩, ?_⟩
    · rw [hpath]
      obtain ⟨m, hm⟩ := Nat.exists_eq_succ_of_ne_zero hpos.ne'
      rw [hm]
      change [me] = ([me].take (m + 1)).reverse
      rw [List.take_succ_cons, List.take_nil, List.reverse_singleton]
    · refine ⟨fun hin => ?_, noShortCycle_singleton _⟩
      exact hne (List.mem_singleton.mp (List.take_subset _ _ hin))
  | arrive i x =>
    cases hf : s.flights[i]? with
    | none =>
      have hsame : s.step cfg (.arrive i x) = s := by simp only [RouteNet.step, hf]
      rw [hsame]
      exact h
    | some f =>
      have hstep : s.step cfg (.arrive i x) =
          s.flown (cfg.onRouteMsg f.dest (f.trail.headD f.dest) f.frame x) f.trail := by
        simp only [RouteNet.step, hf]
      rw [hstep]
      have hfs := h.flights f (List.mem_of_getElem? hf)
      have hsaid : (cfg.onRouteMsg f.dest (f.trail.headD f.dest) f.frame x).RoutesRight ∧ _ :=
        onRouteMsg_sound f.dest (f.trail.headD f.dest) f.frame x hfs.path_ne_nil
      obtain ⟨hsound, hsends⟩ := hsaid
      refine h.flown hsound fun send hmem => ?_
      obtain ⟨hmax, hhops, hpath, hoff, hne⟩ := hsends send hmem
      refine ⟨List.cons_ne_nil _ _, ?_, .inr (hhops ▸ hmax), ?_, ?_⟩
      · rw [hhops, hfs.hops]
        rfl
      · -- one more node on the path, and the oldest one off it when the memory is full
        obtain ⟨k, hk, hp⟩ := hfs.path
        have hn : cfg.pathMem ≤ cfg.pathMemOf f.frame.type - 1 + 1 := by
          have := pathMem_le cfg f.frame.type
          omega
        obtain ⟨k', hk', hslice⟩ := sliceLast_path f.trail hk hn
        refine ⟨k' + 1, hk', ?_⟩
        rw [hpath, hp, hslice]
        change _ = ((f.dest :: f.trail).take (k' + 1)).reverse
        rw [List.take_succ_cons, List.reverse_cons]
      · refine ⟨fun hin => ?_, hfs.noCycle⟩
        obtain ⟨m, hm⟩ := Nat.exists_eq_succ_of_ne_zero hpos.ne'
        change send.dest ∈ (f.dest :: f.trail).take cfg.pathMem at hin
        rw [hm, List.take_succ_cons] at hin
        rcases List.mem_cons.mp hin with heq | hin
        · exact hne heq
        · refine hoff (hfs.mem_path ?_)
          exact List.take_subset_take_left f.trail (by omega) hin

/-- **Routed messages do not loop and end at a proper terminal.** In every state of every run of the
network, whatever the nodes read at each moment and whichever frames arrive: each node that had the
message sent it off the path it came with, to a second hop only after an edge loss, and told its
handlers that the message ends only where it can serve and nothing nearer is usable or was named;
no walk comes back within the path memory; and no walk is longer than the hop bound. -/
theorem routes_sound (cfg : RoutingConfig) (as : List RouteAct) :
    (∀ x ∈ (run (RouteNet.step cfg) .empty as).visits, x.RoutesRight) ∧
      ∀ f ∈ (run (RouteNet.step cfg) .empty as).flights,
        (∀ i k x y, k < cfg.pathMem → (f.dest :: f.trail)[i]? = some x →
          (f.dest :: f.trail)[i + k + 1]? = some y → x ≠ y) ∧
        f.trail.length - 1 ≤ cfg.maxHops ∧ (1 ≤ cfg.maxHops → f.trail.length ≤ cfg.maxHops) := by
  have hsound : (run (RouteNet.step cfg) .empty as).AllRight cfg := by
    refine run_invariant (I := RouteNet.AllRight cfg) (fun s a hs => hs.step a) ⟨?_, ?_⟩ as
    · exact fun x hx => absurd hx List.not_mem_nil
    · exact fun f hf => absurd hf List.not_mem_nil
  refine ⟨hsound.visits, fun f hf => ?_⟩
  have hfs := hsound.flights f hf
  have hhops := hfs.hops
  refine ⟨fun i k x y hk hx hy => hfs.noCycle.ne hk hx hy, ?_⟩
  rcases hfs.bounded with h | h <;> omega

end Axona
