import Axona.Pubsub.Handoff
import Axona.Pubsub.Step

/-! # A leave hands off what it holds

A role with a body is among the jobs of a leave, unless it is a mere holder whose root is seen
alive; the sort and the resolvers lose no job; and the first round pushes the whole of every job
with an heir, unless its topic was acknowledged before. What is not in the first round is not
promised: the bound on the leave may cut it off. -/

namespace Axona

open Library

variable {cfg : Config} {n : Node} {t : TopicId} {ρ : RoleRef}

/-! ### The jobs -/

/-- Two jobs for one role of one topic. -/
def HandoffJob.Same (j j' : HandoffJob) : Prop := j'.t = j.t ∧ j'.role = j.role

theorem HandoffJob.resolve_same (j : HandoffJob) (closest path : Option (List NodeId)) :
    j.Same (j.resolve cfg closest path) := by
  unfold resolve
  simp only []
  split
  · exact ⟨rfl, rfl⟩
  split
  · exact ⟨rfl, rfl⟩
  · exact ⟨rfl, rfl⟩

/-- Resolving again finds an heir for no job that had none, and loses none. -/
theorem HandoffJob.reresolve_spec (j : HandoffJob) (n : Node) (closest : Option (List NodeId)) :
    j.Same (j.reresolve cfg n closest) ∧
      (j.heir.isSome = true → (j.reresolve cfg n closest).heir.isSome = true) := by
  unfold reresolve
  simp only []
  split
  · split
    · exact ⟨⟨rfl, rfl⟩, id⟩
    · exact ⟨⟨rfl, rfl⟩, fun _ => rfl⟩
  · exact ⟨⟨rfl, rfl⟩, id⟩

/-- Every role that is handed off has its job. -/
theorem Node.mem_handoffJobs {replicas : RoleRef → Nat} (hrole : (t, ρ) ∈ n.axonRoles.entries)
    (hoff : n.handsOff cfg t ρ = true) :
    ∃ j ∈ n.handoffJobs cfg replicas, j.t = t ∧ j.role = ρ := by
  refine ⟨⟨t, ρ, none, none, false⟩, ?_, rfl, rfl⟩
  rw [Node.handoffJobs, List.mem_insertionSort]
  exact List.mem_map.mpr ⟨(t, ρ), List.mem_filter.mpr ⟨hrole, hoff⟩, rfl⟩

/-! ### A push -/

/-- The push carries every body of the role, and every deletion that is active. -/
def Push.CarriesAll (p : Push) (ρ : RoleRef) : Prop :=
  (∀ e ∈ (p.node.role ρ).cache, e ∈ p.msgs) ∧
    (∀ d ∈ (p.node.role ρ).activeDels p.node.now, d ∈ p.dels) ∧
      p.policy = if (p.node.role ρ).isRoot then .handoff else .replicate

/-- **The push of a round.** A job with an heir is pushed to it whole. -/
theorem Node.roundPushes_whole (n : Node) {j : HandoffJob} {heir : NodeId}
    (h : j.heir = some heir) :
    ∃ p ∈ n.roundPushes j, p.t = j.t ∧ p.dest = heir ∧ p.node = n ∧ p.CarriesAll j.role := by
  unfold Node.roundPushes
  cases hroot : (n.role j.role).isRoot with
  | true =>
    refine ⟨n.syncPush j .handoff heir, ?_, rfl, rfl, rfl, fun e he => he, fun d hd => hd, ?_⟩
    · rw [if_pos rfl, h]
      exact List.mem_singleton.mpr rfl
    · change PushPolicy.handoff = if (n.role j.role).isRoot then .handoff else .replicate
      rw [hroot, if_pos rfl]
  | false =>
    refine ⟨n.syncPush j .replicate heir, ?_, rfl, rfl, rfl, fun e he => he, fun d hd => hd, ?_⟩
    · rw [if_neg Bool.false_ne_true, h]
      exact List.mem_map.mpr ⟨heir, List.mem_cons_self, rfl⟩
    · change PushPolicy.replicate = if (n.role j.role).isRoot then .handoff else .replicate
      rw [hroot, if_neg Bool.false_ne_true]

/-! ### The run -/

namespace Leave

variable {s : Leave} {as : List LeaveAct}

/-- The first round was sent, or there was none to send. -/
def Sent (s : Leave) : Prop := s.phase ≠ .idle ∧ s.phase ≠ .resolving

/-- A job is settled: it has no heir, its topic was acknowledged before the first round, or its role
was pushed whole, as it was at some act of the run. -/
def Settled (s : Leave) (as : List LeaveAct) (j : HandoffJob) : Prop :=
  j.heir = none ∨ j.t ∈ s.early ∨
    ∃ p ∈ s.pushes, p.t = j.t ∧ p.CarriesAll j.role ∧ .advance p.node ∈ as

/-- What holds of a leave after the acts `as`. -/
structure JobsSettled (cfg : Config) (as : List LeaveAct) (s : Leave) : Prop where
  idle : s.phase = .idle → s.start = none
  jobs : ∀ n, s.start = some n → ∀ e ∈ n.axonRoles.entries, n.handsOff cfg e.1 e.2 = true →
    ∃ j ∈ s.jobs, j.t = e.1 ∧ j.role = e.2
  settled : s.Sent → ∀ j ∈ s.jobs, s.Settled as j

theorem Settled.mono {s' : Leave} {as' : List LeaveAct} {j j' : HandoffJob} (h : s.Settled as j)
    (hj : j.Same j') (hheir : j.heir = none → j'.heir = none) (hearly : s'.early = s.early)
    (hpushes : ∀ p ∈ s.pushes, p ∈ s'.pushes) (has : ∀ a ∈ as, a ∈ as') : s'.Settled as' j' := by
  rcases h with hnone | hacked | ⟨p, hp, hpt, hwhole, hact⟩
  · exact .inl (hheir hnone)
  · refine .inr (.inl ?_)
    rw [hearly, hj.1]
    exact hacked
  · refine .inr (.inr ⟨p, hpushes p hp, hpt.trans hj.1.symm, ?_, has _ hact⟩)
    rw [hj.2]
    exact hwhole

/-- Every job of a list that is changed at one place is one of the list, or that one changed. -/
theorem mem_modify {jobs : List HandoffJob} {i : Nat} {f : HandoffJob → HandoffJob}
    {j : HandoffJob} (h : j ∈ jobs.modify i f) : ∃ j₀ ∈ jobs, j = j₀ ∨ j = f j₀ := by
  obtain ⟨k, hk⟩ := List.mem_iff_getElem?.mp h
  rw [List.getElem?_modify] at hk
  obtain ⟨j₀, hj₀, heq⟩ := Option.map_eq_some_iff.mp hk
  refine ⟨j₀, List.mem_of_getElem? hj₀, ?_⟩
  split at heq
  · exact .inr heq.symm
  · exact .inl heq.symm

/-- A change that keeps topic and role of every job loses none. -/
theorem exists_modify {jobs : List HandoffJob} (i : Nat) {f : HandoffJob → HandoffJob}
    (hf : ∀ j : HandoffJob, j.Same (f j)) {j : HandoffJob} (h : j ∈ jobs) :
    ∃ j' ∈ jobs.modify i f, j'.t = j.t ∧ j'.role = j.role := by
  obtain ⟨k, hk⟩ := List.mem_iff_getElem?.mp h
  have hk' := List.getElem?_modify f i jobs k
  rw [hk] at hk'
  refine ⟨_, List.mem_of_getElem? hk', ?_⟩
  split
  · exact hf j
  · exact ⟨rfl, rfl⟩

section

variable (h : s.JobsSettled cfg as)
include h

/-- What is done to the jobs of a leave keeps all of them. -/
theorem JobsSettled.modify (i : Nat) {f : HandoffJob → HandoffJob}
    (hf : ∀ j : HandoffJob, j.Same (f j)) (hheir : s.Sent → ∀ j, j.heir = none → (f j).heir = none)
    (a : LeaveAct) : ({ s with jobs := s.jobs.modify i f } : Leave).JobsSettled cfg (as ++ [a]) := by
  refine ⟨h.idle, ?_, ?_⟩
  · intro n hn e he hoff
    obtain ⟨j, hj, ht, hρ⟩ := h.jobs n hn e he hoff
    obtain ⟨j', hj', ht', hρ'⟩ := exists_modify i hf hj
    exact ⟨j', hj', ht'.trans ht, hρ'.trans hρ⟩
  · intro hsent j hj
    obtain ⟨j₀, hj₀, hor⟩ := mem_modify hj
    have hset := h.settled hsent j₀ hj₀
    rcases hor with rfl | rfl
    · exact hset.mono ⟨rfl, rfl⟩ id rfl (fun _ hp => hp) fun _ ha => List.mem_append_left _ ha
    · exact hset.mono (hf j₀) (hheir hsent j₀) rfl (fun _ hp => hp)
        fun _ ha => List.mem_append_left _ ha

/-- What changes neither the jobs nor what was sent, and only acknowledges or goes on, is sound. -/
theorem JobsSettled.keep {s' : Leave} (a : LeaveAct)
    (hphase : s'.phase = s.phase ∨ s.Sent ∧ s'.Sent) (hstart : s'.start = s.start)
    (hjobs : s'.jobs = s.jobs) (hearly : s'.early = s.early)
    (hpushes : ∀ p ∈ s.pushes, p ∈ s'.pushes) : s'.JobsSettled cfg (as ++ [a]) := by
  have hsent : s'.Sent → s.Sent := by
    intro hs'
    rcases hphase with heq | ⟨hs, -⟩
    · unfold Sent at hs' ⊢
      rw [← heq]
      exact hs'
    · exact hs
  refine ⟨?_, ?_, ?_⟩
  · intro hidle
    rcases hphase with heq | ⟨-, hs'⟩
    · rw [hstart]
      exact h.idle (heq ▸ hidle)
    · exact absurd hidle hs'.1
  · rw [hstart, hjobs]
    exact h.jobs
  · intro hs' j hj
    rw [hjobs] at hj
    exact (h.settled (hsent hs') j hj).mono ⟨rfl, rfl⟩ id hearly hpushes
      fun _ ha => List.mem_append_left _ ha

/-- **The first round.** Once every job is resolved, each is pushed whole, or has no heir, or was
acknowledged. -/
theorem JobsSettled.firstRound (n : Node) (hphase : s.phase = .resolving) :
    (s.advance n).JobsSettled cfg (as ++ [.advance n]) := by
  unfold advance
  rw [hphase]
  simp only []
  split
  · have hjob : ∀ j ∈ s.jobs, j.heir ≠ none → j.t ∉ s.acked → j ∈ s.unacked := by
      intro j hj hheir hack
      refine List.mem_filter.mpr ⟨hj, ?_⟩
      rw [Option.isSome_iff_ne_none.mpr hheir]
      simpa using hack
    split
    next hempty =>
      -- nothing to send in a round: each job has no heir or was acknowledged
      refine ⟨by rintro ⟨⟩, h.jobs, fun _ j hj => ?_⟩
      by_cases hheir : j.heir = none
      · exact .inl hheir
      by_cases hack : j.t ∈ s.acked
      · exact .inr (.inl hack)
      have hmem := hjob j hj hheir hack
      change s.unacked.isEmpty = true at hempty
      rw [List.isEmpty_iff.mp hempty] at hmem
      cases hmem
    next =>
    refine ⟨by rintro ⟨⟩, h.jobs, fun _ j hj => ?_⟩
    by_cases hheir : j.heir = none
    · exact .inl hheir
    by_cases hack : j.t ∈ s.acked
    · exact .inr (.inl hack)
    obtain ⟨heir, hsome⟩ := Option.ne_none_iff_exists'.mp hheir
    obtain ⟨p, hp, hpt, -, hnode, hwhole⟩ := n.roundPushes_whole hsome
    refine .inr (.inr ⟨p, ?_, hpt, hwhole, ?_⟩)
    · refine List.mem_append_right _ (List.mem_flatMap.mpr ⟨j, ?_, hp⟩)
      exact hjob j hj hheir hack
    · rw [hnode]
      exact List.mem_append_right _ (List.mem_singleton.mpr rfl)
  · exact h.keep _ (.inl rfl) rfl rfl rfl fun _ hp => hp

/-- **One act.** -/
theorem JobsSettled.step (a : LeaveAct) : (s.step cfg a).JobsSettled cfg (as ++ [a]) := by
  have hsame : s.JobsSettled cfg (as ++ [a]) := h.keep a (.inl rfl) rfl rfl rfl fun _ hp => hp
  unfold Leave.step
  split
  · exact hsame
  cases a with
  | begin n replicas =>
    simp only []
    split
    · refine ⟨by rintro ⟨⟩, ?_, fun hs => absurd rfl hs.2⟩
      rintro n' ⟨⟩ e he hoff
      exact Node.mem_handoffJobs he hoff
    · exact hsame
  | resolve i closest path =>
    simp only []
    split
    next hphase =>
      refine h.modify i (fun j => ?_) (fun hs => absurd hphase hs.2) _
      split
      · exact ⟨rfl, rfl⟩
      · exact j.resolve_same closest path
    next => exact hsame
  | reresolve i n closest =>
    simp only []
    split
    · refine h.modify i (fun j => ?_) (fun _ j hj => ?_) _
      · split
        · exact (j.reresolve_spec n closest).1
        · exact ⟨rfl, rfl⟩
      · rw [hj]
        exact hj
    · exact hsame
  | advance n =>
    cases hphase : s.phase with
    | resolving => exact h.firstRound n hphase
    | idle | finished =>
      unfold Leave.advance
      rw [hphase]
      exact hsame
    | window round =>
      have hsent : s.Sent := by
        unfold Sent
        rw [hphase]
        exact ⟨by rintro ⟨⟩, by rintro ⟨⟩⟩
      unfold Leave.advance
      rw [hphase]
      simp only []
      split
      · exact h.keep _ (.inr ⟨hsent, by rintro ⟨⟩, by rintro ⟨⟩⟩) rfl rfl rfl fun _ hp => hp
      · exact h.keep _ (.inr ⟨hsent, by rintro ⟨⟩, by rintro ⟨⟩⟩) rfl rfl rfl
          fun _ hp => List.mem_append_left _ hp
    | retry round =>
      have hsent : s.Sent := by
        unfold Sent
        rw [hphase]
        exact ⟨by rintro ⟨⟩, by rintro ⟨⟩⟩
      unfold Leave.advance
      rw [hphase]
      exact h.keep _ (.inr ⟨hsent, by rintro ⟨⟩, by rintro ⟨⟩⟩) rfl rfl rfl
        fun _ hp => List.mem_append_left _ hp
  | handoffAck t held sent =>
    simp only []
    unfold onHandoffAck
    split
    · split
      · exact hsame
      · exact h.keep _ (.inl rfl) rfl rfl rfl fun _ hp => hp
    · exact h.keep _ (.inl rfl) rfl rfl rfl fun _ hp => hp
  | dispatched t =>
    simp only []
    split
    · exact h.keep _ (.inl rfl) rfl rfl rfl fun _ hp => hp
    · exact hsame
  | depart => exact h.keep _ (.inl rfl) rfl rfl rfl fun _ hp => hp

theorem jobsSettled_run (bs : List LeaveAct) :
    (run (step cfg) s bs).JobsSettled cfg (as ++ bs) := by
  induction bs generalizing s as with
  | nil =>
    rw [List.append_nil]
    exact h
  | cons b bs ih =>
    rw [List.append_cons]
    exact ih (h.step b)

end

theorem jobsSettled_idle (cfg : Config) : Leave.idle.JobsSettled cfg [] :=
  ⟨fun _ => rfl, by rintro n ⟨⟩, fun hs => absurd rfl hs.1⟩

end Leave

/-- **What a leave hands off.** In every run of a leave, whatever the tables and the lookups name
and whatever becomes of the pushes: once the first round is over, each role that held a body when
the handoff began, and was the root or not seen to have a live one, has a job; and if that has an
heir, and its topic was not acknowledged before the first round, the role was pushed with every body
and every active deletion it had at that moment. -/
theorem leave_hands_off (cfg : Config) (as : List LeaveAct) {n : Node} {t : TopicId} {ρ : RoleRef}
    (hstart : (run (Leave.step cfg) .idle as).start = some n)
    (hsent : (run (Leave.step cfg) .idle as).Sent) (hrole : n.axonRoles.get t = some ρ)
    (hcache : (n.role ρ).cache ≠ [])
    (hroot : (n.role ρ).isRoot = true ∨ n.rootAliveForLeave cfg t (n.role ρ) = false) :
    ∃ j ∈ (run (Leave.step cfg) .idle as).jobs, j.t = t ∧ j.role = ρ ∧
      (j.heir = none ∨ t ∈ (run (Leave.step cfg) .idle as).early ∨
        ∃ p ∈ (run (Leave.step cfg) .idle as).pushes, p.t = t ∧ p.CarriesAll ρ ∧
          .advance p.node ∈ as) := by
  have hsound := Leave.jobsSettled_run (Leave.jobsSettled_idle cfg) as
  rw [List.nil_append] at hsound
  have hoff : n.handsOff cfg t ρ = true := by
    unfold Node.handsOff
    rw [Bool.and_eq_true, Bool.or_eq_true, Bool.not_eq_true', Bool.not_eq_true',
      List.isEmpty_eq_false_iff]
    exact ⟨hcache, hroot⟩
  obtain ⟨j, hj, rfl, rfl⟩ := hsound.jobs n hstart (t, ρ) (OrderedMap.mem_of_get hrole) hoff
  exact ⟨j, hj, rfl, rfl, hsound.settled hsent j hj⟩

/-! ### What it leaves behind -/

/-- The role holds a body that has not expired, or an active tombstone. -/
def Role.Custody (r : Role) (now : Int) : Prop :=
  (∃ e ∈ r.cache, now - e.publishTs ≤ ttlMs) ∨ r.activeDels now ≠ []

/-- Everything is handed off: each role with custody was pushed whole, unless no heir was found. -/
def Leave.HandsOffAll (s : Leave) : Prop :=
  ∀ n, s.start = some n → ∀ t ρ, n.axonRoles.get t = some ρ → (n.role ρ).Custody n.now →
    (∃ j ∈ s.jobs, j.t = t ∧ j.heir = none) ∨ ∃ p ∈ s.pushes, p.t = t ∧ p.CarriesAll ρ

/-- A node that holds one body of the topic `7`, with the node `5` as its neighbour: as its root, or
as a backup of that node. -/
def oneTopic (isRoot : Bool) : Node :=
  (({ Node.boot (sampleWorld 2000) with
      world := { sampleWorld 2000 with neighbors := some [5] } } : Node).register
    { makeRole 7 isRoot 0 with
      cache := [⟨['m'], 1000, samplePost 1 1000, some 1⟩]
      backupOf := if isRoot then none else some 5 }).1

/-- The node `5` is named as heir, and the round is sent and acknowledged. -/
def handedOff : List LeaveAct :=
  [.begin (oneTopic true) fun _ => 0, .resolve 0 (some [5]) none, .advance (oneTopic true),
    .handoffAck 7 (some 1) (some 1), .advance (oneTopic true), .depart]

/-- The one role is pushed. -/
theorem leave_hands_off_root :
    ∃ j ∈ (run (Leave.step sampleConfig) .idle handedOff).jobs, j.t = 7 ∧ j.role = 0 ∧
      (j.heir = none ∨ 7 ∈ (run (Leave.step sampleConfig) .idle handedOff).early ∨
        ∃ p ∈ (run (Leave.step sampleConfig) .idle handedOff).pushes, p.t = 7 ∧ p.CarriesAll 0 ∧
          .advance p.node ∈ handedOff) :=
  leave_hands_off sampleConfig handedOff (n := oneTopic true) rfl ⟨by rintro ⟨⟩, by rintro ⟨⟩⟩ rfl
    (by rintro ⟨⟩) (.inl rfl)

/-- A backup whose root is a neighbour leaves. -/
def rootSeenAlive : List LeaveAct :=
  [.begin (oneTopic false) fun _ => 0, .advance (oneTopic false), .depart]

/-- An acknowledgement comes in before the first round. -/
def strayAck : List LeaveAct :=
  [.begin (oneTopic true) fun _ => 0, .handoffAck 7 none none, .resolve 0 (some [5]) none,
    .advance (oneTopic true), .depart]

/-- The bound of the leave is up before the first round. -/
def cutOff : List LeaveAct :=
  [.begin (oneTopic true) fun _ => 0, .resolve 0 (some [5]) none, .depart,
    .advance (oneTopic true)]

/-- The node is gone, and did not hand off everything. -/
def Leave.LeavesBehind (s : Leave) : Prop := s.gone = true ∧ ¬ s.HandsOffAll

/-- It did not, where the one role was not pushed and no job of it lacks an heir. -/
theorem leavesBehind_of_run {s : Leave} {isRoot : Bool} (hgone : s.gone = true)
    (hstart : s.start = some (oneTopic isRoot)) (hpushes : s.pushes = [])
    (hheir : ∀ j ∈ s.jobs, j.heir ≠ none) : s.LeavesBehind := by
  refine ⟨hgone, fun hall => ?_⟩
  have hcustody : ((oneTopic isRoot).role 0).Custody (oneTopic isRoot).now := by
    refine .inl ⟨⟨['m'], 1000, samplePost 1 1000, some 1⟩, List.mem_singleton.mpr rfl, ?_⟩
    change (2000 : Int) - 1000 ≤ ttlMs
    decide
  rcases hall _ hstart 7 0 rfl hcustody with ⟨j, hj, -, hnone⟩ | ⟨p, hp, -⟩
  · exact hheir j hj hnone
  · rw [hpushes] at hp
    cases hp

/-- **What it does not.** A backup does not push while its root is seen alive; an acknowledgement
that comes in early stands for the push; and what the bound of the leave cuts off is not sent. -/
theorem leave_leaves_behind :
    (run (Leave.step sampleConfig) .idle rootSeenAlive).LeavesBehind ∧
      (run (Leave.step sampleConfig) .idle strayAck).LeavesBehind ∧
        (run (Leave.step sampleConfig) .idle cutOff).LeavesBehind := by
  refine ⟨?_, ?_, ?_⟩
  · exact leavesBehind_of_run rfl rfl rfl (by rintro j ⟨⟩)
  · exact leavesBehind_of_run rfl rfl rfl (by decide)
  · exact leavesBehind_of_run rfl rfl rfl (by decide)

end Axona
