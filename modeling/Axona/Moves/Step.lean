import Axona.Moves.Effects

/-! # A step, in moves

What the act of a step may do is what the frame it handles or the handler it resumes gives it
(`Takes`). A step is a sequence of moves within that, and none of them both raises what is known of
a seat and drops a record of it. -/

namespace Axona

open Library

variable {cfg : Config} {n : Node}

/-- Does the act admit a write, or resume one? -/
def Writes (n : Node) : Act → Prop
  | .pub _ | .kill _ => True
  | .resume k _ =>
    (∃ ρ cut json, n.parked.get k = some (.publish ρ cut json))
      ∨ ∃ ρ cut kill, n.parked.get k = some (.kill ρ cut kill)
  | _ => False

/-- Does the suspended handler commit bodies or tombstones? -/
def Parked.commits : Parked → Prop
  | .publish _ _ _ | .kill _ _ _ | .ingest _ _ _ _ _ | .deliver _ _ _ _ _ => True
  | _ => False

/-- Does the act commit bodies or tombstones? -/
def Commits (n : Node) : Act → Prop
  | .resume k .checked => ∃ p, n.parked.get k = some p ∧ p.commits
  | .deliver _ _ _ _ | .replayUp _ | .handoff _ | .replicate _ _ _ | .mergeFrame _ => True
  | _ => False

/-- May the act mint an epoch? -/
def Mints : Act → Prop
  | .pub _ | .kill _ | .sub _ | .handoff _ | .metricsOn _ _ | .claimFallback _ => True
  | _ => False

/-- May the act abort the round of the role? -/
def Aborts (n : Node) : Act → RoleRef → Prop
  | .replayAck a _, ρ => n.roleAt a.topicId = some ρ
  | .step5Tick t _ _, ρ => n.roleAt t = some ρ
  | .winnerReminted t _ _ _, ρ => n.roleAt t = some ρ
  | .winnerSilent t _, ρ => n.roleAt t = some ρ
  | .resume k _, ρ => ∃ t corr, n.parked.get k = some (.forwardWinner t corr) ∧ n.roleAt t = some ρ
  | .mergeClosed c, ρ => n.roleAt c.topicId = some ρ
    ∧ ∃ k, (n.role ρ).merge.completing = some k ∧ k.corr = c.corr
  | .mergeSweep, _ => True
  | _, _ => False

/-- May the act take the role of the topic out of the table? -/
inductive Retires (cfg : Config) (n : Node) : Act → TopicId → Prop
  | reap {t held ρ} (h : n.roleAt t = some ρ) (hfree : (n.role ρ).openMerges.size = 0) :
      Retires cfg n (.reap t held) t
  | stepDown {t thin above ρ} (h : n.roleAt t = some ρ) (hdown : Moves.StepsDown n t ρ thin above) :
      Retires cfg n (.stepDown t thin above) t
  | terminate {t held targets ρ} (h : n.roleAt t = some ρ) (hroot : (n.role ρ).isRoot = true)
      (hdone : ((n.role ρ).dismantling.isSome ∧ Moves.Told (n.role ρ) targets)
        ∨ Moves.Unwanted n t ρ held) : Retires cfg n (.terminate t held targets) t
  | terminated {t g att a seats ρ} (h : n.roleAt t = some ρ)
      (hr : Moves.Released n t ρ g att seats) : Retires cfg n (.terminated t g att a seats) t
  | mergeFrame {f ρ} (h : n.roleAt f.topicId = some ρ)
      (hend : f.refused = true ∨ ∃ h, f.header = some h ∧ (n.role ρ).Overflows cfg h)
      (hs : (n.role ρ).StagedOnly f.corr) : Retires cfg n (.mergeFrame f) (n.role ρ).topicId
  | mergeSweep {t ρ corr y} (h : n.roleAt t = some ρ)
      (hopen : (n.role ρ).openPulls.get corr = some y) : Retires cfg n .mergeSweep t
  | reset (t : TopicId) : Retires cfg n .reset t

/-- What an act may do at a node. -/
inductive Takes (cfg : Config) (n : Node) : Act → Input → Prop
  | publish {k ρ cut json} (h : n.parked.get k = some (.publish ρ cut json)) :
      Takes cfg n (.resume k .checked) (.publish ρ cut json)
  | kill {k ρ cut kl} (h : n.parked.get k = some (.kill ρ cut kl)) :
      Takes cfg n (.resume k .checked) (.kill ρ cut kl)
  | body {k ρ cut m ms tally after} (h : n.parked.get k = some
    (.ingest ρ cut (m :: ms) tally after)) :
      Takes cfg n (.resume k .checked) (.body ρ m)
  | resumeRelay {k t ρ g m items m'} (h : n.parked.get k = some (.deliver t ρ g m items))
      (hm : m' = m ∨ .body m' ∈ items) : Takes cfg n (.resume k .checked) (.relay ρ m')
  | resumeCheck {k t ρ g m items m'} (h : n.parked.get k = some (.deliver t ρ g m items))
      (hm : .body m' ∈ items) : Takes cfg n (.resume k .checked) (.check ρ m')
  | resumeDel {k t ρ g m items d} (h : n.parked.get k = some (.deliver t ρ g m items))
      (hd : .del d ∈ items) : Takes cfg n (.resume k .checked) (.del ρ d)
  | relay {t up g items ρ m} (h : n.roleAt t = some ρ) (hm : .body m ∈ items) :
      Takes cfg n (.deliver t up g items) (.relay ρ m)
  | check {t up g items ρ m} (h : n.roleAt t = some ρ) (hm : .body m ∈ items) :
      Takes cfg n (.deliver t up g items) (.check ρ m)
  | del {t up g items ρ d} (h : n.roleAt t = some ρ) (hd : .del d ∈ items) :
      Takes cfg n (.deliver t up g items) (.del ρ d)
  | replayUp {f d} (hd : d ∈ f.dels) : Takes cfg n (.replayUp f) (.del (n.seatOf f.topicId) d)
  | handoff {f d} (hd : d ∈ f.dels) : Takes cfg n (.handoff f) (.del (n.seatOf f.topicId) d)
  | replicate {f g ok d} (hd : d ∈ f.dels) :
      Takes cfg n (.replicate f g ok) (.del (n.seatOf f.topicId) d)
  | mergeDel {f ρ d} (h : n.roleAt f.topicId = some ρ) (hd : d ∈ f.dels) :
      Takes cfg n (.mergeFrame f) (.del ρ d)
  | pub {f} : Takes cfg n (.pub f) .write
  | killWrite {f} : Takes cfg n (.kill f) .write
  | admitKill {f ρ} (hd : n.topicDecision cfg f.topicId f.arrival = .handle)
      (h : n.roleAt f.topicId = some ρ) (hroot : (n.role ρ).isRoot = false) :
      Takes cfg n (.kill f) (.admitKill ρ)
  | mergeFrame {f} : Takes cfg n (.mergeFrame f) .transfer
  | mergeIngest {k r ρ cut ms tally corr y tail}
      (h : n.parked.get k = some (.ingest ρ cut ms tally (.merge corr y tail))) :
      Takes cfg n (.resume k r) .transfer
  | beacon {root topics t raw} (h : (t, raw) ∈ topics) :
      Takes cfg n (.beacon root topics) (.beacon t root (beaconEpoch raw))
  | verify {t closest} : Takes cfg n (.verify t closest) (.plant t closest)
  | evict {t root e} : Takes cfg n (.evict t root e) (.convict t root e)
  | mint {a} (h : Mints a) : Takes cfg n a .mint
  | remint {f ρ} (h : n.roleAt f.topicId = some ρ) (hs : (n.role ρ).staging.isSome)
      (hroot : (n.role ρ).isRoot = true) : Takes cfg n (.sub f) (.remint ρ)
  | yield {a} (h : ¬Writes n a) (hpull : ∀ q, a ≠ .mergePull q) : Takes cfg n a .yield
  | forget {a} : Takes cfg n a .forget
  | round {a} (h : ¬Commits n a) : Takes cfg n a .round
  | retire {a t} (h : Retires cfg n a t) : Takes cfg n a (.retire t)
  | complete {f b ρ} (hb : f.merge = some b) (h : n.completes cfg ρ f.subscriber f.arrival.via b) :
      Takes cfg n (.sub f) (.unpin ρ)
  | unpin {a ρ} (h : Aborts n a ρ) : Takes cfg n a (.unpin ρ)
  | close {a ρ corr} (h : Aborts n a ρ) : Takes cfg n a (.close ρ corr)
  | decline {q ρ} (h : n.roleAt q.topicId = some ρ)
      (hoff : ∀ x, (n.role ρ).openMerges.get q.corr = some x → (n.exports.get x).state = .offered) :
      Takes cfg n (.mergePull q) (.close ρ q.corr)
  | bind {q ρ} (h : n.roleAt q.topicId = some ρ) (hroot : (n.role ρ).isRoot = true) :
      Takes cfg n (.mergePull q) (.bind ρ)
  | disown {t g att a seats ρ} (h : n.roleAt t = some ρ) :
      Takes cfg n (.terminated t g att a seats) (.disown ρ)
  | pull {o ρ} (h : n.roleAt o.topicId = some ρ ∨ ρ = n.roles.next) :
      Takes cfg n (.mergeOffer o) (.pull ρ)
  | tally {k r} : Takes cfg n (.resume k r) .tally
  | pin {a ρ} (h : Aborts n a ρ) : Takes cfg n a (.pin ρ)
  | flip {a second} : Takes cfg n (.replayAck a second) .flip
  | flipTick {t corr second} : Takes cfg n (.step5Tick t corr second) .flip
  | defer {a second ρ} (h : n.roleAt a.topicId = some ρ) :
      Takes cfg n (.replayAck a second) (.defer ρ a.corr)
  | late {k t ρ g m items} (h : n.parked.get k = some (.deliver t ρ g m items))
      (hstale : Moves.Stale cfg n t ρ m) : Takes cfg n (.resume k .checked) (.late ρ m)

/-- The sweep leaves a topic its role, unless it finds a pull into it. -/
theorem Moves.mergeSweep {P : Input → Prop} (hwf : n.Wf) (hy : P .yield) (hf : P .forget)
    (hc : ∀ ρ, MayAbort P ρ) (hpull : ∀ ρ, ¬P (.pull ρ))
    (hr : ∀ t ρ corr y, n.roleAt t = some ρ → (n.role ρ).openPulls.get corr = some y →
      P (.retire t)) : Moves cfg P n (n.mergeSweep cfg) := by
  refine List.foldlRecOn (motive := fun m => Moves cfg P n m) _ _ .refl ?_
  rintro m hm ⟨t, ρ⟩ he
  have hat : n.roleAt t = some ρ := OrderedMap.get_of_mem he
  obtain ⟨hmade, htopic⟩ := hwf.registered t ρ hat
  -- no pull is opened, so one that is found was there when the sweep began
  have hkept {k : Node} (hk : Moves cfg P m k) := moves_preserve
    (I := fun k : Node => ρ < k.roles.next ∧ (k.role ρ).topicId = t
      ∧ ∀ corr y, (k.role ρ).openPulls.get corr = some y → (n.role ρ).openPulls.get corr = some y)
    (fun k k' h hk => ⟨hk.1.trans_le h.roles_next, (h.topicId hk.1).trans hk.2.1, fun corr y ho =>
      (h.openPulls ho).elim (hk.2.2 corr y) fun hnew => absurd hnew.2.2.2.2 (hpull ρ)⟩)
    (hm.trans hk) ⟨hmade, htopic, fun _ _ ho => ho⟩
  refine hm.trans (sweepRole hy hf (hc ρ) ?_)
  rintro k hk ⟨l, corr, y, hl, hopen⟩
  rw [(hkept hk).2.1]
  exact hr t ρ corr y hat ((hkept hl).2.2 corr y hopen)

/-- A suspended handler runs on within what it holds on to. -/
theorem resume_moves {P : Input → Prop} {k : Nat} {r : Resume}
    (hP : ∀ i, Takes cfg n (.resume k r) i → i.raises = false → P i) :
    Moves cfg P n (n.resume cfg k r) := by
  have hf : P .forget := hP _ .forget rfl
  unfold Node.resume
  cases hp : n.parked.get k with
  | none => exact .refl
  | some p =>
    have hfree : Moves cfg P n { n with parked := n.parked.delete k } := Moves.one (.unpark k)
    refine hfree.trans ?_
    have hy (hw : ¬Writes n (.resume k r)) : P .yield := hP _ (.yield hw (by rintro _ ⟨⟩)) rfl
    have hnot (h1 : ∀ ρ cut json, p ≠ .publish ρ cut json) (h2 : ∀ ρ cut kl, p ≠ .kill ρ cut kl) :
        ¬Writes n (.resume k r) := by
      rintro (⟨ρ, cut, json, h⟩ | ⟨ρ, cut, kl, h⟩)
      · exact h1 ρ cut json (Option.some.inj (hp.symm.trans h))
      · exact h2 ρ cut kl (Option.some.inj (hp.symm.trans h))
    set m := { n with parked := n.parked.delete k }
    -- a handler resumed with what it does not wait for does nothing
    cases p with
    | publish ρ cut json =>
      cases r with
      | checked =>
        exact Moves.resumePublish (hP _ (.publish hp) rfl)
      | _ => exact .refl
    | kill ρ cut kl =>
      cases r with
      | checked =>
        exact Moves.resumeKill (hP _ (.kill hp) rfl)
      | _ => exact .refl
    | stamped ρ id =>
      cases r with
      | checked => exact Moves.send _
      | _ => exact .refl
    | ingest ρ cut msgs tally after =>
      cases r with
      | checked =>
        refine Moves.resumeIngest ?_ ?_
        · cases after with
          | done => exact trivial
          | handoff leaver => exact ⟨hy (hnot (by rintro _ _ _ ⟨⟩) (by rintro _ _ _ ⟨⟩)), hf⟩
          | merge corr y tail => exact ⟨hP _ (.mergeIngest hp) rfl, hP _ .tally rfl⟩
        · rintro m ms rfl
          exact hP _ (.body hp) rfl
      | _ => exact .refl
    | ack ρ corr y tail =>
      cases r with
      | checked =>
        exact Moves.mergeAck (hP _ .tally rfl) ..
      | _ => exact .refl
    | bound ρ corr x =>
      cases r with
      | checked =>
        exact Moves.boundDigest ..
      | _ => exact .refl
    | offered x =>
      cases r with
      | reached b =>
        exact Moves.exportAside rfl rfl
      | _ => exact .refl
    | deliver t ρ g e items =>
      cases r with
      | checked =>
        refine Moves.resumeDeliver (hP _ (.resumeRelay hp (.inl rfl)) rfl)
          (fun hs => hP _ (.late hp (hs.of_tables rfl rfl)) rfl) ?_
        rintro ρ' ⟨⟩
        exact ⟨fun m' hm => ⟨hP _ (.resumeRelay hp (.inr hm)) rfl, hP _ (.resumeCheck hp hm) rfl⟩,
          fun d hd => hP _ (.resumeDel hp hd) rfl⟩
      | _ => exact .refl
    | forward t dest rec =>
      cases r with
      | verdict v =>
        have hyield : P .yield := hy (hnot (by rintro _ _ _ ⟨⟩) (by rintro _ _ _ ⟨⟩))
        exact Moves.forwardVerdict hyield hf v
      | _ => exact .refl
    | forwardWinner t corr =>
      cases r with
      | verdict v =>
        refine Moves.winnerVerdict _ _ _ fun ρ hρ => ?_
        have ha : Aborts n (.resume k (.verdict v)) ρ := ⟨t, corr, hp, hρ⟩
        exact ⟨hP _ (.round id) rfl, hP _ (.unpin ha) rfl, fun _ => hP _ (.close ha) rfl⟩
      | _ => exact .refl

variable {w : World} {a : Act}

theorem Aborts.of_world {ρ : RoleRef} (h : Aborts { n with world := w } a ρ) : Aborts n a ρ := by
  cases a <;> exact h

theorem Retires.of_world {t : TopicId} (h : Retires cfg { n with world := w } a t) :
    Retires cfg n a t := by
  cases h with
  | reap h hfree => exact .reap h hfree
  | stepDown h hdown => exact .stepDown h ⟨hdown.closed, hdown.child, hdown.thin, hdown.above⟩
  | terminate h hroot hdone =>
    exact .terminate h hroot (hdone.imp_right fun h => ⟨h.closed, h.empty, h.demand⟩)
  | terminated h hr =>
    exact .terminated h ⟨hr.notRoot, hr.named, hr.empty, hr.backup, hr.demand⟩
  | mergeFrame h hend hs => exact .mergeFrame h hend hs
  | mergeSweep h hopen => exact .mergeSweep h hopen
  | reset => exact .reset _

/-- The table of roles and the suspended handlers do not depend on the world. -/
theorem Takes.of_world {i : Input} (h : Takes cfg { n with world := w } a i) :
    Takes cfg n a i := by
  cases h with
  | publish h => exact .publish h
  | kill h => exact .kill h
  | body h => exact .body h
  | resumeRelay h hm => exact .resumeRelay h hm
  | resumeCheck h hm => exact .resumeCheck h hm
  | resumeDel h hd => exact .resumeDel h hd
  | relay h hm => exact .relay h hm
  | check h hm => exact .check h hm
  | del h hd => exact .del h hd
  | replayUp hd => exact .replayUp hd
  | handoff hd => exact .handoff hd
  | replicate hd => exact .replicate hd
  | mergeDel h hd => exact .mergeDel h hd
  | pub => exact .pub
  | killWrite => exact .killWrite
  | admitKill hd h hroot => exact .admitKill hd h hroot
  | mergeFrame => exact .mergeFrame
  | mergeIngest h => exact .mergeIngest h
  | beacon h => exact .beacon h
  | verify => exact .verify
  | evict => exact .evict
  | mint h => exact .mint h
  | remint h hs hroot => exact .remint h hs hroot
  | yield h hpull => exact .yield h hpull
  | forget => exact .forget
  | round h => exact .round h
  | late h hs => exact .late h (hs.of_tables rfl rfl)
  | retire h => exact .retire h.of_world
  | complete hb h => exact .complete hb h
  | unpin h => exact .unpin h.of_world
  | close h => exact .close h.of_world
  | decline h hoff => exact .decline h hoff
  | bind h hroot => exact .bind h hroot
  | disown h => exact .disown h
  | pull h => exact .pull h
  | tally => exact .tally
  | pin h => exact .pin h.of_world
  | flip => exact .flip
  | flipTick => exact .flipTick
  | defer h => exact .defer h

/-- An act within what it takes: it raises nothing, or it drops nothing. -/
theorem perform_moves (hwf : n.Wf) (a : Act) :
    Moves cfg (fun i => Takes cfg n a i ∧ i.raises = false) n (n.perform cfg a)
      ∨ Moves cfg (fun i => Takes cfg n a i ∧ i ≠ .forget) n (n.perform cfg a) := by
  have hreg (t : TopicId) (ρ : RoleRef) (h : n.roleAt t = some ρ) : ρ < n.roles.next :=
    (hwf.registered t ρ h).1
  have habort {a : Act} {ρ : RoleRef} (h : Aborts n a ρ) (hc : ¬Commits n a) :
      MayAbort (fun i => Takes cfg n a i ∧ i.raises = false) ρ :=
    ⟨⟨.round hc, rfl⟩, ⟨.unpin h, rfl⟩, fun _ => ⟨.close h, rfl⟩⟩
  cases a with
  | resume k r => exact .inl (resume_moves fun i hi hne => ⟨hi, hne⟩)
  | pub f =>
    cases hhold : (n.holdIntercept cfg f.topicId .pub f.arrival f.holdFwd).1 with
    | true =>
      exact .inl (Moves.onPub ⟨.pub, rfl⟩ (hreg _) (fun _ => ⟨.forget, rfl⟩) (by simp [hhold]))
    | false =>
      exact .inr (Moves.onPub ⟨.pub, nofun⟩ (hreg _) (by simp [hhold]) fun _ => ⟨.mint trivial,
        nofun⟩)
  | kill f =>
    cases hhold : (n.holdIntercept cfg f.topicId .kill f.arrival f.holdFwd).1 with
    | true =>
      exact .inl (Moves.onKill ⟨.killWrite, rfl⟩ (hreg _)
        (fun hd ρ h hroot => ⟨.admitKill hd h hroot, rfl⟩) (fun _ => ⟨.forget, rfl⟩)
          (by simp [hhold]))
    | false =>
      exact .inr (Moves.onKill ⟨.killWrite, nofun⟩ (hreg _)
        (fun hd ρ h hroot => ⟨.admitKill hd h hroot, nofun⟩) (by simp [hhold]) fun _ =>
          ⟨.mint trivial, nofun⟩)
  | sub f =>
    cases hhold : (n.holdIntercept cfg f.topicId .sub f.arrival f.holdFwd).1 with
    | true =>
      exact .inl (Moves.onSub ⟨.yield id (by rintro _ ⟨⟩), rfl⟩ (fun _ => ⟨.forget, rfl⟩)
        (by simp [hhold]) (by simp [hhold]) fun m ρ b hm hb h => ⟨.complete hb (Moves.completes_before hm h), rfl⟩)
    | false =>
      exact .inr (Moves.onSub ⟨.yield id (by rintro _ ⟨⟩), nofun⟩ (by simp [hhold])
        (fun _ => ⟨.mint trivial, nofun⟩) (fun _ ρ h hs hroot => ⟨.remint h hs hroot, nofun⟩)
        fun m ρ b hm hb h => ⟨.complete hb (Moves.completes_before hm h), nofun⟩)
  | deliver t up g items =>
    refine .inl (Moves.onDeliver ?_)
    intro ρ hρ
    exact ⟨fun m hm => ⟨⟨.relay hρ hm, rfl⟩, ⟨.check hρ hm, rfl⟩⟩, fun d hd => ⟨.del hρ hd, rfl⟩⟩
  | replayUp f => exact .inl (Moves.onReplayUp fun d hd => ⟨.replayUp hd, rfl⟩)
  | handoff f =>
    exact .inr (Moves.onHandoff ⟨.mint trivial, nofun⟩ fun d hd => ⟨.handoff hd, nofun⟩)
  | replicate f g ok => exact .inl (Moves.onReplicate fun d hd => ⟨.replicate hd, rfl⟩)
  | adopt t parent => exact .inl (Moves.onAdopt ⟨.yield id (by rintro _ ⟨⟩), rfl⟩ t parent)
  | metricsOn t a =>
    exact .inr (Moves.onMetricsOn ⟨.yield id (by rintro _ ⟨⟩), nofun⟩ ⟨.mint trivial, nofun⟩ t a)
  | beacon root topics =>
    exact .inr (Moves.onRootBeacon ⟨.yield id (by rintro _ ⟨⟩), nofun⟩ fun e he =>
      ⟨.beacon he, nofun⟩)
  | verify t closest =>
    exact .inl (Moves.verifyRoot ⟨.yield id (by rintro _ ⟨⟩), rfl⟩ ⟨.verify, rfl⟩)
  | peerDied dead => exact .inl (Moves.pubsubPeerDied ⟨.forget, rfl⟩ dead)
  | expireBeacons => exact .inl (Moves.one (.dropBeacons _ ⟨.forget, rfl⟩))
  | evict t root e => exact .inl (Moves.flightEvict ⟨.forget, rfl⟩ ⟨.evict, rfl⟩)
  | mergeOffer o =>
    exact .inl (Moves.onMergeOffer ⟨.yield id (by rintro _ ⟨⟩), rfl⟩ o fun ρ h => ⟨.pull h, rfl⟩)
  | mergePull q =>
    exact .inl (Moves.mergeAnswerPull ⟨.round id, rfl⟩ q (fun ρ h hoff => ⟨.decline h hoff, rfl⟩)
      fun ρ h hroot => ⟨.bind h hroot, rfl⟩)
  | mergeFrame f =>
    exact .inl (Moves.mergeIngestFrame f ⟨.mergeFrame, rfl⟩ ⟨.forget, rfl⟩
      (fun ρ h hend hs => ⟨.retire (.mergeFrame h hend hs), rfl⟩) fun ρ hρ d hd => ⟨.mergeDel hρ hd,
        rfl⟩)
  | replayAck a s =>
    exact .inl (Moves.onReplayAck ⟨.yield id (by rintro _ ⟨⟩), rfl⟩ ⟨.forget, rfl⟩ a s fun ρ h =>
      ⟨⟨habort h id, ⟨.pin h, rfl⟩, ⟨.flip, rfl⟩⟩, ⟨.defer h, rfl⟩⟩)
  | mergeClosed c =>
    refine .inl (Moves.onMergeClosed c fun ρ k hρ hk hcorr => ?_)
    have h := habort (a := .mergeClosed c) ⟨hρ, k, hk, hcorr⟩ id
    exact ⟨h.mayEnd _, h.unpin⟩
  | mergeSweep =>
    exact .inl (Moves.mergeSweep hwf ⟨.yield id (by rintro _ ⟨⟩), rfl⟩ ⟨.forget, rfl⟩
      (fun ρ => habort trivial id) (by rintro ρ ⟨⟨⟩, -⟩)
      fun t ρ corr y h hopen => ⟨.retire (.mergeSweep h hopen), rfl⟩)
  | step5Tick t corr s =>
    exact .inl (Moves.step5Tick ⟨.yield id (by rintro _ ⟨⟩), rfl⟩ t corr s
      (fun ρ h => ⟨habort h id, ⟨.pin h, rfl⟩, ⟨.flipTick, rfl⟩⟩) fun ρ x => hwf.deferred ρ corr x)
  | winnerReminted t root corr e =>
    exact .inl (Moves.winnerReminted ⟨.yield id (by rintro _ ⟨⟩), rfl⟩ t root corr e fun ρ h =>
      habort h id)
  | winnerSilent t corr =>
    exact .inl (Moves.winnerVerdict t corr .failed fun ρ h => habort (a :=
      .winnerSilent t corr) h id)
  | expire t => exact .inl (Moves.expireRole t)
  | reap t held =>
    exact .inl (Moves.reap ⟨.forget, rfl⟩ t held fun ρ h hfree => ⟨.retire (.reap h hfree), rfl⟩)
  | retireIdleBackup t idle => exact .inl (Moves.retireIdleBackup t idle)
  | claimFallback t => exact .inr (Moves.claimFallback ⟨.mint trivial, nofun⟩ t)
  | readRepair t => exact .inl (Moves.readRepair t)
  | pruneHighWater => exact .inl (Moves.one (.prune ⟨.forget, rfl⟩))
  | standbyLease t => exact .inl (Moves.standbyLeaseSweep t)
  | terminate t held targets =>
    exact .inl (Moves.terminationSweep ⟨.forget, rfl⟩ t held targets
      fun ρ h hroot hdone => ⟨.retire (.terminate h hroot hdone), rfl⟩)
  | terminated t g att a s =>
    exact .inl (Moves.onTopicTerminated ⟨.forget, rfl⟩ t g att a s
      (fun ρ h => ⟨.disown h, rfl⟩) fun ρ h hr => ⟨.retire (.terminated h hr), rfl⟩)
  | stepDown t thin above =>
    exact .inl (Moves.stepDownChild ⟨.forget, rfl⟩ t thin above
      fun ρ h hdown => ⟨.retire (.stepDown h hdown), rfl⟩)
  | rehome t sender next => exact .inl (Moves.onRehome t sender next)
  | subscribe t since latest => exact .inl (Moves.pubsubSubscribe t since latest)
  | unsubscribe t => exact .inl (Moves.pubsubUnsubscribe t)
  | resetTopic t => exact .inl (Moves.pubsubResetTopicConsumption t)
  | reset => exact .inl (Moves.resetState ⟨.forget, rfl⟩ fun t => ⟨.retire (.reset t), rfl⟩)

/-! ### Runs -/

theorem Node.Wf.world (h : n.Wf) (w : World) : Node.Wf { n with world := w } :=
  ⟨h.registered, h.made, h.single, h.offered, h.deferred⟩

/-- **The rule for a step.** What the moves within an act preserve, the step preserves, once the
new world is read. -/
theorem step_rule {I : Node → Prop} (hwf : n.Wf)
    (hmove : ∀ {P : Input → Prop} {m m' : Node}, (∀ i, P i → Takes cfg n a i) →
      (P .forget → ∀ i, i.raises = true → ¬P i) → m.Wf → Move cfg P m m' → I m → I m')
    (hI : I { n with world := w }) : I (n.step cfg (w, a)) := by
  have hrun {P : Input → Prop} (hP : ∀ i, P i → Takes cfg n a i) (hex : P .forget → ∀ i,
    i.raises = true → ¬P i) (h : Moves cfg P { n with world := w } (n.step cfg (w, a))) :
      (n.step cfg (w, a)).Wf ∧ I (n.step cfg (w, a)) :=
    moves_preserve (I := fun m => m.Wf ∧ I m)
      (fun m m' h hm => ⟨hm.1.move h, hmove hP hex hm.1 h hm.2⟩) h ⟨hwf.world w, hI⟩
  rcases @perform_moves cfg _ (hwf.world w) a with h | h
  · refine (hrun (fun i hi => hi.1.of_world) ?_ h).2
    intro _ i hi hPi
    rw [hPi.2] at hi
    cases hi
  · refine (hrun (fun i hi => hi.1.of_world) ?_ h).2
    intro hf
    exact absurd rfl hf.2

theorem Node.Wf.step (hwf : n.Wf) (a : World × Act) : (n.step cfg a).Wf :=
  step_rule hwf (fun _ _ hm h _ => hm.move h) (hwf.world a.1)

theorem Node.boot_wf (w : World) : (Node.boot w).Wf := by
  have hopen (ρ : RoleRef) (corr : Corr) : ((Node.boot w).role ρ).openMerges.get corr = none := rfl
  refine ⟨fun t ρ h => ?_, fun ρ corr x h => ?_, fun ρ ρ' corr corr' x h => ?_, fun x _ => rfl,
    fun ρ corr x h => ?_⟩
  · cases h
  all_goals
    rw [hopen] at h
    cases h

/-- Every node that runs is well formed. -/
theorem run_wf (w : World) (as : Run) : (run (Node.step cfg) (Node.boot w) as).Wf :=
  run_invariant (fun _ a h => h.step a) (Node.boot_wf w) as

end Axona
