import Axona.Pubsub.Attachment

/-! # What moves an attachment

Answers to several SUBs are on their way at once, and the DELIVERs of several roots, late, twice or
in any order. Each step of a node is one of a few kinds as far as a topic's attachment goes; of the
DELIVERs that name a generation only two kinds move it. -/

namespace Axona

open Library

namespace Reader

/-! ### The attachment -/

/-- Where a subscriber is attached: the pinned node, the generation, and who serves it. -/
structure Place where
  pin : Option NodeId
  gen : Option Gen
  server : Option NodeId
deriving DecidableEq

def place (s : Reader) (t : TopicId) : Place :=
  ⟨s.node.upstream.get t, (s.attach.get t).bind (·.gen), (s.attach.get t).bind (·.server)⟩

/-- The number of the last attempt that was committed. -/
def committed (s : Reader) (t : TopicId) : Int := (s.attach.get t).elim 0 (·.committed)

/-- The number an attempt is remembered under. -/
def number (s : Reader) (t : TopicId) (nonce : Nonce) : Int :=
  (s.attach.get t).elim 0 (·.number nonce)

/-- The topic is attached as it was. -/
structure Stays (s s' : Reader) (t : TopicId) : Prop where
  place : s'.place t = s.place t
  committed : s'.committed t = s.committed t

theorem Stays.refl (s : Reader) (t : TopicId) : s.Stays s t := ⟨rfl, rfl⟩

/-! ### The two ways to move it -/

/-- The frame echoes the nonce of the attempt `k`, which is newer than the committed one. -/
def AnswersNewer (s : Reader) (t : TopicId) (f : DeliverFrame) (k : Int) : Prop :=
  ∃ nonce, f.attach = some nonce ∧ s.number t nonce = k ∧ 0 < k ∧ s.committed t < k

/-- The frame echoes nothing, and it is of the pinned node: the recorded root, at an epoch that is
not below the recorded one. -/
def Follows (s : Reader) (t : TopicId) (f : DeliverFrame) (sender : NodeId) (g : Gen) : Prop :=
  f.attach = none ∧ (s.place t).pin = some sender ∧ ∃ ag, (s.place t).gen = some ag
    ∧ ag.root = g.root ∧ ag.epoch ≤ g.epoch

/-- Who is to serve from now on: the child the seat is handed over to, or the sender. -/
def server' (cfg : Config) (f : DeliverFrame) (sender : NodeId) : NodeId :=
  (f.delegate.filter (· ≠ cfg.nodeId)).getD sender

/-- The frame is heeded as one that names the generation `g`. -/
def Names (cfg : Config) (f : DeliverFrame) (sender : NodeId) (g : Gen) : Prop :=
  cfg.topicLifetime = true ∧ f.sender = some sender ∧ ∃ g', f.gen = some g' ∧ genNorm g' = g

/-- **What a DELIVER does to the attachment of its topic.** -/
inductive Moved (cfg : Config) (s s' : Reader) (t : TopicId) (f : DeliverFrame) : Prop where
  | stays (h : s.Stays s' t)
  /-- The answer to a newer attempt commits it. -/
  | answered (sender : NodeId) (g : Gen) (k : Int) (hnames : Names cfg f sender g)
      (hnewer : s.AnswersNewer t f k) (hcommitted : s'.committed t = k)
      (hplace : s'.place t =
        ⟨some (server' cfg f sender), some g, some (server' cfg f sender)⟩)
  /-- The pinned node moves forward. -/
  | followed (sender : NodeId) (g : Gen) (hnames : Names cfg f sender g)
      (hfollows : s.Follows t f sender g) (hcommitted : s'.committed t = s.committed t)
      (hplace : s'.place t =
        ⟨some (server' cfg f sender), some g, some (server' cfg f sender)⟩)
  /-- A frame that names no generation, or that a node without the lifetime of topics hears, pins
  the node to its sender and nothing else. -/
  | pinned (sender : NodeId) (hsender : f.sender = some sender)
      (hnames : cfg.topicLifetime = false ∨ f.gen = none)
      (hcommitted : s'.committed t = s.committed t)
      (hplace : s'.place t = { s.place t with pin := some sender })

/-- **What a step does to the attachments.** -/
def Fresh (cfg : Config) (s : Reader) (a : World × Act) : Prop :=
  let s' := s.step cfg a
  match a.2 with
  | .emitSubscribe _ _ => ∀ t', s.Stays s' t'
  | .deliver t f => s.committed t ≤ s'.committed t ∧ Moved cfg s s' t f
    ∧ ∀ t', t' ≠ t → s.Stays s' t'
  | .forget t => (s'.place t).pin = (s.place t).pin ∧ ∀ t', t' ≠ t → s.Stays s' t'
  | .other _ _ => ∀ t', s'.attach.get t' = s.attach.get t'

variable {cfg : Config} {s : Reader} {t : TopicId}

/-! ### The bodies of a frame -/

section

variable (n : Node)

@[simp] theorem upstream_rememberKey (k : AppKey) :
    (n.rememberKey k).upstream = n.upstream := rfl

@[simp] theorem upstream_sawStamp (t : TopicId) (ts : Int) :
    (n.sawStamp t ts).upstream = n.upstream := by
  unfold Node.sawStamp
  split <;> rfl

@[simp] theorem upstream_deliverToApp (t : TopicId) (id : MsgId) (ts : Int) :
    (n.deliverToApp t id ts).upstream = n.upstream := by
  unfold Node.deliverToApp
  split
  · rfl
  · split <;> simp

@[simp] theorem upstream_deliverKillToApp (t : TopicId) (id : MsgId) (ts : Int) :
    (n.deliverKillToApp t id ts).upstream = n.upstream := by
  unfold Node.deliverKillToApp
  split
  · rfl
  simp only []
  split
  · simp
  · split <;> simp

theorem upstream_applyKill (ρ : Option RoleRef) (t : TopicId) (d : Del)
    (cut : Option Cut) (genTag : Option Gen) :
    (n.applyKill ρ t d cut genTag).2.upstream = n.upstream := by
  unfold Node.applyKill
  split
  · exact upstream_deliverKillToApp ..
  split
  · rw [upstream_deliverKillToApp]
    split <;> rfl
  · rfl

theorem upstream_relayBody (ρ : RoleRef) (m : Stamped) :
    (n.relayBody cfg ρ m).upstream = n.upstream := by
  unfold Node.relayBody Node.cachePush
  by_cases hcut : n.cutHolds ρ none = true
  · rw [if_pos hcut]
    rfl
  · rw [if_neg hcut]
    rfl

theorem upstream_tombstoned (ρ : Option RoleRef) (id : MsgId) (j : Json) :
    (n.tombstoned ρ id j).2.upstream = n.upstream := by
  unfold Node.tombstoned
  split <;> rfl

/-- **Nothing a frame carries moves a pin.** -/
theorem upstream_deliverItems (t : TopicId) (ρ : Option RoleRef) (genTag : Option Gen)
    (items : List DeliverItem) : (n.deliverItems cfg t ρ genTag items).upstream = n.upstream := by
  induction items generalizing n with
  | nil => rfl
  | cons i items ih =>
    cases i with
    | del d =>
      unfold Node.deliverItems
      rw [ih, upstream_applyKill]
    | body m =>
      have htomb := upstream_tombstoned n ρ m.msgId m.json
      unfold Node.deliverItems
      split
      · next heq =>
        rw [heq] at htomb
        rw [ih, htomb]
      next n' heq =>
      rw [heq] at htomb
      replace htomb : n'.upstream = n.upstream := htomb
      split
      · rw [ih, upstream_deliverToApp, htomb]
      split
      · rw [ih, upstream_deliverToApp, htomb]
      split
      · exact htomb
      · rw [ih, upstream_deliverToApp, upstream_relayBody, htomb]

end

/-- A frame pins the node where the decision says, and nowhere else. -/
theorem upstream_receive (s : Reader) (w : World) (t : TopicId) (pin : Option NodeId)
    (genTag : Option Gen) (items : List DeliverItem) :
    (s.receive cfg w t pin genTag items).node.upstream =
      pin.elim s.node.upstream (s.node.upstream.set t) := by
  show (Node.deliverItems cfg _ t _ genTag items).upstream = _
  rw [upstream_deliverItems]
  cases pin <;> rfl

theorem place_receive (s : Reader) (w : World) (t : TopicId) (pin : Option NodeId)
    (genTag : Option Gen) (items : List DeliverItem) :
    (s.receive cfg w t pin genTag items).place t =
      { s.place t with pin := pin.elim (s.place t).pin some } := by
  unfold place
  rw [upstream_receive]
  cases pin with
  | none => rfl
  | some p => simp [receive]

variable {t' : TopicId}

theorem stays_receive (w : World) (pin : Option NodeId) (genTag : Option Gen)
    (items : List DeliverItem) (h : t' ≠ t) : s.Stays (s.receive cfg w t pin genTag items) t' := by
  refine ⟨?_, rfl⟩
  unfold place
  rw [upstream_receive]
  cases pin with
  | none => rfl
  | some p => simp [receive, h]

/-! ### The record of a topic -/

theorem get_accept (s : Reader) (t t' : TopicId) (v : AttachDecision) (g : Gen) (server : NodeId) :
    (s.accept t v g server).attach.get t' = if t' = t then some { (s.attach.get t).getD .blank with
      gen := some g, server := some server,
      committed := match v with
        | .commit k => k
        | _ => ((s.attach.get t).getD .blank).committed } else s.attach.get t' :=
  OrderedMap.get_set ..

theorem place_accept (s : Reader) (t : TopicId) (v : AttachDecision) (g : Gen) (server : NodeId) :
    (s.accept t v g server).place t = ⟨(s.place t).pin, some g, some server⟩ := by
  unfold place
  rw [get_accept, if_pos rfl]
  rfl

theorem stays_accept (v : AttachDecision) (g : Gen) (server : NodeId) (h : t' ≠ t) :
    s.Stays (s.accept t v g server) t' := by
  constructor
  · unfold place
    rw [get_accept, if_neg h]
    rfl
  · unfold committed
    rw [get_accept, if_neg h]

theorem committed_getD (s : Reader) (t : TopicId) :
    ((s.attach.get t).getD .blank).committed = s.committed t := by
  unfold committed
  cases s.attach.get t <;> rfl

theorem committed_commit (s : Reader) (t : TopicId) (k : Int) (g : Gen) (server : NodeId) :
    (s.accept t (.commit k) g server).committed t = k := by
  unfold committed
  rw [get_accept, if_pos rfl]
  rfl

theorem committed_forward (s : Reader) (t : TopicId) (g : Gen) (server : NodeId) :
    (s.accept t .forward g server).committed t = s.committed t := by
  conv_lhs => unfold committed
  rw [get_accept, if_pos rfl]
  exact committed_getD s t

variable {g : Gen} {sender : NodeId}

/-- An epoch that is its own reading as an integer of 32 bits. -/
def SmallEpoch (g : Gen) : Prop := 0 ≤ g.epoch ∧ g.epoch < 2 ^ 31

theorem SmallEpoch.toInt32_eq (h : SmallEpoch g) : toInt32 g.epoch = g.epoch :=
  toInt32_of_nonneg h.1 h.2

/-- What is committed is a number of 32 bits, and what is recorded names a small epoch. -/
structure InRange (s : Reader) : Prop where
  committed : ∀ t, toInt32 (s.committed t) = s.committed t
  epoch : ∀ t, ∀ g ∈ (s.place t).gen, SmallEpoch g

/-- The epoch that a DELIVER names is below `2 ^ 31`. -/
def NamesSmall : Act → Prop
  | .deliver _ f => ∀ g ∈ f.gen, g.epoch < 2 ^ 31
  | _ => True

/-- So is the number of an attempt. -/
theorem toInt32_number (s : Reader) (t : TopicId) (nonce : Nonce) :
    toInt32 (s.number t nonce) = s.number t nonce := by
  unfold number Attachment.number
  cases s.attach.get t with
  | none => rfl
  | some a =>
    show toInt32 ((a.attempts.get nonce).elim 0 toInt32) = (a.attempts.get nonce).elim 0 toInt32
    cases a.attempts.get nonce with
    | none => rfl
    | some k => exact toInt32_toInt32 k

/-- The decision to commit is taken on the number of an attempt. -/
theorem of_decision_commit {nonce : Option Nonce} {k : Int}
    (hv : s.decision t g sender nonce = .commit k) :
    ∃ nonce' a, nonce = some nonce' ∧ s.attach.get t = some a ∧ a.number nonce' = k ∧ 0 < k
      ∧ toInt32 a.committed < k := by
  unfold decision at hv
  split at hv
  · cases hv
  cases ha : s.attach.get t with
  | none =>
    rw [ha] at hv
    cases nonce <;> cases hv
  | some a =>
    rw [ha] at hv
    cases nonce with
    | none =>
      simp only [] at hv
      split at hv
      · split at hv <;> cases hv
      · cases hv
    | some nonce =>
      simp only [] at hv
      split at hv
      next hk =>
        cases hv
        exact ⟨nonce, a, rfl, rfl, rfl, hk⟩
      · cases hv

theorem smallEpoch_genNorm (h : g.epoch < 2 ^ 31) : SmallEpoch (genNorm g) := by
  unfold SmallEpoch genNorm
  split <;> simp_all

variable {f : DeliverFrame}

/-- **The attempt that is committed is newer** than the one committed before. -/
theorem InRange.newer (h : s.InRange) {k : Int} (hv : s.decision t g sender f.attach = .commit k) :
    s.AnswersNewer t f k := by
  obtain ⟨nonce, a, hnonce, ha, hnumber, hpos, hlt⟩ := of_decision_commit hv
  refine ⟨nonce, hnonce, by simpa [number, ha] using hnumber, hpos, ?_⟩
  have hrange := h.committed t
  simp only [Reader.committed, ha, Option.elim_some] at hrange ⊢
  rwa [hrange] at hlt

/-- **The decision to move forward** is taken on a frame of the pinned node. -/
theorem InRange.follows (h : s.InRange) (hg : SmallEpoch g)
    (hv : s.decision t g sender f.attach = .forward) : s.Follows t f sender g := by
  unfold decision at hv
  split at hv
  · cases hv
  split at hv
  · split at hv <;> cases hv
  next a hnonce ha =>
    split at hv
    next ag pin hgen hpin =>
      split at hv
      next hok =>
        obtain ⟨rfl, hroot, hepoch⟩ := hok
        have hplace : (s.place t).gen = some ag := by simp [place, ha, hgen]
        rw [hg.toInt32_eq, (h.epoch t ag hplace).toInt32_eq] at hepoch
        exact ⟨hnonce, hpin, ag, hplace, hroot, hepoch⟩
      · cases hv
    · cases hv
  · cases hv

/-! ### The step -/

/-- An accepted frame moves the place to whoever serves from now on. -/
theorem place_onward (s : Reader) (w : World) (t : TopicId) (v : AttachDecision) (g : Gen)
    (server : NodeId) (genTag : Option Gen) (items : List DeliverItem) :
    ((s.accept t v g server).receive cfg w t (some server) genTag items).place t =
      ⟨some server, some g, some server⟩ := by
  rw [place_receive, place_accept]
  rfl

theorem stays_onward (w : World) (v : AttachDecision) (g : Gen) (server : NodeId)
    (genTag : Option Gen) (items : List DeliverItem) (h : t' ≠ t) :
    s.Stays ((s.accept t v g server).receive cfg w t (some server) genTag items) t' := by
  have hmoved := stays_accept (s := s) v g server h
  have hpinned := @stays_receive cfg (s.accept t v g server) t t' w (some server) genTag items h
  exact ⟨hpinned.place.trans hmoved.place, hpinned.committed.trans hmoved.committed⟩

/-- **A frame that is accepted.** -/
theorem InRange.onward (h : s.InRange) (w : World) (hnames : Names cfg f sender g)
    (hg : SmallEpoch g)
    (hv : s.decision t g sender f.attach ≠ .data) (genTag : Option Gen) (items : List DeliverItem) :
    let s' := (s.accept t (s.decision t g sender f.attach) g (server' cfg f sender)).receive cfg w t
      (some (server' cfg f sender)) genTag items
    s.committed t ≤ s'.committed t ∧ Moved cfg s s' t f ∧ ∀ t', t' ≠ t → s.Stays s' t' := by
  intro s'
  refine ⟨?_, ?_, fun t' ht' => stays_onward w _ g _ genTag items ht'⟩
  · show s.committed t ≤ (s.accept t _ g _).committed t
    cases hd : s.decision t g sender f.attach with
    | commit k =>
      rw [committed_commit]
      obtain ⟨-, -, -, -, hlt⟩ := h.newer hd
      exact hlt.le
    | forward => rw [committed_forward]
    | data => exact absurd hd hv
  · have hplace := @place_onward cfg s w t (s.decision t g sender f.attach) g
      (server' cfg f sender) genTag items
    cases hd : s.decision t g sender f.attach with
    | commit k =>
      refine .answered sender g k hnames (h.newer hd) ?_ hplace
      show (s.accept t _ g _).committed t = k
      rw [hd, committed_commit]
    | forward =>
      refine .followed sender g hnames (h.follows hg hd) ?_ hplace
      show (s.accept t _ g _).committed t = s.committed t
      rw [hd, committed_forward]
    | data => exact absurd hd hv

/-- **What a DELIVER does.** -/
theorem InRange.onDeliver (h : s.InRange) (w : World) (t : TopicId) (f : DeliverFrame)
    (hf : ∀ g ∈ f.gen, g.epoch < 2 ^ 31) :
    let s' := s.onDeliver cfg w t f
    s.committed t ≤ s'.committed t ∧ Moved cfg s s' t f ∧ ∀ t', t' ≠ t → s.Stays s' t' := by
  intro s'
  unfold s' Reader.onDeliver
  split
  next sender g' hlife hsender hgen =>
    have hnames : Names cfg f sender (genNorm g') := ⟨hlife, hsender, g', hgen, rfl⟩
    have hsmall : SmallEpoch (genNorm g') := smallEpoch_genNorm (hf g' hgen)
    simp only []
    split
    next child hchild =>
      have hserver : server' cfg f sender = child := by
        unfold server'
        rw [hchild]
        rfl
      split
      · exact ⟨le_rfl, .stays (.refl s t), fun t' _ => .refl s t'⟩
      next hv =>
        have honward := h.onward w hnames hsmall hv none []
        rwa [hserver] at honward
    next hnone =>
    have hserver : server' cfg f sender = sender := by
      unfold server'
      rw [hnone]
      rfl
    split
    · exact ⟨le_rfl, .stays ⟨place_receive .., rfl⟩, fun t' ht' => stays_receive w _ _ _ ht'⟩
    next hv =>
    have honward := h.onward w hnames hsmall hv
      (if (s.node.roleAt t).any fun ρ => !(s.node.role ρ).isRoot then some (genNorm g') else none)
      f.items
    rwa [hserver] at honward
  next hungated =>
  refine ⟨le_rfl, ?_, fun t' ht' => stays_receive w _ _ _ ht'⟩
  cases hsender : f.sender with
  | none => exact .stays ⟨place_receive .., rfl⟩
  | some sender =>
    refine .pinned sender hsender ?_ rfl (place_receive ..)
    cases hlife : cfg.topicLifetime with
    | false => exact .inl rfl
    | true =>
      cases hgen : f.gen with
      | none => exact .inr rfl
      | some g => exact (hungated sender g hlife hsender hgen).elim

/-- An attempt leaves the attachment alone. -/
theorem stays_emitSubscribe (s : Reader) (t t' : TopicId) (nonce : Nonce) :
    s.Stays (s.emitSubscribe cfg t nonce) t' := by
  unfold Reader.emitSubscribe
  split
  · by_cases ht : t' = t
    · subst ht
      cases ha : s.attach.get t' <;> constructor <;>
        simp [place, committed, Attachment.attempt, Attachment.blank, ha]
    · constructor <;> simp [place, committed, ht]
  · exact .refl s t'

/-- **The step.** -/
theorem InRange.fresh (h : s.InRange) (a : World × Act) (ha : NamesSmall a.2) : s.Fresh cfg a := by
  obtain ⟨w, a⟩ := a
  cases a with
  | emitSubscribe t nonce =>
    intro t'
    have hstays := @stays_emitSubscribe cfg { s with node.world := w } t t' nonce
    exact ⟨hstays.place, hstays.committed⟩
  | deliver t f => exact h.onDeliver w t f ha
  | forget t =>
    refine ⟨rfl, fun t' ht' => ?_⟩
    constructor <;> simp [step, place, Reader.committed, ht']
  | other a' hne => exact fun _ => rfl

/-- What a topic attached as it was is recorded under stays in range. -/
theorem InRange.stays (h : s.InRange) {s' : Reader} (hs : s.Stays s' t) :
    toInt32 (s'.committed t) = s'.committed t ∧ ∀ g ∈ (s'.place t).gen, SmallEpoch g := by
  rw [hs.committed, hs.place]
  exact ⟨h.committed t, h.epoch t⟩

/-- So does what a frame moves it to. -/
theorem InRange.moved (h : s.InRange) (hf : ∀ g ∈ f.gen, g.epoch < 2 ^ 31) {s' : Reader}
    (hs : Moved cfg s s' t f) :
    toInt32 (s'.committed t) = s'.committed t ∧ ∀ g ∈ (s'.place t).gen, SmallEpoch g := by
  have hnamed {sender : NodeId} {g g' : Gen} (hn : Names cfg f sender g) (hg' : g' ∈ some g) :
      SmallEpoch g' := by
    obtain ⟨-, -, g₀, hg₀, rfl⟩ := hn
    cases hg'
    exact smallEpoch_genNorm (hf g₀ hg₀)
  cases hs with
  | stays hs => exact h.stays hs
  | answered sender g k hnames hnewer hk hplace =>
    obtain ⟨nonce, -, rfl, -, -⟩ := hnewer
    rw [hk, hplace]
    exact ⟨toInt32_number s t nonce, fun g' hg' => hnamed hnames hg'⟩
  | followed sender g hnames hfollows hk hplace =>
    rw [hk, hplace]
    exact ⟨h.committed t, fun g' hg' => hnamed hnames hg'⟩
  | pinned sender hsender hnames hk hplace =>
    rw [hk, hplace]
    exact ⟨h.committed t, h.epoch t⟩

/-- **The step** keeps them in range. -/
theorem InRange.step (h : s.InRange) (a : World × Act) (ha : NamesSmall a.2) :
    InRange (s.step cfg a) := by
  suffices hall : ∀ t', toInt32 ((s.step cfg a).committed t') = (s.step cfg a).committed t'
      ∧ ∀ g ∈ ((s.step cfg a).place t').gen, SmallEpoch g from
    ⟨fun t' => (hall t').1, fun t' => (hall t').2⟩
  intro t'
  have hfresh := @InRange.fresh cfg s h a ha
  obtain ⟨w, a⟩ := a
  cases a with
  | emitSubscribe t nonce => exact h.stays (hfresh t')
  | deliver t f =>
    obtain ⟨-, hmoved, hothers⟩ := hfresh
    by_cases ht : t' = t
    · subst ht
      exact h.moved ha hmoved
    · exact h.stays (hothers t' ht)
  | forget t =>
    by_cases ht : t' = t
    · subst ht
      simp [Reader.step, Reader.committed, place, toInt32]
    · exact h.stays (hfresh.2 t' ht)
  | other a' hne =>
    unfold Reader.committed place
    rw [hfresh t']
    exact ⟨h.committed t', h.epoch t'⟩

end Reader

/-! ### Over whole runs -/

/-- **What moves an attachment**, in every run of a node in which the epochs that are named are below
`2 ^ 31`. -/
theorem attachment_fresh (cfg : Config) (w : World) (as : List (World × Reader.Act))
    (h : ∀ a ∈ as, Reader.NamesSmall a.2) :
    EachStep (Reader.step cfg) (Reader.Fresh cfg) (.boot w) as :=
  (EachStep.of_forall h).safety (I := Reader.InRange) (fun _ a hs ha => hs.step a ha)
    (fun _ a hs ha => hs.fresh a ha) ⟨fun _ => rfl, fun _ _ => nofun⟩

/-- A subscriber is attached under node `7`, to the generation of root `5`. -/
def attached : List (World × Reader.Act) :=
  [(sampleWorld 1, .emitSubscribe sampleTopicId 1),
    (sampleWorld 2, .deliver sampleTopicId ⟨some 7, some ⟨5, 1⟩, some 1, none, []⟩)]

theorem attachment_fresh_attached :
    EachStep (Reader.step sampleConfig) (Reader.Fresh sampleConfig) (.boot (sampleWorld 0))
      attached :=
  attachment_fresh sampleConfig (sampleWorld 0) attached
    (by simp [attached, Reader.NamesSmall])

/-- A DELIVER of node `8` that names no generation. -/
def unnamed : DeliverFrame := ⟨some 8, none, none, none, []⟩

/-- It pins the subscriber to its sender, though it answers nothing and is not of the pinned
node. -/
theorem pinned_unnamed :
    (((run (Reader.step sampleConfig) (.boot (sampleWorld 0)) attached).place sampleTopicId =
        ⟨some 7, some ⟨5, 1⟩, some 7⟩
      ∧ (run (Reader.step sampleConfig) (.boot (sampleWorld 0))
        (attached ++ [(sampleWorld 3, .deliver sampleTopicId unnamed)])).place sampleTopicId =
        ⟨some 8, some ⟨5, 1⟩, some 7⟩))
    ∧ ¬ ∀ (cfg : Config) (w : World) (as : List (World × Reader.Act)),
      EachStep (Reader.step cfg) (fun s a => ∀ t f, a.2 = .deliver t f →
        s.committed t ≤ (s.step cfg a).committed t
        ∧ ((s.step cfg a).place t ≠ s.place t → (∃ k, s.AnswersNewer t f k)
          ∨ ∃ sender g, Reader.Names cfg f sender g ∧ s.Follows t f sender g)) (.boot w) as := by
  have hbefore : (run (Reader.step sampleConfig) (.boot (sampleWorld 0)) attached).place
      sampleTopicId = ⟨some 7, some ⟨5, 1⟩, some 7⟩ := by decide +kernel
  have hafter : (run (Reader.step sampleConfig) (.boot (sampleWorld 0))
      (attached ++ [(sampleWorld 3, .deliver sampleTopicId unnamed)])).place sampleTopicId =
      ⟨some 8, some ⟨5, 1⟩, some 7⟩ := by decide +kernel
  refine ⟨⟨hbefore, hafter⟩, fun h => ?_⟩
  have hrun := ((eachStep_append ..).mp (h sampleConfig (sampleWorld 0)
    (attached ++ [(sampleWorld 3, .deliver sampleTopicId unnamed)]))).2.1
  obtain ⟨-, hmoved⟩ := hrun sampleTopicId unnamed rfl
  rw [run_append] at hafter
  rcases hmoved (by rw [hbefore]; exact fun heq => absurd (hafter.symm.trans heq) (by decide)) with
    ⟨k, nonce, hnonce, -⟩ | ⟨sender, g, ⟨-, -, g', hgen, -⟩, -⟩
  · cases hnonce
  · cases hgen

end Axona
