import Axona.Moves.RepairPlane

/-! # What a move leaves behind

One lemma for each part of a node says all that a move can do to it: to a role, to the table of
roles, to an export record, to a pull, to the suspended handlers, to the records of the election
and to the journal. The invariants are read off these. -/

namespace Axona

open Library OrderedMap

variable {cfg : Config} {P : Input → Prop} {n n' : Node}

/-! ### A role -/

/-- What a move makes of one role. -/
inductive RoleEffect (cfg : Config) (P : Input → Prop) (n n' : Node) (ρ : RoleRef) : Prop
  | same (h : (n'.role ρ).core = (n.role ρ).core)
  | move {es} (h : RoleMove cfg P n ρ (n'.role ρ) es) (hj : n'.journal = es ++ n.journal)
  | fresh (hρ : ρ = n.roles.next) {t : TopicId} {b : Bool} {e : Int}
      (h : (n'.role ρ).core = { (makeRole t b n.now).core with epoch := e })
  | retire (h : (n'.role ρ).core = { (n.role ρ).core with
      retired := true, gen := toInt32 (n.role ρ).gen + 1 })
  | offer {t : TopicId} {corr : Corr} (hat : n.roleAt t = some ρ) (hfree :
    (n.role ρ).merge.gate = none ∨ (n.role ρ).openMerges.get corr = none)
      (hx : n'.exports.next = n.exports.next + 1)
      (hm : (n'.exports.get n.exports.next).state = .offered)
      (hothers : ∀ ρ' ≠ ρ, (n'.role ρ').core = (n.role ρ').core)
      (h : (n'.role ρ).core = { (n.role ρ).core with
        openMerges := (n.role ρ).openMerges.set corr n.exports.next })
  | bind {x : ExportRef} {g : Gate} (hP : P .round) (hroot : (n.role ρ).isRoot = true)
      (hgate : (n.role ρ).merge.gate = none) (hopen : (n.role ρ).openMerges.get g.corr = some x)
      (hoff : (n.exports.get x).state = .offered)
      (h : (n'.role ρ).core = { (n.role ρ).core with gate := some g, gen := toInt32 (n.role ρ).gen + 1 })
      (hbind : P (.bind ρ))
  | endRound {corr : Corr} (hP : MayEnd P ρ corr ∨ (n.role ρ).merge.gate = none)
      (hgen : (n'.role ρ).gen = (n.role ρ).gen ∨ P (.bind ρ))
      (h : (n.role ρ).EndsRound (n'.role ρ) corr)
  | ungate (hP : P .round) (hfree : ∀ g x, (n.role ρ).merge.gate = some g →
        (n.role ρ).openMerges.get g.corr = some x → (n.exports.get x).state ≠ .bound)
      (h : (n'.role ρ).core = { (n.role ρ).core with gate := none })
  | flip {corr : Corr} {x : ExportRef} (hP : P .yield) (hroot : (n.role ρ).isRoot = true)
      (hopen : (n.role ρ).openMerges.get corr = some x) (hbound : (n.exports.get x).state = .bound)
      (hlease : (n.exports.get x).leaseOk n.world) (hacked : n.Acked ρ corr x)
      (hj : n'.journal = .transition ρ (n.role ρ) false (.mergeStep5 corr (n.exports.get x)) n.world
        :: n.journal)
      (h : (n'.role ρ).core = { (n.role ρ).core with isRoot := false })
      (hflip : P .flip)
  | openPull {corr : Corr} (hy : n'.pulls.next = n.pulls.next + 1)
      (hp : (n'.pulls.get n.pulls.next).owed = ∅)
      (hothers : ∀ ρ' ≠ ρ, (n'.role ρ').core = (n.role ρ').core)
      (h : (n'.role ρ).core = { (n.role ρ).core with
        openPulls := (n.role ρ).openPulls.set corr n.pulls.next })
      (hpull : P (.pull ρ))

theorem Move.roleEffect (h : Move cfg P n n') (ρ : RoleRef) : RoleEffect cfg P n n' ρ := by
  have hkept {m : Node} {ρ' : RoleRef} (f : Role → Role) (hm : m.roles = n.roles.modify ρ' f)
      (hne : ρ ≠ ρ') : RoleEffect cfg P n m ρ := by
    refine .same (congrArg Role.core ?_)
    rw [Node.role, hm, Heap.get_modify_of_ne _ _ hne, Node.role]
  have hmod {m : Node} (f : Role → Role) (hm : m.roles = n.roles.modify ρ f) :
      m.role ρ = f (n.role ρ) := by
    rw [Node.role, hm, Heap.get_modify_self, Node.role]
  have hsame {m : Node} (hm : m.roles = n.roles) : RoleEffect cfg P n m ρ := by
    refine .same (congrArg Role.core ?_)
    rw [Node.role, hm, Node.role]
  have hborn {m : Node} (t : TopicId) (b : Bool) (e : Int) (r : Role)
      (hr : r.core = { (makeRole t b n.now).core with epoch := e })
      (hm : m.roles = (n.roles.alloc r).1) : RoleEffect cfg P n m ρ := by
    by_cases hρ : ρ = n.roles.next
    · refine .fresh hρ ?_ (t := t) (e := e) (b := b)
      rw [Node.role, hm, Heap.get_alloc, if_pos hρ, hr]
    · refine .same (congrArg Role.core ?_)
      rw [Node.role, hm, Heap.get_alloc, if_neg hρ, Node.role]
  cases h with
  | side h => exact hsame (congrArg NodeCore.roles h)
  | @role ρ' r' es h =>
    by_cases hρ : ρ = ρ'
    · subst hρ
      exact .move (by rwa [hmod (fun _ => r') rfl]) rfl
    · exact hkept (fun _ => r') rfl hρ
  | register t b _ => exact hborn t false 0 { makeRole t false n.now with readHolder := b } rfl rfl
  | born t hP => exact hborn t true _ { makeRole t true n.now with epoch := succDouble (n.knownEpoch t) } rfl rfl
  | @retire t ρ' hP =>
    let f (r : Role) : Role := { r with retired := true, gen := toInt32 r.gen + 1 }
    by_cases hρ : ρ = ρ'
    · subst hρ
      exact .retire (by rw [hmod f rfl]; rfl)
    · exact hkept f rfl hρ
  | @offer t ρ' hat corr m hm hd hfree =>
    let f (r : Role) : Role := { r with openMerges := r.openMerges.set corr n.exports.next }
    by_cases hρ : ρ = ρ'
    · subst hρ
      have hget : (n.exports.alloc m).1.get n.exports.next = m := by rw [Heap.get_alloc, if_pos rfl]
      refine .offer hat hfree rfl ((congrArg Export.state hget).trans hm) (fun ρ' hne => ?_)
        (by rw [hmod f rfl]; rfl)
      exact congrArg Role.core (Heap.get_modify_of_ne n.roles f hne)
    · exact hkept f rfl hρ
  | @bind ρ' corr x r' m' g hP hroot hgate hopen hoff hcorr hr hm hb htB hd hbind =>
    by_cases hρ : ρ = ρ'
    · subst hρ
      subst hcorr
      exact .bind hP hroot hgate hopen hoff (by rw [hmod (fun _ => r') rfl]; exact hr) hbind
    · exact hkept (fun _ => r') rfl hρ
  | @endRound ρ' r' corr hP hgen h =>
    by_cases hρ : ρ = ρ'
    · subst hρ
      have hr : (n.modifyRole ρ fun _ => r').role ρ = r' := hmod (fun _ => r') rfl
      exact .endRound hP (by rw [hr]; exact hgen) (by rw [hr]; exact h)
    · exact hkept (fun _ => r') rfl hρ
  | @ungate ρ' hP h =>
    by_cases hρ : ρ = ρ'
    · subst hρ
      exact .ungate hP h (by rw [hmod Role.gateClear rfl]; rfl)
    · exact hkept Role.gateClear rfl hρ
  | @flip ρ' corr x hP hroot hopen hbound hlease hacked hflip =>
    let f (r : Role) : Role := { r with isRoot := false }
    by_cases hρ : ρ = ρ'
    · subst hρ
      exact .flip hP hroot hopen hbound hlease hacked rfl (by rw [hmod f rfl]; rfl) hflip
    · exact hkept f rfl hρ
  | @openPull ρ' corr p hp hpull =>
    let f (r : Role) : Role := { r with openPulls := r.openPulls.set corr n.pulls.next }
    by_cases hρ : ρ = ρ'
    · subst hρ
      have hget : (n.pulls.alloc p).1.get n.pulls.next = p := by rw [Heap.get_alloc, if_pos rfl]
      refine .openPull rfl ((congrArg Pull.owed hget).trans hp) (fun ρ' hne => ?_)
        (by rw [hmod f rfl]; rfl) hpull
      exact congrArg Role.core (Heap.get_modify_of_ne n.roles f hne)
    · exact hkept f rfl hρ
  | @header ρ' corr y p' r' hP hopen hp hb hr =>
    by_cases hρ : ρ = ρ'
    · subst hρ
      have hpin : RoleMove cfg P n ρ r' [] := .pin _ hr (.inr hP)
      exact .move (by rw [hmod (fun _ => r') rfl]; exact hpin) rfl
    · exact hkept (fun _ => r') rfl hρ
  | @slice ρ' corr y s hP hopen =>
    by_cases hρ : ρ = ρ'
    · subst hρ
      have hpin : RoleMove cfg P n ρ ((n.role ρ).pin s) [] := .pin _ rfl (.inr hP)
      exact .move (by rw [hmod (fun r => r.pin s) rfl]; exact hpin) rfl
    · exact hkept (fun r => r.pin s) rfl hρ
  | _ => exact hsame rfl

variable {ρ : RoleRef} {r' : Role}

/-- A change of a role that only loses something and changes tombstones keeps what stays of them. -/
theorem RoleMove.kept_of_shrink (h : (n.role ρ).Shrink (Changes cfg P n ρ) r') {id : MsgId}
    {t' : Tombstone} (ht' : r'.tombstones.get id = some t') :
    ∃ t, (n.role ρ).tombstones.get id = some t ∧ t.Same t' :=
  h.kept (fun _ => ⟨rfl, rfl, rfl⟩) (fun _ _ _ hc => hc.some) ht'

/-! ### What a role stores -/

/-- The two roles hold the same bodies and the same tombstones. -/
structure Role.SameStore (r r' : Role) : Prop where
  cache : r'.cache = r.cache
  cacheIds : r'.cacheIds = r.cacheIds
  cacheBytes : r'.cacheBytes = r.cacheBytes
  tombstones : r'.tombstones = r.tombstones

theorem Role.sameStore_of_core {r : Role} {r' : RoleCore} (r'' : Role) (h : r''.core = r')
    (hcache : r'.cache = r.cache) (hids : r'.cacheIds = r.cacheIds)
    (hbytes : r'.cacheBytes = r.cacheBytes) (htombs : r'.tombstones = r.tombstones) :
    r.SameStore r'' :=
  ⟨(congrArg RoleCore.cache h).trans hcache, (congrArg RoleCore.cacheIds h).trans hids,
    (congrArg RoleCore.cacheBytes h).trans hbytes, (congrArg RoleCore.tombstones h).trans htombs⟩

/-- What a move makes of the bodies and the tombstones of a role. -/
inductive StoreEffect (cfg : Config) (P : Input → Prop) (n n' : Node) (ρ : RoleRef) : Prop
  | same (h : (n.role ρ).SameStore (n'.role ρ))
  | fresh (hρ : ρ = n.roles.next) (h : (makeRole 0 false 0).SameStore (n'.role ρ))
  | shrink (h : (n.role ρ).Shrink (Changes cfg P n ρ) (n'.role ρ))
  | disown (owner : Option Gen) (h : n'.role ρ = (n.role ρ).dropOwned owner) (hP : P (.disown ρ))
  | push {m : Entry} (hnew : (n.role ρ).superseded m.publishTs = false →
        P (.late ρ m) ∨ (n.role ρ).Fresh m.msgId m.json)
      (hj : .cached ρ (n.role ρ) m ∈ n'.journal)
      (h : n'.role ρ = (n.role ρ).push cfg.cacheMax cfg.cacheBytes m)
  | bury {d : Del} {tomb : Tombstone}
      (hP : P (.del ρ d) ∨ ((∃ cut k, P (.kill ρ cut k)) ∧ n.now ≤ tomb.killTs
        ∧ tomb.killTs ≤ (n.role ρ).lastTs))
      (hnew : (n.role ρ).tombstones.has d.msgId = false) (hts : tomb.killTs = d.killTs.getD n.now)
      (hexp : tomb.exp = n.now + ttlMs)
      (h : n'.role ρ = (n.role ρ).bury d.msgId tomb)

variable {es : List Event}

theorem RoleMove.storeEffect (h : RoleMove cfg P n ρ r' es) (hr' : n'.role ρ = r')
    (hj : n'.journal = es ++ n.journal) : StoreEffect cfg P n n' ρ := by
  cases h with
  | quiet hr | ascend _ _ _ hr _ | ascendStaged _ _ _ _ _ _ hr _ | pin _ hr | unpinAll hr =>
    exact .same (Role.sameStore_of_core _ (hr'.symm ▸ hr) rfl rfl rfl rfl)
  | shrink hr => exact .shrink (hr'.symm ▸ hr)
  | disown owner hP => exact .disown owner hr' hP
  | push _ hnew _ =>
    refine .push hnew ?_ hr'
    rw [hj]
    exact List.mem_cons_self
  | bury hP _ hnew hts hexp _ => exact .bury hP hnew hts hexp hr'
  | _ => exact .same (hr'.symm ▸ ⟨rfl, rfl, rfl, rfl⟩)

theorem Move.storeEffect (h : Move cfg P n n') (ρ : RoleRef) : StoreEffect cfg P n n' ρ := by
  cases h.roleEffect ρ with
  | move hr hj => exact hr.storeEffect rfl hj
  | fresh hρ h => exact .fresh hρ (Role.sameStore_of_core _ h rfl rfl rfl rfl)
  | endRound _ _ h =>
    refine .same ⟨?_, ?_, ?_, ?_⟩
    · exact congrArg RoleCore.cache h.rest
    · exact congrArg RoleCore.cacheIds h.rest
    · exact congrArg RoleCore.cacheBytes h.rest
    · exact congrArg RoleCore.tombstones h.rest
  | same h | retire h | offer _ _ _ _ _ h | bind _ _ _ _ _ h | ungate _ _ h | flip _ _ _ _ _ _ _ h
    | openPull _ _ _ h =>
    exact .same (Role.sameStore_of_core _ h rfl rfl rfl rfl)

/-- The topic of a role, its exchanges and the gate of its round. -/
def RoleCore.rounds (c : RoleCore) : TopicId × OrderedMap Corr ExportRef × Option Gate :=
  (c.topicId, c.openMerges, c.gate)

/-- What the life of a role object is told by. -/
def RoleCore.life (c : RoleCore) : TopicId × Bool × Option Int × Nat :=
  (c.topicId, c.retired, c.dismantling, c.dismantlingSends)

/-- **A role object ages**: it stays with its topic, and its retirement and its termination are
final. -/
structure RoleCore.Ages (c c' : RoleCore) : Prop where
  topicId : c'.topicId = c.topicId
  retired : c.retired = true → c'.retired = true
  dismantling : ∀ at', c.dismantling = some at' →
    c'.dismantling = some at' ∧ c.dismantlingSends ≤ c'.dismantlingSends
  sends : c.dismantlingSends ≤ topicTerminateTries → c'.dismantlingSends ≤ topicTerminateTries

theorem RoleCore.Ages.of_life {c c' : RoleCore} (h : c'.life = c.life) : c.Ages c' := by
  simp only [RoleCore.life, Prod.mk.injEq] at h
  obtain ⟨ht, hr, hd, hs⟩ := h
  exact ⟨ht, hr.trans, fun _ h => ⟨hd.trans h, hs.ge⟩, hs.le.trans⟩

theorem RoleCore.Ages.trans {a b c : RoleCore} (h : a.Ages b) (h' : b.Ages c) : a.Ages c where
  topicId := h'.topicId.trans h.topicId
  retired hr := h'.retired (h.retired hr)
  dismantling at' hd := by
    obtain ⟨hb, hsends⟩ := h.dismantling at' hd
    obtain ⟨hc, hsends'⟩ := h'.dismantling at' hb
    exact ⟨hc, hsends.trans hsends'⟩
  sends hs := h'.sends (h.sends hs)

section

variable (h : RoleMove cfg P n ρ r' es)
include h

/-- A change of a role keeps its topic, its exchanges and its gate. -/
theorem RoleMove.rounds : r'.core.rounds = (n.role ρ).core.rounds := by
  cases h with
  | quiet h => rw [h]
  | shrink h => exact (congrArg RoleCore.rounds h.rest :)
  | @push m cut hcut src =>
    rcases (n.role ρ).push_cases cfg.cacheMax cfg.cacheBytes m with h | h
    · rw [h]
    · exact (congrArg RoleCore.rounds h.rest :)
  | ascend _ _ _ hr _ | ascendStaged _ _ _ _ _ _ hr _ | pin _ hr | unpinAll hr =>
    exact (congrArg RoleCore.rounds hr :)
  | _ => rfl

theorem RoleMove.openMerges : r'.openMerges = (n.role ρ).openMerges :=
  congrArg (·.2.1) h.rounds

theorem RoleMove.gate : r'.merge.gate = (n.role ρ).merge.gate :=
  congrArg (·.2.2) h.rounds

/-- A change of a role keeps the table of its pulls, or ends one of them. -/
theorem RoleMove.openPulls : r'.openPulls = (n.role ρ).openPulls
      ∨ ∃ corr, r'.openPulls = (n.role ρ).openPulls.delete corr := by
  cases h with
  | quiet h => exact .inl (congrArg RoleCore.openPulls h)
  | shrink h => exact .inl (congrArg RoleCore.openPulls h.rest)
  | @push m cut hcut src =>
    rcases (n.role ρ).push_cases cfg.cacheMax cfg.cacheBytes m with h | h
    · exact .inl (by rw [h])
    · exact .inl (congrArg RoleCore.openPulls h.rest)
  | ascend _ _ _ hr _ | ascendStaged _ _ _ _ _ _ hr _ | pin _ hr | unpinAll hr =>
    exact .inl (congrArg RoleCore.openPulls hr)
  | dropPull corr | release corr => exact .inr ⟨corr, rfl⟩
  | _ => exact .inl rfl

theorem RoleMove.ages : (n.role ρ).core.Ages r'.core := by
  cases h with
  | quiet h => exact .of_life (congrArg RoleCore.life h)
  | shrink h => exact .of_life (congrArg RoleCore.life h.rest :)
  | @push m cut hcut src =>
    rcases (n.role ρ).push_cases cfg.cacheMax cfg.cacheBytes m with h | h
    · rw [h]
      exact .of_life rfl
    · exact .of_life (congrArg RoleCore.life h.rest :)
  | ascend _ _ _ hr _ | ascendStaged _ _ _ _ _ _ hr _ | pin _ hr | unpinAll hr =>
    exact .of_life (congrArg RoleCore.life hr :)
  | dismantle at' hbegins =>
    exact ⟨rfl, id, fun _ h => (nomatch hbegins.symm.trans h),
      fun _ => Nat.zero_le _⟩
  | notice h => exact ⟨rfl, id, fun _ h => ⟨h, Nat.le_succ _⟩, fun _ => h⟩
  | _ => exact .of_life rfl

end

theorem Move.roleAges (h : Move cfg P n n') (hρ : ρ < n.roles.next) :
    (n.role ρ).core.Ages (n'.role ρ).core := by
  cases h.roleEffect ρ with
  | move h _ => exact h.ages
  | fresh hnext _ => exact absurd hρ (by rw [hnext]; exact lt_irrefl _)
  | retire h =>
    rw [h]
    exact ⟨rfl, fun _ => rfl, fun _ h => ⟨h, le_rfl⟩, id⟩
  | bind _ _ _ _ _ h =>
    rw [h]
    exact ⟨rfl, id, fun _ h => ⟨h, le_rfl⟩, id⟩
  | endRound _ _ h => exact .of_life (congrArg RoleCore.life h.rest :)
  | same h | offer _ _ _ _ _ h | ungate _ _ h | flip _ _ _ _ _ _ _ h | openPull _ _ _ h =>
    exact .of_life (congrArg RoleCore.life h :)

/-- A change of a role keeps its generation, or its termination begins. -/
theorem RoleMove.gen (h : RoleMove cfg P n ρ r' es) :
    r'.gen = (n.role ρ).gen ∨ r'.dismantling.isSome = true := by
  cases h with
  | quiet h => exact .inl (congrArg RoleCore.gen h)
  | shrink h => exact .inl (congrArg RoleCore.gen h.rest)
  | @push m cut hcut src =>
    rcases (n.role ρ).push_cases cfg.cacheMax cfg.cacheBytes m with h | h
    · exact .inl (by rw [h])
    · exact .inl (congrArg RoleCore.gen h.rest)
  | ascend _ _ _ hr _ | ascendStaged _ _ _ _ _ _ hr _ | pin _ hr | unpinAll hr =>
    exact .inl (congrArg RoleCore.gen hr)
  | dismantle => exact .inr rfl
  | _ => exact .inl rfl

/-- **What moves a generation**: retirement, the begin of a termination, or a bind. -/
theorem Move.gen (h : Move cfg P n n') (hρ : ρ < n.roles.next) :
    (n'.role ρ).gen = (n.role ρ).gen ∨ (n'.role ρ).retired = true
      ∨ (n'.role ρ).dismantling.isSome = true ∨ P (.bind ρ) := by
  cases h.roleEffect ρ with
  | move h _ => exact h.gen.imp_right fun hd => .inr (.inl hd)
  | fresh hnext _ => exact absurd hρ (by rw [hnext]; exact lt_irrefl _)
  | retire h => exact .inr (.inl (congrArg RoleCore.retired h))
  | bind _ _ _ _ _ _ hbind => exact .inr (.inr (.inr hbind))
  | endRound _ hgen _ => exact hgen.imp_right fun hbind => .inr (.inr hbind)
  | same h | offer _ _ _ _ _ h | ungate _ _ h | flip _ _ _ _ _ _ _ h | openPull _ _ _ h =>
    exact .inl (congrArg RoleCore.gen h :)

/-- A change of a role that gives up no claim leaves a root a root. -/
theorem RoleMove.isRoot (h : RoleMove cfg P n ρ r' es) (hy : ¬P .yield)
    (hroot : (n.role ρ).isRoot = true) : r'.isRoot = true := by
  cases h with
  | quiet h => exact (congrArg RoleCore.isRoot h).trans hroot
  | shrink h => exact (congrArg RoleCore.isRoot h.rest).trans hroot
  | @push m cut hcut src =>
    rcases (n.role ρ).push_cases cfg.cacheMax cfg.cacheBytes m with h | h
    · rw [h]
      exact hroot
    · exact (congrArg RoleCore.isRoot h.rest).trans hroot
  | ascend _ _ _ hr _ | ascendStaged _ _ _ _ _ _ hr _ => exact congrArg RoleCore.isRoot hr
  | pin _ hr | unpinAll hr => exact (congrArg RoleCore.isRoot hr).trans hroot
  | descend hP => exact absurd hP hy
  | _ => exact hroot

theorem Move.isRoot (h : Move cfg P n n') (hρ : ρ < n.roles.next) (hy : ¬P .yield)
    (hroot : (n.role ρ).isRoot = true) : (n'.role ρ).isRoot = true := by
  cases h.roleEffect ρ with
  | move h _ => exact h.isRoot hy hroot
  | fresh hnext _ => exact absurd hρ (by rw [hnext]; exact lt_irrefl _)
  | flip hP => exact absurd hP hy
  | endRound _ _ h => exact (congrArg RoleCore.isRoot h.rest).trans hroot
  | same h | retire h | offer _ _ _ _ _ h | bind _ _ _ _ _ h | ungate _ _ h | openPull _ _ _ h =>
    exact (congrArg RoleCore.isRoot h).trans hroot

/-- A role keeps its topic, unless it is made by the move. -/
theorem Move.topicId (h : Move cfg P n n') (hρ : ρ < n.roles.next) :
    (n'.role ρ).topicId = (n.role ρ).topicId :=
  (h.roleAges hρ).topicId

/-- A record open after a move was open before it, or is the one the move made. -/
theorem Move.openMerges (h : Move cfg P n n') {corr : Corr} {x : ExportRef}
    (hopen : (n'.role ρ).openMerges.get corr = some x) : (n.role ρ).openMerges.get corr = some x
      ∨ (x = n.exports.next ∧ n'.exports.next = n.exports.next + 1 ∧ (∃ t, n.roleAt t = some ρ)
        ∧ (n'.exports.get x).state = .offered ∧ (∀ ρ' ≠ ρ, (n'.role ρ').core = (n.role ρ').core)
        ∧ ∀ corr' ≠ corr, (n'.role ρ).openMerges.get corr' = (n.role ρ).openMerges.get corr') := by
  have hkept {m : OrderedMap Corr ExportRef} (h : m = (n.role ρ).openMerges)
      (hm : m.get corr = some x) : (n.role ρ).openMerges.get corr = some x := h ▸ hm
  cases h.roleEffect ρ with
  | same h => exact .inl (hkept (congrArg RoleCore.openMerges h) hopen)
  | move h _ => exact .inl (hkept h.openMerges hopen)
  | fresh _ h =>
    have hnone : (n'.role ρ).openMerges = ∅ := congrArg RoleCore.openMerges h
    rw [hnone] at hopen
    cases hopen
  | @offer t corr' hat _ hx hm hothers h =>
    have hset : (n'.role ρ).openMerges = (n.role ρ).openMerges.set corr' n.exports.next :=
      congrArg RoleCore.openMerges h
    rw [hset, get_set] at hopen
    split at hopen
    · next hcorr =>
      cases hopen
      refine .inr ⟨rfl, hx, ⟨t, hat⟩, hm, hothers, fun corr'' hne => ?_⟩
      rw [hset, get_set, if_neg (hcorr ▸ hne)]
    · exact .inl hopen
  | @endRound corr' hP _ h =>
    rw [h.closed] at hopen
    exact .inl (of_get_delete hopen)
  | retire h | bind _ _ _ _ _ h | ungate _ _ h | flip _ _ _ _ _ _ _ h | openPull _ _ _ h =>
    exact .inl (hkept (congrArg RoleCore.openMerges h) hopen)

/-! ### The rest of a node -/

theorem Move.world (h : Move cfg P n n') : n'.world = n.world := by
  cases h with
  | side h => exact congrArg NodeCore.world h
  | _ => rfl

theorem Move.now (h : Move cfg P n n') : n'.now = n.now := congrArg World.wall h.world

/-- An entry that a move writes into the journal. -/
inductive NewEvent (cfg : Config) (P : Input → Prop) (n n' : Node) : Event → Prop
  | role {ρ : RoleRef} {r' : Role} {es : List Event} {ev : Event} (hr : n'.role ρ = r')
      (h : RoleMove cfg P n ρ r' es) (hev : ev ∈ es) : NewEvent cfg P n n' ev
  | made (ρ : RoleRef) (hρ : ρ = n.roles.next) (hnext : n'.roles.next = n.roles.next + 1) :
      NewEvent cfg P n n' (.made ρ)
  | born (t : TopicId) (hP : P .mint) :
      NewEvent cfg P n n' (.minted t (succDouble (n.knownEpoch t)))
  | heard {t : TopicId} {root : NodeId} {epoch : Int} (hP : P (.beacon t root epoch)) :
      NewEvent cfg P n n' (.heard t epoch)
  | acked {ρ : RoleRef} {corr : Corr} {x : ExportRef} {a : ReplayAck}
      (hbound : (n.exports.get x).state = .bound) (hmatch : Node.ackMatches cfg (n.exports.get x) a)
      (hfull : Node.ackFull (n.exports.get x) a) (hlease : (n.exports.get x).leaseOk n.world)
      (hat : n.roleAt a.topicId = some ρ) (hcorr : a.corr = corr) :
      NewEvent cfg P n n' (.acked ρ corr (n.exports.get x) a n.world)
  | flip {ρ : RoleRef} {corr : Corr} {x : ExportRef} (hroot : (n.role ρ).isRoot = true)
      (hopen : (n.role ρ).openMerges.get corr = some x) (hbound : (n.exports.get x).state = .bound)
      (hlease : (n.exports.get x).leaseOk n.world) (hacked : n.Acked ρ corr x)
      (hflip : P .flip) :
      NewEvent cfg P n n'
        (.transition ρ (n.role ρ) false (.mergeStep5 corr (n.exports.get x)) n.world)

section

variable (h : Move cfg P n n')
include h

/-- The journal only grows, by what the move writes into it. -/
theorem Move.journal :
    ∃ es, n'.journal = es ++ n.journal ∧ ∀ ev ∈ es, NewEvent cfg P n n' ev := by
  have hnone {m : Node} : ∀ ev ∈ ([] : List Event), NewEvent cfg P n m ev := by
    rintro ev ⟨⟩
  cases h with
  | side h => exact ⟨[], congrArg NodeCore.journal h, hnone⟩
  | @role ρ r' es h =>
    exact ⟨es, rfl, fun ev hev => .role (Node.role_modifyRole_self n ρ fun _ => r') h hev⟩
  | register t b =>
    refine ⟨[.made n.roles.next], rfl, ?_⟩
    intro ev hev
    obtain rfl := List.mem_singleton.mp hev
    exact .made n.roles.next rfl rfl
  | born t hP =>
    refine ⟨[.minted t (succDouble (n.knownEpoch t)), .made n.roles.next], rfl, ?_⟩
    intro ev hev
    rcases List.mem_cons.mp hev with rfl | hev
    · exact .born t hP
    obtain rfl := List.mem_singleton.mp hev
    exact .made n.roles.next rfl rfl
  | @heard t root epoch hP =>
    refine ⟨[.heard t epoch], rfl, ?_⟩
    intro ev hev
    obtain rfl := List.mem_singleton.mp hev
    exact .heard hP
  | @acked ρ corr x a hopen hbound hmatch hfull hlease hat hcorr =>
    refine ⟨[.acked ρ corr (n.exports.get x) a n.world], rfl, ?_⟩
    intro ev hev
    obtain rfl := List.mem_singleton.mp hev
    exact .acked hbound hmatch hfull hlease hat hcorr
  | @flip ρ corr x hP hroot hopen hbound hlease hacked hflip =>
    refine ⟨[.transition ρ (n.role ρ) false (.mergeStep5 corr (n.exports.get x)) n.world], rfl, ?_⟩
    intro ev hev
    obtain rfl := List.mem_singleton.mp hev
    exact .flip hroot hopen hbound hlease hacked hflip
  | _ => exact ⟨[], rfl, hnone⟩

theorem Move.event {ev : Event} (hev : ev ∈ n'.journal) :
    ev ∈ n.journal ∨ NewEvent cfg P n n' ev := by
  obtain ⟨es, hes, hnew⟩ := h.journal
  rw [hes] at hev
  rcases List.mem_append.mp hev with hev | hev
  · exact .inr (hnew ev hev)
  · exact .inl hev

theorem Move.mem_journal {ev : Event} (hev : ev ∈ n.journal) :
    ev ∈ n'.journal := by
  obtain ⟨es, hes, -⟩ := h.journal
  rw [hes]
  exact List.mem_append_right es hev

/-- A handler suspended after a move was so before it, or may be suspended now. -/
theorem Move.parked {k : Nat} {p : Parked} (hp : n'.parked.get k = some p) :
    n.parked.get k = some p ∨ (Parkable P n p ∧ n'.roles = n.roles) := by
  cases h with
  | side h => exact .inl (by rwa [show n'.parked = n.parked from congrArg NodeCore.parked h] at hp)
  | @park p' hpark =>
    rw [Node.park, get_set] at hp
    split at hp
    · cases hp
      exact .inr ⟨hpark, rfl⟩
    · exact .inl hp
  | unpark k' =>
    exact .inl (of_get_delete hp)
  | _ => exact .inl hp

theorem Move.exports_next : n.exports.next ≤ n'.exports.next := by
  cases h with
  | side h => exact le_of_eq (congrArg (fun c => c.exports.next) h).symm
  | offer => exact Nat.le_succ _
  | _ => exact le_refl _

/-- A role registered after a move was so before it, or is made by it. -/
theorem Move.roleAt {t : TopicId} (hρ : n'.roleAt t = some ρ) :
    n.roleAt t = some ρ ∨ (ρ = n.roles.next ∧ n'.roles.next = n.roles.next + 1
      ∧ (n'.role ρ).topicId = t) := by
  have hdelete {t' : TopicId} (h : (n.axonRoles.delete t').get t = some ρ) :
      n.axonRoles.get t = some ρ := by
    exact of_get_delete h
  have hset {r : Role} (h : (n.axonRoles.set r.topicId n.roles.next).get t = some ρ) :
      n.axonRoles.get t = some ρ ∨ (ρ = n.roles.next
        ∧ ((n.roles.alloc r).1.get ρ).topicId = t) := by
    rw [get_set] at h
    split at h
    · next ht =>
      cases h
      exact .inr ⟨rfl, by rw [Heap.get_alloc, if_pos rfl, ht]⟩
    · exact .inl h
  cases h with
  | side h =>
    have hroles : n'.axonRoles = n.axonRoles := congrArg NodeCore.axonRoles h
    exact .inl (by rwa [Node.roleAt, hroles] at hρ)
  | register t' b | born t' hP =>
    rcases hset hρ with h | ⟨h, ht⟩
    · exact .inl h
    · exact .inr ⟨h, rfl, ht⟩
  | unregister t' hP | retire t' ρ' hP => exact .inl (hdelete hρ)
  | wipe hP => cases hρ
  | _ => exact .inl hρ

/-- A role registered before a move is registered after it, or the move may retire it. -/
theorem Move.roleAt_kept {t : TopicId} (hρ : n.roleAt t = some ρ) :
    n'.roleAt t = some ρ ∨ (P .forget ∧ P (.retire t)) := by
  have hset {t' : TopicId} {r : RoleRef} (hfree : n.axonRoles.get t' = none) :
      (n.axonRoles.set t' r).get t = some ρ := by
    rw [get_set, if_neg, ← Node.roleAt, hρ]
    rintro rfl
    rw [← Node.roleAt, hρ] at hfree
    cases hfree
  have hdelete {t' : TopicId} (hP : P .forget) (hr : P (.retire t')) :
      (n.axonRoles.delete t').get t = some ρ ∨ (P .forget ∧ P (.retire t)) := by
    by_cases ht : t = t'
    · exact .inr ⟨hP, ht ▸ hr⟩
    · rw [get_delete, if_neg ht]
      exact .inl hρ
  cases h with
  | side h =>
    have hroles : n'.axonRoles = n.axonRoles := congrArg NodeCore.axonRoles h
    exact .inl (by rwa [Node.roleAt, hroles])
  | register t' b hfree | born t' hP hfree => exact .inl (hset hfree)
  | unregister t' hP hr | retire t' ρ' hP hr => exact hdelete hP hr
  | wipe hP hr => exact .inr ⟨hP, hr t⟩
  | _ => exact .inl hρ

end

/-- What a move makes of an export record. -/
inductive ExportEffect (P : Input → Prop) (n n' : Node) (x : ExportRef) : Prop
  | same (h : (n'.exports.get x).core = (n.exports.get x).core)
      (hd : (n'.exports.get x).deferred = none
        ∨ (n'.exports.get x).deferred = (n.exports.get x).deferred)
      (hs : (n'.exports.get x).mark = (n.exports.get x).mark
        ∨ n.MayClose P x
          ∧ ((n'.exports.get x).deferPinned = true → (n.exports.get x).deferPinned = true))
  | made (hx : x = n.exports.next) (h : (n'.exports.get x).state = .offered)
      (hd : (n'.exports.get x).mark = (none, false))
  | rebid (hoff : (n.exports.get x).state = .offered) (h : (n'.exports.get x).state = .offered)
      (hd : (n'.exports.get x).mark = (n.exports.get x).mark)
  | complete (hP : P .round)
      (h : (n'.exports.get x).core = { (n.exports.get x).core with state := .completed })
      (hs : n.MayClose P x)
  | bind {ρ : RoleRef} {g : Gate} (hP : P .round) (hgate : (n.role ρ).merge.gate = none)
      (hopen : (n.role ρ).openMerges.get g.corr = some x)
      (hoff : (n.exports.get x).state = .offered)
      (hr : (n'.role ρ).core = { (n.role ρ).core with gate := some g, gen := toInt32 (n.role ρ).gen + 1 })
      (hm : (n'.exports.get x).manifest = ((n.role ρ).snapshot n.now).manifest)
      (hb : (n'.exports.get x).state = .bound) (htB : (n'.exports.get x).tBWall = n.now)
      (hd : (n'.exports.get x).mark = (n.exports.get x).mark)
  | defer {ρ : RoleRef} {corr : Corr} (hopen : (n.role ρ).openMerges.get corr = some x)
      (hbound : (n.exports.get x).state = .bound) (hacked : n.Acked ρ corr x)
      (h : (n'.exports.get x).core = (n.exports.get x).core) (hdefer : P (.defer ρ corr))
      (hnew : (n'.exports.get x).deferred.isSome ∧ (n'.exports.get x).deferPinned = true)

theorem Move.exportEffect (h : Move cfg P n n') (x : ExportRef) : ExportEffect P n n' x := by
  have hkept {m : Node} {x' : ExportRef} (f : Export → Export) (hm :
    m.exports = n.exports.modify x' f)
      (hne : x ≠ x') : ExportEffect P n m x := by
    have hx : m.exports.get x = n.exports.get x := by rw [hm, Heap.get_modify_of_ne _ _ hne]
    exact .same (by rw [hx]) (.inr (by rw [hx])) (.inl (by rw [hx]))
  have hmod {m : Node} (f : Export → Export) (hm : m.exports = n.exports.modify x f) :
      m.exports.get x = f (n.exports.get x) := by rw [hm, Heap.get_modify_self]
  have hsame {m : Node} (hm : m.exports = n.exports) : ExportEffect P n m x :=
    .same (by rw [hm]) (.inr (by rw [hm])) (.inl (by rw [hm]))
  cases h with
  | side h => exact hsame (congrArg NodeCore.exports h)
  | @offer t ρ hat corr m hm hd hfree =>
    by_cases hx : x = n.exports.next
    · have hget : (n.exports.alloc m).1.get x = m := by rw [Heap.get_alloc, if_pos hx]
      exact .made hx ((congrArg Export.state hget).trans hm) ((congrArg Export.mark hget).trans hd)
    · have hget : (n.exports.alloc m).1.get x = n.exports.get x := by rw [Heap.get_alloc, if_neg hx]
      exact .same (congrArg Export.core hget) (.inr (congrArg Export.deferred hget))
        (.inl (congrArg Export.mark hget))
  | @annotate x' m' h hd hs =>
    by_cases hx : x = x'
    · subst hx
      have hget := hmod (fun _ => m') (rfl : (n.modifyExport x fun _ => m').exports = _)
      exact .same ((congrArg Export.core hget).trans h) (by rw [hget]; exact hd)
        (by rw [hget]; exact hs)
    · exact hkept (fun _ => m') rfl hx
  | @rebid x' e h =>
    let f (m : Export) : Export := { m with winnerEpoch := e }
    by_cases hx : x = x'
    · subst hx
      have hget := hmod f (rfl : (n.modifyExport x f).exports = _)
      exact .rebid h ((congrArg Export.state hget).trans h) ((congrArg Export.mark hget).trans rfl)
    · exact hkept f rfl hx
  | @complete x' hP hs =>
    let f (m : Export) : Export := { m with state := .completed }
    by_cases hx : x = x'
    · subst hx
      exact .complete hP (congrArg Export.core (hmod f (rfl : (n.modifyExport x f).exports = _))) hs
    · exact hkept f rfl hx
  | @bind ρ corr x' r' m' g hP hroot hgate hopen hoff hcorr hr hm hb htB hd =>
    by_cases hx : x = x'
    · subst hx
      subst hcorr
      have hget := hmod (fun _ => m')
        (rfl : ((n.modifyRole ρ fun _ => r').modifyExport x fun _ => m').exports = _)
      have hrole : ((n.modifyRole ρ fun _ => r').modifyExport x fun _ => m').role ρ = r' :=
        Node.role_modifyRole_self n ρ fun _ => r'
      exact .bind hP hgate hopen hoff ((congrArg Role.core hrole).trans hr)
        ((congrArg Export.manifest hget).trans hm) ((congrArg Export.state hget).trans hb)
        ((congrArg Export.tBWall hget).trans htB) ((congrArg Export.mark hget).trans hd)
    · exact hkept (fun _ => m') rfl hx
  | @defer ρ corr x' a hopen hbound hacked hdefer =>
    let f (m : Export) : Export := { m with deferPinned := true, deferred := some a }
    by_cases hx : x = x'
    · subst hx
      have hget := hmod f (rfl : (n.modifyExport x f).exports = _)
      exact .defer hopen hbound hacked ((congrArg Export.core hget).trans rfl) hdefer
        ⟨congrArg (fun m : Export => m.deferred.isSome) hget, congrArg Export.deferPinned hget⟩
    · exact hkept f rfl hx
  | _ => exact hsame rfl

/-! ### Well-formed nodes -/

section

variable (h : Move cfg P n n')
include h

/-- A pull open after a move was open before it, or is the one the move made. -/
theorem Move.openPulls {corr : Corr} {y : PullRef}
    (hopen : (n'.role ρ).openPulls.get corr = some y) : (n.role ρ).openPulls.get corr = some y
      ∨ (y = n.pulls.next ∧ n'.pulls.next = n.pulls.next + 1 ∧ (n'.pulls.get y).owed = ∅
        ∧ (∀ ρ' ≠ ρ, (n'.role ρ').core = (n.role ρ').core) ∧ P (.pull ρ)) := by
  have hkept (h : (n'.role ρ).openPulls = (n.role ρ).openPulls) :
      (n.role ρ).openPulls.get corr = some y := h ▸ hopen
  have hdropped {corr' : Corr} (h : (n'.role ρ).openPulls = (n.role ρ).openPulls.delete corr') :
      (n.role ρ).openPulls.get corr = some y := by
    rw [h] at hopen
    exact of_get_delete hopen
  cases h.roleEffect ρ with
  | move h _ =>
    left
    rcases h.openPulls with h | ⟨_, h⟩
    · exact hkept h
    · exact hdropped h
  | fresh _ h =>
    have hnone : (n'.role ρ).openPulls = ∅ := congrArg RoleCore.openPulls h
    rw [hnone] at hopen
    cases hopen
  | endRound _ _ h => exact .inl (hkept (congrArg RoleCore.openPulls h.rest))
  | openPull hy hp hothers h hpull =>
    have hset : (n'.role ρ).openPulls = (n.role ρ).openPulls.set _ n.pulls.next :=
      congrArg RoleCore.openPulls h
    rw [hset, get_set] at hopen
    split at hopen
    · cases hopen
      exact .inr ⟨rfl, hy, hp, hothers, hpull⟩
    · exact .inl hopen
  | same h | retire h | offer _ _ _ _ _ h | bind _ _ _ _ _ h | ungate _ _ h | flip _ _ _ _ _ _ _ h
    =>
    exact .inl (hkept (congrArg RoleCore.openPulls h))

/-- A pull record changes only in a step that carries a pull on, or opens one. -/
theorem Move.pulls_kept (htally : ¬P .tally) (htransfer : ¬P .transfer)
    (hpull : ∀ ρ, ¬P (.pull ρ)) : n'.pulls = n.pulls := by
  cases h with
  | side h => exact congrArg NodeCore.pulls h
  | openPull ρ _ _ hP => exact absurd hP (hpull ρ)
  | pull _ _ hP => exact absurd hP htally
  | header hP | slice _ hP => exact absurd hP htransfer
  | _ => rfl

end

/-- A root that neither yields nor mints again keeps its epoch. -/
theorem RoleMove.epoch (h : RoleMove cfg P n ρ r' es) (hremint : ¬P (.remint ρ))
    (hroot : (n.role ρ).isRoot = true) : r'.epoch = (n.role ρ).epoch := by
  cases h with
  | quiet h => exact congrArg RoleCore.epoch h
  | shrink h => exact congrArg RoleCore.epoch h.rest
  | @push m cut hcut src =>
    rcases (n.role ρ).push_cases cfg.cacheMax cfg.cacheBytes m with h | h
    · rw [h]
    · exact congrArg RoleCore.epoch h.rest
  | ascend _ hnot | ascendStaged _ hnot =>
    rw [hroot] at hnot
    cases hnot
  | pin _ hr | unpinAll hr => exact congrArg RoleCore.epoch hr
  | reEpoch hP => exact absurd hP hremint
  | _ => rfl

theorem Move.epoch (h : Move cfg P n n') (hopen : (n'.role ρ).openPulls ≠ ∅) (hy : ¬P .yield)
    (hremint : ¬P (.remint ρ)) (hroot : (n.role ρ).isRoot = true) :
    (n'.role ρ).isRoot = true ∧ (n'.role ρ).epoch = (n.role ρ).epoch := by
  have hsame {c : RoleCore} (hc : (n'.role ρ).core = c) (hr : c.isRoot = (n.role ρ).isRoot)
      (he : c.epoch = (n.role ρ).epoch) :
      (n'.role ρ).isRoot = true ∧ (n'.role ρ).epoch = (n.role ρ).epoch :=
    ⟨((congrArg RoleCore.isRoot hc).trans hr).trans hroot, (congrArg RoleCore.epoch hc).trans he⟩
  cases h.roleEffect ρ with
  | move h _ => exact ⟨h.isRoot hy hroot, h.epoch hremint hroot⟩
  | fresh _ h => exact absurd (congrArg RoleCore.openPulls h) hopen
  | flip hP => exact absurd hP hy
  | endRound _ _ h =>
    exact ⟨(congrArg RoleCore.isRoot h.rest).trans hroot, congrArg RoleCore.epoch h.rest⟩
  | same h | retire h | offer _ _ _ _ _ h | bind _ _ _ _ _ h | ungate _ _ h | openPull _ _ _ h =>
    exact hsame h rfl rfl

/-- What a block completes after moves that mint at most, it would have completed before them. -/
theorem Moves.completes_before {m : Node} {sub : NodeId} {via : List NodeId} {b : MergeBlock}
    (hm : Moves cfg (· = .mint) n m) (h : m.completes cfg ρ sub via b) :
    n.completes cfg ρ sub via b := by
  induction hm with
  | refl => exact h
  | tail _ hmove ih =>
    refine ih ?_
    have hpulls := hmove.pulls_kept (by rintro ⟨⟩) (by rintro ⟨⟩) (by rintro ρ ⟨⟩)
    obtain ⟨y, hopen, hnamed, hepoch⟩ := h
    rw [hpulls] at hnamed
    rcases hmove.openPulls hopen with hold | ⟨-, hnext, -⟩
    · refine ⟨y, hold, hnamed, fun hroot => ?_⟩
      -- a root that has this pull open keeps its epoch
      have hsome : ∀ m : OrderedMap Corr PullRef, m.get b.corr = some y → m ≠ ∅ := by
        rintro m hm rfl
        cases hm
      obtain ⟨hroot', he⟩ := hmove.epoch (hsome _ hopen) (by rintro ⟨⟩) (by rintro ⟨⟩) hroot
      rw [hepoch hroot', he]
    · rw [hpulls] at hnext
      exact absurd hnext (Nat.succ_ne_self _).symm

/-- What holds of the tables of every node that runs: a role is registered under its topic, an
export record is open in one place, and a deferred acknowledgement is in the journal. -/
structure Node.Wf (n : Node) : Prop where
  registered : ∀ t ρ, n.roleAt t = some ρ → ρ < n.roles.next ∧ (n.role ρ).topicId = t
  made : ∀ ρ corr x, (n.role ρ).openMerges.get corr = some x →
    ρ < n.roles.next ∧ x < n.exports.next
  single : ∀ ρ ρ' corr corr' x, (n.role ρ).openMerges.get corr = some x →
    (n.role ρ').openMerges.get corr' = some x → ρ = ρ' ∧ corr = corr'
  offered : ∀ x, (n.exports.get x).state = .offered → (n.exports.get x).mark = (none, false)
  deferred : ∀ ρ corr x, (n.role ρ).openMerges.get corr = some x →
    (n.exports.get x).state = .bound → (n.exports.get x).deferred.isSome → n.Acked ρ corr x

/-- An acknowledgement stays written down for as long as its record stands as it stood. -/
theorem Node.Acked.move {corr : Corr} {x : ExportRef} (hacked : n.Acked ρ corr x)
    (h : Move cfg P n n') (hx : (n'.exports.get x).core = (n.exports.get x).core) :
    n'.Acked ρ corr x := by
  obtain ⟨m, a, w, hmem, hcore⟩ := hacked
  exact ⟨m, a, w, h.mem_journal hmem, hcore.trans hx.symm⟩

theorem Node.Wf.move (hwf : n.Wf) (h : Move cfg P n n') : n'.Wf where
  registered t ρ hρ := by
    rcases h.roleAt hρ with hat | ⟨rfl, hnext, ht⟩
    · obtain ⟨hlt, ht⟩ := hwf.registered t ρ hat
      exact ⟨lt_of_lt_of_le hlt h.roles_next, by rw [h.topicId hlt, ht]⟩
    · exact ⟨by rw [hnext]; exact Nat.lt_succ_self _, ht⟩
  made ρ corr x hopen := by
    rcases h.openMerges hopen with hold | ⟨rfl, hnext, ⟨t, hat⟩, -⟩
    · obtain ⟨hρ, hx⟩ := hwf.made ρ corr x hold
      exact ⟨lt_of_lt_of_le hρ h.roles_next, lt_of_lt_of_le hx h.exports_next⟩
    · refine ⟨lt_of_lt_of_le (hwf.registered t ρ hat).1 h.roles_next, ?_⟩
      rw [hnext]
      exact Nat.lt_succ_self _
  single ρ ρ' corr corr' x hopen hopen' := by
    rcases h.openMerges hopen with hold | ⟨rfl, -, -, -, hothers, hsame⟩
    · rcases h.openMerges hopen' with hold' | ⟨rfl, -⟩
      · exact hwf.single ρ ρ' corr corr' x hold hold'
      · exact absurd (hwf.made ρ corr _ hold).2 (lt_irrefl _)
    -- the new record is open nowhere else
    by_cases hρ : ρ' = ρ
    · subst hρ
      by_cases hcorr : corr' = corr
      · exact ⟨rfl, hcorr.symm⟩
      · rw [hsame corr' hcorr] at hopen'
        exact absurd (hwf.made _ _ _ hopen').2 (lt_irrefl _)
    · have heq : (n'.role ρ').openMerges = (n.role ρ').openMerges :=
        congrArg RoleCore.openMerges (hothers ρ' hρ)
      rw [heq] at hopen'
      exact absurd (hwf.made _ _ _ hopen').2 (lt_irrefl _)
  offered x hoff := by
    cases h.exportEffect x with
    | same hc hd hs =>
      have hstate : (n'.exports.get x).state = (n.exports.get x).state :=
        congrArg ExportCore.state hc
      have hold := hwf.offered x (hstate ▸ hoff)
      rcases hs with hs | ⟨-, hflag⟩
      · rw [hs, hold]
      -- an offer is never marked, so there is no mark to lose
      have hnone : (n.exports.get x).deferred = none := congrArg Prod.fst hold
      have hunset : (n.exports.get x).deferPinned = false := congrArg Prod.snd hold
      refine Prod.ext (hd.elim id fun hd => hd.trans hnone) ?_
      rw [hunset] at hflag
      exact Bool.eq_false_iff.mpr fun h => absurd (hflag h) Bool.false_ne_true
    | made _ _ hd => exact hd
    | rebid hoff _ hd =>
      rw [hd]
      exact hwf.offered x hoff
    | complete _ hc =>
      have hs : (n'.exports.get x).state = .completed := congrArg ExportCore.state hc
      rw [hs] at hoff
      cases hoff
    | bind _ _ _ _ _ _ hb =>
      rw [hb] at hoff
      cases hoff
    | defer _ hbound _ hc =>
      have hs : (n'.exports.get x).state = (n.exports.get x).state := congrArg ExportCore.state hc
      rw [hs, hbound] at hoff
      cases hoff
  deferred ρ corr x hopen hbound hdef := by
    rcases h.openMerges hopen with hold | ⟨rfl, -, -, hoff, -⟩
    · cases h.exportEffect x with
      | same hc hd =>
        have hs : (n'.exports.get x).state = (n.exports.get x).state := congrArg ExportCore.state hc
        rcases hd with hd | hd
        · rw [hd] at hdef
          cases hdef
        · exact (hwf.deferred ρ corr x hold (hs ▸ hbound) (hd ▸ hdef)).move h hc
      | made hx _ _ => exact absurd (hwf.made ρ corr x hold).2 (by rw [hx]; exact lt_irrefl _)
      | rebid hoff hs hd =>
        rw [hs] at hbound
        cases hbound
      | complete _ hc =>
        have hs : (n'.exports.get x).state = .completed := congrArg ExportCore.state hc
        rw [hs] at hbound
        cases hbound
      | bind _ _ _ hoff _ _ _ _ hd =>
        have hnone : (n'.exports.get x).deferred = none :=
          congrArg Prod.fst (hd.trans (hwf.offered x hoff))
        rw [hnone] at hdef
        cases hdef
      | @defer ρ' corr' hopen' _ hacked hc =>
        obtain ⟨rfl, rfl⟩ := hwf.single ρ ρ' corr corr' x hold hopen'
        exact hacked.move h hc
    · rw [hoff] at hbound
      cases hbound

end Axona
