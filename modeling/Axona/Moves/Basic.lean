import Axona.Pubsub.Step

/-! # The moves a step is made of

A handler changes a node by a handful of small moves: a body is pushed, a stamp raised, a beacon
recorded, a claim given up. `Move` lists them, each with the check the code makes before it, so
that an invariant needs one look at each move instead of one at each handler. A move that needs
something from outside, such as a body to push, is allowed only for the inputs in `P`: those of
the frame or of the suspended handler that the step runs. -/

namespace Axona

open Library

/-! ### Inputs -/

/-- What a step may do on account of the frame it handles or the handler it resumes. -/
inductive Input where
  /-- Stamp this publish, admitted under this cut. -/
  | publish (ρ : RoleRef) (cut : Cut) (json : Json)
  /-- Stamp this kill, admitted under this cut. -/
  | kill (ρ : RoleRef) (cut : Cut) (k : Kill)
  /-- Take in a replayed body. -/
  | body (ρ : RoleRef) (m : Stamped)
  /-- Take in a body that a parent delivered. -/
  | relay (ρ : RoleRef) (m : Stamped)
  /-- Apply a deletion that was delivered or migrated. -/
  | del (ρ : RoleRef) (d : Del)
  /-- Admit a write of a publisher. -/
  | write
  /-- Admit a kill into a role that may not be a root. -/
  | admitKill (ρ : RoleRef)
  /-- Carry a merge transfer on. -/
  | transfer
  /-- Record a beacon. -/
  | beacon (t : TopicId) (root : NodeId) (epoch : Int)
  /-- Plant the record of a verification. -/
  | plant (t : TopicId) (root : NodeId)
  /-- Convict a root. -/
  | convict (t : TopicId) (root : NodeId) (epoch : Int)
  /-- Mint an epoch. -/
  | mint
  /-- Give up a claim. -/
  | yield
  /-- Mint the epoch of a root that stages. -/
  | remint (ρ : RoleRef)
  /-- Drop a record of a seat's history. -/
  | forget
  /-- Begin a round of a merge, or end one whose gate stands. -/
  | round
  /-- Check a delivered body against the tombstone of its id. -/
  | check (ρ : RoleRef) (m : Stamped)
  /-- Push a body that waited, with no second look at what is held or killed by now. -/
  | late (ρ : RoleRef) (m : Stamped)
  /-- Take the role of a topic out of the table. -/
  | retire (t : TopicId)
  /-- Take pins of a role away. -/
  | unpin (ρ : RoleRef)
  /-- End the round of an exchange at its loser. -/
  | close (ρ : RoleRef) (corr : Corr)
  /-- Pin the export of a round. -/
  | pin (ρ : RoleRef)
  /-- Give a claim up in step 5. -/
  | flip
  /-- Defer step 5 of a round. -/
  | defer (ρ : RoleRef) (corr : Corr)
  /-- Open a pull into a role. -/
  | pull (ρ : RoleRef)
  /-- Write down in a pull record how far the pull is. -/
  | tally
  /-- Bind an export of a role. -/
  | bind (ρ : RoleRef)
  /-- Drop the deletions of a role that an ended obligation delivered. -/
  | disown (ρ : RoleRef)

/-- Is the role one that was made only to stage, for this exchange? -/
def Role.StagedOnly (r : Role) (corr : Corr) : Prop :=
  r.isRoot = false ∧ ∃ st, r.staging = some st ∧ st.corr = corr ∧ st.created = true

/-- Does the input raise what is known of a seat: a mint, or a beacon? -/
def Input.raises : Input → Bool
  | .mint | .remint _ | .beacon _ _ _ => true
  | _ => false

/-! ### What a quiet move leaves alone -/

/-- The fields of a role that the safety statements read. -/
structure RoleCore where
  topicId : TopicId
  isRoot : Bool
  epoch : Int
  cache : List Entry
  cacheIds : Finset MsgId
  cacheBytes : Int
  lastTs : Int
  seq : Int
  tombstones : OrderedMap MsgId Tombstone
  openMerges : OrderedMap Corr ExportRef
  openPulls : OrderedMap Corr PullRef
  gate : Option Gate
  pins : Finset MsgId
  gen : Int
  retired : Bool
  dismantling : Option Int
  dismantlingSends : Nat

/-- The core of a role. -/
def Role.core (r : Role) : RoleCore :=
  ⟨r.topicId, r.isRoot, r.epoch, r.cache, r.cacheIds, r.cacheBytes, r.lastTs, r.seq, r.tombstones,
    r.openMerges, r.openPulls, r.merge.gate, r.merge.pins, r.gen, r.retired, r.dismantling,
    r.dismantlingSends⟩

/-- The fields of an export record that a bind fixes. -/
structure ExportCore where
  winner : NodeId
  winnerEpoch : Int
  loserEpoch : Int
  state : ExportState
  manifest : Manifest
  tB : Int
  tBWall : Int
  timing : Timing

/-- The core of an export record. -/
def Export.core (m : Export) : ExportCore :=
  ⟨m.winner, m.winnerEpoch, m.loserEpoch, m.state, m.manifest, m.tB, m.tBWall, m.timing⟩

/-- The deferral of an export record: what is to be acted on later, and whether its export was pinned
for that. -/
def Export.mark (m : Export) : Option ReplayAck × Bool := (m.deferred, m.deferPinned)

/-- The fields of a node that the safety statements read. -/
structure NodeCore where
  world : World
  axonRoles : OrderedMap TopicId RoleRef
  roles : Heap Role
  exports : Heap Export
  pulls : Heap Pull
  rootBeacons : OrderedMap TopicId Beacon
  rootTombstones : OrderedMap TopicId Conviction
  genHighWater : OrderedMap TopicId HighWater
  parked : OrderedMap Nat Parked
  nextParked : Nat
  journal : List Event

/-- The core of a node. -/
def Node.core (n : Node) : NodeCore :=
  ⟨n.world, n.axonRoles, n.roles, n.exports, n.pulls, n.rootBeacons, n.rootTombstones,
    n.genHighWater, n.parked, n.nextParked, n.journal⟩

/-- The role a transfer for a topic goes into: the one registered, or the next one made. -/
def Node.seatOf (n : Node) (t : TopicId) : RoleRef := (n.roleAt t).getD n.roles.next

theorem Node.seatOf_some {n : Node} {t : TopicId} {ρ : RoleRef} (h : n.roleAt t = some ρ) :
    n.seatOf t = ρ := by
  rw [seatOf, h, Option.getD_some]

theorem Node.seatOf_none {n : Node} {t : TopicId} (h : n.roleAt t = none) :
    n.seatOf t = n.roles.next := by
  rw [seatOf, h, Option.getD_none]

/-! ### The moves of a role -/

/-- Every id of the index is the id of a cached body. -/
def Role.Indexed (r : Role) : Prop := ∀ id ∈ r.cacheIds, ∃ e ∈ r.cache, e.msgId = id

/-- The byte count is that of the cached bodies. -/
def Role.Counted (r : Role) : Prop := r.cacheBytes = (r.cache.map (·.bytes)).sum

/-- The cache holds each body once, and the index says what it holds. -/
structure Role.Tidy (r : Role) : Prop where
  nodup : (r.cache.map (·.msgId)).Nodup
  ids : r.cacheIds = (r.cache.map (·.msgId)).toFinset

/-- Does a tombstone with this signer stand against the body? -/
def standsAgainst (signer : Option Text) (j : Json) : Bool :=
  match signer with
  | none | some [] => true
  | some s => j.author = some (lc s)

/-- The two tombstones differ in their owners at most. -/
def Tombstone.Same (t t' : Tombstone) : Prop :=
  t'.exp = t.exp ∧ t'.killTs = t.killTs ∧ t'.signer = t.signer

/-- The body is neither held nor under a tombstone that stands against it. -/
def Role.Fresh (r : Role) (id : MsgId) (j : Json) : Prop :=
  id ∉ r.cacheIds ∧ ∀ t, r.tombstones.get id = some t → standsAgainst t.signer j = false

/-- The role lost unpinned bodies, its tombstones changed in the ways `C` allows, and nothing else
of its core changed. -/
structure Role.Shrink (C : MsgId → Tombstone → Option Tombstone → Prop) (r r' : Role) : Prop where
  rest : { r'.core with
    cache := r.cache, cacheIds := r.cacheIds, cacheBytes := r.cacheBytes,
    tombstones := r.tombstones } = r.core
  cache : r'.cache.Sublist r.cache
  pinned : ∀ e ∈ r.cache, r.pinned e.msgId = true → e ∈ r'.cache
  indexed : r.Indexed → r'.Indexed
  counted : r.Counted → r'.Counted
  tidy : r.Tidy → r'.Tidy
  tombstones : ∀ id, r'.tombstones.get id = r.tombstones.get id
    ∨ ∃ t, r.tombstones.get id = some t ∧ C id t (r'.tombstones.get id)

/-- The body is a verified envelope under its own id, for the topic its descriptor derives. -/
def Genuine (P : Primitives) (t : TopicId) (id : MsgId) (j : Json) (e : Envelope)
    (d : Descriptor) : Prop :=
  j.parsed = some e ∧ e.topic = some d ∧ e.msgId = some id ∧ verifyEnvelope P e = .ok
    ∧ deriveTopicId P d = some t

/-- Where a pushed body comes from, with what was checked of it and the cut it is under. -/
inductive Source (cfg : Config) (P : Input → Prop) (t : TopicId) (ρ : RoleRef) (m : Entry) :
    Option Cut → Prop
  | publish {cut e d} (hP : P (.publish ρ cut m.json))
      (genuine : Genuine cfg.toPrimitives t m.msgId m.json e d)
      (policy : writePolicyRefuses d e.signerPubkey = false) : Source cfg P t ρ m (some cut)
  | body {cut e d} (hP : P (.body ρ m)) (genuine : Genuine cfg.toPrimitives t m.msgId m.json e d) :
      Source cfg P t ρ m (some cut)
  | relay (hP : P (.relay ρ m)) : Source cfg P t ρ m none

/-- How a tombstone changes, apart from the end of an obligation that delivered it: its time is
over, a body comes in that it does not stand against, or one more obligation delivers it. -/
inductive Changes (cfg : Config) (P : Input → Prop) (n : Node) (ρ : RoleRef) (id : MsgId)
    (t : Tombstone) : Option Tombstone → Prop
  | lapsed (h : t.exp ≤ n.now) : Changes cfg P n ρ id t none
  | revoked {j e d} (hP : (∃ cut, P (.publish ρ cut j)) ∨ ∃ m, P (.body ρ m) ∧ m.json = j)
      (hj : standsAgainst t.signer j = false)
      (genuine : Genuine cfg.toPrimitives (n.role ρ).topicId id j e d) : Changes cfg P n ρ id t none
  | contradicted {m} (hP : P (.check ρ m)) (hid : m.msgId = id)
      (hj : standsAgainst t.signer m.json = false) : Changes cfg P n ρ id t none
  | owned (owners : Finset (NodeId × Int)) : Changes cfg P n ρ id t (some { t with owners })

/-- A tombstone that is changed and not gone has one more owner. -/
theorem Changes.some {cfg : Config} {P : Input → Prop} {n : Node} {ρ : RoleRef} {id : MsgId}
    {t t' : Tombstone} (h : Changes cfg P n ρ id t (some t')) : t.Same t' := by
  cases h with
  | owned owners => exact ⟨rfl, rfl, rfl⟩

/-- The stamp the next write of a role gets. -/
def Node.stampTs (n : Node) (ρ : RoleRef) : Int := max (succDouble (n.role ρ).lastTs) n.now

/-- The moves of a role: what it becomes, and what is written into the journal. -/
inductive RoleMove (cfg : Config) (P : Input → Prop) (n : Node) (ρ : RoleRef) :
    Role → List Event → Prop
  | quiet {r'} (h : r'.core = (n.role ρ).core) : RoleMove cfg P n ρ r' []
  | shrink {r'} (h : (n.role ρ).Shrink (Changes cfg P n ρ) r') : RoleMove cfg P n ρ r' []
  | disown (owner : Option Gen) (hP : P (.disown ρ)) :
      RoleMove cfg P n ρ ((n.role ρ).dropOwned owner) []
  | raiseSeq (s : Int) : RoleMove cfg P n ρ { n.role ρ with seq := max (n.role ρ).seq s } []
  | stamp {cut : Cut} (hcut : n.cutHolds ρ (some cut) = true)
      (hP : (∃ json, P (.publish ρ cut json)) ∨ ∃ k, P (.kill ρ cut k)) :
      RoleMove cfg P n ρ { n.role ρ with
        lastTs := n.stampTs ρ, lastDemandAt := n.now, seq := succDouble (n.role ρ).seq }
        [.stamped ρ (n.role ρ) (n.stampTs ρ) (succDouble (n.role ρ).seq)]
  | push {m : Entry} {cut : Option Cut} (hcut : n.cutHolds ρ cut = true)
      (hnew : (n.role ρ).superseded m.publishTs = false →
        P (.late ρ m) ∨ (n.role ρ).Fresh m.msgId m.json)
      (src : Source cfg P (n.role ρ).topicId ρ m cut) :
      RoleMove cfg P n ρ ((n.role ρ).push cfg.cacheMax cfg.cacheBytes m) [.cached ρ (n.role ρ) m]
  | recover {m : Stamped} (hP : P (.body ρ m)) :
      RoleMove cfg P n ρ ((n.role ρ).recover m.publishTs m.seq) [.ingested ρ m.publishTs m.seq true]
  | relayed {m : Stamped} (hP : P (.relay ρ m)) :
      RoleMove cfg P n ρ
        { n.role ρ with seq := max (n.role ρ).seq (m.seq.getD (n.role ρ).seq) }
        [.ingested ρ m.publishTs m.seq false]
  | bury {d : Del} {cut : Option Cut} {tomb : Tombstone}
      (hP : P (.del ρ d) ∨ ((∃ cut k, P (.kill ρ cut k)) ∧ n.now ≤ tomb.killTs
        ∧ tomb.killTs ≤ (n.role ρ).lastTs))
      (hcut : n.cutHolds ρ cut = true) (hnew : (n.role ρ).tombstones.has d.msgId = false)
      (hts : tomb.killTs = d.killTs.getD n.now) (hexp : tomb.exp = n.now + ttlMs)
      (hseq : ∀ s ∈ d.seq, s ≤ (n.role ρ).seq) :
      RoleMove cfg P n ρ ((n.role ρ).bury d.msgId tomb)
        [.ingested ρ tomb.killTs d.seq false]
  | ascend {r' : Role} (hP : P .mint) (hroot : (n.role ρ).isRoot = false) (why : Why)
      (hr : r'.core = { (n.role ρ).core with
        isRoot := true, epoch := succDouble (n.knownEpoch (n.role ρ).topicId) })
      (hat : ∃ t, n.roleAt t = some ρ) :
      RoleMove cfg P n ρ r' [.transition ρ (n.role ρ) true why n.world,
        .minted (n.role ρ).topicId (succDouble (n.knownEpoch (n.role ρ).topicId))]
  /-- A stager takes the root, above the epoch of the claim it pulled. -/
  | ascendStaged {r' : Role} (hP : P .mint) (hroot : (n.role ρ).isRoot = false) (why : Why)
      (e : Int) (he : toInt32 (succDouble (n.knownEpoch (n.role ρ).topicId)) ≤ e)
      (hne : e ≠ succDouble (n.knownEpoch (n.role ρ).topicId))
      (hr : r'.core = { (n.role ρ).core with isRoot := true, epoch := e })
      (hat : ∃ t, n.roleAt t = some ρ) :
      RoleMove cfg P n ρ r' [.minted (n.role ρ).topicId e,
        .transition ρ (n.role ρ) true why n.world,
        .minted (n.role ρ).topicId (succDouble (n.knownEpoch (n.role ρ).topicId))]
  | descend (hP : P .yield) (hroot : (n.role ρ).isRoot = true) (why : Why)
      (hwhy : ∀ corr m, why ≠ .mergeStep5 corr m)
      (hfree : cfg.mergeCapable = false ∨ (n.role ρ).hasCustody n.now = false
        ∨ cfg.cutover = false) :
      RoleMove cfg P n ρ { n.role ρ with isRoot := false }
        [.transition ρ (n.role ρ) false why n.world]
  | reEpoch (hP : P (.remint ρ)) (e : Int) (hroot : (n.role ρ).isRoot = true) :
      RoleMove cfg P n ρ { n.role ρ with epoch := e } [.minted (n.role ρ).topicId e]
  | dismantle (at' : Int) (hbegins : (n.role ρ).dismantling = none) (hempty :
    (n.role ρ).cache = []) :
      RoleMove cfg P n ρ { n.role ρ with
        dismantling := some at', dismantlingSends := 0, gen := toInt32 (n.role ρ).gen + 1 } []
  /-- One more round of termination notices goes out. -/
  | notice (h : (n.role ρ).dismantlingSends < topicTerminateTries) :
      RoleMove cfg P n ρ
        { n.role ρ with dismantlingSends := (n.role ρ).dismantlingSends + 1 } []
  | dropPull (corr : Corr) :
      RoleMove cfg P n ρ { n.role ρ with openPulls := (n.role ρ).openPulls.delete corr } []
  | pin {r' : Role} (s : Finset MsgId)
      (hr : r'.core = { (n.role ρ).core with pins := (n.role ρ).merge.pins ∪ s })
      (hP : P (.pin ρ) ∨ P .transfer) : RoleMove cfg P n ρ r' []
  | unpin (m : Manifest) (hP : P (.unpin ρ)) :
      RoleMove cfg P n ρ ((n.role ρ).unpin m) []
  /-- A pull leaves the table with the pins of its role. -/
  | release (corr : Corr) (hP : P (.unpin ρ)) :
      RoleMove cfg P n ρ { (n.role ρ).releasePins with
          openPulls := (n.role ρ).openPulls.delete corr } []
  /-- The pins go with the round that the role lost. -/
  | unpinAll {r' : Role} (hr : r'.core = { (n.role ρ).core with pins := ∅ }) (hP : P (.unpin ρ)) :
      RoleMove cfg P n ρ r' []

/-! ### The moves of a merge -/

/-- The round of `corr` ends at the loser: its record is closed, and the gate goes if it is the
round's own. -/
structure Role.EndsRound (r r' : Role) (corr : Corr) : Prop where
  rest : { r'.core with openMerges := r.openMerges, gate := r.merge.gate, gen := r.gen } = r.core
  closed : r'.openMerges = r.openMerges.delete corr
  gate : r'.merge.gate = r.merge.gate
    ∨ (r'.merge.gate = none ∧ ∀ g, r.merge.gate = some g → g.corr = corr)

/-- The ids a pull owes its loser and itself: its manifest so far, and its baseline. -/
def Pull.owed (p : Pull) : Finset MsgId := (p.manifest.bodies ++ p.manifest.dels ++
  p.baseline).toFinset

/-- A full acknowledgement of the record's binding is in the journal. -/
def Node.Acked (n : Node) (ρ : RoleRef) (corr : Corr) (x : ExportRef) : Prop :=
  ∃ m a w, .acked ρ corr m a w ∈ n.journal ∧ m.core = (n.exports.get x).core

/-- May this handler be suspended now? -/
def Parkable (P : Input → Prop) (n : Node) : Parked → Prop
  | .publish ρ cut _ => P .write ∧ ρ < n.roles.next ∧ cut = n.cutCapture ρ
      ∧ (n.role ρ).isRoot = true
  | .kill ρ cut _ => P .write ∧ ρ < n.roles.next ∧ cut = n.cutCapture ρ
      ∧ ((n.role ρ).isRoot = true ∨ P (.admitKill ρ))
  | .ingest _ _ _ _ (.merge _ _ _) => P .transfer
  | .ack _ _ _ _ => P .transfer
  | _ => True

/-- What the app was told, and what is remembered of it: a key that is new in the delivery memory is
that of a body the app was given, or has a tag in front. -/
def AppGrows (n n' : Node) : Prop :=
  ∃ evs, n'.app = evs ++ n.app ∧ ∀ t id, n'.appDelivered.has (Node.bodyKey t id) = true →
    n.appDelivered.has (Node.bodyKey t id) = true ∨ .body t id ∈ evs
      ∨ Node.killTag <+: id ∨ terminatedTag <+: id

theorem AppGrows.same {n n' : Node} (h : n'.app = n.app) (hd : n'.appDelivered = n.appDelivered) :
    AppGrows n n' :=
  ⟨[], h, fun t id hk => .inl (by rwa [hd] at hk)⟩

/-- May the round of an exchange at a role end, its gate standing? -/
def MayEnd (P : Input → Prop) (ρ : RoleRef) (corr : Corr) : Prop := P .round ∧ P (.close ρ corr)

/-- May the round at a role be aborted, whatever exchange its gate is of? -/
structure MayAbort (P : Input → Prop) (ρ : RoleRef) : Prop where
  round : P .round
  unpin : P (.unpin ρ)
  close : ∀ corr, P (.close ρ corr)

theorem MayAbort.mayEnd {P : Input → Prop} {ρ : RoleRef} (h : MayAbort P ρ) (corr : Corr) :
    MayEnd P ρ corr := ⟨h.round, h.close corr⟩

/-- May step 5 run at a role? -/
structure MayStep5 (P : Input → Prop) (ρ : RoleRef) : Prop extends MayAbort P ρ where
  pin : P (.pin ρ)
  flip : P .flip

/-- May the deferral of a record end? It is open under an exchange that may. -/
def Node.MayClose (P : Input → Prop) (n : Node) (x : ExportRef) : Prop :=
  ∃ ρ corr, (n.role ρ).openMerges.get corr = some x ∧ P (.close ρ corr)

/-- The moves of a node. -/
inductive Move (cfg : Config) (P : Input → Prop) : Node → Node → Prop
  /-- Nothing of the core changes. -/
  | side {n n'} (h : n'.core = n.core) (happ : AppGrows n n') :
      Move cfg P n n'
  | role {n ρ r' es} (h : RoleMove cfg P n ρ r' es) :
      Move cfg P n { n.modifyRole ρ fun _ => r' with journal := es ++ n.journal }
  | park {n p} (h : Parkable P n p) : Move cfg P n (n.park p)
  /-- A suspended handler runs on. -/
  | unpark {n} (k : Nat) : Move cfg P n { n with parked := n.parked.delete k }
  /-- A role is made that is no root. -/
  | register {n} (t : TopicId) (readHolder : Bool) (hfree : n.roleAt t = none) :
      Move cfg P n (n.register { makeRole t false n.now with readHolder := readHolder }).1
  /-- A role is made as root. -/
  | born {n} (t : TopicId) (hP : P .mint) (hfree : n.roleAt t = none) :
      Move cfg P n ((n.register { makeRole t true n.now with
        epoch := succDouble (n.knownEpoch t) }).1.note (.minted t (succDouble (n.knownEpoch t))))
  /-- A role that was made only to stage leaves the table. -/
  | unregister {n} (t : TopicId) (hP : P .forget) (hr : P (.retire t)) :
      Move cfg P n { n with axonRoles := n.axonRoles.delete t }
  | retire {n} (t : TopicId) (ρ : RoleRef) (hP : P .forget) (hr : P (.retire t)) :
      Move cfg P n (n.retireRole t ρ)
  /-- The node's memory is reset. -/
  | wipe {n} (hP : P .forget) (hr : ∀ t, P (.retire t)) :
      Move cfg P n { n with axonRoles := ∅, rootBeacons := ∅, genHighWater := ∅ }
  | heard {n t root epoch} (hP : P (.beacon t root epoch)) :
      Move cfg P n (n.recordBeacon t root epoch)
  | plant {n t root} (exp : Int) (hP : P (.plant t root)) :
      Move cfg P n { n with rootBeacons := n.rootBeacons.set t ⟨root, n.now, exp, none, true⟩ }
  | dropBeacons {n} (keep : TopicId → Beacon → Bool) (hP : P .forget) :
      Move cfg P n { n with rootBeacons := n.rootBeacons.filter keep }
  | dropBeacon {n} (t : TopicId) (hP : P .forget) :
      Move cfg P n { n with rootBeacons := n.rootBeacons.delete t }
  | convict {n t root epoch} (exp : Int) (hP : P (.convict t root epoch)) (hexp : n.now < exp)
      (h : ∀ c, n.rootTombstones.get t = some c → c.epoch ≤ epoch) :
      Move cfg P n { n with rootTombstones := n.rootTombstones.set t ⟨root, epoch, exp⟩ }
  | lapse {n t c} (h : n.rootTombstones.get t = some c) (hexp : c.exp ≤ n.now) :
      Move cfg P n { n with rootTombstones := n.rootTombstones.delete t }
  /-- The epoch of an ended generation is remembered. -/
  | remember {n} (t : TopicId) (g : HighWater) (hP : P .forget) :
      Move cfg P n { n with genHighWater := n.genHighWater.set t g }
  | prune {n} (hP : P .forget) :
      Move cfg P n
        { n with genHighWater := n.genHighWater.filter fun _ g => n.world.mono < g.lapses }
  /-- An export record is made and opened. -/
  | offer {n} {t : TopicId} {ρ : RoleRef} (hat : n.roleAt t = some ρ) (corr : Corr) {m : Export}
      (hm : m.state = .offered) (hd : m.mark = (none, false))
      (hfree : (n.role ρ).merge.gate = none ∨ (n.role ρ).openMerges.get corr = none) :
      Move cfg P n ({ n with exports := (n.exports.alloc m).1 }.modifyRole ρ fun r =>
        { r with openMerges := r.openMerges.set corr n.exports.next })
  /-- Nothing that the bind fixed changes; a deferral may end. -/
  | annotate {n x m'} (h : m'.core = (n.exports.get x).core)
      (hd : m'.deferred = none ∨ m'.deferred = (n.exports.get x).deferred)
      (hs : m'.mark = (n.exports.get x).mark
        ∨ n.MayClose P x ∧ (m'.deferPinned = true → (n.exports.get x).deferPinned = true)) :
      Move cfg P n (n.modifyExport x fun _ => m')
  | rebid {n x} (e : Int) (h : (n.exports.get x).state = .offered) :
      Move cfg P n (n.modifyExport x fun m => { m with winnerEpoch := e })
  | complete {n} (x : ExportRef) (hP : P .round) (hs : n.MayClose P x) :
      Move cfg P n (n.modifyExport x fun m => { m with state := .completed })
  /-- The cut, the gate and the snapshot, in one. -/
  | bind {n ρ corr x r' m'} {g : Gate} (hP : P .round) (hroot : (n.role ρ).isRoot = true)
      (hgate : (n.role ρ).merge.gate = none) (hopen : (n.role ρ).openMerges.get corr = some x)
      (hoff : (n.exports.get x).state = .offered) (hcorr : g.corr = corr)
      (hr : r'.core = { (n.role ρ).core with gate := some g, gen := toInt32 (n.role ρ).gen + 1 })
      (hm : m'.manifest = ((n.role ρ).snapshot n.now).manifest) (hb : m'.state = .bound)
      (htB : m'.tBWall = n.now) (hd : m'.mark = (n.exports.get x).mark)
      (hbind : P (.bind ρ)) :
      Move cfg P n ((n.modifyRole ρ fun _ => r').modifyExport x fun _ => m')
  | endRound {n ρ r' corr} (hP : MayEnd P ρ corr ∨ (n.role ρ).merge.gate = none)
      (hgen : r'.gen = (n.role ρ).gen ∨ P (.bind ρ))
      (h : (n.role ρ).EndsRound r' corr) :
      Move cfg P n (n.modifyRole ρ fun _ => r')
  /-- The gate goes when no bound record stands under it. -/
  | ungate {n} (ρ : RoleRef) (hP : P .round)
      (h : ∀ g x, (n.role ρ).merge.gate = some g → (n.role ρ).openMerges.get g.corr = some x →
        (n.exports.get x).state ≠ .bound) :
      Move cfg P n (n.modifyRole ρ Role.gateClear)
  | acked {n ρ corr x a} (hopen : (n.role ρ).openMerges.get corr = some x)
      (hbound : (n.exports.get x).state = .bound) (hmatch : Node.ackMatches cfg (n.exports.get x) a)
      (hfull : Node.ackFull (n.exports.get x) a) (hlease : (n.exports.get x).leaseOk n.world)
      (hat : n.roleAt a.topicId = some ρ) (hcorr : a.corr = corr) :
      Move cfg P n (n.note (.acked ρ corr (n.exports.get x) a n.world))
  | defer {n ρ corr x} (a : ReplayAck) (hopen : (n.role ρ).openMerges.get corr = some x)
      (hbound : (n.exports.get x).state = .bound) (hacked : n.Acked ρ corr x)
      (hdefer : P (.defer ρ corr)) :
      Move cfg P n (n.modifyExport x fun m => { m with deferPinned := true, deferred := some a })
  /-- Step 5: the claim goes, on an acknowledged record within its lease. -/
  | flip {n ρ corr x} (hP : P .yield) (hroot : (n.role ρ).isRoot = true)
      (hopen : (n.role ρ).openMerges.get corr = some x) (hbound : (n.exports.get x).state = .bound)
      (hlease : (n.exports.get x).leaseOk n.world) (hacked : n.Acked ρ corr x)
      (hflip : P .flip) :
      Move cfg P n (n.descend ρ (.mergeStep5 corr (n.exports.get x)))
  | openPull {n} (ρ : RoleRef) (corr : Corr) {p : Pull} (hp : p.owed = ∅) (hP : P (.pull ρ)) :
      Move cfg P n ({ n with pulls := (n.pulls.alloc p).1 }.modifyRole ρ fun r =>
        { r with openPulls := r.openPulls.set corr n.pulls.next })
  | pull {n y p'} (h : p'.manifest = (n.pulls.get y).manifest)
      (hb : p'.baseline = (n.pulls.get y).baseline) (hP : P .tally) :
      Move cfg P n (n.modifyPull y fun _ => p')
  /-- The ids of the cache are pinned and are the baseline of the pull. -/
  | header {n ρ corr y p' r'} (hP : P .transfer) (hopen : (n.role ρ).openPulls.get corr = some y)
      (hp : p'.manifest = (n.pulls.get y).manifest)
      (hb : p'.baseline = (n.role ρ).cache.map (·.msgId))
      (hr : r'.core = { (n.role ρ).core with
        pins := (n.role ρ).merge.pins ∪ ((n.role ρ).cache.map (·.msgId)).toFinset }) :
      Move cfg P n ((n.modifyPull y fun _ => p').modifyRole ρ fun _ => r')
  /-- The ids of a frame are pinned and join the manifest. -/
  | slice {n ρ corr y} (s : Manifest) (hP : P .transfer)
      (hopen : (n.role ρ).openPulls.get corr = some y) :
      Move cfg P n ((n.modifyRole ρ fun r => r.pin s).modifyPull y fun p => { p with
        manifest := ⟨p.manifest.bodies ++ s.bodies, p.manifest.dels ++ s.dels⟩ })

/-- What a step does: moves, one after the other. -/
abbrev Moves (cfg : Config) (P : Input → Prop) : Node → Node → Prop :=
  Relation.ReflTransGen (Move cfg P)

/-- A role that was made stays made. -/
theorem Move.roles_next {cfg : Config} {P : Input → Prop} {n n' : Node} (h : Move cfg P n n') :
    n.roles.next ≤ n'.roles.next := by
  cases h with
  | side h => exact le_of_eq (congrArg (fun c => c.roles.next) h).symm
  | register | born => exact Nat.le_succ _
  | _ => exact le_refl _

theorem Moves.roles_next {cfg : Config} {P : Input → Prop} {n n' : Node} (h : Moves cfg P n n') :
    n.roles.next ≤ n'.roles.next :=
  moves_climb (P := fun n n' : Node => n.roles.next ≤ n'.roles.next) (fun _ => le_refl _) le_trans
    (fun _ _ h => h.roles_next) h

end Axona
