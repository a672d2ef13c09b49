import Axona.Transport.MeshAuth

/-! # The attested capability

Once a channel is bound, each end tells the other by a signed frame that it can acknowledge write
flights (`capAttest.js`). The frame names no key and no channel: it is checked with the key that the
handshake proved and against the channel binding value at this end. `MeshAuth` keeps both from the
moment it binds, and a frame that came before is kept until then.

`CapNode` is a `MeshNode` with what the handshakes keep for this. `proven` notes what a handshake
was bound by; the code does not have it. -/

namespace Axona

open Library

/-! ### The attestation -/

/-- `CAP_DOMAIN` -/
def capDomain : Text := "AXONA_CAP_ATTEST_V1".toList

/-- `WRITE_FLIGHT_ACK_V1` -/
def writeFlightAckV1 : Text := "write-flight-ack-v1".toList

/-- The bytes of an ASCII text. -/
def asciiBytes (t : Text) : List Nat := t.map Char.toNat

/-- A `cap-attest` frame as it came in; the signature is what `String` makes of it. -/
structure CapFrame where
  capId : Option Text
  nodeId : Option Text
  sig : Text
deriving DecidableEq, Repr

/-- What the check of an attestation rests on. -/
structure CapPrimitives extends AuthPrimitives where
  /-- The SHA-256 of a channel binding value. -/
  cbvDigest : Text → List Nat
  /-- The check of a signature over bytes; `none` where it throws. -/
  verifyBytes : List Nat → List Nat → List Nat → Option Bool

/-- Why an attestation is refused. -/
inductive CapFailure where
  | noFrame
  | badCapId
  | noPeerKey
  | noExpectedNodeId
  | nodeIdMismatch
  | badSigLen
  | badCbv
  | badNodeId
  | badDigest
  | verifyThrew
  | badSignature
deriving DecidableEq, Repr

/-- `buildCapTranscript`: what is signed. -/
def buildCapTranscript (nodeId : Text) (digest : List Nat) : Except CapFailure (List Nat) :=
  match hexOfWidth 33 nodeId with
  | none => .error .badNodeId
  | some node =>
    if digest.length ≠ 32 then .error .badDigest
    else
      .ok (asciiBytes capDomain ++ writeFlightAckV1.length :: asciiBytes writeFlightAckV1 ++ node
        ++ digest)

/-- The transcript under the checker's own channel binding value. -/
def capTranscript (P : CapPrimitives) (nodeId cbv : Text) : Except CapFailure (List Nat) :=
  if cbv = [] then .error .badCbv else buildCapTranscript nodeId (P.cbvDigest cbv)

/-- `verifyCapAttest`: the key, the id and the channel binding value are the checker's. -/
def verifyCapAttest (P : CapPrimitives) (frame : Option CapFrame) (peerKey : Option (List Nat))
    (expectedNodeId : Option Text) (cbv : Text) : Except CapFailure Text :=
  match frame with
  | none => .error .noFrame
  | some f =>
    if f.capId ≠ some writeFlightAckV1 then .error .badCapId
    else
      match peerKey with
      | none => .error .noPeerKey
      | some key =>
        let expected := expectedNodeId.getD []
        if expected = [] then .error .noExpectedNodeId
        else if f.nodeId.map lc ≠ some (lc expected) then .error .nodeIdMismatch
        else
          match hexOfWidth 64 f.sig with
          | none => .error .badSigLen
          | some sig =>
            match capTranscript P expected cbv with
            | .error e => .error e
            | .ok transcript =>
              match P.verifyBytes key transcript sig with
              | none => .error .verifyThrew
              | some false => .error .badSignature
              | some true => .ok (lc expected)

/-- An attestation that passes carries a signature of the checker's key over a transcript with the
checker's value. -/
theorem of_verifyCapAttest {P : CapPrimitives} {frame : Option CapFrame} {key : List Nat}
    {expectedNodeId : Option Text} {cbv nodeId : Text}
    (h : verifyCapAttest P frame (some key) expectedNodeId cbv = .ok nodeId) :
    ∃ transcript sig, capTranscript P (expectedNodeId.getD []) cbv = .ok transcript
      ∧ P.verifyBytes key transcript sig = some true := by
  unfold verifyCapAttest at h
  split at h
  · cases h
  next f =>
  simp only [] at h
  iterate 3
    split at h
    · cases h
  split at h
  · cases h
  next sig _ =>
  split at h
  · cases h
  next transcript htranscript =>
  split at h
  · cases h
  · cases h
  next hverify => exact ⟨transcript, sig, htranscript, hverify⟩

/-! ### The handshakes -/

/-- What a handshake keeps for the attestation. -/
structure CapState where
  peerPubkey : Option Text
  cbv : Option Text
  /-- An attestation that came before the binding: `some none` is a body that is no object. -/
  pendingCap : Option (Option CapFrame)
  capable : Bool
  /-- The id it was bound to, and the channel binding value that was proven over. -/
  proven : Option (Text × Text)

/-- What is kept from the binding on. -/
def CapState.settle (c : CapState) (shown : Option Text) (nodeId cbv : Text) : CapState :=
  { c with
    peerPubkey := shown
    cbv := some cbv
    pendingCap := none
    proven := some (nodeId, cbv) }

/-- An attestation that is being checked. -/
structure CapCheck where
  st : Ref
  result : Except CapFailure Text

structure CapNode where
  mesh : MeshNode
  caps : Heap CapState
  checks : OrderedMap Nat CapCheck
  nextCheck : Nat

/-- The key that the proof now at hand shows. -/
def AuthState.shownKey (st : AuthState) : Option Text := st.pendingSig.join.bind (·.pubkey)

/-- The binding an act of the mesh ends in: the handshake, the id proven, and the channel binding
value. -/
def MeshNode.binding (allowed : Text → Bool) (s : MeshNode) :
    MeshNode.Act → Option (Ref × Text × Text)
  | .resume k =>
    match s.tasks.get k with
    | some (.verify _ r cbv (.ok nodeId) _) =>
      if accepts allowed (s.handshakes.get r) nodeId then some (r, nodeId, cbv) else none
    | _ => none
  | _ => none

namespace CapNode

def init : CapNode := ⟨.init, .empty ⟨none, none, none, false, none⟩, ∅, 0⟩

/-- `_verifyCap`: the check of an attestation begins. -/
def verifyCap (P : CapPrimitives) (s : CapNode) (r : Ref) (body : Option (Option CapFrame)) :
    CapNode :=
  let c := s.caps.get r
  if c.capable then s
  else
    match c.peerPubkey.bind (hexOfWidth 32) with
    | none => s
    | some key =>
      let result := verifyCapAttest P body.join (some key) (s.mesh.handshakes.get r).peerNodeId
        (c.cbv.getD [])
      { s with checks := s.checks.set s.nextCheck ⟨r, result⟩, nextCheck := s.nextCheck + 1 }

/-- The end of `_progress`, once the peer is bound. -/
def onBound (P : CapPrimitives) (s : CapNode) (r : Ref) (nodeId cbv : Text) : CapNode :=
  let pending := (s.caps.get r).pendingCap
  let shown := (s.mesh.handshakes.get r).shownKey
  let s := { s with caps := s.caps.modify r fun c => c.settle shown nodeId cbv }
  if pending.isSome then s.verifyCap P r pending else s

/-- `onCapAttest` -/
def onCapAttest (P : CapPrimitives) (s : CapNode) (m : MeshId) (body : Option (Option CapFrame)) :
    CapNode :=
  match s.mesh.states.get m with
  | none => s
  | some r =>
    let c := s.caps.get r
    if (s.mesh.handshakes.get r).bound = false ∨ c.peerPubkey.getD [] = [] ∨ c.cbv.getD [] = [] then
      { s with caps := s.caps.modify r fun c => { c with pendingCap := body } }
    else s.verifyCap P r body

/-- The mesh id an attestation is taken to be of: a peer that is bound is named by its node id, and
its mesh id is looked up again. -/
def attester (s : MeshNode) (inc : Inc) : Option MeshId :=
  if s.webrtc.started then
    (s.delivers inc).bind fun m =>
      (match s.webrtc.nodeIdByMeshId.get m with
        | some nodeId => s.webrtc.meshIdByNodeId.get nodeId
        | none => some m).filter fun m => m ≠ []
  else none

/-- `isCapable` -/
def isCapable (s : CapNode) (m : MeshId) : Bool :=
  (s.mesh.states.get m).any fun r => (s.caps.get r).capable

inductive Act where
  | mesh (a : MeshNode.Act)
  | capAttest (inc : Inc) (body : Option (Option CapFrame))
  /-- The check of an attestation ends. -/
  | checked (k : Nat)

def step (P : CapPrimitives) (allowed : Text → Bool) (s : CapNode) : Act → CapNode
  | .mesh a =>
    let next := { s with mesh := s.mesh.step P.toAuthPrimitives allowed a }
    match s.mesh.binding allowed a with
    | none => next
    | some (r, nodeId, cbv) => next.onBound P r nodeId cbv
  | .capAttest inc body =>
    match attester s.mesh inc with
    | none => s
    | some m => s.onCapAttest P m body
  | .checked k =>
    match s.checks.get k with
    | none => s
    | some check =>
      let s := { s with checks := s.checks.delete k }
      match check.result with
      | .error _ => s
      | .ok _ => { s with caps := s.caps.modify check.st fun c => { c with capable := true } }

end CapNode

end Axona
