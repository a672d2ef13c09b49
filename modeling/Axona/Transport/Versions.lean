import Axona.Library.Double
import Axona.Pubsub.Envelope
import Mathlib.Order.Std

/-! # The version handshake

What a client and a bridge tell each other of their versions before anything else crosses a
channel, and on what terms each of them goes on (`transport/handshake.js`). The wire versions have
to agree in their major part, and the version of the peer is not to be below the minimum of the
server, in the order of `compareVersions`.

A version is a text. `parseVersion` reads its three numbers as doubles and keeps what follows the
`-` or the `+` as it stands; texts are compared by their UTF-16 units. -/

namespace Axona

open Library

/-! ### Versions -/

/-- The UTF-16 units of a character. -/
def utf16 (c : Char) : List Nat :=
  if c.toNat < 0x10000 then [c.toNat]
  else [0xd800 + (c.toNat - 0x10000) / 0x400, 0xdc00 + (c.toNat - 0x10000) % 0x400]

/-- The order of strings. -/
def compareText (s t : Text) : Ordering := compare (s.flatMap utf16) (t.flatMap utf16)

/-- The double that the digits of a number are read as, `⊤` for `Infinity`. -/
def toDouble (n : Nat) : WithTop Nat :=
  if roundDouble n < 2 ^ 1024 then ((roundDouble n).toNat : WithTop Nat) else ⊤

/-- What `parseVersion` returns. -/
structure ParsedVersion where
  major : WithTop Nat
  minor : WithTop Nat
  patch : WithTop Nat
  pre : Text
deriving DecidableEq

/-- `(\d+)`: the digits in front and the rest. -/
def matchDigits (s : Text) : Option (Nat × Text) :=
  match s.takeWhile Char.isDigit with
  | [] => none
  | d :: ds => some (Nat.ofDigitChars 10 (d :: ds) 0, s.dropWhile Char.isDigit)

/-- A character that `.` does not match. -/
def isLineTerminator (c : Char) : Bool :=
  c == '\n' || c == '\r' || c == '\u2028' || c == '\u2029'

/-- `(?:[-+](.+))?$` -/
def matchTail : Text → Option Text
  | [] => some []
  | c :: t => if (c == '-' || c == '+') && !t.isEmpty && !t.any isLineTerminator then some t else
    none

/-- `parseVersion`; `none` where it throws. -/
def parseVersion (s : Text) : Option ParsedVersion := do
  let (major, s) ← matchDigits s
  let s ← if s.head? = some '.' then some s.tail else none
  let (minor, s) ← matchDigits s
  let s ← if s.head? = some '.' then some s.tail else none
  let (patch, s) ← matchDigits s
  let pre ← matchTail s
  return ⟨toDouble major, toDouble minor, toDouble patch, pre⟩

/-- The comparison of what follows the numbers: nothing comes last. -/
def comparePre (s t : Text) : Ordering :=
  if s = [] ∧ t ≠ [] then .gt
  else if s ≠ [] ∧ t = [] then .lt
  else compareText s t

/-- The order of doubles. -/
def compareDouble (x y : WithTop Nat) : Ordering := WithTop.linearOrder.compare x y

/-- `compareVersions`, of what was parsed. -/
def ParsedVersion.compareTo : ParsedVersion → ParsedVersion → Ordering :=
  compareLex (fun A B => compareDouble A.major B.major) <|
    compareLex (fun A B => compareDouble A.minor B.minor) <|
      compareLex (fun A B => compareDouble A.patch B.patch)
        fun A B => comparePre A.pre B.pre

/-- `compareVersions`; `none` where it throws. -/
def compareVersions (a b : Text) : Option Ordering := do
  let A ← parseVersion a
  let B ← parseVersion b
  return A.compareTo B

/-- `wireCompatible` -/
def wireCompatible (a b : Text) : Bool :=
  decide (a.takeWhile (fun c => c != '.') = b.takeWhile fun c => c != '.')

/-! ### The handshake -/

/-- A hello, or another frame. -/
inductive HelloFrame where
  | clientHello (version wireVersion : Text) (capabilities : List Text)
  | serverHello (version wireVersion minPeerVersion : Text) (downloadUrl : Option Text)
  | other
deriving DecidableEq

/-- Why a side turns the other away. -/
inductive VersionError where
  /-- `malformed_server_hello` -/
  | malformedServerHello (received : HelloFrame)
  /-- `malformed_client_hello` -/
  | malformedClientHello (received : HelloFrame) (downloadUrl : Option Text)
  /-- `wire_version_mismatch` -/
  | wireVersionMismatch (clientVersion serverVersion : Text) (downloadUrl : Option Text)
  /-- `peer_too_old` -/
  | peerTooOld (clientVersion serverVersion minPeerVersion : Text) (downloadUrl : Option Text)
  /-- A version that `parseVersion` throws at. -/
  | notASemver
deriving DecidableEq

/-- `buildClientHello` -/
def buildClientHello (version wireVersion : Text) (capabilities : List Text) : HelloFrame :=
  .clientHello version wireVersion capabilities

/-- `buildServerHello`: an empty address is left out. -/
def buildServerHello (version wireVersion minPeerVersion : Text) (downloadUrl : Option Text) :
    HelloFrame :=
  .serverHello version wireVersion minPeerVersion (downloadUrl.filter fun u => u ≠ [])

/-- How a client is configured. -/
structure HelloClient where
  version : Text
  wireVersion : Text
  capabilities : List Text

/-- How a server is configured. -/
structure HelloServer where
  version : Text
  minPeerVersion : Text
  wireVersion : Text
  downloadUrl : Option Text

/-- What the client sends. -/
def HelloClient.hello (c : HelloClient) : HelloFrame :=
  buildClientHello c.version c.wireVersion c.capabilities

/-- What the server sends, whether it admits the client or not. -/
def HelloServer.hello (s : HelloServer) : HelloFrame :=
  buildServerHello s.version s.wireVersion s.minPeerVersion s.downloadUrl

/-- `performClientHandshake`, once a frame has come. -/
def performClientHandshake (c : HelloClient) (received : HelloFrame) :
    Except VersionError HelloFrame :=
  match received with
  | .serverHello version wireVersion minPeerVersion downloadUrl =>
    if wireCompatible c.wireVersion wireVersion = false then
      .error (.wireVersionMismatch c.version version downloadUrl)
    else
      match compareVersions c.version minPeerVersion with
      | none => .error .notASemver
      | some .lt => .error (.peerTooOld c.version version minPeerVersion downloadUrl)
      | some _ => .ok received
  | _ => .error (.malformedServerHello received)

/-- `performServerHandshake`, once a frame has come. -/
def performServerHandshake (s : HelloServer) (received : HelloFrame) :
    Except VersionError HelloFrame :=
  match received with
  | .clientHello version wireVersion _ =>
    if wireCompatible s.wireVersion wireVersion = false then
      .error (.wireVersionMismatch version s.version s.downloadUrl)
    else
      match compareVersions version s.minPeerVersion with
      | none => .error .notASemver
      | some .lt => .error (.peerTooOld version s.version s.minPeerVersion s.downloadUrl)
      | some _ => .ok received
  | _ => .error (.malformedClientHello received s.downloadUrl)

end Axona
