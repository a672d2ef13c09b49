import Axona.Dht.Hexid
import Axona.Identity.Keys
import Axona.Library.Transition

/-! # A durable author

`createAuthorIdentity({ persistAs })` (`identity/index.js`), await by await: the envelope under the
key is read and loaded; where that does not give an author a new one is minted, written under the
key, and returned. Several calls may be under way with one key, and the store and the key import may
fail at any of them. -/

namespace Axona

/-- A persistence envelope as it is read. A field that is missing, or not of its kind, is `none`. -/
structure AuthorEnvelope where
  pubkey : Option Text
  privkey : Option Text
  createdAt : Option Int
deriving DecidableEq

/-- What the store has under the key. -/
inductive Saved where
  | nothing
  /-- A text that `JSON.parse` refuses. -/
  | broken
  | envelope (env : AuthorEnvelope)
deriving DecidableEq

structure AuthorIdentity (Priv : Type*) where
  pubkey : PubKey
  privateKey : Priv
  createdAt : Int

/-- Where a call stands. -/
inductive AuthorCall (Priv : Type*) where
  | reading
  | loading (saved : Saved)
  | minting
  | saving (privateKey : Priv) (createdAt : Int)
  | returning (privateKey : Priv) (createdAt : Int)
  | returned (id : AuthorIdentity Priv)
  | failed

/-- What happens to a call. -/
inductive AuthorMove (Priv : Type*) where
  /-- `st.get` reads the store. -/
  | get
  | getFails
  /-- The envelope is loaded. A key that is there may still fail to be imported. -/
  | load (imports : Bool) (now : Int)
  /-- A key pair is generated, or the generation fails. -/
  | mint (k : Option Priv) (now : Int)
  /-- `st.set` takes effect. -/
  | save
  /-- The key is not exported, or `st.set` fails. -/
  | saveFails
  | finish

inductive AuthorAct (Priv : Type*) where
  | call
  | go (i : Nat) (m : AuthorMove Priv)

/-- The store under the key, and the calls with it. -/
structure AuthorStore (Priv : Type*) where
  saved : Saved
  calls : List (AuthorCall Priv)

variable {Priv : Type*} (K : KeySystem Priv)

/-- The author of a key pair that was minted. -/
def mintedAuthor (privateKey : Priv) (createdAt : Int) : AuthorIdentity Priv :=
  ⟨K.publicKey privateKey, privateKey, createdAt⟩

/-- `dumpAuthorIdentity` -/
def dumpAuthorIdentity (id : AuthorIdentity Priv) : AuthorEnvelope :=
  ⟨some id.pubkey.hex, some (K.exportKey id.privateKey), some id.createdAt⟩

/-- `loadAuthorIdentity`, where the key is imported. -/
def loadAuthorIdentity (now : Int) (env : AuthorEnvelope) : Option (AuthorIdentity Priv) :=
  match env.pubkey.bind PubKey.ofHex, env.privkey.bind K.importKey with
  | some pubkey, some privateKey =>
    if K.signsFor privateKey pubkey then
      some ⟨pubkey, privateKey, env.createdAt.getD now⟩
    else none
  | _, _ => none

/-- The key of a valid envelope. -/
def Saved.author : Saved → Option PubKey
  | .envelope env => (loadAuthorIdentity K 0 env).map (·.pubkey)
  | _ => none

namespace AuthorStore

/-- What a call makes of what it read: it returns the author, or goes on to mint one. -/
def loaded (imports : Bool) (now : Int) : Saved → AuthorCall Priv
  | .envelope env =>
    if imports then (loadAuthorIdentity K now env).elim .minting .returned else .minting
  | _ => .minting

/-- `createAuthorIdentity`, from one await to the next. -/
def move (saved : Saved) : AuthorCall Priv → AuthorMove Priv → Saved × AuthorCall Priv
  | .reading, .get => (saved, .loading saved)
  | .reading, .getFails => (saved, .minting)
  | .loading v, .load imports now => (saved, loaded K imports now v)
  | .minting, .mint (some k) now => (saved, .saving k now)
  | .minting, .mint none _ => (saved, .failed)
  | .saving k t, .save =>
    (.envelope (dumpAuthorIdentity K (mintedAuthor K k t)), .returning k t)
  | .saving k t, .saveFails => (saved, .returning k t)
  | .returning k t, .finish => (saved, .returned (mintedAuthor K k t))
  | c, _ => (saved, c)

def step (s : AuthorStore Priv) : AuthorAct Priv → AuthorStore Priv
  | .call => { s with calls := s.calls ++ [.reading] }
  | .go i m =>
    match s.calls[i]? with
    | none => s
    | some c => ⟨(move K s.saved c m).1, s.calls.set i (move K s.saved c m).2⟩

/-- The author that is stored. -/
def author (s : AuthorStore Priv) : Option PubKey := s.saved.author K

/-- The call has minted the key pair and not returned the author. -/
def Holds (s : AuthorStore Priv) (i : Nat) (k : Priv) : Prop :=
  ∃ t, s.calls[i]? = some (.saving k t) ∨ s.calls[i]? = some (.returning k t)

/-- What is asked of a step: the author that is stored stays, and is the one that is returned. -/
structure AuthorKept (s : AuthorStore Priv) (a : AuthorAct Priv) : Prop where
  stays : ∀ x, s.author K = some x → (s.step K a).author K = some x
  returns : ∀ x (i : Nat) id, s.author K = some x → (s.step K a).calls[i]? = some (.returned id) →
    s.calls[i]? ≠ some (.returned id) → id.pubkey = x

/-- Nobody is in the way: a key pair is generated while none is stored, and an envelope is written
while nobody else holds one. -/
def Uncontested (s : AuthorStore Priv) : AuthorAct Priv → Prop
  | .go i (.mint (some k) _) =>
    s.calls[i]? = some .minting → ∀ x, s.author K = some x → x = K.publicKey k
  | .go i .save => ∀ k t, s.calls[i]? = some (.saving k t) →
    ∀ j k', s.Holds j k' → K.publicKey k' = K.publicKey k
  | _ => True

/-- The call has come to its end. -/
def ended : AuthorCall Priv → Bool
  | .returned _ => true
  | .failed => true
  | _ => false

end AuthorStore

end Axona
