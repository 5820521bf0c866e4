import NacAbe.Interface.KeyObjects

/-!
# Where a deferred reply reads its request

The continuation that waits for a certificate has captured the request by reference
(attribute-authority.cpp:107-108), while the face keeps the Interest for the length of
the handler only.  Here an Interest object is at a place, a place holds a name, and
what is at a place changes with every delivery and with anything else the process puts
there; a certificate fetch remembers the place, and for the record the name of the
request that started it.
-/

set_option autoImplicit false

namespace NacAbe

/-- A certificate that has been asked for and has not come. -/
structure CertificateFetch where
  keyName : Name
  /-- Where the Interest object was that the continuation refers to. -/
  place : ℕ
  /-- The name of the request that started the fetch. -/
  startedBy : Name
deriving DecidableEq, Repr

/-- An authority with the storage its continuations read. -/
structure ServingAuthority (Token : Type) where
  authority : AttributeAuthority Token
  /-- The name that an Interest object at a place is read to have. -/
  storage : ℕ → Name
  fetches : List CertificateFetch
  /-- What the completions of fetches have generated. -/
  completed : List (CertificateFetch × Generation)

namespace ServingAuthority

variable {Token : Type}

inductive Event (Token : Type)
  | addNewPolicy (decryptorIdentityName : Name) (token : Token)
  | addNewPolicyCert (decryptorCert : Certificate) (token : Token)
  | publicParamsRequest (interest : Interest) (now : ℕ)
  /-- A DKEY Interest is delivered as an object at a place. -/
  | decryptionKeyRequest (place : ℕ) (request : Interest) (now seed : ℕ)
  /-- The place is released, or used for something else. -/
  | overwrite (place : ℕ) (name : Name)
  /-- Data arrives for an outstanding fetch and the validator has decided. -/
  | certificateData (position : ℕ) (data : Data) (digest : Bytes)
      (keyPacket accepted : Bool) (now seed : ℕ)
  /-- A nack or a timeout for one. -/
  | certificateFailure (position : ℕ)

variable (keyGen : KeyGen Token) (crypto : Crypto)

/-- The key names whose certificates an event asks for. -/
def asked (effects : List (AuthorityEffect Token)) : List Name :=
  effects.filterMap fun
    | .expressInterest keyName => some keyName
    | _ => none

/-- An event of the authority that starts and ends no fetch. -/
def handle (x : ServingAuthority Token) (e : AttributeAuthority.Event Token) :
    ServingAuthority Token :=
  { x with authority := AttributeAuthority.next keyGen crypto x.authority e }

/-- What the authority makes of the Data for a fetch: its continuation reads the request
where it was. -/
def completion (x : ServingAuthority Token) (fetch : CertificateFetch) (data : Data)
    (digest : Bytes) (keyPacket accepted : Bool) (now seed : ℕ) :
    AttributeAuthority.Event Token :=
  .certificateData fetch.keyName data digest keyPacket accepted (x.storage fetch.place) now seed

def next (x : ServingAuthority Token) : Event Token → ServingAuthority Token
  | .addNewPolicy identityName token => x.handle keyGen crypto (.addNewPolicy identityName token)
  | .addNewPolicyCert cert token => x.handle keyGen crypto (.addNewPolicyCert cert token)
  | .publicParamsRequest interest now => x.handle keyGen crypto (.publicParamsRequest interest now)
  | .decryptionKeyRequest place request now seed =>
    let e : AttributeAuthority.Event Token := .decryptionKeyRequest request now seed
    let started := asked (AttributeAuthority.newEffects keyGen crypto x.authority e)
    { x.handle keyGen crypto e with
      storage := Function.update x.storage place request.name
      fetches := x.fetches ++ started.map fun keyName => ⟨keyName, place, request.name⟩ }
  | .overwrite place name => { x with storage := Function.update x.storage place name }
  | .certificateData position data digest keyPacket accepted now seed =>
    match x.fetches[position]? with
    | none => x
    | some fetch =>
      let e := x.completion fetch data digest keyPacket accepted now seed
      let made := AttributeAuthority.generations
        (AttributeAuthority.newEffects keyGen crypto x.authority e)
      let matched := (⟨fetch.keyName, true, none, none⟩ : Interest).matchesData data digest
      { x.handle keyGen crypto e with
        fetches := if matched then x.fetches.eraseIdx position else x.fetches
        completed := x.completed ++ made.map fun g => (fetch, g) }
  | .certificateFailure position =>
    match x.fetches[position]? with
    | none => x
    | some fetch =>
      { x.handle keyGen crypto (.certificateFailure fetch.keyName) with
        fetches := x.fetches.eraseIdx position }

/-- An authority that nobody has asked anything. -/
def start (aa : AttributeAuthority Token) (storage : ℕ → Name) : ServingAuthority Token :=
  ⟨aa, storage, [], []⟩

def run (x : ServingAuthority Token) (events : List (Event Token)) : ServingAuthority Token :=
  Runs.after (next keyGen crypto) x events

end ServingAuthority

end NacAbe
