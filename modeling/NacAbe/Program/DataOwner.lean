import NacAbe.Program.Producer

/-!
# `DataOwner`

Builds and signs SET_POLICY Interests and interprets the replies.  The object has no
state that changes; what it is waiting for and what it has reported to its callbacks
stand in the record below.
-/

set_option autoImplicit false

namespace NacAbe

/-- `m_keyChain.sign(interest, ..)`: it may append components to the name, and what it
signs with is drawn anew each time. -/
structure Signer where
  appended : Interest → ℕ → List Component
  signature : Interest → ℕ → Bytes

def Signer.sign (signer : Signer) (interest : Interest) (seed : ℕ) : Interest :=
  { interest with
    name := interest.name ++ signer.appended interest seed
    signature := some (signer.signature interest seed) }

/-- A command that TLV can carry: its components, their total length and the lengths of
its attributes are within the format's range. -/
def PolicyCommand.Encodable : PolicyCommand → Prop
  | .policy dataPrefix _ => (∀ c ∈ dataPrefix, c.Valid) ∧ dataPrefix.wireEncode.Valid
  | .attributes dataPrefix attrs => (∀ c ∈ dataPrefix, c.Valid) ∧
      dataPrefix.wireEncode.Valid ∧ ∀ a ∈ attrs, a.length < 2 ^ 64

instance (command : PolicyCommand) : Decidable command.Encodable :=
  match command with
  | .policy _ _ => inferInstanceAs (Decidable (_ ∧ _))
  | .attributes _ _ => inferInstanceAs (Decidable (_ ∧ _ ∧ _))

def PolicyCommand.dataPrefix : PolicyCommand → Name
  | .policy dataPrefix _ => dataPrefix
  | .attributes dataPrefix _ => dataPrefix

/-- A call of `commandProducerPolicy`. -/
structure OwnerCommand where
  producerPrefix : Name
  command : PolicyCommand
  encodable : command.Encodable

/-- What the callbacks of a command are told. -/
inductive CommandReport
  | success (validData : Data)
  | error (what : String)
deriving DecidableEq, Repr

/-- A command and the Interest that went out for it. -/
structure SentCommand where
  command : OwnerCommand
  interest : Interest

structure DataOwner where
  outstanding : List SentCommand
  reported : List (SentCommand × CommandReport)

namespace DataOwner

def initial : DataOwner := ⟨[], []⟩

/-- The loop of `commandProducerPolicy` for an attribute list: a block is put before the
others for each attribute from the last to the first, data-owner.cpp:99-104. -/
def encodeAttributes (attributes : List Bytes) : Bytes :=
  attributes.reverse.foldl (fun enc a => (⟨tlvAttribute, a⟩ : Block).encode ++ enc) []

/-- The octets a command hands to `commandProducerPolicyImpl`. -/
def policyOctets : PolicyCommand → Bytes
  | .policy _ policy => policy
  | .attributes _ attributes => encodeAttributes attributes

/-- The name of the Interest before it is signed, data-owner.cpp:45-48. -/
def policyName (command : OwnerCommand) : Name :=
  command.producerPrefix ++ [setPolicyComponent,
    Component.generic command.command.dataPrefix.wireEncode.encode,
    Component.generic (policyOctets command.command)]

/-- `commandProducerPolicy` and `commandProducerPolicyImpl`, data-owner.cpp:39-109. -/
def commandProducerPolicy (signer : Signer) (command : OwnerCommand) (seed : ℕ) :
    Prog DataOwner Exn Empty Unit := do
  let interest ← Interest.ofName (policyName command)
  modify fun owner => { owner with
    outstanding := owner.outstanding ++ [⟨command, signer.sign interest seed⟩] }

/-- `validationCallback`, data-owner.cpp:54-62. -/
def validationCallback (validData : Data) : CommandReport :=
  if validData.content ≠ ascii "success" then .error "register failed" else .success validData

/-- Data arrives: the face hands it to `dataCallback` of every Interest that it matches,
which looks at the match once more, data-owner.cpp:64-69. -/
def onData (data : Data) (digest : Bytes) : Prog DataOwner Exn Empty Unit := do
  let waits := fun sent : SentCommand => sent.interest.matchesData data digest
  let answered := (← get).outstanding.filter waits
  modify fun owner => { owner with outstanding := owner.outstanding.filter (!waits ·) }
  Prog.forEach (fun sent =>
    if sent.interest.matchesData data digest then
      modify fun owner =>
        { owner with reported := owner.reported ++ [(sent, validationCallback data)] }
    else pure ()) answered

/-- A nack or a timeout for the command at a position among the outstanding ones. -/
def onFailure (position : ℕ) (isNack : Bool) : Prog DataOwner Exn Empty Unit := do
  match (← get).outstanding[position]? with
  | some sent =>
    modify fun owner => { owner with outstanding := owner.outstanding.eraseIdx position }
    let what := if isNack then "nack" else "time out"
    modify fun owner => { owner with reported := owner.reported ++ [(sent, .error what)] }
  | none => pure ()

end DataOwner

end NacAbe
