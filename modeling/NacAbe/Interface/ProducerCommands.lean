import NacAbe.Interface.PolicyStore

/-!
# SET_POLICY commands

What an authentic SET_POLICY Interest tells a producer, as a value: `commandOf` reads
it off the name in the way `onPolicyInterest` does, and `exec_onPolicyInterest` says
that the delivery of an Interest is the installation of its command and a reply.
-/

set_option autoImplicit false

namespace NacAbe

namespace Producer

/-- Carry out a command. -/
def install (producer : Producer) : PolicyCommand → Producer
  | .policy dataPrefix policy => producer.addNewPolicy dataPrefix policy
  | .attributes dataPrefix attributes => producer.addNewAttributes dataPrefix attributes

/-- The data prefix an Interest names. -/
def dataPrefixOf (producer : Producer) (interest : Interest) : Except Exn Name := do
  let dataPrefixBlock ← interest.name.atPos (producer.m_cert.getIdentity.length + 1)
  Name.ofBlock (← Block.blockFromValue dataPrefixBlock)

/-- The value an Interest carries, read as the mode has it; none in an unknown mode. -/
def commandOf (producer : Producer) (dataPrefix : Name) (interest : Interest) :
    Except Exn (Option PolicyCommand) :=
  if producer.m_paramFetcher.m_abeType = abeTypeCpAbe then do
    let policyBlock ← interest.name.atPos (producer.m_cert.getIdentity.length + 2)
    return some (.policy dataPrefix policyBlock.value)
  else if producer.m_paramFetcher.m_abeType = abeTypeKpAbe then do
    let attrBlock ← interest.name.atPos (producer.m_cert.getIdentity.length + 2)
    let elements ← Block.elements attrBlock
    return some (.attributes dataPrefix (elements.map (·.value)))
  else return none

/-- Whether `onPolicyInterest` takes an Interest for authentic. -/
def authentic (auth : Authentication) (producer : Producer) (interest : Interest) : Bool :=
  match producer.m_trustConfig.findCertificateFromLocal producer.m_dataOwnerKeyName with
  | some dataOwnerKey => auth.verifySignature interest dataOwnerKey
  | none => auth.validate interest

/-- The state after a command, or none, has been carried out and answered. -/
def answered (producer : Producer) (interest : Interest) : Option PolicyCommand → Producer
  | some command =>
    { producer.install command with
      sent := producer.sent ++ [⟨interest.name, ascii "success"⟩] }
  | none => { producer with sent := producer.sent ++ [⟨interest.name, ascii "failure"⟩] }

/-- The state after `generateReply`: nothing changes when the value cannot be read. -/
def replying (producer : Producer) (dataPrefix : Name) (interest : Interest) : Producer :=
  match commandOf producer dataPrefix interest with
  | .error _ => producer
  | .ok command => producer.answered interest command

/-- The state after a delivery: only an authentic Interest whose name can be read is
replied to. -/
def delivered (auth : Authentication) (producer : Producer) (interest : Interest) : Producer :=
  match dataPrefixOf producer interest with
  | .error _ => producer
  | .ok dataPrefix =>
    if authentic auth producer interest then producer.replying dataPrefix interest else producer

/-- A delivery changes nothing, or answers a command that it reads. -/
theorem delivered_cases (auth : Authentication) (producer : Producer) (interest : Interest) :
    producer.delivered auth interest = producer ∨
      ∃ dataPrefix command, authentic auth producer interest = true ∧
        producer.dataPrefixOf interest = .ok dataPrefix ∧
        producer.commandOf dataPrefix interest = .ok command ∧
        producer.delivered auth interest = producer.answered interest command := by
  unfold delivered
  cases hprefix : producer.dataPrefixOf interest with
  | error err => exact Or.inl rfl
  | ok dataPrefix =>
    dsimp only
    split
    · next hauth =>
      unfold replying
      cases hcommand : producer.commandOf dataPrefix interest with
      | error err => exact Or.inl rfl
      | ok command => exact Or.inr ⟨dataPrefix, command, hauth, rfl, hcommand, rfl⟩
    · exact Or.inl rfl

/-- How `generateReply` ends: by an exception when the value cannot be read. -/
def replyResult (producer : Producer) (dataPrefix : Name) (interest : Interest) :
    Except Exn Unit := do
  let _ ← producer.commandOf dataPrefix interest
  return ()

/-- How a delivery ends. -/
def deliveryResult (auth : Authentication) (producer : Producer) (interest : Interest) :
    Except Exn Unit := do
  let dataPrefix ← producer.dataPrefixOf interest
  if authentic auth producer interest then producer.replyResult dataPrefix interest else return ()

/-- What the reply to a command does. -/
theorem exec_generateReply (producer : Producer) (dataPrefix : Name) (interest : Interest) :
    (generateReply dataPrefix interest).exec producer =
      (producer.replyResult dataPrefix interest, producer.replying dataPrefix interest) := by
  apply Prog.exec_eq_of_wp
  simp only [generateReply, applyPolicy, replyResult, replying, commandOf, Prog.wp_bind,
    Prog.wp_get, Prog.andThen_ok]
  split
  · simp only [Prog.wp_bind, Prog.wp_liftM]
    cases interest.name.atPos (producer.m_cert.getIdentity.length + 2) with
    | error x => exact ⟨rfl, rfl⟩
    | ok policyBlock => exact ⟨rfl, rfl⟩
  · split
    · simp only [Prog.wp_bind, Prog.wp_liftM]
      cases interest.name.atPos (producer.m_cert.getIdentity.length + 2) with
      | error x => exact ⟨rfl, rfl⟩
      | ok attrBlock =>
        simp only [Prog.andThen_ok, Prog.wp_bind, Prog.wp_liftM]
        cases hel : Block.elements attrBlock with
        | error x =>
          simp only [Prog.andThen_error, bind, Except.bind, hel, and_self]
        | ok elements =>
          simp only [Prog.andThen_ok, Prog.wp_bind, Prog.wp_modify, Prog.wp_pure]
          simp only [bind, Except.bind, hel]
          exact ⟨rfl, rfl⟩
    · exact ⟨rfl, rfl⟩

/-- What the validators decide is `authentic`, whichever of the two is asked. -/
theorem wp_authenticated (auth : Authentication) (producer : Producer) (interest : Interest)
    (dataPrefix : Name) {b : Bool} (h : authentic auth producer interest = b) :
    (if b then generateReply dataPrefix interest else pure ()).wp (Prog.silent _ _ _)
      (fun r t =>
        r = (if authentic auth producer interest then producer.replyResult dataPrefix interest
          else return ()) ∧
        t = if authentic auth producer interest then
          producer.replying dataPrefix interest else producer) producer := by
  subst h
  cases authentic auth producer interest with
  | true =>
    refine (Prog.wp_silent_iff _ _ producer).mpr ?_
    rw [if_pos rfl, exec_generateReply]
    exact ⟨rfl, rfl⟩
  | false => exact ⟨rfl, rfl⟩

/-- **A delivery is the installation of a command and a reply**, for an authentic
Interest whose name can be read, and nothing for any other. -/
theorem exec_onPolicyInterest (auth : Authentication) (producer : Producer)
    (interest : Interest) :
    (onPolicyInterest auth interest).exec producer =
      (producer.deliveryResult auth interest, producer.delivered auth interest) := by
  apply Prog.exec_eq_of_wp
  simp only [onPolicyInterest, deliveryResult, delivered, dataPrefixOf, Prog.wp_bind, Prog.wp_get,
    Prog.andThen_ok, Prog.wp_liftM]
  cases interest.name.atPos (producer.m_cert.getIdentity.length + 1) with
  | error x => exact ⟨rfl, rfl⟩
  | ok dataPrefixBlock =>
    simp only [Prog.andThen_ok, Prog.wp_bind, Prog.wp_liftM]
    cases hblock : Block.blockFromValue dataPrefixBlock with
    | error x =>
      simp only [Prog.andThen_error, bind, Except.bind, hblock, and_self]
    | ok block =>
      simp only [Prog.andThen_ok, Prog.wp_bind, Prog.wp_liftM]
      cases hname : Name.ofBlock block with
      | error x =>
        simp only [Prog.andThen_error, bind, Except.bind, hblock, hname, and_self]
      | ok dataPrefix =>
        simp only [Prog.andThen_ok, bind, Except.bind, hblock, hname]
        cases hk : producer.m_trustConfig.findCertificateFromLocal
          producer.m_dataOwnerKeyName with
        | some dataOwnerKey =>
          exact wp_authenticated auth producer interest dataPrefix (by rw [authentic, hk])
        | none => exact wp_authenticated auth producer interest dataPrefix (by rw [authentic, hk])

end Producer

end NacAbe
