import NacAbe.Library.Runs
import NacAbe.Interface.ProducerCommands
import NacAbe.Program.DataOwner

/-!
# A data owner, a producer and the network between them

The network delivers what it likes: any Interest to the producer, any Data to the
owner, when it likes and as often as it likes; what the two parties sent is not
favoured.  `readCommand` is the agreement of the two encodings: an Interest name that
begins with the owner's `policyName` is read by the producer as the owner's command,
provided the producer's mode is the one the command is meant for.
-/

set_option autoImplicit false

namespace NacAbe

/-! ## The two encodings -/

/-- An attribute list is encoded element by element. -/
theorem DataOwner.encodeAttributes_eq (attributes : List Bytes) :
    encodeAttributes attributes =
      Tlv.encodeAll (attributes.map fun a => ⟨tlvAttribute, a⟩) := by
  unfold encodeAttributes
  induction attributes with
  | nil => rfl
  | cons a attributes ih =>
    rw [List.reverse_cons, List.foldl_append, ih]
    rfl

namespace Producer

/-- The octets of a command, read in the other mode, would be a command too: an attribute
list is a policy string as well, and a policy string may happen to be a sequence of
blocks. -/
def Misreads (producer : Producer) : PolicyCommand → Prop
  | .policy _ policy => producer.m_paramFetcher.m_abeType = abeTypeKpAbe ∧
      (Tlv.decodeAll policy).isSome
  | .attributes _ _ => producer.m_paramFetcher.m_abeType = abeTypeCpAbe

variable {producer : Producer} {interest : Interest} {command : OwnerCommand}

/-- The two components behind `/<identity>/SET_POLICY`. -/
theorem atPos_of_policyName (hid : command.producerPrefix = producer.m_cert.getIdentity)
    (hname : DataOwner.policyName command <+: interest.name) :
    interest.name.atPos (producer.m_cert.getIdentity.length + 1) =
        .ok (Component.generic command.command.dataPrefix.wireEncode.encode) ∧
      interest.name.atPos (producer.m_cert.getIdentity.length + 2) =
        .ok (Component.generic (DataOwner.policyOctets command.command)) := by
  obtain ⟨rest, hrest⟩ := hname
  rw [DataOwner.policyName, hid, List.append_assoc] at hrest
  constructor
  · rw [Name.atPos, ← hrest, List.getElem?_append_right (by omega)]
    simp
  · rw [Name.atPos, ← hrest, List.getElem?_append_right (by omega)]
    simp

/-- The producer reads the data prefix that the owner has put into the name. -/
theorem dataPrefixOf_policyName (hid : command.producerPrefix = producer.m_cert.getIdentity)
    (hname : DataOwner.policyName command <+: interest.name) :
    producer.dataPrefixOf interest = .ok command.command.dataPrefix := by
  have hvalid : (∀ c ∈ command.command.dataPrefix, c.Valid) ∧
      command.command.dataPrefix.wireEncode.Valid := by
    have henc := command.encodable
    cases hc : command.command with
    | policy dataPrefix policy =>
      rw [hc] at henc
      exact henc
    | attributes dataPrefix attrs =>
      rw [hc] at henc
      exact ⟨henc.1, henc.2.1⟩
  have hblock : Block.blockFromValue
      (Component.generic command.command.dataPrefix.wireEncode.encode) =
        .ok command.command.dataPrefix.wireEncode := by
    rw [Block.blockFromValue, Component.generic, Block.ofBuffer, Tlv.decode_encode hvalid.2]
  simp only [dataPrefixOf, (atPos_of_policyName hid hname).1, bind, Except.bind, hblock]
  exact Name.ofBlock_wireEncode hvalid.1

/-- The encoded attribute list is read back. -/
theorem decodeAll_encodeAttributes {attrs : List Bytes} (h : ∀ a ∈ attrs, a.length < 2 ^ 64) :
    Tlv.decodeAll (DataOwner.encodeAttributes attrs) =
      some (attrs.map fun a => ⟨tlvAttribute, a⟩) := by
  rw [DataOwner.encodeAttributes_eq]
  apply Tlv.decodeAll_encodeAll
  intro e he
  obtain ⟨a, ha, rfl⟩ := List.mem_map.mp he
  exact ⟨show 0 < tlvAttribute by decide, show tlvAttribute < 2 ^ 32 by decide, h a ha⟩

/-- The mode a command is meant for. -/
def ModeOf (producer : Producer) : PolicyCommand → Prop
  | .policy _ _ => producer.m_paramFetcher.m_abeType = abeTypeCpAbe
  | .attributes _ _ => producer.m_paramFetcher.m_abeType = abeTypeKpAbe

instance (producer : Producer) (command : PolicyCommand) : Decidable (producer.ModeOf command) :=
  match command with
  | .policy _ _ => inferInstanceAs (Decidable (_ = _))
  | .attributes _ _ => inferInstanceAs (Decidable (_ = _))

/-- **The producer reads the owner's command** in the mode it is meant for. -/
theorem commandOf_policyName (hid : command.producerPrefix = producer.m_cert.getIdentity)
    (hname : DataOwner.policyName command <+: interest.name)
    (hmode : producer.ModeOf command.command) :
    producer.commandOf command.command.dataPrefix interest = .ok (some command.command) := by
  have hat := (atPos_of_policyName hid hname).2
  have hkc : abeTypeKpAbe ≠ abeTypeCpAbe := by decide
  have henc := command.encodable
  simp only [commandOf, hat, bind, Except.bind, pure, Except.pure]
  cases hc : command.command with
  | policy dataPrefix policy =>
    have hcp : producer.m_paramFetcher.m_abeType = abeTypeCpAbe := by
      rw [hc] at hmode
      exact hmode
    rw [if_pos hcp]
    rfl
  | attributes dataPrefix attrs =>
    have hkp : producer.m_paramFetcher.m_abeType = abeTypeKpAbe := by
      rw [hc] at hmode
      exact hmode
    rw [hc] at henc
    rw [if_neg fun hcp => hkc (hkp.symm.trans hcp), if_pos hkp]
    simp [DataOwner.policyOctets, Block.elements, Component.generic,
      decodeAll_encodeAttributes henc.2.2, PolicyCommand.dataPrefix, Function.comp_def]

/-- In another mode it reads no command, or misreads this one. -/
theorem modeOf_of_read (hid : command.producerPrefix = producer.m_cert.getIdentity)
    (hname : DataOwner.policyName command <+: interest.name)
    (hmode : ¬ producer.Misreads command.command) {read : PolicyCommand}
    (hread : producer.commandOf command.command.dataPrefix interest = .ok (some read)) :
    producer.ModeOf command.command := by
  have hat := (atPos_of_policyName hid hname).2
  simp only [commandOf, hat, bind, Except.bind, pure, Except.pure] at hread
  split at hread
  · next hcp =>
    cases hc : command.command with
    | policy dataPrefix policy => exact hcp
    | attributes dataPrefix attrs =>
      rw [hc] at hmode
      exact absurd hcp hmode
  · split at hread
    · next hkp =>
      cases hc : command.command with
      | policy dataPrefix policy =>
        rw [hc] at hmode hread
        refine absurd ⟨hkp, ?_⟩ hmode
        simp only [DataOwner.policyOctets, Block.elements, Component.generic] at hread
        cases hd : Tlv.decodeAll policy with
        | some es => rfl
        | none => simp [hd] at hread
      | attributes dataPrefix attrs => exact hkp
    · cases hread

/-- What is read of a command that is not misread is the command. -/
theorem readCommand (hid : command.producerPrefix = producer.m_cert.getIdentity)
    (hname : DataOwner.policyName command <+: interest.name)
    (hmode : ¬ producer.Misreads command.command) {read : PolicyCommand}
    (hread : producer.commandOf command.command.dataPrefix interest = .ok (some read)) :
    read = command.command := by
  rw [commandOf_policyName hid hname (modeOf_of_read hid hname hmode hread)] at hread
  exact (Option.some.inj (Except.ok.inj hread)).symm

end Producer

/-! ## The exchange -/

structure PolicyExchange where
  owner : DataOwner
  producer : Producer

namespace PolicyExchange

inductive Event
  /-- The owner issues a command. -/
  | command (command : OwnerCommand) (seed : ℕ)
  /-- The network delivers an Interest to the producer. -/
  | deliverInterest (interest : Interest)
  /-- The network delivers Data to the owner. -/
  | deliverData (data : Data) (digest : Bytes)
  /-- A nack or a timeout at the owner. -/
  | commandFailure (position : ℕ) (isNack : Bool)
  /-- The producer's parameters arrive. -/
  | publicParams (pubParamData : Data) (validationError : Option String)

variable (signer : Signer) (auth : Producer.Authentication) (mem : Memory)

/-- The face dispatches an Interest to the producer's filter. -/
def dispatch (producer : Producer) (interest : Interest) : Producer :=
  if (producer.m_cert.getIdentity ++ [setPolicyComponent]).isPrefixOf interest.name then
    ((Producer.onPolicyInterest auth interest).exec producer).2
  else producer

def next (x : PolicyExchange) : Event → PolicyExchange
  | .command command seed =>
    { x with owner := ((DataOwner.commandProducerPolicy signer command seed).exec x.owner).2 }
  | .deliverInterest interest => { x with producer := dispatch auth x.producer interest }
  | .deliverData data digest =>
    { x with owner := ((DataOwner.onData data digest).exec x.owner).2 }
  | .commandFailure position isNack =>
    { x with owner := ((DataOwner.onFailure position isNack).exec x.owner).2 }
  | .publicParams pubParamData validationError =>
    { x with producer := { x.producer with
        m_paramFetcher := ((ParamFetcher.onAttributePubParams mem pubParamData
          validationError).exec x.producer.m_paramFetcher).2 } }

def run (producer : Producer) (events : List Event) : PolicyExchange :=
  Runs.after (next signer auth mem) ⟨.initial, producer⟩ events

end PolicyExchange

/-! ## What the owner does -/

/-- The Interest that goes out for a command. -/
def DataOwner.signed (signer : Signer) (command : OwnerCommand) (seed : ℕ) : SentCommand :=
  ⟨command, signer.sign ⟨policyName command, false, none, none⟩ seed⟩

/-- A command is issued, or left by an exception where no Interest can have its name. -/
theorem DataOwner.exec_commandProducerPolicy (signer : Signer) (command : OwnerCommand)
    (seed : ℕ) (owner : DataOwner) :
    (commandProducerPolicy signer command seed).exec owner =
      if (policyName command).Requestable then
        (.ok (), { owner with outstanding := owner.outstanding ++ [signed signer command seed] })
      else (.error .invalidArgument, owner) := by
  by_cases hname : (policyName command).Requestable
  · rw [if_pos hname]
    apply Prog.exec_eq_of_wp
    simp only [commandProducerPolicy, Prog.wp_bind, Prog.wp_liftM, Interest.ofName, if_pos hname]
    exact ⟨rfl, rfl⟩
  · rw [if_neg hname]
    apply Prog.exec_eq_of_wp
    simp only [commandProducerPolicy, Prog.wp_bind, Prog.wp_liftM, Interest.ofName, if_neg hname]
    exact ⟨rfl, rfl⟩

/-- A nack or a timeout of one pending command. -/
theorem DataOwner.exec_onFailure (owner : DataOwner) (position : ℕ) (isNack : Bool) :
    ((onFailure position isNack).exec owner).2 =
      match owner.outstanding[position]? with
      | some sent => ⟨owner.outstanding.eraseIdx position,
          owner.reported ++ [(sent, .error (if isNack then "nack" else "time out"))]⟩
      | none => owner := by
  refine (Prog.wp_silent_iff (onFailure position isNack) (fun _ t => t = _) owner).mp ?_
  simp only [onFailure, Prog.wp_bind, Prog.wp_get, Prog.andThen_ok]
  cases owner.outstanding[position]? with
  | none => rfl
  | some sent => rfl

/-- A packet ends every pending command that it matches. -/
theorem DataOwner.exec_onData (owner : DataOwner) (data : Data) (digest : Bytes) :
    ((onData data digest).exec owner).2 =
      ⟨owner.outstanding.filter (fun sent => !sent.interest.matchesData data digest),
        owner.reported ++ (owner.outstanding.filter
          fun sent => sent.interest.matchesData data digest).map
            fun sent => (sent, validationCallback data)⟩ := by
  refine (Prog.wp_silent_iff (onData data digest) (fun _ t => t = _) owner).mp ?_
  simp only [onData, Prog.wp_bind, Prog.wp_get, Prog.andThen_ok, Prog.wp_modify]
  -- Every Interest in the list has been selected by the match that the loop repeats.
  refine Prog.wp_forEach (fun rest t => ∃ done,
    done ++ rest = owner.outstanding.filter (fun sent => sent.interest.matchesData data digest) ∧
    t = ⟨owner.outstanding.filter (fun sent => !sent.interest.matchesData data digest),
      owner.reported ++ done.map fun sent => (sent, validationCallback data)⟩) ?_ ?_ ?_
  · rintro sent rest t ⟨done, hdone, rfl⟩
    have hmatch : sent.interest.matchesData data digest = true := by
      have hmem : sent ∈ done ++ sent :: rest := by simp
      rw [hdone] at hmem
      exact (List.mem_filter.mp hmem).2
    rw [if_pos hmatch]
    exact ⟨done ++ [sent], by rw [← hdone]; simp, by simp⟩
  · rintro t ⟨done, hdone, rfl⟩
    rw [List.append_nil] at hdone
    rw [hdone]
  · exact ⟨[], rfl, by simp⟩

end NacAbe
