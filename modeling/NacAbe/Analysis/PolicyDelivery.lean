import NacAbe.Analysis.PolicyInterference

/-!
# A command's way from the owner to the producer's table

The owner nests the data prefix into one component and the value into the next, an
attribute list element by element from the last to the first; the producer counts
components from its own identity and parses the two again.  `setPolicy_roundTrip` is the
agreement of the two for every command that TLV can carry: what an authenticated
delivery sets is the command's entry, and nothing else.
-/

set_option autoImplicit false

namespace NacAbe.Analysis

open NacAbe Producer

/-- What a producer's tables hold after a command, compared with before: the command's entry
is set in the table of its kind, and the other table is as it was. -/
def Stored (command : PolicyCommand) (producer producer' : Producer) : Prop :=
  match command with
  | .policy dataPrefix policy =>
    PolicyTable.SetsEntry dataPrefix policy producer.m_policies producer'.m_policies ∧
      producer'.m_attributes = producer.m_attributes
  | .attributes dataPrefix attributes =>
    PolicyTable.SetsEntry dataPrefix attributes producer.m_attributes producer'.m_attributes ∧
      producer'.m_policies = producer.m_policies

variable {auth : Authentication} {producer : Producer} {interest : Interest}
  {command : OwnerCommand}

theorem stored_answered (producer : Producer) (interest : Interest) (command : PolicyCommand) :
    Stored command producer (producer.answered interest (some command)) := by
  cases command with
  | policy dataPrefix policy => exact ⟨PolicyTable.setsEntry_addNew _ _ _, rfl⟩
  | attributes dataPrefix attributes => exact ⟨PolicyTable.setsEntry_addNew _ _ _, rfl⟩

/-- An authentic Interest whose name begins with a command's is answered by carrying it
out. -/
theorem delivered_of_policyName (hid : command.producerPrefix = producer.m_cert.getIdentity)
    (hname : DataOwner.policyName command <+: interest.name)
    (hmode : producer.ModeOf command.command)
    (hauth : authentic auth producer interest = true) :
    producer.delivered auth interest = producer.answered interest (some command.command) := by
  rw [delivered, dataPrefixOf_policyName hid hname]
  dsimp only
  rw [if_pos hauth, replying, commandOf_policyName hid hname hmode]

/-- A command adds no digest to the name of the producer. -/
theorem requestable_policyName (command : OwnerCommand) :
    (DataOwner.policyName command).Requestable ↔ command.producerPrefix.Requestable := by
  apply Name.requestable_append
  intro c hc
  simp only [List.mem_cons, List.not_mem_nil, or_false] at hc
  rcases hc with rfl | rfl | rfl <;> rfl

/-- **A SET_POLICY command round-trips.**  Whatever the signer appends to the name, the
Interest that `commandProducerPolicy` sends out sets exactly the command's entry when the
producer, in the command's mode, authenticates it, and the producer answers "success".  Where
no Interest can have the producer's name the call throws and nothing is sent. -/
theorem setPolicy_roundTrip (signer : Signer) (auth : Authentication) (owner : DataOwner)
    (command : OwnerCommand) (seed : ℕ) (producer : Producer)
    (hid : command.producerPrefix = producer.m_cert.getIdentity)
    (hmode : producer.ModeOf command.command) :
    (command.producerPrefix.Requestable → ∃ interest,
      (DataOwner.commandProducerPolicy signer command seed).exec owner =
        (.ok (), { owner with outstanding := owner.outstanding ++ [⟨command, interest⟩] }) ∧
      (authentic auth producer interest = true →
        Stored command.command producer ((onPolicyInterest auth interest).exec producer).2 ∧
        ((onPolicyInterest auth interest).exec producer).2.sent =
          producer.sent ++ [⟨interest.name, ascii "success"⟩])) ∧
    (¬ command.producerPrefix.Requestable →
      (DataOwner.commandProducerPolicy signer command seed).exec owner =
        (.error .invalidArgument, owner)) := by
  rw [DataOwner.exec_commandProducerPolicy, ← requestable_policyName]
  refine ⟨fun hrequest => ?_, fun hrefused => if_neg hrefused⟩
  rw [if_pos hrequest]
  refine ⟨signer.sign ⟨DataOwner.policyName command, false, none, none⟩ seed, rfl, ?_⟩
  intro hauth
  have hname : DataOwner.policyName command <+:
      (signer.sign ⟨DataOwner.policyName command, false, none, none⟩ seed).name :=
    List.prefix_append _ _
  rw [exec_onPolicyInterest, delivered_of_policyName hid hname hmode hauth]
  exact ⟨stored_answered _ _ _, sent_answered _ _ _⟩

/-- An attribute list with an empty attribute and a repeated one, for the prefix `/`. -/
def listExample : OwnerCommand where
  producerPrefix := [Component.generic (ascii "p")]
  command := .attributes [] [ascii "x", [], ascii "x"]
  encodable := by decide

/-- The producer `/p` in KP mode. -/
def kpProducer : Producer :=
  { exampleProducer with
    m_paramFetcher := { exampleProducer.m_paramFetcher with m_abeType := abeTypeKpAbe } }

/-- A list of attributes is carried to the producer and stored. -/
theorem setPolicy_roundTrip_example :
    ∃ interest, authentic exampleAuth kpProducer interest = true ∧
      Stored listExample.command kpProducer
        ((onPolicyInterest exampleAuth interest).exec kpProducer).2 := by
  obtain ⟨interest, hsent, hstored⟩ := (setPolicy_roundTrip exampleSigner exampleAuth .initial
    listExample 0 kpProducer rfl rfl).1 (by decide)
  have hissued : (DataOwner.commandProducerPolicy exampleSigner listExample 0).exec .initial =
      (.ok (), ⟨[⟨listExample, interestFor listExample⟩], []⟩) := rfl
  rw [hissued] at hsent
  obtain rfl : interestFor listExample = interest :=
    congrArg SentCommand.interest (List.singleton_inj.mp (DataOwner.mk.inj
      (Prod.mk.inj hsent).2).1)
  have hauth : authentic exampleAuth kpProducer (interestFor listExample) = true := by decide
  exact ⟨_, hauth, (hstored hauth).1⟩

end NacAbe.Analysis
