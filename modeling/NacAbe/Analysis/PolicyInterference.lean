import NacAbe.Library.Runs
import NacAbe.Analysis.PolicyInstallation

/-!
# Unauthenticated commands do not interfere

`onPolicyInterest` parses the data prefix before it authenticates the Interest and the
value after that, so a malformed Interest may leave it by an exception on either side.
On neither side has anything been written yet: what an Interest that is not authentic
leaves behind is the producer it found (`delivered_of_not_authentic`), and what decides
authenticity is never written at all (`authentic_delivered`).  A schedule therefore acts
like the authentic Interests in it, in their order (`deliveries_eq_authentic`).
-/

set_option autoImplicit false

namespace NacAbe.Analysis

open NacAbe Producer

/-- The producer after a sequence of Interests has been delivered to `onPolicyInterest`; an
exception ends the delivery it happens in. -/
def deliveries (auth : Authentication) (producer : Producer) (interests : List Interest) :
    Producer :=
  Runs.after (fun p interest => ((onPolicyInterest auth interest).exec p).2) producer interests

variable {auth : Authentication} {producer p : Producer} {interest : Interest}

/-- An Interest that is not authentic leaves the producer as it was, wherever its delivery
ends. -/
theorem delivered_of_not_authentic (h : authentic auth producer interest = false) :
    producer.delivered auth interest = producer := by
  rcases delivered_cases auth producer interest with hsame | ⟨_, _, hauth, -⟩
  · exact hsame
  · exact absurd hauth (by simp [h])

/-- A delivery writes nothing that authentication reads. -/
theorem trust_delivered (auth : Authentication) (producer : Producer) (interest : Interest) :
    (producer.delivered auth interest).m_trustConfig = producer.m_trustConfig ∧
      (producer.delivered auth interest).m_dataOwnerKeyName = producer.m_dataOwnerKeyName := by
  rcases delivered_cases auth producer interest with hsame | ⟨_, command, -, -, -, hans⟩
  · rw [hsame]
    exact ⟨rfl, rfl⟩
  · rw [hans]
    cases command with
    | none => exact ⟨rfl, rfl⟩
    | some command => cases command <;> exact ⟨rfl, rfl⟩

/-- So every Interest is judged as it would have been at the start. -/
theorem authentic_delivered (other : Interest) :
    authentic auth (producer.delivered auth interest) other = authentic auth producer other := by
  obtain ⟨htrust, hkey⟩ := trust_delivered auth producer interest
  rw [authentic, authentic, htrust, hkey]

/-- **A schedule acts like the authentic Interests in it.** -/
theorem deliveries_eq_authentic (auth : Authentication) (producer : Producer)
    (interests : List Interest) :
    deliveries auth producer (interests.filter (authentic auth producer)) =
      deliveries auth producer interests := by
  refine Runs.after_filter _ producer
    (fun p => ∀ other, authentic auth p other = authentic auth producer other)
    (authentic auth producer) ?_ ?_ (fun other => rfl) interests
  · intro p interest hp other
    rw [exec_onPolicyInterest, authentic_delivered, hp]
  · intro p interest hp hfalse
    rw [exec_onPolicyInterest]
    apply delivered_of_not_authentic
    rw [hp, hfalse]

/-- **Two schedules with the same authentic Interests cannot be told apart**: the tables,
their order and the replies agree, in every mode of the producer and whichever way it
authenticates. -/
theorem unauthenticated_noInterference (auth : Authentication) (producer : Producer)
    (interests interests' : List Interest)
    (h : interests.filter (authentic auth producer) =
      interests'.filter (authentic auth producer)) :
    (deliveries auth producer interests).m_policies =
        (deliveries auth producer interests').m_policies ∧
      (deliveries auth producer interests).m_attributes =
        (deliveries auth producer interests').m_attributes ∧
      (deliveries auth producer interests).sent = (deliveries auth producer interests').sent := by
  have hsame : deliveries auth producer interests = deliveries auth producer interests' := by
    rw [← deliveries_eq_authentic, h, deliveries_eq_authentic]
  rw [hsame]
  exact ⟨rfl, rfl, rfl⟩

/-- The producer `/p` once it knows that it is in CP mode. -/
def cpProducer : Producer :=
  (PolicyExchange.run exampleSigner exampleAuth noMemory exampleProducer [cpParams]).producer

/-- A forged copy of a command and an Interest without a data prefix come in between. -/
theorem unauthenticated_noInterference_example :
    (deliveries exampleAuth cpProducer [interestFor policyExample]).m_policies =
      (deliveries exampleAuth cpProducer [⟨[], false, none, none⟩, interestFor policyExample,
        { interestFor attributesExample with signature := none }]).m_policies :=
  (unauthenticated_noInterference exampleAuth cpProducer [interestFor policyExample]
    [⟨[], false, none, none⟩, interestFor policyExample,
      { interestFor attributesExample with signature := none }] (by decide)).1

end NacAbe.Analysis
