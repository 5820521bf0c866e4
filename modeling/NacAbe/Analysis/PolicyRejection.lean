import NacAbe.Analysis.PolicyDelivery

/-!
# SET_POLICY Interests that cannot be read

The interest filter hands every Interest under `/<identity>/SET_POLICY` to
`onPolicyInterest`, whoever sent it.  The handler takes the data prefix from the name
before it looks at the signature (producer.cpp:295-296), and the policy or the attributes after
it; each of these steps throws on a name it cannot read, and nothing on the way up to the
event loop catches that.  The tables are safe, the producer is not
(`onPolicyInterest_returns_iff`).
-/

set_option autoImplicit false

namespace NacAbe.Analysis

open NacAbe Producer

/-- What may follow `/<identity>/SET_POLICY`: a data prefix and, where the Interest is
authentic, a component for the policy, or one that is a sequence of TLV elements for the
attributes. -/
structure WellFormedCommand (abeType : AbeType) (isAuthentic : Bool) (rest : Name) : Prop where
  dataPrefix : ∃ c, rest[0]? = some c ∧ ∃ name, c.CarriesName name
  policy : isAuthentic = true → abeType = abeTypeCpAbe → ∃ c, rest[1]? = some c
  attributes : isAuthentic = true → abeType = abeTypeKpAbe →
    ∃ c elements, rest[1]? = some c ∧ Block.elements c = .ok elements

variable {producer : Producer} {interest : Interest} {rest : Name} {auth : Authentication}

/-- The data prefix is what the first component carries. -/
theorem dataPrefixOf_eq_ok_iff (hname : interest.name =
      producer.m_cert.getIdentity ++ setPolicyComponent :: rest) {dataPrefix : Name} :
    producer.dataPrefixOf interest = .ok dataPrefix ↔
      ∃ c, rest[0]? = some c ∧ c.CarriesName dataPrefix := by
  rw [dataPrefixOf, hname]
  exact Name.carried_append_cons

/-- The components behind `SET_POLICY`, as `Name::at` finds them. -/
theorem atPos_eq_ok_iff (hname : interest.name =
      producer.m_cert.getIdentity ++ setPolicyComponent :: rest) {i : ℕ} {c : Component} :
    interest.name.atPos (producer.m_cert.getIdentity.length + (i + 1)) = .ok c ↔
      rest[i]? = some c := by
  rw [hname]
  exact Name.atPos_append_cons

/-- The value can be read exactly when the mode finds what it needs. -/
theorem replyResult_eq_ok_iff (hname : interest.name =
      producer.m_cert.getIdentity ++ setPolicyComponent :: rest) (dataPrefix : Name) :
    producer.replyResult dataPrefix interest = .ok () ↔
      (producer.m_paramFetcher.m_abeType = abeTypeCpAbe → ∃ c, rest[1]? = some c) ∧
      (producer.m_paramFetcher.m_abeType = abeTypeKpAbe →
        ∃ c elements, rest[1]? = some c ∧ Block.elements c = .ok elements) := by
  have hmodes : abeTypeKpAbe ≠ abeTypeCpAbe := by decide
  unfold replyResult commandOf
  by_cases hcp : producer.m_paramFetcher.m_abeType = abeTypeCpAbe
  · have hkp : producer.m_paramFetcher.m_abeType ≠ abeTypeKpAbe := fun h =>
      hmodes (h.symm.trans hcp)
    rw [if_pos hcp]
    constructor
    · intro h
      obtain ⟨command, hcommand, -⟩ := bind_eq_ok.mp h
      obtain ⟨c, hc, -⟩ := bind_eq_ok.mp hcommand
      exact ⟨fun _ => ⟨c, (atPos_eq_ok_iff hname).mp hc⟩, fun h => absurd h hkp⟩
    · rintro ⟨hpolicy, -⟩
      obtain ⟨c, hc⟩ := hpolicy hcp
      exact bind_eq_ok.mpr ⟨_, bind_eq_ok.mpr ⟨c, (atPos_eq_ok_iff hname).mpr hc, rfl⟩, rfl⟩
  · rw [if_neg hcp]
    by_cases hkp : producer.m_paramFetcher.m_abeType = abeTypeKpAbe
    · rw [if_pos hkp]
      constructor
      · intro h
        obtain ⟨command, hcommand, -⟩ := bind_eq_ok.mp h
        obtain ⟨c, hc, hread⟩ := bind_eq_ok.mp hcommand
        obtain ⟨elements, helements, -⟩ := bind_eq_ok.mp hread
        have hfirst : rest[1]? = some c := (atPos_eq_ok_iff hname).mp hc
        exact ⟨fun h => absurd h hcp, fun _ => ⟨c, elements, hfirst, helements⟩⟩
      · rintro ⟨-, hattributes⟩
        obtain ⟨c, elements, hc, helements⟩ := hattributes hkp
        exact bind_eq_ok.mpr ⟨_, bind_eq_ok.mpr ⟨c, (atPos_eq_ok_iff hname).mpr hc,
          bind_eq_ok.mpr ⟨elements, helements, rfl⟩⟩, rfl⟩
    · rw [if_neg hkp]
      exact iff_of_true rfl ⟨fun h => absurd h hcp, fun h => absurd h hkp⟩

/-- A delivery returns exactly when its command is well formed. -/
theorem deliveryResult_eq_ok_iff (hname : interest.name =
      producer.m_cert.getIdentity ++ setPolicyComponent :: rest) :
    producer.deliveryResult auth interest = .ok () ↔ WellFormedCommand
      producer.m_paramFetcher.m_abeType (authentic auth producer interest) rest := by
  constructor
  · intro h
    obtain ⟨dataPrefix, hprefix, hreply⟩ := bind_eq_ok.mp h
    have hvalue : authentic auth producer interest = true →
        producer.replyResult dataPrefix interest = .ok () := by
      intro hauth
      rw [if_pos hauth] at hreply
      exact hreply
    obtain ⟨c, hc, hcarries⟩ := (dataPrefixOf_eq_ok_iff hname).mp hprefix
    refine ⟨⟨c, hc, dataPrefix, hcarries⟩, ?_, ?_⟩
    · intro hauth
      exact ((replyResult_eq_ok_iff hname dataPrefix).mp (hvalue hauth)).1
    · intro hauth
      exact ((replyResult_eq_ok_iff hname dataPrefix).mp (hvalue hauth)).2
  · intro hwell
    obtain ⟨c, hc, dataPrefix, hcarries⟩ := hwell.dataPrefix
    refine bind_eq_ok.mpr ⟨dataPrefix, (dataPrefixOf_eq_ok_iff hname).mpr ⟨c, hc, hcarries⟩, ?_⟩
    split
    · next hauth =>
      exact (replyResult_eq_ok_iff hname dataPrefix).mpr
        ⟨hwell.policy hauth, hwell.attributes hauth⟩
    · rfl

/-- A delivery that does not return changes nothing. -/
theorem delivered_of_error {e : Exn} (h : producer.deliveryResult auth interest = .error e) :
    producer.delivered auth interest = producer := by
  rcases delivered_cases auth producer interest with hsame | ⟨dataPrefix, command, hauth, hprefix,
    hcommand, -⟩
  · exact hsame
  · have hok : producer.deliveryResult auth interest = .ok () := by
      refine bind_eq_ok.mpr ⟨dataPrefix, hprefix, ?_⟩
      rw [if_pos hauth]
      exact bind_eq_ok.mpr ⟨command, hcommand, rfl⟩
    rw [hok] at h
    cases h

/-- **Which policy Interests are survived.**  For every Interest under
`/<identity>/SET_POLICY`, in every state, in every mode and however it is authenticated: the
handler returns exactly when the command is well formed, and a command that is not leaves
the producer as it was. -/
theorem onPolicyInterest_returns_iff (auth : Authentication) (producer : Producer)
    (interest : Interest) (rest : Name)
    (hname : interest.name = producer.m_cert.getIdentity ++ setPolicyComponent :: rest) :
    (((onPolicyInterest auth interest).exec producer).1 = .ok () ↔
      WellFormedCommand producer.m_paramFetcher.m_abeType (authentic auth producer interest)
        rest) ∧
    (¬ WellFormedCommand producer.m_paramFetcher.m_abeType (authentic auth producer interest)
        rest → ((onPolicyInterest auth interest).exec producer).2 = producer) := by
  rw [exec_onPolicyInterest]
  refine ⟨deliveryResult_eq_ok_iff hname, fun hmalformed => ?_⟩
  cases hresult : producer.deliveryResult auth interest with
  | ok _ => exact absurd ((deliveryResult_eq_ok_iff hname).mp hresult) hmalformed
  | error e => exact delivered_of_error hresult

/-- Nobody signed this Interest for the producer `/p`, and nothing follows `SET_POLICY`. -/
def bareCommand : Interest :=
  ⟨[Component.generic (ascii "p"), setPolicyComponent], false, none, none⟩

/-- A command without a data prefix throws. -/
theorem onPolicyInterest_returns_iff_bare :
    (((onPolicyInterest exampleAuth bareCommand).exec kpProducer).1 = .ok () ↔
      WellFormedCommand kpProducer.m_paramFetcher.m_abeType
        (authentic exampleAuth kpProducer bareCommand) []) ∧
    (¬ WellFormedCommand kpProducer.m_paramFetcher.m_abeType
        (authentic exampleAuth kpProducer bareCommand) [] →
      ((onPolicyInterest exampleAuth bareCommand).exec kpProducer).2 = kpProducer) :=
  onPolicyInterest_returns_iff exampleAuth kpProducer bareCommand [] rfl

/-- It makes the handler throw. -/
theorem onPolicyInterest_throws :
    ¬ ∀ (auth : Authentication) (producer : Producer) (interest : Interest) (rest : Name),
      interest.name = producer.m_cert.getIdentity ++ setPolicyComponent :: rest →
        ((onPolicyInterest auth interest).exec producer).1 = .ok () := by
  intro h
  have hreturns := h exampleAuth kpProducer bareCommand [] rfl
  cases hreturns

end NacAbe.Analysis
