import NacAbe.Interface.ConsumerReadiness
import NacAbe.Program.AttributeAuthority

/-!
# The exchange of public parameters

The authority appends its type to whatever Interest name arrived (attribute-authority.cpp:147-148)
and the fetcher reads the type behind the name it asked for (param-fetcher.cpp:84).  The two are
the same place unless the library has put a digest of application parameters between them
(`exchange_agrees_iff`), and only then the exchange fails.
-/

set_option autoImplicit false

namespace NacAbe.ParamFetcher

variable {paramsDigest : Bytes → Bytes} {fetcher : ParamFetcher} {interest : Interest}

/-- No digest of application parameters is appended to the name. -/
def KeepsLength (fetcher : ParamFetcher) : Prop :=
  fetcher.m_interestTemplate.applicationParameters = none ∨
    ∃ c ∈ fetcher.m_attrAuthorityPrefix, isParametersSha256Digest c = true

/-- The name that an Interest is given: the one asked for, up to its digest, or with a digest at
its end. -/
theorem name_of_setName
    (h : fetcher.m_interestTemplate.setName paramsDigest fetcher.requestName = .ok interest) :
    (fetcher.KeepsLength ∧ interest.name.length = fetcher.requestName.length) ∨
    (¬ fetcher.KeepsLength ∧ ∃ parameters,
      interest.name = fetcher.requestName ++
        [⟨tlvParametersSha256DigestComponent, paramsDigest parameters⟩]) := by
  have hany : fetcher.requestName.any isParametersSha256Digest = true ↔
      ∃ c ∈ fetcher.m_attrAuthorityPrefix, isParametersSha256Digest c = true := by
    have hparams : isParametersSha256Digest publicParamsComponent = false := rfl
    rw [requestName, List.any_append, List.any_cons, hparams, List.any_nil]
    simp
  unfold Interest.setName at h
  split at h
  · cases h
  · split at h
    · next hnone =>
      cases h
      exact Or.inl ⟨Or.inl hnone, rfl⟩
    · next parameters hsome =>
      dsimp only at h
      split at h
      · next hdigest =>
        cases h
        exact Or.inl ⟨Or.inr (hany.mp hdigest), List.length_map _⟩
      · next hdigest =>
        cases h
        refine Or.inr ⟨?_, parameters, rfl⟩
        rintro (hnone | hprefix)
        · rw [hsome] at hnone
          cases hnone
        · exact hdigest (hany.mpr hprefix)

/-- An Interest that a call expresses has been named from the template. -/
theorem setName_of_exec {sent : ParamFetcher}
    (h : (fetchPublicParams paramsDigest).exec fetcher = (.ok (), sent))
    (hsent : sent.outstanding = interest :: fetcher.outstanding) :
    fetcher.m_interestTemplate.setName paramsDigest fetcher.requestName = .ok interest := by
  rw [exec_fetchPublicParams] at h
  obtain ⟨-, hfetched⟩ | ⟨-, ⟨e, -, hfetched⟩ | ⟨interest', hname, hfetched⟩⟩ :=
    fetched_cases paramsDigest fetcher
  · rw [hfetched] at h
    cases h
  · rw [hfetched] at h
    cases h
  · rw [hfetched] at h
    cases h
    obtain ⟨rfl, -⟩ := List.cons_eq_cons.mp hsent
    exact hname

/-- A packet that is handled leaves the type it was read with. -/
theorem abeType_received {mem : Memory} {pubParamData : Data} {component : Component}
    (h : fetcher.typeComponent pubParamData = some component) :
    (received mem fetcher pubParamData none).2.m_abeType = component.value := by
  simp only [received, h]
  split
  · cases PublicParams.fromBuffer mem pubParamData.content with
    | error e => rfl
    | ok pubParams => rfl
  · rfl

end NacAbe.ParamFetcher

namespace NacAbe.Analysis

open ParamFetcher

variable {Token : Type}

/-- Once validated, the authority's answer to an Interest makes every fetcher for the prefix end
with the authority's type and parameters. -/
def Agrees (mem : Memory) (aa : AttributeAuthority Token) (attrAuthorityPrefix : Name)
    (interest : Interest) (now : ℕ) : Prop :=
  ∀ fetcher : ParamFetcher, fetcher.m_attrAuthorityPrefix = attrAuthorityPrefix →
    let handled := (onAttributePubParams mem (aa.publicParamsData interest now) none).exec fetcher
    handled.2.m_abeType = aa.m_abeType ∧ handled.2.m_pubParamsCache = aa.m_pubParams

/-- **The exchange agrees exactly when no digest is appended to the name.**  For every authority
with parameters without a terminator, and every Interest that a fetcher expresses: the answer gives
the fetcher type and parameters of the authority if and only if the template has no application
parameters or the prefix has a digest component that takes their digest. -/
theorem exchange_agrees_iff (mem : Memory) (paramsDigest : Bytes → Bytes)
    (hdigest : ∀ parameters, (paramsDigest parameters).length = 32) (aa : AttributeAuthority Token)
    (htype : Supported aa.m_abeType) (hparams : (0 : UInt8) ∉ aa.m_pubParams.m_pub) (now : ℕ)
    (fetcher sent : ParamFetcher) (interest : Interest)
    (hexec : (fetchPublicParams paramsDigest).exec fetcher = (.ok (), sent))
    (hsent : sent.outstanding = interest :: fetcher.outstanding) :
    Agrees mem aa fetcher.m_attrAuthorityPrefix interest now ↔ fetcher.KeepsLength := by
  have hanswer := name_of_setName (setName_of_exec hexec hsent)
  have hlength : fetcher.requestName.length = fetcher.m_attrAuthorityPrefix.length + 1 := by
    simp [requestName]
  unfold Agrees
  simp only [exec_onAttributePubParams]
  rcases hanswer with ⟨hkeeps, hname⟩ | ⟨hkeeps, parameters, hname⟩
  · refine iff_of_true ?_ hkeeps
    intro receiver hprefix
    have hcomponent : receiver.typeComponent (aa.publicParamsData interest now) =
        some (Component.generic aa.m_abeType) := by
      rw [typeComponent, hprefix, ← hlength, ← hname]
      simp [AttributeAuthority.publicParamsData]
    have hbuffer : PublicParams.fromBuffer mem (aa.publicParamsData interest now).content =
        .ok aa.m_pubParams := PublicParams.fromBuffer_toBuffer mem hparams
    have hsupported : Supported (Component.generic aa.m_abeType).value := htype
    rw [received_of_supported hcomponent hsupported hbuffer]
    exact ⟨rfl, rfl⟩
  · refine iff_of_false ?_ hkeeps
    intro h
    have hcomponent : fetcher.typeComponent (aa.publicParamsData interest now) =
        some ⟨tlvParametersSha256DigestComponent, paramsDigest parameters⟩ := by
      rw [typeComponent, ← hlength, AttributeAuthority.publicParamsData, hname]
      simp
    have hvalue := (h fetcher rfl).1
    rw [abeType_received hcomponent] at hvalue
    have hshort : aa.m_abeType.length = 6 := by
      rcases htype with hcp | hkp
      · rw [hcp]
        rfl
      · rw [hkp]
        rfl
    have hlong := hdigest parameters
    dsimp only at hvalue
    rw [hvalue] at hlong
    omega

/-- The authority `/a` for CP-ABE with the parameters [1], as it stands after its construction. -/
def plainAuthority : AttributeAuthority (List Bytes) :=
  .initial (.sample (ascii "a") [8]) abeTypeCpAbe 1500 (⟨[1]⟩, ⟨[2]⟩)

/-- A digest of 32 octets. -/
def paddedDigest (parameters : Bytes) : Bytes := (parameters ++ List.replicate 32 0).take 32

theorem length_paddedDigest (parameters : Bytes) : (paddedDigest parameters).length = 32 := by
  simp [paddedDigest]

/-- A fetcher of `/a`, with or without application parameters in its template. -/
def fetcherWith (applicationParameters : Option Bytes) : ParamFetcher :=
  .initial plainAuthority.m_cert.getIdentity
    { ParamFetcher.defaultInterestTemplate with applicationParameters }

/-- The default template. -/
theorem exchange_agrees_default :
    Agrees Consumer.mockPlatform.mem plainAuthority (fetcherWith none).m_attrAuthorityPrefix
        { ParamFetcher.defaultInterestTemplate with name := (fetcherWith none).requestName } 0 ↔
      (fetcherWith none).KeepsLength :=
  exchange_agrees_iff Consumer.mockPlatform.mem paddedDigest length_paddedDigest plainAuthority
    (Or.inl rfl) (by decide) 0 (fetcherWith none) _ _ (exec_fetchPublicParams _ _) rfl

/-- A template with application parameters gets an answer that makes the fetcher take the digest
for the type. -/
theorem exchange_disagrees :
    ∃ interest sent, (fetchPublicParams paddedDigest).exec (fetcherWith (some [1])) =
        (.ok (), sent) ∧
      sent.outstanding = interest :: (fetcherWith (some [1])).outstanding ∧
      ¬ Agrees Consumer.mockPlatform.mem plainAuthority
        (fetcherWith (some [1])).m_attrAuthorityPrefix interest 0 := by
  refine ⟨_, _, exec_fetchPublicParams _ _, rfl, ?_⟩
  intro h
  have hvalue := (h (fetcherWith (some [1])) rfl).1
  exact absurd hvalue (by decide)

end NacAbe.Analysis
