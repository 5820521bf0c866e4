import NacAbe.Analysis.ParamAgreement
import NacAbe.Interface.ParamNetwork

/-!
# The parameters that a fetcher ends with

The validator makes sure that a packet is the authority's and the Interest that it lies under
`/<aa>/PUBPARAMS`.  The parameters are therefore the authority's in every run.  The type is not:
the authority signs answers to Interests of any length under its prefix, the fetcher reads the
type behind its own request, and in the answer to a longer Interest that place is taken by a
component of the asker's choice (`params_authentic`).  Whoever may send an Interest can so make a
fetcher take the authority for one of the other type (`type_isForgeable`).
-/

set_option autoImplicit false

namespace NacAbe

/-! ## Names of requests -/

namespace ParamFetcher

variable {paramsDigest : Bytes → Bytes} {fetcher : ParamFetcher} {interest : Interest}

/-- The marker stays in its place, whatever becomes of digests before it. -/
theorem marker_of_setName
    (h : fetcher.m_interestTemplate.setName paramsDigest fetcher.requestName = .ok interest) :
    interest.name[fetcher.m_attrAuthorityPrefix.length]? = some publicParamsComponent := by
  have hmarker : fetcher.requestName[fetcher.m_attrAuthorityPrefix.length]? =
      some publicParamsComponent := List.getElem?_concat_length
  unfold Interest.setName at h
  split at h
  · cases h
  · split at h
    · cases h
      exact hmarker
    · dsimp only at h
      split at h
      · cases h
        have hnot : isParametersSha256Digest publicParamsComponent = false := by decide
        rw [List.getElem?_map, hmarker, Option.map_some, hnot]
        rfl
      · cases h
        rw [List.getElem?_append_left (by simp [requestName])]
        exact hmarker

/-- An Interest that is outstanding after a call was so before or is named from the template. -/
theorem outstanding_of_fetched (h : interest ∈ (fetched paramsDigest fetcher).2.outstanding) :
    interest ∈ fetcher.outstanding ∨
      fetcher.m_interestTemplate.setName paramsDigest fetcher.requestName = .ok interest := by
  obtain ⟨-, hfetched⟩ | ⟨-, ⟨e, -, hfetched⟩ | ⟨sent, hname, hfetched⟩⟩ :=
    fetched_cases paramsDigest fetcher
  · rw [hfetched] at h
    exact Or.inl h
  · rw [hfetched] at h
    exact Or.inl h
  · rw [hfetched] at h
    rcases List.mem_cons.mp h with rfl | hold
    · exact Or.inr hname
    · exact Or.inl hold

/-- So it is after every event. -/
theorem outstanding_of_next {mem : Memory} {e : Event}
    (h : interest ∈ (fetcher.next mem paramsDigest e).outstanding) :
    interest ∈ fetcher.outstanding ∨
      fetcher.m_interestTemplate.setName paramsDigest fetcher.requestName = .ok interest := by
  by_cases henabled : e.enabled fetcher = true
  · cases e with
    | call =>
      rw [next, handle_call] at h
      exact outstanding_of_fetched h
    | arrival answered =>
      rw [next, handle_arrival mem paramsDigest (of_decide_eq_true henabled)] at h
      exact Or.inl (List.mem_of_mem_erase h)
    | validation pubParamData validationError =>
      obtain ⟨abeType, pubParams, hreceived⟩ :=
        received_frame mem fetcher pubParamData validationError
      rw [next, handle_validation, hreceived] at h
      exact Or.inl h
    | nackOrTimeout answered =>
      rw [next, handle_nackOrTimeout mem paramsDigest (of_decide_eq_true henabled)] at h
      exact (outstanding_of_fetched h).imp_left List.mem_of_mem_erase
  · rw [next, handle_of_not_enabled mem paramsDigest (by simpa using henabled)] at h
    exact Or.inl h

end ParamFetcher

namespace ParamNetwork

open AttributeAuthority (sent)

variable {Token : Type} {keyGen : KeyGen Token} {crypto : Crypto} {mem : Memory}
  {paramsDigest : Bytes → Bytes} {x : ParamNetwork Token} {events : List (Event Token)}

/-! ## What a fetcher holds -/

/-- The type that the answer to an Interest shows to a fetcher: the authority's behind a request
as the fetcher sends it, and a component of the Interest behind a longer one. -/
def TypeShown (aa : AttributeAuthority Token) (interest : Interest) (abeType : AbeType) : Prop :=
  ∃ component, (interest.name ++ [Component.generic aa.m_abeType])[aa.paramsPrefix.length]? =
    some component ∧ component.value = abeType

/-- The fetcher holds nothing, or a type shown by an answer that was sent, and parameters that are
the authority's as soon as a supported type has been held. -/
structure Held (asked : List (Interest × ℕ)) (x : ParamNetwork Token) : Prop where
  params : x.fetcher.m_pubParamsCache = ⟨[]⟩ ∨
    x.fetcher.m_pubParamsCache = x.authority.m_pubParams
  type : (x.fetcher.m_abeType = [] ∧ x.fetcher.m_pubParamsCache = ⟨[]⟩) ∨
    ∃ request ∈ asked, TypeShown x.authority request.1 x.fetcher.m_abeType ∧
      (ParamFetcher.Supported x.fetcher.m_abeType →
        x.fetcher.m_pubParamsCache = x.authority.m_pubParams)

/-- What is known after a run from `start`. -/
structure Known (crypto : Crypto) (start : ParamNetwork Token) (asked : List (Interest × ℕ))
    (x : ParamNetwork Token) : Prop where
  same : AttributeAuthority.SameKeys start.authority x.authority
  template : x.fetcher.m_interestTemplate = start.fetcher.m_interestTemplate
  objects : AttributeAuthority.KeyObjects crypto x.authority
  addressed : x.authority.Addressed asked
  fetcherPrefix : x.fetcher.m_attrAuthorityPrefix = x.authority.m_cert.getIdentity
  outstanding : ∀ interest ∈ x.fetcher.outstanding,
    interest.name[x.authority.m_cert.getIdentity.length]? = some publicParamsComponent
  validating : ∀ data ∈ x.validating, ∃ digest,
    (data.fullName digest)[x.authority.m_cert.getIdentity.length]? = some publicParamsComponent
  held : Held asked x

variable {start : ParamNetwork Token} {asked : List (Interest × ℕ)}

/-- A name under a prefix has the components of the prefix. -/
theorem getElem?_of_concat_prefix {front name : Name} {c : Component} (h : front ++ [c] <+: name) :
    name[front.length]? = some c := by
  obtain ⟨rest, rfl⟩ := h
  rw [List.append_assoc, List.getElem?_append_right (Nat.le_refl _), Nat.sub_self]
  rfl

/-- **The authority's packet behind a request for parameters answers such a request.**  A segment
of a key lies under the other marker. -/
theorem Known.publicParamsData_of_sent (h : Known crypto start asked x) {data : Data}
    (hvalidating : data ∈ x.validating) (hsent : data ∈ sent x.authority.log) :
    ∃ request ∈ asked, x.authority.paramsPrefix <+: request.1.name ∧
      data = x.authority.publicParamsData request.1 request.2 := by
  apply (h.addressed.sent data hsent).resolve_left
  intro hkey
  obtain ⟨digest, hmarker⟩ := h.validating data hvalidating
  have hdkey : (data.fullName digest)[x.authority.m_cert.getIdentity.length]? =
      some decryptKeyComponent :=
    getElem?_of_concat_prefix (hkey.trans (List.prefix_append _ _))
  rw [hmarker] at hdkey
  have hne : publicParamsComponent ≠ decryptKeyComponent := by decide
  exact hne (Option.some.inj hdkey)

/-- The version comes behind the place that is read. -/
theorem typeComponent_publicParamsData
    (hfront : x.fetcher.m_attrAuthorityPrefix = x.authority.m_cert.getIdentity)
    {interest : Interest} (hunder : x.authority.paramsPrefix <+: interest.name) (now : ℕ) :
    x.fetcher.typeComponent (x.authority.publicParamsData interest now) =
      (interest.name ++ [Component.generic x.authority.m_abeType])[
        x.authority.paramsPrefix.length]? := by
  have hlength : x.authority.paramsPrefix.length = x.fetcher.m_attrAuthorityPrefix.length + 1 := by
    rw [hfront, AttributeAuthority.paramsPrefix, List.length_append, List.length_singleton]
  have hle := hunder.length_le
  rw [ParamFetcher.typeComponent, ← hlength, AttributeAuthority.publicParamsData]
  dsimp only
  rw [List.append_cons, List.getElem?_append_left]
  rw [List.length_append, List.length_singleton]
  omega

variable (mem) in
/-- An answer that shows a supported type is taken with it. -/
theorem received_publicParamsData
    (hfront : x.fetcher.m_attrAuthorityPrefix = x.authority.m_cert.getIdentity)
    (hpub : (0 : UInt8) ∉ x.authority.m_pubParams.m_pub) {interest : Interest}
    (hunder : x.authority.paramsPrefix <+: interest.name) {other : AbeType}
    (hother : ParamFetcher.Supported other) (hshown : TypeShown x.authority interest other)
    (now : ℕ) :
    (ParamFetcher.received mem x.fetcher (x.authority.publicParamsData interest now) none).2 =
      { x.fetcher with m_abeType := other, m_pubParamsCache := x.authority.m_pubParams } := by
  obtain ⟨component, hget, rfl⟩ := hshown
  rw [← typeComponent_publicParamsData hfront hunder now] at hget
  have hbuffer : PublicParams.fromBuffer mem (x.authority.publicParamsData interest now).content =
      .ok x.authority.m_pubParams := PublicParams.fromBuffer_toBuffer mem hpub
  rw [ParamFetcher.received_of_supported hget hother hbuffer]

/-- **An answer that passes the validator** leaves the authority's parameters and the type it
shows. -/
theorem Held.validated (h : Held asked x)
    (hfront : x.fetcher.m_attrAuthorityPrefix = x.authority.m_cert.getIdentity)
    (hpub : (0 : UInt8) ∉ x.authority.m_pubParams.m_pub) {request : Interest × ℕ}
    (hrequest : request ∈ asked) (hunder : x.authority.paramsPrefix <+: request.1.name)
    (validating : List Data) :
    Held asked { x with
      fetcher := (ParamFetcher.received mem x.fetcher
        (x.authority.publicParamsData request.1 request.2) none).2
      validating } := by
  have hplace := typeComponent_publicParamsData hfront hunder request.2
  cases hcomponent : x.fetcher.typeComponent
    (x.authority.publicParamsData request.1 request.2) with
  | none =>
    simp only [ParamFetcher.received, hcomponent]
    exact ⟨h.params, h.type⟩
  | some component =>
    have hshown : TypeShown x.authority request.1 component.value :=
      ⟨component, hplace ▸ hcomponent, rfl⟩
    by_cases hsupported : ParamFetcher.Supported component.value
    · rw [received_publicParamsData mem hfront hpub hunder hsupported hshown]
      exact ⟨Or.inr rfl, Or.inr ⟨request, hrequest, hshown, fun _ => rfl⟩⟩
    · simp only [ParamFetcher.received, hcomponent, if_neg hsupported]
      exact ⟨h.params, Or.inr ⟨request, hrequest, hshown, fun hnow => absurd hnow hsupported⟩⟩

/-! ## Runs -/

/-- The authority keeps what it was constructed with. -/
theorem Held.of_sameKeys (h : Held asked x) {aa : AttributeAuthority Token}
    (hsame : AttributeAuthority.SameKeys x.authority aa) {asked' : List (Interest × ℕ)}
    (hasked : asked ⊆ asked') : Held asked' { x with authority := aa } := by
  constructor
  · rw [hsame.pubParams_eq]
    exact h.params
  · apply h.type.imp_right
    rintro ⟨request, hrequest, ⟨component, hget, hvalue⟩, hparams⟩
    refine ⟨request, hasked hrequest, ⟨component, ?_, hvalue⟩, ?_⟩
    · rw [AttributeAuthority.paramsPrefix, hsame.cert_eq, hsame.abeType_eq]
      exact hget
    · rw [hsame.pubParams_eq]
      exact hparams

/-- An event of the fetcher other than a validation. -/
theorem Known.quiet (h : Known crypto start asked x) {e : ParamFetcher.Event}
    (he : ∀ pubParamData validationError, e ≠ .validation pubParamData validationError)
    {validating : List Data}
    (hvalidating : ∀ data ∈ validating, ∃ digest,
      (data.fullName digest)[x.authority.m_cert.getIdentity.length]? = some publicParamsComponent) :
    Known crypto start asked { x with
      fetcher := x.fetcher.next mem paramsDigest e
      validating } := by
  have houtstanding : ∀ interest ∈ (x.fetcher.next mem paramsDigest e).outstanding,
      interest.name[x.authority.m_cert.getIdentity.length]? = some publicParamsComponent := by
    intro interest hmem
    rcases ParamFetcher.outstanding_of_next hmem with hold | hname
    · exact h.outstanding interest hold
    · rw [← h.fetcherPrefix]
      exact ParamFetcher.marker_of_setName hname
  have hconstants := ParamFetcher.next_constants mem paramsDigest x.fetcher e
  obtain ⟨retryCount, outstanding, hnext⟩ :=
    ParamFetcher.next_frame mem paramsDigest x.fetcher he
  refine ⟨h.same, hconstants.2.trans h.template, h.objects, h.addressed,
    hconstants.1.trans h.fetcherPrefix, houtstanding, hvalidating, ?_⟩
  rw [hnext]
  exact ⟨h.held.params, h.held.type⟩

/-- An event of the authority, which may answer a request. -/
theorem Known.authority (h : Known crypto start asked x) {e : AttributeAuthority.Event Token}
    (he : Trusted x (.authority e)) :
    Known crypto start (asked ++ requests [.authority e])
      { x with authority := x.authority.next keyGen crypto e } := by
  have houtcome := AttributeAuthority.next_outcome keyGen crypto x.authority e
  have hsame := houtcome.sameKeys
  have hasked : asked ⊆ asked ++ requests [.authority e] := List.subset_append_left _ _
  refine ⟨h.same.trans hsame, h.template, h.objects.step houtcome, ?_, ?_, ?_, ?_,
    h.held.of_sameKeys hsame hasked⟩
  · apply h.addressed.next h.objects he hasked
    rintro interest now rfl
    exact List.mem_append_right _ (List.mem_singleton.mpr rfl)
  · exact h.fetcherPrefix.trans (congrArg Certificate.getIdentity hsame.cert_eq).symm
  · intro interest hmem
    dsimp only
    rw [hsame.cert_eq]
    exact h.outstanding interest hmem
  · intro data hmem
    dsimp only
    rw [hsame.cert_eq]
    exact h.validating data hmem

/-- A packet that answers an outstanding Interest. -/
theorem Known.arrived (h : Known crypto start asked x) {interest : Interest} {data : Data}
    {digest : Bytes}
    (hanswers : interest ∈ x.fetcher.outstanding ∧ interest.matchesData data digest = true) :
    Known crypto start asked { x with
      fetcher := x.fetcher.next mem paramsDigest (.arrival interest)
      validating := data :: x.validating } := by
  apply h.quiet (by rintro _ _ ⟨⟩)
  intro packet hpacket
  rcases List.mem_cons.mp hpacket with rfl | hold
  · obtain ⟨rest, hrest⟩ := Interest.prefix_fullName_of_matchesData hanswers.2
    have hmarker := h.outstanding interest hanswers.1
    refine ⟨digest, ?_⟩
    rw [← hrest, List.getElem?_append_left (List.getElem?_eq_some_iff.mp hmarker).1]
    exact hmarker
  · exact h.validating packet hold

/-- A packet that the validator is done with. -/
theorem Known.validated (h : Known crypto start asked x)
    (hpub : (0 : UInt8) ∉ start.authority.m_pubParams.m_pub) {data : Data}
    {validationError : Option String} (hmem : data ∈ x.validating)
    (he : Trusted x (.validated data validationError)) :
    Known crypto start asked { x with
      fetcher := (ParamFetcher.received mem x.fetcher data validationError).2
      validating := x.validating.erase data } := by
  obtain ⟨abeType, pubParams, hframe⟩ :=
    ParamFetcher.received_frame mem x.fetcher data validationError
  have hvalidating : ∀ packet ∈ x.validating.erase data, ∃ digest,
      (packet.fullName digest)[x.authority.m_cert.getIdentity.length]? =
        some publicParamsComponent :=
    fun packet hpacket => h.validating packet (List.mem_of_mem_erase hpacket)
  have hheld : Held asked { x with
      fetcher := (ParamFetcher.received mem x.fetcher data validationError).2
      validating := x.validating.erase data } := by
    cases validationError with
    | some info => exact ⟨h.held.params, h.held.type⟩
    | none =>
      obtain ⟨request, hrequest, hunder, rfl⟩ := h.publicParamsData_of_sent hmem he
      rw [← h.same.pubParams_eq] at hpub
      exact h.held.validated h.fetcherPrefix hpub hrequest hunder _
  refine ⟨h.same, ?_, h.objects, h.addressed, ?_, ?_, hvalidating, hheld⟩
  · rw [hframe]
    exact h.template
  · rw [hframe]
    exact h.fetcherPrefix
  · rw [hframe]
    exact h.outstanding

/-- **One event.** -/
theorem Known.next (h : Known crypto start asked x)
    (hpub : (0 : UInt8) ∉ start.authority.m_pubParams.m_pub) {e : Event Token} (he : Trusted x e) :
    Known crypto start (asked ++ requests [e])
      (ParamNetwork.next keyGen crypto mem paramsDigest x e) := by
  cases e with
  | authority e => exact h.authority he
  | call =>
    rw [show requests [(.call : Event Token)] = [] from rfl, List.append_nil]
    exact h.quiet (by rintro _ _ ⟨⟩) h.validating
  | deliver interest data digest =>
    rw [show requests [(.deliver interest data digest : Event Token)] = [] from rfl,
      List.append_nil, ParamNetwork.next]
    split
    · next hanswers => exact h.arrived hanswers
    · exact h
  | nackOrTimeout interest =>
    rw [show requests [(.nackOrTimeout interest : Event Token)] = [] from rfl, List.append_nil]
    exact h.quiet (by rintro _ _ ⟨⟩) h.validating
  | validated data validationError =>
    rw [show requests [(.validated data validationError : Event Token)] = [] from rfl,
      List.append_nil, ParamNetwork.next]
    split
    · next hmem =>
      rw [ParamFetcher.next, ParamFetcher.handle_validation]
      exact h.validated hpub hmem he
    · exact h

variable (keyGen crypto mem paramsDigest) in
/-- Every event is one that the face and the validator let happen. -/
def TrustedRun (start : ParamNetwork Token) (events : List (Event Token)) : Prop :=
  Runs.Permitted (fun before e => Trusted (run keyGen crypto mem paramsDigest start before) e)
    events

section

variable (keyGen) (crypto) (mem) (paramsDigest) (identityCert : Certificate) (abeType : AbeType)
  (maxSegmentSize : ℕ) (keys : PublicParams × MasterKey) (interestTemplate : Interest)

theorem known_initial : Known crypto
    (initial identityCert abeType maxSegmentSize keys interestTemplate : ParamNetwork Token) []
    (initial identityCert abeType maxSegmentSize keys interestTemplate) where
  same := ⟨rfl, rfl, rfl, rfl, rfl⟩
  template := rfl
  objects := ⟨by rintro _ _ ⟨⟩, List.forall_mem_nil _, List.forall_mem_nil _⟩
  addressed := ⟨List.forall_mem_nil _, List.forall_mem_nil _⟩
  fetcherPrefix := rfl
  outstanding := List.forall_mem_nil _
  validating := List.forall_mem_nil _
  held := ⟨Or.inl rfl, Or.inl ⟨rfl, rfl⟩⟩

/-- **Runs.** -/
theorem known_run (hpub : (0 : UInt8) ∉ keys.1.m_pub) (events : List (Event Token))
    (htrusted : TrustedRun keyGen crypto mem paramsDigest
      (initial identityCert abeType maxSegmentSize keys interestTemplate) events) :
    Known crypto (initial identityCert abeType maxSegmentSize keys interestTemplate)
      (requests events) (run keyGen crypto mem paramsDigest
        (initial identityCert abeType maxSegmentSize keys interestTemplate) events) := by
  refine Runs.invariant _ _ (fun events x => Known crypto
    (initial identityCert abeType maxSegmentSize keys interestTemplate) (requests events) x)
    (known_initial crypto identityCert abeType maxSegmentSize keys interestTemplate) ?_
    events htrusted
  intro events e _ he ih
  rw [requests_append]
  exact ih.next hpub he

end

end ParamNetwork

end NacAbe

/-! ## Forged types -/

namespace NacAbe.ParamNetwork

variable {Token : Type} {keyGen : KeyGen Token} {crypto : Crypto} {mem : Memory}
  {paramsDigest : Bytes → Bytes} {x : ParamNetwork Token}

/-- An Interest that names a type of its own behind the marker. -/
def forgedRequest (aa : AttributeAuthority Token) (other : AbeType) : Interest :=
  ⟨aa.paramsPrefix ++ [Component.generic other], true, none, none⟩

/-- The Interest that the fetcher sends when its template carries no parameters. -/
def plainRequest (fetcher : ParamFetcher) : Interest :=
  { fetcher.m_interestTemplate with name := fetcher.requestName }

/-- The authority answers the forged Interest, the fetcher asks, and the answer reaches it. -/
def forgery (x : ParamNetwork Token) (other : AbeType) (now : ℕ) (digest : Bytes) :
    List (Event Token) :=
  let answer := x.authority.publicParamsData (forgedRequest x.authority other) now
  [.authority (.publicParamsRequest (forgedRequest x.authority other) now), .call,
    .deliver (plainRequest x.fetcher) answer digest, .validated answer none]

theorem name_forged (aa : AttributeAuthority Token) (other : AbeType) (now : ℕ) :
    (aa.publicParamsData (forgedRequest aa other) now).name = aa.paramsPrefix ++
      [Component.generic other, Component.generic aa.m_abeType, Component.fromVersion now] :=
  List.append_assoc _ _ _

/-- The answer to the forged Interest shows the type that it names. -/
theorem typeShown_forged (aa : AttributeAuthority Token) (other : AbeType) :
    TypeShown aa (forgedRequest aa other) other := by
  refine ⟨Component.generic other, ?_, rfl⟩
  rw [forgedRequest, List.append_assoc, List.getElem?_append_right (Nat.le_refl _), Nat.sub_self]
  rfl

/-- The answer to the forged Interest matches the fetcher's. -/
theorem matches_forged (hfront : x.fetcher.m_attrAuthorityPrefix = x.authority.m_cert.getIdentity)
    (hcan : x.fetcher.m_interestTemplate.canBePrefix = true) (other : AbeType) (now : ℕ)
    (digest : Bytes) :
    (plainRequest x.fetcher).matchesData
      (x.authority.publicParamsData (forgedRequest x.authority other) now) digest = true := by
  have hname : (plainRequest x.fetcher).name = x.authority.paramsPrefix := by
    rw [plainRequest, ParamFetcher.requestName, hfront, AttributeAuthority.paramsPrefix]
  have hprefixed : (plainRequest x.fetcher).canBePrefix = true := hcan
  rw [Interest.matchesData, hname, name_forged, if_neg, if_pos hprefixed]
  · exact List.isPrefixOf_iff_prefix.mpr (List.prefix_append _ _)
  · rw [List.length_append, List.length_cons]
    omega

/-- A plain template leaves the name as it is. -/
theorem setName_plain {fetcher : ParamFetcher}
    (hplain : fetcher.m_interestTemplate.applicationParameters = none)
    (hdigests : fetcher.requestName.countP isParametersSha256Digest ≤ 1) :
    fetcher.m_interestTemplate.setName paramsDigest fetcher.requestName =
      .ok (plainRequest fetcher) := by
  rw [Interest.setName, if_neg (by omega)]
  simp only [plainRequest, hplain]

/-- A call that may still retry expresses the plain request. -/
theorem next_call_plain (hplain : x.fetcher.m_interestTemplate.applicationParameters = none)
    (hdigests : x.fetcher.requestName.countP isParametersSha256Digest ≤ 1)
    (hretry : x.fetcher.m_retryCount < maxRetries) :
    next keyGen crypto mem paramsDigest x .call = { x with fetcher := { x.fetcher with
      m_retryCount := x.fetcher.m_retryCount + 1
      outstanding := plainRequest x.fetcher :: x.fetcher.outstanding } } := by
  have hfetched : ParamFetcher.fetched paramsDigest x.fetcher = (.ok (), { x.fetcher with
      m_retryCount := x.fetcher.m_retryCount + 1
      outstanding := plainRequest x.fetcher :: x.fetcher.outstanding }) := by
    rw [ParamFetcher.fetched, if_neg (by omega), setName_plain hplain hdigests]
  rw [next, ParamFetcher.next, ParamFetcher.handle_call, hfetched]

/-- A packet that matches goes to the validator. -/
theorem next_deliver_matching {interest : Interest} {data : Data} {digest : Bytes}
    (hmem : interest ∈ x.fetcher.outstanding) (hmatch : interest.matchesData data digest = true) :
    next keyGen crypto mem paramsDigest x (.deliver interest data digest) = { x with
      fetcher := x.fetcher.arrived interest
      validating := data :: x.validating } := by
  rw [next, if_pos ⟨hmem, hmatch⟩, ParamFetcher.next,
    ParamFetcher.handle_arrival mem paramsDigest hmem]

variable (keyGen crypto mem paramsDigest) in
/-- **What a forgery leaves:** the type that was named and the authority's parameters. -/
theorem forgery_leaves (hfront : x.fetcher.m_attrAuthorityPrefix = x.authority.m_cert.getIdentity)
    (hcan : x.fetcher.m_interestTemplate.canBePrefix = true)
    (hplain : x.fetcher.m_interestTemplate.applicationParameters = none)
    (hdigests : x.fetcher.requestName.countP isParametersSha256Digest ≤ 1)
    (hretry : x.fetcher.m_retryCount < maxRetries)
    (hpub : (0 : UInt8) ∉ x.authority.m_pubParams.m_pub) {other : AbeType}
    (hother : ParamFetcher.Supported other) (now : ℕ) (digest : Bytes) :
    TrustedRun keyGen crypto mem paramsDigest x (forgery x other now digest) ∧
      (run keyGen crypto mem paramsDigest x (forgery x other now digest)).fetcher.m_abeType =
        other ∧
      (run keyGen crypto mem paramsDigest x
        (forgery x other now digest)).fetcher.m_pubParamsCache = x.authority.m_pubParams := by
  let forged := forgedRequest x.authority other
  let answer := x.authority.publicParamsData forged now
  let asked : ParamNetwork Token := { x with authority := x.authority.record [.put answer] }
  let called : ParamNetwork Token := { asked with fetcher := { x.fetcher with
    m_retryCount := x.fetcher.m_retryCount + 1
    outstanding := plainRequest x.fetcher :: x.fetcher.outstanding } }
  let arrived : ParamNetwork Token := { called with
    fetcher := called.fetcher.arrived (plainRequest x.fetcher)
    validating := answer :: x.validating }
  have hasked : next keyGen crypto mem paramsDigest x
      (.authority (.publicParamsRequest forged now)) = asked := rfl
  have hcalled : next keyGen crypto mem paramsDigest asked .call = called :=
    next_call_plain (x := asked) hplain hdigests hretry
  have harrived : next keyGen crypto mem paramsDigest called
      (.deliver (plainRequest x.fetcher) answer digest) = arrived :=
    next_deliver_matching (x := called) List.mem_cons_self
      (matches_forged hfront hcan other now digest)
  have hvalidated : (next keyGen crypto mem paramsDigest arrived (.validated answer none)).fetcher =
      { arrived.fetcher with m_abeType := other, m_pubParamsCache := x.authority.m_pubParams } := by
    rw [next, if_pos List.mem_cons_self, ParamFetcher.next, ParamFetcher.handle_validation]
    exact received_publicParamsData mem (x := arrived) hfront hpub (List.prefix_append _ _) hother
      (typeShown_forged x.authority other) now
  have hrun : run keyGen crypto mem paramsDigest x (forgery x other now digest) =
      next keyGen crypto mem paramsDigest arrived (.validated answer none) := by
    rw [← harrived, ← hcalled, ← hasked]
    rfl
  rw [hrun, hvalidated]
  have hanswered : Trusted x (.authority (.publicParamsRequest forged now)) :=
    List.prefix_append _ _
  have hsent : Trusted arrived (.validated answer none) := by
    have hlog : answer ∈ AttributeAuthority.sent (x.authority.log ++ [.put answer]) := by
      rw [AttributeAuthority.sent_append]
      exact List.mem_append_right _ List.mem_cons_self
    exact hlog
  refine ⟨?_, rfl, rfl⟩
  apply (Runs.permitted_cons _ x _ _).mpr
  refine ⟨hanswered, ?_⟩
  rw [hasked, Runs.permitted_cons, hcalled, Runs.permitted_cons, harrived]
  refine ⟨trivial, trivial, ?_⟩
  rw [Runs.permitted_cons]
  exact ⟨hsent, Runs.permitted_nil _⟩

end NacAbe.ParamNetwork

namespace NacAbe.Analysis

open ParamNetwork

variable {Token : Type}

/-- **The parameters are the authority's, and the type is one that an answer showed.**  For every
authority whose parameters have no terminator, every template, and every order of its events, of
calls, of deliveries of any packets, lost Interests and decisions of the validator: a fetcher holds
no parameters or the authority's, and no type or one that stands in an answer to a request for
parameters.  Where all those requests have the length of the fetcher's own, it holds nothing, or
the type and the parameters of the authority. -/
theorem params_authentic (keyGen : KeyGen Token) (crypto : Crypto) (mem : Memory)
    (paramsDigest : Bytes → Bytes) (identityCert : Certificate) (abeType : AbeType)
    (htype : ParamFetcher.Supported abeType) (maxSegmentSize : ℕ) (keys : PublicParams × MasterKey)
    (hpub : (0 : UInt8) ∉ keys.1.m_pub) (interestTemplate : Interest) (events : List (Event Token))
    (htrusted : TrustedRun keyGen crypto mem paramsDigest
      (initial identityCert abeType maxSegmentSize keys interestTemplate) events) :
    let x := run keyGen crypto mem paramsDigest
      (initial identityCert abeType maxSegmentSize keys interestTemplate) events
    (x.fetcher.m_pubParamsCache = ⟨[]⟩ ∨ x.fetcher.m_pubParamsCache = keys.1) ∧
    (x.fetcher.m_abeType = [] ∨
      ∃ request ∈ requests events, TypeShown x.authority request.1 x.fetcher.m_abeType) ∧
    ((∀ request ∈ requests events,
        request.1.name.length = identityCert.getIdentity.length + 1) →
      (x.fetcher.m_abeType = [] ∧ x.fetcher.m_pubParamsCache = ⟨[]⟩) ∨
        (x.fetcher.m_abeType = abeType ∧ x.fetcher.m_pubParamsCache = keys.1)) := by
  have hknown := known_run keyGen crypto mem paramsDigest identityCert abeType maxSegmentSize keys
    interestTemplate hpub events htrusted
  intro x
  have hparams : x.authority.m_pubParams = keys.1 := hknown.same.pubParams_eq
  have hheld := hknown.held
  rw [← hparams]
  refine ⟨hheld.params, ?_, ?_⟩
  · rcases hheld.type with ⟨hnone, -⟩ | ⟨request, hrequest, hshown, -⟩
    · exact Or.inl hnone
    · exact Or.inr ⟨request, hrequest, hshown⟩
  · intro hplain
    apply hheld.type.imp_right
    rintro ⟨request, hrequest, ⟨component, hget, hvalue⟩, hcache⟩
    have hlength : x.authority.paramsPrefix.length = request.1.name.length := by
      have hcert : x.authority.m_cert = identityCert := hknown.same.cert_eq
      rw [hplain request hrequest, AttributeAuthority.paramsPrefix, hcert, List.length_append,
        List.length_singleton]
    rw [hlength, List.getElem?_concat_length] at hget
    obtain rfl : Component.generic x.authority.m_abeType = component := Option.some.inj hget
    have heq : x.fetcher.m_abeType = abeType := hvalue.symm.trans hknown.same.abeType_eq
    refine ⟨heq, hcache ?_⟩
    change ParamFetcher.Supported x.fetcher.m_abeType
    rw [heq]
    exact htype

/-- The authority `/a` for CP-ABE and a fetcher with the default template. -/
def plainNetwork : ParamNetwork (List Bytes) :=
  initial (.sample (ascii "a") [8]) abeTypeCpAbe 1500 (⟨[1]⟩, ⟨[2]⟩)
    ParamFetcher.defaultInterestTemplate

/-- The fetcher asks and the answer of the authority reaches it. -/
def plainExchange : List (Event (List Bytes)) :=
  let request := plainRequest plainNetwork.fetcher
  let answer := plainNetwork.authority.publicParamsData request 0
  [.call, .authority (.publicParamsRequest request 0), .deliver request answer [],
    .validated answer none]

theorem trusted_plainExchange : TrustedRun (CpAttributeAuthority.keyGen mockAbe) mockCrypto
    Consumer.mockPlatform.mem paddedDigest plainNetwork plainExchange := by
  apply (Runs.permitted_cons _ _ _ _).mpr
  refine ⟨trivial, ?_⟩
  rw [Runs.permitted_cons, Runs.permitted_cons, Runs.permitted_cons]
  refine ⟨List.prefix_refl _, trivial, ?_, Runs.permitted_nil _⟩
  exact List.mem_cons_self

/-- The exchange agrees. -/
theorem params_authentic_example :
    let x := run (CpAttributeAuthority.keyGen mockAbe) mockCrypto Consumer.mockPlatform.mem
      paddedDigest plainNetwork plainExchange
    (x.fetcher.m_abeType = [] ∧ x.fetcher.m_pubParamsCache = ⟨[]⟩) ∨
      (x.fetcher.m_abeType = abeTypeCpAbe ∧ x.fetcher.m_pubParamsCache = ⟨[1]⟩) := by
  have h := params_authentic (CpAttributeAuthority.keyGen mockAbe) mockCrypto
    Consumer.mockPlatform.mem paddedDigest (.sample (ascii "a") [8]) abeTypeCpAbe (Or.inl rfl) 1500
    (⟨[1]⟩, ⟨[2]⟩) (by decide) ParamFetcher.defaultInterestTemplate plainExchange
    trusted_plainExchange
  apply h.2.2
  intro request hrequest
  obtain rfl : request = (plainRequest plainNetwork.fetcher, 0) := List.mem_singleton.mp hrequest
  decide

/-- **Anybody can make a fetcher take another type.**  From every state of every such run in which
the fetcher may still ask, with a template that takes longer names and carries no parameters, four
more events leave it with the authority's parameters and whichever supported type is wished for:
the authority answers an Interest that names the type behind the marker, and the answer reaches
the fetcher before another one. -/
theorem type_isForgeable (keyGen : KeyGen Token) (crypto : Crypto) (mem : Memory)
    (paramsDigest : Bytes → Bytes) (identityCert : Certificate) (abeType : AbeType)
    (maxSegmentSize : ℕ) (keys : PublicParams × MasterKey) (hpub : (0 : UInt8) ∉ keys.1.m_pub)
    (interestTemplate : Interest) (hcan : interestTemplate.canBePrefix = true)
    (hplain : interestTemplate.applicationParameters = none)
    (hdigests : identityCert.getIdentity.countP isParametersSha256Digest ≤ 1)
    (events : List (Event Token))
    (htrusted : TrustedRun keyGen crypto mem paramsDigest
      (initial identityCert abeType maxSegmentSize keys interestTemplate) events)
    (hretry : (run keyGen crypto mem paramsDigest
      (initial identityCert abeType maxSegmentSize keys interestTemplate) events
        ).fetcher.m_retryCount < maxRetries)
    (other : AbeType) (hother : ParamFetcher.Supported other) (now : ℕ) (digest : Bytes) :
    let forged : Interest :=
      ⟨identityCert.getIdentity ++ [publicParamsComponent, Component.generic other], true, none,
        none⟩
    ∃ later, later.length = 4 ∧ .authority (.publicParamsRequest forged now) ∈ later ∧
      TrustedRun keyGen crypto mem paramsDigest
        (initial identityCert abeType maxSegmentSize keys interestTemplate) (events ++ later) ∧
      let x := run keyGen crypto mem paramsDigest
        (initial identityCert abeType maxSegmentSize keys interestTemplate) (events ++ later)
      x.fetcher.m_abeType = other ∧ x.fetcher.m_pubParamsCache = keys.1 ∧
        x.authority.m_abeType = abeType := by
  have hknown := known_run keyGen crypto mem paramsDigest identityCert abeType maxSegmentSize keys
    interestTemplate hpub events htrusted
  generalize hreached : run keyGen crypto mem paramsDigest
    (initial identityCert abeType maxSegmentSize keys interestTemplate) events = x at hknown hretry
  have hparams : x.authority.m_pubParams = keys.1 := hknown.same.pubParams_eq
  have hcert : x.authority.m_cert = identityCert := hknown.same.cert_eq
  have hcount : x.fetcher.requestName.countP isParametersSha256Digest ≤ 1 := by
    have hmarker : ∀ c ∈ [publicParamsComponent], isParametersSha256Digest c = false := by decide
    rw [ParamFetcher.requestName, hknown.fetcherPrefix, hcert]
    exact (Name.requestable_append hmarker).mpr hdigests
  obtain ⟨hforgery, htype, hcache⟩ := forgery_leaves keyGen crypto mem paramsDigest
    hknown.fetcherPrefix (by rw [hknown.template]; exact hcan)
    (by rw [hknown.template]; exact hplain) hcount hretry (by rw [hparams]; exact hpub) hother now
    digest
  have hrun : run keyGen crypto mem paramsDigest
      (initial identityCert abeType maxSegmentSize keys interestTemplate)
      (events ++ forgery x other now digest) =
        run keyGen crypto mem paramsDigest x (forgery x other now digest) := by
    rw [run, Runs.after_append]
    exact congrArg (fun y => run keyGen crypto mem paramsDigest y _) hreached
  have hall : TrustedRun keyGen crypto mem paramsDigest
      (initial identityCert abeType maxSegmentSize keys interestTemplate)
      (events ++ forgery x other now digest) := by
    apply (Runs.permitted_append _ _ _ _).mpr
    refine ⟨htrusted, ?_⟩
    rw [← hreached] at hforgery ⊢
    exact hforgery
  have hsame := (known_run keyGen crypto mem paramsDigest identityCert abeType maxSegmentSize keys
    interestTemplate hpub _ hall).same
  intro forged
  have hforged : forgedRequest x.authority other = forged := by
    rw [forgedRequest, AttributeAuthority.paramsPrefix, hcert, List.append_assoc]
    rfl
  refine ⟨forgery x other now digest, rfl, ?_, hall, ?_, ?_, hsame.abeType_eq⟩
  · rw [← hforged]
    exact List.mem_cons_self
  · rw [hrun]
    exact htype
  · rw [hrun, ← hparams]
    exact hcache

/-- A fetcher of that authority can be made to take KP-ABE from the start. -/
theorem type_isForgeable_example :
    let forged : Interest := ⟨plainNetwork.authority.m_cert.getIdentity ++
      [publicParamsComponent, Component.generic abeTypeKpAbe], true, none, none⟩
    ∃ later, later.length = 4 ∧ .authority (.publicParamsRequest forged 0) ∈ later ∧
      TrustedRun (CpAttributeAuthority.keyGen mockAbe) mockCrypto Consumer.mockPlatform.mem
        paddedDigest plainNetwork ([] ++ later) ∧
      let x := run (CpAttributeAuthority.keyGen mockAbe) mockCrypto Consumer.mockPlatform.mem
        paddedDigest plainNetwork ([] ++ later)
      x.fetcher.m_abeType = abeTypeKpAbe ∧ x.fetcher.m_pubParamsCache = ⟨[1]⟩ ∧
        x.authority.m_abeType = abeTypeCpAbe :=
  type_isForgeable (CpAttributeAuthority.keyGen mockAbe) mockCrypto Consumer.mockPlatform.mem
    paddedDigest (.sample (ascii "a") [8]) abeTypeCpAbe 1500 (⟨[1]⟩, ⟨[2]⟩) (by decide)
    ParamFetcher.defaultInterestTemplate rfl rfl (by decide) [] (Runs.permitted_nil _) (by decide)
    abeTypeKpAbe (Or.inr rfl) 0 []

end NacAbe.Analysis
