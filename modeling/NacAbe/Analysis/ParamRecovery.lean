import NacAbe.Analysis.ParamAuthenticity

/-!
# Fetchers that are beyond help

The counter of attempts goes back to zero where an Interest is answered and nowhere else
(param-fetcher.cpp:60-62), and a call at the limit throws before anything is sent.  Once ten
attempts have ended without an answer there is nobody left to reset the counter, and the
fetcher never gets the parameters: neither the network nor further calls can help it.  In every
other state it can still get them, and these are the states in which it can still be made to
take a type (`params_areObtainable_iff`).
-/

set_option autoImplicit false

namespace NacAbe.ParamNetwork

variable {Token : Type} {keyGen : KeyGen Token} {crypto : Crypto} {mem : Memory}
  {paramsDigest : Bytes → Bytes} {x : ParamNetwork Token} {other : AbeType}

/-- The fetcher holds a type and the authority's parameters. -/
def Took (other : AbeType) (x : ParamNetwork Token) : Prop :=
  x.fetcher.m_abeType = other ∧ x.fetcher.m_pubParamsCache = x.authority.m_pubParams

/-- A packet that the authority sends when it is asked for parameters, and the type that it
shows. -/
def AnswerShows (aa : AttributeAuthority Token) (other : AbeType) (data : Data) : Prop :=
  ∃ interest now, aa.paramsPrefix <+: interest.name ∧ data = aa.publicParamsData interest now ∧
    TypeShown aa interest other

/-- The fetcher has taken the type, may ask, waits for an answer, or has one with its validator. -/
def StillOpen (other : AbeType) (x : ParamNetwork Token) : Prop :=
  Took other x ∨ x.fetcher.m_retryCount < maxRetries ∨ x.fetcher.outstanding ≠ [] ∨
    ∃ data ∈ x.validating, AnswerShows x.authority other data

/-! ## Hope does not come back -/

/-- What is still open depends on what the authority was constructed with only. -/
theorem StillOpen.of_sameKeys {aa : AttributeAuthority Token}
    (hsame : AttributeAuthority.SameKeys x.authority aa)
    (h : StillOpen other { x with authority := aa }) : StillOpen other x := by
  have hprefix : aa.paramsPrefix = x.authority.paramsPrefix := by
    rw [AttributeAuthority.paramsPrefix, hsame.cert_eq, AttributeAuthority.paramsPrefix]
  have hdata : aa.publicParamsData = x.authority.publicParamsData := by
    funext interest now
    rw [AttributeAuthority.publicParamsData, hsame.abeType_eq, hsame.pubParams_eq,
      AttributeAuthority.publicParamsData]
  simp only [StillOpen, Took, AnswerShows, TypeShown, hprefix, hdata, hsame.abeType_eq,
    hsame.pubParams_eq] at h
  exact h

/-- A packet that the validator is done with brings nothing that it did not show. -/
theorem StillOpen.of_received {start : ParamNetwork Token} {asked : List (Interest × ℕ)}
    (hknown : Known crypto start asked x) {data : Data} {validationError : Option String}
    (hmem : data ∈ x.validating) (he : Trusted x (.validated data validationError))
    (h : StillOpen other { x with
      fetcher := (ParamFetcher.received mem x.fetcher data validationError).2
      validating := x.validating.erase data }) : StillOpen other x := by
  obtain ⟨abeType, pubParams, hframe⟩ := ParamFetcher.received_frame mem x.fetcher data
    validationError
  rcases h with htook | hretry | houtstanding | ⟨packet, hpacket, hshows⟩
  · cases validationError with
    | some info => exact Or.inl htook
    | none =>
      obtain ⟨request, -, hunder, rfl⟩ := hknown.publicParamsData_of_sent hmem he
      have hplace := typeComponent_publicParamsData hknown.fetcherPrefix hunder request.2
      cases hcomponent : x.fetcher.typeComponent
        (x.authority.publicParamsData request.1 request.2) with
      | none =>
        simp only [ParamFetcher.received, hcomponent] at htook
        exact Or.inl htook
      | some component =>
        -- The type is assigned in any case.
        have htype : component.value = other :=
          (ParamFetcher.abeType_received hcomponent).symm.trans htook.1
        refine Or.inr (Or.inr (Or.inr ⟨_, hmem, request.1, request.2, hunder, rfl, ?_⟩))
        exact ⟨component, hplace ▸ hcomponent, htype⟩
  · rw [hframe] at hretry
    exact Or.inr (Or.inl hretry)
  · rw [hframe] at houtstanding
    exact Or.inr (Or.inr (Or.inl houtstanding))
  · exact Or.inr (Or.inr (Or.inr ⟨packet, List.mem_of_mem_erase hpacket, hshows⟩))

/-- **One event.**  What is open after it was open before. -/
theorem StillOpen.of_next {start : ParamNetwork Token} {asked : List (Interest × ℕ)}
    (hknown : Known crypto start asked x) {e : Event Token} (he : Trusted x e)
    (h : StillOpen other (next keyGen crypto mem paramsDigest x e)) : StillOpen other x := by
  have hwaiting : ∀ interest, interest ∈ x.fetcher.outstanding → StillOpen other x := by
    intro interest hmem
    exact Or.inr (Or.inr (Or.inl (List.ne_nil_of_mem hmem)))
  cases e with
  | authority e =>
    exact h.of_sameKeys (AttributeAuthority.next_outcome keyGen crypto x.authority e).sameKeys
  | call =>
    rw [next, ParamFetcher.next, ParamFetcher.handle_call] at h
    obtain ⟨-, hrefused⟩ | ⟨hretry, -⟩ := ParamFetcher.fetched_cases paramsDigest x.fetcher
    · rw [hrefused] at h
      exact h
    · exact Or.inr (Or.inl hretry)
  | deliver interest data digest =>
    by_cases hanswers : interest ∈ x.fetcher.outstanding ∧ interest.matchesData data digest = true
    · exact hwaiting interest hanswers.1
    · rw [next, if_neg hanswers] at h
      exact h
  | validated data validationError =>
    by_cases hmem : data ∈ x.validating
    · rw [next, if_pos hmem, ParamFetcher.next, ParamFetcher.handle_validation] at h
      exact h.of_received hknown hmem he
    · rw [next, if_neg hmem] at h
      exact h
  | nackOrTimeout interest =>
    by_cases hmem : interest ∈ x.fetcher.outstanding
    · exact hwaiting interest hmem
    · have hdisabled : (ParamFetcher.Event.nackOrTimeout interest).enabled x.fetcher = false :=
        decide_eq_false hmem
      rw [next, ParamFetcher.next, ParamFetcher.handle_of_not_enabled mem paramsDigest hdisabled]
        at h
      exact h

/-! ## Hope is well founded -/

/-- The fetcher asks with a template that takes longer names and carries no parameters. -/
structure AsksPlainly (x : ParamNetwork Token) : Prop where
  canBePrefix : x.fetcher.m_interestTemplate.canBePrefix = true
  noParameters : x.fetcher.m_interestTemplate.applicationParameters = none
  digests : x.fetcher.requestName.countP isParametersSha256Digest ≤ 1
  outstanding : ∀ interest ∈ x.fetcher.outstanding, interest = plainRequest x.fetcher

variable (keyGen crypto mem paramsDigest) in
/-- Every event of the network is one of the fetcher or does not concern it. -/
theorem fetcher_next (x : ParamNetwork Token) (e : Event Token) :
    (next keyGen crypto mem paramsDigest x e).fetcher = x.fetcher ∨
      ∃ e', (next keyGen crypto mem paramsDigest x e).fetcher =
        x.fetcher.next mem paramsDigest e' := by
  cases e with
  | authority e => exact Or.inl rfl
  | call => exact Or.inr ⟨_, rfl⟩
  | deliver interest data digest =>
    rw [next]
    split
    · exact Or.inr ⟨_, rfl⟩
    · exact Or.inl rfl
  | validated data validationError =>
    rw [next]
    split
    · exact Or.inr ⟨_, rfl⟩
    · exact Or.inl rfl
  | nackOrTimeout interest => exact Or.inr ⟨_, rfl⟩

variable (keyGen crypto mem paramsDigest) in
/-- Whatever happens, it goes on asking like that. -/
theorem AsksPlainly.next (h : AsksPlainly x) (e : Event Token) :
    AsksPlainly (next keyGen crypto mem paramsDigest x e) := by
  rcases fetcher_next keyGen crypto mem paramsDigest x e with hsame | ⟨e', hnext⟩
  · exact ⟨hsame ▸ h.canBePrefix, hsame ▸ h.noParameters, hsame ▸ h.digests,
      hsame ▸ h.outstanding⟩
  · obtain ⟨hfront, htemplate⟩ := ParamFetcher.next_constants mem paramsDigest x.fetcher e'
    have hname : (x.fetcher.next mem paramsDigest e').requestName = x.fetcher.requestName := by
      rw [ParamFetcher.requestName, hfront, ParamFetcher.requestName]
    constructor
    · rw [hnext, htemplate]
      exact h.canBePrefix
    · rw [hnext, htemplate]
      exact h.noParameters
    · rw [hnext, hname]
      exact h.digests
    · rw [hnext]
      intro interest hmem
      have hrequest : plainRequest (x.fetcher.next mem paramsDigest e') =
          plainRequest x.fetcher := by
        rw [plainRequest, htemplate, hname, plainRequest]
      rw [hrequest]
      rcases ParamFetcher.outstanding_of_next hmem with hold | hnamed
      · exact h.outstanding interest hold
      · rw [setName_plain h.noParameters h.digests] at hnamed
        exact (Except.ok.inj hnamed).symm

variable (keyGen crypto mem paramsDigest) in
/-- The run can be continued to a state in which the type has been taken. -/
def CanTake (other : AbeType) (x : ParamNetwork Token) : Prop :=
  Runs.CanReach Trusted (Took other) (next keyGen crypto mem paramsDigest) x

/-- The authority is asked for the packet that the validator has, and it is accepted. -/
theorem canTake_of_shown
    (hfront : x.fetcher.m_attrAuthorityPrefix = x.authority.m_cert.getIdentity)
    (hpub : (0 : UInt8) ∉ x.authority.m_pubParams.m_pub) (hother : ParamFetcher.Supported other)
    {data : Data} (hmem : data ∈ x.validating) (hshows : AnswerShows x.authority other data) :
    CanTake keyGen crypto mem paramsDigest other x := by
  obtain ⟨interest, now, hunder, rfl, hshown⟩ := hshows
  apply Runs.CanReach.of_step (e := .authority (.publicParamsRequest interest now)) hunder
  have hsent : x.authority.publicParamsData interest now ∈ AttributeAuthority.sent
      (x.authority.log ++ [.put (x.authority.publicParamsData interest now)]) := by
    rw [AttributeAuthority.sent_append]
    exact List.mem_append_right _ List.mem_cons_self
  apply Runs.CanReach.of_step
    (e := .validated (x.authority.publicParamsData interest now) none) hsent
  apply Runs.CanReach.now
  have hreceived := received_publicParamsData mem hfront hpub hunder hother hshown now
  generalize hanswer : x.authority.publicParamsData interest now = answer at hmem hreceived
  unfold Took
  dsimp only [next]
  rw [if_pos hmem, ParamFetcher.next, ParamFetcher.handle_validation, hreceived]
  exact ⟨rfl, rfl⟩

/-- An Interest that is outstanding is answered as somebody else has asked for. -/
theorem canTake_of_outstanding (hplain : AsksPlainly x)
    (hfront : x.fetcher.m_attrAuthorityPrefix = x.authority.m_cert.getIdentity)
    (hpub : (0 : UInt8) ∉ x.authority.m_pubParams.m_pub) (hother : ParamFetcher.Supported other)
    (houtstanding : x.fetcher.outstanding ≠ []) :
    CanTake keyGen crypto mem paramsDigest other x := by
  obtain ⟨interest, hmem⟩ := List.exists_mem_of_ne_nil _ houtstanding
  rw [hplain.outstanding interest hmem] at hmem
  let answer := x.authority.publicParamsData (forgedRequest x.authority other) 0
  have hnext : next keyGen crypto mem paramsDigest x (.deliver (plainRequest x.fetcher) answer []) =
      { x with
        fetcher := x.fetcher.arrived (plainRequest x.fetcher)
        validating := answer :: x.validating } :=
    next_deliver_matching hmem (matches_forged hfront hplain.canBePrefix other 0 [])
  apply Runs.CanReach.of_step (e := .deliver (plainRequest x.fetcher) answer []) trivial
  rw [hnext]
  have hshows : AnswerShows x.authority other answer :=
    ⟨forgedRequest x.authority other, 0, List.prefix_append _ _, rfl, typeShown_forged _ _⟩
  exact canTake_of_shown (x := ⟨x.authority, _, _⟩) hfront hpub hother List.mem_cons_self hshows

/-- A fetcher that may ask does. -/
theorem canTake_of_retry (hplain : AsksPlainly x)
    (hfront : x.fetcher.m_attrAuthorityPrefix = x.authority.m_cert.getIdentity)
    (hpub : (0 : UInt8) ∉ x.authority.m_pubParams.m_pub) (hother : ParamFetcher.Supported other)
    (hretry : x.fetcher.m_retryCount < maxRetries) :
    CanTake keyGen crypto mem paramsDigest other x := by
  apply Runs.CanReach.of_step (e := .call) trivial
  have hcalled := hplain.next keyGen crypto mem paramsDigest .call
  rw [next_call_plain hplain.noParameters hplain.digests hretry] at hcalled ⊢
  exact canTake_of_outstanding hcalled hfront hpub hother (List.cons_ne_nil _ _)

/-! ## What a trusted run keeps -/

variable (crypto) in
/-- The network is known, and its fetcher asks plainly. -/
structure Plain (start x : ParamNetwork Token) : Prop where
  known : ∃ asked, Known crypto start asked x
  asks : AsksPlainly x

variable {start : ParamNetwork Token}

/-- The authority keeps its parameters. -/
theorem Plain.pubParams_eq (h : Plain crypto start x) :
    x.authority.m_pubParams = start.authority.m_pubParams := by
  obtain ⟨asked, hknown⟩ := h.known
  exact hknown.same.pubParams_eq

/-- **One event.** -/
theorem Plain.next (h : Plain crypto start x)
    (hpub : (0 : UInt8) ∉ start.authority.m_pubParams.m_pub) {e : Event Token} (he : Trusted x e) :
    Plain crypto start (next keyGen crypto mem paramsDigest x e) := by
  obtain ⟨asked, hknown⟩ := h.known
  exact ⟨⟨_, hknown.next hpub he⟩, h.asks.next keyGen crypto mem paramsDigest e⟩

/-- A fetcher with a plain template that has not asked yet. -/
theorem plain_initial (crypto : Crypto) (identityCert : Certificate) (abeType : AbeType)
    (maxSegmentSize : ℕ) (keys : PublicParams × MasterKey) (interestTemplate : Interest)
    (hcan : interestTemplate.canBePrefix = true)
    (hplain : interestTemplate.applicationParameters = none)
    (hdigests : identityCert.getIdentity.countP isParametersSha256Digest ≤ 1) :
    Plain crypto (initial identityCert abeType maxSegmentSize keys interestTemplate)
      (initial identityCert abeType maxSegmentSize keys interestTemplate :
        ParamNetwork Token) := by
  have hmarker : ∀ c ∈ [publicParamsComponent], isParametersSha256Digest c = false := by decide
  refine ⟨⟨[], known_initial crypto identityCert abeType maxSegmentSize keys interestTemplate⟩, ?_⟩
  exact ⟨hcan, hplain, (Name.requestable_append hmarker).mpr hdigests, List.forall_mem_nil _⟩

/-- **Every trusted run.** -/
theorem plain_run (hstart : Plain crypto start start)
    (hpub : (0 : UInt8) ∉ start.authority.m_pubParams.m_pub) {events : List (Event Token)}
    (htrusted : TrustedRun keyGen crypto mem paramsDigest start events) :
    Plain crypto start (run keyGen crypto mem paramsDigest start events) :=
  Runs.invariant _ start (fun _ x => Plain crypto start x) hstart
    (fun _ _ _ he ih => ih.next hpub he) events htrusted

/-- The type can be taken while something is open. -/
theorem canTake_iff_stillOpen (h : Plain crypto start x)
    (hpub : (0 : UInt8) ∉ start.authority.m_pubParams.m_pub)
    (hother : ParamFetcher.Supported other) :
    CanTake keyGen crypto mem paramsDigest other x ↔ StillOpen other x := by
  refine Runs.canReach_iff (Plain crypto start) (StillOpen other)
    (fun _ _ h he => h.next hpub he) ?_ (fun x => Or.inl) ?_ h
  · rintro x e ⟨⟨asked, hknown⟩, -⟩ he hopen
    exact hopen.of_next hknown he
  · intro x hx hopen
    obtain ⟨asked, hknown⟩ := hx.known
    have hnul : (0 : UInt8) ∉ x.authority.m_pubParams.m_pub := by
      rw [hx.pubParams_eq]
      exact hpub
    rcases hopen with htook | hretry | houtstanding | ⟨data, hmem, hshows⟩
    · exact Runs.CanReach.now htook
    · exact canTake_of_retry hx.asks hknown.fetcherPrefix hnul hother hretry
    · exact canTake_of_outstanding hx.asks hknown.fetcherPrefix hnul hother houtstanding
    · exact canTake_of_shown hknown.fetcherPrefix hnul hother hmem hshows

end NacAbe.ParamNetwork

namespace NacAbe.Analysis

open ParamNetwork

variable {Token : Type}

/-- **The parameters can still be obtained, or never again.**  After every run in which the
fetcher asks with a plain template, the run can be continued to one in which it holds the
authority's parameters and a type of one's choice if and only if it holds them, may still ask,
waits for an answer, or has one that shows this type with its validator.  For the type of the
authority these are the states that the fetcher recovers from; for another one those in which it
can be misled. -/
theorem params_areObtainable_iff (keyGen : KeyGen Token) (crypto : Crypto) (mem : Memory)
    (paramsDigest : Bytes → Bytes) (identityCert : Certificate) (abeType : AbeType)
    (maxSegmentSize : ℕ) (keys : PublicParams × MasterKey) (hpub : (0 : UInt8) ∉ keys.1.m_pub)
    (interestTemplate : Interest) (hcan : interestTemplate.canBePrefix = true)
    (hplain : interestTemplate.applicationParameters = none)
    (hdigests : identityCert.getIdentity.countP isParametersSha256Digest ≤ 1)
    (events : List (Event Token))
    (htrusted : TrustedRun keyGen crypto mem paramsDigest
      (initial identityCert abeType maxSegmentSize keys interestTemplate) events)
    (other : AbeType) (hother : ParamFetcher.Supported other) :
    (∃ later, TrustedRun keyGen crypto mem paramsDigest
        (initial identityCert abeType maxSegmentSize keys interestTemplate) (events ++ later) ∧
      let x := run keyGen crypto mem paramsDigest
        (initial identityCert abeType maxSegmentSize keys interestTemplate) (events ++ later)
      x.fetcher.m_abeType = other ∧ x.fetcher.m_pubParamsCache = keys.1) ↔
    let x := run keyGen crypto mem paramsDigest
      (initial identityCert abeType maxSegmentSize keys interestTemplate) events
    (x.fetcher.m_abeType = other ∧ x.fetcher.m_pubParamsCache = keys.1) ∨
      x.fetcher.m_retryCount < maxRetries ∨ x.fetcher.outstanding ≠ [] ∨
        ∃ data ∈ x.validating, AnswerShows x.authority other data := by
  let start : ParamNetwork Token := initial identityCert abeType maxSegmentSize keys
    interestTemplate
  have hstart : Plain crypto start start :=
    plain_initial crypto identityCert abeType maxSegmentSize keys interestTemplate hcan hplain
      hdigests
  have htook : ∀ events, TrustedRun keyGen crypto mem paramsDigest start events →
      (Took other (run keyGen crypto mem paramsDigest start events) ↔
        (run keyGen crypto mem paramsDigest start events).fetcher.m_abeType = other ∧
          (run keyGen crypto mem paramsDigest start events).fetcher.m_pubParamsCache = keys.1) := by
    intro events htrusted
    have hparams : (run keyGen crypto mem paramsDigest start events).authority.m_pubParams =
        keys.1 := (plain_run hstart hpub htrusted).pubParams_eq
    rw [Took, hparams]
  have hiff : CanTake keyGen crypto mem paramsDigest other
      (run keyGen crypto mem paramsDigest start events) ↔
        StillOpen other (run keyGen crypto mem paramsDigest start events) :=
    canTake_iff_stillOpen (plain_run hstart hpub htrusted) hpub hother
  rw [CanTake, run, Runs.canReach_after htrusted] at hiff
  rw [← or_congr_left (htook events htrusted)]
  refine Iff.trans (exists_congr fun later => and_congr_right fun hlater => ?_) hiff
  exact (htook _ hlater).symm

/-- A call for the authority `/a`, and ten Interests that are lost. -/
def lostFetch : List (Event (List Bytes)) :=
  .call :: List.replicate 10 (.nackOrTimeout (plainRequest plainNetwork.fetcher))

theorem trusted_lostFetch : TrustedRun (CpAttributeAuthority.keyGen mockAbe) mockCrypto
    Consumer.mockPlatform.mem paddedDigest plainNetwork lostFetch := by
  intro before e later heq
  have hmem : e ∈ lostFetch := by
    rw [heq]
    exact List.mem_append_right _ List.mem_cons_self
  rcases List.mem_cons.mp hmem with rfl | hlost
  · trivial
  · obtain rfl := List.eq_of_mem_replicate hlost
    trivial

/-- Its fetcher never gets the parameters. -/
theorem params_areObtainable_iff_lost :
    ¬ ∃ later, TrustedRun (CpAttributeAuthority.keyGen mockAbe) mockCrypto
        Consumer.mockPlatform.mem paddedDigest plainNetwork (lostFetch ++ later) ∧
      let x := run (CpAttributeAuthority.keyGen mockAbe) mockCrypto Consumer.mockPlatform.mem
        paddedDigest plainNetwork (lostFetch ++ later)
      x.fetcher.m_abeType = abeTypeCpAbe ∧ x.fetcher.m_pubParamsCache = ⟨[1]⟩ := by
  have hiff := params_areObtainable_iff (CpAttributeAuthority.keyGen mockAbe) mockCrypto
    Consumer.mockPlatform.mem paddedDigest (.sample (ascii "a") [8]) abeTypeCpAbe 1500
    (⟨[1]⟩, ⟨[2]⟩) (by decide) ParamFetcher.defaultInterestTemplate rfl rfl (by decide) lostFetch
    trusted_lostFetch abeTypeCpAbe (Or.inl rfl)
  refine mt hiff.mp ?_
  rintro (⟨htype, -⟩ | hretry | houtstanding | ⟨data, hdata, -⟩)
  · exact absurd htype (by decide)
  · exact absurd hretry (by decide)
  · exact absurd rfl houtstanding
  · cases hdata

end NacAbe.Analysis
