import NacAbe.Interface.KeyObjects
import NacAbe.Interface.ParamExchange

/-!
# An authority, a fetcher and the network between them

The authority handles whatever reaches it and the network keeps what it sends.  An Interest
of the fetcher may be answered by any packet that matches it, and the packet waits for the
validator, which accepts what the authority has sent and nothing else (`Trusted`).  The
filters of the authority's face decide which handler an Interest reaches.
-/

set_option autoImplicit false

namespace NacAbe

structure ParamNetwork (Token : Type) where
  authority : AttributeAuthority Token
  fetcher : ParamFetcher
  /-- The packets that have arrived and are with the validator. -/
  validating : List Data

namespace AttributeAuthority

variable {Token : Type}

/-- `/<aa>/PUBPARAMS` and `/<aa>/DKEY`, the two filters of attribute-authority.cpp:58-60,
167-169 and 215-217. -/
def paramsPrefix (aa : AttributeAuthority Token) : Name :=
  aa.m_cert.getIdentity ++ [publicParamsComponent]

def keyPrefix (aa : AttributeAuthority Token) : Name :=
  aa.m_cert.getIdentity ++ [decryptKeyComponent]

/-- The face hands an Interest to the handler of its filter, and the request that a
certificate was fetched for is read as one. -/
def Dispatched (aa : AttributeAuthority Token) : Event Token → Prop
  | .decryptionKeyRequest request _ _ => aa.keyPrefix <+: request.name
  | .certificateData _ _ _ _ _ requestRead _ _ => aa.keyPrefix <+: requestRead
  | .publicParamsRequest interest _ => aa.paramsPrefix <+: interest.name
  | _ => True

end AttributeAuthority

namespace ParamNetwork

variable {Token : Type}

inductive Event (Token : Type)
  | authority (e : AttributeAuthority.Event Token)
  | call
  /-- A packet answers an Interest. -/
  | deliver (interest : Interest) (data : Data) (digest : Bytes)
  | validated (data : Data) (validationError : Option String)
  | nackOrTimeout (interest : Interest)

/-- Before anything has happened. -/
def initial (identityCert : Certificate) (abeType : AbeType) (maxSegmentSize : ℕ)
    (keys : PublicParams × MasterKey) (interestTemplate : Interest) : ParamNetwork Token where
  authority := .initial identityCert abeType maxSegmentSize keys
  fetcher := .initial identityCert.getIdentity interestTemplate
  validating := []

variable (keyGen : KeyGen Token) (crypto : Crypto) (mem : Memory) (paramsDigest : Bytes → Bytes)

/-- The state an event leaves.  A packet that answers nothing is dropped. -/
def next (x : ParamNetwork Token) : Event Token → ParamNetwork Token
  | .authority e => { x with authority := x.authority.next keyGen crypto e }
  | .call => { x with fetcher := x.fetcher.next mem paramsDigest .call }
  | .deliver interest data digest =>
    if interest ∈ x.fetcher.outstanding ∧ interest.matchesData data digest then
      { x with
        fetcher := x.fetcher.next mem paramsDigest (.arrival interest)
        validating := data :: x.validating }
    else x
  | .validated data validationError =>
    if data ∈ x.validating then
      { x with
        fetcher := x.fetcher.next mem paramsDigest (.validation data validationError)
        validating := x.validating.erase data }
    else x
  | .nackOrTimeout interest =>
    { x with fetcher := x.fetcher.next mem paramsDigest (.nackOrTimeout interest) }

def run (x : ParamNetwork Token) (events : List (Event Token)) : ParamNetwork Token :=
  Runs.after (next keyGen crypto mem paramsDigest) x events

/-- What is asked of the face of the authority and of the validator. -/
def Trusted (x : ParamNetwork Token) : Event Token → Prop
  | .authority e => x.authority.Dispatched e
  | .validated data none => data ∈ AttributeAuthority.sent x.authority.log
  | _ => True

/-- The Interests for public parameters that the authority has handled, with the time of
each. -/
def requests (events : List (Event Token)) : List (Interest × ℕ) :=
  events.filterMap fun
    | .authority (.publicParamsRequest interest now) => some (interest, now)
    | _ => none

@[simp] theorem requests_append (events later : List (Event Token)) :
    requests (events ++ later) = requests events ++ requests later := List.filterMap_append ..

end ParamNetwork

/-! ## What the authority sends -/

namespace AttributeAuthority

variable {Token : Type} {keyGen : KeyGen Token} {crypto : Crypto}
  {aa aa' : AttributeAuthority Token} {e : Event Token} {asked asked' : List (Interest × ℕ)}

/-- Every packet sent is a segment under `/<aa>/DKEY` or answers a request that came in. -/
structure Addressed (asked : List (Interest × ℕ)) (aa : AttributeAuthority Token) : Prop where
  generated : ∀ g ∈ generations aa.log, aa.keyPrefix <+: g.objName
  sent : ∀ data ∈ sent aa.log, aa.keyPrefix <+: data.name ∨
    ∃ request ∈ asked, aa.paramsPrefix <+: request.1.name ∧
      data = aa.publicParamsData request.1 request.2

/-- A segment has the name of its object in front. -/
theorem prefix_of_mem_dkSegments {maxSegmentSize : ℕ} {g : Generation} {front : Name}
    (hg : g.Sealed crypto maxSegmentSize) (hfront : front <+: g.objName) {data : Data}
    (hdata : data ∈ g.dkSegments) : front <+: data.name := by
  obtain ⟨i, hname⟩ := name_of_mem_segment hg.segments_eq hdata
  rw [hname]
  exact hfront.trans (List.prefix_append _ _)

/-- What an event adds to the log is addressed, and what was sent stays so. -/
theorem Addressed.of_log (h : Addressed asked aa) (hsame : SameKeys aa aa')
    (hasked : asked ⊆ asked') {new : List (AuthorityEffect Token)} (hlog : aa'.log = aa.log ++ new)
    (hgenerated : ∀ g ∈ generations new, aa.keyPrefix <+: g.objName)
    (hsent : ∀ data ∈ AttributeAuthority.sent new, aa.keyPrefix <+: data.name ∨
      ∃ request ∈ asked', aa.paramsPrefix <+: request.1.name ∧
        data = aa.publicParamsData request.1 request.2) : Addressed asked' aa' := by
  have hkey : aa'.keyPrefix = aa.keyPrefix := by rw [keyPrefix, hsame.cert_eq, keyPrefix]
  have hparams : aa'.paramsPrefix = aa.paramsPrefix := by
    rw [paramsPrefix, hsame.cert_eq, paramsPrefix]
  have hdata : aa'.publicParamsData = aa.publicParamsData := by
    funext interest now
    rw [publicParamsData, hsame.abeType_eq, hsame.pubParams_eq, publicParamsData]
  constructor
  · rw [hkey, hlog, generations_append]
    intro g hg
    rcases List.mem_append.mp hg with hold | hnew
    · exact h.generated g hold
    · exact hgenerated g hnew
  · rw [hkey, hparams, hdata, hlog, sent_append]
    intro data hd
    rcases List.mem_append.mp hd with hold | hnew
    · apply (h.sent data hold).imp_right
      rintro ⟨request, hrequest, hfront⟩
      exact ⟨request, hasked hrequest, hfront⟩
    · exact hsent data hnew

/-- **One event of the authority.** -/
theorem Addressed.next (h : Addressed asked aa) (hobjects : KeyObjects crypto aa)
    (hd : aa.Dispatched e) (hasked : asked ⊆ asked')
    (hnew : ∀ interest now, e = .publicParamsRequest interest now → (interest, now) ∈ asked') :
    Addressed asked' (aa.next keyGen crypto e) := by
  have hout := next_outcome keyGen crypto aa e
  generalize aa.next keyGen crypto e = aa' at hout ⊢
  have hsame := hout.sameKeys
  have hquiet : ∀ new : List (AuthorityEffect Token), aa'.log = aa.log ++ new →
      generations new = [] → AttributeAuthority.sent new = [] → Addressed asked' aa' := by
    intro new hlog hgen hput
    apply h.of_log hsame hasked hlog
    · rw [hgen]
      exact List.forall_mem_nil _
    · rw [hput]
      exact List.forall_mem_nil _
  cases hout with
  | addedPolicy => exact hquiet [] (List.append_nil _).symm rfl rfl
  | addedPolicyCert => exact hquiet [] (List.append_nil _).symm rfl rfl
  | ignored => exact hquiet [] (List.append_nil _).symm rfl rfl
  | requested keyName hk => exact hquiet [.expressInterest keyName] rfl rfl rfl
  | failed fetches hf identityName token prvKey hk =>
    exact hquiet [.keygen identityName token prvKey] rfl rfl rfl
  | replied interest now he =>
    subst he
    apply h.of_log hsame hasked rfl (List.forall_mem_nil _)
    intro data hdata
    obtain rfl : data = aa.publicParamsData interest now := List.mem_singleton.mp hdata
    exact Or.inr ⟨(interest, now), hnew interest now rfl, hd, rfl⟩
  | served N segments ds hN hs =>
    obtain ⟨g, hg, -, rfl⟩ := hobjects.stored N segments hN
    apply h.of_log hsame hasked rfl
    · rw [generations_puts]
      exact List.forall_mem_nil _
    · rw [sent_puts]
      intro data hdata
      exact Or.inl (prefix_of_mem_dkSegments (hobjects.isSealed g hg) (h.generated g hg) (hs hdata))
  | generated fetches hf token g data hk hg he hc hdata =>
    have hname : aa.keyPrefix <+: g.objName := by
      cases e with
      | decryptionKeyRequest request now seed =>
        rw [← Option.some.inj he]
        exact List.IsPrefix.trans hd (List.prefix_append _ _)
      | certificateData keyName data digest keyPacket accepted requestRead now seed =>
        rw [← Option.some.inj he]
        exact List.IsPrefix.trans hd (List.prefix_append _ _)
      | addNewPolicy => cases he
      | addNewPolicyCert => cases he
      | certificateFailure => cases he
      | publicParamsRequest => cases he
    apply h.of_log hsame hasked (List.append_assoc _ _ _)
    · intro g' hg'
      obtain rfl : g' = g := List.mem_singleton.mp hg'
      exact hname
    · intro d hd'
      obtain rfl : d = data := List.mem_singleton.mp hd'
      exact Or.inl (prefix_of_mem_dkSegments hg hname hdata)

end AttributeAuthority

end NacAbe
