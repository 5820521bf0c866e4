import NacAbe.Interface.KeyObjects

/-!
# Whose key is encrypted to whom

Four things name an identity when an authority makes a key object: the request, the
key under which the local store has a certificate, the name of the certificate itself
and the entry of `m_tokens`.  `generateDecryptionKeySegments` asks the certificate for
the identity and for the public key, so these two always agree (`Isolated`); the
request and the store agree with them because the store is keyed by the certificate's
own key name (`LocalStore`).  Both hold over all runs, and the requests and the
certificate packets of a run are whatever the outside makes them.
-/

set_option autoImplicit false

namespace NacAbe.Analysis

open NacAbe AttributeAuthority

variable {Token : Type}

/-- Where a certificate may come from: an `addNewPolicy`, or a packet that the validator
accepted and whose name extends a key name that the authority has asked for. -/
def KnownCertificate (events : List (Event Token)) (aa : AttributeAuthority Token)
    (cert : Certificate) : Prop :=
  (∃ token, .addNewPolicyCert cert token ∈ events) ∨
  ∃ keyName digest keyPacket requestRead now seed,
    .certificateData keyName cert.data digest keyPacket true requestRead now seed ∈ events ∧
    .expressInterest keyName ∈ aa.log ∧ keyName <+: cert.data.fullName digest

/-- The key in `g` was generated for the identity of the certificate it is encrypted to,
from the token that identity has. -/
structure Isolated (keyGen : KeyGen Token) (events : List (Event Token))
    (aa : AttributeAuthority Token) (g : Generation) : Prop where
  generatedFor : ∃ token, .keygen g.cert.getIdentity token g.prvKey ∈ aa.log ∧
    aa.KeyFor keyGen g.cert.getIdentity token g.prvKey
  known : KnownCertificate events aa g.cert

/-- The local store finds a certificate under its own key name only, and only for
identities that have a token. -/
structure LocalStore (events : List (Event Token)) (aa : AttributeAuthority Token)
    (keyName : Name) (cert : Certificate) : Prop where
  keyName_eq : cert.getKeyName = keyName
  identity_eq : extractIdentityFromKeyName keyName = .ok cert.getIdentity
  hasToken : (aa.m_tokens.find cert.getIdentity).isSome
  added : ∃ token, .addNewPolicyCert cert token ∈ events

/-- The invariant of a run. -/
structure KeyIsolation (keyGen : KeyGen Token) (events : List (Event Token))
    (aa : AttributeAuthority Token) : Prop where
  isolated : ∀ g ∈ generations aa.log, Isolated keyGen events aa g
  localStore : ∀ keyName cert,
    aa.m_trustConfig.findCertificateFromLocal keyName = some cert →
    LocalStore events aa keyName cert
  asked : ∀ keyName ∈ aa.fetches, .expressInterest keyName ∈ aa.log

variable {keyGen : KeyGen Token} {crypto : Crypto} {aa aa' : AttributeAuthority Token}
  {events : List (Event Token)} {e : Event Token}

/-! ## What later events leave in place -/

/-- Nothing is taken out of the log. -/
theorem log_subset_of_outcome (h : Outcome keyGen crypto aa e aa') : aa.log ⊆ aa'.log := by
  cases h with
  | addedPolicy => exact List.Subset.refl _
  | addedPolicyCert => exact List.Subset.refl _
  | ignored => exact List.Subset.refl _
  | generated =>
    simp only [record, store, List.append_assoc]
    exact List.subset_append_left _ _
  | _ => exact List.subset_append_left _ _

/-- A token that is there stays. -/
theorem token_of_outcome (h : Outcome keyGen crypto aa e aa') {identityName : Name} {token : Token}
    (ht : aa.m_tokens.find identityName = some token) :
    aa'.m_tokens.find identityName = some token := by
  cases h with
  | addedPolicy => exact PartialMap.find_insert_of_some ht _ _
  | addedPolicyCert => exact PartialMap.find_insert_of_some ht _ _
  | _ => exact ht

/-- A known certificate stays known. -/
theorem KnownCertificate.later {cert : Certificate} (h : KnownCertificate events aa cert)
    (ho : Outcome keyGen crypto aa e aa') : KnownCertificate (events ++ [e]) aa' cert := by
  rcases h with ⟨token, hadd⟩ |
    ⟨keyName, digest, keyPacket, requestRead, now, seed, hdata, hasked, hpre⟩
  · exact Or.inl ⟨token, List.mem_append_left _ hadd⟩
  · exact Or.inr ⟨keyName, digest, keyPacket, requestRead, now, seed,
      List.mem_append_left _ hdata, log_subset_of_outcome ho hasked, hpre⟩

/-- An isolated generation stays isolated: the log only grows, and a token is never replaced. -/
theorem Isolated.later {g : Generation} (h : Isolated keyGen events aa g)
    (ho : Outcome keyGen crypto aa e aa') : Isolated keyGen (events ++ [e]) aa' g := by
  obtain ⟨token, hlog, hfor⟩ := h.generatedFor
  obtain ⟨seed, hkey⟩ := hfor.key_eq
  have hsame := ho.sameKeys
  refine ⟨⟨token, log_subset_of_outcome ho hlog, token_of_outcome ho hfor.token_eq, seed, ?_⟩,
    h.known.later ho⟩
  rw [hsame.pubParams_eq, hsame.masterKey_eq]
  exact hkey

/-- What holds of the local store stays true while its authority goes on. -/
theorem LocalStore.later {keyName : Name} {cert : Certificate}
    (h : LocalStore events aa keyName cert) (ho : Outcome keyGen crypto aa e aa') :
    LocalStore (events ++ [e]) aa' keyName cert := by
  obtain ⟨token, hadd⟩ := h.added
  obtain ⟨token', ht⟩ := Option.isSome_iff_exists.mp h.hasToken
  exact ⟨h.keyName_eq, h.identity_eq, by rw [token_of_outcome ho ht]; rfl, token,
    List.mem_append_left _ hadd⟩

/-! ## The step -/

/-- A certificate that an event supplies is known after it. -/
theorem known_of_supplies {cert : Certificate} (h : KeyIsolation keyGen events aa)
    (hs : e.Supplies aa cert) (ho : Outcome keyGen crypto aa e aa') :
    KnownCertificate (events ++ [e]) aa' cert := by
  cases e with
  | decryptionKeyRequest request now seed =>
    obtain ⟨keyName, -, hlocal⟩ := hs
    exact Or.inl ((h.localStore keyName cert hlocal).later ho).added
  | certificateData keyName data digest keyPacket accepted requestRead now seed =>
    obtain ⟨rfl, rfl, hwait, hpre⟩ := hs
    exact Or.inr ⟨keyName, digest, keyPacket, requestRead, now, seed, by simp,
      log_subset_of_outcome ho (h.asked keyName hwait), hpre⟩
  | _ => exact hs.elim

/-- A generation is an old one, or it was made for the certificate of the reply. -/
theorem isolated_step (h : KeyIsolation keyGen events aa) (ho : Outcome keyGen crypto aa e aa')
    {g : Generation} (hg : g ∈ generations aa'.log) : Isolated keyGen (events ++ [e]) aa' g := by
  have hold : g ∈ generations aa.log → Isolated keyGen (events ++ [e]) aa' g :=
    fun hmem => (h.isolated g hmem).later ho
  cases ho with
  | generated fetches hf token g' data hk hsealed he hc hd =>
    have ho := Outcome.generated fetches hf token g' data hk hsealed he hc hd
    simp only [record, store, generations_append, List.mem_append] at hg
    rcases hg with (hmem | hnew) | hput
    · exact hold hmem
    · obtain rfl : g = g' := by simpa [generations] using hnew
      exact ⟨⟨token, by simp [record, store], hk.token_eq, hk.key_eq⟩, known_of_supplies h hc ho⟩
    · simp [generations] at hput
  | served N segments ds hN hs =>
    simp only [record, generations_append, generations_puts, List.append_nil] at hg
    exact hold hg
  | _ =>
    simp only [record, generations_append, List.mem_append] at hg
    simp only [generations, List.filterMap_cons, List.filterMap_nil, List.not_mem_nil,
      or_false] at hg
    exact hold hg

/-- A certificate that is found is an old one, or `addNewPolicy` has put it there. -/
theorem localStore_step (h : KeyIsolation keyGen events aa) (ho : Outcome keyGen crypto aa e aa')
    {keyName : Name} {cert : Certificate}
    (hc : aa'.m_trustConfig.findCertificateFromLocal keyName = some cert) :
    LocalStore (events ++ [e]) aa' keyName cert := by
  have hold : aa.m_trustConfig.findCertificateFromLocal keyName = some cert →
      LocalStore (events ++ [e]) aa' keyName cert :=
    fun hfind => (h.localStore keyName cert hfind).later ho
  cases ho with
  | addedPolicyCert cert' token he =>
    rw [TrustConfig.findCertificateFromLocal_addOrUpdate] at hc
    split at hc
    · next hname =>
      obtain rfl := Option.some.inj hc
      exact ⟨hname.symm, hname ▸ cert'.extractIdentity_getKeyName, by simp, token, by simp [he]⟩
    · exact hold hc
  | _ => exact hold hc

/-- A fetch that is pending has been asked for. -/
theorem asked_step (h : KeyIsolation keyGen events aa) (ho : Outcome keyGen crypto aa e aa')
    {keyName : Name} (hk : keyName ∈ aa'.fetches) : .expressInterest keyName ∈ aa'.log := by
  have hold : keyName ∈ aa.fetches → .expressInterest keyName ∈ aa'.log :=
    fun hmem => log_subset_of_outcome ho (h.asked keyName hmem)
  cases ho with
  | requested keyName' hvalid =>
    rcases List.mem_cons.mp hk with rfl | hmem
    · simp
    · exact hold hmem
  | ignored fetches hf => exact hold (hf hk)
  | failed fetches hf => exact hold (hf hk)
  | generated fetches hf => exact hold (hf hk)
  | _ => exact hold hk

/-- Every run keeps the keys apart. -/
theorem run_keyIsolation (keyGen : KeyGen Token) (crypto : Crypto) (identityCert : Certificate)
    (abeType : AbeType) (maxSegmentSize : ℕ) (keys : PublicParams × MasterKey)
    (events : List (Event Token)) : KeyIsolation keyGen events
      (run keyGen crypto (initial identityCert abeType maxSegmentSize keys) events) := by
  refine Runs.invariant (next keyGen crypto) _ (fun events aa => KeyIsolation keyGen events aa)
    ?_ ?_ events (Runs.permitted_true events)
  · exact ⟨fun g hg => by simp [initial, generations] at hg,
      fun keyName cert hc => by simp [initial, TrustConfig.initial,
        TrustConfig.findCertificateFromLocal] at hc,
      fun keyName hk => by simp [initial] at hk⟩
  · intro events e _ _ ih
    have ho := next_outcome keyGen crypto
      (Runs.after (next keyGen crypto) (initial identityCert abeType maxSegmentSize keys) events) e
    exact ⟨fun g hg => isolated_step ih ho hg, fun k c hc => localStore_step ih ho hc,
      fun k hk => asked_step ih ho hk⟩

/-! ## The result -/

/-- **No key of one identity is encrypted to another.**  Every stored object and every
packet sent, replies with the public parameters apart, is the encryption of a private
key generated for an identity that has a token, to a known certificate of that same
identity.  A key generated at once for a request is encrypted to the certificate whose
key name the request carries, which has a token. -/
theorem keys_isolated (keyGen : KeyGen Token) (crypto : Crypto) (identityCert : Certificate)
    (abeType : AbeType) (maxSegmentSize : ℕ) (keys : PublicParams × MasterKey)
    (events : List (Event Token)) :
    let aa := run keyGen crypto (initial identityCert abeType maxSegmentSize keys) events
    (∀ N segments, aa.m_segmentMap.find N = some segments →
      ∃ g : Generation, g.objName = N ∧ g.dkSegments = segments ∧
        g.Sealed crypto maxSegmentSize ∧ Isolated keyGen events aa g) ∧
    (∀ data ∈ sent aa.log, (∃ interest now, data = aa.publicParamsData interest now) ∨
      ∃ g : Generation, data ∈ g.dkSegments ∧
        g.Sealed crypto maxSegmentSize ∧ Isolated keyGen events aa g) ∧
    (∀ keyName cert, aa.m_trustConfig.findCertificateFromLocal keyName = some cert →
      LocalStore events aa keyName cert) ∧
    ∀ request now seed g,
      .generated g ∈ newEffects keyGen crypto aa (.decryptionKeyRequest request now seed) →
      ∃ keyName, aa.supposedKeyName request.name = .ok keyName ∧
        LocalStore events aa keyName g.cert := by
  intro aa
  have hobj : KeyObjects crypto aa :=
    run_keyObjects keyGen crypto identityCert abeType maxSegmentSize keys events
  have hiso : KeyIsolation keyGen events aa :=
    run_keyIsolation keyGen crypto identityCert abeType maxSegmentSize keys events
  have hmax : aa.m_maxSegmentSize = maxSegmentSize :=
    (run_sameKeys keyGen crypto _ events).maxSegmentSize_eq
  have hsealed : ∀ g ∈ generations aa.log, g.Sealed crypto maxSegmentSize :=
    fun g hg => hmax ▸ hobj.isSealed g hg
  refine ⟨?_, ?_, hiso.localStore, ?_⟩
  · intro N segments hN
    obtain ⟨g, hg, hname, hseg⟩ := hobj.stored N segments hN
    exact ⟨g, hname, hseg, hsealed g hg, hiso.isolated g hg⟩
  · intro data hd
    rcases hobj.put data hd with ⟨g, hg, hm⟩ | hpub
    · exact Or.inr ⟨g, hm, hsealed g hg, hiso.isolated g hg⟩
    · exact Or.inl hpub
  · intro request now seed g hg
    obtain ⟨keyName, hname, hlocal⟩ := (generated_inv hg).2.1
    exact ⟨keyName, hname, hiso.localStore keyName g.cert hlocal⟩

end NacAbe.Analysis
