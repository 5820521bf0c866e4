import NacAbe.Analysis.PolicyUpdates
import NacAbe.Interface.ConsumerReadiness
import NacAbe.Interface.SealedKeys

/-!
# A decryption key reaches its consumer

The request that `obtainDecryptionKey` sends carries the consumer's key name as a block
in a component, and the authority reads the key name back.  With the consumer's
certificate in the local store it answers with a private key sealed to that certificate,
under a version of its own choosing, and the consumer that gets the segments keeps
exactly the key that OpenABE returned (`keyDelivery_roundTrip`).
-/

set_option autoImplicit false

namespace NacAbe.Analysis

open NacAbe AttributeAuthority

variable {Token : Type} {keyGen : KeyGen Token} {crypto : Crypto}
  {aa aa' : AttributeAuthority Token} {e : Event Token} {cert : Certificate}

/-- A certificate of the same key, under the same key name. -/
def SameKey (cert cert' : Certificate) : Prop :=
  cert'.getKeyName = cert.getKeyName ∧ cert'.getPublicKey = cert.getPublicKey

/-- The certificate was registered with `addNewPolicy`, and those that were registered under
its key name after it are of the same key. -/
def Registered (cert : Certificate) (events : List (Event Token)) : Prop :=
  ∃ before token after, events = before ++ .addNewPolicyCert cert token :: after ∧
    ∀ cert' token', .addNewPolicyCert cert' token' ∈ after →
      cert'.getKeyName = cert.getKeyName → cert'.getPublicKey = cert.getPublicKey

/-- The key in `g` was made for the consumer `c`, by `getPrivateKey`, and a consumer with that
certificate that is handed the segments keeps it. -/
structure Delivers (keyGen : KeyGen Token) (p : Platform) (aa : AttributeAuthority Token)
    (c : Consumer) (interestName : Name) (g : Generation) : Prop where
  sameKey : SameKey c.m_cert g.cert
  returned : ∃ token, aa.KeyFor keyGen c.m_cert.getIdentity token g.prvKey
  kept : (0 : UInt8) ∉ g.prvKey.m_prv → ∀ d : Consumer, d.m_cert = c.m_cert →
    (Consumer.onKeyComplete p interestName (reassemble g.dkSegments)).exec d =
      (.ok (), { d with
        keyFetches := d.keyFetches.erase interestName
        m_keyCache := g.prvKey })

theorem SameKey.getIdentity_eq {cert' : Certificate} (h : SameKey cert cert') :
    cert'.getIdentity = cert.getIdentity := by
  have hidentity := cert'.extractIdentity_getKeyName
  rw [h.1, cert.extractIdentity_getKeyName] at hidentity
  exact (Except.ok.inj hidentity).symm

/-! ## The registered certificate -/

/-- The local store has a certificate of the key. -/
def HasKey (aa : AttributeAuthority Token) (cert : Certificate) : Prop :=
  ∃ cert', aa.m_trustConfig.findCertificateFromLocal cert.getKeyName = some cert' ∧
    SameKey cert cert'

/-- An authority keeps its token and certificate for the key, whatever it does. -/
theorem HasKey.step (h : HasKey aa cert) (ho : Outcome keyGen crypto aa e aa')
    (hlater : ∀ cert' token', e = .addNewPolicyCert cert' token' →
      cert'.getKeyName = cert.getKeyName → cert'.getPublicKey = cert.getPublicKey) :
    HasKey aa' cert := by
  cases ho with
  | addedPolicyCert cert' token he =>
    by_cases hname : cert.getKeyName = cert'.getKeyName
    · refine ⟨cert', ?_, hname.symm, hlater cert' token he hname.symm⟩
      rw [TrustConfig.findCertificateFromLocal_addOrUpdate, if_pos hname]
    · obtain ⟨stored, hstored, hsame⟩ := h
      refine ⟨stored, ?_, hsame⟩
      rw [TrustConfig.findCertificateFromLocal_addOrUpdate, if_neg hname]
      exact hstored
  | _ => exact h

/-- A certificate that was registered has its key at the authority. -/
theorem hasKey_of_registered {init : AttributeAuthority Token} {events : List (Event Token)}
    (h : Registered cert events) : HasKey (run keyGen crypto init events) cert := by
  obtain ⟨before, token, after, rfl, hlater⟩ := h
  rw [← List.singleton_append, ← List.append_assoc]
  induction after using List.reverseRecOn with
  | nil =>
    rw [List.append_nil, run, Runs.after_concat]
    refine ⟨cert, ?_, rfl, rfl⟩
    show ((run keyGen crypto init before).m_trustConfig.addOrUpdateCertificate
      cert).findCertificateFromLocal cert.getKeyName = some cert
    rw [TrustConfig.findCertificateFromLocal_addOrUpdate, if_pos rfl]
  | append_singleton after e ih =>
    rw [← List.append_assoc, run, Runs.after_concat]
    refine HasKey.step ?_ (next_outcome keyGen crypto _ e) ?_
    · exact ih fun cert' token' hmem => hlater cert' token' (List.mem_append_left _ hmem)
    · intro cert' token' he
      exact hlater cert' token' (by simp [he])

/-! ## The delivery -/

/-- What an event generates is in its log entries. -/
theorem generated_mem_newEffects {g : Generation} {token : Token} {first : Data}
    (h : next keyGen crypto aa e = (aa.store token g).record [.put first]) :
    .generated g ∈ newEffects keyGen crypto aa e := by
  rw [newEffects, h]
  simp [store, record]

/-- A request for a registered certificate's key stores the object and sends its first segment,
if a key can be made and sealed. -/
theorem next_of_request {request : Interest} {now seed : ℕ} {token : Token} {g : Generation}
    (hdecoded : aa.supposedKeyName request.name = .ok cert.getKeyName)
    (hsegment : isSegmentRequest request.name = .ok false) (hkey : HasKey aa cert)
    (hlocal : aa.m_trustConfig.findCertificateFromLocal cert.getKeyName = some g.cert)
    (hobj : g.objName = request.name ++ [Component.fromVersion now])
    (htoken : aa.m_tokens.find cert.getIdentity = some token)
    (hprvKey : keyGen aa.m_pubParams aa.m_masterKey token seed = .ok g.prvKey)
    (hblock : encryptDataContentWithCK crypto g.prvKey.toBuffer g.cert.getPublicKey seed =
      .ok g.dkBlock)
    (hsegments : segment g.dkBlock.encode g.objName aa.m_maxSegmentSize = .ok g.dkSegments) :
    ∃ first, next keyGen crypto aa (.decryptionKeyRequest request now seed) =
      (aa.store token g).record [.put first] := by
  obtain ⟨stored, hstored, hsame⟩ := hkey
  rw [hlocal] at hstored
  cases hstored
  rw [← hsame.1] at hdecoded hlocal
  rw [← hsame.getIdentity_eq] at htoken
  obtain ⟨first, -, hexec⟩ := exec_replyDecryptionKey hobj htoken hprvKey hblock hsegments
  have hreply := (Prog.wp_silent_iff _ (fun r t => r = .ok () ∧
    t = (aa.store token g).record [.put first]) aa).mpr ⟨congrArg Prod.fst hexec,
      congrArg Prod.snd hexec⟩
  have htokenSome : (aa.m_tokens.find g.cert.getIdentity).isSome = true := by rw [htoken]; rfl
  have hrequest := Prog.exec_eq_of_wp
    (wp_onDecryptionKeyRequest_of_local hdecoded hsegment htokenSome hlocal hreply)
  exact ⟨first, congrArg Prod.snd hrequest⟩

/-- A request for a registered certificate's key is answered if a key can be made and sealed. -/
theorem generated_of_request {request : Interest} {now seed : ℕ} {token : Token} {g : Generation}
    (hdecoded : aa.supposedKeyName request.name = .ok cert.getKeyName)
    (hsegment : isSegmentRequest request.name = .ok false) (hkey : HasKey aa cert)
    (hlocal : aa.m_trustConfig.findCertificateFromLocal cert.getKeyName = some g.cert)
    (hobj : g.objName = request.name ++ [Component.fromVersion now])
    (htoken : aa.m_tokens.find cert.getIdentity = some token)
    (hprvKey : keyGen aa.m_pubParams aa.m_masterKey token seed = .ok g.prvKey)
    (hblock : encryptDataContentWithCK crypto g.prvKey.toBuffer g.cert.getPublicKey seed =
      .ok g.dkBlock)
    (hsegments : segment g.dkBlock.encode g.objName aa.m_maxSegmentSize = .ok g.dkSegments) :
    .generated g ∈ newEffects keyGen crypto aa (.decryptionKeyRequest request now seed) := by
  obtain ⟨first, hnext⟩ := next_of_request hdecoded hsegment hkey hlocal hobj htoken hprvKey
    hblock hsegments
  exact generated_mem_newEffects hnext

/-- What a request for a registered certificate's key generates is delivered. -/
theorem delivers_of_generated {p : Platform} {c : Consumer} {privateKey : Bytes}
    {request : Interest} {now seed : ℕ} {g : Generation} (hlaw : p.crypto.Lawful)
    (hpair : p.crypto.KeyPair c.m_cert.getPublicKey privateKey c.m_cert.getKeyName)
    (hdecoded : aa.supposedKeyName request.name = .ok c.m_cert.getKeyName)
    (hkey : HasKey aa c.m_cert)
    (h : .generated g ∈ newEffects keyGen p.crypto aa (.decryptionKeyRequest request now seed)) :
    Delivers keyGen p aa c request.name g := by
  obtain ⟨-, hsupplies, hsealed, hfor⟩ := generated_inv h
  have hsame : SameKey c.m_cert g.cert := by
    obtain ⟨keyName, hkeyName, hfound⟩ := hsupplies
    obtain ⟨stored, hstored, hsame⟩ := hkey
    rw [hdecoded] at hkeyName
    cases hkeyName
    rw [hstored] at hfound
    cases hfound
    exact hsame
  rw [← hsame.1, ← hsame.2] at hpair
  refine ⟨hsame, hsame.getIdentity_eq ▸ hfor, ?_⟩
  intro hnul d hd
  have hname : d.m_cert.getKeyName = g.cert.getKeyName := by rw [hd, hsame.1]
  exact hsealed.exec_onKeyComplete hlaw hpair hnul hname request.name

/-- A request for a decryption key adds no digest to the name of the authority. -/
theorem requestable_decryptionKeyName (aaPrefix keyName : Name) :
    (decryptionKeyName aaPrefix keyName).Requestable ↔ aaPrefix.Requestable := by
  apply Name.requestable_append
  intro c hc
  rcases List.mem_pair.mp hc with rfl | rfl <;> rfl

/-- The consumer asks under its key name, where an Interest can have the authority's prefix. -/
theorem exec_obtainDecryptionKey (c : Consumer) :
    Consumer.obtainDecryptionKey.exec c =
      if c.m_attrAuthorityPrefix.Requestable then
        (.ok (), { c with
          keyFetches := decryptionKeyName c.m_attrAuthorityPrefix c.m_cert.getKeyName ::
            c.keyFetches })
      else (.error .invalidArgument, c) := by
  have hcertName : extractKeyNameFromCertName c.m_cert.getName = .ok c.m_cert.getKeyName :=
    if_pos c.m_cert.valid
  have hname := requestable_decryptionKeyName c.m_attrAuthorityPrefix c.m_cert.getKeyName
  by_cases hprefix : c.m_attrAuthorityPrefix.Requestable
  · rw [if_pos hprefix]
    apply Prog.exec_eq_of_wp
    simp only [Consumer.obtainDecryptionKey, Prog.wp_bind, Prog.wp_get, Prog.andThen_ok,
      Prog.wp_liftM, hcertName, Interest.ofName, if_pos (hname.mpr hprefix)]
    exact ⟨rfl, rfl⟩
  · rw [if_neg hprefix]
    apply Prog.exec_eq_of_wp
    simp only [Consumer.obtainDecryptionKey, Prog.wp_bind, Prog.wp_get, Prog.andThen_ok,
      Prog.wp_liftM, hcertName, Interest.ofName, if_neg (mt hname.mp hprefix)]
    exact ⟨rfl, rfl⟩

/-- **The delivery of a decryption key round-trips.**  The request carries the consumer's key
name, if an Interest can be named under the authority's prefix (a consumer has asked for
`PUBPARAMS` under it when it was constructed), a request that can be answered is answered, and
the segments of an answer give `d`, the consumer at the time they arrive, the key that was
made. -/
theorem keyDelivery_roundTrip (keyGen : KeyGen Token) (p : Platform) (identityCert : Certificate)
    (abeType : AbeType) (maxSegmentSize : ℕ) (keys : PublicParams × MasterKey)
    (events : List (Event Token)) (c : Consumer) (privateKey : Bytes) (hlaw : p.crypto.Lawful)
    (hpair : p.crypto.KeyPair c.m_cert.getPublicKey privateKey c.m_cert.getKeyName)
    (hauthority : c.m_attrAuthorityPrefix = identityCert.getIdentity)
    (hregistered : Registered c.m_cert events) (hname : c.m_cert.getKeyName.Carriable) :
    let aa := run keyGen p.crypto (initial identityCert abeType maxSegmentSize keys) events
    let interestName := decryptionKeyName c.m_attrAuthorityPrefix c.m_cert.getKeyName
    (Consumer.obtainDecryptionKey.exec c =
        if c.m_attrAuthorityPrefix.Requestable then
          (.ok (), { c with keyFetches := interestName :: c.keyFetches })
        else (.error .invalidArgument, c)) ∧
      aa.supposedKeyName interestName = .ok c.m_cert.getKeyName ∧
      (∀ request now seed, request.name = interestName →
        (∀ token (g : Generation),
          aa.m_trustConfig.findCertificateFromLocal c.m_cert.getKeyName = some g.cert →
          g.objName = interestName ++ [Component.fromVersion now] →
          aa.m_tokens.find c.m_cert.getIdentity = some token →
          keyGen aa.m_pubParams aa.m_masterKey token seed = .ok g.prvKey →
          encryptDataContentWithCK p.crypto g.prvKey.toBuffer g.cert.getPublicKey seed =
            .ok g.dkBlock →
          segment g.dkBlock.encode g.objName maxSegmentSize = .ok g.dkSegments →
          .generated g ∈ newEffects keyGen p.crypto aa (.decryptionKeyRequest request now seed)) ∧
        ∀ g, .generated g ∈ newEffects keyGen p.crypto aa (.decryptionKeyRequest request now seed) →
          Delivers keyGen p aa c interestName g) ∧
      ∀ payload seed block,
        encryptDataContentWithCK p.crypto payload c.m_cert.getPublicKey seed = .ok block →
        block.value.length < 2 ^ 64 →
        decryptDataContent p.crypto block privateKey =
          decryptDataContentTpm p.crypto block c.m_cert.getName := by
  intro aa interestName
  have hsame : SameKeys (initial identityCert abeType maxSegmentSize keys) aa :=
    run_sameKeys keyGen p.crypto (initial identityCert abeType maxSegmentSize keys) events
  have hinterest : interestName = decryptionKeyName aa.m_cert.getIdentity c.m_cert.getKeyName := by
    rw [hsame.cert_eq]
    exact congrArg (decryptionKeyName · c.m_cert.getKeyName) hauthority
  have hdecoded : aa.supposedKeyName interestName = .ok c.m_cert.getKeyName := by
    rw [hinterest]
    exact supposedKeyName_decryptionKeyName hname
  have hkey : HasKey aa c.m_cert := hasKey_of_registered hregistered
  refine ⟨exec_obtainDecryptionKey c, hdecoded, ?_, ?_⟩
  · intro request now seed hrequest
    rw [← hrequest] at hdecoded ⊢
    constructor
    · intro token g hlocal hobj htoken hprvKey hblock hsegments
      have hsegment : isSegmentRequest request.name = .ok false := by
        rw [hrequest, hinterest]
        exact isSegmentRequest_decryptionKeyName _ _
      have hmax : aa.m_maxSegmentSize = maxSegmentSize := hsame.maxSegmentSize_eq
      rw [← hmax] at hsegments
      exact generated_of_request hdecoded hsegment hkey hlocal hobj htoken hprvKey hblock hsegments
    · exact fun g => delivers_of_generated hlaw hpair hdecoded hkey
  · intro payload seed block hencrypt hsize
    have hcertName : extractKeyNameFromCertName c.m_cert.getName = .ok c.m_cert.getKeyName :=
      if_pos c.m_cert.valid
    obtain ⟨hrsa, htpm⟩ := decryptDataContent_of_encrypted hlaw hpair hcertName hencrypt hsize
    rw [hrsa, htpm]

/-- The authority `/a` once the consumer `/c` is registered with the attribute `x`. -/
def registeredAuthority : CpAttributeAuthority :=
  run (CpAttributeAuthority.keyGen mockAbe) mockCrypto
    (initial authorityCert abeTypeCpAbe 1500 (⟨[1]⟩, ⟨[2]⟩))
    [.addNewPolicyCert consumerCert [ascii "x"]]

/-- The key that it makes for a request of `/c`. -/
def keyExample : Generation where
  objName := consumerRequest.name ++ [Component.fromVersion 5]
  cert := consumerCert
  prvKey := ⟨ascii "x"⟩
  dkBlock := Consumer.keyBlock
  dkSegments := [⟨consumerRequest.name ++ [Component.fromVersion 5, Component.fromSegment 0],
    Consumer.keyBlock.encode⟩]

/-- A registered consumer asks and gets its key. -/
theorem keyDelivery_roundTrip_example :
    .generated keyExample ∈ newEffects (CpAttributeAuthority.keyGen mockAbe) mockCrypto
      registeredAuthority (.decryptionKeyRequest consumerRequest 5 4) ∧
    Delivers (CpAttributeAuthority.keyGen mockAbe) Consumer.mockPlatform registeredAuthority
      Consumer.fresh consumerRequest.name keyExample := by
  have hregistered : Registered consumerCert
      [(.addNewPolicyCert consumerCert [ascii "x"] : Event (List Bytes))] :=
    ⟨[], [ascii "x"], [], rfl, nofun⟩
  have hname : consumerCert.getKeyName.Carriable := by unfold Name.Carriable; decide
  obtain ⟨-, -, hdelivery, -⟩ := keyDelivery_roundTrip (CpAttributeAuthority.keyGen mockAbe)
    Consumer.mockPlatform authorityCert abeTypeCpAbe 1500 (⟨[1]⟩, ⟨[2]⟩)
    [.addNewPolicyCert consumerCert [ascii "x"]] Consumer.fresh [9] mockCrypto_lawful
    (mockCrypto_keyPair _) rfl hregistered hname
  obtain ⟨hanswered, hdelivers⟩ := hdelivery consumerRequest 5 4 rfl
  have hgenerated := hanswered [ascii "x"] keyExample rfl rfl rfl rfl rfl rfl
  exact ⟨hgenerated, hdelivers keyExample hgenerated⟩

end NacAbe.Analysis
