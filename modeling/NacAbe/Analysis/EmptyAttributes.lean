import NacAbe.Analysis.AttributeStrings
import NacAbe.Analysis.KeyRequestErrors
import NacAbe.Analysis.SegmentSizes

/-!
# Empty attribute lists

Three copies of one loop join an attribute list and remove the last character of the result
(abe-support.cpp:66-70, 119-123 and 131-135); of an empty string there is none to remove.  Only
`produce` by data name tests for an empty list.  `Operation` names the public ways into the three
loops; which of them are defined is said operation by operation, through `Defined`, which is kept
by everything but the loop.  An operation that is defined hands OpenABE the joined string, which
says the list unless an attribute has the separator in it (`operation_isHandled_iff`).
-/

set_option autoImplicit false

namespace NacAbe

/-! ## Defined executions -/

/-- The execution does not leave the language. -/
def Defined {α : Type} (x : Except Exn α) : Prop := x ≠ .error .undefined

/-- A result is defined. -/
theorem defined_ok {α : Type} (a : α) : Defined (.ok a : Except Exn α) := nofun

/-- An exception is as good or bad at every type. -/
theorem Defined.error {α β : Type} {e : Exn} (h : Defined (.error e : Except Exn α)) :
    Defined (.error e : Except Exn β) := by
  rintro ⟨⟩
  exact h rfl

/-- A computation in sequence is defined when each part that runs is. -/
theorem defined_bind_iff {α β : Type} {x : Except Exn α} {f : α → Except Exn β} :
    Defined (x >>= f) ↔ Defined x ∧ ∀ a, x = .ok a → Defined (f a) := by
  cases x with
  | error e =>
    constructor
    · intro h
      exact ⟨h.error, nofun⟩
    · rintro ⟨h, -⟩
      exact h.error
  | ok a =>
    constructor
    · rintro h
      exact ⟨nofun, fun b hb => Except.ok.inj hb ▸ h⟩
    · rintro ⟨-, h⟩
      exact h a rfl

/-- Parts that are defined in any case. -/
theorem Defined.bind {α β : Type} {x : Except Exn α} {f : α → Except Exn β} (hx : Defined x)
    (hf : ∀ a, Defined (f a)) : Defined (x >>= f) :=
  defined_bind_iff.mpr ⟨hx, fun a _ => hf a⟩

/-- Where everything behind a step is defined, the step decides. -/
theorem defined_bind_iff_left {α β : Type} {x : Except Exn α} {f : α → Except Exn β}
    (hf : ∀ a, Defined (f a)) : Defined (x >>= f) ↔ Defined x :=
  ⟨fun h => (defined_bind_iff.mp h).1, fun h => h.bind hf⟩

/-- **The loop is defined exactly for a list that is not empty.** -/
theorem defined_policyString_iff (attrList : List Bytes) :
    Defined (policyString attrList) ↔ attrList ≠ [] := by
  constructor
  · rintro h rfl
    exact h rfl
  · intro h
    rw [policyString_eq h]
    exact defined_ok _

/-- A missing result is an exception, not undefined. -/
theorem defined_orThrow (result : Option Bytes) : Defined (orThrow result) := by
  cases result with
  | none => nofun
  | some bytes => exact defined_ok bytes

/-- Segmenting throws or returns. -/
theorem defined_segment (content : Bytes) (name : Name) (m : ℕ) :
    Defined (segment content name m) := by
  unfold segment
  split
  · nofun
  · exact defined_ok _

namespace AbeSupport

variable (abe : OpenAbe) (context : Scheme) (pubParams : PublicParams)

/-- A private key is generated from any string. -/
theorem defined_prvKeyGen (masterKey : MasterKey) (policyOrAttribute : Bytes) (seed : ℕ) :
    Defined (prvKeyGen abe context pubParams masterKey policyOrAttribute seed) := by
  unfold prvKeyGen
  split
  · exact defined_ok _
  · nofun

/-- A content key is generated from any string. -/
theorem defined_contentKeyGen (policyOrAttribute : Bytes) (seed : ℕ) :
    Defined (contentKeyGen abe context pubParams policyOrAttribute seed) := by
  unfold contentKeyGen
  split
  · dsimp only
    split
    · exact defined_ok _
    · nofun
  · nofun

/-- Encryption under a content key throws or returns. -/
theorem defined_encrypt (contentKey : ContentKey) (plaintext : Bytes) (seed : ℕ) :
    Defined (encrypt abe contentKey plaintext seed) := by
  unfold encrypt
  split
  · exact defined_ok _
  · nofun

/-- `cpPrvKeyGen` joins its list, which must not be empty. -/
theorem defined_cpPrvKeyGen_iff (masterKey : MasterKey) (attrList : List Bytes) (seed : ℕ) :
    Defined (cpPrvKeyGen abe pubParams masterKey attrList seed) ↔ attrList ≠ [] := by
  rw [← defined_policyString_iff]
  exact defined_bind_iff_left fun _ => defined_prvKeyGen abe .cpAbe pubParams masterKey _ seed

/-- `kpContentKeyGen` joins its list too. -/
theorem defined_kpContentKeyGen_iff (attrList : List Bytes) (seed : ℕ) :
    Defined (kpContentKeyGen abe pubParams attrList seed) ↔ attrList ≠ [] := by
  rw [← defined_policyString_iff]
  exact defined_bind_iff_left fun _ => defined_contentKeyGen abe .kpAbe pubParams _ seed

/-- So does `kpEncrypt`. -/
theorem defined_kpEncrypt_iff (attrList : List Bytes) (plaintext : Bytes) (seed : ℕ) :
    Defined (kpEncrypt abe pubParams attrList plaintext seed) ↔ attrList ≠ [] := by
  rw [← defined_policyString_iff]
  exact defined_bind_iff_left fun _ =>
    (defined_contentKeyGen abe .kpAbe pubParams _ seed).bind fun _ => defined_encrypt abe _ _ seed

end AbeSupport

/-! ## Producers -/

namespace ProduceCall

variable (abe : OpenAbe) (producer : Producer) (call : ProduceCall)

/-- The call generates a content key: parameters of its mode have been fetched. -/
def Generates : Prop :=
  producer.m_paramFetcher.m_pubParamsCache.m_pub ≠ [] ∧
    producer.m_paramFetcher.m_abeType = call.encryptBy.handed.1.abeType

/-- A content key for a policy is always defined, one for attributes where there are some. -/
theorem defined_contentKeyGen_iff :
    Defined (call.contentKeyGen abe producer) ↔ call.encryptBy.Given := by
  unfold contentKeyGen EncryptBy.Given
  cases call.encryptBy with
  | policy accessPolicy =>
    exact iff_of_true (AbeSupport.defined_contentKeyGen abe .cpAbe _ accessPolicy call.seed) nofun
  | attributes attributes =>
    rw [ne_eq, EncryptBy.attributes.injEq]
    exact AbeSupport.defined_kpContentKeyGen_iff abe _ attributes call.seed

/-- A content key with its packets is defined unless it is made for no attributes. -/
theorem defined_ckDataGen_iff (m : ℕ) :
    Defined (producer.ckDataGen abe call.encryptBy m call.word call.seed) ↔
      (call.Generates producer → call.encryptBy.Given) := by
  rw [ckDataGen_eq_contentKeyGen]
  by_cases hparams : producer.m_paramFetcher.m_pubParamsCache.m_pub = []
  · rw [if_pos hparams]
    exact iff_of_true (defined_ok _) fun h => absurd hparams h.1
  · by_cases hmode : producer.m_paramFetcher.m_abeType = call.encryptBy.handed.1.abeType
    · rw [if_neg hparams, if_neg (not_not.mpr hmode), defined_bind_iff_left,
        defined_contentKeyGen_iff]
      · exact ⟨fun h _ => h, fun h => h ⟨hparams, hmode⟩⟩
      · intro key
        rw [ckSegments_eq]
        exact (defined_segment _ _ m).bind fun _ => defined_ok _
    · rw [if_neg hparams, if_pos hmode]
      exact iff_of_true (defined_ok _) fun h => absurd h.2 hmode

/-- Producing under a key that is there throws or returns. -/
theorem defined_produceWithKey (key : ContentKey) (keyName : Name) (m : ℕ) :
    Defined (producer.produceWithKey abe key keyName call.dataName call.content m call.seed) :=
  (AbeSupport.defined_encrypt abe key call.content call.seed).bind fun _ => defined_segment _ _ m

/-- `produce` of the producer is defined unless it makes a key for no attributes. -/
theorem defined_direct_iff (m : ℕ) :
    Defined (call.direct abe producer m) ↔ (call.Generates producer → call.encryptBy.Given) := by
  rw [direct_eq, defined_bind_iff_left, defined_ckDataGen_iff]
  rintro ⟨key, segments⟩
  cases key with
  | none => exact defined_ok _
  | some key =>
    cases segments with
    | nil => nofun
    | cons first rest =>
      exact (defined_produceWithKey abe producer call key _ m).bind fun _ => defined_ok _

/-- The packets under a key that is kept. -/
theorem defined_packetsWith (key : ContentKey × List Data) :
    Defined (CacheProducer.packetsWith abe call.dataName call.content call.seed key producer) := by
  obtain ⟨contentKey, segments⟩ := key
  cases segments with
  | nil => rintro ⟨⟩
  | cons first rest =>
    exact (defined_produceWithKey abe producer call contentKey (first.name.getPrefixNeg 1)
      defaultMaxSegmentSize).bind fun _ => defined_ok _

/-- A cache producer generates a key only if it has none. -/
theorem defined_run_iff (c : CacheProducer) :
    Defined ((call.run abe).exec c).1 ↔
      (c.kept call.encryptBy = none → call.Generates c.producer → call.encryptBy.Given) := by
  have hwp : (call.run abe).wp (Prog.silent _ _ _) (fun r _ => Defined r ↔
      (c.kept call.encryptBy = none → call.Generates c.producer → call.encryptBy.Given)) c := by
    have hgen := defined_ckDataGen_iff abe c.producer call defaultMaxSegmentSize
    rw [run_eq_produceKept]
    apply CacheProducer.wp_produceKept_of
    · intro key hkept
      refine iff_of_true (defined_packetsWith abe c.producer call key) ?_
      intro hnone
      cases hkept.symm.trans hnone
    · intro e hkept hgenerated
      rw [hgenerated] at hgen
      constructor
      · intro h _
        exact hgen.mp h.error
      · intro h
        exact (hgen.mpr (h hkept)).error
    · intro k _ hgenerated _
      rw [hgenerated] at hgen
      exact iff_of_true (defined_ok _) fun _ => hgen.mp (defined_ok _)
    · intro key segments _ hgenerated _
      rw [hgenerated] at hgen
      exact iff_of_true (defined_packetsWith abe _ call _) fun _ => hgen.mp (defined_ok _)
  exact (Prog.wp_silent_iff _ _ c).mp hwp

end ProduceCall

/-- `produce` by data name does not go on with an empty list. -/
theorem Producer.given_of_matched {producer : Producer} {dataName : Name} {e : EncryptBy}
    (h : producer.matched dataName = some e) : e.Given := by
  unfold matched at h
  split at h
  · dsimp only at h
    split at h
    · cases h
    · cases h
      nofun
  · split at h
    · dsimp only at h
      split at h
      · cases h
      · next hne =>
        cases h
        intro heq
        exact hne (EncryptBy.attributes.inj heq)
    · cases h

/-- `produce` by data name is defined whatever list the table has. -/
theorem Producer.defined_produce (abe : OpenAbe) (producer : Producer) (dataName : Name)
    (content : Bytes) (m word seed : ℕ) :
    Defined (producer.produce abe dataName content m word seed) := by
  cases hmatched : producer.matched dataName with
  | none =>
    rw [Producer.produce_of_unmatched hmatched]
    exact defined_ok _
  | some e =>
    rw [Producer.produce_of_matched hmatched, ProduceCall.defined_direct_iff]
    exact fun _ => Producer.given_of_matched hmatched

/-- `produce` by data name is defined: it never asks for a key for no attributes. -/
theorem CacheProducer.defined_produce (abe : OpenAbe) (c : CacheProducer) (dataName : Name)
    (content : Bytes) (word seed : ℕ) :
    Defined ((CacheProducer.produce abe dataName content word seed).exec c).1 := by
  rw [CacheProducer.exec_produce]
  cases hmatched : c.producer.matched dataName with
  | none => exact defined_ok _
  | some e =>
    dsimp only
    rw [ProduceCall.defined_run_iff]
    exact fun _ _ => Producer.given_of_matched hmatched

/-! ## Authorities -/

namespace AttributeAuthority

variable {Token : Type} (keyGen : KeyGen Token) (crypto : Crypto) (aa : AttributeAuthority Token)

/-- The token that a decryption key for the certificate is made from. -/
def MakesKeyFrom (cert : Certificate) (token : Token) : Prop :=
  aa.m_tokens.find cert.getIdentity = some token

/-- The token that a request makes a decryption key from: the request carries the key name of an
identity with a token, asks for the object, and the certificate is there. -/
def RequestsFrom (request : Interest) (token : Token) : Prop :=
  ∃ keyName cert, supposedKeyName aa request.name = .ok keyName ∧ isValidKeyName keyName = true ∧
    (aa.m_tokens.find (keyName.getPrefixNeg 2)).isSome = true ∧
    isSegmentRequest request.name = .ok false ∧
    aa.m_trustConfig.findCertificateFromLocal keyName = some cert ∧ aa.MakesKeyFrom cert token

/-- The token that an accepted certificate makes a decryption key from. -/
def CertifiesFrom (keyName : Name) (data : Data) (digest : Bytes) (keyPacket accepted : Bool)
    (token : Token) : Prop :=
  keyName ∈ aa.fetches ∧ (⟨keyName, true, none, none⟩ : Interest).matchesData data digest = true ∧
    accepted = true ∧
      ∃ cert, Certificate.ofData data keyPacket = .ok cert ∧ aa.MakesKeyFrom cert token

variable {aa}

/-- A request makes a key of one token, -/
theorem RequestsFrom.unique {request : Interest} {token token' : Token}
    (h : aa.RequestsFrom request token) (h' : aa.RequestsFrom request token') : token = token' := by
  obtain ⟨keyName, cert, hkeyName, -, -, -, hcert, hmakes⟩ := h
  obtain ⟨keyName', cert', hkeyName', -, -, -, hcert', hmakes'⟩ := h'
  rw [hkeyName] at hkeyName'
  cases hkeyName'
  rw [hcert] at hcert'
  cases hcert'
  exact Option.some.inj (hmakes.symm.trans hmakes')

/-- and so does a certificate. -/
theorem CertifiesFrom.unique {keyName : Name} {data : Data} {digest : Bytes}
    {keyPacket accepted : Bool} {token token' : Token}
    (h : aa.CertifiesFrom keyName data digest keyPacket accepted token)
    (h' : aa.CertifiesFrom keyName data digest keyPacket accepted token') : token = token' := by
  obtain ⟨-, -, -, cert, hcert, hmakes⟩ := h
  obtain ⟨-, -, -, cert', hcert', hmakes'⟩ := h'
  rw [hcert] at hcert'
  cases hcert'
  exact Option.some.inj (hmakes.symm.trans hmakes')

/-- `Name::at` throws or returns. -/
theorem defined_atPos (name : Name) (i : ℕ) : Defined (name.atPos i) := by
  unfold Name.atPos
  split
  · exact defined_ok _
  · nofun

/-- Reading the key name out of a request throws or returns. -/
theorem defined_supposedKeyName (aa : AttributeAuthority Token) (requestName : Name) :
    Defined (supposedKeyName aa requestName) := by
  have hofBuffer : ∀ bytes, Defined (Block.ofBuffer bytes) := by
    intro bytes
    unfold Block.ofBuffer
    split
    · exact defined_ok _
    · nofun
  have hofBlock : ∀ block, Defined (Name.ofBlock block) := by
    intro block
    unfold Name.ofBlock
    split
    · unfold Block.elements
      split
      · exact defined_ok _
      · nofun
    · nofun
  exact (defined_atPos _ _).bind fun component => (hofBuffer component.value).bind hofBlock

/-- Telling a request for a segment throws or returns. -/
theorem defined_isSegmentRequest (requestName : Name) : Defined (isSegmentRequest requestName) := by
  have hat : ∀ n, Defined (requestName.atNeg n) := by
    intro n
    unfold Name.atNeg
    split
    · nofun
    · exact defined_atPos _ _
  refine (hat 1).bind fun last => ?_
  split
  · exact (hat 2).bind fun _ => defined_ok _
  · exact defined_ok _

/-- Sealing a key throws or returns. -/
theorem defined_encryptDataContentWithCK (payload rsaKey : Bytes) (seed : ℕ) :
    Defined (encryptDataContentWithCK crypto payload rsaKey seed) :=
  (defined_orThrow _).bind fun _ => (defined_orThrow _).bind fun _ => defined_ok _

/-- The constructor of a certificate throws or returns. -/
theorem defined_ofData (data : Data) (keyPacket : Bool) :
    Defined (Certificate.ofData data keyPacket) := by
  unfold Certificate.ofData
  split
  · split
    · exact defined_ok _
    · rintro ⟨⟩
  · rintro ⟨⟩

/-- The constructor of an Interest throws or returns. -/
theorem defined_ofName (name : Name) : Defined (Interest.ofName name) := by
  unfold Interest.ofName
  split
  · exact defined_ok _
  · rintro ⟨⟩

/-- A reply is as defined as the generation of its key. -/
theorem defined_reply_iff (requestName : Name) (cert : Certificate) (now seed : ℕ) :
    Defined (reply keyGen crypto aa requestName cert now seed) ↔
      ∀ token, aa.MakesKeyFrom cert token →
        Defined (keyGen aa.m_pubParams aa.m_masterKey token seed) := by
  refine (defined_bind_iff_left fun _ => defined_ok ()).trans ?_
  unfold issue MakesKeyFrom
  split
  · next hnone =>
    refine iff_of_true nofun ?_
    intro token htoken
    cases hnone.symm.trans htoken
  · next token hfind =>
    rw [defined_bind_iff_left]
    · constructor
      · intro h token' htoken'
        obtain rfl := Option.some.inj (hfind.symm.trans htoken')
        exact h
      · intro h
        exact h token hfind
    · intro prvKey
      exact (defined_encryptDataContentWithCK crypto _ _ seed).bind fun dkBlock =>
        defined_segment _ _ _

/-- An answer is as defined as the generation of the key that is asked for. -/
theorem defined_answer_iff (request : Interest) (now seed : ℕ) :
    Defined (answer keyGen crypto aa request now seed) ↔ ∀ token, aa.RequestsFrom request token →
      Defined (keyGen aa.m_pubParams aa.m_masterKey token seed) := by
  constructor
  · rintro h token ⟨keyName, cert, hkeyName, hvalid, htoken, hobject, hcert, hmakes⟩
    simp only [answer, hkeyName, ok_bind, extractIdentityFromKeyName, if_pos hvalid, if_pos htoken,
      hobject, Bool.false_eq_true, if_false, hcert] at h
    exact (defined_reply_iff keyGen crypto request.name cert now seed).mp h token hmakes
  · intro h
    refine defined_bind_iff.mpr ⟨defined_supposedKeyName aa request.name, ?_⟩
    intro keyName hkeyName
    unfold extractIdentityFromKeyName
    split
    · next hvalid =>
      rw [ok_bind]
      split
      · next htoken =>
        refine defined_bind_iff.mpr ⟨defined_isSegmentRequest request.name, ?_⟩
        intro segmentRequest hobject
        cases segmentRequest with
        | true => exact defined_ok ()
        | false =>
          simp only [Bool.false_eq_true, if_false]
          split
          · next cert hcert =>
            refine (defined_reply_iff keyGen crypto request.name cert now seed).mpr ?_
            intro token hmakes
            exact h token ⟨keyName, cert, hkeyName, hvalid, htoken, hobject, hcert, hmakes⟩
          · exact (defined_ofName keyName).bind fun _ => defined_ok ()
      · exact defined_ok ()
    · rintro ⟨⟩

/-- A certificate fetch ends as defined as the generation of its key. -/
theorem defined_certify_iff (keyName : Name) (data : Data) (digest : Bytes)
    (keyPacket accepted : Bool) (requestRead : Name) (now seed : ℕ) :
    Defined (certify keyGen crypto aa keyName data digest keyPacket accepted requestRead now
      seed) ↔
      ∀ token, aa.CertifiesFrom keyName data digest keyPacket accepted token →
        Defined (keyGen aa.m_pubParams aa.m_masterKey token seed) := by
  unfold certify
  split
  · next hwait =>
    constructor
    · rintro h token ⟨-, -, -, cert, hcert, hmakes⟩
      rw [hcert, ok_bind] at h
      exact (defined_reply_iff keyGen crypto requestRead cert now seed).mp h token hmakes
    · intro h
      refine defined_bind_iff.mpr ⟨defined_ofData data keyPacket, ?_⟩
      intro cert hcert
      refine (defined_reply_iff keyGen crypto requestRead cert now seed).mpr ?_
      intro token hmakes
      exact h token ⟨hwait.1.1, hwait.1.2, hwait.2, cert, hcert, hmakes⟩
  · next hwait =>
    refine iff_of_true (defined_ok ()) ?_
    rintro token ⟨hfetch, hmatch, haccepted, -⟩
    exact absurd ⟨⟨hfetch, hmatch⟩, haccepted⟩ hwait

/-- A condition for the tokens that a key is made from excludes the empty list. -/
theorem defined_keyGen_iff (abe : OpenAbe) (aa : CpAttributeAuthority) (seed : ℕ)
    (MakesFrom : List Bytes → Prop) :
    (∀ token, MakesFrom token →
      Defined (CpAttributeAuthority.keyGen abe aa.m_pubParams aa.m_masterKey token seed)) ↔
      ∀ token, MakesFrom token → token ≠ [] := by
  simp only [CpAttributeAuthority.keyGen, AbeSupport.defined_cpPrvKeyGen_iff]

/-! ### Another way to make the key -/

variable {keyGen : KeyGen Token} {crypto : Crypto} (keyGen' : KeyGen Token)
  {Q : Except Exn Unit → AttributeAuthority Token → Prop}

/-- A reply depends on the key generator at the certificate's own token only. -/
theorem wp_replyDecryptionKey_congr {requestName : Name} {cert : Certificate} {now seed : ℕ}
    (h : ∀ token, aa.MakesKeyFrom cert token → keyGen aa.m_pubParams aa.m_masterKey token seed =
      keyGen' aa.m_pubParams aa.m_masterKey token seed) :
    (replyDecryptionKey keyGen crypto requestName cert now seed).wp (Prog.silent _ _ _) Q aa ↔
      (replyDecryptionKey keyGen' crypto requestName cert now seed).wp (Prog.silent _ _ _) Q
        aa := by
  simp only [replyDecryptionKey, generateDecryptionKeySegments, getPrivateKey, Prog.wp_bind,
    Prog.wp_get, Prog.andThen_ok]
  cases hfind : aa.m_tokens.find cert.getIdentity with
  | none => rfl
  | some token =>
    simp only [Prog.wp_bind, Prog.wp_liftM]
    rw [h token hfind]

/-- **A request makes a key of no other tokens.** -/
theorem exec_onDecryptionKeyRequest_congr {request : Interest} {now seed : ℕ}
    (h : ∀ token, aa.RequestsFrom request token →
      keyGen aa.m_pubParams aa.m_masterKey token seed =
        keyGen' aa.m_pubParams aa.m_masterKey token seed) :
    (onDecryptionKeyRequest keyGen crypto request now seed).exec aa =
      (onDecryptionKeyRequest keyGen' crypto request now seed).exec aa := by
  apply Prog.exec_congr
  intro Q
  simp only [onDecryptionKeyRequest, onDecryptionKeyRequestBase, Prog.wp_bind, Prog.wp_get,
    Prog.andThen_ok, Prog.wp_liftM]
  cases hkeyName : supposedKeyName aa request.name with
  | error e => rfl
  | ok keyName =>
    simp only [Prog.andThen_ok, Prog.wp_bind, Prog.wp_liftM]
    by_cases hvalid : isValidKeyName keyName = true
    · have hidentity : extractIdentityFromKeyName keyName = .ok (keyName.getPrefixNeg 2) :=
        if_pos hvalid
      simp only [hidentity, Prog.andThen_ok, Prog.wp_bind, Prog.wp_get]
      by_cases htoken : (aa.m_tokens.find (keyName.getPrefixNeg 2)).isSome = true
      · rw [if_pos htoken, if_pos htoken]
        simp only [Prog.wp_bind, Prog.wp_get, Prog.andThen_ok, Prog.wp_liftM, hkeyName]
        cases hobject : isSegmentRequest request.name with
        | error e => rfl
        | ok segmentRequest =>
          cases segmentRequest with
          | true => rfl
          | false =>
            simp only [hidentity, Prog.andThen_ok, Bool.false_eq_true, if_false, if_pos hvalid,
              Prog.wp_bind, Prog.wp_get, Prog.wp_liftM]
            cases hcert : aa.m_trustConfig.findCertificateFromLocal keyName with
            | none => rfl
            | some cert =>
              refine wp_replyDecryptionKey_congr keyGen' fun token hmakes => ?_
              exact h token ⟨keyName, cert, hkeyName, hvalid, htoken, hobject, hcert, hmakes⟩
      · rw [if_neg htoken, if_neg htoken]
    · have hidentity : extractIdentityFromKeyName keyName = .error .invalidArgument :=
        if_neg hvalid
      rw [hidentity]
      rfl

/-- A certificate that arrives makes a key of no other tokens. -/
theorem exec_onCertificateData_congr {keyName : Name} {data : Data} {digest : Bytes}
    {keyPacket accepted : Bool} {requestRead : Name} {now seed : ℕ}
    (h : ∀ token, aa.CertifiesFrom keyName data digest keyPacket accepted token →
      keyGen aa.m_pubParams aa.m_masterKey token seed =
        keyGen' aa.m_pubParams aa.m_masterKey token seed) :
    (onCertificateData keyGen crypto keyName data digest keyPacket accepted requestRead now
        seed).exec aa =
      (onCertificateData keyGen' crypto keyName data digest keyPacket accepted requestRead now
        seed).exec aa := by
  apply Prog.exec_congr
  intro Q
  simp only [onCertificateData, Prog.wp_bind, Prog.wp_get, Prog.andThen_ok]
  by_cases hwait : keyName ∈ aa.fetches ∧
      (⟨keyName, true, none, none⟩ : Interest).matchesData data digest = true
  · rw [if_pos hwait, if_pos hwait]
    simp only [Prog.wp_bind, Prog.wp_modify, Prog.andThen_ok]
    cases accepted with
    | false => rfl
    | true =>
      simp only [if_true, Prog.wp_bind, Prog.wp_liftM]
      cases hcert : Certificate.ofData data keyPacket with
      | error e => rfl
      | ok cert =>
        refine wp_replyDecryptionKey_congr keyGen' fun token hmakes => ?_
        exact h token ⟨hwait.1, hwait.2, rfl, cert, hcert, hmakes⟩
  · rw [if_neg hwait, if_neg hwait]

end AttributeAuthority

/-- The key generation that hands OpenABE this string, whatever the list. -/
def CpAttributeAuthority.keyGenOf (abe : OpenAbe) (s : Bytes) : KeyGen (List Bytes) :=
  fun pubParams masterKey _ seed => AbeSupport.prvKeyGen abe .cpAbe pubParams masterKey s seed

/-- The key for a list that is not empty is the key for its joined string. -/
theorem CpAttributeAuthority.keyGen_eq (abe : OpenAbe) {attrList : List Bytes}
    (h : attrList ≠ []) (pubParams : PublicParams) (masterKey : MasterKey) (seed : ℕ) :
    keyGen abe pubParams masterKey attrList seed =
      keyGenOf abe ((ascii "|").intercalate attrList) pubParams masterKey attrList seed := by
  rw [keyGen, AbeSupport.cpPrvKeyGen, policyString_eq h]
  rfl

/-! ## Content keys that are kept -/

namespace CacheProducer

variable {abe : OpenAbe} {cert : Certificate} {c : CacheProducer} {call : ProduceCall}

/-- What is kept under the string of an attribute list was generated for that string. -/
def KeysOfStrings (abe : OpenAbe) (c : CacheProducer) : Prop :=
  ∀ attStr key, c.m_kpKeyCache.find attStr = some key → ∃ s pubParams seed,
    attStr = s ++ ascii "|" ∧ AbeSupport.contentKeyGen abe .kpAbe pubParams s seed = .ok key.1

/-- The key that a call makes is generated for its policy or its attribute list. -/
theorem contentKeyGen_of_made {producer : Producer} {key : ContentKey × List Data}
    (h : call.made abe producer = some key) : call.contentKeyGen abe producer = .ok key.1 := by
  unfold ProduceCall.made at h
  split at h
  · next contentKey ckData hgen =>
    split at h
    · cases h
    · cases h
      rw [ProduceCall.ckDataGen_eq_contentKeyGen] at hgen
      split_ifs at hgen
      · cases hgen
      · cases hgen
      · obtain ⟨made, hkey, hrest⟩ := bind_eq_ok.mp hgen
        obtain ⟨segments, -, hreturn⟩ := bind_eq_ok.mp hrest
        cases hreturn
        exact hkey
  · cases h

/-- A key that a call makes may be kept. -/
theorem KeysOfStrings.keep (h : KeysOfStrings abe c) {key : ContentKey × List Data}
    (hmade : call.made abe c.producer = some key) :
    KeysOfStrings abe (c.keep call.encryptBy key) := by
  have hkey := contentKeyGen_of_made hmade
  unfold ProduceCall.contentKeyGen at hkey
  cases hby : call.encryptBy with
  | policy accessPolicy => exact h
  | attributes attributes =>
    rw [hby] at hkey
    have hne : attributes ≠ [] := by
      rintro rfl
      cases hkey
    intro string key' hfind
    rw [CacheProducer.keep, PartialMap.find_insert] at hfind
    split at hfind
    · next heq =>
      cases hold : c.m_kpKeyCache.find (attStr attributes) with
      | some old =>
        rw [hold] at hfind
        cases hfind
        exact h string _ (heq ▸ hold)
      | none =>
        rw [hold] at hfind
        cases hfind
        dsimp only at hkey
        rw [AbeSupport.kpContentKeyGen, policyString_eq hne] at hkey
        refine ⟨_, _, _, ?_, hkey⟩
        rw [heq, attStr_eq fun hby => hne (EncryptBy.attributes.inj hby)]
    · exact h string key' hfind

/-- One call. -/
theorem KeysOfStrings.run (h : KeysOfStrings abe c) (call : ProduceCall) :
    KeysOfStrings abe ((call.run abe).exec c).2 := by
  rw [ProduceCall.state_run, ProduceCall.keepMade]
  split
  · next key hmade => exact h.keep hmade
  · exact h

/-- **In every state of a `CacheProducer`.** -/
theorem Reachable.keysOfStrings (h : c.Reachable abe cert) : KeysOfStrings abe c := by
  induction h with
  | initial _ => nofun
  | changed _ _ ih => exact ih
  | cleared _ _ => nofun
  | policy _ name policy content word seed ih =>
    exact ih.run ⟨.policy policy, name, content, word, seed⟩
  | attributes _ name attributes content word seed ih =>
    exact ih.run ⟨.attributes attributes, name, content, word, seed⟩
  | @matched c _ name content word seed ih =>
    rw [exec_produce]
    cases c.producer.matched name with
    | none => exact ih
    | some e => exact ih.run _

/-- A key that is kept for an attribute list was made for its string, and none is kept for the
empty list. -/
theorem KeysOfStrings.kept (h : KeysOfStrings abe c) {attributes : List Bytes}
    {key : ContentKey × List Data} (hkept : c.kept (.attributes attributes) = some key) :
    attributes ≠ [] ∧ ∃ pubParams seed, AbeSupport.contentKeyGen abe .kpAbe pubParams
      ((ascii "|").intercalate attributes) seed = .ok key.1 := by
  obtain ⟨s, pubParams, seed, hstring, hkey⟩ := h _ _ hkept
  have hne : attributes ≠ [] := by
    rintro rfl
    exact List.append_ne_nil_of_right_ne_nil s (List.cons_ne_nil _ _) hstring.symm
  refine ⟨hne, pubParams, seed, ?_⟩
  rw [attStr_eq fun hby => hne (EncryptBy.attributes.inj hby)] at hstring
  rw [List.append_cancel_right hstring]
  exact hkey

end CacheProducer

/-! ## The public operations -/

/-- The ways into the three loops that the public interface has. -/
inductive Operation (abe : OpenAbe)
  | cpPrvKeyGen (pubParams : PublicParams) (masterKey : MasterKey) (attrList : List Bytes)
      (seed : ℕ)
  | kpContentKeyGen (pubParams : PublicParams) (attrList : List Bytes) (seed : ℕ)
  | kpEncrypt (pubParams : PublicParams) (attrList : List Bytes) (plaintext : Bytes) (seed : ℕ)
  /-- `Producer::ckDataGen` and `Producer::produce`, for a policy or an attribute list. -/
  | ckDataGen (producer : Producer) (call : ProduceCall) (maxSegmentSize : ℕ)
  | produce (producer : Producer) (call : ProduceCall) (maxSegmentSize : ℕ)
  /-- `CacheProducer::produce`, whatever has been produced before. -/
  | produceKept {cert : Certificate} (c : CacheProducer) (hc : c.Reachable abe cert)
      (call : ProduceCall)
  /-- `produce` by data name, of either producer. -/
  | produceByName (producer : Producer) (dataName : Name) (content : Bytes)
      (maxSegmentSize word seed : ℕ)
  | produceKeptByName {cert : Certificate} (c : CacheProducer) (hc : c.Reachable abe cert)
      (dataName : Name) (content : Bytes) (word seed : ℕ)
  /-- A DKEY request, and the certificate that one has waited for. -/
  | decryptionKeyRequest (aa : CpAttributeAuthority) (request : Interest) (now seed : ℕ)
  | certificateData (aa : CpAttributeAuthority) (keyName : Name) (data : Data) (digest : Bytes)
      (keyPacket accepted : Bool) (requestRead : Name) (now seed : ℕ)

namespace ProduceCall

variable {abe : OpenAbe} {call : ProduceCall} {attributes : List Bytes}

/-- `Producer::produce`, with this string handed to OpenABE. -/
def directFor (abe : OpenAbe) (producer : Producer) (call : ProduceCall) (m : ℕ) (s : Bytes) :
    Except Exn (List Data × List Data) := do
  let contentKey ← producer.keyFor abe (.kpAbe, s) call.encryptBy.component m call.word call.seed
  producer.produceFrom abe call.dataName call.content m call.seed contentKey

/-- `CacheProducer::produce`, with this string handed to OpenABE where no key is kept. -/
def runFor (abe : OpenAbe) (call : ProduceCall) (s : Bytes) :
    Prog CacheProducer Exn Empty (List Data × List Data) :=
  CacheProducer.produceKept abe (·.kept call.encryptBy) (fun c k => c.keep call.encryptBy k)
    (·.keyFor abe (.kpAbe, s) call.encryptBy.component defaultMaxSegmentSize call.word call.seed)
    call.dataName call.content call.seed

/-- The key that is kept for the call was made for this string. -/
def KeptFor (abe : OpenAbe) (call : ProduceCall) (c : CacheProducer) (s : Bytes) : Prop :=
  ∀ key, c.kept call.encryptBy = some key → ∃ pubParams seed,
    AbeSupport.contentKeyGen abe .kpAbe pubParams s seed = .ok key.1

/-- The call takes a content key, one that is kept or a new one. -/
def TakesKept (call : ProduceCall) (c : CacheProducer) : Prop :=
  (c.kept call.encryptBy).isSome = true ∨ call.Generates c.producer

/-- What is handed to the scheme for attributes is their joined string. -/
theorem handed_of_attributes (h : call.encryptBy = .attributes attributes) :
    call.encryptBy.handed = (.kpAbe, (ascii "|").intercalate attributes) := by
  rw [h]
  rfl

/-- The content key for attributes is the one for their joined string. -/
theorem ckDataGen_eq_keyFor (h : call.encryptBy = .attributes attributes)
    (hne : attributes ≠ []) (producer : Producer) (m : ℕ) :
    producer.ckDataGen abe call.encryptBy m call.word call.seed =
      producer.keyFor abe (.kpAbe, (ascii "|").intercalate attributes) call.encryptBy.component m
        call.word call.seed := by
  have hgiven : call.encryptBy.Given := by
    rw [h]
    exact fun heq => hne (EncryptBy.attributes.inj heq)
  rw [Producer.ckDataGen_eq abe producer hgiven, handed_of_attributes h]

/-- So are the packets of the producer. -/
theorem direct_eq_directFor (h : call.encryptBy = .attributes attributes)
    (hne : attributes ≠ []) (producer : Producer) (m : ℕ) :
    call.direct abe producer m =
      call.directFor abe producer m ((ascii "|").intercalate attributes) := by
  rw [direct_eq, ckDataGen_eq_keyFor h hne]
  rfl

/-- So is a call of the cache producer. -/
theorem run_eq_runFor (h : call.encryptBy = .attributes attributes) (hne : attributes ≠ []) :
    call.run abe = call.runFor abe ((ascii "|").intercalate attributes) := by
  have hgen : (fun producer : Producer =>
      producer.ckDataGen abe call.encryptBy defaultMaxSegmentSize call.word call.seed) =
      fun producer => producer.keyFor abe (.kpAbe, (ascii "|").intercalate attributes)
        call.encryptBy.component defaultMaxSegmentSize call.word call.seed :=
    funext fun producer => ckDataGen_eq_keyFor h hne producer _
  rw [run_eq_produceKept, runFor, hgen]

/-- What is kept for attributes was generated for their joined string. -/
theorem keptFor_of_attributes {c : CacheProducer} (hc : CacheProducer.KeysOfStrings abe c)
    (h : call.encryptBy = .attributes attributes) :
    call.KeptFor abe c ((ascii "|").intercalate attributes) := by
  intro key hkept
  rw [h] at hkept
  exact (hc.kept hkept).2

/-- Whether a call is given a list, in terms of the lists it takes a key for. -/
theorem given_iff {P : Prop} {e : EncryptBy} :
    (P → e.Given) ↔ ∀ attributes, e = .attributes attributes ∧ P → attributes ≠ [] := by
  constructor
  · rintro h attributes ⟨rfl, hP⟩ rfl
    exact h hP rfl
  · rintro h hP rfl
    exact h [] ⟨rfl, hP⟩ rfl

/-- No key is kept for the empty list, so that only a new one can be for it. -/
theorem given_kept_iff {c : CacheProducer} (hc : CacheProducer.KeysOfStrings abe c) :
    (c.kept call.encryptBy = none → call.Generates c.producer → call.encryptBy.Given) ↔
      ∀ attributes, call.encryptBy = .attributes attributes ∧ call.TakesKept c →
        attributes ≠ [] := by
  constructor
  · rintro h attributes ⟨hby, hkept | hgenerates⟩
    · obtain ⟨key, hkey⟩ := Option.isSome_iff_exists.mp hkept
      rw [hby] at hkey
      exact (hc.kept hkey).1
    · rintro rfl
      cases hkept : c.kept call.encryptBy with
      | none => exact h hkept hgenerates hby
      | some key =>
        rw [hby] at hkept
        exact (hc.kept hkept).1 rfl
  · intro h _ hgenerates hby
    exact h [] ⟨hby, Or.inr hgenerates⟩ rfl

end ProduceCall

namespace Operation

variable {abe : OpenAbe}

/-- The attribute list that the operation makes a key or a cipher text for, or uses a key that is
kept for. -/
def Uses : Operation abe → List Bytes → Prop
  | .cpPrvKeyGen _ _ attrList _, l => l = attrList
  | .kpContentKeyGen _ attrList _, l => l = attrList
  | .kpEncrypt _ attrList _ _, l => l = attrList
  | .ckDataGen producer call _, l => call.encryptBy = .attributes l ∧ call.Generates producer
  | .produce producer call _, l => call.encryptBy = .attributes l ∧ call.Generates producer
  | .produceKept c _ call, l => call.encryptBy = .attributes l ∧ call.TakesKept c
  | .produceByName producer dataName content _ word seed, l =>
    producer.matched dataName = some (.attributes l) ∧
      ProduceCall.Generates producer ⟨.attributes l, dataName, content, word, seed⟩
  | .produceKeptByName c _ dataName content word seed, l =>
    c.producer.matched dataName = some (.attributes l) ∧
      ProduceCall.TakesKept ⟨.attributes l, dataName, content, word, seed⟩ c
  | .decryptionKeyRequest aa request _ _, l => aa.RequestsFrom request l
  | .certificateData aa keyName data digest keyPacket accepted _ _ _, l =>
    aa.CertifiesFrom keyName data digest keyPacket accepted l

/-- The operation is defined: it reaches no `pop_back` on an empty string. -/
def IsDefined (crypto : Crypto) : Operation abe → Prop
  | .cpPrvKeyGen pubParams masterKey attrList seed =>
    Defined (AbeSupport.cpPrvKeyGen abe pubParams masterKey attrList seed)
  | .kpContentKeyGen pubParams attrList seed =>
    Defined (AbeSupport.kpContentKeyGen abe pubParams attrList seed)
  | .kpEncrypt pubParams attrList plaintext seed =>
    Defined (AbeSupport.kpEncrypt abe pubParams attrList plaintext seed)
  | .ckDataGen producer call m =>
    Defined (producer.ckDataGen abe call.encryptBy m call.word call.seed)
  | .produce producer call m => Defined (call.direct abe producer m)
  | .produceKept c _ call => Defined ((call.run abe).exec c).1
  | .produceByName producer dataName content m word seed =>
    Defined (producer.produce abe dataName content m word seed)
  | .produceKeptByName c _ dataName content word seed =>
    Defined ((CacheProducer.produce abe dataName content word seed).exec c).1
  | .decryptionKeyRequest aa request now seed =>
    Defined ((AttributeAuthority.onDecryptionKeyRequest (CpAttributeAuthority.keyGen abe) crypto
      request now seed).exec aa).1
  | .certificateData aa keyName data digest keyPacket accepted requestRead now seed =>
    Defined ((AttributeAuthority.onCertificateData (CpAttributeAuthority.keyGen abe) crypto keyName
      data digest keyPacket accepted requestRead now seed).exec aa).1

/-- For the attribute list, OpenABE is handed this string: the operation does what it does with
the string in the place of the loop's, and a key that is kept was made for the string. -/
def HandsOver (crypto : Crypto) (l : List Bytes) (s : Bytes) : Operation abe → Prop
  | .cpPrvKeyGen pubParams masterKey attrList seed =>
    AbeSupport.cpPrvKeyGen abe pubParams masterKey attrList seed =
      AbeSupport.prvKeyGen abe .cpAbe pubParams masterKey s seed
  | .kpContentKeyGen pubParams attrList seed =>
    AbeSupport.kpContentKeyGen abe pubParams attrList seed =
      AbeSupport.contentKeyGen abe .kpAbe pubParams s seed
  | .kpEncrypt pubParams attrList plaintext seed =>
    AbeSupport.kpEncrypt abe pubParams attrList plaintext seed = (do
      let key ← AbeSupport.contentKeyGen abe .kpAbe pubParams s seed
      AbeSupport.encrypt abe key plaintext seed)
  | .ckDataGen producer call m =>
    producer.ckDataGen abe call.encryptBy m call.word call.seed =
      producer.keyFor abe (.kpAbe, s) call.encryptBy.component m call.word call.seed
  | .produce producer call m => call.direct abe producer m = call.directFor abe producer m s
  | .produceKept c _ call =>
    (call.run abe).exec c = (call.runFor abe s).exec c ∧ call.KeptFor abe c s
  | .produceByName producer dataName content m word seed =>
    producer.produce abe dataName content m word seed =
      ProduceCall.directFor abe producer ⟨.attributes l, dataName, content, word, seed⟩ m s
  | .produceKeptByName c _ dataName content word seed =>
    (CacheProducer.produce abe dataName content word seed).exec c =
        (ProduceCall.runFor abe ⟨.attributes l, dataName, content, word, seed⟩ s).exec c ∧
      ProduceCall.KeptFor abe ⟨.attributes l, dataName, content, word, seed⟩ c s
  | .decryptionKeyRequest aa request now seed =>
    (AttributeAuthority.onDecryptionKeyRequest (CpAttributeAuthority.keyGen abe) crypto request now
        seed).exec aa =
      (AttributeAuthority.onDecryptionKeyRequest (CpAttributeAuthority.keyGenOf abe s) crypto
        request now seed).exec aa
  | .certificateData aa keyName data digest keyPacket accepted requestRead now seed =>
    (AttributeAuthority.onCertificateData (CpAttributeAuthority.keyGen abe) crypto keyName data
        digest keyPacket accepted requestRead now seed).exec aa =
      (AttributeAuthority.onCertificateData (CpAttributeAuthority.keyGenOf abe s) crypto keyName
        data digest keyPacket accepted requestRead now seed).exec aa

/-- The operation reaches no `pop_back` on an empty string, and what it makes for an attribute list
is made of a string that says exactly that list. -/
def Handled (crypto : Crypto) (op : Operation abe) : Prop :=
  op.IsDefined crypto ∧
    ∀ l, op.Uses l → ∃ s, Analysis.SaysList l s ∧ op.HandsOver crypto l s

/-- The operation comes to no empty attribute list, and to none with the separator in an
attribute. -/
def Guarded (op : Operation abe) : Prop := ∀ l, op.Uses l → l ≠ [] ∧ Analysis.SeparatorFree l

/-- **Which operations are defined.** -/
theorem isDefined_iff (crypto : Crypto) (op : Operation abe) :
    op.IsDefined crypto ↔ ∀ l, op.Uses l → l ≠ [] := by
  cases op with
  | cpPrvKeyGen pubParams masterKey attrList seed =>
    simp only [IsDefined, Uses, forall_eq]
    exact AbeSupport.defined_cpPrvKeyGen_iff abe pubParams masterKey attrList seed
  | kpContentKeyGen pubParams attrList seed =>
    simp only [IsDefined, Uses, forall_eq]
    exact AbeSupport.defined_kpContentKeyGen_iff abe pubParams attrList seed
  | kpEncrypt pubParams attrList plaintext seed =>
    simp only [IsDefined, Uses, forall_eq]
    exact AbeSupport.defined_kpEncrypt_iff abe pubParams attrList plaintext seed
  | ckDataGen producer call m =>
    exact (ProduceCall.defined_ckDataGen_iff abe producer call m).trans ProduceCall.given_iff
  | produce producer call m =>
    exact (ProduceCall.defined_direct_iff abe producer call m).trans ProduceCall.given_iff
  | produceKept c hc call =>
    exact (ProduceCall.defined_run_iff abe call c).trans
      (ProduceCall.given_kept_iff hc.keysOfStrings)
  | produceByName producer dataName content m word seed =>
    refine iff_of_true (Producer.defined_produce abe producer dataName content m word seed) ?_
    rintro l ⟨hmatched, -⟩ rfl
    exact Producer.given_of_matched hmatched rfl
  | produceKeptByName c hc dataName content word seed =>
    refine iff_of_true (CacheProducer.defined_produce abe c dataName content word seed) ?_
    rintro l ⟨hmatched, -⟩ rfl
    exact Producer.given_of_matched hmatched rfl
  | decryptionKeyRequest aa request now seed =>
    have hwp := AttributeAuthority.wp_onDecryptionKeyRequest_result
      (CpAttributeAuthority.keyGen abe) crypto aa request now seed
    show Defined _ ↔ ∀ l, aa.RequestsFrom request l → l ≠ []
    rw [((Prog.wp_silent_iff _ _ aa).mp hwp).1, AttributeAuthority.defined_answer_iff]
    exact AttributeAuthority.defined_keyGen_iff abe aa seed (aa.RequestsFrom request)
  | certificateData aa keyName data digest keyPacket accepted requestRead now seed =>
    have hwp := AttributeAuthority.wp_onCertificateData_result
      (CpAttributeAuthority.keyGen abe) crypto aa keyName data digest keyPacket accepted requestRead
      now seed
    show Defined _ ↔ ∀ l, aa.CertifiesFrom keyName data digest keyPacket accepted l → l ≠ []
    rw [(Prog.wp_silent_iff _ _ aa).mp hwp, AttributeAuthority.defined_certify_iff]
    exact AttributeAuthority.defined_keyGen_iff abe aa seed
      (aa.CertifiesFrom keyName data digest keyPacket accepted)

/-- **What OpenABE is handed** for a list that is not empty are its attributes with the separator
between them. -/
theorem handsOver_intercalate (crypto : Crypto) (op : Operation abe) {l : List Bytes}
    (huses : op.Uses l) (hne : l ≠ []) :
    op.HandsOver crypto l ((ascii "|").intercalate l) := by
  cases op with
  | cpPrvKeyGen pubParams masterKey attrList seed =>
    cases huses
    rw [HandsOver, AbeSupport.cpPrvKeyGen, policyString_eq hne]
    rfl
  | kpContentKeyGen pubParams attrList seed =>
    cases huses
    rw [HandsOver, AbeSupport.kpContentKeyGen, policyString_eq hne]
    rfl
  | kpEncrypt pubParams attrList plaintext seed =>
    cases huses
    rw [HandsOver, AbeSupport.kpEncrypt, policyString_eq hne]
    rfl
  | ckDataGen producer call m => exact ProduceCall.ckDataGen_eq_keyFor huses.1 hne producer m
  | produce producer call m => exact ProduceCall.direct_eq_directFor huses.1 hne producer m
  | produceKept c hc call =>
    refine ⟨?_, ProduceCall.keptFor_of_attributes hc.keysOfStrings huses.1⟩
    rw [ProduceCall.run_eq_runFor huses.1 hne]
  | produceByName producer dataName content m word seed =>
    rw [HandsOver, Producer.produce_of_matched huses.1]
    exact ProduceCall.direct_eq_directFor rfl hne producer m
  | produceKeptByName c hc dataName content word seed =>
    refine ⟨?_, ProduceCall.keptFor_of_attributes hc.keysOfStrings rfl⟩
    rw [CacheProducer.exec_produce, huses.1]
    dsimp only
    rw [ProduceCall.run_eq_runFor rfl hne]
  | decryptionKeyRequest aa request now seed =>
    refine AttributeAuthority.exec_onDecryptionKeyRequest_congr _ fun token htoken => ?_
    obtain rfl := huses.unique htoken
    exact CpAttributeAuthority.keyGen_eq abe hne _ _ seed
  | certificateData aa keyName data digest keyPacket accepted requestRead now seed =>
    refine AttributeAuthority.exec_onCertificateData_congr _ fun token htoken => ?_
    obtain rfl := huses.unique htoken
    exact CpAttributeAuthority.keyGen_eq abe hne _ _ seed

end Operation

namespace Analysis

/-- **Which operations handle their attribute lists.**  A public operation reaches no `pop_back` on
an empty string, and makes what it makes for exactly the list it was given, if and only if it comes
to no empty list and to none with the separator in an attribute; `produce` by data name comes to
no empty list at all. -/
theorem operation_isHandled_iff (abe : OpenAbe) (crypto : Crypto) (op : Operation abe) :
    op.Handled crypto ↔ op.Guarded := by
  rw [Operation.Handled, Operation.isDefined_iff]
  constructor
  · rintro ⟨hne, hsays⟩ l huses
    obtain ⟨s, hs, -⟩ := hsays l huses
    exact ⟨hne l huses, hs.separatorFree⟩
  · intro hguarded
    refine ⟨fun l huses => (hguarded l huses).1, fun l huses => ?_⟩
    obtain ⟨hne, hfree⟩ := hguarded l huses
    exact ⟨_, saysList_intercalate hne hfree, op.handsOver_intercalate crypto huses hne⟩

/-- The authority `/a` with an empty attribute list for the consumer, whose certificate it has. -/
def emptyListAuthority : CpAttributeAuthority :=
  AttributeAuthority.run (CpAttributeAuthority.keyGen mockAbe) mockCrypto freshAuthority
    [.addNewPolicyCert consumerCert []]

/-- A request of that consumer, and the encryption for an empty list, reach the `pop_back`; the
encryption for the one attribute `x|admin` is that for `x` and `admin`. -/
theorem emptyList_isUndefined :
    ((AttributeAuthority.onDecryptionKeyRequest (CpAttributeAuthority.keyGen mockAbe) mockCrypto
      consumerRequest 5 4).exec emptyListAuthority).1 = .error .undefined ∧
    AbeSupport.kpEncrypt mockAbe ⟨[1]⟩ [] (ascii "hi") 4 = .error .undefined ∧
    ∃ cipherText, AbeSupport.kpEncrypt mockAbe ⟨[1]⟩ [ascii "x|admin"] (ascii "hi") 4 =
        .ok cipherText ∧
      AbeSupport.kpEncrypt mockAbe ⟨[1]⟩ [ascii "x", ascii "admin"] (ascii "hi") 4 =
        .ok cipherText := by
  exact ⟨by decide, rfl, _, rfl, rfl⟩

end Analysis

end NacAbe
