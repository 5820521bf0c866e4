import NacAbe.Analysis.KeyObjectNames
import NacAbe.Interface.KeyRequests

/-!
# DKEY requests that make an authority throw

The base handler ignores what it cannot use: it asks `isValidKeyName` and has an `else` branch
for the rest.  The derived handlers run before it and ask nothing
(attribute-authority.cpp:202-203 and 247-248): they take the component, decode it and extract an
identity, and each of these steps throws on a name that is not a request.  Behind the checks the
token is looked up with `at` under the identity of the certificate that was found or fetched,
which need not be the one the check was made for (attribute-authority.cpp:188 and 234); and where
there is no certificate, an Interest for one cannot have every key name (trust-config.cpp:88).
-/

set_option autoImplicit false

namespace NacAbe.Analysis

open NacAbe AttributeAuthority

variable {Token : Type} (keyGen : KeyGen Token) (crypto : Crypto)

/-- The component behind `/<aa>/DKEY` carries this key name. -/
def CarriesKeyName (rest keyName : Name) : Prop :=
  (∃ c, rest[0]? = some c ∧ c.CarriesName keyName) ∧ isValidKeyName keyName = true

/-- The identity of the key name has a token. -/
def HasToken (aa : AttributeAuthority Token) (keyName : Name) : Prop :=
  (aa.m_tokens.find (keyName.getPrefixNeg 2)).isSome = true

/-- A decryption key for the certificate can be made: its identity has a token, a key is
generated from it, encrypted and cut. -/
def CanIssue (aa : AttributeAuthority Token) (objName : Name) (cert : Certificate) (seed : ℕ) :
    Prop :=
  ∃ token prvKey dkBlock dkSegments, aa.m_tokens.find cert.getIdentity = some token ∧
    keyGen aa.m_pubParams aa.m_masterKey token seed = .ok prvKey ∧
    encryptDataContentWithCK crypto prvKey.toBuffer cert.getPublicKey seed = .ok dkBlock ∧
    segment dkBlock.encode objName aa.m_maxSegmentSize = .ok dkSegments

/-- A request that is survived: it carries a key name, and if a key is to be issued at once it
can be, and if a certificate is to be asked for first, an Interest can have the key name. -/
def Survivable (aa : AttributeAuthority Token) (request : Interest) (rest : Name)
    (now seed : ℕ) : Prop :=
  ∃ keyName, CarriesKeyName rest keyName ∧
    (HasToken aa keyName → isSegmentRequest request.name = .ok false →
      (∀ cert, aa.m_trustConfig.findCertificateFromLocal keyName = some cert →
        CanIssue keyGen crypto aa (request.name ++ [Component.fromVersion now]) cert seed) ∧
      (aa.m_trustConfig.findCertificateFromLocal keyName = none → keyName.Requestable))

variable {keyGen crypto} {aa : AttributeAuthority Token} {request : Interest} {rest : Name}

/-! ## Issuing a key -/

/-- A reply returns exactly when a key can be issued. -/
theorem reply_eq_ok_iff (requestName : Name) (cert : Certificate) (now seed : ℕ) :
    reply keyGen crypto aa requestName cert now seed = .ok () ↔
      CanIssue keyGen crypto aa (requestName ++ [Component.fromVersion now]) cert seed := by
  constructor
  · intro h
    obtain ⟨dkSegments, hissue, -⟩ := bind_eq_ok.mp h
    unfold issue at hissue
    split at hissue
    · cases hissue
    · next token htoken =>
      obtain ⟨prvKey, hkey, hrest⟩ := bind_eq_ok.mp hissue
      obtain ⟨dkBlock, hblock, hsegment⟩ := bind_eq_ok.mp hrest
      exact ⟨token, prvKey, dkBlock, dkSegments, htoken, hkey, hblock, hsegment⟩
  · rintro ⟨token, prvKey, dkBlock, dkSegments, htoken, hkey, hblock, hsegment⟩
    simp only [reply, issue, htoken, hkey, hblock, hsegment, ok_bind]
    rfl

/-! ## Requests -/

/-- A name that carries a key name is long enough to be looked at from behind. -/
theorem isSegmentRequest_isOk {requestName : Name} (h : 2 ≤ requestName.length) :
    ∃ segmentRequest, isSegmentRequest requestName = .ok segmentRequest := by
  have hat : ∀ n, 0 < n → n ≤ 2 → ∃ c, requestName.atNeg n = .ok c := by
    intro n hpos hn
    have hlt : requestName.length - n < requestName.length := by omega
    refine ⟨requestName[requestName.length - n], ?_⟩
    rw [Name.atNeg, if_neg (by omega), Name.atPos, List.getElem?_eq_getElem hlt]
  obtain ⟨last, hlast⟩ := hat 1 (by omega) (by omega)
  obtain ⟨previous, hprevious⟩ := hat 2 (by omega) (by omega)
  unfold isSegmentRequest
  rw [hlast, hprevious]
  by_cases hsegment : Component.isSegment last = true
  · exact ⟨Component.isVersion previous, by simp [bind, Except.bind, hsegment, pure, Except.pure]⟩
  · exact ⟨false, by simp [bind, Except.bind, hsegment, pure, Except.pure]⟩

/-- The key name is read from the component behind `DKEY`, if that is a Name block. -/
theorem supposedKeyName_eq_ok_iff (hname : request.name =
      aa.m_cert.getIdentity ++ decryptKeyComponent :: rest) {keyName : Name} :
    supposedKeyName aa request.name = .ok keyName ↔
      ∃ c, rest[0]? = some c ∧ c.CarriesName keyName := by
  rw [supposedKeyName, hname]
  exact Name.carried_append_cons

/-- A request is entitled by the name it carries. -/
theorem entitled_iff (hname : request.name =
      aa.m_cert.getIdentity ++ decryptKeyComponent :: rest) :
    Entitled aa request ↔ ∃ keyName, CarriesKeyName rest keyName ∧ HasToken aa keyName := by
  constructor
  · rintro ⟨keyName, hkeyName, hvalid, htoken⟩
    exact ⟨keyName, ⟨(supposedKeyName_eq_ok_iff hname).mp hkeyName, hvalid⟩, htoken⟩
  · rintro ⟨keyName, ⟨hcarried, hvalid⟩, htoken⟩
    exact ⟨keyName, (supposedKeyName_eq_ok_iff hname).mpr hcarried, hvalid, htoken⟩

/-- **A request is answered without an exception exactly when it is survivable.** -/
theorem answer_eq_ok_iff (hname : request.name =
      aa.m_cert.getIdentity ++ decryptKeyComponent :: rest) (now seed : ℕ) :
    answer keyGen crypto aa request now seed = .ok () ↔
      Survivable keyGen crypto aa request rest now seed := by
  constructor
  · intro h
    obtain ⟨keyName, hkeyName, hrest⟩ := bind_eq_ok.mp h
    obtain ⟨identityName, hidentity, hanswer⟩ := bind_eq_ok.mp hrest
    unfold extractIdentityFromKeyName at hidentity
    split at hidentity
    · next hvalid =>
      cases hidentity
      refine ⟨keyName, ⟨(supposedKeyName_eq_ok_iff hname).mp hkeyName, hvalid⟩, ?_⟩
      intro htoken hobject
      have htoken' : (aa.m_tokens.find (keyName.getPrefixNeg 2)).isSome = true := htoken
      simp only [if_pos htoken', hobject, ok_bind, Bool.false_eq_true, if_false] at hanswer
      constructor
      · intro cert hcert
        rw [hcert] at hanswer
        exact (reply_eq_ok_iff request.name cert now seed).mp hanswer
      · intro hnone
        rw [hnone] at hanswer
        obtain ⟨interest, hinterest, -⟩ := bind_eq_ok.mp hanswer
        by_contra hname
        rw [Interest.ofName, if_neg hname] at hinterest
        cases hinterest
    · cases hidentity
  · rintro ⟨keyName, hcarries, h⟩
    have hkeyName : supposedKeyName aa request.name = .ok keyName :=
      (supposedKeyName_eq_ok_iff hname).mpr hcarries.1
    have hlength : 2 ≤ request.name.length := by
      obtain ⟨c, hc, -⟩ := hcarries.1
      have hrest : 0 < rest.length := by
        by_contra hempty
        rw [List.getElem?_eq_none (by omega)] at hc
        cases hc
      rw [hname, List.length_append, List.length_cons]
      omega
    simp only [answer, hkeyName, ok_bind, extractIdentityFromKeyName, if_pos hcarries.2]
    split
    · next htoken =>
      obtain ⟨segmentRequest, hsegment⟩ := isSegmentRequest_isOk hlength
      rw [hsegment, ok_bind]
      cases segmentRequest with
      | true => rfl
      | false =>
        simp only [Bool.false_eq_true, if_false]
        obtain ⟨hissue, hfetch⟩ := h htoken hsegment
        split
        · next cert hcert => exact (reply_eq_ok_iff _ cert now seed).mpr (hissue cert hcert)
        · next hnone =>
          rw [Interest.ofName, if_pos (hfetch hnone)]
          rfl
    · rfl

/-! ## Certificates from the network -/

/-- A certificate fetch ends without an exception exactly when what it accepts is a certificate
that a key can be issued for. -/
theorem certify_eq_ok_iff (keyName : Name) (data : Data) (digest : Bytes)
    (keyPacket accepted : Bool) (requestRead : Name) (now seed : ℕ) :
    certify keyGen crypto aa keyName data digest keyPacket accepted requestRead now seed = .ok () ↔
      (keyName ∈ aa.fetches → (⟨keyName, true, none, none⟩ : Interest).matchesData data digest →
        accepted = true → ∃ cert, Certificate.ofData data keyPacket = .ok cert ∧
          CanIssue keyGen crypto aa (requestRead ++ [Component.fromVersion now]) cert seed) := by
  unfold certify
  split
  · next hwait =>
    constructor
    · intro h _ _ _
      obtain ⟨cert, hcert, hreply⟩ := bind_eq_ok.mp h
      exact ⟨cert, hcert, (reply_eq_ok_iff requestRead cert now seed).mp hreply⟩
    · intro h
      obtain ⟨cert, hcert, hissues⟩ := h hwait.1.1 hwait.1.2 hwait.2
      rw [hcert, ok_bind]
      exact (reply_eq_ok_iff requestRead cert now seed).mpr hissues
  · next hwait =>
    exact iff_of_true rfl fun hfetch hmatch haccepted =>
      absurd ⟨⟨hfetch, hmatch⟩, haccepted⟩ hwait

/-! ## The result -/

/-- **Which DKEY events are survived.**  For every state of an authority of either kind: a
request under `/<aa>/DKEY` is handled without an exception exactly when it is survivable, and one
that does not carry the key name of an identity with a token changes nothing; the completion of a
certificate fetch is handled without an exception exactly when the accepted packet is a certificate
for which a key can be issued. -/
theorem dkey_handlers_return_iff (keyGen : KeyGen Token) (crypto : Crypto)
    (aa : AttributeAuthority Token) :
    (∀ (request : Interest) (rest : Name) (now seed : ℕ),
      request.name = aa.m_cert.getIdentity ++ decryptKeyComponent :: rest →
      (((onDecryptionKeyRequest keyGen crypto request now seed).exec aa).1 = .ok () ↔
        Survivable keyGen crypto aa request rest now seed) ∧
      ((¬ ∃ keyName, CarriesKeyName rest keyName ∧ HasToken aa keyName) →
        ((onDecryptionKeyRequest keyGen crypto request now seed).exec aa).2 = aa)) ∧
    ∀ (keyName : Name) (data : Data) (digest : Bytes) (keyPacket accepted : Bool)
      (requestRead : Name) (now seed : ℕ),
      ((onCertificateData keyGen crypto keyName data digest keyPacket accepted requestRead now
        seed).exec aa).1 = .ok () ↔
        (keyName ∈ aa.fetches → (⟨keyName, true, none, none⟩ : Interest).matchesData data digest →
          accepted = true → ∃ cert, Certificate.ofData data keyPacket = .ok cert ∧
            CanIssue keyGen crypto aa (requestRead ++ [Component.fromVersion now]) cert seed) := by
  constructor
  · intro request rest now seed hname
    have hwp := wp_onDecryptionKeyRequest_result keyGen crypto aa request now seed
    obtain ⟨hanswer, hstate⟩ := (Prog.wp_silent_iff _ _ _).mp hwp
    constructor
    · rw [hanswer]
      exact answer_eq_ok_iff hname now seed
    · intro hnot
      exact hstate fun hentitled => hnot ((entitled_iff hname).mp hentitled)
  · intro keyName data digest keyPacket accepted requestRead now seed
    have hwp := wp_onCertificateData_result keyGen crypto aa keyName data digest keyPacket accepted
      requestRead now seed
    rw [(Prog.wp_silent_iff _ _ _).mp hwp]
    exact certify_eq_ok_iff keyName data digest keyPacket accepted requestRead now seed

/-- A request with nothing behind `DKEY`. -/
def bareRequest : Interest :=
  ⟨authorityCert.getIdentity ++ [decryptKeyComponent], false, none, none⟩

/-- It is survived exactly when it is survivable, and changes nothing. -/
theorem dkey_handlers_return_iff_of_bare :
    (((onDecryptionKeyRequest (CpAttributeAuthority.keyGen mockAbe) mockCrypto bareRequest 5 4).exec
        freshAuthority).1 = .ok () ↔
      Survivable (CpAttributeAuthority.keyGen mockAbe) mockCrypto freshAuthority bareRequest []
        5 4) ∧
    ((onDecryptionKeyRequest (CpAttributeAuthority.keyGen mockAbe) mockCrypto bareRequest 5 4).exec
      freshAuthority).2 = freshAuthority := by
  have hrequests := (dkey_handlers_return_iff (CpAttributeAuthority.keyGen mockAbe) mockCrypto
    freshAuthority).1
  have hbare := hrequests bareRequest [] 5 4 rfl
  refine ⟨hbare.1, hbare.2 ?_⟩
  rintro ⟨keyName, ⟨⟨c, hc, -⟩, -⟩, -⟩
  cases hc

/-- The authority `/a` that has a token for `/c` and waits for the certificate of its key. -/
def waitingAuthority : CpAttributeAuthority :=
  run (CpAttributeAuthority.keyGen mockAbe) mockCrypto freshAuthority
    [.addNewPolicy consumerCert.getIdentity [ascii "x"], .decryptionKeyRequest consumerRequest 5 4]

/-- A certificate of the identity `/c/KEY/1`, whose name extends that of the key. -/
def otherCert : Data :=
  ⟨consumerCert.getKeyName ++ [keyComponent, Component.generic [1], Component.generic [2],
    Component.fromVersion 0], [9]⟩

/-- A request with nothing behind `DKEY`, and an accepted certificate of another identity than
the one that was asked for: both make the handlers throw. -/
theorem dkey_handlers_throw :
    (¬ ∀ (aa : CpAttributeAuthority) (request : Interest) (rest : Name) (now seed : ℕ),
      request.name = aa.m_cert.getIdentity ++ decryptKeyComponent :: rest →
      ((onDecryptionKeyRequest (CpAttributeAuthority.keyGen mockAbe) mockCrypto request now
        seed).exec aa).1 = .ok ()) ∧
    ¬ ∀ (aa : CpAttributeAuthority) (keyName : Name) (data : Data) (digest : Bytes)
      (requestRead : Name) (now seed : ℕ), keyName ∈ aa.fetches →
      (⟨keyName, true, none, none⟩ : Interest).matchesData data digest = true →
      ((onCertificateData (CpAttributeAuthority.keyGen mockAbe) mockCrypto keyName data digest true
        true requestRead now seed).exec aa).1 = .ok () := by
  constructor
  · intro h
    have hreturns := h freshAuthority bareRequest [] 5 4 rfl
    cases hreturns
  · intro h
    have hfetch : consumerCert.getKeyName ∈ waitingAuthority.fetches := by decide
    have hreturns := h waitingAuthority consumerCert.getKeyName otherCert [] consumerRequest.name 5
      4 hfetch (by decide)
    revert hreturns
    decide

end NacAbe.Analysis
