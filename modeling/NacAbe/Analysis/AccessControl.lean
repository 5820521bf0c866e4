import NacAbe.Analysis.Deployment
import NacAbe.Analysis.KeyDelivery

/-!
# Who reads what

A plaintext that a consumer reports has passed through all four parties: the owner issued a
command for a prefix of its name, the producer encrypted it under the value of that command,
the authority holds a token for the consumer's identity, and a key made of that token opens
it.  `Setting.Enforces` is what OpenABE adds: such a key opens nothing but what its token is
granted.
-/

set_option autoImplicit false

namespace NacAbe.Analysis

open NacAbe AttributeAuthority PolicyExchange Producer

variable {Token : Type}

namespace Setting

/-- OpenABE opens with a key made of a token only what is encrypted under commands that the token
is granted. -/
def Enforces (s : Setting Token) (Grants : Token → PolicyCommand → Prop) : Prop :=
  ∀ (pubParams : PublicParams) (masterKey : MasterKey) (token : Token) (seed : ℕ)
    (prvKey : PrivateKey) (P : Production s.platform.abe) (command : PolicyCommand),
    s.keyGen pubParams masterKey token seed = .ok prvKey → EncryptedUnder P command →
    P.OpenedBy prvKey → Grants token command

variable {s : Setting Token} {D : Deployment s.platform.abe Token}

/-- A certificate that the authority knows of is genuine. -/
theorem certifies_of_known {events : List (AttributeAuthority.Event Token)}
    (hgenuine : ∀ e ∈ events, s.Genuine e) {aa : AttributeAuthority Token} {cert : Certificate}
    (h : KnownCertificate events aa cert) : s.Certifies cert := by
  rcases h with ⟨token, hadd⟩ | ⟨keyName, digest, keyPacket, requestRead, now, seed, hdata, -, -⟩
  · exact hgenuine _ hadd
  · exact hgenuine _ hdata rfl cert rfl

/-- **A key for the consumer's public key was made of the token of its identity.** -/
theorem Kept.keyFor (h : s.Kept D) {g : Generation} (hg : g ∈ generations D.authority.log)
    (hpublic : g.cert.getPublicKey = s.consumerCert.getPublicKey) :
    ∃ token, D.authority.KeyFor s.keyGen s.consumerCert.getIdentity token g.prvKey := by
  obtain ⟨events, hgenuine, hrun⟩ := h.served
  have hisolated : Isolated s.keyGen events D.authority g := by
    have hiso : KeyIsolation s.keyGen events D.authority := by
      rw [hrun]
      exact run_keyIsolation _ _ _ _ _ _ _
    exact hiso.isolated g hg
  obtain ⟨token, -, hfor⟩ := hisolated.generatedFor
  have hidentity := certifies_of_known hgenuine hisolated.known hpublic
  exact ⟨token, hidentity ▸ hfor⟩

/-- The empty key opens nothing. -/
theorem Assumed.ne_of_opened (hs : s.Assumed) {P : Production s.platform.abe} {prvKey : PrivateKey}
    (h : P.OpenedBy prvKey) : prvKey ≠ ⟨[]⟩ := by
  rintro rfl
  obtain ⟨context, pubParams, aesKey, hopened⟩ := h
  rw [AbeSupport.decryptKey, hs.emptyKey] at hopened
  split at hopened
  · cases hopened
  · cases hopened

end Setting

/-- **What a consumer reports it was granted.**  In every interleaving of the authority, the
owner, the producer and the consumer, whatever the network loses, repeats and reorders, a
plaintext that is reported to a call of `consume` is the plaintext of a publication that was
handed over for that call.  It was encrypted under a command that the owner issued for a prefix
of its name, and opened with a key that the authority made of the token it holds for the
consumer's identity, which is granted that command. -/
theorem success_isGranted (s : Setting Token) (hs : s.Assumed)
    (Grants : Token → PolicyCommand → Prop) (henforced : s.Enforces Grants)
    (D : Deployment s.platform.abe Token) (hreach : s.Reachable D) (id : ℕ) (plain : Bytes)
    (hsuccess : .success id plain ∈ D.consumer.st.invoked) :
    ∃ pub sent token prvKey, (id, pub) ∈ D.handed ∧ plain = pub.production.plaintext ∧
      sent ∈ issued D.exchange.owner ∧
      sent.command.command.dataPrefix <+: pub.dataNameSuffix ∧
      EncryptedUnder pub.production sent.command.command ∧
      D.authority.KeyFor s.keyGen s.consumerCert.getIdentity token prvKey ∧
      pub.production.OpenedBy prvKey ∧ Grants token sent.command.command := by
  obtain ⟨h, hreaches⟩ := s.supply_of_reachable hs hreach
  have hinitial : (s.supply D h).Honest s.initial.consumer.st :=
    Supply.honest_initial _ _ _ rfl (Or.inl rfl)
  have hhonest := Supply.honest_of_reaches hs.abe hinitial hreaches
  obtain ⟨P, ⟨pub, hpub, rfl⟩, hplain, prvKey, hkey, hopened⟩ := hhonest.reported id plain hsuccess
  obtain ⟨sent, hsent, hprefix, hunder⟩ := h.published pub (h.handed _ hpub)
  rcases hkey with hempty | ⟨g, hg, hpublic, rfl⟩
  · exact absurd hempty (hs.ne_of_opened hopened)
  · obtain ⟨token, hfor⟩ := h.keyFor hg hpublic
    obtain ⟨seed, hgenerated⟩ := hfor.key_eq
    exact ⟨pub, sent, token, g.prvKey, hpub, hplain, hsent, hprefix, hunder, hfor, hopened,
      henforced _ _ _ _ _ _ _ hgenerated hunder hopened⟩

/-! ## A run -/

/-- The authority `/a`, the owner `/o`, the producer `/p` and the consumer `/c`. -/
def exampleSetting : Setting (List Bytes) where
  platform := Consumer.mockPlatform
  keyGen := CpAttributeAuthority.keyGen mockAbe
  signer := exampleSigner
  auth := exampleAuth
  authorityCert := authorityCert
  ownerCert := .sample (ascii "o") [3]
  producerCert := .sample (ascii "p") [1]
  consumerCert := consumerCert
  template := ParamFetcher.defaultInterestTemplate
  abeType := abeTypeCpAbe
  maxSegmentSize := 1500
  keys := (⟨[1]⟩, ⟨[2]⟩)

/-- The attributes spell the policy. -/
def Spells (attrs : List Bytes) : PolicyCommand → Prop
  | .policy _ policy => policyString attrs = .ok policy
  | .attributes _ attrs' => policyString attrs' = policyString attrs

open MockAbe in
theorem assumed_exampleSetting : exampleSetting.Assumed where
  abe := mockAbe_lawful
  emptyKey _ _ := rfl
  crypto := mockCrypto_lawful
  tpm := by
    refine ⟨?_⟩
    rintro publicKey' payload seed _ opened ⟨⟩ hopened
    exact ⟨(label_of_disclose hopened).symm, disclose_enclose hopened⟩

open MockAbe in
/-- Its scheme opens with a key only what is encrypted under the attribute the key spells. -/
theorem enforces_spells : exampleSetting.Enforces Spells := by
  intro pubParams masterKey attrs seed prvKey P command hgenerated hunder hopened
  obtain ⟨joined, hjoined, hkey⟩ := bind_eq_ok.mp hgenerated
  obtain rfl : ⟨joined⟩ = prvKey := Except.ok.inj hkey
  -- The label of what the key opens is the key.
  have hlabel : ∀ {context pub policyOrAttribute aesKey seed},
      mockAbe.encrypt context pub policyOrAttribute aesKey seed = some P.encrypted →
      joined = policyOrAttribute := by
    intro context pub policyOrAttribute aesKey seed hencrypt
    obtain ⟨context', pubParams', aesKey', hopened⟩ := hopened
    rw [AbeSupport.decryptKey] at hopened
    split_ifs at hopened
    rw [← Option.some.inj hencrypt] at hopened
    split at hopened
    · cases hopened
    · cases hopened
    · next hdisclosed => exact label_of_disclose (Option.some.inj hdisclosed)
  cases command with
  | policy dataPrefix policy =>
    obtain ⟨pub, aesKey, seed, hencrypt⟩ := hunder
    rw [Spells, hjoined, hlabel hencrypt]
  | attributes dataPrefix attrs' =>
    obtain ⟨joined', pub, aesKey, seed, hjoined', hencrypt⟩ := hunder
    rw [Spells, hjoined, hjoined', hlabel hencrypt]

def contentKeyExample : ContentKey := ⟨[4], MockAbe.enclose (ascii "x") [4] ++ [0]⟩

def ckDataExample : List Data :=
  [⟨[Component.generic (ascii "p"), contentKeyComponent, Component.generic (ascii "1"),
    encryptByComponent, Component.generic (ascii "x"), Component.fromSegment 0],
    contentKeyExample.makeCKContent.encode⟩]

def dataExample : List Data :=
  [⟨[Component.generic (ascii "p"), Component.generic (ascii "d"), Component.fromSegment 0],
    (dataContent contentKeyExample (contentKeyName ckDataExample)
      (MockAbe.enclose [4] (ascii "hi")) (ascii "hi")).encode⟩]

/-- What `/p` makes of "hi" under the policy `x`. -/
def publicationExample : Publication mockAbe where
  production :=
    { cert := .sample (ascii "p") [1]
      content := ascii "hi"
      data := dataExample
      ckData := ckDataExample
      key := contentKeyExample
      encrypted := MockAbe.enclose (ascii "x") [4]
      cipher := MockAbe.enclose [4] (ascii "hi")
      made :=
        { encrypt := ⟨.cpAbe, [1], ascii "x", 4, rfl⟩
          buffer := rfl
          segments := ⟨ascii "1", ascii "x", 1500, rfl⟩
          symEncrypt := ⟨4, rfl⟩
          dataSegments := ⟨[Component.generic (ascii "p"), Component.generic (ascii "d")],
            1500, rfl⟩ }
      typed := by decide
      keyFits := by decide
      cipherFits := by decide }
  dataNameSuffix := [Component.generic (ascii "d")]

/-- `/c` is registered and asks for its key, the owner's command takes effect, and "hi" is
published. -/
theorem reachable_publication : ∃ D, exampleSetting.Reachable D ∧
    generations D.authority.log = [keyExample] ∧ D.published = [publicationExample] ∧
    D.consumer = exampleSetting.initial.consumer ∧ D.handed = [] := by
  have hmade : generations (AttributeAuthority.next (CpAttributeAuthority.keyGen mockAbe)
      mockCrypto registeredAuthority (.decryptionKeyRequest consumerRequest 5 4)).log =
        [keyExample] := rfl
  have hnul : ∀ g ∈ [keyExample], (0 : UInt8) ∉ g.prvKey.m_prv :=
    List.forall_mem_singleton.mpr (by decide)
  have hfaithful : ∀ x : PolicyExchange,
      issued x.owner = [⟨policyExample, interestFor policyExample⟩] →
      x.producer.m_paramFetcher.m_abeType = abeTypeCpAbe →
      Faithful exampleAuth x (.deliverInterest (interestFor policyExample)) := by
    intro x hissued hmode _
    refine ⟨_, hissued ▸ List.mem_singleton_self _, rfl, ?_⟩
    rintro ⟨hkp, -⟩
    rw [hmode] at hkp
    exact absurd hkp (by decide)
  have hstart : exampleSetting.Reachable exampleSetting.initial := .refl
  have hregistered := hstart.tail (.authority (.addNewPolicyCert consumerCert [ascii "x"])
    (fun _ => rfl) (List.forall_mem_nil _))
  have hkey := hregistered.tail
    (.authority (.decryptionKeyRequest consumerRequest 5 4) trivial hnul)
  have hparams := hkey.tail (.exchange cpParams trivial)
  have hcommand := hparams.tail (.exchange (.command policyExample 0) rfl)
  have hinstalled := hcommand.tail
    (.exchange (.deliverInterest (interestFor policyExample)) (hfaithful _ rfl rfl))
  exact ⟨_, hinstalled.tail (.publish publicationExample 1500 1 4 rfl (List.forall_mem_nil _)),
    hmade, rfl, rfl, rfl⟩

section

open Consumer

/-- `/c` with the parameters, before its key. -/
def keylessConsumer : Consumer := fresh.prepared abeTypeCpAbe ⟨[1]⟩ ⟨[]⟩

/-- `/c` once it has been handed the content. -/
def waitingExample : Consumer :=
  let ckName := publicationExample.production.ckName
  startCkFetch ckName (queue ckName ⟨publicationExample.production.cipherText, ⟨0, true, true⟩⟩
    { ready with nextCall := 1, accepted := [0], m_ckInterestsSent := {ckName} })

theorem step_ready : (system mockPlatform).step
    ⟨{ keylessConsumer with keyFetches := [fresh.keyInterestName] }, []⟩
    (.event (.keyComplete fresh.keyInterestName (reassemble keyExample.dkSegments))) =
      some ⟨ready, []⟩ := rfl

theorem step_waitingExample {dataBlock : Block}
    (h : Block.ofBuffer (reassemble dataExample) = .ok dataBlock) :
    (system mockPlatform).step ⟨ready, []⟩ (.enter (.consumeBlock dataBlock true true)) =
      some ⟨waitingExample, []⟩ := by
  cases h
  rfl

theorem step_success : ∃ d, (system mockPlatform).step ⟨waitingExample, []⟩
    (.event (.ckComplete publicationExample.production.ckName (reassemble ckDataExample))) =
      some d ∧ d.st.invoked = [.success 0 (ascii "hi")] := ⟨_, rfl, rfl⟩

end

/-- `/c` consumes it. -/
theorem reachable_success : ∃ D, exampleSetting.Reachable D ∧
    .success 0 (ascii "hi") ∈ D.consumer.st.invoked := by
  obtain ⟨D, hreach, hkeys, hpublished, hconsumer, hhanded⟩ := reachable_publication
  obtain ⟨authority, exchange, published, consumer, handed⟩ := D
  dsimp only at hkeys hpublished hconsumer hhanded
  subst hpublished hconsumer hhanded
  obtain ⟨told, hstep, hinvoked⟩ := step_success
  have hparams := hreach.tail (.consumer _ [] (.publicParams Consumer.pubParamsData none)
    ⟨keylessConsumer, []⟩ rfl)
  have hask := hparams.tail (.consumer _ [] .askKey
    ⟨{ keylessConsumer with keyFetches := [Consumer.fresh.keyInterestName] }, []⟩ rfl)
  have hkey := hask.tail (.consumer _ [] (.decryptionKey keyExample
    (hkeys ▸ List.mem_singleton_self _) Consumer.fresh.keyInterestName) _ step_ready)
  have hconsume := hkey.tail (.consumer _ _ (.block publicationExample (List.mem_singleton_self _)
    _ rfl true true) _ (step_waitingExample rfl))
  have htold := hconsume.tail (.consumer _ [] (.contentKey (s := exampleSetting) publicationExample
    (List.mem_singleton_self _)) told hstep)
  exact ⟨_, htold, hinvoked ▸ List.mem_singleton_self _⟩

/-- A run that ends with a success, and what granted it. -/
theorem success_isGranted_example : ∃ D : Deployment mockAbe (List Bytes),
    exampleSetting.Reachable D ∧
    ∃ pub sent token prvKey, (0, pub) ∈ D.handed ∧ ascii "hi" = pub.production.plaintext ∧
      sent ∈ issued D.exchange.owner ∧
      sent.command.command.dataPrefix <+: pub.dataNameSuffix ∧
      EncryptedUnder pub.production sent.command.command ∧
      D.authority.KeyFor exampleSetting.keyGen consumerCert.getIdentity token prvKey ∧
      pub.production.OpenedBy prvKey ∧ Spells token sent.command.command := by
  obtain ⟨D, hreach, hsuccess⟩ := reachable_success
  exact ⟨D, hreach, success_isGranted exampleSetting assumed_exampleSetting Spells
    enforces_spells D hreach 0 (ascii "hi") hsuccess⟩

end NacAbe.Analysis
