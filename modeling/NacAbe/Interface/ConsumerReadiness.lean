import NacAbe.Interface.ConsumerReports
import NacAbe.Interface.ParamExchange

/-!
# How a consumer becomes ready

A consumer can decrypt once it has the public parameters with the ABE type and a
decryption key.  `run_preparation` is the run that gets it both, for any authority:
the parameters arrive and pass the validator, the application asks for the key by an
Interest that can be made, the key arrives and the TPM opens it.
-/

set_option autoImplicit false

namespace NacAbe.Consumer

/-- A consumer that has fetched parameters and a key and has done nothing else. -/
def prepared (c : Consumer) (abeType : AbeType) (pubParams : PublicParams) (key : PrivateKey) :
    Consumer :=
  { c with
    m_paramFetcher := { c.m_paramFetcher with
      m_abeType := abeType
      m_pubParamsCache := pubParams }
    m_keyCache := key }

/-- The Interest for the consumer's decryption key. -/
def keyInterestName (c : Consumer) : Name :=
  decryptionKeyName c.m_attrAuthorityPrefix (c.m_cert.getName.getPrefixNeg 2)

/-- The parameters arrive, the key is asked for and arrives. -/
def preparation (c : Consumer) (pubParamData : Data) (keyContent : Bytes) :
    List (System.Act Exn Entry Event) :=
  [.event (.publicParams pubParamData none), .enter .obtainDecryptionKey,
    .event (.keyComplete c.keyInterestName keyContent)]

variable {p : Platform} {c : Consumer}

/-- Parameters of a supported type that pass the validator are taken on. -/
theorem exec_onAttributePubParams (mem : Memory) {fetcher : ParamFetcher} {pubParamData : Data}
    {component : Component} {pubParams : PublicParams}
    (hname : pubParamData.name[fetcher.m_attrAuthorityPrefix.length + 1]? = some component)
    (htype : component.value = abeTypeCpAbe ∨ component.value = abeTypeKpAbe)
    (hparams : PublicParams.fromBuffer mem pubParamData.content = .ok pubParams) :
    ((ParamFetcher.onAttributePubParams mem pubParamData none).exec fetcher).2 =
      { fetcher with m_abeType := component.value, m_pubParamsCache := pubParams } := by
  rw [ParamFetcher.exec_onAttributePubParams]
  simp only [ParamFetcher.received, ParamFetcher.typeComponent, hname,
    if_pos (show ParamFetcher.Supported component.value from htype), hparams]

/-- The key is asked for and arrives. -/
theorem run_obtainDecryptionKey {keyContent prvBlock : Bytes} {block : Block} {prvKey : PrivateKey}
    (hrequest : c.keyInterestName.Requestable) (hblock : Block.ofBuffer keyContent = .ok block)
    (hkey : decryptDataContentTpm p.crypto block c.m_cert.getName = .ok prvBlock)
    (hprv : PrivateKey.fromBuffer p.mem prvBlock = .ok prvKey) :
    (system p).run ⟨c, []⟩ [.enter .obtainDecryptionKey,
      .event (.keyComplete c.keyInterestName keyContent)] =
      some ⟨{ c with m_keyCache := prvKey }, []⟩ := by
  have hcert : extractKeyNameFromCertName c.m_cert.getName =
      .ok (c.m_cert.getName.getPrefixNeg 2) := if_pos c.m_cert.valid
  have hinterest : Interest.ofName (decryptionKeyName c.m_attrAuthorityPrefix
      (c.m_cert.getName.getPrefixNeg 2)) = .ok ⟨c.keyInterestName, false, none, none⟩ :=
    if_pos hrequest
  have hasked : (system p).step ⟨c, []⟩ (.enter .obtainDecryptionKey) =
      some ⟨{ c with keyFetches := c.keyInterestName :: c.keyFetches }, []⟩ := by
    simp only [System.step, system, Entry.program, obtainDecryptionKey, System.start_get_bind,
      hcert, hinterest, System.start_ok_bind, System.start_modify]
  simp only [System.run, hasked, Option.bind_some]
  simp [System.step, system, Event.enabled, Event.program, onKeyComplete, hblock, hkey, hprv]

/-- **A run that makes a consumer ready.** -/
theorem run_preparation {pubParamData : Data} {component : Component} {keyContent prvBlock : Bytes}
    {block : Block} {pubParams : PublicParams} {prvKey : PrivateKey}
    (hname : pubParamData.name[c.m_paramFetcher.m_attrAuthorityPrefix.length + 1]? =
      some component)
    (htype : component.value = abeTypeCpAbe ∨ component.value = abeTypeKpAbe)
    (hparams : PublicParams.fromBuffer p.mem pubParamData.content = .ok pubParams)
    (hrequest : c.keyInterestName.Requestable) (hblock : Block.ofBuffer keyContent = .ok block)
    (hkey : decryptDataContentTpm p.crypto block c.m_cert.getName = .ok prvBlock)
    (hprv : PrivateKey.fromBuffer p.mem prvBlock = .ok prvKey) :
    (system p).run ⟨c, []⟩ (c.preparation pubParamData keyContent) =
      some ⟨c.prepared component.value pubParams prvKey, []⟩ := by
  have htaken : (system p).step ⟨c, []⟩ (.event (.publicParams pubParamData none)) =
      some ⟨c.prepared component.value pubParams c.m_keyCache, []⟩ := by
    have hexec := exec_onAttributePubParams p.mem hname htype hparams
    change some (System.start (modify _ : ConsumerM Unit) c []) = _
    rw [System.start_modify, hexec]
    rfl
  rw [preparation, System.run, htaken, Option.bind_some]
  exact run_obtainDecryptionKey (c := c.prepared _ _ _) hrequest hblock hkey hprv

/-! ## A ready consumer

The consumer of `/c`, whose authority is `/a`, with the key for the attribute "x". -/

/-- The instances that can be run, with nothing behind a buffer and no iterator that
becomes invalid. -/
def mockPlatform : Platform := ⟨mockAbe, ⟨fun _ => []⟩, mockCrypto, id⟩

def fresh : Consumer :=
  .initial (.sample (ascii "c") [9]) (.sample (ascii "a") [8])
    ParamFetcher.defaultInterestTemplate

def ready : Consumer := fresh.prepared abeTypeCpAbe ⟨[1]⟩ ⟨ascii "x"⟩

/-- The parameters as the authority publishes them. -/
def pubParamsData : Data :=
  ⟨[Component.generic (ascii "a"), publicParamsComponent, Component.generic abeTypeCpAbe],
    [1, 0]⟩

/-- The key as the authority encrypts it. -/
def keyBlock : Block :=
  ((Block.pushBack ⟨tlvContent, []⟩
    ⟨tlvEncryptedContent, MockAbe.enclose [4] (ascii "x" ++ [0])⟩).pushBack
    ⟨tlvEncryptedAesKey, MockAbe.enclose [9] [4]⟩).pushBack ⟨tlvInitialVector, [4]⟩

theorem run_ready : (system mockPlatform).run ⟨fresh, []⟩
    (fresh.preparation pubParamsData keyBlock.encode) = some ⟨ready, []⟩ := by
  have hname : pubParamsData.name[fresh.m_paramFetcher.m_attrAuthorityPrefix.length + 1]? =
      some (Component.generic abeTypeCpAbe) := rfl
  have hblock : Block.ofBuffer keyBlock.encode = .ok keyBlock := rfl
  have hkey : decryptDataContentTpm mockPlatform.crypto keyBlock fresh.m_cert.getName =
      .ok (ascii "x" ++ [0]) := rfl
  exact run_preparation hname (Or.inl rfl) rfl (by decide) hblock hkey rfl

/-- Whatever is allowed, a run may begin like this if each of its steps is allowed. -/
theorem reaches_ready {ok : System.Config Consumer Exn Invocation →
      System.Act Exn Entry Event → Prop}
    (hparams : ∀ d, ok d (.event (.publicParams pubParamsData none)))
    (hask : ∀ d, ok d (.enter .obtainDecryptionKey))
    (hkey : ∀ d, ok d (.event (.keyComplete fresh.keyInterestName keyBlock.encode))) :
    (system mockPlatform).Reaches ok ⟨fresh, []⟩ ⟨ready, []⟩ := by
  refine System.reaches_of_run ?_ run_ready
  intro d a ha
  simp only [preparation, List.mem_cons, List.not_mem_nil, or_false] at ha
  rcases ha with rfl | rfl | rfl
  · exact hparams d
  · exact hask d
  · exact hkey d

/-- A content key name of the producer `/p`. -/
def ckName : Name := [Component.generic (ascii "p"), contentKeyComponent,
  Component.generic (ascii "1")]

def cipherText : CipherText := ⟨default, MockAbe.enclose [4] (ascii "hi") ++ [0], 2⟩

/-- Content that names it. -/
def contentBlock : Block := cipherText.makeDataContent.pushBack ckName.wireEncode

/-- The key that the content of `ckName` is encrypted with, for the attribute "x". -/
def ckBlock : Block :=
  Block.pushBack ⟨tlvContent, []⟩ ⟨tlvEncryptedAesKey, MockAbe.enclose (ascii "x") [4] ++ [0]⟩

theorem carriesKey_ckBlock :
    CarriesKey ckBlock.encode (MockAbe.enclose (ascii "x") [4] ++ [0]) := by
  have hblock : Block.ofBuffer ckBlock.encode = .ok ckBlock := rfl
  have hget : Block.get ckBlock tlvEncryptedAesKey =
      .ok ⟨tlvEncryptedAesKey, MockAbe.enclose (ascii "x") [4] ++ [0]⟩ := by decide +kernel
  exact ⟨ckBlock, _, hblock, hget, rfl⟩

/-- The consumer after one `consume` of that content: it waits for the content key. -/
def waitingConsumer : Consumer :=
  startCkFetch ckName (queue ckName ⟨cipherText, ⟨0, true, true⟩⟩
    { ready with nextCall := 1, accepted := [0], m_ckInterestsSent := {ckName} })

theorem reaches_waitingConsumer {ok : System.Config Consumer Exn Invocation →
      System.Act Exn Entry Event → Prop}
    (hparams : ∀ d, ok d (.event (.publicParams pubParamsData none)))
    (hask : ∀ d, ok d (.enter .obtainDecryptionKey))
    (hkey : ∀ d, ok d (.event (.keyComplete fresh.keyInterestName keyBlock.encode)))
    (hconsume : ok ⟨ready, []⟩ (.enter (.consumeBlock contentBlock true true))) :
    (system mockPlatform).Reaches ok ⟨fresh, []⟩ ⟨waitingConsumer, []⟩ :=
  (reaches_ready hparams hask hkey).step hconsume
    (a := .enter (.consumeBlock contentBlock true true)) rfl

end NacAbe.Consumer
