import NacAbe.Program.CacheProducer
import NacAbe.Program.Consumer

/-!
# What `produce` makes and a consumer reads

`Made` describes the packets of one call of `produce`: the content key packets carry the
buffer of an encrypted key under a name that ends in ENC-BY and what it is encrypted
by, the data packets carry the buffer of an encrypted content and that name.  Every way
to produce makes such packets (`made_of_produces`), and a consumer reads from them what
was put in (`Made.payload_eq`, `Made.encryptedKey_eq`).
-/

set_option autoImplicit false

namespace NacAbe

/-! ## The packets -/

/-- The object name of content key packets. -/
def contentKeyName (ckData : List Data) : Name :=
  match ckData with
  | [] => []
  | first :: _ => first.name.getPrefixNeg 1

/-- The buffer that content key packets carry, as a consumer reads it. -/
def encryptedKey (ckData : List Data) : Except Exn Bytes := do
  let ckBlock ← Block.ofBuffer (reassemble ckData)
  return (← Block.get ckBlock tlvEncryptedAesKey).value

/-- The cipher text and the CK name that data packets carry, as a consumer reads them. -/
def payload (data : List Data) : Except Exn (CipherText × Name) := do
  Consumer.parseContent (← Block.ofBuffer (reassemble data))

/-- A content key and its packets. -/
structure CkMade (abe : OpenAbe) (cert : Certificate) (key : ContentKey) (encrypted : Bytes)
    (ckData : List Data) : Prop where
  encrypt : ∃ scheme pub policyOrAttribute seed,
    abe.encrypt scheme pub policyOrAttribute key.m_aesKey seed = some encrypted
  buffer : key.m_encAesKey = cStrBuffer encrypted
  segments : ∃ word encryptBy maxSegmentSize, segment key.makeCKContent.encode
    (cert.getIdentity ++ [contentKeyComponent, Component.generic word, encryptByComponent,
      Component.generic encryptBy]) maxSegmentSize = .ok ckData

/-- The content block of data that is encrypted with a content key. -/
def dataContent (key : ContentKey) (ckName : Name) (cipher content : Bytes) : Block :=
  (CipherText.makeDataContent ⟨key, cStrBuffer cipher, toUint32 content.length⟩).pushBack
    ckName.wireEncode

/-- The packets of a call of `produce`, with the content key and the two strings that
OpenABE returned. -/
structure Made (abe : OpenAbe) (cert : Certificate) (content : Bytes) (data ckData : List Data)
    (key : ContentKey) (encrypted cipher : Bytes) : Prop
    extends CkMade abe cert key encrypted ckData where
  symEncrypt : ∃ seed,
    abe.symEncrypt key.m_aesKey (content.take (toUint32 content.length)) seed = some cipher
  dataSegments : ∃ name maxSegmentSize,
    segment (dataContent key (contentKeyName ckData) cipher content).encode name maxSegmentSize =
      .ok data

/-! ## What a consumer reads -/

variable {abe : OpenAbe} {cert : Certificate} {content encrypted cipher : Bytes}
  {data ckData : List Data} {key : ContentKey}

/-- The object name of segments is the name they were cut under. -/
theorem contentKeyName_of_segment {buffer : Bytes} {name : Name} {maxSegmentSize : ℕ}
    (h : segment buffer name maxSegmentSize = .ok ckData) : contentKeyName ckData = name := by
  cases ckData with
  | nil => exact absurd rfl (segment_ne_nil h)
  | cons first rest =>
    obtain ⟨i, hi⟩ := name_of_mem_segment h List.mem_cons_self
    rw [contentKeyName, hi, Name.getPrefixNeg_append_singleton]

/-- The CK name is a prefix of the name of every CK packet. -/
theorem CkMade.prefix_name (h : CkMade abe cert key encrypted ckData) :
    ∀ packet ∈ ckData, contentKeyName ckData <+: packet.name := by
  obtain ⟨word, encryptBy, maxSegmentSize, hsegment⟩ := h.segments
  intro packet hpacket
  obtain ⟨i, hi⟩ := name_of_mem_segment hsegment hpacket
  rw [contentKeyName_of_segment hsegment, hi]
  exact List.prefix_append _ _

/-- The CK name does not end with a segment number, so normalising leaves it alone. -/
theorem CkMade.normalizeCkKey_eq (h : CkMade abe cert key encrypted ckData) :
    Consumer.normalizeCkKey (contentKeyName ckData) = contentKeyName ckData := by
  obtain ⟨word, encryptBy, maxSegmentSize, hsegment⟩ := h.segments
  rw [contentKeyName_of_segment hsegment]
  simp [Consumer.normalizeCkKey]

/-- A block whose wire form was segmented is read back from the segments. -/
theorem ofBuffer_reassemble {packets : List Data} {name : Name} {maxSegmentSize : ℕ}
    {es : List Block} (hes : ∀ e ∈ es, 0 < e.type ∧ e.type < 2 ^ 32)
    (h : segment (Tlv.Element.encode ⟨tlvContent, Tlv.encodeAll es⟩) name maxSegmentSize =
      .ok packets) :
    Block.ofBuffer (reassemble packets) = .ok ⟨tlvContent, Tlv.encodeAll es⟩ ∧
      (Tlv.encodeAll es).length < 2 ^ 64 ∧ ∀ e ∈ es, e.Valid := by
  have hlen := length_lt_of_segment h
  have hvalue := Tlv.length_value_le_encode ⟨tlvContent, Tlv.encodeAll es⟩
  have hsmall : (Tlv.encodeAll es).length < 2 ^ 64 := lt_of_le_of_lt hvalue hlen
  refine ⟨?_, hsmall, Tlv.valid_of_encodeAll hes hsmall⟩
  rw [reassemble_segment h]
  have htype : 0 < tlvContent ∧ tlvContent < 2 ^ 32 := by decide
  exact Block.ofBuffer_encode ⟨htype.1, htype.2, hsmall⟩

/-- **A consumer reads the buffer that was put in.** -/
theorem CkMade.encryptedKey_eq (h : CkMade abe cert key encrypted ckData) :
    encryptedKey ckData = .ok key.m_encAesKey := by
  obtain ⟨word, encryptBy, maxSegmentSize, hsegment⟩ := h.segments
  have hblock : key.makeCKContent = ⟨tlvContent, Tlv.encodeAll [⟨tlvEncryptedAesKey,
      key.m_encAesKey⟩]⟩ := by
    simp [ContentKey.makeCKContent, Block.pushBack]
  rw [hblock] at hsegment
  obtain ⟨hbuffer, -, hvalid⟩ := ofBuffer_reassemble (by simp [tlvEncryptedAesKey]) hsegment
  have hfirst : Block.firstOf tlvEncryptedAesKey [⟨tlvEncryptedAesKey, key.m_encAesKey⟩] =
      .ok ⟨tlvEncryptedAesKey, key.m_encAesKey⟩ := rfl
  simp only [encryptedKey, hbuffer, Block.get, Block.elements_encodeAll hvalid, hfirst, bind,
    Except.bind, pure, Except.pure]

/-- The components of the CK name are of possible types. -/
theorem CkMade.type_contentKeyName (h : CkMade abe cert key encrypted ckData)
    (hcert : ∀ c ∈ cert.getName, 0 < c.type ∧ c.type < 2 ^ 32) :
    ∀ c ∈ contentKeyName ckData, 0 < c.type ∧ c.type < 2 ^ 32 := by
  obtain ⟨word, encryptBy, maxSegmentSize, hsegment⟩ := h.segments
  intro c hc
  rw [contentKeyName_of_segment hsegment, List.mem_append] at hc
  rcases hc with hidentity | hrest
  · exact hcert c (List.mem_of_mem_take hidentity)
  · have hgeneric : c.type = tlvGenericNameComponent := by
      simp only [List.mem_cons, List.not_mem_nil, or_false] at hrest
      rcases hrest with rfl | rfl | rfl | rfl <;> rfl
    rw [hgeneric]
    decide

/-- The elements of the content block of a cipher text and a CK name. -/
def contentElements (cipherText : CipherText) (ckName : Name) : List Block :=
  [⟨tlvEncryptedContent, cipherText.m_content⟩,
    ⟨tlvPlainTextSize, Tlv.encodeNonNegative cipherText.m_plainTextSize⟩, ckName.wireEncode]

theorem makeDataContent_pushBack (cipherText : CipherText) (ckName : Name) :
    cipherText.makeDataContent.pushBack ckName.wireEncode =
      ⟨tlvContent, Tlv.encodeAll (contentElements cipherText ckName)⟩ := by
  simp [CipherText.makeDataContent, Block.pushBack, contentElements]

/-- A consumer reads from a content block what was written to it, the content key apart. -/
theorem parseContent_contentElements {cipherText : CipherText} {ckName : Name}
    (hsize : cipherText.m_plainTextSize < 2 ^ 32)
    (hvalid : ∀ e ∈ contentElements cipherText ckName, e.Valid) (hname : ∀ c ∈ ckName, c.Valid) :
    Consumer.parseContent ⟨tlvContent, Tlv.encodeAll (contentElements cipherText ckName)⟩ =
      .ok ({ cipherText with m_contentKey := default }, ckName) := by
  have hread : Block.readNonNegativeInteger
      ⟨tlvPlainTextSize, Tlv.encodeNonNegative cipherText.m_plainTextSize⟩ =
        .ok cipherText.m_plainTextSize := by
    have h64 : cipherText.m_plainTextSize < 2 ^ 64 := by omega
    simp [Block.readNonNegativeInteger, Tlv.readNonNegative_encode h64]
  have hfirst : Block.firstOf tlvEncryptedContent (contentElements cipherText ckName) =
      .ok ⟨tlvEncryptedContent, cipherText.m_content⟩ := rfl
  have hsecond : Block.firstOf tlvPlainTextSize (contentElements cipherText ckName) =
      .ok ⟨tlvPlainTextSize, Tlv.encodeNonNegative cipherText.m_plainTextSize⟩ := rfl
  have hthird : Block.firstOf tlvName (contentElements cipherText ckName) =
      .ok ckName.wireEncode := rfl
  simp only [Consumer.parseContent, Block.elements_encodeAll hvalid, hfirst, hsecond, hthird, hread,
    Name.ofBlock_wireEncode hname, toUint32_of_lt hsize, bind, Except.bind, pure, Except.pure]

/-- **A consumer reads the cipher text and the CK name that were put in.** -/
theorem Made.payload_eq (h : Made abe cert content data ckData key encrypted cipher)
    (hcert : ∀ c ∈ cert.getName, 0 < c.type ∧ c.type < 2 ^ 32) :
    payload data = .ok (⟨default, cStrBuffer cipher, toUint32 content.length⟩,
      contentKeyName ckData) := by
  obtain ⟨name, maxSegmentSize, hsegment⟩ := h.dataSegments
  have hsize : toUint32 content.length < 2 ^ 32 := Nat.mod_lt _ (by decide)
  rw [dataContent, makeDataContent_pushBack] at hsegment
  obtain ⟨hbuffer, -, hvalid⟩ := ofBuffer_reassemble
    (by simp [contentElements, tlvEncryptedContent, tlvPlainTextSize, tlvName, Name.wireEncode])
    hsegment
  have hwire : (contentKeyName ckData).wireEncode.Valid := hvalid _ (by simp [contentElements])
  have hname := Tlv.valid_of_encodeAll (h.toCkMade.type_contentKeyName hcert) hwire.2.2
  have hparse := parseContent_contentElements hsize hvalid hname
  simp only [payload, hbuffer, bind, Except.bind]
  exact hparse

/-! ## What the producers make -/

variable {producer : Producer}

/-- A content key, once it is segmented. -/
theorem ckMade_of_ckSegments {context : Scheme} {pubParams : PublicParams}
    {policyOrAttribute encryptBy : Bytes} {maxSegmentSize word seed : ℕ}
    (hkey : AbeSupport.contentKeyGen abe context pubParams policyOrAttribute seed = .ok key)
    (h : producer.ckSegments key encryptBy maxSegmentSize word = .ok ckData) :
    ∃ encrypted, CkMade abe producer.m_cert key encrypted ckData := by
  obtain ⟨encrypted, hencrypt, hbuffer⟩ := AbeSupport.encrypted_of_contentKeyGen hkey
  have hidentity : extractIdentityFromCertName producer.m_cert.getName =
      .ok producer.m_cert.getIdentity := if_pos producer.m_cert.valid
  simp only [Producer.ckSegments, hidentity, bind, Except.bind] at h
  exact ⟨encrypted, ⟨context, pubParams.m_pub, policyOrAttribute, seed, hencrypt⟩, hbuffer,
    decimal word, encryptBy, maxSegmentSize, h⟩

/-- What `ckDataGen` returns for a policy is a content key and its packets. -/
theorem ckMade_of_ckDataGenPolicy {accessPolicy : Policy} {maxSegmentSize word seed : ℕ}
    (h : producer.ckDataGenPolicy abe accessPolicy maxSegmentSize word seed =
      .ok (some key, ckData)) : ∃ encrypted, CkMade abe producer.m_cert key encrypted ckData := by
  unfold Producer.ckDataGenPolicy at h
  split at h
  · cases h
  · split at h
    · cases h
    · obtain ⟨contentKey, hkey, hrest⟩ := bind_eq_ok.mp h
      obtain ⟨segments, hsegments, hreturn⟩ := bind_eq_ok.mp hrest
      cases hreturn
      exact ckMade_of_ckSegments hkey hsegments

/-- So is what it returns for attributes. -/
theorem ckMade_of_ckDataGenAttributes {attributes : List Bytes} {maxSegmentSize word seed : ℕ}
    (h : producer.ckDataGenAttributes abe attributes maxSegmentSize word seed =
      .ok (some key, ckData)) : ∃ encrypted, CkMade abe producer.m_cert key encrypted ckData := by
  unfold Producer.ckDataGenAttributes at h
  split at h
  · cases h
  · split at h
    · cases h
    · obtain ⟨contentKey, hgenerated, hrest⟩ := bind_eq_ok.mp h
      obtain ⟨policy, -, hkey⟩ := bind_eq_ok.mp hgenerated
      obtain ⟨segments, hsegments, hreturn⟩ := bind_eq_ok.mp hrest
      cases hreturn
      exact ckMade_of_ckSegments hkey hsegments

/-- Data that is produced from a content key that was made. -/
theorem made_of_produceWithKey (hck : CkMade abe cert key encrypted ckData) {name : Name}
    {maxSegmentSize seed : ℕ}
    (h : producer.produceWithKey abe key (contentKeyName ckData) name content maxSegmentSize seed =
      .ok data) : ∃ cipher, Made abe cert content data ckData key encrypted cipher := by
  obtain ⟨cipherText, hencrypted, hsegments⟩ := bind_eq_ok.mp h
  unfold AbeSupport.encrypt at hencrypted
  cases hcipher : abe.symEncrypt key.m_aesKey (content.take (toUint32 content.length)) seed with
  | none =>
    simp only [hcipher] at hencrypted
    cases hencrypted
  | some cipher =>
    simp only [hcipher] at hencrypted
    cases hencrypted
    exact ⟨cipher, hck, ⟨seed, hcipher⟩, _, maxSegmentSize, hsegments⟩

/-- The common end of the two ways `Producer` produces. -/
theorem made_of_produceFrom {contentKey : Option ContentKey × List Data} {name : Name}
    {maxSegmentSize seed : ℕ}
    (hck : ∀ key, contentKey.1 = some key → ∃ encrypted, CkMade abe cert key encrypted contentKey.2)
    (h : producer.produceFrom abe name content maxSegmentSize seed contentKey = .ok (data, ckData))
    (hne : ckData ≠ []) :
    ∃ key encrypted cipher, Made abe cert content data ckData key encrypted cipher := by
  unfold Producer.produceFrom at h
  split at h
  · cases h
    exact absurd rfl hne
  · cases h
  · next key first rest =>
    obtain ⟨encrypted, hmade⟩ := hck key rfl
    obtain ⟨packets, hpackets, hreturn⟩ := bind_eq_ok.mp h
    cases hreturn
    obtain ⟨cipher, hdata⟩ := made_of_produceWithKey hmade hpackets
    exact ⟨key, encrypted, cipher, hdata⟩

/-! ## Every call of `produce` -/

/-- The states of a `CacheProducer` with a certificate: what happens to its other members,
policy commands and fetched parameters, is left open. -/
inductive CacheProducer.Reachable (abe : OpenAbe) (cert : Certificate) : CacheProducer → Prop
  | initial {producer : Producer} (h : producer.m_cert = cert) :
    Reachable abe cert (.initial producer)
  | changed {c : CacheProducer} (hc : Reachable abe cert c) {producer : Producer}
    (h : producer.m_cert = cert) : Reachable abe cert { c with producer }
  | cleared {c : CacheProducer} (hc : Reachable abe cert c) : Reachable abe cert c.clearCache
  | policy {c : CacheProducer} (hc : Reachable abe cert c) (name : Name) (policy : Policy)
    (content : Bytes) (word seed : ℕ) :
    Reachable abe cert ((CacheProducer.producePolicy abe name policy content word seed).exec c).2
  | attributes {c : CacheProducer} (hc : Reachable abe cert c) (name : Name)
    (attributes : List Bytes) (content : Bytes) (word seed : ℕ) :
    Reachable abe cert
      ((CacheProducer.produceAttributes abe name attributes content word seed).exec c).2
  | matched {c : CacheProducer} (hc : Reachable abe cert c) (name : Name) (content : Bytes)
    (word seed : ℕ) :
    Reachable abe cert ((CacheProducer.produce abe name content word seed).exec c).2

/-- A call of one of the six `produce` of a producer with a certificate returns packets for
a content. -/
inductive Produces (abe : OpenAbe) (cert : Certificate) (content : Bytes) :
    List Data × List Data → Prop
  | policy {producer : Producer} (hcert : producer.m_cert = cert) (name : Name) (policy : Policy)
    (maxSegmentSize word seed : ℕ) {result : List Data × List Data}
    (h : producer.producePolicy abe name policy content maxSegmentSize word seed = .ok result) :
    Produces abe cert content result
  | attributes {producer : Producer} (hcert : producer.m_cert = cert) (name : Name)
    (attributes : List Bytes) (maxSegmentSize word seed : ℕ) {result : List Data × List Data}
    (h : producer.produceAttributes abe name attributes content maxSegmentSize word seed =
      .ok result) : Produces abe cert content result
  | matched {producer : Producer} (hcert : producer.m_cert = cert) (name : Name)
    (maxSegmentSize word seed : ℕ) {result : List Data × List Data}
    (h : producer.produce abe name content maxSegmentSize word seed = .ok result) :
    Produces abe cert content result
  | cachedPolicy {c : CacheProducer} (hc : c.Reachable abe cert) (name : Name) (policy : Policy)
    (word seed : ℕ) {result : List Data × List Data}
    (h : ((CacheProducer.producePolicy abe name policy content word seed).exec c).1 = .ok result) :
    Produces abe cert content result
  | cachedAttributes {c : CacheProducer} (hc : c.Reachable abe cert) (name : Name)
    (attributes : List Bytes) (word seed : ℕ) {result : List Data × List Data}
    (h : ((CacheProducer.produceAttributes abe name attributes content word seed).exec c).1 =
      .ok result) : Produces abe cert content result
  | cachedMatched {c : CacheProducer} (hc : c.Reachable abe cert) (name : Name)
    (word seed : ℕ) {result : List Data × List Data}
    (h : ((CacheProducer.produce abe name content word seed).exec c).1 = .ok result) :
    Produces abe cert content result

/-- Whatever was produced is made from one content key. -/
def IsMade (abe : OpenAbe) (cert : Certificate) (content : Bytes)
    (result : List Data × List Data) : Prop :=
  result.2 ≠ [] → ∃ key encrypted cipher,
    Made abe cert content result.1 result.2 key encrypted cipher

namespace Producer

/-- What is produced under a policy is made from one content key. -/
theorem isMade_of_producePolicy {name : Name} {policy : Policy} {maxSegmentSize word seed : ℕ}
    {result : List Data × List Data}
    (h : producer.producePolicy abe name policy content maxSegmentSize word seed = .ok result) :
    IsMade abe producer.m_cert content result := by
  intro hne
  obtain ⟨⟨_, segments⟩, hkey, hrest⟩ := bind_eq_ok.mp h
  refine made_of_produceFrom ?_ hrest hne
  rintro key rfl
  exact ckMade_of_ckDataGenPolicy hkey

/-- So is what is produced under attributes. -/
theorem isMade_of_produceAttributes {name : Name} {attributes : List Bytes}
    {maxSegmentSize word seed : ℕ} {result : List Data × List Data}
    (h : producer.produceAttributes abe name attributes content maxSegmentSize word seed =
      .ok result) : IsMade abe producer.m_cert content result := by
  intro hne
  obtain ⟨⟨_, segments⟩, hkey, hrest⟩ := bind_eq_ok.mp h
  refine made_of_produceFrom ?_ hrest hne
  rintro key rfl
  exact ckMade_of_ckDataGenAttributes hkey

/-- So is what is produced under the command for the data name. -/
theorem isMade_of_produce {name : Name} {maxSegmentSize word seed : ℕ}
    {result : List Data × List Data}
    (h : producer.produce abe name content maxSegmentSize word seed = .ok result) :
    IsMade abe producer.m_cert content result := by
  have hnothing : IsMade abe producer.m_cert content ([], []) := fun hne => absurd rfl hne
  simp only [produce, produceMatched, pure, Except.pure] at h
  split_ifs at h
  · cases h; exact hnothing
  · exact isMade_of_producePolicy h
  · cases h; exact hnothing
  · exact isMade_of_produceAttributes h
  · cases h; exact hnothing

end Producer

namespace CacheProducer

variable {c : CacheProducer} {name : Name} {seed : ℕ}

/-- The packets that are returned with a key that is kept. -/
def packetsWith (abe : OpenAbe) (name : Name) (content : Bytes) (seed : ℕ)
    (key : ContentKey × List Data) (producer : Producer) : Except Exn (List Data × List Data) :=
  match key.2 with
  | [] => .error .outOfRange
  | first :: _ => do
    let data ← producer.produceWithKey abe key.1 (first.name.getPrefixNeg 1) name content
      defaultMaxSegmentSize seed
    return (data, key.2)

/-- Producing under a kept key changes nothing. -/
theorem wp_produceCached_iff {Q : Except Exn (List Data × List Data) → CacheProducer → Prop}
    (key : ContentKey × List Data) :
    (produceCached abe name content seed key).wp (Prog.silent _ _ _) Q c ↔
      Q (packetsWith abe name content seed key c.producer) c := by
  obtain ⟨contentKey, segments⟩ := key
  simp only [produceCached, packetsWith, Prog.wp_bind, Prog.wp_get, Prog.andThen_ok]
  cases segments with
  | nil => rfl
  | cons first rest =>
    simp only [Prog.wp_bind, Prog.wp_liftM]
    cases c.producer.produceWithKey abe contentKey (first.name.getPrefixNeg 1) name content
      defaultMaxSegmentSize seed with
    | error e => rfl
    | ok data => rfl

/-- **The rule for both `produce`.**  A key is kept, or else generating one throws, or makes none,
or makes one that is kept from then on. -/
theorem wp_produceKept_of {kept : CacheProducer → Option (ContentKey × List Data)}
    {keep : CacheProducer → ContentKey × List Data → CacheProducer}
    {ckDataGen : Producer → Except Exn (Option ContentKey × List Data)}
    {Q : Except Exn (List Data × List Data) → CacheProducer → Prop}
    (hkept : ∀ key, kept c = some key → Q (packetsWith abe name content seed key c.producer) c)
    (hthrows : ∀ e, kept c = none → ckDataGen c.producer = .error e → Q (.error e) c)
    (hnone : ∀ k, kept c = none → ckDataGen c.producer = .ok k → k.1 = none ∨ k.2 = [] →
      Q (.ok ([], [])) c)
    (hmade : ∀ key segments, kept c = none → ckDataGen c.producer = .ok (some key, segments) →
      segments ≠ [] →
      Q (packetsWith abe name content seed (key, segments) (keep c (key, segments)).producer)
        (keep c (key, segments))) :
    (produceKept abe kept keep ckDataGen name content seed).wp (Prog.silent _ _ _) Q c := by
  simp only [produceKept, Prog.wp_bind, Prog.wp_get, Prog.andThen_ok]
  cases hfind : kept c with
  | some key => exact (wp_produceCached_iff key).mpr (hkept key hfind)
  | none =>
    simp only [Prog.wp_bind, Prog.wp_liftM]
    cases hgen : ckDataGen c.producer with
    | error e => exact hthrows e hfind hgen
    | ok k =>
      obtain ⟨key, segments⟩ := k
      cases key with
      | none => exact hnone _ hfind hgen (Or.inl rfl)
      | some key =>
        dsimp only [Prog.andThen_ok]
        by_cases hsegments : segments = []
        · rw [if_pos hsegments]
          exact hnone _ hfind hgen (Or.inr hsegments)
        · rw [if_neg hsegments]
          exact (wp_produceCached_iff (key, segments)).mpr (hmade key segments hfind hgen hsegments)

/-- The keys that are kept were made for the certificate. -/
structure KeysMade (abe : OpenAbe) (cert : Certificate) (c : CacheProducer) : Prop where
  cert_eq : c.producer.m_cert = cert
  cp : ∀ policy key, c.m_cpKeyCache.find policy = some key →
    ∃ encrypted, CkMade abe cert key.1 encrypted key.2
  kp : ∀ attStr key, c.m_kpKeyCache.find attStr = some key →
    ∃ encrypted, CkMade abe cert key.1 encrypted key.2

/-- What a call of `produce` keeps and returns. -/
def MakesKept (abe : OpenAbe) (cert : Certificate) (content : Bytes)
    (r : Except Exn (List Data × List Data)) (t : CacheProducer) : Prop :=
  KeysMade abe cert t ∧ ∀ result, r = .ok result → IsMade abe cert content result

/-- What is produced under a kept key is made from it. -/
theorem isMade_of_packetsWith {producer : Producer} {key : ContentKey × List Data}
    (hkey : ∃ encrypted, CkMade abe cert key.1 encrypted key.2) {result : List Data × List Data}
    (h : packetsWith abe name content seed key producer = .ok result) :
    IsMade abe cert content result := by
  obtain ⟨contentKey, segments⟩ := key
  obtain ⟨encrypted, hck⟩ := hkey
  cases segments with
  | nil => cases h
  | cons first rest =>
    obtain ⟨data, hdata, hreturn⟩ := bind_eq_ok.mp h
    cases hreturn
    intro _
    obtain ⟨cipher, hmade⟩ := made_of_produceWithKey hck hdata
    exact ⟨contentKey, encrypted, cipher, hmade⟩

/-- Both `produce`, by what they look up, generate and keep. -/
theorem wp_produceKept (hc : KeysMade abe cert c)
    {kept : CacheProducer → Option (ContentKey × List Data)}
    {keep : CacheProducer → ContentKey × List Data → CacheProducer}
    {ckDataGen : Producer → Except Exn (Option ContentKey × List Data)}
    (hkept : ∀ key, kept c = some key → ∃ encrypted, CkMade abe cert key.1 encrypted key.2)
    (hkeep : ∀ key, (∃ encrypted, CkMade abe cert key.1 encrypted key.2) →
      KeysMade abe cert (keep c key))
    (hgen : ∀ key segments, ckDataGen c.producer = .ok (some key, segments) →
      ∃ encrypted, CkMade abe cert key encrypted segments) (name : Name) (seed : ℕ) :
    (produceKept abe kept keep ckDataGen name content seed).wp (Prog.silent _ _ _)
      (MakesKept abe cert content) c := by
  apply wp_produceKept_of
  · intro key hfind
    exact ⟨hc, fun result h => isMade_of_packetsWith (hkept key hfind) h⟩
  · intro e _ _
    refine ⟨hc, ?_⟩
    rintro result ⟨⟩
  · intro k _ _ _
    refine ⟨hc, ?_⟩
    rintro result ⟨⟩ hne
    exact absurd rfl hne
  · intro key segments _ hgenerated _
    have hck := hgen key segments hgenerated
    exact ⟨hkeep (key, segments) hck, fun result h => isMade_of_packetsWith hck h⟩

/-- `produce` of the cache producer under a policy. -/
theorem wp_producePolicy (hc : KeysMade abe cert c) (name : Name) (policy : Policy)
    (content : Bytes) (word seed : ℕ) :
    (producePolicy abe name policy content word seed).wp (Prog.silent _ _ _)
      (MakesKept abe cert content) c := by
  refine wp_produceKept hc (hc.cp policy) ?_ ?_ name seed
  · intro key hkey
    refine ⟨hc.cert_eq, fun policy' key' hfind => ?_, hc.kp⟩
    rcases PartialMap.find_insert_cases hfind with rfl | hold
    · exact hkey
    · exact hc.cp policy' key' hold
  · intro key segments hgen
    exact hc.cert_eq ▸ ckMade_of_ckDataGenPolicy hgen

/-- `produce` of the cache producer under attributes. -/
theorem wp_produceAttributes (hc : KeysMade abe cert c) (name : Name) (attributes : List Bytes)
    (content : Bytes) (word seed : ℕ) :
    (produceAttributes abe name attributes content word seed).wp (Prog.silent _ _ _)
      (MakesKept abe cert content) c := by
  unfold produceAttributes
  refine wp_produceKept hc ?_ ?_ ?_ name seed
  · exact hc.kp _
  · intro key hkey
    refine ⟨hc.cert_eq, hc.cp, fun attStr key' hfind => ?_⟩
    rcases PartialMap.find_insert_cases hfind with rfl | hold
    · exact hkey
    · exact hc.kp attStr key' hold
  · intro key segments hgen
    exact hc.cert_eq ▸ ckMade_of_ckDataGenAttributes hgen

/-- `produce` of the cache producer by data name. -/
theorem wp_produce (hc : KeysMade abe cert c) (name : Name) (content : Bytes) (word seed : ℕ) :
    (produce abe name content word seed).wp (Prog.silent _ _ _) (MakesKept abe cert content) c := by
  have hnothing : MakesKept abe cert content (.ok ([], [])) c := by
    refine ⟨hc, ?_⟩
    rintro result ⟨⟩ hne
    exact absurd rfl hne
  simp only [produce, Producer.produceMatched, Prog.wp_bind, Prog.wp_get, Prog.andThen_ok]
  split_ifs
  · exact hnothing
  · exact wp_producePolicy hc name _ content word seed
  · exact hnothing
  · exact wp_produceAttributes hc name _ content word seed
  · exact hnothing

/-- Whatever the cache producer has done, what it keeps are content keys with their packets. -/
theorem Reachable.keysMade (h : c.Reachable abe cert) : KeysMade abe cert c := by
  induction h with
  | initial h => exact ⟨h, nofun, nofun⟩
  | changed _ h ih => exact ⟨h, ih.cp, ih.kp⟩
  | cleared _ ih => exact ⟨ih.cert_eq, nofun, nofun⟩
  | policy _ name policy content word seed ih =>
    exact ((Prog.wp_silent_iff _ _ _).mp (wp_producePolicy ih name policy content word seed)).1
  | attributes _ name attributes content word seed ih =>
    exact ((Prog.wp_silent_iff _ _ _).mp
      (wp_produceAttributes ih name attributes content word seed)).1
  | matched _ name content word seed ih =>
    exact ((Prog.wp_silent_iff _ _ _).mp (wp_produce ih name content word seed)).1

end CacheProducer

/-- **What was produced is made**, whichever `produce` was called. -/
theorem made_of_produces (h : Produces abe cert content (data, ckData)) (hne : ckData ≠ []) :
    ∃ key encrypted cipher, Made abe cert content data ckData key encrypted cipher := by
  cases h with
  | policy hcert name policy maxSegmentSize word seed h =>
    exact hcert ▸ Producer.isMade_of_producePolicy h hne
  | attributes hcert name attributes maxSegmentSize word seed h =>
    exact hcert ▸ Producer.isMade_of_produceAttributes h hne
  | matched hcert name maxSegmentSize word seed h =>
    exact hcert ▸ Producer.isMade_of_produce h hne
  | cachedPolicy hc name policy word seed h =>
    have hmade := (Prog.wp_silent_iff _ _ _).mp
      (CacheProducer.wp_producePolicy hc.keysMade name policy content word seed)
    exact hmade.2 _ h hne
  | cachedAttributes hc name attributes word seed h =>
    have hmade := (Prog.wp_silent_iff _ _ _).mp
      (CacheProducer.wp_produceAttributes hc.keysMade name attributes content word seed)
    exact hmade.2 _ h hne
  | cachedMatched hc name word seed h =>
    have hmade := (Prog.wp_silent_iff _ _ _).mp
      (CacheProducer.wp_produce hc.keysMade name content word seed)
    exact hmade.2 _ h hne

end NacAbe
