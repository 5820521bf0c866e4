import Mathlib.Logic.Relation
import NacAbe.Analysis.KeyIsolation
import NacAbe.Analysis.PolicyProvenance
import NacAbe.Interface.HonestRuns
import NacAbe.Interface.SealedKeys

/-!
# A deployment

An attribute authority, a data owner with a producer, and a consumer, over one network.
`Step` interleaves whatever each of them can do.  The network is not trusted with anything
but what the validators and the TPM see to: content, content keys and decryption keys
that a consumer accepts come from the producer and from the authority, an Interest with
the owner's signature comes from the owner, and a certificate belongs to its identity.

`Kept` is what then holds of the four together, and `supply_of_reachable` says that the
consumer's part of the run is one over the packets published and the keys issued.
-/

set_option autoImplicit false

namespace NacAbe.Analysis

open NacAbe AttributeAuthority PolicyExchange Producer

variable {Token : Type}

/-- Who takes part, on what platform. -/
structure Setting (Token : Type) where
  platform : Platform
  keyGen : KeyGen Token
  signer : Signer
  auth : Authentication
  authorityCert : Certificate
  ownerCert : Certificate
  producerCert : Certificate
  consumerCert : Certificate
  template : Interest
  abeType : AbeType
  maxSegmentSize : ℕ
  keys : PublicParams × MasterKey

/-- What is relied on: OpenABE and the transforms are lawful, OpenABE takes no empty key, and
the consumer's TPM opens what was encrypted to the consumer. -/
structure Setting.Assumed (s : Setting Token) : Prop where
  abe : s.platform.abe.Lawful
  emptyKey : ∀ context pub, s.platform.abe.importUserKey context pub [] = false
  crypto : s.platform.crypto.Lawful
  tpm : s.platform.crypto.OpensOnly s.consumerCert.getPublicKey s.consumerCert.getKeyName

/-- A call of `produce` by data name. -/
structure Publication (abe : OpenAbe) where
  production : Production abe
  dataNameSuffix : Name

structure Deployment (abe : OpenAbe) (Token : Type) where
  authority : AttributeAuthority Token
  exchange : PolicyExchange
  published : List (Publication abe)
  consumer : System.Config Consumer Exn Invocation
  /-- The publications whose content has been handed to a call of `consume`. -/
  handed : List (ℕ × Publication abe)

namespace Setting

variable (s : Setting Token)

def initialAuthority : AttributeAuthority Token :=
  .initial s.authorityCert s.abeType s.maxSegmentSize s.keys

/-- Everybody as they are constructed. -/
def initial : Deployment s.platform.abe Token where
  authority := s.initialAuthority
  exchange := ⟨.initial, .initial s.producerCert s.authorityCert s.ownerCert s.template⟩
  published := []
  consumer := ⟨.initial s.consumerCert s.authorityCert s.template, []⟩
  handed := []

/-- A certificate with the consumer's public key is of the consumer's identity. -/
def Certifies (cert : Certificate) : Prop :=
  cert.getPublicKey = s.consumerCert.getPublicKey →
    cert.getIdentity = s.consumerCert.getIdentity

/-- The certificates that the authority is given are genuine. -/
def Genuine : AttributeAuthority.Event Token → Prop
  | .addNewPolicyCert cert _ => s.Certifies cert
  | .certificateData _ data _ _ accepted _ _ _ =>
    accepted = true → ∀ cert : Certificate, cert.data = data → s.Certifies cert
  | _ => True

/-- What happens to the consumer, and the content that it hands over. -/
inductive Delivery (D : Deployment s.platform.abe Token) :
    System.Act Exn Consumer.Entry Consumer.Event → List (ℕ × Publication s.platform.abe) → Prop
  /-- The application has the content already. -/
  | block (pub : Publication s.platform.abe) (hpub : pub ∈ D.published) (dataBlock : Block)
      (hblock : Block.ofBuffer (reassemble pub.production.data) = .ok dataBlock)
      (hasSuccess hasError : Bool) :
    Delivery D (.enter (.consumeBlock dataBlock hasSuccess hasError))
      [(D.consumer.st.nextCall, pub)]
  | interest (dataInterest : Name) (hasSuccess hasError : Bool) :
    Delivery D (.enter (.consumeInterest dataInterest hasSuccess hasError)) []
  | name (dataName : Name) (hasSuccess hasError : Bool) :
    Delivery D (.enter (.consumeName dataName hasSuccess hasError)) []
  | timeout (defaultTimeout : ℤ) : Delivery D (.enter (.setDefaultTimeout defaultTimeout)) []
  | askKey : Delivery D (.enter .obtainDecryptionKey) []
  | clearCache : Delivery D (.enter (.abeCall .clearCachedContentKeys)) []
  /-- A callback ends, by an exception or not. -/
  | resume (o : Option Exn) : Delivery D (.resume o) []
  | data (pub : Publication s.platform.abe) (hpub : pub ∈ D.published) (fetch : Name × Callbacks) :
    Delivery D (.event (.dataComplete fetch (reassemble pub.production.data))) [(fetch.2.id, pub)]
  | contentKey (pub : Publication s.platform.abe) (hpub : pub ∈ D.published) :
    Delivery D (.event (.ckComplete pub.production.ckName (reassemble pub.production.ckData))) []
  /-- Any object of the authority, whoever it was made for. -/
  | decryptionKey (g : Generation) (hg : g ∈ generations D.authority.log) (interestName : Name) :
    Delivery D (.event (.keyComplete interestName (reassemble g.dkSegments))) []
  | ckError (ckKey : Name) (errorMsg : String) : Delivery D (.event (.ckError ckKey errorMsg)) []
  | dataError (fetch : Name × Callbacks) (errorMsg : String) :
    Delivery D (.event (.dataError fetch errorMsg)) []
  | keyError (interestName : Name) : Delivery D (.event (.keyError interestName)) []
  | publicParams (pubParamData : Data) (validationError : Option String) :
    Delivery D (.event (.publicParams pubParamData validationError)) []

/-- **One step of one party.**  OpenABE's strings hold no terminator, and no two content keys
get the same name. -/
inductive Step (D : Deployment s.platform.abe Token) : Deployment s.platform.abe Token → Prop
  | authority (e : AttributeAuthority.Event Token) (he : s.Genuine e)
      (hnul : ∀ g ∈ generations (next s.keyGen s.platform.crypto D.authority e).log,
        (0 : UInt8) ∉ g.prvKey.m_prv) :
    Step D { D with authority := next s.keyGen s.platform.crypto D.authority e }
  | exchange (e : PolicyExchange.Event) (he : Faithful s.auth D.exchange e) :
    Step D { D with
      exchange := PolicyExchange.next s.signer s.auth s.platform.mem D.exchange e }
  | publish (pub : Publication s.platform.abe) (maxSegmentSize word seed : ℕ)
      (hproduced : D.exchange.producer.produce s.platform.abe pub.dataNameSuffix
        pub.production.content maxSegmentSize word seed =
          .ok (pub.production.data, pub.production.ckData))
      (hfresh : ∀ other ∈ D.published, other.production.ckName ≠ pub.production.ckName) :
    Step D { D with published := D.published ++ [pub] }
  | consumer (a : System.Act Exn Consumer.Entry Consumer.Event)
      (new : List (ℕ × Publication s.platform.abe)) (ha : s.Delivery D a new)
      (next : System.Config Consumer Exn Invocation)
      (hs : (Consumer.system s.platform).step D.consumer a = some next) :
    Step D { D with consumer := next, handed := D.handed ++ new }

/-- Any interleaving of steps. -/
def Reachable (D : Deployment s.platform.abe Token) : Prop :=
  Relation.ReflTransGen s.Step s.initial D

end Setting

/-! ## What content is encrypted under -/

/-- The content key is encrypted under the value of a command. -/
def EncryptedUnder {abe : OpenAbe} (P : Production abe) : PolicyCommand → Prop
  | .policy _ policy => ∃ pub aesKey seed,
    abe.encrypt .cpAbe pub policy aesKey seed = some P.encrypted
  | .attributes _ attrs => ∃ joined pub aesKey seed, policyString attrs = .ok joined ∧
    abe.encrypt .kpAbe pub joined aesKey seed = some P.encrypted

/-- The content key is encrypted under the value of a command, with these parameters. -/
def EncryptedWith {abe : OpenAbe} (pubParams : PublicParams) (P : Production abe) :
    PolicyCommand → Prop
  | .policy _ policy => ∃ aesKey seed,
    abe.encrypt .cpAbe pubParams.m_pub policy aesKey seed = some P.encrypted
  | .attributes _ attrs => ∃ joined aesKey seed, policyString attrs = .ok joined ∧
    abe.encrypt .kpAbe pubParams.m_pub joined aesKey seed = some P.encrypted

variable {abe : OpenAbe} {producer : Producer} {data ckData : List Data}
  {dataNameSuffix : Name} {content : Bytes} {maxSegmentSize word seed : ℕ}

/-- What is encrypted with a command's value is encrypted under the command. -/
theorem EncryptedWith.under {pubParams : PublicParams} {P : Production abe}
    {command : PolicyCommand} (h : EncryptedWith pubParams P command) :
    EncryptedUnder P command := by
  cases command with
  | policy dataPrefix policy =>
    obtain ⟨aesKey, seed, hencrypt⟩ := h
    exact ⟨_, aesKey, seed, hencrypt⟩
  | attributes dataPrefix attrs =>
    obtain ⟨joined, aesKey, seed, hjoined, hencrypt⟩ := h
    exact ⟨joined, _, aesKey, seed, hjoined, hencrypt⟩

/-- Where content key packets are returned, they are those that were generated. -/
theorem eq_of_produceFrom {contentKey : Option ContentKey × List Data}
    (h : producer.produceFrom abe dataNameSuffix content maxSegmentSize seed contentKey =
      .ok (data, ckData)) (hne : ckData ≠ []) : ∃ key, contentKey = (some key, ckData) := by
  unfold Producer.produceFrom at h
  split at h
  · cases h
    exact absurd rfl hne
  · cases h
  · next key first rest =>
    obtain ⟨packets, -, hreturn⟩ := bind_eq_ok.mp h
    cases hreturn
    exact ⟨key, rfl⟩

/-- The content key in the packets is encrypted under what it was generated for. -/
theorem encrypt_of_ckSegments (P : Production abe) (hlaw : abe.Lawful) {context : Scheme}
    {pubParams : PublicParams} {policyOrAttribute encryptBy : Bytes} {key : ContentKey}
    (hkey : AbeSupport.contentKeyGen abe context pubParams policyOrAttribute seed = .ok key)
    (hsegments : producer.ckSegments key encryptBy maxSegmentSize word = .ok P.ckData) :
    abe.encrypt context pubParams.m_pub policyOrAttribute key.m_aesKey seed =
      some P.encrypted := by
  obtain ⟨encrypted, hencrypt, hbuffer⟩ := AbeSupport.encrypted_of_contentKeyGen hkey
  obtain ⟨encrypted', hmade⟩ := ckMade_of_ckSegments hkey hsegments
  have hpacket := hmade.encryptedKey_eq
  rw [hbuffer] at hpacket
  rw [hencrypt, P.encrypted_eq hpacket (hlaw.encrypt_no_nul hencrypt)]

/-- **Data produced under a command is encrypted under its value,** with the producer's
parameters. -/
theorem encryptedWith_of_produced (P : Production abe) (hlaw : abe.Lawful)
    {command : PolicyCommand}
    (h : ProducedUnder abe producer dataNameSuffix content maxSegmentSize word seed
      (P.data, P.ckData) command) :
    EncryptedWith producer.m_paramFetcher.m_pubParamsCache P command := by
  cases command with
  | policy dataPrefix policy =>
    obtain ⟨-, hproduced⟩ := h
    obtain ⟨contentKey, hgenerated, hrest⟩ := bind_eq_ok.mp hproduced
    obtain ⟨key, rfl⟩ := eq_of_produceFrom hrest P.ckData_ne_nil
    unfold Producer.ckDataGenPolicy at hgenerated
    split_ifs at hgenerated
    · cases hgenerated
    · cases hgenerated
    · obtain ⟨contentKey, hkey, hrest⟩ := bind_eq_ok.mp hgenerated
      obtain ⟨segments, hsegments, hreturn⟩ := bind_eq_ok.mp hrest
      cases hreturn
      exact ⟨_, _, encrypt_of_ckSegments P hlaw hkey hsegments⟩
  | attributes dataPrefix attrs =>
    obtain ⟨-, hproduced⟩ := h
    obtain ⟨contentKey, hgenerated, hrest⟩ := bind_eq_ok.mp hproduced
    obtain ⟨key, rfl⟩ := eq_of_produceFrom hrest P.ckData_ne_nil
    unfold Producer.ckDataGenAttributes at hgenerated
    split_ifs at hgenerated
    · cases hgenerated
    · cases hgenerated
    · obtain ⟨contentKey, hkp, hrest⟩ := bind_eq_ok.mp hgenerated
      obtain ⟨segments, hsegments, hreturn⟩ := bind_eq_ok.mp hrest
      cases hreturn
      obtain ⟨joined, hjoined, hkey⟩ := bind_eq_ok.mp hkp
      exact ⟨joined, _, _, hjoined, encrypt_of_ckSegments P hlaw hkey hsegments⟩

/-! ## What holds of the four -/

namespace Setting

variable {s : Setting Token} {D D' : Deployment s.platform.abe Token}

variable (s D) in
/-- The authority has served genuine events, what is published is encrypted under what the owner
issued, and what has been handed over is published. -/
structure Kept : Prop where
  served : ∃ events, (∀ e ∈ events, s.Genuine e) ∧
    D.authority = AttributeAuthority.run s.keyGen s.platform.crypto s.initialAuthority events
  noNul : ∀ g ∈ generations D.authority.log, (0 : UInt8) ∉ g.prvKey.m_prv
  provenance : Provenance D.exchange
  published : ∀ pub ∈ D.published, ∃ sent ∈ issued D.exchange.owner,
    sent.command.command.dataPrefix <+: pub.dataNameSuffix ∧
      EncryptedUnder pub.production sent.command.command
  oneKey : ∀ pub ∈ D.published, ∀ pub' ∈ D.published,
    pub.production.ckName = pub'.production.ckName → pub = pub'
  handed : ∀ entry ∈ D.handed, entry.2 ∈ D.published

theorem kept_initial (s : Setting Token) : s.Kept s.initial where
  served := ⟨[], List.forall_mem_nil _, rfl⟩
  noNul := List.forall_mem_nil _
  provenance := ⟨List.forall_mem_nil _, List.forall_mem_nil _, List.forall_mem_nil _⟩
  published := List.forall_mem_nil _
  oneKey := List.forall_mem_nil _
  handed := List.forall_mem_nil _

/-- What is handed over has been published. -/
theorem Delivery.published {a : System.Act Exn Consumer.Entry Consumer.Event}
    {new : List (ℕ × Publication s.platform.abe)} (h : s.Delivery D a new) :
    ∀ entry ∈ new, entry.2 ∈ D.published := by
  cases h with
  | block pub hpub => exact List.forall_mem_singleton.mpr hpub
  | data pub hpub => exact List.forall_mem_singleton.mpr hpub
  | _ => exact List.forall_mem_nil _

/-- **One step of one party** keeps it. -/
theorem Kept.step (h : s.Kept D) (hs : s.Assumed) (hstep : s.Step D D') : s.Kept D' := by
  cases hstep with
  | authority e he hnul =>
    obtain ⟨events, hgenuine, hrun⟩ := h.served
    refine ⟨⟨events ++ [e], ?_, ?_⟩, hnul, h.provenance, h.published, h.oneKey, h.handed⟩
    · exact List.forall_mem_append.mpr ⟨hgenuine, List.forall_mem_singleton.mpr he⟩
    · rw [AttributeAuthority.run, Runs.after_concat, hrun]
      rfl
  | exchange e he =>
    refine ⟨h.served, h.noNul, h.provenance.next he, ?_, h.oneKey, h.handed⟩
    intro pub hpub
    obtain ⟨sent, hsent, hrest⟩ := h.published pub hpub
    exact ⟨sent, issued_mono hsent, hrest⟩
  | publish pub maxSegmentSize word seed hproduced hfresh =>
    refine ⟨h.served, h.noNul, h.provenance, ?_, ?_, ?_⟩
    · refine List.forall_mem_append.mpr ⟨h.published, List.forall_mem_singleton.mpr ?_⟩
      have hne : (pub.production.data, pub.production.ckData) ≠ ([], []) := by
        intro heq
        exact pub.production.ckData_ne_nil (Prod.ext_iff.mp heq).2
      obtain ⟨sent, hsent, hprefix, hunder⟩ := h.provenance.produce hproduced hne
      exact ⟨sent, hsent, hprefix, (encryptedWith_of_produced pub.production hs.abe hunder).under⟩
    · intro pub₁ h₁ pub₂ h₂ hname
      rcases List.mem_append.mp h₁ with hold₁ | hnew₁ <;>
        rcases List.mem_append.mp h₂ with hold₂ | hnew₂
      · exact h.oneKey pub₁ hold₁ pub₂ hold₂ hname
      · rw [List.mem_singleton.mp hnew₂] at hname
        exact absurd hname (hfresh pub₁ hold₁)
      · rw [List.mem_singleton.mp hnew₁] at hname
        exact absurd hname.symm (hfresh pub₂ hold₂)
      · rw [List.mem_singleton.mp hnew₁, List.mem_singleton.mp hnew₂]
    · intro entry hentry
      exact List.mem_append_left _ (h.handed entry hentry)
  | consumer a new ha next hs =>
    refine ⟨h.served, h.noNul, h.provenance, h.published, h.oneKey, ?_⟩
    exact List.forall_mem_append.mpr ⟨h.handed, ha.published⟩

/-! ## The consumer's supply -/

variable (s D) in
/-- The keys that were made for the consumer, and the empty one it starts with. -/
def consumerKeys : Set PrivateKey :=
  {prvKey | prvKey = ⟨[]⟩ ∨ ∃ g ∈ generations D.authority.log,
    g.cert.getPublicKey = s.consumerCert.getPublicKey ∧ g.prvKey = prvKey}

variable (s D) in
/-- What the network can bring to the consumer. -/
def supply (h : s.Kept D) : Supply s.platform where
  cert := s.consumerCert
  produced := {P | ∃ pub ∈ D.published, pub.production = P}
  handed id P := ∃ pub, (id, pub) ∈ D.handed ∧ pub.production = P
  keys := s.consumerKeys D
  produced_of_handed := by
    rintro id P ⟨pub, hpub, hproduction⟩
    exact ⟨pub, h.handed _ hpub, hproduction⟩
  oneKey := by
    rintro P P' ⟨pub, hpub, rfl⟩ ⟨pub', hpub', rfl⟩ hname
    rw [h.oneKey pub hpub pub' hpub' hname]

/-- The supply grows. -/
theorem supply_extends (h : s.Kept D) (h' : s.Kept D') (hstep : s.Step D D') :
    (s.supply D h).Extends (s.supply D' h') := by
  have hgrow : D.published ⊆ D'.published ∧ D.handed ⊆ D'.handed ∧
      D.authority.log ⊆ D'.authority.log := by
    cases hstep with
    | authority e he hnul =>
      exact ⟨List.Subset.refl _, List.Subset.refl _,
        log_subset_of_outcome (next_outcome s.keyGen s.platform.crypto D.authority e)⟩
    | exchange e he => exact ⟨List.Subset.refl _, List.Subset.refl _, List.Subset.refl _⟩
    | publish pub maxSegmentSize word seed hproduced hfresh =>
      exact ⟨List.subset_append_left _ _, List.Subset.refl _, List.Subset.refl _⟩
    | consumer a new ha next hs =>
      exact ⟨List.Subset.refl _, List.subset_append_left _ _, List.Subset.refl _⟩
  obtain ⟨hpublished, hhanded, hlog⟩ := hgrow
  refine ⟨rfl, ?_, ?_, ?_⟩
  · rintro P ⟨pub, hpub, hproduction⟩
    exact ⟨pub, hpublished hpub, hproduction⟩
  · rintro id P ⟨pub, hpub, hproduction⟩
    exact ⟨pub, hhanded hpub, hproduction⟩
  · rintro prvKey (hempty | ⟨g, hg, hrest⟩)
    · exact Or.inl hempty
    · exact Or.inr ⟨g, List.filterMap_subset _ hlog hg, hrest⟩

theorem Kept.isSealed (h : s.Kept D) {g : Generation} (hg : g ∈ generations D.authority.log) :
    g.Sealed s.platform.crypto D.authority.m_maxSegmentSize := by
  obtain ⟨events, -, hrun⟩ := h.served
  have hobjects : KeyObjects s.platform.crypto D.authority := by
    rw [hrun]
    exact run_keyObjects _ _ _ _ _ _ _
  exact hobjects.isSealed g hg

/-- **What is delivered is in the supply.**  A decryption key that the consumer can open was
sealed to its own certificate. -/
theorem Delivery.allowed {a : System.Act Exn Consumer.Entry Consumer.Event}
    {new : List (ℕ × Publication s.platform.abe)} (ha : s.Delivery D a new) (hs : s.Assumed)
    {next : System.Config Consumer Exn Invocation}
    (h : s.Kept { D with consumer := next, handed := D.handed ++ new }) :
    (s.supply _ h).Allowed D.consumer.st a := by
  cases ha with
  | block pub hpub dataBlock hblock hasSuccess hasError =>
    exact ⟨pub.production, ⟨pub, by simp, rfl⟩, hblock⟩
  | data pub hpub fetch => exact ⟨pub.production, ⟨pub, by simp, rfl⟩, rfl⟩
  | contentKey pub hpub => exact ⟨pub.production, ⟨pub, hpub, rfl⟩, rfl, rfl⟩
  | decryptionKey g hg interestName =>
    intro block prvBlock prvKey hblock hopened hread
    have hsealed := h.isSealed hg
    rw [hsealed.ofBuffer_eq.1] at hblock
    cases hblock
    obtain ⟨hpublic, hkey⟩ := hsealed.prvKey_of_opened hs.crypto hs.tpm
      (if_pos s.consumerCert.valid) (h.noNul g hg) s.platform.mem hopened
    rw [hkey] at hread
    exact Or.inr ⟨g, hg, hpublic, Except.ok.inj hread⟩
  | _ => trivial

/-- **The consumer's part of a run** of the deployment is one over the supply. -/
theorem supply_of_reachable (hs : s.Assumed) (hreach : s.Reachable D) : ∃ h : s.Kept D,
    (Consumer.system s.platform).Reaches (fun d a => (s.supply D h).Allowed d.st a)
      s.initial.consumer D.consumer := by
  induction hreach with
  | refl => exact ⟨s.kept_initial, .refl⟩
  | @tail D D' _ hstep ih =>
    obtain ⟨h, hreaches⟩ := ih
    have h' := h.step hs hstep
    have hmore : (Consumer.system s.platform).Reaches
        (fun d a => (s.supply D' h').Allowed d.st a) s.initial.consumer D.consumer :=
      hreaches.mono fun _ _ => Supply.Allowed.extend (supply_extends h h' hstep)
    refine ⟨h', ?_⟩
    cases hstep with
    | consumer a new ha next hnext => exact hmore.step (ha.allowed hs h') hnext
    | _ => exact hmore

end Setting

end NacAbe.Analysis
