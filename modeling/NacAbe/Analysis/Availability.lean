import NacAbe.Analysis.PolicyDelivery
import NacAbe.Analysis.Recoverability
import NacAbe.Interface.KeptContentKeys

/-!
# Who is granted content gets it

The other half of `success_isGranted`.  Whatever has happened in a deployment, packets lost
and callbacks that throw included, each party can still do its part: the authority answers the
consumer's request with a key of its token, the owner's command takes effect at the producer,
the producer publishes under it, and the consumer, which waits for nothing that is not coming,
fetches the content key and reports the plaintext.  `Setting.Serves` is what OpenABE adds: a key
made of a token opens what the token is granted.
-/

set_option autoImplicit false

namespace NacAbe

/-- The scheme whose encryption takes the value of a command. -/
def PolicyCommand.scheme : PolicyCommand → Scheme
  | .policy .. => .cpAbe
  | .attributes .. => .kpAbe

/-- A producer takes the empty value for none. -/
def PolicyCommand.HasValue : PolicyCommand → Prop
  | .policy _ value => value ≠ []
  | .attributes _ value => value ≠ []

namespace Analysis

open AttributeAuthority PolicyExchange Producer

variable {Token : Type}

/-! ## The producer's part -/

variable {abe : OpenAbe} {producer : Producer} {command : PolicyCommand} {dataNameSuffix : Name}
  {content : Bytes} {maxSegmentSize word seed : ℕ}

/-- The lookup by data name gives the value of a command. -/
def Finds (producer : Producer) (dataName : Name) : PolicyCommand → Prop
  | .policy _ policy => producer.findMatchedPolicy dataName = policy
  | .attributes _ attributes => producer.findMatchedAttributes dataName = attributes

/-- What is set for a name is found for it. -/
theorem finds_answered (producer : Producer) (interest : Interest) (command : PolicyCommand)
    (hne : command.dataPrefix ≠ []) :
    Finds (producer.answered interest (some command)) command.dataPrefix command := by
  cases command with
  | policy dataPrefix policy => exact PolicyTable.findMatched_addNew producer.m_policies policy hne
  | attributes dataPrefix attributes =>
    exact PolicyTable.findMatched_addNew producer.m_attributes attributes hne

/-- **What is found is what is produced under.** -/
theorem produce_of_finds {packets : List Data × List Data} (hvalue : command.HasValue)
    (hfinds : Finds producer dataNameSuffix command)
    (h : ProducedUnder abe producer dataNameSuffix content maxSegmentSize word seed packets
      command) :
    producer.produce abe dataNameSuffix content maxSegmentSize word seed = .ok packets := by
  unfold Producer.produce produceMatched
  cases command with
  | policy dataPrefix policy =>
    obtain ⟨hmode, hproduced⟩ := h
    have hfound : producer.findMatchedPolicy dataNameSuffix = policy := hfinds
    rw [if_pos hmode, hfound, if_neg hvalue]
    exact hproduced
  | attributes dataPrefix attributes =>
    obtain ⟨hmode, hproduced⟩ := h
    have hfound : producer.findMatchedAttributes dataNameSuffix = attributes := hfinds
    have hother : producer.m_paramFetcher.m_abeType ≠ abeTypeCpAbe := by
      rw [hmode]
      decide
    rw [if_neg hother, if_pos hmode, hfound, if_neg hvalue]
    exact hproduced

/-- The tables do not matter once the value has been found. -/
theorem ProducedUnder.answered {packets : List Data × List Data}
    (h : ProducedUnder abe producer dataNameSuffix content maxSegmentSize word seed packets
      command) (interest : Interest) (command' : PolicyCommand) :
    ProducedUnder abe (producer.answered interest (some command')) dataNameSuffix content
      maxSegmentSize word seed packets command := by
  cases command with
  | policy dataPrefix policy =>
    cases command' with
    | policy dataPrefix' policy' => exact h
    | attributes dataPrefix' attributes' => exact h
  | attributes dataPrefix attributes =>
    cases command' with
    | policy dataPrefix' policy' => exact h
    | attributes dataPrefix' attributes' => exact h

/-- Without public parameters no content key is made. -/
theorem m_pub_ne_nil_of_produced (P : Production abe)
    (h : ProducedUnder abe producer dataNameSuffix content maxSegmentSize word seed
      (P.data, P.ckData) command) : producer.m_paramFetcher.m_pubParamsCache.m_pub ≠ [] := by
  intro hnil
  cases command with
  | policy dataPrefix policy =>
    obtain ⟨contentKey, hgenerated, hrest⟩ := bind_eq_ok.mp h.2
    obtain ⟨key, rfl⟩ := eq_of_produceFrom hrest P.ckData_ne_nil
    rw [ckDataGenPolicy, if_pos hnil] at hgenerated
    cases hgenerated
  | attributes dataPrefix attributes =>
    obtain ⟨contentKey, hgenerated, hrest⟩ := bind_eq_ok.mp h.2
    obtain ⟨key, rfl⟩ := eq_of_produceFrom hrest P.ckData_ne_nil
    rw [ckDataGenAttributes, if_pos hnil] at hgenerated
    cases hgenerated

/-- A producer in a command's mode does not misread it. -/
theorem not_misreads_of_modeOf (h : producer.ModeOf command) : ¬ producer.Misreads command := by
  have hkc : abeTypeKpAbe ≠ abeTypeCpAbe := by decide
  cases command with
  | policy dataPrefix policy =>
    rintro ⟨hkp, -⟩
    exact hkc (hkp.symm.trans h)
  | attributes dataPrefix attributes =>
    intro hcp
    exact hkc (Eq.trans (Eq.symm h) hcp)

/-- The face hands the command to the producer. -/
theorem dispatch_of_policyName {auth : Authentication} {interest : Interest}
    {command : OwnerCommand} (hid : command.producerPrefix = producer.m_cert.getIdentity)
    (hname : DataOwner.policyName command <+: interest.name)
    (hmode : producer.ModeOf command.command) (hauth : authentic auth producer interest = true) :
    dispatch auth producer interest = producer.answered interest (some command.command) := by
  have hface : producer.m_cert.getIdentity ++ [setPolicyComponent] <+: interest.name := by
    refine List.IsPrefix.trans ?_ hname
    rw [← hid, DataOwner.policyName]
    exact List.prefix_append_right_inj _ |>.mpr (List.prefix_append [_] _)
  rw [dispatch, if_pos (List.isPrefixOf_iff_prefix.mpr hface), exec_onPolicyInterest,
    delivered_of_policyName hid hname hmode hauth]

namespace Setting

/-- OpenABE opens, with a key made of a token, what is encrypted under a command that the token is
granted. -/
def Serves (s : Setting Token) (Grants : Token → PolicyCommand → Prop) : Prop :=
  ∀ (token : Token) (seed : ℕ) (prvKey : PrivateKey) (P : Production s.platform.abe)
    (command : PolicyCommand), s.keyGen s.keys.1 s.keys.2 token seed = .ok prvKey →
    Grants token command → EncryptedWith s.keys.1 P command →
    ∃ aesKey, AbeSupport.decryptKey s.platform.abe command.scheme s.keys.1 prvKey P.encrypted =
      .ok aesKey

variable {s : Setting Token} {D : Deployment s.platform.abe Token}

/-- The Interest that the owner sends for a command. -/
def commandInterest (s : Setting Token) (command : OwnerCommand) (seed : ℕ) : Interest :=
  s.signer.sign ⟨DataOwner.policyName command, false, none, none⟩ seed

/-- The owner's command is for the producer, in its mode, can be sent, and passes for authentic. -/
structure Instructs (s : Setting Token) (D : Deployment s.platform.abe Token)
    (command : OwnerCommand) (seed : ℕ) : Prop where
  addressed : command.producerPrefix = D.exchange.producer.m_cert.getIdentity
  requestable : command.producerPrefix.Requestable
  mode : D.exchange.producer.ModeOf command.command
  authentic : authentic s.auth D.exchange.producer (s.commandInterest command seed) = true

/-- **The owner's command takes effect.** -/
theorem Instructs.steps {command : OwnerCommand} {seed : ℕ} (h : s.Instructs D command seed) :
    ∃ owner, Relation.ReflTransGen s.Step D { D with exchange := ⟨owner,
      D.exchange.producer.answered (s.commandInterest command seed) (some command.command)⟩ } := by
  have hissue : s.Step D _ := .exchange (.command command seed) h.addressed
  have hname : DataOwner.policyName command <+: (s.commandInterest command seed).name :=
    List.prefix_append _ _
  have hdispatch := dispatch_of_policyName h.addressed hname h.mode h.authentic
  have hissued : Faithful s.auth
      (PolicyExchange.next s.signer s.auth s.platform.mem D.exchange (.command command seed))
      (.deliverInterest (s.commandInterest command seed)) := by
    intro _
    refine ⟨⟨command, _⟩, ?_, rfl, not_misreads_of_modeOf h.mode⟩
    have hrequest := (requestable_policyName command).mpr h.requestable
    rw [PolicyExchange.next, DataOwner.exec_commandProducerPolicy, if_pos hrequest]
    exact List.mem_append_left _ (List.mem_append_right _ (List.mem_singleton_self _))
  have hdeliver := (Relation.ReflTransGen.single hissue).tail
    (.exchange (.deliverInterest (s.commandInterest command seed)) hissued)
  refine ⟨((DataOwner.commandProducerPolicy s.signer command seed).exec D.exchange.owner).2, ?_⟩
  rw [← hdispatch]
  exact hdeliver

/-! ## The authority's part -/

/-- The Interest by which the consumer asks for its key. -/
def keyRequest (s : Setting Token) : Interest :=
  ⟨decryptionKeyName s.authorityCert.getIdentity s.consumerCert.getKeyName, false, none, none⟩

/-- The consumer can ask the authority, which makes a key of a token for it, and the consumer's
TPM opens the key. -/
structure Enrolls (s : Setting Token) (aa : AttributeAuthority Token) (token : Token)
    (now seed : ℕ) (g : Generation) : Prop where
  requestable : s.authorityCert.getIdentity.Requestable
  name : s.consumerCert.getKeyName.Carriable
  opens : ∃ privateKey, s.platform.crypto.KeyPair s.consumerCert.getPublicKey privateKey
    s.consumerCert.getKeyName
  certificate : aa.m_trustConfig.findCertificateFromLocal s.consumerCert.getKeyName = some g.cert
  sameKey : SameKey s.consumerCert g.cert
  held : aa.m_tokens.find s.consumerCert.getIdentity = some token
  objName : g.objName = s.keyRequest.name ++ [Component.fromVersion now]
  prvKey : s.keyGen s.keys.1 s.keys.2 token seed = .ok g.prvKey
  noNul : (0 : UInt8) ∉ g.prvKey.m_prv
  dkBlock : encryptDataContentWithCK s.platform.crypto g.prvKey.toBuffer g.cert.getPublicKey seed =
    .ok g.dkBlock
  dkSegments : segment g.dkBlock.encode g.objName s.maxSegmentSize = .ok g.dkSegments

variable {token : Token} {now seed : ℕ} {g : Generation}

/-- The authority still is who it was, with the keys it was made with. -/
theorem Kept.sameKeys (h : s.Kept D) : SameKeys s.initialAuthority D.authority := by
  obtain ⟨events, -, hrun⟩ := h.served
  rw [hrun]
  exact run_sameKeys _ _ _ _

/-- **The consumer's request makes the key.** -/
theorem Enrolls.step (h : s.Enrolls D.authority token now seed g) (hk : s.Kept D) :
    ∃ authority, s.Step D { D with authority := authority } ∧
      g ∈ generations authority.log := by
  have hsame := hk.sameKeys
  have hrequest : s.keyRequest.name =
      decryptionKeyName D.authority.m_cert.getIdentity s.consumerCert.getKeyName := by
    rw [hsame.cert_eq]
    rfl
  have hdecoded : D.authority.supposedKeyName s.keyRequest.name =
      .ok s.consumerCert.getKeyName := by
    rw [hrequest]
    exact supposedKeyName_decryptionKeyName h.name
  have hprvKey : s.keyGen D.authority.m_pubParams D.authority.m_masterKey token seed =
      .ok g.prvKey := by
    rw [hsame.pubParams_eq, hsame.masterKey_eq]
    exact h.prvKey
  have hsegments : segment g.dkBlock.encode g.objName D.authority.m_maxSegmentSize =
      .ok g.dkSegments := by
    rw [hsame.maxSegmentSize_eq]
    exact h.dkSegments
  obtain ⟨first, hnext⟩ := next_of_request hdecoded (isSegmentRequest_decryptionKeyName _ _)
    ⟨g.cert, h.certificate, h.sameKey⟩ h.certificate h.objName h.held hprvKey h.dkBlock hsegments
  have hlog : generations (AttributeAuthority.next s.keyGen s.platform.crypto D.authority
      (.decryptionKeyRequest s.keyRequest now seed)).log =
        generations D.authority.log ++ [g] := by
    rw [hnext]
    simp [store, record, generations]
  have hnul : ∀ g' ∈ generations D.authority.log ++ [g], (0 : UInt8) ∉ g'.prvKey.m_prv :=
    List.forall_mem_append.mpr ⟨hk.noNul, List.forall_mem_singleton.mpr h.noNul⟩
  rw [← hlog] at hnul
  refine ⟨_, .authority (.decryptionKeyRequest s.keyRequest now seed) trivial hnul, ?_⟩
  rw [hlog]
  exact List.mem_append_right _ (List.mem_singleton_self g)

/-- **The consumer opens the key.** -/
theorem Enrolls.brings {aa : AttributeAuthority Token} (h : s.Enrolls aa token now seed g)
    (hs : s.Assumed) :
    Brings s.platform s.consumerCert (reassemble g.dkSegments) g.prvKey := by
  obtain ⟨privateKey, hpair⟩ := h.opens
  rw [← h.sameKey.2] at hpair
  have hsealed : g.Sealed s.platform.crypto s.maxSegmentSize := ⟨⟨seed, h.dkBlock⟩, h.dkSegments⟩
  have hcertName : extractKeyNameFromCertName s.consumerCert.getName =
      .ok s.consumerCert.getKeyName := if_pos s.consumerCert.valid
  have hbuffer := hsealed.ofBuffer_eq
  obtain ⟨-, hopened⟩ := decryptDataContent_of_encrypted hs.crypto hpair hcertName h.dkBlock
    hbuffer.2
  exact ⟨g.dkBlock, _, hbuffer.1, hopened,
    PrivateKey.fromBuffer_toBuffer s.platform.mem h.noNul⟩

/-! ## The consumer's part -/

/-- What may happen to the consumer while nobody else does anything. -/
def Delivered (s : Setting Token) (D : Deployment s.platform.abe Token)
    (d : System.Config Consumer Exn Invocation)
    (a : System.Act Exn Consumer.Entry Consumer.Event) : Prop :=
  ∃ new, ∀ handed, s.Delivery { D with consumer := d, handed := handed } a new

/-- **A run of the consumer** is one of the deployment. -/
theorem steps_of_reaches {d : System.Config Consumer Exn Invocation}
    (h : (Consumer.system s.platform).Reaches (s.Delivered D) D.consumer d) :
    ∃ more, Relation.ReflTransGen s.Step D { D with
      consumer := d
      handed := D.handed ++ more } := by
  induction h with
  | refl =>
    refine ⟨[], ?_⟩
    rw [List.append_nil]
  | @step d e a hreaches hok hs ih =>
    obtain ⟨more, hsteps⟩ := ih
    obtain ⟨new, hnew⟩ := hok
    refine ⟨more ++ new, ?_⟩
    rw [← List.append_assoc]
    exact hsteps.tail (.consumer a new (hnew _) e hs)

variable (s D) in
/-- The supply, with everything that has been published at the application's hands. -/
def offer (h : s.Kept D) : Supply s.platform where
  cert := s.consumerCert
  produced := (s.supply D h).produced
  handed _ P := P ∈ (s.supply D h).produced
  keys := s.consumerKeys D
  produced_of_handed hP := hP
  oneKey := (s.supply D h).oneKey

/-- The calls that content has been handed to are no matter. -/
theorem Kept.rehand (h : s.Kept D) (d : System.Config Consumer Exn Invocation)
    {handed : List (ℕ × Publication s.platform.abe)}
    (hhanded : ∀ entry ∈ handed, entry.2 ∈ D.published) :
    s.Kept { D with consumer := d, handed := handed } :=
  ⟨h.served, h.noNul, h.provenance, h.published, h.oneKey, hhanded⟩

theorem offer_extends (h : s.Kept D) {d : System.Config Consumer Exn Invocation}
    {handed : List (ℕ × Publication s.platform.abe)}
    (h' : s.Kept { D with consumer := d, handed := handed }) :
    (s.supply _ h').Extends (s.offer D h) := by
  refine ⟨rfl, fun _ hP => hP, ?_, fun _ hkey => hkey⟩
  rintro id P ⟨pub, hpub, hproduction⟩
  exact ⟨pub, h'.handed _ hpub, hproduction⟩

/-- What is delivered is in the supply. -/
theorem Delivered.allowed (hs : s.Assumed) (h : s.Kept D)
    {d : System.Config Consumer Exn Invocation}
    {a : System.Act Exn Consumer.Entry Consumer.Event} (ha : s.Delivered D d a) :
    (s.offer D h).Allowed d.st a := by
  obtain ⟨new, hnew⟩ := ha
  have hdelivery := hnew []
  have h' := h.rehand d hdelivery.published
  exact (hdelivery.allowed hs h').extend (offer_extends h h')

/-- A consumer in a reachable deployment has been served from what is on offer. -/
theorem honest_of_reachable (hs : s.Assumed) (hreach : s.Reachable D) :
    ∃ h : s.Kept D, (s.offer D h).Honest D.consumer.st := by
  obtain ⟨h, hreaches⟩ := s.supply_of_reachable hs hreach
  have hinitial : (s.offer D h).Honest s.initial.consumer.st :=
    Supply.honest_initial _ _ _ rfl (Or.inl rfl)
  refine ⟨h, Supply.honest_of_reaches hs.abe hinitial (hreaches.mono ?_)⟩
  exact fun _ _ => Supply.Allowed.extend (offer_extends h h)

/-- What is published can be had. -/
theorem offered_delivered {pub : Publication s.platform.abe} (hpub : pub ∈ D.published)
    (hg : g ∈ generations D.authority.log) {dataBlock : Block}
    (hblock : Block.ofBuffer (reassemble pub.production.data) = .ok dataBlock) :
    Offered (s.Delivered D) pub.production dataBlock (reassemble g.dkSegments) where
  resume _ := ⟨_, fun _ => .resume none⟩
  askKey _ := ⟨_, fun _ => .askKey⟩
  key _ interestName := by
    refine ⟨[], fun _ => .decryptionKey g ?_ interestName⟩
    exact hg
  timeout _ := ⟨_, fun _ => .timeout 200⟩
  content d _ := by
    refine ⟨[(d.st.nextCall, pub)], fun _ => .block pub ?_ dataBlock hblock true true⟩
    exact hpub
  contentKey _ := by
    refine ⟨[], fun _ => .contentKey pub ?_⟩
    exact hpub

/-- **A consumer that can open what is published reports it.** -/
theorem steps_of_opens (hs : s.Assumed) (h : s.Kept D) {c : Consumer}
    (hc : D.consumer = ⟨c, []⟩) (hhonest : (s.offer D h).Honest c)
    (hsound : c.AbeSound s.platform) {pub : Publication s.platform.abe} (hpub : pub ∈ D.published)
    (hg : g ∈ generations D.authority.log)
    (hbrings : Brings s.platform s.consumerCert (reassemble g.dkSegments) g.prvKey)
    (horphan : ¬ Orphan c pub.production.ckName) (hname : pub.production.ckName.Requestable)
    (hrequest : c.keyInterestName.Requestable) (hopens : Opens pub.production g.prvKey c) :
    ∃ d handed id, Relation.ReflTransGen s.Step D { D with consumer := d, handed := handed } ∧
      (id, pub) ∈ handed ∧ .success id pub.production.plaintext ∈ d.st.invoked := by
  obtain ⟨dataBlock, hblock, -⟩ := pub.production.parseContent_data
  have ho := offered_delivered hpub hg hblock
  obtain ⟨t, ht, hsuccess⟩ := reaches_answering ho (fun _ _ => Delivered.allowed hs h) hs.abe
    ⟨pub, hpub, rfl⟩ hblock hhonest hsound horphan hname hrequest hopens hbrings
  rw [← hc] at ht
  obtain ⟨more, hready⟩ := steps_of_reaches ht
  -- The call that is answered, and the return of its callback.
  have hdelivery : s.Delivery { D with consumer := ⟨t, []⟩, handed := D.handed ++ more }
      (.enter (.consumeBlock dataBlock true true)) [(t.nextCall, pub)] := by
    refine .block pub ?_ dataBlock hblock true true
    exact hpub
  have hcall : s.Step { D with consumer := ⟨t, []⟩, handed := D.handed ++ more } _ :=
    .consumer (.enter (.consumeBlock dataBlock true true)) _ hdelivery _ rfl
  have hreturn : (Consumer.system s.platform).Reaches (s.Delivered D)
      (System.start (Consumer.consumeBlock s.platform dataBlock true true) t [])
      ⟨((Consumer.consumeBlock s.platform dataBlock true true).exec t).2, []⟩ :=
    System.reaches_exec ho.resume _ t []
  obtain ⟨rest, hreturned⟩ := steps_of_reaches (D := { D with
    consumer := System.start (Consumer.consumeBlock s.platform dataBlock true true) t []
    handed := D.handed ++ more ++ [(t.nextCall, pub)] }) hreturn
  refine ⟨_, _, t.nextCall, (hready.tail hcall).trans hreturned, ?_, hsuccess⟩
  exact List.mem_append_left _ (List.mem_append_right _ (List.mem_singleton_self _))

/-! ## The result -/

/-- The packets are what the producer makes for the name of a command, under its value and with
the authority's parameters, and their content key has a name of its own that can be asked for. -/
structure Publishes (s : Setting Token) (D : Deployment s.platform.abe Token)
    (command : PolicyCommand) (pub : Publication s.platform.abe) (maxSegmentSize word seed : ℕ) :
    Prop where
  value : command.HasValue
  named : command.dataPrefix = pub.dataNameSuffix
  name : pub.dataNameSuffix ≠ []
  params : D.exchange.producer.m_paramFetcher.m_pubParamsCache = s.keys.1
  produced : ProducedUnder s.platform.abe D.exchange.producer pub.dataNameSuffix
    pub.production.content maxSegmentSize word seed
    (pub.production.data, pub.production.ckData) command
  fresh : ∀ other ∈ D.published, other.production.ckName ≠ pub.production.ckName
  requestable : pub.production.ckName.Requestable

/-- The consumer holds the authority's parameters, in a command's mode. -/
structure Follows (s : Setting Token) (fetcher : ParamFetcher) (command : PolicyCommand) :
    Prop where
  params : fetcher.m_pubParamsCache = s.keys.1
  mode : fetcher.m_abeType = command.scheme.abeType

/-- **A key of a token that is granted the command opens what is published under it.** -/
theorem opens_of_grants (hs : s.Assumed) {Grants : Token → PolicyCommand → Prop}
    (hserves : s.Serves Grants) {command : PolicyCommand} {pub : Publication s.platform.abe}
    {maxSegmentSize word seed' : ℕ}
    (hpublishes : s.Publishes D command pub maxSegmentSize word seed')
    (henrolls : s.Enrolls D.authority token now seed g) (hgrants : Grants token command)
    {c : Consumer} (hfollows : s.Follows c.m_paramFetcher command) :
    Opens pub.production g.prvKey c := by
  have hencrypted := encryptedWith_of_produced pub.production hs.abe hpublishes.produced
  have hparams := m_pub_ne_nil_of_produced pub.production hpublishes.produced
  rw [hpublishes.params] at hencrypted hparams
  obtain ⟨aesKey, hopened⟩ := hserves token seed g.prvKey pub.production command henrolls.prvKey
    hgrants hencrypted
  have hkey : g.prvKey.m_prv ≠ [] := by
    intro hnil
    exact hs.ne_of_opened ⟨_, _, _, hopened⟩ (congrArg PrivateKey.mk hnil)
  constructor
  · simp [Consumer.readyForDecryption, hfollows.params, hparams, hkey]
  · refine ⟨command.scheme, pub.production.encrypted, aesKey, ?_,
      pub.production.stringFrom_encAesKey hs.abe _, ?_⟩
    · cases command with
      | policy dataPrefix policy => exact Or.inl ⟨hfollows.mode, rfl⟩
      | attributes dataPrefix attributes => exact Or.inr ⟨hfollows.mode, rfl⟩
    · dsimp only
      rw [hfollows.params]
      exact hopened

end Setting

/-- **Who is granted content gets it.**  From every state that a deployment reaches, however its
consumer's fetches and callbacks have ended, the run can be continued to one in which new
content that is published under a command of the owner is reported to the consumer: it is
enough that the authority makes keys for the consumer's token, that this token is granted the
command, that the command is of the producer's mode, sets a value for the name of the content and
passes for authentic at the producer, that the producer and the consumer hold the authority's
parameters, and that the names asked for are ones that Interests can have. -/
theorem content_isAvailable (s : Setting Token) (hs : s.Assumed)
    (Grants : Token → PolicyCommand → Prop) (hserves : s.Serves Grants)
    (D : Deployment s.platform.abe Token) (hreach : s.Reachable D) (token : Token)
    (now keySeed : ℕ) (g : Generation) (henrolls : s.Enrolls D.authority token now keySeed g)
    (command : OwnerCommand) (commandSeed : ℕ) (hinstructs : s.Instructs D command commandSeed)
    (hgrants : Grants token command.command) (pub : Publication s.platform.abe)
    (hlength : pub.production.content.length < 2 ^ 32) (maxSegmentSize word seed : ℕ)
    (hpublishes : s.Publishes D command.command pub maxSegmentSize word seed)
    (hfollows : s.Follows D.consumer.st.m_paramFetcher command.command) :
    ∃ D' id, Relation.ReflTransGen s.Step D D' ∧ pub ∈ D'.published ∧ (id, pub) ∈ D'.handed ∧
      .success id pub.production.content ∈ D'.consumer.st.invoked := by
  rw [← pub.production.plaintext_eq hlength]
  obtain ⟨h, hreaches⟩ := s.supply_of_reachable hs hreach
  -- The consumer's callbacks return.
  have hresume : ∀ d, s.Delivered D d (.resume none) := fun _ => ⟨_, fun _ => .resume none⟩
  obtain ⟨c, hreturn, hsame⟩ := System.exists_idle_of_good hresume (fun _ => trivial)
    (Consumer.good_paramFetcher_of_reaches hreaches)
  obtain ⟨more, hidle⟩ := s.steps_of_reaches hreturn
  obtain ⟨h₁, hhonest₁⟩ := s.honest_of_reachable hs (hreach.trans hidle)
  -- The others do their part.
  obtain ⟨authority, hauthority, hg⟩ := Setting.Enrolls.step
    (D := ⟨D.authority, D.exchange, D.published, ⟨c, []⟩, D.handed ++ more⟩) henrolls h₁
  obtain ⟨owner, howner⟩ := Setting.Instructs.steps (s := s)
    (D := ⟨authority, D.exchange, D.published, ⟨c, []⟩, D.handed ++ more⟩)
    ⟨hinstructs.addressed, hinstructs.requestable, hinstructs.mode, hinstructs.authentic⟩
  have hfinds := finds_answered D.exchange.producer (s.commandInterest command commandSeed)
    command.command (hpublishes.named ▸ hpublishes.name)
  rw [hpublishes.named] at hfinds
  have hproduced := produce_of_finds hpublishes.value hfinds (hpublishes.produced.answered _ _)
  have hrun := ((hidle.tail hauthority).trans howner).tail
    (.publish pub maxSegmentSize word seed hproduced hpublishes.fresh)
  -- The content key is fetched, since nothing of that name has been published before.
  obtain ⟨h₂, hhonest₂⟩ := s.honest_of_reachable hs (hreach.trans hrun)
  obtain ⟨_, hreaches₂⟩ := s.supply_of_reachable hs (hreach.trans hrun)
  have hrequest : c.keyInterestName.Requestable := by
    have hsameName := keyInterestName_of_reaches hreaches₂
    rw [show c.keyInterestName = _ from hsameName]
    exact (requestable_decryptionKeyName _ _).mpr henrolls.requestable
  have hsound : c.AbeSound s.platform := by
    have hinitial : s.initial.consumer.st.AbeSound s.platform :=
      AbeSupport.sound_initial s.platform.abe
    exact Consumer.sound_of_reaches hinitial hreaches₂
  have horphan : ¬ Orphan c pub.production.ckName := by
    rintro ⟨hmark, -⟩
    obtain ⟨P, ⟨other, hother, rfl⟩, hsameName⟩ := hhonest₁.marked _ hmark
    exact hpublishes.fresh other hother hsameName
  have hopens : Opens pub.production g.prvKey c :=
    s.opens_of_grants hs hserves hpublishes henrolls hgrants (hsame ▸ hfollows)
  have hpub : pub ∈ D.published ++ [pub] := List.mem_append_right _ (List.mem_singleton_self _)
  obtain ⟨d, handed, id, hsteps, hhanded, hsuccess⟩ := s.steps_of_opens hs h₂ rfl hhonest₂ hsound
    hpub hg (henrolls.brings hs) horphan hpublishes.requestable hrequest hopens
  exact ⟨_, id, hrun.trans hsteps, hpub, hhanded, hsuccess⟩

/-! ## A run -/

/-- The attributes spell the policy, which is not empty. -/
def SpellsOut (attrs : List Bytes) (command : PolicyCommand) : Prop :=
  Spells attrs command ∧ policyString attrs ≠ .ok []

/-- Its scheme opens with a key what is encrypted under the attribute the key spells out. -/
theorem serves_spellsOut : exampleSetting.Serves SpellsOut := by
  rintro attrs seed prvKey P command hgenerated ⟨hspells, hne⟩ hencrypted
  obtain ⟨joined, hjoined, hkey⟩ := bind_eq_ok.mp hgenerated
  obtain rfl : ⟨joined⟩ = prvKey := Except.ok.inj hkey
  have hnil : joined ≠ [] := by
    rintro rfl
    exact hne hjoined
  have hlabel : ∃ aesKey, P.encrypted = MockAbe.enclose joined aesKey := by
    cases command with
    | policy dataPrefix policy =>
      obtain ⟨aesKey, seed, hencrypt⟩ := hencrypted
      have hsame : joined = policy := Except.ok.inj (hjoined.symm.trans hspells)
      subst hsame
      exact ⟨aesKey, (Option.some.inj hencrypt).symm⟩
    | attributes dataPrefix attrs' =>
      obtain ⟨joined', aesKey, seed, hjoined', hencrypt⟩ := hencrypted
      have hsame : joined' = joined :=
        Except.ok.inj ((hjoined'.symm.trans hspells).trans hjoined)
      subst hsame
      exact ⟨aesKey, (Option.some.inj hencrypt).symm⟩
  obtain ⟨aesKey, hencrypted⟩ := hlabel
  refine ⟨aesKey, ?_⟩
  have hpub : exampleSetting.platform.abe.importPublicParams command.scheme
      exampleSetting.keys.1.m_pub = true := rfl
  have hprv : exampleSetting.platform.abe.importUserKey command.scheme
      exampleSetting.keys.1.m_pub joined = true := decide_eq_true hnil
  have hopened : exampleSetting.platform.abe.decrypt command.scheme exampleSetting.keys.1.m_pub
      joined (MockAbe.enclose joined aesKey) = some (some aesKey) :=
    congrArg some (MockAbe.disclose_enclose_self joined aesKey)
  simp [AbeSupport.decryptKey, hencrypted, hpub, hprv, hopened]

/-- `/c` is registered, everybody has the parameters, and `/c` is telling the application that it
has no key yet. -/
def refusedExample : Deployment mockAbe (List Bytes) where
  authority := registeredAuthority
  exchange := PolicyExchange.next exampleSigner exampleAuth Consumer.mockPlatform.mem
    exampleSetting.initial.exchange cpParams
  published := []
  consumer := System.start (Consumer.consumeInterest
    [Component.generic (ascii "p"), Component.generic (ascii "d")] true true) keylessConsumer []
  handed := []

/-- The refused call is in a run of the deployment. -/
theorem reachable_refusedExample : exampleSetting.Reachable refusedExample := by
  have hstart : exampleSetting.Reachable exampleSetting.initial := .refl
  have hregistered := hstart.tail (.authority (.addNewPolicyCert consumerCert [ascii "x"])
    (fun _ => rfl) (List.forall_mem_nil _))
  have hproducer := hregistered.tail (.exchange cpParams trivial)
  have hconsumer := hproducer.tail (.consumer _ [] (.publicParams Consumer.pubParamsData none)
    ⟨keylessConsumer, []⟩ rfl)
  have hrefuses : (Consumer.system Consumer.mockPlatform).step ⟨keylessConsumer, []⟩
      (.enter (.consumeInterest [Component.generic (ascii "p"), Component.generic (ascii "d")]
        true true)) = some refusedExample.consumer := rfl
  have hrefused := hconsumer.tail (.consumer _ [] (.interest _ true true) _ hrefuses)
  exact hrefused

/-- The consumer can enroll after it. -/
theorem enrolls_refusedExample :
    exampleSetting.Enrolls refusedExample.authority [ascii "x"] 5 4 keyExample where
  requestable := by decide
  name := by
    unfold Name.Carriable
    decide
  opens := ⟨[9], mockCrypto_keyPair _⟩
  certificate := rfl
  sameKey := ⟨rfl, rfl⟩
  held := rfl
  objName := rfl
  prvKey := rfl
  noNul := by decide
  dkBlock := rfl
  dkSegments := rfl

theorem instructs_refusedExample : exampleSetting.Instructs refusedExample policyExample 0 :=
  ⟨rfl, by decide, rfl, rfl⟩

theorem publishes_refusedExample : exampleSetting.Publishes refusedExample policyExample.command
    publicationExample 1500 1 4 where
  value := List.cons_ne_nil _ _
  named := rfl
  name := List.cons_ne_nil _ _
  params := rfl
  produced := ⟨rfl, rfl⟩
  fresh := List.forall_mem_nil _
  requestable := requestable_ckName

/-- The content is delivered after a refused call. -/
theorem content_isAvailable_example : ∃ (D : Deployment mockAbe (List Bytes)) (id : ℕ),
    Relation.ReflTransGen exampleSetting.Step refusedExample D ∧
      publicationExample ∈ D.published ∧ (id, publicationExample) ∈ D.handed ∧
      .success id publicationExample.production.content ∈ D.consumer.st.invoked :=
  content_isAvailable exampleSetting assumed_exampleSetting SpellsOut serves_spellsOut
    refusedExample reachable_refusedExample [ascii "x"] 5 4 keyExample enrolls_refusedExample
    policyExample 0 instructs_refusedExample ⟨rfl, by decide⟩ publicationExample (by decide)
    1500 1 4 publishes_refusedExample ⟨rfl, rfl⟩

end Analysis

end NacAbe
