import NacAbe.Analysis.CommandLedger
import NacAbe.Interface.PolicyStore
import NacAbe.Program.Producer

/-!
# Under whose policy data is encrypted

A producer that produces by data name encrypts under what its tables hold for a prefix of
that name, and its tables hold what SET_POLICY Interests set.  Where signatures cannot be
made up and commands are read in the mode they are meant for, every entry is the value of
a command that the owner issued for that prefix (`Provenance`), so nothing is encrypted
under a policy that the owner has not issued for a prefix of the name
(`produced_underIssued`).
-/

set_option autoImplicit false

namespace NacAbe.Analysis

open NacAbe PolicyExchange Producer

/-- What is asked of a run: the owner commands this producer, an Interest that passes for
authentic is one that the owner sent, and its command is read in the mode it is meant for. -/
def Faithful (auth : Authentication) (x : PolicyExchange) : Event → Prop
  | .command command _ => command.producerPrefix = x.producer.m_cert.getIdentity
  | .deliverInterest interest => authentic auth x.producer interest = true →
    ∃ sent ∈ issued x.owner, sent.interest = interest ∧
      ¬ x.producer.Misreads sent.command.command
  | _ => True

/-- The tables hold what the owner issued. -/
structure Provenance (x : PolicyExchange) : Prop where
  addressed : ∀ sent ∈ issued x.owner,
    sent.command.producerPrefix = x.producer.m_cert.getIdentity ∧
      DataOwner.policyName sent.command <+: sent.interest.name
  policies : ∀ item ∈ x.producer.m_policies, ∃ sent ∈ issued x.owner,
    sent.command.command = .policy item.1 item.2
  attributes : ∀ item ∈ x.producer.m_attributes, ∃ sent ∈ issued x.owner,
    sent.command.command = .attributes item.1 item.2

variable {signer : Signer} {auth : Authentication} {mem : Memory} {x : PolicyExchange} {e : Event}

/-! ## The tables -/

/-- An entry after an installation is the new one or an old one. -/
theorem mem_addNew_cases {α : Type} {dataPrefix : Name} {value : List α}
    {items : List (Name × List α)} {item : Name × List α}
    (h : item ∈ PolicyTable.addNew dataPrefix value items) :
    item = (dataPrefix, value) ∨ item ∈ items := by
  induction items with
  | nil => exact Or.inl (List.mem_singleton.mp h)
  | cons first items ih =>
    rw [PolicyTable.addNew] at h
    split at h
    · next hfirst =>
      rcases List.mem_cons.mp h with rfl | hrest
      · exact Or.inl (by rw [hfirst])
      · exact Or.inr (List.mem_cons_of_mem _ hrest)
    · rcases List.mem_cons.mp h with rfl | hrest
      · exact Or.inr List.mem_cons_self
      · exact (ih hrest).imp_right (List.mem_cons_of_mem _)

theorem issued_mono {sent : SentCommand} (h : sent ∈ issued x.owner) :
    sent ∈ issued (next signer auth mem x e).owner :=
  (issued_next signer auth mem x e).mem_iff.mpr (List.mem_append_left _ h)

/-- An event that leaves the producer's tables and certificate alone. -/
theorem Provenance.of_tables (h : Provenance x)
    (hcert : (next signer auth mem x e).producer.m_cert = x.producer.m_cert)
    (hpolicies : (next signer auth mem x e).producer.m_policies = x.producer.m_policies)
    (hattributes : (next signer auth mem x e).producer.m_attributes = x.producer.m_attributes)
    (hnew : ∀ sent, issuedBy signer e = some sent →
      sent.command.producerPrefix = x.producer.m_cert.getIdentity ∧
        DataOwner.policyName sent.command <+: sent.interest.name) :
    Provenance (next signer auth mem x e) := by
  refine ⟨?_, ?_, ?_⟩
  · intro sent hsent
    rw [hcert]
    rcases List.mem_append.mp ((issued_next signer auth mem x e).mem_iff.mp hsent) with hold | hnow
    · exact h.addressed sent hold
    · exact hnew sent (Option.mem_toList.mp hnow)
  · rw [hpolicies]
    intro item hitem
    obtain ⟨sent, hsent, hcommand⟩ := h.policies item hitem
    exact ⟨sent, issued_mono hsent, hcommand⟩
  · rw [hattributes]
    intro item hitem
    obtain ⟨sent, hsent, hcommand⟩ := h.attributes item hitem
    exact ⟨sent, issued_mono hsent, hcommand⟩

/-- A command that was issued is carried out. -/
theorem Provenance.answered (h : Provenance x) {sent : SentCommand} (hsent : sent ∈ issued x.owner)
    (interest : Interest) {read : Option PolicyCommand}
    (hread : ∀ command, read = some command → command = sent.command.command) :
    Provenance { x with producer := x.producer.answered interest read } := by
  have hcert : (x.producer.answered interest read).m_cert = x.producer.m_cert :=
    m_cert_answered _ _ _
  refine ⟨fun sent hsent => ?_, ?_, ?_⟩
  · rw [hcert]
    exact h.addressed sent hsent
  · intro item hitem
    cases read with
    | none => exact h.policies item hitem
    | some command =>
      have hissued := hread command rfl
      cases command with
      | attributes dataPrefix attrs => exact h.policies item hitem
      | policy dataPrefix policy =>
        rcases mem_addNew_cases hitem with rfl | hold
        · exact ⟨sent, hsent, hissued.symm⟩
        · exact h.policies item hold
  · intro item hitem
    cases read with
    | none => exact h.attributes item hitem
    | some command =>
      have hissued := hread command rfl
      cases command with
      | policy dataPrefix policy => exact h.attributes item hitem
      | attributes dataPrefix attrs =>
        rcases mem_addNew_cases hitem with rfl | hold
        · exact ⟨sent, hsent, hissued.symm⟩
        · exact h.attributes item hold

/-- **One event.** -/
theorem Provenance.next (h : Provenance x) (he : Faithful auth x e) :
    Provenance (PolicyExchange.next signer auth mem x e) := by
  cases e with
  | command command seed =>
    refine h.of_tables rfl rfl rfl ?_
    intro sent hissued
    rw [issuedBy] at hissued
    split at hissued
    · cases hissued
      exact ⟨he, List.prefix_append _ _⟩
    · cases hissued
  | deliverInterest interest =>
    rcases dispatch_cases auth x.producer interest with
      hsame | ⟨dataPrefix, read, hauth, hprefix, hread, hanswered⟩
    · refine h.of_tables (congrArg m_cert hsame) (congrArg m_policies hsame)
        (congrArg m_attributes hsame) ?_
      rintro sent ⟨⟩
    · obtain ⟨sent, hsent, rfl, hmode⟩ := he hauth
      obtain ⟨hid, hname⟩ := h.addressed sent hsent
      rw [dataPrefixOf_policyName hid hname] at hprefix
      cases hprefix
      have hnext : PolicyExchange.next signer auth mem x (.deliverInterest sent.interest) =
          { x with producer := x.producer.answered sent.interest read } :=
        congrArg (PolicyExchange.mk x.owner) hanswered
      rw [hnext]
      refine h.answered hsent _ ?_
      rintro command rfl
      exact readCommand hid hname hmode hread
  | deliverData data digest =>
    refine h.of_tables rfl rfl rfl ?_
    rintro sent ⟨⟩
  | commandFailure position isNack =>
    refine h.of_tables rfl rfl rfl ?_
    rintro sent ⟨⟩
  | publicParams pubParamData validationError =>
    refine h.of_tables rfl rfl rfl ?_
    rintro sent ⟨⟩

/-! ## Production by data name -/

/-- What is found for a name is an entry for a prefix of it. -/
theorem mem_of_findMatched {α : Type} {items : List (Name × List α)} {dataName : Name}
    (h : PolicyTable.findMatched items dataName ≠ []) :
    ∃ dataPrefix, (dataPrefix, PolicyTable.findMatched items dataName) ∈ items ∧
      dataPrefix <+: dataName := by
  obtain ⟨max, hscan⟩ := PolicyTable.scanned_findMatched items dataName
  rcases hscan.attained with ⟨hnone, -⟩ | ⟨-, dataPrefix, hmem, hpre, -⟩
  · exact absurd hnone h
  · exact ⟨dataPrefix, hmem, hpre⟩

/-- The packets are those of the value of a command. -/
def ProducedUnder (abe : OpenAbe) (producer : Producer) (dataNameSuffix : Name) (content : Bytes)
    (maxSegmentSize word seed : ℕ) (packets : List Data × List Data) : PolicyCommand → Prop
  | .policy _ policy => producer.m_paramFetcher.m_abeType = abeTypeCpAbe ∧
      producer.producePolicy abe dataNameSuffix policy content maxSegmentSize word seed =
        .ok packets
  | .attributes _ attrs => producer.m_paramFetcher.m_abeType = abeTypeKpAbe ∧
      producer.produceAttributes abe dataNameSuffix attrs content maxSegmentSize word seed =
        .ok packets

/-- Whatever is produced by name is produced under a command for a prefix of the name. -/
theorem Provenance.produce (h : Provenance x) {abe : OpenAbe} {dataNameSuffix : Name}
    {content : Bytes} {maxSegmentSize word seed : ℕ} {packets : List Data × List Data}
    (hproduced : x.producer.produce abe dataNameSuffix content maxSegmentSize word seed =
      .ok packets) (hne : packets ≠ ([], [])) :
    ∃ sent ∈ issued x.owner, sent.command.command.dataPrefix <+: dataNameSuffix ∧
      ProducedUnder abe x.producer dataNameSuffix content maxSegmentSize word seed packets
        sent.command.command := by
  simp only [Producer.produce, produceMatched] at hproduced
  have hnothing : (pure ([], []) : Except Exn (List Data × List Data)) ≠ .ok packets := by
    intro heq
    exact hne (Except.ok.inj heq).symm
  split_ifs at hproduced with hcp hpolicy hkp hattrs
  · exact absurd hproduced hnothing
  · obtain ⟨dataPrefix, hmem, hpre⟩ := mem_of_findMatched hpolicy
    obtain ⟨sent, hsent, hcommand⟩ := h.policies _ hmem
    refine ⟨sent, hsent, ?_, ?_⟩
    · rw [hcommand]
      exact hpre
    · rw [hcommand]
      exact ⟨hcp, hproduced⟩
  · exact absurd hproduced hnothing
  · obtain ⟨dataPrefix, hmem, hpre⟩ := mem_of_findMatched hattrs
    obtain ⟨sent, hsent, hcommand⟩ := h.attributes _ hmem
    refine ⟨sent, hsent, ?_, ?_⟩
    · rw [hcommand]
      exact hpre
    · rw [hcommand]
      exact ⟨hkp, hproduced⟩
  · exact absurd hproduced hnothing

/-! ## The result -/

/-- Every faithful run keeps the provenance of the tables. -/
theorem provenance_run (identityCert attrAuthorityCertificate dataOwnerCertificate : Certificate)
    (template : Interest) (events : List Event)
    (h : Runs.Permitted (fun before e => Faithful auth (run signer auth mem (Producer.initial
      identityCert attrAuthorityCertificate dataOwnerCertificate template) before) e) events) :
    Provenance (run signer auth mem (Producer.initial identityCert attrAuthorityCertificate
      dataOwnerCertificate template) events) := by
  refine Runs.invariant (PolicyExchange.next signer auth mem) _ (fun _ x => Provenance x) ?_ ?_
    events h
  · exact ⟨List.forall_mem_nil _, List.forall_mem_nil _, List.forall_mem_nil _⟩
  · intro events e _ he ih
    exact ih.next he

/-- **Nothing is encrypted under a policy that was not issued.**  The network delays, repeats,
reorders and injects what it likes, and the producer's parameters change at any time; what
the producer then produces by name it produces under the policy or the attribute list of a
command that the owner issued for a prefix of that name. -/
theorem produced_underIssued (signer : Signer) (auth : Authentication) (mem : Memory)
    (identityCert attrAuthorityCertificate dataOwnerCertificate : Certificate)
    (template : Interest) (events : List Event)
    (h : Runs.Permitted (fun before e => Faithful auth (run signer auth mem (Producer.initial
      identityCert attrAuthorityCertificate dataOwnerCertificate template) before) e) events)
    (abe : OpenAbe) (dataNameSuffix : Name) (content : Bytes) (maxSegmentSize word seed : ℕ)
    (packets : List Data × List Data) (hne : packets ≠ ([], [])) :
    let x := run signer auth mem (Producer.initial identityCert attrAuthorityCertificate
      dataOwnerCertificate template) events
    x.producer.produce abe dataNameSuffix content maxSegmentSize word seed = .ok packets →
    ∃ sent ∈ commanded signer events, sent.command.command.dataPrefix <+: dataNameSuffix ∧
      ProducedUnder abe x.producer dataNameSuffix content maxSegmentSize word seed packets
        sent.command.command := by
  intro x hproduced
  obtain ⟨sent, hsent, hrest⟩ := (provenance_run _ _ _ _ _ h).produce hproduced hne
  exact ⟨sent, (issued_run signer auth mem _ events).mem_iff.mp hsent, hrest⟩

/-- The command that somebody else sends without a signature. -/
def unsignedInterest : Interest :=
  ⟨[Component.generic (ascii "p"), setPolicyComponent,
    Component.generic (Name.wireEncode [Component.generic (ascii "d")]).encode,
    Component.generic (ascii "y")], false, none, none⟩

/-- The owner's command arrives, twice, and after it the one without a signature. -/
def disturbedRun : List Event :=
  [cpParams, .command policyExample 0, .deliverInterest (interestFor policyExample),
    .deliverInterest (interestFor policyExample), .deliverInterest unsignedInterest]

theorem faithful_disturbedRun : Runs.Permitted (fun before e => Faithful exampleAuth
    (run exampleSigner exampleAuth noMemory exampleProducer before) e) disturbedRun := by
  have hdelivery : ∀ x : PolicyExchange,
      issued x.owner = [⟨policyExample, interestFor policyExample⟩] →
      x.producer.m_paramFetcher.m_abeType = abeTypeCpAbe →
      Faithful exampleAuth x (.deliverInterest (interestFor policyExample)) := by
    intro x hissued hmode _
    refine ⟨_, hissued ▸ List.mem_singleton_self _, rfl, ?_⟩
    rintro ⟨hkp, -⟩
    rw [hmode] at hkp
    exact absurd hkp (by decide)
  refine ((((((Runs.permitted_nil _).concat ?_).concat ?_).concat ?_).concat ?_).concat ?_)
  · trivial
  · rfl
  · exact hdelivery _ rfl rfl
  · exact hdelivery _ rfl rfl
  · intro hauth
    exact absurd hauth (by decide)

set_option maxRecDepth 1024 in
/-- What is produced in it is under the policy that was commanded. -/
theorem produced_underIssued_example : ∃ packets : List Data × List Data,
    (run exampleSigner exampleAuth noMemory exampleProducer disturbedRun).producer.produce mockAbe
      [Component.generic (ascii "d"), Component.generic (ascii "1")] (ascii "hi") 64 1 4 =
        .ok packets ∧
    ∃ sent ∈ commanded exampleSigner disturbedRun, sent.command.command.dataPrefix <+:
        [Component.generic (ascii "d"), Component.generic (ascii "1")] ∧
      ProducedUnder mockAbe (run exampleSigner exampleAuth noMemory exampleProducer
        disturbedRun).producer [Component.generic (ascii "d"), Component.generic (ascii "1")]
        (ascii "hi") 64 1 4 packets sent.command.command := by
  obtain ⟨packets, hproduced, hne⟩ : ∃ packets : List Data × List Data,
      (run exampleSigner exampleAuth noMemory exampleProducer disturbedRun).producer.produce mockAbe
        [Component.generic (ascii "d"), Component.generic (ascii "1")] (ascii "hi") 64 1 4 =
          .ok packets ∧ packets.2 ≠ [] := ⟨_, rfl, List.cons_ne_nil _ _⟩
  refine ⟨packets, hproduced, ?_⟩
  refine produced_underIssued exampleSigner exampleAuth noMemory (.sample (ascii "p") [1])
    (.sample (ascii "a") [2]) (.sample (ascii "o") [3]) ParamFetcher.defaultInterestTemplate
    disturbedRun faithful_disturbedRun mockAbe _ _ 64 1 4 packets ?_ hproduced
  rintro rfl
  exact hne rfl

end NacAbe.Analysis
