import NacAbe.Analysis.PolicyDelivery
import NacAbe.Analysis.PolicyLookup

/-!
# In which order commands take effect

A SET_POLICY Interest carries nothing that says when it was issued, and a producer keeps
nothing of the ones it has carried out: `addNewPolicy` and `addNewAttributes` replace
what they find (producer.cpp:230-257).  So commands take effect in the order in which
they are delivered, and an old Interest that is delivered again takes effect again.
-/

set_option autoImplicit false

namespace NacAbe.Analysis

open NacAbe PolicyExchange Producer LongestPrefix PolicyTable

/-- The commands of a run in the order of issue, each with the Interest that
`commandProducerPolicy` sends out for it. -/
def issuedCommands (signer : Signer) (events : List Event) : List SentCommand :=
  events.flatMap fun
    | .command command seed =>
      ((DataOwner.commandProducerPolicy signer command seed).exec .initial).2.outstanding
    | _ => []

/-- The command that an Interest carries to a producer: one that was issued with this
Interest and is meant for the producer's mode. -/
def carriedBy (producer : Producer) (issued : List SentCommand) (interest : Interest) :
    Option PolicyCommand :=
  (issued.find? fun sent => sent.interest = interest ∧ producer.ModeOf sent.command.command).map
    (·.command.command)

/-- The commands a run delivers to a producer, in the order of delivery. -/
def deliveredCommands (producer : Producer) (issued : List SentCommand) (events : List Event) :
    List PolicyCommand :=
  events.filterMap fun
    | .deliverInterest interest => carriedBy producer issued interest
    | _ => none

/-- What an owner issues to a producer whose mode is settled, over a network that delays,
reorders and repeats: every command is for the producer, its Interest is authentic and it
is not misread in the other mode; what the network delivers has been issued before. -/
structure Traffic (signer : Signer) (auth : Authentication) (producer : Producer)
    (events : List Event) : Prop where
  addressed : ∀ sent ∈ issuedCommands signer events,
    sent.command.producerPrefix = producer.m_cert.getIdentity
  accepted : ∀ sent ∈ issuedCommands signer events,
    authentic auth producer sent.interest = true
  notMisread : ∀ sent ∈ issuedCommands signer events,
    ¬ producer.Misreads sent.command.command
  issuedBefore : Runs.Permitted (fun before e => ∀ interest, e = .deliverInterest interest →
    ∃ sent ∈ issuedCommands signer before, sent.interest = interest) events
  modeSettled : ∀ data error, Event.publicParams data error ∉ events

/-- Every issued Interest has been delivered at least once. -/
def AllDelivered (signer : Signer) (events : List Event) : Prop :=
  ∀ sent ∈ issuedCommands signer events, .deliverInterest sent.interest ∈ events

/-- The issued commands that are meant for the producer's mode, in the order of issue. -/
def issuedInMode (signer : Signer) (producer : Producer) (events : List Event) :
    List PolicyCommand :=
  ((issuedCommands signer events).map (·.command.command)).filter (producer.ModeOf ·)

/-- A table maps each prefix to the last value it was given, and has no other entry. -/
def MapsToLast {α : Type} (table commands : List (Name × List α)) : Prop :=
  (table.map Prod.fst).Nodup ∧ ∀ p v, (p, v) ∈ table ↔ lastValue commands p = some v

variable {signer : Signer} {auth : Authentication} {mem : Memory} {producer p : Producer}
  {issued : List SentCommand} {interest : Interest} {events : List Event}

/-! ## One delivery -/

/-- What stays as it is at a producer that only receives commands. -/
structure SameParty (producer p : Producer) : Prop where
  cert_eq : p.m_cert = producer.m_cert
  key_eq : p.m_dataOwnerKeyName = producer.m_dataOwnerKeyName
  trust_eq : p.m_trustConfig = producer.m_trustConfig
  fetcher_eq : p.m_paramFetcher = producer.m_paramFetcher

theorem SameParty.authentic (h : SameParty producer p) (interest : Interest) :
    p.authentic auth interest = producer.authentic auth interest := by
  rw [Producer.authentic, Producer.authentic, h.key_eq, h.trust_eq]

theorem SameParty.modeOf (h : SameParty producer p) (command : PolicyCommand) :
    p.ModeOf command ↔ producer.ModeOf command := by
  cases command <;> simp only [ModeOf, h.fetcher_eq]

theorem SameParty.misreads (h : SameParty producer p) (command : PolicyCommand) :
    p.Misreads command ↔ producer.Misreads command := by
  cases command <;> simp only [Misreads, h.fetcher_eq]

theorem SameParty.answered (h : SameParty producer p) (interest : Interest)
    (command : Option PolicyCommand) : SameParty producer (p.answered interest command) := by
  rcases command with - | (_ | _) <;> exact ⟨h.cert_eq, h.key_eq, h.trust_eq, h.fetcher_eq⟩

/-- The tables of a producer. -/
def tables (p : Producer) : List (Name × Policy) × List (Name × List Bytes) :=
  (p.m_policies, p.m_attributes)

theorem tables_install {q : Producer} (h : tables p = tables q) (command : PolicyCommand) :
    tables (p.install command) = tables (q.install command) := by
  obtain ⟨hp, ha⟩ := Prod.mk.inj h
  cases command with
  | policy dataPrefix policy =>
    exact congrArg₂ Prod.mk (congrArg (PolicyTable.addNew dataPrefix policy) hp) ha
  | attributes dataPrefix attributes =>
    exact congrArg₂ Prod.mk hp (congrArg (PolicyTable.addNew dataPrefix attributes) ha)

/-- What is carried is a command that was issued with this Interest for this mode. -/
theorem carriedBy_some {command : PolicyCommand}
    (h : carriedBy producer issued interest = some command) :
    ∃ sent ∈ issued, sent.interest = interest ∧ producer.ModeOf command ∧
      sent.command.command = command := by
  obtain ⟨sent, hfind, rfl⟩ := Option.map_eq_some_iff.mp h
  have hsent := List.find?_some hfind
  rw [decide_eq_true_eq] at hsent
  exact ⟨sent, List.mem_of_find?_eq_some hfind, hsent.1, hsent.2, rfl⟩

theorem carriedBy_none (h : carriedBy producer issued interest = none) {sent : SentCommand}
    (hsent : sent ∈ issued) (hinterest : sent.interest = interest) :
    ¬ producer.ModeOf sent.command.command := by
  intro hmode
  have hnot := List.find?_eq_none.mp (Option.map_eq_none_iff.mp h) sent hsent
  exact hnot (by simp [hinterest, hmode])

/-- A delivery carries out what the Interest carries, or leaves the tables alone. -/
theorem tables_dispatch (hparty : SameParty producer p) {sent : SentCommand}
    (hid : sent.command.producerPrefix = producer.m_cert.getIdentity)
    (hname : DataOwner.policyName sent.command <+: sent.interest.name)
    (hauth : authentic auth producer sent.interest = true) :
    SameParty producer (dispatch auth p sent.interest) ∧
      (producer.ModeOf sent.command.command →
        tables (dispatch auth p sent.interest) = tables (p.install sent.command.command)) ∧
      (¬ producer.ModeOf sent.command.command → ¬ producer.Misreads sent.command.command →
        tables (dispatch auth p sent.interest) = tables p) := by
  have hid' : sent.command.producerPrefix = p.m_cert.getIdentity := by rw [hid, hparty.cert_eq]
  have hauth' : authentic auth p sent.interest = true := by rw [hparty.authentic, hauth]
  have hface : (p.m_cert.getIdentity ++ [setPolicyComponent]).isPrefixOf sent.interest.name :=
    List.isPrefixOf_iff_prefix.mpr (List.IsPrefix.trans ⟨_, by
      rw [DataOwner.policyName, hid', List.append_assoc]
      rfl⟩ hname)
  rw [dispatch, if_pos hface, exec_onPolicyInterest]
  refine ⟨?_, ?_, ?_⟩
  · rcases delivered_cases auth p sent.interest with hsame | ⟨_, _, -, -, -, hans⟩
    · rw [hsame]
      exact hparty
    · rw [hans]
      exact hparty.answered _ _
  · intro hmode
    rw [delivered_of_policyName hid' hname ((hparty.modeOf _).mpr hmode) hauth']
    cases sent.command.command <;> rfl
  · intro hmode hread
    rcases delivered_cases auth p sent.interest with
      hsame | ⟨dataPrefix, command, -, hprefix, hcommand, hans⟩
    · rw [hsame]
    · rw [hans]
      cases command with
      | none => rfl
      | some read =>
        have hdp := Except.ok.inj ((dataPrefixOf_policyName hid' hname).symm.trans hprefix)
        rw [← hdp] at hcommand
        exact absurd ((hparty.modeOf _).mp (modeOf_of_read hid' hname
          (fun h => hread ((hparty.misreads _).mp h)) hcommand)) hmode

/-! ## Runs -/

/-- An issued Interest is named by its command. -/
theorem interest_of_issued {sent : SentCommand} (h : sent ∈ issuedCommands signer events) :
    DataOwner.policyName sent.command <+: sent.interest.name := by
  obtain ⟨e, -, he⟩ := List.mem_flatMap.mp h
  cases e with
  | command command seed =>
    dsimp only at he
    rw [DataOwner.exec_commandProducerPolicy] at he
    split at he
    · obtain rfl := List.mem_singleton.mp he
      exact List.prefix_append _ _
    · cases he
  | _ => cases he

theorem mem_issuedCommands_append {before later : List Event} {sent : SentCommand}
    (h : sent ∈ issuedCommands signer before) : sent ∈ issuedCommands signer (before ++ later) := by
  rw [issuedCommands, List.flatMap_append]
  exact List.mem_append_left _ h

/-- The tables after the deliveries so far are those of the commands they carried. -/
structure Follows (producer : Producer) (issued : List SentCommand) (events : List Event)
    (p : Producer) : Prop where
  party : SameParty producer p
  tables_eq : tables p = tables (afterCommands producer (deliveredCommands producer issued events))

theorem deliveredCommands_concat (events : List Event) (e : Event) :
    deliveredCommands producer issued (events ++ [e]) =
      deliveredCommands producer issued events ++ deliveredCommands producer issued [e] :=
  List.filterMap_append

/-- An event that delivers no command and does not touch the producer. -/
theorem Follows.other {e : Event} (h : Follows producer issued events p)
    (he : deliveredCommands producer issued [e] = []) :
    Follows producer issued (events ++ [e]) p := by
  refine ⟨h.party, ?_⟩
  rw [deliveredCommands_concat, he, List.append_nil]
  exact h.tables_eq

/-- The step.  `issued` is what the whole run issues; the Interest of a delivery is one of
these. -/
theorem follows_step {x : PolicyExchange} {e : Event}
    (hissued : ∀ sent ∈ issued, sent.command.producerPrefix = producer.m_cert.getIdentity ∧
      DataOwner.policyName sent.command <+: sent.interest.name ∧
      authentic auth producer sent.interest = true ∧ ¬ producer.Misreads sent.command.command)
    (hdeliver : ∀ interest, e = .deliverInterest interest →
      ∃ sent ∈ issued, sent.interest = interest)
    (hmode : ∀ data error, e ≠ .publicParams data error)
    (h : Follows producer issued events x.producer) :
    Follows producer issued (events ++ [e]) (next signer auth mem x e).producer := by
  cases e with
  | deliverInterest interest =>
    change Follows producer issued _ (dispatch auth x.producer interest)
    cases hcarried : carriedBy producer issued interest with
    | some command =>
      obtain ⟨sent, hsent, rfl, hmeant, rfl⟩ := carriedBy_some hcarried
      obtain ⟨hid, hname, hauth, -⟩ := hissued sent hsent
      obtain ⟨hparty, hinstall, -⟩ := tables_dispatch h.party hid hname hauth
      refine ⟨hparty, ?_⟩
      have hone : deliveredCommands producer issued [.deliverInterest sent.interest] =
          [sent.command.command] := by simp [deliveredCommands, hcarried]
      rw [hinstall hmeant, deliveredCommands_concat, hone, afterCommands, List.foldl_append]
      exact tables_install h.tables_eq _
    | none =>
      obtain ⟨sent, hsent, rfl⟩ := hdeliver interest rfl
      obtain ⟨hid, hname, hauth, hread⟩ := hissued sent hsent
      obtain ⟨hparty, -, hsame⟩ := tables_dispatch h.party hid hname hauth
      refine ⟨hparty, ?_⟩
      have hone : deliveredCommands producer issued [.deliverInterest sent.interest] = [] := by
        simp [deliveredCommands, hcarried]
      exact (hsame (carriedBy_none hcarried hsent rfl) hread).trans (h.other hone).tables_eq
  | publicParams data error => exact absurd rfl (hmode data error)
  | command command seed => exact h.other rfl
  | deliverData data digest => exact h.other rfl
  | commandFailure position isNack => exact h.other rfl

/-- After every run. -/
theorem run_follows (hp : producer.m_policies = []) (ha : producer.m_attributes = [])
    (h : Traffic signer auth producer events) :
    Follows producer (issuedCommands signer events) events
      (run signer auth mem producer events).producer := by
  have hok : Runs.Permitted (fun _ e => (∀ interest, e = .deliverInterest interest →
      ∃ sent ∈ issuedCommands signer events, sent.interest = interest) ∧
      ∀ data error, e ≠ .publicParams data error) events := by
    intro before e later heq
    constructor
    · intro interest he
      obtain ⟨sent, hsent, hinterest⟩ := h.issuedBefore before e later heq interest he
      exact ⟨sent, heq ▸ mem_issuedCommands_append hsent, hinterest⟩
    · rintro data error rfl
      exact h.modeSettled data error (by simp [heq])
  refine Runs.invariant (next signer auth mem) _
    (fun before x => Follows producer (issuedCommands signer events) before x.producer)
    ?_ ?_ events hok
  · refine ⟨⟨rfl, rfl, rfl, rfl⟩, ?_⟩
    rw [afterCommands_eq]
    exact congrArg₂ Prod.mk hp ha
  · intro before e _ he hx
    refine follows_step ?_ he.1 he.2 hx
    intro sent hsent
    exact ⟨h.addressed sent hsent, interest_of_issued hsent, h.accepted sent hsent,
      h.notMisread sent hsent⟩

/-! ## The result -/

/-- What a run leaves in a table, by what it delivered to it and what was issued for it. -/
structure InDeliveryOrder {α : Type} (table delivered issued : List (Name × List α)) : Prop where
  last : MapsToLast table delivered
  issueOrder : MapsToLast table issued ↔ ∀ p, lastValue delivered p = lastValue issued p

/-- Installing what is delivered gives a table in delivery order. -/
theorem inDeliveryOrder_installed {α : Type} (delivered issued : List (Name × List α)) :
    InDeliveryOrder (installed delivered) delivered issued := by
  have hspec := installed_spec delivered
  refine ⟨hspec, ?_⟩
  constructor
  · intro h p
    apply Option.ext
    intro v
    rw [← hspec.2, h.2]
  · intro h
    refine ⟨hspec.1, ?_⟩
    intro p v
    rw [hspec.2, h]

/-- Two issued commands that one Interest carries in one mode are the same command. -/
theorem command_unique (h : Traffic signer auth producer events) {sent sent' : SentCommand}
    (hsent : sent ∈ issuedCommands signer events) (hsent' : sent' ∈ issuedCommands signer events)
    (hinterest : sent'.interest = sent.interest) (hmode : producer.ModeOf sent.command.command)
    (hmode' : producer.ModeOf sent'.command.command) :
    sent'.command.command = sent.command.command := by
  have hname := interest_of_issued hsent
  have hname' := hinterest ▸ interest_of_issued hsent'
  have hprefix := dataPrefixOf_policyName (h.addressed sent hsent) hname
  have hprefix' := dataPrefixOf_policyName (h.addressed sent' hsent') hname'
  have hread := commandOf_policyName (h.addressed sent hsent) hname hmode
  have hread' := commandOf_policyName (h.addressed sent' hsent') hname' hmode'
  rw [Except.ok.inj (hprefix'.symm.trans hprefix)] at hread'
  exact Option.some.inj (Except.ok.inj (hread'.symm.trans hread))

/-- Once every Interest has been delivered, what has been delivered is what was issued for
the producer's mode. -/
theorem mem_deliveredCommands (h : Traffic signer auth producer events)
    (hall : AllDelivered signer events) (command : PolicyCommand) :
    command ∈ deliveredCommands producer (issuedCommands signer events) events ↔
      command ∈ issuedInMode signer producer events := by
  simp only [issuedInMode, List.mem_filter, List.mem_map, decide_eq_true_eq]
  constructor
  · intro hmem
    obtain ⟨e, he, hcarried⟩ := List.mem_filterMap.mp hmem
    cases e with
    | deliverInterest interest =>
      obtain ⟨sent, hsent, -, hmode, rfl⟩ := carriedBy_some hcarried
      exact ⟨⟨sent, hsent, rfl⟩, hmode⟩
    | _ => cases hcarried
  · rintro ⟨⟨sent, hsent, rfl⟩, hmode⟩
    refine List.mem_filterMap.mpr ⟨.deliverInterest sent.interest, hall sent hsent, ?_⟩
    cases hcarried : carriedBy producer (issuedCommands signer events) sent.interest with
    | none => exact absurd hmode (carriedBy_none hcarried hsent rfl)
    | some command =>
      obtain ⟨sent', hsent', hinterest, hmode', rfl⟩ := carriedBy_some hcarried
      exact hcarried.trans (congrArg some (command_unique h hsent hsent' hinterest hmode hmode'))

/-- **Commands take effect in the order of their delivery.**  Over every network that
delays, reorders and repeats the Interests of an owner, a table maps each prefix to the
value of the command for it that was delivered last; that is the one issued last exactly
where the last delivery is of it.  Once everything issued has been delivered, the
prefixes in the table are those that were commanded. -/
theorem commands_inDeliveryOrder (signer : Signer) (auth : Authentication) (mem : Memory)
    (producer : Producer) (events : List Event) (hp : producer.m_policies = [])
    (ha : producer.m_attributes = []) (h : Traffic signer auth producer events) :
    let after := (run signer auth mem producer events).producer
    let delivered := deliveredCommands producer (issuedCommands signer events) events
    let issued := issuedInMode signer producer events
    InDeliveryOrder after.m_policies (policyCommands delivered) (policyCommands issued) ∧
      InDeliveryOrder after.m_attributes (attributeCommands delivered)
        (attributeCommands issued) ∧
      (AllDelivered signer events → ∀ command, command ∈ delivered ↔ command ∈ issued) := by
  have hfollows : tables (run signer auth mem producer events).producer = _ :=
    (run_follows hp ha h).tables_eq
  rw [afterCommands_eq] at hfollows
  obtain ⟨hpolicies, hattributes⟩ := Prod.mk.inj hfollows
  refine ⟨?_, ?_, ?_⟩
  · rw [hpolicies]
    exact inDeliveryOrder_installed _ _
  · rw [hattributes]
    exact inDeliveryOrder_installed _ _
  · exact fun hall command => mem_deliveredCommands h hall command

/-! ## An old command delivered again -/

/-- `/p` is commanded to use the policy `y` for `/d` from now on. -/
def stricterExample : OwnerCommand where
  producerPrefix := [Component.generic (ascii "p")]
  command := .policy [Component.generic (ascii "d")] (ascii "y")
  encodable := by decide

/-- `x` is commanded and then `y`; both arrive, and `x` arrives once more. -/
def replayRun : List Event :=
  [.command policyExample 0, .command stricterExample 0,
    .deliverInterest (interestFor policyExample), .deliverInterest (interestFor stricterExample),
    .deliverInterest (interestFor policyExample)]

theorem issuedCommands_replayRun : issuedCommands exampleSigner replayRun =
    [⟨policyExample, interestFor policyExample⟩,
      ⟨stricterExample, interestFor stricterExample⟩] := rfl

/-- The owner and the network of that run do what they may. -/
theorem traffic_replayRun : Traffic exampleSigner exampleAuth cpProducer replayRun := by
  refine ⟨?_, ?_, ?_, ?_, ?_⟩
  · rw [issuedCommands_replayRun]
    simp only [List.forall_mem_cons]
    exact ⟨by decide, by decide, by simp⟩
  · rw [issuedCommands_replayRun]
    simp only [List.forall_mem_cons]
    exact ⟨by decide, by decide, by simp⟩
  · rw [issuedCommands_replayRun]
    simp only [List.forall_mem_cons]
    exact ⟨fun hkp => absurd hkp.1 (by decide), fun hkp => absurd hkp.1 (by decide), by simp⟩
  · refine (((((Runs.permitted_nil _).concat nofun).concat nofun).concat ?_).concat ?_).concat ?_
    all_goals
      rintro interest ⟨⟩
    · exact ⟨⟨policyExample, interestFor policyExample⟩, List.mem_cons_self, rfl⟩
    · exact ⟨⟨stricterExample, interestFor stricterExample⟩,
        List.mem_cons_of_mem _ List.mem_cons_self, rfl⟩
    · exact ⟨⟨policyExample, interestFor policyExample⟩, List.mem_cons_self, rfl⟩
  · simp [replayRun]

/-- The table has the policy that was delivered last. -/
theorem commands_inDeliveryOrder_example :
    ([Component.generic (ascii "d")], ascii "x") ∈
      (run exampleSigner exampleAuth noMemory cpProducer replayRun).producer.m_policies := by
  have h := (commands_inDeliveryOrder exampleSigner exampleAuth noMemory cpProducer replayRun
    rfl rfl traffic_replayRun).1
  exact (h.last.2 _ _).mpr (by decide)

/-- Everything has been delivered, `y` was issued last, and the table says `x`. -/
theorem replayed_command_rollsBack :
    ¬ ∀ (signer : Signer) (auth : Authentication) (mem : Memory) (producer : Producer)
        (events : List Event), producer.m_policies = [] → producer.m_attributes = [] →
        Traffic signer auth producer events → AllDelivered signer events →
        MapsToLast (run signer auth mem producer events).producer.m_policies
          (policyCommands (issuedInMode signer producer events)) := by
  intro h
  have hall : AllDelivered exampleSigner replayRun := by
    rw [AllDelivered, issuedCommands_replayRun]
    simp [replayRun]
  have hmap := h exampleSigner exampleAuth noMemory cpProducer replayRun rfl rfl
    traffic_replayRun hall
  have hold := (hmap.2 [Component.generic (ascii "d")] (ascii "y")).mpr (by decide)
  have hrun : (run exampleSigner exampleAuth noMemory cpProducer replayRun).producer.m_policies =
      [([Component.generic (ascii "d")], ascii "x")] := by decide
  rw [hrun] at hold
  exact absurd hold (by decide)

end NacAbe.Analysis
