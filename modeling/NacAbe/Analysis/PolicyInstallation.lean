import NacAbe.Interface.PolicyExchange

/-!
# What a reported success means

The reply to a SET_POLICY command is one word, and two things can make it say
"success" when the command was not carried out.  The owner does not check the
signature of the reply, in spite of the names `validationCallback` and `validData`
(data-owner.cpp:54-69), while every other packet the library receives goes through a
validator; and the producer interprets the command's last component by its own mode
without knowing which kind of command it is (producer.cpp:300-316).  In a run where
neither happens, every success is an installation (`success_isInstalled`).
-/

set_option autoImplicit false

namespace NacAbe.Analysis

open NacAbe PolicyExchange Producer

/-- The producer has exactly the command's value for its data prefix, in the table of its
mode. -/
def Holds (producer : Producer) : PolicyCommand → Prop
  | .policy dataPrefix policy => producer.m_paramFetcher.m_abeType = abeTypeCpAbe ∧
      (dataPrefix, policy) ∈ producer.m_policies
  | .attributes dataPrefix attrs => producer.m_paramFetcher.m_abeType = abeTypeKpAbe ∧
      (dataPrefix, attrs) ∈ producer.m_attributes

/-- The commands an owner has issued. -/
def issued (owner : DataOwner) : List SentCommand :=
  owner.outstanding ++ owner.reported.map Prod.fst

/-- A packet that would be taken for a success comes from the producer. -/
def NotForged (x : PolicyExchange) (e : Event) : Prop :=
  ∀ data digest, e = .deliverData data digest → data.content = ascii "success" →
    ∀ sent ∈ x.owner.outstanding, sent.interest.matchesData data digest = true →
      data ∈ x.producer.sent

/-- An Interest whose reply would answer a command is not misread as another. -/
def NotMisread (auth : Authentication) (commands : List SentCommand) (x : PolicyExchange)
    (e : Event) : Prop :=
  ∀ interest, e = .deliverInterest interest → authentic auth x.producer interest = true →
    ∀ sent ∈ commands, (∃ digest, sent.interest.matchesData ⟨interest.name, ascii "success"⟩
      digest = true) → ¬ x.producer.Misreads sent.command.command

/-- No step of a run does either. -/
def Undisturbed (signer : Signer) (auth : Authentication) (mem : Memory) (producer : Producer)
    (events : List Event) : Prop :=
  Runs.Permitted (fun before e =>
    NotForged (run signer auth mem producer before) e ∧
    NotMisread auth (issued (run signer auth mem producer events).owner)
      (run signer auth mem producer before) e) events

/-- A command was read from an Interest and carried out at some point of a run. -/
def CarriedOut (signer : Signer) (auth : Authentication) (mem : Memory) (producer : Producer)
    (events : List Event) (interest : Interest) (read : PolicyCommand) : Prop :=
  ∃ before dataPrefix, (before ++ [.deliverInterest interest]) <+: events ∧
    authentic auth (run signer auth mem producer before).producer interest = true ∧
    (run signer auth mem producer before).producer.dataPrefixOf interest = .ok dataPrefix ∧
    (run signer auth mem producer before).producer.commandOf dataPrefix interest =
      .ok (some read) ∧
    Holds (run signer auth mem producer (before ++ [.deliverInterest interest])).producer read

/-- The invariant: what the owner waits for and has been told, and what the producer has
replied. -/
structure Replies (signer : Signer) (auth : Authentication) (mem : Memory)
    (producer : Producer) (events : List Event) (x : PolicyExchange) : Prop where
  cert_eq : x.producer.m_cert = producer.m_cert
  signed : ∀ sent ∈ issued x.owner, ∃ seed,
    sent.interest = signer.sign ⟨DataOwner.policyName sent.command, false, none, none⟩ seed
  reported : ∀ sent data, (sent, .success data) ∈ x.owner.reported →
    data.content = ascii "success" ∧ data ∈ x.producer.sent ∧
    ∃ digest, sent.interest.matchesData data digest = true
  replied : ∀ data ∈ x.producer.sent, data.content = ascii "success" →
    ∃ interest read, data.name = interest.name ∧
      CarriedOut signer auth mem producer events interest read

variable {signer : Signer} {auth : Authentication} {mem : Memory} {producer : Producer}
  {events : List Event} {x : PolicyExchange} {e : Event}

theorem CarriedOut.later {interest : Interest} {read : PolicyCommand}
    (h : CarriedOut signer auth mem producer events interest read) :
    CarriedOut signer auth mem producer (events ++ [e]) interest read := by
  obtain ⟨before, dataPrefix, hpre, hrest⟩ := h
  exact ⟨before, dataPrefix, hpre.trans (List.prefix_append _ _), hrest⟩

/-- What was replied goes back to the same commands after another event. -/
theorem Replies.replied_later (h : Replies signer auth mem producer events x) {data : Data}
    (hd : data ∈ x.producer.sent) (hc : data.content = ascii "success") :
    ∃ interest read, data.name = interest.name ∧
      CarriedOut signer auth mem producer (events ++ [e]) interest read := by
  obtain ⟨interest, read, hname, hcarried⟩ := h.replied data hd hc
  exact ⟨interest, read, hname, hcarried.later⟩

/-! ## The producer's step -/

/-- The new entry is in the table. -/
theorem mem_addNew_self {α : Type} (dataPrefix : Name) (value : List α)
    (items : List (Name × List α)) :
    (dataPrefix, value) ∈ PolicyTable.addNew dataPrefix value items := by
  induction items with
  | nil => simp [PolicyTable.addNew]
  | cons item items ih =>
    rw [PolicyTable.addNew]
    split
    · next h => simp [h]
    · exact List.mem_cons_of_mem _ ih

/-- The command read is held once it has been answered. -/
theorem holds_answered {producer : Producer} {interest : Interest} {dataPrefix : Name}
    {read : PolicyCommand} (h : producer.commandOf dataPrefix interest = .ok (some read)) :
    Holds (producer.answered interest (some read)) read := by
  unfold commandOf at h
  split at h
  · next hcp =>
    obtain ⟨block, -, hread⟩ := bind_eq_ok.mp h
    cases hread
    exact ⟨hcp, mem_addNew_self _ _ _⟩
  · split at h
    · next hkp =>
      obtain ⟨block, -, helements⟩ := bind_eq_ok.mp h
      obtain ⟨elements, -, hread⟩ := bind_eq_ok.mp helements
      cases hread
      exact ⟨hkp, mem_addNew_self _ _ _⟩
    · cases h

/-- So does what the face dispatches. -/
theorem dispatch_cases (auth : Authentication) (producer : Producer) (interest : Interest) :
    dispatch auth producer interest = producer ∨
      ∃ dataPrefix command, authentic auth producer interest = true ∧
        producer.dataPrefixOf interest = .ok dataPrefix ∧
        producer.commandOf dataPrefix interest = .ok command ∧
        dispatch auth producer interest = producer.answered interest command := by
  unfold dispatch
  split
  · rw [exec_onPolicyInterest]
    exact delivered_cases auth producer interest
  · exact Or.inl rfl

theorem m_cert_answered (producer : Producer) (interest : Interest)
    (command : Option PolicyCommand) :
    (producer.answered interest command).m_cert = producer.m_cert := by
  rcases command with - | (_ | _) <;> rfl

theorem sent_answered (producer : Producer) (interest : Interest)
    (command : Option PolicyCommand) :
    (producer.answered interest command).sent = producer.sent ++
      [⟨interest.name, if command.isSome then ascii "success" else ascii "failure"⟩] := by
  rcases command with - | (_ | _) <;> rfl

/-- A delivered Interest is replied to by what is read from it. -/
theorem replies_deliverInterest {interest : Interest}
    (h : Replies signer auth mem producer events (run signer auth mem producer events)) :
    Replies signer auth mem producer (events ++ [.deliverInterest interest])
      (run signer auth mem producer (events ++ [.deliverInterest interest])) := by
  have hrun : run signer auth mem producer (events ++ [.deliverInterest interest]) =
      { run signer auth mem producer events with
        producer := dispatch auth (run signer auth mem producer events).producer interest } :=
    Runs.after_concat _ _ _ _
  rcases dispatch_cases auth (run signer auth mem producer events).producer interest with
    hsame | ⟨dataPrefix, command, hauth, hprefix, hcommand, hans⟩
  · rw [hsame] at hrun
    refine ⟨?_, ?_, ?_, ?_⟩
    · rw [hrun]
      exact h.cert_eq
    · rw [hrun]
      exact h.signed
    · rw [hrun]
      exact h.reported
    · rw [hrun]
      exact fun data hd hc => h.replied_later hd hc
  · rw [hans] at hrun
    refine ⟨?_, ?_, ?_, ?_⟩
    · rw [hrun]
      exact (m_cert_answered _ _ _).trans h.cert_eq
    · rw [hrun]
      exact h.signed
    · rw [hrun]
      intro sent data hs
      obtain ⟨hc, hd, hmatch⟩ := h.reported sent data hs
      exact ⟨hc, by rw [sent_answered]; exact List.mem_append_left _ hd, hmatch⟩
    · intro data hd hc
      rw [hrun, sent_answered, List.mem_append, List.mem_singleton] at hd
      rcases hd with hd | rfl
      · exact h.replied_later hd hc
      · cases command with
        | none =>
          have hfailure : ascii "failure" ≠ ascii "success" := by decide
          exact absurd hc hfailure
        | some read =>
          refine ⟨interest, read, rfl, events, dataPrefix, List.prefix_refl _, hauth, hprefix,
            hcommand, ?_⟩
          rw [hrun]
          exact holds_answered hcommand

/-! ## The owner's steps -/

/-- A step of the owner keeps the invariant if the commands it has are signed and the
successes it reports are replies of the producer. -/
theorem replies_owner {owner : DataOwner}
    (h : Replies signer auth mem producer events x)
    (hsigned : ∀ sent ∈ issued owner, sent ∈ issued x.owner ∨ ∃ seed,
      sent.interest = signer.sign ⟨DataOwner.policyName sent.command, false, none, none⟩ seed)
    (hreported : ∀ sent data, (sent, .success data) ∈ owner.reported →
      (sent, .success data) ∈ x.owner.reported ∨ data.content = ascii "success" ∧
        data ∈ x.producer.sent ∧ ∃ digest, sent.interest.matchesData data digest = true) :
    Replies signer auth mem producer (events ++ [e]) { x with owner } := by
  refine ⟨h.cert_eq, ?_, ?_, ?_⟩
  · intro sent hs
    rcases hsigned sent hs with hold | hnew
    · exact h.signed sent hold
    · exact hnew
  · intro sent data hs
    rcases hreported sent data hs with hold | hnew
    · exact h.reported sent data hold
    · exact hnew
  · exact fun data hd hc => h.replied_later hd hc

/-- A command only adds what the owner waits for. -/
theorem replies_command {command : OwnerCommand} {seed : ℕ}
    (h : Replies signer auth mem producer events x) :
    Replies signer auth mem producer (events ++ [e])
      (next signer auth mem x (.command command seed)) := by
  rw [next, DataOwner.exec_commandProducerPolicy]
  split
  swap
  · exact replies_owner h (fun sent hs => Or.inl hs) (fun sent data hs => Or.inl hs)
  refine replies_owner h ?_ ?_
  · intro sent hs
    simp only [issued, List.mem_append] at hs ⊢
    rcases hs with (hold | hnew) | hs
    · exact Or.inl (Or.inl hold)
    · obtain rfl := List.mem_singleton.mp hnew
      exact Or.inr ⟨seed, rfl⟩
    · exact Or.inl (Or.inr hs)
  · exact fun sent data hs => Or.inl hs

/-- Data that is not forged tells the owner what was replied. -/
theorem replies_deliverData {data : Data} {digest : Bytes}
    (h : Replies signer auth mem producer events x)
    (hforged : NotForged x (.deliverData data digest)) :
    Replies signer auth mem producer (events ++ [e])
      (next signer auth mem x (.deliverData data digest)) := by
  rw [next, DataOwner.exec_onData]
  refine replies_owner h ?_ ?_
  · intro sent hs
    apply Or.inl
    simp only [issued, List.map_append, List.map_map, List.mem_append, List.mem_filter,
      List.mem_map, Function.comp] at hs ⊢
    rcases hs with ⟨hout, -⟩ | hold | ⟨sent', ⟨hout, -⟩, rfl⟩
    · exact Or.inl hout
    · exact Or.inr hold
    · exact Or.inl hout
  · intro sent data' hs
    rw [List.mem_append] at hs
    rcases hs with hold | hnew
    · exact Or.inl hold
    · obtain ⟨sent', hmem, heq⟩ := List.mem_map.mp hnew
      obtain ⟨rfl, hcall⟩ := Prod.mk.inj heq
      obtain ⟨hout, hmatch⟩ := List.mem_filter.mp hmem
      unfold DataOwner.validationCallback at hcall
      split at hcall
      · cases hcall
      · next hc =>
        cases hcall
        have hcontent : data.content = ascii "success" := not_not.mp hc
        exact Or.inr ⟨hcontent, hforged data digest rfl hcontent sent' hout hmatch, digest,
          hmatch⟩

/-- A nack or a timeout only takes away what the owner waits for. -/
theorem replies_commandFailure {position : ℕ} {isNack : Bool}
    (h : Replies signer auth mem producer events x) :
    Replies signer auth mem producer (events ++ [e])
      (next signer auth mem x (.commandFailure position isNack)) := by
  rw [next, DataOwner.exec_onFailure]
  cases hat : x.owner.outstanding[position]? with
  | none => exact replies_owner h (fun sent hs => Or.inl hs) (fun sent data hs => Or.inl hs)
  | some sent =>
    refine replies_owner h ?_ ?_
    · intro sent' hs
      apply Or.inl
      simp only [issued, List.map_append, List.mem_append] at hs ⊢
      rcases hs with hout | hold | hnew
      · exact Or.inl (List.mem_of_mem_eraseIdx hout)
      · exact Or.inr hold
      · have hs' : sent' = sent := by simpa using hnew
        exact Or.inl (hs' ▸ List.mem_of_getElem? hat)
    · intro sent' data hs
      exact Or.inl (by simpa using hs)

/-- One step keeps the invariant unless it brings forged data. -/
theorem replies_step (h : Replies signer auth mem producer events
      (run signer auth mem producer events))
    (hforged : NotForged (run signer auth mem producer events) e) :
    Replies signer auth mem producer (events ++ [e])
      (run signer auth mem producer (events ++ [e])) := by
  cases e with
  | deliverInterest interest => exact replies_deliverInterest h
  | command command seed =>
    rw [run, Runs.after_concat]
    exact replies_command h
  | deliverData data digest =>
    rw [run, Runs.after_concat]
    exact replies_deliverData h hforged
  | commandFailure position isNack =>
    rw [run, Runs.after_concat]
    exact replies_commandFailure h
  | publicParams pubParamData validationError =>
    rw [run, Runs.after_concat]
    exact ⟨h.cert_eq, h.signed, h.reported, fun data hd hc => h.replied_later hd hc⟩

/-- The invariant after every run without a forged reply, from an owner and a producer that
have exchanged nothing. -/
theorem run_replies (hsent : producer.sent = []) (events : List Event)
    (h : Runs.Permitted (fun before e =>
      NotForged (run signer auth mem producer before) e) events) :
    Replies signer auth mem producer events (run signer auth mem producer events) := by
  refine Runs.invariant (next signer auth mem) _ (fun events x =>
    x = run signer auth mem producer events → Replies signer auth mem producer events x)
    ?_ ?_ events h rfl
  · intro _
    exact ⟨rfl, by simp [issued, DataOwner.initial], by simp [DataOwner.initial],
      by simp [hsent]⟩
  · intro before e _ hforged ih _
    have hstep := replies_step (e := e) (ih rfl) hforged
    rwa [run, Runs.after_concat] at hstep

/-! ## The result -/

/-- Data that matches a command's Interest has a name that begins like the command. -/
theorem policyName_prefix_of_matchesData {sent : SentCommand} {data : Data} {digest : Bytes}
    {seed : ℕ}
    (hsigned : sent.interest =
      signer.sign ⟨DataOwner.policyName sent.command, false, none, none⟩ seed)
    (hmatch : sent.interest.matchesData data digest = true) :
    DataOwner.policyName sent.command <+: data.name := by
  have hpre : DataOwner.policyName sent.command <+: sent.interest.name := by
    rw [hsigned]
    exact List.prefix_append _ _
  have hexact : sent.interest.canBePrefix = false := by rw [hsigned]; rfl
  unfold Interest.matchesData at hmatch
  split at hmatch
  · rw [of_decide_eq_true hmatch, Data.fullName, List.prefix_concat_iff] at hpre
    rcases hpre with hfull | hpre
    · -- The last component of a policy name is generic, no digest.
      have hlast := congrArg List.getLast? hfull
      simp [DataOwner.policyName, Component.generic, tlvGenericNameComponent,
        tlvImplicitSha256DigestComponent] at hlast
    · exact hpre
  · rw [hexact, if_neg Bool.false_ne_true] at hmatch
    rw [← of_decide_eq_true hmatch]
    exact hpre

/-- **A reported success is an installation** in every run in which no reply is forged and
no command misread: at some point of the run the producer held exactly the command's
value for its data prefix, in the table of its mode.  The producer starts as it is
constructed, with empty tables. -/
theorem success_isInstalled (signer : Signer) (auth : Authentication) (mem : Memory)
    (identityCert attrAuthorityCertificate dataOwnerCertificate : Certificate)
    (template : Interest) (events : List Event)
    (h : Undisturbed signer auth mem (Producer.initial identityCert attrAuthorityCertificate
      dataOwnerCertificate template) events)
    (sent : SentCommand) (data : Data)
    (hsuccess : (sent, .success data) ∈ (run signer auth mem (Producer.initial identityCert
      attrAuthorityCertificate dataOwnerCertificate template) events).owner.reported)
    (hid : sent.command.producerPrefix = identityCert.getIdentity) :
    ∃ before, before <+: events ∧ Holds (run signer auth mem (Producer.initial identityCert
      attrAuthorityCertificate dataOwnerCertificate template) before).producer
        sent.command.command := by
  let producer := Producer.initial identityCert attrAuthorityCertificate dataOwnerCertificate
    template
  have hunforged : Runs.Permitted (fun before e =>
      NotForged (run signer auth mem producer before) e) events := h.imp fun _ _ hok => hok.1
  have hall := run_replies rfl events hunforged
  obtain ⟨hcontent, hd, digest, hmatch⟩ := hall.reported sent data hsuccess
  obtain ⟨interest, read, hname, hcarried⟩ := hall.replied data hd hcontent
  obtain ⟨before, dataPrefix, ⟨later, hlater⟩, hauth, hprefix, hread, hholds⟩ := hcarried
  have hissued : sent ∈ issued (run signer auth mem producer events).owner :=
    List.mem_append_right _ (List.mem_map.mpr ⟨_, hsuccess, rfl⟩)
  obtain ⟨seed, hsigned⟩ := hall.signed sent hissued
  have hbase : DataOwner.policyName sent.command <+: interest.name :=
    hname ▸ policyName_prefix_of_matchesData hsigned hmatch
  have hbefore : before <+: events :=
    (List.prefix_append before [.deliverInterest interest]).trans ⟨later, hlater⟩
  have hid' : sent.command.producerPrefix =
      (run signer auth mem producer before).producer.m_cert.getIdentity := by
    rw [(run_replies rfl before (hunforged.of_prefix hbefore)).cert_eq, hid]
    rfl
  have hmisread : ¬ (run signer auth mem producer before).producer.Misreads
      sent.command.command := by
    refine (h before (.deliverInterest interest) later (by rw [← hlater]; simp)).2 interest rfl
      hauth sent hissued ⟨digest, ?_⟩
    rw [← hname, ← hcontent]
    exact hmatch
  have hdp := (dataPrefixOf_policyName hid' hbase).symm.trans hprefix
  rw [← Except.ok.inj hdp] at hread
  obtain rfl := readCommand hid' hbase hmisread hread
  exact ⟨before ++ [.deliverInterest interest], ⟨later, by rw [← hlater]⟩, hholds⟩

/-! ## Runs of one owner and one producer -/

/-- Signing appends one component, and the signature check accepts what is signed. -/
def exampleSigner : Signer := ⟨fun _ seed => [Component.generic [UInt8.ofNat seed]], fun _ _ => [1]⟩

def exampleAuth : Authentication := ⟨fun interest _ => interest.signature.isSome, fun _ => false⟩

def noMemory : Memory := ⟨fun _ => []⟩

/-- The producer `/p` of the authority `/a` and the owner `/o`. -/
def exampleProducer : Producer :=
  .initial (.sample (ascii "p") [1]) (.sample (ascii "a") [2]) (.sample (ascii "o") [3])
    ParamFetcher.defaultInterestTemplate

/-- The producer learns that it is in CP mode. -/
def cpParams : Event :=
  .publicParams ⟨[Component.generic (ascii "a"), publicParamsComponent,
    Component.generic abeTypeCpAbe], [1, 0]⟩ none

/-- `/p` is commanded to use the policy `x` for `/d`. -/
def policyExample : OwnerCommand where
  producerPrefix := [Component.generic (ascii "p")]
  command := .policy [Component.generic (ascii "d")] (ascii "x")
  encodable := by decide

/-- `/p` is commanded to use the attribute `x` for `/d`. -/
def attributesExample : OwnerCommand where
  producerPrefix := [Component.generic (ascii "p")]
  command := .attributes [Component.generic (ascii "d")] [ascii "x"]
  encodable := by decide

/-- The Interest for a command. -/
def interestFor (command : OwnerCommand) : Interest :=
  exampleSigner.sign ⟨DataOwner.policyName command, false, none, none⟩ 0

/-- The reply to it that says "success". -/
def successFor (command : OwnerCommand) : Data := ⟨(interestFor command).name, ascii "success"⟩

/-- A command is issued, delivered and answered. -/
def honestRun (command : OwnerCommand) : List Event :=
  [cpParams, .command command 0, .deliverInterest (interestFor command),
    .deliverData (successFor command) []]

/-- A run of two parties that ends with a success, and the policy is there. -/
theorem success_isInstalled_example : ∃ before, before <+: honestRun policyExample ∧
    Holds (run exampleSigner exampleAuth noMemory exampleProducer before).producer
      policyExample.command := by
  refine success_isInstalled exampleSigner exampleAuth noMemory (.sample (ascii "p") [1])
    (.sample (ascii "a") [2]) (.sample (ascii "o") [3]) ParamFetcher.defaultInterestTemplate
    (honestRun policyExample) ?_ ⟨policyExample, interestFor policyExample⟩
    (successFor policyExample) ?_ rfl
  · refine ((((Runs.permitted_nil _).concat ?_).concat ?_).concat ?_).concat ?_
    · exact ⟨nofun, nofun⟩
    · exact ⟨nofun, nofun⟩
    · refine ⟨nofun, ?_⟩
      rintro interest he - sent hsent -
      obtain rfl : sent = ⟨policyExample, interestFor policyExample⟩ := List.mem_singleton.mp hsent
      rintro ⟨hkp, -⟩
      exact absurd hkp (by decide)
    · refine ⟨?_, nofun⟩
      rintro data digest he - sent - -
      cases he
      exact List.mem_singleton.mpr rfl
  · exact List.mem_singleton.mpr rfl

/-- What a success callback is taken to say. -/
def SuccessMeansInstalled (signer : Signer) (auth : Authentication) (mem : Memory)
    (producer : Producer) (events : List Event) : Prop :=
  ∀ sent data, (sent, .success data) ∈ (run signer auth mem producer events).owner.reported →
    sent.command.producerPrefix = producer.m_cert.getIdentity →
    ∃ before, before <+: events ∧
      Holds (run signer auth mem producer before).producer sent.command.command

/-- The command never reaches the producer, and anybody's Data says "success". -/
theorem success_of_forgedReply :
    ¬ ∀ (signer : Signer) (auth : Authentication) (mem : Memory)
        (identityCert attrAuthorityCertificate dataOwnerCertificate : Certificate)
        (template : Interest) (events : List Event),
        SuccessMeansInstalled signer auth mem (.initial identityCert attrAuthorityCertificate
          dataOwnerCertificate template) events := by
  intro h
  let events : List Event :=
    [.command policyExample 0, .deliverData (successFor policyExample) []]
  obtain ⟨before, hpre, hmode, -⟩ := h exampleSigner exampleAuth noMemory (.sample (ascii "p") [1])
    (.sample (ascii "a") [2]) (.sample (ascii "o") [3]) ParamFetcher.defaultInterestTemplate
    events ⟨policyExample, interestFor policyExample⟩ (successFor policyExample)
    (List.mem_singleton.mpr rfl) rfl
  rw [List.prefix_iff_eq_take] at hpre
  have hnoMode : ∀ n, (run exampleSigner exampleAuth noMemory exampleProducer
      (events.take n)).producer.m_paramFetcher.m_abeType = [] := by
    intro n
    match n with
    | 0 => rfl
    | 1 => rfl
    | n + 2 => rw [List.take_of_length_le (by simp [events])]; rfl
  rw [hpre] at hmode
  exact absurd ((hnoMode before.length).symm.trans hmode) (by decide)

/-- Nobody forges anything: a producer in CP mode answers "success" to an attribute list and
has installed its encoding as a policy string. -/
theorem success_of_misreadCommand :
    ¬ SuccessMeansInstalled exampleSigner exampleAuth noMemory exampleProducer
      (honestRun attributesExample) := by
  intro h
  obtain ⟨before, hpre, hmode, -⟩ := h ⟨attributesExample, interestFor attributesExample⟩
    (successFor attributesExample) (List.mem_singleton.mpr rfl) rfl
  rw [List.prefix_iff_eq_take] at hpre
  have hnotKp : ∀ n, (run exampleSigner exampleAuth noMemory exampleProducer
      ((honestRun attributesExample).take n)).producer.m_paramFetcher.m_abeType ≠
        abeTypeKpAbe := by
    intro n
    match n with
    | 0 => decide
    | 1 => decide
    | 2 => decide
    | 3 => decide
    | n + 4 => rw [List.take_of_length_le (by simp [honestRun])]; decide
  rw [hpre] at hmode
  exact hnotKp before.length hmode

end NacAbe.Analysis
