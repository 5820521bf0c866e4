import NacAbe.Analysis.KeyAvailability
import NacAbe.Analysis.PolicyInstallation

/-!
# One Interest, one packet

In NDN a packet may only answer an Interest, and an Interest is answered by one packet.  The
handlers that send are `onDecryptionKeyRequest`, its deferred continuation and
`onPublicParamsRequest` of an authority, and `onPolicyInterest` of a producer.  A loop over the
stored segments puts out every segment with the name that is asked for
(attribute-authority.cpp:85-92), and there is one, since the segments of an object have distinct
names.  So neither party sends more packets than it has been asked for, or anything else
(`packets_answerRequests`, `replies_answerCommands`).
-/

set_option autoImplicit false

namespace NacAbe.AttributeAuthority

variable {Token : Type} {keyGen : KeyGen Token} {crypto : Crypto} {aa : AttributeAuthority Token}

/-- What is sent in answer to a name: nothing, or one packet whose name continues it. -/
def SendsOne (before : List Data) (name : Name) (t : AttributeAuthority Token) : Prop :=
  sent t.log = before ∨ ∃ data, name <+: data.name ∧ sent t.log = before ++ [data]

/-- A reply sends at most one packet, for the request's name. -/
theorem wp_replyDecryptionKey_sends (requestName : Name) (cert : Certificate) (now seed : ℕ) :
    (replyDecryptionKey keyGen crypto requestName cert now seed).wp (Prog.silent _ _ _)
      (fun _ t => SendsOne (sent aa.log) requestName t) aa := by
  rw [replyDecryptionKey, Prog.wp_bind]
  refine wp_generateDecryptionKeySegments _ cert seed (fun x => Or.inl rfl) ?_ ?_
  · intro token prvKey x hk
    apply Or.inl
    simp [record, sent]
  · intro token g hobj hcert hk hg
    rw [Prog.andThen_ok]
    cases hs : g.dkSegments with
    | nil => exact absurd hs (segment_ne_nil hg.segments_eq)
    | cons data rest =>
      have hdata : data ∈ g.dkSegments := by simp [hs]
      obtain ⟨i, hname⟩ := name_of_mem_segment hg.segments_eq hdata
      refine Or.inr ⟨data, ?_, ?_⟩
      · rw [hname, hobj, List.append_assoc]
        exact List.prefix_append _ _
      · simp [record, store, sent]

/-- The loop sends one segment, if any has the name. -/
theorem wp_serve_sends {segments : List Data} (hnodup : (segments.map Data.name).Nodup)
    (requestName : Name) :
    (Prog.forEach (fun data => if requestName = data.name then put data else pure ())
      segments : AuthorityM Token Unit).wp (Prog.silent _ _ _)
      (fun _ t => SendsOne (sent aa.log) requestName t) aa := by
  refine (Prog.wp_silent_iff _ (fun _ t => SendsOne (sent aa.log) requestName t) aa).mpr ?_
  rw [exec_serve]
  by_cases hmem : ∃ data ∈ segments, requestName = data.name
  · obtain ⟨data, hdata, rfl⟩ := hmem
    refine Or.inr ⟨data, List.prefix_refl _, ?_⟩
    rw [filter_eq_singleton Data.name hnodup hdata]
    simp [record, sent]
  · have hnone : segments.filter (fun data => requestName = data.name) = [] := by
      apply List.filter_eq_nil_iff.mpr
      intro data hdata hname
      exact hmem ⟨data, hdata, of_decide_eq_true hname⟩
    refine Or.inl ?_
    rw [hnone]
    simp [record]

/-- So does the base handler. -/
theorem wp_onDecryptionKeyRequestBase_sends (h : KeyObjects crypto aa) (request : Interest)
    (now seed : ℕ) :
    (onDecryptionKeyRequestBase keyGen crypto request now seed).wp (Prog.silent _ _ _)
      (fun _ t => SendsOne (sent aa.log) request.name t) aa := by
  simp only [onDecryptionKeyRequestBase, Prog.wp_bind, Prog.wp_get, Prog.andThen_ok,
    Prog.wp_liftM]
  cases aa.supposedKeyName request.name with
  | error x => exact Or.inl rfl
  | ok keyName =>
    simp only [Prog.andThen_ok, Prog.wp_bind, Prog.wp_liftM]
    cases isSegmentRequest request.name with
    | error x => exact Or.inl rfl
    | ok segmentRequest =>
      rw [Prog.andThen_ok]
      cases segmentRequest with
      | true =>
        simp only [if_true, Prog.wp_bind, Prog.wp_get, Prog.andThen_ok]
        cases hstored : aa.m_segmentMap.find (request.name.getPrefixNeg 1) with
        | none => exact Or.inl rfl
        | some segments =>
          obtain ⟨g, hg, -, rfl⟩ := h.stored _ _ hstored
          exact wp_serve_sends (nodup_name_segment (h.isSealed g hg).segments_eq) request.name
      | false =>
        simp only [Bool.false_eq_true, if_false]
        split
        · next hvalid =>
          simp only [extractIdentityFromKeyName, hvalid, if_true, Prog.wp_bind, Prog.wp_liftM,
            Prog.andThen_ok, Prog.wp_get]
          cases aa.m_trustConfig.findCertificateFromLocal keyName with
          | some cert => exact wp_replyDecryptionKey_sends request.name cert now seed
          | none =>
            simp only [findCertificateFromNetwork, Prog.wp_bind, Prog.wp_liftM]
            cases Interest.ofName keyName with
            | error x => exact Or.inl rfl
            | ok interest =>
              apply Or.inl
              simp [record, sent]
        · exact Or.inl rfl

/-- So does the handler of a mode. -/
theorem wp_onDecryptionKeyRequest_sends (h : KeyObjects crypto aa) (request : Interest)
    (now seed : ℕ) :
    (onDecryptionKeyRequest keyGen crypto request now seed).wp (Prog.silent _ _ _)
      (fun _ t => SendsOne (sent aa.log) request.name t) aa := by
  simp only [onDecryptionKeyRequest, Prog.wp_bind, Prog.wp_get, Prog.andThen_ok, Prog.wp_liftM]
  cases aa.supposedKeyName request.name with
  | error x => exact Or.inl rfl
  | ok keyName =>
    simp only [Prog.andThen_ok, Prog.wp_bind, Prog.wp_liftM]
    cases extractIdentityFromKeyName keyName with
    | error x => exact Or.inl rfl
    | ok identityName =>
      simp only [Prog.andThen_ok, Prog.wp_bind, Prog.wp_get]
      split
      · exact wp_onDecryptionKeyRequestBase_sends h request now seed
      · exact Or.inl rfl

/-- So does the handler of a fetched certificate, for the request that waited for it. -/
theorem wp_onCertificateData_sends (keyName : Name) (data : Data) (digest : Bytes)
    (keyPacket accepted : Bool) (requestRead : Name) (now seed : ℕ) :
    (onCertificateData keyGen crypto keyName data digest keyPacket accepted requestRead now
      seed).wp (Prog.silent _ _ _) (fun _ t => SendsOne (sent aa.log) requestRead t) aa := by
  simp only [onCertificateData, Prog.wp_bind, Prog.wp_get, Prog.andThen_ok]
  split
  · simp only [Prog.wp_bind, Prog.wp_modify, Prog.andThen_ok]
    cases accepted with
    | false => exact Or.inl rfl
    | true =>
      simp only [if_true, Prog.wp_bind, Prog.wp_liftM]
      cases Certificate.ofData data keyPacket with
      | error x => exact Or.inl rfl
      | ok cert => exact wp_replyDecryptionKey_sends requestRead cert now seed
  · exact Or.inl rfl

/-- The name that an event asks for: a deferred reply reads it where the request was. -/
def Event.asked : Event Token → Option Name
  | .decryptionKeyRequest request _ _ => some request.name
  | .certificateData _ _ _ _ _ requestRead _ _ => some requestRead
  | .publicParamsRequest interest _ => some interest.name
  | _ => none

/-- **One event** sends nothing, or one packet under a name that continues what it asks for. -/
theorem sent_next (h : KeyObjects crypto aa) (e : Event Token) :
    sent (next keyGen crypto aa e).log = sent aa.log ∨
      ∃ data, (∃ name, e.asked = some name ∧ name <+: data.name) ∧
        sent (next keyGen crypto aa e).log = sent aa.log ++ [data] := by
  have hone : ∀ name, e.asked = some name →
      SendsOne (sent aa.log) name (next keyGen crypto aa e) →
      sent (next keyGen crypto aa e).log = sent aa.log ∨
        ∃ data, (∃ name, e.asked = some name ∧ name <+: data.name) ∧
          sent (next keyGen crypto aa e).log = sent aa.log ++ [data] := by
    intro name hasked hsends
    exact hsends.imp_right fun ⟨data, hname, hdata⟩ => ⟨data, ⟨name, hasked, hname⟩, hdata⟩
  cases e with
  | addNewPolicy identityName token => exact Or.inl rfl
  | addNewPolicyCert cert token => exact Or.inl rfl
  | certificateFailure keyName => exact Or.inl rfl
  | decryptionKeyRequest request now seed =>
    exact hone _ rfl ((Prog.wp_silent_iff _ _ aa).mp (wp_onDecryptionKeyRequest_sends h request
      now seed))
  | certificateData keyName data digest keyPacket accepted requestRead now seed =>
    exact hone _ rfl ((Prog.wp_silent_iff _ _ aa).mp (wp_onCertificateData_sends keyName data
      digest keyPacket accepted requestRead now seed))
  | publicParamsRequest interest now =>
    refine Or.inr ⟨aa.publicParamsData interest now, ⟨_, rfl, List.prefix_append _ _⟩, ?_⟩
    exact sent_append _ _

end NacAbe.AttributeAuthority

namespace NacAbe.Analysis

open NacAbe

section

open AttributeAuthority

variable {Token : Type}

/-- **An authority sends what it is asked for, once.**  In every run, the packets sent answer
events of the run, each at most once and in their order, under names that continue what is asked
for. -/
theorem packets_answerRequests (keyGen : KeyGen Token) (crypto : Crypto)
    (identityCert : Certificate) (abeType : AbeType) (maxSegmentSize : ℕ)
    (keys : PublicParams × MasterKey) (events : List (Event Token)) :
    ∃ answered, answered.Sublist events ∧ List.Forall₂
      (fun (e : Event Token) (data : Data) => ∃ name, e.asked = some name ∧ name <+: data.name)
      answered (sent
        (run keyGen crypto (initial identityCert abeType maxSegmentSize keys) events).log) := by
  refine Runs.answers_after (fun aa : AttributeAuthority Token => sent aa.log) rfl ?_ events
  intro before e
  rw [Runs.after_concat]
  exact sent_next (run_keyObjects keyGen crypto identityCert abeType maxSegmentSize keys before) e

end

open PolicyExchange Producer

variable {auth : Authentication}

/-- The event brings an Interest that passes for authentic, and the reply under its name is one
of two words. -/
def AnswersCommand (auth : Authentication) (producer : Producer) (e : PolicyExchange.Event)
    (reply : Data) : Prop :=
  ∃ interest, e = .deliverInterest interest ∧ authentic auth producer interest = true ∧
    (reply = ⟨interest.name, ascii "success"⟩ ∨ reply = ⟨interest.name, ascii "failure"⟩)

/-- A command changes nothing that decides whether an Interest is authentic. -/
theorem authentic_answered (producer : Producer) (interest : Interest)
    (command : Option PolicyCommand) (other : Interest) :
    authentic auth (producer.answered interest command) other = authentic auth producer other := by
  rcases command with - | (_ | _) <;> rfl

/-- The same Interests are authentic throughout a run. -/
theorem authentic_run (signer : Signer) (auth : Authentication) (mem : Memory)
    (producer : Producer) (events : List PolicyExchange.Event) (interest : Interest) :
    authentic auth (run signer auth mem producer events).producer interest =
      authentic auth producer interest := by
  refine Runs.invariant (next signer auth mem) _ (fun _ (x : PolicyExchange) =>
    authentic auth x.producer interest = authentic auth producer interest) rfl ?_ events
    (Runs.permitted_true events)
  intro before e _ _ ih
  refine Eq.trans ?_ ih
  generalize Runs.after (next signer auth mem) ⟨.initial, producer⟩ before = x
  cases e with
  | deliverInterest other =>
    show authentic auth (dispatch auth x.producer other) interest = _
    rcases dispatch_cases auth x.producer other with
      hsame | ⟨dataPrefix, command, hauth, hprefix, hread, hanswered⟩
    · rw [hsame]
    · rw [hanswered, authentic_answered]
  | command command seed => rfl
  | deliverData data digest => rfl
  | commandFailure position isNack => rfl
  | publicParams pubParamData validationError => rfl

/-- **One event** of an exchange is answered by the producer at most once. -/
theorem replies_next (signer : Signer) (auth : Authentication) (mem : Memory)
    (x : PolicyExchange) (e : PolicyExchange.Event) :
    (next signer auth mem x e).producer.sent = x.producer.sent ∨
      ∃ reply, AnswersCommand auth x.producer e reply ∧
        (next signer auth mem x e).producer.sent = x.producer.sent ++ [reply] := by
  cases e with
  | deliverInterest interest =>
    have hnext : (next signer auth mem x (.deliverInterest interest)).producer =
        dispatch auth x.producer interest := rfl
    rw [hnext]
    rcases dispatch_cases auth x.producer interest with
      hsame | ⟨dataPrefix, command, hauth, hprefix, hread, hanswered⟩
    · rw [hsame]
      exact Or.inl rfl
    · rw [hanswered]
      refine Or.inr ⟨_, ⟨interest, rfl, hauth, ?_⟩, sent_answered _ _ _⟩
      cases command with
      | none => exact Or.inr rfl
      | some command => exact Or.inl rfl
  | command command seed => exact Or.inl rfl
  | deliverData data digest => exact Or.inl rfl
  | commandFailure position isNack => exact Or.inl rfl
  | publicParams pubParamData validationError => exact Or.inl rfl

/-- **A producer replies to the commands that reach it, once.**  In every run of an owner, a
producer and the network, the producer's replies are, in order, to Interests that were delivered
and pass for authentic, at most one to each delivery, and nobody else hears from it. -/
theorem replies_answerCommands (signer : Signer) (auth : Authentication) (mem : Memory)
    (identityCert attrAuthorityCertificate dataOwnerCertificate : Certificate)
    (template : Interest) (events : List PolicyExchange.Event) :
    let producer := Producer.initial identityCert attrAuthorityCertificate dataOwnerCertificate
      template
    ∃ answered, answered.Sublist events ∧ List.Forall₂ (AnswersCommand auth producer) answered
      (run signer auth mem producer events).producer.sent := by
  intro producer
  refine Runs.answers_after (fun x : PolicyExchange => x.producer.sent) rfl ?_ events
  intro before e
  rw [Runs.after_concat]
  rcases replies_next signer auth mem (run signer auth mem producer before) e with
    hnone | ⟨reply, hanswers, hone⟩
  · exact Or.inl hnone
  · obtain ⟨interest, he, hauth, hwords⟩ := hanswers
    rw [authentic_run] at hauth
    exact Or.inr ⟨reply, ⟨interest, he, hauth, hwords⟩, hone⟩

end NacAbe.Analysis
