import NacAbe.Analysis.PolicyUpdates
import NacAbe.Interface.RequestStorage

/-!
# Whose name a deferred DKEY reply has

The lambda that continues after a certificate fetch captures everything by reference
(attribute-authority.cpp:107-114), the request among it, where the lambda for the failure
next to it copies what it needs and so do the lambdas in trust-config.cpp:88-98.  When the
certificate comes the handler has long returned: the name is read from wherever the
Interest object was.  It is the name of the request that started the fetch exactly when
that place still holds it (`deferred_replies_own`).
-/

set_option autoImplicit false

namespace NacAbe.Analysis

open NacAbe ServingAuthority

variable {Token : Type}

/-- The place a completed fetch refers to still holds the request that started it. -/
def StillStored (x : ServingAuthority Token) (e : ServingAuthority.Event Token) : Prop :=
  ∀ position data digest keyPacket now seed fetch,
    e = .certificateData position data digest keyPacket true now seed →
    x.fetches[position]? = some fetch → x.storage fetch.place = fetch.startedBy

/-- A key object is named by a request and a version. -/
def AnswersRequest (requestName : Name) (g : Generation) : Prop :=
  ∃ version, g.objName = requestName ++ [Component.fromVersion version]

variable {keyGen : KeyGen Token} {crypto : Crypto} {x : ServingAuthority Token}

/-- An object that a completion generates is named by what the continuation reads, and the
certificate was accepted. -/
theorem objName_of_completion {fetch : CertificateFetch} {data : Data} {digest : Bytes}
    {keyPacket accepted : Bool} {now seed : ℕ} {g : Generation}
    (h : .generated g ∈ AttributeAuthority.newEffects keyGen crypto x.authority
      (x.completion fetch data digest keyPacket accepted now seed)) :
    g.objName = x.storage fetch.place ++ [Component.fromVersion now] ∧ accepted = true := by
  obtain ⟨hname, hsupplies, -⟩ := AttributeAuthority.generated_inv h
  exact ⟨(Option.some.inj hname).symm, hsupplies.1⟩

/-- **It answers the request of its own fetch exactly when** that request is still where it
was. -/
theorem answersRequest_iff {fetch : CertificateFetch} {data : Data} {digest : Bytes}
    {keyPacket accepted : Bool} {now seed : ℕ} {g : Generation}
    (h : .generated g ∈ AttributeAuthority.newEffects keyGen crypto x.authority
      (x.completion fetch data digest keyPacket accepted now seed)) :
    AnswersRequest fetch.startedBy g ↔ x.storage fetch.place = fetch.startedBy := by
  obtain ⟨hname, -⟩ := objName_of_completion h
  constructor
  · rintro ⟨version, hversion⟩
    rw [hname] at hversion
    exact (List.append_inj' hversion rfl).1
  · intro hstored
    exact ⟨now, by rw [hname, hstored]⟩

theorem mem_generations {g : Generation} {log : List (AuthorityEffect Token)}
    (h : g ∈ AttributeAuthority.generations log) : .generated g ∈ log := by
  obtain ⟨effect, heffect, hsome⟩ := List.mem_filterMap.mp h
  cases effect with
  | generated g' =>
    obtain rfl := Option.some.inj hsome
    exact heffect
  | _ => cases hsome

/-- The step: what a run has completed stays, and an event adds what its completion makes. -/
theorem completed_next {e : ServingAuthority.Event Token} {fetch : CertificateFetch}
    {g : Generation} (h : (fetch, g) ∈ (x.next keyGen crypto e).completed) :
    (fetch, g) ∈ x.completed ∨ ∃ position data digest keyPacket accepted now seed,
      e = .certificateData position data digest keyPacket accepted now seed ∧
      x.fetches[position]? = some fetch ∧
      .generated g ∈ AttributeAuthority.newEffects keyGen crypto x.authority
        (x.completion fetch data digest keyPacket accepted now seed) := by
  cases e with
  | certificateData position data digest keyPacket accepted now seed =>
    rw [ServingAuthority.next] at h
    cases hfetch : x.fetches[position]? with
    | none =>
      rw [hfetch] at h
      exact Or.inl h
    | some fetch' =>
      simp only [hfetch, List.mem_append, List.mem_map] at h
      rcases h with hold | ⟨g', hmade, heq⟩
      · exact Or.inl hold
      · obtain ⟨rfl, rfl⟩ := Prod.mk.inj heq
        exact Or.inr ⟨position, data, digest, keyPacket, accepted, now, seed, rfl, hfetch,
          mem_generations hmade⟩
  | certificateFailure position =>
    rw [ServingAuthority.next] at h
    cases hfetch : x.fetches[position]? with
    | none =>
      rw [hfetch] at h
      exact Or.inl h
    | some fetch' =>
      rw [hfetch] at h
      exact Or.inl h
  | _ => exact Or.inl h

/-- **Deferred replies answer their own request** in every run in which the request is still
where it was whenever the certificate for it comes; and in every run at all, what a
completion generates answers its own request exactly when that is so. -/
theorem deferred_replies_own (keyGen : KeyGen Token) (crypto : Crypto)
    (aa : AttributeAuthority Token) (storage : ℕ → Name)
    (events : List (ServingAuthority.Event Token)) :
    (Runs.Permitted (fun before e =>
        StillStored ((start aa storage).run keyGen crypto before) e) events →
      ∀ fetch g, (fetch, g) ∈ ((start aa storage).run keyGen crypto events).completed →
        AnswersRequest fetch.startedBy g) ∧
    ∀ fetch data digest keyPacket accepted now seed g,
      let x := (start aa storage).run keyGen crypto events
      .generated g ∈ AttributeAuthority.newEffects keyGen crypto x.authority
        (x.completion fetch data digest keyPacket accepted now seed) →
      (AnswersRequest fetch.startedBy g ↔ x.storage fetch.place = fetch.startedBy) := by
  constructor
  · intro h
    refine Runs.invariant (ServingAuthority.next keyGen crypto) (start aa storage)
      (fun _ x => ∀ fetch g, (fetch, g) ∈ x.completed → AnswersRequest fetch.startedBy g)
      (fun fetch g hmem => by cases hmem) ?_ events h
    intro before e _ hstored ih fetch g hmem
    rcases completed_next hmem with
      hold | ⟨position, data, digest, keyPacket, accepted, now, seed, rfl, hfetch, hgen⟩
    · exact ih fetch g hold
    · obtain rfl := (objName_of_completion hgen).2
      exact (answersRequest_iff hgen).mpr
        (hstored position data digest keyPacket now seed fetch rfl hfetch)
  · intro fetch data digest keyPacket accepted now seed g x hgen
    exact answersRequest_iff hgen

/-! ## Two requests at one place -/

/-- The DKEY Interest of `/d` to `/a`. -/
def otherRequest : Interest :=
  ⟨decryptionKeyName authorityCert.getIdentity (Certificate.sample (ascii "d") [7]).getKeyName,
    true, none, none⟩

/-- `/c` and `/d` are authorised by name and ask for their keys; the two Interest objects are
at the places given, and the certificate of `/c` comes. -/
def deferredRun (place place' : ℕ) : List (ServingAuthority.Event (List Bytes)) :=
  [.addNewPolicy consumerCert.getIdentity [ascii "x"],
    .addNewPolicy [Component.generic (ascii "d")] [ascii "x"],
    .decryptionKeyRequest place consumerRequest 4 6, .decryptionKeyRequest place' otherRequest 5 6,
    .certificateData 0 consumerCert.data [] true true 7 8]

/-- The authority `/a`, where nothing has been asked. -/
def servingExample : ServingAuthority (List Bytes) :=
  start (AttributeAuthority.initial authorityCert abeTypeCpAbe 1500 (⟨[1]⟩, ⟨[2]⟩)) fun _ => []

/-- At two places, the key goes out under the name of the request of `/c`. -/
theorem deferred_replies_own_example :
    ∃ fetch g, fetch.startedBy = consumerRequest.name ∧ AnswersRequest fetch.startedBy g ∧
      (fetch, g) ∈ (servingExample.run (CpAttributeAuthority.keyGen mockAbe) mockCrypto
        (deferredRun 0 1)).completed := by
  have hmade : ∃ made ∈ (servingExample.run (CpAttributeAuthority.keyGen mockAbe) mockCrypto
      (deferredRun 0 1)).completed, made.1.startedBy = consumerRequest.name := by decide
  obtain ⟨made, hmem, hname⟩ := hmade
  refine ⟨made.1, made.2, hname, ?_, hmem⟩
  refine (deferred_replies_own (CpAttributeAuthority.keyGen mockAbe) mockCrypto
    (AttributeAuthority.initial authorityCert abeTypeCpAbe 1500 (⟨[1]⟩, ⟨[2]⟩)) (fun _ => [])
    (deferredRun 0 1)).1 ?_ made.1 made.2 hmem
  refine (((((Runs.permitted_nil _).concat ?_).concat ?_).concat ?_).concat ?_).concat ?_
  all_goals
    rintro position data digest keyPacket now seed fetch ⟨⟩ hfetch
  obtain rfl := Option.some.inj hfetch
  rfl

/-- At one place, it goes out under the name of the request of `/d`. -/
theorem deferred_reply_answers_other :
    ¬ ∀ (abe : OpenAbe) (crypto : Crypto) (aa : CpAttributeAuthority) (storage : ℕ → Name)
        (events : List (ServingAuthority.Event (List Bytes))) (fetch : CertificateFetch)
        (g : Generation),
        (fetch, g) ∈ ((start aa storage).run (CpAttributeAuthority.keyGen abe) crypto
          events).completed → AnswersRequest fetch.startedBy g := by
  intro h
  have hmade : ∃ made ∈ (servingExample.run (CpAttributeAuthority.keyGen mockAbe) mockCrypto
      (deferredRun 0 0)).completed, made.1.startedBy = consumerRequest.name ∧
        made.2.objName = otherRequest.name ++ [Component.fromVersion 7] := by decide
  obtain ⟨made, hmem, hname, hobj⟩ := hmade
  obtain ⟨version, hversion⟩ := h mockAbe mockCrypto _ _ (deferredRun 0 0) made.1 made.2 hmem
  rw [hname, hobj] at hversion
  exact absurd (List.append_inj' hversion rfl).1 (by decide)

end NacAbe.Analysis
