import NacAbe.Analysis.EmptyAttributes
import NacAbe.Analysis.KeyReuse
import NacAbe.Analysis.PolicyProvenance

/-!
# What cached keys do to policy changes

A `CacheProducer` is a `Producer`: commands keep changing its tables and packets its parameters
while it keeps content keys.  The keys are kept by what they were generated for and the tables are
looked up first, so a command takes effect at the next call of `produce`, whatever is cached
(`cachedProduction_isCurrent`).  What the caches do not follow are the parameters: a key stays as
it was generated until `clearCache`.
-/

set_option autoImplicit false

namespace NacAbe

/-- What a command sets. -/
def PolicyCommand.encryptBy : PolicyCommand → EncryptBy
  | .policy _ accessPolicy => .policy accessPolicy
  | .attributes _ attrList => .attributes attrList

namespace CacheProducer

variable {abe : OpenAbe} {cert : Certificate} {c : CacheProducer}

/-! ## Where a key that is kept comes from -/

/-- The key was generated for a string under public parameters, and these are its packets. -/
def KeyUnder (abe : OpenAbe) (cert : Certificate) (pubParams : PublicParams)
    (handed : Scheme × Bytes) (k : ContentKey × List Data) : Prop :=
  (∃ seed, AbeSupport.contentKeyGen abe handed.1 pubParams handed.2 seed = .ok k.1) ∧
    ∃ encrypted, CkMade abe cert k.1 encrypted k.2

/-- A list that is empty makes no key. -/
theorem given_of_made {call : ProduceCall} {k : ContentKey × List Data}
    (h : call.made abe c.producer = some k) : call.encryptBy.Given := by
  obtain ⟨key, ckData⟩ := k
  have hgen := Analysis.made_eq_some h
  intro heq
  rw [heq] at hgen
  change c.producer.ckDataGenAttributes abe [] _ _ _ = _ at hgen
  unfold Producer.ckDataGenAttributes at hgen
  split_ifs at hgen
  · cases hgen
  · cases hgen
  · cases hgen

theorem keyUnder_of_made {call : ProduceCall} {k : ContentKey × List Data}
    (h : call.made abe c.producer = some k) :
    KeyUnder abe c.producer.m_cert c.producer.m_paramFetcher.m_pubParamsCache
      call.encryptBy.handed k := by
  obtain ⟨key, ckData⟩ := k
  have hgen := Analysis.made_eq_some h
  rw [Producer.ckDataGen_eq abe c.producer (given_of_made h)] at hgen
  obtain ⟨hkey, hsegments⟩ := Producer.keyFor_eq_ok hgen
  exact ⟨⟨call.seed, hkey⟩, ckMade_of_ckSegments hkey hsegments⟩

/-- What is kept after a key has been added was kept before, or is this key, for one string. -/
theorem kept_keep_cases {e e' : EncryptBy} {k k' : ContentKey × List Data} (he : e.Given)
    (he' : e'.Given) (h : (c.keep e k).kept e' = some k') :
    c.kept e' = some k' ∨ (e'.handed = e.handed ∧ k' = k) := by
  rw [← find_keyCache he', keyCache_keep he, PartialMap.find_insert, find_keyCache he] at h
  split at h
  · next hhanded =>
    cases hkept : c.kept e with
    | none =>
      rw [hkept] at h
      exact Or.inr ⟨hhanded, (Option.some.inj h).symm⟩
    | some old =>
      rw [hkept] at h
      rw [← find_keyCache he', hhanded, find_keyCache he, hkept]
      exact Or.inl h
  · rw [find_keyCache he'] at h
    exact Or.inl h

end CacheProducer

/-! ## A data owner and a producer that keeps keys -/

structure CachedExchange where
  owner : DataOwner
  cache : CacheProducer

namespace CachedExchange

/-- The two parties without the caches. -/
def exchange (x : CachedExchange) : PolicyExchange := ⟨x.owner, x.cache.producer⟩

/-- The public parameters that the producer holds. -/
def pubParams (x : CachedExchange) : PublicParams :=
  x.cache.producer.m_paramFetcher.m_pubParamsCache

inductive Event
  /-- Commands, replies and parameters, over the network. -/
  | exchange (e : PolicyExchange.Event)
  | produceByName (dataName : Name) (content : Bytes) (word seed : ℕ)
  | produce (call : ProduceCall)
  | clearCache

variable (abe : OpenAbe) (signer : Signer) (auth : Producer.Authentication) (mem : Memory)

def next (x : CachedExchange) : Event → CachedExchange
  | .exchange e =>
    let y := PolicyExchange.next signer auth mem x.exchange e
    ⟨y.owner, { x.cache with producer := y.producer }⟩
  | .produceByName dataName content word seed =>
    { x with cache := ((CacheProducer.produce abe dataName content word seed).exec x.cache).2 }
  | .produce call => { x with cache := ((call.run abe).exec x.cache).2 }
  | .clearCache => { x with cache := x.cache.clearCache }

def run (producer : Producer) (events : List Event) : CachedExchange :=
  Runs.after (next abe signer auth mem) ⟨.initial, .initial producer⟩ events

/-- What is asked of a run is asked of the exchange. -/
def Faithful (x : CachedExchange) : Event → Prop
  | .exchange e => Analysis.Faithful auth x.exchange e
  | _ => True

variable {abe signer auth mem} {producer : Producer} {before : List Event} {x : CachedExchange}

variable (abe signer auth mem producer) in
/-- The key was generated for the string at a moment of the run, under the parameters of that
moment, and nothing has been cleared since. -/
def GeneratedSince (before : List Event) (handed : Scheme × Bytes) (k : ContentKey × List Data) :
    Prop :=
  ∃ earlier later, before = earlier ++ later ∧ .clearCache ∉ later ∧
    CacheProducer.KeyUnder abe producer.m_cert
      (run abe signer auth mem producer earlier).pubParams
      handed k

variable (abe signer auth mem producer) in
/-- Every key that is kept was generated for its string since the last `clearCache`, and the
tables hold what the owner issued. -/
structure Kept (before : List Event) (x : CachedExchange) : Prop where
  cert : x.cache.producer.m_cert = producer.m_cert
  keys : ∀ e : EncryptBy, e.Given → ∀ k, x.cache.kept e = some k →
    GeneratedSince abe signer auth mem producer before e.handed k
  provenance : Analysis.Provenance x.exchange

/-- The producer keeps its certificate. -/
theorem m_cert_next (y : PolicyExchange) (e : PolicyExchange.Event) :
    (PolicyExchange.next signer auth mem y e).producer.m_cert = y.producer.m_cert := by
  cases e with
  | deliverInterest interest =>
    rcases Analysis.dispatch_cases auth y.producer interest with
      hsame | ⟨dataPrefix, read, -, -, -, hanswered⟩
    · exact congrArg Producer.m_cert hsame
    · exact (congrArg Producer.m_cert hanswered).trans (Analysis.m_cert_answered _ _ _)
  | command command seed => rfl
  | deliverData data digest => rfl
  | commandFailure position isNack => rfl
  | publicParams pubParamData validationError => rfl

/-- An event that does not clear goes on with the keys. -/
theorem GeneratedSince.later {handed : Scheme × Bytes} {k : ContentKey × List Data}
    (h : GeneratedSince abe signer auth mem producer before handed k) {event : Event}
    (hevent : event ≠ .clearCache) :
    GeneratedSince abe signer auth mem producer (before ++ [event]) handed k := by
  obtain ⟨earlier, later, rfl, hclear, hunder⟩ := h
  refine ⟨earlier, later ++ [event], List.append_assoc _ _ _, ?_, hunder⟩
  rw [List.mem_append, List.mem_singleton]
  rintro (hlater | rfl)
  · exact hclear hlater
  · exact hevent rfl

/-- **What a call leaves in the caches** was there, or has just been generated. -/
theorem Kept.generated (h : Kept abe signer auth mem producer before x)
    (hx : run abe signer auth mem producer before = x) (call : ProduceCall) {e : EncryptBy}
    (he : e.Given) {k : ContentKey × List Data}
    (hk : ((call.run abe).exec x.cache).2.kept e = some k) :
    GeneratedSince abe signer auth mem producer before e.handed k := by
  rw [ProduceCall.state_run, ProduceCall.keepMade] at hk
  cases hmade : call.made abe x.cache.producer with
  | none =>
    rw [hmade] at hk
    exact h.keys e he k hk
  | some made =>
    rw [hmade] at hk
    have hunder := CacheProducer.keyUnder_of_made hmade
    rw [h.cert] at hunder
    rcases CacheProducer.kept_keep_cases (CacheProducer.given_of_made hmade) he hk with
      hold | ⟨hhanded, rfl⟩
    · exact h.keys e he k hold
    · refine ⟨before, [], (List.append_nil _).symm, List.not_mem_nil, ?_⟩
      rw [hx, hhanded]
      exact hunder

/-- **One call of `produce`.** -/
theorem Kept.called (h : Kept abe signer auth mem producer before x)
    (hx : run abe signer auth mem producer before = x) {event : Event}
    (hevent : event ≠ .clearCache) (call : ProduceCall) :
    Kept abe signer auth mem producer (before ++ [event])
      { x with cache := ((call.run abe).exec x.cache).2 } := by
  have hproducer : ((call.run abe).exec x.cache).2.producer = x.cache.producer := by
    rw [ProduceCall.state_run, ProduceCall.keepMade]
    split
    · exact CacheProducer.producer_keep _ _ _
    · rfl
  refine ⟨?_, fun e he k hk => (h.generated hx call he hk).later hevent, ?_⟩
  · rw [hproducer]
    exact h.cert
  · rw [CachedExchange.exchange, hproducer]
    exact h.provenance

/-- **One event.** -/
theorem Kept.next (h : Kept abe signer auth mem producer before x)
    (hx : run abe signer auth mem producer before = x) {event : Event}
    (hf : Faithful auth x event) :
    Kept abe signer auth mem producer (before ++ [event])
      (CachedExchange.next abe signer auth mem x event) := by
  cases event with
  | exchange e =>
    have hcert : (PolicyExchange.next signer auth mem x.exchange e).producer.m_cert =
        x.cache.producer.m_cert := m_cert_next x.exchange e
    refine ⟨hcert.trans h.cert, ?_, h.provenance.next hf⟩
    intro e' he' k hk
    exact (h.keys e' he' k (by cases e' <;> exact hk)).later (by rintro ⟨⟩)
  | produceByName dataName content word seed =>
    rw [CachedExchange.next, CacheProducer.exec_produce]
    cases x.cache.producer.matched dataName with
    | some e => exact h.called hx (by rintro ⟨⟩) ⟨e, dataName, content, word, seed⟩
    | none =>
      exact ⟨h.cert, fun e he k hk => (h.keys e he k hk).later (by rintro ⟨⟩), h.provenance⟩
  | produce call => exact h.called hx (by rintro ⟨⟩) call
  | clearCache =>
    refine ⟨h.cert, ?_, h.provenance⟩
    intro e he k hk
    cases e <;> cases hk

/-- Every faithful run keeps the invariant. -/
theorem kept_run (abe : OpenAbe) (signer : Signer) (auth : Producer.Authentication) (mem : Memory)
    (identityCert attrAuthorityCertificate dataOwnerCertificate : Certificate)
    (template : Interest) (events : List Event)
    (h : Runs.Permitted (fun before e => Faithful auth (run abe signer auth mem (.initial
      identityCert attrAuthorityCertificate dataOwnerCertificate template) before) e) events) :
    Kept abe signer auth mem (.initial identityCert attrAuthorityCertificate dataOwnerCertificate
      template) events (run abe signer auth mem (.initial identityCert attrAuthorityCertificate
        dataOwnerCertificate template) events) := by
  refine Runs.invariant (CachedExchange.next abe signer auth mem) _
    (Kept abe signer auth mem (.initial identityCert attrAuthorityCertificate dataOwnerCertificate
      template)) ?_ ?_ events h
  · refine ⟨rfl, ?_, ?_⟩
    · intro e he k hk
      cases e <;> cases hk
    · exact ⟨List.forall_mem_nil _, List.forall_mem_nil _, List.forall_mem_nil _⟩
  · intro before e _ he ih
    exact ih.next rfl he

/-- What the tables give for a name is what the owner issued for a prefix of it. -/
theorem issued_of_matched (h : Analysis.Provenance x.exchange) {dataName : Name}
    {e : EncryptBy} (he : x.cache.producer.matched dataName = some e) :
    ∃ sent ∈ Analysis.issued x.owner, sent.command.command.dataPrefix <+: dataName ∧
      sent.command.command.encryptBy = e := by
  unfold Producer.matched at he
  dsimp only at he
  split_ifs at he with hcp hpolicy hkp hattributes
  · obtain ⟨dataPrefix, hmem, hpre⟩ := Analysis.mem_of_findMatched hpolicy
    obtain ⟨sent, hsent, hcommand⟩ := h.policies _ hmem
    cases he
    refine ⟨sent, hsent, ?_, ?_⟩
    · rw [hcommand]
      exact hpre
    · rw [hcommand]
      rfl
  · obtain ⟨dataPrefix, hmem, hpre⟩ := Analysis.mem_of_findMatched hattributes
    obtain ⟨sent, hsent, hcommand⟩ := h.attributes _ hmem
    cases he
    refine ⟨sent, hsent, ?_, ?_⟩
    · rw [hcommand]
      exact hpre
    · rw [hcommand]
      rfl

end CachedExchange

end NacAbe

namespace NacAbe.Analysis

open CachedExchange

/-- **Cached production follows the commands.**  In every run of a data owner and a producer that
keeps keys, with calls of `produce` and `clearCache` between commands, replies and parameters in
any order over any network: packets that are produced by name are encrypted by what the tables
hold at that moment for the name, which the owner has issued for a prefix of it, and their content
key was generated for exactly that, at some moment since the last `clearCache`, under the
parameters of that moment. -/
theorem cachedProduction_isCurrent (abe : OpenAbe) (signer : Signer)
    (auth : Producer.Authentication) (mem : Memory)
    (identityCert attrAuthorityCertificate dataOwnerCertificate : Certificate)
    (template : Interest) (events : List CachedExchange.Event)
    (h : Runs.Permitted (fun before e => CachedExchange.Faithful auth (run abe signer auth mem
      (.initial identityCert attrAuthorityCertificate dataOwnerCertificate template) before) e)
      events)
    (dataName : Name) (content : Bytes) (word seed : ℕ) (data ckData : List Data)
    (hne : ckData ≠ []) :
    let producer := Producer.initial identityCert attrAuthorityCertificate dataOwnerCertificate
      template
    let x := run abe signer auth mem producer events
    ((CacheProducer.produce abe dataName content word seed).exec x.cache).1 = .ok (data, ckData) →
    ∃ e, x.cache.producer.matched dataName = some e ∧
      (∃ sent ∈ Analysis.issued x.owner, sent.command.command.dataPrefix <+: dataName ∧
        sent.command.command.encryptBy = e) ∧
      ∃ earlier later, events = earlier ++ later ∧ .clearCache ∉ later ∧
        ∃ key encrypted cipher seed',
          AbeSupport.contentKeyGen abe e.handed.1
            (run abe signer auth mem producer earlier).pubParams
            e.handed.2 seed' = .ok key ∧
          Made abe identityCert content data ckData key encrypted cipher := by
  intro producer x hreturned
  have hkept : CachedExchange.Kept abe signer auth mem producer events x :=
    kept_run _ _ _ _ _ _ _ _ _ h
  rw [CacheProducer.exec_produce] at hreturned
  cases he : x.cache.producer.matched dataName with
  | none =>
    rw [he] at hreturned
    cases hreturned
    exact absurd rfl hne
  | some e =>
    rw [he] at hreturned
    have hgiven := Producer.given_of_matched he
    refine ⟨e, rfl, issued_of_matched hkept.provenance he, ?_⟩
    have hends := (Prog.wp_silent_iff _ _ _).mp
      (ProduceCall.wp_run abe ⟨e, dataName, content, word, seed⟩ x.cache)
    obtain ⟨key, hkey, hdata⟩ := hends.used data ckData hreturned hne
    obtain ⟨earlier, later, hevents, hclear, ⟨seed', hgenerated⟩, encrypted, hck⟩ :=
      hkept.generated rfl ⟨e, dataName, content, word, seed⟩ hgiven hkey
    obtain ⟨cipher, hmade⟩ := made_of_produceWithKey hck hdata
    exact ⟨earlier, later, hevents, hclear, key, encrypted, cipher, seed', hgenerated, hmade⟩

/-- The producer learns its mode and a policy, and produces under it. -/
def cachedRun : List CachedExchange.Event :=
  [.exchange cpParams, .exchange (.command policyExample 0),
    .exchange (.deliverInterest (interestFor policyExample)),
    .produceByName [Component.generic (ascii "d"), Component.generic (ascii "1")] (ascii "hi") 1 4]

theorem faithful_cachedRun : Runs.Permitted (fun before e => CachedExchange.Faithful exampleAuth
    (CachedExchange.run mockAbe exampleSigner exampleAuth noMemory exampleProducer before) e)
    cachedRun := by
  refine ((((Runs.permitted_nil _).concat ?_).concat ?_).concat ?_).concat ?_
  · trivial
  · exact (rfl : policyExample.producerPrefix = _)
  · intro _
    refine ⟨⟨policyExample, interestFor policyExample⟩, List.mem_cons_self, rfl, ?_⟩
    rintro ⟨hkp, -⟩
    exact absurd hkp (by decide)
  · trivial

set_option maxRecDepth 1024 in
/-- The second production uses the key of the first. -/
theorem cachedProduction_isCurrent_example : ∃ packets : List Data × List Data,
    ((CacheProducer.produce mockAbe [Component.generic (ascii "d"), Component.generic (ascii "2")]
      (ascii "ho") 2 5).exec (CachedExchange.run mockAbe exampleSigner exampleAuth noMemory
        exampleProducer cachedRun).cache).1 = .ok packets ∧
    ∃ earlier later, cachedRun = earlier ++ later ∧ .clearCache ∉ later ∧
      ∃ key encrypted cipher seed', AbeSupport.contentKeyGen mockAbe .cpAbe
        (CachedExchange.run mockAbe exampleSigner exampleAuth noMemory exampleProducer
          earlier).pubParams (ascii "x") seed' = .ok key ∧
        Made mockAbe (.sample (ascii "p") [1]) (ascii "ho") packets.1 packets.2 key encrypted
          cipher := by
  obtain ⟨packets, hproduced, hne⟩ : ∃ packets : List Data × List Data,
      ((CacheProducer.produce mockAbe [Component.generic (ascii "d"), Component.generic (ascii "2")]
        (ascii "ho") 2 5).exec (CachedExchange.run mockAbe exampleSigner exampleAuth noMemory
          exampleProducer cachedRun).cache).1 = .ok packets ∧ packets.2 ≠ [] :=
    ⟨_, rfl, List.cons_ne_nil _ _⟩
  refine ⟨packets, hproduced, ?_⟩
  obtain ⟨e, he, -, hgenerated⟩ := cachedProduction_isCurrent mockAbe exampleSigner exampleAuth
    noMemory (.sample (ascii "p") [1]) (.sample (ascii "a") [2]) (.sample (ascii "o") [3])
    ParamFetcher.defaultInterestTemplate cachedRun faithful_cachedRun _ _ _ _ packets.1 packets.2
    hne hproduced
  have hpolicy : some (EncryptBy.policy (ascii "x")) = some e := he
  obtain rfl := Option.some.inj hpolicy
  exact hgenerated

end NacAbe.Analysis
