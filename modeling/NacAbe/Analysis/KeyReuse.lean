import NacAbe.Analysis.PolicyInterference
import NacAbe.Interface.KeptContentKeys

/-!
# What a `CacheProducer` reuses

`CacheProducer` refines `Producer`: along every run of its calls the key and the packets
that a call returns were generated for the string that `Producer` hands to OpenABE for
the arguments of this call, whichever call they were generated for, and two calls use
one key object exactly when they are handed one string in one mode with no `clearCache`
between them.  Lists that are joined to one string, such as `a|b` and `a`, `b`, share a
key, and would have been handed over as one string anyway.
-/

set_option autoImplicit false

namespace NacAbe.Analysis

open NacAbe CacheProducer

variable {abe : OpenAbe} {producer : Producer}

/-- A call that comes after the steps `before` returns packets.  Its content key is `key`,
the object that the step numbered `origin` made, and its data name the packets of that. -/
structure Uses (abe : OpenAbe) (producer : Producer) (before : List Step) (call : ProduceCall)
    (data ckData : List Data) (key : ContentKey) (origin : ℕ) : Prop where
  returned : ((call.run abe).exec (CacheProducer.run abe producer before)).1 = .ok (data, ckData)
  nonempty : ckData ≠ []
  kept : (CacheProducer.run abe producer (before ++ [.produce call])).kept call.encryptBy =
    some (key, ckData)
  object : (ledger abe producer (before ++ [.produce call])).kept.find call.encryptBy.handed =
    some (origin, key, ckData)
  made : ∃ encrypted cipher,
    Made abe producer.m_cert call.content data ckData key encrypted cipher
  named : (∀ c ∈ producer.m_cert.getName, 0 < c.type ∧ c.type < 2 ^ 32) →
    ∃ cipherText, payload data = .ok (cipherText, contentKeyName ckData)

/-- The step numbered `origin` found nothing in the cache and generated the key and its
packets, from the string that `Producer` hands over for `call`. -/
structure GeneratedFor (abe : OpenAbe) (producer : Producer) (steps : List Step)
    (call : ProduceCall) (key : ContentKey) (ckData : List Data) (origin : ℕ) : Prop where
  handedOver : ∀ abe maxSegmentSize word seed,
    producer.ckDataGen abe call.encryptBy maxSegmentSize word seed =
      producer.keyFor abe call.encryptBy.handed call.encryptBy.component maxSegmentSize word seed
  generated : ∃ maker, steps[origin]? = some (.produce maker) ∧
    (CacheProducer.run abe producer (steps.take origin)).kept maker.encryptBy = none ∧
    AbeSupport.contentKeyGen abe call.encryptBy.handed.1
      producer.m_paramFetcher.m_pubParamsCache call.encryptBy.handed.2 maker.seed = .ok key ∧
    producer.ckSegments key maker.encryptBy.component defaultMaxSegmentSize maker.word =
      .ok ckData

/-- What a run of a `CacheProducer` makes of its keys. -/
structure ReusesKeys (abe : OpenAbe) (producer : Producer) (steps : List Step) : Prop where
  /-- What a successful call returns. -/
  uses : ∀ before call later data ckData, steps = before ++ .produce call :: later →
    ((call.run abe).exec (CacheProducer.run abe producer before)).1 = .ok (data, ckData) →
    ckData ≠ [] → ∃ key origin, Uses abe producer before call data ckData key origin ∧
      GeneratedFor abe producer (before ++ [.produce call]) call key ckData origin
  /-- When two successful calls share a key. -/
  shares : ∀ before call middle call' later {data ckData data' ckData' key key' origin origin'},
    steps = before ++ .produce call :: middle ++ .produce call' :: later →
    Uses abe producer before call data ckData key origin →
    Uses abe producer (before ++ .produce call :: middle) call' data' ckData' key' origin' →
    (origin = origin' ↔ call.encryptBy.handed = call'.encryptBy.handed ∧ .clearCache ∉ middle) ∧
      (origin = origin' → key = key' ∧ ckData = ckData')
  /-- A call that fails to generate a key. -/
  fails : ∀ before call later, steps = before ++ .produce call :: later →
    call.made abe producer = none →
    ((call.run abe).exec (CacheProducer.run abe producer before)).2 =
      CacheProducer.run abe producer before

/-! ## One call of a run -/

theorem given_of_append {before later steps : List Step} (h : Given steps)
    (hsteps : steps = before ++ later) : Given before :=
  fun call hcall => h call (by rw [hsteps]; exact List.mem_append_left _ hcall)

/-- A key that is made is the one that `ckDataGen` returns. -/
theorem made_eq_some {call : ProduceCall} {key : ContentKey} {ckData : List Data}
    (h : call.made abe producer = some (key, ckData)) :
    producer.ckDataGen abe call.encryptBy defaultMaxSegmentSize call.word call.seed =
      .ok (some key, ckData) := by
  unfold ProduceCall.made at h
  split at h
  · next key' ckData' hgen =>
    split at h
    · cases h
    · cases h
      exact hgen
  · cases h

/-- What is kept for a call is an object of the ledger. -/
theorem object_of_kept {steps : List Step} (h : Given steps) {e : EncryptBy} (he : e.Given)
    {k : ContentKey × List Data} (hkept : (CacheProducer.run abe producer steps).kept e = some k) :
    ∃ origin, (ledger abe producer steps).kept.find e.handed = some (origin, k) := by
  rw [← find_keyCache he, (keyCache_run abe producer h).2] at hkept
  obtain ⟨⟨origin, k'⟩, hfind, rfl⟩ := Option.map_eq_some_iff.mp hkept
  exact ⟨origin, hfind⟩

/-- **Where the key of a call comes from.** -/
theorem generatedFor_of_object {steps : List Step} (h : Given steps) {call : ProduceCall}
    (hcall : call.encryptBy.Given) {key : ContentKey} {ckData : List Data} {origin : ℕ}
    (hobject : (ledger abe producer steps).kept.find call.encryptBy.handed =
      some (origin, key, ckData)) : GeneratedFor abe producer steps call key ckData origin := by
  refine ⟨fun abe => producer.ckDataGen_eq abe hcall, ?_⟩
  have horigin := Memo.origin_of_kept hobject
  have hmade := horigin.made
  rw [List.getElem?_map, Option.map_eq_some_iff] at hmade
  obtain ⟨s, hs, hrequest⟩ := hmade
  cases s with
  | clearCache => cases hrequest
  | produce maker =>
    have hmaker : maker.encryptBy.Given := h maker (List.mem_of_getElem? hs)
    injection hrequest with hhanded hmakes
    refine ⟨maker, hs, ?_, ?_⟩
    · have hmissed := horigin.missed
      rw [← List.map_take, ← hhanded] at hmissed
      have hbefore : Given (steps.take origin) :=
        given_of_append h (List.take_append_drop origin steps).symm
      rw [← find_keyCache hmaker, (keyCache_run abe producer hbefore).2]
      exact congrArg (Option.map Prod.snd) hmissed
    · have hgen := made_eq_some hmakes
      rw [producer.ckDataGen_eq abe hmaker, hhanded] at hgen
      exact Producer.keyFor_eq_ok hgen

/-- **What a successful call used.** -/
theorem uses_of_returned {before : List Step} {call : ProduceCall} {data ckData : List Data}
    (h : Given (before ++ [.produce call]))
    (hreturned : ((call.run abe).exec (CacheProducer.run abe producer before)).1 =
      .ok (data, ckData)) (hne : ckData ≠ []) :
    ∃ key origin, Uses abe producer before call data ckData key origin ∧
      GeneratedFor abe producer (before ++ [.produce call]) call key ckData origin := by
  have hcall : call.encryptBy.Given := h call (by simp)
  have hproducer := (keyCache_run abe producer (given_of_append h rfl)).1
  have hends := (Prog.wp_silent_iff _ _ _).mp
    (ProduceCall.wp_run abe call (CacheProducer.run abe producer before))
  obtain ⟨key, hkept, hdata⟩ := hends.used data ckData hreturned hne
  have hafter : (CacheProducer.run abe producer (before ++ [.produce call])).kept call.encryptBy =
      some (key, ckData) := by
    rw [run_concat]
    exact hkept
  obtain ⟨origin, hobject⟩ := object_of_kept h hcall hafter
  have hgenerated := generatedFor_of_object h hcall hobject
  obtain ⟨maker, -, -, hkey, hsegments⟩ := hgenerated.generated
  obtain ⟨encrypted, hck⟩ := ckMade_of_ckSegments hkey hsegments
  rw [hproducer] at hdata
  obtain ⟨cipher, hmade⟩ := made_of_produceWithKey hck hdata
  exact ⟨key, origin, ⟨hreturned, hne, hafter, hobject, ⟨encrypted, cipher, hmade⟩,
    fun hcert => ⟨_, hmade.payload_eq hcert⟩⟩, hgenerated⟩

/-! ## Two calls of a run -/

/-- The memo forgets when the cache is cleared. -/
theorem clearCache_mem_iff {steps : List Step} :
    .forget ∈ steps.map (Step.request abe producer) ↔ .clearCache ∈ steps := by
  rw [List.mem_map]
  constructor
  · rintro ⟨s, hs, hrequest⟩
    cases s with
    | clearCache => exact hs
    | produce call => cases hrequest
  · exact fun h => ⟨.clearCache, h, rfl⟩

/-- Two calls use one object if and only if they encrypt by the same string of the same scheme and
the cache was not cleared between them. -/
theorem same_object_iff {before middle : List Step} {call call' : ProduceCall}
    {data ckData data' ckData' : List Data} {key key' : ContentKey} {origin origin' : ℕ}
    (h : Uses abe producer before call data ckData key origin)
    (h' : Uses abe producer (before ++ .produce call :: middle) call' data' ckData' key' origin') :
    origin = origin' ↔
      call.encryptBy.handed = call'.encryptBy.handed ∧ .clearCache ∉ middle := by
  have hfirst := h.object
  have hsecond := h'.object
  rw [ledger, List.map_append, List.map_singleton] at hfirst
  rw [ledger, List.map_append, List.map_append, List.map_cons, List.map_singleton] at hsecond
  rw [Memo.same_origin_iff hfirst hsecond, clearCache_mem_iff]

/-- One object is one key with one list of packets. -/
theorem same_key_of_same_object {before middle : List Step} {call call' : ProduceCall}
    {data ckData data' ckData' : List Data} {key key' : ContentKey} {origin : ℕ}
    (h : Uses abe producer before call data ckData key origin)
    (h' : Uses abe producer (before ++ .produce call :: middle) call' data' ckData' key' origin) :
    key = key' ∧ ckData = ckData' := by
  obtain ⟨hhanded, hclear⟩ := (same_object_iff h h').mp rfl
  have hrest : Memo.Request.forget ∉
      (middle ++ [Step.produce call']).map (Step.request abe producer) := by
    rw [clearCache_mem_iff]
    simp [hclear]
  have hkept := Memo.kept_append_of_kept h.object hrest
  have hobject := h'.object
  rw [← List.map_append, List.append_assoc] at hkept
  rw [List.append_assoc, List.cons_append, ← hhanded, ledger] at hobject
  rw [List.singleton_append, hobject] at hkept
  cases hkept
  exact ⟨rfl, rfl⟩

/-- **A `CacheProducer` refines `Producer`** and shares keys as it should. -/
theorem cacheProducer_refines (abe : OpenAbe) (producer : Producer) (steps : List Step)
    (h : Given steps) : ReusesKeys abe producer steps where
  uses before call later data ckData hsteps hreturned hne := by
    have hprefix : steps = (before ++ [.produce call]) ++ later := by simp [hsteps]
    exact uses_of_returned (given_of_append h hprefix) hreturned hne
  shares before call middle call' later := by
    intro data ckData data' ckData' key key' origin origin' _ huses huses'
    refine ⟨same_object_iff huses huses', ?_⟩
    rintro rfl
    exact same_key_of_same_object huses huses'
  fails before call later hsteps hmade := by
    have hproducer := (keyCache_run abe producer (given_of_append h hsteps)).1
    rw [ProduceCall.state_run, ProduceCall.keepMade, hproducer, hmade]

/-- A call for the policy "x". -/
def policyCall (n : ℕ) : ProduceCall := ⟨.policy (ascii "x"), [], [1], n, n⟩

/-- Two calls for one policy, an attribute list that a producer in CP mode does not make a key
for, and the policy again from an empty cache. -/
def keyReuseSteps : List Step :=
  [.produce (policyCall 1), .produce (policyCall 2),
    .produce ⟨.attributes [ascii "x"], [], [3], 3, 3⟩, .clearCache,
    .produce (policyCall 4)]

/-- The first two calls return packets, which are encrypted by one key. -/
theorem cacheProducer_refines_example : ∃ data ckData data' key origin,
    Uses mockAbe cpProducer [] (policyCall 1) data ckData key origin ∧
      Uses mockAbe cpProducer [.produce (policyCall 1)] (policyCall 2) data' ckData key origin ∧
      ReusesKeys mockAbe cpProducer keyReuseSteps := by
  have hreuses : ReusesKeys mockAbe cpProducer keyReuseSteps :=
    cacheProducer_refines mockAbe cpProducer keyReuseSteps (by
      intro call hcall
      simp only [keyReuseSteps, List.mem_cons, Step.produce.injEq, List.not_mem_nil, or_false,
        reduceCtorEq, false_or] at hcall
      rcases hcall with rfl | rfl | rfl | rfl <;> decide)
  obtain ⟨data, ckData, hreturned, hne⟩ : ∃ data ckData,
      (((policyCall 1).run mockAbe).exec (CacheProducer.run mockAbe cpProducer [])).1 =
        .ok (data, ckData) ∧ ckData ≠ [] := ⟨_, _, rfl, nofun⟩
  obtain ⟨data', ckData', hreturned', hne'⟩ : ∃ data ckData, (((policyCall 2).run mockAbe).exec
      (CacheProducer.run mockAbe cpProducer [.produce (policyCall 1)])).1 = .ok (data, ckData) ∧
        ckData ≠ [] := ⟨_, _, rfl, nofun⟩
  obtain ⟨key, origin, huses, -⟩ := hreuses.uses [] _ _ _ _ rfl hreturned hne
  obtain ⟨key', origin', huses', -⟩ :=
    hreuses.uses [.produce (policyCall 1)] _ _ _ _ rfl hreturned' hne'
  obtain ⟨hsame, hshared⟩ := hreuses.shares [] _ [] _ _ rfl huses huses'
  obtain rfl : origin = origin' := hsame.mpr ⟨rfl, nofun⟩
  obtain ⟨rfl, rfl⟩ := hshared rfl
  exact ⟨data, ckData, data', key, origin, huses, huses', hreuses⟩

end NacAbe.Analysis
