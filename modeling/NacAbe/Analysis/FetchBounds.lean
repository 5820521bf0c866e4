import NacAbe.Interface.ParamExchange

/-!
# Bounds on parameter fetching

`m_retryCount` is raised before the Interest is built (param-fetcher.cpp:48-53), so it counts
attempts: the Interests expressed and those that the library refused to name.  `Tally` keeps both
numbers beside a run, with the number of calls from outside; `Tally.Bounded` carries the bounds
over every interleaving of the retry chains.
-/

set_option autoImplicit false

namespace NacAbe.ParamFetcher

/-! ## What an observer counts -/

/-- A fetcher with what has been counted of its run. -/
structure Tally where
  fetcher : ParamFetcher
  /-- Calls of `fetchPublicParams` from outside. -/
  calls : ℕ
  /-- Interests expressed since the last Data. -/
  expressed : ℕ
  /-- Attempts since the last Data that ended before an Interest was expressed. -/
  abandoned : ℕ
deriving DecidableEq, Repr

/-- The exception of a call at the limit. -/
def tooManyAttempts : Exn :=
  .runtimeError "Failed to fetch public parameters after multiple attempts."

namespace Event

/-- The Interests that are outstanding once the event has ended its own. -/
def remaining (fetcher : ParamFetcher) : Event → List Interest
  | .call => fetcher.outstanding
  | .arrival interest => fetcher.outstanding.erase interest
  | .validation _ _ => fetcher.outstanding
  | .nackOrTimeout interest => fetcher.outstanding.erase interest

/-- An Interest is answered. -/
def isData (fetcher : ParamFetcher) : Event → Bool
  | .arrival interest => interest ∈ fetcher.outstanding
  | _ => false

/-- The event runs `fetchPublicParams`. -/
def fetches (fetcher : ParamFetcher) : Event → Bool
  | .call => true
  | .nackOrTimeout interest => interest ∈ fetcher.outstanding
  | _ => false

variable (mem : Memory) (paramsDigest : Bytes → Bytes)

/-- The number of Interests that an event expresses. -/
def expresses (fetcher : ParamFetcher) (e : Event) : ℕ :=
  (next mem paramsDigest fetcher e).outstanding.length - (e.remaining fetcher).length

/-- An attempt throws below the limit. -/
def abandons (fetcher : ParamFetcher) (e : Event) : Bool :=
  e.fetches fetcher &&
    match (handle mem paramsDigest fetcher e).1 with
    | .ok _ => false
    | .error thrown => thrown ≠ tooManyAttempts

end Event

namespace Tally

variable (mem : Memory) (paramsDigest : Bytes → Bytes)

def initial (attrAuthorityPrefix : Name) (interestTemplate : Interest) : Tally :=
  ⟨.initial attrAuthorityPrefix interestTemplate, 0, 0, 0⟩

/-- The event happens and is counted; Data starts the count anew. -/
def next (t : Tally) (e : Event) : Tally where
  fetcher := ParamFetcher.next mem paramsDigest t.fetcher e
  calls := if e = .call then t.calls + 1 else t.calls
  expressed := if e.isData t.fetcher then 0
    else t.expressed + e.expresses mem paramsDigest t.fetcher
  abandoned := if e.isData t.fetcher then 0
    else if e.abandons mem paramsDigest t.fetcher then t.abandoned + 1 else t.abandoned

/-- The tally of a run. -/
def run (t : Tally) (events : List Event) : Tally :=
  Runs.after (next mem paramsDigest) t events

/-- What holds of a tally at any time. -/
structure Bounded (t : Tally) : Prop where
  /-- The counter counts attempts. -/
  counts : t.fetcher.m_retryCount = t.expressed + t.abandoned
  /-- No attempt is abandoned where the prefix leaves room for a digest. -/
  named : t.fetcher.m_attrAuthorityPrefix.countP isParametersSha256Digest ≤ 1 → t.abandoned = 0
  limit : t.fetcher.m_retryCount ≤ maxRetries
  outstanding : t.fetcher.outstanding.length ≤ t.calls

variable {mem paramsDigest} {t : Tally} {e : Event}

theorem fetcher_run (t : Tally) (events : List Event) :
    (t.run mem paramsDigest events).fetcher =
      ParamFetcher.run mem paramsDigest t.fetcher events := by
  unfold run ParamFetcher.run Runs.after
  induction events generalizing t with
  | nil => rfl
  | cons e events ih => exact ih (t.next mem paramsDigest e)

/-! ## One event -/

/-- The library refuses a name with two digests, and nothing else. -/
theorem setName_eq_error {interest : Interest} {name : Name} {thrown : Exn}
    (h : interest.setName paramsDigest name = .error thrown) :
    thrown = .invalidArgument ∧ 1 < name.countP isParametersSha256Digest := by
  unfold Interest.setName at h
  split at h
  · next hdigests =>
    cases h
    exact ⟨rfl, hdigests⟩
  · split at h
    · cases h
    · dsimp only at h
      split at h <;> cases h

/-- An attempt, counted: `left` is the fetcher as `fetchPublicParams` finds it. -/
theorem next_of_fetches {left : ParamFetcher}
    (hhandle : handle mem paramsDigest t.fetcher e = fetched paramsDigest left)
    (hremaining : e.remaining t.fetcher = left.outstanding)
    (hfetches : e.fetches t.fetcher = true) (hdata : e.isData t.fetcher = false) :
    (maxRetries ≤ left.m_retryCount ∧
      (handle mem paramsDigest t.fetcher e).1 = .error tooManyAttempts ∧
      t.next mem paramsDigest e = { t with
        fetcher := left
        calls := (t.next mem paramsDigest e).calls }) ∨
    (left.m_retryCount < maxRetries ∧
      1 < left.m_attrAuthorityPrefix.countP isParametersSha256Digest ∧
      t.next mem paramsDigest e = { t with
        fetcher := { left with m_retryCount := left.m_retryCount + 1 }
        calls := (t.next mem paramsDigest e).calls
        abandoned := t.abandoned + 1 }) ∨
    (left.m_retryCount < maxRetries ∧ ∃ interest,
      t.next mem paramsDigest e = { t with
        fetcher := { left with
          m_retryCount := left.m_retryCount + 1
          outstanding := interest :: left.outstanding }
        calls := (t.next mem paramsDigest e).calls
        expressed := t.expressed + 1 }) := by
  obtain ⟨hlimit, hfetched⟩ | ⟨hlimit, ⟨thrown, hname, hfetched⟩ | ⟨interest, -, hfetched⟩⟩ :=
    fetched_cases paramsDigest left
  · rw [hfetched] at hhandle
    refine Or.inl ⟨hlimit, by rw [hhandle]; rfl, ?_⟩
    simp [next, hdata, Event.expresses, Event.abandons, ParamFetcher.next, hhandle, hremaining,
      tooManyAttempts]
  · rw [hfetched] at hhandle
    obtain ⟨rfl, hdigests⟩ := setName_eq_error hname
    refine Or.inr (Or.inl ⟨hlimit, ?_, ?_⟩)
    · have hparams : isParametersSha256Digest publicParamsComponent = false := rfl
      rw [requestName, List.countP_append, List.countP_singleton, hparams] at hdigests
      simpa using hdigests
    · simp [next, hdata, Event.expresses, Event.abandons, ParamFetcher.next, hhandle, hremaining,
        hfetches, tooManyAttempts]
  · rw [hfetched] at hhandle
    refine Or.inr (Or.inr ⟨hlimit, interest, ?_⟩)
    simp [next, hdata, Event.expresses, Event.abandons, ParamFetcher.next, hhandle, hremaining]

/-- An event that is no attempt and no Data, counted. -/
theorem next_of_idle {left : ParamFetcher}
    (hnext : ParamFetcher.next mem paramsDigest t.fetcher e = left)
    (hremaining : e.remaining t.fetcher = left.outstanding)
    (hfetches : e.fetches t.fetcher = false) (hdata : e.isData t.fetcher = false)
    (hcall : e ≠ .call) : t.next mem paramsDigest e = { t with fetcher := left } := by
  simp [next, hdata, hcall, Event.expresses, Event.abandons, hnext, hremaining, hfetches]

/-- What cannot happen is not counted. -/
theorem next_of_not_enabled (henabled : e.enabled t.fetcher = false) :
    t.next mem paramsDigest e = t := by
  have hnext : ParamFetcher.next mem paramsDigest t.fetcher e = t.fetcher := by
    rw [ParamFetcher.next, handle_of_not_enabled mem paramsDigest henabled]
  cases e with
  | call => cases henabled
  | validation pubParamData validationError => cases henabled
  | arrival interest =>
    have hnot : interest ∉ t.fetcher.outstanding := of_decide_eq_false henabled
    exact next_of_idle hnext (List.erase_of_not_mem hnot) rfl henabled (by rintro ⟨⟩)
  | nackOrTimeout interest =>
    have hnot : interest ∉ t.fetcher.outstanding := of_decide_eq_false henabled
    exact next_of_idle hnext (List.erase_of_not_mem hnot) henabled rfl (by rintro ⟨⟩)

/-- A validation is not counted. -/
theorem next_validation (pubParamData : Data) (validationError : Option String) :
    t.next mem paramsDigest (.validation pubParamData validationError) =
      { t with fetcher := (received mem t.fetcher pubParamData validationError).2 } := by
  obtain ⟨abeType, pubParams, hframe⟩ :=
    received_frame mem t.fetcher pubParamData validationError
  refine next_of_idle ?_ ?_ rfl rfl nofun
  · rw [ParamFetcher.next, handle_validation]
  · rw [hframe]
    rfl

/-- Data starts the count anew. -/
theorem next_arrival {interest : Interest} (h : interest ∈ t.fetcher.outstanding) :
    t.next mem paramsDigest (.arrival interest) =
      ⟨t.fetcher.arrived interest, t.calls, 0, 0⟩ := by
  have hdata : Event.isData t.fetcher (.arrival interest) = true := decide_eq_true h
  simp [next, hdata, ParamFetcher.next, handle_arrival mem paramsDigest h]

/-- An attempt keeps the bounds if there is room for its Interest. -/
theorem Bounded.next_of_fetches (h : t.Bounded) {left : ParamFetcher}
    (hhandle : handle mem paramsDigest t.fetcher e = fetched paramsDigest left)
    (hremaining : e.remaining t.fetcher = left.outstanding)
    (hfetches : e.fetches t.fetcher = true) (hdata : e.isData t.fetcher = false)
    (hretries : left.m_retryCount = t.fetcher.m_retryCount)
    (hconstant : left.m_attrAuthorityPrefix = t.fetcher.m_attrAuthorityPrefix)
    (hroom : left.outstanding.length + 1 ≤ (t.next mem paramsDigest e).calls) :
    (t.next mem paramsDigest e).Bounded := by
  obtain ⟨hcounts, hnamed, hlimit, houtstanding⟩ := h
  rw [← hretries] at hcounts hlimit
  rw [← hconstant] at hnamed
  obtain ⟨-, -, hnext⟩ | ⟨hbelow, hdigests, hnext⟩ | ⟨hbelow, interest, hnext⟩ :=
    Tally.next_of_fetches hhandle hremaining hfetches hdata
  · rw [hnext]
    exact ⟨hcounts, hnamed, hlimit, by dsimp only; omega⟩
  · rw [hnext]
    refine ⟨?_, fun hdigest => absurd hdigest (by dsimp only; omega), ?_, ?_⟩
    · dsimp only
      omega
    · exact hbelow
    · dsimp only
      omega
  · rw [hnext]
    refine ⟨?_, hnamed, ?_, ?_⟩
    · dsimp only
      omega
    · exact hbelow
    · simpa using hroom

/-- **Every event keeps the bounds.** -/
theorem Bounded.next (h : t.Bounded) (e : Event) : (t.next mem paramsDigest e).Bounded := by
  by_cases henabled : e.enabled t.fetcher = true
  · cases e with
    | call =>
      refine h.next_of_fetches (handle_call mem paramsDigest t.fetcher) rfl rfl rfl rfl rfl ?_
      exact Nat.succ_le_succ h.outstanding
    | arrival interest =>
      have hmem : interest ∈ t.fetcher.outstanding := of_decide_eq_true henabled
      rw [next_arrival hmem]
      refine ⟨rfl, fun _ => rfl, Nat.zero_le _, ?_⟩
      exact (List.length_erase_le).trans h.outstanding
    | validation pubParamData validationError =>
      obtain ⟨abeType, pubParams, hframe⟩ :=
        received_frame mem t.fetcher pubParamData validationError
      rw [next_validation, hframe]
      exact ⟨h.counts, h.named, h.limit, h.outstanding⟩
    | nackOrTimeout interest =>
      have hmem : interest ∈ t.fetcher.outstanding := of_decide_eq_true henabled
      refine h.next_of_fetches (handle_nackOrTimeout mem paramsDigest hmem) rfl henabled rfl rfl
        rfl ?_
      have hlength := List.length_erase_of_mem hmem
      have hpos := List.length_pos_of_mem hmem
      have hcalls := h.outstanding
      show (t.fetcher.outstanding.erase interest).length + 1 ≤ t.calls
      omega
  · rw [next_of_not_enabled (by simpa using henabled)]
    exact h

theorem bounded_run (attrAuthorityPrefix : Name) (interestTemplate : Interest)
    (events : List Event) :
    ((initial attrAuthorityPrefix interestTemplate).run mem paramsDigest events).Bounded := by
  have hinitial : (initial attrAuthorityPrefix interestTemplate).Bounded :=
    ⟨rfl, fun _ => rfl, Nat.zero_le _, Nat.zero_le _⟩
  exact Runs.invariant _ _ (fun _ (t : Tally) => t.Bounded) hinitial
    (fun _ e _ _ h => h.next e) events (Runs.permitted_true events)

/-- The calls that are counted are those of the run. -/
theorem calls_run (attrAuthorityPrefix : Name) (interestTemplate : Interest)
    (events : List Event) :
    ((initial attrAuthorityPrefix interestTemplate).run mem paramsDigest events).calls =
      events.count .call := by
  refine Runs.invariant _ _ (fun events (t : Tally) => t.calls = events.count .call) ?_ ?_ events
    (Runs.permitted_true events)
  · rfl
  · intro events e _ _ h
    simp only [Tally.next, List.count_append, List.count_singleton, h]
    by_cases hcall : e = .call
    · simp [hcall]
    · simp [hcall]

/-! ## At the limit -/

/-- At the limit an attempt throws and changes nothing that is counted. -/
theorem next_of_limit (left : ParamFetcher) (hleft : left.m_retryCount = maxRetries)
    (hhandle : handle mem paramsDigest t.fetcher e = fetched paramsDigest left)
    (hremaining : e.remaining t.fetcher = left.outstanding)
    (hfetches : e.fetches t.fetcher = true) (hdata : e.isData t.fetcher = false) :
    (t.next mem paramsDigest e).expressed = t.expressed ∧
      (t.next mem paramsDigest e).fetcher.m_retryCount = maxRetries ∧
      (handle mem paramsDigest t.fetcher e).1 = .error tooManyAttempts := by
  obtain ⟨-, hthrows, hnext⟩ | ⟨hbelow, -⟩ | ⟨hbelow, -⟩ :=
    Tally.next_of_fetches hhandle hremaining hfetches hdata
  · rw [hnext]
    exact ⟨rfl, hleft, hthrows⟩
  · omega
  · omega

/-- At the limit an event that is no Data expresses nothing, and a call throws. -/
theorem expresses_of_limit (hlimit : t.fetcher.m_retryCount = maxRetries)
    (hdata : e.isData t.fetcher = false) :
    e.expresses mem paramsDigest t.fetcher = 0 ∧
      (t.next mem paramsDigest e).fetcher.m_retryCount = maxRetries ∧
      (e.fetches t.fetcher = true →
        (handle mem paramsDigest t.fetcher e).1 = .error tooManyAttempts) := by
  have hexpressed : (t.next mem paramsDigest e).expressed =
      t.expressed + e.expresses mem paramsDigest t.fetcher := by
    simp [next, hdata]
  by_cases henabled : e.enabled t.fetcher = true
  · cases e with
    | call =>
      obtain ⟨hsame, hretries, hthrows⟩ :=
        next_of_limit t.fetcher hlimit (handle_call mem paramsDigest t.fetcher) rfl rfl hdata
      exact ⟨by omega, hretries, fun _ => hthrows⟩
    | arrival interest =>
      rw [Event.isData] at hdata
      rw [Event.enabled, hdata] at henabled
      cases henabled
    | validation pubParamData validationError =>
      obtain ⟨abeType, pubParams, hframe⟩ :=
        received_frame mem t.fetcher pubParamData validationError
      rw [next_validation] at hexpressed ⊢
      rw [hframe]
      exact ⟨by dsimp only at hexpressed; omega, hlimit, nofun⟩
    | nackOrTimeout interest =>
      have hmem : interest ∈ t.fetcher.outstanding := of_decide_eq_true henabled
      obtain ⟨hsame, hretries, hthrows⟩ :=
        next_of_limit (t.fetcher.ended interest) hlimit
          (handle_nackOrTimeout mem paramsDigest hmem) rfl henabled hdata
      exact ⟨by omega, hretries, fun _ => hthrows⟩
  · have hskip : t.next mem paramsDigest e = t :=
      next_of_not_enabled (by simpa using henabled)
    rw [hskip] at hexpressed ⊢
    refine ⟨by omega, hlimit, fun hfetches => ?_⟩
    cases e with
    | call => exact absurd rfl henabled
    | arrival interest => cases hfetches
    | validation pubParamData validationError => cases hfetches
    | nackOrTimeout interest => exact absurd hfetches henabled

end Tally

end NacAbe.ParamFetcher

/-! ## Runs -/

namespace NacAbe.Analysis

open ParamFetcher

/-- **Parameter fetching is bounded.**  For every prefix, template and run: the counter is the
number of attempts since the last Data, which are the Interests expressed and the abandoned ones,
and there are none of these if the prefix has at most one digest; it never exceeds the limit; at
the limit nothing but Data changes it, nothing is expressed and a call throws; and no more Interests
are outstanding than there were calls from outside. -/
theorem fetching_bounded (mem : Memory) (paramsDigest : Bytes → Bytes)
    (attrAuthorityPrefix : Name) (interestTemplate : Interest) (events : List Event) :
    let t := (Tally.initial attrAuthorityPrefix interestTemplate).run mem paramsDigest events
    t.fetcher = run mem paramsDigest (.initial attrAuthorityPrefix interestTemplate) events ∧
    t.calls = events.count .call ∧
    t.fetcher.m_retryCount = t.expressed + t.abandoned ∧
    (attrAuthorityPrefix.countP isParametersSha256Digest ≤ 1 →
      t.fetcher.m_retryCount = t.expressed) ∧
    t.fetcher.m_retryCount ≤ maxRetries ∧
    (t.fetcher.m_retryCount = maxRetries → ∀ e : Event, e.isData t.fetcher = false →
      e.expresses mem paramsDigest t.fetcher = 0 ∧
      (t.next mem paramsDigest e).fetcher.m_retryCount = maxRetries ∧
      (e.fetches t.fetcher = true →
        (handle mem paramsDigest t.fetcher e).1 = .error tooManyAttempts)) ∧
    t.fetcher.outstanding.length ≤ t.calls := by
  intro t
  have hbounded : t.Bounded := Tally.bounded_run attrAuthorityPrefix interestTemplate events
  have hfetcher : t.fetcher =
      run mem paramsDigest (.initial attrAuthorityPrefix interestTemplate) events :=
    Tally.fetcher_run _ events
  have hfixed : t.fetcher.m_attrAuthorityPrefix = attrAuthorityPrefix := by
    rw [hfetcher]
    exact run_prefix mem paramsDigest _ events
  refine ⟨hfetcher, Tally.calls_run attrAuthorityPrefix interestTemplate events, hbounded.counts,
    ?_, hbounded.limit, fun hlimit e hdata => Tally.expresses_of_limit hlimit hdata,
    hbounded.outstanding⟩
  intro hdigest
  have hnone := hbounded.named (hfixed.symm ▸ hdigest)
  rw [hbounded.counts, hnone, Nat.add_zero]

/-- One call for the authority `/a`, and nine Interests that time out. -/
def spentFetch : List Event :=
  .call :: List.replicate 9
    (.nackOrTimeout ⟨[Component.generic (ascii "a"), publicParamsComponent], true, none, none⟩)

/-- The next call throws. -/
theorem fetching_bounded_of_spent :
    (handle ⟨id⟩ id (run ⟨id⟩ id (.initial [Component.generic (ascii "a")] defaultInterestTemplate)
      spentFetch) .call).1 = .error tooManyAttempts := by
  have hbounded := fetching_bounded ⟨id⟩ id [Component.generic (ascii "a")] defaultInterestTemplate
    spentFetch
  obtain ⟨hfetcher, -, -, -, -, hlimit, -⟩ := hbounded
  rw [← hfetcher]
  exact (hlimit (by decide) .call rfl).2.2 rfl

/-- A prefix with two digests. -/
def twoDigests : Name :=
  [⟨tlvParametersSha256DigestComponent, List.replicate 32 0⟩,
    ⟨tlvParametersSha256DigestComponent, List.replicate 32 1⟩]

/-- One call on a fetcher for it. -/
def twoDigestsTally : Tally :=
  (Tally.initial twoDigests ParamFetcher.defaultInterestTemplate).run ⟨id⟩ id [.call]

/-- A call whose Interest the library refuses to name is counted. -/
theorem abandoned_isCounted :
    twoDigestsTally.fetcher.m_retryCount = 1 ∧ twoDigestsTally.expressed = 0 := by
  decide

end NacAbe.Analysis
