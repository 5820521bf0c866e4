import NacAbe.Library.Runs
import NacAbe.Program.ParamFetcher

/-!
# Runs of a parameter fetcher

What each handler of a `ParamFetcher` does, as one equation (`exec_fetchPublicParams`,
`exec_onAttributePubParams`), and its runs: calls of `fetchPublicParams` from outside, the
Interests it has expressed ending in Data or not, and the answers of the validator, in any
order.  Which packet answers an Interest, and when the validator is done with it, is left open.
-/

set_option autoImplicit false

namespace NacAbe.ParamFetcher

/-- The ABE types `onAttributePubParams` takes. -/
def Supported (abeType : AbeType) : Prop := abeType = abeTypeCpAbe ∨ abeType = abeTypeKpAbe

instance (abeType : AbeType) : Decidable (Supported abeType) :=
  inferInstanceAs (Decidable (_ ∨ _))

/-- The component that the ABE type is read from. -/
def typeComponent (fetcher : ParamFetcher) (pubParamData : Data) : Option Component :=
  pubParamData.name[fetcher.m_attrAuthorityPrefix.length + 1]?

/-- The name that is asked for. -/
def requestName (fetcher : ParamFetcher) : Name :=
  fetcher.m_attrAuthorityPrefix ++ [publicParamsComponent]

/-! ## The handlers -/

/-- How a packet is handled and what it leaves. -/
def received (mem : Memory) (fetcher : ParamFetcher) (pubParamData : Data) :
    Option String → Except Exn Unit × ParamFetcher
  | some info =>
    (.error (.runtimeError ("Fetched public parameters cannot be authenticated: " ++ info)),
      fetcher)
  | none =>
    match fetcher.typeComponent pubParamData with
    | none => (.error .undefined, fetcher)
    | some component =>
      if Supported component.value then
        match PublicParams.fromBuffer mem pubParamData.content with
        | .error e => (.error e, { fetcher with m_abeType := component.value })
        | .ok pubParams =>
          (.ok (), { fetcher with m_abeType := component.value, m_pubParamsCache := pubParams })
      else
        (.error (.runtimeError "Fetched public parameters with unsupported ABE type"),
          { fetcher with m_abeType := component.value })

/-- What the handler of validated parameters does. -/
theorem exec_onAttributePubParams (mem : Memory) (fetcher : ParamFetcher) (pubParamData : Data)
    (validationError : Option String) :
    (onAttributePubParams mem pubParamData validationError).exec fetcher =
      received mem fetcher pubParamData validationError := by
  have hwp : (onAttributePubParams mem pubParamData validationError).wp (Prog.silent _ _ _)
      (fun r t => (r, t) = received mem fetcher pubParamData validationError) fetcher := by
    cases validationError with
    | some info => rfl
    | none =>
      simp only [onAttributePubParams, received, typeComponent, Prog.wp_bind, Prog.wp_get,
        Prog.andThen_ok]
      cases pubParamData.name[fetcher.m_attrAuthorityPrefix.length + 1]? with
      | none => rfl
      | some component =>
        have hsupported : (component.value ≠ abeTypeCpAbe ∧ component.value ≠ abeTypeKpAbe) ↔
            ¬ Supported component.value := not_or.symm
        simp only [Prog.wp_bind, Prog.wp_modify, Prog.andThen_ok, hsupported]
        by_cases h : Supported component.value
        · rw [if_neg (not_not.mpr h), if_pos h]
          simp only [Prog.wp_bind, Prog.wp_liftM]
          cases PublicParams.fromBuffer mem pubParamData.content with
          | error e => rfl
          | ok pubParams => rfl
        · rw [if_pos h, if_neg h]
          rfl
  exact (Prog.wp_silent_iff _ (fun r t => (r, t) = _) fetcher).mp hwp

/-- The packet passes the validator, has content and names a supported type. -/
def Takes (fetcher : ParamFetcher) (pubParamData : Data) (validationError : Option String) :
    Prop :=
  validationError = none ∧ pubParamData.content ≠ [] ∧
    ∃ component, fetcher.typeComponent pubParamData = some component ∧ Supported component.value

/-- A packet that is taken. -/
theorem received_of_supported {mem : Memory} {fetcher : ParamFetcher} {pubParamData : Data}
    {component : Component} {pubParams : PublicParams}
    (hcomponent : fetcher.typeComponent pubParamData = some component)
    (hsupported : Supported component.value)
    (hparams : PublicParams.fromBuffer mem pubParamData.content = .ok pubParams) :
    received mem fetcher pubParamData none = (.ok (), { fetcher with
      m_abeType := component.value, m_pubParamsCache := pubParams }) := by
  simp only [received, hcomponent, if_pos hsupported, hparams]

/-- A packet that is handled touches the type and the parameters only. -/
theorem received_frame (mem : Memory) (fetcher : ParamFetcher) (pubParamData : Data)
    (validationError : Option String) :
    ∃ abeType pubParams, (received mem fetcher pubParamData validationError).2 =
      { fetcher with m_abeType := abeType, m_pubParamsCache := pubParams } := by
  unfold received
  cases validationError with
  | some info => exact ⟨_, _, rfl⟩
  | none =>
    dsimp only
    split
    · exact ⟨_, _, rfl⟩
    · split
      · split
        · exact ⟨_, _, rfl⟩
        · exact ⟨_, _, rfl⟩
      · exact ⟨_, _, rfl⟩

/-- How a call of `fetchPublicParams` ends and what it leaves. -/
def fetched (paramsDigest : Bytes → Bytes) (fetcher : ParamFetcher) :
    Except Exn Unit × ParamFetcher :=
  if maxRetries ≤ fetcher.m_retryCount then
    (.error (.runtimeError "Failed to fetch public parameters after multiple attempts."), fetcher)
  else
    match fetcher.m_interestTemplate.setName paramsDigest fetcher.requestName with
    | .error e => (.error e, { fetcher with m_retryCount := fetcher.m_retryCount + 1 })
    | .ok interest =>
      (.ok (), { fetcher with
        m_retryCount := fetcher.m_retryCount + 1
        outstanding := interest :: fetcher.outstanding })

/-- What a call of `fetchPublicParams` does. -/
theorem exec_fetchPublicParams (paramsDigest : Bytes → Bytes) (fetcher : ParamFetcher) :
    (fetchPublicParams paramsDigest).exec fetcher = fetched paramsDigest fetcher := by
  have hwp : (fetchPublicParams paramsDigest).wp (Prog.silent _ _ _)
      (fun r t => (r, t) = fetched paramsDigest fetcher) fetcher := by
    simp only [fetchPublicParams, fetched, requestName, Prog.wp_bind, Prog.wp_get, Prog.andThen_ok]
    split
    · rfl
    · simp only [Prog.wp_bind, Prog.wp_modify, Prog.wp_liftM, Prog.andThen_ok]
      cases fetcher.m_interestTemplate.setName paramsDigest
        (fetcher.m_attrAuthorityPrefix ++ [publicParamsComponent]) with
      | error e => rfl
      | ok interest => rfl
  exact (Prog.wp_silent_iff _ (fun r t => (r, t) = _) fetcher).mp hwp

/-- What a call can do: it refuses, it counts an attempt whose Interest cannot be named, or it
counts one and expresses the Interest. -/
theorem fetched_cases (paramsDigest : Bytes → Bytes) (fetcher : ParamFetcher) :
    (maxRetries ≤ fetcher.m_retryCount ∧ fetched paramsDigest fetcher = (.error (.runtimeError
      "Failed to fetch public parameters after multiple attempts."), fetcher)) ∨
    (fetcher.m_retryCount < maxRetries ∧
      ((∃ e, fetcher.m_interestTemplate.setName paramsDigest fetcher.requestName = .error e ∧
          fetched paramsDigest fetcher =
            (.error e, { fetcher with m_retryCount := fetcher.m_retryCount + 1 })) ∨
        ∃ interest,
          fetcher.m_interestTemplate.setName paramsDigest fetcher.requestName = .ok interest ∧
          fetched paramsDigest fetcher = (.ok (), { fetcher with
            m_retryCount := fetcher.m_retryCount + 1
            outstanding := interest :: fetcher.outstanding }))) := by
  unfold fetched
  by_cases hlimit : maxRetries ≤ fetcher.m_retryCount
  · exact Or.inl ⟨hlimit, if_pos hlimit⟩
  · refine Or.inr ⟨by omega, ?_⟩
    rw [if_neg hlimit]
    cases hname : fetcher.m_interestTemplate.setName paramsDigest fetcher.requestName with
    | error e => exact Or.inl ⟨e, rfl, rfl⟩
    | ok interest => exact Or.inr ⟨interest, rfl, rfl⟩

/-- A call touches the counter and the Interests only. -/
theorem fetched_frame (paramsDigest : Bytes → Bytes) (fetcher : ParamFetcher) :
    ∃ retryCount outstanding, (fetched paramsDigest fetcher).2 =
      { fetcher with m_retryCount := retryCount, outstanding := outstanding } := by
  obtain ⟨-, h⟩ | ⟨-, ⟨e, -, h⟩ | ⟨interest, -, h⟩⟩ := fetched_cases paramsDigest fetcher
  · exact ⟨_, _, congrArg Prod.snd h⟩
  · exact ⟨_, _, congrArg Prod.snd h⟩
  · exact ⟨_, _, congrArg Prod.snd h⟩

/-! ## Runs -/

/-- An Interest has ended. -/
def ended (interest : Interest) (fetcher : ParamFetcher) : ParamFetcher :=
  { fetcher with outstanding := fetcher.outstanding.erase interest }

/-- The packet that ends an Interest has arrived. -/
def arrived (interest : Interest) (fetcher : ParamFetcher) : ParamFetcher :=
  { fetcher.ended interest with m_retryCount := 0 }

/-- What happens to a fetcher, one event after the other. -/
inductive Event
  /-- Somebody calls `fetchPublicParams`. -/
  | call
  /-- An Interest is answered, and the packet goes to the validator. -/
  | arrival (interest : Interest)
  /-- The validator accepts a packet or not, at once or after it has fetched certificates. -/
  | validation (pubParamData : Data) (validationError : Option String)
  /-- An Interest is nacked or times out. -/
  | nackOrTimeout (interest : Interest)
deriving DecidableEq, Repr

variable (mem : Memory) (paramsDigest : Bytes → Bytes)

def Event.program : Event → Prog ParamFetcher Exn Empty Unit
  | .call => fetchPublicParams paramsDigest
  | .arrival interest => modify (arrived interest)
  | .validation pubParamData validationError =>
    onAttributePubParams mem pubParamData validationError
  | .nackOrTimeout interest => onNackOrTimeout paramsDigest interest

/-- Only an Interest that is outstanding ends. -/
def Event.enabled (fetcher : ParamFetcher) : Event → Bool
  | .call => true
  | .arrival interest => interest ∈ fetcher.outstanding
  | .validation _ _ => true
  | .nackOrTimeout interest => interest ∈ fetcher.outstanding

/-- How an event ends and the state it leaves; one that cannot happen changes nothing. -/
def handle (fetcher : ParamFetcher) (e : Event) : Except Exn Unit × ParamFetcher :=
  if e.enabled fetcher then (e.program mem paramsDigest).exec fetcher else (.ok (), fetcher)

/-- The state an event leaves.  An exception ends the event and nothing else. -/
def next (fetcher : ParamFetcher) (e : Event) : ParamFetcher :=
  (handle mem paramsDigest fetcher e).2

/-- The state after a list of events. -/
def run (fetcher : ParamFetcher) (events : List Event) : ParamFetcher :=
  Runs.after (next mem paramsDigest) fetcher events

/-- A packet that is validated at once is an arrival and a validation. -/
theorem exec_onData (interest : Interest) (pubParamData : Data) (validationError : Option String)
    (fetcher : ParamFetcher) :
    (onData mem interest pubParamData validationError).exec fetcher =
      received mem (fetcher.arrived interest) pubParamData validationError :=
  exec_onAttributePubParams mem _ pubParamData validationError

theorem exec_onNackOrTimeout (interest : Interest) (fetcher : ParamFetcher) :
    (onNackOrTimeout paramsDigest interest).exec fetcher =
      fetched paramsDigest (fetcher.ended interest) :=
  exec_fetchPublicParams paramsDigest _

/-! ## What one event does -/

variable (fetcher : ParamFetcher)

theorem handle_call : handle mem paramsDigest fetcher .call = fetched paramsDigest fetcher :=
  exec_fetchPublicParams paramsDigest fetcher

theorem handle_validation (pubParamData : Data) (validationError : Option String) :
    handle mem paramsDigest fetcher (.validation pubParamData validationError) =
      received mem fetcher pubParamData validationError :=
  exec_onAttributePubParams mem fetcher pubParamData validationError

variable {fetcher}

theorem handle_arrival {interest : Interest} (h : interest ∈ fetcher.outstanding) :
    handle mem paramsDigest fetcher (.arrival interest) = (.ok (), fetcher.arrived interest) :=
  if_pos (decide_eq_true h)

theorem handle_nackOrTimeout {interest : Interest} (h : interest ∈ fetcher.outstanding) :
    handle mem paramsDigest fetcher (.nackOrTimeout interest) =
      fetched paramsDigest (fetcher.ended interest) :=
  (if_pos (decide_eq_true h)).trans (exec_onNackOrTimeout paramsDigest interest fetcher)

/-- What the event loop cannot do leaves everything as it is. -/
theorem handle_of_not_enabled {e : Event} (h : e.enabled fetcher = false) :
    handle mem paramsDigest fetcher e = (.ok (), fetcher) :=
  if_neg (by simp [h])

variable (fetcher)

/-- Only a validation touches the type and the parameters. -/
theorem next_frame {e : Event}
    (h : ∀ pubParamData validationError, e ≠ .validation pubParamData validationError) :
    ∃ retryCount outstanding, next mem paramsDigest fetcher e =
      { fetcher with m_retryCount := retryCount, outstanding := outstanding } := by
  by_cases henabled : e.enabled fetcher = true
  · cases e with
    | call =>
      rw [next, handle_call]
      exact fetched_frame paramsDigest fetcher
    | arrival interest =>
      rw [next, handle_arrival mem paramsDigest (of_decide_eq_true henabled)]
      exact ⟨_, _, rfl⟩
    | validation pubParamData validationError => exact absurd rfl (h _ _)
    | nackOrTimeout interest =>
      rw [next, handle_nackOrTimeout mem paramsDigest (of_decide_eq_true henabled)]
      exact fetched_frame paramsDigest (fetcher.ended interest)
  · rw [next, handle_of_not_enabled mem paramsDigest (by simpa using henabled)]
    exact ⟨_, _, rfl⟩

/-- Prefix and template are never assigned. -/
theorem next_constants (e : Event) :
    (next mem paramsDigest fetcher e).m_attrAuthorityPrefix = fetcher.m_attrAuthorityPrefix ∧
      (next mem paramsDigest fetcher e).m_interestTemplate = fetcher.m_interestTemplate := by
  by_cases h : ∃ pubParamData validationError, e = .validation pubParamData validationError
  · obtain ⟨pubParamData, validationError, rfl⟩ := h
    obtain ⟨abeType, pubParams, hreceived⟩ :=
      received_frame mem fetcher pubParamData validationError
    rw [next, handle_validation, hreceived]
    exact ⟨rfl, rfl⟩
  · obtain ⟨retryCount, outstanding, hnext⟩ := next_frame mem paramsDigest fetcher
      fun pubParamData validationError heq => h ⟨pubParamData, validationError, heq⟩
    rw [hnext]
    exact ⟨rfl, rfl⟩

theorem run_prefix (events : List Event) :
    (run mem paramsDigest fetcher events).m_attrAuthorityPrefix = fetcher.m_attrAuthorityPrefix :=
  Runs.invariant _ _
    (fun _ (left : ParamFetcher) => left.m_attrAuthorityPrefix = fetcher.m_attrAuthorityPrefix) rfl
    (fun _ e _ _ h => (next_constants mem paramsDigest _ e).1.trans h) events
    (Runs.permitted_true events)

end NacAbe.ParamFetcher
