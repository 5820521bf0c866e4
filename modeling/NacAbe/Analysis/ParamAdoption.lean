import NacAbe.Interface.ConsumerReadiness

/-!
# Adopting public parameters

`onAttributePubParams` assigns the ABE type before it checks it and before it reads the parameters,
and takes it from a component that it does not check for (param-fetcher.cpp:84-89).  A packet of an
unsupported type is therefore rejected with its type adopted, so is a packet without content, of
which no string can be made, and a packet without the component has no defined handling.  Whether a
run meets none of these is said event by event (`Regular`), and that is what atomic adoption comes
down to (`adoptsAtomically_iff`).
-/

set_option autoImplicit false

namespace NacAbe.ParamFetcher

/-! ## Atomic adoption -/

/-- Type and parameters are those of one packet that was taken, or nothing has been adopted. -/
def FromOnePacket (mem : Memory) (events : List Event) (fetcher : ParamFetcher) : Prop :=
  (fetcher.m_abeType = [] ∧ fetcher.m_pubParamsCache = ⟨[]⟩) ∨
    ∃ pubParamData component, .validation pubParamData none ∈ events ∧
      fetcher.typeComponent pubParamData = some component ∧ Supported component.value ∧
      fetcher.m_abeType = component.value ∧
      PublicParams.fromBuffer mem pubParamData.content = .ok fetcher.m_pubParamsCache

/-- What holds after a run that adopts atomically. -/
structure Adopted (mem : Memory) (events : List Event) (fetcher : ParamFetcher) : Prop where
  type : fetcher.m_abeType = [] ∨ fetcher.m_abeType = abeTypeCpAbe ∨
    fetcher.m_abeType = abeTypeKpAbe
  onePacket : FromOnePacket mem events fetcher

variable (mem : Memory) (paramsDigest : Bytes → Bytes)

/-- A packet that is rejected is rejected with an exception and leaves both fields. -/
def RejectsCleanly (fetcher : ParamFetcher) (e : Event) : Prop :=
  ∀ pubParamData validationError, e = .validation pubParamData validationError →
    ¬ fetcher.Takes pubParamData validationError →
    (handle mem paramsDigest fetcher e).1 ≠ .error .undefined ∧
      (next mem paramsDigest fetcher e).m_abeType = fetcher.m_abeType ∧
      (next mem paramsDigest fetcher e).m_pubParamsCache = fetcher.m_pubParamsCache

/-- In every state of the run the fields come from one packet, and every packet of it that is
rejected leaves them. -/
def AdoptsAtomically (fetcher : ParamFetcher) (events : List Event) : Prop :=
  ∀ before, before <+: events →
    Adopted mem before (run mem paramsDigest fetcher before) ∧
      ∀ e, before ++ [e] <+: events →
        RejectsCleanly mem paramsDigest (run mem paramsDigest fetcher before) e

/-- A packet that passes the validator has a type component, which names the type held, the empty
one included, or, with some content, a supported type. -/
def Regular (fetcher : ParamFetcher) : Event → Prop
  | .validation pubParamData none => ∃ component,
      fetcher.typeComponent pubParamData = some component ∧
        ((Supported component.value ∧ pubParamData.content ≠ []) ∨
          component.value = fetcher.m_abeType)
  | _ => True

variable {mem paramsDigest} {fetcher : ParamFetcher}

/-! ## One event -/

variable (mem) in
/-- A packet that is rejected behind the validator: its type is adopted before. -/
theorem received_of_rejected {pubParamData : Data} {component : Component}
    (hcomponent : fetcher.typeComponent pubParamData = some component)
    (hrejected : ¬ (Supported component.value ∧ pubParamData.content ≠ [])) :
    ∃ e, e ≠ .undefined ∧ received mem fetcher pubParamData none =
      (.error e, { fetcher with m_abeType := component.value }) := by
  by_cases hsupported : Supported component.value
  · have hempty : pubParamData.content = [] := by
      by_contra hne
      exact hrejected ⟨hsupported, hne⟩
    have he : Exn.logicError ≠ .undefined := by
      rintro ⟨⟩
    refine ⟨.logicError, he, ?_⟩
    simp only [received, hcomponent, if_pos hsupported, hempty]
    rfl
  · have he : Exn.runtimeError "Fetched public parameters with unsupported ABE type" ≠
        .undefined := by
      rintro ⟨⟩
    refine ⟨_, he, ?_⟩
    simp only [received, hcomponent, if_neg hsupported]

/-- A packet is taken exactly when its type is supported and its content is not empty. -/
theorem takes_iff {pubParamData : Data} {component : Component}
    (hcomponent : fetcher.typeComponent pubParamData = some component) :
    fetcher.Takes pubParamData none ↔ Supported component.value ∧ pubParamData.content ≠ [] := by
  constructor
  · rintro ⟨-, hcontent, other, hsome, hother⟩
    obtain rfl : component = other := Option.some.inj (hcomponent.symm.trans hsome)
    exact ⟨hother, hcontent⟩
  · rintro ⟨hsupported, hcontent⟩
    exact ⟨rfl, hcontent, component, hcomponent, hsupported⟩

variable (mem paramsDigest) in
/-- What rejecting cleanly means for a packet. -/
theorem rejectsCleanly_validation_iff (pubParamData : Data) (validationError : Option String) :
    RejectsCleanly mem paramsDigest fetcher (.validation pubParamData validationError) ↔
      (¬ fetcher.Takes pubParamData validationError →
        (received mem fetcher pubParamData validationError).1 ≠ .error .undefined ∧
        (received mem fetcher pubParamData validationError).2.m_abeType = fetcher.m_abeType ∧
        (received mem fetcher pubParamData validationError).2.m_pubParamsCache =
          fetcher.m_pubParamsCache) := by
  rw [← handle_validation mem paramsDigest]
  constructor
  · intro h
    exact h _ _ rfl
  · rintro h _ _ ⟨⟩
    exact h

variable (mem paramsDigest) in
/-- **An event rejects cleanly exactly when it is regular.** -/
theorem rejectsCleanly_iff (e : Event) :
    RejectsCleanly mem paramsDigest fetcher e ↔ fetcher.Regular e := by
  cases e with
  | call => exact iff_of_true nofun trivial
  | arrival interest => exact iff_of_true nofun trivial
  | nackOrTimeout interest => exact iff_of_true nofun trivial
  | validation pubParamData validationError =>
    rw [rejectsCleanly_validation_iff]
    cases validationError with
    | some info => exact iff_of_true (fun _ => ⟨nofun, rfl, rfl⟩) trivial
    | none =>
      cases hcomponent : fetcher.typeComponent pubParamData with
      | none =>
        have htakes : ¬ fetcher.Takes pubParamData none := by
          rintro ⟨-, -, component, hsome, -⟩
          rw [hcomponent] at hsome
          cases hsome
        refine iff_of_false (fun h => (h htakes).1 ?_) ?_
        · simp only [received, hcomponent]
        · rintro ⟨component, hsome, -⟩
          rw [hcomponent] at hsome
          cases hsome
      | some component =>
        by_cases htaken : Supported component.value ∧ pubParamData.content ≠ []
        · exact iff_of_true (fun h => absurd ((takes_iff hcomponent).mpr htaken) h)
            ⟨component, hcomponent, Or.inl htaken⟩
        · have htakes := mt (takes_iff hcomponent).mp htaken
          obtain ⟨e, he, hreceived⟩ := received_of_rejected mem hcomponent htaken
          rw [hreceived]
          constructor
          · intro h
            exact ⟨component, hcomponent, Or.inr (h htakes).2.1⟩
          · rintro ⟨other, hsome, hother⟩ -
            obtain rfl : component = other := Option.some.inj (hcomponent.symm.trans hsome)
            exact ⟨fun heq => he (Except.error.inj heq), hother.resolve_left htaken, rfl⟩

/-- Fields that stay still come from the packet they came from. -/
theorem Adopted.keep {events : List Event} (h : Adopted mem events fetcher) {left : ParamFetcher}
    (htype : left.m_abeType = fetcher.m_abeType)
    (hparams : left.m_pubParamsCache = fetcher.m_pubParamsCache)
    (hfront : left.m_attrAuthorityPrefix = fetcher.m_attrAuthorityPrefix) (e : Event) :
    Adopted mem (events ++ [e]) left := by
  refine ⟨by rw [htype]; exact h.type, ?_⟩
  rcases h.onePacket with ⟨hnone, hempty⟩ | ⟨data, component, hmem, hcomponent, hrest⟩
  · exact Or.inl ⟨htype.trans hnone, hparams.trans hempty⟩
  · refine Or.inr ⟨data, component, List.mem_append_left _ hmem, ?_, ?_⟩
    · rw [typeComponent, hfront]
      exact hcomponent
    · rw [htype, hparams]
      exact hrest

/-- A packet that is taken is the one that the fields come from. -/
theorem adopted_of_takes (events : List Event) {pubParamData : Data}
    (h : fetcher.Takes pubParamData none) :
    Adopted mem (events ++ [.validation pubParamData none])
      (next mem paramsDigest fetcher (.validation pubParamData none)) := by
  obtain ⟨-, hcontent, component, hcomponent, hsupported⟩ := h
  have hparams := PublicParams.fromBuffer_eq_ok_iff.mpr
    ⟨hcontent, Eq.refl (PublicParams.mk (cString mem pubParamData.content))⟩
  rw [next, handle_validation, received_of_supported hcomponent hsupported hparams]
  exact ⟨Or.inr hsupported, Or.inr ⟨pubParamData, component,
    List.mem_append_right _ (List.mem_singleton_self _), hcomponent, hsupported, rfl, hparams⟩⟩

/-- An event other than a validation touches neither field. -/
theorem Adopted.quiet {events : List Event} {e : Event} (h : Adopted mem events fetcher)
    (he : ∀ pubParamData validationError, e ≠ .validation pubParamData validationError) :
    Adopted mem (events ++ [e]) (next mem paramsDigest fetcher e) := by
  obtain ⟨_, _, hnext⟩ := next_frame mem paramsDigest fetcher he
  rw [hnext]
  refine h.keep ?_ ?_ ?_ e
  · rfl
  · rfl
  · rfl

/-- Adoption is kept by a regular event. -/
theorem Adopted.step {events : List Event} {e : Event} (h : Adopted mem events fetcher)
    (he : fetcher.Regular e) :
    Adopted mem (events ++ [e]) (next mem paramsDigest fetcher e) := by
  cases e with
  | validation pubParamData validationError =>
    by_cases htakes : fetcher.Takes pubParamData validationError
    · obtain rfl := htakes.1
      exact adopted_of_takes events htakes
    · have hclean := (rejectsCleanly_iff mem paramsDigest _).mpr he
      obtain ⟨-, htype, hparams⟩ := hclean pubParamData validationError rfl htakes
      exact h.keep htype hparams (next_constants mem paramsDigest fetcher _).1 _
  | call => exact h.quiet (by rintro _ _ ⟨⟩)
  | arrival interest => exact h.quiet (by rintro _ _ ⟨⟩)
  | nackOrTimeout interest => exact h.quiet (by rintro _ _ ⟨⟩)

end NacAbe.ParamFetcher

/-! ## Runs -/

namespace NacAbe.Analysis

open ParamFetcher

/-- The run is regular at every event. -/
def RegularRun (mem : Memory) (paramsDigest : Bytes → Bytes) (fetcher : ParamFetcher)
    (events : List Event) : Prop :=
  Runs.Permitted (fun before e => (run mem paramsDigest fetcher before).Regular e) events

/-- **A run adopts atomically exactly when it is regular.**  From a fetcher as it is constructed,
for every prefix, template and list of events: in every state the type is empty, CP-ABE or KP-ABE,
type and parameters come from one accepted packet, and what is rejected leaves both fields, if and
only if every validated packet has a type component that names the type held, or a supported type
with some content. -/
theorem adoptsAtomically_iff (mem : Memory) (paramsDigest : Bytes → Bytes)
    (attrAuthorityPrefix : Name) (interestTemplate : Interest) (events : List Event) :
    AdoptsAtomically mem paramsDigest (.initial attrAuthorityPrefix interestTemplate) events ↔
      RegularRun mem paramsDigest (.initial attrAuthorityPrefix interestTemplate) events := by
  constructor
  · rintro h before e later rfl
    have hprefix : before ++ [e] <+: before ++ e :: later := ⟨later, by simp⟩
    have hbefore : before <+: before ++ e :: later := List.prefix_append _ _
    exact (rejectsCleanly_iff mem paramsDigest e).mp ((h before hbefore).2 e hprefix)
  · intro h before hbefore
    have hpermitted := Runs.Permitted.of_prefix h hbefore
    have hinitial : Adopted mem [] (.initial attrAuthorityPrefix interestTemplate) :=
      ⟨Or.inl rfl, Or.inl ⟨rfl, rfl⟩⟩
    constructor
    · exact Runs.invariant _ _ (fun events fetcher => Adopted mem events fetcher) hinitial
        (fun _ _ _ he hadopted => hadopted.step he) before hpermitted
    · intro e he
      obtain ⟨-, hregular⟩ := Runs.permitted_concat (Runs.Permitted.of_prefix h he)
      exact (rejectsCleanly_iff mem paramsDigest e).mpr hregular

/-- A fetcher of the authority `/a` with the default template, its Interest, and a packet of a type
that nobody supports. -/
def plainFetcher : ParamFetcher :=
  .initial [Component.generic (ascii "a")] ParamFetcher.defaultInterestTemplate

def plainInterest : Interest :=
  { ParamFetcher.defaultInterestTemplate with name := plainFetcher.requestName }

def unsupportedData : Data :=
  ⟨plainFetcher.requestName ++ [Component.generic (ascii "X")], [1, 0]⟩

/-- An unsupported type is rejected and adopted. -/
theorem unsupported_isAdopted :
    ¬ AdoptsAtomically Consumer.mockPlatform.mem id plainFetcher
      [.call, .arrival plainInterest, .validation unsupportedData none] := by
  intro h
  have hclean := (h [.call, .arrival plainInterest] ⟨_, rfl⟩).2
    (.validation unsupportedData none) ⟨[], rfl⟩
  obtain ⟨component, hcomponent, hvalue⟩ := (rejectsCleanly_iff _ _ _).mp hclean
  obtain rfl : Component.generic (ascii "X") = component := Option.some.inj hcomponent
  exact absurd hvalue (by decide)

end NacAbe.Analysis
