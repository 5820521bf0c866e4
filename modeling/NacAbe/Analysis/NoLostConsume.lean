import NacAbe.Analysis.ConsumeAccounting
import NacAbe.Analysis.FetchSettlement

/-!
# No consume is lost, but for one kind of retry and one kind of name

Callbacks may call `consume` again.  From inside the completion handler of a content
key the nested call finds the cache filled; from inside its error handler it finds the
in-flight mark still set, so its task is queued, and erased with the others when the
handler ends (consumer.cpp:265-276).  A call is also queued before the Interest for its
content key is made (consumer.cpp:227-232), which throws for a name that no Interest can
have and for a negative default lifetime: that call waits for a fetch that has never been
started.  In a run without either every accepted call is answered exactly once.
-/

set_option autoImplicit false

namespace NacAbe.Analysis

open NacAbe Consumer

/-- A `consume` of content under a name whose fetch has failed and whose handler has not ended:
marked, no fetch, no key. -/
def RetriesFailed (c : Consumer) (dataBlock : Block) : Prop :=
  c.readyForDecryption = true ∧ ∃ cipherText ckName,
    parseContent dataBlock = .ok (cipherText, ckName) ∧
    normalizeCkKey ckName ∈ c.m_ckInterestsSent ∧ normalizeCkKey ckName ∉ c.ckFetches ∧
    c.m_ckEncAesCache.find (normalizeCkKey ckName) = none

/-- Callbacks are set and return; content keys are well-formed. -/
def WellBehaved : System.Act Exn Entry Event → Prop
  | .enter (.consumeBlock _ hasSuccess hasError) => hasSuccess = true ∧ hasError = true
  | .enter (.consumeInterest _ hasSuccess hasError) => hasSuccess = true ∧ hasError = true
  | .enter (.consumeName _ hasSuccess hasError) => hasSuccess = true ∧ hasError = true
  | .enter _ => True
  | .resume o => o = none
  | .event (.ckComplete _ contentBuffer) => HoldsKey contentBuffer
  | .event _ => True

/-- No failed fetch is retried before its handler has ended. -/
def RetriesNone (d : System.Config Consumer Exn Invocation) (a : System.Act Exn Entry Event) :
    Prop :=
  ∀ dataBlock hasSuccess hasError, a = .enter (.consumeBlock dataBlock hasSuccess hasError) →
    ¬ RetriesFailed d.st dataBlock

/-- The steps of the runs in which no call is lost. -/
structure LosesNone (d : System.Config Consumer Exn Invocation)
    (a : System.Act Exn Entry Event) : Prop where
  behaved : WellBehaved a
  retries : RetriesNone d a
  strands : StrandsNone d a

/-- Callbacks return, and may do meanwhile what a ledger allows. -/
def ledgerContract : Contract Consumer Exn Invocation where
  inv := Ledger
  idle := Quiet
  rely := KeepsLedger
  ends _ o := o = none
  inv_of_idle h := h.ledger
  refl := KeepsLedger.refl
  trans := KeepsLedger.trans
  idle_of_rely := Quiet.keeps

theorem ledgerContract_returns : ledgerContract.Returns := fun h => h

/-- What a program that is started in `c` ends with. -/
def Accounted (c t : Consumer) : Prop := Ledger t ∧ KeepsLedger c t

theorem Accounted.keeps {c t u : Consumer} (h : Accounted c t) (hu : KeepsLedger t u)
    (hledger : Ledger u) : Accounted c u := ⟨hledger, h.2.trans hu⟩

variable {p : Platform} {c : Consumer} {callbacks : Callbacks}

/-! ## The application -/

theorem wp_refuse (h : Ledger c) (hfresh : c.Fresh callbacks.id) (hset : callbacks.Set)
    (what : String) :
    (refuse callbacks what).wp ledgerContract (fun _ t => Accounted c t) c := by
  have hanswer := h.answer (.error callbacks.id what) hfresh c.abeSupport
  simp only [refuse, Prog.wp_bind, Prog.wp_modify, Prog.andThen_ok]
  apply wp_invokeError ledgerContract_returns hset.2 hanswer.1
  intro t ht hledger
  exact Accounted.keeps hanswer ht hledger

/-- A fresh call is answered or queued. -/
theorem wp_decryptContent (h : Ledger c) (hfresh : c.Fresh callbacks.id) (hset : callbacks.Set)
    {content : Block} (hstrands : ¬ Strands content c) (hretry : ∀ cipherText ckName,
      parseContent content = .ok (cipherText, ckName) →
      normalizeCkKey ckName ∈ c.m_ckInterestsSent →
      c.m_ckEncAesCache.find (normalizeCkKey ckName) = none →
      normalizeCkKey ckName ∈ c.ckFetches) :
    (decryptContent p content callbacks).wp ledgerContract (fun _ t => Accounted c t) c := by
  cases hparse : parseContent content with
  | error e => exact wp_decryptContent_of_error hparse ⟨h, .refl c⟩
  | ok parsed =>
    refine wp_decryptContent_of_parse ledgerContract_returns hset hparse ?_ ?_ ?_ ?_
    · intro encAesKey _
      have hanswer := fun result => h.answer (callbacks.report result) (by simpa using hfresh)
      simp only [Callbacks.id_report] at hanswer
      exact ⟨(hanswer _ _).1, fun t ht hledger => Accounted.keeps (hanswer _ _) ht hledger⟩
    · intro hcache hmark
      have hfetch := hretry parsed.1 parsed.2 hparse hmark hcache
      exact h.enqueue (enqueued_queue ⟨parsed.1, callbacks⟩ h.flight hfetch) hfresh hset
    · intro hcache hmark hrequest
      exact h.enqueue (enqueued_start ⟨parsed.1, callbacks⟩ h.flight hmark hcache hrequest.1)
        hfresh hset
    · intro hcache hmark hrefused
      exact absurd (canRequest_of_not_strands hstrands hparse hcache hmark) hrefused

/-- The number of a call is no part of the accounts. -/
theorem Accounted.of_enter {t : Consumer} (h : Accounted { c with nextCall := c.nextCall + 1 } t) :
    Accounted c t :=
  ⟨h.1, (keepsLedger_of_data c _ c.dataFetches).trans h.2⟩

/-- A call that fetches its data first is refused or left to the fetch. -/
theorem consumeInterest_accounted (h : Ledger c) (dataInterest : Name) {hasSuccess hasError : Bool}
    (hset : hasSuccess = true ∧ hasError = true) :
    (consumeInterest dataInterest hasSuccess hasError).wp ledgerContract
      (fun _ t => Accounted c t) c := by
  obtain ⟨hledger, hfresh⟩ := h.enter
  have hcalls : Callbacks.Set ⟨c.nextCall, hasSuccess, hasError⟩ := hset
  simp only [consumeInterest, enterCall, Prog.wp_bind, Prog.wp_get, Prog.wp_set, Prog.wp_pure,
    Prog.andThen_ok]
  split
  · exact ⟨hledger.startDataFetch hcalls hfresh dataInterest, keepsLedger_of_data c _ _⟩
  · exact Prog.wp_mono (fun _ _ ht => ht.of_enter) (wp_refuse hledger hfresh hcalls _)

/-- **An operation of the application** that is well-behaved, no retry and not stranded. -/
theorem wp_entry_accounted {d : System.Config Consumer Exn Invocation} (h : Ledger d.st)
    {entry : Entry} (hstep : LosesNone d (.enter entry)) :
    (entry.program p).wp ledgerContract (fun _ t => Accounted d.st t) d.st := by
  obtain ⟨hbehaved, hretry, hstrands⟩ := hstep
  cases entry with
  | consumeBlock dataBlock hasSuccess hasError =>
    obtain ⟨hledger, hfresh⟩ := h.enter
    have hset : Callbacks.Set ⟨d.st.nextCall, hasSuccess, hasError⟩ := hbehaved
    simp only [Entry.program, consumeBlock, enterCall, Prog.wp_bind, Prog.wp_get, Prog.wp_set,
      Prog.wp_pure, Prog.andThen_ok]
    split
    · next hready =>
      refine Prog.wp_mono (fun _ _ ht => ht.of_enter)
        (wp_decryptContent hledger hfresh hset (hstrands hready) ?_)
      intro cipherText ckName hparse hmark hcache
      by_contra hfetch
      exact hretry dataBlock hasSuccess hasError rfl
        ⟨hready, cipherText, ckName, hparse, hmark, hfetch, hcache⟩
    · exact Prog.wp_mono (fun _ _ ht => ht.of_enter) (wp_refuse hledger hfresh hset _)
  | consumeInterest dataInterest hasSuccess hasError =>
    exact consumeInterest_accounted h dataInterest hbehaved
  | consumeName dataName hasSuccess hasError =>
    simp only [Entry.program, consumeName, Prog.wp_bind, Prog.wp_get, Prog.wp_liftM,
      Prog.andThen_ok]
    cases d.st.timedInterest dataName with
    | error e => exact ⟨h, .refl d.st⟩
    | ok interest => exact consumeInterest_accounted h interest.name hbehaved
  | setDefaultTimeout defaultTimeout =>
    have hsame : SameLedger d.st (setDefaultTimeout defaultTimeout d.st) :=
      ⟨⟨rfl, rfl, rfl, rfl⟩, rfl, rfl, rfl, rfl⟩
    exact ⟨h.same hsame, .same hsame⟩
  | obtainDecryptionKey =>
    simp only [Entry.program, obtainDecryptionKey, Prog.wp_bind, Prog.wp_get, Prog.wp_liftM,
      Prog.andThen_ok]
    cases extractKeyNameFromCertName d.st.m_cert.getName with
    | error e => exact ⟨h, .refl d.st⟩
    | ok keyName =>
      simp only [Prog.andThen_ok, Prog.wp_bind, Prog.wp_liftM]
      cases Interest.ofName (decryptionKeyName d.st.m_attrAuthorityPrefix keyName) with
      | error e => exact ⟨h, .refl d.st⟩
      | ok interest =>
        have hsame := sameLedger_of_keys d.st d.st.m_keyCache d.st.m_ckEncAesCache
          d.st.m_paramFetcher d.st.abeSupport (interest.name :: d.st.keyFetches)
        exact ⟨h.same hsame, .same hsame⟩
  | abeCall call =>
    have hsame := sameLedger_of_keys d.st d.st.m_keyCache d.st.m_ckEncAesCache
      d.st.m_paramFetcher (call.next p.abe p.mem d.st.abeSupport) d.st.keyFetches
    exact ⟨h.same hsame, .same hsame⟩

/-! ## The event loop -/

variable {ckKey : Name} {tasks : List PendingTask}

/-- The tasks that wait for a fetch. -/
theorem waiting_of_quiet (h : Quiet c) (hk : ckKey ∈ c.ckFetches) :
    ∃ tasks, c.m_pendingCallbacks.find ckKey = some tasks ∧ (callsOf tasks).Nodup ∧
      ∀ task ∈ tasks, task.callbacks.Set := by
  obtain ⟨first, others, hfind⟩ := h.ledger.flight.awaited ckKey hk
  have htasks : c.tasksUnder ckKey = first :: others := by simp [tasksUnder, hfind]
  refine ⟨first :: others, hfind, ?_, ?_⟩
  · rw [← htasks]
    exact h.ledger.distinct ckKey hk
  · rw [← htasks]
    exact h.ledger.set ckKey hk

theorem nodup_of_suffix {rest : List PendingTask} (h : rest <:+ tasks)
    (hnodup : (callsOf tasks).Nodup) : (callsOf rest).Nodup :=
  List.Nodup.sublist (h.sublist.map fun task : PendingTask => task.callbacks.id) hnodup

/-- A fetch that brings a key ends with nothing owed. -/
theorem wp_onCkComplete_quiet (h : Quiet c) (hk : ckKey ∈ c.ckFetches) {contentBuffer : Bytes}
    (hkey : HoldsKey contentBuffer) :
    (onCkComplete p ckKey contentBuffer).wp ledgerContract (fun _ t => Quiet t) c := by
  obtain ⟨tasks, hfind, hnodup, hset⟩ := waiting_of_quiet h hk
  obtain ⟨encAesKey, hcarries⟩ := hkey.carries
  have hpaying := h.endFetch hk hfind
  have hfilled := sameLedger_of_keys (endCkFetch ckKey c) c.m_keyCache
    (c.m_ckEncAesCache.assign ckKey encAesKey) c.m_paramFetcher c.abeSupport c.keyFetches
  refine wp_onCkComplete_of_steady ledgerContract_returns hcarries (Paying ckKey tasks)
    (fun ht => ht.pending) hset ?_ (fun t ht => ht.finish)
    (hpaying.keeps (.same hfilled) (hpaying.ledger.same hfilled))
  intro task rest t hsuffix ht
  have hpay := fun result st => ht.pay (task.callbacks.report result)
    (nodup_of_suffix hsuffix hnodup) (task.callbacks.id_report result) st
  exact ⟨(hpay _ _).ledger, fun u hu hledger => (hpay _ _).keeps hu hledger⟩

/-- A fetch that fails ends with nothing owed. -/
theorem wp_onCkError_quiet (h : Quiet c) (hk : ckKey ∈ c.ckFetches) (errorMsg : String) :
    (onCkError p ckKey errorMsg).wp ledgerContract (fun _ t => Quiet t) c := by
  obtain ⟨tasks, hfind, hnodup, hset⟩ := waiting_of_quiet h hk
  refine wp_onCkError_of_steady ledgerContract_returns (Paying ckKey tasks) (fun ht => ht.pending)
    hset ?_ (fun t ht => ht.finish) (h.endFetch hk hfind)
  intro task rest t hsuffix ht
  have hpay := ht.pay (.error task.callbacks.id errorMsg) (nodup_of_suffix hsuffix hnodup) rfl
    t.abeSupport
  exact ⟨hpay.ledger, fun u hu hledger => hpay.keeps hu hledger⟩

/-- The end of a data fetch, from where its callbacks are told or the content is taken on. -/
theorem wp_data_quiet (h : Quiet c) {fetch : Name × Callbacks} (hf : fetch ∈ c.dataFetches)
    {told : ConsumerM Unit}
    (htold : ∀ t, t = { c with dataFetches := c.dataFetches.erase fetch } → Ledger t →
      t.Fresh fetch.2.id → fetch.2.Set → told.wp ledgerContract (fun _ u => Accounted t u) t) :
    (do
      modify fun c => { c with dataFetches := c.dataFetches.erase fetch }
      told : ConsumerM Unit).wp ledgerContract (fun _ t => Quiet t) c := by
  obtain ⟨hledger, hfresh⟩ := h.ledger.endDataFetch hf
  have hquiet : Quiet { c with dataFetches := c.dataFetches.erase fetch } :=
    ⟨hledger, h.paid, h.fetching⟩
  simp only [Prog.wp_bind, Prog.wp_modify, Prog.andThen_ok]
  refine Prog.wp_mono ?_ (htold _ rfl hledger hfresh (h.ledger.dataFetch fetch hf).1)
  rintro _ t ⟨ht, hkeeps⟩
  exact hquiet.keeps hkeeps ht

/-- **A handler of the event loop** leaves nothing owed. -/
theorem wp_event_quiet {d : System.Config Consumer Exn Invocation} (h : Quiet d.st)
    {event : Event} (hstep : LosesNone d (.event event)) (he : event.enabled d.st = true) :
    (event.program p).wp ledgerContract (fun _ t => Quiet t) d.st := by
  obtain ⟨hbehaved, -, hstrands⟩ := hstep
  cases event with
  | ckComplete ckKey contentBuffer =>
    exact wp_onCkComplete_quiet h (by simpa [Event.enabled] using he) hbehaved
  | ckError ckKey errorMsg =>
    exact wp_onCkError_quiet h (by simpa [Event.enabled] using he) errorMsg
  | dataComplete fetch contentBuffer =>
    apply wp_data_quiet h (by simpa [Event.enabled] using he)
    rintro t rfl ht hfresh hset
    simp only [Prog.wp_bind, Prog.wp_liftM]
    cases hblock : Block.ofBuffer contentBuffer with
    | error e => exact ⟨ht, .refl _⟩
    | ok content =>
      exact wp_decryptContent ht hfresh hset (hstrands content hblock)
        fun _ _ _ hmark _ => h.fetching _ hmark
  | dataError fetch errorMsg =>
    apply wp_data_quiet h (by simpa [Event.enabled] using he)
    intro t _ ht hfresh hset
    exact wp_refuse ht hfresh hset _
  | keyComplete interestName contentBuffer =>
    have hsame : ∀ keyFetches m_keyCache, Quiet { d.st with keyFetches, m_keyCache } :=
      fun keyFetches m_keyCache => h.same (sameLedger_of_keys d.st m_keyCache _ _ _ keyFetches)
    simp only [Event.program, onKeyComplete, Prog.wp_bind, Prog.wp_modify, Prog.andThen_ok,
      Prog.wp_liftM]
    cases Block.ofBuffer contentBuffer with
    | error e => exact hsame _ _
    | ok block =>
      simp only [Prog.andThen_ok, Prog.wp_bind, Prog.wp_get, Prog.wp_liftM]
      cases decryptDataContentTpm p.crypto block d.st.m_cert.getName with
      | error e => exact hsame _ _
      | ok prvBlock =>
        simp only [Prog.andThen_ok, Prog.wp_bind, Prog.wp_liftM]
        cases PrivateKey.fromBuffer p.mem prvBlock with
        | error e => exact hsame _ _
        | ok prv => exact hsame _ _
  | keyError interestName => exact h.same (sameLedger_of_keys d.st _ _ _ _ _)
  | publicParams pubParamData validationError =>
    exact h.same (sameLedger_of_keys d.st _ _ _ _ _)

/-! ## The result -/

theorem quiet_initial (identityCert attrAuthorityCertificate : Certificate)
    (template : Interest) :
    Quiet (Consumer.initial identityCert attrAuthorityCertificate template) := by
  refine ⟨⟨flight_initial _ _ _, ?_, ?_, ?_, ?_, ?_, ?_, ?_, ?_, ?_⟩, ?_, ?_⟩ <;>
    simp [Consumer.initial, replied, Owed]

/-- Such runs keep the ledger. -/
theorem ledger_good_of_reaches {d : System.Config Consumer Exn Invocation} (hc : Quiet c)
    (h : (Consumer.system p).Reaches LosesNone ⟨c, []⟩ d) :
    System.Good ledgerContract d.frames d.st := by
  have hstart : System.Good ledgerContract [] c := hc
  refine System.good_of_reaches ?_ ?_ ?_ hstart h
  · intro e entry hok hledger
    exact wp_entry_accounted hledger hok
  · intro e event hok henabled hquiet
    exact wp_event_quiet hquiet hok henabled
  · intro e f fs o _ hok
    exact hok.behaved

/-- **No consume is lost.**  In a run whose callbacks return, whose content keys are
well-formed, in which no failed fetch is retried from inside its own error callbacks and
no content is taken on whose content key cannot be asked for, no call is ever answered
twice, and once no fetch of a content key is outstanding every accepted call has been
answered. -/
theorem no_consume_lost (p : Platform) (identityCert attrAuthorityCertificate : Certificate)
    (template : Interest) (d : System.Config Consumer Exn Invocation)
    (h : (Consumer.system p).Reaches LosesNone
      ⟨Consumer.initial identityCert attrAuthorityCertificate template, []⟩ d) :
    (∀ id, d.st.replied.count id ≤ 1) ∧
      (d.frames = [] → d.st.ckFetches = [] → ∀ id ∈ d.st.accepted, d.st.replied.count id = 1) := by
  have hgood : System.Good ledgerContract d.frames d.st :=
    ledger_good_of_reaches (quiet_initial _ _ _) h
  refine ⟨List.nodup_iff_count_le_one.mp hgood.inv.once, ?_⟩
  intro hframes hfetches id hid
  rw [hframes] at hgood
  have hquiet : Quiet d.st := hgood
  have hreplied : id ∈ d.st.replied := by
    by_contra hopen
    refine hquiet.paid id ⟨hid, hopen, ?_⟩
    rintro ⟨k, hk, -⟩
    rw [hfetches] at hk
    cases hk
  exact List.count_eq_one_of_mem hquiet.ledger.once hreplied

/-- The fetch fails and the error callback returns: the call that waited has its answer. -/
theorem no_consume_lost_after_error :
    ∃ d, (Consumer.system mockPlatform).run ⟨waitingConsumer, []⟩
        [.event (.ckError ckName "Timeout"), .resume none] = some d ∧
      d.st.accepted = [0] ∧ d.st.replied.count 0 = 1 := by
  have herror : ∃ d, (Consumer.system mockPlatform).run ⟨waitingConsumer, []⟩
      [.event (.ckError ckName "Timeout"), .resume none] = some d ∧ d.frames = [] ∧
      d.st.ckFetches = [] ∧ d.st.accepted = [0] := ⟨_, rfl, rfl, rfl, rfl⟩
  obtain ⟨d, hrun, hframes, hfetches, hids⟩ := herror
  have hstrands : ¬ Strands contentBlock ready := by
    rintro ⟨_, _, hparse, hobtain⟩
    have hcontent : parseContent contentBlock = .ok (cipherText, ckName) := by decide
    cases hcontent.symm.trans hparse
    exact hobtain (Or.inr (Or.inr (by decide)))
  have hwaiting : (Consumer.system mockPlatform).Reaches LosesNone ⟨fresh, []⟩
      ⟨waitingConsumer, []⟩ := by
    refine reaches_waitingConsumer (fun _ => ⟨trivial, nofun, trivial⟩)
      (fun _ => ⟨trivial, nofun, trivial⟩) (fun _ => ⟨trivial, nofun, trivial⟩)
      ⟨⟨rfl, rfl⟩, ?_, fun _ => hstrands⟩
    rintro dataBlock hasSuccess hasError - ⟨-, cipherText, ckName, -, hmark, -⟩
    exact absurd hmark (Finset.notMem_empty _)
  have hreaches := hwaiting.trans (System.reaches_of_run (by
    intro _ a ha
    simp only [List.mem_cons, List.not_mem_nil, or_false] at ha
    rcases ha with rfl | rfl
    · exact ⟨trivial, nofun, trivial⟩
    · exact ⟨rfl, nofun, trivial⟩) hrun)
  exact ⟨d, hrun, hids, (no_consume_lost mockPlatform (.sample (ascii "c") [9])
    (.sample (ascii "a") [8]) ParamFetcher.defaultInterestTemplate d hreaches).2 hframes hfetches 0
    (hids ▸ List.mem_cons_self)⟩

/-- A failed fetch is retried from inside its error callback: the nested call has been accepted
and is never answered. -/
theorem consume_lost_by_retry :
    ¬ ∀ d, (Consumer.system mockPlatform).Reaches (fun _ a => WellBehaved a) ⟨fresh, []⟩ d →
      d.frames = [] → d.st.ckFetches = [] → ∀ id ∈ d.st.accepted, d.st.replied.count id = 1 := by
  intro h
  have hretry : ∃ d, (Consumer.system mockPlatform).run ⟨waitingConsumer, []⟩
      [.event (.ckError ckName "Timeout"), .enter (.consumeBlock contentBlock true true),
        .resume none] = some d ∧ d.frames = [] ∧ d.st.ckFetches = [] ∧ 1 ∈ d.st.accepted ∧
      d.st.replied = [0] := ⟨_, rfl, rfl, rfl, List.mem_cons_self, rfl⟩
  obtain ⟨d, hrun, hframes, hfetches, hid, hreplied⟩ := hretry
  have hwaiting : (Consumer.system mockPlatform).Reaches (fun _ a => WellBehaved a)
      ⟨fresh, []⟩ ⟨waitingConsumer, []⟩ :=
    reaches_waitingConsumer (fun _ => trivial) (fun _ => trivial) (fun _ => trivial) ⟨rfl, rfl⟩
  have hreaches := hwaiting.trans (System.reaches_of_run (by
    intro _ a ha
    simp only [List.mem_cons, List.not_mem_nil, or_false] at ha
    rcases ha with rfl | rfl | rfl
    · trivial
    · exact ⟨rfl, rfl⟩
    · rfl) hrun)
  have hcount := h d hreaches hframes hfetches 1 hid
  rw [hreplied] at hcount
  exact absurd hcount (by decide)

end NacAbe.Analysis
