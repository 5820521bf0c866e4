import NacAbe.Interface.ConsumerReadiness
import NacAbe.Interface.ConsumerReports

/-!
# At most one fetch for a content key

`Flight` ties the in-flight marks, the waiting tasks and the outstanding fetches
together.  It holds whenever the application has control, in the middle of a handler
as well as between events, and a handler relies on nothing else than that its own CK
name keeps its mark and gets no second fetch meanwhile (`flightContract`): a nested
`consume` of that name is queued or answered from the cache, whatever the loop over
the waiting tasks makes of it, and a handler that is left by an exception leaves the
mark set.
-/

set_option autoImplicit false

namespace NacAbe.Analysis

open NacAbe Consumer

/-- Every outstanding fetch is the only one for its name, is marked and has a waiting task;
every waiting task is under a marked name; no fetch was started for a cached key or for a name
that an Interest cannot have. -/
structure Flight (c : Consumer) : Prop where
  nodup : c.ckFetches.Nodup
  requestable : ∀ k ∈ c.ckFetches, k.Requestable
  marked : ∀ k ∈ c.ckFetches, k ∈ c.m_ckInterestsSent
  awaited : ∀ k ∈ c.ckFetches, ∃ task tasks, c.m_pendingCallbacks.find k = some (task :: tasks)
  pending : ∀ k tasks, c.m_pendingCallbacks.find k = some tasks → k ∈ c.m_ckInterestsSent
  fresh : ∀ s ∈ c.started, s.2 = none

/-- What the application may do while it has control: a marked name stays marked and gets
no new fetch. -/
structure KeepsFlight (c t : Consumer) : Prop where
  marked : c.m_ckInterestsSent ⊆ t.m_ckInterestsSent
  fetches : ∀ k ∈ c.m_ckInterestsSent, k ∈ t.ckFetches → k ∈ c.ckFetches

/-- Callbacks may end in any way. -/
def flightContract : Contract Consumer Exn Invocation where
  inv := Flight
  idle := Flight
  rely := KeepsFlight
  ends _ _ := True
  inv_of_idle h := h
  refl _ := ⟨subset_rfl, fun _ _ hk => hk⟩
  trans h h' := ⟨h.marked.trans h'.marked,
    fun k hk hkt => h.fetches k hk (h'.fetches k (h.marked hk) hkt)⟩
  idle_of_rely _ _ h := h

/-! ## What each change does to `Flight` -/

/-- The containers and the fetches are the same. -/
structure SameFlight (c t : Consumer) : Prop where
  sent_eq : t.m_ckInterestsSent = c.m_ckInterestsSent
  pending_eq : t.m_pendingCallbacks = c.m_pendingCallbacks
  fetches_eq : t.ckFetches = c.ckFetches
  started_eq : t.started = c.started

variable {c t : Consumer} {ckKey : Name} {task : PendingTask}

/-- `Flight` depends on the containers and the fetches alone. -/
theorem Flight.same (h : Flight c) (hs : SameFlight c t) : Flight t := by
  refine ⟨?_, ?_, ?_, ?_, ?_, ?_⟩
  · rw [hs.fetches_eq]
    exact h.nodup
  · rw [hs.fetches_eq]
    exact h.requestable
  · rw [hs.fetches_eq, hs.sent_eq]
    exact h.marked
  · rw [hs.fetches_eq, hs.pending_eq]
    exact h.awaited
  · rw [hs.pending_eq, hs.sent_eq]
    exact h.pending
  · rw [hs.started_eq]
    exact h.fresh

/-- Queuing a task under a marked name. -/
theorem Flight.queue (h : Flight c) (hk : ckKey ∈ c.m_ckInterestsSent) :
    Flight (Consumer.queue ckKey task c) := by
  refine ⟨h.nodup, h.requestable, h.marked, ?_, ?_, h.fresh⟩
  · intro k hmem
    simp only [Consumer.queue, PartialMap.find_assign]
    split
    · cases hq : (c.m_pendingCallbacks.find ckKey).getD [] ++ [task] with
      | nil => simp at hq
      | cons first rest => exact ⟨first, rest, rfl⟩
    · exact h.awaited k hmem
  · intro k tasks hfind
    simp only [Consumer.queue, PartialMap.find_assign] at hfind
    split at hfind
    · next heq => exact heq ▸ hk
    · exact h.pending k tasks hfind

/-- Marking a name and queuing the task, where no fetch is started. -/
theorem Flight.mark (h : Flight c) :
    Flight (Consumer.queue ckKey task
      { c with m_ckInterestsSent := insert ckKey c.m_ckInterestsSent }) := by
  refine Flight.queue ⟨h.nodup, h.requestable, ?_, h.awaited, ?_, h.fresh⟩
    (Finset.mem_insert_self _ _)
  · exact fun k hmem => Finset.mem_insert_of_mem (h.marked k hmem)
  · exact fun k tasks hfind => Finset.mem_insert_of_mem (h.pending k tasks hfind)

/-- Marking a name, queuing the task and starting the fetch. -/
theorem Flight.start (h : Flight c) (hk : ckKey ∉ c.m_ckInterestsSent)
    (hcache : c.m_ckEncAesCache.find ckKey = none) (hrequest : ckKey.Requestable) :
    Flight (startCkFetch ckKey (Consumer.queue ckKey task
      { c with m_ckInterestsSent := insert ckKey c.m_ckInterestsSent })) := by
  refine ⟨?_, ?_, ?_, ?_, ?_, ?_⟩
  · exact List.nodup_cons.mpr ⟨fun hmem => hk (h.marked ckKey hmem), h.nodup⟩
  · exact List.forall_mem_cons.mpr ⟨hrequest, h.requestable⟩
  · intro k hmem
    rcases List.mem_cons.mp hmem with rfl | hold
    · exact Finset.mem_insert_self _ _
    · exact Finset.mem_insert_of_mem (h.marked k hold)
  · intro k hmem
    simp only [startCkFetch, Consumer.queue, PartialMap.find_assign]
    split
    · cases hq : (c.m_pendingCallbacks.find ckKey).getD [] ++ [task] with
      | nil => simp at hq
      | cons first rest => exact ⟨first, rest, rfl⟩
    · next hne =>
      rcases List.mem_cons.mp hmem with heq | hold
      · exact absurd heq hne
      · exact h.awaited k hold
  · intro k tasks hfind
    simp only [startCkFetch, Consumer.queue, PartialMap.find_assign] at hfind
    split at hfind
    · next heq =>
      subst heq
      exact Finset.mem_insert_self _ _
    · exact Finset.mem_insert_of_mem (h.pending k tasks hfind)
  · intro s hs
    simp only [startCkFetch, Consumer.queue, List.mem_append, List.mem_singleton] at hs
    rcases hs with hold | rfl
    · exact h.fresh s hold
    · exact hcache

theorem Flight.endFetch (h : Flight c) : Flight (endCkFetch ckKey c) :=
  ⟨h.nodup.erase ckKey, fun k hk => h.requestable k (List.mem_of_mem_erase hk),
    fun k hk => h.marked k (List.mem_of_mem_erase hk),
    fun k hk => h.awaited k (List.mem_of_mem_erase hk), h.pending, h.fresh⟩

/-- Clearing the mark of a name without a fetch and without tasks. -/
theorem Flight.eraseSent (h : Flight c) (hk : ckKey ∉ c.ckFetches)
    (hp : c.m_pendingCallbacks.find ckKey = none) : Flight (Consumer.eraseSent ckKey c) := by
  refine ⟨h.nodup, h.requestable, ?_, h.awaited, ?_, h.fresh⟩
  · intro k hmem
    refine Finset.mem_erase.mpr ⟨?_, h.marked k hmem⟩
    rintro rfl
    exact hk hmem
  · intro k tasks hfind
    refine Finset.mem_erase.mpr ⟨?_, h.pending k tasks hfind⟩
    rintro rfl
    cases hp.symm.trans hfind

/-- The tasks of a name may go once its fetch has ended. -/
theorem Flight.erasePending (h : Flight c) (hk : ckKey ∉ c.ckFetches) :
    Flight (Consumer.erasePending ckKey c) := by
  refine ⟨h.nodup, h.requestable, h.marked, ?_, ?_, h.fresh⟩
  · intro k hmem
    have hne : k ≠ ckKey := by
      rintro rfl
      exact hk hmem
    simpa [Consumer.erasePending, hne] using h.awaited k hmem
  · intro k tasks hfind
    simp only [Consumer.erasePending, PartialMap.find_erase] at hfind
    split at hfind
    · cases hfind
    · exact h.pending k tasks hfind

/-! ## Callbacks -/

/-- What holds while a program of the consumer runs and can be relied on after a callback. -/
structure Stable (P : Consumer → Prop) : Prop where
  flight : ∀ {c}, P c → Flight c
  later : ∀ {c t}, P c → KeepsFlight c t → Flight t → P t
  same : ∀ {c t}, P c → SameFlight c t → P t

variable {P : Consumer → Prop} {p : Platform}

/-- A callback that is set is called, one that is not set is passed over. -/
theorem Stable.call (h : Stable P) (hc : P c) (call : Invocation) (b : Bool) :
    (do
      if b then
        modify fun c => { c with invoked := c.invoked ++ [call] }
        Prog.callOut call
      else throw .badFunctionCall : ConsumerM Unit).wp flightContract (fun _ t => P t) c := by
  cases b with
  | false => exact hc
  | true =>
    simp only [if_true, Prog.wp_bind, Prog.wp_modify, Prog.andThen_ok, Prog.wp_callOut]
    have hc' : P { c with invoked := c.invoked ++ [call] } := h.same hc ⟨rfl, rfl, rfl, rfl⟩
    exact ⟨h.flight hc', fun t hr ht => ⟨fun _ => h.later hc' hr ht, fun _ _ => h.later hc' hr ht⟩⟩

theorem Stable.invokeSuccess (h : Stable P) (hc : P c) (callbacks : Callbacks) (result : Bytes) :
    (Consumer.invokeSuccess callbacks result).wp flightContract (fun _ t => P t) c :=
  h.call hc (.success callbacks.id result) callbacks.hasSuccess

theorem Stable.invokeError (h : Stable P) (hc : P c) (callbacks : Callbacks) (what : String) :
    (Consumer.invokeError callbacks what).wp flightContract (fun _ t => P t) c :=
  h.call hc (.error callbacks.id what) callbacks.hasError

/-- A decryption whose result is told. -/
theorem Stable.decrypt (h : Stable P) (hc : P c) (callbacks : Callbacks)
    (decrypt : ExceptT Exn (StateM AbeSupport) Bytes) :
    (do
      let result ← callAbe decrypt
      Consumer.invokeSuccess callbacks result : ConsumerM Unit).wp flightContract
        (fun _ t => P t) c := by
  simp only [callAbe, Prog.wp_bind, Prog.wp_get, Prog.wp_set, Prog.wp_liftM, Prog.andThen_ok]
  have hc' : P { c with abeSupport := (decrypt.run.run c.abeSupport).2 } :=
    h.same hc ⟨rfl, rfl, rfl, rfl⟩
  cases (decrypt.run.run c.abeSupport).1 with
  | error e => exact hc'
  | ok result => exact h.invokeSuccess hc' callbacks result

/-- A decryption and its report, exceptions included. -/
theorem Stable.decryptAndReport (h : Stable P) (hc : P c) (cipherText : CipherText)
    (callbacks : Callbacks) : (Consumer.decryptAndReport p cipherText callbacks).wp flightContract
      (fun _ t => P t) c := by
  rw [Consumer.decryptAndReport, Prog.wp_tryCatch]
  refine Prog.wp_mono (Q := fun _ t => P t) ?_ ?_
  · intro r t ht
    cases r with
    | ok _ => exact ht
    | error e =>
      rw [Prog.orElse_error]
      split
      · exact h.invokeError ht callbacks e.what
      · exact ht
  · simp only [Prog.wp_bind, Prog.wp_get, Prog.andThen_ok]
    split
    · exact h.decrypt hc callbacks _
    · split
      · exact h.decrypt hc callbacks _
      · exact h.invokeError hc callbacks _

/-! ## The operations -/

theorem Stable.decryptContent (h : Stable P) (hc : P c) (content : Block) (callbacks : Callbacks)
    (hqueue : ∀ {c k task}, P c → k ∈ c.m_ckInterestsSent → P (Consumer.queue k task c))
    (hmark : ∀ {c k task}, P c → P (Consumer.queue k task
      { c with m_ckInterestsSent := insert k c.m_ckInterestsSent }))
    (hstart : ∀ {c k task}, P c → k ∉ c.m_ckInterestsSent → c.m_ckEncAesCache.find k = none →
      k.Requestable → P (startCkFetch k (Consumer.queue k task
        { c with m_ckInterestsSent := insert k c.m_ckInterestsSent }))) :
    (Consumer.decryptContent p content callbacks).wp flightContract (fun _ t => P t) c := by
  simp only [Consumer.decryptContent, Prog.wp_bind, Prog.wp_liftM]
  cases parseContent content with
  | error e => exact hc
  | ok parsed =>
    simp only [Prog.andThen_ok, Prog.wp_bind, Prog.wp_modify, Prog.wp_get]
    have hc' : P { c with accepted := callbacks.id :: c.accepted } :=
      h.same hc ⟨rfl, rfl, rfl, rfl⟩
    cases hcache : c.m_ckEncAesCache.find (normalizeCkKey parsed.2) with
    | some encAesKey => exact h.decryptAndReport hc' _ callbacks
    | none =>
      dsimp only
      split
      · next hmem => exact hqueue hc' hmem
      · next hmem =>
        simp only [Prog.wp_bind, Prog.wp_modify, Prog.andThen_ok, Prog.wp_get, Prog.wp_liftM]
        change Prog.andThen flightContract _ _
          ((taken (normalizeCkKey parsed.2) ⟨parsed.1, callbacks⟩ c).timedInterest
            (normalizeCkKey parsed.2)) _
        by_cases hrequest : (taken (normalizeCkKey parsed.2) ⟨parsed.1, callbacks⟩ c).CanRequest
            (normalizeCkKey parsed.2)
        · rw [timedInterest_of_canRequest hrequest]
          exact hstart hc' hmem hcache hrequest.1
        · rw [timedInterest_of_not_canRequest hrequest]
          exact hmark hc'

theorem Stable.refuse (h : Stable P) (hc : P c) (callbacks : Callbacks) (what : String) :
    (Consumer.refuse callbacks what).wp flightContract (fun _ t => P t) c := by
  have hc' : P { c with accepted := callbacks.id :: c.accepted } :=
    h.same hc ⟨rfl, rfl, rfl, rfl⟩
  simp only [Consumer.refuse, Prog.wp_bind, Prog.wp_modify, Prog.andThen_ok]
  exact h.invokeError hc' callbacks what

/-- What an operation that is started in `c` keeps. -/
def Kept (c t : Consumer) : Prop := Flight t ∧ KeepsFlight c t

theorem stable_kept (c : Consumer) : Stable (Kept c) where
  flight h := h.1
  later h hr ht := ⟨ht, flightContract.trans h.2 hr⟩
  same h hs := ⟨h.1.same hs, by rw [hs.sent_eq]; exact h.2.marked,
    by rw [hs.fetches_eq]; exact h.2.fetches⟩

theorem Kept.queue {c : Consumer} (h : Kept c t) (hk : ckKey ∈ t.m_ckInterestsSent) :
    Kept c (Consumer.queue ckKey task t) := ⟨h.1.queue hk, h.2.marked, h.2.fetches⟩

theorem Kept.mark {c : Consumer} (h : Kept c t) :
    Kept c (Consumer.queue ckKey task
      { t with m_ckInterestsSent := insert ckKey t.m_ckInterestsSent }) :=
  ⟨h.1.mark, fun _ hmem => Finset.mem_insert_of_mem (h.2.marked hmem), h.2.fetches⟩

/-- Behind the mark and the task the fetch may start. -/
theorem Kept.start {c : Consumer} (h : Kept c t) (hk : ckKey ∉ t.m_ckInterestsSent)
    (hcache : t.m_ckEncAesCache.find ckKey = none) (hrequest : ckKey.Requestable) :
    Kept c (startCkFetch ckKey (Consumer.queue ckKey task
      { t with m_ckInterestsSent := insert ckKey t.m_ckInterestsSent })) := by
  refine ⟨h.1.start hk hcache hrequest,
    fun k hmem => Finset.mem_insert_of_mem (h.2.marked hmem), ?_⟩
  intro k hmem hfetch
  rcases List.mem_cons.mp hfetch with rfl | hold
  · exact absurd (h.2.marked hmem) hk
  · exact h.2.fetches k hmem hold

/-- A call of `consume` by Interest only starts a fetch of data. -/
theorem wp_consumeInterest (dataInterest : Name) (hasSuccess hasError : Bool) {c : Consumer}
    (h : Flight c) : (consumeInterest dataInterest hasSuccess hasError).wp flightContract
      (fun _ t => Kept c t) c := by
  have hs := stable_kept c
  have hc : Kept c c := ⟨h, flightContract.refl c⟩
  have hnext : Kept c { c with nextCall := c.nextCall + 1 } := hs.same hc ⟨rfl, rfl, rfl, rfl⟩
  simp only [consumeInterest, enterCall, Prog.wp_bind, Prog.wp_get, Prog.wp_set, Prog.wp_pure,
    Prog.andThen_ok]
  split
  · exact hs.same hc ⟨rfl, rfl, rfl, rfl⟩
  · exact hs.refuse hnext _ _

/-- **An operation of the application** keeps `Flight` and does what it may. -/
theorem wp_entry (p : Platform) (entry : Entry) {c : Consumer} (h : Flight c) :
    (entry.program p).wp flightContract (fun _ t => Flight t ∧ KeepsFlight c t) c := by
  have hs := stable_kept c
  have hc : Kept c c := ⟨h, flightContract.refl c⟩
  have hnext : Kept c { c with nextCall := c.nextCall + 1 } := hs.same hc ⟨rfl, rfl, rfl, rfl⟩
  cases entry with
  | consumeBlock dataBlock hasSuccess hasError =>
    simp only [Entry.program, consumeBlock, enterCall, Prog.wp_bind, Prog.wp_get, Prog.wp_set,
      Prog.wp_pure, Prog.andThen_ok]
    split
    · exact hs.decryptContent hnext dataBlock _ (fun ht hk => ht.queue hk) (fun ht => ht.mark)
        (fun ht hk hcache hrequest => ht.start hk hcache hrequest)
    · exact hs.refuse hnext _ _
  | consumeInterest dataInterest hasSuccess hasError =>
    exact wp_consumeInterest dataInterest hasSuccess hasError h
  | consumeName dataName hasSuccess hasError =>
    simp only [Entry.program, consumeName, Prog.wp_bind, Prog.wp_get, Prog.wp_liftM,
      Prog.andThen_ok]
    cases c.timedInterest dataName with
    | error e => exact hc
    | ok interest => exact wp_consumeInterest interest.name hasSuccess hasError h
  | setDefaultTimeout defaultTimeout => exact hs.same hc ⟨rfl, rfl, rfl, rfl⟩
  | obtainDecryptionKey =>
    simp only [Entry.program, obtainDecryptionKey, Prog.wp_bind, Prog.wp_get, Prog.wp_liftM,
      Prog.andThen_ok]
    cases extractKeyNameFromCertName c.m_cert.getName with
    | error e => exact hc
    | ok keyName =>
      simp only [Prog.andThen_ok, Prog.wp_bind, Prog.wp_liftM]
      cases Interest.ofName (decryptionKeyName c.m_attrAuthorityPrefix keyName) with
      | error e => exact hc
      | ok interest => exact hs.same hc ⟨rfl, rfl, rfl, rfl⟩
  | abeCall call => exact hs.same hc ⟨rfl, rfl, rfl, rfl⟩

/-! ## The handlers of a content key fetch -/

/-- While the handler of `k` runs: `k` is marked and has no fetch. -/
def Handling (k : Name) (c : Consumer) : Prop :=
  Flight c ∧ k ∈ c.m_ckInterestsSent ∧ k ∉ c.ckFetches

theorem stable_handling (k : Name) : Stable (Handling k) where
  flight h := h.1
  later h hr ht := ⟨ht, hr.marked h.2.1, fun hk => h.2.2 (hr.fetches k h.2.1 hk)⟩
  same h hs := ⟨h.1.same hs, by rw [hs.sent_eq]; exact h.2.1, by rw [hs.fetches_eq]; exact h.2.2⟩

/-- Once the fetch has ended, its handler is the only one for the name. -/
theorem Handling.endFetch (h : Flight c) (hk : ckKey ∈ c.ckFetches) :
    Handling ckKey (endCkFetch ckKey c) :=
  ⟨h.endFetch, h.marked ckKey hk, h.nodup.not_mem_erase⟩

/-- The loop over the tasks and what follows it, left by an exception or not. -/
theorem wp_broadcast {tell : PendingTask → ConsumerM Unit}
    (htell : ∀ task t, Handling ckKey t →
      (tell task).wp flightContract (fun _ u => Handling ckKey u) t)
    (hc : Handling ckKey c) :
    (broadcast p ckKey tell).wp flightContract (fun _ t => Flight t) c := by
  have hend : ∀ t, Handling ckKey t →
      Flight (eraseSent ckKey (erasePending ckKey t)) := by
    intro t ht
    apply (ht.1.erasePending ht.2.2).eraseSent ht.2.2
    simp [erasePending]
  simp only [broadcast, Prog.wp_bind, Prog.wp_get, Prog.andThen_ok]
  cases hp : c.m_pendingCallbacks.find ckKey with
  | none => exact hc.1.eraseSent hc.2.2 hp
  | some tasks =>
    simp only [Prog.wp_bind]
    refine Prog.wp_walk (fun _ t => Handling ckKey t) (Handling ckKey) ?_ (fun t ht => hend t ht)
      ?_ hc
    · intro task rest t ht
      refine Prog.wp_mono (fun r u (hu : Handling ckKey u) => ?_) (htell task t ht)
      cases r with
      | ok _ =>
        dsimp only
        split <;> exact hu
      | error e => exact hu.1
    · intro rest t ht
      refine Prog.wp_forEach (fun _ t => Handling ckKey t) ?_ (fun t ht => hend t ht) ht
      intro task rest t ht
      refine Prog.wp_mono (fun r u (hu : Handling ckKey u) => ?_) (htell task t ht)
      cases r with
      | ok _ => exact hu
      | error e => exact hu.1

/-- A content key fetch that completes ends in `Flight`. -/
theorem wp_onCkComplete (hk : ckKey ∈ c.ckFetches) (h : Flight c) (contentBuffer : Bytes) :
    (onCkComplete p ckKey contentBuffer).wp flightContract (fun _ t => Flight t) c := by
  have hc := Handling.endFetch h hk
  have hs := stable_handling ckKey
  simp only [onCkComplete, Prog.wp_bind, Prog.wp_modify, Prog.andThen_ok, Prog.wp_liftM]
  cases Block.ofBuffer contentBuffer with
  | error e => exact hc.1
  | ok ckBlock =>
    have hbroadcast : ∀ t, Handling ckKey t →
        (broadcast p ckKey (onCkeyData p ckBlock)).wp flightContract (fun _ t => Flight t) t := by
      intro t ht
      refine wp_broadcast ?_ ht
      intro task u hu
      simp only [onCkeyData, Prog.wp_bind, Prog.wp_liftM]
      cases Block.get ckBlock tlvEncryptedAesKey with
      | error e => exact hu
      | ok encrypted => exact hs.decryptAndReport hu _ task.callbacks
    simp only [Prog.andThen_ok, Prog.wp_bind, fillCache, Prog.wp_tryCatch, Prog.wp_liftM]
    cases Block.get ckBlock tlvEncryptedAesKey with
    | ok encTLV => exact hbroadcast _ (hs.same hc ⟨rfl, rfl, rfl, rfl⟩)
    | error e =>
      simp only [Prog.andThen_error, Prog.orElse_error]
      split
      · exact hbroadcast _ hc
      · exact hc.1

/-- A content key fetch that fails ends in `Flight`. -/
theorem wp_onCkError (hk : ckKey ∈ c.ckFetches) (h : Flight c) (errorMsg : String) :
    (onCkError p ckKey errorMsg).wp flightContract (fun _ t => Flight t) c := by
  simp only [onCkError, Prog.wp_bind, Prog.wp_modify, Prog.andThen_ok]
  refine wp_broadcast ?_ (Handling.endFetch h hk)
  intro task t ht
  unfold tellError
  split
  · exact (stable_handling ckKey).invokeError ht task.callbacks errorMsg
  · exact ht

/-- **A handler of the event loop** keeps `Flight`. -/
theorem wp_event (p : Platform) (event : Event) {c : Consumer} (he : event.enabled c = true)
    (h : Flight c) : (event.program p).wp flightContract (fun _ t => Flight t) c := by
  have hs := stable_kept c
  have hc : Kept c c := ⟨h, flightContract.refl c⟩
  cases event with
  | ckComplete ckKey contentBuffer =>
    exact wp_onCkComplete (by simpa [Event.enabled] using he) h contentBuffer
  | ckError ckKey errorMsg => exact wp_onCkError (by simpa [Event.enabled] using he) h errorMsg
  | dataComplete fetch contentBuffer =>
    simp only [Event.program, onDataComplete, Prog.wp_bind, Prog.wp_modify, Prog.andThen_ok,
      Prog.wp_liftM]
    have hfetch : Kept c { c with dataFetches := c.dataFetches.erase fetch } :=
      hs.same hc ⟨rfl, rfl, rfl, rfl⟩
    cases Block.ofBuffer contentBuffer with
    | error e => exact hfetch.1
    | ok content =>
      exact Prog.wp_mono (fun _ _ (ht : Kept c _) => ht.1) (hs.decryptContent hfetch content fetch.2
        (fun ht hk => ht.queue hk) (fun ht => ht.mark)
        (fun ht hk hcache hrequest => ht.start hk hcache hrequest))
  | dataError fetch errorMsg =>
    simp only [Event.program, onDataError, Prog.wp_bind, Prog.wp_modify, Prog.andThen_ok]
    have hfetch : Kept c { c with dataFetches := c.dataFetches.erase fetch } :=
      hs.same hc ⟨rfl, rfl, rfl, rfl⟩
    exact Prog.wp_mono (fun _ _ (ht : Kept c _) => ht.1) (hs.refuse hfetch fetch.2 _)
  | keyComplete interestName contentBuffer =>
    have hkey : ∀ keys m_keyCache,
        Flight { c with keyFetches := keys, m_keyCache := m_keyCache } :=
      fun keys m_keyCache => h.same ⟨rfl, rfl, rfl, rfl⟩
    simp only [Event.program, onKeyComplete, Prog.wp_bind, Prog.wp_modify, Prog.andThen_ok,
      Prog.wp_liftM]
    cases Block.ofBuffer contentBuffer with
    | error e => exact hkey _ _
    | ok block =>
      simp only [Prog.andThen_ok, Prog.wp_bind, Prog.wp_get, Prog.wp_liftM]
      cases decryptDataContentTpm p.crypto block c.m_cert.getName with
      | error e => exact hkey _ _
      | ok prvBlock =>
        simp only [Prog.andThen_ok, Prog.wp_bind, Prog.wp_liftM]
        cases PrivateKey.fromBuffer p.mem prvBlock with
        | error e => exact hkey _ _
        | ok prvKey => exact hkey _ _
  | keyError interestName => exact h.same ⟨rfl, rfl, rfl, rfl⟩
  | publicParams pubParamData validationError => exact h.same ⟨rfl, rfl, rfl, rfl⟩

/-! ## The result -/

theorem flight_initial (identityCert attrAuthorityCertificate : Certificate)
    (template : Interest) :
    Flight (Consumer.initial identityCert attrAuthorityCertificate template) :=
  ⟨List.nodup_nil, List.forall_mem_nil _, fun k hk => by simp [Consumer.initial] at hk,
    fun k hk => by simp [Consumer.initial] at hk,
    fun k tasks hfind => by simp [Consumer.initial] at hfind,
    fun s hs => by simp [Consumer.initial] at hs⟩

/-- Every reachable configuration is in `Flight`, whatever the callbacks do and however
they end. -/
theorem flight_of_reaches (p : Platform) {ok : System.Config Consumer Exn Invocation →
      System.Act Exn Entry Event → Prop} {c d : System.Config Consumer Exn Invocation}
    (hc : System.Good flightContract c.frames c.st)
    (h : (Consumer.system p).Reaches ok c d) : System.Good flightContract d.frames d.st :=
  System.good_of_reaches (fun _ entry _ hd => wp_entry p entry hd)
    (fun _ event _ he hd => wp_event p event he hd) (fun _ _ _ _ _ _ => trivial) hc h

/-- **Single flight.**  In every state the application can see, between events and inside
its callbacks, each CK name has at most one outstanding fetch, every waiting task is
under a marked name, and no fetch has been started for a name with a cached key. -/
theorem single_flight (p : Platform) (identityCert attrAuthorityCertificate : Certificate)
    (template : Interest) (d : System.Config Consumer Exn Invocation)
    (h : (Consumer.system p).Reaches (fun _ _ => True)
      ⟨Consumer.initial identityCert attrAuthorityCertificate template, []⟩ d) :
    d.st.ckFetches.Nodup ∧
      (∀ k tasks, d.st.m_pendingCallbacks.find k = some tasks → k ∈ d.st.m_ckInterestsSent) ∧
      ∀ k cached, (k, cached) ∈ d.st.started → cached = none := by
  have hc : System.Good flightContract [] (Consumer.initial identityCert
      attrAuthorityCertificate template) :=
    flight_initial identityCert attrAuthorityCertificate template
  have hd : Flight d.st := (flight_of_reaches p hc h).inv
  exact ⟨hd.nodup, hd.pending, fun k cached hs => hd.fresh (k, cached) hs⟩

/-- A consumer that waits for a content key. -/
theorem single_flight_while_waiting :
    waitingConsumer.ckFetches.Nodup ∧
      (∀ k tasks, waitingConsumer.m_pendingCallbacks.find k = some tasks →
        k ∈ waitingConsumer.m_ckInterestsSent) ∧
      ∀ k cached, (k, cached) ∈ waitingConsumer.started → cached = none :=
  single_flight mockPlatform (.sample (ascii "c") [9]) (.sample (ascii "a") [8])
    ParamFetcher.defaultInterestTemplate ⟨waitingConsumer, []⟩
    (reaches_waitingConsumer (fun _ => trivial) (fun _ => trivial) (fun _ => trivial) trivial)

end NacAbe.Analysis
