import NacAbe.Analysis.ConsumeAccounting

/-!
# Nobody waits twice for one key

Every call of `consume` has its own number, and a call that is queued under a CK name was
queued there once: right away, or when the data it named had arrived.  This holds in every
run, however the callbacks end and whatever a handler that is left by an exception leaves
behind (`nodup_waiters_of_reaches`).
-/

set_option autoImplicit false

namespace NacAbe.Analysis

open NacAbe Consumer

/-- The calls that wait under one name are different, and so are those whose data is
being fetched, which wait under no name; all of them have been made. -/
structure Distinct (c : Consumer) : Prop where
  waiters : ∀ k, (callsOf (c.tasksUnder k)).Nodup
  made : ∀ k, ∀ id ∈ callsOf (c.tasksUnder k), id < c.nextCall
  fetching : (c.dataFetches.map fun f => f.2.id).Nodup
  apart : ∀ f ∈ c.dataFetches, f.2.id < c.nextCall ∧ ∀ k, f.2.id ∉ callsOf (c.tasksUnder k)

/-- A call that has been made and waits for nothing. -/
structure Unqueued (c : Consumer) (id : ℕ) : Prop where
  made : id < c.nextCall
  waiting : ∀ k, id ∉ callsOf (c.tasksUnder k)
  fetching : ∀ f ∈ c.dataFetches, f.2.id ≠ id

/-- The waiting tasks, the data fetches and the numbers are the same. -/
structure SameCalls (c t : Consumer) : Prop where
  pending_eq : t.m_pendingCallbacks = c.m_pendingCallbacks
  data_eq : t.dataFetches = c.dataFetches
  next_eq : t.nextCall = c.nextCall

variable {c t : Consumer} {ckKey : Name} {task : PendingTask} {callbacks : Callbacks} {id : ℕ}
  {p : Platform}

/-! ## What each change does to `Distinct` -/

/-- `Distinct` depends on the tasks, the fetches and the numbers alone. -/
theorem Distinct.same (h : Distinct c) (hs : SameCalls c t) : Distinct t := by
  have htasks : ∀ k, t.tasksUnder k = c.tasksUnder k := fun k =>
    tasksUnder_congr (by rw [hs.pending_eq])
  refine ⟨?_, ?_, ?_, ?_⟩
  all_goals simp only [htasks, hs.data_eq, hs.next_eq]
  · exact h.waiters
  · exact h.made
  · exact h.fetching
  · exact h.apart

/-- `Unqueued` depends on the same. -/
theorem Unqueued.same (h : Unqueued c id) (hs : SameCalls c t) : Unqueued t id := by
  have htasks : ∀ k, t.tasksUnder k = c.tasksUnder k := fun k =>
    tasksUnder_congr (by rw [hs.pending_eq])
  refine ⟨?_, ?_, ?_⟩
  all_goals simp only [htasks, hs.data_eq, hs.next_eq]
  · exact h.made
  · exact h.waiting
  · exact h.fetching

/-- The tasks under a name after one was queued. -/
theorem tasksUnder_queue (ckKey k : Name) (task : PendingTask) (c : Consumer) :
    (queue ckKey task c).tasksUnder k =
      if k = ckKey then c.tasksUnder k ++ [task] else c.tasksUnder k := by
  by_cases hk : k = ckKey
  · simp [tasksUnder, queue, hk]
  · simp [tasksUnder, queue, hk]

/-- A call that waits for nothing may be queued. -/
theorem Distinct.queue (h : Distinct c) (hfree : Unqueued c task.callbacks.id) :
    Distinct (queue ckKey task c) := by
  refine ⟨?_, ?_, h.fetching, ?_⟩
  · intro k
    rw [tasksUnder_queue]
    split
    · rw [callsOf, List.map_append]
      exact (h.waiters k).append (List.nodup_singleton _)
        (List.disjoint_singleton.mpr (hfree.waiting k))
    · exact h.waiters k
  · intro k id hid
    rw [tasksUnder_queue] at hid
    split at hid
    · rw [callsOf, List.map_append, List.mem_append, List.map_singleton, List.mem_singleton] at hid
      rcases hid with hold | rfl
      · exact h.made k id hold
      · exact hfree.made
    · exact h.made k id hid
  · intro f hf
    refine ⟨(h.apart f hf).1, fun k hk => ?_⟩
    rw [tasksUnder_queue] at hk
    split at hk
    · rw [callsOf, List.map_append, List.mem_append, List.map_singleton, List.mem_singleton] at hk
      rcases hk with hold | heq
      · exact (h.apart f hf).2 k hold
      · exact hfree.fetching f hf heq
    · exact (h.apart f hf).2 k hk

/-- Waiters may be taken away. -/
theorem Distinct.erasePending (h : Distinct c) : Distinct (erasePending ckKey c) := by
  have hsub : ∀ k, (Consumer.erasePending ckKey c).tasksUnder k = [] ∨
      (Consumer.erasePending ckKey c).tasksUnder k = c.tasksUnder k := by
    intro k
    by_cases hk : k = ckKey
    · exact Or.inl (by simp [tasksUnder, Consumer.erasePending, hk])
    · exact Or.inr (by simp [tasksUnder, Consumer.erasePending, hk])
  refine ⟨?_, ?_, h.fetching, ?_⟩
  · intro k
    rcases hsub k with hk | hk
    · rw [hk]
      exact List.nodup_nil
    · rw [hk]
      exact h.waiters k
  · intro k id hid
    rcases hsub k with hk | hk
    · rw [hk] at hid
      cases hid
    · rw [hk] at hid
      exact h.made k id hid
  · intro f hf
    refine ⟨(h.apart f hf).1, fun k hid => ?_⟩
    rcases hsub k with hk | hk
    · rw [hk] at hid
      cases hid
    · rw [hk] at hid
      exact (h.apart f hf).2 k hid

/-- A call is made. -/
theorem Distinct.enter (h : Distinct c) :
    Distinct { c with nextCall := c.nextCall + 1 } ∧
      Unqueued { c with nextCall := c.nextCall + 1 } c.nextCall := by
  constructor
  · refine ⟨h.waiters, ?_, h.fetching, ?_⟩
    · intro k id hid
      exact Nat.lt_succ_of_lt (h.made k id hid)
    · intro f hf
      exact ⟨Nat.lt_succ_of_lt (h.apart f hf).1, (h.apart f hf).2⟩
  · refine ⟨Nat.lt_succ_self _, fun k hid => lt_irrefl _ (h.made k _ hid), ?_⟩
    intro f hf heq
    exact lt_irrefl _ (heq ▸ (h.apart f hf).1)

/-- A call is left to a data fetch. -/
theorem Distinct.startDataFetch (h : Distinct c) (hfree : Unqueued c callbacks.id)
    (dataInterest : Name) :
    Distinct { c with dataFetches := (dataInterest, callbacks) :: c.dataFetches } := by
  refine ⟨h.waiters, h.made, List.nodup_cons.mpr ⟨?_, h.fetching⟩, ?_⟩
  · intro hmem
    obtain ⟨f, hf, heq⟩ := List.mem_map.mp hmem
    exact hfree.fetching f hf heq
  · intro f hf
    rcases List.mem_cons.mp hf with rfl | hold
    · exact ⟨hfree.made, hfree.waiting⟩
    · exact h.apart f hold

/-- The data fetch of a call ends. -/
theorem Distinct.endDataFetch (h : Distinct c) {fetch : Name × Callbacks}
    (hf : fetch ∈ c.dataFetches) :
    Distinct { c with dataFetches := c.dataFetches.erase fetch } ∧
      Unqueued { c with dataFetches := c.dataFetches.erase fetch } fetch.2.id := by
  have hperm := List.perm_cons_erase hf
  have honce := ((hperm.map fun f => f.2.id).nodup_iff).mp h.fetching
  rw [List.map_cons, List.nodup_cons] at honce
  constructor
  · exact ⟨h.waiters, h.made, honce.2, fun f hmem => h.apart f (List.mem_of_mem_erase hmem)⟩
  · refine ⟨(h.apart fetch hf).1, (h.apart fetch hf).2, ?_⟩
    intro f hmem heq
    exact honce.1 (List.mem_map.mpr ⟨f, hmem, heq⟩)

/-! ## The programs -/

open Prog in
/-- A callback that is set is called, one that is not set is passed over. -/
theorem keeps_invoke (call : Invocation) (b : Bool) :
    Keeps Distinct (do
      if b then
        modify fun c => { c with invoked := c.invoked ++ [call] }
        Prog.callOut call
      else throw .badFunctionCall : ConsumerM Unit) := by
  cases b with
  | false => exact .throw _
  | true => exact .bind (.modify fun c hc => hc.same ⟨rfl, rfl, rfl⟩) fun _ => .callOut call

/-- An error is told. -/
theorem keeps_invokeError (callbacks : Callbacks) (what : String) :
    Prog.Keeps Distinct (invokeError callbacks what) :=
  keeps_invoke (.error callbacks.id what) callbacks.hasError

open Prog in
/-- A decryption and its report. -/
theorem keeps_decryptAndReport (cipherText : CipherText) (callbacks : Callbacks) :
    Keeps Distinct (decryptAndReport p cipherText callbacks) := by
  have hdecrypt : ∀ decrypt : ExceptT Exn (StateM AbeSupport) Bytes, Keeps Distinct (do
      let result ← callAbe decrypt
      invokeSuccess callbacks result : ConsumerM Unit) := by
    intro decrypt
    refine .bind (.get_bind fun c hc => ?_) fun result =>
      keeps_invoke (.success callbacks.id result) callbacks.hasSuccess
    have hcalled : Distinct { c with abeSupport := (decrypt.run.run c.abeSupport).2 } :=
      hc.same ⟨rfl, rfl, rfl⟩
    exact .bind (.set hcalled) fun _ => .liftM _
  refine .tryCatch (.get_bind fun c _ => ?_) fun e => ?_
  · dsimp only
    split
    · exact hdecrypt _
    · split
      · exact hdecrypt _
      · exact keeps_invokeError callbacks _
  · split
    · exact keeps_invokeError callbacks _
    · exact .throw e

/-- The walk over the waiters, whatever each round tells. -/
theorem keeps_broadcast {tell : PendingTask → ConsumerM Unit}
    (htell : ∀ task, Prog.Keeps Distinct (tell task)) :
    Prog.Keeps Distinct (broadcast p ckKey tell) := by
  have hmark : Prog.Keeps Distinct (modify (eraseSent ckKey) : ConsumerM Unit) :=
    .modify fun t ht => ht.same ⟨rfl, rfl, rfl⟩
  refine .get_bind fun c _ => ?_
  dsimp only
  split
  · exact .bind (.walk htell _ _ _) fun _ => .bind (.modify fun t ht => ht.erasePending)
      fun _ => hmark
  · exact hmark

/-- A call that waits for nothing may be queued. -/
theorem wp_decryptContent_distinct (h : Distinct c)
    (hfree : Unqueued c callbacks.id) (content : Block) : (decryptContent p content callbacks).wp
      (Prog.keeping Consumer Exn Invocation Distinct) (fun _ t => Distinct t) c := by
  simp only [decryptContent, Prog.wp_bind, Prog.wp_liftM]
  cases parseContent content with
  | error e => exact h
  | ok parsed =>
    have hcalls : ∀ marks, SameCalls c { c with
        accepted := callbacks.id :: c.accepted, m_ckInterestsSent := marks } := fun _ =>
      ⟨rfl, rfl, rfl⟩
    have hqueued : ∀ marks task, task.callbacks = callbacks →
        Distinct (queue (normalizeCkKey parsed.2) task { c with
          accepted := callbacks.id :: c.accepted, m_ckInterestsSent := marks }) := by
      rintro marks task rfl
      exact (h.same (hcalls marks)).queue (hfree.same (hcalls marks))
    simp only [Prog.andThen_ok, Prog.wp_bind, Prog.wp_modify, Prog.wp_get]
    cases c.m_ckEncAesCache.find (normalizeCkKey parsed.2) with
    | some encAesKey => exact keeps_decryptAndReport _ _ _ (h.same ⟨rfl, rfl, rfl⟩)
    | none =>
      dsimp only
      split
      · exact hqueued _ ⟨parsed.1, callbacks⟩ rfl
      · have hstart : Prog.Keeps Distinct (do
            let _ckInterest ← (liftM (timedInterest (← get) (normalizeCkKey parsed.2)) :
              ConsumerM Interest)
            modify (startCkFetch (normalizeCkKey parsed.2)) : ConsumerM Unit) :=
          .get_bind fun t _ => .bind (.liftM _) fun _ => .modify fun t ht =>
            ht.same ⟨rfl, rfl, rfl⟩
        rw [Prog.wp_bind, Prog.wp_modify, Prog.andThen_ok, Prog.wp_bind, Prog.wp_modify,
          Prog.andThen_ok]
        exact hstart _ (hqueued _ ⟨parsed.1, callbacks⟩ rfl)

/-- A call that is refused. -/
theorem keeps_refuse (callbacks : Callbacks) (what : String) :
    Prog.Keeps Distinct (refuse callbacks what) :=
  .bind (.modify fun _ hc => hc.same ⟨rfl, rfl, rfl⟩) fun _ => keeps_invokeError callbacks what

/-- A call that fetches its data first waits for that alone. -/
theorem keeps_consumeInterest (dataInterest : Name) (hasSuccess hasError : Bool) :
    Prog.Keeps Distinct (consumeInterest dataInterest hasSuccess hasError) := by
  intro c h
  obtain ⟨hnext, -⟩ := h.enter
  simp only [consumeInterest, enterCall, Prog.wp_bind, Prog.wp_get, Prog.wp_set, Prog.wp_pure,
    Prog.andThen_ok]
  split
  · exact Distinct.startDataFetch hnext h.enter.2 dataInterest
  · exact keeps_refuse _ _ _ hnext

/-- Every call of the application. -/
theorem keeps_entry (p : Platform) (entry : Entry) : Prog.Keeps Distinct (entry.program p) := by
  intro c h
  obtain ⟨hnext, hfree⟩ := h.enter
  cases entry with
  | consumeBlock dataBlock hasSuccess hasError =>
    simp only [Entry.program, consumeBlock, enterCall, Prog.wp_bind, Prog.wp_get, Prog.wp_set,
      Prog.wp_pure, Prog.andThen_ok]
    split
    · exact wp_decryptContent_distinct hnext hfree dataBlock
    · exact keeps_refuse _ _ _ hnext
  | consumeInterest dataInterest hasSuccess hasError =>
    exact keeps_consumeInterest dataInterest hasSuccess hasError c h
  | consumeName dataName hasSuccess hasError =>
    have hkeeps : Prog.Keeps Distinct (consumeName dataName hasSuccess hasError) :=
      .get_bind fun t _ => .bind (.liftM _) fun interest =>
        keeps_consumeInterest interest.name hasSuccess hasError
    exact hkeeps c h
  | setDefaultTimeout defaultTimeout => exact h.same ⟨rfl, rfl, rfl⟩
  | obtainDecryptionKey =>
    have hkeeps : Prog.Keeps Distinct obtainDecryptionKey :=
      .get_bind fun t _ => .bind (.liftM _) fun _ => .bind (.liftM _) fun _ =>
        .modify fun c hc => hc.same ⟨rfl, rfl, rfl⟩
    exact hkeeps c h
  | abeCall call => exact h.same ⟨rfl, rfl, rfl⟩

/-- A content key fetch that completes. -/
theorem keeps_onCkComplete (contentBuffer : Bytes) :
    Prog.Keeps Distinct (onCkComplete p ckKey contentBuffer) := by
  refine .bind (.modify fun c hc => hc.same ⟨rfl, rfl, rfl⟩) fun _ =>
    .bind (.liftM _) fun ckBlock => .bind ?_ fun _ => keeps_broadcast fun task =>
      .bind (.liftM _) fun _ =>
      keeps_decryptAndReport _ _
  refine .tryCatch (.bind (.liftM _) fun _ => .modify fun c hc => hc.same ⟨rfl, rfl, rfl⟩)
    fun e => ?_
  split
  · exact .pure ()
  · exact .throw e

/-- A content key fetch that fails. -/
theorem keeps_onCkError (errorMsg : String) :
    Prog.Keeps Distinct (onCkError p ckKey errorMsg) := by
  refine .bind (.modify fun c hc => hc.same ⟨rfl, rfl, rfl⟩) fun _ =>
    keeps_broadcast fun task => ?_
  unfold tellError
  split
  · exact keeps_invokeError _ _
  · exact .pure ()

/-- Every event that can happen. -/
theorem wp_event_distinct (p : Platform) (event : Event) (henabled : event.enabled c = true)
    (h : Distinct c) : (event.program p).wp (Prog.keeping Consumer Exn Invocation Distinct)
      (fun _ t => Distinct t) c := by
  cases event with
  | ckComplete ckKey contentBuffer => exact keeps_onCkComplete contentBuffer c h
  | ckError ckKey errorMsg => exact keeps_onCkError errorMsg c h
  | dataComplete fetch contentBuffer =>
    obtain ⟨hrest, hfree⟩ := h.endDataFetch (by simpa [Event.enabled] using henabled)
    simp only [Event.program, onDataComplete, Prog.wp_bind, Prog.wp_modify, Prog.andThen_ok,
      Prog.wp_liftM]
    cases Block.ofBuffer contentBuffer with
    | error e => exact hrest
    | ok content => exact wp_decryptContent_distinct hrest hfree content
  | dataError fetch errorMsg =>
    obtain ⟨hrest, -⟩ := h.endDataFetch (by simpa [Event.enabled] using henabled)
    simp only [Event.program, onDataError, Prog.wp_bind, Prog.wp_modify, Prog.andThen_ok]
    exact keeps_refuse _ _ _ hrest
  | keyComplete interestName contentBuffer =>
    have hkeeps : Prog.Keeps Distinct (onKeyComplete p interestName contentBuffer) := by
      refine .bind (.modify fun c hc => hc.same ⟨rfl, rfl, rfl⟩) fun _ => .bind (.liftM _)
        fun block => .get_bind fun _ _ => .bind (.liftM _) fun _ => .bind (.liftM _) fun _ =>
          .modify fun c hc => hc.same ⟨rfl, rfl, rfl⟩
    exact hkeeps c h
  | keyError interestName => exact h.same ⟨rfl, rfl, rfl⟩
  | publicParams pubParamData validationError => exact h.same ⟨rfl, rfl, rfl⟩

/-! ## The result -/

/-- Nobody waits at first. -/
theorem distinct_initial (identityCert attrAuthorityCertificate : Certificate)
    (template : Interest) :
    Distinct (Consumer.initial identityCert attrAuthorityCertificate template) :=
  ⟨fun _ => List.nodup_nil, fun _ _ hid => by simp [callsOf, tasksUnder, Consumer.initial] at hid,
    List.nodup_nil, fun _ hf => by simp [Consumer.initial] at hf⟩

/-- **Nobody waits twice** for one key, in any run. -/
theorem nodup_waiters_of_reaches (p : Platform)
    (identityCert attrAuthorityCertificate : Certificate) (template : Interest)
    {ok : System.Config Consumer Exn Invocation → System.Act Exn Entry Event → Prop}
    {d : System.Config Consumer Exn Invocation}
    (h : (Consumer.system p).Reaches ok
      ⟨Consumer.initial identityCert attrAuthorityCertificate template, []⟩ d) (ckKey : Name) :
    (callsOf (d.st.tasksUnder ckKey)).Nodup := by
  have hinitial : System.Good (Prog.keeping Consumer Exn Invocation Distinct) []
      (Consumer.initial identityCert attrAuthorityCertificate template) :=
    distinct_initial identityCert attrAuthorityCertificate template
  have hgood := System.good_of_reaches (C := Prog.keeping Consumer Exn Invocation Distinct)
    (fun d entry _ hd => Prog.wp_mono (fun _ _ ht => ⟨ht, trivial⟩) (keeps_entry p entry d.st hd))
    (fun d event _ henabled hd => wp_event_distinct p event henabled hd)
    (fun _ _ _ _ _ _ => trivial) hinitial h
  exact hgood.inv.waiters ckKey

end NacAbe.Analysis
