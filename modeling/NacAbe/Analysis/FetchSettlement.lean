import NacAbe.Analysis.SingleFlight
import NacAbe.Interface.ConsumerReports

/-!
# What the end of a content key fetch leaves

When a fetch ends, every waiting task should be told, the tasks forgotten and the
in-flight mark cleared.  The error handler does that.  The completion handler does it
exactly when the content is a block with an EncryptedAesKey element: filling the cache
tolerates any other content (consumer.cpp:247-254), but the block is built before
that and the fan-out reads it again outside of any try block (consumer.cpp:245, 286-288), so
the exception leaves the handler with the mark set and the tasks waiting.
-/

set_option autoImplicit false

namespace NacAbe.Analysis

open NacAbe Consumer

/-- The content of a fetch is a block with an EncryptedAesKey element. -/
def HoldsKey (contentBuffer : Bytes) : Prop :=
  ∃ ckBlock encryptedAESKeyTLV, Block.ofBuffer contentBuffer = .ok ckBlock ∧
    Block.get ckBlock tlvEncryptedAesKey = .ok encryptedAESKeyTLV

theorem HoldsKey.carries {contentBuffer : Bytes} (h : HoldsKey contentBuffer) :
    ∃ encAesKey, CarriesKey contentBuffer encAesKey := by
  obtain ⟨ckBlock, encrypted, hblock, hget⟩ := h
  exact ⟨encrypted.value, ckBlock, encrypted, hblock, hget, rfl⟩

/-- Between `c`, where the fetch ends, and `t`, where its handler has run, everybody who
waited was told once; nothing is left of the fetch, and a later `consume` of the name
is answered or starts a fetch, as long as the default timeout is one that an Interest can have. -/
structure Settled (p : Platform) (ckKey : Name) (tasks : List PendingTask) (c t : Consumer) :
    Prop where
  unmarked : ckKey ∉ t.m_ckInterestsSent
  forgotten : t.m_pendingCallbacks.find ckKey = none
  answered : ∃ calls, t.invoked = c.invoked ++ calls ∧
    calls.map Invocation.id = callsOf tasks
  later : ∀ content cipherText ckName callbacks, callbacks.Set →
    parseContent content = .ok (cipherText, ckName) → normalizeCkKey ckName = ckKey →
    (t.m_ckEncAesCache.find ckKey).isSome = true ∨ 0 ≤ t.m_defaultTimeout →
    (∃ call, ((decryptContent p content callbacks).exec t).2.invoked = t.invoked ++ [call] ∧
      call.id = callbacks.id) ∨
    ckKey ∈ ((decryptContent p content callbacks).exec t).2.ckFetches

variable {p : Platform} {c t : Consumer} {ckKey : Name} {tasks rest : List PendingTask}
  {task : PendingTask}

/-! ## A consume of an unmarked name -/

/-- Without a mark, a `consume` is answered from the cache or starts a fetch if it can. -/
theorem exec_decryptContent_of_unmarked {content : Block} {cipherText : CipherText}
    {ckName : Name} {callbacks : Callbacks} (hset : callbacks.Set)
    (hparse : parseContent content = .ok (cipherText, ckName))
    (ht : normalizeCkKey ckName ∉ t.m_ckInterestsSent)
    (hobtain : t.CanObtain (normalizeCkKey ckName)) :
    (∃ call, ((decryptContent p content callbacks).exec t).2.invoked = t.invoked ++ [call] ∧
      call.id = callbacks.id) ∨
    normalizeCkKey ckName ∈ ((decryptContent p content callbacks).exec t).2.ckFetches := by
  have hwp : (decryptContent p content callbacks).wp (Prog.silent _ _ _) (fun _ u =>
      (∃ call, u.invoked = t.invoked ++ [call] ∧ call.id = callbacks.id) ∨
      normalizeCkKey ckName ∈ u.ckFetches) t := by
    refine wp_decryptContent_of_parse Prog.silent_returns hset hparse ?_ ?_ ?_ ?_
    · intro encAesKey _
      refine ⟨trivial, ?_⟩
      rintro u rfl -
      exact Or.inl ⟨_, rfl, callbacks.id_report _⟩
    · exact fun _ hmark => absurd hmark ht
    · exact fun _ _ _ => Or.inr List.mem_cons_self
    · intro hcache hmark hrequest
      rcases hobtain with hcached | hmarked | hrequested
      · rw [hcache] at hcached
        cases hcached
      · exact absurd hmarked hmark
      · exact absurd hrequested hrequest
  exact (Prog.wp_silent_iff _ _ _).mp hwp

/-! ## Telling the tasks -/

/-- Before each round of the loop: the tasks up to `rest` have been told. -/
structure Told (ckKey : Name) (tasks : List PendingTask) (c : Consumer)
    (rest : List PendingTask) (t : Consumer) : Prop where
  pending : t.m_pendingCallbacks.find ckKey = some tasks
  answered : ∃ calls done, tasks = done ++ rest ∧ t.invoked = c.invoked ++ calls ∧
    calls.map Invocation.id = callsOf done

theorem Told.next (h : Told ckKey tasks c (task :: rest) t) {call : Invocation}
    (hcall : call.id = task.callbacks.id) (st : AbeSupport) :
    Told ckKey tasks c rest (reported call st t) := by
  obtain ⟨calls, done, htasks, hinvoked, hids⟩ := h.answered
  refine ⟨h.pending, calls ++ [call], done ++ [task], ?_, ?_, ?_⟩
  · simp [htasks]
  · simp [reported, hinvoked]
  · rw [List.map_append, hids, callsOf, callsOf, List.map_append, List.map_singleton, hcall]
    rfl

/-- When all have been told, the fetch is settled. -/
theorem Told.finish (h : Told ckKey tasks c [] t) (hrequest : ckKey.Requestable) :
    Settled p ckKey tasks c (eraseSent ckKey (erasePending ckKey t)) := by
  obtain ⟨calls, done, htasks, hinvoked, hids⟩ := h.answered
  rw [List.append_nil] at htasks
  subst htasks
  have hunmarked : ckKey ∉ (eraseSent ckKey (erasePending ckKey t)).m_ckInterestsSent :=
    Finset.notMem_erase ckKey t.m_ckInterestsSent
  refine ⟨hunmarked, by simp [eraseSent, erasePending], ⟨calls, hinvoked, hids⟩, ?_⟩
  rintro content cipherText ckName callbacks hset hparse rfl hcan
  refine exec_decryptContent_of_unmarked hset hparse hunmarked ?_
  rcases hcan with hcached | htimeout
  · exact Or.inl hcached
  · exact Or.inr (Or.inr ⟨hrequest, htimeout⟩)

/-- A fetch that fails settles its name. -/
theorem exec_onCkError_settled (hfind : c.m_pendingCallbacks.find ckKey = some tasks)
    (hrequest : ckKey.Requestable) (hset : ∀ task ∈ tasks, task.callbacks.Set) (errorMsg : String) :
    Settled p ckKey tasks c ((onCkError p ckKey errorMsg).exec c).2 := by
  have hwp : (onCkError p ckKey errorMsg).wp (Prog.silent _ _ _)
      (fun _ t => Settled p ckKey tasks c t) c := by
    refine wp_onCkError_of_steady Prog.silent_returns (Told ckKey tasks c) (fun h => h.pending) hset
      ?_ (fun t ht => ht.finish hrequest) ⟨hfind, [], [], rfl, by simp [endCkFetch], rfl⟩
    intro task rest t _ ht
    refine ⟨trivial, ?_⟩
    rintro u rfl -
    exact ht.next rfl t.abeSupport
  exact (Prog.wp_silent_iff _ _ _).mp hwp

/-- A fetch that brings a key settles its name. -/
theorem exec_onCkComplete_settled (hfind : c.m_pendingCallbacks.find ckKey = some tasks)
    (hrequest : ckKey.Requestable) (hset : ∀ task ∈ tasks, task.callbacks.Set)
    {contentBuffer : Bytes} (hkey : HoldsKey contentBuffer) :
    Settled p ckKey tasks c ((onCkComplete p ckKey contentBuffer).exec c).2 := by
  obtain ⟨encAesKey, hcarries⟩ := hkey.carries
  have hwp : (onCkComplete p ckKey contentBuffer).wp (Prog.silent _ _ _)
      (fun _ t => Settled p ckKey tasks c t) c := by
    refine wp_onCkComplete_of_steady Prog.silent_returns hcarries (Told ckKey tasks c)
      (fun h => h.pending) hset ?_ (fun t ht => ht.finish hrequest)
      ⟨hfind, [], [], rfl, by simp [fetched, endCkFetch], rfl⟩
    intro task rest t _ ht
    refine ⟨trivial, ?_⟩
    rintro u rfl -
    exact ht.next (task.callbacks.id_report _) _
  exact (Prog.wp_silent_iff _ _ _).mp hwp

/-! ## Content without a key -/

/-- What `Block::get` throws derives from `std::exception`. -/
theorem isStd_of_get {block : Block} {type : ℕ} {e : Exn} (h : Block.get block type = .error e) :
    e.isStd = true := by
  unfold Block.get Block.elements at h
  cases hdecode : Tlv.decodeAll block.value with
  | none =>
    simp only [hdecode, bind, Except.bind, Except.error.injEq] at h
    rw [← h]
    rfl
  | some es =>
    simp only [hdecode, bind, Except.bind, Block.firstOf] at h
    split at h
    · cases h
    · cases h; rfl

/-- Content without a key leaves the mark, when somebody waits. -/
theorem exec_onCkComplete_marked (hfind : c.m_pendingCallbacks.find ckKey = some (task :: rest))
    (hc : ckKey ∈ c.m_ckInterestsSent) {contentBuffer : Bytes} (hkey : ¬ HoldsKey contentBuffer) :
    ckKey ∈ ((onCkComplete p ckKey contentBuffer).exec c).2.m_ckInterestsSent := by
  have hwp : (onCkComplete p ckKey contentBuffer).wp (Prog.silent _ _ _)
      (fun _ t => ckKey ∈ t.m_ckInterestsSent) c := by
    simp only [onCkComplete, Prog.wp_bind, Prog.wp_modify, Prog.andThen_ok, Prog.wp_liftM]
    cases hblock : Block.ofBuffer contentBuffer with
    | error e => exact hc
    | ok ckBlock =>
      cases hget : Block.get ckBlock tlvEncryptedAesKey with
      | ok encrypted => exact absurd ⟨ckBlock, encrypted, hblock, hget⟩ hkey
      | error e =>
        have hwaiting : (endCkFetch ckKey c).m_pendingCallbacks.find ckKey =
            some (task :: rest) := hfind
        simp only [fillCache, hget, Prog.andThen_ok, Prog.andThen_error, Prog.wp_bind,
          Prog.wp_tryCatch, Prog.wp_liftM, Prog.orElse_error, if_pos (isStd_of_get hget),
          Prog.wp_pure, broadcast, Prog.wp_get, hwaiting, Prog.walk, onCkeyData]
        exact hc
  exact (Prog.wp_silent_iff _ _ _).mp hwp

/-! ## The result -/

/-- **The end of a fetch.**  For the fetch of any name with any waiting tasks in a
consumer that any run has left idle: its error settles it, and its completion does
exactly when the content holds an encrypted key. -/
theorem fetch_settled_iff (p : Platform) (identityCert attrAuthorityCertificate : Certificate)
    (template : Interest) (c : Consumer) (ckKey : Name) (tasks : List PendingTask)
    (h : (Consumer.system p).Reaches (fun _ _ => True)
      ⟨Consumer.initial identityCert attrAuthorityCertificate template, []⟩ ⟨c, []⟩)
    (hfetch : ckKey ∈ c.ckFetches) (hfind : c.m_pendingCallbacks.find ckKey = some tasks)
    (hset : ∀ task ∈ tasks, task.callbacks.Set) :
    (∀ errorMsg, Settled p ckKey tasks c ((onCkError p ckKey errorMsg).exec c).2) ∧
      ∀ contentBuffer,
        Settled p ckKey tasks c ((onCkComplete p ckKey contentBuffer).exec c).2 ↔
          HoldsKey contentBuffer := by
  have hinitial : System.Good flightContract [] (Consumer.initial identityCert
      attrAuthorityCertificate template) :=
    flight_initial identityCert attrAuthorityCertificate template
  have hflight : Flight c := (flight_of_reaches p hinitial h).inv
  have hrequest : ckKey.Requestable := hflight.requestable ckKey hfetch
  refine ⟨exec_onCkError_settled hfind hrequest hset, fun contentBuffer =>
    ⟨?_, exec_onCkComplete_settled hfind hrequest hset⟩⟩
  intro hsettled
  by_contra hkey
  obtain ⟨first, others, hqueue⟩ := hflight.awaited ckKey hfetch
  exact hsettled.unmarked
    (exec_onCkComplete_marked hqueue (hflight.marked ckKey hfetch) hkey)

/-- The consumer that waits for a content key, with the one task that waits. -/
theorem fetch_settled_of_waiting :
    (∀ errorMsg, Settled mockPlatform ckName [⟨cipherText, ⟨0, true, true⟩⟩] waitingConsumer
      ((onCkError mockPlatform ckName errorMsg).exec waitingConsumer).2) ∧
      ∀ contentBuffer, Settled mockPlatform ckName [⟨cipherText, ⟨0, true, true⟩⟩]
        waitingConsumer
        ((onCkComplete mockPlatform ckName contentBuffer).exec waitingConsumer).2 ↔
          HoldsKey contentBuffer :=
  fetch_settled_iff mockPlatform (.sample (ascii "c") [9]) (.sample (ascii "a") [8])
    ParamFetcher.defaultInterestTemplate waitingConsumer ckName
    [⟨cipherText, ⟨0, true, true⟩⟩]
    (reaches_waitingConsumer (fun _ => trivial) (fun _ => trivial) (fun _ => trivial) trivial)
    List.mem_cons_self rfl (by simp [Callbacks.Set])

/-- Its fetch completes with no octets at all: the mark stays. -/
theorem fetch_unsettled_by_empty_content :
    ¬ ∀ (c : Consumer) (ckKey : Name) (tasks : List PendingTask),
      (Consumer.system mockPlatform).Reaches (fun _ _ => True) ⟨fresh, []⟩ ⟨c, []⟩ →
      ckKey ∈ c.ckFetches → c.m_pendingCallbacks.find ckKey = some tasks →
      (∀ task ∈ tasks, task.callbacks.Set) → ∀ contentBuffer,
        Settled mockPlatform ckKey tasks c
          ((onCkComplete mockPlatform ckKey contentBuffer).exec c).2 := by
  intro h
  have hsettled := h waitingConsumer ckName [⟨cipherText, ⟨0, true, true⟩⟩]
    (reaches_waitingConsumer (fun _ => trivial) (fun _ => trivial) (fun _ => trivial) trivial)
    List.mem_cons_self rfl (by simp [Callbacks.Set]) []
  exact hsettled.unmarked (Finset.mem_singleton_self ckName)

end NacAbe.Analysis
