import NacAbe.Analysis.DistinctWaiters

/-!
# Callbacks that throw

The fan-out of a content key fetch calls the callbacks of one waiter after the other
(consumer.cpp:243-276).  A success callback is called inside the try block whose `catch` calls
the error callback (consumer.cpp:295-310), and an error callback is called with nothing
around it but the loop, ahead of the two lines that forget the waiters and clear the
in-flight mark.  So a success callback that throws is followed by the error callback of the
same waiter, and what an error callback throws leaves the handler: the waiters after it are
told nothing and the name stays marked.

`WaitersIsolated` is what the fan-out should guarantee whichever callbacks throw.  It holds exactly
when none of the callbacks that the handler comes to does (`waiters_isolated_iff`).
-/

set_option autoImplicit false

namespace NacAbe.Analysis

open NacAbe Consumer

/-! ## Which callbacks throw -/

/-- What the callbacks of each call throw, if anything: a `std::exception`. -/
structure Throwing where
  onSuccess : ℕ → Option Exn
  onError : ℕ → Option Exn
  std_onSuccess : ∀ {id e}, onSuccess id = some e → e.isStd = true
  std_onError : ∀ {id e}, onError id = some e → e.isStd = true

namespace Throwing

/-- How an invocation ends. -/
def ends (throwing : Throwing) : Invocation → Option Exn
  | .success id _ => throwing.onSuccess id
  | .error id _ => throwing.onError id

/-- Nobody throws. -/
def nobody : Throwing := ⟨fun _ => none, fun _ => none, nofun, nofun⟩

theorem ends_nobody : nobody.ends = fun _ => none := by
  funext invocation
  cases invocation <;> rfl

/-- Telling a call this result ends without an exception.  An empty success callback
throws, and the error callback is then told. -/
def Tells (throwing : Throwing) (callbacks : Callbacks) : Except String Bytes → Prop
  | .ok _ =>
    if callbacks.hasSuccess then throwing.onSuccess callbacks.id = none
    else callbacks.hasError = true ∧ throwing.onError callbacks.id = none
  | .error _ => callbacks.hasError = true ∧ throwing.onError callbacks.id = none

/-- Telling a call this result invokes both of its callbacks. -/
def Doubles (throwing : Throwing) (callbacks : Callbacks) : Except String Bytes → Prop
  | .ok _ => callbacks.hasSuccess = true ∧ throwing.onSuccess callbacks.id ≠ none ∧
    callbacks.hasError = true
  | .error _ => False

end Throwing

/-! ## Isolation -/

/-- The invocations made between `c` and `t`. -/
def newInvocations (c t : Consumer) : List Invocation := t.invoked.drop c.invoked.length

/-- Both callbacks of one call are among the invocations. -/
def BothInvoked (calls : List Invocation) (id : ℕ) : Prop :=
  (∃ result, .success id result ∈ calls) ∧ ∃ what, .error id what ∈ calls

/-- A handler of the fetch of `ckKey` keeps the waiters apart: nobody gets both callbacks,
whoever does not throw gets what it gets when nobody throws, and nothing is left of the
fetch. -/
structure WaitersIsolated (throwing : Throwing) (handler : ConsumerM Unit) (ckKey : Name)
    (c : Consumer) : Prop where
  single : ∀ id, ¬ BothInvoked (newInvocations c (handler.execWith throwing.ends c).2) id
  others : ∀ task ∈ c.tasksUnder ckKey, throwing.onSuccess task.callbacks.id = none →
    throwing.onError task.callbacks.id = none →
    (newInvocations c (handler.execWith throwing.ends c).2).filter (·.id = task.callbacks.id) =
      (newInvocations c (handler.exec c).2).filter (·.id = task.callbacks.id)
  unmarked : ckKey ∉ (handler.execWith throwing.ends c).2.m_ckInterestsSent
  forgotten : (handler.execWith throwing.ends c).2.m_pendingCallbacks.find ckKey = none

variable {throwing : Throwing} {p : Platform} {c t : Consumer} {ckKey : Name}
  {callbacks : Callbacks} {tasks rest : List PendingTask} {task : PendingTask}
  {Q : Except Exn Unit → Consumer → Prop}

theorem newInvocations_append {calls : List Invocation} (h : t.invoked = c.invoked ++ calls) :
    newInvocations c t = calls := by
  rw [newInvocations, h, List.drop_left]

/-! ## One report -/

/-- The rule for a success callback that ends as it is told. -/
theorem wp_invokeSuccess_iff (result : Bytes) :
    (invokeSuccess callbacks result).wp (Prog.answering Consumer throwing.ends) Q c ↔
      if callbacks.hasSuccess then
        Q (Prog.ended (throwing.onSuccess callbacks.id))
          { c with invoked := c.invoked ++ [.success callbacks.id result] }
      else Q (.error .badFunctionCall) c := by
  unfold invokeSuccess
  split
  · simp only [Prog.wp_bind, Prog.wp_modify, Prog.andThen_ok, Prog.wp_answering_callOut,
      Throwing.ends]
  · rfl

/-- The rule for an error callback that ends as it is told. -/
theorem wp_invokeError_iff (what : String) :
    (invokeError callbacks what).wp (Prog.answering Consumer throwing.ends) Q c ↔
      if callbacks.hasError then
        Q (Prog.ended (throwing.onError callbacks.id))
          { c with invoked := c.invoked ++ [.error callbacks.id what] }
      else Q (.error .badFunctionCall) c := by
  unfold invokeError
  split
  · simp only [Prog.wp_bind, Prog.wp_modify, Prog.andThen_ok, Prog.wp_answering_callOut,
      Throwing.ends]
  · rfl

variable {cipherText : CipherText} {result : Except String Bytes} {st : AbeSupport}

/-- **A report that throws nothing** invokes one callback. -/
theorem wp_decryptAndReport_of_tells (hresult : decryption p cipherText c = (result, st))
    (htells : throwing.Tells callbacks result)
    (h : Q (.ok ()) (reported (callbacks.told result) st c)) :
    (decryptAndReport p cipherText callbacks).wp (Prog.answering Consumer throwing.ends) Q c := by
  refine wp_decryptAndReport_of_report hresult ?_ ?_
  · rintro plain rfl
    rw [wp_invokeSuccess_iff]
    simp only [Throwing.Tells] at htells
    rw [Callbacks.told] at h
    split at htells
    · next hsuccess =>
      rw [if_pos hsuccess] at h ⊢
      rw [htells]
      exact h
    · next hsuccess =>
      have hstd : Exn.badFunctionCall.isStd = true := rfl
      rw [if_neg hsuccess] at h ⊢
      rw [Prog.orElse_error, reportException, if_pos hstd, wp_invokeError_iff, if_pos htells.1,
        htells.2]
      exact h
  · rintro what rfl
    rw [wp_invokeError_iff, wp_invokeError_iff, if_pos htells.1, if_pos htells.1, htells.2]
    exact ⟨h, h⟩

/-- Between `c` and `u` a call was told errors, or nothing. -/
def ToldErrors (callbacks : Callbacks) (c u : Consumer) : Prop :=
  u.m_pendingCallbacks = c.m_pendingCallbacks ∧
    ∃ calls, u.invoked = c.invoked ++ calls ∧
      ∀ call ∈ calls, ∃ what, call = .error callbacks.id what

/-- Errors told in sequence. -/
theorem ToldErrors.trans {u : Consumer} (h : ToldErrors callbacks c t)
    (h' : ToldErrors callbacks t u) : ToldErrors callbacks c u := by
  obtain ⟨hpending, calls, hcalls, herrors⟩ := h
  obtain ⟨hpending', calls', hcalls', herrors'⟩ := h'
  refine ⟨hpending'.trans hpending, calls ++ calls', ?_, ?_⟩
  · rw [hcalls', hcalls, List.append_assoc]
  · intro call hcall
    rcases List.mem_append.mp hcall with hmem | hmem
    · exact herrors call hmem
    · exact herrors' call hmem

theorem ToldErrors.not_both {calls : List Invocation}
    (h : ∀ call ∈ calls, ∃ what, call = .error callbacks.id what) (id : ℕ) :
    ¬ BothInvoked calls id := by
  rintro ⟨⟨result, hmem⟩, -⟩
  obtain ⟨what, heq⟩ := h _ hmem
  cases heq

/-- A report has left the handler by an exception. -/
structure Escaped (throwing : Throwing) (callbacks : Callbacks) (result : Except String Bytes)
    (c u : Consumer) : Prop where
  pending : u.m_pendingCallbacks = c.m_pendingCallbacks
  both_iff : (∃ id, BothInvoked (newInvocations c u) id) ↔ throwing.Doubles callbacks result

theorem ToldErrors.escaped {u : Consumer} (h : ToldErrors callbacks c u)
    (hnot : ¬ throwing.Doubles callbacks result) : Escaped throwing callbacks result c u := by
  obtain ⟨hpending, calls, hcalls, herrors⟩ := h
  refine ⟨hpending, iff_of_false ?_ hnot⟩
  rintro ⟨id, hboth⟩
  rw [newInvocations_append hcalls] at hboth
  exact ToldErrors.not_both herrors id hboth

/-- The call was told both. -/
theorem Escaped.doubled {u : Consumer} (hpending : u.m_pendingCallbacks = c.m_pendingCallbacks)
    (hdoubles : throwing.Doubles callbacks result) {plain : Bytes} {what : String}
    (hinvoked : u.invoked = c.invoked ++
      [.success callbacks.id plain, .error callbacks.id what]) :
    Escaped throwing callbacks result c u := by
  refine ⟨hpending, iff_of_true ⟨callbacks.id, ?_⟩ hdoubles⟩
  rw [newInvocations_append hinvoked]
  exact ⟨⟨plain, List.mem_cons_self⟩, what, List.mem_cons_of_mem _ List.mem_cons_self⟩

/-- The call was told its result and has no error callback. -/
theorem Escaped.succeeded {u : Consumer} (hpending : u.m_pendingCallbacks = c.m_pendingCallbacks)
    (hnot : ¬ throwing.Doubles callbacks result) {plain : Bytes}
    (hinvoked : u.invoked = c.invoked ++ [.success callbacks.id plain]) :
    Escaped throwing callbacks result c u := by
  refine ⟨hpending, iff_of_false ?_ hnot⟩
  rintro ⟨id, -, what, hmem⟩
  rw [newInvocations_append hinvoked, List.mem_singleton] at hmem
  cases hmem

/-- The error callback of a call that does not take it: an exception, and nothing else. -/
theorem wp_invokeError_escapes {what : String}
    (h : ¬ (callbacks.hasError = true ∧ throwing.onError callbacks.id = none))
    (hescape : ∀ e u, e.isStd = true → ToldErrors callbacks c u → Q (.error e) u) :
    (invokeError callbacks what).wp (Prog.answering Consumer throwing.ends) Q c := by
  rw [wp_invokeError_iff]
  split
  · next hset =>
    cases hthrows : throwing.onError callbacks.id with
    | none => exact absurd ⟨hset, hthrows⟩ h
    | some e =>
      apply hescape e _ (throwing.std_onError hthrows)
      exact ⟨rfl, _, rfl, fun call hcall => ⟨what, List.mem_singleton.mp hcall⟩⟩
  · apply hescape .badFunctionCall _ rfl
    exact ⟨rfl, [], (List.append_nil _).symm, nofun⟩

/-- **A report that throws something** tells the call both, or leaves the handler. -/
theorem wp_decryptAndReport_of_not_tells (hresult : decryption p cipherText c = (result, st))
    (htells : ¬ throwing.Tells callbacks result)
    (hboth : throwing.Doubles callbacks result → ∀ plain what, Q (.ok ()) { c with
      abeSupport := st
      invoked := c.invoked ++ [.success callbacks.id plain, .error callbacks.id what] })
    (hescape : ∀ e u, Escaped throwing callbacks result c u → Q (.error e) u) :
    (decryptAndReport p cipherText callbacks).wp (Prog.answering Consumer throwing.ends) Q c := by
  refine wp_decryptAndReport_of_report hresult ?_ ?_
  · rintro plain rfl
    simp only [Throwing.Tells] at htells
    rw [wp_invokeSuccess_iff]
    split at htells
    · next hsuccess =>
      rw [if_pos hsuccess]
      cases hthrows : throwing.onSuccess callbacks.id with
      | none => exact absurd hthrows htells
      | some e =>
        have hstd : e.isStd = true := throwing.std_onSuccess hthrows
        rw [Prog.ended, Prog.orElse_error, reportException, if_pos hstd, wp_invokeError_iff]
        split
        · next herror =>
          have hdoubles : throwing.Doubles callbacks (.ok plain) :=
            ⟨hsuccess, hthrows ▸ Option.some_ne_none e, herror⟩
          cases throwing.onError callbacks.id with
          | none => simpa [Prog.ended] using hboth hdoubles plain e.what
          | some e' => exact hescape e' _ (.doubled rfl hdoubles (List.append_assoc _ _ _))
        · next herror =>
          exact hescape _ _ (.succeeded rfl (fun hdoubles => herror hdoubles.2.2) rfl)
    · next hsuccess =>
      have hstd : Exn.badFunctionCall.isStd = true := rfl
      rw [if_neg hsuccess, Prog.orElse_error, reportException, if_pos hstd]
      refine wp_invokeError_escapes htells fun e u _ hu => hescape e u ?_
      exact ToldErrors.escaped (c := c) hu fun hdoubles => hsuccess hdoubles.1
  · rintro what rfl
    have hescaped : ∀ e u, ToldErrors callbacks c u → Q (.error e) u := fun e u hu =>
      hescape e u (hu.escaped id)
    refine ⟨wp_invokeError_escapes htells fun e u _ hu => hescaped e u hu, ?_⟩
    -- The type is not supported: the `catch` calls the callback again that has just thrown.
    refine wp_invokeError_escapes htells fun e u hstd hu => ?_
    rw [Prog.orElse_error, reportException, if_pos hstd]
    exact wp_invokeError_escapes htells fun e' u' _ hu' => hescaped e' u' (hu.trans hu')

/-! ## The loop when nobody throws -/

/-- Before each round of the loop: the tasks up to `rest` have been told. -/
structure TellingAll (p : Platform) (ckKey : Name) (encAesKey : Bytes) (tasks : List PendingTask)
    (c : Consumer) (rest : List PendingTask) (t : Consumer) : Prop where
  pending : t.m_pendingCallbacks.find ckKey = some tasks
  same : ∀ other, (decryption p other t).1 = (decryption p other c).1
  told : t.invoked ++ rest.map (fun task => task.callbacks.told (resultFor p encAesKey c task)) =
    c.invoked ++ tasks.map fun task => task.callbacks.told (resultFor p encAesKey c task)

variable {encAesKey contentBuffer : Bytes}

/-- A fetch brings a key and every waiter takes its report. -/
theorem execWith_onCkComplete_of_tells (hkey : CarriesKey contentBuffer encAesKey)
    (hfind : c.m_pendingCallbacks.find ckKey = some tasks)
    (htells : ∀ task ∈ tasks, throwing.Tells task.callbacks (resultFor p encAesKey c task)) :
    let t := ((onCkComplete p ckKey contentBuffer).execWith throwing.ends c).2
    t.invoked = c.invoked ++
        tasks.map (fun task => task.callbacks.told (resultFor p encAesKey c task)) ∧
      ckKey ∉ t.m_ckInterestsSent ∧ t.m_pendingCallbacks.find ckKey = none := by
  have hwp : (onCkComplete p ckKey contentBuffer).wp (Prog.answering Consumer throwing.ends)
      (fun _ t => t.invoked = c.invoked ++
          tasks.map (fun task => task.callbacks.told (resultFor p encAesKey c task)) ∧
        ckKey ∉ t.m_ckInterestsSent ∧ t.m_pendingCallbacks.find ckKey = none) c := by
    refine wp_onCkComplete_of_rounds hkey (TellingAll p ckKey encAesKey tasks c)
      (fun h => h.pending) ?_ ?_ ⟨hfind, fun _ => rfl, rfl⟩
    · intro task rest t hsuffix ht
      have hresult : (decryption p { task.cipher with m_contentKey := ⟨[], encAesKey⟩ } t).1 =
          resultFor p encAesKey c task := ht.same _
      apply wp_decryptAndReport_of_tells (Prod.mk.eta (p := decryption p _ t)).symm
      · rw [hresult]
        exact htells task (hsuffix.subset List.mem_cons_self)
      · refine ⟨ht.pending, ?_, ?_⟩
        · intro other
          exact (decryption_stable p _ other t).trans (ht.same other)
        · have htold := ht.told
          rw [List.map_cons] at htold
          rw [hresult, reported, List.append_assoc]
          exact htold
    · intro t ht
      have htold := ht.told
      rw [List.map_nil, List.append_nil] at htold
      exact ⟨htold, Finset.notMem_erase ckKey t.m_ckInterestsSent,
        by simp [eraseSent, erasePending]⟩
  exact (Prog.wp_answering_iff _ _ _ _).mp hwp

/-! ## The loop when somebody throws -/

theorem BothInvoked.append {calls calls' : List Invocation} {id : ℕ} (h : BothInvoked calls id) :
    BothInvoked (calls ++ calls') id := by
  obtain ⟨⟨plain, hsuccess⟩, what, herror⟩ := h
  exact ⟨⟨plain, List.mem_append_left _ hsuccess⟩, what, List.mem_append_left _ herror⟩

/-- Before each round of the loop: a call was told both, or one that throws remains. -/
structure TellingSome (throwing : Throwing) (p : Platform) (ckKey : Name) (encAesKey : Bytes)
    (tasks : List PendingTask) (c : Consumer) (rest : List PendingTask) (t : Consumer) : Prop where
  pending : t.m_pendingCallbacks.find ckKey = some tasks
  same : ∀ other, (decryption p other t).1 = (decryption p other c).1
  failed : ∃ calls, t.invoked = c.invoked ++ calls ∧ ((∃ id, BothInvoked calls id) ∨
    ∃ task ∈ rest, ¬ throwing.Tells task.callbacks (resultFor p encAesKey c task))

/-- The task at the head took its report: the one that throws is another. -/
theorem TellingSome.tell (h : TellingSome throwing p ckKey encAesKey tasks c (task :: rest) t)
    (htells : throwing.Tells task.callbacks (resultFor p encAesKey c task)) (call : Invocation)
    (hsame : ∀ other, (decryption p other { t with abeSupport := st }).1 =
      (decryption p other t).1) :
    TellingSome throwing p ckKey encAesKey tasks c rest (reported call st t) := by
  obtain ⟨calls, hcalls, hfailed⟩ := h.failed
  refine ⟨h.pending, fun other => (hsame other).trans (h.same other), calls ++ [call], ?_, ?_⟩
  · rw [reported, hcalls, List.append_assoc]
  · rcases hfailed with ⟨id, hboth⟩ | ⟨other, hmem, hother⟩
    · exact Or.inl ⟨id, hboth.append⟩
    · rcases List.mem_cons.mp hmem with rfl | hrest
      · exact absurd htells hother
      · exact Or.inr ⟨other, hrest, hother⟩

/-- A fetch brings a key and some waiter throws: somebody was told both, or the waiters are
still there. -/
theorem execWith_onCkComplete_of_not_tells (hkey : CarriesKey contentBuffer encAesKey)
    (hfind : c.m_pendingCallbacks.find ckKey = some tasks)
    (hthrows : ∃ task ∈ tasks,
      ¬ throwing.Tells task.callbacks (resultFor p encAesKey c task)) :
    let t := ((onCkComplete p ckKey contentBuffer).execWith throwing.ends c).2
    (∃ id, BothInvoked (newInvocations c t) id) ∨ t.m_pendingCallbacks.find ckKey ≠ none := by
  have hwp : (onCkComplete p ckKey contentBuffer).wp (Prog.answering Consumer throwing.ends)
      (fun _ t => (∃ id, BothInvoked (newInvocations c t) id) ∨
        t.m_pendingCallbacks.find ckKey ≠ none) c := by
    refine wp_onCkComplete_of_rounds hkey (TellingSome throwing p ckKey encAesKey tasks c)
      (fun h => h.pending) ?_ ?_
      ⟨hfind, fun _ => rfl, [], (List.append_nil _).symm, Or.inr hthrows⟩
    · intro task rest t _ ht
      have hresult : (decryption p { task.cipher with m_contentKey := ⟨[], encAesKey⟩ } t).1 =
          resultFor p encAesKey c task := ht.same _
      have hsame : ∀ other, (decryption p other { t with abeSupport :=
          (decryption p { task.cipher with m_contentKey := ⟨[], encAesKey⟩ } t).2 }).1 =
          (decryption p other t).1 := fun other => decryption_stable p _ other t
      by_cases htells : throwing.Tells task.callbacks (resultFor p encAesKey c task)
      · apply wp_decryptAndReport_of_tells (Prod.mk.eta (p := decryption p _ t)).symm
        · rw [hresult]
          exact htells
        · exact ht.tell htells _ hsame
      · apply wp_decryptAndReport_of_not_tells (Prod.mk.eta (p := decryption p _ t)).symm
        · rw [hresult]
          exact htells
        · intro _ plain what
          obtain ⟨calls, hcalls, -⟩ := ht.failed
          refine ⟨ht.pending, fun other => (hsame other).trans (ht.same other), _,
            by rw [hcalls, List.append_assoc], Or.inl ⟨task.callbacks.id, ?_, ?_⟩⟩
          · exact ⟨plain, List.mem_append_right _ List.mem_cons_self⟩
          · exact ⟨what, List.mem_append_right _ (List.mem_cons_of_mem _ List.mem_cons_self)⟩
        · intro e u hu
          refine Or.inr ?_
          rw [hu.pending, ht.pending]
          exact nofun
    · intro t ht
      obtain ⟨calls, hcalls, hboth | ⟨_, hmem, -⟩⟩ := ht.failed
      · refine Or.inl ?_
        rwa [newInvocations_append (show (eraseSent ckKey (erasePending ckKey t)).invoked = _
          from hcalls)]
      · cases hmem
  exact (Prog.wp_answering_iff _ _ _ _).mp hwp

/-! ## The fetch that fails -/

/-- A waiter takes the error of the fetch, or has no callback for it. -/
def TakesError (throwing : Throwing) (task : PendingTask) : Prop :=
  task.callbacks.hasError = true → throwing.onError task.callbacks.id = none

/-- What a failed fetch tells the waiters. -/
def errorsFor (errorMsg : String) (tasks : List PendingTask) : List Invocation :=
  (tasks.filter fun task => task.callbacks.hasError).map fun task =>
    .error task.callbacks.id errorMsg

/-- The rule for telling a waiting task an error. -/
theorem wp_tellError_iff (errorMsg : String) :
    (tellError errorMsg task).wp (Prog.answering Consumer throwing.ends) Q c ↔
      if task.callbacks.hasError then
        Q (Prog.ended (throwing.onError task.callbacks.id))
          { c with invoked := c.invoked ++ [.error task.callbacks.id errorMsg] }
      else Q (.ok ()) c := by
  unfold tellError
  split
  · next hset => rw [wp_invokeError_iff, if_pos hset]
  · rfl

/-- A fetch fails and every waiter takes the error. -/
theorem execWith_onCkError_of_takes (errorMsg : String)
    (hfind : c.m_pendingCallbacks.find ckKey = some tasks)
    (htakes : ∀ task ∈ tasks, TakesError throwing task) :
    let t := ((onCkError p ckKey errorMsg).execWith throwing.ends c).2
    t.invoked = c.invoked ++ errorsFor errorMsg tasks ∧
      ckKey ∉ t.m_ckInterestsSent ∧ t.m_pendingCallbacks.find ckKey = none := by
  have hwp : (onCkError p ckKey errorMsg).wp (Prog.answering Consumer throwing.ends)
      (fun _ t => t.invoked = c.invoked ++ errorsFor errorMsg tasks ∧
        ckKey ∉ t.m_ckInterestsSent ∧ t.m_pendingCallbacks.find ckKey = none) c := by
    refine wp_onCkError_of_rounds (fun rest t => t.m_pendingCallbacks.find ckKey = some tasks ∧
      t.invoked ++ errorsFor errorMsg rest = c.invoked ++ errorsFor errorMsg tasks)
      (fun h => h.1) ?_ ?_ ⟨hfind, rfl⟩
    · rintro task rest t hsuffix ⟨hpending, htold⟩
      rw [wp_tellError_iff]
      split
      · next hset =>
        rw [htakes task (hsuffix.subset List.mem_cons_self) hset]
        refine ⟨hpending, ?_⟩
        rw [← htold]
        simp [errorsFor, hset]
      · next hset =>
        refine ⟨hpending, ?_⟩
        rw [← htold]
        simp [errorsFor, hset]
    · rintro t ⟨-, htold⟩
      rw [errorsFor, List.filter_nil, List.map_nil, List.append_nil] at htold
      exact ⟨htold, Finset.notMem_erase ckKey t.m_ckInterestsSent,
        by simp [eraseSent, erasePending]⟩
  exact (Prog.wp_answering_iff _ _ _ _).mp hwp

/-- A fetch fails and some waiter throws: the waiters are still there. -/
theorem execWith_onCkError_of_not_takes {errorMsg : String}
    (hfind : c.m_pendingCallbacks.find ckKey = some tasks)
    (hthrows : ∃ task ∈ tasks, ¬ TakesError throwing task) :
    ((onCkError p ckKey errorMsg).execWith throwing.ends c).2.m_pendingCallbacks.find ckKey ≠
      none := by
  have hwp : (onCkError p ckKey errorMsg).wp (Prog.answering Consumer throwing.ends)
      (fun _ t => t.m_pendingCallbacks.find ckKey ≠ none) c := by
    refine wp_onCkError_of_rounds (fun rest t => t.m_pendingCallbacks.find ckKey = some tasks ∧
      ∃ task ∈ rest, ¬ TakesError throwing task) (fun h => h.1) ?_ ?_ ⟨hfind, hthrows⟩
    · rintro task rest t _ ⟨hpending, other, hmem, hother⟩
      have hkept : t.m_pendingCallbacks.find ckKey ≠ none := by
        rw [hpending]
        exact nofun
      rw [wp_tellError_iff]
      by_cases htakes : TakesError throwing task
      · have hrest : ∃ other ∈ rest, ¬ TakesError throwing other := by
          rcases List.mem_cons.mp hmem with rfl | hrest
          · exact absurd htakes hother
          · exact ⟨other, hrest, hother⟩
        split
        · next hset =>
          rw [htakes hset]
          exact ⟨hpending, hrest⟩
        · exact ⟨hpending, hrest⟩
      · rw [TakesError, Classical.not_imp] at htakes
        rw [if_pos htakes.1]
        cases hthrows : throwing.onError task.callbacks.id with
        | none => exact absurd hthrows htakes.2
        | some e => exact hkept
    · rintro t ⟨-, _, hmem, -⟩
      cases hmem
  exact (Prog.wp_answering_iff _ _ _ _).mp hwp

/-! ## Isolation, exactly -/

theorem exec_eq_execWith_nobody (handler : ConsumerM Unit) (c : Consumer) :
    handler.exec c = handler.execWith Throwing.nobody.ends c := by
  rw [Throwing.ends_nobody, Prog.execWith_none]

/-- What a call takes from callbacks that throw, it takes from callbacks that do not. -/
theorem Throwing.Tells.nobody (h : throwing.Tells callbacks result) :
    Throwing.nobody.Tells callbacks result := by
  cases result with
  | ok plain =>
    simp only [Throwing.Tells] at h ⊢
    split at h
    · next hsuccess =>
      rw [if_pos hsuccess]
      rfl
    · next hsuccess =>
      rw [if_neg hsuccess]
      exact ⟨h.1, rfl⟩
  | error what => exact ⟨h.1, rfl⟩

theorem Throwing.Tells.not_doubles (h : throwing.Tells callbacks result) :
    ¬ throwing.Doubles callbacks result := by
  cases result with
  | ok plain =>
    rintro ⟨hsuccess, hthrows, -⟩
    simp only [Throwing.Tells] at h
    rw [if_pos hsuccess] at h
    exact hthrows h
  | error what => exact id

/-- Of one invocation for each of different calls, no two are for the same. -/
theorem not_both_of_nodup {calls : List Invocation} (h : (calls.map Invocation.id).Nodup)
    (id : ℕ) : ¬ BothInvoked calls id := by
  rintro ⟨⟨plain, hsuccess⟩, what, herror⟩
  have heq := List.inj_on_of_nodup_map h hsuccess herror rfl
  cases heq

/-- A completed fetch isolates its waiters exactly when each takes its result. -/
theorem isolated_onCkComplete_iff (hkey : CarriesKey contentBuffer encAesKey)
    (hfind : c.m_pendingCallbacks.find ckKey = some tasks) (hnodup : (callsOf tasks).Nodup) :
    WaitersIsolated throwing (onCkComplete p ckKey contentBuffer) ckKey c ↔
      ∀ task ∈ tasks, throwing.Tells task.callbacks (resultFor p encAesKey c task) := by
  constructor
  · intro hisolated
    by_contra hthrows
    push Not at hthrows
    have hfailed := execWith_onCkComplete_of_not_tells (p := p) hkey hfind hthrows
    rcases hfailed with ⟨id, hboth⟩ | hkept
    · exact hisolated.single id hboth
    · exact hkept hisolated.forgotten
  · intro htells
    obtain ⟨hinvoked, hunmarked, hforgotten⟩ :=
      execWith_onCkComplete_of_tells (p := p) hkey hfind htells
    obtain ⟨hsilent, -, -⟩ := execWith_onCkComplete_of_tells (p := p) hkey hfind
      fun task htask => (htells task htask).nobody
    refine ⟨?_, ?_, hunmarked, hforgotten⟩
    · intro id
      rw [newInvocations_append hinvoked]
      apply not_both_of_nodup
      simpa [callsOf, Function.comp_def] using hnodup
    · intro task _ _ _
      rw [exec_eq_execWith_nobody, newInvocations_append hinvoked, newInvocations_append hsilent]

/-- A failed fetch isolates its waiters exactly when each takes its error. -/
theorem isolated_onCkError_iff {errorMsg : String}
    (hfind : c.m_pendingCallbacks.find ckKey = some tasks) :
    WaitersIsolated throwing (onCkError p ckKey errorMsg) ckKey c ↔
      ∀ task ∈ tasks, TakesError throwing task := by
  constructor
  · intro hisolated
    by_contra hthrows
    push Not at hthrows
    exact execWith_onCkError_of_not_takes (p := p) hfind hthrows hisolated.forgotten
  · intro htakes
    obtain ⟨hinvoked, hunmarked, hforgotten⟩ :=
      execWith_onCkError_of_takes (p := p) errorMsg hfind htakes
    have hnobody : ∀ task ∈ tasks, TakesError Throwing.nobody task := fun _ _ _ => rfl
    obtain ⟨hsilent, -, -⟩ := execWith_onCkError_of_takes (p := p) errorMsg hfind hnobody
    refine ⟨?_, ?_, hunmarked, hforgotten⟩
    · rintro id ⟨⟨plain, hmem⟩, -⟩
      rw [newInvocations_append hinvoked, errorsFor] at hmem
      obtain ⟨task, -, heq⟩ := List.mem_map.mp hmem
      cases heq
    · intro task _ _ _
      rw [exec_eq_execWith_nobody, newInvocations_append hinvoked, newInvocations_append hsilent]

/-- A call that is answered from the cache is told both exactly when its success callback
throws and it has an error callback. -/
theorem both_of_cached_iff {content : Block} {ckName : Name}
    (hparse : parseContent content = .ok (cipherText, ckName))
    (hcached : c.m_ckEncAesCache.find (normalizeCkKey ckName) = some encAesKey) :
    (∃ id, BothInvoked (newInvocations c
      ((decryptContent p content callbacks).execWith throwing.ends c).2) id) ↔
      throwing.Doubles callbacks
        (decryption p { cipherText with m_contentKey := ⟨[], encAesKey⟩ } c).1 := by
  have hwp : (decryptContent p content callbacks).wp (Prog.answering Consumer throwing.ends)
      (fun _ t => (∃ id, BothInvoked (newInvocations c t) id) ↔ throwing.Doubles callbacks
        (decryption p { cipherText with m_contentKey := ⟨[], encAesKey⟩ } c).1) c := by
    simp only [decryptContent, Prog.wp_bind, Prog.wp_liftM, hparse, Prog.andThen_ok, Prog.wp_modify,
      Prog.wp_get, hcached]
    have hresult := (Prod.mk.eta (p := decryption p
      { cipherText with m_contentKey := ⟨[], encAesKey⟩ } (accept callbacks.id c))).symm
    by_cases htells : throwing.Tells callbacks
        (decryption p { cipherText with m_contentKey := ⟨[], encAesKey⟩ } c).1
    · apply wp_decryptAndReport_of_tells hresult htells
      refine iff_of_false ?_ htells.not_doubles
      rintro ⟨id, hboth⟩
      rw [newInvocations_append (c := c) rfl] at hboth
      exact not_both_of_nodup (by simp) id hboth
    · apply wp_decryptAndReport_of_not_tells hresult htells
      · intro hdoubles plain what
        have hescaped : Escaped throwing callbacks _ c { accept callbacks.id c with
            abeSupport := (decryption p
              { cipherText with m_contentKey := ⟨[], encAesKey⟩ } (accept callbacks.id c)).2
            invoked := c.invoked ++
              [.success callbacks.id plain, .error callbacks.id what] } :=
          .doubled rfl hdoubles rfl
        exact hescaped.both_iff
      · intro e u hu
        exact hu.both_iff
  exact (Prog.wp_answering_iff _ _ _ _).mp hwp

/-- **Isolation of the waiters.**  In a consumer that any run has left idle, whichever
callbacks throw a `std::exception`: a completion with a key keeps the waiters apart exactly
when every waiter takes its report, an error exactly when every waiter takes the error.  A call
answered from the cache is told both exactly when its success callback throws and it has an
error callback. -/
theorem waiters_isolated_iff (p : Platform) (identityCert attrAuthorityCertificate : Certificate)
    (template : Interest) (throwing : Throwing) (c : Consumer)
    (h : (Consumer.system p).Reaches (fun _ _ => True)
      ⟨Consumer.initial identityCert attrAuthorityCertificate template, []⟩ ⟨c, []⟩) :
    (∀ ckKey ∈ c.ckFetches,
      (∀ contentBuffer encAesKey, CarriesKey contentBuffer encAesKey →
        (WaitersIsolated throwing (onCkComplete p ckKey contentBuffer) ckKey c ↔
          ∀ task ∈ c.tasksUnder ckKey,
            throwing.Tells task.callbacks (resultFor p encAesKey c task))) ∧
      ∀ errorMsg, WaitersIsolated throwing (onCkError p ckKey errorMsg) ckKey c ↔
        ∀ task ∈ c.tasksUnder ckKey, TakesError throwing task) ∧
    ∀ (d : Consumer) content cipherText ckName encAesKey callbacks,
      parseContent content = .ok (cipherText, ckName) →
      d.m_ckEncAesCache.find (normalizeCkKey ckName) = some encAesKey →
      ((∀ id, ¬ BothInvoked (newInvocations d
        ((decryptContent p content callbacks).execWith throwing.ends d).2) id) ↔
        ¬ throwing.Doubles callbacks
          (decryption p { cipherText with m_contentKey := ⟨[], encAesKey⟩ } d).1) := by
  have hinitial : System.Good flightContract [] (Consumer.initial identityCert
      attrAuthorityCertificate template) :=
    flight_initial identityCert attrAuthorityCertificate template
  have hflight : Flight c := (flight_of_reaches p hinitial h).inv
  constructor
  · intro ckKey hfetch
    obtain ⟨first, others, hfind⟩ := hflight.awaited ckKey hfetch
    have htasks : c.tasksUnder ckKey = first :: others := by
      rw [tasksUnder, hfind, Option.getD_some]
    have hnodup := nodup_waiters_of_reaches p identityCert attrAuthorityCertificate template h ckKey
    rw [htasks] at hnodup ⊢
    exact ⟨fun contentBuffer encAesKey hkey => isolated_onCkComplete_iff hkey hfind hnodup,
      fun errorMsg => isolated_onCkError_iff hfind⟩
  · intro d content cipherText ckName encAesKey callbacks hparse hcached
    rw [← not_exists, not_iff_not]
    exact both_of_cached_iff hparse hcached

/-- Every callback throws. -/
def everybodyThrows : Throwing :=
  ⟨fun _ => some (.other "no"), fun _ => some (.other "no"),
    by rintro _ _ ⟨⟩; rfl, by rintro _ _ ⟨⟩; rfl⟩

/-- The consumer that waits with one task, whose callbacks throw: a key and a nack. -/
theorem waiters_isolated_iff_of_waiting :
    (WaitersIsolated everybodyThrows (onCkComplete mockPlatform ckName ckBlock.encode) ckName
        waitingConsumer ↔
      ∀ task ∈ waitingConsumer.tasksUnder ckName, everybodyThrows.Tells task.callbacks
        (resultFor mockPlatform (MockAbe.enclose (ascii "x") [4] ++ [0]) waitingConsumer task)) ∧
    (WaitersIsolated everybodyThrows (onCkError mockPlatform ckName "Nack") ckName
        waitingConsumer ↔
      ∀ task ∈ waitingConsumer.tasksUnder ckName, TakesError everybodyThrows task) := by
  have hisolated := (waiters_isolated_iff mockPlatform (.sample (ascii "c") [9])
    (.sample (ascii "a") [8]) ParamFetcher.defaultInterestTemplate everybodyThrows waitingConsumer
    (reaches_waitingConsumer (fun _ => trivial) (fun _ => trivial) (fun _ => trivial) trivial)).1
    ckName List.mem_cons_self
  exact ⟨hisolated.1 _ _ carriesKey_ckBlock, hisolated.2 "Nack"⟩

/-- Its fetch ends, with a key or an error, and the waiting call throws: neither handler keeps
what it should. -/
theorem waiters_not_isolated :
    (¬ ∀ (throwing : Throwing) (c : Consumer), (Consumer.system mockPlatform).Reaches
      (fun _ _ => True) ⟨fresh, []⟩ ⟨c, []⟩ → ∀ ckKey ∈ c.ckFetches,
        ∀ contentBuffer encAesKey, CarriesKey contentBuffer encAesKey →
        WaitersIsolated throwing (onCkComplete mockPlatform ckKey contentBuffer) ckKey c) ∧
    ¬ ∀ (throwing : Throwing) (c : Consumer), (Consumer.system mockPlatform).Reaches
      (fun _ _ => True) ⟨fresh, []⟩ ⟨c, []⟩ → ∀ ckKey ∈ c.ckFetches, ∀ errorMsg,
        WaitersIsolated throwing (onCkError mockPlatform ckKey errorMsg) ckKey c := by
  have hreaches : (Consumer.system mockPlatform).Reaches (fun _ _ => True) ⟨fresh, []⟩
      ⟨waitingConsumer, []⟩ :=
    reaches_waitingConsumer (fun _ => trivial) (fun _ => trivial) (fun _ => trivial) trivial
  have hfind : waitingConsumer.m_pendingCallbacks.find ckName =
      some [⟨cipherText, ⟨0, true, true⟩⟩] := rfl
  constructor
  · intro h
    have hisolated := h everybodyThrows waitingConsumer hreaches ckName List.mem_cons_self _ _
      carriesKey_ckBlock
    have hnodup : (callsOf [⟨cipherText, ⟨0, true, true⟩⟩]).Nodup := List.nodup_singleton 0
    have htells := (isolated_onCkComplete_iff carriesKey_ckBlock hfind hnodup).mp hisolated _
      List.mem_cons_self
    cases hresult : resultFor mockPlatform (MockAbe.enclose (ascii "x") [4] ++ [0])
        waitingConsumer ⟨cipherText, ⟨0, true, true⟩⟩ with
    | ok plain =>
      rw [hresult] at htells
      cases htells
    | error what =>
      rw [hresult] at htells
      cases htells.2
  · intro h
    have hisolated := h everybodyThrows waitingConsumer hreaches ckName List.mem_cons_self "Nack"
    have htakes := (isolated_onCkError_iff hfind).mp hisolated _ List.mem_cons_self
    cases htakes rfl

end NacAbe.Analysis
