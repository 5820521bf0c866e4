import NacAbe.Analysis.SingleFlight
import NacAbe.Interface.ConsumerReports

/-!
# Accounting of the calls of `consume`

A call that is accepted is answered, waits under a name that is being fetched, or is
*owed*: the handler that is running has still to tell it.  `Ledger` is what holds of
the numbers of the calls whenever the application has control; `KeepsLedger` bounds
what the application may do meanwhile, and says that what is owed stays owed; `Quiet`
is a ledger with nothing owed.

The changes a consumer makes are few: a fresh call is answered or enters a queue, an
ended fetch makes its queue owed, and a handler pays.
-/

set_option autoImplicit false

namespace NacAbe.Consumer

open Analysis

/-- The calls that have been answered, in order. -/
def replied (c : Consumer) : List ℕ := c.invoked.map Invocation.id

def tasksUnder (c : Consumer) (ckKey : Name) : List PendingTask :=
  (c.m_pendingCallbacks.find ckKey).getD []

/-- The call waits under a name that is being fetched. -/
def Queued (c : Consumer) (id : ℕ) : Prop := ∃ k ∈ c.ckFetches, id ∈ callsOf (c.tasksUnder k)

/-- The call waits for the handler that is running. -/
def Owed (c : Consumer) (id : ℕ) : Prop := id ∈ c.accepted ∧ id ∉ c.replied ∧ ¬ c.Queued id

/-- A call that has been made and neither accepted nor left to a data fetch. -/
structure Fresh (c : Consumer) (id : ℕ) : Prop where
  made : id < c.nextCall
  unaccepted : id ∉ c.accepted
  unfetched : ∀ f ∈ c.dataFetches, f.2.id ≠ id

/-- What holds of the calls whenever the application has control. -/
structure Ledger (c : Consumer) : Prop where
  flight : Flight c
  made : ∀ id ∈ c.accepted, id < c.nextCall
  accepted : ∀ id ∈ c.replied, id ∈ c.accepted
  once : c.replied.Nodup
  set : ∀ k ∈ c.ckFetches, ∀ task ∈ c.tasksUnder k, task.callbacks.Set
  unanswered : ∀ k ∈ c.ckFetches, ∀ id ∈ callsOf (c.tasksUnder k),
    id ∈ c.accepted ∧ id ∉ c.replied
  distinct : ∀ k ∈ c.ckFetches, (callsOf (c.tasksUnder k)).Nodup
  apart : ∀ k ∈ c.ckFetches, ∀ k' ∈ c.ckFetches, ∀ id ∈ callsOf (c.tasksUnder k),
    id ∈ callsOf (c.tasksUnder k') → k = k'
  dataFetch : ∀ f ∈ c.dataFetches, f.2.Set ∧ f.2.id < c.nextCall ∧ f.2.id ∉ c.accepted
  dataOnce : (c.dataFetches.map fun f => f.2.id).Nodup

/-- What the application may do while it has control: calls that are owed stay so and
no others become it; a name whose handler runs keeps its mark and its tasks and gets no
fetch. -/
structure KeepsLedger (c t : Consumer) : Prop where
  owed : ∀ id, t.Owed id ↔ c.Owed id
  marked : c.m_ckInterestsSent ⊆ t.m_ckInterestsSent
  fetching : c.ckFetches ⊆ t.ckFetches
  handled : ∀ k ∈ c.m_ckInterestsSent, k ∉ c.ckFetches →
    k ∉ t.ckFetches ∧ t.m_pendingCallbacks.find k = c.m_pendingCallbacks.find k
  started : ∀ k ∈ t.m_ckInterestsSent, k ∈ c.m_ckInterestsSent ∨ k ∈ t.ckFetches

/-- Nothing is owed, and every mark stands for a fetch. -/
structure Quiet (c : Consumer) : Prop where
  ledger : Ledger c
  paid : ∀ id, ¬ c.Owed id
  fetching : ∀ k ∈ c.m_ckInterestsSent, k ∈ c.ckFetches

variable {c t u : Consumer} {ckKey : Name} {task : PendingTask} {tasks rest : List PendingTask}
  {id : ℕ} {call : Invocation}

theorem KeepsLedger.refl (c : Consumer) : KeepsLedger c c where
  owed _ := Iff.rfl
  marked := subset_rfl
  fetching := List.Subset.refl _
  handled _ _ hk := ⟨hk, rfl⟩
  started _ hk := Or.inl hk

/-- The accounts are kept from step to step. -/
theorem KeepsLedger.trans (h : KeepsLedger c t) (h' : KeepsLedger t u) : KeepsLedger c u where
  owed id := (h'.owed id).trans (h.owed id)
  marked := h.marked.trans h'.marked
  fetching := List.Subset.trans h.fetching h'.fetching
  handled k hk hfetch := by
    obtain ⟨hended, hfind⟩ := h.handled k hk hfetch
    obtain ⟨hended', hfind'⟩ := h'.handled k (h.marked hk) hended
    exact ⟨hended', hfind'.trans hfind⟩
  started k hk := by
    rcases h'.started k hk with hold | hnew
    · rcases h.started k hold with hold | hnew
      · exact Or.inl hold
      · exact Or.inr (h'.fetching hnew)
    · exact Or.inr hnew

theorem Quiet.keeps (h : Quiet c) (ht : KeepsLedger c t) (hledger : Ledger t) : Quiet t where
  ledger := hledger
  paid id hid := h.paid id ((ht.owed id).mp hid)
  fetching k hk := by
    rcases ht.started k hk with hold | hnew
    · exact ht.fetching (h.fetching k hold)
    · exact hnew

/-! ## A change that touches no call -/

/-- The accounts are the same. -/
structure SameLedger (c t : Consumer) : Prop extends SameFlight c t where
  next_eq : t.nextCall = c.nextCall
  accepted_eq : t.accepted = c.accepted
  invoked_eq : t.invoked = c.invoked
  data_eq : t.dataFetches = c.dataFetches

theorem SameLedger.owed_iff (h : SameLedger c t) (id : ℕ) : t.Owed id ↔ c.Owed id := by
  simp only [Owed, Queued, replied, tasksUnder, h.accepted_eq, h.invoked_eq, h.fetches_eq,
    h.pending_eq]

theorem Ledger.same (h : Ledger c) (hs : SameLedger c t) : Ledger t := by
  have hflight : Flight t := h.flight.same hs.toSameFlight
  obtain ⟨-, hmade, haccepted, honce, hset, hunanswered, hdistinct, hapart, hdata, hdataOnce⟩ := h
  unfold replied tasksUnder at *
  refine ⟨hflight, ?_, ?_, ?_, ?_, ?_, ?_, ?_, ?_, ?_⟩
  all_goals
    simp only [replied, tasksUnder, hs.next_eq, hs.accepted_eq, hs.invoked_eq, hs.fetches_eq,
      hs.pending_eq, hs.data_eq]
    assumption

theorem KeepsLedger.same (hs : SameLedger c t) : KeepsLedger c t where
  owed := hs.owed_iff
  marked := by rw [hs.sent_eq]
  fetching := by rw [hs.fetches_eq]; exact List.Subset.refl _
  handled k _ hk := by rw [hs.fetches_eq, hs.pending_eq]; exact ⟨hk, rfl⟩
  started k hk := by rw [hs.sent_eq] at hk; exact Or.inl hk

theorem Quiet.same (h : Quiet c) (hs : SameLedger c t) : Quiet t :=
  h.keeps (.same hs) (h.ledger.same hs)

/-- Keys, caches and the singleton do not enter into the accounts. -/
theorem sameLedger_of_keys (c : Consumer) (m_keyCache : PrivateKey)
    (m_ckEncAesCache : PartialMap Name Bytes) (m_paramFetcher : ParamFetcher)
    (abeSupport : AbeSupport) (keyFetches : List Name) :
    SameLedger c
      { c with m_keyCache, m_ckEncAesCache, m_paramFetcher, abeSupport, keyFetches } :=
  ⟨⟨rfl, rfl, rfl, rfl⟩, rfl, rfl, rfl, rfl⟩

/-- Numbering a call and leaving it to a data fetch change nothing that is owed. -/
theorem keepsLedger_of_data (c : Consumer) (nextCall : ℕ) (dataFetches : List (Name × Callbacks)) :
    KeepsLedger c { c with nextCall, dataFetches } where
  owed _ := Iff.rfl
  marked := subset_rfl
  fetching := List.Subset.refl _
  handled _ _ hk := ⟨hk, rfl⟩
  started _ hk := Or.inl hk

/-! ## A fresh call -/

theorem replied_reported (call : Invocation) (st : AbeSupport) (c : Consumer) :
    (reported call st c).replied = c.replied ++ [call.id] := by
  simp [replied, reported]

/-- A new call may be accepted and answered at once. -/
theorem ledger_of_answer (h : Ledger c) (call : Invocation) (hfresh : c.Fresh call.id)
    (st : AbeSupport) : Ledger (reported call st (accept call.id c)) := by
  have hreplied := replied_reported call st (accept call.id c)
  have hunreplied : call.id ∉ c.replied := fun hmem =>
    hfresh.unaccepted (h.accepted call.id hmem)
  refine ⟨h.flight.same ⟨rfl, rfl, rfl, rfl⟩, ?_, ?_, ?_, h.set, ?_, h.distinct, h.apart, ?_,
    h.dataOnce⟩
  · intro id hid
    rcases List.mem_cons.mp hid with rfl | hold
    · exact hfresh.made
    · exact h.made id hold
  · intro id hid
    rw [hreplied, List.mem_append, List.mem_singleton] at hid
    rcases hid with hold | rfl
    · exact List.mem_cons_of_mem _ (h.accepted id hold)
    · exact List.mem_cons_self
  · rw [hreplied]
    exact h.once.append (List.nodup_singleton _) (List.disjoint_singleton.mpr hunreplied)
  · intro k hk id hid
    obtain ⟨haccepted, hopen⟩ := h.unanswered k hk id hid
    refine ⟨List.mem_cons_of_mem _ haccepted, ?_⟩
    rw [hreplied, List.mem_append, List.mem_singleton]
    rintro (hold | rfl)
    · exact hopen hold
    · exact hfresh.unaccepted haccepted
  · intro f hf
    obtain ⟨hset, hmade, hunaccepted⟩ := h.dataFetch f hf
    refine ⟨hset, hmade, fun hmem => ?_⟩
    rcases List.mem_cons.mp hmem with heq | hold
    · exact hfresh.unfetched f hf heq
    · exact hunaccepted hold

/-- A call that is answered at once is not owed. -/
theorem keepsLedger_of_answer (call : Invocation) (hfresh : c.Fresh call.id) (st : AbeSupport) :
    KeepsLedger c (reported call st (accept call.id c)) := by
  refine ⟨?_, subset_rfl, List.Subset.refl _, fun _ _ hk => ⟨hk, rfl⟩, fun _ hk => Or.inl hk⟩
  intro id
  have hqueued : (reported call st (accept call.id c)).Queued id ↔ c.Queued id := Iff.rfl
  have haccept : (accept call.id c).replied = c.replied := rfl
  rw [Owed, Owed, hqueued, replied_reported, haccept, List.mem_append, List.mem_singleton]
  by_cases heq : id = call.id
  · subst heq
    have := hfresh.unaccepted
    tauto
  · have haccepted : id ∈ (reported call st (accept call.id c)).accepted ↔ id ∈ c.accepted := by
      simp [reported, accept, heq]
    tauto

/-- **A fresh call is answered.** -/
theorem Ledger.answer (h : Ledger c) (call : Invocation) (hfresh : c.Fresh call.id)
    (st : AbeSupport) :
    Ledger (reported call st (accept call.id c)) ∧
      KeepsLedger c (reported call st (accept call.id c)) :=
  ⟨ledger_of_answer h call hfresh st, keepsLedger_of_answer call hfresh st⟩

/-- Between `c` and `t` a call was accepted and its task queued under a name that is
being fetched in `t`. -/
structure Enqueued (ckKey : Name) (task : PendingTask) (c t : Consumer) : Prop where
  flight : Flight t
  next_eq : t.nextCall = c.nextCall
  accepted_eq : t.accepted = task.callbacks.id :: c.accepted
  invoked_eq : t.invoked = c.invoked
  data_eq : t.dataFetches = c.dataFetches
  fetches : ∀ k, k ∈ t.ckFetches ↔ k = ckKey ∨ k ∈ c.ckFetches
  tasks_eq : t.tasksUnder ckKey = c.tasksUnder ckKey ++ [task]
  others : ∀ k, k ≠ ckKey → t.m_pendingCallbacks.find k = c.m_pendingCallbacks.find k
  marks : ∀ k, k ∈ t.m_ckInterestsSent ↔ k = ckKey ∨ k ∈ c.m_ckInterestsSent
  unfetched : ckKey ∉ c.ckFetches → ckKey ∉ c.m_ckInterestsSent ∧ c.tasksUnder ckKey = []

theorem tasksUnder_congr {k : Name}
    (h : t.m_pendingCallbacks.find k = c.m_pendingCallbacks.find k) :
    t.tasksUnder k = c.tasksUnder k := by
  rw [tasksUnder, tasksUnder, h]

/-- Who waits after a task was queued. -/
theorem Enqueued.mem_callsOf (hs : Enqueued ckKey task c t) {k : Name} :
    id ∈ callsOf (t.tasksUnder k) ↔
      id ∈ callsOf (c.tasksUnder k) ∨ (k = ckKey ∧ id = task.callbacks.id) := by
  by_cases hk : k = ckKey
  · subst hk
    simp [hs.tasks_eq, callsOf]
  · simp [tasksUnder_congr (hs.others k hk), hk]

/-- One more call waits. -/
theorem Enqueued.queued_iff (hs : Enqueued ckKey task c t) :
    t.Queued id ↔ c.Queued id ∨ id = task.callbacks.id := by
  simp only [Queued, hs.fetches, hs.mem_callsOf]
  constructor
  · rintro ⟨k, rfl | hk, hid | ⟨-, hid⟩⟩
    · by_cases hfetch : k ∈ c.ckFetches
      · exact Or.inl ⟨k, hfetch, hid⟩
      · rw [(hs.unfetched hfetch).2] at hid
        cases hid
    · exact Or.inr hid
    · exact Or.inl ⟨k, hk, hid⟩
    · exact Or.inr hid
  · rintro (⟨k, hk, hid⟩ | hid)
    · exact ⟨k, Or.inr hk, Or.inl hid⟩
    · exact ⟨ckKey, Or.inl rfl, Or.inr ⟨rfl, hid⟩⟩

/-- Whoever waited already waited for a fetch. -/
theorem Enqueued.fetched (hs : Enqueued ckKey task c t) {k : Name} (hk : k ∈ t.ckFetches)
    (hid : id ∈ callsOf (c.tasksUnder k)) : k ∈ c.ckFetches := by
  rcases (hs.fetches k).mp hk with rfl | hold
  · by_contra hfetch
    rw [(hs.unfetched hfetch).2] at hid
    cases hid
  · exact hold

theorem Enqueued.replied_eq (hs : Enqueued ckKey task c t) : t.replied = c.replied :=
  congrArg (List.map Invocation.id) hs.invoked_eq

/-- A fresh call waits nowhere yet. -/
theorem Enqueued.notMem_callsOf (hs : Enqueued ckKey task c t) (h : Ledger c)
    (hfresh : c.Fresh task.callbacks.id) {k : Name} (hk : k ∈ t.ckFetches) :
    task.callbacks.id ∉ callsOf (c.tasksUnder k) := fun hid =>
  hfresh.unaccepted (h.unanswered k (hs.fetched hk hid) _ hid).1

/-- The calls that wait under one name stay different, -/
theorem Enqueued.distinct (hs : Enqueued ckKey task c t) (h : Ledger c)
    (hfresh : c.Fresh task.callbacks.id) :
    ∀ k ∈ t.ckFetches, (callsOf (t.tasksUnder k)).Nodup := by
  intro k hk
  by_cases heq : k = ckKey
  · subst heq
    rw [hs.tasks_eq, callsOf, List.map_append]
    refine List.Nodup.append ?_ (List.nodup_singleton _)
      (List.disjoint_singleton.mpr (hs.notMem_callsOf h hfresh hk))
    by_cases hfetch : k ∈ c.ckFetches
    · exact h.distinct k hfetch
    · rw [(hs.unfetched hfetch).2]
      exact List.nodup_nil
  · rw [tasksUnder_congr (hs.others k heq)]
    exact h.distinct k (((hs.fetches k).mp hk).resolve_left heq)

/-- and no call waits under two. -/
theorem Enqueued.apart (hs : Enqueued ckKey task c t) (h : Ledger c)
    (hfresh : c.Fresh task.callbacks.id) :
    ∀ k ∈ t.ckFetches, ∀ k' ∈ t.ckFetches, ∀ id ∈ callsOf (t.tasksUnder k),
      id ∈ callsOf (t.tasksUnder k') → k = k' := by
  intro k hk k' hk' id hid hid'
  rcases hs.mem_callsOf.mp hid with hold | ⟨rfl, rfl⟩
  · rcases hs.mem_callsOf.mp hid' with hold' | ⟨-, rfl⟩
    · exact h.apart k (hs.fetched hk hold) k' (hs.fetched hk' hold') id hold hold'
    · exact absurd hold (hs.notMem_callsOf h hfresh hk)
  · rcases hs.mem_callsOf.mp hid' with hold' | ⟨rfl, -⟩
    · exact absurd hold' (hs.notMem_callsOf h hfresh hk')
    · rfl

/-- A new call may be accepted and queued under a name that is being fetched. -/
theorem Enqueued.ledger (hs : Enqueued ckKey task c t) (h : Ledger c)
    (hfresh : c.Fresh task.callbacks.id) (hset : task.callbacks.Set) : Ledger t := by
  refine ⟨hs.flight, ?_, ?_, ?_, ?_, ?_, hs.distinct h hfresh, hs.apart h hfresh, ?_, ?_⟩
  · intro id hid
    rw [hs.accepted_eq, List.mem_cons] at hid
    rw [hs.next_eq]
    rcases hid with rfl | hold
    · exact hfresh.made
    · exact h.made id hold
  · intro id hid
    rw [hs.replied_eq] at hid
    rw [hs.accepted_eq]
    exact List.mem_cons_of_mem _ (h.accepted id hid)
  · rw [hs.replied_eq]
    exact h.once
  · intro k hk waiting hwaiting
    by_cases heq : k = ckKey
    · subst heq
      rw [hs.tasks_eq, List.mem_append, List.mem_singleton] at hwaiting
      rcases hwaiting with hold | rfl
      · exact h.set k (hs.fetched hk (List.mem_map_of_mem hold)) waiting hold
      · exact hset
    · rw [tasksUnder_congr (hs.others k heq)] at hwaiting
      exact h.set k (hs.fetched hk (List.mem_map_of_mem hwaiting)) waiting hwaiting
  · intro k hk id hid
    rw [hs.replied_eq, hs.accepted_eq, List.mem_cons]
    rcases hs.mem_callsOf.mp hid with hold | ⟨-, rfl⟩
    · obtain ⟨haccepted, hopen⟩ := h.unanswered k (hs.fetched hk hold) id hold
      exact ⟨Or.inr haccepted, hopen⟩
    · exact ⟨Or.inl rfl, fun hmem => hfresh.unaccepted (h.accepted _ hmem)⟩
  · intro f hf
    rw [hs.data_eq] at hf
    obtain ⟨hfset, hmade, hunaccepted⟩ := h.dataFetch f hf
    rw [hs.next_eq, hs.accepted_eq, List.mem_cons]
    exact ⟨hfset, hmade, fun hmem => hmem.elim (hfresh.unfetched f hf) hunaccepted⟩
  · rw [hs.data_eq]
    exact h.dataOnce

/-- Nothing else becomes owed by it. -/
theorem Enqueued.keepsLedger (hs : Enqueued ckKey task c t)
    (hfresh : c.Fresh task.callbacks.id) : KeepsLedger c t := by
  refine ⟨?_, fun k hk => (hs.marks k).mpr (Or.inr hk), fun k hk => (hs.fetches k).mpr (Or.inr hk),
    ?_, ?_⟩
  · intro id
    rw [Owed, Owed, hs.replied_eq, hs.accepted_eq, List.mem_cons, hs.queued_iff]
    have := hfresh.unaccepted
    by_cases heq : id = task.callbacks.id
    · subst heq
      tauto
    · tauto
  · intro k hk hfetch
    have hne : k ≠ ckKey := by
      rintro rfl
      exact (hs.unfetched hfetch).1 hk
    refine ⟨fun hmem => ?_, hs.others k hne⟩
    exact ((hs.fetches k).mp hmem).elim hne hfetch
  · intro k hk
    rcases (hs.marks k).mp hk with rfl | hold
    · exact Or.inr ((hs.fetches k).mpr (Or.inl rfl))
    · exact Or.inl hold

/-- **A fresh call enters a queue.** -/
theorem Ledger.enqueue (h : Ledger c) (hs : Enqueued ckKey task c t)
    (hfresh : c.Fresh task.callbacks.id) (hset : task.callbacks.Set) :
    Ledger t ∧ KeepsLedger c t :=
  ⟨hs.ledger h hfresh hset, hs.keepsLedger hfresh⟩

/-- Queuing under a name that is being fetched. -/
theorem enqueued_queue (task : PendingTask) (h : Flight c) (hk : ckKey ∈ c.ckFetches) :
    Enqueued ckKey task c (queue ckKey task (accept task.callbacks.id c)) where
  flight := (h.same (t := accept task.callbacks.id c) ⟨rfl, rfl, rfl, rfl⟩).queue
    (h.marked ckKey hk)
  next_eq := rfl
  accepted_eq := rfl
  invoked_eq := rfl
  data_eq := rfl
  fetches k := by
    constructor
    · exact Or.inr
    · rintro (rfl | hold)
      · exact hk
      · exact hold
  tasks_eq := by simp [tasksUnder, queue, accept]
  others k hne := by simp [queue, accept, hne]
  marks k := by
    constructor
    · exact Or.inr
    · rintro (rfl | hold)
      · exact h.marked k hk
      · exact hold
  unfetched hunfetched := absurd hk hunfetched

/-- Queuing under a name whose fetch is started. -/
theorem enqueued_start (task : PendingTask) (h : Flight c) (hk : ckKey ∉ c.m_ckInterestsSent)
    (hcache : c.m_ckEncAesCache.find ckKey = none) (hrequest : ckKey.Requestable) :
    Enqueued ckKey task c (startCkFetch ckKey (taken ckKey task c)) where
  flight := (h.same (t := accept task.callbacks.id c) ⟨rfl, rfl, rfl, rfl⟩).start hk hcache hrequest
  next_eq := rfl
  accepted_eq := rfl
  invoked_eq := rfl
  data_eq := rfl
  fetches k := by simp [startCkFetch, taken, queue, accept]
  tasks_eq := by simp [tasksUnder, startCkFetch, taken, queue, accept]
  others k hne := by simp [startCkFetch, taken, queue, accept, hne]
  marks k := by simp [startCkFetch, taken, queue, accept]
  unfetched _ := by
    refine ⟨hk, ?_⟩
    cases hfind : c.m_pendingCallbacks.find ckKey with
    | none => simp [tasksUnder, hfind]
    | some tasks => exact absurd (h.pending ckKey tasks hfind) hk

/-! ## Calls that are made and data fetches -/

/-- A call is made. -/
theorem Ledger.enter (h : Ledger c) :
    Ledger { c with nextCall := c.nextCall + 1 } ∧
      Fresh { c with nextCall := c.nextCall + 1 } c.nextCall := by
  constructor
  · refine ⟨h.flight.same ⟨rfl, rfl, rfl, rfl⟩, ?_, h.accepted, h.once, h.set, h.unanswered,
      h.distinct, h.apart, ?_, h.dataOnce⟩
    · intro id hid
      exact Nat.lt_succ_of_lt (h.made id hid)
    · intro f hf
      obtain ⟨hset, hmade, hunaccepted⟩ := h.dataFetch f hf
      exact ⟨hset, Nat.lt_succ_of_lt hmade, hunaccepted⟩
  · refine ⟨Nat.lt_succ_self _, fun hid => lt_irrefl _ (h.made _ hid), ?_⟩
    intro f hf heq
    exact lt_irrefl _ (heq ▸ (h.dataFetch f hf).2.1)

/-- A call is left to a data fetch. -/
theorem Ledger.startDataFetch (h : Ledger c) {callbacks : Callbacks} (hset : callbacks.Set)
    (hfresh : c.Fresh callbacks.id) (dataInterest : Name) :
    Ledger { c with dataFetches := (dataInterest, callbacks) :: c.dataFetches } := by
  refine ⟨h.flight.same ⟨rfl, rfl, rfl, rfl⟩, h.made, h.accepted, h.once, h.set, h.unanswered,
    h.distinct, h.apart, ?_, ?_⟩
  · intro f hf
    rcases List.mem_cons.mp hf with rfl | hold
    · exact ⟨hset, hfresh.made, hfresh.unaccepted⟩
    · exact h.dataFetch f hold
  · refine List.nodup_cons.mpr ⟨?_, h.dataOnce⟩
    intro hmem
    obtain ⟨f, hf, heq⟩ := List.mem_map.mp hmem
    exact hfresh.unfetched f hf heq

/-- The data fetch of a call ends. -/
theorem Ledger.endDataFetch (h : Ledger c) {fetch : Name × Callbacks} (hf : fetch ∈ c.dataFetches) :
    Ledger { c with dataFetches := c.dataFetches.erase fetch } ∧
      Fresh { c with dataFetches := c.dataFetches.erase fetch } fetch.2.id := by
  have hperm := List.perm_cons_erase hf
  have honce := ((hperm.map fun f => f.2.id).nodup_iff).mp h.dataOnce
  rw [List.map_cons, List.nodup_cons] at honce
  obtain ⟨-, hmade, hunaccepted⟩ := h.dataFetch fetch hf
  constructor
  · exact ⟨h.flight.same ⟨rfl, rfl, rfl, rfl⟩, h.made, h.accepted, h.once, h.set, h.unanswered,
      h.distinct, h.apart, fun f hmem => h.dataFetch f (List.mem_of_mem_erase hmem), honce.2⟩
  · refine ⟨hmade, hunaccepted, ?_⟩
    intro f hmem heq
    exact honce.1 (List.mem_map.mpr ⟨f, hmem, heq⟩)

/-! ## Ended fetches -/

/-- Before each round of the loop of a handler: what is owed is what the remaining tasks
wait for. -/
structure Paying (ckKey : Name) (tasks rest : List PendingTask) (t : Consumer) : Prop where
  ledger : Ledger t
  owed : ∀ id, t.Owed id ↔ id ∈ callsOf rest
  marked : ckKey ∈ t.m_ckInterestsSent
  ended : ckKey ∉ t.ckFetches
  pending : t.m_pendingCallbacks.find ckKey = some tasks
  others : ∀ k ∈ t.m_ckInterestsSent, k = ckKey ∨ k ∈ t.ckFetches

/-- **A fetch ends**: its queue is owed. -/
theorem Quiet.endFetch (h : Quiet c) (hk : ckKey ∈ c.ckFetches)
    (hfind : c.m_pendingCallbacks.find ckKey = some tasks) :
    Paying ckKey tasks tasks (endCkFetch ckKey c) := by
  have hl := h.ledger
  have hold : ∀ {k}, k ∈ c.ckFetches.erase ckKey → k ∈ c.ckFetches := List.mem_of_mem_erase
  have htasks : c.tasksUnder ckKey = tasks := by simp [tasksUnder, hfind]
  refine ⟨?_, ?_, hl.flight.marked ckKey hk, hl.flight.nodup.not_mem_erase, hfind, ?_⟩
  · exact ⟨hl.flight.endFetch, hl.made, hl.accepted, hl.once, fun k hk => hl.set k (hold hk),
      fun k hk => hl.unanswered k (hold hk), fun k hk => hl.distinct k (hold hk),
      fun k hk k' hk' => hl.apart k (hold hk) k' (hold hk'), hl.dataFetch, hl.dataOnce⟩
  · intro id
    rw [← htasks]
    constructor
    · rintro ⟨haccepted, hopen, hunqueued⟩
      have hqueued : c.Queued id := by
        by_contra hnot
        exact h.paid id ⟨haccepted, hopen, hnot⟩
      obtain ⟨k, hmem, hid⟩ := hqueued
      by_cases heq : k = ckKey
      · exact heq ▸ hid
      · exact absurd ⟨k, (List.mem_erase_of_ne heq).mpr hmem, hid⟩ hunqueued
    · intro hid
      obtain ⟨haccepted, hopen⟩ := hl.unanswered ckKey hk id hid
      refine ⟨haccepted, hopen, ?_⟩
      rintro ⟨k, hmem, hid'⟩
      have heq := hl.apart ckKey hk k (hold hmem) id hid hid'
      subst heq
      exact hl.flight.nodup.not_mem_erase hmem
  · intro k hmem
    by_cases heq : k = ckKey
    · exact Or.inl heq
    · exact Or.inr ((List.mem_erase_of_ne heq).mpr (h.fetching k hmem))

/-- **A handler pays.** -/
theorem Paying.pay (h : Paying ckKey tasks (task :: rest) t) (call : Invocation)
    (hnodup : (callsOf (task :: rest)).Nodup) (hcall : call.id = task.callbacks.id)
    (st : AbeSupport) : Paying ckKey tasks rest (reported call st t) := by
  have hl := h.ledger
  have howed : t.Owed call.id := (h.owed call.id).mpr (by simp [callsOf, hcall])
  obtain ⟨haccepted, hopen, hunqueued⟩ := howed
  have hreplied := replied_reported call st t
  refine ⟨⟨hl.flight.same ⟨rfl, rfl, rfl, rfl⟩, hl.made, ?_, ?_, hl.set, ?_, hl.distinct, hl.apart,
    hl.dataFetch, hl.dataOnce⟩, ?_, h.marked, h.ended, h.pending, h.others⟩
  · intro id hid
    rw [hreplied, List.mem_append, List.mem_singleton] at hid
    rcases hid with hold | rfl
    · exact hl.accepted id hold
    · exact haccepted
  · rw [hreplied]
    exact hl.once.append (List.nodup_singleton _) (List.disjoint_singleton.mpr hopen)
  · intro k hk id hid
    obtain ⟨hin, hout⟩ := hl.unanswered k hk id hid
    refine ⟨hin, ?_⟩
    rw [hreplied, List.mem_append, List.mem_singleton]
    rintro (hold | rfl)
    · exact hout hold
    · exact hunqueued ⟨k, hk, hid⟩
  · intro id
    have hpaid : (reported call st t).Owed id ↔ t.Owed id ∧ id ≠ call.id := by
      have hqueued : (reported call st t).Queued id ↔ t.Queued id := Iff.rfl
      have hsame : id ∈ (reported call st t).accepted ↔ id ∈ t.accepted := Iff.rfl
      rw [Owed, Owed, hqueued, hsame, hreplied, List.mem_append, List.mem_singleton]
      tauto
    rw [hpaid, h.owed, hcall]
    simp only [callsOf, List.map_cons, List.nodup_cons, List.mem_cons] at hnodup ⊢
    constructor
    · rintro ⟨hid, hne⟩
      exact hid.resolve_left hne
    · intro hid
      refine ⟨Or.inr hid, ?_⟩
      rintro rfl
      exact hnodup.1 hid

/-- What the application does meanwhile leaves the rest of the payments. -/
theorem Paying.keeps (h : Paying ckKey tasks rest t) (hu : KeepsLedger t u) (hledger : Ledger u) :
    Paying ckKey tasks rest u where
  ledger := hledger
  owed id := (hu.owed id).trans (h.owed id)
  marked := hu.marked h.marked
  ended := (hu.handled ckKey h.marked h.ended).1
  pending := (hu.handled ckKey h.marked h.ended).2.trans h.pending
  others k hk := by
    rcases hu.started k hk with hold | hnew
    · exact (h.others k hold).imp id (hu.fetching ·)
    · exact Or.inr hnew

/-- **Everybody is paid**: the tasks and the mark can go. -/
theorem Paying.finish (h : Paying ckKey tasks [] t) :
    Quiet (eraseSent ckKey (erasePending ckKey t)) := by
  have hl := h.ledger
  have htasks : ∀ {k}, k ∈ t.ckFetches →
      (eraseSent ckKey (erasePending ckKey t)).tasksUnder k = t.tasksUnder k := by
    intro k hk
    apply tasksUnder_congr
    have hne : k ≠ ckKey := by
      rintro rfl
      exact h.ended hk
    simp [eraseSent, erasePending, hne]
  have hflight : Flight (eraseSent ckKey (erasePending ckKey t)) :=
    (hl.flight.erasePending h.ended).eraseSent h.ended (by simp [erasePending])
  refine ⟨⟨hflight, hl.made, hl.accepted, hl.once, ?_, ?_, ?_, ?_, hl.dataFetch, hl.dataOnce⟩,
    ?_, ?_⟩
  · intro k hk
    rw [htasks hk]
    exact hl.set k hk
  · intro k hk
    rw [htasks hk]
    exact hl.unanswered k hk
  · intro k hk
    rw [htasks hk]
    exact hl.distinct k hk
  · intro k hk k' hk'
    rw [htasks hk, htasks hk']
    exact hl.apart k hk k' hk'
  · rintro id ⟨haccepted, hopen, hunqueued⟩
    have howed : t.Owed id := by
      refine ⟨haccepted, hopen, ?_⟩
      rintro ⟨k, hk, hid⟩
      exact hunqueued ⟨k, hk, (htasks hk).symm ▸ hid⟩
    exact List.not_mem_nil ((h.owed id).mp howed)
  · intro k hk
    obtain ⟨hne, hmem⟩ := Finset.mem_erase.mp hk
    exact (h.others k hmem).resolve_left hne

end NacAbe.Consumer
