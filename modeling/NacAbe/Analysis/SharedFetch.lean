import NacAbe.Analysis.ConsumeAccounting

/-!
# Calls that share a content key

`SharedFetch` names a content key and the calls of `consume` whose content names it.
While they are made, and the key's one fetch completes with the encrypted key `encAesKey`,
every call is told what the consumer at the start makes of its cipher text with that key
(`Shares`), and the tasks that wait when the fetch completes are told in the order of
their queue (`Ordered`).  Both are kept whichever path a call takes: it waits, it starts the
fetch, or it finds the key in the cache.
-/

set_option autoImplicit false

namespace NacAbe.Analysis

open NacAbe Consumer

/-- The content is well-formed and names the content key. -/
def NamesKey (ckKey : Name) (content : Block) (cipherText : CipherText) : Prop :=
  ∃ ckName, parseContent content = .ok (cipherText, ckName) ∧ normalizeCkKey ckName = ckKey

/-- A consumer before it is asked for a content key, what the fetch of the key brings, and the
content of every call that names it, by the number of the call. -/
structure SharedFetch where
  platform : Platform
  start : Consumer
  ckKey : Name
  contentBuffer : Bytes
  encAesKey : Bytes
  contents : ℕ → Block
  ready : start.readyForDecryption = true
  uncached : start.m_ckEncAesCache.find ckKey = none
  unmarked : ckKey ∉ start.m_ckInterestsSent
  /-- There is a fetch: the Interest for the key can be made. -/
  requests : start.CanRequest ckKey
  carries : CarriesKey contentBuffer encAesKey

namespace SharedFetch

variable (x : SharedFetch)

/-- What the consumer at the start makes of a cipher text with the content key. -/
def result (cipherText : CipherText) : Except String Bytes :=
  (decryption x.platform { cipherText with m_contentKey := ⟨[], x.encAesKey⟩ } x.start).1

/-- The call's content names the key. -/
def Names (id : ℕ) : Prop := ∃ cipherText, NamesKey x.ckKey (x.contents id) cipherText

/-- The invocation gives its call that result for its content. -/
def Answers (invocation : Invocation) : Prop :=
  ∃ cipherText, NamesKey x.ckKey (x.contents invocation.id) cipherText ∧
    invocation = Callbacks.report ⟨invocation.id, true, true⟩ (x.result cipherText)

/-- The invariant: decryptions give what they gave at the start, what is cached is the key,
the tasks that wait are such calls, and all answers are right. -/
structure Shares (t : Consumer) : Prop where
  ready : t.readyForDecryption = true
  requests : t.CanRequest x.ckKey
  same : ∀ cipherText, (decryption x.platform cipherText t).1 =
    (decryption x.platform cipherText x.start).1
  cached : ∀ key, t.m_ckEncAesCache.find x.ckKey = some key → key = x.encAesKey
  ended : ∀ key, t.m_ckEncAesCache.find x.ckKey = some key → x.ckKey ∉ t.ckFetches
  fetched : x.ckKey ∈ t.m_ckInterestsSent →
    x.ckKey ∈ t.ckFetches ∨ (t.m_ckEncAesCache.find x.ckKey).isSome
  waits : ∀ task ∈ t.tasksUnder x.ckKey, task.callbacks.Set ∧
    NamesKey x.ckKey (x.contents task.callbacks.id) task.cipher
  others : ∀ k, k ≠ x.ckKey → t.m_pendingCallbacks.find k = x.start.m_pendingCallbacks.find k ∧
    (k ∈ t.ckFetches → k ∈ x.start.ckFetches)
  data : ∀ f ∈ t.dataFetches, f.2.Set
  queued : (callsOf (t.tasksUnder x.ckKey)).Sublist t.accepted.reverse
  answers : ∃ told, t.invoked = x.start.invoked ++ told ∧ ∀ invocation ∈ told, x.Answers invocation

/-- Those of the calls `order` that have been answered, in the order of their answers. -/
def answeredOf (order : List ℕ) (t : Consumer) : List ℕ := t.replied.filter (· ∈ order)

/-- The calls `order` are answered in this order. -/
structure Ordered (order : List ℕ) (t : Consumer) : Prop where
  inOrder : answeredOf order t <+: order
  made : ∀ id ∈ order, id < t.nextCall
  unfetched : ∀ f ∈ t.dataFetches, f.2.id ∉ order

/-- What happens in a run of such calls: they are made, with any default lifetime that an
Interest can have, their content arrives, the fetch of the key completes, and callbacks
return. -/
def Allowed (c : Consumer) : System.Act Exn Entry Event → Prop
  | .enter (.consumeBlock dataBlock hasSuccess hasError) =>
    (hasSuccess = true ∧ hasError = true) ∧ dataBlock = x.contents c.nextCall ∧
      x.Names c.nextCall
  | .enter (.consumeInterest _ hasSuccess hasError) => hasSuccess = true ∧ hasError = true
  | .enter (.consumeName _ hasSuccess hasError) => hasSuccess = true ∧ hasError = true
  | .enter (.setDefaultTimeout defaultTimeout) => 0 ≤ defaultTimeout
  | .enter _ => False
  | .resume o => o = none
  | .event (.ckComplete ckKey contentBuffer) => ckKey = x.ckKey ∧ contentBuffer = x.contentBuffer
  | .event (.dataComplete fetch contentBuffer) =>
    Block.ofBuffer contentBuffer = .ok (x.contents fetch.2.id) ∧ x.Names fetch.2.id
  | .event _ => False

/-- What the application may do while it has control: a cached key stays and nothing is queued
under it, and none of the calls `order` is answered. -/
structure Keeps (order : List ℕ) (s t : Consumer) : Prop where
  cached : ∀ key, s.m_ckEncAesCache.find x.ckKey = some key →
    t.m_ckEncAesCache.find x.ckKey = some key ∧
      t.m_pendingCallbacks.find x.ckKey = s.m_pendingCallbacks.find x.ckKey
  answered : answeredOf order t = answeredOf order s

/-- Callbacks return; between events all of `order` has been answered. -/
def contract (order : List ℕ) : Contract Consumer Exn Invocation where
  inv t := x.Shares t ∧ Ordered order t
  idle t := (x.Shares t ∧ Ordered order t) ∧ answeredOf order t = order
  rely := x.Keeps order
  ends _ o := o = none
  inv_of_idle h := h.1
  refl _ := ⟨fun _ hkey => ⟨hkey, rfl⟩, rfl⟩
  trans h h' := by
    refine ⟨fun key hkey => ?_, h'.answered.trans h.answered⟩
    obtain ⟨hcache, hpending⟩ := h.cached key hkey
    obtain ⟨hcache', hpending'⟩ := h'.cached key hcache
    exact ⟨hcache', hpending'.trans hpending⟩
  idle_of_rely h hr ht := ⟨ht, hr.answered.trans h.2⟩

theorem contract_returns (order : List ℕ) : (x.contract order).Returns := fun h => h

variable {x} {order : List ℕ} {s t : Consumer} {cipherText : CipherText} {callbacks : Callbacks}

/-! ## One answer -/

theorem answeredOf_reported (invocation : Invocation) (st : AbeSupport) (t : Consumer) :
    answeredOf order (reported invocation st t) =
      answeredOf order t ++ if invocation.id ∈ order then [invocation.id] else [] := by
  rw [answeredOf, replied_reported, List.filter_append]
  simp [answeredOf, List.filter_cons]

theorem report_congr (callbacks : Callbacks) (result : Except String Bytes) :
    callbacks.report result = Callbacks.report ⟨callbacks.id, true, true⟩ result := by
  cases result <;> rfl

/-- **A decryption with the key gives the right answer.** -/
theorem Shares.report (h : x.Shares t)
    (hnames : NamesKey x.ckKey (x.contents callbacks.id) cipherText) :
    let decrypted := decryption x.platform { cipherText with m_contentKey := ⟨[], x.encAesKey⟩ } t
    x.Shares (reported (callbacks.report decrypted.1) decrypted.2 t) := by
  intro decrypted
  have hresult : decrypted.1 = x.result cipherText := h.same _
  refine ⟨h.ready, h.requests, ?_, h.cached, h.ended, h.fetched, h.waits, h.others, h.data,
    h.queued, ?_⟩
  · intro other
    exact (decryption_stable x.platform _ other t).trans (h.same other)
  · obtain ⟨told, hinvoked, htold⟩ := h.answers
    refine ⟨told ++ [callbacks.report decrypted.1], ?_, ?_⟩
    · simp only [reported, hinvoked, List.append_assoc]
    · intro invocation hmem
      rcases List.mem_append.mp hmem with hold | hnew
      · exact htold invocation hold
      · rw [List.mem_singleton.mp hnew]
        refine ⟨cipherText, ?_, ?_⟩
        · rwa [Callbacks.id_report]
        · rw [Callbacks.id_report, hresult]
          exact report_congr callbacks _

/-- An answer to another call leaves the order alone. -/
theorem Ordered.report (h : Ordered order t) {invocation : Invocation} (st : AbeSupport)
    (hid : invocation.id ∉ order) :
    Ordered order (reported invocation st t) ∧
      answeredOf order (reported invocation st t) = answeredOf order t := by
  have hsame : answeredOf order (reported invocation st t) = answeredOf order t := by
    rw [answeredOf_reported, if_neg hid, List.append_nil]
  exact ⟨⟨hsame ▸ h.inOrder, h.made, h.unfetched⟩, hsame⟩

/-! ## One call -/

theorem Shares.accept (h : x.Shares t) (id : ℕ) : x.Shares (accept id t) := by
  refine ⟨h.ready, h.requests, h.same, h.cached, h.ended, h.fetched, h.waits, h.others, h.data, ?_,
    h.answers⟩
  have hlater : (Consumer.accept id t).accepted.reverse = t.accepted.reverse ++ [id] :=
    List.reverse_cons
  rw [hlater]
  exact h.queued.trans (List.sublist_append_left _ _)

/-- A call waits for the fetch. -/
theorem Shares.queue (h : x.Shares t) (hset : callbacks.Set)
    (hnames : NamesKey x.ckKey (x.contents callbacks.id) cipherText) :
    x.Shares (Consumer.queue x.ckKey ⟨cipherText, callbacks⟩ (Consumer.accept callbacks.id t)) := by
  have htasks : (Consumer.queue x.ckKey ⟨cipherText, callbacks⟩
      (Consumer.accept callbacks.id t)).tasksUnder x.ckKey =
        t.tasksUnder x.ckKey ++ [⟨cipherText, callbacks⟩] := by
    simp [tasksUnder, Consumer.queue, Consumer.accept]
  refine ⟨h.ready, h.requests, h.same, h.cached, h.ended, h.fetched, ?_, ?_, h.data, ?_, h.answers⟩
  · intro task htask
    rw [htasks, List.mem_append, List.mem_singleton] at htask
    rcases htask with hold | rfl
    · exact h.waits task hold
    · exact ⟨hset, hnames⟩
  · intro k hk
    obtain ⟨hpending, hfetches⟩ := h.others k hk
    refine ⟨?_, hfetches⟩
    rw [← hpending]
    exact if_neg hk
  · have hlater : (Consumer.accept callbacks.id t).accepted.reverse =
        t.accepted.reverse ++ [callbacks.id] := List.reverse_cons
    rw [htasks, callsOf, List.map_append]
    exact hlater ▸ h.queued.append (List.Sublist.refl _)

/-- A call starts the fetch. -/
theorem Shares.start (h : x.Shares t) (hcache : t.m_ckEncAesCache.find x.ckKey = none)
    (hset : callbacks.Set) (hnames : NamesKey x.ckKey (x.contents callbacks.id) cipherText) :
    x.Shares (startCkFetch x.ckKey (taken x.ckKey ⟨cipherText, callbacks⟩ t)) := by
  have hqueued := h.queue hset hnames
  refine ⟨h.ready, h.requests, h.same, h.cached, ?_, ?_, hqueued.waits, ?_, h.data, hqueued.queued,
    h.answers⟩
  · intro key hkey
    exact absurd (hcache.symm.trans hkey) nofun
  · intro _
    exact Or.inl List.mem_cons_self
  · intro k hk
    refine ⟨(hqueued.others k hk).1, fun hmem => ?_⟩
    exact (h.others k hk).2 ((List.mem_cons.mp hmem).resolve_left hk)

/-- **A call** waits, starts the fetch or is answered. -/
theorem wp_decryptContent_shared (h : x.Shares t) (ho : Ordered order t) (hset : callbacks.Set)
    (hid : callbacks.id ∉ order)
    (hnames : NamesKey x.ckKey (x.contents callbacks.id) cipherText) :
    (decryptContent x.platform (x.contents callbacks.id) callbacks).wp (x.contract order)
      (fun _ u => (x.Shares u ∧ Ordered order u) ∧ x.Keeps order t u) t := by
  have haccepted := h.accept callbacks.id
  have hordered : Ordered order (accept callbacks.id t) := ⟨ho.inOrder, ho.made, ho.unfetched⟩
  obtain ⟨ckName, hparse, hname⟩ := id hnames
  have hkeeps : t.m_ckEncAesCache.find x.ckKey = none →
      ∀ u : Consumer, u.invoked = t.invoked → x.Keeps order t u := fun hcache u hu =>
    ⟨fun key hkey => absurd (hcache.symm.trans hkey) nofun, by simp [answeredOf, replied, hu]⟩
  refine wp_decryptContent_of_parse (x.contract_returns order) hset hparse ?_ ?_ ?_ ?_
  all_goals rw [hname]
  · intro key hcache
    obtain rfl := h.cached key hcache
    have hreport := haccepted.report hnames
    have hother : ∀ result st,
        Ordered order (reported (callbacks.report result) st (accept callbacks.id t)) ∧
          answeredOf order (reported (callbacks.report result) st (accept callbacks.id t)) =
            answeredOf order t :=
      fun result st => hordered.report st (by rwa [Callbacks.id_report])
    refine ⟨⟨hreport, (hother _ _).1⟩, fun u hu hinv => ?_⟩
    exact ⟨hinv, hu.cached, hu.answered.trans (hother _ _).2⟩
  · intro hcache _
    exact ⟨⟨h.queue hset hnames, ho.inOrder, ho.made, ho.unfetched⟩, hkeeps hcache _ rfl⟩
  · intro hcache _ _
    exact ⟨⟨h.start hcache hset hnames, ho.inOrder, ho.made, ho.unfetched⟩, hkeeps hcache _ rfl⟩
  · intro _ _ hrefused
    exact absurd h.requests hrefused

/-- A call whose data is fetched first is left to that fetch. -/
theorem wp_consumeInterest_shared (h : x.Shares t) (ho : Ordered order t) (dataInterest : Name)
    {hasSuccess hasError : Bool} (hset : hasSuccess = true ∧ hasError = true) :
    (consumeInterest dataInterest hasSuccess hasError).wp (x.contract order)
      (fun _ u => (x.Shares u ∧ Ordered order u) ∧ x.Keeps order t u) t := by
  have hid : t.nextCall ∉ order := fun hmem => lt_irrefl _ (ho.made _ hmem)
  have hready : readyForDecryption { t with nextCall := t.nextCall + 1 } = true := h.ready
  simp only [consumeInterest, enterCall, Prog.wp_bind, Prog.wp_get, Prog.wp_set, Prog.wp_pure,
    Prog.andThen_ok, hready, if_true, Prog.wp_modify]
  refine ⟨⟨⟨h.ready, h.requests, h.same, h.cached, h.ended, h.fetched, h.waits, h.others, ?_,
    h.queued, h.answers⟩, ho.inOrder, fun id hmem => Nat.lt_succ_of_lt (ho.made id hmem), ?_⟩,
    fun _ hkey => ⟨hkey, rfl⟩, rfl⟩
  · intro f hf
    rcases List.mem_cons.mp hf with rfl | hold
    · exact hset
    · exact h.data f hold
  · intro f hf
    rcases List.mem_cons.mp hf with rfl | hold
    · exact hid
    · exact ho.unfetched f hold

/-- The operations of the application. -/
theorem wp_entry_shared (h : x.Shares t) (ho : Ordered order t) {entry : Entry}
    (hallowed : x.Allowed t (.enter entry)) :
    (entry.program x.platform).wp (x.contract order)
      (fun _ u => (x.Shares u ∧ Ordered order u) ∧ x.Keeps order t u) t := by
  -- The call that is made is none of `order`.
  have hid : t.nextCall ∉ order := fun hmem => lt_irrefl _ (ho.made _ hmem)
  have hmade : x.Shares { t with nextCall := t.nextCall + 1 } :=
    ⟨h.ready, h.requests, h.same, h.cached, h.ended, h.fetched, h.waits, h.others, h.data,
      h.queued, h.answers⟩
  have hordered : Ordered order { t with nextCall := t.nextCall + 1 } :=
    ⟨ho.inOrder, fun id hmem => Nat.lt_succ_of_lt (ho.made id hmem), ho.unfetched⟩
  cases entry with
  | consumeBlock dataBlock hasSuccess hasError =>
    obtain ⟨hset, rfl, cipherText, hnames⟩ := hallowed
    have hcallbacks : Callbacks.Set ⟨t.nextCall, hasSuccess, hasError⟩ := hset
    simp only [Entry.program, consumeBlock, enterCall, Prog.wp_bind, Prog.wp_get, Prog.wp_set,
      Prog.wp_pure, Prog.andThen_ok, hmade.ready, if_true]
    refine Prog.wp_mono ?_ (wp_decryptContent_shared hmade hordered hcallbacks hid hnames)
    rintro _ u ⟨hu, hkeeps⟩
    exact ⟨hu, hkeeps.cached, hkeeps.answered⟩
  | consumeInterest dataInterest hasSuccess hasError =>
    exact wp_consumeInterest_shared h ho dataInterest hallowed
  | consumeName dataName hasSuccess hasError =>
    simp only [Entry.program, consumeName, Prog.wp_bind, Prog.wp_get, Prog.wp_liftM,
      Prog.andThen_ok]
    cases t.timedInterest dataName with
    | error e => exact ⟨⟨h, ho⟩, (x.contract order).refl t⟩
    | ok interest => exact wp_consumeInterest_shared h ho interest.name hallowed
  | setDefaultTimeout defaultTimeout =>
    exact ⟨⟨⟨h.ready, ⟨h.requests.1, hallowed⟩, h.same, h.cached, h.ended, h.fetched, h.waits,
      h.others, h.data, h.queued, h.answers⟩, ho.inOrder, ho.made, ho.unfetched⟩,
      fun _ hkey => ⟨hkey, rfl⟩, rfl⟩
  | obtainDecryptionKey => exact hallowed.elim
  | abeCall call => exact hallowed.elim

/-! ## The end of the fetch -/

/-- Before each round of the loop: of the calls `order`, those of the remaining tasks are left. -/
structure Telling (x : SharedFetch) (order : List ℕ) (tasks rest : List PendingTask)
    (t : Consumer) : Prop where
  shares : x.Shares t
  made : ∀ id ∈ order, id < t.nextCall
  unfetched : ∀ f ∈ t.dataFetches, f.2.id ∉ order
  cached : t.m_ckEncAesCache.find x.ckKey = some x.encAesKey
  pending : t.m_pendingCallbacks.find x.ckKey = some tasks
  left : answeredOf order t ++ (callsOf rest).filter (· ∈ order) = order

variable {tasks rest : List PendingTask} {task : PendingTask}

theorem Telling.ordered (h : Telling x order tasks rest t) : Ordered order t :=
  ⟨⟨_, h.left⟩, h.made, h.unfetched⟩

theorem Telling.keeps (h : Telling x order tasks rest s) (ht : x.Keeps order s t)
    (hinv : x.Shares t ∧ Ordered order t) : Telling x order tasks rest t := by
  obtain ⟨hcache, hpending⟩ := ht.cached x.encAesKey h.cached
  exact ⟨hinv.1, hinv.2.made, hinv.2.unfetched, hcache, hpending.trans h.pending,
    ht.answered ▸ h.left⟩

/-- The fetch ends and the cache is filled. -/
theorem Shares.endFetch (h : x.Shares t) (hnodup : t.ckFetches.Nodup) :
    x.Shares (Consumer.fetched x.ckKey x.encAesKey t) := by
  refine ⟨h.ready, h.requests, h.same, ?_, ?_, ?_, h.waits, ?_, h.data, h.queued, h.answers⟩
  · intro key hkey
    simp only [Consumer.fetched, PartialMap.find_assign, if_true, Option.some.injEq] at hkey
    exact hkey.symm
  · exact fun _ _ => hnodup.not_mem_erase
  · exact fun _ => Or.inr (by simp [Consumer.fetched])
  · intro k hk
    refine ⟨(h.others k hk).1, fun hmem => (h.others k hk).2 ?_⟩
    exact List.mem_of_mem_erase hmem

/-- A task is told. -/
theorem Telling.tell (h : Telling x order tasks (task :: rest) t)
    (hnames : NamesKey x.ckKey (x.contents task.callbacks.id) task.cipher) :
    let decrypted := decryption x.platform { task.cipher with m_contentKey := ⟨[], x.encAesKey⟩ } t
    Telling x order tasks rest (reported (task.callbacks.report decrypted.1) decrypted.2 t) := by
  intro decrypted
  refine ⟨h.shares.report hnames, h.made, h.unfetched, h.cached, h.pending, ?_⟩
  have hleft := h.left
  rw [answeredOf_reported, Callbacks.id_report, List.append_assoc]
  simp only [callsOf, List.map_cons, List.filter_cons, decide_eq_true_eq] at hleft ⊢
  split_ifs at hleft ⊢
  · exact hleft
  · exact hleft

/-- All tasks are told. -/
theorem Telling.finish (h : Telling x order tasks [] t) :
    (x.contract order).idle (eraseSent x.ckKey (erasePending x.ckKey t)) := by
  have hdone : answeredOf order t = order := by
    have hleft := h.left
    rwa [callsOf, List.map_nil, List.filter_nil, List.append_nil] at hleft
  have hs := h.shares
  have htasks : (eraseSent x.ckKey (erasePending x.ckKey t)).tasksUnder x.ckKey = [] := by
    simp [tasksUnder, eraseSent, erasePending]
  refine ⟨⟨⟨hs.ready, hs.requests, hs.same, hs.cached, hs.ended, ?_, ?_, ?_, hs.data, ?_,
    hs.answers⟩, h.ordered.inOrder, h.made, h.unfetched⟩, hdone⟩
  · intro hmark
    exact absurd rfl (Finset.mem_erase.mp hmark).1
  · intro task htask
    rw [htasks] at htask
    cases htask
  · intro k hk
    refine ⟨?_, (hs.others k hk).2⟩
    rw [← (hs.others k hk).1]
    exact if_neg hk
  · rw [htasks]
    exact List.nil_sublist _

/-- **The handler** tells all tasks, in order. -/
theorem wp_onCkComplete_shared (h : x.Shares t) (hmade : ∀ id ∈ order, id < t.nextCall)
    (hunfetched : ∀ f ∈ t.dataFetches, f.2.id ∉ order) (hnodup : t.ckFetches.Nodup)
    (hpending : t.m_pendingCallbacks.find x.ckKey = some tasks)
    (hleft : answeredOf order t ++ (callsOf tasks).filter (· ∈ order) = order) :
    (onCkComplete x.platform x.ckKey x.contentBuffer).wp (x.contract order)
      (fun _ u => (x.contract order).idle u) t := by
  have hwaits : ∀ task ∈ tasks, task.callbacks.Set ∧
      NamesKey x.ckKey (x.contents task.callbacks.id) task.cipher := by
    intro task htask
    refine h.waits task ?_
    rwa [tasksUnder, hpending]
  have hfetched : Telling x order tasks tasks (fetched x.ckKey x.encAesKey t) :=
    ⟨h.endFetch hnodup, hmade, hunfetched, by simp [fetched], hpending, hleft⟩
  refine wp_onCkComplete_of_steady (x.contract_returns order) x.carries (Telling x order tasks)
    (fun hu => hu.pending) (fun task htask => (hwaits task htask).1) ?_ (fun u hu => hu.finish)
    hfetched
  intro task rest u hsuffix hu
  have htold := hu.tell (hwaits task (hsuffix.subset List.mem_cons_self)).2
  exact ⟨⟨htold.shares, htold.ordered⟩, fun v hv hinv => htold.keeps hv hinv⟩

/-- The fetch completes where all of `order` has been answered: none of those who wait is of
`order`. -/
theorem wp_ckComplete_shared (h : (x.contract order).idle t) (hquiet : Quiet t)
    (hfetch : x.ckKey ∈ t.ckFetches) :
    (onCkComplete x.platform x.ckKey x.contentBuffer).wp (x.contract order)
      (fun _ u => (x.contract order).idle u) t := by
  obtain ⟨⟨hshares, hordered⟩, hdone⟩ := h
  obtain ⟨first, rest, hpending⟩ := hquiet.ledger.flight.awaited x.ckKey hfetch
  have htasks : t.tasksUnder x.ckKey = first :: rest := by simp [tasksUnder, hpending]
  have hnone : (callsOf (first :: rest)).filter (· ∈ order) = [] := by
    refine List.filter_eq_nil_iff.mpr fun id hid hmem => ?_
    rw [← hdone] at hmem
    have hreplied := (List.mem_filter.mp (of_decide_eq_true hmem)).1
    exact (hquiet.ledger.unanswered x.ckKey hfetch id (htasks ▸ hid)).2 hreplied
  have hleft : answeredOf order t ++ (callsOf (first :: rest)).filter (· ∈ order) = order := by
    rw [hnone, List.append_nil]
    exact hdone
  exact wp_onCkComplete_shared hshares hordered.made hordered.unfetched
    hquiet.ledger.flight.nodup hpending hleft

/-- The content of a call arrives. -/
theorem wp_onDataComplete_shared (h : (x.contract order).idle t) {fetch : Name × Callbacks}
    (hfetch : fetch ∈ t.dataFetches) {contentBuffer : Bytes}
    (hblock : Block.ofBuffer contentBuffer = .ok (x.contents fetch.2.id))
    (hnames : x.Names fetch.2.id) :
    (onDataComplete x.platform fetch contentBuffer).wp (x.contract order)
      (fun _ u => (x.contract order).idle u) t := by
  obtain ⟨⟨hshares, hordered⟩, hdone⟩ := h
  obtain ⟨cipherText, hnames⟩ := hnames
  have hmem : ∀ f ∈ t.dataFetches.erase fetch, f ∈ t.dataFetches :=
    fun f hf => List.mem_of_mem_erase hf
  have hleft : x.Shares { t with dataFetches := t.dataFetches.erase fetch } := ⟨hshares.ready,
    hshares.requests, hshares.same, hshares.cached, hshares.ended, hshares.fetched, hshares.waits,
    hshares.others, fun f hf => hshares.data f (hmem f hf), hshares.queued, hshares.answers⟩
  have hordered' : Ordered order { t with dataFetches := t.dataFetches.erase fetch } :=
    ⟨hordered.inOrder, hordered.made, fun f hf => hordered.unfetched f (hmem f hf)⟩
  simp only [onDataComplete, Prog.wp_bind, Prog.wp_modify, Prog.andThen_ok, Prog.wp_liftM, hblock]
  refine Prog.wp_mono ?_ (wp_decryptContent_shared hleft hordered' (hshares.data fetch hfetch)
    (hordered.unfetched fetch hfetch) hnames)
  rintro _ u ⟨hu, hkeeps⟩
  exact ⟨hu, hkeeps.answered.trans hdone⟩

/-- The handlers of the event loop. -/
theorem wp_event_shared (h : (x.contract order).idle t) (hquiet : Quiet t) {event : Event}
    (hallowed : x.Allowed t (.event event)) (he : event.enabled t = true) :
    (event.program x.platform).wp (x.contract order)
      (fun _ u => (x.contract order).idle u) t := by
  cases event with
  | ckComplete ckKey contentBuffer =>
    obtain ⟨rfl, rfl⟩ := hallowed
    exact wp_ckComplete_shared h hquiet (by simpa [Event.enabled] using he)
  | dataComplete fetch contentBuffer =>
    obtain ⟨hblock, hnames⟩ := hallowed
    exact wp_onDataComplete_shared h (by simpa [Event.enabled] using he) hblock hnames
  | ckError _ _ => exact hallowed.elim
  | dataError _ _ => exact hallowed.elim
  | keyComplete _ _ => exact hallowed.elim
  | keyError _ => exact hallowed.elim
  | publicParams _ _ => exact hallowed.elim

end SharedFetch

end NacAbe.Analysis
