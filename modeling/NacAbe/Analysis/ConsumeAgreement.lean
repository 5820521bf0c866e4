import NacAbe.Analysis.NoLostConsume
import NacAbe.Analysis.SharedFetch

/-!
# The outcome of a consume does not depend on how its key was obtained

Three ways lead to a decryption: the task that starts the fetch of its content key, the
tasks that wait for it, and the calls that find the key in the cache
(consumer.cpp:199-217 and 279-311).  Whichever a call takes, and whenever it is made, it is told
what it is told when it is made alone (`alone`); the tasks that wait for one fetch are told
in the order in which they were queued.

`Shares` says what answers are given, `Ledger` that every call gets one; both are kept
by the same runs, so their contracts are joined.
-/

set_option autoImplicit false

namespace NacAbe.Analysis

open NacAbe Consumer

namespace SharedFetch

variable {x : SharedFetch} {order : List ℕ} {c t : Consumer}
  {d e f : System.Config Consumer Exn Invocation}

/-! ## A call alone -/

/-- The consumer after one call alone: the call is made, then the fetch completes. -/
def alone (x : SharedFetch) (id : ℕ) : Consumer :=
  let asked := ((consumeBlock x.platform (x.contents id) true true).exec x.start).2
  ((onCkComplete x.platform x.ckKey x.contentBuffer).exec asked).2

/-- The invocation tells its call what it is told alone. -/
def TellsAsAlone (x : SharedFetch) (invocation : Invocation) : Prop :=
  ∃ told, (x.alone invocation.id).invoked = x.start.invoked ++ [told] ∧
    invocation.outcome = told.outcome

/-- The consumer that waits for the key with one task. -/
def asked (x : SharedFetch) (cipherText : CipherText) : Consumer :=
  startCkFetch x.ckKey (taken x.ckKey ⟨cipherText, ⟨x.start.nextCall, true, true⟩⟩
    { x.start with nextCall := x.start.nextCall + 1 })

/-- What the call alone does: it queues its task and starts the fetch. -/
theorem exec_consumeBlock_alone {content : Block} {cipherText : CipherText}
    (hnames : NamesKey x.ckKey content cipherText) :
    (consumeBlock x.platform content true true).exec x.start = (.ok (), x.asked cipherText) := by
  obtain ⟨ckName, hparse, hname⟩ := hnames
  rw [exec_consumeBlock_of_ready _ _ _ _ x.ready]
  apply Prog.exec_eq_of_wp
  refine wp_decryptContent_of_parse Prog.silent_returns ⟨rfl, rfl⟩ hparse ?_ ?_ ?_ ?_
  all_goals rw [hname]
  · exact fun _ hcached => absurd (x.uncached.symm.trans hcached) nofun
  · exact fun _ hmark => absurd hmark x.unmarked
  · exact fun _ _ _ => ⟨rfl, rfl⟩
  · exact fun _ _ hrefused => absurd x.requests hrefused

/-- Before each round of the loop: the task is told, or remains. -/
structure TellingAlone (x : SharedFetch) (cipherText : CipherText) (rest : List PendingTask)
    (t : Consumer) : Prop where
  pending : t.m_pendingCallbacks.find x.ckKey =
    some [⟨cipherText, ⟨x.start.nextCall, true, true⟩⟩]
  same : ∀ other, (decryption x.platform other t).1 = (decryption x.platform other x.start).1
  told : t.invoked ++ rest.map (fun task => task.callbacks.report (x.result task.cipher)) =
    x.start.invoked ++ [Callbacks.report ⟨x.start.nextCall, true, true⟩ (x.result cipherText)]

/-- The task is told the decryption with the key that arrived. -/
theorem TellingAlone.tell {cipherText : CipherText} {task : PendingTask} {rest : List PendingTask}
    (h : TellingAlone x cipherText (task :: rest) t) :
    let decrypted := decryption x.platform { task.cipher with m_contentKey := ⟨[], x.encAesKey⟩ } t
    TellingAlone x cipherText rest
      (reported (task.callbacks.report decrypted.1) decrypted.2 t) := by
  intro decrypted
  have hresult : decrypted.1 = x.result task.cipher := h.same _
  refine ⟨h.pending, ?_, ?_⟩
  · intro other
    exact (decryption_stable x.platform _ other t).trans (h.same other)
  · have htold := h.told
    rw [List.map_cons] at htold
    rw [hresult, reported, List.append_assoc]
    exact htold

/-- The one task is told. -/
theorem invoked_alone {id : ℕ} {cipherText : CipherText}
    (hpending : x.start.m_pendingCallbacks.find x.ckKey = none)
    (hnames : NamesKey x.ckKey (x.contents id) cipherText) :
    (x.alone id).invoked = x.start.invoked ++
      [Callbacks.report ⟨x.start.nextCall, true, true⟩ (x.result cipherText)] := by
  have hwp : (onCkComplete x.platform x.ckKey x.contentBuffer).wp (Prog.silent _ _ _)
      (fun _ t => t.invoked = x.start.invoked ++
        [Callbacks.report ⟨x.start.nextCall, true, true⟩ (x.result cipherText)])
      (x.asked cipherText) := by
    refine wp_onCkComplete_of_steady Prog.silent_returns x.carries (TellingAlone x cipherText)
      (fun h => h.pending) ?_ ?_ ?_ ?_
    · intro task htask
      rw [List.mem_singleton.mp htask]
      exact ⟨rfl, rfl⟩
    · intro task rest t _ ht
      refine ⟨trivial, ?_⟩
      rintro u rfl -
      exact ht.tell
    · intro t ht
      have htold := ht.told
      rwa [List.map_nil, List.append_nil] at htold
    · refine ⟨?_, fun _ => rfl, rfl⟩
      simp [asked, startCkFetch, taken, queue, fetched, endCkFetch, accept, hpending]
  rw [alone, exec_consumeBlock_alone hnames]
  exact (Prog.wp_silent_iff _ _ _).mp hwp

theorem answers_asAlone (hpending : x.start.m_pendingCallbacks.find x.ckKey = none)
    {invocation : Invocation} (h : x.Answers invocation) : x.TellsAsAlone invocation := by
  obtain ⟨cipherText, hnames, hinvocation⟩ := h
  refine ⟨_, invoked_alone hpending hnames, ?_⟩
  rw [hinvocation, Callbacks.outcome_report, Callbacks.outcome_report]

/-! ## Both contracts at once -/

/-- The callbacks of the run return. -/
theorem wellBehaved_of_allowed {a : System.Act Exn Entry Event} (h : x.Allowed c a) :
    WellBehaved a := by
  obtain ⟨ckBlock, encrypted, hblock, hget, -⟩ := x.carries
  cases a with
  | enter entry =>
    cases entry with
    | consumeBlock _ _ _ => exact h.1
    | consumeInterest _ _ _ => exact h
    | consumeName _ _ _ => exact h
    | _ => trivial
  | resume o => exact h
  | event event =>
    cases event with
    | ckComplete _ _ =>
      obtain ⟨-, rfl⟩ := h
      exact ⟨ckBlock, encrypted, hblock, hget⟩
    | _ => trivial

/-- A marked name is being fetched or is cached. -/
theorem Shares.not_retriesFailed (h : x.Shares c) {dataBlock : Block} {hasSuccess hasError : Bool}
    (hallowed : x.Allowed c (.enter (.consumeBlock dataBlock hasSuccess hasError))) :
    ¬ RetriesFailed c dataBlock := by
  rintro ⟨-, cipherText, ckName, hparse, hmark, hfetch, hcache⟩
  obtain ⟨-, rfl, other, ckName', hparse', hname⟩ := hallowed
  obtain ⟨-, rfl⟩ := Prod.mk.inj (Except.ok.inj (hparse.symm.trans hparse'))
  rw [hname] at hmark hfetch hcache
  rcases h.fetched hmark with hfetch' | hcached
  · exact hfetch hfetch'
  · rw [hcache] at hcached
    cases hcached

/-- The Interest for the key can be made. -/
theorem Shares.not_strands (h : x.Shares c) {content : Block} {cipherText : CipherText}
    (hnames : NamesKey x.ckKey content cipherText) : ¬ Strands content c := by
  rintro ⟨_, _, hparse, hobtain⟩
  obtain ⟨ckName, hparse', hname⟩ := hnames
  cases hparse'.symm.trans hparse
  rw [hname] at hobtain
  exact hobtain (Or.inr (Or.inr h.requests))

/-- The steps of such runs lose no call. -/
theorem Shares.losesNone (h : x.Shares d.st) {a : System.Act Exn Entry Event}
    (hallowed : x.Allowed d.st a) : LosesNone d a where
  behaved := wellBehaved_of_allowed hallowed
  retries := by
    rintro dataBlock hasSuccess hasError rfl
    exact h.not_retriesFailed hallowed
  strands := by
    cases a with
    | enter entry =>
      cases entry with
      | consumeBlock dataBlock _ _ =>
        obtain ⟨-, rfl, cipherText, hnames⟩ := hallowed
        exact fun _ => h.not_strands hnames
      | _ => trivial
    | resume o => trivial
    | event event =>
      cases event with
      | dataComplete fetch contentBuffer =>
        obtain ⟨hblock, cipherText, hnames⟩ := hallowed
        intro content hcontent
        cases hblock.symm.trans hcontent
        exact h.not_strands hnames
      | _ => trivial

/-- **Runs of calls of one key** keep the ledger and give the answers. -/
theorem good_of_allowed (hd : System.Good (ledgerContract.and (x.contract order)) d.frames d.st)
    (h : (Consumer.system x.platform).Reaches (fun d a => x.Allowed d.st a) d e) :
    System.Good (ledgerContract.and (x.contract order)) e.frames e.st := by
  refine System.good_of_reaches ?_ ?_ ?_ hd h
  · rintro d entry hallowed ⟨hledger, hshares, hordered⟩
    have haccounted : (entry.program x.platform).wp ledgerContract
        (fun _ t => Accounted d.st t) d.st :=
      wp_entry_accounted hledger (hshares.losesNone hallowed)
    refine Prog.wp_mono ?_ (Prog.wp_and haccounted (wp_entry_shared hshares hordered hallowed))
    rintro _ t ⟨haccounted, hshared, hkeeps⟩
    exact ⟨⟨haccounted.1, hshared⟩, haccounted.2, hkeeps⟩
  · rintro d event hallowed henabled ⟨hquiet, hidle⟩
    exact Prog.wp_and (wp_event_quiet hquiet (hidle.1.1.losesNone hallowed) henabled)
      (wp_event_shared hidle hquiet hallowed henabled)
  · intro d f fs o _ hallowed
    exact ⟨hallowed, hallowed⟩

/-! ## Before the fetch completes -/

theorem pending_start (h : Quiet x.start) : x.start.m_pendingCallbacks.find x.ckKey = none := by
  cases hfind : x.start.m_pendingCallbacks.find x.ckKey with
  | none => rfl
  | some tasks => exact absurd (h.ledger.flight.pending _ _ hfind) x.unmarked

theorem tasksUnder_start (h : Quiet x.start) : x.start.tasksUnder x.ckKey = [] := by
  simp [tasksUnder, pending_start h]

/-- The start shares the fetch: nobody has asked yet. -/
theorem shares_start (h : Quiet x.start) : x.Shares x.start where
  ready := x.ready
  requests := x.requests
  same _ := rfl
  cached := by
    intro key hkey
    cases x.uncached.symm.trans hkey
  ended := by
    intro key hkey
    cases x.uncached.symm.trans hkey
  fetched hmark := absurd hmark x.unmarked
  waits := by
    rw [tasksUnder_start h]
    exact List.forall_mem_nil _
  others _ _ := ⟨rfl, id⟩
  data f hf := (h.ledger.dataFetch f hf).1
  queued := by
    rw [tasksUnder_start h]
    exact List.nil_sublist _
  answers := ⟨[], (List.append_nil _).symm, List.forall_mem_nil _⟩

theorem good_start (h : Quiet x.start) :
    System.Good (ledgerContract.and (x.contract [])) [] x.start := by
  have hnone : answeredOf [] x.start = [] := by simp [answeredOf]
  have hordered : Ordered [] x.start :=
    ⟨hnone.symm ▸ List.prefix_rfl, List.forall_mem_nil _, fun _ _ => List.not_mem_nil⟩
  exact ⟨h, ⟨shares_start h, hordered⟩, hnone⟩

/-! ## The tasks that wait -/

/-- The calls that wait for the key. -/
def waiters (x : SharedFetch) (c : Consumer) : List ℕ := callsOf (c.tasksUnder x.ckKey)

/-- The fetch that completes in `d` tells those who wait in the order in which they were
accepted and queued, whatever is called meanwhile. -/
def TellsInOrder (x : SharedFetch) (d : System.Config Consumer Exn Invocation) : Prop :=
  (x.waiters d.st).Sublist d.st.accepted.reverse ∧
    ∀ e f, (Consumer.system x.platform).step d (.event (.ckComplete x.ckKey x.contentBuffer)) =
      some e → (Consumer.system x.platform).Reaches (fun d a => x.Allowed d.st a) e f →
      answeredOf (x.waiters d.st) f.st <+: x.waiters d.st ∧
        (f.frames = [] → answeredOf (x.waiters d.st) f.st = x.waiters d.st)

/-- Once the fetch has completed, the contract holds with the order of the queue. -/
theorem wp_onCkComplete_waiters (hquiet : Quiet c) (hshares : x.Shares c)
    (hfetch : x.ckKey ∈ c.ckFetches) :
    (onCkComplete x.platform x.ckKey x.contentBuffer).wp
      (ledgerContract.and (x.contract (x.waiters c)))
      (fun _ t => (ledgerContract.and (x.contract (x.waiters c))).idle t) c := by
  obtain ⟨ckBlock, encrypted, hblock, hget, -⟩ := x.carries
  obtain ⟨first, rest, hpending⟩ := hquiet.ledger.flight.awaited x.ckKey hfetch
  have hwaiters : x.waiters c = callsOf (first :: rest) := by
    simp [waiters, tasksUnder, hpending]
  have hunanswered := hquiet.ledger.unanswered x.ckKey hfetch
  have hmade : ∀ id ∈ x.waiters c, id < c.nextCall :=
    fun id hid => hquiet.ledger.made id (hunanswered id hid).1
  have hunfetched : ∀ f ∈ c.dataFetches, f.2.id ∉ x.waiters c :=
    fun f hf hid => (hquiet.ledger.dataFetch f hf).2.2 (hunanswered _ hid).1
  have hnone : answeredOf (x.waiters c) c = [] := by
    refine List.filter_eq_nil_iff.mpr fun id hreplied hmem => ?_
    exact (hunanswered id (of_decide_eq_true hmem)).2 hreplied
  have hleft : answeredOf (x.waiters c) c ++
      (callsOf (first :: rest)).filter (· ∈ x.waiters c) = x.waiters c := by
    rw [hnone, List.nil_append, ← hwaiters]
    exact List.filter_eq_self.mpr fun id hid => decide_eq_true hid
  exact Prog.wp_and (wp_onCkComplete_quiet hquiet hfetch ⟨ckBlock, encrypted, hblock, hget⟩)
    (wp_onCkComplete_shared hshares hmade hunfetched hquiet.ledger.flight.nodup hpending hleft)

/-- A good configuration has told the calls in their order so far. -/
theorem tellsInOrder_of_good
    (hd : System.Good (ledgerContract.and (x.contract [])) d.frames d.st) : x.TellsInOrder d := by
  refine ⟨hd.inv.2.1.queued, fun e f hstep hreach => ?_⟩
  obtain ⟨hidle, henabled, rfl⟩ := System.step_event hstep
  rw [hidle] at hd
  obtain ⟨hquiet, ⟨hshares, -⟩, -⟩ := hd
  have hfetch : x.ckKey ∈ d.st.ckFetches := by
    simpa [Consumer.system, Event.enabled] using henabled
  have hgood := good_of_allowed
    (System.good_start (wp_onCkComplete_waiters hquiet hshares hfetch)) hreach
  refine ⟨hgood.inv.2.2.inOrder, fun hframes => ?_⟩
  rw [hframes] at hgood
  exact hgood.2.2

/-! ## The result -/

/-- When the fetch is over every call that was accepted is answered. -/
theorem Shares.answered (h : x.Shares c) (hquiet : Quiet c) (hstart : Quiet x.start)
    (hended : x.ckKey ∉ c.ckFetches) {id : ℕ} (hid : id ∈ c.accepted)
    (hnew : id ∉ x.start.accepted) : id ∈ c.replied := by
  by_contra hopen
  refine hquiet.paid id ⟨hid, hopen, ?_⟩
  rintro ⟨k, hk, hwaits⟩
  have hother : k ≠ x.ckKey := by
    rintro rfl
    exact hended hk
  obtain ⟨hpending, hfetching⟩ := h.others k hother
  rw [tasksUnder_congr hpending] at hwaits
  exact hnew (hstart.ledger.unanswered k (hfetching hk) id hwaits).1

end SharedFetch

open SharedFetch

/-- **The outcome of a consume does not depend on how its key was obtained.**  Take a consumer
that any run has left ready, with a key neither cached nor asked for that can be asked for,
and any run of calls of `consume` whose content names the key, however they are placed around
the one fetch of it.  Every answer of the run is what the call is told alone, no call is
answered twice, once the fetch is over every call has been answered, and those who waited for
it in their order.  Where the cipher text or the encrypted key holds no NUL, the octets behind
it are read as well, and this rests on `Memory`, which puts the same ones behind equal octets
at every read. -/
theorem consume_outcome_agrees (x : SharedFetch)
    (identityCert attrAuthorityCertificate : Certificate) (template : Interest)
    (d : System.Config Consumer Exn Invocation)
    (hstart : (Consumer.system x.platform).Reaches LosesNone
      ⟨Consumer.initial identityCert attrAuthorityCertificate template, []⟩ ⟨x.start, []⟩)
    (h : (Consumer.system x.platform).Reaches (fun d a => x.Allowed d.st a) ⟨x.start, []⟩ d) :
    (∃ told, d.st.invoked = x.start.invoked ++ told ∧
      (∀ invocation ∈ told, x.TellsAsAlone invocation) ∧ (told.map Invocation.id).Nodup ∧
      (d.frames = [] → x.ckKey ∉ d.st.ckFetches → ∀ id ∈ d.st.accepted,
        id ∉ x.start.accepted → id ∈ told.map Invocation.id)) ∧
    x.TellsInOrder d := by
  have hquiet : Quiet x.start := ledger_good_of_reaches (quiet_initial _ _ _) hstart
  have hgood : System.Good (ledgerContract.and (x.contract [])) d.frames d.st :=
    good_of_allowed (good_start hquiet) h
  obtain ⟨hledger, hshares, -⟩ := hgood.inv
  obtain ⟨told, hinvoked, htold⟩ := hshares.answers
  have hreplied : d.st.replied = x.start.replied ++ told.map Invocation.id := by
    rw [replied, hinvoked, List.map_append, replied]
  refine ⟨⟨told, hinvoked, ?_, ?_, ?_⟩, tellsInOrder_of_good hgood⟩
  · exact fun invocation hmem => answers_asAlone (pending_start hquiet) (htold invocation hmem)
  · have honce := hledger.once
    rw [hreplied] at honce
    exact honce.of_append_right
  · intro hframes hended id hid hnew
    rw [hframes] at hgood
    have hanswered := hshares.answered hgood.1 hquiet hended hid hnew
    rw [hreplied, List.mem_append] at hanswered
    exact hanswered.resolve_left fun hold => hnew (hquiet.ledger.accepted id hold)

/-- A ready consumer is asked for the same content again and again. -/
def askedAgain : SharedFetch where
  platform := mockPlatform
  start := ready
  ckKey := ckName
  contentBuffer := ckBlock.encode
  encAesKey := MockAbe.enclose (ascii "x") [4] ++ [0]
  contents _ := contentBlock
  ready := rfl
  uncached := rfl
  unmarked := Finset.notMem_empty _
  requests := by decide
  carries := carriesKey_ckBlock

/-- Two calls wait for the key, a third is made from inside the callback of the first. -/
theorem consume_outcome_agrees_example :
    ∃ d, (Consumer.system mockPlatform).run ⟨ready, []⟩
        [.enter (.consumeBlock contentBlock true true),
          .enter (.consumeBlock contentBlock true true),
          .event (.ckComplete ckName ckBlock.encode),
          .enter (.consumeBlock contentBlock true true), .resume none, .resume none,
          .resume none] = some d ∧
      d.st.invoked.map Invocation.id = [0, 2, 1] ∧
      (∀ invocation ∈ d.st.invoked, askedAgain.TellsAsAlone invocation) ∧
      askedAgain.TellsInOrder d := by
  have hrun : ∃ d, (Consumer.system mockPlatform).run ⟨ready, []⟩
      [.enter (.consumeBlock contentBlock true true),
        .enter (.consumeBlock contentBlock true true),
        .event (.ckComplete ckName ckBlock.encode),
        .enter (.consumeBlock contentBlock true true), .resume none, .resume none,
        .resume none] = some d ∧ d.st.invoked.map Invocation.id = [0, 2, 1] := ⟨_, rfl, rfl⟩
  obtain ⟨d, hrun, hids⟩ := hrun
  have hstart : (Consumer.system mockPlatform).Reaches LosesNone ⟨fresh, []⟩ ⟨ready, []⟩ :=
    reaches_ready (fun _ => ⟨trivial, nofun, trivial⟩) (fun _ => ⟨trivial, nofun, trivial⟩)
      (fun _ => ⟨trivial, nofun, trivial⟩)
  have hreach : (Consumer.system mockPlatform).Reaches (fun d a => askedAgain.Allowed d.st a)
      ⟨ready, []⟩ d := by
    refine System.reaches_of_run ?_ hrun
    intro e a ha
    have hparse : parseContent contentBlock = .ok (cipherText, ckName) := by decide +kernel
    have hcall : askedAgain.Allowed e.st (.enter (.consumeBlock contentBlock true true)) :=
      ⟨⟨rfl, rfl⟩, rfl, cipherText, ckName, hparse, rfl⟩
    simp only [List.mem_cons, List.not_mem_nil, or_false] at ha
    rcases ha with rfl | rfl | rfl | rfl | rfl | rfl | rfl
    · exact hcall
    · exact hcall
    · exact ⟨rfl, rfl⟩
    · exact hcall
    · rfl
    · rfl
    · rfl
  obtain ⟨⟨told, hinvoked, htold, -⟩, hinOrder⟩ := consume_outcome_agrees askedAgain
    (.sample (ascii "c") [9]) (.sample (ascii "a") [8]) ParamFetcher.defaultInterestTemplate d
    hstart hreach
  have hfirst : askedAgain.start.invoked = [] := rfl
  rw [hfirst, List.nil_append] at hinvoked
  exact ⟨d, hrun, hids, hinvoked ▸ htold, hinOrder⟩

end NacAbe.Analysis
