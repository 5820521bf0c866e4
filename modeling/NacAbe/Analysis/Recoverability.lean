import NacAbe.Analysis.AccessControl
import NacAbe.Analysis.EndToEnd

/-!
# No consumer is stuck

`m_ckInterestsSent` keeps later calls from fetching a content key that is being fetched, so a
mark that outlives its fetch would block its name for good.  Two things clear the way: a
handler that is left by an exception of a success callback has put the key in the cache
before (consumer.cpp:246-254), and one that tells errors clears the mark once the callbacks
have returned.  So where error callbacks return and no content is taken on whose content key
cannot be asked for, no name is ever marked without a fetch or a cached key
(`fetched_of_reaches`), and from everywhere, whatever has failed before, a consumer gets to
produced content that it has a key for (`content_isConsumable`).
-/

set_option autoImplicit false

namespace NacAbe.Analysis

open NacAbe Consumer

/-- The name is marked, and its key is neither being fetched nor cached. -/
def Orphan (c : Consumer) (ckKey : Name) : Prop :=
  ckKey ∈ c.m_ckInterestsSent ∧ ckKey ∉ c.ckFetches ∧ c.m_ckEncAesCache.find ckKey = none

/-- An error callback ends without an exception. -/
def ErrorReturns (call : Invocation) (o : Option Exn) : Prop :=
  ∀ id what, call = .error id what → o = none

/-- Success callbacks may throw, error callbacks do not. -/
def ErrorsReturn (d : System.Config Consumer Exn Invocation) : System.Act Exn Entry Event → Prop
  | .resume o => ∀ f fs, d.frames = f :: fs → ErrorReturns f.1 o
  | _ => True

/-- Between events there is no orphan, and the application makes none. -/
def orphanContract : Contract Consumer Exn Invocation where
  inv _ := True
  idle c := ∀ ckKey, ¬ Orphan c ckKey
  rely c t := ∀ ckKey, Orphan t ckKey → Orphan c ckKey
  ends := ErrorReturns
  inv_of_idle _ := trivial
  refl _ _ h := h
  trans h h' ckKey hu := h ckKey (h' ckKey hu)
  idle_of_rely h hr _ ckKey ht := h ckKey (hr ckKey ht)

variable {p : Platform} {x : Supply p} {c t : Consumer} {callbacks : Callbacks}

/-! ## What a report leaves alone -/

theorem guarantees_invokeSuccess (callbacks : Callbacks) (result : Bytes) (c : Consumer) :
    Prog.Guarantees orphanContract (invokeSuccess callbacks result) c := by
  unfold invokeSuccess
  split
  · exact .modify_bind (fun _ h => h) (.callOut trivial _)
  · exact .throw trivial _

theorem guarantees_invokeError (callbacks : Callbacks) (what : String) (c : Consumer) :
    Prog.Guarantees orphanContract (invokeError callbacks what) c := by
  unfold invokeError
  split
  · exact .modify_bind (fun _ h => h) (.callOut trivial _)
  · exact .throw trivial _

theorem guarantees_reportException (callbacks : Callbacks) (e : Exn) (c : Consumer) :
    Prog.Guarantees orphanContract (reportException callbacks e) c := by
  unfold reportException
  split
  · exact guarantees_invokeError callbacks _ c
  · exact .throw trivial _

theorem guarantees_decryptAndReport (p : Platform) (cipherText : CipherText)
    (callbacks : Callbacks) (c : Consumer) :
    Prog.Guarantees orphanContract (decryptAndReport p cipherText callbacks) c := by
  have hsteady : orphanContract.rely c
      { c with abeSupport := (Consumer.decryption p cipherText c).2 } := fun _ h => h
  have hcaught : ∀ {q : ConsumerM Unit} {t}, orphanContract.rely c t →
      Prog.Guarantees orphanContract q t →
      q.wp orphanContract (Prog.orElse orphanContract (reportException callbacks)
        fun _ u => orphanContract.inv u ∧ orphanContract.rely c u) t := by
    intro q t hct hq
    refine Prog.wp_mono (fun r u hu => ?_) hq
    have hcu : orphanContract.rely c u := orphanContract.trans hct hu.2
    cases r with
    | ok _ => exact ⟨trivial, hcu⟩
    | error e => exact (guarantees_reportException callbacks e u).mono hcu
  refine wp_decryptAndReport_of_report rfl ?_ ?_
  · intro plain _
    exact hcaught hsteady (guarantees_invokeSuccess callbacks plain _)
  · intro what _
    have herror := guarantees_invokeError callbacks what
      { c with abeSupport := (Consumer.decryption p cipherText c).2 }
    exact ⟨herror.mono hsteady, hcaught hsteady herror⟩

/-! ## The application -/

/-- A call on content makes no orphan unless its content key cannot be asked for. -/
theorem guarantees_decryptContent (p : Platform) {content : Block} {c : Consumer}
    (h : ¬ Strands content c) (callbacks : Callbacks) :
    Prog.Guarantees orphanContract (decryptContent p content callbacks) c := by
  simp only [Prog.Guarantees, decryptContent, Prog.wp_bind, Prog.wp_liftM]
  cases hparse : parseContent content with
  | error e => exact ⟨trivial, fun _ h => h⟩
  | ok parsed =>
    simp only [Prog.andThen_ok, Prog.wp_bind, Prog.wp_modify, Prog.wp_get]
    cases hfind : c.m_ckEncAesCache.find (normalizeCkKey parsed.2) with
    | some encAesKey =>
      exact (guarantees_decryptAndReport p _ callbacks (accept callbacks.id c)).mono fun _ h => h
    | none =>
      dsimp only
      split
      · exact ⟨trivial, fun _ h => h⟩
      · next hunmarked =>
        have hrequest := canRequest_of_not_strands h hparse hfind hunmarked
        have hinterest := timedInterest_of_canRequest
          (c := taken (normalizeCkKey parsed.2) ⟨parsed.1, callbacks⟩ c) hrequest
        simp only [Prog.wp_bind, Prog.wp_modify, Prog.andThen_ok, Prog.wp_get, Prog.wp_liftM]
        rw [taken, accept] at hinterest
        rw [hinterest]
        -- The name that is marked now is the one that is fetched.
        refine ⟨trivial, ?_⟩
        rintro ckKey ⟨hmark, hfetch, hcache⟩
        have hne : ckKey ≠ normalizeCkKey parsed.2 := by
          rintro rfl
          exact hfetch List.mem_cons_self
        exact ⟨Finset.mem_of_mem_insert_of_ne hmark hne,
          fun hold => hfetch (List.mem_cons_of_mem _ hold), hcache⟩

theorem guarantees_refuse (callbacks : Callbacks) (what : String) (c : Consumer) :
    Prog.Guarantees orphanContract (refuse callbacks what) c :=
  .modify_bind (fun _ h => h) (guarantees_invokeError callbacks what _)

theorem guarantees_consumeInterest (dataInterest : Name) (hasSuccess hasError : Bool)
    (c : Consumer) :
    Prog.Guarantees orphanContract (consumeInterest dataInterest hasSuccess hasError) c := by
  simp only [Prog.Guarantees, consumeInterest, enterCall, Prog.wp_bind, Prog.wp_get, Prog.wp_set,
    Prog.wp_pure, Prog.andThen_ok]
  split
  · exact ⟨trivial, fun _ h => h⟩
  · exact (guarantees_refuse ⟨c.nextCall, hasSuccess, hasError⟩ notReady
      { c with nextCall := c.nextCall + 1 }).mono fun _ h => h

/-- **An operation of the application** makes no orphan. -/
theorem guarantees_entry (p : Platform) {d : System.Config Consumer Exn Invocation}
    {entry : Entry} (h : StrandsNone d (.enter entry)) :
    Prog.Guarantees orphanContract (entry.program p) d.st := by
  cases entry with
  | consumeBlock dataBlock hasSuccess hasError =>
    simp only [Prog.Guarantees, Entry.program, consumeBlock, enterCall, Prog.wp_bind, Prog.wp_get,
      Prog.wp_set, Prog.wp_pure, Prog.andThen_ok]
    split
    · next hready =>
      have hstrands : ¬ Strands dataBlock { d.st with nextCall := d.st.nextCall + 1 } := h hready
      exact (guarantees_decryptContent p hstrands ⟨d.st.nextCall, hasSuccess, hasError⟩).mono
        fun _ h => h
    · exact (guarantees_refuse ⟨d.st.nextCall, hasSuccess, hasError⟩ notReady
        { d.st with nextCall := d.st.nextCall + 1 }).mono fun _ h => h
  | consumeInterest dataInterest hasSuccess hasError =>
    exact guarantees_consumeInterest dataInterest hasSuccess hasError d.st
  | consumeName dataName hasSuccess hasError =>
    simp only [Prog.Guarantees, Entry.program, consumeName, Prog.wp_bind, Prog.wp_get,
      Prog.wp_liftM, Prog.andThen_ok]
    cases d.st.timedInterest dataName with
    | error e => exact ⟨trivial, fun _ h => h⟩
    | ok interest => exact guarantees_consumeInterest interest.name hasSuccess hasError d.st
  | setDefaultTimeout defaultTimeout => exact ⟨trivial, fun _ h => h⟩
  | obtainDecryptionKey =>
    simp only [Prog.Guarantees, Entry.program, obtainDecryptionKey, Prog.wp_bind, Prog.wp_get,
      Prog.wp_liftM, Prog.andThen_ok]
    cases extractKeyNameFromCertName d.st.m_cert.getName with
    | error e => exact ⟨trivial, fun _ h => h⟩
    | ok keyName =>
      simp only [Prog.andThen_ok, Prog.wp_bind, Prog.wp_liftM]
      cases Interest.ofName (decryptionKeyName d.st.m_attrAuthorityPrefix keyName) with
      | error e => exact ⟨trivial, fun _ h => h⟩
      | ok interest => exact ⟨trivial, fun _ h => h⟩
  | abeCall call => exact ⟨trivial, fun _ h => h⟩

/-! ## The event loop -/

/-- Only the name whose fetch ends can become an orphan. -/
theorem eq_of_orphan_endCkFetch (h : orphanContract.idle c) {ckKey k : Name}
    (hk : Orphan (endCkFetch ckKey c) k) : k = ckKey := by
  obtain ⟨hmark, hfetch, hcache⟩ := hk
  by_contra hne
  exact h k ⟨hmark, fun hold => hfetch ((List.mem_erase_of_ne hne).mpr hold), hcache⟩

theorem idle_eraseSent {ckKey : Name} (h : ∀ k, Orphan c k → k = ckKey) :
    orphanContract.idle (eraseSent ckKey c) := by
  rintro k ⟨hmark, hfetch, hcache⟩
  obtain ⟨hne, hold⟩ := Finset.mem_erase.mp hmark
  exact hne (h k ⟨hold, hfetch, hcache⟩)

/-- **A fetch that brings a key.**  It is cached before anybody is told. -/
theorem wp_onCkComplete_orphan (h : orphanContract.idle c) {ckKey : Name}
    {contentBuffer encAesKey : Bytes} (hkey : CarriesKey contentBuffer encAesKey) :
    (onCkComplete p ckKey contentBuffer).wp orphanContract
      (fun _ t => orphanContract.idle t) c := by
  obtain ⟨ckBlock, encrypted, hblock, hget, rfl⟩ := hkey
  have hfetched : orphanContract.idle (fetched ckKey encrypted.value c) := by
    intro k hk
    have hcache : (fetched ckKey encrypted.value c).m_ckEncAesCache.find k = none := hk.2.2
    simp only [fetched, PartialMap.find_assign] at hcache
    split at hcache
    · cases hcache
    · next hne => exact hne (eq_of_orphan_endCkFetch h ⟨hk.1, hk.2.1, hcache⟩)
  have hend : ∀ t, orphanContract.idle t → orphanContract.idle (eraseSent ckKey t) :=
    fun t ht => idle_eraseSent fun k hk => absurd hk (ht k)
  simp only [onCkComplete, fillCache, broadcast, hblock, hget, Prog.wp_bind, Prog.wp_modify,
    Prog.wp_liftM, Prog.wp_tryCatch, Prog.orElse_ok, Prog.andThen_ok, Prog.wp_get]
  cases (endCkFetch ckKey c).m_pendingCallbacks.find ckKey with
  | none => exact hend _ hfetched
  | some tasks =>
    simp only [Prog.wp_bind]
    refine Prog.wp_walk_of_inv (J := orphanContract.idle) ?_ (fun t ht => hend _ ht) hfetched
    intro task t ht
    simp only [onCkeyData, hget, Prog.wp_bind, Prog.wp_liftM, Prog.andThen_ok]
    refine Prog.wp_mono (fun r u hu => ?_) (guarantees_decryptAndReport p _ task.callbacks t)
    have hidle : orphanContract.idle u := orphanContract.idle_of_rely ht hu.2 hu.1
    cases r with
    | ok _ => exact hidle
    | error e => exact hidle

/-- **A fetch that fails.**  The loop over the waiting tasks goes on to its end. -/
theorem wp_onCkError_orphan (h : orphanContract.idle c) (ckKey : Name) (errorMsg : String) :
    (onCkError p ckKey errorMsg).wp orphanContract (fun _ t => orphanContract.idle t) c := by
  have hended : ∀ k, Orphan (endCkFetch ckKey c) k → k = ckKey :=
    fun k hk => eq_of_orphan_endCkFetch h hk
  simp only [onCkError, broadcast, Prog.wp_bind, Prog.wp_modify, Prog.andThen_ok, Prog.wp_get]
  cases (endCkFetch ckKey c).m_pendingCallbacks.find ckKey with
  | none => exact idle_eraseSent hended
  | some tasks =>
    simp only [Prog.wp_bind]
    refine Prog.wp_walk_of_inv (J := fun t => ∀ k, Orphan t k → k = ckKey) ?_
      (fun t ht => idle_eraseSent ht) hended
    intro task t ht
    unfold tellError
    split
    · next hset =>
      simp only [invokeError, hset, if_true, Prog.wp_bind, Prog.wp_modify, Prog.andThen_ok,
        Prog.wp_callOut]
      refine ⟨trivial, fun u hu _ => ⟨fun _ k hk => ht k (hu k hk), ?_⟩⟩
      intro e he
      cases he _ _ rfl
    · exact ht

/-- **A handler of the event loop** leaves no orphan. -/
theorem wp_event_orphan {d : System.Config Consumer Exn Invocation} {event : Event}
    (h : orphanContract.idle d.st) (hallowed : x.Allowed d.st (.event event))
    (hstrands : StrandsNone d (.event event)) :
    (event.program p).wp orphanContract (fun _ t => orphanContract.idle t) d.st := by
  have hguarantees : ∀ {q : ConsumerM Unit} {t}, orphanContract.idle t →
      Prog.Guarantees orphanContract q t →
      q.wp orphanContract (fun _ u => orphanContract.idle u) t := fun ht hq =>
    Prog.wp_mono (fun _ _ hu => orphanContract.idle_of_rely ht hu.2 hu.1) hq
  cases event with
  | ckComplete ckKey contentBuffer =>
    obtain ⟨P, hP, rfl, rfl⟩ := hallowed
    exact wp_onCkComplete_orphan h P.carriesKey
  | ckError ckKey errorMsg => exact wp_onCkError_orphan h ckKey errorMsg
  | dataComplete fetch contentBuffer =>
    simp only [Event.program, onDataComplete, Prog.wp_bind, Prog.wp_modify, Prog.andThen_ok,
      Prog.wp_liftM]
    cases hblock : Block.ofBuffer contentBuffer with
    | error e => exact h
    | ok content =>
      have hstrands' : ¬ Strands content
          { d.st with dataFetches := d.st.dataFetches.erase fetch } := hstrands content hblock
      exact hguarantees h (guarantees_decryptContent p hstrands' fetch.2)
  | dataError fetch errorMsg =>
    simp only [Event.program, onDataError, Prog.wp_bind, Prog.wp_modify, Prog.andThen_ok]
    exact hguarantees h (guarantees_refuse fetch.2 _ _)
  | keyComplete interestName contentBuffer =>
    simp only [Event.program, onKeyComplete, Prog.wp_bind, Prog.wp_modify, Prog.andThen_ok,
      Prog.wp_liftM]
    cases Block.ofBuffer contentBuffer with
    | error e => exact h
    | ok block =>
      simp only [Prog.andThen_ok, Prog.wp_bind, Prog.wp_get, Prog.wp_liftM]
      cases decryptDataContentTpm p.crypto block d.st.m_cert.getName with
      | error e => exact h
      | ok prvBlock =>
        simp only [Prog.andThen_ok, Prog.wp_bind, Prog.wp_liftM]
        cases PrivateKey.fromBuffer p.mem prvBlock with
        | error e => exact h
        | ok prvKey => exact h
  | keyError interestName => exact h
  | publicParams pubParamData validationError => exact h

/-- What may happen: the supply arrives, error callbacks return, and content is taken on whose
content key can be had or asked for. -/
def Permitted (x : Supply p) (d : System.Config Consumer Exn Invocation)
    (a : System.Act Exn Entry Event) : Prop :=
  x.Allowed d.st a ∧ ErrorsReturn d a ∧ StrandsNone d a

/-- **No name is marked for nothing.** -/
theorem fetched_of_reaches {d : System.Config Consumer Exn Invocation}
    (hc : orphanContract.idle c) (h : (Consumer.system p).Reaches (Permitted x) ⟨c, []⟩ d) :
    System.Good orphanContract d.frames d.st := by
  have hstart : System.Good orphanContract [] c := hc
  refine System.good_of_reaches ?_ ?_ ?_ hstart h
  · intro e entry hallowed _
    exact guarantees_entry p hallowed.2.2
  · intro e event hallowed _ he
    exact wp_event_orphan he hallowed.1 hallowed.2.2
  · intro e f fs o hframes hallowed
    exact hallowed.2.1 f fs hframes

/-! ## The way to the content -/

/-- A content of a decryption key fetch that brings the owner of a certificate the key. -/
def Brings (p : Platform) (cert : Certificate) (keyContent : Bytes) (prvKey : PrivateKey) : Prop :=
  ∃ block prvBlock, Block.ofBuffer keyContent = .ok block ∧
    decryptDataContentTpm p.crypto block cert.getName = .ok prvBlock ∧
    PrivateKey.fromBuffer p.mem prvBlock = .ok prvKey

/-- With the parameters that it holds, the consumer could open the content key with the private
key. -/
structure Opens (P : Production p.abe) (prvKey : PrivateKey) (c : Consumer) : Prop where
  ready : readyForDecryption { c with m_keyCache := prvKey } = true
  accepts : Accepts p { c with m_keyCache := prvKey } P.key.m_encAesKey

/-- What the way takes: callbacks return, the key is asked for and comes, the timeout is set, the
content is handed over and its content key comes. -/
structure Offered (ok : System.Config Consumer Exn Invocation → System.Act Exn Entry Event → Prop)
    (P : Production p.abe) (dataBlock : Block) (keyContent : Bytes) : Prop where
  resume : ∀ d, ok d (.resume none)
  askKey : ∀ d, ok d (.enter .obtainDecryptionKey)
  key : ∀ d interestName, ok d (.event (.keyComplete interestName keyContent))
  timeout : ∀ d, ok d (.enter (.setDefaultTimeout 200))
  content : ∀ d, d.st.CanRequest P.ckName → ok d (.enter (.consumeBlock dataBlock true true))
  contentKey : ∀ d, ok d (.event (.ckComplete P.ckName (reassemble P.ckData)))

variable {P : Production p.abe} {prvKey : PrivateKey} {keyContent : Bytes} {dataBlock : Block}
  {ok : System.Config Consumer Exn Invocation → System.Act Exn Entry Event → Prop}

theorem Opens.congr (h : Opens P prvKey c) (hsame : t.m_paramFetcher = c.m_paramFetcher) :
    Opens P prvKey t := by
  refine ⟨?_, h.accepts.congr hsame rfl⟩
  have hready := h.ready
  simp only [readyForDecryption] at hready ⊢
  rw [hsame]
  exact hready

/-- Whatever key it holds, a consumer can get this one. -/
theorem reaches_keyed (ho : Offered ok P dataBlock keyContent)
    (hrequest : c.keyInterestName.Requestable) (hbrings : Brings p c.m_cert keyContent prvKey) :
    (Consumer.system p).Reaches ok ⟨c, []⟩ ⟨{ c with m_keyCache := prvKey }, []⟩ := by
  obtain ⟨block, prvBlock, hblock, hkey, hprv⟩ := hbrings
  refine System.reaches_of_run ?_ (run_obtainDecryptionKey hrequest hblock hkey hprv)
  intro d a ha
  simp only [List.mem_cons, List.not_mem_nil, or_false] at ha
  rcases ha with rfl | rfl
  · exact ho.askKey d
  · exact ho.key d _

/-- A consumer without the content key asks for it, or waits for it already. -/
theorem fetching_consumeBlock (horphan : ¬ Orphan c P.ckName) (hrequest : c.CanRequest P.ckName)
    (hready : c.readyForDecryption = true)
    (hblock : Block.ofBuffer (reassemble P.data) = .ok dataBlock)
    (hnone : c.m_ckEncAesCache.find P.ckName = none) :
    P.ckName ∈ ((consumeBlock p dataBlock true true).exec c).2.ckFetches := by
  obtain ⟨dataBlock', hblock', hparse⟩ := P.parseContent_data
  rw [hblock] at hblock'
  cases hblock'
  rw [exec_consumeBlock_of_ready p dataBlock true true hready]
  refine (Prog.wp_silent_iff (decryptContent p dataBlock ⟨c.nextCall, true, true⟩)
    (fun _ t => P.ckName ∈ t.ckFetches) _).mp ?_
  refine wp_decryptContent_of_parse Prog.silent_returns ⟨rfl, rfl⟩ hparse ?_ ?_ ?_ ?_
  all_goals rw [P.normalizeCkKey_ckName]
  · intro encAesKey hcached
    cases hcached.symm.trans hnone
  · intro _ hmark
    by_contra hfetch
    exact horphan ⟨hmark, hfetch, hnone⟩
  · intro _ _ _
    exact List.mem_cons_self
  · intro _ _ hrefused
    exact absurd hrequest hrefused

/-- **A consumer that has the key cached answers at once.** -/
theorem success_consumeBlock (h : x.Honest c) (hlaw : p.abe.Lawful) (hP : P ∈ x.produced)
    (hsound : c.AbeSound p) (hready : c.readyForDecryption = true)
    (haccepts : Accepts p c P.key.m_encAesKey)
    (hblock : Block.ofBuffer (reassemble P.data) = .ok dataBlock)
    (hcached : (c.m_ckEncAesCache.find P.ckName).isSome = true) :
    .success c.nextCall P.plaintext ∈ ((consumeBlock p dataBlock true true).exec c).2.invoked := by
  obtain ⟨dataBlock', hblock', hparse⟩ := P.parseContent_data
  rw [hblock] at hblock'
  cases hblock'
  obtain ⟨encAesKey, hfind⟩ := Option.isSome_iff_exists.mp hcached
  have hkey : P.key.m_encAesKey = encAesKey := h.cached _ _ hfind P hP rfl
  subst hkey
  have hsound' : AbeSound p { c with nextCall := c.nextCall + 1 } := hsound
  have haccepts' : Accepts p { c with nextCall := c.nextCall + 1 } P.key.m_encAesKey := haccepts
  have hresult : (Consumer.decryption p P.sealedText { c with nextCall := c.nextCall + 1 }).1 =
      .ok P.plaintext :=
    decryption_of_made hlaw P.made P.keyFits P.cipherFits hsound' haccepts'
      (toUint32 P.content.length)
  rw [exec_consumeBlock_of_ready p dataBlock true true hready]
  refine (Prog.wp_silent_iff (decryptContent p dataBlock ⟨c.nextCall, true, true⟩)
    (fun _ t => .success c.nextCall P.plaintext ∈ t.invoked) _).mp ?_
  refine wp_decryptContent_of_parse Prog.silent_returns ⟨rfl, rfl⟩ hparse ?_ ?_ ?_ ?_
  all_goals rw [P.normalizeCkKey_ckName]
  · intro encAesKey' hfind'
    cases hfind.symm.trans hfind'
    refine ⟨trivial, ?_⟩
    rintro t rfl -
    change _ ∈ (reported (Callbacks.report _ (Consumer.decryption p P.sealedText
      { c with nextCall := c.nextCall + 1 }).1) _ _).invoked
    rw [hresult]
    exact List.mem_append_right _ (List.mem_singleton_self _)
  all_goals
    intro hnone
    cases hfind.symm.trans hnone

/-- A run whose callbacks return at once leaves the parameters alone. -/
theorem paramFetcher_of_keeps {q : ConsumerM Unit}
    (hq : ∀ fetcher, q.Keeps (·.m_paramFetcher = fetcher)) (c : Consumer) :
    (q.exec c).2.m_paramFetcher = c.m_paramFetcher :=
  Prog.exec_of_wp (fun _ => trivial) (hq _ c rfl)

theorem paramFetcher_consumeBlock (p : Platform) (dataBlock : Block) (c : Consumer) :
    ((consumeBlock p dataBlock true true).exec c).2.m_paramFetcher = c.m_paramFetcher :=
  paramFetcher_of_keeps (fun fetcher => Consumer.keeps_entry (indifferent_paramFetcher p fetcher)
    (.consumeBlock dataBlock true true)) c

theorem paramFetcher_onCkComplete (p : Platform) (ckKey : Name) (contentBuffer : Bytes)
    (c : Consumer) :
    ((onCkComplete p ckKey contentBuffer).exec c).2.m_paramFetcher = c.m_paramFetcher := by
  refine paramFetcher_of_keeps (fun fetcher => ?_) c
  have hevent := Consumer.keeps_event (indifferent_paramFetcher p fetcher)
    (.ckComplete ckKey contentBuffer)
  rcases hevent with hkeeps | ⟨_, _, hparams⟩
  · exact hkeeps
  · cases hparams

/-- The content key gets into the cache, if it is not there. -/
theorem reaches_cached (ho : Offered ok P dataBlock keyContent)
    (hallowed : ∀ d a, ok d a → x.Allowed d.st a) (hlaw : p.abe.Lawful) (hP : P ∈ x.produced)
    (hblock : Block.ofBuffer (reassemble P.data) = .ok dataBlock) (h : x.Honest c)
    (hname : P.ckName.Requestable) (horphan : ¬ Orphan c P.ckName)
    (hready : c.readyForDecryption = true) :
    ∃ t, (Consumer.system p).Reaches ok ⟨c, []⟩ ⟨t, []⟩ ∧
      (t.m_ckEncAesCache.find P.ckName).isSome = true ∧
      t.m_paramFetcher = c.m_paramFetcher := by
  cases hcache : c.m_ckEncAesCache.find P.ckName with
  | some encAesKey =>
    refine ⟨c, .refl, ?_, rfl⟩
    rw [hcache]
    rfl
  | none =>
    -- A call that is not answered makes the key be fetched, and the fetch completes.
    have htimed : (Consumer.system p).Reaches ok ⟨c, []⟩ ⟨setDefaultTimeout 200 c, []⟩ :=
      System.Reaches.refl.step (a := .enter (.setDefaultTimeout 200)) (ho.timeout _) rfl
    have hrequest : (setDefaultTimeout 200 c).CanRequest P.ckName :=
      ⟨hname, Int.natCast_nonneg 200⟩
    have hentered : (Consumer.system p).Reaches ok ⟨c, []⟩
        ⟨((consumeBlock p dataBlock true true).exec (setDefaultTimeout 200 c)).2, []⟩ :=
      (htimed.step (a := .enter (.consumeBlock dataBlock true true))
        (ho.content _ hrequest) rfl).trans
        (System.reaches_exec ho.resume (consumeBlock p dataBlock true true) _ [])
    have hfetch := fetching_consumeBlock (c := setDefaultTimeout 200 c) horphan hrequest hready
      hblock hcache
    have hcalled := Supply.honest_of_reaches hlaw h (hentered.mono hallowed)
    have hsame := paramFetcher_consumeBlock p dataBlock (setDefaultTimeout 200 c)
    revert hentered hfetch hcalled hsame
    generalize ((consumeBlock p dataBlock true true).exec (setDefaultTimeout 200 c)).2 = u
    intro hentered hfetch hcalled hsame
    have hstep : (Consumer.system p).step ⟨u, []⟩
        (.event (.ckComplete P.ckName (reassemble P.ckData))) =
          some (System.start (onCkComplete p P.ckName (reassemble P.ckData)) u []) :=
      if_pos (decide_eq_true hfetch)
    have hcompleted := (hentered.step (ho.contentKey _) hstep).trans
      (System.reaches_exec ho.resume _ u [])
    refine ⟨_, hcompleted, ?_, ?_⟩
    · exact (Prog.exec_of_wp (fun _ => trivial) (Supply.wp_onCkComplete hcalled hlaw hP)).2
    · exact (paramFetcher_onCkComplete p _ _ u).trans hsame

/-- A consumer goes on asking for its key under the same name. -/
theorem keyInterestName_of_reaches {d : System.Config Consumer Exn Invocation}
    (h : (Consumer.system p).Reaches ok ⟨c, []⟩ d) : d.st.keyInterestName = c.keyInterestName := by
  obtain ⟨hcert, hprefix⟩ := names_of_reaches h
  rw [keyInterestName, keyInterestName, hcert, hprefix]

/-- **A consumer gets to the content** if its name is not marked for nothing and the keys can be
asked for and had. -/
theorem reaches_answering (ho : Offered ok P dataBlock keyContent)
    (hallowed : ∀ d a, ok d a → x.Allowed d.st a) (hlaw : p.abe.Lawful) (hP : P ∈ x.produced)
    (hblock : Block.ofBuffer (reassemble P.data) = .ok dataBlock) (h : x.Honest c)
    (hsound : c.AbeSound p) (horphan : ¬ Orphan c P.ckName) (hname : P.ckName.Requestable)
    (hrequest : c.keyInterestName.Requestable) (hopens : Opens P prvKey c)
    (hbrings : Brings p x.cert keyContent prvKey) :
    ∃ t, (Consumer.system p).Reaches ok ⟨c, []⟩ ⟨t, []⟩ ∧
      .success t.nextCall P.plaintext ∈
        ((consumeBlock p dataBlock true true).exec t).2.invoked := by
  have hhonest : ∀ {e}, (Consumer.system p).Reaches ok ⟨c, []⟩ e → x.Honest e.st :=
    fun he => Supply.honest_of_reaches hlaw h (he.mono hallowed)
  have hkeyed := reaches_keyed ho hrequest (h.cert_eq ▸ hbrings)
  have horphan' : ¬ Orphan { c with m_keyCache := prvKey } P.ckName := horphan
  obtain ⟨u, hu, hcached, hsame⟩ := reaches_cached ho hallowed hlaw hP hblock (hhonest hkeyed)
    hname horphan' hopens.ready
  have hfetched := hkeyed.trans hu
  have hrequest' : u.keyInterestName.Requestable := by
    rw [keyInterestName_of_reaches hfetched]
    exact hrequest
  have hrenewed := hfetched.trans
    (reaches_keyed ho hrequest' ((hhonest hfetched).cert_eq ▸ hbrings))
  have hopens' : Opens P prvKey u := hopens.congr hsame
  exact ⟨_, hrenewed, success_consumeBlock (hhonest hrenewed) hlaw hP
    (sound_of_reaches hsound hrenewed) hopens'.ready hopens'.accepts hblock hcached⟩

/-! ## The result -/

/-- A key of the supply may come. -/
theorem allowed_of_brings {interestName : Name} (hkey : prvKey ∈ x.keys)
    (hbrings : Brings p x.cert keyContent prvKey) :
    x.Allowed c (.event (.keyComplete interestName keyContent)) := by
  obtain ⟨block, prvBlock, hblock, hprv, hread⟩ := hbrings
  intro block' prvBlock' prvKey' hblock' hprv' hread'
  rw [hblock] at hblock'
  cases hblock'
  rw [hprv] at hprv'
  cases hprv'
  rw [hread] at hread'
  cases hread'
  exact hkey

/-- What is permitted takes a consumer to content that can be handed over. -/
theorem offered_permitted (hhanded : ∀ id, x.handed id P) (hkey : prvKey ∈ x.keys)
    (hbrings : Brings p x.cert keyContent prvKey)
    (hblock : Block.ofBuffer (reassemble P.data) = .ok dataBlock) :
    Offered (Permitted x) P dataBlock keyContent where
  resume d := by
    refine ⟨trivial, ?_, trivial⟩
    rintro f fs - id what -
    rfl
  askKey _ := ⟨trivial, trivial, trivial⟩
  key d interestName := ⟨allowed_of_brings hkey hbrings, trivial, trivial⟩
  timeout _ := ⟨trivial, trivial, trivial⟩
  content d hrequest := by
    refine ⟨⟨P, hhanded _, hblock⟩, trivial, ?_⟩
    rintro - ⟨cipherText, ckName, hparse, hobtain⟩
    obtain ⟨dataBlock', hblock', hparse'⟩ := P.parseContent_data
    rw [hblock] at hblock'
    cases hblock'
    rw [hparse] at hparse'
    cases hparse'
    rw [P.normalizeCkKey_ckName] at hobtain
    exact hobtain (Or.inr (Or.inr hrequest))
  contentKey d := ⟨⟨P, x.produced_of_handed (hhanded 0), rfl, rfl⟩, trivial, trivial⟩

/-- **From everywhere a consumer gets to the content.**  Fetches have failed, keys have been wrong,
callbacks have consumed in their turn and success callbacks have thrown: as long as error
callbacks have returned, content keys that came were those of producers, and none was wanted
that cannot be asked for, the run can be continued to a state in which a call of `consume` for a
content that can be handed over, with a key that can be obtained and that opens it with the
parameters the consumer holds, is answered at once with the content. -/
theorem content_isConsumable (p : Platform) (hlaw : p.abe.Lawful) (x : Supply p)
    (hempty : ⟨[]⟩ ∈ x.keys) (attrAuthorityCertificate : Certificate) (template : Interest)
    (d : System.Config Consumer Exn Invocation)
    (h : (Consumer.system p).Reaches (Permitted x)
      ⟨Consumer.initial x.cert attrAuthorityCertificate template, []⟩ d)
    (haa : attrAuthorityCertificate.getIdentity.Requestable) (P : Production p.abe)
    (hname : P.ckName.Requestable) (hlength : P.content.length < 2 ^ 32)
    (hhanded : ∀ id, x.handed id P) (prvKey : PrivateKey) (hkey : prvKey ∈ x.keys)
    (hopens : Opens P prvKey d.st) (keyContent : Bytes)
    (hbrings : Brings p x.cert keyContent prvKey) :
    ∃ dataBlock, Block.ofBuffer (reassemble P.data) = .ok dataBlock ∧
      ∃ c, (Consumer.system p).Reaches (Permitted x) d ⟨c, []⟩ ∧
        .success c.nextCall P.content ∈
          ((consumeBlock p dataBlock true true).exec c).2.invoked := by
  obtain ⟨dataBlock, hblock, -⟩ := P.parseContent_data
  refine ⟨dataBlock, hblock, ?_⟩
  rw [← P.plaintext_eq hlength]
  have ho := offered_permitted hhanded hkey hbrings hblock
  obtain ⟨t, ht, hsame⟩ := System.exists_idle_of_good ho.resume (fun _ => trivial)
    (good_paramFetcher_of_reaches h)
  have hall := h.trans ht
  have hidle : orphanContract.idle t := by
    have hinitial : orphanContract.idle
        (Consumer.initial x.cert attrAuthorityCertificate template) :=
      fun ckKey hk => Finset.notMem_empty ckKey hk.1
    exact fetched_of_reaches hinitial hall
  have hhonest : x.Honest t := Supply.honest_of_reaches hlaw
    (Supply.honest_initial _ _ _ rfl hempty) (hall.mono fun _ _ ha => ha.1)
  have hinitial : AbeSound p (Consumer.initial x.cert attrAuthorityCertificate template) :=
    AbeSupport.sound_initial p.abe
  have hrequest : t.keyInterestName.Requestable := by
    rw [keyInterestName_of_reaches hall]
    exact (requestable_decryptionKeyName _ _).mpr haa
  obtain ⟨c, hc, hsuccess⟩ := reaches_answering ho (fun _ _ ha => ha.1) hlaw
    (x.produced_of_handed (hhanded 0)) hblock hhonest (sound_of_reaches hinitial hall)
    (hidle P.ckName) hname hrequest (hopens.congr hsame) hbrings
  exact ⟨c, ht.trans hc, hsuccess⟩

/-- One production, and the key that opens it. -/
def exampleSupply : Supply mockPlatform where
  cert := consumerCert
  produced := {publicationExample.production}
  handed _ P := P = publicationExample.production
  keys := {⟨[]⟩, ⟨ascii "x"⟩}
  produced_of_handed h := h
  oneKey := by
    rintro P P' rfl rfl -
    rfl

/-- `/c` has been handed the content, and the fetch of the content key has failed: it is telling
the error. -/
def failedExample : System.Config Consumer Exn Invocation :=
  System.start (onCkError mockPlatform publicationExample.production.ckName "timeout")
    waitingExample []

theorem ofBuffer_keyBlock : Block.ofBuffer keyBlock.encode = .ok keyBlock := rfl

theorem decrypt_keyBlock : decryptDataContentTpm mockPlatform.crypto keyBlock
    exampleSupply.cert.getName = .ok (ascii "x" ++ [0]) := rfl

theorem brings_keyBlock :
    Brings mockPlatform exampleSupply.cert keyBlock.encode ⟨ascii "x"⟩ :=
  ⟨keyBlock, ascii "x" ++ [0], ofBuffer_keyBlock, decrypt_keyBlock, rfl⟩

theorem requestable_ckName : publicationExample.production.ckName.Requestable := by decide

/-- The failed fetch is in a permitted run. -/
theorem reaches_failedExample :
    (Consumer.system mockPlatform).Reaches (Permitted exampleSupply) ⟨fresh, []⟩ failedExample := by
  have hkey : ∀ d, Permitted exampleSupply d
      (.event (.keyComplete fresh.keyInterestName keyBlock.encode)) :=
    fun _ => ⟨allowed_of_brings (Or.inr rfl) brings_keyBlock, trivial, trivial⟩
  have hready := Consumer.reaches_ready (fun _ => ⟨trivial, trivial, trivial⟩)
    (fun _ => ⟨trivial, trivial, trivial⟩) hkey
  obtain ⟨dataBlock, hblock, -⟩ := publicationExample.production.parseContent_data
  have hoffered := offered_permitted (x := exampleSupply) (fun _ => rfl) (Or.inr rfl)
    brings_keyBlock hblock
  have hhanded : Permitted exampleSupply ⟨ready, []⟩ (.enter (.consumeBlock dataBlock true true)) :=
    hoffered.content _ ⟨requestable_ckName, by decide⟩
  have hwaiting := hready.step hhanded (step_waitingExample hblock)
  exact hwaiting.step
    (a := .event (.ckError publicationExample.production.ckName "timeout"))
    ⟨trivial, trivial, trivial⟩ rfl

theorem opens_failedExample :
    Opens (p := mockPlatform) publicationExample.production ⟨ascii "x"⟩ failedExample.st :=
  ⟨by decide, ⟨.cpAbe, publicationExample.production.encrypted, [4], Or.inl ⟨rfl, rfl⟩, rfl, rfl⟩⟩

/-- The content is consumed behind a failed fetch. -/
theorem content_isConsumable_example :
    ∃ dataBlock, Block.ofBuffer (reassemble dataExample) = .ok dataBlock ∧
      ∃ c, (Consumer.system mockPlatform).Reaches (Permitted exampleSupply) failedExample ⟨c, []⟩ ∧
        .success c.nextCall publicationExample.production.content ∈
          ((consumeBlock mockPlatform dataBlock true true).exec c).2.invoked :=
  content_isConsumable mockPlatform mockAbe_lawful exampleSupply (Or.inl rfl) authorityCert
    ParamFetcher.defaultInterestTemplate failedExample reaches_failedExample (by decide)
    publicationExample.production requestable_ckName (by decide) (fun _ => rfl) ⟨ascii "x"⟩
    (Or.inr rfl) opens_failedExample keyBlock.encode brings_keyBlock

end NacAbe.Analysis
