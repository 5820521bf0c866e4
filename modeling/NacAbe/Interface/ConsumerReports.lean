import NacAbe.Program.Consumer

/-!
# How a consumer reports

Where callbacks are set and return, the try block that ends every successful way
through `consume` decrypts once and invokes exactly one callback
(`wp_decryptAndReport`).  The loop over the waiting tasks is then described by what it
keeps for the tasks that remain (`wp_broadcast_of_steady`), as long as the vector it
goes over stays as it is.
-/

set_option autoImplicit false

namespace NacAbe

/-- Both callbacks are set. -/
def Callbacks.Set (callbacks : Callbacks) : Prop :=
  callbacks.hasSuccess = true ∧ callbacks.hasError = true

/-- The invocation that reports a result. -/
def Callbacks.report (callbacks : Callbacks) : Except String Bytes → Invocation
  | .ok result => .success callbacks.id result
  | .error what => .error callbacks.id what

@[simp] theorem Callbacks.id_report (callbacks : Callbacks) (result : Except String Bytes) :
    (callbacks.report result).id = callbacks.id := by
  cases result <;> rfl

/-- The invocation that tells a call a result; what a call without a success callback is told
is that it has none. -/
def Callbacks.told (callbacks : Callbacks) : Except String Bytes → Invocation
  | .ok result =>
    if callbacks.hasSuccess then .success callbacks.id result
    else .error callbacks.id Exn.badFunctionCall.what
  | .error what => .error callbacks.id what

@[simp] theorem Callbacks.id_told (callbacks : Callbacks) (result : Except String Bytes) :
    (callbacks.told result).id = callbacks.id := by
  cases result with
  | ok _ =>
    rw [told]
    split
    · rfl
    · rfl
  | error _ => rfl

theorem Callbacks.told_of_set {callbacks : Callbacks} (h : callbacks.Set)
    (result : Except String Bytes) : callbacks.told result = callbacks.report result := by
  cases result with
  | ok _ => rw [told, if_pos h.1, report]
  | error _ => rfl

/-- One of the callbacks that a result may come to is set: the error callback also stands in
for a success callback that is not. -/
def Callbacks.Hears (callbacks : Callbacks) : Except String Bytes → Prop
  | .ok _ => callbacks.hasSuccess = true ∨ callbacks.hasError = true
  | .error _ => callbacks.hasError = true

theorem Callbacks.Set.hears {callbacks : Callbacks} (h : callbacks.Set) :
    ∀ result, callbacks.Hears result
  | .ok _ => Or.inl h.1
  | .error _ => h.2

/-- What a call is told. -/
def Invocation.outcome : Invocation → Except String Bytes
  | .success _ result => .ok result
  | .error _ what => .error what

@[simp] theorem Callbacks.outcome_report (callbacks : Callbacks) (result : Except String Bytes) :
    (callbacks.report result).outcome = result := by
  cases result <;> rfl

/-! ## The exceptions of a decryption -/

namespace AbeSupport

/-- What decrypting a content key throws derives from `std::exception`. -/
theorem isStd_of_decryptKey {abe : OpenAbe} {context : Scheme} {pubParams : PublicParams}
    {prvKey : PrivateKey} {encryptedSymmetricKey : Bytes} {e : Exn}
    (h : decryptKey abe context pubParams prvKey encryptedSymmetricKey = .error e) :
    e.isStd = true := by
  unfold decryptKey at h
  split_ifs at h
  · cases h; rfl
  · cases h; rfl
  · split at h
    · cases h; rfl
    · cases h; rfl
    · cases h

theorem isStd_of_stringFrom {mem : Memory} {buffer : Bytes} {e : Exn}
    (h : stringFrom mem buffer = .error e) : e.isStd = true := by
  unfold stringFrom at h
  split at h
  · cases h; rfl
  · cases h

/-- So does what decrypting the content throws. -/
theorem isStd_of_decryptContent {abe : OpenAbe} {mem : Memory} {key content : Bytes} {e : Exn}
    (h : decryptContent abe mem key content = .error e) : e.isStd = true := by
  unfold decryptContent at h
  cases hstring : stringFrom mem content with
  | error e' =>
    rw [hstring] at h
    cases h
    exact isStd_of_stringFrom hstring
  | ok cipherContentStr =>
    rw [hstring, ok_bind] at h
    split at h
    · cases h
    · cases h; rfl

/-- What `decrypt` throws is caught by its callers. -/
theorem isStd_of_decrypt {abe : OpenAbe} {mem : Memory} {context : Scheme}
    {pubParams : PublicParams} {prvKey : PrivateKey} {cipherText : CipherText} {st : AbeSupport}
    {e : Exn}
    (h : ((decrypt abe mem context pubParams prvKey cipherText).run.run st).1 = .error e) :
    e.isStd = true := by
  rw [decrypt_run] at h
  split at h
  · next err hstring =>
    cases h
    exact isStd_of_stringFrom hstring
  · split at h
    · exact isStd_of_decryptContent h
    · split at h
      · next err hkey =>
        cases h
        exact isStd_of_decryptKey hkey
      · exact isStd_of_decryptContent h

/-- A call of `decrypt` changes the result of no later call with the same keys: what it leaves
in the map is what the later call would find itself. -/
theorem decrypt_stable (abe : OpenAbe) (mem : Memory) (context : Scheme)
    (pubParams : PublicParams) (prvKey : PrivateKey) (earlier cipherText : CipherText)
    (st : AbeSupport) :
    ((decrypt abe mem context pubParams prvKey cipherText).run.run
      ((decrypt abe mem context pubParams prvKey earlier).run.run st).2).1 =
        ((decrypt abe mem context pubParams prvKey cipherText).run.run st).1 := by
  rw [decrypt_run abe mem context pubParams prvKey earlier]
  cases stringFrom mem earlier.m_contentKey.m_encAesKey with
  | error e => rfl
  | ok encrypted =>
    dsimp only
    cases hfind : st.m_decryptedContentKeyMap.find encrypted with
    | some key => rfl
    | none =>
      cases hkey : decryptKey abe context pubParams prvKey encrypted with
      | error e => rfl
      | ok key =>
        dsimp only
        rw [decrypt_run, decrypt_run]
        cases stringFrom mem cipherText.m_contentKey.m_encAesKey with
        | error e => rfl
        | ok encrypted' =>
          dsimp only
          rw [PartialMap.find_assign]
          by_cases hsame : encrypted' = encrypted
          · rw [if_pos hsame, hsame, hfind, hkey]
          · rw [if_neg hsame]
            -- The two states differ at a key that this call does not look up.
            cases st.m_decryptedContentKeyMap.find encrypted' with
            | some found => rfl
            | none => cases decryptKey abe context pubParams prvKey encrypted' <;> rfl

end AbeSupport

namespace Consumer

/-! ## One report -/

/-- The text in the place of the exception. -/
def described (result : Except Exn Bytes) : Except String Bytes := result.mapError Exn.what

/-- What a consumer makes of a cipher text, and how it leaves `ABESupport`. -/
def decryption (p : Platform) (cipherText : CipherText) (c : Consumer) :
    Except String Bytes × AbeSupport :=
  let pubParams := c.m_paramFetcher.m_pubParamsCache
  if c.m_paramFetcher.m_abeType = abeTypeCpAbe then
    ((AbeSupport.cpDecrypt p.abe p.mem pubParams c.m_keyCache cipherText).run.run
      c.abeSupport).map described id
  else if c.m_paramFetcher.m_abeType = abeTypeKpAbe then
    ((AbeSupport.kpDecrypt p.abe p.mem pubParams c.m_keyCache cipherText).run.run
      c.abeSupport).map described id
  else (.error "Unsupported ABE type", c.abeSupport)

/-- What a waiter's cipher text decrypts to with the key that was fetched. -/
def resultFor (p : Platform) (encAesKey : Bytes) (c : Consumer) (task : PendingTask) :
    Except String Bytes :=
  (decryption p { task.cipher with m_contentKey := ⟨[], encAesKey⟩ } c).1

/-- **One decryption changes the result of no other**, as long as the keys stay. -/
theorem decryption_stable (p : Platform) (earlier cipherText : CipherText) (c : Consumer) :
    (decryption p cipherText { c with abeSupport := (decryption p earlier c).2 }).1 =
      (decryption p cipherText c).1 := by
  unfold decryption
  dsimp only
  split_ifs
  · exact congrArg described (AbeSupport.decrypt_stable _ _ _ _ _ _ _ _)
  · exact congrArg described (AbeSupport.decrypt_stable _ _ _ _ _ _ _ _)
  · rfl

/-- The consumer when a callback gets a report. -/
def reported (invocation : Invocation) (abeSupport : AbeSupport) (c : Consumer) : Consumer :=
  { c with abeSupport, invoked := c.invoked ++ [invocation] }

variable {C : Contract Consumer Exn Invocation} {p : Platform} {c : Consumer}
  {callbacks : Callbacks} {Q : Except Exn Unit → Consumer → Prop}

theorem wp_invokeSuccess (hC : C.Returns) (hset : callbacks.hasSuccess = true) {result : Bytes}
    (hinv : C.inv { c with invoked := c.invoked ++ [.success callbacks.id result] })
    (h : ∀ t, C.rely { c with invoked := c.invoked ++ [.success callbacks.id result] } t →
      C.inv t → Q (.ok ()) t) : (invokeSuccess callbacks result).wp C Q c := by
  simp only [invokeSuccess, if_pos hset, Prog.wp_bind, Prog.wp_modify, Prog.andThen_ok]
  exact Prog.wp_callOut_of_returns hC _ hinv h

theorem wp_invokeError (hC : C.Returns) (hset : callbacks.hasError = true) {what : String}
    (hinv : C.inv { c with invoked := c.invoked ++ [.error callbacks.id what] })
    (h : ∀ t, C.rely { c with invoked := c.invoked ++ [.error callbacks.id what] } t →
      C.inv t → Q (.ok ()) t) : (invokeError callbacks what).wp C Q c := by
  simp only [invokeError, if_pos hset, Prog.wp_bind, Prog.wp_modify, Prog.andThen_ok]
  exact Prog.wp_callOut_of_returns hC _ hinv h

/-- The `catch` of that try block. -/
def reportException (callbacks : Callbacks) (e : Exn) : ConsumerM Unit :=
  if e.isStd then invokeError callbacks e.what else throw e

/-- The try block around one call of `cpDecrypt` or `kpDecrypt`. -/
theorem wp_decryptOnce {context : Scheme} {pubParams : PublicParams} {prvKey : PrivateKey}
    {cipherText : CipherText} {returned : Except Exn Bytes × AbeSupport}
    (hreturned : (AbeSupport.decrypt p.abe p.mem context pubParams prvKey cipherText).run.run
      c.abeSupport = returned)
    (hsuccess : ∀ result, described returned.1 = .ok result →
      (invokeSuccess callbacks result).wp C (Prog.orElse C (reportException callbacks) Q)
        { c with abeSupport := returned.2 })
    (herror : ∀ what, described returned.1 = .error what →
      (invokeError callbacks what).wp C Q { c with abeSupport := returned.2 }) :
    (do
      let result ← callAbe (AbeSupport.decrypt p.abe p.mem context pubParams prvKey cipherText)
      invokeSuccess callbacks result : ConsumerM Unit).wp C
      (Prog.orElse C (reportException callbacks) Q) c := by
  simp only [callAbe, Prog.wp_bind, Prog.wp_get, Prog.wp_set, Prog.wp_liftM, Prog.andThen_ok,
    hreturned]
  obtain ⟨result, st⟩ := returned
  cases result with
  | ok result => exact hsuccess result rfl
  | error e =>
    have hstd : e.isStd = true := AbeSupport.isStd_of_decrypt (congrArg Prod.fst hreturned)
    simp only [Prog.andThen_error, Prog.orElse_error, reportException, if_pos hstd]
    exact herror e.what rfl

/-- **Decrypting comes before reporting.**  A result is reported inside the try block; an
error is reported by its `catch`, or inside it when the ABE type is not supported. -/
theorem wp_decryptAndReport_of_report {cipherText : CipherText} {result : Except String Bytes}
    {st : AbeSupport} (hresult : decryption p cipherText c = (result, st))
    (hsuccess : ∀ plain, result = .ok plain →
      (invokeSuccess callbacks plain).wp C (Prog.orElse C (reportException callbacks) Q)
        { c with abeSupport := st })
    (herror : ∀ what, result = .error what →
      (invokeError callbacks what).wp C Q { c with abeSupport := st } ∧
      (invokeError callbacks what).wp C (Prog.orElse C (reportException callbacks) Q)
        { c with abeSupport := st }) : (decryptAndReport p cipherText callbacks).wp C Q c := by
  change (MonadExcept.tryCatch _ (reportException callbacks) : ConsumerM Unit).wp C Q c
  rw [Prog.wp_tryCatch]
  simp only [Prog.wp_bind, Prog.wp_get, Prog.andThen_ok]
  unfold decryption at hresult
  dsimp only at hresult
  split_ifs at hresult ⊢
  · cases hresult
    exact wp_decryptOnce rfl hsuccess fun what hwhat => (herror what hwhat).1
  · cases hresult
    exact wp_decryptOnce rfl hsuccess fun what hwhat => (herror what hwhat).1
  · cases hresult
    exact (herror _ rfl).2

/-- An error callback that is not set throws, in the try block or in its `catch`. -/
theorem wp_invokeError_of_unset (hunset : ¬ callbacks.hasError = true) {what : String}
    (h : Q (.error .badFunctionCall) c) :
    (invokeError callbacks what).wp C Q c ∧
      (invokeError callbacks what).wp C (Prog.orElse C (reportException callbacks) Q) c := by
  have hstd : Exn.badFunctionCall.isStd = true := rfl
  simp only [invokeError, if_neg hunset, Prog.wp_throw, Prog.orElse_error, reportException,
    if_pos hstd]
  exact ⟨h, h⟩

/-- **One report.**  Where callbacks return, `decryptAndReport` invokes exactly one callback, with
what the decryption gave, or throws because there is none to invoke. -/
theorem wp_decryptAndReport_of_returns (hC : C.Returns) {cipherText : CipherText}
    {result : Except String Bytes} {st : AbeSupport}
    (hresult : decryption p cipherText c = (result, st))
    (hhears : callbacks.Hears result → C.inv (reported (callbacks.told result) st c) ∧
      ∀ t, C.rely (reported (callbacks.told result) st c) t → C.inv t → Q (.ok ()) t)
    (hunheard : ¬ callbacks.Hears result →
      Q (.error .badFunctionCall) { c with abeSupport := st }) :
    (decryptAndReport p cipherText callbacks).wp C Q c := by
  have hstd : Exn.badFunctionCall.isStd = true := rfl
  refine wp_decryptAndReport_of_report hresult ?_ ?_
  · rintro plain rfl
    by_cases hsuccess : callbacks.hasSuccess = true
    · obtain ⟨hinv, h⟩ := hhears (Or.inl hsuccess)
      rw [Callbacks.told, if_pos hsuccess] at hinv h
      exact wp_invokeSuccess hC hsuccess hinv h
    · simp only [invokeSuccess, if_neg hsuccess, Prog.wp_throw, Prog.orElse_error,
        reportException, if_pos hstd]
      by_cases herror : callbacks.hasError = true
      · obtain ⟨hinv, h⟩ := hhears (Or.inr herror)
        rw [Callbacks.told, if_neg hsuccess] at hinv h
        exact wp_invokeError hC herror hinv h
      · exact (wp_invokeError_of_unset herror (hunheard (not_or.mpr ⟨hsuccess, herror⟩))).1
  · rintro what rfl
    by_cases herror : callbacks.hasError = true
    · obtain ⟨hinv, h⟩ := hhears herror
      exact ⟨wp_invokeError hC herror hinv h, wp_invokeError hC herror hinv h⟩
    · exact wp_invokeError_of_unset herror (hunheard herror)

/-- Where both callbacks are set, there is one to invoke. -/
theorem wp_decryptAndReport (hC : C.Returns) (hset : callbacks.Set) {cipherText : CipherText}
    {result : Except String Bytes} {st : AbeSupport}
    (hresult : decryption p cipherText c = (result, st))
    (hinv : C.inv (reported (callbacks.report result) st c))
    (h : ∀ t, C.rely (reported (callbacks.report result) st c) t → C.inv t → Q (.ok ()) t) :
    (decryptAndReport p cipherText callbacks).wp C Q c := by
  have htold := Callbacks.told_of_set hset result
  refine wp_decryptAndReport_of_returns hC hresult (fun _ => ?_)
    fun hunheard => absurd (hset.hears result) hunheard
  rw [htold]
  exact ⟨hinv, h⟩

/-! ## One content -/

/-- The call is accepted. -/
def accept (id : ℕ) (c : Consumer) : Consumer := { c with accepted := id :: c.accepted }

theorem wp_decryptContent_of_error {content : Block} {e : Exn}
    (hparse : parseContent content = .error e) (h : Q (.error e) c) :
    (decryptContent p content callbacks).wp C Q c := by
  simp only [decryptContent, Prog.wp_bind, Prog.wp_liftM, hparse, Prog.andThen_error]
  exact h

/-- The Interest for a name can be made: the name is one that an Interest can have and the
default lifetime is one too. -/
def CanRequest (c : Consumer) (name : Name) : Prop :=
  name.Requestable ∧ 0 ≤ c.m_defaultTimeout

instance (c : Consumer) (name : Name) : Decidable (c.CanRequest name) :=
  inferInstanceAs (Decidable (_ ∧ _))

theorem timedInterest_of_canRequest {name : Name} (h : c.CanRequest name) :
    c.timedInterest name = .ok ⟨name, false, none, none⟩ := by
  rw [timedInterest, Interest.ofName, if_pos h.1, ok_bind, Interest.setInterestLifetime,
    if_neg (Int.not_lt.mpr h.2)]

/-- One that cannot be named, or given the timeout, throws. -/
theorem timedInterest_of_not_canRequest {name : Name} (h : ¬ c.CanRequest name) :
    c.timedInterest name = .error .invalidArgument := by
  rw [timedInterest, Interest.ofName]
  by_cases hname : name.Requestable
  · have hlifetime : c.m_defaultTimeout < 0 := by
      by_contra hle
      exact h ⟨hname, Int.not_lt.mp hle⟩
    rw [if_pos hname, ok_bind, Interest.setInterestLifetime, if_pos hlifetime]
  · rw [if_neg hname]
    rfl

/-- A call for the content key is answered from the cache, waits for a fetch or starts one. -/
def CanObtain (c : Consumer) (ckKey : Name) : Prop :=
  (c.m_ckEncAesCache.find ckKey).isSome = true ∨ ckKey ∈ c.m_ckInterestsSent ∨ c.CanRequest ckKey

/-- The content names a content key that the consumer can neither find nor wait for nor ask
for. -/
def Strands (content : Block) (c : Consumer) : Prop :=
  ∃ cipherText ckName, parseContent content = .ok (cipherText, ckName) ∧
    ¬ c.CanObtain (normalizeCkKey ckName)

/-- No such content is taken on. -/
def StrandsNone (d : System.Config Consumer Exn Invocation) : System.Act Exn Entry Event → Prop
  | .enter (.consumeBlock dataBlock _ _) =>
    d.st.readyForDecryption = true → ¬ Strands dataBlock d.st
  | .event (.dataComplete _ contentBuffer) =>
    ∀ content, Block.ofBuffer contentBuffer = .ok content → ¬ Strands content d.st
  | _ => True

/-- Content that does not strand, and whose key is neither cached nor awaited, names a key that
can be asked for. -/
theorem canRequest_of_not_strands {content : Block} {cipherText : CipherText} {ckName : Name}
    (h : ¬ Strands content c) (hparse : parseContent content = .ok (cipherText, ckName))
    (hcache : c.m_ckEncAesCache.find (normalizeCkKey ckName) = none)
    (hmark : normalizeCkKey ckName ∉ c.m_ckInterestsSent) :
    c.CanRequest (normalizeCkKey ckName) := by
  by_contra hrequest
  refine h ⟨cipherText, ckName, hparse, ?_⟩
  rintro (hcached | hmarked | hrequest')
  · rw [hcache] at hcached
    cases hcached
  · exact hmark hmarked
  · exact hrequest hrequest'

/-- The call has been taken on for a content key that is not being fetched. -/
def taken (ckKey : Name) (task : PendingTask) (c : Consumer) : Consumer :=
  queue ckKey task { accept task.callbacks.id c with
    m_ckInterestsSent := insert ckKey c.m_ckInterestsSent }

/-- **The four ways of `decryptContent`**: the key is cached and the call gets its report, it
waits for the fetch of the key, or it starts that fetch, or is left by an exception because the
Interest of the fetch cannot be made. -/
theorem wp_decryptContent_of_parse (hC : C.Returns) (hset : callbacks.Set) {content : Block}
    {cipherText : CipherText} {ckName : Name}
    (hparse : parseContent content = .ok (cipherText, ckName))
    (hcached : ∀ encAesKey, c.m_ckEncAesCache.find (normalizeCkKey ckName) = some encAesKey →
      let decrypted := decryption p { cipherText with m_contentKey := ⟨[], encAesKey⟩ } c
      let told := reported (callbacks.report decrypted.1) decrypted.2 (accept callbacks.id c)
      C.inv told ∧ ∀ t, C.rely told t → C.inv t → Q (.ok ()) t)
    (hqueued : c.m_ckEncAesCache.find (normalizeCkKey ckName) = none →
      normalizeCkKey ckName ∈ c.m_ckInterestsSent →
      Q (.ok ()) (queue (normalizeCkKey ckName) ⟨cipherText, callbacks⟩ (accept callbacks.id c)))
    (hstarted : c.m_ckEncAesCache.find (normalizeCkKey ckName) = none →
      normalizeCkKey ckName ∉ c.m_ckInterestsSent → c.CanRequest (normalizeCkKey ckName) →
      Q (.ok ()) (startCkFetch (normalizeCkKey ckName)
        (taken (normalizeCkKey ckName) ⟨cipherText, callbacks⟩ c)))
    (hrefused : c.m_ckEncAesCache.find (normalizeCkKey ckName) = none →
      normalizeCkKey ckName ∉ c.m_ckInterestsSent → ¬ c.CanRequest (normalizeCkKey ckName) →
      Q (.error .invalidArgument) (taken (normalizeCkKey ckName) ⟨cipherText, callbacks⟩ c)) :
    (decryptContent p content callbacks).wp C Q c := by
  simp only [decryptContent, Prog.wp_bind, Prog.wp_liftM, hparse, Prog.andThen_ok, Prog.wp_modify,
    Prog.wp_get]
  cases hcache : c.m_ckEncAesCache.find (normalizeCkKey ckName) with
  | some encAesKey =>
    obtain ⟨hinv, hnext⟩ := hcached encAesKey hcache
    exact wp_decryptAndReport hC hset rfl hinv hnext
  | none =>
    dsimp only
    split
    · next hmark => exact hqueued hcache hmark
    · next hmark =>
      simp only [Prog.wp_bind, Prog.wp_modify, Prog.andThen_ok, Prog.wp_get, Prog.wp_liftM]
      by_cases hrequest : c.CanRequest (normalizeCkKey ckName)
      · have hinterest := timedInterest_of_canRequest
          (c := taken (normalizeCkKey ckName) ⟨cipherText, callbacks⟩ c) hrequest
        rw [taken, accept] at hinterest
        rw [hinterest]
        exact hstarted hcache hmark hrequest
      · have hinterest := timedInterest_of_not_canRequest
          (c := taken (normalizeCkKey ckName) ⟨cipherText, callbacks⟩ c) hrequest
        rw [taken, accept] at hinterest
        rw [hinterest]
        exact hrefused hcache hmark hrequest

/-- A ready consumer numbers a call of `consume` and looks at its content. -/
theorem exec_consumeBlock_of_ready (p : Platform) (dataBlock : Block) (hasSuccess hasError : Bool)
    (hready : c.readyForDecryption = true) :
    (consumeBlock p dataBlock hasSuccess hasError).exec c =
      (decryptContent p dataBlock ⟨c.nextCall, hasSuccess, hasError⟩).exec
        { c with nextCall := c.nextCall + 1 } := by
  have hready' : readyForDecryption { c with nextCall := c.nextCall + 1 } = true := hready
  apply Prog.exec_eq_of_wp
  simp only [consumeBlock, enterCall, Prog.wp_bind, Prog.wp_get, Prog.wp_set, Prog.wp_pure,
    Prog.andThen_ok, hready', if_true]
  exact (Prog.wp_silent_iff _ _ _).mpr ⟨rfl, rfl⟩

/-! ## The loop over the waiting tasks -/

/-- The calls a list of tasks belongs to. -/
def callsOf (tasks : List PendingTask) : List ℕ := tasks.map fun task => task.callbacks.id

/-- The loop over the tasks of a name, with `J rest` before each round, when no round
changes the vector. -/
theorem wp_broadcast_of_steady {ckKey : Name} {tasks : List PendingTask}
    {tell : PendingTask → ConsumerM Unit} (J : List PendingTask → Consumer → Prop)
    (hsteady : ∀ {rest t}, J rest t → t.m_pendingCallbacks.find ckKey = some tasks)
    (hstep : ∀ task rest t, task :: rest <:+ tasks → J (task :: rest) t →
      (tell task).wp C (fun r u => match r with
        | .ok _ => J rest u
        | .error e => Q (.error e) u) t)
    (hend : ∀ t, J [] t → Q (.ok ()) (eraseSent ckKey (erasePending ckKey t)))
    (hc : J tasks c) : (broadcast p ckKey tell).wp C Q c := by
  simp only [broadcast, Prog.wp_bind, Prog.wp_get, Prog.andThen_ok, hsteady hc]
  refine Prog.wp_walk (fun rest t => rest <:+ tasks ∧ J rest t) (fun _ => False) ?_
    (fun t ht => hend t ht.2) (fun _ _ hf => hf.elim) ⟨List.suffix_rfl, hc⟩
  rintro task rest t ⟨hsuffix, ht⟩
  refine Prog.wp_mono (fun r u hu => ?_) (hstep task rest t hsuffix ht)
  cases r with
  | error e => exact hu
  | ok _ =>
    have hsize : waiting ckKey u = waiting ckKey t := by
      rw [waiting, waiting, hsteady hu, hsteady ht]
    dsimp only
    rw [if_pos hsize]
    exact ⟨(List.suffix_cons task rest).trans hsuffix, hu⟩

/-! ## The handlers of a content key fetch -/

/-- The octets are those of a block with this EncryptedAesKey. -/
def CarriesKey (contentBuffer encAesKey : Bytes) : Prop :=
  ∃ ckBlock encrypted, Block.ofBuffer contentBuffer = .ok ckBlock ∧
    Block.get ckBlock tlvEncryptedAesKey = .ok encrypted ∧ encrypted.value = encAesKey

/-- The fetch has ended and its key is cached. -/
def fetched (ckKey : Name) (encAesKey : Bytes) (c : Consumer) : Consumer :=
  { endCkFetch ckKey c with m_ckEncAesCache := c.m_ckEncAesCache.assign ckKey encAesKey }

/-- The handler of a fetch that brings a key, round by round: each decrypts and reports. -/
theorem wp_onCkComplete_of_rounds {ckKey : Name} {tasks : List PendingTask}
    {contentBuffer encAesKey : Bytes} (hkey : CarriesKey contentBuffer encAesKey)
    (J : List PendingTask → Consumer → Prop)
    (hsteady : ∀ {rest t}, J rest t → t.m_pendingCallbacks.find ckKey = some tasks)
    (htell : ∀ task rest t, task :: rest <:+ tasks → J (task :: rest) t →
      (decryptAndReport p { task.cipher with m_contentKey := ⟨[], encAesKey⟩ }
        task.callbacks).wp C (fun r u => match r with
        | .ok _ => J rest u
        | .error e => Q (.error e) u) t)
    (hend : ∀ t, J [] t → Q (.ok ()) (eraseSent ckKey (erasePending ckKey t)))
    (hc : J tasks (fetched ckKey encAesKey c)) : (onCkComplete p ckKey contentBuffer).wp C Q c := by
  obtain ⟨ckBlock, encrypted, hblock, hget, hvalue⟩ := hkey
  simp only [onCkComplete, fillCache, hblock, hget, Prog.wp_bind, Prog.wp_modify,
    Prog.andThen_ok, Prog.wp_liftM, Prog.wp_tryCatch, Prog.orElse_ok, hvalue]
  refine wp_broadcast_of_steady J hsteady ?_ hend hc
  intro task rest t hsuffix ht
  simp only [onCkeyData, hget, Prog.wp_bind, Prog.wp_liftM, Prog.andThen_ok, hvalue]
  exact htell task rest t hsuffix ht

/-- **A fetch that brings a key** gives every waiting task the report of its decryption. -/
theorem wp_onCkComplete_of_steady (hC : C.Returns) {ckKey : Name} {tasks : List PendingTask}
    {contentBuffer encAesKey : Bytes} (hkey : CarriesKey contentBuffer encAesKey)
    (J : List PendingTask → Consumer → Prop)
    (hsteady : ∀ {rest t}, J rest t → t.m_pendingCallbacks.find ckKey = some tasks)
    (hset : ∀ task ∈ tasks, task.callbacks.Set)
    (htell : ∀ task rest t, task :: rest <:+ tasks → J (task :: rest) t →
      let decrypted := decryption p { task.cipher with m_contentKey := ⟨[], encAesKey⟩ } t
      let told := reported (task.callbacks.report decrypted.1) decrypted.2 t
      C.inv told ∧ ∀ u, C.rely told u → C.inv u → J rest u)
    (hend : ∀ t, J [] t → Q (.ok ()) (eraseSent ckKey (erasePending ckKey t)))
    (hc : J tasks (fetched ckKey encAesKey c)) : (onCkComplete p ckKey contentBuffer).wp C Q c := by
  refine wp_onCkComplete_of_rounds hkey J hsteady ?_ hend hc
  intro task rest t hsuffix ht
  obtain ⟨hinv, hnext⟩ := htell task rest t hsuffix ht
  exact wp_decryptAndReport hC (hset task (hsuffix.subset List.mem_cons_self)) rfl hinv hnext

/-- The handler of a fetch that fails, round by round. -/
theorem wp_onCkError_of_rounds {ckKey : Name} {tasks : List PendingTask} {errorMsg : String}
    (J : List PendingTask → Consumer → Prop)
    (hsteady : ∀ {rest t}, J rest t → t.m_pendingCallbacks.find ckKey = some tasks)
    (htell : ∀ task rest t, task :: rest <:+ tasks → J (task :: rest) t →
      (tellError errorMsg task).wp C (fun r u => match r with
        | .ok _ => J rest u
        | .error e => Q (.error e) u) t)
    (hend : ∀ t, J [] t → Q (.ok ()) (eraseSent ckKey (erasePending ckKey t)))
    (hc : J tasks (endCkFetch ckKey c)) : (onCkError p ckKey errorMsg).wp C Q c := by
  simp only [onCkError, Prog.wp_bind, Prog.wp_modify, Prog.andThen_ok]
  exact wp_broadcast_of_steady J hsteady htell hend hc

/-- **A fetch that fails** gives every waiting task the error. -/
theorem wp_onCkError_of_steady (hC : C.Returns) {ckKey : Name} {tasks : List PendingTask}
    {errorMsg : String} (J : List PendingTask → Consumer → Prop)
    (hsteady : ∀ {rest t}, J rest t → t.m_pendingCallbacks.find ckKey = some tasks)
    (hset : ∀ task ∈ tasks, task.callbacks.Set)
    (htell : ∀ task rest t, task :: rest <:+ tasks → J (task :: rest) t →
      let told := reported (.error task.callbacks.id errorMsg) t.abeSupport t
      C.inv told ∧ ∀ u, C.rely told u → C.inv u → J rest u)
    (hend : ∀ t, J [] t → Q (.ok ()) (eraseSent ckKey (erasePending ckKey t)))
    (hc : J tasks (endCkFetch ckKey c)) : (onCkError p ckKey errorMsg).wp C Q c := by
  refine wp_onCkError_of_rounds J hsteady ?_ hend hc
  intro task rest t hsuffix ht
  obtain ⟨hinv, hnext⟩ := htell task rest t hsuffix ht
  have htask := hset task (hsuffix.subset List.mem_cons_self)
  simp only [tellError, if_pos htask.2]
  exact wp_invokeError hC htask.2 hinv hnext

end Consumer

end NacAbe
