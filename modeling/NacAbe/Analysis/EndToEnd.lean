import NacAbe.Analysis.ConsumeAccounting
import NacAbe.Analysis.FetchSettlement
import NacAbe.Interface.ConsumerReadiness
import NacAbe.Interface.DecryptedKeys
import NacAbe.Interface.ProducedPackets

/-!
# Produced data is consumed, below four gigabytes

From the packets of any `produce`, a consumer whose key OpenABE accepts gets back what
went into the AES encryption: from the cache, or when the fetch of the content key that
its task waits for completes.  The fetch is one that has been started: a name that an exception
has left marked is not fetched again, and a name that no Interest can have is not fetched at
all (consumer.cpp:218-232).  And it completes for the task unless a call before it has no
callback to be told with, which ends the loop (`Served`).  What went in is the content cut to its
length modulo 2^32 (abe-support.cpp:219-221), so it is the content exactly when that is shorter
(`produced_isConsumed_iff`).  The two strings that OpenABE returns are cut by the same
conversion, and where that happens the terminator is missing from the packet.
-/

set_option autoImplicit false

namespace NacAbe.Analysis

open NacAbe Consumer

/-- OpenABE accepts the consumer's key for an encrypted key, in the consumer's mode. -/
def Accepts (p : Platform) (c : Consumer) (encAesKey : Bytes) : Prop :=
  ∃ context encrypted key,
    (c.m_paramFetcher.m_abeType = abeTypeCpAbe ∧ context = .cpAbe ∨
      c.m_paramFetcher.m_abeType = abeTypeKpAbe ∧ context = .kpAbe) ∧
    stringFrom p.mem encAesKey = .ok encrypted ∧
    AbeSupport.decryptKey p.abe context c.m_paramFetcher.m_pubParamsCache c.m_keyCache
      encrypted = .ok key

/-- Neither of the two strings in the packets was cut. -/
def Terminated (data ckData : List Data) : Prop :=
  (∀ cipherText ckName, payload data = .ok (cipherText, ckName) →
    (0 : UInt8) ∈ cipherText.m_content) ∧
  ∀ encAesKey, encryptedKey ckData = .ok encAesKey → (0 : UInt8) ∈ encAesKey

/-- The consumer holds a key that is accepted, and what it has cached under the CK name belongs
to the content key of these packets. -/
structure ReadyFor (p : Platform) (ckData : List Data) (c : Consumer) : Prop where
  accepts : ∀ encAesKey, encryptedKey ckData = .ok encAesKey → Accepts p c encAesKey
  cached : ∀ encAesKey, c.m_ckEncAesCache.find (contentKeyName ckData) = some encAesKey →
    encryptedKey ckData = .ok encAesKey

/-- Every one of the tasks has set the callback that its decryption with the content key of
these packets comes to. -/
def Unhindered (p : Platform) (ckData : List Data) (tasks : List PendingTask) (c : Consumer) :
    Prop :=
  ∀ encAesKey, encryptedKey ckData = .ok encAesKey →
    ∀ task ∈ tasks, task.callbacks.Hears (resultFor p encAesKey c task)

/-- The content key is cached, or is being fetched and no call that waits for it hinders the
next, or has not been asked for and an Interest for it can be made. -/
def Served (p : Platform) (ckData : List Data) (c : Consumer) : Prop :=
  (c.m_ckEncAesCache.find (contentKeyName ckData)).isSome = true ∨
    contentKeyName ckData ∈ c.ckFetches ∧
      Unhindered p ckData (c.tasksUnder (contentKeyName ckData)) c ∨
    contentKeyName ckData ∉ c.m_ckInterestsSent ∧ c.CanRequest (contentKeyName ckData)

/-- The task waits for a content key that is being fetched and that the consumer can decrypt. -/
structure Waits (p : Platform) (ckData : List Data) (task : PendingTask) (d : Consumer) : Prop where
  fetch : contentKeyName ckData ∈ d.ckFetches
  queued : ∃ before after,
    d.m_pendingCallbacks.find (contentKeyName ckData) = some (before ++ task :: after)
  accepts : ∀ encAesKey, encryptedKey ckData = .ok encAesKey → Accepts p d encAesKey

/-- The completion of the fetch tells every task before this one something, once, then this task
the content, once, and after that tasks behind it something, once. -/
def Completes (p : Platform) (ckData : List Data) (task : PendingTask) (content : Bytes)
    (d : Consumer) : Prop :=
  ∀ before after,
    d.m_pendingCallbacks.find (contentKeyName ckData) = some (before ++ task :: after) →
    ∃ pre post, ((onCkComplete p (contentKeyName ckData) (reassemble ckData)).exec d).2.invoked =
        d.invoked ++ (pre ++ .success task.callbacks.id content :: post) ∧
      pre.map Invocation.id = callsOf before ∧ post.map Invocation.id <+: callsOf after

/-- In the state `c`, content that is produced with a content key is consumed: at once, or
when the fetch of the content key completes with its packets, however much later, as long as
the tasks before this one do not hinder it then. -/
def Consumed (p : Platform) (data ckData : List Data) (content : Bytes) (c : Consumer) : Prop :=
  ∃ dataBlock cipherText ckName, Block.ofBuffer (reassemble data) = .ok dataBlock ∧
    parseContent dataBlock = .ok (cipherText, ckName) ∧
    (∀ packet ∈ ckData, normalizeCkKey ckName <+: packet.name) ∧
    ∀ callbacks : Callbacks, callbacks.Set →
      let task : PendingTask := ⟨cipherText, callbacks⟩
      let t := ((decryptContent p dataBlock callbacks).exec c).2
      t.invoked = c.invoked ++ [.success callbacks.id content] ∨
      t.invoked = c.invoked ∧ Waits p ckData task t ∧ Completes p ckData task content t ∧
        ∀ d, (Consumer.system p).Reaches (fun _ _ => True) ⟨t, []⟩ ⟨d, []⟩ →
          Waits p ckData task d →
          (∀ before after,
            d.m_pendingCallbacks.find (contentKeyName ckData) = some (before ++ task :: after) →
            Unhindered p ckData before d) →
          Completes p ckData task content d

variable {p : Platform} {cert : Certificate} {content encrypted cipher : Bytes}
  {data ckData : List Data} {key : ContentKey} {c d t : Consumer} {task : PendingTask}
  {tasks before after rest : List PendingTask}

/-! ## The decryption -/

/-- What the payload is cut to. -/
def encryptedPart (content : Bytes) : Bytes := content.take (toUint32 content.length)

/-- The whole content is encrypted exactly when its length fits `uint32_t`. -/
theorem encryptedPart_eq_iff (content : Bytes) :
    encryptedPart content = content ↔ content.length < 2 ^ 32 := by
  have hmod : toUint32 content.length < 2 ^ 32 := Nat.mod_lt _ (by decide)
  constructor
  · intro h
    have hlen := congrArg List.length h
    rw [encryptedPart, List.length_take] at hlen
    omega
  · intro h
    rw [encryptedPart, toUint32_of_lt h, List.take_length]

/-- The AES step undoes the encryption of the content. -/
theorem decryptContent_of_made (hlaw : p.abe.Lawful)
    (h : Made p.abe cert content data ckData key encrypted cipher)
    (hfit : cipher.length + 1 < 2 ^ 32) :
    AbeSupport.decryptContent p.abe p.mem key.m_aesKey (cStrBuffer cipher) =
      .ok (encryptedPart content) := by
  obtain ⟨seed, hcipher⟩ := h.symEncrypt
  have hstring : stringFrom p.mem (cStrBuffer cipher) = .ok cipher :=
    stringFrom_cStrBuffer p.mem (hlaw.symEncrypt_no_nul hcipher) hfit
  have hplain := hlaw.symDecrypt_symEncrypt hcipher
  have hmod : toUint32 content.length < 2 ^ 32 := Nat.mod_lt _ (by decide)
  have hshort : (encryptedPart content).length < 2 ^ 32 := by
    rw [encryptedPart, List.length_take]
    omega
  rw [AbeSupport.decryptContent, hstring, ok_bind, hplain]
  change Except.ok ((encryptedPart content).take (toUint32 (encryptedPart content).length)) = _
  rw [toUint32_of_lt hshort, List.take_length]

/-- **A consumer whose key is accepted decrypts with the content key**, whether or not that has
been decrypted before: what is left to go wrong is the decryption of the content. -/
theorem decryption_of_accepts (hlaw : p.abe.Lawful)
    (h : Made p.abe cert content data ckData key encrypted cipher)
    (hkey : encrypted.length + 1 < 2 ^ 32) (hsound : c.AbeSound p)
    (haccept : Accepts p c key.m_encAesKey) (cipherText : CipherText) :
    (decryption p { cipherText with m_contentKey := ⟨[], key.m_encAesKey⟩ } c).1 =
      described (AbeSupport.decryptContent p.abe p.mem key.m_aesKey cipherText.m_content) := by
  obtain ⟨scheme, pub, policyOrAttribute, seed, hencrypt⟩ := h.encrypt
  have hstring : stringFrom p.mem key.m_encAesKey = .ok encrypted := by
    rw [h.buffer, stringFrom_cStrBuffer p.mem (hlaw.encrypt_no_nul hencrypt) hkey]
  obtain ⟨context, encrypted', key', hcontext, hread, hdecrypt⟩ := haccept
  rw [hstring] at hread
  cases hread
  have hrun : ((AbeSupport.decrypt p.abe p.mem context c.m_paramFetcher.m_pubParamsCache
      c.m_keyCache
      { cipherText with m_contentKey := ⟨[], key.m_encAesKey⟩ }).run.run c.abeSupport).1 =
      AbeSupport.decryptContent p.abe p.mem key.m_aesKey cipherText.m_content := by
    obtain ⟨found, hfound⟩ := AbeSupport.exists_keyFor c.abeSupport hdecrypt
    obtain rfl := AbeSupport.Sound.eq_of_keyFor hsound hlaw h.encrypt hfound
    rw [AbeSupport.decrypt_result, hstring, ok_bind, hfound, ok_bind]
  have hmodes : abeTypeKpAbe ≠ abeTypeCpAbe := by decide
  rcases hcontext with ⟨htype, rfl⟩ | ⟨htype, rfl⟩
  · simp only [decryption, if_pos htype, AbeSupport.cpDecrypt, Prod.map_fst, hrun]
  · simp only [decryption, htype, if_neg hmodes, if_true, AbeSupport.kpDecrypt, Prod.map_fst, hrun]

/-- It decrypts what was encrypted. -/
theorem decryption_of_made (hlaw : p.abe.Lawful)
    (h : Made p.abe cert content data ckData key encrypted cipher)
    (hkey : encrypted.length + 1 < 2 ^ 32) (hfit : cipher.length + 1 < 2 ^ 32)
    (hsound : c.AbeSound p) (haccept : Accepts p c key.m_encAesKey) (size : ℕ) :
    (decryption p ⟨⟨[], key.m_encAesKey⟩, cStrBuffer cipher, size⟩ c).1 =
      .ok (encryptedPart content) := by
  have hresult := decryption_of_accepts hlaw h hkey hsound haccept
    ⟨default, cStrBuffer cipher, size⟩
  rw [decryptContent_of_made hlaw h hfit] at hresult
  exact hresult

/-! ## The completion of the fetch -/

/-- What the content key makes of a waiting task. -/
def resultWith (p : Platform) (key : ContentKey) (task : PendingTask) : Except String Bytes :=
  described (AbeSupport.decryptContent p.abe p.mem key.m_aesKey task.cipher.m_content)

/-- The invocation tells the task what the content key makes of it. -/
def Answers (p : Platform) (key : ContentKey) (task : PendingTask) (call : Invocation) : Prop :=
  task.callbacks.Hears (resultWith p key task) ∧ call = task.callbacks.told (resultWith p key task)

/-- Before each round of the loop: the tasks up to `rest` have their answers, and the
consumer is otherwise as it was. -/
structure Answering (p : Platform) (key : ContentKey) (ckKey : Name) (tasks : List PendingTask)
    (d : Consumer) (rest : List PendingTask) (t : Consumer) : Prop where
  pending : t.m_pendingCallbacks.find ckKey = some tasks
  fetcher_eq : t.m_paramFetcher = d.m_paramFetcher
  key_eq : t.m_keyCache = d.m_keyCache
  sound : t.AbeSound p
  answered : ∃ calls done, tasks = done ++ rest ∧ t.invoked = d.invoked ++ calls ∧
    List.Forall₂ (Answers p key) done calls

theorem Accepts.congr {encAesKey : Bytes} (h : Accepts p d encAesKey)
    (hfetcher : t.m_paramFetcher = d.m_paramFetcher) (hkey : t.m_keyCache = d.m_keyCache) :
    Accepts p t encAesKey := by
  unfold Accepts
  rw [hfetcher, hkey]
  exact h

/-- The singleton is as sound after a decryption. -/
theorem sound_of_decryption (cipherText : CipherText) (h : c.AbeSound p) :
    (decryption p cipherText c).2.Sound p.abe := by
  unfold decryption
  dsimp only
  split_ifs
  · exact AbeSupport.Sound.decrypt h _ _ _ _
  · exact AbeSupport.Sound.decrypt h _ _ _ _
  · exact h

/-- One round: the task gets its answer. -/
theorem Answering.tell {ckKey : Name} {st : AbeSupport} (hst : st.Sound p.abe)
    (hhears : task.callbacks.Hears (resultWith p key task))
    (ht : Answering p key ckKey tasks d (task :: rest) t) :
    Answering p key ckKey tasks d rest
      (reported (task.callbacks.told (resultWith p key task)) st t) := by
  obtain ⟨calls, done, htasks, hinvoked, hcalls⟩ := ht.answered
  refine ⟨ht.pending, ht.fetcher_eq, ht.key_eq, hst, ?_⟩
  exact ⟨calls ++ [task.callbacks.told (resultWith p key task)], done ++ [task], by simp [htasks],
    by simp [reported, hinvoked], List.rel_append hcalls (.cons ⟨hhears, rfl⟩ .nil)⟩

/-- The packets of a content key hold a block with the key's buffer. -/
theorem carriesKey_of_encryptedKey {encAesKey : Bytes} (h : encryptedKey ckData = .ok encAesKey) :
    CarriesKey (reassemble ckData) encAesKey := by
  obtain ⟨ckBlock, hblock, h⟩ := bind_eq_ok.mp h
  obtain ⟨encTLV, hget, h⟩ := bind_eq_ok.mp h
  cases h
  exact ⟨ckBlock, encTLV, hblock, hget, rfl⟩

/-- The tasks up to `rest` have been told what the content key makes of them, and the first of
`rest` has no callback to be told with. -/
def ToldUntil (p : Platform) (key : ContentKey) (tasks rest : List PendingTask)
    (calls : List Invocation) : Prop :=
  ∃ done, tasks = done ++ rest ∧ List.Forall₂ (Answers p key) done calls ∧
    ∀ task ∈ rest.head?, ¬ task.callbacks.Hears (resultWith p key task)

/-- **The completion answers one waiting task after the other**, up to one that has no callback to
be told with. -/
theorem exec_onCkComplete_answers (hlaw : p.abe.Lawful)
    (h : Made p.abe cert content data ckData key encrypted cipher)
    (hkey : encrypted.length + 1 < 2 ^ 32) (hsound : d.AbeSound p)
    (haccept : Accepts p d key.m_encAesKey) {ckKey : Name}
    (hfind : d.m_pendingCallbacks.find ckKey = some tasks) :
    ∃ calls rest,
      ((onCkComplete p ckKey (reassemble ckData)).exec d).2.invoked = d.invoked ++ calls ∧
      ToldUntil p key tasks rest calls := by
  have hcarries := carriesKey_of_encryptedKey h.encryptedKey_eq
  have hwp : (onCkComplete p ckKey (reassemble ckData)).wp (Prog.silent _ _ _) (fun _ t =>
      ∃ calls rest, t.invoked = d.invoked ++ calls ∧ ToldUntil p key tasks rest calls) d := by
    refine wp_onCkComplete_of_rounds hcarries (Answering p key ckKey tasks d)
      (fun ht => ht.pending) ?_ ?_ ?_
    · intro task rest t _ ht
      have hresult : (decryption p { task.cipher with m_contentKey := ⟨[], key.m_encAesKey⟩ } t).1 =
          resultWith p key task :=
        decryption_of_accepts hlaw h hkey ht.sound (haccept.congr ht.fetcher_eq ht.key_eq) _
      refine wp_decryptAndReport_of_returns Prog.silent_returns (Prod.ext hresult rfl) ?_ ?_
      · intro hhears
        refine ⟨trivial, ?_⟩
        rintro u rfl -
        exact ht.tell (sound_of_decryption _ ht.sound) hhears
      · intro hunheard
        obtain ⟨calls, done, htasks, hinvoked, hcalls⟩ := ht.answered
        refine ⟨calls, task :: rest, hinvoked, done, htasks, hcalls, fun first hfirst => ?_⟩
        cases hfirst
        exact hunheard
    · intro t ht
      obtain ⟨calls, done, htasks, hinvoked, hcalls⟩ := ht.answered
      exact ⟨calls, [], hinvoked, done, htasks, hcalls, nofun⟩
    · exact ⟨hfind, rfl, rfl, hsound, [], [], rfl, by simp [fetched, endCkFetch], .nil⟩
  exact (Prog.wp_silent_iff _ _ _).mp hwp

theorem map_id_of_answers {calls : List Invocation}
    (h : List.Forall₂ (Answers p key) tasks calls) :
    calls.map Invocation.id = callsOf tasks := by
  induction h with
  | nil => rfl
  | cons hanswer _ ih =>
    rw [List.map_cons, hanswer.2, ih, Callbacks.id_told]
    rfl

theorem hears_of_answers {calls : List Invocation}
    (h : List.Forall₂ (Answers p key) tasks calls) :
    ∀ waiting ∈ tasks, waiting.callbacks.Hears (resultWith p key waiting) := by
  unfold Answers at h
  exact ((List.forall₂_and_left tasks calls).mp h).1

/-- The calls before, for and after a task that has been answered. -/
theorem exists_split_of_answers {calls : List Invocation}
    (h : List.Forall₂ (Answers p key) (before ++ task :: after) calls) :
    ∃ pre call post, calls = pre ++ call :: post ∧ List.Forall₂ (Answers p key) before pre ∧
      Answers p key task call ∧ List.Forall₂ (Answers p key) after post := by
  have hpre := (List.forall₂_take_append calls before (task :: after) h.flip).flip
  have hrest := (List.forall₂_drop_append calls before (task :: after) h.flip).flip
  cases hdrop : calls.drop before.length with
  | nil =>
    rw [hdrop] at hrest
    cases hrest
  | cons call post =>
    rw [hdrop] at hrest
    cases hrest with
    | cons hanswer hpost =>
      refine ⟨calls.take before.length, call, post, ?_, hpre, hanswer, hpost⟩
      rw [← hdrop, List.take_append_drop]

/-- Where no task up to this one hinders the next, this one has been answered. -/
theorem exists_answered {calls : List Invocation}
    (h : ToldUntil p key (before ++ task :: after) rest calls)
    (hbefore : ∀ waiting ∈ before, waiting.callbacks.Hears (resultWith p key waiting))
    (htask : task.callbacks.Hears (resultWith p key task)) :
    ∃ done', after = done' ++ rest ∧
      List.Forall₂ (Answers p key) (before ++ task :: done') calls := by
  obtain ⟨done, htasks, hcalls, hrest⟩ := h
  rcases List.append_eq_append_iff.mp htasks with ⟨ended, rfl, htail⟩ | ⟨left, rfl, htail⟩
  · cases ended with
    | nil =>
      rw [List.nil_append] at htail
      subst htail
      exact absurd htask (hrest task rfl)
    | cons first done' =>
      rw [List.cons_append] at htail
      obtain ⟨rfl, rfl⟩ := List.cons.inj htail
      exact ⟨done', rfl, hcalls⟩
  · -- The loop would have ended at a task before this one, or at this one.
    cases left with
    | nil =>
      rw [List.nil_append] at htail
      subst htail
      exact absurd htask (hrest task rfl)
    | cons first left =>
      subst htail
      exact absurd (hbefore first (List.mem_append_right _ List.mem_cons_self)) (hrest first rfl)

/-- The answer of a task with the cipher text that its decryption gives back. -/
theorem told_of_resultWith {callbacks : Callbacks} (hset : callbacks.Set) {plain : Bytes}
    {cipherText : CipherText} (hplain : resultWith p key ⟨cipherText, callbacks⟩ = .ok plain) :
    callbacks.told (resultWith p key ⟨cipherText, callbacks⟩) = .success callbacks.id plain := by
  rw [hplain, Callbacks.told_of_set hset]
  rfl

/-- **A waiting task is told what its decryption gives exactly when no task before it hinders
it**: when each has a callback to be told with. -/
theorem completes_iff (hlaw : p.abe.Lawful)
    (h : Made p.abe cert content data ckData key encrypted cipher)
    (hkey : encrypted.length + 1 < 2 ^ 32) (hsound : d.AbeSound p)
    (haccept : Accepts p d key.m_encAesKey) (hset : task.callbacks.Set) {plain told : Bytes}
    (hplain : resultWith p key task = .ok plain) {ckKey : Name}
    (hfind : d.m_pendingCallbacks.find ckKey = some (before ++ task :: after)) :
    (∃ pre post, ((onCkComplete p ckKey (reassemble ckData)).exec d).2.invoked =
        d.invoked ++ (pre ++ .success task.callbacks.id told :: post) ∧
      pre.map Invocation.id = callsOf before ∧ post.map Invocation.id <+: callsOf after) ↔
    told = plain ∧ ∀ waiting ∈ before, waiting.callbacks.Hears (resultWith p key waiting) := by
  obtain ⟨calls, rest, hinvoked, htold⟩ :=
    exec_onCkComplete_answers hlaw h hkey hsound haccept hfind
  have hanswer := told_of_resultWith hset hplain
  constructor
  · rintro ⟨pre, post, hinvoked', hpre, -⟩
    rw [hinvoked, List.append_cancel_left_eq] at hinvoked'
    subst hinvoked'
    obtain ⟨done, htasks, hcalls, -⟩ := htold
    have hlength : before.length = pre.length := by
      simpa [callsOf] using (congrArg List.length hpre).symm
    have hdone : before.length < done.length := by
      have hcount := hcalls.length_eq
      rw [List.length_append, List.length_cons] at hcount
      omega
    obtain ⟨done', rfl⟩ : ∃ done', done = before ++ task :: done' := by
      rcases List.append_eq_append_iff.mp htasks with ⟨ended, rfl, htail⟩ | ⟨left, rfl, -⟩
      · cases ended with
        | nil => simp at hdone
        | cons first done' =>
          rw [List.cons_append] at htail
          obtain ⟨rfl, -⟩ := List.cons.inj htail
          exact ⟨done', rfl⟩
      · rw [List.length_append] at hdone
        omega
    obtain ⟨pre', call, post', hsplit, hbefore, htask, -⟩ := exists_split_of_answers hcalls
    obtain ⟨rfl, hrest⟩ := List.append_inj hsplit (hlength.symm.trans hbefore.length_eq)
    obtain ⟨rfl, -⟩ := List.cons.inj hrest
    have hcall : Invocation.success task.callbacks.id told = .success task.callbacks.id plain :=
      htask.2.trans hanswer
    cases hcall
    exact ⟨rfl, hears_of_answers hbefore⟩
  · rintro ⟨rfl, hbefore⟩
    have htask : task.callbacks.Hears (resultWith p key task) := hset.hears _
    obtain ⟨done', rfl, hcalls⟩ := exists_answered htold hbefore htask
    obtain ⟨pre, call, post, rfl, hpre, hcall, hpost⟩ := exists_split_of_answers hcalls
    refine ⟨pre, post, ?_, map_id_of_answers hpre, ?_⟩
    · rw [hinvoked, hcall.2, hanswer]
    · rw [map_id_of_answers hpost, callsOf, callsOf, List.map_append]
      exact List.prefix_append _ _

/-! ## The consume -/

/-- What a waiting task would be told is what the content key makes of it. -/
theorem unhindered_iff (hlaw : p.abe.Lawful)
    (h : Made p.abe cert content data ckData key encrypted cipher)
    (hkey : encrypted.length + 1 < 2 ^ 32) (hsound : d.AbeSound p)
    (haccept : Accepts p d key.m_encAesKey) :
    Unhindered p ckData tasks d ↔
      ∀ waiting ∈ tasks, waiting.callbacks.Hears (resultWith p key waiting) := by
  have hresult := fun waiting : PendingTask =>
    decryption_of_accepts hlaw h hkey hsound haccept waiting.cipher
  constructor
  · intro hunhindered waiting hwaiting
    have hhears := hunhindered _ h.encryptedKey_eq waiting hwaiting
    rw [resultFor, hresult] at hhears
    exact hhears
  · intro hhears encAesKey hencrypted waiting hwaiting
    rw [h.encryptedKey_eq] at hencrypted
    cases hencrypted
    rw [resultFor, hresult]
    exact hhears waiting hwaiting

/-- A call of `decryptContent` that was not answered at once: the task is queued, and the content
key is being fetched if it was before or has been asked for now. -/
structure Joined (ckKey : Name) (task : PendingTask) (c t : Consumer) : Prop where
  invoked_eq : t.invoked = c.invoked
  abeSupport_eq : t.abeSupport = c.abeSupport
  fetcher_eq : t.m_paramFetcher = c.m_paramFetcher
  key_eq : t.m_keyCache = c.m_keyCache
  pending : t.m_pendingCallbacks.find ckKey = some (c.tasksUnder ckKey ++ [task])
  fetch_iff : ckKey ∈ t.ckFetches ↔
    ckKey ∈ c.ckFetches ∨ ckKey ∉ c.m_ckInterestsSent ∧ c.CanRequest ckKey

/-- A `consume` is answered from the cache, or joins those that wait. -/
theorem exec_decryptContent_of_made (hlaw : p.abe.Lawful)
    (h : Made p.abe cert content data ckData key encrypted cipher)
    (hkey : encrypted.length + 1 < 2 ^ 32) (hfit : cipher.length + 1 < 2 ^ 32)
    (hsound : c.AbeSound p) (hc : ReadyFor p ckData c) {dataBlock : Block} {size : ℕ}
    (hparse : parseContent dataBlock = .ok (⟨default, cStrBuffer cipher, size⟩,
      contentKeyName ckData)) {callbacks : Callbacks} (hset : callbacks.Set) :
    let t := ((decryptContent p dataBlock callbacks).exec c).2
    (c.m_ckEncAesCache.find (contentKeyName ckData)).isSome = true ∧
        t.invoked = c.invoked ++ [.success callbacks.id (encryptedPart content)] ∨
      c.m_ckEncAesCache.find (contentKeyName ckData) = none ∧
        Joined (contentKeyName ckData) ⟨⟨default, cStrBuffer cipher, size⟩, callbacks⟩ c t := by
  intro t
  have hname := h.toCkMade.normalizeCkKey_eq
  have hwp : (decryptContent p dataBlock callbacks).wp (Prog.silent _ _ _) (fun _ t =>
      (c.m_ckEncAesCache.find (contentKeyName ckData)).isSome = true ∧
        t.invoked = c.invoked ++ [.success callbacks.id (encryptedPart content)] ∨
      c.m_ckEncAesCache.find (contentKeyName ckData) = none ∧
        Joined (contentKeyName ckData) ⟨⟨default, cStrBuffer cipher, size⟩, callbacks⟩ c t) c := by
    refine wp_decryptContent_of_parse Prog.silent_returns hset hparse ?_ ?_ ?_ ?_
    all_goals rw [hname]
    · intro encAesKey hcache
      have henc : encAesKey = key.m_encAesKey := by
        have hsame := hc.cached encAesKey hcache
        rw [h.encryptedKey_eq] at hsame
        exact (Except.ok.inj hsame).symm
      subst henc
      have hresult := decryption_of_made hlaw h hkey hfit hsound
        (hc.accepts _ h.encryptedKey_eq) size
      refine ⟨trivial, ?_⟩
      rintro t rfl -
      left
      rw [hcache, hresult]
      exact ⟨rfl, rfl⟩
    · intro hcache hmark
      right
      refine ⟨hcache, rfl, rfl, rfl, rfl, by simp [queue, accept, tasksUnder], ?_⟩
      exact ⟨Or.inl, fun hfetch => hfetch.resolve_right fun hask => hask.1 hmark⟩
    · intro hcache hmark hrequest
      right
      refine ⟨hcache, rfl, rfl, rfl, rfl,
        by simp [startCkFetch, taken, queue, accept, tasksUnder], ?_⟩
      exact iff_of_true List.mem_cons_self (Or.inr ⟨hmark, hrequest⟩)
    · intro hcache hmark hrequest
      right
      refine ⟨hcache, rfl, rfl, rfl, rfl, by simp [taken, queue, accept, tasksUnder], ?_⟩
      exact ⟨Or.inl, fun hfetch => hfetch.resolve_right fun hask => hrequest hask.2⟩
  exact (Prog.wp_silent_iff _ _ _).mp hwp

/-! ## The result -/

/-- Packets that are read with their terminators are terminated. -/
theorem terminated_of_reads {size : ℕ} {ckName : Name}
    (hpayload : payload data = .ok (⟨default, cipher ++ [0], size⟩, ckName))
    (hkey : encryptedKey ckData = .ok (encrypted ++ [0])) : Terminated data ckData := by
  constructor
  · intro cipherText ckName h
    rw [hpayload] at h
    cases h
    exact List.mem_append_right _ (List.mem_singleton_self 0)
  · intro encAesKey h
    rw [hkey] at h
    cases h
    exact List.mem_append_right _ (List.mem_singleton_self 0)

/-- The packets are terminated exactly when the strings of OpenABE are short enough. -/
theorem terminated_iff_of_made (hlaw : p.abe.Lawful)
    (h : Made p.abe cert content data ckData key encrypted cipher)
    (hcert : ∀ c ∈ cert.getName, 0 < c.type ∧ c.type < 2 ^ 32) :
    Terminated data ckData ↔ encrypted.length + 1 < 2 ^ 32 ∧ cipher.length + 1 < 2 ^ 32 := by
  obtain ⟨scheme, pub, policyOrAttribute, seed, hencrypt⟩ := h.encrypt
  obtain ⟨seed', hcipher⟩ := h.symEncrypt
  have hpayload := h.payload_eq hcert
  have hkey := h.encryptedKey_eq
  rw [h.buffer] at hkey
  constructor
  · intro hfit
    exact ⟨length_lt_of_mem_cStrBuffer (hlaw.encrypt_no_nul hencrypt) (hfit.2 _ hkey),
      length_lt_of_mem_cStrBuffer (hlaw.symEncrypt_no_nul hcipher) (hfit.1 _ _ hpayload)⟩
  · rintro ⟨hkeyLength, hlength⟩
    rw [cStrBuffer_of_lt hlength] at hpayload
    rw [cStrBuffer_of_lt hkeyLength] at hkey
    exact terminated_of_reads hpayload hkey

/-- What is under a CK name, and hinders nobody, once a task has joined. -/
theorem unhindered_of_joined {ckKey : Name} (hjoined : Joined ckKey task c t)
    (hset : task.callbacks.Set) (hhears : ∀ waiting ∈ c.tasksUnder ckKey,
      waiting.callbacks.Hears (resultWith p key waiting))
    (hfind : t.m_pendingCallbacks.find ckKey = some (before ++ task :: after)) :
    ∀ waiting ∈ before, waiting.callbacks.Hears (resultWith p key waiting) := by
  have hpending := hjoined.pending
  rw [hfind] at hpending
  intro waiting hwaiting
  have hmem : waiting ∈ c.tasksUnder ckKey ++ [task] := by
    rw [← Option.some.inj hpending]
    exact List.mem_append_left _ hwaiting
  rcases List.mem_append.mp hmem with hold | hnew
  · exact hhears waiting hold
  · rw [List.mem_singleton.mp hnew]
    exact hset.hears _

/-- Nobody waits under a name that is not marked. -/
theorem tasksUnder_of_unmarked {ckKey : Name} (hflight : Flight c)
    (hmark : ckKey ∉ c.m_ckInterestsSent) : c.tasksUnder ckKey = [] := by
  rw [tasksUnder]
  cases hfind : c.m_pendingCallbacks.find ckKey with
  | none => rfl
  | some tasks => exact absurd (hflight.pending ckKey tasks hfind) hmark

/-- **What keeps a call that is served from waiting in vain**: the content key is fetched and
nobody that waits for it hinders the next. -/
theorem served_iff_of_uncached (hflight : Flight c)
    (hcache : c.m_ckEncAesCache.find (contentKeyName ckData) = none) :
    Served p ckData c ↔ (contentKeyName ckData ∈ c.ckFetches ∨
        contentKeyName ckData ∉ c.m_ckInterestsSent ∧ c.CanRequest (contentKeyName ckData)) ∧
      Unhindered p ckData (c.tasksUnder (contentKeyName ckData)) c := by
  constructor
  · rintro (hcached | ⟨hfetch, hunhindered⟩ | ⟨hmark, hrequest⟩)
    · rw [hcache] at hcached
      cases hcached
    · exact ⟨Or.inl hfetch, hunhindered⟩
    · refine ⟨Or.inr ⟨hmark, hrequest⟩, ?_⟩
      rw [tasksUnder_of_unmarked hflight hmark]
      exact fun _ _ => List.forall_mem_nil _
  · rintro ⟨hfetch | hask, hunhindered⟩
    · exact Or.inr (Or.inl ⟨hfetch, hunhindered⟩)
    · exact Or.inr (Or.inr hask)

/-- What a consumer reads in packets that were made. -/
theorem parseContent_of_made (h : Made p.abe cert content data ckData key encrypted cipher)
    (hcert : ∀ c ∈ cert.getName, 0 < c.type ∧ c.type < 2 ^ 32) :
    ∃ dataBlock, Block.ofBuffer (reassemble data) = .ok dataBlock ∧
      parseContent dataBlock = .ok (⟨default, cStrBuffer cipher, toUint32 content.length⟩,
        contentKeyName ckData) :=
  bind_eq_ok.mp (h.payload_eq hcert)

/-- What its content key makes of that. -/
theorem resultWith_of_made (hlaw : p.abe.Lawful)
    (h : Made p.abe cert content data ckData key encrypted cipher)
    (hlen : cipher.length + 1 < 2 ^ 32) (size : ℕ) (callbacks : Callbacks) :
    resultWith p key ⟨⟨default, cStrBuffer cipher, size⟩, callbacks⟩ =
      .ok (encryptedPart content) := by
  rw [resultWith, decryptContent_of_made hlaw h hlen]
  rfl

/-- A call that joins the waiting tasks leaves the singleton as sound. -/
theorem Joined.sound {ckKey : Name} (hjoined : Joined ckKey task c t) (hsound : c.AbeSound p) :
    t.AbeSound p := by
  unfold AbeSound
  rw [hjoined.abeSupport_eq]
  exact hsound

/-- Packets that are consumed are short, and the call is served. -/
theorem served_of_consumed (hlaw : p.abe.Lawful)
    (h : Made p.abe cert content data ckData key encrypted cipher)
    (hcert : ∀ c ∈ cert.getName, 0 < c.type ∧ c.type < 2 ^ 32) (hfit : Terminated data ckData)
    (hsound : c.AbeSound p) (hflight : Flight c) (hc : ReadyFor p ckData c)
    (hconsumed : Consumed p data ckData content c) :
    encryptedPart content = content ∧ Served p ckData c := by
  obtain ⟨hkey, hlen⟩ := (terminated_iff_of_made hlaw h hcert).mp hfit
  obtain ⟨dataBlock, hblock, hparse⟩ := parseContent_of_made h hcert
  have haccept := hc.accepts _ h.encryptedKey_eq
  obtain ⟨dataBlock', cipherText, ckName, hblock', hparse', -, hconsumed⟩ := hconsumed
  rw [hblock] at hblock'
  cases hblock'
  rw [hparse] at hparse'
  cases hparse'
  have hset : Callbacks.Set ⟨0, true, true⟩ := ⟨rfl, rfl⟩
  rcases exec_decryptContent_of_made hlaw h hkey hlen hsound hc hparse hset with
    ⟨hcached, hanswered⟩ | ⟨hcache, hjoined⟩
  · rcases hconsumed _ hset with hanswered' | ⟨hsilent, -⟩
    · rw [hanswered] at hanswered'
      exact ⟨by simpa using hanswered', Or.inl hcached⟩
    · rw [hanswered] at hsilent
      simp at hsilent
  · rcases hconsumed _ hset with hanswered | ⟨-, hwaits, hcompletes, -⟩
    · rw [hjoined.invoked_eq] at hanswered
      simp at hanswered
    · obtain ⟨hcontent, hhears⟩ := (completes_iff hlaw h hkey (hjoined.sound hsound)
        (haccept.congr hjoined.fetcher_eq hjoined.key_eq) hset
        (resultWith_of_made hlaw h hlen _ _) hjoined.pending).mp (hcompletes _ _ hjoined.pending)
      refine ⟨hcontent.symm, (served_iff_of_uncached hflight hcache).mpr ⟨?_, ?_⟩⟩
      · exact hjoined.fetch_iff.mp hwaits.fetch
      · exact (unhindered_iff hlaw h hkey hsound haccept).mpr hhears

/-- Packets that are short are consumed by a call that is served. -/
theorem consumed_of_served (hlaw : p.abe.Lawful)
    (h : Made p.abe cert content data ckData key encrypted cipher)
    (hcert : ∀ c ∈ cert.getName, 0 < c.type ∧ c.type < 2 ^ 32) (hfit : Terminated data ckData)
    (hsound : c.AbeSound p) (hflight : Flight c) (hc : ReadyFor p ckData c)
    (hcontent : encryptedPart content = content) (hserved : Served p ckData c) :
    Consumed p data ckData content c := by
  obtain ⟨hkey, hlen⟩ := (terminated_iff_of_made hlaw h hcert).mp hfit
  obtain ⟨dataBlock, hblock, hparse⟩ := parseContent_of_made h hcert
  refine ⟨dataBlock, _, contentKeyName ckData, hblock, hparse, ?_, ?_⟩
  · rw [h.toCkMade.normalizeCkKey_eq]
    exact h.toCkMade.prefix_name
  · intro callbacks hset
    rcases exec_decryptContent_of_made hlaw h hkey hlen hsound hc hparse hset with
      ⟨-, hanswered⟩ | ⟨hcache, hjoined⟩
    · rw [hcontent] at hanswered
      exact Or.inl hanswered
    · obtain ⟨hfetch, hunhindered⟩ := (served_iff_of_uncached hflight hcache).mp hserved
      have haccept := hc.accepts _ h.encryptedKey_eq
      have hhears := (unhindered_iff hlaw h hkey hsound haccept).mp hunhindered
      have hsound' := hjoined.sound hsound
      have haccept' := haccept.congr hjoined.fetcher_eq hjoined.key_eq
      have hplain := resultWith_of_made hlaw h hlen (toUint32 content.length) callbacks
      refine Or.inr ⟨hjoined.invoked_eq, ⟨hjoined.fetch_iff.mpr hfetch, ⟨_, [], hjoined.pending⟩,
        ?_⟩, ?_, ?_⟩
      · intro encAesKey hencrypted
        rw [h.encryptedKey_eq] at hencrypted
        cases hencrypted
        exact haccept'
      · intro before after hfind
        exact (completes_iff hlaw h hkey hsound' haccept' hset hplain hfind).mpr
          ⟨hcontent.symm, unhindered_of_joined hjoined hset hhears hfind⟩
      · intro d hreach hwaits hbefore before after hfind
        have hsoundLater := sound_of_reaches hsound' hreach
        have hacceptLater := hwaits.accepts _ h.encryptedKey_eq
        have hheard := (unhindered_iff hlaw h hkey hsoundLater hacceptLater).mp
          (hbefore before after hfind)
        exact (completes_iff hlaw h hkey hsoundLater hacceptLater hset hplain hfind).mpr
          ⟨hcontent.symm, hheard⟩

/-- Packets that were made are consumed as what was encrypted. -/
theorem consumed_iff_of_made (hlaw : p.abe.Lawful)
    (h : Made p.abe cert content data ckData key encrypted cipher)
    (hcert : ∀ c ∈ cert.getName, 0 < c.type ∧ c.type < 2 ^ 32) (hfit : Terminated data ckData)
    (hsound : c.AbeSound p) (hflight : Flight c) (hc : ReadyFor p ckData c) :
    Consumed p data ckData content c ↔ content.length < 2 ^ 32 ∧ Served p ckData c := by
  rw [← encryptedPart_eq_iff]
  constructor
  · exact served_of_consumed hlaw h hcert hfit hsound hflight hc
  · rintro ⟨hcontent, hserved⟩
    exact consumed_of_served hlaw h hcert hfit hsound hflight hc hcontent hserved

/-- **Produced data is consumed exactly when the content is shorter than 2^32 octets and the
consumer can get at the content key**, by any producer for any consumer that a run has reached
and whose key is accepted, where the strings of OpenABE have not been cut. -/
theorem produced_isConsumed_iff (p : Platform) (hlaw : p.abe.Lawful) (cert : Certificate)
    (hcert : ∀ c ∈ cert.getName, 0 < c.type ∧ c.type < 2 ^ 32) (content : Bytes)
    (data ckData : List Data) (hproduced : Produces p.abe cert content (data, ckData))
    (hne : ckData ≠ []) (hfit : Terminated data ckData)
    (identityCert attrAuthorityCertificate : Certificate) (template : Interest)
    (d : System.Config Consumer Exn Invocation)
    (hreach : (Consumer.system p).Reaches (fun _ _ => True)
      ⟨Consumer.initial identityCert attrAuthorityCertificate template, []⟩ d)
    (hready : ReadyFor p ckData d.st) :
    Consumed p data ckData content d.st ↔ content.length < 2 ^ 32 ∧ Served p ckData d.st := by
  obtain ⟨key, encrypted, cipher, hmade⟩ := made_of_produces hproduced hne
  have hinitial : (Consumer.initial identityCert attrAuthorityCertificate template).AbeSound p :=
    AbeSupport.sound_initial p.abe
  have hempty : System.Good flightContract []
      (Consumer.initial identityCert attrAuthorityCertificate template) :=
    flight_initial identityCert attrAuthorityCertificate template
  have hflight : Flight d.st := (flight_of_reaches p hempty hreach).inv
  exact consumed_iff_of_made hlaw hmade hcert hfit (sound_of_reaches hinitial hreach) hflight hready

/-- A producer of `/p` with the parameters of the ready consumer. -/
def sampleProducer : Producer :=
  let producer := Producer.initial (.sample (ascii "p") [7]) (.sample (ascii "a") [8])
    (.sample (ascii "o") [6]) ParamFetcher.defaultInterestTemplate
  { producer with m_paramFetcher := ready.m_paramFetcher }

/-- What it produces for the policy "x". -/
def samplePackets (content : Bytes) : Except Exn (List Data × List Data) :=
  sampleProducer.producePolicy mockAbe [Component.generic (ascii "d")] (ascii "x") content 64 1 4

/-- The ready consumer's key is accepted for what was encrypted under "x". -/
theorem readyFor_ready (h : encryptedKey ckData = .ok (MockAbe.enclose (ascii "x") [4] ++ [0])) :
    ReadyFor mockPlatform ckData ready where
  accepts encAesKey hencrypted := by
    rw [h] at hencrypted
    cases hencrypted
    exact ⟨.cpAbe, MockAbe.enclose (ascii "x") [4], [4], Or.inl ⟨rfl, rfl⟩, rfl, rfl⟩
  cached encAesKey hcached := by cases hcached

/-- It has asked for no content key, and can ask for one with a name of the usual form. -/
theorem served_ready (h : (contentKeyName ckData).Requestable) :
    Served mockPlatform ckData ready :=
  Or.inr (Or.inr ⟨Finset.notMem_empty _, h, by decide⟩)

theorem reaches_ready : (Consumer.system mockPlatform).Reaches (fun _ _ => True)
    ⟨fresh, []⟩ ⟨ready, []⟩ :=
  System.reaches_of_run (fun _ _ _ => trivial) run_ready

set_option maxRecDepth 1024 in
/-- The octets "hi" are produced and consumed. -/
theorem produced_isConsumed_example :
    ∃ data ckData, samplePackets (ascii "hi") = .ok (data, ckData) ∧
      Consumed mockPlatform data ckData (ascii "hi") ready := by
  obtain ⟨data, ckData, hpackets, hne, hpayload, hkey, hname⟩ : ∃ data ckData,
      samplePackets (ascii "hi") = .ok (data, ckData) ∧ ckData ≠ [] ∧
      payload data = .ok (⟨default, MockAbe.enclose [4] (ascii "hi") ++ [0], 2⟩,
        contentKeyName ckData) ∧
      encryptedKey ckData = .ok (MockAbe.enclose (ascii "x") [4] ++ [0]) ∧
      (contentKeyName ckData).Requestable :=
    ⟨_, _, rfl, nofun, rfl, rfl, by decide⟩
  have hfit : Terminated data ckData := terminated_of_reads hpayload hkey
  exact ⟨data, ckData, hpackets, (produced_isConsumed_iff mockPlatform mockAbe_lawful
    (.sample (ascii "p") [7]) (by decide) (ascii "hi") data ckData
    (.policy rfl _ _ _ _ _ hpackets) hne hfit (.sample (ascii "c") [9]) (.sample (ascii "a") [8])
    ParamFetcher.defaultInterestTemplate ⟨ready, []⟩ reaches_ready (readyFor_ready hkey)).mpr
    ⟨by decide, served_ready hname⟩⟩

/-- Of a content of 2^32 octets nothing is encrypted. -/
theorem samplePackets_of_wrap (h : content.length = 2 ^ 32) :
    samplePackets content = samplePackets [] := by
  have hwrap : toUint32 content.length = 0 := by rw [h]; rfl
  have hencrypt : ∀ key seed, AbeSupport.encrypt mockAbe key content seed =
      AbeSupport.encrypt mockAbe key [] seed := by
    intro key seed
    simp only [AbeSupport.encrypt, hwrap, List.take_zero]
    rfl
  simp only [samplePackets, Producer.producePolicy, Producer.produceFrom, Producer.produceWithKey,
    hencrypt]

set_option maxRecDepth 1024 in
/-- Any content of that length is produced and is not consumed, by a consumer that can get at
the content key. -/
theorem notConsumed_of_wrap (hlength : content.length = 2 ^ 32) :
    ∃ data ckData, Produces mockAbe (.sample (ascii "p") [7]) content (data, ckData) ∧
      ckData ≠ [] ∧ Terminated data ckData ∧ ReadyFor mockPlatform ckData ready ∧
      Served mockPlatform ckData ready ∧ ¬ Consumed mockPlatform data ckData content ready := by
  obtain ⟨data, ckData, hpackets, hne, hpayload, hkey, hname⟩ : ∃ data ckData,
      samplePackets [] = .ok (data, ckData) ∧ ckData ≠ [] ∧
      payload data = .ok (⟨default, MockAbe.enclose [4] [] ++ [0], 0⟩, contentKeyName ckData) ∧
      encryptedKey ckData = .ok (MockAbe.enclose (ascii "x") [4] ++ [0]) ∧
      (contentKeyName ckData).Requestable :=
    ⟨_, _, rfl, nofun, rfl, rfl, by decide⟩
  rw [← samplePackets_of_wrap hlength] at hpackets
  have hproduced : Produces mockAbe (.sample (ascii "p") [7]) content (data, ckData) :=
    .policy rfl _ _ _ _ _ hpackets
  have hfit : Terminated data ckData := terminated_of_reads hpayload hkey
  have hfresh : fresh.AbeSound mockPlatform := AbeSupport.sound_initial mockAbe
  have hempty : System.Good flightContract [] fresh := flight_initial _ _ _
  have hflight : Flight ready := (flight_of_reaches mockPlatform hempty reaches_ready).inv
  obtain ⟨key, encrypted, cipher, hmade⟩ := made_of_produces hproduced hne
  refine ⟨data, ckData, hproduced, hne, hfit, readyFor_ready hkey, served_ready hname, ?_⟩
  intro hconsumed
  have hsmall := ((consumed_iff_of_made mockAbe_lawful hmade (by decide) hfit
    (sound_of_reaches hfresh reaches_ready) hflight (readyFor_ready hkey)).mp hconsumed).1
  omega

/-- 2^32 octets of zero are produced and are not consumed. -/
theorem produced_notConsumed_at_wrap :
    ∃ data ckData, Produces mockAbe (.sample (ascii "p") [7]) (List.replicate (2 ^ 32) 0)
        (data, ckData) ∧
      ckData ≠ [] ∧ Terminated data ckData ∧ ReadyFor mockPlatform ckData ready ∧
      Served mockPlatform ckData ready ∧
      ¬ Consumed mockPlatform data ckData (List.replicate (2 ^ 32) 0) ready :=
  notConsumed_of_wrap List.length_replicate

end NacAbe.Analysis
