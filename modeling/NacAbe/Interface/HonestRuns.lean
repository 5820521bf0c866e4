import Mathlib.Data.Set.Basic
import NacAbe.Interface.ConsumerReports
import NacAbe.Interface.DecryptedKeys
import NacAbe.Interface.ProducedPackets

/-!
# Runs of a consumer over produced packets

`Supply` says what reaches a consumer: the packets of calls of `produce`, and decryption
keys out of a set.  Everything else is left open: what the callbacks do, whether they are
set and whether they throw, which fetches fail, when keys and parameters arrive and in which
order anything happens.

`Honest` is what then holds of a consumer.  A task that waits belongs to a content that was
handed over for its call, a cached key is the one its producer made, a decrypted content key
was opened with one of the keys, and a plaintext that was reported is the plaintext that was
put in.
-/

set_option autoImplicit false

namespace NacAbe

/-- A call of `produce` and its packets, where the two strings of OpenABE were not cut. -/
structure Production (abe : OpenAbe) where
  cert : Certificate
  content : Bytes
  data : List Data
  ckData : List Data
  key : ContentKey
  encrypted : Bytes
  cipher : Bytes
  made : Made abe cert content data ckData key encrypted cipher
  typed : ∀ c ∈ cert.getName, 0 < c.type ∧ c.type < 2 ^ 32
  keyFits : encrypted.length + 1 < 2 ^ 32
  cipherFits : cipher.length + 1 < 2 ^ 32

namespace Production

variable {abe : OpenAbe}

def ckName (P : Production abe) : Name := contentKeyName P.ckData

/-- What the AES encryption was given: the content, cut to its length modulo 2^32. -/
def plaintext (P : Production abe) : Bytes := P.content.take (toUint32 P.content.length)

/-- The cipher text as a consumer reads it, without a content key. -/
def cipherText (P : Production abe) : CipherText :=
  ⟨default, cStrBuffer P.cipher, toUint32 P.content.length⟩

/-- The cipher text with the encrypted content key, as it is decrypted. -/
def sealedText (P : Production abe) : CipherText :=
  { P.cipherText with m_contentKey := ⟨[], P.key.m_encAesKey⟩ }

/-- OpenABE opens the encrypted content key with a private key, in some mode and with some
public parameters. -/
def OpenedBy (P : Production abe) (prvKey : PrivateKey) : Prop :=
  ∃ context pubParams aesKey,
    AbeSupport.decryptKey abe context pubParams prvKey P.encrypted = .ok aesKey

/-- Content shorter than 2^32 octets is not cut. -/
theorem plaintext_eq (P : Production abe) (h : P.content.length < 2 ^ 32) :
    P.plaintext = P.content := by
  rw [plaintext, toUint32_of_lt h, List.take_length]

/-- A consumer finds the content block in the data packets. -/
theorem parseContent_data (P : Production abe) :
    ∃ dataBlock, Block.ofBuffer (reassemble P.data) = .ok dataBlock ∧
      Consumer.parseContent dataBlock = .ok (P.cipherText, P.ckName) :=
  bind_eq_ok.mp (P.made.payload_eq P.typed)

theorem normalizeCkKey_ckName (P : Production abe) :
    Consumer.normalizeCkKey P.ckName = P.ckName := P.made.normalizeCkKey_eq

/-- A consumer finds the encrypted content key in the CK packets. -/
theorem carriesKey (P : Production abe) :
    Consumer.CarriesKey (reassemble P.ckData) P.key.m_encAesKey := by
  obtain ⟨ckBlock, hblock, h⟩ := bind_eq_ok.mp P.made.encryptedKey_eq
  obtain ⟨encTLV, hget, h⟩ := bind_eq_ok.mp h
  exact ⟨ckBlock, encTLV, hblock, hget, Except.ok.inj h⟩

theorem ckData_ne_nil (P : Production abe) : P.ckData ≠ [] := by
  obtain ⟨word, encryptBy, maxSegmentSize, hsegments⟩ := P.made.segments
  exact segment_ne_nil hsegments

/-- The encrypted key can be told from its packets. -/
theorem encrypted_eq (P : Production abe) {encrypted : Bytes}
    (hkey : NacAbe.encryptedKey P.ckData = .ok (cStrBuffer encrypted))
    (hnul : (0 : UInt8) ∉ encrypted) : encrypted = P.encrypted := by
  rw [P.made.encryptedKey_eq, P.made.buffer, cStrBuffer_of_lt P.keyFits] at hkey
  have hbuffer : cStrBuffer encrypted = P.encrypted ++ [0] := (Except.ok.inj hkey).symm
  have hfits : encrypted.length + 1 < 2 ^ 32 := by
    apply length_lt_of_mem_cStrBuffer hnul
    rw [hbuffer]
    exact List.mem_append_right _ (List.mem_singleton_self 0)
  rw [cStrBuffer_of_lt hfits] at hbuffer
  exact List.append_cancel_right hbuffer

/-- `decrypt` looks the encrypted content key up under the string that OpenABE made. -/
theorem stringFrom_encAesKey (P : Production abe) (hlaw : abe.Lawful) (mem : Memory) :
    stringFrom mem P.key.m_encAesKey = .ok P.encrypted := by
  obtain ⟨scheme, pub, policyOrAttribute, seed, hencrypt⟩ := P.made.encrypt
  rw [P.made.buffer, stringFrom_cStrBuffer mem (hlaw.encrypt_no_nul hencrypt) P.keyFits]

/-- AES decryption under the content key gives the plaintext. -/
theorem decryptContent_eq (P : Production abe) (hlaw : abe.Lawful) (mem : Memory) :
    AbeSupport.decryptContent abe mem P.key.m_aesKey (cStrBuffer P.cipher) = .ok P.plaintext := by
  obtain ⟨seed, hcipher⟩ := P.made.symEncrypt
  have hstring : stringFrom mem (cStrBuffer P.cipher) = .ok P.cipher :=
    stringFrom_cStrBuffer mem (hlaw.symEncrypt_no_nul hcipher) P.cipherFits
  have hshort : P.plaintext.length < 2 ^ 32 := by
    have hmod : toUint32 P.content.length < 2 ^ 32 := Nat.mod_lt _ (by decide)
    rw [plaintext, List.length_take]
    omega
  have hplain : abe.symDecrypt P.key.m_aesKey P.cipher = some P.plaintext :=
    hlaw.symDecrypt_symEncrypt hcipher
  rw [AbeSupport.decryptContent, hstring, ok_bind, hplain]
  dsimp only
  rw [toUint32_of_lt hshort, List.take_length]

end Production

/-! ## The keys of the singleton -/

namespace AbeSupport

/-- Every entry of the map was decrypted with one of the keys. -/
def SoundWith (abe : OpenAbe) (keys : Set PrivateKey) (st : AbeSupport) : Prop :=
  ∀ encrypted key, st.m_decryptedContentKeyMap.find encrypted = some key →
    ∃ prvKey ∈ keys, ∃ context pubParams,
      decryptKey abe context pubParams prvKey encrypted = .ok key

variable {abe : OpenAbe} {mem : Memory} {keys : Set PrivateKey} {st : AbeSupport}

theorem soundWith_initial (abe : OpenAbe) (keys : Set PrivateKey) :
    SoundWith abe keys initial := by
  intro encrypted key hfind
  cases hfind

/-- A decryption with one of the keys may be cached. -/
theorem SoundWith.decrypt (h : SoundWith abe keys st) (context : Scheme)
    (pubParams : PublicParams) {prvKey : PrivateKey} (hkey : prvKey ∈ keys)
    (cipherText : CipherText) :
    SoundWith abe keys ((decrypt abe mem context pubParams prvKey cipherText).run.run st).2 := by
  rw [decrypt_run]
  split
  · exact h
  · split
    · exact h
    · split
      · exact h
      · next key hdecrypt =>
        intro encrypted key' hfind
        simp only [PartialMap.find_assign] at hfind
        split at hfind
        · next heq =>
          cases hfind
          exact ⟨prvKey, hkey, context, pubParams, heq ▸ hdecrypt⟩
        · exact h encrypted key' hfind

theorem SoundWith.next (h : SoundWith abe keys st) {call : Call}
    (hcall : ∀ context pubParams prvKey cipherText,
      call = .decrypt context pubParams prvKey cipherText → prvKey ∈ keys) :
    SoundWith abe keys (Call.next abe mem st call) := by
  cases call with
  | decrypt context pubParams prvKey cipherText =>
    exact h.decrypt context pubParams (hcall _ _ _ _ rfl) cipherText
  | clearCachedContentKeys => exact soundWith_initial abe keys

/-- **A decryption of produced content** that succeeds gives the plaintext, and one of the keys
opens the content key. -/
theorem SoundWith.plaintext_of_decrypt (h : SoundWith abe keys st) (hlaw : abe.Lawful)
    (P : Production abe) {context : Scheme} {pubParams : PublicParams} {prvKey : PrivateKey}
    (hkey : prvKey ∈ keys) {plain : Bytes}
    (hdecrypt : ((AbeSupport.decrypt abe mem context pubParams prvKey P.sealedText).run.run st).1 =
      .ok plain) : plain = P.plaintext ∧ ∃ prvKey ∈ keys, P.OpenedBy prvKey := by
  have hstring : stringFrom mem P.sealedText.m_contentKey.m_encAesKey = .ok P.encrypted :=
    P.stringFrom_encAesKey hlaw mem
  rw [decrypt_result, hstring, ok_bind] at hdecrypt
  obtain ⟨aesKey, hfound, hcontent⟩ := bind_eq_ok.mp hdecrypt
  -- The content key comes out of the map or is decrypted now.
  obtain ⟨prvKey', hkey', context', pubParams', hopened⟩ : ∃ prvKey' ∈ keys,
      ∃ context pubParams, decryptKey abe context pubParams prvKey' P.encrypted = .ok aesKey := by
    unfold keyFor at hfound
    split at hfound
    · next hfind =>
      cases hfound
      exact h _ _ hfind
    · exact ⟨prvKey, hkey, context, pubParams, hfound⟩
  have haes : aesKey = P.key.m_aesKey := eq_of_decryptKey hlaw P.made.encrypt hopened
  subst haes
  have hplain : Except.ok P.plaintext = Except.ok plain :=
    (P.decryptContent_eq hlaw mem).symm.trans hcontent
  exact ⟨(Except.ok.inj hplain).symm, prvKey', hkey', context', pubParams', _, hopened⟩

end AbeSupport

/-! ## The supply -/

/-- What reaches a consumer with a certificate: what has been produced, which production the
content of a call of `consume` belongs to, and the private keys. -/
structure Supply (p : Platform) where
  cert : Certificate
  produced : Set (Production p.abe)
  handed : ℕ → Production p.abe → Prop
  keys : Set PrivateKey
  produced_of_handed : ∀ {id P}, handed id P → P ∈ produced
  /-- The packets under one CK name hold one encrypted key. -/
  oneKey : ∀ {P P'}, P ∈ produced → P' ∈ produced → P.ckName = P'.ckName →
    P.key.m_encAesKey = P'.key.m_encAesKey

namespace Supply

open Consumer

variable {p : Platform} (x : Supply p)

/-- A plaintext that is reported to a call is that of the call's production, and one of the keys
opens it. -/
def Right (id : ℕ) (plain : Bytes) : Prop :=
  ∃ P, x.handed id P ∧ plain = P.plaintext ∧ ∃ prvKey ∈ x.keys, P.OpenedBy prvKey

/-- The invariant of a consumer that gets this. -/
structure Honest (c : Consumer) : Prop where
  cert_eq : c.m_cert = x.cert
  pending : ∀ ckKey tasks, c.m_pendingCallbacks.find ckKey = some tasks → ∀ task ∈ tasks,
    ∃ P, x.handed task.callbacks.id P ∧ P.ckName = ckKey ∧ task.cipher = P.cipherText
  marked : ∀ ckKey ∈ c.m_ckInterestsSent, ∃ P ∈ x.produced, P.ckName = ckKey
  cached : ∀ ckKey encAesKey, c.m_ckEncAesCache.find ckKey = some encAesKey →
    ∀ P ∈ x.produced, P.ckName = ckKey → P.key.m_encAesKey = encAesKey
  opened : c.abeSupport.SoundWith p.abe x.keys
  key : c.m_keyCache ∈ x.keys
  reported : ∀ id plain, .success id plain ∈ c.invoked → x.Right id plain

/-- Nothing is queued under a name whose key is cached, and the key stays. -/
def Steady (s t : Consumer) : Prop :=
  ∀ ckKey, (s.m_ckEncAesCache.find ckKey).isSome = true →
    (t.m_ckEncAesCache.find ckKey).isSome = true ∧
      t.m_pendingCallbacks.find ckKey = s.m_pendingCallbacks.find ckKey

theorem Steady.refl (s : Consumer) : Steady s s := fun _ h => ⟨h, rfl⟩

theorem Steady.trans {s t u : Consumer} (h : Steady s t) (h' : Steady t u) : Steady s u := by
  intro ckKey hcached
  obtain ⟨hcached', hpending⟩ := h ckKey hcached
  obtain ⟨hcached'', hpending'⟩ := h' ckKey hcached'
  exact ⟨hcached'', hpending'.trans hpending⟩

/-- Callbacks end as they like. -/
def contract : Contract Consumer Exn Invocation where
  inv := x.Honest
  idle := x.Honest
  rely := Steady
  ends _ _ := True
  inv_of_idle h := h
  refl := Steady.refl
  trans := Steady.trans
  idle_of_rely _ _ h := h

/-- What may happen: content, content keys and decryption keys come from the supply, also
where another user of the singleton decrypts. -/
def Allowed (c : Consumer) : System.Act Exn Entry Event → Prop
  | .enter (.consumeBlock dataBlock _ _) =>
    ∃ P, x.handed c.nextCall P ∧ Block.ofBuffer (reassemble P.data) = .ok dataBlock
  | .enter (.abeCall (.decrypt _ _ prvKey _)) => prvKey ∈ x.keys
  | .event (.ckComplete ckKey contentBuffer) =>
    ∃ P ∈ x.produced, P.ckName = ckKey ∧ contentBuffer = reassemble P.ckData
  | .event (.dataComplete fetch contentBuffer) =>
    ∃ P, x.handed fetch.2.id P ∧ contentBuffer = reassemble P.data
  | .event (.keyComplete _ contentBuffer) => ∀ block prvBlock prvKey,
    Block.ofBuffer contentBuffer = .ok block →
    decryptDataContentTpm p.crypto block x.cert.getName = .ok prvBlock →
    PrivateKey.fromBuffer p.mem prvBlock = .ok prvKey → prvKey ∈ x.keys
  | _ => True

/-- More has been produced and handed over, and more keys are known. -/
structure Extends (x y : Supply p) : Prop where
  cert_eq : y.cert = x.cert
  produced : x.produced ⊆ y.produced
  handed : ∀ id P, x.handed id P → y.handed id P
  keys : x.keys ⊆ y.keys

variable {x} {c t : Consumer} {callbacks : Callbacks} {P : Production p.abe}

/-- A larger supply allows more. -/
theorem Allowed.extend {y : Supply p} (hxy : x.Extends y) {a : System.Act Exn Entry Event}
    (h : x.Allowed c a) : y.Allowed c a := by
  cases a with
  | enter entry =>
    cases entry with
    | consumeBlock dataBlock hasSuccess hasError =>
      obtain ⟨P, hP, hblock⟩ := h
      exact ⟨P, hxy.handed _ P hP, hblock⟩
    | consumeInterest dataInterest hasSuccess hasError => trivial
    | consumeName dataName hasSuccess hasError => trivial
    | setDefaultTimeout defaultTimeout => trivial
    | obtainDecryptionKey => trivial
    | abeCall call =>
      cases call with
      | decrypt context pubParams prvKey cipherText => exact hxy.keys h
      | clearCachedContentKeys => trivial
  | resume o => trivial
  | event event =>
    cases event with
    | ckComplete ckKey contentBuffer =>
      obtain ⟨P, hP, hrest⟩ := h
      exact ⟨P, hxy.produced hP, hrest⟩
    | dataComplete fetch contentBuffer =>
      obtain ⟨P, hP, hbuffer⟩ := h
      exact ⟨P, hxy.handed _ P hP, hbuffer⟩
    | keyComplete interestName contentBuffer =>
      intro block prvBlock prvKey hblock hprv hkey
      rw [hxy.cert_eq] at hprv
      exact hxy.keys (h block prvBlock prvKey hblock hprv hkey)
    | _ => trivial

/-! ## One report -/

/-- What the invariant speaks of. -/
def core (c : Consumer) : Certificate × PartialMap Name (List PendingTask) × Finset Name ×
    PartialMap Name Bytes × AbeSupport × PrivateKey × List Invocation :=
  (c.m_cert, c.m_pendingCallbacks, c.m_ckInterestsSent, c.m_ckEncAesCache, c.abeSupport,
    c.m_keyCache, c.invoked)

/-- Anything else may change. -/
theorem Honest.of_core (h : x.Honest c) (hcore : core t = core c) : x.Honest t := by
  simp only [core, Prod.mk.injEq] at hcore
  obtain ⟨hcert, hpending, hmarks, hcache, habe, hkey, hinvoked⟩ := hcore
  refine ⟨hcert.trans h.cert_eq, ?_, ?_, ?_, ?_, ?_, ?_⟩
  · rw [hpending]
    exact h.pending
  · rw [hmarks]
    exact h.marked
  · rw [hcache]
    exact h.cached
  · rw [habe]
    exact h.opened
  · rw [hkey]
    exact h.key
  · rw [hinvoked]
    exact h.reported

theorem Honest.tell (h : x.Honest c) {invocation : Invocation}
    (htold : ∀ id plain, invocation = .success id plain → x.Right id plain) :
    x.Honest { c with invoked := c.invoked ++ [invocation] } := by
  refine ⟨h.cert_eq, h.pending, h.marked, h.cached, h.opened, h.key, ?_⟩
  intro id plain hmem
  rcases List.mem_append.mp hmem with hold | hnew
  · exact h.reported id plain hold
  · exact htold id plain (List.mem_singleton.mp hnew).symm

theorem guarantees_invokeError (h : x.Honest c) (callbacks : Callbacks) (what : String) :
    Prog.Guarantees x.contract (invokeError callbacks what) c := by
  unfold invokeError
  split
  · refine .modify_bind (Steady.refl _) (.callOut (h.tell ?_) _)
    rintro id plain ⟨⟩
  · exact .throw h _

theorem guarantees_invokeSuccess (h : x.Honest c) (callbacks : Callbacks) {plain : Bytes}
    (hright : x.Right callbacks.id plain) :
    Prog.Guarantees x.contract (invokeSuccess callbacks plain) c := by
  unfold invokeSuccess
  split
  · refine .modify_bind (Steady.refl _) (.callOut (h.tell ?_) _)
    rintro id plain ⟨⟩
    exact hright
  · exact .throw h _

theorem guarantees_reportException (h : x.Honest c) (callbacks : Callbacks) (e : Exn) :
    Prog.Guarantees x.contract (reportException callbacks e) c := by
  unfold reportException
  split
  · exact guarantees_invokeError h _ _
  · exact .throw h _

/-- A report inside the try block, and the `catch` where it throws. -/
theorem wp_report_caught {p' : ConsumerM Unit} (h : Prog.Guarantees x.contract p' t)
    (hsteady : Steady c t) : p'.wp x.contract
      (Prog.orElse x.contract (reportException callbacks)
        fun _ u => x.Honest u ∧ Steady c u) t := by
  refine Prog.wp_mono (fun r u hu => ?_) h
  have hcu : Steady c u := hsteady.trans hu.2
  cases r with
  | ok _ => exact ⟨hu.1, hcu⟩
  | error e => exact (guarantees_reportException hu.1 callbacks e).mono hcu

/-- What a consumer makes of produced content is right. -/
theorem Honest.decryption (h : x.Honest c) (hlaw : p.abe.Lawful) (hP : x.handed callbacks.id P) :
    (Consumer.decryption p P.sealedText c).2.SoundWith p.abe x.keys ∧
      ∀ plain, (Consumer.decryption p P.sealedText c).1 = .ok plain →
        x.Right callbacks.id plain := by
  have hright : ∀ context plain, described ((AbeSupport.decrypt p.abe p.mem context
      c.m_paramFetcher.m_pubParamsCache c.m_keyCache P.sealedText).run.run c.abeSupport).1 =
        .ok plain → x.Right callbacks.id plain := by
    intro context plain hplain
    have hdecrypt : ((AbeSupport.decrypt p.abe p.mem context c.m_paramFetcher.m_pubParamsCache
        c.m_keyCache P.sealedText).run.run c.abeSupport).1 = .ok plain := by
      revert hplain
      cases ((AbeSupport.decrypt p.abe p.mem context c.m_paramFetcher.m_pubParamsCache
        c.m_keyCache P.sealedText).run.run c.abeSupport).1 with
      | error e => rintro ⟨⟩
      | ok result => rintro ⟨⟩; rfl
    obtain ⟨hplain', hopened⟩ := h.opened.plaintext_of_decrypt hlaw P h.key hdecrypt
    exact ⟨P, hP, hplain', hopened⟩
  unfold Consumer.decryption
  dsimp only
  split_ifs
  · exact ⟨h.opened.decrypt _ _ h.key _, hright .cpAbe⟩
  · exact ⟨h.opened.decrypt _ _ h.key _, hright .kpAbe⟩
  · refine ⟨h.opened, ?_⟩
    rintro plain ⟨⟩

/-- **A report of produced content is right**, however its callback ends. -/
theorem guarantees_decryptAndReport (h : x.Honest c) (hlaw : p.abe.Lawful)
    (hP : x.handed callbacks.id P) :
    Prog.Guarantees x.contract (decryptAndReport p P.sealedText callbacks) c := by
  obtain ⟨hopened, hright⟩ := h.decryption hlaw hP
  have hnext : x.Honest { c with abeSupport := (Consumer.decryption p P.sealedText c).2 } :=
    ⟨h.cert_eq, h.pending, h.marked, h.cached, hopened, h.key, h.reported⟩
  have hsteady : Steady c { c with abeSupport := (Consumer.decryption p P.sealedText c).2 } :=
    Steady.refl c
  refine wp_decryptAndReport_of_report rfl ?_ ?_
  · intro plain hplain
    exact wp_report_caught (guarantees_invokeSuccess hnext callbacks (hright plain hplain)) hsteady
  · intro what _
    have herror := guarantees_invokeError hnext callbacks what
    exact ⟨herror.mono hsteady, wp_report_caught herror hsteady⟩

/-! ## The application -/

/-- A task may wait for the content key of what its call was handed. -/
theorem Honest.queue (h : x.Honest c) (hP : x.handed callbacks.id P) :
    x.Honest (Consumer.queue P.ckName ⟨P.cipherText, callbacks⟩ c) := by
  refine ⟨h.cert_eq, ?_, h.marked, h.cached, h.opened, h.key, h.reported⟩
  intro ckKey tasks hfind task htask
  simp only [Consumer.queue, PartialMap.find_assign] at hfind
  split at hfind
  · next heq =>
    cases hfind
    rcases List.mem_append.mp htask with hold | hnew
    · cases htasks : c.m_pendingCallbacks.find P.ckName with
      | none =>
        rw [htasks] at hold
        cases hold
      | some tasks =>
        rw [htasks] at hold
        obtain ⟨P', hP', hname, hcipher⟩ := h.pending _ tasks htasks task hold
        exact ⟨P', hP', hname.trans heq.symm, hcipher⟩
    · rw [List.mem_singleton.mp hnew]
      exact ⟨P, hP, heq.symm, rfl⟩
  · exact h.pending ckKey tasks hfind task htask

/-- The content key of what is handed over is asked for. -/
theorem Honest.mark (h : x.Honest c) (hP : P ∈ x.produced) :
    x.Honest { c with m_ckInterestsSent := insert P.ckName c.m_ckInterestsSent } := by
  refine ⟨h.cert_eq, h.pending, ?_, h.cached, h.opened, h.key, h.reported⟩
  intro ckKey hmark
  rcases Finset.mem_insert.mp hmark with rfl | hold
  · exact ⟨P, hP, rfl⟩
  · exact h.marked ckKey hold

/-- Something is queued under a name whose key is not cached. -/
theorem steady_of_uncached {ckKey : Name} (hnone : c.m_ckEncAesCache.find ckKey = none)
    (hcache : t.m_ckEncAesCache = c.m_ckEncAesCache)
    (hpending : ∀ k, k ≠ ckKey → t.m_pendingCallbacks.find k = c.m_pendingCallbacks.find k) :
    Steady c t := by
  intro k hk
  rw [hcache]
  refine ⟨hk, hpending k ?_⟩
  rintro rfl
  rw [hnone] at hk
  cases hk

theorem find_queue_of_ne {ckKey k : Name} (hk : k ≠ ckKey) (task : PendingTask) (c : Consumer) :
    (Consumer.queue ckKey task c).m_pendingCallbacks.find k = c.m_pendingCallbacks.find k := by
  simp only [Consumer.queue, PartialMap.find_assign, if_neg hk]

/-- **A call of `consume` whose content is handed over.** -/
theorem guarantees_decryptContent (h : x.Honest c) (hlaw : p.abe.Lawful)
    (hP : x.handed callbacks.id P) {dataBlock : Block}
    (hblock : Block.ofBuffer (reassemble P.data) = .ok dataBlock) :
    Prog.Guarantees x.contract (decryptContent p dataBlock callbacks) c := by
  obtain ⟨dataBlock', hblock', hparse⟩ := P.parseContent_data
  rw [hblock] at hblock'
  cases hblock'
  have haccept : x.Honest (accept callbacks.id c) := h.of_core rfl
  simp only [Prog.Guarantees, decryptContent, Prog.wp_bind, Prog.wp_liftM, hparse,
    Prog.andThen_ok, Prog.wp_modify, Prog.wp_get, P.normalizeCkKey_ckName]
  cases hcache : c.m_ckEncAesCache.find P.ckName with
  | some encAesKey =>
    rw [← h.cached _ _ hcache P (x.produced_of_handed hP) rfl]
    exact guarantees_decryptAndReport haccept hlaw hP
  | none =>
    dsimp only
    split
    · exact ⟨haccept.queue hP, steady_of_uncached hcache rfl fun k hk => find_queue_of_ne hk _ _⟩
    · have hmarked : x.Honest { accept callbacks.id c with
          m_ckInterestsSent := insert P.ckName c.m_ckInterestsSent } :=
        haccept.mark (x.produced_of_handed hP)
      -- Marked and queued, whether or not the Interest can be made.
      have hsteady : ∀ t : Consumer, core t = core (taken P.ckName ⟨P.cipherText, callbacks⟩ c) →
          x.Honest t ∧ Steady c t := by
        intro t hcore
        simp only [core, Prod.mk.injEq] at hcore
        exact ⟨(hmarked.queue hP).of_core (by simp only [core, hcore]; rfl),
          steady_of_uncached hcache hcore.2.2.2.1 fun k hk => by
            rw [hcore.2.1]
            exact find_queue_of_ne hk _ _⟩
      simp only [Prog.wp_bind, Prog.wp_modify, Prog.andThen_ok, Prog.wp_get, Prog.wp_liftM]
      change Prog.andThen x.contract _ _
        ((taken P.ckName ⟨P.cipherText, callbacks⟩ c).timedInterest P.ckName) _
      cases (taken P.ckName ⟨P.cipherText, callbacks⟩ c).timedInterest P.ckName with
      | error e => exact hsteady _ rfl
      | ok ckInterest => exact hsteady _ rfl

theorem guarantees_refuse (h : x.Honest c) (callbacks : Callbacks) (what : String) :
    Prog.Guarantees x.contract (refuse callbacks what) c := by
  have haccept : x.Honest (accept callbacks.id c) := h.of_core rfl
  exact .modify_bind (Steady.refl _) (guarantees_invokeError haccept _ _)

theorem guarantees_consumeInterest (h : x.Honest c) (dataInterest : Name)
    (hasSuccess hasError : Bool) :
    Prog.Guarantees x.contract (consumeInterest dataInterest hasSuccess hasError) c := by
  have hentered : x.Honest { c with nextCall := c.nextCall + 1 } := h.of_core rfl
  simp only [Prog.Guarantees, consumeInterest, enterCall, Prog.wp_bind, Prog.wp_get,
    Prog.wp_set, Prog.wp_pure, Prog.andThen_ok]
  split
  · exact ⟨h.of_core rfl, Steady.refl _⟩
  · exact guarantees_refuse hentered _ _

/-- **An operation of the application.** -/
theorem guarantees_entry (h : x.Honest c) (hlaw : p.abe.Lawful) {entry : Entry}
    (hallowed : x.Allowed c (.enter entry)) :
    Prog.Guarantees x.contract (entry.program p) c := by
  have hentered : x.Honest { c with nextCall := c.nextCall + 1 } := h.of_core rfl
  cases entry with
  | consumeBlock dataBlock hasSuccess hasError =>
    obtain ⟨P, hP, hblock⟩ := hallowed
    simp only [Prog.Guarantees, Entry.program, consumeBlock, enterCall, Prog.wp_bind, Prog.wp_get,
      Prog.wp_set, Prog.wp_pure, Prog.andThen_ok]
    split
    · have hcall : Prog.Guarantees x.contract
          (decryptContent p dataBlock ⟨c.nextCall, hasSuccess, hasError⟩)
          { c with nextCall := c.nextCall + 1 } :=
        guarantees_decryptContent hentered hlaw hP hblock
      exact hcall
    · exact guarantees_refuse hentered _ _
  | consumeInterest dataInterest hasSuccess hasError =>
    exact guarantees_consumeInterest h dataInterest hasSuccess hasError
  | consumeName dataName hasSuccess hasError =>
    simp only [Prog.Guarantees, Entry.program, consumeName, Prog.wp_bind, Prog.wp_get,
      Prog.wp_liftM, Prog.andThen_ok]
    cases c.timedInterest dataName with
    | error e => exact ⟨h, Steady.refl _⟩
    | ok interest => exact guarantees_consumeInterest h interest.name hasSuccess hasError
  | setDefaultTimeout defaultTimeout => exact ⟨h.of_core rfl, Steady.refl _⟩
  | obtainDecryptionKey =>
    simp only [Prog.Guarantees, Entry.program, obtainDecryptionKey, Prog.wp_bind, Prog.wp_get,
      Prog.wp_liftM, Prog.andThen_ok]
    cases extractKeyNameFromCertName c.m_cert.getName with
    | error e => exact ⟨h, Steady.refl _⟩
    | ok keyName =>
      simp only [Prog.andThen_ok, Prog.wp_bind, Prog.wp_liftM]
      cases Interest.ofName (decryptionKeyName c.m_attrAuthorityPrefix keyName) with
      | error e => exact ⟨h, Steady.refl _⟩
      | ok interest => exact ⟨h.of_core rfl, Steady.refl _⟩
  | abeCall call =>
    refine ⟨⟨h.cert_eq, h.pending, h.marked, h.cached, h.opened.next ?_, h.key, h.reported⟩,
      Steady.refl _⟩
    rintro context pubParams prvKey cipherText rfl
    exact hallowed

/-! ## The event loop -/

theorem Honest.erasePending (h : x.Honest c) (ckKey : Name) :
    x.Honest (Consumer.erasePending ckKey c) := by
  refine ⟨h.cert_eq, ?_, h.marked, h.cached, h.opened, h.key, h.reported⟩
  intro k tasks hfind
  simp only [Consumer.erasePending, PartialMap.find_erase] at hfind
  split at hfind
  · cases hfind
  · exact h.pending k tasks hfind

theorem Honest.eraseSent (h : x.Honest c) (ckKey : Name) :
    x.Honest (Consumer.eraseSent ckKey c) :=
  ⟨h.cert_eq, h.pending, fun k hmark => h.marked k (Finset.mem_of_mem_erase hmark), h.cached,
    h.opened, h.key, h.reported⟩

/-- The key that a fetch brings is the key of everything under its name. -/
theorem Honest.fetched (h : x.Honest c) (hP : P ∈ x.produced) :
    x.Honest (Consumer.fetched P.ckName P.key.m_encAesKey c) := by
  refine ⟨h.cert_eq, h.pending, h.marked, ?_, h.opened, h.key, h.reported⟩
  intro ckKey encAesKey hfind P' hP' hname
  simp only [Consumer.fetched, PartialMap.find_assign] at hfind
  split at hfind
  · next heq =>
    cases hfind
    exact x.oneKey hP' hP (hname.trans heq)
  · exact h.cached ckKey encAesKey hfind P' hP' hname

/-- Before a round of the loop over the waiting tasks: they wait, and their key is cached. -/
structure Telling (x : Supply p) (ckKey : Name) (tasks : List PendingTask) (t : Consumer) :
    Prop where
  honest : x.Honest t
  pending : t.m_pendingCallbacks.find ckKey = some tasks
  cached : (t.m_ckEncAesCache.find ckKey).isSome = true

theorem Telling.steady {ckKey : Name} {tasks : List PendingTask} {u : Consumer}
    (ht : Telling x ckKey tasks t) (hu : x.Honest u) (h : Steady t u) :
    Telling x ckKey tasks u := by
  obtain ⟨hcached, hpending⟩ := h ckKey ht.cached
  exact ⟨hu, hpending.trans ht.pending, hcached⟩

/-- **A fetch of a content key completes**, and its key stays cached. -/
theorem wp_onCkComplete (h : x.Honest c) (hlaw : p.abe.Lawful) (hP : P ∈ x.produced) :
    (onCkComplete p P.ckName (reassemble P.ckData)).wp x.contract
      (fun _ t => x.Honest t ∧ (t.m_ckEncAesCache.find P.ckName).isSome = true) c := by
  have hfetched := h.fetched hP
  have hcached : ((Consumer.fetched P.ckName P.key.m_encAesKey c).m_ckEncAesCache.find
      P.ckName).isSome = true := by simp [Consumer.fetched]
  cases hfind : c.m_pendingCallbacks.find P.ckName with
  | none =>
    obtain ⟨ckBlock, encrypted, hblock, hget, hvalue⟩ := P.carriesKey
    simp only [onCkComplete, fillCache, broadcast, hblock, hget, hvalue, endCkFetch, hfind,
      Prog.wp_bind, Prog.wp_modify, Prog.wp_liftM, Prog.wp_tryCatch, Prog.orElse_ok,
      Prog.andThen_ok, Prog.wp_get]
    exact ⟨hfetched.eraseSent P.ckName, hcached⟩
  | some tasks =>
    refine wp_onCkComplete_of_rounds P.carriesKey (fun _ t => Telling x P.ckName tasks t)
      (fun ht => ht.pending) ?_ ?_ ⟨hfetched, hfind, hcached⟩
    · intro task rest t hsuffix ht
      obtain ⟨P', hP', hname, hcipher⟩ := ht.honest.pending _ _ ht.pending task
        (hsuffix.subset List.mem_cons_self)
      have hsealed : { task.cipher with m_contentKey := ⟨[], P.key.m_encAesKey⟩ } =
          P'.sealedText := by
        rw [hcipher, x.oneKey hP (x.produced_of_handed hP') hname.symm]
        rfl
      rw [hsealed]
      refine Prog.wp_mono (fun r u hu => ?_) (guarantees_decryptAndReport ht.honest hlaw hP')
      have hu' := ht.steady hu.1 hu.2
      cases r with
      | ok _ => exact hu'
      | error e => exact ⟨hu.1, hu'.cached⟩
    · intro t ht
      exact ⟨(ht.honest.erasePending _).eraseSent _, ht.cached⟩

theorem guarantees_tellError (h : x.Honest c) (errorMsg : String) (task : PendingTask) :
    Prog.Guarantees x.contract (tellError errorMsg task) c := by
  unfold tellError
  split
  · exact guarantees_invokeError h _ _
  · exact .pure h _

/-- **A fetch of a content key fails.**  Whatever the loop goes over, it only reports errors. -/
theorem wp_onCkError (h : x.Honest c) (ckKey : Name) (errorMsg : String) :
    (onCkError p ckKey errorMsg).wp x.contract (fun _ t => x.Honest t) c := by
  have hended : x.Honest (endCkFetch ckKey c) := h.of_core rfl
  simp only [onCkError, broadcast, Prog.wp_bind, Prog.wp_modify, Prog.andThen_ok, Prog.wp_get]
  cases (endCkFetch ckKey c).m_pendingCallbacks.find ckKey with
  | none => exact hended.eraseSent ckKey
  | some tasks =>
    simp only [Prog.wp_bind]
    refine Prog.wp_walk_of_inv (J := x.Honest) ?_ ?_ hended
    · intro task t ht
      refine Prog.wp_mono (fun r u hu => ?_) (guarantees_tellError ht errorMsg task)
      cases r with
      | ok _ => exact hu.1
      | error e => exact hu.1
    · intro t ht
      exact (ht.erasePending ckKey).eraseSent ckKey

/-- **A handler of the event loop.** -/
theorem wp_event (h : x.Honest c) (hlaw : p.abe.Lawful) {event : Event}
    (hallowed : x.Allowed c (.event event)) :
    (event.program p).wp x.contract (fun _ t => x.Honest t) c := by
  cases event with
  | ckComplete ckKey contentBuffer =>
    obtain ⟨P, hP, rfl, rfl⟩ := hallowed
    exact Prog.wp_mono (fun _ _ ht => ht.1) (wp_onCkComplete h hlaw hP)
  | ckError ckKey errorMsg => exact wp_onCkError h ckKey errorMsg
  | dataComplete fetch contentBuffer =>
    obtain ⟨P, hP, rfl⟩ := hallowed
    obtain ⟨dataBlock, hblock, -⟩ := P.parseContent_data
    simp only [Event.program, onDataComplete, hblock, Prog.wp_bind, Prog.wp_modify,
      Prog.andThen_ok, Prog.wp_liftM]
    refine Prog.wp_mono (fun _ t ht => ht.1) (guarantees_decryptContent ?_ hlaw hP hblock)
    exact h.of_core rfl
  | dataError fetch errorMsg =>
    simp only [Event.program, onDataError, Prog.wp_bind, Prog.wp_modify, Prog.andThen_ok]
    refine Prog.wp_mono (fun _ t ht => ht.1) (guarantees_refuse ?_ _ _)
    exact h.of_core rfl
  | keyComplete interestName contentBuffer =>
    simp only [Event.program, onKeyComplete, Prog.wp_bind, Prog.wp_modify, Prog.andThen_ok,
      Prog.wp_liftM]
    cases hblock : Block.ofBuffer contentBuffer with
    | error e => exact h.of_core rfl
    | ok block =>
      simp only [Prog.andThen_ok, Prog.wp_bind, Prog.wp_get, Prog.wp_liftM]
      cases hprv : decryptDataContentTpm p.crypto block c.m_cert.getName with
      | error e => exact h.of_core rfl
      | ok prvBlock =>
        rw [h.cert_eq] at hprv
        simp only [Prog.andThen_ok, Prog.wp_bind, Prog.wp_liftM]
        cases hkey : PrivateKey.fromBuffer p.mem prvBlock with
        | error e => exact h.of_core rfl
        | ok prvKey =>
          exact ⟨h.cert_eq, h.pending, h.marked, h.cached, h.opened,
            hallowed block prvBlock prvKey hblock hprv hkey, h.reported⟩
  | keyError interestName => exact h.of_core rfl
  | publicParams pubParamData validationError => exact h.of_core rfl

/-- **Consumers stay honest** in every run over their supply. -/
theorem honest_of_reaches (hlaw : p.abe.Lawful) {d : System.Config Consumer Exn Invocation}
    (hc : x.Honest c)
    (h : (Consumer.system p).Reaches (fun d a => x.Allowed d.st a) ⟨c, []⟩ d) :
    x.Honest d.st := by
  have hstart : System.Good x.contract [] c := hc
  refine (System.good_of_reaches ?_ ?_ (fun _ _ _ _ _ _ => trivial) hstart h).inv
  · intro e entry hallowed he
    exact guarantees_entry he hlaw hallowed
  · intro e event hallowed _ he
    exact wp_event he hlaw hallowed

theorem honest_initial (identityCert attrAuthorityCertificate : Certificate) (template : Interest)
    (hcert : identityCert = x.cert) (hkey : ⟨[]⟩ ∈ x.keys) :
    x.Honest (Consumer.initial identityCert attrAuthorityCertificate template) where
  cert_eq := hcert
  pending := by
    intro ckKey tasks hfind
    cases hfind
  marked := by
    intro ckKey hmark
    exact absurd hmark (Finset.notMem_empty ckKey)
  cached := by
    intro ckKey encAesKey hfind
    cases hfind
  opened := AbeSupport.soundWith_initial p.abe x.keys
  key := hkey
  reported := by
    intro id plain hmem
    cases hmem

end Supply

end NacAbe
