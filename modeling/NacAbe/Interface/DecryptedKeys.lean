import NacAbe.Program.Consumer

/-!
# The content keys that `ABESupport` has decrypted

Whatever a consumer, its callbacks and other users of the singleton do, the map of
decrypted content keys holds nothing but results of OpenABE (`sound_of_reaches`).  With
a lawful OpenABE an entry for an encrypted key is then the key that was encrypted.
-/

set_option autoImplicit false

namespace NacAbe

namespace AbeSupport

/-- Every entry of the map is what some decryption of its key returned. -/
def Sound (abe : OpenAbe) (st : AbeSupport) : Prop :=
  ∀ encrypted key, st.m_decryptedContentKeyMap.find encrypted = some key →
    ∃ context pubParams prvKey, decryptKey abe context pubParams prvKey encrypted = .ok key

variable {abe : OpenAbe} {mem : Memory} {st : AbeSupport}

theorem sound_initial (abe : OpenAbe) : Sound abe initial := nofun

/-- A decryption keeps what is cached sound: it caches what the scheme computed. -/
theorem Sound.decrypt (h : Sound abe st) (context : Scheme) (pubParams : PublicParams)
    (prvKey : PrivateKey) (cipherText : CipherText) :
    Sound abe ((decrypt abe mem context pubParams prvKey cipherText).run.run st).2 := by
  rw [decrypt_run]
  split
  · exact h
  · split
    · exact h
    · split
      · exact h
      · next key hkey =>
        intro encrypted key' hfind
        simp only [PartialMap.find_assign] at hfind
        split at hfind
        · next heq =>
          cases hfind
          exact ⟨context, pubParams, prvKey, heq ▸ hkey⟩
        · exact h encrypted key' hfind

theorem Sound.next (h : Sound abe st) (call : Call) : Sound abe (Call.next abe mem st call) := by
  cases call with
  | decrypt context pubParams prvKey cipherText =>
    exact h.decrypt context pubParams prvKey cipherText
  | clearCachedContentKeys => exact sound_initial abe

/-- What a successful decryption of a key returns is the key that was encrypted. -/
theorem eq_of_decryptKey (hlaw : abe.Lawful) {context : Scheme} {pubParams : PublicParams}
    {prvKey : PrivateKey} {encrypted key key' : Bytes}
    (hencrypt : ∃ scheme pub policyOrAttribute seed,
      abe.encrypt scheme pub policyOrAttribute key seed = some encrypted)
    (h : decryptKey abe context pubParams prvKey encrypted = .ok key') : key' = key := by
  obtain ⟨scheme, pub, policyOrAttribute, seed, henc⟩ := hencrypt
  unfold decryptKey at h
  split_ifs at h
  split at h
  · cases h
  · cases h
  · next aesKey hdecrypt =>
    cases h
    exact hlaw.decrypt_encrypt henc hdecrypt

/-- The content key that `decrypt` finds for an encrypted one, in the map or by decrypting. -/
def keyFor (abe : OpenAbe) (context : Scheme) (pubParams : PublicParams) (prvKey : PrivateKey)
    (st : AbeSupport) (encryptedSymmetricKey : Bytes) : Except Exn Bytes :=
  match st.m_decryptedContentKeyMap.find encryptedSymmetricKey with
  | some key => .ok key
  | none => decryptKey abe context pubParams prvKey encryptedSymmetricKey

/-- **What `decrypt` returns:** it finds the content key and decrypts the content with it. -/
theorem decrypt_result (context : Scheme) (pubParams : PublicParams) (prvKey : PrivateKey)
    (cipherText : CipherText) :
    ((decrypt abe mem context pubParams prvKey cipherText).run.run st).1 = (do
      let encrypted ← stringFrom mem cipherText.m_contentKey.m_encAesKey
      let key ← st.keyFor abe context pubParams prvKey encrypted
      decryptContent abe mem key cipherText.m_content) := by
  rw [decrypt_run]
  cases stringFrom mem cipherText.m_contentKey.m_encAesKey with
  | error e => rfl
  | ok encrypted =>
    rw [ok_bind, keyFor]
    dsimp only
    cases st.m_decryptedContentKeyMap.find encrypted with
    | some key => rfl
    | none =>
      dsimp only
      cases decryptKey abe context pubParams prvKey encrypted with
      | error e => rfl
      | ok key => rfl

/-- What a sound singleton finds for an encrypted key is the key that was encrypted. -/
theorem Sound.eq_of_keyFor (hsound : st.Sound abe) (hlaw : abe.Lawful) {context : Scheme}
    {pubParams : PublicParams} {prvKey : PrivateKey} {encrypted key key' : Bytes}
    (hencrypt : ∃ scheme pub policyOrAttribute seed,
      abe.encrypt scheme pub policyOrAttribute key seed = some encrypted)
    (h : st.keyFor abe context pubParams prvKey encrypted = .ok key') : key' = key := by
  unfold keyFor at h
  split at h
  · next hfind =>
    cases h
    obtain ⟨context', pubParams', prvKey', hdecrypt⟩ := hsound encrypted _ hfind
    exact eq_of_decryptKey hlaw hencrypt hdecrypt
  · exact eq_of_decryptKey hlaw hencrypt h

variable (st) in
/-- A key that a decryption gives is found. -/
theorem exists_keyFor {context : Scheme} {pubParams : PublicParams} {prvKey : PrivateKey}
    {encrypted key : Bytes} (h : decryptKey abe context pubParams prvKey encrypted = .ok key) :
    ∃ key', st.keyFor abe context pubParams prvKey encrypted = .ok key' := by
  unfold keyFor
  split
  · exact ⟨_, rfl⟩
  · exact ⟨key, h⟩

end AbeSupport

namespace Consumer

/-- The consumer's view of the singleton. -/
def AbeSound (p : Platform) (c : Consumer) : Prop := c.abeSupport.Sound p.abe

/-- The singleton, the parameters and whom the consumer is and asks are the same. -/
structure SameBase (c t : Consumer) : Prop where
  abeSupport_eq : t.abeSupport = c.abeSupport
  fetcher_eq : t.m_paramFetcher = c.m_paramFetcher
  cert_eq : t.m_cert = c.m_cert
  prefix_eq : t.m_attrAuthorityPrefix = c.m_attrAuthorityPrefix

/-- Of these alone, and of the singleton whatever is called. -/
structure Indifferent (p : Platform) (P : Consumer → Prop) : Prop where
  congr : ∀ {c t : Consumer}, SameBase c t → P c → P t
  next : ∀ (c : Consumer) (call : AbeSupport.Call), P c →
    P { c with abeSupport := call.next p.abe p.mem c.abeSupport }

variable {p : Platform} {P : Consumer → Prop}

theorem indifferent_abeSound (p : Platform) : Indifferent p (AbeSound p) where
  congr hbase hc := by
    rw [AbeSound, hbase.abeSupport_eq]
    exact hc
  next _ call hc := AbeSupport.Sound.next hc call

theorem indifferent_paramFetcher (p : Platform) (fetcher : ParamFetcher) :
    Indifferent p (·.m_paramFetcher = fetcher) where
  congr hbase hc := hbase.fetcher_eq.trans hc
  next _ _ hc := hc

theorem indifferent_names (p : Platform) (cert : Certificate) (aaPrefix : Name) :
    Indifferent p fun c => c.m_cert = cert ∧ c.m_attrAuthorityPrefix = aaPrefix where
  congr hbase hc := ⟨hbase.cert_eq.trans hc.1, hbase.prefix_eq.trans hc.2⟩
  next _ _ hc := hc

section

variable (hP : Indifferent p P)

include hP

/-- A change that leaves them alone. -/
theorem keeps_modify {f : Consumer → Consumer} (hf : ∀ c, SameBase c (f c)) :
    (modify f : ConsumerM PUnit).Keeps P :=
  .modify fun c hc => hP.congr (hf c) hc

/-- Such a change, followed by `q`. -/
theorem keeps_modify_bind {α : Type} {f : Consumer → Consumer}
    {q : PUnit → ConsumerM α} (hf : ∀ c, SameBase c (f c))
    (hq : (q ⟨⟩).Keeps P) : (modify f >>= q : ConsumerM α).Keeps P :=
  .bind (keeps_modify hP hf) fun _ => hq

theorem keeps_invokeSuccess (callbacks : Callbacks) (result : Bytes) :
    (invokeSuccess callbacks result).Keeps P := by
  unfold invokeSuccess
  split
  · exact keeps_modify_bind hP (fun _ => ⟨rfl, rfl, rfl, rfl⟩) (.callOut _)
  · exact .throw _

theorem keeps_invokeError (callbacks : Callbacks) (what : String) :
    (invokeError callbacks what).Keeps P := by
  unfold invokeError
  split
  · exact keeps_modify_bind hP (fun _ => ⟨rfl, rfl, rfl, rfl⟩) (.callOut _)
  · exact .throw _

/-- The one place where a consumer changes the singleton. -/
theorem keeps_callAbe (context : Scheme) (pubParams : PublicParams) (prvKey : PrivateKey)
    (cipherText : CipherText) :
    (callAbe (AbeSupport.decrypt p.abe p.mem context pubParams prvKey cipherText)).Keeps P := by
  unfold callAbe
  refine .get_bind fun c hc => .bind (.set ?_) fun _ => .liftM _
  exact hP.next c (.decrypt context pubParams prvKey cipherText) hc

theorem keeps_decryptAndReport (cipherText : CipherText) (callbacks : Callbacks) :
    (decryptAndReport p cipherText callbacks).Keeps P := by
  unfold decryptAndReport
  refine .tryCatch (.get_bind fun c _ => ?_) fun e => ?_
  · dsimp only
    split
    · exact .bind (keeps_callAbe hP _ _ _ _) fun _ => keeps_invokeSuccess hP _ _
    · split
      · exact .bind (keeps_callAbe hP _ _ _ _) fun _ => keeps_invokeSuccess hP _ _
      · exact keeps_invokeError hP _ _
  · split
    · exact keeps_invokeError hP _ _
    · exact .throw _

/-- A call on content. -/
theorem keeps_decryptContent (content : Block) (callbacks : Callbacks) :
    (decryptContent p content callbacks).Keeps P := by
  unfold decryptContent
  refine .bind (.liftM _) fun parsed => ?_
  refine keeps_modify_bind hP (fun _ => ⟨rfl, rfl, rfl, rfl⟩) (.get_bind fun c _ => ?_)
  split
  · exact keeps_decryptAndReport hP _ _
  · split
    · exact keeps_modify hP fun _ => ⟨rfl, rfl, rfl, rfl⟩
    · refine keeps_modify_bind hP (fun _ => ⟨rfl, rfl, rfl, rfl⟩) ?_
      refine keeps_modify_bind hP (fun _ => ⟨rfl, rfl, rfl, rfl⟩) (.get_bind fun c _ => ?_)
      exact .bind (.liftM _) fun _ => keeps_modify hP fun _ => ⟨rfl, rfl, rfl, rfl⟩

theorem keeps_refuse (callbacks : Callbacks) (what : String) :
    (refuse callbacks what).Keeps P := by
  unfold refuse
  exact keeps_modify_bind hP (fun _ => ⟨rfl, rfl, rfl, rfl⟩) (keeps_invokeError hP _ _)

theorem keeps_enterCall (hasSuccess hasError : Bool) :
    (enterCall hasSuccess hasError).Keeps P := by
  unfold enterCall
  refine .get_bind fun c hc => .bind (.set ?_) fun _ => ?_
  · exact hP.congr (c := c) ⟨rfl, rfl, rfl, rfl⟩ hc
  · exact .pure _

theorem keeps_broadcast {tell : PendingTask → ConsumerM Unit}
    (htell : ∀ task, (tell task).Keeps P) (ckKey : Name) :
    (broadcast p ckKey tell).Keeps P := by
  unfold broadcast
  refine .get_bind fun c _ => ?_
  split
  · refine .bind (.walk htell _ _ _) fun _ => ?_
    exact keeps_modify_bind hP (fun _ => ⟨rfl, rfl, rfl, rfl⟩)
      (keeps_modify hP fun _ => ⟨rfl, rfl, rfl, rfl⟩)
  · exact keeps_modify hP fun _ => ⟨rfl, rfl, rfl, rfl⟩

theorem keeps_consumeInterest (dataInterest : Name) (hasSuccess hasError : Bool) :
    (consumeInterest dataInterest hasSuccess hasError).Keeps P := by
  unfold consumeInterest
  refine .bind (keeps_enterCall hP _ _) fun callbacks => .get_bind fun c _ => ?_
  split
  · exact keeps_modify hP fun _ => ⟨rfl, rfl, rfl, rfl⟩
  · exact keeps_refuse hP _ _

theorem keeps_entry (entry : Entry) : (entry.program p).Keeps P := by
  cases entry with
  | consumeBlock dataBlock hasSuccess hasError =>
    unfold Entry.program consumeBlock
    refine .bind (keeps_enterCall hP _ _) fun callbacks => .get_bind fun c _ => ?_
    split
    · exact keeps_decryptContent hP _ _
    · exact keeps_refuse hP _ _
  | consumeInterest dataInterest hasSuccess hasError => exact keeps_consumeInterest hP _ _ _
  | consumeName dataName hasSuccess hasError =>
    unfold Entry.program consumeName
    exact .get_bind fun c _ => .bind (.liftM _) fun _ => keeps_consumeInterest hP _ _ _
  | setDefaultTimeout defaultTimeout => exact keeps_modify hP fun _ => ⟨rfl, rfl, rfl, rfl⟩
  | obtainDecryptionKey =>
    unfold Entry.program obtainDecryptionKey
    refine .get_bind fun c _ => .bind (.liftM _) fun keyName => ?_
    exact .bind (.liftM _) fun _ => keeps_modify hP fun _ => ⟨rfl, rfl, rfl, rfl⟩
  | abeCall call =>
    exact .modify fun c hc => hP.next c call hc

/-- Only the arrival of parameters changes them. -/
theorem keeps_event (event : Event) : (event.program p).Keeps P ∨
    ∃ pubParamData validationError, event = .publicParams pubParamData validationError := by
  cases event with
  | ckComplete ckKey contentBuffer =>
    left
    unfold Event.program onCkComplete fillCache
    refine keeps_modify_bind hP (fun _ => ⟨rfl, rfl, rfl, rfl⟩)
      (.bind (.liftM _) fun ckBlock => .bind ?_ fun _ => ?_)
    · refine .tryCatch (.bind (.liftM _) fun encTLV => ?_) fun e => ?_
      · exact keeps_modify hP fun _ => ⟨rfl, rfl, rfl, rfl⟩
      · split
        · exact .pure _
        · exact .throw _
    · refine keeps_broadcast hP (fun task => ?_) ckKey
      unfold onCkeyData
      exact .bind (.liftM _) fun _ => keeps_decryptAndReport hP _ _
  | ckError ckKey errorMsg =>
    left
    unfold Event.program onCkError
    refine keeps_modify_bind hP (fun _ => ⟨rfl, rfl, rfl, rfl⟩)
      (keeps_broadcast hP (fun task => ?_) ckKey)
    unfold tellError
    split
    · exact keeps_invokeError hP _ _
    · exact .pure _
  | dataComplete fetch contentBuffer =>
    left
    unfold Event.program onDataComplete
    refine keeps_modify_bind hP (fun _ => ⟨rfl, rfl, rfl, rfl⟩) (.bind (.liftM _) fun content => ?_)
    exact keeps_decryptContent hP _ _
  | dataError fetch errorMsg =>
    left
    unfold Event.program onDataError
    exact keeps_modify_bind hP (fun _ => ⟨rfl, rfl, rfl, rfl⟩) (keeps_refuse hP _ _)
  | keyComplete interestName contentBuffer =>
    left
    unfold Event.program onKeyComplete
    refine keeps_modify_bind hP (fun _ => ⟨rfl, rfl, rfl, rfl⟩) (.bind (.liftM _) fun block => ?_)
    refine .get_bind fun c _ => .bind (.liftM _) fun prvBlock => ?_
    exact .bind (.liftM _) fun _ => keeps_modify hP fun _ => ⟨rfl, rfl, rfl, rfl⟩
  | keyError interestName => exact Or.inl (keeps_modify hP fun _ => ⟨rfl, rfl, rfl, rfl⟩)
  | publicParams pubParamData validationError => exact Or.inr ⟨_, _, rfl⟩

end

/-- **Whatever is done, the decrypted keys are results of OpenABE.** -/
theorem sound_of_reaches {ok : System.Config Consumer Exn Invocation →
      System.Act Exn Entry Event → Prop} {c : Consumer}
    {d : System.Config Consumer Exn Invocation} (hc : c.AbeSound p)
    (h : (system p).Reaches ok ⟨c, []⟩ d) : d.st.AbeSound p := by
  have hgood : System.Good (Prog.keeping Consumer Exn Invocation (AbeSound p)) [] c := hc
  have hevent : ∀ event : Event, (event.program p).Keeps (AbeSound p) := by
    intro event
    rcases keeps_event (indifferent_abeSound p) event with hkeeps | ⟨pubParamData, error, rfl⟩
    · exact hkeeps
    · exact .modify fun _ hc => hc
  exact (System.keeps_of_reaches (keeps_entry (indifferent_abeSound p)) hevent hgood h).inv

/-- A consumer keeps its certificate and its authority. -/
theorem names_of_reaches {ok : System.Config Consumer Exn Invocation →
      System.Act Exn Entry Event → Prop} {c : Consumer}
    {d : System.Config Consumer Exn Invocation} (h : (system p).Reaches ok ⟨c, []⟩ d) :
    d.st.m_cert = c.m_cert ∧ d.st.m_attrAuthorityPrefix = c.m_attrAuthorityPrefix := by
  have hnames := indifferent_names p c.m_cert c.m_attrAuthorityPrefix
  have hgood : System.Good (Prog.keeping Consumer Exn Invocation fun t =>
      t.m_cert = c.m_cert ∧ t.m_attrAuthorityPrefix = c.m_attrAuthorityPrefix) [] c := ⟨rfl, rfl⟩
  have hevent : ∀ event : Event, (event.program p).Keeps fun t =>
      t.m_cert = c.m_cert ∧ t.m_attrAuthorityPrefix = c.m_attrAuthorityPrefix := by
    intro event
    rcases keeps_event hnames event with hkeeps | ⟨pubParamData, error, rfl⟩
    · exact hkeeps
    · exact .modify fun _ hc => hc
  exact (System.keeps_of_reaches (keeps_entry hnames) hevent hgood h).inv

/-- The parameters that the consumer holds are the same whenever a callback returns. -/
theorem good_paramFetcher_of_reaches {ok : System.Config Consumer Exn Invocation →
      System.Act Exn Entry Event → Prop} {c : Consumer}
    {d : System.Config Consumer Exn Invocation} (h : (system p).Reaches ok ⟨c, []⟩ d) :
    System.Good (Prog.keeping Consumer Exn Invocation
      (·.m_paramFetcher = d.st.m_paramFetcher)) d.frames d.st := by
  refine System.good_view_of_reaches m_paramFetcher ?_ ?_ rfl h
  · exact fun entry f => keeps_entry (indifferent_paramFetcher p f) entry
  · intro event
    by_cases hparams : ∃ pubParamData error, event = .publicParams pubParamData error
    · obtain ⟨pubParamData, error, rfl⟩ := hparams
      exact Or.inr ⟨_, rfl⟩
    · exact Or.inl fun f => (keeps_event (indifferent_paramFetcher p f) event).resolve_right hparams

end Consumer

end NacAbe
