import NacAbe.Interface.ConsumerReadiness
import NacAbe.Interface.DecryptedKeys

/-!
# Strings made from received buffers

`fromBuffer` of the public parameters and of a private key, and `decrypt` twice, make a
string from the start of a received buffer and leave its length to the terminator
(public-params.cpp:36-40, private-key.cpp:36-40, abe-support.cpp:252 and 275).  The senders
append one, the receivers do not look for it: a buffer without a terminator is read past its
end.  Only the empty buffer, whose start is null, is refused before anything is read.

The buffers that a handler converts are listed for each path from a packet to a string
(`ParamFetcher.scans`, `Consumer.keyScans`, `AbeSupport.scans`); that the lists are complete is
said by what the handlers do with two memories that agree on them.
-/

set_option autoImplicit false

namespace NacAbe

/-- The number of octets that are read to make a string: its characters and what ends them. -/
def scanLength (mem : Memory) (buffer : Bytes) : ℕ :=
  match stringFrom mem buffer with
  | .error _ => 0
  | .ok s => s.length + 1

/-- Only octets of the buffer are read. -/
def ReadWithin (mem : Memory) (buffer : Bytes) : Prop := scanLength mem buffer ≤ buffer.length

/-- **A buffer is read within exactly when it is empty or holds a terminator.** -/
theorem readWithin_iff (mem : Memory) (buffer : Bytes) :
    ReadWithin mem buffer ↔ buffer = [] ∨ (0 : UInt8) ∈ buffer := by
  by_cases hempty : buffer = []
  · subst hempty
    exact iff_of_true (Nat.le_refl 0) (Or.inl rfl)
  unfold ReadWithin scanLength
  rw [stringFrom_of_ne_nil mem hempty]
  dsimp only
  by_cases h : (0 : UInt8) ∈ buffer
  · have hle : (buffer.takeWhile (· ≠ 0)).length ≤ buffer.length :=
      (List.takeWhile_prefix _).length_le
    have hne : (buffer.takeWhile (· ≠ 0)).length ≠ buffer.length := fun heq =>
      length_takeWhile_eq_iff.mp heq h
    rw [cString_of_mem mem h]
    exact iff_of_true (by omega) (Or.inr h)
  · rw [cString_of_notMem mem h, List.length_append]
    exact iff_of_false (by omega) (not_or.mpr ⟨hempty, h⟩)

/-- The memories give the same strings for some buffers. -/
def AgreeOn (mem mem' : Memory) (buffers : List Bytes) : Prop :=
  ∀ buffer ∈ buffers, stringFrom mem buffer = stringFrom mem' buffer

/-- What is read within does not depend on what lies behind. -/
theorem agreeOn_of_readWithin {mem : Memory} {buffers : List Bytes}
    (h : ∀ buffer ∈ buffers, ReadWithin mem buffer) (mem' : Memory) :
    AgreeOn mem mem' buffers := by
  intro buffer hbuffer
  rcases (readWithin_iff mem buffer).mp (h buffer hbuffer) with rfl | hmem
  · rfl
  · have hne : buffer ≠ [] := List.ne_nil_of_mem hmem
    rw [stringFrom_of_ne_nil mem hne, stringFrom_of_ne_nil mem' hne, cString_of_mem mem hmem,
      cString_of_mem mem' hmem]

/-! ## Public parameters -/

namespace ParamFetcher

/-- The buffers that `onAttributePubParams` makes strings from. -/
def scans (fetcher : ParamFetcher) (pubParamData : Data) (validationError : Option String) :
    List Bytes :=
  match validationError with
  | some _ => []
  | none =>
    match fetcher.typeComponent pubParamData with
    | none => []
    | some component => if Supported component.value then [pubParamData.content] else []

/-- The fetcher stays within the content exactly when a content that it takes is terminated. -/
theorem scans_readWithin_iff {mem : Memory} {fetcher : ParamFetcher} {pubParamData : Data}
    {validationError : Option String} :
    (∀ buffer ∈ fetcher.scans pubParamData validationError, ReadWithin mem buffer) ↔
      (fetcher.Takes pubParamData validationError → (0 : UInt8) ∈ pubParamData.content) := by
  unfold scans Takes
  cases validationError with
  | some info => simp
  | none =>
    cases fetcher.typeComponent pubParamData with
    | none => simp
    | some component =>
      by_cases h : Supported component.value
      · simp [h, readWithin_iff, or_iff_not_imp_left]
      · simp [h]

/-- No other octets matter to the handler. -/
theorem onAttributePubParams_congr {mem mem' : Memory} {fetcher : ParamFetcher}
    {pubParamData : Data} {validationError : Option String}
    (h : AgreeOn mem mem' (fetcher.scans pubParamData validationError)) :
    (onAttributePubParams mem pubParamData validationError).exec fetcher =
      (onAttributePubParams mem' pubParamData validationError).exec fetcher := by
  rw [exec_onAttributePubParams, exec_onAttributePubParams]
  cases validationError with
  | some info => rfl
  | none =>
    cases hc : fetcher.typeComponent pubParamData with
    | none => simp only [received, hc]
    | some component =>
      by_cases hs : Supported component.value
      · have hscan : pubParamData.content ∈ fetcher.scans pubParamData none := by
          simp only [scans, hc, if_pos hs, List.mem_singleton]
        have hcontent : stringFrom mem pubParamData.content =
            stringFrom mem' pubParamData.content := h _ hscan
        simp only [received, hc, if_pos hs, PublicParams.fromBuffer, hcontent]
      · simp only [received, hc, if_neg hs]

end ParamFetcher

/-! ## Decryption keys -/

namespace Consumer

/-- What `onKeyComplete` decrypts. -/
def keyPayload (crypto : Crypto) (c : Consumer) (contentBuffer : Bytes) : Except Exn Bytes := do
  decryptDataContentTpm crypto (← Block.ofBuffer contentBuffer) c.m_cert.getName

/-- The buffers that `onKeyComplete` makes strings from. -/
def keyScans (crypto : Crypto) (c : Consumer) (contentBuffer : Bytes) : List Bytes :=
  match c.keyPayload crypto contentBuffer with
  | .error _ => []
  | .ok payload => [payload]

theorem mem_keyScans_iff {crypto : Crypto} {c : Consumer} {contentBuffer buffer : Bytes} :
    buffer ∈ c.keyScans crypto contentBuffer ↔ c.keyPayload crypto contentBuffer = .ok buffer := by
  unfold keyScans
  cases c.keyPayload crypto contentBuffer with
  | error e => simp
  | ok payload => simp [eq_comm]

/-- How `onKeyComplete` ends and what it leaves. -/
theorem exec_onKeyComplete (p : Platform) (interestName : Name) (contentBuffer : Bytes)
    (c : Consumer) :
    (onKeyComplete p interestName contentBuffer).exec c =
      match c.keyPayload p.crypto contentBuffer with
      | .error e => (.error e, { c with keyFetches := c.keyFetches.erase interestName })
      | .ok payload =>
        match PrivateKey.fromBuffer p.mem payload with
        | .error e => (.error e, { c with keyFetches := c.keyFetches.erase interestName })
        | .ok prvKey => (.ok (), { c with
            keyFetches := c.keyFetches.erase interestName
            m_keyCache := prvKey }) := by
  have hwp : (onKeyComplete p interestName contentBuffer).wp (Prog.silent _ _ _)
      (fun r t => (r, t) = match c.keyPayload p.crypto contentBuffer with
        | .error e => (.error e, { c with keyFetches := c.keyFetches.erase interestName })
        | .ok payload =>
          match PrivateKey.fromBuffer p.mem payload with
          | .error e => (.error e, { c with keyFetches := c.keyFetches.erase interestName })
          | .ok prvKey => (.ok (), { c with
              keyFetches := c.keyFetches.erase interestName
              m_keyCache := prvKey })) c := by
    simp only [onKeyComplete, keyPayload, Prog.wp_bind, Prog.wp_modify, Prog.andThen_ok,
      Prog.wp_liftM]
    cases Block.ofBuffer contentBuffer with
    | error e => rfl
    | ok block =>
      simp only [Prog.andThen_ok, Prog.wp_bind, Prog.wp_get, Prog.wp_liftM]
      have hbind : (Except.ok block >>= fun b =>
          decryptDataContentTpm p.crypto b c.m_cert.getName) =
          decryptDataContentTpm p.crypto block c.m_cert.getName := rfl
      rw [hbind]
      cases decryptDataContentTpm p.crypto block c.m_cert.getName with
      | error e => rfl
      | ok payload =>
        simp only [Prog.andThen_ok, Prog.wp_bind, Prog.wp_liftM]
        cases PrivateKey.fromBuffer p.mem payload with
        | error e => rfl
        | ok prvKey => rfl
  exact (Prog.wp_silent_iff _ (fun r t => (r, t) = _) c).mp hwp

/-- The key handler depends on the memory behind that buffer only. -/
theorem onKeyComplete_congr {p : Platform} {mem' : Memory} {c : Consumer} {interestName : Name}
    {contentBuffer : Bytes} (h : AgreeOn p.mem mem' (c.keyScans p.crypto contentBuffer)) :
    (onKeyComplete p interestName contentBuffer).exec c =
      (onKeyComplete { p with mem := mem' } interestName contentBuffer).exec c := by
  rw [exec_onKeyComplete, exec_onKeyComplete]
  cases hpayload : c.keyPayload p.crypto contentBuffer with
  | error e => rfl
  | ok payload =>
    have hstring : stringFrom p.mem payload = stringFrom mem' payload :=
      h payload (mem_keyScans_iff.mpr hpayload)
    simp only [PrivateKey.fromBuffer, hstring]

end Consumer

/-! ## Cipher texts -/

namespace AbeSupport

variable {abe : OpenAbe} {mem mem' : Memory} {context : Scheme} {pubParams : PublicParams}
  {prvKey : PrivateKey} {cipherText : CipherText} {st : AbeSupport}

/-- The buffers that `decrypt` makes strings from.  Without a content key it throws before it
comes to the content. -/
def scans (abe : OpenAbe) (mem : Memory) (context : Scheme) (pubParams : PublicParams)
    (prvKey : PrivateKey) (cipherText : CipherText) (st : AbeSupport) : List Bytes :=
  cipherText.m_contentKey.m_encAesKey ::
    match stringFrom mem cipherText.m_contentKey.m_encAesKey >>=
      st.keyFor abe context pubParams prvKey with
    | .ok _ => [cipherText.m_content]
    | .error _ => []

/-- A decryption depends on the memory behind the buffers it scans only. -/
theorem decrypt_congr
    (h : AgreeOn mem mem' (st.scans abe mem context pubParams prvKey cipherText)) :
    (decrypt abe mem context pubParams prvKey cipherText).run.run st =
      (decrypt abe mem' context pubParams prvKey cipherText).run.run st := by
  have hkey : stringFrom mem cipherText.m_contentKey.m_encAesKey =
      stringFrom mem' cipherText.m_contentKey.m_encAesKey := h _ List.mem_cons_self
  have hcontent : ∀ key, stringFrom mem cipherText.m_contentKey.m_encAesKey >>=
      st.keyFor abe context pubParams prvKey = .ok key →
      decryptContent abe mem key cipherText.m_content =
        decryptContent abe mem' key cipherText.m_content := by
    intro key hfound
    have hscan : cipherText.m_content ∈ st.scans abe mem context pubParams prvKey cipherText := by
      rw [scans, hfound]
      exact List.mem_cons_of_mem _ (List.mem_singleton_self _)
    rw [decryptContent, decryptContent, h _ hscan]
  rw [decrypt_run, decrypt_run, ← hkey]
  cases hstring : stringFrom mem cipherText.m_contentKey.m_encAesKey with
  | error e => rfl
  | ok encrypted =>
    dsimp only
    rw [hstring, ok_bind] at hcontent
    unfold keyFor at hcontent
    split
    · next key hfind =>
      rw [hfind] at hcontent
      rw [hcontent key rfl]
    · next hfind =>
      rw [hfind] at hcontent
      split
      · rfl
      · next key hdecrypt => rw [hcontent key hdecrypt]

/-- `decrypt` stays within its buffers exactly when each is empty or terminated, the second one
only if the first names a key it finds. -/
theorem scans_readWithin_iff :
    (∀ buffer ∈ st.scans abe mem context pubParams prvKey cipherText, ReadWithin mem buffer) ↔
      (cipherText.m_contentKey.m_encAesKey = [] ∨
        (0 : UInt8) ∈ cipherText.m_contentKey.m_encAesKey ∧
        ∀ key, st.keyFor abe context pubParams prvKey
          (cipherText.m_contentKey.m_encAesKey.takeWhile (· ≠ 0)) = .ok key →
          cipherText.m_content = [] ∨ (0 : UInt8) ∈ cipherText.m_content) := by
  unfold scans
  rw [List.forall_mem_cons, readWithin_iff, or_and_right]
  by_cases hempty : cipherText.m_contentKey.m_encAesKey = []
  · rw [hempty, stringFrom_nil]
    exact iff_of_true (Or.inl ⟨rfl, List.forall_mem_nil _⟩) (Or.inl rfl)
  · refine or_congr (iff_of_false (fun h => hempty h.1) hempty) (and_congr_right fun hkey => ?_)
    rw [stringFrom_of_ne_nil mem hempty, cString_of_mem mem hkey, ok_bind]
    cases st.keyFor abe context pubParams prvKey
        (cipherText.m_contentKey.m_encAesKey.takeWhile (· ≠ 0)) with
    | error e => simp
    | ok key => simp [readWithin_iff]

end AbeSupport

/-! ## The four conversions -/

namespace Analysis

/-- **Received buffers are read within exactly when they are empty or terminated.**  For the
content of a PUBPARAMS packet that is taken, for the decrypted payload of a DKEY object, and for
the encrypted key and content of a cipher text; what is rejected first is not read.  Where they
are read within, the handlers do the same whatever lies behind the buffers. -/
theorem buffers_readWithin_iff (p : Platform) :
    (∀ (fetcher : ParamFetcher) (pubParamData : Data) (validationError : Option String),
      ((∀ buffer ∈ fetcher.scans pubParamData validationError, ReadWithin p.mem buffer) ↔
        (fetcher.Takes pubParamData validationError → (0 : UInt8) ∈ pubParamData.content)) ∧
      ((∀ buffer ∈ fetcher.scans pubParamData validationError, ReadWithin p.mem buffer) →
        ∀ mem',
          (ParamFetcher.onAttributePubParams p.mem pubParamData validationError).exec fetcher =
            (ParamFetcher.onAttributePubParams mem' pubParamData validationError).exec fetcher)) ∧
    (∀ (c : Consumer) (contentBuffer : Bytes),
      ((∀ buffer ∈ c.keyScans p.crypto contentBuffer, ReadWithin p.mem buffer) ↔
        ∀ payload, c.keyPayload p.crypto contentBuffer = .ok payload →
          payload = [] ∨ (0 : UInt8) ∈ payload) ∧
      ((∀ buffer ∈ c.keyScans p.crypto contentBuffer, ReadWithin p.mem buffer) →
        ∀ mem' interestName, (Consumer.onKeyComplete p interestName contentBuffer).exec c =
          (Consumer.onKeyComplete { p with mem := mem' } interestName contentBuffer).exec c)) ∧
    ∀ (st : AbeSupport) (context : Scheme) (pubParams : PublicParams) (prvKey : PrivateKey)
      (cipherText : CipherText),
      ((∀ buffer ∈ st.scans p.abe p.mem context pubParams prvKey cipherText,
          ReadWithin p.mem buffer) ↔
        (cipherText.m_contentKey.m_encAesKey = [] ∨
          (0 : UInt8) ∈ cipherText.m_contentKey.m_encAesKey ∧
          ∀ key, st.keyFor p.abe context pubParams prvKey
            (cipherText.m_contentKey.m_encAesKey.takeWhile (· ≠ 0)) = .ok key →
            cipherText.m_content = [] ∨ (0 : UInt8) ∈ cipherText.m_content)) ∧
      ((∀ buffer ∈ st.scans p.abe p.mem context pubParams prvKey cipherText,
          ReadWithin p.mem buffer) →
        ∀ mem', (AbeSupport.decrypt p.abe p.mem context pubParams prvKey cipherText).run.run st =
          (AbeSupport.decrypt p.abe mem' context pubParams prvKey cipherText).run.run st) := by
  refine ⟨fun fetcher pubParamData validationError =>
      ⟨ParamFetcher.scans_readWithin_iff, fun h mem' => ?_⟩,
    fun c contentBuffer => ⟨?_, fun h mem' interestName => ?_⟩,
    fun st context pubParams prvKey cipherText =>
      ⟨AbeSupport.scans_readWithin_iff, fun h mem' => ?_⟩⟩
  · exact ParamFetcher.onAttributePubParams_congr (agreeOn_of_readWithin h mem')
  · simp only [Consumer.mem_keyScans_iff, readWithin_iff]
  · exact Consumer.onKeyComplete_congr (agreeOn_of_readWithin h mem')
  · exact AbeSupport.decrypt_congr (agreeOn_of_readWithin h mem')

/-- Parameters that arrive without their terminator are read behind it. -/
theorem unterminatedParams_readBehind :
    ¬ ∀ buffer ∈ Consumer.fresh.m_paramFetcher.scans
        { Consumer.pubParamsData with content := [1] } none,
      ReadWithin Consumer.mockPlatform.mem buffer := by
  intro h
  have hread := h [1] (List.mem_singleton_self _)
  rcases (readWithin_iff _ _).mp hread with hempty | hzero
  · cases hempty
  · exact absurd hzero (by decide)

end Analysis

end NacAbe
