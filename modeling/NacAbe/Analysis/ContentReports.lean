import NacAbe.Interface.ConsumerReadiness
import NacAbe.Interface.ConsumerReports

/-!
# What becomes of malformed content

`decryptContent` takes four things out of a content block one after the other, none of
them in a try block (consumer.cpp:186-195), and the completion handler of a data fetch
builds the block outside of one (consumer.cpp:139); the error callback that both carry is
not used for any of these failures, while the cache fill of a content key fetch catches
exactly them (consumer.cpp:247-254).  Nor is the Interest for the content key made in one,
when the task is queued and its name marked already (consumer.cpp:231-232).  So content that
is not well-formed, or whose content key nobody can ask for, makes a `consume` vanish with an
exception, and only that (`content_isReported_iff`).
-/

set_option autoImplicit false

namespace NacAbe.Analysis

open NacAbe Consumer

/-- The CK name that the elements of a content block name. -/
def NamesCk (content : Block) (ckName : Name) : Prop :=
  ∃ elements nameTLV, Tlv.decodeAll content.value = some elements ∧
    elements.find? (fun e => e.type = tlvName) = some nameTLV ∧
    Tlv.decodeAll nameTLV.value = some ckName

/-- The block is a sequence of elements, the first EncryptedContent, PlainTextSize and Name
among them are there, the size has one of the four legal lengths and the name is a
sequence of components. -/
def WellFormedContent (content : Block) : Prop :=
  ∃ elements encryptedContentTLV plainTextSizeTLV nameTLV ckName,
    Tlv.decodeAll content.value = some elements ∧
    elements.find? (fun e => e.type = tlvEncryptedContent) = some encryptedContentTLV ∧
    elements.find? (fun e => e.type = tlvPlainTextSize) = some plainTextSizeTLV ∧
    Tlv.isNonNegative plainTextSizeTLV.value = true ∧
    elements.find? (fun e => e.type = tlvName) = some nameTLV ∧
    Tlv.decodeAll nameTLV.value = some ckName

/-- The octets are exactly one element, which is such a block. -/
def WellFormedBuffer (contentBuffer : Bytes) : Prop :=
  ∃ content, Tlv.decode contentBuffer = some content ∧ WellFormedContent content

/-- The containers of a consumer are as they were. -/
structure SameContainers (c t : Consumer) : Prop where
  sent : t.m_ckInterestsSent = c.m_ckInterestsSent
  pending : t.m_pendingCallbacks = c.m_pendingCallbacks
  cache : t.m_ckEncAesCache = c.m_ckEncAesCache

/-- What a `consume` of some content owes its caller: it returns; it has invoked exactly one
of its callbacks, or queued exactly one task under the CK name of the content and invoked
none; and for content that is not well-formed it has invoked the error callback and left
the containers alone. -/
structure Accounts (wellFormed : Prop) (namesCk : Name → Prop) (callbacks : Callbacks)
    (c : Consumer) (ended : Except Exn Unit × Consumer) : Prop where
  returns : ended.1 = .ok ()
  once : (∃ call, call.id = callbacks.id ∧ ended.2.invoked = c.invoked ++ [call] ∧
      ended.2.m_pendingCallbacks = c.m_pendingCallbacks) ∨
    ended.2.invoked = c.invoked ∧ ∃ ckName task, namesCk ckName ∧ task.callbacks = callbacks ∧
      ended.2.m_pendingCallbacks = (queue (normalizeCkKey ckName) task c).m_pendingCallbacks
  malformed : ¬ wellFormed → (∃ what, ended.2.invoked = c.invoked ++ [.error callbacks.id what]) ∧
    SameContainers c ended.2

variable {p : Platform} {c : Consumer} {content : Block} {callbacks : Callbacks}

/-! ## Parsing -/

theorem elements_eq_ok {b : Block} {es : List Block} :
    b.elements = .ok es ↔ Tlv.decodeAll b.value = some es := by
  unfold Block.elements
  cases Tlv.decodeAll b.value <;> simp

theorem firstOf_eq_ok {type : ℕ} {es : List Block} {e : Block} :
    Block.firstOf type es = .ok e ↔ es.find? (fun e => e.type = type) = some e := by
  unfold Block.firstOf
  cases es.find? (fun e => e.type = type) <;> simp

theorem readNonNegativeInteger_eq_ok {b : Block} {n : ℕ} :
    b.readNonNegativeInteger = .ok n ↔
      Tlv.isNonNegative b.value = true ∧ Tlv.beValue b.value = n := by
  unfold Block.readNonNegativeInteger Tlv.readNonNegative
  cases Tlv.isNonNegative b.value <;> simp

/-- A name is read off an element that was found as one. -/
theorem ofBlock_eq_ok {es : List Block} {nameTLV : Block} {ckName : Name}
    (h : es.find? (fun e => e.type = tlvName) = some nameTLV) :
    Name.ofBlock nameTLV = .ok ckName ↔ Tlv.decodeAll nameTLV.value = some ckName := by
  have htype : nameTLV.type = tlvName := by simpa using List.find?_some h
  rw [Name.ofBlock, if_pos htype, elements_eq_ok]

/-- **The four extractions succeed exactly on well-formed content**, and what they give as
the CK name is what the content names. -/
theorem parseContent_eq_ok_iff :
    (∃ parsed, parseContent content = .ok parsed) ↔ WellFormedContent content := by
  simp only [parseContent, bind_eq_ok, WellFormedContent]
  constructor
  · rintro ⟨parsed, elements, helements, encryptedContentTLV, henc, plainTextSizeTLV, hsize,
      plainTextSize, hread, nameTLV, hname, ckName, hck, -⟩
    rw [firstOf_eq_ok] at hname
    exact ⟨elements, encryptedContentTLV, plainTextSizeTLV, nameTLV, ckName,
      elements_eq_ok.mp helements, firstOf_eq_ok.mp henc, firstOf_eq_ok.mp hsize,
      (readNonNegativeInteger_eq_ok.mp hread).1, hname, (ofBlock_eq_ok hname).mp hck⟩
  · rintro ⟨elements, encryptedContentTLV, plainTextSizeTLV, nameTLV, ckName, helements, henc,
      hsize, hlegal, hname, hck⟩
    exact ⟨_, elements, elements_eq_ok.mpr helements, encryptedContentTLV, firstOf_eq_ok.mpr henc,
      plainTextSizeTLV, firstOf_eq_ok.mpr hsize, _,
      readNonNegativeInteger_eq_ok.mpr ⟨hlegal, rfl⟩, nameTLV, firstOf_eq_ok.mpr hname, ckName,
      (ofBlock_eq_ok hname).mpr hck, rfl⟩

theorem namesCk_of_parseContent {cipherText : CipherText} {ckName : Name}
    (h : parseContent content = .ok (cipherText, ckName)) : NamesCk content ckName := by
  simp only [parseContent, bind_eq_ok] at h
  obtain ⟨elements, helements, _, -, _, -, _, -, nameTLV, hname, ckName', hck, hparsed⟩ := h
  obtain ⟨-, rfl⟩ := Prod.mk.inj (Except.ok.inj hparsed)
  rw [firstOf_eq_ok] at hname
  exact ⟨elements, nameTLV, elements_eq_ok.mp helements, hname, (ofBlock_eq_ok hname).mp hck⟩

/-! ## What `decryptContent` does -/

/-- Content whose parts are not all there ends `decryptContent` before it has done
anything. -/
theorem exec_decryptContent_of_error {e : Exn} (h : parseContent content = .error e) :
    (decryptContent p content callbacks).exec c = (.error e, c) := by
  exact Prog.exec_eq_of_wp (wp_decryptContent_of_error h ⟨rfl, rfl⟩)

theorem exec_decryptContent_of_malformed (h : ¬ WellFormedContent content) :
    ∃ e, ((decryptContent p content callbacks).exec c).1 = .error e := by
  cases hparse : parseContent content with
  | ok parsed => exact absurd (parseContent_eq_ok_iff.mp ⟨parsed, hparse⟩) h
  | error e => exact ⟨e, by rw [exec_decryptContent_of_error hparse]⟩

/-- Content names one CK. -/
theorem NamesCk.unique {ckName ckName' : Name} (h : NamesCk content ckName)
    (h' : NamesCk content ckName') : ckName' = ckName := by
  obtain ⟨elements, nameTLV, helements, hname, hck⟩ := h
  obtain ⟨elements', nameTLV', helements', hname', hck'⟩ := h'
  rw [helements] at helements'
  cases helements'
  rw [hname] at hname'
  cases hname'
  rw [hck] at hck'
  exact (Option.some.inj hck').symm

/-- **With all its parts, content is reported on or queued** if its content key can be obtained;
otherwise the call is left by an exception. -/
theorem accounts_decryptContent_iff (hset : callbacks.Set) (h : WellFormedContent content) :
    Accounts (WellFormedContent content) (NamesCk content) callbacks c
        ((decryptContent p content callbacks).exec c) ↔
      ∀ ckName, NamesCk content ckName → c.CanObtain (normalizeCkKey ckName) := by
  obtain ⟨⟨cipherText, ckName⟩, hparse⟩ := parseContent_eq_ok_iff.mpr h
  have hnames := namesCk_of_parseContent hparse
  have hwp : (decryptContent p content callbacks).wp (Prog.silent _ _ _) (fun r t =>
      (c.CanObtain (normalizeCkKey ckName) → r = .ok () ∧
        ((∃ call, call.id = callbacks.id ∧ t.invoked = c.invoked ++ [call] ∧
          t.m_pendingCallbacks = c.m_pendingCallbacks) ∨
        t.invoked = c.invoked ∧ ∃ ckName task, NamesCk content ckName ∧
          task.callbacks = callbacks ∧ t.m_pendingCallbacks =
            (queue (normalizeCkKey ckName) task c).m_pendingCallbacks)) ∧
      (¬ c.CanObtain (normalizeCkKey ckName) → r = .error .invalidArgument)) c := by
    refine wp_decryptContent_of_parse Prog.silent_returns hset hparse ?_ ?_ ?_ ?_
    · intro encAesKey hcache
      refine ⟨trivial, ?_⟩
      rintro t rfl -
      refine ⟨fun _ => ⟨rfl, Or.inl ⟨_, callbacks.id_report _, rfl, rfl⟩⟩, fun hnot => ?_⟩
      exact absurd (Or.inl (Option.isSome_iff_exists.mpr ⟨encAesKey, hcache⟩)) hnot
    · intro _ hmark
      refine ⟨fun _ => ⟨rfl, Or.inr ⟨rfl, ckName, ⟨cipherText, callbacks⟩, hnames, rfl, rfl⟩⟩,
        fun hnot => ?_⟩
      exact absurd (Or.inr (Or.inl hmark)) hnot
    · intro _ _ hrequest
      refine ⟨fun _ => ⟨rfl, Or.inr ⟨rfl, ckName, ⟨cipherText, callbacks⟩, hnames, rfl, rfl⟩⟩,
        fun hnot => ?_⟩
      exact absurd (Or.inr (Or.inr hrequest)) hnot
    · intro hcache hmark hrequest
      refine ⟨?_, fun _ => rfl⟩
      rintro (hcached | hmarked | hrequested)
      · rw [hcache] at hcached
        cases hcached
      · exact absurd hmarked hmark
      · exact absurd hrequested hrequest
  obtain ⟨hobtained, hrefused⟩ := (Prog.wp_silent_iff _ _ c).mp hwp
  constructor
  · intro haccounts other hother
    by_contra hnot
    rw [hnames.unique hother] at hnot
    have hreturns := haccounts.returns
    rw [hrefused hnot] at hreturns
    cases hreturns
  · intro hobtain
    obtain ⟨hreturns, honce⟩ := hobtained (hobtain ckName hnames)
    exact ⟨hreturns, honce, fun hnot => absurd h hnot⟩

/-! ## The result -/

/-- Nothing that an account speaks of has changed. -/
structure SameBooks (c t : Consumer) : Prop where
  containers : SameContainers c t
  invoked : t.invoked = c.invoked
  timeout : t.m_defaultTimeout = c.m_defaultTimeout

theorem SameBooks.canObtain_iff {t : Consumer} (h : SameBooks c t) (ckKey : Name) :
    t.CanObtain ckKey ↔ c.CanObtain ckKey := by
  rw [CanObtain, CanObtain, CanRequest, CanRequest, h.containers.cache, h.containers.sent,
    h.timeout]

/-- What `consume` and the completion handler of a data fetch have in common: bookkeeping
that touches no container, and then `decryptContent`. -/
theorem accounts_iff {wellFormed : Prop} {namesCk : Name → Prop} {t : Consumer}
    {ended : Except Exn Unit × Consumer}
    (hwell : wellFormed → ∃ content, WellFormedContent content ∧
      (∀ ckName, NamesCk content ckName ↔ namesCk ckName) ∧
      ended = (decryptContent p content callbacks).exec t)
    (hnot : ¬ wellFormed → ∃ e, ended.1 = .error e)
    (hset : callbacks.Set) (hsame : SameBooks c t) :
    Accounts wellFormed namesCk callbacks c ended ↔
      wellFormed ∧ ∀ ckName, namesCk ckName → c.CanObtain (normalizeCkKey ckName) := by
  by_cases hwf : wellFormed
  · obtain ⟨content, hcontent, hnames, rfl⟩ := hwell hwf
    have hiff := accounts_decryptContent_iff (p := p) (c := t) hset hcontent
    have hobtain : (∀ ckName, namesCk ckName → c.CanObtain (normalizeCkKey ckName)) ↔
        ∀ ckName, NamesCk content ckName → t.CanObtain (normalizeCkKey ckName) :=
      forall_congr' fun ckName => imp_congr (hnames ckName).symm (hsame.canObtain_iff _).symm
    rw [and_iff_right hwf, hobtain, ← hiff]
    -- The two accounts differ in what they call the state before.
    have hbooks : ∀ ended : Except Exn Unit × Consumer,
        ((∃ call, call.id = callbacks.id ∧ ended.2.invoked = c.invoked ++ [call] ∧
          ended.2.m_pendingCallbacks = c.m_pendingCallbacks) ∨
        ended.2.invoked = c.invoked ∧ ∃ ckName task, namesCk ckName ∧ task.callbacks = callbacks ∧
          ended.2.m_pendingCallbacks = (queue (normalizeCkKey ckName) task c).m_pendingCallbacks) ↔
        ((∃ call, call.id = callbacks.id ∧ ended.2.invoked = t.invoked ++ [call] ∧
          ended.2.m_pendingCallbacks = t.m_pendingCallbacks) ∨
        ended.2.invoked = t.invoked ∧ ∃ ckName task, NamesCk content ckName ∧
          task.callbacks = callbacks ∧ ended.2.m_pendingCallbacks =
            (queue (normalizeCkKey ckName) task t).m_pendingCallbacks) := by
      intro ended
      simp only [hsame.invoked, hsame.containers.pending, queue, hnames]
    exact ⟨fun h => ⟨h.returns, (hbooks _).mp h.once, fun hmal => absurd hcontent hmal⟩,
      fun h => ⟨h.returns, (hbooks _).mpr h.once, fun hmal => absurd hwf hmal⟩⟩
  · refine iff_of_false (fun h => ?_) fun h => hwf h.1
    obtain ⟨e, he⟩ := hnot hwf
    have hreturns := h.returns
    rw [he] at hreturns
    cases hreturns

/-- A buffer names the CK that its one block names. -/
def BufferNamesCk (contentBuffer : Bytes) (ckName : Name) : Prop :=
  ∃ content, Tlv.decode contentBuffer = some content ∧ NamesCk content ckName

/-- `consume` of a block by a ready consumer. -/
theorem accounts_consumeBlock_iff {dataBlock : Block} (hready : c.readyForDecryption = true) :
    Accounts (WellFormedContent dataBlock) (NamesCk dataBlock) ⟨c.nextCall, true, true⟩ c
        ((consumeBlock p dataBlock true true).exec c) ↔
      WellFormedContent dataBlock ∧
        ∀ ckName, NamesCk dataBlock ckName → c.CanObtain (normalizeCkKey ckName) := by
  have hset : Callbacks.Set ⟨c.nextCall, true, true⟩ := ⟨rfl, rfl⟩
  have hsame : SameBooks c { c with nextCall := c.nextCall + 1 } := ⟨⟨rfl, rfl, rfl⟩, rfl, rfl⟩
  rw [exec_consumeBlock_of_ready p dataBlock true true hready]
  refine accounts_iff (p := p) ?_ ?_ hset hsame
  · exact fun hwf => ⟨dataBlock, hwf, fun _ => Iff.rfl, rfl⟩
  · exact exec_decryptContent_of_malformed

/-- A data fetch that brings one block. -/
theorem exec_onDataComplete_of_decode {contentBuffer : Bytes} (fetch : Name × Callbacks)
    (h : Tlv.decode contentBuffer = some content) :
    (onDataComplete p fetch contentBuffer).exec c = (decryptContent p content fetch.2).exec
      { c with dataFetches := c.dataFetches.erase fetch } := by
  have hbuffer : Block.ofBuffer contentBuffer = .ok content := by rw [Block.ofBuffer, h]
  unfold onDataComplete
  rw [hbuffer]
  rfl

/-- One that does not. -/
theorem exec_onDataComplete_of_undecodable {contentBuffer : Bytes} (fetch : Name × Callbacks)
    (h : Tlv.decode contentBuffer = none) :
    ((onDataComplete p fetch contentBuffer).exec c).1 = .error .tlvError := by
  have hbuffer : Block.ofBuffer contentBuffer = .error .tlvError := by rw [Block.ofBuffer, h]
  unfold onDataComplete
  rw [hbuffer]
  rfl

/-- The completion handler of a data fetch. -/
theorem accounts_onDataComplete_iff {fetch : Name × Callbacks} {contentBuffer : Bytes}
    (hset : fetch.2.Set) :
    Accounts (WellFormedBuffer contentBuffer) (BufferNamesCk contentBuffer) fetch.2 c
        ((onDataComplete p fetch contentBuffer).exec c) ↔
      WellFormedBuffer contentBuffer ∧
        ∀ ckName, BufferNamesCk contentBuffer ckName → c.CanObtain (normalizeCkKey ckName) := by
  have hsame : SameBooks c { c with dataFetches := c.dataFetches.erase fetch } :=
    ⟨⟨rfl, rfl, rfl⟩, rfl, rfl⟩
  refine accounts_iff (p := p) ?_ ?_ hset hsame
  · rintro ⟨content, hdecode, hwf⟩
    refine ⟨content, hwf, fun ckName => ⟨fun h => ⟨content, hdecode, h⟩, ?_⟩,
      exec_onDataComplete_of_decode fetch hdecode⟩
    rintro ⟨content', hdecode', hnames⟩
    rw [hdecode] at hdecode'
    cases hdecode'
    exact hnames
  · intro hmal
    cases hdecode : Tlv.decode contentBuffer with
    | none => exact ⟨.tlvError, exec_onDataComplete_of_undecodable fetch hdecode⟩
    | some content =>
      rw [exec_onDataComplete_of_decode fetch hdecode]
      exact exec_decryptContent_of_malformed fun hwf => hmal ⟨content, hdecode, hwf⟩

/-- **Content is accounted for exactly when it is well-formed** and the content key it names is
cached, marked or can be asked for, in every state of a consumer: by `consume` of a block when
the consumer is ready, and by the completion handler of a data fetch for the reassembled octets.
Callbacks are set and return. -/
theorem content_isReported_iff (p : Platform) (c : Consumer) :
    (∀ dataBlock, c.readyForDecryption = true →
      (Accounts (WellFormedContent dataBlock) (NamesCk dataBlock) ⟨c.nextCall, true, true⟩ c
          ((consumeBlock p dataBlock true true).exec c) ↔
        WellFormedContent dataBlock ∧
          ∀ ckName, NamesCk dataBlock ckName → c.CanObtain (normalizeCkKey ckName))) ∧
    ∀ fetch contentBuffer, fetch.2.Set →
      (Accounts (WellFormedBuffer contentBuffer) (BufferNamesCk contentBuffer) fetch.2 c
          ((onDataComplete p fetch contentBuffer).exec c) ↔
        WellFormedBuffer contentBuffer ∧
          ∀ ckName, BufferNamesCk contentBuffer ckName → c.CanObtain (normalizeCkKey ckName)) :=
  ⟨fun _ hready => accounts_consumeBlock_iff hready,
    fun _ _ hset => accounts_onDataComplete_iff hset⟩

/-- The ready consumer is given content that names a CK: the task is queued. -/
theorem content_isReported_example :
    Accounts (WellFormedContent contentBlock) (NamesCk contentBlock) ⟨0, true, true⟩ ready
      ((consumeBlock mockPlatform contentBlock true true).exec ready) := by
  have hparse : parseContent contentBlock = .ok (cipherText, ckName) := by decide
  refine ((content_isReported_iff mockPlatform ready).1 contentBlock rfl).mpr ⟨?_, ?_⟩
  · exact parseContent_eq_ok_iff.mp ⟨(cipherText, ckName), hparse⟩
  · intro named hnamed
    rw [(namesCk_of_parseContent hparse).unique hnamed]
    exact Or.inr (Or.inr (by decide))

/-- It is given a content block without elements: an exception is all that comes of it. -/
theorem content_unreported_when_empty :
    ¬ ∀ (p : Platform) (c : Consumer) (dataBlock : Block), c.readyForDecryption = true →
      Accounts (WellFormedContent dataBlock) (NamesCk dataBlock) ⟨c.nextCall, true, true⟩ c
        ((consumeBlock p dataBlock true true).exec c) := by
  intro h
  have hreturns := (h mockPlatform ready ⟨tlvContent, []⟩ rfl).returns
  cases hreturns

end NacAbe.Analysis
