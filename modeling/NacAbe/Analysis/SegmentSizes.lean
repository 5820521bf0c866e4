import NacAbe.Analysis.PolicyInterference
import NacAbe.Interface.KeptContentKeys

/-!
# The segments of a cache producer

`CacheProducer::produce` takes a segment size and hands it to neither of the two calls that
segment (cache-producer.cpp:40, 49, 63 and 71), so they use the default.  What `Producer::produce`
returns for the same arguments is cut from the same two blocks in the size asked for
(`direct_eq_ok`), and the two results have the same segments, in number and sizes, exactly when
the two sizes cut these blocks alike.
-/

set_option autoImplicit false

namespace NacAbe

/-- The sizes of segments, in order. -/
def sizes (segments : List Data) : List ℕ := segments.map fun segment => segment.content.length

/-- Segments of one content have the same sizes exactly when they were cut in the same size or not
at all. -/
theorem sizes_segment_eq_iff {content : Bytes} {name name' : Name} {m n : ℕ}
    {segments segments' : List Data} (h : segment content name m = .ok segments)
    (h' : segment content name' n = .ok segments') :
    sizes segments' = sizes segments ↔ m = n ∨ content.length ≤ min m n := by
  have hsizes : sizes segments = (Chunks.chunks m content).map List.length := by
    rw [← map_content_segment h, List.map_map]
    rfl
  have hsizes' : sizes segments' = (Chunks.chunks n content).map List.length := by
    rw [← map_content_segment h', List.map_map]
    rfl
  rw [hsizes, hsizes', eq_comm, Chunks.map_length_chunks_eq_iff]

/-- No segment is larger than the size asked for. -/
theorem le_of_mem_sizes {content : Bytes} {name : Name} {m : ℕ} {segments : List Data}
    (h : segment content name m = .ok segments) : ∀ size ∈ sizes segments, size ≤ m := by
  intro size hsize
  obtain ⟨data, hdata, rfl⟩ := List.mem_map.mp hsize
  have hpos : 0 < m := by
    unfold segment at h
    split at h
    · cases h
    · omega
  refine Chunks.length_le_of_mem_chunks hpos ?_ (l := content)
  rw [← map_content_segment h]
  exact List.mem_map_of_mem hdata

namespace ProduceCall

variable (abe : OpenAbe) (producer : Producer) (call : ProduceCall)

/-- `Producer::produce` for the arguments of a call. -/
def direct (m : ℕ) : Except Exn (List Data × List Data) :=
  match call.encryptBy with
  | .policy accessPolicy =>
    producer.producePolicy abe call.dataName accessPolicy call.content m call.word call.seed
  | .attributes attributes =>
    producer.produceAttributes abe call.dataName attributes call.content m call.word call.seed

/-- The content key that is generated. -/
def contentKeyGen : Except Exn ContentKey :=
  let pubParams := producer.m_paramFetcher.m_pubParamsCache
  match call.encryptBy with
  | .policy accessPolicy => AbeSupport.cpContentKeyGen abe pubParams accessPolicy call.seed
  | .attributes attributes => AbeSupport.kpContentKeyGen abe pubParams attributes call.seed

/-- The object name of the content key. -/
def ckObjName : Name :=
  producer.m_cert.getIdentity ++ [contentKeyComponent, Component.generic (decimal call.word),
    encryptByComponent, Component.generic call.encryptBy.component]

/-- The two blocks that are segmented, of the content key and of the cipher text. -/
structure Encodes (ckBlock dataBlock : Bytes) : Prop where
  params : producer.m_paramFetcher.m_pubParamsCache.m_pub ≠ []
  mode : producer.m_paramFetcher.m_abeType = call.encryptBy.handed.1.abeType
  blocks : ∃ key cipherText, call.contentKeyGen abe producer = .ok key ∧
    AbeSupport.encrypt abe key call.content call.seed = .ok cipherText ∧
    ckBlock = key.makeCKContent.encode ∧
    dataBlock = (cipherText.makeDataContent.pushBack (call.ckObjName producer).wireEncode).encode

/-- Both blocks are cut alike in two sizes. -/
def CutAlike (m n : ℕ) : Prop :=
  m = n ∨ ∀ ckBlock dataBlock, call.Encodes abe producer ckBlock dataBlock →
    ckBlock.length ≤ min m n ∧ dataBlock.length ≤ min m n

variable {abe producer call}

/-- The two blocks of a call are determined by it. -/
theorem encodes_unique {ckBlock dataBlock ckBlock' dataBlock' : Bytes}
    (h : call.Encodes abe producer ckBlock dataBlock)
    (h' : call.Encodes abe producer ckBlock' dataBlock') :
    ckBlock' = ckBlock ∧ dataBlock' = dataBlock := by
  obtain ⟨key, cipherText, hkey, hcipher, rfl, rfl⟩ := h.blocks
  obtain ⟨key', cipherText', hkey', hcipher', rfl, rfl⟩ := h'.blocks
  obtain rfl := Except.ok.inj (hkey.symm.trans hkey')
  obtain rfl := Except.ok.inj (hcipher.symm.trans hcipher')
  exact ⟨rfl, rfl⟩

/-! ## What is cut -/

theorem direct_eq (m : ℕ) : call.direct abe producer m = (do
    let contentKey ← producer.ckDataGen abe call.encryptBy m call.word call.seed
    producer.produceFrom abe call.dataName call.content m call.seed contentKey) := by
  unfold direct
  cases call.encryptBy <;> rfl

/-- The three ways of making a content key are one. -/
theorem ckDataGen_eq_contentKeyGen (m : ℕ) :
    producer.ckDataGen abe call.encryptBy m call.word call.seed =
      if producer.m_paramFetcher.m_pubParamsCache.m_pub = [] then .ok (none, [])
      else if producer.m_paramFetcher.m_abeType ≠ call.encryptBy.handed.1.abeType then
        .ok (none, [])
      else do
        let contentKey ← call.contentKeyGen abe producer
        let segments ← producer.ckSegments contentKey call.encryptBy.component m call.word
        return (some contentKey, segments) := by
  unfold contentKeyGen
  cases call.encryptBy <;> rfl

/-- The packets of a content key are the segments of its block. -/
theorem ckSegments_eq (key : ContentKey) (m : ℕ) :
    producer.ckSegments key call.encryptBy.component m call.word =
      segment key.makeCKContent.encode (call.ckObjName producer) m := by
  have hidentity : extractIdentityFromCertName producer.m_cert.getName =
      .ok producer.m_cert.getIdentity := if_pos producer.m_cert.valid
  simp only [Producer.ckSegments, hidentity, bind, Except.bind]
  rfl

/-- What `Producer::produce` returns is cut from the two blocks. -/
theorem direct_of_encodes {ckBlock dataBlock : Bytes} {m : ℕ} {data ckData : List Data}
    (h : call.Encodes abe producer ckBlock dataBlock)
    (hck : segment ckBlock (call.ckObjName producer) m = .ok ckData)
    (hdata : segment dataBlock (producer.m_cert.getIdentity ++ call.dataName) m = .ok data) :
    call.direct abe producer m = .ok (data, ckData) := by
  obtain ⟨key, cipherText, hkey, hcipher, rfl, rfl⟩ := h.blocks
  have hgen : producer.ckDataGen abe call.encryptBy m call.word call.seed =
      .ok (some key, ckData) := by
    rw [ckDataGen_eq_contentKeyGen, if_neg h.params, if_neg (not_not.mpr h.mode), hkey]
    change (do
      let segments ← producer.ckSegments key call.encryptBy.component m call.word
      return (some key, segments)) = _
    rw [ckSegments_eq, hck]
    rfl
  have hname := contentKeyName_of_segment hck
  rw [direct_eq, hgen]
  cases ckData with
  | nil => exact absurd rfl (segment_ne_nil hck)
  | cons first rest =>
    change (do
      let packets ← producer.produceWithKey abe key (contentKeyName (first :: rest)) call.dataName
        call.content m call.seed
      return (packets, first :: rest)) = _
    rw [hname, Producer.produceWithKey, hcipher]
    change (do
      let packets ← segment _ (producer.m_cert.getIdentity ++ call.dataName) m
      return (packets, first :: rest)) = _
    rw [hdata]
    rfl

/-- `Producer::produce` returns nothing when the parameters are missing or of the other mode, and
otherwise what is cut from the two blocks. -/
theorem direct_eq_ok {m : ℕ} {data ckData : List Data}
    (h : call.direct abe producer m = .ok (data, ckData)) :
    (data = [] ∧ ckData = [] ∧ ∀ n,
      producer.ckDataGen abe call.encryptBy n call.word call.seed = .ok (none, [])) ∨
    ∃ ckBlock dataBlock, call.Encodes abe producer ckBlock dataBlock ∧
      segment ckBlock (call.ckObjName producer) m = .ok ckData ∧
      segment dataBlock (producer.m_cert.getIdentity ++ call.dataName) m = .ok data := by
  rw [direct_eq] at h
  by_cases hparams : producer.m_paramFetcher.m_pubParamsCache.m_pub = []
  · have hgen : ∀ n, producer.ckDataGen abe call.encryptBy n call.word call.seed = .ok (none, []) :=
      fun n => by rw [ckDataGen_eq_contentKeyGen, if_pos hparams]
    rw [hgen] at h
    cases h
    exact Or.inl ⟨rfl, rfl, hgen⟩
  · by_cases hmode : producer.m_paramFetcher.m_abeType = call.encryptBy.handed.1.abeType
    · obtain ⟨generated, hgen, hproduce⟩ := bind_eq_ok.mp h
      rw [ckDataGen_eq_contentKeyGen, if_neg hparams, if_neg (not_not.mpr hmode)] at hgen
      obtain ⟨key, hkey, hrest⟩ := bind_eq_ok.mp hgen
      obtain ⟨segments, hsegments, hreturn⟩ := bind_eq_ok.mp hrest
      rw [ckSegments_eq] at hsegments
      cases hreturn
      have hname := contentKeyName_of_segment hsegments
      cases segments with
      | nil => exact absurd rfl (segment_ne_nil hsegments)
      | cons first rest =>
        obtain ⟨packets, hpackets, hreturn⟩ := bind_eq_ok.mp hproduce
        cases hreturn
        obtain ⟨cipherText, hcipher, hdata⟩ := bind_eq_ok.mp hpackets
        change segment (cipherText.makeDataContent.pushBack
          (contentKeyName (first :: rest)).wireEncode).encode _ m = _ at hdata
        rw [hname] at hdata
        exact Or.inr ⟨_, _, ⟨hparams, hmode, key, cipherText, hkey, hcipher, rfl, rfl⟩, hsegments,
          hdata⟩
    · have hgen : ∀ n, producer.ckDataGen abe call.encryptBy n call.word call.seed =
          .ok (none, []) :=
        fun n => by rw [ckDataGen_eq_contentKeyGen, if_neg hparams, if_pos hmode]
      rw [hgen] at h
      cases h
      exact Or.inl ⟨rfl, rfl, hgen⟩

/-- **In another size** `Producer::produce` returns segments of the same sizes exactly when the two
sizes cut both blocks alike. -/
theorem direct_resize {m n : ℕ} {data ckData : List Data}
    (h : call.direct abe producer m = .ok (data, ckData)) (hn : n ≠ 0) :
    ∃ data' ckData', call.direct abe producer n = .ok (data', ckData') ∧
      (sizes data' = sizes data ∧ sizes ckData' = sizes ckData ↔
        call.CutAlike abe producer m n) ∧
      ∀ size ∈ sizes data ++ sizes ckData, size ≤ m := by
  rcases direct_eq_ok h with ⟨rfl, rfl, hgen⟩ | ⟨ckBlock, dataBlock, hencodes, hck, hdata⟩
  · have hdirect : call.direct abe producer n = .ok ([], []) := by
      rw [direct_eq, hgen]
      rfl
    have hnone : ∀ ckBlock dataBlock, ¬ call.Encodes abe producer ckBlock dataBlock := by
      intro ckBlock dataBlock hencodes
      have hcontra := hgen m
      rw [ckDataGen_eq_contentKeyGen, if_neg hencodes.params, if_neg (not_not.mpr hencodes.mode)]
        at hcontra
      obtain ⟨key, -, hrest⟩ := bind_eq_ok.mp hcontra
      obtain ⟨segments, -, hreturn⟩ := bind_eq_ok.mp hrest
      cases hreturn
    refine ⟨[], [], hdirect, ?_, by simp [sizes]⟩
    exact iff_of_true ⟨rfl, rfl⟩ (Or.inr fun ckBlock dataBlock hencodes =>
      absurd hencodes (hnone ckBlock dataBlock))
  · obtain ⟨ckData', hck'⟩ := segment_resize hck hn
    obtain ⟨data', hdata'⟩ := segment_resize hdata hn
    refine ⟨data', ckData', direct_of_encodes hencodes hck' hdata', ?_, ?_⟩
    · rw [sizes_segment_eq_iff hdata hdata', sizes_segment_eq_iff hck hck', CutAlike]
      constructor
      · rintro ⟨hdataCut, hckCut⟩
        by_cases heq : m = n
        · exact Or.inl heq
        · refine Or.inr fun ckBlock' dataBlock' hencodes' => ?_
          obtain ⟨rfl, rfl⟩ := encodes_unique hencodes hencodes'
          exact ⟨hckCut.resolve_left heq, hdataCut.resolve_left heq⟩
      · rintro (heq | hshort)
        · exact ⟨Or.inl heq, Or.inl heq⟩
        · obtain ⟨hckShort, hdataShort⟩ := hshort ckBlock dataBlock hencodes
          exact ⟨Or.inr hdataShort, Or.inr hckShort⟩
    · intro size hsize
      rcases List.mem_append.mp hsize with hsize | hsize
      · exact le_of_mem_sizes hdata size hsize
      · exact le_of_mem_sizes hck size hsize

/-! ## The cache producer -/

/-- Without an entry for its arguments the cache producer returns what the producer returns for
the default size. -/
theorem run_eq_direct {c : CacheProducer} (hkept : c.kept call.encryptBy = none)
    {result : List Data × List Data}
    (h : call.direct abe c.producer defaultMaxSegmentSize = .ok result) :
    ((call.run abe).exec c).1 = .ok result := by
  rw [direct_eq] at h
  obtain ⟨generated, hgenerated, hproduce⟩ := bind_eq_ok.mp h
  have hwp : (call.run abe).wp (Prog.silent _ _ _) (fun r _ => r = .ok result) c := by
    rw [run_eq_produceKept]
    apply CacheProducer.wp_produceKept_of
    · intro key hfind
      cases hkept.symm.trans hfind
    · intro e _ hgen
      cases hgen.symm.trans hgenerated
    · rintro ⟨key, segments⟩ _ hgen hnone
      obtain rfl := Except.ok.inj (hgen.symm.trans hgenerated)
      cases key with
      | none => exact hproduce
      | some key =>
        obtain rfl : segments = [] := hnone.resolve_left (Option.some_ne_none key)
        cases hproduce
    · intro key segments _ hgen hsegments
      obtain rfl := Except.ok.inj (hgen.symm.trans hgenerated)
      cases segments with
      | nil => exact absurd rfl hsegments
      | cons first rest =>
        rw [CacheProducer.producer_keep]
        exact hproduce
  exact (Prog.wp_silent_iff _ (fun r _ => r = .ok result) c).mp hwp

end ProduceCall

/-! ## By data name -/

/-- What `produce` by data name encrypts by, if it produces at all. -/
def Producer.matched (producer : Producer) (dataName : Name) : Option EncryptBy :=
  if producer.m_paramFetcher.m_abeType = abeTypeCpAbe then
    let policy := producer.findMatchedPolicy dataName
    if policy = [] then none else some (.policy policy)
  else if producer.m_paramFetcher.m_abeType = abeTypeKpAbe then
    let attributes := producer.findMatchedAttributes dataName
    if attributes = [] then none else some (.attributes attributes)
  else none

/-- Producing by data name chooses the matched policy or attributes. -/
theorem Producer.produceMatched_eq {m : Type → Type} [Monad m] (producer : Producer)
    (producePolicy : Policy → m (List Data × List Data))
    (produceAttributes : List Bytes → m (List Data × List Data)) (dataName : Name) :
    producer.produceMatched producePolicy produceAttributes dataName =
      match producer.matched dataName with
      | none => pure ([], [])
      | some (.policy policy) => producePolicy policy
      | some (.attributes attributes) => produceAttributes attributes := by
  unfold produceMatched matched
  split
  · dsimp only
    split <;> rfl
  · split
    · dsimp only
      split <;> rfl
    · rfl

/-- `produce` by data name, on either producer, is the call for what it has matched. -/
theorem Producer.produce_of_matched {abe : OpenAbe} {producer : Producer} {dataName : Name}
    {e : EncryptBy} (h : producer.matched dataName = some e) (content : Bytes) (m word seed : ℕ) :
    producer.produce abe dataName content m word seed =
      ProduceCall.direct abe producer ⟨e, dataName, content, word, seed⟩ m := by
  rw [Producer.produce, Producer.produceMatched_eq, h]
  cases e <;> rfl

theorem Producer.produce_of_unmatched {abe : OpenAbe} {producer : Producer} {dataName : Name}
    (h : producer.matched dataName = none) (content : Bytes) (m word seed : ℕ) :
    producer.produce abe dataName content m word seed = .ok ([], []) := by
  rw [Producer.produce, Producer.produceMatched_eq, h]
  rfl

/-- `produce` of the cache producer by data name is that for what matches. -/
theorem CacheProducer.exec_produce (abe : OpenAbe) (c : CacheProducer) (dataName : Name)
    (content : Bytes) (word seed : ℕ) :
    (CacheProducer.produce abe dataName content word seed).exec c =
      match c.producer.matched dataName with
      | none => (.ok ([], []), c)
      | some e => (ProduceCall.run abe ⟨e, dataName, content, word, seed⟩).exec c := by
  have hexec : (CacheProducer.produce abe dataName content word seed).exec c =
      (c.producer.produceMatched
        (fun policy => CacheProducer.producePolicy abe dataName policy content word seed)
        (fun attributes =>
          CacheProducer.produceAttributes abe dataName attributes content word seed)
        dataName).exec c := rfl
  rw [hexec, Producer.produceMatched_eq]
  cases c.producer.matched dataName with
  | none => rfl
  | some e => cases e <;> rfl

namespace Analysis

/-- The outcome has segments of the same number and sizes, none larger than `m`. -/
def Honours (m : ℕ) (result : List Data × List Data)
    (outcome : Except Exn (List Data × List Data)) : Prop :=
  ∃ data ckData, outcome = .ok (data, ckData) ∧ sizes data = sizes result.1 ∧
    sizes ckData = sizes result.2 ∧ ∀ size ∈ sizes data ++ sizes ckData, size ≤ m

/-- A call without an entry honours the size exactly when both blocks are cut alike in it and in
the default. -/
theorem honours_run_iff {abe : OpenAbe} {c : CacheProducer} {call : ProduceCall} {m : ℕ}
    {result : List Data × List Data} (hkept : c.kept call.encryptBy = none)
    (h : call.direct abe c.producer m = .ok result) :
    Honours m result ((call.run abe).exec c).1 ↔
      call.CutAlike abe c.producer m defaultMaxSegmentSize := by
  obtain ⟨data', ckData', hdirect, hcut, hsmall⟩ :=
    ProduceCall.direct_resize (n := defaultMaxSegmentSize) h (by decide)
  rw [ProduceCall.run_eq_direct hkept hdirect, ← hcut]
  constructor
  · rintro ⟨data, ckData, hsame, hdata, hck, -⟩
    cases hsame
    exact ⟨hdata, hck⟩
  · rintro ⟨hdata, hck⟩
    refine ⟨data', ckData', rfl, hdata, hck, ?_⟩
    rw [hdata, hck]
    exact hsmall

/-- **A cache producer honours the segment size exactly when it cuts like the default.**  For
every call on which `Producer::produce` returns packets in segments of `m`, and every cache without
an entry for it, `CacheProducer::produce` for the policy or the attribute list, and `produce` by
data name on a cache producer, return segments of the same number and sizes if and only if `m` is
the default or both blocks fit a single segment of either size. -/
theorem cacheProducer_honours_iff (abe : OpenAbe) (c : CacheProducer) (m : ℕ) :
    (∀ (call : ProduceCall) (result : List Data × List Data), c.kept call.encryptBy = none →
      call.direct abe c.producer m = .ok result →
      (Honours m result ((call.run abe).exec c).1 ↔
        call.CutAlike abe c.producer m defaultMaxSegmentSize)) ∧
    ∀ (dataName : Name) (content : Bytes) (word seed : ℕ) (result : List Data × List Data),
      (∀ encryptBy, c.producer.matched dataName = some encryptBy → c.kept encryptBy = none) →
      c.producer.produce abe dataName content m word seed = .ok result →
      (Honours m result ((CacheProducer.produce abe dataName content word seed).exec c).1 ↔
        ∀ encryptBy, c.producer.matched dataName = some encryptBy →
          ProduceCall.CutAlike abe c.producer ⟨encryptBy, dataName, content, word, seed⟩ m
            defaultMaxSegmentSize) := by
  refine ⟨fun call result hkept h => honours_run_iff hkept h, ?_⟩
  intro dataName content word seed result hkept h
  rw [CacheProducer.exec_produce]
  cases hmatched : c.producer.matched dataName with
  | none =>
    rw [Producer.produce_of_unmatched hmatched] at h
    cases h
    refine iff_of_true ⟨[], [], rfl, rfl, rfl, ?_⟩ nofun
    simp [sizes]
  | some encryptBy =>
    rw [Producer.produce_of_matched hmatched] at h
    have hone := honours_run_iff (hkept encryptBy hmatched) h
    dsimp only
    rw [hone]
    constructor
    · rintro hcut _ ⟨⟩
      exact hcut
    · intro hcut
      exact hcut encryptBy rfl

/-- The policy "x" and the content "hi". -/
def hiCall : ProduceCall := ⟨.policy (ascii "x"), [], ascii "hi", 1, 4⟩

/-- In segments of the default size a cache producer honours the size. -/
theorem cacheProducer_honours_iff_of_default :
    ∃ result, hiCall.direct mockAbe cpProducer defaultMaxSegmentSize = .ok result ∧
      Honours defaultMaxSegmentSize result
        ((hiCall.run mockAbe).exec (.initial cpProducer)).1 := by
  obtain ⟨result, hdirect⟩ :
    ∃ result, hiCall.direct mockAbe cpProducer defaultMaxSegmentSize = .ok result := ⟨_, rfl⟩
  have honours := (cacheProducer_honours_iff mockAbe (.initial cpProducer)
    defaultMaxSegmentSize).1 hiCall result rfl hdirect
  exact ⟨result, hdirect, honours.mpr (Or.inl rfl)⟩

/-- Asked for segments of one octet, a cache producer returns larger ones. -/
theorem cacheProducer_ignores_size :
    ∃ result, hiCall.direct mockAbe cpProducer 1 = .ok result ∧
      ¬ Honours 1 result ((hiCall.run mockAbe).exec (.initial cpProducer)).1 := by
  obtain ⟨result, hdirect⟩ : ∃ result, hiCall.direct mockAbe cpProducer 1 = .ok result := ⟨_, rfl⟩
  refine ⟨result, hdirect, ?_⟩
  intro h
  rcases (honours_run_iff (c := .initial cpProducer) rfl hdirect).mp h with heq | hshort
  · exact absurd heq (by decide)
  · have hlength := (hshort _ _ ⟨by decide, rfl, _, _, rfl, rfl, rfl, rfl⟩).1
    exact absurd hlength (by decide)

end Analysis

end NacAbe
