import Mathlib.Data.List.Nodup
import NacAbe.Analysis.KeyDelivery
import NacAbe.Analysis.KeyIsolation
import NacAbe.Analysis.KeyObjectNames
import NacAbe.Interface.KeyRequests

/-!
# Key objects can be fetched

A reply to a DKEY request is segment 0 of an object, and the consumer fetches the others by name
(attribute-authority.cpp:98-107).  The guards in front of the segments look at the name only up to
the key name and at the tokens, the store keeps what it has, and every segment has a name of its
own.  So each segment of an object that is stored is there for the asking from then on, whatever
else comes in, and a request for it brings that packet and nothing else
(`keyObject_isServed`).
-/

set_option autoImplicit false

namespace NacAbe

/-! ## Names of segments -/

variable {content : Bytes} {dataName : Name} {maxSegmentSize : ℕ} {segments : List Data}

/-- One element has the value of a list whose values are distinct. -/
theorem filter_eq_singleton {α β : Type} [DecidableEq β] (f : α → β) {l : List α}
    (h : (l.map f).Nodup) {a : α} (ha : a ∈ l) : l.filter (fun b => f a = f b) = [a] := by
  induction l with
  | nil => cases ha
  | cons first rest ih =>
    obtain ⟨hfirst, hrest⟩ := List.nodup_cons.mp h
    rcases List.mem_cons.mp ha with rfl | hmem
    · have hnone : rest.filter (fun b => f a = f b) = [] := by
        apply List.filter_eq_nil_iff.mpr
        intro b hb
        rw [decide_eq_true_eq]
        intro heq
        exact hfirst (heq ▸ List.mem_map_of_mem hb)
      rw [List.filter_cons_of_pos (by simp), hnone]
    · have hne : f a ≠ f first := by
        intro heq
        exact hfirst (heq ▸ List.mem_map_of_mem hmem)
      rw [List.filter_cons_of_neg (by simpa using hne)]
      exact ih hrest hmem

/-- The segments of one content have distinct names. -/
theorem nodup_name_segment (h : segment content dataName maxSegmentSize = .ok segments) :
    (segments.map Data.name).Nodup := by
  have hsmall : (Chunks.chunks maxSegmentSize content).length ≤ content.length + 1 :=
    Chunks.length_chunks_le maxSegmentSize content
  have hlen := length_lt_of_segment h
  have hnames : segments.map Data.name =
      (List.range (Chunks.chunks maxSegmentSize content).length).map
        fun i => dataName ++ [Component.fromSegment i] := by
    rw [segment_eq_ok h]
    apply List.ext_getElem <;> simp
  rw [hnames]
  refine List.Nodup.map_on ?_ List.nodup_range
  intro i hi j hj heq
  rw [List.mem_range] at hi hj
  have hc : Component.fromSegment i = Component.fromSegment j := by simpa using heq
  exact Component.fromSegment_injective (by omega) (by omega) hc

namespace AttributeAuthority

variable {Token : Type} {keyGen : KeyGen Token} {crypto : Crypto}
  {aa aa' : AttributeAuthority Token} {e : Event Token} {request : Interest} {name : Name}

/-! ## What stays -/

/-- What is stored stays. -/
theorem segments_of_outcome (h : Outcome keyGen crypto aa e aa')
    (hstored : aa.m_segmentMap.find name = some segments) :
    aa'.m_segmentMap.find name = some segments := by
  cases h with
  | generated => exact PartialMap.find_insert_of_some hstored _ _
  | _ => exact hstored

/-- A request that is entitled stays so. -/
theorem Entitled.later (h : Entitled aa request) (ho : Outcome keyGen crypto aa e aa') :
    Entitled aa' request := by
  obtain ⟨keyName, hname, hvalid, htoken⟩ := h
  obtain ⟨token, hfind⟩ := Option.isSome_iff_exists.mp htoken
  refine ⟨keyName, ?_, hvalid, ?_⟩
  · rw [supposedKeyName, ho.sameKeys.cert_eq]
    exact hname
  · rw [Analysis.token_of_outcome ho hfind]
    rfl

/-- A longer name carries the key name that is in front. -/
theorem supposedKeyName_append {keyName : Name} (h : aa.supposedKeyName name = .ok keyName)
    (rest : Name) : aa.supposedKeyName (name ++ rest) = .ok keyName := by
  obtain ⟨component, hcomponent, hread⟩ := bind_eq_ok.mp h
  refine bind_eq_ok.mpr ⟨component, ?_, hread⟩
  unfold Name.atPos at hcomponent ⊢
  cases hget : name[aa.m_cert.getIdentity.length + 1]? with
  | none =>
    rw [hget] at hcomponent
    cases hcomponent
  | some c =>
    rw [hget] at hcomponent
    rw [List.getElem?_append_left (List.getElem?_eq_some_iff.mp hget).1, hget]
    exact hcomponent

/-! ## Requests for segments -/

/-- A name that ends with a version and a segment asks for a segment. -/
theorem isSegmentRequest_segment (requestName : Name) (version i : ℕ) :
    isSegmentRequest (requestName ++ [Component.fromVersion version, Component.fromSegment i]) =
      .ok true := by
  have hlength : (requestName ++ [Component.fromVersion version, Component.fromSegment i]).length =
      requestName.length + 2 := List.length_append
  have hlast : (requestName ++ [Component.fromVersion version, Component.fromSegment i]).atNeg 1 =
      .ok (Component.fromSegment i) := by
    rw [Name.atNeg, if_neg (by omega), hlength, Name.atPos]
    simp
  have hprevious : (requestName ++ [Component.fromVersion version,
      Component.fromSegment i]).atNeg 2 = .ok (Component.fromVersion version) := by
    rw [Name.atNeg, if_neg (by omega), hlength, Name.atPos]
    simp
  have hsegment : Component.isSegment (Component.fromSegment i) = true :=
    Tlv.isNonNegative_encode i
  have hversion : Component.isVersion (Component.fromVersion version) = true :=
    Tlv.isNonNegative_encode version
  simp only [isSegmentRequest, hlast, hprevious, ok_bind, hsegment, hversion, if_true]
  rfl

/-- The loop sends the segments with the name, in order. -/
theorem exec_serve (requestName : Name) (segments : List Data) (aa : AttributeAuthority Token) :
    (Prog.forEach (fun data => if requestName = data.name then put data else pure ())
      segments : AuthorityM Token Unit).exec aa =
      (.ok (), aa.record ((segments.filter fun data => requestName = data.name).map .put)) := by
  apply Prog.exec_eq_of_wp
  refine Prog.wp_forEach (fun rest t => ∃ done, done ++ rest = segments ∧
    t = aa.record ((done.filter fun data => requestName = data.name).map .put)) ?_ ?_ ?_
  · rintro data rest t ⟨done, hdone, rfl⟩
    split
    · next hname =>
      refine ⟨done ++ [data], by rw [← hdone]; simp, ?_⟩
      simp [record, List.filter_append, hname]
    · next hname =>
      refine ⟨done ++ [data], by rw [← hdone]; simp, ?_⟩
      simp [record, List.filter_append, hname]
  · rintro t ⟨done, hdone, rfl⟩
    rw [List.append_nil] at hdone
    rw [hdone]
    exact ⟨rfl, rfl⟩
  · exact ⟨[], rfl, by simp [record]⟩

/-- **A request for a segment** sends what is stored under its name, and does nothing else. -/
theorem next_segmentRequest (h : Entitled aa request) {version i : ℕ}
    (hstored : aa.m_segmentMap.find (request.name ++ [Component.fromVersion version]) =
      some segments) {segmentRequest : Interest}
    (hname : segmentRequest.name =
      request.name ++ [Component.fromVersion version, Component.fromSegment i]) (now seed : ℕ) :
    next keyGen crypto aa (.decryptionKeyRequest segmentRequest now seed) =
      aa.record ((segments.filter fun data => segmentRequest.name = data.name).map .put) := by
  obtain ⟨keyName, hkey, hvalid, htoken⟩ := h
  have hkeyName : aa.supposedKeyName segmentRequest.name = .ok keyName := by
    rw [hname]
    exact supposedKeyName_append hkey _
  have hsegment : isSegmentRequest segmentRequest.name = .ok true := by
    rw [hname]
    exact isSegmentRequest_segment _ version i
  have hobject : segmentRequest.name.getPrefixNeg 1 =
      request.name ++ [Component.fromVersion version] := by
    rw [hname, List.append_cons]
    exact Name.getPrefixNeg_append_singleton _ _
  refine (Prog.wp_silent_iff _ (fun _ t => t = _) aa).mp ?_
  show (onDecryptionKeyRequest keyGen crypto segmentRequest now seed).wp _ _ _
  simp only [onDecryptionKeyRequest, onDecryptionKeyRequestBase, Prog.wp_bind, Prog.wp_get,
    Prog.andThen_ok, Prog.wp_liftM, hkeyName, extractIdentityFromKeyName, if_pos hvalid, htoken,
    if_true, hsegment, hobject, hstored]
  exact (Prog.wp_silent_iff _ (fun _ t => t = _) aa).mpr (congrArg Prod.snd (exec_serve _ _ _))

/-! ## Runs -/

variable (aa) in
/-- What a certificate was fetched for is read as a request that passes the guards. -/
def ReadsRequest : Event Token → Prop
  | .certificateData _ _ _ _ _ requestRead _ _ => Entitled aa ⟨requestRead, true, none, none⟩
  | _ => True

/-- An event that generates an object generates it for a request that passes the guards. -/
theorem entitled_of_generated {g : Generation} (hread : aa.ReadsRequest e)
    (h : .generated g ∈ newEffects keyGen crypto aa e) :
    ∃ request now, Entitled aa request ∧
      g.objName = request.name ++ [Component.fromVersion now] := by
  obtain ⟨hobj, -, -, -⟩ := generated_inv h
  cases e with
  | decryptionKeyRequest request now seed =>
    refine ⟨request, now, ?_, (Option.some.inj hobj).symm⟩
    by_contra hnot
    have hsame : next keyGen crypto aa (.decryptionKeyRequest request now seed) = aa :=
      ((Prog.wp_silent_iff _ _ aa).mp
        (wp_onDecryptionKeyRequest_result keyGen crypto aa request now seed)).2 hnot
    rw [newEffects, hsame, List.drop_length] at h
    cases h
  | certificateData keyName data digest keyPacket accepted requestRead now seed =>
    exact ⟨_, now, hread, (Option.some.inj hobj).symm⟩
  | addNewPolicy => cases hobj
  | addNewPolicyCert => cases hobj
  | certificateFailure => cases hobj
  | publicParamsRequest => cases hobj

/-- What is generated is stored, and what is stored can be asked for. -/
structure Available (aa : AttributeAuthority Token) : Prop where
  stored : ∀ g ∈ generations aa.log, (aa.m_segmentMap.find g.objName).isSome = true
  served : ∀ objName segments, aa.m_segmentMap.find objName = some segments →
    ∃ request now, Entitled aa request ∧ objName = request.name ++ [Component.fromVersion now]

/-- An event that generates nothing. -/
theorem Available.of_quiet (h : Available aa) (ho : Outcome keyGen crypto aa e aa')
    (hmap : aa'.m_segmentMap = aa.m_segmentMap)
    (hgen : generations aa'.log = generations aa.log) : Available aa' := by
  constructor
  · rw [hmap, hgen]
    exact h.stored
  · rw [hmap]
    intro objName segments hstored
    obtain ⟨request, now, hentitled, hname⟩ := h.served objName segments hstored
    exact ⟨request, now, hentitled.later ho, hname⟩

/-- **One event.** -/
theorem Available.next (h : Available aa) (hread : aa.ReadsRequest e) :
    Available (next keyGen crypto aa e) := by
  have ho := next_outcome keyGen crypto aa e
  have hgenerated : ∀ g, .generated g ∈ newEffects keyGen crypto aa e → ∃ request now,
      Entitled (AttributeAuthority.next keyGen crypto aa e) request ∧
        g.objName = request.name ++ [Component.fromVersion now] := by
    intro g hg
    obtain ⟨request, now, hentitled, hname⟩ := entitled_of_generated hread hg
    exact ⟨request, now, hentitled.later ho, hname⟩
  rw [newEffects] at hgenerated
  generalize AttributeAuthority.next keyGen crypto aa e = aa' at ho hgenerated ⊢
  have hsame := ho
  cases ho with
  | addedPolicy => exact h.of_quiet hsame rfl rfl
  | addedPolicyCert => exact h.of_quiet hsame rfl rfl
  | ignored => exact h.of_quiet hsame rfl rfl
  | requested =>
    exact h.of_quiet hsame rfl (by simp [generations])
  | replied interest now he =>
    exact h.of_quiet hsame rfl (by simp [record, generations])
  | served N segments sent hN hs =>
    exact h.of_quiet hsame rfl
      (by rw [record, generations_append, generations_puts, List.append_nil])
  | failed fetches hf identityName token prvKey hk =>
    exact h.of_quiet hsame rfl (by simp [generations])
  | generated fetches hf token g data hk hg he hc hd =>
    have hnew := hgenerated g (by simp [AttributeAuthority.store, record])
    constructor
    · intro g' hg'
      simp only [record, AttributeAuthority.store, PartialMap.find_insert]
      by_cases hname : g'.objName = g.objName
      · rw [if_pos hname]
        rfl
      · rw [if_neg hname]
        have hold : g' ∈ generations aa.log ∨ g' = g := by
          simpa [record, AttributeAuthority.store, generations] using hg'
        exact h.stored g' (hold.resolve_right fun heq => hname (congrArg _ heq))
    · intro objName segments hstored
      simp only [record, AttributeAuthority.store, PartialMap.find_insert] at hstored
      by_cases hname : objName = g.objName
      · rw [hname]
        exact hnew
      · rw [if_neg hname] at hstored
        obtain ⟨request, now, hentitled, hobj⟩ := h.served objName segments hstored
        exact ⟨request, now, hentitled.later hsame, hobj⟩

/-- Every run whose requests are read keeps its key objects available. -/
theorem available_run (keyGen : KeyGen Token) (crypto : Crypto) (identityCert : Certificate)
    (abeType : AbeType) (maxSegmentSize : ℕ) (keys : PublicParams × MasterKey)
    (events : List (Event Token))
    (h : Runs.Permitted (fun before e => (run keyGen crypto
      (initial identityCert abeType maxSegmentSize keys) before).ReadsRequest e) events) :
    Available (run keyGen crypto (initial identityCert abeType maxSegmentSize keys) events) := by
  refine Runs.invariant (AttributeAuthority.next keyGen crypto) _ (fun _ aa => Available aa) ?_ ?_
    events h
  · exact ⟨List.forall_mem_nil _, by rintro _ _ ⟨⟩⟩
  · intro before e _ he ih
    exact ih.next he

variable (keyGen crypto) in
/-- What is there after some events is there after more. -/
theorem entitled_run (aa : AttributeAuthority Token) (later : List (Event Token))
    (h : Entitled aa request) : Entitled (run keyGen crypto aa later) request :=
  Runs.invariant (AttributeAuthority.next keyGen crypto) aa (fun _ aa' => Entitled aa' request) h
    (fun _ e _ _ ih => ih.later (next_outcome keyGen crypto _ e)) later
    (Runs.permitted_true later)

variable (keyGen crypto) in
theorem segments_run (aa : AttributeAuthority Token) (later : List (Event Token))
    (h : aa.m_segmentMap.find name = some segments) :
    (run keyGen crypto aa later).m_segmentMap.find name = some segments :=
  Runs.invariant (AttributeAuthority.next keyGen crypto) aa
    (fun _ aa' => aa'.m_segmentMap.find name = some segments) h
    (fun _ e _ _ ih => segments_of_outcome (next_outcome keyGen crypto _ e) ih) later
    (Runs.permitted_true later)

end AttributeAuthority

end NacAbe

namespace NacAbe.Analysis

open AttributeAuthority

variable {Token : Type}

/-- **Every object can be fetched.**  In every run of an authority whose deferred replies read a
request that passes the guards: something is stored under the name of what was generated (the
object itself, where no name is used twice), what is stored is the sealed block of one generation
in segments, and from then on, whatever else happens, every request with the name of one of these
segments is answered by this segment and changes nothing else. -/
theorem keyObject_isServed (keyGen : KeyGen Token) (crypto : Crypto) (identityCert : Certificate)
    (abeType : AbeType) (maxSegmentSize : ℕ) (keys : PublicParams × MasterKey)
    (events : List (Event Token))
    (hread : Runs.Permitted (fun before e => (run keyGen crypto
      (initial identityCert abeType maxSegmentSize keys) before).ReadsRequest e) events) :
    let aa := run keyGen crypto (initial identityCert abeType maxSegmentSize keys) events
    (∀ g ∈ generations aa.log, (aa.m_segmentMap.find g.objName).isSome = true) ∧
    (FreshNames keyGen crypto (initial identityCert abeType maxSegmentSize keys) events →
      ∀ g ∈ generations aa.log, aa.m_segmentMap.find g.objName = some g.dkSegments) ∧
    ∀ objName segments, aa.m_segmentMap.find objName = some segments →
      (∃ g ∈ generations aa.log, g.objName = objName ∧ g.dkSegments = segments ∧
        reassemble segments = g.dkBlock.encode) ∧
      ∀ later, ∀ data ∈ segments, ∀ request : Interest, request.name = data.name → ∀ now seed,
        next keyGen crypto (run keyGen crypto aa later) (.decryptionKeyRequest request now seed) =
          (run keyGen crypto aa later).record [.put data] := by
  intro aa
  have havailable : Available aa :=
    available_run keyGen crypto identityCert abeType maxSegmentSize keys events hread
  have hobjects : KeyObjects crypto aa :=
    run_keyObjects keyGen crypto identityCert abeType maxSegmentSize keys events
  refine ⟨havailable.stored, fun hfresh => ?_, ?_⟩
  · exact (distinctNames_run keyGen crypto identityCert abeType maxSegmentSize keys events
      hfresh).stored
  intro objName segments hstored
  obtain ⟨g, hg, rfl, rfl⟩ := hobjects.stored objName segments hstored
  have hsealed := hobjects.isSealed g hg
  refine ⟨⟨g, hg, rfl, rfl, hsealed.reassemble⟩, ?_⟩
  intro later data hdata request hname now seed
  obtain ⟨asked, version, hentitled, hobj⟩ := havailable.served _ _ hstored
  obtain ⟨i, hi⟩ := name_of_mem_segment hsealed.segments_eq hdata
  have hrequest : request.name =
      asked.name ++ [Component.fromVersion version, Component.fromSegment i] := by
    rw [hname, hi, hobj, List.append_assoc]
    rfl
  have hlater := segments_run keyGen crypto aa later hstored
  rw [hobj] at hlater
  rw [next_segmentRequest (entitled_run keyGen crypto aa later hentitled) hlater hrequest, hname,
    filter_eq_singleton Data.name (nodup_name_segment hsealed.segments_eq) hdata]
  rfl

/-- The consumer `/c` is registered and asks. -/
def keyRequested : List (Event (List Bytes)) :=
  [.addNewPolicyCert consumerCert [ascii "x"], .decryptionKeyRequest consumerRequest 5 4]

/-- The segment of the key that is made for it. -/
def segmentExample : Data :=
  ⟨consumerRequest.name ++ [Component.fromVersion 5, Component.fromSegment 0],
    Consumer.keyBlock.encode⟩

/-- A key object of two segments, and the requests for both. -/
theorem keyObject_isServed_example :
    let aa := run (CpAttributeAuthority.keyGen mockAbe) mockCrypto
      (initial authorityCert abeTypeCpAbe 1500 (⟨[1]⟩, ⟨[2]⟩)) keyRequested
    next (CpAttributeAuthority.keyGen mockAbe) mockCrypto aa
        (.decryptionKeyRequest ⟨segmentExample.name, false, none, none⟩ 6 5) =
      aa.record [.put segmentExample] := by
  have hread : Runs.Permitted (fun before e => (run (CpAttributeAuthority.keyGen mockAbe) mockCrypto
      (initial authorityCert abeTypeCpAbe 1500 (⟨[1]⟩, ⟨[2]⟩)) before).ReadsRequest e)
      keyRequested :=
    ((Runs.permitted_nil _).concat trivial).concat trivial
  have hstored : (run (CpAttributeAuthority.keyGen mockAbe) mockCrypto
      (initial authorityCert abeTypeCpAbe 1500 (⟨[1]⟩, ⟨[2]⟩)) keyRequested).m_segmentMap.find
        keyExample.objName = some keyExample.dkSegments := rfl
  obtain ⟨-, -, hserved⟩ := keyObject_isServed (CpAttributeAuthority.keyGen mockAbe) mockCrypto
    authorityCert abeTypeCpAbe 1500 (⟨[1]⟩, ⟨[2]⟩) keyRequested hread
  obtain ⟨-, hanswer⟩ := hserved _ _ hstored
  exact hanswer [] segmentExample List.mem_cons_self _ rfl 6 5

end NacAbe.Analysis
