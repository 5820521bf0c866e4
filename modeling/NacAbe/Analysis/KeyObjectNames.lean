import Mathlib.Data.List.Nodup
import NacAbe.Interface.KeyObjects
import NacAbe.Analysis.PolicyUpdates

/-!
# One object name, one key

The object name of a generated key is the request's name and the time.  Where the
clock has not moved since an earlier request of the same name, `m_segmentMap.emplace`
keeps the earlier segments while the reply is segment 0 of the new ones, so a
consumer gets its first segment from one key and the others from another
(attribute-authority.cpp:126-139).  As long as no name is used again, the segments of
a name are those of one key (`unmixed_of_freshNames`).
-/

set_option autoImplicit false

namespace NacAbe.Analysis

open NacAbe AttributeAuthority

variable {Token : Type}

/-- An event that has a certificate and a token to generate with would do so under a
name that is already stored. -/
def ReusesName (aa : AttributeAuthority Token) (e : Event Token) : Prop :=
  ∃ N cert, e.objName = some N ∧ e.Supplies aa cert ∧
    (aa.m_tokens.find cert.getIdentity).isSome ∧ (aa.m_segmentMap.find N).isSome

/-- No event of the run does. -/
def FreshNames (keyGen : KeyGen Token) (crypto : Crypto) (init : AttributeAuthority Token)
    (events : List (Event Token)) : Prop :=
  Runs.Permitted (fun before e => ¬ ReusesName (run keyGen crypto init before) e) events

/-- What was sent under an object name is one key: segments with the same number are
the same packet, and all are segments of the one generation of that name, which is
also what is stored for the requests to come. -/
structure Unmixed (aa : AttributeAuthority Token) (N : Name) : Prop where
  once : ((generations aa.log).map Generation.objName).count N ≤ 1
  same : ∀ data ∈ sent aa.log, ∀ data' ∈ sent aa.log, ∀ i,
    data.name = N ++ [Component.fromSegment i] → data'.name = N ++ [Component.fromSegment i] →
    data = data'
  source : ∀ data ∈ sent aa.log, ∀ i, data.name = N ++ [Component.fromSegment i] →
    ∃ g ∈ generations aa.log, g.objName = N ∧ data ∈ g.dkSegments ∧
      aa.m_segmentMap.find N = some g.dkSegments ∧ reassemble g.dkSegments = g.dkBlock.encode

/-! ## The invariant -/

/-- Names are distinct and every generation is the one stored under its name. -/
structure DistinctNames (aa : AttributeAuthority Token) : Prop where
  nodup : ((generations aa.log).map Generation.objName).Nodup
  stored : ∀ g ∈ generations aa.log, aa.m_segmentMap.find g.objName = some g.dkSegments

variable {keyGen : KeyGen Token} {crypto : Crypto} {aa aa' : AttributeAuthority Token}
  {e : Event Token}

theorem DistinctNames.of_same (h : DistinctNames aa) (hmap : aa'.m_segmentMap = aa.m_segmentMap)
    (hgen : generations aa'.log = generations aa.log) : DistinctNames aa' := by
  refine ⟨?_, ?_⟩
  · rw [hgen]
    exact h.nodup
  · rw [hgen, hmap]
    exact h.stored

/-- A step that reuses no name keeps the names distinct. -/
theorem DistinctNames.step (h : DistinctNames aa) (ho : Outcome keyGen crypto aa e aa')
    (hfresh : ¬ ReusesName aa e) : DistinctNames aa' := by
  cases ho with
  | generated fetches hf token g data hk hg he hc hd =>
    have hgen : generations (({ aa with fetches }.store token g).record [.put data]).log =
        generations aa.log ++ [g] := by simp [store, record, generations]
    have hnone : aa.m_segmentMap.find g.objName = none := by
      by_contra hsome
      exact hfresh ⟨g.objName, g.cert, he, hc, by simp [hk.token_eq],
        Option.isSome_iff_ne_none.mpr hsome⟩
    have hne : ∀ g' ∈ generations aa.log, g'.objName ≠ g.objName := by
      intro g' hg' heq
      have hs := h.stored g' hg'
      rw [heq, hnone] at hs
      cases hs
    refine ⟨?_, ?_⟩
    · rw [hgen, List.map_append, List.nodup_append]
      refine ⟨h.nodup, by simp, ?_⟩
      intro N hN N' hN'
      obtain ⟨g', hg', rfl⟩ := List.mem_map.mp hN
      have : N' = g.objName := by simpa using hN'
      exact this ▸ hne g' hg'
    · intro g' hg'
      rw [hgen, List.mem_append, List.mem_singleton] at hg'
      simp only [record, store, PartialMap.find_insert, hnone, Option.getD_none]
      rcases hg' with hg' | rfl
      · rw [if_neg (hne g' hg')]
        exact h.stored g' hg'
      · rw [if_pos rfl]
  | served N segments ds => exact h.of_same rfl (by simp [record])
  | _ => exact h.of_same rfl (by simp [record, generations])

/-! ## The objects of a run -/

/-- With distinct names no object is mixed. -/
theorem unmixed_of_distinctNames (h : DistinctNames aa) (ho : KeyObjects crypto aa) (N : Name) :
    Unmixed aa N := by
  have hunique : ∀ g ∈ generations aa.log, ∀ g' ∈ generations aa.log,
      g.objName = g'.objName → g = g' := fun g hg g' hg' heq =>
    List.inj_on_of_nodup_map h.nodup hg hg' heq
  have hsource : ∀ data ∈ sent aa.log, ∀ i, data.name = N ++ [Component.fromSegment i] →
      ∃ g ∈ generations aa.log, g.objName = N ∧ data ∈ g.dkSegments := by
    intro data hd i hname
    rcases ho.put data hd with ⟨g, hg, hm⟩ | ⟨interest, now, rfl⟩
    · obtain ⟨j, hj⟩ := name_of_mem_segment (ho.isSealed g hg).segments_eq hm
      rw [hname] at hj
      exact ⟨g, hg, (List.append_inj_left' hj rfl).symm, hm⟩
    · -- A version component is not a segment component.
      have hlast := congrArg List.getLast? hname
      simp [publicParamsData, Component.fromVersion, Component.fromSegment,
        tlvVersionNameComponent, tlvSegmentNameComponent] at hlast
  refine ⟨?_, ?_, ?_⟩
  · exact List.nodup_iff_count_le_one.mp h.nodup N
  · intro data hd data' hd' i hname hname'
    obtain ⟨g, hg, hN, hm⟩ := hsource data hd i hname
    obtain ⟨g', hg', hN', hm'⟩ := hsource data' hd' i hname'
    obtain rfl := hunique g hg g' hg' (hN.trans hN'.symm)
    exact eq_of_mem_segment (ho.isSealed g hg).segments_eq hm hm' (hname.trans hname'.symm)
  · intro data hd i hname
    obtain ⟨g, hg, rfl, hm⟩ := hsource data hd i hname
    exact ⟨g, hg, rfl, hm, h.stored g hg, (ho.isSealed g hg).reassemble⟩

/-- In a run that uses no object name twice every generation is stored under its name. -/
theorem distinctNames_run (keyGen : KeyGen Token) (crypto : Crypto) (identityCert : Certificate)
    (abeType : AbeType) (maxSegmentSize : ℕ) (keys : PublicParams × MasterKey)
    (events : List (Event Token))
    (h : FreshNames keyGen crypto (initial identityCert abeType maxSegmentSize keys) events) :
    DistinctNames
      (run keyGen crypto (initial identityCert abeType maxSegmentSize keys) events) := by
  refine Runs.invariant (next keyGen crypto) _ (fun _ aa => DistinctNames aa) ?_ ?_ events h
  · exact ⟨List.nodup_nil, fun g hg => by simp [initial, generations] at hg⟩
  · intro before e _ hfresh ih
    exact ih.step (next_outcome keyGen crypto _ e) hfresh

/-- **Segments of one object are never mixed in a run that uses no object name twice.**
The clock and the random generator give whatever the events carry. -/
theorem unmixed_of_freshNames (keyGen : KeyGen Token) (crypto : Crypto)
    (identityCert : Certificate) (abeType : AbeType) (maxSegmentSize : ℕ)
    (keys : PublicParams × MasterKey) (events : List (Event Token))
    (h : FreshNames keyGen crypto (initial identityCert abeType maxSegmentSize keys) events)
    (N : Name) :
    Unmixed (run keyGen crypto (initial identityCert abeType maxSegmentSize keys) events) N :=
  unmixed_of_distinctNames
    (distinctNames_run keyGen crypto identityCert abeType maxSegmentSize keys events h)
    (run_keyObjects keyGen crypto identityCert abeType maxSegmentSize keys events) N

/-! ## Two requests at one time -/

/-- The times the events of a run read, in order. -/
def clock (events : List (Event Token)) : List ℕ :=
  events.filterMap fun
    | .decryptionKeyRequest _ now _ => some now
    | .certificateData _ _ _ _ _ _ now _ => some now
    | .publicParamsRequest _ now => some now
    | _ => none

/-- `/c` is authorised and asks for its key twice. -/
def twoRequests (now now' : ℕ) : List (Event (List Bytes)) :=
  [.addNewPolicyCert consumerCert [ascii "x"], .decryptionKeyRequest consumerRequest now 6,
    .decryptionKeyRequest consumerRequest now' 7]

/-- The authority that the examples start from. -/
def freshAuthority : CpAttributeAuthority :=
  initial authorityCert abeTypeCpAbe 1500 (⟨[1]⟩, ⟨[2]⟩)

theorem not_reusesName_of_find (h : ∀ N, e.objName = some N → aa.m_segmentMap.find N = none) :
    ¬ ReusesName aa e := by
  rintro ⟨N, cert, hN, -, -, hsome⟩
  rw [h N hN] at hsome
  cases hsome

/-- At two times the requests give two objects. -/
theorem unmixed_at_two_times : Unmixed
    (run (CpAttributeAuthority.keyGen mockAbe) mockCrypto freshAuthority (twoRequests 4 5))
    (consumerRequest.name ++ [Component.fromVersion 5]) := by
  refine unmixed_of_freshNames (CpAttributeAuthority.keyGen mockAbe) mockCrypto authorityCert
    abeTypeCpAbe 1500 (⟨[1]⟩, ⟨[2]⟩) (twoRequests 4 5) ?_ _
  refine (((Runs.permitted_nil _).concat ?_).concat ?_).concat ?_ <;>
    refine not_reusesName_of_find fun N hN => ?_
  · cases hN
  · cases hN
    decide
  · cases hN
    decide

/-- Where the clock reads the same for both, segment 0 of the second key goes out under
the name of the first. -/
theorem mixed_at_one_time :
    ¬ ∀ (abe : OpenAbe) (crypto : Crypto) (identityCert : Certificate) (maxSegmentSize : ℕ)
        (keys : PublicParams × MasterKey) (events : List (Event (List Bytes))) (N : Name),
        (clock events).Pairwise (· ≤ ·) →
        Unmixed (run (CpAttributeAuthority.keyGen abe) crypto
          (initial identityCert abeTypeCpAbe maxSegmentSize keys) events) N := by
  intro h
  have hunmixed := h mockAbe mockCrypto authorityCert 1500 (⟨[1]⟩, ⟨[2]⟩) (twoRequests 5 5)
    (consumerRequest.name ++ [Component.fromVersion 5]) (by decide)
  have hdiffer : ∃ data ∈ sent (run (CpAttributeAuthority.keyGen mockAbe) mockCrypto
        freshAuthority (twoRequests 5 5)).log,
      ∃ data' ∈ sent (run (CpAttributeAuthority.keyGen mockAbe) mockCrypto
        freshAuthority (twoRequests 5 5)).log,
      data.name = consumerRequest.name ++ [Component.fromVersion 5] ++ [Component.fromSegment 0] ∧
      data'.name = consumerRequest.name ++ [Component.fromVersion 5] ++ [Component.fromSegment 0] ∧
      data ≠ data' := by decide
  obtain ⟨data, hd, data', hd', hname, hname', hne⟩ := hdiffer
  exact hne (hunmixed.same data hd data' hd' 0 hname hname')

end NacAbe.Analysis
