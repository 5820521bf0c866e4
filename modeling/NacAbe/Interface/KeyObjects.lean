import NacAbe.Interface.AuthorityEvents

/-!
# The key objects of a run

Every object an authority stores and every packet it sends in answer to a DKEY
Interest goes back to a `Generation` in its log.  `run_keyObjects` holds of all runs,
whatever the clock reads; that an object name belongs to one generation only is
another matter and not part of it.
-/

set_option autoImplicit false

namespace NacAbe.AttributeAuthority

variable {Token : Type}

/-- The results of `generateDecryptionKeySegments` in a log. -/
def generations (log : List (AuthorityEffect Token)) : List Generation :=
  log.filterMap fun
    | .generated g => some g
    | _ => none

/-- The packets put on the face. -/
def sent (log : List (AuthorityEffect Token)) : List Data :=
  log.filterMap fun
    | .put data => some data
    | _ => none

@[simp] theorem generations_append (l l' : List (AuthorityEffect Token)) :
    generations (l ++ l') = generations l ++ generations l' := List.filterMap_append ..

@[simp] theorem sent_append (l l' : List (AuthorityEffect Token)) :
    sent (l ++ l') = sent l ++ sent l' := List.filterMap_append ..

@[simp] theorem generations_puts (ds : List Data) :
    generations (ds.map (.put : Data → AuthorityEffect Token)) = [] := by
  simp [generations, List.filterMap_map]

@[simp] theorem sent_puts (ds : List Data) :
    sent (ds.map (.put : Data → AuthorityEffect Token)) = ds := by
  simp [sent, List.filterMap_map]

variable {keyGen : KeyGen Token} {crypto : Crypto} {aa aa' : AttributeAuthority Token}
  {e : Event Token}

/-- Stored segments and sent packets are those of sealed generations; a packet may also
be a reply with the public parameters. -/
structure KeyObjects (crypto : Crypto) (aa : AttributeAuthority Token) : Prop where
  stored : ∀ N segments, aa.m_segmentMap.find N = some segments →
    ∃ g ∈ generations aa.log, g.objName = N ∧ g.dkSegments = segments
  isSealed : ∀ g ∈ generations aa.log, g.Sealed crypto aa.m_maxSegmentSize
  put : ∀ data ∈ sent aa.log, (∃ g ∈ generations aa.log, data ∈ g.dkSegments) ∨
    ∃ interest now, data = aa.publicParamsData interest now

/-- Effects that generate nothing and send nothing keep it. -/
theorem KeyObjects.of_quiet (h : KeyObjects crypto aa) (hmap : aa'.m_segmentMap = aa.m_segmentMap)
    (hsame : SameKeys aa aa') {new : List (AuthorityEffect Token)} (hlog : aa'.log = aa.log ++ new)
    (hgen : generations new = []) (hsent : sent new = []) : KeyObjects crypto aa' := by
  have hg : generations aa'.log = generations aa.log := by rw [hlog, generations_append, hgen,
    List.append_nil]
  have hs : sent aa'.log = sent aa.log := by rw [hlog, sent_append, hsent, List.append_nil]
  refine ⟨?_, ?_, ?_⟩
  · rw [hmap, hg]
    exact h.stored
  · rw [hg, hsame.maxSegmentSize_eq]
    exact h.isSealed
  · rw [hs, hg]
    unfold publicParamsData
    rw [hsame.abeType_eq, hsame.pubParams_eq]
    exact h.put

/-- So do packets that are replies or segments of what was generated. -/
theorem KeyObjects.of_puts (h : KeyObjects crypto aa) (ds : List Data)
    (hds : ∀ data ∈ ds, (∃ g ∈ generations aa.log, data ∈ g.dkSegments) ∨
      ∃ interest now, data = aa.publicParamsData interest now) :
    KeyObjects crypto (aa.record (ds.map .put)) := by
  have hg : generations (aa.record (ds.map .put)).log = generations aa.log := by simp [record]
  refine ⟨?_, ?_, ?_⟩
  · rw [hg]
    exact h.stored
  · rw [hg]
    exact h.isSealed
  · intro data hd
    simp only [record, sent_append, sent_puts, List.mem_append] at hd
    rw [hg]
    rcases hd with hold | hnew
    · exact h.put data hold
    · exact hds data hnew

/-- So does what `generateDecryptionKeySegments` leaves: a name that is there keeps its
segments. -/
theorem KeyObjects.store (h : KeyObjects crypto aa) (token : Token) {g : Generation}
    (hg : g.Sealed crypto aa.m_maxSegmentSize) : KeyObjects crypto (aa.store token g) := by
  have hgen : generations (aa.store token g).log = generations aa.log ++ [g] := by
    simp [AttributeAuthority.store, generations]
  have hsent : sent (aa.store token g).log = sent aa.log := by
    simp [AttributeAuthority.store, sent]
  refine ⟨?_, ?_, ?_⟩
  · intro N segments hN
    rw [hgen]
    simp only [AttributeAuthority.store, PartialMap.find_insert] at hN
    split at hN
    · next heq =>
      subst heq
      cases hold : aa.m_segmentMap.find g.objName with
      | none =>
        rw [hold] at hN
        exact ⟨g, by simp, rfl, Option.some.inj hN⟩
      | some old =>
        rw [hold] at hN
        obtain ⟨g', hg', hobj, hseg⟩ := h.stored _ _ hold
        exact ⟨g', List.mem_append_left _ hg', hobj, hseg.trans (Option.some.inj hN)⟩
    · obtain ⟨g', hg', hobj, hseg⟩ := h.stored _ _ hN
      exact ⟨g', List.mem_append_left _ hg', hobj, hseg⟩
  · intro g' hg'
    rw [hgen, List.mem_append, List.mem_singleton] at hg'
    rcases hg' with hold | rfl
    · exact h.isSealed g' hold
    · exact hg
  · intro d hd
    rw [hsent] at hd
    rw [hgen]
    rcases h.put d hd with ⟨g', hg', hm⟩ | hpub
    · exact Or.inl ⟨g', List.mem_append_left _ hg', hm⟩
    · exact Or.inr hpub

/-- The step. -/
theorem KeyObjects.step (h : KeyObjects crypto aa) (ho : Outcome keyGen crypto aa e aa') :
    KeyObjects crypto aa' := by
  have hsame := ho.sameKeys
  cases ho with
  | addedPolicy => exact h.of_quiet rfl hsame (List.append_nil _).symm rfl rfl
  | addedPolicyCert => exact h.of_quiet rfl hsame (List.append_nil _).symm rfl rfl
  | ignored => exact h.of_quiet rfl hsame (List.append_nil _).symm rfl rfl
  | requested => exact h.of_quiet rfl hsame rfl rfl rfl
  | failed => exact h.of_quiet rfl hsame rfl rfl rfl
  | replied interest now =>
    apply h.of_puts [aa.publicParamsData interest now]
    intro data hd
    exact Or.inr ⟨interest, now, List.mem_singleton.mp hd⟩
  | served N segments ds hN hs =>
    apply h.of_puts ds
    intro data hd
    obtain ⟨g, hgen, -, rfl⟩ := h.stored N segments hN
    exact Or.inl ⟨g, hgen, hs hd⟩
  | generated fetches hf token g data hk hg he hc hd =>
    have hfetches : KeyObjects crypto { aa with fetches } := ⟨h.stored, h.isSealed, h.put⟩
    apply (hfetches.store token hg).of_puts [data]
    intro d hmem
    rw [List.mem_singleton.mp hmem]
    exact Or.inl ⟨g, by simp [AttributeAuthority.store, generations], hd⟩

/-- **The objects of every run are sealed generations.** -/
theorem run_keyObjects (keyGen : KeyGen Token) (crypto : Crypto) (identityCert : Certificate)
    (abeType : AbeType) (maxSegmentSize : ℕ) (keys : PublicParams × MasterKey)
    (events : List (Event Token)) :
    KeyObjects crypto
      (run keyGen crypto (initial identityCert abeType maxSegmentSize keys) events) := by
  refine Runs.invariant (next keyGen crypto) _ (fun _ aa => KeyObjects crypto aa) ?_ ?_ events
    (Runs.permitted_true events)
  · exact ⟨fun N segments hN => by simp [initial] at hN, fun g hg => by simp [initial,
      generations] at hg, fun data hd => by simp [initial, sent] at hd⟩
  · intro events e _ _ ih
    exact ih.step (next_outcome keyGen crypto _ e)

end NacAbe.AttributeAuthority
