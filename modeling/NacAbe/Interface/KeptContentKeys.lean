import NacAbe.Interface.ProducedPackets
import NacAbe.Library.Memo

/-!
# The content keys a `CacheProducer` keeps

A call of `produce` names what to encrypt by.  `Producer` hands OpenABE a string for
it, in a mode (`Producer.ckDataGen_eq`), and generates a content key with packets.
`CacheProducer` is the store of `Library.Memo` for these: `keyCache` is what it keeps by
mode and string, although the cache for attribute lists is written with one more
separator, and every step moves `keyCache` as the store moves (`keyCache_run`).
-/

set_option autoImplicit false

namespace NacAbe

/-! ## Calls -/

/-- What content is encrypted by: the argument that tells the two `produce` apart. -/
inductive EncryptBy
  | policy (accessPolicy : Policy)
  | attributes (attrList : List Bytes)
deriving DecidableEq, Repr

/-- A call of `produce`. -/
structure ProduceCall where
  encryptBy : EncryptBy
  dataName : Name
  content : Bytes
  word : ℕ
  seed : ℕ
deriving DecidableEq, Repr

namespace EncryptBy

/-- The mode and the string that OpenABE is handed. -/
def handed : EncryptBy → Scheme × Bytes
  | .policy accessPolicy => (.cpAbe, accessPolicy)
  | .attributes attrList => (.kpAbe, (ascii "|").intercalate attrList)

/-- The last component of the names of the content key packets. -/
def component : EncryptBy → Bytes
  | .policy accessPolicy => accessPolicy.takeWhile (· ≠ 0)
  | .attributes attrList => Tlv.encodeAll (attrList.map fun a => ⟨tlvAttribute, a⟩)

/-- An attribute list is not empty. -/
def Given (e : EncryptBy) : Prop := e ≠ .attributes []

instance (e : EncryptBy) : Decidable e.Given := inferInstanceAs (Decidable (_ ≠ _))

end EncryptBy

/-- `ABE_TYPE_CP_ABE` and `ABE_TYPE_KP_ABE`. -/
def Scheme.abeType : Scheme → AbeType
  | .cpAbe => abeTypeCpAbe
  | .kpAbe => abeTypeKpAbe

namespace Producer

variable (abe : OpenAbe) (producer : Producer)

/-- Both `ckDataGen`. -/
def ckDataGen : EncryptBy → ℕ → ℕ → ℕ → Except Exn (Option ContentKey × List Data)
  | .policy accessPolicy => ckDataGenPolicy abe producer accessPolicy
  | .attributes attributes => ckDataGenAttributes abe producer attributes

/-- A content key that is generated for a string, and its packets. -/
def keyFor (handed : Scheme × Bytes) (component : Bytes) (maxSegmentSize word seed : ℕ) :
    Except Exn (Option ContentKey × List Data) :=
  if producer.m_paramFetcher.m_pubParamsCache.m_pub = [] then .ok (none, [])
  else if producer.m_paramFetcher.m_abeType ≠ handed.1.abeType then .ok (none, [])
  else do
    let contentKey ← AbeSupport.contentKeyGen abe handed.1
      producer.m_paramFetcher.m_pubParamsCache handed.2 seed
    let segments ← ckSegments producer contentKey component maxSegmentSize word
    return (some contentKey, segments)

/-- **What `ckDataGen` hands to OpenABE.** -/
theorem ckDataGen_eq {e : EncryptBy} (h : e.Given) (maxSegmentSize word seed : ℕ) :
    producer.ckDataGen abe e maxSegmentSize word seed =
      producer.keyFor abe e.handed e.component maxSegmentSize word seed := by
  cases e with
  | policy accessPolicy => rfl
  | attributes attributes =>
    have hne : attributes ≠ [] := fun heq => h (heq ▸ rfl)
    show ckDataGenAttributes abe producer attributes maxSegmentSize word seed = _
    rw [ckDataGenAttributes, AbeSupport.kpContentKeyGen, policyString_eq hne]
    rfl

/-- A content key that was generated, with its packets. -/
theorem keyFor_eq_ok {abe : OpenAbe} {producer : Producer} {handed : Scheme × Bytes}
    {component : Bytes} {maxSegmentSize word seed : ℕ} {key : ContentKey} {ckData : List Data}
    (h : producer.keyFor abe handed component maxSegmentSize word seed = .ok (some key, ckData)) :
    AbeSupport.contentKeyGen abe handed.1 producer.m_paramFetcher.m_pubParamsCache handed.2 seed =
        .ok key ∧
      producer.ckSegments key component maxSegmentSize word = .ok ckData := by
  unfold keyFor at h
  split at h
  · cases h
  · split at h
    · cases h
    · obtain ⟨contentKey, hkey, hrest⟩ := bind_eq_ok.mp h
      obtain ⟨segments, hsegments, hreturn⟩ := bind_eq_ok.mp hrest
      cases hreturn
      exact ⟨hkey, hsegments⟩

end Producer

namespace CacheProducer

/-- The key of `m_kpKeyCache` for an attribute list. -/
def attStr (attrList : List Bytes) : Bytes := attrList.foldl (fun s i => s ++ i ++ ascii "|") []

/-- What is kept for a policy or an attribute list. -/
def kept (c : CacheProducer) : EncryptBy → Option (ContentKey × List Data)
  | .policy accessPolicy => c.m_cpKeyCache.find accessPolicy
  | .attributes attrList => c.m_kpKeyCache.find (attStr attrList)

def keep (c : CacheProducer) : EncryptBy → ContentKey × List Data → CacheProducer
  | .policy accessPolicy, k => { c with m_cpKeyCache := c.m_cpKeyCache.insert accessPolicy k }
  | .attributes attrList, k =>
    { c with m_kpKeyCache := c.m_kpKeyCache.insert (attStr attrList) k }

theorem kept_keep (c : CacheProducer) (e : EncryptBy) (k : ContentKey × List Data) :
    (c.keep e k).kept e = some ((c.kept e).getD k) := by
  cases e with
  | policy accessPolicy => simp [kept, keep]
  | attributes attributes => simp [kept, keep]

theorem keep_of_kept {c : CacheProducer} {e : EncryptBy} {w : ContentKey × List Data}
    (h : c.kept e = some w) (k : ContentKey × List Data) : c.keep e k = c := by
  cases e with
  | policy accessPolicy => rw [keep, PartialMap.insert_of_some h]
  | attributes attributes => rw [keep, PartialMap.insert_of_some h]

@[simp] theorem producer_keep (c : CacheProducer) (e : EncryptBy) (k : ContentKey × List Data) :
    (c.keep e k).producer = c.producer := by
  cases e <;> rfl

end CacheProducer

namespace ProduceCall

/-- The call on a `CacheProducer`. -/
def run (abe : OpenAbe) (call : ProduceCall) :
    Prog CacheProducer Exn Empty (List Data × List Data) :=
  match call.encryptBy with
  | .policy accessPolicy =>
    CacheProducer.producePolicy abe call.dataName accessPolicy call.content call.word call.seed
  | .attributes attributes =>
    CacheProducer.produceAttributes abe call.dataName attributes call.content call.word call.seed

/-- What generating a key for the call makes: nothing where it returns nothing or throws. -/
def made (abe : OpenAbe) (producer : Producer) (call : ProduceCall) :
    Option (ContentKey × List Data) :=
  match producer.ckDataGen abe call.encryptBy defaultMaxSegmentSize call.word call.seed with
  | .ok (some key, ckData) => if ckData = [] then none else some (key, ckData)
  | _ => none

/-- The state the call leaves. -/
def keepMade (abe : OpenAbe) (call : ProduceCall) (c : CacheProducer) : CacheProducer :=
  match call.made abe c.producer with
  | some key => c.keep call.encryptBy key
  | none => c

/-- What a call leaves, and what it used when it returns packets. -/
structure Ends (abe : OpenAbe) (call : ProduceCall) (c : CacheProducer)
    (r : Except Exn (List Data × List Data)) (t : CacheProducer) : Prop where
  state : t = call.keepMade abe c
  used : ∀ data ckData, r = .ok (data, ckData) → ckData ≠ [] → ∃ key,
    t.kept call.encryptBy = some (key, ckData) ∧
      c.producer.produceWithKey abe key (contentKeyName ckData) call.dataName call.content
        defaultMaxSegmentSize call.seed = .ok data

variable {abe : OpenAbe} {call : ProduceCall} {c c₀ : CacheProducer}

theorem keepMade_of_kept {w : ContentKey × List Data} (h : c.kept call.encryptBy = some w) :
    call.keepMade abe c = c := by
  unfold keepMade
  split
  · exact CacheProducer.keep_of_kept h _
  · rfl

theorem keepMade_of_some {key : ContentKey × List Data}
    (h : call.made abe c.producer = some key) :
    call.keepMade abe c = c.keep call.encryptBy key := by
  rw [keepMade, h]

/-- A call that generates nothing returns no packets and leaves nothing. -/
theorem ends_of_unmade (h : call.made abe c.producer = none)
    {r : Except Exn (List Data × List Data)}
    (hr : ∀ data ckData, r = .ok (data, ckData) → ckData = []) : call.Ends abe c r c := by
  refine ⟨?_, fun data ckData hreturn hne => absurd (hr data ckData hreturn) hne⟩
  rw [keepMade, h]

/-- The end of a call, with its key in the cache. -/
theorem ends_packetsWith {key : ContentKey × List Data} (hstate : c = call.keepMade abe c₀)
    (hproducer : c.producer = c₀.producer) (hkept : c.kept call.encryptBy = some key) :
    call.Ends abe c₀ (CacheProducer.packetsWith abe call.dataName call.content call.seed key
      c.producer) c := by
  refine ⟨hstate, ?_⟩
  intro data ckData hreturn _
  obtain ⟨contentKey, segments⟩ := key
  cases segments with
  | nil => cases hreturn
  | cons first rest =>
    obtain ⟨packets, hpackets, hreturn⟩ := bind_eq_ok.mp hreturn
    cases hreturn
    exact ⟨contentKey, hkept, hproducer ▸ hpackets⟩

/-- Every call of `produce` is the same program, with the cache of its kind. -/
theorem run_eq_produceKept (abe : OpenAbe) (call : ProduceCall) :
    call.run abe = CacheProducer.produceKept abe (·.kept call.encryptBy)
      (fun c k => c.keep call.encryptBy k)
      (·.ckDataGen abe call.encryptBy defaultMaxSegmentSize call.word call.seed)
      call.dataName call.content call.seed := by
  unfold run
  cases call.encryptBy <;> rfl

/-- **One call.** -/
theorem wp_run (abe : OpenAbe) (call : ProduceCall) (c : CacheProducer) :
    (call.run abe).wp (Prog.silent _ _ _) (call.Ends abe c) c := by
  rw [run_eq_produceKept]
  apply CacheProducer.wp_produceKept_of
  · intro key hkept
    exact ends_packetsWith (keepMade_of_kept hkept).symm rfl hkept
  · intro e _ hgen
    refine ends_of_unmade (by rw [made, hgen]) ?_
    rintro data ckData ⟨⟩
  · rintro ⟨key, segments⟩ _ hgen hnone
    refine ends_of_unmade ?_ ?_
    · rw [made, hgen]
      cases key with
      | none => rfl
      | some key => exact if_pos (hnone.resolve_left (Option.some_ne_none key))
    · rintro data ckData ⟨⟩
      rfl
  · intro key segments hkept hgen hsegments
    have hmade : call.made abe c.producer = some (key, segments) := by
      rw [made, hgen]
      exact if_neg hsegments
    refine ends_packetsWith (keepMade_of_some hmade).symm ?_ ?_
    · exact CacheProducer.producer_keep c call.encryptBy (key, segments)
    · rw [CacheProducer.kept_keep, hkept]
      rfl

theorem state_run (c : CacheProducer) : ((call.run abe).exec c).2 = call.keepMade abe c :=
  ((Prog.wp_silent_iff _ _ _).mp (wp_run abe call c)).state

end ProduceCall

/-! ## Runs -/

namespace CacheProducer

/-- What is kept, by mode and string. -/
def keyCache (c : CacheProducer) : PartialMap (Scheme × Bytes) (ContentKey × List Data) :=
  ⟨fun
    | (.cpAbe, s) => c.m_cpKeyCache.find s
    | (.kpAbe, s) => c.m_kpKeyCache.find (s ++ ascii "|")⟩

variable {c : CacheProducer} {e : EncryptBy}

theorem attStr_eq {attrList : List Bytes} (h : (EncryptBy.attributes attrList).Given) :
    attStr attrList = (ascii "|").intercalate attrList ++ ascii "|" :=
  joined_eq fun heq => h (heq ▸ rfl)

/-- Both caches are one, keyed by the scheme and the string. -/
theorem find_keyCache (h : e.Given) : c.keyCache.find e.handed = c.kept e := by
  cases e with
  | policy accessPolicy => rfl
  | attributes attrList =>
    show c.m_kpKeyCache.find _ = c.m_kpKeyCache.find (attStr attrList)
    rw [attStr_eq h]

/-- The two caches do not meet, and the separator at the end tells no strings together. -/
theorem keyCache_keep (h : e.Given) (k : ContentKey × List Data) :
    (c.keep e k).keyCache = c.keyCache.insert e.handed k := by
  apply PartialMap.ext
  funext a
  obtain ⟨scheme, s⟩ := a
  rw [PartialMap.find_insert, find_keyCache h]
  cases e with
  | policy accessPolicy => cases scheme <;> simp [keyCache, keep, kept, EncryptBy.handed]
  | attributes attrList =>
    cases scheme <;> simp [keyCache, keep, kept, EncryptBy.handed, attStr_eq h]

/-- A step of a run. -/
inductive Step
  | produce (call : ProduceCall)
  | clearCache
deriving DecidableEq, Repr

variable (abe : OpenAbe) (producer : Producer)

def step (c : CacheProducer) : Step → CacheProducer
  | .produce call => ((call.run abe).exec c).2
  | .clearCache => c.clearCache

/-- The state after a list of steps. -/
def run (steps : List Step) : CacheProducer := Runs.after (step abe) (.initial producer) steps

@[simp] theorem run_concat (steps : List Step) (s : Step) :
    run abe producer (steps ++ [s]) = step abe (run abe producer steps) s :=
  Runs.after_concat _ _ steps s

/-- The attribute lists of a run are not empty. -/
def Given (steps : List Step) : Prop := ∀ call, .produce call ∈ steps → call.encryptBy.Given

/-- A step, as a request for what `Producer` generates for its arguments. -/
def Step.request : Step → Memo.Request (Scheme × Bytes) (ContentKey × List Data)
  | .produce call => .ask call.encryptBy.handed (call.made abe producer)
  | .clearCache => .forget

/-- The store of the keys that `Producer` generates, after a list of steps. -/
def ledger (steps : List Step) : Memo (Scheme × Bytes) (ContentKey × List Data) :=
  Memo.run (steps.map (Step.request abe producer))

/-- **The caches are the store.** -/
theorem keyCache_run {steps : List Step} (h : Given steps) :
    (run abe producer steps).producer = producer ∧
      (run abe producer steps).keyCache = (ledger abe producer steps).values := by
  induction steps using List.reverseRecOn with
  | nil =>
    refine ⟨rfl, PartialMap.ext ?_⟩
    funext ⟨scheme, s⟩
    cases scheme <;> rfl
  | append_singleton steps s ih =>
    obtain ⟨hproducer, hcache⟩ := ih fun call hcall => h call (by simp [hcall])
    rw [run_concat, ledger, List.map_append, List.map_singleton, Memo.run_concat]
    cases s with
    | clearCache =>
      refine ⟨hproducer, PartialMap.ext ?_⟩
      funext ⟨scheme, s⟩
      cases scheme <;> rfl
    | produce call =>
      have hcall : call.encryptBy.Given := h call (by simp)
      rw [step, ProduceCall.state_run, ProduceCall.keepMade, hproducer, Step.request]
      cases call.made abe producer with
      | none => exact ⟨hproducer, hcache⟩
      | some key =>
        rw [producer_keep, keyCache_keep hcall, hcache, Memo.values_step_made]
        exact ⟨hproducer, rfl⟩

end CacheProducer

end NacAbe
