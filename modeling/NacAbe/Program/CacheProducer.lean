import NacAbe.Program.Producer

/-!
# `CacheProducer`

A producer that keeps the content key it has made for a policy or an attribute list
and uses it again.  Key and data go out in segments of the default size, whatever size
the caller asks for.
-/

set_option autoImplicit false

namespace NacAbe

/-- The default of `maxSegmentSize`. -/
def defaultMaxSegmentSize : ℕ := 1500

structure CacheProducer where
  producer : Producer
  m_cpKeyCache : PartialMap Policy (ContentKey × List Data)
  m_kpKeyCache : PartialMap Bytes (ContentKey × List Data)

namespace CacheProducer

def initial (producer : Producer) : CacheProducer := ⟨producer, .empty, .empty⟩

def clearCache (c : CacheProducer) : CacheProducer :=
  { c with m_cpKeyCache := .empty, m_kpKeyCache := .empty }

/-- The end of both `produce`, from a key that is in the cache. -/
def produceCached (abe : OpenAbe) (dataName : Name) (content : Bytes) (seed : ℕ)
    (key : ContentKey × List Data) : Prog CacheProducer Exn Empty (List Data × List Data) := do
  let c ← get
  match key.2 with
  | [] => throw .outOfRange
  | ckData :: _ =>
    let data ← (liftM (Producer.produceWithKey abe c.producer key.1 (ckData.name.getPrefixNeg 1)
      dataName content defaultMaxSegmentSize seed) : Prog CacheProducer Exn Empty (List Data))
    return (data, key.2)

/-- Both `produce`: use the key that is kept, or generate one and keep it. -/
def produceKept (abe : OpenAbe) (kept : CacheProducer → Option (ContentKey × List Data))
    (keep : CacheProducer → ContentKey × List Data → CacheProducer)
    (ckDataGen : Producer → Except Exn (Option ContentKey × List Data)) (dataName : Name)
    (content : Bytes) (seed : ℕ) : Prog CacheProducer Exn Empty (List Data × List Data) := do
  let c ← get
  match kept c with
  | some key => produceCached abe dataName content seed key
  | none =>
    let k ← (liftM (ckDataGen c.producer) :
      Prog CacheProducer Exn Empty (Option ContentKey × List Data))
    match k.1 with
    | none => return ([], [])
    | some contentKey =>
      if k.2 = [] then return ([], [])
      else
        modify fun c => keep c (contentKey, k.2)
        produceCached abe dataName content seed (contentKey, k.2)

/-- `produce` for a policy, cache-producer.cpp:34-51. -/
def producePolicy (abe : OpenAbe) (dataName : Name) (accessPolicy : Policy) (content : Bytes)
    (word seed : ℕ) : Prog CacheProducer Exn Empty (List Data × List Data) :=
  produceKept abe (fun c => c.m_cpKeyCache.find accessPolicy)
    (fun c k => { c with m_cpKeyCache := c.m_cpKeyCache.insert accessPolicy k })
    (fun producer => producer.ckDataGenPolicy abe accessPolicy defaultMaxSegmentSize word seed)
    dataName content seed

/-- `produce` for an attribute list, cache-producer.cpp:53-74. -/
def produceAttributes (abe : OpenAbe) (dataName : Name) (attributes : List Bytes)
    (content : Bytes) (word seed : ℕ) : Prog CacheProducer Exn Empty (List Data × List Data) :=
  let attStr := attributes.foldl (fun s i => s ++ i ++ ascii "|") []
  produceKept abe (fun c => c.m_kpKeyCache.find attStr)
    (fun c k => { c with m_kpKeyCache := c.m_kpKeyCache.insert attStr k })
    (fun producer => producer.ckDataGenAttributes abe attributes defaultMaxSegmentSize word seed)
    dataName content seed

/-- `produce` by data name, which calls the two above. -/
def produce (abe : OpenAbe) (dataNameSuffix : Name) (content : Bytes) (word seed : ℕ) :
    Prog CacheProducer Exn Empty (List Data × List Data) := do
  let c ← get
  Producer.produceMatched c.producer
    (fun policy => producePolicy abe dataNameSuffix policy content word seed)
    (fun attributes => produceAttributes abe dataNameSuffix attributes content word seed)
    dataNameSuffix

end CacheProducer

end NacAbe
