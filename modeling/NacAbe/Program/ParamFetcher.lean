import NacAbe.Library.Reentrant
import NacAbe.Model.Packet
import NacAbe.Program.AbeSupport

/-!
# `ParamFetcher`

Fetches the public parameters and the ABE type of an authority, with retries.  The
Interests that are outstanding stand next to the members.
-/

set_option autoImplicit false

namespace NacAbe

structure ParamFetcher where
  m_attrAuthorityPrefix : Name
  m_interestTemplate : Interest
  m_retryCount : ℕ
  m_abeType : AbeType
  m_pubParamsCache : PublicParams
  outstanding : List Interest
deriving DecidableEq, Repr

/-- `MAX_RETRIES`. -/
def maxRetries : ℕ := 10

namespace ParamFetcher

def initial (attrAuthorityPrefix : Name) (interestTemplate : Interest) : ParamFetcher where
  m_attrAuthorityPrefix := attrAuthorityPrefix
  m_interestTemplate := interestTemplate
  m_retryCount := 0
  m_abeType := []
  m_pubParamsCache := ⟨[]⟩
  outstanding := []

/-- `getDefaultInterestTemplate`. -/
def defaultInterestTemplate : Interest := ⟨[], true, none, none⟩

/-- `fetchPublicParams`, param-fetcher.cpp:42-72. -/
def fetchPublicParams (paramsDigest : Bytes → Bytes) : Prog ParamFetcher Exn Empty Unit := do
  let fetcher ← get
  if maxRetries ≤ fetcher.m_retryCount then
    throw (.runtimeError "Failed to fetch public parameters after multiple attempts.")
  modify fun fetcher => { fetcher with m_retryCount := fetcher.m_retryCount + 1 }
  let interest ← fetcher.m_interestTemplate.setName paramsDigest
    (fetcher.m_attrAuthorityPrefix ++ [publicParamsComponent])
  modify fun fetcher => { fetcher with outstanding := interest :: fetcher.outstanding }

/-- The validator's answer in `onAttributePubParams`, param-fetcher.cpp:76-97: `none`
when it accepts the packet, the error when it does not.  `get` does not check its
index. -/
def onAttributePubParams (mem : Memory) (pubParamData : Data) (validationError : Option String) :
    Prog ParamFetcher Exn Empty Unit := do
  match validationError with
  | some info =>
    throw (.runtimeError ("Fetched public parameters cannot be authenticated: " ++ info))
  | none =>
    let fetcher ← get
    match pubParamData.name[fetcher.m_attrAuthorityPrefix.length + 1]? with
    | none => throw .undefined
    | some component =>
      modify fun fetcher => { fetcher with m_abeType := component.value }
      if component.value ≠ abeTypeCpAbe ∧ component.value ≠ abeTypeKpAbe then
        throw (.runtimeError "Fetched public parameters with unsupported ABE type")
      let pubParams ← PublicParams.fromBuffer mem pubParamData.content
      modify fun fetcher => { fetcher with m_pubParamsCache := pubParams }

/-- The continuation of an Interest that is answered. -/
def onData (mem : Memory) (interest : Interest) (pubParamData : Data)
    (validationError : Option String) : Prog ParamFetcher Exn Empty Unit := do
  modify fun fetcher =>
    { fetcher with outstanding := fetcher.outstanding.erase interest, m_retryCount := 0 }
  onAttributePubParams mem pubParamData validationError

/-- The continuation of an Interest that is nacked or times out. -/
def onNackOrTimeout (paramsDigest : Bytes → Bytes) (interest : Interest) :
    Prog ParamFetcher Exn Empty Unit := do
  modify fun fetcher => { fetcher with outstanding := fetcher.outstanding.erase interest }
  fetchPublicParams paramsDigest

end ParamFetcher

end NacAbe
