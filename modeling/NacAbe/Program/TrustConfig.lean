import NacAbe.Library.PartialMap
import NacAbe.Library.Reentrant
import NacAbe.Model.Packet

/-!
# `TrustConfig`

The certificates a component knows, keyed by key name.  `findCertificateFromNetwork`
is asynchronous; its Interest and continuation belong to the component that calls
it and are modelled there.
-/

set_option autoImplicit false

namespace NacAbe

/-! ## Configuration files -/

/-- `JsonSection`, a `boost::property_tree::ptree`: an element of an array has the empty
key, and the keys of an object may repeat. -/
structure JsonSection where
  data : Bytes
  children : List (Bytes × JsonSection)

namespace JsonSection

/-- `get_child` on a path of one key; of several children with the key it takes the first. -/
def getChild (json : JsonSection) (key : String) : Except Exn JsonSection :=
  match json.children.find? fun child => child.1 = ascii key with
  | some child => .ok child.2
  | none => .error (.other ("No such node (" ++ key ++ ")"))

/-- `get<std::string>`. -/
def get (json : JsonSection) (key : String) : Except Exn Bytes := do
  let child ← json.getChild key
  return child.data

/-- What `get_child` throws is an exception. -/
theorem ne_undefined_of_getChild {json : JsonSection} {key : String} {e : Exn}
    (h : json.getChild key = .error e) : e ≠ .undefined := by
  unfold getChild at h
  split at h
  · cases h
  · cases h
    nofun

/-- A missing key is an exception, not undefined. -/
theorem ne_undefined_of_get {json : JsonSection} {key : String} {e : Exn}
    (h : json.get key = .error e) : e ≠ .undefined := by
  unfold get at h
  cases hchild : json.getChild key with
  | ok child =>
    rw [hchild] at h
    cases h
  | error e' =>
    rw [hchild] at h
    cases h
    exact ne_undefined_of_getChild hchild

end JsonSection

/-- `boost::property_tree::file_parser_error`. -/
structure FileParserError where
  message : String
  line : ℕ

/-- What `load` reads with: `read_json`, and `io::load<security::Certificate>`, whose pointer
is null where the text is not the encoding of a certificate. -/
structure ConfigReader where
  readJson : String → Except FileParserError JsonSection
  loadCertificate : Bytes → Option Certificate

structure TrustConfig where
  m_knownKeys : PartialMap Name Certificate

namespace TrustConfig

def initial : TrustConfig := ⟨.empty⟩

/-- `addOrUpdateCertificate`: both branches set the entry of the certificate's key name. -/
def addOrUpdateCertificate (config : TrustConfig) (certificate : Certificate) : TrustConfig :=
  match config.m_knownKeys.find certificate.getKeyName with
  | some _ => ⟨config.m_knownKeys.assign certificate.getKeyName certificate⟩
  | none => ⟨config.m_knownKeys.insert certificate.getKeyName certificate⟩

def findCertificateFromLocal (config : TrustConfig) (keyName : Name) : Option Certificate :=
  config.m_knownKeys.find keyName

/-- What a lookup finds after an update. -/
theorem findCertificateFromLocal_addOrUpdate (config : TrustConfig) (certificate : Certificate)
    (keyName : Name) :
    (config.addOrUpdateCertificate certificate).findCertificateFromLocal keyName =
      if keyName = certificate.getKeyName then some certificate
      else config.findCertificateFromLocal keyName := by
  unfold addOrUpdateCertificate findCertificateFromLocal
  cases h : config.m_knownKeys.find certificate.getKeyName with
  | some cert => simp
  | none => simp [h]

/-! ## Loading -/

variable (reader : ConfigReader)

/-- One pass of the loop in `parse`, trust-config.cpp:52-54. -/
def parseEntry (entry : Bytes × JsonSection) : Prog TrustConfig Exn Empty Unit := do
  let encoded ← entry.2.get "certificate"
  match reader.loadCertificate encoded with
  -- The null pointer is followed without a test.
  | none => throw .undefined
  | some certItem =>
    modify fun config => { config with
      m_knownKeys := config.m_knownKeys.insert certItem.getKeyName certItem }

/-- `parse`, trust-config.cpp:46-56. -/
def parse (jsonConfig : JsonSection) : Prog TrustConfig Exn Empty Unit := do
  modify fun config => { config with m_knownKeys := .empty }
  let caList ← jsonConfig.getChild "certificate-list"
  Prog.forEach (parseEntry reader) caList.children

def parseFailure (fileName : String) (error : FileParserError) : Exn :=
  .runtimeError ("Failed to parse configuration file " ++ fileName ++ " " ++ error.message ++
    " line " ++ toString error.line)

def noData (fileName : String) : Exn :=
  .runtimeError ("Error processing configuration file: " ++ fileName ++ " no data")

/-- `load`, trust-config.cpp:29-43. -/
def load (fileName : String) : Prog TrustConfig Exn Empty Unit := do
  match reader.readJson fileName with
  | .error error => throw (parseFailure fileName error)
  | .ok jsonConfig =>
    if jsonConfig.children.isEmpty then throw (noData fileName)
    parse reader jsonConfig

end TrustConfig

end NacAbe
