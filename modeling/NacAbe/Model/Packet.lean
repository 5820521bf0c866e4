import NacAbe.Library.Chunks
import NacAbe.Model.Name

/-!
# Packets

Interests, Data and certificates with the fields the source reads, and the
segmenter that cuts a content over Data packets.  A certificate is a Data packet
whose name follows the certificate naming convention; the library refuses to
build one from any other packet.
-/

set_option autoImplicit false

namespace NacAbe

/-- `ndn::Interest`: the name, whether Data may carry a longer one, and, where there
are any, the application parameters and the signature. -/
structure Interest where
  name : Name
  canBePrefix : Bool
  applicationParameters : Option Bytes
  signature : Option Bytes
deriving DecidableEq, Repr, Inhabited

def isParametersSha256Digest (c : Component) : Bool :=
  c.type = tlvParametersSha256DigestComponent

/-- `Interest::setName`.  An Interest with application parameters carries their digest
in its name, in the place of a digest the name has or at its end. -/
def Interest.setName (paramsDigest : Bytes → Bytes) (interest : Interest) (name : Name) :
    Except Exn Interest :=
  if 1 < name.countP isParametersSha256Digest then .error .invalidArgument
  else match interest.applicationParameters with
    | none => .ok { interest with name }
    | some parameters =>
      let digest : Component := ⟨tlvParametersSha256DigestComponent, paramsDigest parameters⟩
      if name.any isParametersSha256Digest then
        .ok { interest with
          name := name.map fun c => if isParametersSha256Digest c then digest else c }
      else .ok { interest with name := name ++ [digest] }

/-- A name that an Interest can have: one digest of parameters at most. -/
def Name.Requestable (name : Name) : Prop := name.countP isParametersSha256Digest ≤ 1

instance (name : Name) : Decidable name.Requestable := inferInstanceAs (Decidable (_ ≤ _))

/-- Components that are no digests make no difference to that. -/
theorem Name.requestable_append {name rest : Name}
    (h : ∀ c ∈ rest, isParametersSha256Digest c = false) :
    (name ++ rest).Requestable ↔ name.Requestable := by
  have hrest : rest.countP isParametersSha256Digest = 0 := by
    rw [List.countP_eq_zero]
    intro c hc
    rw [h c hc]
    exact Bool.false_ne_true
  rw [Requestable, Requestable, List.countP_append, hrest, Nat.add_zero]

/-- `Interest(name)`, which sets the name of an Interest without parameters. -/
def Interest.ofName (name : Name) : Except Exn Interest :=
  if name.Requestable then .ok ⟨name, false, none, none⟩ else .error .invalidArgument

/-- `setInterestLifetime(milliseconds(lifetime))`; nothing reads the lifetime again. -/
def Interest.setInterestLifetime (interest : Interest) (lifetime : ℤ) : Except Exn Interest :=
  if lifetime < 0 then .error .invalidArgument else .ok interest

/-- `ndn::Data`: the name and the value of the content element. -/
structure Data where
  name : Name
  content : Bytes
deriving DecidableEq, Repr, Inhabited

/-- `getFullName()`: the name followed by the implicit digest.  A digest covers the
whole packet, signature and all, so it comes with the packet's arrival and is no
function of the two fields above. -/
def Data.fullName (data : Data) (digest : Bytes) : Name :=
  data.name ++ [⟨tlvImplicitSha256DigestComponent, digest⟩]

/-- `Interest::matchesData`. -/
def Interest.matchesData (interest : Interest) (data : Data) (digest : Bytes) : Bool :=
  if interest.name.length = data.name.length + 1 then interest.name = data.fullName digest
  else if interest.canBePrefix then interest.name.isPrefixOf data.name
  else interest.name = data.name

/-- A matching packet arrives under a name that extends the Interest's. -/
theorem Interest.prefix_fullName_of_matchesData {interest : Interest} {data : Data}
    {digest : Bytes} (h : interest.matchesData data digest = true) :
    interest.name <+: data.fullName digest := by
  have hdata : data.name <+: data.fullName digest := List.prefix_append _ _
  unfold matchesData at h
  split at h
  · have heq : interest.name = data.fullName digest := of_decide_eq_true h
    exact heq ▸ List.prefix_refl _
  · split at h
    · exact (List.isPrefixOf_iff_prefix.mp h).trans hdata
    · have heq : interest.name = data.name := of_decide_eq_true h
      rw [heq]
      exact hdata

/-- `security::Certificate`. -/
structure Certificate where
  data : Data
  valid : isValidCertName data.name = true
deriving DecidableEq, Repr

namespace Certificate

/-- `Certificate(data)`.  The library throws when the name is not a certificate's, and when the
packet is not a key's (`keyPacket`): the content type, the freshness period and whatever else the
constructor looks at come with the packet's arrival, as the digest does. -/
def ofData (data : Data) (keyPacket : Bool) : Except Exn Certificate :=
  if h : isValidCertName data.name = true then
    if keyPacket then .ok ⟨data, h⟩ else .error .tlvError
  else .error .tlvError

def getName (cert : Certificate) : Name := cert.data.name

def getKeyName (cert : Certificate) : Name := cert.data.name.getPrefixNeg 2

def getIdentity (cert : Certificate) : Name := cert.data.name.getPrefixNeg 4

def getPublicKey (cert : Certificate) : Bytes := cert.data.content

/-- A certificate of an identity of one component. -/
def sample (identity publicKey : Bytes) : Certificate where
  data := ⟨[Component.generic identity, keyComponent, Component.generic [1],
    Component.generic [2], Component.fromVersion 0], publicKey⟩
  valid := rfl

theorem data_of_ofData {data : Data} {keyPacket : Bool} {cert : Certificate}
    (h : ofData data keyPacket = .ok cert) : cert.data = data := by
  unfold ofData at h
  split at h
  · split at h
    · cases h; rfl
    · cases h
  · cases h

theorem isValidKeyName_getKeyName (cert : Certificate) : isValidKeyName cert.getKeyName = true :=
  (isValidKeyName_of_certName cert.valid).1

/-- The identity a certificate's key name belongs to is the certificate's own. -/
theorem extractIdentity_getKeyName (cert : Certificate) :
    extractIdentityFromKeyName cert.getKeyName = .ok cert.getIdentity := by
  rw [extractIdentityFromKeyName, if_pos cert.isValidKeyName_getKeyName]
  exact congrArg _ (isValidKeyName_of_certName cert.valid).2

end Certificate

/-! ## Segments -/

/-- `Segmenter::segment`: piece `i` of the content goes out under `dataName/<i>`.  A
buffer has fewer than `2 ^ 64` octets, and so has a list of pieces. -/
def segment (content : Bytes) (dataName : Name) (maxSegmentSize : ℕ) : Except Exn (List Data) :=
  if maxSegmentSize = 0 ∨ 2 ^ 64 ≤ content.length then .error .invalidArgument
  else .ok ((Chunks.chunks maxSegmentSize content).mapIdx fun i piece =>
    ⟨dataName ++ [Component.fromSegment i], piece⟩)

/-- What a SegmentFetcher hands over once it has all segments of an object. -/
def reassemble (segments : List Data) : Bytes := (segments.map Data.content).flatten

variable {content : Bytes} {dataName : Name} {maxSegmentSize : ℕ} {segments : List Data}

/-- The packets of an object: a piece of the content each, under the object's name and its number.
-/
theorem segment_eq_ok (h : segment content dataName maxSegmentSize = .ok segments) :
    segments = (Chunks.chunks maxSegmentSize content).mapIdx fun i piece =>
      ⟨dataName ++ [Component.fromSegment i], piece⟩ := by
  unfold segment at h
  split at h
  · cases h
  · cases h; rfl

theorem map_content_segment (h : segment content dataName maxSegmentSize = .ok segments) :
    segments.map Data.content = Chunks.chunks maxSegmentSize content := by
  rw [segment_eq_ok h]
  apply List.ext_getElem <;> simp

/-- Segmenting and reassembling gives the content back. -/
theorem reassemble_segment (h : segment content dataName maxSegmentSize = .ok segments) :
    reassemble segments = content := by
  rw [reassemble, map_content_segment h, Chunks.flatten_chunks]

theorem segment_ne_nil (h : segment content dataName maxSegmentSize = .ok segments) :
    segments ≠ [] := by
  rw [segment_eq_ok h]
  simpa using Chunks.chunks_ne_nil maxSegmentSize content

/-- Content that was segmented can be segmented in any other size. -/
theorem segment_resize (h : segment content dataName maxSegmentSize = .ok segments) {n : ℕ}
    (hn : n ≠ 0) : ∃ segments', segment content dataName n = .ok segments' := by
  unfold segment at h ⊢
  split at h
  · cases h
  · next hfits => exact ⟨_, if_neg (by omega)⟩

theorem length_lt_of_segment (h : segment content dataName maxSegmentSize = .ok segments) :
    content.length < 2 ^ 64 := by
  unfold segment at h
  split at h
  · cases h
  · omega

/-- Every segment is named by the object name and its number. -/
theorem name_of_mem_segment (h : segment content dataName maxSegmentSize = .ok segments)
    {data : Data} (hd : data ∈ segments) :
    ∃ i, data.name = dataName ++ [Component.fromSegment i] := by
  rw [segment_eq_ok h, List.mem_mapIdx] at hd
  obtain ⟨i, hi, rfl⟩ := hd
  exact ⟨i, rfl⟩

/-- Two segments of one content with the same name are the same segment. -/
theorem eq_of_mem_segment (h : segment content dataName maxSegmentSize = .ok segments)
    {data data' : Data} (hd : data ∈ segments) (hd' : data' ∈ segments)
    (hname : data.name = data'.name) : data = data' := by
  have hsmall : (Chunks.chunks maxSegmentSize content).length ≤ content.length + 1 :=
    Chunks.length_chunks_le maxSegmentSize content
  have hlen := length_lt_of_segment h
  rw [segment_eq_ok h, List.mem_mapIdx] at hd hd'
  obtain ⟨i, hi, rfl⟩ := hd
  obtain ⟨j, hj, rfl⟩ := hd'
  have hc : Component.fromSegment i = Component.fromSegment j := by simpa using hname
  have hij : i = j := Component.fromSegment_injective (by omega) (by omega) hc
  subst hij
  rfl

end NacAbe
