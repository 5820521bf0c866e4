import Mathlib.Data.List.Forall2
import NacAbe.Program.TrustConfig

/-!
# How a load of trust anchors ends

`LoadOutcome` says how `TrustConfig::load` ends and what it leaves, by what the file is like: a
load throws before it touches the store, or replaces the store by the certificates of the entries
in front of the first one that encodes none.  A load has exactly one outcome, the one it executes
to (`loadOutcome_iff`), so results on loads are case distinctions on it.
-/

set_option autoImplicit false

namespace NacAbe.TrustConfig

variable (reader : ConfigReader)

/-- The entry has a certificate text, which is the encoding of `cert`. -/
def Encodes (entry : Bytes × JsonSection) (cert : Certificate) : Prop :=
  ∃ encoded, entry.2.get "certificate" = .ok encoded ∧ reader.loadCertificate encoded = some cert

/-- The file lists the certificate. -/
def Listed (fileName : String) (cert : Certificate) : Prop :=
  ∃ jsonConfig caList entry, reader.readJson fileName = .ok jsonConfig ∧
    jsonConfig.getChild "certificate-list" = .ok caList ∧ entry ∈ caList.children ∧
    Encodes reader entry cert

/-- The store holds the first of the certificates for each of their key names, and nothing
else. -/
def HoldsFirst (config : TrustConfig) (certs : List Certificate) : Prop :=
  ∀ keyName, config.findCertificateFromLocal keyName =
    certs.find? fun cert => cert.getKeyName = keyName

/-- The store that the certificates have been inserted into. -/
def ofList (certs : List Certificate) : TrustConfig :=
  ⟨PartialMap.empty.insertAll Certificate.getKeyName certs⟩

/-- The ways a load can end. -/
inductive LoadOutcome (fileName : String) (config : TrustConfig) :
    Except Exn Unit → TrustConfig → Prop
  | unread {error : FileParserError} (hread : reader.readJson fileName = .error error) :
      LoadOutcome fileName config (.error (parseFailure fileName error)) config
  | noData {jsonConfig : JsonSection} (hread : reader.readJson fileName = .ok jsonConfig)
      (hempty : jsonConfig.children = []) :
      LoadOutcome fileName config (.error (noData fileName)) config
  | noList {jsonConfig : JsonSection} {e : Exn} (hread : reader.readJson fileName = .ok jsonConfig)
      (hdata : jsonConfig.children ≠ [])
      (hlist : jsonConfig.getChild "certificate-list" = .error e) :
      LoadOutcome fileName config (.error e) (ofList [])
  | noCertificate {jsonConfig caList : JsonSection} {certs : List Certificate}
      {before after : List (Bytes × JsonSection)} {entry : Bytes × JsonSection} {e : Exn}
      (hread : reader.readJson fileName = .ok jsonConfig)
      (hlist : jsonConfig.getChild "certificate-list" = .ok caList)
      (hentries : caList.children = before ++ entry :: after)
      (hcerts : List.Forall₂ (Encodes reader) before certs)
      (hget : entry.2.get "certificate" = .error e) :
      LoadOutcome fileName config (.error e) (ofList certs)
  /-- The pointer to the certificate is null. -/
  | undecodable {jsonConfig caList : JsonSection} {certs : List Certificate}
      {before after : List (Bytes × JsonSection)} {entry : Bytes × JsonSection} {encoded : Bytes}
      (hread : reader.readJson fileName = .ok jsonConfig)
      (hlist : jsonConfig.getChild "certificate-list" = .ok caList)
      (hentries : caList.children = before ++ entry :: after)
      (hcerts : List.Forall₂ (Encodes reader) before certs)
      (hget : entry.2.get "certificate" = .ok encoded)
      (hload : reader.loadCertificate encoded = none) :
      LoadOutcome fileName config (.error .undefined) (ofList certs)
  | complete {jsonConfig caList : JsonSection} {certs : List Certificate}
      (hread : reader.readJson fileName = .ok jsonConfig)
      (hlist : jsonConfig.getChild "certificate-list" = .ok caList)
      (hcerts : List.Forall₂ (Encodes reader) caList.children certs) :
      LoadOutcome fileName config (.ok ()) (ofList certs)

variable {reader} {fileName : String} {config : TrustConfig} {certs : List Certificate}

/-! ## The store -/

theorem findCertificateFromLocal_ofList (certs : List Certificate) (keyName : Name) :
    (ofList certs).findCertificateFromLocal keyName =
      certs.find? fun cert => cert.getKeyName = keyName := by
  simp [ofList, findCertificateFromLocal]

/-- A store holds the first of the certificates exactly when it is made from their list. -/
theorem holdsFirst_iff : config.HoldsFirst certs ↔ ofList certs = config := by
  constructor
  · intro h
    have hmap : (ofList certs).m_knownKeys = config.m_knownKeys := by
      apply PartialMap.ext
      funext keyName
      exact (findCertificateFromLocal_ofList certs keyName).trans (h keyName).symm
    exact congrArg TrustConfig.mk hmap
  · rintro rfl
    exact findCertificateFromLocal_ofList certs

/-- What such a store finds is one of the certificates, under its own key name. -/
theorem mem_of_find_ofList {keyName : Name} {cert : Certificate}
    (h : (ofList certs).findCertificateFromLocal keyName = some cert) :
    cert ∈ certs ∧ cert.getKeyName = keyName := by
  rw [findCertificateFromLocal_ofList] at h
  exact ⟨List.mem_of_find?_eq_some h, by simpa using List.find?_some h⟩

theorem getKeyName_ne_of_find_ofList {keyName : Name}
    (h : (ofList certs).findCertificateFromLocal keyName = none) {cert : Certificate}
    (hmem : cert ∈ certs) : cert.getKeyName ≠ keyName := by
  rw [findCertificateFromLocal_ofList, List.find?_eq_none] at h
  simpa using h cert hmem

/-! ## The entries -/

theorem Encodes.unique {entry : Bytes × JsonSection} {cert cert' : Certificate}
    (h : Encodes reader entry cert) (h' : Encodes reader entry cert') : cert = cert' := by
  obtain ⟨encoded, hget, hload⟩ := h
  obtain ⟨encoded', hget', hload'⟩ := h'
  obtain rfl : encoded = encoded' := Except.ok.inj (hget.symm.trans hget')
  exact Option.some.inj (hload.symm.trans hload')

/-- The certificates are those that the entries encode. -/
theorem mem_certs_iff {entries : List (Bytes × JsonSection)}
    (h : List.Forall₂ (Encodes reader) entries certs) (cert : Certificate) :
    cert ∈ certs ↔ ∃ entry ∈ entries, Encodes reader entry cert := by
  induction h with
  | nil => simp
  | @cons entry first entries certs hentry _ ih =>
    have hfirst : Encodes reader entry cert ↔ cert = first :=
      ⟨fun h => h.unique hentry, fun h => h ▸ hentry⟩
    simp only [List.mem_cons, exists_eq_or_imp, ih, hfirst]

/-- A list is read to its end, or to the first entry that does not encode a certificate. -/
theorem entries_cases (reader : ConfigReader) (entries : List (Bytes × JsonSection)) :
    (∃ certs, List.Forall₂ (Encodes reader) entries certs) ∨
      ∃ before certs entry after, entries = before ++ entry :: after ∧
        List.Forall₂ (Encodes reader) before certs ∧ ∀ cert, ¬ Encodes reader entry cert := by
  induction entries with
  | nil => exact Or.inl ⟨[], .nil⟩
  | cons entry rest ih =>
    by_cases hentry : ∃ cert, Encodes reader entry cert
    · obtain ⟨cert, hcert⟩ := hentry
      obtain ⟨certs, hcerts⟩ | ⟨before, certs, stop, after, rfl, hcerts, hstop⟩ := ih
      · exact Or.inl ⟨cert :: certs, hcerts.cons hcert⟩
      · exact Or.inr ⟨entry :: before, cert :: certs, stop, after, rfl, hcerts.cons hcert, hstop⟩
    · exact Or.inr ⟨[], [], entry, rest, rfl, .nil, fun cert h => hentry ⟨cert, h⟩⟩

/-- The certificates in front of an entry are listed. -/
theorem listed_of_mem {jsonConfig caList : JsonSection} {before after : List (Bytes × JsonSection)}
    (hread : reader.readJson fileName = .ok jsonConfig)
    (hlist : jsonConfig.getChild "certificate-list" = .ok caList)
    (hentries : caList.children = before ++ after)
    (hcerts : List.Forall₂ (Encodes reader) before certs) {cert : Certificate}
    (hmem : cert ∈ certs) : Listed reader fileName cert := by
  obtain ⟨entry, hentry, hencodes⟩ := (mem_certs_iff hcerts cert).mp hmem
  exact ⟨jsonConfig, caList, entry, hread, hlist, hentries ▸ List.mem_append_left after hentry,
    hencodes⟩

/-- If every entry encodes a certificate, these are all that are listed. -/
theorem mem_of_listed {jsonConfig caList : JsonSection}
    (hread : reader.readJson fileName = .ok jsonConfig)
    (hlist : jsonConfig.getChild "certificate-list" = .ok caList)
    (hcerts : List.Forall₂ (Encodes reader) caList.children certs) {cert : Certificate}
    (h : Listed reader fileName cert) : cert ∈ certs := by
  obtain ⟨jsonConfig', caList', entry, hread', hlist', hmem, hentry⟩ := h
  obtain rfl : jsonConfig = jsonConfig' := Except.ok.inj (hread.symm.trans hread')
  obtain rfl : caList = caList' := Except.ok.inj (hlist.symm.trans hlist')
  exact (mem_certs_iff hcerts cert).mpr ⟨entry, hmem, hentry⟩

/-! ## The loop -/

/-- One pass with the text of the entry. -/
theorem parseEntry_eq {entry : Bytes × JsonSection} {encoded : Bytes}
    (hget : entry.2.get "certificate" = .ok encoded) :
    parseEntry reader entry = match reader.loadCertificate encoded with
      | none => throw .undefined
      | some certItem => modify fun config =>
        { config with m_knownKeys := config.m_knownKeys.insert certItem.getKeyName certItem } := by
  unfold parseEntry
  rw [hget]
  rfl

/-- An entry that encodes a certificate inserts it. -/
theorem exec_forEach_cons {entry : Bytes × JsonSection} {cert : Certificate}
    (h : Encodes reader entry cert) (rest : List (Bytes × JsonSection)) (config : TrustConfig) :
    (Prog.forEach (parseEntry reader) (entry :: rest)).exec config =
      (Prog.forEach (parseEntry reader) rest).exec
        ⟨config.m_knownKeys.insert cert.getKeyName cert⟩ := by
  obtain ⟨encoded, hget, hload⟩ := h
  simp only [Prog.forEach, parseEntry_eq hget, hload]
  rfl

/-- Entries that encode certificates insert them all. -/
theorem exec_forEach_append {entries : List (Bytes × JsonSection)}
    (h : List.Forall₂ (Encodes reader) entries certs) (rest : List (Bytes × JsonSection))
    (config : TrustConfig) :
    (Prog.forEach (parseEntry reader) (entries ++ rest)).exec config =
      (Prog.forEach (parseEntry reader) rest).exec
        ⟨config.m_knownKeys.insertAll Certificate.getKeyName certs⟩ := by
  induction h generalizing config with
  | nil => rfl
  | cons hentry _ ih =>
    rw [List.cons_append, exec_forEach_cons hentry, ih]
    rfl

/-- A load comes to the loop with the certificates in front of the entries that remain. -/
theorem exec_load_append {jsonConfig caList : JsonSection}
    {before after : List (Bytes × JsonSection)}
    (hread : reader.readJson fileName = .ok jsonConfig)
    (hlist : jsonConfig.getChild "certificate-list" = .ok caList)
    (hentries : caList.children = before ++ after)
    (hcerts : List.Forall₂ (Encodes reader) before certs) (config : TrustConfig) :
    (load reader fileName).exec config =
      (Prog.forEach (parseEntry reader) after).exec (ofList certs) := by
  have hdata : jsonConfig.children.isEmpty = false := by
    by_contra hempty
    have hnil : jsonConfig.children = [] := by simpa using hempty
    rw [JsonSection.getChild, hnil] at hlist
    cases hlist
  have hload : (load reader fileName).exec config =
      (Prog.forEach (parseEntry reader) caList.children).exec initial := by
    simp only [load, hread, hdata, parse, hlist]
    rfl
  rw [hload, hentries, exec_forEach_append hcerts]
  rfl

/-! ## The outcomes -/

/-- An outcome is what the load executes to, -/
theorem exec_of_loadOutcome {r : Except Exn Unit} {left : TrustConfig}
    (h : LoadOutcome reader fileName config r left) :
    (load reader fileName).exec config = (r, left) := by
  cases h with
  | unread hread =>
    simp only [load, hread]
    rfl
  | noData hread hempty =>
    simp only [load, hread, hempty]
    rfl
  | noList hread hdata hlist =>
    have hfalse := List.isEmpty_eq_false_iff.mpr hdata
    simp only [load, hread, hfalse, parse, hlist]
    rfl
  | noCertificate hread hlist hentries hcerts hget =>
    rw [exec_load_append hread hlist hentries hcerts]
    simp only [Prog.forEach, parseEntry, hget]
    rfl
  | undecodable hread hlist hentries hcerts hget hload =>
    rw [exec_load_append hread hlist hentries hcerts]
    simp only [Prog.forEach, parseEntry_eq hget, hload]
    rfl
  | complete hread hlist hcerts =>
    rw [exec_load_append hread hlist (List.append_nil _).symm hcerts]
    rfl

/-- and every load has one. -/
theorem exists_loadOutcome (reader : ConfigReader) (fileName : String) (config : TrustConfig) :
    ∃ r left, LoadOutcome reader fileName config r left := by
  cases hread : reader.readJson fileName with
  | error error => exact ⟨_, _, .unread hread⟩
  | ok jsonConfig =>
    by_cases hdata : jsonConfig.children = []
    · exact ⟨_, _, .noData hread hdata⟩
    cases hlist : jsonConfig.getChild "certificate-list" with
    | error e => exact ⟨_, _, .noList hread hdata hlist⟩
    | ok caList =>
      obtain ⟨certs, hcerts⟩ | ⟨before, certs, entry, after, hentries, hcerts, hstop⟩ :=
        entries_cases reader caList.children
      · exact ⟨_, _, .complete hread hlist hcerts⟩
      cases hget : entry.2.get "certificate" with
      | error e => exact ⟨_, _, .noCertificate hread hlist hentries hcerts hget⟩
      | ok encoded =>
        cases hload : reader.loadCertificate encoded with
        | none => exact ⟨_, _, .undecodable hread hlist hentries hcerts hget hload⟩
        | some cert => exact absurd ⟨encoded, hget, hload⟩ (hstop cert)

/-- **A load executes to its outcome.** -/
theorem loadOutcome_iff {r : Except Exn Unit} {left : TrustConfig} :
    LoadOutcome reader fileName config r left ↔
      (load reader fileName).exec config = (r, left) := by
  constructor
  · exact exec_of_loadOutcome
  · intro h
    obtain ⟨r', left', houtcome⟩ := exists_loadOutcome reader fileName config
    rw [exec_of_loadOutcome houtcome] at h
    cases h
    exact houtcome

end NacAbe.TrustConfig
