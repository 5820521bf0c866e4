import NacAbe.Interface.TrustLoads

/-!
# Loading trust anchors

`load` tests whether the file can be read and whether anything is in it before it touches the
store (trust-config.cpp:32-41).  `parse` empties the store first and tests afterwards whether
there is a certificate list and whether an entry has a certificate (trust-config.cpp:48-52): what
it has read by then stands in the place of the store.  Whether the text of an entry is a
certificate is not tested at all (trust-config.cpp:53).  A load is all or nothing where none of
this shows.
-/

set_option autoImplicit false

namespace NacAbe.TrustConfig

variable (reader : ConfigReader)

/-- Every key name finds a listed certificate of that key name, or nothing if none is listed. -/
def Installed (fileName : String) (config : TrustConfig) : Prop :=
  ∀ keyName, match config.findCertificateFromLocal keyName with
    | some cert => Listed reader fileName cert ∧ cert.getKeyName = keyName
    | none => ∀ cert, Listed reader fileName cert → cert.getKeyName ≠ keyName

/-- The load throws and leaves the store as it was, or returns and has installed the list. -/
def AllOrNothing (fileName : String) (config : TrustConfig) : Prop :=
  (∃ thrown, thrown ≠ .undefined ∧ (load reader fileName).exec config = (.error thrown, config)) ∨
    ∃ loaded, (load reader fileName).exec config = (.ok (), loaded) ∧
      Installed reader fileName loaded

/-- The load fails before it touches the store, or not at all, or where the store happens to hold
what has been read by then. -/
inductive Harmless (fileName : String) (config : TrustConfig) : Prop
  | unread {error : FileParserError} (hread : reader.readJson fileName = .error error)
  | noData {jsonConfig : JsonSection} (hread : reader.readJson fileName = .ok jsonConfig)
      (hempty : jsonConfig.children = [])
  | complete {jsonConfig caList : JsonSection} {certs : List Certificate}
      (hread : reader.readJson fileName = .ok jsonConfig)
      (hlist : jsonConfig.getChild "certificate-list" = .ok caList)
      (hcerts : List.Forall₂ (Encodes reader) caList.children certs)
  | noList {jsonConfig : JsonSection} (hread : reader.readJson fileName = .ok jsonConfig)
      (hlist : ∀ caList, jsonConfig.getChild "certificate-list" ≠ .ok caList)
      (hstore : config.HoldsFirst [])
  | noCertificate {jsonConfig caList : JsonSection} {certs : List Certificate}
      {before after : List (Bytes × JsonSection)} {entry : Bytes × JsonSection}
      (hread : reader.readJson fileName = .ok jsonConfig)
      (hlist : jsonConfig.getChild "certificate-list" = .ok caList)
      (hentries : caList.children = before ++ entry :: after)
      (hcerts : List.Forall₂ (Encodes reader) before certs)
      (hentry : ∀ encoded, entry.2.get "certificate" ≠ .ok encoded)
      (hstore : config.HoldsFirst certs)

variable {reader} {fileName : String} {config : TrustConfig}

/-! ## Loads that fail -/

/-- A load that fails is all or nothing if it throws and leaves the store. -/
theorem allOrNothing_iff_of_error {e : Exn} {left : TrustConfig}
    (h : (load reader fileName).exec config = (.error e, left)) :
    AllOrNothing reader fileName config ↔ e ≠ .undefined ∧ left = config := by
  unfold AllOrNothing
  rw [h]
  constructor
  · rintro (⟨thrown, hthrown, heq⟩ | ⟨loaded, heq, -⟩)
    · cases heq
      exact ⟨hthrown, rfl⟩
    · cases heq
  · rintro ⟨hthrown, rfl⟩
    exact Or.inl ⟨e, hthrown, rfl⟩

theorem allOrNothing_of_loadOutcome_error {e : Exn} {left : TrustConfig}
    (h : LoadOutcome reader fileName config (.error e) left) (he : e ≠ .undefined)
    (hleft : left = config) : AllOrNothing reader fileName config :=
  (allOrNothing_iff_of_error (exec_of_loadOutcome h)).mpr ⟨he, hleft⟩

/-! ## Loads that return -/

/-- A list that is read to its end is installed. -/
theorem installed_of_complete {jsonConfig caList : JsonSection} {certs : List Certificate}
    (hread : reader.readJson fileName = .ok jsonConfig)
    (hlist : jsonConfig.getChild "certificate-list" = .ok caList)
    (hcerts : List.Forall₂ (Encodes reader) caList.children certs) :
    Installed reader fileName (ofList certs) := by
  intro keyName
  split
  · next cert hfind =>
    obtain ⟨hmem, hname⟩ := mem_of_find_ofList hfind
    exact ⟨listed_of_mem hread hlist (List.append_nil _).symm hcerts hmem, hname⟩
  · next hnone =>
    intro cert hlisted
    exact getKeyName_ne_of_find_ofList hnone (mem_of_listed hread hlist hcerts hlisted)

/-! ## Both directions -/

/-- A harmless file is loaded as a whole or leaves the anchors. -/
theorem allOrNothing_of_harmless (h : Harmless reader fileName config) :
    AllOrNothing reader fileName config := by
  cases h with
  | unread hread => exact allOrNothing_of_loadOutcome_error (.unread hread) nofun rfl
  | noData hread hempty => exact allOrNothing_of_loadOutcome_error (.noData hread hempty) nofun rfl
  | complete hread hlist hcerts =>
    have hexec : (load reader fileName).exec config = _ :=
      exec_of_loadOutcome (.complete hread hlist hcerts)
    exact Or.inr ⟨_, hexec, installed_of_complete hread hlist hcerts⟩
  | @noList jsonConfig hread hlist hstore =>
    by_cases hempty : jsonConfig.children = []
    · exact allOrNothing_of_loadOutcome_error (.noData hread hempty) nofun rfl
    · cases hchild : jsonConfig.getChild "certificate-list" with
      | ok caList => exact absurd hchild (hlist caList)
      | error e =>
        exact allOrNothing_of_loadOutcome_error (.noList hread hempty hchild)
          (JsonSection.ne_undefined_of_getChild hchild) (holdsFirst_iff.mp hstore)
  | @noCertificate _ _ _ _ _ entry hread hlist hentries hcerts hentry hstore =>
    cases hget : entry.2.get "certificate" with
    | ok encoded => exact absurd hget (hentry encoded)
    | error e =>
      exact allOrNothing_of_loadOutcome_error (.noCertificate hread hlist hentries hcerts hget)
        (JsonSection.ne_undefined_of_get hget) (holdsFirst_iff.mp hstore)

/-- No other file is. -/
theorem harmless_of_allOrNothing (h : AllOrNothing reader fileName config) :
    Harmless reader fileName config := by
  obtain ⟨⟨r, left⟩, hexec⟩ : ∃ ended, (load reader fileName).exec config = ended := ⟨_, rfl⟩
  have houtcome := loadOutcome_iff.mpr hexec
  cases houtcome with
  | unread hread => exact .unread hread
  | noData hread hempty => exact .noData hread hempty
  | noList hread hdata hlist =>
    obtain ⟨-, hstore⟩ := (allOrNothing_iff_of_error hexec).mp h
    exact .noList hread (fun caList hok => nomatch hlist.symm.trans hok)
      (holdsFirst_iff.mpr hstore)
  | noCertificate hread hlist hentries hcerts hget =>
    obtain ⟨-, hstore⟩ := (allOrNothing_iff_of_error hexec).mp h
    exact .noCertificate hread hlist hentries hcerts
      (fun encoded hok => nomatch hget.symm.trans hok) (holdsFirst_iff.mpr hstore)
  | undecodable =>
    obtain ⟨hdefined, -⟩ := (allOrNothing_iff_of_error hexec).mp h
    exact absurd rfl hdefined
  | complete hread hlist hcerts => exact .complete hread hlist hcerts

end NacAbe.TrustConfig

namespace NacAbe.Analysis

open TrustConfig

/-- **Which loads are all or nothing.**  A load throws and leaves the store as it was, or returns
and has installed the list, exactly when it fails before it touches the store, or not at all, or
where the store happens to hold what has been read by then. -/
theorem load_isAllOrNothing_iff (reader : ConfigReader) (fileName : String)
    (config : TrustConfig) :
    AllOrNothing reader fileName config ↔ Harmless reader fileName config := by
  constructor
  · exact harmless_of_allOrNothing
  · exact allOrNothing_of_harmless

/-- A reader of a file with one child, under this key, that decodes no certificate. -/
def singleChild (key : String) (child : JsonSection) : ConfigReader :=
  ⟨fun _ => .ok ⟨[], [(ascii key, child)]⟩, fun _ => none⟩

/-- A list whose one entry has an empty certificate text. -/
def emptyCertificate : JsonSection := ⟨[], [([], ⟨[], [(ascii "certificate", ⟨[], []⟩)]⟩)]⟩

/-- A store with one certificate. -/
def singleCertificate : TrustConfig :=
  TrustConfig.initial.addOrUpdateCertificate (.sample (ascii "c") [9])

/-- Without a certificate list the store is lost, and a text that is no certificate is followed as
a null pointer. -/
theorem load_isNotAllOrNothing :
    ¬ AllOrNothing (singleChild "anchors" ⟨[], []⟩) "trust.json" singleCertificate ∧
    ¬ AllOrNothing (singleChild "certificate-list" emptyCertificate) "trust.json"
      singleCertificate := by
  constructor
  · intro h
    have hexec : (load (singleChild "anchors" ⟨[], []⟩) "trust.json").exec singleCertificate =
        (.error (.other "No such node (certificate-list)"), ofList []) := rfl
    obtain ⟨-, hstore⟩ := (allOrNothing_iff_of_error hexec).mp h
    have hfind : (ofList []).findCertificateFromLocal
        (Certificate.sample (ascii "c") [9]).getKeyName ≠ none := by
      rw [hstore]
      decide
    exact hfind rfl
  · intro h
    have hexec : (load (singleChild "certificate-list" emptyCertificate) "trust.json").exec
        singleCertificate = (.error .undefined, ofList []) := rfl
    obtain ⟨hdefined, -⟩ := (allOrNothing_iff_of_error hexec).mp h
    exact hdefined rfl

end NacAbe.Analysis
