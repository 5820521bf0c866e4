import NacAbe.Analysis.TrustAnchors
import NacAbe.Library.Runs

/-!
# Which certificate is trusted

An update sets one key name and a load that gets as far as the certificate list sets all of them,
to the certificates in front of the first entry that encodes none, however the load ends
(trust-config.cpp:46-56).  So a key name finds what the last event set that set it at all: an
update does not outlive such a load, nor a list the next update (`anchor_isLatest_iff`).

A load that meets an entry whose text is no certificate follows a null pointer, and there the
program ends or does what it likes.  The model goes on with the store as it stood; of runs of the
program it speaks up to such a load.
-/

set_option autoImplicit false

namespace NacAbe.TrustConfig

/-! ## Runs of a store -/

/-- What may happen to a store. -/
inductive Event
  | addOrUpdateCertificate (certificate : Certificate)
  | load (reader : ConfigReader) (fileName : String)

/-- The store after an event; a load that throws ends where it throws, one that follows a null
pointer where it does. -/
def next (config : TrustConfig) : Event → TrustConfig
  | .addOrUpdateCertificate certificate => config.addOrUpdateCertificate certificate
  | .load reader fileName => ((load reader fileName).exec config).2

/-! ## What a load sets -/

/-- The certificates of the entries in front of the first one that encodes none. -/
def leading (reader : ConfigReader) : List (Bytes × JsonSection) → List Certificate
  | [] => []
  | entry :: rest =>
    match entry.2.get "certificate" with
    | .error _ => []
    | .ok encoded =>
      match reader.loadCertificate encoded with
      | none => []
      | some cert => cert :: leading reader rest

/-- What a load puts in the place of the store, if it touches it. -/
def replacement (reader : ConfigReader) (fileName : String) : Option (List Certificate) :=
  match reader.readJson fileName with
  | .error _ => none
  | .ok jsonConfig =>
    if jsonConfig.children = [] then none
    else
      match jsonConfig.getChild "certificate-list" with
      | .error _ => some []
      | .ok caList => some (leading reader caList.children)

/-- What an event sets a key name to: a certificate, or none, or nothing at all. -/
def Event.sets (keyName : Name) : Event → Option (Option Certificate)
  | .addOrUpdateCertificate certificate =>
    if keyName = certificate.getKeyName then some (some certificate) else none
  | .load reader fileName =>
    (replacement reader fileName).map fun certs => certs.find? fun cert => cert.getKeyName = keyName

variable {reader : ConfigReader} {fileName : String} {config left : TrustConfig}

/-- Entries that encode certificates lead to them and to those of the rest. -/
theorem leading_append {before rest : List (Bytes × JsonSection)} {certs : List Certificate}
    (h : List.Forall₂ (Encodes reader) before certs) :
    leading reader (before ++ rest) = certs ++ leading reader rest := by
  induction h with
  | nil => rfl
  | cons hentry _ ih =>
    obtain ⟨encoded, hget, hload⟩ := hentry
    rw [List.cons_append, leading, hget]
    dsimp only
    rw [hload]
    dsimp only
    rw [ih, List.cons_append]

/-- A list that is found stands among children. -/
theorem children_ne_nil {jsonConfig caList : JsonSection}
    (h : jsonConfig.getChild "certificate-list" = .ok caList) : jsonConfig.children ≠ [] := by
  intro hnil
  rw [JsonSection.getChild, hnil] at h
  cases h

/-- A file with a certificate list replaces the anchors by its leading certificates. -/
theorem replacement_of_list {jsonConfig caList : JsonSection}
    (hread : reader.readJson fileName = .ok jsonConfig)
    (hlist : jsonConfig.getChild "certificate-list" = .ok caList) :
    replacement reader fileName = some (leading reader caList.children) := by
  rw [replacement, hread]
  dsimp only
  rw [if_neg (children_ne_nil hlist), hlist]

/-- **However a load ends,** it leaves the store or its replacement. -/
theorem left_of_loadOutcome {r : Except Exn Unit} (h : LoadOutcome reader fileName config r left) :
    left = match replacement reader fileName with
      | none => config
      | some certs => ofList certs := by
  cases h with
  | unread hread => rw [replacement, hread]
  | noData hread hempty =>
    rw [replacement, hread]
    dsimp only
    rw [if_pos hempty]
  | noList hread hdata hlist =>
    rw [replacement, hread]
    dsimp only
    rw [if_neg hdata, hlist]
  | noCertificate hread hlist hentries hcerts hget =>
    rw [replacement_of_list hread hlist, hentries, leading_append hcerts, leading, hget]
    dsimp only
    rw [List.append_nil]
  | undecodable hread hlist hentries hcerts hget hload =>
    rw [replacement_of_list hread hlist, hentries, leading_append hcerts, leading, hget]
    dsimp only
    rw [hload]
    dsimp only
    rw [List.append_nil]
  | @complete _ caList certs hread hlist hcerts =>
    have hall : leading reader (caList.children ++ []) = certs ++ leading reader [] :=
      leading_append hcerts
    rw [replacement_of_list hread hlist]
    rw [List.append_nil, leading, List.append_nil] at hall
    rw [hall]

/-- **One event** sets what it sets and leaves what it does not. -/
theorem find_next (config : TrustConfig) (e : Event) (keyName : Name) :
    (config.next e).findCertificateFromLocal keyName =
      (e.sets keyName).getD (config.findCertificateFromLocal keyName) := by
  cases e with
  | addOrUpdateCertificate certificate =>
    rw [next, findCertificateFromLocal_addOrUpdate, Event.sets]
    split
    · rfl
    · rfl
  | load reader fileName =>
    obtain ⟨⟨r, left⟩, hexec⟩ : ∃ ended, (load reader fileName).exec config = ended := ⟨_, rfl⟩
    have hnext : next config (.load reader fileName) = left := congrArg Prod.snd hexec
    rw [hnext, left_of_loadOutcome (loadOutcome_iff.mpr hexec), Event.sets]
    cases replacement reader fileName with
    | none => rfl
    | some certs => exact findCertificateFromLocal_ofList certs keyName

end NacAbe.TrustConfig

namespace NacAbe.Analysis

open TrustConfig

/-- **A key name finds what was set last.**  In every run of updates and loads, failed ones
included, a certificate is found for a key name if and only if some event set the key name to it and
no event after that has set the key name to anything. -/
theorem anchor_isLatest_iff (events : List Event) (keyName : Name) (cert : Certificate) :
    (Runs.after next initial events).findCertificateFromLocal keyName = some cert ↔
      ∃ before e later, events = before ++ e :: later ∧ e.sets keyName = some (some cert) ∧
        ∀ e' ∈ later, e'.sets keyName = none := by
  have hinit : initial.findCertificateFromLocal keyName ≠ some cert := by
    rintro ⟨⟩
  exact Runs.read_after_iff (fun config : TrustConfig => config.findCertificateFromLocal keyName)
    (fun config e => find_next config e keyName) hinit events

/-- A file without a list takes the place of what was added before. -/
example : (Runs.after next initial [.addOrUpdateCertificate (.sample (ascii "c") [9]),
    .load (singleChild "anchors" ⟨[], []⟩) "trust.json"]).findCertificateFromLocal
      (Certificate.sample (ascii "c") [9]).getKeyName = none := by
  decide

end NacAbe.Analysis
