import NacAbe.Interface.AuthorityEvents

/-!
# Which policy a decryption key is generated from

`addNewPolicy` writes `m_tokens` with `insert`, which keeps the token an identity
already has, while `TrustConfig::addOrUpdateCertificate`, called one line above, and
`Producer::addNewPolicy` replace what they find.  After a run `m_tokens` therefore
holds the *first* token each identity was given (`run_tokens`), and a key follows the
latest one exactly when the two agree (`keygen_follows_latest_iff`).
-/

set_option autoImplicit false

namespace NacAbe.Analysis

open NacAbe AttributeAuthority

variable {Token : Type}

/-- The identity and token an event authorises. -/
def policyOf : Event Token → Option (Name × Token)
  | .addNewPolicy identityName token => some (identityName, token)
  | .addNewPolicyCert cert token => some (cert.getIdentity, token)
  | _ => none

/-- The tokens given for an identity, in order. -/
def policiesFor (events : List (Event Token)) (identityName : Name) : List Token :=
  (events.filterMap policyOf).filterMap fun p => if p.1 = identityName then some p.2 else none

/-- The token of the most recent `addNewPolicy` for an identity. -/
def latestPolicy (events : List (Event Token)) (identityName : Name) : Option Token :=
  (policiesFor events identityName).getLast?

/-- The token of the first one. -/
def firstPolicy (events : List (Event Token)) (identityName : Name) : Option Token :=
  (policiesFor events identityName).head?

/-- A later policy of an identity does not replace its first. -/
theorem firstPolicy_concat (events : List (Event Token)) (e : Event Token) (identityName : Name) :
    firstPolicy (events ++ [e]) identityName =
      (firstPolicy events identityName).or
        ((policyOf e).bind fun p => if p.1 = identityName then some p.2 else none) := by
  rw [firstPolicy, policiesFor, List.filterMap_append, List.filterMap_append, List.head?_append]
  congr 1
  cases h : policyOf e with
  | none => simp [h]
  | some p =>
    by_cases hp : p.1 = identityName
    · simp [h, hp]
    · simp [h, hp]

variable {keyGen : KeyGen Token} {crypto : Crypto} {aa aa' : AttributeAuthority Token}
  {e : Event Token}

/-- What one event does to the token of an identity. -/
theorem tokens_of_outcome (h : Outcome keyGen crypto aa e aa') (identityName : Name)
    (hpolicy : policyOf e = none) :
    aa'.m_tokens.find identityName = aa.m_tokens.find identityName := by
  cases h with
  | addedPolicy _ _ he => subst he; cases hpolicy
  | addedPolicyCert _ _ he => subst he; cases hpolicy
  | _ => rfl

/-- A key an event makes comes from the token the identity has. -/
theorem keyFor_of_newEffects {identityName : Name} {token : Token} {prvKey : PrivateKey}
    (h : .keygen identityName token prvKey ∈ newEffects keyGen crypto aa e) :
    aa.KeyFor keyGen identityName token prvKey := by
  have hout := next_outcome keyGen crypto aa e
  rw [newEffects] at h
  generalize next keyGen crypto aa e = aa' at h hout
  cases hout with
  | failed _ _ identity tok prv hk =>
    simp only [List.drop_left, List.mem_singleton, AuthorityEffect.keygen.injEq] at h
    obtain ⟨rfl, rfl, rfl⟩ := h
    exact hk
  | generated _ _ tok g data hk =>
    simp only [store, record, List.append_assoc, List.drop_left] at h
    simp only [List.mem_append, List.mem_cons, List.not_mem_nil, or_false,
      AuthorityEffect.keygen.injEq, reduceCtorEq] at h
    obtain ⟨rfl, rfl, rfl⟩ := h
    exact hk
  | served N segments sent =>
    simp [record] at h
  | _ => simp [record] at h

/-- The step: the first token given is the one an identity keeps. -/
theorem next_tokens (events : List (Event Token)) (identityName : Name)
    (ih : ∀ I, aa.m_tokens.find I = firstPolicy events I) :
    (next keyGen crypto aa e).m_tokens.find identityName =
      firstPolicy (events ++ [e]) identityName := by
  rw [firstPolicy_concat, ← ih]
  have hinsert : ∀ (I : Name) (token : Token),
      (aa.m_tokens.insert I token).find identityName =
        (aa.m_tokens.find identityName).or (if I = identityName then some token else none) := by
    intro I token
    rw [PartialMap.find_insert]
    by_cases hI : identityName = I
    · subst hI
      cases aa.m_tokens.find identityName <;> simp
    · rw [if_neg hI, if_neg fun h => hI h.symm, Option.or_none]
  cases hp : policyOf e with
  | none =>
    rw [tokens_of_outcome (next_outcome keyGen crypto aa e) identityName hp]
    simp
  | some p =>
    cases e with
    | addNewPolicy I token =>
      cases hp
      exact hinsert I token
    | addNewPolicyCert cert token =>
      cases hp
      exact hinsert cert.getIdentity token
    | _ => cases hp

/-- **`m_tokens` holds the first token of every identity.** -/
theorem run_tokens (keyGen : KeyGen Token) (crypto : Crypto) (identityCert : Certificate)
    (abeType : AbeType) (maxSegmentSize : ℕ) (keys : PublicParams × MasterKey)
    (events : List (Event Token)) (identityName : Name) :
    (run keyGen crypto (initial identityCert abeType maxSegmentSize keys) events).m_tokens.find
      identityName = firstPolicy events identityName := by
  refine Runs.invariant (next keyGen crypto) _
    (fun events aa => ∀ I, aa.m_tokens.find I = firstPolicy events I) (fun I => rfl) ?_ events
    (Runs.permitted_true events) identityName
  intro events e _ _ ih I
  exact next_tokens events I ih

/-- **A key follows the latest authorisation exactly when** the first `addNewPolicy` for
its identity gave the same token as the latest.  The key is one that the event `e`
makes after the run `events`; `token` is what it is made from. -/
theorem keygen_follows_latest_iff (keyGen : KeyGen Token) (crypto : Crypto)
    (identityCert : Certificate) (abeType : AbeType) (maxSegmentSize : ℕ)
    (keys : PublicParams × MasterKey) (events : List (Event Token)) (e : Event Token)
    (identityName : Name) (token : Token) (prvKey : PrivateKey)
    (h : .keygen identityName token prvKey ∈ newEffects keyGen crypto
      (run keyGen crypto (initial identityCert abeType maxSegmentSize keys) events) e) :
    (∃ seed, keyGen keys.1 keys.2 token seed = .ok prvKey) ∧
      (latestPolicy events identityName = some token ↔
        firstPolicy events identityName = latestPolicy events identityName) := by
  have hk := keyFor_of_newEffects h
  have hsame := run_sameKeys keyGen crypto (initial identityCert abeType maxSegmentSize keys) events
  constructor
  · have hkey := hk.key_eq
    rw [hsame.pubParams_eq, hsame.masterKey_eq] at hkey
    exact hkey
  · have htoken := hk.token_eq
    rw [run_tokens] at htoken
    rw [htoken]
    exact eq_comm

/-! ## One consumer, two policies -/

def authorityCert : Certificate := .sample (ascii "a") [8]

def consumerCert : Certificate := .sample (ascii "c") [9]

/-- The DKEY Interest of `/c` to `/a`. -/
def consumerRequest : Interest :=
  ⟨decryptionKeyName authorityCert.getIdentity consumerCert.getKeyName, true, none, none⟩

/-- `/c` is authorised and asks once: its key follows the one policy there is. -/
theorem keygen_follows_only_policy :
    latestPolicy [.addNewPolicyCert consumerCert [ascii "x"]] consumerCert.getIdentity =
      some [ascii "x"] :=
  (keygen_follows_latest_iff (CpAttributeAuthority.keyGen mockAbe) mockCrypto authorityCert
    abeTypeCpAbe 1500 (⟨[1]⟩, ⟨[2]⟩) [.addNewPolicyCert consumerCert [ascii "x"]]
    (.decryptionKeyRequest consumerRequest 5 6) consumerCert.getIdentity [ascii "x"]
    ⟨ascii "x"⟩ (by decide)).2.mpr rfl

/-- `/c` is authorised for `x` and `y`, then its rights are reduced to `x`; the key it
asks for next is still made from `x` and `y`. -/
theorem keygen_keeps_revoked_attribute :
    ¬ ∀ (abe : OpenAbe) (crypto : Crypto) (identityCert : Certificate) (maxSegmentSize : ℕ)
        (keys : PublicParams × MasterKey) (events : List (Event (List Bytes)))
        (e : Event (List Bytes)) (identityName : Name) (token : List Bytes)
        (prvKey : PrivateKey),
        .keygen identityName token prvKey ∈ newEffects (CpAttributeAuthority.keyGen abe) crypto
          (run (CpAttributeAuthority.keyGen abe) crypto
            (initial identityCert abeTypeCpAbe maxSegmentSize keys) events) e →
        latestPolicy events identityName = some token := by
  intro h
  have hlatest := h mockAbe mockCrypto authorityCert 1500 (⟨[1]⟩, ⟨[2]⟩)
    [.addNewPolicyCert consumerCert [ascii "x", ascii "y"],
      .addNewPolicy consumerCert.getIdentity [ascii "x"]]
    (.decryptionKeyRequest consumerRequest 5 6) consumerCert.getIdentity [ascii "x", ascii "y"]
    ⟨ascii "x|y"⟩ (by decide)
  exact absurd hlatest (by decide)

end NacAbe.Analysis
