import NacAbe.Program.AttributeAuthority

/-!
# How the DKEY handlers end

The handlers of a DKEY request and of the certificate that one has waited for look at the state
before they touch it, so how they end is a function of the state they start from: `answer` and
`certify`.  The results on what makes them throw are proved from these two.
-/

set_option autoImplicit false

namespace NacAbe.AttributeAuthority

variable {Token : Type} (keyGen : KeyGen Token) (crypto : Crypto) (aa : AttributeAuthority Token)

/-- How `generateDecryptionKeySegments` ends: the segments of the key, or an exception. -/
def issue (objName : Name) (cert : Certificate) (seed : ℕ) : Except Exn (List Data) :=
  match aa.m_tokens.find cert.getIdentity with
  | none => .error .outOfRange
  | some token => do
    let prvKey ← keyGen aa.m_pubParams aa.m_masterKey token seed
    let dkBlock ← encryptDataContentWithCK crypto prvKey.toBuffer cert.getPublicKey seed
    segment dkBlock.encode objName aa.m_maxSegmentSize

/-- How a reply ends. -/
def reply (requestName : Name) (cert : Certificate) (now seed : ℕ) : Except Exn Unit := do
  let _dkSegments ← issue keyGen crypto aa (requestName ++ [Component.fromVersion now]) cert seed
  return ()

/-- How a request ends. -/
def answer (request : Interest) (now seed : ℕ) : Except Exn Unit := do
  let keyName ← supposedKeyName aa request.name
  let identityName ← extractIdentityFromKeyName keyName
  if (aa.m_tokens.find identityName).isSome then
    if ← isSegmentRequest request.name then return ()
    else match aa.m_trustConfig.findCertificateFromLocal keyName with
      | some cert => reply keyGen crypto aa request.name cert now seed
      | none => do
        let _interest ← Interest.ofName keyName
        return ()
  else return ()

/-- How a certificate fetch ends. -/
def certify (keyName : Name) (data : Data) (digest : Bytes) (keyPacket accepted : Bool)
    (requestRead : Name) (now seed : ℕ) : Except Exn Unit :=
  if (keyName ∈ aa.fetches ∧ (⟨keyName, true, none, none⟩ : Interest).matchesData data digest) ∧
      accepted = true then do
    let cert ← Certificate.ofData data keyPacket
    reply keyGen crypto aa requestRead cert now seed
  else return ()

/-- A request that carries the key name of an identity with a token. -/
def Entitled (request : Interest) : Prop :=
  ∃ keyName, supposedKeyName aa request.name = .ok keyName ∧ isValidKeyName keyName = true ∧
    (aa.m_tokens.find (keyName.getPrefixNeg 2)).isSome = true

variable {aa}

/-- The result of a reply does not depend on the fetches. -/
theorem wp_replyDecryptionKey_result (requestName : Name) (cert : Certificate) (now seed : ℕ)
    (fetches : List Name) :
    (replyDecryptionKey keyGen crypto requestName cert now seed).wp (Prog.silent _ _ _)
      (fun r _ => r = reply keyGen crypto aa requestName cert now seed) { aa with fetches } := by
  simp only [replyDecryptionKey, generateDecryptionKeySegments, getPrivateKey, reply, issue,
    Prog.wp_bind, Prog.wp_get, Prog.andThen_ok]
  cases aa.m_tokens.find cert.getIdentity with
  | none => rfl
  | some token =>
    simp only [Prog.wp_bind, Prog.wp_liftM]
    cases keyGen aa.m_pubParams aa.m_masterKey token seed with
    | error e => rfl
    | ok prvKey =>
      simp only [Prog.andThen_ok, Prog.wp_bind, Prog.wp_modify, Prog.wp_pure, Prog.wp_liftM]
      rw [ok_bind]
      cases encryptDataContentWithCK crypto prvKey.toBuffer cert.getPublicKey seed with
      | error e => rfl
      | ok dkBlock =>
        simp only [Prog.andThen_ok, Prog.wp_bind, Prog.wp_get, Prog.wp_liftM, record, ok_bind]
        cases segment dkBlock.encode (requestName ++ [Component.fromVersion now])
          aa.m_maxSegmentSize with
        | error e => rfl
        | ok dkSegments =>
          cases dkSegments with
          | nil => rfl
          | cons data others => rfl

/-- The loop over stored segments returns. -/
theorem wp_serve_result (requestName : Name) (segments : List Data)
    (aa : AttributeAuthority Token) :
    (Prog.forEach (fun data => if requestName = data.name then put data else pure ())
      segments : AuthorityM Token Unit).wp (Prog.silent _ _ _) (fun r _ => r = .ok ()) aa := by
  refine Prog.wp_forEach (fun _ _ => True) ?_ (fun _ _ => rfl) trivial
  intro data others t _
  split
  · trivial
  · trivial

variable (aa)

/-- **A request ends as `answer` says, and changes nothing unless it is entitled.** -/
theorem wp_onDecryptionKeyRequest_result (request : Interest) (now seed : ℕ) :
    (onDecryptionKeyRequest keyGen crypto request now seed).wp (Prog.silent _ _ _)
      (fun r t => r = answer keyGen crypto aa request now seed ∧ (¬ Entitled aa request → t = aa))
      aa := by
  simp only [onDecryptionKeyRequest, answer, Prog.wp_bind, Prog.wp_get, Prog.andThen_ok,
    Prog.wp_liftM]
  cases hkeyName : supposedKeyName aa request.name with
  | error e => exact ⟨rfl, fun _ => rfl⟩
  | ok keyName =>
    simp only [Prog.andThen_ok, Prog.wp_bind, Prog.wp_liftM, extractIdentityFromKeyName, ok_bind]
    by_cases hvalid : isValidKeyName keyName = true
    · simp only [if_pos hvalid, Prog.andThen_ok, Prog.wp_bind, Prog.wp_get, ok_bind]
      by_cases htoken : (aa.m_tokens.find (keyName.getPrefixNeg 2)).isSome = true
      · have hentitled : Entitled aa request := ⟨keyName, hkeyName, hvalid, htoken⟩
        have hbase : (onDecryptionKeyRequestBase keyGen crypto request now seed).wp
            (Prog.silent _ _ _) (fun r _ => r = (do
              if ← isSegmentRequest request.name then return ()
              else match aa.m_trustConfig.findCertificateFromLocal keyName with
                | some cert => reply keyGen crypto aa request.name cert now seed
                | none => do
                  let _interest ← Interest.ofName keyName
                  return ())) aa := by
          simp only [onDecryptionKeyRequestBase, Prog.wp_bind, Prog.wp_get, Prog.andThen_ok,
            Prog.wp_liftM, hkeyName]
          cases isSegmentRequest request.name with
          | error e => rfl
          | ok segmentRequest =>
            cases segmentRequest with
            | true =>
              simp only [Prog.andThen_ok, if_true, Prog.wp_bind, Prog.wp_get]
              cases aa.m_segmentMap.find (request.name.getPrefixNeg 1) with
              | none => rfl
              | some segments => exact wp_serve_result request.name segments aa
            | false =>
              simp only [Prog.andThen_ok, Bool.false_eq_true, if_false, hvalid, if_true,
                extractIdentityFromKeyName, Prog.wp_bind, Prog.wp_liftM, Prog.wp_get]
              cases aa.m_trustConfig.findCertificateFromLocal keyName with
              | none =>
                simp only [findCertificateFromNetwork, Prog.wp_bind, Prog.wp_liftM]
                cases Interest.ofName keyName with
                | error e => rfl
                | ok interest => rfl
              | some cert =>
                exact wp_replyDecryptionKey_result keyGen crypto request.name cert now seed
                  aa.fetches
        rw [if_pos htoken, if_pos htoken]
        exact Prog.wp_mono (fun _ _ hr => ⟨hr, fun hnot => absurd hentitled hnot⟩) hbase
      · rw [if_neg htoken, if_neg htoken]
        exact ⟨rfl, fun _ => rfl⟩
    · simp only [if_neg hvalid]
      exact ⟨rfl, fun _ => rfl⟩

/-- **A certificate fetch ends as `certify` says.** -/
theorem wp_onCertificateData_result (keyName : Name) (data : Data) (digest : Bytes)
    (keyPacket accepted : Bool) (requestRead : Name) (now seed : ℕ) :
    (onCertificateData keyGen crypto keyName data digest keyPacket accepted requestRead now seed).wp
      (Prog.silent _ _ _) (fun r _ => r = certify keyGen crypto aa keyName data digest keyPacket
        accepted requestRead now seed) aa := by
  simp only [onCertificateData, certify, Prog.wp_bind, Prog.wp_get, Prog.andThen_ok]
  split
  · next hwait =>
    simp only [Prog.wp_bind, Prog.wp_modify, Prog.andThen_ok, hwait, true_and]
    cases accepted with
    | false => rfl
    | true =>
      simp only [if_true, Prog.wp_bind, Prog.wp_liftM]
      cases Certificate.ofData data keyPacket with
      | error e => rfl
      | ok cert => exact wp_replyDecryptionKey_result keyGen crypto requestRead cert now seed _
  · next hwait =>
    rw [if_neg fun h => hwait h.1]
    rfl

end NacAbe.AttributeAuthority
