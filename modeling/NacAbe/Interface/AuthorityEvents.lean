import NacAbe.Program.AttributeAuthority

/-!
# What one event does to an authority

`Outcome` lists the ways an event can leave the state, with what is known in each of
them, and `next_outcome` says there are no others.  The invariants of whole runs are
proved from this list; none of them looks into the handlers again.

A generated object enters the list as a `Generation` that is `Sealed`: its block is
the private key encrypted under the certificate's public key and its segments are
that block cut to size.
-/

set_option autoImplicit false

namespace NacAbe

open AttributeAuthority

variable {Token : Type} (keyGen : KeyGen Token) (crypto : Crypto)

/-- `getPrivateKey(identityName)` can yield `prvKey`, from `token`. -/
structure AttributeAuthority.KeyFor (aa : AttributeAuthority Token) (identityName : Name)
    (token : Token) (prvKey : PrivateKey) : Prop where
  token_eq : aa.m_tokens.find identityName = some token
  key_eq : ∃ seed, keyGen aa.m_pubParams aa.m_masterKey token seed = .ok prvKey

/-- The object is the private key encrypted to the certificate, in segments. -/
structure Generation.Sealed (maxSegmentSize : ℕ) (g : Generation) : Prop where
  block_eq : ∃ seed, encryptDataContentWithCK crypto g.prvKey.toBuffer g.cert.getPublicKey seed
    = .ok g.dkBlock
  segments_eq : segment g.dkBlock.encode g.objName maxSegmentSize = .ok g.dkSegments

/-- What a segment fetcher makes of the segments is the encoded block. -/
theorem Generation.Sealed.reassemble {crypto : Crypto} {maxSegmentSize : ℕ} {g : Generation}
    (h : g.Sealed crypto maxSegmentSize) : NacAbe.reassemble g.dkSegments = g.dkBlock.encode :=
  reassemble_segment h.segments_eq

namespace AttributeAuthority

/-- The state `generateDecryptionKeySegments` leaves. -/
def store (aa : AttributeAuthority Token) (token : Token) (g : Generation) :
    AttributeAuthority Token :=
  { aa with
    m_segmentMap := aa.m_segmentMap.insert g.objName g.dkSegments
    log := aa.log ++ [.keygen g.cert.getIdentity token g.prvKey, .generated g] }

/-- The object name a request event would give what it generates. -/
def Event.objName : Event Token → Option Name
  | .decryptionKeyRequest request now _ => some (request.name ++ [Component.fromVersion now])
  | .certificateData _ _ _ _ _ requestRead now _ =>
    some (requestRead ++ [Component.fromVersion now])
  | _ => none

/-- Where the certificate an event encrypts to comes from: the local store, under the
key name that is asked for, or the network, accepted in answer to that key name. -/
def Event.Supplies (aa : AttributeAuthority Token) (cert : Certificate) : Event Token → Prop
  | .decryptionKeyRequest request _ _ => ∃ keyName,
      aa.supposedKeyName request.name = .ok keyName ∧
      aa.m_trustConfig.findCertificateFromLocal keyName = some cert
  | .certificateData keyName data digest _ accepted _ _ _ =>
      accepted = true ∧ cert.data = data ∧ keyName ∈ aa.fetches ∧
      keyName <+: data.fullName digest
  | _ => False

/-- The ways an event can leave the state. -/
inductive Outcome (aa : AttributeAuthority Token) (e : Event Token) :
    AttributeAuthority Token → Prop
  | addedPolicy (identityName : Name) (token : Token)
      (he : e = .addNewPolicy identityName token) :
      Outcome aa e { aa with m_tokens := aa.m_tokens.insert identityName token }
  | addedPolicyCert (cert : Certificate) (token : Token)
      (he : e = .addNewPolicyCert cert token) :
      Outcome aa e { aa with
        m_trustConfig := aa.m_trustConfig.addOrUpdateCertificate cert
        m_tokens := aa.m_tokens.insert cert.getIdentity token }
  /-- Nothing but, possibly, the end of a certificate fetch: also what a handler that
  throws leaves. -/
  | ignored (fetches : List Name) (hf : fetches ⊆ aa.fetches) :
      Outcome aa e { aa with fetches }
  | requested (keyName : Name) (hk : isValidKeyName keyName = true) :
      Outcome aa e { aa with
        fetches := keyName :: aa.fetches
        log := aa.log ++ [.expressInterest keyName] }
  | replied (interest : Interest) (now : ℕ) (he : e = .publicParamsRequest interest now) :
      Outcome aa e (aa.record [.put (aa.publicParamsData interest now)])
  /-- Stored segments go out, those with the requested name. -/
  | served (N : Name) (segments sent : List Data) (hN : aa.m_segmentMap.find N = some segments)
      (hs : sent ⊆ segments) : Outcome aa e (aa.record (sent.map .put))
  /-- A private key was made and could not be encrypted or cut. -/
  | failed (fetches : List Name) (hf : fetches ⊆ aa.fetches) (identityName : Name)
      (token : Token) (prvKey : PrivateKey) (hk : aa.KeyFor keyGen identityName token prvKey) :
      Outcome aa e { aa with
        fetches, log := aa.log ++ [.keygen identityName token prvKey] }
  | generated (fetches : List Name) (hf : fetches ⊆ aa.fetches) (token : Token) (g : Generation)
      (data : Data) (hk : aa.KeyFor keyGen g.cert.getIdentity token g.prvKey)
      (hg : g.Sealed crypto aa.m_maxSegmentSize) (he : e.objName = some g.objName)
      (hc : e.Supplies aa g.cert) (hd : data ∈ g.dkSegments) :
      Outcome aa e ({ aa with fetches }.store token g |>.record [.put data])

variable {keyGen crypto} {aa aa' : AttributeAuthority Token} {e : Event Token}

/-- The members the constructor sets and nothing changes. -/
structure SameKeys (aa aa' : AttributeAuthority Token) : Prop where
  cert_eq : aa'.m_cert = aa.m_cert
  abeType_eq : aa'.m_abeType = aa.m_abeType
  maxSegmentSize_eq : aa'.m_maxSegmentSize = aa.m_maxSegmentSize
  pubParams_eq : aa'.m_pubParams = aa.m_pubParams
  masterKey_eq : aa'.m_masterKey = aa.m_masterKey

theorem SameKeys.trans {aa₁ aa₂ aa₃ : AttributeAuthority Token} (h : SameKeys aa₁ aa₂)
    (h' : SameKeys aa₂ aa₃) : SameKeys aa₁ aa₃ :=
  ⟨h'.cert_eq.trans h.cert_eq, h'.abeType_eq.trans h.abeType_eq,
    h'.maxSegmentSize_eq.trans h.maxSegmentSize_eq, h'.pubParams_eq.trans h.pubParams_eq,
    h'.masterKey_eq.trans h.masterKey_eq⟩

theorem Outcome.sameKeys (h : Outcome keyGen crypto aa e aa') : SameKeys aa aa' := by
  cases h <;> exact ⟨rfl, rfl, rfl, rfl, rfl⟩

/-- `generateDecryptionKeySegments` changes nothing, or only makes a key, or stores a
sealed generation, whose segments it returns. -/
theorem wp_generateDecryptionKeySegments
    {Q : Except Exn (List Data) → AttributeAuthority Token → Prop} (objName : Name)
    (cert : Certificate) (seed : ℕ) (hrefused : ∀ x, Q (.error x) aa)
    (hfailed : ∀ token prvKey x, aa.KeyFor keyGen cert.getIdentity token prvKey →
      Q (.error x) (aa.record [.keygen cert.getIdentity token prvKey]))
    (hstored : ∀ token (g : Generation), g.objName = objName → g.cert = cert →
      aa.KeyFor keyGen cert.getIdentity token g.prvKey → g.Sealed crypto aa.m_maxSegmentSize →
      Q (.ok g.dkSegments) (aa.store token g)) :
    (generateDecryptionKeySegments keyGen crypto objName cert seed).wp (Prog.silent _ _ _) Q
      aa := by
  simp only [generateDecryptionKeySegments, getPrivateKey, Prog.wp_bind, Prog.wp_get,
    Prog.andThen_ok]
  cases htoken : aa.m_tokens.find cert.getIdentity with
  | none => exact hrefused _
  | some token =>
    simp only [Prog.wp_bind, Prog.wp_liftM]
    cases hkey : keyGen aa.m_pubParams aa.m_masterKey token seed with
    | error x => exact hrefused x
    | ok prvKey =>
      have hfor : aa.KeyFor keyGen cert.getIdentity token prvKey := ⟨htoken, seed, hkey⟩
      simp only [Prog.andThen_ok, Prog.wp_bind, Prog.wp_modify, Prog.wp_pure, Prog.wp_liftM]
      cases hblock : encryptDataContentWithCK crypto prvKey.toBuffer cert.getPublicKey seed with
      | error x => exact hfailed token prvKey x hfor
      | ok dkBlock =>
        simp only [Prog.andThen_ok, Prog.wp_bind, Prog.wp_get, Prog.wp_liftM]
        cases hseg : segment dkBlock.encode objName
          (aa.record [.keygen cert.getIdentity token prvKey]).m_maxSegmentSize with
        | error x => exact hfailed token prvKey x hfor
        | ok dkSegments =>
          have h := hstored token ⟨objName, cert, prvKey, dkBlock, dkSegments⟩ rfl rfl hfor
            ⟨⟨seed, hblock⟩, hseg⟩
          simpa [store, record] using h

/-- Replying with a fresh key, whatever event asks for it. -/
theorem wp_replyDecryptionKey (fetches : List Name) (hf : fetches ⊆ aa.fetches)
    (requestName : Name) (cert : Certificate) (now seed : ℕ)
    (he : e.objName = some (requestName ++ [Component.fromVersion now]))
    (hc : e.Supplies aa cert) :
    (replyDecryptionKey keyGen crypto requestName cert now seed).wp (Prog.silent _ _ _)
      (fun _ t => Outcome keyGen crypto aa e t) { aa with fetches } := by
  rw [replyDecryptionKey, Prog.wp_bind]
  refine wp_generateDecryptionKeySegments _ cert seed (fun x => .ignored fetches hf) ?_ ?_
  · intro token prvKey x hk
    exact .failed fetches hf _ token prvKey ⟨hk.token_eq, hk.key_eq⟩
  · intro token g hobj hcert hk hg
    subst hcert
    have hne := segment_ne_nil hg.segments_eq
    rw [Prog.andThen_ok]
    cases hs : g.dkSegments with
    | nil => exact absurd hs hne
    | cons data rest =>
      exact .generated fetches hf token g data ⟨hk.token_eq, hk.key_eq⟩ ⟨hg.block_eq,
        hg.segments_eq⟩ (he.trans (congrArg some hobj.symm)) hc (by simp [hs])

/-- The loop over stored segments sends some of them. -/
theorem wp_serve {N : Name} {segments : List Data}
    (hN : aa.m_segmentMap.find N = some segments) (requestName : Name) :
    (Prog.forEach (fun data => if requestName = data.name then put data else pure ())
      segments : AuthorityM Token Unit).wp (Prog.silent _ _ _)
      (fun _ t => Outcome keyGen crypto aa e t) aa := by
  refine Prog.wp_forEach
    (fun rest t => ∃ sent, sent ++ rest ⊆ segments ∧ t = aa.record (sent.map .put)) ?_ ?_ ?_
  · rintro data rest t ⟨sent, hsub, rfl⟩
    split
    · refine ⟨sent ++ [data], by simpa using hsub, ?_⟩
      simp [record]
    · refine ⟨sent, fun d hd => hsub ?_, rfl⟩
      simp only [List.mem_append, List.mem_cons] at hd ⊢
      tauto
  · rintro t ⟨sent, hsub, rfl⟩
    exact .served N segments sent hN (by simpa using hsub)
  · exact ⟨[], by simp, by simp [record]⟩

/-- The base handler does what `Outcome` says. -/
theorem wp_onDecryptionKeyRequestBase (request : Interest) (now seed : ℕ) :
    (onDecryptionKeyRequestBase keyGen crypto request now seed).wp (Prog.silent _ _ _)
      (fun _ t => Outcome keyGen crypto aa (.decryptionKeyRequest request now seed) t) aa := by
  have hignored : Outcome keyGen crypto aa (.decryptionKeyRequest request now seed) aa :=
    .ignored aa.fetches (List.Subset.refl _)
  simp only [onDecryptionKeyRequestBase, Prog.wp_bind, Prog.wp_get, Prog.andThen_ok,
    Prog.wp_liftM]
  cases hkey : aa.supposedKeyName request.name with
  | error x => exact hignored
  | ok keyName =>
    simp only [Prog.andThen_ok, Prog.wp_bind, Prog.wp_liftM]
    cases isSegmentRequest request.name with
    | error x => exact hignored
    | ok segmentRequest =>
      rw [Prog.andThen_ok]
      cases segmentRequest with
      | true =>
        simp only [if_true, Prog.wp_bind, Prog.wp_get, Prog.andThen_ok]
        cases hN : aa.m_segmentMap.find (request.name.getPrefixNeg 1) with
        | none => exact hignored
        | some segments => exact wp_serve hN request.name
      | false =>
        simp only [Bool.false_eq_true, if_false]
        split
        · next hvalid =>
          simp only [extractIdentityFromKeyName, hvalid, if_true, Prog.wp_bind, Prog.wp_liftM,
            Prog.andThen_ok, Prog.wp_get]
          cases hlocal : aa.m_trustConfig.findCertificateFromLocal keyName with
          | some cert =>
            exact wp_replyDecryptionKey aa.fetches (List.Subset.refl _) request.name cert now seed
              rfl ⟨keyName, hkey, hlocal⟩
          | none =>
            simp only [findCertificateFromNetwork, Prog.wp_bind, Prog.wp_liftM, Interest.ofName]
            split
            · exact .requested keyName hvalid
            · exact hignored
        · exact hignored

/-- So does the handler of a mode, which may send a stored segment instead. -/
theorem wp_onDecryptionKeyRequest (request : Interest) (now seed : ℕ) :
    (onDecryptionKeyRequest keyGen crypto request now seed).wp (Prog.silent _ _ _)
      (fun _ t => Outcome keyGen crypto aa (.decryptionKeyRequest request now seed) t) aa := by
  have hignored : Outcome keyGen crypto aa (.decryptionKeyRequest request now seed) aa :=
    .ignored aa.fetches (List.Subset.refl _)
  simp only [onDecryptionKeyRequest, Prog.wp_bind, Prog.wp_get, Prog.andThen_ok, Prog.wp_liftM]
  cases aa.supposedKeyName request.name with
  | error x => exact hignored
  | ok keyName =>
    simp only [Prog.andThen_ok, Prog.wp_bind, Prog.wp_liftM]
    cases extractIdentityFromKeyName keyName with
    | error x => exact hignored
    | ok identityName =>
      simp only [Prog.andThen_ok, Prog.wp_bind, Prog.wp_get]
      split
      · exact wp_onDecryptionKeyRequestBase request now seed
      · exact hignored

/-- So does the handler of a certificate that was fetched. -/
theorem wp_onCertificateData (keyName : Name) (data : Data) (digest : Bytes)
    (keyPacket accepted : Bool) (requestRead : Name) (now seed : ℕ) :
    (onCertificateData keyGen crypto keyName data digest keyPacket accepted requestRead now seed).wp
      (Prog.silent _ _ _) (fun _ t => Outcome keyGen crypto aa
        (.certificateData keyName data digest keyPacket accepted requestRead now seed) t) aa := by
  simp only [onCertificateData, Prog.wp_bind, Prog.wp_get, Prog.andThen_ok]
  split
  · next hwait =>
    have hsub : aa.fetches.erase keyName ⊆ aa.fetches := List.erase_subset
    simp only [Prog.wp_bind, Prog.wp_modify, Prog.andThen_ok]
    cases accepted with
    | false => exact .ignored _ hsub
    | true =>
      simp only [if_true, Prog.wp_bind, Prog.wp_liftM]
      cases hcert : Certificate.ofData data keyPacket with
      | error x => exact .ignored _ hsub
      | ok cert =>
        exact wp_replyDecryptionKey _ hsub requestRead cert now seed rfl
          ⟨rfl, Certificate.data_of_ofData hcert, hwait.1,
            Interest.prefix_fullName_of_matchesData hwait.2⟩
  · exact .ignored aa.fetches (List.Subset.refl _)

/-- **Every event has one of the outcomes.** -/
theorem next_outcome (keyGen : KeyGen Token) (crypto : Crypto) (aa : AttributeAuthority Token)
    (e : Event Token) : Outcome keyGen crypto aa e (next keyGen crypto aa e) := by
  refine (Prog.wp_silent_iff (e.handle keyGen crypto)
    (fun _ t => Outcome keyGen crypto aa e t) aa).mp ?_
  cases e with
  | addNewPolicy identityName token => exact .addedPolicy identityName token rfl
  | addNewPolicyCert cert token => exact .addedPolicyCert cert token rfl
  | decryptionKeyRequest request now seed => exact wp_onDecryptionKeyRequest request now seed
  | certificateData keyName data digest keyPacket accepted requestRead now seed =>
    exact wp_onCertificateData keyName data digest keyPacket accepted requestRead now seed
  | certificateFailure keyName => exact .ignored _ List.erase_subset
  | publicParamsRequest interest now => exact .replied interest now rfl

/-- What is known of an object that an event generates. -/
theorem generated_inv {g : Generation} (h : .generated g ∈ newEffects keyGen crypto aa e) :
    e.objName = some g.objName ∧ e.Supplies aa g.cert ∧ g.Sealed crypto aa.m_maxSegmentSize ∧
      ∃ token, aa.KeyFor keyGen g.cert.getIdentity token g.prvKey := by
  have hout := next_outcome keyGen crypto aa e
  rw [newEffects] at h
  generalize next keyGen crypto aa e = aa' at h hout
  cases hout with
  | generated fetches hf token g' data hk hg he hc hd =>
    simp only [store, record, List.append_assoc, List.drop_left] at h
    obtain rfl : g = g' := by simpa using h
    exact ⟨he, hc, hg, token, hk⟩
  | _ => simp [record] at h

theorem run_sameKeys (keyGen : KeyGen Token) (crypto : Crypto) (aa : AttributeAuthority Token)
    (events : List (Event Token)) : SameKeys aa (run keyGen crypto aa events) := by
  refine Runs.invariant (next keyGen crypto) aa (fun _ aa' => SameKeys aa aa')
    ⟨rfl, rfl, rfl, rfl, rfl⟩ ?_ events (Runs.permitted_true events)
  intro events e _ _ ih
  have h := (next_outcome keyGen crypto (run keyGen crypto aa events) e).sameKeys
  exact ⟨h.cert_eq.trans ih.cert_eq, h.abeType_eq.trans ih.abeType_eq,
    h.maxSegmentSize_eq.trans ih.maxSegmentSize_eq, h.pubParams_eq.trans ih.pubParams_eq,
    h.masterKey_eq.trans ih.masterKey_eq⟩

end AttributeAuthority

end NacAbe
