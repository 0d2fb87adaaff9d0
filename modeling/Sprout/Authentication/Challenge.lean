import Sprout.Authentication.Lookup

/-!
# Challenges and the vectors they store

`create_challenge` reads the HSS's vector as AKA when it has an `aka` member and
as Digest otherwise, puts a `pj_strdup2` copy of the nonce's C string in the
`WWW-Authenticate` header, and stores the vector under the nonce string itself.
It never reads the vector's `aka.response` or `digest.ha1`. `user_lookup` reads
the vector back under the nonce of the response's first `Authorization` header.
The resync token `create_challenge` passes to the HSS comes from a scan of the
header's parameters that keeps the last one named `autn`.

## Implementation notes

`AuthVector` (with the model) is a vector as the HSS means to send it: one
variant, every field a string; `AuthVector.toValue` is its JSON. For such a
vector whose nonce and secret hold no NUL character, the response to its
challenge finds it again and gets the vector's own credential. An AKA challenge
with a NUL is stored under a key that the challenge's header does not name.
-/

namespace Sprout.Authentication

open Json Sip

/-- The vector without what the challenge has no use for: the `response` of its `aka`
member and the `ha1` of its `digest` member. Two vectors with one erasure differ at
most in those members, which either may lack. -/
def eraseSecrets (av : Value) : Value :=
  (av.updateMember "aka" (Value.eraseMember "response")).updateMember "digest"
    (Value.eraseMember "ha1")

/-- The challenge reads neither `aka.response` nor `digest.ha1`: a vector and its
erasure get the same header and nonce, or the same exception. -/
theorem challengeHdr_eraseSecrets (realm : String) (random : RandomString × RandomString)
    (av : Value) : challengeHdr realm random (eraseSecrets av) = challengeHdr realm random av := by
  have hI : (eraseSecrets av).isMember "aka" = av.isMember "aka" := by simp [eraseSecrets]
  have hA : (eraseSecrets av).member "aka" = (av.member "aka").map (Value.eraseMember "response") := by
    rw [eraseSecrets, Value.member_updateMember_of_ne (by decide), Value.member_updateMember rfl]
  have hD : (eraseSecrets av).member "digest" = (av.member "digest").map (Value.eraseMember "ha1") := by
    rw [eraseSecrets, Value.member_updateMember rfl, Value.member_updateMember_of_ne (by decide)]
  unfold challengeHdr
  rw [hI, hA, hD]
  cases av.member "aka" <;> cases av.member "digest" <;>
    simp (disch := decide) only [Option.map_some', Option.map_none', json_some, ok_bind,
      Value.member_eraseMember_of_ne]

/-- What `create_challenge` does with any answer of the HSS: NULL is a 403 without a
header and without a write; any other value either throws in jsoncpp or is
challenged with the given status and stored once, on the AKA path exactly when it
has an `aka` member. The outcome does not read the vector's `aka.response` or
`digest.ha1`: a vector that differs only there, or lacks them, throws the same
exception or gets the same header and nonce, and is the one stored. -/
theorem challenge_unless_null (cfg : Config) (authHdr : Option AuthorizationHdr) (rdata : RxData)
    (ans : Answers) (code : Nat) (store : AvStore) :
    (ans.authVector = none → createChallenge cfg authHdr rdata ans code store =
      .ok (⟨scForbidden, none⟩, store, [.getAuthVector (privateId authHdr rdata.toUri)
        (publicIdFromUri rdata.toUri) (resyncToken authHdr)])) ∧
    ∀ av, ans.authVector = some av →
      (∀ f, createChallenge cfg authHdr rdata ans code store = .error f → f = .jsonLogicError ∧
        ∀ av', eraseSecrets av' = eraseSecrets av →
          createChallenge cfg authHdr rdata { ans with authVector := some av' } code store = .error f) ∧
      ∀ r, createChallenge cfg authHdr rdata ans code store = .ok r →
        ∃ hdr nonce, r = (⟨code, some hdr⟩, store.setAv (privateId authHdr rdata.toUri) nonce av,
            [.getAuthVector (privateId authHdr rdata.toUri) (publicIdFromUri rdata.toUri)
              (resyncToken authHdr), .setAv (privateId authHdr rdata.toUri) nonce av]) ∧
          hdr.nonce = pjStrdup2 nonce ∧ (hdr.algorithm = strAkav1Md5 ↔ av.isMember "aka" = some true) ∧
          ∀ av', eraseSecrets av' = eraseSecrets av →
            createChallenge cfg authHdr rdata { ans with authVector := some av' } code store =
              .ok (⟨code, some hdr⟩, store.setAv (privateId authHdr rdata.toUri) nonce av',
                [.getAuthVector (privateId authHdr rdata.toUri) (publicIdFromUri rdata.toUri)
                  (resyncToken authHdr), .setAv (privateId authHdr rdata.toUri) nonce av']) := by
  refine ⟨createChallenge_of_none, fun av hv => ?_⟩
  have hsame : ∀ av', eraseSecrets av' = eraseSecrets av →
      challengeHdr cfg.realm ans.random av' = challengeHdr cfg.realm ans.random av := fun av' he => by
    rw [← challengeHdr_eraseSecrets, he, challengeHdr_eraseSecrets]
  rw [createChallenge_of_some hv]
  cases hc : challengeHdr cfg.realm ans.random av with
  | error f =>
      refine ⟨fun f' h => ?_, nofun⟩
      cases h
      exact ⟨challengeHdr_jsonOnly _ _ _ _ hc, fun av' he => by
        rw [createChallenge_of_some rfl, hsame av' he, hc]; rfl⟩
  | ok p =>
      refine ⟨nofun, fun r h => ?_⟩
      cases h
      obtain ⟨hn, halg⟩ := challengeHdr_eq_ok hc
      exact ⟨p.1, p.2, rfl, hn, halg, fun av' he => by
        rw [createChallenge_of_some rfl, hsame av' he, hc]; rfl⟩

/-- A Digest vector without `ha1` and a vector with both variants. -/
def vectorWithoutHa1 : Value := .object [("digest", .object [("qop", .string "auth")])]

def vectorWithBothVariants : Value :=
  .object [("aka", .object [("challenge", .string "abc123"), ("cryptkey", .string "ck"),
      ("integritykey", .string "ik"), ("response", .string "res")]),
    ("digest", .object [("qop", .string "auth"), ("ha1", .string "h")])]

/-- Both vectors are challenged and stored, the second as AKA; `user_lookup` then
throws on the first when the response to its challenge arrives. -/
theorem malformed_vectors_challenged :
    createChallenge ⟨"example.com", false⟩ none ⟨.register, [], "sip:alice@example.com"⟩
        ⟨some vectorWithoutHa1, (sampleRandom, sampleRandom), true⟩ scUnauthorized AvStore.empty =
      .ok (⟨scUnauthorized, some ⟨strDigest, "example.com", strMd5, sampleRandom.toString,
          sampleRandom.toString, "auth", false, []⟩⟩,
        AvStore.empty.setAv "alice@example.com" sampleRandom.toString vectorWithoutHa1,
        [.getAuthVector "alice@example.com" "sip:alice@example.com" "",
          .setAv "alice@example.com" sampleRandom.toString vectorWithoutHa1]) ∧
    userLookup (AvStore.empty.setAv "alice@example.com" sampleRandom.toString vectorWithoutHa1)
        ⟨"example.com", "alice@example.com",
          ⟨.register, [{ sampleHdr "example.com" sampleRandom.toString "r" with
            username := "alice@example.com" }], "sip:alice@example.com"⟩⟩ = .error .jsonLogicError ∧
    createChallenge ⟨"example.com", false⟩ none ⟨.register, [], "sip:alice@example.com"⟩
        ⟨some vectorWithBothVariants, (sampleRandom, sampleRandom), true⟩ scUnauthorized AvStore.empty =
      .ok (⟨scUnauthorized, some ⟨strDigest, "example.com", strAkav1Md5, "abc123",
          sampleRandom.toString, strAuth, false, [⟨strCk, "ck"⟩, ⟨strIk, "ik"⟩]⟩⟩,
        AvStore.empty.setAv "alice@example.com" "abc123" vectorWithBothVariants,
        [.getAuthVector "alice@example.com" "sip:alice@example.com" "",
          .setAv "alice@example.com" "abc123" vectorWithBothVariants]) :=
  ⟨rfl, rfl, rfl⟩

namespace AuthVector

/-- The secret the response is checked against: `aka.response` or `digest.ha1`. -/
def secret : AuthVector → String
  | aka _ _ _ r => r
  | digest _ h => h

def dataType : AuthVector → CredDataType
  | aka .. => .plainPasswd
  | digest .. => .digest

/-- The credential the vector is meant to give for a response to its challenge. -/
def cred (realm impi : String) (v : AuthVector) : CredInfo :=
  ⟨realm, "digest", impi, v.dataType, v.secret⟩

/-- The nonce the vector brings and its secret hold no NUL character. -/
def NulFree : AuthVector → Prop
  | aka c _ _ r => '\x00' ∉ c.data ∧ '\x00' ∉ r.data
  | digest _ h => '\x00' ∉ h.data

/-- A Digest vector's HA1, as `user_lookup` copies it with `pj_strdup2`, is the 32 bytes
`pjsip_auth_create_digest` asserts of a Digest credential. An AKA response is hashed
as a password, of any length. -/
def Ha1Sized : AuthVector → Prop
  | aka .. => True
  | digest _ h => (pjStrdup2 h).utf8ByteSize = 32

instance : DecidablePred Ha1Sized := fun v =>
  match v with
  | aka .. => isTrue trivial
  | digest _ h => inferInstanceAs (Decidable ((pjStrdup2 h).utf8ByteSize = 32))

/-- PJSIP gets the vector's secret whole and takes it whole: the `pj_strdup2` copy
`user_lookup` makes is the secret itself, and a Digest HA1 has its 32 bytes. -/
def SecretWhole (v : AuthVector) : Prop := '\x00' ∉ v.secret.data ∧ v.Ha1Sized

instance : DecidablePred SecretWhole := fun v =>
  inferInstanceAs (Decidable ('\x00' ∉ v.secret.data ∧ v.Ha1Sized))

theorem userLookup_toValue (v : AuthVector) {store : AvStore} {param : LookupCredParam}
    {hdr : AuthorizationHdr} (hh : param.rdata.findAuthorizationHdr = some hdr)
    (hg : store.getAv param.accName hdr.nonce = some v.toValue) :
    userLookup store param =
      .ok (.ok ⟨param.realm, "digest", param.accName, v.dataType, pjStrdup2 v.secret⟩) := by
  cases v <;> simp [userLookup, hh, hg, toValue] <;> rfl

theorem secret_no_nul {v : AuthVector} (hv : v.NulFree) : '\x00' ∉ v.secret.data := by
  cases v
  exacts [hv.2, hv]

theorem nonce_no_nul {v : AuthVector} (hv : v.NulFree) (random : RandomString × RandomString) :
    '\x00' ∉ (v.nonce random).data := by
  cases v
  exacts [hv.1, random.1.no_nul]

end AuthVector

section RoundTrip

variable {cfg : Config} {authHdr : Option AuthorizationHdr} {rdata : RxData} {ans : Answers}
  {code : Nat} {store : AvStore}

/-- For a vector whose nonce and secret hold no NUL, `create_challenge` stores it
under the nonce its header carries, and `user_lookup` on a response naming that
nonce, before the store changes, returns the vector's own credential. -/
theorem challenge_lookup_round_trip (v : AuthVector) (hv : v.NulFree)
    (hans : ans.authVector = some v.toValue) :
    ∃ hdr, createChallenge cfg authHdr rdata ans code store =
        .ok (⟨code, some hdr⟩, store.setAv (privateId authHdr rdata.toUri) (v.nonce ans.random) v.toValue,
          [.getAuthVector (privateId authHdr rdata.toUri) (publicIdFromUri rdata.toUri)
            (resyncToken authHdr), .setAv (privateId authHdr rdata.toUri) (v.nonce ans.random) v.toValue]) ∧
      hdr.nonce = v.nonce ans.random ∧
      ∀ param first, param.accName = privateId authHdr rdata.toUri →
        param.rdata.findAuthorizationHdr = some first → first.nonce = hdr.nonce →
        userLookup (store.setAv (privateId authHdr rdata.toUri) (v.nonce ans.random) v.toValue) param =
          .ok (.ok (v.cred param.realm param.accName)) := by
  obtain ⟨hdr, hc⟩ := v.challengeHdr_toValue cfg.realm ans.random
  have hn : hdr.nonce = v.nonce ans.random := by
    rw [(challengeHdr_eq_ok hc).1, pjStrdup2_of_no_nul (v.nonce_no_nul hv ans.random)]
  refine ⟨hdr, by rw [createChallenge_of_some hans, hc]; rfl, hn, fun param first hacc hh hf => ?_⟩
  rw [v.userLookup_toValue hh (by simp [hacc, hf, hn]), pjStrdup2_of_no_nul (v.secret_no_nul hv)]
  rfl

end RoundTrip

/-- PJSIP's verifier accepts the header in the realm when the key it reads holds a
vector whose secret holds no NUL and the response is the digest over that vector's
credential. -/
theorem authSrv_of_stored_vector (v : AuthVector) {md5 : String → String} {realm : String}
    {store : AvStore} {rdata : RxData} {hdr first : AuthorizationHdr}
    (hr : realmHdr realm rdata = some hdr) (hf : rdata.findAuthorizationHdr = some first)
    (hs : pjStricmp hdr.scheme strDigest = true) (hrealm : hdr.realm = realm)
    (hstore : store.getAv hdr.username first.nonce = some v.toValue) (hnul : '\x00' ∉ v.secret.data)
    (hdigest : hdr.response = createDigest md5 hdr.nonce hdr.nc hdr.cnonce hdr.qop hdr.uri realm
      (v.cred realm hdr.username) rdata.method.name) :
    authSrv md5 realm store rdata = .ok (.success, 200) := by
  have hl : userLookup store ⟨realm, hdr.username, rdata⟩ = .ok (.ok (v.cred realm hdr.username)) := by
    rw [v.userLookup_toValue hf hstore, pjStrdup2_of_no_nul hnul]; rfl
  rw [authSrv, authSrvVerify_of_lookup_ok md5 hr hs hl, authVerify_of_digest hs rfl hrealm hdigest]
  rfl

/-- The HSS's Digest vector goes through the challenge to a REGISTER without
credentials and back to its own credential. -/
theorem sampleDigestAv_round_trip :
    (AuthVector.digest "auth" sampleHa1).NulFree ∧
    ∃ hdr, createChallenge ⟨"example.com", false⟩ none ⟨.register, [], "sip:alice@example.com"⟩
        ⟨some sampleDigestAv, (sampleRandom, sampleRandom), true⟩ scUnauthorized AvStore.empty =
        .ok (⟨scUnauthorized, some hdr⟩,
          AvStore.empty.setAv "alice@example.com" sampleRandom.toString sampleDigestAv,
          [.getAuthVector "alice@example.com" "sip:alice@example.com" "",
            .setAv "alice@example.com" sampleRandom.toString sampleDigestAv]) ∧
      hdr.nonce = sampleRandom.toString ∧
      ∀ param first, param.accName = "alice@example.com" →
        param.rdata.findAuthorizationHdr = some first → first.nonce = hdr.nonce →
        userLookup (AvStore.empty.setAv "alice@example.com" sampleRandom.toString sampleDigestAv) param =
          .ok (.ok ⟨param.realm, "digest", param.accName, .digest, sampleHa1⟩) :=
  have hv : (AuthVector.digest "auth" sampleHa1).NulFree := show '\x00' ∉ sampleHa1.data by decide
  ⟨hv, challenge_lookup_round_trip (.digest "auth" sampleHa1) hv rfl⟩

/-- An AKA vector whose challenge holds a NUL character. -/
def nulChallengeVector : AuthVector := .aka "abc\x00def" "ck" "ik" "res"

/-- The challenge for it names the nonce `abc`, the vector is stored under
`abc\x00def`, and the response naming `abc` finds no vector. -/
theorem nul_challenge_not_found :
    ∃ hdr, createChallenge ⟨"example.com", false⟩ (some (sampleHdr "example.com" "" ""))
        ⟨.register, [sampleHdr "example.com" "" ""], "sip:alice@example.com"⟩
        ⟨some nulChallengeVector.toValue, (sampleRandom, sampleRandom), true⟩ scUnauthorized
        AvStore.empty =
      .ok (⟨scUnauthorized, some hdr⟩, AvStore.empty.setAv "alice" "abc\x00def" nulChallengeVector.toValue,
        [.getAuthVector "alice" "sip:alice@example.com" "",
          .setAv "alice" "abc\x00def" nulChallengeVector.toValue]) ∧
      hdr.nonce = "abc" ∧
      userLookup (AvStore.empty.setAv "alice" "abc\x00def" nulChallengeVector.toValue)
          ⟨"example.com", "alice", ⟨.register, [sampleHdr "example.com" "abc" "r"], "sip:alice@example.com"⟩⟩ =
        .ok (.error .eauthAccNotFound) :=
  ⟨_, rfl, rfl, rfl⟩

/-! ### The resync token -/

/-- The scan of lines 180-192, from any token: each parameter named `autn` up to case
overwrites it, so it ends with the value of the last one. -/
theorem foldl_autn_eq (params : List Param) (autn : String) :
    params.foldl (fun autn p => if pjStricmp p.name strAutn then p.value else autn) autn =
      (((params.filter fun p => pjStricmp p.name strAutn).getLast?).map Param.value).getD autn := by
  induction params generalizing autn with
  | nil => rfl
  | cons p ps ih =>
      rw [List.foldl_cons, ih]
      by_cases hp : pjStricmp p.name strAutn = true
      · rw [if_pos hp, List.filter_cons, if_pos hp, List.getLast?_cons]
        cases (ps.filter fun p => pjStricmp p.name strAutn).getLast? <;> rfl
      · rw [if_neg hp, List.filter_cons, if_neg hp]

/-- The token `create_challenge` passes to the HSS for a request with a header. -/
theorem resyncToken_eq_last (h : AuthorizationHdr) :
    resyncToken (some h) =
      (((h.otherParam.filter fun p => pjStricmp p.name strAutn).getLast?).map Param.value).getD "" :=
  foldl_autn_eq h.otherParam ""

/-- `pjsip_param_find` finds no parameter of a name exactly when none has it. -/
theorem pjsipParamFind_eq_none_iff (params : List Param) (name : String) :
    pjsipParamFind params name = none ↔
      (params.filter fun p => pjStricmp p.name name).getLast? = none := by
  simp [pjsipParamFind, List.find?_eq_none, List.filter_eq_nil_iff]

/-- For every header and parameter list, the resync token sent to the HSS is the value
of the last parameter named `autn` up to case, or empty when there is none; so
whenever the first and the last such parameters carry different values, it is not
the first one's. -/
theorem resync_token_from_last_autn (h : AuthorizationHdr) :
    resyncToken (some h) =
        (((h.otherParam.filter fun p => pjStricmp p.name strAutn).getLast?).map Param.value).getD "" ∧
      (((h.otherParam.filter fun p => pjStricmp p.name strAutn).getLast?).map Param.value ≠
          (pjsipParamFind h.otherParam strAutn).map Param.value →
        resyncToken (some h) ≠ ((pjsipParamFind h.otherParam strAutn).map Param.value).getD "") := by
  refine ⟨resyncToken_eq_last h, fun hdiff => ?_⟩
  rw [resyncToken_eq_last]
  cases hl : (h.otherParam.filter fun p => pjStricmp p.name strAutn).getLast? with
  | none =>
      rw [hl, (pjsipParamFind_eq_none_iff _ _).2 hl] at hdiff
      exact absurd rfl hdiff
  | some l =>
      cases hf : pjsipParamFind h.otherParam strAutn with
      | none => simp [(pjsipParamFind_eq_none_iff _ _).1 hf] at hl
      | some f =>
          rw [hl, hf] at hdiff
          exact fun e => hdiff (congrArg some e)

/-- A header with `autn=a1` and then `AUTN=a2`: the HSS is sent `a2`. -/
theorem repeated_autn_forwards_last :
    resyncToken (some { sampleHdr "example.com" "" "" with
        otherParam := [⟨"autn", "a1"⟩, ⟨"AUTN", "a2"⟩] }) = "a2" ∧
      resyncToken (some { sampleHdr "example.com" "" "" with
        otherParam := [⟨"autn", "a1"⟩, ⟨"AUTN", "a2"⟩] }) ≠ "a1" :=
  ⟨(resync_token_from_last_autn _).1, (resync_token_from_last_autn _).2 (by decide)⟩

end Sprout.Authentication
