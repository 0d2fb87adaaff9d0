import Sprout.Authentication.Gate

/-!
# The key `user_lookup` reads

PJSIP's verifier checks the first `Authorization` header in the realm and passes
only that header's username to `user_lookup`, which takes the nonce from the
first `Authorization` header of the request, whatever its realm. The verifier's
answer therefore depends on the store at one key, and that key need not be the
one of the header whose response is checked. A key with no vector is
`PJSIP_EAUTHACCNOTFOUND`, which PJSIP answers with a 403 and
`authenticate_rx_request` sends as it is, without a challenge.
-/

namespace Sprout.Authentication

open Json Sip

section Key

variable {md5 : String → String} {realm : String} {rdata : RxData}

/-- The verifier reads the store at one key only: the username of the header in the
realm, with the nonce of the first header of the request. -/
theorem authSrv_congr {store store' : AvStore}
    (hk : ∀ h first, realmHdr realm rdata = some h → rdata.findAuthorizationHdr = some first →
      store.getAv h.username first.nonce = store'.getAv h.username first.nonce) :
    authSrv md5 realm store rdata = authSrv md5 realm store' rdata :=
  authSrvVerify_congr md5 fun h hr => userLookup_congr fun first hf => hk h first hr hf

/-- An accepted response was checked against a vector stored under the key the
verifier reads. -/
theorem authSrv_eq_success {store : AvStore} {sc : Nat}
    (h : authSrv md5 realm store rdata = .ok (.success, sc)) :
    ∃ hdr first av, realmHdr realm rdata = some hdr ∧ rdata.findAuthorizationHdr = some first ∧
      store.getAv hdr.username first.nonce = some av := by
  unfold authSrv at h
  cases hr : realmHdr realm rdata with
  | none => simp [authSrvVerify_of_no_realmHdr md5 hr] at h
  | some hdr =>
      obtain ⟨first, hf⟩ := findAuthorizationHdr_of_realmHdr hr
      cases hg : store.getAv hdr.username first.nonce with
      | some av => exact ⟨hdr, first, av, rfl, hf, hg⟩
      | none =>
          cases hs : pjStricmp hdr.scheme strDigest
          · simp [authSrvVerify_of_not_digest md5 hr hs] at h
          · simp [authSrvVerify_of_lookup_error md5 hr hs (userLookup_of_no_vector hf hg)] at h

end Key

/-- A Digest header for `alice` with the given realm, nonce and response. -/
def sampleHdr (realm nonce response : String) : AuthorizationHdr :=
  { scheme := strDigest, realm := realm, username := "alice", nonce := nonce,
    uri := "sip:example.com", response := response, qop := "", nc := "", cnonce := "",
    otherParam := [] }

/-- A HA1 as the HSS stores one: 32 hex digits. -/
def sampleHa1 : String := "939e7578ed9e3c518a452acee763bce9"

/-- A Digest vector with `qop` and `ha1`, as the HSS returns one. -/
def sampleDigestAv : Value :=
  .object [("digest", .object [("qop", .string "auth"), ("ha1", .string sampleHa1)])]

/-- A REGISTER whose first header is for another realm and names `nonce`, followed by
the realm's header with nonce `n0` and `response`. -/
def crossRealmRegister (nonce response : String) : RxData :=
  ⟨.register, [sampleHdr "other.net" nonce "x", sampleHdr "example.com" "n0" response],
    "sip:alice@example.com"⟩

/-- With a vector stored under nonce `n1` only, the request whose realm header names
`n0` gets the credential of the vector under `n1`: the key `user_lookup` reads is
not the key of the header the verifier checks. -/
theorem lookup_nonce_from_first_header :
    realmHdr "example.com" (crossRealmRegister "n1" "r") = some (sampleHdr "example.com" "n0" "r") ∧
    (AvStore.empty.setAv "alice" "n1" sampleDigestAv).getAv "alice" "n0" = none ∧
    userLookup (AvStore.empty.setAv "alice" "n1" sampleDigestAv)
        ⟨"example.com", "alice", crossRealmRegister "n1" "r"⟩ =
      .ok (.ok ⟨"example.com", "digest", "alice", .digest, sampleHa1⟩) :=
  ⟨rfl, rfl, rfl⟩

section Stale

variable {md5 : String → String} {cfg : Config} {ans : Answers} {rdata : RxData}
  {store : AvStore} {hdr : AuthorizationHdr}

/-- A REGISTER whose first header is a Digest header in the realm, with a response,
for a username and nonce with no vector in the store, is refused with a 403 and no
challenge: `PJSIP_EAUTHACCNOTFOUND` takes the branch for failed credentials. -/
theorem stale_nonce_gets_forbidden (hreg : rdata.method = .register)
    (hh : rdata.findAuthorizationHdr = some hdr) (hip : integrityProtected (some hdr) = false)
    (hrealm : pjStricmp hdr.realm cfg.realm = true) (hs : pjStricmp hdr.scheme strDigest = true)
    (hresp : hdr.response.isEmpty = false) (hstale : store.getAv hdr.username hdr.nonce = none) :
    authenticateRxRequest cfg (authSrv md5 cfg.realm) ans rdata store =
      .ok ⟨true, store, .authSrvVerify ::
        ((if cfg.analytics then [.authFailure hdr.username (aorFromUri rdata.toUri)] else []) ++
          [.respond ⟨scForbidden, none⟩])⟩ := by
  have hv : authSrv md5 cfg.realm store rdata = .ok (.eauthAccNotFound, scForbidden) :=
    authSrvVerify_of_lookup_error md5 (realmHdr_of_first hh hrealm) hs (userLookup_of_no_vector hh hstale)
  rw [authenticate_of_rejected hreg (by rw [hh, hip]) (by decide : PjStatus.eauthAccNotFound ≠ .success)
    (by rw [verifyResponse_of_response hh hresp, hv]; rfl), hh, rejectRequest_of_failed hreg (by decide)]
  rfl

end Stale

/-- A REGISTER answering a challenge whose vector has expired gets a 403. -/
theorem expired_nonce_gets_forbidden :
    AvStore.empty.getAv "alice" "n0" = none ∧
    authenticateRxRequest ⟨"example.com", false⟩ (authSrv id "example.com")
        ⟨some sampleDigestAv, (sampleRandom, sampleRandom), true⟩
        ⟨.register, [sampleHdr "example.com" "n0" "r"], "sip:alice@example.com"⟩ AvStore.empty =
      .ok ⟨true, AvStore.empty, [.authSrvVerify, .respond ⟨scForbidden, none⟩]⟩ :=
  ⟨rfl, stale_nonce_gets_forbidden rfl rfl rfl rfl rfl rfl rfl⟩

end Sprout.Authentication
