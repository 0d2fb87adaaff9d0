import Sprout.Authentication.Sip

/-!
# PJSIP's digest authentication server

`pjsip_auth_srv_verify` is the library function that `authenticate_rx_request`
calls, with `user_lookup` registered as its `lookup2` callback by
`init_authentication`. It picks the first `Authorization` header whose realm is
the server's, asks the callback for the credential of that header's username,
and compares the header's response with the digest computed from the
credential, the header's nonce and the request method.

## Implementation notes

pjlib's MD5 (hash, then `digest2str`) is the parameter `md5`: no result of the
development depends on which function it is, beyond the 32 hex digits
`digest2str` writes (`Md5Sized`). `pjsip_auth_create_digest` copies a Digest
credential's data into a 32-byte HA1 buffer after asserting that it holds 32 bytes,
and hashes exactly 32 bytes of HA1 and HA2; `createDigest` concatenates whole
strings, which is the same computation on the 32-byte values a 32-byte HA1 and
`Md5Sized` give, and not PJSIP's on others. Results that need the verifier to
accept a response assume those sizes.
-/

namespace Sprout.Sip

/-- `PJSIP_CRED_DATA_PLAIN_PASSWD` or `PJSIP_CRED_DATA_DIGEST`. -/
inductive CredDataType where
  | plainPasswd
  | digest
  deriving DecidableEq, Repr

/-- A `pjsip_cred_info` as `user_lookup` fills it. -/
structure CredInfo where
  realm : String
  scheme : String
  username : String
  dataType : CredDataType
  data : String
  deriving DecidableEq, Repr

/-- A `pjsip_auth_lookup_cred_param`. -/
structure LookupCredParam where
  realm : String
  accName : String
  rdata : RxData

/-- A `lookup2` callback: the status it returns, with the credential on success. -/
abbrev Lookup := LookupCredParam → Except Fault (Except PjStatus CredInfo)

/-- `md5` renders every digest in 32 bytes, as `digest2str` writes 16 bytes in hex. -/
def Md5Sized (md5 : String → String) : Prop := ∀ s, (md5 s).utf8ByteSize = 32

variable (md5 : String → String)

/-- `pjsip_auth_create_digest`: HA1 from the credential, HA2 over method and URI,
then the response with or without the qop fields. A Digest credential's data is
taken as the HA1, which PJSIP asserts to be 32 bytes. -/
def createDigest (nonce nc cnonce qop uri realm : String) (cred : CredInfo)
    (method : String) : String :=
  let ha1 := match cred.dataType with
    | .plainPasswd => md5 (cred.username ++ ":" ++ realm ++ ":" ++ cred.data)
    | .digest => cred.data
  let ha2 := md5 (method ++ ":" ++ uri)
  if qop.isEmpty then md5 (ha1 ++ ":" ++ nonce ++ ":" ++ ha2)
  else md5 (ha1 ++ ":" ++ nonce ++ ":" ++ nc ++ ":" ++ cnonce ++ ":" ++ qop ++ ":" ++ ha2)

/-- A digest is never empty when `md5` renders 32 bytes. -/
theorem createDigest_isEmpty {md5 : String → String} (hmd5 : Md5Sized md5)
    (nonce nc cnonce qop uri realm : String) (cred : CredInfo) (method : String) :
    (createDigest md5 nonce nc cnonce qop uri realm cred method).isEmpty = false := by
  have hne : ∀ s, (md5 s).isEmpty = false := fun s => by
    simp only [String.isEmpty, String.endPos, hmd5 s]
    rfl
  unfold createDigest
  split_ifs <;> exact hne _

/-- `pjsip_auth_verify`: the username and realm must be the credential's, then the
response must match the digest up to case. -/
def authVerify (hdr : AuthorizationHdr) (method : String) (cred : CredInfo) : PjStatus :=
  if pjStricmp hdr.scheme strDigest then
    if hdr.username ≠ cred.username ∨ hdr.realm ≠ cred.realm then .einvalidOp
    else if pjStricmp (createDigest md5 hdr.nonce hdr.nc hdr.cnonce hdr.qop hdr.uri cred.realm
        cred method) hdr.response then .success
    else .eauthInvalidDigest
  else .einvalidAuthScheme

/-- PJSIP accepts a Digest header whose username and realm are the credential's and
whose response is the credential's digest. -/
theorem authVerify_of_digest {md5 : String → String} {hdr : AuthorizationHdr} {method : String}
    {cred : CredInfo} (hs : pjStricmp hdr.scheme strDigest = true) (hu : hdr.username = cred.username)
    (hr : hdr.realm = cred.realm)
    (hd : hdr.response = createDigest md5 hdr.nonce hdr.nc hdr.cnonce hdr.qop hdr.uri cred.realm cred method) :
    authVerify md5 hdr method cred = .success := by
  simp [authVerify, hs, hu, hr, ← hd]

/-- The `Authorization` header `pjsip_auth_srv_verify` verifies: the first in the realm. -/
def realmHdr (realm : String) (rdata : RxData) : Option AuthorizationHdr :=
  rdata.authorization.find? fun h => pjStricmp h.realm realm

/-- A request with a header in the realm has a first `Authorization` header. -/
theorem findAuthorizationHdr_of_realmHdr {realm : String} {rdata : RxData} {h : AuthorizationHdr}
    (hr : realmHdr realm rdata = some h) : ∃ first, rdata.findAuthorizationHdr = some first := by
  cases hl : rdata.authorization with
  | nil => simp [realmHdr, hl] at hr
  | cons first _ => exact ⟨first, by simp [RxData.findAuthorizationHdr, hl]⟩

/-- The first header of the request is the one in the realm when its realm matches. -/
theorem realmHdr_of_first {realm : String} {rdata : RxData} {h : AuthorizationHdr}
    (hh : rdata.findAuthorizationHdr = some h) (hr : pjStricmp h.realm realm = true) :
    realmHdr realm rdata = some h := by
  cases hl : rdata.authorization with
  | nil => simp [RxData.findAuthorizationHdr, hl] at hh
  | cons first _ =>
      simp only [RxData.findAuthorizationHdr, hl, List.head?_cons, Option.some.injEq] at hh
      subst hh
      simp [realmHdr, hl, hr]

/-- `pjsip_auth_srv_verify`: the status and the SIP status code it sets. -/
def authSrvVerify (realm : String) (lookup : Lookup) (rdata : RxData) :
    Except Fault (PjStatus × Nat) :=
  match realmHdr realm rdata with
  | none => pure (.eauthNoAuth, scUnauthorized)
  | some h =>
      if pjStricmp h.scheme strDigest then do
        match ← lookup ⟨realm, h.username, rdata⟩ with
        | .error status => pure (status, scForbidden)
        | .ok cred =>
            let status := authVerify md5 h rdata.method.name cred
            pure (status, if status = .success then 200 else scForbidden)
      else pure (.einvalidAuthScheme, scUnauthorized)

section Spec

variable {realm : String} {lookup : Lookup} {rdata : RxData} {hdr : AuthorizationHdr}

theorem authSrvVerify_of_no_realmHdr (hr : realmHdr realm rdata = none) :
    authSrvVerify md5 realm lookup rdata = .ok (.eauthNoAuth, scUnauthorized) := by
  simp [authSrvVerify, hr]; rfl

/-- The verifier calls the lookup once, for the username of the header in the realm. -/
theorem authSrvVerify_congr {lookup' : Lookup}
    (hl : ∀ h, realmHdr realm rdata = some h →
      lookup ⟨realm, h.username, rdata⟩ = lookup' ⟨realm, h.username, rdata⟩) :
    authSrvVerify md5 realm lookup rdata = authSrvVerify md5 realm lookup' rdata := by
  unfold authSrvVerify
  split
  · rfl
  · rw [hl _ ‹_›]

theorem authSrvVerify_of_not_digest (hr : realmHdr realm rdata = some hdr)
    (hs : pjStricmp hdr.scheme strDigest = false) :
    authSrvVerify md5 realm lookup rdata = .ok (.einvalidAuthScheme, scUnauthorized) := by
  simp [authSrvVerify, hr, hs]; rfl

variable (hr : realmHdr realm rdata = some hdr) (hs : pjStricmp hdr.scheme strDigest = true)
include hr hs

theorem authSrvVerify_of_lookup_error {status : PjStatus}
    (hl : lookup ⟨realm, hdr.username, rdata⟩ = .ok (.error status)) :
    authSrvVerify md5 realm lookup rdata = .ok (status, scForbidden) := by
  simp [authSrvVerify, hr, hs, hl, bind, Except.bind]; rfl

theorem authSrvVerify_of_lookup_ok {cred : CredInfo}
    (hl : lookup ⟨realm, hdr.username, rdata⟩ = .ok (.ok cred)) :
    authSrvVerify md5 realm lookup rdata =
      .ok (authVerify md5 hdr rdata.method.name cred,
        if authVerify md5 hdr rdata.method.name cred = .success then 200 else scForbidden) := by
  simp [authSrvVerify, hr, hs, hl, bind, Except.bind]; rfl

end Spec

end Sprout.Sip
