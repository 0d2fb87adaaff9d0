import Mathlib.Data.List.Basic

/-!
# SIP requests and responses as the authentication module sees them

The parsed request (`pjsip_rx_data`), its `Authorization` headers with their
digest credentials, the `WWW-Authenticate` header of a challenge, and the pjlib
string operations the source applies to them.

## Implementation notes

`constants.h` is not in the source: the `STR_` strings are the wire values of
the scheme, algorithm, qop and parameter names the spec gives, and of the
`integrity-protected` parameter and its trusted values. Only the `To` URI
of the addressing fields is kept: `From` and `Call-ID` feed SAS markers alone.
-/

namespace Sprout.Sip

/-- `pj_stricmp(a, b) == 0`: equal up to ASCII case. -/
def pjStricmp (a b : String) : Bool := a.data.map Char.toLower == b.data.map Char.toLower

/-- `pj_strdup2` of a C string such as `s.c_str()`: the copy stops at the first NUL. -/
def pjStrdup2 (s : String) : String := ⟨s.data.takeWhile (· ≠ '\x00')⟩

@[simp] theorem pjStricmp_self (a : String) : pjStricmp a a = true := by simp [pjStricmp]

theorem pjStrdup2_of_no_nul {s : String} (h : '\x00' ∉ s.data) : pjStrdup2 s = s := by
  cases s with
  | mk cs =>
      show String.mk _ = String.mk cs
      rw [List.takeWhile_eq_self_iff.2 fun c hc => by
        simpa using fun e : c = '\x00' => h (e ▸ hc)]

def strDigest : String := "Digest"
def strAkav1Md5 : String := "AKAv1-MD5"
def strMd5 : String := "MD5"
def strAuth : String := "auth"
def strCk : String := "ck"
def strIk : String := "ik"
def strAutn : String := "autn"
def strIntegrityProtected : String := "integrity-protected"
def strYes : String := "yes"
def strTlsYes : String := "tls-yes"
def strIpAssocYes : String := "ip-assoc-yes"

/-- `PJSIP_SC_UNAUTHORIZED`. -/
def scUnauthorized : Nat := 401
/-- `PJSIP_SC_FORBIDDEN`. -/
def scForbidden : Nat := 403
/-- `PJSIP_SC_INTERNAL_SERVER_ERROR`. -/
def scInternalServerError : Nat := 500

/-- The `pj_status_t` values the authentication path produces or tests. -/
inductive PjStatus where
  | success
  | eauthNoAuth
  | eauthAccNotFound
  | einvalidAuthScheme
  | eauthInvalidDigest
  | einvalidOp
  | other (code : Nat)
  deriving DecidableEq, Repr

/-- A `pjsip_param`. -/
structure Param where
  name : String
  value : String
  deriving DecidableEq, Repr

/-- `pjsip_param_find`: the first parameter whose name matches up to case. -/
def pjsipParamFind (params : List Param) (name : String) : Option Param :=
  params.find? fun p => pjStricmp p.name name

/-- An `Authorization` header: its scheme and its digest credential. -/
structure AuthorizationHdr where
  scheme : String
  realm : String
  username : String
  nonce : String
  uri : String
  response : String
  qop : String
  nc : String
  cnonce : String
  otherParam : List Param
  deriving DecidableEq, Repr

/-- `pjsip_method_e`, with the method name that digests are computed over. -/
inductive Method where
  | invite
  | cancel
  | ack
  | bye
  | register
  | options
  | other (name : String)
  deriving DecidableEq, Repr

def Method.name : Method → String
  | .invite => "INVITE"
  | .cancel => "CANCEL"
  | .ack => "ACK"
  | .bye => "BYE"
  | .register => "REGISTER"
  | .options => "OPTIONS"
  | .other n => n

/-- A parsed request. -/
structure RxData where
  method : Method
  /-- Every `Authorization` header, in message order. -/
  authorization : List AuthorizationHdr
  /-- The URI of the `To` header, as the source's URI helpers print it. -/
  toUri : String
  deriving DecidableEq, Repr

/-- `pjsip_msg_find_hdr(msg, PJSIP_H_AUTHORIZATION, NULL)`: the first `Authorization` header. -/
def RxData.findAuthorizationHdr (rdata : RxData) : Option AuthorizationHdr :=
  rdata.authorization.head?

/-- A `WWW-Authenticate` header with a digest challenge. -/
structure WwwAuthenticateHdr where
  scheme : String
  realm : String
  algorithm : String
  nonce : String
  opaqueMarker : String
  qop : String
  stale : Bool
  otherParam : List Param
  deriving DecidableEq, Repr

/-- A final response: its status code and the challenge header it carries. -/
structure Response where
  code : Nat
  wwwAuthenticate : Option WwwAuthenticateHdr
  deriving DecidableEq, Repr

/-- Ways handling a request stops without returning: jsoncpp throws on a read of
the wrong type, or a null `Authorization` header pointer is followed. -/
inductive Fault where
  | jsonLogicError
  | nullAuthorizationHdr
  deriving DecidableEq, Repr

end Sprout.Sip
