import Sprout.Authentication.AvStore
import Sprout.Authentication.AuthServer

/-!
# authentication.cpp

`authenticate_rx_request` lets a request through, or answers it: with a
challenge built by `create_challenge` from a vector the HSS returns, or with a
rejection. `user_lookup` is the credential callback that PJSIP's server
verifier calls.

## Implementation notes

Each request is handled against the AV store with the environment's answers
for it: what `hss->get_auth_vector` returns, the two buffers
`pj_create_random_string` fills, and whether `PJUtils::create_response`
succeeds. The external calls are recorded as effects in the order they are
made. The verifier is a parameter of `authenticateRxRequest`, so that the gate
can be stated for every verifier outcome; `authSrv` is the one
`init_authentication` registers. SAS markers and logs are left out.
-/

namespace Sprout.Authentication

open Json Sip

/-- A buffer filled by `pj_create_random_string(buf, 16)`: sixteen hexadecimal digits. -/
structure RandomString where
  chars : List Char
  length_eq : chars.length = 16
  hex : ∀ c ∈ chars, c ∈ "0123456789abcdef".data

def RandomString.toString (r : RandomString) : String := ⟨r.chars⟩

theorem RandomString.no_nul (r : RandomString) : '\x00' ∉ r.toString.data := fun h => by
  have := r.hex _ h
  revert this
  decide

/-- Modelled from the spec: `PJUtils::public_id_from_uri`, the `To` URI as the public identity. -/
def publicIdFromUri (uri : String) : String := uri

/-- Modelled from the spec: `PJUtils::default_private_id_from_uri`, the URI without its
`sip:` scheme prefix. -/
def defaultPrivateIdFromUri (uri : String) : String :=
  if uri.data.take 4 = "sip:".data then ⟨uri.data.drop 4⟩ else uri

/-- Modelled from the spec: `PJUtils::aor_from_uri`, the address of record of a URI. -/
def aorFromUri (uri : String) : String := uri

/-- What `init_authentication` fixes: the realm, and whether an analytics logger is set. -/
structure Config where
  realm : String
  analytics : Bool

/-- `init_authentication`'s realm: the configured name, or the local host name when empty. -/
def initRealm (realmName localHost : String) : String :=
  if realmName ≠ "" then realmName else localHost

/-- What the environment answers while one request is handled. -/
structure Answers where
  /-- The result of `hss->get_auth_vector`; `none` is NULL. -/
  authVector : Option Value
  /-- The two buffers `pj_create_random_string` fills, in order. -/
  random : RandomString × RandomString
  /-- Whether `PJUtils::create_response` succeeds. -/
  createResponseOk : Bool

/-- An Authentication Vector as the HSS means to send it: exactly one variant, every
field a string. -/
inductive AuthVector where
  | aka (challenge cryptkey integritykey response : String)
  | digest (qop ha1 : String)
  deriving DecidableEq, Repr

namespace AuthVector

/-- The JSON the HSS sends for the vector. -/
def toValue : AuthVector → Value
  | aka c ck ik r => .object [("aka", .object [("challenge", .string c), ("cryptkey", .string ck),
      ("integritykey", .string ik), ("response", .string r)])]
  | digest q h => .object [("digest", .object [("qop", .string q), ("ha1", .string h)])]

/-- The nonce its challenge is meant to carry: the AKA challenge itself, or the
minted nonce for Digest. -/
def nonce (random : RandomString × RandomString) : AuthVector → String
  | aka c .. => c
  | digest .. => random.1.toString

end AuthVector

/-- The external calls a request makes. -/
inductive Effect where
  /-- `pjsip_auth_srv_verify`, which reads the store through `user_lookup`. -/
  | authSrvVerify
  | getAuthVector (impi impu autn : String)
  | setAv (impi nonce : String) (av : Value)
  | authFailure (impi aor : String)
  /-- A final response leaves. -/
  | respond (response : Response)

/-- The verifier's status and SIP status code for a request, read against the store. -/
abbrev Verifier := AvStore → RxData → Except Fault (PjStatus × Nat)

/-- How a request ends: `absorbed` is `PJ_TRUE`, the store after it, and its calls. -/
structure Outcome where
  absorbed : Bool
  store : AvStore
  effects : List Effect

/-- A jsoncpp read inside the source; a read jsoncpp rejects throws. -/
def json {α : Type} : Option α → Except Fault α
  | some a => pure a
  | none => throw .jsonLogicError

@[simp] theorem json_some {α : Type} (a : α) : json (some a) = .ok a := rfl

@[simp] theorem json_none {α : Type} : json (none : Option α) = .error .jsonLogicError := rfl

theorem json_eq_ok {α : Type} {o : Option α} {a : α} : json o = .ok a ↔ o = some a := by
  cases o <;> simp

section ExceptLemmas

variable {ε α β : Type} {x : Except ε α} {f : α → Except ε β}

theorem bind_eq_ok {b : β} : x >>= f = .ok b ↔ ∃ a, x = .ok a ∧ f a = .ok b := by
  cases x <;> simp [bind, Except.bind]

theorem bind_eq_error {e : ε} : x >>= f = .error e ↔ x = .error e ∨ ∃ a, x = .ok a ∧ f a = .error e := by
  cases x <;> simp [bind, Except.bind]

@[simp] theorem ok_bind {a : α} : (Except.ok a : Except ε α) >>= f = f a := rfl

@[simp] theorem error_bind {e : ε} : (Except.error e : Except ε α) >>= f = .error e := rfl

@[simp] theorem map_ok {g : α → β} {a : α} : g <$> (Except.ok a : Except ε α) = .ok (g a) := rfl

@[simp] theorem map_error {g : α → β} {e : ε} : g <$> (Except.error e : Except ε α) = .error e := rfl

@[simp] theorem pure_eq_ok {a : α} : (pure a : Except ε α) = .ok a := rfl

@[simp] theorem throw_eq_error {e : ε} : (throw e : Except ε α) = .error e := rfl

end ExceptLemmas

/-- Every fault the computation can raise is a jsoncpp throw. -/
def JsonOnly {α : Type} (x : Except Fault α) : Prop := ∀ f, x = .error f → f = .jsonLogicError

namespace JsonOnly

variable {α β : Type}

theorem json (o : Option α) : JsonOnly (Authentication.json o) := by
  intro f h
  cases o <;> simp_all

theorem ok (a : α) : JsonOnly (.ok a : Except Fault α) := nofun

theorem bind {x : Except Fault α} {g : α → Except Fault β} (hx : JsonOnly x)
    (hg : ∀ a, JsonOnly (g a)) : JsonOnly (x >>= g) := by
  intro f h
  rcases bind_eq_error.1 h with h | ⟨a, -, h⟩
  exacts [hx f h, hg a f h]

end JsonOnly

/-! ### `user_lookup` -/

/-- `user_lookup`: the vector stored under the account name and the nonce of the
first `Authorization` header in the request, turned into a credential. -/
def userLookup (store : AvStore) : Lookup := fun param => do
  let authHdr ← match param.rdata.findAuthorizationHdr with
    | some h => pure h
    | none => throw .nullAuthorizationHdr
  match store.getAv param.accName authHdr.nonce with
  | none => pure (.error .eauthAccNotFound)
  | some av =>
      if ← json (av.isMember "aka") then
        let response ← json ((← json ((← json (av.member "aka")).member "response")).asCString)
        pure (.ok ⟨param.realm, "digest", param.accName, .plainPasswd, pjStrdup2 response⟩)
      else if ← json (av.isMember "digest") then
        let ha1 ← json ((← json ((← json (av.member "digest")).member "ha1")).asCString)
        pure (.ok ⟨param.realm, "digest", param.accName, .digest, pjStrdup2 ha1⟩)
      else pure (.error .eauthAccNotFound)

theorem userLookup_of_no_vector {store : AvStore} {param : LookupCredParam} {hdr : AuthorizationHdr}
    (hh : param.rdata.findAuthorizationHdr = some hdr)
    (hg : store.getAv param.accName hdr.nonce = none) :
    userLookup store param = .ok (.error .eauthAccNotFound) := by
  simp [userLookup, hh, hg]

/-- `user_lookup` reads the store at one key only. -/
theorem userLookup_congr {store store' : AvStore} {param : LookupCredParam}
    (hg : ∀ hdr, param.rdata.findAuthorizationHdr = some hdr →
      store.getAv param.accName hdr.nonce = store'.getAv param.accName hdr.nonce) :
    userLookup store param = userLookup store' param := by
  cases hh : param.rdata.findAuthorizationHdr with
  | none => simp [userLookup, hh]
  | some hdr => simp [userLookup, hh, hg hdr hh]

/-- The server verifier `init_authentication` sets up: PJSIP's, with `user_lookup`. -/
def authSrv (md5 : String → String) (realm : String) : Verifier :=
  fun store rdata => authSrvVerify md5 realm (userLookup store) rdata

/-! ### `create_challenge` -/

/-- Lines 163-178: the header's username when non-empty, else the default from `To`. -/
def privateId (authHdr : Option AuthorizationHdr) (toUri : String) : String :=
  match authHdr with
  | some h => if h.username.isEmpty then defaultPrivateIdFromUri toUri else h.username
  | none => defaultPrivateIdFromUri toUri

/-- Lines 180-192: the scan visits every parameter and each `autn` overwrites the token. -/
def resyncToken (authHdr : Option AuthorizationHdr) : String :=
  match authHdr with
  | some h => h.otherParam.foldl (fun autn p => if pjStricmp p.name strAutn then p.value else autn) ""
  | none => ""

/-- Lines 199-252: the challenge header for a vector, and the nonce it is stored under. -/
def challengeHdr (realm : String) (random : RandomString × RandomString) (av : Value) :
    Except Fault (WwwAuthenticateHdr × String) := do
  if ← json (av.isMember "aka") then
    let aka ← json (av.member "aka")
    let nonce ← json ((← json (aka.member "challenge")).asString)
    let ck ← json ((← json (aka.member "cryptkey")).asCString)
    let ik ← json ((← json (aka.member "integritykey")).asCString)
    pure (⟨strDigest, realm, strAkav1Md5, pjStrdup2 nonce, random.1.toString, strAuth, false,
      [⟨strCk, pjStrdup2 ck⟩, ⟨strIk, pjStrdup2 ik⟩]⟩, nonce)
  else
    let digest ← json (av.member "digest")
    let qop ← json ((← json (digest.member "qop")).asCString)
    pure (⟨strDigest, realm, strMd5, random.1.toString, random.2.toString, pjStrdup2 qop, false, []⟩,
      random.1.toString)

/-- `create_challenge`: the response it builds from one with status `code`, the store
and its calls. Without a vector the response becomes a 403 with no header. -/
def createChallenge (cfg : Config) (authHdr : Option AuthorizationHdr) (rdata : RxData)
    (ans : Answers) (code : Nat) (store : AvStore) :
    Except Fault (Response × AvStore × List Effect) := do
  let impi := privateId authHdr rdata.toUri
  let query := Effect.getAuthVector impi (publicIdFromUri rdata.toUri) (resyncToken authHdr)
  match ans.authVector with
  | none => pure (⟨scForbidden, none⟩, store, [query])
  | some av =>
      let (hdr, nonce) ← challengeHdr cfg.realm ans.random av
      pure (⟨code, some hdr⟩, store.setAv impi nonce av, [query, .setAv impi nonce av])

/-! ### `authenticate_rx_request` -/

/-- Lines 284-304: the first `Authorization` header's `integrity-protected` value is trusted. -/
def integrityProtected : Option AuthorizationHdr → Bool
  | none => false
  | some h =>
      match pjsipParamFind h.otherParam strIntegrityProtected with
      | none => false
      | some p => pjStricmp p.value strYes || pjStricmp p.value strTlsYes ||
          pjStricmp p.value strIpAssocYes

/-- Lines 306-323: a non-empty response is verified; `none` when the verifier is not called. -/
def verifyResponse (verify : Verifier) (store : AvStore) (authHdr : Option AuthorizationHdr)
    (rdata : RxData) : Except Fault (Option (PjStatus × Nat)) :=
  match authHdr with
  | some h => if h.response.isEmpty then pure none else some <$> verify store rdata
  | none => pure none

/-- Lines 359-419: the answer to a request that was not let through. -/
def rejectRequest (cfg : Config) (ans : Answers) (authHdr : Option AuthorizationHdr)
    (rdata : RxData) (status : PjStatus) (sc : Nat) (store : AvStore) :
    Except Fault (AvStore × List Effect) :=
  match rdata.method with
  | .ack => pure (store, [])
  | .cancel => pure (store, [.respond ⟨scForbidden, none⟩])
  | _ =>
      if status = .eauthNoAuth then
        if ans.createResponseOk then do
          let (response, store', calls) ← createChallenge cfg authHdr rdata ans sc store
          pure (store', calls ++ [.respond response])
        else pure (store, [.respond ⟨scInternalServerError, none⟩])
      else do
        let report ← if cfg.analytics then
            match authHdr with
            | some h => pure [Effect.authFailure h.username (aorFromUri rdata.toUri)]
            | none => throw Fault.nullAuthorizationHdr
          else pure []
        pure (store, report ++ [.respond ⟨sc, none⟩])

/-- `authenticate_rx_request`: `absorbed` is false when the request goes on. -/
def authenticateRxRequest (cfg : Config) (verify : Verifier) (ans : Answers) (rdata : RxData)
    (store : AvStore) : Except Fault Outcome :=
  if rdata.method ≠ .register then pure ⟨false, store, []⟩
  else if integrityProtected rdata.findAuthorizationHdr then pure ⟨false, store, []⟩
  else do
    let authHdr := rdata.findAuthorizationHdr
    let verified ← verifyResponse verify store authHdr rdata
    let verifyCall := if verified.isSome then [Effect.authSrvVerify] else []
    match verified with
    | some (.success, _) => pure ⟨false, store, verifyCall⟩
    | _ =>
        let (status, sc) := verified.getD (.eauthNoAuth, scUnauthorized)
        let (store', calls) ← rejectRequest cfg ans authHdr rdata status sc store
        pure ⟨true, store', verifyCall ++ calls⟩

end Sprout.Authentication
