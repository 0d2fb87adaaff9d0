import Sprout.Authentication.Registrar

/-!
# What a client and the HSS can count on

A client that answers a challenge with the digest of the challenged vector's own
secret is let in, for as long as the vector stays stored. With PJSIP's verifier,
`authenticate_rx_request` never follows a null `Authorization` header: a request
it does not return from hit a jsoncpp exception reading a malformed vector. When
the HSS answers only NULL or well-formed vectors, with Digest HA1s of the 32 bytes
PJSIP asserts, no request faults, on any run.
-/

namespace Sprout.Authentication

open Json Sip

/-! ### An honest answer is admitted -/

section Honest

variable {md5 : String → String} {cfg : Config} {ans : Answers} {rdata : RxData} {store : AvStore}
  {hdr : AuthorizationHdr}

/-- A client that answers honestly is let in: a REGISTER whose first `Authorization`
header is a Digest header in the realm, whose nonce keys a vector stored for its
username whose secret PJSIP takes whole, and whose response is the digest over that
vector's own secret, is admitted with the store unchanged and nothing called but the
verifier. -/
theorem honest_answer_admitted (v : AuthVector) (hreg : rdata.method = .register)
    (hh : rdata.findAuthorizationHdr = some hdr) (hip : integrityProtected (some hdr) = false)
    (hrealm : hdr.realm = cfg.realm) (hs : pjStricmp hdr.scheme strDigest = true)
    (hresp : hdr.response.isEmpty = false) (hstore : store.getAv hdr.username hdr.nonce = some v.toValue)
    (hv : v.SecretWhole)
    (hdigest : hdr.response = createDigest md5 hdr.nonce hdr.nc hdr.cnonce hdr.qop hdr.uri cfg.realm
      (v.cred cfg.realm hdr.username) rdata.method.name) :
    authenticateRxRequest cfg (authSrv md5 cfg.realm) ans rdata store =
      .ok ⟨false, store, [.authSrvVerify]⟩ :=
  authenticate_of_verified hreg (by rw [hh, hip]) (by
    rw [verifyResponse_of_response hh hresp, authSrv_of_stored_vector v
      (realmHdr_of_first hh (by simp [hrealm])) hh hs hrealm hstore hv.1 hdigest]
    rfl)

end Honest

/-- After `alice`'s challenge, the answer `alice`'s client computes from the vector's
HA1 is let in, for every hash that renders 32 bytes. -/
theorem challenged_answer_admitted :
    challenged.store.getAv "alice" sampleRandom.toString = some (AuthVector.digest "auth" sampleHa1).toValue ∧
    (AuthVector.digest "auth" sampleHa1).SecretWhole ∧
    ∀ md5, Md5Sized md5 →
      authenticateRxRequest sampleCfg (authSrv md5 sampleCfg.realm) sampleAnswers
          (answeringRegister md5 sampleRandom.toString) challenged.store =
        .ok ⟨false, challenged.store, [.authSrvVerify]⟩ :=
  have hv : (AuthVector.digest "auth" sampleHa1).SecretWhole := by decide
  ⟨rfl, hv, fun _ hmd5 => honest_answer_admitted (.digest "auth" sampleHa1) rfl rfl rfl rfl rfl
    (digestResponse_isEmpty hmd5 _) rfl hv rfl⟩

/-! ### An admitted request was challenged -/

/-- On every run, a REGISTER admitted by PJSIP's verifier was checked against a
vector issued by a challenge for the username of its header in the realm, under the
nonce of its first `Authorization` header. -/
theorem admitted_against_issued_vector {md5 : String → String} {cfg : Config} {r : Registrar}
    {rdata : RxData} (hr : Registrar.Reachable cfg (authSrv md5 cfg.realm) r)
    (hv : Verified (authSrv md5 cfg.realm) r.store rdata) :
    ∃ hdr first av, realmHdr cfg.realm rdata = some hdr ∧ rdata.findAuthorizationHdr = some first ∧
      r.store.getAv hdr.username first.nonce = some av ∧ Issued r.log hdr.username first.nonce av := by
  obtain ⟨_, _, _, _, hok⟩ := hv
  obtain ⟨hdr, first, av, hh, hf, hg⟩ := authSrv_eq_success hok
  exact ⟨hdr, first, av, hh, hf, hg, hr.storeIssued _ _ _ hg⟩

/-- The registrar after `alice`'s challenge is reached by a run, and the answer is
checked against the vector the challenge stored. -/
theorem challenged_answer_against_issued_vector :
    Registrar.Reachable sampleCfg (authSrv id sampleCfg.realm) challenged ∧
    Verified (authSrv id sampleCfg.realm) challenged.store (answeringRegister id sampleRandom.toString) ∧
    ∃ hdr first av, realmHdr sampleCfg.realm (answeringRegister id sampleRandom.toString) = some hdr ∧
      (answeringRegister id sampleRandom.toString).findAuthorizationHdr = some first ∧
      challenged.store.getAv hdr.username first.nonce = some av ∧
      Issued challenged.log hdr.username first.nonce av :=
  have hr : Registrar.Reachable sampleCfg (authSrv id sampleCfg.realm) challenged :=
    .step (e := .request initialRegister sampleAnswers) .initial rfl
  have hv : Verified (authSrv id sampleCfg.realm) challenged.store (answeringRegister id sampleRandom.toString) :=
    ⟨_, 200, rfl, rfl, rfl⟩
  ⟨hr, hv, admitted_against_issued_vector hr hv⟩

/-! ### Faults -/

section Faults

variable {md5 : String → String} {cfg : Config} {verify : Verifier} {ans : Answers} {rdata : RxData}
  {store : AvStore}

/-- With PJSIP's verifier, `authenticate_rx_request` never follows a null
`Authorization` header: every fault is a jsoncpp exception. -/
theorem authenticate_faults_only_in_json :
    JsonOnly (authenticateRxRequest cfg (authSrv md5 cfg.realm) ans rdata store) := by
  intro f h
  rcases authenticate_fault h with hv | ⟨hf, -⟩
  exacts [authSrv_jsonOnly md5 cfg.realm store rdata f hv, hf]

/-- The HSS answered NULL or a well-formed vector, whose Digest HA1 PJSIP takes whole. -/
def Answers.WellFormed (ans : Answers) : Prop :=
  ∀ av, ans.authVector = some av → ∃ v : AuthVector, v.Ha1Sized ∧ av = v.toValue

/-- Every entry of the store is a well-formed vector, whose Digest HA1 PJSIP takes whole. -/
def AvStore.WellFormed (store : AvStore) : Prop :=
  ∀ impi nonce av, store.getAv impi nonce = some av → ∃ v : AuthVector, v.Ha1Sized ∧ av = v.toValue

theorem AvStore.WellFormed.setAv {impi nonce : String} (hs : store.WellFormed) {v : AuthVector}
    (hv : v.Ha1Sized) : (store.setAv impi nonce v.toValue).WellFormed := by
  intro i n av h
  simp only [AvStore.getAv_setAv] at h
  split at h
  exacts [⟨v, hv, (Option.some.inj h).symm⟩, hs i n av h]

theorem AvStore.WellFormed.expire {impi nonce : String} (hs : store.WellFormed) :
    (store.expire impi nonce).WellFormed := by
  intro i n av h
  simp only [AvStore.getAv_expire] at h
  split at h
  exacts [(nomatch h), hs i n av h]

/-- Against a store of well-formed vectors, PJSIP's verifier always returns. -/
theorem authSrv_ok_of_wellFormed (md5 : String → String) (realm : String) (hs : store.WellFormed)
    (rdata : RxData) : ∃ x, authSrv md5 realm store rdata = .ok x := by
  cases hr : realmHdr realm rdata with
  | none => exact ⟨_, authSrvVerify_of_no_realmHdr md5 hr⟩
  | some hdr =>
      cases hsch : pjStricmp hdr.scheme strDigest
      · exact ⟨_, authSrvVerify_of_not_digest md5 hr hsch⟩
      obtain ⟨first, hf⟩ := findAuthorizationHdr_of_realmHdr hr
      cases hg : store.getAv hdr.username first.nonce with
      | none => exact ⟨_, authSrvVerify_of_lookup_error md5 hr hsch (userLookup_of_no_vector hf hg)⟩
      | some av =>
          obtain ⟨v, -, rfl⟩ := hs _ _ _ hg
          exact ⟨_, authSrvVerify_of_lookup_ok md5 hr hsch (v.userLookup_toValue hf hg)⟩

/-! The only vector a request writes is the one the HSS returned for it. -/

theorem createChallenge_store {authHdr : Option AuthorizationHdr} {code : Nat}
    {c : Response × AvStore × List Effect} (h : createChallenge cfg authHdr rdata ans code store = .ok c) :
    c.2.1 = store ∨ ∃ impi nonce av, ans.authVector = some av ∧ c.2.1 = store.setAv impi nonce av := by
  cases hv : ans.authVector with
  | none =>
      rw [createChallenge_of_none hv] at h
      cases h
      exact .inl rfl
  | some av =>
      rw [createChallenge_of_some hv] at h
      cases hc : challengeHdr cfg.realm ans.random av with
      | error f => simp [hc] at h
      | ok p =>
          simp only [hc, map_ok, Except.ok.injEq] at h
          subst h
          exact .inr ⟨_, _, av, rfl, rfl⟩

theorem rejectRequest_store {authHdr : Option AuthorizationHdr} (hreg : rdata.method = .register)
    {status : PjStatus} {sc : Nat} {r : AvStore × List Effect}
    (h : rejectRequest cfg ans authHdr rdata status sc store = .ok r) :
    r.1 = store ∨ ∃ impi nonce av, ans.authVector = some av ∧ r.1 = store.setAv impi nonce av := by
  by_cases hs : status = .eauthNoAuth
  · subst hs
    rw [rejectRequest_of_noAuth hreg] at h
    split at h
    · cases hc : createChallenge cfg authHdr rdata ans sc store with
      | error f => simp [hc] at h
      | ok c =>
          simp only [hc, map_ok, Except.ok.injEq] at h
          subst h
          exact createChallenge_store hc
    · cases h
      exact .inl rfl
  · exact .inl ((rejectRequest_answers hreg h).2 hs)

theorem authenticate_store {o : Outcome} (h : authenticateRxRequest cfg verify ans rdata store = .ok o) :
    o.store = store ∨ ∃ impi nonce av, ans.authVector = some av ∧ o.store = store.setAv impi nonce av := by
  by_cases hb : Bypassed rdata
  · rw [authenticate_of_bypassed hb] at h
    cases h
    exact .inl rfl
  by_cases hv : Verified verify store rdata
  · rw [authenticate_of_verified_path hb hv] at h
    cases h
    exact .inl rfl
  rcases authenticate_rejects hb hv with ⟨f, -, he⟩ | ⟨pre, st, sc, he, -⟩ <;> rw [he] at h
  · cases h
  · cases hr : rejectRequest cfg ans rdata.findAuthorizationHdr rdata st sc store with
    | error f => simp [hr] at h
    | ok r =>
        simp only [hr, map_ok, Except.ok.injEq] at h
        subst h
        exact rejectRequest_store (not_bypassed hb).1 hr

/-- With well-formed vectors in the store and from the HSS, a request is always handled
to its end and leaves only well-formed vectors. -/
theorem authenticate_ok_of_wellFormed (hs : store.WellFormed) (ha : ans.WellFormed) :
    ∃ o, authenticateRxRequest cfg (authSrv md5 cfg.realm) ans rdata store = .ok o ∧
      o.store.WellFormed := by
  obtain ⟨o, h⟩ := authenticate_returns (fun av hav => (ha av hav).imp fun _ hv => hv.2)
    (authSrv_ok_of_wellFormed md5 cfg.realm hs rdata)
  refine ⟨o, h, ?_⟩
  rcases authenticate_store h with hst | ⟨impi, nonce, av, hav, hst⟩
  · rwa [hst]
  · obtain ⟨v, hv, rfl⟩ := ha av hav
    rw [hst]
    exact hs.setAv hv

end Faults

/-- The HSS answers NULL or a well-formed vector while the request is handled. -/
def Event.WellFormed : Event → Prop
  | .request _ ans => ans.WellFormed
  | .expire .. => True

/-- When the HSS answers only NULL or well-formed vectors whose Digest HA1 PJSIP takes
whole, no request ever faults: from a store of such vectors every run goes to its
end, and the store keeps only such vectors. -/
theorem run_never_faults {md5 : String → String} {cfg : Config} {r : Registrar} {evs : List Event}
    (hs : r.store.WellFormed) (hevs : ∀ e ∈ evs, e.WellFormed) :
    ∃ r', r.run cfg (authSrv md5 cfg.realm) evs = some r' ∧ r'.store.WellFormed := by
  induction evs generalizing r with
  | nil => exact ⟨r, rfl, hs⟩
  | cons e es ih =>
      obtain ⟨r₁, h₁, hs₁⟩ : ∃ r₁, r.step cfg (authSrv md5 cfg.realm) e = some r₁ ∧ r₁.store.WellFormed := by
        cases e with
        | request rdata ans =>
            obtain ⟨o, ho, hso⟩ := authenticate_ok_of_wellFormed hs (hevs _ (List.mem_cons_self _ _))
            exact ⟨_, Registrar.step_of_authenticate ho, hso⟩
        | expire impi nonce => exact ⟨_, rfl, hs.expire⟩
      obtain ⟨r', hrun, hs'⟩ := ih hs₁ fun e he => hevs e (List.mem_cons_of_mem _ he)
      exact ⟨r', by simp [Registrar.run, h₁, hrun], hs'⟩

/-- `alice` registers, answers the challenge with the response computed by `md5`, and
the vector expires. -/
def aliceRun (md5 : String → String) : List Event :=
  [.request initialRegister sampleAnswers, .request (answeringRegister md5 sampleRandom.toString) sampleAnswers,
    .expire "alice" sampleRandom.toString]

/-- `alice`'s run ends, whatever the hash. -/
theorem alice_run_never_faults :
    Registrar.initial.store.WellFormed ∧
    ∀ md5, (∀ e ∈ aliceRun md5, e.WellFormed) ∧
      ∃ r', Registrar.initial.run sampleCfg (authSrv md5 sampleCfg.realm) (aliceRun md5) = some r' ∧
        r'.store.WellFormed := by
  have hs : Registrar.initial.store.WellFormed := fun _ _ _ h => nomatch h
  have ha : sampleAnswers.WellFormed := fun _ h =>
    ⟨.digest "auth" sampleHa1, by decide, (Option.some.inj h).symm⟩
  refine ⟨hs, fun md5 => ?_⟩
  have hevs : ∀ e ∈ aliceRun md5, e.WellFormed := by
    simp only [aliceRun, List.mem_cons, List.mem_singleton, List.not_mem_nil, or_false]
    rintro e (rfl | rfl | rfl)
    exacts [ha, ha, trivial]
  exact ⟨hevs, run_never_faults hs hevs⟩

end Sprout.Authentication
