import Sprout.Authentication.Model

/-!
# The request gate of `authenticate_rx_request`

Which requests go on, which are answered and how, for every verifier outcome
and every HSS answer. A request goes on when it is not a REGISTER, when its
first `Authorization` header is trusted as integrity protected, or when that
header carries a response the verifier accepts. Every other request gets one
final response and changes the store at most by the vector of the challenge it
is sent.
-/

namespace Sprout.Authentication

open Json Sip

section Spec

variable (cfg : Config) (verify : Verifier) (ans : Answers) (rdata : RxData) (store : AvStore)

theorem authenticate_of_not_register (h : rdata.method ≠ .register) :
    authenticateRxRequest cfg verify ans rdata store = .ok ⟨false, store, []⟩ := by
  simp [authenticateRxRequest, h]

theorem authenticate_of_integrityProtected (h : integrityProtected rdata.findAuthorizationHdr = true) :
    authenticateRxRequest cfg verify ans rdata store = .ok ⟨false, store, []⟩ := by
  by_cases hreg : rdata.method = .register <;> simp [authenticateRxRequest, hreg, h]

variable {cfg verify ans rdata store}
variable (hreg : rdata.method = .register)
  (hip : integrityProtected rdata.findAuthorizationHdr = false)
include hreg hip

theorem authenticate_of_verify_error {f : Fault}
    (h : verifyResponse verify store rdata.findAuthorizationHdr rdata = .error f) :
    authenticateRxRequest cfg verify ans rdata store = .error f := by
  simp [authenticateRxRequest, hreg, hip, h]

theorem authenticate_of_unverified
    (h : verifyResponse verify store rdata.findAuthorizationHdr rdata = .ok none) :
    authenticateRxRequest cfg verify ans rdata store =
      (fun r => ⟨true, r.1, r.2⟩) <$>
        rejectRequest cfg ans rdata.findAuthorizationHdr rdata .eauthNoAuth scUnauthorized store := by
  simp [authenticateRxRequest, hreg, hip, h]
  rfl

theorem authenticate_of_verified {sc : Nat}
    (h : verifyResponse verify store rdata.findAuthorizationHdr rdata = .ok (some (.success, sc))) :
    authenticateRxRequest cfg verify ans rdata store = .ok ⟨false, store, [.authSrvVerify]⟩ := by
  simp [authenticateRxRequest, hreg, hip, h]

theorem authenticate_of_rejected {status : PjStatus} {sc : Nat} (hs : status ≠ .success)
    (h : verifyResponse verify store rdata.findAuthorizationHdr rdata = .ok (some (status, sc))) :
    authenticateRxRequest cfg verify ans rdata store =
      (fun r => ⟨true, r.1, .authSrvVerify :: r.2⟩) <$>
        rejectRequest cfg ans rdata.findAuthorizationHdr rdata status sc store := by
  cases status <;> simp_all [authenticateRxRequest] <;> rfl

end Spec

section Faults

/-- `create_challenge` can only throw from jsoncpp, reading the vector. -/
theorem challengeHdr_jsonOnly (realm : String) (random : RandomString × RandomString) (av : Value) :
    JsonOnly (challengeHdr realm random av) := by
  refine .bind (.json _) fun isAka => ?_
  split
  · exact .bind (.json _) fun _ => .bind (.json _) fun _ => .bind (.json _) fun _ =>
      .bind (.json _) fun _ => .bind (.json _) fun _ => .bind (.json _) fun _ =>
      .bind (.json _) fun _ => .ok _
  · exact .bind (.json _) fun _ => .bind (.json _) fun _ => .bind (.json _) fun _ => .ok _

/-- A challenge's header carries the C-string copy of the nonce its vector is stored
under, and announces AKA exactly for a vector with an `aka` member. -/
theorem challengeHdr_eq_ok {realm : String} {random : RandomString × RandomString} {av : Value}
    {hdr : WwwAuthenticateHdr} {nonce : String} (h : challengeHdr realm random av = .ok (hdr, nonce)) :
    hdr.nonce = pjStrdup2 nonce ∧ (hdr.algorithm = strAkav1Md5 ↔ av.isMember "aka" = some true) := by
  simp only [challengeHdr, bind_eq_ok, json_eq_ok] at h
  obtain ⟨isAka, hm, h⟩ := h
  cases isAka <;> simp only [bind_eq_ok, json_eq_ok, pure_eq_ok, Except.ok.injEq, Prod.mk.injEq,
    Bool.false_eq_true, if_false, if_true] at h
  · obtain ⟨_, _, _, _, _, _, rfl, rfl⟩ := h
    simp [hm, pjStrdup2_of_no_nul random.1.no_nul, strMd5, strAkav1Md5]
  · obtain ⟨_, _, _, _, _, _, _, _, _, _, _, _, _, _, rfl, rfl⟩ := h
    simp [hm]

/-- A well-formed vector is challenged without a throw, under the nonce it is meant
to carry. -/
theorem AuthVector.challengeHdr_toValue (realm : String) (random : RandomString × RandomString)
    (v : AuthVector) : ∃ hdr, challengeHdr realm random v.toValue = .ok (hdr, v.nonce random) := by
  cases v <;> exact ⟨_, rfl⟩

/-- Called on a request with an `Authorization` header, `user_lookup` can only throw from jsoncpp. -/
theorem userLookup_jsonOnly (store : AvStore) {param : LookupCredParam}
    (h : param.rdata.findAuthorizationHdr ≠ none) : JsonOnly (userLookup store param) := by
  obtain ⟨hdr, hh⟩ := Option.ne_none_iff_exists'.1 h
  simp only [userLookup, hh, pure_eq_ok, ok_bind]
  split
  · exact .ok _
  · refine .bind (.json _) fun isAka => ?_
    split
    · exact .bind (.json _) fun _ => .bind (.json _) fun _ => .bind (.json _) fun _ => .ok _
    · refine .bind (.json _) fun isDigest => ?_
      split
      · exact .bind (.json _) fun _ => .bind (.json _) fun _ => .bind (.json _) fun _ => .ok _
      · exact .ok _

/-- PJSIP calls `user_lookup` only for a request with a header in the realm, so the
verifier never follows a null `Authorization` header. -/
theorem authSrv_jsonOnly (md5 : String → String) (realm : String) (store : AvStore)
    (rdata : RxData) : JsonOnly (authSrv md5 realm store rdata) := by
  unfold authSrv authSrvVerify
  split
  · exact .ok _
  · rename_i hdr hr
    have hne : rdata.findAuthorizationHdr ≠ none := by
      obtain ⟨first, hf⟩ := findAuthorizationHdr_of_realmHdr hr
      simp [hf]
    split
    · refine .bind (userLookup_jsonOnly store hne) fun r => ?_
      split <;> exact .ok _
    · exact .ok _

end Faults

section Parts

variable {cfg : Config} {verify : Verifier} {ans : Answers} {rdata : RxData} {store : AvStore}
  {authHdr : Option AuthorizationHdr}

theorem verifyResponse_eq_some {x : PjStatus × Nat}
    (h : verifyResponse verify store authHdr rdata = .ok (some x)) :
    ∃ hdr, authHdr = some hdr ∧ hdr.response.isEmpty = false ∧ verify store rdata = .ok x := by
  unfold verifyResponse at h
  split at h
  · split at h
    · cases h
    · cases hv : verify store rdata <;> simp_all
  · cases h

theorem verifyResponse_eq_error {f : Fault} (h : verifyResponse verify store authHdr rdata = .error f) :
    verify store rdata = .error f := by
  unfold verifyResponse at h
  split at h
  · split at h
    · cases h
    · cases hv : verify store rdata <;> simp_all
  · cases h

theorem createChallenge_of_none {code : Nat} (h : ans.authVector = none) :
    createChallenge cfg authHdr rdata ans code store =
      .ok (⟨scForbidden, none⟩, store, [.getAuthVector (privateId authHdr rdata.toUri)
        (publicIdFromUri rdata.toUri) (resyncToken authHdr)]) := by
  simp [createChallenge, h]

theorem createChallenge_of_some {code : Nat} {av : Value} (h : ans.authVector = some av) :
    createChallenge cfg authHdr rdata ans code store =
      (fun p => (⟨code, some p.1⟩, store.setAv (privateId authHdr rdata.toUri) p.2 av,
        [.getAuthVector (privateId authHdr rdata.toUri) (publicIdFromUri rdata.toUri)
          (resyncToken authHdr), .setAv (privateId authHdr rdata.toUri) p.2 av])) <$>
        challengeHdr cfg.realm ans.random av := by
  cases hc : challengeHdr cfg.realm ans.random av <;> simp [createChallenge, h, hc]

variable (hreg : rdata.method = .register)
include hreg

theorem rejectRequest_of_noAuth {sc : Nat} :
    rejectRequest cfg ans authHdr rdata .eauthNoAuth sc store =
      if ans.createResponseOk then
        (fun r => (r.2.1, r.2.2 ++ [.respond r.1])) <$> createChallenge cfg authHdr rdata ans sc store
      else .ok (store, [.respond ⟨scInternalServerError, none⟩]) := by
  cases hc : createChallenge cfg authHdr rdata ans sc store <;>
    cases hok : ans.createResponseOk <;> simp [rejectRequest, hreg, hc, hok]

theorem rejectRequest_of_failed {status : PjStatus} {sc : Nat} {hdr : AuthorizationHdr}
    (hs : status ≠ .eauthNoAuth) :
    rejectRequest cfg ans (some hdr) rdata status sc store =
      .ok (store, (if cfg.analytics then [.authFailure hdr.username (aorFromUri rdata.toUri)] else []) ++
        [.respond ⟨sc, none⟩]) := by
  cases ha : cfg.analytics <;> simp [rejectRequest, hreg, hs, ha]

end Parts

/-- Paths (i) and (ii): not a REGISTER, or the first `Authorization` header is
trusted as integrity protected. -/
def Bypassed (rdata : RxData) : Prop :=
  rdata.method ≠ .register ∨ integrityProtected rdata.findAuthorizationHdr = true

/-- Path (iii): the first `Authorization` header has a response the verifier accepts. -/
def Verified (verify : Verifier) (store : AvStore) (rdata : RxData) : Prop :=
  ∃ hdr sc, rdata.findAuthorizationHdr = some hdr ∧ hdr.response.isEmpty = false ∧
    verify store rdata = .ok (.success, sc)

/-- The verifier ran and answered neither success nor `PJSIP_EAUTHNOAUTH`. -/
def VerificationFailed (verify : Verifier) (store : AvStore) (rdata : RxData) : Prop :=
  ∃ hdr status sc, rdata.findAuthorizationHdr = some hdr ∧ hdr.response.isEmpty = false ∧
    verify store rdata = .ok (status, sc) ∧ status ≠ .success ∧ status ≠ .eauthNoAuth

def Effect.isRespond : Effect → Bool
  | .respond _ => true
  | _ => false

/-- One final response, and the store unchanged or changed by the one `set_av` of a
challenge: the vector the HSS returned for `impi`, stored under the nonce whose C-string
copy the header of the response carries. -/
def AnsweredOnce (store : AvStore) (store' : AvStore) (effects : List Effect) : Prop :=
  effects.countP Effect.isRespond = 1 ∧
    (store' = store ∨ ∃ impi impu autn nonce av code hdr, store' = store.setAv impi nonce av ∧
      [.getAuthVector impi impu autn, .setAv impi nonce av, .respond ⟨code, some hdr⟩] <:+: effects ∧
      hdr.nonce = pjStrdup2 nonce)

section Answered

variable {cfg : Config} {verify : Verifier} {ans : Answers} {rdata : RxData} {store : AvStore}
  {authHdr : Option AuthorizationHdr}

theorem createChallenge_answers {sc : Nat} {r : Response × AvStore × List Effect}
    (h : createChallenge cfg authHdr rdata ans sc store = .ok r) :
    AnsweredOnce store r.2.1 (r.2.2 ++ [.respond r.1]) := by
  cases hv : ans.authVector with
  | none =>
      rw [createChallenge_of_none hv] at h
      cases h
      exact ⟨rfl, .inl rfl⟩
  | some av =>
      rw [createChallenge_of_some hv] at h
      cases hc : challengeHdr cfg.realm ans.random av with
      | error f => simp [hc] at h
      | ok p =>
          simp only [hc, map_ok, Except.ok.injEq] at h
          subst h
          exact ⟨rfl, .inr ⟨_, _, _, _, _, sc, p.1, rfl, List.infix_refl _, (challengeHdr_eq_ok hc).1⟩⟩

/-- A REGISTER the gate does not let through gets exactly one final response. -/
theorem rejectRequest_answers (hreg : rdata.method = .register) {status : PjStatus} {sc : Nat}
    {r : AvStore × List Effect} (h : rejectRequest cfg ans authHdr rdata status sc store = .ok r) :
    AnsweredOnce store r.1 r.2 ∧ (status ≠ .eauthNoAuth → r.1 = store) := by
  by_cases hs : status = .eauthNoAuth
  · subst hs
    rw [rejectRequest_of_noAuth hreg] at h
    refine ⟨?_, fun h => absurd rfl h⟩
    split at h
    · cases hc : createChallenge cfg authHdr rdata ans sc store with
      | error f => simp [hc] at h
      | ok c =>
          simp only [hc, map_ok, Except.ok.injEq] at h
          subst h
          exact createChallenge_answers hc
    · cases h
      exact ⟨rfl, .inl rfl⟩
  · cases authHdr with
    | none =>
        cases ha : cfg.analytics <;> simp [rejectRequest, hreg, hs, ha] at h
        subst h
        exact ⟨⟨rfl, .inl rfl⟩, fun _ => rfl⟩
    | some hdr =>
        rw [rejectRequest_of_failed hreg hs] at h
        cases h
        refine ⟨⟨?_, .inl rfl⟩, fun _ => rfl⟩
        split <;> rfl

theorem rejectRequest_eq_error (hreg : rdata.method = .register) {status : PjStatus} {sc : Nat}
    {f : Fault} (h : rejectRequest cfg ans authHdr rdata status sc store = .error f)
    (hhdr : status ≠ .eauthNoAuth → authHdr ≠ none) :
    f = .jsonLogicError ∧ ∃ av, ans.authVector = some av ∧ challengeHdr cfg.realm ans.random av = .error f := by
  by_cases hs : status = .eauthNoAuth
  · subst hs
    rw [rejectRequest_of_noAuth hreg] at h
    split at h
    · cases hv : ans.authVector with
      | none => simp [createChallenge_of_none hv] at h
      | some av =>
          cases hc : challengeHdr cfg.realm ans.random av with
          | error f' =>
              simp only [createChallenge_of_some hv, hc, map_error, Except.error.injEq] at h
              subst h
              exact ⟨challengeHdr_jsonOnly _ _ _ f' hc, av, rfl, hc⟩
          | ok p => simp [createChallenge_of_some hv, hc] at h
    · cases h
  · obtain ⟨hdr, rfl⟩ := Option.ne_none_iff_exists'.1 (hhdr hs)
    simp [rejectRequest_of_failed hreg hs] at h

end Answered

/-- A request the gate does not let through is a REGISTER with no trusted marker. -/
theorem not_bypassed {rdata : RxData} (h : ¬Bypassed rdata) :
    rdata.method = .register ∧ integrityProtected rdata.findAuthorizationHdr = false := by
  simpa [Bypassed] using h

theorem AnsweredOnce.verify_call {store store' : AvStore} {effects : List Effect}
    (h : AnsweredOnce store store' effects) : AnsweredOnce store store' (.authSrvVerify :: effects) := by
  obtain ⟨hc, hs⟩ := h
  refine ⟨by simpa [Effect.isRespond] using hc, ?_⟩
  rcases hs with hs | ⟨impi, impu, autn, nonce, av, code, hdr, hs, hi, hn⟩
  exacts [.inl hs, .inr ⟨impi, impu, autn, nonce, av, code, hdr, hs, List.infix_cons hi, hn⟩]

section Gate

variable {cfg : Config} {verify : Verifier} {ans : Answers} {rdata : RxData} {store : AvStore}

theorem verifyResponse_of_response {hdr : AuthorizationHdr}
    (hh : rdata.findAuthorizationHdr = some hdr) (hr : hdr.response.isEmpty = false) :
    verifyResponse verify store rdata.findAuthorizationHdr rdata = some <$> verify store rdata := by
  simp [verifyResponse, hh, hr]

theorem authenticate_of_bypassed (hb : Bypassed rdata) :
    authenticateRxRequest cfg verify ans rdata store = .ok ⟨false, store, []⟩ := by
  rcases hb with hb | hb
  exacts [authenticate_of_not_register cfg verify ans rdata store hb,
    authenticate_of_integrityProtected cfg verify ans rdata store hb]

theorem authenticate_of_verified_path (hnb : ¬Bypassed rdata) (hv : Verified verify store rdata) :
    authenticateRxRequest cfg verify ans rdata store = .ok ⟨false, store, [.authSrvVerify]⟩ := by
  obtain ⟨hdr, sc, hh, hresp, hver⟩ := hv
  obtain ⟨hreg, hip⟩ := not_bypassed hnb
  exact authenticate_of_verified hreg hip (by rw [verifyResponse_of_response hh hresp, hver]; rfl)

/-- A REGISTER neither trusted nor verified stops with the verifier's fault, or reaches
the rejection branch, after the verifier's call when it was made, with a status that
is `PJSIP_EAUTHNOAUTH` unless the request has a header and the verification failed. -/
theorem authenticate_rejects (hnb : ¬Bypassed rdata) (hnv : ¬Verified verify store rdata) :
    (∃ f, verify store rdata = .error f ∧ authenticateRxRequest cfg verify ans rdata store = .error f) ∨
    ∃ pre status sc, authenticateRxRequest cfg verify ans rdata store =
        (fun r => ⟨true, r.1, pre ++ r.2⟩) <$>
          rejectRequest cfg ans rdata.findAuthorizationHdr rdata status sc store ∧
      (pre = [] ∨ pre = [.authSrvVerify]) ∧
      (status ≠ .eauthNoAuth → rdata.findAuthorizationHdr ≠ none) ∧
      (VerificationFailed verify store rdata → status ≠ .eauthNoAuth) := by
  obtain ⟨hreg, hip⟩ := not_bypassed hnb
  cases hv : verifyResponse verify store rdata.findAuthorizationHdr rdata with
  | error f => exact .inl ⟨f, verifyResponse_eq_error hv, authenticate_of_verify_error hreg hip hv⟩
  | ok v =>
      cases v with
      | none =>
          refine .inr ⟨[], _, _, authenticate_of_unverified hreg hip hv, .inl rfl, fun h => absurd rfl h, ?_⟩
          rintro ⟨hdr, st, sc, hh, hresp, hver, -, -⟩
          rw [verifyResponse_of_response hh hresp, hver] at hv
          cases hv
      | some p =>
          obtain ⟨st, sc⟩ := p
          obtain ⟨hdr, hh, hresp, hver⟩ := verifyResponse_eq_some hv
          have hs : st ≠ .success := by
            rintro rfl
            exact hnv ⟨hdr, sc, hh, hresp, hver⟩
          refine .inr ⟨_, st, sc, authenticate_of_rejected hreg hip hs hv, .inr rfl, fun _ => by simp [hh], ?_⟩
          rintro ⟨hdr', st', sc', -, -, hver', -, hna⟩
          cases hver.symm.trans hver'
          exact hna

/-- A REGISTER neither trusted nor verified is answered with one final response; the
store changes at most by the vector of the challenge sent, and not at all after a
failed verification. -/
theorem authenticate_answered (hnb : ¬Bypassed rdata) (hnv : ¬Verified verify store rdata)
    {o : Outcome} (h : authenticateRxRequest cfg verify ans rdata store = .ok o) :
    o.absorbed = true ∧ AnsweredOnce store o.store o.effects ∧
      (VerificationFailed verify store rdata → o.store = store) := by
  rcases authenticate_rejects hnb hnv with ⟨f, -, he⟩ | ⟨pre, st, sc, he, hpre, -, hfail⟩
  · rw [he] at h
    cases h
  rw [he] at h
  cases hr : rejectRequest cfg ans rdata.findAuthorizationHdr rdata st sc store with
  | error f => simp [hr] at h
  | ok r =>
      simp only [hr, map_ok, Except.ok.injEq] at h
      subst h
      obtain ⟨hans, hkeep⟩ := rejectRequest_answers (not_bypassed hnb).1 hr
      refine ⟨rfl, ?_, fun hf => hkeep (hfail hf)⟩
      rcases hpre with rfl | rfl
      exacts [hans, hans.verify_call]

/-- Handling a request stops without returning only when the verifier does, or
when `create_challenge` reads a vector from the HSS that jsoncpp rejects. -/
theorem authenticate_fault {f : Fault}
    (h : authenticateRxRequest cfg verify ans rdata store = .error f) :
    verify store rdata = .error f ∨
      (f = .jsonLogicError ∧ ∃ av, ans.authVector = some av ∧
        challengeHdr cfg.realm ans.random av = .error f) := by
  by_cases hb : Bypassed rdata
  · simp [authenticate_of_bypassed hb] at h
  by_cases hv : Verified verify store rdata
  · simp [authenticate_of_verified_path hb hv] at h
  rcases authenticate_rejects hb hv with ⟨f', hf, he⟩ | ⟨pre, st, sc, he, -, hhdr, -⟩
  · rw [he] at h
    cases h
    exact .inl hf
  rw [he] at h
  cases hr : rejectRequest cfg ans rdata.findAuthorizationHdr rdata st sc store with
  | error f' =>
      simp only [hr, map_error, Except.error.injEq] at h
      subst h
      exact .inr (rejectRequest_eq_error (not_bypassed hb).1 hr hhdr)
  | ok r => simp [hr] at h

/-- When the HSS answers NULL or a well-formed vector and the verifier returns,
`authenticate_rx_request` returns. -/
theorem authenticate_returns (hwf : ∀ av, ans.authVector = some av → ∃ v : AuthVector, av = v.toValue)
    (hx : ∃ x, verify store rdata = .ok x) : ∃ o, authenticateRxRequest cfg verify ans rdata store = .ok o := by
  cases h : authenticateRxRequest cfg verify ans rdata store with
  | ok o => exact ⟨o, rfl⟩
  | error f =>
      exfalso
      rcases authenticate_fault h with hv | ⟨-, av, hav, hc⟩
      · obtain ⟨x, hx⟩ := hx
        rw [hx] at hv
        cases hv
      · obtain ⟨v, rfl⟩ := hwf av hav
        obtain ⟨_, hok⟩ := v.challengeHdr_toValue cfg.realm ans.random
        rw [hok] at hc
        cases hc

/-- Every way `authenticate_rx_request` returns: let through untouched, let through
after the verifier accepted, or answered once. -/
theorem authenticate_ok_cases {o : Outcome} (h : authenticateRxRequest cfg verify ans rdata store = .ok o) :
    (Bypassed rdata ∧ o = ⟨false, store, []⟩) ∨
    (¬Bypassed rdata ∧ Verified verify store rdata ∧ o = ⟨false, store, [.authSrvVerify]⟩) ∨
    (¬Bypassed rdata ∧ ¬Verified verify store rdata ∧ o.absorbed = true ∧
      AnsweredOnce store o.store o.effects ∧ (VerificationFailed verify store rdata → o.store = store)) := by
  by_cases hb : Bypassed rdata
  · rw [authenticate_of_bypassed hb] at h
    exact .inl ⟨hb, (Except.ok.inj h).symm⟩
  by_cases hv : Verified verify store rdata
  · rw [authenticate_of_verified_path hb hv] at h
    exact .inr (.inl ⟨hb, hv, (Except.ok.inj h).symm⟩)
  · exact .inr (.inr ⟨hb, hv, authenticate_answered hb hv h⟩)

end Gate

/-- Sixteen digits as `pj_create_random_string` writes them. -/
def sampleRandom : RandomString := ⟨"0123456789abcdef".data, by decide, by decide⟩

end Sprout.Authentication
