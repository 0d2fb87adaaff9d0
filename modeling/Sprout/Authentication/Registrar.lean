import Sprout.Authentication.Challenge

/-!
# Authentication over a run of requests

Requests arrive one after another, each handled by `authenticate_rx_request`
against the store as the earlier ones left it, and the store's expiry sweep
removes entries between them. Every entry of the store was written by a
challenge. Nothing on the path of an admitted request removes the vector its
response was verified against, so the same request is admitted again as long as
that entry stays.

## Implementation notes

A request that stops on a fault, a jsoncpp exception escaping into PJSIP or a
null header followed, ends the run.
-/

namespace Sprout.Authentication

open Json Sip

/-- What reaches the module: a request, with what the environment answers while it is
handled, or the expiry of one stored vector. -/
inductive Event where
  | request (rdata : RxData) (ans : Answers)
  | expire (impi nonce : String)

/-- The event is the expiry of the vector under `impi` and `nonce`. -/
def Event.expires (impi nonce : String) : Event → Prop
  | .expire i n => impi = i ∧ nonce = n
  | .request .. => False

/-- The AV store and every external call made so far. -/
structure Registrar where
  store : AvStore
  log : List Effect

namespace Registrar

def initial : Registrar := ⟨AvStore.empty, []⟩

def step (cfg : Config) (verify : Verifier) (r : Registrar) : Event → Option Registrar
  | .request rdata ans =>
      match authenticateRxRequest cfg verify ans rdata r.store with
      | .ok o => some ⟨o.store, r.log ++ o.effects⟩
      | .error _ => none
  | .expire impi nonce => some ⟨r.store.expire impi nonce, r.log⟩

def run (cfg : Config) (verify : Verifier) (r : Registrar) : List Event → Option Registrar
  | [] => some r
  | e :: es => (r.step cfg verify e).bind fun r' => r'.run cfg verify es

/-- The registrars a run from the start can reach. -/
inductive Reachable (cfg : Config) (verify : Verifier) : Registrar → Prop
  | initial : Reachable cfg verify initial
  | step {r r' : Registrar} {e : Event} : Reachable cfg verify r → r.step cfg verify e = some r' →
      Reachable cfg verify r'

variable {cfg : Config} {verify : Verifier} {r r' : Registrar}

theorem step_of_authenticate {rdata : RxData} {ans : Answers} {o : Outcome}
    (h : authenticateRxRequest cfg verify ans rdata r.store = .ok o) :
    r.step cfg verify (.request rdata ans) = some ⟨o.store, r.log ++ o.effects⟩ := by
  simp [step, h]

theorem step_request {rdata : RxData} {ans : Answers}
    (h : r.step cfg verify (.request rdata ans) = some r') :
    ∃ o, authenticateRxRequest cfg verify ans rdata r.store = .ok o ∧ r' = ⟨o.store, r.log ++ o.effects⟩ := by
  simp only [step] at h
  split at h
  · exact ⟨_, ‹_›, (Option.some.inj h).symm⟩
  · cases h

/-- What one event does: it appends calls to the log, and leaves the store as it was,
expires one entry, or stores the vector of a challenge it sent. -/
theorem step_cases {e : Event} (h : r.step cfg verify e = some r') :
    ∃ l, r'.log = r.log ++ l ∧ (r'.store = r.store ∨
      (∃ i n, e = .expire i n ∧ r'.store = r.store.expire i n) ∨
      ∃ impi impu autn nonce av code hdr, r'.store = r.store.setAv impi nonce av ∧
        [.getAuthVector impi impu autn, .setAv impi nonce av, .respond ⟨code, some hdr⟩] <:+: l ∧
        hdr.nonce = pjStrdup2 nonce) := by
  cases e with
  | expire i n =>
      cases h
      exact ⟨[], (List.append_nil _).symm, .inr (.inl ⟨i, n, rfl, rfl⟩)⟩
  | request rdata ans =>
      obtain ⟨o, ho, rfl⟩ := step_request h
      refine ⟨o.effects, rfl, ?_⟩
      rcases authenticate_ok_cases ho with ⟨-, rfl⟩ | ⟨-, -, rfl⟩ | ⟨-, -, -, ⟨-, hs | hs⟩, -⟩
      · exact .inl rfl
      · exact .inl rfl
      · exact .inl hs
      · exact .inr (.inr hs)

/-- What one event does to the entry under a key: nothing, unless it is the expiry of
the key or a challenge that writes it. -/
theorem step_getAv {e : Event} (h : r.step cfg verify e = some r') (i n : String) :
    ∃ l, r'.log = r.log ++ l ∧ (r'.store.getAv i n = r.store.getAv i n ∨ e.expires i n ∨
      ∃ av, Effect.setAv i n av ∈ l) := by
  obtain ⟨l, hl, hs | ⟨i', n', rfl, hs⟩ | ⟨impi, _, _, nonce, av, _, _, hs, hi, -⟩⟩ := step_cases h
  · exact ⟨l, hl, .inl (by rw [hs])⟩
  · by_cases hk : i = i' ∧ n = n'
    · exact ⟨l, hl, .inr (.inl hk)⟩
    · exact ⟨l, hl, .inl (by simp [hs, hk])⟩
  · by_cases hk : i = impi ∧ n = nonce
    · obtain ⟨rfl, rfl⟩ := hk
      exact ⟨l, hl, .inr (.inr ⟨av, hi.subset (by simp)⟩)⟩
    · exact ⟨l, hl, .inl (by simp [hs, hk])⟩

/-- Over a run, the entry under a key changes only by its expiry or by a challenge
that writes it. -/
theorem run_getAv {evs : List Event} (h : r.run cfg verify evs = some r') (i n : String) :
    ∃ l, r'.log = r.log ++ l ∧ (r'.store.getAv i n = r.store.getAv i n ∨
      (∃ e ∈ evs, e.expires i n) ∨ ∃ av, Effect.setAv i n av ∈ l) := by
  induction evs generalizing r with
  | nil =>
      cases h
      exact ⟨[], (List.append_nil _).symm, .inl rfl⟩
  | cons e es ih =>
      obtain ⟨r₁, h₁, hrun⟩ := Option.bind_eq_some.1 h
      obtain ⟨l₁, hl₁, hs₁⟩ := step_getAv h₁ i n
      obtain ⟨l₂, hl₂, hs₂⟩ := ih hrun
      refine ⟨l₁ ++ l₂, by rw [hl₂, hl₁, List.append_assoc], ?_⟩
      rcases hs₂ with hs₂ | ⟨e', he', hx⟩ | ⟨av, hav⟩
      · rcases hs₁ with hs₁ | hx | ⟨av, hav⟩
        · exact .inl (hs₂.trans hs₁)
        · exact .inr (.inl ⟨e, List.mem_cons_self _ _, hx⟩)
        · exact .inr (.inr ⟨av, List.mem_append_left _ hav⟩)
      · exact .inr (.inl ⟨e', List.mem_cons_of_mem _ he', hx⟩)
      · exact .inr (.inr ⟨av, List.mem_append_right _ hav⟩)

end Registrar

/-! ### Where the entries of the store come from -/

/-- A challenge issued for `impi`: the HSS was asked for `impi`, the vector stored
under `nonce`, and a response sent whose header carries the C-string copy of
`nonce`. -/
def Issued (log : List Effect) (impi nonce : String) (av : Value) : Prop :=
  ∃ impu autn code hdr, [.getAuthVector impi impu autn, .setAv impi nonce av,
    .respond ⟨code, some hdr⟩] <:+: log ∧ hdr.nonce = pjStrdup2 nonce

theorem Issued.append {log : List Effect} {impi nonce : String} {av : Value}
    (h : Issued log impi nonce av) (l : List Effect) : Issued (log ++ l) impi nonce av := by
  obtain ⟨impu, autn, code, hdr, hi, hn⟩ := h
  exact ⟨impu, autn, code, hdr, hi.trans (List.prefix_append _ _).isInfix, hn⟩

/-- Every entry of the store was written by a challenge recorded in the log. -/
def StoreIssued (r : Registrar) : Prop :=
  ∀ impi nonce av, r.store.getAv impi nonce = some av → Issued r.log impi nonce av

section Issued

variable {cfg : Config} {verify : Verifier} {r r' : Registrar}

theorem StoreIssued.step {e : Event} (hi : StoreIssued r) (h : r.step cfg verify e = some r') :
    StoreIssued r' := by
  intro i n av hg
  obtain ⟨l, hl, hs | ⟨i', n', -, hs⟩ | ⟨impi, impu, autn, nonce, av', code, hdr, hs, hinf, hn⟩⟩ :=
    Registrar.step_cases h
  all_goals rw [hl]
  · exact (hi i n av (hs ▸ hg)).append l
  · by_cases hk : i = i' ∧ n = n'
    · simp [hs, hk] at hg
    · exact (hi i n av (by simpa [hs, hk] using hg)).append l
  · by_cases hk : i = impi ∧ n = nonce
    · obtain ⟨rfl, rfl⟩ := hk
      simp only [hs, AvStore.getAv_setAv, and_self, if_true, Option.some.injEq] at hg
      subst hg
      exact ⟨impu, autn, code, hdr, hinf.trans (List.suffix_append _ _).isInfix, hn⟩
    · exact (hi i n av (by simpa [hs, hk] using hg)).append l

/-- On every run, every vector in the store was issued by a challenge for its own
identity and nonce. -/
theorem Registrar.Reachable.storeIssued (hr : Registrar.Reachable cfg verify r) : StoreIssued r := by
  induction hr with
  | initial => intro i n av hg; cases hg
  | step _ h ih => exact StoreIssued.step ih h

end Issued

/-- The HSS's Digest vector, answered for each request below. -/
def sampleAnswers : Answers := ⟨some sampleDigestAv, (sampleRandom, sampleRandom), true⟩

/-- `alice`'s first REGISTER: a header with the username `alice` and no response. -/
def initialRegister : RxData := ⟨.register, [sampleHdr "example.com" "" ""], "sip:alice@example.com"⟩

/-- The response to a challenge with `nonce` that `alice`'s client computes with `md5`
from the vector's HA1. -/
def digestResponse (md5 : String → String) (nonce : String) : String :=
  createDigest md5 nonce "" "" "" "sip:example.com" "example.com"
    ⟨"example.com", "digest", "alice", .digest, sampleHa1⟩ "REGISTER"

theorem digestResponse_isEmpty {md5 : String → String} (hmd5 : Md5Sized md5) (nonce : String) :
    (digestResponse md5 nonce).isEmpty = false :=
  createDigest_isEmpty hmd5 _ _ _ _ _ _ _ _

/-- `alice`'s REGISTER answering the challenge with `nonce`. -/
def answeringRegister (md5 : String → String) (nonce : String) : RxData :=
  ⟨.register, [sampleHdr "example.com" nonce (digestResponse md5 nonce)], "sip:alice@example.com"⟩

/-- The module's configuration in the samples: realm `example.com`, no analytics. -/
def sampleCfg : Config := ⟨"example.com", false⟩

/-- The registrar after `alice`'s first REGISTER was challenged. -/
def challenged : Registrar :=
  ⟨AvStore.empty.setAv "alice" sampleRandom.toString sampleDigestAv,
    [.getAuthVector "alice" "sip:alice@example.com" "",
      .setAv "alice" sampleRandom.toString sampleDigestAv,
      .respond ⟨scUnauthorized, some ⟨strDigest, "example.com", strMd5, sampleRandom.toString,
        sampleRandom.toString, "auth", false, []⟩⟩]⟩

/-- The sample vector's HA1 is one PJSIP takes whole. -/
theorem sampleDigestAv_eq : sampleDigestAv = (AuthVector.digest "auth" sampleHa1).toValue ∧
    (AuthVector.digest "auth" sampleHa1).SecretWhole := ⟨rfl, by decide⟩

/-- The step of `alice`'s first REGISTER, which carries no response, stores the vector
and sends the challenge, whatever the hash. -/
theorem initial_step_challenged (md5 : String → String) :
    Registrar.initial.step sampleCfg (authSrv md5 sampleCfg.realm)
      (.request initialRegister sampleAnswers) = some challenged := rfl

/-- After `alice`'s challenge, a REGISTER whose first header names the issued nonce
under another realm, and whose header in the realm carries the response for a nonce
`n0` that no challenge issued, is let through on the verifier's success, whatever
the hash. -/
theorem never_issued_nonce_admitted (md5 : String → String) :
    Registrar.initial.step sampleCfg (authSrv md5 sampleCfg.realm)
        (.request initialRegister sampleAnswers) = some challenged ∧
      realmHdr sampleCfg.realm (crossRealmRegister sampleRandom.toString (digestResponse md5 "n0")) =
        some (sampleHdr "example.com" "n0" (digestResponse md5 "n0")) ∧
      challenged.store.getAv "alice" "n0" = none ∧
      (∀ av, Effect.setAv "alice" "n0" av ∉ challenged.log) ∧
      authenticateRxRequest sampleCfg (authSrv md5 sampleCfg.realm) sampleAnswers
          (crossRealmRegister sampleRandom.toString (digestResponse md5 "n0")) challenged.store =
        .ok ⟨false, challenged.store, [.authSrvVerify]⟩ := by
  have hv : authSrv md5 sampleCfg.realm challenged.store
      (crossRealmRegister sampleRandom.toString (digestResponse md5 "n0")) = .ok (.success, 200) :=
    authSrv_of_stored_vector (.digest "auth" sampleHa1) rfl rfl rfl rfl rfl sampleDigestAv_eq.2.1 rfl
  have hf : (crossRealmRegister sampleRandom.toString (digestResponse md5 "n0")).findAuthorizationHdr =
      some (sampleHdr "other.net" sampleRandom.toString "x") := rfl
  exact ⟨initial_step_challenged md5, rfl, rfl, by simp [challenged, sampleRandom, RandomString.toString],
    authenticate_of_verified rfl rfl (by rw [verifyResponse_of_response hf rfl, hv]; rfl)⟩

/-! ### Replay -/

section Replay

variable {md5 : String → String} {cfg : Config}

/-- Over any run: a REGISTER admitted by the verifier leaves the store as it was,
with the vector it was checked against still stored; after any further events that
neither expire nor write the key the verifier read, the same REGISTER is admitted
again. -/
theorem replay_readmitted {r r₁ r' : Registrar} {rdata : RxData} {ans ans' : Answers}
    {evs : List Event} (hnb : ¬Bypassed rdata) (hv : Verified (authSrv md5 cfg.realm) r.store rdata)
    (h₁ : r.step cfg (authSrv md5 cfg.realm) (.request rdata ans) = some r₁)
    (hrun : r₁.run cfg (authSrv md5 cfg.realm) evs = some r')
    (hkey : ∀ h first, realmHdr cfg.realm rdata = some h → rdata.findAuthorizationHdr = some first →
      (∀ e ∈ evs, ¬e.expires h.username first.nonce) ∧
      ∀ av, Effect.setAv h.username first.nonce av ∉ r'.log.drop r₁.log.length) :
    r₁.store = r.store ∧
    (∃ hdr first av, realmHdr cfg.realm rdata = some hdr ∧ rdata.findAuthorizationHdr = some first ∧
      r₁.store.getAv hdr.username first.nonce = some av) ∧
    r'.step cfg (authSrv md5 cfg.realm) (.request rdata ans') = some ⟨r'.store, r'.log ++ [.authSrvVerify]⟩ := by
  rw [Registrar.step_of_authenticate (authenticate_of_verified_path hnb hv), Option.some.injEq] at h₁
  subst h₁
  obtain ⟨first, sc, hf, hresp, hok⟩ := hv
  obtain ⟨hdr, first', av, hh, hf', hg⟩ := authSrv_eq_success hok
  cases hf.symm.trans hf'
  obtain ⟨hexp, hset⟩ := hkey hdr first hh hf
  obtain ⟨l, hl, hs⟩ := Registrar.run_getAv hrun hdr.username first.nonce
  have hsame : r'.store.getAv hdr.username first.nonce = r.store.getAv hdr.username first.nonce := by
    rcases hs with hs | ⟨e, he, hx⟩ | ⟨av', hav⟩
    · exact hs
    · exact absurd hx (hexp e he)
    · exact absurd (by rw [hl, List.drop_left]; exact hav) (hset av')
  have hv' : Verified (authSrv md5 cfg.realm) r'.store rdata := ⟨first, sc, hf, hresp, by
    rw [authSrv_congr fun h f hh' hf' => by cases hh.symm.trans hh'; cases hf.symm.trans hf'; exact hsame,
      hok]⟩
  exact ⟨rfl, ⟨hdr, first, av, hh, hf, hg⟩,
    Registrar.step_of_authenticate (authenticate_of_verified_path hnb hv')⟩

/-- The registrar after the answer was admitted, then after another entry expired. -/
def answered : Registrar := ⟨challenged.store, challenged.log ++ [.authSrvVerify]⟩

def answeredThenExpired : Registrar := ⟨answered.store.expire "bob" "n0", answered.log⟩

/-- With a hash that renders 32 bytes, `alice`'s answer to the challenge is verified
against the vector the challenge stored. -/
theorem answeringRegister_verified {md5 : String → String} (hmd5 : Md5Sized md5) (store : AvStore)
    (hstore : store.getAv "alice" sampleRandom.toString = some sampleDigestAv) :
    Verified (authSrv md5 sampleCfg.realm) store (answeringRegister md5 sampleRandom.toString) :=
  ⟨_, 200, rfl, digestResponse_isEmpty hmd5 _,
    authSrv_of_stored_vector (.digest "auth" sampleHa1) rfl rfl rfl rfl hstore sampleDigestAv_eq.2.1 rfl⟩

/-- After another entry expires, `alice`'s admitted answer is admitted again, for every
hash that renders 32 bytes. -/
theorem answer_readmitted_after_expiry :
    (AuthVector.digest "auth" sampleHa1).SecretWhole ∧
    ∀ md5, Md5Sized md5 →
      answered.store = challenged.store ∧
      (∃ hdr first av, realmHdr sampleCfg.realm (answeringRegister md5 sampleRandom.toString) = some hdr ∧
        (answeringRegister md5 sampleRandom.toString).findAuthorizationHdr = some first ∧
        answered.store.getAv hdr.username first.nonce = some av) ∧
      answeredThenExpired.step sampleCfg (authSrv md5 sampleCfg.realm)
          (.request (answeringRegister md5 sampleRandom.toString) sampleAnswers) =
        some ⟨answeredThenExpired.store, answeredThenExpired.log ++ [.authSrvVerify]⟩ := by
  refine ⟨sampleDigestAv_eq.2, fun md5 hmd5 => ?_⟩
  have hnb : ¬Bypassed (answeringRegister md5 sampleRandom.toString) :=
    not_or.2 ⟨fun h => h rfl, Bool.false_ne_true⟩
  have hv := answeringRegister_verified hmd5 challenged.store rfl
  exact @replay_readmitted md5 sampleCfg challenged answered answeredThenExpired
    (answeringRegister md5 sampleRandom.toString) sampleAnswers sampleAnswers [.expire "bob" "n0"]
    hnb hv (Registrar.step_of_authenticate (authenticate_of_verified_path hnb hv)) rfl
    fun h first hh hf => by
      cases hh
      cases hf
      exact ⟨by simp [Event.expires, sampleHdr], by simp [answeredThenExpired]⟩

/-- `alice`'s answer to the challenge goes on with the store unchanged, so the same
REGISTER sent again right after it goes on as well: after the challenge, both copies
call only the verifier, for every hash that renders 32 bytes. -/
theorem answer_admitted_twice :
    (AuthVector.digest "auth" sampleHa1).SecretWhole ∧
    ∀ md5, Md5Sized md5 →
      authenticateRxRequest sampleCfg (authSrv md5 sampleCfg.realm) sampleAnswers
          (answeringRegister md5 sampleRandom.toString) challenged.store =
        .ok ⟨false, challenged.store, [.authSrvVerify]⟩ ∧
      Registrar.initial.run sampleCfg (authSrv md5 sampleCfg.realm)
          [.request initialRegister sampleAnswers,
            .request (answeringRegister md5 sampleRandom.toString) sampleAnswers,
            .request (answeringRegister md5 sampleRandom.toString) sampleAnswers] =
        some ⟨challenged.store, challenged.log ++ [.authSrvVerify, .authSrvVerify]⟩ := by
  refine ⟨sampleDigestAv_eq.2, fun md5 hmd5 => ?_⟩
  have hnb : ¬Bypassed (answeringRegister md5 sampleRandom.toString) :=
    not_or.2 ⟨fun h => h rfl, Bool.false_ne_true⟩
  have hadm : authenticateRxRequest sampleCfg (authSrv md5 sampleCfg.realm) sampleAnswers
      (answeringRegister md5 sampleRandom.toString) challenged.store =
        .ok ⟨false, challenged.store, [.authSrvVerify]⟩ :=
    authenticate_of_verified_path hnb (answeringRegister_verified hmd5 challenged.store rfl)
  have hstep : ∀ l, Registrar.step sampleCfg (authSrv md5 sampleCfg.realm) ⟨challenged.store, l⟩
      (.request (answeringRegister md5 sampleRandom.toString) sampleAnswers) =
        some ⟨challenged.store, l ++ [.authSrvVerify]⟩ := fun l =>
    Registrar.step_of_authenticate (r := ⟨challenged.store, l⟩) hadm
  refine ⟨hadm, ?_⟩
  simp only [Registrar.run, initial_step_challenged, Option.some_bind]
  rw [show challenged = ⟨challenged.store, challenged.log⟩ from rfl, hstep, Option.some_bind, hstep]
  simp

end Replay

end Sprout.Authentication
