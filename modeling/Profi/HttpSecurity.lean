import Profi.Events
import Profi.KernelNames
import Profi.Lib.Runs
import Profi.Lib.TtlCache
import Profi.Lib.Text

/-!
# Who Reaches the Metrics Endpoint

The TLS and authentication options of `src/http_security.rs`, their check at startup, the reviewer
`main` wires in, and the layer `serve_http` puts before the routes. A request is let through, turned
away, or carries a bearer token that has to be authenticated.

Authenticating a token takes several steps, each of which may wait: a look into the cache, a review
by the API server, and the insertion of an accepted token into the cache. `AuthSys` interleaves
these steps over any number of requests, with any answers to the reviews, any evictions and clients
that go away in the middle. It logs the reviews and the requests let through, so that each of the
latter can be held against the review that answers for it.
-/

namespace Profi

open Text

/-! ## Options -/

/-- `TlsMode`. -/
inductive TlsMode where
  | off
  | server
  | mtls
deriving DecidableEq, Repr

/-- The `Debug` text of a mode. -/
def TlsMode.debug : TlsMode → String
  | .off => "Off"
  | .server => "Server"
  | .mtls => "Mtls"

/-- `AuthMode`. -/
inductive AuthMode where
  | off
  | bearer
  | mtlsOrBearer
deriving DecidableEq, Repr

/-- `MetricsSecurityArgs`, with the defaults of the command line. -/
structure MetricsSecurityArgs where
  metricsTlsMode : TlsMode := .off
  metricsTlsCert : Option String := none
  metricsTlsKey : Option String := none
  metricsTlsClientCa : Option String := none
  metricsAuthMode : AuthMode := .off
  metricsAuthAudience : Option String := none
  /-- In seconds. -/
  metricsAuthCacheTtl : U64 := 60
  metricsAuthCacheSize : U64 := 1024
deriving DecidableEq, Repr

namespace MetricsSecurityArgs

/-- `tls_enabled`. -/
def tlsEnabled (security : MetricsSecurityArgs) : Bool := security.metricsTlsMode != .off

/-- `needs_k8s_client`. -/
def needsK8sClient (security : MetricsSecurityArgs) : Bool :=
  match security.metricsAuthMode with
  | .bearer | .mtlsOrBearer => true
  | .off => false

/-- `validate`. -/
def validate (security : MetricsSecurityArgs) : Except String Unit := do
  if security.tlsEnabled &&
      (security.metricsTlsCert.isNone || security.metricsTlsKey.isNone) then
    throw ("--metrics-tls-cert and --metrics-tls-key are required when --metrics-tls-mode=" ++
      security.metricsTlsMode.debug)
  if security.metricsTlsMode == .mtls && security.metricsTlsClientCa.isNone then
    throw "--metrics-tls-client-ca is required when --metrics-tls-mode=mtls"
  if security.metricsAuthMode == .mtlsOrBearer && security.metricsTlsMode != .mtls then
    throw ("--metrics-auth-mode=mtls-or-bearer requires --metrics-tls-mode=mtls " ++
      "(the mTLS path needs a client verifier)")

end MetricsSecurityArgs

/-- `TokenReviewer`, without its cache, which is part of the running server. -/
structure TokenReviewer where
  audience : Option String
  /-- In nanoseconds. -/
  cacheTtl : ℕ
  cacheSize : U64
deriving DecidableEq, Repr

/-- `AuthLayerState`. -/
structure AuthLayerState where
  mode : AuthMode
  mtlsListener : Bool
  reviewer : Option TokenReviewer
deriving DecidableEq, Repr

/-- The reviewer `main` makes; `client` is the result of looking for a cluster. -/
def wireReviewer (security : MetricsSecurityArgs) (client : Except String Unit) :
    Except String (Option TokenReviewer) :=
  if security.needsK8sClient then
    match client with
    | .ok _ => .ok (some
        { audience := security.metricsAuthAudience
          cacheTtl := security.metricsAuthCacheTtl.toNat * 10 ^ 9
          cacheSize := security.metricsAuthCacheSize })
    | .error e => .error ("TokenReview auth requested but K8s client init failed: " ++ e)
  else .ok none

/-- The layer `serve_http` puts before the routes, if any. -/
def serveHttp (security : MetricsSecurityArgs) (reviewer : Option TokenReviewer) :
    Option AuthLayerState :=
  if security.metricsAuthMode = .off then none
  else some
    { mode := security.metricsAuthMode
      mtlsListener := security.metricsTlsMode == .mtls
      reviewer }

/-- The way of `main` from the options to the server. -/
def startHttp (security : MetricsSecurityArgs) (client : Except String Unit) :
    Except String (Option AuthLayerState) := do
  security.validate
  let reviewer ← wireReviewer security client
  return serveHttp security reviewer

/-- A server that starts with authentication has the layer and a reviewer in it. -/
theorem startHttp_eq_ok {security : MetricsSecurityArgs} {client : Except String Unit}
    {layer : Option AuthLayerState} (h : startHttp security client = .ok layer)
    (hmode : security.metricsAuthMode ≠ .off) :
    layer = some
      { mode := security.metricsAuthMode
        mtlsListener := security.metricsTlsMode == .mtls
        reviewer := some
          { audience := security.metricsAuthAudience
            cacheTtl := security.metricsAuthCacheTtl.toNat * 10 ^ 9
            cacheSize := security.metricsAuthCacheSize } } := by
  have hclient : security.needsK8sClient = true := by
    unfold MetricsSecurityArgs.needsK8sClient
    cases hm : security.metricsAuthMode with
    | off => exact absurd hm hmode
    | bearer => rfl
    | mtlsOrBearer => rfl
  unfold startHttp wireReviewer at h
  rw [if_pos hclient] at h
  -- an invalid configuration or a missing cluster ends `main`
  cases hvalid : security.validate with
  | error e =>
    rw [hvalid] at h
    cases h
  | ok u =>
    rw [hvalid] at h
    cases client with
    | error e => cases h
    | ok _ =>
      cases h
      exact if_neg hmode

/-! ## Requests -/

/-- What the layer reads of a request: the path and the value of the first `Authorization`
    header. -/
structure HttpRequest where
  path : String
  authorization : Option (List U8)
deriving DecidableEq, Repr

/-- `is_unauthenticated_path`. -/
def isUnauthenticatedPath (path : String) : Bool := path == "/health" || path == "/ready"

/-- `HeaderValue::to_str`: visible ASCII and tabs only. -/
def headerToStr (value : List U8) : Option (List Char) :=
  if value.all fun b => (32 ≤ b.toNat && b.toNat < 127) || b.toNat == 9 then
    some (value.map fun b => Char.ofNat b.toNat)
  else none

/-- The token of the `Authorization` header. -/
def HttpRequest.bearer (req : HttpRequest) : Option (List Char) := do
  let value ← req.authorization
  let s ← headerToStr value
  let raw ← s.dropPrefix? "Bearer ".toList
  return trim raw

/-- The header is `Bearer ` and something that trims to `token`, which is not empty. -/
def HttpRequest.Carries (req : HttpRequest) (token : List Char) : Prop :=
  token ≠ [] ∧ ∃ value raw, req.authorization = some value ∧
    headerToStr value = some ("Bearer ".toList ++ raw) ∧ trim raw = token

theorem HttpRequest.carries_iff {req : HttpRequest} {token : List Char} :
    req.Carries token ↔ token ≠ [] ∧ req.bearer = some token := by
  refine and_congr_right fun _ => ?_
  simp only [HttpRequest.bearer, Option.bind_eq_bind, Option.bind_eq_some_iff,
    List.dropPrefix?_eq_some_iff, Option.pure_def, Option.some.injEq]
  constructor
  · rintro ⟨value, raw, hvalue, hs, rfl⟩
    exact ⟨value, hvalue, _, hs, raw, ⟨_, rfl, beq_self_eq_true _⟩, rfl⟩
  · rintro ⟨value, hvalue, s, hs, raw, ⟨p, rfl, hp⟩, rfl⟩
    rw [beq_iff_eq] at hp
    subst hp
    exact ⟨value, raw, hvalue, hs, rfl⟩

/-- `AuthFailure`. -/
inductive AuthFailure where
  | noAuth
  | tokenReviewDeny
  | tokenReviewError
  | audienceMismatch
deriving DecidableEq, Repr

/-- What the layer does with a request before it waits for anything. -/
inductive AuthDecision where
  | next
  | unauthorized (failure : AuthFailure)
  | authenticate (reviewer : TokenReviewer) (token : List Char)
deriving DecidableEq, Repr

/-- `auth_middleware`, up to the call of `authenticate`. -/
def authMiddleware (state : AuthLayerState) (req : HttpRequest) : AuthDecision :=
  if state.mode = .off then .next
  else if isUnauthenticatedPath req.path then .next
  -- the listener has asked for a client certificate and checked it
  else if state.mode = .mtlsOrBearer ∧ state.mtlsListener then .next
  else
    match req.bearer with
    | none => .unauthorized .noAuth
    | some token =>
      if token = [] then .unauthorized .noAuth
      else
        match state.reviewer with
        -- `main` wires a reviewer whenever there is a mode
        | none => .unauthorized .tokenReviewError
        | some reviewer => .authenticate reviewer token

/-- A request at the server, with the layer or without. -/
def handle (layer : Option AuthLayerState) (req : HttpRequest) : AuthDecision :=
  match layer with
  | none => .next
  | some state => authMiddleware state req

theorem authMiddleware_next {state : AuthLayerState} {req : HttpRequest}
    (hmode : state.mode ≠ .off) (h : authMiddleware state req = .next) :
    isUnauthenticatedPath req.path = true ∨
      state.mode = .mtlsOrBearer ∧ state.mtlsListener = true := by
  unfold authMiddleware at h
  rw [if_neg hmode] at h
  split at h
  · exact .inl ‹_›
  · split at h
    · exact .inr ‹_›
    · -- the branches that are left turn the request away or authenticate it
      split at h
      · cases h
      · split at h
        · cases h
        · split at h <;> cases h

theorem authMiddleware_authenticate {state : AuthLayerState} {req : HttpRequest}
    {reviewer : TokenReviewer} {token : List Char}
    (h : authMiddleware state req = .authenticate reviewer token) :
    state.reviewer = some reviewer ∧ req.Carries token := by
  unfold authMiddleware at h
  split at h
  · cases h
  · split at h
    · cases h
    · split at h
      · cases h
      · split at h
        · cases h
        next hbearer =>
          split at h
          · cases h
          next hne =>
            split at h
            · cases h
            next hreviewer =>
              cases h
              exact ⟨hreviewer, HttpRequest.carries_iff.mpr ⟨hne, hbearer⟩⟩

/-! ## Reviews -/

/-- `TokenReviewSpec`. -/
structure TokenReviewSpec where
  token : Option (List Char)
  audiences : Option (List String)
deriving DecidableEq, Repr

/-- The spec `authenticate` sends for a token. -/
def TokenReviewer.spec (reviewer : TokenReviewer) (token : List Char) : TokenReviewSpec :=
  { token := some token, audiences := reviewer.audience.map fun a => [a] }

/-- `UserInfo`. -/
structure UserInfo where
  username : Option String
deriving DecidableEq, Repr

/-- `TokenReviewStatus`. -/
structure TokenReviewStatus where
  authenticated : Option Bool
  audiences : Option (List String)
  user : Option UserInfo
deriving DecidableEq, Repr

/-- What comes back from the API: an error, or a review that may lack its status. -/
abbrev ReviewAnswer := Except String (Option TokenReviewStatus)

/-- `authenticate`, from the answer to the insertion into the cache: the user's name. -/
def TokenReviewer.conclude (reviewer : TokenReviewer) (answer : ReviewAnswer) :
    Except AuthFailure String :=
  match answer with
  | .error _ => .error .tokenReviewError
  | .ok none => .error .tokenReviewError
  | .ok (some status) =>
    -- without `authenticated` the token is denied
    if !status.authenticated.getD false then .error .tokenReviewDeny
    else if reviewer.audience.all fun required =>
        (status.audiences.map fun a => a.any (· == required)).getD false then
      .ok ((status.user.bind UserInfo.username).getD "unknown")
    else .error .audienceMismatch

/-- The answer says `authenticated` and lists the audience, if one is configured. -/
def Accepts (audience : Option String) (answer : ReviewAnswer) : Prop :=
  ∃ status, answer = .ok (some status) ∧ status.authenticated = some true ∧
    ∀ required ∈ audience, ∃ listed ∈ status.audiences, required ∈ listed

/-- A review is taken exactly if it authenticates the token for all required audiences. -/
theorem TokenReviewer.conclude_ok_iff {reviewer : TokenReviewer} {answer : ReviewAnswer} :
    (∃ username, reviewer.conclude answer = .ok username) ↔ Accepts reviewer.audience answer := by
  have hlisted : ∀ status : TokenReviewStatus,
      (reviewer.audience.all fun required =>
        (status.audiences.map fun a => a.any (· == required)).getD false) = true ↔
      ∀ required ∈ reviewer.audience, ∃ listed ∈ status.audiences, required ∈ listed := by
    intro status
    cases reviewer.audience <;> cases status.audiences <;> simp
  match answer with
  | .error _ => simp [conclude, Accepts]
  | .ok none => simp [conclude, Accepts]
  | .ok (some status) =>
    unfold conclude
    constructor
    · rintro ⟨username, h⟩
      dsimp only at h
      split at h
      · cases h
      -- a status that is absent or false has been turned away
      next hauth =>
        split at h
        next haud =>
          refine ⟨status, rfl, ?_, (hlisted status).mp haud⟩
          cases hs : status.authenticated with
          | none => simp [hs] at hauth
          | some b => simpa [hs] using hauth
        · cases h
    · rintro ⟨status', heq, hauth, haud⟩
      cases heq
      refine ⟨(status.user.bind UserInfo.username).getD "unknown", ?_⟩
      dsimp only
      rw [if_neg (by simp [hauth]), if_pos ((hlisted status).mpr haud)]

/-! ## The Running Server -/

/-- Where the authentication of a request stands. -/
inductive AuthTask where
  /-- Before the look into the cache. -/
  | lookup (req : HttpRequest) (reviewer : TokenReviewer) (token : List Char)
  /-- The review has been sent off. -/
  | review (req : HttpRequest) (reviewer : TokenReviewer) (token : List Char) (madeAt : ℕ)
  /-- The token was accepted and is about to be cached. -/
  | insert (req : HttpRequest) (reviewer : TokenReviewer) (token : List Char) (madeAt : ℕ)
      (answer : ReviewAnswer) (username : String)
deriving DecidableEq, Repr

/-- `CachedAuthn`. -/
structure CachedAuthn where
  username : String
deriving DecidableEq, Repr

/-- A review that has been concluded. -/
structure Review where
  /-- The request it was made for. -/
  id : ℕ
  spec : TokenReviewSpec
  madeAt : ℕ
  answer : ReviewAnswer
  /-- When its result was put into the cache, if it was. -/
  cachedAt : Option ℕ
deriving DecidableEq, Repr

/-- A request that was let through to its handler. -/
structure Admission where
  id : ℕ
  request : HttpRequest
  time : ℕ
deriving DecidableEq, Repr

/-- The server, with keys of type `D` in its cache, and its logs. -/
structure AuthSys (D : Type) where
  now : ℕ
  nextId : ℕ
  tasks : FinMap ℕ AuthTask
  cache : TtlCache D CachedAuthn
  reviews : List Review
  admitted : List Admission
  rejected : List (ℕ × AuthFailure)

/-- What happens at the server. Any request in flight may take its next step at any time. -/
inductive AuthEvent (D : Type) where
  | request (req : HttpRequest)
  | cacheGet (id : ℕ)
  | answer (id : ℕ) (answer : ReviewAnswer)
  | cacheInsert (id : ℕ)
  /-- The client of a request goes away, and what was in flight for it is dropped. -/
  | disconnect (id : ℕ)
  /-- The cache drops an entry. -/
  | evict (key : D)
  | tick (ns : ℕ)

namespace AuthSys

variable {D : Type}

/-- The server before its first request. -/
def init (D : Type) (layer : Option AuthLayerState) : AuthSys D where
  now := 0
  nextId := 0
  tasks := ∅
  cache := .empty D CachedAuthn (((layer.bind (·.reviewer)).map (·.cacheTtl)).getD 0)
  reviews := []
  admitted := []
  rejected := []

/-- A request goes on to its handler. -/
def letThrough (s : AuthSys D) (id : ℕ) (req : HttpRequest) : AuthSys D :=
  { s with tasks := s.tasks.erase id, admitted := s.admitted ++ [⟨id, req, s.now⟩] }

/-- `unauthorized_response`. -/
def reject (s : AuthSys D) (id : ℕ) (failure : AuthFailure) : AuthSys D :=
  { s with tasks := s.tasks.erase id, rejected := s.rejected ++ [(id, failure)] }

variable [DecidableEq D]

/-- One step of the server. `digest` is the hash whose value keys the cache. -/
def step (digest : List Char → D) (layer : Option AuthLayerState) (s : AuthSys D) :
    AuthEvent D → AuthSys D
  | .request req =>
    let id := s.nextId
    let s := { s with nextId := id + 1 }
    match handle layer req with
    | .next => s.letThrough id req
    | .unauthorized failure => s.reject id failure
    | .authenticate reviewer token =>
      { s with tasks := s.tasks.insert id (.lookup req reviewer token) }
  | .cacheGet id =>
    match s.tasks.lookup id with
    | some (.lookup req reviewer token) =>
      match s.cache.get s.now (digest token) with
      -- a hit needs no review, whoever the entry was made for
      | some _ => s.letThrough id req
      | none => { s with tasks := s.tasks.insert id (.review req reviewer token s.now) }
    | _ => s
  | .answer id answer =>
    match s.tasks.lookup id with
    | some (.review req reviewer token madeAt) =>
      match reviewer.conclude answer with
      | .ok username =>
        { s with
          tasks := s.tasks.insert id (.insert req reviewer token madeAt answer username) }
      -- only accepted tokens are cached
      | .error failure =>
        let review : Review := ⟨id, reviewer.spec token, madeAt, answer, none⟩
        let s := { s with reviews := s.reviews ++ [review] }
        s.reject id failure
    | _ => s
  | .cacheInsert id =>
    match s.tasks.lookup id with
    | some (.insert req reviewer token madeAt answer username) =>
      let review : Review := ⟨id, reviewer.spec token, madeAt, answer, some s.now⟩
      let s :=
        { s with
          cache := s.cache.insert s.now (digest token) ⟨username⟩
          reviews := s.reviews ++ [review] }
      s.letThrough id req
    | _ => s
  | .disconnect id => { s with tasks := s.tasks.erase id }
  | .evict key => { s with cache := s.cache.evict key }
  | .tick ns => { s with now := s.now + ns }

end AuthSys

/-- The tokens that the requests of a run carry. -/
def AuthEvent.tokens {D : Type} (es : List (AuthEvent D)) : Set (List Char) :=
  { token | ∃ req : HttpRequest, AuthEvent.request req ∈ es ∧ req.Carries token }

/-! ## Every Admission Has Its Reason -/

/-- The review was about this token, its answer was accepted, and it was cached at `t`. -/
def Review.CachedFor (audience : Option String) (token : List Char) (t : ℕ) (r : Review) : Prop :=
  r.spec.token = some token ∧ Accepts audience r.answer ∧ r.cachedAt = some t ∧ r.madeAt ≤ t

/-- The request carries a token that a review accepted: a review of its own, or one whose result
    was put into the cache less than `ttl` ago. -/
def Admission.Reviewed (audience : Option String) (ttl : ℕ) (reviews : List Review)
    (x : Admission) : Prop :=
  ∃ token, x.request.Carries token ∧ ∃ r ∈ reviews, ∃ t, r.CachedFor audience token t ∧
    t ≤ x.time ∧ (r.id = x.id ∨ x.time < t + ttl)

/-- What there is to be said for letting a request through. -/
def Admission.Justified (security : MetricsSecurityArgs) (reviews : List Review) (x : Admission) :
    Prop :=
  isUnauthenticatedPath x.request.path = true ∨
  security.metricsAuthMode = .mtlsOrBearer ∧ security.metricsTlsMode = .mtls ∨
  x.Reviewed security.metricsAuthAudience (security.metricsAuthCacheTtl.toNat * 10 ^ 9) reviews

theorem Admission.Reviewed.mono {audience : Option String} {ttl : ℕ} {rs rs' : List Review}
    {x : Admission} (h : x.Reviewed audience ttl rs) (hsub : rs ⊆ rs') :
    x.Reviewed audience ttl rs' := by
  obtain ⟨token, hcarries, r, hr, hrest⟩ := h
  exact ⟨token, hcarries, r, hsub hr, hrest⟩

theorem Admission.Justified.mono {security : MetricsSecurityArgs} {rs rs' : List Review}
    {x : Admission} (h : x.Justified security rs) (hsub : rs ⊆ rs') : x.Justified security rs' :=
  h.imp_right fun h => h.imp_right fun h => h.mono hsub

/-- A request in flight carries its token, which is one of `tokens`, and an accepted one really
    was. -/
def AuthTask.Sound (reviewer : TokenReviewer) (tokens : Set (List Char)) (now : ℕ) :
    AuthTask → Prop
  | .lookup req r token => r = reviewer ∧ req.Carries token ∧ token ∈ tokens
  | .review req r token madeAt =>
    r = reviewer ∧ req.Carries token ∧ token ∈ tokens ∧ madeAt ≤ now
  | .insert req r token madeAt answer _ =>
    r = reviewer ∧ req.Carries token ∧ token ∈ tokens ∧ madeAt ≤ now ∧
      Accepts reviewer.audience answer

theorem AuthTask.Sound.later {reviewer : TokenReviewer} {tokens : Set (List Char)}
    {now later : ℕ} {task : AuthTask} (h : task.Sound reviewer tokens now) (hle : now ≤ later) :
    task.Sound reviewer tokens later := by
  cases task with
  | lookup req r token => exact h
  | review req r token madeAt =>
    obtain ⟨hr, hcarries, htoken, hmade⟩ := h
    exact ⟨hr, hcarries, htoken, hmade.trans hle⟩
  | insert req r token madeAt answer username =>
    obtain ⟨hr, hcarries, htoken, hmade, haccepts⟩ := h
    exact ⟨hr, hcarries, htoken, hmade.trans hle, haccepts⟩

namespace AuthSys

variable {D : Type}

/-- A cache entry made at `t` comes from a review of one of `tokens`. -/
def FromReview (digest : List Char → D) (reviewer : TokenReviewer) (tokens : Set (List Char))
    (reviews : List Review) (now : ℕ) (key : D) (_ : CachedAuthn) (t : ℕ) : Prop :=
  ∃ token ∈ tokens, digest token = key ∧ t ≤ now ∧
    ∃ r ∈ reviews, r.CachedFor reviewer.audience token t

theorem FromReview.mono {digest : List Char → D} {reviewer : TokenReviewer}
    {tokens : Set (List Char)} {rs rs' : List Review} {now later : ℕ} (hsub : rs ⊆ rs')
    (hle : now ≤ later) {key : D} {v : CachedAuthn} {t : ℕ}
    (h : FromReview digest reviewer tokens rs now key v t) :
    FromReview digest reviewer tokens rs' later key v t := by
  obtain ⟨token, htoken, hdigest, ht, r, hr, hcached⟩ := h
  exact ⟨token, htoken, hdigest, ht.trans hle, r, hsub hr, hcached⟩

variable [DecidableEq D]

/-- The invariant of the server. -/
structure Sound (digest : List Char → D) (security : MetricsSecurityArgs)
    (reviewer : TokenReviewer) (tokens : Set (List Char)) (s : AuthSys D) : Prop where
  tasks : ∀ id task, s.tasks.lookup id = some task → task.Sound reviewer tokens s.now
  ttl : s.cache.ttl = reviewer.cacheTtl
  cache : s.cache.Holds (FromReview digest reviewer tokens s.reviews s.now)
  reviews : ∀ r ∈ s.reviews, r.cachedAt ≠ none → Accepts reviewer.audience r.answer
  admitted : ∀ x ∈ s.admitted, x.Justified security s.reviews

section Steps

variable {digest : List Char → D} {security : MetricsSecurityArgs} {reviewer : TokenReviewer}
  {tokens : Set (List Char)} {s : AuthSys D} (h : s.Sound digest security reviewer tokens)

include h

/-- A request in flight moves on to a sound task. -/
theorem Sound.insert_task {id : ℕ} {task : AuthTask} (htask : task.Sound reviewer tokens s.now) :
    Sound digest security reviewer tokens { s with tasks := s.tasks.insert id task } := by
  refine { h with tasks := ?_ }
  intro id' task' hlookup
  rcases FinMap.lookup_insert_cases hlookup with ⟨-, rfl⟩ | ⟨-, hold⟩
  · exact htask
  · exact h.tasks id' task' hold

theorem Sound.erase_task (id : ℕ) :
    Sound digest security reviewer tokens { s with tasks := s.tasks.erase id } := by
  refine { h with tasks := ?_ }
  intro id' task' hlookup
  rw [FinMap.lookup_erase_eq_ite] at hlookup
  split at hlookup
  · cases hlookup
  · exact h.tasks id' task' hlookup

/-- One more review in the log. -/
theorem Sound.log_review {r : Review}
    (hr : r.cachedAt ≠ none → Accepts reviewer.audience r.answer) :
    Sound digest security reviewer tokens { s with reviews := s.reviews ++ [r] } where
  tasks := h.tasks
  ttl := h.ttl
  cache := h.cache.mono fun _ _ _ => FromReview.mono (List.subset_append_left _ _) le_rfl
  reviews := by
    intro r' hr'
    rcases List.mem_append.mp hr' with hold | hnew
    · exact h.reviews r' hold
    · rw [List.mem_singleton.mp hnew]
      exact hr
  admitted := fun x hx => (h.admitted x hx).mono (List.subset_append_left _ _)

theorem Sound.letThrough {id : ℕ} {req : HttpRequest}
    (hreq : Admission.Justified security s.reviews ⟨id, req, s.now⟩) :
    Sound digest security reviewer tokens (s.letThrough id req) := by
  refine { h.erase_task id with admitted := ?_ }
  intro x hx
  rcases List.mem_append.mp hx with hold | hnew
  · exact h.admitted x hold
  · rw [List.mem_singleton.mp hnew]
    exact hreq

theorem Sound.reject (id : ℕ) (failure : AuthFailure) :
    Sound digest security reviewer tokens (s.reject id failure) :=
  { h.erase_task id with }

theorem Sound.tick (ns : ℕ) :
    Sound digest security reviewer tokens { s with now := s.now + ns } where
  tasks := fun id task hlookup => (h.tasks id task hlookup).later (Nat.le_add_right _ _)
  ttl := h.ttl
  cache := h.cache.mono fun _ _ _ => FromReview.mono (List.Subset.refl _) (Nat.le_add_right _ _)
  reviews := h.reviews
  admitted := h.admitted

/-- A hit is as good as the review that filled the cache: equal digests are equal tokens. -/
theorem Sound.reviewed_of_hit (hinj : Set.InjOn digest tokens) (id : ℕ) {req : HttpRequest}
    {token : List Char} (hcarries : req.Carries token) (htoken : token ∈ tokens) {hit : CachedAuthn}
    (hget : s.cache.get s.now (digest token) = some hit) :
    Admission.Reviewed reviewer.audience reviewer.cacheTtl s.reviews ⟨id, req, s.now⟩ := by
  obtain ⟨t, ⟨token', htoken', hdigest, ht, r, hr, hcached⟩, hfresh⟩ := h.cache.get hget
  -- the entry's token and the request's have the same digest
  have heq : token' = token := hinj htoken' htoken hdigest
  rw [heq] at hcached
  rw [h.ttl] at hfresh
  exact ⟨token, hcarries, r, hr, t, hcached, ht, .inr hfresh⟩

/-- The entry of an accepted token, with its review in the log. -/
theorem Sound.cache_insert {token : List Char} (htoken : token ∈ tokens) (username : String)
    {r : Review} (hr : r ∈ s.reviews) (hcached : r.CachedFor reviewer.audience token s.now) :
    Sound digest security reviewer tokens
      { s with cache := s.cache.insert s.now (digest token) ⟨username⟩ } :=
  { h with cache := h.cache.insert ⟨token, htoken, rfl, le_rfl, r, hr, hcached⟩ }

/-- A request is let through at once only for its path or its client certificate; otherwise it is
    turned away or waits with its token. -/
theorem Sound.request (hmode : security.metricsAuthMode ≠ .off) {req : HttpRequest}
    (hreq : ∀ token, req.Carries token → token ∈ tokens) :
    Sound digest security reviewer tokens
      (s.step digest (serveHttp security (some reviewer)) (.request req)) := by
  -- a new number for the request changes nothing the invariant looks at
  have hnext : Sound digest security reviewer tokens { s with nextId := s.nextId + 1 } :=
    { h with }
  unfold AuthSys.step
  rw [serveHttp, if_neg hmode]
  dsimp only [handle]
  split
  next hdecision =>
    apply hnext.letThrough
    rcases authMiddleware_next (by exact hmode) hdecision with hpath | ⟨hor, hlistener⟩
    · exact .inl hpath
    · exact .inr (.inl ⟨hor, beq_iff_eq.mp hlistener⟩)
  · exact hnext.reject _ _
  next hdecision =>
    obtain ⟨hreviewer, hcarries⟩ := authMiddleware_authenticate hdecision
    apply hnext.insert_task
    exact ⟨(Option.some.inj hreviewer).symm, hcarries, hreq _ hcarries⟩

theorem Sound.cacheGet (haudience : reviewer.audience = security.metricsAuthAudience)
    (httl : reviewer.cacheTtl = security.metricsAuthCacheTtl.toNat * 10 ^ 9)
    (hinj : Set.InjOn digest tokens) (layer : Option AuthLayerState) (id : ℕ) :
    Sound digest security reviewer tokens (s.step digest layer (.cacheGet id)) := by
  unfold AuthSys.step
  dsimp only
  split
  next req r token htask =>
    obtain ⟨rfl, hcarries, htoken⟩ := h.tasks id _ htask
    split
    next hit hget =>
      have hreviewed := h.reviewed_of_hit hinj id hcarries htoken hget
      rw [haudience, httl] at hreviewed
      exact h.letThrough (.inr (.inr hreviewed))
    · exact h.insert_task ⟨rfl, hcarries, htoken, le_rfl⟩
  · exact h

/-- A review that does not accept is logged as not cached. -/
theorem Sound.answer (layer : Option AuthLayerState) (id : ℕ) (answer : ReviewAnswer) :
    Sound digest security reviewer tokens (s.step digest layer (.answer id answer)) := by
  unfold AuthSys.step
  dsimp only
  split
  next req r token madeAt htask =>
    obtain ⟨rfl, hcarries, htoken, hmade⟩ := h.tasks id _ htask
    split
    next username hok =>
      have haccepts := TokenReviewer.conclude_ok_iff.mp ⟨username, hok⟩
      exact h.insert_task ⟨rfl, hcarries, htoken, hmade, haccepts⟩
    · apply Sound.reject
      apply h.log_review
      intro hcached
      exact absurd rfl hcached
  · exact h

theorem Sound.cacheInsert (haudience : reviewer.audience = security.metricsAuthAudience)
    (layer : Option AuthLayerState) (id : ℕ) :
    Sound digest security reviewer tokens (s.step digest layer (.cacheInsert id)) := by
  unfold AuthSys.step
  dsimp only
  split
  next req r token madeAt answer username htask =>
    obtain ⟨rfl, hcarries, htoken, hmade, haccepts⟩ := h.tasks id _ htask
    -- first the review is logged, then the entry is made and the request let through
    have hlogged := h.log_review
      (r := ⟨id, r.spec token, madeAt, answer, some s.now⟩) fun _ => haccepts
    have hcached : Review.CachedFor r.audience token s.now
        ⟨id, r.spec token, madeAt, answer, some s.now⟩ := ⟨rfl, haccepts, rfl, hmade⟩
    have hmem : (⟨id, r.spec token, madeAt, answer, some s.now⟩ : Review) ∈
        s.reviews ++ [⟨id, r.spec token, madeAt, answer, some s.now⟩] := by simp
    apply (hlogged.cache_insert htoken username hmem hcached).letThrough
    rw [haudience] at hcached
    exact .inr (.inr ⟨token, hcarries, _, hmem, s.now, hcached, le_rfl, .inl rfl⟩)
  · exact h

/-- Every step keeps the invariant, if the tokens of the requests are among `tokens` and the digest
    tells those apart. -/
theorem Sound.step (hmode : security.metricsAuthMode ≠ .off)
    (haudience : reviewer.audience = security.metricsAuthAudience)
    (httl : reviewer.cacheTtl = security.metricsAuthCacheTtl.toNat * 10 ^ 9)
    (hinj : Set.InjOn digest tokens) {e : AuthEvent D}
    (he : ∀ req token, e = .request req → req.Carries token → token ∈ tokens) :
    Sound digest security reviewer tokens
      (s.step digest (serveHttp security (some reviewer)) e) := by
  cases e with
  | request req => exact h.request hmode fun token => he req token rfl
  | cacheGet id => exact h.cacheGet haudience httl hinj _ id
  | answer id answer => exact h.answer _ id answer
  | cacheInsert id => exact h.cacheInsert haudience _ id
  | disconnect id => exact h.erase_task id
  | evict key => exact { h with cache := h.cache.evict key }
  | tick ns => exact h.tick ns

omit h in
theorem sound_init (digest : List Char → D) (security : MetricsSecurityArgs)
    (reviewer : TokenReviewer) (tokens : Set (List Char))
    (hmode : security.metricsAuthMode ≠ .off) :
    Sound digest security reviewer tokens (init D (serveHttp security (some reviewer))) where
  tasks := by
    intro id task h
    simp [init] at h
  ttl := by
    rw [serveHttp, if_neg hmode]
    rfl
  cache := .empty _ _
  reviews := by simp [init]
  admitted := by simp [init]

end Steps

/-- In a run of a server that has authentication on, every request let through has its reason, only
    accepted reviews reach the cache, and every cache entry comes from one. -/
theorem admitted_justified_run (security : MetricsSecurityArgs) (client : Except String Unit)
    (layer : Option AuthLayerState) (hstart : startHttp security client = .ok layer)
    (hmode : security.metricsAuthMode ≠ .off) (digest : List Char → D) (es : List (AuthEvent D))
    (hinj : Set.InjOn digest (AuthEvent.tokens es)) :
    (∀ x ∈ (Runs.run (step digest layer) (init D layer) es).admitted,
      x.Justified security (Runs.run (step digest layer) (init D layer) es).reviews) ∧
    (∀ r ∈ (Runs.run (step digest layer) (init D layer) es).reviews,
      ¬ Accepts security.metricsAuthAudience r.answer → r.cachedAt = none) ∧
    (Runs.run (step digest layer) (init D layer) es).cache.Holds fun key _ t =>
      ∃ token, digest token = key ∧
        ∃ r ∈ (Runs.run (step digest layer) (init D layer) es).reviews,
          r.CachedFor security.metricsAuthAudience token t := by
  let reviewer : TokenReviewer :=
    { audience := security.metricsAuthAudience
      cacheTtl := security.metricsAuthCacheTtl.toNat * 10 ^ 9
      cacheSize := security.metricsAuthCacheSize }
  have hlayer : layer = serveHttp security (some reviewer) := by
    rw [startHttp_eq_ok hstart hmode, serveHttp, if_neg hmode]
  subst hlayer
  -- the digest is only assumed to tell the tokens of this run apart
  have hpermitted : Runs.Along (step digest (serveHttp security (some reviewer)))
      (fun _ e => ∀ req token, e = .request req → HttpRequest.Carries req token →
        token ∈ AuthEvent.tokens es) (init D (serveHttp security (some reviewer))) es := by
    apply Runs.along_of_forall
    rintro e he req token rfl hcarries
    exact ⟨req, he, hcarries⟩
  have hsound : Sound digest security reviewer (AuthEvent.tokens es)
      (Runs.run (step digest (serveHttp security (some reviewer)))
        (init D (serveHttp security (some reviewer))) es) :=
    Runs.run_invariant (fun s e hs he => hs.step hmode rfl rfl hinj he)
      (sound_init digest security reviewer _ hmode) hpermitted
  refine ⟨hsound.admitted, ?_, ?_⟩
  · intro r hr hno
    by_contra hcached
    exact hno (hsound.reviews r hr hcached)
  · refine TtlCache.Holds.mono hsound.cache ?_
    rintro key v t ⟨token, -, hdigest, -, r, hr, hcached⟩
    exact ⟨token, hdigest, r, hr, hcached⟩

/-! ### A Slow Review -/

/-- Bearer tokens over plain HTTP, with the default time to live of one minute. -/
def bearerOnly : MetricsSecurityArgs := { metricsAuthMode := .bearer }

/-- A scrape with the token `abc`. -/
def scrape : HttpRequest where
  path := "/metrics"
  authorization := some ("Bearer abc".toList.map fun c => BitVec.ofNat 8 c.toNat)

/-- The review of a first scrape takes 50 seconds; another scrape comes 50 seconds later. -/
def slowReview : List (AuthEvent (List Char)) :=
  [.request scrape, .cacheGet 0, .tick (50 * 10 ^ 9),
    .answer 0 (.ok (some ⟨some true, none, none⟩)), .cacheInsert 0, .tick (50 * 10 ^ 9),
    .request scrape, .cacheGet 1]

/-- The layer of such a server. -/
def bearerLayer : Option AuthLayerState := serveHttp bearerOnly (some ⟨none, 60 * 10 ^ 9, 1024⟩)

theorem run_slowReview :
    (Runs.run (step id bearerLayer) (init (List Char) bearerLayer) slowReview).admitted =
      [⟨0, scrape, 50 * 10 ^ 9⟩, ⟨1, scrape, 100 * 10 ^ 9⟩] ∧
    (Runs.run (step id bearerLayer) (init (List Char) bearerLayer) slowReview).reviews =
      [⟨0, ⟨some "abc".toList, none⟩, 0, .ok (some ⟨some true, none, none⟩),
        some (50 * 10 ^ 9)⟩] := by
  decide +kernel

/-- Both scrapes have their reason, the first its own review, the second the entry in the cache. -/
theorem slowReview_justified :
    startHttp bearerOnly (.ok ()) = .ok bearerLayer ∧ bearerOnly.metricsAuthMode ≠ .off ∧
    Set.InjOn id (AuthEvent.tokens slowReview) ∧
    ∀ x ∈ [⟨0, scrape, 50 * 10 ^ 9⟩, ⟨1, scrape, 100 * 10 ^ 9⟩],
      Admission.Justified bearerOnly [⟨0, ⟨some "abc".toList, none⟩, 0,
        .ok (some ⟨some true, none, none⟩), some (50 * 10 ^ 9)⟩] x := by
  have hstart : startHttp bearerOnly (.ok ()) = .ok bearerLayer := by decide +kernel
  have hmode : bearerOnly.metricsAuthMode ≠ .off := by decide
  have hinj : Set.InjOn id (AuthEvent.tokens slowReview) := Function.injective_id.injOn
  have hall := (admitted_justified_run bearerOnly (.ok ()) bearerLayer hstart hmode id slowReview
    hinj).1
  rw [run_slowReview.1, run_slowReview.2] at hall
  exact ⟨hstart, hmode, hinj, hall⟩

/-- The second scrape is let through on a review that was made 100 seconds before, 40 seconds longer
    ago than the time to live: the cache counts from the insertion. -/
theorem admitted_on_older_review :
    startHttp bearerOnly (.ok ()) = .ok bearerLayer ∧ bearerOnly.metricsAuthMode ≠ .off ∧
    isUnauthenticatedPath scrape.path = false ∧
    ⟨1, scrape, 100 * 10 ^ 9⟩ ∈
      (Runs.run (step id bearerLayer) (init (List Char) bearerLayer) slowReview).admitted ∧
    ∀ r ∈ (Runs.run (step id bearerLayer) (init (List Char) bearerLayer) slowReview).reviews,
      r.id ≠ 1 ∧ r.madeAt + bearerOnly.metricsAuthCacheTtl.toNat * 10 ^ 9 < 100 * 10 ^ 9 := by
  refine ⟨by decide +kernel, by decide, by decide, ?_, ?_⟩
  · rw [run_slowReview.1]
    simp
  · rw [run_slowReview.2]
    simp [bearerOnly]

end AuthSys

end Profi
