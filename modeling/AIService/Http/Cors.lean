import AIService.Data.Decimal
import AIService.Http.Server

/-!
# `http::middleware`

The middleware chain and the CORS middleware.  A preflight request is answered by `before`,
which sees the origin; the response to any other request gets its headers from `after`, which
does not.  `cors_agrees_iff` says for which origins the two agree.
-/

namespace AIService.Http

/-! ## The chain -/

/-- `before` may throw a response; `after` leaves the response it changed and what it threw. -/
structure Middleware where
  before : HttpRequest → Except Thrown HttpRequest
  after : HttpResponse → HttpResponse × Option Thrown

/-- `middlewares_`, none of them null. -/
abbrev MiddlewareChain := List Middleware

namespace MiddlewareChain

def processBefore (chain : MiddlewareChain) (request : HttpRequest) : Except Thrown HttpRequest :=
  chain.foldlM (fun request middleware => middleware.before request) request

/-- The loop of `processAfter`, which an exception leaves. -/
def runAfter : List Middleware → HttpResponse → HttpResponse × Option Thrown
  | [], response => (response, none)
  | middleware :: rest, response =>
      match middleware.after response with
      | (response, none) => runAfter rest response
      | (response, some thrown) => (response, some thrown)

def processAfter (chain : MiddlewareChain) (response : HttpResponse) : HttpResponse × Option Thrown :=
  match runAfter chain.reverse response with
  | (response, some (.exception _)) => (response, none)
  | left => left

/-- The chain around a router. -/
def routes {σ : Type} (chain : MiddlewareChain)
    (route : σ → HttpRequest → HttpResponse → Called σ Thrown (Bool × HttpResponse)) : Routes σ where
  processBefore app request := { result := chain.processBefore request, app := app }
  route := route
  processAfter app response :=
    match chain.processAfter response with
    | (response, none) => { result := .ok response, app := app }
    | (_, some thrown) => { result := .error thrown, app := app }

end MiddlewareChain

/-! ## CORS -/

structure CorsConfig where
  allowedOrigins : List Bytes := []
  allowedMethods : List Bytes := []
  allowedHeaders : List Bytes := []
  allowCredentials : Bool := false
  maxAge : Int32 := 3600

def star : Bytes := bytes "*"

def CorsConfig.defaultConfig : CorsConfig where
  allowedOrigins := [star]
  allowedMethods := [bytes "GET", bytes "POST", bytes "PUT", bytes "DELETE", bytes "OPTIONS"]
  allowedHeaders := [bytes "Content-Type", bytes "Authorization"]

def allowOrigin : Bytes := bytes "Access-Control-Allow-Origin"

namespace Middleware.CorsMiddleware

variable (config_ : CorsConfig)

def joinWith (delimiter : Bytes) (strings : List Bytes) : Bytes := (strings.intersperse delimiter).flatten

def addCorsHeaders (response : HttpResponse) (origin : Bytes) : HttpResponse :=
  let response := response.addHeader allowOrigin origin
  let response := if config_.allowCredentials then
    response.addHeader (bytes "Access-Control-Allow-Credentials") (bytes "true") else response
  let response := if !config_.allowedMethods.isEmpty then
    response.addHeader (bytes "Access-Control-Allow-Methods") (joinWith (bytes ", ") config_.allowedMethods)
    else response
  let response := if !config_.allowedHeaders.isEmpty then
    response.addHeader (bytes "Access-Control-Allow-Headers") (joinWith (bytes ", ") config_.allowedHeaders)
    else response
  response.addHeader (bytes "Access-Control-Max-Age") (AIService.decimal config_.maxAge.toInt)

def isOriginAllowed (origin : Bytes) : Bool :=
  config_.allowedOrigins.isEmpty || config_.allowedOrigins.contains star ||
    config_.allowedOrigins.contains origin

def handlePreflightRequest (request : HttpRequest) (response : HttpResponse) : HttpResponse :=
  let response := response.setVersion request.version
  let origin := request.getHeader (bytes "Origin")
  if !isOriginAllowed config_ origin then response.setStatusCode 403
  else (addCorsHeaders config_ response origin).setStatusCode 204

def before (request : HttpRequest) : Except Thrown HttpRequest :=
  if request.method = .options then
    .error (.response (handlePreflightRequest config_ request (HttpResponse.new true)))
  else .ok request

def after (response : HttpResponse) : HttpResponse :=
  match config_.allowedOrigins with
  | [] => response
  | first :: rest =>
      if (first :: rest).contains star then addCorsHeaders config_ response star
      else addCorsHeaders config_ response first

/-- The middleware object. -/
def middleware : Middleware where
  before := before config_
  after response := (after config_ response, none)

end Middleware.CorsMiddleware

/-! ## The headers of a response -/

/-- The response has an `Access-Control-Allow-Origin` header of this value, in any spelling. -/
def Carries (resp : HttpResponse) (value : Bytes) : Prop :=
  ∃ key, lower key = lower allowOrigin ∧ resp.headers.find? key = some value

/-- It has one in a spelling that is not the middleware's. -/
def CarriesOther (resp : HttpResponse) (value : Bytes) : Prop :=
  ∃ key, key ≠ allowOrigin ∧ lower key = lower allowOrigin ∧ resp.headers.find? key = some value

theorem find?_addHeader_of_ne {resp : HttpResponse} {key name : Bytes} (other : key ≠ name) (value : Bytes) :
    (resp.addHeader name value).headers.find? key = resp.headers.find? key :=
  SortedMap.find?_insert_of_ne _ (Ne.symm other) value

theorem find?_addHeader_if {resp : HttpResponse} {key name : Bytes} (other : key ≠ name) (value : Bytes)
    (c : Prop) [Decidable c] :
    (if c then resp.addHeader name value else resp).headers.find? key = resp.headers.find? key := by
  split
  · exact find?_addHeader_of_ne other value
  · rfl

namespace Middleware.CorsMiddleware

variable (config_ : CorsConfig) {resp : HttpResponse}

/-- Of the headers of this name the middleware writes one. -/
theorem find?_addCorsHeaders (resp : HttpResponse) (origin : Bytes) {key : Bytes}
    (spelled : lower key = lower allowOrigin) :
    (addCorsHeaders config_ resp origin).headers.find? key =
      if key = allowOrigin then some origin else resp.headers.find? key := by
  have other (name : Bytes) (differs : lower name ≠ lower allowOrigin) : key ≠ name := by
    rintro rfl
    exact differs spelled
  unfold addCorsHeaders
  dsimp only
  rw [find?_addHeader_of_ne (other _ (by decide +kernel)), find?_addHeader_if (other _ (by decide +kernel)),
    find?_addHeader_if (other _ (by decide +kernel)), find?_addHeader_if (other _ (by decide +kernel))]
  split
  · next same =>
      rw [same]
      exact SortedMap.find?_insert_self _ _ _
  · next differs => exact find?_addHeader_of_ne differs origin

theorem carries_addCorsHeaders (origin value : Bytes) :
    Carries (addCorsHeaders config_ resp origin) value ↔ value = origin ∨ CarriesOther resp value := by
  constructor
  · rintro ⟨key, spelled, found⟩
    rw [find?_addCorsHeaders config_ resp origin spelled] at found
    split at found
    · exact .inl (Option.some.inj found).symm
    · next differs => exact .inr ⟨key, differs, spelled, found⟩
  · rintro (rfl | ⟨key, differs, spelled, found⟩)
    · exact ⟨allowOrigin, rfl, by rw [find?_addCorsHeaders config_ resp _ rfl, if_pos rfl]⟩
    · exact ⟨key, spelled, by rw [find?_addCorsHeaders config_ resp origin spelled, if_neg differs, found]⟩

theorem isOriginAllowed_iff (origin : Bytes) : isOriginAllowed config_ origin = true ↔
    config_.allowedOrigins = [] ∨ star ∈ config_.allowedOrigins ∨ origin ∈ config_.allowedOrigins := by
  simp [isOriginAllowed, or_assoc]

/-- A preflight request is approved with 204 or denied with 403. -/
theorem handlePreflightRequest_status (request : HttpRequest) (response : HttpResponse) :
    (handlePreflightRequest config_ request response).statusCode =
      if isOriginAllowed config_ (request.getHeader (bytes "Origin")) then 204 else 403 := by
  unfold handlePreflightRequest
  dsimp only
  cases isOriginAllowed config_ (request.getHeader (bytes "Origin")) <;> rfl

end Middleware.CorsMiddleware

/-! ## Preflight and response -/

/-- If the preflight response approves `origin`, the routed response carries `origin` or the
star, and if it denies it, neither. -/
def Agree (origin : Bytes) (preflight routed : HttpResponse) : Prop :=
  (preflight.statusCode = 204 → Carries routed origin ∨ Carries routed star) ∧
    (preflight.statusCode = 403 → ¬ Carries routed origin ∧ ¬ Carries routed star)

/-- Some origin is configured, and the star is, or `origin` comes first, or `origin` is not.
The rest is about routes that set such headers themselves. -/
def ConsistentReturn (config : CorsConfig) (origin : Bytes) (routed : HttpResponse) : Prop :=
  match config.allowedOrigins with
  | [] => Carries routed origin ∨ Carries routed star
  | first :: rest =>
      star ∈ first :: rest ∨
        (origin ∈ first :: rest ∧
          (first = origin ∨ CarriesOther routed origin ∨ CarriesOther routed star)) ∨
        (origin ∉ first :: rest ∧ ¬ CarriesOther routed origin ∧ ¬ CarriesOther routed star)

open Middleware.CorsMiddleware in
/-- What a route throws is sent without the middleware's headers: right for a denied origin, and
for an approved one only if the route threw a response with the header. -/
def ConsistentThrow (config : CorsConfig) (origin : Bytes) : Thrown → Prop
  | .exception _ => isOriginAllowed config origin = false
  | .response res =>
      if isOriginAllowed config origin then Carries res origin ∨ Carries res star
      else ¬ Carries res origin ∧ ¬ Carries res star

/-- How a route ends for which preflight and response agree. -/
def Consistent (config : CorsConfig) (origin : Bytes) : Except Thrown (Bool × HttpResponse) → Prop
  | .ok (_, routed) => ConsistentReturn config origin routed
  | .error thrown => ConsistentThrow config origin thrown

section agree

open Middleware.CorsMiddleware

variable (config : CorsConfig) (origin : Bytes) {preflight : HttpResponse}
  (status : preflight.statusCode = if isOriginAllowed config origin then 204 else 403)

include status

theorem agree_recover_iff (request : HttpRequest) (thrown : Thrown) :
    Agree origin preflight (recover request thrown) ↔ ConsistentThrow config origin thrown := by
  unfold Agree ConsistentThrow
  rw [status]
  cases thrown with
  | exception what =>
      have none (value : Bytes) : ¬ Carries (recover request (.exception what)) value := by
        rintro ⟨key, -, found⟩
        cases found
      cases isOriginAllowed config origin <;> simp [none]
  | response res =>
      have same (value : Bytes) : Carries (recover request (.response res)) value ↔ Carries res value :=
        Iff.rfl
      cases isOriginAllowed config origin <;> simp [same]

theorem agree_after_iff (routed : HttpResponse) :
    Agree origin preflight (after config routed) ↔ ConsistentReturn config origin routed := by
  unfold Agree ConsistentReturn after
  have allowed := isOriginAllowed_iff config origin
  rw [status]
  cases origins : config.allowedOrigins with
  | nil =>
      rw [origins] at allowed
      rw [if_pos (allowed.mpr (.inl rfl))]
      simp
  | cons first rest =>
      rw [origins] at allowed
      dsimp only
      by_cases any : star ∈ first :: rest
      · rw [if_pos (List.contains_iff_mem.mpr any), if_pos (allowed.mpr (.inr (.inl any)))]
        simp [carries_addCorsHeaders, any]
      · rw [if_neg (fun found => any (List.contains_iff_mem.mp found))]
        have other : star ≠ first := fun same => any (same ▸ List.mem_cons_self)
        simp only [carries_addCorsHeaders]
        by_cases listed : origin ∈ first :: rest
        · rw [if_pos (allowed.mpr (.inr (.inr listed)))]
          simp only [any, listed, not_true_eq_false, true_and, false_and, or_false, false_or]
          simp [other, or_assoc, eq_comm]
        · have differs : origin ≠ first := fun same => listed (same ▸ List.mem_cons_self)
          have denied : ¬ isOriginAllowed config origin = true := by
            rw [allowed]
            simp [any, listed]
          rw [if_neg denied]
          simp only [any, listed, not_false_eq_true, true_and, false_and, false_or]
          simp [other, differs]

end agree

/-! ## Through the server -/

section server

variable {σ : Type} {config : CorsConfig}
  {route : σ → HttpRequest → HttpResponse → Called σ Thrown (Bool × HttpResponse)}

/-- The routes of a server whose one middleware is CORS. -/
def corsRoutes (config : CorsConfig)
    (route : σ → HttpRequest → HttpResponse → Called σ Thrown (Bool × HttpResponse)) : Routes σ :=
  MiddlewareChain.routes [Middleware.CorsMiddleware.middleware config] route

/-- A preflight request never reaches the router. -/
theorem handleRequest_preflight (app : σ) {request : HttpRequest} (options : request.method = .options)
    (resp : HttpResponse) :
    (handleRequest (corsRoutes config route) app request resp).result =
      .ok (recover request (.response
        (Middleware.CorsMiddleware.handlePreflightRequest config request (HttpResponse.new true)))) := by
  have thrown : Middleware.CorsMiddleware.before config request = .error (.response
      (Middleware.CorsMiddleware.handlePreflightRequest config request (HttpResponse.new true))) := if_pos options
  have first : MiddlewareChain.processBefore [Middleware.CorsMiddleware.middleware config] request = .error (.response
      (Middleware.CorsMiddleware.handlePreflightRequest config request (HttpResponse.new true))) := by
    rw [MiddlewareChain.processBefore, List.foldlM_cons]
    change (Middleware.CorsMiddleware.before config request).bind _ = _
    rw [thrown]
    rfl
  unfold handleRequest Routes.tryHandle corsRoutes MiddlewareChain.routes Called.andThen
  dsimp only
  rw [first]

/-- What the chain makes of what the router left. -/
def unmatched (request : HttpRequest) (found : Bool) (resp : HttpResponse) : HttpResponse :=
  if found then resp else
    ((resp.setLogRoute (bytes "unmatched")).setStatusLine request.version 404
      (bytes "Not Found")).setCloseConnection true

/-- A request that is no preflight comes to the router as it is. -/
theorem processBefore_plain {request : HttpRequest} (plain : request.method ≠ .options) :
    MiddlewareChain.processBefore [Middleware.CorsMiddleware.middleware config] request = .ok request := by
  have passed : Middleware.CorsMiddleware.before config request = .ok request := if_neg plain
  rw [MiddlewareChain.processBefore, List.foldlM_cons]
  change (Middleware.CorsMiddleware.before config request).bind _ = _
  rw [passed]
  rfl

/-- What a route throws passes by `after`. -/
theorem handleRequest_thrown (app : σ) {request : HttpRequest} (plain : request.method ≠ .options)
    {resp : HttpResponse} {thrown : Thrown} (threw : (route app request resp).result = .error thrown) :
    (handleRequest (corsRoutes config route) app request resp).result = .ok (recover request thrown) := by
  unfold handleRequest Routes.tryHandle corsRoutes MiddlewareChain.routes Called.andThen
  dsimp only
  rw [processBefore_plain plain]
  dsimp only
  rw [threw]

theorem handleRequest_routed (app : σ) {request : HttpRequest} (plain : request.method ≠ .options)
    {resp routed : HttpResponse} {found : Bool} (answered : (route app request resp).result = .ok (found, routed)) :
    (handleRequest (corsRoutes config route) app request resp).result =
      .ok (Middleware.CorsMiddleware.after config (unmatched request found routed)) := by
  unfold handleRequest Routes.tryHandle corsRoutes MiddlewareChain.routes Called.andThen
  dsimp only
  rw [processBefore_plain plain]
  dsimp only
  rw [answered]
  rfl

/-- For which configurations, origins and routes the response to a routed request agrees with
the preflight response: exactly the consistent ones, whether the route returns or throws.  What
origin the routed request has makes no difference. -/
theorem cors_agrees_iff (config : CorsConfig)
    (route : σ → HttpRequest → HttpResponse → Called σ Thrown (Bool × HttpResponse)) (app app' : σ)
    (origin : Bytes) (preflight request : HttpRequest) (resp resp' : HttpResponse)
    (options : preflight.method = .options) (plain : request.method ≠ .options)
    (asked : preflight.getHeader (bytes "Origin") = origin) :
    ∃ approval response,
      (handleRequest (corsRoutes config route) app' preflight resp').result = .ok approval ∧
      (handleRequest (corsRoutes config route) app request resp).result = .ok response ∧
      (Agree origin approval response ↔ Consistent config origin (route app request resp).result) := by
  have status : (recover preflight (.response (Middleware.CorsMiddleware.handlePreflightRequest config preflight
      (HttpResponse.new true)))).statusCode =
        if Middleware.CorsMiddleware.isOriginAllowed config origin then 204 else 403 := by
    rw [← asked, ← Middleware.CorsMiddleware.handlePreflightRequest_status config preflight (HttpResponse.new true)]
    rfl
  cases ended : (route app request resp).result with
  | error thrown =>
      exact ⟨_, _, handleRequest_preflight app' options resp', handleRequest_thrown app plain ended,
        agree_recover_iff config origin status request thrown⟩
  | ok answer =>
      obtain ⟨found, routed⟩ := answer
      refine ⟨_, _, handleRequest_preflight app' options resp', handleRequest_routed app plain ended, ?_⟩
      rw [agree_after_iff config origin status]
      have carries (value : Bytes) : Carries (unmatched request found routed) value ↔ Carries routed value := by
        cases found <;> rfl
      have other (value : Bytes) :
          CarriesOther (unmatched request found routed) value ↔ CarriesOther routed value := by
        cases found <;> rfl
      unfold Consistent ConsistentReturn
      cases config.allowedOrigins with
      | nil => simp [carries]
      | cons first rest => simp [other]

end server

/-! ## Two origins -/

/-- A router that answers everything with 200. -/
def answerAll (_ : Unit) (_ : HttpRequest) (resp : HttpResponse) : Called Unit Thrown (Bool × HttpResponse) :=
  { result := .ok (true, resp.setStatusCode 200), app := () }

/-- A request from an origin. -/
def requestFrom (method : Method) (origin : Bytes) : HttpRequest :=
  { method := method, headers := SortedMap.empty.insert (bytes "origin") origin }

theorem cors_agrees_default : ∃ approval response,
    (handleRequest (corsRoutes .defaultConfig answerAll) () (requestFrom .options (bytes "https://a.example"))
      {}).result = .ok approval ∧
    (handleRequest (corsRoutes .defaultConfig answerAll) () (requestFrom .get (bytes "https://a.example"))
      {}).result = .ok response ∧
    Agree (bytes "https://a.example") approval response := by
  obtain ⟨approval, response, first, second, agrees⟩ :=
    cors_agrees_iff .defaultConfig answerAll () () (bytes "https://a.example")
      (requestFrom .options (bytes "https://a.example")) (requestFrom .get (bytes "https://a.example")) {} {}
      rfl (by decide) (by decide +kernel)
  refine ⟨approval, response, first, second, agrees.mpr ?_⟩
  exact .inl List.mem_cons_self

/-- The second of two configured origins is approved, and the response names the first. -/
theorem cors_second_origin : ∃ approval response,
    (handleRequest (corsRoutes { allowedOrigins := [bytes "https://a.example", bytes "https://b.example"] }
      answerAll) () (requestFrom .options (bytes "https://b.example")) {}).result = .ok approval ∧
    (handleRequest (corsRoutes { allowedOrigins := [bytes "https://a.example", bytes "https://b.example"] }
      answerAll) () (requestFrom .get (bytes "https://b.example")) {}).result = .ok response ∧
    ¬ Agree (bytes "https://b.example") approval response := by
  refine ⟨_, _, handleRequest_preflight () rfl {}, handleRequest_routed () (by decide) rfl, ?_⟩
  rw [agree_after_iff _ _ (by decide +kernel)]
  have none (value : Bytes) : ¬ CarriesOther (({} : HttpResponse).setStatusCode 200) value := by
    rintro ⟨key, -, -, found⟩
    cases found
  unfold ConsistentReturn
  dsimp only
  rintro (any | ⟨-, same | other | other⟩ | ⟨unlisted, -⟩)
  · exact absurd any (by decide +kernel)
  · exact absurd same (by decide +kernel)
  · exact none _ other
  · exact none _ other
  · exact absurd unlisted (by decide +kernel)

end AIService.Http
