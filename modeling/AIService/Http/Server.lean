import AIService.Http.Context

/-!
# `HttpServer::onMessage`, `onRequest` and `handleRequest`

The server side of one plain TCP connection.  The application is a parameter: the
`httpCallback_`, or the middleware and the router behind the default `handleRequest`.  It
keeps a state of its own and may shut the connection down, which `hangUp` tells.
-/

namespace AIService.Http

/-- What a call into the application comes to. -/
structure Called (σ ε α : Type) where
  result : Except ε α
  app : σ
  hangUp : Bool := false

/-- `httpCallback_`; the error is the text of a `std::exception`. -/
abbrev HttpCallback (σ : Type) := σ → HttpRequest → HttpResponse → Called σ Bytes HttpResponse

/-! ## The default callback -/

/-- What middleware and handlers may throw. -/
inductive Thrown
  | response (res : HttpResponse)
  | exception (what : Bytes)

/-- The middleware chain and the router. -/
structure Routes (σ : Type) where
  processBefore : σ → HttpRequest → Called σ Thrown HttpRequest
  /-- The flag says whether a handler was found. -/
  route : σ → HttpRequest → HttpResponse → Called σ Thrown (Bool × HttpResponse)
  processAfter : σ → HttpResponse → Called σ Thrown HttpResponse

variable {σ : Type}

/-- Run `next` on what `first` returned; an exception skips it. -/
def Called.andThen {ε α β : Type} (first : Called σ ε α) (next : σ → α → Called σ ε β) :
    Called σ ε β :=
  match first.result with
  | .error e => { result := .error e, app := first.app, hangUp := first.hangUp }
  | .ok a =>
      let second := next first.app a
      { second with hangUp := first.hangUp || second.hangUp }

/-- The `try` block of `handleRequest`. -/
def Routes.tryHandle (routes : Routes σ) (app : σ) (req : HttpRequest) (resp : HttpResponse) :
    Called σ Thrown HttpResponse :=
  (routes.processBefore app req).andThen fun app mutableReq =>
    (routes.route app mutableReq resp).andThen fun app (found, resp) =>
      let resp := if found then resp else
        ((resp.setLogRoute (bytes "unmatched")).setStatusLine req.version 404
          (bytes "Not Found")).setCloseConnection true
      routes.processAfter app resp

/-- The response that stands for an exception. -/
def recover (req : HttpRequest) : Thrown → HttpResponse
  | .response res =>
      (res.setLogRoute (if req.method = .options then bytes "preflight" else bytes "callback"))
        |>.setVersion req.version
  | .exception what =>
      ((HttpResponse.new true).setLogRoute (bytes "error")).setStatusLine req.version 500
        (bytes "Internal Server Error") |>.setBody what

def handleRequest (routes : Routes σ) : HttpCallback σ := fun app req resp =>
  let called := routes.tryHandle app req resp
  let resp := match called.result with
    | .ok resp => resp
    | .error thrown => recover req thrown
  { result := .ok resp, app := called.app, hangUp := called.hangUp }

/-! ## One connection -/

/-- How the callback left a dispatched request. -/
inductive Outcome
  | answered (resp : HttpResponse)
  | streaming (resp : HttpResponse)
  | threw (what : Bytes)

/-- A request that reached the callback, and what came of it. -/
structure Dispatch where
  req : HttpRequest
  outcome : Outcome
  hangUp : Bool

inductive Obs
  | dispatched (dispatch : Dispatch)
  /-- `parseRequest` returned `false`. -/
  | malformed
  /-- A `conn->send` of the server. -/
  | sent (data : Bytes)
  /-- A `conn->shutdown` of the server. -/
  | shutdown

structure Conn (σ : Type) where
  context : HttpContext := {}
  buffer : Bytes := []
  connected : Bool := true
  app : σ

def badRequest : Bytes :=
  bytes "HTTP/1.1 400 Bad Request" ++ crlf ++ bytes "Connection: close" ++ crlf ++
    bytes "Content-Length: 0" ++ crlf ++ crlf

/-- `stopProcessing`, and the buffer thrown away. -/
def Conn.discard (conn : Conn σ) : Conn σ :=
  { conn with context := conn.context.stopProcessing, buffer := [] }

/-- A token of the `Connection` header, `expected` being in lower case. -/
def hasConnectionToken (connection expected : Bytes) : Bool :=
  (connection.splitOn 44).any fun text => trim text ≠ [] && lower (trim text) = expected

/-- The client asked for this to be the last request. -/
def closeRequested (req : HttpRequest) : Bool :=
  hasConnectionToken (req.getHeader (bytes "Connection")) (bytes "close") ||
    (req.version = bytes "HTTP/1.0" &&
      !hasConnectionToken (req.getHeader (bytes "Connection")) (bytes "keep-alive"))

/-- What `onRequest` comes to: it returns whether to go on, or an exception leaves it. -/
inductive Returned
  | canContinue (go : Bool)
  | threw

def onRequest (httpCallback : HttpCallback σ) (conn : Conn σ) (req : HttpRequest) :
    List Obs × Returned × Conn σ :=
  let close := closeRequested req
  let called := httpCallback conn.app req ((HttpResponse.new close).setVersion req.version)
  let conn := { conn with app := called.app, connected := conn.connected && !called.hangUp }
  match called.result with
  | .error what => ([.dispatched ⟨req, .threw what, called.hangUp⟩], .threw, conn)
  | .ok response =>
      if response.streaming then
        ([.dispatched ⟨req, .streaming response, called.hangUp⟩], .canContinue false, conn)
      else
        let response := if close then response.setCloseConnection true else response
        if response.closeConnection then
          ([.dispatched ⟨req, .answered response, called.hangUp⟩, .sent response.appendToBuffer,
              .shutdown],
            .canContinue false, { conn with connected := false })
        else
          ([.dispatched ⟨req, .answered response, called.hangUp⟩, .sent response.appendToBuffer],
            .canContinue conn.connected, conn)

/-- The `while` loop of `onMessage` and what follows it; `none` stands for not coming to an
end within `fuel` turns. -/
def messageLoop (httpCallback : HttpCallback σ) : Nat → Conn σ → Option (List Obs × Conn σ)
  | 0, _ => none
  | fuel + 1, conn =>
      if conn.connected && 0 < conn.buffer.length then
        match conn.context.parseRequest conn.buffer with
        | none => none
        | some (false, context, buffer) =>
            some ([.malformed, .sent badRequest, .shutdown],
              { conn with context := context, buffer := buffer, connected := false }.discard)
        | some (true, context, buffer) =>
            let conn := { conn with context := context, buffer := buffer }
            if !context.gotAll then some ([], conn)
            else
              match onRequest httpCallback conn context.request with
              | (out, .threw, conn) =>
                  some (out ++ [.sent badRequest, .shutdown],
                    { conn with connected := false }.discard)
              | (out, .canContinue false, conn) =>
                  some (out, { conn with context := conn.context.reset }.discard)
              | (out, .canContinue true, conn) =>
                  (messageLoop httpCallback fuel { conn with context := conn.context.reset }).map
                    fun (later, conn) => (out ++ later, conn)
      else if !conn.connected then some ([], conn.discard)
      else some ([], conn)

/-- `onMessage`, when `data` has arrived. -/
def onMessage (httpCallback : HttpCallback σ) (conn : Conn σ) (data : Bytes) :
    Option (List Obs × Conn σ) :=
  let conn := { conn with buffer := conn.buffer ++ data }
  if conn.context.processingStopped then some ([], { conn with buffer := [] })
  else messageLoop httpCallback (conn.buffer.length + 1) conn

end AIService.Http
