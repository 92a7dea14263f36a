import AIService.Http.Request

/-!
# `http::HttpContext`

The resumable parser of one connection.  `parseRequest` runs its loop over the unread
bytes of the buffer; `parseIteration` is one turn of that loop.
-/

namespace AIService.Http

inductive ParseState
  | expectRequestLine | expectHeaders | expectBody | gotAll
  deriving DecidableEq, Repr

structure HttpContext where
  state : ParseState := .expectRequestLine
  request : HttpRequest := {}
  processingStopped : Bool := false

/-- `Buffer::findCRLF`, as the number of bytes before the first CRLF. -/
def findCRLF : Bytes → Option Nat
  | [] => none
  | b :: rest => if b = 13 ∧ rest.head? = some 10 then some 0 else (findCRLF rest).map (· + 1)

namespace HttpContext

def gotAll (context : HttpContext) : Bool := context.state = .gotAll

def reset (context : HttpContext) : HttpContext :=
  { context with state := .expectRequestLine, request := {} }

def stopProcessing (context : HttpContext) : HttpContext :=
  { context with processingStopped := true }

/-- The version at the end of a request line. -/
def setVersionText (request : HttpRequest) (text : Bytes) : Bool × HttpRequest :=
  if text.length = 8 ∧ text.take 7 = bytes "HTTP/1." then
    if text.getLast? = some 49 then (true, request.setVersion (bytes "HTTP/1.1"))
    else if text.getLast? = some 48 then (true, request.setVersion (bytes "HTTP/1.0"))
    else (false, request)
  else (false, request)

def setTarget (request : HttpRequest) (target : Bytes) : HttpRequest :=
  match cut 63 target with
  | some (path, arguments) => (request.setPath path).setQueryParameters arguments
  | none => request.setPath target

/-- `processRequestLine`; a failure may leave the request half filled. -/
def processRequestLine (request : HttpRequest) (line : Bytes) : Bool × HttpRequest :=
  match cut 32 line with
  | none => (false, request)
  | some (name, rest) =>
      match request.setMethod name with
      | (false, request) => (false, request)
      | (true, request) =>
          match cut 32 rest with
          | none => (false, request)
          | some (target, text) => setVersionText (setTarget request target) text

def maxBodyLength : Nat := 10 * 1024 * 1024

/-- One digit of a `Content-Length`; the test comes before the multiplication. -/
def readDigit (length : Nat) (ch : UInt8) : Option Nat :=
  if ch < 48 || ch > 57 then none
  else if length > (maxBodyLength - (ch - 48).toNat) / 10 then none
  else some (length * 10 + (ch - 48).toNat)

/-- The value of a `Content-Length` header. -/
def readLength (text : Bytes) : Option Nat :=
  if text.isEmpty then none else text.foldlM readDigit 0

/-- The empty line that ends the head: what the headers say about the body, or `none`
where `parseRequest` returns `false`. -/
def endHead (request : HttpRequest) : Option (ParseState × HttpRequest) :=
  if (request.headers.find? (bytes "transfer-encoding")).isSome then none
  else
    match request.headers.find? (bytes "content-length") with
    | some text =>
        match readLength text with
        | none => none
        | some length =>
            some (if 0 < length then .expectBody else .gotAll, request.setContentLength length)
    | none =>
        if request.method = .post || request.method = .put then none
        else some (.gotAll, request)

/-- One turn of the loop of `parseRequest`: it goes on, or it ends with a verdict. -/
inductive Turn
  | again (context : HttpContext) (buffer : Bytes)
  | done (ok : Bool) (context : HttpContext) (buffer : Bytes)

def parseIteration (context : HttpContext) (buffer : Bytes) : Turn :=
  match context.state with
  | .expectRequestLine =>
      match findCRLF buffer with
      | none => .done true context buffer
      | some length =>
          match processRequestLine context.request (buffer.take length) with
          | (true, request) =>
              .again { context with request := request, state := .expectHeaders }
                (buffer.drop (length + 2))
          | (false, request) => .done false { context with request := request } buffer
  | .expectHeaders =>
      match findCRLF buffer with
      | none => .done true context buffer
      | some length =>
          match cut 58 (buffer.take length) with
          | some (name, rawValue) =>
              match context.request.addHeader name rawValue with
              | none => .done false context buffer
              | some request =>
                  .again { context with request := request } (buffer.drop (length + 2))
          | none =>
              if length = 0 then
                match endHead context.request with
                | none => .done false context buffer
                | some (state, request) =>
                    let context := { context with request := request, state := state }
                    if state = .expectBody then .again context (buffer.drop (length + 2))
                    else .done true context (buffer.drop (length + 2))
              else .done false context (buffer.drop (length + 2))
  | .expectBody =>
      if buffer.length < context.request.contentLength then .done true context buffer
      else
        let request := context.request.setBody (buffer.take context.request.contentLength)
        .done true { context with request := request, state := .gotAll }
          (buffer.drop context.request.contentLength)
  | .gotAll => .again context buffer

/-- The loop of `parseRequest`; `none` stands for not coming to an end within `fuel` turns. -/
def parseLoop : Nat → HttpContext → Bytes → Option (Bool × HttpContext × Bytes)
  | 0, _, _ => none
  | fuel + 1, context, buffer =>
      match parseIteration context buffer with
      | .again context buffer => parseLoop fuel context buffer
      | .done ok context buffer => some (ok, context, buffer)

/-- `parseRequest`: a turn that goes on has taken bytes off the buffer. -/
def parseRequest (context : HttpContext) (buffer : Bytes) :
    Option (Bool × HttpContext × Bytes) := parseLoop (buffer.length + 1) context buffer

end HttpContext

end AIService.Http
