import AIService.Data.SortedMap
import AIService.Data.Text
import AIService.Http.Response

/-!
# `http::HttpRequest`

The request object and the setters the parser fills it with.
-/

namespace AIService.Http

inductive Method
  | invalid | get | post | head | put | delete | options
  deriving DecidableEq, Repr

structure HttpRequest where
  method : Method := .invalid
  version : Bytes := bytes "Unknown"
  path : Bytes := []
  pathParameters : SortedMap Bytes Bytes := .empty
  queryParameters : SortedMap Bytes Bytes := .empty
  headers : SortedMap Bytes Bytes := .empty
  content : Bytes := []
  contentLength : Nat := 0

instance : Inhabited HttpRequest := ⟨{}⟩

namespace HttpRequest

variable (req : HttpRequest)

/-- The method a request line may name. -/
def methodNamed (name : Bytes) : Method :=
  if name = bytes "GET" then .get
  else if name = bytes "POST" then .post
  else if name = bytes "PUT" then .put
  else if name = bytes "DELETE" then .delete
  else if name = bytes "OPTIONS" then .options
  else .invalid

def setMethod (name : Bytes) : Bool × HttpRequest :=
  let method := methodNamed name
  (method ≠ .invalid, { req with method := method })

def setPath (path : Bytes) : HttpRequest := { req with path := path }

def setPathParameters (key value : Bytes) : HttpRequest :=
  { req with pathParameters := req.pathParameters.insert key value }

def getPathParameters (key : Bytes) : Bytes := (req.pathParameters.find? key).getD []

def getQueryParameters (key : Bytes) : Bytes := (req.queryParameters.find? key).getD []

/-- One `key=value` of the query; a pair without `=` is skipped. -/
def setQueryParameter (pair : Bytes) : HttpRequest :=
  match cut 61 pair with
  | none => req
  | some (key, value) => { req with queryParameters := req.queryParameters.insert key value }

def setQueryParameters (argumentStr : Bytes) : HttpRequest :=
  (argumentStr.splitOn 38).foldl setQueryParameter req

def setVersion (version : Bytes) : HttpRequest := { req with version := version }

/-- The characters of a header name. -/
def isTokenByte (ch : UInt8) : Bool :=
  (48 ≤ ch && ch ≤ 57) || (65 ≤ ch && ch ≤ 90) || (97 ≤ ch && ch ≤ 122) ||
    (bytes "!#$%&'*+-.^_\x60|~").contains ch

/-- A control character that no header value may hold. -/
def isForbiddenControl (ch : UInt8) : Bool := (ch < 32 && ch != 9) || ch == 127

/-- `addHeader(start, colon, end)`, from the text before the colon and the text after it. -/
def addHeader (name rawValue : Bytes) : Option HttpRequest :=
  if name.isEmpty || !name.all isTokenByte then none
  else
    let key := lower name
    let value := trim rawValue
    if value.any isForbiddenControl then none
    else
      match req.headers.find? key with
      | none => some { req with headers := req.headers.insert key value }
      | some previous =>
          if key = bytes "content-length" && previous ≠ value then none
          else if key = bytes "connection" then
            some { req with headers := req.headers.insert key (previous ++ bytes "," ++ value) }
          else some { req with headers := req.headers.insert key value }

def getHeader (field : Bytes) : Bytes := (req.headers.find? (lower field)).getD []

def setBody (body : Bytes) : HttpRequest := { req with content := body }

def setContentLength (length : Nat) : HttpRequest := { req with contentLength := length }

end HttpRequest

end AIService.Http
