import AIService.Basic
import AIService.Data.SortedMap

/-!
# `http::HttpResponse`

The response object, its setters and its serialization.  A status code is the
number behind `HttpStatusCode`.
-/

namespace AIService.Http

abbrev StatusCode := Nat

/-- An ASCII letter in lower case, any other byte unchanged. -/
def lowerByte (ch : UInt8) : UInt8 := if 65 ≤ ch ∧ ch ≤ 90 then ch + 32 else ch

def lower (text : Bytes) : Bytes := text.map lowerByte

def crlf : Bytes := [13, 10]

structure HttpResponse where
  httpVersion : Bytes := bytes "HTTP/1.1"
  statusCode : StatusCode := 500
  statusMessage : Bytes := bytes "Internal Server Error"
  closeConnection : Bool := true
  headers : SortedMap Bytes Bytes := .empty
  body : Bytes := []
  logRoute : Bytes := bytes "callback"
  streaming : Bool := false

namespace HttpResponse

/-- The constructor `HttpResponse(close)`. -/
def new (close : Bool) : HttpResponse := { closeConnection := close }

/-- The reason phrase `setStatusCode` stores; a code outside the list becomes 500. -/
def reason : StatusCode → Option Bytes
  | 200 => some (bytes "OK")
  | 204 => some (bytes "No Content")
  | 301 => some (bytes "Moved Permanently")
  | 400 => some (bytes "Bad Request")
  | 401 => some (bytes "Unauthorized")
  | 403 => some (bytes "Forbidden")
  | 404 => some (bytes "Not Found")
  | 409 => some (bytes "Conflict")
  | 413 => some (bytes "Payload Too Large")
  | 500 => some (bytes "Internal Server Error")
  | 503 => some (bytes "Service Unavailable")
  | _ => none

variable (resp : HttpResponse)

def setStatusCode (code : StatusCode) : HttpResponse :=
  match reason code with
  | some message => { resp with statusCode := code, statusMessage := message }
  | none => { resp with statusCode := 500, statusMessage := bytes "Internal Server Error" }

def setStatusLine (version : Bytes) (code : StatusCode) (message : Bytes) : HttpResponse :=
  { resp with httpVersion := version, statusCode := code, statusMessage := message }

def setVersion (version : Bytes) : HttpResponse := { resp with httpVersion := version }

def setCloseConnection (on : Bool) : HttpResponse := { resp with closeConnection := on }

def addHeader (key value : Bytes) : HttpResponse :=
  { resp with headers := resp.headers.insert key value }

def setContentType (contentType : Bytes) : HttpResponse :=
  resp.addHeader (bytes "Content-Type") contentType

def setBody (body : Bytes) : HttpResponse := { resp with body := body }

def setLogRoute (route : Bytes) : HttpResponse := { resp with logRoute := route }

/-- The status forbids a body. -/
def noBody : Bool :=
  (100 ≤ resp.statusCode && resp.statusCode < 200) || resp.statusCode == 204 ||
    resp.statusCode == 304

/-- One handler-set header as it goes on the wire; framing headers are the server's. -/
def headerLine (header : Bytes × Bytes) : Bytes :=
  let key := lower header.1
  if key = bytes "connection" then []
  else if (!resp.streaming || resp.noBody) &&
      (key = bytes "content-length" || key = bytes "transfer-encoding") then []
  else header.1 ++ bytes ": " ++ header.2 ++ crlf

/-- `appendToBuffer`. -/
def appendToBuffer : Bytes :=
  resp.httpVersion ++ bytes " " ++ bytes (toString resp.statusCode) ++ bytes " " ++
    resp.statusMessage ++ crlf ++
    (if resp.closeConnection then bytes "Connection: close" else bytes "Connection: Keep-Alive") ++
    crlf ++
    (if !resp.streaming && !resp.noBody then
      bytes "Content-Length: " ++ bytes (toString resp.body.length) ++ crlf else []) ++
    resp.headers.entries.flatMap resp.headerLine ++ crlf ++
    (if !resp.streaming && !resp.noBody then resp.body else [])

end HttpResponse

end AIService.Http
