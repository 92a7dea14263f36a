import AIService.Http.Delivery
import Mathlib.Data.List.Basic

/-!
# `SslConnection` and the HTTPS side of `HttpServer`

OpenSSL is an engine between two memory BIOs.  The constructor of an `SslConnection` takes
the TCP connection's message callback over, so that what arrives goes to `onRead`;
`messageCallback_` leads from there to `HttpServer::onMessage`, and that one calls `onRead`
again.
-/

namespace AIService.Http.Ssl

/-! ## The engine -/

/-- What `SSL_do_handshake` returns, with its error when that is not `1`. -/
inductive Handshake
  | done
  /-- `SSL_ERROR_WANT_READ` and `SSL_ERROR_WANT_WRITE`. -/
  | wanting
  | failed
  deriving DecidableEq

/-- What a call into the engine leaves. -/
structure Call (S α : Type) where
  engine : S
  /-- What is left to read in the read BIO. -/
  readBio : Bytes
  /-- What the engine put into the write BIO. -/
  produced : Bytes
  result : α

/-- OpenSSL.  A result of `SSL_read` or `SSL_write` that is not positive is nothing. -/
structure Engine (S : Type) where
  doHandshake : S → Bytes → Call S Handshake
  read : S → Bytes → Nat → Call S Bytes
  write : S → Bytes → Bytes → Call S Nat
  /-- How much plaintext there can still be in what was received. -/
  remaining : S → Bytes → Nat
  remaining_read : ∀ engine readBio room, (read engine readBio room).result ≠ [] →
    remaining (read engine readBio room).engine (read engine readBio room).readBio <
      remaining engine readBio

variable {S σ : Type}

/-! ## The code -/

inductive SSLState
  | handshake
  | established
  | shutdown
  | error
  deriving DecidableEq

/-- An `SslConnection` and the TCP connection under it; the input buffer of the latter is
`conn.buffer`. -/
structure SslConnection (S σ : Type) where
  engine : S
  state : SSLState := .handshake
  readBio : Bytes := []
  writeBio : Bytes := []
  decryptedBuffer : Bytes := []
  conn : Conn σ
  /-- All that was ever written to the read BIO. -/
  fed : Bytes := []
  /-- What the HTTP parser took out of `decryptedBuffer`. -/
  parsed : Bytes := []

namespace SslConnection

/-- The engine was called. -/
def after {α : Type} (c : SslConnection S σ) (call : Call S α) : SslConnection S σ :=
  { c with
    engine := call.engine, readBio := call.readBio, writeBio := c.writeBio ++ call.produced }

/-- `BIO_write` to the read BIO. -/
def feed (c : SslConnection S σ) (data : Bytes) : SslConnection S σ :=
  { c with readBio := c.readBio ++ data, fed := c.fed ++ data }

def handleHandshake (ssl : Engine S) (c : SslConnection S σ) : List Obs × SslConnection S σ :=
  let call := ssl.doHandshake c.engine c.readBio
  let c := c.after call
  match call.result with
  | .done => ([], { c with state := .established })
  | .wanting => ([], c)
  | .failed => ([.shutdown], { c with conn := { c.conn with connected := false } })

/-- The part of `HttpServer::onMessage` behind the SSL branch, with `buf` set to the
decrypted buffer. -/
def serve (httpCallback : HttpCallback σ) (c : SslConnection S σ) :
    Option (List Obs × SslConnection S σ) := do
  let (out, conn) ← Http.onMessage httpCallback { c.conn with buffer := c.decryptedBuffer } []
  return (out, { c with
    conn := { conn with buffer := c.conn.buffer }
    decryptedBuffer := conn.buffer
    parsed := c.parsed ++
      c.decryptedBuffer.take (c.decryptedBuffer.length - conn.buffer.length) })

mutual

/-- `SslConnection::onRead`; the second component is what it leaves in `buf`. -/
def onRead (ssl : Engine S) (httpCallback : HttpCallback σ) (c : SslConnection S σ)
    (buf : Bytes) : Option (List Obs × Bytes × SslConnection S σ) :=
  match c.state with
  | .handshake =>
      let (out, c) := (c.feed buf).handleHandshake ssl
      some (out, [], c)
  | .established =>
      let call := ssl.read c.engine c.readBio 4096
      if _more : call.result ≠ [] then do
        -- `messageCallback_`, on a buffer of this call
        let (out, c) ← onMessage ssl httpCallback (c.after call) call.result
        return (out, buf, c)
      else some ([], buf, c.after call)
  | .shutdown => some ([], buf, c)
  | .error => some ([], buf, c)
termination_by (ssl.remaining c.engine c.readBio, 0)
decreasing_by
  exact .left _ _ (ssl.remaining_read _ _ _ _more)

/-- `HttpServer::onMessage` with `useSSL_`. -/
def onMessage (ssl : Engine S) (httpCallback : HttpCallback σ) (c : SslConnection S σ)
    (buf : Bytes) : Option (List Obs × SslConnection S σ) := do
  let (out, _, c) ← onRead ssl httpCallback c buf
  if c.state ≠ .established then return (out, c)
  if c.decryptedBuffer = [] then return (out, c)
  let (later, c) ← c.serve httpCallback
  return (out ++ later, c)
termination_by (ssl.remaining c.engine c.readBio, 1)

end

/-- The message callback of the TCP connection, when `data` has arrived. -/
def arrive (ssl : Engine S) (httpCallback : HttpCallback σ) (c : SslConnection S σ)
    (data : Bytes) : Option (List Obs × SslConnection S σ) := do
  let (out, buf, c) ← c.onRead ssl httpCallback (c.conn.buffer ++ data)
  return (out, { c with conn := { c.conn with buffer := buf } })

def deliver (ssl : Engine S) (httpCallback : HttpCallback σ) :
    SslConnection S σ → List Bytes → Option (List Obs × SslConnection S σ)
  | c, [] => some ([], c)
  | c, data :: rest => do
      let (out, c) ← c.arrive ssl httpCallback data
      let (later, c) ← deliver ssl httpCallback c rest
      return (out ++ later, c)

/-- `HttpServer::onConnection`, which starts the handshake. -/
def onConnection (ssl : Engine S) (engine : S) (app : σ) : List Obs × SslConnection S σ :=
  ({ engine := engine, conn := .fresh app } : SslConnection S σ).handleHandshake ssl

/-- A connection from its first moment, with what arrives on it in pieces. -/
def run (ssl : Engine S) (httpCallback : HttpCallback σ) (engine : S) (app : σ)
    (deliveries : List Bytes) : Option (List Obs × SslConnection S σ) := do
  let (out, c) := onConnection ssl engine app
  let (later, c) ← c.deliver ssl httpCallback deliveries
  return (out ++ later, c)

/-! ## What nothing calls -/

/-- `BIO_read` by the buffer of 4096 bytes, until nothing is pending. -/
def flush (c : SslConnection S σ) : List Obs × SslConnection S σ :=
  ((c.writeBio.toChunks 4096).map .sent, { c with writeBio := [] })

def send (ssl : Engine S) (c : SslConnection S σ) (data : Bytes) :
    List Obs × SslConnection S σ :=
  if c.state ≠ .established then ([], c)
  else
    let call := ssl.write c.engine c.readBio data
    if call.result = 0 then ([], c.after call) else (c.after call).flush

def onDecrypted (c : SslConnection S σ) (data : Bytes) : SslConnection S σ :=
  { c with decryptedBuffer := c.decryptedBuffer ++ data }

end SslConnection

end AIService.Http.Ssl
