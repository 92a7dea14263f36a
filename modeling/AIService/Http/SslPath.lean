import AIService.Http.Ssl

/-!
# The HTTPS path against the plain one

`Session` is the engine driven as OpenSSL asks for: every byte that arrives goes to it, and
once the handshake is done it is read until it has nothing more.  `Agrees` says that the
server behaves as one that drives it so.  A connection of the code only does up to the end
of the handshake: nothing ever leaves the write BIO, what arrives later stays in the TCP
input buffer, and what `SSL_read` returns is lost in the buffer of one call, since
`HttpServer::onMessage` looks for it in the decrypted buffer, which nothing fills.
-/

namespace AIService.Http.Ssl

variable {S σ : Type}

/-! ## The engine as it is meant to be driven -/

/-- Everything there is to read, call by call. -/
def Engine.readAll (ssl : Engine S) (engine : S) (readBio : Bytes) : Call S Bytes :=
  let call := ssl.read engine readBio 4096
  if _more : call.result ≠ [] then
    let rest := readAll ssl call.engine call.readBio
    { rest with
      produced := call.produced ++ rest.produced, result := call.result ++ rest.result }
  else call
termination_by ssl.remaining engine readBio
decreasing_by
  exact ssl.remaining_read _ _ _ _more

structure Session (S : Type) where
  engine : S
  readBio : Bytes := []
  completed : Bool := false
  /-- The bytes of the handshake that the engine wants sent. -/
  handshake : Bytes := []
  /-- The bytes that arrived when the handshake was done. -/
  late : Bytes := []
  decrypted : Bytes := []

namespace Session

def doHandshake (ssl : Engine S) (t : Session S) : Session S :=
  let call := ssl.doHandshake t.engine t.readBio
  { t with
    engine := call.engine, readBio := call.readBio
    completed := call.result = .done, handshake := t.handshake ++ call.produced }

def readAll (ssl : Engine S) (t : Session S) : Session S :=
  let call := ssl.readAll t.engine t.readBio
  { t with
    engine := call.engine, readBio := call.readBio, decrypted := t.decrypted ++ call.result }

def arrive (ssl : Engine S) (t : Session S) (data : Bytes) : Session S :=
  if t.completed then
    { t with readBio := t.readBio ++ data, late := t.late ++ data }.readAll ssl
  else
    let t := { t with readBio := t.readBio ++ data }.doHandshake ssl
    if t.completed then t.readAll ssl else t

def start (ssl : Engine S) (engine : S) : Session S :=
  let t := ({ engine := engine } : Session S).doHandshake ssl
  if t.completed then t.readAll ssl else t

def run (ssl : Engine S) (engine : S) (deliveries : List Bytes) : Session S :=
  deliveries.foldl (arrive ssl) (start ssl engine)

/-- The engine has nothing for the client, nothing comes after the handshake, and there is
nothing to decrypt. -/
def Mute (t : Session S) : Prop := t.handshake = [] ∧ t.late = [] ∧ t.decrypted = []

end Session

/-! ## Agreement -/

/-- What the server puts on the wire. -/
def wire (out : List Obs) : Bytes :=
  out.flatMap fun
    | .sent data => data
    | _ => []

def dispatches (out : List Obs) : List Dispatch :=
  out.filterMap fun
    | .dispatched dispatch => some dispatch
    | _ => none

/-- The HTTPS path does what it is for. -/
structure Agrees (ssl : Engine S) (httpCallback : HttpCallback σ) (engine : S) (app : σ)
    (deliveries : List Bytes) (out : List Obs) (c : SslConnection S σ) : Prop where
  /-- The client gets the bytes of the handshake, before anything else. -/
  flushed : (Session.run ssl engine deliveries).handshake <+: wire out
  /-- The engine is fed what arrived. -/
  fed : c.fed = deliveries.flatten
  /-- The HTTP parser has, or has waiting for it, what was decrypted. -/
  parsed : c.parsed ++ c.decryptedBuffer = (Session.run ssl engine deliveries).decrypted
  /-- A plain connection that gets the decrypted stream dispatches the same. -/
  dispatched : ∀ pieces : List Bytes,
    pieces.flatten = (Session.run ssl engine deliveries).decrypted →
    (Http.deliver httpCallback (.fresh app) pieces).map (fun shown => dispatches shown.1) =
      some (dispatches out)

variable {ssl : Engine S} {httpCallback : HttpCallback σ}

/-! ## Nothing but the end of a failed handshake is shown -/

/-- No byte is sent and no request is dispatched. -/
def Silent (out : List Obs) : Prop := ∀ obs ∈ out, obs = .shutdown

theorem Silent.nil : Silent [] := fun _ shown => absurd shown List.not_mem_nil

theorem Silent.shutdown : Silent [.shutdown] := fun _ shown => List.mem_singleton.mp shown

theorem Silent.append {out later : List Obs} (silent : Silent out) (after : Silent later) :
    Silent (out ++ later) := by
  intro obs shown
  cases List.mem_append.mp shown with
  | inl here => exact silent obs here
  | inr there => exact after obs there

theorem Silent.wire {out : List Obs} (silent : Silent out) : wire out = [] := by
  apply List.flatMap_eq_nil_iff.mpr
  intro obs shown
  rw [silent obs shown]

theorem Silent.dispatches {out : List Obs} (silent : Silent out) : dispatches out = [] := by
  apply List.filterMap_eq_nil_iff.mpr
  intro obs shown
  rw [silent obs shown]

namespace SslConnection

theorem onRead_dry {c : SslConnection S σ} (established : c.state = .established)
    (dry : (ssl.read c.engine c.readBio 4096).result = []) (buf : Bytes) :
    c.onRead ssl httpCallback buf =
      some ([], buf, c.after (ssl.read c.engine c.readBio 4096)) := by
  rw [onRead]
  simp only [established, dry, ne_eq, not_true_eq_false, dite_false]

theorem onRead_more {c : SslConnection S σ} (established : c.state = .established)
    (more : (ssl.read c.engine c.readBio 4096).result ≠ []) (buf : Bytes) :
    c.onRead ssl httpCallback buf =
      ((c.after (ssl.read c.engine c.readBio 4096)).onMessage ssl httpCallback
        (ssl.read c.engine c.readBio 4096).result).map fun (out, c) => (out, buf, c) := by
  rw [onRead]
  simp only [established, more, ne_eq, not_false_eq_true, dite_true]
  cases onMessage ssl httpCallback (c.after (ssl.read c.engine c.readBio 4096))
    (ssl.read c.engine c.readBio 4096).result with
  | none => rfl
  | some called => rfl

/-- On an established connection a callback only calls the engine: what it decrypts is
dropped, and `buf` is not touched. -/
theorem onRead_established {c : SslConnection S σ} (established : c.state = .established)
    (unfilled : c.decryptedBuffer = []) (buf : Bytes) :
    ∃ engine readBio writeBio, c.onRead ssl httpCallback buf =
      some ([], buf, { c with engine := engine, readBio := readBio, writeBio := writeBio }) := by
  -- The nested calls end since each one leaves less to decrypt.
  induction left : ssl.remaining c.engine c.readBio using Nat.strongRecOn
    generalizing c buf with
  | ind left' ih =>
      subst left
      by_cases dry : (ssl.read c.engine c.readBio 4096).result = []
      · exact ⟨_, _, _, onRead_dry established dry buf⟩
      · have fewer := ssl.remaining_read c.engine c.readBio 4096 dry
        obtain ⟨engine, readBio, writeBio, inner⟩ :=
          ih _ fewer (c := c.after (ssl.read c.engine c.readBio 4096)) established unfilled
            (ssl.read c.engine c.readBio 4096).result rfl
        refine ⟨engine, readBio, writeBio, ?_⟩
        rw [onRead_more established dry, onMessage, inner]
        simp [after, established, unfilled]

theorem arrive_shaking {c : SslConnection S σ} (state : c.state = .handshake) {data : Bytes}
    (emptied : ((c.feed (c.conn.buffer ++ data)).handleHandshake ssl).2.conn.buffer = []) :
    c.arrive ssl httpCallback data =
      some ((c.feed (c.conn.buffer ++ data)).handleHandshake ssl) := by
  rw [arrive, onRead]
  simp only [state]
  generalize (c.feed (c.conn.buffer ++ data)).handleHandshake ssl = shook at *
  obtain ⟨out, c'⟩ := shook
  change some (out, { c' with conn := { c'.conn with buffer := [] } }) = some (out, c')
  rw [← emptied]

end SslConnection

/-! ## The connection follows the session until the handshake is done -/

/-- Where the connection is when the session is at `t` and `received` has arrived. -/
structure Follows (t : Session S) (received : Bytes) (c : SslConnection S σ) : Prop where
  fed : c.fed ++ t.late = received
  parsed : c.parsed = []
  unfilled : c.decryptedBuffer = []
  shaking : t.completed = false →
    c.state = .handshake ∧ c.engine = t.engine ∧ c.readBio = t.readBio ∧ c.conn.buffer = []
  early : t.completed = false → t.late = []
  established : t.completed = true → c.state = .established

theorem Session.readAll_follows {t : Session S} {received : Bytes} {c : SslConnection S σ}
    (completed : t.completed = true) (follows : Follows t received c) :
    Follows (t.readAll ssl) received c where
  fed := follows.fed
  parsed := follows.parsed
  unfilled := follows.unfilled
  shaking := by
    intro running
    cases completed.symm.trans running
  early := by
    intro running
    cases completed.symm.trans running
  established := follows.established

/-- The handshake is driven as it should be, but for the bytes it produces. -/
theorem handleHandshake_follows (ssl : Engine S) {t : Session S} {received : Bytes} {c : SslConnection S σ}
    (follows : Follows t received c) (running : t.completed = false) :
    Silent (c.handleHandshake ssl).1 ∧ (c.handleHandshake ssl).2.conn.buffer = [] ∧
      Follows (t.doHandshake ssl) received (c.handleHandshake ssl).2 := by
  obtain ⟨state, engine, readBio, buffer⟩ := follows.shaking running
  have early := follows.early running
  unfold SslConnection.handleHandshake Session.doHandshake
  rw [engine, readBio]
  cases verdict : (ssl.doHandshake t.engine t.readBio).result with
  | done =>
      simp only [verdict]
      refine ⟨.nil, buffer, ?_⟩
      exact {
        fed := follows.fed, parsed := follows.parsed, unfilled := follows.unfilled
        shaking := by simp
        early := by simp
        established := fun _ => rfl }
  | wanting =>
      simp only [verdict]
      refine ⟨.nil, buffer, ?_⟩
      exact {
        fed := follows.fed, parsed := follows.parsed, unfilled := follows.unfilled
        shaking := fun _ => ⟨state, rfl, rfl, buffer⟩
        early := fun _ => early
        established := by simp }
  | failed =>
      simp only [verdict]
      refine ⟨.shutdown, buffer, ?_⟩
      exact {
        fed := follows.fed, parsed := follows.parsed, unfilled := follows.unfilled
        shaking := fun _ => ⟨state, rfl, rfl, buffer⟩
        early := fun _ => early
        established := by simp }

theorem Follows.read {t : Session S} {received : Bytes} {c : SslConnection S σ}
    (follows : Follows t received c) :
    Follows (if t.completed then t.readAll ssl else t) received c := by
  split
  · next completed => exact Session.readAll_follows completed follows
  · exact follows

/-- A delivery. -/
theorem arrive_follows (ssl : Engine S) (httpCallback : HttpCallback σ) {t : Session S}
    {received : Bytes} {c : SslConnection S σ} (follows : Follows t received c) (data : Bytes) :
    ∃ out c', c.arrive ssl httpCallback data = some (out, c') ∧ Silent out ∧
      Follows (t.arrive ssl data) (received ++ data) c' := by
  cases completed : t.completed with
  | true =>
      have established := follows.established completed
      obtain ⟨engine, readBio, writeBio, ran⟩ :=
        SslConnection.onRead_established 
          established follows.unfilled (c.conn.buffer ++ data)
      refine ⟨_, _, by rw [SslConnection.arrive, ran]; rfl, .nil, ?_⟩
      rw [Session.arrive, if_pos completed]
      refine Session.readAll_follows (by exact completed) {
        fed := by
          have fed := follows.fed
          simp only [← fed, List.append_assoc]
        parsed := follows.parsed, unfilled := follows.unfilled
        shaking := by simp [completed]
        early := by simp [completed]
        established := fun _ => established }
  | false =>
      obtain ⟨state, engine, readBio, buffer⟩ := follows.shaking completed
      have early := follows.early completed
      have given : Follows { t with readBio := t.readBio ++ data } (received ++ data)
          (c.feed (c.conn.buffer ++ data)) := {
        fed := by
          have fed := follows.fed
          simp only [early, List.append_nil] at fed
          simp [SslConnection.feed, early, fed, buffer]
        parsed := follows.parsed, unfilled := follows.unfilled
        shaking := by simp [SslConnection.feed, state, engine, readBio, buffer]
        early := fun _ => early
        established := by simp [completed] }
      obtain ⟨silent, emptied, follows'⟩ :=
        handleHandshake_follows ssl given completed
      refine ⟨_, _, SslConnection.arrive_shaking state emptied, silent, ?_⟩
      rw [Session.arrive, if_neg (by simp [completed])]
      exact follows'.read

theorem deliver_follows (ssl : Engine S) (httpCallback : HttpCallback σ) {t : Session S}
    {received : Bytes} {c : SslConnection S σ} (follows : Follows t received c) (deliveries : List Bytes) :
    ∃ out c', c.deliver ssl httpCallback deliveries = some (out, c') ∧ Silent out ∧
      Follows (deliveries.foldl (Session.arrive ssl) t) (received ++ deliveries.flatten) c' := by
  induction deliveries generalizing t received c with
  | nil => exact ⟨[], c, rfl, .nil, by simpa using follows⟩
  | cons data rest ih =>
      obtain ⟨out, c', ran, silent, follows'⟩ :=
        arrive_follows ssl httpCallback follows data
      obtain ⟨later, c'', ran', silent', follows''⟩ := ih follows'
      refine ⟨out ++ later, c'', ?_, silent.append silent', ?_⟩
      · rw [SslConnection.deliver, ran]
        simp [ran']
      · simpa using follows''

/-- A whole connection: it shows nothing, and follows the session. -/
theorem run_follows (ssl : Engine S) (httpCallback : HttpCallback σ) (engine : S) (app : σ)
    (deliveries : List Bytes) :
    ∃ out c, SslConnection.run ssl httpCallback engine app deliveries = some (out, c) ∧
      Silent out ∧ Follows (Session.run ssl engine deliveries) deliveries.flatten c := by
  have fresh : Follows ({ engine := engine } : Session S) []
      ({ engine := engine, conn := .fresh app } : SslConnection S σ) := {
    fed := rfl, parsed := rfl, unfilled := rfl
    shaking := fun _ => ⟨rfl, rfl, rfl, rfl⟩
    early := fun _ => rfl
    established := nofun }
  obtain ⟨silent, -, follows⟩ := handleHandshake_follows ssl fresh rfl
  obtain ⟨later, c', ran, silent', follows'⟩ :=
    deliver_follows ssl httpCallback follows.read deliveries
  refine ⟨_, c', ?_, silent.append silent', follows'⟩
  rw [SslConnection.run, SslConnection.onConnection]
  simp [ran]

/-! ## When the two paths agree -/

/-- A plain connection that gets no byte. -/
theorem deliver_nothing (httpCallback : HttpCallback σ) (app : σ) {pieces : List Bytes}
    (nothing : pieces.flatten = []) :
    Http.deliver httpCallback (.fresh app) pieces = some ([], .fresh app) := by
  induction pieces with
  | nil => rfl
  | cons data rest ih =>
      rw [List.flatten_cons] at nothing
      obtain ⟨rfl, later⟩ := List.append_eq_nil_iff.mp nothing
      have waited : Http.onMessage httpCallback (.fresh app) [] = some ([], .fresh app) := rfl
      rw [Http.deliver, waited]
      simp [ih later]

/-- The callbacks of an HTTPS connection return, and what they do agrees with the plain path
if and only if the engine has nothing to send, to be fed or to decrypt. -/
theorem ssl_path_agrees (ssl : Engine S) (httpCallback : HttpCallback σ) (engine : S) (app : σ)
    (deliveries : List Bytes) :
    ∃ out c, SslConnection.run ssl httpCallback engine app deliveries = some (out, c) ∧
      (Agrees ssl httpCallback engine app deliveries out c ↔
        (Session.run ssl engine deliveries).Mute) := by
  obtain ⟨out, c, ran, silent, follows⟩ :=
    run_follows ssl httpCallback engine app deliveries
  have parsed : c.parsed ++ c.decryptedBuffer = [] := by
    rw [follows.parsed, follows.unfilled, List.append_nil]
  refine ⟨out, c, ran, ?_, ?_⟩
  · intro agrees
    refine ⟨?_, ?_, agrees.parsed.symm.trans parsed⟩
    · have flushed := agrees.flushed
      rw [silent.wire] at flushed
      exact List.prefix_nil.mp flushed
    · have fed := follows.fed
      rw [← agrees.fed] at fed
      exact List.append_right_eq_self.mp fed
  · rintro ⟨unanswered, fed, undecrypted⟩
    refine ⟨?_, ?_, ?_, ?_⟩
    · rw [unanswered]
      exact List.nil_prefix
    · have all := follows.fed
      rwa [fed, List.append_nil] at all
    · rw [parsed, undecrypted]
    · intro pieces cut
      rw [deliver_nothing httpCallback app (cut.trans undecrypted), silent.dispatches]
      rfl

/-- An engine that answers a hello of one byte with one byte, and ciphers nothing. -/
def clearEngine : Engine Unit where
  doHandshake _ readBio :=
    match readBio with
    | 1 :: rest => { engine := (), readBio := rest, produced := [2], result := .done }
    | _ => { engine := (), readBio := readBio, produced := [], result := .wanting }
  read _ readBio room :=
    { engine := (), readBio := readBio.drop room, produced := [], result := readBio.take room }
  write _ readBio data :=
    { engine := (), readBio := readBio, produced := data, result := data.length }
  remaining _ readBio := readBio.length
  remaining_read _ readBio room more := by
    have some : 0 < (readBio.take room).length := List.length_pos_of_ne_nil more
    rw [List.length_take] at some
    rw [List.length_drop]
    omega

/-- A hello and a request, each in a delivery of its own, and a handler that would answer:
the hello is not answered and the request does not reach the handler. -/
theorem ssl_path_silent :
    let request := bytes "GET / HTTP/1.1" ++ crlf ++ crlf
    let session := Session.run clearEngine () [[1], request]
    session.completed ∧ session.handshake = [2] ∧ session.decrypted = request ∧
      ∃ out c, SslConnection.run clearEngine
          (fun n _ resp => { result := .ok resp, app := n + 1 }) () 0 [[1], request] =
            some (out, c) ∧
        wire out = [] ∧ dispatches out = [] ∧
        ¬ Agrees clearEngine (fun n _ resp => { result := .ok resp, app := n + 1 }) () 0
          [[1], request] out c := by
  intro request session
  obtain ⟨out, c, ran, silent, -⟩ :=
    run_follows clearEngine (fun (n : Nat) _ resp => { result := .ok resp, app := n + 1 }) () 0
      [[1], request]
  have dry : clearEngine.readAll () [] = clearEngine.read () [] 4096 := by
    rw [Engine.readAll, dif_neg (by decide)]
  have read : (clearEngine.readAll () request).result = request := by
    rw [Engine.readAll, dif_pos (by decide), Engine.readAll, dif_neg (by decide)]
    rfl
  refine ⟨rfl, rfl, ?_, out, c, ran, silent.wire, silent.dispatches, ?_⟩
  · change [] ++ (clearEngine.readAll () []).result ++
      (clearEngine.readAll () ((clearEngine.readAll () []).readBio ++ request)).result = request
    rw [dry]
    exact read
  · intro agrees
    have flushed := agrees.flushed
    rw [silent.wire] at flushed
    cases List.prefix_nil.mp flushed

end AIService.Http.Ssl
