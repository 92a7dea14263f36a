import AIService.Http.Framing
import AIService.Http.Reader

/-!
# Which request is the last of its connection

The `Connection` lines of a request are joined by the parser and cut again by `onRequest`.
What comes of it is stated here about the lines of the request itself: an element `close`
among them, or HTTP/1.0 without `keep-alive`, closes the connection whatever the handler
says; otherwise the response the callback leaves decides.
-/

namespace AIService.Http

/-! ## Elements of a comma-separated list -/

/-- The elements of a list that are not empty, without the blanks around them. -/
def elements (text : Bytes) : List Bytes := ((text.splitOn 44).map trim).filter (· ≠ [])

theorem elements_nil : elements [] = [] := rfl

theorem elements_of_not_mem {text : Bytes} (absent : 44 ∉ text) :
    elements text = [trim text].filter (· ≠ []) := by
  rw [elements, List.splitOn_eq_singleton absent]
  rfl

theorem elements_append (a b : Bytes) : elements (a ++ 44 :: b) = elements a ++ elements b := by
  rw [elements, List.splitOn_append_cons_self, List.map_append, List.filter_append]
  rfl

theorem trim_append {l r : Bytes} (left : ∀ b ∈ l, isBlank b) (right : ∀ b ∈ r, isBlank b)
    (text : Bytes) : trim (l ++ (text ++ r)) = trim text := by
  have drop (front back : Bytes) (blank : ∀ b ∈ back, isBlank b) :
      (front ++ back).rdropWhile isBlank = front.rdropWhile isBlank := by
    rw [List.rdropWhile, List.reverse_append, List.dropWhile_append_of_pos]
    · rfl
    · exact fun b member => blank b (List.mem_reverse.mp member)
  rw [trim, List.dropWhile_append_of_pos left, List.dropWhile_append]
  split
  · next all =>
      have none : text.dropWhile isBlank = [] := List.isEmpty_iff.mp all
      have blank : r.dropWhile isBlank = [] := List.dropWhile_eq_nil_iff.mpr right
      rw [trim, none, blank]
  · exact drop _ _ right

/-- Blanks around a list belong to no element. -/
theorem elements_blanks {l r : Bytes} (left : ∀ b ∈ l, isBlank b) (right : ∀ b ∈ r, isBlank b)
    (text : Bytes) : elements (l ++ (text ++ r)) = elements text := by
  have comma {blanks : Bytes} (blank : ∀ b ∈ blanks, isBlank b) : 44 ∉ blanks := fun member =>
    absurd (blank 44 member) (by decide)
  induction size : text.length using Nat.strong_induction_on generalizing l text with
  | _ n ih =>
      by_cases separated : 44 ∈ text
      · obtain ⟨a, b, rfl, absent⟩ := List.eq_append_cons_of_mem separated
        have first : elements (l ++ a) = elements a := by
          have free : 44 ∉ l ++ a := by simp [comma left, absent]
          have whole := trim_append (r := []) left (List.forall_mem_nil _) a
          rw [List.append_nil] at whole
          rw [elements_of_not_mem free, elements_of_not_mem absent, whole]
        have shorter : b.length < n := by
          rw [← size, List.length_append, List.length_cons]
          omega
        have later := ih _ shorter (l := []) (List.forall_mem_nil _) b rfl
        rw [List.nil_append] at later
        have whole : l ++ (a ++ 44 :: b ++ r) = (l ++ a) ++ 44 :: (b ++ r) := by simp
        rw [whole, elements_append, elements_append, first, later]
      · have free : 44 ∉ l ++ (text ++ r) := by simp [comma left, comma right, separated]
        rw [elements_of_not_mem free, elements_of_not_mem separated, trim_append left right]

theorem elements_trim (text : Bytes) : elements (trim text) = elements text := by
  obtain ⟨l, r, whole, left, right⟩ := trim_spec text
  rw [List.append_assoc] at whole
  rw [← elements_blanks left right (trim text), ← whole]

/-- The scanner of `onRequest` finds the elements. -/
theorem hasConnectionToken_iff (connection expected : Bytes) :
    hasConnectionToken connection expected = true ↔
      ∃ element ∈ elements connection, lower element = expected := by
  simp only [hasConnectionToken, elements, List.any_eq_true, Bool.and_eq_true, decide_eq_true_eq,
    List.mem_filter, List.mem_map]
  constructor
  · rintro ⟨piece, member, nonempty, same⟩
    exact ⟨trim piece, ⟨⟨piece, member, rfl⟩, nonempty⟩, same⟩
  · rintro ⟨-, ⟨⟨piece, member, rfl⟩, nonempty⟩, same⟩
    exact ⟨piece, member, nonempty, same⟩

/-! ## The Connection lines of a request -/

/-- Some element of some `Connection` line is `expected`, in any letter case. -/
def HasElement (fields : List Field) (expected : String) : Prop :=
  ∃ f ∈ fields, lower f.name = bytes "connection" ∧
    ∃ piece ∈ f.value.splitOn 44, lower (trim piece) = bytes expected

/-- The request has to be the last of its connection. -/
def AsksClose (head : RequestHead) : Prop :=
  HasElement head.fields "close" ∨
    head.version = bytes "HTTP/1.0" ∧ ¬ HasElement head.fields "keep-alive"

/-- The elements of all `Connection` lines. -/
def connectionElements (fields : List Field) : List Bytes :=
  (fields.filter fun f => lower f.name = bytes "connection").flatMap fun f => elements f.value

theorem hasElement_iff {fields : List Field} {expected : String} (some : bytes expected ≠ []) :
    HasElement fields expected ↔
      ∃ element ∈ connectionElements fields, lower element = bytes expected := by
  simp only [HasElement, connectionElements, elements, List.mem_flatMap, List.mem_filter,
    List.mem_map, decide_eq_true_eq]
  constructor
  · rintro ⟨f, member, named, piece, inside, same⟩
    refine ⟨trim piece, ⟨f, ⟨member, named⟩, ⟨piece, inside, rfl⟩, fun empty => ?_⟩, same⟩
    rw [empty] at same
    exact some same.symm
  · rintro ⟨-, ⟨f, ⟨member, named⟩, ⟨piece, inside, rfl⟩, -⟩, same⟩
    exact ⟨f, member, named, piece, inside, same⟩

/-- What `onRequest` looks at. -/
def connectionOf (request : HttpRequest) : Bytes := request.getHeader (bytes "Connection")

theorem connectionOf_eq (request : HttpRequest) :
    connectionOf request = (request.headers.find? (bytes "connection")).getD [] := rfl

/-- One header line adds its elements, when it is a `Connection` line. -/
theorem addHeader_elements {request request' : HttpRequest} {f : Field}
    (added : request.addHeader f.name f.value = some request') :
    elements (connectionOf request') = elements (connectionOf request) ++
      if lower f.name = bytes "connection" then elements f.value else [] := by
  have stored (key value : Bytes) : connectionOf { request with
      headers := request.headers.insert key value } =
        if key = bytes "connection" then value else connectionOf request := by
    rw [connectionOf_eq, SortedMap.find?_insert]
    split <;> rfl
  unfold HttpRequest.addHeader at added
  split at added
  case isTrue => cases added
  case isFalse =>
  dsimp only at added
  split at added
  case isTrue => cases added
  case isFalse =>
  cases found : request.headers.find? (lower f.name) with
  | none =>
      rw [found] at added
      cases added
      rw [stored]
      split
      · next named =>
          rw [named] at found
          rw [connectionOf_eq, found, elements_trim]
          rfl
      · rw [List.append_nil]
  | some previous =>
      rw [found] at added
      dsimp only at added
      split at added
      case isTrue => cases added
      case isFalse =>
      split at added
      case isTrue named =>
        cases added
        have joined : previous ++ bytes "," ++ trim f.value = previous ++ 44 :: trim f.value := by
          simp [bytes]
        rw [stored, if_pos named, if_pos named, joined, elements_append, elements_trim]
        rw [named] at found
        rw [connectionOf_eq, found]
        rfl
      case isFalse other =>
        cases added
        rw [stored, if_neg other, if_neg other, List.append_nil]

theorem headerLines_elements {request request' : HttpRequest} {fields : List Field}
    (tokens : ∀ f ∈ fields, ∀ b ∈ f.name, IsToken b)
    (read : (fields.map Field.line).foldlM headerLine request = some request') :
    elements (connectionOf request') =
      elements (connectionOf request) ++ connectionElements fields := by
  induction fields generalizing request with
  | nil =>
      cases read
      rw [connectionElements, List.filter_nil, List.flatMap_nil, List.append_nil]
  | cons f fields ih =>
      rw [List.map_cons, List.foldlM_cons] at read
      obtain ⟨middle, first, later⟩ := Option.bind_eq_some_iff.mp read
      have named := token_ne_colon (tokens f List.mem_cons_self)
      rw [headerLine, Field.line, cut_append named] at first
      rw [ih (fun f' member => tokens f' (List.mem_cons_of_mem _ member)) later,
        addHeader_elements first, List.append_assoc]
      congr 1
      unfold connectionElements
      by_cases connection : lower f.name = bytes "connection"
      · rw [if_pos connection, List.filter_cons_of_pos (by simpa using connection),
          List.flatMap_cons]
      · rw [if_neg connection, List.filter_cons_of_neg (by simpa using connection),
          List.nil_append]

/-- What an accepted head says: its request, and the elements of its `Connection` lines. -/
theorem acceptHead_elements {head : RequestHead} {length : Nat} {state : ParseState}
    {request : HttpRequest} (valid : head.WellFormed length)
    (accepted : acceptHead head.lines = some (state, request)) :
    ReadFrom head request ∧ elements (connectionOf request) = connectionElements head.fields := by
  have begun : HttpContext.processRequestLine {} head.requestLine =
      (true, begin head.name head.target head.version) :=
    processRequestLine_iff.mpr ⟨head.name, head.target, head.version, rfl, valid.method,
      valid.target.1, valid.version, rfl⟩
  simp only [acceptHead, RequestHead.lines, begun] at accepted
  obtain ⟨request₁, read, ended⟩ := Option.bind_eq_some_iff.mp accepted
  obtain ⟨method, headers, content, contentLength⟩ :=
    setTarget_fields { method := HttpRequest.methodNamed head.name } head.target
  obtain ⟨-, -, -, same, -⟩ := headerLines_spec read
  have fresh : request₁.contentLength = 0 := by
    rw [same]
    exact contentLength
  obtain ⟨length', -, -, -, rfl⟩ := (endHead_iff fresh).mp ended
  have start : connectionOf (begin head.name head.target head.version) = [] := by
    rw [connectionOf_eq, begin, HttpRequest.setVersion, headers]
    rfl
  have found := headerLines_elements (fun f member => (valid.fields f member).token) read
  rw [start, elements_nil, List.nil_append] at found
  refine ⟨⟨?_, ?_, ?_⟩, found⟩
  · show request₁.method = _
    rw [same]
    exact method
  · show request₁.version = _
    rw [same]
    rfl
  · show request₁.content = _
    rw [same]
    exact content

/-- `onRequest` decides by the lines of the request. -/
theorem closeRequested_iff {head : RequestHead} {request : HttpRequest}
    (version : request.version = head.version)
    (same : elements (connectionOf request) = connectionElements head.fields) :
    closeRequested request = true ↔ AsksClose head := by
  have token {expected : String} (some : bytes expected ≠ []) :
      hasConnectionToken (request.getHeader (bytes "Connection")) (bytes expected) = true ↔
        HasElement head.fields expected := by
    rw [hasConnectionToken_iff, hasElement_iff some, ← same]
    rfl
  rw [closeRequested, AsksClose, Bool.or_eq_true, Bool.and_eq_true, decide_eq_true_eq,
    Bool.not_eq_true', ← Bool.not_eq_true, token (by decide), token (by decide), version]

/-! ## What the server writes and does -/

section dispatches

variable {σ : Type} {httpCallback : HttpCallback σ}

/-- The fixed 400, as a response. -/
def badRequestResponse : HttpResponse := { statusCode := 400, statusMessage := bytes "Bad Request" }

theorem badRequest_eq : badRequestResponse.appendToBuffer = badRequest := by decide +kernel

/-- The response the server writes for a request, unless a handler took the connection over. -/
def Outcome.response : Outcome → Option HttpResponse
  | .answered resp => some resp
  | .threw _ => some badRequestResponse
  | .streaming _ => none

/-- The response, and the shutdown if the response says so. -/
theorem Dispatch.block_response {d : Dispatch} {resp : HttpResponse}
    (written : d.outcome.response = some resp) :
    d.block = [.dispatched d, .sent resp.appendToBuffer] ++
      if resp.closeConnection then [.shutdown] else [] := by
  obtain ⟨req, outcome, hangUp⟩ := d
  cases outcome with
  | answered final =>
      cases written
      rfl
  | threw what =>
      cases written
      rw [badRequest_eq]
      rfl
  | streaming => cases written

/-- A valid request at a request boundary is read whole, with what its lines say. -/
theorem valid_request_passes (httpCallback : HttpCallback σ) (app : σ) {r : Request} (valid : r.Valid)
    (rest : Bytes) :
    ∃ request : HttpRequest, Parsed r request ∧
      elements (connectionOf request) = connectionElements r.head.fields ∧
      Passes httpCallback (.at_ app .expectRequestLine {} (r.bytes ++ rest))
        (.at_ app .gotAll request rest) := by
  obtain ⟨state, request, accepted, length⟩ := acceptHead_complete valid
  have clean : CleanLines r.head.lines := RequestHead.WellFormed.lines valid
  have turn := head_turn httpCallback app clean (r.body ++ rest)
  rw [accepted, ← List.append_assoc] at turn
  obtain ⟨-, -, -, -, stateIs⟩ :=
    acceptHead_sound (fun line member => (clean line member).2) accepted
  obtain ⟨readFrom, found⟩ := acceptHead_elements valid accepted
  rcases Nat.eq_zero_or_pos request.contentLength with none | some
  · have empty : r.body = [] := List.eq_nil_of_length_eq_zero (length ▸ none)
    rw [stateIs, none, if_neg (Nat.lt_irrefl 0), empty, List.nil_append] at turn
    have parsed : Parsed r request :=
      ⟨valid, readFrom.method, readFrom.version, readFrom.content.trans empty.symm⟩
    rw [Request.bytes, empty]
    exact ⟨request, parsed, found, turn⟩
  · rw [stateIs, if_pos some] at turn
    have taken := body_turn httpCallback app request (r.body ++ rest)
    rw [if_neg (by rw [length, List.length_append]; omega), length, List.take_left,
      List.drop_left] at taken
    exact ⟨request.setBody r.body, ⟨valid, readFrom.method, readFrom.version, rfl⟩, found,
      turn.trans httpCallback taken⟩

/-- Whether the response is to close the connection, as the callback left it; an exception
that leaves the callback closes it. -/
def finalSetting : Except Bytes HttpResponse → Bool
  | .ok resp => resp.closeConnection
  | .error _ => true

theorem outcomeOf_setting {req : HttpRequest} {result : Except Bytes HttpResponse}
    {resp : HttpResponse} (written : (outcomeOf req result).response = some resp) :
    resp.closeConnection = (closeRequested req || finalSetting result) := by
  cases result with
  | error what =>
      cases written
      rw [finalSetting, Bool.or_true]
      rfl
  | ok final =>
      rw [outcomeOf] at written
      split at written
      · cases written
      · cases written
        cases closeRequested req <;> rfl

theorem outcomeOf_plain {req : HttpRequest} {result : Except Bytes HttpResponse}
    {resp : HttpResponse} (written : (outcomeOf req result).response = some resp) :
    resp.streaming = false := by
  cases result with
  | error what =>
      cases written
      rfl
  | ok final =>
      rw [outcomeOf] at written
      split at written
      case isTrue => cases written
      case isFalse plain =>
        cases written
        rw [Bool.not_eq_true] at plain
        split <;> exact plain

/-- How the response `resp` to the request `r` treats the connection: the server shuts it down
exactly when the response says `close`, which is the one `Connection` header among those it
writes; the lines of the request ask for that, or the callback's final setting decides. -/
structure Persists (httpCallback : HttpCallback σ) (r : Request) (d : Dispatch)
    (resp : HttpResponse) : Prop where
  block : d.block = [.dispatched d, .sent resp.appendToBuffer] ++
    if resp.closeConnection then [.shutdown] else []
  written : resp.appendToBuffer =
    (resp.statusLine :: resp.message.headers.map HttpResponse.line).flatMap (· ++ crlf) ++
      (crlf ++ resp.message.body)
  single : resp.message.headers.filter (named "connection") =
    [(bytes "Connection", bytes (if resp.closeConnection then "close" else "Keep-Alive"))]
  read : resp.Sendable → ∀ more,
    readMessage (resp.appendToBuffer ++ more) = some (resp.message, more)
  asked : AsksClose r.head → resp.closeConnection = true
  otherwise : ¬ AsksClose r.head → ∃ app,
    d.outcome = outcomeOf d.req (httpCallback app d.req (initialResponse d.req)).result ∧
      resp.closeConnection =
        finalSetting (httpCallback app d.req (initialResponse d.req)).result

theorem message_connection (resp : HttpResponse) :
    resp.message.headers.filter (named "connection") =
      [(bytes "Connection", bytes (if resp.closeConnection then "close" else "Keep-Alive"))] := by
  have one := (@HttpResponse.message_framing resp).1
  have first : named "connection" (bytes "Connection",
      bytes (if resp.closeConnection then "close" else "Keep-Alive")) = true := by
    rw [named_eq]
    decide
  unfold HttpResponse.message at one ⊢
  rw [List.countP_cons_of_pos first] at one
  rw [List.filter_cons_of_pos first, List.filter_eq_nil_iff.mpr]
  exact List.countP_eq_zero.mp (Nat.succ.inj one)

/-- A valid request, with any `Connection` lines, at a request boundary of a connection, under
any callback, be it `handleRequest` with its thrown responses: it is dispatched, and if the
server writes a response for it, that response and the shutdown behind it are as `Persists`
says. -/
theorem connection_persistence (httpCallback : HttpCallback σ) (app : σ) {r : Request}
    (valid : r.Valid) (rest : Bytes) :
    ∃ (d : Dispatch) (later : List Obs) (conn : Conn σ),
      onMessage httpCallback (.at_ app .expectRequestLine {} []) (r.bytes ++ rest) =
        some (d.block ++ later, conn) ∧
      Parsed r d.req ∧
      ∀ resp, d.outcome.response = some resp → Persists httpCallback r d resp := by
  obtain ⟨request, parsed, found, passes⟩ := valid_request_passes httpCallback app valid rest
  obtain ⟨d, rfl, ⟨app', outcome, -⟩, shows, stops⟩ :=
    dispatch_block httpCallback (Conn.at_ app .gotAll request rest) rfl rfl
  have step : advance httpCallback (.at_ app .gotAll d.req rest) =
      some (d.block, (dispatch httpCallback (.at_ app .gotAll d.req rest)).2) := by
    rw [advance_dispatches httpCallback _ rfl rfl rfl, ← shows]
  have run : ∃ later conn, Settles (advance httpCallback)
      (dispatch httpCallback (.at_ app .gotAll d.req rest)).2 later conn := by
    cases last : d.terminal with
    | true =>
        rw [last] at stops
        exact ⟨_, _, stopped_settles httpCallback stops⟩
    | false =>
        rw [last] at stops
        obtain ⟨app'', boundary⟩ := dispatch_boundary httpCallback app d.req rest stops
        obtain ⟨later, conn, run, -⟩ := boundary_framed httpCallback app'' rest
        exact ⟨later, conn, boundary ▸ run⟩
  obtain ⟨later, conn, run⟩ := run
  have resting : (Conn.at_ app .expectRequestLine {} []).Resting := .inr ⟨nofun, nofun⟩
  obtain ⟨out, conn', returned, whole, -⟩ :=
    onMessage_settles httpCallback (r.bytes ++ rest) resting
  obtain ⟨rfl, rfl⟩ := whole.unique (passes _ _ (.step step run))
  refine ⟨d, later, conn', returned, parsed, fun resp written => ?_⟩
  have decided := closeRequested_iff parsed.version found
  have setting : resp.closeConnection = (closeRequested d.req ||
      finalSetting (httpCallback app' d.req (initialResponse d.req)).result) :=
    outcomeOf_setting (outcome ▸ written)
  exact
    { block := Dispatch.block_response written
      written := HttpResponse.appendToBuffer_eq (outcomeOf_plain (outcome ▸ written))
      single := message_connection resp
      read := fun sendable more => HttpResponse.readMessage_appendToBuffer sendable more
      asked := fun asks => by rw [setting, decided.mpr asks, Bool.true_or]
      otherwise := fun silent => by
        refine ⟨app', outcome, ?_⟩
        rw [setting, Bool.eq_false_iff.mpr fun close => silent (decided.mp close), Bool.false_or] }

end dispatches

/-- A header value with a line break in it is a second `Connection` header on the wire; it says
`close`, and the server keeps the connection. -/
theorem connection_persistence_line_break :
    ∃ (d : Dispatch) (data : Bytes) (conn : Conn Unit),
      onMessage (fun app _ resp =>
          { result := .ok (resp.addHeader (bytes "X-Note")
              (bytes "a" ++ crlf ++ bytes "Connection: close")), app := app })
        (.at_ () .expectRequestLine {} []) (bytes "GET / HTTP/1.1" ++ crlf ++ crlf) =
          some ([.dispatched d, .sent data], conn) ∧
      (readMessage data).map (fun read => read.1.headers.filter (named "connection")) =
        some [(bytes "Connection", bytes "Keep-Alive"), (bytes "Connection", bytes "close")] :=
  ⟨_, _, _, rfl, by decide +kernel⟩

/-- `Connection: keep-alive, ClOsE`. -/
def keepAliveClose : Request where
  head := ⟨bytes "GET", bytes "/ok", bytes "HTTP/1.1",
    [⟨bytes "Connection", bytes " keep-alive, ClOsE"⟩]⟩
  body := []

theorem keepAliveClose_valid : keepAliveClose.Valid where
  method := by decide
  target := ⟨by decide, .of_not_mem (by decide)⟩
  version := by decide
  fields f member := by
    cases List.mem_singleton.mp member
    exact ⟨by decide, by decide +kernel, by decide +kernel⟩
  uncoded := by decide
  announces := ⟨rfl, by decide, by decide⟩

/-- The handler asks to keep the connection, in vain. -/
theorem connection_persistence_close : ∃ (d : Dispatch) (later : List Obs) (conn : Conn Unit),
    onMessage (fun app _ resp => { result := .ok (resp.setCloseConnection false), app := app })
      (.at_ () .expectRequestLine {} []) (keepAliveClose.bytes ++ []) =
        some (d.block ++ later, conn) ∧
    ∀ resp, d.outcome.response = some resp → resp.closeConnection = true := by
  obtain ⟨d, later, conn, returned, -, persists⟩ := connection_persistence
    (fun app _ resp => { result := .ok (resp.setCloseConnection false), app := app }) ()
    keepAliveClose_valid []
  have asks : AsksClose keepAliveClose.head :=
    .inl ⟨_, List.mem_singleton_self _, by decide, bytes " ClOsE", by decide, by decide⟩
  exact ⟨d, later, conn, returned, fun resp written => (persists resp written).asked asks⟩

end AIService.Http
