import AIService.Chat.Codec
import AIService.Data.Pieces

/-!
# The event stream between server and browser

`sseBody` is what `ChatSendHandler` and `ChatCreateAndSendHandler` write while `chatStream`
calls back, and `streamChat` is the function of that name in `AI.html`, on the chunks the
network makes of it.  JavaScript strings are lists of characters.  The messages on the page
are left out.
-/

namespace AIService.Chat

/-! ## The server -/

/-- One event; `none` is an exception of `dump()`. -/
def sseEvent (codec : JsonCodec) (j : Json) : Option Bytes :=
  (codec.dump j).map fun text => bytes "data: " ++ text ++ bytes "\n\n"

def tokenEvent (token : Bytes) : Json :=
  .object [(bytes "choices", .arr [.object
    [(bytes "delta", .object [(bytes "content", .str token)]), (bytes "index", .int 0)]])]

def errorEvent (err : Bytes) : Json := .object [(bytes "error", .str err)]

def sessionEvent (sessionId : Bytes) : Json := .object [(bytes "sessionId", .str sessionId)]

def doneEvent : Bytes := bytes "data: [DONE]\n\n"

/-- What a callback of `chatStream` sends; `none` is an exception. -/
def callbackText (codec : JsonCodec) : Effect → Option Bytes
  | .onToken token => sseEvent codec (tokenEvent token)
  | .onDone _ => some doneEvent
  | .onError err => (sseEvent codec (errorEvent err)).map (· ++ doneEvent)
  | _ => some []

/-- The callbacks, up to one that throws. -/
def sendAll (codec : JsonCodec) : List Effect → Bytes
  | [] => []
  | call :: rest =>
      match callbackText codec call with
      | none => []
      | some text => text ++ sendAll codec rest

/-- The body of a response that may announce a session. -/
def sseBody (codec : JsonCodec) (announced : Option Bytes) (calls : List Effect) : Bytes :=
  match announced with
  | none => sendAll codec calls
  | some sessionId =>
      match sseEvent codec (sessionEvent sessionId) with
      | none => []
      | some text => text ++ sendAll codec calls

def ChatSendHandler.sseBody (codec : JsonCodec) : List Effect → Bytes := Chat.sseBody codec none

def ChatCreateAndSendHandler.sseBody (codec : JsonCodec) (sessionId : Bytes) : List Effect → Bytes :=
  Chat.sseBody codec (some sessionId)

/-- A result of `secureId`. -/
def IsSecureId (id : Bytes) : Prop := id.length = 32 ∧ id.all isHexDigit = true

theorem sendAll_silent (codec : JsonCodec) {quiet : List Effect}
    (silent : ∀ e ∈ quiet, callbackText codec e = some []) (rest : List Effect) :
    sendAll codec (quiet ++ rest) = sendAll codec rest := by
  induction quiet with
  | nil => rfl
  | cons e quiet ih =>
      rw [List.cons_append, sendAll, silent e List.mem_cons_self]
      dsimp only
      rw [List.nil_append]
      exact ih fun e' member => silent e' (List.mem_cons_of_mem e member)

/-- Only what comes after a common start can change what is sent. -/
theorem sendAll_congr (codec : JsonCodec) (start : List Effect) {rest rest' : List Effect}
    (same : sendAll codec rest = sendAll codec rest') :
    sendAll codec (start ++ rest) = sendAll codec (start ++ rest') := by
  induction start with
  | nil => exact same
  | cons e start ih =>
      rw [List.cons_append, List.cons_append, sendAll, sendAll, ih]

theorem sseBody_congr (codec : JsonCodec) (announced : Option Bytes) {calls calls' : List Effect}
    (same : sendAll codec calls = sendAll codec calls') :
    sseBody codec announced calls = sseBody codec announced calls' := by
  unfold sseBody
  rw [same]

theorem Preparatory.silent {helper : AIHelper} {e : Effect} (fine : Preparatory helper e)
    (codec : JsonCodec) : callbackText codec e = some [] := by
  cases e with
  | asked payload => rfl
  | generated key history => rfl
  | _ => exact fine.elim

theorem Sent.silent {codec : JsonCodec} {call : Call} {accepted : Option ChatExchange}
    {out : List Effect} (sent : Sent codec call accepted out) :
    ∀ e ∈ out, callbackText codec e = some [] := by
  intro e member
  cases sent with
  | nothing => cases member
  | refused written =>
      rw [List.mem_singleton.mp member]
      rfl
  | accepted written =>
      rw [List.mem_singleton.mp member]
      rfl

/-- Of a critical section only the tokens are sent. -/
theorem Shape.sent {codec : JsonCodec} {call : Call} {helper : AIHelper} {tokens : List Bytes}
    {accepted : Option ChatExchange} {out : List Effect}
    (shape : Shape codec call helper tokens accepted out) (last : List Effect) :
    sendAll codec (out ++ last) = sendAll codec (tokens.map .onToken ++ last) := by
  obtain ⟨asked, sent, rfl, fits, quiet⟩ := shape
  rw [List.append_assoc, List.append_assoc, sendAll_silent codec fun e member => (fits e member).silent codec]
  exact sendAll_congr codec _ (sendAll_silent codec quiet.silent last)

/-! ## The browser -/

namespace Browser

/-- `JSON.parse` and the conversion of a value to a string. -/
structure Engine where
  parse : List Char → Option Json
  toText : Json → List Char

/-- A value that JavaScript has too: its numbers hold the integers up to `Number.MAX_SAFE_INTEGER`. -/
inductive Portable : Json → Prop
  | null : Portable .null
  | bool (value : Bool) : Portable (.bool value)
  | int {n : Int} : n.natAbs ≤ 9007199254740991 → Portable (.int n)
  | str (s : Bytes) : Portable (.str s)
  | arr {items : List Json} : (∀ j ∈ items, Portable j) → Portable (.arr items)
  | obj {fields : List (Bytes × Json)} : ByKey fields → (∀ f ∈ fields, Portable f.2) →
    Portable (.obj fields)

/-- `JSON.parse` reads what `dump()` writes of such a value. -/
structure Engine.Faithful (engine : Engine) (codec : JsonCodec) : Prop where
  parse_dump {j : Json} {chars : List Char} :
    Portable j → codec.dump j = some (utf8 chars) → engine.parse chars = some j
  toText_str (chars : List Char) : engine.toText (.str (utf8 chars)) = chars

/-- What `streamChat` throws. -/
inductive Failure
  | typeError
  | error (message : List Char)
deriving DecidableEq

/-- A property of a value that is not `null`; `none` is `undefined`. -/
def property (key : String) : Json → Option Json
  | .obj fields => SortedMap.lookup (bytes key) fields
  | _ => none

def truthy : Json → Bool
  | .null => false
  | .bool value => value
  | .int n => n ≠ 0
  | .float q => q ≠ 0
  | .str s => s ≠ []
  | .arr _ => true
  | .obj _ => true

/-- `j.choices?.[0]?.delta?.content`. -/
def content (j : Json) : Option Json := do
  let first ← match property "choices" j with
    | some (.arr (choice :: _)) => some choice
    | some (.obj fields) => SortedMap.lookup (bytes "0") fields
    | _ => none
  property "content" (← property "delta" first)

structure Progress where
  fullContent : List Char := []
  newSessionId : Option Json := none
  completed : Bool := false

variable (engine : Engine)

/-- The text of the `Error` for a `j.error`. -/
def errorText (e : Json) : List Char :=
  match e with
  | .str _ => engine.toText e
  | _ =>
      match (property "message" e).filter truthy with
      | some message => engine.toText message
      | none => "Model request failed".toList

def readData (p : Progress) (data : List Char) : Except Failure Progress :=
  if data = "[DONE]".toList then .ok { p with completed := true }
  else
    match engine.parse data with
    | none => .error (.error "Invalid stream response".toList)
    | some .null => .error .typeError
    | some j =>
        match (property "error" j).filter truthy with
        | some e => .error (.error (errorText engine e))
        | none =>
            match (property "sessionId" j).filter truthy with
            | some id => .ok { p with newSessionId := some id }
            | none =>
                match (content j).filter truthy with
                | some token => .ok { p with fullContent := p.fullContent ++ engine.toText token }
                | none => .ok p

def readLine (p : Progress) (line : List Char) : Except Failure Progress :=
  if "data: ".toList.isPrefixOf line then readData engine p (line.drop 6) else .ok p

def readEvent (p : Progress) (event : List Char) : Except Failure Progress :=
  (event.splitOn '\n').foldlM (readLine engine) p

/-- The inner `while`, which ends after at most `fuel` events; it leaves the buffer. -/
def readEvents : Nat → Progress → List Char → Except Failure (Progress × List Char)
  | 0, p, buffer => .ok (p, buffer)
  | fuel + 1, p, buffer =>
      match cutAt ['\n', '\n'] buffer with
      | none => .ok (p, buffer)
      | some (event, rest) => do readEvents fuel (← readEvent engine p event) rest

/-- The variables of `streamChat`; `fresh` until the decoder has given a character. -/
structure Stream where
  decoder : Utf8Decoder := {}
  fresh : Bool := true
  buffer : List Char := []
  progress : Progress := {}

/-- The decoder drops a byte order mark at the start of the stream. -/
def withoutMark : List Char → List Char
  | '\uFEFF' :: rest => rest
  | text => text

/-- One turn of the outer `while`. -/
def readChunk (s : Stream) (value : Bytes) : Except Failure Stream :=
  let (decoder, chars) := s.decoder.decode value
  let buffer := s.buffer ++ (if s.fresh then withoutMark chars else chars)
  (readEvents engine buffer.length s.progress buffer).map fun (progress, buffer) =>
    { decoder := decoder, fresh := s.fresh && chars.isEmpty, buffer := buffer, progress := progress }

structure Answer where
  fullContent : List Char
  newSessionId : Option Json

def finish (p : Progress) : Except Failure Answer :=
  if ¬ p.completed then .error (.error "Stream incomplete: connection closed before completion".toList)
  else if p.fullContent = [] then .error (.error "Empty model response".toList)
  else .ok ⟨p.fullContent, p.newSessionId⟩

def streamChat (chunks : List Bytes) : Except Failure Answer := do
  finish (← chunks.foldlM (readChunk engine) {}).progress

/-! ## Chunks do not matter -/

/-- What the decoder makes of a body. -/
def decoded (body : Bytes) : List Char := withoutMark (Utf8Decoder.decode {} body).2

/-- What a chunk adds to it. -/
def added (body value : Bytes) : List Char :=
  let chars := ((Utf8Decoder.decode {} body).1.decode value).2
  if (Utf8Decoder.decode {} body).2.isEmpty then withoutMark chars else chars

theorem decoded_append (body value : Bytes) : decoded (body ++ value) = decoded body ++ added body value := by
  unfold decoded added
  rw [Utf8Decoder.decode_append]
  generalize (Utf8Decoder.decode {} body).2 = early
  cases early with
  | nil => rfl
  | cons c early =>
      change withoutMark (c :: (early ++ _)) = withoutMark (c :: early) ++ _
      by_cases mark : c = '\uFEFF'
      · subst mark
        rfl
      · have plain (rest : List Char) : withoutMark (c :: rest) = c :: rest := by
          unfold withoutMark
          split
          · next eq => exact absurd (List.cons.inj eq).1 mark
          · rfl
        rw [plain, plain]
        rfl

theorem readEvents_eq (fuel : Nat) (p : Progress) (buffer : List Char) :
    readEvents engine fuel p buffer =
      ((piecesFrom ['\n', '\n'] fuel buffer).1.foldlM (readEvent engine) p).map
        fun p => (p, (piecesFrom ['\n', '\n'] fuel buffer).2) := by
  induction fuel generalizing p buffer with
  | zero => rfl
  | succ fuel ih =>
      rw [readEvents, piecesFrom]
      cases cutAt ['\n', '\n'] buffer with
      | none => rfl
      | some parts =>
          obtain ⟨event, rest⟩ := parts
          dsimp only
          rw [List.foldlM_cons]
          cases readEvent engine p event with
          | error e => rfl
          | ok p' => exact ih p' rest

/-- Where a body leaves the variables. -/
def Stream.after (body : Bytes) (p : Progress) : Stream where
  decoder := (Utf8Decoder.decode {} body).1
  fresh := (Utf8Decoder.decode {} body).2.isEmpty
  buffer := (pieces ['\n', '\n'] (decoded body)).2
  progress := p

theorem readChunk_after (body value : Bytes) (p : Progress) :
    readChunk engine (.after body p) value =
      ((pieces ['\n', '\n'] ((pieces ['\n', '\n'] (decoded body)).2 ++ added body value)).1.foldlM
          (readEvent engine) p).map (.after (body ++ value)) := by
  have after (p : Progress) : Stream.after (body ++ value) p = {
      decoder := ((Utf8Decoder.decode {} body).1.decode value).1
      fresh := (Utf8Decoder.decode {} body).2.isEmpty &&
        ((Utf8Decoder.decode {} body).1.decode value).2.isEmpty
      buffer := (pieces ['\n', '\n'] ((pieces ['\n', '\n'] (decoded body)).2 ++ added body value)).2
      progress := p } := by
    unfold Stream.after
    rw [decoded_append, pieces_append (by simp), Utf8Decoder.decode_append]
    generalize (Utf8Decoder.decode {} body).2 = early
    cases early <;> rfl
  have read : readChunk engine (.after body p) value =
      (readEvents engine ((pieces ['\n', '\n'] (decoded body)).2 ++ added body value).length p
        ((pieces ['\n', '\n'] (decoded body)).2 ++ added body value)).map fun (progress, buffer) => {
          decoder := ((Utf8Decoder.decode {} body).1.decode value).1
          fresh := (Utf8Decoder.decode {} body).2.isEmpty &&
            ((Utf8Decoder.decode {} body).1.decode value).2.isEmpty
          buffer := buffer
          progress := progress } := rfl
  rw [read, readEvents_eq, ← pieces]
  cases List.foldlM (readEvent engine) p _ with
  | error e => rfl
  | ok p' => exact congrArg Except.ok (after p').symm

/-- The events of the whole body are read in order. -/
theorem foldlM_readChunk (chunks : List Bytes) :
    chunks.foldlM (readChunk engine) {} =
      ((pieces ['\n', '\n'] (decoded chunks.flatten)).1.foldlM (readEvent engine) {}).map
        (.after chunks.flatten) := by
  induction chunks using List.reverseRecOn with
  | nil => rfl
  | append_singleton chunks value ih =>
      rw [List.foldlM_append, ih, List.flatten_append, List.flatten_singleton, decoded_append,
        pieces_append (by simp), List.foldlM_append]
      cases ((pieces ['\n', '\n'] (decoded chunks.flatten)).1.foldlM (readEvent engine) {}) with
      | error e => rfl
      | ok p =>
          change List.foldlM (readChunk engine) (.after chunks.flatten p) [value] =
            Except.map _ (List.foldlM (readEvent engine) p _)
          rw [List.foldlM_cons, readChunk_after]
          cases List.foldlM (readEvent engine) p _ <;> rfl

theorem streamChat_eq (chunks : List Bytes) :
    streamChat engine chunks =
      ((pieces ['\n', '\n'] (decoded chunks.flatten)).1.foldlM (readEvent engine) {} >>= finish) := by
  rw [streamChat, foldlM_readChunk]
  cases (pieces ['\n', '\n'] (decoded chunks.flatten)).1.foldlM (readEvent engine) {} <;> rfl

/-! ## Well-formed bodies -/

/-- The text of some events with one line of data each. -/
def wire (datas : List (List Char)) : List Char :=
  datas.flatMap fun data => "data: ".toList ++ data ++ ['\n', '\n']

theorem wire_append (datas datas' : List (List Char)) : wire (datas ++ datas') = wire datas ++ wire datas' :=
  List.flatMap_append

/-- The event of a line of data. -/
def eventOf (data : List Char) : List Char := "data: ".toList ++ data

theorem eventOf_unbroken {data : List Char} (unbroken : '\n' ∉ data) : '\n' ∉ eventOf data := by
  intro member
  rcases List.mem_append.mp member with inside | inside
  · revert inside
    decide
  · exact unbroken inside

theorem pieces_wire {datas : List (List Char)} (unbroken : ∀ data ∈ datas, '\n' ∉ data) :
    pieces ['\n', '\n'] (wire datas) = (datas.map eventOf, []) := by
  induction datas with
  | nil => rfl
  | cons data rest ih =>
      have cut : cutAt ['\n', '\n'] (wire (data :: rest)) = some (eventOf data, wire rest) :=
        cutAt_line (eventOf_unbroken (unbroken data List.mem_cons_self)) (wire rest)
      rw [pieces_eq (by simp), cut]
      dsimp only
      rw [ih fun d member => unbroken d (List.mem_cons_of_mem data member)]
      rfl

/-- Less than the whole text has less than all of the events. -/
theorem pieces_part {datas : List (List Char)} (unbroken : ∀ data ∈ datas, '\n' ∉ data)
    {part : List Char} (before : part <+: wire datas) (proper : part ≠ wire datas) :
    ∃ early data later, datas = early ++ data :: later ∧
      (pieces ['\n', '\n'] part).1 = early.map eventOf := by
  induction datas generalizing part with
  | nil => exact absurd (List.prefix_nil.mp before) proper
  | cons data rest ih =>
      have line := eventOf_unbroken (unbroken data List.mem_cons_self)
      have split : wire (data :: rest) = (eventOf data ++ ['\n', '\n']) ++ wire rest := rfl
      by_cases past : eventOf data ++ ['\n', '\n'] <+: part
      · obtain ⟨more, rfl⟩ := past
        rw [split] at before proper
        obtain ⟨early, data', later, eq, events⟩ :=
          ih (fun d member => unbroken d (List.mem_cons_of_mem data member))
            ((List.prefix_append_right_inj _).mp before) fun whole => proper (congrArg _ whole)
        refine ⟨data :: early, data', later, congrArg (data :: ·) eq, ?_⟩
        rw [pieces_eq (by simp), cutAt_line line]
        dsimp only
        rw [events]
        rfl
      · rw [split] at before
        have inside : part <+: eventOf data ++ ['\n', '\n'] :=
          (List.prefix_or_prefix_of_prefix before (List.prefix_append _ _)).resolve_right past
        have short : part ≠ eventOf data ++ ['\n', '\n'] := by
          rintro rfl
          exact past List.prefix_rfl
        refine ⟨[], data, rest, rfl, ?_⟩
        rw [pieces_eq (by simp), cutAt_part line inside short]
        rfl

/-- A text that starts like an event has no byte order mark. -/
theorem withoutMark_part {datas : List (List Char)} {part : List Char} (before : part <+: wire datas) :
    withoutMark part = part := by
  cases part with
  | nil => rfl
  | cons c part =>
      have first : c = 'd' := by
        cases datas with
        | nil => exact absurd (List.prefix_nil.mp before) (List.cons_ne_nil c part)
        | cons data rest =>
            obtain ⟨more, eq⟩ := before
            exact (List.cons.inj eq).1
      subst first
      rfl

/-- What the browser sees of a body, or of less. -/
theorem decoded_wire (datas : List (List Char)) : decoded (utf8 (wire datas)) = wire datas := by
  rw [decoded, Utf8Decoder.decode_utf8]
  exact withoutMark_part List.prefix_rfl

theorem decoded_part {datas : List (List Char)} {part : Bytes} (before : part <+: utf8 (wire datas))
    (proper : part ≠ utf8 (wire datas)) :
    decoded part <+: wire datas ∧ decoded part ≠ wire datas := by
  obtain ⟨early, later, split, left, out⟩ := Utf8Decoder.decode_part before proper
  have start : early <+: wire datas := ⟨later, split.symm⟩
  rw [decoded, out, withoutMark_part start]
  refine ⟨start, fun whole => left ?_⟩
  rw [whole] at split
  exact List.append_right_eq_self.mp split.symm

/-! ## Reading events -/

theorem readEvent_eventOf (p : Progress) {data : List Char} (unbroken : '\n' ∉ data) :
    readEvent engine p (eventOf data) = readData engine p data := by
  unfold readEvent
  rw [List.splitOn_eq_singleton (eventOf_unbroken unbroken), List.foldlM_cons]
  have line : readLine engine p (eventOf data) = readData engine p data := by
    have starts : "data: ".toList.isPrefixOf (eventOf data) = true :=
      List.isPrefixOf_iff_prefix.mpr ⟨data, rfl⟩
    unfold readLine
    rw [if_pos starts]
    rfl
  rw [line]
  cases readData engine p data <;> rfl

theorem foldlM_readEvent {datas : List (List Char)} (unbroken : ∀ data ∈ datas, '\n' ∉ data)
    (p : Progress) :
    (datas.map eventOf).foldlM (readEvent engine) p = datas.foldlM (readData engine) p := by
  induction datas generalizing p with
  | nil => rfl
  | cons data rest ih =>
      rw [List.map_cons, List.foldlM_cons, List.foldlM_cons,
        readEvent_eventOf engine p (unbroken data List.mem_cons_self)]
      cases readData engine p data with
      | error e => rfl
      | ok p' => exact ih (fun d member => unbroken d (List.mem_cons_of_mem data member)) p'

/-- Only one line of data completes an answer. -/
theorem readData_completed {p p' : Progress} {data : List Char} (other : data ≠ "[DONE]".toList)
    (read : readData engine p data = .ok p') : p'.completed = p.completed := by
  unfold readData at read
  rw [if_neg other] at read
  split at read
  · cases read
  · cases read
  · split at read
    · cases read
    · split at read
      · cases read
        rfl
      · split at read <;>
          · cases read
            rfl

theorem foldlM_readData_completed {datas : List (List Char)}
    (others : ∀ data ∈ datas, data ≠ "[DONE]".toList) {p p' : Progress}
    (read : datas.foldlM (readData engine) p = .ok p') : p'.completed = p.completed := by
  induction datas generalizing p with
  | nil =>
      cases read
      rfl
  | cons data rest ih =>
      rw [List.foldlM_cons] at read
      obtain ⟨p₁, first, later⟩ := bind_eq_ok read
      rw [ih (fun d member => others d (List.mem_cons_of_mem data member)) later]
      exact readData_completed engine (others data List.mem_cons_self) first

/-- Without the last event the answer is not complete. -/
theorem incomplete_throws {datas : List (List Char)} (unbroken : ∀ data ∈ datas, '\n' ∉ data)
    (others : ∀ data ∈ datas, data ≠ "[DONE]".toList) {chunks : List Bytes}
    (events : (pieces ['\n', '\n'] (decoded chunks.flatten)).1 = datas.map eventOf) :
    ∃ e, streamChat engine chunks = .error e := by
  rw [streamChat_eq, events, foldlM_readEvent engine unbroken]
  cases read : datas.foldlM (readData engine) {} with
  | error e => exact ⟨e, rfl⟩
  | ok p =>
      have unfinished : p.completed = false := foldlM_readData_completed engine others read
      exact ⟨_, by
        change finish p = _
        rw [finish, unfinished]
        exact if_pos Bool.false_ne_true⟩

/-! ## What the server sends -/

variable {engine} {codec : JsonCodec}

/-- Data that neither break a line nor complete the answer. -/
def Plain (data : List Char) : Prop := '\n' ∉ data ∧ data ≠ "[DONE]".toList

theorem utf8_wire_one (data : List Char) :
    utf8 (wire [data]) = bytes "data: " ++ utf8 data ++ bytes "\n\n" := by
  have start : utf8 "data: ".toList = bytes "data: " := by decide
  have blank : utf8 ['\n', '\n'] = bytes "\n\n" := by decide
  rw [← start, ← blank, ← utf8_append, ← utf8_append]
  exact congrArg utf8 (List.append_nil _)

/-- The event of an object that was written. -/
theorem sseEvent_plain (faithful : codec.Faithful) {fields : List (Bytes × Json)} {text : Bytes}
    (dumped : codec.dump (.obj fields) = some text) :
    ∃ data, Plain data ∧ codec.dump (.obj fields) = some (utf8 data) ∧
      sseEvent codec (.obj fields) = some (utf8 (wire [data])) := by
  obtain ⟨⟨data, rfl⟩, silent⟩ := faithful.dump_text dumped
  refine ⟨data, ⟨fun member => ?_, ?_⟩, dumped, ?_⟩
  · apply silent
    exact List.mem_flatMap.mpr ⟨'\n', member, by decide⟩
  · rintro rfl
    obtain ⟨rest, eq⟩ := faithful.dump_obj dumped
    have first : (utf8 "[DONE]".toList).head? = some 91 := by decide
    rw [eq] at first
    cases first
  · rw [sseEvent, dumped, utf8_wire_one]
    rfl

theorem truthy_str {chars : List Char} (nonempty : chars ≠ []) : truthy (.str (utf8 chars)) = true := by
  apply decide_eq_true
  intro empty
  have none := Utf8Decoder.decode_utf8 chars
  rw [empty] at none
  exact nonempty (Prod.mk.inj none).2.symm

theorem writable_member {key : String} (ascii : ∀ b ∈ bytes key, b < 128) {v : Json} (writable : v.Writable) :
    (Json.object [(bytes key, v)]).Writable := by
  apply Json.writable_object
  · intro f member
    rw [List.mem_singleton.mp member]
    exact validUtf8_of_ascii ascii
  · intro f member
    rw [List.mem_singleton.mp member]
    exact writable

theorem writable_tokenEvent {token : Bytes} (valid : ValidUtf8 token) : (tokenEvent token).Writable := by
  have delta : (Json.object [(bytes "content", .str token)]).Writable :=
    writable_member (by decide +kernel) (.str valid)
  have choice : (Json.object [(bytes "delta", .object [(bytes "content", .str token)]),
      (bytes "index", .int 0)]).Writable := by
    apply Json.writable_object
    · intro f member
      rcases List.mem_cons.mp member with rfl | member
      · exact validUtf8_of_ascii (show ∀ b ∈ bytes "delta", b < 128 by decide +kernel)
      · rw [List.mem_singleton.mp member]
        exact validUtf8_of_ascii (show ∀ b ∈ bytes "index", b < 128 by decide +kernel)
    · intro f member
      rcases List.mem_cons.mp member with rfl | member
      · exact delta
      · rw [List.mem_singleton.mp member]
        exact .int (by decide)
  apply writable_member (by decide +kernel)
  apply Json.Writable.arr
  intro j member
  rw [List.mem_singleton.mp member]
  exact choice

theorem portable_object {fields : List (Bytes × Json)} (values : ∀ f ∈ fields, Portable f.2) :
    Portable (.object fields) :=
  .obj (Json.byKey_object fields) fun f member => values f (Json.mem_object member)

theorem portable_member (key : Bytes) {v : Json} (portable : Portable v) :
    Portable (.object [(key, v)]) := by
  apply portable_object
  intro f member
  rw [List.mem_singleton.mp member]
  exact portable

theorem portable_tokenEvent (token : Bytes) : Portable (tokenEvent token) := by
  have choice : Portable (.object [(bytes "delta", .object [(bytes "content", .str token)]),
      (bytes "index", .int 0)]) := by
    apply portable_object
    intro f member
    rcases List.mem_cons.mp member with rfl | member
    · exact portable_member _ (.str token)
    · rw [List.mem_singleton.mp member]
      exact .int (by decide)
  apply portable_member
  apply Portable.arr
  intro j member
  rw [List.mem_singleton.mp member]
  exact choice

theorem readData_token (engineFaithful : engine.Faithful codec) {token data : List Char}
    (plain : Plain data) (wrote : codec.dump (tokenEvent (utf8 token)) = some (utf8 data)) (p : Progress) :
    readData engine p data = .ok { p with fullContent := p.fullContent ++ token } := by
  have noError : property "error" (tokenEvent (utf8 token)) = none := rfl
  have text : content (tokenEvent (utf8 token)) = some (.str (utf8 token)) := rfl
  unfold readData
  rw [if_neg plain.2, engineFaithful.parse_dump (portable_tokenEvent _) wrote]
  change (match (property "error" (tokenEvent (utf8 token))).filter truthy with
    | some e => Except.error (Failure.error (errorText engine e))
    | none => _) = _
  rw [noError, text]
  cases token with
  | nil =>
      rw [List.append_nil]
      rfl
  | cons c token =>
      have shown : (some (Json.str (utf8 (c :: token)))).filter truthy = some (.str (utf8 (c :: token))) := by
        rw [Option.filter_some, if_pos (truthy_str (List.cons_ne_nil c token))]
      rw [shown]
      exact congrArg (fun text => Except.ok { p with fullContent := p.fullContent ++ text })
        (engineFaithful.toText_str (c :: token))

theorem readData_error (engineFaithful : engine.Faithful codec) {err : Bytes} {data : List Char}
    (plain : Plain data) (wrote : codec.dump (errorEvent err) = some (utf8 data)) (nonempty : err ≠ [])
    (p : Progress) : readData engine p data = .error (.error (errorText engine (.str err))) := by
  have found : property "error" (errorEvent err) = some (.str err) := rfl
  have shown : truthy (.str err) = true := decide_eq_true nonempty
  unfold readData
  rw [if_neg plain.2, engineFaithful.parse_dump (portable_member _ (.str err)) wrote]
  change (match (property "error" (errorEvent err)).filter truthy with
    | some e => Except.error (Failure.error (errorText engine e))
    | none => _) = _
  rw [found, Option.filter_some, if_pos shown]

/-- The data of some callbacks, and what they add to an answer. -/
theorem tokens_spec (faithful : codec.Faithful) (engineFaithful : engine.Faithful codec)
    {tokens : List Bytes} (valid : ∀ token ∈ tokens, ValidUtf8 token) :
    ∃ datas chars, utf8 chars = tokens.flatten ∧ (∀ data ∈ datas, Plain data) ∧
      (∀ rest, sendAll codec (tokens.map .onToken ++ rest) = utf8 (wire datas) ++ sendAll codec rest) ∧
      ∀ p : Progress, datas.foldlM (readData engine) p =
        .ok { p with fullContent := p.fullContent ++ chars } := by
  induction tokens with
  | nil =>
      refine ⟨[], [], rfl, nofun, fun rest => rfl, fun p => ?_⟩
      rw [List.append_nil]
      rfl
  | cons token tokens ih =>
      obtain ⟨datas, chars, flat, plain, sent, added⟩ :=
        ih fun token member => valid token (List.mem_cons_of_mem _ member)
      obtain ⟨first, rfl⟩ := valid token List.mem_cons_self
      obtain ⟨text, dumped⟩ := faithful.dump_writable (writable_tokenEvent ⟨first, rfl⟩)
      obtain ⟨data, plainFirst, wrote, event⟩ := sseEvent_plain faithful dumped
      refine ⟨data :: datas, first ++ chars, ?_, ?_, fun rest => ?_, fun p => ?_⟩
      · rw [utf8_append, flat]
        rfl
      · intro d member
        rcases List.mem_cons.mp member with rfl | member
        · exact plainFirst
        · exact plain d member
      · have call : callbackText codec (.onToken (utf8 first)) = some (utf8 (wire [data])) := event
        rw [List.map_cons, List.cons_append, sendAll, call]
        dsimp only
        rw [sent, ← List.append_assoc, ← utf8_append, ← wire_append]
        rfl
      · rw [List.foldlM_cons, readData_token engineFaithful plainFirst wrote]
        change List.foldlM (readData engine) _ datas = _
        rw [added, List.append_assoc]

theorem session_spec (faithful : codec.Faithful) (engineFaithful : engine.Faithful codec)
    {announced : Option Bytes} (secure : ∀ id ∈ announced, IsSecureId id) :
    ∃ datas, (∀ data ∈ datas, Plain data) ∧
      (∀ calls, sseBody codec announced calls = utf8 (wire datas) ++ sendAll codec calls) ∧
      datas.foldlM (readData engine) {} = .ok { newSessionId := announced.map .str } := by
  cases announced with
  | none => exact ⟨[], nofun, fun calls => rfl, rfl⟩
  | some id =>
      obtain ⟨length, hex⟩ := secure id rfl
      have ascii : ∀ b ∈ id, b < 128 := ChatExchange.hex_ascii hex
      obtain ⟨chars, rfl⟩ := validUtf8_of_ascii ascii
      have nonempty : chars ≠ [] := by
        rintro rfl
        cases length
      obtain ⟨text, dumped⟩ :=
        faithful.dump_writable (show (sessionEvent (utf8 chars)).Writable from
          writable_member (by decide +kernel) (.str ⟨chars, rfl⟩))
      obtain ⟨data, plain, wrote, event⟩ := sseEvent_plain faithful dumped
      refine ⟨[data], fun d member => ?_, fun calls => ?_, ?_⟩
      · rw [List.mem_singleton.mp member]
        exact plain
      · have sent : sseEvent codec (sessionEvent (utf8 chars)) = some (utf8 (wire [data])) := event
        rw [sseBody, sent]
      · have read : readData engine {} data = .ok { newSessionId := some (.str (utf8 chars)) } := by
          unfold readData
          rw [if_neg plain.2, engineFaithful.parse_dump (portable_member _ (.str _)) wrote]
          change (match (some (Json.str (utf8 chars))).filter truthy with
            | some id => Except.ok ({ newSessionId := some id } : Progress)
            | none => _) = _
          rw [Option.filter_some, if_pos (truthy_str nonempty)]
        rw [List.foldlM_cons, read]
        rfl

/-- Everything before the last callback. -/
theorem opening_spec (faithful : codec.Faithful) (engineFaithful : engine.Faithful codec)
    {announced : Option Bytes} (secure : ∀ id ∈ announced, IsSecureId id) {tokens : List Bytes}
    (valid : ∀ token ∈ tokens, ValidUtf8 token) :
    ∃ datas chars, utf8 chars = tokens.flatten ∧ (∀ data ∈ datas, Plain data) ∧
      (∀ last, sseBody codec announced (tokens.map .onToken ++ last) =
        utf8 (wire datas) ++ sendAll codec last) ∧
      datas.foldlM (readData engine) {} =
        .ok { fullContent := chars, newSessionId := announced.map .str } := by
  obtain ⟨head, plainHead, sentHead, readHead⟩ := session_spec faithful engineFaithful secure
  obtain ⟨datas, chars, flat, plain, sent, read⟩ := tokens_spec faithful engineFaithful valid
  refine ⟨head ++ datas, chars, flat, fun data member => ?_, fun last => ?_, ?_⟩
  · rcases List.mem_append.mp member with early | late
    · exact plainHead data early
    · exact plain data late
  · rw [sentHead, sent, wire_append, utf8_append, List.append_assoc]
  · rw [List.foldlM_append, readHead]
    exact read _

theorem unbroken_concat {datas : List (List Char)} {last : List Char} (plain : ∀ data ∈ datas, Plain data)
    (unbroken : '\n' ∉ last) : ∀ data ∈ datas ++ [last], '\n' ∉ data := by
  intro data member
  rcases List.mem_append.mp member with early | late
  · exact (plain data early).1
  · rw [List.mem_singleton.mp late]
    exact unbroken

/-- A whole body is read line by line. -/
theorem streamChat_whole {datas : List (List Char)} (unbroken : ∀ data ∈ datas, '\n' ∉ data)
    {chunks : List Bytes} (whole : chunks.flatten = utf8 (wire datas)) :
    streamChat engine chunks = (datas.foldlM (readData engine) {} >>= finish) := by
  rw [streamChat_eq, whole, decoded_wire, pieces_wire unbroken, foldlM_readEvent engine unbroken]

/-- Less than a body whose last event alone completes the answer. -/
theorem part_throws {datas : List (List Char)} {last : List Char} (plain : ∀ data ∈ datas, Plain data)
    (unbroken : '\n' ∉ last) {chunks : List Bytes}
    (before : chunks.flatten <+: utf8 (wire (datas ++ [last])))
    (proper : chunks.flatten ≠ utf8 (wire (datas ++ [last]))) :
    ∃ e, streamChat engine chunks = .error e := by
  obtain ⟨before, proper⟩ := decoded_part before proper
  obtain ⟨early, data, later, split, events⟩ := pieces_part (unbroken_concat plain unbroken) before proper
  have initial : early <+: datas := by
    have start : early <+: datas ++ [last] := ⟨data :: later, split.symm⟩
    rcases List.prefix_concat_iff.mp start with whole | inside
    · rw [whole] at split
      have none := List.append_right_eq_self.mp split.symm
      cases none
    · exact inside
  have plainEarly (d : List Char) (member : d ∈ early) : Plain d := plain d (initial.subset member)
  exact incomplete_throws engine (fun d member => (plainEarly d member).1)
    (fun d member => (plainEarly d member).2) events

/-- A body, or less, in which nothing completes the answer. -/
theorem plain_throws {datas : List (List Char)} (plain : ∀ data ∈ datas, Plain data)
    {chunks : List Bytes} (before : chunks.flatten <+: utf8 (wire datas)) :
    ∃ e, streamChat engine chunks = .error e := by
  have lines (data : List Char) (member : data ∈ datas) : '\n' ∉ data := (plain data member).1
  by_cases whole : chunks.flatten = utf8 (wire datas)
  · have events : (pieces ['\n', '\n'] (decoded chunks.flatten)).1 = datas.map eventOf := by
      rw [whole, decoded_wire, pieces_wire lines]
    exact incomplete_throws engine lines (fun d member => (plain d member).2) events
  · obtain ⟨before, proper⟩ := decoded_part before whole
    obtain ⟨early, data, later, split, events⟩ := pieces_part lines before proper
    have initial : early <+: datas := ⟨data :: later, split.symm⟩
    exact incomplete_throws engine (fun d member => lines d (initial.subset member))
      (fun d member => (plain d (initial.subset member)).2) events

theorem doneEvent_eq : doneEvent = utf8 (wire ["[DONE]".toList]) := by decide

theorem done_unbroken : '\n' ∉ "[DONE]".toList := by decide

/-- What `on_error` sends: nothing if it throws, and two events otherwise. -/
theorem sendAll_onError (faithful : codec.Faithful) (err : Bytes) :
    sendAll codec [.onError err] = [] ∨
      ∃ data, Plain data ∧ codec.dump (errorEvent err) = some (utf8 data) ∧
        sendAll codec [.onError err] = utf8 (wire ([data] ++ ["[DONE]".toList])) := by
  cases dumped : codec.dump (errorEvent err) with
  | none =>
      left
      rw [sendAll, callbackText, sseEvent, dumped]
      rfl
  | some text =>
      obtain ⟨data, plain, wrote, event⟩ := sseEvent_plain faithful dumped
      refine .inr ⟨data, plain, dumped.symm.trans wrote, ?_⟩
      have call : callbackText codec (.onError err) = some (utf8 (wire [data]) ++ doneEvent) := by
        change (sseEvent codec (errorEvent err)).map (· ++ doneEvent) = _
        rw [show sseEvent codec (errorEvent err) = some (utf8 (wire [data])) from event]
        rfl
      rw [sendAll, call]
      dsimp only
      rw [doneEvent_eq, ← utf8_append, ← wire_append]
      exact List.append_nil _

/-- A body, or less, that reports an error behind plain events. -/
theorem report_throws (engineFaithful : engine.Faithful codec) {err : Bytes} (nonempty : err ≠ [])
    {datas : List (List Char)} {data : List Char} (plain : ∀ d ∈ datas, Plain d) (plainLast : Plain data)
    (wrote : codec.dump (errorEvent err) = some (utf8 data)) {p : Progress}
    (read : datas.foldlM (readData engine) {} = .ok p) {chunks : List Bytes}
    (before : chunks.flatten <+: utf8 (wire ((datas ++ [data]) ++ ["[DONE]".toList]))) :
    ∃ e, streamChat engine chunks = .error e := by
  have plainReport : ∀ d ∈ datas ++ [data], Plain d := by
    intro d member
    rcases List.mem_append.mp member with early | late
    · exact plain d early
    · rw [List.mem_singleton.mp late]
      exact plainLast
  by_cases whole : chunks.flatten = utf8 (wire ((datas ++ [data]) ++ ["[DONE]".toList]))
  · refine ⟨.error (errorText engine (.str err)), ?_⟩
    rw [streamChat_whole (unbroken_concat plainReport done_unbroken) whole, List.append_assoc,
      List.foldlM_append, read]
    change (List.foldlM (readData engine) p (data :: ["[DONE]".toList]) >>= finish) = _
    rw [List.foldlM_cons, readData_error engineFaithful plainLast wrote nonempty]
    rfl
  · exact part_throws plainReport done_unbroken before whole

/-- A whole body that ends well. -/
theorem done_answers {datas : List (List Char)} (plain : ∀ data ∈ datas, Plain data)
    {chars : List Char} {newSessionId : Option Json} (nonempty : chars ≠ [])
    (read : datas.foldlM (readData engine) {} =
      .ok { fullContent := chars, newSessionId := newSessionId }) {chunks : List Bytes}
    (whole : chunks.flatten = utf8 (wire (datas ++ ["[DONE]".toList]))) :
    streamChat engine chunks = .ok ⟨chars, newSessionId⟩ := by
  have last : readData engine { fullContent := chars, newSessionId := newSessionId } "[DONE]".toList =
      .ok { fullContent := chars, newSessionId := newSessionId, completed := true } := if_pos rfl
  rw [streamChat_whole (unbroken_concat plain done_unbroken) whole, List.foldlM_append, read]
  change (List.foldlM (readData engine) { fullContent := chars, newSessionId := newSessionId }
    ["[DONE]".toList] >>= finish) = _
  rw [List.foldlM_cons, last]
  change finish { fullContent := chars, newSessionId := newSessionId, completed := true } = _
  rw [finish, if_neg (by simp), if_neg nonempty]

/-- Server and browser agree.  A finished answer is read whole, with the announced session;
a body that is cut short, or reports an error, is never taken for an answer. -/
theorem streamChat_agrees (faithful : codec.Faithful) (engineFaithful : engine.Faithful codec)
    {announced : Option Bytes} (secure : ∀ id ∈ announced, IsSecureId id) {tokens : List Bytes}
    (valid : ∀ token ∈ tokens, ValidUtf8 token) (chunks : List Bytes) :
    (∀ answer, chunks.flatten = sseBody codec announced (tokens.map .onToken ++ [.onDone answer]) →
      tokens.flatten ≠ [] → ∃ fullContent, utf8 fullContent = tokens.flatten ∧
        streamChat engine chunks = .ok ⟨fullContent, announced.map .str⟩) ∧
    (∀ answer, chunks.flatten <+: sseBody codec announced (tokens.map .onToken ++ [.onDone answer]) →
      chunks.flatten ≠ sseBody codec announced (tokens.map .onToken ++ [.onDone answer]) →
        ∃ e, streamChat engine chunks = .error e) ∧
    ∀ err, err ≠ [] →
      chunks.flatten <+: sseBody codec announced (tokens.map .onToken ++ [.onError err]) →
        ∃ e, streamChat engine chunks = .error e := by
  obtain ⟨datas, chars, flat, plain, sent, read⟩ := opening_spec faithful engineFaithful secure valid
  have done (answer : Bytes) : sseBody codec announced (tokens.map .onToken ++ [.onDone answer]) =
      utf8 (wire (datas ++ ["[DONE]".toList])) := by
    rw [sent, wire_append, utf8_append, ← doneEvent_eq]
    exact congrArg _ (List.append_nil doneEvent)
  refine ⟨fun answer whole nonempty => ?_, fun answer before proper => ?_, fun err nonempty before => ?_⟩
  · have some : chars ≠ [] := by
      rintro rfl
      exact nonempty flat.symm
    exact ⟨chars, flat, done_answers plain some read (whole.trans (done answer))⟩
  · rw [done] at before proper
    exact part_throws plain done_unbroken before proper
  · rw [sent] at before
    rcases sendAll_onError faithful err with silent | ⟨data, plainLast, wrote, report⟩
    · rw [silent, List.append_nil] at before
      exact plain_throws plain before
    · rw [report, ← utf8_append, ← wire_append, ← List.append_assoc] at before
      exact report_throws engineFaithful nonempty plain plainLast wrote read before

/-- An engine that reads with the server's codec. -/
def codecEngine (codec : JsonCodec) : Engine where
  parse chars := codec.parse (utf8 chars)
  toText
    | .str s => (Utf8Decoder.decode {} s).2
    | _ => []

theorem codecEngine_faithful (faithful : codec.Faithful) : (codecEngine codec).Faithful codec where
  parse_dump _ written := faithful.parse_dump written
  toText_str chars := congrArg Prod.snd (Utf8Decoder.decode_utf8 chars)

/-- The body of an answer of one token. -/
def greetingBody : Bytes :=
  ChatCreateAndSendHandler.sseBody textCodec (bytes "0123456789abcdef0123456789abcdef")
    [.onToken (bytes "hi"), .onDone (bytes "hi")]

theorem streamChat_agrees_greeting :
    ∃ fullContent, utf8 fullContent = bytes "hi" ∧
      streamChat (codecEngine textCodec) [greetingBody.take 50, greetingBody.drop 50] =
        .ok ⟨fullContent, some (.str (bytes "0123456789abcdef0123456789abcdef"))⟩ := by
  have secure : ∀ id ∈ some (bytes "0123456789abcdef0123456789abcdef"), IsSecureId id := by
    intro id member
    cases member
    exact ⟨by decide, by decide⟩
  have valid : ∀ token ∈ [bytes "hi"], ValidUtf8 token := by
    intro token member
    rw [List.mem_singleton.mp member]
    exact ⟨['h', 'i'], by decide⟩
  have whole : [greetingBody.take 50, greetingBody.drop 50].flatten =
      sseBody textCodec (some (bytes "0123456789abcdef0123456789abcdef"))
        ([bytes "hi"].map .onToken ++ [.onDone (bytes "hi")]) := by
    rw [List.flatten_cons, List.flatten_singleton, List.take_append_drop]
    rfl
  exact (streamChat_agrees textCodec_faithful (codecEngine_faithful textCodec_faithful) secure valid _).1
    (bytes "hi") whole (by decide)

end Browser

end AIService.Chat
