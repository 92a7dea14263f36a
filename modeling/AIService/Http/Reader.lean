import AIService.Data.Decimal
import AIService.Http.Response

/-!
# A reader of response streams

`readStream` is an HTTP/1.1 client: it splits a byte stream into messages, each a head up to
the empty line and a body as long as `Content-Length` says, or none where the status
forbids one.  What `appendToBuffer` writes one response after the other, it reads back
(`response_stream`).
-/

namespace AIService.Http

structure Message where
  version : Bytes
  status : Nat
  reason : Bytes
  /-- The header lines, in order. -/
  headers : List (Bytes × Bytes)
  body : Bytes
deriving DecidableEq

/-- The first line of a text, and what follows its CRLF. -/
def cutLine : Bytes → Option (Bytes × Bytes)
  | 13 :: 10 :: rest => some ([], rest)
  | b :: rest => (cutLine rest).map fun (line, rest) => (b :: line, rest)
  | [] => none

/-- The lines before the first empty line, at most `fuel` of them. -/
def readLines : Nat → Bytes → Option (List Bytes × Bytes)
  | 0, _ => none
  | fuel + 1, text =>
      match cutLine text with
      | none => none
      | some ([], rest) => some ([], rest)
      | some (line, rest) => (readLines fuel rest).map fun (lines, rest) => (line :: lines, rest)

def readNumber (text : Bytes) : Option Nat :=
  if text ≠ [] ∧ text.all isDigit then some (digitsValue text) else none

def readStatusLine (line : Bytes) : Option (Bytes × Nat × Bytes) :=
  (cut 32 line).bind fun (version, rest) =>
    (cut 32 rest).bind fun (code, reason) =>
      (readNumber code).map fun status => (version, status, reason)

/-- A header line; one space after the colon belongs to neither part, and what follows it is the value,
byte for byte.  A reader of RFC 9112 also strips the other blanks around the value. -/
def readField (line : Bytes) : Option (Bytes × Bytes) :=
  (cut 58 line).map fun (name, value) => (name, if value.head? = some 32 then value.tail else value)

/-- `header` has this name, in any letter case. -/
def named (name : String) (header : Bytes × Bytes) : Bool := lower header.1 = bytes name

theorem named_eq (name : String) (key value : Bytes) :
    named name (key, value) = decide (lower key = bytes name) := rfl

def bodyless (status : Nat) : Bool := (100 ≤ status && status < 200) || status == 204 || status == 304

def bodyLength (status : Nat) (headers : List (Bytes × Bytes)) : Option Nat :=
  if bodyless status then some 0
  else
    match headers.filter (named "content-length") with
    | [header] => readNumber header.2
    | _ => none

def readMessage (text : Bytes) : Option (Message × Bytes) :=
  match readLines (text.length + 1) text with
  | some (first :: fields, rest) =>
      (readStatusLine first).bind fun (version, status, reason) =>
        (fields.mapM readField).bind fun headers =>
          (bodyLength status headers).bind fun length =>
            if rest.length < length then none
            else some (⟨version, status, reason, headers, rest.take length⟩, rest.drop length)
  | _ => none

def readMessages : Nat → Bytes → Option (List Message)
  | _, [] => some []
  | 0, _ => none
  | fuel + 1, text => (readMessage text).bind fun (m, rest) => (readMessages fuel rest).map (m :: ·)

def readStream (text : Bytes) : Option (List Message) := readMessages text.length text

/-! ## What a response means -/

/-- No CR and no LF. -/
def IsLine (text : Bytes) : Prop := 13 ∉ text ∧ 10 ∉ text

instance (text : Bytes) : Decidable (IsLine text) := inferInstanceAs (Decidable (_ ∧ _))

namespace HttpResponse

variable (resp : HttpResponse)

structure Sendable : Prop where
  plain : resp.streaming = false
  version : IsLine resp.httpVersion ∧ 32 ∉ resp.httpVersion
  reason : IsLine resp.statusMessage
  names : ∀ h ∈ resp.headers.entries, h.1 ≠ [] ∧ IsLine h.1 ∧ 58 ∉ h.1
  values : ∀ h ∈ resp.headers.entries, IsLine h.2

/-- The headers of the handler that are not about framing. -/
def remaining : List (Bytes × Bytes) :=
  resp.headers.entries.filter fun h => !(named "connection" h || named "content-length" h ||
    named "transfer-encoding" h)

/-- What the client is to read. -/
def message : Message where
  version := resp.httpVersion
  status := resp.statusCode
  reason := resp.statusMessage
  headers := (bytes "Connection", bytes (if resp.closeConnection then "close" else "Keep-Alive")) ::
    ((if resp.noBody then [] else [(bytes "Content-Length", digits resp.body.length)]) ++
      resp.remaining)
  body := if resp.noBody then [] else resp.body

end HttpResponse

/-! ## Reading what was written -/

theorem cutLine_append {line : Bytes} (clean : 13 ∉ line) (rest : Bytes) :
    cutLine (line ++ (crlf ++ rest)) = some (line, rest) := by
  induction line with
  | nil => rfl
  | cons b line ih =>
      have other : b ≠ 13 := fun same => clean (same ▸ List.mem_cons_self)
      have later := ih fun member => clean (List.mem_cons_of_mem b member)
      rw [List.cons_append, cutLine, later]
      · rfl
      · intro rest' same _
        exact other same

theorem readLines_append {lines : List Bytes} (clean : ∀ line ∈ lines, line ≠ [] ∧ 13 ∉ line)
    (rest : Bytes) {fuel : Nat} (enough : lines.length < fuel) :
    readLines fuel (lines.flatMap (· ++ crlf) ++ (crlf ++ rest)) = some (lines, rest) := by
  induction lines generalizing fuel with
  | nil =>
      cases fuel with
      | zero => exact absurd enough (Nat.not_lt_zero _)
      | succ fuel => rfl
  | cons line lines ih =>
      cases fuel with
      | zero => exact absurd enough (Nat.not_lt_zero _)
      | succ fuel =>
          obtain ⟨nonempty, free⟩ := clean line List.mem_cons_self
          have later := ih (fun l member => clean l (List.mem_cons_of_mem _ member))
            (Nat.lt_of_succ_lt_succ enough)
          obtain ⟨b, line, rfl⟩ := List.exists_cons_of_ne_nil nonempty
          rw [List.flatMap_cons, List.append_assoc, List.append_assoc, readLines,
            cutLine_append free]
          dsimp only
          rw [later]
          rfl

theorem readNumber_digits (n : Nat) : readNumber (digits n) = some n := by
  obtain ⟨nonempty, rows, value⟩ := digits_spec n
  have all : (digits n).all isDigit = true :=
    List.all_eq_true.mpr fun b member => by simpa [isDigit] using rows b member
  rw [readNumber, if_pos ⟨nonempty, all⟩, value]

theorem not_mem_digits {b : UInt8} (other : isDigit b = false) (n : Nat) : b ∉ digits n := by
  intro member
  have digit : isDigit b = true := by simpa [isDigit] using (digits_spec n).2.1 b member
  rw [digit] at other
  cases other

theorem readField_line {h : Bytes × Bytes} (name : 58 ∉ h.1) :
    readField (h.1 ++ bytes ": " ++ h.2) = some h := by
  have eq : h.1 ++ bytes ": " ++ h.2 = h.1 ++ 58 :: 32 :: h.2 := by simp [bytes]
  rw [readField, eq, cut_append name]
  rfl

namespace HttpResponse

variable {resp : HttpResponse}

/-- A header as a line. -/
def line (h : Bytes × Bytes) : Bytes := h.1 ++ bytes ": " ++ h.2

def statusLine (resp : HttpResponse) : Bytes :=
  resp.httpVersion ++ 32 :: (digits resp.statusCode ++ 32 :: resp.statusMessage)

theorem headerLines_eq (plain : resp.streaming = false) (hs : List (Bytes × Bytes)) :
    hs.flatMap resp.headerLine =
      ((hs.filter fun h => !(named "connection" h || named "content-length" h ||
        named "transfer-encoding" h)).map line).flatMap (· ++ crlf) := by
  induction hs with
  | nil => rfl
  | cons h hs ih =>
      rw [List.flatMap_cons, ih]
      unfold headerLine named
      simp only [plain, Bool.not_false, Bool.true_or, Bool.true_and, Bool.or_eq_true,
        decide_eq_true_eq]
      by_cases connection : lower h.1 = bytes "connection"
      · simp [connection]
      · by_cases framing : lower h.1 = bytes "content-length" ∨ lower h.1 = bytes "transfer-encoding"
        · rw [if_neg connection, if_pos framing, List.filter_cons_of_neg, List.nil_append]
          rcases framing with same | same <;> simp [same]
        · rw [if_neg connection, if_neg framing, List.filter_cons_of_pos, List.map_cons,
            List.flatMap_cons, line]
          obtain ⟨noLength, noEncoding⟩ := not_or.mp framing
          simp [connection, noLength, noEncoding]

/-- The bytes of a response: its lines, an empty line and its body. -/
theorem appendToBuffer_eq (plain : resp.streaming = false) :
    resp.appendToBuffer =
      (resp.statusLine :: resp.message.headers.map line).flatMap (· ++ crlf) ++
        (crlf ++ resp.message.body) := by
  have connection : (if resp.closeConnection then bytes "Connection: close"
      else bytes "Connection: Keep-Alive") =
      line (bytes "Connection", bytes (if resp.closeConnection then "close" else "Keep-Alive")) := by
    cases resp.closeConnection <;> decide
  have length : bytes "Content-Length: " ++ bytes (toString resp.body.length) =
      line (bytes "Content-Length", digits resp.body.length) := rfl
  unfold appendToBuffer message remaining statusLine
  rw [connection, length, headerLines_eq plain]
  have space : bytes " " = [32] := rfl
  cases resp.noBody <;> simp [plain, digits, space]

theorem readStatusLine_statusLine (version : 32 ∉ resp.httpVersion) :
    readStatusLine resp.statusLine = some (resp.httpVersion, resp.statusCode, resp.statusMessage) := by
  rw [readStatusLine, statusLine, cut_append version]
  dsimp only [Option.bind_some]
  rw [cut_append (not_mem_digits (by decide) _)]
  dsimp only [Option.bind_some]
  rw [readNumber_digits]
  rfl

theorem mapM_readField {hs : List (Bytes × Bytes)} (names : ∀ h ∈ hs, 58 ∉ h.1) :
    (hs.map line).mapM readField = some hs := by
  induction hs with
  | nil => rfl
  | cons h hs ih =>
      have later := ih fun h' member => names h' (List.mem_cons_of_mem _ member)
      rw [List.map_cons, List.mapM_cons, later, line, readField_line (names h List.mem_cons_self)]
      rfl

/-- Each head has one `Connection` line, no `Transfer-Encoding` line, and a `Content-Length`
line exactly when the status allows a body. -/
theorem message_framing : resp.message.headers.countP (named "connection") = 1 ∧
    resp.message.headers.countP (named "transfer-encoding") = 0 ∧
    resp.message.headers.filter (named "content-length") =
      if resp.noBody then [] else [(bytes "Content-Length", digits resp.body.length)] := by
  have others {name : String} (framing : name = "connection" ∨ name = "content-length" ∨
      name = "transfer-encoding") : ∀ h ∈ resp.remaining, ¬ named name h = true := by
    intro h member
    have kept := (List.mem_filter.mp member).2
    simp only [Bool.not_eq_true', Bool.or_eq_false_iff] at kept
    rcases framing with rfl | rfl | rfl
    · simp [kept.1.1]
    · simp [kept.1.2]
    · simp [kept.2]
  have connection : lower (bytes "Connection") = bytes "connection" := by decide
  have length : lower (bytes "Content-Length") = bytes "content-length" := by decide
  have apart : bytes "connection" ≠ bytes "content-length" := by decide
  have apart' : bytes "connection" ≠ bytes "transfer-encoding" := by decide
  have apart'' : bytes "content-length" ≠ bytes "transfer-encoding" := by decide
  have absent := List.filter_eq_nil_iff.mpr (others (.inr (.inl rfl)))
  have alone := List.countP_eq_zero.mpr (others (.inl rfl))
  have plain := List.countP_eq_zero.mpr (others (.inr (.inr rfl)))
  unfold message
  cases resp.noBody <;>
    simp [named_eq, connection, length, apart, apart', apart'', apart.symm, absent, alone, plain]

theorem length_le_lines (lines : List Bytes) :
    lines.length ≤ (lines.flatMap (· ++ crlf)).length := by
  induction lines with
  | nil => exact Nat.zero_le _
  | cons line lines ih =>
      rw [List.flatMap_cons, List.length_append, List.length_append, List.length_cons]
      have two : crlf.length = 2 := rfl
      omega

theorem Sendable.statusLine_clean (sendable : resp.Sendable) :
    resp.statusLine ≠ [] ∧ 13 ∉ resp.statusLine := by
  have status := not_mem_digits (b := 13) (by decide) resp.statusCode
  unfold statusLine
  simp [sendable.version.1.1, sendable.reason.1, status]

theorem Sendable.message_lines (sendable : resp.Sendable) :
    ∀ h ∈ resp.message.headers, 58 ∉ h.1 ∧ line h ≠ [] ∧ 13 ∉ line h := by
  have clean {h : Bytes × Bytes} (name : 58 ∉ h.1 ∧ 13 ∉ h.1) (value : 13 ∉ h.2) :
      58 ∉ h.1 ∧ line h ≠ [] ∧ 13 ∉ line h := by
    refine ⟨name.1, by simp [line, bytes], ?_⟩
    simp only [line, List.mem_append, not_or]
    exact ⟨⟨name.2, by decide⟩, value⟩
  intro h member
  rcases List.mem_cons.mp member with rfl | later
  · refine clean ⟨show 58 ∉ bytes "Connection" by decide, show 13 ∉ bytes "Connection" by decide⟩ ?_
    dsimp only
    split <;> decide
  · rcases List.mem_append.mp later with length | kept
    · split at length
      · cases length
      · cases List.mem_singleton.mp length
        exact clean ⟨show 58 ∉ bytes "Content-Length" by decide,
          show 13 ∉ bytes "Content-Length" by decide⟩ (not_mem_digits (by decide) _)
    · have set := (List.mem_filter.mp kept).1
      obtain ⟨-, line, colon⟩ := sendable.names h set
      exact clean ⟨colon, line.1⟩ (sendable.values h set).1

/-- One response is read back, and what follows it is left. -/
theorem readMessage_appendToBuffer (sendable : resp.Sendable) (rest : Bytes) :
    readMessage (resp.appendToBuffer ++ rest) = some (resp.message, rest) := by
  have names : ∀ h ∈ resp.message.headers, 58 ∉ h.1 := fun h member =>
    (sendable.message_lines h member).1
  have clean : ∀ l ∈ resp.statusLine :: resp.message.headers.map line, l ≠ [] ∧ 13 ∉ l := by
    intro l member
    rcases List.mem_cons.mp member with rfl | field
    · exact sendable.statusLine_clean
    · obtain ⟨h, inHeaders, rfl⟩ := List.mem_map.mp field
      exact (sendable.message_lines h inHeaders).2
  have text : resp.appendToBuffer ++ rest =
      (resp.statusLine :: resp.message.headers.map line).flatMap (· ++ crlf) ++
        (crlf ++ (resp.message.body ++ rest)) := by
    rw [appendToBuffer_eq sendable.plain, List.append_assoc, List.append_assoc]
  have enough : (resp.statusLine :: resp.message.headers.map line).length <
      (resp.appendToBuffer ++ rest).length + 1 := by
    rw [text, List.length_append]
    exact Nat.lt_succ_of_le ((length_le_lines _).trans (Nat.le_add_right _ _))
  have read := readLines_append clean (resp.message.body ++ rest) enough
  rw [← text] at read
  have length : bodyLength resp.statusCode resp.message.headers = some resp.message.body.length := by
    unfold bodyLength
    rw [message_framing.2.2]
    change (if resp.noBody = true then _ else _) = _
    cases noBody : resp.noBody
    · simp [readNumber_digits, message, noBody]
    · simp [message, noBody]
  rw [readMessage, read]
  dsimp only
  rw [readStatusLine_statusLine sendable.version.2, Option.bind_some, mapM_readField names,
    Option.bind_some, length, Option.bind_some, if_neg (by simp), List.take_left, List.drop_left]
  rfl

end HttpResponse

open HttpResponse

theorem readMessages_append {rs : List HttpResponse} (sendable : ∀ r ∈ rs, r.Sendable) {fuel : Nat}
    (enough : rs.length ≤ fuel) :
    readMessages fuel (rs.flatMap appendToBuffer) = some (rs.map message) := by
  induction rs generalizing fuel with
  | nil => cases fuel <;> rfl
  | cons r rs ih =>
      cases fuel with
      | zero => exact absurd enough (Nat.not_succ_le_zero _)
      | succ fuel =>
          have later := ih (fun r' member => sendable r' (List.mem_cons_of_mem _ member))
            (Nat.le_of_succ_le_succ enough)
          have read := readMessage_appendToBuffer (sendable r List.mem_cons_self)
            (rs.flatMap appendToBuffer)
          rw [List.flatMap_cons, readMessages, read, Option.bind_some]
          · dsimp only
            rw [later]
            rfl
          · intro empty
            rw [empty] at read
            cases read

/-- A client that delimits bodies by `Content-Length` splits the bytes of any sendable
responses into exactly these responses; each head has one `Connection` line, no
`Transfer-Encoding` line, and one `Content-Length` line exactly when it may have a body. -/
theorem response_stream {rs : List HttpResponse} (sendable : ∀ r ∈ rs, r.Sendable) :
    readStream (rs.flatMap appendToBuffer) = some (rs.map message) ∧
    ∀ r ∈ rs, r.message.headers.countP (named "connection") = 1 ∧
      r.message.headers.countP (named "transfer-encoding") = 0 ∧
      r.message.headers.filter (named "content-length") =
        if r.noBody then [] else [(bytes "Content-Length", digits r.body.length)] := by
  refine ⟨readMessages_append sendable ?_, fun r _ => message_framing⟩
  induction rs with
  | nil => exact Nat.zero_le _
  | cons r rs ih =>
      have later := ih fun r' member => sendable r' (List.mem_cons_of_mem _ member)
      have first : 0 < r.appendToBuffer.length := by
        rw [appendToBuffer_eq (sendable r List.mem_cons_self).plain]
        rw [List.length_append, List.length_append]
        have two : crlf.length = 2 := rfl
        omega
      rw [List.flatMap_cons, List.length_append, List.length_cons]
      omega

/-- Two responses, each without CR and LF, that differ in their status and not in their bytes:
one has a space in its version. -/
theorem response_stream_spaced_version : ∃ r r' : HttpResponse,
    (r.streaming = false ∧ IsLine r.httpVersion ∧ IsLine r.statusMessage ∧ r.headers.entries = []) ∧
    (r'.streaming = false ∧ IsLine r'.httpVersion ∧ IsLine r'.statusMessage ∧
      r'.headers.entries = []) ∧
    r.appendToBuffer = r'.appendToBuffer ∧ r.statusCode ≠ r'.statusCode := by
  let r := (HttpResponse.new true).setStatusLine (bytes "HTTP/1.1 200") 404 (bytes "Not Found")
  let r' := (HttpResponse.new true).setStatusLine (bytes "HTTP/1.1") 200 (bytes "404 Not Found")
  exact ⟨r, r', by decide, by decide, by decide +kernel, by decide⟩

/-- A 404 with a body and handler-set framing headers, then a 204. -/
theorem response_stream_pair : ∃ r r' : HttpResponse,
    readStream (r.appendToBuffer ++ r'.appendToBuffer) = some [r.message, r'.message] := by
  let r := (((HttpResponse.new false).setStatusCode 404).addHeader (bytes "content-length")
    (bytes "99")).setBody (bytes "missing")
  let r' := ((HttpResponse.new true).setStatusCode 204).setBody (bytes "bad")
  have sendable : ∀ x ∈ [r, r'], x.Sendable := by
    intro x member
    rcases List.mem_pair.mp member with rfl | rfl
    · exact ⟨by decide, by decide, by decide, by decide, by decide⟩
    · exact ⟨by decide, by decide, by decide, by decide, by decide⟩
  have read := (response_stream sendable).1
  simp only [List.flatMap_cons, List.flatMap_nil, List.append_nil, List.map_cons, List.map_nil] at read
  exact ⟨r, r', read⟩

end AIService.Http
