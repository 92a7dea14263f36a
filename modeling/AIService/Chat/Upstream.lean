import AIService.Chat.Helper
import AIService.Data.FlatJson
import AIService.Data.Lines

/-!
# `AIHelper::executeCurlStream`

The event stream of a model service.  libcurl hands it to the write callback in pieces of its
own choice; the callback keeps what follows the last newline, and reads the lines before it.
A short write makes libcurl stop.  `on_chunk` is called with the texts that are shown, and does
not throw.
-/

namespace AIService.Chat

/-! ## The stream functions of the strategies -/

/-- `choices[0].delta.content` as a string; `none` is an absent member or an exception. -/
def deltaContent (j : Json) : Option Bytes := do
  let .arr (choice :: _) ← j.field? (bytes "choices") | none
  let delta ← choice.field? (bytes "delta")
  (← delta.field? (bytes "content")).string?

/-- A text that is not empty. -/
def nonempty? (text : Option Bytes) : Option Bytes := text.filter fun t => !t.isEmpty

/-- `AIStrategy::parseStreamChunk`; `none` is `false`. -/
def AIStrategy.parseStreamChunk (codec : JsonCodec) (sseData : Bytes) : Option Bytes :=
  if sseData.isEmpty || sseData = bytes "[DONE]" then none
  else nonempty? ((codec.parse sseData).bind deltaContent)

def AliyunRAGStrategy.parseStreamChunk (codec : JsonCodec) (event : Bytes) : Option Bytes :=
  nonempty? do
    let .obj output ← (← codec.parse event).field? (bytes "output") | none
    ((Json.obj output).field? (bytes "text")).bind Json.string?

/-- `isStreamComplete` of the application service; `none` is an exception. -/
def AliyunRAGStrategy.isStreamComplete (event : Json) : Option Bool :=
  match event.field? (bytes "output") with
  | none => some false
  | some (.obj fields) =>
      let output := Json.obj fields
      match output.field? (bytes "text") with
      | some (.str _) | none =>
          match output.field? (bytes "finish_reason") with
          | none => some false
          | some .null => some false
          | some (.str reason) =>
              if reason = [] ∨ reason = bytes "null" then some false
              else if reason = bytes "stop" then some true
              else none
          | some _ => none
      | some _ => none
  | some _ => none

namespace Strategy

def parseStreamChunk (codec : JsonCodec) : Strategy → Bytes → Option Bytes
  | aliyunRAG => AliyunRAGStrategy.parseStreamChunk codec
  | _ => AIStrategy.parseStreamChunk codec

def isStreamComplete : Strategy → Json → Option Bool
  | aliyunRAG => AliyunRAGStrategy.isStreamComplete
  | _ => fun _ => some false

end Strategy

/-! ## One line -/

/-- An `error` member, or a `code` that is not one of success. -/
def reportsError (parsed : Json) : Bool :=
  (parsed.field? (bytes "error")).isSome ||
    match parsed.field? (bytes "code") with
    | none => false
    | some .null => false
    | some (.str code) => code ≠ [] && code ≠ bytes "200"
    | some (.int code) => code ≠ 200
    | some (.float code) => code ≠ 200
    | some _ => true

/-- The event of a line, when it is a `data:` line. -/
def eventOf (line : Bytes) : Option Bytes :=
  let line := if line.getLast? = some 13 then line.dropLast else line
  if line.take 5 = bytes "data:" then
    let event := line.drop 5
    some (if event.head? = some 32 then event.tail else event)
  else none

/-- `state.error` when the callback caught an exception. -/
def invalidStream : Bytes := bytes "Invalid or failed stream callback"

/-- `state.error` when an event reports an error. -/
def upstreamError : Bytes := bytes "Upstream model reported an error"

section lines

variable (codec : JsonCodec) (strategy : Strategy)

/-- The texts a line shows, and whether the stream is complete after it. -/
def readLine (completed : Bool) (line : Bytes) : List Bytes × Except Bytes Bool :=
  match eventOf line with
  | none => ([], .ok completed)
  | some event =>
      if event = bytes "[DONE]" then ([], .ok true)
      else if event = [] then ([], .ok completed)
      else match codec.parse event with
        | none => ([], .error invalidStream)
        | some parsed =>
            if reportsError parsed then ([], .error upstreamError)
            else if completed then ([], .ok completed)
            else
              let shown := (strategy.parseStreamChunk codec event).toList
              match strategy.isStreamComplete parsed with
              | none => (shown, .error invalidStream)
              | some complete => (shown, .ok complete)

/-! ## The transfer -/

structure StreamState where
  buffer : Bytes := []
  error : Bytes := []
  completed : Bool := false

/-- The `while` loop of the write callback. -/
def readBuffer (state : StreamState) : List Bytes × StreamState :=
  match _found : cut 10 state.buffer with
  | none => ([], state)
  | some (line, rest) =>
      match readLine codec strategy state.completed line with
      | (shown, .error error) => (shown, { state with buffer := rest, error := error })
      | (shown, .ok completed) =>
          let (later, state') := readBuffer { state with buffer := rest, completed := completed }
          (shown ++ later, state')
termination_by state.buffer.length
decreasing_by
  rw [(eq_of_cut _found).1, List.length_append, List.length_cons]
  omega

/-- The write callback; the number is what it returns to libcurl. -/
def writeCallback (state : StreamState) (contents : Bytes) : List Bytes × StreamState × Nat :=
  let (shown, state) :=
    readBuffer codec strategy { state with buffer := state.buffer ++ contents }
  (shown, state, if state.error = [] then contents.length else 0)

/-- The calls of the write callback, up to the first short write. -/
def performTransfer : StreamState → List Bytes → List Bytes × StreamState
  | state, [] => ([], state)
  | state, contents :: rest =>
      let (shown, state, taken) := writeCallback codec strategy state contents
      if taken = contents.length then
        let (later, state) := performTransfer state rest
        (shown ++ later, state)
      else (shown, state)

/-- How the transfer ends: the text of a failure of libcurl, and the HTTP status. -/
structure Transfer where
  failure : Option Bytes
  status : Int

/-- The one call of `on_done` or `on_error`. -/
inductive StreamEnd
  | done
  | error (message : Bytes)
deriving DecidableEq, Repr

/-- What follows `curl_easy_perform`. -/
def endStream (state : StreamState) (transfer : Transfer) : StreamEnd :=
  if state.error ≠ [] then .error state.error
  else match transfer.failure with
    | some failure => .error (bytes "curl error: " ++ failure)
    | none =>
        if transfer.status < 200 ∨ 300 ≤ transfer.status then
          .error (bytes "Upstream HTTP error: " ++ bytes (toString transfer.status))
        else if state.completed = false then
          .error (bytes "Model stream ended before completion")
        else .done

/-- The texts that `on_chunk` gets, and the end. -/
def executeCurlStream (chunks : List Bytes) (transfer : Transfer) : List Bytes × StreamEnd :=
  let (shown, state) := performTransfer codec strategy {} chunks
  (shown, endStream state transfer)

end lines

/-! ## The stream, line by line -/

section stream

variable (codec : JsonCodec) (strategy : Strategy)

/-- The lines one after the other, up to the first that fails. -/
def readLines : Bool → List Bytes → List Bytes × Except Bytes Bool
  | completed, [] => ([], .ok completed)
  | completed, line :: rest =>
      match readLine codec strategy completed line with
      | (shown, .error error) => (shown, .error error)
      | (shown, .ok completed) =>
          let (later, result) := readLines completed rest
          (shown ++ later, result)

variable {codec strategy}

theorem readLines_append (completed : Bool) (ls more : List Bytes) :
    readLines codec strategy completed (ls ++ more) =
      match readLines codec strategy completed ls with
      | (shown, .error error) => (shown, .error error)
      | (shown, .ok completed) =>
          (shown ++ (readLines codec strategy completed more).1,
            (readLines codec strategy completed more).2) := by
  induction ls generalizing completed with
  | nil => rfl
  | cons line rest ih =>
      rw [List.cons_append, readLines, readLines]
      cases readLine codec strategy completed line with
      | mk shown result =>
          cases result with
          | error e => rfl
          | ok completed' =>
              dsimp only
              rw [ih]
              cases readLines codec strategy completed' rest with
              | mk later result' => cases result' <;> simp

/-- No message of an error is empty. -/
theorem readLine_error {completed : Bool} {line error : Bytes}
    (failed : (readLine codec strategy completed line).2 = .error error) : error ≠ [] := by
  have named : error = invalidStream ∨ error = upstreamError := by
    unfold readLine at failed
    split at failed
    · cases failed
    · split at failed
      · cases failed
      split at failed
      · cases failed
      split at failed
      · cases failed
        exact .inl rfl
      split at failed
      · cases failed
        exact .inr rfl
      split at failed
      · cases failed
      dsimp only at failed
      split at failed
      · cases failed
        exact .inl rfl
      · cases failed
  rcases named with rfl | rfl <;> decide

theorem readLines_error {completed : Bool} {ls : List Bytes} {error : Bytes}
    (failed : (readLines codec strategy completed ls).2 = .error error) : error ≠ [] := by
  induction ls generalizing completed with
  | nil => cases failed
  | cons line rest ih =>
      rw [readLines] at failed
      cases read : readLine codec strategy completed line with
      | mk shown result =>
          rw [read] at failed
          cases result with
          | error e =>
              cases failed
              exact readLine_error (by rw [read])
          | ok completed' => exact ih failed

/-- The callback stands where the lines it read have left it. -/
def StreamState.Reached (state : StreamState) : Except Bytes Bool → Prop
  | .error error => state.error = error
  | .ok completed => state.error = [] ∧ state.completed = completed

/-- The loop reads the lines of the buffer, and keeps what is behind them. -/
theorem readBuffer_spec (codec : JsonCodec) (strategy : Strategy) (state : StreamState)
    (fine : state.error = []) :
    (readBuffer codec strategy state).1 =
        (readLines codec strategy state.completed (lines state.buffer).1).1 ∧
      (readBuffer codec strategy state).2.Reached
        (readLines codec strategy state.completed (lines state.buffer).1).2 ∧
      ∀ completed, (readLines codec strategy state.completed (lines state.buffer).1).2 =
        .ok completed → (readBuffer codec strategy state).2.buffer = (lines state.buffer).2 := by
  induction length : state.buffer.length using Nat.strongRecOn generalizing state with
  | ind length' ih =>
      subst length
      rw [readBuffer]
      split
      · next found =>
          have unbroken := not_mem_of_cut found
          rw [lines_of_not_mem unbroken]
          exact ⟨rfl, ⟨fine, rfl⟩, fun _ _ => rfl⟩
      · next line rest found =>
          rw [lines_of_cut found, readLines]
          cases readLine codec strategy state.completed line with
          | mk shown result =>
              cases result with
              | error error => exact ⟨rfl, rfl, nofun⟩
              | ok completed =>
                  have shorter : rest.length < state.buffer.length := by
                    rw [(eq_of_cut found).1, List.length_append, List.length_cons]
                    omega
                  obtain ⟨later, reached, kept⟩ := ih rest.length shorter
                    { state with buffer := rest, completed := completed } fine rfl
                  exact ⟨congrArg (shown ++ ·) later, reached, kept⟩

/-- What a transfer shows, and where it leaves the callback. -/
theorem performTransfer_spec (codec : JsonCodec) (strategy : Strategy) (state : StreamState)
    (chunks : List Bytes) (fine : state.error = []) (unbroken : 10 ∉ state.buffer) :
    (performTransfer codec strategy state chunks).1 =
        (readLines codec strategy state.completed
          (lines (state.buffer ++ chunks.flatten)).1).1 ∧
      (performTransfer codec strategy state chunks).2.Reached
        (readLines codec strategy state.completed
          (lines (state.buffer ++ chunks.flatten)).1).2 := by
  induction chunks generalizing state with
  | nil =>
      rw [List.flatten_nil, List.append_nil, lines_of_not_mem unbroken]
      exact ⟨rfl, fine, rfl⟩
  | cons contents rest ih =>
      obtain ⟨shown, reached, kept⟩ := readBuffer_spec codec strategy
        { state with buffer := state.buffer ++ contents } fine
      rw [List.flatten_cons, ← List.append_assoc, lines_append, readLines_append, performTransfer,
        writeCallback]
      dsimp only at shown reached kept ⊢
      generalize readBuffer codec strategy _ = read at shown reached kept ⊢
      obtain ⟨shown', state'⟩ := read
      generalize found : readLines codec strategy state.completed
        (lines (state.buffer ++ contents)).1 = result at shown reached kept ⊢
      obtain ⟨shown'', verdict⟩ := result
      dsimp only at shown
      subst shown
      cases verdict with
      | error error =>
          have named : error ≠ [] := readLines_error (by rw [found])
          have arrived : contents.length ≠ 0 := by
            intro empty
            rw [List.length_eq_zero_iff.mp empty, List.append_nil, lines_of_not_mem unbroken] at found
            cases found
          have failed : state'.error ≠ [] := by
            rw [show state'.error = error from reached]
            exact named
          -- The write is short, as the piece that completed the line is not empty.
          have short : (if state'.error = [] then contents.length else 0) ≠ contents.length := by
            rw [if_neg failed]
            exact Ne.symm arrived
          simp only [short, if_false]
          exact ⟨trivial, reached⟩
      | ok completed =>
          obtain ⟨fine', completed'⟩ := reached
          have taken : (if state'.error = [] then contents.length else 0) = contents.length :=
            if_pos fine'
          have rest_eq := kept completed rfl
          obtain ⟨-, -, tail⟩ := lines_spec (state.buffer ++ contents)
          obtain ⟨later, ended⟩ := ih state' fine' (rest_eq ▸ tail)
          simp only [taken, if_true]
          rw [completed', rest_eq] at later ended
          exact ⟨congrArg (shown' ++ ·) later, ended⟩

/-- The end of the stream, from what the lines come to. -/
def endOf (transfer : Transfer) : Except Bytes Bool → StreamEnd
  | .error error => .error error
  | .ok completed => endStream { completed := completed } transfer

theorem endStream_eq {state : StreamState} {result : Except Bytes Bool} (transfer : Transfer)
    (reached : state.Reached result) (named : ∀ error, result = .error error → error ≠ []) :
    endStream state transfer = endOf transfer result := by
  cases result with
  | error error =>
      have same : state.error = error := reached
      rw [endStream, same, if_pos (named error rfl)]
      rfl
  | ok completed =>
      obtain ⟨fine, same⟩ := reached
      rw [endStream, fine, same]
      rfl

/-- The transfer shows what the lines of the whole stream show. -/
theorem executeCurlStream_eq (chunks : List Bytes) (transfer : Transfer) :
    executeCurlStream codec strategy chunks transfer =
      ((readLines codec strategy false (lines chunks.flatten).1).1,
        endOf transfer (readLines codec strategy false (lines chunks.flatten).1).2) := by
  obtain ⟨shown, reached⟩ := performTransfer_spec codec strategy
    {} chunks rfl List.not_mem_nil
  have ended := endStream_eq transfer reached fun error failed => readLines_error failed
  exact Prod.ext shown ended

end stream

/-! ## When a stream is done -/

section done

variable (codec : JsonCodec) (strategy : Strategy)

/-- A line with this event, which is neither empty nor the end mark. -/
def Carries (line event : Bytes) : Prop :=
  eventOf line = some event ∧ event ≠ bytes "[DONE]" ∧ event ≠ []

/-- A completion event. -/
def Completes (line : Bytes) : Prop :=
  eventOf line = some (bytes "[DONE]") ∨
    ∃ event j, Carries line event ∧ codec.parse event = some j ∧
      strategy.isStreamComplete j = some true

/-- Malformed JSON, an error member or a bad code. -/
def Refused (line : Bytes) : Prop :=
  ∃ event, Carries line event ∧
    (codec.parse event = none ∨ ∃ j, codec.parse event = some j ∧ reportsError j = true)

/-- `isStreamComplete` throws. -/
def Throws (line : Bytes) : Prop :=
  ∃ event j, Carries line event ∧ codec.parse event = some j ∧
    strategy.isStreamComplete j = none

variable {codec strategy}

theorem Carries.unique {line event event' : Bytes} (carries : Carries line event)
    (carries' : Carries line event') : event = event' :=
  Option.some.inj (carries.1.symm.trans carries'.1)

/-- A line is read just when it is not refused and, before the end, nothing throws. -/
theorem readLine_ok (completed completed' : Bool) (line : Bytes) :
    (readLine codec strategy completed line).2 = .ok completed' ↔
      ¬ Refused codec line ∧ (completed = true ∨ ¬ Throws codec strategy line) ∧
        (completed' = true ↔ completed = true ∨ Completes codec strategy line) := by
  have blank (none_ : ∀ event, ¬ Carries line event)
      (unended : eventOf line ≠ some (bytes "[DONE]")) :
      ¬ Refused codec line ∧ ¬ Throws codec strategy line ∧ ¬ Completes codec strategy line := by
    refine ⟨fun ⟨event, here, _⟩ => none_ event here, fun ⟨event, _, here, _⟩ => none_ event here, ?_⟩
    rintro (mark | ⟨event, _, here, _⟩)
    · exact unended mark
    · exact none_ event here
  unfold readLine
  cases found : eventOf line with
  | none =>
      obtain ⟨kept, calm, open_⟩ := blank
        (fun event here => nomatch found.symm.trans here.1)
        (fun mark => nomatch found.symm.trans mark)
      cases completed <;> cases completed' <;> simp [kept, calm, open_]
  | some event =>
      dsimp only
      split
      · next mark =>
          subst mark
          have away : ∀ event, ¬ Carries line event := fun event here =>
            here.2.1 (Option.some.inj (here.1.symm.trans found))
          have ends : Completes codec strategy line := .inl found
          have kept : ¬ Refused codec line := fun ⟨event, here, _⟩ => away event here
          have calm : ¬ Throws codec strategy line := fun ⟨event, _, here, _⟩ => away event here
          simp [kept, calm, ends, eq_comm]
      next unmarked =>
        split
        · next empty =>
            subst empty
            obtain ⟨kept, calm, open_⟩ := blank
              (fun event here => here.2.2 (Option.some.inj (here.1.symm.trans found)))
              (fun mark => unmarked (Option.some.inj (found.symm.trans mark)))
            cases completed <;> cases completed' <;> simp [kept, calm, open_]
        next text =>
          have carries : Carries line event := ⟨found, unmarked, text⟩
          split
          · next malformed =>
              have refused : Refused codec line := ⟨event, carries, .inl malformed⟩
              simp [refused]
          next j parsed =>
            split
            · next reports =>
                have refused : Refused codec line := ⟨event, carries, .inr ⟨j, parsed, reports⟩⟩
                simp [refused]
            next fine =>
              have kept : ¬ Refused codec line := by
                rintro ⟨event', here, malformed | ⟨j', parsed', reports⟩⟩
                · obtain rfl := here.unique carries
                  rw [parsed] at malformed
                  cases malformed
                · obtain rfl := here.unique carries
                  cases parsed.symm.trans parsed'
                  exact fine reports
              have throws : Throws codec strategy line ↔ strategy.isStreamComplete j = none := by
                constructor
                · rintro ⟨event', j', here, parsed', threw⟩
                  obtain rfl := here.unique carries
                  cases parsed.symm.trans parsed'
                  exact threw
                · exact fun threw => ⟨event, j, carries, parsed, threw⟩
              have ends : Completes codec strategy line ↔
                  strategy.isStreamComplete j = some true := by
                constructor
                · rintro (mark | ⟨event', j', here, parsed', complete⟩)
                  · exact absurd (Option.some.inj (found.symm.trans mark)) unmarked
                  · obtain rfl := here.unique carries
                    cases parsed.symm.trans parsed'
                    exact complete
                · exact fun complete => .inr ⟨event, j, carries, parsed, complete⟩
              cases completed with
              | true => simp [kept, eq_comm]
              | false =>
                  simp only [Bool.false_eq_true, if_false, false_or]
                  rw [throws, ends]
                  cases verdict : strategy.isStreamComplete j with
                  | none => simp
                  | some complete => cases complete <;> cases completed' <;> simp [kept]

theorem Completes.calm {line : Bytes} (completes : Completes codec strategy line) :
    ¬ Throws codec strategy line := by
  rintro ⟨event, j, carries, parsed, threw⟩
  rcases completes with mark | ⟨event', j', carries', parsed', complete⟩
  · exact carries.2.1 (Option.some.inj (carries.1.symm.trans mark))
  · obtain rfl := carries.unique carries'
    cases parsed.symm.trans parsed'
    rw [threw] at complete
    cases complete

/-- Once the stream is complete lines are only checked, and nothing is shown. -/
theorem readLines_completed (ls : List Bytes) :
    (readLines codec strategy true ls).1 = [] ∧
      ((readLines codec strategy true ls).2 = .ok true ↔ ∀ line ∈ ls, ¬ Refused codec line) := by
  induction ls with
  | nil => exact ⟨rfl, fun _ => nofun, fun _ => rfl⟩
  | cons line rest ih =>
      have silent : (readLine codec strategy true line).1 = [] := by
        unfold readLine
        split
        · rfl
        split
        · rfl
        split
        · rfl
        split
        · rfl
        split <;> rfl
      have ok := @readLine_ok codec strategy true true line
      rw [readLines]
      cases read : readLine codec strategy true line with
      | mk shown result =>
          rw [read] at silent ok
          dsimp only at silent ok
          subst silent
          cases result with
          | error error =>
              have refused : Refused codec line := by
                by_contra kept
                cases ok.mpr ⟨kept, .inl rfl, by simp⟩
              exact ⟨rfl, nofun, fun all => absurd refused (all line List.mem_cons_self)⟩
          | ok completed =>
              have stays := (readLine_ok true completed line).mp (by rw [read])
              obtain ⟨kept, -, ended⟩ := stays
              obtain rfl := ended.mpr (.inl rfl)
              refine ⟨ih.1, ?_⟩
              dsimp only
              rw [ih.2]
              simp [kept]

theorem readLines_done (ls : List Bytes) :
    (readLines codec strategy false ls).2 = .ok true ↔
      (∃ pre line post, ls = pre ++ line :: post ∧ Completes codec strategy line ∧
        ∀ l ∈ pre, ¬ Throws codec strategy l) ∧ ∀ l ∈ ls, ¬ Refused codec l := by
  induction ls with
  | nil =>
      refine ⟨nofun, ?_⟩
      rintro ⟨⟨pre, line, post, split, -⟩, -⟩
      cases pre <;> cases split
  | cons first rest ih =>
      rw [readLines]
      have ok completed := @readLine_ok codec strategy false completed first
      cases read : readLine codec strategy false first with
      | mk shown result =>
          rw [read] at ok
          cases result with
          | error error =>
              refine ⟨nofun, ?_⟩
              rintro ⟨⟨pre, line, post, split, completes, calm⟩, kept⟩
              have quiet : ¬ Throws codec strategy first := by
                cases pre with
                | nil =>
                    cases split
                    exact completes.calm
                | cons _ pre =>
                    cases split
                    exact calm first List.mem_cons_self
              by_cases ends : Completes codec strategy first
              · cases (ok true).mpr ⟨kept first List.mem_cons_self, .inr quiet, by simp [ends]⟩
              · cases (ok false).mpr ⟨kept first List.mem_cons_self, .inr quiet, by simp [ends]⟩
          | ok completed =>
              obtain ⟨kept, quiet, ended⟩ := (ok completed).mp rfl
              simp only [Bool.false_eq_true, false_or] at quiet ended
              dsimp only
              cases completed with
              | true =>
                  rw [(readLines_completed rest).2]
                  constructor
                  · intro all
                    exact ⟨⟨[], first, rest, rfl, ended.mp rfl, nofun⟩, by simpa [kept] using all⟩
                  · exact fun ⟨_, all⟩ line member => all line (List.mem_cons_of_mem _ member)
              | false =>
                  have open_ : ¬ Completes codec strategy first := fun ends =>
                    Bool.false_ne_true (ended.mpr ends)
                  rw [ih]
                  constructor
                  · rintro ⟨⟨pre, line, post, rfl, completes, calm⟩, all⟩
                    refine ⟨⟨first :: pre, line, post, rfl, completes, ?_⟩, ?_⟩
                    · simpa [quiet] using calm
                    · simpa [kept] using all
                  · rintro ⟨⟨pre, line, post, split, completes, calm⟩, all⟩
                    cases pre with
                    | nil =>
                        cases split
                        exact absurd completes open_
                    | cons _ pre =>
                        cases split
                        exact ⟨⟨pre, line, post, rfl, completes, fun l member =>
                          calm l (List.mem_cons_of_mem _ member)⟩, fun l member =>
                          all l (List.mem_cons_of_mem _ member)⟩

/-- Nothing behind a completion event is shown. -/
theorem readLines_silent {pre : List Bytes} {line : Bytes} (post : List Bytes)
    (completes : Completes codec strategy line) :
    (readLines codec strategy false (pre ++ line :: post)).1 =
      (readLines codec strategy false (pre ++ [line])).1 := by
  rw [readLines_append, readLines_append]
  cases readLines codec strategy false pre with
  | mk shown result =>
      cases result with
      | error error => rfl
      | ok completed =>
          dsimp only
          rw [readLines, readLines]
          cases read : readLine codec strategy completed line with
          | mk shown' result' =>
              cases result' with
              | error error => rfl
              | ok completed' =>
                  have ended := (readLine_ok completed completed' line).mp (by rw [read])
                  obtain rfl := ended.2.2.mpr (.inr completes)
                  dsimp only
                  rw [(readLines_completed post).1]
                  rfl

theorem endOf_done {transfer : Transfer} {result : Except Bytes Bool} :
    endOf transfer result = .done ↔ result = .ok true ∧ transfer.failure = none ∧
      200 ≤ transfer.status ∧ transfer.status < 300 := by
  cases result with
  | error error => exact ⟨nofun, nofun⟩
  | ok completed =>
      unfold endOf endStream
      cases transfer.failure with
      | some failure => simp
      | none =>
          by_cases bad : transfer.status < 200 ∨ 300 ≤ transfer.status
          · simp only [ne_eq, not_true_eq_false, if_false, bad, if_true, reduceCtorEq, false_iff]
            omega
          · cases completed <;> simp [bad]
            omega

/-- How libcurl cuts the stream makes no difference to what `on_chunk` gets and to the one end
of it.  The end is `on_done` just when a line completes the stream, no line is refused, nothing
throws before it is complete, and the transfer succeeded; behind that line nothing is shown. -/
theorem upstream_stream (codec : JsonCodec) (strategy : Strategy) (transfer : Transfer) :
    (∀ chunks chunks' : List Bytes, chunks.flatten = chunks'.flatten →
      executeCurlStream codec strategy chunks transfer =
        executeCurlStream codec strategy chunks' transfer) ∧
    (∀ chunks : List Bytes, (executeCurlStream codec strategy chunks transfer).2 = .done ↔
      ((∃ pre line post, (lines chunks.flatten).1 = pre ++ line :: post ∧
          Completes codec strategy line ∧ ∀ l ∈ pre, ¬ Throws codec strategy l) ∧
        ∀ l ∈ (lines chunks.flatten).1, ¬ Refused codec l) ∧
      transfer.failure = none ∧ 200 ≤ transfer.status ∧ transfer.status < 300) ∧
    ∀ (chunks : List Bytes) pre line post, (lines chunks.flatten).1 = pre ++ line :: post →
      Completes codec strategy line →
      (executeCurlStream codec strategy chunks transfer).1 =
        (executeCurlStream codec strategy [(pre ++ [line]).flatMap (· ++ [10])] transfer).1 := by
  refine ⟨fun chunks chunks' same => ?_, fun chunks => ?_, fun chunks pre line post split completes => ?_⟩
  · rw [executeCurlStream_eq, executeCurlStream_eq, same]
  · rw [executeCurlStream_eq, endOf_done, readLines_done]
  · have unbroken : ∀ l ∈ pre ++ [line], 10 ∉ l := by
      intro l member
      refine (lines_spec chunks.flatten).2.1 l ?_
      rw [split]
      rcases List.mem_append.mp member with early | last
      · exact List.mem_append_left _ early
      · rw [List.mem_singleton.mp last]
        exact List.mem_append_right _ List.mem_cons_self
    have cut : (lines [(pre ++ [line]).flatMap (· ++ [10])].flatten).1 = pre ++ [line] := by
      have whole := lines_flatMap unbroken []
      rw [List.append_nil] at whole
      rw [List.flatten_singleton, whole]
      exact List.append_nil _
    rw [executeCurlStream_eq, executeCurlStream_eq, split, cut]
    exact readLines_silent post completes

/-- An end mark that is cut in two. -/
theorem upstream_stream_cut_mark :
    executeCurlStream flatCodec .aliyun [bytes "data: [DO", bytes "NE]" ++ [13, 10]] ⟨none, 200⟩ =
      executeCurlStream flatCodec .aliyun [bytes "data: [DONE]" ++ [13, 10]] ⟨none, 200⟩ :=
  (upstream_stream flatCodec .aliyun ⟨none, 200⟩).1 _ _ (by decide)

end done

end AIService.Chat
