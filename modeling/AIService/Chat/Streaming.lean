import AIService.Chat.Atomicity
import AIService.Chat.Browser
import AIService.Chat.Ownership
import AIService.Http.Cors

/-!
# The life of a streamed response

A handler that streams writes the head itself, sets the streaming flag, which makes `onRequest`
send and close nothing, and leaves the rest to a thread.  The thread always ends the stream
(`callbacks_end`); a handler that fails before the thread runs leaves it open, since its `catch`
only fills the response that is no longer sent.
-/

namespace AIService.Http

/-- `setupSSEHeaders`. -/
def HttpResponse.setupSSEHeaders (resp : HttpResponse) : HttpResponse :=
  let resp := (resp.setContentType (bytes "text/event-stream")).addHeader (bytes "Cache-Control")
    (bytes "no-cache")
  { (resp.addHeader (bytes "Connection") (bytes "keep-alive")).setCloseConnection false with
    streaming := true }

/-- `addCorsHeaders`, with the default configuration. -/
def CorsMiddleware.addCorsHeaders (resp : HttpResponse) (origin : Bytes) : HttpResponse :=
  (((resp.addHeader (bytes "Access-Control-Allow-Origin") origin).addHeader
    (bytes "Access-Control-Allow-Methods") (bytes "GET, POST, PUT, DELETE, OPTIONS")).addHeader
    (bytes "Access-Control-Allow-Headers") (bytes "Content-Type, Authorization")).addHeader
    (bytes "Access-Control-Max-Age") (bytes "3600")

def CorsMiddleware.before (req : HttpRequest) : Except Thrown HttpRequest :=
  if req.method = .options then
    .error (.response ((addCorsHeaders ((HttpResponse.new true).setVersion req.version)
      (req.getHeader (bytes "Origin"))).setStatusCode 204))
  else .ok req

def CorsMiddleware.after (resp : HttpResponse) : HttpResponse := addCorsHeaders resp (bytes "*")

/-- This is the middleware of the default configuration. -/
theorem CorsMiddleware.defaultConfig : Middleware.CorsMiddleware.middleware .defaultConfig =
    { before := before, after := fun resp => (after resp, none) } := by
  have headers (resp : HttpResponse) (origin : Bytes) :
      Middleware.CorsMiddleware.addCorsHeaders .defaultConfig resp origin = addCorsHeaders resp origin := rfl
  have all (origin : Bytes) : Middleware.CorsMiddleware.isOriginAllowed .defaultConfig origin = true :=
    (Middleware.CorsMiddleware.isOriginAllowed_iff _ _).mpr (.inr (.inl List.mem_cons_self))
  have preflight (req : HttpRequest) : Middleware.CorsMiddleware.before .defaultConfig req = before req := by
    unfold Middleware.CorsMiddleware.before Middleware.CorsMiddleware.handlePreflightRequest before
    simp only [all, headers]
    rfl
  exact congrArg₂ Middleware.mk (funext preflight) rfl

end AIService.Http

namespace AIService.Chat

open AIService.Action
open Http (HttpRequest HttpResponse Thrown)

/-! ## What is written -/

/-- What happens on the connection of a request. -/
inductive Sending
  | head (response : Bytes)
  | event (text : Bytes)
  | shutdown
deriving DecidableEq, Repr

def Sending.isHead : Sending → Bool
  | .head _ => true
  | _ => false

/-- One head, and at the end the `[DONE]` event and the shutdown. -/
def Finished (wire : List Sending) : Prop :=
  wire.countP Sending.isHead = 1 ∧ ∃ early, wire = early ++ [.event doneEvent, .shutdown]

/-- The callbacks of both handlers; `none` is an exception. -/
def callbackWrites (codec : JsonCodec) : Effect → Option (List Sending)
  | .onToken token => (sseEvent codec (tokenEvent token)).map fun text => [.event text]
  | .onDone _ => some [.event doneEvent, .shutdown]
  | .onError err =>
      (sseEvent codec (errorEvent err)).map fun text => [.event text, .event doneEvent, .shutdown]
  | _ => some []

/-- What the thread of a request writes. -/
def workerWrites (codec : JsonCodec) (fx : List Effect) : List Sending :=
  fx.flatMap fun e => (callbackWrites codec e).getD []

/-! ## The handlers -/

/-- What the handler of a connection did: its writes, and whether its thread runs. -/
structure Handling where
  written : List Sending := []
  started : Bool := false

/-- The sends between the head and the thread, up to an exception. -/
def sendEvents : List (Except Bytes Bytes) → List Sending × Except Bytes Unit
  | [] => ([], .ok ())
  | .error what :: _ => ([], .error what)
  | .ok text :: rest =>
      let (written, result) := sendEvents rest
      (.event text :: written, result)

/-- The `stream` branch of a handler: the head, the events before the thread, the thread. -/
def streamBranch (events : List (Except Bytes Bytes)) (thread : Except Bytes Unit) (req : HttpRequest)
    (resp : HttpResponse) : Handling × HttpResponse × Except Bytes Unit :=
  let resp := (resp.setStatusLine req.version 200 (bytes "OK")).setupSSEHeaders
  let (written, sent) := sendEvents events
  let written := .head resp.appendToBuffer :: written
  match sent with
  | .error what => ({ written }, resp, .error what)
  | .ok () =>
      match thread with
      | .error what => ({ written }, resp, .error what)
      | .ok () => ({ written, started := true }, resp, .ok ())

/-- The `catch` of the handlers; `print` is `dump(4)`. -/
def catchFailure (print : Json → Except Bytes Bytes) (req : HttpRequest) (resp : HttpResponse)
    (what : Bytes) : Except Thrown HttpResponse :=
  match print (.object [(bytes "status", .str (bytes "error")), (bytes "message", .str what)]) with
  | .error what => .error (.exception what)
  | .ok failureBody =>
      .ok <| (((resp.setStatusLine req.version 400 (bytes "Bad Request")).setCloseConnection true
        |>.setContentType (bytes "application/json")).addHeader (bytes "Content-Length")
          (bytes (toString failureBody.length))).setBody failureBody

/-- `handle`, for a request that streams. -/
def streamHandle (print : Json → Except Bytes Bytes) (events : List (Except Bytes Bytes))
    (thread : Except Bytes Unit) (req : HttpRequest) (resp : HttpResponse) :
    Http.Called Handling Thrown HttpResponse :=
  match streamBranch events thread req resp with
  | (handling, resp, .ok ()) => { result := .ok resp, app := handling }
  | (handling, resp, .error what) => { result := catchFailure print req resp what, app := handling }

def ChatSendHandler.handle (print : Json → Except Bytes Bytes) (thread : Except Bytes Unit) :=
  streamHandle print [] thread

/-- The event that tells the session; `send` is what becomes of building and sending its text. -/
def announcement (codec : JsonCodec) (dumpError sessionId : Bytes) (send : Except Bytes Unit) :
    Except Bytes Bytes :=
  match sseEvent codec (sessionEvent sessionId) with
  | none => .error dumpError
  | some text => send.map fun _ => text

def ChatCreateAndSendHandler.handle (print : Json → Except Bytes Bytes) (event : Except Bytes Bytes)
    (thread : Except Bytes Unit) :=
  streamHandle print [event] thread

/-- The middleware and the routes of `ChatServer`, for a request that comes to `handle`. -/
def streamRoutes (handle : HttpRequest → HttpResponse → Http.Called Handling Thrown HttpResponse) :
    Http.Routes Handling where
  processBefore app req := { result := Http.CorsMiddleware.before req, app }
  route _ req resp :=
    let called := handle req resp
    { result := called.result.map fun resp => (true, resp), app := called.app }
  processAfter app resp := { result := .ok (Http.CorsMiddleware.after resp), app }

/-- What `onRequest` writes on its own. -/
def serverWrites : Http.Obs → Option Sending
  | .sent data => some (.head data)
  | .shutdown => some .shutdown
  | _ => none

/-- All that is written for a request, when its handler and its thread are over. -/
def wire (handle : HttpRequest → HttpResponse → Http.Called Handling Thrown HttpResponse)
    (req : HttpRequest) (worker : List Sending) : List Sending :=
  let (out, _, conn) := Http.onRequest (Http.handleRequest (streamRoutes handle)) { app := {} } req
  conn.app.written ++ out.filterMap serverWrites ++ if conn.app.started then worker else []

/-! ## The thread -/

/-- The start of a call, and its callbacks. -/
def Effect.isMark : Effect → Bool
  | .began _ _ | .onToken _ | .onDone _ | .onError _ => true
  | _ => false

def marks (fx : List Effect) : List Effect := fx.filter Effect.isMark

/-- Timestamps are `long long`. -/
def AIHelper.Timed (helper : AIHelper) : Prop := ∀ message ∈ helper.messages, IsLongLong message.2

section

variable {codec : JsonCodec} {call : Call} {env : Environment} {helper helper' : AIHelper}
  {out : List Effect}

theorem marks_append (fx fx' : List Effect) : marks (fx ++ fx') = marks fx ++ marks fx' :=
  List.filter_append _ _

theorem marks_onToken (tokens : List Bytes) :
    marks (tokens.map .onToken) = tokens.map .onToken := by
  apply List.filter_eq_self.mpr
  intro e member
  obtain ⟨_, -, rfl⟩ := List.mem_map.mp member
  rfl

theorem marks_preparatory (fits : ∀ e ∈ out, Preparatory helper e) : marks out = [] := by
  apply List.filter_eq_nil_iff.mpr
  intro e member
  have fine := fits e member
  cases e <;> first | exact Bool.false_ne_true | exact fine.elim

theorem AIHelper.Timed.of_history (same : helper'.history = helper.history) (timed : helper.Timed) :
    helper'.Timed := by
  have messages : helper'.messages = helper.messages := congrArg (·.messages) same
  unfold AIHelper.Timed
  rw [messages]
  exact timed

theorem AIHelper.Timed.append (timed : helper.Timed) {x : ChatExchange} (valid : x.Valid) :
    (helper.append x).Timed := by
  obtain ⟨low, high⟩ := valid.ts
  intro message member
  rcases List.mem_append.mp member with old | new
  · exact timed message old
  · unfold IsLongLong llongMax at *
    simp only [ChatExchange.lines, List.mem_cons, List.not_mem_nil, or_false] at new
    rcases new with rfl | rfl <;> dsimp only <;> omega

/-- A commit calls nothing back and overflows nowhere. -/
theorem commitExchange_timed {answer : Bytes} {r : Except Fault Unit} (lawful : codec.Lawful)
    (timed : helper.Timed) (clock : IsLongLong env.clock)
    (ran : AIHelper.commitExchange codec call env answer helper = (out, helper', r)) :
    marks out = [] ∧ helper'.Timed ∧ ∀ e, r = .error e → ∃ what, e = .threw what := by
  unfold AIHelper.commitExchange at ran
  rw [current_bind_eq] at ran
  have inRange : ∀ message ∈ helper.messages.getLast?, IsLongLong message.2 :=
    fun message last => timed message (List.mem_of_getLast? last)
  rcases bind_cases ran with ⟨e, failed, rfl⟩ | ⟨_, same, ts, out₂, stamped, rest, rfl⟩
  · obtain ⟨rfl, rfl, ⟨what, thrown⟩ | ⟨ts, eq, -⟩⟩ := nextTimestamp_spec clock inRange failed
    · exact ⟨rfl, timed, fun _ eq => ⟨what, by cases thrown; cases eq; rfl⟩⟩
    · cases eq
  obtain ⟨rfl, rfl, ⟨what, thrown⟩ | ⟨_, eq, representable, -⟩⟩ :=
    nextTimestamp_spec clock inRange stamped
  · cases thrown
  cases eq
  cases drawn : env.secureId with
  | error what =>
      rw [drawn] at rest
      cases rest
      exact ⟨rfl, timed, fun _ eq => ⟨what, by cases eq; rfl⟩⟩
  | ok messageId =>
      rw [drawn, orThrow_ok_bind] at rest
      rcases submit_spec lawful representable rest with
        ⟨⟨what, rfl⟩, rfl, rfl | ⟨body, written, rfl⟩⟩ | ⟨rfl, rfl, body, written, rfl⟩
      · exact ⟨rfl, timed, fun _ eq => ⟨what, by cases eq; rfl⟩⟩
      · exact ⟨rfl, timed, fun _ eq => ⟨what, by cases eq; rfl⟩⟩
      · exact ⟨rfl, timed.append written.valid, nofun⟩

theorem conclude_timed {answer : Bytes} {r : Except Fault Unit} (lawful : codec.Lawful)
    (timed : helper.Timed) (clock : IsLongLong env.clock)
    (ran : AIHelper.conclude codec call env answer helper = (out, helper', r)) :
    marks out = [] ∧ helper'.Timed ∧ ∀ e, r = .error e → ∃ what, e = .threw what := by
  unfold AIHelper.conclude at ran
  split at ran
  · cases ran
    exact ⟨rfl, timed, fun _ eq => ⟨_, by cases eq; rfl⟩⟩
  · exact commitExchange_timed lawful timed clock ran

/-- `chat` calls nothing back. -/
theorem chat_timed {r : Except Fault Bytes} (lawful : codec.Lawful) (timed : helper.Timed)
    (clock : IsLongLong env.clock) (ran : AIHelper.chat codec call env helper = (out, helper', r)) :
    marks out = [] ∧ helper'.Timed ∧ ∀ e, r = .error e → ∃ what, e = .threw what := by
  rcases bind_cases ran with ⟨e, failed, rfl⟩ | ⟨out₁, _, strategy, _, chosen, rest, rfl⟩
  · obtain ⟨same, fits, throws⟩ :=
      Prepares.after (selectStrategy_prepares call env) rfl (List.forall_mem_nil _) failed
    exact ⟨marks_preparatory fits, timed.of_history same, fun _ eq => throws _ (by cases eq; rfl)⟩
  obtain ⟨same, fits, -⟩ :=
    Prepares.after (selectStrategy_prepares call env) rfl (List.forall_mem_nil _) chosen
  rw [List.nil_append] at fits
  rcases bind_cases rest with ⟨e, failed, rfl⟩ | ⟨out₂, _, answer, _, told, final, rfl⟩
  · obtain ⟨same, fits, throws⟩ := Prepares.after (answer_prepares call env strategy) same fits failed
    exact ⟨marks_preparatory fits, timed.of_history same, fun _ eq => throws _ (by cases eq; rfl)⟩
  obtain ⟨same, fits, -⟩ := Prepares.after (answer_prepares call env strategy) same fits told
  rw [← List.append_assoc, marks_append, marks_preparatory fits, List.nil_append]
  rcases bind_cases final with ⟨e, failed, rfl⟩ | ⟨out₃, _, _, _, committed, ended, rfl⟩
  · obtain ⟨quiet, timed, throws⟩ := conclude_timed lawful (timed.of_history same) clock failed
    exact ⟨quiet, timed, fun _ eq => throws _ (by cases eq; rfl)⟩
  · obtain ⟨quiet, timed, -⟩ := conclude_timed lawful (timed.of_history same) clock committed
    cases ended
    rw [List.append_nil]
    exact ⟨quiet, timed, nofun⟩

/-- The first section of `chatStream` hands on tokens, and calls `on_done` exactly when it has an
answer. -/
theorem chatStream_timed {r : Except Fault (Option Bytes)} (lawful : codec.Lawful)
    (timed : helper.Timed) (clock : IsLongLong env.clock)
    (ran : AIHelper.chatStream codec call env helper = (out, helper', r)) :
    helper'.Timed ∧ ((∃ what, ∃ tokens : List Bytes, r = .error (.threw what) ∧
        marks out = tokens.map .onToken) ∨
      (r = .ok none ∧ marks out = []) ∨
      ∃ answer, ∃ tokens : List Bytes, r = .ok (some answer) ∧
        marks out = tokens.map .onToken ++ [.onDone answer]) := by
  rcases bind_cases ran with ⟨e, failed, rfl⟩ | ⟨out₁, _, strategy, _, chosen, rest, rfl⟩
  · obtain ⟨same, fits, throws⟩ :=
      Prepares.after (selectStrategy_prepares call env) rfl (List.forall_mem_nil _) failed
    obtain ⟨what, rfl⟩ := throws e rfl
    exact ⟨timed.of_history same, .inl ⟨what, [], rfl, marks_preparatory fits⟩⟩
  obtain ⟨same, fits, -⟩ :=
    Prepares.after (selectStrategy_prepares call env) rfl (List.forall_mem_nil _) chosen
  rw [List.nil_append] at fits
  by_cases tool : strategy.isMCPModel = true
  · rw [if_pos tool] at rest
    cases rest
    rw [List.append_nil]
    exact ⟨timed.of_history same, .inr (.inl ⟨rfl, marks_preparatory fits⟩)⟩
  rw [if_neg tool] at rest
  rcases bind_cases rest with ⟨e, failed, rfl⟩ | ⟨out₂, _, text, _, told, final, rfl⟩
  · obtain ⟨same, asked, tokens, eq, fits, ⟨what, thrown⟩ | eq⟩ := fullText_spec same fits failed
    · cases thrown
      refine ⟨timed.of_history same, .inl ⟨what, tokens, rfl, ?_⟩⟩
      rw [eq, marks_append, marks_preparatory fits, marks_onToken, List.nil_append]
    · cases eq
  obtain ⟨same, asked, tokens, eq, fits, -⟩ := fullText_spec same fits told
  have streamed : marks (out₁ ++ out₂) = tokens.map .onToken := by
    rw [eq, marks_append, marks_preparatory fits, marks_onToken, List.nil_append]
  rw [← List.append_assoc, marks_append, streamed]
  rcases bind_cases final with ⟨e, failed, rfl⟩ | ⟨out₃, _, _, _, committed, ended, rfl⟩
  · obtain ⟨quiet, timed, throws⟩ := conclude_timed lawful (timed.of_history same) clock failed
    obtain ⟨what, rfl⟩ := throws _ rfl
    rw [quiet, List.append_nil]
    exact ⟨timed, .inl ⟨what, tokens, rfl, rfl⟩⟩
  · obtain ⟨quiet, timed, -⟩ := conclude_timed lawful (timed.of_history same) clock committed
    rw [emit_bind_eq] at ended
    cases ended
    rw [marks_append, quiet, List.nil_append]
    exact ⟨timed, .inr (.inr ⟨text, tokens, rfl, rfl⟩)⟩

end

/-- The marks of a call that has reached a phase. -/
inductive CalledBack : Phase → List Effect → Prop
  | idle : CalledBack .idle []
  | unlocked {call : Call} {fx : List Effect} :
    marks fx = [.began true call] → CalledBack (.unlocked call) fx
  | answered {call : Call} {answer : Bytes} {fx : List Effect} :
    marks fx = [.began true call] → CalledBack (.answered answer) fx
  | failing {call : Call} {what : Bytes} {tokens : List Bytes} {fx : List Effect} :
    marks fx = .began true call :: tokens.map .onToken → CalledBack (.failing what) fx
  | over {call : Call} {last : Effect} {tokens : List Bytes} {fx : List Effect} :
    marks fx = .began true call :: (tokens.map .onToken ++ [last]) →
    ((∃ answer, last = .onDone answer) ∨ ∃ what, last = .onError what) → CalledBack .over fx
  /-- No call of `chatStream`. -/
  | apart {fx : List Effect} : (∀ call, .began true call ∉ marks fx) → CalledBack .over fx

/-- What the calls of a helper have called back. -/
structure Calling (w : World) (tr : List Obs) : Prop where
  timed : w.helper.Timed
  calls : ∀ n, CalledBack (w.phase n) (effectsOf n tr)
  fresh : ∀ n, w.nextCall ≤ n → w.phase n = .idle

section

variable {codec : JsonCodec} {w w' : World} {tr o : List Obs} {helper : AIHelper} {n : Nat}
  {phase : Phase} {f : List Effect}

theorem Calling.initial {start : AIHelper} (timed : start.Timed) : Calling { helper := start } [] where
  timed := timed
  calls _ := .idle
  fresh _ _ := rfl

/-- A step of call `n`. -/
theorem Calling.advance (calling : Calling w tr) (timed : helper.Timed)
    (call : CalledBack phase (effectsOf n tr ++ f)) {next : Nat} (later : w.nextCall ≤ next)
    (known : n < next) :
    Calling { w.advance helper n phase with nextCall := next } (tr ++ f.map (n, ·)) where
  timed := timed
  calls := World.advance_calls helper calling.calls call
  fresh _ high := World.advance_idle helper calling.fresh later known high

/-- A call between its sections has told nothing yet. -/
theorem CalledBack.between {fx : List Effect} (so : CalledBack phase fx)
    (here : (∃ call, phase = .unlocked call) ∨ ∃ answer, phase = .answered answer) :
    ∃ call, marks fx = [.began true call] := by
  cases so with
  | unlocked told | answered told => exact ⟨_, told⟩
  | _ => rcases here with ⟨_, here⟩ | ⟨_, here⟩ <;> cases here

theorem CalledBack.of_failing {what : Bytes} {fx : List Effect} (so : CalledBack (.failing what) fx) :
    ∃ call, ∃ tokens : List Bytes, marks fx = .began true call :: tokens.map .onToken := by
  cases so with
  | failing told => exact ⟨_, _, told⟩

theorem marks_result {r : Except Fault Bytes} : marks [chatResult r] = [] := by
  rcases r with (_ | _) | _ <;> rfl

/-- `marks` of a call that goes on with `f`. -/
theorem Calling.step (lawful : codec.Lawful) (calling : Calling w tr) (step : Step codec w o w') :
    Calling w' (tr ++ o) := by
  have fresh : effectsOf w.nextCall tr = [] := by
    have quiet := calling.calls w.nextCall
    rw [calling.fresh _ le_rfl] at quiet
    generalize effectsOf w.nextCall tr = fx at quiet
    cases quiet
    rfl
  have known {n : Nat} (busy : w.phase n ≠ .idle) : n < w.nextCall := by
    by_contra unknown
    exact busy (calling.fresh n (not_lt.mp unknown))
  cases step with
  | chat call env clock ran =>
      obtain ⟨quiet, timed, -⟩ := chat_timed lawful calling.timed clock ran
      refine calling.advance timed ?_ (Nat.le_succ _) (Nat.lt_succ_self _)
      rw [fresh]
      refine .apart fun call' member => ?_
      rw [List.nil_append, List.cons_append, ← List.singleton_append, marks_append, marks_append, quiet,
        marks_result] at member
      cases List.mem_singleton.mp member
  | chatStream call env clock ran ended =>
      obtain ⟨timed, ⟨what, tokens, rfl, told⟩ | ⟨rfl, told⟩ | ⟨answer, tokens, rfl, told⟩⟩ :=
        chatStream_timed lawful calling.timed clock ran
      all_goals
        cases ended
        refine calling.advance timed ?_ (Nat.le_succ _) (Nat.lt_succ_self _)
        rw [fresh, List.nil_append, List.append_nil]
      · exact .failing (congrArg (Effect.began true call :: ·) told)
      · exact .unlocked (congrArg (Effect.began true call :: ·) told)
      · exact .over (congrArg (Effect.began true call :: ·) told) (.inl ⟨answer, rfl⟩)
  | @resume n call _ _ _ _ _ env unlocked clock ran ended =>
      obtain ⟨started, told⟩ := (calling.calls n).between (.inl ⟨call, unlocked⟩)
      obtain ⟨quiet, timed, throws⟩ := chat_timed lawful calling.timed clock ran
      have known : n < w.nextCall := known (unlocked ▸ nofun)
      rename_i r _
      cases r with
      | ok answer =>
          cases ended
          refine calling.advance timed (.answered (?_ : marks _ = [.began true started])) le_rfl known
          rw [List.append_nil, marks_append, told, quiet]
          rfl
      | error e =>
          obtain ⟨what, rfl⟩ := throws e rfl
          cases ended
          refine calling.advance timed
            (.failing (?_ : marks _ = .began true started :: List.map .onToken [])) le_rfl known
          rw [List.append_nil, marks_append, told, quiet]
          rfl
  | @callBack n answer answered =>
      obtain ⟨started, told⟩ := (calling.calls n).between (.inr ⟨answer, answered⟩)
      refine calling.advance (f := [.onToken answer, .onDone answer]) calling.timed
        (.over (?_ : marks _ = .began true started :: (List.map .onToken [answer] ++ [.onDone answer]))
          (.inl ⟨answer, rfl⟩)) le_rfl
        (known (answered ▸ nofun))
      rw [marks_append, told]
      rfl
  | @report n what failing =>
      obtain ⟨started, tokens, told⟩ := (failing ▸ calling.calls n).of_failing
      refine calling.advance (f := [.onError what]) calling.timed
        (.over (?_ : marks _ = .began true started :: (tokens.map .onToken ++ [.onError what]))
          (.inr ⟨what, rfl⟩)) le_rfl (known (failing ▸ nofun))
      rw [marks_append, told]
      rfl
  | @getHistorySnapshot helper out history ran =>
      obtain rfl := getHistorySnapshot_same ran
      refine calling.advance (f := [.snapshot history]) calling.timed (.apart fun call member => ?_)
        (Nat.le_succ _) (Nat.lt_succ_self _)
      rw [fresh] at member
      cases member
  | @refuseSnapshot helper out what ran =>
      obtain rfl := getHistorySnapshot_same ran
      refine calling.advance (f := [.threw what]) calling.timed (.apart fun call member => ?_)
        (Nat.le_succ _) (Nat.lt_succ_self _)
      rw [fresh] at member
      cases member

/-- A call of `chatStream` that is over has called back `on_done` or `on_error`, once and last. -/
theorem callbacks_end {start : AIHelper} (lawful : codec.Lawful) (timed : start.Timed)
    (run : Run (Step codec) { helper := start } tr w) {call : Call}
    (began : .began true call ∈ effectsOf n tr) (ended : w.phase n = .over) :
    ∃ call', ∃ tokens : List Bytes, ∃ last, marks (effectsOf n tr) =
        .began true call' :: (tokens.map .onToken ++ [last]) ∧
      ((∃ answer, last = .onDone answer) ∨ ∃ what, last = .onError what) := by
  have calling : Calling w tr :=
    run.invariant (I := fun w tr => Calling w tr) (.initial timed) (Calling.step lawful)
  have so := calling.calls n
  rw [ended] at so
  match so with
  | .over told last => exact ⟨_, _, _, told, last⟩
  | .apart quiet => exact absurd (List.mem_filter.mpr ⟨began, rfl⟩) (quiet call)

theorem workerWrites_append (fx fx' : List Effect) :
    workerWrites codec (fx ++ fx') = workerWrites codec fx ++ workerWrites codec fx' :=
  List.flatMap_append

/-- Only callbacks write. -/
theorem workerWrites_marks (fx : List Effect) : workerWrites codec (marks fx) = workerWrites codec fx := by
  induction fx with
  | nil => rfl
  | cons e rest ih =>
      by_cases mark : e.isMark = true
      · rw [marks, List.filter_cons_of_pos mark]
        exact congrArg (((callbackWrites codec e).getD []) ++ ·) ih
      · rw [marks, List.filter_cons_of_neg mark]
        have silent : callbackWrites codec e = some [] := by
          cases e <;> first | rfl | exact absurd rfl mark
        change workerWrites codec (marks rest) = (callbackWrites codec e).getD [] ++ workerWrites codec rest
        rw [silent, ih]
        rfl

theorem workerWrites_onToken (codec : JsonCodec) (tokens : List Bytes) :
    ∀ s ∈ workerWrites codec (tokens.map .onToken), s.isHead = false := by
  intro s member
  obtain ⟨e, told, wrote⟩ := List.mem_flatMap.mp member
  obtain ⟨token, -, rfl⟩ := List.mem_map.mp told
  change s ∈ ((sseEvent codec (tokenEvent token)).map fun text => [Sending.event text]).getD [] at wrote
  cases text : sseEvent codec (tokenEvent token) with
  | none =>
      rw [text] at wrote
      cases wrote
  | some text' =>
      rw [text] at wrote
      cases List.mem_singleton.mp wrote
      rfl

/-- What a finished thread wrote: events, and at the end `[DONE]` and the shutdown. -/
theorem workerWrites_end {start : AIHelper} (lawful : codec.Lawful) (timed : start.Timed)
    (run : Run (Step codec) { helper := start } tr w) {call : Call}
    (began : .began true call ∈ effectsOf n tr) (ended : w.phase n = .over)
    (sound : ∀ e ∈ effectsOf n tr, callbackWrites codec e ≠ none) :
    ∃ early, workerWrites codec (effectsOf n tr) = early ++ [.event doneEvent, .shutdown] ∧
      ∀ s ∈ early, s.isHead = false := by
  obtain ⟨started, tokens, last, told, ends⟩ := callbacks_end lawful timed run began ended
  have whole : workerWrites codec (effectsOf n tr) =
      workerWrites codec (tokens.map .onToken) ++ (callbackWrites codec last).getD [] := by
    rw [← workerWrites_marks, told, ← List.singleton_append, workerWrites_append, workerWrites_append]
    exact congrArg (workerWrites codec (tokens.map .onToken) ++ ·) (List.append_nil _)
  have fine := workerWrites_onToken codec tokens
  rw [whole]
  rcases ends with ⟨answer, rfl⟩ | ⟨what, rfl⟩
  · exact ⟨_, rfl, fine⟩
  · have member : .onError what ∈ marks (effectsOf n tr) := by
      rw [told]
      exact .tail _ (List.mem_append_right _ (.head _))
    have heard := sound _ (List.mem_filter.mp member).1
    cases text : sseEvent codec (errorEvent what) with
    | none =>
        refine absurd ?_ heard
        rw [callbackWrites, text]
        rfl
    | some text' =>
        refine ⟨workerWrites codec (tokens.map .onToken) ++ [.event text'], ?_, fun s member => ?_⟩
        · rw [callbackWrites, text, List.append_assoc]
          rfl
        · rcases List.mem_append.mp member with early | here
          · exact fine s early
          · rw [List.mem_singleton.mp here]
            rfl

end

/-! ## The whole response -/

section

variable {print : Json → Except Bytes Bytes} {req : HttpRequest} {worker : List Sending}

theorem sendEvents_quiet (events : List (Except Bytes Bytes)) :
    ∀ s ∈ (sendEvents events).1, ∃ text, s = .event text := by
  induction events with
  | nil => nofun
  | cons event rest ih =>
      cases event with
      | error what => nofun
      | ok text =>
          intro s member
          rcases List.mem_cons.mp member with rfl | later
          · exact ⟨text, rfl⟩
          · exact ih s later

theorem sendEvents_ok (events : List (Except Bytes Bytes)) :
    (sendEvents events).2 = .ok () ↔ ∀ event ∈ events, ∃ text, event = .ok text := by
  induction events with
  | nil => exact ⟨nofun, fun _ => rfl⟩
  | cons event rest ih =>
      cases event with
      | error what => exact ⟨nofun, fun all => nomatch all _ (.head _)⟩
      | ok text =>
          rw [List.forall_mem_cons]
          exact ih.trans ⟨fun all => ⟨⟨text, rfl⟩, all⟩, And.right⟩

/-- The response that a handler is given. -/
def newResponse (req : HttpRequest) : HttpResponse :=
  (HttpResponse.new (Http.closeRequested req)).setVersion req.version

variable {handle : HttpRequest → HttpResponse → Http.Called Handling Thrown HttpResponse}
  {handling : Handling}

theorem handleRequest_stream
    (handle : HttpRequest → HttpResponse → Http.Called Handling Thrown HttpResponse)
    (post : req.method = .post) :
    Http.handleRequest (streamRoutes handle) {} req (newResponse req) =
      { result := .ok <| match (handle req (newResponse req)).result with
          | .ok resp => Http.CorsMiddleware.after resp
          | .error thrown => Http.recover req thrown
        app := (handle req (newResponse req)).app } := by
  have before : Http.CorsMiddleware.before req = .ok req := by
    rw [Http.CorsMiddleware.before, if_neg (by rw [post]; nofun)]
  unfold Http.handleRequest Http.Routes.tryHandle Http.Called.andThen streamRoutes
  dsimp only
  rw [before]
  dsimp only
  cases (handle req (newResponse req)).result with
  | ok resp => rfl
  | error thrown => rfl

/-- A response that streams is neither sent nor closed. -/
theorem wire_streaming (post : req.method = .post) {resp : HttpResponse} (streams : resp.streaming = true)
    (ran : handle req (newResponse req) = { result := .ok resp, app := handling }) :
    wire handle req worker = handling.written ++ if handling.started then worker else [] := by
  have handled := handleRequest_stream handle post
  rw [ran] at handled
  have streams : (Http.CorsMiddleware.after resp).streaming = true := streams
  have shown : (Http.onRequest (Http.handleRequest (streamRoutes handle)) { app := {} } req).1.filterMap
      serverWrites = [] ∧
      (Http.onRequest (Http.handleRequest (streamRoutes handle)) { app := {} } req).2.2.app = handling := by
    unfold Http.onRequest
    unfold newResponse at handled
    dsimp only
    rw [handled]
    dsimp only
    rw [if_pos streams]
    exact ⟨rfl, rfl⟩
  unfold wire
  dsimp only
  rw [shown.1, shown.2, List.append_nil]

/-- An exception of a handler is answered anew. -/
theorem wire_threw (worker : List Sending) (post : req.method = .post) {what : Bytes}
    (ran : handle req (newResponse req) = { result := .error (.exception what), app := handling }) :
    ∃ response, wire handle req worker = handling.written ++ [.head response, .shutdown] ++
      if handling.started then worker else [] := by
  have handled := handleRequest_stream handle post
  rw [ran] at handled
  have shown : ∃ response, (Http.onRequest (Http.handleRequest (streamRoutes handle)) { app := {} }
        req).1.filterMap serverWrites = [.head response, .shutdown] ∧
      (Http.onRequest (Http.handleRequest (streamRoutes handle)) { app := {} } req).2.2.app = handling := by
    unfold Http.onRequest
    unfold newResponse at handled
    dsimp only
    rw [handled]
    cases Http.closeRequested req with
    | true => exact ⟨_, rfl, rfl⟩
    | false => exact ⟨_, rfl, rfl⟩
  obtain ⟨response, shown, app⟩ := shown
  refine ⟨response, ?_⟩
  unfold wire
  dsimp only
  rw [shown, app]

/-- The `catch` leaves the streaming flag as it is. -/
theorem catchFailure_cases (print : Json → Except Bytes Bytes) (req : HttpRequest) (resp : HttpResponse) (what : Bytes) :
    (∃ resp', catchFailure print req resp what = .ok resp' ∧ resp'.streaming = resp.streaming) ∨
      ∃ what', catchFailure print req resp what = .error (.exception what') := by
  unfold catchFailure
  split
  · exact .inr ⟨_, rfl⟩
  · exact .inl ⟨_, rfl, rfl⟩

/-- How a handler that streams ends: its thread runs, or it failed, and then its response still
streams unless the `catch` failed too. -/
theorem streamHandle_cases (print : Json → Except Bytes Bytes) (req : HttpRequest)
    (events : List (Except Bytes Bytes)) (thread : Except Bytes Unit)
    (resp : HttpResponse) :
    ∃ head, ((∀ event ∈ events, ∃ text, event = .ok text) ∧ thread = .ok () ∧ ∃ resp' : HttpResponse,
        resp'.streaming = true ∧ streamHandle print events thread req resp =
          { result := .ok resp'
            app := { written := .head head :: (sendEvents events).1, started := true } }) ∨
      ¬ ((∀ event ∈ events, ∃ text, event = .ok text) ∧ thread = .ok ()) ∧
        ((∃ resp' : HttpResponse, resp'.streaming = true ∧ streamHandle print events thread req resp =
          { result := .ok resp', app := { written := .head head :: (sendEvents events).1 } }) ∨
        ∃ what, streamHandle print events thread req resp =
          { result := .error (.exception what)
            app := { written := .head head :: (sendEvents events).1 } }) := by
  refine ⟨(resp.setStatusLine req.version 200 (bytes "OK")).setupSSEHeaders.appendToBuffer, ?_⟩
  have all := sendEvents_ok events
  have caught (what : Bytes) :=
    catchFailure_cases print req
      (resp.setStatusLine req.version 200 (bytes "OK")).setupSSEHeaders what
  unfold streamHandle streamBranch
  generalize sendEvents events = sent at all ⊢
  obtain ⟨written, sent⟩ := sent
  cases sent with
  | error what =>
      refine .inr ⟨fun fine => (nomatch all.mpr fine.1), ?_⟩
      rcases caught what with ⟨resp', failed, streams⟩ | ⟨what', failed⟩
      · exact .inl ⟨resp', streams, by rw [← failed]⟩
      · exact .inr ⟨what', by rw [← failed]⟩
  | ok =>
      cases thread with
      | error what =>
          refine .inr ⟨fun fine => (nomatch fine.2), ?_⟩
          rcases caught what with ⟨resp', failed, streams⟩ | ⟨what', failed⟩
          · exact .inl ⟨resp', streams, by rw [← failed]⟩
          · exact .inr ⟨what', by rw [← failed]⟩
      | ok => exact .inl ⟨all.mp rfl, rfl, _, rfl, rfl⟩

/-- A streamed response is finished exactly when nothing fails between its head and its thread. -/
theorem finished_iff (post : req.method = .post) (events : List (Except Bytes Bytes))
    (thread : Except Bytes Unit)
    (ends : ∃ early, worker = early ++ [.event doneEvent, .shutdown] ∧ ∀ s ∈ early, s.isHead = false) :
    Finished (wire (streamHandle print events thread) req worker) ↔
      (∀ event ∈ events, ∃ text, event = .ok text) ∧ thread = .ok () := by
  have quiet := sendEvents_quiet events
  have noHead : (sendEvents events).1.countP Sending.isHead = 0 := by
    apply List.countP_eq_zero.mpr
    intro s member
    obtain ⟨text, rfl⟩ := quiet s member
    exact Bool.false_ne_true
  obtain ⟨head, ⟨sent, started, resp', streams, ran⟩ | ⟨failed, ⟨resp', streams, ran⟩ | ⟨what, ran⟩⟩⟩ :=
    streamHandle_cases print req events thread (newResponse req)
  · refine iff_of_true ?_ ⟨sent, started⟩
    rw [wire_streaming post streams ran, if_pos rfl]
    obtain ⟨early, rfl, fine⟩ := ends
    have noHead' : early.countP Sending.isHead = 0 :=
      List.countP_eq_zero.mpr fun s member => by rw [fine s member]; exact Bool.false_ne_true
    refine ⟨?_, .head head :: (sendEvents events).1 ++ early, ?_⟩
    · simp [List.countP_append, List.countP_cons, noHead, noHead', Sending.isHead]
    · rw [List.append_assoc]
  · refine iff_of_false ?_ failed
    rw [wire_streaming post streams ran]
    rintro ⟨-, early, open_⟩
    have last : Sending.shutdown ∈ Sending.head head :: (sendEvents events).1 := by
      have whole : Sending.shutdown ∈ early ++ [.event doneEvent, .shutdown] :=
        List.mem_append_right _ (.tail _ (.head _))
      rw [← open_] at whole
      simpa using whole
    rcases List.mem_cons.mp last with same | member
    · cases same
    · obtain ⟨text, same⟩ := quiet _ member
      cases same
  · refine iff_of_false ?_ failed
    obtain ⟨response, whole⟩ := wire_threw worker post ran
    rw [whole]
    rintro ⟨one, -⟩
    simp [List.countP_append, List.countP_cons, noHead, Sending.isHead] at one

end

/-- The response of a request that streams is finished when the events before its thread are sent
and the thread starts, and only then. -/
theorem stream_finished_iff {codec : JsonCodec} {start : AIHelper} (lawful : codec.Lawful)
    (timed : start.Timed) {tr : List Obs} {w : World} (run : Run (Step codec) { helper := start } tr w)
    {n : Nat} {call : Call} (began : .began true call ∈ effectsOf n tr) (ended : w.phase n = .over)
    (sound : ∀ e ∈ effectsOf n tr, callbackWrites codec e ≠ none) (print : Json → Except Bytes Bytes)
    {req : HttpRequest} (post : req.method = .post) (thread : Except Bytes Unit)
    (dumpError sessionId : Bytes) (send : Except Bytes Unit) :
    (Finished (wire (ChatSendHandler.handle print thread) req (workerWrites codec (effectsOf n tr))) ↔
      thread = .ok ()) ∧
    (Finished (wire (ChatCreateAndSendHandler.handle print
        (announcement codec dumpError sessionId send) thread) req
        (workerWrites codec (effectsOf n tr))) ↔
      (codec.dump (sessionEvent sessionId) ≠ none ∧ send = .ok ()) ∧ thread = .ok ()) := by
  have ends := workerWrites_end lawful timed run began ended sound
  refine ⟨(finished_iff post [] thread ends).trans (and_iff_right (List.forall_mem_nil _)), ?_⟩
  apply (finished_iff post [announcement codec dumpError sessionId send] thread ends).trans
  apply and_congr_left
  intro _
  rw [List.forall_mem_singleton, announcement, sseEvent]
  cases codec.dump (sessionEvent sessionId) with
  | none =>
      refine iff_of_false (fun sent => ?_) fun fine => fine.1 rfl
      obtain ⟨text, same⟩ := sent
      cases same
  | some text =>
      cases send with
      | error what =>
          refine iff_of_false (fun sent => ?_) fun fine => by cases fine.2
          obtain ⟨text, same⟩ := sent
          cases same
      | ok => exact iff_of_true ⟨_, rfl⟩ ⟨Option.some_ne_none text, rfl⟩

/-- The thread of a request whose strategy is not registered. -/
theorem stream_finished_iff_unknown : ∃ tr w, ∃ call : Call,
    Run (Step textCodec) { helper := {} } tr w ∧ .began true call ∈ effectsOf 0 tr ∧
    Finished (wire (ChatSendHandler.handle (fun _ => .error []) (.ok ())) { method := .post }
      (workerWrites textCodec (effectsOf 0 tr))) := by
  have ran : AIHelper.chatStream textCodec ⟨7, bytes "ann", bytes "s1", bytes "hi", bytes "9"⟩
      firstEnvironment {} = ([], {}, .error (.threw (bytes "Unknown strategy: 9"))) := rfl
  have first := Step.chatStream (w := { helper := {} }) _ firstEnvironment (by decide) ran rfl
  have run : Run (Step textCodec) { helper := {} } _ _ := (Run.single first).tail
    (.report (n := 0) (show _ = Phase.failing (bytes "Unknown strategy: 9") from rfl))
  have timed : AIHelper.Timed {} := List.forall_mem_nil _
  have sound : ∀ e ∈ [Effect.began true ⟨7, bytes "ann", bytes "s1", bytes "hi", bytes "9"⟩,
      .onError (bytes "Unknown strategy: 9")], callbackWrites textCodec e ≠ none := by
    intro e member
    rcases List.mem_cons.mp member with rfl | member
    · exact nofun
    · rw [List.mem_singleton.mp member]
      decide +kernel
  exact ⟨_, _, _, run, .head _, ((stream_finished_iff textCodec_faithful.toLawful timed run
    (n := 0) List.mem_cons_self rfl sound (fun _ => .error []) rfl (.ok ()) [] [] (.ok ())).1).mpr rfl⟩

/-- The thread cannot be started: the head is all that is ever written. -/
theorem stream_left_open : ∃ head : Bytes,
    wire (ChatSendHandler.handle (fun _ => .ok []) (.error (bytes "Resource temporarily unavailable")))
      { method := .post } [.event doneEvent, .shutdown] = [.head head] ∧ ¬ Finished [.head head] := by
  refine ⟨_, rfl, fun finished => ?_⟩
  obtain ⟨-, early, whole⟩ := finished
  have two := congrArg List.length whole
  simp at two

end AIService.Chat
