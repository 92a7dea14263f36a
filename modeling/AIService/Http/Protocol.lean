import AIService.Http.Delivery

/-!
# What the server writes on a connection

Over any callbacks, and with the peer gone at any time between two of them, the trace of
a connection is one block for each dispatched request, each block but the last leaving
the connection open, and at most one refusal at the end (`Served`).
-/

namespace AIService.Http

variable {σ : Type} {httpCallback : HttpCallback σ}

/-! ## Events and traces -/

inductive Event
  | message (data : Bytes)
  /-- The connection is no longer connected, for a reason outside the callbacks. -/
  | disconnected

/-- The server reacts to one event. -/
def Conn.react (httpCallback : HttpCallback σ) (conn : Conn σ) : Event → Option (List Obs × Conn σ)
  | .message data => onMessage httpCallback conn data
  | .disconnected => some ([], { conn with connected := false })

def serve (httpCallback : HttpCallback σ) : Conn σ → List Event → Option (List Obs × Conn σ)
  | conn, [] => some ([], conn)
  | conn, event :: rest => do
      let (out, conn) ← conn.react httpCallback event
      let (later, conn) ← serve httpCallback conn rest
      return (out ++ later, conn)

/-- The request was the last one of its connection. -/
def Dispatch.terminal (d : Dispatch) : Bool :=
  match d.outcome with
  | .answered resp => resp.closeConnection || d.hangUp
  | .streaming _ => true
  | .threw _ => true

/-- What the server does about one request: exactly one serialized response, unless a
handler took the connection over; the fixed 400 stands for a callback that threw. -/
def Dispatch.block (d : Dispatch) : List Obs :=
  match d.outcome with
  | .answered resp =>
      [.dispatched d, .sent resp.appendToBuffer] ++ if resp.closeConnection then [.shutdown] else []
  | .streaming _ => [.dispatched d]
  | .threw _ => [.dispatched d, .sent badRequest, .shutdown]

/-- The response a callback starts from. -/
def initialResponse (req : HttpRequest) : HttpResponse :=
  (HttpResponse.new (closeRequested req)).setVersion req.version

/-- What becomes of a request when the callback came to `result`. -/
def outcomeOf (req : HttpRequest) : Except Bytes HttpResponse → Outcome
  | .error what => .threw what
  | .ok resp =>
      if resp.streaming then .streaming resp
      else .answered (if closeRequested req then resp.setCloseConnection true else resp)

/-- The dispatch is a call of the callback, in some state of the application. -/
def Dispatch.From (httpCallback : HttpCallback σ) (d : Dispatch) : Prop :=
  ∃ app, d.outcome = outcomeOf d.req (httpCallback app d.req (initialResponse d.req)).result ∧
    d.hangUp = (httpCallback app d.req (initialResponse d.req)).hangUp

/-- The default callback lets no exception out. -/
theorem handleRequest_catches {routes : Routes σ} {d : Dispatch}
    (called : d.From (handleRequest routes)) (what : Bytes) : d.outcome ≠ .threw what := by
  obtain ⟨app, outcome, -⟩ := called
  obtain ⟨resp, returned⟩ : ∃ resp,
      (handleRequest routes app d.req (initialResponse d.req)).result = .ok resp := ⟨_, rfl⟩
  rw [outcome, returned, outcomeOf]
  split <;> simp

/-- What the server does about malformed input. -/
def refusal : List Obs := [.malformed, .sent badRequest, .shutdown]

/-- A trace of the server; the flag tells that a terminal event was in it. -/
inductive Served (httpCallback : HttpCallback σ) : List Obs → Bool → Prop
  | start : Served httpCallback [] false
  | request {tr : List Obs} (d : Dispatch) :
    Served httpCallback tr false → d.From httpCallback →
    Served httpCallback (tr ++ d.block) d.terminal
  | refuse {tr : List Obs} : Served httpCallback tr false → Served httpCallback (tr ++ refusal) true

/-- The same, spelled out: the dispatched requests in order, and the refusal. -/
theorem Served.spelled {tr : List Obs} {ended : Bool} (served : Served httpCallback tr ended) :
    ∃ (ds : List Dispatch) (refused : Bool),
      tr = ds.flatMap Dispatch.block ++ (if refused then refusal else []) ∧
      ended = (refused || ds.any Dispatch.terminal) ∧
      (∀ d ∈ ds, d.From httpCallback) ∧
      (∀ d ∈ ds.dropLast, d.terminal = false) ∧
      (refused = true → ∀ d ∈ ds, d.terminal = false) := by
  induction served with
  | start => exact ⟨[], false, rfl, rfl, by simp, by simp, by simp⟩
  | @request tr d _ called ih =>
      obtain ⟨ds, refused, rfl, open_, calls, inner, -⟩ := ih
      obtain ⟨rfl, alive⟩ := Bool.or_eq_false_iff.mp open_.symm
      rw [List.any_eq_false] at alive
      refine ⟨ds ++ [d], false, by simp, ?_, ?_, ?_, by simp⟩
      · rw [Bool.false_or, List.any_append, List.any_cons, List.any_nil, Bool.or_false,
          List.any_eq_false.mpr alive, Bool.false_or]
      · intro d' member
        rcases List.mem_append.mp member with earlier | now
        · exact calls d' earlier
        · rw [List.mem_singleton.mp now]
          exact called
      · intro d' member
        rw [List.dropLast_concat] at member
        simpa using alive d' member
  | refuse _ ih =>
      obtain ⟨ds, refused, rfl, open_, calls, inner, -⟩ := ih
      obtain ⟨rfl, alive⟩ := Bool.or_eq_false_iff.mp open_.symm
      rw [List.any_eq_false] at alive
      refine ⟨ds, true, by simp, by simp, calls, inner, fun _ d member => ?_⟩
      simpa using alive d member

/-! ## One turn -/

/-- A dispatch shows its block, and goes on if and only if the block leaves the connection
open. -/
theorem dispatch_block (httpCallback : HttpCallback σ) (conn : Conn σ)
    (connected : conn.connected = true) (running : conn.context.processingStopped = false) :
    ∃ d : Dispatch, d.req = conn.context.request ∧ d.From httpCallback ∧
      (dispatch httpCallback conn).1 = d.block ∧
      (dispatch httpCallback conn).2.context.processingStopped = d.terminal := by
  let called := httpCallback conn.app conn.context.request (initialResponse conn.context.request)
  refine ⟨⟨conn.context.request, outcomeOf conn.context.request called.result, called.hangUp⟩, rfl,
    ⟨conn.app, rfl, rfl⟩, ?_⟩
  have called_eq : httpCallback conn.app conn.context.request
      ((HttpResponse.new (closeRequested conn.context.request)).setVersion
        conn.context.request.version) = called := rfl
  unfold dispatch onRequest
  simp only [called_eq]
  clear_value called
  cases result : called.result with
  | error what => exact ⟨rfl, rfl⟩
  | ok response =>
      cases streams : response.streaming with
      | true => simp [outcomeOf, streams, Dispatch.block, Dispatch.terminal, Conn.discard,
          HttpContext.stopProcessing]
      | false =>
          simp only [outcomeOf, streams]
          generalize (if closeRequested conn.context.request = true then
            response.setCloseConnection true else response) = final
          cases closes : final.closeConnection with
          | true => simp [Dispatch.block, Dispatch.terminal, closes, Conn.discard,
              HttpContext.stopProcessing]
          | false =>
              cases hangUp : called.hangUp with
              | true => simp [Dispatch.block, Dispatch.terminal, closes, connected, Conn.discard,
                  HttpContext.stopProcessing]
              | false => simp [Dispatch.block, Dispatch.terminal, closes, connected, running,
                  HttpContext.reset]

/-- What ties a connection to its trace: it is served until a terminal event shows in the
trace or the connection goes. -/
structure Attended (httpCallback : HttpCallback σ) (tr : List Obs) (ended : Bool) (conn : Conn σ) :
    Prop where
  served : Served httpCallback tr ended
  stops : ended = true → conn.context.processingStopped = true
  reason : conn.context.processingStopped = true → ended = true ∨ conn.connected = false

theorem Attended.fresh (httpCallback : HttpCallback σ) (app : σ) :
    Attended httpCallback [] false (Conn.fresh app) where
  served := .start
  stops := fun ended => by cases ended
  reason := fun stopped => by cases stopped

/-- A turn shows nothing, or the block of one request, or the refusal. -/
theorem Attended.advance {tr out : List Obs} {conn conn' : Conn σ}
    (attended : ∃ ended, Attended httpCallback tr ended conn)
    (moves : Http.advance httpCallback conn = some (out, conn')) :
    ∃ ended', Attended httpCallback (tr ++ out) ended' conn' := by
  obtain ⟨ended, attended⟩ := attended
  unfold Http.advance at moves
  split at moves
  · next stopped =>
      split at moves <;> cases moves
      rw [List.append_nil]
      exact ⟨ended, attended.served, fun _ => stopped, attended.reason⟩
  next running =>
  have open_ : ended = false := by
    rw [Bool.eq_false_iff]
    exact fun ended => running (attended.stops ended)
  subst open_
  split at moves
  · next gone =>
      cases moves
      rw [List.append_nil]
      have gone' : conn.connected = false := by simpa using gone
      exact ⟨false, attended.served, nofun, fun _ => .inr gone'⟩
  next connected =>
  split at moves
  · have moved : dispatch httpCallback conn = (out, conn') := Option.some.inj moves
    obtain ⟨d, -, called, shows, stops⟩ := dispatch_block httpCallback conn
      (by simpa using connected) (by simpa using running)
    rw [moved] at shows stops
    dsimp only at shows stops
    subst shows
    exact ⟨d.terminal, .request d attended.served called, fun last => stops.trans last,
      fun stopped => .inl (stops.symm.trans stopped)⟩
  have stopped := HttpContext.parseIteration_stopped conn.context conn.buffer
  cases turn : conn.context.parseIteration conn.buffer with
  | again context buffer =>
      rw [turn] at moves stopped
      cases moves
      rw [List.append_nil]
      exact ⟨false, attended.served, nofun, fun halted => absurd (stopped.symm.trans halted) running⟩
  | done ok context buffer =>
      rw [turn] at moves stopped
      cases ok with
      | false =>
          cases moves
          exact ⟨true, .refuse attended.served, fun _ => rfl, fun _ => .inl rfl⟩
      | true =>
          dsimp only at moves
          split at moves <;> cases moves
          rw [List.append_nil]
          exact ⟨false, attended.served, nofun,
            fun halted => absurd (stopped.symm.trans halted) running⟩

/-! ## Connections that are no longer served -/

/-- The connection was stopped, or it is gone. -/
def Conn.Ended (conn : Conn σ) : Prop :=
  conn.context.processingStopped = true ∨ conn.connected = false

/-- Input for a connection that is no longer served is thrown away. -/
theorem onMessage_ended (httpCallback : HttpCallback σ) {conn : Conn σ} (ended : conn.Ended) (data : Bytes) :
    ∃ conn', onMessage httpCallback conn data = some ([], conn') ∧ conn'.buffer = [] ∧
      conn'.Ended := by
  cases stopped : conn.context.processingStopped with
  | true =>
      refine ⟨{ conn with buffer := [] }, ?_, rfl, .inl stopped⟩
      simp [onMessage, stopped]
  | false =>
      rcases ended with stopped' | gone
      · rw [stopped] at stopped'
        cases stopped'
      · refine ⟨(conn.feed data).discard, ?_, rfl, .inl rfl⟩
        simp [onMessage, messageLoop, stopped, gone, Conn.feed]

theorem serve_ended (httpCallback : HttpCallback σ) {conn : Conn σ} (ended : conn.Ended) (events : List Event) :
    ∃ conn', serve httpCallback conn events = some ([], conn') ∧ conn'.Ended ∧
      (conn.buffer = [] → conn'.buffer = []) ∧
      ((∃ data, .message data ∈ events) → conn'.buffer = []) := by
  induction events generalizing conn with
  | nil => exact ⟨conn, rfl, ended, id, by simp⟩
  | cons event rest ih =>
      cases event with
      | message data =>
          obtain ⟨conn', returned, cleared, ended'⟩ := onMessage_ended httpCallback ended data
          obtain ⟨conn'', returned', ended'', keeps, -⟩ := ih ended'
          refine ⟨conn'', ?_, ended'', fun _ => keeps cleared, fun _ => keeps cleared⟩
          simp [serve, Conn.react, returned, returned']
      | disconnected =>
          have gone : Conn.Ended { conn with connected := false } := .inr rfl
          obtain ⟨conn'', returned', ended'', keeps, clears⟩ := ih gone
          refine ⟨conn'', ?_, ended'', keeps, ?_⟩
          · simp [serve, Conn.react, returned']
          · simpa using clears

/-! ## The protocol -/

theorem advance_gone {conn conn' : Conn σ} {out : List Obs} (gone : conn.connected = false)
    (moves : advance httpCallback conn = some (out, conn')) : conn'.connected = false := by
  unfold advance at moves
  split at moves
  · split at moves <;> cases moves
    exact gone
  · rw [if_pos (by simp [gone])] at moves
    cases moves
    exact gone

/-- Every event is dealt with, and the trace keeps its shape. -/
theorem serve_attended (httpCallback : HttpCallback σ) {conn : Conn σ} {tr : List Obs}
    {ended : Bool} (events : List Event) (attended : Attended httpCallback tr ended conn)
    (resting : conn.Resting) : ∃ out ended' conn', serve httpCallback conn events = some (out, conn') ∧
      Attended httpCallback (tr ++ out) ended' conn' ∧
      (conn.connected = false ∨ .disconnected ∈ events → conn'.connected = false) := by
  induction events generalizing conn tr ended with
  | nil => exact ⟨[], ended, conn, rfl, by simpa using attended, by simp⟩
  | cons event rest ih =>
      cases event with
      | message data =>
          obtain ⟨out, conn', returned, run, resting'⟩ := onMessage_settles httpCallback data resting
          have fed : Attended httpCallback tr ended (conn.feed data) := { attended with }
          obtain ⟨ended', attended'⟩ := run.invariant
            (I := fun tr conn => ∃ ended, Attended httpCallback tr ended conn)
            Attended.advance tr ⟨ended, fed⟩
          obtain ⟨later, ended'', conn'', returned', attended'', gone''⟩ := ih attended' resting'
          have stays : conn.connected = false → conn'.connected = false := fun gone =>
            run.invariant (I := fun _ conn => conn.connected = false) advance_gone [] gone
          refine ⟨out ++ later, ended'', conn'', ?_, ?_, ?_⟩
          · simp [serve, Conn.react, returned, returned']
          · rwa [← List.append_assoc]
          · rintro (gone | member)
            · exact gone'' (.inl (stays gone))
            · exact gone'' (.inr (by simpa using member))
      | disconnected =>
          have hungUp : Attended httpCallback tr ended { conn with connected := false } :=
            ⟨attended.served, attended.stops, fun _ => .inr rfl⟩
          obtain ⟨later, ended'', conn'', returned', attended'', gone''⟩ := ih hungUp resting
          refine ⟨later, ended'', conn'', ?_, attended'', fun _ => gone'' (.inl rfl)⟩
          simp [serve, Conn.react, returned']

/-- A terminal event of a connection: a request that was its last, malformed input, or the
loss of the connection. -/
def Terminal (tr : List Obs) (events : List Event) : Prop :=
  (∃ d, .dispatched d ∈ tr ∧ d.terminal = true) ∨ .malformed ∈ tr ∨ .disconnected ∈ events

theorem mem_block {d d' : Dispatch} (member : .dispatched d ∈ d'.block) : d = d' := by
  unfold Dispatch.block at member
  split at member
  · split at member <;> simpa using member
  · simpa using member
  · simpa using member

theorem malformed_not_mem_block (d : Dispatch) : .malformed ∉ d.block := by
  unfold Dispatch.block
  split
  · split <;> simp
  · simp
  · simp

/-- A terminal event in the trace ends the service. -/
theorem Served.over_of_terminal {tr : List Obs} {ended : Bool}
    (served : Served httpCallback tr ended)
    (terminal : (∃ d, .dispatched d ∈ tr ∧ d.terminal = true) ∨ .malformed ∈ tr) : ended = true := by
  obtain ⟨ds, refused, rfl, rfl, -, -, -⟩ := served.spelled
  rcases terminal with ⟨d, member, last⟩ | member
  · rcases List.mem_append.mp member with block | refusal
    · obtain ⟨d', among, inside⟩ := List.mem_flatMap.mp block
      cases mem_block inside
      rw [List.any_eq_true.mpr ⟨d, among, last⟩, Bool.or_true]
    · split at refusal <;> simp [Http.refusal] at refusal
  · rcases List.mem_append.mp member with block | refusal
    · obtain ⟨d, -, inside⟩ := List.mem_flatMap.mp block
      exact absurd inside (malformed_not_mem_block d)
    · split at refusal
      · next refused => rw [refused, Bool.true_or]
      · cases refusal

/-- For every callback and every sequence of events: the server writes one block for each
dispatched request, in order, and at most one refusal behind them; after a terminal event it
dispatches and writes nothing more, and what arrives is discarded.  Under the default
`handleRequest` no request is answered by the fixed 400. -/
theorem connection_protocol (httpCallback : HttpCallback σ) (app : σ) (events : List Event) :
    ∃ tr conn, serve httpCallback (.fresh app) events = some (tr, conn) ∧
      (∃ (ds : List Dispatch) (refused : Bool),
        tr = ds.flatMap Dispatch.block ++ (if refused then refusal else []) ∧
        (∀ d ∈ ds, d.From httpCallback) ∧
        (∀ d ∈ ds.dropLast, d.terminal = false) ∧
        (refused = true → ∀ d ∈ ds, d.terminal = false) ∧
        ∀ routes, httpCallback = handleRequest routes →
          ∀ d ∈ ds, ∀ what, d.outcome ≠ .threw what) ∧
      (Terminal tr events → ∀ later, ∃ conn', serve httpCallback conn later = some ([], conn') ∧
        ((∃ data, .message data ∈ later) → conn'.buffer = [])) := by
  obtain ⟨tr, ended, conn, served, attended, gone⟩ :=
    serve_attended httpCallback events (.fresh httpCallback app) (Conn.fresh_resting app)
  obtain ⟨ds, refused, shape, -, calls, inner, open_⟩ := attended.served.spelled
  refine ⟨tr, conn, served, ⟨ds, refused, shape, calls, inner, open_, ?_⟩,
    fun terminal later => ?_⟩
  · rintro routes rfl d member what
    exact handleRequest_catches (calls d member) what
  have ended : conn.Ended := by
    rcases terminal with last | malformed | lost
    · exact .inl (attended.stops (attended.served.over_of_terminal (.inl last)))
    · exact .inl (attended.stops (attended.served.over_of_terminal (.inr malformed)))
    · exact .inr (gone (.inr lost))
  obtain ⟨conn', returned, -, -, clears⟩ := serve_ended httpCallback ended later
  exact ⟨conn', returned, clears⟩

end AIService.Http
