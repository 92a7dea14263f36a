import AIService.Http.Protocol
import AIService.Run

/-!
# Where a connection may be in its two loops

A `Point` is a place in `onMessage`: its loop, the loop of `parseRequest` inside it, or the
return of `parseRequest`.  `Point.turn` is one iteration as the code makes it, without any
guard of its own, so that a parser entered in the state `gotAll` would turn forever.  That it
never is, and that every call returns, is an invariant of the points and a measure on them.
-/

namespace AIService.Http

variable {σ : Type} {httpCallback : HttpCallback σ}

inductive Point (σ : Type)
  /-- No call is running. -/
  | resting (conn : Conn σ)
  /-- The condition of the loop of `onMessage`. -/
  | loop (conn : Conn σ)
  /-- The condition of the loop of `parseRequest`. -/
  | parsing (conn : Conn σ)
  /-- `parseRequest` returned `ok`. -/
  | parsed (ok : Bool) (conn : Conn σ)

/-- A call of `onMessage`, with these bytes in the buffer it reads. -/
def Point.enter (conn : Conn σ) (buffer : Bytes) : Point σ :=
  if conn.context.processingStopped then .resting { conn with buffer := [] }
  else .loop { conn with buffer := buffer }

/-- To the next point of a running call. -/
def Point.turn (httpCallback : HttpCallback σ) : Point σ → Option (List Obs × Point σ)
  | .resting _ => none
  | .loop conn =>
      if conn.connected && 0 < conn.buffer.length then some ([], .parsing conn)
      else if !conn.connected then some ([], .resting conn.discard)
      else some ([], .resting conn)
  | .parsing conn =>
      match conn.context.parseIteration conn.buffer with
      | .again context buffer => some ([], .parsing { conn with context := context, buffer := buffer })
      | .done ok context buffer =>
          some ([], .parsed ok { conn with context := context, buffer := buffer })
  | .parsed false conn =>
      some ([.malformed, .sent badRequest, .shutdown],
        .resting { conn with connected := false }.discard)
  | .parsed true conn =>
      if !conn.context.gotAll then some ([], .resting conn)
      else
        match onRequest httpCallback conn conn.context.request with
        | (out, .threw, conn) =>
            some (out ++ [.sent badRequest, .shutdown],
              .resting { conn with connected := false }.discard)
        | (out, .canContinue false, conn) =>
            some (out, .resting { conn with context := conn.context.reset }.discard)
        | (out, .canContinue true, conn) =>
            some (out, .loop { conn with context := conn.context.reset })

/-- What can happen to a connection: a call begins, with anything in the buffer, it takes a
turn, or the peer goes while no call is running. -/
inductive Point.Step (httpCallback : HttpCallback σ) : Point σ → List Obs → Point σ → Prop
  | call {conn : Conn σ} (buffer : Bytes) :
    Point.Step httpCallback (.resting conn) [] (.enter conn buffer)
  | turn {p p' : Point σ} {out : List Obs} :
    p.turn httpCallback = some (out, p') → Point.Step httpCallback p out p'
  | disconnected {conn : Conn σ} :
    Point.Step httpCallback (.resting conn) [] (.resting { conn with connected := false })

/-! ## The invariant -/

/-- The parser may be entered: it has a request to finish, and has set no method before the
request line. -/
structure HttpContext.Ready (context : HttpContext) : Prop where
  valid : context.Valid
  unfinished : context.state ≠ .gotAll
  methodless : context.state = .expectRequestLine → context.request.method = .invalid

/-- A context that was reset. -/
theorem HttpContext.reset_ready (context : HttpContext) : context.reset.Ready where
  valid := nofun
  unfinished := nofun
  methodless _ := rfl

/-- What holds of the context at every point. -/
def Point.Sound : Point σ → Prop
  | .resting conn => conn.context.processingStopped = true ∨ conn.context.Ready
  | .loop conn => conn.context.Ready
  | .parsing conn => conn.context.Ready
  | .parsed ok conn => ok = true → conn.context.state ≠ .gotAll → conn.context.Ready

/-- A turn of the parser that goes on has read the request line. -/
theorem HttpContext.Ready.again {context context' : HttpContext} {buffer buffer' : Bytes}
    (ready : context.Ready) (goesOn : context.parseIteration buffer = .again context' buffer') :
    context'.Ready := by
  obtain ⟨-, unfinished, valid⟩ := parseIteration_again ready.unfinished goesOn
  refine ⟨valid, unfinished, fun start => ?_⟩
  unfold parseIteration at goesOn
  cases state : context.state with
  | expectRequestLine =>
      simp only [state] at goesOn
      split at goesOn
      · cases goesOn
      · split at goesOn <;> cases goesOn
        cases start
  | expectHeaders =>
      simp only [state] at goesOn
      split at goesOn
      · cases goesOn
      · split at goesOn
        · split at goesOn <;> cases goesOn
          cases start
        · split at goesOn
          · split at goesOn
            · cases goesOn
            · split at goesOn <;> cases goesOn
              next body =>
                subst body
                cases start
          · cases goesOn
  | expectBody =>
      simp only [state] at goesOn
      split at goesOn <;> cases goesOn
  | gotAll => exact absurd state ready.unfinished

/-- A parser that waits is as it was. -/
theorem HttpContext.Ready.waits {context context' : HttpContext} {buffer buffer' : Bytes}
    (ready : context.Ready)
    (returned : context.parseIteration buffer = .done true context' buffer')
    (unfinished : context'.state ≠ .gotAll) : context'.Ready := by
  obtain ⟨rfl, -⟩ := parseIteration_waits returned unfinished
  exact ready

theorem Point.Sound.turn {p p' : Point σ} {out : List Obs} (sound : p.Sound)
    (moves : p.turn httpCallback = some (out, p')) : p'.Sound := by
  cases p with
  | resting => cases moves
  | loop conn =>
      rw [Point.turn] at moves
      split at moves
      · cases moves
        exact sound
      · split at moves <;> cases moves
        · exact .inl rfl
        · exact .inr sound
  | parsing conn =>
      rw [Point.turn] at moves
      split at moves <;> cases moves
      · next goesOn => exact HttpContext.Ready.again sound goesOn
      · next returned =>
          intro ok unfinished
          subst ok
          exact HttpContext.Ready.waits sound returned unfinished
  | parsed ok conn =>
      cases ok with
      | false =>
          cases moves
          exact .inl rfl
      | true =>
          rw [Point.turn] at moves
          split at moves
          · next unfinished =>
              cases moves
              exact .inr (sound rfl (by simpa [HttpContext.gotAll] using unfinished))
          · split at moves <;> cases moves
            · exact .inl rfl
            · exact .inl rfl
            · exact HttpContext.reset_ready _

theorem Point.Sound.step {p p' : Point σ} {out : List Obs} (sound : p.Sound)
    (step : Point.Step httpCallback p out p') : p'.Sound := by
  cases step with
  | @call conn buffer =>
      unfold Point.enter
      split
      · next stopped => exact .inl stopped
      · next running => exact sound.resolve_left running
  | turn moves => exact sound.turn moves
  | disconnected => exact sound

/-! ## Termination -/

/-- The unread bytes, and then the place. -/
def Point.measure : Point σ → Nat × Nat
  | .resting conn => (conn.buffer.length, 0)
  | .loop conn => (conn.buffer.length, 3)
  | .parsing conn => (conn.buffer.length, 2)
  | .parsed ok conn => (conn.buffer.length, if ok && conn.context.gotAll then 4 else 1)

/-- A smaller pair, the unread bytes first. -/
abbrev Before : Nat × Nat → Nat × Nat → Prop := Prod.Lex (· < ·) (· < ·)

theorem before_wf : WellFounded Before := (Prod.lex Nat.lt_wfRel Nat.lt_wfRel).wf

theorem before_of_le {a b m n : Nat} (le : a ≤ b) (less : m < n) : Before (a, m) (b, n) := by
  rcases Nat.lt_or_eq_of_le le with fewer | rfl
  · exact .left _ _ fewer
  · exact .right _ less

/-- A turn that returns leaves no more bytes than it found. -/
theorem HttpContext.parseIteration_done {context context' : HttpContext} {buffer buffer' : Bytes}
    {ok : Bool} (returned : context.parseIteration buffer = .done ok context' buffer') :
    buffer'.length ≤ buffer.length := by
  have dropped (n : Nat) : (buffer.drop n).length ≤ buffer.length := by
    rw [List.length_drop]
    omega
  unfold parseIteration at returned
  split at returned
  · split at returned
    · cases returned
      exact Nat.le_refl _
    · split at returned <;> cases returned
      exact Nat.le_refl _
  · split at returned
    · cases returned
      exact Nat.le_refl _
    · split at returned
      · split at returned <;> cases returned
        exact Nat.le_refl _
      · split at returned
        · split at returned
          · cases returned
            exact Nat.le_refl _
          · split at returned <;> cases returned
            exact dropped _
        · cases returned
          exact dropped _
  · split at returned <;> cases returned
    · exact Nat.le_refl _
    · exact dropped _
  · cases returned

/-- Every iteration of the two loops consumes input, gets further in the call, or ends it. -/
theorem Point.Sound.decreases {p p' : Point σ} {out : List Obs} (sound : p.Sound)
    (moves : p.turn httpCallback = some (out, p')) : Before p'.measure p.measure := by
  cases p with
  | resting => cases moves
  | loop conn =>
      rw [Point.turn] at moves
      split at moves
      · cases moves
        exact .right _ (by decide)
      · split at moves <;> cases moves
        · exact before_of_le (Nat.zero_le _) (by decide)
        · exact .right _ (by decide)
  | parsing conn =>
      have ready : conn.context.Ready := sound
      rw [Point.turn] at moves
      split at moves <;> cases moves
      · next goesOn =>
          exact .left _ _ (HttpContext.parseIteration_again ready.unfinished goesOn).1
      · next ok context buffer returned =>
          have fewer := HttpContext.parseIteration_done returned
          cases complete : ok && context.gotAll with
          | false =>
              have place : (Point.parsed ok { conn with context := context, buffer := buffer }).measure
                  = (buffer.length, 1) := by simp [Point.measure, complete]
              rw [place]
              exact before_of_le fewer (by decide)
          | true =>
              simp only [Bool.and_eq_true] at complete
              obtain ⟨rfl, finished⟩ := complete
              exact .left _ _ (HttpContext.parseIteration_complete ready.valid ready.unfinished
                returned (by simpa [HttpContext.gotAll] using finished))
  | parsed ok conn =>
      cases ok with
      | false =>
          cases moves
          exact before_of_le (Nat.zero_le _) (by simp)
      | true =>
          rw [Point.turn] at moves
          split at moves
          · next unfinished =>
              cases moves
              exact .right _ (by split <;> decide)
          · next finished =>
              have place : (Point.parsed true conn).measure = (conn.buffer.length, 4) := by
                simpa [Point.measure] using finished
              have frame := onRequest_frame httpCallback conn conn.context.request
              rw [place]
              split at moves <;> cases moves
              · exact before_of_le (Nat.zero_le _) (by decide)
              · exact before_of_le (Nat.zero_le _) (by decide)
              · next same =>
                  rw [same] at frame
                  exact before_of_le (Nat.le_of_eq (congrArg List.length frame.2)) (by decide)

/-- A call comes to its end. -/
theorem Point.Sound.returns {p : Point σ} (sound : p.Sound) :
    ∃ out conn, Settles (Point.turn httpCallback) p out (.resting conn) := by
  induction measured : p.measure using before_wf.induction generalizing p with
  | _ m ih =>
      cases moves : p.turn httpCallback with
      | none =>
          cases p with
          | resting conn => exact ⟨[], conn, .quiet rfl⟩
          | loop conn =>
              rw [Point.turn] at moves
              split at moves
              · cases moves
              · split at moves <;> cases moves
          | parsing conn =>
              rw [Point.turn] at moves
              split at moves <;> cases moves
          | parsed ok conn =>
              cases ok with
              | false => cases moves
              | true =>
                  rw [Point.turn] at moves
                  split at moves
                  · cases moves
                  · split at moves <;> cases moves
      | some moved =>
          obtain ⟨out, p'⟩ := moved
          obtain ⟨later, conn, run⟩ := ih _ (measured ▸ sound.decreases moves) (sound.turn moves) rfl
          exact ⟨out ++ later, conn, .step moves run⟩

/-! ## The points are those of `onMessage` -/

/-- The loop of `parseRequest`, up to its return. -/
theorem parseLoop_turns {fuel : Nat} {conn : Conn σ} {ok : Bool} {context : HttpContext}
    {buffer : Bytes} {out : List Obs} {p : Point σ}
    (returned : HttpContext.parseLoop fuel conn.context conn.buffer = some (ok, context, buffer))
    (later : Settles (Point.turn httpCallback)
      (.parsed ok { conn with context := context, buffer := buffer }) out p) :
    Settles (Point.turn httpCallback) (.parsing conn) out p := by
  induction fuel generalizing conn with
  | zero => cases returned
  | succ fuel ih =>
      rw [HttpContext.parseLoop] at returned
      split at returned
      · next context' buffer' goesOn =>
          have moves : (Point.parsing conn).turn httpCallback =
              some ([], .parsing { conn with context := context', buffer := buffer' }) := by
            rw [Point.turn, goesOn]
          have inner : Settles (Point.turn httpCallback)
              (.parsing { conn with context := context', buffer := buffer' }) out p :=
            ih returned later
          exact .silent moves inner
      · next ok' context' buffer' done =>
          cases returned
          have moves : (Point.parsing conn).turn httpCallback =
              some ([], .parsed ok { conn with context := context, buffer := buffer }) := by
            rw [Point.turn, done]
          exact .silent moves later

/-- A complete request is dispatched. -/
theorem Point.turn_complete (httpCallback : HttpCallback σ) {conn : Conn σ}
    (whole : conn.context.gotAll = true) :
    (Point.parsed true conn).turn httpCallback =
      match onRequest httpCallback conn conn.context.request with
      | (out, .threw, conn) =>
          some (out ++ [.sent badRequest, .shutdown],
            .resting { conn with connected := false }.discard)
      | (out, .canContinue false, conn) =>
          some (out, .resting { conn with context := conn.context.reset }.discard)
      | (out, .canContinue true, conn) =>
          some (out, .loop { conn with context := conn.context.reset }) := by
  rw [Point.turn, if_neg (by simp [whole])]

/-- The loop of `onMessage`, up to its return. -/
theorem messageLoop_turns {fuel : Nat} {conn conn' : Conn σ} {out : List Obs}
    (returned : messageLoop httpCallback fuel conn = some (out, conn')) :
    Settles (Point.turn httpCallback) (.loop conn) out (.resting conn') := by
  induction fuel generalizing conn out with
  | zero => cases returned
  | succ fuel ih =>
      rw [messageLoop] at returned
      split at returned
      case isFalse idle =>
        have waits : (Point.loop conn).turn httpCallback = if !conn.connected then
            some ([], .resting conn.discard) else some ([], .resting conn) := by
          rw [Point.turn, if_neg idle]
        split at returned <;> cases returned
        · next gone =>
            rw [if_pos gone] at waits
            exact .silent waits (.quiet rfl)
        · next connected =>
            rw [if_neg connected] at waits
            exact .silent waits (.quiet rfl)
      case isTrue busy =>
        have enters : (Point.loop conn).turn httpCallback = some ([], .parsing conn) := by
          rw [Point.turn, if_pos busy]
        apply Settles.silent enters
        split at returned
        · cases returned
        · next context buffer parsed =>
            cases returned
            exact parseLoop_turns parsed (.last rfl rfl)
        · next context buffer parsed =>
            apply parseLoop_turns parsed
            split at returned
            · next partial_ =>
                cases returned
                have moves : (Point.parsed true
                    { conn with context := context, buffer := buffer }).turn httpCallback =
                      some ([], .resting { conn with context := context, buffer := buffer }) := by
                  rw [Point.turn, if_pos partial_]
                exact .silent moves (.quiet rfl)
            · next whole =>
                have complete : context.gotAll = true := by simpa using whole
                have dispatches : (Point.parsed true
                    { conn with context := context, buffer := buffer }).turn httpCallback = _ :=
                  Point.turn_complete httpCallback complete
                dsimp only at returned dispatches
                split at returned
                · next threw =>
                    cases returned
                    rw [threw] at dispatches
                    exact .last dispatches rfl
                · next stops =>
                    cases returned
                    rw [stops] at dispatches
                    exact .last dispatches rfl
                · next goesOn =>
                    obtain ⟨later, inner, same⟩ := Option.map_eq_some_iff.mp returned
                    cases same
                    rw [goesOn] at dispatches
                    exact .step dispatches (ih inner)

theorem onMessage_turns {conn conn' : Conn σ} {data : Bytes} {out : List Obs}
    (returned : onMessage httpCallback conn data = some (out, conn')) :
    Settles (Point.turn httpCallback) (.enter conn (conn.buffer ++ data)) out
      (.resting conn') := by
  rw [onMessage] at returned
  unfold Point.enter
  split at returned
  · next stopped =>
      cases returned
      rw [if_pos stopped]
      exact .quiet rfl
  · next running =>
      rw [if_neg running]
      exact messageLoop_turns returned

/-! ## Every run -/

/-- At this point `processRequestLine` calls `setMethod` on `request`: the parser expects a
request line, and the line is there and has a space in it. -/
def Point.SetsMethod (p : Point σ) (request : HttpRequest) : Prop :=
  ∃ (conn : Conn σ) (length : Nat) (parts : Bytes × Bytes), p = .parsing conn ∧
    conn.context.request = request ∧ conn.context.state = .expectRequestLine ∧
    findCRLF conn.buffer = some length ∧ cut 32 (conn.buffer.take length) = some parts

/-- Whatever is called on a connection, with whatever in its buffer: `parseRequest` is not
entered, nor its loop continued, in the state `gotAll`; `setMethod` finds the method unset;
every iteration makes the measure smaller, so that every call returns; and `onMessage`
returns what the points come to. -/
theorem connection_terminates (httpCallback : HttpCallback σ) (app : σ) {tr : List Obs}
    {p : Point σ} (run : Run (Point.Step httpCallback) (.resting (.fresh app)) tr p) :
    (∀ conn, p = .parsing conn → conn.context.state ≠ .gotAll) ∧
      (∀ request, p.SetsMethod request → request.method = .invalid) ∧
      (∀ out p', p.turn httpCallback = some (out, p') → Before p'.measure p.measure) ∧
      (∃ out conn, Settles (Point.turn httpCallback) p out (.resting conn)) ∧
      ∀ conn data, p = .resting conn → ∃ out conn',
        onMessage httpCallback conn data = some (out, conn') ∧
          Settles (Point.turn httpCallback) (.enter conn (conn.buffer ++ data)) out
            (.resting conn') := by
  have sound : p.Sound := run.invariant (I := fun p _ => p.Sound)
    (.inr (HttpContext.reset_ready {})) fun sound step => sound.step step
  refine ⟨?_, ?_, fun out p' moves => sound.decreases moves, sound.returns, ?_⟩
  · rintro conn rfl
    exact HttpContext.Ready.unfinished sound
  · rintro request ⟨conn, length, parts, rfl, rfl, start, -⟩
    exact HttpContext.Ready.methodless sound start
  · rintro conn data rfl
    have resting : conn.Resting := sound.imp_right fun ready => ⟨ready.valid, ready.unfinished⟩
    obtain ⟨out, conn', returned, -⟩ := onMessage_settles httpCallback data resting
    exact ⟨out, conn', returned, onMessage_turns returned⟩

/-- The callback leaves the response as it is. -/
def leaveResponse : HttpCallback Unit := fun app _ resp => { result := .ok resp, app := app }

/-- A request line that sets a method and is refused for its version, the second call already
finding the connection stopped. -/
theorem connection_terminates_bad_version :
    ∃ (tr : List Obs) (p : Point Unit) (out : List Obs) (conn : Conn Unit),
      Run (Point.Step leaveResponse) (.resting (.fresh ())) tr p ∧
        p.SetsMethod {} ∧ Settles (Point.turn leaveResponse) p out (.resting conn) := by
  let conn : Conn Unit := { Conn.fresh () with buffer := bytes "GET / HTTP/2.0" ++ crlf }
  have run : Run (Point.Step leaveResponse) (.resting (.fresh ())) _ (.parsing conn) :=
    .tail (.single (.call (bytes "GET / HTTP/2.0" ++ crlf))) (.turn rfl)
  obtain ⟨-, -, -, ⟨out, rest, settles⟩, -⟩ := connection_terminates leaveResponse () run
  exact ⟨_, _, out, rest, run, ⟨conn, _, _, rfl, rfl, rfl, rfl, rfl⟩, settles⟩

end AIService.Http
