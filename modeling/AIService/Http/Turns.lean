import AIService.Http.Server
import AIService.Settle
import Mathlib.Order.Nat

/-!
# A connection, one turn at a time

`advance` takes the two nested loops of `onMessage` apart: one turn of the parser, one
dispatch, or one clearing of the buffer.  `onMessage_settles` shows that `onMessage` is
this machine run until it waits for input, and in particular that it returns.
`advance_resumable` shows that a turn only depends on the bytes it consumes.
-/

namespace AIService.Http

/-! ## Turns of the parser -/

theorem findCRLF_le {buffer : Bytes} {length : Nat} (found : findCRLF buffer = some length) :
    length + 2 ≤ buffer.length := by
  induction buffer generalizing length with
  | nil => cases found
  | cons b rest ih =>
      rw [findCRLF] at found
      split at found
      · next here =>
          cases found
          cases rest with
          | nil => cases here.2
          | cons => simp
      · obtain ⟨before, inner, rfl⟩ := Option.map_eq_some_iff.mp found
        have inside := ih inner
        rw [List.length_cons]
        omega

theorem findCRLF_append {buffer : Bytes} {length : Nat} (found : findCRLF buffer = some length)
    (more : Bytes) : findCRLF (buffer ++ more) = some length := by
  induction buffer generalizing length with
  | nil => cases found
  | cons b rest ih =>
      rw [findCRLF] at found
      rw [List.cons_append, findCRLF]
      split at found
      · next here =>
          cases rest with
          | nil => cases here.2
          | cons c rest =>
              rw [if_pos ⟨here.1, here.2⟩]
              exact found
      · next away =>
          obtain ⟨before, inner, rfl⟩ := Option.map_eq_some_iff.mp found
          have nonempty : rest ≠ [] := by
            rintro rfl
            cases inner
          rw [if_neg, ih inner]
          · rfl
          · rwa [List.head?_append_of_ne_nil _ nonempty]

/-- More input behind a line leaves the line as it is. -/
theorem line_append {buffer : Bytes} {length : Nat} (found : findCRLF buffer = some length) (more : Bytes) :
    findCRLF (buffer ++ more) = some length ∧ (buffer ++ more).take length = buffer.take length ∧
      (buffer ++ more).drop (length + 2) = buffer.drop (length + 2) ++ more := by
  have inside := findCRLF_le found
  exact ⟨findCRLF_append found more, List.take_append_of_le_length (by omega),
    List.drop_append_of_le_length inside⟩

/-- A context that waits for a body waits for at least one byte. -/
def HttpContext.Valid (context : HttpContext) : Prop :=
  context.state = .expectBody → 0 < context.request.contentLength

namespace HttpContext

variable {context context' : HttpContext} {buffer buffer' : Bytes} {ok : Bool}

/-- What a turn makes of more input behind the input it saw. -/
def Turn.feed (more : Bytes) : Turn → Turn
  | .again context buffer => .again context (buffer ++ more)
  | .done ok context buffer => .done ok context (buffer ++ more)

/-- The turn did not just find that there is not enough input. -/
def Turn.decided : Turn → Bool
  | .again .. => true
  | .done ok context _ => !ok || context.gotAll

theorem endHead_state {request request' : HttpRequest} {state : ParseState}
    (ended : endHead request = some (state, request')) :
    (state = .gotAll) ∨ (state = .expectBody ∧ 0 < request'.contentLength) := by
  unfold endHead at ended
  split at ended
  · cases ended
  split at ended
  · split at ended
    · cases ended
    · next length _ =>
        obtain ⟨rfl, rfl⟩ := Prod.mk.inj (Option.some.inj ended)
        rcases Nat.eq_zero_or_pos length with rfl | positive
        · exact .inl rfl
        · rw [if_pos positive]
          exact .inr ⟨rfl, positive⟩
  · split at ended
    · cases ended
    · obtain ⟨rfl, -⟩ := Prod.mk.inj (Option.some.inj ended)
      exact .inl rfl

/-- A decided turn does not depend on the input behind. -/
theorem parseIteration_feed (more : Bytes) (decided : (parseIteration context buffer).decided) :
    parseIteration context (buffer ++ more) = (parseIteration context buffer).feed more := by
  unfold parseIteration at decided ⊢
  cases state : context.state with
  | expectRequestLine =>
      simp only [state] at decided ⊢
      cases found : findCRLF buffer with
      | none => simp [found, Turn.decided, gotAll, state] at decided
      | some length =>
          obtain ⟨found', line, rest⟩ := line_append found more
          simp only [found', line, rest]
          split <;> rfl
  | expectHeaders =>
      simp only [state] at decided ⊢
      cases found : findCRLF buffer with
      | none => simp [found, Turn.decided, gotAll, state] at decided
      | some length =>
          obtain ⟨found', line, rest⟩ := line_append found more
          simp only [found', line, rest]
          split
          · split <;> rfl
          · split
            · split
              · rfl
              · split <;> rfl
            · rfl
  | expectBody =>
      simp only [state] at decided ⊢
      split at decided
      · simp [Turn.decided, gotAll, state] at decided
      · next enough =>
          have inside : context.request.contentLength ≤ buffer.length := Nat.le_of_not_lt enough
          rw [if_neg enough, if_neg (by rw [List.length_append]; omega),
            List.take_append_of_le_length inside, List.drop_append_of_le_length inside]
          rfl
  | gotAll => rfl

/-- A turn that waits for input changes nothing. -/
theorem parseIteration_waits (waits : parseIteration context buffer = .done true context' buffer')
    (unfinished : context'.state ≠ .gotAll) : context' = context ∧ buffer' = buffer := by
  unfold parseIteration at waits
  cases state : context.state with
  | expectRequestLine =>
      simp only [state] at waits
      split at waits
      · cases waits
        exact ⟨rfl, rfl⟩
      · split at waits <;> cases waits
  | expectHeaders =>
      simp only [state] at waits
      split at waits
      · cases waits
        exact ⟨rfl, rfl⟩
      · split at waits
        · split at waits <;> cases waits
        · split at waits
          · split at waits
            · cases waits
            · next ended =>
                rcases endHead_state ended with finished | ⟨body, -⟩
                · subst finished
                  rw [if_neg (by decide)] at waits
                  cases waits
                  exact absurd rfl unfinished
                · rw [if_pos body] at waits
                  cases waits
          · cases waits
  | expectBody =>
      simp only [state] at waits
      split at waits
      · cases waits
        exact ⟨rfl, rfl⟩
      · cases waits
        exact absurd rfl unfinished
  | gotAll =>
      simp only [state] at waits
      cases waits

/-- The context a turn leaves. -/
def Turn.left : Turn → HttpContext
  | .again context _ | .done _ context _ => context

/-- The parser does not look at the flag of the connection. -/
theorem parseIteration_stopped (context : HttpContext) (buffer : Bytes) :
    (parseIteration context buffer).left.processingStopped = context.processingStopped := by
  unfold parseIteration
  split
  · split
    · rfl
    · split <;> rfl
  · split
    · rfl
    · split
      · split <;> rfl
      · split
        · split
          · rfl
          · split <;> rfl
        · rfl
  · split <;> rfl
  · rfl

/-- A turn that goes on has consumed input and leaves a request to be finished. -/
theorem parseIteration_again (unfinished : context.state ≠ .gotAll)
    (goesOn : parseIteration context buffer = .again context' buffer') :
    buffer'.length < buffer.length ∧ context'.state ≠ .gotAll ∧ context'.Valid := by
  unfold parseIteration at goesOn
  cases state : context.state with
  | expectRequestLine =>
      simp only [state] at goesOn
      split at goesOn
      · cases goesOn
      · next found =>
          have inside := findCRLF_le found
          split at goesOn <;> cases goesOn
          refine ⟨?_, by simp, by simp [Valid]⟩
          rw [List.length_drop]
          omega
  | expectHeaders =>
      simp only [state] at goesOn
      split at goesOn
      · cases goesOn
      · next found =>
          have inside := findCRLF_le found
          split at goesOn
          · split at goesOn <;> cases goesOn
            refine ⟨?_, by simp, by simp [Valid]⟩
            rw [List.length_drop]
            omega
          · split at goesOn
            · split at goesOn
              · cases goesOn
              · next ended =>
                  split at goesOn <;> cases goesOn
                  next body =>
                    subst body
                    refine ⟨?_, by simp, fun _ => ?_⟩
                    · rw [List.length_drop]
                      omega
                    · rcases endHead_state ended with finished | ⟨-, positive⟩
                      · cases finished
                      · exact positive
            · cases goesOn
  | expectBody =>
      simp only [state] at goesOn
      split at goesOn <;> cases goesOn
  | gotAll => exact absurd state unfinished

/-- A turn that completes a request has consumed input. -/
theorem parseIteration_complete (valid : context.Valid) (unfinished : context.state ≠ .gotAll)
    (complete : parseIteration context buffer = .done true context' buffer')
    (finished : context'.state = .gotAll) : buffer'.length < buffer.length := by
  unfold parseIteration at complete
  cases state : context.state with
  | expectRequestLine =>
      simp only [state] at complete
      split at complete
      · cases complete
        exact absurd finished unfinished
      · split at complete <;> cases complete
  | expectHeaders =>
      simp only [state] at complete
      split at complete
      · cases complete
        exact absurd finished unfinished
      · next found =>
          have inside := findCRLF_le found
          split at complete
          · split at complete <;> cases complete
          · split at complete
            · split at complete
              · cases complete
              · split at complete <;> cases complete
                rw [List.length_drop]
                omega
            · cases complete
  | expectBody =>
      simp only [state] at complete
      have positive := valid state
      split at complete
      · cases complete
        exact absurd finished unfinished
      · cases complete
        rw [List.length_drop]
        omega
  | gotAll => exact absurd state unfinished

/-- Without input the parser waits. -/
theorem parseIteration_nil (valid : context.Valid) (unfinished : context.state ≠ .gotAll) :
    parseIteration context [] = .done true context [] := by
  unfold parseIteration
  cases state : context.state with
  | expectRequestLine => rfl
  | expectHeaders => rfl
  | expectBody => exact if_pos (valid state)
  | gotAll => exact absurd state unfinished

end HttpContext

/-! ## Turns of a connection -/

variable {σ : Type} {httpCallback : HttpCallback σ}

/-- More input arrives in the buffer. -/
def Conn.feed (conn : Conn σ) (data : Bytes) : Conn σ := { conn with buffer := conn.buffer ++ data }

/-- A complete request is dispatched. -/
def dispatch (httpCallback : HttpCallback σ) (conn : Conn σ) : List Obs × Conn σ :=
  match onRequest httpCallback conn conn.context.request with
  | (out, .threw, conn) =>
      (out ++ [.sent badRequest, .shutdown], { conn with connected := false }.discard)
  | (out, .canContinue false, conn) => (out, { conn with context := conn.context.reset }.discard)
  | (out, .canContinue true, conn) => (out, { conn with context := conn.context.reset })

/-- One turn; `none` waits for input. -/
def advance (httpCallback : HttpCallback σ) (conn : Conn σ) : Option (List Obs × Conn σ) :=
  if conn.context.processingStopped then
    if conn.buffer.isEmpty then none else some ([], { conn with buffer := [] })
  else if !conn.connected then some ([], conn.discard)
  else if conn.context.gotAll then some (dispatch httpCallback conn)
  else
    match conn.context.parseIteration conn.buffer with
    | .again context buffer => some ([], { conn with context := context, buffer := buffer })
    | .done false context buffer =>
        some ([.malformed, .sent badRequest, .shutdown],
          { conn with context := context, buffer := buffer, connected := false }.discard)
    | .done true context buffer =>
        if context.gotAll then some ([], { conn with context := context, buffer := buffer })
        else none

/-- The connection's context is one that `onMessage` can leave behind. -/
def Conn.Valid (conn : Conn σ) : Prop := conn.context.processingStopped ∨ conn.context.Valid

/-- A stopped connection throws away what it holds, and shows nothing. -/
theorem stopped_settles (httpCallback : HttpCallback σ) {conn : Conn σ}
    (stopped : conn.context.processingStopped = true) :
    Settles (advance httpCallback) conn [] { conn with buffer := [] } := by
  have quiet : advance httpCallback { conn with buffer := [] } = none := by
    simp [advance, stopped]
  cases empty : conn.buffer.isEmpty with
  | true =>
      have same : { conn with buffer := [] } = conn := by
        rw [List.isEmpty_iff] at empty
        rw [← empty]
      rw [same] at quiet ⊢
      exact .quiet quiet
  | false => exact .silent (by simp [advance, stopped, empty]) (.quiet quiet)

theorem settles_stopped {conn conn' : Conn σ} {out : List Obs}
    (stopped : conn.context.processingStopped = true)
    (run : Settles (advance httpCallback) conn out conn') :
    out = [] ∧ conn' = { conn with buffer := [] } :=
  run.unique (stopped_settles httpCallback stopped)

theorem settles_discard (conn : Conn σ) :
    Settles (advance httpCallback) conn.discard [] conn.discard := by
  apply Settles.quiet
  simp [advance, Conn.discard, HttpContext.stopProcessing]

theorem onRequest_feed (httpCallback : HttpCallback σ) (conn : Conn σ) (req : HttpRequest) (data : Bytes) :
    onRequest httpCallback (conn.feed data) req =
      ((onRequest httpCallback conn req).1, (onRequest httpCallback conn req).2.1,
        (onRequest httpCallback conn req).2.2.feed data) := by
  unfold onRequest Conn.feed
  dsimp only
  split
  · rfl
  · split
    · rfl
    · split <;> split <;> rfl

/-- The context and the buffer are not the callback's. -/
theorem onRequest_frame (httpCallback : HttpCallback σ) (conn : Conn σ) (req : HttpRequest) :
    (onRequest httpCallback conn req).2.2.context = conn.context ∧
      (onRequest httpCallback conn req).2.2.buffer = conn.buffer := by
  unfold onRequest
  dsimp only
  split
  · exact ⟨rfl, rfl⟩
  · split
    · exact ⟨rfl, rfl⟩
    · split <;> split <;> exact ⟨rfl, rfl⟩

/-- A dispatch does not look at the buffer. -/
theorem dispatch_feed (httpCallback : HttpCallback σ) (conn : Conn σ) (data : Bytes) :
    ((dispatch httpCallback conn).2.context.processingStopped = true ∧
      (dispatch httpCallback conn).2.buffer = [] ∧
      dispatch httpCallback (conn.feed data) = dispatch httpCallback conn) ∨
    dispatch httpCallback (conn.feed data) =
      ((dispatch httpCallback conn).1, (dispatch httpCallback conn).2.feed data) := by
  have same : (conn.feed data).context.request = conn.context.request := rfl
  unfold dispatch
  rw [same, onRequest_feed]
  generalize onRequest httpCallback conn conn.context.request = returned
  obtain ⟨out, go, conn'⟩ := returned
  cases go with
  | threw => exact .inl ⟨rfl, rfl, rfl⟩
  | canContinue go =>
      cases go with
      | false => exact .inl ⟨rfl, rfl, rfl⟩
      | true => exact .inr rfl

/-- Input behind a turn is either thrown away by it or still there after it. -/
theorem advance_feed {conn conn' : Conn σ} {out : List Obs} (data : Bytes)
    (moves : advance httpCallback conn = some (out, conn')) :
    (conn'.context.processingStopped = true ∧ conn'.buffer = [] ∧
      advance httpCallback (conn.feed data) = some (out, conn')) ∨
    advance httpCallback (conn.feed data) = some (out, conn'.feed data) := by
  unfold advance at moves
  split at moves
  · next stopped =>
      split at moves <;> cases moves
      next nonempty =>
        refine .inl ⟨stopped, rfl, ?_⟩
        have still : (conn.buffer ++ data).isEmpty = false := by
          rw [List.isEmpty_iff] at nonempty
          simp [nonempty]
        simp [advance, Conn.feed, stopped, still]
  next running =>
  split at moves
  · next gone =>
      cases moves
      refine .inl ⟨rfl, rfl, ?_⟩
      rw [advance, if_neg (by exact running), if_pos (by exact gone)]
      rfl
  next connected =>
  split at moves
  · next finished =>
      have moved : dispatch httpCallback conn = (out, conn') := Option.some.inj moves
      have kept := dispatch_feed httpCallback conn data
      rw [moved] at kept
      rw [advance, if_neg (by exact running), if_neg (by exact connected),
        if_pos (by exact finished)]
      rcases kept with ⟨stopped, cleared, same⟩ | same
      · exact .inl ⟨stopped, cleared, congrArg some same⟩
      · exact .inr (congrArg some same)
  next unfinished =>
  have decided : (conn.context.parseIteration conn.buffer).decided := by
    cases turn : conn.context.parseIteration conn.buffer with
    | again => rfl
    | done ok context buffer =>
        rw [turn] at moves
        cases ok with
        | false => rfl
        | true =>
            dsimp only at moves
            split at moves
            · next finished => simpa [HttpContext.Turn.decided] using finished
            · cases moves
  have fed := HttpContext.parseIteration_feed data decided
  have step : advance httpCallback (conn.feed data) =
      match (conn.context.parseIteration conn.buffer).feed data with
      | .again context buffer => some ([], { conn with context := context, buffer := buffer })
      | .done false context buffer =>
          some ([.malformed, .sent badRequest, .shutdown],
            { conn with context := context, buffer := buffer, connected := false }.discard)
      | .done true context buffer =>
          if context.gotAll then some ([], { conn with context := context, buffer := buffer })
          else none := by
    rw [advance, if_neg (by exact running), if_neg (by exact connected),
      if_neg (by exact unfinished), ← fed]
    rfl
  rw [step]
  cases turn : conn.context.parseIteration conn.buffer with
  | again context buffer =>
      rw [turn] at moves
      cases moves
      exact .inr rfl
  | done ok context buffer =>
      rw [turn] at moves
      cases ok with
      | false =>
          cases moves
          exact .inl ⟨rfl, rfl, rfl⟩
      | true =>
          dsimp only at moves
          split at moves
          · next finished =>
              cases moves
              exact .inr (if_pos finished)
          · cases moves

theorem advance_resumable : Resumable (advance httpCallback) Conn.feed := by
  intro conn conn' conn'' out later data moves run
  rcases advance_feed data moves with ⟨stopped, cleared, same⟩ | same
  · have quiet : { conn'.feed data with buffer := [] } = conn' := by
      rw [← cleared]
      rfl
    have still : (conn'.feed data).context.processingStopped = true := stopped
    obtain ⟨rfl, rest⟩ := settles_stopped still run
    rw [rest, quiet]
    exact .step same (.quiet (by simp [advance, stopped, cleared]))
  · exact .step same run

/-! ## `onMessage` is the machine run until it waits -/

/-- Every turn leaves a valid connection behind. -/
theorem Conn.Valid.advance {conn conn' : Conn σ} {out : List Obs}
    (moves : Http.advance httpCallback conn = some (out, conn')) : conn'.Valid := by
  unfold Http.advance at moves
  split at moves
  · next stopped =>
      split at moves <;> cases moves
      exact .inl stopped
  next running =>
  split at moves
  · cases moves
    exact .inl rfl
  split at moves
  · have moved : dispatch httpCallback conn = (out, conn') := Option.some.inj moves
    unfold dispatch at moved
    split at moved <;> cases moved
    · exact .inl rfl
    · exact .inl rfl
    · exact .inr fun body => by cases body
  next unfinished =>
  have notYet : conn.context.state ≠ .gotAll := by simpa [HttpContext.gotAll] using unfinished
  cases turn : conn.context.parseIteration conn.buffer with
  | again context buffer =>
      rw [turn] at moves
      cases moves
      exact .inr (HttpContext.parseIteration_again notYet turn).2.2
  | done ok context buffer =>
      rw [turn] at moves
      cases ok with
      | false =>
          cases moves
          exact .inl rfl
      | true =>
          dsimp only at moves
          split at moves
          · next finished =>
              cases moves
              refine .inr fun body => ?_
              have still : context.state = .expectBody := body
              simp [HttpContext.gotAll, still] at finished
          · cases moves

theorem Conn.Valid.settles {conn conn' : Conn σ} {out : List Obs} (valid : conn.Valid)
    (run : Settles (Http.advance httpCallback) conn out conn') : conn'.Valid :=
  run.invariant (I := fun _ conn => conn.Valid) (fun _ moves => .advance moves) [] valid

/-- A turn of the parser, for a connection that is being served. -/
theorem advance_parses (httpCallback : HttpCallback σ) {conn : Conn σ}
    (running : conn.context.processingStopped = false)
    (connected : conn.connected = true) (unfinished : conn.context.state ≠ .gotAll) :
    advance httpCallback conn =
      match conn.context.parseIteration conn.buffer with
      | .again context buffer => some ([], { conn with context := context, buffer := buffer })
      | .done false context buffer =>
          some ([.malformed, .sent badRequest, .shutdown],
            { conn with context := context, buffer := buffer, connected := false }.discard)
      | .done true context buffer =>
          if context.gotAll then some ([], { conn with context := context, buffer := buffer })
          else none := by
  rw [advance, if_neg (by simp [running]), if_neg (by simp [connected]),
    if_neg (by simpa [HttpContext.gotAll] using unfinished)]

/-- `parseRequest` ends; either it refuses the input, or it waits for more of it, or it
completes a request, and the turns it made are turns of the machine. -/
theorem parseLoop_settles (httpCallback : HttpCallback σ) {fuel : Nat} {conn : Conn σ}
    (valid : conn.context.Valid)
    (running : conn.context.processingStopped = false) (connected : conn.connected = true)
    (unfinished : conn.context.state ≠ .gotAll) (enough : conn.buffer.length < fuel) :
    ∃ ok context buffer,
      HttpContext.parseLoop fuel conn.context conn.buffer = some (ok, context, buffer) ∧
      match ok, context.gotAll with
      | false, _ =>
          Settles (advance httpCallback) conn [.malformed, .sent badRequest, .shutdown]
            { conn with context := context, buffer := buffer, connected := false }.discard
      | true, false =>
          Settles (advance httpCallback) conn [] { conn with context := context, buffer := buffer }
      | true, true =>
          context.processingStopped = false ∧ buffer.length < conn.buffer.length ∧
          ∀ {out : List Obs} {conn' : Conn σ},
            Settles (advance httpCallback) { conn with context := context, buffer := buffer } out
              conn' → Settles (advance httpCallback) conn out conn' := by
  induction fuel generalizing conn with
  | zero => exact absurd enough (Nat.not_lt_zero _)
  | succ fuel ih =>
      have step := advance_parses httpCallback running connected unfinished
      have stopped' := HttpContext.parseIteration_stopped conn.context conn.buffer
      cases turn : conn.context.parseIteration conn.buffer with
      | again context buffer =>
          rw [turn] at stopped'
          obtain ⟨shorter, unfinished', valid'⟩ := HttpContext.parseIteration_again unfinished turn
          rw [turn] at step
          obtain ⟨ok, context', buffer', ended, spec⟩ :=
            @ih { conn with context := context, buffer := buffer } valid'
              (stopped'.trans running) connected unfinished' (by dsimp only; omega)
          refine ⟨ok, context', buffer', ?_, ?_⟩
          · rw [HttpContext.parseLoop, turn]
            exact ended
          · cases ok with
            | false => exact .silent step spec
            | true =>
                cases finished : context'.gotAll with
                | false =>
                    rw [finished] at spec
                    exact .silent step spec
                | true =>
                    rw [finished] at spec
                    exact ⟨spec.1, spec.2.1.trans shorter, fun run => .silent step (spec.2.2 run)⟩
      | done ok context buffer =>
          rw [turn] at step stopped'
          refine ⟨ok, context, buffer, by rw [HttpContext.parseLoop, turn], ?_⟩
          cases ok with
          | false => exact .step step (settles_discard _)
          | true =>
              cases finished : context.gotAll with
              | false =>
                  have notYet : context.state ≠ .gotAll := by
                    simpa [HttpContext.gotAll] using finished
                  obtain ⟨rfl, rfl⟩ := HttpContext.parseIteration_waits turn notYet
                  dsimp only at step
                  rw [if_neg (by simp [finished])] at step
                  exact .quiet step
              | true =>
                  dsimp only at step
                  rw [if_pos finished] at step
                  have shorter := HttpContext.parseIteration_complete valid unfinished turn
                    (by simpa [HttpContext.gotAll] using finished)
                  exact ⟨stopped'.trans running, shorter, fun run => .silent step run⟩

theorem advance_dispatches (httpCallback : HttpCallback σ) (conn : Conn σ)
    (running : conn.context.processingStopped = false)
    (connected : conn.connected = true) (finished : conn.context.gotAll = true) :
    advance httpCallback conn = some (dispatch httpCallback conn) := by
  rw [advance, if_neg (by simp [running]), if_neg (by simp [connected]), if_pos finished]

/-- The loop of `onMessage` ends, where the machine comes to rest. -/
theorem messageLoop_settles (httpCallback : HttpCallback σ) {fuel : Nat} {conn : Conn σ}
    (valid : conn.context.Valid)
    (running : conn.context.processingStopped = false) (unfinished : conn.context.state ≠ .gotAll)
    (enough : conn.buffer.length < fuel) : ∃ out conn',
      messageLoop httpCallback fuel conn = some (out, conn') ∧
        Settles (advance httpCallback) conn out conn' := by
  induction fuel generalizing conn with
  | zero => exact absurd enough (Nat.not_lt_zero _)
  | succ fuel ih =>
      rcases Bool.eq_false_or_eq_true conn.connected with connected | gone
      · cases empty : conn.buffer with
        | nil =>
            refine ⟨[], conn, ?_, .quiet ?_⟩
            · simp [messageLoop, connected, empty]
            · rw [advance_parses httpCallback running connected unfinished, empty,
                HttpContext.parseIteration_nil valid unfinished]
              exact if_neg (by simpa [HttpContext.gotAll] using unfinished)
        | cons b rest =>
            obtain ⟨ok, context, buffer, ended, spec⟩ :=
              parseLoop_settles httpCallback valid running connected unfinished
                (Nat.lt_succ_self _)
            rw [messageLoop, if_pos (by simp [connected, empty]), HttpContext.parseRequest, ended]
            cases ok with
            | false => exact ⟨_, _, rfl, spec⟩
            | true =>
                cases finished : context.gotAll with
                | false =>
                    simp only [finished] at spec
                    refine ⟨_, _, ?_, spec⟩
                    simp [finished]
                | true =>
                    simp only [finished] at spec
                    obtain ⟨running', shorter, transfer⟩ := spec
                    have step := advance_dispatches httpCallback
                      { conn with context := context, buffer := buffer }
                      running' connected finished
                    simp only [finished, Bool.not_true, Bool.false_eq_true, if_false]
                    have frame := onRequest_frame httpCallback
                      { conn with context := context, buffer := buffer } context.request
                    unfold dispatch at step
                    dsimp only at step frame
                    generalize onRequest httpCallback
                      { conn with context := context, buffer := buffer } context.request =
                        returned at step frame
                    obtain ⟨out, go, conn'⟩ := returned
                    obtain ⟨sameContext, sameBuffer⟩ := frame
                    cases go with
                    | threw =>
                        exact ⟨_, _, rfl, transfer (.last step (settles_discard _).isQuiet)⟩
                    | canContinue go =>
                        cases go with
                        | false =>
                            exact ⟨_, _, rfl, transfer (.last step (settles_discard _).isQuiet)⟩
                        | true =>
                            dsimp only at sameContext sameBuffer
                            obtain ⟨later, conn'', ended', run⟩ :=
                              @ih { conn' with context := conn'.context.reset }
                                (fun body => by cases body)
                                ((congrArg HttpContext.processingStopped sameContext).trans running')
                                (by simp [HttpContext.reset])
                                (by simp only [sameBuffer]; omega)
                            refine ⟨_, _, ?_, transfer (.step step run)⟩
                            dsimp only
                            rw [ended']
                            rfl
      · refine ⟨[], conn.discard, ?_, .silent ?_ (settles_discard _)⟩
        · simp [messageLoop, gone]
        · simp [advance, running, gone]

/-- Between two callbacks a connection is stopped or has a request to finish. -/
def Conn.Resting (conn : Conn σ) : Prop :=
  conn.context.processingStopped = true ∨ conn.context.Valid ∧ conn.context.state ≠ .gotAll

theorem Conn.Valid.resting {conn : Conn σ} (valid : conn.Valid)
    (waits : Http.advance httpCallback conn = none) : conn.Resting := by
  rcases valid with stopped | valid
  · exact .inl stopped
  · rcases Bool.eq_false_or_eq_true conn.context.processingStopped with stopped | running
    · exact .inl stopped
    · refine .inr ⟨valid, fun finished => ?_⟩
      rw [Http.advance, if_neg (by simp [running])] at waits
      split at waits
      · cases waits
      · rw [if_pos (by simp [HttpContext.gotAll, finished])] at waits
        cases waits

theorem Conn.Resting.valid {conn : Conn σ} (resting : conn.Resting) : conn.Valid :=
  resting.imp_right And.left

/-- `onMessage` returns, and leaves the connection waiting for input. -/
theorem onMessage_settles (httpCallback : HttpCallback σ) {conn : Conn σ} (data : Bytes)
    (resting : conn.Resting) : ∃ out conn',
      onMessage httpCallback conn data = some (out, conn') ∧
        Settles (advance httpCallback) (conn.feed data) out conn' ∧ conn'.Resting := by
  have fed : (conn.feed data).Valid := resting.valid
  suffices returns : ∃ out conn', onMessage httpCallback conn data = some (out, conn') ∧
      Settles (advance httpCallback) (conn.feed data) out conn' by
    obtain ⟨out, conn', returned, run⟩ := returns
    exact ⟨out, conn', returned, run, (fed.settles run).resting run.isQuiet⟩
  rcases Bool.eq_false_or_eq_true conn.context.processingStopped with stopped | running
  · refine ⟨[], { conn with buffer := [] }, ?_, ?_⟩
    · simp [onMessage, stopped]
    · have fedStopped : (conn.feed data).context.processingStopped = true := stopped
      exact stopped_settles httpCallback fedStopped
  · obtain ⟨valid, unfinished⟩ : conn.context.Valid ∧ conn.context.state ≠ .gotAll :=
      resting.resolve_left (by simp [running])
    rw [onMessage, if_neg (by simp [running])]
    exact messageLoop_settles httpCallback valid running unfinished (Nat.lt_succ_self _)

end AIService.Http
