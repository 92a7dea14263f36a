import AIService.Chat.Browser
import AIService.Chat.Upstream
import AIService.Data.JsonWithin

/-!
# A streamed answer, from the model to the page

`relayed` puts the transfer of `executeCurlStream` under `chatStream`, and its callbacks write the body
that `streamChat` reads.  `relayed_answer` says what the page then shows, however the network cuts the
stream of the model and the body.
-/

namespace AIService.Chat

open AIService.Action

/-! ## Every exception has a text -/

/-- No exception of the code has an empty text. -/
def Names {α : Type} (m : Section α) : Prop :=
  ∀ helper out helper' e, m helper = (out, helper', .error e) → e ≠ .threw []

namespace Names

variable {α β : Type}

protected theorem bind {m : Section α} {f : α → Section β} (first : Names m) (second : ∀ a, Names (f a)) :
    Names (m >>= f) := by
  intro helper out helper' e ran
  rcases bind_cases ran with ⟨e', failed, same⟩ | ⟨out₁, between, a, out₂, -, later, -⟩
  · cases same
    exact first _ _ _ _ failed
  · exact second a _ _ _ _ later

protected theorem lift {r : Except Fault α} (named : r ≠ .error (.threw [])) : Names (lift r : Section α) := by
  intro helper out helper' e ran
  obtain ⟨-, -, rfl⟩ := lift_cases ran
  rintro rfl
  exact named rfl

protected theorem pure (a : α) : Names (pure a : Section α) := by
  intro helper out helper' e ran
  cases ran

protected theorem fail {e : Fault} (named : e ≠ .threw []) : Names (fail e : Section α) := by
  intro helper out helper' e' ran
  cases ran
  exact named

theorem throwText {what : String} (named : bytes what ≠ []) : Names (AIHelper.throwText what : Section α) :=
  .fail fun same => named (Fault.threw.inj same)

theorem orThrow {r : Except Bytes α} (named : r ≠ .error []) : Names (AIHelper.orThrow r) := by
  refine .lift ?_
  cases r with
  | ok a => exact fun same => by cases same
  | error what =>
      intro same
      cases same
      exact named rfl

protected theorem current : Names (current : Section AIHelper) := by
  intro helper out helper' e ran
  cases ran

protected theorem update (f : AIHelper → AIHelper) : Names (update f : Section Unit) := by
  intro helper out helper' e ran
  cases ran

protected theorem emit (o : Effect) : Names (emit o : Section Unit) := by
  intro helper out helper' e ran
  cases ran

theorem ite {c : Prop} [Decidable c] {m m' : Section α} (yes : Names m) (no : Names m') :
    Names (if c then m else m') := by
  split
  · exact yes
  · exact no

end Names

section names

variable {codec : JsonCodec} {call : Call} {env : Environment} {strategy : Strategy}

theorem validateCanonicalHistory_names : Names AIHelper.validateCanonicalHistory := by
  refine .bind .current fun helper => ?_
  refine .ite (.throwText (by decide)) ?_
  refine .ite (.throwText (by decide)) ?_
  exact .ite (.throwText (by decide)) (.pure ())

theorem selectStrategy_names (created : StrategyFactory.create env.getenv call.modelType = .ok strategy) :
    Names (AIHelper.selectStrategy call env) := by
  refine .bind validateCanonicalHistory_names fun _ => ?_
  rw [created]
  exact .bind (.orThrow (fun same => by cases same)) fun chosen => .bind (.update _) fun _ => .pure chosen

theorem add_names (a b : Int) : Names (AIHelper.add a b) := by
  unfold AIHelper.add
  split
  · exact .pure _
  · exact .fail (fun same => by cases same)

theorem nextTimestamp_names (now : Int) (last : Option (Bytes × Int)) :
    Names (AIHelper.nextTimestamp now last) := by
  unfold AIHelper.nextTimestamp
  split
  · exact .pure now
  · exact .ite (.throwText (by decide)) (.bind (add_names _ _) fun next => .pure _)

theorem submit_names (named : env.dumpError ≠ []) (exchange : ChatExchange) :
    Names (AIHelper.submit codec env exchange) := by
  unfold AIHelper.submit
  split
  · exact .fail fun same => named (Fault.threw.inj same)
  · refine .ite (.throwText (by decide)) (.bind (add_names _ _) fun answerTs => ?_)
    exact .bind (.emit _) fun _ => .ite (.update _) (.throwText (by decide))

theorem conclude_names (secured : env.secureId ≠ .error []) (named : env.dumpError ≠ []) (answer : Bytes) :
    Names (AIHelper.conclude codec call env answer) := by
  refine .ite (.throwText (by decide)) (.bind .current fun helper => ?_)
  refine .bind (nextTimestamp_names _ _) fun ts => .bind (.orThrow secured) fun messageId => ?_
  exact submit_names named _

theorem requestStream_names (named : env.dumpError ≠ []) :
    Names (AIHelper.requestStream call env strategy) := by
  refine .bind .current fun helper => .ite ?_ ?_
  · exact .ite (.emit _) (.throwText (by decide))
  · split
    · exact .fail fun same => named (Fault.threw.inj same)
    · exact .emit _

end names

/-! ## Every token is UTF-8 -/

section utf8

variable {codec : JsonCodec} {strategy : Strategy} {token : Bytes}

theorem valid_of_string (deep : codec.ReadsDeep) {event : Bytes} {j v : Json}
    (parsed : codec.parse event = some j) (within : Json.Within v j) (found : v.string? = some token) :
    ValidUtf8 token := by
  rw [Json.Within.string found] at within
  exact deep.valid parsed within

theorem of_nonempty? {text : Option Bytes} (shown : nonempty? text = some token) : text = some token :=
  (Option.filter_eq_some_iff.mp shown).1

theorem within_deltaContent {j : Json} (found : deltaContent j = some token) :
    ∃ v, Json.Within v j ∧ v.string? = some token := by
  unfold deltaContent at found
  obtain ⟨choices, listed, found⟩ := Option.bind_eq_some_iff.mp found
  split at found
  · next choice rest =>
      obtain ⟨delta, first, found⟩ := Option.bind_eq_some_iff.mp found
      obtain ⟨content, held, told⟩ := Option.bind_eq_some_iff.mp found
      exact ⟨content, ((Json.Within.field held).trans (.field first)).trans
        (Json.Within.first.trans (.field listed)), told⟩
  · cases found

theorem valid_of_chunk (deep : codec.ReadsDeep) {event : Bytes}
    (shown : strategy.parseStreamChunk codec event = some token) : ValidUtf8 token := by
  have plain (shown : AIStrategy.parseStreamChunk codec event = some token) : ValidUtf8 token := by
    unfold AIStrategy.parseStreamChunk at shown
    split at shown
    · cases shown
    · obtain ⟨j, parsed, found⟩ := Option.bind_eq_some_iff.mp (of_nonempty? shown)
      obtain ⟨v, within, told⟩ := within_deltaContent found
      exact valid_of_string deep parsed within told
  cases strategy with
  | aliyunRAG =>
      change AliyunRAGStrategy.parseStreamChunk codec event = _ at shown
      unfold AliyunRAGStrategy.parseStreamChunk at shown
      obtain ⟨j, parsed, found⟩ := Option.bind_eq_some_iff.mp (of_nonempty? shown)
      obtain ⟨output, held, found⟩ := Option.bind_eq_some_iff.mp found
      split at found
      · obtain ⟨v, inner, told⟩ := Option.bind_eq_some_iff.mp found
        exact valid_of_string deep parsed ((Json.Within.field inner).trans (.field held)) told
      · cases found
  | _ => exact plain shown

theorem valid_of_readLine (strategy : Strategy) (deep : codec.ReadsDeep) (completed : Bool) (line : Bytes) :
    ∀ token ∈ (readLine codec strategy completed line).1, ValidUtf8 token := by
  intro token member
  unfold readLine at member
  split at member
  · cases member
  · split at member
    · cases member
    split at member
    · cases member
    split at member
    · cases member
    split at member
    · cases member
    split at member
    · cases member
    dsimp only at member
    split at member <;> exact valid_of_chunk deep (Option.mem_toList.mp member)

/-- What a transfer hands on is UTF-8, as every text that was read. -/
theorem valid_of_transfer (strategy : Strategy) (deep : codec.ReadsDeep) (upstream : List Bytes)
    (transfer : Transfer) :
    ∀ token ∈ (executeCurlStream codec strategy upstream transfer).1, ValidUtf8 token := by
  rw [executeCurlStream_eq]
  dsimp only
  generalize (lines upstream.flatten).1 = ls
  generalize false = completed
  induction ls generalizing completed with
  | nil => exact List.forall_mem_nil _
  | cons line rest ih =>
      have own := valid_of_readLine strategy deep completed line
      rw [readLines]
      cases read : readLine codec strategy completed line with
      | mk shown result =>
          rw [read] at own
          cases result with
          | error error => exact own
          | ok completed' =>
              intro token member
              rcases List.mem_append.mp member with early | late
              · exact own token early
              · exact ih completed' token late

end utf8

/-! ## `chatStream` over a transfer -/

/-- What `on_error` of `executeCurlStream` leaves to `chatStream`. -/
def StreamEnd.failure? : StreamEnd → Option Bytes
  | .done => none
  | .error message => some message

/-- The surroundings of `chatStream` when the event stream comes in these chunks. -/
def relayed (codec : JsonCodec) (strategy : Strategy) (env : Environment) (upstream : List Bytes)
    (transfer : Transfer) : Environment :=
  let stream := executeCurlStream codec strategy upstream transfer
  { env with tokens := stream.1, failure := stream.2.failure? }

/-- The callback that follows the critical section. -/
def lastCall : Except Fault (Option Bytes) → List Effect
  | .error (.threw what) => [.onError what]
  | _ => []

section stream

variable {codec : JsonCodec} {call : Call} {env : Environment} {strategy : Strategy}
  {helper helper' : AIHelper} {out : List Effect}

/-- A failed stream has a message. -/
theorem failure_named {upstream : List Bytes} {transfer : Transfer} {message : Bytes}
    (failed : (executeCurlStream codec strategy upstream transfer).2.failure? = some message) :
    message ≠ [] := by
  rw [executeCurlStream_eq] at failed
  dsimp only at failed
  cases result : (readLines codec strategy false (lines upstream.flatten).1).2 with
  | error error =>
      rw [result] at failed
      cases failed
      exact readLines_error result
  | ok completed =>
      rw [result] at failed
      change (endStream { completed := completed } transfer).failure? = some message at failed
      unfold endStream at failed
      rw [if_neg (fun other => other rfl)] at failed
      split at failed
      · cases failed
        simp [bytes]
      · split at failed
        · cases failed
          simp [bytes]
        · split at failed
          · cases failed
            decide
          · cases failed

theorem fullText_error {between after : AIHelper} {asked : List Effect} {e : Fault}
    (failed : AIHelper.requestStream call env strategy between = (asked, after, .error e)) :
    AIHelper.fullText call env strategy between = (asked, after, .error e) := bind_error failed

/-- The streamed text, once the request is made. -/
theorem fullText_ok {between after : AIHelper} {asked : List Effect} {a : Unit}
    (requested : AIHelper.requestStream call env strategy between = (asked, after, .ok a)) :
    AIHelper.fullText call env strategy between = (asked ++ env.tokens.map .onToken, after,
      env.failure.elim (.ok env.tokens.flatten) fun what => .error (.threw what)) := by
  rw [AIHelper.fullText, bind_eq requested, bind_eq (streamed_eq env.tokens after)]
  cases env.failure with
  | some what => simp [fail]
  | none => simp [pure, Action.pure]

theorem selected_eq {between : AIHelper} {chosen : Strategy}
    (created : StrategyFactory.create env.getenv call.modelType = .ok strategy)
    (selected : AIHelper.selectStrategy call env helper = (out, between, .ok chosen)) :
    chosen = strategy := by
  rcases bind_cases selected with ⟨e, -, failed⟩ | ⟨_, _, _, _, _, later, -⟩
  · cases failed
  · rw [created, orThrow_ok_bind] at later
    cases later
    rfl

/-- What follows a stream that did not fail. -/
theorem concluded_spec {r : Except Fault (Option Bytes)} {between : AIHelper} {asked : List Effect}
    {t : List Bytes} {answer : Bytes} (lawful : codec.Lawful) (canonical : helper.Canonical)
    (clock : IsLongLong env.clock) (secured : env.secureId ≠ .error []) (named : env.dumpError ≠ [])
    (same : between.history = helper.history) (fits : ∀ e ∈ asked, Preparatory helper.history e)
    (ran : (do
      AIHelper.conclude codec call env answer
      emit (.onDone answer)
      pure (some answer) : Section (Option Bytes)) between = (out, helper', r)) :
    (∃ what, what ≠ [] ∧ r = .error (.threw what) ∧
      Kept codec call helper t (asked ++ t.map .onToken ++ out) helper') ∨
    ∃ x before, r = .ok (some x.answer) ∧ out = before ++ [.onDone x.answer] ∧ x.answer = answer ∧
      x.answer ≠ [] ∧ Appended codec call helper t x (asked ++ t.map .onToken ++ before) helper' := by
  rcases bind_cases ran with ⟨e, failed, rfl⟩ | ⟨before, _, _, _, committed, ended, rfl⟩
  · rcases conclude_spec lawful canonical clock same fits failed with
      ⟨⟨what, thrown⟩, kept⟩ | ⟨x, eq, -⟩
    · cases thrown
      refine .inl ⟨what, fun empty => ?_, rfl, kept⟩
      exact conclude_names secured named _ _ _ _ _ failed (congrArg Fault.threw empty)
    · cases eq
  · rw [emit_bind_eq] at ended
    cases ended
    rcases conclude_spec lawful canonical clock same fits committed with
      ⟨⟨what, thrown⟩, -⟩ | ⟨x, -, rfl, appended⟩
    · cases thrown
    · refine .inr ⟨x, before, rfl, rfl, rfl, fun empty => ?_, appended⟩
      rw [empty] at committed
      cases committed

/-- A critical section of `chatStream` that is not for a tool model: it throws a text, behind all
tokens or none, or it commits all tokens of a stream that did not fail. -/
theorem relay_spec {r : Except Fault (Option Bytes)} (lawful : codec.Lawful) (canonical : helper.Canonical)
    (clock : IsLongLong env.clock)
    (created : StrategyFactory.create env.getenv call.modelType = .ok strategy)
    (streams : strategy.isMCPModel = false) (secured : env.secureId ≠ .error [])
    (named : env.dumpError ≠ []) (message : env.failure ≠ some [])
    (ran : AIHelper.chatStream codec call env helper = (out, helper', r)) :
    (∃ what tokens, what ≠ [] ∧ r = .error (.threw what) ∧ (tokens = [] ∨ tokens = env.tokens) ∧
      Kept codec call helper tokens out helper') ∨
    ∃ x before, r = .ok (some x.answer) ∧ out = before ++ [.onDone x.answer] ∧ env.failure = none ∧
      x.answer = env.tokens.flatten ∧ x.answer ≠ [] ∧ Appended codec call helper env.tokens x before helper' := by
  rcases bind_cases ran with ⟨e, failed, rfl⟩ | ⟨out₁, between, chosen, _, selected, rest, rfl⟩
  · obtain ⟨same, fits, throws⟩ :=
      Prepares.after (selectStrategy_prepares call env) rfl (List.forall_mem_nil _) failed
    obtain ⟨what, rfl⟩ := throws e rfl
    refine .inl ⟨what, [], fun empty => ?_, rfl, .inl rfl, .of_requests same fits⟩
    exact selectStrategy_names created _ _ _ _ failed (congrArg Fault.threw empty)
  obtain ⟨same, fits, -⟩ :=
    Prepares.after (selectStrategy_prepares call env) rfl (List.forall_mem_nil _) selected
  rw [List.nil_append] at fits
  obtain rfl := selected_eq created selected
  rw [streams] at rest
  change (AIHelper.fullText call env chosen >>= _) between = _ at rest
  cases requested : AIHelper.requestStream call env chosen between with
  | mk asked rest' =>
      obtain ⟨after, result⟩ := rest'
      obtain ⟨same, fits, throws⟩ :=
        (requestStream_prepares call env chosen).after same fits requested
      cases result with
      | error e =>
          obtain ⟨what, rfl⟩ := throws e rfl
          rw [bind_error (fullText_error requested)] at rest
          cases rest
          refine .inl ⟨what, [], fun empty => ?_, rfl, .inl rfl, .of_requests same fits⟩
          exact requestStream_names named _ _ _ _ requested (congrArg Fault.threw empty)
      | ok _ =>
          have streamed := fullText_ok requested
          cases failure : env.failure with
          | some what =>
              rw [failure] at streamed
              rw [bind_error streamed] at rest
              cases rest
              refine .inl ⟨what, env.tokens, fun empty => message ?_, rfl, .inr rfl, same, out₁ ++ asked,
                [], ?_, fits, .nothing⟩
              · rw [failure, empty]
              · rw [List.append_nil, List.append_assoc]
          | none =>
              rw [failure] at streamed
              rcases bind_cases rest with ⟨e, failed, -⟩ | ⟨_, _, _, out₂, told, final, rfl⟩
              · rw [streamed] at failed
                cases failed
              rw [streamed] at told
              cases told
              rcases concluded_spec (t := env.tokens) lawful canonical clock secured named same fits final with
                ⟨what, text, rfl, kept⟩ | ⟨x, before, rfl, rfl, answered, nonempty, appended⟩
              · rw [List.append_assoc out₁, List.append_assoc out₁] at kept
                exact .inl ⟨what, env.tokens, text, rfl, .inr rfl, kept⟩
              · rw [List.append_assoc out₁, List.append_assoc out₁] at appended
                refine .inr ⟨x, _, rfl, ?_, rfl, answered, nonempty, appended⟩
                rw [List.append_assoc, List.append_assoc, List.append_assoc, List.append_assoc]

end stream

/-! ## What the page makes of it -/

namespace Browser

section page

variable {engine : Engine} {codec : JsonCodec} {announced : Option Bytes} {tokens : List Bytes}
  {chunks : List Bytes}

/-- A body that ends well is an answer when it is whole, and only then. -/
theorem done_read (faithful : codec.Faithful) (engineFaithful : engine.Faithful codec)
    (secure : ∀ id ∈ announced, IsSecureId id) (valid : ∀ token ∈ tokens, ValidUtf8 token)
    (nonempty : tokens.flatten ≠ []) (answer : Bytes)
    (before : chunks.flatten <+: sseBody codec announced (tokens.map .onToken ++ [.onDone answer])) :
    if chunks.flatten = sseBody codec announced (tokens.map .onToken ++ [.onDone answer]) then
      ∃ fullContent, utf8 fullContent = tokens.flatten ∧
        streamChat engine chunks = .ok ⟨fullContent, announced.map .str⟩
    else ∃ e, streamChat engine chunks = .error e := by
  obtain ⟨datas, chars, flat, plain, sent, read⟩ := opening_spec faithful engineFaithful secure valid
  have done : sseBody codec announced (tokens.map .onToken ++ [.onDone answer]) =
      utf8 (wire (datas ++ ["[DONE]".toList])) := by
    rw [sent, wire_append, utf8_append, ← doneEvent_eq]
    exact congrArg _ (List.append_nil doneEvent)
  split
  · next whole =>
      have some_ : chars ≠ [] := by
        rintro rfl
        exact nonempty flat.symm
      exact ⟨chars, flat, done_answers plain some_ read (whole.trans done)⟩
  · next proper =>
      rw [done] at before proper
      exact part_throws plain done_unbroken before proper

/-- A body that ends with an error is no answer, whole or not. -/
theorem error_read (faithful : codec.Faithful) (engineFaithful : engine.Faithful codec)
    (secure : ∀ id ∈ announced, IsSecureId id) (valid : ∀ token ∈ tokens, ValidUtf8 token) {what : Bytes}
    (named : what ≠ [])
    (before : chunks.flatten <+: sseBody codec announced (tokens.map .onToken ++ [.onError what])) :
    ∃ e, streamChat engine chunks = .error e := by
  obtain ⟨datas, chars, flat, plain, sent, read⟩ := opening_spec faithful engineFaithful secure valid
  rw [sent] at before
  rcases sendAll_onError faithful what with silent | ⟨data, plainLast, wrote, report⟩
  · rw [silent, List.append_nil] at before
    exact plain_throws plain before
  · rw [report, ← utf8_append, ← wire_append, ← List.append_assoc] at before
    exact report_throws engineFaithful named plain plainLast wrote read before

end page

end Browser

/-! ## From the model to the page -/

section relay

open Browser

variable {codec : JsonCodec} {engine : Engine} {call : Call} {env : Environment} {strategy : Strategy}
  {helper helper' : AIHelper} {out : List Effect} {announced : Option Bytes}

/-- However the network cuts the stream of the model and the body of the response, the page shows an
answer exactly when the exchange was committed and the body arrived whole.  The answer is then all that
the model streamed, in a stream that it completed, and the one that the queue and the history hold. -/
theorem relayed_answer (faithful : codec.Faithful) (deep : codec.ReadsDeep)
    (engineFaithful : engine.Faithful codec) (canonical : helper.Canonical) (clock : IsLongLong env.clock)
    (created : StrategyFactory.create env.getenv call.modelType = .ok strategy)
    (streams : strategy.isMCPModel = false) (secured : env.secureId ≠ .error []) (named : env.dumpError ≠ [])
    (secure : ∀ id ∈ announced, IsSecureId id) (upstream : List Bytes) (transfer : Transfer)
    {r : Except Fault (Option Bytes)}
    (ran : AIHelper.chatStream codec call (relayed codec strategy env upstream transfer) helper =
      (out, helper', r))
    {chunks : List Bytes} (delivered : chunks.flatten <+: sseBody codec announced (out ++ lastCall r)) :
    ((∃ shown, streamChat engine chunks = .ok shown) ↔
      (∃ answer, r = .ok (some answer)) ∧ chunks.flatten = sseBody codec announced out) ∧
    ∀ shown, streamChat engine chunks = .ok shown →
      (executeCurlStream codec strategy upstream transfer).2 = .done ∧
      utf8 shown.fullContent = (executeCurlStream codec strategy upstream transfer).1.flatten ∧
      shown.newSessionId = announced.map .str ∧
      ∃ x body, Written codec call body x ∧ x.answer = utf8 shown.fullContent ∧
        .published (bytes "sql_queue") body true ∈ out ∧ helper'.history = (helper.append x).history := by
  have valid := valid_of_transfer strategy deep upstream transfer
  have message : (relayed codec strategy env upstream transfer).failure ≠ some [] :=
    fun failed => failure_named failed rfl
  have clock' : IsLongLong (relayed codec strategy env upstream transfer).clock := clock
  rcases relay_spec faithful.toLawful canonical clock' created streams secured named message ran with
    ⟨what, tokens, named, rfl, all, kept⟩ | ⟨x, before, rfl, rfl, finished, answered, nonempty, appended⟩
  · have none_ : ∃ e, streamChat engine chunks = .error e := by
      have valid' : ∀ token ∈ tokens, ValidUtf8 token := by
        rcases all with rfl | rfl
        · exact List.forall_mem_nil _
        · exact valid
      refine error_read faithful engineFaithful secure valid' named ?_
      rw [← sseBody_congr codec announced (kept.effects.sent _)]
      exact delivered
    obtain ⟨e, failed⟩ := none_
    rw [failed]
    refine ⟨⟨fun shown => ?_, fun committed => ?_⟩, fun shown same => by cases same⟩
    · obtain ⟨_, same⟩ := shown
      cases same
    · obtain ⟨⟨_, same⟩, -⟩ := committed
      cases same
  · change chunks.flatten <+: sseBody codec announced ((before ++ [.onDone x.answer]) ++ []) at delivered
    rw [List.append_nil] at delivered
    have body : sseBody codec announced (before ++ [.onDone x.answer]) =
        sseBody codec announced ((executeCurlStream codec strategy upstream transfer).1.map .onToken ++
          [.onDone x.answer]) := sseBody_congr codec announced (appended.effects.sent _)
    have done : (executeCurlStream codec strategy upstream transfer).2 = .done := by
      change (executeCurlStream codec strategy upstream transfer).2.failure? = none at finished
      cases ended : (executeCurlStream codec strategy upstream transfer).2 with
      | done => rfl
      | error message =>
          rw [ended] at finished
          cases finished
    have read := done_read faithful engineFaithful secure valid (answered ▸ nonempty) x.answer
      (body ▸ delivered)
    rw [← body] at read
    split at read
    · next whole =>
        obtain ⟨fullContent, flat, shows⟩ := read
        refine ⟨iff_of_true ⟨_, shows⟩ ⟨⟨_, rfl⟩, whole⟩, fun shown same => ?_⟩
        rw [shows] at same
        cases same
        obtain ⟨asked, sent, rfl, -, published⟩ := appended.effects
        cases published with
        | accepted written =>
            exact ⟨done, flat, rfl, x, _, written, answered.trans flat.symm, by simp, appended.history⟩
    · next part =>
        obtain ⟨e, failed⟩ := read
        rw [failed]
        refine ⟨iff_of_false (fun shown => ?_) (fun committed => part committed.2), fun shown same => by cases same⟩
        obtain ⟨_, same⟩ := shown
        cases same

def relayedCall : Call := { firstCall with modelType := bytes "1" }

def relayedEnvironment : Environment :=
  { firstEnvironment with getenv := fun _ => some (bytes "k"), dumpError := bytes "type_error" }

/-- A model that streams one token, cut within the end mark. -/
def modelStream : List Bytes :=
  [bytes "data: \x7b\"choices\":[\x7b\"delta\":\x7b\"content\":\"hi\"\x7d\x7d]\x7d\ndata: [DO", bytes "NE]\n"]

/-- What `chatStream` makes of it. -/
def relayedRun : List Effect × AIHelper × Except Fault (Option Bytes) :=
  AIHelper.chatStream textCodec relayedCall
    (relayed textCodec .aliyun relayedEnvironment modelStream ⟨none, 200⟩) {}

theorem modelStream_hi :
    executeCurlStream textCodec .aliyun modelStream ⟨none, 200⟩ = ([bytes "hi"], .done) := by
  rw [executeCurlStream_eq]
  decide +kernel

theorem relayedRun_hi : ∃ out helper, relayedRun = (out, helper, .ok (some (bytes "hi"))) := by
  have told : relayedRun.2.2.toOption = some (some (bytes "hi")) := by
    rw [relayedRun, relayed, modelStream_hi]
    decide +kernel
  cases run : relayedRun with
  | mk out rest =>
      obtain ⟨helper, r⟩ := rest
      rw [run] at told
      cases r with
      | error e => cases told
      | ok answer =>
          cases told
          exact ⟨out, helper, rfl⟩

theorem relayed_answer_hi : ∃ out, ∃ shown : Answer, relayedRun.1 = out ∧
    streamChat (codecEngine textCodec) [sseBody textCodec none out] = .ok shown ∧
      utf8 shown.fullContent = bytes "hi" := by
  obtain ⟨out, helper, ran⟩ := relayedRun_hi
  have canonical : AIHelper.Canonical {} := ⟨rfl, rfl, by simp, by simp⟩
  have created : StrategyFactory.create relayedEnvironment.getenv relayedCall.modelType = .ok .aliyun := rfl
  have whole : [sseBody textCodec none out].flatten = sseBody textCodec none out := List.flatten_singleton
  have delivered : [sseBody textCodec none out].flatten <+:
      sseBody textCodec none (out ++ lastCall (.ok (some (bytes "hi")))) := by
    change _ <+: sseBody textCodec none (out ++ [])
    rw [whole, List.append_nil]
  have relay := relayed_answer textCodec_faithful textCodec_readsDeep (codecEngine_faithful textCodec_faithful)
    canonical (by decide) created rfl (by decide) (by decide) (fun id member => by cases member) modelStream
    ⟨none, 200⟩ ran delivered
  obtain ⟨shown, read⟩ := relay.1.mpr ⟨⟨_, rfl⟩, whole⟩
  refine ⟨out, shown, by rw [ran], read, ?_⟩
  rw [(relay.2 shown read).2.1, modelStream_hi]
  rfl

end relay

end AIService.Chat
