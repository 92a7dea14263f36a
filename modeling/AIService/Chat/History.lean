import AIService.Chat.Helper

/-!
# What a critical section does to a history

`AIHelper.Canonical` is the invariant of a history.  A critical section that ends in an
exception leaves the history alone and has nothing accepted by the queue; one that
succeeds appends one exchange, the one the queue accepted (`chat_spec`,
`chatStream_spec`).  Either way no addition overflows, and the requests it sends label
every message with its stored role.
-/

namespace AIService.Chat

open AIService.Action

/-- Alternating roles, complete exchanges, `long long` timestamps that never decrease. -/
structure AIHelper.Canonical (helper : AIHelper) : Prop where
  roles : helper.messageRoles_ = (List.range helper.messages.length).map (· % 2 == 0)
  even : helper.messages.length % 2 = 0
  inRange : ∀ message ∈ helper.messages, IsLongLong message.2
  ordered : helper.messages.Pairwise fun a b => a.2 ≤ b.2

/-- The stored roles with the contents. -/
def AIHelper.turns (helper : AIHelper) : List (Bool × Bytes) :=
  helper.messageRoles_.zip (helper.messages.map (·.1))

/-- The helper without its strategy. -/
def AIHelper.history (helper : AIHelper) : AIHelper := { helper with strategy := none }

/-- A message array that labels each content with the given role. -/
def labelled (turns : List (Bool × Bytes)) : Json :=
  .arr (turns.map fun (isUser, content) => .object
    [(bytes "role", .str (if isUser then bytes "user" else bytes "assistant")),
     (bytes "content", .str content)])

/-- The message array of a request. -/
def sentMessages (payload : Json) : Option Json :=
  match payload.field? (bytes "messages") with
  | some messages => some messages
  | none => (payload.field? (bytes "input")).bind (·.field? (bytes "messages"))

/-! ## Requests -/

theorem sentMessages_buildRequest (strategy : Strategy) (messages : List (Bytes × Int)) :
    sentMessages (strategy.buildRequest messages) = some (msgArray messages) := by
  cases strategy <;> rfl

theorem sentMessages_buildStreamRequest {strategy : Strategy} {messages : List (Bytes × Int)}
    {payload : Json} (sent : strategy.buildStreamRequest messages = some payload) :
    sentMessages payload = some (msgArray messages) := by
  cases strategy <;>
    · cases sent
      rfl

/-- Roles that go by position are the stored roles of a canonical history. -/
theorem AIHelper.Canonical.msgArray_eq {helper : AIHelper} (canonical : helper.Canonical)
    (prompt : Bytes) :
    msgArray (helper.messages ++ [(prompt, 0)]) = labelled (helper.turns ++ [(true, prompt)]) := by
  have even := canonical.even
  unfold msgArray labelled AIHelper.turns
  rw [canonical.roles]
  congr 1
  apply List.ext_getElem
  · simp
  · intro i inMessages inTurns
    simp only [List.length_mapIdx, List.length_append, List.length_singleton] at inMessages
    by_cases last : i < helper.messages.length
    · simp [List.getElem_append_left, last]
    · obtain rfl : i = helper.messages.length := by omega
      simp [even]

/-! ## Effects -/

/-- What a call sends upstream before it commits, as it fits the history. -/
def Preparatory (helper : AIHelper) : Effect → Prop
  | .asked payload => helper.Canonical →
      ∃ prompt, sentMessages payload = some (labelled (helper.turns ++ [(true, prompt)]))
  | .generated _ history => ∃ question, history = helper.messages ++ [(question, 0)]
  | _ => False

/-- Code before the commit: it keeps the history, and its requests fit it. -/
abbrev Prepares {α : Type} (m : Section α) : Prop :=
  m.Keeps AIHelper.history Preparatory (· ≠ .overflow)

theorem orThrow_prepares {α γ : Type} {view : AIHelper → γ} {shown : γ → Effect → Prop}
    (r : Except Bytes α) : (AIHelper.orThrow r).Keeps view shown (· ≠ .overflow) := by
  refine .lift fun e failed => ?_
  cases r with
  | error what =>
      cases failed
      nofun
  | ok a => cases failed

theorem orThrow_ok_bind {α β : Type} (a : α) (f : α → Section β) (helper : AIHelper) :
    (AIHelper.orThrow (.ok a) >>= f) helper = f a helper := rfl

theorem validateCanonicalHistory_prepares : Prepares AIHelper.validateCanonicalHistory := by
  refine .current_bind fun helper => ?_
  refine .ite (fun _ => .fail nofun) fun _ => ?_
  refine .ite (fun _ => .fail nofun) fun _ => ?_
  exact .ite (fun _ => .fail nofun) fun _ => .pure ()

theorem setStrategy_prepares (strategy : Strategy) : Prepares (AIHelper.setStrategy strategy) :=
  .update fun _ => rfl

variable (call : Call) (env : Environment) (strategy : Strategy)

theorem selectStrategy_prepares : Prepares (AIHelper.selectStrategy call env) := by
  refine .bind validateCanonicalHistory_prepares fun _ => ?_
  refine .bind (orThrow_prepares _) fun strategy => ?_
  exact .bind (setStrategy_prepares strategy) fun _ => .pure strategy

/-- A request built from the history labels it with its roles. -/
theorem preparatory_request {helper v : AIHelper} (same : v = helper.history) (prompt : Bytes)
    {payload : Json} (sent : sentMessages payload = some (msgArray (helper.messages ++ [(prompt, 0)]))) :
    Preparatory v (.asked payload) := by
  subst same
  exact fun canonical => ⟨prompt, sent.trans (congrArg some (canonical.msgArray_eq prompt))⟩

theorem answer_prepares : Prepares (AIHelper.answer call env strategy) := by
  refine .current_bind fun helper => ?_
  have asks (prompt : Bytes) (reply : Except Bytes Bytes) :
      (AIHelper.ask (strategy.buildRequest (helper.messages ++ [(prompt, 0)])) reply).Keeps
        AIHelper.history (fun v o => v = helper.history → Preparatory v o) (· ≠ .overflow) :=
    .bind (.emit fun v same => preparatory_request same prompt (sentMessages_buildRequest _ _))
      fun _ => orThrow_prepares reply
  refine .ite (fun _ => ?_) fun _ => .ite (fun _ => ?_) fun _ => asks _ _
  · refine .ite (fun _ => .bind (.emit fun v same => ?_) fun _ => ?_) fun _ => .fail nofun
    · subst same
      exact ⟨call.userQuestion, rfl⟩
    · cases env.failure with
      | some what => exact .fail nofun
      | none => exact .pure _
  · match env.config with
    | .error what => exact .fail nofun
    | .ok none => exact .fail nofun
    | .ok (some config) =>
        refine .bind (orThrow_prepares _) fun prompt => .bind (asks _ _) fun aiResult => ?_
        refine .ite (fun _ => ?_) fun _ => .pure _
        refine .bind (orThrow_prepares _) fun toolResult => ?_
        exact .bind (orThrow_prepares _) fun prompt => asks _ _

theorem requestStream_prepares : Prepares (AIHelper.requestStream call env strategy) := by
  refine .current_bind fun helper => .ite (fun _ => ?_) fun _ => ?_
  · refine .ite (fun _ => .emit fun v same => ?_) fun _ => .fail nofun
    subst same
    exact ⟨call.userQuestion, rfl⟩
  · cases sent : strategy.buildStreamRequest (helper.messages ++ [(call.userQuestion, 0)]) with
    | none => exact .fail nofun
    | some payload =>
        exact .emit fun v same =>
          preparatory_request same call.userQuestion (sentMessages_buildStreamRequest sent)

theorem streamed_eq (tokens : List Bytes) (helper : AIHelper) :
    AIHelper.streamed tokens helper = (tokens.map .onToken, helper, .ok ()) := by
  induction tokens generalizing helper with
  | nil => rfl
  | cons delta rest ih =>
      change Action.bind (emit (.onToken delta)) (fun _ => AIHelper.streamed rest) helper = _
      simp [Action.bind, emit, ih]

variable {call env strategy} {helper helper' : AIHelper} {out : List Effect}

/-- Code before the commit that runs after other such code. -/
theorem Prepares.after {α : Type} {m : Section α} {between : AIHelper} {asked : List Effect}
    {r : Except Fault α} (prepares : Prepares m) (same : between.history = helper.history)
    (fits : ∀ e ∈ asked, Preparatory helper.history e) (ran : m between = (out, helper', r)) :
    helper'.history = helper.history ∧ (∀ e ∈ asked ++ out, Preparatory helper.history e) ∧
      ∀ e, r = .error e → ∃ what, e = .threw what := by
  obtain ⟨same', fits', throws⟩ := prepares.spec ran
  refine ⟨same'.trans same, fun e member => ?_, fun e failed => ?_⟩
  · rcases List.mem_append.mp member with early | late
    · exact fits e early
    · exact same ▸ fits' e late
  · cases e with
    | threw what => exact ⟨what, rfl⟩
    | overflow => exact absurd rfl (throws _ failed)

/-- `fullText` sends its request, then hands on the tokens; what it returns is their
concatenation. -/
theorem fullText_spec {between : AIHelper} {asked : List Effect} {r : Except Fault Bytes}
    (same : between.history = helper.history) (fits : ∀ e ∈ asked, Preparatory helper.history e)
    (ran : AIHelper.fullText call env strategy between = (out, helper', r)) :
    helper'.history = helper.history ∧ ∃ asked', ∃ tokens : List Bytes,
      asked ++ out = asked' ++ tokens.map .onToken ∧ (∀ e ∈ asked', Preparatory helper.history e) ∧
      ((∃ what, r = .error (.threw what)) ∨ r = .ok tokens.flatten) := by
  rcases bind_cases ran with ⟨e, failed, rfl⟩ | ⟨request, _, _, _, sent, rest, rfl⟩
  · obtain ⟨same, fits, throws⟩ := (requestStream_prepares call env strategy).after same fits failed
    obtain ⟨what, rfl⟩ := throws e rfl
    exact ⟨same, asked ++ out, [], by simp, fits, .inl ⟨what, rfl⟩⟩
  obtain ⟨same, fits, -⟩ := (requestStream_prepares call env strategy).after same fits sent
  rcases bind_cases rest with ⟨e, failed, -⟩ | ⟨_, _, _, _, streamed, ended, rfl⟩
  · rw [streamed_eq] at failed
    cases failed
  rw [streamed_eq] at streamed
  cases streamed
  cases failure : env.failure with
  | some what =>
      rw [failure] at ended
      cases ended
      exact ⟨same, asked ++ request, env.tokens, by simp, fits, .inl ⟨what, rfl⟩⟩
  | none =>
      rw [failure] at ended
      cases ended
      exact ⟨same, asked ++ request, env.tokens, by simp, fits, .inr rfl⟩

/-! ## The commit -/

/-- The two messages of an exchange. -/
def ChatExchange.lines (x : ChatExchange) : List (Bytes × Int) :=
  [(x.question, x.ts), (x.answer, x.ts + 1)]

def AIHelper.append (helper : AIHelper) (x : ChatExchange) : AIHelper :=
  { helper with messages := helper.messages ++ x.lines
                messageRoles_ := helper.messageRoles_ ++ [true, false] }

/-- `body` is the serialized `x`, and reads back as `x`. -/
structure ChatExchange.WrittenAs (codec : JsonCodec) (x : ChatExchange) (body : Bytes) : Prop where
  serialized : x.serialize codec = some body
  parsed : ChatExchange.parse codec body = some x
  valid : x.Valid

/-- `body` is a serialized exchange of `call`. -/
structure Written (codec : JsonCodec) (call : Call) (body : Bytes) (x : ChatExchange) : Prop where
  writtenAs : x.WrittenAs codec body
  userId : x.userId = call.userId
  username : x.username = call.userName
  sessionId : x.sessionId = call.sessionId
  question : x.question = call.userQuestion

/-- What is published, and the exchange that the queue accepted. -/
inductive Sent (codec : JsonCodec) (call : Call) : Option ChatExchange → List Effect → Prop
  | nothing : Sent codec call none []
  | refused {body : Bytes} {x : ChatExchange} : Written codec call body x →
    Sent codec call none [.published (bytes "sql_queue") body false]
  | accepted {body : Bytes} {x : ChatExchange} : Written codec call body x →
    Sent codec call (some x) [.published (bytes "sql_queue") body true]

/-- No message is later than the last one. -/
theorem AIHelper.Canonical.le_last (canonical : helper.Canonical) {message : Bytes × Int}
    (member : message ∈ helper.messages) :
    ∃ last ∈ helper.messages.getLast?, message.2 ≤ last.2 := by
  rcases List.eq_nil_or_concat helper.messages with empty | ⟨earlier, last, split⟩
  · rw [empty] at member
    cases member
  · rw [split, List.concat_eq_append] at member ⊢
    refine ⟨last, by simp, ?_⟩
    have ordered := canonical.ordered
    rw [split, List.concat_eq_append] at ordered
    rcases List.mem_append.mp member with before | same
    · exact (List.pairwise_append.mp ordered).2.2 message before last List.mem_cons_self
    · rw [List.mem_singleton.mp same]

theorem AIHelper.Canonical.append (canonical : helper.Canonical) {x : ChatExchange} (valid : x.Valid)
    (later : ∀ message ∈ helper.messages, message.2 < x.ts) : (helper.append x).Canonical where
  roles := by
    have even := canonical.even
    simp [AIHelper.append, ChatExchange.lines, canonical.roles, List.range_succ, even]
    omega
  even := by simpa [AIHelper.append, ChatExchange.lines] using canonical.even
  inRange := by
    obtain ⟨low, high⟩ := valid.ts
    intro message member
    rcases List.mem_append.mp member with old | new
    · exact canonical.inRange message old
    · unfold IsLongLong llongMax at *
      simp only [ChatExchange.lines, List.mem_cons, List.not_mem_nil, or_false] at new
      rcases new with rfl | rfl <;> dsimp only <;> omega
  ordered := by
    refine List.pairwise_append.mpr ⟨canonical.ordered, by simp [ChatExchange.lines], ?_⟩
    intro a old b new
    have before := later a old
    simp only [ChatExchange.lines, List.mem_cons, List.not_mem_nil, or_false] at new
    rcases new with rfl | rfl <;> dsimp only <;> omega

/-- A commit's timestamp is a `long long` past the last message; the addition is in range. -/
theorem nextTimestamp_spec {now : Int} {last : Option (Bytes × Int)} {r : Except Fault Int}
    (clock : IsLongLong now) (inRange : ∀ message ∈ last, IsLongLong message.2)
    (ran : AIHelper.nextTimestamp now last helper = (out, helper', r)) :
    out = [] ∧ helper' = helper ∧ ((∃ what, r = .error (.threw what)) ∨
      ∃ ts, r = .ok ts ∧ IsLongLong ts ∧ ∀ message ∈ last, message.2 < ts) := by
  cases last with
  | none =>
      cases ran
      exact ⟨rfl, rfl, .inr ⟨now, rfl, clock, nofun⟩⟩
  | some message =>
      obtain ⟨content, back⟩ := message
      have bounds := inRange _ rfl
      simp only [AIHelper.nextTimestamp] at ran
      split at ran
      · cases ran
        exact ⟨rfl, rfl, .inl ⟨_, rfl⟩⟩
      · next room =>
          have sum : llongAdd back 1 = some (back + 1) := by
            refine if_pos ?_
            unfold IsLongLong llongMax at *
            dsimp only at bounds
            omega
          have next : IsLongLong (max now (back + 1)) := by
            unfold IsLongLong llongMax at *
            dsimp only at bounds
            omega
          simp only [AIHelper.add, sum] at ran
          cases ran
          refine ⟨rfl, rfl, .inr ⟨_, rfl, next, fun message eq => ?_⟩⟩
          cases eq
          exact Int.lt_of_lt_of_le (Int.lt_succ back) (le_max_right now (back + 1))

variable {codec : JsonCodec} {x : ChatExchange} {r : Except Fault Unit}

/-- An exchange is appended exactly when the queue accepted its body. -/
theorem submit_spec (lawful : codec.Lawful) (representable : IsLongLong x.ts)
    (ran : AIHelper.submit codec env x helper = (out, helper', r)) :
    ((∃ what, r = .error (.threw what)) ∧ helper' = helper ∧
      (out = [] ∨ ∃ body, x.WrittenAs codec body ∧ out = [.published (bytes "sql_queue") body false])) ∨
    r = .ok () ∧ helper' = helper.append x ∧
      ∃ body, x.WrittenAs codec body ∧ out = [.published (bytes "sql_queue") body true] := by
  unfold AIHelper.submit at ran
  cases serialized : x.serialize codec with
  | none =>
      rw [serialized] at ran
      cases ran
      exact .inl ⟨⟨env.dumpError, rfl⟩, rfl, .inl rfl⟩
  | some body =>
      rw [serialized] at ran
      rcases ChatExchange.parse_serialize lawful serialized representable with
        ⟨parsed, valid⟩ | ⟨none, -⟩
      · have written : x.WrittenAs codec body := ⟨serialized, parsed, valid⟩
        have sum : llongAdd x.ts 1 = some (x.ts + 1) := by
          obtain ⟨low, high⟩ := valid.ts
          refine if_pos ?_
          unfold IsLongLong llongMax at *
          omega
        simp only [parsed, Option.isNone_some, Bool.false_eq_true, if_false, AIHelper.add, sum] at ran
        rcases bind_cases ran with ⟨e, failed, -⟩ | ⟨_, _, _, _, eq, rest, rfl⟩
        · cases failed
        cases eq
        rw [emit_bind_eq] at rest
        cases verdict : env.accepted with
        | true =>
            rw [verdict] at rest
            cases rest
            exact .inr ⟨rfl, rfl, body, written, rfl⟩
        | false =>
            rw [verdict] at rest
            cases rest
            exact .inl ⟨⟨_, rfl⟩, rfl, .inr ⟨body, written, rfl⟩⟩
      · simp only [none, Option.isNone_none, if_true] at ran
        cases ran
        exact .inl ⟨⟨_, rfl⟩, rfl, .inl rfl⟩

/-- A commit appends the exchange exactly when the queue accepted its body. -/
theorem commitExchange_spec {answer : Bytes} (lawful : codec.Lawful) (canonical : helper.Canonical)
    (clock : IsLongLong env.clock)
    (ran : AIHelper.commitExchange codec call env answer helper = (out, helper', r)) :
    ((∃ what, r = .error (.threw what)) ∧ helper' = helper ∧ Sent codec call none out) ∨
    ∃ x, r = .ok () ∧ helper' = helper.append x ∧ x.answer = answer ∧
      Sent codec call (some x) out ∧ ∀ message ∈ helper.messages, message.2 < x.ts := by
  unfold AIHelper.commitExchange at ran
  rw [current_bind_eq] at ran
  have inRange : ∀ message ∈ helper.messages.getLast?, IsLongLong message.2 :=
    fun message last => canonical.inRange message (List.mem_of_getLast? last)
  rcases bind_cases ran with ⟨e, failed, rfl⟩ | ⟨_, same, ts, out₂, timed, rest, rfl⟩
  · obtain ⟨rfl, rfl, ⟨what, thrown⟩ | ⟨ts, eq, -⟩⟩ := nextTimestamp_spec clock inRange failed
    · exact .inl ⟨⟨what, by cases thrown; rfl⟩, rfl, .nothing⟩
    · cases eq
  obtain ⟨rfl, rfl, ⟨what, thrown⟩ | ⟨_, eq, representable, afterLast⟩⟩ :=
    nextTimestamp_spec clock inRange timed
  · cases thrown
  cases eq
  cases drawn : env.secureId with
  | error what =>
      rw [drawn] at rest
      cases rest
      exact .inl ⟨⟨what, rfl⟩, rfl, .nothing⟩
  | ok messageId =>
      rw [drawn, orThrow_ok_bind] at rest
      have later : ∀ message ∈ same.messages, message.2 < ts := by
        intro message member
        obtain ⟨last, isLast, below⟩ := canonical.le_last member
        exact Int.lt_of_le_of_lt below (afterLast last isLast)
      rcases submit_spec lawful representable rest with
        ⟨thrown, rfl, rfl | ⟨body, written, rfl⟩⟩ | ⟨rfl, rfl, body, written, rfl⟩
      · exact .inl ⟨thrown, rfl, .nothing⟩
      · exact .inl ⟨thrown, rfl, .refused ⟨written, rfl, rfl, rfl, rfl⟩⟩
      · exact .inr ⟨_, rfl, rfl, rfl, .accepted ⟨written, rfl, rfl, rfl, rfl⟩, later⟩

/-! ## The critical sections -/

/-- The effects of a critical section: requests that fit the history, the tokens handed
on, and at most one publication. -/
def Shape (codec : JsonCodec) (call : Call) (helper : AIHelper) (tokens : List Bytes)
    (accepted : Option ChatExchange) (out : List Effect) : Prop :=
  ∃ asked sent, out = asked ++ tokens.map .onToken ++ sent ∧
    (∀ e ∈ asked, Preparatory helper.history e) ∧ Sent codec call accepted sent

/-- A critical section left the history alone; the queue accepted nothing from it. -/
structure Kept (codec : JsonCodec) (call : Call) (helper : AIHelper) (tokens : List Bytes)
    (out : List Effect) (helper' : AIHelper) : Prop where
  history : helper'.history = helper.history
  effects : Shape codec call helper tokens none out

/-- A critical section appended `x`, which the queue accepted. -/
structure Appended (codec : JsonCodec) (call : Call) (helper : AIHelper) (tokens : List Bytes)
    (x : ChatExchange) (out : List Effect) (helper' : AIHelper) : Prop where
  history : helper'.history = (helper.append x).history
  effects : Shape codec call helper tokens (some x) out
  later : ∀ message ∈ helper.messages, message.2 < x.ts

theorem AIHelper.Canonical.of_history (same : helper'.history = helper.history)
    (canonical : helper.Canonical) : helper'.Canonical := by
  obtain ⟨roles, even, inRange, ordered⟩ := canonical
  have messages : helper'.messages = helper.messages := congrArg (·.messages) same
  have storedRoles : helper'.messageRoles_ = helper.messageRoles_ := congrArg (·.messageRoles_) same
  exact ⟨messages ▸ storedRoles ▸ roles, messages ▸ even, messages ▸ inRange, messages ▸ ordered⟩

/-- What concludes a critical section that has sent its requests and handed on its tokens. -/
theorem conclude_spec {answer : Bytes} {between : AIHelper} {asked : List Effect}
    {t : List Bytes} (lawful : codec.Lawful) (canonical : helper.Canonical)
    (clock : IsLongLong env.clock) (same : between.history = helper.history)
    (fits : ∀ e ∈ asked, Preparatory helper.history e)
    (ran : AIHelper.conclude codec call env answer between = (out, helper', r)) :
    (∃ what, r = .error (.threw what)) ∧
      Kept codec call helper t (asked ++ t.map .onToken ++ out) helper' ∨
    ∃ x, r = .ok () ∧ x.answer = answer ∧
      Appended codec call helper t x (asked ++ t.map .onToken ++ out) helper' := by
  unfold AIHelper.conclude at ran
  by_cases empty : answer.isEmpty = true
  · rw [if_pos empty] at ran
    cases ran
    exact .inl ⟨⟨_, rfl⟩, same, asked, [], rfl, fits, .nothing⟩
  · rw [if_neg empty] at ran
    rcases commitExchange_spec lawful (canonical.of_history same) clock ran with
      ⟨thrown, rfl, sent⟩ | ⟨x, rfl, rfl, told, sent, later⟩
    · exact .inl ⟨thrown, same, asked, out, rfl, fits, sent⟩
    · have messages : between.messages = helper.messages := congrArg (·.messages) same
      have roles : between.messageRoles_ = helper.messageRoles_ := congrArg (·.messageRoles_) same
      refine .inr ⟨x, rfl, told, ?_, ⟨asked, out, rfl, fits, sent⟩, messages ▸ later⟩
      simp only [AIHelper.append, AIHelper.history, messages, roles]

/-- Requests alone leave the history alone. -/
theorem Kept.of_requests (same : helper'.history = helper.history)
    (fits : ∀ e ∈ out, Preparatory helper.history e) : Kept codec call helper [] out helper' :=
  ⟨same, out, [], by simp, fits, .nothing⟩

theorem chat_spec {r : Except Fault Bytes} (lawful : codec.Lawful) (canonical : helper.Canonical)
    (clock : IsLongLong env.clock) (ran : AIHelper.chat codec call env helper = (out, helper', r)) :
    (∃ what, r = .error (.threw what)) ∧ Kept codec call helper [] out helper' ∨
    ∃ x, r = .ok x.answer ∧ Appended codec call helper [] x out helper' := by
  rcases bind_cases ran with ⟨e, failed, rfl⟩ | ⟨out₁, _, strategy, _, chosen, rest, rfl⟩
  · obtain ⟨same, fits, throws⟩ :=
      Prepares.after (selectStrategy_prepares call env) rfl (List.forall_mem_nil _) failed
    obtain ⟨what, rfl⟩ := throws e rfl
    exact .inl ⟨⟨what, rfl⟩, .of_requests same fits⟩
  obtain ⟨same, fits, -⟩ :=
    Prepares.after (selectStrategy_prepares call env) rfl (List.forall_mem_nil _) chosen
  rw [List.nil_append] at fits
  rcases bind_cases rest with ⟨e, failed, rfl⟩ | ⟨out₂, _, answer, _, told, final, rfl⟩
  · obtain ⟨same, fits, throws⟩ := Prepares.after (answer_prepares call env strategy) same fits failed
    obtain ⟨what, rfl⟩ := throws e rfl
    exact .inl ⟨⟨what, rfl⟩, .of_requests same fits⟩
  obtain ⟨same, fits, -⟩ := Prepares.after (answer_prepares call env strategy) same fits told
  rw [← List.append_assoc]
  rcases bind_cases final with ⟨e, failed, rfl⟩ | ⟨out₃, _, _, _, committed, ended, rfl⟩
  · rcases conclude_spec (t := []) lawful canonical clock same fits failed with
      ⟨⟨what, thrown⟩, kept⟩ | ⟨x, eq, -⟩
    · cases thrown
      exact .inl ⟨⟨what, rfl⟩, by simpa using kept⟩
    · cases eq
  · cases ended
    rcases conclude_spec (t := []) lawful canonical clock same fits committed with
      ⟨⟨what, thrown⟩, -⟩ | ⟨x, -, rfl, appended⟩
    · cases thrown
    · exact .inr ⟨x, rfl, by simpa using appended⟩

/-- The first critical section of `chatStream`: it fails, or hands over to `chat`, or
commits and calls `on_done` with the concatenation of its tokens. -/
theorem chatStream_spec {r : Except Fault (Option Bytes)} (lawful : codec.Lawful)
    (canonical : helper.Canonical) (clock : IsLongLong env.clock)
    (ran : AIHelper.chatStream codec call env helper = (out, helper', r)) :
    (∃ what tokens, r = .error (.threw what) ∧ Kept codec call helper tokens out helper') ∨
    (r = .ok none ∧ Kept codec call helper [] out helper') ∨
    ∃ x tokens before, r = .ok (some x.answer) ∧ out = before ++ [.onDone x.answer] ∧
      x.answer = tokens.flatten ∧ Appended codec call helper tokens x before helper' := by
  rcases bind_cases ran with ⟨e, failed, rfl⟩ | ⟨out₁, _, strategy, _, chosen, rest, rfl⟩
  · obtain ⟨same, fits, throws⟩ :=
      Prepares.after (selectStrategy_prepares call env) rfl (List.forall_mem_nil _) failed
    obtain ⟨what, rfl⟩ := throws e rfl
    exact .inl ⟨what, [], rfl, .of_requests same fits⟩
  obtain ⟨same, fits, -⟩ :=
    Prepares.after (selectStrategy_prepares call env) rfl (List.forall_mem_nil _) chosen
  rw [List.nil_append] at fits
  by_cases tool : strategy.isMCPModel = true
  · rw [if_pos tool] at rest
    cases rest
    exact .inr (.inl ⟨rfl, .of_requests same (by simpa using fits)⟩)
  rw [if_neg tool] at rest
  rcases bind_cases rest with ⟨e, failed, rfl⟩ | ⟨out₂, _, text, _, told, final, rfl⟩
  · obtain ⟨same, asked, tokens, eq, fits, ⟨what, thrown⟩ | eq⟩ := fullText_spec same fits failed
    · cases thrown
      rw [eq]
      exact .inl ⟨what, tokens, rfl, same, asked, [], by simp, fits, .nothing⟩
    · cases eq
  obtain ⟨same, asked, tokens, eq, fits, ⟨what, thrown⟩ | all⟩ := fullText_spec same fits told
  · cases thrown
  cases all
  rw [← List.append_assoc, eq]
  rcases bind_cases final with ⟨e, failed, rfl⟩ | ⟨out₃, _, _, _, committed, ended, rfl⟩
  · rcases conclude_spec lawful canonical clock same fits failed with
      ⟨⟨what, thrown⟩, kept⟩ | ⟨x, eq, -⟩
    · cases thrown
      exact .inl ⟨what, tokens, rfl, kept⟩
    · cases eq
  · rw [emit_bind_eq] at ended
    cases ended
    rcases conclude_spec lawful canonical clock same fits committed with
      ⟨⟨what, thrown⟩, -⟩ | ⟨x, -, answered, appended⟩
    · cases thrown
    · refine .inr (.inr ⟨x, tokens, asked ++ tokens.map .onToken ++ out₃, ?_, ?_, answered, appended⟩)
      · rw [answered]
      · rw [answered, ← List.append_assoc]
        rfl

end AIService.Chat
