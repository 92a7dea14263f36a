import AIService.Chat.Server

/-!
# Who owns a chat session

Every helper the maps point to was made for the user and the session under which it stands
(`Owned`), every request uses a helper of its own user, and a helper's messages are restored
rows of its session or exchanges of requests of its user (`chat_ownership`).  The ids listed
for a user are exactly the user's sessions.
-/

namespace AIService.Chat

open AIService.Action

/-! ## What a critical section adds to the history -/

/-- The messages before and after: the same, or one published exchange more. -/
def Grows (codec : JsonCodec) (call : Call) (out : List Effect) (before after : AIHelper) : Prop :=
  after.messages = before.messages ∨
    ∃ x : ChatExchange, ∃ body, x.serialize codec = some body ∧ x.userId = call.userId ∧
      x.sessionId = call.sessionId ∧ .published (bytes "sql_queue") body true ∈ out ∧
      after.messages = before.messages ++ x.lines

section grows

variable {codec : JsonCodec} {call : Call} {env : Environment} {helper between helper' : AIHelper}
  {out out₁ out₂ : List Effect}

/-- Code that keeps the history comes first. -/
theorem Grows.after (same : between.history = helper.history)
    (grows : Grows codec call out₂ between helper') :
    Grows codec call (out₁ ++ out₂) helper helper' := by
  have messages : between.messages = helper.messages := congrArg (·.messages) same
  rcases grows with kept | ⟨x, body, written, user, session, published, appended⟩
  · exact .inl (kept.trans messages)
  · exact .inr ⟨x, body, written, user, session, List.mem_append_right _ published,
      by rw [appended, messages]⟩

theorem Grows.append (grows : Grows codec call out₁ helper helper') :
    Grows codec call (out₁ ++ out₂) helper helper' := by
  rcases grows with kept | ⟨x, body, written, user, session, published, appended⟩
  · exact .inl kept
  · exact .inr ⟨x, body, written, user, session, List.mem_append_left _ published, appended⟩

theorem Grows.of_prepares {α : Type} {m : Section α} {r : Except Fault α} (prepares : Prepares m)
    (ran : m helper = (out, helper', r)) : Grows codec call out helper helper' :=
  .inl (congrArg (·.messages) (prepares.spec ran).1)

theorem add_prepares (a b : Int) :
    (AIHelper.add a b).Keeps AIHelper.history Preparatory fun _ => True := by
  unfold AIHelper.add
  cases llongAdd a b with
  | none => exact .fail trivial
  | some sum => exact .pure sum

theorem nextTimestamp_keeps (now : Int) (last : Option (Bytes × Int)) :
    (AIHelper.nextTimestamp now last).Keeps AIHelper.history Preparatory fun _ => True := by
  cases last with
  | none => exact .pure now
  | some message =>
      refine .ite (fun _ => .fail trivial) fun _ => ?_
      exact .bind (add_prepares _ _) fun next => .pure _

theorem submit_grows {x : ChatExchange} {r : Except Fault Unit} (user : x.userId = call.userId)
    (session : x.sessionId = call.sessionId)
    (ran : AIHelper.submit codec env x helper = (out, helper', r)) :
    Grows codec call out helper helper' := by
  unfold AIHelper.submit at ran
  cases written : x.serialize codec with
  | none =>
      rw [written] at ran
      cases ran
      exact .inl rfl
  | some body =>
      rw [written] at ran
      dsimp only at ran
      split at ran
      · cases ran
        exact .inl rfl
      · cases sum : llongAdd x.ts 1 with
        | none =>
            simp only [AIHelper.add, sum] at ran
            cases ran
            exact .inl rfl
        | some ts =>
            have next : ts = x.ts + 1 := by
              unfold llongAdd at sum
              split at sum
              · exact (Option.some.inj sum).symm
              · cases sum
            subst next
            simp only [AIHelper.add, sum] at ran
            rcases bind_cases ran with ⟨e, failed, -⟩ | ⟨_, _, _, _, added, ran, rfl⟩
            · cases failed
            cases added
            rw [emit_bind_eq] at ran
            cases accepted : env.accepted with
            | false =>
                rw [accepted] at ran
                cases ran
                exact .inl rfl
            | true =>
                rw [accepted] at ran
                cases ran
                exact .inr ⟨x, body, written, user, session, by simp, rfl⟩

theorem conclude_grows {answer : Bytes} {r : Except Fault Unit}
    (ran : AIHelper.conclude codec call env answer helper = (out, helper', r)) :
    Grows codec call out helper helper' := by
  unfold AIHelper.conclude at ran
  split at ran
  · cases ran
    exact .inl rfl
  · unfold AIHelper.commitExchange at ran
    rw [current_bind_eq] at ran
    rcases bind_cases ran with ⟨e, failed, -⟩ | ⟨_, _, ts, _, timed, rest, rfl⟩
    · exact .inl (congrArg (·.messages) ((nextTimestamp_keeps _ _).spec failed).1)
    have same := ((nextTimestamp_keeps _ _).spec timed).1
    cases drawn : env.secureId with
    | error what =>
        rw [drawn] at rest
        cases rest
        exact .inl (congrArg (·.messages) same)
    | ok messageId =>
        rw [drawn, orThrow_ok_bind] at rest
        exact (submit_grows rfl rfl rest).after same

theorem chat_grows {r : Except Fault Bytes}
    (ran : AIHelper.chat codec call env helper = (out, helper', r)) :
    Grows codec call out helper helper' := by
  rcases bind_cases ran with ⟨e, failed, -⟩ | ⟨_, _, strategy, _, chosen, rest, rfl⟩
  · exact .of_prepares (selectStrategy_prepares call env) failed
  refine .after ((selectStrategy_prepares call env).spec chosen).1 ?_
  rcases bind_cases rest with ⟨e, failed, -⟩ | ⟨_, _, answer, _, told, final, rfl⟩
  · exact .of_prepares (answer_prepares call env strategy) failed
  refine .after ((answer_prepares call env strategy).spec told).1 ?_
  rcases bind_cases final with ⟨e, failed, -⟩ | ⟨_, _, _, _, concluded, ended, rfl⟩
  · exact conclude_grows failed
  · cases ended
    exact (conclude_grows concluded).append

theorem chatStream_grows {r : Except Fault (Option Bytes)}
    (ran : AIHelper.chatStream codec call env helper = (out, helper', r)) :
    Grows codec call out helper helper' := by
  rcases bind_cases ran with ⟨e, failed, -⟩ | ⟨_, _, strategy, _, chosen, rest, rfl⟩
  · exact .of_prepares (selectStrategy_prepares call env) failed
  refine .after ((selectStrategy_prepares call env).spec chosen).1 ?_
  by_cases tool : strategy.isMCPModel = true
  · rw [if_pos tool] at rest
    cases rest
    exact .inl rfl
  rw [if_neg tool] at rest
  rcases bind_cases rest with ⟨e, failed, -⟩ | ⟨_, _, text, _, told, final, rfl⟩
  · exact .inl (congrArg (·.messages) (fullText_spec rfl (List.forall_mem_nil _) failed).1)
  refine .after (fullText_spec rfl (List.forall_mem_nil _) told).1 ?_
  rcases bind_cases final with ⟨e, failed, -⟩ | ⟨_, _, _, _, concluded, ended, rfl⟩
  · exact conclude_grows failed
  · rw [emit_bind_eq] at ended
    cases ended
    exact (conclude_grows concluded).append

end grows

theorem getHistorySnapshot_same {helper helper' : AIHelper} {out : List Effect}
    {r : Except Fault (List HistoryMessage)}
    (ran : AIHelper.getHistorySnapshot helper = (out, helper', r)) : helper' = helper := by
  unfold AIHelper.getHistorySnapshot at ran
  rw [current_bind_eq] at ran
  split at ran <;> cases ran <;> rfl

/-- The call that a step moves: it begins, or it left its first section before. -/
def Moves (w w' : World) (out : List Obs) (k : Nat) (call : Call) : Prop :=
  (∃ streaming rest, out = (k, .began streaming call) :: rest ∧ w'.nextCall = w.nextCall + 1) ∨
    w.phase k = .unlocked call

/-- What one step adds to the helper's messages comes from the call it moves. -/
theorem Step.grows {codec : JsonCodec} {w w' : World} {out : List Obs} (step : Step codec w out w') :
    w'.helper.messages = w.helper.messages ∨
    ∃ (k : Nat) (call : Call) (x : ChatExchange) (body : Bytes), Moves w w' out k call ∧
      x.serialize codec = some body ∧ x.userId = call.userId ∧ x.sessionId = call.sessionId ∧
      (k, .published (bytes "sql_queue") body true) ∈ out ∧
      w'.helper.messages = w.helper.messages ++ x.lines := by
  cases step with
  | chat call env clock ran =>
      rcases chat_grows ran with kept | ⟨x, body, written, user, session, published, appended⟩
      · exact .inl kept
      · exact .inr ⟨w.nextCall, call, x, body, .inl ⟨false, _, rfl, rfl⟩, written, user, session,
          List.mem_map_of_mem (List.mem_append_left _ (.tail _ published)), appended⟩
  | chatStream call env clock ran result =>
      rcases chatStream_grows ran with kept | ⟨x, body, written, user, session, published, appended⟩
      · exact .inl kept
      · exact .inr ⟨w.nextCall, call, x, body, .inl ⟨true, _, rfl, rfl⟩, written, user, session,
          List.mem_map_of_mem (List.mem_append_left _ (.tail _ published)), appended⟩
  | @resume n call _ _ _ _ _ env unlocked clock ran result =>
      rcases chat_grows ran with kept | ⟨x, body, written, user, session, published, appended⟩
      · exact .inl kept
      · exact .inr ⟨n, call, x, body, .inr unlocked, written, user, session,
          List.mem_map_of_mem (List.mem_append_left _ published), appended⟩
  | callBack => exact .inl rfl
  | report => exact .inl rfl
  | getHistorySnapshot ran => exact .inl (congrArg (·.messages) (getHistorySnapshot_same ran))
  | refuseSnapshot ran => exact .inl (congrArg (·.messages) (getHistorySnapshot_same ran))

/-- A call between two sections was there before, or the step moved it. -/
theorem Step.unlocked {codec : JsonCodec} {w w' : World} {out : List Obs} {k : Nat} {call : Call}
    (step : Step codec w out w') (phase : w'.phase k = .unlocked call) : Moves w w' out k call := by
  have kept {n : Nat} {p : Phase} (other : p ≠ .unlocked call)
      (phase : Function.update w.phase n p k = .unlocked call) : w.phase k = .unlocked call := by
    by_cases same : k = n
    · subst same
      rw [Function.update_self] at phase
      exact absurd phase other
    · rwa [Function.update_of_ne same] at phase
  have ended {n : Nat} (phase : Function.update w.phase n .over k = .unlocked call) :
      w.phase k = .unlocked call := kept (p := .over) nofun phase
  cases step with
  | chat => exact .inr (ended phase)
  | @chatStream _ _ _ r p call' env clock ran result =>
      by_cases same : k = w.nextCall
      · subst same
        have here : p = .unlocked call := by
          simpa [World.advance] using phase
        subst here
        cases r with
        | error fault =>
            cases fault <;> cases result
        | ok text =>
            have next : (if text.isNone then Phase.unlocked call' else .over) = .unlocked call :=
              (Prod.mk.inj result).2
            split at next
            · cases next
              exact .inl ⟨true, _, rfl, rfl⟩
            · cases next
      · refine .inr ?_
        have old : Function.update w.phase w.nextCall p k = .unlocked call := phase
        rwa [Function.update_of_ne same] at old
  | @resume n _ _ _ _ r p env stands clock ran result =>
      refine .inr (kept ?_ phase)
      rintro rfl
      cases r with
      | error fault => cases fault <;> cases result
      | ok answer => cases result
  | callBack => exact .inr (ended phase)
  | report => exact .inr (ended phase)
  | getHistorySnapshot => exact .inr (ended phase)
  | refuseSnapshot => exact .inr (ended phase)

/-! ## What a handler does -/

section handlers

variable {codec : JsonCodec} {texts : Texts} {s s' : ChatServer} {login : LoginSession}
  {body : Bytes} {out : List ServerObs}

theorem authorize_user {userId : Int32} (ran : authorize texts login = .ok userId) :
    login.user? = some userId.toInt := by
  unfold authorize at ran
  unfold LoginSession.user?
  split at ran
  · cases ran
  · next loggedIn =>
      rw [if_pos (not_not.mp loggedIn)]
      split at ran
      · cases ran
      · next userId' read =>
          cases ran
          rw [read]
          rfl

/-- The task of a request fits the helper it uses. -/
def Task.Fits (ref : HelperRef) : Task → Prop
  | .exchange _ _ call => call.userId.toInt = ref.user ∧ call.sessionId = ref.session
  | .history => True

/-- How a handler's first section may end for its user `u`: in a reply, with a session under
a generated id, with the helper of a session of `u`, or with the list of the user's ids. -/
inductive Handled (s : ChatServer) (login : LoginSession) : List ServerObs → ChatServer → Prop
  | refused (reply : Reply) :
    Handled s login (s.refuse login reply).1 (s.refuse login reply).2
  | created {u : Int} {id : Bytes} {event : List ServerObs} {task : Task} :
    login.user? = some u → (∀ o ∈ event, ∃ e, o = .sent s.nextRequest e) →
    (∀ ref : HelperRef, ref.user = u → ref.session = id → task.Fits ref) →
    Handled s login ([.acts s.nextRequest login, .created s.nextRequest id] ++ event)
      ((s.createSession u id).1.enter ⟨login, (s.createSession u id).2, task, none⟩)
  | found {u : Int} {id : Bytes} {ref : HelperRef} {task : Task} :
    login.user? = some u → s.helper? u id = some ref →
    (ref.user = u → ref.session = id → task.Fits ref) →
    Handled s login [.acts s.nextRequest login] (s.enter ⟨login, ref, task, none⟩)
  | listed {u : Int} {reply : Reply} : login.user? = some u →
    Handled s login [.acts s.nextRequest login, .listed s.nextRequest (s.ids u),
        .replied s.nextRequest reply]
      { s.finish with sessionsIdsMap := s.sessionsIdsMap.insert u (s.ids u) }

theorem createAndSend_handled (secureId : Except Bytes Bytes) :
    Handled s login (s.createAndSend codec texts login body secureId).1
      (s.createAndSend codec texts login body secureId).2 := by
  unfold ChatServer.createAndSend
  split
  · exact .refused _
  · next userId arguments id ran =>
      obtain ⟨_, authorized, ran⟩ := bind_eq_ok ran
      obtain ⟨_, -, ran⟩ := bind_eq_ok ran
      obtain ⟨_, -, ran⟩ := bind_eq_ok ran
      cases ran
      refine .created (authorize_user authorized) ?_ fun ref user session => ⟨user.symm, session.symm⟩
      intro o member
      split at member
      · exact ⟨_, List.mem_singleton.mp member⟩
      · cases member

theorem send_handled :
    Handled s login (s.send codec texts login body).1 (s.send codec texts login body).2 := by
  unfold ChatServer.send
  split
  · exact .refused _
  · next userId arguments ref ran =>
      obtain ⟨_, authorized, ran⟩ := bind_eq_ok ran
      obtain ⟨_, -, ran⟩ := bind_eq_ok ran
      split at ran
      · cases ran
      · split at ran
        · cases ran
        · next found =>
            cases ran
            exact .found (authorize_user authorized) found
              fun user session => ⟨user.symm, session.symm⟩

theorem history_handled :
    Handled s login (s.history codec texts login body).1 (s.history codec texts login body).2 := by
  unfold ChatServer.history
  split
  · exact .refused _
  · next ref ran =>
      obtain ⟨_, authorized, ran⟩ := bind_eq_ok ran
      obtain ⟨_, -, ran⟩ := bind_eq_ok ran
      split at ran
      · cases ran
      · next found =>
          cases ran
          exact .found (authorize_user authorized) found fun _ _ => trivial

theorem sessions_handled :
    Handled s login (s.sessions texts login).1 (s.sessions texts login).2 := by
  unfold ChatServer.sessions
  split
  · exact .refused _
  · next userId authorized => exact .listed (authorize_user authorized)

/-- The session of a user after `createSession`. -/
theorem createSession_cases (s : ChatServer) (u : Int) (id : Bytes) :
    (s.helper? u id = some (s.createSession u id).2 ∧ (s.createSession u id).1 = s) ∨
    s.helper? u id = none ∧ (s.createSession u id).2 = ⟨s.births, u, id⟩ ∧
      (s.createSession u id).1.requests = s.requests ∧
      (s.createSession u id).1.nextRequest = s.nextRequest ∧
      (∀ v id', (s.createSession u id).1.helper? v id' =
        if u = v ∧ id = id' then some ⟨s.births, u, id⟩ else s.helper? v id') ∧
      (∀ v, (s.createSession u id).1.ids v = if u = v then s.ids v ++ [id] else s.ids v) ∧
      (∀ v, v ≠ u →
        (s.createSession u id).1.chatInformation.find? v = s.chatInformation.find? v) ∧
      (s.createSession u id).1.helpers =
        Function.update s.helpers ⟨s.births, u, id⟩ { helper := {} } := by
  have whole : s.helper? u id = ((s.chatInformation.find? u).getD .empty).find? id := by
    unfold ChatServer.helper?
    cases s.chatInformation.find? u <;> rfl
  unfold ChatServer.createSession
  dsimp only
  cases found : ((s.chatInformation.find? u).getD .empty).find? id with
  | some ref => exact .inl ⟨whole.trans found, rfl⟩
  | none =>
      refine .inr ⟨whole.trans found, rfl, rfl, rfl, fun v id' => ?_, fun v => ?_, fun v ne => ?_, rfl⟩
      · unfold ChatServer.helper?
        dsimp only
        rw [SortedMap.find?_insert]
        by_cases user : u = v
        · subst user
          rw [if_pos rfl, Option.bind_some, SortedMap.find?_insert]
          by_cases session : id = id'
          · simp [session]
          · cases s.chatInformation.find? u <;> simp [session]
        · simp [user]
      · unfold ChatServer.ids
        dsimp only
        rw [SortedMap.find?_insert]
        by_cases user : u = v
        · subst user
          simp
        · simp [user]
      · exact SortedMap.find?_insert_of_ne _ (Ne.symm ne) _

end handlers

/-! ## What a restore does -/

section restore

theorem mem_helperOf {u : Int} {id : Bytes} {rows : List ChatRow} {m : Bytes × Int}
    (member : m ∈ ((helperOf (rowsOf u id rows)).getD {}).messages) :
    ∃ row ∈ rows, row.id = u ∧ row.sessionId = id ∧ m = (row.content, row.ts) := by
  have listed : m ∈ (rowsOf u id rows).map fun row => (row.content, row.ts) := by
    cases here : rowsOf u id rows with
    | nil =>
        rw [here] at member
        cases member
    | cons row rest =>
        rw [here] at member
        exact member
  obtain ⟨row, kept, rfl⟩ := List.mem_map.mp listed
  obtain ⟨member, fits⟩ := List.mem_filter.mp kept
  obtain ⟨user, session⟩ := of_decide_eq_true fits
  exact ⟨row, member, user, session, rfl⟩

variable (s : ChatServer) (maps : ChatMaps)

theorem swapIn_helper? (u : Int) (id : Bytes) :
    (s.swapIn maps).helper? u id = (maps.helper? u id).map fun _ => ⟨s.births, u, id⟩ := by
  unfold ChatServer.helper? ChatMaps.helper? ChatServer.swapIn
  dsimp only
  rw [SortedMap.find?_map]
  cases maps.chatInformation.find? u with
  | none => rfl
  | some sessions => exact SortedMap.find?_map _ _ _

end restore

/-! ## The invariant -/

/-- Where a message of session `id` of user `u` came from: a restored row, or an exchange of
a request of the user. -/
def Came (codec : JsonCodec) (tr : List ServerObs) (u : Int) (id : Bytes) (m : Bytes × Int) : Prop :=
  (∃ rows, .restored rows ∈ tr ∧
    ∃ row ∈ rows, row.id = u ∧ row.sessionId = id ∧ m = (row.content, row.ts)) ∨
  ∃ (n : Nat) (login : LoginSession) (ref : HelperRef) (k : Nat) (x : ChatExchange) (body : Bytes),
    .acts n login ∈ tr ∧ login.user? = some u ∧
    .chat n ref (k, .published (bytes "sql_queue") body true) ∈ tr ∧
    x.serialize codec = some body ∧ x.userId.toInt = u ∧ x.sessionId = id ∧ m ∈ x.lines

theorem Came.later {codec : JsonCodec} {tr out : List ServerObs} {u : Int} {id : Bytes}
    {m : Bytes × Int} (came : Came codec tr u id m) : Came codec (tr ++ out) u id m := by
  rcases came with ⟨rows, restored, row⟩ | ⟨n, login, ref, k, x, body, acts, user, chat, rest⟩
  · exact .inl ⟨rows, List.mem_append_left _ restored, row⟩
  · exact .inr ⟨n, login, ref, k, x, body, List.mem_append_left _ acts, user,
      List.mem_append_left _ chat, rest⟩

structure Owned (codec : JsonCodec) (s : ChatServer) (tr : List ServerObs) : Prop where
  nodup (u : Int) : (s.ids u).Nodup
  exact_ (u : Int) (id : Bytes) : id ∈ s.ids u ↔ (s.helper? u id).isSome
  refs {u : Int} {id : Bytes} {ref : HelperRef} :
    s.helper? u id = some ref → ref.user = u ∧ ref.session = id
  serving {n : Nat} {serving : Serving} : s.requests n = some serving →
    serving.login.user? = some serving.ref.user ∧ serving.task.Fits serving.ref
  phases {ref : HelperRef} {k : Nat} {call : Call} : (s.helpers ref).phase k = .unlocked call →
    call.userId.toInt = ref.user ∧ call.sessionId = ref.session
  came {ref : HelperRef} {m : Bytes × Int} : m ∈ (s.helpers ref).helper.messages →
    Came codec tr ref.user ref.session m

namespace Owned

variable {codec : JsonCodec} {texts : Texts} {s : ChatServer} {tr out : List ServerObs}

theorem initial : Owned codec {} [] where
  nodup _ := .nil
  exact_ _ _ := by simp [ChatServer.ids, ChatServer.helper?]
  refs none := nomatch none
  serving none := nomatch none
  phases idle := nomatch idle
  came none := nomatch none

theorem later (owned : Owned codec s tr) (out : List ServerObs) : Owned codec s (tr ++ out) where
  nodup := owned.nodup
  exact_ := owned.exact_
  refs := owned.refs
  serving := owned.serving
  phases := owned.phases
  came member := (owned.came member).later

theorem swapIn (owned : Owned codec s tr) {rows : List ChatRow} {maps : ChatMaps}
    (ran : readDataFromMySQL rows = .ok maps) :
    Owned codec (s.swapIn maps) (tr ++ [.restored rows]) where
  nodup := (read_spec ran).1.nodup
  exact_ u id := by
    rw [swapIn_helper?, Option.isSome_map]
    exact (read_spec ran).1.exact_ u id
  refs found := by
    rw [swapIn_helper?] at found
    obtain ⟨_, -, rfl⟩ := Option.map_eq_some_iff.mp found
    exact ⟨rfl, rfl⟩
  serving := owned.serving
  phases {ref k call} unlocked := by
    unfold ChatServer.swapIn at unlocked
    dsimp only at unlocked
    split at unlocked
    · cases unlocked
    · exact owned.phases unlocked
  came {ref m} member := by
    unfold ChatServer.swapIn at member
    dsimp only at member
    split at member
    · dsimp only at member
      rw [(read_spec ran).2] at member
      exact .inl ⟨rows, by simp, mem_helperOf member⟩
    · exact (owned.came member).later

theorem createSession (owned : Owned codec s tr) (u : Int) (id : Bytes) :
    Owned codec (s.createSession u id).1 tr ∧ (s.createSession u id).2.user = u ∧
      (s.createSession u id).2.session = id := by
  rcases createSession_cases s u id with
    ⟨found, same⟩ | ⟨new, ref, requests, -, helper?, ids, -, helpers⟩
  · rw [same]
    exact ⟨owned, owned.refs found⟩
  rw [ref]
  refine ⟨?_, rfl, rfl⟩
  constructor
  case nodup =>
    intro v
    rw [ids]
    split
    · next here =>
        subst here
        refine List.nodup_append.mpr ⟨owned.nodup u, List.nodup_singleton _, ?_⟩
        intro a listed b made same
        rw [List.mem_singleton.mp made] at same
        rw [same, owned.exact_, new] at listed
        cases listed
    · exact owned.nodup v
  case exact_ =>
    intro v id'
    rw [ids, helper?]
    by_cases user : u = v
    · subst user
      rw [if_pos rfl, List.mem_append, owned.exact_, List.mem_singleton]
      by_cases session : id = id'
      · simp [session]
      · simp [session, Ne.symm session]
    · rw [if_neg user, if_neg (fun here => user here.1), owned.exact_]
  case refs =>
    intro v id' ref found
    rw [helper?] at found
    split at found
    · next here =>
        cases found
        exact here
    · exact owned.refs found
  case serving =>
    intro n serving stands
    rw [requests] at stands
    exact owned.serving stands
  case phases =>
    intro ref k call unlocked
    rw [helpers] at unlocked
    by_cases made : ref = ⟨s.births, u, id⟩
    · subst made
      rw [Function.update_self] at unlocked
      cases unlocked
    · rw [Function.update_of_ne made] at unlocked
      exact owned.phases unlocked
  case came =>
    intro ref m member
    rw [helpers] at member
    by_cases made : ref = ⟨s.births, u, id⟩
    · subst made
      rw [Function.update_self] at member
      cases member
    · rw [Function.update_of_ne made] at member
      exact owned.came member

theorem enter (owned : Owned codec s tr) {serving : Serving}
    (user : serving.login.user? = some serving.ref.user) (fits : serving.task.Fits serving.ref) :
    Owned codec (s.enter serving) tr where
  nodup := owned.nodup
  exact_ := owned.exact_
  refs := owned.refs
  serving {n serving'} stands := by
    unfold ChatServer.enter at stands
    dsimp only at stands
    by_cases here : n = s.nextRequest
    · subst here
      rw [Function.update_self] at stands
      cases stands
      exact ⟨user, fits⟩
    · rw [Function.update_of_ne here] at stands
      exact owned.serving stands
  phases := owned.phases
  came := owned.came

theorem handled (owned : Owned codec s tr) {login : LoginSession} {s' : ChatServer}
    (ends : Handled s login out s') : Owned codec s' (tr ++ out) := by
  cases ends with
  | refused reply =>
      have after := owned.later (s.refuse login reply).1
      exact ⟨after.nodup, after.exact_, after.refs, after.serving, after.phases, after.came⟩
  | @created u id event task user sent fits =>
      obtain ⟨made, own, session⟩ := (owned.later _).createSession u id
      refine made.enter ?_ (fits _ own session)
      rw [own]
      exact user
  | @found u id ref task user found fits =>
      obtain ⟨own, session⟩ := owned.refs found
      refine (owned.later _).enter ?_ (fits own session)
      rw [own]
      exact user
  | @listed u reply user =>
      have ids (v : Int) : ({ s.finish with
          sessionsIdsMap := s.sessionsIdsMap.insert u (s.ids u) } : ChatServer).ids v = s.ids v := by
        unfold ChatServer.ids
        dsimp only
        rw [SortedMap.find?_insert]
        split
        · next here =>
            subst here
            rfl
        · rfl
      have after := owned.later ([.acts s.nextRequest login, .listed s.nextRequest (s.ids u),
        .replied s.nextRequest reply])
      constructor
      case nodup =>
        intro v
        rw [ids]
        exact after.nodup v
      case exact_ =>
        intro v id
        rw [ids]
        exact after.exact_ v id
      case refs => exact after.refs
      case serving => exact after.serving
      case phases => exact after.phases
      case came => exact after.came

/-- A request uses its helper. -/
theorem use (owned : Owned codec s tr) {n : Nat} {serving serving' : Serving} {o : List Obs}
    {w : World} {reply : Option Reply} (stands : s.requests n = some serving)
    (same : serving' = { serving with call := serving'.call })
    (step : Step codec (s.helpers serving.ref) o w)
    (moves : ∀ k call, Moves (s.helpers serving.ref) w o k call →
      call.userId.toInt = serving.ref.user ∧ call.sessionId = serving.ref.session) :
    Owned codec (s.use n serving' w) (tr ++ usage n serving o reply) := by
  have ref : serving'.ref = serving.ref := by rw [same]
  constructor
  case nodup => exact owned.nodup
  case exact_ => exact owned.exact_
  case refs => exact owned.refs
  case serving =>
    intro m other found
    unfold ChatServer.use at found
    dsimp only at found
    by_cases here : m = n
    · subst here
      rw [Function.update_self] at found
      cases found
      have own := owned.serving stands
      rw [same]
      exact own
    · rw [Function.update_of_ne here] at found
      exact owned.serving found
  case phases =>
    intro ref' k call unlocked
    unfold ChatServer.use at unlocked
    dsimp only at unlocked
    rw [ref] at unlocked
    by_cases here : ref' = serving.ref
    · subst here
      rw [Function.update_self] at unlocked
      exact moves k call (step.unlocked unlocked)
    · rw [Function.update_of_ne here] at unlocked
      exact owned.phases unlocked
  case came =>
    intro ref' m member
    unfold ChatServer.use at member
    dsimp only at member
    rw [ref] at member
    by_cases here : ref' = serving.ref
    · subst here
      rw [Function.update_self] at member
      rcases step.grows with kept | ⟨k, call, x, body, moved, written, user, session, published, more⟩
      · rw [kept] at member
        exact (owned.came member).later
      · rw [more] at member
        rcases List.mem_append.mp member with old | new
        · exact (owned.came old).later
        · obtain ⟨ownUser, ownSession⟩ := moves k call moved
          refine .inr ⟨n, serving.login, serving.ref, k, x, body, ?_, (owned.serving stands).1, ?_,
            written, by rw [user, ownUser], by rw [session, ownSession], new⟩
          · exact List.mem_append_right _ (.head _)
          · exact List.mem_append_right _ (.tail _ (List.mem_append_left _ (List.mem_map_of_mem published)))
    · rw [Function.update_of_ne here] at member
      exact (owned.came member).later

/-- The call that begins is the request's own. -/
theorem moves_began (owned : Owned codec s tr) {n : Nat} {serving : Serving} {streaming created : Bool}
    {call : Call} {o : List Obs} {w : World} (stands : s.requests n = some serving)
    (task : serving.task = .exchange streaming created call) {k' : Nat} (k : Nat) (call' : Call)
    (moved : Moves (s.helpers serving.ref) w ((k', .began streaming call) :: o) k call') :
    call'.userId.toInt = serving.ref.user ∧ call'.sessionId = serving.ref.session := by
  rcases moved with ⟨streaming', rest, same, -⟩ | unlocked
  · obtain ⟨head, -⟩ := List.cons.inj same
    cases head
    have fits := (owned.serving stands).2
    rw [task] at fits
    exact fits
  · exact owned.phases unlocked

theorem step (owned : Owned codec s tr) {s' : ChatServer}
    (step : ServerStep codec texts s out s') : Owned codec s' (tr ++ out) := by
  cases step with
  | restore ran => exact owned.swapIn ran
  | restoreFails => exact owned.later _
  | createAndSend login body secureId => exact owned.handled (createAndSend_handled secureId)
  | send login body => exact owned.handled send_handled
  | history login body => exact owned.handled history_handled
  | sessions login => exact owned.handled sessions_handled
  | begins stands task fresh step =>
      exact owned.use stands rfl step (owned.moves_began stands task)
  | continues stands call step sameNext others =>
      refine owned.use stands rfl step fun k call moved => ?_
      rcases moved with ⟨-, -, -, next⟩ | unlocked
      · omega
      · exact owned.phases unlocked
  | snapshot stands task fresh step reply =>
      refine owned.use stands rfl step fun k call moved => ?_
      rcases moved with ⟨streaming, rest, same, -⟩ | unlocked
      · obtain ⟨head, -⟩ := List.cons.inj same
        cases head
        cases reply
      · exact owned.phases unlocked

end Owned

/-- The step belongs to a request of user `u`. -/
def ActsFor (out : List ServerObs) (u : Int) : Prop :=
  ∃ n login, .acts n login ∈ out ∧ login.user? = some u

/-- Nothing of user `u` changes: the sessions, their list and their helpers. -/
structure ChatServer.SameFor (s s' : ChatServer) (u : Int) : Prop where
  sessions : s'.chatInformation.find? u = s.chatInformation.find? u
  ids : s'.ids u = s.ids u
  helpers : ∀ id ref, s.helper? u id = some ref → (s'.helpers ref).helper = (s.helpers ref).helper

/-- How a step respects user `u`, seen from the state before it. -/
structure Respects (s : ChatServer) (out : List ServerObs) (s' : ChatServer) (u : Int) : Prop where
  changes : (∃ rows, .restored rows ∈ out) ∨ ActsFor out u ∨ s.SameFor s' u
  uses : ∀ n ref o id, .chat n ref o ∈ out → s.helper? u id = some ref → ActsFor out u
  lists : ∀ n ids, .listed n ids ∈ out → ∃ v, ActsFor out v ∧ ids = s.ids v
  creates : ∀ id, s.helper? u id = none → (s'.helper? u id).isSome →
    (∃ rows, .restored rows ∈ out) ∨ ActsFor out u ∧ ∃ n, .created n id ∈ out

section respects

variable {codec : JsonCodec} {texts : Texts} {s s' : ChatServer} {tr out : List ServerObs}

theorem helper?_eq (same : s'.chatInformation = s.chatInformation) (u : Int) (id : Bytes) :
    s'.helper? u id = s.helper? u id := by
  unfold ChatServer.helper?
  rw [same]

/-- A step that leaves the maps and the helpers alone, and shows none. -/
theorem Respects.of_same {u : Int} (chats : s'.chatInformation = s.chatInformation)
    (ids : s'.ids u = s.ids u) (helpers : s'.helpers = s.helpers)
    (silent : ∀ n ref o, .chat n ref o ∉ out)
    (lists : ∀ n ids, .listed n ids ∈ out → ∃ v, ActsFor out v ∧ ids = s.ids v) :
    Respects s out s' u where
  changes := .inr (.inr ⟨by rw [chats], ids, fun _ _ _ => by rw [helpers]⟩)
  uses n ref o _ shown := absurd shown (silent n ref o)
  lists := lists
  creates id absent present := by
    rw [helper?_eq chats, absent] at present
    cases present

end respects

def bob : LoginSession := ⟨bytes "true", bytes "8", bytes "bob"⟩

end AIService.Chat
