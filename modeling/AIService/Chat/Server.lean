import AIService.Chat.Restore
import AIService.Data.Decimal
import AIService.Run

/-!
# The chat handlers of `ChatServer`

`ChatServer` holds the two maps of the server and the helpers they point to; a helper stays
alive while a request uses it, even when a restore replaces the maps.  Each handler checks
the login session, reads the body and looks up its helper in one critical section
(`createAndSend`, `send`, `history`, `sessions`); what it then does with the helper is a run
of `Chat.Step` of that helper's own world.

The texts of foreign exceptions and the ids of `secureId` come from outside.
-/

namespace AIService.Chat

/-- What `getValue` answers for the keys a handler reads. -/
structure LoginSession where
  isLoggedIn : Bytes
  userId : Bytes
  username : Bytes
deriving DecidableEq, Repr

/-- The user a request is served as. -/
def LoginSession.user? (login : LoginSession) : Option Int :=
  if login.isLoggedIn = bytes "true" then (stoi login.userId).map Int32.toInt else none

/-- An `AIHelper` object: when, and for which user and session, it was made. -/
structure HelperRef where
  birth : Nat
  user : Int
  session : Bytes
deriving DecidableEq, Repr

/-! ## Replies -/

/-- A response; its body is written with `dump(4)`. -/
structure Reply where
  status : Nat
  close : Bool
  body : Json

def unauthorized : Reply :=
  ⟨401, true, .object [(bytes "status", .str (bytes "error")),
    (bytes "message", .str (bytes "Unauthorized"))]⟩

/-- The `catch` of every handler, where `dump(4)` returns: it throws for a text that is not UTF-8, and
then `HttpServer` answers. -/
def failure (what : Bytes) : Reply :=
  ⟨400, true, .object [(bytes "status", .str (bytes "error")), (bytes "message", .str what)]⟩

def success (fields : List (Bytes × Json)) : Reply :=
  ⟨200, false, .object ((bytes "success", .bool true) :: fields)⟩

def historyJson (messages : List HistoryMessage) : Json :=
  .arr (messages.map fun message => .object [(bytes "is_user", .bool message.isUser),
    (bytes "content", .str message.content), (bytes "ts", .int message.timestamp)])

/-- The name of a session starts with a letter outside ASCII. -/
def sessionsJson (ids : List Bytes) : Json :=
  .arr (ids.map fun id => .object [(bytes "sessionId", .str id),
    (bytes "name", .str ([0xE1, 0xBB, 0xB0, 0x20] ++ id))])

/-! ## Reading a request -/

/-- The texts of the exceptions of `std::stoi` and of the JSON library. -/
structure Texts where
  stoi : Bytes
  json : Bytes

structure ChatArguments where
  question : Bytes := []
  sessionId : Bytes := []
  modelType : Bytes := []
  stream : Bool := false
deriving DecidableEq, Repr

section reading

variable (codec : JsonCodec) (texts : Texts)

/-- How every handler starts: the user id and the name, or the reply that ends it. -/
def authorize (login : LoginSession) : Except Reply Int32 :=
  if login.isLoggedIn ≠ bytes "true" then .error unauthorized
  else match stoi login.userId with
    | none => .error (failure texts.stoi)
    | some userId => .ok userId

/-- `if (j.contains(key)) text = j[key]`. -/
def textOr (default : Bytes) (j : Json) (key : Bytes) : Except Reply Bytes :=
  match j.field? key with
  | none => .ok default
  | some (.str text) => .ok text
  | some _ => .error (failure texts.json)

/-- `j.value("stream", false)`. -/
def streamFlag (j : Json) : Except Reply Bool :=
  match j with
  | .obj _ =>
      match j.field? (bytes "stream") with
      | none => .ok false
      | some (.bool stream) => .ok stream
      | some _ => .error (failure texts.json)
  | _ => .error (failure texts.json)

def parseBody (body : Bytes) : Except Reply Json :=
  match codec.parse body with
  | some j => .ok j
  | none => .error (failure texts.json)

/-- The body of `ChatCreateAndSendHandler`. -/
def createArguments (body : Bytes) : Except Reply ChatArguments :=
  if body.isEmpty then .ok {}
  else do
    let j ← parseBody codec texts body
    let question ← textOr texts [] j (bytes "question")
    let modelType ← textOr texts (bytes "1") j (bytes "modelType")
    let stream ← streamFlag texts j
    return { question := question, modelType := modelType, stream := stream }

/-- The body of `ChatSendHandler`. -/
def sendArguments (body : Bytes) : Except Reply ChatArguments :=
  if body.isEmpty then .ok {}
  else do
    let j ← parseBody codec texts body
    let question ← textOr texts [] j (bytes "question")
    let sessionId ← textOr texts [] j (bytes "sessionId")
    let modelType ← textOr texts (bytes "1") j (bytes "modelType")
    let stream ← streamFlag texts j
    return { question := question, sessionId := sessionId, modelType := modelType, stream := stream }

/-- The body of `ChatHistoryHandler`. -/
def historyArguments (body : Bytes) : Except Reply Bytes :=
  if body.isEmpty then .ok []
  else do
    let j ← parseBody codec texts body
    textOr texts [] j (bytes "sessionId")

end reading

/-! ## The server -/

/-- What a request does with the helper it found. -/
inductive Task
  /-- `chat` or `chatStream`; a new session's id is part of the reply. -/
  | exchange (streaming created : Bool) (call : Call)
  | history
deriving DecidableEq, Repr

/-- A request that left its critical section. -/
structure Serving where
  login : LoginSession
  ref : HelperRef
  task : Task
  /-- The number of the call, once it began. -/
  call : Option Nat := none
deriving DecidableEq, Repr

structure ChatServer where
  chatInformation : SortedMap Int (SortedMap Bytes HelperRef) := .empty
  sessionsIdsMap : SortedMap Int (List Bytes) := .empty
  helpers : HelperRef → World := fun _ => { helper := {} }
  births : Nat := 0
  requests : Nat → Option Serving := fun _ => none
  nextRequest : Nat := 0

/-- What is seen of a server; `n` numbers the requests. -/
inductive ServerObs
  | restored (rows : List ChatRow)
  | restoreFailed (what : Bytes)
  /-- Request `n`, with this login session, makes a step. -/
  | acts (n : Nat) (login : LoginSession)
  /-- Request `n` makes a session under a generated id. -/
  | created (n : Nat) (id : Bytes)
  | listed (n : Nat) (ids : List Bytes)
  /-- Request `n` uses a helper. -/
  | chat (n : Nat) (ref : HelperRef) (o : Obs)
  | replied (n : Nat) (reply : Reply)
  /-- The event that tells a streaming client its new session. -/
  | sent (n : Nat) (event : Json)

namespace ChatServer

variable (s : ChatServer)

def helper? (u : Int) (id : Bytes) : Option HelperRef :=
  (s.chatInformation.find? u).bind (·.find? id)

/-- `sessionsIdsMap[u]`; an absent entry counts as empty. -/
def ids (u : Int) : List Bytes := (s.sessionsIdsMap.find? u).getD []

/-- The maps a restore read, in newly made helpers. -/
def swapIn (maps : ChatMaps) : ChatServer :=
  { s with
    chatInformation := maps.chatInformation.map fun u sessions =>
      sessions.map fun id _ => ⟨s.births, u, id⟩
    sessionsIdsMap := maps.sessionsIdsMap
    helpers := fun ref =>
      if ref.birth = s.births then { helper := (maps.helper? ref.user ref.session).getD {} }
      else s.helpers ref
    births := s.births + 1 }

/-- The critical section of `ChatCreateAndSendHandler`. -/
def createSession (u : Int) (id : Bytes) : ChatServer × HelperRef :=
  let userSessions := (s.chatInformation.find? u).getD .empty
  match userSessions.find? id with
  | some ref => (s, ref)
  | none =>
      let ref : HelperRef := ⟨s.births, u, id⟩
      ({ s with
          chatInformation := s.chatInformation.insert u (userSessions.insert id ref)
          sessionsIdsMap := s.sessionsIdsMap.insert u (s.ids u ++ [id])
          helpers := Function.update s.helpers ref { helper := {} }
          births := s.births + 1 }, ref)

/-- A request goes on with a helper. -/
def enter (serving : Serving) : ChatServer :=
  { s with
    requests := Function.update s.requests s.nextRequest (some serving)
    nextRequest := s.nextRequest + 1 }

/-- A request is over. -/
def finish : ChatServer := { s with nextRequest := s.nextRequest + 1 }

section handlers

variable (codec : JsonCodec) (texts : Texts) (login : LoginSession) (body : Bytes)

/-- What a handler shows, and the state it leaves, when it ends in a reply. -/
def refuse (reply : Reply) : List ServerObs × ChatServer :=
  ([.acts s.nextRequest login, .replied s.nextRequest reply], s.finish)

/-- `ChatCreateAndSendHandler::handle`, up to the use of the helper. -/
def createAndSend (secureId : Except Bytes Bytes) : List ServerObs × ChatServer :=
  match (do
    let userId ← authorize texts login
    let arguments ← createArguments codec texts body
    let id ← secureId.mapError failure
    return (userId, arguments, id)) with
  | .error reply => s.refuse login reply
  | .ok (userId, arguments, id) =>
      let (s', ref) := s.createSession userId.toInt id
      let call : Call := ⟨userId, login.username, id, arguments.question, arguments.modelType⟩
      let event : List ServerObs :=
        if arguments.stream then [.sent s.nextRequest (.object [(bytes "sessionId", .str id)])]
        else []
      ([.acts s.nextRequest login, .created s.nextRequest id] ++ event,
        s'.enter ⟨login, ref, .exchange arguments.stream true call, none⟩)

/-- `ChatSendHandler::handle`, up to the use of the helper. -/
def send : List ServerObs × ChatServer :=
  match (do
    let userId ← authorize texts login
    let arguments ← sendArguments codec texts body
    if arguments.sessionId.isEmpty then .error (failure (bytes "Unknown chat session"))
    else match s.helper? userId.toInt arguments.sessionId with
      | none => .error (failure (bytes "Unknown chat session"))
      | some ref => .ok (userId, arguments, ref)) with
  | .error reply => s.refuse login reply
  | .ok (userId, arguments, ref) =>
      let call : Call :=
        ⟨userId, login.username, arguments.sessionId, arguments.question, arguments.modelType⟩
      ([.acts s.nextRequest login],
        s.enter ⟨login, ref, .exchange arguments.stream false call, none⟩)

/-- `ChatHistoryHandler::handle`, up to the use of the helper. -/
def history : List ServerObs × ChatServer :=
  match (do
    let userId ← authorize texts login
    let id ← historyArguments codec texts body
    match s.helper? userId.toInt id with
      | none => .error (failure (bytes "Unknown chat session"))
      | some ref => .ok ref) with
  | .error reply => s.refuse login reply
  | .ok ref => ([.acts s.nextRequest login], s.enter ⟨login, ref, .history, none⟩)

/-- `ChatSessionsHandler::handle`; its lookup makes an absent entry. -/
def sessions : List ServerObs × ChatServer :=
  match authorize texts login with
  | .error reply => s.refuse login reply
  | .ok userId =>
      let ids := s.ids userId.toInt
      ([.acts s.nextRequest login, .listed s.nextRequest ids,
        .replied s.nextRequest (success [(bytes "sessions", sessionsJson ids)])],
        { s.finish with sessionsIdsMap := s.sessionsIdsMap.insert userId.toInt ids })

end handlers

/-- Request `n` used its helper, which is now `w`. -/
def use (n : Nat) (serving : Serving) (w : World) : ChatServer :=
  { s with
    helpers := Function.update s.helpers serving.ref w
    requests := Function.update s.requests n (some serving) }

end ChatServer

/-- The reply of a request whose call of `chat` is over. -/
def exchangeReply (created : Bool) (call : Call) : Effect → Option Reply
  | .returned answer =>
      let id := if created then [(bytes "sessionId", .str call.sessionId)] else []
      some (success ((bytes "Information", .str answer) :: id))
  | .threw what => some (failure what)
  | _ => none

/-- The reply of `ChatHistoryHandler`. -/
def historyReply : Effect → Option Reply
  | .snapshot messages => some (success [(bytes "history", historyJson messages)])
  | .threw what => some (failure what)
  | _ => none

/-- What others see of a request's use of its helper. -/
def usage (n : Nat) (serving : Serving) (out : List Obs) (reply : Option Reply) : List ServerObs :=
  .acts n serving.login :: out.map (.chat n serving.ref) ++ reply.toList.map (.replied n)

/-- One critical section of any handler or of the restore. -/
inductive ServerStep (codec : JsonCodec) (texts : Texts) :
    ChatServer → List ServerObs → ChatServer → Prop
  | restore {s : ChatServer} {rows : List ChatRow} {maps : ChatMaps} :
    readDataFromMySQL rows = .ok maps → ServerStep codec texts s [.restored rows] (s.swapIn maps)
  | restoreFails {s : ChatServer} {rows : List ChatRow} {what : Bytes} :
    readDataFromMySQL rows = .error what → ServerStep codec texts s [.restoreFailed what] s
  | createAndSend {s : ChatServer} (login : LoginSession) (body : Bytes)
      (secureId : Except Bytes Bytes) :
    ServerStep codec texts s (s.createAndSend codec texts login body secureId).1
      (s.createAndSend codec texts login body secureId).2
  | send {s : ChatServer} (login : LoginSession) (body : Bytes) :
    ServerStep codec texts s (s.send codec texts login body).1 (s.send codec texts login body).2
  | history {s : ChatServer} (login : LoginSession) (body : Bytes) :
    ServerStep codec texts s (s.history codec texts login body).1
      (s.history codec texts login body).2
  | sessions {s : ChatServer} (login : LoginSession) :
    ServerStep codec texts s (s.sessions texts login).1 (s.sessions texts login).2
  /-- `chat` or `chatStream` begins, and `chat` ends. -/
  | begins {s : ChatServer} {n : Nat} {serving : Serving} {streaming created : Bool} {call : Call}
      {out : List Obs} {w : World} :
    s.requests n = some serving → serving.task = .exchange streaming created call →
    serving.call = none →
    Step codec (s.helpers serving.ref)
      (((s.helpers serving.ref).nextCall, .began streaming call) :: out) w →
    ServerStep codec texts s
      (usage n serving (((s.helpers serving.ref).nextCall, .began streaming call) :: out)
        ((out.getLast?.map Prod.snd).bind (exchangeReply created call)))
      (s.use n { serving with call := some (s.helpers serving.ref).nextCall } w)
  /-- The thread of a streaming request goes on with its call. -/
  | continues {s : ChatServer} {n k : Nat} {serving : Serving} {out : List Obs} {w : World} :
    s.requests n = some serving → serving.call = some k →
    Step codec (s.helpers serving.ref) out w → w.nextCall = (s.helpers serving.ref).nextCall →
    (∀ j, j ≠ k → w.phase j = (s.helpers serving.ref).phase j) →
    ServerStep codec texts s (usage n serving out none) (s.use n serving w)
  | snapshot {s : ChatServer} {n : Nat} {serving : Serving} {e : Effect} {reply : Reply}
      {w : World} :
    s.requests n = some serving → serving.task = .history → serving.call = none →
    Step codec (s.helpers serving.ref) [((s.helpers serving.ref).nextCall, e)] w →
    historyReply e = some reply →
    ServerStep codec texts s
      (usage n serving [((s.helpers serving.ref).nextCall, e)] (some reply))
      (s.use n { serving with call := some (s.helpers serving.ref).nextCall } w)

end AIService.Chat
