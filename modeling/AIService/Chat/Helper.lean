import AIService.Action
import AIService.Run
import AIService.Chat.Exchange
import Mathlib.Logic.Function.Basic

/-!
# Chat helpers

`AIHelper`, one chat session: its history, the calls `chat`, `chatStream` and
`GetHistorySnapshot`, and how their critical sections under `chat_mutex_` interleave.
Model, tools, clock, random source and message queue are the `Environment` of a critical
section; any of them may answer anything.
-/

namespace AIService.Chat

/-! ## Strategies -/

inductive Strategy
  | aliyun
  | douBao
  | aliyunRAG
  | aliyunMcp
  | gemma
deriving DecidableEq, Repr

/-- The message array of the `buildRequest` functions; roles go by position. -/
def msgArray (messages : List (Bytes × Int)) : Json :=
  .arr (messages.mapIdx fun i message => .object
    [(bytes "role", .str (if i % 2 = 0 then bytes "user" else bytes "assistant")),
     (bytes "content", .str message.1)])

/-- `buildRequest` of the strategies that name their model. -/
def modelRequest (model : Bytes) (messages : List (Bytes × Int)) : Json :=
  .object [(bytes "model", .str model), (bytes "messages", msgArray messages)]

def AliyunStrategy.buildRequest := modelRequest (bytes "qwen-plus")

def DouBaoStrategy.buildRequest := modelRequest (bytes "doubao-seed-1-6-thinking-250715")

def AliyunRAGStrategy.buildRequest (messages : List (Bytes × Int)) : Json :=
  .object [(bytes "input", .object [(bytes "messages", msgArray messages)]),
    (bytes "parameters", .object [])]

def AliyunMcpStrategy.buildRequest := modelRequest (bytes "qwen-plus")

def GemmaStrategy.buildRequest := modelRequest (bytes "gemma-2-2b-it")

namespace Strategy

def isLocal : Strategy → Bool
  | gemma => true
  | _ => false

def isMCPModel : Strategy → Bool
  | aliyunMcp => true
  | _ => false

def buildRequest : Strategy → List (Bytes × Int) → Json
  | aliyun => AliyunStrategy.buildRequest
  | douBao => DouBaoStrategy.buildRequest
  | aliyunRAG => AliyunRAGStrategy.buildRequest
  | aliyunMcp => AliyunMcpStrategy.buildRequest
  | gemma => GemmaStrategy.buildRequest

/-- `none` is an exception. -/
def buildStreamRequest (strategy : Strategy) (messages : List (Bytes × Int)) : Option Json := do
  let payload := strategy.buildRequest messages
  match strategy with
  | aliyunRAG =>
      let parameters ← payload.field? (bytes "parameters")
      payload.setField? (bytes "parameters")
        (← parameters.setField? (bytes "incremental_output") (.bool true))
  | _ => payload.setField? (bytes "stream") (.bool true)

end Strategy

/-! ## What a critical section asks of its surroundings -/

structure AIToolCall where
  toolName : Bytes
  args : Json
  isToolCall : Bool

/-- A loaded `AIConfig`; the error of a function is the text of what it throws. -/
structure AIConfig where
  buildPrompt : Bytes → Except Bytes Bytes
  parseAIResponse : Bytes → AIToolCall
  buildToolResultPrompt : Bytes → Bytes → Json → Json → Except Bytes Bytes

structure Environment where
  getenv : Bytes → Option Bytes
  /-- `GemmaInferencePool::isLoaded()`. -/
  isLoaded : Bool
  /-- The tokens of the local model or of the event stream, up to its end or failure. -/
  tokens : List Bytes
  failure : Option Bytes
  /-- What `executeCurl` and `parseResponse` make of the first request and of the second. -/
  reply : Except Bytes Bytes
  secondReply : Except Bytes Bytes
  /-- `loadFromFile`. -/
  config : Except Bytes (Option AIConfig)
  /-- `AIToolRegistry::invoke`. -/
  invoke : Bytes → Json → Except Bytes Json
  clock : Int
  secureId : Except Bytes Bytes
  /-- What `dump()` says when it throws. -/
  dumpError : Bytes
  /-- The verdict of `MQManager::publish`. -/
  accepted : Bool

/-- The registered creators; `error` is the text of what they throw. -/
def StrategyFactory.create (getenv : Bytes → Option Bytes) (name : Bytes) : Except Bytes Strategy :=
  let withKey (key : Bytes) (strategy : Strategy) (missing : Bytes) : Except Bytes Strategy :=
    if (getenv key).isSome then .ok strategy else .error missing
  if name = bytes "1" then
    withKey (bytes "DASHSCOPE_API_KEY") .aliyun (bytes "Aliyun API Key not found!")
  else if name = bytes "2" then
    withKey (bytes "DOUBAO_API_KEY") .douBao (bytes "DOUBAO API Key not found!")
  else if name = bytes "3" then
    withKey (bytes "DASHSCOPE_API_KEY") .aliyunRAG (bytes "Aliyun API Key not found!")
  else if name = bytes "4" then
    withKey (bytes "DASHSCOPE_API_KEY") .aliyunMcp (bytes "Aliyun API Key not found!")
  else if name = bytes "5" then .ok .gemma
  else .error (bytes "Unknown strategy: " ++ name)

/-! ## The helper -/

structure AIHelper where
  strategy : Option Strategy := none
  messages : List (Bytes × Int) := []
  messageRoles_ : List Bool := []
deriving DecidableEq, Repr

/-- The arguments of `chat` and `chatStream`. -/
structure Call where
  userId : Int32
  userName : Bytes
  sessionId : Bytes
  userQuestion : Bytes
  modelType : Bytes
deriving DecidableEq, Repr

structure HistoryMessage where
  content : Bytes
  timestamp : Int
  isUser : Bool
deriving DecidableEq, Repr

/-- What a call does that others can see. -/
inductive Effect
  | began (streaming : Bool) (call : Call)
  /-- A request of `executeCurl` or `executeCurlStream`. -/
  | asked (payload : Json)
  /-- A request to the local model. -/
  | generated (key : Bytes) (history : List (Bytes × Int))
  | published (queue body : Bytes) (accepted : Bool)
  | onToken (delta : Bytes)
  | onDone (answer : Bytes)
  | onError (what : Bytes)
  | returned (answer : Bytes)
  | threw (what : Bytes)
  | snapshot (history : List HistoryMessage)
  /-- A signed addition overflowed. -/
  | overflow

inductive Fault
  | threw (what : Bytes)
  | overflow

/-- Code that runs under `chat_mutex_`. -/
abbrev Section := Action AIHelper Effect Fault

namespace AIHelper

open AIService.Action

def add (a b : Int) : Section Int :=
  match llongAdd a b with
  | some sum => pure sum
  | none => fail .overflow

def throwText (what : String) : Section α := fail (.threw (bytes what))

def orThrow (r : Except Bytes α) : Section α := lift (r.mapError .threw)

def setStrategy (strategy : Strategy) : Section Unit :=
  update fun helper => { helper with strategy := some strategy }

def validateCanonicalHistory : Section Unit := do
  let helper ← current
  if helper.messages.length ≠ helper.messageRoles_.length then
    throwText "Inconsistent stored chat history metadata"
  else if helper.messages.length % 2 ≠ 0 then
    throwText "Stored chat history has an incomplete exchange; start a new session to continue"
  else if helper.messageRoles_.zipIdx.any fun (role, i) => role ≠ (i % 2 == 0) then
    throwText "Stored chat history has incompatible roles; start a new session to continue"
  else pure ()

/-- A commit's timestamp: after the clock and after the last message. -/
def nextTimestamp (now : Int) (last : Option (Bytes × Int)) : Section Int :=
  match last with
  | none => pure now
  | some (_, back) => do
      if back ≥ llongMax - 2 then throwText "Invalid restored chat timestamp"
      else
        let next ← add back 1
        pure (max now next)

variable (codec : JsonCodec) (call : Call) (env : Environment)

/-- The part of `commitExchange` that follows the construction of the exchange. -/
def submit (exchange : ChatExchange) : Section Unit :=
  match exchange.serialize codec with
  | none => fail (.threw env.dumpError)
  | some body =>
      if (ChatExchange.parse codec body).isNone then
        throwText "Unsupported or malformed chat message"
      else do
        let answerTs ← add exchange.ts 1
        emit (.published (bytes "sql_queue") body env.accepted)
        if env.accepted then
          update fun helper => { helper with
            messages := helper.messages ++
              [(exchange.question, exchange.ts), (exchange.answer, answerTs)]
            messageRoles_ := helper.messageRoles_ ++ [true, false] }
        else throwText "Chat history queue unavailable or full; exchange not accepted"

def commitExchange (answer : Bytes) : Section Unit := do
  let helper ← current
  let ts ← nextTimestamp env.clock helper.messages.getLast?
  let messageId ← orThrow env.secureId
  submit codec env
    ⟨messageId, call.userId, call.userName, call.sessionId, call.userQuestion, answer, ts⟩

/-- How `chat` and `chatStream` end: an empty answer is not committed. -/
def conclude (answer : Bytes) : Section Unit :=
  if answer.isEmpty then throwText "Empty model response" else commitExchange codec call env answer

/-- How `chat` and `chatStream` start. -/
def selectStrategy : Section Strategy := do
  validateCanonicalHistory
  let strategy ← orThrow (StrategyFactory.create env.getenv call.modelType)
  setStrategy strategy
  pure strategy

/-- `executeCurl` and `parseResponse`. -/
def ask (payload : Json) (reply : Except Bytes Bytes) : Section Bytes := do
  emit (.asked payload)
  orThrow reply

/-- `std::to_string(userId) + ":" + sessionId`. -/
def localKey : Bytes := bytes (toString call.userId.toInt) ++ bytes ":" ++ call.sessionId

/-- The answer of `chat`, before it is checked and committed. -/
def answer (strategy : Strategy) : Section Bytes := do
  let helper ← current
  if strategy.isLocal then
    if env.isLoaded then
      emit (.generated (localKey call) (helper.messages ++ [(call.userQuestion, 0)]))
      match env.failure with
      | some what => fail (.threw what)
      | none => pure env.tokens.flatten
    else throwText "Gemma model not loaded"
  else if strategy.isMCPModel then
    match env.config with
    | .error what => fail (.threw what)
    | .ok none => throwText "Tool configuration unavailable"
    | .ok (some config) =>
        let prompt ← orThrow (config.buildPrompt call.userQuestion)
        let aiResult ← ask (strategy.buildRequest (helper.messages ++ [(prompt, 0)])) env.reply
        let tool := config.parseAIResponse aiResult
        if tool.isToolCall then
          let toolResult ← orThrow (env.invoke tool.toolName tool.args)
          let prompt ← orThrow
            (config.buildToolResultPrompt call.userQuestion tool.toolName tool.args toolResult)
          ask (strategy.buildRequest (helper.messages ++ [(prompt, 0)])) env.secondReply
        else pure aiResult
  else ask (strategy.buildRequest (helper.messages ++ [(call.userQuestion, 0)])) env.reply

def chat : Section Bytes := do
  let strategy ← selectStrategy call env
  let answer ← answer call env strategy
  conclude codec call env answer
  pure answer

/-- The text of a stream, handed on token by token. -/
def streamed : List Bytes → Section Unit
  | [] => pure ()
  | delta :: rest => do
      emit (.onToken delta)
      streamed rest

/-- The request of `chatStream`. -/
def requestStream (strategy : Strategy) : Section Unit := do
  let helper ← current
  let requestMessages := helper.messages ++ [(call.userQuestion, 0)]
  if strategy.isLocal then
    if env.isLoaded then emit (.generated (localKey call) requestMessages)
    else throwText "Gemma model not loaded"
  else
    match strategy.buildStreamRequest requestMessages with
    | none => fail (.threw env.dumpError)
    | some payload => emit (.asked payload)

/-- The text that `chatStream` streams, before it is checked and committed. -/
def fullText (strategy : Strategy) : Section Bytes := do
  requestStream call env strategy
  streamed env.tokens
  match env.failure with
  | some what => fail (.threw what)
  | none => pure env.tokens.flatten

/-- The first critical section of `chatStream`; a tool model leaves it with `none`, to go
on through `chat`. -/
def chatStream : Section (Option Bytes) := do
  let strategy ← selectStrategy call env
  if strategy.isMCPModel then pure none
  else
    let text ← fullText call env strategy
    conclude codec call env text
    emit (.onDone text)
    pure (some text)

def getHistorySnapshot : Section (List HistoryMessage) := do
  let helper ← current
  if helper.messages.length ≠ helper.messageRoles_.length then
    throwText "Inconsistent stored chat history metadata"
  else
    pure ((helper.messages.zip helper.messageRoles_).map fun (message, isUser) =>
      ⟨message.1, message.2, isUser⟩)

end AIHelper

/-! ## Interleaved calls -/

/-- Where a call stands between its critical sections. -/
inductive Phase
  | idle
  /-- `chatStream` released the lock, to take it again in `chat`. -/
  | unlocked (call : Call)
  /-- That `chat` returned; the callbacks are next. -/
  | answered (answer : Bytes)
  /-- `chatStream` caught an exception; `on_error` is next. -/
  | failing (what : Bytes)
  | over

structure World where
  helper : AIHelper
  nextCall : Nat := 0
  phase : Nat → Phase := fun _ => .idle

/-- An effect of a numbered call. -/
abbrev Obs := Nat × Effect

def World.advance (w : World) (helper : AIHelper) (n : Nat) (phase : Phase) : World :=
  { w with helper := helper, phase := Function.update w.phase n phase }

/-- How a call of `chat` ends. -/
def chatResult : Except Fault Bytes → Effect
  | .ok answer => .returned answer
  | .error (.threw what) => .threw what
  | .error .overflow => .overflow

/-- The `catch` of `chatStream` around a critical section that should leave `next`. -/
def streamResult (next : α → Phase) : Except Fault α → List Effect × Phase
  | .ok a => ([], next a)
  | .error (.threw what) => ([], .failing what)
  | .error .overflow => ([.overflow], .over)

/-- One critical section, or one run of callbacks outside of it. -/
inductive Step (codec : JsonCodec) : World → List Obs → World → Prop
  | chat {w : World} {helper : AIHelper} {out : List Effect} {r : Except Fault Bytes} (call : Call)
      (env : Environment) :
    IsLongLong env.clock → AIHelper.chat codec call env w.helper = (out, helper, r) →
    Step codec w ((.began false call :: out ++ [chatResult r]).map (w.nextCall, ·))
      { w.advance helper w.nextCall .over with nextCall := w.nextCall + 1 }
  | chatStream {w : World} {helper : AIHelper} {out last : List Effect}
      {r : Except Fault (Option Bytes)} {phase : Phase} (call : Call) (env : Environment) :
    IsLongLong env.clock → AIHelper.chatStream codec call env w.helper = (out, helper, r) →
    streamResult (fun text => if text.isNone then .unlocked call else .over) r = (last, phase) →
    Step codec w ((.began true call :: out ++ last).map (w.nextCall, ·))
      { w.advance helper w.nextCall phase with nextCall := w.nextCall + 1 }
  /-- A tool model's `chatStream` runs `chat`. -/
  | resume {w : World} {n : Nat} {call : Call} {helper : AIHelper} {out last : List Effect}
      {r : Except Fault Bytes} {phase : Phase} (env : Environment) :
    w.phase n = .unlocked call → IsLongLong env.clock →
    AIHelper.chat codec call env w.helper = (out, helper, r) →
    streamResult .answered r = (last, phase) →
    Step codec w ((out ++ last).map (n, ·)) (w.advance helper n phase)
  | callBack {w : World} {n : Nat} {answer : Bytes} :
    w.phase n = .answered answer →
    Step codec w [(n, .onToken answer), (n, .onDone answer)] (w.advance w.helper n .over)
  | report {w : World} {n : Nat} {what : Bytes} :
    w.phase n = .failing what →
    Step codec w [(n, .onError what)] (w.advance w.helper n .over)
  | getHistorySnapshot {w : World} {helper : AIHelper} {out : List Effect} {history : List HistoryMessage} :
    AIHelper.getHistorySnapshot w.helper = (out, helper, .ok history) →
    Step codec w [(w.nextCall, .snapshot history)]
      { w.advance helper w.nextCall .over with nextCall := w.nextCall + 1 }
  | refuseSnapshot {w : World} {helper : AIHelper} {out : List Effect} {what : Bytes} :
    AIHelper.getHistorySnapshot w.helper = (out, helper, .error (.threw what)) →
    Step codec w [(w.nextCall, .threw what)]
      { w.advance helper w.nextCall .over with nextCall := w.nextCall + 1 }

/-! ## An example call -/

/-- The first question to the local model. -/
def firstCall : Call := ⟨7, bytes "ann", bytes "s1", bytes "hi", bytes "5"⟩

def firstEnvironment : Environment where
  getenv _ := none
  isLoaded := true
  tokens := [bytes "y", bytes "o"]
  failure := none
  reply := .error []
  secondReply := .error []
  config := .ok none
  invoke _ _ := .error []
  clock := 5
  secureId := .ok (List.replicate 32 97)
  dumpError := []
  accepted := true

end AIService.Chat
