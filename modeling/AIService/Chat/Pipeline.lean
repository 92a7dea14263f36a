import AIService.Chat.History
import AIService.Chat.Upstream
import AIService.Data.Handles
import AIService.Data.JsonText
import AIService.Data.Utf8
import AIService.Tools.Prompt
import AIService.Tools.Response

/-!
# The requests behind `chat`

`Helper` leaves to its environment what `executeCurl`, `parseResponse`, `AIConfig` and the tool
registry answer.  Here they are as the sources have them, over what curl does and what the
services send; `answer_refines` says that a run of them is one that `Helper` allows.
-/

namespace AIService.Chat.Pipeline

open AIService.Action

/-! ## What is outside -/

/-- What libcurl does in one transfer: whether there is a handle, which appends to the header list
succeed, what the write callback collects, and how it ends. -/
structure Curl where
  init : Bool
  append : Nat → Bool
  readBuffer : Bytes
  transfer : Transfer

structure Outside where
  getenv : Bytes → Option Bytes
  /-- Transfer `n`, to a url with some data. -/
  curl : Nat → Bytes → Bytes → Curl
  /-- What `>>` reads of `config.json`, if it opens; `none` is an exception. -/
  file : Option (Option Json)
  /-- The order of an `unordered_map`. -/
  arrange : List (Bytes × Bytes) → List (Bytes × Bytes)
  /-- `curl_easy_escape`. -/
  escape : Bytes → Option Bytes
  /-- The local time. -/
  time : Bytes
  /-- `dump(4)`. -/
  dump4 : Json → Option Bytes
  /-- What the exceptions of the JSON library say. -/
  what : Bytes

/-- What ends the code before it returns. -/
inductive Trouble
  | threw (what : Bytes)
  /-- `operator[]` of a `const` object that lacks the key. -/
  | undefined
deriving DecidableEq

/-- What curl holds for transfer `n`. -/
inductive Resource
  | easy (n : Nat)
  | headers (n : Nat)
deriving DecidableEq

inductive PipelineObs
  /-- A call of `executeCurl`. -/
  | asked (payload : Json)
  | invoked (toolName : Bytes) (args : Json)
  | init (n : Nat)
  /-- The first header makes the list. -/
  | listed (n : Nat) (header : Bytes)
  | extended (n : Nat) (header : Bytes)
  /-- With the header list, or without one. -/
  | performed (n : Nat) (headed : Bool) (url data : Bytes)
  | freed (n : Nat)
  | cleaned (n : Nat)

def PipelineObs.uses : PipelineObs → List (Use Resource)
  | .asked _ => []
  | .invoked _ _ => []
  | .init n => [.opened (.easy n)]
  | .listed n _ => [.opened (.headers n)]
  | .extended n _ => [.used (.headers n)]
  | .performed n headed _ _ => .used (.easy n) :: if headed then [.used (.headers n)] else []
  | .freed n => [.closed (.headers n)]
  | .cleaned n => [.closed (.easy n)]

/-- The state counts the transfers. -/
abbrev Requests := Action Nat PipelineObs Trouble

variable (codec : JsonCodec) (outside : Outside)

def orThrow {α : Type} (r : Except Bytes α) : Requests α := lift (r.mapError .threw)

/-! ## One request -/

/-- The characters of an application id. -/
def isIdByte (c : UInt8) : Bool :=
  (97 ≤ c && c ≤ 122) || (65 ≤ c && c ≤ 90) || (48 ≤ c && c ≤ 57) || c == 45 || c == 95

def AliyunRAGStrategy.getApiUrl (getenv : Bytes → Option Bytes) : Except Bytes Bytes :=
  let value := (getenv (bytes "KNOWLEDGE_BASE_ID")).or (getenv (bytes "Knowledge_Base_ID"))
  let id := value.getD []
  if id.isEmpty || 128 < id.length || !id.all isIdByte then
    .error (bytes "KNOWLEDGE_BASE_ID must contain the DashScope application ID")
  else .ok (bytes "https://dashscope.aliyuncs.com/api/v1/apps/" ++ id ++ bytes "/completion")

def getApiUrl (getenv : Bytes → Option Bytes) : Strategy → Except Bytes Bytes
  | .aliyun => .ok (bytes "https://dashscope.aliyuncs.com/compatible-mode/v1/chat/completions")
  | .douBao => .ok (bytes "https://ark.cn-beijing.volces.com/api/v3/chat/completions")
  | .aliyunRAG => AliyunRAGStrategy.getApiUrl getenv
  | .aliyunMcp => .ok (bytes "https://dashscope.aliyuncs.com/compatible-mode/v1/chat/completions")
  | .gemma => .ok (bytes "local://gemma")

/-- The constructors read it; `StrategyFactory.create` throws where there is none. -/
def getApiKey (getenv : Bytes → Option Bytes) : Strategy → Bytes
  | .douBao => (getenv (bytes "DOUBAO_API_KEY")).getD []
  | .gemma => []
  | _ => (getenv (bytes "DASHSCOPE_API_KEY")).getD []

/-- What follows `curl_easy_perform`. -/
def readTransfer (curl : Curl) : Except Bytes Json :=
  match curl.transfer.failure with
  | some failure => .error (bytes "curl_easy_perform() failed: " ++ failure)
  | none =>
      if curl.transfer.status < 200 ∨ 300 ≤ curl.transfer.status then
        .error (bytes "Upstream HTTP error: " ++ bytes (toString curl.transfer.status))
      else
        match codec.parse curl.readBuffer with
        | none => .error (bytes "Failed to parse upstream JSON response")
        | some response =>
            if reportsError response then .error (bytes "Upstream model reported an error")
            else .ok response

def authHeader (key : Bytes) : Bytes := bytes "Authorization: Bearer " ++ key

def contentHeader : Bytes := bytes "Content-Type: application/json"

/-- `executeCurl` from `curl_easy_init` on; the owners release what they have on every path. -/
def transfer (curl : Curl) (n : Nat) (key url payload : Bytes) : List PipelineObs × Except Bytes Json :=
  let noHeader : Except Bytes Json := .error (bytes "Failed to allocate curl request headers")
  if !curl.init then ([], .error (bytes "Failed to initialize curl"))
  else if !curl.append 0 then ([.init n, .cleaned n], noHeader)
  else if !curl.append 1 then ([.init n, .listed n (authHeader key), .freed n, .cleaned n], noHeader)
  else ([.init n, .listed n (authHeader key), .extended n contentHeader,
      .performed n true url payload, .freed n, .cleaned n], readTransfer codec curl)

def executeCurl (strategy : Strategy) (payload : Json) : Requests Json := do
  let url ← orThrow (getApiUrl outside.getenv strategy)
  let payloadStr ← orThrow ((codec.dump payload).elim (.error outside.what) .ok)
  fun n =>
    let (out, r) := transfer codec (outside.curl n url payloadStr) n
      (getApiKey outside.getenv strategy) url payloadStr
    (out, n + 1, r.mapError .threw)

/-! ## Its response -/

/-- `j[key]` of a `const` value. -/
def member (j : Json) (key : Bytes) : Except Trouble Json :=
  match j with
  | .obj _ => (j.field? key).elim (.error .undefined) .ok
  | _ => .error (.threw outside.what)

/-- `j[0]` of a `const` value that is not empty. -/
def firstItem : Json → Except Trouble Json
  | .arr (item :: _) => .ok item
  | _ => .error (.threw outside.what)

def string : Json → Except Trouble Bytes
  | .str text => .ok text
  | _ => .error (.threw outside.what)

/-- `empty()`. -/
def isEmpty : Json → Bool
  | .null => true
  | .arr items => items.isEmpty
  | .obj fields => fields.isEmpty
  | _ => false

/-- `parseResponse` of the strategies with choices. -/
def parseChoices (response : Json) : Except Trouble Bytes :=
  match response.field? (bytes "choices") with
  | none => .ok []
  | some choices =>
      if isEmpty choices then .ok []
      else do
        let choice ← firstItem outside choices
        let message ← member outside choice (bytes "message")
        let content ← member outside message (bytes "content")
        string outside content

def AliyunRAGStrategy.parseResponse (response : Json) : Except Trouble Bytes :=
  match (response.field? (bytes "output")).bind (Json.field? (bytes "text")) with
  | none => .ok []
  | some text => string outside text

/-- `response.value(key, "")`. -/
def value (j : Json) (key : Bytes) : Except Trouble Bytes :=
  match j with
  | .obj _ => (j.field? key).elim (.ok []) (string outside)
  | _ => .error (.threw outside.what)

def parseResponse : Strategy → Json → Except Trouble Bytes
  | .aliyunRAG => AliyunRAGStrategy.parseResponse outside
  | .gemma => fun response => value outside response (bytes "text")
  | _ => parseChoices outside

/-- `strategy->parseResponse(executeCurl(strategy->buildRequest(messages)))`. -/
def ask (strategy : Strategy) (messages : List (Bytes × Int)) : Requests Bytes := do
  emit (.asked (strategy.buildRequest messages))
  let response ← executeCurl codec outside strategy (strategy.buildRequest messages)
  lift (parseResponse outside strategy response)

/-! ## The configuration of the tools -/

def loadTool (tool : Json) : Except Trouble Tools.AITool := do
  let name ← value outside tool (bytes "name")
  let desc ← value outside tool (bytes "desc")
  match tool.field? (bytes "params") with
  | some (.obj fields) =>
      let params ← fields.mapM fun field => (string outside field.2).map (field.1, ·)
      return ⟨name, outside.arrange params, desc⟩
  | _ => return ⟨name, [], desc⟩

/-- `loadFromFile`; `none` where it returns false. -/
def loadFromFile : Except Trouble (Option Tools.AIConfig) :=
  match outside.file with
  | none => .ok none
  | some none => .error (.threw outside.what)
  | some (some j) =>
      match j.field? (bytes "prompt_template") with
      | some (.str promptTemplate) => do
          let tools ← match j.field? (bytes "tools") with
            | some (.arr tools) => tools.mapM (loadTool outside)
            | _ => .ok []
          return some ⟨promptTemplate, tools⟩
      | _ => .ok none

def buildToolResultPrompt (userInput toolName : Bytes) (toolArgs toolResult : Json) :
    Except Bytes Bytes :=
  match codec.dump toolArgs, outside.dump4 toolResult with
  | some args, some result => .ok (utf8 "下面是用户说的话：".toList ++ userInput ++ bytes "\n" ++
      utf8 "我刚才调用了工具 [".toList ++ toolName ++ utf8 "] ，参数为：".toList ++ args ++ bytes "\n" ++
      utf8 "工具返回的结果如下：\n".toList ++ result ++ bytes "\n" ++
      utf8 "请根据以上信息，用自然语言回答用户。".toList)
  | _, _ => .error outside.what

/-! ## The tools -/

def toolError (text : String) : Json := .object [(bytes "error", .str (bytes text))]

def weatherUrl (encodedCity : Bytes) : Bytes :=
  bytes "https://wttr.in/" ++ encodedCity ++ bytes "?format=3&lang=zh"

/-- `getWeather` from `curl_easy_init` on. -/
def weather (curl : Curl) (n : Nat) (city url : Bytes) : List PipelineObs × Json :=
  if !curl.init then ([], toolError "Failed to init CURL")
  else ([.init n, .performed n false url [], .cleaned n],
    if curl.transfer.failure.isSome then toolError "CURL request failed"
    else .object [(bytes "city", .str city), (bytes "weather", .str curl.readBuffer)])

def getWeather (args : Json) : Requests Json :=
  match args.field? (bytes "city") with
  | none => pure (toolError "Missing parameter: city")
  | some (.str city) =>
      match outside.escape city with
      | none => pure (toolError "URL encode failed")
      | some encodedCity => fun n =>
          let url := weatherUrl encodedCity
          let (out, result) := weather (outside.curl n url []) n city url
          (out, n + 1, .ok result)
  | some _ => fail (.threw outside.what)

def getTime (_args : Json) : Requests Json := pure (.object [(bytes "time", .str outside.time)])

/-- `AIToolRegistry::invoke`. -/
def invoke (name : Bytes) (args : Json) : Requests Json := do
  emit (.invoked name args)
  if name = bytes "get_weather" then getWeather outside args
  else if name = bytes "get_time" then getTime outside args
  else fail (.threw (bytes "Tool not found: " ++ name))

/-! ## The answer of `chat` -/

/-- The branches of `chat` that are not local. -/
def answer (strategy : Strategy) (messages : List (Bytes × Int)) (userQuestion : Bytes) :
    Requests Bytes :=
  if strategy.isMCPModel then do
    let config? ← lift (loadFromFile outside)
    match config? with
    | none => fail (.threw (bytes "Tool configuration unavailable"))
    | some config =>
        let aiResult ← ask codec outside strategy
          (messages ++ [(config.buildPrompt userQuestion, 0)])
        let call := Tools.AIConfig.parseAIResponse codec aiResult
        if call.isToolCall then
          let toolResult ← invoke outside call.toolName call.args
          let prompt ← orThrow
            (buildToolResultPrompt codec outside userQuestion call.toolName call.args toolResult)
          ask codec outside strategy (messages ++ [(prompt, 0)])
        else pure aiResult
  else ask codec outside strategy (messages ++ [(userQuestion, 0)])

/-! ## What `Helper` allows -/

/-- What `Helper` shows of a request. -/
def PipelineObs.effect? : PipelineObs → Option Effect
  | .asked payload => some (.asked payload)
  | _ => none

def shownOf (out : List PipelineObs) : List Effect := out.filterMap PipelineObs.effect?

def PipelineObs.isMain : PipelineObs → Bool
  | .asked _ => true
  | .invoked _ _ => true
  | _ => false

def PipelineObs.isPerformed : PipelineObs → Bool
  | .performed .. => true
  | _ => false

/-- The requests to the model and to the tools. -/
def mainsOf (out : List PipelineObs) : List PipelineObs := out.filter PipelineObs.isMain

theorem ok_of_toOption {ε α : Type} {r : Except ε α} {a : α} (some_ : r.toOption = some a) : r = .ok a := by
  cases r with
  | ok b => exact congrArg _ (Option.some.inj some_)
  | error e => cases some_

theorem mapError_ok_iff {α ε ε' : Type} {r : Except ε α} {f : ε → ε'} {a : α} :
    r.mapError f = .ok a ↔ r = .ok a := by
  cases r <;> simp [Except.mapError]

section requests

variable {codec : JsonCodec} {outside : Outside} {strategy : Strategy} {n n' : Nat}
  {out : List PipelineObs}

theorem mainsOf_append (out out' : List PipelineObs) : mainsOf (out ++ out') = mainsOf out ++ mainsOf out' :=
  List.filter_append ..

theorem shownOf_append (out out' : List PipelineObs) :
    shownOf (out ++ out') = shownOf out ++ shownOf out' := List.filterMap_append ..

theorem shownOf_mainsOf (out : List PipelineObs) : shownOf (mainsOf out) = shownOf out := by
  rw [shownOf, mainsOf, List.filterMap_filter]
  refine List.filterMap_congr fun o _ => ?_
  cases o <;> rfl

variable (codec outside strategy) in
/-- `executeCurl` ends before curl, or with its transfer. -/
theorem executeCurl_cases (payload : Json) (n : Nat) :
    (∃ what, executeCurl codec outside strategy payload n = ([], n, .error (.threw what)) ∧
      ∀ url payloadStr, getApiUrl outside.getenv strategy = .ok url → codec.dump payload ≠ some payloadStr) ∨
    ∃ url payloadStr, getApiUrl outside.getenv strategy = .ok url ∧ codec.dump payload = some payloadStr ∧
      executeCurl codec outside strategy payload n =
        let run := transfer codec (outside.curl n url payloadStr) n (getApiKey outside.getenv strategy)
          url payloadStr
        (run.1, n + 1, run.2.mapError .threw) := by
  cases located : getApiUrl outside.getenv strategy with
  | error what =>
      refine .inl ⟨what, ?_, fun url _ same => by cases same⟩
      rw [executeCurl, located]
      rfl
  | ok url =>
      cases written : codec.dump payload with
      | none =>
          refine .inl ⟨outside.what, ?_, fun _ payloadStr _ same => by cases same⟩
          rw [executeCurl, located, written]
          rfl
      | some payloadStr =>
          refine .inr ⟨url, payloadStr, rfl, rfl, ?_⟩
          rw [executeCurl, located, written]
          rfl

/-- A transfer that ends with a response was made, and its status and its content are fine. -/
structure Delivers (codec : JsonCodec) (curl : Curl) (response : Json) : Prop where
  handle : curl.init = true ∧ curl.append 0 = true ∧ curl.append 1 = true
  complete : curl.transfer.failure = none
  status : 200 ≤ curl.transfer.status ∧ curl.transfer.status < 300
  parsed : codec.parse curl.readBuffer = some response
  success : reportsError response = false

theorem readTransfer_ok_iff {curl : Curl} {response : Json}
    (handle : curl.init = true ∧ curl.append 0 = true ∧ curl.append 1 = true) :
    readTransfer codec curl = .ok response ↔ Delivers codec curl response := by
  constructor
  · intro read
    unfold readTransfer at read
    split at read
    · cases read
    · next complete =>
        split at read
        · cases read
        · next fine =>
            obtain ⟨low, high⟩ := not_or.mp fine
            split at read
            · cases read
            · next response' parsed =>
                split at read
                · cases read
                · next success =>
                    cases read
                    exact ⟨handle, complete, ⟨not_lt.mp low, not_le.mp high⟩, parsed,
                      Bool.eq_false_iff.mpr success⟩
  · intro delivers
    have fine : ¬ (curl.transfer.status < 200 ∨ 300 ≤ curl.transfer.status) :=
      not_or.mpr ⟨not_lt.mpr delivers.status.1, not_le.mpr delivers.status.2⟩
    rw [readTransfer, delivers.complete]
    dsimp only
    rw [if_neg fine, delivers.parsed]
    dsimp only
    rw [delivers.success]
    rfl

/-- One transfer at most, of the payload to the url, and with the two headers. -/
structure Transferred (key url payload : Bytes) (out : List PipelineObs) : Prop where
  transfers : out.countP PipelineObs.isPerformed ≤ 1
  headers : ∀ m header, (.listed m header ∈ out → header = authHeader key) ∧
    (.extended m header ∈ out → header = contentHeader)
  performed : ∀ m headed url' data, .performed m headed url' data ∈ out →
    headed = true ∧ url' = url ∧ data = payload ∧
      .listed m (authHeader key) ∈ out ∧ .extended m contentHeader ∈ out

variable (codec) in
/-- A run of the transfer, by what curl has. -/
theorem transfer_cases (curl : Curl) (n : Nat) (key url payload : Bytes) :
    Releases ((transfer codec curl n key url payload).1.flatMap PipelineObs.uses) ∧
    mainsOf (transfer codec curl n key url payload).1 = [] ∧
    (∀ response, (transfer codec curl n key url payload).2 = .ok response ↔
      Delivers codec curl response) ∧
    Transferred key url payload (transfer codec curl n key url payload).1 := by
  unfold transfer
  dsimp only
  split
  · next none_ =>
      refine ⟨.nil, rfl, fun response => iff_of_false (fun failed => by cases failed) ?_, ?_⟩
      · intro delivers
        rw [delivers.handle.1] at none_
        cases none_
      · constructor <;> simp
  · next init =>
      have init' : curl.init = true := by simpa using init
      split
      · next none_ =>
          refine ⟨?_, rfl, fun response => iff_of_false (fun failed => by cases failed) ?_, ?_⟩
          · intro open_ fresh
            have easy : Resource.easy n ∉ open_ := fresh _ (by simp [PipelineObs.uses])
            simp [PipelineObs.uses, stillOpen, Use.apply, easy]
          · intro delivers
            rw [delivers.handle.2.1] at none_
            cases none_
          · constructor <;> simp [PipelineObs.isPerformed]
      · next listed =>
          have listed' : curl.append 0 = true := by simpa using listed
          split
          · next none_ =>
              refine ⟨?_, rfl, fun response => iff_of_false (fun failed => by cases failed) ?_, ?_⟩
              · intro open_ fresh
                have easy : Resource.easy n ∉ open_ := fresh _ (by simp [PipelineObs.uses])
                have headers : Resource.headers n ∉ open_ := fresh _ (by simp [PipelineObs.uses])
                simp [PipelineObs.uses, stillOpen, Use.apply, easy, headers]
              · intro delivers
                rw [delivers.handle.2.2] at none_
                cases none_
              · constructor <;> simp [PipelineObs.isPerformed]
          · next extended =>
              have extended' : curl.append 1 = true := by simpa using extended
              refine ⟨?_, rfl, fun response => readTransfer_ok_iff ⟨init', listed', extended'⟩, ?_⟩
              · intro open_ fresh
                have easy : Resource.easy n ∉ open_ := fresh _ (by simp [PipelineObs.uses])
                have headers : Resource.headers n ∉ open_ := fresh _ (by simp [PipelineObs.uses])
                simp [PipelineObs.uses, stillOpen, Use.apply, easy, headers]
              · constructor
                · exact Nat.le_refl 1
                · simp
                · intro m headed url' data member
                  simp at member
                  obtain ⟨rfl, rfl, rfl, rfl⟩ := member
                  simp

/-! ## What a request brings -/

/-- `choices[0].message.content` is the text. -/
def HasContent (response : Json) (text : Bytes) : Prop :=
  ∃ choice rest message, response.field? (bytes "choices") = some (.arr (choice :: rest)) ∧
    choice.field? (bytes "message") = some message ∧ message.field? (bytes "content") = some (.str text)

/-- The first choice is an object without `message`, or its message one without `content`. -/
def LacksContent (response : Json) : Prop :=
  ∃ choice rest, response.field? (bytes "choices") = some (.arr (choice :: rest)) ∧
    ((∃ fields, choice = .obj fields ∧ choice.field? (bytes "message") = none) ∨
      ∃ fields, choice.field? (bytes "message") = some (.obj fields) ∧
        (Json.obj fields).field? (bytes "content") = none)

/-- The text that `parseResponse` finds. -/
def Says : Strategy → Json → Bytes → Prop
  | .aliyunRAG => fun response text =>
      ∃ output, response.field? (bytes "output") = some output ∧ output.field? (bytes "text") = some (.str text)
  | .gemma => fun response text => response.field? (bytes "text") = some (.str text)
  | _ => HasContent

/-- `parseResponse` uses `operator[]` on a missing key. -/
def Lacks : Strategy → Json → Prop
  | .aliyunRAG => fun _ => False
  | .gemma => fun _ => False
  | _ => LacksContent

theorem string_ok_iff {j : Json} {text : Bytes} : string outside j = .ok text ↔ j = .str text := by
  cases j <;> simp [string]

theorem string_ne_undefined {j : Json} : string outside j ≠ .error .undefined := by
  cases j <;> simp [string]

theorem member_ok_iff {j v : Json} {key : Bytes} :
    member outside j key = .ok v ↔ j.field? key = some v := by
  cases j with
  | obj fields =>
      rw [member]
      cases (Json.obj fields).field? key <;> simp
  | _ => simp [member, Json.field?]

theorem member_undefined_iff {j : Json} {key : Bytes} :
    member outside j key = .error .undefined ↔ ∃ fields, j = .obj fields ∧ j.field? key = none := by
  cases j with
  | obj fields =>
      rw [member]
      cases found : (Json.obj fields).field? key <;> simp
  | _ => simp [member]

theorem parseChoices_first {choice response : Json} {rest : List Json}
    (listed : response.field? (bytes "choices") = some (.arr (choice :: rest))) :
    parseChoices outside response = (do
      let message ← member outside choice (bytes "message")
      let content ← member outside message (bytes "content")
      string outside content) := by
  rw [parseChoices, listed]
  rfl

variable (outside) in
/-- Other choices give no text, and nothing undefined. -/
theorem parseChoices_other {response : Json}
    (other : ∀ choice rest, response.field? (bytes "choices") ≠ some (.arr (choice :: rest))) :
    parseChoices outside response = .ok [] ∨
      parseChoices outside response = .error (.threw outside.what) := by
  unfold parseChoices
  cases listed : response.field? (bytes "choices") with
  | none => exact .inl rfl
  | some choices =>
      dsimp only
      split
      · exact .inl rfl
      · cases choices with
        | arr items =>
            cases items with
            | nil => exact .inr rfl
            | cons choice rest => exact absurd listed (other choice rest)
        | _ => exact .inr rfl

theorem parseChoices_ok_iff {response : Json} {text : Bytes} (some_ : text ≠ []) :
    parseChoices outside response = .ok text ↔ HasContent response text := by
  constructor
  · intro read
    by_cases listed : ∃ choice rest, response.field? (bytes "choices") = some (.arr (choice :: rest))
    · obtain ⟨choice, rest, listed⟩ := listed
      rw [parseChoices_first listed] at read
      obtain ⟨message, found, read⟩ := bind_eq_ok read
      obtain ⟨content, held, read⟩ := bind_eq_ok read
      rw [member_ok_iff] at found held
      rw [string_ok_iff.mp read] at held
      exact ⟨choice, rest, message, listed, found, held⟩
    · rcases parseChoices_other outside fun choice rest same => listed ⟨choice, rest, same⟩
        with none_ | threw
      · rw [none_] at read
        exact absurd (Except.ok.inj read).symm some_
      · rw [threw] at read
        cases read
  · rintro ⟨choice, rest, message, listed, found, held⟩
    rw [parseChoices_first listed, member_ok_iff.mpr found]
    change member outside message (bytes "content") >>= _ = _
    rw [member_ok_iff.mpr held]
    rfl

theorem parseChoices_undefined_iff {response : Json} :
    parseChoices outside response = .error .undefined ↔ LacksContent response := by
  constructor
  · intro failed
    by_cases listed : ∃ choice rest, response.field? (bytes "choices") = some (.arr (choice :: rest))
    · obtain ⟨choice, rest, listed⟩ := listed
      rw [parseChoices_first listed] at failed
      refine ⟨choice, rest, listed, ?_⟩
      rcases bind_eq_error failed with failed | ⟨message, found, failed⟩
      · exact .inl (member_undefined_iff.mp failed)
      · rcases bind_eq_error failed with failed | ⟨content, held, failed⟩
        · obtain ⟨fields, rfl, absent⟩ := member_undefined_iff.mp failed
          exact .inr ⟨fields, member_ok_iff.mp found, absent⟩
        · exact absurd failed string_ne_undefined
    · rcases parseChoices_other outside fun choice rest same => listed ⟨choice, rest, same⟩
        with none_ | threw
      · rw [none_] at failed
        cases failed
      · rw [threw] at failed
        cases failed
  · rintro ⟨choice, rest, listed, ⟨fields, same, absent⟩ | ⟨fields, found, absent⟩⟩
    · rw [parseChoices_first listed, member_undefined_iff.mpr ⟨fields, same, absent⟩]
      rfl
    · rw [parseChoices_first listed, member_ok_iff.mpr found]
      change member outside (.obj fields) (bytes "content") >>= _ = _
      rw [member_undefined_iff.mpr ⟨fields, rfl, absent⟩]
      rfl

theorem parseResponse_ok_iff {response : Json} {text : Bytes} (some_ : text ≠ []) :
    parseResponse outside strategy response = .ok text ↔ Says strategy response text := by
  cases strategy with
  | aliyunRAG =>
      change AliyunRAGStrategy.parseResponse outside response = _ ↔ ∃ output, _
      unfold AliyunRAGStrategy.parseResponse
      cases found : response.field? (bytes "output") with
      | none => simpa using some_.symm
      | some output =>
          cases held : output.field? (bytes "text") with
          | none => simpa [held] using some_.symm
          | some j => simp [held, string_ok_iff]
  | gemma =>
      change value outside response (bytes "text") = _ ↔ _ = _
      unfold value
      cases response with
      | obj fields =>
          cases held : (Json.obj fields).field? (bytes "text") with
          | none => simpa [held] using some_.symm
          | some j => simp [string_ok_iff]
      | _ => simp [Json.field?]
  | _ => exact parseChoices_ok_iff some_

theorem parseResponse_undefined_iff {response : Json} :
    parseResponse outside strategy response = .error .undefined ↔ Lacks strategy response := by
  cases strategy with
  | aliyunRAG =>
      refine iff_of_false (fun failed => ?_) fun lacks => lacks.elim
      change AliyunRAGStrategy.parseResponse outside response = _ at failed
      unfold AliyunRAGStrategy.parseResponse at failed
      split at failed
      · cases failed
      · exact string_ne_undefined failed
  | gemma =>
      refine iff_of_false (fun failed => ?_) fun lacks => lacks.elim
      change value outside response (bytes "text") = _ at failed
      unfold value at failed
      split at failed
      · next fields =>
          cases held : (Json.obj fields).field? (bytes "text") with
          | none =>
              rw [held] at failed
              cases failed
          | some j =>
              rw [held] at failed
              exact string_ne_undefined failed
      · cases failed
  | _ => exact parseChoices_undefined_iff

/-- The transfer of a payload brings this response. -/
def Brings (codec : JsonCodec) (outside : Outside) (strategy : Strategy) (payload : Json) (n : Nat)
    (response : Json) : Prop :=
  ∃ url payloadStr, getApiUrl outside.getenv strategy = .ok url ∧ codec.dump payload = some payloadStr ∧
    Delivers codec (outside.curl n url payloadStr) response

/-- What is shown of one request to the model: one transfer at most, of the payload to the strategy's
url, under a list of its key and the type of the content. -/
structure Requested (codec : JsonCodec) (outside : Outside) (strategy : Strategy) (payload : Json)
    (out : List PipelineObs) : Prop where
  releases : Releases (out.flatMap PipelineObs.uses)
  quiet : mainsOf out = []
  transfers : out.countP PipelineObs.isPerformed ≤ 1
  headers : ∀ m header,
    (.listed m header ∈ out → header = authHeader (getApiKey outside.getenv strategy)) ∧
      (.extended m header ∈ out → header = contentHeader)
  performed : ∀ m headed url data, .performed m headed url data ∈ out →
    headed = true ∧ getApiUrl outside.getenv strategy = .ok url ∧ codec.dump payload = some data ∧
      .listed m (authHeader (getApiKey outside.getenv strategy)) ∈ out ∧ .extended m contentHeader ∈ out

variable (codec outside strategy) in
theorem executeCurl_spec (payload : Json) (n : Nat) :
    let run := executeCurl codec outside strategy payload n
    Requested codec outside strategy payload run.1 ∧ run.2.2 ≠ .error .undefined ∧
      ∀ response, run.2.2 = .ok response ↔ Brings codec outside strategy payload n response := by
  rcases executeCurl_cases codec outside strategy payload n with
    ⟨what, ran, absent⟩ | ⟨url, payloadStr, located, written, ran⟩
  · rw [ran]
    refine ⟨⟨.nil, rfl, Nat.zero_le 1, by simp, by simp⟩, by simp, fun response => ?_⟩
    refine iff_of_false (fun failed => by cases failed) ?_
    rintro ⟨url, payloadStr, located, written, -⟩
    exact absent url payloadStr located written
  · rw [ran]
    obtain ⟨releases, quiet, ok_iff, transferred⟩ := transfer_cases codec
      (outside.curl n url payloadStr) n (getApiKey outside.getenv strategy) url payloadStr
    generalize transfer codec (outside.curl n url payloadStr) n (getApiKey outside.getenv strategy) url
      payloadStr = run at releases quiet ok_iff transferred ⊢
    obtain ⟨out, r⟩ := run
    refine ⟨⟨releases, quiet, transferred.transfers, transferred.headers, ?_⟩, ?_, fun response => ?_⟩
    · intro m headed url' data member
      obtain ⟨rfl, rfl, rfl, headers⟩ := transferred.performed m headed url' data member
      exact ⟨rfl, located, written, headers⟩
    · cases r <;> simp [Except.mapError]
    · change r.mapError Trouble.threw = .ok response ↔ _
      rw [mapError_ok_iff, ok_iff response]
      constructor
      · exact fun delivers => ⟨url, payloadStr, located, written, delivers⟩
      · rintro ⟨url', payloadStr', located', written', delivers⟩
        rw [located] at located'
        rw [written] at written'
        cases located'
        cases written'
        exact delivers

variable (codec outside strategy) in
theorem ask_eq (messages : List (Bytes × Int)) (n : Nat) :
    ask codec outside strategy messages n =
      let run := executeCurl codec outside strategy (strategy.buildRequest messages) n
      (.asked (strategy.buildRequest messages) :: run.1, run.2.1,
        run.2.2 >>= parseResponse outside strategy) := by
  rw [ask, emit_bind_eq]
  dsimp only
  cases ran : executeCurl codec outside strategy (strategy.buildRequest messages) n with
  | mk out rest =>
      obtain ⟨n', r⟩ := rest
      cases r with
      | error e =>
          rw [bind_error ran]
          rfl
      | ok response =>
          rw [bind_eq ran]
          change (_ :: (out ++ []), _) = _
          rw [List.append_nil]
          rfl

/-- A request to a model is one transfer at most, of its payload to its own url and with its key, and
releases what it opens.  A text comes exactly from a transfer that went well and whose response has it, and the
one thing that may be undefined is a first choice without its message or its content. -/
theorem upstream_answer (codec : JsonCodec) (outside : Outside) (strategy : Strategy)
    (messages : List (Bytes × Int)) (n : Nat) :
    let run := ask codec outside strategy messages n
    (∃ out, run.1 = .asked (strategy.buildRequest messages) :: out ∧
      Requested codec outside strategy (strategy.buildRequest messages) out) ∧
    (∀ text ≠ [], run.2.2 = .ok text ↔
      ∃ response, Brings codec outside strategy (strategy.buildRequest messages) n response ∧
        Says strategy response text) ∧
    (run.2.2 = .error .undefined ↔
      ∃ response, Brings codec outside strategy (strategy.buildRequest messages) n response ∧
        Lacks strategy response) := by
  obtain ⟨requested, defined, ok_iff⟩ :=
    executeCurl_spec codec outside strategy (strategy.buildRequest messages) n
  rw [ask_eq]
  dsimp only at requested defined ok_iff ⊢
  refine ⟨⟨_, rfl, requested⟩, fun text some_ => ?_, ?_⟩
  · constructor
    · intro ran
      obtain ⟨response, brought, read⟩ := bind_eq_ok ran
      exact ⟨response, (ok_iff response).mp brought, (parseResponse_ok_iff some_).mp read⟩
    · rintro ⟨response, brings, told⟩
      rw [(ok_iff response).mpr brings]
      exact (parseResponse_ok_iff some_).mpr told
  · constructor
    · intro failed
      rcases bind_eq_error failed with failed | ⟨response, brought, failed⟩
      · exact absurd failed defined
      · exact ⟨response, (ok_iff response).mp brought, parseResponse_undefined_iff.mp failed⟩
    · rintro ⟨response, brings, lacks⟩
      rw [(ok_iff response).mpr brings]
      exact parseResponse_undefined_iff.mpr lacks

/-! ## The tools' requests -/

/-- What is shown of a tool: only the weather asks anyone, and only for the city of its arguments. -/
structure Served (outside : Outside) (name : Bytes) (args : Json) (out : List PipelineObs) : Prop where
  releases : Releases (out.flatMap PipelineObs.uses)
  quiet : mainsOf out = []
  headers : ∀ m header, .listed m header ∉ out ∧ .extended m header ∉ out
  performed : ∀ m headed url data, .performed m headed url data ∈ out →
    headed = false ∧ name = bytes "get_weather" ∧ ∃ city encodedCity,
      args.field? (bytes "city") = some (.str city) ∧ outside.escape city = some encodedCity ∧
      url = weatherUrl encodedCity

theorem served_nil (name : Bytes) (args : Json) : Served outside name args [] :=
  ⟨.nil, rfl, by simp, fun m headed url data member => by cases member⟩

theorem weather_cases (curl : Curl) (n : Nat) (city url : Bytes) :
    Releases ((weather curl n city url).1.flatMap PipelineObs.uses) ∧
    mainsOf (weather curl n city url).1 = [] ∧
    (∀ m header, .listed m header ∉ (weather curl n city url).1 ∧
      .extended m header ∉ (weather curl n city url).1) ∧
    ∀ m headed url' data, .performed m headed url' data ∈ (weather curl n city url).1 →
      headed = false ∧ url' = url := by
  unfold weather
  split
  · exact ⟨.nil, rfl, by simp, fun m headed url' data member => by cases member⟩
  · refine ⟨?_, rfl, by simp, fun m headed url' data member => ?_⟩
    · intro open_ fresh
      have easy : Resource.easy n ∉ open_ := fresh _ (by simp [PipelineObs.uses])
      simp [PipelineObs.uses, stillOpen, Use.apply, easy]
    · simp at member
      exact ⟨member.2.1, member.2.2.1⟩

variable (outside) in
theorem getWeather_spec (args : Json) (n : Nat) :
    Served outside (bytes "get_weather") args (getWeather outside args n).1 ∧
      (getWeather outside args n).2.2 ≠ .error .undefined := by
  rw [getWeather]
  cases given : args.field? (bytes "city") with
  | none => exact ⟨served_nil _ args, fun failed => by cases failed⟩
  | some j =>
      cases j with
      | str city =>
          dsimp only
          cases escaped : outside.escape city with
          | none => exact ⟨served_nil _ args, fun failed => by cases failed⟩
          | some encodedCity =>
              obtain ⟨releases, quiet, bare, performed⟩ := weather_cases
                (outside.curl n (weatherUrl encodedCity) []) n city (weatherUrl encodedCity)
              refine ⟨⟨releases, quiet, bare, fun m headed url data member => ?_⟩,
                fun failed => by cases failed⟩
              obtain ⟨rfl, rfl⟩ := performed m headed url data member
              exact ⟨rfl, rfl, city, encodedCity, given, escaped, rfl⟩
      | _ => exact ⟨served_nil _ args, fun failed => by cases failed⟩

variable (outside) in
theorem invoke_spec (name : Bytes) (args : Json) (n : Nat) :
    let run := invoke outside name args n
    (∃ out, run.1 = .invoked name args :: out ∧ Served outside name args out) ∧
      run.2.2 ≠ .error .undefined ∧
      (name ≠ bytes "get_weather" → name ≠ bytes "get_time" →
        run.2.2 = .error (.threw (bytes "Tool not found: " ++ name))) := by
  rw [invoke, emit_bind_eq]
  by_cases weather : name = bytes "get_weather"
  · subst weather
    obtain ⟨served, defined⟩ := getWeather_spec outside args n
    exact ⟨⟨_, rfl, served⟩, defined, fun other => absurd rfl other⟩
  · by_cases time : name = bytes "get_time"
    · dsimp only
      rw [if_neg weather, if_pos time]
      exact ⟨⟨_, rfl, served_nil name args⟩, (fun failed => by cases failed), fun _ other => absurd time other⟩
    · dsimp only
      rw [if_neg weather, if_neg time]
      exact ⟨⟨_, rfl, served_nil name args⟩, (fun failed => by cases failed), fun _ _ => rfl⟩

/-! ## A whole answer -/

/-- How a tool strategy answers, by what its parts give. -/
inductive Answers (codec : JsonCodec) (outside : Outside) (strategy : Strategy)
    (messages : List (Bytes × Int)) (userQuestion : Bytes) (n : Nat) :
    List PipelineObs × Nat × Except Trouble Bytes → Prop
  | unloaded {e : Trouble} : loadFromFile outside = .error e →
    Answers codec outside strategy messages userQuestion n ([], n, .error e)
  | unavailable : loadFromFile outside = .ok none →
    Answers codec outside strategy messages userQuestion n
      ([], n, .error (.threw (bytes "Tool configuration unavailable")))
  | direct {config : Tools.AIConfig} {out : List PipelineObs} {n' : Nat} {r : Except Trouble Bytes} :
    loadFromFile outside = .ok (some config) →
    ask codec outside strategy (messages ++ [(config.buildPrompt userQuestion, 0)]) n = (out, n', r) →
    (∀ aiResult, r = .ok aiResult → (Tools.AIConfig.parseAIResponse codec aiResult).isToolCall = false) →
    Answers codec outside strategy messages userQuestion n (out, n', r)
  | toolFails {config : Tools.AIConfig} {out out' : List PipelineObs} {n' n'' : Nat} {aiResult : Bytes}
      {e : Trouble} :
    loadFromFile outside = .ok (some config) →
    ask codec outside strategy (messages ++ [(config.buildPrompt userQuestion, 0)]) n =
      (out, n', .ok aiResult) →
    (Tools.AIConfig.parseAIResponse codec aiResult).isToolCall = true →
    invoke outside (Tools.AIConfig.parseAIResponse codec aiResult).toolName
      (Tools.AIConfig.parseAIResponse codec aiResult).args n' = (out', n'', .error e) →
    Answers codec outside strategy messages userQuestion n (out ++ out', n'', .error e)
  | unwritable {config : Tools.AIConfig} {out out' : List PipelineObs} {n' n'' : Nat}
      {aiResult what : Bytes} {toolResult : Json} :
    loadFromFile outside = .ok (some config) →
    ask codec outside strategy (messages ++ [(config.buildPrompt userQuestion, 0)]) n =
      (out, n', .ok aiResult) →
    (Tools.AIConfig.parseAIResponse codec aiResult).isToolCall = true →
    invoke outside (Tools.AIConfig.parseAIResponse codec aiResult).toolName
      (Tools.AIConfig.parseAIResponse codec aiResult).args n' = (out', n'', .ok toolResult) →
    buildToolResultPrompt codec outside userQuestion (Tools.AIConfig.parseAIResponse codec aiResult).toolName
      (Tools.AIConfig.parseAIResponse codec aiResult).args toolResult = .error what →
    Answers codec outside strategy messages userQuestion n (out ++ out', n'', .error (.threw what))
  | second {config : Tools.AIConfig} {out out' out'' : List PipelineObs} {n' n'' n''' : Nat}
      {aiResult prompt : Bytes} {toolResult : Json} {r : Except Trouble Bytes} :
    loadFromFile outside = .ok (some config) →
    ask codec outside strategy (messages ++ [(config.buildPrompt userQuestion, 0)]) n =
      (out, n', .ok aiResult) →
    (Tools.AIConfig.parseAIResponse codec aiResult).isToolCall = true →
    invoke outside (Tools.AIConfig.parseAIResponse codec aiResult).toolName
      (Tools.AIConfig.parseAIResponse codec aiResult).args n' = (out', n'', .ok toolResult) →
    buildToolResultPrompt codec outside userQuestion (Tools.AIConfig.parseAIResponse codec aiResult).toolName
      (Tools.AIConfig.parseAIResponse codec aiResult).args toolResult = .ok prompt →
    ask codec outside strategy (messages ++ [(prompt, 0)]) n'' = (out'', n''', r) →
    Answers codec outside strategy messages userQuestion n (out ++ (out' ++ out''), n''', r)

variable (codec outside strategy) in
theorem answers (mcp : strategy.isMCPModel = true) (messages : List (Bytes × Int)) (userQuestion : Bytes)
    (n : Nat) : Answers codec outside strategy messages userQuestion n
      (answer codec outside strategy messages userQuestion n) := by
  rw [answer, if_pos mcp]
  cases loaded : loadFromFile outside with
  | error e => exact .unloaded loaded
  | ok config? =>
      cases config? with
      | none => exact .unavailable loaded
      | some config =>
          rw [bind_eq (show lift (Except.ok (some config)) n = ([], n, .ok (some config)) from rfl)]
          dsimp only
          rw [List.nil_append]
          cases asked : ask codec outside strategy (messages ++ [(config.buildPrompt userQuestion, 0)]) n with
          | mk out rest =>
              obtain ⟨n', r⟩ := rest
              cases r with
              | error e =>
                  rw [bind_error asked]
                  exact .direct loaded asked fun aiResult same => by cases same
              | ok aiResult =>
                  rw [bind_eq asked]
                  dsimp only
                  cases called : (Tools.AIConfig.parseAIResponse codec aiResult).isToolCall with
                  | false =>
                      rw [if_neg (by simp)]
                      change Answers codec outside strategy messages userQuestion n
                        (out ++ [], n', .ok aiResult)
                      rw [List.append_nil]
                      refine .direct loaded asked fun aiResult' same => ?_
                      cases same
                      exact called
                  | true =>
                      rw [if_pos rfl]
                      cases invoked : invoke outside (Tools.AIConfig.parseAIResponse codec aiResult).toolName
                          (Tools.AIConfig.parseAIResponse codec aiResult).args n' with
                      | mk out' rest =>
                          obtain ⟨n'', r⟩ := rest
                          cases r with
                          | error e =>
                              rw [bind_error invoked]
                              exact .toolFails loaded asked called invoked
                          | ok toolResult =>
                              rw [bind_eq invoked]
                              cases written : buildToolResultPrompt codec outside userQuestion
                                  (Tools.AIConfig.parseAIResponse codec aiResult).toolName
                                  (Tools.AIConfig.parseAIResponse codec aiResult).args toolResult with
                              | error what =>
                                  have last := Answers.unwritable loaded asked called invoked written
                                  rw [← List.append_nil out'] at last
                                  exact last
                              | ok prompt => exact .second loaded asked called invoked written rfl

/-- What is shown releases what it opens; the key goes to the strategy's own url, with the payload of
a request, and nothing else goes anywhere but the city of a call to the weather service. -/
structure Contained (codec : JsonCodec) (outside : Outside) (strategy : Strategy) (out : List PipelineObs) :
    Prop where
  releases : Releases (out.flatMap PipelineObs.uses)
  headers : ∀ m header,
    (.listed m header ∈ out → header = authHeader (getApiKey outside.getenv strategy)) ∧
      (.extended m header ∈ out → header = contentHeader)
  performed : ∀ m headed url data, .performed m headed url data ∈ out →
    (headed = true ∧ getApiUrl outside.getenv strategy = .ok url ∧
      ∃ payload, .asked payload ∈ out ∧ codec.dump payload = some data) ∨
    headed = false ∧ ∃ args city encodedCity, .invoked (bytes "get_weather") args ∈ out ∧
      args.field? (bytes "city") = some (.str city) ∧ outside.escape city = some encodedCity ∧
      url = weatherUrl encodedCity

theorem Contained.nil : Contained codec outside strategy [] :=
  ⟨.nil, by simp, fun m headed url data member => by cases member⟩

theorem Contained.append {out' : List PipelineObs} (first : Contained codec outside strategy out)
    (second : Contained codec outside strategy out') : Contained codec outside strategy (out ++ out') := by
  refine ⟨?_, fun m header => ⟨fun member => ?_, fun member => ?_⟩, fun m headed url data member => ?_⟩
  · rw [List.flatMap_append]
    exact first.releases.append second.releases
  · exact (List.mem_append.mp member).elim (first.headers m header).1 (second.headers m header).1
  · exact (List.mem_append.mp member).elim (first.headers m header).2 (second.headers m header).2
  · rcases List.mem_append.mp member with early | late
    · rcases first.performed m headed url data early with
        ⟨own, located, payload, asked, written⟩ | ⟨bare, args, city, encodedCity, invoked, rest⟩
      · exact .inl ⟨own, located, payload, List.mem_append_left _ asked, written⟩
      · exact .inr ⟨bare, args, city, encodedCity, List.mem_append_left _ invoked, rest⟩
    · rcases second.performed m headed url data late with
        ⟨own, located, payload, asked, written⟩ | ⟨bare, args, city, encodedCity, invoked, rest⟩
      · exact .inl ⟨own, located, payload, List.mem_append_right _ asked, written⟩
      · exact .inr ⟨bare, args, city, encodedCity, List.mem_append_right _ invoked, rest⟩

theorem contained_ask {messages : List (Bytes × Int)} {r : Except Trouble Bytes}
    (ran : ask codec outside strategy messages n = (out, n', r)) :
    Contained codec outside strategy out ∧ mainsOf out = [.asked (strategy.buildRequest messages)] := by
  obtain ⟨requested, -, -⟩ := executeCurl_spec codec outside strategy (strategy.buildRequest messages) n
  rw [ask_eq] at ran
  cases ran
  refine ⟨⟨requested.releases, ?_, fun m headed url data member => ?_⟩, ?_⟩
  · simpa using requested.headers
  · rcases List.mem_cons.mp member with same | member
    · cases same
    · obtain ⟨own, located, written, -⟩ := requested.performed m headed url data member
      exact .inl ⟨own, located, _, List.mem_cons_self, written⟩
  · exact congrArg (PipelineObs.asked (strategy.buildRequest messages) :: ·) requested.quiet

variable (codec strategy) in
theorem contained_invoke {name : Bytes} {args : Json} {r : Except Trouble Json}
    (ran : invoke outside name args n = (out, n', r)) :
    Contained codec outside strategy out ∧ mainsOf out = [.invoked name args] := by
  obtain ⟨⟨later, shown, served⟩, -, -⟩ := invoke_spec outside name args n
  rw [ran] at shown
  dsimp only at shown
  rw [shown]
  refine ⟨⟨served.releases, ?_, fun m headed url data member => ?_⟩, ?_⟩
  · intro m header
    refine ⟨fun member => ?_, fun member => ?_⟩
    · rcases List.mem_cons.mp member with same | member
      · cases same
      · exact absurd member (served.headers m header).1
    · rcases List.mem_cons.mp member with same | member
      · cases same
      · exact absurd member (served.headers m header).2
  · rcases List.mem_cons.mp member with same | member
    · cases same
    · obtain ⟨bare, rfl, city, encodedCity, given, escaped, located⟩ :=
        served.performed m headed url data member
      exact .inr ⟨bare, args, city, encodedCity, List.mem_cons_self, given, escaped, located⟩
  · exact congrArg (PipelineObs.invoked name args :: ·) served.quiet

/-- Only a registered tool gives a result. -/
theorem registered_of_invoke {name : Bytes} {args result : Json}
    (ran : invoke outside name args n = (out, n', .ok result)) :
    name = bytes "get_weather" ∨ name = bytes "get_time" := by
  by_contra other
  obtain ⟨weather, time⟩ := not_or.mp other
  have failed := (invoke_spec outside name args n).2.2 weather time
  rw [ran] at failed
  cases failed

/-- The requests of an answer with tools: the prompt with the question, the tool that the model's
answer calls, and once more the model with what that tool gave. -/
inductive Mains (codec : JsonCodec) (outside : Outside) (strategy : Strategy)
    (messages : List (Bytes × Int)) (userQuestion : Bytes) (n : Nat) : List PipelineObs → Prop
  | none : (∀ config, loadFromFile outside ≠ .ok (some config)) →
    Mains codec outside strategy messages userQuestion n []
  | one {config : Tools.AIConfig} : loadFromFile outside = .ok (some config) →
    Mains codec outside strategy messages userQuestion n
      [.asked (strategy.buildRequest (messages ++ [(config.buildPrompt userQuestion, 0)]))]
  | tool {config : Tools.AIConfig} {out : List PipelineObs} {n' : Nat} {aiResult : Bytes}
      {call : Tools.AIToolCall} :
    loadFromFile outside = .ok (some config) →
    ask codec outside strategy (messages ++ [(config.buildPrompt userQuestion, 0)]) n =
      (out, n', .ok aiResult) →
    call = Tools.AIConfig.parseAIResponse codec aiResult → call.isToolCall = true →
    Mains codec outside strategy messages userQuestion n
      [.asked (strategy.buildRequest (messages ++ [(config.buildPrompt userQuestion, 0)])),
        .invoked call.toolName call.args]
  | again {config : Tools.AIConfig} {out out' : List PipelineObs} {n' n'' : Nat} {aiResult prompt : Bytes}
      {call : Tools.AIToolCall} {toolResult : Json} :
    loadFromFile outside = .ok (some config) →
    ask codec outside strategy (messages ++ [(config.buildPrompt userQuestion, 0)]) n =
      (out, n', .ok aiResult) →
    call = Tools.AIConfig.parseAIResponse codec aiResult → call.isToolCall = true →
    call.toolName = bytes "get_weather" ∨ call.toolName = bytes "get_time" →
    invoke outside call.toolName call.args n' = (out', n'', .ok toolResult) →
    buildToolResultPrompt codec outside userQuestion call.toolName call.args toolResult = .ok prompt →
    Mains codec outside strategy messages userQuestion n
      [.asked (strategy.buildRequest (messages ++ [(config.buildPrompt userQuestion, 0)])),
        .invoked call.toolName call.args, .asked (strategy.buildRequest (messages ++ [(prompt, 0)]))]

/-- An answer with tools takes at most two requests to the model and one call of a tool between
them; the second is made only with what a registered tool gave for the call that the first answered.
On every path all handles are released, the key goes to the strategy's own url only, and nothing but
a city goes anywhere else. -/
theorem tool_answer (mcp : strategy.isMCPModel = true) (messages : List (Bytes × Int))
    (userQuestion : Bytes) (n : Nat) :
    Contained codec outside strategy (answer codec outside strategy messages userQuestion n).1 ∧
      Mains codec outside strategy messages userQuestion n
        (mainsOf (answer codec outside strategy messages userQuestion n).1) := by
  have course := answers codec outside strategy mcp messages userQuestion n
  generalize answer codec outside strategy messages userQuestion n = run at course ⊢
  cases course with
  | unloaded failed => exact ⟨.nil, .none fun config loaded => by cases failed.symm.trans loaded⟩
  | unavailable absent => exact ⟨.nil, .none fun config loaded => by cases absent.symm.trans loaded⟩
  | direct loaded asked _ =>
      obtain ⟨contained, mains⟩ := contained_ask asked
      dsimp only
      rw [mains]
      exact ⟨contained, .one loaded⟩
  | toolFails loaded asked called invoked =>
      obtain ⟨contained, mains⟩ := contained_ask asked
      obtain ⟨contained', mains'⟩ := contained_invoke codec strategy invoked
      dsimp only
      rw [mainsOf_append, mains, mains']
      exact ⟨contained.append contained', .tool loaded asked rfl called⟩
  | unwritable loaded asked called invoked _ =>
      obtain ⟨contained, mains⟩ := contained_ask asked
      obtain ⟨contained', mains'⟩ := contained_invoke codec strategy invoked
      dsimp only
      rw [mainsOf_append, mains, mains']
      exact ⟨contained.append contained', .tool loaded asked rfl called⟩
  | second loaded asked called invoked written asked' =>
      obtain ⟨contained, mains⟩ := contained_ask asked
      obtain ⟨contained', mains'⟩ := contained_invoke codec strategy invoked
      obtain ⟨contained'', mains''⟩ := contained_ask asked'
      dsimp only
      rw [mainsOf_append, mainsOf_append, mains, mains', mains'']
      exact ⟨contained.append (contained'.append contained''),
        .again loaded asked rfl called (registered_of_invoke invoked) invoked written⟩

/-- What the model sends for a text. -/
def completion (content : Bytes) : Bytes :=
  bytes "\x7b\"choices\":[\x7b\"message\":\x7b\"content\":\"" ++ content ++ bytes "\"\x7d\x7d]\x7d"

/-- A host with a key and a prompt, whose model calls for the time and then tells it. -/
def clockHost : Outside where
  getenv name := if name = bytes "DASHSCOPE_API_KEY" then some (bytes "k") else none
  curl n _ _ := ⟨true, fun _ => true,
    completion (if n = 0 then bytes "\x7b\\\"tool\\\":\\\"get_time\\\"\x7d" else bytes "Noon."), ⟨none, 200⟩⟩
  file := some (some (.obj [(bytes "prompt_template", .str (bytes "Q"))]))
  arrange := id
  escape := some
  time := bytes "2025-01-01 12:00:00"
  dump4 := textCodec.dump
  what := bytes "type_error"

theorem clockHost_answer :
    (mainsOf (answer textCodec clockHost .aliyunMcp [] (bytes "time?") 0).1).length = 3 ∧
      (answer textCodec clockHost .aliyunMcp [] (bytes "time?") 0).1.countP PipelineObs.isPerformed = 2 ∧
      (answer textCodec clockHost .aliyunMcp [] (bytes "time?") 0).2.2.toOption = some (bytes "Noon.") := by
  decide +kernel

/-- A tool is called between two requests, and the model's second text is the answer. -/
theorem tool_answer_clock :
    (mainsOf (answer textCodec clockHost .aliyunMcp [] (bytes "time?") 0).1).length = 3 ∧
    (answer textCodec clockHost .aliyunMcp [] (bytes "time?") 0).1.countP PipelineObs.isPerformed = 2 ∧
    (answer textCodec clockHost .aliyunMcp [] (bytes "time?") 0).2.2.toOption = some (bytes "Noon.") ∧
    Contained textCodec clockHost .aliyunMcp
        (answer textCodec clockHost .aliyunMcp [] (bytes "time?") 0).1 ∧
      Mains textCodec clockHost .aliyunMcp [] (bytes "time?") 0
        (mainsOf (answer textCodec clockHost .aliyunMcp [] (bytes "time?") 0).1) :=
  ⟨clockHost_answer.1, clockHost_answer.2.1, clockHost_answer.2.2, tool_answer rfl [] (bytes "time?") 0⟩

/-! ## The refinement -/

variable (codec outside) in
/-- A loaded configuration, for `Helper`. -/
def helperConfig (config : Tools.AIConfig) : AIConfig where
  buildPrompt userInput := .ok (config.buildPrompt userInput)
  parseAIResponse response :=
    let call := Tools.AIConfig.parseAIResponse codec response
    ⟨call.toolName, call.args, call.isToolCall⟩
  buildToolResultPrompt := buildToolResultPrompt codec outside

theorem helper_ask (payload : Json) (reply : Except Bytes Bytes) (helper : AIHelper) :
    AIHelper.ask payload reply helper = ([.asked payload], helper, reply.mapError .threw) := rfl

theorem shownOf_ask {messages : List (Bytes × Int)} {r : Except Trouble Bytes}
    (ran : ask codec outside strategy messages n = (out, n', r)) :
    shownOf out = [.asked (strategy.buildRequest messages)] := by
  rw [← shownOf_mainsOf, (contained_ask ran).2]
  rfl

theorem shownOf_invoke {name : Bytes} {args : Json} {r : Except Trouble Json}
    (ran : invoke outside name args n = (out, n', r)) : shownOf out = [] := by
  obtain ⟨⟨later, shown, served⟩, -, -⟩ := invoke_spec outside name args n
  rw [ran] at shown
  dsimp only at shown
  rw [shown, ← shownOf_mainsOf]
  exact congrArg (fun out => shownOf (.invoked name args :: out)) served.quiet

theorem mapError_threw {α : Type} {e : Trouble} {r : Except Bytes α}
    (same : (.error e : Except Trouble α) = r.mapError .threw) : ∃ what, e = .threw what ∧ r = .error what := by
  cases r with
  | ok a => cases same
  | error what =>
      cases same
      exact ⟨what, rfl, rfl⟩

/-- `Helper`'s answer of a tool strategy, behind the configuration. -/
theorem helper_answer_mcp (mcp : strategy.isMCPModel = true) (call : Call) (env : Environment)
    (helper : AIHelper) {config : AIConfig} {prompt : Bytes} (loaded : env.config = .ok (some config))
    (built : config.buildPrompt call.userQuestion = .ok prompt) :
    AIHelper.answer call env strategy helper =
      ((do
        let aiResult ← AIHelper.ask (strategy.buildRequest (helper.messages ++ [(prompt, 0)])) env.reply
        let tool := config.parseAIResponse aiResult
        if tool.isToolCall then
          let toolResult ← AIHelper.orThrow (env.invoke tool.toolName tool.args)
          let prompt ← AIHelper.orThrow
            (config.buildToolResultPrompt call.userQuestion tool.toolName tool.args toolResult)
          AIHelper.ask (strategy.buildRequest (helper.messages ++ [(prompt, 0)])) env.secondReply
        else pure aiResult) : Section Bytes) helper := by
  have remote : strategy.isLocal = false := by
    cases strategy <;> first | rfl | cases mcp
  rw [AIHelper.answer, current_bind_eq, remote, mcp, loaded]
  dsimp only
  rw [if_neg Bool.false_ne_true, if_pos rfl, built]
  rfl

/-- `Helper`'s answer once the model asked for a tool. -/
theorem helper_answer_tool (mcp : strategy.isMCPModel = true) (call : Call) (env : Environment)
    (helper : AIHelper) {config : Tools.AIConfig} {aiResult : Bytes}
    (loaded : env.config = .ok (some (helperConfig codec outside config)))
    (replied : env.reply = .ok aiResult)
    (called : (Tools.AIConfig.parseAIResponse codec aiResult).isToolCall = true) :
    AIHelper.answer call env strategy helper =
      let tool := Tools.AIConfig.parseAIResponse codec aiResult
      let run := (do
        let toolResult ← AIHelper.orThrow (env.invoke tool.toolName tool.args)
        let prompt ← AIHelper.orThrow
          (buildToolResultPrompt codec outside call.userQuestion tool.toolName tool.args toolResult)
        AIHelper.ask (strategy.buildRequest (helper.messages ++ [(prompt, 0)])) env.secondReply :
          Section Bytes) helper
      (.asked (strategy.buildRequest (helper.messages ++ [(config.buildPrompt call.userQuestion, 0)])) ::
        run.1, run.2) := by
  have called' : ((helperConfig codec outside config).parseAIResponse aiResult).isToolCall = true := called
  rw [helper_answer_mcp mcp call env helper loaded rfl, replied, bind_eq (helper_ask _ _ helper)]
  dsimp only
  rw [if_pos called']
  rfl

/-- An answer over the requests is one that `Helper` allows: for some replies, configuration and
tools it shows the same, keeps the history and ends the same way. -/
theorem answer_refines (codec : JsonCodec) (outside : Outside) (strategy : Strategy)
    (remote : strategy.isLocal = false) (call : Call) (env : Environment) (helper : AIHelper) (n : Nat)
    {r : Except Bytes Bytes}
    (ran : (answer codec outside strategy helper.messages call.userQuestion n).2.2 = r.mapError .threw) :
    ∃ reply secondReply config invoke,
      AIHelper.answer call
          { env with reply := reply, secondReply := secondReply, config := config, invoke := invoke }
          strategy helper =
        (shownOf (answer codec outside strategy helper.messages call.userQuestion n).1, helper,
          r.mapError .threw) := by
  by_cases mcp : strategy.isMCPModel = true
  · have course := answers codec outside strategy mcp helper.messages call.userQuestion n
    generalize answer codec outside strategy helper.messages call.userQuestion n = run at ran course ⊢
    cases course with
    | unloaded _ =>
        obtain ⟨what, rfl, rfl⟩ := mapError_threw ran
        refine ⟨.ok [], .ok [], .error what, fun _ _ => .ok .null, ?_⟩
        rw [AIHelper.answer, current_bind_eq, remote, mcp]
        rfl
    | unavailable _ =>
        obtain ⟨what, same, rfl⟩ := mapError_threw ran
        cases same
        refine ⟨.ok [], .ok [], .ok none, fun _ _ => .ok .null, ?_⟩
        rw [AIHelper.answer, current_bind_eq, remote, mcp]
        rfl
    | @direct config out n' r' loaded asked plain =>
        dsimp only at ran ⊢
        refine ⟨r, .ok [], .ok (some (helperConfig codec outside config)), fun _ _ => .ok .null, ?_⟩
        rw [helper_answer_mcp mcp call _ helper rfl rfl, shownOf_ask asked]
        cases r with
        | error what => exact bind_error (helper_ask _ _ helper)
        | ok aiResult =>
            rw [bind_eq (helper_ask _ _ helper)]
            have plain : ¬ ((helperConfig codec outside config).parseAIResponse aiResult).isToolCall = true :=
              Bool.eq_false_iff.mp (plain aiResult ran)
            dsimp only
            rw [if_neg plain]
            rfl
    | @toolFails config out out' n' n'' aiResult e loaded asked called invoked =>
        dsimp only at ran ⊢
        obtain ⟨what, rfl, rfl⟩ := mapError_threw ran
        refine ⟨.ok aiResult, .ok [], .ok (some (helperConfig codec outside config)),
          fun _ _ => .error what, ?_⟩
        rw [helper_answer_tool mcp call _ helper rfl rfl called, shownOf_append, shownOf_ask asked,
          shownOf_invoke invoked]
        rfl
    | @unwritable config out out' n' n'' aiResult what toolResult loaded asked called invoked written =>
        dsimp only at ran ⊢
        obtain ⟨what', same, rfl⟩ := mapError_threw ran
        cases same
        refine ⟨.ok aiResult, .ok [], .ok (some (helperConfig codec outside config)),
          fun _ _ => .ok toolResult, ?_⟩
        rw [helper_answer_tool mcp call _ helper rfl rfl called, shownOf_append, shownOf_ask asked,
          shownOf_invoke invoked]
        dsimp only
        rw [orThrow_ok_bind, written]
        rfl
    | @second config out out' out'' n' n'' n''' aiResult prompt toolResult r' loaded asked called
        invoked written asked' =>
        dsimp only at ran ⊢
        refine ⟨.ok aiResult, r, .ok (some (helperConfig codec outside config)),
          fun _ _ => .ok toolResult, ?_⟩
        rw [helper_answer_tool mcp call _ helper rfl rfl called, shownOf_append, shownOf_append,
          shownOf_ask asked, shownOf_invoke invoked, shownOf_ask asked']
        dsimp only
        rw [orThrow_ok_bind, written]
        rfl
  · refine ⟨r, .ok [], .ok none, fun _ _ => .ok .null, ?_⟩
    rw [AIHelper.answer, current_bind_eq, remote]
    dsimp only
    rw [if_neg Bool.false_ne_true, if_neg mcp, helper_ask]
    rw [answer, if_neg mcp]
    exact congrArg (·, helper, r.mapError Fault.threw) (shownOf_ask rfl).symm

/-- The clock's answer, with its tool and its two transfers. -/
theorem answer_refines_clock :
    ∃ reply secondReply config invoke,
      AIHelper.answer ⟨7, bytes "ann", bytes "s1", bytes "time?", bytes "4"⟩
          ⟨clockHost.getenv, false, [], none, reply, secondReply, config, invoke, 0, .ok [], [], true⟩
          .aliyunMcp {} =
        (shownOf (answer textCodec clockHost .aliyunMcp [] (bytes "time?") 0).1, {}, .ok (bytes "Noon.")) :=
  answer_refines textCodec clockHost .aliyunMcp rfl ⟨7, bytes "ann", bytes "s1", bytes "time?", bytes "4"⟩
    ⟨clockHost.getenv, false, [], none, .ok [], .ok [], .ok none, fun _ _ => .ok .null, 0, .ok [], [], true⟩
    {} 0 (r := .ok (bytes "Noon.")) (ok_of_toOption (by decide +kernel))

end requests

end AIService.Chat.Pipeline
