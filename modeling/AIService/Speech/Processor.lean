import AIService.Action
import AIService.Chat.Ownership
import AIService.Data.Handles
import AIService.Data.JsonWithin

/-!
# `AISpeechProcessor`

The speech service is asked over curl: for a token, for a task, and then about the task until it is
done.  Each request has a handle and a list of headers of its own, released by hand.
-/

namespace AIService.Speech

open AIService.Action

/-- What curl holds for request `n`. -/
inductive Resource
  | easy (n : Nat)
  | headers (n : Nat)
deriving DecidableEq

inductive SpeechObs
  | init (n : Nat)
  | listed (n : Nat) (header : Bytes)
  | extended (n : Nat) (header : Bytes)
  | performed (n : Nat) (headed : Bool) (url data : Bytes)
  | cleaned (n : Nat)
  | freed (n : Nat)
  | slept
deriving DecidableEq

def SpeechObs.uses : SpeechObs → List (Use Resource)
  | .init n => [.opened (.easy n)]
  | .listed n _ => [.opened (.headers n)]
  | .extended n _ => [.used (.headers n)]
  | .performed n headed _ _ => .used (.easy n) :: if headed then [.used (.headers n)] else []
  | .cleaned n => [.closed (.easy n)]
  | .freed n => [.closed (.headers n)]
  | .slept => []

/-- What curl answers: whether there is a handle, whether the first and the second
`curl_slist_append` of a request give a list, and what `onWriteData` has when a transfer ends with
`CURLE_OK`. -/
structure Curl where
  init : Nat → Bool
  append : Nat → Nat → Bool
  perform : Nat → Bytes → Bytes → Option Bytes

/-- The state counts the requests; the exception is that of `dump()`. -/
abbrev Requests := Action Nat SpeechObs Unit

section requests

variable (curl : Curl)

def accept : Bytes := bytes "Accept: application/json"

/-- The two headers, and whether `headers` is a list in the end.  A second call that fails makes it
`NULL`, and the list that the first call gave is lost. -/
def appendHeaders (n : Nat) (contentType : Bytes) : Requests Bool := do
  if curl.append n 0 then
    emit (.listed n contentType)
    if curl.append n 1 then emit (.extended n accept)
  else if curl.append n 1 then emit (.listed n accept)
  pure (curl.append n 1)

/-- One request; `data` is `none` where `dump()` throws. -/
def request (url contentType : Bytes) (data : Option Bytes) : Requests (Option Bytes) := do
  let n ← current
  update (· + 1)
  if curl.init n then
    emit (.init n)
    let headed ← appendHeaders curl n contentType
    match data with
    | none => fail ()
    | some data =>
        emit (.performed n headed url data)
        emit (.cleaned n)
        if headed then emit (.freed n)
        pure (curl.perform n url data)
  else pure none

def formType : Bytes := bytes "Content-Type: application/x-www-form-urlencoded"

def jsonType : Bytes := bytes "Content-Type: application/json"

variable (codec : JsonCodec)

/-- The token of a response, or nothing. -/
def readAccessToken (response : Option Bytes) : Bytes :=
  match response.bind codec.parse with
  | some j =>
      match j.field? (bytes "access_token") with
      | some (.str token) => token
      | _ => []
  | none => []

def tokenUrl : Bytes := bytes "https://aip.baidubce.com/oauth/2.0/token"

def tokenData (clientId clientSecret : Bytes) : Bytes :=
  bytes "grant_type=client_credentials&client_id=" ++ clientId ++ bytes "&client_secret=" ++ clientSecret

def getAccessToken (clientId clientSecret : Bytes) : Requests Bytes := do
  let response ← request curl tokenUrl formType (some (tokenData clientId clientSecret))
  pure (readAccessToken codec response)

/-- The first entry of `tasks_info`. -/
def firstTask (j : Json) : Option Json :=
  match j.field? (bytes "tasks_info") with
  | some (.arr (task :: _)) => some task
  | _ => none

/-- `task_id`, at the root or in the first task; nothing where `synthesize` gives up. -/
def readTaskId (response : Option Bytes) : Bytes :=
  match response.bind codec.parse with
  | none => []
  | some j =>
      match j.field? (bytes "task_id") with
      | some (.str taskId) => taskId
      | _ =>
          match (firstTask j).bind (Json.field? (bytes "task_id")) with
          | some (.str taskId) => taskId
          | _ => []

/-- What a turn of the loop makes of its response. -/
inductive Poll
  | pending
  | done (url : Bytes)
  | broken
deriving DecidableEq

def readPoll (response : Option Bytes) : Poll :=
  match response.bind codec.parse with
  | none => .broken
  | some j =>
      match firstTask j with
      | none => .pending
      | some task =>
          match task.field? (bytes "task_status") with
          | some (.str status) =>
              if status = bytes "Success" then
                match (task.field? (bytes "task_result")).bind (Json.field? (bytes "speech_url")) with
                | none => .pending
                | some (.str url) => .done url
                | some _ => .broken
              else .pending
          | _ => .pending

variable (token : Bytes)

def createUrl : Bytes := bytes "https://aip.baidubce.com/rpc/2.0/tts/v1/create?access_token=" ++ token

def queryUrl : Bytes := bytes "https://aip.baidubce.com/rpc/2.0/tts/v1/query?access_token=" ++ token

def query (taskId : Bytes) : Json := .object [(bytes "task_ids", .arr [.str taskId])]

/-- The loop; a `break` before a `speech_url` leaves it empty. -/
def pollLoop (data : Option Bytes) : Nat → Requests Bytes
  | 0 => pure []
  | loops + 1 => do
      emit .slept
      let response ← request curl (queryUrl token) jsonType data
      match readPoll codec response with
      | .pending => pollLoop data loops
      | .done url => pure url
      | .broken => pure []

/-- `max_loops`. -/
def maxLoops : Nat := 60

def synthesisBody (text format lang : Bytes) (speed pitch volume : Int) : Json :=
  .object [(bytes "text", .str text), (bytes "format", .str format), (bytes "lang", .str lang),
    (bytes "speed", .int speed), (bytes "pitch", .int pitch), (bytes "volume", .int volume),
    (bytes "enable_subtitle", .int 0)]

def synthesize (text format lang : Bytes) (speed pitch volume : Int) : Requests Bytes := do
  let response ← request curl (createUrl token) jsonType
    (codec.dump (synthesisBody text format lang speed pitch volume))
  let taskId := readTaskId codec response
  if taskId.isEmpty then pure []
  else pollLoop curl codec token (codec.dump (query taskId)) maxLoops

end requests

/-! ## The handler -/

section handler

open Chat (LoginSession Reply Texts authorize textOr parseBody success)

variable (codec : JsonCodec) (texts : Texts) (getenv : Bytes → Option Bytes)

/-- The body of the request. -/
def speechText (body : Bytes) : Except Reply Bytes :=
  if body.isEmpty then .ok []
  else do
    let j ← parseBody codec texts body
    textOr texts [] j (bytes "text")

/-- The text to speak, and the id and the secret of the client. -/
def speechRequest (login : LoginSession) (body : Bytes) : Except Reply (Bytes × Bytes × Bytes) := do
  let _ ← authorize texts login
  let text ← speechText codec texts body
  match getenv (bytes "BAIDU_CLIENT_SECRET"), getenv (bytes "BAIDU_CLIENT_ID") with
  | none, _ => .error (Chat.failure (bytes "BAIDU_CLIENT_SECRET not found!"))
  | some _, none => .error (Chat.failure (bytes "BAIDU_CLIENT_ID not found!"))
  | some secret, some id => return (text, id, secret)

variable (curl : Curl)

/-- `AISpeechProcessor(clientId, clientSecret).synthesize(text, "mp3-16k", "zh", 5, 5, 5)`. -/
def speak (text clientId clientSecret : Bytes) : Requests Bytes := do
  let token ← getAccessToken curl codec clientId clientSecret
  synthesize curl codec token text (bytes "mp3-16k") (bytes "zh") 5 5 5

def speechReply : Except Unit Bytes → Reply
  | .ok url => success [(bytes "url", .str url)]
  | .error () => Chat.failure texts.json

/-- `ChatSpeechHandler::handle`; its first request is number `n`. -/
def handle (login : LoginSession) (body : Bytes) (n : Nat) : List SpeechObs × Nat × Reply :=
  match speechRequest codec texts getenv login body with
  | .error reply => ([], n, reply)
  | .ok (text, clientId, clientSecret) =>
      let (out, n', result) := speak codec curl text clientId clientSecret n
      (out, n', speechReply texts result)

end handler

/-! ## One request -/

section runs

variable (curl : Curl) (codec : JsonCodec)

/-- The headers of request `n`. -/
def headerObs (n : Nat) (contentType : Bytes) : List SpeechObs :=
  if curl.append n 0 then
    .listed n contentType :: if curl.append n 1 then [.extended n accept] else []
  else if curl.append n 1 then [.listed n accept] else []

/-- What request `n` shows. -/
def visit (n : Nat) (url contentType data : Bytes) : List SpeechObs :=
  if curl.init n then
    .init n :: (headerObs curl n contentType ++ .performed n (curl.append n 1) url data ::
      .cleaned n :: if curl.append n 1 then [.freed n] else [])
  else []

/-- Its response. -/
def answer (n : Nat) (url data : Bytes) : Option Bytes :=
  if curl.init n then curl.perform n url data else none

theorem request_eq (n : Nat) (url contentType data : Bytes) :
    request curl url contentType (some data) n =
      (visit curl n url contentType data, n + 1, .ok (answer curl n url data)) := by
  unfold visit answer
  change (if curl.init n then _ else _ : Requests (Option Bytes)) (n + 1) = _
  split
  · unfold headerObs appendHeaders
    cases first : curl.append n 0 <;> cases second : curl.append n 1 <;> rfl
  · rfl

/-! ## The lists that are lost -/

/-- The second header of request `n` loses the list of the first. -/
def Curl.loses (n : Nat) : Bool := curl.init n && curl.append n 0 && !curl.append n 1

/-- The lists that `m` requests from number `n` on lose, the last one first. -/
def Curl.lost (n m : Nat) : List Resource :=
  (((List.range' n m).filter curl.loses).map Resource.headers).reverse

theorem Curl.lost_add (n m k : Nat) : curl.lost n (m + k) = curl.lost (n + m) k ++ curl.lost n m := by
  rw [lost, lost, lost, ← List.range'_append_1, List.filter_append, List.map_append, List.reverse_append]

theorem Curl.mem_lost {n m : Nat} {r : Resource} (member : r ∈ curl.lost n m) :
    ∃ k < n + m, r = .headers k := by
  obtain ⟨k, held, rfl⟩ := List.mem_map.mp (List.mem_reverse.mp member)
  exact ⟨k, (List.mem_range'_1.mp (List.mem_filter.mp held).1).2, rfl⟩

def Resource.request : Resource → Nat
  | .easy n => n
  | .headers n => n

/-- The code makes `m` requests from number `n` on, and leaves open only the lists that these lose. -/
def Settles (n m : Nat) (out : List SpeechObs) : Prop :=
  ∀ open_, (∀ r ∈ open_, r.request < n) →
    stillOpen open_ (out.flatMap SpeechObs.uses) = some (curl.lost n m ++ open_)

theorem settles_nil (n : Nat) : Settles curl n 0 [] := fun _ _ => rfl

theorem settles_slept (n : Nat) : Settles curl n 0 [.slept] := fun _ _ => rfl

variable {curl}

theorem Settles.append {n m k : Nat} {out out' : List SpeechObs} (first : Settles curl n m out)
    (second : Settles curl (n + m) k out') : Settles curl n (m + k) (out ++ out') := by
  intro open_ below
  rw [List.flatMap_append, stillOpen_append, first open_ below, Option.bind_some, Curl.lost_add,
    List.append_assoc]
  apply second
  intro r member
  rcases List.mem_append.mp member with lost | before
  · obtain ⟨k, less, rfl⟩ := curl.mem_lost lost
    exact less
  · exact Nat.lt_of_lt_of_le (below r before) (Nat.le_add_right n m)

variable (curl)

theorem settles_visit (n : Nat) (url contentType data : Bytes) :
    Settles curl n 1 (visit curl n url contentType data) := by
  intro open_ below
  have easy : Resource.easy n ∉ open_ := fun member => Nat.lt_irrefl n (below _ member)
  have headers : Resource.headers n ∉ open_ := fun member => Nat.lt_irrefl n (below _ member)
  unfold visit headerObs Curl.lost
  rw [List.range'_one, List.filter_singleton, Curl.loses]
  cases curl.init n <;> cases curl.append n 0 <;> cases curl.append n 1 <;>
    simp [SpeechObs.uses, stillOpen, Use.apply, easy, headers]

/-! ## The loop -/

/-- A turn of the loop. -/
def turn (url data : Bytes) (n : Nat) : List SpeechObs := .slept :: visit curl n url jsonType data

def Poll.url : Poll → Bytes
  | .done url => url
  | _ => []

variable (token : Bytes)

/-- What the response of request `n` decides. -/
def verdict (data : Bytes) (n : Nat) : Poll := readPoll codec (answer curl n (queryUrl token) data)

theorem pollLoop_succ (data : Bytes) (loops n : Nat) :
    pollLoop curl codec token (some data) (loops + 1) n =
      if verdict curl codec token data n = .pending then
        (turn curl (queryUrl token) data n ++ (pollLoop curl codec token (some data) loops (n + 1)).1,
          (pollLoop curl codec token (some data) loops (n + 1)).2)
      else (turn curl (queryUrl token) data n, n + 1, .ok (verdict curl codec token data n).url) := by
  rw [pollLoop, emit_bind_eq, bind_eq (request_eq curl n (queryUrl token) jsonType data)]
  change _ = if readPoll codec (answer curl n (queryUrl token) data) = .pending then _ else _
  unfold verdict
  cases readPoll codec (answer curl n (queryUrl token) data) with
  | pending => rfl
  | done url =>
      change (_ :: (_ ++ []), _) = _
      rw [List.append_nil]
      rfl
  | broken =>
      change (_ :: (_ ++ []), _) = _
      rw [List.append_nil]
      rfl

/-- How the loop runs: `pending` responses decide nothing, then one does or the turns are over. -/
inductive Polls (data : Bytes) (loops n : Nat) : List SpeechObs × Nat × Except Unit Bytes → Prop
  | exhausted : (∀ k < loops, verdict curl codec token data (n + k) = .pending) →
    Polls data loops n
      ((List.range' n loops).flatMap (turn curl (queryUrl token) data), n + loops, .ok [])
  | decided {pending : Nat} : pending < loops →
    (∀ k < pending, verdict curl codec token data (n + k) = .pending) →
    verdict curl codec token data (n + pending) ≠ .pending →
    Polls data loops n
      ((List.range' n (pending + 1)).flatMap (turn curl (queryUrl token) data), n + (pending + 1),
        .ok (verdict curl codec token data (n + pending)).url)

theorem polls_pollLoop (data : Bytes) (loops n : Nat) :
    Polls curl codec token data loops n (pollLoop curl codec token (some data) loops n) := by
  induction loops generalizing n with
  | zero => exact .exhausted fun k below => absurd below (Nat.not_lt_zero k)
  | succ loops ih =>
      rw [pollLoop_succ]
      split
      · next first =>
          have later := ih (n + 1)
          generalize pollLoop curl codec token (some data) loops (n + 1) = run at later ⊢
          have from_first : ∀ {m : Nat},
              (∀ k < m, verdict curl codec token data (n + 1 + k) = .pending) →
              ∀ k < m + 1, verdict curl codec token data (n + k) = .pending := by
            intro m others k below
            cases k with
            | zero => exact first
            | succ k =>
                rw [Nat.add_comm k 1, ← Nat.add_assoc]
                exact others k (Nat.lt_of_succ_lt_succ below)
          cases later with
          | exhausted others =>
              rw [Nat.add_assoc, Nat.add_comm 1 loops, ← List.flatMap_cons, ← List.range'_succ]
              exact .exhausted (from_first others)
          | @decided pending below others decides =>
              rw [← List.flatMap_cons, ← List.range'_succ, Nat.add_assoc n 1 (pending + 1),
                Nat.add_comm 1 (pending + 1)]
              rw [Nat.add_assoc n 1 pending, Nat.add_comm 1 pending] at decides ⊢
              exact .decided (Nat.succ_lt_succ below) (from_first others) decides
      · next first =>
          have here : (List.range' n (0 + 1)).flatMap (turn curl (queryUrl token) data) =
              turn curl (queryUrl token) data n := List.append_nil _
          rw [← here]
          exact .decided (Nat.succ_pos loops) (fun k below => absurd below (Nat.not_lt_zero k)) first

/-! ## Synthesis -/

def SpeechObs.isPerformed : SpeechObs → Bool
  | .performed .. => true
  | _ => false

/-- A run from request `n` on, of at most `budget` transfers and `turns` pauses. -/
structure Frugal (n budget turns : Nat) (run : List SpeechObs × Nat × Except Unit Bytes) : Prop where
  transfers : run.1.countP SpeechObs.isPerformed ≤ budget
  pauses : run.1.countP (· = .slept) ≤ turns
  settles : ∃ m, run.2.1 = n + m ∧ Settles curl n m run.1

theorem transfers_visit (n : Nat) (url contentType data : Bytes) :
    (visit curl n url contentType data).countP SpeechObs.isPerformed ≤ 1 := by
  have count : (visit curl n url contentType data).countP SpeechObs.isPerformed = (curl.init n).toNat := by
    unfold visit headerObs
    cases curl.init n <;> cases curl.append n 0 <;> cases curl.append n 1 <;> rfl
  rw [count]
  exact Bool.toNat_le _

theorem pauses_visit (n : Nat) (url contentType data : Bytes) :
    (visit curl n url contentType data).countP (· = .slept) = 0 := by
  unfold visit headerObs
  cases curl.init n <;> cases curl.append n 0 <;> cases curl.append n 1 <;> rfl

theorem frugal_none (n : Nat) (url : Bytes) : Frugal curl n 0 0 ([], n, .ok url) :=
  ⟨Nat.le_refl 0, Nat.le_refl 0, 0, rfl, settles_nil curl n⟩

variable {curl}

/-- A request may come before. -/
theorem Frugal.after {n budget turns : Nat} {run : List SpeechObs × Nat × Except Unit Bytes}
    (frugal : Frugal curl (n + 1) budget turns run) (url contentType data : Bytes) :
    Frugal curl n (1 + budget) turns (visit curl n url contentType data ++ run.1, run.2) where
  transfers := by
    rw [List.countP_append]
    exact Nat.add_le_add (transfers_visit curl n url contentType data) frugal.transfers
  pauses := by
    rw [List.countP_append, pauses_visit, Nat.zero_add]
    exact frugal.pauses
  settles := by
    obtain ⟨m, next, settles⟩ := frugal.settles
    exact ⟨1 + m, next.trans (Nat.add_assoc n 1 m),
      (settles_visit curl n url contentType data).append settles⟩

theorem Frugal.mono {n budget turns budget' turns' : Nat}
    {run : List SpeechObs × Nat × Except Unit Bytes} (frugal : Frugal curl n budget turns run)
    (transfers : budget ≤ budget') (pauses : turns ≤ turns') : Frugal curl n budget' turns' run :=
  ⟨Nat.le_trans frugal.transfers transfers, Nat.le_trans frugal.pauses pauses, frugal.settles⟩

variable (curl)

theorem turns_le (url data : Bytes) (n m : Nat) :
    ((List.range' n m).flatMap (turn curl url data)).countP SpeechObs.isPerformed ≤ m ∧
      ((List.range' n m).flatMap (turn curl url data)).countP (· = .slept) = m := by
  induction m generalizing n with
  | zero => exact ⟨Nat.le_refl 0, rfl⟩
  | succ m ih =>
      obtain ⟨transfers, pauses⟩ := ih (n + 1)
      have one := transfers_visit curl n url jsonType data
      have none_ := pauses_visit curl n url jsonType data
      rw [List.range'_succ, List.flatMap_cons, List.countP_append, List.countP_append, pauses, turn,
        List.countP_cons_of_neg (by simp [SpeechObs.isPerformed]), List.countP_cons_of_pos (by simp), none_]
      omega

theorem settles_turns (url data : Bytes) (n m : Nat) :
    Settles curl n m ((List.range' n m).flatMap (turn curl url data)) := by
  induction m generalizing n with
  | zero => exact settles_nil curl n
  | succ m ih =>
      rw [List.range'_succ, List.flatMap_cons, Nat.add_comm m 1]
      have one := (settles_slept curl n).append (settles_visit curl n url jsonType data)
      exact one.append (ih (n + 1))

theorem frugal_pollLoop (data : Bytes) (loops n : Nat) :
    Frugal curl n loops loops (pollLoop curl codec token (some data) loops n) := by
  have polls := polls_pollLoop curl codec token data loops n
  generalize pollLoop curl codec token (some data) loops n = run at polls ⊢
  cases polls with
  | exhausted others =>
      obtain ⟨transfers, pauses⟩ := turns_le curl (queryUrl token) data n loops
      exact ⟨transfers, pauses.le, loops, rfl, settles_turns curl _ data n loops⟩
  | @decided pending below others decides =>
      obtain ⟨transfers, pauses⟩ := turns_le curl (queryUrl token) data n (pending + 1)
      exact ⟨Nat.le_trans transfers below, Nat.le_trans pauses.le below, pending + 1, rfl,
        settles_turns curl _ data n (pending + 1)⟩

variable {codec}

/-- `synthesize`, request by request. -/
theorem synthesize_eq (text format lang : Bytes) (speed pitch volume : Int) {n : Nat} {body : Bytes}
    (written : codec.dump (synthesisBody text format lang speed pitch volume) = some body) :
    synthesize curl codec token text format lang speed pitch volume n =
      let taskId := readTaskId codec (answer curl n (createUrl token) body)
      let later := if taskId.isEmpty then ([], n + 1, .ok [])
        else pollLoop curl codec token (codec.dump (query taskId)) maxLoops (n + 1)
      (visit curl n (createUrl token) jsonType body ++ later.1, later.2) := by
  rw [synthesize, written, bind_eq (request_eq curl n (createUrl token) jsonType body)]
  dsimp only
  split <;> rfl

/-- A task id was read, so it is UTF-8. -/
theorem valid_of_readTaskId (deep : codec.ReadsDeep) (response : Option Bytes) :
    ValidUtf8 (readTaskId codec response) := by
  unfold readTaskId
  split
  · exact ⟨[], rfl⟩
  · next j parsed =>
      obtain ⟨text, -, parsed⟩ := Option.bind_eq_some_iff.mp parsed
      split
      · next taskId found => exact JsonCodec.ReadsDeep.valid deep parsed (.field found)
      · split
        · next taskId found =>
            obtain ⟨task, first, found⟩ := Option.bind_eq_some_iff.mp found
            unfold firstTask at first
            split at first
            · next held =>
                cases first
                exact JsonCodec.ReadsDeep.valid deep parsed
                  ((Json.Within.field found).trans (Json.Within.first.trans (.field held)))
            · cases first
        · exact ⟨[], rfl⟩

/-- The question about a task can be written. -/
theorem exists_query (faithful : codec.Faithful) (deep : codec.ReadsDeep) (response : Option Bytes) :
    ∃ data, codec.dump (query (readTaskId codec response)) = some data := by
  apply faithful.dump_writable
  apply Json.writable_object
  · intro f member
    cases List.mem_singleton.mp member
    exact validUtf8_of_ascii (show ∀ b ∈ bytes "task_ids", b < 128 by decide +kernel)
  · intro f member
    cases List.mem_singleton.mp member
    refine .arr fun j item => ?_
    cases List.mem_singleton.mp item
    exact .str (valid_of_readTaskId deep response)

theorem frugal_synthesize (faithful : codec.Faithful) (deep : codec.ReadsDeep)
    (text format lang : Bytes) (speed pitch volume : Int) {n : Nat} {body : Bytes}
    (written : codec.dump (synthesisBody text format lang speed pitch volume) = some body) :
    Frugal curl n 61 60 (synthesize curl codec token text format lang speed pitch volume n) := by
  rw [synthesize_eq curl token text format lang speed pitch volume written]
  dsimp only
  split
  · have first := (frugal_none curl (n + 1) []).after (createUrl token) jsonType body
    exact first.mono (by decide) (by decide)
  · obtain ⟨data, asked⟩ := exists_query faithful deep (answer curl n (createUrl token) body)
    rw [asked]
    exact (frugal_pollLoop curl codec token data maxLoops (n + 1)).after (createUrl token) jsonType body

/-- A url comes from the first response that decides, of the task that was made. -/
theorem url_of_synthesize (faithful : codec.Faithful) (deep : codec.ReadsDeep)
    {text format lang url body : Bytes} {speed pitch volume : Int} {n : Nat}
    (written : codec.dump (synthesisBody text format lang speed pitch volume) = some body)
    (ran : (synthesize curl codec token text format lang speed pitch volume n).2.2 = .ok url)
    (some_ : url ≠ []) :
    ∃ data, codec.dump (query (readTaskId codec (answer curl n (createUrl token) body))) = some data ∧
      ∃ k < 60, (∀ j < k, verdict curl codec token data (n + 1 + j) = .pending) ∧
        verdict curl codec token data (n + 1 + k) = .done url := by
  rw [synthesize_eq curl token text format lang speed pitch volume written] at ran
  dsimp only at ran
  split at ran
  · cases ran
    exact absurd rfl some_
  · obtain ⟨data, asked⟩ := exists_query faithful deep (answer curl n (createUrl token) body)
    refine ⟨data, asked, ?_⟩
    rw [asked] at ran
    have polls := polls_pollLoop curl codec token data maxLoops (n + 1)
    generalize pollLoop curl codec token (some data) maxLoops (n + 1) = run at polls ran
    cases polls with
    | exhausted others =>
        cases ran
        exact absurd rfl some_
    | @decided pending below others decides =>
        refine ⟨pending, below, others, ?_⟩
        have same := Except.ok.inj ran
        cases decided : verdict curl codec token data (n + 1 + pending) with
        | pending => exact absurd decided decides
        | done url' =>
            rw [decided] at same
            exact congrArg Poll.done same
        | broken =>
            rw [decided] at same
            exact absurd same.symm some_

end runs

/-! ## The handler's runs -/

section handled

open Chat (LoginSession Texts textOr parseBody)

variable {codec : JsonCodec} {texts : Texts} {getenv : Bytes → Option Bytes} {login : LoginSession}
  {body : Bytes}

/-- A string of the body is UTF-8. -/
theorem valid_of_textOr (faithful : codec.Faithful) {j : Json} {key text : Bytes}
    (parsed : codec.parse body = some j) (ran : textOr texts [] j key = .ok text) : ValidUtf8 text := by
  unfold textOr at ran
  split at ran
  · cases ran
    exact ⟨[], rfl⟩
  · next found =>
      cases ran
      exact faithful.parse_readable parsed found
  · cases ran

theorem valid_of_speechText (faithful : codec.Faithful) {text : Bytes}
    (ran : speechText codec texts body = .ok text) : ValidUtf8 text := by
  unfold speechText at ran
  split at ran
  · cases ran
    exact ⟨[], rfl⟩
  · obtain ⟨j, parsed, read⟩ := bind_eq_ok ran
    unfold parseBody at parsed
    split at parsed
    · next j' there =>
        cases parsed
        exact valid_of_textOr faithful there read
    · cases parsed

theorem speechRequest_ok (faithful : codec.Faithful) {text clientId clientSecret : Bytes}
    (ran : speechRequest codec texts getenv login body = .ok (text, clientId, clientSecret)) :
    login.user?.isSome ∧ getenv (bytes "BAIDU_CLIENT_ID") = some clientId ∧
      getenv (bytes "BAIDU_CLIENT_SECRET") = some clientSecret ∧
      speechText codec texts body = .ok text ∧ ValidUtf8 text := by
  obtain ⟨userId, authorized, ran⟩ := bind_eq_ok ran
  obtain ⟨text', read, ran⟩ := bind_eq_ok ran
  have valid := valid_of_speechText faithful read
  split at ran
  · cases ran
  · cases ran
  · next secret id hasSecret hasId =>
      cases ran
      rw [Chat.authorize_user authorized]
      exact ⟨rfl, hasId, hasSecret, read, valid⟩

/-- The body of the handler's task can be written. -/
theorem exists_synthesisBody (faithful : codec.Faithful) {text : Bytes} (valid : ValidUtf8 text) :
    ∃ body, codec.dump (synthesisBody text (bytes "mp3-16k") (bytes "zh") 5 5 5) = some body := by
  apply faithful.dump_writable
  apply Json.writable_object
  · have ascii : ∀ key ∈ [bytes "text", bytes "format", bytes "lang", bytes "speed", bytes "pitch",
        bytes "volume", bytes "enable_subtitle"], ∀ b ∈ key, b < 128 := by decide +kernel
    intro f member
    exact validUtf8_of_ascii (ascii f.1 (List.mem_map_of_mem member))
  · have format : ValidUtf8 (bytes "mp3-16k") :=
      validUtf8_of_ascii (show ∀ b ∈ bytes "mp3-16k", b < 128 by decide +kernel)
    have lang : ValidUtf8 (bytes "zh") :=
      validUtf8_of_ascii (show ∀ b ∈ bytes "zh", b < 128 by decide +kernel)
    have number : InJsonRange 5 ∧ InJsonRange 0 := by decide
    simp only [List.forall_mem_cons]
    exact ⟨.str valid, .str format, .str lang, .int number.1, .int number.1, .int number.1,
      .int number.2, List.forall_mem_nil _⟩

/-- The token that the first request brings. -/
def tokenOf (codec : JsonCodec) (curl : Curl) (clientId clientSecret : Bytes) (n : Nat) : Bytes :=
  readAccessToken codec (answer curl n tokenUrl (tokenData clientId clientSecret))

theorem speak_eq (curl : Curl) (text clientId clientSecret : Bytes) (n : Nat) :
    speak codec curl text clientId clientSecret n =
      let later := synthesize curl codec (tokenOf codec curl clientId clientSecret n) text
        (bytes "mp3-16k") (bytes "zh") 5 5 5 (n + 1)
      (visit curl n tokenUrl formType (tokenData clientId clientSecret) ++ later.1, later.2) := by
  have first : getAccessToken curl codec clientId clientSecret n =
      (visit curl n tokenUrl formType (tokenData clientId clientSecret), n + 1,
        .ok (tokenOf codec curl clientId clientSecret n)) := by
    rw [getAccessToken, bind_eq (request_eq curl n tokenUrl formType (tokenData clientId clientSecret))]
    exact congrArg (·, _) (List.append_nil _)
  rw [speak, bind_eq first]

theorem success_url (url : Bytes) : Chat.success [(bytes "url", .str url)] =
    ⟨200, false, .obj [(bytes "success", .bool true), (bytes "url", .str url)]⟩ := rfl

/-- A reply with a url has the one that was synthesized. -/
theorem url_of_speechReply {r : Except Unit Bytes} {url : Bytes}
    (replied : speechReply texts r = Chat.success [(bytes "url", .str url)]) : r = .ok url := by
  cases r with
  | ok url' =>
      have same := congrArg Chat.Reply.body replied
      rw [speechReply, success_url, success_url] at same
      injection same with fields
      injection fields with _ fields
      injection fields with field _
      injection field with _ value
      injection value with same
      rw [same]
  | error e => exact absurd (congrArg Chat.Reply.status replied) (by decide : 400 ≠ 200)

/-- The run of a handler's call. -/
structure Handled (codec : JsonCodec) (curl : Curl) (text clientId clientSecret : Bytes) (n : Nat)
    (run : List SpeechObs × Nat × Chat.Reply) : Prop where
  transfers : run.1.countP SpeechObs.isPerformed ≤ 62
  pauses : run.1.countP (· = .slept) ≤ 60
  /-- All is released, but the lists that a failing second header loses. -/
  holds : n ≤ run.2.1 ∧
    stillOpen [] (run.1.flatMap SpeechObs.uses) = some (curl.lost n (run.2.1 - n))
  /-- A url is what the first response that decided said, of the task made for the text. -/
  url : ∀ url, run.2.2 = Chat.success [(bytes "url", .str url)] → url ≠ [] →
    ∃ body data,
      codec.dump (synthesisBody text (bytes "mp3-16k") (bytes "zh") 5 5 5) = some body ∧
      codec.dump (query (readTaskId codec (answer curl (n + 1)
        (createUrl (tokenOf codec curl clientId clientSecret n)) body))) = some data ∧
      ∃ k < 60,
        (∀ j < k, verdict curl codec (tokenOf codec curl clientId clientSecret n) data (n + 2 + j) = .pending) ∧
        verdict curl codec (tokenOf codec curl clientId clientSecret n) data (n + 2 + k) = .done url

/-- A call of the handler asks no one unless its user is logged in and the client has an id and a
secret; then it makes at most 62 transfers and 60 pauses, releases once what it opened, unless the
second header of a request fails and loses the list of the first, and a url is what the first response
that decided said. -/
theorem speech_requests (faithful : codec.Faithful) (deep : codec.ReadsDeep) (curl : Curl)
    (login : LoginSession) (body : Bytes) (n : Nat) :
    (handle codec texts getenv curl login body n).1 = [] ∨
      login.user?.isSome ∧ ∃ text clientId clientSecret, speechText codec texts body = .ok text ∧
        getenv (bytes "BAIDU_CLIENT_ID") = some clientId ∧
        getenv (bytes "BAIDU_CLIENT_SECRET") = some clientSecret ∧
        Handled codec curl text clientId clientSecret n (handle codec texts getenv curl login body n) := by
  unfold handle
  split
  · exact .inl rfl
  · next text clientId clientSecret ran =>
      obtain ⟨user, id, secret, read, valid⟩ := speechRequest_ok faithful ran
      obtain ⟨written, there⟩ := exists_synthesisBody faithful valid
      refine .inr ⟨user, text, clientId, clientSecret, read, id, secret, ?_⟩
      have frugal := (frugal_synthesize curl (tokenOf codec curl clientId clientSecret n) faithful deep
        text (bytes "mp3-16k") (bytes "zh") 5 5 5 (n := n + 1) there).after tokenUrl formType
          (tokenData clientId clientSecret)
      rw [speak_eq]
      refine ⟨frugal.transfers, frugal.pauses, ?_, fun url replied some_ => ?_⟩
      · obtain ⟨m, next, settles⟩ := frugal.settles
        dsimp only at next settles ⊢
        rw [next, Nat.add_sub_cancel_left]
        refine ⟨Nat.le_add_right n m, (settles [] fun r member => ?_).trans (by rw [List.append_nil])⟩
        exact absurd member List.not_mem_nil
      · obtain ⟨data, asked, k, below, others, decided⟩ :=
          url_of_synthesize curl _ faithful deep there (url_of_speechReply replied) some_
        exact ⟨written, data, there, asked, k, below, others, decided⟩

/-- A service whose task is done at the second question, to a client that runs out of memory for the
second header of the first. -/
def slowService : Curl where
  init _ := true
  append n i := n ≠ 2 || i = 0
  perform n _ _ := [bytes "\x7b\"access_token\":\"t\"\x7d", bytes "\x7b\"task_id\":\"k\"\x7d",
    bytes "\x7b\"tasks_info\":[\x7b\"task_status\":\"Running\"\x7d]\x7d",
    bytes "\x7b\"tasks_info\":[\x7b\"task_status\":\"Success\",\"task_result\":\x7b\"speech_url\":\"u\"\x7d\x7d]\x7d"][n]?

/-- The speech is found, and one list is lost. -/
theorem speech_requests_slow :
    textCodec.dump (handle textCodec ⟨[], []⟩ (fun _ => some (bytes "k")) slowService
      ⟨bytes "true", bytes "7", bytes "ann"⟩ (bytes "\x7b\"text\":\"hi\"\x7d") 0).2.2.body =
        some (bytes "\x7b\"success\":true,\"url\":\"u\"\x7d") ∧
    slowService.lost 0 4 = [.headers 2] ∧
    ((handle textCodec ⟨[], []⟩ (fun _ => some (bytes "k")) slowService
      ⟨bytes "true", bytes "7", bytes "ann"⟩ (bytes "\x7b\"text\":\"hi\"\x7d") 0).1 = [] ∨
    (LoginSession.mk (bytes "true") (bytes "7") (bytes "ann")).user?.isSome ∧
      ∃ text clientId clientSecret,
        speechText textCodec ⟨[], []⟩ (bytes "\x7b\"text\":\"hi\"\x7d") = .ok text ∧
        some (bytes "k") = some clientId ∧ some (bytes "k") = some clientSecret ∧
        Handled textCodec slowService text clientId clientSecret 0
          (handle textCodec ⟨[], []⟩ (fun _ => some (bytes "k")) slowService
            ⟨bytes "true", bytes "7", bytes "ann"⟩ (bytes "\x7b\"text\":\"hi\"\x7d") 0)) :=
  ⟨by decide +kernel, by decide +kernel,
    speech_requests textCodec_faithful textCodec_readsDeep slowService _ _ 0⟩

end handled

end AIService.Speech
