import AIService.Action
import AIService.Basic
import AIService.Data.SortedMap
import Mathlib.Data.Rat.Defs

/-!
# `GemmaInferencePool`

Every operation holds `inference_mutex_` from start to end, so a run is a sequence of
operations.  The engine is a parameter (`Gemma`): its tokenizer, its chat template and the
size of its caches.  What it streams, what the clock shows and where the engine, the
tokenizer or the callback throws is part of the operation (`Surroundings`).

The contents of a KV cache are opaque to the pool.  Here a cache remembers the calls of
`Generate` that wrote into it; no function of the pool looks at that record.
-/

namespace AIService.Inference

abbrev Token := Int

/-- A reading of `steady_clock`, and a duration, in milliseconds. -/
abbrev Instant := Int

/-- Texts with their timestamps. -/
abbrev History := List (Bytes × Int)

def History.texts (history : History) : List Bytes := history.map Prod.fst

/-- `gcpp::Gemma`, as far as the pool uses a loaded model. -/
structure Gemma where
  encode : Bytes → Option (List Token)
  decode : Token → Option Bytes
  wrapAndTokenize : Nat → Bytes → List Token
  isEOS : Token → Bool
  /-- `KVCache::SeqLen` of a new cache. -/
  seqLen : Nat

/-- One call of `Generate`, as its cache saw it. -/
structure Generation where
  sessionKey : Bytes
  /-- The texts of the history, for a call of `generateFromHistory`. -/
  history : Option (List Bytes)
  /-- The texts whose tokens were submitted. -/
  submitted : List Bytes
  startPos : Nat
  tokens : List Token
  /-- The tokens given to `stream_token`. -/
  streamed : List Token
  threw : Bool
deriving DecidableEq, Repr

/-- `gcpp::KVCache`. -/
structure KVCache where
  seqLen : Nat
  /-- The calls that wrote into it since it was created, oldest first. -/
  built : List Generation := []
deriving DecidableEq, Repr

def KVCache.record (cache : KVCache) (g : Generation) : KVCache :=
  { cache with built := cache.built ++ [g] }

/-- `GemmaInferencePool::CachePolicy`. -/
structure CachePolicy where
  maxSessions : UInt64 := 2
  sequenceTokens : UInt64 := 1024
  idleTtl : Int := 600000
deriving DecidableEq, Repr

/-- `GemmaInferencePool::SessionData`.  `access_order` is a `uint64_t`, and so is the pool's; they count
generations, and a `Nat` stands for them, which does not wrap. -/
structure SessionData where
  kvCache : KVCache
  absPos : Nat := 0
  transcript : List Bytes := []
  lastUsed : Instant := 0
  accessOrder : Nat := 0
deriving DecidableEq, Repr

structure Pool where
  gemma : Option Gemma := none
  sessions : SortedMap Bytes SessionData := .empty
  policy : CachePolicy := {}
  accessOrder : Nat := 0

/-! ## Requests and what they meet -/

/-- The arguments of `generateImpl`. -/
structure Request where
  sessionKey : Bytes
  prompt : Bytes
  history : Option History
  /-- `on_token` is not empty. -/
  listens : Bool
  /-- None when the temperature is not finite. -/
  temperature : Option Rat
  maxTokens : UInt64

/-- The places at which a call of foreign code may throw. -/
inductive Site
  /-- `Encode` of the text appended as number `turn`. -/
  | encode (turn : Nat)
  | wrap (turn : Nat)
  /-- The constructor of `KVCache`. -/
  | allocate
  /-- The engine's settings are copied before the `try` block. -/
  | copyTo
  /-- `Generate` itself, after so many calls of `stream_token`. -/
  | engine (streamed : Nat)
  /-- `Decode`, in the call of `stream_token` with this number. -/
  | decode (streamed : Nat)
  | callback (streamed : Nat)
deriving DecidableEq

/-- What a call meets: the clock, the engine's output and who throws what. -/
structure Surroundings where
  pruneClock : Instant
  endClock : Instant
  /-- What the engine streams when nothing throws. -/
  stream : List Token
  throws : Site → Option String := fun _ => none

def Surroundings.raise (around : Surroundings) (site : Site) : Except String Unit :=
  match around.throws site with
  | some what => .error what
  | none => .ok ()

/-! ## Submitting tokens -/

/-- `validateBudget`. -/
def validateBudget (start prompt generated capacity : Nat) : Except String Unit :=
  if prompt = 0 ∨ capacity < start ∨ sizeSub capacity start < prompt ∨
      sizeSub (sizeSub capacity start) prompt < generated then
    .error "Gemma context token budget exceeded; shorten history or generation"
  else .ok ()

/-- The checks `generateImpl` makes first. -/
def Request.check (r : Request) : Except String Unit :=
  if r.sessionKey = [] ∨ r.maxTokens = 0 ∨ r.temperature.all (· < 0) then
    .error "Invalid Gemma generation request"
  else if r.history.any fun history => history.isEmpty || history.length % 2 == 0 then
    .error "Gemma history must alternate user/assistant and end with user"
  else .ok ()

/-- `GemmaInferencePool::pruneExpiredLocked`. -/
def Pool.pruneExpiredLocked (pool : Pool) (now : Instant) : Pool :=
  { pool with
    sessions := pool.sessions.filter fun _ session =>
      now - session.lastUsed < pool.policy.idleTtl }

/-- The decision `reuse` for the entry that was found. -/
def SessionData.reusable (session : SessionData) (history : Option History) : Bool :=
  match history with
  | none => true
  | some history =>
      !session.transcript.isEmpty && session.transcript.length + 1 == history.length
        && session.transcript.isPrefixOf history.texts

/-- The tokens of one turn at a position. -/
def Gemma.turn (engine : Gemma) (pos : Nat) (text : Bytes) (userTurn : Bool) :
    Option (List Token) :=
  (engine.encode text).map fun part =>
    if userTurn then engine.wrapAndTokenize pos text else part

section appending

variable (engine : Gemma) (policy : CachePolicy) (around : Surroundings) (startPos : Nat)

/-- The lambda `append`; `turn` numbers its calls. -/
def append (turn : Nat) (tokens : List Token) (text : Bytes) (userTurn : Bool) :
    Except String (List Token) := do
  around.raise (.encode turn)
  match engine.turn (startPos + tokens.length) text userTurn with
  | none => .error "Gemma tokenizer could not encode input"
  | some part =>
      (if userTurn then around.raise (.wrap turn) else pure ())
      if sizeSub policy.sequenceTokens.toNat tokens.length < part.length then
        .error "Gemma context token budget exceeded; shorten history"
      else .ok (tokens ++ part)

/-- The loop over the history, from message `i`. -/
def appendHistory (i : Nat) (tokens : List Token) : List Bytes → Except String (List Token)
  | [] => .ok tokens
  | text :: rest => do
      let tokens ← append engine policy around startPos i tokens text (i % 2 == 0)
      appendHistory (i + 1) tokens rest

end appending

/-- What a request submits to `Generate`. -/
structure Plan where
  reuse : Bool
  startPos : Nat
  /-- The texts that were tokenized. -/
  submitted : List Bytes
  tokens : List Token
deriving DecidableEq, Repr

/-- `generateImpl` between the expiry and the first change of `sessions_`. -/
def Pool.plan (pool : Pool) (engine : Gemma) (r : Request) (around : Surroundings) :
    Except String Plan := do
  let found := (pool.sessions.find? r.sessionKey).filter (·.reusable r.history)
  let startPos := match found with
    | some session => session.absPos
    | none => 0
  let submitted := match r.history, found with
    | some history, none => history.texts
    | _, _ => [r.prompt]
  let tokens ← appendHistory engine pool.policy around startPos 0 [] submitted
  let capacity := match found with
    | some session => session.kvCache.seqLen
    | none => pool.policy.sequenceTokens.toNat
  validateBudget startPos tokens.length r.maxTokens.toNat capacity
  return { reuse := found.isSome, startPos := startPos, submitted := submitted, tokens := tokens }

/-! ## Generating -/

inductive Obs
  /-- `Generate` is called with `plan` on `cache`. -/
  | generate (engine : Gemma) (r : Request) (plan : Plan) (cache : KVCache)
  | onToken (text : Bytes)
  /-- The operation returned or threw. -/
  | returned
  | threw (what : String)

/-- The captures of `stream_token`. -/
structure Progress where
  streamed : List Token := []
  answer : Bytes := []
  shown : List Bytes := []

section streaming

variable (engine : Gemma) (promptSize : Nat) (listens : Bool) (around : Surroundings)

/-- The lambda `stream_token`. -/
def streamToken (p : Progress) (token : Token) : Progress × Option String :=
  let p := { p with streamed := p.streamed ++ [token] }
  if p.streamed.length ≤ promptSize ∨ engine.isEOS token then (p, none)
  else match around.throws (.decode p.streamed.length) with
    | some what => (p, some what)
    | none =>
        match engine.decode token with
        | none => (p, none)
        | some text =>
            let p := { p with answer := p.answer ++ text }
            if listens then
              ({ p with shown := p.shown ++ [text] }, around.throws (.callback p.streamed.length))
            else (p, none)

/-- `Gemma::Generate`, as the pool sees it. -/
def streamAll (p : Progress) : List Token → Progress × Option String
  | [] => (p, around.throws (.engine p.streamed.length))
  | token :: rest =>
      match around.throws (.engine p.streamed.length) with
      | some what => (p, some what)
      | none =>
          match streamToken engine promptSize listens around p token with
          | (p, some what) => (p, some what)
          | (p, none) => streamAll p rest

end streaming

/-- The entry with the lowest `access_order`.  Of two with one order it is the first in the order of
the keys; `sessions_` is an `unordered_map`, whose order is not specified. -/
def oldest : List (Bytes × SessionData) → Option (Bytes × SessionData)
  | [] => none
  | entry :: rest =>
      match oldest rest with
      | some other => if other.2.accessOrder < entry.2.accessOrder then some other else some entry
      | none => some entry

/-- The eviction loop, at most `n` rounds. -/
def evict (maxSessions : Nat) : Nat → SortedMap Bytes SessionData → SortedMap Bytes SessionData
  | 0, sessions => sessions
  | n + 1, sessions =>
      if maxSessions ≤ sessions.size then
        match oldest sessions.entries with
        | some entry => evict maxSessions n (sessions.erase entry.1)
        | none => sessions
      else sessions

/-- The erasure and the evictions before a cache is allocated. -/
def Pool.makeRoom (pool : Pool) (sessionKey : Bytes) : Pool :=
  let sessions := pool.sessions.erase sessionKey
  { pool with sessions := evict pool.policy.maxSessions.toNat sessions.size sessions }

def Pool.put (pool : Pool) (sessionKey : Bytes) (session : SessionData) : Pool :=
  { pool with sessions := pool.sessions.insert sessionKey session }

def Pool.erase (pool : Pool) (sessionKey : Bytes) : Pool :=
  { pool with sessions := pool.sessions.erase sessionKey }

/-- The session the request generates in. -/
def obtainSession (engine : Gemma) (r : Request) (plan : Plan) (around : Surroundings) :
    Action Pool Obs String Unit :=
  if plan.reuse then pure ()
  else do
    Action.update (·.makeRoom r.sessionKey)
    Action.lift (around.raise .allocate)
    Action.lift (validateBudget 0 plan.tokens.length r.maxTokens.toNat engine.seqLen)
    Action.update (·.put r.sessionKey { kvCache := { seqLen := engine.seqLen } })

/-- The entry after a generation that did not throw. -/
def SessionData.settle (session : SessionData) (r : Request) (plan : Plan) (p : Progress)
    (now : Instant) (order : Nat) : SessionData :=
  { session with
    absPos := plan.startPos + p.streamed.length
    transcript := match r.history with
      | some history => history.texts ++ [p.answer]
      | none => []
    lastUsed := now
    accessOrder := order }

/-- The `try` block of `generateImpl` and its handler. -/
def runGenerate (engine : Gemma) (r : Request) (plan : Plan) (around : Surroundings) :
    Action Pool Obs String Unit := fun pool =>
  match pool.sessions.find? r.sessionKey with
  -- The entry was found or made under the same lock.
  | none => ([], pool, .ok ())
  | some session =>
      let (p, thrown) :=
        streamAll engine plan.tokens.length r.listens around {} around.stream
      let written := { session with
        kvCache := session.kvCache.record {
          sessionKey := r.sessionKey, history := r.history.map (·.texts),
          submitted := plan.submitted, startPos := plan.startPos, tokens := plan.tokens,
          streamed := p.streamed, threw := thrown.isSome } }
      let pool := pool.put r.sessionKey written
      let out := .generate engine r plan session.kvCache :: p.shown.map .onToken
      match thrown with
      | some what => (out, pool.erase r.sessionKey, .error what)
      | none =>
          let order := pool.accessOrder + 1
          (out, { pool.put r.sessionKey (written.settle r plan p around.endClock order) with
            accessOrder := order }, .ok ())

/-- `GemmaInferencePool::generateImpl`. -/
def generateImpl (r : Request) (around : Surroundings) : Action Pool Obs String Unit := do
  match (← Action.current).gemma with
  | none => Action.fail "Gemma model not loaded"
  | some engine =>
      Action.lift r.check
      Action.update (·.pruneExpiredLocked around.pruneClock)
      let pool ← Action.current
      let plan ← Action.lift (pool.plan engine r around)
      obtainSession engine r plan around
      Action.lift (around.raise .copyTo)
      runGenerate engine r plan around

/-! ## The operations -/

/-- What the file system answers `validateReadableFile` for a path. -/
inductive FileState
  /-- Not a regular file, empty, or the question failed. -/
  | unusable
  | unreadable
  | readable
deriving DecidableEq, Repr

def validateReadableFile (files : Bytes → FileState) (path : Bytes) (kind : String) :
    Except String Unit :=
  if path = [] ∨ files path = .unusable then
    .error ("Gemma " ++ kind ++ " must be a nonempty readable regular file")
  else if files path = .unreadable then .error ("Gemma " ++ kind ++ " is not readable")
  else .ok ()

def CachePolicy.check (policy : CachePolicy) : Except String Unit :=
  if policy.maxSessions = 0 ∨ policy.sequenceTokens < 32 ∨ 8192 < policy.sequenceTokens ∨
      policy.sequenceTokens % 32 ≠ 0 ∨ policy.idleTtl ≤ 0 then
    .error "Invalid Gemma cache policy"
  else .ok ()

/-- `GemmaInferencePool::initialize`; `loads` is the outcome of building the model. -/
def initializePool (weightsPath tokenizerPath : Bytes) (policy : CachePolicy)
    (files : Bytes → FileState) (loads : Except String Gemma) : Action Pool Obs String Unit := do
  match (← Action.current).gemma with
  | some _ => pure ()
  | none =>
      Action.lift policy.check
      Action.lift (validateReadableFile files weightsPath "weights")
      if tokenizerPath ≠ [] then
        Action.lift (validateReadableFile files tokenizerPath "tokenizer")
      let model ← Action.lift loads
      Action.update fun pool => { pool with gemma := some model, policy := policy }

/-- `GemmaInferencePool::shutdown`. -/
def shutdown : Action Pool Obs String Unit :=
  Action.update fun pool => { pool with gemma := none, sessions := .empty, accessOrder := 0 }

/-- `GemmaInferencePool::clearSession`. -/
def clearSession (sessionKey : Bytes) : Action Pool Obs String Unit :=
  Action.update (·.erase sessionKey)

/-- `GemmaInferencePool::generate`. -/
def generate (sessionKey prompt : Bytes) (listens : Bool) (temperature : Option Rat)
    (maxTokens : UInt64) (around : Surroundings) : Action Pool Obs String Unit :=
  generateImpl ⟨sessionKey, prompt, none, listens, temperature, maxTokens⟩ around

/-- `GemmaInferencePool::generateFromHistory`. -/
def generateFromHistory (sessionKey : Bytes) (history : History) (listens : Bool)
    (temperature : Option Rat) (maxTokens : UInt64) (around : Surroundings) :
    Action Pool Obs String Unit :=
  let prompt := match history.getLast? with
    | some message => message.1
    | none => []
  generateImpl ⟨sessionKey, prompt, some history, listens, temperature, maxTokens⟩ around

inductive Operation
  | generate (sessionKey prompt : Bytes) (listens : Bool) (temperature : Option Rat)
    (maxTokens : UInt64) (around : Surroundings)
  | generateFromHistory (sessionKey : Bytes) (history : History) (listens : Bool)
    (temperature : Option Rat) (maxTokens : UInt64) (around : Surroundings)
  | clearSession (sessionKey : Bytes)
  | shutdown
  | initializePool (weightsPath tokenizerPath : Bytes) (policy : CachePolicy)
    (files : Bytes → FileState) (loads : Except String Gemma)

def Operation.action : Operation → Action Pool Obs String Unit
  | .generate sessionKey prompt listens temperature maxTokens around =>
      Inference.generate sessionKey prompt listens temperature maxTokens around
  | .generateFromHistory sessionKey history listens temperature maxTokens around =>
      Inference.generateFromHistory sessionKey history listens temperature maxTokens around
  | .clearSession sessionKey => Inference.clearSession sessionKey
  | .shutdown => Inference.shutdown
  | .initializePool weightsPath tokenizerPath policy files loads =>
      Inference.initializePool weightsPath tokenizerPath policy files loads

/-- One operation, by any caller; it ends with its result. -/
inductive Step : Pool → List Obs → Pool → Prop
  | returns {pool pool' : Pool} {out : List Obs} (op : Operation) :
    op.action pool = (out, pool', .ok ()) → Step pool (out ++ [.returned]) pool'
  | throws {pool pool' : Pool} {out : List Obs} {what : String} (op : Operation) :
    op.action pool = (out, pool', .error what) → Step pool (out ++ [.threw what]) pool'

end AIService.Inference
