import AIService.Accounts.Users
import AIService.Data.FlatJson
import AIService.Http.Server
import AIService.Run

/-!
# Concurrent registrations of one name

`ChatRegisterHandler` runs three statements and a hash for each request, and anything may
happen between them.  `Step` interleaves any number of requests for one username with
whatever else changes the table without touching that username.
-/

namespace AIService.Registration

open Accounts Http

/-- The reads of `handle`; `none` is an exception. -/
def credentials (codec : JsonCodec) (body : Bytes) : Option (Bytes × Bytes) := do
  let parsed ← codec.parse body
  let username ← (← parsed.field? (bytes "username")).string?
  let password ← (← parsed.field? (bytes "password")).string?
  return (username, password)

/-- A `POST /register` for `name`, and the response the router hands over with it. -/
structure Registering (codec : JsonCodec) (name : Bytes) where
  req : HttpRequest
  resp : HttpResponse
  password : Bytes
  asks : credentials codec req.content = some (name, password)

/-- How far `insertUser` has come. -/
inductive Stage
  | arrived
  /-- `isUserExist` returned `false`. -/
  | absent
  | hashed (encoded : Bytes)
  /-- The `INSERT` went through. -/
  | inserted
  | answered (resp : HttpResponse)

/-- Past the check, before the end of the `INSERT`. -/
def Stage.Between : Stage → Prop
  | .absent | .hashed _ => True
  | _ => False

structure World (ι : Type) where
  users : Users
  stage : ι → Stage

/-- The statements and calls of the requests. -/
inductive Event (ι : Type)
  | checked (i : ι)
  /-- `PasswordUtil::hash`, with what `RAND_bytes` drew. -/
  | hashed (i : ι) (salt : Option Salt)
  | inserted (i : ι) (id : Int)
  /-- The `INSERT` threw. -/
  | rejected (i : ι)
  | selected (i : ι)
deriving DecidableEq

section handler

variable {codec : JsonCodec} {name : Bytes} (pretty : Json → Bytes) (request : Registering codec name)

/-- What both branches of `handle` do with a body. -/
def reply (status : Nat) (message : String) (body : Bytes) : HttpResponse :=
  ((((request.resp.setStatusLine request.req.version status (bytes message)).setCloseConnection
    false).setContentType (bytes "application/json")).addHeader (bytes "Content-Length")
      (digits body.length)).setBody body

def success (userId : Int) : HttpResponse :=
  reply request 200 "OK" (pretty (.object [(bytes "status", .str (bytes "success")),
    (bytes "message", .str (bytes "Register successful")), (bytes "userId", .int userId)]))

def conflict : HttpResponse :=
  reply request 409 "Conflict" (pretty (.object [(bytes "status", .str (bytes "error")),
    (bytes "message", .str (bytes "username already exists"))]))

/-- `handle`, after `insertUser` returned. -/
def finish (userId : Int) : HttpResponse :=
  if userId ≠ -1 then success pretty request userId else conflict pretty request

/-- `handleRequest`, when `insertUser` threw. -/
def threw (what : String) : HttpResponse := recover request.req (.exception (bytes what))

end handler

namespace World

variable {ι : Type} [DecidableEq ι] (w : World ι)

def start (users : Users) : World ι := ⟨users, fun _ => .arrived⟩

def moveTo (i : ι) (stage : Stage) : World ι := { w with stage := Function.update w.stage i stage }

@[simp] theorem moveTo_self (i : ι) (stage : Stage) : (w.moveTo i stage).stage i = stage := by
  change Function.update w.stage i stage i = stage
  exact Function.update_self ..

theorem moveTo_other {i j : ι} (other : j ≠ i) (stage : Stage) :
    (w.moveTo i stage).stage j = w.stage j := by
  change Function.update w.stage i stage j = w.stage j
  exact Function.update_of_ne other ..

end World

variable {ι : Type} [DecidableEq ι] {codec : JsonCodec} {name : Bytes} (kdf : Pbkdf2)
  (pretty : Json → Bytes) (request : ι → Registering codec name)

/-- One statement or call of one request, or a change elsewhere in the table. -/
inductive Step : World ι → List (Event ι) → World ι → Prop
  | isUserExist {w : World ι} (i : ι) :
    w.stage i = .arrived →
    Step w [.checked i] (w.moveTo i
      (match w.users.find? name with
        | some _ => .answered (conflict pretty (request i))
        | none => .absent))
  | hash {w : World ι} (i : ι) (salt : Option Salt) :
    w.stage i = .absent →
    Step w [.hashed i salt] (w.moveTo i
      (match hash kdf salt (request i).password with
        | some encoded => .hashed encoded
        | none => .answered (threw (request i) "Password hashing failed")))
  | insert {w : World ι} (i : ι) {id : Int} (fresh : w.users.Fresh id) {encoded : Bytes}
      {users : Users} :
    w.stage i = .hashed encoded → w.users.insert id fresh name encoded = some users →
    Step w [.inserted i id] { w.moveTo i .inserted with users := users }
  | reject {w : World ι} (i : ι) {id : Int} (fresh : w.users.Fresh id) {encoded : Bytes} :
    w.stage i = .hashed encoded → w.users.insert id fresh name encoded = none →
    Step w [.rejected i] (w.moveTo i (.answered (threw (request i) "Database update failed")))
  | select {w : World ι} (i : ι) :
    w.stage i = .inserted →
    Step w [.selected i] (w.moveTo i (.answered (finish pretty (request i)
      (match w.users.find? name with
        | some row => row.id
        | none => -1))))
  | elsewhere {w : World ι} {users : Users} :
    users.find? name = w.users.find? name → Step w [] { w with users := users }

/-- All requests have their response. -/
def Complete (w : World ι) : Prop := ∀ i, ∃ resp, w.stage i = .answered resp

/-- A check finds the name, or finds no other request between its check and its `INSERT`;
a hash succeeds. -/
def Calm (w : World ι) : Event ι → Prop
  | .checked i => w.users.find? name ≠ none ∨ ∀ j, j ≠ i → ¬ (w.stage j).Between
  | .hashed i salt => Accounts.hash kdf salt (request i).password ≠ none
  | _ => True

variable {kdf pretty request} {tr out : List (Event ι)} {w w' : World ι}

/-- What waits to be inserted is a hash of the password of its request. -/
def Encoded (kdf : Pbkdf2) (request : ι → Registering codec name) (w : World ι) : Prop :=
  ∀ i encoded, w.stage i = .hashed encoded →
    ∃ salt, Accounts.hash kdf salt (request i).password = some encoded

theorem Encoded.moveTo (encoded : Encoded kdf request w) (i : ι) {stage : Stage}
    (own : ∀ text, stage = .hashed text →
      ∃ salt, Accounts.hash kdf salt (request i).password = some text) :
    Encoded kdf request (w.moveTo i stage) := by
  intro j text here
  by_cases same : j = i
  · rw [same, World.moveTo_self] at here
    exact same ▸ own text here
  · rw [World.moveTo_other w same] at here
    exact encoded j text here

theorem Step.absent {i : ι} (arrived : w.stage i = .arrived) (new : w.users.find? name = none) :
    Step kdf pretty request w [.checked i] (w.moveTo i .absent) := by
  have step : Step kdf pretty request w _ _ := .isUserExist i arrived
  rw [new] at step
  exact step

theorem Step.hashes {i : ι} {salt : Option Salt} {encoded : Bytes} (absent : w.stage i = .absent)
    (hashed : Accounts.hash kdf salt (request i).password = some encoded) :
    Step kdf pretty request w [.hashed i salt] (w.moveTo i (.hashed encoded)) := by
  have step : Step kdf pretty request w _ _ := .hash i salt absent
  rw [hashed] at step
  exact step

end AIService.Registration
