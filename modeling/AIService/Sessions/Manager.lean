import AIService.Http.Response
import AIService.Run
import AIService.Sessions.Storage

/-!
# `http::session::SessionManager`

`World` is a manager with its storage, the session objects ever made, the calls of
`getSession` that found nothing and are still running, and the `setValue` calls between
their two locked parts.  `Step` interleaves the atomic parts of all operations; every
step that reads the clock moves it forward, never back.
-/

namespace AIService.Sessions

open Http

/-- The text after the first occurrence of `needle`. -/
def afterFirst (needle : Bytes) : Bytes → Option Bytes
  | [] => if needle.isEmpty then some [] else none
  | b :: rest =>
      if needle.isPrefixOf (b :: rest) then some ((b :: rest).drop needle.length)
      else afterFirst needle rest

def semicolon : UInt8 := 59

/-- `getSessionIdFromCookie`, on the value of the `Cookie` header. -/
def getSessionIdFromCookie (cookie : Bytes) : Bytes :=
  match afterFirst (bytes "sessionId=") cookie with
  | none => []
  | some rest => rest.takeWhile (· ≠ semicolon)

/-- The sixteen digits `ss << std::hex` writes. -/
def hexDigit (digit : Fin 16) : UInt8 :=
  if digit < 10 then 48 + digit.val.toUInt8 else 87 + digit.val.toUInt8

/-- `generateSessionId`, from its 32 draws. -/
def generateSessionId (draws : Vector (Fin 16) 32) : Bytes := draws.toList.map hexDigit

/-- `setSessionCookie`. -/
def setSessionCookie (id : Bytes) (resp : HttpResponse) : HttpResponse :=
  resp.addHeader (bytes "Set-Cookie") (bytes "sessionId=" ++ id ++ bytes "; Path=/; HttpOnly")

/-- What `getSession` throws when the storage refuses the new session. -/
def unavailable : HttpResponse :=
  ((HttpResponse.new true).setStatusCode 503).setContentType
    (bytes "text/plain; charset=utf-8") |>.setBody (bytes "Session capacity unavailable")

/-- How far a call of `getSession` that found no session has come. -/
inductive Stage
  | missed
  | constructed (ref : Ref) (born : Time)

structure Call where
  number : Nat
  resp : HttpResponse
  stage : Stage

inductive Obs
  /-- `getSession` returns a stored session; `*resp` was `given`, and is `resp` now. -/
  | resumed (call : Nat) (id : Bytes) (at_ : Time) (ref : Ref) (given resp : HttpResponse)
  /-- The look-up of `getSession` found nothing to resume; `*resp` is `given`. -/
  | missed (call : Nat) (id : Bytes) (at_ : Time) (given : HttpResponse)
  /-- `getSession` returns a session constructed at `born` and admitted now; `*resp` is `resp`. -/
  | issued (call : Nat) (id : Bytes) (ref : Ref) (born : Time) (resp : HttpResponse)
  | refused (call : Nat) (thrown : HttpResponse)
  | destroyed (id : Bytes)
  | gotValue (ref : Ref) (key value : Bytes)

structure World where
  storage : MemorySessionStorage
  heap : Heap := fun _ => default
  /-- References below this one are taken. -/
  nextRef : Ref := 0
  clock : Time := 0
  calls : List Call := []
  saving : List Ref := []
  nextCall : Nat := 0

/-- The look-up of `getSession`; a cookie without an id touches nothing. -/
def World.lookup (w : World) (cookie : Bytes) (now : Time) : Option Ref × World :=
  let id := getSessionIdFromCookie cookie
  if id.isEmpty then (none, w)
  else
    let (found, storage, heap) := w.storage.loadAndRefresh w.heap id now
    (found, { w with storage := storage, heap := heap, clock := now })

/-- Change the data of one session object. -/
def World.modifyData (w : World) (ref : Ref)
    (change : SortedMap Bytes Bytes → SortedMap Bytes Bytes) : World :=
  let session := { w.heap ref with data := change (w.heap ref).data }
  { w with heap := Function.update w.heap ref session }

/-- One atomic step of the requests, the holders of sessions and the cleanup thread. -/
inductive Step (maxAge : Time) : World → List Obs → World → Prop
  | resume {w w' : World} {ref : Ref} (cookie : Bytes) (resp : HttpResponse) {now : Time} :
    w.clock ≤ now → w.lookup cookie now = (some ref, w') →
    Step maxAge w [.resumed w.nextCall (getSessionIdFromCookie cookie) now ref resp resp]
      { w' with nextCall := w.nextCall + 1 }
  | miss {w w' : World} (cookie : Bytes) (resp : HttpResponse) {now : Time} :
    w.clock ≤ now → w.lookup cookie now = (none, w') →
    Step maxAge w [.missed w.nextCall (getSessionIdFromCookie cookie) now resp]
      { w' with nextCall := w.nextCall + 1, calls := ⟨w.nextCall, resp, .missed⟩ :: w.calls }
  /-- `std::make_shared<Session>(generateSessionId(), ...)`; the id was never drawn before. -/
  | construct {w : World} {number : Nat} {resp : HttpResponse} {calls : List Call}
      (draws : Vector (Fin 16) 32) {now : Time} :
    w.calls.Perm (⟨number, resp, .missed⟩ :: calls) → w.clock ≤ now →
    (∀ ref < w.nextRef, (w.heap ref).sessionId ≠ generateSessionId draws) →
    Step maxAge w []
      { w with
        heap := Function.update w.heap w.nextRef
          (Session.new (generateSessionId draws) maxAge now),
        nextRef := w.nextRef + 1, clock := now,
        calls := ⟨number, resp, .constructed w.nextRef now⟩ :: calls }
  | issue {w : World} {number : Nat} {resp : HttpResponse} {ref : Ref} {born : Time}
      {calls : List Call} {storage : MemorySessionStorage} {mid now : Time} {reading : Bytes → Time} :
    w.calls.Perm (⟨number, resp, .constructed ref born⟩ :: calls) → w.clock ≤ mid →
    (∀ id, mid ≤ reading id ∧ reading id ≤ now) →
    w.storage.admitSession w.heap ref mid reading = (true, storage) →
    Step maxAge w
      [.issued number (w.heap ref).sessionId ref born
        (setSessionCookie (w.heap ref).sessionId resp)]
      { w with storage := storage, clock := now, calls := calls }
  | refuse {w : World} {number : Nat} {resp : HttpResponse} {ref : Ref} {born : Time}
      {calls : List Call} {storage : MemorySessionStorage} {mid now : Time} {reading : Bytes → Time} :
    w.calls.Perm (⟨number, resp, .constructed ref born⟩ :: calls) → w.clock ≤ mid →
    (∀ id, mid ≤ reading id ∧ reading id ≤ now) →
    w.storage.admitSession w.heap ref mid reading = (false, storage) →
    Step maxAge w [.refused number unavailable]
      { w with storage := storage, clock := now, calls := calls }
  | setValue {w : World} {ref : Ref} (key value : Bytes) :
    ref < w.nextRef →
    Step maxAge w []
      { w.modifyData ref (·.insert key value) with saving := ref :: w.saving }
  /-- The auto-save of `setValue`, after it released the session's lock. -/
  | autoSave {w : World} {ref : Ref} {saving : List Ref} {now : Time} :
    w.saving.Perm (ref :: saving) → w.clock ≤ now →
    Step maxAge w []
      { w with storage := (w.storage.updateExisting w.heap ref now).2, clock := now,
               saving := saving }
  | updateSession {w : World} {ref : Ref} {now : Time} :
    ref < w.nextRef → w.clock ≤ now →
    Step maxAge w []
      { w with storage := (w.storage.updateExisting w.heap ref now).2, clock := now }
  | getValue {w : World} {ref : Ref} (key : Bytes) :
    ref < w.nextRef →
    Step maxAge w [.gotValue ref key (((w.heap ref).data.find? key).getD [])] w
  | removeValue {w : World} {ref : Ref} (key : Bytes) :
    ref < w.nextRef → Step maxAge w [] (w.modifyData ref (·.erase key))
  | clear {w : World} {ref : Ref} :
    ref < w.nextRef → Step maxAge w [] (w.modifyData ref fun _ => .empty)
  | destroySession {w : World} (id : Bytes) :
    Step maxAge w [.destroyed id] { w with storage := w.storage.remove id }
  | cleanExpiredSessions {w : World} {now : Time} {reading : Bytes → Time} :
    (∀ id, w.clock ≤ reading id ∧ reading id ≤ now) →
    Step maxAge w []
      { w with storage := w.storage.cleanExpiredLocked w.heap reading, clock := now }

end AIService.Sessions
