import AIService.Sessions.Manager

/-!
# Requests one after the other

`Backend` lists the virtual functions of `SessionStorage` that the manager and the sessions
call.  `memory` has those of `MemorySessionStorage`, and `SnapshotStorage.backend` the default
ones over a storage that implements `save`, `load` and `remove` only.  An event is a whole
request, with what its handler does to the session it got, or a cleanup; each operation reads
the clock once.
-/

namespace AIService.Sessions.Serial

/-- A storage and the session objects ever made. -/
structure World (σ : Type) where
  storage : σ
  heap : Heap := fun _ => default
  nextRef : Ref := 0

/-- `setValue`, `remove` and `clear` on the data alone. -/
def modify (s : Session) (change : SortedMap Bytes Bytes → SortedMap Bytes Bytes) : Session :=
  { s with data := change s.data }

namespace World

variable {σ : Type} (w : World σ)

def allocate (s : Session) : World σ :=
  { w with heap := Function.update w.heap w.nextRef s, nextRef := w.nextRef + 1 }

def modifyData (ref : Ref) (change : SortedMap Bytes Bytes → SortedMap Bytes Bytes) : World σ :=
  { w with heap := Function.update w.heap ref (modify (w.heap ref) change) }

end World

structure Backend (σ : Type) where
  loadAndRefresh : Bytes → Time → World σ → Option Ref × World σ
  admitSession : Ref → Time → World σ → Bool × World σ
  updateExisting : Ref → Time → World σ → World σ
  remove : Bytes → World σ → World σ
  cleanExpired : Time → World σ → World σ

def memory : Backend MemorySessionStorage where
  loadAndRefresh id now w :=
    let (found, storage, heap) := w.storage.loadAndRefresh w.heap id now
    (found, { w with storage := storage, heap := heap })
  admitSession ref now w :=
    let (admitted, storage) := w.storage.admitSession w.heap ref now fun _ => now
    (admitted, { w with storage := storage })
  updateExisting ref now w := { w with storage := (w.storage.updateExisting w.heap ref now).2 }
  remove id w := { w with storage := w.storage.remove id }
  cleanExpired now w := { w with storage := w.storage.cleanExpiredLocked w.heap fun _ => now }

/-- A storage that maps ids to detached snapshots. -/
structure SnapshotStorage where
  State : Type
  empty : State
  save : Session → State → State
  load : Bytes → State → Option Session
  remove : Bytes → State → State
  load_empty (id : Bytes) : load id empty = none
  load_save (id : Bytes) (session : Session) (s : State) :
    load id (save session s) = if id = session.sessionId then some session else load id s
  load_remove (id id' : Bytes) (s : State) :
    load id (remove id' s) = if id = id' then none else load id s

/-- The default operations of `SessionStorage`. -/
def SnapshotStorage.backend (S : SnapshotStorage) : Backend S.State where
  loadAndRefresh id now w :=
    match S.load id w.storage with
    | none => (none, w)
    | some session =>
        if session.expiryTime ≤ now then (none, { w with storage := S.remove id w.storage })
        else
          (some w.nextRef,
            { w.allocate (session.refresh now) with storage := S.save (session.refresh now) w.storage })
  admitSession ref _ w := (true, { w with storage := S.save (w.heap ref) w.storage })
  updateExisting ref now w :=
    match S.load (w.heap ref).sessionId w.storage with
    | none => w
    | some current =>
        if current.expiryTime ≤ now then
          { w with storage := S.remove (w.heap ref).sessionId w.storage }
        else if (w.heap ref).expiryTime ≤ now then w
        else { w with storage := S.save (w.heap ref) w.storage }
  remove id w := { w with storage := S.remove id w.storage }
  cleanExpired _ w := w

/-! ## Requests -/

inductive Op
  | setValue (key value : Bytes)
  | remove (key : Bytes)
  | clear
  | getValue (key : Bytes)
  | destroySession (id : Bytes)

structure Access where
  now : Time
  op : Op

/-- `draws` is what the random source gives if a session is created. -/
structure Request where
  cookie : Bytes
  draws : Vector (Fin 16) 32
  now : Time
  accesses : List Access

inductive Event
  | request (r : Request)
  | cleanExpiredSessions (now : Time)

inductive Obs
  | resumed (id : Bytes)
  | created (id : Bytes)
  | unavailable
  | gotValue (value : Bytes)
deriving DecidableEq

namespace Backend

variable {σ : Type} (b : Backend σ) (maxAge : Time)

/-- The look-up of `getSession`. -/
def lookup (cookie : Bytes) (now : Time) (w : World σ) : Option Ref × World σ :=
  let id := getSessionIdFromCookie cookie
  if id.isEmpty then (none, w) else b.loadAndRefresh id now w

def getSession (r : Request) (w : World σ) : Obs × Option Ref × World σ :=
  match b.lookup r.cookie r.now w with
  | (some ref, w) => (.resumed (w.heap ref).sessionId, some ref, w)
  | (none, w) =>
      let id := generateSessionId r.draws
      match b.admitSession w.nextRef r.now (w.allocate (Session.new id maxAge r.now)) with
      | (true, w') => (.created id, some w.nextRef, w')
      | (false, w') => (.unavailable, none, w')

def access (ref : Ref) (a : Access) (w : World σ) : List Obs × World σ :=
  match a.op with
  | .setValue key value => ([], b.updateExisting ref a.now (w.modifyData ref (·.insert key value)))
  | .remove key => ([], w.modifyData ref (·.erase key))
  | .clear => ([], w.modifyData ref fun _ => .empty)
  | .getValue key => ([.gotValue (((w.heap ref).data.find? key).getD [])], w)
  | .destroySession id => ([], b.remove id w)

def accesses (ref : Ref) : List Access → World σ → List Obs × World σ
  | [], w => ([], w)
  | a :: rest, w =>
      ((b.access ref a w).1 ++ (accesses ref rest (b.access ref a w).2).1,
        (accesses ref rest (b.access ref a w).2).2)

def serve (e : Event) (w : World σ) : List Obs × World σ :=
  match e with
  | .cleanExpiredSessions now => ([], b.cleanExpired now w)
  | .request r =>
      match b.getSession maxAge r w with
      | (o, none, w) => ([o], w)
      | (o, some ref, w) => (o :: (b.accesses ref r.accesses w).1, (b.accesses ref r.accesses w).2)

def serveAll : List Event → World σ → List Obs
  | [], _ => []
  | e :: rest, w => (b.serve maxAge e w).1 ++ serveAll rest (b.serve maxAge e w).2

/-- `P` holds of each event and of the world that it meets. -/
def EveryEvent (P : World σ → Event → Prop) : List Event → World σ → Prop
  | [], _ => True
  | e :: rest, w => P w e ∧ EveryEvent P rest (b.serve maxAge e w).2

end Backend

/-- The clock readings of an event. -/
def Event.times : Event → List Time
  | .request r => r.now :: r.accesses.map (·.now)
  | .cleanExpiredSessions now => [now]

/-- The id a request would create. -/
def Event.drawn : Event → List Bytes
  | .request r => [generateSessionId r.draws]
  | .cleanExpiredSessions _ => []

/-- The storage is not full when the look-up is over. -/
def Roomy (w : World MemorySessionStorage) : Event → Prop
  | .request r => (memory.lookup r.cookie r.now w).2.storage.sessions.size < w.storage.capacity
  | .cleanExpiredSessions _ => True

/-- From a session whose snapshot is out of date if `stale`: it is not when the accesses are
over, unless the session expired or was destroyed on the way. -/
def saved (s : Session) (stale : Bool) : List Access → Bool
  | [] => !stale
  | a :: rest =>
      if s.expiryTime ≤ a.now then true
      else
        match a.op with
        | .setValue key value => saved (modify s (·.insert key value)) false rest
        | .remove key => saved (modify s (·.erase key)) (stale || (s.data.find? key).isSome) rest
        | .clear => saved (modify s fun _ => .empty) (stale || s.data.size != 0) rest
        | .getValue _ => saved s stale rest
        | .destroySession id => if id = s.sessionId then true else saved s stale rest

/-- A `setValue` follows every `remove` and `clear` of the request that took something away. -/
def Saved (maxAge : Time) (w : World MemorySessionStorage) : Event → Prop
  | .request r =>
      match memory.getSession maxAge r w with
      | (_, none, _) => True
      | (_, some ref, w) => saved (w.heap ref) false r.accesses = true
  | .cleanExpiredSessions _ => True

end AIService.Sessions.Serial
