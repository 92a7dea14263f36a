import AIService.Basic
import AIService.Data.SortedMap
import Mathlib.Logic.Function.Basic

/-!
# `http::session::Session` and `MemorySessionStorage`

A `Session` lives on a heap and is shared by reference: the storage, and every handler
that got it from `getSession`, hold the same object.  Each function on
`MemorySessionStorage` is the body of one section that holds `mutex_`; `now` is what
`steady_clock::now()` returned in it.  A sweep reads the clock once for each entry.
-/

namespace AIService.Sessions

/-- A `steady_clock` time point, in nanoseconds. -/
abbrev Time := Nat

structure Session where
  sessionId : Bytes := []
  data : SortedMap Bytes Bytes := .empty
  expiryTime : Time := 0
  /-- The duration `std::chrono::seconds(maxAge_)`. -/
  maxAge : Time := 0

instance : Inhabited Session := ⟨{}⟩

/-- `Session::refresh`, at clock reading `now`. -/
def Session.refresh (s : Session) (now : Time) : Session :=
  { s with expiryTime := now + s.maxAge }

/-- The constructor. -/
def Session.new (sessionId : Bytes) (maxAge : Time) (now : Time) : Session :=
  Session.refresh { sessionId := sessionId, maxAge := maxAge } now

/-- The identity of a `Session` object. -/
abbrev Ref := Nat

abbrev Heap := Ref → Session

structure MemorySessionStorage where
  capacity : Nat
  sessions : SortedMap Bytes Ref := .empty

namespace MemorySessionStorage

/-- The constructor; an error is the text of its exception. -/
def new (capacity : Nat) : Except String MemorySessionStorage :=
  if capacity = 0 then .error "Session capacity must be positive" else .ok { capacity := capacity }

variable (s : MemorySessionStorage) (heap : Heap)

/-- `reading id` is the clock when the sweep looks at the entry of `id`. -/
def cleanExpiredLocked (reading : Bytes → Time) : MemorySessionStorage :=
  { s with sessions := s.sessions.filter fun id ref => reading id < (heap ref).expiryTime }

/-- The source's `admit` from the capacity test on. -/
def admitBounded (ref : Ref) (reading : Bytes → Time) : Bool × MemorySessionStorage :=
  let s := if s.capacity ≤ s.sessions.size then s.cleanExpiredLocked heap reading else s
  if s.capacity ≤ s.sessions.size then (false, s)
  else (true, { s with sessions := s.sessions.insert (heap ref).sessionId ref })

/-- The source's `admit`. -/
def admitSession (ref : Ref) (now : Time) (reading : Bytes → Time) : Bool × MemorySessionStorage :=
  match s.sessions.find? (heap ref).sessionId with
  | none => s.admitBounded heap ref reading
  | some previous =>
      if previous = ref then (true, s)
      else if now < (heap previous).expiryTime then (false, s)
      else { s with sessions := s.sessions.erase (heap ref).sessionId }.admitBounded heap ref
        reading

/-- The source's `save`; an error is the text of its exception. -/
def save (ref : Ref) (now : Time) (reading : Bytes → Time) :
    Except String Unit × MemorySessionStorage :=
  match s.admitSession heap ref now reading with
  | (true, s) => (.ok (), s)
  | (false, s) => (.error "Session admission rejected", s)

def load (id : Bytes) (now : Time) : Option Ref × MemorySessionStorage :=
  match s.sessions.find? id with
  | none => (none, s)
  | some ref =>
      if (heap ref).expiryTime ≤ now then (none, { s with sessions := s.sessions.erase id })
      else (some ref, s)

def loadAndRefresh (id : Bytes) (now : Time) : Option Ref × MemorySessionStorage × Heap :=
  match s.sessions.find? id with
  | none => (none, s, heap)
  | some ref =>
      if (heap ref).expiryTime ≤ now then
        (none, { s with sessions := s.sessions.erase id }, heap)
      else (some ref, s, Function.update heap ref ((heap ref).refresh now))

def remove (id : Bytes) : MemorySessionStorage := { s with sessions := s.sessions.erase id }

def updateExisting (ref : Ref) (now : Time) : Bool × MemorySessionStorage :=
  match s.sessions.find? (heap ref).sessionId with
  | none => (false, s)
  | some current =>
      if current ≠ ref then (false, s)
      else if (heap ref).expiryTime ≤ now then
        (false, { s with sessions := s.sessions.erase (heap ref).sessionId })
      else (true, s)

end MemorySessionStorage

end AIService.Sessions
