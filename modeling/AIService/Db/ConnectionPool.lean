import AIService.Basic
import AIService.Run

/-!
# `http::db::DbConnectionPool`

`State` is the shared pool state and every function on it is the body of one
section that holds `State::mutex`.  `World` adds the threads: callers blocked in
`wait_for`, callers that hold a slot and are creating or checking a connection
outside the lock (`Checkout`), and the leases handed out.  `Step` interleaves
the sections with the unlocked work; each outcome of a connector call is a
choice of the environment.
-/

namespace AIService.Db

/-- The identity of a `DbConnection` object. -/
abbrev ConnectionId := Nat

/-- The identity of one call of `getConnection`. -/
abbrev Borrower := Nat

/-- The exceptions that leave `init` and `getConnection`. -/
inductive DbError
  | invalidInitialization
  | unavailable
  | exhausted
  | stopping
  | replacementUnavailable
  | connector
deriving DecidableEq, Repr

/-- The text of a `DbException` raised by the pool itself; an exception of the
connector keeps its own. -/
def DbError.what : DbError → Option String
  | .invalidInitialization => some "Invalid connection pool initialization"
  | .unavailable => some "Connection pool is unavailable"
  | .exhausted => some "Connection pool exhausted: timeout after 30s"
  | .stopping => some "Connection pool is stopping"
  | .replacementUnavailable => some "Replacement connection is unavailable"
  | .connector => none

/-- `DbConnectionPool::State`. -/
structure State where
  idle : List ConnectionId := []
  target : Nat := 0
  allocated : Nat := 0
  initialized : Bool := false
  stopping : Bool := false
deriving DecidableEq, Repr

/-- `DbConnectionPool::init`, one section.  `ready` is the outcome of the
creation loop: the connections built, or none when a constructor threw. -/
def State.init (s : State) (poolSize : UInt64) (ready : Option (List ConnectionId)) :
    Except DbError State :=
  if s.initialized then .ok s
  else if s.stopping || poolSize == 0 then .error .invalidInitialization
  else match ready with
    | none => .error .connector
    | some ready => .ok { s with
        idle := ready, target := poolSize.toNat, allocated := poolSize.toNat,
        initialized := true }

/-- The predicate of `cv.wait_for`. -/
def State.available (s : State) : Bool :=
  s.stopping || !s.idle.isEmpty || s.allocated < s.target

/-- Where a borrower is between its slot and its lease. -/
inductive Phase
  /-- A slot is reserved and `createConnection` is running. -/
  | creating
  | pinging (c : ConnectionId)
  | reconnecting (c : ConnectionId)
  | repinging (c : ConnectionId)
  /-- In the handler of a failed reconnect; the old object is still held. -/
  | replacing (c : ConnectionId)
  | pingingReplacement (c : ConnectionId)
  | healthy (c : ConnectionId)
  /-- An exception is on its way to `catch (...)`. -/
  | failed (held : Option ConnectionId) (error : DbError)
deriving DecidableEq, Repr

/-- The connection a phase keeps to itself. -/
def Phase.connection : Phase → Option ConnectionId
  | .creating => none
  | .pinging c | .reconnecting c | .repinging c | .replacing c | .pingingReplacement c
  | .healthy c => some c
  | .failed held _ => held

/-- The rest of `getConnection`'s first critical section once the wait is over. -/
def State.checkout (s : State) : Except DbError (State × Phase) :=
  if s.stopping then .error .stopping
  else match s.idle with
    | c :: idle => .ok ({ s with idle := idle }, .pinging c)
    | [] => .ok ({ s with allocated := sizeAdd s.allocated 1 }, .creating)

/-- The locked part of the outer `catch (...)`. -/
def State.giveBack (s : State) : State :=
  { s with allocated := sizeSub s.allocated 1 }

/-- The locked part of a lease's deleter. -/
def State.release (s : State) (c : ConnectionId) : State :=
  if s.stopping then { s with allocated := sizeSub s.allocated 1 }
  else { s with idle := s.idle ++ [c] }

/-- The locked part of `~DbConnectionPool`. -/
def State.stop (s : State) : State :=
  { s with stopping := true, allocated := sizeSub s.allocated s.idle.length, idle := [] }

/-- How a call of the connector ends.  `fails` is `ping() == false`. -/
inductive Outcome
  | succeeds
  | fails
  | throwsStd
  | throwsOther
deriving DecidableEq, Repr

/-- The unlocked part of `getConnection`, one connector call at a time; `fresh`
names the object a successful `createConnection` returns. -/
def Phase.next (fresh : ConnectionId) : Phase → Outcome → Option Phase
  | .creating, .succeeds => some (.pinging fresh)
  | .creating, _ => some (.failed none .connector)
  | .pinging c, .succeeds => some (.healthy c)
  | .pinging c, .fails => some (.reconnecting c)
  | .pinging c, _ => some (.failed (some c) .connector)
  | .reconnecting c, .succeeds => some (.repinging c)
  -- The inner handler takes `std::exception` only.
  | .reconnecting c, .throwsOther => some (.failed (some c) .connector)
  | .reconnecting c, _ => some (.replacing c)
  | .repinging c, .succeeds => some (.healthy c)
  | .repinging c, .throwsOther => some (.failed (some c) .connector)
  | .repinging c, _ => some (.replacing c)
  | .replacing _, .succeeds => some (.pingingReplacement fresh)
  | .replacing c, _ => some (.failed (some c) .connector)
  | .pingingReplacement c, .succeeds => some (.healthy c)
  | .pingingReplacement c, .fails => some (.failed (some c) .replacementUnavailable)
  | .pingingReplacement c, _ => some (.failed (some c) .connector)
  | .healthy _, _ => none
  | .failed _ _, _ => none

/-- A call of `getConnection` that holds a slot. -/
structure Checkout where
  borrower : Borrower
  phase : Phase
deriving DecidableEq, Repr

/-- What a run shows. -/
inductive Obs
  | initialized
  | initFailed (error : DbError)
  /-- The call ended without ever holding a slot. -/
  | refused (b : Borrower) (error : DbError)
  | granted (b : Borrower)
  | leased (b : Borrower) (c : ConnectionId)
  /-- A failed checkout returned its slot and rethrew. -/
  | slotReturned (b : Borrower) (error : DbError)
  | released (b : Borrower) (c : ConnectionId)
  | stopped
deriving DecidableEq, Repr

/-- The pool with every call of `getConnection` in progress and every lease. -/
structure World where
  state : State := {}
  waiting : List Borrower := []
  checkouts : List Checkout := []
  leases : List (Borrower × ConnectionId) := []
  nextBorrower : Borrower := 0
  nextConnection : ConnectionId := 0
deriving DecidableEq, Repr

/-- The end of the critical section that takes a slot for `b`. -/
def World.admitBorrower (w : World) (b : Borrower) : World × List Obs :=
  match w.state.checkout with
  | .error e => (w, [.refused b e])
  | .ok (s, phase) =>
      ({ w with state := s, checkouts := ⟨b, phase⟩ :: w.checkouts }, [.granted b])

/-- `getConnection` up to the first time it releases the lock. -/
def World.call (w : World) : World × List Obs :=
  let b := w.nextBorrower
  let w := { w with nextBorrower := b + 1 }
  if !w.state.initialized || w.state.stopping then (w, [.refused b .unavailable])
  else if w.state.available then w.admitBorrower b
  else ({ w with waiting := b :: w.waiting }, [])

/-- A wake-up of the waiting call `b`, by a notification, by the timeout or spurious. -/
def World.wake (w : World) (b : Borrower) (timedOut : Bool) : World × List Obs :=
  if w.state.available then w.admitBorrower b
  else if timedOut then (w, [.refused b .exhausted])
  else ({ w with waiting := b :: w.waiting }, [])

/-- How many objects the creation loop of `init` builds when the constructor call
number `failsAt` throws, or none does. -/
def builtObjects (poolSize : UInt64) : Option Nat → Nat
  | some failsAt => min failsAt poolSize.toNat
  | none => poolSize.toNat

/-- `init`.  The objects built before a constructor throws are destroyed again;
their names are not reused. -/
def World.init (w : World) (poolSize : UInt64) (failsAt : Option Nat) : World × List Obs :=
  let built := builtObjects poolSize failsAt
  let ready := if built = poolSize.toNat then
    some (List.range' w.nextConnection poolSize.toNat) else none
  let w := { w with nextConnection := w.nextConnection + built }
  match w.state.init poolSize ready with
  | .error e => (w, [.initFailed e])
  | .ok s => ({ w with state := s }, [.initialized])

/-- One atomic step of the pool and its callers. -/
inductive Step : World → List Obs → World → Prop
  | init {w : World} (poolSize : UInt64) (failsAt : Option Nat) :
    Step w (w.init poolSize failsAt).2 (w.init poolSize failsAt).1
  | call {w : World} : Step w w.call.2 w.call.1
  | wake {w : World} {b : Borrower} {waiting : List Borrower} (timedOut : Bool) :
    w.waiting.Perm (b :: waiting) →
    Step w ({ w with waiting := waiting }.wake b timedOut).2
      ({ w with waiting := waiting }.wake b timedOut).1
  | advance {w : World} {b : Borrower} {phase next : Phase} {checkouts : List Checkout}
      (outcome : Outcome) :
    w.checkouts.Perm (⟨b, phase⟩ :: checkouts) →
    phase.next w.nextConnection outcome = some next →
    Step w [] { w with checkouts := ⟨b, next⟩ :: checkouts,
                       nextConnection := w.nextConnection + 1 }
  | lease {w : World} {b : Borrower} {c : ConnectionId} {checkouts : List Checkout} :
    w.checkouts.Perm (⟨b, .healthy c⟩ :: checkouts) →
    Step w [.leased b c] { w with checkouts := checkouts, leases := (b, c) :: w.leases }
  | giveBack {w : World} {b : Borrower} {held : Option ConnectionId} {error : DbError}
      {checkouts : List Checkout} :
    w.checkouts.Perm (⟨b, .failed held error⟩ :: checkouts) →
    Step w [.slotReturned b error]
      { w with state := w.state.giveBack, checkouts := checkouts }
  | release {w : World} {b : Borrower} {c : ConnectionId}
      {leases : List (Borrower × ConnectionId)} :
    w.leases.Perm ((b, c) :: leases) →
    Step w [.released b c] { w with state := w.state.release c, leases := leases }
  | stop {w : World} : Step w [.stopped] { w with state := w.state.stop }

end AIService.Db
