import AIService.Image.Preflight
import AIService.Run
import Mathlib.Data.List.Count

/-!
# The image job quota

`image_resource::Permit` counts the jobs in one atomic.  A call of `ImageRecognizer` is a stack of
frames; the atomic operations of a permit's constructor and destructor are steps of their own, and
so are calls, returns and failures.  `image_jobs` says what holds across every interleaving.
-/

namespace AIService.Image.Jobs

/-! ## The functions -/

/-- The functions of `ImageRecognizer` on the way of a prediction. -/
inductive Function
  | predictFromFile
  | predictFromBuffer
  | predictFromMat
  | predictFromBufferWithConfidence
  | predictFromMatWithConfidence
  | predictBufferGuarded
  | predictMatGuarded
deriving DecidableEq

namespace Function

def isPublic : Function → Bool
  | predictBufferGuarded | predictMatGuarded => false
  | _ => true

/-- The function begins with `image_resource::Permit permit;`. -/
def declaresPermit : Function → Bool
  | predictFromFile | predictFromBufferWithConfidence | predictFromMatWithConfidence => true
  | _ => false

/-- The function that it goes on to call, unless it fails before. -/
def callee : Function → Option Function
  | predictFromFile => some predictBufferGuarded
  | predictFromBuffer => some predictFromBufferWithConfidence
  | predictFromMat => some predictFromMatWithConfidence
  | predictFromBufferWithConfidence => some predictBufferGuarded
  | predictFromMatWithConfidence => some predictMatGuarded
  | predictBufferGuarded => some predictMatGuarded
  | predictMatGuarded => none

end Function

/-- Where a function is. -/
inductive Point
  /-- In `Permit::Permit`, at `GetPolicy().jobs`. -/
  | policy
  /-- At `active.load()`. -/
  | load (limit : Nat)
  /-- At `current >= limit`. -/
  | compare (limit current : Nat)
  /-- At `active.compare_exchange_weak(current, current + 1)`. -/
  | exchange (limit current : Nat)
  /-- In the body, before its call. -/
  | body
  | calling
  /-- After its call. -/
  | called
deriving DecidableEq

/-- In the constructor of the permit. -/
def Point.isAcquiring : Point → Bool
  | .body | .calling | .called => false
  | _ => true

structure Frame where
  function : Function
  point : Point

/-- The permit of the frame is constructed, and not yet destroyed. -/
def Frame.holds (frame : Frame) : Bool := frame.function.declaresPermit && !frame.point.isAcquiring

def Frame.enter (function : Function) : Frame :=
  { function, point := if function.declaresPermit then .policy else .body }

/-! ## Calls -/

/-- What leaves a function that does not return. -/
inductive Exception
  /-- `image_resource::Error`. -/
  | error (status : Nat) (message : Bytes)
  /-- `std::runtime_error`. -/
  | runtimeError (message : Bytes)
  /-- An exception of a library. -/
  | other

/-- What `Permit::Permit` throws at the limit. -/
def Exception.busy : Exception := .error 503 (bytes "Image processing is busy; retry later")

/-- What the bodies throw: an `Error` of theirs has the status 400 or 413. -/
def Exception.OfBody : Exception → Prop
  | .error status _ => status = 400 ∨ status = 413
  | _ => True

/-- A call of an entry point: its frames, the innermost first, and the exception that unwinds them.
Without frames it has ended. -/
structure Call where
  thrown : Option Exception
  stack : List Frame

def Call.permits (call : Call) : Nat := call.stack.countP Frame.holds

/-- The call is in the constructor of a permit. -/
def Call.Acquiring (call : Call) : Prop :=
  call.thrown = none ∧ ∃ frame rest, call.stack = frame :: rest ∧ frame.point.isAcquiring = true

/-- `ActiveJobs()`, and the policy once it is read. -/
structure Shared where
  active : Nat := 0
  policy : Option Policy := none

namespace Shared

/-- `GetPolicy()`: a failed initialization is tried again by the next call. -/
def getPolicy (getenv : Bytes → Option Bytes) (shared : Shared) : Except Bytes (Policy × Shared) :=
  match shared.policy with
  | some policy => .ok (policy, shared)
  | none => (Image.getPolicy getenv).map fun policy => (policy, { shared with policy := some policy })

/-- The destructors of a frame. -/
def leave (frame : Frame) (shared : Shared) : Shared :=
  if frame.holds then { shared with active := sizeSub shared.active 1 } else shared

end Shared

inductive Kind
  | acquired
  | refused
  | released
deriving DecidableEq

def Frame.left (frame : Frame) : List Kind := if frame.holds then [.released] else []

/-- The caller goes on. -/
def resume : List Frame → List Frame
  | frame :: rest => { frame with point := .called } :: rest
  | [] => []

/-- One step of one call. -/
inductive Turn : Shared → Call → List Kind → Shared → Call → Prop
  | gotPolicy {shared shared' : Shared} {function : Function} {rest : List Frame} {policy : Policy}
    (getenv : Bytes → Option Bytes) : shared.getPolicy getenv = .ok (policy, shared') →
    Turn shared ⟨none, ⟨function, .policy⟩ :: rest⟩ []
      shared' ⟨none, ⟨function, .load policy.jobs.val⟩ :: rest⟩
  | noPolicy {shared : Shared} {function : Function} {rest : List Frame} {message : Bytes}
    (getenv : Bytes → Option Bytes) : shared.getPolicy getenv = .error message →
    Turn shared ⟨none, ⟨function, .policy⟩ :: rest⟩ []
      shared ⟨some (.runtimeError message), ⟨function, .policy⟩ :: rest⟩
  | load {shared : Shared} {function : Function} {rest : List Frame} {limit : Nat} :
    Turn shared ⟨none, ⟨function, .load limit⟩ :: rest⟩ []
      shared ⟨none, ⟨function, .compare limit shared.active⟩ :: rest⟩
  | busy {shared : Shared} {function : Function} {rest : List Frame} {limit current : Nat} :
    limit ≤ current →
    Turn shared ⟨none, ⟨function, .compare limit current⟩ :: rest⟩ [.refused]
      shared ⟨some .busy, ⟨function, .compare limit current⟩ :: rest⟩
  | free {shared : Shared} {function : Function} {rest : List Frame} {limit current : Nat} :
    current < limit →
    Turn shared ⟨none, ⟨function, .compare limit current⟩ :: rest⟩ []
      shared ⟨none, ⟨function, .exchange limit current⟩ :: rest⟩
  | exchanged {shared : Shared} {function : Function} {rest : List Frame} {limit current : Nat} :
    shared.active = current →
    Turn shared ⟨none, ⟨function, .exchange limit current⟩ :: rest⟩ [.acquired]
      { shared with active := sizeAdd current 1 } ⟨none, ⟨function, .body⟩ :: rest⟩
  -- The exchange may fail where the values agree.
  | notExchanged {shared : Shared} {function : Function} {rest : List Frame} {limit current : Nat} :
    Turn shared ⟨none, ⟨function, .exchange limit current⟩ :: rest⟩ []
      shared ⟨none, ⟨function, .compare limit shared.active⟩ :: rest⟩
  | call {shared : Shared} {function callee : Function} {rest : List Frame} :
    function.callee = some callee →
    Turn shared ⟨none, ⟨function, .body⟩ :: rest⟩ []
      shared ⟨none, .enter callee :: ⟨function, .calling⟩ :: rest⟩
  | fail {shared : Shared} {function : Function} {point : Point} {rest : List Frame} {exception : Exception} :
    exception.OfBody → point = .body ∨ point = .called →
    Turn shared ⟨none, ⟨function, point⟩ :: rest⟩ []
      shared ⟨some exception, ⟨function, point⟩ :: rest⟩
  | done {shared : Shared} {function : Function} {point : Point} {rest : List Frame} :
    (point = .body ∧ function.callee = none) ∨ point = .called →
    Turn shared ⟨none, ⟨function, point⟩ :: rest⟩ (Frame.left ⟨function, point⟩)
      (shared.leave ⟨function, point⟩) ⟨none, resume rest⟩
  | unwind {shared : Shared} {exception : Exception} {frame : Frame} {rest : List Frame} :
    Turn shared ⟨some exception, frame :: rest⟩ frame.left
      (shared.leave frame) ⟨some exception, rest⟩

/-! ## The process -/

/-- What the call of this number did with its permit. -/
structure Event where
  call : Nat
  kind : Kind
deriving DecidableEq

structure State where
  shared : Shared := {}
  calls : List Call := []

inductive Step : State → List Event → State → Prop
  | enter {s : State} {function : Function} : function.isPublic = true →
    Step s [] { s with calls := s.calls ++ [⟨none, [.enter function]⟩] }
  | turn {s : State} {i : Nat} {call call' : Call} {kinds : List Kind} {shared' : Shared} :
    s.calls[i]? = some call → Turn s.shared call kinds shared' call' →
    Step s (kinds.map (Event.mk i)) { shared := shared', calls := s.calls.set i call' }

/-! ## The stack of a call -/

theorem Function.callee_spec {function callee : Function} (calls : function.callee = some callee) :
    (callee.isPublic = false ↔ function.declaresPermit = true ∨ function.isPublic = false) ∧
      (callee.declaresPermit = true → function.declaresPermit = false ∧ function.isPublic = true) := by
  cases function <;> cases calls <;> decide

/-- A function that is not public runs under the permit of its caller. -/
theorem Function.isPublic_of_declaresPermit {function : Function} (declares : function.declaresPermit = true) :
    function.isPublic = true := by
  cases function <;> first | rfl | cases declares

def Frame.Valid (frame : Frame) : Prop :=
  frame.point.isAcquiring = true → frame.function.declaresPermit = true

theorem Frame.enter_valid (function : Function) : (Frame.enter function).Valid := by
  unfold Frame.Valid Frame.enter
  cases function.declaresPermit
  · exact fun acquiring => acquiring
  · exact fun _ => rfl

theorem Frame.holds_enter (function : Function) : (Frame.enter function).holds = false := by
  unfold Frame.holds Frame.enter
  cases function.declaresPermit <;> rfl

/-- Every frame was called by the one below it, the last is of an entry point. -/
inductive Stack : List Frame → Prop
  | ended : Stack []
  | entry {frame : Frame} : frame.function.isPublic = true → frame.Valid → Stack [frame]
  | inner {frame caller : Frame} {rest : List Frame} : Stack (caller :: rest) → caller.point = .calling →
    caller.function.callee = some frame.function → frame.Valid → Stack (frame :: caller :: rest)

namespace Stack

variable {frame : Frame} {rest : List Frame}

theorem top_valid (stack : Stack (frame :: rest)) : frame.Valid := by
  cases stack with
  | entry _ valid => exact valid
  | inner _ _ _ valid => exact valid

/-- The function that runs may go to another point. -/
theorem move (stack : Stack (frame :: rest)) {frame' : Frame} (same : frame'.function = frame.function)
    (valid : frame'.Valid) : Stack (frame' :: rest) := by
  cases stack with
  | entry isPublic _ => exact .entry (same ▸ isPublic) valid
  | inner below calling calls _ => exact .inner below calling (same ▸ calls) valid

theorem tail (stack : Stack (frame :: rest)) : Stack rest := by
  cases stack with
  | entry => exact .ended
  | inner below => exact below

theorem caller_calling {caller : Frame} (stack : Stack (frame :: caller :: rest)) : caller.point = .calling := by
  cases stack with
  | inner _ calling _ _ => exact calling

/-- Below a function there is one permit if it is not public, and else none. -/
theorem count_below (stack : Stack (frame :: rest)) :
    rest.countP Frame.holds = if frame.function.isPublic then 0 else 1 := by
  induction rest generalizing frame with
  | nil =>
      cases stack with
      | entry isPublic _ => rw [if_pos isPublic, List.countP_nil]
  | cons caller rest ih =>
      have calling := stack.caller_calling
      cases stack with
      | inner below _ calls _ =>
          have count := ih below
          obtain ⟨guarded, -⟩ := Function.callee_spec calls
          have holds : caller.holds = caller.function.declaresPermit := by
            rw [Frame.holds, calling]
            exact Bool.and_true _
          rw [List.countP_cons, count, holds]
          cases isPublic : frame.function.isPublic with
          | false =>
              rcases guarded.mp isPublic with declares | notPublic
              · rw [declares, Function.isPublic_of_declaresPermit declares]
                rfl
              · have plain : caller.function.declaresPermit = false :=
                  Bool.eq_false_iff.mpr fun declares =>
                    absurd (Function.isPublic_of_declaresPermit declares) (by simp [notPublic])
                rw [plain, notPublic]
                rfl
          | true =>
              have neither : ¬ (caller.function.declaresPermit = true ∨ caller.function.isPublic = false) :=
                fun either => by simpa [isPublic] using guarded.mpr either
              simp only [not_or, Bool.not_eq_true, Bool.not_eq_false] at neither
              rw [neither.1, neither.2]
              rfl

/-- A function that is not public finds a permit below it. -/
theorem permits_pos {stack : List Frame} (valid : Stack stack) (inside : frame ∈ stack)
    (guarded : frame.function.isPublic = false) : 0 < stack.countP Frame.holds := by
  induction stack with
  | nil => cases inside
  | cons top rest ih =>
      rw [List.countP_cons]
      rcases List.mem_cons.mp inside with rfl | deeper
      · rw [valid.count_below, guarded]
        exact Nat.add_pos_left Nat.one_pos _
      · exact Nat.add_pos_left (ih valid.tail deeper) _

/-- Only the innermost function is in the constructor of a permit. -/
theorem top_of_acquiring {stack : List Frame} (valid : Stack stack) (inside : frame ∈ stack)
    (acquiring : frame.point.isAcquiring = true) : ∃ rest, stack = frame :: rest := by
  induction valid with
  | ended => cases inside
  | entry =>
      obtain rfl := List.mem_singleton.mp inside
      exact ⟨[], rfl⟩
  | inner below calling _ _ ih =>
      rcases List.mem_cons.mp inside with rfl | deeper
      · exact ⟨_, rfl⟩
      · obtain ⟨rest, same⟩ := ih deeper
        cases same
        rw [calling] at acquiring
        cases acquiring

end Stack

/-! ## What a step does to a call -/

section turn

variable {shared shared' : Shared} {call call' : Call} {kinds : List Kind}

theorem getPolicy_ok {getenv : Bytes → Option Bytes} {policy : Policy}
    (got : shared.getPolicy getenv = .ok (policy, shared')) :
    shared'.active = shared.active ∧ shared'.policy = some policy ∧
      (shared.policy = none ∨ shared.policy = some policy) := by
  unfold Shared.getPolicy at got
  split at got
  · next known =>
      cases got
      exact ⟨rfl, known, .inr known⟩
  · next unread =>
      cases read : Image.getPolicy getenv with
      | error message =>
          rw [read] at got
          cases got
      | ok policy =>
          rw [read] at got
          cases got
          exact ⟨rfl, rfl, .inl unread⟩

/-- The policy is read once. -/
theorem Turn.policy_eq (turn : Turn shared call kinds shared' call') {policy : Policy}
    (known : shared.policy = some policy) : shared'.policy = some policy := by
  have left (frame : Frame) : (shared.leave frame).policy = some policy := by
    unfold Shared.leave
    split <;> exact known
  cases turn with
  | gotPolicy getenv got =>
      obtain ⟨-, read, same⟩ := getPolicy_ok got
      rcases same with unread | same
      · rw [known] at unread
        cases unread
      · rw [read, ← same, known]
  | done => exact left _
  | unwind => exact left _
  | _ => exact known

theorem count_resume {frame : Frame} {rest : List Frame} (stack : Stack (frame :: rest)) :
    (resume rest).countP Frame.holds = rest.countP Frame.holds := by
  cases rest with
  | nil => rfl
  | cons caller rest =>
      rw [resume, List.countP_cons, List.countP_cons, Frame.holds, Frame.holds, stack.caller_calling]
      rfl

/-- The caller that goes on is past its call. -/
theorem point_of_resume {rest rest' : List Frame} {frame : Frame} (top : resume rest = frame :: rest') :
    frame.point = .called := by
  cases rest with
  | nil => cases top
  | cons caller rest =>
      cases top
      rfl

theorem Turn.stack (turn : Turn shared call kinds shared' call') (stack : Stack call.stack) :
    Stack call'.stack := by
  have acquires {function : Function} {point : Point} {rest : List Frame}
      (top : Stack (⟨function, point⟩ :: rest)) (acquiring : point.isAcquiring = true) (point' : Point) :
      Stack (⟨function, point'⟩ :: rest) :=
    top.move rfl fun _ => top.top_valid acquiring
  cases turn with
  | gotPolicy | load | free | exchanged | notExchanged => exact acquires stack rfl _
  | noPolicy | busy | fail => exact stack
  | call calls => exact .inner (stack.move rfl nofun) rfl calls (Frame.enter_valid _)
  | unwind => exact stack.tail
  | done =>
      cases stack with
      | entry => exact .ended
      | inner below => exact below.move rfl nofun

/-- The permits of a call follow what it shows. -/
theorem Turn.permits (turn : Turn shared call kinds shared' call') (stack : Stack call.stack) :
    call'.permits + kinds.count .released = call.permits + kinds.count .acquired := by
  have left (frame : Frame) : frame.left.count .released = (if frame.holds = true then 1 else 0) ∧
      frame.left.count .acquired = 0 := by
    unfold Frame.left
    split <;> decide
  unfold Call.permits
  cases turn with
  | gotPolicy | load | free | notExchanged =>
      simp [Frame.holds, Point.isAcquiring]
  | noPolicy | busy | fail => simp
  | exchanged =>
      have declares := stack.top_valid rfl
      simp only at declares
      simp [Frame.holds, Point.isAcquiring, declares]
  | call =>
      rw [List.countP_cons, Frame.holds_enter, List.countP_cons, List.countP_cons]
      rfl
  | done =>
      obtain ⟨released, acquired⟩ := left ⟨_, _⟩
      rw [released, acquired, count_resume stack, List.countP_cons]
      rfl
  | unwind =>
      obtain ⟨released, acquired⟩ := left _
      rw [released, acquired, List.countP_cons]
      rfl

/-- What a call knows of the limit. -/
def Point.Reads (policy : Option Policy) : Point → Prop
  | .load limit | .compare limit _ => ∃ p, policy = some p ∧ p.jobs.val = limit
  | .exchange limit current => (∃ p, policy = some p ∧ p.jobs.val = limit) ∧ current < limit
  | _ => True

/-- The permit of the call is still to come. -/
def Frame.Fresh (frame : Frame) : Prop :=
  frame.point.isAcquiring = true ∨
    (frame.point = .body ∧ frame.function.declaresPermit = false ∧ frame.function.isPublic = true)

/-- A function that has called has had its chance. -/
theorem Frame.Fresh.not_called {frame : Frame} (fresh : frame.Fresh) :
    frame.point ≠ .calling ∧ frame.point ≠ .called := by
  constructor
  · intro calling
    rw [Frame.Fresh, calling] at fresh
    rcases fresh with acquiring | ⟨body, -⟩
    · cases acquiring
    · cases body
  · intro called
    rw [Frame.Fresh, called] at fresh
    rcases fresh with acquiring | ⟨body, -⟩
    · cases acquiring
    · cases body

/-- A call between two of its steps, with the number of permits that it took and gave back. -/
structure Call.Inv (policy : Option Policy) (acquired released : Nat) (call : Call) : Prop where
  stack : Stack call.stack
  balance : acquired = released + call.permits
  once : acquired ≤ 1
  fresh : ∀ frame rest, call.stack = frame :: rest → frame.Fresh → acquired = 0
  reads : ∀ frame rest, call.stack = frame :: rest → frame.point.Reads policy

theorem Point.Reads.mono {policy policy' : Option Policy} (known : ∀ p, policy = some p → policy' = some p)
    {point : Point} (reads : point.Reads policy) : point.Reads policy' := by
  cases point with
  | load | compare =>
      obtain ⟨p, read, eq⟩ := reads
      exact ⟨p, known p read, eq⟩
  | exchange =>
      obtain ⟨⟨p, read, eq⟩, small⟩ := reads
      exact ⟨⟨p, known p read, eq⟩, small⟩
  | _ => trivial

/-- The counter follows what a step shows. -/
theorem Turn.active (turn : Turn shared call kinds shared' call') {acquired released : Nat}
    (inv : call.Inv shared.policy acquired released) (covered : call.permits ≤ shared.active) :
    shared'.active + kinds.count .released = shared.active + kinds.count .acquired := by
  have left {thrown : Option Exception} {frame : Frame} {rest : List Frame}
      (covered : Call.permits ⟨thrown, frame :: rest⟩ ≤ shared.active) :
      (shared.leave frame).active + frame.left.count .released =
        shared.active + frame.left.count .acquired := by
    unfold Call.permits at covered
    rw [List.countP_cons] at covered
    unfold Shared.leave Frame.left
    split
    · next holds =>
        rw [if_pos holds] at covered
        have one : 1 ≤ shared.active := by omega
        change sizeSub shared.active 1 + 1 = shared.active + 0
        rw [sizeSub_eq one]
        omega
    · rfl
  cases turn with
  | gotPolicy getenv got => exact congrArg (· + 0) (getPolicy_ok got).1
  | exchanged same =>
      obtain ⟨⟨policy, -, rfl⟩, small⟩ := inv.reads _ _ rfl
      have room := policy.jobs.lt
      change sizeAdd _ 1 + 0 = shared.active + 1
      rw [sizeAdd_eq (by omega), same]
  | done => exact left covered
  | unwind => exact left covered
  | _ => rfl

theorem Turn.reads (turn : Turn shared call kinds shared' call') {acquired released : Nat}
    (inv : call.Inv shared.policy acquired released) {frame : Frame} {rest : List Frame}
    (top : call'.stack = frame :: rest) : frame.point.Reads shared'.policy := by
  cases turn with
  | gotPolicy getenv got =>
      cases top
      exact ⟨_, (getPolicy_ok got).2.1, rfl⟩
  | noPolicy =>
      cases top
      trivial
  | load | busy | fail =>
      have reads := inv.reads _ _ rfl
      cases top
      exact reads
  | free small =>
      cases top
      exact ⟨inv.reads _ _ rfl, small⟩
  | exchanged =>
      cases top
      trivial
  | notExchanged =>
      cases top
      exact (inv.reads _ _ rfl).1
  | call =>
      cases top
      unfold Frame.enter
      dsimp only
      split <;> trivial
  | done =>
      rw [point_of_resume top]
      trivial
  | unwind =>
      cases top
      rw [inv.stack.caller_calling]
      trivial

/-- A call acquires while its permit is still to come. -/
theorem Turn.fresh (turn : Turn shared call kinds shared' call') {acquired released : Nat}
    (inv : call.Inv shared.policy acquired released) :
    acquired + kinds.count .acquired ≤ 1 ∧ ∀ frame rest, call'.stack = frame :: rest → frame.Fresh →
      acquired + kinds.count .acquired = 0 := by
  have left (frame : Frame) : frame.left.count .acquired = 0 := by
    unfold Frame.left
    split <;> rfl
  cases turn with
  | gotPolicy | noPolicy | load | busy | free | notExchanged =>
      have zero := inv.fresh _ _ rfl (.inl rfl)
      subst zero
      exact ⟨Nat.zero_le 1, fun _ _ _ _ => rfl⟩
  | exchanged =>
      have zero := inv.fresh _ _ rfl (.inl rfl)
      have declares := inv.stack.top_valid rfl
      subst zero
      refine ⟨Nat.le_refl 1, fun frame rest top fresh => ?_⟩
      cases top
      rcases fresh with acquiring | ⟨-, plain, -⟩
      · cases acquiring
      · rw [plain] at declares
        cases declares
  | call calls =>
      refine ⟨inv.once, fun frame rest top fresh => ?_⟩
      cases top
      obtain ⟨guarded, nested⟩ := Function.callee_spec calls
      refine inv.fresh _ _ rfl (.inr ⟨rfl, ?_⟩)
      rcases fresh with acquiring | ⟨-, -, isPublic⟩
      · exact nested (Frame.enter_valid _ acquiring)
      · have neither : ¬ (_ ∨ _) := fun either =>
          absurd (isPublic.symm.trans (guarded.mpr either)) (by decide)
        simpa only [not_or, Bool.not_eq_true, Bool.not_eq_false] using neither
  | fail => exact ⟨inv.once, inv.fresh⟩
  | done =>
      rw [left]
      exact ⟨inv.once, fun frame rest top fresh => absurd (point_of_resume top) fresh.not_called.2⟩
  | unwind =>
      rw [left]
      refine ⟨inv.once, fun frame rest top fresh => ?_⟩
      cases top
      exact absurd inv.stack.caller_calling fresh.not_called.1

/-- A permit is taken only below the limit. -/
theorem Turn.room (turn : Turn shared call kinds shared' call') {acquired released : Nat}
    (inv : call.Inv shared.policy acquired released) : kinds.count .acquired = 0 ∨
      kinds.count .acquired = 1 ∧ ∃ policy, shared.policy = some policy ∧ shared.active < policy.jobs.val := by
  cases turn with
  | exchanged same =>
      obtain ⟨⟨policy, read, rfl⟩, small⟩ := inv.reads _ _ rfl
      exact .inr ⟨rfl, policy, read, same ▸ small⟩
  | done | unwind =>
      apply Or.inl
      unfold Frame.left
      split <;> rfl
  | _ => exact .inl rfl

theorem Turn.bounded (turn : Turn shared call kinds shared' call') {acquired released : Nat}
    (inv : call.Inv shared.policy acquired released) (covered : call.permits ≤ shared.active)
    (bounded : ∀ policy, shared.policy = some policy → shared.active ≤ policy.jobs.val)
    (unread : shared.policy = none → shared.active = 0) {policy : Policy}
    (read : shared'.policy = some policy) : shared'.active ≤ policy.jobs.val := by
  have moved := turn.active inv covered
  have before : shared.policy = none ∨ shared.policy = some policy := by
    cases known : shared.policy with
    | none => exact .inl rfl
    | some policy' => exact .inr ((turn.policy_eq known).symm.trans read)
  have bound : shared.active ≤ policy.jobs.val := by
    rcases before with none | known
    · rw [unread none]
      exact Nat.zero_le _
    · exact bounded policy known
  rcases turn.room inv with none | ⟨one, policy', known, small⟩
  · omega
  · rw [known] at before
    rcases before with none | same
    · cases none
    · cases same
      omega

theorem Turn.unread (turn : Turn shared call kinds shared' call') {acquired released : Nat}
    (inv : call.Inv shared.policy acquired released) (covered : call.permits ≤ shared.active)
    (unread : shared.policy = none → shared.active = 0) (none : shared'.policy = none) :
    shared'.active = 0 := by
  have moved := turn.active inv covered
  have before : shared.policy = .none := by
    cases known : shared.policy with
    | none => rfl
    | some policy => exact absurd ((turn.policy_eq known).symm.trans none) nofun
  have zero := unread before
  rcases turn.room inv with none | ⟨-, policy, known, -⟩
  · omega
  · rw [before] at known
    cases known

/-- Only a refusal throws the status 503. -/
theorem Turn.refuses (turn : Turn shared call kinds shared' call') {message : Bytes}
    (thrown : call'.thrown = some (.error 503 message)) :
    call.thrown = some (.error 503 message) ∨ .refused ∈ kinds := by
  cases turn with
  | busy => exact .inr List.mem_cons_self
  | unwind => exact .inl thrown
  | fail ofBody =>
      cases thrown
      rcases ofBody with wrong | wrong
      · cases wrong
      · cases wrong
  | _ => cases thrown

theorem Call.Inv.turn {acquired released : Nat} (inv : call.Inv shared.policy acquired released)
    (turn : Turn shared call kinds shared' call') :
    call'.Inv shared'.policy (acquired + kinds.count .acquired) (released + kinds.count .released) := by
  have permits := turn.permits inv.stack
  have balance := inv.balance
  obtain ⟨once, fresh⟩ := turn.fresh inv
  exact ⟨turn.stack inv.stack, by omega, once, fresh, fun _ _ top => turn.reads inv top⟩

end turn

/-! ## Across all calls -/

/-- The permits of the calls together. -/
def permits (calls : List Call) : Nat := (calls.map Call.permits).sum

theorem permits_set {calls : List Call} {i : Nat} {call : Call} (here : calls[i]? = some call) (call' : Call) :
    permits (calls.set i call') + call.permits = permits calls + call'.permits := by
  unfold permits
  induction calls generalizing i with
  | nil => cases here
  | cons first calls ih =>
      cases i with
      | zero =>
          cases here
          rw [List.set_cons_zero, List.map_cons, List.map_cons, List.sum_cons, List.sum_cons]
          omega
      | succ i =>
          have later := ih here
          rw [List.set_cons_succ, List.map_cons, List.map_cons, List.sum_cons, List.sum_cons]
          omega

theorem le_permits {calls : List Call} {i : Nat} {call : Call} (here : calls[i]? = some call) :
    call.permits ≤ permits calls := by
  have removed := permits_set here ⟨none, []⟩
  change _ = _ + 0 at removed
  omega

/-- The process after a run that shows `tr`. -/
structure Inv (tr : List Event) (s : State) : Prop where
  active : s.shared.active = permits s.calls
  bounded : ∀ policy, s.shared.policy = some policy → s.shared.active ≤ policy.jobs.val
  unread : s.shared.policy = none → s.shared.active = 0
  calls : ∀ (i : Nat) (call : Call), s.calls[i]? = some call →
    call.Inv s.shared.policy (tr.count ⟨i, .acquired⟩) (tr.count ⟨i, .released⟩)
  later : ∀ event ∈ tr, event.call < s.calls.length
  refused : ∀ (i : Nat) (call : Call) (message : Bytes), s.calls[i]? = some call →
    call.thrown = some (.error 503 message) → ⟨i, .refused⟩ ∈ tr

theorem count_events (i j : Nat) (kind : Kind) (kinds : List Kind) :
    (kinds.map (Event.mk i)).count ⟨j, kind⟩ = if i = j then kinds.count kind else 0 := by
  split
  · next same =>
      subst same
      exact List.count_map_of_injective kinds (Event.mk i) (fun _ _ eq => (Event.mk.inj eq).2) kind
  · next other =>
      refine List.count_eq_zero.mpr fun member => ?_
      obtain ⟨_, -, eq⟩ := List.mem_map.mp member
      exact other (Event.mk.inj eq).1

/-- The calls after a new one has begun. -/
theorem getElem?_begun {calls : List Call} {i : Nat} {begun call : Call}
    (here : (calls ++ [begun])[i]? = some call) : calls[i]? = some call ∨ i = calls.length ∧ begun = call := by
  rcases Nat.lt_or_ge i calls.length with old | new
  · rw [List.getElem?_append_left old] at here
    exact .inl here
  · rw [List.getElem?_append_right new, List.getElem?_singleton] at here
    split at here
    · next zero => exact .inr ⟨Nat.le_antisymm (Nat.sub_eq_zero_iff_le.mp zero) new, Option.some.inj here⟩
    · cases here

theorem Call.Inv.mono {policy policy' : Option Policy} {acquired released : Nat} {call : Call}
    (inv : call.Inv policy acquired released) (known : ∀ p, policy = some p → policy' = some p) :
    call.Inv policy' acquired released :=
  { inv with reads := fun frame rest top => (inv.reads frame rest top).mono known }

/-- A call that only begins. -/
theorem Call.Inv.enter (policy : Option Policy) {function : Function} (isPublic : function.isPublic = true) :
    Call.Inv policy 0 0 ⟨none, [.enter function]⟩ where
  stack := .entry isPublic (Frame.enter_valid _)
  balance := by
    rw [Call.permits, List.countP_singleton, Frame.holds_enter]
    rfl
  once := Nat.zero_le 1
  fresh _ _ _ _ := rfl
  reads frame rest top := by
    cases top
    unfold Frame.enter
    dsimp only
    split <;> trivial

/-- The calls after the call `i` has moved: it, and the others as they were. -/
theorem getElem?_moved {calls : List Call} {i j : Nat} {call call' other : Call} (here : calls[i]? = some call)
    (there : (calls.set i call')[j]? = some other) : (i = j ∧ call' = other) ∨ (i ≠ j ∧ calls[j]? = some other) := by
  by_cases same : i = j
  · subst same
    rw [List.getElem?_set_self (List.getElem?_eq_some_iff.mp here).1] at there
    exact .inl ⟨rfl, Option.some.inj there⟩
  · rw [List.getElem?_set_ne same] at there
    exact .inr ⟨same, there⟩

theorem Inv.enter {tr : List Event} {s : State} (inv : Inv tr s) {function : Function}
    (isPublic : function.isPublic = true) :
    Inv tr { s with calls := s.calls ++ [⟨none, [.enter function]⟩] } where
  active := by
    have begun := Call.Inv.enter s.shared.policy isPublic
    unfold permits
    rw [List.map_append, List.sum_append, List.map_singleton, List.sum_singleton,
      (Nat.zero_add _).symm.trans begun.balance.symm]
    exact inv.active
  bounded := inv.bounded
  unread := inv.unread
  calls i call here := by
    have none (kind : Kind) : tr.count ⟨s.calls.length, kind⟩ = 0 :=
      List.count_eq_zero.mpr fun member => Nat.lt_irrefl _ (inv.later _ member)
    rcases getElem?_begun here with old | ⟨rfl, rfl⟩
    · exact inv.calls i call old
    · rw [none, none]
      exact .enter s.shared.policy isPublic
  later event shown := by
    rw [List.length_append]
    exact Nat.lt_add_right 1 (inv.later event shown)
  refused i call message here thrown := by
    rcases getElem?_begun here with old | ⟨-, rfl⟩
    · exact inv.refused i call message old thrown
    · cases thrown

theorem Inv.turn {tr : List Event} {s : State} (inv : Inv tr s) {i : Nat} {call call' : Call}
    {kinds : List Kind} {shared' : Shared} (here : s.calls[i]? = some call)
    (turn : Turn s.shared call kinds shared' call') :
    Inv (tr ++ kinds.map (Event.mk i)) { shared := shared', calls := s.calls.set i call' } := by
  have own := inv.calls i call here
  have covered : call.permits ≤ s.shared.active := (le_permits here).trans_eq inv.active.symm
  have known : ∀ p, s.shared.policy = some p → shared'.policy = some p := fun _ => turn.policy_eq
  refine ⟨?_, fun policy read => turn.bounded own covered inv.bounded inv.unread read,
    fun unread => turn.unread own covered inv.unread unread, fun j other there => ?_, fun event shown => ?_,
    fun j other message there thrown => ?_⟩
  · have moved := turn.active own covered
    have kept := turn.permits own.stack
    have total := permits_set here call'
    have active := inv.active
    change shared'.active = permits (s.calls.set i call')
    omega
  · rw [List.count_append, List.count_append, count_events, count_events]
    rcases getElem?_moved here there with ⟨rfl, rfl⟩ | ⟨apart, before⟩
    · rw [if_pos rfl, if_pos rfl]
      exact own.turn turn
    · rw [if_neg apart, if_neg apart]
      exact (inv.calls j other before).mono known
  · rw [List.length_set]
    rcases List.mem_append.mp shown with before | now
    · exact inv.later event before
    · obtain ⟨kind, -, rfl⟩ := List.mem_map.mp now
      exact (List.getElem?_eq_some_iff.mp here).1
  · rcases getElem?_moved here there with ⟨rfl, rfl⟩ | ⟨-, before⟩
    · rcases turn.refuses thrown with before | now
      · exact List.mem_append_left _ (inv.refused i call message here before)
      · exact List.mem_append_right _ (List.mem_map_of_mem now)
    · exact List.mem_append_left _ (inv.refused j other message before thrown)

theorem Inv.step {tr out : List Event} {s s' : State} (inv : Inv tr s) (step : Step s out s') :
    Inv (tr ++ out) s' := by
  cases step with
  | enter isPublic =>
      rw [List.append_nil]
      exact inv.enter isPublic
  | turn here turn => exact inv.turn here turn

/-- The counter moves by what a step shows. -/
theorem Inv.moved {tr out : List Event} {s s' : State} (inv : Inv tr s) (step : Step s out s') :
    s'.shared.active + (out.map Event.kind).count .released =
      s.shared.active + (out.map Event.kind).count .acquired := by
  cases step with
  | enter => rfl
  | turn here turn =>
      next i call call' kinds shared' =>
      have kinds_eq : (kinds.map (Event.mk i)).map Event.kind = kinds := by
        rw [List.map_map]
        exact List.map_id kinds
      rw [kinds_eq]
      exact turn.active (inv.calls i call here) ((le_permits here).trans_eq inv.active.symm)

theorem permits_of_ended {calls : List Call} (ended : ∀ call ∈ calls, call.stack = []) : permits calls = 0 := by
  induction calls with
  | nil => rfl
  | cons call calls ih =>
      have none : call.permits = 0 := by
        rw [Call.permits, ended call List.mem_cons_self, List.countP_nil]
      have later := ih fun call inside => ended call (List.mem_cons_of_mem _ inside)
      unfold permits at later ⊢
      rw [List.map_cons, List.sum_cons, none, later]

theorem Inv.start : Inv [] {} where
  active := rfl
  bounded _ _ := Nat.zero_le _
  unread _ := rfl
  calls _ _ here := by cases here
  later _ shown := by cases shown
  refused _ _ _ here := by cases here

theorem Inv.run {tr : List Event} {s : State} (run : Run Step {} tr s) : Inv tr s :=
  Run.invariant (I := fun s tr => Inv tr s) Inv.start Inv.step run

/-! ## Who is refused -/

/-- The call of this number is in the constructor of a permit. -/
def Acquires (i : Nat) (s : State) : Prop := ∃ call, s.calls[i]? = some call ∧ call.Acquiring

/-- If the call `i` acquires, fewer jobs are taken than the policy allows. -/
def Roomy (i : Nat) (s : State) : Prop :=
  Acquires i s → ∀ policy, s.shared.policy = some policy → s.shared.active < policy.jobs.val

/-- A step, of whichever call, to a state that has room for the call `i`. -/
def RoomyStep (i : Nat) (s : State) (out : List Event) (s' : State) : Prop := Step s out s' ∧ Roomy i s'

/-- The limit and the count that a point goes by. -/
def Point.seen : Point → Option (Nat × Nat)
  | .compare limit current | .exchange limit current => some (limit, current)
  | _ => none

theorem Point.isAcquiring_of_seen {point : Point} {pair : Nat × Nat} (seen : point.seen = some pair) :
    point.isAcquiring = true := by
  cases point with
  | compare | exchange => rfl
  | _ => cases seen

theorem Frame.seen_enter (function : Function) : (Frame.enter function).point.seen = none := by
  unfold Frame.enter
  dsimp only
  split <;> rfl

section refused

variable {i limit current : Nat} {tr : List Event} {s : State} {shared shared' : Shared} {call call' : Call}
  {kinds : List Kind}

/-- What a call goes by after a step it has just read, or went by before. -/
theorem Turn.seen (turn : Turn shared call kinds shared' call') {acquired released : Nat}
    (inv : call.Inv shared.policy acquired released) {frame : Frame} {rest : List Frame}
    (top : call' = ⟨none, frame :: rest⟩) (seen : frame.point.seen = some (limit, current)) :
    (∃ policy, shared'.policy = some policy ∧ policy.jobs.val = limit ∧ shared'.active = current) ∨
      ∃ frame' rest', call = ⟨none, frame' :: rest'⟩ ∧ frame'.point.seen = some (limit, current) := by
  cases turn with
  | load =>
      obtain ⟨policy, read, eq⟩ := inv.reads _ _ rfl
      cases top
      cases seen
      exact .inl ⟨policy, read, eq, rfl⟩
  | notExchanged =>
      obtain ⟨⟨policy, read, eq⟩, -⟩ := inv.reads _ _ rfl
      cases top
      cases seen
      exact .inl ⟨policy, read, eq, rfl⟩
  | free =>
      cases top
      exact .inr ⟨_, _, rfl, seen⟩
  | gotPolicy | exchanged =>
      cases top
      cases seen
  | call =>
      cases top
      rw [Frame.seen_enter] at seen
      cases seen
  | done =>
      rw [point_of_resume (Call.mk.inj top).2] at seen
      cases seen
  | noPolicy | busy | fail | unwind => cases top

/-- Where there was room all the time, a running call goes by a count below the limit. -/
theorem lt_of_seen (run : Run (RoomyStep i) {} tr s) {frame : Frame} {rest : List Frame}
    (here : s.calls[i]? = some ⟨none, frame :: rest⟩) (seen : frame.point.seen = some (limit, current)) :
    current < limit := by
  induction run generalizing frame rest with
  | refl => cases here
  | tail earlier step ih =>
      have inv := Inv.run (earlier.mono And.left)
      obtain ⟨step, roomy⟩ := step
      have acquires : Acquires i _ := ⟨_, here, rfl, frame, rest, rfl, Point.isAcquiring_of_seen seen⟩
      cases step with
      | enter isPublic =>
          rcases getElem?_begun here with before | ⟨-, eq⟩
          · exact ih before seen
          · cases eq
            rw [Frame.seen_enter] at seen
            cases seen
      | turn at_ turn =>
          next j call call' kinds shared' =>
          rcases getElem?_moved at_ here with ⟨rfl, top⟩ | ⟨-, before⟩
          · rcases turn.seen (inv.calls j call at_) top seen with
              ⟨policy, read, rfl, rfl⟩ | ⟨frame', rest', rfl, seen'⟩
            · exact roomy acquires policy read
            · exact ih at_ seen'
          · exact ih before seen

theorem Turn.refused (turn : Turn shared call kinds shared' call') (shown : .refused ∈ kinds) :
    ∃ function limit current rest, call = ⟨none, ⟨function, .compare limit current⟩ :: rest⟩ ∧
      limit ≤ current := by
  cases turn with
  | busy full => exact ⟨_, _, _, _, rfl, full⟩
  | exchanged => cases List.mem_singleton.mp shown
  | done | unwind =>
      unfold Frame.left at shown
      split at shown
      · cases List.mem_singleton.mp shown
      · cases shown
  | _ => cases shown

/-- A call for which there was room all the time is not refused. -/
theorem not_refused (run : Run (RoomyStep i) {} tr s) : ⟨i, .refused⟩ ∉ tr := by
  induction run with
  | refl => exact List.not_mem_nil
  | tail earlier step ih =>
      intro shown
      rcases List.mem_append.mp shown with before | now
      · exact ih before
      · obtain ⟨step, -⟩ := step
        cases step with
        | enter => cases now
        | turn here turn =>
            obtain ⟨kind, shown, eq⟩ := List.mem_map.mp now
            cases eq
            obtain ⟨function, limit, current, rest, rfl, full⟩ := turn.refused shown
            exact absurd (lt_of_seen earlier here rfl) (Nat.not_lt.mpr full)

end refused

/-! ## The quota -/

/-- What a call is entitled to, from the permits that it took and gave back. -/
theorem Call.Inv.holds_one {policy : Option Policy} {acquired released : Nat} {call : Call}
    (inv : call.Inv policy acquired released) (took : 0 < acquired) (kept : released = 0) : call.permits = 1 := by
  have balance := inv.balance
  have once := inv.once
  omega

/-- A function that needs a permit has it. -/
theorem Call.Inv.guarded {policy : Option Policy} {acquired released : Nat} {call : Call}
    (inv : call.Inv policy acquired released) {frame : Frame} (inside : frame ∈ call.stack)
    (guarded : frame.function.isPublic = false) : 0 < acquired ∧ released = 0 := by
  have some := inv.stack.permits_pos inside guarded
  have balance := inv.balance
  have once := inv.once
  unfold Call.permits at balance
  omega

/-- Once the permit is given back, there is only to return to functions that never had one. -/
theorem Call.Inv.over {policy : Option Policy} {acquired released : Nat} {call : Call}
    (inv : call.Inv policy acquired released) (gave : 0 < released) : call.permits = 0 ∧
      ∀ frame ∈ call.stack, frame.function.isPublic = true ∧ frame.function.declaresPermit = false := by
  have balance := inv.balance
  have once := inv.once
  have none : call.permits = 0 := by omega
  refine ⟨none, fun frame inside => ⟨?_, ?_⟩⟩
  · cases isPublic : frame.function.isPublic with
    | true => rfl
    | false =>
        have some := inv.stack.permits_pos inside isPublic
        exact absurd none (Nat.ne_of_gt some)
  · cases declares : frame.function.declaresPermit with
    | false => rfl
    | true =>
        -- The constructor of its permit is not done, so it is the innermost, and none was taken.
        have without : ¬ frame.holds = true := List.countP_eq_zero.mp none frame inside
        have acquiring : frame.point.isAcquiring = true := by
          simpa [Frame.holds, declares] using without
        obtain ⟨rest, top⟩ := inv.stack.top_of_acquiring inside acquiring
        have zero := inv.fresh frame rest top (.inl acquiring)
        omega

/-- In every run of any calls of the entry points the counter is the number of permits held; it is
within the limit and never wraps.  From the time that a call takes its permit to the time it gives
it back it holds that one, and all its work is done in between.  A call ends with the status 503 only
if it was refused, which it is not in a run that has room whenever it acquires; and nothing is left
counted once all calls have ended. -/
theorem image_jobs {tr : List Event} {s : State} (run : Run Step {} tr s) :
    s.shared.active = permits s.calls ∧
    (∀ policy, s.shared.policy = some policy → s.shared.active ≤ policy.jobs.val) ∧
    (s.shared.policy = none → s.shared.active = 0) ∧
    (∀ i s', Step s [⟨i, .acquired⟩] s' → s'.shared.active = s.shared.active + 1) ∧
    (∀ i s', Step s [⟨i, .released⟩] s' → s'.shared.active + 1 = s.shared.active) ∧
    (∀ (i : Nat) (call : Call), s.calls[i]? = some call →
      (⟨i, .acquired⟩ ∈ tr → ⟨i, .released⟩ ∉ tr → call.permits = 1) ∧
      (∀ frame ∈ call.stack, frame.function.isPublic = false →
        ⟨i, .acquired⟩ ∈ tr ∧ ⟨i, .released⟩ ∉ tr) ∧
      (⟨i, .released⟩ ∈ tr → call.permits = 0 ∧
        ∀ frame ∈ call.stack, frame.function.isPublic = true ∧ frame.function.declaresPermit = false)) ∧
    (∀ (i : Nat) (call : Call) (message : Bytes), s.calls[i]? = some call →
      call.thrown = some (.error 503 message) → ⟨i, .refused⟩ ∈ tr) ∧
    (∀ i, Run (RoomyStep i) {} tr s → ⟨i, .refused⟩ ∉ tr) ∧
    ((∀ call ∈ s.calls, call.stack = []) → s.shared.active = 0) := by
  have inv := Inv.run run
  refine ⟨inv.active, inv.bounded, inv.unread, fun i s' step => ?_, fun i s' step => ?_, fun i call here => ?_,
    inv.refused, fun i roomy => not_refused roomy, fun ended => ?_⟩
  · exact inv.moved step
  · exact inv.moved step
  · have own := inv.calls i call here
    refine ⟨fun took kept => ?_, fun frame inside notPublic => ?_, fun gave => ?_⟩
    · exact own.holds_one (List.count_pos_iff.mpr took) (List.count_eq_zero.mpr kept)
    · obtain ⟨took, kept⟩ := own.guarded inside notPublic
      exact ⟨List.count_pos_iff.mp took, List.count_eq_zero.mp kept⟩
    · exact own.over (List.count_pos_iff.mpr gave)
  · rw [inv.active]
    exact permits_of_ended ended

/-- A call of `PredictFromMat` that has its permit. -/
def matJob : State where
  shared := { active := sizeAdd 0 1, policy := some defaultPolicy }
  calls := [⟨none, [⟨.predictFromMatWithConfidence, .body⟩, ⟨.predictFromMat, .calling⟩]⟩]

theorem matJob_run : Run Step {} [⟨0, .acquired⟩] matJob := by
  have entered : Run Step {} [] { calls := [⟨none, [.enter .predictFromMat]⟩] } := .single (.enter rfl)
  have delegated := entered.tail (.turn (i := 0) rfl (.call rfl))
  have policy := delegated.tail (.turn (i := 0) rfl (.gotPolicy (fun _ => none) rfl))
  have loaded := policy.tail (.turn (i := 0) rfl .load)
  have compared := loaded.tail (.turn (i := 0) rfl (.free (by decide)))
  exact compared.tail (.turn (i := 0) rfl (.exchanged rfl))

theorem matJob_counted : matJob.shared.active = permits matJob.calls ∧
    ∀ call, matJob.calls[0]? = some call → call.permits = 1 := by
  obtain ⟨active, -, -, -, -, calls, -⟩ := image_jobs matJob_run
  exact ⟨active, fun call here => (calls 0 call here).1 (by decide) (by decide)⟩

end AIService.Image.Jobs
