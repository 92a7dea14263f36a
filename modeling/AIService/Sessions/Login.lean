import AIService.Data.Decimal
import AIService.Sessions.Resolution

/-!
# Login, logout and chat requests on shared sessions

`Serving` puts the requests of `ChatLoginHandler`, `ChatLogoutHandler` and `ChatSendHandler`
on top of the session manager.  Every step is one use of a `Session` by one request, or a
step of the manager.  The auto-save of a `setValue` is a step of the manager, for which
nothing here waits.  `Undisturbed` describes the steps that a lock around each login, around
each logout and around the reads of each chat request would permit.
-/

namespace AIService.Login

open Sessions

/-- What `queryUserId` found for the presented password. -/
structure Account where
  userId : Int32
  username : Bytes
  known : userId ≠ -1
deriving DecidableEq

/-- The next use a request makes of its session. -/
inductive Position
  /-- `ChatLoginHandler` calls `setValue` three times. -/
  | setUserId (account : Account)
  | setUsername (account : Account)
  | setIsLoggedIn (account : Account)
  /-- `ChatLogoutHandler` reads the user id, clears the session and destroys it. -/
  | logout
  | clear
  | destroy
  /-- `ChatSendHandler` checks `isLoggedIn` and reads the user id and the name. -/
  | check
  | readUserId
  | readUsername (userId : Int32)
  | done
deriving DecidableEq

namespace Position

/-- Where a request stands when `getSession` returns. -/
def Enters : Position → Prop
  | .setUserId _ | .logout | .check => True
  | _ => False

/-- The next step changes the data. -/
def Writes : Position → Prop
  | .setUserId _ | .setUsername _ | .setIsLoggedIn _ | .clear => True
  | _ => False

/-- A login has written some of its values, and not all. -/
def Writing : Position → Prop
  | .setUsername _ | .setIsLoggedIn _ => True
  | _ => False

/-- A chat request has passed the check and not read everything. -/
def Reading : Position → Prop
  | .readUserId | .readUsername _ => True
  | _ => False

end Position

inductive Event
  /-- `getSession` gave the session `ref` to a request. -/
  | entered (request : Nat) (ref : Ref) (position : Position)
  /-- A request that passed the check acts for this user. -/
  | identified (request : Nat) (ref : Ref) (userId : Int32) (username : Bytes)
deriving DecidableEq

structure Serving where
  sessions : World
  requests : Nat → Option (Ref × Position) := fun _ => none
  next : Nat := 0

namespace Serving

def initial (capacity : Nat) (start : Time) : Serving := { sessions := .initial capacity start }

variable (s : Serving) (n : Nat) (ref : Ref)

def moveTo (position : Position) : Serving :=
  { s with requests := Function.update s.requests n (some (ref, position)) }

/-- The locked part of `setValue`. -/
def setValue (key value : Bytes) : Serving :=
  let sessions := s.sessions.modifyData ref (·.insert key value)
  { s with sessions := { sessions with saving := ref :: sessions.saving } }

def clear : Serving := { s with sessions := s.sessions.modifyData ref fun _ => .empty }

def destroySession : Serving :=
  let id := (s.sessions.heap ref).sessionId
  { s with sessions := { s.sessions with storage := s.sessions.storage.remove id } }

def getValue (key : Bytes) : Bytes := ((s.sessions.heap ref).data.find? key).getD []

/-- The next step of request `n`. -/
def advance : List Event × Serving :=
  match s.requests n with
  | none => ([], s)
  | some (ref, .setUserId account) =>
      ([], (s.setValue ref (bytes "userId") (decimal account.userId.toInt)).moveTo n ref
        (.setUsername account))
  | some (ref, .setUsername account) =>
      ([], (s.setValue ref (bytes "username") account.username).moveTo n ref
        (.setIsLoggedIn account))
  | some (ref, .setIsLoggedIn _) =>
      ([], (s.setValue ref (bytes "isLoggedIn") (bytes "true")).moveTo n ref .done)
  | some (ref, .logout) =>
      match stoi (s.getValue ref (bytes "userId")) with
      | none => ([], s.moveTo n ref .done)
      | some _ => ([], s.moveTo n ref .clear)
  | some (ref, .clear) =>
      ([], (s.clear ref).moveTo n ref .destroy)
  | some (ref, .destroy) => ([], (s.destroySession ref).moveTo n ref .done)
  | some (ref, .check) =>
      if s.getValue ref (bytes "isLoggedIn") = bytes "true" then ([], s.moveTo n ref .readUserId)
      else ([], s.moveTo n ref .done)
  | some (ref, .readUserId) =>
      match stoi (s.getValue ref (bytes "userId")) with
      | none => ([], s.moveTo n ref .done)
      | some userId => ([], s.moveTo n ref (.readUsername userId))
  | some (ref, .readUsername userId) =>
      ([.identified n ref userId (s.getValue ref (bytes "username"))], s.moveTo n ref .done)
  | some (_, .done) => ([], s)

end Serving

/-- The session that a call of `getSession` returns. -/
def returned : Obs → Option Ref
  | .resumed _ _ _ ref _ _ | .issued _ _ ref _ _ => some ref
  | _ => none

/-- One step, of the manager or of a request; `allowed` limits which request may move. -/
inductive Step (maxAge : Time) (allowed : Serving → Nat → Prop) :
    Serving → List Event → Serving → Prop
  /-- The manager works, and leaves what the sessions hold alone. -/
  | manage {s : Serving} {out : List Obs} {sessions : World} :
    Sessions.Step maxAge s.sessions out sessions →
    (∀ ref, (sessions.heap ref).data = (s.sessions.heap ref).data) →
    Step maxAge allowed s [] { s with sessions := sessions }
  | enter {s : Serving} {o : Obs} {sessions : World} {ref : Ref} {position : Position} :
    Sessions.Step maxAge s.sessions [o] sessions → returned o = some ref → position.Enters →
    Step maxAge allowed s [.entered s.next ref position]
      { sessions := sessions, next := s.next + 1,
        requests := Function.update s.requests s.next (some (ref, position)) }
  | request {s : Serving} (n : Nat) :
    allowed s n → Step maxAge allowed s (s.advance n).1 (s.advance n).2

/-- Request `n` writes to its session while no login on it is under way and no chat request
stands between its check and its last read; it checks while no login is under way. -/
def Undisturbed (s : Serving) (n : Nat) : Prop :=
  ∀ ref p m q, s.requests n = some (ref, p) → m ≠ n → s.requests m = some (ref, q) →
    (p.Writes → ¬ q.Writing ∧ ¬ q.Reading) ∧ (p = .check → ¬ q.Writing)

/-- A successful login of `account` on the session `ref`. -/
def LoggedIn (tr : List Event) (ref : Ref) (account : Account) : Prop :=
  ∃ m, .entered m ref (.setUserId account) ∈ tr

/-! ## What the steps do to the data -/

section data

variable {s : Serving} {n : Nat} {ref r : Ref} {key k value : Bytes} {position : Position}

@[simp] theorem getValue_moveTo : (s.moveTo n ref position).getValue r k = s.getValue r k := rfl

theorem getValue_setValue : (s.setValue ref key value).getValue r k =
    if r = ref ∧ k = key then value else s.getValue r k := by
  rcases eq_or_ne r ref with rfl | other
  · simp only [Serving.getValue, Serving.setValue, World.modifyData, Function.update_self, true_and,
      SortedMap.find?_insert, eq_comm (a := key)]
    split <;> rfl
  · simp [Serving.getValue, Serving.setValue, World.modifyData, other]

theorem getValue_clear : (s.clear ref).getValue r k = if r = ref then [] else s.getValue r k := by
  rcases eq_or_ne r ref with rfl | other
  · simp [Serving.getValue, Serving.clear, World.modifyData]
  · simp [Serving.getValue, Serving.clear, World.modifyData, other]

theorem requests_moveTo {m : Nat} : (s.moveTo n ref position).requests m =
    if m = n then some (ref, position) else s.requests m := by
  simp [Serving.moveTo, Function.update_apply]

theorem returned_data {maxAge : Time} {w w' : World} {o : Obs}
    (step : Sessions.Step maxAge w [o] w') (returns : returned o = some ref) :
    (w'.heap r).data = (w.heap r).data := by
  cases step with
  | resume cookie resp later looked =>
      obtain ⟨-, -, rfl⟩ := lookup_some looked
      simp only [Function.update_apply]
      split
      · next same =>
          rw [same]
          rfl
      · rfl
  | issue => rfl
  | _ => cases returns

end data

/-! ## Every value was written by a login -/

def Position.Fits (tr : List Event) (ref : Ref) : Position → Prop
  | .setUserId account | .setUsername account | .setIsLoggedIn account => LoggedIn tr ref account
  | .readUsername userId => ∃ account, LoggedIn tr ref account ∧ account.userId = userId
  | _ => True

structure Known (tr : List Event) (s : Serving) : Prop where
  unborn : ∀ n, s.next ≤ n → s.requests n = none
  fits : ∀ n ref p, s.requests n = some (ref, p) → p.Fits tr ref
  userId : ∀ ref, s.getValue ref (bytes "userId") = [] ∨ ∃ account, LoggedIn tr ref account ∧
    s.getValue ref (bytes "userId") = decimal account.userId.toInt
  username : ∀ ref, s.getValue ref (bytes "username") = [] ∨ ∃ account, LoggedIn tr ref account ∧
    s.getValue ref (bytes "username") = account.username

section known

variable {tr out : List Event} {s s' : Serving} {n : Nat} {ref : Ref} {p p' : Position}

theorem LoggedIn.later {account : Account} (earlier : LoggedIn tr ref account) :
    LoggedIn (tr ++ out) ref account :=
  earlier.imp fun _ member => List.mem_append_left _ member

theorem Position.Fits.later (fits : p.Fits tr ref) : p.Fits (tr ++ out) ref := by
  cases p with
  | setUserId | setUsername | setIsLoggedIn => exact LoggedIn.later fits
  | readUsername => exact Exists.imp (fun _ known => ⟨known.1.later, known.2⟩) fits
  | _ => trivial

theorem Known.later (known : Known tr s) : Known (tr ++ out) s where
  unborn := known.unborn
  fits n ref p stands := (known.fits n ref p stands).later
  userId ref := (known.userId ref).imp_right (Exists.imp fun _ by_ => ⟨by_.1.later, by_.2⟩)
  username ref := (known.username ref).imp_right (Exists.imp fun _ by_ => ⟨by_.1.later, by_.2⟩)

theorem Known.moveTo (known : Known tr s) (stands : s.requests n = some (ref, p))
    (fits : p'.Fits tr ref) : Known tr (s.moveTo n ref p') where
  unborn m late := by
    rw [requests_moveTo, if_neg]
    · exact known.unborn m late
    · rintro rfl
      rw [known.unborn m late] at stands
      cases stands
  fits m r q here := by
    rw [requests_moveTo] at here
    split at here
    · cases here
      exact fits
    · exact known.fits m r q here
  userId := known.userId
  username := known.username

theorem Known.setValue (known : Known tr s) {key value : Bytes}
    (userId : key = bytes "userId" → ∃ account, LoggedIn tr ref account ∧
      value = decimal account.userId.toInt)
    (username : key = bytes "username" → ∃ account, LoggedIn tr ref account ∧
      value = account.username) : Known tr (s.setValue ref key value) where
  unborn := known.unborn
  fits := known.fits
  userId r := by
    rw [getValue_setValue]
    split
    · next same =>
        obtain ⟨rfl, rfl⟩ := same
        exact .inr (userId rfl)
    · exact known.userId r
  username r := by
    rw [getValue_setValue]
    split
    · next same =>
        obtain ⟨rfl, rfl⟩ := same
        exact .inr (username rfl)
    · exact known.username r

theorem Known.clear (known : Known tr s) (ref : Ref) : Known tr (s.clear ref) where
  unborn := known.unborn
  fits := known.fits
  userId r := by
    rw [getValue_clear]
    split
    · exact .inl rfl
    · exact known.userId r
  username r := by
    rw [getValue_clear]
    split
    · exact .inl rfl
    · exact known.username r

/-- The data alone decides what is known of it. -/
theorem Known.withSessions (known : Known tr s) {sessions : World}
    (same : ∀ ref, (sessions.heap ref).data = (s.sessions.heap ref).data) :
    Known tr { s with sessions := sessions } where
  unborn := known.unborn
  fits := known.fits
  userId ref := by
    rw [Serving.getValue, same]
    exact known.userId ref
  username ref := by
    rw [Serving.getValue, same]
    exact known.username ref

theorem Known.advance (known : Known tr s) (n : Nat) : Known tr (s.advance n).2 := by
  unfold Serving.advance
  cases stands : s.requests n with
  | none => exact known
  | some request =>
      obtain ⟨ref, p⟩ := request
      have fits := known.fits n ref p stands
      cases p with
      | setUserId account =>
          exact (known.setValue (fun _ => ⟨account, fits, rfl⟩)
            (fun impossible => absurd impossible (by decide))).moveTo stands fits
      | setUsername account =>
          exact (known.setValue (fun impossible => absurd impossible (by decide))
            (fun _ => ⟨account, fits, rfl⟩)).moveTo stands fits
      | setIsLoggedIn account =>
          exact (known.setValue (fun impossible => absurd impossible (by decide))
            (fun impossible => absurd impossible (by decide))).moveTo stands trivial
      | logout =>
          dsimp only
          split <;> exact known.moveTo stands trivial
      | clear => exact (known.clear ref).moveTo stands trivial
      | destroy =>
          have removed : Known tr (s.destroySession ref) := known.withSessions fun _ => rfl
          exact removed.moveTo stands trivial
      | check =>
          dsimp only
          split <;> exact known.moveTo stands trivial
      | readUserId =>
          dsimp only
          split
          · exact known.moveTo stands trivial
          · next userId read =>
              refine known.moveTo stands ?_
              rcases known.userId ref with empty | ⟨account, login, eq⟩
              · rw [empty] at read
                cases read
              · rw [eq, stoi_decimal] at read
                cases read
                exact ⟨account, login, rfl⟩
      | readUsername => exact known.moveTo stands trivial
      | done => exact known

theorem Known.step {maxAge : Time} {allowed : Serving → Nat → Prop} (known : Known tr s)
    (step : Step maxAge allowed s out s') : Known (tr ++ out) s' := by
  cases step with
  | manage _ same =>
      rw [List.append_nil]
      exact known.withSessions same
  | @enter o sessions ref position step returns enters =>
      have kept : Known (tr ++ [.entered s.next ref position]) { s with sessions := sessions } :=
        (known.withSessions fun r => returned_data step returns).later
      have entered : .entered s.next ref position ∈ tr ++ [.entered s.next ref position] := by simp
      exact {
        unborn := fun n late => by
          dsimp only at late ⊢
          rw [Function.update_of_ne (by omega)]
          exact known.unborn n (by omega)
        fits := fun n r p here => by
          dsimp only at here
          rw [Function.update_apply] at here
          split at here
          · cases here
            cases position with
            | setUserId account => exact ⟨s.next, entered⟩
            | setUsername | setIsLoggedIn | readUsername => exact enters.elim
            | _ => trivial
          · exact kept.fits n r p here
        userId := kept.userId
        username := kept.username }
  | request n permitted => exact (known.advance n).later

end known

/-! ## Undisturbed runs -/

/-- The session holds the values of one login. -/
def Serving.Holds (s : Serving) (ref : Ref) (account : Account) : Prop :=
  s.getValue ref (bytes "userId") = decimal account.userId.toInt ∧
    s.getValue ref (bytes "username") = account.username

/-- What a request relies on where it stands. -/
def Position.Sound (tr : List Event) (s : Serving) (ref : Ref) : Position → Prop
  | .setUsername account => s.getValue ref (bytes "userId") = decimal account.userId.toInt
  | .setIsLoggedIn account => s.Holds ref account
  | .readUserId => ∃ account, LoggedIn tr ref account ∧ s.Holds ref account
  | .readUsername userId =>
      ∃ account, LoggedIn tr ref account ∧ s.Holds ref account ∧ account.userId = userId
  | _ => True

structure Calm (tr : List Event) (s : Serving) : Prop where
  sound : ∀ n ref p, s.requests n = some (ref, p) → p.Sound tr s ref
  /-- Between logins, a session that is logged in holds one of them. -/
  settled : ∀ ref, (∀ n p, s.requests n = some (ref, p) → ¬ p.Writing) →
    s.getValue ref (bytes "isLoggedIn") = bytes "true" →
    ∃ account, LoggedIn tr ref account ∧ s.Holds ref account

section calm

variable {tr out : List Event} {s s' : Serving} {n : Nat} {ref : Ref} {p p' : Position}

theorem Position.Sound.frame (sound : p.Sound tr s ref)
    (same : ∀ key, s'.getValue ref key = s.getValue ref key) : p.Sound (tr ++ out) s' ref := by
  have holds (account : Account) : s.Holds ref account → s'.Holds ref account := by
    intro held
    exact ⟨(same _).trans held.1, (same _).trans held.2⟩
  cases p with
  | setUsername => exact (same _).trans sound
  | setIsLoggedIn account => exact holds account sound
  | readUserId =>
      obtain ⟨account, login, held⟩ := sound
      exact ⟨account, login.later, holds account held⟩
  | readUsername =>
      obtain ⟨account, login, held, eq⟩ := sound
      exact ⟨account, login.later, holds account held, eq⟩
  | _ => trivial

/-- A step of the manager, or of a request that only reads. -/
theorem Calm.frame (calm : Calm tr s) (same : ∀ ref key, s'.getValue ref key = s.getValue ref key)
    (others : ∀ m ref q, s'.requests m = some (ref, q) → s.requests m = some (ref, q) ∨
      q.Sound (tr ++ out) s' ref)
    (writing : ∀ m ref q, s.requests m = some (ref, q) → q.Writing →
      ∃ m' q', s'.requests m' = some (ref, q') ∧ q'.Writing) : Calm (tr ++ out) s' where
  sound m r q here := by
    rcases others m r q here with stood | sound
    · exact (calm.sound m r q stood).frame (same r)
    · exact sound
  settled r quiet flag := by
    rw [same] at flag
    obtain ⟨account, login, held⟩ := calm.settled r (fun m q stood writes => by
      obtain ⟨m', q', here, writing⟩ := writing m r q stood writes
      exact quiet m' q' here writing) flag
    exact ⟨account, login.later, (same _ _).trans held.1, (same _ _).trans held.2⟩

/-- A request that only reads takes a step. -/
theorem Calm.read (calm : Calm tr s) (stands : s.requests n = some (ref, p)) (reads : ¬ p.Writing)
    (same : ∀ ref key, s'.getValue ref key = s.getValue ref key)
    (moved : ∀ m, s'.requests m = if m = n then some (ref, p') else s.requests m)
    (sound : p'.Sound tr s ref) : Calm tr s' := by
  rw [← List.append_nil tr]
  refine calm.frame same (fun m r q here => ?_) (fun m r q stood writes => ?_)
  · rw [moved] at here
    split at here
    · cases here
      exact .inr (sound.frame (same ref))
    · exact .inl here
  · refine ⟨m, q, ?_, writes⟩
    rw [moved, if_neg]
    · exact stood
    · rintro rfl
      rw [stands] at stood
      cases stood
      exact reads writes

/-- A request that nothing disturbs writes to its session. -/
theorem Calm.write (calm : Calm tr s) (alone : Undisturbed s n)
    (stands : s.requests n = some (ref, p)) (writes : p.Writes)
    (same : ∀ r key, r ≠ ref → s'.getValue r key = s.getValue r key)
    (moved : ∀ m, s'.requests m = if m = n then some (ref, p') else s.requests m)
    (sound : p'.Sound tr s' ref)
    (settled : ¬ p'.Writing → s'.getValue ref (bytes "isLoggedIn") = bytes "true" →
      ∃ account, LoggedIn tr ref account ∧ s'.Holds ref account) : Calm tr s' where
  sound m r q here := by
    rw [moved] at here
    split at here
    · cases here
      exact sound
    · next other =>
        rcases eq_or_ne r ref with rfl | apart
        · obtain ⟨idle, away⟩ := (alone r p m q stands other here).1 writes
          cases q with
          | setUsername | setIsLoggedIn => exact absurd trivial idle
          | readUserId | readUsername => exact absurd trivial away
          | _ => trivial
        · rw [← List.append_nil tr]
          exact (calm.sound m r q here).frame fun key => same r key apart
  settled r quiet flag := by
    rcases eq_or_ne r ref with rfl | apart
    · exact settled (quiet n p' (by rw [moved, if_pos rfl])) flag
    · rw [same r _ apart] at flag
      obtain ⟨account, login, held⟩ := calm.settled r (fun m q stood => quiet m q (by
        rw [moved, if_neg]
        · exact stood
        · rintro rfl
          rw [stands] at stood
          cases stood
          exact apart rfl)) flag
      exact ⟨account, login, (same r _ apart).trans held.1, (same r _ apart).trans held.2⟩

theorem Calm.advance (calm : Calm tr s) (known : Known tr s) (alone : Undisturbed s n) :
    Calm tr (s.advance n).2 := by
  unfold Serving.advance
  cases stands : s.requests n with
  | none => exact calm
  | some request =>
      obtain ⟨ref, p⟩ := request
      have fits := known.fits n ref p stands
      have sound := calm.sound n ref p stands
      have moved {s' : Serving} {p'} (same : s'.requests = s.requests) (m : Nat) :
          (s'.moveTo n ref p').requests m = if m = n then some (ref, p') else s.requests m := by
        rw [requests_moveTo, same]
      have other {key value : Bytes} (r : Ref) (k : Bytes) (apart : r ≠ ref) :
          (s.setValue ref key value).getValue r k = s.getValue r k := by
        rw [getValue_setValue, if_neg fun here => apart here.1]
      cases p with
      | setUserId account =>
          refine calm.write alone stands trivial other (moved rfl) ?_ (fun idle => absurd trivial idle)
          simp [Position.Sound, getValue_setValue]
      | setUsername account =>
          refine calm.write alone stands trivial other (moved rfl) ⟨?_, ?_⟩
            (fun idle => absurd trivial idle)
          · simp only [getValue_moveTo, getValue_setValue]
            exact (if_neg (by decide)).trans sound
          · simp [getValue_setValue]
      | setIsLoggedIn account =>
          refine calm.write alone stands trivial other (moved rfl) trivial
            (fun _ _ => ⟨account, fits, ?_, ?_⟩)
          · simp only [getValue_moveTo, getValue_setValue]
            exact (if_neg (by decide)).trans sound.1
          · simp only [getValue_moveTo, getValue_setValue]
            exact (if_neg (by decide)).trans sound.2
      | clear =>
          refine calm.write alone stands trivial (fun r k apart => ?_) (moved rfl) trivial
            (fun _ flag => ?_)
          · rw [getValue_moveTo, getValue_clear, if_neg apart]
          · rw [getValue_moveTo, getValue_clear, if_pos rfl] at flag
            cases flag
      | logout =>
          dsimp only
          split <;> exact calm.read stands id (fun _ _ => rfl) (moved rfl) trivial
      | destroy =>
          have same (r : Ref) (k : Bytes) : (s.destroySession ref).getValue r k = s.getValue r k := rfl
          exact calm.read stands id same (moved rfl) trivial
      | check =>
          dsimp only
          split
          · next flag =>
              refine calm.read stands id (fun _ _ => rfl) (moved rfl) ?_
              refine calm.settled ref (fun m q stood writing => ?_) flag
              rcases eq_or_ne m n with rfl | apart
              · rw [stands] at stood
                cases stood
                exact writing
              · exact (alone ref _ m q stands apart stood).2 rfl writing
          · exact calm.read stands id (fun _ _ => rfl) (moved rfl) trivial
      | readUserId =>
          dsimp only
          split
          · exact calm.read stands id (fun _ _ => rfl) (moved rfl) trivial
          · next userId read =>
              obtain ⟨account, login, held⟩ := sound
              refine calm.read stands id (fun _ _ => rfl) (moved rfl) ⟨account, login, held, ?_⟩
              rw [held.1, stoi_decimal] at read
              exact Option.some.inj read
      | readUsername => exact calm.read stands id (fun _ _ => rfl) (moved rfl) trivial
      | done => exact calm

theorem Calm.step {maxAge : Time} {allowed : Serving → Nat → Prop}
    (undisturbed : ∀ s n, allowed s n → Undisturbed s n) (calm : Calm tr s) (known : Known tr s)
    (step : Step maxAge allowed s out s') : Calm (tr ++ out) s' := by
  cases step with
  | manage _ same =>
      refine calm.frame (fun ref key => ?_) (fun _ _ _ => .inl)
        (fun m r q stood writes => ⟨m, q, stood, writes⟩)
      simp only [Serving.getValue, same]
  | @enter o sessions ref position step returns enters =>
      refine calm.frame (fun r key => ?_) (fun m r q here => ?_) (fun m r q stood writes => ?_)
      · simp only [Serving.getValue, returned_data step returns]
      · dsimp only at here
        rw [Function.update_apply] at here
        split at here
        · cases here
          cases position with
          | setUserId | logout | check => exact .inr trivial
          | _ => exact enters.elim
        · exact .inl here
      · refine ⟨m, q, ?_, writes⟩
        dsimp only
        rw [Function.update_of_ne]
        · exact stood
        · rintro rfl
          rw [known.unborn s.next le_rfl] at stood
          cases stood
  | request n permitted =>
      have calm := calm.advance known (undisturbed s n permitted)
      exact calm.frame (fun _ _ => rfl) (fun _ _ _ => .inl)
        (fun m r q stood writes => ⟨m, q, stood, writes⟩)

end calm

/-! ## Who a request acts for -/

section runs

variable {maxAge : Time} {allowed : Serving → Nat → Prop} {capacity : Nat} {start : Time}
  {tr : List Event} {s : Serving}

theorem initial_requests (n : Nat) : (Serving.initial capacity start).requests n = none := rfl

theorem initial_getValue (ref : Ref) (key : Bytes) :
    (Serving.initial capacity start).getValue ref key = [] := rfl

theorem known_of_run (run : Run (Step maxAge allowed) (.initial capacity start) tr s) : Known tr s :=
  run.invariant (I := fun s tr => Known tr s)
    { unborn := fun _ _ => rfl
      fits := fun n _ _ here => absurd here (by simp [initial_requests])
      userId := fun _ => .inl rfl
      username := fun _ => .inl rfl }
    fun known step => known.step step

theorem calm_of_run (undisturbed : ∀ s n, allowed s n → Undisturbed s n)
    (run : Run (Step maxAge allowed) (.initial capacity start) tr s) : Calm tr s := by
  induction run with
  | refl =>
      exact {
        sound := fun n _ _ here => absurd here (by simp [initial_requests])
        settled := fun ref _ flag => by
          rw [initial_getValue] at flag
          cases flag }
  | tail earlier step ih => exact ih.step undisturbed (known_of_run earlier) step

/-- A request is identified by what the session then holds. -/
theorem Step.identified {s' : Serving} {out pre post : List Event} {n : Nat} {ref : Ref}
    {userId : Int32} {username : Bytes} (step : Step maxAge allowed s out s')
    (shown : out = pre ++ .identified n ref userId username :: post) :
    s.requests n = some (ref, .readUsername userId) ∧
      username = s.getValue ref (bytes "username") := by
  have member : .identified n ref userId username ∈ out := shown ▸ by simp
  cases step with
  | manage => cases member
  | enter => simp at member
  | request m permitted =>
      unfold Serving.advance at member
      cases stands : s.requests m with
      | none => simp [stands] at member
      | some request =>
          obtain ⟨r, p⟩ := request
          rw [stands] at member
          cases p with
          | readUsername u =>
              cases List.mem_singleton.mp member
              exact ⟨stands, rfl⟩
          | logout | check | readUserId =>
              dsimp only at member
              split at member <;> cases member
          | _ => cases member

/-- Whoever a request acts for after the check: the user id was written by a successful login
on its session, and the name was written by one or is empty.  Where no step disturbed
another request, one login wrote both. -/
theorem login_state (run : Run (Step maxAge allowed) (.initial capacity start) tr s)
    {before after : List Event} {n : Nat} {ref : Ref} {userId : Int32} {username : Bytes}
    (split : tr = before ++ .identified n ref userId username :: after) :
    (∃ account, LoggedIn before ref account ∧ account.userId = userId) ∧
    (username = [] ∨ ∃ account, LoggedIn before ref account ∧ account.username = username) ∧
    ((∀ s n, allowed s n → Undisturbed s n) →
      ∃ account, LoggedIn before ref account ∧ account.userId = userId ∧
        account.username = username) := by
  let Fine (before : List Event) (e : Event) : Prop :=
    ∀ n ref userId username, e = .identified n ref userId username →
      (∃ account, LoggedIn before ref account ∧ account.userId = userId) ∧
      (username = [] ∨ ∃ account, LoggedIn before ref account ∧ account.username = username) ∧
      ((∀ s n, allowed s n → Undisturbed s n) →
        ∃ account, LoggedIn before ref account ∧ account.userId = userId ∧
          account.username = username)
  refine run.observed (E := Fine) (fun {tr s out s'} earlier step pre e post shown => ?_) split _ _ _ _ rfl
  rintro n ref userId username rfl
  obtain ⟨stands, rfl⟩ := step.identified shown
  have known := known_of_run earlier
  obtain ⟨account, login, eq⟩ := known.fits n ref _ stands
  refine ⟨⟨account, login.later, eq⟩, ?_, fun undisturbed => ?_⟩
  · rcases known.username ref with empty | ⟨account, login, eq⟩
    · exact .inl empty
    · exact .inr ⟨account, login.later, eq.symm⟩
  · obtain ⟨account, login, held, eq⟩ := (calm_of_run undisturbed earlier).sound n ref _ stands
    exact ⟨account, login.later, eq, held.2.symm⟩

/-! ## Two users on one session -/

def ann : Account := ⟨7, bytes "ann", by decide⟩

def bob : Account := ⟨8, bytes "bob", by decide⟩

def visitor : Bytes := generateSessionId (.replicate 32 ⟨7, by decide⟩)

/-- A visitor without a cookie gets the session 0 and logs in. -/
def entered (account : Account) : Serving :=
  { sessions := { World.initial 1 100 with
      heap := Function.update (World.initial 1 100).heap 0 (Session.new visitor 10 100)
      storage := ⟨1, SortedMap.empty.insert visitor 0⟩
      nextRef := 1, nextCall := 1 }
    next := 1
    requests := Function.update (fun _ => none) 0 (some (0, .setUserId account)) }

theorem entered_run (allowed : Serving → Nat → Prop) (account : Account) :
    Run (Step 10 allowed) (.initial 1 100) [.entered 0 0 (.setUserId account)] (entered account) := by
  have missed : Run (Step 10 allowed) (.initial 1 100) _ _ :=
    .single (.manage (.miss (w := .initial 1 100) [] (Http.HttpResponse.new false) (Nat.le_refl 100) rfl)
      fun _ => rfl)
  have constructed := missed.tail (.manage (.construct (Vector.replicate 32 7) (.refl _)
    (Nat.le_refl 100) fun ref below => absurd below (Nat.not_lt_zero ref)) fun ref => by
      simp only [Function.update_apply]
      split <;> rfl)
  exact constructed.tail (.enter (@Sessions.Step.issue 10 _ 0 _ 0 100 [] _ 100 100 (fun _ => 100)
    (.refl _) (Nat.le_refl 100) (fun _ => ⟨Nat.le_refl 100, Nat.le_refl 100⟩) rfl) rfl trivial)

section visits

variable {allowed : Serving → Nat → Prop} {s₀ s : Serving} {tr : List Event}

theorem visit (run : Run (Step 10 allowed) s₀ tr s) (position : Position) (enters : position.Enters)
    (found : (s.sessions.lookup (bytes "sessionId=" ++ visitor) s.sessions.clock).1 = some 0) :
    Run (Step 10 allowed) s₀ (tr ++ [.entered s.next 0 position])
      { sessions := { (s.sessions.lookup (bytes "sessionId=" ++ visitor) s.sessions.clock).2 with
          nextCall := (s.sessions.lookup (bytes "sessionId=" ++ visitor) s.sessions.clock).2.nextCall + 1 }
        next := s.next + 1
        requests := Function.update s.requests s.next (some (0, position)) } :=
  run.tail (.enter (.resume _ (Http.HttpResponse.new false) (Nat.le_refl _) (Prod.ext found rfl))
    rfl enters)

theorem save (run : Run (Step 10 allowed) s₀ tr s) {saving : List Ref}
    (pending : s.sessions.saving = 0 :: saving) : Run (Step 10 allowed) s₀ tr
      { s with sessions := { s.sessions with
          storage := (s.sessions.storage.updateExisting s.sessions.heap 0 s.sessions.clock).2
          saving := saving } } := by
  rw [← List.append_nil tr]
  exact run.tail (.manage (.autoSave (pending ▸ .refl _) (Nat.le_refl _)) fun _ => rfl)

end visits

/-- Bob logs in where ann is logged in, and a chat request finds his id with her name. -/
theorem login_state_mixed : ∃ tr s before after n ref userId username,
    Run (Step 10 fun _ _ => True) (.initial 1 100) tr s ∧
    tr = before ++ .identified n ref userId username :: after ∧
    ¬ ∃ account, LoggedIn before ref account ∧ account.userId = userId ∧
      account.username = username := by
  have run₁ := save ((entered_run (fun _ _ => True) ann).tail (.request 0 trivial)) rfl
  have run₂ := save (run₁.tail (.request 0 trivial)) rfl
  have run₃ := save (run₂.tail (.request 0 trivial)) rfl
  have run₄ := visit run₃ (.setUserId bob) trivial (by decide +kernel)
  have run₅ := save (run₄.tail (.request 1 trivial)) rfl
  have run₆ := visit run₅ .check trivial (by decide +kernel)
  have run₇ := (run₆.tail (.request 2 trivial)).tail (.request 2 trivial)
  let logins : List Event :=
    [.entered 0 0 (.setUserId ann), .entered 1 0 (.setUserId bob), .entered 2 0 .check]
  refine ⟨_, _, logins, [], 2, 0, 8, bytes "ann", run₇.tail (.request 2 trivial), by decide +kernel, ?_⟩
  rintro ⟨account, ⟨m, member⟩, own, name⟩
  simp only [logins, List.mem_cons, Event.entered.injEq, Position.setUserId.injEq, reduceCtorEq,
    and_false, List.not_mem_nil, or_false] at member
  rcases member with ⟨-, -, rfl⟩ | ⟨-, -, rfl⟩
  · exact absurd own (by decide)
  · exact absurd name (by decide)

/-- Nothing disturbs a request when all the others are done. -/
theorem undisturbed_of_done {allowed : Serving → Nat → Prop} {tr : List Event} {s : Serving} {n : Nat}
    (run : Run (Step 10 allowed) (.initial 1 100) tr s)
    (rest : ∀ m < s.next, m ≠ n → s.requests m = some (0, .done)) : Undisturbed s n := by
  intro ref p m q _ apart stands
  rcases Nat.lt_or_ge m s.next with born | late
  · rw [rest m born apart] at stands
    cases stands
    exact ⟨fun _ => ⟨id, id⟩, fun _ => id⟩
  · rw [(known_of_run run).unborn m late] at stands
    cases stands

/-- Where ann logs in first, a chat request acts for her. -/
theorem login_state_alone : ∃ before account, LoggedIn before 0 account ∧ account.userId = 7 ∧
    account.username = bytes "ann" := by
  have run₀ := entered_run Undisturbed ann
  have run₁ := run₀.tail (.request 0 (undisturbed_of_done run₀ fun m below apart =>
    absurd (Nat.lt_one_iff.mp below) apart))
  have run₂ := run₁.tail (.request 0 (undisturbed_of_done run₁ fun m below apart =>
    absurd (Nat.lt_one_iff.mp below) apart))
  have run₃ := run₂.tail (.request 0 (undisturbed_of_done run₂ fun m below apart =>
    absurd (Nat.lt_one_iff.mp below) apart))
  have run₄ := visit run₃ .check trivial (by decide +kernel)
  have second {m : Nat} (below : m < 2) (apart : m ≠ 1) : m = 0 := by omega
  have run₅ := run₄.tail (.request 1 (undisturbed_of_done run₄ fun m below apart => by
    rw [second below apart]
    decide +kernel))
  have run₆ := run₅.tail (.request 1 (undisturbed_of_done run₅ fun m below apart => by
    rw [second below apart]
    decide +kernel))
  have run₇ := run₆.tail (.request 1 (undisturbed_of_done run₆ fun m below apart => by
    rw [second below apart]
    decide +kernel))
  let logins : List Event := [.entered 0 0 (.setUserId ann), .entered 1 0 .check]
  have acts := login_state run₇
    (show _ = logins ++ .identified 1 0 7 (bytes "ann") :: [] by decide +kernel)
  exact ⟨logins, acts.2.2 fun _ _ => id⟩

end runs

end AIService.Login
