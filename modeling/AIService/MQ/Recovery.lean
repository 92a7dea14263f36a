import AIService.Data.FlatJson
import AIService.MQ.Connections

/-!
# Recovery after a failure

A `Recovery` is what a handler knows of its failures: the flags, the actions that are still to
come, and who registered the descriptors.  `Recovery.Move` is what a section of the loop does to
it (`Step.recovery`).  While the handler lives, `recovering_` stands for exactly one action, the
functor that disconnects or the timer that connects (`Recovery.Holds`).

A failure that the library reports while a connection is constructed, or a message published,
leaves what one reported right after it leaves (`connect_reporting`, `drain_reporting`), so that
it is a step of its own in a run (`reporting_connect_run`, `reporting_drain_run`).
-/

namespace AIService.MQ

structure Recovery where
  started : Bool
  alive : Bool
  connection : Option Nat
  channels : SortedMap Int Watch
  constructing : Bool
  recovering : Bool
  scheduled : Bool
  delay : Nat
  generation : Nat
  nextConnection : Nat
  /-- Functors that disconnect, and armed reconnect timers. -/
  recovers : Nat
  reconnects : Nat

namespace Recovery

variable (r : Recovery)

def fail : Recovery :=
  if r.alive ∧ ¬ r.recovering then { r with recovering := true, recovers := r.recovers + 1 } else r

/-- The functor, which leaves `n` more. -/
def recover (n : Nat) : Recovery :=
  { r with
    generation := r.generation + 1
    connection := none
    channels := .empty
    recovers := n
    scheduled := true
    reconnects := if r.scheduled then r.reconnects else r.reconnects + 1 }

/-- An attempt to connect that leaves `channels`. -/
def connect (channels : SortedMap Int Watch) (built : Bool) : Recovery :=
  let attempted := { r with
    constructing := false, recovering := false, channels := channels
    nextConnection := r.nextConnection + 1 }
  if built then { attempted with connection := some r.nextConnection } else attempted.fail

/-- The timer, which leaves `n` more. -/
def fire (n : Nat) : Recovery :=
  { r with reconnects := n, scheduled := false, delay := min 60 (r.delay * 2) }

def stop : Recovery :=
  { r with
    alive := false
    generation := r.generation + 1
    connection := none
    channels := .empty
    recovers := 0
    reconnects := 0 }

/-- Every descriptor is one of `c` or keeps its owner. -/
def Owned (c : Nat) (channels channels' : SortedMap Int Watch) : Prop :=
  ∀ fd watch, channels'.find? fd = some watch →
    watch.connection = c ∨ ∃ old, channels.find? fd = some old ∧ old.connection = watch.connection

inductive Move : Recovery → Recovery → Prop
  | quiet (r : Recovery) : Move r r
  | fail {r : Recovery} : r.started = true → Move r r.fail
  | recover {r : Recovery} {n : Nat} : r.alive = true → r.recovers = n + 1 → Move r (r.recover n)
  | start {r : Recovery} {channels : SortedMap Int Watch} (built : Bool) : r.started = false →
    Owned r.nextConnection r.channels channels →
    Move r ({ r with started := true }.connect channels built)
  | reconnect {r : Recovery} {n : Nat} {channels : SortedMap Int Watch} (built : Bool) :
    r.alive = true → r.reconnects = n + 1 → Owned r.nextConnection r.channels channels →
    Move r ((r.fire n).connect channels built)
  | monitor {r : Recovery} {c : Nat} {channels : SortedMap Int Watch} : r.connection = some c →
    Owned c r.channels channels → Move r { r with channels := channels }
  | opens (r : Recovery) : Move r { r with delay := 5 }
  | stop (r : Recovery) : Move r r.stop

/-- What holds of every recovery. -/
structure Holds (r : Recovery) : Prop where
  fresh : r.started = false → r.recovering = false ∧ r.scheduled = false ∧ r.connection = none ∧
    (∀ fd, r.channels.find? fd = none) ∧ r.recovers = 0 ∧ r.reconnects = 0
  steady : r.constructing = false
  delay : 5 ≤ r.delay ∧ r.delay ≤ 60
  one : r.alive = true → r.recovers + r.reconnects = r.recovering.toNat
  armed : r.alive = true → r.reconnects = r.scheduled.toNat
  /-- A timer is armed after a disconnect. -/
  idle : r.alive = true → r.reconnects ≠ 0 → r.connection = none ∧ ∀ fd, r.channels.find? fd = none
  owners : r.alive = true → r.recovering = false →
    ∀ fd watch, r.channels.find? fd = some watch → r.connection = some watch.connection

namespace Holds

variable {r r' : Recovery}

theorem fail (holds : r.Holds) (started : r.started = true) : r.fail.Holds := by
  unfold Recovery.fail
  split
  · next free =>
      obtain ⟨alive, calm⟩ := free
      rw [Bool.not_eq_true] at calm
      have none := holds.one alive
      rw [calm, Bool.toNat_false] at none
      exact {
        fresh := fun off => absurd (started.symm.trans off) (by decide)
        steady := holds.steady
        delay := holds.delay
        one := fun _ => by
          change r.recovers + 1 + r.reconnects = 1
          omega
        armed := holds.armed
        idle := holds.idle
        owners := fun _ off => nomatch off }
  · exact holds

theorem recover (holds : r.Holds) {n : Nat} (alive : r.alive = true) (some : r.recovers = n + 1) :
    (r.recover n).Holds := by
  have one := holds.one alive
  have armed := holds.armed alive
  have most : r.recovering.toNat ≤ 1 := Bool.toNat_le _
  have unscheduled : r.scheduled = false := by
    cases scheduled : r.scheduled with
    | false => rfl
    | true =>
        rw [scheduled, Bool.toNat_true] at armed
        omega
  have reconnects : (r.recover n).reconnects = 1 := by
    rw [unscheduled, Bool.toNat_false] at armed
    change (if r.scheduled = true then r.reconnects else r.reconnects + 1) = 1
    rw [unscheduled, armed]
    rfl
  refine {
    fresh := fun off => ?_
    steady := holds.steady
    delay := holds.delay
    one := fun _ => ?_
    armed := fun _ => reconnects
    idle := fun _ _ => ⟨rfl, fun _ => rfl⟩
    owners := fun _ _ _ _ found => nomatch found }
  · have idle := (holds.fresh off).2.2.2.2.1
    omega
  · rw [reconnects]
    change n + 1 = r.recovering.toNat
    omega

/-- An attempt to connect from a recovery with nothing to come. -/
theorem connect {channels : SortedMap Int Watch} (started : r.started = true)
    (delay : 5 ≤ r.delay ∧ r.delay ≤ 60) (recovers : r.recovers = 0) (reconnects : r.reconnects = 0)
    (scheduled : r.scheduled = false)
    (owned : ∀ fd watch, channels.find? fd = some watch → watch.connection = r.nextConnection)
    (built : Bool) : (r.connect channels built).Holds := by
  cases built with
  | true =>
      exact {
        fresh := fun off => absurd (started.symm.trans off) (by decide)
        steady := rfl
        delay := delay
        one := fun _ => by
          change r.recovers + r.reconnects = 0
          omega
        armed := fun _ => by
          change r.reconnects = r.scheduled.toNat
          rw [reconnects, scheduled]
          rfl
        idle := fun _ armed => absurd reconnects armed
        owners := fun _ _ fd watch found => congrArg some (owned fd watch found).symm }
  | false =>
      change (Recovery.fail _).Holds
      unfold Recovery.fail
      split
      · exact {
          fresh := fun off => absurd (started.symm.trans off) (by decide)
          steady := rfl
          delay := delay
          one := fun _ => by
            change r.recovers + 1 + r.reconnects = 1
            omega
          armed := fun _ => by
            change r.reconnects = r.scheduled.toNat
            rw [reconnects, scheduled]
            rfl
          idle := fun _ armed => absurd reconnects armed
          owners := fun _ off => nomatch off }
      · next dead =>
          have down (up : r.alive = true) : False := dead ⟨up, Bool.false_ne_true⟩
          exact {
            fresh := fun off => absurd (started.symm.trans off) (by decide)
            steady := rfl
            delay := delay
            one := fun up => (down up).elim
            armed := fun up => (down up).elim
            idle := fun up => (down up).elim
            owners := fun up => (down up).elim }

theorem step (holds : r.Holds) (move : Move r r') : r'.Holds := by
  cases move with
  | quiet => exact holds
  | fail started => exact holds.fail started
  | recover alive some => exact holds.recover alive some
  | start built off owned =>
      obtain ⟨calm, scheduled, connection, none, recovers, reconnects⟩ := holds.fresh off
      refine connect (r := { r with started := true }) rfl holds.delay recovers reconnects scheduled ?_ built
      intro fd watch found
      rcases owned fd watch found with new | ⟨old, before, -⟩
      · exact new
      · rw [none] at before
        cases before
  | @reconnect n channels built alive some owned =>
      have one := holds.one alive
      have most : r.recovering.toNat ≤ 1 := Bool.toNat_le _
      have last : n = 0 := by omega
      have recovers : r.recovers = 0 := by omega
      have started : r.started = true := by
        by_contra off
        have idle := (holds.fresh (by simpa using off)).2.2.2.2.2
        omega
      have none := (holds.idle alive (by omega)).2
      obtain ⟨low, high⟩ := holds.delay
      refine connect (r := r.fire n) started ?_ recovers last rfl ?_ built
      · change 5 ≤ min 60 (r.delay * 2) ∧ min 60 (r.delay * 2) ≤ 60
        omega
      · intro fd watch found
        rcases owned fd watch found with new | ⟨old, before, -⟩
        · exact new
        · rw [none] at before
          cases before
  | @monitor c channels held owned =>
      refine { holds with fresh := fun off => ?_, idle := fun alive some => ?_, owners := ?_ }
      · have none := (holds.fresh off).2.2.1
        rw [held] at none
        cases none
      · have none := (holds.idle alive some).1
        rw [held] at none
        cases none
      · intro alive calm fd watch found
        rcases owned fd watch found with new | ⟨old, before, same⟩
        · exact held.trans (congrArg some new.symm)
        · exact (holds.owners alive calm fd old before).trans (congrArg some same)
  | opens => exact { holds with delay := ⟨Nat.le_refl 5, (by decide : 5 ≤ 60)⟩ }
  | stop =>
      exact {
        fresh := fun off => by
          obtain ⟨calm, scheduled, -, -, -, -⟩ := holds.fresh off
          exact ⟨calm, scheduled, rfl, fun _ => rfl, rfl, rfl⟩
        steady := holds.steady
        delay := holds.delay
        one := nofun
        armed := nofun
        idle := nofun
        owners := nofun }

end Holds

end Recovery

/-! ## The sections of the loop -/

def World.recovery (w : World) : Recovery where
  started := w.started
  alive := w.handler.alive
  connection := w.handler.connection
  channels := w.handler.channels
  constructing := w.handler.constructingConnection
  recovering := w.handler.recovering
  scheduled := w.handler.reconnectScheduled
  delay := w.handler.reconnectDelaySec
  generation := w.handler.generation
  nextConnection := w.nextConnection
  recovers := if w.handler.alive then w.functors.count .recovers else 0
  reconnects := if w.handler.alive then w.timers.countP Timer.isReconnects else 0

theorem connectionFailed_recovery {w : World} (flagged : w.Flagged) :
    w.connectionFailed.recovery = w.recovery.fail := by
  unfold World.Flagged at flagged
  unfold World.connectionFailed Recovery.fail
  cases alive : w.handler.alive <;> cases calm : w.handler.recovering <;>
    simp [World.recovery, flagged, alive, calm]

/-- A watch that `monitor` leaves is its own or keeps its owner. -/
theorem monitor_owned (h : Handler) (c : Nat) (fd : Int) (readable writable : Bool) :
    Recovery.Owned c h.channels (h.monitor c fd readable writable).channels := by
  have kept : Recovery.Owned c h.channels h.channels := fun _ watch found => .inr ⟨watch, found, rfl⟩
  unfold Handler.monitor
  split
  · exact kept
  split
  · exact kept
  split
  · intro fd' watch found
    change (h.channels.erase fd).find? fd' = some watch at found
    rw [SortedMap.find?_erase] at found
    split at found
    · cases found
    · exact kept fd' watch found
  · intro fd' watch found
    dsimp only at found
    rw [SortedMap.find?_insert] at found
    split at found
    · next same =>
        subst same
        cases found
        cases before : h.channels.find? fd with
        | none => exact .inl rfl
        | some old => exact .inr ⟨old, rfl, rfl⟩
    · exact kept fd' watch found

theorem monitorAll_owned (h : Handler) (c : Nat) (watched : List Monitored) :
    Recovery.Owned c h.channels
      (watched.foldl (fun h m => h.monitor c m.fd m.readable m.writable) h).channels := by
  induction watched generalizing h with
  | nil => exact fun _ watch found => .inr ⟨watch, found, rfl⟩
  | cons m rest ih =>
      intro fd watch found
      rcases ih (h.monitor c m.fd m.readable m.writable) fd watch found with own | ⟨old, before, same⟩
      · exact .inl own
      rcases monitor_owned h c m.fd m.readable m.writable fd old before with own | ⟨older, before', same'⟩
      · exact .inl (same.symm.trans own)
      · exact .inr ⟨older, before', same'.trans same⟩

/-- An attempt to connect. -/
theorem connect_recovery {w : World} (flagged : w.Flagged) (watched : List Monitored) (built : Bool) :
    ∃ channels, Recovery.Owned w.nextConnection w.handler.channels channels ∧
      (w.connect watched built).recovery = w.recovery.connect channels built := by
  let constructing := { w.handler with recovering := false, constructingConnection := true }
  let h := watched.foldl (fun h m => h.monitor w.nextConnection m.fd m.readable m.writable) constructing
  refine ⟨h.channels, monitorAll_owned constructing w.nextConnection watched, ?_⟩
  have core : h.core = constructing.core := monitorAll_core constructing w.nextConnection watched
  have alive : h.alive = w.handler.alive := congrArg (·.alive) core
  have shutting : h.shuttingDown = w.handler.shuttingDown := congrArg (·.shuttingDown) core
  have connection : h.connection = w.handler.connection := congrArg (·.connection) core
  have recovering : h.recovering = false := congrArg (·.recovering) core
  have scheduled : h.reconnectScheduled = w.handler.reconnectScheduled := congrArg (·.reconnectScheduled) core
  have delay : h.reconnectDelaySec = w.handler.reconnectDelaySec := congrArg (·.reconnectDelaySec) core
  have generation : h.generation = w.handler.generation := congrArg (·.generation) core
  cases built with
  | true =>
      change World.recovery { w with
        handler := { h with constructingConnection := false, connection := some w.nextConnection }
        nextConnection := w.nextConnection + 1, connected := false } = _
      simp only [World.recovery, Recovery.connect, alive, recovering, scheduled, delay, generation, if_true]
  | false =>
      change World.recovery (World.connectionFailed { w with
        handler := { h with constructingConnection := false }
        nextConnection := w.nextConnection + 1, connected := false }) = Recovery.fail _
      rw [connectionFailed_recovery]
      · refine congrArg Recovery.fail ?_
        simp only [World.recovery, alive, connection, recovering, scheduled, delay, generation]
      · unfold World.Flagged at flagged ⊢
        change h.shuttingDown = !h.alive
        rw [alive, shutting]
        exact flagged

theorem Drains.recovery {channel : Nat} {items : List Publication} {w w' : World} {out : List Obs}
    (drains : Drains channel items w out w') (flagged : w.Flagged) :
    w'.recovery = w.recovery ∨ w'.recovery = w.recovery.fail := by
  induction drains with
  | empty | stops => exact .inl rfl
  | fails => exact .inr (connectionFailed_recovery flagged)
  | publish _ _ ih => exact ih flagged

/-- A drain that fails has a producer channel, so the handler was started. -/
theorem drainPending_recovery {w : World} (flagged : w.Flagged)
    (started : w.handler.producerChannel.isSome → w.started = true) (sent : Nat → Bool) :
    Recovery.Move w.recovery (w.drainPending sent).2.recovery := by
  unfold World.drainPending
  split
  · exact .quiet _
  · split
    · exact .quiet _
    · next channel here =>
        rcases (drains_of_drainLoop (Prod.eta (World.drainLoop channel sent 0 w.handler.pending w)).symm).recovery flagged
          with same | failed
        · rw [same]
          exact .quiet _
        · rw [failed]
          exact .fail (started (by rw [here]; rfl))

theorem Linked.started {w : World} {tr : List Obs} (linked : Linked w.link tr)
    (held : w.handler.producerChannel.isSome) : w.started = true := by
  cases off : w.started with
  | true => rfl
  | false =>
      have none : w.handler.producerChannel = none := (linked.fresh off).2.2.1
      rw [none] at held
      cases held

theorem schedulePublish_recovery (w : World) (queue body : Bytes) (completion : Option Delivery) :
    (w.schedulePublish queue body completion).2.recovery = w.recovery := by
  unfold World.schedulePublish
  dsimp only
  split <;> rfl

theorem loadOutstanding_recovery (w : World) (before after : List PublishCall) (item : Publication) :
    (w.loadOutstanding before after item).2.recovery = w.recovery := by
  unfold World.loadOutstanding
  dsimp only
  split <;> rfl

theorem completeDelivery_recovery (codec : JsonCodec) (w : World) (d : Delivery) (result : Disposition)
    (body : Bytes) : (w.completeDelivery codec d result body).2.recovery = w.recovery := by
  unfold World.completeDelivery
  split
  · rfl
  · split
    · rfl
    · split
      · rfl
      · simp [World.recovery, Timer.isReconnects]

theorem runFunctor_recovery {codec : JsonCodec} {w : World} {f : Functor} {rest : List Functor}
    {tr : List Obs} (flagged : w.Flagged) (linked : Linked w.link tr) (functors : w.functors = f :: rest)
    (sent : Nat → Bool) :
    Recovery.Move w.recovery ({ w with functors := rest }.runFunctor codec sent f).2.recovery := by
  cases f with
  | admits item =>
      have same : ({ w with functors := rest } : World).recovery = w.recovery := by
        simp [World.recovery, functors]
      unfold World.runFunctor
      dsimp only
      split
      · have move := drainPending_recovery (w := { w with
          functors := rest
          handler := { w.handler with pending := w.handler.pending ++ [item] } }) flagged linked.started sent
        have start : ({ w with
            functors := rest
            handler := { w.handler with pending := w.handler.pending ++ [item] } } : World).recovery =
          w.recovery := same
        rw [start] at move
        exact move
      · rw [same]
        exact .quiet _
  | completes d result body =>
      have same : ({ w with functors := rest } : World).recovery = w.recovery := by
        simp [World.recovery, functors]
      unfold World.runFunctor
      dsimp only
      split
      · rw [completeDelivery_recovery, same]
        exact .quiet _
      · rw [same]
        exact .quiet _
  | recovers =>
      unfold World.runFunctor
      dsimp only
      split
      · next alive =>
          have some : w.recovery.recovers = rest.count .recovers + 1 := by
            simp [World.recovery, functors, alive]
          have up : w.handler.shuttingDown = false := by
            unfold World.Flagged at flagged
            rw [flagged, alive]
            rfl
          have move := Recovery.Move.recover (show w.recovery.alive = true from alive) some
          have reached : World.recovery (World.scheduleReconnect { w with
              functors := rest, handler := w.handler.disconnect }) =
              w.recovery.recover (rest.count .recovers) := by
            unfold World.scheduleReconnect
            cases scheduled : w.handler.reconnectScheduled <;>
              simp [World.recovery, Recovery.recover, Handler.disconnect, alive, up, scheduled,
                Timer.isReconnects]
          rw [reached]
          exact move
      · next dead =>
          have same : ({ w with functors := rest } : World).recovery = w.recovery := by
            simp [World.recovery, dead]
          rw [same]
          exact .quiet _

theorem fireTimer_recovery {w : World} {before after : List Timer} {t : Timer} (flagged : w.Flagged)
    (timers : w.timers = before ++ t :: after) (watched : List Monitored) (built : Bool) :
    Recovery.Move w.recovery
      ({ w with timers := before ++ after }.fireTimer watched built t).2.recovery := by
  cases t with
  | reconnects delay =>
      unfold World.fireTimer
      dsimp only
      split
      · next alive =>
          have some : w.recovery.reconnects = (before ++ after).countP Timer.isReconnects + 1 := by
            simp only [World.recovery, timers, alive, if_true, List.countP_append, Nat.add_assoc,
              Nat.add_left_cancel_iff]
            exact List.countP_cons_of_pos rfl
          obtain ⟨channels, owned, made⟩ := connect_recovery (w := { w with
            timers := before ++ after
            handler := { w.handler with
              reconnectScheduled := false
              reconnectDelaySec := min 60 (w.handler.reconnectDelaySec * 2) } }) flagged watched built
          rw [made]
          have move := Recovery.Move.reconnect built (show w.recovery.alive = true from alive) some owned
          have reached : World.recovery { w with
              timers := before ++ after
              handler := { w.handler with
                reconnectScheduled := false
                reconnectDelaySec := min 60 (w.handler.reconnectDelaySec * 2) } } =
              w.recovery.fire ((before ++ after).countP Timer.isReconnects) := by
            simp [World.recovery, Recovery.fire, alive]
          rw [reached]
          exact move
      · next dead =>
          have same : ({ w with timers := before ++ after } : World).recovery = w.recovery := by
            simp [World.recovery, dead]
          rw [same]
          exact .quiet _
  | retries d target body delay =>
      have same : ({ w with timers := before ++ after } : World).recovery = w.recovery := by
        simp [World.recovery, timers, Timer.isReconnects]
      unfold World.fireTimer
      dsimp only
      split
      · rw [schedulePublish_recovery, same]
        exact .quiet _
      · rw [same]
        exact .quiet _

theorem retireAll_recovery (w : World) (entries : List (Nat × Publication)) :
    (w.retireAll entries).2.recovery = w.recovery := by
  induction entries generalizing w with
  | nil => rfl
  | cons entry rest ih => exact ih (w.retire entry).2

/-- A retired connection does not touch the descriptors. -/
theorem monitor_retired {h : Handler} (steady : h.constructingConnection = false) {c : Nat}
    (retired : h.connection ≠ some c) (fd : Int) (readable writable : Bool) :
    h.monitor c fd readable writable = h := by
  unfold Handler.monitor
  split
  · rfl
  · rw [if_pos ⟨by rw [steady]; exact Bool.false_ne_true, retired⟩]

/-- A section of the loop moves the recovery. -/
theorem Step.recovery {codec : JsonCodec} {w w' : World} {out tr : List Obs} (step : Step codec w out w')
    (flagged : w.Flagged) (linked : Linked w.link tr) (holds : w.recovery.Holds) :
    Recovery.Move w.recovery w'.recovery := by
  cases step with
  | start watched built off =>
      obtain ⟨channels, owned, made⟩ := connect_recovery (w := { w with started := true }) flagged watched built
      rw [made]
      exact .start built off owned
  | publish queue body =>
      rw [schedulePublish_recovery]
      exact .quiet _
  | load calls =>
      rw [loadOutstanding_recovery]
      exact .quiet _
  | exchange calls same => exact .quiet _
  | exchangeFails calls =>
      rw [loadOutstanding_recovery]
      exact .quiet _
  | @queueInLoop before after item calls =>
      have same : ({ w with
          functors := w.functors ++ [.admits item], calls := before ++ after } : World).recovery =
          w.recovery := by
        simp [World.recovery]
      rw [same]
      exact .quiet _
  | functor sent functors => exact runFunctor_recovery flagged linked functors sent
  | timer watched built timers => exact fireTimer_recovery flagged timers watched built
  | monitor connection m made =>
      by_cases current : w.handler.connection = some connection
      · have core := monitor_core w.handler connection m.fd m.readable m.writable
        have reached : ({ w with
            handler := w.handler.monitor connection m.fd m.readable m.writable } : World).recovery =
            { w.recovery with
              channels := (w.handler.monitor connection m.fd m.readable m.writable).channels } := by
          have held := congrArg (fun h : Handler => ({ ({ w with handler := h } : World).recovery with
            channels := (w.handler.monitor connection m.fd m.readable m.writable).channels } : Recovery)) core
          exact held
        rw [reached]
        exact .monitor current (monitor_owned w.handler connection m.fd m.readable m.writable)
      · rw [monitor_retired holds.steady current]
        exact .quiet _
  | connectionFailed started =>
      rw [connectionFailed_recovery flagged]
      exact .fail started
  | onConnected held off => exact .opens _
  | confirmSelected sent held =>
      exact drainPending_recovery (w := { w with handler := { w.handler with producerReady := true } }) flagged
        linked.started sent
  | writable sent _ held calm => exact drainPending_recovery flagged linked.started sent
  | confirm tag multiple accepted sent held =>
      rcases confirm_eq (Prod.eta (w.confirm tag multiple accepted sent)).symm with
        ⟨-, same | failed⟩ | ⟨-, -, -, later, -, drained⟩
      · rw [same]
        exact .quiet _
      · rw [failed, connectionFailed_recovery flagged]
        exact .fail (linked.started held)
      · obtain ⟨frame, -⟩ := retireAll_shows w
          (w.handler.inflight.entries.filter fun entry => World.covers tag multiple entry.1)
        have kept := retireAll_recovery w
          (w.handler.inflight.entries.filter fun entry => World.covers tag multiple entry.1)
        have move := drainPending_recovery (flagged.of_frame frame) (fun _ => by
          have same := congrArg (·.started) kept
          exact same.trans (linked.started held)) sent
        rw [drained, kept] at move
        exact move
  | deliver tag body held later => exact .quiet _
  | @ackFn before after fn result fns =>
      unfold World.callAckFn
      split
      · exact .quiet _
      · have same : ({ w with
            ackFns := before ++ { fn with once := true } :: after
            functors := w.functors ++ [.completes fn.delivery result fn.body] } : World).recovery =
            w.recovery := by
          simp [World.recovery]
        dsimp only
        rw [same]
        exact .quiet _
  | stop started alive => exact .stop _

/-! ## Failures reported inside a call -/

/-- What the library does while a connection is constructed. -/
inductive Report
  | watches (m : Monitored)
  | fails

namespace World

variable (w : World)

def failedIf (failed : Bool) : World := if failed then w.connectionFailed else w

def reported (fresh : Nat) (w : World) : List Report → World
  | [] => w
  | .watches m :: rest =>
      reported fresh { w with handler := w.handler.monitor fresh m.fd m.readable m.writable } rest
  | .fails :: rest => reported fresh w.connectionFailed rest

/-- `connect`, when the constructor of the connection also reports failures. -/
def connectReporting (reports : List Report) (built : Bool) : World :=
  let fresh := w.nextConnection
  let constructing := { w.handler with recovering := false, constructingConnection := true }
  let w := { w with handler := constructing }.reported fresh reports
  let w := { w with
    handler := { w.handler with constructingConnection := false }
    nextConnection := fresh + 1
    connected := false }
  if built then { w with handler := { w.handler with connection := some fresh } }
  else w.connectionFailed

/-- What the loop of `drainPending` leaves in `pending_`. -/
def leave (items : List Publication) : World :=
  { w with handler := { w.handler with pending := items } }

/-- A publication that was sent. -/
def emplace (item : Publication) : World :=
  { w with handler := { w.handler with
      inflight := w.handler.inflight.insert w.handler.nextPublishTag item
      nextPublishTag := w.handler.nextPublishTag + 1 } }

/-- The loop of `drainPending`, when the `i`-th call of `publish` reports a failure if
`fails i`. -/
def drainReporting (channel : Nat) (sent fails : Nat → Bool) :
    Nat → List Publication → World → List Obs × World
  | _, [], w => ([], w.leave [])
  | i, item :: rest, w =>
      if w.handler.inflight.size < maxInflight then
        let w := w.failedIf (fails i)
        if sent i then
          let (out, w') := drainReporting channel sent fails (i + 1) rest (w.emplace item)
          (.published channel w.handler.nextPublishTag item :: out, w')
        else ([], (w.leave (item :: rest)).connectionFailed)
      else ([], w.leave (item :: rest))

end World

/-- Failures that are reported together are one. -/
theorem failedIf_failedIf (w : World) (failed again : Bool) :
    (w.failedIf failed).failedIf again = w.failedIf (failed || again) := by
  have twice : w.connectionFailed.connectionFailed = w.connectionFailed := by
    apply if_pos
    unfold World.connectionFailed
    split
    · assumption
    · exact .inr rfl
  cases failed with
  | false => rfl
  | true =>
      cases again with
      | false => rfl
      | true => exact twice

theorem connectionFailed_failedIf (w : World) (failed : Bool) :
    (w.failedIf failed).connectionFailed = w.connectionFailed.failedIf failed := by
  change (w.failedIf failed).failedIf true = (w.failedIf true).failedIf failed
  rw [failedIf_failedIf, failedIf_failedIf, Bool.or_comm]

theorem failedIf_sends (w : World) (failed : Bool) :
    (w.failedIf failed).handler.inflight = w.handler.inflight ∧
      (w.failedIf failed).handler.nextPublishTag = w.handler.nextPublishTag := by
  unfold World.failedIf World.connectionFailed
  split
  · split <;> exact ⟨rfl, rfl⟩
  · exact ⟨rfl, rfl⟩

/-- A change that a failure does not look at, and that does not look at one. -/
def Blind (change : World → World) : Prop :=
  ∀ w, (change w).handler.shuttingDown = w.handler.shuttingDown ∧
    (change w).handler.recovering = w.handler.recovering ∧
    change { w with
      handler := { w.handler with recovering := true, producerReady := false }
      functors := w.functors ++ [.recovers] } =
    { change w with
      handler := { (change w).handler with recovering := true, producerReady := false }
      functors := (change w).functors ++ [.recovers] }

theorem Blind.failedIf {change : World → World} (blind : Blind change) (w : World) (failed : Bool) :
    change (w.failedIf failed) = (change w).failedIf failed := by
  cases failed with
  | false => rfl
  | true =>
      obtain ⟨shutting, recovering, fails⟩ := blind w
      change change w.connectionFailed = (change w).connectionFailed
      unfold World.connectionFailed
      rw [shutting, recovering]
      split
      · rfl
      · exact fails

theorem monitor_blind (connection : Nat) (m : Monitored) : Blind fun w => { w with
    handler := w.handler.monitor connection m.fd m.readable m.writable } := by
  intro w
  unfold Handler.monitor
  dsimp only
  split_ifs <;> exact ⟨rfl, rfl, rfl⟩

/-- The requests for descriptors among the reports. -/
def watchedOf (reports : List Report) : List Monitored :=
  reports.filterMap fun
    | .watches m => some m
    | .fails => none

theorem reported_failedIf (fresh : Nat) (reports : List Report) (w : World) (failed : Bool) :
    (w.failedIf failed).reported fresh reports = (w.reported fresh reports).failedIf failed := by
  induction reports generalizing w failed with
  | nil => rfl
  | cons report rest ih =>
      cases report with
      | watches m =>
          rw [World.reported, World.reported, ← ih]
          exact congrArg (World.reported fresh · rest) ((monitor_blind fresh m).failedIf w failed)
      | fails =>
          change ((w.failedIf failed).failedIf true).reported fresh rest =
            ((w.failedIf true).reported fresh rest).failedIf failed
          rw [failedIf_failedIf, ih, ih, failedIf_failedIf, Bool.or_comm]

theorem reported_eq (fresh : Nat) (reports : List Report) (w : World) :
    ∃ failed, w.reported fresh reports = World.failedIf { w with
      handler := (watchedOf reports).foldl
        (fun h m => h.monitor fresh m.fd m.readable m.writable) w.handler } failed := by
  induction reports generalizing w with
  | nil => exact ⟨false, rfl⟩
  | cons report rest ih =>
      cases report with
      | watches m => exact ih { w with handler := w.handler.monitor fresh m.fd m.readable m.writable }
      | fails =>
          obtain ⟨failed, same⟩ := ih w
          refine ⟨failed || true, ?_⟩
          change (w.failedIf true).reported fresh rest = _
          rw [reported_failedIf, same, failedIf_failedIf]
          rfl

/-- A failure reported by the constructor does what one reported right after `connect` does. -/
theorem connect_reporting (w : World) (reports : List Report) (built : Bool) :
    ∃ failed, w.connectReporting reports built = (w.connect (watchedOf reports) built).failedIf failed := by
  unfold World.connectReporting World.connect
  dsimp only
  obtain ⟨failed, same⟩ := reported_eq w.nextConnection reports { w with
    handler := { w.handler with recovering := false, constructingConnection := true } }
  refine ⟨failed, ?_⟩
  rw [same]
  cases built with
  | true =>
      have made : Blind fun w' => { w' with
          handler := { w'.handler with
            constructingConnection := false, connection := some w.nextConnection }
          nextConnection := w.nextConnection + 1, connected := false } := fun _ => ⟨rfl, rfl, rfl⟩
      exact made.failedIf _ failed
  | false =>
      have made : Blind fun w' => { w' with
          handler := { w'.handler with constructingConnection := false }
          nextConnection := w.nextConnection + 1, connected := false } := fun _ => ⟨rfl, rfl, rfl⟩
      exact (congrArg World.connectionFailed (made.failedIf _ failed)).trans (connectionFailed_failedIf _ failed)

theorem drainLoop_cons (channel : Nat) (sent : Nat → Bool) (i : Nat) (item : Publication)
    (rest : List Publication) (w : World) :
    World.drainLoop channel sent i (item :: rest) w =
      if w.handler.inflight.size < maxInflight then
        if sent i then
          (.published channel w.handler.nextPublishTag item ::
              (World.drainLoop channel sent (i + 1) rest (w.emplace item)).1,
            (World.drainLoop channel sent (i + 1) rest (w.emplace item)).2)
        else ([], (w.leave (item :: rest)).connectionFailed)
      else ([], w.leave (item :: rest)) := rfl

theorem leave_blind (items : List Publication) : Blind fun w => w.leave items := fun _ => ⟨rfl, rfl, rfl⟩

theorem emplace_blind (item : Publication) : Blind fun w => w.emplace item := fun _ => ⟨rfl, rfl, rfl⟩

/-- A drain that starts after a failure. -/
theorem drainLoop_failedIf (channel : Nat) (sent : Nat → Bool) (items : List Publication) (i : Nat)
    (w : World) (failed : Bool) : World.drainLoop channel sent i items (w.failedIf failed) =
      ((World.drainLoop channel sent i items w).1,
        (World.drainLoop channel sent i items w).2.failedIf failed) := by
  induction items generalizing i w with
  | nil => exact congrArg (([], ·)) ((leave_blind []).failedIf w failed)
  | cons item rest ih =>
      obtain ⟨inflight, tag⟩ := failedIf_sends w failed
      have emplaced : (w.failedIf failed).emplace item = (w.emplace item).failedIf failed :=
        (emplace_blind item).failedIf w failed
      have left : (w.failedIf failed).leave (item :: rest) = (w.leave (item :: rest)).failedIf failed :=
        (leave_blind (item :: rest)).failedIf w failed
      rw [drainLoop_cons, drainLoop_cons, inflight, tag, emplaced, left, connectionFailed_failedIf, ih]
      split
      · split <;> rfl
      · rfl

/-- A failure reported by `publish` does what one reported right after the drain does. -/
theorem drain_reporting (channel : Nat) (sent fails : Nat → Bool) (items : List Publication) (i : Nat)
    (w : World) : ∃ failed, World.drainReporting channel sent fails i items w =
      ((World.drainLoop channel sent i items w).1,
        (World.drainLoop channel sent i items w).2.failedIf failed) := by
  induction items generalizing i w with
  | nil => exact ⟨false, rfl⟩
  | cons item rest ih =>
      obtain ⟨failed, same⟩ := ih (i + 1) ((w.failedIf (fails i)).emplace item)
      have emplaced : (w.failedIf (fails i)).emplace item = (w.emplace item).failedIf (fails i) :=
        (emplace_blind item).failedIf w (fails i)
      have left : (w.failedIf (fails i)).leave (item :: rest) =
          (w.leave (item :: rest)).failedIf (fails i) :=
        (leave_blind (item :: rest)).failedIf w (fails i)
      rw [emplaced, drainLoop_failedIf, failedIf_failedIf] at same
      rw [World.drainReporting, drainLoop_cons]
      by_cases room : w.handler.inflight.size < maxInflight
      · rw [if_pos room, if_pos room]
        dsimp only
        rw [emplaced, left, connectionFailed_failedIf, same, (failedIf_sends w (fails i)).2]
        cases sent i with
        | false => exact ⟨fails i, rfl⟩
        | true => exact ⟨fails i || failed, rfl⟩
      · rw [if_neg room, if_neg room]
        exact ⟨false, rfl⟩

theorem connectionFailed_started (w : World) : w.connectionFailed.started = w.started := by
  unfold World.connectionFailed
  split <;> rfl

theorem connect_started (w : World) (watched : List Monitored) (built : Bool) :
    (w.connect watched built).started = w.started := by
  cases built with
  | true => rfl
  | false => exact connectionFailed_started _

theorem drainLoop_started (channel : Nat) (sent : Nat → Bool) (items : List Publication) (i : Nat)
    (w : World) : (World.drainLoop channel sent i items w).2.started = w.started := by
  induction items generalizing i w with
  | nil => rfl
  | cons item rest ih =>
      rw [drainLoop_cons]
      split
      · split
        · exact ih (i + 1) (w.emplace item)
        · exact connectionFailed_started _
      · rfl

section reporting

variable {codec : JsonCodec} {w w' : World} {out : List Obs}

/-- A failure may follow a step. -/
theorem failedIf_run (step : Step codec w out w') (started : w'.started = true) (failed : Bool) :
    Run (Step codec) w out (w'.failedIf failed) := by
  cases failed with
  | false => exact .single step
  | true =>
      have both := (Run.single step).tail (.connectionFailed started)
      rw [List.append_nil] at both
      exact both

theorem reporting_connect_run {reports : List Report} {built : Bool} (started : w'.started = true)
    (step : Step codec w out (w'.connect (watchedOf reports) built)) :
    Run (Step codec) w out (w'.connectReporting reports built) := by
  obtain ⟨failed, same⟩ := connect_reporting w' reports built
  rw [same]
  exact failedIf_run step ((connect_started _ _ _).trans started) failed

theorem reporting_drain_run {channel : Nat} {sent : Nat → Bool} {items : List Publication} (fails : Nat → Bool)
    (started : w'.started = true) (step : Step codec w out (World.drainLoop channel sent 0 items w').2) :
    (World.drainReporting channel sent fails 0 items w').1 = (World.drainLoop channel sent 0 items w').1 ∧
      Run (Step codec) w out (World.drainReporting channel sent fails 0 items w').2 := by
  obtain ⟨failed, same⟩ := drain_reporting channel sent fails items 0 w'
  rw [same]
  exact ⟨rfl, failedIf_run step ((drainLoop_started _ _ _ _ _).trans started) failed⟩

end reporting

/-! ## Whole runs -/

theorem recovery_initial (queueName : Bytes) : (World.initial queueName).recovery.Holds where
  fresh _ := ⟨rfl, rfl, rfl, fun _ => rfl, rfl, rfl⟩
  steady := rfl
  delay := ⟨Nat.le_refl 5, (by decide : 5 ≤ 60)⟩
  one _ := rfl
  armed _ := rfl
  idle _ armed := absurd rfl armed
  owners _ _ _ _ found := nomatch found

theorem recovery_holds {codec : JsonCodec} {queueName : Bytes} {tr : List Obs} {w : World}
    (run : Run (Step codec) (.initial queueName) tr w) : w.recovery.Holds := by
  induction run with
  | refl => exact recovery_initial queueName
  | tail earlier step ih =>
      obtain ⟨-, linked, flagged⟩ := link_run earlier
      exact ih.step (step.recovery flagged linked ih)

/-- Since `r` either no connection was attempted and no timer armed, or a generation began. -/
def Recovery.Since (r r' : Recovery) : Prop :=
  r.generation < r'.generation ∨
    r'.generation = r.generation ∧ r'.nextConnection = r.nextConnection ∧ r'.started = true ∧
      r'.reconnects = 0

namespace Recovery

theorem fail_frame (r : Recovery) : r.fail.generation = r.generation ∧
    r.fail.nextConnection = r.nextConnection ∧ r.fail.started = r.started ∧
      r.fail.reconnects = r.reconnects := by
  unfold fail
  split <;> exact ⟨rfl, rfl, rfl, rfl⟩

theorem connect_frame (r : Recovery) (channels : SortedMap Int Watch) (built : Bool) :
    (r.connect channels built).generation = r.generation ∧
      (r.connect channels built).started = r.started ∧
        (r.connect channels built).reconnects = r.reconnects := by
  cases built with
  | true => exact ⟨rfl, rfl, rfl⟩
  | false =>
      obtain ⟨generation, -, started, reconnects⟩ := fail_frame { r with
        constructing := false, recovering := false, channels := channels
        nextConnection := r.nextConnection + 1 }
      exact ⟨generation, started, reconnects⟩

/-- An attempt to connect leaves no timer armed. -/
theorem Holds.attempt {r r' : Recovery} (holds : r.Holds) (move : Move r r')
    (attempted : r.nextConnection < r'.nextConnection) : r'.started = true ∧ r'.reconnects = 0 := by
  cases move with
  | quiet => exact absurd attempted (Nat.lt_irrefl _)
  | fail started =>
      rw [(fail_frame r).2.1] at attempted
      exact absurd attempted (Nat.lt_irrefl _)
  | recover => exact absurd attempted (Nat.lt_irrefl _)
  | start built off owned =>
      obtain ⟨-, started, reconnects⟩ := connect_frame { r with started := true } _ built
      rw [started, reconnects]
      exact ⟨rfl, (holds.fresh off).2.2.2.2.2⟩
  | @reconnect n channels built alive some owned =>
      obtain ⟨-, started, reconnects⟩ := connect_frame (r.fire n) channels built
      have one := holds.one alive
      have most : r.recovering.toNat ≤ 1 := Bool.toNat_le _
      rw [started, reconnects]
      constructor
      · by_contra off
        have idle := (holds.fresh (Bool.eq_false_of_not_eq_true off)).2.2.2.2.2
        omega
      · change n = 0
        omega
  | monitor => exact absurd attempted (Nat.lt_irrefl _)
  | opens => exact absurd attempted (Nat.lt_irrefl _)
  | stop => exact absurd attempted (Nat.lt_irrefl _)

theorem Since.step {r r' r'' : Recovery} (since : r.Since r') (move : Move r' r'') : r.Since r'' := by
  rcases since with more | ⟨generation, attempts, started, idle⟩
  · left
    cases move with
    | quiet => exact more
    | fail _ =>
        rw [(fail_frame r').1]
        exact more
    | recover => exact Nat.lt_succ_of_lt more
    | start built =>
        rw [(connect_frame _ _ built).1]
        exact more
    | reconnect built =>
        rw [(connect_frame _ _ built).1]
        exact more
    | monitor => exact more
    | opens => exact more
    | stop => exact Nat.lt_succ_of_lt more
  · cases move with
    | quiet => exact .inr ⟨generation, attempts, started, idle⟩
    | fail _ =>
        obtain ⟨g, n, s, i⟩ := fail_frame r'
        exact .inr ⟨g.trans generation, n.trans attempts, s.trans started, i.trans idle⟩
    | recover => exact .inl (generation ▸ Nat.lt_succ_self _)
    | start built off => exact absurd (started.symm.trans off) (by decide)
    | reconnect built alive some => exact absurd (idle.symm.trans some) (Nat.succ_ne_zero _).symm
    | monitor => exact .inr ⟨generation, attempts, started, idle⟩
    | opens => exact .inr ⟨generation, attempts, started, idle⟩
    | stop => exact .inl (generation ▸ Nat.lt_succ_self _)

end Recovery

theorem since_run {codec : JsonCodec} {queueName : Bytes} {tr tr' : List Obs} {w w' : World}
    (run : Run (Step codec) (.initial queueName) tr w) (later : Run (Step codec) w tr' w')
    (start : w.recovery.Since w.recovery) : w.recovery.Since w'.recovery := by
  induction later with
  | refl => exact start
  | tail earlier step ih =>
      have whole := run.trans earlier
      obtain ⟨-, linked, flagged⟩ := link_run whole
      exact ih.step (step.recovery flagged linked (recovery_holds whole))

/-- In every state before the shutdown: a recovery is one action, its functor or its timer;
the delay is in bounds; outside a recovery every descriptor belongs to the connection; a
retired connection changes nothing; between two attempts to connect a generation begins; and a
connect or a drain that itself reports failures ends in a state of a run. -/
theorem reconnect_safe {codec : JsonCodec} {queueName : Bytes} {tr : List Obs} {w : World}
    (run : Run (Step codec) (.initial queueName) tr w) (up : w.handler.shuttingDown = false) :
    w.functors.count .recovers + w.timers.countP Timer.isReconnects =
        (if w.handler.recovering then 1 else 0) ∧
      w.timers.countP Timer.isReconnects = (if w.handler.reconnectScheduled then 1 else 0) ∧
      5 ≤ w.handler.reconnectDelaySec ∧ w.handler.reconnectDelaySec ≤ 60 ∧
      (w.handler.recovering = false → ∀ fd watch, w.handler.channels.find? fd = some watch →
        w.handler.connection = some watch.connection) ∧
      (∀ connection fd readable writable, w.handler.connection ≠ some connection →
        w.handler.monitor connection fd readable writable = w.handler) ∧
      (∀ {out tr' : List Obs} {w₁ w₂ : World}, Step codec w out w₁ → w.nextConnection < w₁.nextConnection →
        Run (Step codec) w₁ tr' w₂ → w₁.nextConnection < w₂.nextConnection →
          w₁.handler.generation < w₂.handler.generation) ∧
      (∀ {out : List Obs} {w' : World} {reports : List Report} {built : Bool}, w'.started = true →
        Step codec w out (w'.connect (watchedOf reports) built) →
          Run (Step codec) w out (w'.connectReporting reports built)) ∧
      ∀ {out : List Obs} {w' : World} {channel : Nat} {sent : Nat → Bool} {items : List Publication}
        (fails : Nat → Bool), w'.started = true →
        Step codec w out (World.drainLoop channel sent 0 items w').2 →
          (World.drainReporting channel sent fails 0 items w').1 =
              (World.drainLoop channel sent 0 items w').1 ∧
            Run (Step codec) w out (World.drainReporting channel sent fails 0 items w').2 := by
  obtain ⟨-, linked, flagged⟩ := link_run run
  have alive : w.handler.alive = true := by
    unfold World.Flagged at flagged
    rw [up] at flagged
    simpa using flagged.symm
  have holds := recovery_holds run
  have recovers : w.recovery.recovers = w.functors.count .recovers := if_pos alive
  have reconnects : w.recovery.reconnects = w.timers.countP Timer.isReconnects := if_pos alive
  have one := holds.one alive
  have armed := holds.armed alive
  rw [recovers, reconnects] at one
  rw [reconnects] at armed
  refine ⟨?_, ?_, holds.delay.1, holds.delay.2, holds.owners alive, ?_, ?_, reporting_connect_run,
    reporting_drain_run⟩
  · rw [one]
    change w.handler.recovering.toNat = _
    cases w.handler.recovering <;> rfl
  · rw [armed]
    change w.handler.reconnectScheduled.toNat = _
    cases w.handler.reconnectScheduled <;> rfl
  · intro connection fd readable writable retired
    exact monitor_retired holds.steady retired fd readable writable
  · intro out tr' w₁ w₂ step first later second
    obtain ⟨started, idle⟩ := holds.attempt (step.recovery flagged linked holds) first
    rcases since_run (run.tail step) later (.inr ⟨rfl, rfl, started, idle⟩) with more | ⟨-, same, -, -⟩
    · exact more
    · exact absurd same (Nat.ne_of_gt second)

theorem reconnect_safe_failed : ∃ tr w, Run (Step flatCodec) (.initial (bytes "sql_queue")) tr w ∧
    w.functors = [.recovers] ∧ w.functors.count .recovers + w.timers.countP Timer.isReconnects =
      (if w.handler.recovering then 1 else 0) := by
  have failed : Run (Step flatCodec) (.initial (bytes "sql_queue")) _ _ :=
    Run.refl.tail (.start [⟨10, true, false⟩] false rfl)
  exact ⟨_, _, failed, rfl, (reconnect_safe failed rfl).1⟩

end AIService.MQ
