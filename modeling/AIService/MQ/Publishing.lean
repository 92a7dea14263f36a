import AIService.Ledger
import AIService.MQ.Handler

/-!
# The publisher is a ledger

`World.ledger` reads a `Ledger` off the admissions, the queue and the window of a handler, and
every step of a live handler is a run of its moves (`ledger_run`).  So what the library says of
ledgers holds of the handler: `kept`.

`World.frame` is what the publishing functions leave alone.
-/

namespace AIService.MQ

open Ledger

/-- The item of an admission in the loop. -/
def Functor.admits? : Functor → Option Publication
  | .admits item => some item
  | _ => none

namespace World

variable (w : World)

def ledger : Ledger Publication where
  reserved := (w.calls.filter (·.phase = .reserved)).length
  queued := w.functors.filterMap Functor.admits?
  waiting := w.handler.pending
  window := w.handler.inflight.entries
  nextTag := w.handler.nextPublishTag
  count := w.handler.outstanding

/-- All but the publisher's containers, and what a failed connection changes. -/
def frame : World :=
  { w with
    handler := { w.handler with
      pending := []
      inflight := .empty
      nextPublishTag := 1
      outstanding := 0
      recovering := false
      producerReady := false }
    functors := w.functors.filter (· ≠ .recovers) }

end World

/-- The ledger's view of what is seen. -/
def Obs.events : Obs → List (Event Publication)
  | .accepted item => [.accept item]
  | .admitted item => [.enter item]
  | .published _ tag item => [.publish tag item]
  | .retired tag item => [.retire tag item]
  | .began _ => [.restart]
  | _ => []

def events (tr : List Obs) : List (Event Publication) := tr.flatMap Obs.events

@[simp] theorem events_nil : events [] = [] := rfl

@[simp] theorem events_cons (o : Obs) (tr : List Obs) : events (o :: tr) = o.events ++ events tr := rfl

@[simp] theorem events_append (tr tr' : List Obs) : events (tr ++ tr') = events tr ++ events tr' :=
  List.flatMap_append

/-! ## A failed connection -/

section connection

variable (w : World)

@[simp] theorem connectionFailed_ledger : w.connectionFailed.ledger = w.ledger := by
  unfold World.connectionFailed
  split
  · rfl
  · simp [World.ledger, Functor.admits?]

@[simp] theorem connectionFailed_frame : w.connectionFailed.frame = w.frame := by
  unfold World.connectionFailed
  split
  · rfl
  · simp [World.frame]

/-- A handler without its descriptors. -/
def Handler.core (h : Handler) : Handler := { h with channels := .empty }

@[simp] theorem monitor_core (h : Handler) (connection : Nat) (fd : Int) (readable writable : Bool) :
    (h.monitor connection fd readable writable).core = h.core := by
  unfold Handler.monitor
  split
  · rfl
  · split
    · rfl
    · split <;> rfl

theorem monitorAll_core (h : Handler) (connection : Nat) (watched : List Monitored) :
    (watched.foldl (fun h m => h.monitor connection m.fd m.readable m.writable) h).core = h.core := by
  induction watched generalizing h with
  | nil => rfl
  | cons m rest ih => rw [List.foldl_cons, ih, monitor_core]

/-- What a new connection changes besides its descriptors. -/
theorem connect_eq (watched : List Monitored) (built : Bool) :
    ∃ h : Handler, h.core = ({ w.handler with
        recovering := false, constructingConnection := false } : Handler).core ∧
      w.connect watched built =
        if built then { w with
          handler := { h with connection := some w.nextConnection }
          nextConnection := w.nextConnection + 1, connected := false }
        else World.connectionFailed { w with
          handler := h, nextConnection := w.nextConnection + 1, connected := false } := by
  refine ⟨_, ?_, rfl⟩
  have core := monitorAll_core
    { w.handler with recovering := false, constructingConnection := true } w.nextConnection watched
  have flag := congrArg (fun h : Handler => { h with constructingConnection := false }) core
  exact flag

end connection

/-! ## Draining -/

/-- The tags below the next one. -/
def World.TagsBelow (w : World) : Prop :=
  ∀ entry ∈ w.handler.inflight.entries, entry.1 < w.handler.nextPublishTag

/-- What the loop of a drain may do: it empties the queue, publishes the first entry and goes on, fails
over it, or stops before it. -/
inductive Drains (channel : Nat) : List Publication → World → List Obs → World → Prop
  | empty {w : World} : Drains channel [] w [] { w with handler := { w.handler with pending := [] } }
  | publish {w w' : World} {item : Publication} {rest : List Publication} {out : List Obs} :
    w.handler.inflight.size < maxInflight →
    Drains channel rest { w with handler := { w.handler with
      inflight := w.handler.inflight.insert w.handler.nextPublishTag item
      nextPublishTag := w.handler.nextPublishTag + 1 } } out w' →
    Drains channel (item :: rest) w (.published channel w.handler.nextPublishTag item :: out) w'
  | fails {w : World} {item : Publication} {rest : List Publication} :
    Drains channel (item :: rest) w []
      (World.connectionFailed { w with handler := { w.handler with pending := item :: rest } })
  | stops {w : World} {item : Publication} {rest : List Publication} :
    Drains channel (item :: rest) w [] { w with handler := { w.handler with pending := item :: rest } }

theorem drains_of_drainLoop {channel : Nat} {sent : Nat → Bool} {i : Nat} {items : List Publication}
    {w w' : World} {out : List Obs} (ran : World.drainLoop channel sent i items w = (out, w')) :
    Drains channel items w out w' := by
  induction items generalizing i w out with
  | nil =>
      cases ran
      exact .empty
  | cons item rest ih =>
      rw [World.drainLoop] at ran
      dsimp only at ran
      split at ran
      · next room =>
          split at ran
          · generalize drained : World.drainLoop channel sent (i + 1) rest _ = result at ran
            obtain ⟨later, w''⟩ := result
            cases ran
            exact .publish room (ih drained)
          · cases ran
            exact .fails
      · cases ran
        exact .stops

/-- A drain shows what it published on the producer's channel, and leaves the frame alone. -/
theorem Drains.shows {channel : Nat} {items : List Publication} {w w' : World} {out : List Obs}
    (drains : Drains channel items w out w') :
    w'.frame = w.frame ∧ ∀ o ∈ out, ∃ tag item, o = .published channel tag item := by
  induction drains with
  | empty | stops => exact ⟨rfl, fun _ member => nomatch member⟩
  | fails => exact ⟨connectionFailed_frame _, fun _ member => nomatch member⟩
  | publish _ _ ih =>
      obtain ⟨frame, shown⟩ := ih
      refine ⟨frame, fun o member => ?_⟩
      rcases List.mem_cons.mp member with rfl | member
      · exact ⟨_, _, rfl⟩
      · exact shown o member

theorem Drains.run {channel : Nat} {items : List Publication} {w w' : World} {out : List Obs}
    (drains : Drains channel items w out w') (below : w.TagsBelow) :
    Run (Move maxPending maxInflight) { w.ledger with waiting := items } (events out) w'.ledger := by
  induction drains with
  | empty | stops => exact .refl
  | fails =>
      rw [connectionFailed_ledger]
      exact .refl
  | @publish w w' item rest out room _ ih =>
      have entries := SortedMap.entries_insert_last w.handler.inflight below item
      have first : Move maxPending maxInflight { w.ledger with waiting := item :: rest }
          [.publish w.handler.nextPublishTag item] _ := .publish rfl room
      have later := ih (by
        intro entry member
        rw [entries] at member
        rcases List.mem_append.mp member with old | new
        · exact Nat.lt_succ_of_lt (below entry old)
        · rw [List.mem_singleton.mp new]
          exact Nat.lt_succ_self _)
      have same : ({ w with
          handler := { w.handler with
            inflight := w.handler.inflight.insert w.handler.nextPublishTag item
            nextPublishTag := w.handler.nextPublishTag + 1 } } : World).ledger =
          { w.ledger with
            window := w.handler.inflight.entries ++ [(w.handler.nextPublishTag, item)]
            nextTag := w.handler.nextPublishTag + 1 } := by
        simp only [World.ledger, entries]
      rw [same] at later
      rw [events_cons]
      exact (Run.single first).trans later

theorem drainPending_shows {sent : Nat → Bool} {w w' : World} {out : List Obs}
    (ran : w.drainPending sent = (out, w')) :
    w'.frame = w.frame ∧ ∀ o ∈ out, ∃ channel tag item,
      w.handler.producerChannel = some channel ∧ o = .published channel tag item := by
  unfold World.drainPending at ran
  split at ran
  · cases ran
    exact ⟨rfl, fun _ member => nomatch member⟩
  · split at ran
    · cases ran
      exact ⟨rfl, fun _ member => nomatch member⟩
    · next channel here =>
        obtain ⟨frame, shown⟩ := (drains_of_drainLoop ran).shows
        refine ⟨frame, fun o member => ?_⟩
        obtain ⟨tag, item, same⟩ := shown o member
        exact ⟨channel, tag, item, here, same⟩

theorem drain_shows (w : World) (sent : Nat → Bool) :
    (w.drainPending sent).2.frame = w.frame ∧ ∀ o ∈ (w.drainPending sent).1, ∃ channel tag item,
      w.handler.producerChannel = some channel ∧ o = .published channel tag item :=
  drainPending_shows (Prod.eta _).symm

theorem drainPending_run {sent : Nat → Bool} {w w' : World} {out : List Obs} (below : w.TagsBelow)
    (ran : w.drainPending sent = (out, w')) :
    Run (Move maxPending maxInflight) w.ledger (events out) w'.ledger := by
  unfold World.drainPending at ran
  split at ran
  · cases ran
    exact .refl
  · split at ran
    · cases ran
      exact .refl
    · exact (drains_of_drainLoop ran).run below

/-! ## Confirming -/

@[simp] theorem settle_events (h : Handler) (d : Delivery) (ok : Bool) : events (h.settle d ok) = [] := by
  unfold Handler.settle
  split
  · split
    · cases ok <;> rfl
    · rfl
  · rfl

/-- What the completion of a confirmed publication does. -/
def World.completed (w : World) (item : Publication) : List Obs :=
  match item.completion with
  | some d => w.handler.settle d true
  | none => []

theorem retireAll_shows (w : World) (entries : List (Nat × Publication)) :
    (w.retireAll entries).2.frame = w.frame ∧ (w.retireAll entries).1 =
      entries.flatMap fun entry => .retired entry.1 entry.2 :: w.completed entry.2 := by
  induction entries generalizing w with
  | nil => exact ⟨rfl, rfl⟩
  | cons entry rest ih =>
      obtain ⟨frame, shown⟩ := ih (w.retire entry).2
      refine ⟨frame, ?_⟩
      rw [List.flatMap_cons]
      exact congrArg ((w.retire entry).1 ++ ·) shown

/-- What the loop of `confirm` may assume of its entries. -/
structure World.Holds (w : World) (entries : List (Nat × Publication)) : Prop where
  members : ∀ entry ∈ entries, entry ∈ w.handler.inflight.entries
  distinct : (entries.map Prod.fst).Nodup
  counted : w.handler.inflight.entries.length ≤ w.handler.outstanding

theorem retire_run {w : World} {entry : Nat × Publication} {rest : List (Nat × Publication)}
    (holds : w.Holds (entry :: rest)) (below : w.TagsBelow) :
    Move maxPending maxInflight w.ledger [.retire entry.1 entry.2] (w.retire entry).2.ledger ∧
      (w.retire entry).2.Holds rest ∧ (w.retire entry).2.TagsBelow := by
  obtain ⟨members, distinct, counted⟩ := holds
  have member : (entry.1, entry.2) ∈ w.handler.inflight.entries := members entry (.head _)
  have some : 1 ≤ w.handler.outstanding :=
    Nat.le_trans (List.length_pos_of_mem member) counted
  have less : (w.handler.inflight.entries.filter fun e => e.1 ≠ entry.1).length
      < w.handler.inflight.entries.length :=
    List.length_filter_lt_length_iff_exists.mpr ⟨_, member, by simp⟩
  rw [List.map_cons, List.nodup_cons] at distinct
  refine ⟨?_, ⟨fun e later => ?_, distinct.2, ?_⟩, fun e member => ?_⟩
  · have move : Move maxPending maxInflight w.ledger [.retire entry.1 entry.2] _ := .retire member
    have same : (w.retire entry).2.ledger = { w.ledger with
        window := w.ledger.window.filter fun e => e.1 ≠ entry.1, count := w.ledger.count - 1 } := by
      simp only [World.retire, World.ledger, SortedMap.entries_erase, sizeSub_eq some]
    rw [same]
    exact move
  · change e ∈ w.handler.inflight.entries.filter fun e => e.1 ≠ entry.1
    refine List.mem_filter.mpr ⟨members e (.tail _ later), decide_eq_true fun same => ?_⟩
    exact distinct.1 (same ▸ List.mem_map_of_mem later)
  · change (w.handler.inflight.entries.filter fun e => e.1 ≠ entry.1).length
      ≤ sizeSub w.handler.outstanding 1
    rw [sizeSub_eq some]
    omega
  · exact below e (List.mem_filter.mp member).1

theorem retireAll_run {entries : List (Nat × Publication)} {w : World} (holds : w.Holds entries)
    (below : w.TagsBelow) :
    Run (Move maxPending maxInflight) w.ledger (events (w.retireAll entries).1)
        (w.retireAll entries).2.ledger ∧ (w.retireAll entries).2.TagsBelow := by
  induction entries generalizing w with
  | nil => exact ⟨.refl, below⟩
  | cons entry rest ih =>
      obtain ⟨move, holds', below'⟩ := retire_run holds below
      obtain ⟨run, below''⟩ := ih holds' below'
      refine ⟨?_, below''⟩
      have one : events (w.retire entry).1 = [.retire entry.1 entry.2] := by
        rw [World.retire]
        cases entry.2.completion <;> simp [Obs.events]
      change Run _ _ (events ((w.retire entry).1 ++ ((w.retire entry).2.retireAll rest).1)) _
      rw [events_append, one]
      exact (Run.single move).trans run

/-- A confirm that is heeded retires what it covers and goes on draining. -/
theorem confirm_eq {w w' : World} {tag : Nat} {multiple accepted : Bool} {sent : Nat → Bool}
    {out : List Obs} (ran : w.confirm tag multiple accepted sent = (out, w')) :
    out = [] ∧ (w' = w ∨ w' = w.connectionFailed) ∨
      accepted = true ∧ w.handler.recovering = false ∧ w.handler.shuttingDown = false ∧
      ∃ later, out = (w.retireAll
          (w.handler.inflight.entries.filter fun entry => World.covers tag multiple entry.1)).1 ++ later ∧
        (w.retireAll (w.handler.inflight.entries.filter fun entry =>
          World.covers tag multiple entry.1)).2.drainPending sent = (later, w') := by
  unfold World.confirm at ran
  split at ran
  · cases ran
    exact .inl ⟨rfl, .inl rfl⟩
  next heeded =>
    rw [not_or, Bool.not_eq_true, Bool.not_eq_true] at heeded
    split at ran
    · cases ran
      exact .inl ⟨rfl, .inr rfl⟩
    next positive =>
      generalize w.retireAll _ = result at ran ⊢
      obtain ⟨first, w₁⟩ := result
      dsimp only at ran ⊢
      generalize w₁.drainPending sent = result at ran ⊢
      obtain ⟨later, w₂⟩ := result
      cases ran
      exact .inr ⟨by simpa using positive, heeded.1, heeded.2, later, rfl, rfl⟩

theorem confirm_shows {w w' : World} {tag : Nat} {multiple accepted : Bool} {sent : Nat → Bool}
    {out : List Obs} (ran : w.confirm tag multiple accepted sent = (out, w')) :
    w'.frame = w.frame ∧ ∀ o ∈ out,
      (∃ channel tag item, w.handler.producerChannel = some channel ∧ o = .published channel tag item) ∨
      ∃ entry ∈ w.handler.inflight.entries,
        o = .retired entry.1 entry.2 ∨ o ∈ w.completed entry.2 := by
  rcases confirm_eq ran with ⟨rfl, rfl | rfl⟩ | ⟨-, -, -, later, rfl, drained⟩
  · exact ⟨rfl, fun _ member => nomatch member⟩
  · exact ⟨connectionFailed_frame w, fun _ member => nomatch member⟩
  · obtain ⟨frame, retired⟩ := retireAll_shows w
      (w.handler.inflight.entries.filter fun entry => World.covers tag multiple entry.1)
    obtain ⟨frame', shown⟩ := drainPending_shows drained
    have channel := congrArg (·.handler.producerChannel) frame
    refine ⟨frame'.trans frame, fun o member => ?_⟩
    rcases List.mem_append.mp member with early | late
    · rw [retired, List.mem_flatMap] at early
      obtain ⟨entry, covered, here⟩ := early
      exact .inr ⟨entry, (List.mem_filter.mp covered).1, List.mem_cons.mp here⟩
    · obtain ⟨c, tag', item, here, same⟩ := shown o late
      exact .inl ⟨c, tag', item, channel.symm.trans here, same⟩

theorem confirm_run {tag : Nat} {multiple accepted : Bool} {sent : Nat → Bool} {w w' : World}
    {out : List Obs} (below : w.TagsBelow)
    (counted : w.handler.inflight.entries.length ≤ w.handler.outstanding)
    (ran : w.confirm tag multiple accepted sent = (out, w')) :
    Run (Move maxPending maxInflight) w.ledger (events out) w'.ledger := by
  rcases confirm_eq ran with ⟨rfl, rfl | rfl⟩ | ⟨-, -, -, later, rfl, drained⟩
  · exact .refl
  · rw [connectionFailed_ledger]
    exact .refl
  · have sorted : (w.handler.inflight.entries.map Prod.fst).Nodup := by
      refine List.Pairwise.map _ (fun a b less => ?_) w.handler.inflight.sorted
      exact Nat.ne_of_lt less
    obtain ⟨run, below'⟩ := retireAll_run
      ⟨fun _ member => (List.mem_filter.mp member).1, (List.filter_sublist.map _).nodup sorted, counted⟩
      below
    rw [events_append]
    exact run.trans (drainPending_run below' drained)

/-! ## Steps -/

@[simp] theorem connect_ledger (w : World) (watched : List Monitored) (built : Bool) :
    (w.connect watched built).ledger = w.ledger := by
  obtain ⟨h, core, made⟩ := connect_eq w watched built
  have pending : h.pending = w.handler.pending := congrArg (·.pending) core
  have inflight : h.inflight = w.handler.inflight := congrArg (·.inflight) core
  have tag : h.nextPublishTag = w.handler.nextPublishTag := congrArg (·.nextPublishTag) core
  have count : h.outstanding = w.handler.outstanding := congrArg (·.outstanding) core
  rw [made]
  cases built with
  | true => simp only [if_true, World.ledger, pending, inflight, tag, count]
  | false =>
      rw [if_neg Bool.false_ne_true, connectionFailed_ledger]
      simp only [World.ledger, pending, inflight, tag, count]

@[simp] theorem monitor_ledger (w : World) (connection : Nat) (m : Monitored) :
    ({ w with handler := w.handler.monitor connection m.fd m.readable m.writable } : World).ledger =
      w.ledger := by
  have core := monitor_core w.handler connection m.fd m.readable m.writable
  have pending := congrArg (·.pending) core
  have inflight := congrArg (·.inflight) core
  have tag := congrArg (·.nextPublishTag) core
  have count := congrArg (·.outstanding) core
  simp only [Handler.core] at pending inflight tag count
  simp only [World.ledger, pending, inflight, tag, count]

@[simp] theorem scheduleReconnect_ledger (w : World) : w.scheduleReconnect.ledger = w.ledger := by
  unfold World.scheduleReconnect
  split <;> rfl

@[simp] theorem refuse_events (w : World) (item : Publication) : events (w.refuse item) = [] := by
  unfold World.refuse
  cases item.completion <;> simp [Obs.events]

theorem schedulePublish_ledger (w : World) (queue body : Bytes) (completion : Option Delivery) :
    events (w.schedulePublish queue body completion).1 = [] ∧
      (w.schedulePublish queue body completion).2.ledger = w.ledger := by
  unfold World.schedulePublish
  dsimp only
  split
  · simp [World.ledger]
  · exact ⟨refuse_events _ _, rfl⟩

theorem loadOutstanding_ledger {w : World} {before after : List PublishCall} {call : PublishCall}
    (calls : w.calls = before ++ call :: after) (free : call.phase ≠ .reserved) (item : Publication) :
    events (w.loadOutstanding before after item).1 = [] ∧
      (w.loadOutstanding before after item).2.ledger = w.ledger := by
  unfold World.loadOutstanding
  dsimp only
  split
  · simp [World.ledger, calls, free]
  · simp [World.ledger, calls, free]

theorem completeDelivery_ledger (codec : JsonCodec) (w : World) (d : Delivery) (result : Disposition)
    (body : Bytes) :
    events (w.completeDelivery codec d result body).1 = [] ∧
      (w.completeDelivery codec d result body).2.ledger = w.ledger := by
  unfold World.completeDelivery
  split
  · exact ⟨rfl, rfl⟩
  · split
    · exact ⟨rfl, rfl⟩
    · split <;> exact ⟨rfl, rfl⟩

theorem runFunctor_run {codec : JsonCodec} {w : World} {f : Functor} {rest : List Functor}
    {sent : Nat → Bool} (functors : w.functors = f :: rest) (alive : w.handler.alive = true)
    (below : w.TagsBelow) :
    Run (Move maxPending maxInflight) w.ledger
      (events ({ w with functors := rest }.runFunctor codec sent f).1)
      ({ w with functors := rest }.runFunctor codec sent f).2.ledger := by
  unfold World.runFunctor
  cases f with
  | admits item =>
      have first : w.ledger.queued = item :: rest.filterMap Functor.admits? := by
        simp [World.ledger, functors, Functor.admits?]
      have move : Move maxPending maxInflight w.ledger [.enter item] _ := .enter first
      dsimp only
      rw [if_pos alive, events_cons]
      exact (Run.single move).trans (drainPending_run (w := { w with
        functors := rest
        handler := { w.handler with pending := w.handler.pending ++ [item] } }) below rfl)
  | completes d result body =>
      have same : ({ w with functors := rest } : World).ledger = w.ledger := by
        rw [World.ledger, World.ledger, functors]
        rfl
      obtain ⟨silent, kept⟩ := completeDelivery_ledger codec { w with functors := rest } d result body
      dsimp only
      rw [if_pos alive, silent, kept, same]
      exact .refl
  | recovers =>
      have same : ({ w with functors := rest } : World).ledger = w.ledger := by
        rw [World.ledger, World.ledger, functors]
        rfl
      have move : Move maxPending maxInflight ({ w with functors := rest } : World).ledger
        [.restart] _ := .restart
      dsimp only
      rw [if_pos alive, scheduleReconnect_ledger, ← same]
      exact .single move

theorem fireTimer_ledger (w : World) (watched : List Monitored) (built : Bool) (t : Timer) :
    events (w.fireTimer watched built t).1 = [] ∧
      (w.fireTimer watched built t).2.ledger = w.ledger := by
  cases t with
  | reconnects delay =>
      unfold World.fireTimer
      dsimp only
      split
      · rw [connect_ledger]
        exact ⟨rfl, rfl⟩
      · exact ⟨rfl, rfl⟩
  | retries d target body delay =>
      unfold World.fireTimer
      dsimp only
      split
      · exact schedulePublish_ledger w target body (some d)
      · exact ⟨rfl, rfl⟩

/-- A section of a live handler is a run of its ledger. -/
theorem Step.ledger {codec : JsonCodec} {w w' : World} {out : List Obs} (step : Step codec w out w')
    (alive : w.handler.alive = true) (below : w.TagsBelow)
    (counted : w.handler.inflight.entries.length ≤ w.handler.outstanding)
    (loads : ∀ call ∈ w.calls, ∀ count, call.phase = .loaded count → count < maxPending) :
    Run (Move maxPending maxInflight) w.ledger (events out) w'.ledger := by
  cases step with
  | start watched built fresh =>
      rw [connect_ledger]
      exact .refl
  | publish queue body =>
      obtain ⟨silent, same⟩ := schedulePublish_ledger w queue body none
      rw [silent, same]
      exact .refl
  | load calls =>
      obtain ⟨silent, same⟩ := loadOutstanding_ledger calls (by simp) _
      rw [silent, same]
      exact .refl
  | @exchange before after item count calls same =>
      have room : w.ledger.count < maxPending := by
        change w.handler.outstanding < maxPending
        rw [same]
        exact loads ⟨item, .loaded count⟩ (by simp [calls]) count rfl
      have move : Move maxPending maxInflight w.ledger [] _ := .reserve room
      have held : ({ w with
          handler := { w.handler with outstanding := count + 1 }
          calls := before ++ ⟨item, .reserved⟩ :: after } : World).ledger =
          { w.ledger with reserved := w.ledger.reserved + 1, count := w.ledger.count + 1 } := by
        simp [World.ledger, calls, same, Nat.add_assoc]
      rw [held]
      exact .single move
  | exchangeFails calls =>
      obtain ⟨silent, same⟩ := loadOutstanding_ledger calls (by simp) _
      rw [silent, same]
      exact .refl
  | @queueInLoop before after item calls =>
      have held : w.ledger.reserved = ((before ++ after).filter (·.phase = .reserved)).length + 1 := by
        simp [World.ledger, calls, Nat.add_assoc]
      have move : Move maxPending maxInflight w.ledger [.accept item] _ := .accept item held
      have queued : ({ w with
          functors := w.functors ++ [.admits item], calls := before ++ after } : World).ledger =
          { w.ledger with
            reserved := ((before ++ after).filter (·.phase = .reserved)).length
            queued := w.ledger.queued ++ [item] } := by
        simp [World.ledger, Functor.admits?]
      rw [queued]
      exact .single move
  | @functor f rest sent functors => exact runFunctor_run functors alive below
  | @timer before after t watched built timers =>
      obtain ⟨silent, same⟩ := fireTimer_ledger { w with timers := before ++ after } watched built t
      rw [silent, same]
      exact .refl
  | monitor connection m made =>
      rw [monitor_ledger]
      exact .refl
  | connectionFailed started =>
      rw [connectionFailed_ledger]
      exact .refl
  | onConnected held fresh => exact .refl
  | confirmSelected sent held =>
      exact drainPending_run (w := { w with handler := { w.handler with producerReady := true } }) below rfl
  | writable sent _ held calm => exact drainPending_run below rfl
  | confirm tag multiple accepted sent held =>
      rw [events_cons]
      exact confirm_run below counted (Prod.eta _).symm
  | deliver tag body held later => exact .refl
  | @ackFn before after fn result fns =>
      unfold World.callAckFn
      split
      · exact .refl
      · simp only [World.ledger, List.filterMap_append]
        rw [show [Functor.completes fn.delivery result fn.body].filterMap Functor.admits? = [] from rfl,
          List.append_nil]
        exact .refl
  | stop started live =>
      have move : Move maxPending maxInflight w.ledger [.restart] _ := .restart
      exact .single move

end AIService.MQ
