import AIService.Data.FlatJson
import AIService.MQ.Connections
import Mathlib.Data.List.Perm.Subperm

/-!
# What the publisher keeps account of

Every run of the handler is a run of a ledger (`ledger_run`), which is the handler's own while it
is alive.  From it: the counter is exact and bounded and every accepted publication is in one
place (`admission_accounting`), and a generation publishes what was unconfirmed, then what came
later, in order and under its tags (`publication_order`).

A confirm that comes while the handler recovers is ignored: its publications are sent again.
-/

namespace AIService.MQ

open Ledger

/-! ## The calls of `schedulePublish` -/

/-- What a section does with the calls in progress, and what it accepts. -/
inductive Hands (calls : List PublishCall) (nextTicket : Nat) (out : List Obs) (w' : World) : Prop
  | rest : w'.calls = calls → nextTicket ≤ w'.nextTicket → accepted (events out) = [] →
    Hands calls nextTicket out w'
  | enters (item : Publication) : item.ticket = nextTicket →
    w'.calls = calls ++ [⟨item, .checked⟩] → w'.nextTicket = nextTicket + 1 →
    accepted (events out) = [] → Hands calls nextTicket out w'
  | goes {before after : List PublishCall} {call : PublishCall} (phase : Phase) :
    calls = before ++ call :: after → w'.calls = before ++ ⟨call.item, phase⟩ :: after →
    (∀ count, phase = .loaded count → count < maxPending) → w'.nextTicket = nextTicket →
    accepted (events out) = [] → Hands calls nextTicket out w'
  | leaves {before after : List PublishCall} {call : PublishCall} :
    calls = before ++ call :: after → w'.calls = before ++ after → w'.nextTicket = nextTicket →
    accepted (events out) = [] ∨ accepted (events out) = [call.item] → Hands calls nextTicket out w'

theorem accepted_silent {out : List Obs} (silent : events out = []) : accepted (events out) = [] := by
  rw [silent]
  rfl

theorem accepted_none {out : List Obs} (none : ∀ o ∈ out, ∀ item, o ≠ .accepted item) :
    accepted (events out) = [] := by
  induction out with
  | nil => rfl
  | cons o rest ih =>
      have later := ih fun o' member => none o' (.tail _ member)
      have first := none o (.head _)
      rw [events_cons, Ledger.accepted_append, later, List.append_nil]
      cases o with
      | accepted item => exact absurd rfl (first item)
      | _ => rfl

theorem Hands.of_frame {w w' : World} {out : List Obs} (same : w'.frame = w.frame)
    (none : ∀ o ∈ out, ∀ item, o ≠ .accepted item) : Hands w.calls w.nextTicket out w' :=
  .rest (congrArg (·.calls) same) (Nat.le_of_eq (congrArg (·.nextTicket) same).symm) (accepted_none none)

theorem drainPending_hands (w : World) (sent : Nat → Bool) :
    Hands w.calls w.nextTicket (w.drainPending sent).1 (w.drainPending sent).2 := by
  obtain ⟨frame, shown⟩ := drain_shows w sent
  refine .of_frame frame fun o member item same => ?_
  obtain ⟨channel, tag, item', -, published⟩ := shown o member
  rw [published] at same
  cases same

theorem schedulePublish_hands (w : World) (queue body : Bytes) (completion : Option Delivery) :
    Hands w.calls w.nextTicket (w.schedulePublish queue body completion).1
      (w.schedulePublish queue body completion).2 := by
  have silent := (schedulePublish_ledger w queue body completion).1
  unfold World.schedulePublish at silent ⊢
  dsimp only at silent ⊢
  split
  · exact .enters ⟨queue, body, completion, w.nextTicket⟩ rfl rfl rfl rfl
  · next dead =>
      rw [if_neg dead] at silent
      exact .rest rfl (Nat.le_succ _) (accepted_silent silent)

theorem loadOutstanding_hands {w : World} {before after : List PublishCall} {call : PublishCall}
    (calls : w.calls = before ++ call :: after) :
    Hands w.calls w.nextTicket (w.loadOutstanding before after call.item).1
      (w.loadOutstanding before after call.item).2 := by
  unfold World.loadOutstanding
  dsimp only
  split
  · exact .leaves calls rfl rfl (.inl (accepted_silent (refuse_events w call.item)))
  · next room =>
      refine .goes (.loaded w.handler.outstanding) calls rfl (fun count same => ?_) rfl rfl
      cases same
      exact Nat.lt_of_not_le room

theorem connect_hands (w : World) (watched : List Monitored) (built : Bool) :
    Hands w.calls w.nextTicket [] (w.connect watched built) := by
  obtain ⟨h, -, made⟩ := connect_eq w watched built
  rw [made]
  cases built with
  | true => exact .rest rfl (Nat.le_refl _) rfl
  | false =>
      have same := connectionFailed_frame { w with
        handler := h, nextConnection := w.nextConnection + 1, connected := false }
      exact .rest (congrArg (·.calls) same) (Nat.le_of_eq (congrArg (·.nextTicket) same).symm) rfl

theorem runFunctor_hands (codec : JsonCodec) (w : World) (sent : Nat → Bool) (f : Functor) :
    Hands w.calls w.nextTicket (w.runFunctor codec sent f).1 (w.runFunctor codec sent f).2 := by
  unfold World.runFunctor
  cases f with
  | admits item =>
      dsimp only
      split
      · obtain ⟨frame, shown⟩ := drain_shows { w with
          handler := { w.handler with pending := w.handler.pending ++ [item] } } sent
        refine .of_frame frame fun o member item' same => ?_
        rcases List.mem_cons.mp member with here | later
        · rw [here] at same
          cases same
        · obtain ⟨channel, tag, other, -, published⟩ := shown o later
          rw [published] at same
          cases same
      · exact .rest rfl (Nat.le_refl _) rfl
  | completes d result body =>
      dsimp only
      split
      · have silent := (completeDelivery_ledger codec w d result body).1
        refine .rest ?_ ?_ (accepted_silent silent)
        · unfold World.completeDelivery
          split
          · rfl
          · split
            · rfl
            · split <;> rfl
        · unfold World.completeDelivery
          split
          · exact Nat.le_refl _
          · split
            · exact Nat.le_refl _
            · split <;> exact Nat.le_refl _
      · exact .rest rfl (Nat.le_refl _) rfl
  | recovers =>
      dsimp only
      split
      · unfold World.scheduleReconnect
        split <;> exact .rest rfl (Nat.le_refl _) rfl
      · exact .rest rfl (Nat.le_refl _) rfl

theorem fireTimer_hands (w : World) (watched : List Monitored) (built : Bool) (t : Timer) :
    Hands w.calls w.nextTicket (w.fireTimer watched built t).1 (w.fireTimer watched built t).2 := by
  unfold World.fireTimer
  cases t with
  | reconnects delay =>
      dsimp only
      split
      · exact connect_hands { w with handler := { w.handler with
          reconnectScheduled := false
          reconnectDelaySec := min 60 (w.handler.reconnectDelaySec * 2) } } watched built
      · exact .rest rfl (Nat.le_refl _) rfl
  | retries d target body delay =>
      dsimp only
      split
      · exact schedulePublish_hands w target body (some d)
      · exact .rest rfl (Nat.le_refl _) rfl

theorem confirm_accepts {w w' : World} {tag : Nat} {multiple positive : Bool} {sent : Nat → Bool}
    {out : List Obs} (ran : w.confirm tag multiple positive sent = (out, w')) :
    ∀ o ∈ .confirmed tag multiple positive :: out, ∀ item, o ≠ .accepted item := by
  intro o member item same
  rcases List.mem_cons.mp member with here | later
  · rw [here] at same
    cases same
  · rw [same] at later
    rcases (confirm_shows ran).2 _ later with ⟨channel, tag', item', -, here⟩ | ⟨entry, -, here | completed⟩
    · cases here
    · cases here
    · unfold World.completed at completed
      split at completed
      · obtain ⟨channel, -, -, -, here⟩ := settle_shows completed
        cases here
      · cases completed

theorem Step.hands {codec : JsonCodec} {w w' : World} {out : List Obs} (step : Step codec w out w') :
    Hands w.calls w.nextTicket out w' := by
  cases step with
  | start watched built off => exact connect_hands { w with started := true } watched built
  | publish queue body => exact schedulePublish_hands w queue body none
  | load calls => exact loadOutstanding_hands calls
  | exchange calls same => exact .goes .reserved calls rfl (fun _ other => nomatch other) rfl rfl
  | exchangeFails calls => exact loadOutstanding_hands calls
  | queueInLoop calls => exact .leaves calls rfl rfl (.inr rfl)
  | @functor f rest sent functors => exact runFunctor_hands codec { w with functors := rest } sent f
  | @timer before after t watched built timers =>
      exact fireTimer_hands { w with timers := before ++ after } watched built t
  | monitor connection m made => exact .rest rfl (Nat.le_refl _) rfl
  | connectionFailed started =>
      exact .of_frame (connectionFailed_frame w) fun _ member => nomatch member
  | onConnected held off => exact .rest rfl (Nat.le_refl _) rfl
  | confirmSelected sent held =>
      exact drainPending_hands { w with handler := { w.handler with producerReady := true } } sent
  | writable sent _ held calm => exact drainPending_hands w sent
  | confirm tag multiple accepted sent held =>
      have ran := (Prod.eta (w.confirm tag multiple accepted sent)).symm
      exact .of_frame (confirm_shows ran).1 (confirm_accepts ran)
  | deliver tag body held later => exact .rest rfl (Nat.le_refl _) rfl
  | ackFn result fns =>
      unfold World.callAckFn
      split <;> exact .rest rfl (Nat.le_refl _) rfl
  | stop started alive => exact .rest rfl (Nat.le_refl _) rfl

/-- Tickets tell publications apart, and a call that may reserve found room. -/
structure Called (w : World) (tr : List Obs) : Prop where
  loads : ∀ call ∈ w.calls, ∀ count, call.phase = .loaded count → count < maxPending
  distinct : ((accepted (events tr) ++ w.calls.map (·.item)).map (·.ticket)).Nodup
  below : ∀ item ∈ accepted (events tr) ++ w.calls.map (·.item), item.ticket < w.nextTicket

namespace Called

variable {w w' : World} {tr out : List Obs}

theorem initial (queueName : Bytes) : Called (.initial queueName) [] where
  loads _ member := nomatch member
  distinct := .nil
  below _ member := nomatch member

theorem step (called : Called w tr) (hands : Hands w.calls w.nextTicket out w') :
    Called w' (tr ++ out) := by
  obtain ⟨loads, distinct, below⟩ := called
  cases hands with
  | rest calls ticket none =>
      constructor
      · rw [calls]
        exact loads
      · rw [events_append, Ledger.accepted_append, none, List.append_nil, calls]
        exact distinct
      · rw [events_append, Ledger.accepted_append, none, List.append_nil, calls]
        exact fun item member => Nat.lt_of_lt_of_le (below item member) ticket
  | enters item fresh calls ticket none =>
      have whole : accepted (events (tr ++ out)) ++ w'.calls.map (·.item) =
          (accepted (events tr) ++ w.calls.map (·.item)) ++ [item] := by
        rw [events_append, Ledger.accepted_append, none, calls]
        simp
      constructor
      · intro call member count loaded
        rw [calls] at member
        rcases List.mem_append.mp member with old | new
        · exact loads call old count loaded
        · rw [List.mem_singleton.mp new] at loaded
          cases loaded
      · rw [whole, List.map_append]
        refine List.nodup_append.mpr ⟨distinct, List.nodup_singleton _, ?_⟩
        intro t old t' new same
        obtain ⟨item', member, here⟩ := List.mem_map.mp old
        have last : t' = item.ticket := List.mem_singleton.mp new
        have less := below item' member
        omega
      · rw [whole, ticket]
        intro item' member
        rcases List.mem_append.mp member with old | new
        · exact Nat.lt_succ_of_lt (below item' old)
        · rw [List.mem_singleton.mp new, fresh]
          exact Nat.lt_succ_self _
  | goes phase split calls room ticket none =>
      rw [split] at loads distinct below
      constructor
      · intro call member count loaded
        rw [calls] at member
        rcases List.mem_append.mp member with early | late
        · exact loads call (List.mem_append_left _ early) count loaded
        · rcases List.mem_cons.mp late with rfl | late
          · exact room count loaded
          · exact loads call (List.mem_append_right _ (.tail _ late)) count loaded
      · rw [events_append, Ledger.accepted_append, none, List.append_nil, calls]
        simpa using distinct
      · rw [events_append, Ledger.accepted_append, none, List.append_nil, calls, ticket]
        simpa using below
  | @leaves before after call split calls ticket outcome =>
      rw [split] at loads distinct below
      have kept : (accepted (events (tr ++ out)) ++ w'.calls.map (·.item)).Subperm
          (accepted (events tr) ++ (before ++ call :: after).map (·.item)) := by
        rw [events_append, Ledger.accepted_append, calls]
        rcases outcome with none | one
        · rw [none, List.append_nil]
          refine List.Sublist.subperm (List.Sublist.append_left ?_ _)
          simp
        · rw [one, List.append_assoc, List.map_append, List.map_append, List.map_cons]
          have moved : (call.item :: (before.map (·.item) ++ after.map (·.item))).Perm
              (before.map (·.item) ++ call.item :: after.map (·.item)) := List.perm_middle.symm
          exact (moved.append_left _).subperm
      constructor
      · intro call' member
        rw [calls] at member
        refine loads call' ?_
        rcases List.mem_append.mp member with early | late
        · exact List.mem_append_left _ early
        · exact List.mem_append_right _ (.tail _ late)
      · obtain ⟨l, perm, sub⟩ := kept
        exact (perm.map _).nodup_iff.mp ((sub.map _).nodup distinct)
      · rw [ticket]
        exact fun item member => below item (kept.subset member)

end Called

/-! ## Every run is a run of a ledger -/

/-- A ledger that follows the handler; it is the handler's own until `stop`. -/
structure Tracks (w : World) (l : Ledger Publication) : Prop where
  alive : w.handler.alive = true → l = w.ledger
  reserved : l.reserved = w.ledger.reserved
  count : l.count = w.ledger.count

theorem loadOutstanding_dead (w : World) (before after : List PublishCall) (item : Publication)
    (dead : w.handler.alive = false) : (w.loadOutstanding before after item).2.handler.alive = false := by
  unfold World.loadOutstanding
  dsimp only
  split <;> exact dead

/-- After `stop` calls are admitted to the loop, and nothing else is done. -/
theorem Step.stopped {codec : JsonCodec} {w w' : World} {out tr : List Obs} (step : Step codec w out w')
    (linked : Linked w.link tr) (dead : w.handler.alive = false)
    (loads : ∀ call ∈ w.calls, ∀ count, call.phase = .loaded count → count < maxPending)
    {l : Ledger Publication} (reserved : l.reserved = w.ledger.reserved)
    (count : l.count = w.ledger.count) :
    w'.handler.alive = false ∧ ∃ l', Run (Move maxPending maxInflight) l (events out) l' ∧
      l'.reserved = w'.ledger.reserved ∧ l'.count = w'.ledger.count := by
  obtain ⟨started, connection, producer, consumer⟩ := linked.dead dead
  have off : ¬ w.handler.alive = true := Bool.eq_false_iff.mp dead
  cases step with
  | start watched built fresh => exact absurd (started.symm.trans fresh) (by decide)
  | publish queue body =>
      obtain ⟨silent, same⟩ := schedulePublish_ledger w queue body none
      rw [silent, same]
      refine ⟨?_, l, .refl, reserved, count⟩
      unfold World.schedulePublish
      dsimp only
      split <;> exact dead
  | load calls =>
      obtain ⟨silent, same⟩ := loadOutstanding_ledger calls (by simp) _
      rw [silent, same]
      exact ⟨loadOutstanding_dead _ _ _ _ dead, l, .refl, reserved, count⟩
  | @exchange before after item loaded calls same =>
      have room : l.count < maxPending := by
        rw [count]
        change w.handler.outstanding < maxPending
        rw [same]
        exact loads ⟨item, .loaded loaded⟩ (by simp [calls]) loaded rfl
      refine ⟨dead, _, .single (.reserve room), ?_, ?_⟩
      · rw [reserved]
        simp [World.ledger, calls, Nat.add_assoc]
      · rw [count]
        simp [World.ledger, same]
  | exchangeFails calls =>
      obtain ⟨silent, same⟩ := loadOutstanding_ledger calls (by simp) _
      rw [silent, same]
      exact ⟨loadOutstanding_dead _ _ _ _ dead, l, .refl, reserved, count⟩
  | @queueInLoop before after item calls =>
      have held : l.reserved = ((before ++ after).filter (·.phase = .reserved)).length + 1 := by
        rw [reserved]
        simp [World.ledger, calls, Nat.add_assoc]
      exact ⟨dead, _, .single (.accept item held), rfl, count⟩
  | @functor f rest sent functors =>
      have nothing : { w with functors := rest }.runFunctor codec sent f =
          ([], { w with functors := rest }) := by
        unfold World.runFunctor
        cases f <;> exact if_neg off
      rw [nothing]
      exact ⟨dead, l, .refl, reserved, count⟩
  | @timer before after t watched built timers =>
      have nothing : { w with timers := before ++ after }.fireTimer watched built t =
          ([], { w with timers := before ++ after }) := by
        unfold World.fireTimer
        cases t with
        | reconnects delay => exact if_neg off
        | retries d target body delay => exact if_neg fun current => off current.1
      rw [nothing]
      exact ⟨dead, l, .refl, reserved, count⟩
  | monitor connection m made =>
      have core := monitor_core w.handler connection m.fd m.readable m.writable
      rw [monitor_ledger]
      exact ⟨(congrArg (·.alive) core).trans dead, l, .refl, reserved, count⟩
  | connectionFailed started =>
      rw [connectionFailed_ledger]
      exact ⟨(congrArg (·.handler.alive) (connectionFailed_frame w)).trans dead, l, .refl, reserved, count⟩
  | onConnected held _ =>
      rw [show w.handler.connection = none from connection] at held
      cases held
  | confirmSelected sent held =>
      rw [show w.handler.producerChannel = none from producer] at held
      cases held
  | writable sent live _ _ => exact absurd live off
  | confirm tag multiple accepted sent held =>
      rw [show w.handler.producerChannel = none from producer] at held
      cases held
  | deliver tag body held later =>
      rw [show w.handler.consumerChannel = none from consumer] at held
      cases held
  | @ackFn before after fn result fns =>
      unfold World.callAckFn
      split
      · exact ⟨dead, l, .refl, reserved, count⟩
      · exact ⟨dead, l, .refl, reserved, count⟩
  | stop _ live => exact absurd live off

/-- What a run of the handler keeps. -/
structure Accounted (w : World) (tr : List Obs) : Prop where
  linked : Linked w.link tr
  flagged : w.Flagged
  called : Called w tr
  tracked : ∃ l, Run (Move maxPending maxInflight) {} (events tr) l ∧ Tracks w l

theorem Called.nodup {w : World} {tr : List Obs} (called : Called w tr) :
    (accepted (events tr)).Nodup := by
  have tickets := called.distinct
  rw [List.map_append, List.nodup_append] at tickets
  exact List.Nodup.of_map _ tickets.1

theorem Called.kept {w : World} {tr : List Obs} {l : Ledger Publication} (called : Called w tr)
    (run : Run (Move maxPending maxInflight) {} (events tr) l) :
    Kept maxPending maxInflight l (events tr) :=
  kept_of_run run called.nodup

theorem accounted {codec : JsonCodec} {queueName : Bytes} {tr : List Obs} {w : World}
    (run : Run (Step codec) (.initial queueName) tr w) : Accounted w tr := by
  have start : Accounted (.initial queueName) [] :=
    ⟨.initial, rfl, .initial queueName, {}, .refl, fun _ => rfl, rfl, rfl⟩
  refine run.invariant start ?_
  intro w tr out w' held step
  obtain ⟨linked, flagged, called, l, earlier, alive, reserved, count⟩ := held
  obtain ⟨moves, flagged'⟩ := step.link flagged linked
  have linked' : Linked w'.link (tr ++ out) := by
    refine moves.invariant (I := fun l out => Linked l (tr ++ out)) (by simpa using linked) ?_
    intro l out l' out' linked move
    rw [← List.append_assoc]
    exact linked.step move
  refine ⟨linked', flagged', called.step step.hands, ?_⟩
  rw [events_append]
  cases live : w.handler.alive with
  | true =>
      have kept := called.kept earlier
      obtain rfl := alive live
      have counted : w.handler.inflight.entries.length ≤ w.handler.outstanding := by
        have exact_ := kept.count
        simp only [World.ledger] at exact_
        omega
      have moves := step.ledger live (fun entry => kept.window_lt) counted called.loads
      exact ⟨_, earlier.trans moves, fun _ => rfl, rfl, rfl⟩
  | false =>
      obtain ⟨dead, l', moves, reserved', count'⟩ :=
        step.stopped linked live called.loads reserved count
      exact ⟨l', earlier.trans moves, fun live => absurd live (Bool.eq_false_iff.mp dead), reserved', count'⟩

/-! ## What a confirm retires -/

def Obs.retired? : Obs → Option (Nat × Publication)
  | .retired tag item => some (tag, item)
  | _ => none

def retirements (out : List Obs) : List (Nat × Publication) := out.filterMap Obs.retired?

/-- Neither an answer of the broker nor what is done about it. -/
def Obs.Aside : Obs → Prop
  | .confirmed .. => False
  | .retired .. => False
  | _ => True

theorem retirements_aside {out : List Obs} (aside : ∀ o ∈ out, o.Aside) : retirements out = [] := by
  refine List.filterMap_eq_nil_iff.mpr fun o member => ?_
  have here := aside o member
  cases o with
  | retired tag item => cases here
  | _ => rfl

theorem settle_aside (h : Handler) (d : Delivery) (ok : Bool) : ∀ o ∈ h.settle d ok, o.Aside := by
  intro o shown
  obtain ⟨channel, -, -, -, rfl⟩ := settle_shows shown
  cases ok <;> trivial

theorem drainPending_aside (w : World) (sent : Nat → Bool) : ∀ o ∈ (w.drainPending sent).1, o.Aside := by
  intro o shown
  obtain ⟨channel, tag, item, -, rfl⟩ := (drain_shows w sent).2 o shown
  trivial

theorem refuse_aside (w : World) (item : Publication) : ∀ o ∈ w.refuse item, o.Aside := by
  intro o shown
  unfold World.refuse at shown
  rcases List.mem_cons.mp shown with rfl | settled
  · trivial
  · split at settled
    · exact settle_aside _ _ _ o settled
    · cases settled

theorem schedulePublish_aside (w : World) (queue body : Bytes) (completion : Option Delivery) :
    ∀ o ∈ (w.schedulePublish queue body completion).1, o.Aside := by
  unfold World.schedulePublish
  dsimp only
  split
  · exact fun _ member => nomatch member
  · exact refuse_aside _ _

theorem loadOutstanding_aside (w : World) (before after : List PublishCall) (item : Publication) :
    ∀ o ∈ (w.loadOutstanding before after item).1, o.Aside := by
  unfold World.loadOutstanding
  dsimp only
  split
  · exact refuse_aside _ _
  · exact fun _ member => nomatch member

theorem runFunctor_aside (codec : JsonCodec) (w : World) (sent : Nat → Bool) (f : Functor) :
    ∀ o ∈ (w.runFunctor codec sent f).1, o.Aside := by
  intro o
  unfold World.runFunctor
  cases f with
  | admits item =>
      dsimp only
      split
      · intro shown
        rcases List.mem_cons.mp shown with rfl | later
        · trivial
        · exact drainPending_aside _ sent o later
      · intro shown
        cases shown
  | completes d result body =>
      dsimp only
      split
      · unfold World.completeDelivery
        split
        · intro shown
          cases shown
        · split
          · intro shown
            cases shown
          · split
            · intro shown
              cases List.mem_singleton.mp shown
              trivial
            · intro shown
              cases shown
      · intro shown
        cases shown
  | recovers =>
      dsimp only
      split
      · intro shown
        cases List.mem_singleton.mp shown
        trivial
      · intro shown
        cases shown

theorem fireTimer_aside (w : World) (watched : List Monitored) (built : Bool) (t : Timer) :
    ∀ o ∈ (w.fireTimer watched built t).1, o.Aside := by
  unfold World.fireTimer
  cases t with
  | reconnects delay =>
      dsimp only
      split <;> exact fun _ member => nomatch member
  | retries d target body delay =>
      dsimp only
      split
      · exact schedulePublish_aside _ _ _ _
      · exact fun _ member => nomatch member

/-- The broker's answers come in sections of their own. -/
theorem Step.aside {codec : JsonCodec} {w w' : World} {out : List Obs} (step : Step codec w out w') :
    (∀ o ∈ out, o.Aside) ∨ w.handler.producerChannel.isSome ∧ ∃ tag multiple accepted sent,
      out = .confirmed tag multiple accepted :: (w.confirm tag multiple accepted sent).1 := by
  cases step with
  | publish queue body => exact .inl (schedulePublish_aside w queue body none)
  | load calls => exact .inl (loadOutstanding_aside w _ _ _)
  | exchangeFails calls => exact .inl (loadOutstanding_aside w _ _ _)
  | functor sent functors => exact .inl (runFunctor_aside codec _ sent _)
  | timer watched built timers => exact .inl (fireTimer_aside _ watched built _)
  | confirmSelected sent held => exact .inl (drainPending_aside _ sent)
  | writable sent _ held calm => exact .inl (drainPending_aside w sent)
  | confirm tag multiple accepted sent held => exact .inr ⟨held, tag, multiple, accepted, sent, rfl⟩
  | ackFn result fns =>
      left
      unfold World.callAckFn
      split
      · exact fun _ member => nomatch member
      · exact fun o member => List.mem_singleton.mp member ▸ trivial
  | start watched built off => exact .inl fun _ member => nomatch member
  | exchange calls same => exact .inl fun _ member => nomatch member
  | monitor connection m made => exact .inl fun _ member => nomatch member
  | connectionFailed started => exact .inl fun _ member => nomatch member
  | queueInLoop calls => exact .inl fun o member => List.mem_singleton.mp member ▸ trivial
  | onConnected held off => exact .inl fun o member => List.mem_singleton.mp member ▸ trivial
  | deliver tag body held later => exact .inl fun o member => List.mem_singleton.mp member ▸ trivial
  | stop started alive => exact .inl fun o member => List.mem_singleton.mp member ▸ trivial

theorem retireAll_retirements (w : World) (entries : List (Nat × Publication)) :
    retirements (w.retireAll entries).1 = entries := by
  rw [(retireAll_shows w entries).2]
  induction entries with
  | nil => rfl
  | cons entry rest ih =>
      have aside : retirements (w.completed entry.2) = [] := by
        refine retirements_aside fun o shown => ?_
        unfold World.completed at shown
        split at shown
        · exact settle_aside _ _ _ o shown
        · cases shown
      unfold retirements at aside ih ⊢
      rw [List.flatMap_cons, List.filterMap_append, List.filterMap_cons, aside, ih]
      rfl

/-- A positive confirm retires exactly what it covers, unless the handler recovers. -/
theorem confirm_retirements {w : World} (tag : Nat) (multiple accepted : Bool) (sent : Nat → Bool)
    (shutting : w.handler.shuttingDown = false) :
    retirements (w.confirm tag multiple accepted sent).1 =
      if accepted ∧ ¬ w.handler.recovering then
        w.handler.inflight.entries.filter fun entry => World.covers tag multiple entry.1
      else [] := by
  unfold World.confirm
  by_cases calm : w.handler.recovering = true
  · simp [calm, retirements]
  · cases accepted with
    | false => simp [calm, shutting, retirements]
    | true =>
        have heeded : ¬ (w.handler.recovering = true ∨ w.handler.shuttingDown = true) := by
          simp [calm, shutting]
        rw [if_neg heeded, if_neg (by simp), if_pos ⟨rfl, calm⟩]
        have later := retirements_aside (drainPending_aside (w.retireAll
          (w.handler.inflight.entries.filter fun entry => World.covers tag multiple entry.1)).2 sent)
        have first := retireAll_retirements w
          (w.handler.inflight.entries.filter fun entry => World.covers tag multiple entry.1)
        unfold retirements at first later ⊢
        dsimp only
        rw [List.filterMap_append, first, later, List.append_nil]

namespace Accounted

variable {codec : JsonCodec} {w w' : World} {tr out : List Obs}

theorem shutting (held : Accounted w tr) (producer : w.handler.producerChannel.isSome) :
    w.handler.shuttingDown = false := by
  cases live : w.handler.alive with
  | true => exact held.flagged.trans (by rw [live]; rfl)
  | false =>
      obtain ⟨-, -, gone, -⟩ := held.linked.dead live
      rw [show w.handler.producerChannel = none from gone] at producer
      cases producer

/-- A positive answer is in a section of `confirm`, and retires what it covers. -/
theorem retires (held : Accounted w tr) (step : Step codec w out w') {tag : Nat} {multiple : Bool}
    (answer : .confirmed tag multiple true ∈ out) (calm : w.handler.recovering = false) :
    retirements out =
      w.handler.inflight.entries.filter fun entry => World.covers tag multiple entry.1 := by
  rcases step.aside with aside | ⟨producer, tag', multiple', accepted, sent, rfl⟩
  · exact (aside _ answer).elim
  · rcases List.mem_cons.mp answer with same | later
    · cases same
      have retired := confirm_retirements tag multiple true sent
        (held.shutting producer)
      rw [if_pos ⟨rfl, by simp [calm]⟩] at retired
      exact retired
    · exfalso
      rcases (confirm_shows (Prod.eta (w.confirm tag' multiple' accepted sent)).symm).2 _ later with
        ⟨channel, t, item, -, here⟩ | ⟨entry, -, here | completed⟩
      · cases here
      · cases here
      · unfold World.completed at completed
        split at completed
        · exact settle_aside _ _ _ _ completed
        · cases completed

/-- Nothing is retired but by a positive answer that comes while the handler does not recover. -/
theorem answered (held : Accounted w tr) (step : Step codec w out w') {entry : Nat × Publication}
    (retired : entry ∈ retirements out) :
    ∃ tag multiple, .confirmed tag multiple true ∈ out ∧ w.handler.recovering = false := by
  rcases step.aside with aside | ⟨producer, tag, multiple, accepted, sent, rfl⟩
  · rw [retirements_aside aside] at retired
    cases retired
  · have found := confirm_retirements tag multiple accepted sent
      (held.shutting producer)
    change entry ∈ retirements (w.confirm tag multiple accepted sent).1 at retired
    rw [found] at retired
    split at retired
    · next heeded =>
        obtain ⟨rfl, calm⟩ := heeded
        exact ⟨tag, multiple, .head _, by simpa using calm⟩
    · cases retired

end Accounted

/-! ## The account -/

/-- Where an accepted publication can be: in a functor, in `pending_` or in `inflight_`. -/
def World.places (w : World) : List Publication :=
  w.functors.filterMap Functor.admits? ++ w.handler.pending ++ w.handler.inflight.entries.map Prod.snd

/-- Each generation publishes, on the one producer channel it opens, what was unconfirmed when it
began and then what was admitted later, in order and under the tags 1, 2, …; `inflight_` holds
what is not retired of it, and an answer retires what it covers while the handler does not
recover. -/
theorem publication_order {codec : JsonCodec} {queueName : Bytes} {tr : List Obs} {w : World}
    (run : Run (Step codec) (.initial queueName) tr w) :
    (∀ before after rest, events tr = before ++ after ++ rest → Boundary before → .restart ∉ after →
      (published after).map Prod.snd <+: live before ++ admitted after ∧
      (published after).map Prod.fst = List.range' 1 (published after).length) ∧
    (∀ pre channel tag item post, tr = pre ++ .published channel tag item :: post →
      ∃ consumer, ∀ p c, .opened (generationAt pre) p c ∈ tr ↔ p = channel ∧ c = consumer) ∧
    (w.handler.alive = true → ∃ before after, Since (events tr) before after ∧
      w.handler.inflight.entries =
        (published after).filter fun entry => .retire entry.1 entry.2 ∉ after) ∧
    ∀ out w', Step codec w out w' → ∀ tag multiple, .confirmed tag multiple true ∈ out →
      w.handler.recovering = false → retirements out =
        w.handler.inflight.entries.filter fun entry => World.covers tag multiple entry.1 := by
  have held := accounted run
  obtain ⟨l, moves, tracks⟩ := held.tracked
  refine ⟨?_, ?_, ?_, fun out w' step tag multiple answer calm => held.retires step answer calm⟩
  · intro before after rest cut boundary one
    rw [cut] at moves
    exact published_between moves (cut ▸ held.called.nodup) boundary one
  · intro pre channel tag item post cut
    obtain ⟨consumer, opened⟩ := routed (link_run run).1 cut
    have member : Obs.opened (generationAt pre) channel consumer ∈ tr := by
      rw [cut]
      exact List.mem_append_left _ opened
    refine ⟨consumer, fun p c => ⟨fun other => ?_, fun same => ?_⟩⟩
    · exact (held.linked.once other member (.inl rfl)).2
    · rw [same.1, same.2]
      exact member
  · intro alive
    obtain rfl := tracks.alive alive
    obtain ⟨before, after, since, -, -, -, window, -⟩ := (held.called.kept moves).sent
    exact ⟨before, after, since, window⟩

/-! ## A confirm that comes too late -/

def firstPublication : Publication := ⟨bytes "sql_queue", bytes "x", none, 0⟩

/-- One publication is sent under the first tag. -/
theorem sends_first : ∃ tr w, Run (Step flatCodec) (.initial (bytes "sql_queue")) tr w ∧
    events tr = [.accept firstPublication, .enter firstPublication, .publish 1 firstPublication] ∧
    w.handler.alive = true ∧ w.started = true ∧ w.handler.producerChannel.isSome ∧
    w.handler.shuttingDown = false ∧ w.handler.recovering = false ∧ w.handler.inflight.entries = [(1, firstPublication)] := by
  have connected : Run (Step flatCodec) (.initial (bytes "sql_queue")) _ _ :=
    (Run.refl.tail (.start [] true rfl)).tail (.onConnected rfl rfl)
  have called := connected.tail (.publish (bytes "sql_queue") (bytes "x"))
  have loaded := called.tail (@Step.load _ _ [] [] firstPublication rfl)
  have reserved := loaded.tail (@Step.exchange _ _ [] [] firstPublication 0 rfl rfl)
  have accepted := reserved.tail (@Step.queueInLoop _ _ [] [] firstPublication rfl)
  have queued := accepted.tail (.functor (fun _ => true) rfl)
  have sent := queued.tail (.confirmSelected (fun _ => true) rfl)
  exact ⟨_, _, sent, rfl, rfl, rfl, rfl, rfl, rfl, rfl⟩

theorem publication_order_first : ∃ tr w, Run (Step flatCodec) (.initial (bytes "sql_queue")) tr w ∧
    [firstPublication] <+: live [] ++ admitted (events tr) := by
  obtain ⟨tr, w, run, sent, -⟩ := sends_first
  obtain ⟨order, -⟩ := publication_order run
  have one : Event.restart ∉ events tr := by simp [sent]
  have sorted := (order [] (events tr) [] (by simp) (.inl rfl) one).1
  rw [show (published (events tr)).map Prod.snd = [firstPublication] from sent ▸ rfl] at sorted
  exact ⟨tr, w, run, sorted⟩

/-- The connection fails before the confirm of the first publication comes. -/
theorem fails_first : ∃ tr w, Run (Step flatCodec) (.initial (bytes "sql_queue")) tr w ∧
    w.handler.alive = true ∧ w.handler.producerChannel.isSome ∧ w.handler.recovering = true ∧
    w.handler.inflight.entries = [(1, firstPublication)] := by
  obtain ⟨tr, w, run, -, alive, started, producer, shutting, calm, window⟩ := sends_first
  refine ⟨_, _, run.tail (.connectionFailed started), ?_⟩
  have off : ¬ (w.handler.shuttingDown = true ∨ w.handler.recovering = true) := by
    simp [shutting, calm]
  rw [World.connectionFailed, if_neg off]
  exact ⟨alive, producer, rfl, window⟩

/-- The broker confirms everything up to a tag, and nothing is retired. -/
theorem ignored_confirms : ∃ tr w out w', Run (Step flatCodec) (.initial (bytes "sql_queue")) tr w ∧
    Step flatCodec w out w' ∧ .confirmed 1 true true ∈ out ∧ retirements out ≠
      w.handler.inflight.entries.filter fun entry => World.covers 1 true entry.1 := by
  obtain ⟨tr, w, run, -, producer, recovering, window⟩ := fails_first
  have nothing : w.confirm 1 true true (fun _ => true) = ([], w) := by
    rw [World.confirm, if_pos (.inl recovering)]
  have step : Step flatCodec w _ _ := .confirm 1 true true (fun _ => true) producer
  rw [nothing] at step
  refine ⟨tr, w, _, _, run, step, .head _, ?_⟩
  rw [window]
  change [] ≠ [(1, firstPublication)]
  exact fun same => nomatch same

end AIService.MQ
