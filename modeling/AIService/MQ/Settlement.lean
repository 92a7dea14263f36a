import AIService.MQ.Accounting
import Mathlib.Data.List.Forall2

/-!
# What becomes of a delivery

The right to settle a delivery is held by its `AckFn`, then by a functor, a retry timer, a call
of `schedulePublish` and at last by an accepted publication.  No section makes a second holder
(`Step.balanced`), so no answer is given twice (`Settled.once`).
-/

namespace AIService.MQ

open Ledger

def Functor.completes? : Functor → Option Delivery
  | .completes d _ _ => some d
  | _ => none

def Timer.retries? : Timer → Option Delivery
  | .retries d _ _ _ => some d
  | _ => none

/-- Who may still settle a delivery, publications apart. -/
def World.holders (w : World) : List Delivery :=
  (w.ackFns.filter fun fn => ¬ fn.once).map (·.delivery) ++ w.functors.filterMap Functor.completes? ++
    w.timers.filterMap Timer.retries? ++ w.calls.filterMap (·.item.completion)

/-- The deliveries that some publications settle. -/
def carried (items : List Publication) : List Delivery := items.filterMap (·.completion)

def deliveries (tr : List Obs) : List Delivery := tr.filterMap Obs.delivered?

def Obs.settled? : Obs → Option (Nat × Nat)
  | .acked channel tag => some (channel, tag)
  | .rejected channel tag => some (channel, tag)
  | _ => none

/-- The channels and tags that were answered. -/
def settlements (tr : List Obs) : List (Nat × Nat) := tr.filterMap Obs.settled?

/-- An answer to a delivery of the current generation, on its channel. -/
def World.Settles (w : World) (d : Delivery) (answer : Nat × Nat) : Prop :=
  w.handler.consumerChannel = some answer.1 ∧ d.generation = w.handler.generation ∧ d.tag = answer.2

/-- Every settled delivery had a holder that is gone. -/
def Balance (before : List Delivery) (out : List Obs) (ds after : List Delivery) : Prop :=
  ∀ d, after.count d + (carried (accepted (events out))).count d + ds.count d ≤
    before.count d + (deliveries out).count d + (carried (retired (events out))).count d

theorem retired_events (tr : List Obs) : retired (events tr) = (retirements tr).map Prod.snd := by
  induction tr with
  | nil => rfl
  | cons o rest ih =>
      unfold retirements at ih ⊢
      rw [events_cons, Ledger.retired_append, ih]
      cases o <;> rfl

theorem holders_of_frame {w w' : World} (same : w'.frame = w.frame) : w'.holders = w.holders := by
  have ackFns : w'.ackFns = w.ackFns := congrArg (·.ackFns) same
  have timers : w'.timers = w.timers := congrArg (·.timers) same
  have calls : w'.calls = w.calls := congrArg (·.calls) same
  have functors : w'.functors.filter (· ≠ .recovers) = w.functors.filter (· ≠ .recovers) :=
    congrArg (·.functors) same
  have completes (functors : List Functor) : (functors.filter (· ≠ .recovers)).filterMap
      Functor.completes? = functors.filterMap Functor.completes? := by
    rw [List.filterMap_filter]
    refine List.filterMap_congr fun f _ => ?_
    cases f <;> rfl
  rw [World.holders, World.holders, ackFns, timers, calls, ← completes, functors, completes]

theorem settlements_settle (w : World) (d : Delivery) (ok : Bool) :
    ∃ ds, ds.Sublist [d] ∧ List.Forall₂ w.Settles ds (settlements (w.handler.settle d ok)) := by
  unfold Handler.settle
  split
  · next current =>
      split
      · next channel here =>
          refine ⟨[d], .refl _, ?_⟩
          cases ok <;> exact .cons ⟨here, current.2, rfl⟩ .nil
      · exact ⟨[], List.nil_sublist _, .nil⟩
  · exact ⟨[], List.nil_sublist _, .nil⟩

theorem settlements_refuse (w : World) (item : Publication) :
    ∃ ds, ds.Sublist item.completion.toList ∧
      List.Forall₂ w.Settles ds (settlements (w.refuse item)) := by
  unfold World.refuse
  cases item.completion with
  | none => exact ⟨[], .refl _, .nil⟩
  | some d => exact settlements_settle w d false

theorem settlements_retireAll (w : World) (entries : List (Nat × Publication)) :
    ∃ ds, ds.Sublist (carried (entries.map Prod.snd)) ∧
      List.Forall₂ w.Settles ds (settlements (w.retireAll entries).1) := by
  rw [(retireAll_shows w entries).2]
  induction entries with
  | nil => exact ⟨[], .refl _, .nil⟩
  | cons entry rest ih =>
      obtain ⟨ds, part, matched⟩ := ih
      have first : ∃ ds, ds.Sublist entry.2.completion.toList ∧
          List.Forall₂ w.Settles ds (settlements (w.completed entry.2)) := by
        unfold World.completed
        cases entry.2.completion with
        | none => exact ⟨[], .refl _, .nil⟩
        | some d => exact settlements_settle w d true
      obtain ⟨ds', part', matched'⟩ := first
      refine ⟨ds' ++ ds, ?_, ?_⟩
      · have cut : carried ((entry :: rest).map Prod.snd) =
            entry.2.completion.toList ++ carried (rest.map Prod.snd) := by
          unfold carried
          rw [List.map_cons, List.filterMap_cons]
          cases entry.2.completion <;> rfl
        rw [cut]
        exact part'.append part
      · unfold settlements at matched matched' ⊢
        rw [List.flatMap_cons, List.filterMap_append, List.filterMap_cons]
        exact List.rel_append matched' matched

theorem settlements_drain (w : World) (sent : Nat → Bool) : settlements (w.drainPending sent).1 = [] := by
  refine List.filterMap_eq_nil_iff.mpr fun o member => ?_
  obtain ⟨channel, tag, item, -, rfl⟩ := (drain_shows w sent).2 o member
  rfl

theorem accepted_drain (w : World) (sent : Nat → Bool) :
    accepted (events (w.drainPending sent).1) = [] := by
  refine accepted_none fun o member item same => ?_
  obtain ⟨channel, tag, item', -, here⟩ := (drain_shows w sent).2 o member
  rw [here] at same
  cases same

/-- Sections that accept nothing balance when no holder is added. -/
theorem Balance.of_le {before after ds : List Delivery} {out : List Obs}
    (none : accepted (events out) = []) (le : ∀ d, after.count d + ds.count d ≤ before.count d) :
    Balance before out ds after := by
  intro d
  have held := le d
  rw [none]
  change after.count d + 0 + ds.count d ≤ _
  omega

theorem drain_balanced (w : World) (sent : Nat → Bool) :
    settlements (w.drainPending sent).1 = [] ∧
      Balance w.holders (w.drainPending sent).1 [] (w.drainPending sent).2.holders := by
  refine ⟨settlements_drain w sent, .of_le (accepted_drain w sent) fun d => ?_⟩
  rw [holders_of_frame (drain_shows w sent).1]
  exact Nat.le_refl _

theorem connect_holders (w : World) (watched : List Monitored) (built : Bool) :
    (w.connect watched built).holders = w.holders := by
  obtain ⟨h, -, made⟩ := connect_eq w watched built
  rw [made]
  cases built with
  | true => rfl
  | false =>
      rw [if_neg Bool.false_ne_true, holders_of_frame (connectionFailed_frame { w with
        handler := h, nextConnection := w.nextConnection + 1, connected := false })]
      rfl

theorem schedulePublish_settles (w : World) (queue body : Bytes) (completion : Option Delivery) :
    ∃ ds, List.Forall₂ w.Settles ds (settlements (w.schedulePublish queue body completion).1) ∧
      ∀ d, (w.schedulePublish queue body completion).2.holders.count d + ds.count d ≤
        w.holders.count d + completion.toList.count d := by
  unfold World.schedulePublish
  dsimp only
  split
  · refine ⟨[], .nil, fun d => ?_⟩
    cases completion <;> simp [World.holders, Nat.add_assoc]
  · obtain ⟨ds, part, matched⟩ := settlements_refuse { w with nextTicket := w.nextTicket + 1 }
      ⟨queue, body, completion, w.nextTicket⟩
    exact ⟨ds, matched, fun d => Nat.add_le_add_left (part.count_le d) _⟩

theorem loadOutstanding_settles {w : World} {before after : List PublishCall} {call : PublishCall}
    (calls : w.calls = before ++ call :: after) :
    ∃ ds, List.Forall₂ w.Settles ds (settlements (w.loadOutstanding before after call.item).1) ∧
      ∀ d, (w.loadOutstanding before after call.item).2.holders.count d + ds.count d ≤
        w.holders.count d := by
  unfold World.loadOutstanding
  dsimp only
  split
  · obtain ⟨ds, part, matched⟩ := settlements_refuse w call.item
    refine ⟨ds, matched, fun d => ?_⟩
    have one := part.count_le d
    simp only [World.holders, calls, List.count_append, List.filterMap_append, List.filterMap_cons]
    cases held : call.item.completion with
    | none =>
        rw [held] at one
        simp only [Option.toList_none, List.count_nil] at one ⊢
        omega
    | some e =>
        rw [held] at one
        simp only [Option.toList_some] at one
        rw [List.count_cons]
        rw [List.count_singleton] at one
        omega
  · refine ⟨[], .nil, fun d => Nat.le_of_eq ?_⟩
    simp only [World.holders, calls, List.filterMap_append]
    rfl

theorem completeDelivery_settles (codec : JsonCodec) (w : World) (d : Delivery) (result : Disposition)
    (body : Bytes) :
    ∃ ds, List.Forall₂ w.Settles ds (settlements (w.completeDelivery codec d result body).1) ∧
      ∀ e, (w.completeDelivery codec d result body).2.holders.count e + ds.count e ≤
        w.holders.count e + [d].count e := by
  unfold World.completeDelivery
  split
  · exact ⟨[], .nil, fun e => Nat.le_add_right _ _⟩
  · next current =>
      rw [not_or, not_not] at current
      split
      · exact ⟨[], .nil, fun e => Nat.le_add_right _ _⟩
      · next channel here =>
          split
          · exact ⟨[d], .cons ⟨here, current.1, rfl⟩ .nil, fun e => Nat.le_refl _⟩
          · refine ⟨[], .nil, fun e => ?_⟩
            simp only [World.holders, List.filterMap_append, List.count_append]
            have added : ∀ t b n, [Timer.retries d t b n].filterMap Timer.retries? = [d] :=
              fun _ _ _ => rfl
            rw [added]
            simp only [List.count_nil]
            omega

theorem runFunctor_balanced (codec : JsonCodec) {w : World} {f : Functor} {rest : List Functor}
    (functors : w.functors = f :: rest) (sent : Nat → Bool) :
    ∃ ds, List.Forall₂ w.Settles ds (settlements ({ w with functors := rest }.runFunctor codec sent f).1) ∧
      Balance w.holders ({ w with functors := rest }.runFunctor codec sent f).1 ds
        ({ w with functors := rest }.runFunctor codec sent f).2.holders := by
  cases f with
  | admits item =>
      have same : ({ w with functors := rest } : World).holders = w.holders := by
        rw [World.holders, World.holders, functors]
        rfl
      unfold World.runFunctor
      dsimp only
      split
      · obtain ⟨silent, balance⟩ := drain_balanced { w with
          functors := rest
          handler := { w.handler with pending := w.handler.pending ++ [item] } } sent
        refine ⟨[], ?_, ?_⟩
        · exact silent.symm ▸ .nil
        · rw [← same]
          exact balance
      · exact ⟨[], .nil, .of_le rfl fun d => Nat.le_of_eq (congrArg (List.count d) same)⟩
  | completes d result body =>
      have fewer : ∀ e, ({ w with functors := rest } : World).holders.count e + [d].count e =
          w.holders.count e := by
        intro e
        have cut : w.functors.filterMap Functor.completes? =
            [d] ++ rest.filterMap Functor.completes? := by
          rw [functors]
          rfl
        simp only [World.holders, cut, List.count_append]
        omega
      unfold World.runFunctor
      dsimp only
      split
      · obtain ⟨ds, matched, le⟩ :=
          completeDelivery_settles codec { w with functors := rest } d result body
        have silent := (completeDelivery_ledger codec { w with functors := rest } d result body).1
        exact ⟨ds, matched, .of_le (accepted_silent silent) fun e => (fewer e) ▸ le e⟩
      · exact ⟨[], .nil, .of_le rfl fun e => (fewer e) ▸ Nat.le_add_right _ _⟩
  | recovers =>
      have same : ({ w with functors := rest } : World).holders = w.holders := by
        rw [World.holders, World.holders, functors]
        rfl
      unfold World.runFunctor
      dsimp only
      split
      · refine ⟨[], .nil, .of_le rfl fun d => ?_⟩
        unfold World.scheduleReconnect
        split
        · exact Nat.le_of_eq (congrArg (List.count d) same)
        · have quiet : ∀ n, [Timer.reconnects n].filterMap Timer.retries? = [] := fun _ => rfl
          rw [← same]
          simp only [World.holders, List.filterMap_append, quiet, List.append_nil]
          exact Nat.le_refl _
      · exact ⟨[], .nil, .of_le rfl fun d => Nat.le_of_eq (congrArg (List.count d) same)⟩

theorem fireTimer_balanced {w : World} {before after : List Timer} {t : Timer}
    (timers : w.timers = before ++ t :: after) (watched : List Monitored) (built : Bool) :
    ∃ ds, List.Forall₂ w.Settles ds
        (settlements ({ w with timers := before ++ after }.fireTimer watched built t).1) ∧
      Balance w.holders ({ w with timers := before ++ after }.fireTimer watched built t).1 ds
        ({ w with timers := before ++ after }.fireTimer watched built t).2.holders := by
  cases t with
  | reconnects delay =>
      have same : ({ w with timers := before ++ after } : World).holders = w.holders := by
        simp only [World.holders, timers, List.filterMap_append]
        rfl
      unfold World.fireTimer
      dsimp only
      split
      · refine ⟨[], .nil, .of_le rfl fun d => ?_⟩
        rw [connect_holders]
        exact Nat.le_of_eq (congrArg (List.count d) same)
      · exact ⟨[], .nil, .of_le rfl fun d => Nat.le_of_eq (congrArg (List.count d) same)⟩
  | retries d target body delay =>
      have fewer : ∀ e, ({ w with timers := before ++ after } : World).holders.count e + [d].count e =
          w.holders.count e := by
        intro e
        have cut : (Timer.retries d target body delay :: after).filterMap Timer.retries? =
            [d] ++ after.filterMap Timer.retries? := rfl
        simp only [World.holders, timers, List.filterMap_append, cut, List.count_append]
        omega
      unfold World.fireTimer
      dsimp only
      split
      · obtain ⟨ds, matched, le⟩ :=
          schedulePublish_settles { w with timers := before ++ after } target body (some d)
        have silent := (schedulePublish_ledger { w with timers := before ++ after } target body (some d)).1
        exact ⟨ds, matched, .of_le (accepted_silent silent) fun e => (fewer e) ▸ le e⟩
      · exact ⟨[], .nil, .of_le rfl fun e => (fewer e) ▸ Nat.le_add_right _ _⟩

theorem confirm_balanced {w w' : World} {tag : Nat} {multiple positive : Bool} {sent : Nat → Bool}
    {out : List Obs} (ran : w.confirm tag multiple positive sent = (out, w')) :
    ∃ ds, List.Forall₂ w.Settles ds (settlements (.confirmed tag multiple positive :: out)) ∧
      Balance w.holders (.confirmed tag multiple positive :: out) ds w'.holders := by
  have none := accepted_none (confirm_accepts ran)
  have kept := holders_of_frame (confirm_shows ran).1
  rcases confirm_eq ran with ⟨rfl, -⟩ | ⟨-, -, -, later, rfl, drained⟩
  · refine ⟨[], .nil, .of_le rfl fun d => ?_⟩
    rw [kept]
    exact Nat.le_refl _
  · generalize covered : (w.handler.inflight.entries.filter fun entry =>
      World.covers tag multiple entry.1) = entries at drained none ⊢
    obtain ⟨ds, part, matched⟩ := settlements_retireAll w entries
    have quiet := settlements_drain (w.retireAll entries).2 sent
    have aside := retirements_aside (drainPending_aside (w.retireAll entries).2 sent)
    rw [drained] at quiet aside
    refine ⟨ds, ?_, fun d => ?_⟩
    · change List.Forall₂ _ ds (settlements ((w.retireAll entries).1 ++ later))
      unfold settlements at quiet matched ⊢
      rw [List.filterMap_append, quiet, List.append_nil]
      exact matched
    · have gone : retired (events (.confirmed tag multiple positive ::
          ((w.retireAll entries).1 ++ later))) = entries.map Prod.snd := by
        rw [retired_events]
        change (retirements ((w.retireAll entries).1 ++ later)).map Prod.snd = _
        have first := retireAll_retirements w entries
        unfold retirements at aside first ⊢
        rw [List.filterMap_append, aside, List.append_nil, first]
      have settled := part.count_le d
      rw [kept, gone, none]
      change _ + 0 + _ ≤ _
      omega

/-- No section makes a second holder of a delivery. -/
theorem Step.balanced {codec : JsonCodec} {w w' : World} {out : List Obs} (step : Step codec w out w') :
    ∃ ds, List.Forall₂ w.Settles ds (settlements out) ∧ Balance w.holders out ds w'.holders := by
  cases step with
  | start watched built off =>
      refine ⟨[], .nil, .of_le rfl fun d => ?_⟩
      rw [connect_holders]
      exact Nat.le_refl _
  | publish queue body =>
      obtain ⟨ds, matched, le⟩ := schedulePublish_settles w queue body none
      have silent := (schedulePublish_ledger w queue body none).1
      exact ⟨ds, matched, .of_le (accepted_silent silent) le⟩
  | @load before after item calls =>
      obtain ⟨ds, matched, le⟩ := loadOutstanding_settles calls
      have silent := (loadOutstanding_ledger calls (by simp) item).1
      exact ⟨ds, matched, .of_le (accepted_silent silent) le⟩
  | @exchange before after item count calls same =>
      refine ⟨[], .nil, .of_le rfl fun d => Nat.le_of_eq ?_⟩
      simp only [World.holders, calls, List.filterMap_append]
      rfl
  | @exchangeFails before after item count calls =>
      obtain ⟨ds, matched, le⟩ := loadOutstanding_settles calls
      have silent := (loadOutstanding_ledger calls (by simp) item).1
      exact ⟨ds, matched, .of_le (accepted_silent silent) le⟩
  | @queueInLoop before after item calls =>
      refine ⟨[], .nil, fun d => ?_⟩
      have taken : carried (accepted (events [Obs.accepted item])) = item.completion.toList := by
        change carried [item] = _
        unfold carried
        cases held : item.completion <;> simp [held]
      have quiet : [Functor.admits item].filterMap Functor.completes? = [] := rfl
      have cut : (⟨item, .reserved⟩ :: after : List PublishCall).filterMap (·.item.completion) =
          item.completion.toList ++ after.filterMap (·.item.completion) := by
        cases held : item.completion <;> simp [held]
      simp only [World.holders, calls, taken, List.filterMap_append, quiet, cut, List.append_nil,
        List.count_append, List.count_nil]
      omega
  | functor sent functors => exact runFunctor_balanced codec functors sent
  | timer watched built timers => exact fireTimer_balanced timers watched built
  | monitor connection m made => exact ⟨[], .nil, .of_le rfl fun d => Nat.le_refl _⟩
  | connectionFailed started =>
      refine ⟨[], .nil, .of_le rfl fun d => ?_⟩
      rw [holders_of_frame (connectionFailed_frame w)]
      exact Nat.le_refl _
  | onConnected held off => exact ⟨[], .nil, .of_le rfl fun d => Nat.le_refl _⟩
  | confirmSelected sent held =>
      obtain ⟨silent, balance⟩ :=
        drain_balanced { w with handler := { w.handler with producerReady := true } } sent
      exact ⟨[], silent.symm ▸ .nil, balance⟩
  | writable sent _ held calm =>
      obtain ⟨silent, balance⟩ := drain_balanced w sent
      exact ⟨[], silent.symm ▸ .nil, balance⟩
  | confirm tag multiple accepted sent held => exact confirm_balanced (Prod.eta _).symm
  | @deliver channel tag body held later =>
      refine ⟨[], .nil, fun d => ?_⟩
      have taken : deliveries (w.onConsumerMessage channel tag body).1 =
          [⟨w.handler.generation, tag⟩] := rfl
      have none : carried (accepted (events (w.onConsumerMessage channel tag body).1)) = [] := rfl
      have kept : (w.onConsumerMessage channel tag body).2.ackFns =
          w.ackFns ++ [⟨⟨w.handler.generation, tag⟩, body, false⟩] := rfl
      have others : (w.onConsumerMessage channel tag body).2.holders.count d =
          w.holders.count d + [(⟨w.handler.generation, tag⟩ : Delivery)].count d := by
        simp only [World.holders, kept, List.filter_append, List.map_append, List.count_append]
        change _ + [(⟨w.handler.generation, tag⟩ : Delivery)].count d + _ + _ + _ = _
        simp only [World.onConsumerMessage]
        omega
      rw [others, taken, none]
      simp
  | @ackFn before after fn result fns =>
      unfold World.callAckFn
      split
      · exact ⟨[], .nil, .of_le rfl fun d => Nat.le_refl _⟩
      · next unused =>
          refine ⟨[], .nil, .of_le rfl fun d => ?_⟩
          have quiet : [Functor.completes fn.delivery result fn.body].filterMap Functor.completes? =
              [fn.delivery] := rfl
          simp [World.holders, fns, quiet, unused, List.count_cons]
          omega
  | stop started alive =>
      refine ⟨[], .nil, .of_le rfl fun d => Nat.le_of_eq ?_⟩
      have retries : w.stop.timers.filterMap Timer.retries? = w.timers.filterMap Timer.retries? := by
        unfold World.stop
        rw [List.filterMap_filter]
        refine List.filterMap_congr fun t _ => ?_
        cases t <;> rfl
      simp only [World.holders, retries]
      rfl

theorem completes_of_frame {w w' : World} (same : w'.frame = w.frame) {d : Delivery}
    {result : Disposition} {body : Bytes} (here : .completes d result body ∈ w'.functors) :
    .completes d result body ∈ w.functors := by
  have functors : w'.functors.filter (· ≠ .recovers) = w.functors.filter (· ≠ .recovers) :=
    congrArg (·.functors) same
  have kept : Functor.completes d result body ∈ w'.functors.filter (· ≠ .recovers) :=
    List.mem_filter.mpr ⟨here, rfl⟩
  rw [functors] at kept
  exact (List.mem_filter.mp kept).1

theorem connect_completes {w : World} {watched : List Monitored} {built : Bool} {d : Delivery}
    {result : Disposition} {body : Bytes} (here : .completes d result body ∈ (w.connect watched built).functors) :
    .completes d result body ∈ w.functors := by
  obtain ⟨h, -, made⟩ := connect_eq w watched built
  rw [made] at here
  cases built with
  | true => exact here
  | false => exact completes_of_frame (connectionFailed_frame { w with
      handler := h, nextConnection := w.nextConnection + 1, connected := false }) here

theorem schedulePublish_functors (w : World) (queue body : Bytes) (completion : Option Delivery) :
    (w.schedulePublish queue body completion).2.functors = w.functors := by
  unfold World.schedulePublish
  dsimp only
  split <;> rfl

theorem loadOutstanding_functors (w : World) (before after : List PublishCall) (item : Publication) :
    (w.loadOutstanding before after item).2.functors = w.functors := by
  unfold World.loadOutstanding
  dsimp only
  split <;> rfl

theorem runFunctor_completes {codec : JsonCodec} {w : World} {sent : Nat → Bool} {f : Functor} {d : Delivery}
    {result : Disposition} {body : Bytes}
    (here : .completes d result body ∈ (w.runFunctor codec sent f).2.functors) :
    .completes d result body ∈ w.functors := by
  unfold World.runFunctor at here
  cases f with
  | admits item =>
      dsimp only at here
      split at here
      · exact completes_of_frame (drainPending_shows (w := { w with
          handler := { w.handler with pending := w.handler.pending ++ [item] } }) (Prod.eta _).symm).1 here
      · exact here
  | completes d' result' body' =>
      dsimp only at here
      split at here
      · unfold World.completeDelivery at here
        split at here
        · exact here
        · split at here
          · exact here
          · split at here <;> exact here
      · exact here
  | recovers =>
      dsimp only at here
      split at here
      · unfold World.scheduleReconnect at here
        split at here <;> exact here
      · exact here

theorem fireTimer_completes {w : World} {watched : List Monitored} {built : Bool} {t : Timer} {d : Delivery}
    {result : Disposition} {body : Bytes}
    (here : .completes d result body ∈ (w.fireTimer watched built t).2.functors) :
    .completes d result body ∈ w.functors := by
  unfold World.fireTimer at here
  cases t with
  | reconnects delay =>
      dsimp only at here
      split at here
      · have old := connect_completes here
        exact old
      · exact here
  | retries d' target body' delay =>
      dsimp only at here
      split at here
      · rw [schedulePublish_functors] at here
        exact here
      · exact here

/-- A completion enters the loop when its `AckFn` is called. -/
theorem Step.completes {codec : JsonCodec} {w w' : World} {out : List Obs} (step : Step codec w out w')
    {d : Delivery} {result : Disposition} {body : Bytes}
    (here : .completes d result body ∈ w'.functors) :
    .completes d result body ∈ w.functors ∨ .reported d result ∈ out := by
  cases step with
  | start watched built off =>
      have old := connect_completes here
      exact .inl old
  | publish queue body' =>
      rw [schedulePublish_functors] at here
      exact .inl here
  | load calls =>
      rw [loadOutstanding_functors] at here
      exact .inl here
  | exchange calls same => exact .inl here
  | exchangeFails calls =>
      rw [loadOutstanding_functors] at here
      exact .inl here
  | queueInLoop calls =>
      rcases List.mem_append.mp here with old | new
      · exact .inl old
      · cases List.mem_singleton.mp new
  | functor sent functors =>
      have rest := runFunctor_completes here
      rw [functors]
      exact .inl (.tail _ rest)
  | timer watched built timers =>
      have old := fireTimer_completes here
      exact .inl old
  | monitor connection m made => exact .inl here
  | connectionFailed started => exact .inl (completes_of_frame (connectionFailed_frame w) here)
  | onConnected held off => exact .inl here
  | confirmSelected sent held =>
      exact .inl (completes_of_frame (drainPending_shows (w := { w with
        handler := { w.handler with producerReady := true } }) (Prod.eta _).symm).1 here)
  | writable sent _ held calm =>
      exact .inl (completes_of_frame (drainPending_shows (Prod.eta _).symm).1 here)
  | confirm tag multiple positive sent held =>
      exact .inl (completes_of_frame (confirm_shows (Prod.eta _).symm).1 here)
  | deliver tag body' held later => exact .inl here
  | ackFn result' fns =>
      unfold World.callAckFn at here ⊢
      split at here
      · next used =>
          rw [if_pos used]
          exact .inl here
      · next unused =>
          rw [if_neg unused]
          rcases List.mem_append.mp here with old | new
          · exact .inl old
          · cases List.mem_singleton.mp new
            exact .inr (.head _)
  | stop started alive => exact .inl here

/-! ## Runs -/

/-- The answer goes to the channel of the delivery's generation, under its tag. -/
def Answers (tr : List Obs) (d : Delivery) (answer : Nat × Nat) : Prop :=
  (∃ p, .opened d.generation p answer.1 ∈ tr) ∧ d.tag = answer.2

structure Settled (w : World) (tr : List Obs) : Prop where
  accounted : Accounted w tr
  /-- A holder, an accepted publication or a settlement stands for a delivery of its own. -/
  balance : ∃ ds, List.Forall₂ (Answers tr) ds (settlements tr) ∧
    ∀ d, w.holders.count d + (carried (accepted (events tr))).count d + ds.count d ≤
      (deliveries tr).count d + (carried (retired (events tr))).count d
  reported {d : Delivery} {result : Disposition} {body : Bytes} :
    .completes d result body ∈ w.functors → .reported d result ∈ tr

theorem World.Settles.answers {w : World} {tr : List Obs} (linked : Linked w.link tr) {d : Delivery}
    {answer : Nat × Nat} (settles : w.Settles d answer) : Answers tr d answer := by
  obtain ⟨channel, generation, tag⟩ := settles
  obtain ⟨p, opened⟩ := linked.consumer channel
  exact ⟨⟨p, generation ▸ opened⟩, tag⟩

theorem Answers.later {tr : List Obs} {d : Delivery} {answer : Nat × Nat} (answers : Answers tr d answer)
    (out : List Obs) : Answers (tr ++ out) d answer :=
  ⟨answers.1.imp fun _ member => List.mem_append_left _ member, answers.2⟩

theorem carried_count (items : List Publication) (d : Delivery) :
    (carried items).count d = items.countP fun item => item.completion == some d :=
  List.count_filterMap

/-- The publications of a run that were retired were accepted before. -/
theorem Accounted.retired_subperm {w : World} {tr : List Obs} (held : Accounted w tr) :
    (retired (events tr)).Subperm (accepted (events tr)) := by
  obtain ⟨l, moves, -⟩ := held.tracked
  have kept := held.called.kept moves
  refine List.subperm_of_subset kept.once fun item gone => ?_
  rw [kept.accepted]
  exact List.mem_append_left _ (kept.retired item gone)

theorem Accounted.carried_le {w : World} {tr : List Obs} (held : Accounted w tr) (d : Delivery) :
    (carried (retired (events tr))).count d ≤ (carried (accepted (events tr))).count d := by
  rw [carried_count, carried_count]
  exact held.retired_subperm.countP_le _

namespace Settled

variable {codec : JsonCodec} {w w' : World} {tr out : List Obs}

theorem step (settled : Settled w tr) (accounted' : Accounted w' (tr ++ out))
    (step : Step codec w out w') : Settled w' (tr ++ out) := by
  obtain ⟨accounted, ⟨ds, matched, le⟩, reported⟩ := settled
  obtain ⟨ds', matched', balance⟩ := step.balanced
  refine ⟨accounted', ⟨ds ++ ds', ?_, fun d => ?_⟩, ?_⟩
  · unfold settlements at matched matched' ⊢
    rw [List.filterMap_append]
    refine List.rel_append (matched.imp fun _ _ answers => answers.later out)
      (matched'.imp fun _ _ settles => (settles.answers accounted.linked).later out)
  · have earlier := le d
    have new := balance d
    simp only [deliveries, carried, events_append, Ledger.accepted_append, Ledger.retired_append,
      List.filterMap_append, List.count_append] at earlier new ⊢
    omega
  · intro d result body here
    rcases step.completes here with old | new
    · exact List.mem_append_left _ (reported old)
    · exact List.mem_append_right _ new

theorem delivered_of_count {d : Delivery} (counted : 0 < (deliveries tr).count d) :
    ∃ channel body, .delivered channel d body ∈ tr := by
  obtain ⟨o, member, here⟩ := List.mem_filterMap.mp (List.count_pos_iff.mp counted)
  cases o with
  | delivered channel e body =>
      cases here
      exact ⟨channel, body, member⟩
  | _ => cases here

/-- A holder of a delivery is there because it was delivered. -/
theorem delivered (settled : Settled w tr) {d : Delivery} (holder : d ∈ w.holders) :
    ∃ channel body, .delivered channel d body ∈ tr := by
  obtain ⟨ds, -, le⟩ := settled.balance
  have some := List.count_pos_iff.mpr holder
  have balance := le d
  have fewer := settled.accounted.carried_le d
  have delivered : 0 < (deliveries tr).count d := by omega
  exact delivered_of_count delivered

/-- An unconfirmed publication settles a delivery that was delivered. -/
theorem carried_delivered (settled : Settled w tr) (alive : w.handler.alive = true)
    {entry : Nat × Publication} (sent : entry ∈ w.handler.inflight.entries) {d : Delivery}
    (carries : entry.2.completion = some d) : ∃ channel body, .delivered channel d body ∈ tr := by
  obtain ⟨l, moves, tracks⟩ := settled.accounted.tracked
  have kept := settled.accounted.called.kept moves
  obtain rfl := tracks.alive alive
  obtain ⟨admitted, fresh⟩ := kept.fresh sent
  have part : (entry.2 :: retired (events tr)).Subperm (accepted (events tr)) := by
    refine List.subperm_of_subset (List.nodup_cons.mpr ⟨fresh, kept.once⟩) fun item member => ?_
    rw [kept.accepted]
    rcases List.mem_cons.mp member with rfl | gone
    · exact List.mem_append_left _ admitted
    · exact List.mem_append_left _ (kept.retired item gone)
  have more : (carried (retired (events tr))).count d + 1 ≤
      (carried (accepted (events tr))).count d := by
    have counts := part.countP_le fun item => item.completion == some d
    rw [List.countP_cons_of_pos (by simp [carries])] at counts
    rw [carried_count, carried_count]
    exact counts
  obtain ⟨ds, -, le⟩ := settled.balance
  have balance := le d
  have delivered : 0 < (deliveries tr).count d := by omega
  exact delivered_of_count delivered

/-- No answer is given twice. -/
theorem once (settled : Settled w tr) : (settlements tr).Nodup := by
  obtain ⟨ds, matched, le⟩ := settled.balance
  have linked := settled.accounted.linked
  have unique : Relator.BiUnique (Answers tr) := by
    constructor
    · intro d e answer first second
      obtain ⟨⟨p, opened⟩, tag⟩ := first
      obtain ⟨⟨p', opened'⟩, tag'⟩ := second
      have same := (linked.once opened opened' (.inr (.inr rfl))).1
      have tags : d.tag = e.tag := tag.trans tag'.symm
      cases d
      cases e
      cases same
      cases tags
      rfl
    · intro d answer answer' first second
      obtain ⟨⟨p, opened⟩, tag⟩ := first
      obtain ⟨⟨p', opened'⟩, tag'⟩ := second
      have same := (linked.once opened opened' (.inl rfl)).2.2
      exact Prod.ext same (tag.symm.trans tag')
  refine (List.rel_nodup unique matched).mp (List.nodup_iff_count_le_one.mpr fun d => ?_)
  have balance := le d
  have fewer := settled.accounted.carried_le d
  have one := List.nodup_iff_count_le_one.mp linked.deliveries d
  unfold deliveries at balance
  omega

end Settled

theorem settled {codec : JsonCodec} {queueName : Bytes} {tr : List Obs} {w : World}
    (run : Run (Step codec) (.initial queueName) tr w) : Settled w tr := by
  induction run with
  | refl =>
      exact ⟨@accounted codec queueName _ _ .refl, ⟨[], .nil, fun d => Nat.le_refl _⟩, fun member => nomatch member⟩
  | tail earlier step ih => exact ih.step (accounted (earlier.tail step)) step

end AIService.MQ
