import AIService.MQ.Carriers

/-!
# Why a delivery is settled

A delivery is settled once, on the channel it came on, and for a reason (`settled_once`): its handler
reported `Ack`, the copy in its place was confirmed within the same generation, or that copy was
refused.
-/

namespace AIService.MQ

open Ledger

/-- The delivery came on this channel, in a generation that opened it. -/
def Came (pre : List Obs) (channel : Nat) (d : Delivery) : Prop :=
  (∃ p, .opened d.generation p channel ∈ pre) ∧ ∃ body, .delivered channel d body ∈ pre

/-- The copy that settles the delivery was published on the producer channel of the delivery's
generation, and a positive confirm of that generation covered its tag and retired it. -/
def Confirmed (pre : List Obs) (channel : Nat) (d : Delivery) : Prop :=
  ∃ (producer tag : Nat) (multiple : Bool) (entry : Nat × Publication) (before after : List Obs),
    .opened d.generation producer channel ∈ before ∧ .published producer entry.1 entry.2 ∈ before ∧
    pre = before ++ .confirmed tag multiple true :: after ∧ generationAt before = d.generation ∧
    World.covers tag multiple entry.1 = true ∧ .retired entry.1 entry.2 ∈ after ∧
    entry.2.completion = some d

/-- Why a delivery may be settled: its handler reported `Ack`, or the copy published in its place was
confirmed; it is rejected when that copy was refused. -/
def Obs.Justified (pre : List Obs) : Obs → Prop
  | .acked channel tag => ∃ d, d.tag = tag ∧ Came pre channel d ∧
      (.reported d .ack ∈ pre ∨ Confirmed pre channel d)
  | .rejected channel tag => ∃ d, d.tag = tag ∧ Came pre channel d ∧
      ∃ item, .refused item ∈ pre ∧ item.completion = some d
  | _ => True

theorem Came.later {tr : List Obs} {channel : Nat} {d : Delivery} (came : Came tr channel d)
    (pre : List Obs) : Came (tr ++ pre) channel d :=
  ⟨came.1.imp fun _ member => List.mem_append_left _ member,
    came.2.imp fun _ member => List.mem_append_left _ member⟩

theorem Obs.justified_of_aside {o : Obs} (none : o.settled? = none) (pre : List Obs) : o.Justified pre := by
  cases o with
  | acked channel tag => cases none
  | rejected channel tag => cases none
  | _ => trivial

/-- A delivery of the current generation came on the consumer channel. -/
theorem Linked.came {w : World} {tr : List Obs} (linked : Linked w.link tr) {d : Delivery}
    {channel : Nat} (current : d.generation = w.handler.generation)
    (consumer : w.handler.consumerChannel = some channel)
    (delivered : ∃ c body, .delivered c d body ∈ tr) : Came tr channel d := by
  obtain ⟨c, body, member⟩ := delivered
  obtain ⟨p, opened⟩ := (linked.delivered member).1
  obtain ⟨p', opened'⟩ := linked.consumer consumer
  obtain ⟨-, -, rfl⟩ := linked.once opened opened' (.inl current)
  exact ⟨⟨p, opened⟩, body, member⟩

theorem refuse_justified {w : World} {tr : List Obs} (linked : Linked w.link tr) {item : Publication}
    (delivered : ∀ d, item.completion = some d → ∃ c body, .delivered c d body ∈ tr)
    {pre post : List Obs} {o : Obs} (split : w.refuse item = pre ++ o :: post) :
    o.Justified (tr ++ pre) := by
  unfold World.refuse at split
  cases pre with
  | nil =>
      obtain ⟨rfl, -⟩ := List.cons.inj split
      trivial
  | cons first rest =>
      obtain ⟨rfl, later⟩ := List.cons.inj split
      cases carries : item.completion with
      | none =>
          rw [carries] at later
          cases rest <;> cases later
      | some d =>
          rw [carries] at later
          have shown : o ∈ w.handler.settle d false := by
            change w.handler.settle d false = _ at later
            rw [later]
            simp
          obtain ⟨channel, consumer, -, current, rfl⟩ := settle_shows shown
          have came := linked.came current consumer (delivered d carries)
          exact ⟨d, rfl, came.later _, item, by simp, carries⟩

/-- In a list of heads with their tails an element of a tail comes after its head. -/
theorem head_before {β : Type} {head : β → Obs} {tail : β → List Obs} {entries : List β}
    {later pre post : List Obs} {o : Obs}
    (split : (entries.flatMap fun e => head e :: tail e) ++ later = pre ++ o :: post)
    (notLater : o ∉ later) (notHead : ∀ e, o ≠ head e) :
    ∃ e ∈ entries, o ∈ tail e ∧ head e ∈ pre := by
  induction entries generalizing pre with
  | nil =>
      change later = _ at split
      exact absurd (by rw [split]; simp) notLater
  | cons e rest ih =>
      rw [List.flatMap_cons, List.cons_append, List.cons_append, List.append_assoc] at split
      cases pre with
      | nil => exact absurd (List.cons.inj split).1.symm (notHead e)
      | cons first pre =>
          obtain ⟨rfl, rest'⟩ := List.cons.inj split
          rcases List.append_eq_append_iff.mp rest' with ⟨mid, rfl, cut⟩ | ⟨mid, whole, cut⟩
          · obtain ⟨e', member, here, before⟩ := ih cut
            exact ⟨e', .tail _ member, here, .tail _ (List.mem_append_right _ before)⟩
          · cases mid with
            | nil =>
                obtain ⟨e', member, here, before⟩ := ih (show _ = [] ++ o :: post from cut.symm)
                cases before
            | cons o' mid =>
                obtain ⟨rfl, -⟩ := List.cons.inj cut
                exact ⟨e, .head _, by rw [whole]; simp, .head _⟩

theorem drainPending_justified {w : World} {sent : Nat → Bool} {o : Obs}
    (shown : o ∈ (w.drainPending sent).1) (pre : List Obs) : o.Justified pre := by
  obtain ⟨channel, tag, item, -, rfl⟩ := (drain_shows w sent).2 o shown
  trivial

theorem confirm_justified {w : World} {tr : List Obs} (settled : Settled w tr)
    (windowed : Windowed w tr) {tag : Nat}
    {multiple positive : Bool} {sent : Nat → Bool} {pre post : List Obs} {o : Obs}
    (split : .confirmed tag multiple positive :: (w.confirm tag multiple positive sent).1 =
      pre ++ o :: post) : o.Justified (tr ++ pre) := by
  by_cases quiet : o.settled? = none
  · exact Obs.justified_of_aside quiet _
  cases pre with
  | nil =>
      obtain ⟨rfl, -⟩ := List.cons.inj split
      exact absurd rfl quiet
  | cons first rest =>
      obtain ⟨rfl, answer⟩ := List.cons.inj split
      rcases confirm_eq (Prod.eta (w.confirm tag multiple positive sent)).symm with
        ⟨silent, -⟩ | ⟨rfl, -, -, later, shown, drained⟩
      · rw [silent] at answer
        cases rest <;> cases answer
      · rw [shown, (retireAll_shows w _).2] at answer
        have notLater : o ∉ later := by
          intro member
          obtain ⟨channel, t, item, -, rfl⟩ := (drainPending_shows drained).2 o member
          exact quiet rfl
        have notHead : ∀ e : Nat × Publication, o ≠ .retired e.1 e.2 := fun e same => by
          rw [same] at quiet
          exact quiet rfl
        obtain ⟨entry, covered, settles, retired⟩ := head_before answer notLater notHead
        obtain ⟨member, covers⟩ := List.mem_filter.mp covered
        unfold World.completed at settles
        cases carries : entry.2.completion with
        | none =>
            rw [carries] at settles
            cases settles
        | some d =>
            rw [carries] at settles
            obtain ⟨channel, consumer, alive, current, rfl⟩ := settle_shows settles
            have linked := settled.accounted.linked
            have came := linked.came current consumer (settled.carried_delivered alive member carries)
            obtain ⟨producer, held, published⟩ := windowed entry member
            obtain ⟨c, opened⟩ := linked.producer held
            obtain ⟨p, opened'⟩ := linked.consumer consumer
            obtain ⟨-, -, rfl⟩ := linked.once opened opened' (.inl rfl)
            have generation : generationAt tr = d.generation := linked.generation.trans current.symm
            exact ⟨d, rfl, came.later _, .inr ⟨producer, tag, multiple, entry, tr, rest,
              current ▸ opened, published, rfl, generation, covers, retired, carries⟩⟩

theorem runFunctor_justified {codec : JsonCodec} {w : World} {tr : List Obs} (settled : Settled w tr)
    {f : Functor} {rest : List Functor} (functors : w.functors = f :: rest) {sent : Nat → Bool}
    {pre post : List Obs} {o : Obs}
    (split : ({ w with functors := rest }.runFunctor codec sent f).1 = pre ++ o :: post) :
    o.Justified (tr ++ pre) := by
  have member : o ∈ ({ w with functors := rest }.runFunctor codec sent f).1 := by
    rw [split]
    simp
  unfold World.runFunctor at member
  cases f with
  | admits item =>
      dsimp only at member
      split at member
      · rcases List.mem_cons.mp member with rfl | later
        · trivial
        · exact drainPending_justified later _
      · cases member
  | completes d result body =>
      dsimp only at member
      split at member
      · unfold World.completeDelivery at member
        split at member
        · cases member
        · next current =>
            rw [not_or, not_not] at current
            split at member
            · cases member
            · next channel consumer =>
                split at member
                · next positive =>
                    have here : Functor.completes d result body ∈ w.functors := by
                      rw [functors]
                      exact .head _
                    have holder : d ∈ w.holders := by
                      refine List.mem_append_left _ (List.mem_append_left _ (List.mem_append_right _ ?_))
                      exact List.mem_filterMap.mpr ⟨_, here, rfl⟩
                    cases List.mem_singleton.mp member
                    have came := settled.accounted.linked.came current.1 consumer (settled.delivered holder)
                    have reported := settled.reported here
                    rw [positive] at reported
                    exact ⟨d, rfl, came.later _, .inl (List.mem_append_left _ reported)⟩
                · cases member
      · cases member
  | recovers =>
      dsimp only at member
      split at member
      · cases List.mem_singleton.mp member
        trivial
      · cases member

theorem fireTimer_justified {w : World} {tr : List Obs} (settled : Settled w tr)
    {before after : List Timer} {t : Timer} (timers : w.timers = before ++ t :: after)
    {watched : List Monitored} {built : Bool} {pre post : List Obs} {o : Obs}
    (split : ({ w with timers := before ++ after }.fireTimer watched built t).1 = pre ++ o :: post) :
    o.Justified (tr ++ pre) := by
  unfold World.fireTimer at split
  cases t with
  | reconnects delay =>
      dsimp only at split
      split at split <;> cases pre <;> cases split
  | retries d target body delay =>
      dsimp only at split
      split at split
      · have holder : d ∈ w.holders := by
          refine List.mem_append_left _ (List.mem_append_right _ (List.mem_filterMap.mpr
            ⟨.retries d target body delay, ?_, rfl⟩))
          rw [timers]
          simp
        unfold World.schedulePublish at split
        dsimp only at split
        split at split
        · cases pre <;> cases split
        · refine refuse_justified (w := w) settled.accounted.linked (fun e carries => ?_) split
          cases carries
          exact settled.delivered holder
      · cases pre <;> cases split

/-- What a section answers is justified by what was seen before. -/
theorem Step.justified {codec : JsonCodec} {w w' : World} {out tr : List Obs} (step : Step codec w out w')
    (settled : Settled w tr) (windowed : Windowed w tr) {pre post : List Obs} {o : Obs} (split : out = pre ++ o :: post) :
    o.Justified (tr ++ pre) := by
  have member : o ∈ out := by
    rw [split]
    simp
  have linked := settled.accounted.linked
  have called {before after : List PublishCall} {item : Publication} {phase : Phase}
      (calls : w.calls = before ++ ⟨item, phase⟩ :: after) {d : Delivery}
      (carries : item.completion = some d) : ∃ c body, .delivered c d body ∈ tr := by
    refine settled.delivered (List.mem_append_right _ (List.mem_filterMap.mpr ⟨⟨item, phase⟩, ?_, carries⟩))
    rw [calls]
    simp
  cases step with
  | publish queue body =>
      unfold World.schedulePublish at split
      dsimp only at split
      split at split
      · cases pre <;> cases split
      · exact refuse_justified (w := { w with nextTicket := w.nextTicket + 1 }) linked
          (fun d carries => by cases carries) split
  | load calls =>
      unfold World.loadOutstanding at split
      dsimp only at split
      split at split
      · exact refuse_justified linked (fun d => called calls) split
      · cases pre <;> cases split
  | exchangeFails calls =>
      unfold World.loadOutstanding at split
      dsimp only at split
      split at split
      · exact refuse_justified linked (fun d => called calls) split
      · cases pre <;> cases split
  | @functor f rest sent functors => exact runFunctor_justified settled functors split
  | @timer before after t watched built timers => exact fireTimer_justified settled timers split
  | confirm tag multiple positive sent held => exact confirm_justified settled windowed split
  | confirmSelected sent held => exact drainPending_justified member _
  | writable sent _ held calm => exact drainPending_justified member _
  | ackFn result fns =>
      unfold World.callAckFn at member
      split at member
      · cases member
      · cases List.mem_singleton.mp member
        trivial
  | start watched built off => cases member
  | exchange calls same => cases member
  | monitor connection m made => cases member
  | connectionFailed started => cases member
  | queueInLoop calls =>
      cases List.mem_singleton.mp member
      trivial
  | onConnected held off =>
      cases List.mem_singleton.mp member
      trivial
  | deliver tag body held later =>
      cases List.mem_singleton.mp member
      trivial
  | stop started alive =>
      cases List.mem_singleton.mp member
      trivial

theorem windowed {codec : JsonCodec} {queueName : Bytes} {tr : List Obs} {w : World}
    (run : Run (Step codec) (.initial queueName) tr w) : Windowed w tr := by
  induction run with
  | refl => exact nofun
  | tail earlier step ih => exact ih.step (settled earlier).accounted.linked step

/-- A delivery is settled at most once: an answer goes to the channel the delivery came on, which
belongs to one generation, under a tag that is not answered again, and for a reason. -/
theorem settled_once {codec : JsonCodec} {queueName : Bytes} {tr : List Obs} {w : World}
    (run : Run (Step codec) (.initial queueName) tr w) :
    (settlements tr).Nodup ∧
    (∀ g p c g' p' c', .opened g p c ∈ tr → .opened g' p' c' ∈ tr → (c = c' ↔ g = g')) ∧
    ∀ pre o post, tr = pre ++ o :: post → o.Justified pre := by
  have held := settled run
  refine ⟨held.once, fun g p c g' p' c' first second => ⟨fun same => ?_, fun same => ?_⟩, ?_⟩
  · exact (held.accounted.linked.once first second (.inr (.inr same))).1
  · exact (held.accounted.linked.once first second (.inl same)).2.2
  · intro pre o post split
    refine run.observed (E := fun pre o => o.Justified pre) ?_ split
    intro tr w out w' earlier step pre o post cut
    exact step.justified (settled earlier) (windowed earlier) cut

/-- A delivery is acknowledged on the channel it came on. -/
theorem settled_once_acked : ∃ tr w, Run (Step flatCodec) (.initial (bytes "sql_queue")) tr w ∧
    settlements tr = [(1, 7)] ∧ (settlements tr).Nodup := by
  have connected : Run (Step flatCodec) (.initial (bytes "sql_queue")) _ _ :=
    (Run.refl.tail (.start [] true rfl)).tail (.onConnected rfl rfl)
  have delivered := connected.tail (.deliver 7 (bytes "x") rfl (by decide))
  have reported := delivered.tail (@Step.ackFn _ _ [] [] ⟨⟨0, 7⟩, bytes "x", false⟩ .ack rfl)
  have acked := reported.tail (.functor (fun _ => true) rfl)
  exact ⟨_, _, acked, rfl, (settled_once acked).1⟩

end AIService.MQ
