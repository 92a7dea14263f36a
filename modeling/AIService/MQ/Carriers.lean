import AIService.MQ.Settlement
import Mathlib.Logic.Relation

/-!
# What a delivery becomes

A delivery's body goes from its `AckFn` to a completion, to a retry timer and to the publication
that takes its place, with another `_attempt` at most (`Step.carries`).  An unconfirmed
publication was sent on the producer channel of the handler (`Step.window`).
-/

namespace AIService.MQ

/-- The body of a retry: only `_attempt` is set. -/
def Reattempted (codec : JsonCodec) (body body' : Bytes) : Prop :=
  ∃ job n, codec.parse body = some job ∧
    (job.setField? (bytes "_attempt") (.int n)).bind codec.dump = some body'

/-- A retry goes to the queue, all else to quarantine. -/
def Target (queueName queue : Bytes) : Prop := queue = queueName ∨ queue = queueName ++ bytes ".dead"

theorem replacement_spec (codec : JsonCodec) (queueName : Bytes) (result : Disposition) (body : Bytes) :
    Target queueName (replacement codec queueName result body).1 ∧
      ((replacement codec queueName result body).2.1 = body ∨
        Reattempted codec body (replacement codec queueName result body).2.1) := by
  unfold replacement
  dsimp only
  split
  · exact ⟨.inr rfl, .inl rfl⟩
  split
  · exact ⟨.inr rfl, .inl rfl⟩
  next job parsed =>
    split
    · exact ⟨.inr rfl, .inl rfl⟩
    next attempt read =>
      split
      · split
        · exact ⟨.inr rfl, .inl rfl⟩
        next written => exact ⟨.inl rfl, .inr ⟨job, _, parsed, written⟩⟩
      · exact ⟨.inr rfl, .inl rfl⟩

/-! ## Carriers -/

/-- The publications that are not confirmed. -/
def World.items (w : World) : List Publication :=
  w.calls.map (·.item) ++ w.functors.filterMap Functor.admits? ++ w.handler.pending ++
    w.handler.inflight.entries.map Prod.snd

/-- A publication that takes the place of a delivery. -/
def Publication.Carries (P : Delivery → Bytes → Prop) (queueName : Bytes) (item : Publication) : Prop :=
  ∀ d, item.completion = some d → P d item.body ∧ Target queueName item.queue

/-- Whatever still stands for a delivery has a body fit for it. -/
structure World.Carries (P : Delivery → Bytes → Prop) (queueName : Bytes) (w : World) : Prop where
  named : w.handler.queueName = queueName
  ackFns : ∀ fn ∈ w.ackFns, P fn.delivery fn.body
  completes : ∀ d result body, .completes d result body ∈ w.functors → P d body
  retries : ∀ d target body delay, .retries d target body delay ∈ w.timers →
    P d body ∧ Target queueName target
  items : ∀ item ∈ w.items, item.Carries P queueName

theorem World.Carries.imp {P Q : Delivery → Bytes → Prop} {queueName : Bytes} {w : World}
    (carries : w.Carries P queueName) (weaker : ∀ d body, P d body → Q d body) :
    w.Carries Q queueName where
  named := carries.named
  ackFns fn member := weaker _ _ (carries.ackFns fn member)
  completes d result body member := weaker _ _ (carries.completes d result body member)
  retries d target body delay member :=
    (carries.retries d target body delay member).imp (weaker _ _) id
  items item member d some := (carries.items item member d some).imp (weaker _ _) id

/-- Nothing stands for a delivery that did not before. -/
structure World.Within (w' w : World) : Prop where
  named : w'.handler.queueName = w.handler.queueName
  ackFns : ∀ fn ∈ w'.ackFns, fn ∈ w.ackFns
  completes : ∀ d result body, .completes d result body ∈ w'.functors →
    .completes d result body ∈ w.functors
  retries : ∀ d target body delay, .retries d target body delay ∈ w'.timers →
    .retries d target body delay ∈ w.timers
  items : ∀ item ∈ w'.items, item ∈ w.items

section carries

variable {codec : JsonCodec} {P : Delivery → Bytes → Prop} {queueName : Bytes} {w w' w'' : World}

theorem World.Carries.within (carries : w.Carries P queueName) (within : w'.Within w) :
    w'.Carries P queueName where
  named := within.named.trans carries.named
  ackFns fn member := carries.ackFns fn (within.ackFns fn member)
  completes d result body member := carries.completes d result body (within.completes _ _ _ member)
  retries d target body delay member :=
    carries.retries d target body delay (within.retries _ _ _ _ member)
  items item member := carries.items item (within.items item member)

theorem World.Within.trans (second : w''.Within w') (first : w'.Within w) : w''.Within w where
  named := second.named.trans first.named
  ackFns fn member := first.ackFns fn (second.ackFns fn member)
  completes d result body member := first.completes _ _ _ (second.completes d result body member)
  retries d target body delay member :=
    first.retries _ _ _ _ (second.retries d target body delay member)
  items item member := first.items item (second.items item member)

/-- A section that leaves the frame alone, and takes its publications from where they were. -/
theorem World.Within.of_frame (same : w'.frame = w.frame)
    (items : ∀ item ∈ w'.handler.pending ++ w'.handler.inflight.entries.map Prod.snd,
      item ∈ w.handler.pending ++ w.handler.inflight.entries.map Prod.snd) : w'.Within w where
  named := congrArg (·.handler.queueName) same
  ackFns := by
    have ackFns : w'.ackFns = w.ackFns := congrArg (·.ackFns) same
    rw [ackFns]
    exact fun _ member => member
  completes d result body member := completes_of_frame same member
  retries := by
    have timers : w'.timers = w.timers := congrArg (·.timers) same
    rw [timers]
    exact fun _ _ _ _ member => member
  items item member := by
    have calls : w'.calls = w.calls := congrArg (·.calls) same
    have functors : w'.functors.filter (· ≠ .recovers) = w.functors.filter (· ≠ .recovers) :=
      congrArg (·.functors) same
    unfold World.items at member ⊢
    rw [List.append_assoc, List.mem_append, List.mem_append] at member ⊢
    rcases member with (call | admitted) | later
    · rw [calls] at call
      exact .inl (.inl call)
    · refine .inl (.inr ?_)
      obtain ⟨f, here, admits⟩ := List.mem_filterMap.mp admitted
      refine List.mem_filterMap.mpr ⟨f, ?_, admits⟩
      have kept : f ∈ w'.functors.filter (· ≠ .recovers) := by
        refine List.mem_filter.mpr ⟨here, decide_eq_true ?_⟩
        rintro rfl
        cases admits
      rw [functors] at kept
      exact (List.mem_filter.mp kept).1
    · exact .inr (items item later)

theorem connectionFailed_within (w : World) : w.connectionFailed.Within w := by
  refine .of_frame (connectionFailed_frame w) ?_
  unfold World.connectionFailed
  split <;> exact fun _ member => member

/-- A drain moves publications from the head of the queue to the window. -/
theorem Drains.items {channel : Nat} {items : List Publication} {w w' : World} {out : List Obs}
    (drains : Drains channel items w out w') :
    (∀ item ∈ w'.handler.pending, item ∈ items) ∧
      (∀ entry ∈ w'.handler.inflight.entries, entry ∈ w.handler.inflight.entries ∨
        .published channel entry.1 entry.2 ∈ out) ∧
      ∀ c tag item, .published c tag item ∈ out → item ∈ items := by
  induction drains with
  | empty => exact ⟨nofun, fun _ member => .inl member, nofun⟩
  | stops => exact ⟨fun _ member => member, fun _ member => .inl member, nofun⟩
  | @fails w item rest =>
      have ledger := connectionFailed_ledger { w with handler := { w.handler with pending := item :: rest } }
      refine ⟨fun item' member => ?_, fun entry member => .inl ?_, nofun⟩
      · exact (congrArg (·.waiting) ledger : _ = item :: rest) ▸ member
      · exact (congrArg (·.window) ledger : _ = w.handler.inflight.entries) ▸ member
  | publish _ _ ih =>
      obtain ⟨pending, window, published⟩ := ih
      refine ⟨fun item' member => .tail _ (pending item' member), fun entry member => ?_, ?_⟩
      · rcases window entry member with here | shown
        · rcases SortedMap.mem_place here with rfl | old
          · exact .inr (.head _)
          · exact .inl old
        · exact .inr (.tail _ shown)
      · intro c tag item' member
        rcases List.mem_cons.mp member with here | shown
        · cases here
          exact .head _
        · exact .tail _ (published c tag item' shown)

theorem drainPending_items {sent : Nat → Bool} {w w' : World} {out : List Obs}
    (ran : w.drainPending sent = (out, w')) :
    w'.Within w ∧ (∀ entry ∈ w'.handler.inflight.entries, entry ∈ w.handler.inflight.entries ∨
        ∃ channel, w.handler.producerChannel = some channel ∧
          .published channel entry.1 entry.2 ∈ out) ∧
      ∀ c tag item, .published c tag item ∈ out → item ∈ w.handler.pending := by
  have frame := (drainPending_shows ran).1
  unfold World.drainPending at ran
  split at ran
  · cases ran
    exact ⟨.of_frame frame fun _ member => member, fun _ member => .inl member, nofun⟩
  split at ran
  · cases ran
    exact ⟨.of_frame frame fun _ member => member, fun _ member => .inl member, nofun⟩
  next channel here =>
    obtain ⟨pending, window, published⟩ := (drains_of_drainLoop ran).items
    refine ⟨.of_frame frame fun item member => ?_, fun entry member => ?_, published⟩
    · rcases List.mem_append.mp member with waiting | sent
      · exact List.mem_append_left _ (pending item waiting)
      · obtain ⟨entry, inside, rfl⟩ := List.mem_map.mp sent
        rcases window entry inside with old | shown
        · exact List.mem_append_right _ (List.mem_map_of_mem old)
        · exact List.mem_append_left _ (published _ _ _ shown)
    · exact (window entry member).imp id fun shown => ⟨channel, here, shown⟩

theorem retireAll_items (w : World) (entries : List (Nat × Publication)) :
    ((w.retireAll entries).2.handler.pending = w.handler.pending) ∧
      ∀ entry ∈ (w.retireAll entries).2.handler.inflight.entries,
        entry ∈ w.handler.inflight.entries := by
  induction entries generalizing w with
  | nil => exact ⟨rfl, fun _ member => member⟩
  | cons first rest ih =>
      obtain ⟨pending, window⟩ := ih (w.retire first).2
      refine ⟨pending, fun entry member => ?_⟩
      have old := window entry member
      exact (List.mem_filter.mp old).1

theorem confirm_items {tag : Nat} {multiple accepted : Bool} {sent : Nat → Bool} {w w' : World}
    {out : List Obs} (ran : w.confirm tag multiple accepted sent = (out, w')) :
    w'.Within w ∧ (∀ entry ∈ w'.handler.inflight.entries, entry ∈ w.handler.inflight.entries ∨
        ∃ channel, w.handler.producerChannel = some channel ∧
          .published channel entry.1 entry.2 ∈ out) ∧
      ∀ c tag item, .published c tag item ∈ out → item ∈ w.handler.pending := by
  rcases confirm_eq ran with ⟨rfl, rfl | rfl⟩ | ⟨-, -, -, later, rfl, drained⟩
  · exact ⟨.of_frame rfl fun _ member => member, fun _ member => .inl member, nofun⟩
  · refine ⟨connectionFailed_within w, fun entry member => .inl ?_, nofun⟩
    exact (congrArg (·.window) (connectionFailed_ledger w) : _ = w.handler.inflight.entries) ▸ member
  · generalize covered : w.handler.inflight.entries.filter _ = entries at drained ⊢
    obtain ⟨frame, retired⟩ := retireAll_shows w entries
    obtain ⟨pending, window⟩ := retireAll_items w entries
    obtain ⟨within, window', published⟩ := drainPending_items drained
    have producer := congrArg (·.handler.producerChannel) frame
    refine ⟨within.trans (.of_frame frame fun item member => ?_), fun entry member => ?_, ?_⟩
    · rw [pending] at member
      rcases List.mem_append.mp member with waiting | sent
      · exact List.mem_append_left _ waiting
      · obtain ⟨entry, inside, rfl⟩ := List.mem_map.mp sent
        exact List.mem_append_right _ (List.mem_map_of_mem (window entry inside))
    · rcases window' entry member with old | ⟨channel, here, shown⟩
      · exact .inl (window entry old)
      · exact .inr ⟨channel, producer.symm.trans here, List.mem_append_right _ shown⟩
    · intro c t item member
      rw [← pending]
      refine published c t item ?_
      rcases List.mem_append.mp member with early | shown
      · rw [retired, List.mem_flatMap] at early
        obtain ⟨entry, -, here⟩ := early
        rcases List.mem_cons.mp here with head | completed
        · cases head
        · unfold World.completed at completed
          split at completed
          · obtain ⟨channel, -, -, -, other⟩ := settle_shows completed
            cases other
          · cases completed
      · exact shown

theorem World.mem_items {item : Publication} : item ∈ w.items ↔
    (∃ call ∈ w.calls, call.item = item) ∨ .admits item ∈ w.functors ∨ item ∈ w.handler.pending ∨
      ∃ entry ∈ w.handler.inflight.entries, entry.2 = item := by
  have admits : item ∈ w.functors.filterMap Functor.admits? ↔ .admits item ∈ w.functors := by
    rw [List.mem_filterMap]
    constructor
    · rintro ⟨f, member, admits⟩
      cases f <;> cases admits
      exact member
    · exact fun member => ⟨_, member, rfl⟩
  unfold World.items
  rw [List.mem_append, List.mem_append, List.mem_append, admits, List.mem_map, List.mem_map, or_assoc, or_assoc]

/-- A section that leaves all of it alone. -/
theorem World.Within.of_same (named : w'.handler.queueName = w.handler.queueName)
    (pending : w'.handler.pending = w.handler.pending) (inflight : w'.handler.inflight = w.handler.inflight)
    (functors : w'.functors = w.functors) (timers : w'.timers = w.timers) (ackFns : w'.ackFns = w.ackFns)
    (calls : w'.calls = w.calls) : w'.Within w where
  named := named
  ackFns _ member := ackFns ▸ member
  completes _ _ _ member := functors ▸ member
  retries _ _ _ _ member := timers ▸ member
  items item member := by
    rw [World.mem_items, calls, functors, pending, inflight] at member
    exact World.mem_items.mpr member

theorem connect_within (w : World) (watched : List Monitored) (built : Bool) :
    (w.connect watched built).Within w := by
  obtain ⟨h, core, made⟩ := connect_eq w watched built
  have named : h.queueName = w.handler.queueName := congrArg (·.queueName) core
  have pending : h.pending = w.handler.pending := congrArg (·.pending) core
  have inflight : h.inflight = w.handler.inflight := congrArg (·.inflight) core
  rw [made]
  cases built with
  | true => exact .of_same named pending inflight rfl rfl rfl rfl
  | false => exact (connectionFailed_within _).trans (.of_same named pending inflight rfl rfl rfl rfl)

theorem schedulePublish_carries (carries : w.Carries P queueName) {queue body : Bytes}
    {completion : Option Delivery}
    (fit : ∀ d, completion = some d → P d body ∧ Target queueName queue) :
    (w.schedulePublish queue body completion).2.Carries P queueName := by
  unfold World.schedulePublish
  dsimp only
  split
  · refine ⟨carries.named, carries.ackFns, carries.completes, carries.retries, fun item member => ?_⟩
    rcases World.mem_items.mp member with ⟨call, here, rfl⟩ | other
    · rcases List.mem_append.mp here with old | new
      · exact carries.items _ (World.mem_items.mpr (.inl ⟨call, old, rfl⟩))
      · rw [List.mem_singleton.mp new]
        exact fit
    · exact carries.items item (World.mem_items.mpr (.inr other))
  · exact ⟨carries.named, carries.ackFns, carries.completes, carries.retries, carries.items⟩

theorem loadOutstanding_within {before after : List PublishCall} {item : Publication} {phase : Phase}
    (calls : w.calls = before ++ ⟨item, phase⟩ :: after) :
    (w.loadOutstanding before after item).2.Within w := by
  have within {calls' : List PublishCall} (few : ∀ call ∈ calls', ∃ old ∈ w.calls, old.item = call.item) :
      ({ w with calls := calls' } : World).Within w := by
    refine ⟨rfl, fun _ member => member, fun _ _ _ member => member, fun _ _ _ _ member => member, ?_⟩
    intro item' member
    rcases World.mem_items.mp member with ⟨call, here, rfl⟩ | other
    · exact World.mem_items.mpr (.inl (few call here))
    · exact World.mem_items.mpr (.inr other)
  unfold World.loadOutstanding
  dsimp only
  split
  · refine within fun call member => ⟨call, ?_, rfl⟩
    rw [calls]
    rcases List.mem_append.mp member with early | late
    · exact List.mem_append_left _ early
    · exact List.mem_append_right _ (.tail _ late)
  · refine within fun call member => ?_
    rw [calls]
    rcases List.mem_append.mp member with early | here
    · exact ⟨call, List.mem_append_left _ early, rfl⟩
    · rcases List.mem_cons.mp here with rfl | late
      · exact ⟨⟨item, phase⟩, List.mem_append_right _ (.head _), rfl⟩
      · exact ⟨call, List.mem_append_right _ (.tail _ late), rfl⟩

/-- A retry is armed with the delivery's body, up to `_attempt`. -/
theorem completeDelivery_carries (carries : w.Carries P queueName)
    (attempts : ∀ {d body body'}, P d body → Reattempted codec body body' → P d body') {d : Delivery}
    {result : Disposition} {body : Bytes} (fits : P d body) :
    (w.completeDelivery codec d result body).2.Carries P queueName := by
  unfold World.completeDelivery
  split
  · exact carries
  split
  · exact carries
  split
  · exact carries
  · dsimp only
    refine ⟨carries.named, carries.ackFns, carries.completes, fun d' target body' delay member => ?_, carries.items⟩
    rcases List.mem_append.mp member with old | new
    · exact carries.retries d' target body' delay old
    · cases List.mem_singleton.mp new
      obtain ⟨target, same | again⟩ := replacement_spec codec w.handler.queueName result body
      · rw [same]
        exact ⟨fits, carries.named ▸ target⟩
      · exact ⟨attempts fits again, carries.named ▸ target⟩

theorem drain_within (w : World) (sent : Nat → Bool) : (w.drainPending sent).2.Within w :=
  (drainPending_items (Prod.eta (w.drainPending sent)).symm).1

theorem disconnect_within (w : World) : ({ w with handler := w.handler.disconnect } : World).Within w := by
  refine ⟨rfl, fun _ member => member, fun _ _ _ member => member, fun _ _ _ _ member => member, ?_⟩
  intro item member
  apply World.mem_items.mpr
  rcases World.mem_items.mp member with call | admits | pending | ⟨entry, here, -⟩
  · exact .inl call
  · exact .inr (.inl admits)
  · rcases List.mem_append.mp pending with sent | waiting
    · obtain ⟨entry, here, rfl⟩ := List.mem_map.mp sent
      exact .inr (.inr (.inr ⟨entry, here, rfl⟩))
    · exact .inr (.inr (.inl waiting))
  · cases here

theorem scheduleReconnect_within (w : World) : w.scheduleReconnect.Within w := by
  unfold World.scheduleReconnect
  split
  · exact .of_same rfl rfl rfl rfl rfl rfl rfl
  · refine ⟨rfl, fun _ member => member, fun _ _ _ member => member, fun d target body delay member => ?_,
      fun _ member => member⟩
    rcases List.mem_append.mp member with old | new
    · exact old
    · cases List.mem_singleton.mp new

theorem runFunctor_carries (carries : w.Carries P queueName)
    (attempts : ∀ {d body body'}, P d body → Reattempted codec body body' → P d body')
    {f : Functor} {rest : List Functor} (functors : w.functors = f :: rest) (sent : Nat → Bool) :
    ({ w with functors := rest }.runFunctor codec sent f).2.Carries P queueName := by
  have tail (g : Functor) (member : g ∈ rest) : g ∈ w.functors := functors ▸ .tail f member
  have less : ({ w with functors := rest } : World).Within w := by
    refine ⟨rfl, fun _ member => member, fun _ _ _ member => tail _ member, fun _ _ _ _ member => member, ?_⟩
    intro item member
    apply World.mem_items.mpr
    rcases World.mem_items.mp member with call | admits | other
    · exact .inl call
    · exact .inr (.inl (tail _ admits))
    · exact .inr (.inr other)
  unfold World.runFunctor
  cases f with
  | admits item =>
      dsimp only
      split
      · apply World.Carries.within _ (drain_within _ sent)
        refine ⟨carries.named, carries.ackFns, fun d result body member => ?_, carries.retries, fun item' member => ?_⟩
        · exact carries.completes d result body (tail _ member)
        · apply carries.items item'
          apply World.mem_items.mpr
          rcases World.mem_items.mp member with call | admits | pending | other
          · exact .inl call
          · exact .inr (.inl (tail _ admits))
          · rcases List.mem_append.mp pending with waiting | new
            · exact .inr (.inr (.inl waiting))
            · rw [List.mem_singleton.mp new, functors]
              exact .inr (.inl (.head rest))
          · exact .inr (.inr (.inr other))
      · exact carries.within less
  | completes d result body =>
      have fits : P d body := carries.completes d result body (functors ▸ .head rest)
      dsimp only
      split
      · exact completeDelivery_carries (carries.within less) attempts fits
      · exact carries.within less
  | recovers =>
      dsimp only
      split
      · exact (carries.within less).within ((scheduleReconnect_within _).trans (disconnect_within { w with functors := rest }))
      · exact carries.within less

theorem fireTimer_carries (carries : w.Carries P queueName) {before after : List Timer} {t : Timer}
    (timers : w.timers = before ++ t :: after) (watched : List Monitored) (built : Bool) :
    ({ w with timers := before ++ after }.fireTimer watched built t).2.Carries P queueName := by
  have less : ({ w with timers := before ++ after } : World).Within w := by
    refine ⟨rfl, fun _ member => member, fun _ _ _ member => member, fun _ _ _ _ member => ?_, fun _ member => member⟩
    rw [timers]
    rcases List.mem_append.mp member with early | late
    · exact List.mem_append_left _ early
    · exact List.mem_append_right _ (.tail _ late)
  unfold World.fireTimer
  cases t with
  | reconnects delay =>
      dsimp only
      split
      · exact (carries.within less).within ((connect_within _ watched built).trans (.of_same rfl rfl rfl rfl rfl rfl rfl))
      · exact carries.within less
  | retries d target body delay =>
      dsimp only
      split
      · apply schedulePublish_carries (carries.within less)
        intro d' same
        cases same
        exact carries.retries d target body delay (timers ▸ List.mem_append_right _ (.head _))
      · exact carries.within less

/-- A section keeps what its deliveries' bodies are fit for. -/
theorem Step.carries {out : List Obs} (step : Step codec w out w') (carries : w.Carries P queueName)
    (attempts : ∀ {d body body'}, P d body → Reattempted codec body body' → P d body')
    (arrives : ∀ channel d body, .delivered channel d body ∈ out → P d body) :
    w'.Carries P queueName := by
  cases step with
  | start watched built off =>
      exact carries.within ((connect_within _ watched built).trans (.of_same rfl rfl rfl rfl rfl rfl rfl))
  | publish queue body => exact schedulePublish_carries carries nofun
  | load calls => exact carries.within (loadOutstanding_within calls)
  | @exchange before after item count calls same =>
      refine ⟨carries.named, carries.ackFns, carries.completes, carries.retries, fun item' member => ?_⟩
      apply carries.items item'
      apply World.mem_items.mpr
      rcases World.mem_items.mp member with ⟨call, here, rfl⟩ | other
      · rw [calls]
        rcases List.mem_append.mp here with early | here
        · exact .inl ⟨call, List.mem_append_left _ early, rfl⟩
        · rcases List.mem_cons.mp here with rfl | late
          · exact .inl ⟨⟨item, .loaded count⟩, List.mem_append_right _ (.head _), rfl⟩
          · exact .inl ⟨call, List.mem_append_right _ (.tail _ late), rfl⟩
      · exact .inr other
  | exchangeFails calls => exact carries.within (loadOutstanding_within calls)
  | @queueInLoop before after item calls =>
      refine ⟨carries.named, carries.ackFns, fun d result body member => ?_, carries.retries, fun item' member => ?_⟩
      · rcases List.mem_append.mp member with old | new
        · exact carries.completes d result body old
        · cases List.mem_singleton.mp new
      apply carries.items item'
      apply World.mem_items.mpr
      rcases World.mem_items.mp member with ⟨call, here, rfl⟩ | admits | other
      · rw [calls]
        rcases List.mem_append.mp here with early | late
        · exact .inl ⟨call, List.mem_append_left _ early, rfl⟩
        · exact .inl ⟨call, List.mem_append_right _ (.tail _ late), rfl⟩
      · rcases List.mem_append.mp admits with old | new
        · exact .inr (.inl old)
        · cases List.mem_singleton.mp new
          rw [calls]
          exact .inl ⟨⟨item, .reserved⟩, List.mem_append_right _ (.head _), rfl⟩
      · exact .inr (.inr other)
  | functor sent functors => exact runFunctor_carries carries attempts functors sent
  | timer watched built timers => exact fireTimer_carries carries timers watched built
  | monitor connection m made =>
      have core := monitor_core w.handler connection m.fd m.readable m.writable
      have pending := congrArg (·.pending) core
      have inflight := congrArg (·.inflight) core
      exact carries.within (.of_same (congrArg (·.queueName) core) pending inflight rfl rfl rfl rfl)
  | connectionFailed started => exact carries.within (connectionFailed_within w)
  | onConnected held off => exact carries.within (.of_same rfl rfl rfl rfl rfl rfl rfl)
  | confirmSelected sent held =>
      exact carries.within ((drain_within _ sent).trans (.of_same rfl rfl rfl rfl rfl rfl rfl))
  | writable sent _ held calm => exact carries.within (drain_within w sent)
  | confirm tag multiple accepted sent held =>
      exact carries.within (confirm_items (Prod.eta (w.confirm tag multiple accepted sent)).symm).1
  | @deliver channel tag body held later =>
      refine ⟨carries.named, fun fn member => ?_, carries.completes, carries.retries, carries.items⟩
      rcases List.mem_append.mp member with old | new
      · exact carries.ackFns fn old
      · rw [List.mem_singleton.mp new]
        exact arrives channel _ body (.head _)
  | @ackFn before after fn result fns =>
      have fits : P fn.delivery fn.body := carries.ackFns fn (fns ▸ List.mem_append_right _ (.head _))
      unfold World.callAckFn
      split
      · exact carries
      · refine ⟨carries.named, fun fn' member => ?_, fun d result' body member => ?_, carries.retries, fun item member => ?_⟩
        · rcases List.mem_append.mp member with early | here
          · exact carries.ackFns fn' (fns ▸ List.mem_append_left _ early)
          · rcases List.mem_cons.mp here with rfl | late
            · exact fits
            · exact carries.ackFns fn' (fns ▸ List.mem_append_right _ (.tail _ late))
        · rcases List.mem_append.mp member with old | new
          · exact carries.completes d result' body old
          · cases List.mem_singleton.mp new
            exact fits
        · apply carries.items item
          apply World.mem_items.mpr
          rcases World.mem_items.mp member with call | admits | other
          · exact .inl call
          · rcases List.mem_append.mp admits with old | new
            · exact .inr (.inl old)
            · cases List.mem_singleton.mp new
          · exact .inr (.inr other)
  | stop started alive =>
      have within : w.stop.Within w := by
        obtain ⟨-, -, -, -, items⟩ := disconnect_within w
        refine ⟨rfl, fun _ member => member, fun _ _ _ member => member, fun _ _ _ _ member => ?_, items⟩
        exact (List.mem_filter.mp member).1
      exact carries.within within

/-- What a section publishes was there, and what it leaves unconfirmed was so before or is
published on the channel of the handler. -/
structure Sends (w : World) (out : List Obs) (w' : World) : Prop where
  there : ∀ channel tag item, .published channel tag item ∈ out → item ∈ w.items
  window : ∀ entry ∈ w'.handler.inflight.entries, entry ∈ w.handler.inflight.entries ∨
    ∃ channel, w.handler.producerChannel = some channel ∧ .published channel entry.1 entry.2 ∈ out
  channel : w'.handler.inflight.entries ≠ [] →
    w'.handler.producerChannel = w.handler.producerChannel ∨
      w.handler.connection.isSome ∧ w.connected = false

theorem not_published {out : List Obs} (silent : events out = []) (channel tag : Nat) (item : Publication) :
    .published channel tag item ∉ out := by
  intro member
  have shown : .publish tag item ∈ events out := List.mem_flatMap.mpr ⟨_, member, .head _⟩
  rw [silent] at shown
  cases shown

theorem Sends.silent {out : List Obs} (silent : events out = [])
    (window : ∀ entry ∈ w'.handler.inflight.entries, entry ∈ w.handler.inflight.entries)
    (channel : w'.handler.producerChannel = w.handler.producerChannel) : Sends w out w' where
  there channel tag item member := absurd member (not_published silent channel tag item)
  window entry member := .inl (window entry member)
  channel _ := .inl channel

theorem schedulePublish_sends (w : World) (queue body : Bytes) (completion : Option Delivery) :
    Sends w (w.schedulePublish queue body completion).1 (w.schedulePublish queue body completion).2 := by
  obtain ⟨silent, -⟩ := schedulePublish_ledger w queue body completion
  have same : (w.schedulePublish queue body completion).2.handler = w.handler := by
    unfold World.schedulePublish
    dsimp only
    split <;> rfl
  exact .silent silent (fun _ member => same ▸ member) (congrArg (·.producerChannel) same)

theorem loadOutstanding_sends {before after : List PublishCall} {call : PublishCall}
    (calls : w.calls = before ++ call :: after) (free : call.phase ≠ .reserved) (item : Publication) :
    Sends w (w.loadOutstanding before after item).1 (w.loadOutstanding before after item).2 := by
  obtain ⟨silent, -⟩ := loadOutstanding_ledger calls free item
  have same : (w.loadOutstanding before after item).2.handler = w.handler := by
    unfold World.loadOutstanding
    dsimp only
    split <;> rfl
  exact .silent silent (fun _ member => same ▸ member) (congrArg (·.producerChannel) same)

theorem completeDelivery_sends (codec : JsonCodec) (w : World) (d : Delivery) (result : Disposition)
    (body : Bytes) :
    Sends w (w.completeDelivery codec d result body).1 (w.completeDelivery codec d result body).2 := by
  obtain ⟨silent, -⟩ := completeDelivery_ledger codec w d result body
  have same : (w.completeDelivery codec d result body).2.handler = w.handler := by
    unfold World.completeDelivery
    split
    · rfl
    split
    · rfl
    split <;> rfl
  exact .silent silent (fun _ member => same ▸ member) (congrArg (·.producerChannel) same)

theorem connect_sends (w : World) (watched : List Monitored) (built : Bool) :
    Sends w [] (w.connect watched built) := by
  obtain ⟨h, core, made⟩ := connect_eq w watched built
  have inflight : h.inflight = w.handler.inflight := congrArg (·.inflight) core
  have producer : h.producerChannel = w.handler.producerChannel := congrArg (·.producerChannel) core
  rw [made]
  cases built with
  | true => exact .silent rfl (fun _ member => inflight ▸ member) producer
  | false =>
      have ledger := connectionFailed_ledger { w with
        handler := h, nextConnection := w.nextConnection + 1, connected := false }
      have frame := connectionFailed_frame { w with
        handler := h, nextConnection := w.nextConnection + 1, connected := false }
      refine .silent rfl (fun entry member => ?_) ((congrArg (·.handler.producerChannel) frame).trans producer)
      have window : entry ∈ h.inflight.entries := (congrArg (·.window) ledger : _ = h.inflight.entries) ▸ member
      exact inflight ▸ window

theorem drainPending_sends (w : World) (sent : Nat → Bool) :
    Sends w (w.drainPending sent).1 (w.drainPending sent).2 := by
  obtain ⟨-, window, published⟩ := drainPending_items (Prod.eta (w.drainPending sent)).symm
  have frame := (drainPending_shows (Prod.eta (w.drainPending sent)).symm).1
  refine ⟨fun channel tag item member => ?_, window, fun _ => .inl (congrArg (·.handler.producerChannel) frame)⟩
  exact World.mem_items.mpr (.inr (.inr (.inl (published channel tag item member))))

theorem runFunctor_sends {f : Functor} {rest : List Functor} (functors : w.functors = f :: rest)
    (sent : Nat → Bool) :
    Sends w ({ w with functors := rest }.runFunctor codec sent f).1
      ({ w with functors := rest }.runFunctor codec sent f).2 := by
  unfold World.runFunctor
  cases f with
  | admits item =>
      dsimp only
      split
      · have sends := drainPending_sends { w with
          functors := rest
          handler := { w.handler with pending := w.handler.pending ++ [item] } } sent
        refine ⟨fun channel tag item' member => ?_, fun entry member => ?_, sends.channel⟩
        · rcases List.mem_cons.mp member with here | member
          · cases here
          apply World.mem_items.mpr
          rw [functors]
          rcases World.mem_items.mp (sends.there channel tag item' member) with call | admits | pending | other
          · exact .inl call
          · exact .inr (.inl (.tail _ admits))
          · rcases List.mem_append.mp pending with waiting | new
            · exact .inr (.inr (.inl waiting))
            · rw [List.mem_singleton.mp new]
              exact .inr (.inl (.head rest))
          · exact .inr (.inr (.inr other))
        · refine (sends.window entry member).imp id fun published => ?_
          obtain ⟨channel, held, shown⟩ := published
          exact ⟨channel, held, .tail _ shown⟩
      · exact .silent rfl (fun _ member => member) rfl
  | completes d result body =>
      dsimp only
      split
      · have silent := (completeDelivery_ledger codec { w with functors := rest } d result body).1
        obtain ⟨-, window, channel⟩ := completeDelivery_sends codec { w with functors := rest } d result body
        exact ⟨fun c t item member => absurd member (not_published silent c t item), window, channel⟩
      · exact .silent rfl (fun _ member => member) rfl
  | recovers =>
      dsimp only
      split
      · have ledger := scheduleReconnect_ledger { w with functors := rest, handler := w.handler.disconnect }
        have none : (World.scheduleReconnect { w with
            functors := rest, handler := w.handler.disconnect }).handler.inflight.entries = [] :=
          congrArg (·.window) ledger
        refine ⟨nofun, fun entry member => ?_, fun some => absurd none some⟩
        rw [none] at member
        cases member
      · exact .silent rfl (fun _ member => member) rfl

theorem fireTimer_sends (w : World) (before after : List Timer) (t : Timer) (watched : List Monitored)
    (built : Bool) :
    Sends w ({ w with timers := before ++ after }.fireTimer watched built t).1
      ({ w with timers := before ++ after }.fireTimer watched built t).2 := by
  cases t with
  | reconnects delay =>
      unfold World.fireTimer
      dsimp only
      split
      · obtain ⟨there, window, channel⟩ := connect_sends { w with
          timers := before ++ after
          handler := { w.handler with
            reconnectScheduled := false
            reconnectDelaySec := min 60 (w.handler.reconnectDelaySec * 2) } } watched built
        exact ⟨there, window, channel⟩
      · exact .silent rfl (fun _ member => member) rfl
  | retries d target body delay =>
      unfold World.fireTimer
      dsimp only
      split
      · obtain ⟨there, window, channel⟩ :=
          schedulePublish_sends { w with timers := before ++ after } target body (some d)
        exact ⟨there, window, channel⟩
      · exact .silent rfl (fun _ member => member) rfl

theorem Step.sends {out : List Obs} (step : Step codec w out w') : Sends w out w' := by
  cases step with
  | start watched built off =>
      obtain ⟨there, window, channel⟩ := connect_sends { w with started := true } watched built
      exact ⟨there, window, channel⟩
  | publish queue body => exact schedulePublish_sends w queue body none
  | load calls => exact loadOutstanding_sends calls (by simp) _
  | exchange calls same => exact .silent rfl (fun _ member => member) rfl
  | exchangeFails calls => exact loadOutstanding_sends calls (by simp) _
  | queueInLoop calls =>
      exact ⟨nofun, fun _ member => .inl member, fun _ => .inl rfl⟩
  | functor sent functors => exact runFunctor_sends functors sent
  | timer watched built timers => exact fireTimer_sends w _ _ _ watched built
  | monitor connection m made =>
      have core := monitor_core w.handler connection m.fd m.readable m.writable
      have inflight : _ = w.handler.inflight := congrArg (·.inflight) core
      exact .silent rfl (fun _ member => inflight ▸ member) (congrArg (·.producerChannel) core)
  | connectionFailed started =>
      have ledger := connectionFailed_ledger w
      refine .silent rfl (fun entry member => (congrArg (·.window) ledger : _ = w.handler.inflight.entries) ▸ member) ?_
      exact congrArg (·.handler.producerChannel) (connectionFailed_frame w)
  | onConnected held off => exact ⟨fun _ _ _ member => (nomatch List.mem_singleton.mp member),
      fun _ member => .inl member, fun _ => .inr ⟨held, off⟩⟩
  | confirmSelected sent held =>
      obtain ⟨there, window, channel⟩ :=
        drainPending_sends { w with handler := { w.handler with producerReady := true } } sent
      exact ⟨there, window, channel⟩
  | writable sent _ held calm => exact drainPending_sends w sent
  | confirm tag multiple accepted sent held =>
      obtain ⟨-, window, published⟩ := confirm_items (Prod.eta (w.confirm tag multiple accepted sent)).symm
      have frame := (confirm_shows (Prod.eta (w.confirm tag multiple accepted sent)).symm).1
      refine ⟨fun channel t item member => ?_, fun entry member => ?_,
        fun _ => .inl (congrArg (·.handler.producerChannel) frame)⟩
      · rcases List.mem_cons.mp member with here | member
        · cases here
        · exact World.mem_items.mpr (.inr (.inr (.inl (published channel t item member))))
      · refine (window entry member).imp id fun published => ?_
        obtain ⟨channel, held, shown⟩ := published
        exact ⟨channel, held, .tail _ shown⟩
  | deliver tag body held later => exact ⟨fun _ _ _ member => (nomatch List.mem_singleton.mp member),
      fun _ member => .inl member, fun _ => .inl rfl⟩
  | @ackFn before after fn result fns =>
      unfold World.callAckFn
      split
      · exact .silent rfl (fun _ member => member) rfl
      · exact .silent rfl (fun _ member => member) rfl
  | stop started alive => exact ⟨fun _ _ _ member => (nomatch List.mem_singleton.mp member), nofun, fun some => absurd rfl some⟩

/-- Every unconfirmed publication was sent on the producer channel. -/
def Windowed (w : World) (tr : List Obs) : Prop :=
  ∀ entry ∈ w.handler.inflight.entries, ∃ channel, w.handler.producerChannel = some channel ∧
    .published channel entry.1 entry.2 ∈ tr

theorem Windowed.step {out tr : List Obs} (windowed : Windowed w tr) (linked : Linked w.link tr)
    (step : Step codec w out w') : Windowed w' (tr ++ out) := by
  intro entry member
  have sends := step.sends
  obtain ⟨channel, held, shown⟩ : ∃ channel, w.handler.producerChannel = some channel ∧
      .published channel entry.1 entry.2 ∈ tr ++ out := by
    rcases sends.window entry member with old | ⟨channel, held, shown⟩
    · obtain ⟨channel, held, shown⟩ := windowed entry old
      exact ⟨channel, held, List.mem_append_left _ shown⟩
    · exact ⟨channel, held, List.mem_append_right _ shown⟩
  rcases sends.channel (List.ne_nil_of_mem member) with same | ⟨-, off⟩
  · exact ⟨channel, same.trans held, shown⟩
  · -- A generation opens its channels once.
    obtain ⟨c, opened⟩ := linked.producer held
    rcases (linked.opened opened).2.2 with early | ⟨-, -, on⟩
    · exact absurd early (Nat.lt_irrefl _)
    · exact absurd (off.symm.trans on) (by decide)

end carries

end AIService.MQ
