import AIService.MQ.Publishing

/-!
# Generations, connections and channels

A `Link` is what a handler knows of its connection, and `Link.Move` what a section of the loop
does to it (`Step.link`).  A generation has at most one connection that opens channels, so a
channel belongs to one generation (`Linked.once`): publications and answers go to the channels
of the current one, and no delivery tag comes twice.
-/

namespace AIService.MQ

structure Link where
  started : Bool := false
  alive : Bool := true
  generation : Nat := 0
  connection : Option Nat := none
  connected : Bool := false
  producer : Option Nat := none
  consumer : Option Nat := none
  recovering : Bool := false
  /-- Functors that disconnect, and armed reconnect timers. -/
  recovers : Nat := 0
  reconnects : Nat := 0
  nextChannel : Nat := 0
  lastTag : Nat := 0

namespace Link

variable (l : Link)

def fail : Link :=
  if l.alive ∧ ¬ l.recovering then { l with recovering := true, recovers := l.recovers + 1 } else l

def disconnect : Link :=
  { l with generation := l.generation + 1, connection := none, producer := none, consumer := none }

/-- `fresh` is `none` when the constructor of the connection throws. -/
def connect (fresh : Option Nat) : Link :=
  { l with recovering := false, connected := false, connection := fresh.or l.connection }

/-- What may be seen while the link stays. -/
def Shows : Obs → Prop
  | .published channel _ _ => l.producer = some channel
  | .acked channel _ => l.consumer = some channel
  | .rejected channel _ => l.consumer = some channel
  | .began _ => False
  | .opened .. => False
  | .delivered .. => False
  | _ => True

inductive Move : Link → List Obs → Link → Prop
  | quiet {l : Link} {out : List Obs} : (∀ o ∈ out, l.Shows o) → Move l out l
  | fail {l : Link} : l.started = true ∨ l.producer.isSome → Move l [] l.fail
  | deliver {l : Link} {channel : Nat} (tag : Nat) (body : Bytes) :
    l.consumer = some channel → l.lastTag < tag →
    Move l [.delivered channel ⟨l.generation, tag⟩ body] { l with lastTag := tag }
  | disconnect {l : Link} {n : Nat} (armed : Bool) : l.alive = true → l.recovers = n + 1 →
    Move l [.began (l.generation + 1)]
      { l.disconnect with recovers := n, reconnects := l.reconnects + armed.toNat }
  | start {l : Link} (fresh : Option Nat) : l.started = false →
    Move l [] { l.connect fresh with started := true }
  | reconnect {l : Link} {n : Nat} (fresh : Option Nat) : l.alive = true → l.reconnects = n + 1 →
    Move l [] { l.connect fresh with reconnects := n }
  | opens {l : Link} : l.connection.isSome → l.connected = false →
    Move l [.opened l.generation l.nextChannel (l.nextChannel + 1)]
      { l with
        producer := some l.nextChannel
        consumer := some (l.nextChannel + 1)
        connected := true
        nextChannel := l.nextChannel + 2
        lastTag := 0 }
  | stop {l : Link} : l.started = true → l.alive = true →
    Move l [.began (l.generation + 1)]
      { l.disconnect with alive := false, recovers := 0, reconnects := 0 }

end Link

/-- The generations that began. -/
def generationAt : List Obs → Nat
  | [] => 0
  | .began _ :: rest => generationAt rest + 1
  | _ :: rest => generationAt rest

def Obs.delivered? : Obs → Option Delivery
  | .delivered _ d _ => some d
  | _ => none

@[simp] theorem generationAt_append (tr tr' : List Obs) :
    generationAt (tr ++ tr') = generationAt tr + generationAt tr' := by
  induction tr with
  | nil => simp [generationAt]
  | cons o rest ih => cases o <;> simp [generationAt, ih, Nat.add_right_comm]

theorem Link.Shows.generationAt {l : Link} {out : List Obs} (shows_ : ∀ o ∈ out, l.Shows o) :
    generationAt out = 0 := by
  induction out with
  | nil => rfl
  | cons o rest ih =>
      have later := ih fun o' member => shows_ o' (.tail _ member)
      have first := shows_ o (.head _)
      cases o <;> first | exact later | cases first

/-! ## What holds of every link -/

structure Linked (l : Link) (tr : List Obs) : Prop where
  fresh : l.started = false → l.alive = true ∧ l.connection = none ∧ l.producer = none ∧
    l.recovers = 0 ∧ l.reconnects = 0
  few : l.recovers + l.reconnects ≤ l.recovering.toNat
  armed : l.reconnects ≠ 0 → l.connection = none
  dead : l.alive = false → l.started = true ∧ l.connection = none ∧ l.producer = none ∧ l.consumer = none
  generation : generationAt tr = l.generation
  opened {g p c : Nat} : .opened g p c ∈ tr → p < l.nextChannel ∧ c < l.nextChannel ∧
    (g < l.generation ∨ g = l.generation ∧ l.connection.isSome ∧ l.connected = true)
  /-- A channel belongs to one generation, and a generation has one pair of channels. -/
  once {g p c g' p' c' : Nat} : .opened g p c ∈ tr → .opened g' p' c' ∈ tr →
    g = g' ∨ p = p' ∨ c = c' → g = g' ∧ p = p' ∧ c = c'
  producer {p : Nat} : l.producer = some p → ∃ c, .opened l.generation p c ∈ tr
  consumer {c : Nat} : l.consumer = some c → ∃ p, .opened l.generation p c ∈ tr
  delivered {channel : Nat} {d : Delivery} {body : Bytes} : .delivered channel d body ∈ tr →
    (∃ p, .opened d.generation p channel ∈ tr) ∧ (d.generation = l.generation → d.tag ≤ l.lastTag)
  deliveries : (tr.filterMap Obs.delivered?).Nodup

namespace Linked

variable {l l' : Link} {tr out : List Obs}

theorem initial : Linked {} [] where
  fresh _ := ⟨rfl, rfl, rfl, rfl, rfl⟩
  few := Nat.le_refl 0
  armed none := absurd rfl none
  dead alive := nomatch alive
  generation := rfl
  opened member := nomatch member
  once member := nomatch member
  producer none := nomatch none
  consumer none := nomatch none
  delivered member := nomatch member
  deliveries := .nil

/-- Only `.opened` and `.delivered` matter of what is seen. -/
theorem more (linked : Linked l tr) (out : List Obs) (same : generationAt out = 0)
    (noOpened : ∀ g p c, .opened g p c ∉ out) (noDelivered : ∀ c d b, .delivered c d b ∉ out) :
    Linked l (tr ++ out) where
  fresh := linked.fresh
  few := linked.few
  armed := linked.armed
  dead := linked.dead
  generation := by rw [generationAt_append, same, linked.generation, Nat.add_zero]
  opened member := linked.opened ((List.mem_append.mp member).resolve_right (noOpened _ _ _))
  once first second := linked.once ((List.mem_append.mp first).resolve_right (noOpened _ _ _))
    ((List.mem_append.mp second).resolve_right (noOpened _ _ _))
  producer here := (linked.producer here).imp fun _ member => List.mem_append_left _ member
  consumer here := (linked.consumer here).imp fun _ member => List.mem_append_left _ member
  delivered member := by
    have old := (List.mem_append.mp member).resolve_right (noDelivered _ _ _)
    obtain ⟨opened, tag⟩ := linked.delivered old
    exact ⟨opened.imp fun _ member => List.mem_append_left _ member, tag⟩
  deliveries := by
    have none : out.filterMap Obs.delivered? = [] := by
      refine List.filterMap_eq_nil_iff.mpr fun o member => ?_
      cases o with
      | delivered c d b => exact absurd member (noDelivered c d b)
      | _ => rfl
    rw [List.filterMap_append, none, List.append_nil]
    exact linked.deliveries

theorem fail (linked : Linked l tr) (started : l.started = true ∨ l.producer.isSome) :
    Linked l.fail tr := by
  unfold Link.fail
  split
  · next free =>
      have few := linked.few
      rw [Bool.not_eq_true] at free
      rw [free.2] at few
      have idle : l.recovers = 0 ∧ l.reconnects = 0 := by
        rw [Bool.toNat_false] at few
        omega
      refine { linked with fresh := fun new => ?_, few := ?_, .. }
      · have held : l.producer = none := (linked.fresh new).2.2.1
        rw [held, Option.isSome_none] at started
        rcases started with started | held
        · exact absurd (started.symm.trans new) (by decide)
        · cases held
      · rw [idle.1, idle.2]
        exact Nat.le_refl 1
  · exact linked

theorem deliver (linked : Linked l tr) {channel tag : Nat} (body : Bytes)
    (held : l.consumer = some channel) (later : l.lastTag < tag) :
    Linked { l with lastTag := tag } (tr ++ [.delivered channel ⟨l.generation, tag⟩ body]) where
  fresh := linked.fresh
  few := linked.few
  armed := linked.armed
  dead := linked.dead
  generation := by rw [generationAt_append, linked.generation]; rfl
  opened member := linked.opened (by simpa using member)
  once first second := linked.once (by simpa using first) (by simpa using second)
  producer here := (linked.producer here).imp fun _ member => List.mem_append_left _ member
  consumer here := (linked.consumer here).imp fun _ member => List.mem_append_left _ member
  delivered member := by
    rcases List.mem_append.mp member with old | new
    · obtain ⟨opened, below⟩ := linked.delivered old
      refine ⟨opened.imp fun _ member => List.mem_append_left _ member, fun same => ?_⟩
      exact Nat.le_trans (below same) (Nat.le_of_lt later)
    · cases List.mem_singleton.mp new
      obtain ⟨p, opened⟩ := linked.consumer held
      exact ⟨⟨p, List.mem_append_left _ opened⟩, fun _ => Nat.le_refl _⟩
  deliveries := by
    rw [List.filterMap_append]
    refine List.nodup_append.mpr ⟨linked.deliveries, List.nodup_singleton _, ?_⟩
    intro d old d' new same
    rw [List.mem_singleton.mp new] at same
    obtain ⟨o, member, here⟩ := List.mem_filterMap.mp old
    cases o with
    | delivered c e b =>
        cases here
        have below := (linked.delivered member).2
        rw [same] at below
        exact absurd (below rfl) (Nat.not_le_of_lt later)
    | _ => cases here

theorem disconnect (linked : Linked l tr) (alive : Bool) (recovers reconnects : Nat)
    (started : l.started = true) (few : recovers + reconnects ≤ l.recovering.toNat) :
    Linked { l.disconnect with alive := alive, recovers := recovers, reconnects := reconnects }
      (tr ++ [.began (l.generation + 1)]) where
  fresh new := absurd (started.symm.trans new) (by decide)
  few := few
  armed _ := rfl
  dead _ := ⟨started, rfl, rfl, rfl⟩
  generation := by rw [generationAt_append, linked.generation]; rfl
  opened member := by
    obtain ⟨p, c, old⟩ := linked.opened (by simpa using member)
    refine ⟨p, c, .inl ?_⟩
    rcases old with less | ⟨same, -⟩
    · exact Nat.lt_succ_of_lt less
    · exact same ▸ Nat.lt_succ_self _
  once first second := linked.once (by simpa using first) (by simpa using second)
  producer none := nomatch none
  consumer none := nomatch none
  delivered member := by
    have old := (List.mem_append.mp member).resolve_right (by simp)
    obtain ⟨⟨p, opened⟩, -⟩ := linked.delivered old
    refine ⟨⟨p, List.mem_append_left _ opened⟩, fun same => ?_⟩
    -- The generation of a delivery began before this one.
    change _ = l.generation + 1 at same
    rcases (linked.opened opened).2.2 with less | ⟨here, -⟩ <;> omega
  deliveries := by
    rw [List.filterMap_append]
    exact (List.append_nil (tr.filterMap Obs.delivered?)).symm ▸ linked.deliveries

theorem connect (linked : Linked l tr) (fresh : Option Nat) (connection : l.connection = none)
    (alive : l.alive = true) (idle : l.recovers = 0) :
    Linked { l.connect fresh with started := true, reconnects := 0 } tr where
  fresh new := nomatch new
  few := by
    change l.recovers + 0 ≤ _
    rw [idle]
    exact Nat.zero_le _
  armed some := absurd rfl some
  dead off := absurd (alive.symm.trans off) (by decide)
  generation := linked.generation
  opened member := by
    obtain ⟨p, c, old⟩ := linked.opened member
    refine ⟨p, c, .inl ?_⟩
    rcases old with less | ⟨-, held, -⟩
    · exact less
    · rw [connection] at held
      cases held
  once := linked.once
  producer := linked.producer
  consumer := linked.consumer
  delivered := linked.delivered
  deliveries := linked.deliveries

theorem opens (linked : Linked l tr) (held : l.connection.isSome) (new : l.connected = false) :
    Linked { l with
        producer := some l.nextChannel
        consumer := some (l.nextChannel + 1)
        connected := true
        nextChannel := l.nextChannel + 2
        lastTag := 0 } (tr ++ [.opened l.generation l.nextChannel (l.nextChannel + 1)]) := by
  have earlier {g p c : Nat} (member : .opened g p c ∈ tr) : g < l.generation := by
    rcases (linked.opened member).2.2 with less | ⟨-, -, connected⟩
    · exact less
    · exact absurd (connected.symm.trans new) (by decide)
  have apart {g p c : Nat} (member : .opened g p c ∈ tr) :
      g ≠ l.generation ∧ p ≠ l.nextChannel ∧ c ≠ l.nextChannel + 1 := by
    have generation := earlier member
    obtain ⟨producer, consumer, -⟩ := linked.opened member
    omega
  constructor
  case fresh =>
    intro off
    rw [(linked.fresh off).2.1] at held
    cases held
  case few => exact linked.few
  case armed => exact linked.armed
  case dead =>
    intro off
    rw [(linked.dead off).2.1] at held
    cases held
  case generation => rw [generationAt_append, linked.generation]; rfl
  case opened =>
    intro g p c member
    rcases List.mem_append.mp member with old | here
    · obtain ⟨producer, consumer, -⟩ := linked.opened old
      exact ⟨Nat.lt_add_right 2 producer, Nat.lt_add_right 2 consumer, .inl (earlier old)⟩
    · cases List.mem_singleton.mp here
      exact ⟨by simp, by simp, .inr ⟨rfl, held, rfl⟩⟩
  case once =>
    intro g p c g' p' c' first second shared
    rcases List.mem_append.mp first with old | here <;> rcases List.mem_append.mp second with old' | here'
    · exact linked.once old old' shared
    · cases List.mem_singleton.mp here'
      obtain ⟨generation, producer, consumer⟩ := apart old
      simp [generation, producer, consumer] at shared
    · cases List.mem_singleton.mp here
      obtain ⟨generation, producer, consumer⟩ := apart old'
      simp [generation.symm, producer.symm, consumer.symm] at shared
    · cases List.mem_singleton.mp here
      cases List.mem_singleton.mp here'
      exact ⟨rfl, rfl, rfl⟩
  case producer =>
    intro p here
    cases here
    exact ⟨_, List.mem_append_right _ (.head _)⟩
  case consumer =>
    intro c here
    cases here
    exact ⟨_, List.mem_append_right _ (.head _)⟩
  case delivered =>
    intro channel d body member
    have old := (List.mem_append.mp member).resolve_right (by simp)
    obtain ⟨⟨p, opened⟩, -⟩ := linked.delivered old
    refine ⟨⟨p, List.mem_append_left _ opened⟩, fun same => ?_⟩
    exact absurd same (Nat.ne_of_lt (earlier opened))
  case deliveries =>
    rw [List.filterMap_append]
    exact (List.append_nil (tr.filterMap Obs.delivered?)).symm ▸ linked.deliveries

theorem step (linked : Linked l tr) (move : Link.Move l out l') : Linked l' (tr ++ out) := by
  cases move with
  | quiet shown =>
      exact linked.more out (Link.Shows.generationAt shown) (fun _ _ _ member => shown _ member)
        (fun _ _ _ member => shown _ member)
  | fail started =>
      rw [List.append_nil]
      exact linked.fail started
  | deliver tag body held later => exact linked.deliver body held later
  | @disconnect n armed alive some =>
      have few := linked.few
      have started : l.started = true := by
        by_contra off
        have none := (linked.fresh (by simpa using off)).2.2.2.1
        omega
      have held := linked.disconnect l.alive n (l.reconnects + armed.toNat) started (by
        have one : armed.toNat ≤ 1 := Bool.toNat_le armed
        omega)
      exact held
  | start fresh off =>
      rw [List.append_nil]
      obtain ⟨alive, connection, -, recovers, reconnects⟩ := linked.fresh off
      have held := linked.connect fresh connection alive recovers
      rw [← reconnects] at held
      exact held
  | @reconnect n fresh alive some =>
      rw [List.append_nil]
      have few := linked.few
      have one : l.recovering.toNat ≤ 1 := Bool.toNat_le _
      have started : l.started = true := by
        by_contra off
        have none := (linked.fresh (by simpa using off)).2.2.2.2
        omega
      have held := linked.connect fresh (linked.armed (by omega)) alive (by omega)
      have last : 0 = n := by omega
      rw [← started, last] at held
      exact held
  | opens held new => exact linked.opens held new
  | stop started alive =>
      have held := linked.disconnect false 0 0 started (Nat.zero_le _)
      exact held

end Linked

/-- What is published or answered goes to a channel that the generation opened. -/
def Obs.Routed (pre : List Obs) : Obs → Prop
  | .published channel _ _ => ∃ c, .opened (generationAt pre) channel c ∈ pre
  | .acked channel _ => ∃ p, .opened (generationAt pre) p channel ∈ pre
  | .rejected channel _ => ∃ p, .opened (generationAt pre) p channel ∈ pre
  | _ => True

theorem routed {l : Link} {tr : List Obs} (run : Run Link.Move {} tr l) {pre post : List Obs} {o : Obs}
    (split : tr = pre ++ o :: post) : o.Routed pre := by
  refine run.observed (E := fun pre o => o.Routed pre) ?_ split
  intro tr l out l' earlier move pre o post cut
  have linked := earlier.invariant (I := Linked) .initial fun linked move => linked.step move
  cases move with
  | quiet shown =>
      have none : generationAt pre = 0 :=
        Link.Shows.generationAt fun o' member => shown o' (cut ▸ List.mem_append_left _ member)
      have generation : generationAt (tr ++ pre) = l.generation := by
        rw [generationAt_append, none, linked.generation, Nat.add_zero]
      have here := shown o (by simp [cut])
      cases o with
      | published channel tag item =>
          obtain ⟨c, opened⟩ := linked.producer here
          exact ⟨c, generation ▸ List.mem_append_left _ opened⟩
      | acked channel tag =>
          obtain ⟨p, opened⟩ := linked.consumer here
          exact ⟨p, generation ▸ List.mem_append_left _ opened⟩
      | rejected channel tag =>
          obtain ⟨p, opened⟩ := linked.consumer here
          exact ⟨p, generation ▸ List.mem_append_left _ opened⟩
      | _ => trivial
  | fail started => cases pre <;> cases cut
  | start fresh off => cases pre <;> cases cut
  | reconnect fresh alive some => cases pre <;> cases cut
  | _ =>
      obtain ⟨rfl, same⟩ : pre = [] ∧ _ = o := by
        cases pre with
        | nil => exact ⟨rfl, (List.cons.inj cut).1⟩
        | cons o' rest => cases rest <;> cases (List.cons.inj cut).2
      subst same
      trivial

/-! ## The sections of the loop -/

def Timer.isReconnects : Timer → Bool
  | .reconnects _ => true
  | .retries .. => false

def World.link (w : World) : Link where
  started := w.started
  alive := w.handler.alive
  generation := w.handler.generation
  connection := w.handler.connection
  connected := w.connected
  producer := w.handler.producerChannel
  consumer := w.handler.consumerChannel
  recovering := w.handler.recovering
  recovers := if w.handler.alive then w.functors.count .recovers else 0
  reconnects := if w.handler.alive then w.timers.countP Timer.isReconnects else 0
  nextChannel := w.nextChannel
  lastTag := w.lastTag

/-- `alive_` is false from the moment the handler shuts down. -/
def World.Flagged (w : World) : Prop := w.handler.shuttingDown = !w.handler.alive

theorem connectionFailed_link {w : World} (flagged : w.Flagged) :
    w.connectionFailed.link = w.link.fail := by
  unfold World.Flagged at flagged
  unfold World.connectionFailed Link.fail
  cases alive : w.handler.alive <;> cases calm : w.handler.recovering <;>
    simp [World.link, flagged, alive, calm]

theorem connect_link {w : World} (flagged : w.Flagged) (watched : List Monitored) (built : Bool) :
    (w.connect watched built).link =
      if built then w.link.connect (some w.nextConnection) else (w.link.connect none).fail := by
  obtain ⟨h, core, made⟩ := connect_eq w watched built
  have alive : h.alive = w.handler.alive := congrArg (·.alive) core
  have shutting : h.shuttingDown = w.handler.shuttingDown := congrArg (·.shuttingDown) core
  have generation : h.generation = w.handler.generation := congrArg (·.generation) core
  have connection : h.connection = w.handler.connection := congrArg (·.connection) core
  have producer : h.producerChannel = w.handler.producerChannel := congrArg (·.producerChannel) core
  have consumer : h.consumerChannel = w.handler.consumerChannel := congrArg (·.consumerChannel) core
  have recovering : h.recovering = false := congrArg (·.recovering) core
  rw [made]
  cases built with
  | true =>
      simp only [if_true, World.link, Link.connect, alive, generation, producer, consumer, recovering,
        Option.some_or]
  | false =>
      rw [if_neg Bool.false_ne_true, if_neg Bool.false_ne_true, connectionFailed_link]
      · refine congrArg Link.fail ?_
        simp only [World.link, Link.connect, alive, generation, connection, producer, consumer,
          recovering, Option.none_or]
      · unfold World.Flagged at flagged ⊢
        rw [alive, shutting]
        exact flagged

theorem Drains.link {channel : Nat} {items : List Publication} {w w' : World} {out : List Obs}
    (drains : Drains channel items w out w') (flagged : w.Flagged) :
    w'.link = w.link ∨ w'.link = w.link.fail := by
  induction drains with
  | empty | stops => exact .inl rfl
  | fails => exact .inr (connectionFailed_link flagged)
  | publish _ _ ih => exact ih flagged

/-- A drain is a quiet move, perhaps with a failure after it. -/
theorem drainPending_link {w w' : World} {sent : Nat → Bool} {out : List Obs} (flagged : w.Flagged)
    (ran : w.drainPending sent = (out, w')) : Run Link.Move w.link out w'.link := by
  obtain ⟨-, shown⟩ := drainPending_shows ran
  have quiet : Link.Move w.link out w.link := .quiet fun o member => by
    obtain ⟨channel, tag, item, here, rfl⟩ := shown o member
    exact here
  unfold World.drainPending at ran
  split at ran
  · cases ran
    exact .single quiet
  · split at ran
    · cases ran
      exact .single quiet
    · next channel here =>
        rcases (drains_of_drainLoop ran).link flagged with same | failed
        · rw [same]
          exact .single quiet
        · rw [failed, ← List.append_nil out]
          have held : w.link.producer.isSome := by
            change w.handler.producerChannel.isSome
            rw [here]
            rfl
          exact (Run.single quiet).tail (.fail (.inr held))

theorem World.Flagged.of_frame {w w' : World} (flagged : w.Flagged) (same : w'.frame = w.frame) :
    w'.Flagged := by
  have alive : w'.handler.alive = w.handler.alive := congrArg (·.handler.alive) same
  have shutting : w'.handler.shuttingDown = w.handler.shuttingDown :=
    congrArg (·.handler.shuttingDown) same
  unfold World.Flagged at flagged ⊢
  rw [alive, shutting]
  exact flagged

theorem settle_shows {h : Handler} {d : Delivery} {ok : Bool} {o : Obs} (shown : o ∈ h.settle d ok) :
    ∃ channel, h.consumerChannel = some channel ∧ h.alive = true ∧ d.generation = h.generation ∧
      o = if ok then .acked channel d.tag else .rejected channel d.tag := by
  unfold Handler.settle at shown
  split at shown
  · next current =>
      split at shown
      · next channel here =>
          refine ⟨channel, here, current.1, current.2, ?_⟩
          cases ok <;> simpa using shown
      · cases shown
  · cases shown

theorem settle_quiet (w : World) (d : Delivery) (ok : Bool) :
    ∀ o ∈ w.handler.settle d ok, w.link.Shows o := by
  intro o shown
  obtain ⟨channel, here, -, -, rfl⟩ := settle_shows shown
  cases ok <;> exact here

theorem refuse_quiet (w : World) (item : Publication) : ∀ o ∈ w.refuse item, w.link.Shows o := by
  intro o shown
  unfold World.refuse at shown
  rcases List.mem_cons.mp shown with rfl | settled
  · trivial
  · split at settled
    · exact settle_quiet w _ false o settled
    · cases settled

theorem completed_quiet (w : World) (item : Publication) : ∀ o ∈ w.completed item, w.link.Shows o := by
  intro o shown
  unfold World.completed at shown
  split at shown
  · exact settle_quiet w _ true o shown
  · cases shown

theorem schedulePublish_link (w : World) (queue body : Bytes) (completion : Option Delivery) :
    Link.Move w.link (w.schedulePublish queue body completion).1
      (w.schedulePublish queue body completion).2.link := by
  unfold World.schedulePublish
  dsimp only
  split
  · exact .quiet fun _ member => nomatch member
  · exact .quiet (refuse_quiet _ _)

theorem loadOutstanding_link (w : World) (before after : List PublishCall) (item : Publication) :
    Link.Move w.link (w.loadOutstanding before after item).1
      (w.loadOutstanding before after item).2.link := by
  unfold World.loadOutstanding
  dsimp only
  split
  · exact .quiet (refuse_quiet w item)
  · exact .quiet fun _ member => nomatch member

theorem completeDelivery_link (codec : JsonCodec) (w : World) (d : Delivery) (result : Disposition)
    (body : Bytes) :
    Link.Move w.link (w.completeDelivery codec d result body).1
      (w.completeDelivery codec d result body).2.link := by
  unfold World.completeDelivery
  split
  · exact .quiet fun _ member => nomatch member
  · split
    · exact .quiet fun _ member => nomatch member
    · next channel here =>
        split
        · refine .quiet fun o member => ?_
          rw [List.mem_singleton.mp member]
          exact here
        · have same : ({ w with timers := w.timers ++ [.retries d
              (replacement codec w.handler.queueName result body).1
              (replacement codec w.handler.queueName result body).2.1
              (replacement codec w.handler.queueName result body).2.2] } : World).link = w.link := by
            simp [World.link, Timer.isReconnects]
          dsimp only
          rw [same]
          exact .quiet fun _ member => nomatch member

theorem scheduleReconnect_link (w : World) (alive : w.handler.alive = true) :
    ∃ armed : Bool, w.scheduleReconnect.link =
      { w.link with reconnects := w.link.reconnects + armed.toNat } := by
  unfold World.scheduleReconnect
  split
  · exact ⟨false, rfl⟩
  · exact ⟨true, by simp [World.link, alive, Timer.isReconnects]⟩

theorem runFunctor_link {codec : JsonCodec} {w : World} {f : Functor} {rest : List Functor}
    (flagged : w.Flagged) (functors : w.functors = f :: rest) (sent : Nat → Bool) :
    Run Link.Move w.link ({ w with functors := rest }.runFunctor codec sent f).1
        ({ w with functors := rest }.runFunctor codec sent f).2.link ∧
      ({ w with functors := rest }.runFunctor codec sent f).2.Flagged := by
  have nothing : Link.Move w.link [] w.link := .quiet fun _ member => nomatch member
  cases f with
  | admits item =>
      have same : ({ w with functors := rest } : World).link = w.link := by
        simp [World.link, functors]
      unfold World.runFunctor
      dsimp only
      split
      · generalize drained : World.drainPending { w with
          functors := rest
          handler := { w.handler with pending := w.handler.pending ++ [item] } } sent = result
        obtain ⟨out, w'⟩ := result
        have first : Link.Move w.link [.admitted item] w.link :=
          .quiet fun o member => List.mem_singleton.mp member ▸ trivial
        have later := drainPending_link (w := { w with
          functors := rest
          handler := { w.handler with pending := w.handler.pending ++ [item] } }) flagged drained
        have start : ({ w with
            functors := rest
            handler := { w.handler with pending := w.handler.pending ++ [item] } } : World).link =
          w.link := same
        rw [start] at later
        exact ⟨(Run.single first).trans later, flagged.of_frame (w := { w with
          functors := rest
          handler := { w.handler with pending := w.handler.pending ++ [item] } })
          (drainPending_shows drained).1⟩
      · rw [same]
        exact ⟨.single nothing, flagged⟩
  | completes d result body =>
      have same : ({ w with functors := rest } : World).link = w.link := by
        simp [World.link, functors]
      unfold World.runFunctor
      dsimp only
      split
      · have move := completeDelivery_link codec { w with functors := rest } d result body
        rw [same] at move
        refine ⟨.single move, ?_⟩
        unfold World.completeDelivery
        split
        · exact flagged
        · split
          · exact flagged
          · split <;> exact flagged
      · rw [same]
        exact ⟨.single nothing, flagged⟩
  | recovers =>
      unfold World.runFunctor
      dsimp only
      split
      · next alive =>
          obtain ⟨armed, made⟩ := scheduleReconnect_link
            { w with functors := rest, handler := w.handler.disconnect } alive
          refine ⟨?_, ?_⟩
          · have some : w.link.recovers = rest.count .recovers + 1 := by
              simp [World.link, functors, alive]
            have move := Link.Move.disconnect armed (show w.link.alive = true from alive) some
            rw [made]
            refine .single ?_
            have reached : ({ w with
                functors := rest, handler := w.handler.disconnect } : World).link =
                { w.link.disconnect with recovers := rest.count .recovers } := by
              simp [World.link, Link.disconnect, Handler.disconnect, alive]
            rw [reached]
            exact move
          · unfold World.scheduleReconnect
            split <;> exact flagged
      · next dead =>
          have same : ({ w with functors := rest } : World).link = w.link := by
            simp [World.link, dead]
          rw [same]
          exact ⟨.single nothing, flagged⟩

theorem connectionFailed_flagged {w : World} (flagged : w.Flagged) : w.connectionFailed.Flagged :=
  flagged.of_frame (connectionFailed_frame w)

theorem connect_flagged {w : World} (flagged : w.Flagged) (watched : List Monitored) (built : Bool) :
    (w.connect watched built).Flagged := by
  obtain ⟨h, core, made⟩ := connect_eq w watched built
  have alive : h.alive = w.handler.alive := congrArg (·.alive) core
  have shutting : h.shuttingDown = w.handler.shuttingDown := congrArg (·.shuttingDown) core
  have kept : h.shuttingDown = !h.alive := by rw [alive, shutting]; exact flagged
  rw [made]
  cases built with
  | true => exact kept
  | false => exact connectionFailed_flagged (w := { w with
      handler := h, nextConnection := w.nextConnection + 1, connected := false }) kept

/-- An attempt to connect that may fail. -/
theorem connect_run {w : World} {l : Link} (flagged : w.Flagged) (watched : List Monitored) (built : Bool)
    (started : w.started = true)
    (move : ∀ fresh, Link.Move l [] (w.link.connect fresh)) :
    Run Link.Move l [] (w.connect watched built).link := by
  rw [connect_link flagged]
  cases built with
  | true => exact .single (move _)
  | false => exact (Run.single (move none)).tail (.fail (.inl started))

theorem fireTimer_link {w : World} {before after : List Timer} {t : Timer} {tr : List Obs}
    (flagged : w.Flagged) (linked : Linked w.link tr) (timers : w.timers = before ++ t :: after)
    (watched : List Monitored) (built : Bool) :
    Run Link.Move w.link ({ w with timers := before ++ after }.fireTimer watched built t).1
        ({ w with timers := before ++ after }.fireTimer watched built t).2.link ∧
      ({ w with timers := before ++ after }.fireTimer watched built t).2.Flagged := by
  have nothing : Link.Move w.link [] w.link := .quiet fun _ member => nomatch member
  cases t with
  | reconnects delay =>
      unfold World.fireTimer
      dsimp only
      split
      · next alive =>
          have some : w.link.reconnects = (before ++ after).countP Timer.isReconnects + 1 := by
            simp only [World.link, timers, alive, if_true, List.countP_append, Nat.add_assoc,
              Nat.add_left_cancel_iff]
            exact List.countP_cons_of_pos rfl
          have started : w.started = true := by
            by_contra off
            have idle := (linked.fresh (by simpa [World.link] using off)).2.2.2.2
            omega
          have flagged' : World.Flagged { w with
              timers := before ++ after
              handler := { w.handler with
                reconnectScheduled := false
                reconnectDelaySec := min 60 (w.handler.reconnectDelaySec * 2) } } := flagged
          refine ⟨connect_run flagged' watched built started fun fresh => ?_,
            connect_flagged flagged' watched built⟩
          have move := Link.Move.reconnect fresh (show w.link.alive = true from alive) some
          have reached : { w.link.connect fresh with
              reconnects := (before ++ after).countP Timer.isReconnects } =
              ({ w with timers := before ++ after } : World).link.connect fresh := by
            simp [World.link, Link.connect, alive]
          rw [reached] at move
          exact move
      · next dead =>
          have same : ({ w with timers := before ++ after } : World).link = w.link := by
            simp [World.link, dead]
          rw [same]
          exact ⟨.single nothing, flagged⟩
  | retries d target body delay =>
      have same : ({ w with timers := before ++ after } : World).link = w.link := by
        simp [World.link, timers, Timer.isReconnects]
      unfold World.fireTimer
      dsimp only
      split
      · have move := schedulePublish_link { w with timers := before ++ after } target body (some d)
        rw [same] at move
        refine ⟨.single move, ?_⟩
        unfold World.schedulePublish
        dsimp only
        split <;> exact flagged
      · rw [same]
        exact ⟨.single nothing, flagged⟩

theorem retireAll_link (w : World) (entries : List (Nat × Publication)) :
    (w.retireAll entries).2.link = w.link := by
  induction entries generalizing w with
  | nil => rfl
  | cons entry rest ih => exact ih (w.retire entry).2

/-- A section of the loop moves the link. -/
theorem Step.link {codec : JsonCodec} {w w' : World} {out tr : List Obs} (step : Step codec w out w')
    (flagged : w.Flagged) (linked : Linked w.link tr) :
    Run Link.Move w.link out w'.link ∧ w'.Flagged := by
  cases step with
  | start watched built off =>
      have flagged' : World.Flagged { w with started := true } := flagged
      refine ⟨connect_run flagged' watched built rfl fun fresh => ?_, connect_flagged flagged' watched built⟩
      exact .start fresh off
  | publish queue body =>
      refine ⟨.single (schedulePublish_link w queue body none), ?_⟩
      unfold World.schedulePublish
      dsimp only
      split <;> exact flagged
  | load calls =>
      refine ⟨.single (loadOutstanding_link w _ _ _), ?_⟩
      unfold World.loadOutstanding
      dsimp only
      split <;> exact flagged
  | exchange calls same => exact ⟨.single (.quiet fun _ member => nomatch member), flagged⟩
  | exchangeFails calls =>
      refine ⟨.single (loadOutstanding_link w _ _ _), ?_⟩
      unfold World.loadOutstanding
      dsimp only
      split <;> exact flagged
  | @queueInLoop before after item calls =>
      have same : ({ w with
          functors := w.functors ++ [.admits item], calls := before ++ after } : World).link = w.link := by
        simp [World.link]
      rw [same]
      exact ⟨.single (.quiet fun o member => List.mem_singleton.mp member ▸ trivial), flagged⟩
  | functor sent functors => exact runFunctor_link flagged functors sent
  | timer watched built timers => exact fireTimer_link flagged linked timers watched built
  | monitor connection m made =>
      have core := monitor_core w.handler connection m.fd m.readable m.writable
      have same : ({ w with handler := w.handler.monitor connection m.fd m.readable m.writable } :
          World).link = w.link := by
        have held := congrArg (fun h : Handler => ({ w with handler := h } : World).link) core
        exact held
      have alive := congrArg (·.alive) core
      have shutting := congrArg (·.shuttingDown) core
      refine ⟨same ▸ .single (.quiet fun _ member => nomatch member), ?_⟩
      exact shutting.trans (flagged.trans (congrArg not alive).symm)
  | connectionFailed started =>
      rw [connectionFailed_link flagged]
      exact ⟨.single (.fail (.inl started)), connectionFailed_flagged flagged⟩
  | onConnected held off => exact ⟨.single (.opens held off), flagged⟩
  | confirmSelected sent held =>
      exact ⟨drainPending_link (w := { w with handler := { w.handler with producerReady := true } }) flagged rfl,
        flagged.of_frame (drainPending_shows (w := { w with
          handler := { w.handler with producerReady := true } }) rfl).1⟩
  | writable sent _ held calm =>
      exact ⟨drainPending_link flagged rfl, flagged.of_frame (drainPending_shows rfl).1⟩
  | confirm tag multiple accepted sent held =>
      refine ⟨?_, flagged.of_frame (confirm_shows (Prod.eta _).symm).1⟩
      have answer : Link.Move w.link [.confirmed tag multiple accepted] w.link :=
        .quiet fun o member => List.mem_singleton.mp member ▸ trivial
      refine (Run.single answer).trans ?_
      rcases confirm_eq (Prod.eta (w.confirm tag multiple accepted sent)).symm with
        ⟨silent, same | failed⟩ | ⟨-, -, -, later, shown, drained⟩
      · rw [silent, same]
        exact .refl
      · rw [silent, failed, connectionFailed_link flagged]
        exact .single (.fail (.inr held))
      · obtain ⟨frame, retired⟩ := retireAll_shows w
          (w.handler.inflight.entries.filter fun entry => World.covers tag multiple entry.1)
        have quiet : Link.Move w.link
            (w.retireAll (w.handler.inflight.entries.filter fun entry =>
              World.covers tag multiple entry.1)).1 w.link := .quiet fun o member => by
          rw [retired, List.mem_flatMap] at member
          obtain ⟨entry, -, here⟩ := member
          rcases List.mem_cons.mp here with rfl | completed
          · trivial
          · exact completed_quiet w entry.2 o completed
        have drain := drainPending_link (flagged.of_frame frame) drained
        rw [retireAll_link] at drain
        rw [shown]
        exact (Run.single quiet).trans drain
  | deliver tag body held later => exact ⟨.single (.deliver tag body held later), flagged⟩
  | @ackFn before after fn result fns =>
      unfold World.callAckFn
      split
      · exact ⟨.single (.quiet fun _ member => nomatch member), flagged⟩
      · have same : ({ w with
            ackFns := before ++ { fn with once := true } :: after
            functors := w.functors ++ [.completes fn.delivery result fn.body] } : World).link = w.link := by
          simp [World.link]
        dsimp only
        rw [same]
        exact ⟨.single (.quiet fun o member => List.mem_singleton.mp member ▸ trivial), flagged⟩
  | stop started alive => exact ⟨.single (.stop started alive), rfl⟩

/-- What a run of the handler does to its link. -/
theorem link_run {codec : JsonCodec} {queueName : Bytes} {tr : List Obs} {w : World}
    (run : Run (Step codec) (.initial queueName) tr w) :
    Run Link.Move {} tr w.link ∧ Linked w.link tr ∧ w.Flagged := by
  refine run.invariant (I := fun w tr => Run Link.Move {} tr w.link ∧ Linked w.link tr ∧ w.Flagged)
    ⟨.refl, .initial, rfl⟩ ?_
  intro w tr out w' held step
  obtain ⟨earlier, linked, flagged⟩ := held
  obtain ⟨moves, flagged'⟩ := step.link flagged linked
  have whole := earlier.trans moves
  refine ⟨whole, ?_, flagged'⟩
  exact whole.invariant (I := Linked) .initial fun linked move => linked.step move

end AIService.MQ
