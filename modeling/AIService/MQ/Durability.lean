import AIService.Chat.Codec
import AIService.Chat.Restore
import AIService.MQ.Reasons

/-!
# Accepted exchanges until they are stored

A `System` is the handler with its broker and the table `chat_message`.  The broker numbers the
messages as it takes them, and a message is ready, unacknowledged on a channel, or gone.  An
exchange that `publish` accepted is with the handler, in a message that is not gone, or in the
table: when a message goes, its rows are stored or a later message has its body.
-/

namespace AIService.MQ

open Chat (ChatExchange ChatRow persistBody executeMysql)

structure Message where
  queue : Bytes
  body : Bytes

inductive Place
  | ready
  | unacked (channel tag : Nat)
  | gone
deriving DecidableEq

/-- A publication on a channel, under a tag. -/
abbrev Sent := Nat × Nat × Publication

structure System where
  world : World
  /-- The messages of both queues, as they were taken. -/
  log : List Message
  /-- Where they are; a number without a message is ready. -/
  place : Nat → Place := fun _ => .ready
  published : List Sent := []
  /-- The publications the broker took, with the numbers of their messages. -/
  enqueued : List (Sent × Nat) := []
  /-- The publications it gave back. -/
  returned : List Sent := []
  /-- The messages that the deliveries are of. -/
  came : List (Delivery × Nat) := []
  table : List ChatRow

/-- A publication that is seen. -/
def sent? : Obs → Option Sent
  | .published channel tag item => some (channel, tag, item)
  | _ => none

/-- What an answer of the consumer does. -/
def Place.answered (p : Place) : Obs → Place
  | .acked channel tag => if p = .unacked channel tag then .gone else p
  | .rejected channel tag => if p = .unacked channel tag then .ready else p
  | _ => p

/-- A connection is dropped, with the channel on it. -/
def Place.dropped (channel : Nat) : Place → Place
  | .unacked channel' tag => if channel' = channel then .ready else .unacked channel' tag
  | p => p

namespace System

variable (s : System)

/-- The broker sees a section of the handler. -/
def observe (out : List Obs) (world : World) : System :=
  { s with
    world := world
    published := s.published ++ out.filterMap sent?
    place := fun i => out.foldl Place.answered (s.place i) }

def initial (queueName : Bytes) (backlog : List Message) (table : List ChatRow) : System where
  world := .initial queueName
  log := backlog
  table := table

/-- What a section shows apart from the broker's calls and the ends of `executeMysql`. -/
def Free : Obs → Prop
  | .confirmed .. | .delivered .. | .reported .. => False
  | _ => True

inductive Step (codec : JsonCodec) : System → List Obs → System → Prop
  | handler {s : System} {out : List Obs} {w : World} : MQ.Step codec s.world out w →
    (∀ o ∈ out, Free o) → Step codec s out (s.observe out w)
  /-- A positive confirm of a publication that was not returned means that it was enqueued; a
  return comes before it. -/
  | confirmed {s : System} {tag : Nat} {multiple accepted : Bool} {out : List Obs} {w : World} :
    MQ.Step codec s.world (.confirmed tag multiple accepted :: out) w →
    (accepted = true → ∀ channel t item, s.world.handler.producerChannel = some channel →
      (channel, t, item) ∈ s.published → World.covers tag multiple t = true →
        (∃ i, ((channel, t, item), i) ∈ s.enqueued) ∨ (channel, t, item) ∈ s.returned) →
    (∀ o ∈ out, Free o) →
    Step codec s (.confirmed tag multiple accepted :: out)
      (s.observe (.confirmed tag multiple accepted :: out) w)
  | delivered {s : System} {channel : Nat} {d : Delivery} {i : Nat} {m : Message} {w : World} :
    MQ.Step codec s.world [.delivered channel d m.body] w → s.log[i]? = some m →
    m.queue = s.world.handler.queueName → s.place i = .ready →
    Step codec s [.delivered channel d m.body] { s with
      world := w
      place := Function.update s.place i (.unacked channel d.tag)
      came := s.came ++ [(d, i)] }
  /-- `executeMysql` ends.  A statement that failed may have been committed. -/
  | executed {s : System} {before after : List AckFn} {fn : AckFn} {table : List ChatRow}
      (persisted : ChatExchange → Bool) : s.world.ackFns = before ++ fn :: after → fn.once = false →
    (table = persistBody codec s.table fn.body ∨
      executeMysql codec persisted fn.body ≠ .ack ∧ table = s.table) →
    Step codec s (s.world.callAckFn before after fn (executeMysql codec persisted fn.body)).1 { s with
      world := (s.world.callAckFn before after fn (executeMysql codec persisted fn.body)).2
      table := table }
  | enqueued {s : System} {channel t : Nat} {item : Publication} : (channel, t, item) ∈ s.published →
    (∀ i, ((channel, t, item), i) ∉ s.enqueued) →
    Step codec s [] { s with
      log := s.log ++ [⟨item.queue, item.body⟩]
      enqueued := s.enqueued ++ [((channel, t, item), s.log.length)] }
  | returned {s : System} {channel t : Nat} {item : Publication} : (channel, t, item) ∈ s.published →
    s.world.handler.producerChannel = some channel → s.world.started = true →
    Step codec s [] { s with
      world := s.world.connectionFailed
      returned := s.returned ++ [(channel, t, item)] }
  /-- The broker requeues what is unacknowledged on a dropped connection. -/
  | dropped {s : System} (channel : Nat) :
    Step codec s [] { s with place := fun i => (s.place i).dropped channel }

end System

/-! ## Bodies and rows -/

/-- A body after some retries. -/
abbrev Alike (codec : JsonCodec) : Bytes → Bytes → Prop := Relation.ReflTransGen (Reattempted codec)

section bodies

variable {codec : JsonCodec} {body body' : Bytes} {x : ChatExchange}

/-- The consumer does not look at `_attempt`. -/
theorem parse_reattempted (lawful : codec.Lawful) (again : Reattempted codec body body') :
    ChatExchange.parse codec body' = ChatExchange.parse codec body := by
  obtain ⟨job, n, parsed, written⟩ := again
  obtain ⟨job', set, dumped⟩ := Option.bind_eq_some_iff.mp written
  have parsed' := lawful.parse_dump dumped
  have same (key : String) (other : bytes "_attempt" ≠ bytes key) :
      job'.field? (bytes key) = job.field? (bytes key) := by
    cases job with
    | obj fields =>
        cases set
        change SortedMap.lookup _ (SortedMap.place _ _ _) = _
        rw [SortedMap.lookup_place, if_neg other]
        rfl
    | null =>
        cases set
        exact if_neg other
    | _ => cases set
  have read : ChatExchange.fromJson job' = ChatExchange.fromJson job := by
    unfold ChatExchange.fromJson
    rw [same "v" (by decide), same "user_id" (by decide), same "ts" (by decide),
      same "message_id" (by decide), same "username" (by decide), same "session_id" (by decide),
      same "question" (by decide), same "answer" (by decide)]
  unfold ChatExchange.parse
  rw [parsed, parsed']
  simp only [Option.bind_eq_bind, Option.bind_some, read]

theorem parse_alike (lawful : codec.Lawful) (alike : Alike codec body body') :
    ChatExchange.parse codec body' = ChatExchange.parse codec body := by
  induction alike with
  | refl => rfl
  | tail _ again ih => exact (parse_reattempted lawful again).trans ih

/-- Each row of the exchange has its message id in the table. -/
def Stored (x : ChatExchange) (table : List ChatRow) : Prop :=
  ∀ row ∈ x.rows, ∃ r ∈ table, r.messageId = row.messageId

theorem mem_insertRow {table : List ChatRow} {row r : ChatRow} :
    (r ∈ ChatExchange.insertRow table row → r ∈ table ∨ r = row) ∧
      (r ∈ table → r ∈ ChatExchange.insertRow table row) ∧
        ∃ r' ∈ ChatExchange.insertRow table row, r'.messageId = row.messageId := by
  unfold ChatExchange.insertRow
  split
  · next known =>
      obtain ⟨r', member, same⟩ := List.any_eq_true.mp known
      exact ⟨.inl, id, r', member, of_decide_eq_true same⟩
  · refine ⟨fun member => ?_, List.mem_append_left _, row, by simp, rfl⟩
    rcases List.mem_append.mp member with old | new
    · exact .inl old
    · exact .inr (List.mem_singleton.mp new)

theorem persist_spec (x : ChatExchange) (table : List ChatRow) :
    Stored x (x.persist table) ∧ (∀ r ∈ table, r ∈ x.persist table) ∧
      ∀ r ∈ x.persist table, r ∈ table ∨ r ∈ x.rows := by
  unfold ChatExchange.persist
  refine ⟨fun row member => ?_, fun r member => ?_, fun r member => ?_⟩
  · rcases List.mem_cons.mp member with rfl | member
    · obtain ⟨r, here, same⟩ := (@mem_insertRow table x.userRow x.userRow).2.2
      exact ⟨r, mem_insertRow.2.1 here, same⟩
    · rw [List.mem_singleton.mp member]
      exact (@mem_insertRow _ x.answerRow x.answerRow).2.2
  · exact mem_insertRow.2.1 (mem_insertRow.2.1 member)
  · rcases mem_insertRow.1 member with early | rfl
    · rcases mem_insertRow.1 early with old | rfl
      · exact .inl old
      · exact .inr (.head _)
    · exact .inr (.tail _ (.head _))

theorem persistBody_spec (codec : JsonCodec) (table : List ChatRow) (body : Bytes) :
    (∀ x, ChatExchange.parse codec body = some x → Stored x (persistBody codec table body)) ∧
      (∀ r ∈ table, r ∈ persistBody codec table body) ∧
        ∀ r ∈ persistBody codec table body, r ∈ table ∨
          ∃ x, ChatExchange.parse codec body = some x ∧ r ∈ x.rows := by
  unfold persistBody
  cases read : ChatExchange.parse codec body with
  | none => exact ⟨nofun, fun r member => member, fun r member => .inl member⟩
  | some x =>
      obtain ⟨stored, kept, own⟩ := persist_spec x table
      refine ⟨fun y same => ?_, kept, fun r member => (own r member).imp id fun own => ⟨x, rfl, own⟩⟩
      cases same
      exact stored

theorem Stored.mono {table table' : List ChatRow} (stored : Stored x table)
    (kept : ∀ r ∈ table, r ∈ table') : Stored x table' := by
  intro row member
  obtain ⟨r, here, same⟩ := stored row member
  exact ⟨r, kept r here, same⟩

end bodies

/-! ## Sections and channels -/

section sections

variable {codec : JsonCodec} {w w' : World} {l l' : Link} {tr out : List Obs}

/-- A handler that recovers while it holds a channel goes on to, until the channel is gone. -/
theorem Linked.recovering (linked : Linked l tr) (move : Link.Move l out l') {g c c' : Nat}
    (opened : .opened g c c' ∈ tr) (recovers : l.producer = some c → l.recovering = true)
    (held : l'.producer = some c) : l'.recovering = true := by
  have gone (connection : l.connection = none) : l.producer ≠ some c := by
    intro holds
    obtain ⟨_, current⟩ := linked.producer holds
    rcases (linked.opened current).2.2 with early | ⟨-, some, -⟩
    · exact absurd early (Nat.lt_irrefl _)
    · rw [connection] at some
      cases some
  cases move with
  | quiet => exact recovers held
  | fail =>
      unfold Link.fail at held ⊢
      split at held
      · next free =>
          rw [if_pos free]
      · next kept =>
          rw [if_neg kept]
          exact recovers held
  | deliver => exact recovers held
  | disconnect => cases held
  | start fresh off => exact absurd held (gone (linked.fresh off).2.1)
  | reconnect fresh alive some => exact absurd held (gone (linked.armed (by omega)))
  | opens =>
      cases held
      exact absurd (linked.opened opened).1 (Nat.lt_irrefl _)
  | stop => cases held

theorem Linked.recovering_run (linked : Linked l tr) (run : Run Link.Move l out l') {g c c' : Nat}
    (opened : .opened g c c' ∈ tr) (recovers : l.producer = some c → l.recovering = true)
    (held : l'.producer = some c) : l'.recovering = true := by
  have both : Linked l' (tr ++ out) ∧ (l'.producer = some c → l'.recovering = true) := by
    clear held
    induction run with
    | refl => exact ⟨(List.append_nil tr).symm ▸ linked, recovers⟩
    | tail earlier move ih =>
        obtain ⟨linked', recovers'⟩ := ih
        rw [← List.append_assoc]
        exact ⟨linked'.step move, linked'.recovering move (List.mem_append_left _ opened) recovers'⟩
  exact both.2 held

/-- A publication goes to a channel that was opened. -/
theorem published_opened {queueName : Bytes} (run : Run (Step codec) (.initial queueName) tr w)
    {channel tag : Nat} {item : Publication} (published : .published channel tag item ∈ tr) :
    ∃ g c, .opened g channel c ∈ tr := by
  obtain ⟨pre, post, rfl⟩ := List.append_of_mem published
  obtain ⟨c, opened⟩ := routed (link_run run).1 rfl
  exact ⟨_, c, List.mem_append_left _ opened⟩

theorem mem_retirements {t : Nat} {item : Publication} :
    (t, item) ∈ retirements out ↔ .retired t item ∈ out := by
  unfold retirements
  rw [List.mem_filterMap]
  constructor
  · rintro ⟨o, member, shown⟩
    cases o <;> cases shown
    exact member
  · exact fun member => ⟨_, member, rfl⟩

theorem mem_sent {channel t : Nat} {item : Publication} :
    (channel, t, item) ∈ out.filterMap sent? ↔ .published channel t item ∈ out := by
  rw [List.mem_filterMap]
  constructor
  · rintro ⟨o, member, shown⟩
    cases o <;> cases shown
    exact member
  · exact fun member => ⟨_, member, rfl⟩

/-- What a section does to a message: it stays, or is answered. -/
theorem answered_spec (out : List Obs) (p : Place) :
    (∀ c t, out.foldl Place.answered p = .unacked c t → p = .unacked c t) ∧
      (out.foldl Place.answered p = .gone → p = .gone ∨ ∃ c t, p = .unacked c t ∧ .acked c t ∈ out) := by
  induction out generalizing p with
  | nil => exact ⟨fun _ _ same => same, .inl⟩
  | cons o rest ih =>
      obtain ⟨stays, goes⟩ := ih (p.answered o)
      have one : (∀ c t, p.answered o = .unacked c t → p = .unacked c t) ∧
          (p.answered o = .gone → p = .gone ∨ ∃ c t, p = .unacked c t ∧ o = .acked c t) := by
        unfold Place.answered
        split
        · next c t =>
            split
            · next same => exact ⟨nofun, fun _ => .inr ⟨c, t, same, rfl⟩⟩
            · exact ⟨fun _ _ same => same, .inl⟩
        · split
          · exact ⟨nofun, nofun⟩
          · exact ⟨fun _ _ same => same, .inl⟩
        · exact ⟨fun _ _ same => same, .inl⟩
      refine ⟨fun c t same => one.1 c t (stays c t same), fun gone => ?_⟩
      rcases goes gone with now | ⟨c, t, held, acked⟩
      · exact (one.2 now).imp id fun ⟨c, t, held, same⟩ => ⟨c, t, held, same ▸ .head _⟩
      · exact .inr ⟨c, t, one.1 c t held, .tail _ acked⟩

end sections

/-! ## The invariant -/

/-- The body of a delivery's message, up to retries. -/
def Fit (codec : JsonCodec) (s : System) (d : Delivery) (body : Bytes) : Prop :=
  ∃ i m, (d, i) ∈ s.came ∧ s.log[i]? = some m ∧ Alike codec m.body body

theorem Fit.tail {codec : JsonCodec} {s : System} {d : Delivery} {body body' : Bytes}
    (fit : Fit codec s d body) (again : Reattempted codec body body') : Fit codec s d body' := by
  obtain ⟨i, m, came, here, alike⟩ := fit
  exact ⟨i, m, came, here, alike.tail again⟩

/-- What was taken stays where it was. -/
theorem Fit.mono {codec : JsonCodec} {s s' : System} (came : ∀ e ∈ s.came, e ∈ s'.came)
    (log : ∀ (i : Nat) (m : Message), s.log[i]? = some m → s'.log[i]? = some m) {d : Delivery} {body : Bytes}
    (fit : Fit codec s d body) : Fit codec s' d body := by
  obtain ⟨i, m, here, there, alike⟩ := fit
  exact ⟨i, m, came _ here, log i m there, alike⟩

structure System.Inv (codec : JsonCodec) (queueName : Bytes) (s : System) (tr : List Obs) : Prop where
  run : Run (MQ.Step codec) (.initial queueName) tr s.world
  carries : s.world.Carries (Fit codec s) queueName
  published {channel t : Nat} {item : Publication} : (channel, t, item) ∈ s.published ↔
    .published channel t item ∈ tr
  sent {channel t : Nat} {item : Publication} : (channel, t, item) ∈ s.published →
    item.Carries (Fit codec s) queueName
  windowed : Windowed s.world tr
  /-- A replacement was taken after the message it replaces. -/
  enqueued {channel t i : Nat} {item : Publication} : ((channel, t, item), i) ∈ s.enqueued →
    s.log[i]? = some ⟨item.queue, item.body⟩ ∧ ∀ d, item.completion = some d →
      Target queueName item.queue ∧
        ∃ j m, j < i ∧ (d, j) ∈ s.came ∧ s.log[j]? = some m ∧ Alike codec m.body item.body
  returned {channel t : Nat} {item : Publication} : (channel, t, item) ∈ s.returned →
    .published channel t item ∈ tr ∧
      (s.world.handler.producerChannel = some channel → s.world.handler.recovering = true)
  retired {t : Nat} {item : Publication} : .retired t item ∈ tr →
    ∃ channel i, ((channel, t, item), i) ∈ s.enqueued
  came : s.came.map Prod.fst = deliveries tr
  told {d : Delivery} {result : Disposition} : .reported d result ∈ tr → ∃ i, (d, i) ∈ s.came
  arrived {d : Delivery} {i : Nat} : (d, i) ∈ s.came → i < s.log.length
  unacked {i channel tag : Nat} : s.place i = .unacked channel tag →
    ∃ d body, (d, i) ∈ s.came ∧ d.tag = tag ∧ .delivered channel d body ∈ tr
  reported {d : Delivery} {i : Nat} {m : Message} {x : ChatExchange} : .reported d .ack ∈ tr →
    (d, i) ∈ s.came → s.log[i]? = some m → ChatExchange.parse codec m.body = some x →
      Stored x s.table
  gone {i : Nat} : s.place i = .gone → ∃ m, s.log[i]? = some m ∧
    ((∀ x, ChatExchange.parse codec m.body = some x → Stored x s.table) ∨
      ∃ j m', i < j ∧ s.log[j]? = some m' ∧ Target queueName m'.queue ∧ Alike codec m.body m'.body)

namespace System.Inv

variable {codec : JsonCodec} {queueName : Bytes} {s s' : System} {tr out : List Obs} {w : World}

theorem initial (queueName : Bytes) (backlog : List Message) (table : List ChatRow) :
    Inv codec queueName (.initial queueName backlog table) [] where
  run := .refl
  carries := ⟨rfl, nofun, nofun, nofun, nofun⟩
  published := ⟨nofun, nofun⟩
  sent := nofun
  windowed := nofun
  enqueued := nofun
  returned := nofun
  retired := nofun
  came := rfl
  told := nofun
  arrived := nofun
  unacked := nofun
  reported := nofun
  gone := nofun

theorem settled (inv : Inv codec queueName s tr) : Settled s.world tr := MQ.settled inv.run

/-- A delivery is of one message. -/
theorem came_unique (inv : Inv codec queueName s tr) {d : Delivery} {i j : Nat}
    (first : (d, i) ∈ s.came) (second : (d, j) ∈ s.came) : i = j := by
  have nodup : (s.came.map Prod.fst).Nodup := by
    rw [inv.came]
    exact inv.settled.accounted.linked.deliveries
  exact congrArg Prod.snd (List.inj_on_of_nodup_map nodup first second rfl)

/-- A publication that was given back keeps the handler from its channel. -/
theorem still_returned (inv : Inv codec queueName s tr) (step : MQ.Step codec s.world out w)
    {channel t : Nat} {item : Publication} (member : (channel, t, item) ∈ s.returned) :
    .published channel t item ∈ tr ++ out ∧
      (w.handler.producerChannel = some channel → w.handler.recovering = true) := by
  obtain ⟨published, recovers⟩ := inv.returned member
  obtain ⟨g, c, opened⟩ := published_opened inv.run published
  have linked := inv.settled.accounted.linked
  have moves := (step.link inv.settled.accounted.flagged linked).1
  exact ⟨List.mem_append_left _ published, linked.recovering_run moves opened recovers⟩

/-- A message that is answered has its rows in the table, or a replacement. -/
theorem acked_gone (inv : Inv codec queueName s tr) (step : MQ.Step codec s.world out w)
    (undelivered : ∀ channel d body, .delivered channel d body ∉ out)
    (unreported : ∀ d result, .reported d result ∉ out)
    (retired : ∀ t item, .retired t item ∈ out → ∃ channel i, ((channel, t, item), i) ∈ s.enqueued)
    {i channel tag : Nat} (held : s.place i = .unacked channel tag) (acked : .acked channel tag ∈ out) :
    ∃ m, s.log[i]? = some m ∧
      ((∀ x, ChatExchange.parse codec m.body = some x → Stored x s.table) ∨
        ∃ j m', i < j ∧ s.log[j]? = some m' ∧ Target queueName m'.queue ∧ Alike codec m.body m'.body) := by
  obtain ⟨d, body, came, own, delivered⟩ := inv.unacked held
  obtain ⟨pre, post, split⟩ := List.append_of_mem acked
  obtain ⟨d', own', ⟨⟨p', opened'⟩, body', delivered'⟩, why⟩ :=
    step.justified inv.settled inv.windowed split
  have linked := inv.settled.accounted.linked
  have inside {o : Obs} (member : o ∈ tr ++ pre) : o ∈ tr ∨ o ∈ out := by
    rcases List.mem_append.mp member with old | new
    · exact .inl old
    · exact .inr (split ▸ List.mem_append_left _ new)
  -- The answer is to this delivery: the channel has one generation, the generation one such tag.
  obtain rfl : d = d' := by
    have early : .delivered channel d' body' ∈ tr :=
      (inside delivered').resolve_right (undelivered channel d' body')
    obtain ⟨p, opened⟩ := (linked.delivered delivered).1
    obtain ⟨p'', opened''⟩ := (linked.delivered early).1
    have generation := (linked.once opened opened'' (.inr (.inr rfl))).1
    obtain ⟨g, t⟩ := d
    obtain ⟨g', t'⟩ := d'
    rw [show g = g' from generation, show t = t' from own.trans own'.symm]
  have here := List.getElem?_eq_getElem (inv.arrived came)
  refine ⟨_, here, ?_⟩
  rcases why with reported | ⟨_, _, _, ⟨t, item⟩, before, after, -, -, whole, -, -, gone, completion⟩
  · left
    intro x read
    exact inv.reported ((inside reported).resolve_right (unreported d .ack)) came here read
  · right
    obtain ⟨c, k, taken⟩ : ∃ c k, ((c, t, item), k) ∈ s.enqueued := by
      have gone' : .retired t item ∈ tr ++ pre := by
        rw [whole]
        exact List.mem_append_right _ (.tail _ gone)
      rcases inside gone' with old | new
      · exact inv.retired old
      · exact retired t item new
    obtain ⟨there, replaces⟩ := inv.enqueued taken
    obtain ⟨target, j, m, before, came', here', alike⟩ := replaces d completion
    obtain rfl := inv.came_unique came came'
    rw [here] at here'
    cases here'
    exact ⟨k, _, before, there, target, alike⟩

/-- A section that neither delivers nor reports. -/
theorem observe (inv : Inv codec queueName s tr) (step : MQ.Step codec s.world out w)
    (undelivered : ∀ channel d body, .delivered channel d body ∉ out)
    (unreported : ∀ d result, .reported d result ∉ out)
    (retired : ∀ t item, .retired t item ∈ out → ∃ channel i, ((channel, t, item), i) ∈ s.enqueued) :
    Inv codec queueName (s.observe out w) (tr ++ out) := by
  have linked := inv.settled.accounted.linked
  have none : deliveries out = [] := by
    apply List.filterMap_eq_nil_iff.mpr
    intro o member
    cases o with
    | delivered c d b => exact absurd member (undelivered c d b)
    | _ => rfl
  exact {
    run := inv.run.tail step
    carries := step.carries inv.carries Fit.tail fun c d b member => absurd member (undelivered c d b)
    published := by
      intro channel t item
      change _ ∈ s.published ++ out.filterMap sent? ↔ _
      rw [List.mem_append, List.mem_append, inv.published, mem_sent]
    sent := by
      intro channel t item member
      rcases List.mem_append.mp member with old | new
      · exact inv.sent old
      · exact inv.carries.items item (step.sends.there channel t item (mem_sent.mp new))
    windowed := inv.windowed.step linked step
    enqueued := inv.enqueued
    returned := inv.still_returned step
    retired := by
      intro t item member
      rcases List.mem_append.mp member with old | new
      · exact inv.retired old
      · exact retired t item new
    came := by
      change s.came.map Prod.fst = (tr ++ out).filterMap Obs.delivered?
      rw [List.filterMap_append, show out.filterMap Obs.delivered? = [] from none, List.append_nil]
      exact inv.came
    told := by
      intro d result member
      rcases List.mem_append.mp member with old | new
      · exact inv.told old
      · exact absurd new (unreported d result)
    arrived := inv.arrived
    unacked := by
      intro i channel tag held
      obtain ⟨d, body, came, own, delivered⟩ := inv.unacked ((answered_spec out (s.place i)).1 _ _ held)
      exact ⟨d, body, came, own, List.mem_append_left _ delivered⟩
    reported := by
      intro d i m x member
      rcases List.mem_append.mp member with old | new
      · exact inv.reported old
      · exact absurd new (unreported d .ack)
    gone := by
      intro i here
      rcases (answered_spec out (s.place i)).2 here with before | ⟨channel, tag, held, acked⟩
      · exact inv.gone before
      · exact inv.acked_gone step undelivered unreported retired held acked }

theorem confirms (inv : Inv codec queueName s tr) {tag : Nat} {multiple accepted : Bool}
    (step : MQ.Step codec s.world (.confirmed tag multiple accepted :: out) w)
    (truthful : accepted = true → ∀ channel t item, s.world.handler.producerChannel = some channel →
      (channel, t, item) ∈ s.published → World.covers tag multiple t = true →
        (∃ i, ((channel, t, item), i) ∈ s.enqueued) ∨ (channel, t, item) ∈ s.returned)
    (free : ∀ o ∈ out, Free o) :
    Inv codec queueName (s.observe (.confirmed tag multiple accepted :: out) w)
      (tr ++ .confirmed tag multiple accepted :: out) := by
  have accounted := inv.settled.accounted
  refine inv.observe step (fun c d b member => ?_) (fun d result member => ?_) fun t item member => ?_
  · rcases List.mem_cons.mp member with same | member
    · cases same
    · exact free _ member
  · rcases List.mem_cons.mp member with same | member
    · cases same
    · exact free _ member
  · obtain ⟨tag', multiple', answer, calm⟩ := accounted.answered step (mem_retirements.mpr member)
    have same : Obs.confirmed tag' multiple' true = .confirmed tag multiple accepted := by
      rcases List.mem_cons.mp answer with same | later
      · exact same
      · exact (free _ later).elim
    cases same
    have covered := mem_retirements.mpr member
    rw [accounted.retires step answer calm] at covered
    obtain ⟨unconfirmed, covers⟩ := List.mem_filter.mp covered
    obtain ⟨channel, held, published⟩ := inv.windowed _ unconfirmed
    rcases truthful rfl channel t item held (inv.published.mpr published) covers with ⟨i, taken⟩ | returned
    · exact ⟨channel, i, taken⟩
    · have recovers := (inv.returned returned).2 held
      rw [calm] at recovers
      cases recovers

theorem delivers (inv : Inv codec queueName s tr) {channel i : Nat} {d : Delivery} {m : Message}
    (step : MQ.Step codec s.world [.delivered channel d m.body] w) (here : s.log[i]? = some m) :
    Inv codec queueName { s with
      world := w
      place := Function.update s.place i (.unacked channel d.tag)
      came := s.came ++ [(d, i)] } (tr ++ [.delivered channel d m.body]) := by
  have linked := inv.settled.accounted.linked
  have mono {d' : Delivery} {body : Bytes} (fit : Fit codec s d' body) : Fit codec { s with
      world := w
      place := Function.update s.place i (.unacked channel d.tag)
      came := s.came ++ [(d, i)] } d' body := by
    refine fit.mono ?_ ?_
    · exact fun _ member => List.mem_append_left _ member
    · exact fun _ _ there => there
  have new (j : Nat) : (d, j) ∉ s.came := by
    intro member
    have nodup := (MQ.settled (inv.run.tail step)).accounted.linked.deliveries
    rw [List.filterMap_append] at nodup
    have before : d ∈ tr.filterMap Obs.delivered? := by
      have listed := List.mem_map_of_mem (f := Prod.fst) member
      rw [inv.came] at listed
      exact listed
    exact (List.nodup_append.mp nodup).2.2 d before d (.head _) rfl
  exact {
    run := inv.run.tail step
    carries := by
      refine step.carries (inv.carries.imp fun d' body => mono) Fit.tail fun c d' b member => ?_
      cases List.mem_singleton.mp member
      exact ⟨i, m, List.mem_append_right _ (.head _), here, .refl⟩
    published := by
      intro channel' t item
      rw [inv.published, List.mem_append]
      exact ⟨.inl, fun member => member.resolve_right fun shown => nomatch List.mem_singleton.mp shown⟩
    sent := by
      intro channel' t item member d' completion
      exact (inv.sent member d' completion).imp mono id
    windowed := inv.windowed.step linked step
    enqueued := by
      intro channel' t k item member
      obtain ⟨there, replaces⟩ := inv.enqueued member
      refine ⟨there, fun d' completion => ?_⟩
      obtain ⟨target, j, m', before, came, here', alike⟩ := replaces d' completion
      exact ⟨target, j, m', before, List.mem_append_left _ came, here', alike⟩
    returned := inv.still_returned step
    retired := by
      intro t item member
      rcases List.mem_append.mp member with old | shown
      · exact inv.retired old
      · cases List.mem_singleton.mp shown
    came := by
      change (s.came ++ [(d, i)]).map Prod.fst = (tr ++ [Obs.delivered channel d m.body]).filterMap Obs.delivered?
      rw [List.map_append, List.filterMap_append, inv.came]
      rfl
    told := by
      intro d' result member
      rcases List.mem_append.mp member with old | shown
      · obtain ⟨j, came⟩ := inv.told old
        exact ⟨j, List.mem_append_left _ came⟩
      · cases List.mem_singleton.mp shown
    arrived := by
      intro d' j member
      rcases List.mem_append.mp member with old | fresh
      · exact inv.arrived old
      · cases List.mem_singleton.mp fresh
        exact (List.getElem?_eq_some_iff.mp here).1
    unacked := by
      intro j channel' tag held
      change Function.update s.place i (.unacked channel d.tag) j = _ at held
      by_cases same : j = i
      · subst same
        rw [Function.update_self] at held
        cases held
        exact ⟨d, m.body, List.mem_append_right _ (.head _), rfl, List.mem_append_right _ (.head _)⟩
      · rw [Function.update_of_ne same] at held
        obtain ⟨d', body, came, own, delivered⟩ := inv.unacked held
        exact ⟨d', body, List.mem_append_left _ came, own, List.mem_append_left _ delivered⟩
    reported := by
      intro d' j m' x member came there read
      have old : .reported d' .ack ∈ tr :=
        (List.mem_append.mp member).resolve_right fun shown => nomatch List.mem_singleton.mp shown
      rcases List.mem_append.mp came with came | fresh
      · exact inv.reported old came there read
      · cases List.mem_singleton.mp fresh
        obtain ⟨j, came⟩ := inv.told old
        exact absurd came (new j)
    gone := by
      intro j held
      change Function.update s.place i (.unacked channel d.tag) j = _ at held
      by_cases same : j = i
      · subst same
        rw [Function.update_self] at held
        cases held
      · rw [Function.update_of_ne same] at held
        exact inv.gone held }

theorem executes (inv : Inv codec queueName s tr) (lawful : codec.Lawful) {before after : List AckFn}
    {fn : AckFn} {table : List ChatRow} {persisted : ChatExchange → Bool}
    (fns : s.world.ackFns = before ++ fn :: after) (once : fn.once = false)
    (stored : table = persistBody codec s.table fn.body ∨
      executeMysql codec persisted fn.body ≠ .ack ∧ table = s.table) :
    Inv codec queueName { s with
      world := (s.world.callAckFn before after fn (executeMysql codec persisted fn.body)).2
      table := table }
      (tr ++ (s.world.callAckFn before after fn (executeMysql codec persisted fn.body)).1) := by
  generalize ended : executeMysql codec persisted fn.body = result at stored ⊢
  have step : MQ.Step codec s.world _ _ := .ackFn result fns
  have shown : (s.world.callAckFn before after fn result).1 = [.reported fn.delivery result] := by
    rw [World.callAckFn, once]
    rfl
  rw [shown] at step ⊢
  have linked := inv.settled.accounted.linked
  obtain ⟨i, m, came, here, alike⟩ : Fit codec s fn.delivery fn.body :=
    inv.carries.ackFns fn (fns ▸ List.mem_append_right _ (.head _))
  have kept : ∀ r ∈ s.table, r ∈ table := by
    rcases stored with rfl | ⟨-, rfl⟩
    · exact (persistBody_spec codec s.table fn.body).2.1
    · exact fun _ member => member
  exact {
    run := inv.run.tail step
    carries := step.carries inv.carries Fit.tail fun c d b member => nomatch List.mem_singleton.mp member
    published := by
      intro channel t item
      rw [inv.published, List.mem_append]
      exact ⟨.inl, fun member => member.resolve_right fun shown => nomatch List.mem_singleton.mp shown⟩
    sent := inv.sent
    windowed := inv.windowed.step linked step
    enqueued := inv.enqueued
    returned := inv.still_returned step
    retired := by
      intro t item member
      rcases List.mem_append.mp member with old | shown
      · exact inv.retired old
      · cases List.mem_singleton.mp shown
    came := by
      change s.came.map Prod.fst = (tr ++ [Obs.reported fn.delivery result]).filterMap Obs.delivered?
      rw [List.filterMap_append, inv.came]
      exact (List.append_nil _).symm
    told := by
      intro d result' member
      rcases List.mem_append.mp member with old | new
      · exact inv.told old
      · cases List.mem_singleton.mp new
        exact ⟨i, came⟩
    arrived := inv.arrived
    unacked := by
      intro j channel tag held
      obtain ⟨d, body, came, own, delivered⟩ := inv.unacked held
      exact ⟨d, body, came, own, List.mem_append_left _ delivered⟩
    reported := by
      intro d j m' x member came' there read
      rcases List.mem_append.mp member with old | new
      · exact (inv.reported old came' there read).mono kept
      · cases List.mem_singleton.mp new
        obtain rfl := inv.came_unique came came'
        rw [here] at there
        cases there
        rcases stored with rfl | ⟨failed, -⟩
        · exact (persistBody_spec codec s.table fn.body).1 x ((parse_alike lawful alike).trans read)
        · exact absurd rfl failed
    gone := by
      intro j held
      obtain ⟨m', there, rows | replaced⟩ := inv.gone held
      · exact ⟨m', there, .inl fun x read => (rows x read).mono kept⟩
      · exact ⟨m', there, .inr replaced⟩ }

theorem takes (inv : Inv codec queueName s tr) {channel t : Nat} {item : Publication}
    (published : (channel, t, item) ∈ s.published) :
    Inv codec queueName { s with
      log := s.log ++ [⟨item.queue, item.body⟩]
      enqueued := s.enqueued ++ [((channel, t, item), s.log.length)] } tr := by
  have stays (i : Nat) (m : Message) (here : s.log[i]? = some m) :
      (s.log ++ [⟨item.queue, item.body⟩])[i]? = some m :=
    (List.getElem?_append_left (List.getElem?_eq_some_iff.mp here).1).trans here
  have old {i : Nat} {m : Message} (taken : i < s.log.length)
      (here : (s.log ++ [⟨item.queue, item.body⟩])[i]? = some m) : s.log[i]? = some m :=
    (List.getElem?_append_left taken).symm.trans here
  have mono {d : Delivery} {body : Bytes} (fit : Fit codec s d body) : Fit codec { s with
      log := s.log ++ [⟨item.queue, item.body⟩]
      enqueued := s.enqueued ++ [((channel, t, item), s.log.length)] } d body := by
    refine fit.mono ?_ ?_
    · exact fun _ member => member
    · exact stays
  exact {
    run := inv.run
    carries := inv.carries.imp fun d body => mono
    published := inv.published
    sent := by
      intro channel' t' item' member d completion
      exact (inv.sent member d completion).imp mono id
    windowed := inv.windowed
    enqueued := by
      intro channel' t' i item' member
      rcases List.mem_append.mp member with before | new
      · obtain ⟨there, replaces⟩ := inv.enqueued before
        refine ⟨stays i _ there, fun d completion => ?_⟩
        obtain ⟨target, j, m, earlier, came, here, alike⟩ := replaces d completion
        exact ⟨target, j, m, earlier, came, stays j m here, alike⟩
      · cases List.mem_singleton.mp new
        refine ⟨List.getElem?_concat_length, fun d completion => ?_⟩
        obtain ⟨⟨j, m, came, here, alike⟩, target⟩ := inv.sent published d completion
        exact ⟨target, j, m, inv.arrived came, came, stays j m here, alike⟩
    returned := inv.returned
    retired := by
      intro t' item' member
      obtain ⟨channel', i, taken⟩ := inv.retired member
      exact ⟨channel', i, List.mem_append_left _ taken⟩
    came := inv.came
    told := inv.told
    arrived := by
      intro d i member
      have before := inv.arrived member
      change i < (s.log ++ [_]).length
      rw [List.length_append]
      omega
    unacked := inv.unacked
    reported := by
      intro d i m x member came here read
      exact inv.reported member came (old (inv.arrived came) here) read
    gone := by
      intro i held
      obtain ⟨m, here, rows | ⟨j, m', later, there, target, alike⟩⟩ := inv.gone held
      · exact ⟨m, stays i m here, .inl rows⟩
      · exact ⟨m, stays i m here, .inr ⟨j, m', later, stays j m' there, target, alike⟩⟩ }

theorem gives_back (inv : Inv codec queueName s tr) {channel t : Nat} {item : Publication}
    (published : (channel, t, item) ∈ s.published)
    (held : s.world.handler.producerChannel = some channel) (started : s.world.started = true) :
    Inv codec queueName { s with
      world := s.world.connectionFailed
      returned := s.returned ++ [(channel, t, item)] } tr := by
  have failed : Inv codec queueName { s with world := s.world.connectionFailed } tr := by
    have observed := inv.observe (.connectionFailed started) nofun nofun nofun
    rw [List.append_nil, System.observe, List.filterMap_nil, List.append_nil] at observed
    exact observed
  have recovers : s.world.connectionFailed.handler.recovering = true := by
    have up := inv.settled.accounted.shutting (by rw [held]; rfl)
    unfold World.connectionFailed
    split
    · next stopped => exact stopped.resolve_left (by rw [up]; exact Bool.false_ne_true)
    · rfl
  exact { failed with
    returned := by
      intro channel' t' item' member
      rcases List.mem_append.mp member with old | new
      · exact failed.returned old
      · cases List.mem_singleton.mp new
        exact ⟨inv.published.mp published, fun _ => recovers⟩ }

theorem drops (inv : Inv codec queueName s tr) (channel : Nat) :
    Inv codec queueName { s with place := fun i => (s.place i).dropped channel } tr := by
  have stays {p : Place} {c t : Nat} (held : p.dropped channel = .unacked c t) : p = .unacked c t := by
    unfold Place.dropped at held
    split at held
    · split at held
      · cases held
      · exact held
    · exact held
  have gone {p : Place} (here : p.dropped channel = .gone) : p = .gone := by
    unfold Place.dropped at here
    split at here
    · split at here <;> cases here
    · exact here
  exact { inv with
    unacked := fun held => inv.unacked (stays held)
    gone := fun here => inv.gone (gone here) }

theorem step (inv : Inv codec queueName s tr) (lawful : codec.Lawful) (step : System.Step codec s out s') :
    Inv codec queueName s' (tr ++ out) := by
  cases step with
  | @handler out w step free =>
      refine inv.observe step (fun c d b member => free _ member) (fun d result member => free _ member)
        fun t item member => ?_
      obtain ⟨tag, multiple, answer, -⟩ :=
        inv.settled.accounted.answered step (mem_retirements.mpr member)
      exact (free _ answer).elim
  | confirmed step truthful free => exact inv.confirms step truthful free
  | delivered step here queue ready => exact inv.delivers step here
  | executed persisted fns once stored => exact inv.executes lawful fns once stored
  | enqueued published new =>
      rw [List.append_nil]
      exact inv.takes published
  | returned published held started =>
      rw [List.append_nil]
      exact inv.gives_back published held started
  | dropped channel =>
      rw [List.append_nil]
      exact inv.drops channel

theorem of_run (lawful : codec.Lawful) {backlog : List Message} {table : List ChatRow}
    (run : Run (System.Step codec) (.initial queueName backlog table) tr s) : Inv codec queueName s tr := by
  induction run with
  | refl => exact initial queueName backlog table
  | tail earlier step ih => exact ih.step lawful step

/-- From a message on there is a last one for its body, which is not gone or is stored. -/
theorem last (inv : Inv codec queueName s tr) (lawful : codec.Lawful) {x : ChatExchange} {i : Nat}
    {m : Message} (here : s.log[i]? = some m) (target : Target queueName m.queue)
    (read : ChatExchange.parse codec m.body = some x) :
    (∃ j m', s.log[j]? = some m' ∧ s.place j ≠ .gone ∧ Target queueName m'.queue ∧
      Alike codec m.body m'.body ∧ ChatExchange.parse codec m'.body = some x) ∨ Stored x s.table := by
  -- Messages are numbered, so the replacements of replacements end.
  induction left : s.log.length - i using Nat.strong_induction_on generalizing i m with
  | _ n ih =>
      by_cases gone : s.place i = .gone
      · obtain ⟨m', here', rows | ⟨j, next, later, there, target', alike⟩⟩ := inv.gone gone
        · rw [here] at here'
          cases here'
          exact .inr (rows x read)
        · rw [here] at here'
          cases here'
          have bound := (List.getElem?_eq_some_iff.mp there).1
          have fewer : s.log.length - j < n := by omega
          rcases ih _ fewer there target' ((parse_alike lawful alike).trans read) rfl with
            ⟨k, last, there', stays, target'', alike', read'⟩ | stored
          · exact .inl ⟨k, last, there', stays, target'', alike.trans alike', read'⟩
          · exact .inr stored
      · exact .inl ⟨i, m, here, gone, target, .refl, read⟩

end System.Inv

/-! ## The table -/

/-- The rows of the table are old, or of exchanges in the log. -/
def System.Known (codec : JsonCodec) (old : List ChatRow) (s : System) : Prop :=
  ∀ r ∈ s.table, r ∈ old ∨ ∃ m ∈ s.log, ∃ y, ChatExchange.parse codec m.body = some y ∧ r ∈ y.rows

theorem System.Known.step {codec : JsonCodec} {queueName : Bytes} {old : List ChatRow} {s s' : System}
    {tr out : List Obs} (known : s.Known codec old) (inv : s.Inv codec queueName tr)
    (lawful : codec.Lawful) (step : System.Step codec s out s') : s'.Known codec old := by
  cases step with
  | handler => exact known
  | confirmed => exact known
  | delivered => exact known
  | @executed before after fn table persisted fns once stored =>
      intro r member
      change r ∈ table at member
      rcases stored with rfl | ⟨-, rfl⟩
      · rcases (persistBody_spec codec s.table fn.body).2.2 r member with early | ⟨y, read, own⟩
        · exact known r early
        · obtain ⟨i, m, came, here, alike⟩ : Fit codec s fn.delivery fn.body :=
            inv.carries.ackFns fn (fns ▸ List.mem_append_right _ (.head _))
          exact .inr ⟨m, List.mem_of_getElem? here, y, (parse_alike lawful alike).symm.trans read, own⟩
      · exact known r member
  | enqueued =>
      intro r member
      refine (known r member).imp id fun ⟨m, here, own⟩ => ?_
      exact ⟨m, List.mem_append_left _ here, own⟩
  | returned => exact known
  | dropped => exact known

theorem System.known_of_run {codec : JsonCodec} (lawful : codec.Lawful) {queueName : Bytes}
    {backlog : List Message} {table : List ChatRow} {tr : List Obs} {s : System}
    (run : Run (System.Step codec) (.initial queueName backlog table) tr s) : s.Known codec table := by
  induction run with
  | refl => exact fun r member => .inl member
  | tail earlier step ih => exact ih.step (Inv.of_run lawful earlier) lawful step

/-- A row that has the message id of a row of `x` is that row, or of another exchange. -/
theorem row_eq {x y : ChatExchange} {row r : ChatRow} (own : row ∈ x.rows) (other : r ∈ y.rows)
    (same : r.messageId = row.messageId) : r = row ∨ y ≠ x := by
  by_cases equal : y = x
  · subst equal
    left
    rcases List.mem_cons.mp own with rfl | own <;> rcases List.mem_cons.mp other with rfl | other
    · rfl
    · rw [List.mem_singleton.mp other] at same
      exact absurd same.symm Chat.messageId_ne
    · rw [List.mem_singleton.mp own] at same
      exact absurd same Chat.messageId_ne
    · rw [List.mem_singleton.mp own, List.mem_singleton.mp other]
  · exact .inr equal

theorem mem_accepted {tr : List Obs} {item : Publication} (accepted : .accepted item ∈ tr) :
    item ∈ Ledger.accepted (events tr) := by
  apply List.mem_flatMap.mpr
  exact ⟨.accept item, List.mem_flatMap.mpr ⟨_, accepted, .head _⟩, .head _⟩

/-- Before the shutdown an accepted exchange is with the handler, or in a message that is not
gone, or it is in the table; there a row gives way to an older one, or to one of another
exchange, under its message id. -/
theorem exchange_kept {codec : JsonCodec} (lawful : codec.Lawful) {queueName : Bytes}
    {backlog : List Message} {table : List ChatRow} {tr : List Obs} {s : System}
    (run : Run (System.Step codec) (.initial queueName backlog table) tr s)
    (up : s.world.handler.shuttingDown = false) {item : Publication} (accepted : .accepted item ∈ tr)
    (queue : item.queue = queueName) {x : ChatExchange}
    (exchange : ChatExchange.parse codec item.body = some x) :
    item ∈ s.world.places ∨
      (∃ i m, s.log[i]? = some m ∧ s.place i ≠ .gone ∧ Target queueName m.queue ∧
        Alike codec item.body m.body ∧ ChatExchange.parse codec m.body = some x) ∨
      ∀ row ∈ x.rows, ∃ r ∈ s.table, r.messageId = row.messageId ∧ (r = row ∨ r ∈ table ∨
        ∃ m ∈ s.log, ∃ y, y ≠ x ∧ ChatExchange.parse codec m.body = some y ∧ r ∈ y.rows) := by
  have inv := System.Inv.of_run lawful run
  have held := inv.settled.accounted
  have alive : s.world.handler.alive = true := by
    have flagged := held.flagged
    unfold World.Flagged at flagged
    rw [up] at flagged
    simpa using flagged.symm
  obtain ⟨l, moves, tracks⟩ := held.tracked
  have kept := held.called.kept moves
  obtain rfl := tracks.alive alive
  have places := (kept.places held.called.nodup).2 item
  by_cases here : item ∈ s.world.places
  · exact .inl here
  have retired : item ∈ Ledger.retired (events tr) := by
    by_contra unretired
    exact here (places.mpr ⟨mem_accepted accepted, unretired⟩)
  obtain ⟨t, shown⟩ : ∃ t, .retired t item ∈ tr := by
    rw [retired_events] at retired
    obtain ⟨⟨t, _⟩, member, rfl⟩ := List.mem_map.mp retired
    exact ⟨t, mem_retirements.mp member⟩
  obtain ⟨channel, i, taken⟩ := inv.retired shown
  rcases inv.last lawful (inv.enqueued taken).1 (.inl queue) exchange with message | stored
  · exact .inr (.inl message)
  · refine .inr (.inr fun row own => ?_)
    obtain ⟨r, member, same⟩ := stored row own
    refine ⟨r, member, same, ?_⟩
    rcases System.known_of_run lawful run r member with old | ⟨m, logged, y, read, other⟩
    · exact .inr (.inl old)
    · rcases row_eq own other same with equal | different
      · exact .inl equal
      · exact .inr (.inr ⟨m, logged, y, different, read, other⟩)

def greeting : ChatExchange :=
  ⟨bytes "0123456789abcdef0123456789abcdef", 7, bytes "ada", bytes "s1", bytes "hi", bytes "hello", 1⟩

/-- The greeting, as it is published. -/
def greetingItem (body : Bytes) : Publication := ⟨bytes "sql_queue", body, none, 0⟩

/-- A handler whose channels are open. -/
def readyWorld : World where
  handler := {
    queueName := bytes "sql_queue"
    connection := some 0
    producerChannel := some 0
    consumerChannel := some 1
    producerReady := true }
  started := true
  nextConnection := 1
  connected := true
  nextChannel := 2

def readySystem : System := { System.initial (bytes "sql_queue") [] [] with world := readyWorld }

/-- The greeting was sent. -/
def sentSystem (body : Bytes) : System := { readySystem with
  world := { readyWorld with
    handler := { readyWorld.handler with
      inflight := SortedMap.empty.insert 1 (greetingItem body)
      outstanding := 1
      nextPublishTag := 2 }
    nextTicket := 1 }
  published := [(0, 1, greetingItem body)] }

/-- The broker took it and confirmed it. -/
def confirmedSystem (body : Bytes) : System := { sentSystem body with
  world := { readyWorld with
    handler := { readyWorld.handler with nextPublishTag := 2 }
    nextTicket := 1 }
  log := [⟨bytes "sql_queue", body⟩]
  enqueued := [((0, 1, greetingItem body), 0)] }

/-- The consumer has it. -/
def deliveredSystem (body : Bytes) : System := { confirmedSystem body with
  world := { (confirmedSystem body).world with
    ackFns := [⟨⟨0, 1⟩, body, false⟩]
    lastTag := 1 }
  place := Function.update (fun _ => .ready) 0 (.unacked 1 1)
  came := [(⟨0, 1⟩, 0)] }

theorem ready_run : ∃ tr, Run (System.Step textCodec) (.initial (bytes "sql_queue") [] []) tr readySystem := by
  have silent : ∀ o ∈ ([] : List Obs), System.Free o := nofun
  have started : Run (System.Step textCodec) (.initial (bytes "sql_queue") [] []) _ _ :=
    Run.refl.tail (.handler (.start [] true rfl) silent)
  have opened := started.tail (.handler (.onConnected rfl rfl)
    (show ∀ o ∈ [Obs.opened 0 0 1], System.Free o by simp [System.Free]))
  exact ⟨_, opened.tail (.handler (.confirmSelected (fun _ => true) rfl) silent)⟩

theorem sent_run (body : Bytes) : ∃ tr, .accepted (greetingItem body) ∈ tr ∧
    Run (System.Step textCodec) readySystem tr (sentSystem body) := by
  have silent : ∀ o ∈ ([] : List Obs), System.Free o := nofun
  have called : Run (System.Step textCodec) readySystem _ _ :=
    Run.refl.tail (.handler (.publish (bytes "sql_queue") body) silent)
  have loaded := called.tail (.handler (@Step.load _ _ [] [] (greetingItem body) rfl) silent)
  have reserved := loaded.tail (.handler (@Step.exchange _ _ [] [] (greetingItem body) 0 rfl rfl) silent)
  have accepted := reserved.tail (.handler (@Step.queueInLoop _ _ [] [] (greetingItem body) rfl)
    (show ∀ o ∈ [Obs.accepted (greetingItem body)], System.Free o by simp [System.Free]))
  have sent := accepted.tail (.handler (.functor (fun _ => true) rfl)
    (show ∀ o ∈ [Obs.admitted (greetingItem body), .published 0 1 (greetingItem body)], System.Free o by
      simp [System.Free]))
  exact ⟨_, .head _, sent⟩

theorem delivered_run (body : Bytes) : ∃ tr,
    Run (System.Step textCodec) (sentSystem body) tr (deliveredSystem body) := by
  have taken : Run (System.Step textCodec) (sentSystem body) _ _ :=
    Run.refl.tail (.enqueued (.head _) fun i => nofun)
  have confirmed : Run (System.Step textCodec) (sentSystem body) _ (confirmedSystem body) :=
    taken.tail (.confirmed (.confirm 1 false true (fun _ => true) rfl)
      (fun _ channel t item held sent _ => .inl ⟨0, by
        cases List.mem_singleton.mp sent
        exact .head _⟩)
      (show ∀ o ∈ [Obs.retired 1 (greetingItem body)], System.Free o by simp [System.Free]))
  have came : System.Step textCodec (confirmedSystem body) [.delivered 1 ⟨0, 1⟩ body] (deliveredSystem body) :=
    .delivered (i := 0) (m := ⟨bytes "sql_queue", body⟩) (.deliver 1 body rfl Nat.zero_lt_one) rfl rfl rfl
  exact ⟨_, confirmed.tail came⟩

theorem stored_run {body : Bytes} (read : ChatExchange.parse textCodec body = some greeting) : ∃ tr s,
    Run (System.Step textCodec) (deliveredSystem body) tr s ∧ s.world.places = [] ∧ s.place 0 = .gone ∧
      s.world.handler.shuttingDown = false ∧ s.table = greeting.rows := by
  have ended : executeMysql textCodec (fun _ => true) body = .ack := by
    rw [executeMysql, ChatExchange.parseOrThrow_eq, read]
    rfl
  have executed : Run (System.Step textCodec) (deliveredSystem body) _ _ := Run.refl.tail
    (@System.Step.executed _ _ [] [] _ _ (fun _ => true) rfl rfl (.inl rfl))
  rw [ended] at executed
  have acked := executed.tail (.handler (.functor (fun _ => true) rfl)
    (show ∀ o ∈ [Obs.acked 1 1], System.Free o by simp [System.Free]))
  refine ⟨_, _, acked, rfl, rfl, rfl, ?_⟩
  change persistBody textCodec [] body = _
  rw [persistBody, read]
  decide +kernel

/-- A greeting that was published, confirmed, delivered and stored. -/
theorem exchange_kept_stored :
    ∃ tr s item, Run (System.Step textCodec) (.initial (bytes "sql_queue") [] []) tr s ∧
      .accepted item ∈ tr ∧ s.world.places = [] ∧ s.place 0 = .gone ∧ s.table = greeting.rows ∧
      (item ∈ s.world.places ∨
        (∃ i m, s.log[i]? = some m ∧ s.place i ≠ .gone ∧ Target (bytes "sql_queue") m.queue ∧
          Alike textCodec item.body m.body ∧ ChatExchange.parse textCodec m.body = some greeting) ∨
        ∀ row ∈ greeting.rows, ∃ r ∈ s.table, r.messageId = row.messageId ∧ (r = row ∨ r ∈ [] ∨
          ∃ m ∈ s.log, ∃ y, y ≠ greeting ∧ ChatExchange.parse textCodec m.body = some y ∧ r ∈ y.rows)) := by
  have utf8 : greeting.Utf8 := ⟨by decide, by decide, by decide, by decide +kernel⟩
  have valid : greeting.Valid := by
    refine ⟨?_, ?_, ?_, ?_, ?_, ?_, ?_⟩ <;> decide
  obtain ⟨body, written, -⟩ := ChatExchange.serialize_parse textCodec_faithful valid utf8
  have read := ChatExchange.parse_of_valid textCodec_faithful.toLawful written valid
  obtain ⟨tr₁, ready⟩ := ready_run
  obtain ⟨tr₂, accepted, sent⟩ := sent_run body
  obtain ⟨tr₃, delivered⟩ := delivered_run body
  obtain ⟨tr₄, s, stored, places, place, up, table⟩ := stored_run read
  have run := ready.trans (sent.trans (delivered.trans stored))
  have shown : .accepted (greetingItem body) ∈ tr₁ ++ (tr₂ ++ (tr₃ ++ tr₄)) :=
    List.mem_append_right _ (List.mem_append_left _ accepted)
  exact ⟨_, s, greetingItem body, run, shown, places, place, table,
    exchange_kept textCodec_faithful.toLawful run up shown rfl read⟩

end AIService.MQ
