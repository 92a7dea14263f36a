import AIService.Chat.Atomicity
import AIService.Chat.Restore

/-!
# Restarts

The server with its durable queue and its table, over any number of restarts.  `main` reads the
table into the sessions and only then starts the consumer, which writes to the table alone: what
is in the queue when the history is restored is missing from the sessions until the next restart
(`restart_loses`).  When every restart finds all accepted exchanges in the table, nothing is ever
missing (`restart_keeps`).
-/

namespace AIService.Chat

structure Site where
  chats : Int → Bytes → AIHelper := fun _ _ => {}
  /-- `sql_queue`, whose messages outlive the process. -/
  queue : List Bytes := []
  table : List ChatRow := []

inductive SiteObs
  | call (e : Effect)
  /-- A start; the rows that `readDataFromMySQL` read. -/
  | restored (rows : List ChatRow)

def Effect.queued? : Effect → Option Bytes
  | .published _ body true => some body
  | _ => none

def SiteObs.accepted? (codec : JsonCodec) : SiteObs → Option ChatExchange
  | .call e => e.accepted? codec
  | .restored _ => none

/-- The exchanges that the queue accepted, in order. -/
def acceptedBy (codec : JsonCodec) (tr : List SiteObs) : List ChatExchange :=
  tr.filterMap (SiteObs.accepted? codec)

/-- What a critical section leaves. -/
def Site.record (s : Site) (call : Call) (helper : AIHelper) (out : List Effect) : Site :=
  { s with
    chats := fun u id => if call.userId.toInt = u ∧ call.sessionId = id then helper else s.chats u id
    queue := s.queue ++ out.filterMap Effect.queued? }

inductive SiteStep (codec : JsonCodec) : Site → List SiteObs → Site → Prop
  | chat {s : Site} {out : List Effect} {helper : AIHelper} {r : Except Fault Bytes} (call : Call)
      (env : Environment) : IsLongLong env.clock →
    AIHelper.chat codec call env (s.chats call.userId.toInt call.sessionId) = (out, helper, r) →
    SiteStep codec s (out.map .call) (s.record call helper out)
  | chatStream {s : Site} {out : List Effect} {helper : AIHelper} {r : Except Fault (Option Bytes)}
      (call : Call) (env : Environment) : IsLongLong env.clock →
    AIHelper.chatStream codec call env (s.chats call.userId.toInt call.sessionId) = (out, helper, r) →
    SiteStep codec s (out.map .call) (s.record call helper out)
  /-- `executeMysql` writes a delivery, which is acknowledged. -/
  | deliver {s : Site} {before after : List Bytes} {body : Bytes} :
    s.queue = before ++ body :: after →
    SiteStep codec s [] { s with table := persistBody codec s.table body, queue := before ++ after }
  /-- The acknowledgement is lost, and the delivery comes again. -/
  | redeliver {s : Site} {body : Bytes} : body ∈ s.queue →
    SiteStep codec s [] { s with table := persistBody codec s.table body }
  /-- A publication that was not confirmed is sent again. -/
  | resend {s : Site} {body : Bytes} : body ∈ s.queue →
    SiteStep codec s [] { s with queue := s.queue ++ [body] }
  /-- The process stops, every accepted exchange being in the queue or in the table, and `main`
  starts it again. -/
  | restart {s : Site} {rows : List ChatRow} {maps : ChatMaps} : rows.Perm s.table →
    rows.Pairwise ChatRow.Before → readDataFromMySQL rows = .ok maps →
    SiteStep codec s [.restored rows] { s with chats := fun u id => (maps.helper? u id).getD {} }

/-- The history of a session that the accepted exchanges make. -/
def fullHistory (codec : JsonCodec) (u : Int) (id : Bytes) (tr : List SiteObs) : AIHelper :=
  (sessionOf u id (acceptedBy codec tr)).foldl .append {}

/-- Each restart finds every exchange accepted before it in the table. -/
def Drained (codec : JsonCodec) (tr : List SiteObs) : Prop :=
  ∀ before rows after, tr = before ++ .restored rows :: after →
    ∀ x ∈ acceptedBy codec before, x.userRow ∈ rows

section run

variable {codec : JsonCodec} {s s' : Site} {tr out : List SiteObs}

theorem acceptedBy_append (tr out : List SiteObs) :
    acceptedBy codec (tr ++ out) = acceptedBy codec tr ++ acceptedBy codec out := List.filterMap_append

theorem acceptedBy_call (out : List Effect) :
    acceptedBy codec (out.map .call) = out.filterMap (Effect.accepted? codec) := by
  unfold acceptedBy
  rw [List.filterMap_map]
  rfl

/-- What a critical section publishes is what it accepts. -/
theorem Shape.queued {call : Call} {helper : AIHelper} {tokens : List Bytes} {x : Option ChatExchange}
    {out : List Effect} (shape : Shape codec call helper tokens x out) :
    x = none ∧ out.filterMap Effect.queued? = [] ∨
      ∃ y body, x = some y ∧ Written codec call body y ∧ out.filterMap Effect.queued? = [body] := by
  obtain ⟨asked, sent, rfl, fits, sends⟩ := shape
  have requests : asked.filterMap Effect.queued? = [] := by
    refine List.filterMap_eq_nil_iff.mpr fun e member => ?_
    have fine := fits e member
    cases e with
    | asked | generated => rfl
    | _ => exact fine.elim
  have onTokens : (tokens.map Effect.onToken).filterMap Effect.queued? = [] := by
    refine List.filterMap_eq_nil_iff.mpr fun e member => ?_
    obtain ⟨delta, -, rfl⟩ := List.mem_map.mp member
    rfl
  rw [List.filterMap_append, List.filterMap_append, requests, onTokens]
  cases sends with
  | nothing => exact .inl ⟨rfl, rfl⟩
  | refused written => exact .inl ⟨rfl, rfl⟩
  | accepted written => exact .inr ⟨_, _, rfl, written, rfl⟩

/-- Sessions, queue and table agree with the accepted exchanges. -/
structure Complete (codec : JsonCodec) (s : Site) (tr : List SiteObs) : Prop where
  valid : ∀ x ∈ acceptedBy codec tr, x.Valid
  queued : ∀ body ∈ s.queue, ∃ x ∈ acceptedBy codec tr, ChatExchange.parse codec body = some x
  stored : ∃ kept : List ChatExchange, kept.Nodup ∧ (∀ x ∈ kept, x ∈ acceptedBy codec tr) ∧
    s.table.Perm (kept.flatMap ChatExchange.rows)
  held (u : Int) (id : Bytes) : (s.chats u id).history = (fullHistory codec u id tr).history
  canonical (u : Int) (id : Bytes) : (s.chats u id).Canonical
  apart (u : Int) (id : Bytes) :
    (sessionOf u id (acceptedBy codec tr)).Pairwise fun x y => x.ts + 1 < y.ts

namespace Complete

theorem initial : Complete codec {} [] where
  valid _ member := nomatch member
  queued _ member := nomatch member
  stored := ⟨[], .nil, fun _ member => (nomatch member), .nil⟩
  held _ _ := rfl
  canonical _ _ := ⟨rfl, rfl, fun _ member => (nomatch member), .nil⟩
  apart _ _ := .nil

/-- A critical section that leaves the history alone. -/
theorem keep (complete : Complete codec s tr) {call : Call} {helper : AIHelper} {out : List Effect}
    (same : helper.history = (s.chats call.userId.toInt call.sessionId).history)
    (none : out.filterMap (Effect.accepted? codec) = []) (quiet : out.filterMap Effect.queued? = []) :
    Complete codec (s.record call helper out) (tr ++ out.map .call) := by
  have accepted : acceptedBy codec (tr ++ out.map .call) = acceptedBy codec tr := by
    rw [acceptedBy_append, acceptedBy_call, none, List.append_nil]
  constructor
  case valid => exact accepted ▸ complete.valid
  case queued =>
    rw [accepted, Site.record, quiet, List.append_nil]
    exact complete.queued
  case stored => exact accepted ▸ complete.stored
  case held =>
    intro u id
    rw [fullHistory, accepted]
    simp only [Site.record]
    split
    · next here =>
        obtain ⟨rfl, rfl⟩ := here
        exact same.trans (complete.held _ _)
    · exact complete.held u id
  case canonical =>
    intro u id
    simp only [Site.record]
    split
    · next here =>
        obtain ⟨rfl, rfl⟩ := here
        exact (complete.canonical _ _).of_history same
    · exact complete.canonical u id
  case apart => exact accepted ▸ complete.apart

theorem kept (complete : Complete codec s tr) {call : Call} {helper : AIHelper} {tokens : List Bytes}
    {out : List Effect} (kept : Kept codec call (s.chats call.userId.toInt call.sessionId) tokens out helper) :
    Complete codec (s.record call helper out) (tr ++ out.map .call) := by
  rcases kept.effects.queued with ⟨-, quiet⟩ | ⟨y, body, none, -, -⟩
  · exact complete.keep kept.history kept.effects.tally.accepted quiet
  · cases none

/-- A critical section that appends an exchange. -/
theorem extend (complete : Complete codec s tr) {call : Call} {helper : AIHelper} {out : List Effect}
    {x : ChatExchange} {body : Bytes} (written : Written codec call body x)
    (grown : helper.history = ((s.chats call.userId.toInt call.sessionId).append x).history)
    (later : ∀ message ∈ (s.chats call.userId.toInt call.sessionId).messages, message.2 < x.ts)
    (one : out.filterMap (Effect.accepted? codec) = [x])
    (queued : out.filterMap Effect.queued? = [body]) :
    Complete codec (s.record call helper out) (tr ++ out.map .call) := by
  have accepted : acceptedBy codec (tr ++ out.map .call) = acceptedBy codec tr ++ [x] := by
    rw [acceptedBy_append, acceptedBy_call, one]
  have key (u : Int) (id : Bytes) : sessionOf u id (acceptedBy codec tr ++ [x]) =
      if call.userId.toInt = u ∧ call.sessionId = id then sessionOf u id (acceptedBy codec tr) ++ [x]
      else sessionOf u id (acceptedBy codec tr) := by
    unfold sessionOf
    rw [List.filter_append, ← written.userId, ← written.sessionId]
    by_cases here : x.userId.toInt = u ∧ x.sessionId = id
    · rw [if_pos here, List.filter_cons_of_pos (by simpa using here)]
      rfl
    · rw [if_neg here, List.filter_cons_of_neg (by simpa using here), List.filter_nil, List.append_nil]
  have valid := written.writtenAs.valid
  constructor
  case valid =>
    intro y member
    rw [accepted] at member
    rcases List.mem_append.mp member with old | new
    · exact complete.valid y old
    · exact List.mem_singleton.mp new ▸ valid
  case queued =>
    intro b member
    rw [accepted]
    simp only [Site.record, queued] at member
    rcases List.mem_append.mp member with old | new
    · obtain ⟨y, inside, parsed⟩ := complete.queued b old
      exact ⟨y, List.mem_append_left _ inside, parsed⟩
    · rw [List.mem_singleton.mp new]
      exact ⟨x, by simp, written.writtenAs.parsed⟩
  case stored =>
    obtain ⟨kept, nodup, inside, table⟩ := complete.stored
    rw [accepted]
    exact ⟨kept, nodup, fun y member => List.mem_append_left _ (inside y member), table⟩
  case held =>
    intro u id
    rw [fullHistory, accepted, key]
    simp only [Site.record]
    split
    · next here =>
        obtain ⟨rfl, rfl⟩ := here
        rw [List.foldl_append, grown]
        exact AIHelper.append_history (complete.held _ _) x
    · exact complete.held u id
  case canonical =>
    intro u id
    simp only [Site.record]
    split
    · next here =>
        obtain ⟨rfl, rfl⟩ := here
        exact ((complete.canonical _ _).append valid later).of_history grown
    · exact complete.canonical u id
  case apart =>
    intro u id
    rw [accepted, key]
    split
    · next here =>
        obtain ⟨rfl, rfl⟩ := here
        refine List.pairwise_append.mpr
          ⟨complete.apart _ _, List.pairwise_singleton _ _, fun y old z new => ?_⟩
        rw [List.mem_singleton.mp new]
        refine later (y.answer, y.ts + 1) ?_
        have messages : (s.chats call.userId.toInt call.sessionId).messages = _ :=
          congrArg (·.messages) (complete.held call.userId.toInt call.sessionId)
        rw [messages, fullHistory, foldl_append_eq]
        exact List.mem_append_right _ (List.mem_flatMap.mpr ⟨y, old, by simp [ChatExchange.lines]⟩)
    · exact complete.apart u id

/-- The consumer persists a queued body. -/
theorem persist (complete : Complete codec s tr)
    (distinct : ((acceptedBy codec tr).map (·.messageId)).Nodup) {body : Bytes} (queued : body ∈ s.queue)
    {queue : List Bytes} (fewer : ∀ b ∈ queue, b ∈ s.queue) :
    Complete codec { s with table := persistBody codec s.table body, queue := queue } tr := by
  obtain ⟨kept, nodup, inside, table⟩ := complete.stored
  obtain ⟨x, accepted, parsed⟩ := complete.queued body queued
  have known : ∀ y ∈ kept, y.messageId = x.messageId → y = x := fun y member same =>
    List.inj_on_of_nodup_map distinct (inside y member) accepted same
  refine { complete with queued := fun b member => complete.queued b (fewer b member), stored := ?_ }
  refine ⟨_, ?_, ?_, by rw [persistBody, parsed]; exact persist_rows table known⟩
  · split
    · exact nodup
    · next new =>
        refine List.nodup_append.mpr ⟨nodup, List.nodup_singleton x, fun y listed z here same => ?_⟩
        rw [same, List.mem_singleton.mp here] at listed
        exact new listed
  · intro y member
    split at member
    · exact inside y member
    · rcases List.mem_append.mp member with old | new
      · exact inside y old
      · exact List.mem_singleton.mp new ▸ accepted

/-- `main` restores the history when all of it is in the table. -/
theorem restart (complete : Complete codec s tr)
    (distinct : ((acceptedBy codec tr).map (·.messageId)).Nodup) {rows : List ChatRow} {maps : ChatMaps}
    (stored : rows.Perm s.table) (ordered : rows.Pairwise ChatRow.Before)
    (read : readDataFromMySQL rows = .ok maps) (drained : ∀ x ∈ acceptedBy codec tr, x.userRow ∈ rows) :
    Complete codec { s with chats := fun u id => (maps.helper? u id).getD {} } (tr ++ [.restored rows]) := by
  have accepted : acceptedBy codec (tr ++ [.restored rows]) = acceptedBy codec tr := by
    rw [acceptedBy_append]
    exact List.append_nil _
  obtain ⟨kept, nodup, inside, table⟩ := complete.stored
  have all : kept.Perm (acceptedBy codec tr) := by
    refine (List.perm_ext_iff_of_nodup nodup (List.Nodup.of_map _ distinct)).mpr fun x => ?_
    refine ⟨inside x, fun member => ?_⟩
    have row := (stored.trans table).mem_iff.mp (drained x member)
    obtain ⟨y, listed, isRow⟩ := List.mem_flatMap.mp row
    simp only [ChatExchange.rows, List.mem_cons, List.not_mem_nil, or_false] at isRow
    rcases isRow with same | same
    · have ids := messageId_inj.1.mp (congrArg (·.messageId) same)
      rw [List.inj_on_of_nodup_map distinct member (inside y listed) ids]
      exact listed
    · exact absurd (congrArg (·.messageId) same) messageId_ne
  have perm : rows.Perm ((acceptedBy codec tr).flatMap ChatExchange.rows) :=
    stored.trans (table.trans (all.flatMap_right _))
  have readable : ∀ row ∈ rows, row.Readable := by
    intro row inRows
    obtain ⟨x, member, isRow⟩ := List.mem_flatMap.mp (perm.mem_iff.mp inRows)
    exact (complete.valid x member).readable row isRow
  obtain ⟨maps', read', -, groups⟩ := readDataFromMySQL_spec readable
  cases read.symm.trans read'
  have restored (u : Int) (id : Bytes) : (maps.helper? u id).getD {} = fullHistory codec u id tr := by
    have sorted : (rowsOf u id rows).Pairwise fun a b => a.ts ≤ b.ts := by
      refine (ordered.filter _).imp fun before => ?_
      rcases before with less | ⟨equal, -⟩
      · exact less.le
      · exact equal.le
    have group : (rowsOf u id rows).Perm
        ((sessionOf u id (acceptedBy codec tr)).flatMap ChatExchange.rows) := by
      rw [← rowsOf_flatMap]
      exact perm.filter _
    rw [groups, sorted_eq group sorted (complete.apart u id), helperOf_rows, fullHistory]
    split
    · next empty =>
        rw [foldl_append_eq] at empty ⊢
        have none : sessionOf u id (acceptedBy codec tr) = [] := by
          cases exchanges : sessionOf u id (acceptedBy codec tr) with
          | nil => rfl
          | cons x rest =>
              rw [exchanges] at empty
              simp [ChatExchange.lines] at empty
        rw [none]
        rfl
    · rfl
  constructor
  case valid => exact accepted ▸ complete.valid
  case queued => exact accepted ▸ complete.queued
  case stored => exact accepted ▸ complete.stored
  case held =>
    intro u id
    rw [fullHistory, accepted]
    exact congrArg AIHelper.history (restored u id)
  case canonical =>
    intro u id
    change ((maps.helper? u id).getD {}).Canonical
    rw [restored]
    exact (complete.canonical u id).of_history (complete.held u id).symm
  case apart => exact accepted ▸ complete.apart

theorem step (lawful : codec.Lawful) (complete : Complete codec s tr)
    (distinct : ((acceptedBy codec (tr ++ out)).map (·.messageId)).Nodup)
    (drained : Drained codec (tr ++ out)) (step : SiteStep codec s out s') :
    Complete codec s' (tr ++ out) := by
  have fresh : ((acceptedBy codec tr).map (·.messageId)).Nodup := by
    rw [acceptedBy_append, List.map_append, List.nodup_append] at distinct
    exact distinct.1
  cases step with
  | chat call env clock ran =>
      rcases chat_spec lawful (complete.canonical _ _) clock ran with ⟨-, kept⟩ | ⟨x, -, appended⟩
      · exact complete.kept kept
      · rcases appended.effects.queued with ⟨none, -⟩ | ⟨y, body, same, written, queued⟩
        · cases none
        · cases same
          exact complete.extend written appended.history appended.later
            appended.effects.tally.accepted queued
  | chatStream call env clock ran =>
      rcases chatStream_spec lawful (complete.canonical _ _) clock ran with
        ⟨what, tokens, -, kept⟩ | ⟨-, kept⟩ | ⟨x, tokens, before, -, rfl, -, appended⟩
      · exact complete.kept kept
      · exact complete.kept kept
      · rcases appended.effects.queued with ⟨none, -⟩ | ⟨y, body, same, written, queued⟩
        · cases none
        · cases same
          refine complete.extend written appended.history appended.later ?_ ?_
          · rw [List.filterMap_append, appended.effects.tally.accepted]
            rfl
          · rw [List.filterMap_append, queued]
            rfl
  | @deliver before after body split =>
      rw [List.append_nil]
      refine complete.persist fresh (by rw [split]; simp) fun b member => ?_
      rw [split]
      rcases List.mem_append.mp member with early | late
      · exact List.mem_append_left _ early
      · exact List.mem_append_right _ (.tail _ late)
  | redeliver queued =>
      rw [List.append_nil]
      exact complete.persist fresh queued fun b member => member
  | @resend body queued =>
      rw [List.append_nil]
      refine { complete with queued := fun b member => ?_ }
      rcases List.mem_append.mp member with old | new
      · exact complete.queued b old
      · exact complete.queued b (List.mem_singleton.mp new ▸ queued)
  | restart stored ordered read =>
      exact complete.restart fresh stored ordered read (drained tr _ [] rfl)

end Complete

theorem complete_of_run (lawful : codec.Lawful) (run : Run (SiteStep codec) {} tr s)
    (distinct : ((acceptedBy codec tr).map (·.messageId)).Nodup) (drained : Drained codec tr) :
    Complete codec s tr := by
  induction run with
  | refl => exact .initial
  | @tail tr out _ _ _ step ih =>
      have fresh := distinct
      rw [acceptedBy_append, List.map_append, List.nodup_append] at fresh
      refine (ih fresh.1 fun before rows after cut x member => ?_).step lawful distinct drained step
      refine drained before rows (after ++ out) ?_ x member
      rw [cut, List.append_assoc]
      rfl

end run

/-- Every effect of a critical section fits the history before it. -/
theorem Shape.fits {codec : JsonCodec} {call : Call} {helper full : AIHelper} {tokens : List Bytes}
    {x : Option ChatExchange} {out last : List Effect} (shape : Shape codec call helper tokens x out)
    (canonical : helper.Canonical) (same : helper.history = full.history)
    (result : ∀ e ∈ last, ∀ helper, e.Fits helper) : ∀ e ∈ out ++ last, e.Fits full := by
  intro e member
  obtain ⟨pre, post, split⟩ := List.append_of_mem member
  have nothing : ∀ e ∈ ([] : List Effect), (∀ helper, e.Fits helper) ∧ e.accepted? codec = none :=
    fun _ none => nomatch none
  rcases shape.fits_of_split canonical same nothing result split with ⟨fits, -⟩ | fits
  · exact fits
  · exact fits full

theorem AIHelper.shown_of_history {helper full : AIHelper} (same : helper.history = full.history) :
    helper.shown = full.shown := by
  have messages : helper.messages = full.messages := congrArg (·.messages) same
  have roles : helper.messageRoles_ = full.messageRoles_ := congrArg (·.messageRoles_) same
  rw [AIHelper.shown, AIHelper.shown, messages, roles]

/-- While every restart finds all accepted exchanges in the table, each session shows, and sends to
its model, everything that was ever accepted for it. -/
theorem restart_keeps {codec : JsonCodec} {s : Site} {tr : List SiteObs} (lawful : codec.Lawful)
    (run : Run (SiteStep codec) {} tr s)
    (distinct : ((acceptedBy codec tr).map (·.messageId)).Nodup) (drained : Drained codec tr)
    (u : Int) (id : Bytes) :
    AIHelper.getHistorySnapshot (s.chats u id) =
      ([], s.chats u id, .ok (fullHistory codec u id tr).shown) ∧
    (∀ call env out helper r, IsLongLong env.clock →
      AIHelper.chat codec call env (s.chats u id) = (out, helper, r) →
      ∀ e ∈ out, e.Fits (fullHistory codec u id tr)) ∧
    ∀ call env out helper r, IsLongLong env.clock →
      AIHelper.chatStream codec call env (s.chats u id) = (out, helper, r) →
      ∀ e ∈ out, e.Fits (fullHistory codec u id tr) := by
  have complete := complete_of_run lawful run distinct drained
  have canonical := complete.canonical u id
  have held := complete.held u id
  have nothing : ∀ e ∈ ([] : List Effect), ∀ helper, e.Fits helper := fun _ none => nomatch none
  refine ⟨?_, ?_, ?_⟩
  · rw [canonical.getHistorySnapshot_eq, AIHelper.shown_of_history held]
  · intro call env out helper r clock ran
    rcases chat_spec lawful canonical clock ran with ⟨-, kept⟩ | ⟨x, -, appended⟩
    · have fits := kept.effects.fits canonical held nothing
      rwa [List.append_nil] at fits
    · have fits := appended.effects.fits canonical held nothing
      rwa [List.append_nil] at fits
  · intro call env out helper r clock ran
    rcases chatStream_spec lawful canonical clock ran with
      ⟨what, tokens, -, kept⟩ | ⟨-, kept⟩ | ⟨x, tokens, before, -, rfl, -, appended⟩
    · have fits := kept.effects.fits canonical held nothing
      rwa [List.append_nil] at fits
    · have fits := kept.effects.fits canonical held nothing
      rwa [List.append_nil] at fits
    · exact appended.effects.fits canonical held fun e last =>
        List.mem_singleton.mp last ▸ fun _ => trivial

/-! ## A restart before the delivery -/

/-- The first chat is accepted. -/
theorem firstChat_ran : ∃ out helper r,
    AIHelper.chat flatCodec firstCall firstEnvironment {} = (out, helper, r) ∧
    out.filterMap Effect.queued? = [onlyBody] ∧
    out.filterMap (Effect.accepted? flatCodec) = [onlyExchange] := by
  have ran (result : List Effect × AIHelper × Except Fault Bytes) :
      result = (result.1, result.2.1, result.2.2) := rfl
  refine ⟨_, _, _, ran _, ?_, ?_⟩ <;> decide +kernel

theorem call_ne_restored (out : List Effect) {before after : List SiteObs} {rows : List ChatRow} :
    out.map SiteObs.call ≠ before ++ .restored rows :: after := by
  intro cut
  have member : SiteObs.restored rows ∈ out.map SiteObs.call := by
    rw [cut]
    simp
  obtain ⟨e, -, same⟩ := List.mem_map.mp member
  cases same

/-- The first chat, by the server. -/
theorem firstChat_run : ∃ tr s, Run (SiteStep flatCodec) {} tr s ∧
    acceptedBy flatCodec tr = [onlyExchange] ∧ s.queue = [onlyBody] ∧ s.table = [] ∧
    ∀ before rows after, tr ≠ before ++ .restored rows :: after := by
  obtain ⟨out, helper, r, ran, queued, accepted⟩ := firstChat_ran
  have run : Run (SiteStep flatCodec) {} _ _ :=
    .single (.chat firstCall firstEnvironment (by decide) ran)
  refine ⟨_, _, run, ?_, queued, rfl, fun before rows after => call_ne_restored out⟩
  rw [acceptedBy_call]
  exact accepted

/-- The only message of the queue is delivered. -/
theorem deliver_run {codec : JsonCodec} {tr : List SiteObs} {s : Site} {body : Bytes}
    (run : Run (SiteStep codec) {} tr s) (queue : s.queue = [body]) :
    ∃ s', Run (SiteStep codec) {} (tr ++ []) s' ∧ s'.table = persistBody codec s.table body :=
  ⟨_, run.tail (@SiteStep.deliver codec _ [] [] body queue), rfl⟩

/-- A restart after the delivery. -/
theorem restart_keeps_first : ∃ tr s, Run (SiteStep flatCodec) {} tr s ∧
    .restored onlyExchange.rows ∈ tr ∧ acceptedBy flatCodec tr = [onlyExchange] ∧
    AIHelper.getHistorySnapshot (s.chats 7 (bytes "s1")) = ([], s.chats 7 (bytes "s1"), .ok
      (fullHistory flatCodec 7 (bytes "s1") tr).shown) := by
  obtain ⟨tr, s, run, accepted, queue, table, none⟩ := firstChat_run
  have stored : persistBody flatCodec s.table onlyBody = onlyExchange.rows := by
    rw [table, persistBody, onlyBody_parsed]
    decide +kernel
  have valid : onlyExchange.Valid := ChatExchange.valid_of_parse onlyBody_parsed
  obtain ⟨maps, read, -, -⟩ := readDataFromMySQL_spec valid.readable
  obtain ⟨delivered, run, table'⟩ := deliver_run run queue
  have whole : onlyExchange.rows.Perm delivered.table := .of_eq (table'.trans stored).symm
  have ordered : onlyExchange.rows.Pairwise ChatRow.Before :=
    List.pairwise_pair.mpr (.inl (by decide))
  have restarted := run.tail (.restart whole ordered read)
  have same : acceptedBy flatCodec (tr ++ [] ++ [.restored onlyExchange.rows]) = [onlyExchange] := by
    rw [List.append_nil, acceptedBy_append, accepted]
    rfl
  have distinct : ((acceptedBy flatCodec
      (tr ++ [] ++ [.restored onlyExchange.rows])).map (·.messageId)).Nodup := by
    rw [same]
    exact List.nodup_singleton _
  have drained : Drained flatCodec (tr ++ [] ++ [.restored onlyExchange.rows]) := by
    intro before rows after cut x member
    rw [cut, acceptedBy_append] at same
    have only : x ∈ [onlyExchange] := same ▸ List.mem_append_left _ member
    have inside : SiteObs.restored rows ∈ tr ++ [] ++ [.restored onlyExchange.rows] := by
      rw [cut]
      simp
    rw [List.append_nil] at inside
    rcases List.mem_append.mp inside with old | new
    · obtain ⟨pre, post, split⟩ := List.append_of_mem old
      exact absurd split (none pre rows post)
    · cases List.mem_singleton.mp new
      rw [List.mem_singleton.mp only]
      exact .head _
  exact ⟨_, _, restarted, by simp, same,
    (restart_keeps flatCodec_lawful restarted distinct drained 7 (bytes "s1")).1⟩

/-- The exchange is in the queue when the history is restored; once it is delivered the queue is
empty, and the session still shows nothing. -/
theorem restart_loses : ∃ tr s, Run (SiteStep flatCodec) {} tr s ∧ s.queue = [] ∧
    acceptedBy flatCodec tr = [onlyExchange] ∧
    AIHelper.getHistorySnapshot (s.chats 7 (bytes "s1")) = ([], s.chats 7 (bytes "s1"), .ok []) ∧
    (fullHistory flatCodec 7 (bytes "s1") tr).shown ≠ [] := by
  obtain ⟨tr, s, run, accepted, queue, table, -⟩ := firstChat_run
  have empty : ([] : List ChatRow).Perm s.table := table ▸ .nil
  have restarted := run.tail (.restart empty .nil rfl)
  have drained := restarted.tail (@SiteStep.deliver flatCodec _ [] [] onlyBody queue)
  have same : acceptedBy flatCodec (tr ++ [.restored []] ++ []) = [onlyExchange] := by
    rw [acceptedBy_append, acceptedBy_append, accepted]
    rfl
  refine ⟨_, _, drained, rfl, same, rfl, ?_⟩
  rw [fullHistory, same]
  decide

end AIService.Chat
