import AIService.Chat.History
import AIService.Data.FlatJson
import Mathlib.Data.List.Induction
import Mathlib.Data.List.Dedup

/-!
# Restoring the history

`readDataFromMySQL` groups the rows of `chat_message` by user and session, in the order of
their timestamps.  Reading back what `persist` inserted, whatever the order and the number
of its runs, gives every session the messages it has in memory (`restore_persisted`).
-/

namespace AIService.Chat

/-- The maps of `ChatServer`. -/
structure ChatMaps where
  chatInformation : SortedMap Int (SortedMap Bytes AIHelper) := .empty
  sessionsIdsMap : SortedMap Int (List Bytes) := .empty

namespace ChatMaps

def helper? (maps : ChatMaps) (u : Int) (s : Bytes) : Option AIHelper :=
  (maps.chatInformation.find? u).bind (·.find? s)

/-- `sessionsIdsMap[u]`; an absent entry counts as empty. -/
def ids (maps : ChatMaps) (u : Int) : List Bytes := (maps.sessionsIdsMap.find? u).getD []

/-- `chatInformation[u][s] = helper`. -/
def setHelper (maps : ChatMaps) (u : Int) (s : Bytes) (helper : AIHelper) : ChatMaps :=
  let sessions := (maps.chatInformation.find? u).getD .empty
  { maps with chatInformation := maps.chatInformation.insert u (sessions.insert s helper) }

/-- `sessionsIdsMap[u].push_back(s)`. -/
def pushId (maps : ChatMaps) (u : Int) (s : Bytes) : ChatMaps :=
  { maps with sessionsIdsMap := maps.sessionsIdsMap.insert u (maps.ids u ++ [s]) }

@[simp] theorem ids_setHelper (maps : ChatMaps) (u v : Int) (s : Bytes) (helper : AIHelper) :
    (maps.setHelper u s helper).ids v = maps.ids v := rfl

@[simp] theorem helper?_pushId (maps : ChatMaps) (u v : Int) (s t : Bytes) :
    (maps.pushId u s).helper? v t = maps.helper? v t := rfl

theorem helper?_setHelper (maps : ChatMaps) (u v : Int) (s t : Bytes) (helper : AIHelper) :
    (maps.setHelper u s helper).helper? v t =
      if u = v ∧ s = t then some helper else maps.helper? v t := by
  unfold helper? setHelper
  rw [SortedMap.find?_insert]
  by_cases user : u = v
  · subst user
    rw [if_pos rfl, Option.bind_some, SortedMap.find?_insert]
    by_cases session : s = t
    · simp [session]
    · cases maps.chatInformation.find? u <;> simp [session]
  · simp [user]

theorem ids_pushId (maps : ChatMaps) (u v : Int) (s : Bytes) :
    (maps.pushId u s).ids v = if u = v then maps.ids v ++ [s] else maps.ids v := by
  unfold ids pushId
  rw [SortedMap.find?_insert]
  by_cases user : u = v
  · subst user
    simp [ids]
  · simp [user]

end ChatMaps

/-- `restoreMessage(content, ms, isUser)`. -/
def AIHelper.restoreMessage (helper : AIHelper) (content : Bytes) (ms : Int) (isUser : Bool) :
    AIHelper :=
  { helper with messages := helper.messages ++ [(content, ms)]
                messageRoles_ := helper.messageRoles_ ++ [isUser] }

/-- One turn of the loop over the result set; `error` is the text of the exception. -/
def restoreRow (restored : ChatMaps) (row : ChatRow) : Except Bytes ChatMaps :=
  if row.id ≤ 0 ∨ row.id > Int32.maxValue.toInt then
    .error (bytes "Stored chat history has an invalid user id")
  else if row.isUser ≠ 0 ∧ row.isUser ≠ 1 then
    .error (bytes "Stored chat history has an invalid message role")
  else
    match restored.helper? row.id row.sessionId with
    | some helper => .ok (restored.setHelper row.id row.sessionId
        (helper.restoreMessage row.content row.ts (row.isUser == 1)))
    | none => .ok ((restored.setHelper row.id row.sessionId
        (AIHelper.restoreMessage {} row.content row.ts (row.isUser == 1))).pushId row.id row.sessionId)

/-- The maps that replace the live ones when every row could be read. -/
def readDataFromMySQL (rows : List ChatRow) : Except Bytes ChatMaps := rows.foldlM restoreRow {}

/-! ## Grouping -/

/-- The rows of one session. -/
def rowsOf (u : Int) (s : Bytes) (rows : List ChatRow) : List ChatRow :=
  rows.filter fun row => row.id = u ∧ row.sessionId = s

/-- A helper with the messages of some rows; no rows, no helper. -/
def helperOf : List ChatRow → Option AIHelper
  | [] => none
  | rows => some
      { messages := rows.map fun row => (row.content, row.ts)
        messageRoles_ := rows.map fun row => row.isUser == 1 }

structure ChatRow.Readable (row : ChatRow) : Prop where
  id : 0 < row.id ∧ row.id ≤ Int32.maxValue.toInt
  isUser : row.isUser = 0 ∨ row.isUser = 1

/-- The session list of each user names exactly the user's helpers, once each. -/
structure ChatMaps.Indexed (maps : ChatMaps) : Prop where
  nodup (u : Int) : (maps.ids u).Nodup
  exact_ (u : Int) (s : Bytes) : s ∈ maps.ids u ↔ (maps.helper? u s).isSome

theorem ChatMaps.Indexed.empty : ({} : ChatMaps).Indexed where
  nodup _ := .nil
  exact_ _ _ := by simp [ids, helper?]

theorem restoreRow_spec (maps : ChatMaps) {row : ChatRow} (readable : row.Readable) :
    ∃ maps', restoreRow maps row = .ok maps' ∧ (maps.Indexed → maps'.Indexed) ∧
      ∀ u s, maps'.helper? u s = if row.id = u ∧ row.sessionId = s then
        some (((maps.helper? u s).getD {}).restoreMessage row.content row.ts (row.isUser == 1))
        else maps.helper? u s := by
  obtain ⟨⟨positive, small⟩, role⟩ := readable
  unfold restoreRow
  rw [if_neg (by omega), if_neg (by omega)]
  cases found : maps.helper? row.id row.sessionId with
  | some helper =>
      refine ⟨_, rfl, fun indexed => ⟨indexed.nodup, fun u s => ?_⟩, fun u s => ?_⟩
      · rw [ChatMaps.ids_setHelper, ChatMaps.helper?_setHelper, indexed.exact_]
        split
        · next here =>
            obtain ⟨rfl, rfl⟩ := here
            rw [found]
            rfl
        · rfl
      · rw [ChatMaps.helper?_setHelper]
        split
        · next here =>
            obtain ⟨rfl, rfl⟩ := here
            rw [found]
            rfl
        · rfl
  | none =>
      have helpers (u : Int) (s : Bytes) :
          ((maps.setHelper row.id row.sessionId (AIHelper.restoreMessage {} row.content row.ts
            (row.isUser == 1))).pushId row.id row.sessionId).helper? u s =
          if row.id = u ∧ row.sessionId = s then
            some (((maps.helper? u s).getD {}).restoreMessage row.content row.ts (row.isUser == 1))
          else maps.helper? u s := by
        rw [ChatMaps.helper?_pushId, ChatMaps.helper?_setHelper]
        split
        · next here =>
            obtain ⟨rfl, rfl⟩ := here
            rw [found]
            rfl
        · rfl
      refine ⟨_, rfl, fun indexed => ⟨fun u => ?_, fun u s => ?_⟩, helpers⟩
      · rw [ChatMaps.ids_pushId, ChatMaps.ids_setHelper]
        split
        · next here =>
            subst here
            refine List.nodup_append.mpr ⟨indexed.nodup row.id, List.nodup_singleton _, ?_⟩
            rintro s listed t new rfl
            have known := (indexed.exact_ row.id s).mp listed
            rw [List.mem_singleton.mp new, found] at known
            cases known
        · exact indexed.nodup u
      · rw [helpers, ChatMaps.ids_pushId, ChatMaps.ids_setHelper]
        by_cases user : row.id = u
        · subst user
          rw [if_pos rfl, List.mem_append, indexed.exact_, List.mem_singleton]
          by_cases session : s = row.sessionId
          · simp [session]
          · simp [session, Ne.symm session]
        · rw [if_neg user, if_neg (fun here => user here.1), indexed.exact_]

theorem helperOf_append (rows : List ChatRow) (row : ChatRow) :
    helperOf (rows ++ [row]) =
      some (((helperOf rows).getD {}).restoreMessage row.content row.ts (row.isUser == 1)) := by
  cases rows <;> simp [helperOf, AIHelper.restoreMessage]

theorem restoreRow_readable {maps maps' : ChatMaps} {row : ChatRow}
    (ran : restoreRow maps row = .ok maps') : row.Readable := by
  unfold restoreRow at ran
  split at ran
  · cases ran
  · next user =>
      split at ran
      · cases ran
      · next role => exact ⟨by omega, by omega⟩

theorem readDataFromMySQL_concat {rows : List ChatRow} {row : ChatRow} {maps : ChatMaps} :
    readDataFromMySQL (rows ++ [row]) = .ok maps ↔
      ∃ maps', readDataFromMySQL rows = .ok maps' ∧ restoreRow maps' row = .ok maps := by
  unfold readDataFromMySQL
  rw [List.foldlM_append]
  cases rows.foldlM restoreRow {} with
  | error what => exact ⟨nofun, nofun⟩
  | ok maps' =>
      change (restoreRow maps' row >>= pure) = _ ↔ _
      rw [bind_pure]
      constructor
      · exact fun last => ⟨maps', rfl, last⟩
      · rintro ⟨_, same, last⟩
        cases same
        exact last

theorem readDataFromMySQL_readable {rows : List ChatRow} {maps : ChatMaps}
    (read : readDataFromMySQL rows = .ok maps) : ∀ row ∈ rows, row.Readable := by
  induction rows using List.reverseRecOn generalizing maps with
  | nil => nofun
  | append_singleton rows row ih =>
      obtain ⟨maps', before, last⟩ := readDataFromMySQL_concat.mp read
      intro r member
      rcases List.mem_append.mp member with early | here
      · exact ih before r early
      · rw [List.mem_singleton.mp here]
        exact restoreRow_readable last

/-- Readable rows are grouped by user and session, in their order. -/
theorem readDataFromMySQL_spec {rows : List ChatRow} (readable : ∀ row ∈ rows, row.Readable) :
    ∃ maps, readDataFromMySQL rows = .ok maps ∧ maps.Indexed ∧
      ∀ u s, maps.helper? u s = helperOf (rowsOf u s rows) := by
  induction rows using List.reverseRecOn with
  | nil => exact ⟨{}, rfl, .empty, fun _ _ => rfl⟩
  | append_singleton rows row ih =>
      obtain ⟨maps, read, indexed, groups⟩ := ih fun r member =>
        readable r (List.mem_append_left _ member)
      obtain ⟨maps', restored, index', helpers⟩ := restoreRow_spec maps (readable row (by simp))
      refine ⟨maps', readDataFromMySQL_concat.mpr ⟨maps, read, restored⟩, index' indexed,
        fun u s => ?_⟩
      rw [helpers, groups]
      unfold rowsOf
      rw [List.filter_append]
      by_cases here : row.id = u ∧ row.sessionId = s
      · rw [if_pos here, List.filter_cons_of_pos (by simpa using here), List.filter_nil,
          helperOf_append]
      · rw [if_neg here, List.filter_cons_of_neg (by simpa using here), List.filter_nil,
          List.append_nil]

/-- The maps that were read: lists match the helpers, and messages are those of the rows. -/
theorem read_spec {rows : List ChatRow} {maps : ChatMaps} (ran : readDataFromMySQL rows = .ok maps) :
    maps.Indexed ∧ ∀ u id, maps.helper? u id = helperOf (rowsOf u id rows) := by
  obtain ⟨maps', again, indexed, helpers⟩ :=
    readDataFromMySQL_spec (readDataFromMySQL_readable ran)
  rw [ran] at again
  cases again
  exact ⟨indexed, helpers⟩

/-! ## Persisting -/

def ChatExchange.rows (x : ChatExchange) : List ChatRow := [x.userRow, x.answerRow]

/-- The consumer's work on one queue body. -/
def persistBody (codec : JsonCodec) (table : List ChatRow) (body : Bytes) : List ChatRow :=
  match ChatExchange.parse codec body with
  | some x => x.persist table
  | none => table

theorem messageId_ne {x y : ChatExchange} : x.userRow.messageId ≠ y.answerRow.messageId := by
  intro same
  have ends : (bytes "/u").reverse = (bytes "/a").reverse := by
    have reversed := congrArg List.reverse (Option.some.inj same)
    rw [List.reverse_append, List.reverse_append] at reversed
    exact (List.append_inj reversed (by decide)).1
  revert ends
  decide

theorem messageId_inj {x y : ChatExchange} :
    (x.userRow.messageId = y.userRow.messageId ↔ x.messageId = y.messageId) ∧
    (x.answerRow.messageId = y.answerRow.messageId ↔ x.messageId = y.messageId) := by
  constructor <;>
    · simp only [ChatExchange.userRow, ChatExchange.answerRow, Option.some.injEq]
      exact List.append_left_inj _

/-- Persisting an exchange again changes nothing; a new one adds its two rows. -/
theorem persist_rows {exchanges : List ChatExchange} {table : List ChatRow} {x : ChatExchange}
    (holds : table.Perm (exchanges.flatMap ChatExchange.rows))
    (known : ∀ y ∈ exchanges, y.messageId = x.messageId → y = x) :
    (x.persist table).Perm ((if x ∈ exchanges then exchanges else exchanges ++ [x]).flatMap
      ChatExchange.rows) := by
  have present {row : ChatRow} :
      table.any (·.messageId = row.messageId) = true ↔
        ∃ y ∈ exchanges, y.userRow.messageId = row.messageId ∨ y.answerRow.messageId = row.messageId := by
    simp only [List.any_eq_true, decide_eq_true_eq, holds.mem_iff, List.mem_flatMap,
      ChatExchange.rows, List.mem_cons, List.not_mem_nil, or_false]
    constructor
    · rintro ⟨row', ⟨y, member, rfl | rfl⟩, same⟩
      · exact ⟨y, member, .inl same⟩
      · exact ⟨y, member, .inr same⟩
    · rintro ⟨y, member, same | same⟩
      · exact ⟨_, ⟨y, member, .inl rfl⟩, same⟩
      · exact ⟨_, ⟨y, member, .inr rfl⟩, same⟩
  by_cases member : x ∈ exchanges
  · rw [if_pos member, ChatExchange.persist, ChatExchange.insertRow, ChatExchange.insertRow,
      if_pos (present.mpr ⟨x, member, .inl rfl⟩), if_pos (present.mpr ⟨x, member, .inr rfl⟩)]
    exact holds
  · have other : ∀ y ∈ exchanges, y.messageId ≠ x.messageId :=
      fun y listed same => member (known y listed same ▸ listed)
    have user : ¬ table.any (·.messageId = x.userRow.messageId) = true := by
      rw [present]
      rintro ⟨y, listed, same | same⟩
      · exact other y listed (messageId_inj.1.mp same)
      · exact messageId_ne same.symm
    have answer : ¬ (table ++ [x.userRow]).any (·.messageId = x.answerRow.messageId) = true := by
      rw [List.any_append, Bool.or_eq_true, not_or, present]
      refine ⟨?_, by simpa using messageId_ne⟩
      rintro ⟨y, listed, same | same⟩
      · exact messageId_ne same
      · exact other y listed (messageId_inj.2.mp same)
    have first : ChatExchange.insertRow table x.userRow = table ++ [x.userRow] := if_neg user
    have second : ChatExchange.insertRow (table ++ [x.userRow]) x.answerRow =
        table ++ [x.userRow] ++ [x.answerRow] := if_neg answer
    rw [if_neg member, ChatExchange.persist, first, second, List.flatMap_append, List.append_assoc]
    exact holds.append_right _

/-- What any runs of `persist` leave: the rows of each exchange that was in some body. -/
theorem persisted_rows (codec : JsonCodec) (bodies : List Bytes)
    (known : ∀ b ∈ bodies, ∀ b' ∈ bodies, ∀ x y, ChatExchange.parse codec b = some x →
      ChatExchange.parse codec b' = some y → y.messageId = x.messageId → y = x) :
    ∃ exchanges : List ChatExchange, exchanges.Nodup ∧
      (∀ x, x ∈ exchanges ↔ ∃ b ∈ bodies, ChatExchange.parse codec b = some x) ∧
      (bodies.foldl (persistBody codec) []).Perm (exchanges.flatMap ChatExchange.rows) := by
  induction bodies using List.reverseRecOn with
  | nil => exact ⟨[], .nil, by simp, .nil⟩
  | append_singleton bodies body ih =>
      obtain ⟨exchanges, nodup, exact_, holds⟩ := ih fun b member b' member' =>
        known b (List.mem_append_left _ member) b' (List.mem_append_left _ member')
      rw [List.foldl_append, List.foldl_cons, List.foldl_nil, persistBody]
      cases read : ChatExchange.parse codec body with
      | none =>
          refine ⟨exchanges, nodup, fun x => ?_, holds⟩
          rw [exact_]
          simp [or_and_right, exists_or, read]
      | some x =>
          refine ⟨_, ?_, fun y => ?_, persist_rows holds fun y listed same => ?_⟩
          · split
            · exact nodup
            · next new => exact List.nodup_append.mpr ⟨nodup, List.nodup_singleton x, by
                rintro y listed z here rfl
                rw [List.mem_singleton.mp here] at listed
                exact new listed⟩
          · have listed : y ∈ (if x ∈ exchanges then exchanges else exchanges ++ [x]) ↔
                y ∈ exchanges ∨ y = x := by
              split
              · next old => exact ⟨.inl, fun | .inl listed => listed | .inr same => same ▸ old⟩
              · simp
            rw [listed, exact_]
            simp [or_and_right, exists_or, read, eq_comm]
          · obtain ⟨b, member, parsed⟩ := (exact_ y).mp listed
            exact known body (by simp) b (List.mem_append_left _ member) x y read parsed same

/-! ## The sessions in memory -/

/-- Sessions that committed exchanges to empty helpers, and the accepted queue bodies. -/
inductive Built (codec : JsonCodec) : (Int → Bytes → AIHelper) → List Bytes → Prop
  | empty : Built codec (fun _ _ => {}) []
  | commit {chats : Int → Bytes → AIHelper} {bodies : List Bytes} {call : Call} {env : Environment}
      {answer body : Bytes} {helper : AIHelper} :
    Built codec chats bodies → IsLongLong env.clock →
    AIHelper.commitExchange codec call env answer (chats call.userId.toInt call.sessionId) =
      ([.published (bytes "sql_queue") body true], helper, .ok ()) →
    Built codec
      (fun u s => if call.userId.toInt = u ∧ call.sessionId = s then helper else chats u s)
      (bodies ++ [body])

/-- The exchanges of one session. -/
def sessionOf (u : Int) (s : Bytes) (exchanges : List ChatExchange) : List ChatExchange :=
  exchanges.filter fun x => x.userId.toInt = u ∧ x.sessionId = s

/-- `ORDER BY ts ASC, id ASC`. -/
def ChatRow.Before (a b : ChatRow) : Prop := a.ts < b.ts ∨ a.ts = b.ts ∧ a.id ≤ b.id

theorem foldl_append_eq (exchanges : List ChatExchange) (helper : AIHelper) :
    exchanges.foldl .append helper =
      { helper with
        messages := helper.messages ++ exchanges.flatMap ChatExchange.lines
        messageRoles_ := helper.messageRoles_ ++ exchanges.flatMap fun _ => [true, false] } := by
  induction exchanges generalizing helper with
  | nil => simp
  | cons x rest ih => simp [ih, AIHelper.append]

/-- Each session holds its exchanges, whose timestamps leave room for both messages. -/
structure Sessions (codec : JsonCodec) (chats : Int → Bytes → AIHelper) (bodies : List Bytes)
    (exchanges : List ChatExchange) : Prop where
  parsed : bodies.map (ChatExchange.parse codec) = exchanges.map some
  valid : ∀ x ∈ exchanges, x.Valid
  held (u : Int) (s : Bytes) : chats u s = (sessionOf u s exchanges).foldl .append {}
  canonical (u : Int) (s : Bytes) : (chats u s).Canonical
  apart (u : Int) (s : Bytes) : (sessionOf u s exchanges).Pairwise fun x y => x.ts + 1 < y.ts

theorem Built.sessions {codec : JsonCodec} (lawful : codec.Lawful) {chats : Int → Bytes → AIHelper}
    {bodies : List Bytes} (built : Built codec chats bodies) :
    ∃ exchanges, Sessions codec chats bodies exchanges := by
  induction built with
  | empty =>
      have canonical : ({} : AIHelper).Canonical := ⟨rfl, rfl, by simp, .nil⟩
      exact ⟨[], rfl, by simp, fun _ _ => rfl, fun _ _ => canonical, fun _ _ => .nil⟩
  | @commit chats bodies call env answer body helper _ clock committed ih =>
      obtain ⟨exchanges, sessions⟩ := ih
      rcases commitExchange_spec lawful (sessions.canonical _ _) clock committed with
        ⟨⟨what, thrown⟩, -⟩ | ⟨x, -, rfl, -, sent, later⟩
      · cases thrown
      have written : Written codec call body x := by
        cases sent with
        | accepted written => exact written
      have key (u : Int) (s : Bytes) : sessionOf u s (exchanges ++ [x]) =
          if call.userId.toInt = u ∧ call.sessionId = s then sessionOf u s exchanges ++ [x]
          else sessionOf u s exchanges := by
        rw [sessionOf, List.filter_append, ← written.userId, ← written.sessionId]
        by_cases here : x.userId.toInt = u ∧ x.sessionId = s
        · rw [if_pos here, List.filter_cons_of_pos (by simpa using here)]
          rfl
        · rw [if_neg here, List.filter_cons_of_neg (by simpa using here), List.filter_nil,
            List.append_nil]
          rfl
      have valid := written.writtenAs.valid
      refine ⟨exchanges ++ [x], ?_, ?_, fun u s => ?_, fun u s => ?_, fun u s => ?_⟩
      · rw [List.map_append, List.map_append, sessions.parsed, List.map_singleton,
          List.map_singleton, written.writtenAs.parsed]
      · intro y member
        rcases List.mem_append.mp member with old | new
        · exact sessions.valid y old
        · exact List.mem_singleton.mp new ▸ valid
      · rw [key]
        split
        · next here =>
            obtain ⟨rfl, rfl⟩ := here
            rw [List.foldl_append, ← sessions.held]
            rfl
        · exact sessions.held u s
      · split
        · exact (sessions.canonical _ _).append valid later
        · exact sessions.canonical u s
      · rw [key]
        split
        · next here =>
            obtain ⟨rfl, rfl⟩ := here
            refine List.pairwise_append.mpr
              ⟨sessions.apart _ _, List.pairwise_singleton _ _, fun y old z new => ?_⟩
            rw [List.mem_singleton.mp new]
            refine later (y.answer, y.ts + 1) ?_
            rw [sessions.held, foldl_append_eq]
            exact List.mem_append_right _ (List.mem_flatMap.mpr ⟨y, old, by simp [ChatExchange.lines]⟩)
        · exact sessions.apart u s

/-! ## Reading back -/

theorem rowsOf_flatMap (u : Int) (s : Bytes) (exchanges : List ChatExchange) :
    rowsOf u s (exchanges.flatMap ChatExchange.rows) =
      (sessionOf u s exchanges).flatMap ChatExchange.rows := by
  induction exchanges with
  | nil => rfl
  | cons x rest ih =>
      unfold rowsOf sessionOf at *
      rw [List.flatMap_cons, List.filter_append, ih]
      by_cases here : x.userId.toInt = u ∧ x.sessionId = s
      · rw [List.filter_cons_of_pos (by simpa using here), List.flatMap_cons]
        simp [ChatExchange.rows, ChatExchange.userRow, ChatExchange.answerRow, here]
      · rw [List.filter_cons_of_neg (by simpa using here)]
        simp [ChatExchange.rows, ChatExchange.userRow, ChatExchange.answerRow, here]

/-- The rows of a session's exchanges give the helper that committed them. -/
theorem helperOf_rows (exchanges : List ChatExchange) :
    helperOf (exchanges.flatMap ChatExchange.rows) =
      if (exchanges.foldl .append ({} : AIHelper)).messages = [] then none
      else some (exchanges.foldl .append {}) := by
  rw [foldl_append_eq]
  cases exchanges with
  | nil => rfl
  | cons x rest =>
      simp [helperOf, ChatExchange.rows, ChatExchange.lines, ChatExchange.userRow,
        ChatExchange.answerRow, List.map_flatMap]
      rfl

theorem ChatExchange.Valid.readable {x : ChatExchange} (valid : x.Valid) :
    ∀ row ∈ x.rows, row.Readable := by
  intro row member
  have bounds : 0 < x.userId.toInt ∧ x.userId.toInt ≤ Int32.maxValue.toInt :=
    ⟨valid.userId, x.userId.toInt_le⟩
  simp only [ChatExchange.rows, List.mem_cons, List.not_mem_nil, or_false] at member
  rcases member with rfl | rfl
  · exact ⟨bounds, .inr rfl⟩
  · exact ⟨bounds, .inl rfl⟩

/-- Sorted rows that are the rows of apart exchanges, in some order, are in their order. -/
theorem sorted_eq {rows : List ChatRow} {exchanges : List ChatExchange}
    (perm : rows.Perm (exchanges.flatMap ChatExchange.rows))
    (sorted : rows.Pairwise fun a b => a.ts ≤ b.ts)
    (apart : exchanges.Pairwise fun x y => x.ts + 1 < y.ts) :
    rows = exchanges.flatMap ChatExchange.rows := by
  have strict : (exchanges.flatMap ChatExchange.rows).Pairwise fun a b => a.ts < b.ts := by
    refine List.pairwise_flatMap.mpr ⟨fun x _ => ?_, apart.imp fun {x y} before a first b second => ?_⟩
    · simp [ChatExchange.rows, ChatExchange.userRow, ChatExchange.answerRow]
    · simp only [ChatExchange.rows, List.mem_cons, List.not_mem_nil, or_false] at first second
      rcases first with rfl | rfl <;> rcases second with rfl | rfl <;>
        simp only [ChatExchange.userRow, ChatExchange.answerRow] <;> omega
  have nodup : ((exchanges.flatMap ChatExchange.rows).map (·.ts)).Nodup :=
    List.pairwise_map.mpr (strict.imp fun less => less.ne)
  refine perm.eq_of_pairwise (fun a b inRows inAll le ge => ?_) sorted (strict.imp fun less => less.le)
  exact List.inj_on_of_nodup_map nodup (perm.mem_iff.mp inRows) inAll (le_antisymm le ge)

variable {codec : JsonCodec} {chats : Int → Bytes → AIHelper} {bodies executed : List Bytes}
  {rows : List ChatRow}

/-- Persist-then-restore is the identity: when every accepted body was persisted, in any
order and any number of times, the restored helpers are those in memory. -/
theorem restore_persisted (lawful : codec.Lawful) (built : Built codec chats bodies)
    (distinct : ((bodies.filterMap (ChatExchange.parse codec)).map (·.messageId)).Nodup)
    (only : ∀ body ∈ executed, body ∈ bodies) (all : ∀ body ∈ bodies, body ∈ executed)
    (stored : rows.Perm (executed.foldl (persistBody codec) [])) (ordered : rows.Pairwise ChatRow.Before) :
    ∃ maps, readDataFromMySQL rows = .ok maps ∧ maps.Indexed ∧
      ∀ u s, maps.helper? u s = if (chats u s).messages = [] then none else some (chats u s) := by
  obtain ⟨exchanges, sessions⟩ := built.sessions lawful
  have parsed : bodies.filterMap (ChatExchange.parse codec) = exchanges :=
    calc bodies.filterMap (ChatExchange.parse codec)
      _ = (bodies.map (ChatExchange.parse codec)).filterMap id := by rw [List.filterMap_map]; rfl
      _ = exchanges := by rw [sessions.parsed, List.filterMap_map]; exact List.filterMap_some
  have member {x : ChatExchange} :
      x ∈ exchanges ↔ ∃ body ∈ bodies, ChatExchange.parse codec body = some x := by
    rw [← parsed, List.mem_filterMap]
  rw [parsed] at distinct
  obtain ⟨kept, nodup, exact_, table⟩ := persisted_rows codec executed
    fun b inBodies b' inBodies' x y first second same => by
      refine List.inj_on_of_nodup_map distinct (member.mpr ⟨b', only b' inBodies', second⟩)
        (member.mpr ⟨b, only b inBodies, first⟩) same
  have same : kept.Perm exchanges := by
    refine (List.perm_ext_iff_of_nodup nodup (List.Nodup.of_map _ distinct)).mpr fun x => ?_
    rw [exact_, member]
    exact ⟨fun ⟨b, inBodies, read⟩ => ⟨b, only b inBodies, read⟩,
      fun ⟨b, inBodies, read⟩ => ⟨b, all b inBodies, read⟩⟩
  have perm : rows.Perm (exchanges.flatMap ChatExchange.rows) :=
    stored.trans (table.trans (same.flatMap_right _))
  have readable : ∀ row ∈ rows, row.Readable := by
    intro row inRows
    obtain ⟨x, inExchanges, isRow⟩ := List.mem_flatMap.mp (perm.mem_iff.mp inRows)
    exact (sessions.valid x inExchanges).readable row isRow
  obtain ⟨maps, read, indexed, groups⟩ := readDataFromMySQL_spec readable
  refine ⟨maps, read, indexed, fun u s => ?_⟩
  have sorted : (rowsOf u s rows).Pairwise fun a b => a.ts ≤ b.ts := by
    refine (ordered.filter _).imp fun before => ?_
    rcases before with less | ⟨equal, -⟩
    · exact less.le
    · exact equal.le
  have group : (rowsOf u s rows).Perm ((sessionOf u s exchanges).flatMap ChatExchange.rows) := by
    rw [← rowsOf_flatMap]
    exact perm.filter _
  rw [groups, sorted_eq group sorted (sessions.apart u s), helperOf_rows, ← sessions.held]

/-! ## One exchange, persisted twice -/

def onlyExchange : ChatExchange :=
  ⟨List.replicate 32 97, 7, bytes "ann", bytes "s1", bytes "hi", bytes "yo", 5⟩

def onlyBody : Bytes := (onlyExchange.serialize flatCodec).getD []

theorem onlyBody_written : onlyExchange.serialize flatCodec = some onlyBody := by decide +kernel

theorem onlyBody_parsed : ChatExchange.parse flatCodec onlyBody = some onlyExchange := by
  refine ChatExchange.parse_of_valid flatCodec_lawful onlyBody_written ?_
  rw [ChatExchange.valid_iff]
  decide +kernel

set_option maxRecDepth 20000 in
theorem restore_persisted_twice : ∃ maps,
    readDataFromMySQL [onlyExchange.userRow, onlyExchange.answerRow] = .ok maps ∧
    (maps.helper? 7 (bytes "s1")).map (·.messages) = some onlyExchange.lines := by
  have committed : AIHelper.commitExchange flatCodec firstCall firstEnvironment (bytes "yo") {} =
      ([.published (bytes "sql_queue") onlyBody true], AIHelper.append {} onlyExchange, .ok ()) := by
    change AIHelper.submit flatCodec firstEnvironment onlyExchange {} = _
    rw [AIHelper.submit, onlyBody_written]
    dsimp only
    rw [onlyBody_parsed]
    rfl
  have built := Built.commit .empty (by decide) committed
  have stored : [onlyExchange.userRow, onlyExchange.answerRow].Perm
      ([onlyBody, onlyBody].foldl (persistBody flatCodec) []) := by
    simp only [List.foldl_cons, List.foldl_nil, persistBody, onlyBody_parsed]
    decide +kernel
  have only : ∀ body ∈ [onlyBody, onlyBody], body ∈ [] ++ [onlyBody] := by simp
  obtain ⟨maps, read, -, helpers⟩ := restore_persisted flatCodec_lawful built
    (by simp [onlyBody_parsed]) only (by simp) stored
    (by simp [ChatRow.Before]; decide)
  refine ⟨maps, read, ?_⟩
  rw [helpers]
  decide +kernel

end AIService.Chat
