import AIService.Chat.Restore

/-!
# Replacing the maps

`readDataFromMySQL` builds its maps beside the live ones and swaps them in when the query is over.
`Grouped` says what the maps are for some rows; an exception at any point leaves the live maps as
they were (`readDataFromMySQL_cases`), so `waitForDependencies` may call it again.
-/

namespace AIService.Chat

/-- An exception of a step of a query. -/
inductive Failure
  /-- An `sql::SQLException`. -/
  | sql
  | other (what : Bytes)
deriving DecidableEq, Repr

/-- The text after `consumeQuery`, which makes every `SQLException` a `DbException`. -/
def Failure.what : Failure → Bytes
  | .sql => bytes "Database query failed"
  | .other what => what

/-- A query as the database runs it. -/
structure Query where
  /-- The lease of a connection, `prepareStatement` and `executeQuery`. -/
  opened : Except Failure Unit := .ok ()
  /-- What each `next` gives; an exception is its own or that of a getter. -/
  fetched : List (Except Failure ChatRow)
  /-- The completion of the statement. -/
  closed : Except Failure Unit := .ok ()

def consumeQuery {α : Type} (q : Query) (consume : List (Except Failure ChatRow) → Except Failure α) :
    Except Bytes α :=
  Except.mapError Failure.what do
    q.opened
    let value ← consume q.fetched
    q.closed
    return value

/-- One turn of the loop over the result set, which fetches a row first. -/
def restoreNext (restored : ChatMaps) (next : Except Failure ChatRow) : Except Failure ChatMaps := do
  let row ← next
  (restoreRow restored row).mapError .other

def restoreRows (fetched : List (Except Failure ChatRow)) : Except Failure ChatMaps :=
  fetched.foldlM restoreNext {}

/-- `ChatServer::readDataFromMySQL`. -/
def ChatMaps.readDataFromMySQL (live : ChatMaps) (q : Query) : Except Bytes Unit × ChatMaps :=
  match consumeQuery q restoreRows with
  | .error what => (.error what, live)
  | .ok restored => (.ok (), restored)

/-- The loop of `waitForDependencies`, with the attempts that are left. -/
def attempts (query : Nat → Query) (retry : Nat) : Nat → ChatMaps → Bool × ChatMaps
  | 0, live => (false, live)
  | left + 1, live =>
      match live.readDataFromMySQL (query retry) with
      | (.ok (), restored) => (true, restored)
      | (.error _, live) => attempts query (retry + 1) left live

def waitForDependencies (query : Nat → Query) (live : ChatMaps) (maxRetries : Nat := 30) :
    Bool × ChatMaps :=
  attempts query 0 maxRetries live

/-! ## What is restored -/

/-- The maps group the rows: a helper for each user and session that some row has, with its rows in
their order, and the user's session ids in the order of their first rows. -/
structure Grouped (rows : List ChatRow) (maps : ChatMaps) : Prop where
  exists_iff (u : Int) (s : Bytes) :
    (∃ helper, maps.helper? u s = some helper) ↔ ∃ row ∈ rows, row.id = u ∧ row.sessionId = s
  contents (u : Int) (s : Bytes) (helper : AIHelper) : maps.helper? u s = some helper →
    helper.messages = (rowsOf u s rows).map (fun row => (row.content, row.ts)) ∧
      helper.messageRoles_ = (rowsOf u s rows).map fun row => row.isUser == 1
  ids (u : Int) :
    maps.ids u = ((rows.filter fun row => row.id = u).map ChatRow.sessionId).eraseDups

section

variable {maps maps' : ChatMaps} {row : ChatRow} {rows : List ChatRow}

theorem restoreRow_ids (restored : restoreRow maps row = .ok maps') (u : Int) :
    maps'.ids u = if row.id = u ∧ maps.helper? row.id row.sessionId = none then
      maps.ids u ++ [row.sessionId] else maps.ids u := by
  unfold restoreRow at restored
  split at restored
  · cases restored
  · split at restored
    · cases restored
    · split at restored
      · next helper found =>
          cases restored
          rw [found, if_neg (by simp)]
          rfl
      · next absent =>
          cases restored
          rw [ChatMaps.ids_pushId, ChatMaps.ids_setHelper, absent]
          simp

/-- There is a helper for a session when the session has a row. -/
theorem helperOf_rowsOf (u : Int) (s : Bytes) :
    helperOf (rowsOf u s rows) = none ↔ ¬ ∃ row ∈ rows, row.id = u ∧ row.sessionId = s := by
  constructor
  · rintro absent ⟨row, listed, same⟩
    have member : row ∈ rowsOf u s rows := List.mem_filter.mpr ⟨listed, decide_eq_true same⟩
    cases group : rowsOf u s rows with
    | nil =>
        rw [group] at member
        cases member
    | cons first rest =>
        rw [group] at absent
        cases absent
  · intro nothing
    have empty : rowsOf u s rows = [] := List.filter_eq_nil_iff.mpr fun row listed same =>
      nothing ⟨row, listed, of_decide_eq_true same⟩
    rw [empty]
    rfl

/-- A session is named by its first row. -/
theorem readDataFromMySQL_ids (read : readDataFromMySQL rows = .ok maps) (u : Int) :
    maps.ids u = ((rows.filter fun row => row.id = u).map ChatRow.sessionId).eraseDups := by
  induction rows using List.reverseRecOn generalizing maps with
  | nil =>
      cases read
      rfl
  | append_singleton rows row ih =>
      obtain ⟨maps', before, last⟩ := readDataFromMySQL_concat.mp read
      obtain ⟨-, groups⟩ := read_spec before
      rw [restoreRow_ids last u, List.filter_append, List.map_append, List.eraseDups_append,
        ih before, groups]
      by_cases user : row.id = u
      · subst user
        have alone : [row].filter (fun r => r.id = row.id) = [row] :=
          List.filter_cons_of_pos (decide_eq_true rfl)
        have known : (∃ r ∈ rows, r.id = row.id ∧ r.sessionId = row.sessionId) ↔
            row.sessionId ∈ (rows.filter fun r => r.id = row.id).map ChatRow.sessionId := by
          simp only [List.mem_map, List.mem_filter, decide_eq_true_eq, and_assoc]
        have absent := (helperOf_rowsOf row.id row.sessionId).trans (not_congr known)
        rw [alone, List.map_singleton, List.cons_removeAll, List.nil_removeAll]
        by_cases listed : row.sessionId ∈ (rows.filter fun r => r.id = row.id).map ChatRow.sessionId
        · rw [if_neg fun here => absent.mp here.2 listed, if_neg fun fresh => by
            rw [List.contains_iff_mem.mpr listed] at fresh
            cases fresh]
          exact (List.append_nil _).symm
        · rw [if_pos ⟨rfl, absent.mpr listed⟩, if_pos (by simpa using listed)]
          rfl
      · have other : [row].filter (fun r => r.id = u) = [] :=
          List.filter_cons_of_neg fun same => user (of_decide_eq_true same)
        rw [if_neg fun here => user here.1, other, List.map_nil]
        exact (List.append_nil _).symm

theorem grouped_of_read (read : readDataFromMySQL rows = .ok maps) : Grouped rows maps := by
  obtain ⟨-, groups⟩ := read_spec read
  refine ⟨fun u s => ?_, fun u s helper here => ?_, readDataFromMySQL_ids read⟩
  · rw [groups, ← not_iff_not, not_exists, ← helperOf_rowsOf]
    exact Option.eq_none_iff_forall_ne_some.symm
  · rw [groups] at here
    cases group : rowsOf u s rows with
    | nil =>
        rw [group] at here
        cases here
    | cons first rest =>
        rw [group] at here
        cases here
        exact ⟨rfl, rfl⟩

end

/-! ## One query, and many -/

section

variable {fetched : List (Except Failure ChatRow)} {q : Query} {live maps : ChatMaps}

theorem restoreRows_map (rows : List ChatRow) :
    restoreRows (rows.map .ok) = (readDataFromMySQL rows).mapError .other := by
  induction rows using List.reverseRecOn with
  | nil => rfl
  | append_singleton rows row ih =>
      unfold restoreRows readDataFromMySQL at ih ⊢
      rw [List.map_append, List.foldlM_append, List.foldlM_append, ih]
      cases rows.foldlM restoreRow {} with
      | error what => rfl
      | ok maps =>
          change ((restoreRow maps row).mapError Failure.other >>= pure) =
            (restoreRow maps row >>= pure).mapError Failure.other
          rw [bind_pure, bind_pure]

/-- An exception of a row ends the loop. -/
theorem fetched_of_ok {start : ChatMaps} (restored : fetched.foldlM restoreNext start = .ok maps) :
    ∃ rows : List ChatRow, fetched = rows.map .ok := by
  induction fetched generalizing start with
  | nil => exact ⟨[], rfl⟩
  | cons next rest ih =>
      rw [List.foldlM_cons] at restored
      cases next with
      | error what => cases restored
      | ok row =>
          change ((restoreRow start row).mapError Failure.other >>= fun m => rest.foldlM restoreNext m) =
            _ at restored
          cases step : restoreRow start row with
          | error what =>
              rw [step] at restored
              cases restored
          | ok start' =>
              rw [step] at restored
              obtain ⟨rows, rfl⟩ := ih restored
              exact ⟨row :: rows, rfl⟩

theorem restoreRows_ok : restoreRows fetched = .ok maps ↔
    ∃ rows, fetched = rows.map .ok ∧ readDataFromMySQL rows = .ok maps := by
  constructor
  · intro restored
    obtain ⟨rows, rfl⟩ := fetched_of_ok restored
    rw [restoreRows_map] at restored
    cases read : readDataFromMySQL rows with
    | error what =>
        rw [read] at restored
        cases restored
    | ok maps' =>
        rw [read] at restored
        cases restored
        exact ⟨rows, rfl, read⟩
  · rintro ⟨rows, rfl, read⟩
    rw [restoreRows_map, read]
    rfl

/-- A query that raises no exception, with these rows. -/
structure Query.Succeeds (q : Query) (rows : List ChatRow) : Prop where
  opened : q.opened = .ok ()
  fetched : q.fetched = rows.map .ok
  readable : ∀ row ∈ rows, row.Readable
  closed : q.closed = .ok ()

theorem consumeQuery_ok : consumeQuery q restoreRows = .ok maps ↔
    ∃ rows, q.Succeeds rows ∧ readDataFromMySQL rows = .ok maps := by
  unfold consumeQuery
  constructor
  · intro consumed
    cases opened : q.opened with
    | error what =>
        rw [opened] at consumed
        cases consumed
    | ok =>
        cases restored : restoreRows q.fetched with
        | error what =>
            rw [opened, restored] at consumed
            cases consumed
        | ok maps' =>
            cases closed : q.closed with
            | error what =>
                rw [opened, restored, closed] at consumed
                cases consumed
            | ok =>
                rw [opened, restored, closed] at consumed
                cases consumed
                obtain ⟨rows, fetched, read⟩ := restoreRows_ok.mp restored
                exact ⟨rows, ⟨opened, fetched, readDataFromMySQL_readable read, closed⟩, read⟩
  · rintro ⟨rows, ⟨opened, fetched, -, closed⟩, read⟩
    rw [opened, restoreRows_ok.mpr ⟨rows, fetched, read⟩, closed]
    rfl

/-- The maps change when the query succeeds, and only then. -/
theorem readDataFromMySQL_cases (live : ChatMaps) (q : Query) :
    ((∀ rows, ¬ q.Succeeds rows) ∧ ∃ what, live.readDataFromMySQL q = (.error what, live)) ∨
      ∃ rows maps, q.Succeeds rows ∧ Grouped rows maps ∧
        ∀ live : ChatMaps, live.readDataFromMySQL q = (.ok (), maps) := by
  unfold ChatMaps.readDataFromMySQL
  cases consumed : consumeQuery q restoreRows with
  | error what =>
      refine .inl ⟨fun rows succeeds => ?_, what, rfl⟩
      obtain ⟨maps, read, -⟩ := readDataFromMySQL_spec succeeds.readable
      rw [consumeQuery_ok.mpr ⟨rows, succeeds, read⟩] at consumed
      cases consumed
  | ok maps =>
      obtain ⟨rows, succeeds, read⟩ := consumeQuery_ok.mp consumed
      exact .inr ⟨rows, maps, succeeds, grouped_of_read read, fun _ => rfl⟩

/-- The first attempt that succeeds decides. -/
theorem attempts_of_success {query : Nat → Query} {retry failures left : Nat}
    (failed : ∀ i < failures, ∃ what, (live.readDataFromMySQL (query (retry + i))).1 = .error what)
    (succeeded : live.readDataFromMySQL (query (retry + failures)) = (.ok (), maps))
    (enough : failures < left) : attempts query retry left live = (true, maps) := by
  induction failures generalizing retry left with
  | zero =>
      obtain ⟨left, rfl⟩ := Nat.exists_eq_add_of_lt enough
      rw [attempts]
      rw [Nat.add_zero] at succeeded
      rw [succeeded]
  | succ failures ih =>
      cases left with
      | zero => cases enough
      | succ left =>
          have first := failed 0 (Nat.zero_lt_succ _)
          rw [Nat.add_zero] at first
          obtain ⟨what, first⟩ := first
          rw [attempts]
          rcases readDataFromMySQL_cases live (query retry) with ⟨-, what', unchanged⟩ | ⟨_, _, _, _, ok⟩
          · rw [unchanged]
            refine ih (fun i less => ?_) ?_ (Nat.lt_of_succ_lt_succ enough)
            · have later := failed (i + 1) (Nat.succ_lt_succ less)
              rw [← Nat.add_assoc, Nat.add_right_comm] at later
              exact later
            · rw [← Nat.add_assoc, Nat.add_right_comm] at succeeded
              exact succeeded
          · rw [ok live] at first
            cases first

end

/-- A restore either throws and leaves the maps as they are, or all rows could be read and the maps
become their grouping; failed attempts before it make no difference. -/
theorem restore_atomic (live : ChatMaps) (q : Query) :
    ((∃ what, live.readDataFromMySQL q = (.error what, live)) ∧ (∀ rows, ¬ q.Succeeds rows) ∨
      ∃ rows maps, live.readDataFromMySQL q = (.ok (), maps) ∧ q.Succeeds rows ∧
        Grouped rows maps) ∧
    ∀ (query : Nat → Query) (failures maxRetries : Nat) (maps : ChatMaps), failures < maxRetries →
      (∀ i < failures, ∃ what, (live.readDataFromMySQL (query i)).1 = .error what) →
      live.readDataFromMySQL (query failures) = (.ok (), maps) →
      waitForDependencies query live maxRetries = (true, maps) := by
  refine ⟨?_, fun query failures maxRetries maps enough failed succeeded => ?_⟩
  · rcases readDataFromMySQL_cases live q with ⟨never, failed⟩ | ⟨rows, maps, succeeds, grouped, ok⟩
    · exact .inl ⟨failed, never⟩
    · exact .inr ⟨rows, maps, ok live, succeeds, grouped⟩
  · have start (i : Nat) : 0 + i = i := Nat.zero_add i
    refine attempts_of_success (fun i less => ?_) ?_ enough
    · rw [start]
      exact failed i less
    · rw [start]
      exact succeeded

/-- The second attempt restores the only row. -/
theorem restore_atomic_second : ∃ maps : ChatMaps,
    waitForDependencies (fun retry => ⟨if retry = 0 then .error .sql else .ok (),
      [.ok ⟨none, 7, bytes "ann", bytes "s1", 1, bytes "hi", 100⟩], .ok ()⟩) {} 30 = (true, maps) ∧
    maps.ids 7 = [bytes "s1"] := by
  have retries := (restore_atomic {} ⟨.ok (), [], .ok ()⟩).2
  refine ⟨_, retries _ 1 30 _ (by decide) (fun i less => ⟨bytes "Database query failed", ?_⟩) rfl, rfl⟩
  obtain rfl : i = 0 := by omega
  rfl

end AIService.Chat
