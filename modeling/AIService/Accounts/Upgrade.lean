import AIService.Accounts.StoredFormat
import AIService.Accounts.Users
import AIService.Run

/-!
# The upgrade of plaintext passwords

`queryUserId` reads the stored credential, and replaces a plaintext one that it verified by a
hash.  `Step` interleaves any number of these calls for one account with changes of
passwords from elsewhere, each statement being one step.
-/

namespace AIService.Upgrade

open Accounts

/-- How far `queryUserId` has come. -/
inductive Stage
  | arrived
  /-- `verifyLegacy` accepted the password of this row. -/
  | verified (account : User)
  | hashed (account : User) (encoded : Bytes)
  | returned (userId : Int)
  /-- `PasswordUtil::hash` threw. -/
  | threw

inductive Event (ι : Type)
  /-- What the `SELECT` of a call found. -/
  | selected (i : ι) (account : Option User)
  /-- The `UPDATE` of a call changed the row. -/
  | replaced (i : ι) (old encoded : Bytes)
  | returned (i : ι) (userId : Int)
  /-- Passwords were changed elsewhere; this is what the account has now. -/
  | changed (password : Option Bytes)
deriving DecidableEq

structure World (ι : Type) where
  users : Users
  stage : ι → Stage := fun _ => .arrived

variable {ι : Type} [DecidableEq ι] (kdf : Pbkdf2) (username : Bytes) (password : ι → Bytes)

def World.moveTo (w : World ι) (i : ι) (stage : Stage) : World ι :=
  { w with stage := Function.update w.stage i stage }

/-- `queryUserId`, from the row that the `SELECT` found to the next statement. -/
def examine (presented : Bytes) : Option User → Stage
  | none => .returned (-1)
  | some account =>
      if isHash account.password then
        .returned (if verify kdf presented account.password then account.id else -1)
      else if !verifyLegacy presented account.password then .returned (-1)
      else .verified account

/-- The observation of a call that has returned. -/
def report (i : ι) : Stage → List (Event ι)
  | .returned userId => [.returned i userId]
  | _ => []

inductive Step : World ι → List (Event ι) → World ι → Prop
  | select {w : World ι} (i : ι) :
    w.stage i = .arrived →
    Step w
      (.selected i (w.users.find? username) ::
        report i (examine kdf (password i) (w.users.find? username)))
      (w.moveTo i (examine kdf (password i) (w.users.find? username)))
  | hash {w : World ι} (i : ι) (salt : Option Salt) {account : User} {encoded : Bytes} :
    w.stage i = .verified account → Accounts.hash kdf salt (password i) = some encoded →
    Step w [] (w.moveTo i (.hashed account encoded))
  | throw {w : World ι} (i : ι) (salt : Option Salt) {account : User} :
    w.stage i = .verified account → Accounts.hash kdf salt (password i) = none →
    Step w [] (w.moveTo i .threw)
  /-- The `UPDATE` finds the credential that was verified. -/
  | replace {w : World ι} (i : ι) {account : User} {encoded : Bytes} {users : Users} :
    w.stage i = .hashed account encoded →
    w.users.replacePassword encoded account.id account.password = (1, users) →
    Step w [.replaced i account.password encoded, .returned i account.id]
      { w.moveTo i (.returned account.id) with users := users }
  | miss {w : World ι} (i : ι) {account : User} {encoded : Bytes} {changed : Nat} {users : Users} :
    w.stage i = .hashed account encoded → changed ≠ 1 →
    w.users.replacePassword encoded account.id account.password = (changed, users) →
    Step w [.returned i (-1)] { w.moveTo i (.returned (-1)) with users := users }
  /-- Passwords change elsewhere. -/
  | change {w : World ι} (change : User → Bytes) :
    Step w [.changed (((w.users.mapPassword change).find? username).map (·.password))]
      { w with users := w.users.mapPassword change }

/-! ## What the account has stored, from the trace -/

/-- The credential after the events. -/
def current (start : Option Bytes) (tr : List (Event ι)) : Option Bytes :=
  tr.foldl (fun stored event =>
    match event with
    | .changed password => password
    | .replaced _ _ encoded => some encoded
    | _ => stored) start

/-- The credential last set from elsewhere. -/
def lastSet (start : Option Bytes) (tr : List (Event ι)) : Option Bytes :=
  tr.foldl (fun stored event =>
    match event with
    | .changed password => password
    | _ => stored) start

/-- `queryUserId` takes the password for this credential. -/
def Accepts (stored presented : Bytes) : Prop :=
  if isHash stored then verify kdf presented stored = true else presented = stored

/-- What each event of a run says of the events before it. -/
def Sound (start : Option Bytes) (before : List (Event ι)) : Event ι → Prop
  | .selected i account =>
      account.map (·.password) = current start before ∧ ∀ account', .selected i account' ∉ before
  | .replaced i old encoded =>
      (∃ account, .selected i (some account) ∈ before ∧ account.password = old) ∧
        isHash old = false ∧ password i = old ∧ current start before = some old ∧
          isHash encoded = true ∧ ∀ presented, verify kdf presented encoded = true ↔ presented = old
  | .returned i userId =>
      userId ≠ -1 → ∃ account, .selected i (some account) ∈ before ∧ account.id = userId ∧
        Accepts kdf account.password (password i) ∧
          (isHash account.password = false →
            ∃ encoded, .replaced i account.password encoded ∈ before)
  | .changed _ => True

/-! ## The invariant -/

/-- A call has verified the plaintext password of the row `account`. -/
structure Verified (tr : List (Event ι)) (users : Users) (i : ι) (account : User) : Prop where
  seen : .selected i (some account) ∈ tr
  plain : isHash account.password = false
  same : password i = account.password
  row : (users.find? username).map (·.id) = some account.id

/-- What the stage of a call says. -/
def Holds (tr : List (Event ι)) (users : Users) (i : ι) : Stage → Prop
  | .arrived => ∀ account, .selected i account ∉ tr
  | .verified account => Verified username password tr users i account
  | .hashed account encoded =>
      Verified username password tr users i account ∧
        ∃ salt, Accounts.hash kdf salt (password i) = some encoded
  | .returned _ | .threw => True

/-- What `queryUserId` takes for a credential that may be missing. -/
def Opens (stored : Option Bytes) (presented : Bytes) : Prop :=
  ∃ credential, stored = some credential ∧ Accepts kdf credential presented

structure Inv (start : Option Bytes) (tr : List (Event ι)) (w : World ι) : Prop where
  stored : current start tr = (w.users.find? username).map (·.password)
  opens : ∀ presented, Opens kdf (current start tr) presented ↔ Opens kdf (lastSet start tr) presented
  calls : ∀ i, Holds kdf username password tr w.users i (w.stage i)

variable {kdf username password} {start : Option Bytes} {tr out : List (Event ι)} {w w' : World ι}

theorem moveTo_self (w : World ι) (i : ι) (stage : Stage) : (w.moveTo i stage).stage i = stage := by
  change Function.update w.stage i stage i = stage
  exact Function.update_self ..

theorem moveTo_other (w : World ι) {i j : ι} (other : j ≠ i) (stage : Stage) :
    (w.moveTo i stage).stage j = w.stage j := by
  change Function.update w.stage i stage j = w.stage j
  exact Function.update_of_ne other ..

omit [DecidableEq ι] in
theorem current_append (out : List (Event ι)) :
    current start (tr ++ out) = current (current start tr) out :=
  List.foldl_append

omit [DecidableEq ι] in
theorem lastSet_append (out : List (Event ι)) :
    lastSet start (tr ++ out) = lastSet (lastSet start tr) out :=
  List.foldl_append

omit [DecidableEq ι] in
/-- A verified row stays so while the account keeps its id. -/
theorem Holds.mono {users users' : Users} {i : ι} {stage : Stage}
    (holds : Holds kdf username password tr users i stage)
    (silent : ∀ account, .selected i account ∉ out)
    (ids : (users'.find? username).map (·.id) = (users.find? username).map (·.id)) :
    Holds kdf username password (tr ++ out) users' i stage := by
  have kept {account : User} (verified : Verified username password tr users i account) :
      Verified username password (tr ++ out) users' i account :=
    ⟨List.mem_append_left _ verified.seen, verified.plain, verified.same, ids.trans verified.row⟩
  cases stage with
  | arrived =>
      intro account member
      exact (List.mem_append.mp member).elim (holds account) (silent account)
  | verified account => exact kept holds
  | hashed account encoded => exact ⟨kept holds.1, holds.2⟩
  | returned userId => trivial
  | threw => trivial

theorem find?_mapPassword_id (users : Users) (change : User → Bytes) :
    ((users.mapPassword change).find? username).map (·.id) = (users.find? username).map (·.id) := by
  rw [Users.find?_mapPassword, Option.map_map]
  rfl

/-- One call moves on; the others keep what their stages say. -/
theorem Inv.calls_moveTo (inv : Inv kdf username password start tr w) {i : ι} {stage : Stage}
    {users : Users} (silent : ∀ j, j ≠ i → ∀ account, .selected j account ∉ out)
    (ids : (users.find? username).map (·.id) = (w.users.find? username).map (·.id))
    (own : Holds kdf username password (tr ++ out) users i stage) (j : ι) :
    Holds kdf username password (tr ++ out) users j ((w.moveTo i stage).stage j) := by
  by_cases same : j = i
  · rw [same, moveTo_self]
    exact own
  · rw [moveTo_other w same]
    exact (inv.calls j).mono (silent j same) ids

/-! ## One step -/

/-- A call that returns at once found no row, refused, or verified a hash; one that goes on
verified a plaintext password. -/
theorem examine_spec (presented : Bytes) (found : Option User) :
    (examine kdf presented found = .returned (-1)) ∨
      (∃ account, found = some account ∧ examine kdf presented found = .returned account.id ∧
        isHash account.password = true ∧ verify kdf presented account.password = true) ∨
      ∃ account, found = some account ∧ examine kdf presented found = .verified account ∧
        isHash account.password = false ∧ presented = account.password := by
  cases found with
  | none => exact .inl rfl
  | some account =>
      rw [examine]
      cases hashed : isHash account.password with
      | true =>
          cases passes : verify kdf presented account.password with
          | true => exact .inr (.inl ⟨account, rfl, rfl, hashed, passes⟩)
          | false => exact .inl rfl
      | false =>
          cases legacy : verifyLegacy presented account.password with
          | true =>
              right; right
              rw [verifyLegacy, hashed] at legacy
              exact ⟨account, rfl, rfl, hashed, by simpa using legacy⟩
          | false => exact .inl rfl

theorem select_step (inv : Inv kdf username password start tr w) {i : ι}
    (arrived : w.stage i = .arrived) :
    Inv kdf username password start
      (tr ++ .selected i (w.users.find? username) ::
        report i (examine kdf (password i) (w.users.find? username)))
      (w.moveTo i (examine kdf (password i) (w.users.find? username))) ∧
    Sound kdf password start tr (.selected i (w.users.find? username)) ∧
    ∀ event ∈ report i (examine kdf (password i) (w.users.find? username)),
      Sound kdf password start (tr ++ [.selected i (w.users.find? username)]) event := by
  have unseen : ∀ account, .selected i account ∉ tr := by
    have holds := inv.calls i
    rw [arrived] at holds
    exact holds
  have read : Sound kdf password start tr (.selected i (w.users.find? username)) :=
    ⟨inv.stored.symm, unseen⟩
  have silent (stage : Stage) :
      ∀ j, j ≠ i → ∀ account, .selected j account ∉
        Event.selected i (w.users.find? username) :: report i stage := by
    intro j other account member
    cases stage <;> simp [report, other] at member
  have quiet (stage : Stage) (stored : Option Bytes) :
      current stored (.selected i (w.users.find? username) :: report i stage) = stored ∧
        lastSet stored (.selected i (w.users.find? username) :: report i stage) = stored := by
    cases stage <;> exact ⟨rfl, rfl⟩
  have moved {stage : Stage}
      (own : Holds kdf username password
        (tr ++ .selected i (w.users.find? username) :: report i stage) w.users i stage) :
      Inv kdf username password start
        (tr ++ .selected i (w.users.find? username) :: report i stage) (w.moveTo i stage) := by
    refine ⟨?_, fun presented => ?_, inv.calls_moveTo (silent stage) rfl own⟩
    · rw [current_append, (quiet stage _).1]
      exact inv.stored
    · rw [current_append, (quiet stage _).1, lastSet_append, (quiet stage _).2]
      exact inv.opens presented
  rcases @examine_spec kdf (password i) (w.users.find? username) with
    refused | ⟨account, found, passed, hashed, verified⟩ | ⟨account, found, legacy, plain, same⟩
  · rw [refused]
    refine ⟨moved trivial, read, fun event member => ?_⟩
    rw [List.mem_singleton.mp member]
    exact fun known => absurd rfl known
  · rw [passed]
    refine ⟨moved trivial, read, fun event member => ?_⟩
    rw [List.mem_singleton.mp member]
    refine fun _ => ⟨account, ?_, rfl, ?_, fun plain => ?_⟩
    · rw [found]
      exact List.mem_append_right _ (List.mem_singleton_self _)
    · rw [Accepts, if_pos hashed]
      exact verified
    · rw [hashed] at plain
      cases plain
  · rw [legacy]
    refine ⟨moved ⟨?_, plain, same, by rw [found]; rfl⟩, read, nofun⟩
    rw [found]
    exact List.mem_append_right _ List.mem_cons_self

/-- The `UPDATE` changes the account just when the verified credential is still there. -/
theorem replacePassword_spec {users : Users} {row : User} (found : users.find? username = some row)
    {id : Int} (own : row.id = id) {old encoded : Bytes} (other : old ≠ encoded) :
    ((users.replacePassword encoded id old).1 = 1 ↔ row.password = old) ∧
      (users.replacePassword encoded id old).2.find? username =
        some { row with password := if row.password = old then encoded else row.password } := by
  subst own
  constructor
  · rw [Users.replacePassword_of_mem (Users.find?_some found).1]
    simp [other]
  · change (users.mapPassword _).find? username = _
    rw [Users.find?_mapPassword, found]
    simp

theorem ne_of_isHash {old encoded : Bytes} (plain : isHash old = false)
    (hashed : isHash encoded = true) : old ≠ encoded := by
  rintro rfl
  rw [plain] at hashed
  cases hashed

omit [DecidableEq ι] in
/-- What a call that is about to store a hash has seen. -/
theorem Inv.hashed (inv : Inv kdf username password start tr w) {i : ι} {account : User} {encoded : Bytes}
    (hashed : w.stage i = .hashed account encoded) :
    Verified username password tr w.users i account ∧
      ∃ salt, Accounts.hash kdf salt (password i) = some encoded := by
  have holds := inv.calls i
  rw [hashed] at holds
  exact holds

theorem replace_step (injective : Injective kdf) (inv : Inv kdf username password start tr w)
    {i : ι} {account : User} {encoded : Bytes} {users : Users}
    (hashed : w.stage i = .hashed account encoded)
    (replaced : w.users.replacePassword encoded account.id account.password = (1, users)) :
    Inv kdf username password start
      (tr ++ [.replaced i account.password encoded, .returned i account.id])
      { w.moveTo i (.returned account.id) with users := users } ∧
    Sound kdf password start tr (.replaced i account.password encoded) ∧
    Sound kdf password start (tr ++ [.replaced i account.password encoded])
      (.returned i account.id) := by
  obtain ⟨⟨seen, plain, same, row⟩, salt, made⟩ := inv.hashed hashed
  have encodedHash := isHash_hash kdf made
  have takes (presented : Bytes) : verify kdf presented encoded = true ↔ presented = account.password :=
    same ▸ verify_hash_iff injective made presented
  obtain ⟨stored, found, id⟩ := Option.map_eq_some_iff.mp row
  obtain ⟨changes, found'⟩ :=
    replacePassword_spec found id (ne_of_isHash plain encodedHash)
  rw [replaced] at changes found'
  have still : stored.password = account.password := changes.mp rfl
  rw [still, if_pos rfl] at found'
  have before : current start tr = some account.password := by
    rw [inv.stored, found, ← still]
    rfl
  have events : current (some account.password)
      [.replaced i account.password encoded, .returned i account.id] = some encoded := rfl
  refine ⟨⟨?_, fun presented => ?_, ?_⟩, ⟨⟨account, seen, rfl⟩, plain, same, before, encodedHash, takes⟩,
    fun _ => ⟨account, List.mem_append_left _ seen, rfl, ?_, fun _ => ⟨encoded, ?_⟩⟩⟩
  · rw [current_append, before, events]
    exact (congrArg (Option.map (·.password)) found').symm
  · rw [current_append, before, events, lastSet_append]
    have opened : Opens kdf (some encoded) presented ↔ Opens kdf (some account.password) presented := by
      simp [Opens, Accepts, encodedHash, plain, takes presented]
    rw [opened, ← before]
    exact inv.opens presented
  · refine inv.calls_moveTo (fun j _ a member => by simp at member) ?_ trivial
    exact (congrArg (Option.map (·.id)) found').trans (congrArg (Option.map (·.id)) found).symm
  · rw [Accepts, plain]
    exact same
  · exact List.mem_append_right _ (List.mem_singleton_self _)

theorem miss_step (inv : Inv kdf username password start tr w) {i : ι} {account : User}
    {encoded : Bytes} {changed : Nat} {users : Users} (hashed : w.stage i = .hashed account encoded)
    (stale : changed ≠ 1)
    (missed : w.users.replacePassword encoded account.id account.password = (changed, users)) :
    Inv kdf username password start (tr ++ [.returned i (-1)])
      { w.moveTo i (.returned (-1)) with users := users } := by
  obtain ⟨⟨seen, plain, same, row⟩, salt, made⟩ := inv.hashed hashed
  obtain ⟨stored, found, id⟩ := Option.map_eq_some_iff.mp row
  obtain ⟨changes, found'⟩ :=
    replacePassword_spec found id (ne_of_isHash plain (isHash_hash kdf made))
  rw [missed] at changes found'
  rw [if_neg (mt changes.mpr stale)] at found'
  have kept : users.find? username = w.users.find? username := found'.trans found.symm
  refine ⟨?_, fun presented => ?_, ?_⟩
  · rw [current_append]
    exact inv.stored.trans (congrArg (Option.map (·.password)) kept.symm)
  · rw [current_append, lastSet_append]
    exact inv.opens presented
  · exact inv.calls_moveTo (fun j _ a member => by simp at member) (congrArg (Option.map (·.id)) kept)
      trivial

theorem hash_step (inv : Inv kdf username password start tr w) {i : ι} {stage : Stage}
    (own : Holds kdf username password tr w.users i stage) :
    Inv kdf username password start tr (w.moveTo i stage) := by
  refine ⟨inv.stored, inv.opens, ?_⟩
  rw [← List.append_nil tr] at own ⊢
  exact inv.calls_moveTo (fun j _ a member => by simp at member) rfl own

omit [DecidableEq ι] in
theorem change_step (inv : Inv kdf username password start tr w) (change : User → Bytes) :
    Inv kdf username password start
      (tr ++ [.changed (((w.users.mapPassword change).find? username).map (·.password))])
      { w with users := w.users.mapPassword change } := by
  refine ⟨?_, fun presented => ?_, fun i => ?_⟩
  · rw [current_append]
    rfl
  · rw [current_append, lastSet_append]
    rfl
  · exact (inv.calls i).mono (fun a member => by simp at member) (find?_mapPassword_id w.users change)

omit [DecidableEq ι] in
theorem report_length (i : ι) (stage : Stage) : (report i stage).length ≤ 1 := by
  cases stage <;> simp [report]

theorem inv_step (injective : Injective kdf) (inv : Inv kdf username password start tr w)
    (step : Step kdf username password w out w') :
    Inv kdf username password start (tr ++ out) w' ∧
      ∀ pre event post, out = pre ++ event :: post → Sound kdf password start (tr ++ pre) event := by
  cases step with
  | select i arrived =>
      obtain ⟨next, first, rest⟩ := select_step inv arrived
      refine ⟨next, fun pre event post split => ?_⟩
      cases pre with
      | nil =>
          rw [List.append_nil, ← (List.cons.inj split).1]
          exact first
      | cons e pre =>
          rw [List.cons_append] at split
          obtain ⟨rfl, more⟩ := List.cons.inj split
          have short := report_length i (examine kdf (password i) (w.users.find? username))
          rw [more, List.length_append, List.length_cons] at short
          obtain rfl := List.length_eq_zero_iff.mp (by omega : pre.length = 0)
          exact rest event (more ▸ List.mem_cons_self)
  | hash i salt verified hashed =>
      rw [List.append_nil]
      have holds := inv.calls i
      rw [verified] at holds
      exact ⟨hash_step inv ⟨holds, salt, hashed⟩, fun pre event post split => by simp at split⟩
  | throw i salt verified fails =>
      rw [List.append_nil]
      exact ⟨hash_step inv trivial, fun pre event post split => by simp at split⟩
  | replace i hashed replaced =>
      obtain ⟨next, first, second⟩ := replace_step injective inv hashed replaced
      refine ⟨next, fun pre event post split => ?_⟩
      match pre, split with
      | [], split =>
          rw [List.append_nil, ← (List.cons.inj split).1]
          exact first
      | [e], split =>
          obtain ⟨rfl, more⟩ := List.cons.inj split
          rw [← (List.cons.inj more).1]
          exact second
      | _ :: _ :: _, split => simp at split
  | miss i hashed stale missed =>
      refine ⟨miss_step inv hashed stale missed, fun pre event post split => ?_⟩
      cases pre with
      | nil =>
          rw [← (List.cons.inj split).1]
          exact fun known => absurd rfl known
      | cons e pre => simp at split
  | change change =>
      refine ⟨change_step inv change, fun pre event post split => ?_⟩
      cases pre with
      | nil =>
          rw [← (List.cons.inj split).1]
          trivial
      | cons e pre => simp at split

/-- In every run each event says what `Sound` asks of it, the account takes the passwords
that the credential last set from elsewhere takes, and no hash is compared as plaintext. -/
theorem upgrade_safe (injective : Injective kdf) {users : Users}
    (run : Run (Step kdf username password) { users := users } tr w) :
    let start := (users.find? username).map (·.password)
    (∀ before event after, tr = before ++ event :: after →
        Sound kdf password start before event) ∧
      (∀ presented, Opens kdf ((w.users.find? username).map (·.password)) presented ↔
        Opens kdf (lastSet start tr) presented) ∧
      ∀ presented stored, isHash stored = true → verifyLegacy presented stored = false := by
  intro start
  have all {tr : List (Event ι)} {w : World ι}
      (run : Run (Step kdf username password) { users := users } tr w) :
      Inv kdf username password start tr w := by
    refine run.invariant (I := fun w tr => Inv kdf username password start tr w)
      ⟨rfl, fun presented => Iff.rfl, fun i => ?_⟩ ?_
    · exact fun account => List.not_mem_nil
    exact fun inv step => (inv_step injective inv step).1
  refine ⟨fun before event after split => ?_, fun presented => ?_, fun presented stored hashed => ?_⟩
  · refine run.observed (E := Sound kdf password start) ?_ split
    exact fun earlier step => (inv_step injective (all earlier) step).2
  · rw [← (all run).stored]
    exact (all run).opens presented
  · rw [verifyLegacy, hashed]
    rfl

/-! ## One login -/

theorem knownKdf_injective : Injective knownKdf := by
  intro password password' salt cost key derived derived'
  rw [knownKdf] at derived derived'
  split at derived
  · next known =>
      split at derived'
      · next known' => exact known.1.trans known'.1.symm
      · cases derived'
  · cases derived

/-- The account of `u`, with a plaintext password. -/
def plaintextUser : User := ⟨1, bytes "u", bytes "known-test-password"⟩

def oneUser : Users := ⟨[plaintextUser], List.nodup_singleton _, by decide, List.nodup_singleton _⟩

/-- A login that upgrades the account. -/
theorem upgrade_safe_login :
    ∃ tr w, Run (Step knownKdf (bytes "u") fun _ : Unit => plaintextUser.password)
        { users := oneUser } tr w ∧ .returned () 1 ∈ tr ∧
      ∀ before event after, tr = before ++ event :: after →
        Sound knownKdf (fun _ : Unit => plaintextUser.password) (some plaintextUser.password)
          before event := by
  obtain ⟨encoded, hashed⟩ : ∃ encoded, Accounts.hash knownKdf
      (some knownSalt) plaintextUser.password = some encoded :=
    ⟨_, rfl⟩
  let Stepped := Step knownKdf (bytes "u") fun _ : Unit => plaintextUser.password
  let verified := World.moveTo { users := oneUser } () (.verified plaintextUser)
  let ready := verified.moveTo () (.hashed plaintextUser encoded)
  have first : Stepped { users := oneUser } [.selected () (some plaintextUser)] verified :=
    .select () rfl
  have second : Stepped verified [] ready := .hash () _ (moveTo_self _ () _) hashed
  have found : oneUser.find? (bytes "u") = some plaintextUser := rfl
  have there := replacePassword_spec found rfl
    (ne_of_isHash (by decide : isHash plaintextUser.password = false) (isHash_hash _ hashed))
  have third : Stepped ready [.replaced () plaintextUser.password encoded, .returned () 1] _ :=
    .replace () (moveTo_self verified () _) (Prod.ext (there.1.mpr rfl) rfl)
  have run := Run.tail (.tail (.single first) second) third
  exact ⟨_, _, run, by simp, (upgrade_safe knownKdf_injective run).1⟩

end AIService.Upgrade
